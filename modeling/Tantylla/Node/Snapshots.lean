/-
  What a reader sees (`engine/core.rs`).

  Searches read a snapshot, the last commit that the reader has loaded.  A batch holds the
  writer's lock, so no commit falls inside it.  `snapshots_in_order`: a snapshot is what the
  writer had after some number of whole calls, the last commit is what it had after as many
  or more, and neither number goes back, in any run with any failures and crashes.
-/
import Tantylla.Node.Step
import Mathlib.Data.List.Induction

namespace Tantylla

namespace Engine

variable {X : Crates}

/-! ## The layers in a call -/

theorem mem_batchEvents {addOk : ℕ → Bool} {ops : List IndexOperation} {e : Event} :
    ∀ {i : ℕ} {s : Engine}, e ∈ batchEvents X addOk i s ops → ∃ ok, ∃ o ∈ ops, e = .op ok o := by
  induction ops with
  | nil => exact fun h => by cases h
  | cons o ops ih =>
    intro i s h
    rw [batchEvents] at h
    rcases List.mem_cons.1 h with rfl | h
    · exact ⟨addOk i, o, List.mem_cons_self, rfl⟩
    · split_ifs at h
      · cases h
      · obtain ⟨ok, o', ho', he⟩ := ih h
        exact ⟨ok, o', List.mem_cons_of_mem _ ho', he⟩

theorem frame_batch (addOk : ℕ → Bool) (s : Engine) (ops : List IndexOperation) :
    (processBatch X addOk s ops).1.committed = s.committed ∧
      (processBatch X addOk s ops).1.reader = s.reader := by
  rw [processBatch_fst]
  have hops : ∀ e ∈ batchEvents X addOk 0 s ops, ∃ ok, ∃ o ∈ ops, e = .op ok o :=
    fun e he => mem_batchEvents he
  refine (Run.along_of_forall hops).inv
    (I := fun t : Engine => t.committed = s.committed ∧ t.reader = s.reader)
    (fun t e ht he => ?_) ⟨rfl, rfl⟩
  obtain ⟨ok, o, -, rfl⟩ := he
  obtain ⟨hc, hr, -⟩ := (processOp_step X ok t o).frame
  exact ⟨hc.trans ht.1, hr.trans ht.2⟩

/-- The call commits what the writer has after it. -/
def Call.commits : Call → Bool
  | .commit .ok | .prune _ .ok => true
  | .commit .failed | .commit .contended | .prune _ .commitFailed | .prune _ .queryFailed
  | .prune _ .contended | .batch _ _ | .reload | .crash => false

/-- The reader shows the last commit after the call; a restart opens the index anew. -/
def Call.reloads : Call → Bool
  | .reload | .crash => true
  | .batch _ _ | .commit _ | .prune _ _ => false

/-- **What a call does to the last commit and to the reader.** -/
theorem layers_call (s : Engine) (c : Call) :
    (callStep X s c).committed = (if c.commits then (callStep X s c).writer else s.committed) ∧
      (callStep X s c).reader = if c.reloads then s.committed else s.reader := by
  cases c with
  | batch addOk ops => exact frame_batch addOk s ops
  | commit r => cases r <;> exact ⟨rfl, rfl⟩
  | prune now r => cases r <;> exact ⟨rfl, rfl⟩
  | reload | crash => exact ⟨rfl, rfl⟩

/-! ## The snapshots of a run -/

/-- How many calls there were, and how many of them the last commit and the reader show. -/
structure Marks where
  calls : ℕ
  committed : ℕ
  shown : ℕ

def Marks.after (m : Marks) (c : Call) : Marks where
  calls := m.calls + 1
  committed := if c.commits then m.calls + 1 else m.committed
  shown := if c.reloads then m.committed else m.shown

def marks (cs : List Call) : Marks := Run.exec Marks.after ⟨0, 0, 0⟩ cs

theorem marks_concat (cs : List Call) (c : Call) : marks (cs ++ [c]) = (marks cs).after c :=
  Run.exec_append ..

/-- The documents of the writer after the first `k` calls of a run. -/
def writerAfter (X : Crates) (docs : List TantivyDoc) (cs : List Call) (k : ℕ) :
    List TantivyDoc := (Run.exec (callStep X) (new docs) (cs.take k)).writer

/-- The last commit and the reader show the writer as the marks say. -/
structure Marked (X : Crates) (docs : List TantivyDoc) (cs : List Call) : Prop where
  calls : (marks cs).calls = cs.length
  committed_le : (marks cs).committed ≤ cs.length
  shown_le : (marks cs).shown ≤ (marks cs).committed
  committed : (Run.exec (callStep X) (new docs) cs).committed =
    writerAfter X docs cs (marks cs).committed
  reader : (Run.exec (callStep X) (new docs) cs).reader =
    writerAfter X docs cs (marks cs).shown

theorem marked_run (docs : List TantivyDoc) (cs : List Call) : Marked X docs cs := by
  induction cs using List.reverseRecOn with
  | nil => exact ⟨rfl, le_refl _, le_refl _, rfl, rfl⟩
  | append_singleton cs c ih =>
    obtain ⟨hcalls, hle, hshown, hcommitted, hreader⟩ := ih
    obtain ⟨hc, hr⟩ := layers_call (X := X) (Run.exec (callStep X) (new docs) cs) c
    have hexec : Run.exec (callStep X) (new docs) (cs ++ [c]) =
        callStep X (Run.exec (callStep X) (new docs) cs) c := Run.exec_append ..
    have hbefore (k : ℕ) (hk : k ≤ cs.length) :
        writerAfter X docs (cs ++ [c]) k = writerAfter X docs cs k := by
      rw [writerAfter, List.take_append_of_le_length hk, writerAfter]
    have hnow : writerAfter X docs (cs ++ [c]) (cs.length + 1) =
        (callStep X (Run.exec (callStep X) (new docs) cs) c).writer := by
      rw [writerAfter, List.take_of_length_le (by simp), hexec]
    rw [← hexec] at hc hr hnow
    constructor
    · rw [marks_concat, Marks.after, hcalls, List.length_append]
      rfl
    · rw [marks_concat, Marks.after, List.length_append, hcalls]
      dsimp only
      split_ifs
      · exact le_refl _
      · exact hle.trans (Nat.le_succ _)
    · rw [marks_concat, Marks.after, hcalls]
      dsimp only
      split_ifs
      · exact hle.trans (Nat.le_succ _)
      · exact le_refl _
      · exact hshown.trans (hle.trans (Nat.le_succ _))
      · exact hshown
    · rw [hc, marks_concat, Marks.after, hcalls]
      dsimp only
      split_ifs
      · exact hnow.symm
      · rw [hbefore _ hle, hcommitted]
    · rw [hr, marks_concat, Marks.after]
      dsimp only
      split_ifs
      · rw [hbefore _ hle, hcommitted]
      · rw [hbefore _ (hshown.trans hle), hreader]

theorem Marked.le_after {docs : List TantivyDoc} {cs : List Call} (hcs : Marked X docs cs)
    (c : Call) :
    (marks cs).committed ≤ ((marks cs).after c).committed ∧
      (marks cs).shown ≤ ((marks cs).after c).shown := by
  have hle := hcs.committed_le
  have hshown := hcs.shown_le
  rw [← hcs.calls] at hle
  constructor
  · rw [Marks.after]
    dsimp only
    split_ifs
    · exact hle.trans (Nat.le_succ _)
    · exact le_refl _
  · rw [Marks.after]
    dsimp only
    split_ifs
    · exact hshown
    · exact le_refl _

/-- **Snapshots are whole calls, in order.**  In every run of a node, whatever fails and
    whenever it crashes, the reader shows what the writer had after the first
    `(marks cs).shown` calls, and the last commit what it had after the first
    `(marks cs).committed`, which are no fewer.  Further calls let neither go back. -/
theorem snapshots_in_order (X : Crates) (docs : List TantivyDoc) (cs cs' : List Call) :
    let s := Run.exec (callStep X) (new docs) cs
    s.reader = writerAfter X docs cs (marks cs).shown ∧
      s.committed = writerAfter X docs cs (marks cs).committed ∧
      (marks cs).shown ≤ (marks cs).committed ∧ (marks cs).committed ≤ cs.length ∧
      (marks cs).shown ≤ (marks (cs ++ cs')).shown ∧
      (marks cs).committed ≤ (marks (cs ++ cs')).committed := by
  intro s
  have hcs := marked_run (X := X) docs cs
  refine ⟨hcs.reader, hcs.committed, hcs.shown_le, hcs.committed_le, ?_⟩
  induction cs' using List.reverseRecOn with
  | nil => rw [List.append_nil]; exact ⟨le_refl _, le_refl _⟩
  | append_singleton cs' c ih =>
    obtain ⟨hcommitted, hshown⟩ := (marked_run (X := X) docs (cs ++ cs')).le_after c
    rw [← List.append_assoc, marks_concat]
    exact ⟨ih.1.trans hshown, ih.2.trans hcommitted⟩

end Engine

end Tantylla
