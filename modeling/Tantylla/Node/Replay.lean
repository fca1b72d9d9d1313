/-
  A batch delivered twice.

  On the register of an id a second delivery changes nothing (`Register.exec_replay`).
  `replay_harmless`: a batch that was answered and is delivered again changes no live
  document, as long as the lookups of the second delivery are those of the first, or
  all lookups of both are current.
-/
import Tantylla.Node.Cells
import Tantylla.Node.Wrapper

namespace Tantylla

namespace Engine

variable {part : String → String} {X : Crates} {s : Engine} {id : String}

/-- The operations are in writetime order. -/
def InOrder (ops : List IndexOperation) : Prop :=
  ops.Pairwise fun a b => a.writetime ≤ b.writetime

instance (ops : List IndexOperation) : Decidable (InOrder ops) :=
  inferInstanceAs (Decidable (List.Pairwise _ _))

/-! ## The operations of a register -/

/-- An operation that shows on the register of `id` is an upsert or a delete of it, or a
    delete of its partition. -/
theorem cellOp_cases {r : Option Doc} {o : IndexOperation} {a : (cells r).Op}
    (h : cellOp X r part id o = some a) :
    (o.type = .upsert ∧ o.id = id ∧ a = .write o.writetime (writeCell X r o) fun _ => rfl) ∨
    (o.type = .delete ∧ o.id = id ∧ a = .erase o.writetime) ∨
    (o.type = .partitionDelete ∧ o.partition = part id ∧ a = .clear) := by
  unfold cellOp at h
  cases ht : o.type with
  | upsert =>
    simp only [ht] at h
    split_ifs at h with hid
    cases h
    exact Or.inl ⟨rfl, hid, rfl⟩
  | delete =>
    simp only [ht] at h
    split_ifs at h with hid
    cases h
    exact Or.inr (Or.inl ⟨rfl, hid, rfl⟩)
  | partitionDelete =>
    simp only [ht] at h
    split_ifs at h with hpk
    cases h
    exact Or.inr (Or.inr ⟨rfl, hpk, rfl⟩)
  | unspecified => simp only [ht] at h; cases h

theorem liveOp_version {hX : X.Lawful} {o : IndexOperation} {a : lives.Op}
    (h : liveOp hX part id o = some a) : ∀ v ∈ a.version, v = o.writetime := by
  unfold liveOp at h
  intro v hv
  cases ht : o.type with
  | upsert =>
    simp only [ht] at h
    split_ifs at h
    all_goals cases h; cases hv; rfl
  | delete =>
    simp only [ht] at h
    split_ifs at h
    cases h; cases hv; rfl
  | partitionDelete =>
    simp only [ht] at h
    split_ifs at h
    cases h; cases hv
  | unspecified => simp only [ht] at h; cases h

theorem ordered_filterMap {σ : Type*} {R : Register σ} {f : IndexOperation → Option R.Op}
    (hf : ∀ o a, f o = some a → ∀ v ∈ a.version, v = o.writetime) {ops : List IndexOperation}
    (h : InOrder ops) : R.Ordered (ops.filterMap f) := by
  refine List.pairwise_filterMap.2 (h.imp ?_)
  intro o o' hle a ha a' ha' v hv w hw
  rw [hf o a ha v hv, hf o' a' ha' w hw]
  exact hle

theorem ordered_cells {r : Option Doc} {ops : List IndexOperation} (h : InOrder ops) :
    (cells r).Ordered (ops.filterMap (cellOp X r part id)) := by
  refine ordered_filterMap (fun o a ha v hv => ?_) h
  rcases cellOp_cases ha with ⟨-, -, rfl⟩ | ⟨-, -, rfl⟩ | ⟨-, -, rfl⟩
  · cases hv; rfl
  · cases hv; rfl
  · cases hv

/-! ## An answered batch delivered again -/

/-- An event keeps each id in its partition. -/
def EventKeepsHome (part : String → String) : Event → Prop
  | .op _ o => KeepsHome part o
  | _ => True

/-- Each id is in its partition, and will be after a restart. -/
theorem Homed.step (hX : X.Lawful) (s : Engine) (e : Event)
    (h : Homed part s ∧ Homed part (new s.committed)) (he : EventKeepsHome part e) :
    Homed part (step X s e) ∧ Homed part (new (step X s e).committed) := by
  obtain ⟨hs, hc⟩ := h
  have hnew (t : Engine) (ht : Homed part t) : Homed part (new t.writer) :=
    fun id => ⟨(ht id).1, fun c hg => by cases hg⟩
  have hprune (now : ℤ) : Homed part (s.prune now) :=
    hs.thin (fun id d hd => List.mem_of_mem_filter (live_prune s id now ▸ hd)) id
  cases e with
  | op addOk o =>
    have ho := processOp_step X addOk s o
    refine ⟨hs.op hX he ho, ?_⟩
    rw [Engine.step, ho.frame.1]
    exact hc
  | commit r =>
    by_cases hr : r = .ok
    · subst hr
      exact ⟨hs.thin (fun _ _ => id) fun hg => OrdMap.of_retain hg, hnew s hs⟩
    · obtain ⟨hcm, hu⟩ := s.committerTick_of_ne_ok hr
      refine ⟨hs.thin (fun id d hd => live_committerTick s id r ▸ hd) fun hg => ?_, ?_⟩
      · rwa [Engine.step, hu] at hg
      · rw [Engine.step, hcm]; exact hc
  | reload => exact ⟨hs, hc⟩
  | prune now r =>
    cases r with
    | ok => exact ⟨hprune now, hnew _ (hprune now)⟩
    | commitFailed => exact ⟨hprune now, hc⟩
    | queryFailed | contended => exact ⟨hs, hc⟩
  | crash => exact ⟨hc, hc⟩

/-- Between two states nothing has changed that the lookups of `id` depend on: neither
    its cached document nor what the reader shows of it. -/
def Untouched (id : String) (s s' : Engine) : Prop :=
  (s'.cell id).cached = (s.cell id).cached ∧ s'.snapshot id = s.snapshot id

/-- A commit, successful or not, or a reload. -/
def CommitOrReload (e : Event) : Prop := (∃ r, e = .commit r) ∨ e = .reload

theorem live_of_commitOrReload {gs : List Event} (h : ∀ e ∈ gs, CommitOrReload e) (s : Engine)
    (id : String) : (Run.exec (step X) s gs).live id = s.live id := by
  refine (Run.along_of_forall h).inv (I := fun t : Engine => t.live id = s.live id)
    (fun t e ht he => ?_) rfl
  rcases he with ⟨r, rfl⟩ | rfl
  · rw [step, live_committerTick, ht]
  · exact ht

theorem exec_of_answered {ok : ℕ → Bool} {s' : Engine} {ops : List IndexOperation}
    (h : ∃ r, processBatch X ok s ops = (s', some r)) : s' = Run.exec (opStep X) s ops := by
  obtain ⟨r, hr⟩ := h
  rw [← @processBatch_of_isSome X ok s ops (by rw [hr]; rfl), hr]

/-- A second delivery leaves the live documents of an id as they were, if nothing that its
    lookups depend on has changed in between, or they are all current in both. -/
theorem live_replay (hX : X.Lawful) {ops : List IndexOperation} {s₁ s₂ : Engine}
    (hs : Homed part s) (hs₂ : Homed part s₂) (hops : ∀ o ∈ ops, KeepsHome part o)
    (hord : InOrder ops) (h₁ : s₁ = Run.exec (opStep X) s ops) (hlive : s₂.live id = s₁.live id)
    (hid : Untouched id s₁ s₂ ∨ (Run.Along (opStep X) (CurrentAt id) s ops ∧
      Run.Along (opStep X) (CurrentAt id) s₂ ops)) :
    (Run.exec (opStep X) s₂ ops).live id = s₁.live id := by
  rcases hid with ⟨hcached, hsnap⟩ | ⟨hc₁, hc₂⟩
  · -- the register of the cell starts the second delivery as it ended the first
    have hcell : s₂.cell id = s₁.cell id := by
      rw [cell, hlive]
      exact congrArg (Cell.mk · (s₁.live id)) hcached
    have hsnap₁ : s₁.snapshot id = s.snapshot id := by
      rw [h₁, snapshot_exec]
    have hfirst := h₁ ▸ cell_exec hX (fun _ => ⟨hs, hops⟩) id
    have hsecond := cell_exec hX (fun _ => ⟨hs₂, hops⟩) id
    rw [hsnap, hsnap₁, hcell, hfirst, Register.exec_replay (ordered_cells hord)] at hsecond
    exact congrArg Cell.live (hsecond.trans hfirst.symm)
  · have hfirst := h₁ ▸ live_exec hX hs hops hc₁
    have hsecond := live_exec hX hs₂ hops hc₂
    rw [hlive, hfirst, Register.exec_replay
      (ordered_filterMap (fun o a ha => liveOp_version ha) hord)] at hsecond
    exact hsecond.trans hfirst.symm

/-- **Replay.**  A batch in writetime order that was answered and is delivered again,
    after any commits and reloads, leaves the live documents as they were, if for each id
    nothing that its lookups depend on has changed in between, or all its lookups are
    current in both deliveries. -/
theorem replay_harmless (hX : X.Lawful) {es gs : List Event} {ops : List IndexOperation}
    {ok₁ ok₂ : ℕ → Bool} {s₁ s₃ : Engine} (hes : ∀ e ∈ es, EventKeepsHome part e)
    (hops : ∀ o ∈ ops, KeepsHome part o) (hord : InOrder ops)
    (h₁ : ∃ r, processBatch X ok₁ (Run.exec (step X) (new []) es) ops = (s₁, some r))
    (hgs : ∀ e ∈ gs, CommitOrReload e)
    (h₂ : ∃ r, processBatch X ok₂ (Run.exec (step X) s₁ gs) ops = (s₃, some r))
    (hid : ∀ id, Untouched id s₁ (Run.exec (step X) s₁ gs) ∨
      (Run.Along (opStep X) (CurrentAt id) (Run.exec (step X) (new []) es) ops ∧
        Run.Along (opStep X) (CurrentAt id) (Run.exec (step X) s₁ gs) ops)) :
    ∀ d, d ∈ s₃.writer ↔ d ∈ s₁.writer := by
  have hs₁ := exec_of_answered h₁
  have hs₃ := exec_of_answered h₂
  -- each id stays in its partition
  obtain ⟨hhome, hcom⟩ := (Run.along_of_forall hes).inv (Homed.step hX)
    ⟨homed_new part, homed_new part⟩
  have hhome₁ : Homed part s₁ := hs₁ ▸ hhome.exec hX hops
  have hcom₁ : s₁.committed = _ := hs₁ ▸ (frame_exec X _ ops).2
  have hhome₂ : Homed part (Run.exec (step X) s₁ gs) := by
    refine ((Run.along_of_forall hgs).inv (I := fun t => Homed part t ∧
      Homed part (new t.committed)) (fun t e ht he => Homed.step hX t e ht ?_)
      ⟨hhome₁, hcom₁ ▸ hcom⟩).1
    rcases he with ⟨r, rfl⟩ | rfl <;> trivial
  intro d
  have hlive : s₃.live d.id = s₁.live d.id := hs₃ ▸
    live_replay hX hhome hhome₂ hops hord hs₁ (live_of_commitOrReload hgs s₁ d.id) (hid d.id)
  have hmem (l : List TantivyDoc) : d ∈ l ↔ d ∈ docsOf d.id l := by simp
  rw [hmem s₃.writer, hmem s₁.writer]
  exact iff_of_eq (congrArg (d ∈ ·) hlive)

/-- An upsert delivered again after a commit and a reload. -/
theorem replay_harmless_upsert :
    let ops := [sampleOp .upsert "a" "p" 10 "\x7b\"a\":1\x7d"]
    let s₁ := (processBatch sampleCrates (fun _ => true) (new []) ops).1
    let s₂ := Run.exec (step sampleCrates) s₁ [.commit .ok, .reload]
    ∀ d, d ∈ (processBatch sampleCrates (fun _ => true) s₂ ops).1.writer ↔ d ∈ s₁.writer := by
  intro ops s₁ s₂
  refine @replay_harmless (fun _ => "p") sampleCrates sampleCrates_lawful [] [.commit .ok, .reload]
    ops (fun _ => true) (fun _ => true) s₁ _ nofun ?_ ?_ ⟨_, rfl⟩ ?_ ⟨_, rfl⟩
    fun id => Or.inr ⟨⟨?_, trivial⟩, ⟨?_, trivial⟩⟩
  · exact fun o ho _ => by rw [List.mem_singleton.1 ho]; rfl
  · exact List.pairwise_singleton ..
  · intro e he
    rcases List.mem_cons.1 he with rfl | he
    · exact Or.inl ⟨_, rfl⟩
    · exact Or.inr (List.mem_singleton.1 he)
  · rintro - rfl
    exact (by decide : Current "a" (new []))
  · rintro - rfl
    exact (by decide : Current "a" s₂)

/-- A delete of the partition and an upsert, delivered again after a commit and a reload:
    the second upsert is taken for stale, and the row is lost. -/
theorem replay_loses_row :
    let ops := [sampleOp .partitionDelete "p" "p" 1 "",
      sampleOp .upsert "a" "p" 2 "\x7b\"a\":1\x7d"]
    let s₁ := (processBatch sampleCrates (fun _ => true) (new []) ops).1
    let s₂ := Run.exec (step sampleCrates) s₁ [.commit .ok, .reload]
    let s₃ := (processBatch sampleCrates (fun _ => true) s₂ ops).1
    InOrder ops ∧ (∀ o ∈ ops, KeepsHome (fun _ => "p") o) ∧
    (processBatch sampleCrates (fun _ => true) (new []) ops).2 = some ⟨2, 0, true⟩ ∧
    (processBatch sampleCrates (fun _ => true) s₂ ops).2 = some ⟨1, 1, true⟩ ∧
    s₁.writer.map TantivyDoc.id = ["a"] ∧ s₃.writer = [] := by
  refine ⟨by decide, ?_, by decide, by decide, by decide, by decide⟩
  simp [KeepsHome, sampleOp, IndexOperation.partition]

end Engine

end Tantylla
