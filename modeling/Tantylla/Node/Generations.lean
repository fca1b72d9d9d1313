/-
  The generations of the cache.

  A cached document is stamped with the current generation, and a committer commit that
  succeeds evicts the generations up to the current one and starts the next.  So the cache
  holds what was written since (`CacheBound`), as long as the counter only counts up.  But
  a commit that fails steps the counter back, over generations that are still stamped on
  cached documents: `cacheBound_iff`.
-/
import Tantylla.Node.Cell
import Tantylla.Node.Wrapper
import Mathlib.Data.List.Induction

namespace Tantylla

namespace Engine

variable (X : Crates)

/-- The counter stays or goes up by one; a restart begins with a counter of its own. -/
def Steady (s : Engine) (e : Event) : Prop :=
  e = .crash ∨ (step X s e).currentGeneration = s.currentGeneration ∨
    (step X s e).currentGeneration = s.currentGeneration + 1

/-- The cached document `c` of `id` was put there by an upsert of the run, after which no
    committer commit has succeeded. -/
def WrittenSinceCommit (s₀ : Engine) (es : List Event) (id : String) (c : Doc) : Prop :=
  ∃ pre addOk op post, es = pre ++ .op addOk op :: post ∧ .commit .ok ∉ post ∧
    op.type = .upsert ∧ op.id = id ∧ c = upsertDoc X (Run.exec (step X) s₀ pre) op

/-- The counter never decreases or wraps, and in every state of the run no cached document
    is of a later generation, a committer commit that succeeds evicts all of them, and all
    of them were written since the last one that did. -/
structure CacheBound (s₀ : Engine) (es : List Event) : Prop where
  steady : Run.Along (step X) (Steady X) s₀ es
  bounded : ∀ es', es' <+: es → ∀ id c,
    (Run.exec (step X) s₀ es').uncommittedDocs.get? id = some c →
      c.generation ≤ (Run.exec (step X) s₀ es').currentGeneration
  evicts : ∀ es', es' <+: es → ∀ id,
    ((Run.exec (step X) s₀ es').committerTick .ok).uncommittedDocs.get? id = none
  fresh : ∀ es', es' <+: es → ∀ id c,
    (Run.exec (step X) s₀ es').uncommittedDocs.get? id = some c →
      WrittenSinceCommit X s₀ es' id c

/-- A committer commit does not fail, and does not find the counter at its last value. -/
def CountsUp (s : Engine) : Event → Prop
  | .commit .ok => s.currentGeneration < u64Max
  | .commit .failed => False
  | _ => True

/-! ## The counter -/

/-- The counter is a `u64`. -/
def CounterFits (s : Engine) : Prop := s.currentGeneration ≤ u64Max

variable {X}

theorem currentGeneration_op (s : Engine) (addOk : Bool) (o : IndexOperation) :
    (step X s (.op addOk o)).currentGeneration = s.currentGeneration :=
  (processOp_step X addOk s o).frame.2.2

theorem currentGeneration_prune (s : Engine) (now : ℤ) (r : PruneTick) :
    (step X s (.prune now r)).currentGeneration = s.currentGeneration := by
  cases r <;> rfl

theorem CounterFits.step (s : Engine) (e : Event) (h : CounterFits s) :
    CounterFits (step X s e) := by
  cases e with
  | op addOk o => exact (currentGeneration_op s addOk o).trans_le h
  | commit r =>
    cases r with
    | ok | failed => exact Nat.le_of_lt_succ (Nat.mod_lt _ (Nat.succ_pos _))
    | contended => exact h
  | reload => exact h
  | prune now r => exact (currentGeneration_prune s now r).trans_le h
  | crash => exact Nat.zero_le _

theorem steady_iff {s : Engine} {e : Event} (h : CounterFits s) :
    Steady X s e ↔ CountsUp s e := by
  unfold Steady
  cases e with
  | op addOk o => simp [CountsUp, currentGeneration_op]
  | commit r =>
    unfold CounterFits u64Max at h
    cases r with
    | ok =>
      simp only [Engine.step, committerTick, CountsUp, reduceCtorEq, false_or, u64Max]
      omega
    | failed =>
      simp only [Engine.step, committerTick, CountsUp, reduceCtorEq, false_or, iff_false, u64Max]
      omega
    | contended => simp [Engine.step, committerTick, CountsUp]
  | reload => simp [Engine.step, CountsUp]
  | prune now r => simp [CountsUp, currentGeneration_prune]
  | crash => simp [CountsUp]

/-! ## The cache -/

/-- What is cached after an operation was cached before, or put there by it. -/
theorem OpStep.cached {addOk : Bool} {s s' : Engine} {o : IndexOperation} {r : Outcome}
    (h : OpStep X addOk s o s' r) {id : String} {c : Doc}
    (hc : s'.uncommittedDocs.get? id = some c) :
    s.uncommittedDocs.get? id = some c ∨
      o.type = .upsert ∧ o.id = id ∧ c = upsertDoc X s o := by
  have hstaged (ht : o.type = .upsert) (hc : (staged X s o).uncommittedDocs.get? id = some c) :
      s.uncommittedDocs.get? id = some c ∨
        o.type = .upsert ∧ o.id = id ∧ c = upsertDoc X s o := by
    rw [uncommittedDocs_staged, OrdMap.get?_insert] at hc
    split_ifs at hc with hid
    · cases hc
      exact Or.inr ⟨ht, hid.symm, rfl⟩
    · exact Or.inl hc
  cases h with
  | ignored | stale => exact Or.inl hc
  | stored _ ht | rejected ht | failed _ ht => exact hstaged ht hc
  | erased | cleared => exact Or.inl (OrdMap.of_retain hc)

/-- No cached document is of a later generation. -/
def Bounded (s : Engine) : Prop :=
  ∀ id c, s.uncommittedDocs.get? id = some c → c.generation ≤ s.currentGeneration

/-- In a bounded state a committer commit that succeeds evicts every document. -/
theorem Bounded.evicts {s : Engine} (h : Bounded s) (id : String) :
    (s.committerTick .ok).uncommittedDocs.get? id = none := by
  cases hc : (s.committerTick .ok).uncommittedDocs.get? id with
  | none => rfl
  | some c =>
    rw [committerTick, OrdMap.get?_retain, Option.filter_eq_some_iff, decide_eq_true_eq] at hc
    exact absurd (h id c hc.1) (not_le.2 hc.2)

theorem Bounded.step {s : Engine} {e : Event} (h : Bounded s) (he : CountsUp s e) :
    Bounded (step X s e) := by
  intro id c hc
  cases e with
  | op addOk o =>
    rw [currentGeneration_op]
    rcases (processOp_step X addOk s o).cached hc with hc | ⟨-, -, rfl⟩
    · exact h id c hc
    · exact le_rfl
  | commit r =>
    cases r with
    | ok => rw [Engine.step, h.evicts] at hc; cases hc
    | failed => exact he.elim
    | contended => exact h id c hc
  | reload => exact h id c hc
  | prune now r =>
    rw [currentGeneration_prune]
    cases r <;> exact h id c hc
  | crash => cases hc

/-- What is cached after an event was cached before and no committer commit succeeded, or it
    was put there by the event. -/
theorem Bounded.cached {s : Engine} (h : Bounded s) {e : Event} {id : String} {c : Doc}
    (hc : (Engine.step X s e).uncommittedDocs.get? id = some c) :
    (s.uncommittedDocs.get? id = some c ∧ e ≠ .commit .ok) ∨
      ∃ addOk o, e = .op addOk o ∧ o.type = .upsert ∧ o.id = id ∧ c = upsertDoc X s o := by
  cases e with
  | op addOk o =>
    rcases (processOp_step X addOk s o).cached hc with hc | hput
    · exact Or.inl ⟨hc, by simp⟩
    · exact Or.inr ⟨addOk, o, rfl, hput⟩
  | commit r =>
    cases r with
    | ok => rw [Engine.step, h.evicts] at hc; cases hc
    | failed | contended => exact Or.inl ⟨hc, by simp⟩
  | reload => exact Or.inl ⟨hc, by simp⟩
  | prune now r => cases r <;> exact Or.inl ⟨hc, by simp⟩
  | crash => cases hc

/-! ## Runs -/

theorem bounded_new (committed : List TantivyDoc) : Bounded (new committed) := by
  intro id c hc
  cases hc

theorem bounded_exec {s₀ : Engine} {es : List Event} (h₀ : Bounded s₀)
    (h : Run.Along (step X) CountsUp s₀ es) : Bounded (Run.exec (step X) s₀ es) :=
  Run.Along.inv (fun _ _ hs he => hs.step he) h h₀

/-- **What is cached was written since the last committer commit that succeeded.** -/
theorem writtenSinceCommit {committed : List TantivyDoc} {es : List Event}
    (h : Run.Along (step X) CountsUp (new committed) es) {id : String} {c : Doc}
    (hc : (Run.exec (step X) (new committed) es).uncommittedDocs.get? id = some c) :
    WrittenSinceCommit X (new committed) es id c := by
  induction es using List.reverseRecOn with
  | nil => cases hc
  | append_singleton es e ih =>
    obtain ⟨hes, -⟩ := (Run.along_append ..).1 h
    rw [Run.exec_append] at hc
    rcases (bounded_exec (bounded_new committed) hes).cached hc with ⟨hc, hne⟩ | hput
    · obtain ⟨pre, addOk, op, post, rfl, hpost, hop⟩ := ih hes hc
      refine ⟨pre, addOk, op, post ++ [e], by simp, ?_, hop⟩
      rw [List.mem_append, List.mem_singleton, not_or]
      exact ⟨hpost, hne.symm⟩
    · obtain ⟨addOk, o, rfl, hop⟩ := hput
      exact ⟨es, addOk, o, [], rfl, List.not_mem_nil, hop⟩

/-- **The generations bound the cache iff the committer's counter only counts up**: no commit
    of it fails, and none finds the counter at its last value. -/
theorem cacheBound_iff (X : Crates) (committed : List TantivyDoc) (es : List Event) :
    CacheBound X (new committed) es ↔ Run.Along (step X) CountsUp (new committed) es := by
  have hsteady : Run.Along (step X) (Steady X) (new committed) es ↔
      Run.Along (step X) CountsUp (new committed) es :=
    Run.along_congr (I := CounterFits) CounterFits.step (fun _ _ => steady_iff) (Nat.zero_le _)
  constructor
  · intro h
    exact hsteady.1 h.steady
  · intro h
    have halong {es' : List Event} (hes' : es' <+: es) :
        Run.Along (step X) CountsUp (new committed) es' := by
      obtain ⟨rest, rfl⟩ := hes'
      exact ((Run.along_append ..).1 h).1
    refine ⟨hsteady.2 h, fun es' hes' => ?_, fun es' hes' => ?_, fun es' hes' id c hc => ?_⟩
    · exact bounded_exec (bounded_new committed) (halong hes')
    · exact (bounded_exec (bounded_new committed) (halong hes')).evicts
    · exact writtenSinceCommit (halong hes') hc

/-- A commit, a write, a commit that fails: the document is of a later generation than the
    current one, and the next commit does not evict it. -/
theorem failed_commit_keeps :
    let es : List Event := [.commit .ok, .op true (sampleOp .upsert "a" "p" 10 "\x7b\"a\":1\x7d"),
      .commit .failed]
    let s := Run.exec (step sampleCrates) (new []) es
    (s.uncommittedDocs.get? "a").map Doc.generation = some 1 ∧ s.currentGeneration = 0 ∧
      ((s.committerTick .ok).uncommittedDocs.get? "a").map Doc.generation = some 1 ∧
      ¬ CacheBound sampleCrates (new []) es := by
  intro es s
  have hgen : (s.uncommittedDocs.get? "a").map Doc.generation = some 1 := by decide +kernel
  have hcurrent : s.currentGeneration = 0 := by decide +kernel
  refine ⟨hgen, hcurrent, by decide +kernel, fun h => ?_⟩
  obtain ⟨c, hc, hone⟩ := Option.map_eq_some_iff.1 hgen
  have hle : c.generation ≤ s.currentGeneration := h.bounded es (List.prefix_refl _) "a" c hc
  omega

end Engine

end Tantylla
