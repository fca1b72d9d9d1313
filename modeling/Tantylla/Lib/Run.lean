/-
  Runs of a system that moves on events.

  A system is a total function `step : σ → ε → σ`; an event that is not enabled
  in a state leaves it as it is.  A run is a list of events.

  * `exec step s es` is the state after the events `es`;
  * `Along step P s es` says that `P` holds of the state before and the event at
    every step of the run, so a condition on the steps of a run is one predicate;
  * `exec_inv`, `Along.inv`: what each step preserves (under the condition), the
    run preserves; `along_iff_forall_prefix`: and no run under a weaker condition;
  * `exec_eq_of_filter_eq`, `exec_rel_of_filter_eq`: runs with the same events of each
    key, or the same events that are not silent, end in the same state or in related ones;
  * `related_iff_forall_prefix`: when two systems stay related;
  * `exec_project`, `exec_shown`: a part of a system shows a run of its own;
  * `exec_assign`: a part that events assign has what was assigned last.
-/
import Mathlib.Data.List.Basic

namespace Run

variable {σ ε : Type*} (step : σ → ε → σ)

/-- The state after the events `es` from `s`. -/
def exec (s : σ) (es : List ε) : σ := es.foldl step s

/-- `P` holds at every step of the run `es` from `s`: of the state before the
    step, and the event. -/
def Along (P : σ → ε → Prop) : σ → List ε → Prop
  | _, [] => True
  | s, e :: es => P s e ∧ Along P (step s e) es

@[simp] theorem exec_nil (s : σ) : exec step s [] = s := rfl

@[simp] theorem exec_cons (s : σ) (e : ε) (es : List ε) :
    exec step s (e :: es) = exec step (step s e) es := rfl

theorem exec_append (s : σ) (es fs : List ε) :
    exec step s (es ++ fs) = exec step (exec step s es) fs := List.foldl_append

variable {step}

@[simp] theorem along_nil {P : σ → ε → Prop} (s : σ) : Along step P s [] := trivial

@[simp] theorem along_cons {P : σ → ε → Prop} {s : σ} {e : ε} {es : List ε} :
    Along step P s (e :: es) ↔ P s e ∧ Along step P (step s e) es := Iff.rfl

instance Along.decidable {P : σ → ε → Prop} [∀ s e, Decidable (P s e)] :
    ∀ (s : σ) (es : List ε), Decidable (Along step P s es)
  | _, [] => isTrue trivial
  | s, e :: es => @instDecidableAnd _ _ _ (Along.decidable (step s e) es)

theorem along_append {P : σ → ε → Prop} (es fs : List ε) (s : σ) :
    Along step P s (es ++ fs) ↔ Along step P s es ∧ Along step P (exec step s es) fs := by
  induction es generalizing s with
  | nil => simp
  | cons e es ih => simp only [List.cons_append, along_cons, exec_cons, ih, and_assoc]

/-- What holds along a run holds along its first events. -/
theorem Along.take {P : σ → ε → Prop} {es : List ε} {s : σ} (h : Along step P s es) (k : ℕ) :
    Along step P s (es.take k) := by
  rw [← List.take_append_drop k es] at h
  exact ((along_append _ _ _).1 h).1

theorem along_of_forall {P : ε → Prop} {es : List ε} {s : σ} (h : ∀ e ∈ es, P e) :
    Along step (fun _ e => P e) s es := by
  induction es generalizing s with
  | nil => trivial
  | cons e es ih =>
    rw [List.forall_mem_cons] at h
    exact ⟨h.1, ih h.2⟩

theorem Along.and {P Q : σ → ε → Prop} {es : List ε} {s : σ} (hP : Along step P s es)
    (hQ : Along step Q s es) : Along step (fun s e => P s e ∧ Q s e) s es := by
  induction es generalizing s with
  | nil => trivial
  | cons e es ih => exact ⟨⟨hP.1, hQ.1⟩, ih hP.2 hQ.2⟩

/-- Under an invariant, conditions that agree on a step agree along a run. -/
theorem along_congr {P Q : σ → ε → Prop} {I : σ → Prop} (hI : ∀ s e, I s → I (step s e))
    (h : ∀ s e, I s → (P s e ↔ Q s e)) {es : List ε} {s : σ} (hs : I s) :
    Along step P s es ↔ Along step Q s es := by
  induction es generalizing s with
  | nil => exact Iff.rfl
  | cons e es ih => rw [along_cons, along_cons, h s e hs, ih (hI s e hs)]

/-- **What every step that meets `P` preserves, a run whose steps meet `P`
    preserves.** -/
theorem Along.inv {P : σ → ε → Prop} {I : σ → Prop}
    (hstep : ∀ s e, I s → P s e → I (step s e)) {es : List ε} {s : σ}
    (hP : Along step P s es) (h : I s) : I (exec step s es) := by
  induction es generalizing s with
  | nil => exact h
  | cons e es ih =>
    rw [exec_cons]
    exact ih hP.2 (hstep s e h hP.1)

/-- **What every step preserves, every run preserves.** -/
theorem exec_inv {I : σ → Prop} (hstep : ∀ s e, I s → I (step s e)) (es : List ε) {s : σ}
    (h : I s) : I (exec step s es) := by
  induction es generalizing s with
  | nil => exact h
  | cons e es ih =>
    rw [exec_cons]
    exact ih (hstep s e h)

/-- **If the steps that keep an invariant are those that meet `P`**, it holds in every state
    of a run iff each step of the run meets `P`. -/
theorem along_iff_forall_prefix {P : σ → ε → Prop} {I : σ → Prop}
    (hstep : ∀ s e, I s → (I (step s e) ↔ P s e)) {es : List ε} {s : σ} (h : I s) :
    (∀ es', es' <+: es → I (exec step s es')) ↔ Along step P s es := by
  induction es generalizing s with
  | nil =>
    refine iff_of_true (fun es' hes' => ?_) trivial
    rw [List.prefix_nil.1 hes']
    exact h
  | cons e es ih =>
    constructor
    · intro hall
      have he : I (step s e) := hall [e] (List.cons_prefix_cons.2 ⟨rfl, List.nil_prefix⟩)
      refine ⟨(hstep s e h).1 he, (ih he).1 fun es' hes' => ?_⟩
      exact hall (e :: es') (List.cons_prefix_cons.2 ⟨rfl, hes'⟩)
    · rintro ⟨hP, hrest⟩ es' hes'
      cases es' with
      | nil => exact h
      | cons e' es' =>
        obtain ⟨rfl, hpre⟩ := List.cons_prefix_cons.1 hes'
        exact (ih ((hstep s e' h).2 hP)).2 hrest es' hpre

/-- An event passes the events of other keys before it. -/
theorem exec_move {κ : Type*} {key : ε → κ}
    (hcomm : ∀ s a b, key a ≠ key b → step (step s a) b = step (step s b) a) {e : ε}
    {es : List ε} (h : ∀ a ∈ es, key a ≠ key e) (s : σ) :
    exec step s (es ++ [e]) = exec step s (e :: es) := by
  induction es generalizing s with
  | nil => rfl
  | cons a es ih =>
    rw [List.forall_mem_cons] at h
    rw [List.cons_append, exec_cons, ih h.2, exec_cons, exec_cons, exec_cons, hcomm s a e h.1]

/-- **Events of different keys may be interleaved in any way.**  Two runs that have the same
    events of each key, in the same order, end in the same state. -/
theorem exec_eq_of_filter_eq {κ : Type*} [DecidableEq κ] {key : ε → κ}
    (hcomm : ∀ s a b, key a ≠ key b → step (step s a) b = step (step s b) a) {es fs : List ε}
    (h : ∀ k, es.filter (fun e => key e = k) = fs.filter fun e => key e = k) (s : σ) :
    exec step s es = exec step s fs := by
  induction es generalizing s fs with
  | nil =>
    cases fs with
    | nil => rfl
    | cons f fs => simpa using h (key f)
  | cons e es ih =>
    -- the first event of the key of `e` in `fs` is `e`; it moves to the front
    have he := h (key e)
    rw [List.filter_cons_of_pos (by simp)] at he
    obtain ⟨fs₁, fs₂, rfl, hfs, -, he⟩ := List.filter_eq_cons_iff.1 he.symm
    have hmove : exec step s (fs₁ ++ e :: fs₂) = exec step s (e :: (fs₁ ++ fs₂)) := by
      rw [List.append_cons, exec_append, exec_move hcomm (by simpa using hfs), exec_cons,
        ← exec_append, ← exec_cons]
    rw [hmove, exec_cons, exec_cons]
    refine ih (fun k => ?_) _
    by_cases hk : key e = k
    · subst hk
      rw [List.filter_append, List.filter_eq_nil_iff.2 hfs, List.nil_append, he]
    · have := h k
      rw [List.filter_append, List.filter_cons_of_neg (by simpa using hk),
        List.filter_cons_of_neg (by simpa using hk)] at this
      rw [this, List.filter_append]

/-- **Two runs that differ in silent events only.**  If a silent event keeps two states
    related on either side, and any other event does when both runs take it, then runs with
    the same events that are not silent end in related states. -/
theorem exec_rel_of_filter_eq {silent : ε → Bool} {R : σ → σ → Prop} {P : σ → ε → Prop}
    (hleft : ∀ s t e, R s t → silent e = true → P s e → R (step s e) t)
    (hright : ∀ s t e, R s t → silent e = true → P t e → R s (step t e))
    (hboth : ∀ s t e, R s t → silent e = false → P s e → P t e → R (step s e) (step t e))
    {es fs : List ε} (h : es.filter (fun e => !silent e) = fs.filter fun e => !silent e) {s t : σ}
    (hes : Along step P s es) (hfs : Along step P t fs) (hR : R s t) :
    R (exec step s es) (exec step t fs) := by
  have hsilent {fs : List ε} (hfs : ∀ e ∈ fs, silent e = true) {s t : σ}
      (hP : Along step P t fs) (hR : R s t) : R s (exec step t fs) := by
    induction fs generalizing t with
    | nil => exact hR
    | cons e fs ih =>
      rw [List.forall_mem_cons] at hfs
      exact ih hfs.2 hP.2 (hright s t e hR hfs.1 hP.1)
  induction es generalizing s t fs with
  | nil => exact hsilent (by simpa using List.filter_eq_nil_iff.1 h.symm) hfs hR
  | cons e es ih =>
    cases he : silent e with
    | true =>
      rw [List.filter_cons_of_neg (by simp [he])] at h
      exact ih h hes.2 hfs (hleft s t e hR he hes.1)
    | false =>
      -- the other run takes silent events until it comes to `e`
      rw [List.filter_cons_of_pos (by simp [he])] at h
      obtain ⟨fs₁, fs₂, rfl, hfs₁, -, h⟩ := List.filter_eq_cons_iff.1 h.symm
      obtain ⟨hP₁, hP₂⟩ := (along_append fs₁ (e :: fs₂) t).1 hfs
      rw [exec_append]
      refine ih h.symm hes.2 hP₂.2 (hboth s _ e ?_ he hes.1 hP₂.1)
      exact hsilent (by simpa using hfs₁) hP₁ hR

/-- **A projection of a run is a run of the projections.**  Under an invariant `I` and a
    condition `P` on the steps, a step shows in the projection `π` as the step `f` gives
    for its event, or not at all. -/
theorem exec_project {τ δ : Type*} {step' : τ → δ → τ} {π : σ → τ} {f : ε → Option δ}
    {I : σ → Prop} {P : σ → ε → Prop} (hI : ∀ s e, I s → P s e → I (step s e))
    (hf : ∀ s e, I s → P s e → π (step s e) = (f e).elim (π s) (step' (π s)))
    {es : List ε} {s : σ} (hP : Along step P s es) (hs : I s) :
    π (exec step s es) = exec step' (π s) (es.filterMap f) := by
  induction es generalizing s with
  | nil => rfl
  | cons e es ih =>
    rw [exec_cons, ih hP.2 (hI s e hs hP.1), hf s e hs hP.1]
    cases h : f e with
    | none => rw [List.filterMap_cons_none h]; rfl
    | some d => rw [List.filterMap_cons_some h]; rfl

/-- **Two systems side by side.**  If an event with `Q` keeps states related just when it meets
    `P`, they are related after each first part of a run iff every step of it meets `P`. -/
theorem related_iff_forall_prefix {τ : Type*} {step' : τ → ε → τ} {R : σ → τ → Prop}
    {P : σ → ε → Prop} {Q : ε → Prop}
    (hstep : ∀ s t e, R s t → Q e → (R (step s e) (step' t e) ↔ P s e)) {es : List ε}
    (hQ : ∀ e ∈ es, Q e) {s : σ} {t : τ} (h : R s t) :
    (∀ es', es' <+: es → R (exec step s es') (exec step' t es')) ↔ Along step P s es := by
  induction es generalizing s t with
  | nil =>
    refine iff_of_true (fun es' hes' => ?_) trivial
    rw [List.prefix_nil.1 hes']
    exact h
  | cons e es ih =>
    obtain ⟨he, hes⟩ := List.forall_mem_cons.1 hQ
    constructor
    · intro hall
      have hone : R (step s e) (step' t e) :=
        hall [e] (List.cons_prefix_cons.2 ⟨rfl, List.nil_prefix⟩)
      refine ⟨(hstep s t e h he).1 hone, (ih hes hone).1 fun es' hes' => ?_⟩
      exact hall (e :: es') (List.cons_prefix_cons.2 ⟨rfl, hes'⟩)
    · rintro ⟨hP, hrest⟩ es' hes'
      cases es' with
      | nil => exact h
      | cons e' es' =>
        obtain ⟨rfl, hpre⟩ := List.cons_prefix_cons.1 hes'
        exact (ih hes ((hstep s t e' h he).2 hP)).2 hrest es' hpre

/-- What a run shows to another system, where what an event shows may depend on the state
    before it. -/
def shown {δ : Type*} (step : σ → ε → σ) (f : σ → ε → Option δ) : σ → List ε → List δ
  | _, [] => []
  | s, e :: es => (f s e).toList ++ shown step f (step s e) es

/-- **What a run shows is a run.** -/
theorem exec_shown {τ δ : Type*} {step' : τ → δ → τ} {π : σ → τ} {f : σ → ε → Option δ}
    (hf : ∀ s e, π (step s e) = (f s e).elim (π s) (step' (π s))) (es : List ε) (s : σ) :
    π (exec step s es) = exec step' (π s) (shown step f s es) := by
  induction es generalizing s with
  | nil => rfl
  | cons e es ih =>
    rw [exec_cons, ih, hf, shown, exec_append]
    cases f s e <;> rfl

/-- What holds at the end of a run, and of a state whenever it holds after a step, holds
    after every step of the run. -/
theorem along_of_exec {Q : σ → Prop} (hback : ∀ s e, Q (step s e) → Q s) {es : List ε} {s : σ}
    (h : Q (exec step s es)) : Along step (fun s e => Q (step s e)) s es := by
  induction es generalizing s with
  | nil => trivial
  | cons e es ih =>
    have hrest : Along step (fun s e => Q (step s e)) (step s e) es := ih h
    refine ⟨?_, hrest⟩
    cases es with
    | nil => exact h
    | cons e' es => exact hback _ _ hrest.1

/-- The states that a run from `s₀` reaches. -/
def Reachable (step : σ → ε → σ) (s₀ s : σ) : Prop := ∃ es, exec step s₀ es = s

theorem Reachable.inv {I : σ → Prop} {s₀ s : σ} (h : Reachable step s₀ s)
    (hstep : ∀ s e, I s → I (step s e)) (h₀ : I s₀) : I s := by
  obtain ⟨es, rfl⟩ := h
  exact exec_inv hstep es h₀

end Run
