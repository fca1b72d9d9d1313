/-
  Pools of tasks over a shared state.

  A task acts by itself: `act f i` lets the task `i` take one step `f`, which may
  change the shared state and the task.  Any interleaving of tasks is a run of
  such steps.

  * `act_cases`, `getElem?_act`, `getElem?_act_of_ne`: what a step changes;
  * `balance`: an inequality between measures of the shared state and sums over the
    tasks is kept by a step that keeps it for the shared state and the acting task;
  * `grows`: a measure grows that each step makes grow;
  * `act_forall`: what holds of the shared state and of each task is kept by a step
    that keeps both, if what holds of a task does not look at the shared state.
-/
import Mathlib.Algebra.BigOperators.Group.List.Basic
import Mathlib.Algebra.GroupWithZero.Nat

/-- A shared state and the tasks that act on it. -/
structure Pool (σ τ : Type*) where
  shared : σ
  tasks : List τ

namespace Pool

variable {σ τ : Type*}

/-- The task `i` takes the step `f`; nothing happens if there is no such task. -/
def act (f : σ → τ → σ × τ) (i : ℕ) (p : Pool σ τ) : Pool σ τ :=
  match p.tasks[i]? with
  | some t => ⟨(f p.shared t).1, p.tasks.set i (f p.shared t).2⟩
  | none => p

/-- The sum of a measure over the tasks. -/
def total (g : τ → ℕ) (p : Pool σ τ) : ℕ := (p.tasks.map g).sum

theorem act_of_getElem? {f : σ → τ → σ × τ} {i : ℕ} {p : Pool σ τ} {t : τ}
    (h : p.tasks[i]? = some t) :
    p.act f i = ⟨(f p.shared t).1, p.tasks.set i (f p.shared t).2⟩ := by
  rw [act, h]

theorem act_cases (f : σ → τ → σ × τ) (i : ℕ) (p : Pool σ τ) :
    p.act f i = p ∨ ∃ t, p.tasks[i]? = some t ∧
      p.act f i = ⟨(f p.shared t).1, p.tasks.set i (f p.shared t).2⟩ := by
  unfold act
  cases h : p.tasks[i]? with
  | none => exact Or.inl rfl
  | some t => exact Or.inr ⟨t, rfl, rfl⟩

/-- The acting task takes its step. -/
theorem getElem?_act {f : σ → τ → σ × τ} {i : ℕ} {p : Pool σ τ} {t : τ}
    (h : p.tasks[i]? = some t) : (p.act f i).tasks[i]? = some (f p.shared t).2 := by
  rw [act_of_getElem? h]
  exact List.getElem?_set_self (List.getElem?_eq_some_iff.1 h).1

/-- The other tasks stay as they are. -/
theorem getElem?_act_of_ne {f : σ → τ → σ × τ} {i j : ℕ} {p : Pool σ τ} (hj : j ≠ i) :
    (p.act f j).tasks[i]? = p.tasks[i]? := by
  rcases act_cases f j p with hp | ⟨t, -, hp⟩
  · rw [hp]
  · rw [hp]
    exact List.getElem?_set_ne hj

theorem sum_map_set (g : τ → ℕ) (t' : τ) {t : τ} {l : List τ} {i : ℕ} (h : l[i]? = some t) :
    ((l.set i t').map g).sum + g t = (l.map g).sum + g t' := by
  induction l generalizing i with
  | nil => cases h
  | cons a l ih =>
    cases i with
    | zero =>
      cases h
      simp only [List.set_cons_zero, List.map_cons, List.sum_cons]
      omega
    | succ i =>
      have hl := ih (List.getElem?_cons_succ.symm.trans h)
      simp only [List.set_cons_succ, List.map_cons, List.sum_cons]
      omega

/-- **Balance.**  `a` and `b` are kept at most `c` and `d`, if each step keeps what the
    shared state and the acting task owe. -/
theorem balance {a c : σ → ℕ} {b d : τ → ℕ} {f : σ → τ → σ × τ} {p : Pool σ τ} (i : ℕ)
    (hf : ∀ t, p.tasks[i]? = some t → a (f p.shared t).1 + b (f p.shared t).2 + c p.shared + d t ≤
      a p.shared + b t + c (f p.shared t).1 + d (f p.shared t).2)
    (h : a p.shared + p.total b ≤ c p.shared + p.total d) :
    a (p.act f i).shared + (p.act f i).total b ≤ c (p.act f i).shared + (p.act f i).total d := by
  rcases act_cases f i p with hp | ⟨t, ht, hp⟩
  · rw [hp]; exact h
  · have hb := sum_map_set b (f p.shared t).2 ht
    have hd := sum_map_set d (f p.shared t).2 ht
    have hlocal := hf t ht
    rw [hp]
    simp only [total] at h ⊢
    omega

/-- A measure of the shared state and the tasks grows if it grows for the shared state and
    the acting task. -/
theorem grows {c : σ → ℕ} {d : τ → ℕ} {f : σ → τ → σ × τ} {p : Pool σ τ} (i : ℕ)
    (hf : ∀ t, p.tasks[i]? = some t → c p.shared + d t ≤ c (f p.shared t).1 + d (f p.shared t).2) :
    c p.shared + p.total d ≤ c (p.act f i).shared + (p.act f i).total d := by
  rcases act_cases f i p with hp | ⟨t, ht, hp⟩
  · simp only [hp, Nat.le_refl]
  · have hd := sum_map_set d (f p.shared t).2 ht
    have hlocal := hf t ht
    rw [hp]
    simp only [total]
    omega

/-- **What each task keeps by itself.** -/
theorem act_forall {I : σ → Prop} {J : τ → Prop} {f : σ → τ → σ × τ} {p : Pool σ τ} (i : ℕ)
    (hf : ∀ t, p.tasks[i]? = some t → I p.shared → J t →
      I (f p.shared t).1 ∧ J (f p.shared t).2)
    (h : I p.shared ∧ ∀ t ∈ p.tasks, J t) :
    I (p.act f i).shared ∧ ∀ t ∈ (p.act f i).tasks, J t := by
  rcases act_cases f i p with hp | ⟨t, ht, hp⟩
  · rw [hp]; exact h
  · obtain ⟨hI, hJ⟩ := hf t ht h.1 (h.2 t (List.mem_of_getElem? ht))
    rw [hp]
    refine ⟨hI, fun t' ht' => ?_⟩
    rcases List.mem_or_eq_of_mem_set ht' with hm | rfl
    · exact h.2 t' hm
    · exact hJ

end Pool
