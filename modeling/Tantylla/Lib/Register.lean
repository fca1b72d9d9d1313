/-
  Versioned registers: the state of one key of a last-writer-wins store.

  A register has states `σ`; a state may show a version.  A write or an erasure
  carries a version and is stale, and skipped, in a state that shows the same
  version or a later one; a clearing carries none and is never skipped.  Erasing
  and clearing leave the same state `reset`, which may itself show a version (a
  store whose erasures uncover an older layer).

  * `exec_replay`: a list of operations in version order, run a second time after
    a first, changes nothing;
  * `exec_of_clear`: a run that clears forgets where it began;
  * `fresh_iff`: no operation of a run is skipped iff each carries a version above
    the one its predecessor leaves.
-/
import Tantylla.Lib.Run
import Mathlib.Data.List.Chain
import Mathlib.Data.List.Induction

/-- A versioned register: the version a state shows, and the state that an erasure
    leaves. -/
structure Register (σ : Type*) where
  ver : σ → Option ℕ
  reset : σ

namespace Register

variable {σ : Type*} (R : Register σ)

/-- An operation.  A write shows its own version afterwards. -/
inductive Op where
  | write (v : ℕ) (f : σ → σ) (shows : ∀ s, R.ver (f s) = some v)
  | erase (v : ℕ)
  | clear

variable {R}

/-- The version of an operation, if it carries one. -/
def Op.version : R.Op → Option ℕ
  | .write v _ _ | .erase v => some v
  | .clear => none

/-- What an operation that is not skipped leaves. -/
def Op.effect : R.Op → σ → σ
  | .write _ f _, s => f s
  | .erase _, _ | .clear, _ => R.reset

variable (R)

/-- The state `s` shows the version `v` or a later one. -/
def stale (s : σ) (v : ℕ) : Bool := (R.ver s).any fun w => v ≤ w

/-- The operation `o` is skipped in the state `s`. -/
def skips (s : σ) (o : R.Op) : Bool := o.version.any (R.stale s)

/-- One operation. -/
def act (s : σ) (o : R.Op) : σ := if R.skips s o then s else o.effect s

/-- Versions do not decrease along the list. -/
def Ordered (ops : List R.Op) : Prop :=
  ops.Pairwise fun a b => ∀ v ∈ a.version, ∀ w ∈ b.version, v ≤ w

variable {R}

theorem stale_iff {s : σ} {v : ℕ} : R.stale s v ↔ ∃ w, R.ver s = some w ∧ v ≤ w := by
  unfold stale; cases R.ver s <;> simp

theorem stale_mono {s : σ} {u v : ℕ} (huv : u ≤ v) (h : R.stale s v) : R.stale s u := by
  obtain ⟨w, hw, hv⟩ := stale_iff.1 h
  exact stale_iff.2 ⟨w, hw, huv.trans hv⟩

theorem skips_iff {s : σ} {o : R.Op} : R.skips s o ↔ ∃ v, o.version = some v ∧ R.stale s v := by
  unfold skips; cases o.version <;> simp

@[simp] theorem skips_clear (s : σ) : R.skips s .clear = false := rfl

theorem act_of_skips {s : σ} {o : R.Op} (h : R.skips s o) : R.act s o = s := if_pos h

theorem act_of_not_skips {s : σ} {o : R.Op} (h : ¬ R.skips s o) : R.act s o = o.effect s :=
  if_neg h

theorem version_of_ne_clear : ∀ {o : R.Op}, o ≠ .clear → ∃ v, o.version = some v
  | .write v _ _, _ | .erase v, _ => ⟨v, rfl⟩
  | .clear, h => absurd rfl h

/-- An operation resets the register wherever it takes effect, or leaves its version. -/
theorem effect_cases (o : R.Op) :
    (∀ s, o.effect s = R.reset) ∨ ∀ s, R.ver (o.effect s) = o.version := by
  cases o with
  | write v f hf => exact Or.inr hf
  | erase | clear => exact Or.inl fun _ => rfl

/-- A run of operations that are all skipped at its start changes nothing. -/
theorem exec_of_skips {ops : List R.Op} {s : σ} (h : ∀ o ∈ ops, R.skips s o) :
    Run.exec R.act s ops = s := by
  induction ops with
  | nil => rfl
  | cons o ops ih =>
    rw [List.forall_mem_cons] at h
    rw [Run.exec_cons, act_of_skips h.1]
    exact ih h.2

/-- **A run that clears forgets where it began.** -/
theorem exec_of_clear {ops : List R.Op} (h : Op.clear ∈ ops) (s t : σ) :
    Run.exec R.act s ops = Run.exec R.act t ops := by
  induction ops generalizing s t with
  | nil => cases h
  | cons o ops ih =>
    rcases List.mem_cons.1 h with rfl | h
    · rfl
    · exact ih h _ _

/-- If a run from `r` comes to show a version `v` that neither `r` nor the reset state
    shows, and no operation carries a later one, then every run of it shows `v`: it holds
    a write of `v` itself. -/
theorem stale_exec_of_stale_exec {v : ℕ} {r : σ} (hr : ¬ R.stale r v)
    (hreset : ¬ R.stale R.reset v) (s : σ) {ops : List R.Op}
    (hle : ∀ o ∈ ops, ∃ u, o.version = some u ∧ u ≤ v)
    (h : R.stale (Run.exec R.act r ops) v) : R.stale (Run.exec R.act s ops) v := by
  induction ops using List.reverseRecOn with
  | nil => exact absurd h hr
  | append_singleton ops o ih =>
    obtain ⟨u, hu, huv⟩ := hle o (by simp)
    rw [Run.exec_append] at h ⊢
    change R.stale (R.act _ o) v at h
    change R.stale (R.act _ o) v
    by_cases hp : R.stale (Run.exec R.act r ops) v
    · -- the version was there before `o`, which is therefore skipped
      have hs := ih (fun o' ho' => hle o' (by simp [ho'])) hp
      rwa [act_of_skips (skips_iff.2 ⟨u, hu, stale_mono huv hs⟩)]
    · -- `o` brought the version, so it is a write of `v`
      have hk : ¬ R.skips (Run.exec R.act r ops) o := fun hk => hp (act_of_skips hk ▸ h)
      rw [act_of_not_skips hk] at h
      rcases effect_cases o with he | he
      · rw [he] at h; exact absurd h hreset
      · obtain ⟨w, hw, hvw⟩ := stale_iff.1 h
        rw [he, hu] at hw; cases hw
        obtain rfl : u = v := le_antisymm huv hvw
        by_cases hs : R.skips (Run.exec R.act s ops) o
        · rw [act_of_skips hs]
          obtain ⟨w, hw, hst⟩ := skips_iff.1 hs
          rw [hu] at hw; cases hw; exact hst
        · rw [act_of_not_skips hs]
          exact stale_iff.2 ⟨u, by rw [he, hu], le_rfl⟩

/-- **Replay.**  Operations in version order, run again from where their first run
    ended, change nothing. -/
theorem exec_replay {ops : List R.Op} (hord : R.Ordered ops) (s : σ) :
    Run.exec R.act (Run.exec R.act s ops) ops = Run.exec R.act s ops := by
  by_cases hc : Op.clear ∈ ops
  · exact exec_of_clear hc _ _
  rcases List.eq_nil_or_concat ops with rfl | ⟨ops, o, rfl⟩
  · rfl
  rw [List.concat_eq_append] at hord hc ⊢
  obtain ⟨v, hv⟩ := version_of_ne_clear (o := o) fun h => hc (by simp [h])
  have hle : ∀ o' ∈ ops ++ [o], ∃ u, o'.version = some u ∧ u ≤ v := by
    intro o' ho'
    obtain ⟨u, hu⟩ := version_of_ne_clear (o := o') fun h => hc (h ▸ ho')
    refine ⟨u, hu, ?_⟩
    rcases List.mem_append.1 ho' with h | h
    · exact (List.pairwise_append.1 hord).2.2 o' h o (by simp) u hu v hv
    · obtain rfl := List.mem_singleton.1 h; rw [hu] at hv; cases hv; exact le_rfl
  have hconcat : ∀ s, Run.exec R.act s (ops ++ [o]) = R.act (Run.exec R.act s ops) o :=
    fun s => Run.exec_append ..
  set t := Run.exec R.act s (ops ++ [o]) with ht
  by_cases hs : R.stale t v
  · -- the last version is still there: every operation is skipped
    refine exec_of_skips fun o' ho' => ?_
    obtain ⟨u, hu, huv⟩ := hle o' ho'
    exact skips_iff.2 ⟨u, hu, stale_mono huv hs⟩
  · -- the last operation reset the register, and does so again
    have hk : ¬ R.skips (Run.exec R.act s ops) o := fun hk => by
      obtain ⟨u, hu, hst⟩ := skips_iff.1 hk
      rw [hu] at hv; cases hv
      rw [ht, hconcat, act_of_skips hk] at hs; exact hs hst
    have hto : t = o.effect (Run.exec R.act s ops) := by
      rw [ht, hconcat, act_of_not_skips hk]
    rcases effect_cases o with he | he
    · have hreset : t = R.reset := hto.trans (he _)
      have hkt : ¬ R.skips (Run.exec R.act t ops) o := fun h => by
        obtain ⟨u, hu, hst⟩ := skips_iff.1 h
        rw [hv] at hu; cases hu
        exact hk (skips_iff.2 ⟨v, hv, stale_exec_of_stale_exec hs (hreset ▸ hs) s
          (fun o' ho' => hle o' (List.mem_append_left _ ho')) hst⟩)
      rw [hconcat, act_of_not_skips hkt, he, hreset]
    · exact absurd (stale_iff.2 ⟨v, by rw [hto, he, hv], le_rfl⟩) hs

/-! ## Runs without a skip -/

/-- The version shown after an operation that took effect. -/
def Op.leaves : R.Op → Option ℕ
  | .write v _ _ => some v
  | .erase _ | .clear => R.ver R.reset

theorem ver_effect (o : R.Op) (s : σ) : R.ver (o.effect s) = o.leaves := by
  cases o with
  | write v f hf => exact hf s
  | erase | clear => rfl

/-- The operation `b` carries a version above the one that `a` leaves. -/
def Follows (a b : R.Op) : Prop := ∀ v ∈ b.version, ∀ w ∈ a.leaves, w < v

theorem skips_effect_iff (a b : R.Op) (s : σ) : R.skips (a.effect s) b ↔ ¬ Follows a b := by
  rw [skips_iff]
  constructor
  · rintro ⟨v, hv, hst⟩ hf
    obtain ⟨w, hw, hle⟩ := stale_iff.1 hst
    rw [ver_effect] at hw
    exact absurd (hf v hv w hw) (not_lt.2 hle)
  · intro hf
    unfold Follows at hf
    push Not at hf
    obtain ⟨v, hv, w, hw, hle⟩ := hf
    exact ⟨v, hv, stale_iff.2 ⟨w, (ver_effect a s).trans hw, hle⟩⟩

/-- **No operation of a run is skipped iff the first is not and each follows its
    predecessor.** -/
theorem fresh_iff {ops : List R.Op} {s : σ} :
    Run.Along R.act (fun s o => ¬ R.skips s o) s ops ↔
      (∀ o ∈ ops.head?, ¬ R.skips s o) ∧ ops.IsChain Follows := by
  induction ops generalizing s with
  | nil => simp
  | cons o ops ih =>
    rw [Run.along_cons, List.isChain_cons]
    simp only [List.head?_cons, Option.mem_some_iff, forall_eq']
    refine and_congr_right fun ho => ?_
    rw [act_of_not_skips ho, ih]
    refine and_congr_left fun _ => forall₂_congr fun b _ => ?_
    rw [skips_effect_iff, not_not]

/-- A run without a skip is the fold of the effects. -/
theorem exec_of_fresh {ops : List R.Op} {s : σ}
    (h : Run.Along R.act (fun s o => ¬ R.skips s o) s ops) :
    Run.exec R.act s ops = ops.foldl (fun s o => o.effect s) s := by
  induction ops generalizing s with
  | nil => rfl
  | cons o ops ih =>
    rw [Run.exec_cons, ih h.2, act_of_not_skips h.1]
    rfl

end Register
