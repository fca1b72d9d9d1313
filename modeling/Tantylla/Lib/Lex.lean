/-
  Bounds on tuples, compared column by column or in lexicographic order.

  A bound fixes the first columns of a tuple.  `os` are the results of comparing a tuple
  with it, one for each of these columns; `first os` is the lexicographic comparison.
  A tuple that a bound allows in each column it allows in lexicographic order
  (`past_of_forall`), and for at most one column also the other way round
  (`past_iff_of_length_le`).
-/
import Mathlib.Order.Compare

namespace Lex

/-- The comparison by the first column that decides. -/
def first : List Ordering → Ordering
  | [] => .eq
  | o :: os => o.then (first os)

/-- A comparison with a bound allows for a tuple after it, and for an equal one if the
    bound is inclusive. -/
def Allows (inclusive : Bool) : Ordering → Prop
  | .gt => True
  | .eq => inclusive
  | .lt => False

instance (inclusive : Bool) : DecidablePred (Allows inclusive)
  | .gt => .isTrue trivial
  | .eq => inferInstanceAs (Decidable (inclusive = true))
  | .lt => .isFalse id

/-- The tuple is past a start in lexicographic order; a bound that fixes no column is none. -/
def Past (inclusive : Bool) (os : List Ordering) : Prop :=
  os ≠ [] → Allows inclusive (first os)

/-- The tuple is before an end in lexicographic order. -/
def Before (inclusive : Bool) (os : List Ordering) : Prop :=
  os ≠ [] → Allows inclusive (first os).swap

instance (inclusive : Bool) : DecidablePred (Past inclusive) :=
  fun os => inferInstanceAs (Decidable (os ≠ [] → _))

instance (inclusive : Bool) : DecidablePred (Before inclusive) :=
  fun os => inferInstanceAs (Decidable (os ≠ [] → _))

variable {inclusive : Bool} {o : Ordering} {os : List Ordering}

theorem allows_iff : Allows inclusive o ↔ if inclusive then o ≠ .lt else o = .gt := by
  cases o <;> cases inclusive <;> simp [Allows]

theorem allows_swap_iff : Allows inclusive o.swap ↔ if inclusive then o ≠ .gt else o = .lt := by
  cases o <;> cases inclusive <;> simp [Allows]

theorem first_singleton : first [o] = o := by
  cases o <;> rfl

/-- An end is a start in the opposite order. -/
theorem first_map_swap : first (os.map Ordering.swap) = (first os).swap := by
  induction os with
  | nil => rfl
  | cons o os ih =>
    rw [List.map_cons, first, first, ih]
    cases o <;> rfl

theorem before_iff : Before inclusive os ↔ Past inclusive (os.map Ordering.swap) := by
  rw [Before, Past, first_map_swap, ne_eq, ne_eq, List.map_eq_nil_iff]

/-- **A tuple that a start allows in each column is past it.** -/
theorem past_of_forall (h : ∀ o ∈ os, Allows inclusive o) : Past inclusive os := by
  intro hne
  induction os with
  | nil => exact absurd rfl hne
  | cons o os ih =>
    have ho := h o List.mem_cons_self
    cases os with
    | nil =>
      rw [first_singleton]
      exact ho
    | cons o' os =>
      have hrest := ih (fun o ho => h o (List.mem_cons_of_mem _ ho)) (List.cons_ne_nil _ _)
      rw [first]
      cases o with
      | lt => exact ho.elim
      | eq => exact hrest
      | gt => trivial

/-- A single column is compared as the tuple is. -/
theorem past_iff_of_length_le (hlen : os.length ≤ 1) :
    Past inclusive os ↔ ∀ o ∈ os, Allows inclusive o := by
  refine ⟨fun h o ho => ?_, past_of_forall⟩
  match os, hlen, ho with
  | [o'], _, ho =>
    have hpast := h (List.cons_ne_nil _ _)
    rw [first_singleton] at hpast
    rw [List.mem_singleton.1 ho]
    exact hpast

theorem before_of_forall (h : ∀ o ∈ os, Allows inclusive o.swap) : Before inclusive os :=
  before_iff.2 (past_of_forall (List.forall_mem_map.2 h))

theorem before_iff_of_length_le (hlen : os.length ≤ 1) :
    Before inclusive os ↔ ∀ o ∈ os, Allows inclusive o.swap := by
  rw [before_iff, past_iff_of_length_le (by rwa [List.length_map]), List.forall_mem_map]

end Lex
