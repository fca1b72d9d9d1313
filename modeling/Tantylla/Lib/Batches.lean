/-
  Batches that are cut from a list in order, each of which may be repeated.

  `InBatches sent arrived` says that `arrived` are consecutive batches of a prefix of
  `sent`, each of which comes any number of times before the next.  `Cut` is the state of
  a sender that works so: what it cuts off next arrives after all that it cut off before.
  `InBatches.firstPer_sublist`: apart from the repeats, elements arrive in the order
  in which they were sent.
-/
import Tantylla.Lib.Rank

namespace Batches

open Rank (firstPer)

variable {α : Type*}

/-- The elements of the batches. -/
def cutOff (batches : List (List α × ℕ)) : List α := (batches.map Prod.fst).flatten

/-- What arrives of the batches: each as often as it says. -/
def repeated (batches : List (List α × ℕ)) : List α :=
  batches.flatMap fun b => (List.replicate b.2 b.1).flatten

/-- The elements arrive in batches, in the order in which they were sent. -/
def InBatches (sent arrived : List α) : Prop :=
  ∃ batches : List (List α × ℕ), cutOff batches <+: sent ∧ repeated batches = arrived

/-- The sender has cut off batches, the last of which is `last`, and `waiting` is left. -/
def Cut (sent arrived last waiting : List α) : Prop :=
  ∃ (batches : List (List α × ℕ)) (n : ℕ), sent = cutOff (batches ++ [(last, n)]) ++ waiting ∧
    arrived = repeated (batches ++ [(last, n)])

section
variable {sent arrived last waiting : List α}

theorem cutOff_append (batches batches' : List (List α × ℕ)) :
    cutOff (batches ++ batches') = cutOff batches ++ cutOff batches' := by
  rw [cutOff, List.map_append, List.flatten_append]
  rfl

theorem repeated_append (batches batches' : List (List α × ℕ)) :
    repeated (batches ++ batches') = repeated batches ++ repeated batches' :=
  List.flatMap_append

theorem cut_nil : Cut ([] : List α) [] [] [] := ⟨[], 0, rfl, rfl⟩

theorem Cut.inBatches (h : Cut sent arrived last waiting) : InBatches sent arrived := by
  obtain ⟨batches, n, hsent, harrived⟩ := h
  exact ⟨batches ++ [(last, n)], hsent ▸ List.prefix_append _ _, harrived.symm⟩

/-- More is sent. -/
theorem Cut.send (h : Cut sent arrived last waiting) (more : List α) :
    Cut (sent ++ more) arrived last (waiting ++ more) := by
  obtain ⟨batches, n, hsent, harrived⟩ := h
  exact ⟨batches, n, by rw [hsent, List.append_assoc], harrived⟩

/-- All that waits is cut off. -/
theorem Cut.cut (h : Cut sent arrived last waiting) : Cut sent arrived waiting [] := by
  obtain ⟨batches, n, hsent, harrived⟩ := h
  refine ⟨batches ++ [(last, n)], 0, ?_, ?_⟩
  · rw [cutOff_append, hsent]
    simp [cutOff]
  · rw [repeated_append, harrived]
    simp [repeated]

/-- The last batch arrives. -/
theorem Cut.arrive (h : Cut sent arrived last waiting) :
    Cut sent (arrived ++ last) last waiting := by
  obtain ⟨batches, n, hsent, harrived⟩ := h
  refine ⟨batches, n + 1, ?_, ?_⟩
  · rw [hsent]
    simp [cutOff]
  · rw [harrived, repeated_append, repeated_append]
    simp [repeated, List.replicate_succ']

end

/-! ## First arrivals -/

section
variable [DecidableEq α]

/-- Repeats of a batch do not matter to the first arrivals. -/
theorem firstPer_replicate_append (n : ℕ) {seen batch : List α} (rest : List α)
    (h : ∀ a ∈ batch, a ∈ seen) :
    firstPer id seen ((List.replicate n batch).flatten ++ rest) = firstPer id seen rest := by
  have hall : ∀ a ∈ (List.replicate n batch).flatten, id a ∈ seen := by
    intro a ha
    obtain ⟨l, hl, ha⟩ := List.mem_flatten.1 ha
    exact h a (List.eq_of_mem_replicate hl ▸ ha)
  rw [Rank.firstPer_append, Rank.firstPer_eq_nil hall, List.nil_append]
  refine Rank.firstPer_congr fun b _ => ?_
  rw [List.mem_append, or_iff_right_iff_imp, List.map_id]
  exact hall b

theorem firstPer_repeated_sublist (batches : List (List α × ℕ)) (seen : List α) :
    (firstPer id seen (repeated batches)).Sublist (cutOff batches) := by
  induction batches generalizing seen with
  | nil => exact List.Sublist.slnil
  | cons b batches ih =>
    obtain ⟨batch, n⟩ := b
    show (firstPer id seen ((List.replicate n batch).flatten ++ repeated batches)).Sublist
      (batch ++ cutOff batches)
    cases n with
    | zero => exact (ih seen).trans (List.sublist_append_right _ _)
    | succ n =>
      -- the first copy counts, the others do not
      rw [List.replicate_succ, List.flatten_cons, List.append_assoc, Rank.firstPer_append,
        firstPer_replicate_append n _ fun a ha => List.mem_append_left _ (by rwa [List.map_id])]
      exact (Rank.firstPer_sublist _ _ _).append (ih _)

/-- **Apart from repeats, elements arrive in the order in which they were sent.** -/
theorem InBatches.firstPer_sublist {sent arrived : List α} (h : InBatches sent arrived) :
    (firstPer id [] arrived).Sublist sent := by
  obtain ⟨batches, hsent, rfl⟩ := h
  exact (firstPer_repeated_sublist batches []).trans hsent.sublist

end

end Batches
