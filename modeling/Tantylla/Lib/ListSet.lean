/-
  Lists as sets that remember the order in which their elements came.

  * `addNew l as` appends to `l` the elements of `as` that are not there yet, one
    after the other; `addNew_eq` is the closed form: `l`, then the rest of `as`
    without repetitions, in the order of their first appearance.
  * `update l deleted added` removes, then adds.  `setOf_update` is the law of sets
    (`(l \ deleted) ∪ added`), and `nodup_update` says that no repetition comes in.
-/
import Mathlib.Data.List.Nodup
import Mathlib.Data.Set.Basic

namespace ListSet

variable {α : Type*} [DecidableEq α]

/-- Append the elements of `as` that are not there, one after the other. -/
def addNew (l as : List α) : List α :=
  as.foldl (fun l a => if a ∈ l then l else l ++ [a]) l

/-- Remove the elements `deleted`, then add the elements `added`. -/
def update (l deleted added : List α) : List α := addNew (l.filter fun a => a ∉ deleted) added

@[simp] theorem addNew_nil (l : List α) : addNew l [] = l := rfl

theorem addNew_cons (l : List α) (a : α) (as : List α) :
    addNew l (a :: as) = addNew (if a ∈ l then l else l ++ [a]) as := rfl

/-- **What is added are the new elements, each at its first appearance.** -/
theorem addNew_eq (l as : List α) :
    addNew l as = l ++ (as.filter fun a => a ∉ l).eraseDups := by
  induction as generalizing l with
  | nil => simp
  | cons a as ih =>
    rw [addNew_cons, ih]
    by_cases h : a ∈ l
    · rw [if_pos h, List.filter_cons_of_neg (by simp [h])]
    · rw [if_neg h, List.filter_cons_of_pos (by simp [h]), List.eraseDups_cons,
        List.filter_filter, List.append_assoc, List.singleton_append]
      -- what is not in `l ++ [a]` is what is not in `l` and not `a`
      congr 4
      funext b
      by_cases hb : b ∈ l <;> by_cases hab : b = a <;> simp [hb, hab]

theorem mem_addNew {l as : List α} {a : α} : a ∈ addNew l as ↔ a ∈ l ∨ a ∈ as := by
  rw [addNew_eq, List.mem_append, List.mem_eraseDups, List.mem_filter]
  by_cases h : a ∈ l <;> simp [h]

theorem nodup_addNew {l : List α} (h : l.Nodup) (as : List α) : (addNew l as).Nodup := by
  induction as generalizing l with
  | nil => exact h
  | cons a as ih =>
    rw [addNew_cons]
    split_ifs with ha
    · exact ih h
    · refine ih (List.nodup_append.2 ⟨h, List.nodup_singleton a, ?_⟩)
      rintro b hb c hc rfl
      exact ha (List.mem_singleton.1 hc ▸ hb)

theorem update_eq (l deleted added : List α) :
    update l deleted added = (l.filter fun a => a ∉ deleted) ++
      (added.filter fun a => a ∉ l.filter fun a => a ∉ deleted).eraseDups := addNew_eq ..

/-- **The law of sets.** -/
theorem setOf_update (l deleted added : List α) :
    {a | a ∈ update l deleted added} = ({a | a ∈ l} \ {a | a ∈ deleted}) ∪ {a | a ∈ added} := by
  ext a
  simp [update, mem_addNew]

theorem nodup_update {l : List α} (h : l.Nodup) (deleted added : List α) :
    (update l deleted added).Nodup := nodup_addNew (h.filter _) added

end ListSet
