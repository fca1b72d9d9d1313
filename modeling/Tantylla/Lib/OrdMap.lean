/-
  Finite maps as lists of entries in strictly increasing key order.

  `find` and `put` work on the bare list of entries, so that a recursive type can
  nest such lists; `put` replaces the value of a key that is there.  `OrdMap`
  carries the order as a field: an entry list with a repeated key cannot be built.
-/
import Mathlib.Data.List.Basic
import Mathlib.Data.List.Pairwise
import Mathlib.Data.List.Nodup
import Mathlib.Data.List.Perm.Subperm
import Mathlib.Order.Basic
import Mathlib.Order.Lattice

namespace OrdMap

variable {κ ν : Type*} [LinearOrder κ]

/-- The value of the key `k`. -/
def find (k : κ) : List (κ × ν) → Option ν
  | [] => none
  | (l, v) :: m => if k = l then some v else find k m

/-- Set the key `k` to `v`, keeping the key order. -/
def put (k : κ) (v : ν) : List (κ × ν) → List (κ × ν)
  | [] => [(k, v)]
  | (l, w) :: m =>
    if k < l then (k, v) :: (l, w) :: m
    else if k = l then (k, v) :: m
    else (l, w) :: put k v m

/-- The keys are strictly increasing. -/
def Sorted (m : List (κ × ν)) : Prop := m.Pairwise fun a b => a.1 < b.1

@[simp] theorem find_nil (k : κ) : find k ([] : List (κ × ν)) = none := rfl

theorem find_put (k l : κ) (v : ν) (m : List (κ × ν)) :
    find l (put k v m) = if l = k then some v else find l m := by
  induction m with
  | nil => simp [put, find]
  | cons e m ih =>
    obtain ⟨k', w⟩ := e
    by_cases h1 : k < k'
    · simp [put, find, h1]
    by_cases h2 : k = k'
    · subst h2
      by_cases h3 : l = k <;> simp [put, find, h3]
    · by_cases h3 : l = k'
      · subst h3; simp [put, find, h1, h2, Ne.symm h2]
      · simp [put, find, h1, h2, h3, ih]

@[simp] theorem find_put_self (k : κ) (v : ν) (m : List (κ × ν)) :
    find k (put k v m) = some v := by simp [find_put]

theorem find_put_ne {k l : κ} (h : l ≠ k) (v : ν) (m : List (κ × ν)) :
    find l (put k v m) = find l m := by simp [find_put, h]

/-- Entries with different keys are set in either order. -/
theorem put_comm {k l : κ} (h : k ≠ l) (v w : ν) (m : List (κ × ν)) :
    put k v (put l w m) = put l w (put k v m) := by
  induction m with
  | nil =>
    rcases lt_or_gt_of_ne h with hlt | hlt <;> simp [put, hlt, hlt.not_gt, h, h.symm]
  | cons e m ih =>
    obtain ⟨a, u⟩ := e
    -- both keys against that of the first entry
    grind [put]

theorem find_isSome {k : κ} {m : List (κ × ν)} : (find k m).isSome ↔ k ∈ m.map Prod.fst := by
  induction m with
  | nil => simp
  | cons e m ih =>
    obtain ⟨l, v⟩ := e
    by_cases h : k = l
    · simp [find, h]
    · simp [find, h, ih]

theorem mem_of_find {k : κ} {v : ν} {m : List (κ × ν)} (h : find k m = some v) : (k, v) ∈ m := by
  induction m with
  | nil => simp at h
  | cons e m ih =>
    obtain ⟨l, w⟩ := e
    by_cases hk : k = l
    · simp only [find, hk, if_true, Option.some.injEq] at h
      simp [hk, h]
    · simp only [find, hk, if_false] at h
      exact List.mem_cons_of_mem _ (ih h)

theorem Sorted.find_of_mem {k : κ} {v : ν} {m : List (κ × ν)} (hm : Sorted m) (h : (k, v) ∈ m) :
    find k m = some v := by
  induction m with
  | nil => cases h
  | cons e m ih =>
    obtain ⟨l, w⟩ := e
    obtain ⟨hlt, hm⟩ := List.pairwise_cons.1 hm
    rcases List.mem_cons.1 h with h | h
    · cases h; simp [find]
    · have hne : k ≠ l := (hlt _ h).ne'
      simp only [find, hne, if_false]
      exact ih hm h

theorem mem_put {k : κ} {v : ν} {a : κ × ν} {m : List (κ × ν)} (h : a ∈ put k v m) :
    a = (k, v) ∨ a ∈ m := by
  induction m with
  | nil => simpa [put] using h
  | cons e m ih =>
    obtain ⟨l, w⟩ := e
    simp only [put] at h
    split_ifs at h
    · exact List.mem_cons.1 h
    · exact (List.mem_cons.1 h).imp_right (List.mem_cons_of_mem _)
    · rcases List.mem_cons.1 h with rfl | h
      · exact Or.inr (List.mem_cons_self ..)
      · exact (ih h).imp_right (List.mem_cons_of_mem _)

theorem Sorted.put {k : κ} {v : ν} {m : List (κ × ν)} (h : Sorted m) : Sorted (put k v m) := by
  induction m with
  | nil => simp [OrdMap.put, Sorted]
  | cons e m ih =>
    obtain ⟨l, w⟩ := e
    obtain ⟨hl, hm⟩ := List.pairwise_cons.1 h
    simp only [OrdMap.put]
    split_ifs with h1 h2
    · refine List.pairwise_cons.2 ⟨fun a ha => ?_, h⟩
      rcases List.mem_cons.1 ha with rfl | ha
      · exact h1
      · exact h1.trans (hl a ha)
    · subst h2
      exact List.pairwise_cons.2 ⟨hl, hm⟩
    · refine List.pairwise_cons.2 ⟨fun a ha => ?_, ih hm⟩
      rcases mem_put ha with rfl | ha
      · exact lt_of_le_of_ne (not_lt.1 h1) (Ne.symm h2)
      · exact hl a ha

theorem Sorted.filter {m : List (κ × ν)} (h : Sorted m) (p : κ × ν → Bool) :
    Sorted (m.filter p) := List.Pairwise.filter p h

theorem Sorted.find_filter {m : List (κ × ν)} (h : Sorted m) (p : κ × ν → Bool) (k : κ) :
    find k (m.filter p) = (find k m).filter fun v => p (k, v) := by
  rcases hf : find k m with _ | v
  · rcases hg : find k (m.filter p) with _ | w
    · rfl
    · have := h.find_of_mem (List.mem_filter.1 (mem_of_find hg)).1
      rw [hf] at this; cases this
  · have hm := mem_of_find hf
    by_cases hp : p (k, v)
    · rw [(h.filter p).find_of_mem (List.mem_filter.2 ⟨hm, hp⟩)]; simp [Option.filter, hp]
    · rcases hg : find k (m.filter p) with _ | w
      · simp [Option.filter, hp]
      · obtain ⟨hw, hpw⟩ := List.mem_filter.1 (mem_of_find hg)
        rw [h.find_of_mem hw] at hf; cases hf; exact absurd hpw hp

end OrdMap

/-- A finite map: its entries in strictly increasing key order. -/
structure OrdMap (κ ν : Type*) [LinearOrder κ] where
  entries : List (κ × ν)
  sorted : OrdMap.Sorted entries
  deriving DecidableEq

namespace OrdMap

variable {κ ν : Type*} [LinearOrder κ]

/-- The empty map. -/
def empty : OrdMap κ ν := ⟨[], List.Pairwise.nil⟩

/-- The value of the key `k`. -/
def get? (m : OrdMap κ ν) (k : κ) : Option ν := find k m.entries

/-- Set the key `k` to `v`. -/
def insert (m : OrdMap κ ν) (k : κ) (v : ν) : OrdMap κ ν := ⟨put k v m.entries, m.sorted.put⟩

/-- Keep the entries that satisfy `p`. -/
def retain (m : OrdMap κ ν) (p : κ → ν → Bool) : OrdMap κ ν :=
  ⟨m.entries.filter fun e => p e.1 e.2, m.sorted.filter _⟩

/-- Remove the key `k`. -/
def remove (m : OrdMap κ ν) (k : κ) : OrdMap κ ν := m.retain fun l _ => l ≠ k

theorem get?_insert (m : OrdMap κ ν) (k l : κ) (v : ν) :
    (m.insert k v).get? l = if l = k then some v else m.get? l := find_put k l v m.entries

@[simp] theorem get?_insert_self (m : OrdMap κ ν) (k : κ) (v : ν) :
    (m.insert k v).get? k = some v := find_put_self k v m.entries

theorem get?_insert_ne (m : OrdMap κ ν) {k l : κ} (h : l ≠ k) (v : ν) :
    (m.insert k v).get? l = m.get? l := find_put_ne h v m.entries

@[simp] theorem get?_retain (m : OrdMap κ ν) (p : κ → ν → Bool) (k : κ) :
    (m.retain p).get? k = (m.get? k).filter (p k) := m.sorted.find_filter _ k

theorem of_retain {m : OrdMap κ ν} {p : κ → ν → Bool} {k : κ} {v : ν}
    (h : (m.retain p).get? k = some v) : m.get? k = some v := by
  rw [get?_retain, Option.filter_eq_some_iff] at h; exact h.1

@[simp] theorem get?_remove_self (m : OrdMap κ ν) (k : κ) : (m.remove k).get? k = none := by
  rw [remove, get?_retain]; cases m.get? k <;> simp [Option.filter]

theorem get?_remove_ne (m : OrdMap κ ν) {k l : κ} (h : l ≠ k) :
    (m.remove k).get? l = m.get? l := by
  rw [remove, get?_retain]; cases m.get? l <;> simp [Option.filter, h]

theorem mem_entries {m : OrdMap κ ν} {k : κ} {v : ν} :
    (k, v) ∈ m.entries ↔ m.get? k = some v :=
  ⟨fun h => m.sorted.find_of_mem h, fun h => mem_of_find h⟩

theorem mem_keys {m : OrdMap κ ν} {k : κ} :
    k ∈ m.entries.map Prod.fst ↔ (m.get? k).isSome := find_isSome.symm

theorem nodup_keys (m : OrdMap κ ν) : (m.entries.map Prod.fst).Nodup :=
  List.pairwise_map.2 (m.sorted.imp fun h => h.ne)

/-- **Two maps with the same values are equal.** -/
theorem ext_get? {m m' : OrdMap κ ν} (h : ∀ k, m.get? k = m'.get? k) : m = m' := by
  have hmem (e : κ × ν) : e ∈ m.entries ↔ e ∈ m'.entries := by
    rw [← Prod.eta e, mem_entries, mem_entries, h]
  have hsub {a b : OrdMap κ ν} (hab : ∀ e, e ∈ a.entries ↔ e ∈ b.entries) :
      a.entries.Subperm b.entries :=
    List.subperm_of_subset (List.Nodup.of_map _ a.nodup_keys) fun e he => (hab e).1 he
  have hperm : m.entries.Perm m'.entries := (hsub hmem).antisymm (hsub fun e => (hmem e).symm)
  have hentries : m.entries = m'.entries :=
    hperm.eq_of_pairwise (fun a b _ _ hab hba => absurd (hab.trans hba) (lt_irrefl _))
      m.sorted m'.sorted
  cases m
  cases m'
  cases hentries
  rfl

/-- Two lists of entries in key order that have the same values are equal. -/
theorem Sorted.ext {a b : List (κ × ν)} (ha : Sorted a) (hb : Sorted b)
    (h : ∀ k, find k a = find k b) : a = b :=
  congrArg entries (@ext_get? _ _ _ ⟨a, ha⟩ ⟨b, hb⟩ h)

end OrdMap
