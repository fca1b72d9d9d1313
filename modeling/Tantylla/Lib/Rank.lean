/-
  Ranked lists: stable sorting, the first entries, and the first entry of each key.

  `r` is a total preorder, `r a b` read "`a` may stand before `b`".  `insertionSort` is
  the stable sort by it, and a sort of a concatenation weaves the sorts of the parts
  (`insertionSort_append`).  For lists that are sorted already:

  * `take_sort_flatten`: the first `k` entries of the sort of all are those of the sort
    of the first `k` entries of each;
  * `firstPer_sort_flatten`: keeping the first entry of each key commutes with the sort
    of all, if no two lists share a key.
-/
import Mathlib.Data.List.Sort

namespace Rank

variable {α : Type*} (r : α → α → Prop) [DecidableRel r]

/-- The merge of two lists; the first goes first where `r` holds. -/
def weave (xs ys : List α) : List α := List.merge xs ys fun a b => r a b

variable {r}

@[simp] theorem weave_nil_left (ys : List α) : weave r [] ys = ys := by simp [weave]

@[simp] theorem weave_nil_right (xs : List α) : weave r xs [] = xs := by simp [weave]

theorem weave_cons_pos {x y : α} (h : r x y) (xs ys : List α) :
    weave r (x :: xs) (y :: ys) = x :: weave r xs (y :: ys) :=
  List.cons_merge_cons_pos _ _ _ (decide_eq_true h)

theorem weave_cons_neg {x y : α} (h : ¬ r x y) (xs ys : List α) :
    weave r (x :: xs) (y :: ys) = y :: weave r (x :: xs) ys :=
  List.cons_merge_cons_neg _ _ _ (by simpa using h)

/-- An entry that may stand before the whole of the second list comes first. -/
theorem weave_cons_left {x : α} {ys : List α} (h : ∀ y ∈ ys, r x y) (xs : List α) :
    weave r (x :: xs) ys = x :: weave r xs ys := by
  cases ys with
  | nil => rw [weave_nil_right, weave_nil_right]
  | cons y ys => exact weave_cons_pos (h y (List.mem_cons_self ..)) xs ys

/-- An entry that none of the first list may stand before comes first. -/
theorem weave_cons_right {y : α} {xs : List α} (h : ∀ x ∈ xs, ¬ r x y) (ys : List α) :
    weave r xs (y :: ys) = y :: weave r xs ys := by
  cases xs with
  | nil => rw [weave_nil_left, weave_nil_left]
  | cons x xs => exact weave_cons_neg (h x (List.mem_cons_self ..)) xs ys

/-! ## Sorting -/

/-- Relations that agree on the entries sort a list alike. -/
theorem insertionSort_congr {s : α → α → Prop} [DecidableRel s] {l : List α}
    (h : ∀ a ∈ l, ∀ b ∈ l, r a b ↔ s a b) : l.insertionSort r = l.insertionSort s := by
  have hmap := List.map_insertionSort r s id l h
  rwa [List.map_id, List.map_id] at hmap

section
variable [Std.Total r] [IsTrans α r]

/-- Inserting into a merge is inserting into its first list. -/
theorem orderedInsert_weave (a : α) (xs ys : List α) :
    (weave r xs ys).orderedInsert r a = weave r (xs.orderedInsert r a) ys := by
  induction xs generalizing ys with
  | nil =>
    induction ys with
    | nil => simp
    | cons y ys ih =>
      rw [weave_nil_left, List.orderedInsert_nil] at ih ⊢
      by_cases hay : r a y
      · rw [List.orderedInsert_cons_of_le r ys hay, weave_cons_pos hay, weave_nil_left]
      · rw [List.orderedInsert_of_not_le r ys hay, weave_cons_neg hay, ih]
  | cons x xs ihx =>
    induction ys with
    | nil => rw [weave_nil_right, weave_nil_right]
    | cons y ys ihy =>
      by_cases hxy : r x y
      · rw [weave_cons_pos hxy]
        by_cases hax : r a x
        · rw [List.orderedInsert_cons_of_le r _ hax, List.orderedInsert_cons_of_le r _ hax,
            weave_cons_pos (trans_of r hax hxy), weave_cons_pos hxy]
        · rw [List.orderedInsert_of_not_le r _ hax, List.orderedInsert_of_not_le r _ hax,
            weave_cons_pos hxy, ihx]
      · rw [weave_cons_neg hxy]
        have hyx : r y x := (total_of r x y).resolve_left hxy
        by_cases hay : r a y
        · rw [List.orderedInsert_cons_of_le r _ hay,
            List.orderedInsert_cons_of_le r _ (trans_of r hay hyx), weave_cons_pos hay,
            weave_cons_neg hxy]
        · -- `y` comes first, before `a` and before `x`
          rw [List.orderedInsert_of_not_le r _ hay, ihy]
          by_cases hax : r a x
          · rw [List.orderedInsert_cons_of_le r _ hax, weave_cons_neg hay]
          · rw [List.orderedInsert_of_not_le r _ hax, weave_cons_neg hxy]

/-- **The sort of a concatenation is the merge of the sorts.** -/
theorem insertionSort_append (xs ys : List α) :
    (xs ++ ys).insertionSort r = weave r (xs.insertionSort r) (ys.insertionSort r) := by
  induction xs with
  | nil => rw [List.nil_append, List.insertionSort_nil, weave_nil_left]
  | cons x xs ih =>
    rw [List.cons_append, List.insertionSort_cons, ih, orderedInsert_weave,
      List.insertionSort_cons]

end

/-- `g` is the stable sort of `l`: its entries in an order that `r` allows, in which every
    part of `l` that was in order stays as it was. -/
structure StableSort (r : α → α → Prop) (l g : List α) : Prop where
  perm : g.Perm l
  sorted : g.Pairwise r
  stable : ∀ c : List α, c.Pairwise r → c.Sublist l → c.Sublist g

theorem stableSort_insertionSort [Std.Total r] [IsTrans α r] (l : List α) :
    StableSort r l (l.insertionSort r) where
  perm := List.perm_insertionSort r l
  sorted := List.pairwise_insertionSort r l
  stable _ hc hl := List.sublist_insertionSort hc hl

/-! ## The first entries -/

/-- Lists that begin alike. -/
theorem take_cons_congr {k : ℕ} {a : α} {xs xs' : List α} (h : xs.take k = xs'.take k) :
    (a :: xs).take k = (a :: xs').take k := by
  cases k with
  | zero => rfl
  | succ k =>
    have hk := congrArg (List.take k) h
    rw [List.take_take, List.take_take, Nat.min_eq_left (Nat.le_succ k)] at hk
    rw [List.take_succ_cons, List.take_succ_cons, hk]

/-- The first `k` entries of a merge depend on the first `k` entries of its lists. -/
theorem take_weave_congr {k : ℕ} {xs xs' ys ys' : List α} (hx : xs.take k = xs'.take k)
    (hy : ys.take k = ys'.take k) : (weave r xs ys).take k = (weave r xs' ys').take k := by
  induction k generalizing xs xs' ys ys' with
  | zero => rfl
  | succ k ih =>
    match xs, xs', hx with
    | [], [], _ => rwa [weave_nil_left, weave_nil_left]
    | x :: xs, x' :: xs', hx =>
      match ys, ys', hy with
      | [], [], _ => rwa [weave_nil_right, weave_nil_right]
      | y :: ys, y' :: ys', hy =>
        rw [List.take_succ_cons, List.take_succ_cons, List.cons.injEq] at hx hy
        obtain ⟨rfl, hx⟩ := hx
        obtain ⟨rfl, hy⟩ := hy
        by_cases hxy : r x y
        · rw [weave_cons_pos hxy, weave_cons_pos hxy, List.take_succ_cons, List.take_succ_cons,
            ih hx (take_cons_congr hy)]
        · rw [weave_cons_neg hxy, weave_cons_neg hxy, List.take_succ_cons, List.take_succ_cons,
            ih (take_cons_congr hx) hy]

section
variable [Std.Total r] [IsTrans α r]

/-- **Sorted lists may be cut to their first `k` entries before they are sorted together.** -/
theorem take_sort_flatten (k : ℕ) {ls : List (List α)} (h : ∀ l ∈ ls, l.Pairwise r) :
    ((ls.map (List.take k)).flatten.insertionSort r).take k =
      (ls.flatten.insertionSort r).take k := by
  induction ls with
  | nil => rfl
  | cons l ls ih =>
    obtain ⟨hl, hls⟩ := List.forall_mem_cons.1 h
    have hcut : (l.take k).Pairwise r := hl.sublist (List.take_sublist k l)
    rw [List.map_cons, List.flatten_cons, List.flatten_cons, insertionSort_append,
      insertionSort_append, hl.insertionSort_eq, hcut.insertionSort_eq]
    exact take_weave_congr (by rw [List.take_take, Nat.min_self]) (ih hls)

/-- A page of the sort of all is that of the sort of the first entries of each. -/
theorem page_sort_flatten (limit offset : ℕ) {ls : List (List α)} (h : ∀ l ∈ ls, l.Pairwise r) :
    (((ls.map (List.take (limit + offset))).flatten.insertionSort r).drop offset).take limit =
      ((ls.flatten.insertionSort r).drop offset).take limit := by
  rw [List.take_drop, List.take_drop, Nat.add_comm offset limit, take_sort_flatten _ h]

end

/-! ## The first entry of each key -/

section
variable {κ : Type*} [DecidableEq κ] (key : α → κ)

/-- The first entry of each key that is not among the keys seen. -/
def firstPer (seen : List κ) : List α → List α
  | [] => []
  | a :: l => if key a ∈ seen then firstPer seen l else a :: firstPer (key a :: seen) l

variable {key} {seen : List κ}

theorem firstPer_cons_pos {a : α} (h : key a ∈ seen) (l : List α) :
    firstPer key seen (a :: l) = firstPer key seen l := if_pos h

theorem firstPer_cons_neg {a : α} (h : key a ∉ seen) (l : List α) :
    firstPer key seen (a :: l) = a :: firstPer key (key a :: seen) l := if_neg h

theorem firstPer_map {β : Type*} (f : β → α) (seen : List κ) (l : List β) :
    firstPer key seen (l.map f) = (firstPer (fun b => key (f b)) seen l).map f := by
  induction l generalizing seen with
  | nil => rfl
  | cons b l ih =>
    by_cases hb : key (f b) ∈ seen
    · rw [List.map_cons, firstPer_cons_pos hb, ih, firstPer, if_pos hb]
    · rw [List.map_cons, firstPer_cons_neg hb, ih, firstPer, if_neg hb, List.map_cons]

theorem firstPer_sublist (key : α → κ) (seen : List κ) (l : List α) :
    (firstPer key seen l).Sublist l := by
  induction l generalizing seen with
  | nil => exact List.Sublist.slnil
  | cons a l ih =>
    by_cases ha : key a ∈ seen
    · rw [firstPer_cons_pos ha]
      exact (ih seen).cons a
    · rw [firstPer_cons_neg ha]
      exact (ih _).cons_cons a

/-- Only the keys of the list that are seen matter. -/
theorem firstPer_congr {seen' : List κ} {l : List α}
    (h : ∀ a ∈ l, key a ∈ seen ↔ key a ∈ seen') :
    firstPer key seen l = firstPer key seen' l := by
  induction l generalizing seen seen' with
  | nil => rfl
  | cons a l ih =>
    obtain ⟨ha, hl⟩ := List.forall_mem_cons.1 h
    by_cases hs : key a ∈ seen
    · rw [firstPer_cons_pos hs, firstPer_cons_pos (ha.1 hs), ih hl]
    · rw [firstPer_cons_neg hs, firstPer_cons_neg fun h => hs (ha.2 h)]
      refine congrArg (a :: ·) (ih fun b hb => ?_)
      rw [List.mem_cons, List.mem_cons, hl b hb]

theorem firstPer_of_other {k : κ} {l : List α} (h : ∀ a ∈ l, key a ≠ k) :
    firstPer key (k :: seen) l = firstPer key seen l :=
  firstPer_congr fun a ha => by rw [List.mem_cons, or_iff_right (h a ha)]

theorem firstPer_eq_nil {l : List α} (h : ∀ a ∈ l, key a ∈ seen) : firstPer key seen l = [] := by
  induction l with
  | nil => rfl
  | cons a l ih =>
    obtain ⟨ha, hl⟩ := List.forall_mem_cons.1 h
    rw [firstPer_cons_pos ha, ih hl]

/-- The keys of a list are seen in what comes after it. -/
theorem firstPer_append (l l' : List α) :
    firstPer key seen (l ++ l') = firstPer key seen l ++ firstPer key (l.map key ++ seen) l' := by
  induction l generalizing seen with
  | nil => rfl
  | cons a l ih =>
    by_cases ha : key a ∈ seen
    · rw [List.cons_append, firstPer_cons_pos ha, firstPer_cons_pos ha, ih]
      refine congrArg (firstPer key seen l ++ ·) (firstPer_congr fun b _ => ?_)
      rw [List.map_cons, List.cons_append, List.mem_cons, iff_or_self]
      intro hb
      exact hb ▸ List.mem_append_right _ ha
    · rw [List.cons_append, firstPer_cons_neg ha, firstPer_cons_neg ha, ih, List.cons_append]
      refine congrArg (a :: firstPer key (key a :: seen) l ++ ·) (firstPer_congr fun b _ => ?_)
      rw [List.map_cons, List.cons_append, List.mem_append, List.mem_cons, List.mem_cons,
        List.mem_append, or_left_comm]

/-- The first entries of a part of the list from its start are among those of the list. -/
theorem firstPer_take_sublist (n : ℕ) (l : List α) :
    (firstPer key seen (l.take n)).Sublist (firstPer key seen l) := by
  have h := @firstPer_append _ _ _ key seen (l.take n) (l.drop n)
  rw [List.take_append_drop] at h
  rw [h]
  exact List.sublist_append_left _ _

theorem key_notMem_of_mem_firstPer {a : α} {l : List α} (h : a ∈ firstPer key seen l) :
    key a ∉ seen := by
  induction l generalizing seen with
  | nil => cases h
  | cons b l ih =>
    by_cases hb : key b ∈ seen
    · rw [firstPer_cons_pos hb] at h
      exact ih h
    · rw [firstPer_cons_neg hb] at h
      rcases List.mem_cons.1 h with rfl | h
      · exact hb
      · exact fun hs => ih h (List.mem_cons_of_mem _ hs)

/-- A key is kept once. -/
theorem nodup_map_firstPer (key : α → κ) (seen : List κ) (l : List α) :
    ((firstPer key seen l).map key).Nodup := by
  induction l generalizing seen with
  | nil => exact List.nodup_nil
  | cons a l ih =>
    by_cases ha : key a ∈ seen
    · rw [firstPer_cons_pos ha]
      exact ih seen
    · rw [firstPer_cons_neg ha, List.map_cons, List.nodup_cons]
      refine ⟨fun hmem => ?_, ih _⟩
      obtain ⟨b, hb, hkey⟩ := List.mem_map.1 hmem
      exact key_notMem_of_mem_firstPer hb (hkey ▸ List.mem_cons_self ..)

/-- In a sorted list the entry kept for a key may stand before all others of the key. -/
theorem first_of_mem_firstPer {s : α → α → Prop} [Std.Refl s] {l : List α} (hl : l.Pairwise s)
    {a b : α} (ha : a ∈ firstPer key seen l) (hb : b ∈ l) (hkey : key b = key a) : s a b := by
  induction l generalizing seen with
  | nil => cases hb
  | cons c l ih =>
    obtain ⟨hc, hl⟩ := List.pairwise_cons.1 hl
    have hseen := key_notMem_of_mem_firstPer ha
    by_cases hs : key c ∈ seen
    · rw [firstPer_cons_pos hs] at ha
      rcases List.mem_cons.1 hb with rfl | hb
      · exact absurd (hkey ▸ hs) hseen
      · exact ih hl ha hb
    · rw [firstPer_cons_neg hs] at ha
      rcases List.mem_cons.1 ha with rfl | ha
      · rcases List.mem_cons.1 hb with rfl | hb
        · exact refl_of s b
        · exact hc b hb
      · rcases List.mem_cons.1 hb with rfl | hb
        · exact absurd (hkey ▸ List.mem_cons_self ..) (key_notMem_of_mem_firstPer ha)
        · exact ih hl ha hb

variable [Std.Total r] [IsTrans α r]

omit [Std.Total r] in
/-- **The first entries per key of a merge**, for sorted lists that share no key. -/
theorem firstPer_weave {xs ys : List α} (hx : xs.Pairwise r) (hy : ys.Pairwise r)
    (hkeys : ∀ x ∈ xs, ∀ y ∈ ys, key x ≠ key y) :
    firstPer key seen (weave r xs ys) =
      weave r (firstPer key seen xs) (firstPer key seen ys) := by
  induction xs generalizing ys seen with
  | nil => rw [weave_nil_left, firstPer, weave_nil_left]
  | cons x xs ihx =>
    induction ys generalizing seen with
    | nil => rw [weave_nil_right, firstPer, weave_nil_right]
    | cons y ys ihy =>
      obtain ⟨hxs, hx'⟩ := List.pairwise_cons.1 hx
      obtain ⟨hys, hy'⟩ := List.pairwise_cons.1 hy
      obtain ⟨hkx, hkxs⟩ := List.forall_mem_cons.1 hkeys
      have hky : ∀ z ∈ x :: xs, ∀ w ∈ ys, key z ≠ key w := fun z hz w hw =>
        hkeys z hz w (List.mem_cons_of_mem _ hw)
      by_cases hxy : r x y
      · rw [weave_cons_pos hxy]
        by_cases hs : key x ∈ seen
        · rw [firstPer_cons_pos hs, firstPer_cons_pos hs, ihx hx' hy hkxs]
        · -- `x` is kept, and stands before all that is kept of the second list
          have hbefore : ∀ w ∈ firstPer key seen (y :: ys), r x w := by
            intro w hw
            rcases List.mem_cons.1 ((firstPer_sublist key seen _).subset hw) with rfl | hw
            · exact hxy
            · exact trans_of r hxy (hys w hw)
          rw [firstPer_cons_neg hs, firstPer_cons_neg hs, ihx hx' hy hkxs,
            firstPer_of_other fun w hw => (hkx w hw).symm, weave_cons_left hbefore]
      · rw [weave_cons_neg hxy]
        by_cases hs : key y ∈ seen
        · rw [firstPer_cons_pos hs, firstPer_cons_pos hs, ihy hy' hky]
        · -- `y` is kept, and nothing that is kept of the first list may stand before it
          have hafter : ∀ w ∈ firstPer key seen (x :: xs), ¬ r w y := by
            intro w hw hwy
            rcases List.mem_cons.1 ((firstPer_sublist key seen _).subset hw) with rfl | hw
            · exact hxy hwy
            · exact hxy (trans_of r (hxs w hw) hwy)
          rw [firstPer_cons_neg hs, firstPer_cons_neg hs, ihy hy' hky,
            firstPer_of_other fun w hw => hkeys w hw y (List.mem_cons_self ..),
            weave_cons_right hafter]

/-- **Keeping the first entry of each key commutes with sorting all**, for sorted lists no
    two of which share a key. -/
theorem firstPer_sort_flatten {ls : List (List α)} (h : ∀ l ∈ ls, l.Pairwise r)
    (hkeys : ls.Pairwise fun l l' => ∀ x ∈ l, ∀ y ∈ l', key x ≠ key y) :
    ((ls.map (firstPer key [])).flatten).insertionSort r =
      firstPer key [] (ls.flatten.insertionSort r) := by
  induction ls with
  | nil => rfl
  | cons l ls ih =>
    obtain ⟨hl, hls⟩ := List.forall_mem_cons.1 h
    obtain ⟨hkl, hkls⟩ := List.pairwise_cons.1 hkeys
    have hfirst : (firstPer key [] l).Pairwise r := hl.sublist (firstPer_sublist key [] l)
    rw [List.map_cons, List.flatten_cons, List.flatten_cons, insertionSort_append,
      insertionSort_append, hl.insertionSort_eq, hfirst.insertionSort_eq, ih hls hkls,
      firstPer_weave hl (List.pairwise_insertionSort r _)]
    intro x hx y hy
    obtain ⟨l', hl', hy⟩ := List.mem_flatten.1 ((List.mem_insertionSort r).1 hy)
    exact hkl l' hl' x hx y hy

end

end Rank
