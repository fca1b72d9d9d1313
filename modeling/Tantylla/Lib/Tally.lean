/-
  Tallies: counters kept in a finite map, and tallies of tallies.

  `tally N m es` adds the counts `es` to the counters `m`, in numbers modulo `N`;
  `tallyAll N M es` does so in a map of such maps.  Both come down to sums
  (`get?_tally`, `get?_tallyAll`), so the order of the counts does not matter, nor does
  it matter whether they are tallied at once or in parts whose tallies are tallied
  again (`tallyAll_recount`).
-/
import Tantylla.Lib.OrdMap
import Mathlib.Algebra.BigOperators.Group.List.Basic
import Mathlib.Algebra.GroupWithZero.Nat

namespace Tally

variable {ι κ : Type*} [LinearOrder ι] [LinearOrder κ] (N : ℕ)

/-! ## Counters -/

/-- Add a count to the counter of its key, which starts at zero. -/
def add (m : OrdMap κ ℕ) (e : κ × ℕ) : OrdMap κ ℕ :=
  m.insert e.1 (((m.get? e.1).getD 0 + e.2) % N)

/-- Add counts one after the other. -/
def tally (m : OrdMap κ ℕ) (es : List (κ × ℕ)) : OrdMap κ ℕ := es.foldl (add N) m

/-- The sum of the counts of a key. -/
def total (k : κ) (es : List (κ × ℕ)) : ℕ := (es.map fun e => if e.1 = k then e.2 else 0).sum

@[simp] theorem total_nil (k : κ) : total k [] = 0 := rfl

theorem total_cons (k : κ) (e : κ × ℕ) (es : List (κ × ℕ)) :
    total k (e :: es) = (if e.1 = k then e.2 else 0) + total k es := List.sum_cons

theorem total_append (k : κ) (es fs : List (κ × ℕ)) :
    total k (es ++ fs) = total k es + total k fs := by
  rw [total, List.map_append, List.sum_append]
  rfl

theorem total_perm {k : κ} {es fs : List (κ × ℕ)} (h : es.Perm fs) : total k es = total k fs :=
  (h.map _).sum_eq

theorem total_of_notMem {k : κ} {es : List (κ × ℕ)} (h : k ∉ es.map Prod.fst) :
    total k es = 0 := by
  induction es with
  | nil => rfl
  | cons e es ih =>
    rw [List.map_cons, List.mem_cons, not_or] at h
    rw [total_cons, if_neg (Ne.symm h.1), ih h.2]

/-- Positive counts have a positive sum. -/
theorem total_pos_iff {k : κ} {es : List (κ × ℕ)} (h : ∀ e ∈ es, 0 < e.2) :
    0 < total k es ↔ k ∈ es.map Prod.fst := by
  constructor
  · intro hpos
    by_contra hk
    rw [total_of_notMem hk] at hpos
    exact absurd hpos (Nat.lt_irrefl 0)
  · intro hk
    obtain ⟨e, he, rfl⟩ := List.mem_map.1 hk
    obtain ⟨xs, ys, rfl⟩ := List.append_of_mem he
    rw [total_append, total_cons, if_pos rfl]
    have := h e he
    omega

/-- The sum of the counts of a key in the entries of a map is its counter. -/
theorem total_entries (k : κ) (m : OrdMap κ ℕ) : total k m.entries = (m.get? k).getD 0 := by
  obtain ⟨es, hs⟩ := m
  show total k es = (OrdMap.find k es).getD 0
  induction es with
  | nil => rfl
  | cons e es ih =>
    obtain ⟨l, n⟩ := e
    obtain ⟨hl, hs⟩ := List.pairwise_cons.1 hs
    rw [total_cons, ih hs, OrdMap.find]
    by_cases hk : k = l
    · subst hk
      rw [if_pos rfl, if_pos rfl]
      cases h : OrdMap.find k es with
      | none => rfl
      | some v => exact absurd (hl _ (OrdMap.mem_of_find h)) (lt_irrefl _)
    · rw [if_neg hk, if_neg (Ne.symm hk), zero_add]

/-- **A counter after a tally**: the sum of the counts of its key. -/
theorem get?_tally (m : OrdMap κ ℕ) (es : List (κ × ℕ)) (k : κ) : (tally N m es).get? k =
    if k ∈ es.map Prod.fst then some (((m.get? k).getD 0 + total k es) % N) else m.get? k := by
  induction es generalizing m with
  | nil => rfl
  | cons e es ih =>
    rw [tally, List.foldl_cons, ← tally, ih, total_cons, add, OrdMap.get?_insert, List.map_cons]
    by_cases hk : k = e.1
    · subst hk
      rw [if_pos rfl, if_pos rfl, if_pos (List.mem_cons_self ..), Option.getD_some]
      split_ifs with hes
      · rw [Nat.mod_add_mod, Nat.add_assoc]
      · rw [total_of_notMem hes, Nat.add_zero]
    · rw [if_neg hk, if_neg (Ne.symm hk), zero_add]
      exact (if_congr (List.mem_cons.trans (or_iff_right hk)) rfl rfl).symm

theorem get?_tally_empty (es : List (κ × ℕ)) (k : κ) : (tally N .empty es).get? k =
    if k ∈ es.map Prod.fst then some (total k es % N) else none := by
  rw [get?_tally]
  show (if _ then some ((0 + total k es) % N) else none) = _
  rw [zero_add]

/-- Counts of the same keys with the same sums make the same tally. -/
theorem tally_empty_congr {es fs : List (κ × ℕ)}
    (hkeys : ∀ k, k ∈ es.map Prod.fst ↔ k ∈ fs.map Prod.fst)
    (htotal : ∀ k, total k es % N = total k fs % N) : tally N .empty es = tally N .empty fs := by
  refine OrdMap.ext_get? fun k => ?_
  rw [get?_tally_empty, get?_tally_empty, htotal]
  exact if_congr (hkeys k) rfl rfl

/-- The entries of a tally are counts of the same keys with the same sums. -/
theorem recount {es fs : List (κ × ℕ)} (h : fs.Perm (tally N .empty es).entries) (k : κ) :
    (k ∈ fs.map Prod.fst ↔ k ∈ es.map Prod.fst) ∧ total k fs % N = total k es % N := by
  rw [(h.map Prod.fst).mem_iff, OrdMap.mem_keys, total_perm h, total_entries, get?_tally_empty]
  split_ifs with hk
  · exact ⟨by simp [hk], Nat.mod_mod ..⟩
  · exact ⟨by simp [hk], by rw [total_of_notMem hk]; rfl⟩

/-! ## Maps of counters -/

/-- Add counts to the counters of a group, which starts with none. -/
def addAll (M : OrdMap ι (OrdMap κ ℕ)) (e : ι × List (κ × ℕ)) : OrdMap ι (OrdMap κ ℕ) :=
  M.insert e.1 (tally N ((M.get? e.1).getD .empty) e.2)

/-- Add the counts of groups one after the other. -/
def tallyAll (M : OrdMap ι (OrdMap κ ℕ)) (es : List (ι × List (κ × ℕ))) :
    OrdMap ι (OrdMap κ ℕ) := es.foldl (addAll N) M

section
variable {α : Type*}

/-- The members of a group. -/
def under (i : ι) (es : List (ι × List α)) : List α :=
  (es.filter fun e => e.1 = i).flatMap Prod.snd

theorem under_append (i : ι) (es fs : List (ι × List α)) :
    under i (es ++ fs) = under i es ++ under i fs := by
  rw [under, List.filter_append, List.flatMap_append]
  rfl

theorem under_cons (i : ι) (e : ι × List α) (es : List (ι × List α)) :
    under i (e :: es) = (if e.1 = i then e.2 else []) ++ under i es := by
  rw [under, List.filter_cons]
  by_cases h : e.1 = i
  · rw [if_pos (decide_eq_true h), if_pos h]
    rfl
  · rw [if_neg (by simpa using h), if_neg h]
    rfl

theorem under_of_notMem {i : ι} {es : List (ι × List α)} (h : i ∉ es.map Prod.fst) :
    under i es = [] := by
  induction es with
  | nil => rfl
  | cons e es ih =>
    rw [List.map_cons, List.mem_cons, not_or] at h
    rw [under_cons, if_neg (Ne.symm h.1), ih h.2]
    rfl

theorem under_perm {i : ι} {es fs : List (ι × List α)} (h : es.Perm fs) :
    (under i es).Perm (under i fs) := (h.filter _).flatMap_right _

end

theorem tally_append (m : OrdMap κ ℕ) (es fs : List (κ × ℕ)) :
    tally N m (es ++ fs) = tally N (tally N m es) fs := List.foldl_append

/-- **The counters of a group**: the tally of all its counts. -/
theorem get?_tallyAll (M : OrdMap ι (OrdMap κ ℕ)) (es : List (ι × List (κ × ℕ))) (i : ι) :
    (tallyAll N M es).get? i = if i ∈ es.map Prod.fst then
      some (tally N ((M.get? i).getD .empty) (under i es)) else M.get? i := by
  induction es generalizing M with
  | nil => rfl
  | cons e es ih =>
    rw [tallyAll, List.foldl_cons, ← tallyAll, ih, under_cons, addAll, OrdMap.get?_insert,
      List.map_cons]
    by_cases hi : i = e.1
    · subst hi
      rw [if_pos rfl, if_pos rfl, if_pos (List.mem_cons_self ..), Option.getD_some, tally_append]
      split_ifs with hes
      · rfl
      · rw [under_of_notMem hes]
        rfl
    · rw [if_neg hi, if_neg (Ne.symm hi), List.nil_append]
      exact (if_congr (List.mem_cons.trans (or_iff_right hi)) rfl rfl).symm

theorem get?_tallyAll_empty (es : List (ι × List (κ × ℕ))) (i : ι) :
    (tallyAll N .empty es).get? i = if i ∈ es.map Prod.fst then
      some (tally N .empty (under i es)) else none := get?_tallyAll N .empty es i

/-- Counts of the same groups and keys with the same sums make the same maps. -/
theorem tallyAll_empty_congr {es fs : List (ι × List (κ × ℕ))}
    (hgroups : ∀ i, i ∈ es.map Prod.fst ↔ i ∈ fs.map Prod.fst)
    (hkeys : ∀ i k, k ∈ (under i es).map Prod.fst ↔ k ∈ (under i fs).map Prod.fst)
    (htotal : ∀ i k, total k (under i es) % N = total k (under i fs) % N) :
    tallyAll N .empty es = tallyAll N .empty fs := by
  refine OrdMap.ext_get? fun i => ?_
  rw [get?_tallyAll_empty, get?_tallyAll_empty, tally_empty_congr N (hkeys i) (htotal i)]
  exact if_congr (hgroups i) rfl rfl

/-- The order of the counts does not matter. -/
theorem tallyAll_perm {es fs : List (ι × List (κ × ℕ))} (h : es.Perm fs) :
    tallyAll N .empty es = tallyAll N .empty fs :=
  tallyAll_empty_congr N (fun _ => (h.map _).mem_iff)
    (fun _ _ => ((under_perm h).map _).mem_iff) fun _ _ => by rw [total_perm (under_perm h)]

/-! ## Tallies of tallies -/

/-- `listed` lists the maps `M` of counters: each group once, with its counters, in some
    order. -/
def Lists (M : OrdMap ι (OrdMap κ ℕ)) (listed : List (ι × List (κ × ℕ))) : Prop :=
  ∃ es, es.Perm M.entries ∧ List.Forall₂ (fun e l => l.1 = e.1 ∧ l.2.Perm e.2.entries) es listed

/-- The group `i` among the entries of a map of counters. -/
theorem under_entries (i : ι) (M : OrdMap ι (OrdMap κ ℕ)) :
    under i (M.entries.map fun e => (e.1, e.2.entries)) = ((M.get? i).getD .empty).entries := by
  obtain ⟨es, hs⟩ := M
  show under i (es.map _) = ((OrdMap.find i es).getD .empty).entries
  induction es with
  | nil => rfl
  | cons e es ih =>
    obtain ⟨j, m⟩ := e
    obtain ⟨hj, hs⟩ := List.pairwise_cons.1 hs
    rw [List.map_cons, under_cons, ih hs, OrdMap.find]
    by_cases hi : i = j
    · subst hi
      rw [if_pos rfl, if_pos rfl, Option.getD_some]
      cases h : OrdMap.find i es with
      | none => exact List.append_nil _
      | some v => exact absurd (hj _ (OrdMap.mem_of_find h)) (lt_irrefl _)
    · rw [if_neg hi, if_neg (Ne.symm hi), List.nil_append]

theorem Lists.mem_keys {M : OrdMap ι (OrdMap κ ℕ)} {listed : List (ι × List (κ × ℕ))}
    (h : Lists M listed) (i : ι) : i ∈ listed.map Prod.fst ↔ (M.get? i).isSome := by
  obtain ⟨es, hes, hl⟩ := h
  rw [← OrdMap.mem_keys, ← (hes.map Prod.fst).mem_iff]
  have hkeys : listed.map Prod.fst = es.map Prod.fst := by
    clear hes
    induction hl with
    | nil => rfl
    | cons hd _ ih => rw [List.map_cons, List.map_cons, hd.1, ih]
  rw [hkeys]

theorem Lists.under_perm {M : OrdMap ι (OrdMap κ ℕ)} {listed : List (ι × List (κ × ℕ))}
    (h : Lists M listed) (i : ι) :
    (under i listed).Perm ((M.get? i).getD .empty).entries := by
  obtain ⟨es, hes, hl⟩ := h
  rw [← under_entries]
  refine List.Perm.trans ?_ (Tally.under_perm (hes.map _))
  clear hes
  induction hl with
  | nil => exact List.Perm.refl _
  | @cons e l es listed hd _ ih =>
    rw [List.map_cons, under_cons, under_cons, hd.1]
    split_ifs
    · exact hd.2.append ih
    · exact ih

theorem getD_tallyAll (es : List (ι × List (κ × ℕ))) (i : ι) :
    ((tallyAll N .empty es).get? i).getD .empty = tally N .empty (under i es) := by
  rw [get?_tallyAll_empty]
  split_ifs with hi
  · rfl
  · rw [under_of_notMem hi]
    rfl

/-- A listing of tallies has counts of the same groups and keys with the same sums. -/
theorem Lists.recount {es listed : List (ι × List (κ × ℕ))}
    (h : Lists (tallyAll N .empty es) listed) (i : ι) :
    (i ∈ listed.map Prod.fst ↔ i ∈ es.map Prod.fst) ∧
    ∀ k, (k ∈ (under i listed).map Prod.fst ↔ k ∈ (under i es).map Prod.fst) ∧
      total k (under i listed) % N = total k (under i es) % N := by
  refine ⟨?_, fun k => Tally.recount N (getD_tallyAll N es i ▸ h.under_perm i) k⟩
  rw [h.mem_keys, get?_tallyAll_empty]
  split_ifs with hi
  · exact ⟨fun _ => hi, fun _ => rfl⟩
  · exact ⟨nofun, fun h => absurd h hi⟩

/-- **The tally of tallies**: counts tallied in parts, whose tallies are tallied again, make
    the maps that the counts make at once. -/
theorem tallyAll_recount {parts listed : List (List (ι × List (κ × ℕ)))}
    (h : List.Forall₂ (fun es l => Lists (tallyAll N .empty es) l) parts listed) :
    tallyAll N .empty listed.flatten = tallyAll N .empty parts.flatten := by
  have hall (i : ι) : (i ∈ listed.flatten.map Prod.fst ↔ i ∈ parts.flatten.map Prod.fst) ∧
      ∀ k, (k ∈ (under i listed.flatten).map Prod.fst ↔
          k ∈ (under i parts.flatten).map Prod.fst) ∧
        total k (under i listed.flatten) % N = total k (under i parts.flatten) % N := by
    induction h with
    | nil => exact ⟨Iff.rfl, fun _ => ⟨Iff.rfl, rfl⟩⟩
    | @cons es l parts listed hd _ ih =>
      obtain ⟨hgroup, hcount⟩ := Lists.recount N hd i
      simp only [List.flatten_cons, List.map_append, List.mem_append, under_append, total_append]
      refine ⟨or_congr hgroup ih.1, fun k => ⟨or_congr (hcount k).1 (ih.2 k).1, ?_⟩⟩
      rw [Nat.add_mod, (hcount k).2, (ih.2 k).2, ← Nat.add_mod]
  exact tallyAll_empty_congr N (fun i => (hall i).1) (fun i k => ((hall i).2 k).1)
    fun i k => ((hall i).2 k).2

end Tally
