/-
  When a merge replaces.

  `merge_json` puts an object into another key by key, so it leaves of the old value
  what the new one does not mention.  `overwrites old new` is the condition on the two
  values under which nothing is left: where both are objects, every key of the old is a
  key of the new, and so on below.  `mergeJson_eq_right_iff`: then, and only then, the
  merge is the new value.

  The values are `Ordered`: the keys of every object increase, as in the crate's
  `BTreeMap`s.
-/
import Tantylla.Node.Merge

namespace Tantylla

open OrdMap

namespace Json

mutual
/-- The keys of every object in the value are strictly increasing. -/
def Ordered : Json → Prop
  | .arr xs => OrderedList xs
  | .obj m => Sorted m ∧ OrderedFields m
  | _ => True

def OrderedList : List Json → Prop
  | [] => True
  | x :: xs => Ordered x ∧ OrderedList xs

def OrderedFields : List (String × Json) → Prop
  | [] => True
  | (_, v) :: m => Ordered v ∧ OrderedFields m
end

theorem orderedFields_iff {m : List (String × Json)} :
    OrderedFields m ↔ ∀ e ∈ m, Ordered e.2 := by
  induction m with
  | nil => simp [OrderedFields]
  | cons e m ih => rw [OrderedFields, ih, List.forall_mem_cons]

theorem OrderedFields.put {m : List (String × Json)} (h : OrderedFields m) (k : String) {v : Json}
    (hv : v.Ordered) : OrderedFields (put k v m) := by
  rw [orderedFields_iff] at h ⊢
  intro e he
  rcases mem_put he with rfl | he
  · exact hv
  · exact h e he

/-- The value of a key is ordered; so is `Null`, which stands for a missing one. -/
theorem OrderedFields.find {m : List (String × Json)} (h : OrderedFields m) (k : String) :
    ((find k m).getD .null).Ordered := by
  rcases hf : OrdMap.find k m with _ | v
  · trivial
  · exact orderedFields_iff.1 h _ (mem_of_find hf)

mutual
theorem Ordered.mapText {f : String → String} : ∀ {j : Json}, j.Ordered → (j.mapText f).Ordered
  | .arr xs, h => orderedList_mapText xs h
  | .obj m, h => by
    refine ⟨?_, orderedFields_mapText m h.2⟩
    rw [mapTextFields_eq_map]
    exact List.pairwise_map.2 h.1
  | .null, _ | .bool _, _ | .num _, _ | .str _, _ => trivial

theorem orderedList_mapText {f : String → String} : ∀ xs, OrderedList xs →
    OrderedList (mapTextList f xs)
  | [], _ => trivial
  | _ :: xs, h => ⟨h.1.mapText, orderedList_mapText xs h.2⟩

theorem orderedFields_mapText {f : String → String} : ∀ m, OrderedFields m →
    OrderedFields (mapTextFields f m)
  | [], _ => trivial
  | _ :: m, h => ⟨h.1.mapText, orderedFields_mapText m h.2⟩
end

theorem Ordered.get {j : Json} (h : j.Ordered) (k : String) : ((j.get k).getD .null).Ordered := by
  cases j with
  | obj m => exact OrderedFields.find h.2 k
  | _ => trivial

end Json

open Json

/-! ## Merging, key by key -/

/-- The values of a merged object. -/
theorem find_mergeFields {b : List (String × Json)} (hb : Sorted b) (a : List (String × Json))
    (k : String) : find k (mergeFields a b) =
      ((find k b).map (mergeJson ((find k a).getD .null))).or (find k a) := by
  induction b generalizing a with
  | nil => rfl
  | cons e b ih =>
    obtain ⟨l, v⟩ := e
    obtain ⟨hlt, hb⟩ := List.pairwise_cons.1 hb
    rw [mergeFields, ih hb]
    by_cases hk : k = l
    · subst hk
      -- the key comes once
      have hn : find k b = none := by
        rw [← Option.not_isSome_iff_eq_none, find_isSome]
        intro hmem
        obtain ⟨e, he, hek⟩ := List.mem_map.1 hmem
        exact (hlt e he).ne hek.symm
      simp [find, hn]
    · simp only [find, hk, if_false, find_put_ne hk]

/-- The value of a key in a document into which an object is merged. -/
theorem get_mergeJson {p : List (String × Json)} (hp : Sorted p) (a : Json) (k : String) :
    (mergeJson a (.obj p)).get k =
      ((find k p).map (mergeJson ((a.get k).getD .null))).or (a.get k) := by
  cases a with
  | obj m => exact find_mergeFields hp m k
  | null | bool _ | num _ | str _ | arr _ =>
    rw [mergeJson, Json.get]
    · cases find k p with
      | some v => cases v <;> rfl
      | none => rfl
    all_goals nofun

theorem sorted_mergeFields (b : List (String × Json)) {a : List (String × Json)}
    (h : Sorted a) : Sorted (mergeFields a b) := by
  induction b generalizing a with
  | nil => exact h
  | cons e b ih => exact ih h.put

/-- An object is the merge into another one iff it has all its keys, and each of its values
    is the merge into the old value. -/
theorem mergeFields_eq_right_iff {a b : List (String × Json)} (ha : Sorted a) (hb : Sorted b) :
    mergeFields a b = b ↔ (∀ e ∈ a, (find e.1 b).isSome) ∧
      ∀ e ∈ b, mergeJson ((find e.1 a).getD .null) e.2 = e.2 := by
  constructor
  · intro h
    have hfind (k : String) := find_mergeFields hb a k
    rw [h] at hfind
    refine ⟨fun e he => ?_, fun e he => ?_⟩
    · by_contra hn
      have := hfind e.1
      rw [Option.not_isSome_iff_eq_none.1 hn, ha.find_of_mem he] at this
      cases this
    · have := hfind e.1
      rw [hb.find_of_mem he, Option.map_some, Option.some_or, Option.some.injEq] at this
      exact this.symm
  · rintro ⟨hkeys, hvals⟩
    refine Sorted.ext (sorted_mergeFields b ha) hb fun k => ?_
    rw [find_mergeFields hb]
    cases hk : find k b with
    | some v => rw [Option.map_some, Option.some_or, hvals _ (mem_of_find hk)]
    | none =>
      rw [Option.map_none, Option.none_or, ← Option.not_isSome_iff_eq_none, find_isSome]
      intro hmem
      obtain ⟨e, he, rfl⟩ := List.mem_map.1 hmem
      have := hkeys e he
      rw [hk] at this
      cases this

/-! ## Values that replace -/

mutual
/-- Nothing of the old value is left when the new one is merged into it. -/
def overwrites : Json → Json → Bool
  | .obj old, .obj new => old.all (fun e => (find e.1 new).isSome) && overwritesFields old new
  | _, _ => true

def overwritesFields (old : List (String × Json)) : List (String × Json) → Bool
  | [] => true
  | (k, v) :: new => overwrites ((find k old).getD .null) v && overwritesFields old new
end

mutual
/-- **A merge replaces iff the new value overwrites the old one.** -/
theorem mergeJson_eq_right_iff : ∀ (new old : Json), old.Ordered → new.Ordered →
    (mergeJson old new = new ↔ overwrites old new)
  | .obj new, .obj old, ho, hn => by
    rw [mergeJson, Json.obj.injEq, mergeFields_eq_right_iff ho.1 hn.1,
      overwritesFields_iff new old ho.2 hn.2, overwrites, Bool.and_eq_true, List.all_eq_true]
  | .obj _, .null, _, _ | .obj _, .bool _, _, _ | .obj _, .num _, _, _ | .obj _, .str _, _, _
  | .obj _, .arr _, _, _ => by simp [mergeJson, overwrites]
  | .null, old, _, _ | .bool _, old, _, _ | .num _, old, _, _ | .str _, old, _, _
  | .arr _, old, _, _ => by cases old <;> simp [mergeJson, overwrites]

theorem overwritesFields_iff : ∀ (new old : List (String × Json)), OrderedFields old →
    OrderedFields new →
    ((∀ e ∈ new, mergeJson ((find e.1 old).getD .null) e.2 = e.2) ↔ overwritesFields old new)
  | [], _, _, _ => by simp [overwritesFields]
  | (k, v) :: new, old, ho, hn => by
    rw [List.forall_mem_cons, mergeJson_eq_right_iff v _ (ho.find k) hn.1,
      overwritesFields_iff new old ho hn.2, overwritesFields, Bool.and_eq_true]
end

mutual
/-- What is overwritten is a matter of keys. -/
theorem overwrites_mapText (f : String → String) : ∀ new old : Json,
    overwrites (old.mapText f) new = overwrites old new
  | .obj new, .obj old => by
    rw [mapText, overwrites, overwrites, overwritesFields_mapText f new old,
      mapTextFields_eq_map, List.all_map]
    rfl
  | .obj _, .null | .obj _, .bool _ | .obj _, .num _ | .obj _, .str _ | .obj _, .arr _ => rfl
  | .null, old | .bool _, old | .num _, old | .str _, old | .arr _, old => by cases old <;> rfl

theorem overwritesFields_mapText (f : String → String) : ∀ new old : List (String × Json),
    overwritesFields (mapTextFields f old) new = overwritesFields old new
  | [], _ => rfl
  | (k, v) :: new, old => by
    have hold : (find k (mapTextFields f old)).getD .null =
        ((find k old).getD .null).mapText f := by
      rw [find_mapTextFields]
      cases find k old <;> rfl
    rw [overwritesFields, overwritesFields, hold, overwrites_mapText f v,
      overwritesFields_mapText f new]
end

end Tantylla
