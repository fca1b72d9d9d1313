/-
  The laws of a merge.

  `merge_json` is a union of objects in which the patch wins, and which goes on below the
  keys that both have (`union_mergeFields`).  `mergeJson_laws`: it is idempotent, the
  result agrees with the patch wherever that has a value that is not an object, and
  patches of different keys are merged in either order.
-/
import Tantylla.Node.Overwrites

namespace Tantylla

open OrdMap

namespace Json

/-- A step into a value: to the value of a key, or to an element of an array. -/
inductive PathStep where
  | key (k : String)
  | index (i : ℕ)

/-- The value at the end of a path. -/
def valueAt : List PathStep → Json → Option Json
  | [], j => some j
  | .key k :: path, j => (j.get k).bind (valueAt path)
  | .index i :: path, j => (j.asArray.bind fun xs => xs[i]?).bind (valueAt path)

end Json

open Json

/-- `m` is the union of the objects `a` and `b`, merged below the keys that both have. -/
structure UnionOf (a b m : List (String × Json)) : Prop where
  keys : ∀ k, (find k m).isSome ↔ (find k a).isSome ∨ (find k b).isSome
  left : ∀ k va, find k a = some va → find k b = none → find k m = some va
  right : ∀ k vb, find k a = none → find k b = some vb → find k m = some vb
  both : ∀ k va vb, find k a = some va → find k b = some vb →
    find k m = some (mergeJson va vb)

theorem mergeJson_of_not_isObj_left {a : Json} (h : ¬ a.IsObj) (b : Json) :
    mergeJson a b = b := by
  cases a with
  | obj m => exact absurd ⟨m, rfl⟩ h
  | null | bool _ | num _ | str _ | arr _ => cases b <;> rfl

theorem mergeJson_null (b : Json) : mergeJson .null b = b :=
  mergeJson_of_not_isObj_left (fun ⟨_, h⟩ => by cases h) b

/-- A merge of objects is their union; the `Null` that is entered for a missing key is
    replaced by the value of the patch. -/
theorem union_mergeFields {b : List (String × Json)} (hb : Sorted b) (a : List (String × Json)) :
    UnionOf a b (mergeFields a b) where
  keys k := find_mergeFields_isSome b a
  left k va hva hvb := by rw [find_mergeFields hb, hva, hvb]; rfl
  right k vb hva hvb := by
    rw [find_mergeFields hb, hva, hvb, Option.getD_none, Option.map_some, Option.some_or,
      mergeJson_null]
  both k va vb hva hvb := by
    rw [find_mergeFields hb, hva, hvb, Option.getD_some, Option.map_some, Option.some_or]

/-! ## Objects as patches -/

/-- The entries of a value; a value that is not an object has none. -/
def Json.fields : Json → List (String × Json)
  | .obj m => m
  | _ => []

theorem Json.Ordered.fields {j : Json} (h : j.Ordered) :
    Sorted j.fields ∧ OrderedFields j.fields := by
  cases j with
  | obj m => exact h
  | null | bool _ | num _ | str _ | arr _ => exact ⟨List.Pairwise.nil, trivial⟩

theorem mergeFields_nil {p : List (String × Json)} (hp : Sorted p) : mergeFields [] p = p := by
  refine Sorted.ext (sorted_mergeFields p List.Pairwise.nil) hp fun k => ?_
  rw [find_mergeFields hp, find_nil, Option.getD_none, Option.or_none]
  cases find k p with
  | none => rfl
  | some v => rw [Option.map_some, mergeJson_null]

/-- An object is merged into the entries that are there. -/
theorem mergeJson_obj {p : List (String × Json)} (hp : Sorted p) (a : Json) :
    mergeJson a (.obj p) = .obj (mergeFields a.fields p) := by
  by_cases ha : a.IsObj
  · obtain ⟨m, rfl⟩ := ha
    rw [mergeJson, Json.fields]
  · have hnil : a.fields = [] := by
      cases a with
      | obj m => exact absurd ⟨m, rfl⟩ ha
      | null | bool _ | num _ | str _ | arr _ => rfl
    rw [mergeJson_of_not_isObj_left ha, hnil, mergeFields_nil hp]

/-! ## Merging twice -/

/-- If each value of a patch is merged twice as it is merged once, so is the patch. -/
theorem mergeFields_twice {b : List (String × Json)} (hb : Sorted b)
    (hvals : ∀ e ∈ b, ∀ old : Json, old.Ordered →
      mergeJson (mergeJson old e.2) e.2 = mergeJson old e.2)
    {a : List (String × Json)} (ha : Sorted a) (hav : OrderedFields a) :
    mergeFields (mergeFields a b) b = mergeFields a b := by
  have hs : Sorted (mergeFields a b) := sorted_mergeFields b ha
  refine Sorted.ext (sorted_mergeFields b hs) hs fun k => ?_
  rw [find_mergeFields hb (mergeFields a b), find_mergeFields hb a]
  cases hk : find k b with
  | none => rfl
  | some v =>
    have hv := hvals _ (mem_of_find hk) _ (hav.find k)
    rw [Option.map_some, Option.some_or, Option.map_some, Option.some_or, Option.getD_some, hv]

mutual
/-- **Merging a patch twice is merging it once.** -/
theorem mergeJson_twice : ∀ (b a : Json), a.Ordered → b.Ordered →
    mergeJson (mergeJson a b) b = mergeJson a b
  | .obj b, a, ha, hb => by
    rw [mergeJson_obj hb.1, mergeJson_obj hb.1, Json.fields,
      mergeFields_twice hb.1 (mergeJson_twice_of_mem b hb.2) ha.fields.1 ha.fields.2]
  | .null, _, _, _ | .bool _, _, _, _ | .num _, _, _, _ | .str _, _, _, _
  | .arr _, _, _, _ => by
    rw [mergeJson_of_not_isObj _ (fun ⟨_, h⟩ => by cases h),
      mergeJson_of_not_isObj _ (fun ⟨_, h⟩ => by cases h)]

theorem mergeJson_twice_of_mem : ∀ (b : List (String × Json)), OrderedFields b →
    ∀ e ∈ b, ∀ old : Json, old.Ordered → mergeJson (mergeJson old e.2) e.2 = mergeJson old e.2
  | [], _ => nofun
  | (_, v) :: b, hb => by
    rw [List.forall_mem_cons]
    exact ⟨fun old hold => mergeJson_twice v old hold hb.1, mergeJson_twice_of_mem b hb.2⟩
end

/-! ## Where the patch has a value -/

/-- **Where the patch has a value that is not an object, the result has it too.** -/
theorem valueAt_mergeJson {path : List PathStep} {a b v : Json} (hb : b.Ordered)
    (hv : b.valueAt path = some v) (hobj : ¬ v.IsObj) :
    (mergeJson a b).valueAt path = some v := by
  induction path generalizing a b with
  | nil =>
    cases hv
    rw [mergeJson_of_not_isObj a hobj, Json.valueAt]
  | cons s path ih =>
    cases s with
    | key k =>
      obtain ⟨w, hw, hrest⟩ := Option.bind_eq_some_iff.1 hv
      cases b with
      | obj p =>
        have hk : find k p = some w := hw
        have hget : (mergeJson a (.obj p)).get k = some (mergeJson ((a.get k).getD .null) w) := by
          rw [get_mergeJson hb.1, hk, Option.map_some, Option.some_or]
        rw [valueAt, hget]
        exact ih (orderedFields_iff.1 hb.2 _ (mem_of_find hk)) hrest
      | null | bool _ | num _ | str _ | arr _ => cases hw
    | index i =>
      -- an array replaces what was there
      have hnot : ¬ b.IsObj := by
        rintro ⟨p, rfl⟩
        cases hv
      rw [mergeJson_of_not_isObj a hnot]
      exact hv

/-! ## Patches of different keys -/

/-- Two patches without a common key. -/
def DisjointKeys (p q : List (String × Json)) : Prop :=
  ∀ k, find k p = none ∨ find k q = none

/-- **Patches of different keys are merged in either order.** -/
theorem mergeJson_comm {p q : List (String × Json)} (hp : Sorted p) (hq : Sorted q)
    (hdisj : DisjointKeys p q) {a : Json} (ha : a.Ordered) :
    mergeJson (mergeJson a (.obj p)) (.obj q) = mergeJson (mergeJson a (.obj q)) (.obj p) := by
  have hs : Sorted a.fields := ha.fields.1
  rw [mergeJson_obj hp, mergeJson_obj hq, mergeJson_obj hq, mergeJson_obj hp, Json.obj.injEq]
  simp only [Json.fields]
  refine Sorted.ext (sorted_mergeFields q (sorted_mergeFields p hs))
    (sorted_mergeFields p (sorted_mergeFields q hs)) fun k => ?_
  rw [find_mergeFields hp, find_mergeFields hq, find_mergeFields hp, find_mergeFields hq]
  rcases hdisj k with hk | hk
  · simp [hk]
  · simp [hk]

/-- **The laws of `merge_json`.**  A patch that is merged twice is merged once.  Objects are
    united key by key.  Wherever the patch has a value that is not an object, the result has
    it.  Object patches without a common key are merged in either order. -/
theorem mergeJson_laws {a b : Json} (ha : a.Ordered) (hb : b.Ordered) :
    mergeJson (mergeJson a b) b = mergeJson a b ∧
    (∀ ma mb, a = .obj ma → b = .obj mb → ∃ m, mergeJson a b = .obj m ∧ UnionOf ma mb m) ∧
    (∀ path v, b.valueAt path = some v → ¬ v.IsObj →
      (mergeJson a b).valueAt path = some v) ∧
    ∀ p q, (Json.obj p).Ordered → (Json.obj q).Ordered → DisjointKeys p q →
      mergeJson (mergeJson a (.obj p)) (.obj q) = mergeJson (mergeJson a (.obj q)) (.obj p) := by
  refine ⟨mergeJson_twice b a ha hb, ?_, fun path v => valueAt_mergeJson hb,
    fun p q hp hq hdisj => mergeJson_comm hp.1 hq.1 hdisj ha⟩
  rintro ma mb rfl rfl
  exact ⟨mergeFields ma mb, by rw [mergeJson], union_mergeFields hb.1 ma⟩

/-- The laws at `{"a":{"x":1}}` and `{"a":{"y":2}}`. -/
theorem mergeJson_laws_nested :
    let a := Json.obj [("a", .obj [("x", .num (.int 1))])]
    let b := Json.obj [("a", .obj [("y", .num (.int 2))])]
    mergeJson (mergeJson a b) b =
        .obj [("a", .obj [("x", .num (.int 1)), ("y", .num (.int 2))])] ∧
      (mergeJson a b).valueAt [.key "a", .key "y"] = some (.num (.int 2)) := by
  intro a b
  have hordered : a.Ordered ∧ b.Ordered := by
    simp [a, b, Json.Ordered, OrderedFields, Sorted]
  obtain ⟨htwice, -, hpath, -⟩ := mergeJson_laws hordered.1 hordered.2
  refine ⟨htwice.trans (by decide), hpath _ _ (by decide) ?_⟩
  rintro ⟨m, hm⟩
  cases hm

end Tantylla
