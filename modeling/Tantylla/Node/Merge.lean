/-
  What an upsert does to the body of a document: the recursive merge of the
  payload (`merge_json`), then the collection deltas (`apply_collection_deltas`).
-/
import Tantylla.Json
import Tantylla.Proto

namespace Tantylla

open OrdMap

mutual
/-- `merge_json`: objects are merged key by key, anything else is replaced. -/
def mergeJson : Json → Json → Json
  | .obj a, .obj b => .obj (mergeFields a b)
  | _, b => b

/-- The loop of `merge_json` over the entries of the patch; a key that is missing is
    first entered with `Null`. -/
def mergeFields (a : List (String × Json)) : List (String × Json) → List (String × Json)
  | [] => a
  | (k, v) :: b => mergeFields (put k (mergeJson ((find k a).getD .null) v) a) b
end

/-- `serde_json::from_str::<Vec<Value>>`, through the reader of values. -/
def fromStrVec (fromStr : String → Option Json) (s : String) : Option (List Json) :=
  (fromStr s).bind Json.asArray

/-- The new elements of a collection under one delta: tombstone, then removal, then
    addition; element lists that are empty texts or do not parse change nothing. -/
def deltaElements (fromStr : String → Option Json) (delta : CollectionDelta)
    (elements : List Json) : List Json :=
  let elements := if delta.tombstoned then [] else elements
  let elements :=
    if delta.deletedElementsJson = "" then elements
    else match fromStrVec fromStr delta.deletedElementsJson with
      | some deleted => elements.filter fun elem => elem ∉ deleted
      | none => elements
  if delta.addedElementsJson = "" then elements
  else match fromStrVec fromStr delta.addedElementsJson with
    | some added =>
      added.foldl (fun es elem => if elem ∈ es then es else es ++ [elem]) elements
    | none => elements

/-- One iteration of the loop of `apply_collection_deltas`. -/
def applyDelta (fromStr : String → Option Json) (obj : List (String × Json))
    (delta : CollectionDelta) : List (String × Json) :=
  let existing := (find delta.column obj).getD (.arr [])
  let elements := existing.asArray.getD []
  put delta.column (.arr (deltaElements fromStr delta elements)) obj

/-- `apply_collection_deltas`: a document that is not an object is left alone. -/
def applyCollectionDeltas (fromStr : String → Option Json) (doc : Json)
    (deltas : List CollectionDelta) : Json :=
  match doc with
  | .obj m => .obj (deltas.foldl (applyDelta fromStr) m)
  | doc => doc

theorem applyCollectionDeltas_nil (fromStr : String → Option Json) (doc : Json) :
    applyCollectionDeltas fromStr doc [] = doc := by cases doc <;> rfl

/-! ## The keys of a merged document -/

theorem mergeJson_of_not_isObj (a : Json) : ∀ {b : Json}, ¬ b.IsObj → mergeJson a b = b
  | .obj m, h => absurd ⟨m, rfl⟩ h
  | .null, _ | .bool _, _ | .num _, _ | .str _, _ | .arr _, _ => by cases a <;> rfl

theorem find_mergeFields_isSome {k : String} (b a : List (String × Json)) :
    (find k (mergeFields a b)).isSome ↔ (find k a).isSome ∨ (find k b).isSome := by
  induction b generalizing a with
  | nil => simp [mergeFields]
  | cons e b ih =>
    obtain ⟨l, v⟩ := e
    rw [mergeFields, ih, find_put]
    by_cases h : k = l <;> simp [find, h]

/-- Merging an object into a document keeps the keys of both. -/
theorem mergeJson_hasKeys {ks : List String} {a b : Json} (hb : b.IsObj)
    (h : a.HasKeys ks ∨ b.HasKeys ks) : (mergeJson a b).HasKeys ks := by
  obtain ⟨mb, rfl⟩ := hb
  rcases h with ⟨ma, rfl, h⟩ | ⟨m, he, h⟩
  · exact ⟨_, rfl, fun k hk => (find_mergeFields_isSome mb ma).2 (Or.inl (h k hk))⟩
  · cases he
    cases a with
    | obj ma => exact ⟨_, rfl, fun k hk => (find_mergeFields_isSome mb ma).2 (Or.inr (h k hk))⟩
    | _ => exact ⟨mb, rfl, h⟩

/-- A nested object is merged, not replaced. -/
example : mergeJson (.obj [("meta", .obj [("x", .num (.int 1))])])
    (.obj [("meta", .obj [("y", .num (.int 2))])]) =
      .obj [("meta", .obj [("x", .num (.int 1)), ("y", .num (.int 2))])] := by decide

theorem mapTextFields_put (f : String → String) (k : String) (v : Json)
    (m : List (String × Json)) :
    Json.mapTextFields f (put k v m) = put k (v.mapText f) (Json.mapTextFields f m) := by
  induction m with
  | nil => rfl
  | cons e m ih =>
    obtain ⟨l, w⟩ := e
    simp only [put, Json.mapTextFields]
    split_ifs
    · rfl
    · rfl
    · rw [Json.mapTextFields, ih]

mutual
/-- Texts may be changed before a merge or after it. -/
theorem mapText_mergeJson (f : String → String) : ∀ b a : Json,
    (mergeJson a b).mapText f = mergeJson (a.mapText f) (b.mapText f)
  | .obj b, .obj a => congrArg _ (mapText_mergeFields f b a)
  | .obj _, .null | .obj _, .bool _ | .obj _, .num _ | .obj _, .str _ | .obj _, .arr _ => rfl
  | .null, a | .bool _, a | .num _, a | .str _, a | .arr _, a => by cases a <;> rfl

theorem mapText_mergeFields (f : String → String) : ∀ b a : List (String × Json),
    Json.mapTextFields f (mergeFields a b) =
      mergeFields (Json.mapTextFields f a) (Json.mapTextFields f b)
  | [], _ => rfl
  | (k, v) :: b, a => by
    have hold : ((find k a).getD .null).mapText f =
        (find k (Json.mapTextFields f a)).getD .null := by
      rw [Json.find_mapTextFields]
      cases find k a <;> rfl
    rw [mergeFields, mapText_mergeFields f b, mapTextFields_put, mapText_mergeJson f v, hold,
      Json.mapTextFields, mergeFields]
end

theorem foldl_applyDelta_isSome {fromStr : String → Option Json} {k : String}
    (deltas : List CollectionDelta) {m : List (String × Json)} (h : (find k m).isSome) :
    (find k (deltas.foldl (applyDelta fromStr) m)).isSome := by
  induction deltas generalizing m with
  | nil => exact h
  | cons delta deltas ih =>
    refine ih ?_
    rw [applyDelta, find_put]
    split_ifs
    · rfl
    · exact h

/-- Collection deltas keep the keys of a document. -/
theorem applyCollectionDeltas_hasKeys {fromStr : String → Option Json} {ks : List String}
    {doc : Json} (deltas : List CollectionDelta) (h : doc.HasKeys ks) :
    (applyCollectionDeltas fromStr doc deltas).HasKeys ks := by
  obtain ⟨m, rfl, h⟩ := h
  exact ⟨_, rfl, fun k hk => foldl_applyDelta_isSome deltas (h k hk)⟩

end Tantylla
