/-
  Collection deltas of map columns.

  `serialize_cdc_row` writes the added entries of a non-frozen map as the text of a
  JSON object, as the comment in `service.proto` has it for maps; the node reads the
  list of added elements as an array, and leaves an array in the column whatever it
  reads.  `mapAfter` is what the row says of a map column.

  * `get_deltas_isArr`: a column with a delta is an array afterwards, so it is never
    the map (`map_column_lost`);
  * `map_emptied`: from an object, or nothing, it is the empty array: neither the old
    entries nor the added ones are left.
-/
import Tantylla.Node.SetDeltas
import Tantylla.Ingestor.Row

namespace Tantylla

open OrdMap

/-- A non-frozen map column with text keys, and its deleted keys. -/
structure Column.IsTextMap (c : Column) (deletedKeys : List CqlValue) : Prop where
  deletedElements : c.deletedElements = some deletedKeys
  value : ∀ v, c.value = some v → ∃ kvs, v = .map kvs ∧ ∀ kv ∈ kvs, ∃ s, kv.1 = .text s
  keys : ∀ k ∈ deletedKeys, ∃ s, k = .text s

/-! ## A sample row -/

/-- The text of a map, and what it is read as. -/
def sampleMapTexts : List (String × Json) := [("\x7b\"b\":\"2\"\x7d", .obj [("b", .str "2")])]

/-- The map is written as the crate writes it; the other texts do not matter here. -/
def sampleMapFormats : Formats where
  uuid _ := ""
  inet _ := ""
  decimal _ := ""
  base64 _ := ""
  f32 _ := ""
  f64 _ := ""
  f32ToF64 _ := 0
  debug _ := ""
  jsonToString j := ((sampleMapTexts.find? fun p => p.2 = j).map Prod.fst).getD ""

/-- `attrs = attrs + {'b': '2'}` -/
def sampleMapColumn : Column := ⟨"attrs", some (.map [(.text "b", .text "2")]), false, some []⟩

def sampleMapRow : CDCRow where
  streamId := "00"
  time := 0x1419d6801dd211b28000000000000000
  batchSeqNo := 0
  operation := .rowUpdate
  ttl := none
  columns := [sampleMapColumn]

/-! ## Map columns -/

section
variable (F : Formats)

/-- The entries of a map column after a delta row: the old entries (none after a
    tombstone, or if there was no map) without the deleted keys, overridden by the added
    ones. -/
def mapAfter (c : Column) (deletedKeys : List CqlValue) (old : Option Json) :
    List (String × Json) :=
  let old := match old with
    | some (.obj m) => if c.valueDeleted then [] else m
    | _ => []
  let kept := old.filter fun e => e.1 ∉ deletedKeys.map (mapKey F)
  match c.value with
  | some (.map added) => cqlMapToJson F added kept
  | _ => kept

variable {F} (fromStr : String → Option Json)

theorem get_deltas_isArr {row : CDCRow} {c : Column} {deletedKeys : List CqlValue}
    (hc : c ∈ row.columns) (hk : c.deletedElements = some deletedKeys)
    (hd : (collectionDelta F c deletedKeys).isSome) (m : List (String × Json)) :
    ∃ es, (applyCollectionDeltas fromStr (.obj m) (deltasOf F row)).get c.name =
      some (.arr es) := by
  obtain ⟨d, hd⟩ := Option.isSome_iff_exists.1 hd
  have hmem : d ∈ deltasOf F row := List.mem_filterMap.2 ⟨c, hc, by rw [hk]; exact hd⟩
  exact ⟨_, (find_foldl_applyDelta ..).trans (if_pos ⟨d, hmem, column_of_collectionDelta hd⟩)⟩

/-- The added entries of a map are not a list of elements, so none is added. -/
theorem added_of_map {c : Column} {deletedKeys : List CqlValue} {d : CollectionDelta}
    (hF : ∀ j, fromStr (F.jsonToString j) = some j) (hm : c.IsTextMap deletedKeys)
    (hd : collectionDelta F c deletedKeys = some d) : d.added fromStr = [] := by
  simp only [collectionDelta, Option.ite_none_right_eq_some, Option.some.injEq] at hd
  rw [← hd.2, CollectionDelta.added, CollectionDelta.elements]
  rcases hv : c.value with _ | v
  · rfl
  · obtain ⟨kvs, rfl, -⟩ := hm.value v hv
    simp only [fromStrVec, hF, cqlToJson, Option.bind_some, Json.asArray, Option.getD_none,
      ite_self]

/-- **Neither the old entries nor the added ones are left.**  The delta of a map column makes
    the empty array of an object, or of an absent column. -/
theorem map_emptied {c : Column} {deletedKeys : List CqlValue} {d : CollectionDelta}
    (hF : ∀ j, fromStr (F.jsonToString j) = some j) (hm : c.IsTextMap deletedKeys)
    (hd : collectionDelta F c deletedKeys = some d) {m : List (String × Json)}
    (hold : ∀ j, find d.column m = some j → j.IsObj) :
    (applyCollectionDeltas fromStr (.obj m) [d]).get d.column = some (.arr []) := by
  have hes : elementsOf d.column m = [] := by
    unfold elementsOf
    rcases hf : find d.column m with _ | j
    · rfl
    · obtain ⟨m', rfl⟩ := hold j hf
      rfl
  refine (find_foldl_applyDelta ..).trans ?_
  rw [if_pos ⟨d, by simp⟩, foldUpdates_cons, if_pos rfl, hes, CollectionDelta.update,
    added_of_map fromStr hF hm hd]
  simp [foldUpdates, ListSet.update, CollectionDelta.base]

/-- **A map column never becomes the map of the row**, whatever the document. -/
theorem map_column_lost {row : CDCRow} {c : Column} {deletedKeys : List CqlValue}
    (hc : c ∈ row.columns) (hm : c.IsTextMap deletedKeys)
    (hd : (collectionDelta F c deletedKeys).isSome) (doc : Json) :
    (applyCollectionDeltas fromStr doc (deltasOf F row)).get c.name ≠
      some (.obj (mapAfter F c deletedKeys (doc.get c.name))) := by
  intro h
  cases doc with
  | obj m =>
    obtain ⟨es, he⟩ := get_deltas_isArr fromStr hc hm.deletedElements hd m
    rw [he] at h
    cases h
  | _ => cases h

theorem sampleMapColumn_isTextMap : sampleMapColumn.IsTextMap [] where
  deletedElements := rfl
  value := by
    intro v hv
    cases hv
    exact ⟨_, rfl, by simp⟩
  keys := by simp

/-- The theorem at a delta that adds one entry. -/
theorem map_column_lost_added :
    (applyCollectionDeltas (sampleMapTexts.lookup ·) (.obj [("attrs", .obj [("a", .str "1")])])
      (deltasOf sampleMapFormats sampleMapRow)).get "attrs" ≠
      some (.obj (mapAfter sampleMapFormats sampleMapColumn [] (some (.obj [("a", .str "1")])))) :=
  map_column_lost (sampleMapTexts.lookup ·) (List.mem_singleton.2 rfl) sampleMapColumn_isTextMap
    (by decide) (.obj [("attrs", .obj [("a", .str "1")])])

/-- The entry `b` is added to the map `attrs`, and the map is gone. -/
theorem added_entry_lost :
    let doc := Json.obj [("attrs", .obj [("a", .str "1")])]
    mapAfter sampleMapFormats sampleMapColumn [] (doc.get "attrs") =
      [("a", .str "1"), ("b", .str "2")] ∧
    (applyCollectionDeltas (sampleMapTexts.lookup ·) doc (deltasOf sampleMapFormats
      sampleMapRow)).get "attrs" = some (.arr []) ∧
    (applyCollectionDeltas (sampleMapTexts.lookup ·) doc (deltasOf sampleMapFormats
      sampleMapRow)).get "attrs" ≠
      some (.obj (mapAfter sampleMapFormats sampleMapColumn [] (doc.get "attrs"))) := by decide

end

end Tantylla
