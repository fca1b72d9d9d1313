/-
  Collection deltas as updates of sets.

  `update` says what one delta does to the elements of its column: none of them are
  left by a tombstone, the deleted ones are removed, the added ones that are new come
  last (`ListSet.update`).  An element list that is empty or does not parse is the
  empty list.

  * `find_applyDelta` is the step: the column of the delta gets the update of its
    elements, every other column stays;
  * `find_foldl_applyDelta` is the run: a column gets the updates of its own deltas,
    in their order;
  * `foldl_applyDelta_eq`: only the order of the deltas of one column matters.
-/
import Tantylla.Lib.ListSet
import Tantylla.Lib.Run
import Tantylla.Node.Merge

namespace Tantylla

open OrdMap

namespace CollectionDelta

variable (fromStr : String → Option Json)

/-- The elements of a list of the delta. -/
def elements (text : String) : List Json :=
  if text = "" then [] else (fromStrVec fromStr text).getD []

/-- The elements a delta removes. -/
def deleted (delta : CollectionDelta) : List Json := elements fromStr delta.deletedElementsJson

/-- The elements a delta adds. -/
def added (delta : CollectionDelta) : List Json := elements fromStr delta.addedElementsJson

/-- The elements a delta starts from. -/
def base (delta : CollectionDelta) (es : List Json) : List Json :=
  if delta.tombstoned then [] else es

/-- The elements of the column after a delta. -/
def update (delta : CollectionDelta) (es : List Json) : List Json :=
  ListSet.update (delta.base es) (delta.deleted fromStr) (delta.added fromStr)

theorem nodup_update {delta : CollectionDelta} {es : List Json} (h : es.Nodup) :
    (delta.update fromStr es).Nodup := by
  refine ListSet.nodup_update ?_ ..
  unfold base
  split_ifs
  · exact List.nodup_nil
  · exact h

/-- The code's steps (clear, retain, push) are the update. -/
theorem deltaElements_eq (delta : CollectionDelta) (es : List Json) :
    deltaElements fromStr delta es = delta.update fromStr es := by
  have hbase : (if delta.tombstoned then [] else es) = delta.base es := rfl
  unfold deltaElements update ListSet.update deleted added elements
  rw [hbase]
  by_cases hd : delta.deletedElementsJson = "" <;> by_cases ha : delta.addedElementsJson = ""
  · simp [hd, ha]
  · cases fromStrVec fromStr delta.addedElementsJson <;> simp [hd, ha, ListSet.addNew]
  · cases fromStrVec fromStr delta.deletedElementsJson <;> simp [hd, ha]
  · cases fromStrVec fromStr delta.deletedElementsJson <;>
      cases fromStrVec fromStr delta.addedElementsJson <;> simp [hd, ha, ListSet.addNew]

end CollectionDelta

/-- The elements of a column: none if it is absent or not an array. -/
def elementsOf (column : String) (m : List (String × Json)) : List Json :=
  ((find column m).bind Json.asArray).getD []

section
variable (fromStr : String → Option Json)

theorem applyDelta_eq (m : List (String × Json)) (delta : CollectionDelta) :
    applyDelta fromStr m delta =
      put delta.column (.arr (delta.update fromStr (elementsOf delta.column m))) m := by
  have h : (((find delta.column m).getD (.arr [])).asArray).getD [] =
      elementsOf delta.column m := by
    unfold elementsOf
    cases find delta.column m <;> rfl
  simp only [applyDelta, CollectionDelta.deltaElements_eq, h]

/-- **One delta.**  Its column gets the update of its elements. -/
theorem find_applyDelta (m : List (String × Json)) (delta : CollectionDelta) (column : String) :
    find column (applyDelta fromStr m delta) =
      if column = delta.column then some (.arr (delta.update fromStr (elementsOf column m)))
      else find column m := by
  rw [applyDelta_eq, find_put]
  split_ifs with h
  · rw [h]
  · rfl

theorem elementsOf_applyDelta (m : List (String × Json)) (delta : CollectionDelta)
    (column : String) : elementsOf column (applyDelta fromStr m delta) =
      if delta.column = column then delta.update fromStr (elementsOf column m)
      else elementsOf column m := by
  rw [elementsOf, find_applyDelta]
  split_ifs with h h' h'
  · rfl
  · exact absurd h.symm h'
  · exact absurd h'.symm h
  · rfl

/-- The elements of a column after the deltas on it, in their order. -/
def foldUpdates (column : String) (deltas : List CollectionDelta) (es : List Json) : List Json :=
  (deltas.filter fun delta => delta.column = column).foldl
    (fun es delta => delta.update fromStr es) es

theorem foldUpdates_cons (column : String) (delta : CollectionDelta)
    (deltas : List CollectionDelta) (es : List Json) :
    foldUpdates fromStr column (delta :: deltas) es = foldUpdates fromStr column deltas
      (if delta.column = column then delta.update fromStr es else es) := by
  unfold foldUpdates
  by_cases h : delta.column = column <;> simp [h]

theorem nodup_foldUpdates (column : String) (deltas : List CollectionDelta) {es : List Json}
    (h : es.Nodup) : (foldUpdates fromStr column deltas es).Nodup :=
  List.foldlRecOn _ _ h fun _ h _ _ => CollectionDelta.nodup_update fromStr h

/-- **The loop.**  A column that deltas name gets their updates, in order; any other column
    stays. -/
theorem find_foldl_applyDelta (column : String) (deltas : List CollectionDelta)
    (m : List (String × Json)) : find column (deltas.foldl (applyDelta fromStr) m) =
      if ∃ delta ∈ deltas, delta.column = column then
        some (.arr (foldUpdates fromStr column deltas (elementsOf column m)))
      else find column m := by
  induction deltas generalizing m with
  | nil => simp
  | cons delta deltas ih =>
    rw [List.foldl_cons, ih, find_applyDelta, elementsOf_applyDelta, foldUpdates_cons]
    by_cases h : delta.column = column
    · by_cases hd : ∃ d ∈ deltas, d.column = column
      · simp [hd, h]
      · have hnil : deltas.filter (fun d => d.column = column) = [] :=
          List.filter_eq_nil_iff.2 fun d hd' => by simpa using fun hc => hd ⟨d, hd', hc⟩
        simp [hd, h, foldUpdates, hnil]
    · simp [h, Ne.symm h]

theorem get_applyCollectionDeltas_of_ne {deltas : List CollectionDelta} {column : String}
    (h : ∀ d ∈ deltas, d.column ≠ column) (doc : Json) :
    (applyCollectionDeltas fromStr doc deltas).get column = doc.get column := by
  cases doc with
  | obj m => exact (find_foldl_applyDelta ..).trans (if_neg (by simpa using h))
  | _ => rfl

theorem elementsOf_foldl_applyDelta (column : String) (deltas : List CollectionDelta)
    (m : List (String × Json)) : elementsOf column (deltas.foldl (applyDelta fromStr) m) =
      foldUpdates fromStr column deltas (elementsOf column m) := by
  induction deltas generalizing m with
  | nil => rfl
  | cons delta deltas ih =>
    rw [List.foldl_cons, ih, elementsOf_applyDelta, foldUpdates_cons]

theorem applyDelta_comm (m : List (String × Json)) (d e : CollectionDelta)
    (h : d.column ≠ e.column) : applyDelta fromStr (applyDelta fromStr m d) e =
      applyDelta fromStr (applyDelta fromStr m e) d := by
  rw [applyDelta_eq fromStr (applyDelta fromStr m d),
    applyDelta_eq fromStr (applyDelta fromStr m e), elementsOf_applyDelta,
    elementsOf_applyDelta, if_neg h, if_neg h.symm, applyDelta_eq, applyDelta_eq, put_comm h]

/-- **Only the order of the deltas of one column matters.** -/
theorem foldl_applyDelta_eq {ds es : List CollectionDelta}
    (h : ∀ column, ds.filter (fun d => d.column = column) = es.filter fun d => d.column = column)
    (m : List (String × Json)) :
    ds.foldl (applyDelta fromStr) m = es.foldl (applyDelta fromStr) m :=
  Run.exec_eq_of_filter_eq (applyDelta_comm fromStr) h m

/-- **`apply_collection_deltas` is set algebra.**  A column that no delta names stays; any
    other gets the updates of its deltas in order, and has no repetitions if it had none.
    One update keeps the old elements (none after a tombstone) that are not deleted, then
    lists the added elements that are not among them, each at its first appearance; as
    sets, `(S \ D) ∪ A`.  Deltas on different columns commute. -/
theorem applyCollectionDeltas_sets (m : List (String × Json)) (deltas : List CollectionDelta) :
    (∃ m', applyCollectionDeltas fromStr (.obj m) deltas = .obj m' ∧ ∀ column,
      ((∀ d ∈ deltas, d.column ≠ column) → find column m' = find column m) ∧
      ((∃ d ∈ deltas, d.column = column) → find column m' =
        some (.arr (foldUpdates fromStr column deltas (elementsOf column m)))) ∧
      ((elementsOf column m).Nodup → (elementsOf column m').Nodup)) ∧
    (∀ (d : CollectionDelta) (es : List Json),
      d.update fromStr es =
        ((d.base es).filter fun e => e ∉ d.deleted fromStr) ++
          ((d.added fromStr).filter fun e =>
            e ∉ (d.base es).filter fun e => e ∉ d.deleted fromStr).eraseDups ∧
      {e | e ∈ d.update fromStr es} =
        ({e | e ∈ d.base es} \ {e | e ∈ d.deleted fromStr}) ∪ {e | e ∈ d.added fromStr} ∧
      (es.Nodup → (d.update fromStr es).Nodup)) ∧
    (∀ deltas' : List CollectionDelta,
      (∀ column, deltas.filter (fun d => d.column = column) =
        deltas'.filter fun d => d.column = column) →
      applyCollectionDeltas fromStr (.obj m) deltas =
        applyCollectionDeltas fromStr (.obj m) deltas') := by
  refine ⟨⟨_, rfl, fun column => ⟨fun h => ?_, fun h => ?_, fun h => ?_⟩⟩,
    fun d es => ⟨ListSet.update_eq .., ListSet.setOf_update .., d.nodup_update fromStr⟩,
    fun deltas' h => ?_⟩
  · rw [find_foldl_applyDelta, if_neg (by simpa using h)]
  · rw [find_foldl_applyDelta, if_pos h]
  · rw [elementsOf_foldl_applyDelta]
    exact nodup_foldUpdates fromStr column deltas h
  · simp only [applyCollectionDeltas, foldl_applyDelta_eq fromStr h]

/-- Two deltas on one column, one after the other: `a`, then `b` in place of `a`. -/
example :
    let texts := [("[\"a\"]", Json.arr [.str "a"]), ("[\"b\",\"b\"]", .arr [.str "b", .str "b"])]
    applyCollectionDeltas (texts.lookup ·) (.obj [])
      [⟨"tags", false, "[\"a\"]", ""⟩, ⟨"tags", false, "[\"b\",\"b\"]", "[\"a\"]"⟩] =
      .obj [("tags", .arr [.str "b"])] := by decide

end

end Tantylla
