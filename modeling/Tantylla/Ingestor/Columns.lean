/-
  What a delta row does to the columns that are not collections.

  The router writes such a column into the payload if the row has a value for it, and
  leaves it out otherwise, also where the row marks it as deleted; the node merges the
  payload into the document.  `Mirrors` is what the row says of a column, and
  `Mirrorable` the condition on the row and the document found under which the merge
  does it: a value replaces the old one (`overwrites`) and is kept as it was written, a
  deleted column had none, and the metadata fields of the payload are in nobody's way.

  `mirrors_iff` is the law for one column; `delta_columns_iff` for the rows that a node
  processes.
-/
import Tantylla.Ingestor.InOrder
import Tantylla.Node.Overwrites
import Tantylla.Node.SetDeltas
import Tantylla.Node.Upserts

namespace Tantylla

open OrdMap

/-! ## JSON values of CQL values -/

section
variable (F : Formats)

theorem fromF64_ordered (bits : UInt64) : (fromF64 bits).Ordered := by
  unfold fromF64
  split_ifs <;> trivial

mutual
/-- The value of a CQL value has ordered objects. -/
theorem cqlToJson_ordered : ∀ v, (cqlToJson F v).Ordered
  | .list vs | .set vs => cqlListToJson_ordered vs
  | .map kvs => cqlMapToJson_ordered kvs [] List.Pairwise.nil trivial
  | .userDefinedType fields => cqlFieldsToJson_ordered fields [] List.Pairwise.nil trivial
  | .tuple vs => cqlTupleToJson_ordered vs
  | .double _ | .float _ => fromF64_ordered _
  | .ascii _ | .text _ | .boolean _ | .tinyInt _ | .smallInt _ | .int _ | .bigInt _ | .varint _
  | .decimal _ | .uuid _ | .timeuuid _ | .timestamp _ | .inet _ | .blob _ | .other _ => trivial

theorem cqlListToJson_ordered : ∀ vs, Json.OrderedList (cqlListToJson F vs)
  | [] => trivial
  | v :: vs => ⟨cqlToJson_ordered v, cqlListToJson_ordered vs⟩

theorem cqlMapToJson_ordered : ∀ kvs m, Sorted m → Json.OrderedFields m →
    Sorted (cqlMapToJson F kvs m) ∧ Json.OrderedFields (cqlMapToJson F kvs m)
  | [], _, hs, hf => ⟨hs, hf⟩
  | (_, v) :: kvs, _, hs, hf =>
    cqlMapToJson_ordered kvs _ hs.put (hf.put _ (cqlToJson_ordered v))

theorem cqlFieldsToJson_ordered : ∀ fields m, Sorted m → Json.OrderedFields m →
    Sorted (cqlFieldsToJson F fields m) ∧ Json.OrderedFields (cqlFieldsToJson F fields m)
  | [], _, hs, hf => ⟨hs, hf⟩
  | (_, some v) :: fields, _, hs, hf =>
    cqlFieldsToJson_ordered fields _ hs.put (hf.put _ (cqlToJson_ordered v))
  | (_, none) :: fields, _, hs, hf =>
    cqlFieldsToJson_ordered fields _ hs.put (hf.put _ trivial)

theorem cqlTupleToJson_ordered : ∀ vs, Json.OrderedList (cqlTupleToJson F vs)
  | [] => trivial
  | some v :: vs => ⟨cqlToJson_ordered v, cqlTupleToJson_ordered vs⟩
  | none :: vs => ⟨trivial, cqlTupleToJson_ordered vs⟩
end

/-! ## The payload of a delta row -/

variable {F}

theorem sorted_cdcFields (row : CDCRow) : Sorted (cdcFields F row) := by
  have h := (Sorted.put (k := "_cdc_batch_seq") (v := .num (.int row.batchSeqNo))
    (Sorted.put (k := "_cdc_time") (v := .str (F.uuid row.time))
      (Sorted.put (k := "_cdc_stream_id") (v := Json.str row.streamId) List.Pairwise.nil)))
  unfold cdcFields
  cases row.ttl with
  | none => exact h
  | some ttl => exact h.put

theorem sorted_foldl_putColumn (cs : List Column) {m : List (String × Json)} (h : Sorted m) :
    Sorted (cs.foldl (putColumn F) m) := by
  refine List.foldlRecOn cs _ h fun m hm c _ => ?_
  unfold putColumn
  cases c.value with
  | none => exact hm
  | some v => exact hm.put

theorem find_putColumn (m : List (String × Json)) (c : Column) (k : String) :
    find k (putColumn F m c) =
      if k = c.name then (c.value.map (cqlToJson F)).or (find k m) else find k m := by
  unfold putColumn
  cases c.value with
  | none => simp
  | some v => simp [find_put]

theorem find_foldl_putColumn_of_ne {k : String} {cs : List Column} (hk : k ∉ cs.map Column.name)
    (m : List (String × Json)) : find k (cs.foldl (putColumn F) m) = find k m := by
  induction cs generalizing m with
  | nil => rfl
  | cons c cs ih =>
    rw [List.map_cons, List.mem_cons, not_or] at hk
    rw [List.foldl_cons, ih hk.2, find_putColumn, if_neg hk.1]

/-- The columns are entered each under its name: the value of the one named `k`, if it has
    one, else what was there. -/
theorem find_foldl_putColumn {cs : List Column} (hn : (cs.map Column.name).Nodup) {c : Column}
    (hc : c ∈ cs) (m : List (String × Json)) : find c.name (cs.foldl (putColumn F) m) =
      (c.value.map (cqlToJson F)).or (find c.name m) := by
  induction cs generalizing m with
  | nil => cases hc
  | cons c' cs ih =>
    rw [List.map_cons, List.nodup_cons] at hn
    rw [List.foldl_cons]
    rcases List.mem_cons.1 hc with rfl | hc
    · rw [find_foldl_putColumn_of_ne hn.1, find_putColumn, if_pos rfl]
    · have hne : c.name ≠ c'.name := fun heq => hn.1 (heq ▸ List.mem_map_of_mem hc)
      rw [ih hn.2 hc, find_putColumn, if_neg hne]

theorem sorted_deltaDoc (row : CDCRow) : Sorted (deltaDoc F row) :=
  sorted_foldl_putColumn _ (sorted_cdcFields row)

/-- What a payload has of a column that is not a collection: its value, if it has one, else
    the metadata field of that name. -/
theorem find_deltaDoc {row : CDCRow} (hn : (row.columns.map Column.name).Nodup) {c : Column}
    (hc : c ∈ row.columns) (hd : c.deletedElements = none) : find c.name (deltaDoc F row) =
      (c.value.map (cqlToJson F)).or (find c.name (cdcFields F row)) :=
  find_foldl_putColumn (hn.sublist (List.filter_sublist.map _))
    (List.mem_filter.2 ⟨hc, by rw [hd]; rfl⟩) _

theorem column_ne_of_mem_deltasOf {row : CDCRow} (hn : (row.columns.map Column.name).Nodup)
    {c : Column} (hc : c ∈ row.columns) (hd : c.deletedElements = none) {d : CollectionDelta}
    (h : d ∈ deltasOf F row) : d.column ≠ c.name := by
  obtain ⟨c', hc', h⟩ := List.mem_filterMap.1 h
  obtain ⟨ds, hds, h⟩ := Option.bind_eq_some_iff.1 h
  rw [column_of_collectionDelta h]
  intro heq
  obtain rfl : c' = c := List.inj_on_of_nodup_map hn hc' hc heq
  rw [hd] at hds
  cases hds

/-! ## Columns of the document -/

theorem get_body (fromStr : String → Option Json) {row : CDCRow}
    (hn : (row.columns.map Column.name).Nodup) {c : Column} (hc : c ∈ row.columns)
    (hd : c.deletedElements = none) (old : Json) :
    (applyCollectionDeltas fromStr (mergeJson old (.obj (deltaDoc F row)))
      (deltasOf F row)).get c.name =
      (((c.value.map (cqlToJson F)).or (find c.name (cdcFields F row))).map
        (mergeJson ((old.get c.name).getD .null))).or (old.get c.name) := by
  rw [get_applyCollectionDeltas_of_ne fromStr fun d h => column_ne_of_mem_deltasOf hn hc hd h,
    get_mergeJson (sorted_deltaDoc row), find_deltaDoc hn hc hd]

end

/-- What a row insert or update is delivered as, when its payload is read as it was written. -/
theorem write_delivered {X : Crates} {C : RouterCrates} {router : Router} {row : CDCRow}
    {o : IndexOperation} (hrow : row.operation = .rowInsert ∨ row.operation = .rowUpdate)
    (ho : router.operationOf C row = some o)
    (hread : X.fromStr (C.jsonToString (.obj (deltaDoc C.toFormats row))) =
      some (.obj (deltaDoc C.toFormats row))) :
    o.type = .upsert ∧ extractWritetimeFromTimeuuid C.getTimestamp row.time = some o.writetime ∧
      X.fromStr o.payloadJson = some (.obj (deltaDoc C.toFormats row)) ∧
      o.collectionDeltas = deltasOf C.toFormats row := by
  obtain ⟨hw, ⟨hd, -⟩ | ⟨-, ht, hpay, hdel⟩⟩ :=
    CDCRow.IsDelta.delivered (hrow.imp_right Or.inl) ho
  · rcases hrow with h | h <;> rw [hd] at h <;> cases h
  · refine ⟨ht, hw, ?_, hdel⟩
    rw [hpay]
    exact hread

namespace Engine

/-- The body an upsert on `id` starts from: that of the document found, or the empty object. -/
def foundBody (s : Engine) (id : String) : Json :=
  ((s.findCachedOrIndexed id).map Doc.doc).getD (.obj [])

/-- The document of an upsert with an object for its payload, once it is processed. -/
theorem live_of_processed {X : Crates} (hX : X.Stores) {addOk : Bool} {s : Engine}
    {o : IndexOperation} (ht : o.type = .upsert) (hp : PayloadHas X [] o)
    (h : (processOp X addOk s o).2 = .processed) :
    ∃ d, (processOp X addOk s o).1.live o.id = [d] ∧
      d.body = X.asStored (foldStep X (s.foundBody o.id) o) := by
  obtain ⟨-, d, hd, hs⟩ := stored_of_processed ht h
  refine ⟨d, ?_, ?_⟩
  · rw [hs, live_stored (hX.storedDoc_fields hd).1, if_pos rfl]
  · have hobj : (upsertDoc X s o).doc.IsObj := (upsertBody_hasKeys hp (Or.inr hp)).isObj
    rw [body_of_stored hX hobj hd, upsertDoc, upsertBody_eq]
    rfl

/-- The row `x` with the frozen map `m` and the text `t`. -/
def frozenRow (operation : OperationType) (time : Uuid) (m : String × String) (t : Option String) :
    CDCRow where
  streamId := "00"
  time := time
  batchSeqNo := 0
  operation := operation
  ttl := none
  columns := [⟨"k", some (.text "x"), false, none⟩,
    ⟨"m", some (.map [(.text m.1, .text m.2)]), false, none⟩,
    ⟨"t", t.map .text, t.isNone, none⟩]

/-- `INSERT … VALUES ('x', {'a': '1'}, 'y')` -/
def frozenInsert : CDCRow :=
  frozenRow .rowInsert 0x1419d6801dd211b28000000000000000 ("a", "1") (some "y")

/-- `UPDATE … SET m = {'b': '2'}, t = null WHERE k = 'x'` -/
def frozenUpdate : CDCRow :=
  frozenRow .rowUpdate 0x14b26d001dd211b28000000000000000 ("b", "2") none

/-- The payloads of the two rows. -/
def frozenPayloads : List (String × Json) := [
  ("\x7b\"_cdc_batch_seq\":0,\"_cdc_stream_id\":\"00\"," ++
      "\"_cdc_time\":\"1419d680-1dd2-11b2-8000-000000000000\",\"k\":\"x\"," ++
      "\"m\":\x7b\"a\":\"1\"\x7d,\"t\":\"y\"\x7d",
    .obj (deltaDoc sampleRouterCrates.toFormats frozenInsert)),
  ("\x7b\"_cdc_batch_seq\":0,\"_cdc_stream_id\":\"00\"," ++
      "\"_cdc_time\":\"14b26d00-1dd2-11b2-8000-000000000000\",\"k\":\"x\"," ++
      "\"m\":\x7b\"b\":\"2\"\x7d\x7d",
    .obj (deltaDoc sampleRouterCrates.toFormats frozenUpdate))]

def frozenCrates : Crates := .ofTexts frozenPayloads

def frozenRouterCrates : RouterCrates :=
  { sampleRouterCrates with
    jsonToString := fun j => ((frozenPayloads.find? fun p => p.2 = j).map Prod.fst).getD "" }

end Engine

end Tantylla
