/-
  CDC rows, and the serializers of `router/utils.rs`.

  A row has the non-CDC columns of the log table in order; a non-frozen collection
  carries its deleted elements beside its value.  `serializeCdcRow` makes the payload
  and the collection deltas of a delta row, `serializePostimageToJson` the payload of a
  post-image, and `extractWritetimeFromTimeuuid` the writetime of both.
-/
import Tantylla.Ingestor.Cql
import Tantylla.Proto

namespace Tantylla

open OrdMap

/-- `scylla_cdc::consumer::OperationType`. -/
inductive OperationType where
  | preImage
  | rowUpdate
  | rowInsert
  | rowDelete
  | partitionDelete
  | rowRangeDelInclLeft
  | rowRangeDelExclLeft
  | rowRangeDelInclRight
  | rowRangeDelExclRight
  | postImage
  deriving DecidableEq

/-- A non-CDC column of a row. -/
structure Column where
  name : String
  /-- `get_value` -/
  value : Option CqlValue
  /-- `is_value_deleted` -/
  valueDeleted : Bool
  /-- `get_deleted_elements`; the column is a non-frozen collection (`collection_exists`)
      if it has any list of them -/
  deletedElements : Option (List CqlValue)

/-- `scylla_cdc::consumer::CDCRow`: what the ingestor reads of it. -/
structure CDCRow where
  streamId : String
  time : Uuid
  batchSeqNo : ℤ
  operation : OperationType
  ttl : Option ℤ
  columns : List Column

/-- `get_value` of a column by its name. -/
def CDCRow.getValue (row : CDCRow) (name : String) : Option CqlValue :=
  (row.columns.find? fun c => c.name = name).bind Column.value

/-- The time a UUID carries, since the Unix epoch.  The crate's timestamps have 60 bits of
    100 ns or 48 bits of milliseconds, far below the bound. -/
structure UnixTime where
  secs : ℕ
  nanos : ℕ
  secs_lt : secs < 2 ^ 43
  nanos_lt : nanos < 1000000000
  deriving DecidableEq

/-- `extract_writetime_from_timeuuid`: the microseconds, truncated.  `getTimestamp` reads
    the time of a UUID, if it carries one. -/
def extractWritetimeFromTimeuuid (getTimestamp : Uuid → Option UnixTime) (time : Uuid) :
    Option ℕ :=
  (getTimestamp time).map fun ts => ts.secs * 1000000 + ts.nanos / 1000

/-- A writetime that was extracted fits `i64`. -/
theorem extractWritetimeFromTimeuuid_le {getTimestamp : Uuid → Option UnixTime} {time : Uuid}
    {w : ℕ} (h : extractWritetimeFromTimeuuid getTimestamp time = some w) : (w : ℤ) ≤ i64Max := by
  obtain ⟨ts, -, rfl⟩ := Option.map_eq_some_iff.1 h
  have hs := ts.secs_lt
  have hn := ts.nanos_lt
  unfold i64Max
  omega

section
variable (F : Formats)

/-- The CDC metadata fields of a payload. -/
def cdcFields (row : CDCRow) : List (String × Json) :=
  let doc := put "_cdc_stream_id" (.str row.streamId) []
  let doc := put "_cdc_time" (.str (F.uuid row.time)) doc
  let doc := put "_cdc_batch_seq" (.num (.int row.batchSeqNo)) doc
  match row.ttl with
  | some ttl => put "_cdc_ttl" (.num (.int ttl)) doc
  | none => doc

/-- Enter the value of a column, if it has one. -/
def putColumn (doc : List (String × Json)) (c : Column) : List (String × Json) :=
  match c.value with
  | some v => put c.name (cqlToJson F v) doc
  | none => doc

/-- The delta of a collection column, if the row changes it. -/
def collectionDelta (c : Column) (deletedElements : List CqlValue) : Option CollectionDelta :=
  let tombstoned := c.valueDeleted
  let addedElementsJson := match c.value with
    | some v => F.jsonToString (cqlToJson F v)
    | none => ""
  let deletedElementsJson :=
    if deletedElements.isEmpty then ""
    else F.jsonToString (.arr (cqlListToJson F deletedElements))
  if tombstoned || addedElementsJson ≠ "" || deletedElementsJson ≠ "" then
    some { column := c.name, tombstoned, addedElementsJson, deletedElementsJson }
  else none

variable {F} in
theorem column_of_collectionDelta {c : Column} {deletedElements : List CqlValue}
    {d : CollectionDelta} (h : collectionDelta F c deletedElements = some d) :
    d.column = c.name := by
  simp only [collectionDelta, Option.ite_none_right_eq_some, Option.some.injEq] at h
  rw [← h.2]

/-- `SerializedRow` -/
structure SerializedRow where
  payloadJson : String
  collectionDeltas : List CollectionDelta

/-- The document of a delta row: the metadata fields, then the columns that are not
    collections. -/
def deltaDoc (row : CDCRow) : List (String × Json) :=
  (row.columns.filter fun c => c.deletedElements.isNone).foldl (putColumn F) (cdcFields F row)

/-- The collection deltas of a delta row. -/
def deltasOf (row : CDCRow) : List CollectionDelta :=
  row.columns.filterMap fun c => c.deletedElements.bind (collectionDelta F c)

/-- `serialize_cdc_row`. -/
def serializeCdcRow (row : CDCRow) : SerializedRow where
  payloadJson := F.jsonToString (.obj (deltaDoc F row))
  collectionDeltas := deltasOf F row

/-- `serialize_postimage_to_json`: every column that has a value, collections included. -/
def serializePostimageToJson (row : CDCRow) : String :=
  F.jsonToString (.obj (row.columns.foldl (putColumn F) (cdcFields F row)))

end

end Tantylla
