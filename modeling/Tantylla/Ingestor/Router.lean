/-
  The router (`router/core.rs`, `router/common.rs`): what to do with a row, and the
  batch item a row is forwarded as.

  `routeItem` is the part of `route_forward` that makes the item; it fails where the
  row's time carries no timestamp.  Waiting for the batch service is modelled with the
  service.
-/
import Tantylla.Ingestor.Batch
import Tantylla.Ingestor.Row

namespace Tantylla

/-- `RoutingAction` -/
inductive RoutingAction where
  | skip
  | rangeDeleteStart
  | rangeDeleteEnd
  | forward (opType : OpType)
  deriving DecidableEq

/-- `RoutingAction::determine`. -/
def RoutingAction.determine : OperationType → RoutingAction
  | .preImage => .skip
  | .rowRangeDelInclLeft | .rowRangeDelExclLeft => .rangeDeleteStart
  | .rowRangeDelInclRight | .rowRangeDelExclRight => .rangeDeleteEnd
  | .rowInsert | .rowUpdate | .postImage => .forward .upsert
  | .rowDelete => .forward .delete
  | .partitionDelete => .forward .partitionDelete

/-- `ClusteringKeyColumn` -/
structure ClusteringKeyColumn where
  name : String
  cqlType : String

/-- `Router`: the addresses of the nodes by their index, and the key columns of the table. -/
structure Router where
  nodeInfo : List String
  partitionKeyColumns : List String
  fullPrimaryKeyColumns : List String
  clusteringKeyColumns : List ClusteringKeyColumn

/-- What the router calls of other crates; a float is given by its bits. -/
structure RouterCrates extends Formats where
  /-- `CqlValue::to_string` -/
  display : CqlValue → String
  /-- `XxHash64` with seed 0, fed with texts -/
  xxHash64 : List String → ℕ
  /-- `Uuid::get_timestamp`, in Unix time -/
  getTimestamp : Uuid → Option UnixTime
  /-- `str::parse::<f32>` -/
  parseF32 : String → Option UInt32
  /-- `str::parse::<f64>` -/
  parseF64 : String → Option UInt64

namespace Router

variable (C : RouterCrates) (router : Router)

/-- `get_target_node_id`. -/
def getTargetNodeId (row : CDCRow) : ℕ :=
  C.xxHash64 ((router.partitionKeyColumns.filterMap row.getValue).map C.display) %
    router.nodeInfo.length

/-- The values of key columns, joined. -/
def keyOf (columns : List String) (row : CDCRow) : String :=
  ":".intercalate (columns.map fun name =>
    match row.getValue name with
    | some val => cqlValueToKeyString C.toFormats val
    | none => "null")

/-- The payload and the collection deltas of a forwarded row. -/
def payloadOf (row : CDCRow) (opType : OpType) : String × List CollectionDelta :=
  match opType with
  | .upsert =>
    if row.operation = .postImage then (serializePostimageToJson C.toFormats row, [])
    else
      let serialized := serializeCdcRow C.toFormats row
      (serialized.payloadJson, serialized.collectionDeltas)
  | _ => ("", [])

/-- The item that `route_forward` enqueues for a row. -/
def routeItem (row : CDCRow) (opType : OpType) : Option BatchItem := do
  let targetNode ← router.nodeInfo[router.getTargetNodeId C row]?
  let partitionKey := keyOf C router.partitionKeyColumns row
  let id := keyOf C router.fullPrimaryKeyColumns row
  let writetime ← extractWritetimeFromTimeuuid C.getTimestamp row.time
  let payload := payloadOf C row opType
  some {
    targetNode, id, writetime
    opType := opType.toI32
    cdcTtl := row.ttl
    payloadJson := payload.1
    collectionDeltas := payload.2
    partitionKey := some partitionKey }

/-- The item that a row is enqueued as, if it is forwarded. -/
def itemOf (row : CDCRow) : Option BatchItem :=
  match RoutingAction.determine row.operation with
  | .forward opType => router.routeItem C row opType
  | _ => none

/-- The operation that a row is delivered as, if it is forwarded. -/
def operationOf (row : CDCRow) : Option IndexOperation :=
  (router.itemOf C row).map BatchItem.operation

variable {C router}

theorem itemOf_of_forward {row : CDCRow} {opType : OpType}
    (h : RoutingAction.determine row.operation = .forward opType) :
    router.itemOf C row = router.routeItem C row opType := by
  rw [itemOf, h]

theorem forward_of_itemOf {row : CDCRow} {item : BatchItem} (h : router.itemOf C row = some item) :
    ∃ opType, RoutingAction.determine row.operation = .forward opType := by
  unfold itemOf at h
  cases hd : RoutingAction.determine row.operation with
  | forward opType => exact ⟨opType, rfl⟩
  | skip | rangeDeleteStart | rangeDeleteEnd => rw [hd] at h; cases h

/-- What the item of a row has of it. -/
structure IsItemOf (C : RouterCrates) (router : Router) (row : CDCRow) (opType : OpType)
    (item : BatchItem) : Prop where
  node : router.nodeInfo[router.getTargetNodeId C row]? = some item.targetNode
  id : item.id = keyOf C router.fullPrimaryKeyColumns row
  partition : item.partitionKey = some (keyOf C router.partitionKeyColumns row)
  type : item.operation.type = opType
  writetime : extractWritetimeFromTimeuuid C.getTimestamp row.time = some item.writetime
  payload : (item.payloadJson, item.collectionDeltas) = payloadOf C row opType

theorem isItemOf_of_routeItem {row : CDCRow} {opType : OpType} {item : BatchItem}
    (h : router.routeItem C row opType = some item) : IsItemOf C router row opType item := by
  simp only [routeItem, Option.bind_eq_bind, Option.bind_eq_some_iff, Option.some.injEq] at h
  obtain ⟨node, hnode, writetime, hwritetime, rfl⟩ := h
  exact ⟨hnode, rfl, rfl, OpType.ofI32_toI32 opType, hwritetime, rfl⟩

/-- What a forwarded row is delivered as. -/
theorem operation_of_forward {row : CDCRow} {opType : OpType} {o : IndexOperation}
    (hf : RoutingAction.determine row.operation = .forward opType)
    (h : router.operationOf C row = some o) :
    o.type = opType ∧ extractWritetimeFromTimeuuid C.getTimestamp row.time = some o.writetime ∧
      (o.payloadJson, o.collectionDeltas) = payloadOf C row opType := by
  rw [operationOf, itemOf_of_forward hf] at h
  obtain ⟨item, hitem, rfl⟩ := Option.map_eq_some_iff.1 h
  have hof := isItemOf_of_routeItem hitem
  exact ⟨hof.type, hof.writetime, hof.payload⟩

end Router

/-! ## Sample rows -/

/-- Two times, one and two seconds after the Unix epoch. -/
def sampleTimes : List (Uuid × String × UnixTime) :=
  [(0x1419d6801dd211b28000000000000000, "1419d680-1dd2-11b2-8000-000000000000",
      ⟨1, 0, by decide, by decide⟩),
    (0x14b26d001dd211b28000000000000000, "14b26d00-1dd2-11b2-8000-000000000000",
      ⟨2, 0, by decide, by decide⟩)]

/-- The payloads of three rows. -/
def samplePayloads : List (String × Json) := [
  ("\x7b\"_cdc_batch_seq\":0,\"_cdc_stream_id\":\"00\"," ++
      "\"_cdc_time\":\"1419d680-1dd2-11b2-8000-000000000000\",\"a\":1,\"k\":\"x\"\x7d",
    .obj [("_cdc_batch_seq", .num (.int 0)), ("_cdc_stream_id", .str "00"),
      ("_cdc_time", .str "1419d680-1dd2-11b2-8000-000000000000"), ("a", .num (.int 1)),
      ("k", .str "x")]),
  ("\x7b\"_cdc_batch_seq\":0,\"_cdc_stream_id\":\"00\"," ++
      "\"_cdc_time\":\"14b26d00-1dd2-11b2-8000-000000000000\",\"a\":2,\"k\":\"x\"\x7d",
    .obj [("_cdc_batch_seq", .num (.int 0)), ("_cdc_stream_id", .str "00"),
      ("_cdc_time", .str "14b26d00-1dd2-11b2-8000-000000000000"), ("a", .num (.int 2)),
      ("k", .str "x")]),
  ("\x7b\"_cdc_batch_seq\":1,\"_cdc_stream_id\":\"00\"," ++
      "\"_cdc_time\":\"1419d680-1dd2-11b2-8000-000000000000\",\"a\":2,\"k\":\"x\"\x7d",
    .obj [("_cdc_batch_seq", .num (.int 1)), ("_cdc_stream_id", .str "00"),
      ("_cdc_time", .str "1419d680-1dd2-11b2-8000-000000000000"), ("a", .num (.int 2)),
      ("k", .str "x")])]

/-- The sample rows, their keys, times and payloads are written and hashed as the crates do;
    the other texts do not matter here. -/
def sampleRouterCrates : RouterCrates where
  uuid u := ((sampleTimes.lookup u).map Prod.fst).getD ""
  inet _ := ""
  decimal _ := ""
  base64 _ := ""
  f32 _ := ""
  f64 _ := ""
  f32ToF64 _ := 0
  debug _ := ""
  jsonToString j := ((samplePayloads.find? fun p => p.2 = j).map Prod.fst).getD ""
  display _ := "'x'"
  xxHash64 _ := 3832835966370555310
  getTimestamp u := (sampleTimes.lookup u).map Prod.snd
  parseF32 _ := none
  parseF64 _ := none

def sampleRouter : Router where
  nodeInfo := ["node"]
  partitionKeyColumns := ["k"]
  fullPrimaryKeyColumns := ["k"]
  clusteringKeyColumns := []

end Tantylla
