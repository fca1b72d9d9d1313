/-
  Range deletes (`router/core.rs`, `router/common.rs`, `router/utils.rs`).

  A range delete is two rows: `extractRangeDeleteStart` keeps what the start bound
  says, and the end bound, with the ids the node lists for the partition, selects
  the documents to delete (`filterDocIdsByCkRange`), one item each (`rangeDeleteItems`).
-/
import Tantylla.Ingestor.Router
import Mathlib.Algebra.Group.Int.Defs

namespace Tantylla

/-! ## Comparing key strings -/

/-- `str::parse::<i64>`: a sign or none, and digits. -/
def parseI64 (s : String) : Option ℤ :=
  let digits (negative : Bool) (cs : List Char) : Option ℤ :=
    if cs = [] ∨ ¬ cs.all Char.isDigit then none
    else
      let n : ℤ := cs.foldl (fun n c => 10 * n + (c.toNat - '0'.toNat : ℕ)) 0
      let v := if negative then -n else n
      if i64Min ≤ v ∧ v ≤ i64Max then some v else none
  match s.toList with
  | '-' :: cs => digits true cs
  | '+' :: cs => digits false cs
  | cs => digits false cs

/-- The number by which `total_cmp` orders a float of `w` bits. -/
def totalOrder (w bits : ℕ) : ℤ :=
  if bits < 2 ^ (w - 1) then bits else 2 ^ (w - 1) - 1 - bits

/-- `compare_cql_values`: by the type's order if both strings parse, else as strings.
    Lowering ASCII letters is enough to recognise the types named here. -/
def compareCqlValues (C : RouterCrates) (a b cqlType : String) : Ordering :=
  let ints := match parseI64 a, parseI64 b with
    | some va, some vb => compare va vb
    | _, _ => compare a b
  match cqlType.toLower with
  | "int" | "varint" | "smallint" | "tinyint" => ints
  | "bigint" | "counter" => ints
  | "float" => match C.parseF32 a, C.parseF32 b with
    | some va, some vb => compare (totalOrder 32 va.toNat) (totalOrder 32 vb.toNat)
    | _, _ => compare a b
  | "double" => match C.parseF64 a, C.parseF64 b with
    | some va, some vb => compare (totalOrder 64 va.toNat) (totalOrder 64 vb.toNat)
    | _, _ => compare a b
  | "timestamp" => ints
  | _ => compare a b

/-! ## Resolving a range delete -/

/-- `PendingRangeStart`; a clustering column without a value is unbounded. -/
structure PendingRangeStart where
  partitionKey : String
  targetNode : String
  ckValues : List (Option String)
  startInclusive : Bool
  writetime : ℕ

namespace Router

variable (C : RouterCrates) (router : Router)

/-- The clustering values of a bound. -/
def ckValuesOf (row : CDCRow) : List (Option String) :=
  router.clusteringKeyColumns.map fun ckCol =>
    (row.getValue ckCol.name).map (cqlValueToKeyString C.toFormats)

/-- `extract_range_delete_start`. -/
def extractRangeDeleteStart (row : CDCRow) : Option PendingRangeStart := do
  let targetNode ← router.nodeInfo[router.getTargetNodeId C row]?
  let writetime ← extractWritetimeFromTimeuuid C.getTimestamp row.time
  some {
    partitionKey := keyOf C router.partitionKeyColumns row
    targetNode
    ckValues := router.ckValuesOf C row
    startInclusive := row.operation = .rowRangeDelInclLeft
    writetime }

/-- A clustering value is within the bounds of its column. -/
def withinBounds (ckCol : ClusteringKeyColumn) (docCkVal : String) (startVal endVal : Option String)
    (startInclusive endInclusive : Bool) : Bool :=
  let afterStart := match startVal with
    | some startVal =>
      let cmp := compareCqlValues C docCkVal startVal ckCol.cqlType
      if startInclusive then cmp ≠ .lt else cmp = .gt
    | none => true
  let beforeEnd := match endVal with
    | some endVal =>
      let cmp := compareCqlValues C docCkVal endVal ckCol.cqlType
      if endInclusive then cmp ≠ .gt else cmp = .lt
    | none => true
  afterStart && beforeEnd

/-- `filter_doc_ids_by_ck_range`. -/
def filterDocIdsByCkRange (docIds : List String) (start : PendingRangeStart)
    (endCkValues : List (Option String)) (endInclusive : Bool) : List String :=
  let pkColCount := router.partitionKeyColumns.length
  let ckColCount := router.clusteringKeyColumns.length
  docIds.filter fun docId =>
    let parts := docId.splitOn ":"
    if parts.length ≠ pkColCount + ckColCount then false
    else
      (router.clusteringKeyColumns.zip ((parts.drop pkColCount).zip
        (start.ckValues.zip endCkValues))).all fun (ckCol, docCkVal, startVal, endVal) =>
          withinBounds C ckCol docCkVal startVal endVal start.startInclusive endInclusive

/-- The items that `commit_range_delete` enqueues, given the ids that the node lists. -/
def rangeDeleteItems (start : PendingRangeStart) (row : CDCRow) (allDocIds : List String) :
    List BatchItem :=
  let endInclusive : Bool := row.operation = .rowRangeDelInclRight
  let matchingIds := router.filterDocIdsByCkRange C allDocIds start (router.ckValuesOf C row)
    endInclusive
  matchingIds.map fun docId => {
    targetNode := start.targetNode
    id := docId
    opType := OpType.delete.toI32
    writetime := start.writetime
    cdcTtl := none
    payloadJson := ""
    collectionDeltas := []
    partitionKey := some start.partitionKey }

end Router

end Tantylla
