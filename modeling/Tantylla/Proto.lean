/-
  The messages between the ingestor and a search node (`service.proto`).
-/
import Mathlib.Data.Nat.Notation
import Mathlib.Data.Int.Notation

namespace Tantylla

/-- `IndexOperation.OpType`. -/
inductive OpType where
  | unspecified
  | upsert
  | delete
  | partitionDelete
  deriving DecidableEq

/-- The number of an operation type on the wire. -/
def OpType.toI32 : OpType → ℤ
  | .unspecified => 0
  | .upsert => 1
  | .delete => 2
  | .partitionDelete => 3

/-- `OpType::try_from(n).unwrap_or(OpType::Unspecified)`. -/
def OpType.ofI32 (n : ℤ) : OpType :=
  if n = 1 then .upsert else if n = 2 then .delete else if n = 3 then .partitionDelete
  else .unspecified

@[simp] theorem OpType.ofI32_toI32 (t : OpType) : OpType.ofI32 t.toI32 = t := by
  cases t <;> rfl

/-- A change to one non-frozen collection column.  The element lists are JSON texts;
    the empty text stands for no elements. -/
structure CollectionDelta where
  column : String
  tombstoned : Bool
  addedElementsJson : String
  deletedElementsJson : String
  deriving DecidableEq

/-- One operation of a batch.  `writetime` is a `u64` in microseconds, `cdcTtl` an
    `i64` in seconds. -/
structure IndexOperation where
  id : String
  opType : ℤ
  writetime : ℕ
  cdcTtl : Option ℤ
  payloadJson : String
  collectionDeltas : List CollectionDelta
  partitionKey : Option String
  deriving DecidableEq

namespace IndexOperation

/-- The type the node reads from the number on the wire. -/
def type (o : IndexOperation) : OpType := .ofI32 o.opType

/-- The partition key of the operation, or its id where the ingestor omits it. -/
def partition (o : IndexOperation) : String := o.partitionKey.getD o.id

end IndexOperation

/-- The node's answer to a batch. -/
structure IndexBatchResponse where
  processedCount : ℕ
  skippedCount : ℕ
  success : Bool
  deriving DecidableEq

end Tantylla
