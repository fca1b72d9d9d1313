/-
  The messages of a search (`service.proto`), between the gateway and the nodes.

  A score is an `f32`, given by its bits; `F32.partialCmp` is its comparison, which
  has no answer for what is not a number.  Statuses carry the number of their code.
-/
import Tantylla.Json
import Mathlib.Data.List.Sort

namespace Tantylla

/-- `u32::MAX` -/
abbrev u32Max : ℕ := 4294967295

/-- The number of values of a `u64`. -/
abbrev u64Count : ℕ := u64Max + 1

/-- A single-precision float. -/
structure F32 where
  bits : UInt32
  deriving DecidableEq

namespace F32

/-- The place of a float in the order of the numbers: its magnitude under its sign, and none
    for what is not a number.  The two zeros share theirs. -/
def rank (x : F32) : Option ℤ :=
  let magnitude : ℕ := x.bits.toNat % 2 ^ 31
  if 0x7f800000 < magnitude then none
  else some (if x.bits.toNat < 2 ^ 31 then (magnitude : ℤ) else -magnitude)

/-- `f32::partial_cmp`. -/
def partialCmp (a b : F32) : Option Ordering :=
  match a.rank, b.rank with
  | some x, some y => some (compare x y)
  | _, _ => none

/-- The float is a number. -/
def IsNumber (x : F32) : Prop := x.rank.isSome

instance : DecidablePred IsNumber := fun x => inferInstanceAs (Decidable (x.rank.isSome = true))

end F32

/-- `SearchRequest.Consistency`. -/
inductive Consistency where
  | unspecified
  | any
  | all
  deriving DecidableEq

/-- `Consistency::try_from(n).unwrap_or_default()`. -/
def Consistency.ofI32 (n : ℤ) : Consistency :=
  if n = 1 then .any else if n = 2 then .all else .unspecified

/-- A field and its weight in the expansion of a query. -/
structure BoostField where
  field : String
  boost : F32
  deriving DecidableEq

/-- `limit` and `offset` are `u32`s. -/
structure SearchRequest where
  query : String
  limit : ℕ
  offset : ℕ
  consistency : ℤ
  defaultFields : List String
  facetFields : List String
  boostFields : List BoostField
  groupByPartition : Bool
  limit_fits : limit ≤ u32Max
  offset_fits : offset ≤ u32Max
  deriving DecidableEq

/-- One value of a field and the number of documents that have it, a `u64`. -/
structure FacetBucket where
  value : String
  count : ℕ
  deriving DecidableEq

structure FacetResult where
  field : String
  buckets : List FacetBucket
  deriving DecidableEq

structure SearchHit where
  id : String
  score : F32
  payloadJson : String
  partitionKey : String
  deriving DecidableEq

/-- `totalHits` and `durationMs` are `u64`s. -/
structure SearchResponse where
  hits : List SearchHit
  totalHits : ℕ
  durationMs : ℕ
  facets : List FacetResult
  deriving DecidableEq

/-- The error a call returns: the number of its code, and its message. -/
structure Status where
  code : ℕ
  message : String
  deriving DecidableEq

/-- `Status::invalid_argument`. -/
def Status.invalidArgument (message : String) : Status := ⟨3, message⟩

/-- A search service, as its callers see it. -/
abbrev SearchClient := SearchRequest → Except Status SearchResponse

/-! ## Sorting -/

/-- `sort_by`, which is stable. -/
def sortBy {α : Type*} (cmp : α → α → Ordering) (l : List α) : List α :=
  l.insertionSort fun a b => cmp a b ≠ .gt

/-- The order of hits: by score descending. -/
def hitCmp (a b : SearchHit) : Ordering := (b.score.partialCmp a.score).getD .eq

/-- The order of buckets: by count descending. -/
def bucketCmp (a b : FacetBucket) : Ordering := compare b.count a.count

/-- The order in which two hash maps of counters are iterated: the map of the fields, and
    the map of each field's values. -/
structure HashOrder where
  fields : List (String × OrdMap String ℕ) → List (String × OrdMap String ℕ)
  buckets : String → List (String × ℕ) → List (String × ℕ)
  fields_perm : ∀ l, (fields l).Perm l
  buckets_perm : ∀ field l, (buckets field l).Perm l

/-- The counters as facet results: the buckets of each field by count descending. -/
def facetResults (H : HashOrder) (counts : OrdMap String (OrdMap String ℕ)) : List FacetResult :=
  (H.fields counts.entries).map fun (field, buckets) =>
    { field := field
      buckets := sortBy bucketCmp
        ((H.buckets field buckets.entries).map fun (value, count) => ⟨value, count⟩) }

end Tantylla
