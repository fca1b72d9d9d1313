/-
  The search of a node (`engine/core.rs`), once its query is built, and the service
  before it (`service/core.rs`).

  A `Shard` is what the index gives a search for the combined query: the matching
  documents as `TopDocs` ranks them and as `DocSetCollector` lists them.  `search` makes
  the response of it: `searchHits` the hits, plain or grouped by partition, and
  `searchFacets` the counts of the facet fields, over all matching documents.  The collector
  takes room for its entries before it looks at a document; a `SearchNode` has only so much.
-/
import Tantylla.Node.Engine
import Tantylla.Search.Order
import Tantylla.Lib.Tally

namespace Tantylla

/-- The functions of other crates that a search calls. -/
structure SearchCrates where
  /-- `serde_json::to_string` of a value -/
  toText : Json → Option String
  /-- the text of a JSON number -/
  numberText : Number → String
  /-- what a caller is told when the handler of a call panics -/
  panicked : Status
  /-- what a caller is told when the process of the node aborts -/
  aborted : Status

/-- What the index gives a search: the documents that match its query, ranked by score
    descending, and the same documents in no particular order; with the order in which the
    search iterates its maps, and the milliseconds it takes. -/
structure Shard where
  ranked : List (F32 × TantivyDoc)
  docSet : List TantivyDoc
  order : HashOrder
  elapsed : ℕ
  numbers : ∀ e ∈ ranked, e.1.IsNumber
  sorted : ranked.Pairwise fun a b => b.1.rank.getD 0 ≤ a.1.rank.getD 0
  docSet_perm : docSet.Perm (ranked.map Prod.snd)

namespace Shard

/-- `TopDocs::with_limit(limit).and_offset(offset)`, of a collector that has found its room
    (`collectorEntries`); it panics on a limit of zero. -/
def topDocs (m : Shard) (limit offset : ℕ) : Option (List (F32 × TantivyDoc)) :=
  if limit = 0 then none else some ((m.ranked.drop offset).take limit)

/-- `Count`. -/
def count (m : Shard) : ℕ := m.ranked.length

/-- The entries that the collector of a search takes room for before it collects: twice the
    number of documents it is to keep. -/
def collectorEntries (m : Shard) (req : SearchRequest) : ℕ :=
  2 * if req.groupByPartition then min m.count 10000 else req.limit + req.offset

end Shard

/-- The body of a stored document, from its JSON. -/
def storedBody (d : TantivyDoc) : Option Json :=
  match d.toJson.get "document" with
  | some (.arr (v :: _)) => some v
  | some other => some other
  | none => none

namespace Engine

variable (Y : SearchCrates)

/-! ## Hits -/

/-- The hit of a ranked document. -/
def searchHit (e : F32 × TantivyDoc) : SearchHit where
  id := e.2.id
  score := e.1
  payloadJson := ((storedBody e.2).bind Y.toText).getD "\x7b\x7d"
  partitionKey := e.2.partitionKey

/-- The hits of a response.  Grouped, the best document of each partition is kept among
    those collected, and the pages are cut from these; `seen` starts empty. -/
def searchHits (m : Shard) (limit offset : ℕ) (groupByPartition : Bool) :
    Option (List SearchHit) :=
  if groupByPartition then do
    let cap := min m.count 10000
    let allScored ← m.topDocs cap 0
    let grouped := Rank.firstPer (fun e => e.2.partitionKey) [] allScored
    some (((grouped.drop offset).take limit).map (searchHit Y))
  else do
    let topDocs ← m.topDocs limit offset
    some (topDocs.map (searchHit Y))

/-! ## Facets -/

/-- The values that a field of a document counts for: a string, a number or a boolean, or
    the strings of an array. -/
def facetValues (docObj : Json) (fieldName : String) : List String :=
  match docObj.get fieldName with
  | some (.str s) => [s]
  | some (.num n) => [Y.numberText n]
  | some (.bool b) => [if b then "true" else "false"]
  | some (.arr arr) => arr.filterMap Json.asStr
  | _ => []

/-- What a document adds to the counts: one for each value of each facet field. -/
def facetCounts (facetFields : List String) (d : TantivyDoc) :
    List (String × List (String × ℕ)) :=
  match storedBody d with
  | some docObj => facetFields.map fun field => (field, (facetValues Y docObj field).map (·, 1))
  | none => []

/-- The loop over the documents. -/
def countFacets (facetFields : List String) (docs : List TantivyDoc) :
    OrdMap String (OrdMap String ℕ) :=
  docs.foldl (fun counts d => Tally.tallyAll u64Count counts (facetCounts Y facetFields d)) .empty

/-- The facets of a response. -/
def searchFacets (m : Shard) (facetFields : List String) : List FacetResult :=
  if facetFields = [] then [] else facetResults m.order (countFacets Y facetFields m.docSet)

/-! ## The response -/

/-- `search`, of the documents that match; no response stands for a panic of a collector. -/
def search (m : Shard) (req : SearchRequest) : Option SearchResponse := do
  let hits ← searchHits Y m req.limit req.offset req.groupByPartition
  some {
    hits := hits
    totalHits := m.count % u64Count
    durationMs := m.elapsed
    facets := searchFacets Y m req.facetFields }

end Engine

/-- `search` of the service. -/
def Shard.serve (Y : SearchCrates) (m : Shard) : SearchClient := fun req =>
  if req.limit = 0 then .error (.invalidArgument "Limit must be strictly greater than 0")
  else match Engine.search Y m req with
    | some response => .ok response
    | none => .error Y.panicked

/-- A node with what its index gives a search, and the number of entries that a collector
    finds room for in its memory. -/
structure SearchNode where
  shard : Shard
  room : ℕ

/-- `search` of the service of a node: a collector that finds no room aborts the process. -/
def SearchNode.serve (Y : SearchCrates) (n : SearchNode) : SearchClient := fun req =>
  if req.limit ≠ 0 ∧ n.room < n.shard.collectorEntries req then .error Y.aborted
  else n.shard.serve Y req

namespace Engine

variable {Y : SearchCrates} {m : Shard} {req : SearchRequest}

/-! ## What a node answers -/

theorem byScore_searchHit {a b : F32 × TantivyDoc} (h : b.1.rank.getD 0 ≤ a.1.rank.getD 0) :
    ByScore (searchHit Y a) (searchHit Y b) := h

/-- The hits of all matching documents, by score descending. -/
theorem sorted_hits (Y : SearchCrates) (m : Shard) :
    (m.ranked.map (searchHit Y)).Pairwise ByScore :=
  List.pairwise_map.2 (m.sorted.imp byScore_searchHit)

theorem numbers_hits (Y : SearchCrates) (m : Shard) :
    ∀ a ∈ m.ranked.map (searchHit Y), a.score.IsNumber := by
  intro a ha
  obtain ⟨e, he, rfl⟩ := List.mem_map.1 ha
  exact m.numbers e he

/-- The hits that a node lists for a request: all of them, or the first of each partition. -/
def listed (Y : SearchCrates) (m : Shard) (groupByPartition : Bool) : List SearchHit :=
  let hits := m.ranked.map (searchHit Y)
  if groupByPartition then Rank.firstPer SearchHit.partitionKey [] hits else hits

theorem listed_sublist (Y : SearchCrates) (m : Shard) (group : Bool) :
    (listed Y m group).Sublist (m.ranked.map (searchHit Y)) := by
  cases group with
  | false => exact List.Sublist.refl _
  | true => exact Rank.firstPer_sublist ..

/-- **A node answers with the page of its list**, if the limit is positive and, where it
    groups, it has between one and ten thousand matching documents. -/
theorem serve_eq (hlimit : 1 ≤ req.limit)
    (hgroup : req.groupByPartition → 1 ≤ m.count ∧ m.count ≤ 10000) :
    m.serve Y req = .ok {
      hits := ((listed Y m req.groupByPartition).drop req.offset).take req.limit
      totalHits := m.count % u64Count
      durationMs := m.elapsed
      facets := searchFacets Y m req.facetFields } := by
  have hl : req.limit ≠ 0 := by omega
  have hhits : searchHits Y m req.limit req.offset req.groupByPartition =
      some (((listed Y m req.groupByPartition).drop req.offset).take req.limit) := by
    unfold searchHits listed
    cases hg : req.groupByPartition with
    | false =>
      have htop : m.topDocs req.limit req.offset =
          some ((m.ranked.drop req.offset).take req.limit) := if_neg hl
      rw [if_neg Bool.false_ne_true, if_neg Bool.false_ne_true, htop, ← List.map_drop,
        ← List.map_take]
      rfl
    | true =>
      -- the cap is the number of documents: all of them are collected
      obtain ⟨hpos, hcap⟩ := hgroup hg
      have htop : m.topDocs (min m.count 10000) 0 = some m.ranked := by
        have hne : m.count ≠ 0 := by omega
        rw [Nat.min_eq_left hcap, Shard.topDocs, if_neg hne, List.drop_zero, Shard.count,
          List.take_length]
      rw [if_pos rfl, if_pos rfl]
      dsimp only
      rw [htop, Rank.firstPer_map, ← List.map_drop, ← List.map_take]
      rfl
  simp only [Shard.serve, if_neg hl, search, hhits]
  rfl

end Engine

/-! ## Sample nodes -/

/-- Values are shown as empty objects. -/
def sampleSearch : SearchCrates where
  toText _ := some "\x7b\x7d"
  numberText n := match n with
    | .int n => toString n
    | .float _ => "NaN"
  panicked := ⟨13, "panicked"⟩
  aborted := ⟨14, "aborted"⟩

/-- Maps are iterated in the order of their keys. -/
def keyOrder : HashOrder where
  fields l := l
  buckets _ l := l
  fields_perm _ := .refl _
  buckets_perm _ _ := .refl _

/-- A document of the partition `pk` whose body has the tag `tag`. -/
def sampleDoc (id pk tag : String) : TantivyDoc where
  id := id
  partitionKey := pk
  expiresAt := i64Max
  document := [.obj [("tag", .str tag)]]
  writetime := 1
  expiresAt_fits := by decide
  writetime_fits := by decide

/-- The scores one and two. -/
def scoreOne : F32 := ⟨0x3f800000⟩
def scoreTwo : F32 := ⟨0x40000000⟩

/-- A node that found two documents of one partition. -/
def sampleShard : Shard where
  ranked := [(scoreTwo, sampleDoc "p:1" "p" "x"), (scoreOne, sampleDoc "p:2" "p" "y")]
  docSet := [sampleDoc "p:1" "p" "x", sampleDoc "p:2" "p" "y"]
  order := keyOrder
  elapsed := 1
  numbers := by decide
  sorted := by decide
  docSet_perm := .refl _

/-- A node that found one document, with a score equal to one of the other node's. -/
def otherShard : Shard where
  ranked := [(scoreTwo, sampleDoc "q:1" "q" "x")]
  docSet := [sampleDoc "q:1" "q" "x"]
  order := keyOrder
  elapsed := 2
  numbers := by decide
  sorted := by decide
  docSet_perm := .refl _

/-- The two nodes, with room for a hundred entries each. -/
def sampleNodes : List SearchNode := [⟨sampleShard, 100⟩, ⟨otherShard, 100⟩]

end Tantylla
