/-
  The facets of the gateway.

  A node counts the facets of its documents; the gateway adds the counts of the nodes
  that answer.  `facets_merged`: the result is what one node would count over the
  documents of all, however these are distributed.
-/
import Tantylla.Gateway.Querier
import Tantylla.Node.Facets

namespace Tantylla

namespace Gateway

variable {G : Crates} {H : HashOrder} {Y : SearchCrates} {clients : List SearchClient}
  {req : SearchRequest}

/-- **A node of the model reports the facets of its documents.** -/
theorem facets_serve {m : Shard} (hlimit : 1 ≤ (nodeReq req).limit)
    (hgroup : req.groupByPartition → 1 ≤ m.count ∧ m.count ≤ 10000) :
    AnswersWith (fun r m => r.facets = Engine.searchFacets Y m req.facetFields) req
      (m.serve Y) (some m) :=
  ⟨_, @Engine.serve_eq Y m (nodeReq req) hlimit hgroup, rfl⟩

/-- **Facets do not depend on sharding.**  Each node that answers reports the facets of its
    documents; then the facets of the response are those that one node would report of the
    documents of all. -/
theorem facets_merged {shards : List (Option Shard)} {whole : Shard}
    (h : List.Forall₂ (AnswersWith (fun r m =>
      r.facets = Engine.searchFacets Y m req.facetFields) req) clients shards)
    (hwhole : whole.docSet.Perm (shards.reduceOption.flatMap Shard.docSet))
    {response : SearchResponse} (hok : scatterGather G H clients req = .ok response) :
    SameFacets response.facets (Engine.searchFacets Y whole req.facetFields) := by
  obtain ⟨-, -, hfacets⟩ := scatterGather_ok hok
  let inners := answers (results clients req)
  let counts (m : Shard) := m.docSet.flatMap (Engine.facetCounts Y req.facetFields)
  -- each response lists the tally of its node's counts
  have hlists : List.Forall₂ (fun es l => Tally.Lists (Tally.tallyAll u64Count .empty es) l)
      (shards.reduceOption.map counts) (inners.map facetEntries) := by
    rw [List.forall₂_map_left_iff, List.forall₂_map_right_iff]
    refine (answers_results h).flip.imp fun m r hr => ?_
    rw [← Engine.countFacets_eq, show facetEntries r = r.facets.map FacetResult.counts from rfl,
      hr, Engine.searchFacets_eq]
    exact lists_facetResults ..
  have hcounts : Tally.tallyAll u64Count .empty (inners.flatMap facetEntries) =
      Engine.countFacets Y req.facetFields whole.docSet := by
    rw [List.flatMap_def, Tally.tallyAll_recount u64Count hlists, ← List.flatMap_def,
      Engine.countFacets_eq]
    refine Tally.tallyAll_perm u64Count ?_
    rw [← List.flatMap_assoc]
    exact (hwhole.flatMap_right _).symm
  rw [hfacets, hcounts, Engine.searchFacets_eq]
  exact sameFacets_facetResults ..

/-- The documents of both sample nodes on one. -/
def wholeShard : Shard where
  ranked := [(scoreTwo, sampleDoc "p:1" "p" "x"), (scoreTwo, sampleDoc "q:1" "q" "x"),
    (scoreOne, sampleDoc "p:2" "p" "y")]
  docSet := [sampleDoc "p:1" "p" "x", sampleDoc "p:2" "p" "y", sampleDoc "q:1" "q" "x"]
  order := keyOrder
  elapsed := 3
  numbers := by decide
  sorted := by decide
  docSet_perm := by decide

/-- The facets of the sample cluster, of which a third node fails. -/
theorem facets_merged_sample :
    ∃ response, scatterGather sampleGateway keyOrder
        [sampleShard.serve sampleSearch, fun _ => .error ⟨14, "down"⟩,
          otherShard.serve sampleSearch] (sampleRequest false) = .ok response ∧
      SameFacets response.facets (Engine.searchFacets sampleSearch wholeShard ["tag"]) := by
  have hgroup (m : Shard) : (sampleRequest false).groupByPartition →
      1 ≤ m.count ∧ m.count ≤ 10000 := nofun
  have hanswers : List.Forall₂ (AnswersWith (fun r m =>
        r.facets = Engine.searchFacets sampleSearch m ["tag"]) (sampleRequest false))
      [sampleShard.serve sampleSearch, fun _ => .error ⟨14, "down"⟩, otherShard.serve sampleSearch]
      [some sampleShard, none, some otherShard] :=
    .cons (facets_serve (by decide) (hgroup _)) (.cons ⟨_, rfl⟩
      (.cons (facets_serve (by decide) (hgroup _)) .nil))
  have hfail := @scatterGather_error_iff sampleGateway keyOrder
    [sampleShard.serve sampleSearch, fun _ => .error ⟨14, "down"⟩, otherShard.serve sampleSearch]
    (sampleRequest false)
  rw [if_neg (by decide)] at hfail
  cases hcall : scatterGather sampleGateway keyOrder _ (sampleRequest false) with
  | error e =>
    have hlen := (answers_results hanswers).length_eq
    rw [hfail.1 ⟨e, hcall⟩] at hlen
    cases hlen
  | ok response => exact ⟨response, rfl, facets_merged hanswers (by decide) hcall⟩

end Gateway

end Tantylla
