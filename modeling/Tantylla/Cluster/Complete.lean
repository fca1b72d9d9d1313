/-
  A search leaves nothing out (`main.rs` of the gateway and of the ingestor).

  Both programs are given the nodes as a list and sort it: the ingestor numbers the nodes it
  routes to, the gateway asks all it has.  `search_complete`: if the two lists are the same
  up to order, no document is out of reach of the gateway, and a search returns all matches
  of the nodes that answer, as long as the limit is no less than what it counts.
-/
import Tantylla.Cluster.Answers
import Mathlib.Algebra.Order.BigOperators.Group.List

namespace Tantylla

open Ingestor Gateway

/-- `nodes.sort()`: the entries of `--search-nodes`, as `main` numbers them. -/
def sortedNodes (searchNodes : List String) : List String := searchNodes.insertionSort (· ≤ ·)

theorem sortedNodes_congr {args args' : List String} (h : args.Perm args') :
    sortedNodes args = sortedNodes args' := by
  have hperm : (sortedNodes args).Perm (sortedNodes args') :=
    (List.perm_insertionSort ..).trans (h.trans (List.perm_insertionSort ..).symm)
  exact hperm.eq_of_pairwise (fun _ _ _ _ => le_antisymm) (List.pairwise_insertionSort ..)
    (List.pairwise_insertionSort ..)

namespace Cluster

variable {M : Ingestor} {X : Crates} {Y : SearchCrates} {es : List ClusterEvent}

/-- The shard that the call finds, if it does not fail. -/
def NodeCall.shard (M : Ingestor) (X : Crates) (es : List ClusterEvent) (c : NodeCall) :
    Option Shard := c.search.toOption.map fun a => a.shard (c.engine M X es)

theorem answersFrom_calls {req : SearchRequest} (hlimit : 1 ≤ (nodeReq req).limit)
    (hplain : req.groupByPartition = false) (calls : List NodeCall) :
    List.Forall₂ (AnswersFrom req) (calls.map (NodeCall.client M X Y es))
      (calls.map fun c => (c.shard M X es).map fun m => hitList Y m false) := by
  rw [List.forall₂_map_left_iff, List.forall₂_map_right_iff, List.forall₂_same]
  intro c _
  unfold NodeCall.shard
  cases hc : c.search with
  | error e => exact ⟨e, by rw [NodeCall.client, hc]⟩
  | ok a =>
    have hclient : c.client M X Y es = (a.shard (c.engine M X es)).serve Y := by
      funext req
      rw [NodeCall.client, hc]
    rw [hclient]
    have hanswers := answersFrom_serve (Y := Y) (m := a.shard (c.engine M X es)) hlimit
      fun h => absurd (hplain.symm.trans h) Bool.false_ne_true
    rw [hplain] at hanswers
    exact hanswers

/-- The documents that the nodes which answer have found. -/
def found (M : Ingestor) (X : Crates) (es : List ClusterEvent) (calls : List NodeCall) : ℕ :=
  ((calls.filterMap (NodeCall.shard M X es)).map Shard.count).sum

theorem reduceOption_calls (calls : List NodeCall) :
    (calls.map fun c => (c.shard M X es).map fun m => hitList Y m false).reduceOption =
      (calls.filterMap (NodeCall.shard M X es)).map fun m => hitList Y m false := by
  rw [List.reduceOption, List.filterMap_map, List.map_filterMap]
  exact List.filterMap_congr fun c _ => rfl

/-- Every document is at a node that the gateway asks. -/
theorem Placed.asked {R : CDCRow → Prop} {s : Cluster} (h : Placed M (OfRow M R) R s)
    {args args' : List String} (hperm : args.Perm args')
    (hnodes : M.router.nodeInfo = sortedNodes args) {n : String} {d : TantivyDoc}
    (hd : (s.nodes n).Stores d) : n ∈ sortedNodes args' := by
  obtain ⟨row, item, -, -, hroute, rfl, -⟩ := h.exists_row hd
  have hnode := (Router.isItemOf_of_routeItem hroute).node
  rw [hnodes, sortedNodes_congr hperm] at hnode
  exact List.mem_of_getElem? hnode

/-- If all that is found fits on the page, the response has the lists of the nodes that
    answer. -/
theorem perm_hits_of_found_le {calls : List NodeCall} {req : SearchRequest} (hlimit : 1 ≤ req.limit)
    (hplain : req.groupByPartition = false) (hoffset : req.offset = 0) {G : Gateway.Crates}
    {H : HashOrder} {response : SearchResponse}
    (hok : scatterGather G H (calls.map (NodeCall.client M X Y es)) req = .ok response)
    (hle : found M X es calls ≤ req.limit) :
    response.totalHits = found M X es calls ∧ response.hits.length = found M X es calls ∧
      response.hits.Perm ((calls.filterMap (NodeCall.shard M X es)).flatMap fun m =>
        (hitList Y m false).hits) := by
  have hsum : req.limit + req.offset ≤ u32Max := by
    rw [hoffset]
    exact req.limit_fits
  have hnode : 1 ≤ (nodeReq req).limit := by
    rw [limit_nodeReq hsum]
    omega
  have hanswers := @answersFrom_calls M X Y es _ hnode hplain calls
  have hhits := hits_of_lists hsum hanswers hok
  have htotal := totalHits_of_lists hanswers hok
  rw [reduceOption_calls, List.flatMap_map] at hhits
  rw [reduceOption_calls, List.map_map] at htotal
  have hlength : ((calls.filterMap (NodeCall.shard M X es)).flatMap fun m =>
      (hitList Y m false).hits).length = found M X es calls := by
    rw [List.length_flatMap, found]
    exact congrArg _ (List.map_congr_left fun m _ => List.length_map ..)
  have hall : response.hits.Perm ((calls.filterMap (NodeCall.shard M X es)).flatMap fun m =>
      (hitList Y m false).hits) := by
    rw [hhits, hoffset, List.drop_zero, List.take_of_length_le]
    · exact List.perm_insertionSort ..
    · rw [List.length_insertionSort, hlength]
      exact hle
  -- the counts are those of the lists, and their sum does not wrap
  have hfits : found M X es calls < u64Count :=
    Nat.lt_of_le_of_lt (hle.trans req.limit_fits) (by decide)
  have hcounts : (calls.filterMap (NodeCall.shard M X es)).map
      (HitList.totalHits ∘ fun m => hitList Y m false) =
        (calls.filterMap (NodeCall.shard M X es)).map Shard.count :=
    List.map_congr_left fun m hm => Nat.mod_eq_of_lt
      (Nat.lt_of_le_of_lt (List.le_sum_of_mem (List.mem_map_of_mem hm)) hfits)
  rw [hcounts] at htotal
  exact ⟨htotal.trans (Nat.mod_eq_of_lt hfits), hall.length_eq.trans hlength, hall⟩

theorem mem_hitList {s : Engine} {a : NodeSearch} {d : TantivyDoc} (hd : d ∈ s.reader)
    (hlive : a.startMicros < d.expiresAt) {score : F32}
    (hscore : a.scorer.score s.reader d = some score) :
    Engine.searchHit Y (score, d) ∈ (hitList Y (a.shard s) false).hits := by
  have hcombined : a.scorer.combined s.reader a.startMicros d = some (score, d) := by
    rw [Scorer.combined, if_pos ((RangeQuery.contains_expiration ..).2 hlive), hscore]
    rfl
  refine List.mem_map_of_mem ?_
  rw [NodeSearch.shard, Scorer.shard, List.mem_insertionSort]
  exact List.mem_filterMap.2 ⟨d, hd, hcombined⟩

/-- **A search leaves nothing out.**  While a cluster runs whose ingestor and gateway were
    given the same nodes in any order, each document that any node stores is at a node that
    the gateway asks.  A search that succeeds, plain and from offset zero, returns as many
    hits as it counts if they are no more than its limit, and among them every document that
    matched, had not expired, and was shown by the reader of a node that answered. -/
theorem search_complete (hX : X.Lawful) {args args' : List String} (hperm : args.Perm args')
    (hnodes : M.router.nodeInfo = sortedNodes args)
    (hread : Run.Along (clusterStep M X) (Reads M) clusterStart es) {calls : List NodeCall}
    (hcalls : calls.map NodeCall.node = sortedNodes args') {req : SearchRequest}
    (hlimit : 1 ≤ req.limit) (hplain : req.groupByPartition = false) (hoffset : req.offset = 0)
    {G : Gateway.Crates} {H : HashOrder} {response : SearchResponse}
    (hok : scatterGather G H (calls.map (NodeCall.client M X Y es)) req = .ok response) :
    (∀ k n d, ((Run.exec (clusterStep M X) clusterStart (es.take k)).nodes n).Stores d →
      ∃ c ∈ calls, c.node = n) ∧
    (found M X es calls ≤ req.limit →
      response.totalHits = found M X es calls ∧ response.hits.length = response.totalHits ∧
      ∀ c ∈ calls, ∀ a, c.search = .ok a → ∀ d ∈ (c.engine M X es).reader,
        a.startMicros < d.expiresAt →
        ∀ score, a.scorer.score (c.engine M X es).reader d = some score →
          Engine.searchHit Y (score, d) ∈ response.hits) := by
  refine ⟨fun k n d hd => ?_, fun hle => ?_⟩
  · have hplaced : Placed M (OfRow M fun _ => True) (fun _ => True)
        (Run.exec (clusterStep M X) clusterStart (es.take k)) := by
      refine placed_run hX (hread.take k) fun ev _ => ?_
      unfold RowsOf
      split <;> trivial
    have hn := hplaced.asked hperm hnodes hd
    rw [← hcalls] at hn
    exact List.mem_map.1 hn
  · obtain ⟨htotal, hlength, hall⟩ := perm_hits_of_found_le hlimit hplain hoffset hok hle
    refine ⟨htotal, hlength.trans htotal.symm, fun c hc a ha d hd hlive score hscore => ?_⟩
    have hshard : c.shard M X es = some (a.shard (c.engine M X es)) := by
      rw [NodeCall.shard, ha]
      rfl
    refine hall.mem_iff.2 (List.mem_flatMap.2 ⟨_, List.mem_filterMap.2 ⟨c, hc, hshard⟩, ?_⟩)
    exact mem_hitList hd hlive hscore

/-- The gateway was given the nodes in the other order, and both answer. -/
def completeCalls : List NodeCall :=
  let search : NodeSearch := ⟨Engine.sampleScorer, 10, keyOrder, 1⟩
  [⟨"n0", 17, .ok search⟩, ⟨"n1", 19, .ok search⟩]

theorem search_complete_sample : ∃ response,
    scatterGather sampleGateway keyOrder (completeCalls.map (NodeCall.client placedIngestor
      placedCrates sampleSearch answeredRun)) (Engine.groupedRequest false) = .ok response ∧
      response.hits.length = 2 ∧ response.totalHits = 2 := by
  have hread : Run.Along (clusterStep placedIngestor placedCrates) (Reads placedIngestor)
      clusterStart answeredRun :=
    (Run.along_append _ _ _).2 ⟨placedRun_reads, by decide +kernel⟩
  have hsome : (scatterGather sampleGateway keyOrder (completeCalls.map (NodeCall.client
      placedIngestor placedCrates sampleSearch answeredRun))
        (Engine.groupedRequest false)).toOption.isSome := by
    decide +kernel
  cases hcall : scatterGather sampleGateway keyOrder (completeCalls.map (NodeCall.client
    placedIngestor placedCrates sampleSearch answeredRun)) (Engine.groupedRequest false) with
  | error e => rw [hcall] at hsome; cases hsome
  | ok response =>
    have hfound : found placedIngestor placedCrates answeredRun completeCalls = 2 := by
      decide +kernel
    obtain ⟨-, hall⟩ := @search_complete placedIngestor placedCrates sampleSearch answeredRun
      (Crates.ofTexts_lawful _) ["n0", "n1"] ["n1", "n0"] (.swap ..) (by decide) hread
      completeCalls (by decide) (Engine.groupedRequest false) (by decide) rfl rfl
      sampleGateway keyOrder response hcall
    obtain ⟨htotal, hlength, -⟩ := hall (hfound ▸ by decide)
    exact ⟨response, rfl, hlength.trans (htotal.trans hfound), htotal.trans hfound⟩

end Cluster

end Tantylla
