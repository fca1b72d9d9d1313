/-
  Pages far down the list.

  Every node is asked for the first `limit + offset` hits, in a sum of `u32`s that wraps, and
  its collector takes room for twice as many entries before it collects.  `pagesDeep_iff`:
  with healthy nodes a page is answered, however far down, exactly if the sum fits and every
  node has the room.  `pages_tile`: the pages of a list, one after the other, are the list.
-/
import Tantylla.Gateway.Page
import Tantylla.Node.Matches

namespace Tantylla

/-- The node answers the searches that its service admits and that it has room for. -/
def SearchNode.Healthy (Y : SearchCrates) (n : SearchNode) (group : Bool) : Prop :=
  ∀ req : SearchRequest, req.groupByPartition = group → 1 ≤ req.limit →
    n.shard.collectorEntries req ≤ n.room → ∃ response, n.serve Y req = .ok response

namespace Engine

variable {Y : SearchCrates} {m : Shard} {req : SearchRequest}

/-- A node that answers has the room, and answers from its shard. -/
theorem serve_node_ok_iff {n : SearchNode} {response : SearchResponse} :
    n.serve Y req = .ok response ↔
      n.shard.collectorEntries req ≤ n.room ∧ n.shard.serve Y req = .ok response := by
  unfold SearchNode.serve
  by_cases hlimit : req.limit = 0
  · -- the service rejects it
    have hreject : n.shard.serve Y req ≠ .ok response := by
      unfold Shard.serve
      rw [if_pos hlimit]
      exact nofun
    rw [if_neg fun h => h.1 hlimit]
    exact iff_of_false hreject fun h => hreject h.2
  · split_ifs with hroom
    · refine iff_of_false (fun h => by cases h) fun h => ?_
      exact absurd h.1 (not_le.2 hroom.2)
    · exact (and_iff_right (not_lt.1 fun hlt => hroom ⟨hlimit, hlt⟩)).symm

theorem healthy_of_count {n : SearchNode} {group : Bool} (h : group → n.shard.count ≠ 0) :
    n.Healthy Y group := by
  rintro req rfl hlimit hroom
  have hne : req.limit ≠ 0 := by omega
  obtain ⟨response, hok⟩ :=
    (serve_ok_iff (Y := Y)).2 ⟨hne, (collectorLimit_ne_zero_iff hne).2 h⟩
  exact ⟨response, serve_node_ok_iff.2 ⟨hroom, hok⟩⟩

theorem hits_sublist {response : SearchResponse} (h : m.serve Y req = .ok response) :
    response.hits.Sublist (listed Y m req.groupByPartition) := by
  obtain ⟨hlimit, hpos⟩ := serve_ok_iff.1 ⟨response, h⟩
  obtain ⟨hits, hhits, hserve⟩ := exists_serve (Y := Y) hlimit hpos
  rw [hserve, Except.ok.injEq] at h
  subst h
  have hpage (l : List (F32 × TantivyDoc)) :
      (((l.drop req.offset).take req.limit).map (searchHit Y)).Sublist (l.map (searchHit Y)) :=
    ((List.take_sublist _ _).trans (List.drop_sublist _ _)).map _
  cases hg : req.groupByPartition with
  | false =>
    rw [hg, searchHits, if_neg Bool.false_ne_true, Shard.topDocs, if_neg hlimit] at hhits
    obtain rfl := Option.some.inj hhits
    exact hpage m.ranked
  | true =>
    -- the partitions of the documents collected are partitions of the list
    rw [hg, collectorLimit, if_pos rfl] at hpos
    have htop : m.topDocs (min m.count 10000) 0 =
        some ((m.ranked.drop 0).take (min m.count 10000)) := if_neg hpos
    rw [hg, searchHits, if_pos rfl] at hhits
    dsimp only at hhits
    rw [htop, List.drop_zero] at hhits
    obtain rfl := Option.some.inj hhits
    rw [listed, if_pos rfl, Rank.firstPer_map]
    exact (hpage _).trans ((Rank.firstPer_take_sublist _ _).map _)

theorem length_hits_le {response : SearchResponse} (h : m.serve Y req = .ok response) :
    response.hits.length ≤ (listed Y m req.groupByPartition).length :=
  (hits_sublist h).length_le

end Engine

namespace Gateway

/-- The nodes are asked for exactly `limit + offset` hits and answer, and so does the call,
    with an empty page if the offset is past the end. -/
structure PagesDeep (G : Crates) (H : HashOrder) (Y : SearchCrates) (nodes : List SearchNode)
    (req : SearchRequest) : Prop where
  exact : (nodeReq req).limit = req.limit + req.offset
  accepted : ∀ n ∈ nodes, ∃ response, n.serve Y (nodeReq req) = .ok response
  succeeds : ∃ response, scatterGather G H (nodes.map (SearchNode.serve Y)) req = .ok response ∧
    ((nodes.map fun n => (Engine.listed Y n.shard req.groupByPartition).length).sum ≤
      req.offset → response.hits = [])

variable {G : Crates} {H : HashOrder} {Y : SearchCrates} {nodes : List SearchNode}
  {req : SearchRequest}

theorem answersWith_of_accepted
    (h : ∀ n ∈ nodes, ∃ response, n.serve Y (nodeReq req) = .ok response) :
    List.Forall₂ (AnswersWith (fun r n =>
        r.hits.length ≤ (Engine.listed Y n.shard req.groupByPartition).length) req)
      (nodes.map (SearchNode.serve Y)) (nodes.map some) := by
  rw [List.forall₂_map_left_iff, List.forall₂_map_right_iff, List.forall₂_same]
  intro n hn
  obtain ⟨response, hok⟩ := h n hn
  have hlen := @Engine.length_hits_le Y n.shard (nodeReq req) response
    (Engine.serve_node_ok_iff.1 hok).2
  exact ⟨response, hok, hlen⟩

theorem scatterGather_of_accepted {clients : List SearchClient} (hne : clients ≠ [])
    (h : ∀ client ∈ clients, ∃ response, client (nodeReq req) = .ok response) :
    ∃ response, scatterGather G H clients req = .ok response := by
  cases hcall : scatterGather G H clients req with
  | ok response => exact ⟨response, rfl⟩
  | error e =>
    have herror := (scatterGather_error_iff (G := G) (H := H)).1 ⟨e, hcall⟩
    split_ifs at herror with hall
    · obtain ⟨e, he⟩ := herror
      obtain ⟨client, hclient, heq⟩ := List.mem_map.1 he
      obtain ⟨response, hok⟩ := h client hclient
      rw [hok] at heq
      cases heq
    · obtain ⟨client, hclient⟩ := List.exists_mem_of_ne_nil _ hne
      obtain ⟨response, hok⟩ := h client hclient
      have hmem : response ∈ answers (results clients req) :=
        List.mem_filterMap.2 ⟨.ok response, hok ▸ List.mem_map_of_mem hclient, rfl⟩
      rw [herror] at hmem
      cases hmem

theorem sum_length_le {inners : List SearchResponse} {group : Bool}
    (h : List.Forall₂ (fun r (n : SearchNode) =>
      r.hits.length ≤ (Engine.listed Y n.shard group).length) inners nodes) :
    (inners.flatMap SearchResponse.hits).length ≤
      (nodes.map fun n => (Engine.listed Y n.shard group).length).sum := by
  induction h with
  | nil => exact Nat.zero_le _
  | cons hle _ ih =>
    rw [List.flatMap_cons, List.length_append, List.map_cons, List.sum_cons]
    exact Nat.add_le_add hle ih

/-- **Pages are answered, however far down, exactly if the sum of limit and offset fits** and
    every node has room for the collector of its search. -/
theorem pagesDeep_iff (hne : nodes ≠ []) (hlimit : 1 ≤ req.limit)
    (hhealthy : ∀ n ∈ nodes, n.Healthy Y req.groupByPartition) :
    PagesDeep G H Y nodes req ↔ req.limit + req.offset ≤ u32Max ∧
      ∀ n ∈ nodes, n.shard.collectorEntries req ≤ n.room := by
  -- the collector of a node is that of the first `limit + offset` hits
  have hentries (h : (nodeReq req).limit = req.limit + req.offset) (n : SearchNode) :
      n.shard.collectorEntries (nodeReq req) = n.shard.collectorEntries req := by
    rw [Shard.collectorEntries, h]
    rfl
  constructor
  · intro h
    refine ⟨h.exact ▸ (nodeReq req).limit_fits, fun n hn => ?_⟩
    obtain ⟨response, hok⟩ := h.accepted n hn
    exact hentries h.exact n ▸ (Engine.serve_node_ok_iff.1 hok).1
  · rintro ⟨hsum, hroom⟩
    have hexact := limit_nodeReq hsum
    have haccepted : ∀ n ∈ nodes, ∃ response, n.serve Y (nodeReq req) = .ok response :=
      fun n hn => hhealthy n hn (nodeReq req) rfl (by omega)
        ((hentries hexact n).trans_le (hroom n hn))
    obtain ⟨response, hok⟩ : ∃ response,
        scatterGather G H (nodes.map (SearchNode.serve Y)) req = .ok response :=
      scatterGather_of_accepted (by simpa using hne) (by simpa using haccepted)
    refine ⟨hexact, haccepted, response, hok, fun hend => ?_⟩
    obtain ⟨hhits, -, -⟩ := scatterGather_ok hok
    have hanswers := answers_results (answersWith_of_accepted haccepted)
    rw [reduceOption_map_some] at hanswers
    rw [hhits, List.drop_eq_nil_of_le, List.take_nil]
    rw [(perm_sortBy hitCmp _).length_eq]
    exact (sum_length_le hanswers).trans hend

/-- Healthy sample nodes answer for a page past the end. -/
theorem pagesDeep_sample : PagesDeep sampleGateway keyOrder sampleSearch sampleNodes
    (sampleRequest false) :=
  (pagesDeep_iff (by decide) (by decide) fun _ _ => Engine.healthy_of_count fun h =>
    absurd h Bool.false_ne_true).2 ⟨by decide, by decide⟩

theorem one_le_u32Max : 1 ≤ u32Max := by decide

/-- The hit at the last offset there is. -/
def lastOffsetRequest : SearchRequest :=
  { sampleRequest false with
    limit := 1
    offset := u32Max
    limit_fits := one_le_u32Max
    offset_fits := le_rfl }

/-- The sum wraps to zero, which every node rejects: the call fails. -/
theorem last_offset_fails :
    let node : SearchNode := ⟨sampleShard, 100⟩
    (nodeReq lastOffsetRequest).limit = 0 ∧
      node.serve sampleSearch (nodeReq lastOffsetRequest) =
        .error (.invalidArgument "Limit must be strictly greater than 0") ∧
      (∃ e, scatterGather sampleGateway keyOrder ([node].map (SearchNode.serve sampleSearch))
        lastOffsetRequest = .error e) ∧
      ¬ PagesDeep sampleGateway keyOrder sampleSearch [node] lastOffsetRequest := by
  intro node
  have hreject : node.serve sampleSearch (nodeReq lastOffsetRequest) =
      .error (.invalidArgument "Limit must be strictly greater than 0") := by
    decide +kernel
  refine ⟨by decide, hreject, ?_, fun h => ?_⟩
  · rw [scatterGather_error_iff, if_neg (by decide), List.map_singleton, results,
      List.map_singleton, hreject]
    rfl
  · have hexact : 0 = 1 + u32Max := h.exact
    cases hexact

/-! ## Page after page -/

/-- **The pages are the list.**  The pages of `k` hits, asked for one after the other from
    nodes whose lists stay as they are, give the sorted hits of the nodes that answer up to
    the end of the last page: no hit is left out at the border of two pages, and none is on
    both, though each call asks the nodes for more hits than the one before. -/
theorem pages_tile {clients : List SearchClient} {lists : List (Option HitList)} {k n : ℕ}
    (hfits : n * k ≤ u32Max) {pages : ℕ → SearchRequest}
    (hpages : ∀ i < n, (pages i).limit = k ∧ (pages i).offset = i * k)
    (hanswers : ∀ i < n, List.Forall₂ (AnswersFrom (pages i)) clients lists)
    {responses : ℕ → SearchResponse}
    (hok : ∀ i < n, scatterGather G H clients (pages i) = .ok (responses i)) :
    (List.range n).flatMap (fun i => (responses i).hits) =
      ((lists.reduceOption.flatMap HitList.hits).insertionSort ByScore).take (n * k) := by
  induction n with
  | zero => rw [Nat.zero_mul, List.take_zero]; rfl
  | succ n ih =>
    have hle : n * k ≤ (n + 1) * k := Nat.mul_le_mul_right k (Nat.le_succ n)
    have hbefore := ih (hle.trans hfits) (fun i hi => hpages i (Nat.lt_succ_of_lt hi))
      (fun i hi => hanswers i (Nat.lt_succ_of_lt hi)) fun i hi => hok i (Nat.lt_succ_of_lt hi)
    obtain ⟨hlimit, hoffset⟩ := hpages n (Nat.lt_succ_self n)
    have hsum : (pages n).limit + (pages n).offset ≤ u32Max := by
      rw [hlimit, hoffset, Nat.add_comm, ← Nat.succ_mul]
      exact hfits
    have hlast := hits_of_lists hsum (hanswers n (Nat.lt_succ_self n)) (hok n (Nat.lt_succ_self n))
    rw [hlimit, hoffset] at hlast
    rw [List.range_succ, List.flatMap_append, hbefore, List.flatMap_singleton, hlast, Nat.succ_mul,
      List.take_add]

/-- The first pages of one hit, of the two sample nodes. -/
def onePage (i : ℕ) : SearchRequest :=
  { sampleRequest false with
    limit := 1
    offset := min i 3
    limit_fits := one_le_u32Max
    offset_fits := (min_le_right i 3).trans (by decide) }

theorem pages_tile_sample : ∃ responses : ℕ → SearchResponse,
    (∀ i < 3, scatterGather sampleGateway keyOrder
      ([sampleShard, otherShard].map (Shard.serve sampleSearch)) (onePage i) =
        .ok (responses i)) ∧
      ((List.range 3).flatMap fun i => (responses i).hits).map SearchHit.id =
        ["p:1", "q:1", "p:2"] := by
  have hcall (i : ℕ) : ∃ response, scatterGather sampleGateway keyOrder
      ([sampleShard, otherShard].map (Shard.serve sampleSearch)) (onePage i) = .ok response := by
    have hsum : (nodeReq (onePage i)).limit = 1 + min i 3 :=
      limit_nodeReq ((Nat.add_le_add_left (min_le_right i 3) 1).trans (by decide))
    have hserve (m : Shard) : ∃ response, m.serve sampleSearch (nodeReq (onePage i)) =
        .ok response := ⟨_, Engine.serve_eq (by omega) fun h => absurd h Bool.false_ne_true⟩
    exact scatterGather_of_accepted (by simp) (by simp [hserve])
  choose responses hok using hcall
  refine ⟨responses, fun i _ => hok i, ?_⟩
  have hlists (i : ℕ) (hi : i < 3) : List.Forall₂ (AnswersFrom (onePage i))
      ([sampleShard, otherShard].map (Shard.serve sampleSearch))
      [some (hitList sampleSearch sampleShard false),
        some (hitList sampleSearch otherShard false)] := by
    have hsum : (onePage i).limit + (onePage i).offset ≤ u32Max :=
      (Nat.add_le_add_left (min_le_right i 3) 1).trans (by decide)
    have hlimit : 1 ≤ (nodeReq (onePage i)).limit := by
      rw [limit_nodeReq hsum]
      exact Nat.le_add_right 1 _
    exact .cons (answersFrom_serve hlimit fun h => absurd h Bool.false_ne_true)
      (.cons (answersFrom_serve hlimit fun h => absurd h Bool.false_ne_true) .nil)
  have htile := pages_tile (k := 1) (by decide) (fun i hi => ⟨rfl, by
    rw [Nat.mul_one]; exact min_eq_left hi.le⟩) hlists fun i _ => hok i
  rw [htile]
  decide

end Gateway

end Tantylla
