/-
  The pages of the gateway.

  Every node is asked for the first `limit + offset` hits of its list.
  `scatter_gather_page`: the page cut from these is the page of the stable sort of the
  nodes' full lists.  `grouped_page`: the page of a grouped search is that of the best
  hits of all partitions, as long as no two nodes share a partition.
-/
import Tantylla.Gateway.Querier
import Tantylla.Node.Search

namespace Tantylla

/-- A node's own list: its hits by score descending, all scores being numbers, and the
    total it reports. -/
structure HitList where
  hits : List SearchHit
  totalHits : ℕ
  sorted : hits.Pairwise ByScore
  numbers : ∀ a ∈ hits, a.score.IsNumber

namespace Gateway

/-- The client answers the request with the first hits of its list, as many as it is asked
    for; or it has no list, and fails. -/
def AnswersFrom (req : SearchRequest) : SearchClient → Option HitList → Prop :=
  AnswersWith (fun r l => r.hits = l.hits.take (nodeReq req).limit ∧ r.totalHits = l.totalHits) req

variable {G : Crates} {H : HashOrder} {clients : List SearchClient} {req : SearchRequest}

theorem limit_nodeReq (h : req.limit + req.offset ≤ u32Max) :
    (nodeReq req).limit = req.limit + req.offset := Nat.mod_eq_of_lt (Nat.lt_succ_of_le h)

variable {Y : SearchCrates}

/-- The list of a node for a request. -/
def hitList (Y : SearchCrates) (m : Shard) (group : Bool) : HitList where
  hits := Engine.listed Y m group
  totalHits := m.count % u64Count
  sorted := (Engine.sorted_hits Y m).sublist (Engine.listed_sublist Y m group)
  numbers a ha := Engine.numbers_hits Y m a ((Engine.listed_sublist Y m group).subset ha)

/-- **A node of the model answers from its list**, under what its collector requires. -/
theorem answersFrom_serve {m : Shard} (hlimit : 1 ≤ (nodeReq req).limit)
    (hgroup : req.groupByPartition → 1 ≤ m.count ∧ m.count ≤ 10000) :
    AnswersFrom req (m.serve Y) (some (hitList Y m req.groupByPartition)) := by
  have hserve := @Engine.serve_eq Y m (nodeReq req) hlimit hgroup
  exact ⟨_, hserve, by rw [nodeReq, List.drop_zero]; rfl, rfl⟩

/-! ## The page -/

theorem map_eq_of_forall₂ {α β γ : Type*} {f : α → γ} {g : β → γ} {l : List α} {m : List β}
    (h : List.Forall₂ (fun a b => f a = g b) l m) : l.map f = m.map g := by
  rw [← List.forall₂_eq_eq_eq, List.forall₂_map_left_iff, List.forall₂_map_right_iff]
  exact h

section
variable {lists : List (Option HitList)}

theorem error_iff_of_lists (h : List.Forall₂ (AnswersFrom req) clients lists) :
    (∃ e, scatterGather G H clients req = .error e) ↔
      if Consistency.ofI32 req.consistency = .all then none ∈ lists
      else lists.reduceOption = [] := by
  rw [scatterGather_error_iff, error_mem_results_iff h, ← List.length_eq_zero_iff,
    (answers_results h).length_eq, List.length_eq_zero_iff]

/-- The hits of the page are cut from the sorted lists of the nodes that answered. -/
theorem hits_of_lists {response : SearchResponse} (hsum : req.limit + req.offset ≤ u32Max)
    (h : List.Forall₂ (AnswersFrom req) clients lists)
    (hok : scatterGather G H clients req = .ok response) :
    response.hits = (((lists.reduceOption.flatMap HitList.hits).insertionSort ByScore).drop
      req.offset).take req.limit := by
  obtain ⟨hhits, -, -⟩ := scatterGather_ok hok
  -- the hits gathered are those lists, cut to what was asked for
  have hcut : (answers (results clients req)).map SearchResponse.hits =
      (lists.reduceOption.map HitList.hits).map (List.take (req.limit + req.offset)) := by
    rw [List.map_map, ← limit_nodeReq hsum]
    exact map_eq_of_forall₂ ((answers_results h).imp fun r l hr => hr.1)
  have hnumbers : ∀ a ∈ ((lists.reduceOption.map HitList.hits).map
      (List.take (req.limit + req.offset))).flatten, a.score.IsNumber := by
    intro a ha
    obtain ⟨cut, hcut, ha⟩ := List.mem_flatten.1 ha
    obtain ⟨hits, hhits, rfl⟩ := List.mem_map.1 hcut
    obtain ⟨l, -, rfl⟩ := List.mem_map.1 hhits
    exact l.numbers a (List.mem_of_mem_take ha)
  have hsorted : ∀ hits ∈ lists.reduceOption.map HitList.hits, hits.Pairwise ByScore := by
    intro hits hmem
    obtain ⟨l, -, rfl⟩ := List.mem_map.1 hmem
    exact l.sorted
  rw [hhits, List.flatMap_def, hcut, sortBy_hitCmp hnumbers, Rank.page_sort_flatten _ _ hsorted,
    ← List.flatMap_def]

theorem totalHits_of_lists {response : SearchResponse}
    (h : List.Forall₂ (AnswersFrom req) clients lists)
    (hok : scatterGather G H clients req = .ok response) :
    response.totalHits = (lists.reduceOption.map HitList.totalHits).sum % u64Count := by
  obtain ⟨-, htotal, -⟩ := scatterGather_ok hok
  rw [htotal, map_eq_of_forall₂ ((answers_results h).imp fun r l hr => hr.2)]

end

/-- **The global page.**  Each node that answers returns the first hits of its list, as many
    as it is asked for.  The call fails exactly if a node fails under `ALL`, or if none
    answers under `ANY`; else it returns the page of the stable sort by score of the full
    lists of the nodes that answered, and the sum of their totals. -/
theorem scatter_gather_page {lists : List (Option HitList)}
    (hsum : req.limit + req.offset ≤ u32Max)
    (h : List.Forall₂ (AnswersFrom req) clients lists) :
    let answering := lists.reduceOption
    let all := answering.flatMap HitList.hits
    let sorted := all.insertionSort ByScore
    let total := (answering.map HitList.totalHits).sum
    Rank.StableSort ByScore all sorted ∧
    ((∃ e, scatterGather G H clients req = .error e) ↔
      if Consistency.ofI32 req.consistency = .all then none ∈ lists else answering = []) ∧
    ∀ response, scatterGather G H clients req = .ok response →
      response.hits = (sorted.drop req.offset).take req.limit ∧
      response.totalHits = total % u64Count ∧ (total ≤ u64Max → response.totalHits = total) := by
  intro answering all sorted total
  refine ⟨Rank.stableSort_insertionSort all, error_iff_of_lists h, fun response hok => ?_⟩
  have htotal := totalHits_of_lists h hok
  refine ⟨hits_of_lists hsum h hok, htotal, fun hle => ?_⟩
  exact htotal.trans (Nat.mod_eq_of_lt (Nat.lt_succ_of_le hle))

/-- A page of the sample cluster, in which a third node fails. -/
theorem scatter_gather_page_sample :
    ∃ response, scatterGather sampleGateway keyOrder
        [sampleShard.serve sampleSearch, fun _ => .error ⟨14, "down"⟩,
          otherShard.serve sampleSearch] (sampleRequest false) = .ok response ∧
      response.hits.map SearchHit.id = ["q:1", "p:2"] ∧ response.totalHits = 3 := by
  have hgroup (m : Shard) : (sampleRequest false).groupByPartition →
      1 ≤ m.count ∧ m.count ≤ 10000 := nofun
  have hanswers : List.Forall₂ (AnswersFrom (sampleRequest false))
      [sampleShard.serve sampleSearch, fun _ => .error ⟨14, "down"⟩, otherShard.serve sampleSearch]
      [some (hitList sampleSearch sampleShard false), none,
        some (hitList sampleSearch otherShard false)] :=
    .cons (answersFrom_serve (by decide) (hgroup _)) (.cons ⟨_, rfl⟩
      (.cons (answersFrom_serve (by decide) (hgroup _)) .nil))
  obtain ⟨-, hfail, hpage⟩ :=
    @scatter_gather_page sampleGateway keyOrder _ (sampleRequest false) _ (by decide) hanswers
  rw [if_neg (by decide)] at hfail
  cases hcall : scatterGather sampleGateway keyOrder _ (sampleRequest false) with
  | error e => exact absurd (hfail.1 ⟨e, hcall⟩) (List.cons_ne_nil _ _)
  | ok response =>
    obtain ⟨hhits, -, htotal⟩ := hpage response hcall
    exact ⟨response, rfl, by rw [hhits]; decide, htotal (by decide)⟩

/-! ## Grouped by partition -/

section
variable {shards : List Shard}

theorem answersFrom_shards (hgroup : req.groupByPartition = true) (hlimit : 1 ≤ req.limit)
    (hsum : req.limit + req.offset ≤ u32Max)
    (hcount : ∀ m ∈ shards, 1 ≤ m.count ∧ m.count ≤ 10000) :
    List.Forall₂ (AnswersFrom req) (shards.map (Shard.serve Y))
      ((shards.map fun m => hitList Y m true).map some) := by
  rw [List.map_map, List.forall₂_map_left_iff, List.forall₂_map_right_iff, List.forall₂_same]
  intro m hm
  have h := @answersFrom_serve req Y m (by rw [limit_nodeReq hsum]; omega) fun _ => hcount m hm
  rwa [hgroup] at h

/-- The sorted lists of the nodes have the first hits of the partitions of all. -/
theorem sort_hitLists (hdisjoint : shards.Pairwise fun m m' => ∀ e ∈ m.ranked, ∀ e' ∈ m'.ranked,
      e.2.partitionKey ≠ e'.2.partitionKey) :
    ((shards.map fun m => hitList Y m true).flatMap HitList.hits).insertionSort ByScore =
      Rank.firstPer SearchHit.partitionKey []
        ((shards.flatMap fun m => m.ranked.map (Engine.searchHit Y)).insertionSort ByScore) := by
  let ls : List (List SearchHit) := shards.map fun m => m.ranked.map (Engine.searchHit Y)
  have hsorted : ∀ l ∈ ls, l.Pairwise ByScore := by
    intro l hl
    obtain ⟨m, -, rfl⟩ := List.mem_map.1 hl
    exact Engine.sorted_hits Y m
  have hkeys : ls.Pairwise fun l l' => ∀ x ∈ l, ∀ y ∈ l', x.partitionKey ≠ y.partitionKey := by
    refine List.pairwise_map.2 (hdisjoint.imp fun {m m'} h x hx y hy => ?_)
    obtain ⟨e, he, rfl⟩ := List.mem_map.1 hx
    obtain ⟨e', he', rfl⟩ := List.mem_map.1 hy
    exact h e he e' he'
  have hfirst := Rank.firstPer_sort_flatten hsorted hkeys
  rw [List.map_map] at hfirst
  rw [List.flatMap_def, List.flatMap_def, List.map_map, ← hfirst]
  rfl

theorem sum_totalHits (hcount : ∀ m ∈ shards, 1 ≤ m.count ∧ m.count ≤ 10000) :
    ((shards.map fun m => hitList Y m true).map HitList.totalHits).sum =
      (shards.flatMap fun m => m.ranked.map (Engine.searchHit Y)).length := by
  rw [List.length_flatMap, List.map_map]
  refine congrArg List.sum (List.map_congr_left fun m hm => ?_)
  have hle := (hcount m hm).2
  show m.count % u64Count = (m.ranked.map (Engine.searchHit Y)).length
  rw [List.length_map]
  exact Nat.mod_eq_of_lt (hle.trans_lt (by decide))

end

/-- **One hit for each partition, of the whole cluster.**  No two nodes share a partition,
    and each has between one and ten thousand matching documents.  The call fails only if
    there are no nodes, under `ANY`; else it returns the page of the list that keeps, of all
    matches by score, the first of each partition.  In that list no partition appears twice,
    and each hit has the best score of its partition; the total is that of all matches. -/
theorem grouped_page {shards : List Shard} (hgroup : req.groupByPartition = true)
    (hlimit : 1 ≤ req.limit) (hsum : req.limit + req.offset ≤ u32Max)
    (hcount : ∀ m ∈ shards, 1 ≤ m.count ∧ m.count ≤ 10000)
    (hdisjoint : shards.Pairwise fun m m' => ∀ e ∈ m.ranked, ∀ e' ∈ m'.ranked,
      e.2.partitionKey ≠ e'.2.partitionKey) :
    let all := shards.flatMap fun m => m.ranked.map (Engine.searchHit Y)
    let best := Rank.firstPer SearchHit.partitionKey [] (all.insertionSort ByScore)
    let call := scatterGather G H (shards.map (Shard.serve Y)) req
    ((∃ e, call = .error e) ↔ shards = [] ∧ Consistency.ofI32 req.consistency ≠ .all) ∧
    (best.map SearchHit.partitionKey).Nodup ∧
    (∀ a ∈ best, a ∈ all ∧ ∀ b ∈ all, b.partitionKey = a.partitionKey → ByScore a b) ∧
    ∀ response, call = .ok response →
      response.hits = (best.drop req.offset).take req.limit ∧
      response.totalHits = all.length % u64Count ∧
      (all.length ≤ u64Max → response.totalHits = all.length) := by
  intro all best call
  have hanswers := @answersFrom_shards req Y shards hgroup hlimit hsum hcount
  have hbest := @sort_hitLists Y shards hdisjoint
  have htotal := @sum_totalHits Y shards hcount
  generalize hlists : (shards.map fun m => hitList Y m true) = lists at hanswers hbest htotal
  have hfail := @error_iff_of_lists G H _ req _ hanswers
  have hanswering := reduceOption_map_some lists
  rw [hanswering] at hfail
  refine ⟨?_, Rank.nodup_map_firstPer _ _ _, ?_, ?_⟩
  · have hnil : lists = [] ↔ shards = [] := by rw [← hlists, List.map_eq_nil_iff]
    have hnone : none ∉ lists.map some := by simp
    rw [hfail, hnil]
    by_cases hc : Consistency.ofI32 req.consistency = .all
    · rw [if_pos hc]
      exact iff_of_false hnone fun h => h.2 hc
    · rw [if_neg hc]
      exact ⟨fun h => ⟨h, hc⟩, fun h => h.1⟩
  · intro a ha
    have hsub := (Rank.firstPer_sublist SearchHit.partitionKey [] _).subset ha
    refine ⟨(List.mem_insertionSort ByScore).1 hsub, fun b hb hkey => ?_⟩
    exact Rank.first_of_mem_firstPer (List.pairwise_insertionSort ByScore all) ha
      ((List.mem_insertionSort ByScore).2 hb) hkey
  · intro response hok
    have hhits := hits_of_lists hsum hanswers hok
    have hmod := totalHits_of_lists hanswers hok
    rw [hanswering, hbest] at hhits
    rw [hanswering, htotal] at hmod
    exact ⟨hhits, hmod, fun hle => hmod.trans (Nat.mod_eq_of_lt (Nat.lt_succ_of_le hle))⟩

/-- The second page of the sample cluster, grouped, has one hit for the other partition. -/
theorem grouped_page_sample :
    ∃ response, scatterGather sampleGateway keyOrder
        ([sampleShard, otherShard].map (Shard.serve sampleSearch)) (sampleRequest true) =
          .ok response ∧
      response.hits.map SearchHit.id = ["q:1"] ∧ response.totalHits = 3 := by
  obtain ⟨hfail, -, -, hpage⟩ := @grouped_page sampleGateway keyOrder (sampleRequest true)
    sampleSearch [sampleShard, otherShard] rfl (by decide) (by decide) (by decide) (by decide)
  cases hcall : scatterGather sampleGateway keyOrder _ (sampleRequest true) with
  | error e => exact absurd (hfail.1 ⟨e, hcall⟩).1 (by decide)
  | ok response =>
    obtain ⟨hhits, -, htotal⟩ := hpage response hcall
    exact ⟨response, rfl, by rw [hhits]; decide, htotal (by decide)⟩

end Gateway

end Tantylla
