/-
  Searches of a cluster while it runs (`querier/core.rs`, `engine/core.rs`).

  The gateway asks every node, and each answers from what its reader shows at the moment
  when it is asked, while the rest of the cluster moves on.  No node sees what the others
  answer, so nothing removes the same document from two answers: `search_once` says that
  this is not needed.
-/
import Tantylla.Cluster.Placement
import Tantylla.Gateway.DeepPages

namespace Tantylla

open Ingestor

/-! ## The hits of a node -/

/-- How a node searches: the scores of its documents, its clock, the order of its maps and
    the milliseconds it takes. -/
structure NodeSearch where
  scorer : Scorer
  startMicros : ℤ
  order : HashOrder
  elapsed : ℕ

/-- What the index of the node gives the search. -/
def NodeSearch.shard (a : NodeSearch) (s : Engine) : Shard :=
  a.scorer.shard s.reader a.startMicros a.order a.elapsed

namespace Engine

variable {Y : SearchCrates} {a : NodeSearch} {s : Engine}

/-- The hit is that of a document which the reader shows and which has not expired. -/
def ShowsHit (Y : SearchCrates) (a : NodeSearch) (s : Engine) (h : SearchHit) : Prop :=
  ∃ d ∈ s.reader, a.startMicros < d.expiresAt ∧ ∃ score, h = searchHit Y (score, d)

theorem mem_ranked {e : F32 × TantivyDoc} (h : e ∈ (a.shard s).ranked) :
    e.2 ∈ s.reader ∧ a.startMicros < e.2.expiresAt := by
  rw [NodeSearch.shard, Scorer.shard, List.mem_insertionSort, List.mem_filterMap] at h
  obtain ⟨d, hd, hsome⟩ := h
  obtain ⟨hlive, -⟩ := Scorer.isSome_combined_iff.1 (Option.isSome_of_eq_some hsome)
  unfold Scorer.combined at hsome
  split_ifs at hsome
  obtain ⟨score, -, rfl⟩ := Option.map_eq_some_iff.1 hsome
  exact ⟨hd, hlive⟩

theorem showsHit_of_listed {group : Bool} {h : SearchHit} (hh : h ∈ listed Y (a.shard s) group) :
    ShowsHit Y a s h := by
  obtain ⟨e, he, rfl⟩ := List.mem_map.1 ((listed_sublist Y _ group).subset hh)
  obtain ⟨hd, hlive⟩ := mem_ranked he
  exact ⟨e.2, hd, hlive, e.1, rfl⟩

theorem nodup_ranked (h : (s.reader.map TantivyDoc.id).Nodup) :
    ((a.shard s).ranked.map fun e => e.2.id).Nodup := by
  have hfound (docs l : List TantivyDoc) : ((l.filterMap (a.scorer.combined docs a.startMicros)).map
      fun e => e.2.id).Sublist (l.map TantivyDoc.id) := by
    induction l with
    | nil => exact List.Sublist.slnil
    | cons d l ih =>
      cases hd : a.scorer.combined docs a.startMicros d with
      | none => rw [List.filterMap_cons_none hd]; exact ih.cons _
      | some e =>
        have hdoc : e.2 = d := by
          unfold Scorer.combined at hd
          split_ifs at hd
          obtain ⟨score, -, rfl⟩ := Option.map_eq_some_iff.1 hd
          rfl
        rw [List.filterMap_cons_some hd, List.map_cons, List.map_cons, hdoc]
        exact ih.cons_cons _
  have hperm := (List.perm_insertionSort ScoresAbove
    (s.reader.filterMap (a.scorer.combined s.reader a.startMicros))).map fun e => e.2.id
  exact hperm.nodup_iff.2 (h.sublist (hfound _ _))

theorem nodup_listed (h : (s.reader.map TantivyDoc.id).Nodup) (group : Bool) :
    ((listed Y (a.shard s) group).map SearchHit.id).Nodup := by
  have hids := (listed_sublist Y (a.shard s) group).map SearchHit.id
  rw [List.map_map] at hids
  exact (nodup_ranked (a := a) h).sublist hids

end Engine

/-! ## Asking the nodes -/

namespace Gateway

/-- The hits of a result. -/
def hitsOf (r : Except Status SearchResponse) : List SearchHit :=
  (r.toOption.map SearchResponse.hits).getD []

theorem flatMap_answers (rs : List (Except Status SearchResponse)) :
    (answers rs).flatMap SearchResponse.hits = rs.flatMap hitsOf := by
  unfold answers
  induction rs with
  | nil => rfl
  | cons r rs ih =>
    cases r with
    | ok inner =>
      have hcons : (.ok inner :: rs).filterMap Except.toOption =
          inner :: rs.filterMap Except.toOption := List.filterMap_cons_some rfl
      rw [hcons, List.flatMap_cons, List.flatMap_cons, ih]
      rfl
    | error e =>
      rw [List.filterMap_cons_none rfl, List.flatMap_cons, ih]
      rfl

/-- What is returned is among the hits of the nodes, each as often as there. -/
theorem subperm_hits {G : Crates} {H : HashOrder} {clients : List SearchClient}
    {req : SearchRequest} {response : SearchResponse}
    (h : scatterGather G H clients req = .ok response) :
    response.hits.Subperm (clients.flatMap fun client => hitsOf (client (nodeReq req))) := by
  obtain ⟨hhits, -, -⟩ := scatterGather_ok h
  rw [flatMap_answers, results, List.flatMap_map] at hhits
  rw [hhits]
  exact ((List.take_sublist _ _).trans (List.drop_sublist _ _)).subperm.trans
    (perm_sortBy hitCmp _).subperm

end Gateway

namespace Cluster

open Gateway

/-- A call of the gateway to a node, after the first `moment` events of a run: a search of the
    node, or a failure. -/
structure NodeCall where
  node : String
  moment : ℕ
  search : Except Status NodeSearch

variable {M : Ingestor} {X : Crates} {Y : SearchCrates}

/-- The node when it is asked. -/
def NodeCall.engine (M : Ingestor) (X : Crates) (es : List ClusterEvent) (c : NodeCall) : Engine :=
  (Run.exec (clusterStep M X) clusterStart (es.take c.moment)).nodes c.node

def NodeCall.client (M : Ingestor) (X : Crates) (Y : SearchCrates) (es : List ClusterEvent)
    (c : NodeCall) : SearchClient := fun req =>
  match c.search with
  | .ok a => (a.shard (c.engine M X es)).serve Y req
  | .error e => .error e

variable {es : List ClusterEvent} {c : NodeCall} {req : SearchRequest}

theorem hits_of_client (h : hitsOf (c.client M X Y es req) ≠ []) :
    ∃ a, c.search = .ok a ∧ (hitsOf (c.client M X Y es req)).Sublist
      (Engine.listed Y (a.shard (c.engine M X es)) req.groupByPartition) := by
  cases hc : c.search with
  | error e =>
    have herror : c.client M X Y es req = .error e := by rw [NodeCall.client, hc]
    rw [herror] at h
    exact absurd rfl h
  | ok a =>
    have hclient : c.client M X Y es req = (a.shard (c.engine M X es)).serve Y req := by
      rw [NodeCall.client, hc]
    refine ⟨a, rfl, ?_⟩
    rw [hclient] at h ⊢
    cases hserve : (a.shard (c.engine M X es)).serve Y req with
    | ok response => exact Engine.hits_sublist hserve
    | error e => rw [hserve] at h; exact absurd rfl h

theorem showsHit_of_client {h : SearchHit} (hh : h ∈ hitsOf (c.client M X Y es req)) :
    ∃ a, c.search = .ok a ∧ Engine.ShowsHit Y a (c.engine M X es) h := by
  obtain ⟨a, ha, hsub⟩ := hits_of_client (List.ne_nil_of_mem hh)
  exact ⟨a, ha, Engine.showsHit_of_listed (hsub.subset hh)⟩

/-- One node answers with no document twice, and grouped with no partition twice. -/
theorem nodup_client (hX : X.Lawful) :
    ((hitsOf (c.client M X Y es req)).map SearchHit.id).Nodup ∧
      (req.groupByPartition → ((hitsOf (c.client M X Y es req)).map
        SearchHit.partitionKey).Nodup) := by
  by_cases hnil : hitsOf (c.client M X Y es req) = []
  · rw [hnil]
    exact ⟨List.nodup_nil, fun _ => List.nodup_nil⟩
  obtain ⟨a, -, hsub⟩ := hits_of_client hnil
  have hreader := ((reachable_node (M := M) c.node (es.take c.moment)).distinct hX).reader
  refine ⟨(Engine.nodup_listed hreader _).sublist (hsub.map _), fun hgroup => ?_⟩
  rw [hgroup] at hsub
  exact (Rank.nodup_map_firstPer _ _ _).sublist (hsub.map _)

/-- The hits of several calls have each key once, if those of one call have and two calls
    never have the same key. -/
theorem nodup_map_flatMap {α β κ : Type*} {key : β → κ} {f : α → List β} {l : List α}
    (hone : ∀ a ∈ l, ((f a).map key).Nodup)
    (hapart : l.Pairwise fun a b => ∀ x ∈ f a, ∀ y ∈ f b, key x ≠ key y) :
    ((l.flatMap f).map key).Nodup := by
  rw [List.map_flatMap, List.nodup_flatMap]
  refine ⟨hone, hapart.imp fun {a b} h k hka hkb => ?_⟩
  obtain ⟨x, hx, rfl⟩ := List.mem_map.1 hka
  obtain ⟨y, hy, hxy⟩ := List.mem_map.1 hkb
  exact h x hx y hy hxy.symm

/-- **A search shows a document once.**  While a cluster runs over rows of which those that are
    forwarded as upserts have key values without colons, let the gateway ask each node once, at
    any moment, and let any of the calls fail.  If the search succeeds, then no two of its hits
    have the same id, and grouped no two the same partition; each hit is a document that its
    node's reader showed when it was asked, and that had not expired then. -/
theorem search_once (hX : X.Lawful) {types : String → KeyType}
    (hF : M.crates.toFormats.KeyTexts) (hpk : M.router.partitionKeyColumns ≠ [])
    (hfull : M.router.partitionKeyColumns ⊆ M.router.fullPrimaryKeyColumns)
    (hread : Run.Along (clusterStep M X) (Reads M) clusterStart es)
    (hrows : ∀ ev ∈ es, RowsOf (PlainUpsert M.router types) ev) {calls : List NodeCall}
    (hnodes : (calls.map NodeCall.node).Nodup) {G : Gateway.Crates} {H : HashOrder}
    {response : SearchResponse}
    (hok : scatterGather G H (calls.map (NodeCall.client M X Y es)) req = .ok response) :
    (response.hits.map SearchHit.id).Nodup ∧
      (req.groupByPartition → (response.hits.map SearchHit.partitionKey).Nodup) ∧
      ∀ h ∈ response.hits, ∃ c ∈ calls, ∃ a, c.search = .ok a ∧
        Engine.ShowsHit Y a (c.engine M X es) h := by
  have hsub := subperm_hits hok
  rw [List.flatMap_map] at hsub
  have hplaced (k : ℕ) : Placed M (OfRow M (PlainUpsert M.router types))
      (PlainUpsert M.router types) (Run.exec (clusterStep M X) clusterStart (es.take k)) :=
    placed_run hX (hread.take k) fun ev hev => hrows ev (List.mem_of_mem_take hev)
  -- two documents of one id, or of one partition, are on one node
  have hplace {c c' : NodeCall} {h h' : SearchHit}
      (hh : h ∈ hitsOf (c.client M X Y es (nodeReq req)))
      (hh' : h' ∈ hitsOf (c'.client M X Y es (nodeReq req))) :
      (h.partitionKey = h'.partitionKey → c.node = c'.node) ∧
        (h.id = h'.id → c.node = c'.node) := by
    obtain ⟨a, -, d, hd, -, score, rfl⟩ := showsHit_of_client hh
    obtain ⟨a', -, d', hd', -, score', rfl⟩ := showsHit_of_client hh'
    have hsame := (hplaced c.moment).same_place hF hpk hfull (hplaced c'.moment)
      (Or.inr (Or.inr hd)) (Or.inr (Or.inr hd'))
    exact ⟨hsame.1, fun hid => (hsame.2 hid).1⟩
  have hapart := List.pairwise_map.1 hnodes
  obtain ⟨hits, hperm, hsub⟩ := hsub
  refine ⟨?_, fun hgroup => ?_, fun h hh => ?_⟩
  · refine (hperm.map SearchHit.id).nodup_iff.1 (List.Nodup.sublist (hsub.map _) ?_)
    refine nodup_map_flatMap (fun c _ => (nodup_client hX).1) ?_
    exact hapart.imp fun hne x hx y hy hid => hne ((hplace hx hy).2 hid)
  · refine (hperm.map SearchHit.partitionKey).nodup_iff.1 (List.Nodup.sublist (hsub.map _) ?_)
    refine nodup_map_flatMap (fun c _ => (nodup_client hX).2 hgroup) ?_
    exact hapart.imp fun hne x hx y hy hkey => hne ((hplace hx hy).1 hkey)
  · obtain ⟨c, hc, hmem⟩ := List.mem_flatMap.1 (hsub.subset (hperm.mem_iff.2 hh))
    obtain ⟨a, ha, hshows⟩ := showsHit_of_client hmem
    exact ⟨c, hc, a, ha, hshows⟩

/-- The nodes of the sample cluster commit and reload, the second one after the first has been
    asked. -/
def answeredRun : List ClusterEvent :=
  placedRun ++ [.node "n0" (.commit .ok), .node "n0" .reload, .node "n1" (.commit .ok),
    .node "n1" .reload]

/-- Both nodes are asked, and a third one fails. -/
def sampleCalls : List NodeCall :=
  let search : NodeSearch := ⟨Engine.sampleScorer, 10, keyOrder, 1⟩
  [⟨"n0", 17, .ok search⟩, ⟨"n1", 19, .ok search⟩, ⟨"n2", 19, .error ⟨14, "down"⟩⟩]

theorem search_once_sample : ∃ response,
    scatterGather sampleGateway keyOrder (sampleCalls.map (NodeCall.client placedIngestor
      placedCrates sampleSearch answeredRun)) (Engine.groupedRequest true) = .ok response ∧
      response.hits.map SearchHit.id = ["x", "y"] ∧
      (response.hits.map SearchHit.partitionKey).Nodup := by
  have hids : (scatterGather sampleGateway keyOrder (sampleCalls.map (NodeCall.client
      placedIngestor placedCrates sampleSearch answeredRun))
        (Engine.groupedRequest true)).toOption.map
          (fun response => response.hits.map SearchHit.id) = some ["x", "y"] := by
    decide +kernel
  obtain ⟨response, hok, hhits⟩ := Option.map_eq_some_iff.1 hids
  have hread : Run.Along (clusterStep placedIngestor placedCrates) (Reads placedIngestor)
      clusterStart answeredRun :=
    (Run.along_append _ _ _).2 ⟨placedRun_reads, by decide +kernel⟩
  have hrows : ∀ ev ∈ answeredRun,
      RowsOf (PlainUpsert placedIngestor.router fun _ => .text) ev := by
    refine List.forall_mem_append.2 ⟨placedRun_plain, ?_⟩
    simp [RowsOf]
  cases hcall : scatterGather sampleGateway keyOrder (sampleCalls.map (NodeCall.client
    placedIngestor placedCrates sampleSearch answeredRun)) (Engine.groupedRequest true) with
  | error e => rw [hcall] at hok; cases hok
  | ok r =>
    rw [hcall] at hok
    cases hok
    have honce := @search_once placedIngestor placedCrates sampleSearch answeredRun
      (Engine.groupedRequest true) (Crates.ofTexts_lawful _) (fun _ => .text)
      placedIngestor_keyTexts (by decide) (List.Subset.refl _) hread hrows sampleCalls (by decide)
      sampleGateway keyOrder _ hcall
    exact ⟨_, rfl, hhits, honce.2.1 rfl⟩

end Cluster

end Tantylla
