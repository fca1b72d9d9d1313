/-
  Where the documents of a cluster are (`router/core.rs`).

  `get_target_node_id` hashes the values of the partition key, so the rows of a partition
  go to one node, and the node never has to move them.  `stored_from_row`: every document
  that a node stores was written by the upsert of a row that is routed to the node.  If the
  key values of the upserts have texts that tell them apart, documents of one partition or of
  one id are never on two nodes: `one_node`.
-/
import Tantylla.Cluster.Sources
import Tantylla.Ingestor.Ids

namespace Tantylla

open Ingestor

variable {M : Ingestor} {X : Crates}

/-! ## The documents of a node -/

/-- The document was written by an upsert with the property `K`. -/
def TantivyDoc.WrittenBy (K : IndexOperation → Prop) (d : TantivyDoc) : Prop :=
  ∃ o, K o ∧ o.type = .upsert ∧ d.id = o.id ∧ d.partitionKey = o.partition ∧
    d.writetime = o.writetime

namespace Engine

/-- The document is in a layer of the node. -/
def Stores (s : Engine) (d : TantivyDoc) : Prop := d ∈ s.writer ∨ d ∈ s.committed ∨ d ∈ s.reader

variable {K : IndexOperation → Prop} {s : Engine}

/-- **What a node stores was written by the upserts it got.** -/
theorem writtenBy_step (hX : X.Lawful) (h : ∀ d, s.Stores d → d.WrittenBy K) {e : Event}
    (he : ∀ ok o, e = .op ok o → K o) : ∀ d, (step X s e).Stores d → d.WrittenBy K := by
  have hthin {s' : Engine} (hw : s'.writer ⊆ s.writer)
      (hc : ∀ d ∈ s'.committed, s.Stores d) (hr : ∀ d ∈ s'.reader, s.Stores d) :
      ∀ d, s'.Stores d → d.WrittenBy K := by
    rintro d (hd | hd | hd)
    · exact h d (Or.inl (hw hd))
    · exact h d (hc d hd)
    · exact h d (hr d hd)
  have hcom : ∀ d ∈ s.committed, s.Stores d := fun d hd => Or.inr (Or.inl hd)
  have hread : ∀ d ∈ s.reader, s.Stores d := fun d hd => Or.inr (Or.inr hd)
  cases e with
  | op ok o =>
    have hstep := processOp_step X ok s o
    rw [step]
    generalize (processOp X ok s o).1 = s' at hstep
    generalize (processOp X ok s o).2 = r at hstep
    cases hstep with
    | ignored | stale => exact h
    | rejected | failed | erased | cleared =>
      exact hthin (List.filter_subset_self _) hcom hread
    | stored d ht _ hd =>
      rintro d' (hd' | hd' | hd')
      · rcases (mem_writer_addDocument ..).1 hd' with hd' | rfl
        · exact h d' (Or.inl ((mem_writer_staged ..).1 hd').1)
        · obtain ⟨hid, hpk, -, hw⟩ := hX.storedDoc_fields hd
          exact ⟨o, he ok o rfl, ht, hid, hpk, hw⟩
      · exact h d' (hcom d' hd')
      · exact h d' (hread d' hd')
  | commit r =>
    cases r with
    | ok => exact hthin (List.Subset.refl _) (fun d hd => Or.inl hd) hread
    | failed => exact hthin (List.Subset.refl _) hcom hread
    | contended => exact h
  | reload => exact hthin (List.Subset.refl _) hcom hcom
  | prune now r =>
    cases r with
    | ok =>
      exact hthin (List.filter_subset_self _) (fun d hd => Or.inl (List.mem_of_mem_filter hd)) hread
    | commitFailed => exact hthin (List.filter_subset_self _) hcom hread
    | queryFailed | contended => exact h
  | crash =>
    rintro d (hd | hd | hd)
    all_goals exact h d (hcom d hd)

theorem writtenBy_call (hX : X.Lawful) (h : ∀ d, s.Stores d → d.WrittenBy K) {c : Call}
    (hc : ∀ addOk ops, c = .batch addOk ops → ∀ o ∈ ops, K o) :
    ∀ d, (callStep X s c).Stores d → d.WrittenBy K := by
  rw [callStep_eq]
  have hevents : ∀ e ∈ c.events X s, ∀ ok o, e = .op ok o → K o := by
    rintro e he ok o rfl
    cases c with
    | batch addOk ops =>
      obtain ⟨ok', o', ho', heq⟩ := mem_batchEvents he
      cases heq
      exact hc addOk ops rfl o ho'
    | commit | reload | prune | crash =>
      have := List.mem_singleton.1 he
      cases this
  exact (Run.along_of_forall hevents).inv (I := fun t : Engine => ∀ d, t.Stores d → d.WrittenBy K)
    (fun t e ht he => writtenBy_step hX ht he) h

end Engine

namespace Cluster

/-! ## A cluster of two nodes -/

/-- The text of the first sample time, and a numeral for any other id. -/
def placedUuid (u : Uuid) : String :=
  if u = 0x1419d6801dd211b28000000000000000 then "1419d680-1dd2-11b2-8000-000000000000"
  else u.toNat.repr

/-- An insert of the row with the key `k`. -/
def placedRow (k : String) : CDCRow where
  streamId := "00"
  time := 0x1419d6801dd211b28000000000000000
  batchSeqNo := 0
  operation := .rowInsert
  ttl := none
  columns := [⟨"k", some (.text k), false, none⟩]

def placedPayload (k : String) : Json :=
  .obj [("_cdc_batch_seq", .num (.int 0)), ("_cdc_stream_id", .str "00"),
    ("_cdc_time", .str "1419d680-1dd2-11b2-8000-000000000000"), ("k", .str k)]

def placedPayloadText (k : String) : String :=
  "\x7b\"_cdc_batch_seq\":0,\"_cdc_stream_id\":\"00\"," ++
    "\"_cdc_time\":\"1419d680-1dd2-11b2-8000-000000000000\",\"k\":\"" ++ k ++ "\"\x7d"

/-- The key `x` is hashed to the first node, and `y` to the second. -/
def placedItem (k : String) : BatchItem where
  targetNode := if k = "x" then "n0" else "n1"
  id := k
  opType := 1
  writetime := 1000000
  cdcTtl := none
  payloadJson := placedPayloadText k
  collectionDeltas := []
  partitionKey := some k

def placedItemText (k : String) : String :=
  "\x7b\"target_node\":\"" ++ (if k = "x" then "n0" else "n1") ++ "\",\"id\":\"" ++ k ++
    "\",\"op_type\":1,\"writetime\":1000000,\"cdc_ttl\":null," ++
    "\"payload_json\":\"\x7b\\\"_cdc_batch_seq\\\":0,\\\"_cdc_stream_id\\\":\\\"00\\\"," ++
    "\\\"_cdc_time\\\":\\\"1419d680-1dd2-11b2-8000-000000000000\\\",\\\"k\\\":\\\"" ++ k ++
    "\\\"\x7d\",\"collection_deltas\":[],\"partition_key\":\"" ++ k ++ "\"\x7d"

/-- The rows, their keys and their items are written, read and hashed as the crates do. -/
def placedIngestor : Ingestor where
  crates := { sampleKeyCrates with
    uuid := placedUuid
    jsonToString := fun j => ((["x", "y"].find? fun k => placedPayload k = j).map
      placedPayloadText).getD ""
    display := fun
      | .text k => "'" ++ k ++ "'"
      | _ => ""
    xxHash64 := fun texts => if texts = ["'x'"] then 3832835966370555310 else 2817920819655695179 }
  serde :=
    { toString := fun item => ((["x", "y"].find? fun k => placedItem k = item).map
        placedItemText).getD ""
      fromStr := fun s => (["x", "y"].find? fun k => placedItemText k = s).map placedItem }
  router :=
    { nodeInfo := ["n0", "n1"], partitionKeyColumns := ["k"], fullPrimaryKeyColumns := ["k"],
      clusteringKeyColumns := [] }

def placedCrates : Crates :=
  .ofTexts [(placedPayloadText "x", placedPayload "x"), (placedPayloadText "y", placedPayload "y")]

/-- Two rows are inserted, and the ticker sends them to their nodes. -/
def placedRun : List ClusterEvent :=
  [.newConsumer, .act 2 (.row (placedRow "x")), .act 2 (.proceed 0), .act 2 (.proceed 0),
    .act 2 (.proceed 0), .act 2 (.row (placedRow "y")), .act 2 (.proceed 0), .act 2 (.proceed 0),
    .act 2 (.proceed 0), .act 0 .tick, .act 0 (.proceed 0), .reach 0 (fun _ => true),
    .answer 0 0, .reach 0 (fun _ => true), .answer 0 0]

theorem placedRun_reads :
    Run.Along (clusterStep placedIngestor placedCrates) (Reads placedIngestor) clusterStart
      placedRun := by
  decide +kernel

theorem placedUuid_inj : Function.Injective placedUuid := by
  have hdigits (u : Uuid) : '-' ∉ u.toNat.repr.toList := not_mem_repr (by decide) _
  have htime : '-' ∈ "1419d680-1dd2-11b2-8000-000000000000".toList := by decide
  intro u v h
  unfold placedUuid at h
  split_ifs at h with hu hv hv
  · rw [hu, hv]
  · exact absurd (h ▸ htime) (hdigits v)
  · exact absurd (h ▸ htime) (hdigits u)
  · exact BitVec.eq_of_toNat_eq (nat_repr_inj h)

theorem placedIngestor_keyTexts : placedIngestor.crates.toFormats.KeyTexts :=
  { sampleKeyCrates_keyTexts with
    uuid_inj := placedUuid_inj
    uuid_colon := by
      intro u
      show ':' ∉ (placedUuid u).toList
      unfold placedUuid
      split_ifs
      · decide
      · exact not_mem_repr (by decide) _ }

/-! ## The rows of a run -/

variable {Q : BatchItem → Prop} {R : CDCRow → Prop}

/-- The items of the ingestor have `Q`, and the documents of a node were written by upserts
    for the node that have it. -/
structure Placed (M : Ingestor) (Q : BatchItem → Prop) (R : CDCRow → Prop) (s : Cluster) :
    Prop where
  net : Sourced M Q R s.net
  nodes : ∀ n d, (s.nodes n).Stores d →
    d.WrittenBy fun o => ∃ item, Q item ∧ item.targetNode = n ∧ item.operation = o

/-- A row that is given to a consumer has the property `R`. -/
def RowsOf (R : CDCRow → Prop) : ClusterEvent → Prop
  | .act _ (.row row) => R row
  | _ => True

theorem placed_start : Placed M Q R clusterStart where
  net := sourced_start
  nodes n d h := by
    rcases h with h | h | h
    all_goals cases h

/-- The operations of a call come from a request. -/
theorem of_callAt {s : Cluster} {ev : ClusterEvent} {n : String} {addOk : ℕ → Bool}
    {ops : List IndexOperation} (h : s.callAt n ev = some (.batch addOk ops)) :
    (n, ops) ∈ s.net.requests := by
  obtain ⟨⟨n', c⟩, hc, hn⟩ := Option.bind_eq_some_iff.1 h
  obtain ⟨hn', hbatch⟩ := Option.ite_none_right_eq_some.1 hn
  obtain rfl : n' = n := hn'
  obtain rfl : c = .batch addOk ops := Option.some.inj hbatch
  rw [mem_requests_iff]
  cases ev with
  | reach i ok =>
    obtain ⟨r, hr, heq⟩ := Option.map_eq_some_iff.1 hc
    obtain ⟨f, hf, -, rfl⟩ := underWay_eq_some hr
    cases heq
    exact Or.inl ⟨i, f, hf, List.mem_cons_self⟩
  | reachLate j ok =>
    obtain ⟨r, hr, heq⟩ := Option.map_eq_some_iff.1 hc
    cases heq
    exact Or.inr (List.mem_of_getElem? hr)
  | node n e =>
    have hcall : e.call = .batch addOk ops := congrArg Prod.snd (Option.some.inj hc)
    cases e <;> cases hcall
  | act | newConsumer | answer | fail | list | listFail => cases hc

theorem Placed.step (hX : X.Lawful) (hM : Makes M Q R) {s : Cluster} (h : Placed M Q R s)
    {ev : ClusterEvent} (hread : Reads M s ev) (hev : RowsOf R ev) :
    Placed M Q R (clusterStep M X s ev) := by
  constructor
  · show Sourced M Q R ((s.netEvent ev).elim s.net (netStep M s.net))
    cases hnev : s.netEvent ev with
    | none => exact h.net
    | some nev =>
      refine h.net.step hM (hread nev hnev) ?_
      rintro i row rfl
      cases ev with
      | act j m => cases m <;> cases hnev; exact hev
      | answer j k =>
        rw [netEvent] at hnev
        split_ifs at hnev
        cases hnev
      | list j =>
        obtain ⟨p, -, hp⟩ := Option.map_eq_some_iff.1 hnev
        cases hp
      | reach | newConsumer | reachLate | fail | listFail | node => cases hnev
  · intro n
    show ∀ d, ((s.callAt n ev).elim (s.nodes n) (Engine.callStep X (s.nodes n))).Stores d → _
    cases hcall : s.callAt n ev with
    | none => exact h.nodes n
    | some c =>
      refine Engine.writtenBy_call hX (h.nodes n) ?_
      rintro addOk ops rfl o ho
      have hmem : (n, o) ∈ deliveries (n, ops) := List.mem_map.2 ⟨o, ho, rfl⟩
      obtain ⟨item, hitem, heq⟩ := h.net.requests _ (of_callAt hcall) _ hmem
      exact ⟨item, hitem, congrArg Prod.fst heq, congrArg Prod.snd heq⟩

/-- The item is not an upsert, or that of a row with `R`. -/
def OfRow (M : Ingestor) (R : CDCRow → Prop) (item : BatchItem) : Prop :=
  item.operation.type = .upsert →
    ∃ row, R row ∧ RoutingAction.determine row.operation = .forward .upsert ∧
      M.router.routeItem M.crates row .upsert = some item

theorem makes_ofRow : Makes M (OfRow M R) R where
  route row opType item hrow hforward hitem ht := by
    obtain rfl : opType = .upsert := (Router.isItemOf_of_routeItem hitem).type.symm.trans ht
    exact ⟨row, hrow, hforward, hitem⟩
  rangeDelete start row ids item hitem ht := by
    obtain ⟨id, -, rfl⟩ := List.mem_map.1 hitem
    have hdel : OpType.ofI32 OpType.delete.toI32 = .delete := OpType.ofI32_toI32 _
    exact absurd (hdel.symm.trans ht) (by decide)

/-- Where a document of a state comes from. -/
theorem Placed.exists_row {s : Cluster} (h : Placed M (OfRow M R) R s) {n : String} {d : TantivyDoc}
    (hd : (s.nodes n).Stores d) :
    ∃ row item, R row ∧ RoutingAction.determine row.operation = .forward .upsert ∧
      M.router.routeItem M.crates row .upsert = some item ∧ item.targetNode = n ∧
      item.id = d.id ∧ item.partitionKey = some d.partitionKey ∧ item.writetime = d.writetime := by
  obtain ⟨_, ⟨item, hitem, hn, rfl⟩, ht, hid, hpk, hw⟩ := h.nodes n d hd
  obtain ⟨row, hrow, hforward, hroute⟩ := hitem ht
  refine ⟨row, item, hrow, hforward, hroute, hn, hid.symm, ?_, hw.symm⟩
  have hpart := (Router.isItemOf_of_routeItem hroute).partition
  rw [hpart, hpk]
  show _ = some (item.partitionKey.getD item.id)
  rw [hpart]
  rfl

theorem placed_run (hX : X.Lawful) {es : List ClusterEvent}
    (hread : Run.Along (clusterStep M X) (Reads M) clusterStart es)
    (hrows : ∀ ev ∈ es, RowsOf R ev) :
    Placed M (OfRow M R) R (Run.exec (clusterStep M X) clusterStart es) :=
  (hread.and (Run.along_of_forall hrows)).inv (I := Placed M (OfRow M R) R)
    (fun _ _ h hev => h.step hX makes_ofRow hev.1 hev.2) placed_start

/-- **Every document is that of a row routed to its node.**  In every run of a cluster, a
    document that a node stores, in the writer, in the last commit or in the reader, was
    written by a row of the run that is forwarded as an upsert and for which the router picks
    this node. -/
theorem stored_from_row (hX : X.Lawful) {es : List ClusterEvent}
    (hread : Run.Along (clusterStep M X) (Reads M) clusterStart es)
    (hrows : ∀ ev ∈ es, RowsOf R ev) {n : String} {d : TantivyDoc}
    (hd : ((Run.exec (clusterStep M X) clusterStart es).nodes n).Stores d) :
    ∃ row item, R row ∧ RoutingAction.determine row.operation = .forward .upsert ∧
      M.router.routeItem M.crates row .upsert = some item ∧ item.targetNode = n ∧
      item.id = d.id ∧ item.partitionKey = some d.partitionKey ∧ item.writetime = d.writetime :=
  (placed_run hX hread hrows).exists_row hd

theorem stored_from_row_sample :
    let s := Run.exec (clusterStep placedIngestor placedCrates) clusterStart placedRun
    (s.nodes "n0").writer.map TantivyDoc.id = ["x"] ∧ ∀ d ∈ (s.nodes "n0").writer,
      ∃ row item, row.operation = .rowInsert ∧
        RoutingAction.determine row.operation = .forward .upsert ∧
        placedIngestor.router.routeItem placedIngestor.crates row .upsert = some item ∧
        item.targetNode = "n0" ∧ item.id = d.id ∧ item.partitionKey = some d.partitionKey ∧
        item.writetime = d.writetime :=
  ⟨by decide +kernel, fun _ hd => stored_from_row (R := fun row => row.operation = .rowInsert)
    (Crates.ofTexts_lawful _) placedRun_reads (by simp [placedRun, RowsOf, placedRow])
    (Or.inl hd)⟩

/-! ## One node for each partition -/

/-- Rows with the same partition key are routed to the same node. -/
theorem targetNode_congr {C : RouterCrates} {router : Router} {row₁ row₂ : CDCRow}
    {opType₁ opType₂ : OpType} {item₁ item₂ : BatchItem}
    (h₁ : router.routeItem C row₁ opType₁ = some item₁)
    (h₂ : router.routeItem C row₂ opType₂ = some item₂)
    (h : Router.keyValues router.partitionKeyColumns row₁ =
      Router.keyValues router.partitionKeyColumns row₂) : item₁.targetNode = item₂.targetNode := by
  have hhash : router.getTargetNodeId C row₁ = router.getTargetNodeId C row₂ := by
    have hvalues (row : CDCRow) : router.partitionKeyColumns.filterMap row.getValue =
        (Router.keyValues router.partitionKeyColumns row).filterMap id := by
      rw [Router.keyValues, List.filterMap_map]
      rfl
    rw [Router.getTargetNodeId, Router.getTargetNodeId, hvalues, hvalues, h]
  have hnode₁ := (Router.isItemOf_of_routeItem h₁).node
  rw [hhash, (Router.isItemOf_of_routeItem h₂).node] at hnode₁
  exact (Option.some.inj hnode₁).symm

/-- If the row is forwarded as an upsert, its key columns have values of their types, without
    colons; nothing is asked of other rows. -/
def PlainUpsert (router : Router) (types : String → KeyType) (row : CDCRow) : Prop :=
  RoutingAction.determine row.operation = .forward .upsert →
    Router.Keyed router.fullPrimaryKeyColumns types row ∧
      Router.ColonFreeKey router.fullPrimaryKeyColumns row

theorem placedRun_plain :
    ∀ ev ∈ placedRun, RowsOf (PlainUpsert placedIngestor.router fun _ => .text) ev := by
  have hplain (k : String) (hk : ':' ∉ k.toList) :
      PlainUpsert placedIngestor.router (fun _ => .text) (placedRow k) := by
    refine fun _ => ⟨fun name hname => ?_, fun name hname v hv => ?_⟩
    · rw [List.mem_singleton.1 hname]
      exact ⟨_, rfl, rfl⟩
    · rw [List.mem_singleton.1 hname] at hv
      cases hv
      exact hk
  have hx := hplain "x" (by decide)
  have hy := hplain "y" (by decide)
  simp [placedRun, RowsOf, hx, hy]

/-- Two documents of the same partition key, of two states, are on the same node; two of the
    same id too, and they are of the same partition. -/
theorem Placed.same_place {types : String → KeyType} (hF : M.crates.toFormats.KeyTexts)
    (hpk : M.router.partitionKeyColumns ≠ [])
    (hfull : M.router.partitionKeyColumns ⊆ M.router.fullPrimaryKeyColumns) {s₁ s₂ : Cluster}
    (h₁ : Placed M (OfRow M (PlainUpsert M.router types)) (PlainUpsert M.router types) s₁)
    (h₂ : Placed M (OfRow M (PlainUpsert M.router types)) (PlainUpsert M.router types) s₂)
    {n₁ n₂ : String} {d₁ d₂ : TantivyDoc} (hd₁ : (s₁.nodes n₁).Stores d₁)
    (hd₂ : (s₂.nodes n₂).Stores d₂) :
    (d₁.partitionKey = d₂.partitionKey → n₁ = n₂) ∧
      (d₁.id = d₂.id → n₁ = n₂ ∧ d₁.partitionKey = d₂.partitionKey) := by
  obtain ⟨row₁, item₁, hplain₁, hforward₁, hroute₁, rfl, hid₁, hpart₁, -⟩ := h₁.exists_row hd₁
  obtain ⟨row₂, item₂, hplain₂, hforward₂, hroute₂, rfl, hid₂, hpart₂, -⟩ := h₂.exists_row hd₂
  obtain ⟨hk₁, hc₁⟩ := hplain₁ hforward₁
  obtain ⟨hk₂, hc₂⟩ := hplain₂ hforward₂
  obtain ⟨-, hkey₁, hpkey₁, -⟩ := Router.isItemOf_of_routeItem hroute₁
  obtain ⟨-, hkey₂, hpkey₂, -⟩ := Router.isItemOf_of_routeItem hroute₂
  have hsame (h : d₁.partitionKey = d₂.partitionKey) : item₁.targetNode = item₂.targetNode := by
    rw [← Option.some.injEq, ← hpart₁, ← hpart₂, hpkey₁, hpkey₂, Option.some.injEq] at h
    exact targetNode_congr hroute₁ hroute₂ (Router.keyOf_inj hF hpk (hk₁.mono hfull)
      (hk₂.mono hfull) (fun name hn => hc₁ name (hfull hn)) (fun name hn => hc₂ name (hfull hn)) h)
  refine ⟨hsame, fun h => ?_⟩
  rw [← hid₁, ← hid₂, hkey₁, hkey₂] at h
  have hne : M.router.fullPrimaryKeyColumns ≠ [] := fun hnil =>
    hpk (List.subset_nil.1 (hnil ▸ hfull))
  have hvalues := Router.keyOf_inj hF hne hk₁ hk₂ hc₁ hc₂ h
  have hpartition : d₁.partitionKey = d₂.partitionKey := by
    rw [← Option.some.injEq, ← hpart₁, ← hpart₂, hpkey₁, hpkey₂, Option.some.injEq]
    have hget := List.map_inj_left.1 hvalues
    rw [Router.keyOf, Router.keyOf]
    refine congrArg _ (List.map_congr_left fun name hname => ?_)
    rw [hget name (hfull hname)]
  exact ⟨hsame hpartition, hpartition⟩

/-- **A partition is on one node, and an id in one partition.**  In every run of a cluster in
    which the rows forwarded as upserts have key values without colons, two documents of the
    same partition key, in any layers of their nodes, are on the same node; two of the same id
    too, and they are of the same partition. -/
theorem one_node (hX : X.Lawful) {types : String → KeyType}
    (hF : M.crates.toFormats.KeyTexts) (hpk : M.router.partitionKeyColumns ≠ [])
    (hfull : M.router.partitionKeyColumns ⊆ M.router.fullPrimaryKeyColumns)
    {es : List ClusterEvent} (hread : Run.Along (clusterStep M X) (Reads M) clusterStart es)
    (hrows : ∀ ev ∈ es, RowsOf (PlainUpsert M.router types) ev) {n₁ n₂ : String}
    {d₁ d₂ : TantivyDoc}
    (hd₁ : ((Run.exec (clusterStep M X) clusterStart es).nodes n₁).Stores d₁)
    (hd₂ : ((Run.exec (clusterStep M X) clusterStart es).nodes n₂).Stores d₂) :
    (d₁.partitionKey = d₂.partitionKey → n₁ = n₂) ∧
      (d₁.id = d₂.id → n₁ = n₂ ∧ d₁.partitionKey = d₂.partitionKey) :=
  have h := placed_run hX hread hrows
  h.same_place hF hpk hfull h hd₁ hd₂

theorem one_node_sample :
    let s := Run.exec (clusterStep placedIngestor placedCrates) clusterStart placedRun
    (s.nodes "n0").writer.map TantivyDoc.id = ["x"] ∧
      (s.nodes "n1").writer.map TantivyDoc.id = ["y"] ∧
      ∀ d₁ ∈ (s.nodes "n0").writer, ∀ d₂ ∈ (s.nodes "n1").writer,
        (d₁.partitionKey = d₂.partitionKey → "n0" = "n1") ∧
          (d₁.id = d₂.id → "n0" = "n1" ∧ d₁.partitionKey = d₂.partitionKey) := by
  refine ⟨by decide +kernel, by decide +kernel, fun d₁ hd₁ d₂ hd₂ => ?_⟩
  exact @one_node placedIngestor placedCrates (Crates.ofTexts_lawful _) (fun _ => .text)
    placedIngestor_keyTexts (by decide) (List.Subset.refl _) placedRun placedRun_reads
    placedRun_plain "n0" "n1" d₁ d₂ (Or.inl hd₁) (Or.inl hd₂)

end Cluster

end Tantylla
