/-
  The ids of a partition (`list_document_ids_by_partition_key`).

  The list is put together from the cache and the reader's snapshot, and range deletes
  rest on it.  `Lists s pk` says that it is what the writer has: every live id of the
  partition, none twice, and none of another partition.

  * `lists_iff`: in a reachable state it is, iff the snapshot shows the partition's
    live documents that are not cached (`Shown`), and no document of the partition
    whose row has moved to another one (`Unmoved`);
  * `shown_of_reloaded`: the first holds when the reader has loaded the last commit,
    so only the time between a commit and the reload is open;
  * `unmoved_of_homed`: the second holds when no row ever changes its partition.
-/
import Tantylla.Node.Replay

namespace Tantylla

namespace Engine

/-- `list_document_ids_by_partition_key`.  Both parts come out of hash tables, in no
    promised order; here they have that of the maps. -/
def listDocumentIdsByPartitionKey (s : Engine) (partitionKey : String) : List String :=
  let cacheIds := (s.uncommittedDocs.entries.filter fun e => e.2.partitionKey = partitionKey).map
    Prod.fst
  let docIds := (s.reader.filter fun d => d.partitionKey = partitionKey).map TantivyDoc.id
  -- cache entries take precedence
  cacheIds ++ docIds.filter fun id => id ∉ cacheIds

/-- The list of a partition is what the writer has of it. -/
structure Lists (s : Engine) (pk : String) : Prop where
  complete : ∀ d ∈ s.writer, d.partitionKey = pk → d.id ∈ s.listDocumentIdsByPartitionKey pk
  nodup : (s.listDocumentIdsByPartitionKey pk).Nodup
  sound : ∀ id ∈ s.listDocumentIdsByPartitionKey pk, ∀ d ∈ s.live id, d.partitionKey = pk

/-- The live documents of the partition that are not cached are in the snapshot, as they
    are or in an earlier version. -/
def Shown (s : Engine) (pk : String) : Prop :=
  ∀ d ∈ s.writer, d.partitionKey = pk → s.uncommittedDocs.get? d.id = none →
    ∃ e ∈ s.reader, e.id = d.id ∧ e.partitionKey = pk

/-- No row that the snapshot shows in the partition is live in another one. -/
def Unmoved (s : Engine) (pk : String) : Prop :=
  ∀ e ∈ s.reader, e.partitionKey = pk → ∀ d ∈ s.live e.id, d.partitionKey = pk

theorem mem_listDocumentIds {s : Engine} {pk id : String} :
    id ∈ s.listDocumentIdsByPartitionKey pk ↔
      (∃ c, s.uncommittedDocs.get? id = some c ∧ c.partitionKey = pk) ∨
      ∃ e ∈ s.reader, e.id = id ∧ e.partitionKey = pk := by
  have hcache (id : String) : id ∈ (s.uncommittedDocs.entries.filter fun e =>
      e.2.partitionKey = pk).map Prod.fst ↔
        ∃ c, s.uncommittedDocs.get? id = some c ∧ c.partitionKey = pk := by
    simp only [List.mem_map, List.mem_filter, decide_eq_true_eq, Prod.exists, OrdMap.mem_entries]
    constructor
    · rintro ⟨_, c, hc, rfl⟩
      exact ⟨c, hc⟩
    · rintro ⟨c, hc⟩
      exact ⟨id, c, hc, rfl⟩
  have hreader (id : String) : id ∈ (s.reader.filter fun d => d.partitionKey = pk).map
      TantivyDoc.id ↔ ∃ e ∈ s.reader, e.id = id ∧ e.partitionKey = pk := by
    simp only [List.mem_map, List.mem_filter, decide_eq_true_eq]
    constructor
    · rintro ⟨e, ⟨he, hpk⟩, hid⟩
      exact ⟨e, he, hid, hpk⟩
    · rintro ⟨e, he, hid, hpk⟩
      exact ⟨e, ⟨he, hpk⟩, hid⟩
  simp only [listDocumentIdsByPartitionKey, List.mem_append, List.mem_filter, decide_eq_true_eq,
    hcache, hreader]
  constructor
  · rintro (h | ⟨h, -⟩)
    · exact Or.inl h
    · exact Or.inr h
  · rintro (h | h)
    · exact Or.inl h
    · by_cases hc : ∃ c, s.uncommittedDocs.get? id = some c ∧ c.partitionKey = pk
      · exact Or.inl hc
      · exact Or.inr ⟨h, hc⟩

/-! ## No id comes twice -/

/-- No layer has two documents of an id. -/
structure Distinct (s : Engine) : Prop where
  writer : (s.writer.map TantivyDoc.id).Nodup
  committed : (s.committed.map TantivyDoc.id).Nodup
  reader : (s.reader.map TantivyDoc.id).Nodup

namespace Distinct

variable {X : Crates} {s : Engine}

theorem filter {l : List TantivyDoc} (h : (l.map TantivyDoc.id).Nodup) (p : TantivyDoc → Bool) :
    ((l.filter p).map TantivyDoc.id).Nodup := h.sublist (List.filter_sublist.map _)

theorem op (hX : X.Lawful) (h : Distinct s) {addOk : Bool} {o : IndexOperation} {s' : Engine}
    {r : Outcome} (ho : OpStep X addOk s o s' r) : Distinct s' := by
  cases ho with
  | ignored | stale => exact h
  | rejected | failed | erased | cleared => exact ⟨filter h.writer _, h.committed, h.reader⟩
  | stored d _ _ hd =>
    refine ⟨?_, h.committed, h.reader⟩
    -- the document added is the only one of its id, since `delete_term` came first
    have hnot : d.id ∉ ((staged X s o).writer).map TantivyDoc.id := by
      rintro hmem
      obtain ⟨e, he, hid⟩ := List.mem_map.1 hmem
      exact ((mem_writer_staged ..).1 he).2 (hid.trans (hX.storedDoc_fields hd).1)
    have hconcat := List.Nodup.concat hnot (filter h.writer _)
    rwa [List.concat_eq_append, ← List.map_singleton, ← List.map_append] at hconcat

theorem step (hX : X.Lawful) (s : Engine) (e : Event) (h : Distinct s) :
    Distinct (step X s e) := by
  cases e with
  | op addOk o => exact h.op hX (processOp_step X addOk s o)
  | commit r =>
    cases r with
    | ok => exact ⟨h.writer, h.writer, h.reader⟩
    | failed => exact ⟨h.writer, h.committed, h.reader⟩
    | contended => exact h
  | reload => exact ⟨h.writer, h.committed, h.committed⟩
  | prune now r =>
    cases r with
    | ok => exact ⟨filter h.writer _, filter h.writer _, h.reader⟩
    | commitFailed => exact ⟨filter h.writer _, h.committed, h.reader⟩
    | queryFailed | contended => exact h
  | crash => exact ⟨h.committed, h.committed, h.committed⟩

end Distinct

theorem Reachable.distinct {X : Crates} (hX : X.Lawful) {s : Engine} (h : Reachable X s) :
    Distinct s :=
  Run.Reachable.inv h (Distinct.step hX) ⟨List.nodup_nil, List.nodup_nil, List.nodup_nil⟩

theorem nodup_listDocumentIds {s : Engine} (h : Distinct s) (pk : String) :
    (s.listDocumentIdsByPartitionKey pk).Nodup := by
  refine List.nodup_append.2 ⟨?_, (Distinct.filter h.reader _).filter _, ?_⟩
  · exact s.uncommittedDocs.nodup_keys.sublist (List.filter_sublist.map _)
  · rintro id hc id' hd rfl
    exact absurd hc (by simpa using (List.mem_filter.1 hd).2)

/-! ## When the list is exact -/

/-- **The list is what the writer has iff the snapshot shows what is not cached, and nothing
    that has moved.** -/
theorem lists_iff {X : Crates} (hX : X.Lawful) {s : Engine} (hs : Reachable X s) (pk : String) :
    Lists s pk ↔ Shown s pk ∧ Unmoved s pk := by
  have hcoh := hs.coherent hX
  constructor
  · rintro ⟨hcomplete, -, hsound⟩
    refine ⟨fun d hd hpk hn => ?_, fun e he hpk => ?_⟩
    · rcases mem_listDocumentIds.1 (hcomplete d hd hpk) with ⟨c, hc, -⟩ | h
      · rw [hn] at hc; cases hc
      · exact h
    · exact hsound e.id (mem_listDocumentIds.2 (Or.inr ⟨e, he, rfl, hpk⟩))
  · rintro ⟨hshown, hunmoved⟩
    refine ⟨fun d hd hpk => mem_listDocumentIds.2 ?_, nodup_listDocumentIds (hs.distinct hX) pk,
      fun id hid d hd => ?_⟩
    · cases hg : s.uncommittedDocs.get? d.id with
      | some c => exact Or.inl ⟨c, rfl, (hcoh.cached hg hd rfl).symm.trans hpk⟩
      | none => exact Or.inr (hshown d hd hpk hg)
    · obtain ⟨hd', hid'⟩ := mem_docsOf.1 hd
      rcases mem_listDocumentIds.1 hid with ⟨c, hc, hpk⟩ | ⟨e, he, rfl, hpk⟩
      · exact (hcoh.cached hc hd' hid').trans hpk
      · exact hunmoved e he hpk d hd

/-- The theorem at a run that reloads after its commit. -/
theorem lists_iff_reloaded : Lists (Run.exec (step sampleCrates) (new [])
    [.op true (sampleOp .upsert "a" "p" 10 "\x7b\"a\":1\x7d"), .commit .ok, .reload,
      .op true (sampleOp .upsert "b" "p" 10 "\x7b\"b\":2\x7d")]) "p" :=
  (lists_iff sampleCrates_lawful ⟨_, rfl⟩ "p").2
    ⟨by unfold Shown; decide, by unfold Unmoved; decide⟩

/-- After the commit and before the reload, a live id of the partition is missing. -/
theorem committed_id_missing :
    let s := Run.exec (step sampleCrates) (new [])
      [.op true (sampleOp .upsert "a" "p" 10 "\x7b\"a\":1\x7d"), .commit .ok]
    Reachable sampleCrates s ∧ (s.writer.map fun d => (d.id, d.partitionKey)) = [("a", "p")] ∧
      s.listDocumentIdsByPartitionKey "p" = [] ∧ ¬ Lists s "p" := by
  refine ⟨⟨_, rfl⟩, by decide, by decide, fun h => ?_⟩
  exact absurd h.complete (by decide)

/-! ## Reloads and homes -/

/-- The live documents that are not cached are those of the last commit. -/
def Shelved (s : Engine) : Prop :=
  ∀ d ∈ s.writer, s.uncommittedDocs.get? d.id = none → d ∈ s.committed

/-- A live document that is not cached after an operation was live and not cached before. -/
theorem OpStep.uncached {X : Crates} (hX : X.Lawful) {s s' : Engine} {addOk : Bool}
    {o : IndexOperation} {r : Outcome} (ho : OpStep X addOk s o s' r) (hc : Coherent s)
    {d : TantivyDoc} (hd : d ∈ s'.writer) (hn : s'.uncommittedDocs.get? d.id = none) :
    d ∈ s.writer ∧ s.uncommittedDocs.get? d.id = none := by
  have hstaged (hd : d ∈ (staged X s o).writer)
      (hn : (staged X s o).uncommittedDocs.get? d.id = none) :
      d ∈ s.writer ∧ s.uncommittedDocs.get? d.id = none := by
    obtain ⟨hd, hid⟩ := (mem_writer_staged ..).1 hd
    rw [uncommittedDocs_staged, OrdMap.get?_insert_ne _ hid] at hn
    exact ⟨hd, hn⟩
  cases ho with
  | ignored | stale => exact ⟨hd, hn⟩
  | rejected | failed => exact hstaged hd hn
  | stored e _ _ he =>
    rcases (mem_writer_addDocument ..).1 hd with hd | rfl
    · exact hstaged hd hn
    · rw [uncommittedDocs_addDocument, uncommittedDocs_staged, (hX.storedDoc_fields he).1,
        OrdMap.get?_insert_self] at hn
      cases hn
  | erased =>
    obtain ⟨hd, hid⟩ := List.mem_filter.1 hd
    rw [uncommittedDocs_erased, OrdMap.get?_remove_ne _ (by simpa using hid)] at hn
    exact ⟨hd, hn⟩
  | cleared =>
    obtain ⟨hd, hpk⟩ := (mem_writer_cleared ..).1 hd
    refine ⟨hd, ?_⟩
    rw [← get?_cleared_of_other fun c hcd he => hpk ((hc.cached hcd hd rfl).trans he)]
    exact hn

theorem Shelved.op {X : Crates} (hX : X.Lawful) {s s' : Engine} (h : Shelved s)
    (hc : Coherent s) {addOk : Bool} {o : IndexOperation} {r : Outcome}
    (ho : OpStep X addOk s o s' r) : Shelved s' := by
  intro d hd hn
  obtain ⟨hd, hn⟩ := ho.uncached hX hc hd hn
  rw [ho.frame.1]
  exact h d hd hn

theorem Shelved.step {X : Crates} (hX : X.Lawful) (s : Engine) (e : Event)
    (h : Coherent s ∧ Shelved s) : Coherent (step X s e) ∧ Shelved (step X s e) := by
  obtain ⟨hc, h⟩ := h
  refine ⟨hc.step hX s e, ?_⟩
  cases e with
  | op addOk o => exact h.op hX hc (processOp_step X addOk s o)
  | commit r =>
    cases r with
    | ok => exact fun d hd _ => hd
    | failed | contended => exact h
  | reload => exact h
  | prune now r =>
    cases r with
    | ok => exact fun d hd _ => hd
    | commitFailed => exact fun d hd hn => h d (List.mem_of_mem_filter hd) hn
    | queryFailed | contended => exact h
  | crash => exact fun d hd _ => hd

/-- **Once the reader has loaded the last commit, every live document is shown or cached.** -/
theorem shown_of_reloaded {X : Crates} (hX : X.Lawful) {s : Engine} (hs : Reachable X s)
    (hr : s.reader = s.committed) (pk : String) : Shown s pk := by
  have h : Coherent s ∧ Shelved s :=
    Run.Reachable.inv (I := fun s => Coherent s ∧ Shelved s) hs (Shelved.step hX)
      ⟨coherent_new, fun _ hd => by cases hd⟩
  exact fun d hd hpk hn => ⟨d, hr ▸ h.2 d hd hn, rfl, hpk⟩

/-- **If every upsert keeps its id in one partition, nothing moves.** -/
theorem unmoved_of_homed {X : Crates} (hX : X.Lawful) {part : String → String} {es : List Event}
    (hes : ∀ e ∈ es, EventKeepsHome part e) (pk : String) :
    Unmoved (Run.exec (Engine.step X) (new []) es) pk := by
  have hhome := (Run.along_of_forall hes).inv (I := fun s : Engine =>
    (Homed part s ∧ Homed part (new s.committed)) ∧ Homed part (new s.reader))
    (fun s e hs he => ⟨Homed.step hX s e hs.1 he, ?_⟩)
    ⟨⟨homed_new part, homed_new part⟩, homed_new part⟩
  · obtain ⟨⟨hs, -⟩, hr⟩ := hhome
    intro e he hpk d hd
    rw [(hs e.id).1 d hd, ← (hr e.id).1 e (mem_docsOf.2 ⟨he, rfl⟩), hpk]
  · cases e with
    | op addOk o =>
      rw [Engine.step, (processOp_step X addOk s o).frame.2.1]
      exact hs.2
    | commit r => rw [Engine.step, reader_committerTick]; exact hs.2
    | reload | crash => exact hs.1.2
    | prune now r => cases r <;> exact hs.2

end Engine

end Tantylla
