/-
  What a delete removes, and what is left of it.

  * A `PartitionDelete` carries a writetime like every operation, but removes the
    documents of its partition without comparing it: `partitionDelete_iff` says when
    that is what the operation's writetime asks for.
  * A delete goes to the writer and to the cache, while a lookup falls back on a
    snapshot taken before it: `removed_iff` says when the deletion is seen by every
    later lookup.
-/
import Tantylla.Node.Cell
import Tantylla.Node.Wrapper

namespace Tantylla

namespace Engine

/-! ## Partition deletes -/

/-- From `s` to `s'` the partition `pk` is deleted as of the writetime `w`: in the writer
    and in the cache, what was written before `w` is gone, what was written after `w` is
    kept, and nothing changes in other partitions. -/
structure DeletedAsOf (pk : String) (w : ℕ) (s s' : Engine) : Prop where
  older_writer : ∀ d ∈ s.writer, d.partitionKey = pk → d.writetime < w → d ∉ s'.writer
  older_cached : ∀ id c, s.uncommittedDocs.get? id = some c → c.partitionKey = pk →
    c.writetime < w → s'.uncommittedDocs.get? id = none
  newer_writer : ∀ d ∈ s.writer, d.partitionKey = pk → w < d.writetime → d ∈ s'.writer
  newer_cached : ∀ id c, s.uncommittedDocs.get? id = some c → c.partitionKey = pk →
    w < c.writetime → s'.uncommittedDocs.get? id = some c
  other_writer : (s'.writer.filter fun d => d.partitionKey ≠ pk) =
    s.writer.filter fun d => d.partitionKey ≠ pk
  other_cached : ∀ id, ((s'.uncommittedDocs.get? id).filter fun c => c.partitionKey ≠ pk) =
    (s.uncommittedDocs.get? id).filter fun c => c.partitionKey ≠ pk

/-- **A partition delete does what its writetime asks for iff no document of the
    partition, live or cached, was written after it.** -/
theorem partitionDelete_iff (X : Crates) (addOk : Bool) (s : Engine) (op : IndexOperation)
    (h : op.type = .partitionDelete) :
    DeletedAsOf op.partition op.writetime s (processOp X addOk s op).1 ↔
      (∀ d ∈ s.writer, d.partitionKey = op.partition → d.writetime ≤ op.writetime) ∧
      ∀ id c, s.uncommittedDocs.get? id = some c → c.partitionKey = op.partition →
        c.writetime ≤ op.writetime := by
  rw [processOp_partitionDelete X addOk s h]
  constructor
  · refine fun hd => ⟨fun d hw hpk => ?_, fun id c hc hpk => ?_⟩
    · by_contra hlt
      exact ((mem_writer_cleared ..).1 (hd.newer_writer d hw hpk (not_le.1 hlt))).2 hpk
    · by_contra hlt
      have := hd.newer_cached id c hc hpk (not_le.1 hlt)
      rw [get?_cleared, hc, Option.filter_some, if_neg (by simp [hpk])] at this
      cases this
  · rintro ⟨hw, hc⟩
    constructor
    case older_writer => exact fun d _ hpk _ hd => ((mem_writer_cleared ..).1 hd).2 hpk
    case older_cached =>
      intro id c hg hpk _
      refine get?_cleared_of_same fun c' hg' => ?_
      rw [hg] at hg'; cases hg'; exact hpk
    case newer_writer => exact fun d hd hpk hlt => absurd (hw d hd hpk) (not_le.2 hlt)
    case newer_cached => exact fun id c h hpk hlt => absurd (hc id c h hpk) (not_le.2 hlt)
    case other_writer => simp [cleared, deletePartition, List.filter_filter]
    case other_cached =>
      intro id
      rw [get?_cleared]
      cases s.uncommittedDocs.get? id with
      | none => rfl
      | some c => by_cases hpk : c.partitionKey = op.partition <;> simp [Option.filter, hpk]

/-- The node after one upsert written at `10`. -/
def afterUpsert : Engine :=
  Run.exec (step sampleCrates) (new [])
    [.op true (sampleOp .upsert "a" "p" 10 "\x7b\"a\":1\x7d")]

/-- A partition delete written at `15` finds the row written at `10`. -/
theorem partitionDelete_iff_later : DeletedAsOf "p" 15 afterUpsert
    (processOp sampleCrates true afterUpsert (sampleOp .partitionDelete "p" "p" 15 "")).1 := by
  refine (partitionDelete_iff sampleCrates true afterUpsert
    (sampleOp .partitionDelete "p" "p" 15 "") rfl).2 ⟨by decide, ?_⟩
  have hall : ∀ e ∈ afterUpsert.uncommittedDocs.entries, e.2.writetime ≤ 15 := by decide
  exact fun id c hc _ => hall _ (OrdMap.mem_of_find hc)

/-- A partition delete written at `5` removes the row written at `10`. -/
theorem partitionDelete_removes_newer : Reachable sampleCrates afterUpsert ∧
    (afterUpsert.writer.map fun d => (d.partitionKey, d.writetime)) = [("p", 10)] ∧
    ¬ DeletedAsOf "p" 5 afterUpsert
      (processOp sampleCrates true afterUpsert (sampleOp .partitionDelete "p" "p" 5 "")).1 := by
  refine ⟨⟨_, rfl⟩, by decide, fun h => ?_⟩
  have hall : ∀ d ∈ afterUpsert.writer, d.partitionKey = "p" ∧ 5 < d.writetime := by decide
  have hne : afterUpsert.writer ≠ [] := by decide
  obtain ⟨d, hd⟩ := List.exists_mem_of_ne_nil _ hne
  have := h.newer_writer d hd (hall d hd).1 (hall d hd).2
  rw [processOp_partitionDelete _ _ _ rfl] at this
  exact ((mem_writer_cleared ..).1 this).2 (hall d hd).1

/-! ## A deleted document is gone -/

/-- The operation is a processed delete of `id`, or a partition delete that finds a
    document of `id` in its partition, live or cached. -/
def Removes (X : Crates) (addOk : Bool) (s : Engine) (op : IndexOperation) (id : String) : Prop :=
  (op.type = .delete ∧ op.id = id ∧ (processOp X addOk s op).2 = .processed) ∨
  (op.type = .partitionDelete ∧ ((∃ d ∈ s.live id, d.partitionKey = op.partition) ∨
    ∃ c, s.uncommittedDocs.get? id = some c ∧ c.partitionKey = op.partition))

/-- An event of a continuation without an upsert on `id`: another operation, a commit or
    a reload. -/
def Quiet (id : String) : Event → Prop
  | .op _ o => ¬ (o.type = .upsert ∧ o.id = id)
  | .commit _ | .reload => True
  | .prune _ _ | .crash => False

/-- In every continuation a lookup of `id` finds nothing, and the next upsert that is
    processed builds its document from the empty object. -/
def Forgotten (X : Crates) (id : String) (s : Engine) : Prop :=
  ∀ es : List Event, (∀ e ∈ es, Quiet id e) →
    (Run.exec (step X) s es).findCachedOrIndexed id = none ∧
    ∀ addOk o, o.type = .upsert → o.id = id →
      (processOp X addOk (Run.exec (step X) s es) o).2 = .processed →
      (upsertDoc X (Run.exec (step X) s es) o).doc = upsertBody X none o ∧
      ∃ d, storedDoc X (Run.exec (step X) s es) o = some d ∧
        (processOp X addOk (Run.exec (step X) s es) o).1.live id = [d]

/-- No layer holds a document of `id`. -/
structure Gone (id : String) (s : Engine) : Prop where
  cached : s.uncommittedDocs.get? id = none
  live : s.live id = []
  committed : docsOf id s.committed = []
  reader : docsOf id s.reader = []

namespace Gone

variable {X : Crates} {id : String} {s : Engine}

theorem find (h : Gone id s) : s.findCachedOrIndexed id = none :=
  find_eq_none_iff.2 ⟨h.cached, h.reader⟩

theorem retain {m : OrdMap String Doc} (h : m.get? id = none) (p : String → Doc → Bool) :
    (m.retain p).get? id = none := by rw [OrdMap.get?_retain, h]; rfl

theorem op {addOk : Bool} {s' : Engine} {o : IndexOperation} {r : Outcome} (hX : X.Lawful)
    (h : Gone id s) (ho : OpStep X addOk s o s' r) (hq : ¬ (o.type = .upsert ∧ o.id = id)) :
    Gone id s' := by
  obtain ⟨hc, hr, -⟩ := ho.frame
  refine ⟨?_, ?_, hc ▸ h.committed, hr ▸ h.reader⟩
  · cases ho with
    | ignored | stale => exact h.cached
    | stored d ht | rejected ht | failed d ht =>
      exact (OrdMap.get?_insert_ne _ (fun he => hq ⟨ht, he.symm⟩) _).trans h.cached
    | erased | cleared => exact retain h.cached _
  · cases ho with
    | ignored | stale => exact h.live
    | stored d ht _ hd =>
      rw [live_stored (hX.storedDoc_fields hd).1, if_neg fun he => hq ⟨ht, he.symm⟩, h.live]
    | rejected | failed => rw [live_staged, h.live, ite_self]
    | erased => rw [live_erased, h.live, ite_self]
    | cleared => rw [live_cleared, h.live]; rfl

theorem step (hX : X.Lawful) {e : Event} (he : Quiet id e) (h : Gone id s) :
    Gone id (step X s e) := by
  cases e with
  | op addOk o => exact h.op hX (processOp_step X addOk s o) he
  | commit r =>
    by_cases hr : r = .ok
    · subst hr; exact ⟨retain h.cached _, h.live, h.live, h.reader⟩
    · obtain ⟨hc, hu⟩ := s.committerTick_of_ne_ok hr
      exact ⟨hu ▸ h.cached, (live_committerTick ..).trans h.live, hc ▸ h.committed,
        (congrArg (docsOf id) (reader_committerTick ..)).trans h.reader⟩
  | reload => exact ⟨h.cached, h.live, h.committed, h.committed⟩
  | prune | crash => exact he.elim

end Gone

/-- After a removal nothing of `id` is left in the writer or the cache. -/
theorem Removes.gone {X : Crates} {addOk : Bool} {s : Engine} {op : IndexOperation} {id : String}
    (hs : Coherent s) (h : Removes X addOk s op id) :
    (processOp X addOk s op).1.uncommittedDocs.get? id = none ∧
      (processOp X addOk s op).1.live id = [] := by
  rcases h with ⟨ht, rfl, hr⟩ | ⟨ht, hp⟩
  · rw [(erased_of_processed ht hr).2]
    exact ⟨OrdMap.get?_remove_self .., by rw [live_erased, if_pos rfl]⟩
  · rw [processOp_partitionDelete X addOk s ht]
    -- every document of the id, live or cached, is of the partition
    have hlive : ∀ d ∈ s.live id, d.partitionKey = op.partition := by
      intro d hd
      obtain ⟨hdw, hdi⟩ := mem_docsOf.1 hd
      rcases hp with ⟨e, he, hpe⟩ | ⟨c, hc, hpc⟩
      · obtain ⟨hew, hei⟩ := mem_docsOf.1 he
        rw [hs.writer d hdw e hew (hdi.trans hei.symm), hpe]
      · rw [hs.cached hc hdw hdi, hpc]
    have hcached : ∀ c, s.uncommittedDocs.get? id = some c → c.partitionKey = op.partition := by
      intro c hc
      rcases hp with ⟨e, he, hpe⟩ | ⟨c', hc', hpc⟩
      · rw [← hs.cached hc (mem_docsOf.1 he).1 (mem_docsOf.1 he).2, hpe]
      · rw [hc] at hc'; cases hc'; exact hpc
    exact ⟨get?_cleared_of_same hcached, live_cleared_of_same hlive⟩

/-- **A removal is seen by every later lookup iff neither the reader's snapshot nor the
    last commit holds a document of the id.** -/
theorem removed_iff {X : Crates} (hX : X.Lawful) {s : Engine} (hs : Reachable X s) (addOk : Bool)
    (op : IndexOperation) (id : String) (h : Removes X addOk s op id) :
    Forgotten X id (processOp X addOk s op).1 ↔
      (∀ d ∈ s.reader, d.id ≠ id) ∧ ∀ d ∈ s.committed, d.id ≠ id := by
  obtain ⟨hcached, hlive⟩ := h.gone (hs.coherent hX)
  obtain ⟨hcom, hread, -⟩ := (processOp_step X addOk s op).frame
  generalize (processOp X addOk s op).1 = s' at *
  rw [← docsOf_eq_nil, ← docsOf_eq_nil, ← hcom, ← hread]
  constructor
  · intro hf
    refine ⟨(find_eq_none_iff.1 (hf [] (by simp)).1).2, ?_⟩
    have := (hf [.reload] (by simp [Quiet])).1
    exact (find_eq_none_iff.1 this).2
  · rintro ⟨hr, hc⟩ es hes
    have hgone : Gone id (Run.exec (step X) s' es) := by
      have hall : Run.Along (step X) (fun _ e => Quiet id e) s' es := Run.along_of_forall hes
      exact hall.inv (fun s e hg he => hg.step hX he) ⟨hcached, hlive, hc, hr⟩
    refine ⟨hgone.find, ?_⟩
    rintro addOk o ht rfl hp
    obtain ⟨-, d, hd, hstate⟩ := stored_of_processed ht hp
    refine ⟨by rw [upsertDoc, hgone.find], d, hd, ?_⟩
    rw [hstate, live_stored (hX.storedDoc_fields hd).1, if_pos rfl]

/-- A row deleted before it was committed. -/
theorem removed_iff_uncommitted : Forgotten sampleCrates "a"
    (processOp sampleCrates true afterUpsert (sampleOp .delete "a" "p" 20 "")).1 :=
  (removed_iff sampleCrates_lawful ⟨_, rfl⟩ true (sampleOp .delete "a" "p" 20 "") "a"
    (Or.inl (by decide))).2 ⟨by decide, by decide⟩

/-- The node after the upsert, a commit and a reload. -/
def afterReload : Engine := Run.exec (step sampleCrates) afterUpsert [.commit .ok, .reload]

/-- A row deleted after it was committed is still found, and its column comes back. -/
theorem deleted_row_returns :
    Reachable sampleCrates afterReload ∧
    Removes sampleCrates true afterReload (sampleOp .delete "a" "p" 20 "") "a" ∧
    let s := (processOp sampleCrates true afterReload (sampleOp .delete "a" "p" 20 "")).1
    let t := processOp sampleCrates true s (sampleOp .upsert "a" "p" 30 "\x7b\"b\":2\x7d")
    s.live "a" = [] ∧ s.findCachedOrIndexed "a" ≠ none ∧ t.2 = .processed ∧
      (t.1.live "a").map TantivyDoc.body =
        [.obj [("a", .num (.int 1)), ("b", .num (.int 2))]] ∧ ¬ Forgotten sampleCrates "a" s := by
  refine ⟨⟨_, Run.exec_append ..⟩, Or.inl (by decide), by decide, by decide, by decide, by decide,
    fun h => ?_⟩
  exact absurd (h [] (by simp)).1 (by decide)

end Engine

end Tantylla
