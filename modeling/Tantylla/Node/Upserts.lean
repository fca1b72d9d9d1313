/-
  Upserts alone: where a document is found makes no difference.

  In a run of upserts and commits whose lookups do not lag behind the last commit, a
  lookup finds the document in the cache or rebuilds it from the index, as the
  commits happen to fall.  `found_of_upserts`: either way it is `foldedDoc`, the fold
  of the operations that came with a writetime later than all processed before, if the
  index returns the documents of the fold as they were written (`FoldWritten`).
-/
import Tantylla.Node.Cells
import Tantylla.Node.Consistent

namespace Tantylla

/-- The operation of the event. -/
def Event.operation : Event → Option IndexOperation
  | .op _ o => some o
  | _ => none

/-- The operation of the event, if it is one on `id`. -/
def Event.operationOn (id : String) (e : Event) : Option IndexOperation :=
  e.operation.filter fun o => o.id = id

namespace Engine

/-! ## The fold of upserts -/

/-- One upsert on a body: `merge_json`, then `apply_collection_deltas`. -/
def foldStep (X : Crates) (body : Json) (o : IndexOperation) : Json :=
  applyCollectionDeltas X.fromStr (mergeJson body ((X.fromStr o.payloadJson).getD .null))
    o.collectionDeltas

/-- The operations whose writetime exceeds that of every one processed before. -/
def processedOps (ops : List IndexOperation) : List IndexOperation :=
  ops.foldl (fun kept o => if ∀ k ∈ kept, k.writetime < o.writetime then kept ++ [o] else kept) []

/-- The document that the upserts `ops` on one id make: the fold of the processed ones,
    with the fields of the last. -/
def foldedDoc (X : Crates) (ops : List IndexOperation) : Option Doc :=
  (processedOps ops).getLast?.map fun last => {
    id := last.id
    partitionKey := last.partition
    doc := (processedOps ops).foldl (foldStep X) (.obj [])
    expiresAt := last.expiresAt
    writetime := last.writetime
    generation := 0 }

/-- The index returns each document of the fold as it was written. -/
def FoldWritten (X : Crates) (ops : List IndexOperation) : Prop :=
  ∀ ops', ops' <+: ops → ∀ d ∈ foldedDoc X ops', X.AsWritten d.doc

/-- What an upsert makes of the document it finds. -/
def upsertFound (X : Crates) (found : Option Doc) (o : IndexOperation) : Option Doc :=
  if isStale found o.writetime then found else some (o.docFrom X found)

theorem upsertBody_eq (X : Crates) (existing : Option Doc) (o : IndexOperation) :
    upsertBody X existing o = foldStep X ((existing.map Doc.doc).getD (.obj [])) o := by
  unfold upsertBody foldStep
  by_cases hd : o.collectionDeltas.isEmpty
  · rw [if_pos hd, List.isEmpty_iff.1 hd, applyCollectionDeltas_nil]
  · rw [if_neg hd]

theorem processedOps_append (ops : List IndexOperation) (o : IndexOperation) :
    processedOps (ops ++ [o]) = if ∀ k ∈ processedOps ops, k.writetime < o.writetime then
      processedOps ops ++ [o] else processedOps ops := by
  rw [processedOps, List.foldl_append]
  rfl

/-- Some operation is processed unless there is none, and the last one processed has the
    latest writetime of all. -/
theorem getLast?_processedOps (ops : List IndexOperation) :
    (∀ k ∈ processedOps ops, k ∈ ops) ∧ (ops = [] ∨ ∃ last, last ∈ ops ∧
      (processedOps ops).getLast? = some last ∧ ∀ o ∈ ops, o.writetime ≤ last.writetime) := by
  induction ops using List.reverseRecOn with
  | nil => exact ⟨nofun, Or.inl rfl⟩
  | append_singleton ops o ih =>
    obtain ⟨hmem, hlast⟩ := ih
    rw [processedOps_append]
    split_ifs with hlt
    · refine ⟨fun k hk => ?_, Or.inr ⟨o, by simp, by simp, fun o' ho' => ?_⟩⟩
      · exact (List.mem_append.1 hk).elim (fun hk => List.mem_append_left _ (hmem k hk))
          fun hk => List.mem_append_right _ hk
      · rcases List.mem_append.1 ho' with ho' | ho'
        · obtain rfl | ⟨last, -, hl, hle⟩ := hlast
          · cases ho'
          · exact (hle o' ho').trans (hlt last (List.mem_of_getLast? hl)).le
        · rw [List.mem_singleton.1 ho']
    · refine ⟨fun k hk => List.mem_append_left _ (hmem k hk), Or.inr ?_⟩
      -- `o` is skipped, so an operation was processed before it that is as late
      push Not at hlt
      obtain ⟨k, hk, hko⟩ := hlt
      obtain rfl | ⟨last, hl, hlast, hle⟩ := hlast
      · cases hmem k hk
      · refine ⟨last, List.mem_append_left _ hl, hlast, fun o' ho' => ?_⟩
        rcases List.mem_append.1 ho' with ho' | ho'
        · exact hle o' ho'
        · rw [List.mem_singleton.1 ho']
          exact hko.trans (hle k (hmem k hk))

/-- The folded document is absent if there are no operations; else it has the latest
    writetime. -/
theorem writetime_foldedDoc (X : Crates) (ops : List IndexOperation) :
    (foldedDoc X ops).map Doc.writetime = (ops.map IndexOperation.writetime).max? := by
  obtain ⟨-, rfl | ⟨last, hmem, hlast, hle⟩⟩ := getLast?_processedOps ops
  · rfl
  · rw [foldedDoc, hlast, Option.map_some, Option.map_some, eq_comm, List.max?_eq_some_iff]
    exact ⟨List.mem_map_of_mem hmem, by simpa using hle⟩

/-- An operation is stale for the folded document iff it is not later than all that was
    processed. -/
theorem isStale_foldedDoc (X : Crates) (ops : List IndexOperation) (w : ℕ) :
    isStale (foldedDoc X ops) w ↔ ¬ ∀ k ∈ processedOps ops, k.writetime < w := by
  obtain ⟨hsub, rfl | ⟨last, hmem, hlast, hle⟩⟩ := getLast?_processedOps ops
  · simp [foldedDoc, processedOps, isStale]
  · rw [foldedDoc, hlast]
    show decide (w ≤ last.writetime) = true ↔ _
    rw [decide_eq_true_eq, not_forall]
    constructor
    · exact fun h => ⟨last, fun hall => absurd (hall (List.mem_of_getLast? hlast)) (not_lt.2 h)⟩
    · rintro ⟨k, hk⟩
      obtain ⟨hk, hw⟩ := Classical.not_imp.1 hk
      exact (not_lt.1 hw).trans (hle k (hsub k hk))

/-- **Upserts applied one after the other make the folded document.** -/
theorem foldl_upsertFound (X : Crates) (ops : List IndexOperation) :
    ops.foldl (upsertFound X) none = foldedDoc X ops := by
  induction ops using List.reverseRecOn with
  | nil => rfl
  | append_singleton ops o ih =>
    rw [List.foldl_append, List.foldl_cons, List.foldl_nil, ih, upsertFound]
    by_cases hst : isStale (foldedDoc X ops) o.writetime
    · rw [if_pos hst, foldedDoc, foldedDoc, processedOps_append,
        if_neg ((isStale_foldedDoc ..).1 hst)]
    · have hkept := not_not.1 ((isStale_foldedDoc X ops o.writetime).not.1 hst)
      have hbody : ((foldedDoc X ops).map Doc.doc).getD (.obj []) =
          (processedOps ops).foldl (foldStep X) (.obj []) := by
        unfold foldedDoc
        cases h : (processedOps ops).getLast? with
        | none => rw [List.getLast?_eq_none_iff.1 h]; rfl
        | some last => rfl
      rw [if_neg hst, IndexOperation.docFrom, upsertBody_eq, hbody, eq_comm, foldedDoc,
        processedOps_append, if_pos hkept, List.getLast?_concat, List.foldl_append]
      rfl

theorem foldedDoc_append (X : Crates) (ops : List IndexOperation) (o : IndexOperation) :
    foldedDoc X (ops ++ [o]) = upsertFound X (foldedDoc X ops) o := by
  rw [← foldl_upsertFound, List.foldl_append, foldl_upsertFound]
  rfl

/-! ## Runs of upserts -/

/-- A sound upsert that finds the reader at the last commit, a tick of the committer that
    does not fail, or a reload of the reader. -/
def Upserting (X : Crates) (s : Engine) : Event → Prop
  | .op addOk o => o.type = .upsert ∧ SoundOp X addOk o ∧ s.reader = s.committed
  | .commit r => r ≠ .failed
  | .reload => True
  | .prune _ _ | .crash => False

/-- The writer's document of the id, as a lookup would rebuild it. -/
def shown (id : String) (s : Engine) : Option Doc := (s.live id).head?.map TantivyDoc.asDoc

/-- A cached document of the id is the writer's, and where none is cached the last commit
    shows the writer's documents. -/
structure Agrees (id : String) (s : Engine) : Prop where
  cached : ∀ c, s.uncommittedDocs.get? id = some c → some c.content = shown id s
  uncached : s.uncommittedDocs.get? id = none → docsOf id s.committed = s.live id

namespace Agrees

variable {X : Crates} {id : String} {s : Engine}

theorem congr {s' : Engine} (h : Agrees id s) (hl : s'.live id = s.live id)
    (hu : s'.uncommittedDocs.get? id = s.uncommittedDocs.get? id)
    (hc : docsOf id s'.committed = docsOf id s.committed) : Agrees id s' where
  cached c hg := by
    rw [shown, hl]
    exact h.cached c (hu ▸ hg)
  uncached hg := by
    rw [hc, hl]
    exact h.uncached (hu ▸ hg)

/-- A lookup that does not lag finds the writer's document. -/
theorem find (h : Agrees id s) (hr : s.reader = s.committed) :
    (s.findCachedOrIndexed id).map Doc.content = shown id s := by
  cases hg : s.uncommittedDocs.get? id with
  | some c => rw [find_of_cached hg, ← h.cached c hg]; rfl
  | none =>
    rw [find_of_not_cached hg, hr, h.uncached hg, Option.map_map]
    rfl

theorem isStale_shown_iff (h : Agrees id s) (hr : s.reader = s.committed) {w : ℕ} :
    isStale (shown id s) w ↔ isStale (s.findCachedOrIndexed id) w := by
  rw [← h.find hr, isStale_iff, isStale_iff]
  constructor
  · rintro ⟨c, hc, hle⟩
    obtain ⟨d, hd, rfl⟩ := Option.map_eq_some_iff.1 hc
    exact ⟨d, hd, hle⟩
  · rintro ⟨d, hd, hle⟩
    exact ⟨d.content, by rw [hd]; rfl, hle⟩

/-- A sound upsert that does not lag makes its document of the writer's, if the index
    returns it as it was written. -/
theorem upsert (hX : X.Stores) (h : Agrees id s) {addOk : Bool} {o : IndexOperation}
    (ht : o.type = .upsert) (hso : SoundOp X addOk o) (hr : s.reader = s.committed)
    (hw : o.id = id → ∀ d ∈ upsertFound X (shown id s) o, X.AsWritten d.doc) :
    Agrees id (processOp X addOk s o).1 ∧ shown id (processOp X addOk s o).1 =
      if o.id = id then upsertFound X (shown id s) o else shown id s := by
  obtain ⟨rfl, hup⟩ := hso
  obtain ⟨hp, hfit⟩ := hup ht
  by_cases hst : isStale (s.findCachedOrIndexed o.id) o.writetime
  · rw [processOp_of_stale X true (Or.inl ht) hst]
    refine ⟨h, ?_⟩
    split_ifs with hid
    · subst hid
      rw [upsertFound, if_pos ((h.isStale_shown_iff hr).2 hst)]
    · rfl
  · have hobj : (upsertDoc X s o).doc.IsObj := (upsertBody_hasKeys hp (Or.inr hp)).isObj
    obtain ⟨d, hd⟩ := storedDoc_isSome hX.toLawful hobj hfit
    obtain ⟨hdid, hpk, hexp, hwt⟩ := hX.storedDoc_fields hd
    rw [processOp_of_stored X ht hst hd]
    by_cases hid : o.id = id
    · subst hid
      have hfound : upsertFound X (shown o.id s) o = some (upsertDoc X s o).content := by
        rw [upsertFound, if_neg (mt (h.isStale_shown_iff hr).1 hst), ← h.find hr]
        refine congrArg some (o.docFrom_congr X ?_)
        rw [Option.map_map]
        rfl
      have hwritten : X.AsWritten (upsertDoc X s o).doc :=
        hw rfl (upsertDoc X s o).content hfound
      have hshown : shown o.id ((staged X s o).addDocument d) =
          some (upsertDoc X s o).content := by
        rw [shown, live_stored hdid, if_pos rfl, List.head?_cons, Option.map_some,
          TantivyDoc.asDoc, hdid, hpk, hexp, hwt, body_of_stored hX hobj hd, hwritten]
        rfl
      have hcached : ((staged X s o).addDocument d).uncommittedDocs.get? o.id =
          some (upsertDoc X s o) := OrdMap.get?_insert_self ..
      refine ⟨⟨fun c hc => ?_, fun hn => ?_⟩, ?_⟩
      · rw [hcached, Option.some.injEq] at hc
        rw [hshown, hc]
      · rw [hcached] at hn; cases hn
      · rw [if_pos rfl, hfound, hshown]
    · have hl : ((staged X s o).addDocument d).live id = s.live id := by
        rw [live_stored hdid, if_neg (Ne.symm hid)]
      refine ⟨h.congr hl (OrdMap.get?_insert_ne _ (Ne.symm hid) _) rfl, ?_⟩
      rw [if_neg hid, shown, hl]; rfl

/-- **What an event of a run of upserts does to the document of an id.** -/
theorem step (hX : X.Stores) (h : Agrees id s) {e : Event} (he : Upserting X s e)
    (hw : ∀ o ∈ e.operationOn id, ∀ d ∈ upsertFound X (shown id s) o, X.AsWritten d.doc) :
    Agrees id (Engine.step X s e) ∧ shown id (Engine.step X s e) =
      (e.operationOn id).elim (shown id s) (upsertFound X (shown id s)) := by
  cases e with
  | op addOk o =>
    obtain ⟨ht, hso, hr⟩ := he
    have hon : (Event.op addOk o).operationOn id = if o.id = id then some o else none := by
      simp only [Event.operationOn, Event.operation, Option.filter_some, decide_eq_true_eq]
    rw [hon] at hw ⊢
    obtain ⟨ha, hs⟩ := h.upsert hX ht hso hr fun hid => hw o (by rw [if_pos hid]; rfl)
    refine ⟨ha, hs.trans ?_⟩
    split_ifs <;> rfl
  | commit r =>
    cases r with
    | ok => exact ⟨⟨fun c hc => h.cached c (OrdMap.of_retain hc), fun _ => rfl⟩, rfl⟩
    | failed => exact absurd rfl he
    | contended => exact ⟨h, rfl⟩
  | reload => exact ⟨h.congr rfl rfl rfl, rfl⟩
  | prune | crash => exact he.elim

end Agrees

theorem agrees_new (id : String) : Agrees id (new []) where
  cached c hc := by cases hc
  uncached _ := rfl

/-- A run of upserts from a state that shows the document of `ops` ends in one that shows
    the document of `ops` and the operations of the run. -/
theorem shown_of_run {X : Crates} (hX : X.Stores) {id : String} {es : List Event} {s : Engine}
    {ops : List IndexOperation} (ha : Agrees id s) (hs : shown id s = foldedDoc X ops)
    (hes : Run.Along (step X) (Upserting X) s es)
    (hw : FoldWritten X (ops ++ es.filterMap (Event.operationOn id))) :
    Agrees id (Run.exec (step X) s es) ∧ shown id (Run.exec (step X) s es) =
      foldedDoc X (ops ++ es.filterMap (Event.operationOn id)) := by
  induction es generalizing s ops with
  | nil => exact ⟨ha, hs.trans (by rw [List.filterMap_nil, List.append_nil])⟩
  | cons e es ih =>
    obtain ⟨he, hes⟩ := hes
    cases ho : e.operationOn id with
    | none =>
      obtain ⟨ha', hs'⟩ := ha.step hX he (by rw [ho]; exact nofun)
      rw [List.filterMap_cons_none ho] at hw ⊢
      exact ih ha' (by rw [hs', ho]; exact hs) hes hw
    | some o =>
      rw [List.filterMap_cons_some ho, List.append_cons] at hw ⊢
      have hnext : upsertFound X (shown id s) o = foldedDoc X (ops ++ [o]) := by
        rw [hs, foldedDoc_append]
      obtain ⟨ha', hs'⟩ := ha.step hX he (by
        rw [ho]
        rintro _ ⟨⟩
        exact hnext ▸ hw _ (List.prefix_append ..))
      exact ih ha' (by rw [hs', ho]; exact hnext) hes hw

/-- A lookup after a run of upserts finds the folded document of the operations on the id. -/
theorem find_of_run {X : Crates} (hX : X.Stores) {es : List Event} {id : String}
    (hes : Run.Along (step X) (Upserting X) (new []) es)
    (hr : (Run.exec (step X) (new []) es).reader = (Run.exec (step X) (new []) es).committed)
    (hw : FoldWritten X ((es.filterMap Event.operation).filter fun o => o.id = id)) :
    ((Run.exec (step X) (new []) es).findCachedOrIndexed id).map Doc.content =
      foldedDoc X ((es.filterMap Event.operation).filter fun o => o.id = id) := by
  have hops : (es.filterMap Event.operation).filter (fun o => o.id = id) =
      es.filterMap (Event.operationOn id) := by
    rw [List.filter_filterMap]
    rfl
  rw [hops] at hw ⊢
  obtain ⟨ha, hs⟩ := @shown_of_run X hX id es _ [] (agrees_new id) rfl hes hw
  rw [ha.find hr, hs, List.nil_append]

/-- **The cached path and the indexed path agree.**  After a run of upserts and commits, a
    lookup finds the fold of the operations on the id that came with a writetime later than
    all processed before them, under the latest writetime; another placement of the commits
    among the same operations makes no difference.  The documents of the fold are returned
    as they were written. -/
theorem found_of_upserts {X : Crates} (hX : X.Stores) {es es' : List Event}
    (hes : Run.Along (step X) (Upserting X) (new []) es)
    (hr : (Run.exec (step X) (new []) es).reader = (Run.exec (step X) (new []) es).committed)
    (hes' : Run.Along (step X) (Upserting X) (new []) es')
    (hr' : (Run.exec (step X) (new []) es').reader = (Run.exec (step X) (new []) es').committed)
    (hops : es'.filterMap Event.operation = es.filterMap Event.operation) (id : String)
    (hw : FoldWritten X ((es.filterMap Event.operation).filter fun o => o.id = id)) :
    let ops := (es.filterMap Event.operation).filter fun o => o.id = id
    let found := (Run.exec (step X) (new []) es).findCachedOrIndexed id
    found.map Doc.content = foldedDoc X ops ∧
    found.map Doc.writetime = (ops.map IndexOperation.writetime).max? ∧
    ((Run.exec (step X) (new []) es').findCachedOrIndexed id).map Doc.content =
      found.map Doc.content := by
  intro ops found
  have hfound : found.map Doc.content = foldedDoc X ops := find_of_run hX hes hr hw
  refine ⟨hfound, ?_, ?_⟩
  · rw [← writetime_foldedDoc X, ← hfound, Option.map_map]
    rfl
  · rw [find_of_run hX hes' hr' (hops ▸ hw), hops, hfound]

/-! ## Two placements of the commits -/

/-- A commit and a reload after each operation, and none at all. -/
def committedEach (ops : List IndexOperation) : List Event :=
  ops.flatMap fun o => [.op true o, .commit .ok, .reload]

def uncommitted (ops : List IndexOperation) : List Event := ops.map (.op true)

theorem along_committedEach {X : Crates} {ops : List IndexOperation}
    (hops : ∀ o ∈ ops, o.type = .upsert ∧ SoundOp X true o) {s : Engine}
    (hr : s.reader = s.committed) :
    Run.Along (step X) (Upserting X) s (committedEach ops) ∧
      (Run.exec (step X) s (committedEach ops)).reader =
        (Run.exec (step X) s (committedEach ops)).committed := by
  induction ops generalizing s with
  | nil => exact ⟨trivial, hr⟩
  | cons o ops ih =>
    obtain ⟨ho, hops⟩ := List.forall_mem_cons.1 hops
    have hrest := @ih hops (Run.exec (step X) s [.op true o, .commit .ok, .reload]) rfl
    exact ⟨⟨⟨ho.1, ho.2, hr⟩, nofun, trivial, hrest.1⟩, hrest.2⟩

theorem along_uncommitted {X : Crates} {ops : List IndexOperation}
    (hops : ∀ o ∈ ops, o.type = .upsert ∧ SoundOp X true o) {s : Engine}
    (hr : s.reader = s.committed) :
    Run.Along (step X) (Upserting X) s (uncommitted ops) ∧
      (Run.exec (step X) s (uncommitted ops)).reader =
        (Run.exec (step X) s (uncommitted ops)).committed := by
  induction ops generalizing s with
  | nil => exact ⟨trivial, hr⟩
  | cons o ops ih =>
    obtain ⟨ho, hops⟩ := List.forall_mem_cons.1 hops
    have hframe := (processOp_step X true s o).frame
    have hrest := @ih hops (step X s (.op true o)) (hframe.2.1.trans (hr.trans hframe.1.symm))
    exact ⟨⟨⟨ho.1, ho.2, hr⟩, hrest.1⟩, hrest.2⟩

/-- Three upserts of one document, the second of them stale. -/
def sampleUpserts : List IndexOperation :=
  [sampleOp .upsert "a" "p" 10 "\x7b\"a\":1\x7d", sampleOp .upsert "a" "p" 5 "\x7b\"a\":1\x7d",
    sampleOp .upsert "a" "p" 20 "\x7b\"b\":2\x7d"]

theorem sampleUpserts_sound :
    ∀ o ∈ sampleUpserts, o.type = .upsert ∧ SoundOp sampleCrates true o := by
  intro o ho
  simp only [sampleUpserts, List.mem_cons, List.not_mem_nil, or_false] at ho
  rcases ho with rfl | rfl | rfl
  all_goals exact ⟨rfl, rfl, fun _ => ⟨⟨_, rfl, _, rfl, nofun⟩, by decide⟩⟩

theorem found_of_upserts_placed :
    let found := (Run.exec (step sampleCrates) (new [])
      (committedEach sampleUpserts)).findCachedOrIndexed "a"
    found.map Doc.content = foldedDoc sampleCrates sampleUpserts ∧
    found.map Doc.writetime = some 20 ∧
    ((Run.exec (step sampleCrates) (new [])
      (uncommitted sampleUpserts)).findCachedOrIndexed "a").map Doc.content =
      found.map Doc.content := by
  obtain ⟨hes, hr⟩ := @along_committedEach sampleCrates _ sampleUpserts_sound (new []) rfl
  obtain ⟨hes', hr'⟩ := @along_uncommitted sampleCrates _ sampleUpserts_sound (new []) rfl
  exact found_of_upserts sampleCrates_stores hes hr hes' hr' (by decide) "a"
    fun _ _ _ _ => Crates.ofTexts_asWritten ..

end Engine

end Tantylla
