/-
  The ids of a node as versioned registers.

  As long as each id stays in one partition, a batch acts on each id by itself: an
  upsert writes, a delete erases, and a delete of the id's partition clears.  Two
  registers show this:

  * `cells r`: the cached document and the live ones, where `r` is what the reader
    shows of the id; erasing uncovers `r`.  A batch is a run of it (`cell_exec`).
  * `lives`: the live documents alone.  A batch is a run of it as long as every
    lookup of the id is current (`live_exec`).
-/
import Tantylla.Node.Cell
import Tantylla.Lib.Register

namespace Tantylla

/-- A cached document without its generation. -/
def Doc.content (d : Doc) : Doc := { d with generation := 0 }

/-- The document an upsert makes, given the document found. -/
def IndexOperation.docFrom (X : Crates) (existing : Option Doc) (o : IndexOperation) : Doc where
  id := o.id
  partitionKey := o.partition
  doc := Engine.upsertBody X existing o
  expiresAt := o.expiresAt
  writetime := o.writetime
  generation := 0

theorem IndexOperation.docFrom_congr (X : Crates) {e e' : Option Doc} (o : IndexOperation)
    (h : e.map Doc.doc = e'.map Doc.doc) : o.docFrom X e = o.docFrom X e' := by
  simp only [docFrom, Engine.upsertBody, h]

namespace Engine

/-- One operation whose `add_document` succeeds. -/
def opStep (X : Crates) (s : Engine) (o : IndexOperation) : Engine := (processOp X true s o).1

theorem processOp_of_ne_failed {X : Crates} {addOk : Bool} {s : Engine} {o : IndexOperation}
    (h : (processOp X addOk s o).2 ≠ .failed) :
    (processOp X addOk s o).1 = opStep X s o := by
  cases addOk with
  | true => rfl
  | false =>
    unfold opStep
    unfold processOp at h ⊢
    cases ht : o.type with
    | upsert =>
      rw [ht] at h
      unfold upsert at h ⊢
      by_cases hs : isStale (s.findCachedOrIndexed o.id) o.writetime
      · simp only [hs, if_true]
      · cases hd : storedDoc X s o with
        | none => simp only [hs]
        | some d => simp [hs, hd] at h
    | delete | partitionDelete | unspecified => rfl

theorem processLoop_of_isSome {X : Crates} {addOk : ℕ → Bool} {ops : List IndexOperation} :
    ∀ {i : ℕ} {s : Engine} {p k : ℕ}, (processLoop X addOk i s p k ops).2.isSome →
      (processLoop X addOk i s p k ops).1 = Run.exec (opStep X) s ops := by
  induction ops with
  | nil => exact fun _ => rfl
  | cons o ops ih =>
    intro i s p k h
    have hne (hf : (processOp X (addOk i) s o).2 ≠ .failed) := processOp_of_ne_failed hf
    rw [processLoop] at h ⊢
    rw [Run.exec_cons]
    cases hsr : processOp X (addOk i) s o with
    | mk s' r =>
      rw [hsr] at h hne
      cases r with
      | failed => cases h
      | processed | stale | rejected | ignored =>
        rw [← hne (by simp)]
        exact ih h

theorem processBatch_of_isSome {X : Crates} {addOk : ℕ → Bool} {s : Engine}
    {ops : List IndexOperation} (h : (processBatch X addOk s ops).2.isSome) :
    (processBatch X addOk s ops).1 = Run.exec (opStep X) s ops := processLoop_of_isSome h

/-! ## One partition for each id -/

variable {part : String → String} {X : Crates} {s : Engine} {id : String}

/-- Every document of an id, live or cached, is of the partition of the id. -/
def Homed (part : String → String) (s : Engine) : Prop :=
  ∀ id, (∀ d ∈ s.live id, d.partitionKey = part id) ∧
    ∀ c, s.uncommittedDocs.get? id = some c → c.partitionKey = part id

/-- An upsert carries the partition of its id. -/
def KeepsHome (part : String → String) (o : IndexOperation) : Prop :=
  o.type = .upsert → o.partition = part o.id

theorem homed_new (part : String → String) : Homed part (new []) := by
  intro id
  constructor
  · intro d hd
    cases hd
  · intro c hc
    cases hc

theorem Homed.thin {s' : Engine} (h : Homed part s) (hl : ∀ id, s'.live id ⊆ s.live id)
    (hu : ∀ {id c}, s'.uncommittedDocs.get? id = some c → s.uncommittedDocs.get? id = some c) :
    Homed part s' := fun id =>
  ⟨fun d hd => (h id).1 d (hl id hd), fun c hc => (h id).2 c (hu hc)⟩

theorem Homed.op {addOk : Bool} {s' : Engine} {o : IndexOperation} {r : Outcome} (hX : X.Lawful)
    (h : Homed part s) (ho : KeepsHome part o) (hs : OpStep X addOk s o s' r) : Homed part s' := by
  have hcached (ht : o.type = .upsert) (id : String) (c : Doc)
      (hc : (s.uncommittedDocs.insert o.id (upsertDoc X s o)).get? id = some c) :
      c.partitionKey = part id := by
    rw [OrdMap.get?_insert] at hc
    split_ifs at hc with hid
    · cases hc; rw [hid]; exact ho ht
    · exact (h id).2 c hc
  cases hs with
  | ignored | stale => exact h
  | stored d ht _ hd =>
    refine fun id => ⟨fun e he => ?_, hcached ht id⟩
    rw [live_stored (hX.storedDoc_fields hd).1] at he
    split_ifs at he with hid
    · rw [List.mem_singleton.1 he, hid, (hX.storedDoc_fields hd).2.1]; exact ho ht
    · exact (h id).1 e he
  | rejected ht | failed _ ht =>
    refine fun id => ⟨fun e he => ?_, hcached ht id⟩
    rw [live_staged] at he
    split_ifs at he with hid
    · cases he
    · exact (h id).1 e he
  | erased =>
    refine h.thin (fun id e he => ?_) fun hc => OrdMap.of_retain hc
    rw [live_erased] at he
    split_ifs at he with hid
    · cases he
    · exact he
  | cleared =>
    refine h.thin (fun id e he => ?_) fun hc => OrdMap.of_retain hc
    rw [live_cleared] at he
    exact List.mem_of_mem_filter he

/-- What a delete of a partition leaves of an id. -/
theorem Homed.cleared (h : Homed part s) (id pk : String) :
    (s.cleared pk).live id = (if pk = part id then [] else s.live id) ∧
    (s.cleared pk).uncommittedDocs.get? id =
      if pk = part id then none else s.uncommittedDocs.get? id := by
  split_ifs with hpk
  · subst hpk
    exact ⟨live_cleared_of_same (h id).1, get?_cleared_of_same (h id).2⟩
  · exact ⟨live_cleared_of_other fun d hd he => hpk (he ▸ (h id).1 d hd),
      get?_cleared_of_other fun c hc he => hpk (he ▸ (h id).2 c hc)⟩

/-! ## The cached document and the live ones -/

/-- What a state holds of one id. -/
structure Cell where
  cached : Option Doc
  live : List TantivyDoc

/-- What the state `s` holds of `id`. -/
def cell (s : Engine) (id : String) : Cell where
  cached := (s.uncommittedDocs.get? id).map Doc.content
  live := s.live id

/-- What the reader shows of `id`. -/
def snapshot (s : Engine) (id : String) : Option Doc :=
  (docsOf id s.reader).head?.map TantivyDoc.asDoc

theorem find_content (s : Engine) (id : String) :
    (s.findCachedOrIndexed id).map Doc.content = (s.cell id).cached.or (s.snapshot id) := by
  rw [find_eq, cell]
  cases s.uncommittedDocs.get? id with
  | some c => rfl
  | none => cases h : (docsOf id s.reader).head? <;> simp [snapshot, h]; rfl

/-- The register of an id of which the reader shows `r`. -/
def cells (r : Option Doc) : Register Cell where
  ver c := (c.cached.or r).map Doc.writetime
  reset := ⟨none, []⟩

/-- What an upsert writes. -/
def writeCell (X : Crates) (r : Option Doc) (o : IndexOperation) (c : Cell) : Cell where
  cached := some (o.docFrom X (c.cached.or r))
  live := (X.parseJson (o.docFrom X (c.cached.or r)).fullDocWrapper).toList

/-- The operation as one on the register of `id`, if it concerns it. -/
def cellOp (X : Crates) (r : Option Doc) (part : String → String) (id : String)
    (o : IndexOperation) : Option (cells r).Op :=
  match o.type with
  | .upsert => if o.id = id then some (.write o.writetime (writeCell X r o) fun _ => rfl) else none
  | .delete => if o.id = id then some (.erase o.writetime) else none
  | .partitionDelete => if o.partition = part id then some .clear else none
  | .unspecified => none

theorem stale_cells (s : Engine) (id : String) (w : ℕ) :
    (cells (s.snapshot id)).stale (s.cell id) w = isStale (s.findCachedOrIndexed id) w := by
  show Option.any _ (((s.cell id).cached.or (s.snapshot id)).map Doc.writetime) = _
  rw [← find_content, isStale]
  cases s.findCachedOrIndexed id <;> rfl

/-- An upsert makes the same document from the register as from the lookup. -/
theorem content_upsertDoc (X : Crates) (s : Engine) (o : IndexOperation) :
    (upsertDoc X s o).content =
      o.docFrom X ((s.cell o.id).cached.or (s.snapshot o.id)) := by
  rw [← find_content]
  exact o.docFrom_congr X (by cases s.findCachedOrIndexed o.id <;> rfl)

theorem storedDoc_eq (X : Crates) (s : Engine) (o : IndexOperation) : storedDoc X s o =
    X.parseJson (o.docFrom X ((s.cell o.id).cached.or (s.snapshot o.id))).fullDocWrapper := by
  rw [← content_upsertDoc]; rfl

theorem cell_of_upsert (X : Crates) (s : Engine) (o : IndexOperation) {s' : Engine}
    {l : List TantivyDoc} (hl : s'.live id = if id = o.id then l else s.live id)
    (hu : s'.uncommittedDocs = s.uncommittedDocs.insert o.id (upsertDoc X s o)) :
    s'.cell id = if o.id = id then ⟨some (upsertDoc X s o).content, l⟩ else s.cell id := by
  rw [cell, hl, hu]
  split_ifs with h h' h'
  · rw [h, OrdMap.get?_insert_self]; rfl
  · exact absurd h.symm h'
  · exact absurd h'.symm h
  · rw [OrdMap.get?_insert_ne _ h]; rfl

theorem cell_erased (s : Engine) (id id' : String) :
    (s.erased id').cell id = if id' = id then ⟨none, []⟩ else s.cell id := by
  rw [cell, live_erased, uncommittedDocs_erased]
  split_ifs with h h' h'
  · rw [h, OrdMap.get?_remove_self]; rfl
  · exact absurd h.symm h'
  · exact absurd h'.symm h
  · rw [OrdMap.get?_remove_ne _ h]; rfl

theorem Homed.cell_cleared (h : Homed part s) (id pk : String) :
    (s.cleared pk).cell id = if pk = part id then ⟨none, []⟩ else s.cell id := by
  rw [cell, (h.cleared id pk).1, (h.cleared id pk).2]
  split_ifs <;> rfl

theorem act_cells {a : (cells (s.snapshot id)).Op} {w : ℕ} (ha : a.version = some w) :
    (cells (s.snapshot id)).act (s.cell id) a =
      if isStale (s.findCachedOrIndexed id) w then s.cell id else a.effect (s.cell id) := by
  rw [← stale_cells, Register.act, Register.skips, ha]; rfl

/-- An operation on `id` carries its writetime, one on another id does not show. -/
theorem cellOp_eq (X : Crates) (r : Option Doc) (part : String → String) (id : String)
    {o : IndexOperation} (ht : o.type = .upsert ∨ o.type = .delete) :
    if o.id = id then ∃ a, cellOp X r part id o = some a ∧ a.version = some o.writetime
    else cellOp X r part id o = none := by
  split_ifs with hid
  · rcases ht with ht | ht
    · exact ⟨_, by rw [cellOp, ht]; exact if_pos hid, rfl⟩
    · exact ⟨_, by rw [cellOp, ht]; exact if_pos hid, rfl⟩
  · rcases ht with ht | ht
    · rw [cellOp, ht]; exact if_neg hid
    · rw [cellOp, ht]; exact if_neg hid

/-- An upsert that is not stale writes its document, if that is accepted. -/
theorem cell_written {o : IndexOperation} {s' : Engine} (ht : o.type = .upsert)
    (hst : ¬ isStale (s.findCachedOrIndexed o.id) o.writetime)
    (hl : s'.live id = if id = o.id then (storedDoc X s o).toList else s.live id)
    (hu : s'.uncommittedDocs = s.uncommittedDocs.insert o.id (upsertDoc X s o)) :
    s'.cell id = (cellOp X (s.snapshot id) part id o).elim (s.cell id)
      ((cells (s.snapshot id)).act (s.cell id)) := by
  rw [cell_of_upsert X s o hl hu]
  by_cases hid : o.id = id
  · subst hid
    simp only [cellOp, ht, if_true, Option.elim]
    rw [act_cells rfl, if_neg hst, content_upsertDoc, storedDoc_eq]; rfl
  · simp [cellOp, ht, hid]

/-- **An operation acts on the register of each id by itself.** -/
theorem cell_op (hX : X.Lawful) {o : IndexOperation} {s' : Engine} {r : Outcome}
    (hs : o.type = .partitionDelete → Homed part s) (ho : OpStep X true s o s' r) :
    s'.cell id = (cellOp X (s.snapshot id) part id o).elim (s.cell id)
      ((cells (s.snapshot id)).act (s.cell id)) := by
  cases ho with
  | ignored ht => simp [cellOp, ht]
  | stale ht hst =>
    have heq := cellOp_eq X (s.snapshot id) part id ht
    split_ifs at heq with hid
    · obtain ⟨a, ha, hv⟩ := heq
      rw [ha, Option.elim, act_cells hv, if_pos (hid ▸ hst)]
    · rw [heq]; rfl
  | stored d ht hst hd =>
    refine cell_written ht hst ?_ rfl
    rw [hd]; exact live_stored (hX.storedDoc_fields hd).1 id
  | rejected ht hst hd =>
    refine cell_written ht hst ?_ rfl
    rw [hd]; exact live_staged ..
  | failed _ _ _ _ hok => cases hok
  | erased ht hst =>
    rw [cell_erased]
    by_cases hid : o.id = id
    · subst hid
      simp only [cellOp, ht, if_true, Option.elim]
      rw [act_cells rfl, if_neg hst]; rfl
    · simp [cellOp, ht, hid]
  | cleared ht =>
    rw [(hs ht).cell_cleared]
    by_cases hpk : o.partition = part id
    · simp only [cellOp, ht, hpk, if_true, Option.elim]; rfl
    · simp [cellOp, ht, hpk]

/-- If the batch deletes a partition, each id stays in one, before the batch and in it. -/
def HomedFor (part : String → String) (s : Engine) (ops : List IndexOperation) : Prop :=
  (∃ o ∈ ops, o.type = .partitionDelete) → Homed part s ∧ ∀ o ∈ ops, KeepsHome part o

theorem HomedFor.mono {ops ops' : List IndexOperation} (h : HomedFor part s ops)
    (hsub : ops' ⊆ ops) : HomedFor part s ops' := by
  rintro ⟨o, ho, ht⟩
  obtain ⟨hs, hops⟩ := h ⟨o, hsub ho, ht⟩
  exact ⟨hs, fun o ho => hops o (hsub ho)⟩

theorem frame_exec (X : Crates) (s : Engine) (ops : List IndexOperation) :
    (Run.exec (opStep X) s ops).reader = s.reader ∧
      (Run.exec (opStep X) s ops).committed = s.committed := by
  refine Run.exec_inv (I := fun t : Engine => t.reader = s.reader ∧ t.committed = s.committed)
    (fun t o ht => ?_) ops ⟨rfl, rfl⟩
  have hstep := processOp_step X true t o
  exact ⟨hstep.frame.2.1.trans ht.1, hstep.frame.1.trans ht.2⟩

theorem snapshot_exec (X : Crates) (s : Engine) (ops : List IndexOperation) (id : String) :
    (Run.exec (opStep X) s ops).snapshot id = s.snapshot id := by
  rw [snapshot, (frame_exec X s ops).1]; rfl

theorem Homed.exec (hX : X.Lawful) (hs : Homed part s) {ops : List IndexOperation}
    (hops : ∀ o ∈ ops, KeepsHome part o) : Homed part (Run.exec (opStep X) s ops) :=
  (Run.along_of_forall hops).inv (I := Homed part)
    (fun t o ht ho => ht.op hX ho (processOp_step X true t o)) hs

/-- **A batch is a run of the register of each id.** -/
theorem cell_exec (hX : X.Lawful) {ops : List IndexOperation} (hs : HomedFor part s ops)
    (id : String) : (Run.exec (opStep X) s ops).cell id =
      Run.exec (cells (s.snapshot id)).act (s.cell id)
        (ops.filterMap (cellOp X (s.snapshot id) part id)) := by
  have hsnap (t : Engine) (o : IndexOperation) : (opStep X t o).snapshot id = t.snapshot id :=
    snapshot_exec X t [o] id
  by_cases hpd : ∃ o ∈ ops, o.type = .partitionDelete
  · obtain ⟨hs, hops⟩ := hs hpd
    refine Run.exec_project (π := fun t => t.cell id)
      (I := fun t => Homed part t ∧ t.snapshot id = s.snapshot id)
      (P := fun _ o => KeepsHome part o) ?_ ?_ (Run.along_of_forall hops) ⟨hs, rfl⟩
    · intro t o ht ho
      exact ⟨ht.1.op hX ho (processOp_step X true t o), (hsnap t o).trans ht.2⟩
    · intro t o ht _
      rw [← ht.2]
      exact cell_op hX (fun _ => ht.1) (processOp_step X true t o)
  · have hops : ∀ o ∈ ops, o.type ≠ .partitionDelete := fun o ho ht => hpd ⟨o, ho, ht⟩
    refine Run.exec_project (π := fun t : Engine => t.cell id)
      (I := fun t : Engine => t.snapshot id = s.snapshot id)
      (P := fun _ (o : IndexOperation) => o.type ≠ .partitionDelete) ?_ ?_
      (Run.along_of_forall hops) rfl
    · intro t o ht _
      exact (hsnap t o).trans ht
    · intro t o ht ho
      rw [← ht]
      exact cell_op hX (fun hpd => absurd hpd ho) (processOp_step X true t o)

/-! ## The live documents -/

/-- A lookup of `id` is current: it finds the body and the writetime of the live document,
    and nothing if there is none. -/
def Current (id : String) (s : Engine) : Prop :=
  (s.findCachedOrIndexed id).map (fun c => (c.doc, c.writetime)) =
    (s.live id).head?.map fun d => (d.body, d.writetime)

instance (id : String) (s : Engine) : Decidable (Current id s) :=
  inferInstanceAs (Decidable (_ = _))

/-- The register of the live documents of an id. -/
def lives : Register (List TantivyDoc) where
  ver l := l.head?.map TantivyDoc.writetime
  reset := []

/-- The document that an upsert makes of the empty object is accepted. -/
def accepted (X : Crates) (o : IndexOperation) : Bool :=
  (X.parseJson (o.docFrom X none).fullDocWrapper).isSome

/-- What an upsert that is accepted writes. -/
def writeLive (X : Crates) (o : IndexOperation) (l : List TantivyDoc) : List TantivyDoc :=
  (X.parseJson (o.docFrom X (l.head?.map TantivyDoc.asDoc)).fullDocWrapper).toList

/-- The body of an upsert is an object whatever it is merged into, or it is the payload. -/
theorem upsertBody_isObj_or (X : Crates) (o : IndexOperation) :
    (∀ e, (upsertBody X e o).IsObj) ∨ ∀ e e', upsertBody X e o = upsertBody X e' o := by
  by_cases hp : ((X.fromStr o.payloadJson).getD .null).IsObj
  · refine Or.inl fun e => ?_
    have hm (a : Json) : (mergeJson a ((X.fromStr o.payloadJson).getD .null)).HasKeys [] :=
      mergeJson_hasKeys hp (Or.inr (hp.elim fun m hm => ⟨m, hm, nofun⟩))
    unfold upsertBody
    split_ifs
    · exact (hm _).isObj
    · exact (applyCollectionDeltas_hasKeys _ (hm _)).isObj
  · refine Or.inr fun e e' => ?_
    simp only [upsertBody, mergeJson_of_not_isObj _ hp]

/-- Whether an upsert is accepted does not depend on what it is merged into. -/
theorem accepted_iff (hX : X.Lawful) (o : IndexOperation) (e : Option Doc) :
    (X.parseJson (o.docFrom X e).fullDocWrapper).isSome ↔ accepted X o := by
  have hobj (hb : ∀ e, (upsertBody X e o).IsObj) (e e' : Option Doc)
      (h : (X.parseJson (o.docFrom X e).fullDocWrapper).isSome) :
      (X.parseJson (o.docFrom X e').fullDocWrapper).isSome := by
    obtain ⟨t, ht⟩ := Option.isSome_iff_exists.1 h
    have hw : ((o.docFrom X e').writetime : ℤ) ≤ i64Max :=
      (hX.fields _ _ ht).2.2.2 ▸ t.writetime_fits
    exact hX.accepts (o.docFrom X e') (hb e') o.expiresAt_fits hw
  rcases upsertBody_isObj_or X o with hb | hb
  · exact ⟨hobj hb e none, hobj hb none e⟩
  · have : o.docFrom X e = o.docFrom X none := by
      simp only [IndexOperation.docFrom, hb e none]
    rw [this, accepted]

theorem ver_writeLive (hX : X.Lawful) {o : IndexOperation} (h : accepted X o)
    (l : List TantivyDoc) : lives.ver (writeLive X o l) = some o.writetime := by
  obtain ⟨t, ht⟩ := Option.isSome_iff_exists.1
    ((accepted_iff hX o (l.head?.map TantivyDoc.asDoc)).2 h)
  unfold writeLive
  rw [ht]
  exact congrArg some (hX.fields _ _ ht).2.2.2

/-- The operation as one on the live documents of `id`, if it concerns it; an upsert that
    is not accepted erases. -/
def liveOp (hX : X.Lawful) (part : String → String) (id : String) (o : IndexOperation) :
    Option lives.Op :=
  match o.type with
  | .upsert =>
    if o.id = id then
      if h : accepted X o then some (.write o.writetime (writeLive X o) (ver_writeLive hX h))
      else some (.erase o.writetime)
    else none
  | .delete => if o.id = id then some (.erase o.writetime) else none
  | .partitionDelete => if o.partition = part id then some .clear else none
  | .unspecified => none

theorem Current.stale (h : Current id s) (w : ℕ) :
    lives.stale (s.live id) w = isStale (s.findCachedOrIndexed id) w := by
  have hw := congrArg (Option.map Prod.snd) h
  rw [Option.map_map, Option.map_map] at hw
  show Option.any _ ((s.live id).head?.map TantivyDoc.writetime) = _
  rw [show (s.live id).head?.map TantivyDoc.writetime = _ from hw.symm, isStale]
  cases s.findCachedOrIndexed id <;> rfl

theorem Current.act (h : Current id s) {a : lives.Op} {w : ℕ} (ha : a.version = some w) :
    lives.act (s.live id) a =
      if isStale (s.findCachedOrIndexed id) w then s.live id else a.effect (s.live id) := by
  rw [← h.stale, Register.act, Register.skips, ha]; rfl

/-- An operation on `id` carries its writetime, one on another id does not show. -/
theorem liveOp_eq (hX : X.Lawful) (part : String → String) (id : String) {o : IndexOperation}
    (ht : o.type = .upsert ∨ o.type = .delete) :
    if o.id = id then ∃ a, liveOp hX part id o = some a ∧ a.version = some o.writetime
    else liveOp hX part id o = none := by
  split_ifs with hid
  · rcases ht with ht | ht
    · by_cases hacc : accepted X o
      · refine ⟨.write o.writetime (writeLive X o) (ver_writeLive hX hacc), ?_, rfl⟩
        simp only [liveOp, ht, hid, hacc, dif_pos, if_true]
      · refine ⟨.erase o.writetime, ?_, rfl⟩
        simp only [liveOp, ht, hid, hacc, if_true]; rfl
    · exact ⟨_, by rw [liveOp, ht]; exact if_pos hid, rfl⟩
  · rcases ht with ht | ht
    · rw [liveOp, ht]; exact if_neg hid
    · rw [liveOp, ht]; exact if_neg hid

/-- An upsert whose lookup is current makes the document it makes of the live one. -/
theorem Current.storedDoc {o : IndexOperation} (h : Current o.id s) : storedDoc X s o =
    X.parseJson (o.docFrom X ((s.live o.id).head?.map TantivyDoc.asDoc)).fullDocWrapper := by
  have hb := congrArg (Option.map Prod.fst) h
  rw [Option.map_map, Option.map_map] at hb
  rw [← o.docFrom_congr X (e := s.findCachedOrIndexed o.id)
    (hb.trans (by rw [Option.map_map]; rfl))]
  rfl

/-- **With a current lookup an operation acts on the live documents of each id by
    themselves.** -/
theorem live_op (hX : X.Lawful) {o : IndexOperation} {s' : Engine} {r : Outcome}
    (hs : o.type = .partitionDelete → Homed part s)
    (hc : o.type = .upsert ∨ o.type = .delete → o.id = id → Current id s)
    (ho : OpStep X true s o s' r) :
    s'.live id = (liveOp hX part id o).elim (s.live id) (lives.act (s.live id)) := by
  cases ho with
  | ignored ht => simp [liveOp, ht]
  | stale ht hst =>
    have heq := liveOp_eq hX part id ht
    split_ifs at heq with hid
    · obtain ⟨a, ha, hv⟩ := heq
      rw [ha, Option.elim, (hc ht hid).act hv, if_pos (hid ▸ hst)]
    · rw [heq]; rfl
  | stored d ht hst hd =>
    rw [live_stored (hX.storedDoc_fields hd).1]
    by_cases hid : o.id = id
    · subst hid
      have hcur := hc (Or.inl ht) rfl
      rw [hcur.storedDoc] at hd
      have hacc : accepted X o := (accepted_iff hX o _).1 (by rw [hd]; rfl)
      simp only [liveOp, ht, hacc, if_true, dif_pos, Option.elim]
      rw [hcur.act rfl, if_neg hst]
      simp only [Register.Op.effect, writeLive, hd, Option.toList]
    · simp [liveOp, ht, hid, Ne.symm hid]
  | rejected ht hst hd =>
    rw [live_staged]
    by_cases hid : o.id = id
    · subst hid
      have hcur := hc (Or.inl ht) rfl
      rw [hcur.storedDoc] at hd
      have hacc : ¬ accepted X o := by
        rw [← accepted_iff hX o ((s.live o.id).head?.map TantivyDoc.asDoc), hd]
        exact nofun
      simp only [liveOp, ht, hacc, if_true]
      exact ((hcur.act (a := .erase o.writetime) rfl).trans (if_neg hst)).symm
    · simp [liveOp, ht, hid, Ne.symm hid]
  | failed _ _ _ _ hok => cases hok
  | erased ht hst =>
    rw [live_erased]
    by_cases hid : o.id = id
    · subst hid
      simp only [liveOp, ht, if_true, Option.elim]
      rw [(hc (Or.inr ht) rfl).act rfl, if_neg hst]; rfl
    · simp [liveOp, ht, hid, Ne.symm hid]
  | cleared ht =>
    rw [((hs ht).cleared id _).1]
    by_cases hpk : o.partition = part id
    · simp only [liveOp, ht, hpk, if_true, Option.elim]; rfl
    · simp [liveOp, ht, hpk]

/-- The lookups of `id` are current before every upsert and delete of it. -/
def CurrentAt (id : String) (s : Engine) (o : IndexOperation) : Prop :=
  o.type = .upsert ∨ o.type = .delete → o.id = id → Current id s

/-- **With current lookups a batch is a run of the live documents of each id.** -/
theorem live_exec (hX : X.Lawful) (hs : Homed part s) {ops : List IndexOperation}
    (hops : ∀ o ∈ ops, KeepsHome part o) {id : String}
    (hc : Run.Along (opStep X) (CurrentAt id) s ops) :
    (Run.exec (opStep X) s ops).live id =
      Run.exec lives.act (s.live id) (ops.filterMap (liveOp hX part id)) := by
  refine Run.exec_project (π := fun t => t.live id) (I := Homed part)
    (P := fun t o => KeepsHome part o ∧ CurrentAt id t o) ?_ ?_
    ((Run.along_of_forall hops).and hc) hs
  · intro t o ht ho
    exact ht.op hX ho.1 (processOp_step X true t o)
  · intro t o ht ho
    exact live_op hX (fun _ => ht) ho.2 (processOp_step X true t o)

end Engine

end Tantylla
