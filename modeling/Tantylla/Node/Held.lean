/-
  What the documents of an id keep through a run.

  `Held Q id s`: the id has a live document, every version of it that a lookup can
  reach satisfies `Q` (of its body and writetime), and where nothing is cached the
  last commit shows the live documents.  `Held.step` says under which conditions on
  an event this is kept; it is used twice:

  * `upsert_keeps_columns` (`Q`: the body holds the columns): an upsert keeps the
    columns written before it, as long as the lookups do not lag behind the last
    commit;
  * `older_is_stale` (`Q`: the writetime is at least that of an upsert): what is
    older than a processed upsert is skipped, as long as its document stays.
-/
import Tantylla.Node.Cell
import Tantylla.Node.Wrapper

namespace Tantylla

namespace Engine

/-- Every version of the documents of `id` that a lookup can reach satisfies `Q`. -/
structure Held (Q : Json → ℕ → Prop) (id : String) (s : Engine) : Prop where
  exists_live : s.live id ≠ []
  live : ∀ d ∈ s.live id, Q d.body d.writetime
  cached : ∀ c, s.uncommittedDocs.get? id = some c → Q c.doc c.writetime
  committed : s.uncommittedDocs.get? id = none → docsOf id s.committed = s.live id

/-- A lookup of `id` does not lag behind the last commit: the id is cached, or the
    reader serves the documents of the last commit. -/
def CaughtUp (id : String) (s : Engine) : Prop :=
  (s.uncommittedDocs.get? id).isSome ∨ docsOf id s.reader = docsOf id s.committed

/-- The event does not take the document of `id` away: no delete of it that is not stale,
    no partition delete of its partition, no pruning of it, and no crash while the last
    commit does not show it. -/
def Spares (id : String) (s : Engine) : Event → Prop
  | .op _ o =>
    (o.type = .delete → o.id = id → isStale (s.findCachedOrIndexed id) o.writetime) ∧
    (o.type = .partitionDelete → (∀ d ∈ s.live id, d.partitionKey ≠ o.partition) ∧
      ∀ c, s.uncommittedDocs.get? id = some c → c.partitionKey ≠ o.partition)
  | .prune now r => r = .ok ∨ r = .commitFailed → ∀ d ∈ s.live id, now < d.expiresAt
  | .crash => docsOf id s.committed = s.live id
  | .commit _ | .reload => True

namespace Held

variable {X : Crates} {Q : Json → ℕ → Prop} {id : String} {s : Engine}

/-- A lookup that does not lag finds a version that satisfies `Q`. -/
theorem find (h : Held Q id s) (hc : CaughtUp id s) :
    ∃ c, s.findCachedOrIndexed id = some c ∧ Q c.doc c.writetime := by
  cases hg : s.uncommittedDocs.get? id with
  | some c => exact ⟨c, find_of_cached hg, h.cached c hg⟩
  | none =>
    have hr : docsOf id s.reader = s.live id := by
      rcases hc with hc | hc
      · rw [hg] at hc; cases hc
      · rw [hc, h.committed hg]
    obtain ⟨d, l, hl⟩ := List.exists_cons_of_ne_nil h.exists_live
    refine ⟨d.asDoc, ?_, h.live d (hl ▸ List.mem_cons_self ..)⟩
    rw [find_of_not_cached hg, hr, hl]; rfl

theorem congr {s' : Engine} (h : Held Q id s) (hl : s'.live id = s.live id)
    (hu : s'.uncommittedDocs.get? id = s.uncommittedDocs.get? id)
    (hc : docsOf id s'.committed = docsOf id s.committed) : Held Q id s' where
  exists_live := hl ▸ h.exists_live
  live := hl ▸ h.live
  cached := hu ▸ h.cached
  committed := by rw [hu, hl, hc]; exact h.committed

theorem of_committed {s' : Engine} (h : Held Q id s) (hl : s'.live id = s.live id)
    (hu : ∀ c, s'.uncommittedDocs.get? id = some c → s.uncommittedDocs.get? id = some c)
    (hc : docsOf id s'.committed = s.live id) : Held Q id s' where
  exists_live := hl ▸ h.exists_live
  live := hl ▸ h.live
  cached c hg := h.cached c (hu c hg)
  committed _ := by rw [hc, hl]

theorem stored (hX : X.Lawful) {o : IndexOperation} {d : TantivyDoc} (ho : o.id = id)
    (hd : storedDoc X s o = some d) (hq : Q d.body d.writetime)
    (hq' : Q (upsertDoc X s o).doc o.writetime) :
    Held Q id ((staged X s o).addDocument d) := by
  have hl : ((staged X s o).addDocument d).live id = [d] := by
    rw [live_stored (hX.storedDoc_fields hd).1, if_pos ho.symm]
  have hu : ((staged X s o).addDocument d).uncommittedDocs.get? id = some (upsertDoc X s o) :=
    ho ▸ OrdMap.get?_insert_self ..
  refine ⟨by simp [hl], ?_, ?_, ?_⟩
  · intro e he
    rw [hl, List.mem_singleton] at he
    exact he ▸ hq
  · intro c hc
    rw [hu, Option.some.injEq] at hc
    exact hc ▸ hq'
  · intro hn
    rw [hu] at hn; cases hn

theorem op (hX : X.Lawful) {addOk : Bool} {o : IndexOperation} {s' : Engine} {r : Outcome}
    (h : Held Q id s) (hsp : Spares id s (.op addOk o)) (ho : OpStep X addOk s o s' r)
    (hup : o.type = .upsert → o.id = id →
      ¬ isStale (s.findCachedOrIndexed o.id) o.writetime → r = .processed ∧
        ∀ d, storedDoc X s o = some d →
          Q d.body d.writetime ∧ Q (upsertDoc X s o).doc o.writetime) : Held Q id s' := by
  obtain ⟨hdel, hpd⟩ := hsp
  have hother (hne : o.type = .upsert ∨ o.type = .delete → o.id ≠ id) : Held Q id s' :=
    h.congr (ho.live_of_other hX hne fun ht => (hpd ht).1)
      (ho.cached_of_other hne fun ht => (hpd ht).2) (congrArg (docsOf id) ho.frame.1)
  by_cases hid : o.id = id
  · cases ho with
    | ignored | stale => exact h
    | stored d ht hs hd =>
      obtain ⟨-, hq⟩ := hup ht hid hs
      exact .stored hX hid hd (hq d hd).1 (hq d hd).2
    | rejected ht hs => cases (hup ht hid hs).1
    | failed d ht hs => cases (hup ht hid hs).1
    | erased ht hs => exact absurd (hid ▸ hdel ht hid) hs
    | cleared ht => exact hother (by rw [ht]; exact nofun)
  · exact hother fun _ => hid

/-- **What an event keeps of the documents of an id**: all of it, if the event spares the
    id and every upsert on the id that is not stale is processed and keeps `Q`. -/
theorem step (hX : X.Lawful) {e : Event} (h : Held Q id s) (hsp : Spares id s e)
    (hup : ∀ addOk o, e = .op addOk o → o.type = .upsert → o.id = id →
      ¬ isStale (s.findCachedOrIndexed o.id) o.writetime →
      (processOp X addOk s o).2 = .processed ∧ ∀ d, storedDoc X s o = some d →
        Q d.body d.writetime ∧ Q (upsertDoc X s o).doc o.writetime) :
    Held Q id (step X s e) := by
  cases e with
  | op addOk o => exact h.op hX hsp (processOp_step X addOk s o) (hup addOk o rfl)
  | commit r =>
    by_cases hr : r = .ok
    · subst hr
      exact h.of_committed rfl (fun c hc => OrdMap.of_retain hc) rfl
    · obtain ⟨hc, hu⟩ := s.committerTick_of_ne_ok hr
      exact h.congr (live_committerTick ..) (congrArg (OrdMap.get? · id) hu)
        (congrArg (docsOf id) hc)
  | reload => exact h.congr rfl rfl rfl
  | prune now r =>
    have hl (hr : r = .ok ∨ r = .commitFailed) : (s.prune now).live id = s.live id := by
      rw [live_prune]
      exact List.filter_eq_self.2 fun d hd => by simp [hsp hr d hd]
    cases r with
    | ok => exact h.of_committed (hl (Or.inl rfl)) (fun _ hc => hc) (hl (Or.inl rfl))
    | commitFailed => exact h.congr (hl (Or.inr rfl)) rfl rfl
    | queryFailed | contended => exact h
  | crash => exact h.of_committed hsp (fun c hc => by cases hc) hsp

end Held

/-! ## Columns -/

/-- The operation's payload is an object with the columns `ks`. -/
def PayloadHas (X : Crates) (ks : List String) (o : IndexOperation) : Prop :=
  ∃ p, X.fromStr o.payloadJson = some p ∧ p.HasKeys ks

theorem PayloadHas.isObj {X : Crates} {ks : List String} {o : IndexOperation}
    (h : PayloadHas X ks o) : PayloadHas X [] o := by
  obtain ⟨p, hp, m, hm, -⟩ := h
  exact ⟨p, hp, m, hm, fun k hk => by cases hk⟩

/-- An upsert on `id` that is not stale looks up a version that does not lag behind the
    last commit, has an object for its payload and a writetime that fits `i64`, and is
    added. -/
def Careful (X : Crates) (id : String) (s : Engine) : Event → Prop
  | .op addOk o => o.type = .upsert → o.id = id →
    ¬ isStale (s.findCachedOrIndexed o.id) o.writetime →
    CaughtUp id s ∧ PayloadHas X [] o ∧ (o.writetime : ℤ) ≤ i64Max ∧ addOk = true
  | _ => True

theorem upsertBody_hasKeys {X : Crates} {ks : List String} {existing : Option Doc}
    {o : IndexOperation} (hp : PayloadHas X [] o)
    (h : (∃ c, existing = some c ∧ c.doc.HasKeys ks) ∨ PayloadHas X ks o) :
    (upsertBody X existing o).HasKeys ks := by
  obtain ⟨p, hp, hobj⟩ := hp
  have hm : (mergeJson ((existing.map Doc.doc).getD (.obj [])) p).HasKeys ks := by
    refine mergeJson_hasKeys hobj.isObj ?_
    rcases h with ⟨c, rfl, hc⟩ | ⟨p', hp', hks⟩
    · exact Or.inl hc
    · rw [hp, Option.some.injEq] at hp'
      exact Or.inr (hp' ▸ hks)
  unfold upsertBody
  rw [hp, Option.getD_some]
  split_ifs
  · exact hm
  · exact applyCollectionDeltas_hasKeys _ hm

theorem storedDoc_isSome {X : Crates} (hX : X.Lawful) {s : Engine} {o : IndexOperation}
    (hobj : (upsertDoc X s o).doc.IsObj) (hw : (o.writetime : ℤ) ≤ i64Max) :
    ∃ d, storedDoc X s o = some d :=
  Option.isSome_iff_exists.1 (hX.accepts (upsertDoc X s o) hobj o.expiresAt_fits hw)

/-- The body of a stored document is the one the upsert made, as the index keeps it. -/
theorem body_of_stored {X : Crates} (hX : X.Stores) {s : Engine} {o : IndexOperation}
    {d : TantivyDoc} (hobj : (upsertDoc X s o).doc.IsObj) (hd : storedDoc X s o = some d) :
    d.body = X.asStored (upsertDoc X s o).doc := by
  rw [TantivyDoc.body, hX.document _ _ hobj hd]; rfl

theorem body_hasKeys {X : Crates} (hX : X.Stores) {s : Engine} {o : IndexOperation}
    {d : TantivyDoc} {ks : List String} (hk : (upsertDoc X s o).doc.HasKeys ks)
    (hd : storedDoc X s o = some d) : d.body.HasKeys ks :=
  body_of_stored hX hk.isObj hd ▸ hk.mapText

theorem Held.upsertDoc_hasKeys {X : Crates} {ks : List String} {id : String} {s : Engine}
    {addOk : Bool} {o : IndexOperation} (h : Held (fun body _ => body.HasKeys ks) id s)
    (hc : Careful X id s (.op addOk o)) (ht : o.type = .upsert) (hid : o.id = id)
    (hs : ¬ isStale (s.findCachedOrIndexed o.id) o.writetime) :
    (upsertDoc X s o).doc.HasKeys ks := by
  obtain ⟨hcu, hp, -⟩ := hc ht hid hs
  obtain ⟨c, hc, hks⟩ := h.find hcu
  exact upsertBody_hasKeys hp (Or.inl ⟨c, hid ▸ hc, hks⟩)

/-- Careful events that spare the id keep its columns. -/
theorem Held.step_columns {X : Crates} (hX : X.Stores) {ks : List String} {id : String}
    (s : Engine) (e : Event) (h : Held (fun body _ => body.HasKeys ks) id s)
    (he : Spares id s e ∧ Careful X id s e) :
    Held (fun body _ => body.HasKeys ks) id (Engine.step X s e) := by
  refine h.step hX.toLawful he.1 fun addOk o heq ht hid hs => ?_
  subst heq
  have hk := h.upsertDoc_hasKeys he.2 ht hid hs
  obtain ⟨-, -, hw, rfl⟩ := he.2 ht hid hs
  obtain ⟨d, hd⟩ := storedDoc_isSome hX.toLawful hk.isObj hw
  exact ⟨by rw [processOp_of_stored X ht hs hd], fun d' hd' => ⟨body_hasKeys hX hk hd', hk⟩⟩

/-- **No column is lost between two processed upserts of an id**, if the id is spared
    between them and every upsert on it, the second included, is careful. -/
theorem upsert_keeps_columns {X : Crates} (hX : X.Stores) {s : Engine} {id : String}
    {o₁ o₂ : IndexOperation} {a₁ a₂ : Bool} {ks : List String} {es : List Event}
    (ht₁ : o₁.type = .upsert) (hid₁ : o₁.id = id) (ht₂ : o₂.type = .upsert) (hid₂ : o₂.id = id)
    (hp₁ : PayloadHas X ks o₁) (h₁ : (processOp X a₁ s o₁).2 = .processed)
    (hes : Run.Along (step X) (fun s e => Spares id s e ∧ Careful X id s e)
      (processOp X a₁ s o₁).1 (es ++ [.op a₂ o₂]))
    (h₂ : (processOp X a₂ (Run.exec (step X) (processOp X a₁ s o₁).1 es) o₂).2 = .processed) :
    ∃ d, (processOp X a₂ (Run.exec (step X) (processOp X a₁ s o₁).1 es) o₂).1.live id = [d] ∧
      d.body.HasKeys ks := by
  obtain ⟨hes, ⟨-, hc₂⟩, -⟩ := (Run.along_append ..).1 hes
  -- the first upsert stores the columns of its payload
  obtain ⟨-, d₁, hd₁, hs₁⟩ := stored_of_processed ht₁ h₁
  have hk₁ : (upsertDoc X s o₁).doc.HasKeys ks := upsertBody_hasKeys hp₁.isObj (Or.inr hp₁)
  have hheld : Held (fun body _ => body.HasKeys ks) id (processOp X a₁ s o₁).1 :=
    hs₁ ▸ .stored hX.toLawful hid₁ hd₁ (body_hasKeys hX hk₁ hd₁) hk₁
  -- the events between keep them, and the second upsert finds them
  have hheld := hes.inv (Held.step_columns hX) hheld
  obtain ⟨hst₂, d₂, hd₂, hs₂⟩ := stored_of_processed ht₂ h₂
  have hk₂ := hheld.upsertDoc_hasKeys hc₂ ht₂ hid₂ hst₂
  refine ⟨d₂, ?_, body_hasKeys hX hk₂ hd₂⟩
  rw [hs₂, live_stored (hX.storedDoc_fields hd₂).1, if_pos hid₂.symm]

/-- Two upserts with a commit and a reload between them. -/
theorem upsert_keeps_columns_reloaded :
    ∃ d, (processOp sampleCrates true
      (Run.exec (step sampleCrates) (processOp sampleCrates true (new [])
        (sampleOp .upsert "a" "p" 10 "\x7b\"a\":1\x7d")).1 [.commit .ok, .reload])
      (sampleOp .upsert "a" "p" 20 "\x7b\"b\":2\x7d")).1.live "a" = [d] ∧ d.body.HasKeys ["a"] := by
  refine upsert_keeps_columns sampleCrates_stores rfl rfl rfl rfl
    ⟨_, rfl, _, rfl, by decide⟩ (by decide) ?_ (by decide)
  refine ⟨⟨trivial, trivial⟩, ⟨trivial, trivial⟩, ⟨⟨nofun, nofun⟩, fun _ _ _ => ?_⟩, trivial⟩
  exact ⟨Or.inr (by decide), ⟨_, rfl, _, rfl, by decide⟩, by decide, rfl⟩

/-- With a commit between them and no reload, the second loses the column of the first. -/
theorem column_lost_at_commit :
    let o₁ := sampleOp .upsert "a" "p" 10 "\x7b\"a\":1\x7d"
    let o₂ := sampleOp .upsert "a" "p" 20 "\x7b\"b\":2\x7d"
    let s := (processOp sampleCrates true (new []) o₁).1
    let t := Run.exec (step sampleCrates) s [.commit .ok]
    PayloadHas sampleCrates ["a"] o₁ ∧ PayloadHas sampleCrates ["b"] o₂ ∧
    (processOp sampleCrates true (new []) o₁).2 = .processed ∧
    (processOp sampleCrates true t o₂).2 = .processed ∧
    (∀ d ∈ (processOp sampleCrates true t o₂).1.live "a", d.body = .obj [("b", .num (.int 2))]) ∧
    ¬ ∃ d, (processOp sampleCrates true t o₂).1.live "a" = [d] ∧ d.body.HasKeys ["a"] := by
  intro o₁ o₂ s t
  have hall : ∀ d ∈ (processOp sampleCrates true t o₂).1.live "a",
      d.body = .obj [("b", .num (.int 2))] := by decide
  refine ⟨⟨_, rfl, _, rfl, by decide⟩, ⟨_, rfl, _, rfl, by decide⟩, by decide, by decide, hall, ?_⟩
  rintro ⟨d, hd, m, hm, hk⟩
  rw [hall d (hd ▸ List.mem_cons_self ..), Json.obj.injEq] at hm
  subst hm
  exact absurd (hk "a" (List.mem_cons_self ..)) (by decide)

/-! ## Writetimes -/

/-- An operation runs with the reader at the last commit, and an upsert on `id` is not
    rejected and does not fail. -/
def Settled (X : Crates) (id : String) (s : Engine) : Event → Prop
  | .op addOk o => s.reader = s.committed ∧ (o.type = .upsert → o.id = id →
    (processOp X addOk s o).2 ≠ .rejected ∧ (processOp X addOk s o).2 ≠ .failed)
  | _ => True

/-- Such events, if they spare the id, keep a lower bound of its writetime. -/
theorem Held.step_writetime {X : Crates} (hX : X.Lawful) {w : ℕ} {id : String} (s : Engine)
    (e : Event) (h : Held (fun _ v => w ≤ v) id s) (he : Spares id s e ∧ Settled X id s e) :
    Held (fun _ v => w ≤ v) id (Engine.step X s e) := by
  refine h.step hX he.1 fun addOk o heq ht hid hs => ?_
  subst heq
  obtain ⟨hr, hout⟩ := he.2
  obtain ⟨hrej, hfail⟩ := hout ht hid
  -- the document found is older than the upsert
  obtain ⟨c, hc, hw⟩ := h.find (Or.inr (by rw [hr]))
  have hlt : w ≤ o.writetime := by
    have : ¬ o.writetime ≤ c.writetime := fun hle => hs (isStale_iff.2 ⟨c, hid ▸ hc, hle⟩)
    omega
  refine ⟨?_, fun d hd => ⟨(hX.storedDoc_fields hd).2.2.2 ▸ hlt, hlt⟩⟩
  have ho := processOp_step X addOk s o
  generalize processOp X addOk s o = sr at ho hrej hfail ⊢
  obtain ⟨s', r⟩ := sr
  cases ho with
  | ignored hi => rw [ht] at hi; cases hi
  | stale _ hst => exact absurd hst hs
  | stored | erased | cleared => rfl
  | rejected => exact absurd rfl hrej
  | failed => exact absurd rfl hfail

/-- **An operation older than an upsert that was processed is skipped and changes
    nothing**, if the upsert's document was spared since. -/
theorem older_is_stale {X : Crates} (hX : X.Lawful) {s : Engine} {id : String}
    {o o' : IndexOperation} {a a' : Bool} {es : List Event} (ht : o.type = .upsert)
    (hid : o.id = id) (h : (processOp X a s o).2 = .processed)
    (hes : Run.Along (step X) (fun s e => Spares id s e ∧ Settled X id s e)
      (processOp X a s o).1 es)
    (ht' : o'.type = .upsert ∨ o'.type = .delete) (hid' : o'.id = id)
    (hr : (Run.exec (step X) (processOp X a s o).1 es).reader =
      (Run.exec (step X) (processOp X a s o).1 es).committed)
    (hw : o'.writetime < o.writetime) :
    processOp X a' (Run.exec (step X) (processOp X a s o).1 es) o' =
      (Run.exec (step X) (processOp X a s o).1 es, .stale) := by
  obtain ⟨-, d, hd, hs⟩ := stored_of_processed ht h
  have hheld : Held (fun _ v => o.writetime ≤ v) id (processOp X a s o).1 :=
    hs ▸ .stored hX hid hd (hX.storedDoc_fields hd).2.2.2.ge le_rfl
  have hheld := hes.inv (Held.step_writetime hX) hheld
  obtain ⟨c, hc, hle⟩ := hheld.find (Or.inr (by rw [hr]))
  exact processOp_of_stale X a' ht' (isStale_iff.2 ⟨c, hid' ▸ hc, hw.le.trans hle⟩)

/-- An upsert written at `5` after one written at `10`. -/
theorem older_is_stale_upsert :
    processOp sampleCrates true (Run.exec (step sampleCrates) (processOp sampleCrates true (new [])
        (sampleOp .upsert "a" "p" 10 "\x7b\"a\":1\x7d")).1 [.commit .ok, .reload])
      (sampleOp .upsert "a" "p" 5 "\x7b\"b\":2\x7d") =
    (Run.exec (step sampleCrates) (processOp sampleCrates true (new [])
        (sampleOp .upsert "a" "p" 10 "\x7b\"a\":1\x7d")).1 [.commit .ok, .reload], .stale) :=
  older_is_stale sampleCrates_lawful rfl rfl (by decide)
    ⟨⟨trivial, trivial⟩, ⟨trivial, trivial⟩, trivial⟩ (Or.inl rfl) rfl rfl (by decide)

/-- An upsert written at `15` brings back a row that a delete written at `20` removed. -/
theorem older_upsert_after_delete :
    let run := Run.exec (step sampleCrates) (new [])
    let del := sampleOp .delete "a" "p" 20 ""
    let es := [.op true (sampleOp .upsert "a" "p" 10 "\x7b\"a\":1\x7d"), .op true del]
    let o := sampleOp .upsert "a" "p" 15 "\x7b\"b\":2\x7d"
    (processOp sampleCrates true (run (es.take 1)) del).2 = .processed ∧
    o.writetime < del.writetime ∧ (run es).live "a" = [] ∧
    (processOp sampleCrates true (run es) o).2 = .processed ∧
    (processOp sampleCrates true (run es) o).1.live "a" ≠ [] := by decide

end Engine

end Tantylla
