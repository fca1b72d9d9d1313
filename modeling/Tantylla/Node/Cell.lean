/-
  One id of a node.

  `docsOf id` picks the documents of an id out of a layer (the writer, the last
  commit, the reader's snapshot); the lemmas below say what each step leaves of
  them.  `find_eq`: a lookup sees the cached document, else the snapshot's.

  `Coherent` holds of every reachable state: a layer has one document of an id at
  most, and a cached document is of the partition its live document is of.
-/
import Tantylla.Node.Step

namespace Tantylla

/-- The documents of `id` in a layer. -/
def docsOf (id : String) (l : List TantivyDoc) : List TantivyDoc := l.filter fun d => d.id = id

/-- What a lookup rebuilds from a stored document. -/
def TantivyDoc.asDoc (d : TantivyDoc) : Doc where
  id := d.id
  partitionKey := d.partitionKey
  doc := d.body
  expiresAt := d.expiresAt
  writetime := d.writetime
  generation := 0

theorem IndexOperation.expiresAt_fits (op : IndexOperation) :
    i64Min ≤ op.expiresAt ∧ op.expiresAt ≤ i64Max := by
  have hmin : i64Min ≤ 0 := by decide
  have hmax : i64Min ≤ i64Max := by decide
  unfold IndexOperation.expiresAt
  cases op.cdcTtl with
  | none => exact ⟨hmax, le_rfl⟩
  | some ttl =>
    dsimp only
    split_ifs with h
    · exact ⟨hmin.trans (Int.natCast_nonneg _), h⟩
    · exact ⟨hmax, le_rfl⟩

@[simp] theorem mem_docsOf {id : String} {l : List TantivyDoc} {d : TantivyDoc} :
    d ∈ docsOf id l ↔ d ∈ l ∧ d.id = id := by simp [docsOf]

theorem docsOf_eq_nil {id : String} {l : List TantivyDoc} :
    docsOf id l = [] ↔ ∀ d ∈ l, d.id ≠ id := by simp [docsOf, List.filter_eq_nil_iff]

theorem docsOf_filter (id : String) (p : TantivyDoc → Bool) (l : List TantivyDoc) :
    docsOf id (l.filter p) = (docsOf id l).filter p := by
  rw [docsOf, docsOf, List.filter_filter, List.filter_filter]
  exact List.filter_congr fun d _ => Bool.and_comm ..

theorem docsOf_filter_id (id id' : String) (l : List TantivyDoc) :
    docsOf id (l.filter fun d => d.id ≠ id') = if id = id' then [] else docsOf id l := by
  rw [docsOf_filter]
  split_ifs with h
  · refine List.filter_eq_nil_iff.2 fun d hd => ?_
    simp [(mem_docsOf.1 hd).2, h]
  · refine List.filter_eq_self.2 fun d hd => ?_
    simp [(mem_docsOf.1 hd).2, h]

namespace Engine

/-- The live documents of an id: those of the writer. -/
def live (s : Engine) (id : String) : List TantivyDoc := docsOf id s.writer

section
variable (X : Crates) (s : Engine) (op : IndexOperation) (d : TantivyDoc) (id id' pk : String)

theorem live_staged : (staged X s op).live id = if id = op.id then [] else s.live id :=
  docsOf_filter_id ..

theorem live_addDocument :
    (s.addDocument d).live id = s.live id ++ if d.id = id then [d] else [] := by
  simp [live, docsOf, addDocument, List.filter_append, List.filter_cons]

theorem live_erased : (s.erased id').live id = if id = id' then [] else s.live id :=
  docsOf_filter_id ..

theorem live_cleared :
    (s.cleared pk).live id = (s.live id).filter fun d => d.partitionKey ≠ pk :=
  docsOf_filter ..

theorem live_prune (now : ℤ) :
    (s.prune now).live id = (s.live id).filter fun d => now < d.expiresAt := docsOf_filter ..

theorem live_committerTick (r : CommitTick) : (s.committerTick r).live id = s.live id := by
  rw [live, live, writer_committerTick]

end

/-- After an upsert that is processed, its document is the live one. -/
theorem live_stored {X : Crates} {s : Engine} {op : IndexOperation} {d : TantivyDoc}
    (hd : d.id = op.id) (id : String) : ((staged X s op).addDocument d).live id =
      if id = op.id then [d] else s.live id := by
  rw [live_addDocument, live_staged, hd]
  by_cases h : id = op.id
  · simp [h]
  · simp [h, Ne.symm h]

theorem get?_cleared (s : Engine) (pk id : String) : (s.cleared pk).uncommittedDocs.get? id =
    (s.uncommittedDocs.get? id).filter fun c => c.partitionKey ≠ pk :=
  OrdMap.get?_retain ..

/-- A partition delete leaves an id alone that has no document in the partition. -/
theorem live_cleared_of_other {s : Engine} {id pk : String}
    (h : ∀ d ∈ s.live id, d.partitionKey ≠ pk) : (s.cleared pk).live id = s.live id := by
  rw [live_cleared]
  exact List.filter_eq_self.2 fun d hd => by simp [h d hd]

theorem get?_cleared_of_other {s : Engine} {id pk : String}
    (h : ∀ c, s.uncommittedDocs.get? id = some c → c.partitionKey ≠ pk) :
    (s.cleared pk).uncommittedDocs.get? id = s.uncommittedDocs.get? id := by
  rw [get?_cleared]
  cases hg : s.uncommittedDocs.get? id with
  | none => rfl
  | some c => rw [Option.filter_some, if_pos (by simp [h c hg])]

/-- It removes the documents of an id that are all in the partition. -/
theorem live_cleared_of_same {s : Engine} {id pk : String}
    (h : ∀ d ∈ s.live id, d.partitionKey = pk) : (s.cleared pk).live id = [] := by
  rw [live_cleared]
  exact List.filter_eq_nil_iff.2 fun d hd => by simp [h d hd]

theorem get?_cleared_of_same {s : Engine} {id pk : String}
    (h : ∀ c, s.uncommittedDocs.get? id = some c → c.partitionKey = pk) :
    (s.cleared pk).uncommittedDocs.get? id = none := by
  rw [get?_cleared]
  cases hg : s.uncommittedDocs.get? id with
  | none => rfl
  | some c => rw [Option.filter_some, if_neg (by simp [h c hg])]

/-- An operation that does not concern an id leaves its documents. -/
theorem OpStep.live_of_other {X : Crates} {addOk : Bool} {s s' : Engine} {o : IndexOperation}
    {r : Outcome} {id : String} (hX : X.Lawful) (h : OpStep X addOk s o s' r)
    (hid : o.type = .upsert ∨ o.type = .delete → o.id ≠ id)
    (hpk : o.type = .partitionDelete → ∀ d ∈ s.live id, d.partitionKey ≠ o.partition) :
    s'.live id = s.live id := by
  cases h with
  | ignored | stale => rfl
  | stored d ht _ hd =>
    rw [live_stored (hX.storedDoc_fields hd).1, if_neg (hid (Or.inl ht)).symm]
  | rejected ht | failed _ ht => rw [live_staged, if_neg (hid (Or.inl ht)).symm]
  | erased ht => rw [live_erased, if_neg (hid (Or.inr ht)).symm]
  | cleared ht => exact live_cleared_of_other (hpk ht)

theorem OpStep.cached_of_other {X : Crates} {addOk : Bool} {s s' : Engine} {o : IndexOperation}
    {r : Outcome} {id : String} (h : OpStep X addOk s o s' r)
    (hid : o.type = .upsert ∨ o.type = .delete → o.id ≠ id)
    (hpk : o.type = .partitionDelete →
      ∀ c, s.uncommittedDocs.get? id = some c → c.partitionKey ≠ o.partition) :
    s'.uncommittedDocs.get? id = s.uncommittedDocs.get? id := by
  cases h with
  | ignored | stale => rfl
  | stored _ ht | rejected ht | failed _ ht =>
    exact OrdMap.get?_insert_ne _ (hid (Or.inl ht)).symm _
  | erased ht => exact OrdMap.get?_remove_ne _ (hid (Or.inr ht)).symm
  | cleared ht => exact get?_cleared_of_other (hpk ht)

/-! ## The lookup -/

/-- **A lookup sees the cached document, else the snapshot's.** -/
theorem find_eq (s : Engine) (id : String) : s.findCachedOrIndexed id =
    (s.uncommittedDocs.get? id).or ((docsOf id s.reader).head?.map TantivyDoc.asDoc) := by
  unfold findCachedOrIndexed
  rw [docsOf, List.head?_filter]
  cases s.uncommittedDocs.get? id with
  | some c => rfl
  | none =>
    cases hd : s.reader.find? fun d => decide (d.id = id) with
    | none => rfl
    | some d =>
      have hid : d.id = id := by simpa using List.find?_some hd
      simp [Doc.ofStored_toJson, TantivyDoc.asDoc, hid]

theorem find_of_cached {s : Engine} {id : String} {c : Doc}
    (h : s.uncommittedDocs.get? id = some c) : s.findCachedOrIndexed id = some c := by
  rw [find_eq, h]; rfl

theorem find_of_not_cached {s : Engine} {id : String} (h : s.uncommittedDocs.get? id = none) :
    s.findCachedOrIndexed id = (docsOf id s.reader).head?.map TantivyDoc.asDoc := by
  rw [find_eq, h]; rfl

theorem find_eq_none_iff {s : Engine} {id : String} : s.findCachedOrIndexed id = none ↔
    s.uncommittedDocs.get? id = none ∧ docsOf id s.reader = [] := by
  rw [find_eq, Option.or_eq_none_iff]; simp

theorem isStale_iff {e : Option Doc} {w : ℕ} : isStale e w ↔ ∃ d, e = some d ∧ w ≤ d.writetime := by
  unfold isStale; cases e <;> simp

/-! ## Reachable states -/

/-- One document of an id at most. -/
def Unique (l : List TantivyDoc) : Prop := ∀ d ∈ l, ∀ e ∈ l, d.id = e.id → d = e

theorem Unique.mono {l l' : List TantivyDoc} (h : Unique l) (hl : l' ⊆ l) : Unique l' :=
  fun d hd e he => h d (hl hd) e (hl he)

/-- What holds of every reachable state. -/
structure Coherent (s : Engine) : Prop where
  writer : Unique s.writer
  committed : Unique s.committed
  cached : ∀ {id : String} {c : Doc} {d : TantivyDoc}, s.uncommittedDocs.get? id = some c →
    d ∈ s.writer → d.id = id → d.partitionKey = c.partitionKey

namespace Coherent

/-- Dropping live documents and cached ones keeps a state coherent. -/
theorem thin {s s' : Engine} (h : Coherent s) (hw : s'.writer ⊆ s.writer)
    (hc : s'.committed ⊆ s.committed ∨ s'.committed ⊆ s.writer)
    (hu : ∀ {id : String} {c : Doc}, s'.uncommittedDocs.get? id = some c →
      s.uncommittedDocs.get? id = some c) : Coherent s' where
  writer := h.writer.mono hw
  committed := hc.elim h.committed.mono h.writer.mono
  cached hcd hd hid := h.cached (hu hcd) (hw hd) hid

variable {X : Crates} {s : Engine}

theorem staged (h : Coherent s) (op : IndexOperation) : Coherent (staged X s op) where
  writer := h.writer.mono (List.filter_subset_self _)
  committed := h.committed
  cached := by
    intro id c d hc hd hid
    obtain ⟨hd, hne⟩ := (mem_writer_staged ..).1 hd
    rw [uncommittedDocs_staged, OrdMap.get?_insert_ne _ (hid ▸ hne)] at hc
    exact h.cached hc hd hid

theorem stored (hX : X.Lawful) (h : Coherent s) {op : IndexOperation} {d : TantivyDoc}
    (hd : storedDoc X s op = some d) : Coherent ((Engine.staged X s op).addDocument d) where
  writer := by
    have hid := (hX.storedDoc_fields hd).1
    intro a ha b hb hab
    rcases (mem_writer_addDocument ..).1 ha with ha | rfl <;>
      rcases (mem_writer_addDocument ..).1 hb with hb | hb
    · exact (h.staged op).writer a ha b hb hab
    · exact absurd (hab.trans (hb ▸ hid)) ((mem_writer_staged ..).1 ha).2
    · exact absurd (hab.symm.trans hid) ((mem_writer_staged ..).1 hb).2
    · exact hb.symm
  committed := h.committed
  cached := by
    intro id c e hc he hid
    rcases (mem_writer_addDocument ..).1 he with he | rfl
    · exact (h.staged op).cached hc he hid
    · obtain ⟨hid', hpk, -⟩ := hX.storedDoc_fields hd
      rw [uncommittedDocs_addDocument, uncommittedDocs_staged, ← hid, hid',
        OrdMap.get?_insert_self, Option.some.injEq] at hc
      rw [hpk, ← hc]; rfl

theorem op {addOk : Bool} {s' : Engine} {o : IndexOperation} {r : Outcome} (hX : X.Lawful)
    (h : Coherent s) (ho : OpStep X addOk s o s' r) : Coherent s' := by
  cases ho with
  | ignored | stale => exact h
  | stored d _ _ hd => exact h.stored hX hd
  | rejected | failed => exact h.staged o
  | erased | cleared =>
    exact h.thin (List.filter_subset_self _) (Or.inl fun _ => id) fun hc => OrdMap.of_retain hc

theorem step (hX : X.Lawful) (s : Engine) (e : Event) (h : Coherent s) :
    Coherent (step X s e) := by
  cases e with
  | op addOk o => exact h.op hX (processOp_step X addOk s o)
  | commit r =>
    cases r with
    | ok => exact h.thin (fun _ => id) (Or.inr fun _ => id) fun hc => OrdMap.of_retain hc
    | failed => rw [Engine.step, committerTick]; exact ⟨h.writer, h.committed, h.cached⟩
    | contended => exact h
  | reload => exact ⟨h.writer, h.committed, h.cached⟩
  | prune now r =>
    cases r with
    | ok => exact h.thin (List.filter_subset_self _) (Or.inr (List.filter_subset_self _)) id
    | commitFailed => exact h.thin (List.filter_subset_self _) (Or.inl fun _ => id) id
    | queryFailed | contended => exact h
  | crash => exact ⟨h.committed, h.committed, fun hc => by cases hc⟩

end Coherent

theorem coherent_new : Coherent (new []) where
  writer _ hd := by cases hd
  committed _ hd := by cases hd
  cached hc := by cases hc

/-- **Every reachable state is coherent.** -/
theorem Reachable.coherent {X : Crates} (hX : X.Lawful) {s : Engine} (h : Reachable X s) :
    Coherent s := Run.Reachable.inv h (Coherent.step hX) coherent_new

end Engine

end Tantylla
