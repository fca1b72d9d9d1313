/-
  Pruning, as two runs of a node see it.

  A search asks for the expiry of a document, so it makes no difference to it whether an
  expired document was pruned (`visible`).  A lookup that the cache does not answer takes
  what the reader shows, expired or not, so it may make one to an upsert or a delete.

  `Twins t`: two states that differ only in what has expired at `t` and in what the reader
  shows.  A tick of the pruner on either side keeps them so (`Twins.prune`), and an
  operation on both does if its lookups find live documents (`Twins.op`).
  `pruning_invisible` puts the steps together: two runs with the same batches and commits
  answer the batches alike and show the same documents, wherever the pruner ticks.
-/
import Tantylla.Node.Expiry
import Tantylla.Node.Listing

namespace Tantylla

namespace Engine

/-- The documents that a search at `t` may return. -/
def visible (s : Engine) (t : ℤ) : List TantivyDoc :=
  s.writer.filter fun d => (RangeQuery.expiration t).contains d.expiresAt

/-- If the cache does not answer the lookup of an upsert or a delete at `now`, what the
    reader shows of the id is live and has not expired. -/
def FindsLive (now : ℤ) (s : Engine) : Event → Prop
  | .op _ o => o.type = .upsert ∨ o.type = .delete → s.uncommittedDocs.get? o.id = none →
      ∀ d ∈ s.reader, d.id = o.id → d ∈ s.writer ∧ now < d.expiresAt
  | _ => True

instance (now : ℤ) (s : Engine) : ∀ e, Decidable (FindsLive now s e)
  | .op _ _ => inferInstanceAs (Decidable (_ → _ → ∀ d ∈ s.reader, _))
  | .commit _ | .reload | .prune _ _ | .crash => isTrue trivial

/-! ## Runs with a clock -/

/-- What happens to a node, with the time of its clock where it matters. -/
inductive TimedEvent where
  | batch (now : ℤ) (addOk : ℕ → Bool) (ops : List IndexOperation)
  /-- a tick of the committer, with the reload that follows a commit -/
  | commit (r : CommitTick)
  | prune (now : ℤ) (r : PruneTick)
  | reload

/-- A node with its clock, and the answers to its batches. -/
structure Timeline where
  engine : Engine
  clock : ℤ
  answers : List (Option IndexBatchResponse)

/-- A commit that succeeds is followed by a reload. -/
def commitReload (s : Engine) : CommitTick → Engine
  | .ok => { s.committerTick .ok with reader := (s.committerTick .ok).committed }
  | .failed => s.committerTick .failed
  | .contended => s.committerTick .contended

def timedStep (X : Crates) (s : Timeline) : TimedEvent → Timeline
  | .batch now addOk ops =>
    { engine := (processBatch X addOk s.engine ops).1
      clock := now
      answers := s.answers ++ [(processBatch X addOk s.engine ops).2] }
  | .commit r => { s with engine := s.engine.commitReload r }
  | .prune now r => { s with engine := step X s.engine (.prune now r), clock := now }
  | .reload => { s with engine := step X s.engine .reload }

/-- A node that starts on the documents of its last commit. -/
def timedStart (docs : List TantivyDoc) (now : ℤ) : Timeline := ⟨new docs, now, []⟩

/-- The ticks of the pruner, and the reloads that may follow them. -/
def TimedEvent.silent : TimedEvent → Bool
  | .prune _ _ | .reload => true
  | .batch _ _ _ | .commit _ => false

/-- The clock does not go back. -/
def Forward (s : Timeline) : TimedEvent → Prop
  | .batch now _ _ | .prune now _ => s.clock ≤ now
  | _ => True

/-- Each operation of a batch looks up live documents. -/
def LooksUpLive (X : Crates) (s : Timeline) : TimedEvent → Prop
  | .batch now addOk ops =>
    Run.Along (step X) (FindsLive now) s.engine (batchEvents X addOk 0 s.engine ops)
  | _ => True

instance (s : Timeline) : ∀ e, Decidable (Forward s e)
  | .batch now _ _ | .prune now _ => inferInstanceAs (Decidable (s.clock ≤ now))
  | .commit _ | .reload => isTrue trivial

instance (X : Crates) (s : Timeline) : ∀ e, Decidable (LooksUpLive X s e)
  | .batch _ _ _ => Run.Along.decidable _ _
  | .prune _ _ | .commit _ | .reload => isTrue trivial

/-! ## What a search may return -/

section
variable (s : Engine) (t : ℤ)

theorem mem_visible {d : TantivyDoc} : d ∈ s.visible t ↔ d ∈ s.writer ∧ t < d.expiresAt := by
  rw [visible, List.mem_filter, RangeQuery.contains_expiration]

theorem visible_eq : s.visible t = s.writer.filter fun d => t < d.expiresAt :=
  List.filter_congr fun d _ => by simp [RangeQuery.contains, RangeQuery.expiration]

theorem visible_filter (p : TantivyDoc → Bool) :
    ({ s with writer := s.writer.filter p } : Engine).visible t = (s.visible t).filter p := by
  simp only [visible, List.filter_filter, Bool.and_comm]

theorem visible_addDocument (d : TantivyDoc) : (s.addDocument d).visible t =
    s.visible t ++ [d].filter fun d => (RangeQuery.expiration t).contains d.expiresAt :=
  List.filter_append ..

theorem visible_of_le {t t' : ℤ} (h : t ≤ t') :
    s.visible t' = (s.visible t).filter fun d => t' < d.expiresAt := by
  rw [visible_eq, visible_eq, List.filter_filter]
  refine List.filter_congr fun d _ => ?_
  rw [Bool.eq_iff_iff, Bool.and_eq_true, decide_eq_true_eq, decide_eq_true_eq]
  omega

/-- **A search does not see what the pruner has removed.** -/
theorem visible_prunerTick {now t : ℤ} (h : now ≤ t) (r : PruneTick) :
    (s.prunerTick now r).visible t = s.visible t := by
  have hprune : (s.prune now).visible t = s.visible t := by
    rw [prune, visible_filter]
    refine List.filter_eq_self.2 fun d hd => ?_
    have hlt := ((mem_visible ..).1 hd).2
    simp only [decide_eq_true_eq]
    omega
  cases r with
  | ok | commitFailed => exact hprune
  | queryFailed | contended => rfl

end

/-! ## One node -/

/-- What holds of a node that reloads after its commits: the reader shows every live document
    that is not cached. -/
structure Served (s : Engine) : Prop where
  coherent : Coherent s
  shelved : Shelved s
  reader : Unique s.reader
  shown : ∀ d ∈ s.writer, s.uncommittedDocs.get? d.id = none → d ∈ s.reader

theorem served_new {docs : List TantivyDoc} (h : Unique docs) : Served (new docs) where
  coherent := ⟨h, h, fun hc => by cases hc⟩
  shelved _ hd _ := hd
  reader := h
  shown _ hd _ := hd

/-- Among documents with different ids, the first one of an id is the only one. -/
theorem Unique.head?_docsOf {l : List TantivyDoc} (h : Unique l) {id : String} {d : TantivyDoc} :
    (docsOf id l).head? = some d ↔ d ∈ l ∧ d.id = id := by
  rw [← mem_docsOf]
  refine ⟨List.mem_of_mem_head?, fun hd => ?_⟩
  cases hdocs : docsOf id l with
  | nil =>
    rw [hdocs] at hd
    cases hd
  | cons e es =>
    have he : e ∈ docsOf id l := hdocs ▸ List.mem_cons_self
    obtain ⟨hd, hdid⟩ := mem_docsOf.1 hd
    obtain ⟨he, heid⟩ := mem_docsOf.1 he
    rw [List.head?_cons, h e he d hd (heid.trans hdid.symm)]

namespace Served

variable {X : Crates} {s : Engine}

theorem op (hX : X.Lawful) (h : Served s) {addOk : Bool} {o : IndexOperation} {s' : Engine}
    {r : Outcome} (ho : OpStep X addOk s o s' r) : Served s' where
  coherent := h.coherent.op hX ho
  shelved := h.shelved.op hX h.coherent ho
  reader := ho.frame.2.1 ▸ h.reader
  shown d hd hn := by
    obtain ⟨hd, hn⟩ := ho.uncached hX h.coherent hd hn
    rw [ho.frame.2.1]
    exact h.shown d hd hn

theorem reload (h : Served s) : Served { s with reader := s.committed } where
  coherent := ⟨h.coherent.writer, h.coherent.committed, h.coherent.cached⟩
  shelved := h.shelved
  reader := h.coherent.committed
  shown := h.shelved

theorem prune (hX : X.Lawful) (h : Served s) (now : ℤ) (r : PruneTick) :
    Served (step X s (.prune now r)) := by
  obtain ⟨hcoherent, hshelved⟩ := Shelved.step hX s (.prune now r) ⟨h.coherent, h.shelved⟩
  refine ⟨hcoherent, hshelved, ?_, fun d hd hn => ?_⟩
  · cases r <;> exact h.reader
  · cases r with
    | ok | commitFailed => exact h.shown d (List.mem_of_mem_filter hd) hn
    | queryFailed | contended => exact h.shown d hd hn

theorem commitReload (hX : X.Lawful) (h : Served s) (r : CommitTick) :
    Served (s.commitReload r) := by
  obtain ⟨hcoherent, hshelved⟩ := Shelved.step hX s (.commit r) ⟨h.coherent, h.shelved⟩
  cases r with
  | ok =>
    exact ⟨⟨hcoherent.writer, hcoherent.committed, hcoherent.cached⟩, hshelved,
      hcoherent.committed, fun d hd _ => hd⟩
  | failed | contended => exact ⟨hcoherent, hshelved, h.reader, h.shown⟩

/-- A lookup that finds a live document finds the one that a search may return. -/
theorem find_of_not_cached (h : Served s) {now : ℤ} {id : String}
    (hn : s.uncommittedDocs.get? id = none)
    (hlive : ∀ d ∈ s.reader, d.id = id → d ∈ s.writer ∧ now < d.expiresAt) :
    s.findCachedOrIndexed id = (docsOf id (s.visible now)).head?.map TantivyDoc.asDoc := by
  rw [Engine.find_of_not_cached hn]
  refine congrArg _ (Option.ext fun d => ?_)
  have hvisible : Unique (s.visible now) := h.coherent.writer.mono (List.filter_subset_self _)
  rw [h.reader.head?_docsOf, hvisible.head?_docsOf, mem_visible]
  constructor
  · rintro ⟨hd, hid⟩
    exact ⟨hlive d hd hid, hid⟩
  · rintro ⟨⟨hd, -⟩, hid⟩
    exact ⟨h.shown d hd (hid ▸ hn), hid⟩

end Served

/-! ## Two nodes -/

/-- Two states with the same cache and generation, that show the same documents at `t`. -/
structure Alike (t : ℤ) (s₁ s₂ : Engine) : Prop where
  cached : s₁.uncommittedDocs = s₂.uncommittedDocs
  generation : s₁.currentGeneration = s₂.currentGeneration
  visible : s₁.visible t = s₂.visible t

namespace Alike

variable {X : Crates} {t : ℤ} {s₁ s₂ : Engine}

theorem symm (h : Alike t s₁ s₂) : Alike t s₂ s₁ :=
  ⟨h.cached.symm, h.generation.symm, h.visible.symm⟩

theorem of_le (h : Alike t s₁ s₂) {t' : ℤ} (ht : t ≤ t') : Alike t' s₁ s₂ where
  cached := h.cached
  generation := h.generation
  visible := by rw [visible_of_le s₁ ht, visible_of_le s₂ ht, h.visible]

/-- The same documents are dropped from both, from the caches as from the writers. -/
theorem thin (h : Alike t s₁ s₂) (p : TantivyDoc → Bool)
    (f : OrdMap String Doc → OrdMap String Doc) :
    Alike t { s₁ with writer := s₁.writer.filter p, uncommittedDocs := f s₁.uncommittedDocs }
      { s₂ with writer := s₂.writer.filter p, uncommittedDocs := f s₂.uncommittedDocs } where
  cached := congrArg f h.cached
  generation := h.generation
  visible := by
    have hfilter := congrArg (List.filter p) h.visible
    rw [← visible_filter, ← visible_filter] at hfilter
    exact hfilter

theorem addDocument (h : Alike t s₁ s₂) (d : TantivyDoc) :
    Alike t (s₁.addDocument d) (s₂.addDocument d) where
  cached := h.cached
  generation := h.generation
  visible := by rw [visible_addDocument, visible_addDocument, h.visible]

theorem commitReload (h : Alike t s₁ s₂) (r : CommitTick) :
    Alike t (s₁.commitReload r) (s₂.commitReload r) := by
  cases r with
  | ok =>
    refine ⟨?_, congrArg (fun g => (g + 1) % (u64Max + 1)) h.generation, h.visible⟩
    simp only [Engine.commitReload, committerTick, h.cached, h.generation]
  | failed =>
    exact ⟨h.cached, congrArg (fun g => (u64Max + g) % (u64Max + 1)) h.generation, h.visible⟩
  | contended => exact h

/-- **An operation does the same to both**, if it looks up the same document. -/
theorem op (h : Alike t s₁ s₂) (addOk : Bool) {o : IndexOperation}
    (hfind : o.type = .upsert ∨ o.type = .delete →
      s₁.findCachedOrIndexed o.id = s₂.findCachedOrIndexed o.id) :
    (processOp X addOk s₁ o).2 = (processOp X addOk s₂ o).2 ∧
      Alike t (processOp X addOk s₁ o).1 (processOp X addOk s₂ o).1 := by
  unfold processOp
  cases ht : o.type with
  | unspecified => exact ⟨rfl, h⟩
  | partitionDelete =>
    exact ⟨rfl, h.thin _ fun m => m.retain fun _ doc => doc.partitionKey ≠ o.partition⟩
  | delete =>
    simp only [delete, hfind (Or.inr ht)]
    split_ifs
    · exact ⟨rfl, h⟩
    · exact ⟨rfl, h.thin _ fun m => m.remove o.id⟩
  | upsert =>
    have hdoc : upsertDoc X s₁ o = upsertDoc X s₂ o := by
      simp only [upsertDoc, hfind (Or.inl ht), h.generation]
    have hstored : storedDoc X s₁ o = storedDoc X s₂ o := by rw [storedDoc, hdoc, storedDoc]
    have hstaged : Alike t (staged X s₁ o) (staged X s₂ o) := by
      rw [staged, staged, hdoc]
      exact h.thin _ fun m => m.insert o.id (upsertDoc X s₂ o)
    by_cases hs : isStale (s₂.findCachedOrIndexed o.id) o.writetime
    · simp only [upsert, hfind (Or.inl ht), hs, if_true]
      exact ⟨trivial, h⟩
    · simp only [upsert, hfind (Or.inl ht), hs, hstored]
      cases storedDoc X s₂ o with
      | none => exact ⟨rfl, hstaged⟩
      | some d =>
        cases addOk with
        | true => exact ⟨rfl, hstaged.addDocument d⟩
        | false => exact ⟨rfl, hstaged⟩

end Alike

/-- Two nodes that reload after their commits, in states that are alike. -/
structure Twins (t : ℤ) (s₁ s₂ : Engine) : Prop where
  left : Served s₁
  right : Served s₂
  alike : Alike t s₁ s₂

namespace Twins

variable {X : Crates} {t : ℤ} {s₁ s₂ : Engine}

theorem symm (h : Twins t s₁ s₂) : Twins t s₂ s₁ := ⟨h.right, h.left, h.alike.symm⟩

/-- Lookups that find live documents find the same. -/
theorem find_eq (h : Twins t s₁ s₂) {addOk : Bool} {o : IndexOperation}
    (h₁ : FindsLive t s₁ (.op addOk o)) (h₂ : FindsLive t s₂ (.op addOk o))
    (ho : o.type = .upsert ∨ o.type = .delete) :
    s₁.findCachedOrIndexed o.id = s₂.findCachedOrIndexed o.id := by
  cases hc : s₁.uncommittedDocs.get? o.id with
  | some c => rw [find_of_cached hc, find_of_cached (h.alike.cached ▸ hc)]
  | none =>
    have hc₂ : s₂.uncommittedDocs.get? o.id = none := h.alike.cached ▸ hc
    rw [h.left.find_of_not_cached hc (h₁ ho hc), h.right.find_of_not_cached hc₂ (h₂ ho hc₂),
      h.alike.visible]

/-- **An operation on both** has one outcome, and keeps the nodes alike. -/
theorem op (hX : X.Lawful) (h : Twins t s₁ s₂) {addOk : Bool} {o : IndexOperation}
    (h₁ : FindsLive t s₁ (.op addOk o)) (h₂ : FindsLive t s₂ (.op addOk o)) :
    (processOp X addOk s₁ o).2 = (processOp X addOk s₂ o).2 ∧
      Twins t (processOp X addOk s₁ o).1 (processOp X addOk s₂ o).1 := by
  obtain ⟨hout, halike⟩ := h.alike.op addOk (h.find_eq h₁ h₂)
  exact ⟨hout, h.left.op hX (processOp_step ..), h.right.op hX (processOp_step ..), halike⟩

theorem processLoop (hX : X.Lawful) {addOk : ℕ → Bool} {ops : List IndexOperation} {i p k : ℕ}
    (h : Twins t s₁ s₂)
    (h₁ : Run.Along (step X) (FindsLive t) s₁ (batchEvents X addOk i s₁ ops))
    (h₂ : Run.Along (step X) (FindsLive t) s₂ (batchEvents X addOk i s₂ ops)) :
    (processLoop X addOk i s₁ p k ops).2 = (processLoop X addOk i s₂ p k ops).2 ∧
      Twins t (processLoop X addOk i s₁ p k ops).1 (processLoop X addOk i s₂ p k ops).1 := by
  induction ops generalizing i s₁ s₂ p k with
  | nil => exact ⟨rfl, h⟩
  | cons o ops ih =>
    obtain ⟨hout, htwins⟩ := h.op hX h₁.1 h₂.1
    have hrest₁ := h₁.2
    have hrest₂ := h₂.2
    rw [Engine.step] at hrest₁ hrest₂
    rw [Engine.processLoop, Engine.processLoop]
    cases hp₁ : processOp X (addOk i) s₁ o with
    | mk s₁' r₁ =>
      cases hp₂ : processOp X (addOk i) s₂ o with
      | mk s₂' r₂ =>
        rw [hp₁, hp₂] at hout htwins
        rw [hp₁] at hrest₁
        rw [hp₂] at hrest₂
        cases hout
        cases r₁ with
        | failed => exact ⟨rfl, htwins⟩
        | processed | stale | rejected | ignored => exact ih htwins hrest₁ hrest₂

/-- **A batch on both** has one answer, and keeps the nodes alike. -/
theorem processBatch (hX : X.Lawful) {addOk : ℕ → Bool} {ops : List IndexOperation}
    (h : Twins t s₁ s₂)
    (h₁ : Run.Along (step X) (FindsLive t) s₁ (batchEvents X addOk 0 s₁ ops))
    (h₂ : Run.Along (step X) (FindsLive t) s₂ (batchEvents X addOk 0 s₂ ops)) :
    (processBatch X addOk s₁ ops).2 = (processBatch X addOk s₂ ops).2 ∧
      Twins t (processBatch X addOk s₁ ops).1 (processBatch X addOk s₂ ops).1 :=
  h.processLoop hX h₁ h₂

/-- **A tick of the pruner on one of them** is not seen from its time on. -/
theorem prune (hX : X.Lawful) (h : Twins t s₁ s₂) {now : ℤ} (hnow : now ≤ t) (r : PruneTick) :
    Twins t (step X s₁ (.prune now r)) s₂ := by
  refine ⟨h.left.prune hX now r, h.right, ?_, ?_, ?_⟩
  · cases r <;> exact h.alike.cached
  · cases r <;> exact h.alike.generation
  · exact (visible_prunerTick s₁ hnow r).trans h.alike.visible

theorem reload (h : Twins t s₁ s₂) : Twins t (step X s₁ .reload) s₂ :=
  ⟨h.left.reload, h.right, h.alike.cached, h.alike.generation, h.alike.visible⟩

end Twins

/-! ## Two runs -/

/-- Two nodes that have given the same answers, and are alike from the later of their clocks
    on. -/
structure Parallel (s₁ s₂ : Timeline) : Prop where
  answers : s₁.answers = s₂.answers
  twins : ∀ t, s₁.clock ≤ t → s₂.clock ≤ t → Twins t s₁.engine s₂.engine

namespace Parallel

variable {X : Crates} {s₁ s₂ : Timeline}

theorem symm (h : Parallel s₁ s₂) : Parallel s₂ s₁ :=
  ⟨h.answers.symm, fun t ht₂ ht₁ => (h.twins t ht₁ ht₂).symm⟩

theorem silent (hX : X.Lawful) (h : Parallel s₁ s₂) {e : TimedEvent} (he : e.silent = true)
    (hclock : Forward s₁ e) : Parallel (timedStep X s₁ e) s₂ := by
  cases e with
  | batch | commit => cases he
  | prune now r =>
    refine ⟨h.answers, fun t ht₁ ht₂ => ?_⟩
    exact (h.twins t (le_trans hclock ht₁) ht₂).prune hX ht₁ r
  | reload => exact ⟨h.answers, fun t ht₁ ht₂ => (h.twins t ht₁ ht₂).reload (X := X)⟩

theorem both (hX : X.Lawful) (h : Parallel s₁ s₂) {e : TimedEvent} (he : e.silent = false)
    (h₁ : Forward s₁ e ∧ LooksUpLive X s₁ e) (h₂ : Forward s₂ e ∧ LooksUpLive X s₂ e) :
    Parallel (timedStep X s₁ e) (timedStep X s₂ e) := by
  cases e with
  | prune | reload => cases he
  | batch now addOk ops =>
    obtain ⟨hanswer, htwins⟩ := (h.twins now h₁.1 h₂.1).processBatch hX h₁.2 h₂.2
    refine ⟨?_, fun t ht _ => ⟨htwins.left, htwins.right, htwins.alike.of_le ht⟩⟩
    simp only [timedStep, h.answers, hanswer]
  | commit r =>
    refine ⟨h.answers, fun t ht₁ ht₂ => ?_⟩
    obtain ⟨hleft, hright, halike⟩ := h.twins t ht₁ ht₂
    exact ⟨hleft.commitReload hX r, hright.commitReload hX r, halike.commitReload r⟩

end Parallel

/-- An upsert of `a` with a TTL of a second and one of `b` without, a commit, the events
    `es`, and an upsert of `id` after three seconds. -/
def sampleTimed (es : List TimedEvent) (id : String) : List TimedEvent :=
  [.batch 10 (fun _ => true) [sampleTtlOp, sampleOp .upsert "b" "p" 10 "\x7b\"a\":1\x7d"],
    .commit .ok] ++ es ++
  [.batch 3000000 (fun _ => true) [sampleOp .upsert id "p" 20 "\x7b\"b\":2\x7d"]]

theorem filter_sampleTimed {es : List TimedEvent} (h : ∀ e ∈ es, e.silent = true) (id : String) :
    (sampleTimed es id).filter (fun e => !e.silent) = sampleTimed [] id := by
  have hnil : es.filter (fun e => !e.silent) = [] :=
    List.filter_eq_nil_iff.2 fun e he => by simp [h e he]
  rw [sampleTimed, List.filter_append, List.filter_append, hnil]
  rfl

/-- **Pruning is invisible as long as lookups find live documents.**  Two runs of a node with
    the same batches at the same times and the same commits, each followed by a reload, in
    which the pruner ticks and the reader reloads at any times: if no lookup that the cache
    does not answer finds a document that has expired or is no longer live, the batches have
    the same answers, and from the last clock on a search may return the same documents. -/
theorem pruning_invisible {X : Crates} (hX : X.Lawful) {docs : List TantivyDoc}
    (hdocs : Unique docs) {now : ℤ} {es₁ es₂ : List TimedEvent}
    (hsame : es₁.filter (fun e => !e.silent) = es₂.filter fun e => !e.silent)
    (hclock₁ : Run.Along (timedStep X) Forward (timedStart docs now) es₁)
    (hclock₂ : Run.Along (timedStep X) Forward (timedStart docs now) es₂)
    (hlive₁ : Run.Along (timedStep X) (LooksUpLive X) (timedStart docs now) es₁)
    (hlive₂ : Run.Along (timedStep X) (LooksUpLive X) (timedStart docs now) es₂) :
    let s₁ := Run.exec (timedStep X) (timedStart docs now) es₁
    let s₂ := Run.exec (timedStep X) (timedStart docs now) es₂
    s₁.answers = s₂.answers ∧
      ∀ t, s₁.clock ≤ t → s₂.clock ≤ t → s₁.engine.visible t = s₂.engine.visible t := by
  have hstart : Parallel (timedStart docs now) (timedStart docs now) :=
    ⟨rfl, fun t _ _ => ⟨served_new hdocs, served_new hdocs, rfl, rfl, rfl⟩⟩
  have h : Parallel (Run.exec (timedStep X) (timedStart docs now) es₁)
      (Run.exec (timedStep X) (timedStart docs now) es₂) :=
    Run.exec_rel_of_filter_eq (fun s t e hR he hP => hR.silent hX he hP.1)
      (fun s t e hR he hP => (hR.symm.silent hX he hP.1).symm)
      (fun s t e hR he hP hQ => hR.both hX he hP hQ) hsame (hclock₁.and hlive₁)
      (hclock₂.and hlive₂) hstart
  exact ⟨h.answers, fun t ht₁ ht₂ => (h.twins t ht₁ ht₂).alike.visible⟩

/-- The pruner removes `a` in one of the runs, and the upsert is of `b`. -/
theorem pruning_invisible_sample :
    let s₁ := Run.exec (timedStep sampleCrates) (timedStart [] 0)
      (sampleTimed [.prune 2000000 .ok, .reload] "b")
    let s₂ := Run.exec (timedStep sampleCrates) (timedStart [] 0) (sampleTimed [] "b")
    s₁.engine.writer ≠ s₂.engine.writer ∧
      s₁.engine.visible 3000000 = s₂.engine.visible 3000000 := by
  refine ⟨by decide +kernel, ?_⟩
  have hsame : (sampleTimed [.prune 2000000 .ok, .reload] "b").filter (fun e => !e.silent) =
      (sampleTimed [] "b").filter fun e => !e.silent := by
    rw [filter_sampleTimed (by simp [TimedEvent.silent]),
      filter_sampleTimed fun _ he => absurd he List.not_mem_nil]
  refine (@pruning_invisible sampleCrates sampleCrates_lawful [] coherent_new.writer 0
    (sampleTimed [.prune 2000000 .ok, .reload] "b") (sampleTimed [] "b") hsame
    (by decide +kernel) (by decide +kernel) (by decide +kernel) (by decide +kernel)).2 3000000 ?_ ?_
  · decide +kernel
  · decide +kernel

/-- The upsert is of `a`: where the pruner has not removed the expired document, the new one
    takes its column. -/
theorem expired_column_kept :
    let es₁ := sampleTimed [.prune 2000000 .ok, .reload] "a"
    let es₂ := sampleTimed [] "a"
    let s₁ := Run.exec (timedStep sampleCrates) (timedStart [] 0) es₁
    let s₂ := Run.exec (timedStep sampleCrates) (timedStart [] 0) es₂
    es₁.filter (fun e => !e.silent) = es₂.filter (fun e => !e.silent) ∧
      s₁.clock = 3000000 ∧ s₂.clock = 3000000 ∧
      (s₁.engine.visible 3000000).map (fun d => (d.id, d.body)) =
        [("b", .obj [("a", .num (.int 1))]), ("a", .obj [("b", .num (.int 2))])] ∧
      (s₂.engine.visible 3000000).map (fun d => (d.id, d.body)) =
        [("b", .obj [("a", .num (.int 1))]),
          ("a", .obj [("a", .num (.int 1)), ("b", .num (.int 2))])] := by
  refine ⟨?_, ?_⟩
  · rw [filter_sampleTimed (by simp [TimedEvent.silent]),
      filter_sampleTimed fun _ he => absurd he List.not_mem_nil]
  · decide +kernel

end Engine

end Tantylla
