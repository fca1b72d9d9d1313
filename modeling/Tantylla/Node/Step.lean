/-
  One step of a node, and its runs.

  `OpStep` says once what processing one operation can do; `processOp_step` is the
  only place where `processOp` is unfolded.  An `Event` is one operation of a batch
  (with the outcome of `add_document`), a tick of the committer or of the pruner, a
  reload of the reader, or a crash followed by a restart.

  A batch holds the writer's lock, so no tick falls inside it; a reload can.  Batches
  of one operation are batches, so runs of single operations reach the states that
  runs of whole batches reach (`reachable_iff`).
-/
import Tantylla.Node.Engine
import Tantylla.Lib.Run

namespace Tantylla

namespace Engine

/-! ## What one operation does -/

/-- The state after the cache insert and the `delete_term` of an upsert, before
    `add_document`. -/
def staged (X : Crates) (s : Engine) (op : IndexOperation) : Engine :=
  deleteId { s with uncommittedDocs := s.uncommittedDocs.insert op.id (upsertDoc X s op) } op.id

/-- The state after a delete. -/
def erased (s : Engine) (id : String) : Engine :=
  { s.deleteId id with uncommittedDocs := s.uncommittedDocs.remove id }

/-- The state after a partition delete. -/
def cleared (s : Engine) (pk : String) : Engine :=
  { s.deletePartition pk with
    uncommittedDocs := s.uncommittedDocs.retain fun _ doc => doc.partitionKey ≠ pk }

/-- What processing `op` in the state `s` can do, where `addOk` says whether
    `add_document` succeeds: the state after, and the outcome. -/
inductive OpStep (X : Crates) (addOk : Bool) (s : Engine) (op : IndexOperation) :
    Engine → Outcome → Prop
  | ignored : op.type = .unspecified → OpStep X addOk s op s .ignored
  | stale : op.type = .upsert ∨ op.type = .delete →
      isStale (s.findCachedOrIndexed op.id) op.writetime → OpStep X addOk s op s .stale
  | stored (d : TantivyDoc) : op.type = .upsert →
      ¬ isStale (s.findCachedOrIndexed op.id) op.writetime → storedDoc X s op = some d →
      addOk = true → OpStep X addOk s op ((staged X s op).addDocument d) .processed
  | rejected : op.type = .upsert → ¬ isStale (s.findCachedOrIndexed op.id) op.writetime →
      storedDoc X s op = none → OpStep X addOk s op (staged X s op) .rejected
  | failed (d : TantivyDoc) : op.type = .upsert →
      ¬ isStale (s.findCachedOrIndexed op.id) op.writetime → storedDoc X s op = some d →
      addOk = false → OpStep X addOk s op (staged X s op) .failed
  | erased : op.type = .delete →
      ¬ isStale (s.findCachedOrIndexed op.id) op.writetime →
      OpStep X addOk s op (s.erased op.id) .processed
  | cleared : op.type = .partitionDelete →
      OpStep X addOk s op (s.cleared op.partition) .processed

theorem processOp_step (X : Crates) (addOk : Bool) (s : Engine) (op : IndexOperation) :
    OpStep X addOk s op (processOp X addOk s op).1 (processOp X addOk s op).2 := by
  unfold processOp
  cases ht : op.type with
  | unspecified => exact .ignored ht
  | upsert =>
    by_cases hs : isStale (s.findCachedOrIndexed op.id) op.writetime
    · simp only [upsert, hs, if_true]; exact .stale (Or.inl ht) hs
    · simp only [upsert, hs]
      cases hd : storedDoc X s op with
      | none => exact .rejected ht hs hd
      | some d =>
        cases addOk with
        | true => exact .stored d ht hs hd rfl
        | false => exact .failed d ht hs hd rfl
  | delete =>
    by_cases hs : isStale (s.findCachedOrIndexed op.id) op.writetime
    · simp only [delete, hs, if_true]; exact .stale (Or.inr ht) hs
    · simp only [delete, hs]; exact .erased ht hs
  | partitionDelete => exact .cleared ht

theorem stored_of_processed {X : Crates} {addOk : Bool} {s : Engine} {op : IndexOperation}
    (ht : op.type = .upsert) (h : (processOp X addOk s op).2 = .processed) :
    ¬ isStale (s.findCachedOrIndexed op.id) op.writetime ∧
    ∃ d, storedDoc X s op = some d ∧
      (processOp X addOk s op).1 = (staged X s op).addDocument d := by
  have ho := processOp_step X addOk s op
  rw [h] at ho
  generalize (processOp X addOk s op).1 = s' at ho ⊢
  cases ho with
  | stored d _ hs hd => exact ⟨hs, d, hd, rfl⟩
  | erased hd | cleared hd => rw [ht] at hd; cases hd

theorem processOp_of_stored (X : Crates) {s : Engine} {op : IndexOperation} {d : TantivyDoc}
    (ht : op.type = .upsert) (hs : ¬ isStale (s.findCachedOrIndexed op.id) op.writetime)
    (hd : storedDoc X s op = some d) :
    processOp X true s op = ((staged X s op).addDocument d, .processed) := by
  simp only [processOp, ht, upsert, hs, hd, if_true]
  rfl

theorem erased_of_processed {X : Crates} {addOk : Bool} {s : Engine} {op : IndexOperation}
    (ht : op.type = .delete) (h : (processOp X addOk s op).2 = .processed) :
    ¬ isStale (s.findCachedOrIndexed op.id) op.writetime ∧
    (processOp X addOk s op).1 = s.erased op.id := by
  have ho := processOp_step X addOk s op
  rw [h] at ho
  generalize (processOp X addOk s op).1 = s' at ho ⊢
  cases ho with
  | erased _ hs => exact ⟨hs, rfl⟩
  | stored _ hu | cleared hu => rw [ht] at hu; cases hu

theorem processOp_of_stale (X : Crates) (addOk : Bool) {s : Engine} {op : IndexOperation}
    (ht : op.type = .upsert ∨ op.type = .delete)
    (h : isStale (s.findCachedOrIndexed op.id) op.writetime) :
    processOp X addOk s op = (s, .stale) := by
  rcases ht with ht | ht
  · rw [processOp, ht]; exact if_pos h
  · rw [processOp, ht]; exact if_pos h

theorem processOp_partitionDelete (X : Crates) (addOk : Bool) (s : Engine) {op : IndexOperation}
    (h : op.type = .partitionDelete) :
    processOp X addOk s op = (s.cleared op.partition, .processed) := by
  rw [processOp, h]; rfl

/-! ## Fields -/

section
variable (X : Crates) (s : Engine) (op : IndexOperation) (d : TantivyDoc) (id pk : String)

@[simp] theorem reader_staged : (staged X s op).reader = s.reader := rfl

@[simp] theorem uncommittedDocs_staged : (staged X s op).uncommittedDocs =
    s.uncommittedDocs.insert op.id (upsertDoc X s op) := rfl
@[simp] theorem uncommittedDocs_addDocument :
    (s.addDocument d).uncommittedDocs = s.uncommittedDocs := rfl
@[simp] theorem uncommittedDocs_erased :
    (s.erased id).uncommittedDocs = s.uncommittedDocs.remove id := rfl

@[simp] theorem mem_writer_staged :
    d ∈ (staged X s op).writer ↔ d ∈ s.writer ∧ d.id ≠ op.id := by simp [staged, deleteId]
@[simp] theorem mem_writer_addDocument (e : TantivyDoc) :
    e ∈ (s.addDocument d).writer ↔ e ∈ s.writer ∨ e = d := by simp [addDocument]
@[simp] theorem mem_writer_cleared :
    d ∈ (s.cleared pk).writer ↔ d ∈ s.writer ∧ d.partitionKey ≠ pk := by
  simp [cleared, deletePartition]

end

@[simp] theorem writer_committerTick (s : Engine) (r : CommitTick) :
    (s.committerTick r).writer = s.writer := by cases r <;> simp only [committerTick]
@[simp] theorem reader_committerTick (s : Engine) (r : CommitTick) :
    (s.committerTick r).reader = s.reader := by cases r <;> simp only [committerTick]

/-- A commit that fails or is skipped changes the generation only. -/
theorem committerTick_of_ne_ok (s : Engine) {r : CommitTick} (h : r ≠ .ok) :
    (s.committerTick r).committed = s.committed ∧
      (s.committerTick r).uncommittedDocs = s.uncommittedDocs := by
  cases r with
  | ok => exact absurd rfl h
  | failed | contended => simp only [committerTick, and_self]

theorem OpStep.frame {X : Crates} {addOk : Bool} {s s' : Engine} {op : IndexOperation}
    {r : Outcome} (h : OpStep X addOk s op s' r) : s'.committed = s.committed ∧
      s'.reader = s.reader ∧ s'.currentGeneration = s.currentGeneration := by
  cases h <;> exact ⟨rfl, rfl, rfl⟩

end Engine

/-- The document an upsert stores has the fields of the operation. -/
theorem Crates.Lawful.storedDoc_fields {X : Crates} (hX : X.Lawful) {s : Engine}
    {op : IndexOperation} {d : TantivyDoc} (h : s.storedDoc X op = some d) :
    d.id = op.id ∧ d.partitionKey = op.partition ∧ d.expiresAt = op.expiresAt ∧
      d.writetime = op.writetime := hX.fields _ _ h

/-! ## Runs -/

/-- One event of a node. -/
inductive Event where
  | op (addOk : Bool) (o : IndexOperation)
  | commit (r : CommitTick)
  | reload
  | prune (now : ℤ) (r : PruneTick)
  | crash

namespace Engine

/-- The state of a node after one event.  A crash loses the cache and everything since
    the last commit. -/
def step (X : Crates) (s : Engine) : Event → Engine
  | .op addOk o => (processOp X addOk s o).1
  | .commit r => s.committerTick r
  | .reload => { s with reader := s.committed }
  | .prune now r => s.prunerTick now r
  | .crash => new s.committed

/-- The states that runs from the empty index reach. -/
def Reachable (X : Crates) (s : Engine) : Prop := Run.Reachable (step X) (new []) s

/-- The operations of a batch that are executed, as events: all of them up to the first
    whose `add_document` fails. -/
def batchEvents (X : Crates) (addOk : ℕ → Bool) : ℕ → Engine → List IndexOperation → List Event
  | _, _, [] => []
  | i, s, op :: ops => .op (addOk i) op ::
      if (processOp X (addOk i) s op).2 = .failed then []
      else batchEvents X addOk (i + 1) (processOp X (addOk i) s op).1 ops

theorem processLoop_fst (X : Crates) (addOk : ℕ → Bool) : ∀ (i : ℕ) (s : Engine) (p k : ℕ)
    (ops : List IndexOperation), (processLoop X addOk i s p k ops).1 =
      Run.exec (step X) s (batchEvents X addOk i s ops)
  | _, _, _, _, [] => rfl
  | i, s, p, k, op :: ops => by
    rw [processLoop, batchEvents, Run.exec_cons, step]
    cases h : processOp X (addOk i) s op with
    | mk s' r => cases r <;> simp [processLoop_fst X addOk (i + 1) s']

/-- **A batch is a run of its operations.** -/
theorem processBatch_fst (X : Crates) (addOk : ℕ → Bool) (s : Engine)
    (ops : List IndexOperation) : (processBatch X addOk s ops).1 =
      Run.exec (step X) s (batchEvents X addOk 0 s ops) :=
  processLoop_fst ..

theorem processLoop_append (X : Crates) (addOk : ℕ → Bool) (pre ops : List IndexOperation) :
    ∀ (i : ℕ) (s : Engine) (p k : ℕ), processLoop X addOk i s p k (pre ++ ops) =
      match processLoop X addOk i s p k pre with
      | (s', some r) =>
        processLoop X addOk (i + pre.length) s' r.processedCount r.skippedCount ops
      | (s', none) => (s', none) := by
  induction pre with
  | nil => exact fun _ _ _ _ => rfl
  | cons o pre ih =>
    intro i s p k
    rw [List.cons_append, processLoop, processLoop, List.length_cons,
      show i + (pre.length + 1) = i + 1 + pre.length by omega]
    cases processOp X (addOk i) s o with
    | mk s' r =>
      cases r with
      | failed => rfl
      | processed | stale | rejected | ignored => exact ih ..

/-- The first operations of a batch that is answered are answered by themselves. -/
theorem processBatch_isSome_left {X : Crates} {addOk : ℕ → Bool} {s : Engine}
    {pre ops : List IndexOperation} (h : (processBatch X addOk s (pre ++ ops)).2.isSome) :
    (processBatch X addOk s pre).2.isSome := by
  unfold processBatch at h ⊢
  rw [processLoop_append] at h
  cases hp : processLoop X addOk 0 s 0 0 pre with
  | mk s' r =>
    rw [hp] at h
    cases r with
    | none => cases h
    | some r => rfl

/-- One call or tick of a node: a whole batch, or an event other than an operation. -/
inductive Call where
  | batch (addOk : ℕ → Bool) (ops : List IndexOperation)
  | commit (r : CommitTick)
  | reload
  | prune (now : ℤ) (r : PruneTick)
  | crash

/-- The state of a node after a call or a tick. -/
def callStep (X : Crates) (s : Engine) : Call → Engine
  | .batch addOk ops => (processBatch X addOk s ops).1
  | .commit r => step X s (.commit r)
  | .reload => step X s .reload
  | .prune now r => step X s (.prune now r)
  | .crash => step X s .crash

/-- The events of a call. -/
def Call.events (X : Crates) (s : Engine) : Call → List Event
  | .batch addOk ops => batchEvents X addOk 0 s ops
  | .commit r => [.commit r]
  | .reload => [.reload]
  | .prune now r => [.prune now r]
  | .crash => [.crash]

theorem callStep_eq (X : Crates) (s : Engine) (c : Call) :
    callStep X s c = Run.exec (step X) s (c.events X s) := by
  cases c with
  | batch addOk ops => exact processBatch_fst ..
  | _ => rfl

theorem exec_callStep (X : Crates) : ∀ (cs : List Call) (s : Engine),
    ∃ es, Run.exec (callStep X) s cs = Run.exec (step X) s es
  | [], _ => ⟨[], rfl⟩
  | c :: cs, s => by
    obtain ⟨es, h⟩ := exec_callStep X cs (callStep X s c)
    exact ⟨c.events X s ++ es, by rw [Run.exec_append, ← callStep_eq, Run.exec_cons, h]⟩

/-- An event as a call; an operation is a batch of one. -/
def Event.toCall : Event → Call
  | .op addOk o => .batch (fun _ => addOk) [o]
  | .commit r => .commit r
  | .reload => .reload
  | .prune now r => .prune now r
  | .crash => .crash

theorem step_eq (X : Crates) (s : Engine) (e : Event) :
    step X s e = callStep X s (Event.toCall e) := by
  cases e with
  | op addOk o =>
    simp only [Event.toCall, callStep, processBatch_fst, batchEvents, ite_self]; rfl
  | _ => rfl

theorem exec_step (X : Crates) (es : List Event) (s : Engine) :
    Run.exec (step X) s es = Run.exec (callStep X) s (es.map Event.toCall) := by
  induction es generalizing s with
  | nil => rfl
  | cons e es ih => rw [List.map_cons, Run.exec_cons, Run.exec_cons, ← step_eq, ih]

/-- **Runs of whole batches and runs of single operations reach the same states.** -/
theorem reachable_iff (X : Crates) (s : Engine) :
    Reachable X s ↔ Run.Reachable (callStep X) (new []) s := by
  constructor
  · rintro ⟨es, rfl⟩
    exact ⟨_, (exec_step X es _).symm⟩
  · rintro ⟨cs, rfl⟩
    obtain ⟨es, h⟩ := exec_callStep X cs (new [])
    exact ⟨es, h.symm⟩

end Engine

end Tantylla
