/-
  The ingestor as a system of tasks (`main.rs`, `cdc/consumer.rs`, `router/core.rs`,
  `batch/service.rs`).

  The tasks share the batch service: its buffer and the flag of the last flush.  There
  is the service's ticker, the main task, which flushes once on shutdown, and any number
  of consumers, each with the rows of its streams.  A task stops where it waits: for a
  row, for the next tick, for the answer of a node, or for another task's lock.  So each
  check of the flag, each push and each taking of the buffer is a step of its own, and a
  run interleaves the steps of the tasks in any order (`Event.task`).

  `add` is called for the items of a row one after the other: the one item of a row that
  is forwarded, or the deletes that a range delete resolves to.  `After` says who called
  a flush and goes on when it returns.  `TaskStep` says once what a move can do.

  A run also saves checkpoints and crashes.  A checkpoint covers rows for which
  `consume_cdc` has returned `Ok`.  A crash loses all but the checkpoints.
-/
import Tantylla.Ingestor.RangeDelete
import Tantylla.Lib.Pool
import Tantylla.Lib.Run

namespace Tantylla

/-- What `main` sets up. -/
structure Ingestor where
  crates : RouterCrates
  serde : Serde
  router : Router

namespace Ingestor

/-- `FLUSH_RETRIES` -/
def flushRetries : ℕ := 3

/-- The tasks of an ingestor. -/
inductive Role where
  | ticker
  | main
  | consumer
  deriving DecidableEq

/-- Who called a flush, with what is left to do. -/
inductive After where
  /-- the ticker -/
  | tick
  /-- `main`, on shutdown -/
  | shutdown
  /-- `route_forward`, under backpressure -/
  | route (row : CDCRow) (opType : OpType)
  /-- `add`, at the batch limit; `rest` are the items of the row still to add -/
  | add (row : CDCRow) (item : BatchItem) (rest : List BatchItem)
  /-- `commit_range_delete`; the flushes that failed so far -/
  | rangeDelete (row : CDCRow) (start : PendingRangeStart) (failed : ℕ)

/-- Where a task is. -/
inductive Control where
  | waiting
  /-- at the check of `route_forward` -/
  | routing (row : CDCRow) (opType : OpType)
  /-- at the check of `add` -/
  | adding (row : CDCRow) (item : BatchItem) (rest : List BatchItem)
  /-- past the check, before the push -/
  | pushing (row : CDCRow) (item : BatchItem) (rest : List BatchItem)
  /-- in a flush, before it takes the buffer -/
  | taking (after : After)
  | flushing (f : Flush) (after : After)
  /-- waiting for the ids of the partition -/
  | fetching (row : CDCRow) (start : PendingRangeStart)
  /-- returned, a consumer with `Err` -/
  | stopped

structure Task where
  role : Role
  pendingRangeStart : Option PendingRangeStart
  control : Control

/-- The batch service, and what has happened to items and rows since the start of the
    process: the items for which `add` has returned `Ok` (`accepted`), and the rows for
    which `consume_cdc` has (`consumed`).  `acked` are the operations that their nodes
    have acknowledged, since ever. -/
structure Shared where
  buffer : List String
  lastFlushFailed : Bool
  accepted : List Delivery
  consumed : List CDCRow
  acked : List Delivery

/-- What a task does next, or what happens to it. -/
inductive Move where
  /-- the interval of the ticker is over -/
  | tick
  /-- the shutdown signal -/
  | shutdown
  /-- a row for a consumer -/
  | row (row : CDCRow)
  /-- the task goes on; `k` chooses the first batch of a flush -/
  | proceed (k : ℕ)
  /-- the answer of a node; `k` chooses the next batch -/
  | reply (k : ℕ) (response : Option IndexBatchResponse)
  /-- the ids that a node lists for a partition, or an error -/
  | fetched (allDocIds : Option (List String))

variable (M : Ingestor)

/-! ## The functions of a task

Each gives the shared state and the task when it stops next. -/

def Task.stop (t : Task) : Task := { t with control := .stopped }

/-- `consume_cdc` returns `Ok`. -/
def consumedOk (s : Shared) (t : Task) (row : CDCRow) : Shared × Task :=
  ({ s with consumed := s.consumed ++ [row] }, { t with control := .waiting })

/-- Items are added one after the other, then `consume_cdc` returns `Ok`. -/
def addItems (s : Shared) (t : Task) (row : CDCRow) : List BatchItem → Shared × Task
  | [] => consumedOk s t row
  | item :: rest => (s, { t with control := .adding row item rest })

/-- `add` returns `Ok`. -/
def addedOk (s : Shared) (t : Task) (row : CDCRow) (item : BatchItem) (rest : List BatchItem) :
    Shared × Task :=
  addItems { s with accepted := s.accepted ++ [item.delivery] } t row rest

/-- `route_forward` after its check: it makes the item and adds it. -/
def routeForward (s : Shared) (t : Task) (row : CDCRow) (opType : OpType) : Shared × Task :=
  match M.router.routeItem M.crates row opType with
  | some item => addItems s t row [item]
  | none => (s, t.stop)

/-- A flush has returned to its caller: `Ok` if no node failed.  A range delete goes on
    after three failures. -/
def flushed (s : Shared) (t : Task) (failedNodes : List String) : After → Shared × Task
  | .tick => ({ s with lastFlushFailed := failedNodes ≠ [] }, { t with control := .waiting })
  | .shutdown => (s, t.stop)
  | .route row opType => if failedNodes = [] then routeForward M s t row opType else (s, t.stop)
  | .add row item rest => if failedNodes = [] then addedOk s t row item rest else (s, t.stop)
  | .rangeDelete row start failed =>
    if failedNodes = [] ∨ failed + 1 = flushRetries then
      (s, { t with control := .fetching row start })
    else (s, { t with control := .taking (.rangeDelete row start (failed + 1)) })

/-- A flush goes on, or returns. -/
def continueFlush (s : Shared) (t : Task) (after : After) : FlushState → Shared × Task
  | .running f => (s, { t with control := .flushing f after })
  | .returned failedNodes => flushed M s t failedNodes after

/-- A flush takes the buffer; it returns at once if there is nothing in it. -/
def takeBuffer (k : ℕ) (s : Shared) (t : Task) (after : After) : Shared × Task :=
  if s.buffer = [] then flushed M s t [] after
  else continueFlush M { s with buffer := [] } t after
    (nextBatch k [] (nodeBatches M.serde s.buffer))

/-- `add` after its check: it pushes the item, and flushes at the limit. -/
def pushItem (s : Shared) (t : Task) (row : CDCRow) (item : BatchItem) (rest : List BatchItem) :
    Shared × Task :=
  let s' := { s with buffer := s.buffer ++ [M.serde.toString item] }
  if batchLimit ≤ s'.buffer.length then (s', { t with control := .taking (.add row item rest) })
  else addedOk s' t row item rest

/-- `consume_cdc`. -/
def consumeCdc (s : Shared) (t : Task) (row : CDCRow) : Shared × Task :=
  match RoutingAction.determine row.operation with
  | .skip => consumedOk s t row
  | .rangeDeleteStart =>
    match M.router.extractRangeDeleteStart M.crates row with
    | some pending => consumedOk s { t with pendingRangeStart := some pending } row
    | none => (s, t.stop)
  | .rangeDeleteEnd =>
    match t.pendingRangeStart with
    | some start =>
      (s, { t with pendingRangeStart := none, control := .taking (.rangeDelete row start 0) })
    | none => (s, t.stop)
  | .forward opType => (s, { t with control := .routing row opType })

/-- A move of a task; one that does not fit where the task is leaves it as it is. -/
def act (m : Move) (s : Shared) (t : Task) : Shared × Task :=
  match m, t.control with
  | .tick, .waiting => if t.role = .ticker then (s, { t with control := .taking .tick }) else (s, t)
  | .shutdown, .waiting =>
    if t.role = .main then (s, { t with control := .taking .shutdown }) else (s, t)
  | .row row, .waiting => if t.role = .consumer then consumeCdc M s t row else (s, t)
  | .proceed _, .routing row opType =>
    if s.lastFlushFailed then (s, { t with control := .taking (.route row opType) })
    else routeForward M s t row opType
  | .proceed _, .adding row item rest =>
    if s.lastFlushFailed then (s, t.stop) else (s, { t with control := .pushing row item rest })
  | .proceed _, .pushing row item rest => pushItem M s t row item rest
  | .proceed k, .taking after => takeBuffer M k s t after
  | .reply k response, .flushing f after =>
    continueFlush M { s with acked := s.acked ++ f.acknowledged response } t after
      (f.reply k response)
  | .fetched (some allDocIds), .fetching row start =>
    addItems s t row (M.router.rangeDeleteItems M.crates start row allDocIds)
  | .fetched none, .fetching _ _ => (s, t.stop)
  | _, _ => (s, t)

/-- What the move `m` can do from the shared state `s`: the state after. -/
inductive TaskStep (s : Shared) (t : Task) : Move → Shared × Task → Prop
  | idle (m : Move) : TaskStep s t m (s, t)
  | tick : t.role = .ticker → t.control = .waiting →
      TaskStep s t .tick (s, { t with control := .taking .tick })
  | shutdown : t.role = .main → t.control = .waiting →
      TaskStep s t .shutdown (s, { t with control := .taking .shutdown })
  | row (row : CDCRow) : t.role = .consumer → t.control = .waiting →
      TaskStep s t (.row row) (consumeCdc M s t row)
  | backpressure (k : ℕ) {row : CDCRow} {opType : OpType} : t.control = .routing row opType →
      s.lastFlushFailed = true →
      TaskStep s t (.proceed k) (s, { t with control := .taking (.route row opType) })
  | route (k : ℕ) {row : CDCRow} {opType : OpType} : t.control = .routing row opType →
      s.lastFlushFailed = false → TaskStep s t (.proceed k) (routeForward M s t row opType)
  | refused (k : ℕ) {row : CDCRow} {item : BatchItem} {rest : List BatchItem} :
      t.control = .adding row item rest → s.lastFlushFailed = true →
      TaskStep s t (.proceed k) (s, t.stop)
  | admitted (k : ℕ) {row : CDCRow} {item : BatchItem} {rest : List BatchItem} :
      t.control = .adding row item rest → s.lastFlushFailed = false →
      TaskStep s t (.proceed k) (s, { t with control := .pushing row item rest })
  | push (k : ℕ) {row : CDCRow} {item : BatchItem} {rest : List BatchItem} :
      t.control = .pushing row item rest →
      TaskStep s t (.proceed k) (pushItem M s t row item rest)
  | take (k : ℕ) {after : After} : t.control = .taking after →
      TaskStep s t (.proceed k) (takeBuffer M k s t after)
  | reply (k : ℕ) (response : Option IndexBatchResponse) {f : Flush} {after : After} :
      t.control = .flushing f after → TaskStep s t (.reply k response)
        (continueFlush M { s with acked := s.acked ++ f.acknowledged response } t after
          (f.reply k response))
  | fetched (allDocIds : List String) {row : CDCRow} {start : PendingRangeStart} :
      t.control = .fetching row start → TaskStep s t (.fetched (some allDocIds))
        (addItems s t row (M.router.rangeDeleteItems M.crates start row allDocIds))
  | unfetched {row : CDCRow} {start : PendingRangeStart} :
      t.control = .fetching row start → TaskStep s t (.fetched none) (s, t.stop)

theorem act_step (m : Move) (s : Shared) (t : Task) : TaskStep M s t m (act M m s t) := by
  unfold act
  split
  case _ hc =>
    split_ifs with hr
    · exact .tick hr hc
    · exact .idle _
  case _ hc =>
    split_ifs with hr
    · exact .shutdown hr hc
    · exact .idle _
  case _ row hc =>
    split_ifs with hr
    · exact .row row hr hc
    · exact .idle _
  case _ hc =>
    split_ifs with hl
    · exact .backpressure _ hc hl
    · exact .route _ hc (Bool.eq_false_of_not_eq_true hl)
  case _ hc =>
    split_ifs with hl
    · exact .refused _ hc hl
    · exact .admitted _ hc (Bool.eq_false_of_not_eq_true hl)
  case _ hc => exact .push _ hc
  case _ hc => exact .take _ hc
  case _ hc => exact .reply _ _ hc
  case _ hc => exact .fetched _ hc
  case _ hc => exact .unfetched hc
  case _ => exact .idle _

/-! ## The system -/

/-- The state of an ingestor: its tasks, and the rows that stored checkpoints cover. -/
structure State extends Pool Shared Task where
  checkpoint : List CDCRow

/-- One event of an ingestor. -/
inductive Event where
  | task (i : ℕ) (m : Move)
  | newConsumer
  /-- a checkpoint is stored that covers the row consumed as number `j` -/
  | save (j : ℕ)
  | crash

/-- A new consumer of the factory. -/
def newConsumer : Task := ⟨.consumer, none, .waiting⟩

/-- An ingestor that has just started, with the checkpoints and acknowledgements of the
    processes before it. -/
def start (acked : List Delivery) (checkpoint : List CDCRow) : State where
  shared := { buffer := [], lastFlushFailed := false, accepted := [], consumed := [], acked }
  tasks := [⟨.ticker, none, .waiting⟩, ⟨.main, none, .waiting⟩]
  checkpoint := checkpoint

/-- The state of an ingestor after an event; after a crash it starts again. -/
def step (s : State) : Event → State
  | .task i m => { s with toPool := s.toPool.act (act M m) i }
  | .newConsumer => { s with tasks := s.tasks ++ [newConsumer] }
  | .save j => { s with checkpoint := s.checkpoint ++ (s.shared.consumed[j]?).toList }
  | .crash => start s.shared.acked s.checkpoint

section
variable {M} {s : State} {i : ℕ} {t : Task}

/-- The task `i` moves. -/
theorem step_task (ht : s.tasks[i]? = some t) (m : Move) :
    step M s (.task i m) =
      { s with shared := (act M m s.shared t).1
               tasks := s.tasks.set i (act M m s.shared t).2 } := by
  rw [step, Pool.act_of_getElem? ht]

theorem getElem?_step_task (ht : s.tasks[i]? = some t) (m : Move) :
    (step M s (.task i m)).tasks[i]? = some (act M m s.shared t).2 :=
  Pool.getElem?_act ht

theorem getElem?_step_task_of_ne {j : ℕ} (hj : j ≠ i) (m : Move) :
    (step M s (.task j m)).tasks[i]? = s.tasks[i]? :=
  Pool.getElem?_act_of_ne hj

theorem getElem?_step_newConsumer (ht : s.tasks[i]? = some t) :
    (step M s .newConsumer).tasks[i]? = some t := by
  rw [step, List.getElem?_append_left (List.getElem?_eq_some_iff.1 ht).1, ht]

/-- A new consumer adds nothing to a measure that is zero for it. -/
theorem total_step_newConsumer {g : Task → ℕ} (hg : g newConsumer = 0) (s : State) :
    (step M s .newConsumer).total g = s.total g := by
  simp only [step, Pool.total, List.map_append, List.sum_append, List.map_cons, List.map_nil,
    List.sum_cons, List.sum_nil, hg, Nat.add_zero]

end

end Ingestor

end Tantylla
