/-
  No accepted item is lost while its batches are answered.

  What `add` has accepted, and what it is about to accept, is owed; it is kept in the
  buffer, by a flush that has not returned, or by the node that acknowledged it.
  `accounts_act`: a step of a task keeps all that it owes.  `accepted_kept`: so does
  every run, for each delivery of which no batch is given up.
-/
import Tantylla.Ingestor.System

namespace Tantylla

namespace Ingestor

variable {M : Ingestor} {e : Delivery}

/-! ## What is owed and what is kept -/

/-- The deliveries of the items in the buffer. -/
def buffered (M : Ingestor) (s : Shared) : List Delivery :=
  (s.buffer.filterMap M.serde.fromStr).map BatchItem.delivery

/-- The flush that the task runs. -/
def Task.flush (t : Task) : Option Flush :=
  match t.control with
  | .flushing f _ => some f
  | _ => none

/-- The deliveries that the task holds in a flush. -/
def Task.held (t : Task) : List Delivery := (t.flush.map Flush.held).getD []

/-- The item of an `add` that waits for its flush. -/
def After.adding : After → List Delivery
  | .add _ item _ => [item.delivery]
  | _ => []

def Task.adding (t : Task) : List Delivery :=
  match t.control with
  | .taking after | .flushing _ after => after.adding
  | _ => []

/-- The deliveries that unfinished flushes hold. -/
def State.held (s : State) : List Delivery := s.tasks.flatMap Task.held

/-- A step from the shared state `s` keeps what it owes, where the task owed `n` and kept
    `m` before it. -/
def Accounts (M : Ingestor) (e : Delivery) (s : Shared) (n m : ℕ) (p : Shared × Task) : Prop :=
  p.1.accepted.count e + p.2.adding.count e + ((buffered M s).count e + s.acked.count e) + m ≤
    s.accepted.count e + n + ((buffered M p.1).count e + p.1.acked.count e) + p.2.held.count e

section
variable {s s' : Shared}

theorem buffered_congr (h : s'.buffer = s.buffer) : buffered M s' = buffered M s := by
  rw [buffered, buffered, h]

/-- An item that is pushed and reads back. -/
theorem buffered_push {item : BatchItem} (h : s'.buffer = s.buffer ++ [M.serde.toString item])
    (hread : M.serde.fromStr (M.serde.toString item) = some item) :
    buffered M s' = buffered M s ++ [item.delivery] := by
  rw [buffered, h, List.filterMap_append, List.map_append, List.filterMap_cons_some hread]
  rfl

end

section
variable (s : Shared) (t : Task) (row : CDCRow)

/-- A task that owes nothing more than before. -/
theorem accounts_of_idle (n : ℕ) {t : Task} (hadding : t.adding = []) :
    Accounts M e s n 0 (s, t) := by
  simp only [Accounts, hadding, List.count_nil]
  omega

theorem accounts_addItems (n : ℕ) (items : List BatchItem) :
    Accounts M e s n 0 (addItems s t row items) := by
  cases items with
  | nil =>
    show s.accepted.count e + 0 + ((buffered M s).count e + s.acked.count e) + 0 ≤
      s.accepted.count e + n + ((buffered M s).count e + s.acked.count e) + 0
    omega
  | cons item rest => exact accounts_of_idle s n rfl

theorem accounts_addedOk (item : BatchItem) (rest : List BatchItem) :
    Accounts M e s ([item.delivery].count e) 0 (addedOk s t row item rest) := by
  have h := @accounts_addItems M e { s with accepted := s.accepted ++ [item.delivery] } t row 0 rest
  simp only [Accounts, List.count_append] at h
  exact h

theorem accounts_routeForward (n : ℕ) (opType : OpType) :
    Accounts M e s n 0 (routeForward M s t row opType) := by
  unfold routeForward
  cases M.router.routeItem M.crates row opType with
  | some item => exact accounts_addItems ..
  | none => exact accounts_of_idle s n rfl

theorem accounts_flushed (failedNodes : List String) (after : After) :
    Accounts M e s (after.adding.count e) 0 (flushed M s t failedNodes after) := by
  cases after with
  | tick => exact Nat.le_refl _
  | shutdown => exact accounts_of_idle s _ rfl
  | route row opType =>
    rw [flushed]
    split_ifs
    · exact accounts_routeForward ..
    · exact accounts_of_idle s _ rfl
  | add row item rest =>
    rw [flushed]
    split_ifs
    · exact accounts_addedOk ..
    · exact accounts_of_idle s _ rfl
  | rangeDelete row start failed =>
    rw [flushed]
    split_ifs
    · exact accounts_of_idle s _ rfl
    · exact accounts_of_idle s _ rfl

theorem accounts_continueFlush (after : After) (st : FlushState) :
    Accounts M e s (after.adding.count e) (st.held.count e) (continueFlush M s t after st) := by
  cases st with
  | running f => exact Nat.le_refl _
  | returned failedNodes => exact accounts_flushed ..

/-- What a flush takes out of the buffer it holds. -/
theorem accounts_takeBuffer (k : ℕ) (after : After) :
    Accounts M e s (after.adding.count e) 0 (takeBuffer M k s t after) := by
  unfold takeBuffer
  split_ifs
  · exact accounts_flushed ..
  · have h := @accounts_continueFlush M e { s with buffer := [] } t after
      (nextBatch k [] (nodeBatches M.serde s.buffer))
    rw [count_nextBatch, count_nodeBatches] at h
    simp only [Accounts, buffered, List.filterMap_nil, List.map_nil, List.count_nil] at h ⊢
    omega

/-- An item that reads back is in the buffer when `add` owes it. -/
theorem accounts_pushItem {item : BatchItem} (rest : List BatchItem)
    (hread : M.serde.fromStr (M.serde.toString item) = some item) :
    Accounts M e s 0 0 (pushItem M s t row item rest) := by
  have hbuffer : (buffered M { s with buffer := s.buffer ++ [M.serde.toString item] }).count e =
      (buffered M s).count e + [item.delivery].count e := by
    rw [buffered_push rfl hread, List.count_append]
  simp only [pushItem]
  split_ifs
  · simp only [Accounts, Task.adding, After.adding, Task.held, hbuffer]
    omega
  · have h := @accounts_addedOk M e { s with buffer := s.buffer ++ [M.serde.toString item] } t row
      item rest
    simp only [Accounts, hbuffer] at h ⊢
    omega

theorem accounts_consumeCdc (n : ℕ) : Accounts M e s n 0 (consumeCdc M s t row) := by
  have hok (t' : Task) : Accounts M e s n 0 (consumedOk s t' row) :=
    accounts_addItems s t' row n []
  unfold consumeCdc
  cases RoutingAction.determine row.operation with
  | skip => exact hok t
  | rangeDeleteStart =>
    cases M.router.extractRangeDeleteStart M.crates row with
    | some pending => exact hok _
    | none => exact accounts_of_idle s n rfl
  | rangeDeleteEnd =>
    cases t.pendingRangeStart with
    | some start => exact accounts_of_idle s n rfl
    | none => exact accounts_of_idle s n rfl
  | forward opType => exact accounts_of_idle s n rfl

end

/-! ## Steps and runs -/

/-- The item that the task pushes next. -/
def Task.pushed (t : Task) : Option BatchItem :=
  match t.control with
  | .pushing _ item _ => some item
  | _ => none

/-- An item that the task pushes is read back as it was written. -/
def Task.Reads (M : Ingestor) (t : Task) : Prop :=
  ∀ item ∈ t.pushed, M.serde.fromStr (M.serde.toString item) = some item

/-- No answer to the task gives up a batch with the delivery `e`. -/
def Task.Answered (e : Delivery) (t : Task) : Move → Prop
  | .reply _ response => ∀ f ∈ t.flush, e ∈ deliveries (f.targetNode, f.operations) →
    f.Answered response
  | _ => True

instance (M : Ingestor) (t : Task) : Decidable (t.Reads M) :=
  inferInstanceAs (Decidable (∀ item ∈ t.pushed, M.serde.fromStr _ = some item))

instance (e : Delivery) (t : Task) : ∀ m, Decidable (t.Answered e m)
  | .reply _ response => inferInstanceAs (Decidable (∀ f ∈ t.flush, _ → f.Answered response))
  | .tick | .shutdown | .row _ | .proceed _ | .fetched _ => isTrue trivial

theorem Task.adding_eq {t : Task} {control : Control} (h : t.control = control) :
    t.adding = Task.adding { t with control } := by rw [← h]

theorem Task.held_eq {t : Task} {control : Control} (h : t.control = control) :
    t.held = Task.held { t with control } := by rw [← h]

/-- **A step of a task keeps what it owes.** -/
theorem accounts_act {m : Move} {s : Shared} {t : Task} (hread : t.Reads M)
    (hans : t.Answered e m) :
    Accounts M e s (t.adding.count e) (t.held.count e) (act M m s t) := by
  have hstep := act_step M m s t
  generalize act M m s t = p at hstep ⊢
  cases hstep with
  | idle => exact Nat.le_refl _
  | tick _ hc | shutdown _ hc | backpressure _ hc | refused _ hc | admitted _ hc | unfetched hc =>
    rw [t.adding_eq hc, t.held_eq hc]
    exact accounts_of_idle s _ rfl
  | row row _ hc =>
    rw [t.adding_eq hc, t.held_eq hc]
    exact accounts_consumeCdc s t row _
  | route _ hc =>
    rw [t.adding_eq hc, t.held_eq hc]
    exact accounts_routeForward s t _ _ _
  | push _ hc =>
    rw [t.adding_eq hc, t.held_eq hc]
    exact accounts_pushItem s t _ _ (hread _ (by rw [Task.pushed, hc]; rfl))
  | take k hc =>
    rw [t.adding_eq hc, t.held_eq hc]
    exact accounts_takeBuffer s t k _
  | @reply k response f after hc =>
    rw [t.adding_eq hc, t.held_eq hc]
    have hkept := f.count_reply k (hans f (by rw [Task.flush, hc]; rfl))
    have h := @accounts_continueFlush M e { s with acked := s.acked ++ f.acknowledged response } t
      after (f.reply k response)
    simp only [Accounts, buffered, List.count_append] at h ⊢
    change _ + f.held.count e ≤ s.accepted.count e + after.adding.count e + _ + _
    omega
  | fetched _ hc =>
    rw [t.adding_eq hc, t.held_eq hc]
    exact accounts_addItems s t _ _ _

/-- Along a step, `P` holds of the task that moves. -/
def OnTask (P : Task → Move → Prop) (s : State) : Event → Prop
  | .task i m => ∀ t ∈ s.tasks[i]?, P t m
  | _ => True

theorem OnTask.and {P Q : Task → Move → Prop} {s : State} {ev : Event} (hP : OnTask P s ev)
    (hQ : OnTask Q s ev) : OnTask (fun t m => P t m ∧ Q t m) s ev := by
  cases ev with
  | task i m => exact fun t ht => ⟨hP t ht, hQ t ht⟩
  | newConsumer | save | crash => trivial

instance {P : Task → Move → Prop} [∀ t m, Decidable (P t m)] (s : State) :
    ∀ ev, Decidable (OnTask P s ev)
  | .task i m => inferInstanceAs (Decidable (∀ t ∈ s.tasks[i]?, P t m))
  | .newConsumer | .save _ | .crash => isTrue trivial

/-- All that is owed is kept. -/
def Balanced (M : Ingestor) (e : Delivery) (s : State) : Prop :=
  s.shared.accepted.count e + s.total (fun t => t.adding.count e) ≤
    (buffered M s.shared).count e + s.shared.acked.count e + s.total fun t => t.held.count e

theorem balanced_start (acked : List Delivery) (checkpoint : List CDCRow) :
    Balanced M e (start acked checkpoint) := Nat.zero_le _

theorem Balanced.step {s : State} {ev : Event} (h : Balanced M e s)
    (hev : OnTask (fun t m => t.Reads M ∧ t.Answered e m) s ev) : Balanced M e (step M s ev) := by
  cases ev with
  | task i m =>
    refine Pool.balance (a := fun s => s.accepted.count e)
      (c := fun s => (buffered M s).count e + s.acked.count e) i (fun t ht => ?_) h
    obtain ⟨hread, hans⟩ := hev t ht
    have hact := @accounts_act M e m s.shared t hread hans
    unfold Accounts at hact
    omega
  | newConsumer =>
    rw [Balanced, total_step_newConsumer rfl, total_step_newConsumer rfl]
    exact h
  | save j => exact h
  | crash => exact balanced_start ..

theorem count_held (s : State) : s.held.count e = s.total fun t => t.held.count e :=
  List.count_flatMap ..

/-- **No accepted item is lost.**  In every run, and whatever happens to the other batches,
    each item for which `add` returned `Ok` is in the buffer, or held by a flush that has
    not returned, or acknowledged, as often as it was accepted, if no batch with its
    delivery is given up. -/
theorem accepted_kept {es : List Event}
    (hread : Run.Along (step M) (OnTask fun t _ => t.Reads M) (start [] []) es)
    (hans : Run.Along (step M) (OnTask fun t m => t.Answered e m) (start [] []) es) :
    (Run.exec (step M) (start [] []) es).shared.accepted.count e ≤
      (buffered M (Run.exec (step M) (start [] []) es).shared).count e +
        (Run.exec (step M) (start [] []) es).held.count e +
        (Run.exec (step M) (start [] []) es).shared.acked.count e := by
  have hbal : Balanced M e (Run.exec (step M) (start [] []) es) := by
    exact (hread.and hans).inv (fun s ev h hev => h.step (hev.1.and hev.2)) (balanced_start ..)
  rw [Balanced] at hbal
  rw [count_held]
  omega

/-! ## Sample runs -/

/-- A delete of the row with the key `x`. -/
def sampleDelete : CDCRow where
  streamId := "00"
  time := 0x1419d6801dd211b28000000000000000
  batchSeqNo := 0
  operation := .rowDelete
  ttl := none
  columns := [⟨"k", some (.text "x"), false, none⟩]

/-- The item of the delete. -/
def sampleItem : BatchItem where
  targetNode := "node"
  id := "x"
  opType := 2
  writetime := 1000000
  cdcTtl := none
  payloadJson := ""
  collectionDeltas := []
  partitionKey := some "x"

def sampleText : String :=
  "\x7b\"target_node\":\"node\",\"id\":\"x\",\"op_type\":2,\"writetime\":1000000," ++
  "\"cdc_ttl\":null,\"payload_json\":\"\",\"collection_deltas\":[],\"partition_key\":\"x\"\x7d"

/-- The item is written and read as the crate does. -/
def sampleIngestor : Ingestor where
  crates := sampleRouterCrates
  serde :=
    { toString := fun item => if item = sampleItem then sampleText else ""
      fromStr := fun s => if s = sampleText then some sampleItem else none }
  router := sampleRouter

/-- A consumer consumes the delete. -/
def consumeSample : List Event :=
  [.newConsumer, .task 2 (.row sampleDelete), .task 2 (.proceed 0), .task 2 (.proceed 0),
    .task 2 (.proceed 0)]

/-- The ticker flushes, and the node gives the answers `rs`. -/
def tickWith (rs : List (Option IndexBatchResponse)) : List Event :=
  [.task 0 .tick, .task 0 (.proceed 0)] ++ rs.map fun r => .task 0 (.reply 0 r)

/-- The node is reached at the second try. -/
theorem accepted_kept_retried :
    let s := Run.exec (step sampleIngestor) (start [] [])
      (consumeSample ++ tickWith [none, some ⟨1, 0, true⟩])
    s.shared.accepted.count sampleItem.delivery ≤
      (buffered sampleIngestor s.shared).count sampleItem.delivery +
        s.held.count sampleItem.delivery + s.shared.acked.count sampleItem.delivery :=
  accepted_kept (by decide +kernel) (by decide +kernel)

/-- The node is not reached at any of three tries: the flush returns `Err`, and the item is
    nowhere. -/
theorem accepted_item_lost :
    let s := Run.exec (step sampleIngestor) (start [] [])
      (consumeSample ++ tickWith [none, none, none])
    s.shared.lastFlushFailed = true ∧ s.shared.accepted = [sampleItem.delivery] ∧
      s.shared.buffer = [] ∧ s.held = [] ∧ s.shared.acked = [] := by
  decide +kernel

end Ingestor

end Tantylla
