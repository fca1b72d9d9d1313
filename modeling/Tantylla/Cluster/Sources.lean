/-
  Where the items of a run come from.

  `Q` is a property of items that the items routed from the rows of a run have, and the
  deletes of its range deletes.  Then every item that a task holds has it (`Task.Only`), and
  so have the items in the buffer and those in the requests: `Sourced.step`.
-/
import Tantylla.Cluster.Executed

namespace Tantylla

open Ingestor

namespace Ingestor

variable {M : Ingestor} {Q : BatchItem → Prop} {R : CDCRow → Prop}

/-! ## The items of a task -/

/-- The row the flush was called for has the property `R`, and the items still to add have
    `Q`. -/
def After.Only (Q : BatchItem → Prop) (R : CDCRow → Prop) : After → Prop
  | .route row opType => R row ∧ RoutingAction.determine row.operation = .forward opType
  | .add _ item rest => ∀ i ∈ item :: rest, Q i
  | .tick | .shutdown | .rangeDelete _ _ _ => True

def Task.Only (Q : BatchItem → Prop) (R : CDCRow → Prop) (t : Task) : Prop :=
  match t.control with
  | .routing row opType => R row ∧ RoutingAction.determine row.operation = .forward opType
  | .adding _ item rest | .pushing _ item rest => ∀ i ∈ item :: rest, Q i
  | .taking after | .flushing _ after => after.Only Q R
  | .waiting | .fetching _ _ | .stopped => True

/-- The items that rows with `R` are routed as have `Q`, and so have those of range deletes. -/
structure Makes (M : Ingestor) (Q : BatchItem → Prop) (R : CDCRow → Prop) : Prop where
  route : ∀ row opType item, R row → RoutingAction.determine row.operation = .forward opType →
    M.router.routeItem M.crates row opType = some item → Q item
  rangeDelete : ∀ start row ids, ∀ item ∈ M.router.rangeDeleteItems M.crates start row ids, Q item

theorem Task.only_iff {t : Task} {control : Control} (h : t.control = control) :
    t.Only Q R ↔ Task.Only Q R { t with control } := by rw [← h]

section
variable (s : Shared) (t : Task) (row : CDCRow)

theorem only_addItems {items : List BatchItem} (h : ∀ i ∈ items, Q i) :
    (addItems s t row items).2.Only Q R := by
  cases items with
  | nil => trivial
  | cons item rest => exact h

theorem only_routeForward (hM : Makes M Q R) {opType : OpType} (hrow : R row)
    (hf : RoutingAction.determine row.operation = .forward opType) :
    (routeForward M s t row opType).2.Only Q R := by
  unfold routeForward
  cases hitem : M.router.routeItem M.crates row opType with
  | some item =>
    refine only_addItems s t row fun i hi => ?_
    rw [List.mem_singleton.1 hi]
    exact hM.route row opType item hrow hf hitem
  | none => trivial

theorem only_flushed (hM : Makes M Q R) (failedNodes : List String) {after : After}
    (h : after.Only Q R) : (flushed M s t failedNodes after).2.Only Q R := by
  cases after with
  | tick | shutdown => trivial
  | route row opType =>
    rw [flushed]
    split_ifs
    · exact only_routeForward s t row hM h.1 h.2
    · trivial
  | add row item rest =>
    rw [flushed]
    split_ifs
    · exact only_addItems _ t row fun i hi => h i (List.mem_cons_of_mem _ hi)
    · trivial
  | rangeDelete row start failed =>
    rw [flushed]
    split_ifs
    · trivial
    · trivial

theorem only_continueFlush (hM : Makes M Q R) {after : After} (h : after.Only Q R)
    (st : FlushState) : (continueFlush M s t after st).2.Only Q R := by
  cases st with
  | running f => exact h
  | returned failedNodes => exact only_flushed s t hM failedNodes h

theorem only_consumeCdc (hrow : R row) : (consumeCdc M s t row).2.Only Q R := by
  unfold consumeCdc
  cases hd : RoutingAction.determine row.operation with
  | skip => trivial
  | rangeDeleteStart => cases M.router.extractRangeDeleteStart M.crates row <;> trivial
  | rangeDeleteEnd => cases t.pendingRangeStart <;> trivial
  | forward opType => exact ⟨hrow, hd⟩

end

/-- **A move keeps what is known of the items of its task.** -/
theorem only_act (hM : Makes M Q R) {m : Move} (hm : ∀ row, m = .row row → R row) {s : Shared}
    {t : Task} (h : t.Only Q R) : (act M m s t).2.Only Q R := by
  have hstep := act_step M m s t
  generalize act M m s t = p at hstep ⊢
  cases hstep with
  | idle => exact h
  | tick | shutdown | refused | unfetched => trivial
  | row row => exact only_consumeCdc s t row (hm row rfl)
  | backpressure _ hc | admitted _ hc =>
    rw [Task.only_iff hc] at h
    exact h
  | route _ hc =>
    rw [Task.only_iff hc] at h
    exact only_routeForward s t _ hM h.1 h.2
  | @push k row item rest hc =>
    rw [Task.only_iff hc] at h
    simp only [pushItem]
    split_ifs
    · exact h
    · exact only_addItems _ t row fun i hi => h i (List.mem_cons_of_mem _ hi)
  | @take k after hc =>
    rw [Task.only_iff hc] at h
    unfold takeBuffer
    split_ifs
    · exact only_flushed s t hM [] h
    · exact only_continueFlush _ t hM h _
  | reply _ _ hc =>
    rw [Task.only_iff hc] at h
    exact only_continueFlush _ t hM h _
  | fetched _ hc => exact only_addItems s t _ (hM.rangeDelete _ _ _)

/-! ## The requests -/

/-- The delivery is that of an item with `Q`. -/
def IsOf (Q : BatchItem → Prop) (e : Delivery) : Prop := ∃ item, Q item ∧ item.delivery = e

/-- The items of the tasks, of the buffer and of the requests have `Q`. -/
structure Sourced (M : Ingestor) (Q : BatchItem → Prop) (R : CDCRow → Prop) (s : Network) :
    Prop where
  tasks : ∀ t ∈ s.state.tasks, t.Only Q R
  buffer : ∀ e ∈ buffered M s.state.shared, IsOf Q e
  requests : ∀ r ∈ s.requests, ∀ e ∈ deliveries r, IsOf Q e

theorem sourced_start : Sourced M Q R netStart where
  tasks t ht := by
    rcases List.mem_cons.1 ht with rfl | ht
    · trivial
    · rw [List.mem_singleton.1 ht]; trivial
  buffer e he := by cases he
  requests r hr := by simp [Network.requests, netStart, start, Task.requests, Task.flush] at hr

/-- Where a batch comes from. -/
theorem mem_deliveries_nodeBatches {D : Serde} {items : List String} {r : Request}
    (hr : r ∈ nodeBatches D items) {e : Delivery} (he : e ∈ deliveries r) :
    e ∈ (items.filterMap D.fromStr).map BatchItem.delivery := by
  have hcount := count_nodeBatches e D items
  have hpos : 0 < ((nodeBatches D items).flatMap deliveries).count e :=
    List.count_pos_iff.2 (List.mem_flatMap.2 ⟨r, hr, he⟩)
  exact List.count_pos_iff.1 (hcount ▸ hpos)

theorem only_tasks_netStep (hM : Makes M Q R) {s : Network} (h : ∀ t ∈ s.state.tasks, t.Only Q R)
    {ev : NetEvent} (hev : ∀ i row, ev = .move i (.row row) → R row) :
    ∀ t ∈ (netStep M s ev).state.tasks, t.Only Q R := by
  cases ev with
  | move i m =>
    rw [netStep]
    split_ifs
    · exact h
    · show ∀ t ∈ (step M s.state (.task i m)).tasks, t.Only Q R
      refine (Pool.act_forall (I := fun _ => True) i (fun t _ _ ht => ?_) ⟨trivial, h⟩).2
      exact ⟨trivial, only_act hM (fun row hrow => hev i row (by rw [hrow])) ht⟩
  | newConsumer =>
    intro t ht
    rcases List.mem_append.1 ht with ht | ht
    · exact h t ht
    · rw [List.mem_singleton.1 ht]; trivial
  | reach i =>
    rw [netStep]
    cases s.state.flush i with
    | none => exact h
    | some f => simp only; split_ifs <;> exact h
  | reachLate j =>
    rw [netStep]
    cases s.late[j]? <;> exact h

/-- **An event keeps where the items come from.** -/
theorem Sourced.step (hM : Makes M Q R) {s : Network} (h : Sourced M Q R s) {ev : NetEvent}
    (hread : NetReads M s ev) (hev : ∀ i row, ev = .move i (.row row) → R row) :
    Sourced M Q R (netStep M s ev) := by
  have htasks := only_tasks_netStep hM h.tasks hev
  have hstep := netStep_step (M := M) s ev
  refine ⟨htasks, ?_, ?_⟩
  · -- what is pushed comes from the task that pushes it
    generalize netStep M s ev = s' at hstep
    cases hstep with
    | quiet _ hbuffer | reply _ _ _ hbuffer =>
      rw [buffered_congr hbuffer]
      exact h.buffer
    | reach _ _ hstate | reachLate _ hstate => rw [hstate]; exact h.buffer
    | @push i k t item _ ht hpush _ hbuffer =>
      rw [buffered_push hbuffer (hread t ht item hpush)]
      intro e he
      rcases List.mem_append.1 he with he | he
      · exact h.buffer e he
      · rw [List.mem_singleton.1 he]
        obtain ⟨_, row, rest, -, hc⟩ := pushes_eq_some (m := .proceed k) hpush
        have honly := h.tasks t (List.mem_of_getElem? ht)
        rw [Task.only_iff hc] at honly
        exact ⟨item, honly item List.mem_cons_self, rfl⟩
    | take _ _ _ _ hbuffer =>
      intro e he
      rw [buffered, hbuffer] at he
      cases he
  · -- a request is an old one, or a batch of the buffer
    intro r hr e he
    rcases hstep.mem_requests hr with hr | hr
    · exact h.requests r hr e he
    · exact h.buffer e (mem_deliveries_nodeBatches hr he)

end Ingestor

end Tantylla
