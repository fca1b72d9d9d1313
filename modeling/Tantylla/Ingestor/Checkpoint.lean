/-
  What a checkpoint covers.

  A row is consumed when its item has been accepted (`proper_act`), which is before the
  item is delivered.  `covered_acknowledged`: the forwarded rows that checkpoints cover
  are acknowledged in every run, with crashes at any moment, in which their batches are
  answered and no checkpoint covers a row whose delivery is still in the buffer or in a
  flush.
-/
import Tantylla.Ingestor.Delivery

namespace Tantylla

namespace Ingestor

variable {M : Ingestor}

/-! ## Consumed rows -/

/-- If the row is forwarded, its item is among the deliveries `accepted`. -/
def Delivered (M : Ingestor) (accepted : List Delivery) (row : CDCRow) : Prop :=
  ∀ opType, RoutingAction.determine row.operation = .forward opType →
    ∃ item, M.router.itemOf M.crates row = some item ∧ item.delivery ∈ accepted

/-- If the row is forwarded, its item is all there is to add. -/
def Carries (M : Ingestor) (row : CDCRow) (items : List BatchItem) : Prop :=
  ∀ opType, RoutingAction.determine row.operation = .forward opType →
    ∃ item, M.router.itemOf M.crates row = some item ∧ items = [item]

/-- What the caller of a flush knows of its row. -/
def After.Proper (M : Ingestor) : After → Prop
  | .tick | .shutdown => True
  | .route row opType => RoutingAction.determine row.operation = .forward opType
  | .add row item rest => Carries M row (item :: rest)
  | .rangeDelete row _ _ => RoutingAction.determine row.operation = .rangeDeleteEnd

/-- What a task knows of its row. -/
def Task.Proper (M : Ingestor) (t : Task) : Prop :=
  match t.control with
  | .waiting | .stopped => True
  | .routing row opType => RoutingAction.determine row.operation = .forward opType
  | .adding row item rest | .pushing row item rest => Carries M row (item :: rest)
  | .taking after | .flushing _ after => after.Proper M
  | .fetching row _ => RoutingAction.determine row.operation = .rangeDeleteEnd

/-- The items of the consumed rows are accepted. -/
def AllDelivered (M : Ingestor) (s : Shared) : Prop :=
  ∀ row ∈ s.consumed, Delivered M s.accepted row

/-- A step from the shared state `s` is proper: it keeps what is known of the rows, and no
    acknowledgement is forgotten. -/
structure ProperStep (M : Ingestor) (s : Shared) (p : Shared × Task) : Prop where
  delivered : AllDelivered M p.1
  task : p.2.Proper M
  acked : s.acked ⊆ p.1.acked

theorem delivered_of_not_forward {row : CDCRow} {action : RoutingAction}
    (h : RoutingAction.determine row.operation = action) (hne : ∀ opType, action ≠ .forward opType)
    (accepted : List Delivery) : Delivered M accepted row :=
  fun opType hf => absurd (h.symm.trans hf) (hne opType)

section
variable {s : Shared} (t : Task) {row : CDCRow}

theorem proper_of_task (h : AllDelivered M s) {t : Task} (ht : t.Proper M) :
    ProperStep M s (s, t) := ⟨h, ht, List.Subset.refl _⟩

theorem proper_consumedOk (h : AllDelivered M s) (hrow : Delivered M s.accepted row) :
    ProperStep M s (consumedOk s t row) := by
  refine ⟨fun row' hrow' => ?_, trivial, List.Subset.refl _⟩
  rcases List.mem_append.1 hrow' with hrow' | hrow'
  · exact h row' hrow'
  · rw [List.mem_singleton.1 hrow']
    exact hrow

theorem proper_addItems (h : AllDelivered M s) {items : List BatchItem}
    (hnil : items = [] → Delivered M s.accepted row) (hcons : items ≠ [] → Carries M row items) :
    ProperStep M s (addItems s t row items) := by
  cases items with
  | nil => exact proper_consumedOk t h (hnil rfl)
  | cons item rest => exact proper_of_task h (hcons nofun)

theorem proper_addedOk (h : AllDelivered M s) {item : BatchItem} {rest : List BatchItem}
    (hrow : Carries M row (item :: rest)) : ProperStep M s (addedOk s t row item rest) := by
  have hall : AllDelivered M { s with accepted := s.accepted ++ [item.delivery] } := by
    intro row' hrow' opType hf
    obtain ⟨item', hitem', hmem⟩ := h row' hrow' opType hf
    exact ⟨item', hitem', List.mem_append_left _ hmem⟩
  have hnil : rest = [] → Delivered M (s.accepted ++ [item.delivery]) row := by
    rintro rfl opType hf
    obtain ⟨item', hitem', he⟩ := hrow opType hf
    cases he
    exact ⟨item, hitem', List.mem_append_right _ (List.mem_singleton_self _)⟩
  have hcons : rest ≠ [] → Carries M row rest := by
    intro hne opType hf
    obtain ⟨item', -, he⟩ := hrow opType hf
    exact absurd (List.cons.inj he).2 hne
  obtain ⟨hdel, htask, hacked⟩ := proper_addItems t hall hnil hcons
  exact ⟨hdel, htask, hacked⟩

theorem proper_routeForward (h : AllDelivered M s) {opType : OpType}
    (hf : RoutingAction.determine row.operation = .forward opType) :
    ProperStep M s (routeForward M s t row opType) := by
  unfold routeForward
  cases hitem : M.router.routeItem M.crates row opType with
  | some item =>
    refine proper_addItems t h nofun fun _ _ _ => ⟨item, ?_, rfl⟩
    rw [Router.itemOf_of_forward hf, hitem]
  | none => exact proper_of_task h trivial

theorem proper_flushed (h : AllDelivered M s) (failedNodes : List String) {after : After}
    (hafter : after.Proper M) : ProperStep M s (flushed M s t failedNodes after) := by
  cases after with
  | tick => exact ⟨h, trivial, List.Subset.refl _⟩
  | shutdown => exact proper_of_task h trivial
  | route row opType =>
    rw [flushed]
    split_ifs
    · exact proper_routeForward t h hafter
    · exact proper_of_task h trivial
  | add row item rest =>
    rw [flushed]
    split_ifs
    · exact proper_addedOk t h hafter
    · exact proper_of_task h trivial
  | rangeDelete row start failed =>
    rw [flushed]
    split_ifs
    · exact proper_of_task h hafter
    · exact proper_of_task h hafter

theorem proper_continueFlush (h : AllDelivered M s) {after : After} (hafter : after.Proper M)
    (st : FlushState) : ProperStep M s (continueFlush M s t after st) := by
  cases st with
  | running f => exact proper_of_task h hafter
  | returned failedNodes => exact proper_flushed t h failedNodes hafter

theorem proper_takeBuffer (h : AllDelivered M s) (k : ℕ) {after : After} (hafter : after.Proper M) :
    ProperStep M s (takeBuffer M k s t after) := by
  unfold takeBuffer
  split_ifs
  · exact proper_flushed t h [] hafter
  · obtain ⟨hdel, htask, hacked⟩ := @proper_continueFlush M { s with buffer := [] } t h after hafter
      (nextBatch k [] (nodeBatches M.serde s.buffer))
    exact ⟨hdel, htask, hacked⟩

theorem proper_pushItem (h : AllDelivered M s) {item : BatchItem} {rest : List BatchItem}
    (hrow : Carries M row (item :: rest)) : ProperStep M s (pushItem M s t row item rest) := by
  simp only [pushItem]
  split_ifs
  · exact ⟨h, hrow, List.Subset.refl _⟩
  · obtain ⟨hdel, htask, hacked⟩ := @proper_addedOk M
      { s with buffer := s.buffer ++ [M.serde.toString item] } t row h item rest hrow
    exact ⟨hdel, htask, hacked⟩

theorem proper_consumeCdc (h : AllDelivered M s) (row : CDCRow) :
    ProperStep M s (consumeCdc M s t row) := by
  unfold consumeCdc
  cases hd : RoutingAction.determine row.operation with
  | skip => exact proper_consumedOk t h (delivered_of_not_forward hd nofun _)
  | rangeDeleteStart =>
    cases M.router.extractRangeDeleteStart M.crates row with
    | some pending => exact proper_consumedOk _ h (delivered_of_not_forward hd nofun _)
    | none => exact proper_of_task h trivial
  | rangeDeleteEnd =>
    cases t.pendingRangeStart with
    | some start => exact proper_of_task h hd
    | none => exact proper_of_task h trivial
  | forward opType => exact proper_of_task h hd

end

theorem Task.proper_iff {t : Task} {control : Control} (h : t.control = control) :
    t.Proper M ↔ Task.Proper M { t with control } := by rw [← h]

/-- **A row is consumed only when its item has been accepted.** -/
theorem proper_act (m : Move) {s : Shared} {t : Task} (h : AllDelivered M s) (ht : t.Proper M) :
    ProperStep M s (act M m s t) := by
  have hstep := act_step M m s t
  generalize act M m s t = p at hstep ⊢
  cases hstep with
  | idle => exact proper_of_task h ht
  | tick | shutdown | refused | unfetched => exact proper_of_task h trivial
  | row row => exact proper_consumeCdc t h row
  | backpressure _ hc =>
    rw [Task.proper_iff hc] at ht
    exact proper_of_task h ht
  | route _ hc =>
    rw [Task.proper_iff hc] at ht
    exact proper_routeForward t h ht
  | admitted _ hc =>
    rw [Task.proper_iff hc] at ht
    exact proper_of_task h ht
  | push _ hc =>
    rw [Task.proper_iff hc] at ht
    exact proper_pushItem t h ht
  | take k hc =>
    rw [Task.proper_iff hc] at ht
    exact proper_takeBuffer t h k ht
  | @reply k response f after hc =>
    rw [Task.proper_iff hc] at ht
    obtain ⟨hdel, htask, hacked⟩ := @proper_continueFlush M
      { s with acked := s.acked ++ f.acknowledged response } t h after ht (f.reply k response)
    exact ⟨hdel, htask, fun e he => hacked (List.mem_append_left _ he)⟩
  | fetched _ hc =>
    rw [Task.proper_iff hc] at ht
    refine proper_addItems t h (fun _ => delivered_of_not_forward ht nofun _) ?_
    intro _ opType hf
    rw [show RoutingAction.determine _ = _ from ht] at hf
    cases hf

/-! ## Covered rows -/

/-- What is known of the rows in every state. -/
structure ProperState (M : Ingestor) (s : State) : Prop where
  delivered : AllDelivered M s.shared
  tasks : ∀ t ∈ s.tasks, t.Proper M
  covered : ∀ row ∈ s.checkpoint, ∀ opType,
    RoutingAction.determine row.operation = .forward opType →
      ∃ item, M.router.itemOf M.crates row = some item

theorem properState_start (acked : List Delivery) {checkpoint : List CDCRow}
    (h : ∀ row ∈ checkpoint, ∀ opType, RoutingAction.determine row.operation = .forward opType →
      ∃ item, M.router.itemOf M.crates row = some item) :
    ProperState M (start acked checkpoint) where
  delivered _ hrow := by cases hrow
  tasks t ht := by
    rcases List.mem_cons.1 ht with rfl | ht
    · trivial
    · rw [List.mem_singleton.1 ht]; trivial
  covered := h

/-- A step is proper, and forgets no acknowledgement. -/
theorem ProperState.step {s : State} (h : ProperState M s) (ev : Event) :
    ProperState M (step M s ev) ∧ s.shared.acked ⊆ (Ingestor.step M s ev).shared.acked := by
  obtain ⟨hdel, htasks, hcov⟩ := h
  cases ev with
  | task i m =>
    have hact (t : Task) (ht : s.tasks[i]? = some t) : ProperStep M s.shared (act M m s.shared t) :=
      proper_act m hdel (htasks t (List.mem_of_getElem? ht))
    obtain ⟨hdel', htasks'⟩ := Pool.act_forall (I := AllDelivered M) (J := Task.Proper M)
      (p := s.toPool) i (fun t ht _ _ => ⟨(hact t ht).delivered, (hact t ht).task⟩) ⟨hdel, htasks⟩
    refine ⟨⟨hdel', htasks', hcov⟩, ?_⟩
    rcases Pool.act_cases (act M m) i s.toPool with hp | ⟨t, ht, hp⟩
    · show s.shared.acked ⊆ (s.toPool.act (act M m) i).shared.acked
      rw [hp]
      exact List.Subset.refl _
    · show s.shared.acked ⊆ (s.toPool.act (act M m) i).shared.acked
      rw [hp]
      exact (hact t ht).acked
  | newConsumer =>
    refine ⟨⟨hdel, fun t ht => ?_, hcov⟩, List.Subset.refl _⟩
    rcases List.mem_append.1 ht with ht | ht
    · exact htasks t ht
    · rw [List.mem_singleton.1 ht]; trivial
  | save j =>
    refine ⟨⟨hdel, htasks, fun row hrow opType hf => ?_⟩, List.Subset.refl _⟩
    rcases List.mem_append.1 hrow with hrow | hrow
    · exact hcov row hrow opType hf
    · obtain ⟨item, hitem, -⟩ :=
        hdel row (List.mem_of_getElem? (Option.mem_toList.1 hrow)) opType hf
      exact ⟨item, hitem⟩
  | crash => exact ⟨properState_start _ hcov, List.Subset.refl _⟩

/-- A checkpoint that covers a row with the delivery `e` is saved when `e` is neither in
    the buffer nor held by a flush. -/
def SavesSettled (M : Ingestor) (e : Delivery) (s : State) : Event → Prop
  | .save j => ∀ row ∈ s.shared.consumed[j]?, ∀ item ∈ M.router.itemOf M.crates row,
    item.delivery = e → e ∉ buffered M s.shared ∧ e ∉ s.held
  | _ => True

instance (M : Ingestor) (e : Delivery) (s : State) : ∀ ev, Decidable (SavesSettled M e s ev)
  | .save j => inferInstanceAs (Decidable (∀ row ∈ s.shared.consumed[j]?, ∀ item ∈ _,
      BatchItem.delivery item = e → _ ∧ _))
  | .task _ _ | .newConsumer | .crash => isTrue trivial

/-- The delivery `e` is acknowledged if it is that of a covered row. -/
def CoveredAcked (M : Ingestor) (e : Delivery) (s : State) : Prop :=
  ∀ row ∈ s.checkpoint, ∀ item ∈ M.router.itemOf M.crates row, item.delivery = e →
    e ∈ s.shared.acked

theorem CoveredAcked.step {e : Delivery} {s : State} {ev : Event} (h : CoveredAcked M e s)
    (hp : ProperState M s) (hb : Balanced M e s) (hsave : SavesSettled M e s ev) :
    CoveredAcked M e (step M s ev) := by
  have hacked := (hp.step ev).2
  cases ev with
  | task | newConsumer | crash =>
    intro row hrow item hitem he
    exact hacked (h row hrow item hitem he)
  | save j =>
    intro row hrow item hitem he
    rcases List.mem_append.1 hrow with hrow | hrow
    · exact h row hrow item hitem he
    · -- the row is consumed, so its item was accepted, and it is nowhere but acknowledged
      have hrow := Option.mem_toList.1 hrow
      obtain ⟨opType, hf⟩ := Router.forward_of_itemOf hitem
      obtain ⟨item', hitem', hmem⟩ := hp.delivered row (List.mem_of_getElem? hrow) opType hf
      rw [hitem] at hitem'
      cases hitem'
      obtain ⟨hbuffered, hheld⟩ := hsave row hrow item hitem he
      have hpos := List.count_pos_iff.2 (he ▸ hmem)
      have hzero := count_held (e := e) s
      rw [List.count_eq_zero_of_not_mem hheld] at hzero
      rw [Balanced, List.count_eq_zero_of_not_mem hbuffered] at hb
      exact List.count_pos_iff.1 (by omega : 0 < s.shared.acked.count e)

/-- **Covered rows are acknowledged.**  In every run, with crashes at any moment, each
    forwarded row that a stored checkpoint covers has been acknowledged by its target node,
    if no batch with its delivery is given up, and no checkpoint that covers it is saved
    while the delivery is in the buffer or held by a flush. -/
theorem covered_acknowledged {es : List Event} {row : CDCRow} {opType : OpType}
    (hf : RoutingAction.determine row.operation = .forward opType)
    (hread : Run.Along (step M) (OnTask fun t _ => t.Reads M) (start [] []) es)
    (hans : ∀ item ∈ M.router.itemOf M.crates row,
      Run.Along (step M) (OnTask fun t m => t.Answered item.delivery m) (start [] []) es)
    (hsave : ∀ item ∈ M.router.itemOf M.crates row,
      Run.Along (step M) (SavesSettled M item.delivery) (start [] []) es)
    (hrow : row ∈ (Run.exec (step M) (start [] []) es).checkpoint) :
    ∃ item ∈ M.router.itemOf M.crates row,
      item.delivery ∈ (Run.exec (step M) (start [] []) es).shared.acked := by
  have hstart : ProperState M (start [] []) := properState_start [] nofun
  have hproper : ProperState M (Run.exec (step M) (start [] []) es) :=
    Run.exec_inv (fun s ev h => (h.step ev).1) es hstart
  obtain ⟨item, hitem⟩ := hproper.covered row hrow opType hf
  refine ⟨item, hitem, ?_⟩
  have hinv := ((hread.and (hans item hitem)).and (hsave item hitem)).inv
    (I := fun s => ProperState M s ∧ Balanced M item.delivery s ∧ CoveredAcked M item.delivery s)
    (fun s ev ⟨hp, hb, hc⟩ ⟨⟨hr, ha⟩, hs⟩ =>
      ⟨(hp.step ev).1, hb.step (hr.and ha), hc.step hp hb hs⟩)
    ⟨hstart, balanced_start .., nofun⟩
  exact hinv.2.2 row hrow item hitem rfl

set_option maxRecDepth 4000 in
/-- The node acknowledges the delete before the checkpoint is saved. -/
theorem covered_acknowledged_sample :
    let es := consumeSample ++ tickWith [some ⟨1, 0, true⟩] ++ [.save 0, .crash]
    ∃ item ∈ sampleRouter.itemOf sampleRouterCrates sampleDelete,
      item.delivery ∈ (Run.exec (step sampleIngestor) (start [] []) es).shared.acked := by
  intro es
  have hitem : sampleRouter.itemOf sampleRouterCrates sampleDelete = some sampleItem := by
    decide +kernel
  have hsample (item : BatchItem) (h : item ∈ sampleRouter.itemOf sampleRouterCrates sampleDelete) :
      item = sampleItem := by
    rw [hitem] at h
    exact (Option.some.inj h).symm
  refine @covered_acknowledged sampleIngestor es sampleDelete .delete rfl
    (by decide +kernel) ?_ ?_ ?_
  · intro item h
    rw [hsample item h]
    decide +kernel
  · intro item h
    rw [hsample item h]
    decide +kernel
  · exact List.mem_of_getElem? (i := 0) rfl

/-- The checkpoint is saved as soon as the row is consumed, then the process stops. -/
theorem covered_row_lost :
    let s := Run.exec (step sampleIngestor) (start [] []) (consumeSample ++ [.save 0, .crash])
    s.checkpoint.map (sampleRouter.itemOf sampleRouterCrates) = [some sampleItem] ∧
      s.shared.buffer = [] ∧ s.held = [] ∧ s.shared.acked = [] := by
  decide +kernel

end Ingestor

end Tantylla
