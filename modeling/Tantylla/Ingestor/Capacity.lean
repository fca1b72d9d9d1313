/-
  How much the ingestor holds in memory (`batch/service.rs`).

  `add` pushes its item first and flushes at the limit after, so each consumer may push one
  item past the limit before the buffer is taken, and several may.  `buffer_bounded`: in
  every run the buffer, and every flush, stays below the limit and the number of consumers
  together, whatever the nodes answer.  So the count that a flush expects fits in the
  `u32` it is kept in.
-/
import Tantylla.Ingestor.Flushes
import Mathlib.Algebra.Order.BigOperators.Group.List

namespace Tantylla

namespace Ingestor

variable {M : Ingestor}

/-! ## What each role does -/

/-- Who calls the flush. -/
def After.role : After → Role
  | .tick => .ticker
  | .shutdown => .main
  | .route _ _ | .add _ _ _ | .rangeDelete _ _ _ => .consumer

/-- Who can be there; a task that waits or has stopped may be any. -/
def Control.role : Control → Option Role
  | .waiting | .stopped => none
  | .taking after | .flushing _ after => some after.role
  | .routing _ _ | .adding _ _ _ | .pushing _ _ _ | .fetching _ _ => some .consumer

/-- The task is where its role can be. -/
def Task.InRole (t : Task) : Prop := ∀ role ∈ t.control.role, t.role = role

/-- The step keeps the role, and leaves the task where that can be. -/
def KeepsRole (t : Task) (p : Shared × Task) : Prop := p.2.role = t.role ∧ p.2.InRole

section
variable {s : Shared} {t : Task}

theorem keepsRole_addItems (h : t.role = .consumer) (row : CDCRow) (items : List BatchItem) :
    KeepsRole t (addItems s t row items) := by
  cases items with
  | nil => exact ⟨rfl, fun _ hr => by cases hr⟩
  | cons item rest => exact ⟨rfl, fun _ hr => by cases hr; exact h⟩

theorem keepsRole_stop : KeepsRole t (s, t.stop) := ⟨rfl, fun _ hr => by cases hr⟩

theorem keepsRole_routeForward (h : t.role = .consumer) (row : CDCRow) (opType : OpType) :
    KeepsRole t (routeForward M s t row opType) := by
  unfold routeForward
  cases M.router.routeItem M.crates row opType with
  | some item => exact keepsRole_addItems h row [item]
  | none => exact keepsRole_stop

theorem keepsRole_flushed (failedNodes : List String) {after : After} (h : t.role = after.role) :
    KeepsRole t (flushed M s t failedNodes after) := by
  cases after with
  | tick => exact ⟨rfl, fun _ hr => by cases hr⟩
  | shutdown => exact keepsRole_stop
  | route row opType =>
    rw [flushed]
    split_ifs
    · exact keepsRole_routeForward h row opType
    · exact keepsRole_stop
  | add row item rest =>
    rw [flushed]
    split_ifs
    · exact keepsRole_addItems h row rest
    · exact keepsRole_stop
  | rangeDelete row start failed =>
    rw [flushed]
    split_ifs
    all_goals exact ⟨rfl, fun _ hr => by cases hr; exact h⟩

theorem keepsRole_continueFlush {after : After} (h : t.role = after.role) (st : FlushState) :
    KeepsRole t (continueFlush M s t after st) := by
  cases st with
  | running f => exact ⟨rfl, fun _ hr => by cases hr; exact h⟩
  | returned failedNodes => exact keepsRole_flushed failedNodes h

theorem keepsRole_consumeCdc (h : t.role = .consumer) (row : CDCRow) :
    KeepsRole t (consumeCdc M s t row) := by
  unfold consumeCdc
  cases RoutingAction.determine row.operation with
  | skip => exact ⟨rfl, fun _ hr => by cases hr⟩
  | forward => exact ⟨rfl, fun _ hr => by cases hr; exact h⟩
  | rangeDeleteStart =>
    cases M.router.extractRangeDeleteStart M.crates row with
    | some pending => exact ⟨rfl, fun _ hr => by cases hr⟩
    | none => exact keepsRole_stop
  | rangeDeleteEnd =>
    cases t.pendingRangeStart with
    | some start => exact ⟨rfl, fun _ hr => by cases hr; exact h⟩
    | none => exact keepsRole_stop

theorem keepsRole_act (h : t.InRole) (m : Move) : KeepsRole t (act M m s t) := by
  have hstep := act_step M m s t
  generalize act M m s t = p at hstep ⊢
  -- the role of a task that is at the control `c`
  have hrole {c : Control} {r : Role} (hc : t.control = c) (hr : r ∈ c.role) : t.role = r :=
    h r (hc ▸ hr)
  cases hstep with
  | idle => exact ⟨rfl, h⟩
  | tick hr | shutdown hr => exact ⟨rfl, fun _ h' => by cases h'; exact hr⟩
  | row row hr => exact keepsRole_consumeCdc hr row
  | backpressure _ hc | admitted _ hc =>
    exact ⟨rfl, fun _ h' => by cases h'; exact hrole hc rfl⟩
  | route _ hc => exact keepsRole_routeForward (hrole hc rfl) _ _
  | refused | unfetched => exact keepsRole_stop
  | @push _ row item rest hc =>
    have hcons := hrole hc rfl
    simp only [pushItem]
    split_ifs
    · exact ⟨rfl, fun _ h' => by cases h'; exact hcons⟩
    · exact keepsRole_addItems hcons row rest
  | @take _ after hc =>
    have hafter := hrole hc rfl
    unfold takeBuffer
    split_ifs
    · exact keepsRole_flushed _ hafter
    · exact keepsRole_continueFlush hafter _
  | reply _ _ hc => exact keepsRole_continueFlush (hrole hc rfl) _
  | fetched _ hc => exact keepsRole_addItems (hrole hc rfl) _ _

end

/-! ## What is in memory -/

/-- One for a task that has reached the limit, and is about to take the buffer. -/
def Task.atLimit (t : Task) : ℕ :=
  match t.control with
  | .taking (.add _ _ _) => 1
  | _ => 0

/-- One for a consumer. -/
def Task.consumes (t : Task) : ℕ := if t.role = .consumer then 1 else 0

/-- The number of consumers. -/
def State.consumers (s : State) : ℕ := s.total Task.consumes

theorem Task.atLimit_le {t : Task} (h : t.InRole) : t.atLimit ≤ t.consumes := by
  unfold Task.atLimit
  split
  next row item rest hc =>
    have hrole : t.role = .consumer := h _ (by rw [hc]; rfl)
    rw [Task.consumes, if_pos hrole]
  next => exact Nat.zero_le _

/-- **A push that reaches the limit leaves its task at the limit**; a step that does not push
    leaves the buffer as it is, or takes it. -/
theorem fill_act (m : Move) (s : Shared) (t : Task) :
    (act M m s t).1.buffer.length < batchLimit ∨
      (act M m s t).1.buffer.length + t.atLimit ≤ s.buffer.length + (act M m s t).2.atLimit := by
  have hstep := act_step M m s t
  generalize act M m s t = p at hstep ⊢
  have hsame (hb : p.1.buffer = s.buffer) (ht : t.atLimit = 0) :
      p.1.buffer.length + t.atLimit ≤ s.buffer.length + p.2.atLimit := by
    rw [hb, ht]
    exact Nat.le_add_right _ _
  cases hstep with
  | idle => exact Or.inr (le_refl _)
  | tick _ hc | shutdown _ hc | backpressure _ hc | refused _ hc | admitted _ hc | unfetched hc =>
    exact Or.inr (hsame rfl (by rw [Task.atLimit, hc]))
  | row row _ hc =>
    exact Or.inr (hsame (quiet_consumeCdc s t row).1 (by rw [Task.atLimit, hc]))
  | route _ hc =>
    exact Or.inr (hsame (settles_routeForward s t _ _).quiet.1 (by rw [Task.atLimit, hc]))
  | @push _ row item rest hc =>
    have ht : t.atLimit = 0 := by rw [Task.atLimit, hc]
    simp only [pushItem]
    split_ifs with hlimit
    · right
      rw [ht, List.length_append]
      exact le_refl _
    · left
      rw [addedOk, (settles_addItems _ t row rest).quiet.1]
      exact not_le.1 hlimit
  | take k hc =>
    left
    rw [buffer_takeBuffer]
    decide
  | @reply k response f after hc =>
    exact Or.inr (hsame (continueFlush_effect _ t after _).1 (by rw [Task.atLimit, hc]))
  | fetched _ hc =>
    exact Or.inr (hsame (settles_addItems s t _ _).quiet.1 (by rw [Task.atLimit, hc]))

/-- The operations that the task holds in a flush. -/
def Task.load (t : Task) : ℕ := t.held.length

theorem length_nodeBatches (D : Serde) (items : List String) :
    ((nodeBatches D items).flatMap deliveries).length ≤ items.length := by
  have hperm : ((nodeBatches D items).flatMap deliveries).Perm
      ((items.filterMap D.fromStr).map BatchItem.delivery) :=
    List.perm_iff_count.2 fun e => count_nodeBatches e D items
  rw [hperm.length_eq, List.length_map]
  exact List.length_filterMap_le ..

theorem length_nextBatch (k : ℕ) (failedNodes : List String)
    (bs : List (String × List IndexOperation)) :
    (nextBatch k failedNodes bs).held.length = (bs.flatMap deliveries).length :=
  (List.perm_iff_count.2 fun e => count_nextBatch e k failedNodes bs).length_eq

theorem length_reply (k : ℕ) (f : Flush) (response : Option IndexBatchResponse) :
    (f.reply k response).held.length ≤ f.held.length := by
  have hnext (failedNodes : List String) :
      (nextBatch k failedNodes f.nodeBatches).held.length ≤ f.held.length := by
    rw [length_nextBatch, Flush.held, List.length_append]
    exact Nat.le_add_left _ _
  cases response with
  | some response =>
    rw [Flush.reply]
    split_ifs
    all_goals exact hnext _
  | none =>
    rw [Flush.reply]
    split_ifs
    · exact le_refl _
    · exact hnext _

/-- A task holds no more than it held, or than the buffer had. -/
theorem load_act (m : Move) (s : Shared) (t : Task) :
    (act M m s t).2.load ≤ max t.load s.buffer.length := by
  have hstep := @flush_act M m s t
  have hload (t : Task) : t.load = ((t.flush.map Flush.held).getD []).length := rfl
  rw [hload, hload]
  generalize (act M m s t).1 = s' at hstep
  generalize (act M m s t).2.flush = fl at hstep ⊢
  cases hstep with
  | quiet => exact le_max_left _ _
  | push => exact Nat.zero_le _
  | take =>
    rw [← FlushState.held_eq, length_nextBatch]
    exact (length_nodeBatches _ _).trans (le_max_right _ _)
  | reply hf =>
    rw [hf, ← FlushState.held_eq]
    exact (length_reply ..).trans (le_max_left _ _)

/-! ## Runs -/

/-- The buffer is over the limit by less than the tasks that are about to take it, and a
    flush by less than the consumers. -/
structure Bounded (s : State) : Prop where
  inRole : ∀ t ∈ s.tasks, t.InRole
  buffer : s.shared.buffer.length < batchLimit + s.total Task.atLimit
  load : ∀ t ∈ s.tasks, t.load < batchLimit + s.consumers

theorem bounded_start (acked : List Delivery) (checkpoint : List CDCRow) :
    Bounded (start acked checkpoint) where
  inRole := by simp [start, Task.InRole, Control.role]
  buffer := by simp [start, batchLimit]
  load := by simp [start, Task.load, Task.held, Task.flush, batchLimit]

theorem Bounded.atLimit_le {s : State} (h : Bounded s) : s.total Task.atLimit ≤ s.consumers :=
  List.sum_le_sum fun t ht => t.atLimit_le (h.inRole t ht)

theorem Bounded.step {s : State} (h : Bounded s) (ev : Event) : Bounded (step M s ev) := by
  cases ev with
  | task i m =>
    cases ht : s.tasks[i]? with
    | none =>
      have hsame : Ingestor.step M s (.task i m) = s := by rw [Ingestor.step, Pool.act, ht]
      rw [hsame]
      exact h
    | some t =>
      have hmem := List.mem_of_getElem? ht
      obtain ⟨hrole, hin⟩ := keepsRole_act (M := M) (s := s.shared) (h.inRole t hmem) m
      have hat := Pool.sum_map_set Task.atLimit (act M m s.shared t).2 ht
      have hcons := Pool.sum_map_set Task.consumes (act M m s.shared t).2 ht
      have hsame : (act M m s.shared t).2.consumes = t.consumes := by
        rw [Task.consumes, Task.consumes, hrole]
      have hconsumers : (Ingestor.step M s (.task i m)).consumers = s.consumers := by
        rw [step_task ht]
        simp only [State.consumers, Pool.total] at hcons ⊢
        omega
      have hlimit := h.atLimit_le
      constructor
      · intro t' ht'
        rw [step_task ht] at ht'
        rcases List.mem_or_eq_of_mem_set ht' with ht' | rfl
        · exact h.inRole t' ht'
        · exact hin
      · have hbuffer := h.buffer
        rw [step_task ht]
        simp only [Pool.total] at hat hbuffer ⊢
        rcases fill_act (M := M) m s.shared t with hlt | hle
        all_goals omega
      · intro t' ht'
        rw [hconsumers]
        rw [step_task ht] at ht'
        rcases List.mem_or_eq_of_mem_set ht' with ht' | rfl
        · exact h.load t' ht'
        · refine (load_act m s.shared t).trans_lt (max_lt (h.load t hmem) ?_)
          exact h.buffer.trans_le (Nat.add_le_add_left hlimit _)
  | newConsumer =>
    have hcons : (Ingestor.step M s .newConsumer).consumers = s.consumers + 1 := by
      simp [State.consumers, Pool.total, Ingestor.step, newConsumer, Task.consumes]
    refine ⟨fun t ht => ?_, ?_, fun t ht => ?_⟩
    · rcases List.mem_append.1 ht with ht | ht
      · exact h.inRole t ht
      · rw [List.mem_singleton.1 ht]
        exact fun _ hr => by cases hr
    · rw [total_step_newConsumer rfl]
      exact h.buffer
    · rw [hcons]
      rcases List.mem_append.1 ht with ht | ht
      · exact (h.load t ht).trans (by omega)
      · rw [List.mem_singleton.1 ht]
        exact Nat.lt_add_right _ (by decide)
  | save j => exact ⟨h.inRole, h.buffer, h.load⟩
  | crash => exact bounded_start ..

theorem expectedCount_eq {s : State} (h : Bounded s) (hfew : batchLimit + s.consumers ≤ 2 ^ 32)
    {t : Task} (ht : t ∈ s.tasks) {f : Flush} (hf : t.flush = some f) :
    f.expectedCount = f.operations.length := by
  have hload := h.load t ht
  rw [Task.load, Task.held, hf] at hload
  have hle : f.operations.length ≤ f.held.length := by
    rw [Flush.held, List.length_append, deliveries, List.length_map]
    exact Nat.le_add_right _ _
  exact Nat.mod_eq_of_lt ((hle.trans_lt hload).trans_le hfew)

/-- **What an ingestor holds is bounded.**  In every run, whatever the nodes answer, the
    buffer has fewer items than the batch limit and the number of consumers together, and no
    flush holds more operations either.  So with fewer than `2 ^ 32 - 250` consumers the
    count that a flush expects, a `u32`, is that of its operations. -/
theorem buffer_bounded (es : List Event) (acked : List Delivery) (checkpoint : List CDCRow) :
    let s := Run.exec (step M) (start acked checkpoint) es
    s.shared.buffer.length < batchLimit + s.consumers ∧
      (∀ t ∈ s.tasks, ∀ f ∈ t.flush, f.held.length < batchLimit + s.consumers) ∧
      (batchLimit + s.consumers ≤ 2 ^ 32 →
        ∀ t ∈ s.tasks, ∀ f ∈ t.flush, f.expectedCount = f.operations.length) := by
  intro s
  have hs : Bounded s :=
    Run.exec_inv (fun _ ev h => h.step ev) es (bounded_start acked checkpoint)
  refine ⟨hs.buffer.trans_le (Nat.add_le_add_left hs.atLimit_le _), fun t ht f hf => ?_,
    fun hfew t ht f hf => expectedCount_eq hs hfew ht hf⟩
  have hload := hs.load t ht
  rw [Task.load, Task.held, Option.mem_def.1 hf] at hload
  exact hload

end Ingestor

end Tantylla
