/-
  What the moves of a task do to the buffer and to the flush it runs.

  `flush_act` says it once: a move pushes one item, takes the whole buffer, hands the
  answer of a node to a flush, or does none of these.  What a task does after a flush
  touches neither the buffer nor the slot of a consumer (`settles_flushed`).
-/
import Tantylla.Ingestor.Delivery

namespace Tantylla

/-- The flush, if it runs. -/
def FlushState.flush : FlushState → Option Flush
  | .running f => some f
  | .returned _ => none

theorem FlushState.held_eq (st : FlushState) : st.held = (st.flush.map Flush.held).getD [] := by
  cases st <;> rfl

namespace Ingestor

variable {M : Ingestor} {e : Delivery}

/-! ## Moves that do not touch the buffer -/

/-- The buffer and the acknowledgements are as in `s`, and no flush runs. -/
def Quiet (s : Shared) (p : Shared × Task) : Prop :=
  p.1.buffer = s.buffer ∧ p.1.acked = s.acked ∧ p.2.flush = none

/-- The tasks are one consumer, with the same slot. -/
def Task.SameSlot (t t' : Task) : Prop :=
  t'.role = t.role ∧ t'.pendingRangeStart = t.pendingRangeStart

/-- A step that touches neither the buffer nor the slot. -/
structure Settles (s : Shared) (t : Task) (p : Shared × Task) : Prop where
  quiet : Quiet s p
  slot : t.SameSlot p.2

section
variable (s : Shared) (t : Task) (row : CDCRow)

/-- Only the control of the task changes, to one without a flush. -/
theorem settles_of_control {control : Control}
    (h : Task.flush { t with control } = none) : Settles s t (s, { t with control }) :=
  ⟨⟨rfl, rfl, h⟩, rfl, rfl⟩

theorem settles_addItems (items : List BatchItem) : Settles s t (addItems s t row items) := by
  cases items <;> exact ⟨⟨rfl, rfl, rfl⟩, rfl, rfl⟩

theorem settles_routeForward (opType : OpType) :
    Settles s t (routeForward M s t row opType) := by
  unfold routeForward
  cases M.router.routeItem M.crates row opType with
  | some item => exact settles_addItems ..
  | none => exact settles_of_control s t rfl

/-- What a task does after its flush. -/
theorem settles_flushed (failedNodes : List String) (after : After) :
    Settles s t (flushed M s t failedNodes after) := by
  cases after with
  | tick => exact ⟨⟨rfl, rfl, rfl⟩, rfl, rfl⟩
  | shutdown => exact settles_of_control s t rfl
  | route row opType =>
    rw [flushed]
    split_ifs
    · exact settles_routeForward ..
    · exact settles_of_control s t rfl
  | add row item rest =>
    rw [flushed]
    split_ifs
    · obtain ⟨hquiet, hslot⟩ :=
        settles_addItems { s with accepted := s.accepted ++ [item.delivery] } t row rest
      exact ⟨hquiet, hslot⟩
    · exact settles_of_control s t rfl
  | rangeDelete row start failed =>
    rw [flushed]
    split_ifs
    · exact settles_of_control s t rfl
    · exact settles_of_control s t rfl

theorem quiet_consumeCdc : Quiet s (consumeCdc M s t row) := by
  unfold consumeCdc
  cases RoutingAction.determine row.operation with
  | skip | forward => exact ⟨rfl, rfl, rfl⟩
  | rangeDeleteStart =>
    cases M.router.extractRangeDeleteStart M.crates row <;> exact ⟨rfl, rfl, rfl⟩
  | rangeDeleteEnd => cases t.pendingRangeStart <;> exact ⟨rfl, rfl, rfl⟩

/-- The flush that goes on is the one its state says. -/
theorem continueFlush_effect (after : After) (st : FlushState) :
    (continueFlush M s t after st).1.buffer = s.buffer ∧
      (continueFlush M s t after st).1.acked = s.acked ∧
      (continueFlush M s t after st).2.flush = st.flush := by
  cases st with
  | running f => exact ⟨rfl, rfl, rfl⟩
  | returned failedNodes => exact (settles_flushed s t failedNodes after).quiet

end

theorem buffer_takeBuffer (s : Shared) (t : Task) (k : ℕ) (after : After) :
    (takeBuffer M k s t after).1.buffer = [] := by
  unfold takeBuffer
  split_ifs with hnil
  · exact (settles_flushed s t [] after).quiet.1.trans hnil
  · exact (continueFlush_effect { s with buffer := [] } t after _).1

/-! ## The effect of a move -/

/-- The item that a move pushes. -/
def Task.pushes (t : Task) : Move → Option BatchItem
  | .proceed _ => t.pushed
  | _ => none

/-- What a move can do to the buffer and to the flush of its task: `s'` and `fl` are the
    shared state and the flush after it. -/
inductive FlushStep (M : Ingestor) (s : Shared) (t : Task) : Move → Shared → Option Flush → Prop
  | quiet {m : Move} {s' : Shared} : t.pushes m = none → s'.buffer = s.buffer →
      s'.acked = s.acked → FlushStep M s t m s' t.flush
  | push {k : ℕ} {item : BatchItem} {s' : Shared} : t.pushed = some item → t.flush = none →
      s'.buffer = s.buffer ++ [M.serde.toString item] → s'.acked = s.acked →
      FlushStep M s t (.proceed k) s' none
  | take {k : ℕ} {after : After} {s' : Shared} : t.control = .taking after → s'.buffer = [] →
      s'.acked = s.acked →
      FlushStep M s t (.proceed k) s' (nextBatch k [] (nodeBatches M.serde s.buffer)).flush
  | reply {k : ℕ} {response : Option IndexBatchResponse} {f : Flush} {s' : Shared} :
      t.flush = some f → s'.buffer = s.buffer →
      s'.acked = s.acked ++ f.acknowledged response →
      FlushStep M s t (.reply k response) s' (f.reply k response).flush

theorem pushes_eq_some {t : Task} {m : Move} {item : BatchItem} (h : t.pushes m = some item) :
    ∃ k row rest, m = .proceed k ∧ t.control = .pushing row item rest := by
  cases m with
  | proceed k =>
    rw [Task.pushes, Task.pushed] at h
    split at h
    next row item' rest hc =>
      cases h
      exact ⟨k, row, rest, rfl, hc⟩
    next => cases h
  | tick | shutdown | row | reply | fetched => cases h

theorem FlushStep.of_quiet {s : Shared} {t : Task} {m : Move} {p : Shared × Task}
    (hpush : t.pushes m = none) (hflush : t.flush = none) (h : Quiet s p) :
    FlushStep M s t m p.1 p.2.flush := by
  rw [h.2.2, ← hflush]
  exact .quiet hpush h.1 h.2.1

theorem flushStep_takeBuffer {k : ℕ} {after : After} (s : Shared) {t : Task}
    (hc : t.control = .taking after) :
    FlushStep M s t (.proceed k) (takeBuffer M k s t after).1
      (takeBuffer M k s t after).2.flush := by
  unfold takeBuffer
  split_ifs with hnil
  · -- an empty buffer has no batches
    obtain ⟨hbuffer, hacked, hflush⟩ := (@settles_flushed M s t [] after).quiet
    have hnone : (nextBatch k [] (nodeBatches M.serde s.buffer)).flush = none := by
      rw [hnil]
      rfl
    rw [hflush, ← hnone]
    exact .take hc (hbuffer.trans hnil) hacked
  · obtain ⟨hbuffer, hacked, hflush⟩ := @continueFlush_effect M { s with buffer := [] } t after
      (nextBatch k [] (nodeBatches M.serde s.buffer))
    rw [hflush]
    exact .take hc hbuffer hacked

theorem flushStep_pushItem {k : ℕ} {row : CDCRow} {item : BatchItem} {rest : List BatchItem}
    (s : Shared) {t : Task} (hc : t.control = .pushing row item rest) :
    FlushStep M s t (.proceed k) (pushItem M s t row item rest).1
      (pushItem M s t row item rest).2.flush := by
  have hpushed : t.pushed = some item := by rw [Task.pushed, hc]
  have hnone : t.flush = none := by rw [Task.flush, hc]
  simp only [pushItem]
  split_ifs
  · exact .push hpushed hnone rfl rfl
  · obtain ⟨hbuffer, hacked, hflush⟩ := (settles_addItems
      { s with buffer := s.buffer ++ [M.serde.toString item],
               accepted := s.accepted ++ [item.delivery] } t row rest).quiet
    rw [addedOk, hflush]
    exact .push hpushed hnone hbuffer hacked

/-- **A move pushes an item, takes the buffer, answers a flush, or does none of these.** -/
theorem flush_act (m : Move) (s : Shared) (t : Task) :
    FlushStep M s t m (act M m s t).1 (act M m s t).2.flush := by
  -- a move that pushes is never idle
  cases hpush : t.pushes m with
  | some item =>
    obtain ⟨k, row, rest, rfl, hc⟩ := pushes_eq_some hpush
    have hact : act M (.proceed k) s t = pushItem M s t row item rest := by simp only [act, hc]
    rw [hact]
    exact flushStep_pushItem s hc
  | none =>
  have hstep := act_step M m s t
  generalize act M m s t = p at hstep ⊢
  cases hstep with
  | idle => exact .quiet hpush rfl rfl
  | tick _ hc | shutdown _ hc => exact .of_quiet rfl (by rw [Task.flush, hc]) ⟨rfl, rfl, rfl⟩
  | row row _ hc => exact .of_quiet rfl (by rw [Task.flush, hc]) (quiet_consumeCdc s t row)
  | backpressure _ hc | refused _ hc | admitted _ hc =>
    exact .of_quiet hpush (by rw [Task.flush, hc]) ⟨rfl, rfl, rfl⟩
  | route _ hc =>
    exact .of_quiet hpush (by rw [Task.flush, hc]) (settles_routeForward s t _ _).quiet
  | push _ hc => exact flushStep_pushItem s hc
  | take k hc => exact flushStep_takeBuffer s hc
  | @reply k response f after hc =>
    obtain ⟨hbuffer, hacked, hflush⟩ := @continueFlush_effect M
      { s with acked := s.acked ++ f.acknowledged response } t after (f.reply k response)
    rw [hflush]
    exact .reply (by rw [Task.flush, hc]) hbuffer hacked
  | fetched _ hc => exact .of_quiet rfl (by rw [Task.flush, hc]) (settles_addItems s t _ _).quiet
  | unfetched hc => exact .of_quiet rfl (by rw [Task.flush, hc]) ⟨rfl, rfl, rfl⟩

end Ingestor

end Tantylla
