/-
  Backpressure, and what failed flushes owe (`batch/service.rs`, `router/core.rs`).

  Four callers run flushes, but only the ticker writes the flag that `route_forward` and
  `add` read (`lastFlushFailed_act`).  `Watch` follows a run with what each flush has taken
  out of the buffer, and with the operations that failed flushes owe: those of a flush that
  returned `Err` until a flush that has taken them all returns `Ok`.

  `Tracks` is what the flag is for: while something is owed `add` refuses items, and
  otherwise `route_forward` goes on.  `tracks_iff_along`: it holds in every state of a run
  iff each flush of the run returns in a way that the flag can tell (`Told`).
-/
import Tantylla.Ingestor.Flushes

namespace Tantylla

/-- The failed nodes of a flush that has returned. -/
def FlushState.result : FlushState → Option (List String)
  | .running _ => none
  | .returned failedNodes => some failedNodes

namespace Ingestor

/-! ## Flushes that return -/

/-- The flush after a move that takes the buffer or has the answer of a node, with its
    caller. -/
def Task.flushMove (M : Ingestor) (s : Shared) (t : Task) (m : Move) :
    Option (After × FlushState) :=
  match m, t.control with
  | .proceed k, .taking after => some (after, nextBatch k [] (nodeBatches M.serde s.buffer))
  | .reply k response, .flushing f after => some (after, f.reply k response)
  | _, _ => none

/-- The caller of the flush that returns with the move, and the nodes that failed. -/
def Task.returns (M : Ingestor) (s : Shared) (t : Task) (m : Move) :
    Option (After × List String) :=
  (t.flushMove M s m).bind fun p => p.2.result.map fun failedNodes => (p.1, failedNodes)

/-- An ingestor that is watched. -/
structure Watch where
  state : State
  /-- what the last flush of a task has taken out of the buffer -/
  taken : ℕ → List Delivery
  /-- the operations of each failed flush that is not made good -/
  owed : List (List Delivery)

/-- What the last flush of the task `i` has taken, after the move. -/
def Watch.takenAfter (M : Ingestor) (s : Watch) (i : ℕ) (t : Task) (m : Move) : List Delivery :=
  match m, t.control with
  | .proceed _, .taking _ => buffered M s.state.shared
  | _, _ => s.taken i

/-- What is owed when a flush has returned: a flush that fails owes what it has taken, and
    one that succeeds makes good the failed flushes whose operations it has taken. -/
def owedAfter (owed : List (List Delivery)) (taken : List Delivery) :
    List String → List (List Delivery)
  | [] => owed.filter fun ops => ∃ e ∈ ops, e ∉ taken
  | _ :: _ => owed ++ [taken]

def Watch.move (M : Ingestor) (s : Watch) (i : ℕ) (m : Move) (t : Task) : Watch where
  state := step M s.state (.task i m)
  taken := Function.update s.taken i (s.takenAfter M i t m)
  owed := ((t.returns M s.state.shared m).map fun p =>
    owedAfter s.owed (s.takenAfter M i t m) p.2).getD s.owed

def watchStart : Watch := ⟨start [] [], fun _ => [], []⟩

/-- A crash ends the process with its flushes, and the next one owes nothing. -/
def watchStep (M : Ingestor) (s : Watch) : Event → Watch
  | .task i m => (s.state.tasks[i]?.map (s.move M i m)).getD s
  | .crash => ⟨step M s.state .crash, fun _ => [], []⟩
  | ev => { s with state := step M s.state ev }

/-! ## What the flag is for -/

/-- **Backpressure tracks what is owed**: it is active and `add` refuses items while
    something is owed, and `route_forward` and `add` go on when nothing is. -/
structure Tracks (M : Ingestor) (s : Watch) : Prop where
  active : s.owed ≠ [] → s.state.shared.lastFlushFailed = true
  refuses : s.owed ≠ [] → ∀ (t : Task) (k : ℕ) (row : CDCRow) (item : BatchItem)
    (rest : List BatchItem), t.control = .adding row item rest →
      act M (.proceed k) s.state.shared t = (s.state.shared, t.stop)
  accepts : s.owed = [] → ∀ (t : Task) (k : ℕ) (row : CDCRow) (opType : OpType),
    t.control = .routing row opType →
      act M (.proceed k) s.state.shared t = routeForward M s.state.shared t row opType
  admits : s.owed = [] → ∀ (t : Task) (k : ℕ) (row : CDCRow) (item : BatchItem)
    (rest : List BatchItem), t.control = .adding row item rest →
      act M (.proceed k) s.state.shared t =
        (s.state.shared, { t with control := .pushing row item rest })

/-- A flush returns in a way that the flag can tell.  If it is the ticker's and succeeds, it
    has made good all failed flushes; if another task's succeeds it has not made good the last
    ones, and if another task's fails then something was owed before. -/
def Told (owed : List (List Delivery)) (taken : List Delivery) : After → List String → Prop
  | .tick, [] => ∀ ops ∈ owed, ∀ e ∈ ops, e ∈ taken
  | .tick, _ :: _ => True
  | _, [] => owed ≠ [] → ∃ ops ∈ owed, ∃ e ∈ ops, e ∉ taken
  | _, _ :: _ => owed ≠ []

/-- If a flush returns with the event, the flag can tell. -/
def TellsOwed (M : Ingestor) (s : Watch) : Event → Prop
  | .task i m => ∀ t ∈ s.state.tasks[i]?, ∀ p ∈ t.returns M s.state.shared m,
      Told s.owed (s.takenAfter M i t m) p.1 p.2
  | _ => True

/-! ## Who writes the flag -/

/-- The flag after a flush has returned to its caller. -/
def After.flag (lastFlushFailed : Bool) (failedNodes : List String) : After → Bool
  | .tick => failedNodes ≠ []
  | _ => lastFlushFailed

variable {M : Ingestor}

section
variable (s : Shared) (t : Task) (row : CDCRow)

theorem lastFlushFailed_addItems (items : List BatchItem) :
    (addItems s t row items).1.lastFlushFailed = s.lastFlushFailed := by
  cases items <;> rfl

theorem lastFlushFailed_routeForward (opType : OpType) :
    (routeForward M s t row opType).1.lastFlushFailed = s.lastFlushFailed := by
  unfold routeForward
  cases M.router.routeItem M.crates row opType with
  | some item => exact lastFlushFailed_addItems ..
  | none => rfl

theorem lastFlushFailed_flushed (failedNodes : List String) (after : After) :
    (flushed M s t failedNodes after).1.lastFlushFailed =
      after.flag s.lastFlushFailed failedNodes := by
  cases after with
  | tick => rfl
  | shutdown => rfl
  | route row opType =>
    rw [flushed]
    split_ifs
    · exact lastFlushFailed_routeForward ..
    · rfl
  | add row item rest =>
    rw [flushed]
    split_ifs
    · exact lastFlushFailed_addItems ..
    · rfl
  | rangeDelete row start failed =>
    rw [flushed]
    split_ifs <;> rfl

theorem lastFlushFailed_continueFlush (after : After) (st : FlushState) :
    (continueFlush M s t after st).1.lastFlushFailed =
      (st.result.map fun failedNodes => after.flag s.lastFlushFailed failedNodes).getD
        s.lastFlushFailed := by
  cases st with
  | running f => rfl
  | returned failedNodes => exact lastFlushFailed_flushed ..

theorem lastFlushFailed_takeBuffer (k : ℕ) (after : After) :
    (takeBuffer M k s t after).1.lastFlushFailed =
      ((nextBatch k [] (nodeBatches M.serde s.buffer)).result.map fun failedNodes =>
        after.flag s.lastFlushFailed failedNodes).getD s.lastFlushFailed := by
  unfold takeBuffer
  split_ifs with hnil
  · rw [lastFlushFailed_flushed, hnil]
    rfl
  · exact lastFlushFailed_continueFlush { s with buffer := [] } t after _

theorem lastFlushFailed_pushItem (item : BatchItem) (rest : List BatchItem) :
    (pushItem M s t row item rest).1.lastFlushFailed = s.lastFlushFailed := by
  simp only [pushItem]
  split_ifs
  · rfl
  · exact lastFlushFailed_addItems ..

theorem lastFlushFailed_consumeCdc :
    (consumeCdc M s t row).1.lastFlushFailed = s.lastFlushFailed := by
  unfold consumeCdc
  cases RoutingAction.determine row.operation with
  | skip | forward => rfl
  | rangeDeleteStart => cases M.router.extractRangeDeleteStart M.crates row <;> rfl
  | rangeDeleteEnd => cases t.pendingRangeStart <;> rfl

end

theorem flushMove_eq_some {s : Shared} {t : Task} {m : Move} {p : After × FlushState}
    (h : t.flushMove M s m = some p) :
    (∃ k, m = .proceed k ∧ t.control = .taking p.1 ∧
      p.2 = nextBatch k [] (nodeBatches M.serde s.buffer)) ∨
    ∃ k response f, m = .reply k response ∧ t.control = .flushing f p.1 ∧
      p.2 = f.reply k response := by
  unfold Task.flushMove at h
  split at h
  next k after hc =>
    cases h
    exact Or.inl ⟨k, rfl, hc, rfl⟩
  next k response f after hc =>
    cases h
    exact Or.inr ⟨k, response, f, rfl, hc, rfl⟩
  next => cases h

/-- A move that is none of a flush leaves the flag. -/
theorem lastFlushFailed_of_flushMove {s : Shared} {t : Task} {m : Move}
    (h : t.flushMove M s m = none) : (act M m s t).1.lastFlushFailed = s.lastFlushFailed := by
  have hstep := act_step M m s t
  generalize act M m s t = p at hstep ⊢
  cases hstep with
  | idle | tick | shutdown | backpressure | refused | admitted | unfetched => rfl
  | row => exact lastFlushFailed_consumeCdc ..
  | route => exact lastFlushFailed_routeForward ..
  | push => exact lastFlushFailed_pushItem ..
  | fetched => exact lastFlushFailed_addItems ..
  | take k hc | reply k response hc => simp [Task.flushMove, hc] at h

/-- **Only the ticker's flush writes the flag**, when it returns. -/
theorem lastFlushFailed_act (m : Move) (s : Shared) (t : Task) :
    (act M m s t).1.lastFlushFailed = ((t.returns M s m).map fun p =>
      p.1.flag s.lastFlushFailed p.2).getD s.lastFlushFailed := by
  rw [Task.returns]
  cases hmove : t.flushMove M s m with
  | none => exact lastFlushFailed_of_flushMove hmove
  | some p =>
    rw [Option.bind_some, Option.map_map]
    obtain ⟨after, st⟩ := p
    rcases flushMove_eq_some hmove with ⟨k, rfl, hc, rfl⟩ | ⟨k, response, f, rfl, hc, rfl⟩
    · have hact : act M (.proceed k) s t = takeBuffer M k s t after := by simp only [act, hc]
      rw [hact]
      exact lastFlushFailed_takeBuffer ..
    · have hact : act M (.reply k response) s t = continueFlush M
          { s with acked := s.acked ++ f.acknowledged response } t after (f.reply k response) := by
        simp only [act, hc]
      rw [hact]
      exact lastFlushFailed_continueFlush ..

/-! ## Runs -/

/-- Backpressure tracks what is owed iff the flag says whether something is. -/
theorem tracks_iff {s : Watch} :
    Tracks M s ↔ (s.state.shared.lastFlushFailed = true ↔ s.owed ≠ []) := by
  constructor
  · intro h
    refine ⟨fun hflag hnil => ?_, h.active⟩
    -- an `add` would be refused although nothing is owed
    have hadmits := h.admits hnil ⟨.consumer, none, .adding sampleDelete sampleItem []⟩ 0
      sampleDelete sampleItem [] rfl
    simp [act, hflag, Task.stop] at hadmits
  · intro h
    have hclear (hnil : s.owed = []) : s.state.shared.lastFlushFailed = false :=
      Bool.eq_false_of_not_eq_true fun hflag => h.1 hflag hnil
    refine ⟨h.2, fun howed t k row item rest hc => ?_, fun hnil t k row opType hc => ?_,
      fun hnil t k row item rest hc => ?_⟩
    · simp only [act, hc, h.2 howed, if_true]
    · simp only [act, hc, hclear hnil, Bool.false_eq_true, if_false]
    · simp only [act, hc, hclear hnil, Bool.false_eq_true, if_false]

/-- The flag tells what is owed after a flush iff the flush has returned so. -/
theorem told_iff {flag : Bool} {owed : List (List Delivery)} (h : flag = true ↔ owed ≠ [])
    (taken : List Delivery) (after : After) (failedNodes : List String) :
    Told owed taken after failedNodes ↔
      (after.flag flag failedNodes = true ↔ owedAfter owed taken failedNodes ≠ []) := by
  cases failedNodes with
  | nil =>
    have hleft : owedAfter owed taken [] ≠ [] ↔ ∃ ops ∈ owed, ∃ e ∈ ops, e ∉ taken := by
      rw [owedAfter, Ne, List.filter_eq_nil_iff]
      simp
    rw [hleft]
    cases after with
    | tick => simp [Told, After.flag]
    | shutdown | route | add | rangeDelete =>
      show _ ↔ (flag = true ↔ _)
      rw [h]
      exact ⟨fun ht => ⟨ht, fun ⟨ops, hops, _⟩ => List.ne_nil_of_mem hops⟩, Iff.mp⟩
  | cons node nodes =>
    have hleft : owedAfter owed taken (node :: nodes) ≠ [] := by simp [owedAfter]
    cases after with
    | tick => simp [Told, After.flag, hleft]
    | shutdown | route | add | rangeDelete =>
      show _ ↔ (flag = true ↔ _)
      rw [h]
      exact ⟨fun howed => iff_of_true howed hleft, fun hiff => hiff.2 hleft⟩

theorem tracks_start (acked : List Delivery) (checkpoint : List CDCRow) :
    Tracks M ⟨start acked checkpoint, fun _ => [], []⟩ :=
  tracks_iff.2 (iff_of_false Bool.false_ne_true (not_not.2 rfl))

/-- A move keeps track iff the flush that returns with it, if one does, lets it. -/
theorem tracks_move {s : Watch} (h : Tracks M s) {i : ℕ} {t : Task}
    (ht : s.state.tasks[i]? = some t) (m : Move) :
    Tracks M (s.move M i m t) ↔ ∀ p ∈ t.returns M s.state.shared m,
      Told s.owed (s.takenAfter M i t m) p.1 p.2 := by
  have hflag := tracks_iff.1 h
  have hshared : (s.move M i m t).state.shared = (act M m s.state.shared t).1 := by
    rw [Watch.move, step_task ht]
  rw [tracks_iff, hshared, lastFlushFailed_act, Watch.move]
  cases t.returns M s.state.shared m with
  | none => exact iff_of_true hflag fun p hp => absurd hp (Option.not_mem_none p)
  | some p =>
    rw [Option.map_some, Option.map_some, Option.getD_some, Option.getD_some, ← told_iff hflag]
    constructor
    · intro htold p' hp
      rwa [← Option.mem_some.1 hp]
    · intro htold
      exact htold p rfl

theorem tracks_step {s : Watch} (h : Tracks M s) (ev : Event) :
    Tracks M (watchStep M s ev) ↔ TellsOwed M s ev := by
  cases ev with
  | task i m =>
    rw [watchStep, TellsOwed]
    cases ht : s.state.tasks[i]? with
    | none =>
      rw [Option.map_none, Option.getD_none]
      exact iff_of_true h fun t ht => absurd ht (Option.not_mem_none t)
    | some t =>
      rw [Option.map_some, Option.getD_some, tracks_move h ht]
      constructor
      · intro htold t' ht'
        rwa [← Option.mem_some.1 ht']
      · intro htold
        exact htold t rfl
  | newConsumer | save j =>
    have hflag := tracks_iff.1 h
    exact iff_of_true (tracks_iff.2 hflag) trivial
  | crash => exact iff_of_true (tracks_start ..) trivial

/-- **Backpressure tracks undelivered data exactly as long as the flushes let it.**  It does
    so in every state of a run iff each flush that returns in the run does it in a way that
    the flag can tell. -/
theorem tracks_iff_along (es : List Event) :
    (∀ es', es' <+: es → Tracks M (Run.exec (watchStep M) watchStart es')) ↔
      Run.Along (watchStep M) (TellsOwed M) watchStart es :=
  @Run.along_iff_forall_prefix _ _ (watchStep M) (TellsOwed M) (Tracks M)
    (fun _ ev h => tracks_step h ev) es watchStart (tracks_start [] [])

/-- The ticker's flush reaches the node at none of three tries and fails; the next one finds
    nothing in the buffer, and clears the flag: the item is owed, and `add` goes on. -/
theorem cleared_while_owed :
    let s := Run.exec (watchStep sampleIngestor) watchStart
      (consumeSample ++ tickWith [none, none, none] ++ tickWith [])
    s.owed = [[sampleItem.delivery]] ∧ ¬ Tracks sampleIngestor s := by
  intro s
  have howed : s.owed = [[sampleItem.delivery]] := by decide +kernel
  have hflag : s.state.shared.lastFlushFailed = false := by decide +kernel
  refine ⟨howed, fun h => ?_⟩
  have hactive := h.active (howed ▸ List.cons_ne_nil _ _)
  rw [hflag] at hactive
  cases hactive

end Ingestor

end Tantylla
