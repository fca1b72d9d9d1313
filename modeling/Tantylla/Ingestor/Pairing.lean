/-
  Which bounds a consumer pairs (`cdc/consumer.rs`).

  A consumer serves the streams of a VNode group and has one slot for the start of a
  range delete.  `seen` lists the rows that a consumer gets in a run, with where
  `consume_cdc` goes on; it depends on the rows only (`seen_eq`).  If the bounds of each
  stream are paired, each range delete is resolved with its own bounds just when no
  bound of another stream comes between them (`resolved_iff`).
-/
import Tantylla.Ingestor.Flushes
import Tantylla.Ingestor.Ids
import Tantylla.Ingestor.Ranges
import Tantylla.Lib.Brackets

namespace Tantylla

open Brackets (Kind Paired brackets slot)

/-- What a row is to the slot. -/
def CDCRow.kind (row : CDCRow) : Kind :=
  match RoutingAction.determine row.operation with
  | .rangeDeleteStart => .opening
  | .rangeDeleteEnd => .closing
  | _ => .other

/-- Two rows are the bounds of one range delete. -/
structure Router.SameRange (router : Router) (startRow endRow : CDCRow) : Prop where
  stream : startRow.streamId = endRow.streamId
  partition : Router.keyValues router.partitionKeyColumns startRow =
    Router.keyValues router.partitionKeyColumns endRow
  time : startRow.time = endRow.time

namespace Ingestor

/-! ## What a consumer sees -/

/-- The consumer waits for a row. -/
def Task.awaits (t : Task) : Bool :=
  match t.role, t.control with
  | .consumer, .waiting => true
  | _, _ => false

section
variable (M : Ingestor) (i : ℕ)

/-- The row that an event gives to the consumer `i`, with where `consume_cdc` goes on. -/
def seenOf (s : State) : Event → List (CDCRow × Control)
  | .task j (.row row) =>
    match s.tasks[j]? with
    | some t =>
      if j = i ∧ t.awaits then [(row, (act M (.row row) s.shared t).2.control)] else []
    | none => []
  | _ => []

/-- The rows that the consumer `i` gets in a run. -/
def seen : State → List Event → List (CDCRow × Control)
  | _, [] => []
  | s, e :: es => seenOf M i s e ++ seen (step M s e) es

/-- The slot and the control of a consumer after a row. -/
def dispatch (pending : Option PendingRangeStart) (row : CDCRow) :
    Option PendingRangeStart × Control :=
  match RoutingAction.determine row.operation with
  | .skip => (pending, .waiting)
  | .rangeDeleteStart =>
    match M.router.extractRangeDeleteStart M.crates row with
    | some start => (some start, .waiting)
    | none => (pending, .stopped)
  | .rangeDeleteEnd =>
    match pending with
    | some start => (none, .taking (.rangeDelete row start 0))
    | none => (none, .stopped)
  | .forward opType => (pending, .routing row opType)

/-- The slot after rows. -/
def pendingAfter (pending : Option PendingRangeStart) (rows : List CDCRow) :
    Option PendingRangeStart :=
  rows.foldl (fun pending row => (dispatch M pending row).1) pending

/-- Where `consume_cdc` goes on with each of the rows. -/
def controls (pending : Option PendingRangeStart) : List CDCRow → List (CDCRow × Control)
  | [] => []
  | row :: rows =>
    (row, (dispatch M pending row).2) :: controls (dispatch M pending row).1 rows

end

variable {M : Ingestor} {i : ℕ}

/-! ## A step of a consumer -/

section
variable (s : Shared) (t : Task) (row : CDCRow)

theorem sameSlot_continueFlush (after : After) (st : FlushState) :
    t.SameSlot (continueFlush M s t after st).2 := by
  cases st with
  | running f => exact ⟨rfl, rfl⟩
  | returned failedNodes => exact (settles_flushed s t failedNodes after).slot

theorem sameSlot_takeBuffer (k : ℕ) (after : After) :
    t.SameSlot (takeBuffer M k s t after).2 := by
  unfold takeBuffer
  split_ifs
  · exact (settles_flushed s t [] after).slot
  · exact sameSlot_continueFlush ..

theorem sameSlot_pushItem (item : BatchItem) (rest : List BatchItem) :
    t.SameSlot (pushItem M s t row item rest).2 := by
  simp only [pushItem]
  split_ifs
  · exact ⟨rfl, rfl⟩
  · rw [addedOk]
    exact (settles_addItems _ t row rest).slot

theorem consumeCdc_dispatch : (consumeCdc M s t row).2 =
    { t with pendingRangeStart := (dispatch M t.pendingRangeStart row).1,
             control := (dispatch M t.pendingRangeStart row).2 } := by
  unfold consumeCdc dispatch
  cases RoutingAction.determine row.operation with
  | skip => rfl
  | rangeDeleteStart =>
    cases M.router.extractRangeDeleteStart M.crates row <;> rfl
  | rangeDeleteEnd =>
    cases hp : t.pendingRangeStart with
    | some start => rfl
    | none => simp only [Task.stop, ← hp]
  | forward opType => rfl

theorem awaits_iff : t.awaits = true ↔ t.role = .consumer ∧ t.control = .waiting := by
  unfold Task.awaits
  split <;> simp_all

theorem act_row (h : t.awaits = true) : act M (.row row) s t = consumeCdc M s t row := by
  obtain ⟨hrole, hc⟩ := (awaits_iff t).1 h
  simp only [act, hc, hrole, if_true]

/-- Where a move of a task leads, unless it is a row that the task waited for. -/
theorem act_sameSlot (m : Move) (hm : ∀ row, m = .row row → t.awaits = false) :
    t.SameSlot (act M m s t).2 ∧ (t.control = .stopped → (act M m s t).2.control = .stopped) := by
  have hstep := act_step M m s t
  generalize act M m s t = p at hstep ⊢
  cases hstep with
  | idle => exact ⟨⟨rfl, rfl⟩, id⟩
  | row row hr hc => exact absurd ((awaits_iff t).2 ⟨hr, hc⟩) (by simp [hm row rfl])
  | tick hr hc | shutdown hr hc => exact ⟨⟨rfl, rfl⟩, by rw [hc]; nofun⟩
  | backpressure k hc | refused k hc | admitted k hc =>
    exact ⟨⟨rfl, rfl⟩, by rw [hc]; nofun⟩
  | route k hc => exact ⟨(settles_routeForward s t _ _).slot, by rw [hc]; nofun⟩
  | push k hc => exact ⟨sameSlot_pushItem .., by rw [hc]; nofun⟩
  | take k hc => exact ⟨sameSlot_takeBuffer .., by rw [hc]; nofun⟩
  | reply k response hc => exact ⟨sameSlot_continueFlush .., by rw [hc]; nofun⟩
  | fetched allDocIds hc => exact ⟨(settles_addItems s t _ _).slot, by rw [hc]; nofun⟩
  | unfetched hc => exact ⟨⟨rfl, rfl⟩, by rw [hc]; nofun⟩

end

/-- What an event does to a consumer: it gives it a row that it waited for, or leaves its
    slot as it is. -/
theorem step_consumer {s : State} {e : Event} {t : Task} (ht : s.tasks[i]? = some t)
    (hrole : t.role = .consumer) (he : e ≠ .crash) :
    ∃ t', (step M s e).tasks[i]? = some t' ∧ t'.role = .consumer ∧
      ((∃ row, seenOf M i s e = [(row, t'.control)] ∧ t.control = .waiting ∧
          (t'.pendingRangeStart, t'.control) = dispatch M t.pendingRangeStart row) ∨
        seenOf M i s e = [] ∧ t'.pendingRangeStart = t.pendingRangeStart ∧
          (t.control = .stopped → t'.control = .stopped)) := by
  cases e with
  | crash => exact absurd rfl he
  | save j => exact ⟨t, ht, hrole, Or.inr ⟨rfl, rfl, id⟩⟩
  | newConsumer =>
    exact ⟨t, getElem?_step_newConsumer ht, hrole, Or.inr ⟨rfl, rfl, id⟩⟩
  | task j m =>
    by_cases hj : j = i
    · subst hj
      refine ⟨(act M m s.shared t).2, getElem?_step_task ht m, ?_⟩
      by_cases hm : (∃ row, m = .row row) ∧ t.awaits = true
      · obtain ⟨⟨row, rfl⟩, ha⟩ := hm
        obtain ⟨-, hc⟩ := (awaits_iff t).1 ha
        refine ⟨?_, Or.inl ⟨row, ?_, hc, ?_⟩⟩
        · rw [act_row s.shared t row ha, consumeCdc_dispatch]
          exact hrole
        · simp only [seenOf, ht, ha, and_self, if_true]
        · rw [act_row s.shared t row ha, consumeCdc_dispatch]
      · have hm' : ∀ row, m = .row row → t.awaits = false := by
          intro row hrow
          exact Bool.eq_false_of_not_eq_true fun ha => hm ⟨⟨row, hrow⟩, ha⟩
        obtain ⟨⟨hr, hp⟩, hstop⟩ := act_sameSlot s.shared t m hm'
        refine ⟨hr.trans hrole, Or.inr ⟨?_, hp, hstop⟩⟩
        cases m with
        | row row => simp [seenOf, ht, hm' row rfl]
        | _ => rfl
    · refine ⟨t, (getElem?_step_task_of_ne hj m).trans ht, hrole, Or.inr ⟨?_, rfl, id⟩⟩
      cases m with
      | row row => simp only [seenOf, hj, false_and, if_false]; cases s.tasks[j]? <;> rfl
      | _ => rfl

/-! ## A run of a consumer -/

theorem seen_stopped {s : State} {es : List Event} {t : Task} (ht : s.tasks[i]? = some t)
    (hrole : t.role = .consumer) (hc : t.control = .stopped) (hcrash : Event.crash ∉ es) :
    seen M i s es = [] := by
  induction es generalizing s t with
  | nil => rfl
  | cons e es ih =>
    rw [List.mem_cons, not_or] at hcrash
    obtain ⟨t', ht', hrole', hstep⟩ := @step_consumer M i s e t ht hrole (Ne.symm hcrash.1)
    rcases hstep with ⟨row, -, hc', -⟩ | ⟨hseen, -, hstop⟩
    · rw [hc] at hc'
      cases hc'
    · rw [seen, hseen, List.nil_append]
      exact ih ht' hrole' (hstop hc) hcrash.2

/-- **What a consumer does with its rows depends on the rows only.** -/
theorem seen_eq {s : State} {es : List Event} {t : Task} (ht : s.tasks[i]? = some t)
    (hrole : t.role = .consumer) (hcrash : Event.crash ∉ es) :
    seen M i s es = controls M t.pendingRangeStart ((seen M i s es).map Prod.fst) := by
  induction es generalizing s t with
  | nil => rfl
  | cons e es ih =>
    rw [List.mem_cons, not_or] at hcrash
    obtain ⟨t', ht', hrole', hstep⟩ := @step_consumer M i s e t ht hrole (Ne.symm hcrash.1)
    have hrest := ih ht' hrole' hcrash.2
    rcases hstep with ⟨row, hseen, -, hd⟩ | ⟨hseen, hp, -⟩
    · rw [seen, hseen, List.singleton_append, List.map_cons, controls, ← hd]
      simp only
      rw [← hrest]
    · rw [seen, hseen, List.nil_append, ← hp]
      exact hrest

/-- A row with which a consumer stops is the last it gets. -/
theorem seen_pairwise {s : State} {es : List Event} {t : Task} (ht : s.tasks[i]? = some t)
    (hrole : t.role = .consumer) (hcrash : Event.crash ∉ es) :
    (seen M i s es).Pairwise fun x _ => x.2 ≠ .stopped := by
  induction es generalizing s t with
  | nil => exact List.Pairwise.nil
  | cons e es ih =>
    rw [List.mem_cons, not_or] at hcrash
    obtain ⟨t', ht', hrole', hstep⟩ := @step_consumer M i s e t ht hrole (Ne.symm hcrash.1)
    have hrest := ih ht' hrole' hcrash.2
    rcases hstep with ⟨row, hseen, -, -⟩ | ⟨hseen, -, -⟩
    · rw [seen, hseen, List.singleton_append, List.pairwise_cons]
      refine ⟨fun y hy hstop => ?_, hrest⟩
      rw [seen_stopped ht' hrole' hstop hcrash.2] at hy
      cases hy
    · rw [seen, hseen]
      exact hrest

/-! ## The slot in a run -/

theorem kind_eq_opening {row : CDCRow} :
    row.kind = .opening ↔ RoutingAction.determine row.operation = .rangeDeleteStart := by
  unfold CDCRow.kind
  split <;> simp_all

theorem kind_eq_closing {row : CDCRow} :
    row.kind = .closing ↔ RoutingAction.determine row.operation = .rangeDeleteEnd := by
  unfold CDCRow.kind
  split <;> simp_all

section
variable {pending : Option PendingRangeStart} {row : CDCRow}

theorem dispatch_opening (h : row.kind = .opening) :
    dispatch M pending row = match M.router.extractRangeDeleteStart M.crates row with
      | some start => (some start, .waiting)
      | none => (pending, .stopped) := by
  unfold dispatch
  rw [kind_eq_opening.1 h]

theorem dispatch_closing (h : row.kind = .closing) :
    dispatch M pending row = match pending with
      | some start => (none, .taking (.rangeDelete row start 0))
      | none => (none, .stopped) := by
  unfold dispatch
  rw [kind_eq_closing.1 h]

theorem dispatch_other (h : row.kind = .other) : (dispatch M pending row).1 = pending := by
  unfold CDCRow.kind at h
  unfold dispatch
  cases hd : RoutingAction.determine row.operation with
  | skip | forward => rfl
  | rangeDeleteStart | rangeDeleteEnd => rw [hd] at h; cases h

/-- Only an end bound that finds a start in the slot calls `commit_range_delete`. -/
theorem dispatch_taking {row' : CDCRow} {start : PendingRangeStart} {failed : ℕ}
    (h : (dispatch M pending row).2 = .taking (.rangeDelete row' start failed)) :
    row.kind = .closing ∧ pending = some start ∧ row' = row ∧ failed = 0 := by
  unfold dispatch at h
  cases hd : RoutingAction.determine row.operation with
  | skip | forward => rw [hd] at h; cases h
  | rangeDeleteStart =>
    rw [hd] at h
    cases hx : M.router.extractRangeDeleteStart M.crates row <;> rw [hx] at h <;> cases h
  | rangeDeleteEnd =>
    rw [hd] at h
    cases pending with
    | none => cases h
    | some start' =>
      cases h
      exact ⟨kind_eq_closing.2 hd, rfl, rfl, rfl⟩

end

theorem controls_append (pending : Option PendingRangeStart) (rows rows' : List CDCRow) :
    controls M pending (rows ++ rows') =
      controls M pending rows ++ controls M (pendingAfter M pending rows) rows' := by
  induction rows generalizing pending with
  | nil => rfl
  | cons row rows ih =>
    rw [List.cons_append, controls, ih]
    rfl

theorem length_controls (pending : Option PendingRangeStart) (rows : List CDCRow) :
    (controls M pending rows).length = rows.length := by
  induction rows generalizing pending with
  | nil => rfl
  | cons row rows ih => rw [controls, List.length_cons, ih, List.length_cons]

/-- The slot holds what the last start bound says, until the next end bound. -/
theorem pendingAfter_eq {rows : List CDCRow} (h : ∀ row ∈ rows, row.kind = .opening →
      (M.router.extractRangeDeleteStart M.crates row).isSome) :
    pendingAfter M none rows =
      (slot CDCRow.kind rows).bind (M.router.extractRangeDeleteStart M.crates) := by
  induction rows using List.reverseRecOn with
  | nil => rfl
  | append_singleton rows row ih =>
    have hih := ih fun row' hrow' => h row' (List.mem_append_left _ hrow')
    rw [Brackets.slot_append_singleton, pendingAfter, List.foldl_append]
    show (dispatch M (pendingAfter M none rows) row).1 = _
    cases hk : row.kind with
    | opening =>
      obtain ⟨start, hstart⟩ := Option.isSome_iff_exists.1
        (h row (List.mem_append_right _ (List.mem_singleton_self _)) hk)
      rw [dispatch_opening hk, hstart]
      exact hstart.symm
    | closing =>
      rw [dispatch_closing hk]
      cases pendingAfter M none rows <;> rfl
    | other => rw [dispatch_other hk, hih]

/-- What a consumer did before a row decides where it goes on with it. -/
theorem seen_split {s : State} {es : List Event} {t : Task} (ht : s.tasks[i]? = some t)
    (hrole : t.role = .consumer) (hcrash : Event.crash ∉ es)
    {before after : List (CDCRow × Control)} {row : CDCRow} {control : Control}
    (hseen : seen M i s es = before ++ (row, control) :: after) :
    control = (dispatch M (pendingAfter M t.pendingRangeStart (before.map Prod.fst)) row).2 := by
  have heq := @seen_eq M i s es t ht hrole hcrash
  rw [hseen, List.map_append, List.map_cons, controls_append, controls] at heq
  have hlen : before.length = (controls M t.pendingRangeStart (before.map Prod.fst)).length := by
    rw [length_controls, List.length_map]
  have hrest := (List.append_inj heq hlen).2
  exact congrArg Prod.snd (List.cons.inj hrest).1

/-! ## Range deletes of a consumer -/

/-- The rows of a stream. -/
def streamRows (streamId : String) (rows : List CDCRow) : List CDCRow :=
  rows.filter fun row => row.streamId = streamId

/-- In each stream, each start bound is followed by its end bound, and there are no other end
    bounds. -/
def StreamsPaired (M : Ingestor) (rows : List CDCRow) : Prop :=
  ∀ streamId, Paired CDCRow.kind M.router.SameRange (streamRows streamId rows)

/-- No bound of another stream comes between a start bound and its end bound. -/
def BoundsPaired (M : Ingestor) (rows : List CDCRow) : Prop :=
  Paired CDCRow.kind M.router.SameRange (brackets CDCRow.kind rows)

/-- `start` is what the start bound before `endRow` in its stream says, which is one of the
    same range delete. -/
def OwnStart (M : Ingestor) (before : List CDCRow) (endRow : CDCRow)
    (start : PendingRangeStart) : Prop :=
  ∃ startRow, (streamRows endRow.streamId before).getLast? = some startRow ∧
    M.router.SameRange startRow endRow ∧
    M.router.extractRangeDeleteStart M.crates startRow = some start

/-- Each call of `commit_range_delete` is for an end bound and gets its own start, and each
    end bound makes one. -/
structure Resolved (M : Ingestor) (seen : List (CDCRow × Control)) : Prop where
  calls : ∀ before row control after, seen = before ++ (row, control) :: after →
    ∀ row' start failed, control = .taking (.rangeDelete row' start failed) →
      row.kind = .closing ∧ row' = row ∧ failed = 0 ∧ OwnStart M (before.map Prod.fst) row start
  ends : ∀ before row control after, seen = before ++ (row, control) :: after →
    row.kind = .closing → ∃ start, control = .taking (.rangeDelete row start 0)

/-! ## Sample streams -/

/-- A bound of the range from `1` on, of the partition `k` of a stream. -/
def sampleStreamBound (streamId k : String) (operation : OperationType) : CDCRow :=
  { sampleBound operation (some 1) none with
    streamId := streamId
    columns := [⟨"k", some (.text k), false, none⟩, ⟨"c1", some (.int 1), false, none⟩] }

def sampleStart (streamId k : String) : CDCRow := sampleStreamBound streamId k .rowRangeDelInclLeft

def sampleEnd (streamId k : String) : CDCRow := sampleStreamBound streamId k .rowRangeDelInclRight

def sampleRangeIngestor : Ingestor := { sampleIngestor with router := sampleRangeRouter }

/-- The consumer gets a row; it resolves a range delete that matches no document. -/
def sampleGet (row : CDCRow) : List Event :=
  .task 2 (.row row) ::
    if row.kind = .closing then [.task 2 (.proceed 0), .task 2 (.fetched (some []))] else []

/-- A consumer of two streams. -/
def sampleConsumerState : State := step sampleRangeIngestor (start [] []) .newConsumer

theorem crash_not_mem_sampleGet (rows : List CDCRow) : Event.crash ∉ rows.flatMap sampleGet := by
  intro h
  obtain ⟨row, -, h⟩ := List.mem_flatMap.1 h
  unfold sampleGet at h
  split at h <;> simp at h

theorem sampleRange_paired (streamId k : String) {rows : List CDCRow}
    (h : Paired CDCRow.kind sampleRangeIngestor.router.SameRange rows) :
    Paired CDCRow.kind sampleRangeIngestor.router.SameRange
      (sampleStart streamId k :: sampleEnd streamId k :: rows) :=
  .pair rfl rfl ⟨rfl, rfl, rfl⟩ h

theorem sampleStreams_paired {rows : List CDCRow}
    (h₀ : streamRows "00" rows = [sampleStart "00" "x", sampleEnd "00" "x"])
    (h₁ : streamRows "01" rows = [sampleStart "01" "y", sampleEnd "01" "y"])
    (hrows : ∀ row ∈ rows, row.streamId = "00" ∨ row.streamId = "01") :
    StreamsPaired sampleRangeIngestor rows := by
  intro streamId
  by_cases h0 : streamId = "00"
  · rw [h0, h₀]
    exact sampleRange_paired _ _ .nil
  by_cases h1 : streamId = "01"
  · rw [h1, h₁]
    exact sampleRange_paired _ _ .nil
  have hnil : streamRows streamId rows = [] := by
    refine List.filter_eq_nil_iff.2 fun row hrow => ?_
    rcases hrows row hrow with h | h <;> simp [h, Ne.symm h0, Ne.symm h1]
  rw [hnil]
  exact .nil

section
variable {s : State} {es : List Event}

/-- Each start bound that a consumer gets is remembered, as its end bound follows. -/
theorem extract_of_streamsPaired {t : Task} (ht : s.tasks[i]? = some t)
    (hrole : t.role = .consumer) (hcrash : Event.crash ∉ es)
    (hstreams : StreamsPaired M ((seen M i s es).map Prod.fst)) :
    ∀ row ∈ (seen M i s es).map Prod.fst, row.kind = .opening →
      (M.router.extractRangeDeleteStart M.crates row).isSome := by
  intro row hrow hk
  by_contra hnone
  rw [Option.not_isSome_iff_eq_none] at hnone
  obtain ⟨⟨row, control⟩, hmem, rfl⟩ := List.mem_map.1 hrow
  obtain ⟨before, after, hsplit⟩ := List.append_of_mem hmem
  have hcontrol := seen_split ht hrole hcrash hsplit
  rw [dispatch_opening hk, hnone] at hcontrol
  -- the consumer stops with the row, so nothing follows it
  have hpair := @seen_pairwise M i s es t ht hrole hcrash
  rw [hsplit] at hpair
  have hafter : after = [] := by
    refine List.eq_nil_iff_forall_not_mem.2 fun y hy => ?_
    exact List.rel_of_pairwise_cons (List.pairwise_append.1 hpair).2.1 hy hcontrol
  have hp := hstreams row.streamId
  rw [hsplit, hafter, List.map_append, streamRows, List.filter_append, List.map_cons,
    List.filter_cons_of_pos (by simp)] at hp
  exact hp.not_opening hk

/-- What the slot holds when a row comes decides where `consume_cdc` goes on with it. -/
theorem control_eq_of_slot (hnew : s.tasks[i]? = some newConsumer) (hcrash : Event.crash ∉ es)
    (hstreams : StreamsPaired M ((seen M i s es).map Prod.fst))
    {before after : List (CDCRow × Control)} {row : CDCRow} {control : Control}
    (hsplit : seen M i s es = before ++ (row, control) :: after) :
    control = (dispatch M ((slot CDCRow.kind (before.map Prod.fst)).bind
      (M.router.extractRangeDeleteStart M.crates)) row).2 := by
  have hextract := extract_of_streamsPaired hnew rfl hcrash hstreams
  rw [← pendingAfter_eq fun row' hrow' => hextract row' (by
    rw [hsplit, List.map_append]; exact List.mem_append_left _ hrow')]
  exact seen_split hnew rfl hcrash hsplit

/-- If no bounds of other streams come between, an end bound finds its own start in the slot. -/
theorem ownStart_of_boundsPaired (hnew : s.tasks[i]? = some newConsumer)
    (hcrash : Event.crash ∉ es) (hstreams : StreamsPaired M ((seen M i s es).map Prod.fst))
    (h : BoundsPaired M ((seen M i s es).map Prod.fst))
    {before after : List (CDCRow × Control)} {row : CDCRow} {control : Control}
    (hsplit : seen M i s es = before ++ (row, control) :: after) (hk : row.kind = .closing) :
    ∃ start, OwnStart M (before.map Prod.fst) row start ∧
      (slot CDCRow.kind (before.map Prod.fst)).bind
        (M.router.extractRangeDeleteStart M.crates) = some start := by
  have hrows : (seen M i s es).map Prod.fst =
      before.map Prod.fst ++ row :: after.map Prod.fst := by
    rw [hsplit, List.map_append, List.map_cons]
  obtain ⟨startRow, hstart, hlast, hopen, hsame⟩ := Brackets.slot_eq_own
    (fun _ _ hm => hm.stream) hstreams h hrows hk
  have hmem : startRow ∈ (seen M i s es).map Prod.fst := by
    rw [hrows]
    exact List.mem_append_left _ (List.mem_of_mem_filter (List.mem_of_getLast? hlast))
  obtain ⟨start, hx⟩ := Option.isSome_iff_exists.1
    (extract_of_streamsPaired hnew rfl hcrash hstreams startRow hmem hopen)
  exact ⟨start, ⟨startRow, hlast, hsame, hx⟩, by rw [hstart]; exact hx⟩

/-- **A consumer resolves each range delete with its own bounds just when no bound of another
    stream comes between them.** -/
theorem resolved_iff (hnew : s.tasks[i]? = some newConsumer) (hcrash : Event.crash ∉ es)
    (hstreams : StreamsPaired M ((seen M i s es).map Prod.fst)) :
    Resolved M (seen M i s es) ↔ BoundsPaired M ((seen M i s es).map Prod.fst) := by
  constructor
  · intro h
    refine Brackets.paired_of_slots hstreams fun before row after hsplit hk hnone => ?_
    obtain ⟨before', after', hseen, rfl, hafter⟩ := List.map_eq_append_iff.1 hsplit
    obtain ⟨⟨_, control⟩, after'', rfl, rfl, -⟩ := List.map_eq_cons_iff.1 hafter
    obtain ⟨start, hcontrol⟩ := h.ends before' _ control after'' hseen hk
    have hd := control_eq_of_slot hnew hcrash hstreams hseen
    rw [hnone, dispatch_closing hk, hcontrol] at hd
    cases hd
  · intro h
    refine ⟨fun before row control after hsplit row' start failed hcontrol => ?_,
      fun before row control after hsplit hk => ?_⟩
    · have hd := control_eq_of_slot hnew hcrash hstreams hsplit
      rw [hcontrol] at hd
      obtain ⟨hk, hpending, hrow', hfailed⟩ := dispatch_taking hd.symm
      obtain ⟨start', hstart', hx⟩ := ownStart_of_boundsPaired hnew hcrash hstreams h hsplit hk
      rw [hpending] at hx
      cases hx
      exact ⟨hk, hrow', hfailed, hstart'⟩
    · obtain ⟨start, -, hx⟩ := ownStart_of_boundsPaired hnew hcrash hstreams h hsplit hk
      refine ⟨start, ?_⟩
      rw [control_eq_of_slot hnew hcrash hstreams hsplit, hx, dispatch_closing hk]

/-- Two range deletes of two streams, one after the other. -/
theorem resolved_sample :
    let es := [sampleStart "00" "x", sampleEnd "00" "x", sampleStart "01" "y",
      sampleEnd "01" "y"].flatMap sampleGet
    Resolved sampleRangeIngestor (seen sampleRangeIngestor 2 sampleConsumerState es) := by
  intro es
  have hrows : (seen sampleRangeIngestor 2 sampleConsumerState es).map Prod.fst =
      [sampleStart "00" "x", sampleEnd "00" "x", sampleStart "01" "y", sampleEnd "01" "y"] := rfl
  refine (resolved_iff rfl (crash_not_mem_sampleGet _) ?_).2 ?_
  · rw [hrows]
    exact sampleStreams_paired rfl rfl (by simp [sampleStart, sampleEnd, sampleStreamBound])
  · rw [hrows]
    exact sampleRange_paired "00" "x" (sampleRange_paired "01" "y" .nil)

/-- The second stream's start comes before the first stream's end: the first range delete is
    resolved for the second one's partition, and the second one's end is rejected. -/
theorem bounds_crossed :
    let es := [sampleStart "00" "x", sampleStart "01" "y", sampleEnd "00" "x",
      sampleEnd "01" "y"].flatMap sampleGet
    let rows := seen sampleRangeIngestor 2 sampleConsumerState es
    sampleConsumerState.tasks[2]? = some newConsumer ∧ Event.crash ∉ es ∧
      StreamsPaired sampleRangeIngestor (rows.map Prod.fst) ∧
      (∃ start, rows[2]? = some (sampleEnd "00" "x",
        .taking (.rangeDelete (sampleEnd "00" "x") start 0)) ∧ start.partitionKey = "y") ∧
      rows[3]?.map Prod.snd = some .stopped ∧ ¬ Resolved sampleRangeIngestor rows := by
  intro es rows
  have hrows : rows.map Prod.fst =
      [sampleStart "00" "x", sampleStart "01" "y", sampleEnd "00" "x", sampleEnd "01" "y"] := rfl
  refine ⟨rfl, crash_not_mem_sampleGet _, ?_, ⟨_, rfl, rfl⟩, rfl, fun h => ?_⟩
  · rw [hrows]
    exact sampleStreams_paired rfl rfl (by simp [sampleStart, sampleEnd, sampleStreamBound])
  · obtain ⟨start, hstart⟩ := h.ends (rows.take 3) _ .stopped [] rfl rfl
    cases hstart

end

end Ingestor

end Tantylla
