/-
  What a range delete sees of earlier writes (`commit_range_delete`).

  A range delete flushes the buffer and then asks the node for the ids of the partition.
  A flush that finds the buffer empty returns `Ok`, though another flush may still be
  sending what it took, and what a failed flush took is gone.  `range_delete_sees`: if no
  batch with an earlier write is given up, and no flush still holds it when the node is
  asked, then the node has acknowledged it.
-/
import Tantylla.Ingestor.Pairing

namespace Tantylla

namespace Ingestor

variable {M : Ingestor} {e : Delivery}

/-! ## What a step keeps -/

theorem count_held_of_flush {t : Task} {fl : Option Flush} (h : t.flush = fl) :
    t.held.count e = ((fl.map Flush.held).getD []).count e := by rw [← h]; rfl

theorem count_taken (D : Serde) (k : ℕ) (items : List String) :
    (((nextBatch k [] (nodeBatches D items)).flush.map Flush.held).getD []).count e =
      ((items.filterMap D.fromStr).map BatchItem.delivery).count e := by
  rw [← FlushState.held_eq, count_nextBatch, count_nodeBatches]

section
variable {m : Move} {s s' : Shared} {t t' : Task}

/-- What is held stays held, or is acknowledged. -/
theorem FlushStep.sent (h : FlushStep M s t m s' t'.flush) (hans : t.Answered e m) :
    s.acked.count e + t.held.count e ≤ s'.acked.count e + t'.held.count e := by
  generalize hfl : t'.flush = fl at h
  rw [count_held_of_flush hfl]
  cases h with
  | quiet _ _ hacked => exact Nat.le_of_eq (by rw [hacked]; rfl)
  | push _ hnone _ hacked =>
    rw [hacked, count_held_of_flush hnone]
  | take hc _ hacked =>
    have hnone : t.flush = none := by rw [Task.flush, hc]
    rw [hacked, count_held_of_flush hnone]
    exact Nat.add_le_add_left (Nat.zero_le _) _
  | @reply k response f _ hsome _ hacked =>
    have hkept := f.count_reply k (hans f hsome)
    rw [hacked, List.count_append, count_held_of_flush hsome, ← FlushState.held_eq]
    show s.acked.count e + f.held.count e ≤ _
    omega

/-- What is in the buffer or held stays so, or is acknowledged. -/
theorem FlushStep.kept (h : FlushStep M s t m s' t'.flush) (hans : t.Answered e m) :
    (buffered M s).count e + s.acked.count e + t.held.count e ≤
      (buffered M s').count e + s'.acked.count e + t'.held.count e := by
  have hsent := h.sent hans
  generalize hfl : t'.flush = fl at h
  cases h with
  | quiet _ hbuffer => rw [buffered_congr hbuffer]; omega
  | push _ _ hbuffer =>
    have hgrow : (buffered M s).count e ≤ (buffered M s').count e := by
      rw [buffered, buffered, hbuffer, List.filterMap_append, List.map_append, List.count_append]
      exact Nat.le_add_right _ _
    omega
  | take hc hbuffer hacked =>
    have hnone : t.flush = none := by rw [Task.flush, hc]
    rw [hacked, count_held_of_flush hnone, count_held_of_flush hfl, count_taken]
    show (buffered M s).count e + s.acked.count e + 0 ≤ _ + _ + (buffered M s).count e
    omega
  | reply _ hbuffer => rw [buffered_congr hbuffer]; omega

end

/-! ## What a run keeps -/

/-- At least `n` copies of the delivery are in the buffer, in flushes or acknowledged. -/
def Kept (M : Ingestor) (e : Delivery) (n : ℕ) (s : State) : Prop :=
  n ≤ (buffered M s.shared).count e + s.shared.acked.count e + s.total fun t => t.held.count e

/-- At least `n` copies of the delivery are in flushes or acknowledged. -/
def Sent (e : Delivery) (n : ℕ) (s : State) : Prop :=
  n ≤ s.shared.acked.count e + s.total fun t => t.held.count e

section
variable {n : ℕ} {s : State} {ev : Event}

theorem Kept.step (h : Kept M e n s) (hev : OnTask (fun t m => t.Answered e m) s ev)
    (hcrash : ev ≠ .crash) : Kept M e n (step M s ev) := by
  cases ev with
  | task i m =>
    refine h.trans (Pool.grows (c := fun s => (buffered M s).count e + s.acked.count e) i
      fun t ht => ?_)
    exact (flush_act m s.shared t).kept (hev t ht)
  | newConsumer =>
    rw [Kept, total_step_newConsumer rfl]
    exact h
  | save j => exact h
  | crash => exact absurd rfl hcrash

theorem Sent.step (h : Sent e n s) (hev : OnTask (fun t m => t.Answered e m) s ev)
    (hcrash : ev ≠ .crash) : Sent e n (step M s ev) := by
  cases ev with
  | task i m =>
    refine h.trans (Pool.grows (c := fun s : Shared => s.acked.count e) i fun t ht => ?_)
    exact (flush_act m s.shared t).sent (hev t ht)
  | newConsumer =>
    rw [Sent, total_step_newConsumer rfl]
    exact h
  | save j => exact h
  | crash => exact absurd rfl hcrash

/-- The task has not yet taken the buffer for its flush, or has stopped. -/
def BeforeTaking (i : ℕ) (s : State) : Prop :=
  ∃ t, s.tasks[i]? = some t ∧ (t.control = .stopped ∨ ∃ after, t.control = .taking after)

variable {i : ℕ}

theorem sent_of_taken {m : Move} {t : Task} (h : Kept M e n s) (ht : s.tasks[i]? = some t)
    (hev : OnTask (fun t m => t.Answered e m) s (.task i m))
    (hempty : (act M m s.shared t).1.buffer = []) : Sent e n (step M s (.task i m)) := by
  have hkept := @Kept.step M e n s _ h hev nofun
  have hbuffer : (step M s (.task i m)).shared.buffer = [] := by rw [step_task ht, hempty]
  rw [Kept, buffered, hbuffer] at hkept
  simpa [Sent] using hkept

theorem act_beforeTaking {m : Move} {s : Shared} {t : Task}
    (hc : t.control = .stopped ∨ ∃ after, t.control = .taking after) :
    act M m s t = (s, t) ∨ (act M m s t).1.buffer = [] := by
  have hstep := act_step M m s t
  generalize act M m s t = p at hstep ⊢
  have hno : ∀ control, t.control = control →
      control = .stopped ∨ ∃ after, control = .taking after := fun control h => h ▸ hc
  cases hstep with
  | idle => exact Or.inl rfl
  | take k ht => exact Or.inr (buffer_takeBuffer s t k _)
  | tick _ h | shutdown _ h | row _ _ h | backpressure _ h | route _ h | refused _ h
  | admitted _ h | push _ h | reply _ _ h | fetched _ h | unfetched h => simpa using hno _ h

theorem BeforeTaking.step (h : BeforeTaking i s) (hkept : Kept M e n s)
    (hev : OnTask (fun t m => t.Answered e m) s ev) (hcrash : ev ≠ .crash) :
    BeforeTaking i (step M s ev) ∨ Sent e n (step M s ev) := by
  obtain ⟨t, ht, hc⟩ := h
  cases ev with
  | crash => exact absurd rfl hcrash
  | save j => exact Or.inl ⟨t, ht, hc⟩
  | newConsumer =>
    exact Or.inl ⟨t, getElem?_step_newConsumer ht, hc⟩
  | task j m =>
    by_cases hj : j = i
    · subst hj
      rcases @act_beforeTaking M m s.shared t hc with hidle | hempty
      · exact Or.inl ⟨t, by rw [getElem?_step_task ht, hidle], hc⟩
      · exact Or.inr (sent_of_taken hkept ht hev hempty)
    · exact Or.inl ⟨t, (getElem?_step_task_of_ne hj m).trans ht, hc⟩

/-- **Once the task has taken the buffer, what was kept before is sent.** -/
theorem sent_of_run {es : List Event} (hkept : Kept M e n s) (hbefore : BeforeTaking i s)
    (hans : Run.Along (Ingestor.step M) (OnTask fun t m => t.Answered e m) s es)
    (hcrash : Event.crash ∉ es) :
    BeforeTaking i (Run.exec (Ingestor.step M) s es) ∨
      Sent e n (Run.exec (Ingestor.step M) s es) := by
  have hsteps := hans.and (Run.along_of_forall (P := fun ev => ev ≠ .crash)
    fun ev hev h => hcrash (h ▸ hev))
  refine (hsteps.inv (I := fun s => Kept M e n s ∧ (BeforeTaking i s ∨ Sent e n s)) ?_
    ⟨hkept, Or.inl hbefore⟩).2
  rintro s ev ⟨hk, hb | hs⟩ ⟨hev, hc⟩
  · exact ⟨hk.step hev hc, hb.step hk hev hc⟩
  · exact ⟨hk.step hev hc, Or.inr (hs.step hev hc)⟩

end

/-! ## Sample runs -/

/-- An insert of the row `(x, 2, 3)`. -/
def sampleInsert (time : Uuid) : CDCRow :=
  { sampleBound .rowInsert (some 2) (some 3) with time := time }

/-- The payload of an insert at a time. -/
def samplePayload (time : String) : Json :=
  .obj [("_cdc_batch_seq", .num (.int 0)), ("_cdc_stream_id", .str "00"), ("_cdc_time", .str time),
    ("c1", .num (.int 2)), ("c2", .num (.int 3)), ("k", .str "x")]

def samplePayloadText (time : String) : String :=
  "\x7b\"_cdc_batch_seq\":0,\"_cdc_stream_id\":\"00\",\"_cdc_time\":\"" ++ time ++
    "\",\"c1\":2,\"c2\":3,\"k\":\"x\"\x7d"

/-- The item of an insert. -/
def sampleUpsert (time : String) (writetime : ℕ) : BatchItem where
  targetNode := "node"
  id := "x:2:3"
  opType := 1
  writetime := writetime
  cdcTtl := none
  payloadJson := samplePayloadText time
  collectionDeltas := []
  partitionKey := some "x"

def sampleUpsertText (time : String) (writetime : ℕ) : String :=
  "\x7b\"target_node\":\"node\",\"id\":\"x:2:3\",\"op_type\":1,\"writetime\":" ++
    toString writetime ++ ",\"cdc_ttl\":null,\"payload_json\":\"\x7b\\\"_cdc_batch_seq\\\":0," ++
    "\\\"_cdc_stream_id\\\":\\\"00\\\",\\\"_cdc_time\\\":\\\"" ++ time ++ "\\\",\\\"c1\\\":2," ++
    "\\\"c2\\\":3,\\\"k\\\":\\\"x\\\"\x7d\",\"collection_deltas\":[],\"partition_key\":\"x\"\x7d"

/-- The items of inserts at two times, one and two seconds after the Unix epoch. -/
def sampleUpserts : List (BatchItem × String) :=
  [("1419d680-1dd2-11b2-8000-000000000000", 1000000),
    ("14b26d00-1dd2-11b2-8000-000000000000", 2000000)].map fun (time, writetime) =>
      (sampleUpsert time writetime, sampleUpsertText time writetime)

/-- The payloads and the items are written and read as the crate does. -/
def sampleUpsertIngestor : Ingestor where
  crates := { sampleRouterCrates with
    jsonToString := fun j => ((sampleTimes.find? fun t => samplePayload t.2.1 = j).map
      fun t => samplePayloadText t.2.1).getD "" }
  serde :=
    { toString := fun item => (sampleUpserts.lookup item).getD ""
      fromStr := fun s => (sampleUpserts.find? fun p => p.2 = s).map Prod.fst }
  router := sampleRangeRouter

/-- The consumer gets a row and adds its item. -/
def sampleAdd (row : CDCRow) : List Event :=
  [.task 2 (.row row), .task 2 (.proceed 0), .task 2 (.proceed 0), .task 2 (.proceed 0)]

/-- The consumer adds the insert, the ticker takes it out of the buffer, and the consumer
    gets the start of a range. -/
def insertTaken : List Event :=
  .newConsumer :: sampleAdd (sampleInsert 0x1419d6801dd211b28000000000000000) ++
    [.task 0 .tick, .task 0 (.proceed 0),
      .task 2 (.row (sampleBound .rowRangeDelInclLeft (some 1) none))]

def sampleEndRow : CDCRow := sampleBound .rowRangeDelInclRight (some 3) none

/-! ## The query of a range delete -/

theorem kept_of_run {es : List Event}
    (hread : Run.Along (step M) (OnTask fun t _ => t.Reads M) (start [] []) es)
    (hans : Run.Along (step M) (OnTask fun t m => t.Answered e m) (start [] []) es) :
    Kept M e ((Run.exec (step M) (start [] []) es).shared.accepted.count e)
      (Run.exec (step M) (start [] []) es) := by
  have hbal : Balanced M e (Run.exec (step M) (start [] []) es) :=
    (hread.and hans).inv (fun s ev h hev => h.step (hev.1.and hev.2)) (balanced_start ..)
  rw [Balanced] at hbal
  rw [Kept]
  omega

/-- The node and the partition that the task asks for. -/
def Task.asks (t : Task) : Option (String × String) :=
  match t.control with
  | .fetching _ start => some (start.targetNode, start.partitionKey)
  | _ => none

/-- A consumer that gets an end bound is about to flush, or stops. -/
theorem beforeTaking_of_end {s : State} {i : ℕ} {t : Task} {endRow : CDCRow}
    (ht : s.tasks[i]? = some t) (hawaits : t.awaits = true) (hend : endRow.kind = .closing) :
    BeforeTaking i (step M s (.task i (.row endRow))) := by
  refine ⟨_, getElem?_step_task ht (.row endRow), ?_⟩
  rw [act_row s.shared t endRow hawaits, consumeCdc_dispatch, dispatch_closing hend]
  cases t.pendingRangeStart with
  | none => exact Or.inl rfl
  | some start => exact Or.inr ⟨_, rfl⟩

/-- **A range delete sees every earlier write.**  A consumer gets an end bound, and later
    asks a node for the ids of a partition.  Each delivery that `add` had accepted before
    the end bound has then been acknowledged, if no batch with it is given up and no flush
    still holds it. -/
theorem range_delete_sees {i : ℕ} {endRow : CDCRow} {targetNode partitionKey : String}
    {es₁ es₂ : List Event}
    (hread : Run.Along (step M) (OnTask fun t _ => t.Reads M) (start [] [])
      (es₁ ++ .task i (.row endRow) :: es₂))
    (hans : Run.Along (step M) (OnTask fun t m => t.Answered e m) (start [] [])
      (es₁ ++ .task i (.row endRow) :: es₂))
    (hcrash : Event.crash ∉ es₂)
    (hawaits : (Run.exec (step M) (start [] []) es₁).tasks[i]?.any Task.awaits = true)
    (hend : endRow.kind = .closing)
    (hasks : (Run.exec (step M) (start [] [])
      (es₁ ++ .task i (.row endRow) :: es₂)).tasks[i]?.bind Task.asks =
        some (targetNode, partitionKey))
    (hheld : e ∉ (Run.exec (step M) (start [] []) (es₁ ++ .task i (.row endRow) :: es₂)).held) :
    (Run.exec (step M) (start [] []) es₁).shared.accepted.count e ≤
      (Run.exec (step M) (start [] [])
        (es₁ ++ .task i (.row endRow) :: es₂)).shared.acked.count e := by
  rw [Run.along_append] at hread hans
  rw [Run.exec_append, Run.exec_cons] at hasks hheld ⊢
  obtain ⟨t₁, ht₁, hawaits⟩ := (Option.any_eq_true _ _).1 hawaits
  have hkept := @Kept.step M e _ _ (.task i (.row endRow)) (kept_of_run hread.1 hans.1)
    hans.2.1 nofun
  rcases sent_of_run hkept (beforeTaking_of_end ht₁ hawaits hend) hans.2.2 hcrash with h | h
  · -- a task that asks the node has taken the buffer
    obtain ⟨t, ht, hc⟩ := h
    rw [ht, Option.bind_some, Task.asks] at hasks
    rcases hc with hc | ⟨after, hc⟩ <;> rw [hc] at hasks <;> cases hasks
  · rw [Sent, ← count_held, List.count_eq_zero_of_not_mem hheld] at h
    exact h

/-- The ticker's flush is answered before the node is asked. -/
theorem range_delete_sees_sample :
    let es := insertTaken ++ .task 2 (.row sampleEndRow) ::
      [.task 0 (.reply 0 (some ⟨1, 0, true⟩)), .task 2 (.proceed 0)]
    let e := (sampleUpsert "1419d680-1dd2-11b2-8000-000000000000" 1000000).delivery
    (Run.exec (step sampleUpsertIngestor) (start [] []) insertTaken).shared.accepted.count e ≤
      (Run.exec (step sampleUpsertIngestor) (start [] []) es).shared.acked.count e :=
  @range_delete_sees sampleUpsertIngestor _ 2 sampleEndRow "node" "x" insertTaken _
    (by decide +kernel) (by decide +kernel) (by simp) (by decide +kernel) rfl (by decide +kernel)
    (by decide +kernel)

/-- The node is asked while the ticker is still sending the insert. -/
theorem range_delete_misses :
    let s := Run.exec (step sampleUpsertIngestor) (start [] []) insertTaken
    let s' := Run.exec (step sampleUpsertIngestor) s
      [.task 2 (.row sampleEndRow), .task 2 (.proceed 0)]
    s.shared.accepted = [(sampleUpsert "1419d680-1dd2-11b2-8000-000000000000" 1000000).delivery] ∧
      s.tasks[2]?.any Task.awaits = true ∧
      s'.tasks[2]?.bind Task.asks = some ("node", "x") ∧ s'.shared.acked = [] := by
  decide +kernel

end Ingestor

end Tantylla
