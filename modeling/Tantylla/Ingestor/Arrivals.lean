/-
  The order in which operations reach their nodes (`batch/service.rs`).

  A try of `send_batch_with_retry` sends one request.  It reaches the node's
  `process_batch` before the node answers it; if the try fails first, the request may
  still be under way and reach the node later (`Network`).

  A flush gives up the buffer's lock before it sends, so another flush may take newer
  operations and overtake it.  `arrive_in_order`: the operations on a document reach
  their node in the order in which they were pushed to the buffer, batch by batch, if no
  flush takes such operations while others are still to be sent or under way.
-/
import Tantylla.Ingestor.FlushRun
import Tantylla.Ingestor.RangeReads
import Tantylla.Lib.Batches

namespace Tantylla

/-- A request of `send_batch_with_retry`: the node, and the operations of the batch. -/
abbrev Request := String × List IndexOperation

def Flush.request (f : Flush) : Request := (f.targetNode, f.operations)

/-- The requests that a flush has still to send, or sends. -/
def Flush.requests (f : Flush) : List Request := f.request :: f.nodeBatches

namespace Ingestor

/-! ## Requests under way -/

/-- An ingestor with its requests.  `pushed` are the deliveries of the items pushed to the
    buffer and `arrived` those that reached `process_batch` of their nodes, both in order;
    `reached` are the tasks whose request has reached its node, and `late` are the requests
    of failed tries that have not. -/
structure Network where
  state : State
  pushed : List Delivery
  arrived : List Delivery
  reached : List ℕ
  late : List Request

/-- One event of an ingestor or a request. -/
inductive NetEvent where
  | move (i : ℕ) (m : Move)
  | newConsumer
  /-- the request of the flush of the task `i` reaches its node -/
  | reach (i : ℕ)
  /-- a request of a failed try reaches its node -/
  | reachLate (j : ℕ)

/-- The flush that the task `i` runs. -/
def State.flush (s : State) (i : ℕ) : Option Flush := s.tasks[i]?.bind Task.flush

/-- The item that a move pushes to the buffer. -/
def State.pushes (s : State) (i : ℕ) (m : Move) : Option BatchItem :=
  s.tasks[i]?.bind fun t => t.pushes m

namespace Network

/-- The move is an answer to a request that has not reached its node. -/
def early (s : Network) (i : ℕ) : Move → Bool
  | .reply _ (some _) => (s.state.flush i).isSome && i ∉ s.reached
  | _ => false

/-- The request that is still under way when its try fails. -/
def abandoned (s : Network) (i : ℕ) : Move → List Request
  | .reply _ none => if i ∈ s.reached then [] else ((s.state.flush i).map Flush.request).toList
  | _ => []

/-- After an answer or a failure the task sends another request. -/
def reachedAfter (s : Network) (i : ℕ) : Move → List ℕ
  | .reply _ _ => s.reached.filter (· ≠ i)
  | _ => s.reached

end Network

def netStart : Network := ⟨start [] [], [], [], [], []⟩

section
variable (M : Ingestor)

def netStep (s : Network) : NetEvent → Network
  | .move i m =>
    if s.early i m then s
    else
      { state := step M s.state (.task i m)
        pushed := s.pushed ++ ((s.state.pushes i m).map BatchItem.delivery).toList
        arrived := s.arrived
        reached := s.reachedAfter i m
        late := s.late ++ s.abandoned i m }
  | .newConsumer => { s with state := step M s.state .newConsumer }
  | .reach i =>
    match s.state.flush i with
    | some f =>
      if i ∈ s.reached then s
      else { s with arrived := s.arrived ++ deliveries f.request, reached := i :: s.reached }
    | none => s
  | .reachLate j =>
    match s.late[j]? with
    | some r => { s with arrived := s.arrived ++ deliveries r, late := s.late.eraseIdx j }
    | none => s

end

/-! ## Operations on one document -/

/-- The deliveries to the node `n` on the document `x`. -/
def ofDoc (n x : String) (l : List Delivery) : List Delivery :=
  l.filter fun e => e.1 = n ∧ e.2.id = x

def Task.requests (t : Task) : List Request := (t.flush.map Flush.requests).getD []

/-- The requests that unfinished flushes send or have still to send, and those of failed
    tries that are under way. -/
def Network.requests (s : Network) : List Request := s.state.tasks.flatMap Task.requests ++ s.late

/-- The task is about to take the buffer. -/
def Task.taking (t : Task) : Bool :=
  match t.control with
  | .taking _ => true
  | _ => false

/-- If the event takes operations on the document out of the buffer, no others are still to
    be sent or under way. -/
def Alone (M : Ingestor) (n x : String) (s : Network) : NetEvent → Prop
  | .move i (.proceed _) => ∀ t ∈ s.state.tasks[i]?, t.taking = true →
      ofDoc n x (buffered M s.state.shared) ≠ [] → ∀ r ∈ s.requests, ofDoc n x (deliveries r) = []
  | _ => True

/-- An item that is pushed is read back as it was written. -/
def NetReads (M : Ingestor) (s : Network) : NetEvent → Prop
  | .move i m => OnTask (fun t _ => t.Reads M) s.state (.task i m)
  | _ => True

instance (M : Ingestor) (n x : String) (s : Network) : ∀ ev, Decidable (Alone M n x s ev)
  | .move i (.proceed _) =>
    inferInstanceAs (Decidable (∀ t ∈ s.state.tasks[i]?, _ → _ → ∀ r ∈ _, _))
  | .move _ .tick | .move _ .shutdown | .move _ (.row _) | .move _ (.reply _ _)
  | .move _ (.fetched _) | .newConsumer | .reach _ | .reachLate _ => isTrue trivial

instance (M : Ingestor) (s : Network) : ∀ ev, Decidable (NetReads M s ev)
  | .move i m => inferInstanceAs (Decidable (OnTask (fun t _ => t.Reads M) s.state (.task i m)))
  | .newConsumer | .reach _ | .reachLate _ => isTrue trivial

variable {M : Ingestor} {n x : String}

theorem ofDoc_append (l l' : List Delivery) : ofDoc n x (l ++ l') = ofDoc n x l ++ ofDoc n x l' :=
  List.filter_append ..

/-- The batches of a flush have all operations on a document, in order, or none. -/
theorem ofDoc_nodeBatches {D : Serde} {items : List String} {r : Request}
    (h : r ∈ nodeBatches D items) :
    ofDoc n x (deliveries r) = [] ∨
      ofDoc n x (deliveries r) =
        ofDoc n x ((items.filterMap D.fromStr).map BatchItem.delivery) := by
  have hops := (grouped_nodeBatches D items).operations r h
  have hdel : deliveries r = ((items.filterMap D.fromStr).filter fun item =>
      item.targetNode = r.1).map BatchItem.delivery := by
    rw [deliveries, hops, List.map_map]
    refine List.map_congr_left fun item hitem => ?_
    rw [List.mem_filter, decide_eq_true_eq] at hitem
    rw [BatchItem.delivery, hitem.2]
    rfl
  by_cases hn : r.1 = n
  · refine Or.inr ?_
    rw [hdel, ofDoc, ofDoc, List.filter_map, List.filter_map, List.filter_filter, hn]
    refine congrArg (List.map _) (List.filter_congr fun item _ => ?_)
    by_cases hnode : item.targetNode = n <;> simp [BatchItem.delivery, hnode]
  · refine Or.inl (List.filter_eq_nil_iff.2 fun e he => ?_)
    obtain ⟨o, -, rfl⟩ := List.mem_map.1 he
    simp [hn]

/-! ## What an event does to the requests -/

theorem todo_eq (st : FlushState) : st.todo = (st.flush.map Flush.requests).getD [] := by
  cases st <;> rfl

theorem requests_nextBatch {k : ℕ} {failedNodes : List String} {bs : List Request} {r : Request}
    (h : r ∈ ((nextBatch k failedNodes bs).flush.map Flush.requests).getD []) : r ∈ bs := by
  rw [← todo_eq] at h
  exact (nextBatch_spec k failedNodes bs).1.subset h

theorem requests_reply {k : ℕ} {f : Flush} {response : Option IndexBatchResponse} {r : Request}
    (h : r ∈ ((f.reply k response).flush.map Flush.requests).getD []) : r ∈ f.requests := by
  rw [← todo_eq] at h
  have hreply := reply_step k f response
  generalize f.reply k response = st at hreply h
  cases hreply with
  | retried => exact h
  | counted _ htodo | failed _ htodo => exact List.mem_cons_of_mem _ (htodo.subset h)

section
variable {s : Network} {i : ℕ} {m : Move} {t : Task}

/-- A task moves. -/
theorem netStep_move (ht : s.state.tasks[i]? = some t) (hearly : s.early i m = false) :
    netStep M s (.move i m) =
      { state := step M s.state (.task i m)
        pushed := s.pushed ++ ((t.pushes m).map BatchItem.delivery).toList
        arrived := s.arrived
        reached := s.reachedAfter i m
        late := s.late ++ s.abandoned i m } := by
  rw [netStep, hearly, if_neg Bool.false_ne_true, State.pushes, ht, Option.bind_some]

theorem mem_requests_of_task {r : Request} (ht : s.state.tasks[i]? = some t)
    (h : r ∈ t.requests) : r ∈ s.requests :=
  List.mem_append_left _ (List.mem_flatMap.2 ⟨t, List.mem_of_getElem? ht, h⟩)

/-- A request that is abandoned was one of its flush. -/
theorem abandoned_subset {r : Request} (ht : s.state.tasks[i]? = some t)
    (h : r ∈ s.abandoned i m) : r ∈ t.requests := by
  unfold Network.abandoned at h
  split at h
  · split_ifs at h
    · cases h
    · rw [State.flush, ht, Option.bind_some] at h
      rw [Task.requests]
      cases hf : t.flush with
      | none => rw [hf] at h; cases h
      | some f =>
        rw [hf] at h
        rw [List.mem_singleton.1 h]
        exact List.mem_cons_self
  · cases h

theorem mem_requests_move {r : Request} (ht : s.state.tasks[i]? = some t)
    (hearly : s.early i m = false) (h : r ∈ (netStep M s (.move i m)).requests) :
    r ∈ s.requests ∨ r ∈ (act M m s.state.shared t).2.requests := by
  rw [netStep_move ht hearly] at h
  rcases List.mem_append.1 h with h | h
  · obtain ⟨t', ht', hr⟩ := List.mem_flatMap.1 h
    rw [step_task ht] at ht'
    rcases List.mem_or_eq_of_mem_set ht' with hmem | rfl
    · exact Or.inl (List.mem_append_left _ (List.mem_flatMap.2 ⟨t', hmem, hr⟩))
    · exact Or.inr hr
  · rcases List.mem_append.1 h with h | h
    · exact Or.inl (List.mem_append_right _ h)
    · exact Or.inl (mem_requests_of_task ht (abandoned_subset ht h))

end

/-- A task that is not there does nothing. -/
theorem netStep_of_none {s : Network} {i : ℕ} {m : Move} (ht : s.state.tasks[i]? = none) :
    netStep M s (.move i m) = { s with reached := s.reachedAfter i m } := by
  have hflush : s.state.flush i = none := by rw [State.flush, ht]; rfl
  have hearly : s.early i m = false := by
    unfold Network.early
    split
    · rw [hflush]; rfl
    · rfl
  have habandoned : s.abandoned i m = [] := by
    unfold Network.abandoned
    split
    · rw [hflush]; split_ifs <;> rfl
    · rfl
  have hstate : step M s.state (.task i m) = s.state := by
    show { s.state with toPool := s.state.toPool.act (act M m) i } = s.state
    rw [Pool.act, ht]
  rw [netStep, hearly, if_neg Bool.false_ne_true, hstate, habandoned, State.pushes, ht]
  simp

theorem requests_newConsumer (s : Network) :
    (netStep M s .newConsumer).requests = s.requests := by
  have hnone : newConsumer.requests = [] := rfl
  simp only [netStep, Network.requests, step, List.flatMap_append, List.flatMap_cons,
    List.flatMap_nil, List.append_nil, hnone]

/-! ## The order of a document -/

/-- What is pushed of the document is cut into batches that arrive in order, and all that is
    still to be sent or under way is the last batch. -/
def Ordered (M : Ingestor) (n x : String) (s : Network) : Prop :=
  ∃ last, Batches.Cut (ofDoc n x s.pushed) (ofDoc n x s.arrived) last
      (ofDoc n x (buffered M s.state.shared)) ∧
    ∀ r ∈ s.requests, ofDoc n x (deliveries r) = [] ∨ ofDoc n x (deliveries r) = last

theorem ordered_start : Ordered M n x netStart :=
  ⟨[], Batches.cut_nil, by simp [Network.requests, netStart, start, Task.requests, Task.flush]⟩

section
variable {s : Network}

/-- A request that is under way arrives. -/
theorem Ordered.arrive (h : Ordered M n x s) {r : Request} (hr : r ∈ s.requests)
    {reached : List ℕ} {late : List Request} (hlate : late ⊆ s.late) :
    Ordered M n x { s with arrived := s.arrived ++ deliveries r, reached, late } := by
  obtain ⟨last, hcut, hall⟩ := h
  refine ⟨last, ?_, fun r' hr' => hall r' ?_⟩
  · show Batches.Cut _ (ofDoc n x (s.arrived ++ deliveries r)) last _
    rw [ofDoc_append]
    rcases hall r hr with hnil | hlast
    · rw [hnil, List.append_nil]
      exact hcut
    · rw [hlast]
      exact hcut.arrive
  · rcases List.mem_append.1 hr' with hr' | hr'
    · exact List.mem_append_left _ hr'
    · exact List.mem_append_right _ (hlate hr')

/-- A task moves. -/
theorem Ordered.move (h : Ordered M n x s) {i : ℕ} {m : Move} {t : Task}
    (ht : s.state.tasks[i]? = some t) (hread : t.Reads M) (halone : Alone M n x s (.move i m))
    (hearly : s.early i m = false) : Ordered M n x (netStep M s (.move i m)) := by
  have hreq := fun r hr => @mem_requests_move M s i m t r ht hearly hr
  have hstep := @flush_act M m s.state.shared t
  obtain ⟨last, hcut, hall⟩ := h
  rw [netStep_move ht hearly] at hreq ⊢
  rw [Ordered, step_task ht]
  rw [step_task ht] at hreq
  simp only [Task.requests] at hreq
  generalize (act M m s.state.shared t).2.flush = fl at hstep hreq
  generalize (act M m s.state.shared t).1 = s' at hstep
  cases hstep with
  | quiet hnone hbuffer =>
    refine ⟨last, ?_, fun r hr => ?_⟩
    · rw [hnone, buffered_congr hbuffer, Option.map_none, Option.toList_none, List.append_nil]
      exact hcut
    · exact hall r ((hreq r hr).elim id (mem_requests_of_task ht))
  | @push k item _ hpush _ hbuffer =>
    refine ⟨last, ?_, fun r hr => hall r ((hreq r hr).elim id nofun)⟩
    rw [buffered_push hbuffer (hread item hpush), Task.pushes, hpush]
    show Batches.Cut (ofDoc n x (s.pushed ++ [item.delivery])) _ _ _
    rw [ofDoc_append, ofDoc_append]
    exact hcut.send _
  | @take k after _ hc hbuffer =>
    have hempty : buffered M s' = [] := by rw [buffered, hbuffer]; rfl
    have hnone : t.pushed = none := by rw [Task.pushed, hc]
    have htaking : t.taking = true := by rw [Task.taking, hc]
    have hnew : ∀ r ∈ ((nextBatch k [] (nodeBatches M.serde s.state.shared.buffer)).flush.map
        Flush.requests).getD [], ofDoc n x (deliveries r) = [] ∨
          ofDoc n x (deliveries r) = ofDoc n x (buffered M s.state.shared) :=
      fun r hr => ofDoc_nodeBatches (requests_nextBatch hr)
    rw [hempty, Task.pushes, hnone, Option.map_none, Option.toList_none, List.append_nil]
    by_cases hwaiting : ofDoc n x (buffered M s.state.shared) = []
    · -- the flush takes nothing on the document
      rw [hwaiting] at hcut hnew
      refine ⟨last, hcut, fun r hr => (hreq r hr).elim (hall r) fun h => ?_⟩
      exact Or.inl ((hnew r h).elim id id)
    · -- what it takes is the next batch, and nothing else is under way
      have hnothing := halone t ht htaking hwaiting
      refine ⟨_, hcut.cut, fun r hr => (hreq r hr).elim (fun h => ?_) (hnew r)⟩
      exact Or.inl (hnothing r h)
  | @reply k response f _ hsome hbuffer =>
    refine ⟨last, ?_, fun r hr => hall r ((hreq r hr).elim id fun h => ?_)⟩
    · have hnone : t.pushes (.reply k response) = none := rfl
      rw [buffered_congr hbuffer, hnone, Option.map_none, Option.toList_none, List.append_nil]
      exact hcut
    · refine mem_requests_of_task ht ?_
      rw [Task.requests, hsome]
      exact requests_reply h

theorem Ordered.step (h : Ordered M n x s) {ev : NetEvent} (hread : NetReads M s ev)
    (halone : Alone M n x s ev) : Ordered M n x (netStep M s ev) := by
  cases ev with
  | move i m =>
    cases hearly : s.early i m with
    | true =>
      rw [netStep, hearly, if_pos rfl]
      exact h
    | false =>
      cases ht : s.state.tasks[i]? with
      | some t => exact h.move ht (hread t ht) halone hearly
      | none =>
        rw [netStep_of_none ht]
        exact h
  | newConsumer =>
    obtain ⟨last, hcut, hall⟩ := h
    refine ⟨last, hcut, fun r hr => hall r ?_⟩
    rwa [requests_newConsumer] at hr
  | reach i =>
    rw [netStep]
    cases hf : s.state.flush i with
    | none => exact h
    | some f =>
      obtain ⟨t, ht, hft⟩ := Option.bind_eq_some_iff.1 hf
      have hmem : f.request ∈ s.requests := by
        refine mem_requests_of_task ht ?_
        rw [Task.requests, hft]
        exact List.mem_cons_self
      show Ordered M n x (if i ∈ s.reached then s else _)
      split_ifs
      · exact h
      · exact h.arrive hmem (List.Subset.refl _)
  | reachLate j =>
    rw [netStep]
    cases hr : s.late[j]? with
    | none => exact h
    | some r =>
      exact h.arrive (List.mem_append_right _ (List.mem_of_getElem? hr)) (List.eraseIdx_subset ..)

end

/-- The consumer adds an insert. -/
def sampleMoves (time : Uuid) : List NetEvent :=
  [.move 2 (.row (sampleInsert time)), .move 2 (.proceed 0), .move 2 (.proceed 0),
    .move 2 (.proceed 0)]

/-- **The operations on a document reach their node in order.**  In every run in which no
    flush takes operations on the document while others are still to be sent or under way,
    those that have reached the node are those pushed to the buffer, up to some point, in
    the same order; a batch may come several times before the next one. -/
theorem arrive_in_order {es : List NetEvent}
    (hread : Run.Along (netStep M) (NetReads M) netStart es)
    (halone : Run.Along (netStep M) (Alone M n x) netStart es) :
    Batches.InBatches (ofDoc n x (Run.exec (netStep M) netStart es).pushed)
      (ofDoc n x (Run.exec (netStep M) netStart es).arrived) := by
  have h := (hread.and halone).inv (I := Ordered M n x)
    (fun s ev h hev => h.step hev.1 hev.2) ordered_start
  obtain ⟨last, hcut, -⟩ := h
  exact hcut.inBatches

/-- The first request of the first insert reaches the node, but not its answer. -/
theorem arrive_in_order_sample :
    let s := Run.exec (netStep sampleUpsertIngestor) netStart
      (.newConsumer :: sampleMoves 0x1419d6801dd211b28000000000000000 ++
        [.move 0 .tick, .move 0 (.proceed 0), .reach 0, .move 0 (.reply 0 none), .reach 0,
          .move 0 (.reply 0 (some ⟨0, 1, true⟩))] ++
        sampleMoves 0x14b26d001dd211b28000000000000000 ++
        [.move 0 .tick, .move 0 (.proceed 0), .reach 0])
    Batches.InBatches (ofDoc "node" "x:2:3" s.pushed) (ofDoc "node" "x:2:3" s.arrived) :=
  arrive_in_order (by decide +kernel) (by decide +kernel)

/-- The ticker's first try fails; meanwhile a range delete flushes the second insert, which
    reaches the node before the ticker's second try. -/
theorem arrive_out_of_order :
    let s := Run.exec (netStep sampleUpsertIngestor) netStart
      (.newConsumer :: sampleMoves 0x1419d6801dd211b28000000000000000 ++
        [.move 0 .tick, .move 0 (.proceed 0)] ++
        sampleMoves 0x14b26d001dd211b28000000000000000 ++
        [.move 2 (.row (sampleBound .rowRangeDelInclLeft (some 1) none)),
          .move 2 (.row sampleEndRow), .move 2 (.proceed 0), .move 0 (.reply 0 none), .reach 2,
          .reach 0])
    s.pushed = sampleUpserts.map (fun p => p.1.delivery) ∧
      s.arrived = (sampleUpserts.map fun p => p.1.delivery).reverse ∧
      ¬ Batches.InBatches (ofDoc "node" "x:2:3" s.pushed) (ofDoc "node" "x:2:3" s.arrived) := by
  intro s
  obtain ⟨hpushed, harrived⟩ : s.pushed = sampleUpserts.map (fun p => p.1.delivery) ∧
      s.arrived = (sampleUpserts.map fun p => p.1.delivery).reverse := by decide +kernel
  refine ⟨hpushed, harrived, fun h => ?_⟩
  rw [hpushed, harrived] at h
  exact absurd h.firstPer_sublist (by decide +kernel)

end Ingestor

end Tantylla
