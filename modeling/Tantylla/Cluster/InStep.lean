/-
  The operations on a document, batch by batch.

  `NodeStep` says what an event of the cluster can be to a node: a request that arrives, a
  call of the node by itself, an event of the ingestor only, or nothing.

  `InStep` says how far the operations on a document have come on their way from the buffer
  to the node: the last batch that a flush took has arrived or a request with it is still to
  come, no other is under way, and the operations that were not taken are in the buffer.
  A request that arrives keeps this (`InStep.arrive`), and so does any other event
  (`InStep.net`), unless it takes the next batch, if no flush takes operations on the
  document while others are still to be sent or under way.
-/
import Tantylla.Cluster.Executed
import Tantylla.Node.Batching

namespace Tantylla

open Ingestor

/-- The operations among the deliveries to the node `n` that concern the document `x`. -/
def concerning (part : String → String) (n x : String) (l : List Delivery) :
    List IndexOperation :=
  (l.filter fun e => e.1 = n ∧ e.2.Concerns part x).map Prod.snd

section
variable {part : String → String} {n x : String}

theorem concerning_append (l l' : List Delivery) :
    concerning part n x (l ++ l') = concerning part n x l ++ concerning part n x l' := by
  rw [concerning, List.filter_append, List.map_append]
  rfl

theorem concerning_deliveries (r : Request) : concerning part n x (deliveries r) =
    if r.1 = n then r.2.filter (IndexOperation.Concerns part x) else [] := by
  rw [concerning, deliveries, List.filter_map, List.map_map]
  split_ifs with hn
  · subst hn
    simp [Function.comp_def]
  · simp [Function.comp_def, hn]

/-- The batch of the node has all operations on a document, in order; the others have none. -/
theorem concerning_nodeBatches (D : Serde) (items : List String) {r : Request}
    (hr : r ∈ nodeBatches D items) : concerning part n x (deliveries r) =
      if r.1 = n then concerning part n x ((items.filterMap D.fromStr).map BatchItem.delivery)
      else [] := by
  rw [concerning_deliveries, (grouped_nodeBatches D items).operations r hr]
  split_ifs with hn
  · subst hn
    rw [concerning, List.filter_map, List.filter_map, List.map_map, List.filter_filter]
    refine congrArg (List.map _) (List.filter_congr fun item _ => ?_)
    by_cases hnode : item.targetNode = r.1 <;> simp [BatchItem.delivery, hnode]
  · rfl

theorem concerning_batch (D : Serde) {items : List String}
    (h : concerning part n x ((items.filterMap D.fromStr).map BatchItem.delivery) ≠ []) :
    ∃ r ∈ nodeBatches D items, concerning part n x (deliveries r) =
      concerning part n x ((items.filterMap D.fromStr).map BatchItem.delivery) := by
  obtain ⟨o, ho⟩ := List.exists_mem_of_ne_nil _ h
  obtain ⟨e, he, rfl⟩ := List.mem_map.1 ho
  obtain ⟨hmem, hn⟩ := List.mem_filter.1 he
  obtain ⟨item, hitem, rfl⟩ := List.mem_map.1 hmem
  have hnode : item.targetNode = n := by
    simp only [decide_eq_true_eq] at hn
    exact hn.1
  obtain ⟨r, hr, hrn⟩ := List.mem_map.1 ((grouped_nodeBatches D items).nodes item hitem)
  exact ⟨r, hr, by rw [concerning_nodeBatches D items hr, if_pos (hrn.trans hnode)]⟩

end

/-- If the event takes operations on the document out of the buffer, no others are still to
    be sent or under way. -/
def TakesAlone (M : Ingestor) (part : String → String) (n x : String) (s : Network) :
    NetEvent → Prop
  | .move i (.proceed _) => ∀ t ∈ s.state.tasks[i]?, t.taking = true →
      concerning part n x (buffered M s.state.shared) ≠ [] →
      ∀ r ∈ s.requests, concerning part n x (deliveries r) = []
  | _ => True

instance (M : Ingestor) (part : String → String) (n x : String) (s : Network) :
    ∀ ev, Decidable (TakesAlone M part n x s ev)
  | .move i (.proceed _) =>
    inferInstanceAs (Decidable (∀ t ∈ s.state.tasks[i]?, _ → _ → ∀ r ∈ _, _))
  | .move _ .tick | .move _ .shutdown | .move _ (.row _) | .move _ (.reply _ _)
  | .move _ (.fetched _) | .newConsumer | .reach _ | .reachLate _ => isTrue trivial

/-! ## The events of a node -/

/-- The request `r` arrives, and no other is lost. -/
structure Arrives (s : Network) (r : Request) (s' : Network) : Prop where
  state : s'.state = s.state
  pushed : s'.pushed = s.pushed
  reached : ∀ i ∈ s'.reached, i ∈ s.reached ∨ ∃ f, s.state.flush i = some f ∧ f.request = r
  sub : ∀ r' ∈ s'.requests, r' ∈ s.requests
  kept : ∀ r' ∈ s.requests, r' ∈ s'.requests ∨ r' = r

namespace Cluster

open Engine

variable {M : Ingestor} {X : Crates} {n : String} {s : Cluster}

/-- What an event of the cluster can be to the ingestor and the node `n`. -/
inductive NodeStep (M : Ingestor) (X : Crates) (n : String) (s : Cluster) (ev : ClusterEvent)
    (s' : Cluster) : Prop
  | same : s'.net = s.net → s'.nodes n = s.nodes n → NodeStep M X n s ev s'
  | net (nev : NetEvent) : nev ∈ s.netEvent ev → NetStep M s.net nev s'.net →
      (∀ i, nev ≠ .reach i) → (∀ j, nev ≠ .reachLate j) → s'.nodes n = s.nodes n →
      NodeStep M X n s ev s'
  | arrive (r : Request) (addOk : ℕ → Bool) : r ∈ s.net.requests → Arrives s.net r s'.net →
      (r.1 = n → Call.batch addOk r.2 ∈ s.callAt n ev) →
      s'.nodes n = (if r.1 = n then callStep X (s.nodes n) (.batch addOk r.2) else s.nodes n) →
      NodeStep M X n s ev s'
  | node (e : NodeEvent) : e.call ∈ s.callAt n ev → s'.net = s.net →
      s'.nodes n = callStep X (s.nodes n) e.call → NodeStep M X n s ev s'

theorem nodeStep_net {ev : ClusterEvent} (hcall : s.callAt n ev = none)
    (hreach : ∀ i, s.netEvent ev ≠ some (.reach i))
    (hlate : ∀ j, s.netEvent ev ≠ some (.reachLate j)) :
    NodeStep M X n s ev (clusterStep M X s ev) := by
  have hnode : (clusterStep M X s ev).nodes n = s.nodes n := by
    simp only [clusterStep, hcall, Option.elim]
  cases hnev : s.netEvent ev with
  | none => exact .same (by simp only [clusterStep, hnev, Option.elim]) hnode
  | some nev =>
    have hnet : (clusterStep M X s ev).net = netStep M s.net nev := by
      simp only [clusterStep, hnev, Option.elim]
    refine .net nev hnev (hnet ▸ netStep_step s.net nev) (fun i hi => ?_) (fun j hj => ?_) hnode
    · exact hreach i (hi ▸ hnev)
    · exact hlate j (hj ▸ hnev)

theorem nodeStep_reach (i : ℕ) (addOk : ℕ → Bool) :
    NodeStep M X n s (.reach i addOk) (clusterStep M X s (.reach i addOk)) := by
  cases hunder : s.net.underWay i with
  | none =>
    refine .same (netStep_reach_of_none (M := M) hunder) ?_
    simp only [clusterStep, callAt, call, hunder, Option.map_none, Option.bind_none, Option.elim]
  | some r =>
    obtain ⟨f, hf, hi, rfl⟩ := underWay_eq_some hunder
    have hnet : (clusterStep M X s (.reach i addOk)).net = _ := netStep_reach (M := M) hf hi
    have hcall : s.callAt n (.reach i addOk) =
        if f.request.1 = n then some (.batch addOk f.request.2) else none := by
      rw [callAt, call, hunder]
      rfl
    have hmem : f.request ∈ s.net.requests :=
      mem_requests_iff.2 (Or.inl ⟨i, f, hf, List.mem_cons_self⟩)
    refine .arrive f.request addOk hmem ⟨by rw [hnet], by rw [hnet], fun j hj => ?_,
      fun r' hr' => ?_, fun r' hr' => ?_⟩ (fun hn => by rw [hcall, if_pos hn]; rfl) ?_
    · rw [hnet] at hj
      rcases List.mem_cons.1 hj with rfl | hj
      · exact Or.inr ⟨f, hf, rfl⟩
      · exact Or.inl hj
    · rw [hnet] at hr'
      exact hr'
    · rw [hnet]
      exact Or.inl hr'
    · simp only [clusterStep, hcall]
      split_ifs <;> rfl

theorem nodeStep_reachLate (j : ℕ) (addOk : ℕ → Bool) :
    NodeStep M X n s (.reachLate j addOk) (clusterStep M X s (.reachLate j addOk)) := by
  cases hr : s.net.late[j]? with
  | none =>
    refine .same ?_ ?_
    · show netStep M s.net (.reachLate j) = s.net
      rw [netStep, hr]
    · simp only [clusterStep, callAt, call, hr, Option.map_none, Option.bind_none, Option.elim]
  | some r =>
    have hnet : (clusterStep M X s (.reachLate j addOk)).net =
        { s.net with
          arrived := s.net.arrived ++ deliveries r
          late := s.net.late.eraseIdx j } := by
      show netStep M s.net (.reachLate j) = _
      rw [netStep, hr]
    have hcall : s.callAt n (.reachLate j addOk) =
        if r.1 = n then some (.batch addOk r.2) else none := by
      rw [callAt, call, hr]
      rfl
    have hmem : r ∈ s.net.requests := mem_requests_iff.2 (Or.inr (List.mem_of_getElem? hr))
    refine .arrive r addOk hmem ⟨by rw [hnet], by rw [hnet], fun i hi => ?_, fun r' hr' => ?_,
      fun r' hr' => ?_⟩ (fun hn => by rw [hcall, if_pos hn]; rfl) ?_
    · rw [hnet] at hi
      exact Or.inl hi
    · rw [hnet, mem_requests_iff] at hr'
      rw [mem_requests_iff]
      exact hr'.imp_right fun hr' => List.eraseIdx_subset hr'
    · rw [mem_requests_iff] at hr'
      rw [hnet, mem_requests_iff]
      rcases hr' with hr' | hr'
      · exact Or.inl (Or.inl hr')
      · by_cases heq : r' = r
        · exact Or.inr heq
        · obtain ⟨k, hk⟩ := List.getElem?_of_mem hr'
          refine Or.inl (Or.inr (List.mem_eraseIdx_iff_getElem?.2 ⟨k, ?_, hk⟩))
          rintro rfl
          rw [hk] at hr
          cases hr
          exact heq rfl
    · simp only [clusterStep, hcall]
      split_ifs <;> rfl

/-- **What an event is to a node.** -/
theorem nodeStep_step (s : Cluster) (ev : ClusterEvent) :
    NodeStep M X n s ev (clusterStep M X s ev) := by
  cases ev with
  | reach i addOk => exact nodeStep_reach i addOk
  | reachLate j addOk => exact nodeStep_reachLate j addOk
  | node n' e =>
    by_cases hn : n' = n
    · subst hn
      have hcall : s.callAt n' (.node n' e) = some e.call := by
        rw [callAt, call, Option.bind_some, if_pos rfl]
      refine .node e hcall rfl ?_
      simp only [clusterStep, hcall, Option.elim]
    · refine .same rfl ?_
      simp only [clusterStep, callAt, call, Option.bind_some, if_neg hn, Option.elim]
  | list i =>
    refine nodeStep_net rfl (fun j hj => ?_) fun j hj => ?_
    all_goals
      obtain ⟨p, -, hp⟩ := Option.map_eq_some_iff.1 hj
      cases hp
  | answer i k =>
    refine nodeStep_net rfl (fun j hj => ?_) fun j hj => ?_
    all_goals
      rw [netEvent] at hj
      split_ifs at hj
      cases hj
  | act | newConsumer | fail | listFail =>
    exact nodeStep_net rfl (fun _ hj => by cases hj) fun _ hj => by cases hj

end Cluster

/-! ## The way of a batch -/

/-- How far the operations on a document have come: flushes have taken `taken` from the
    buffer, `last` at last, and `come` says whether that has arrived. -/
structure InStep (M : Ingestor) (part : String → String) (n x : String) (s : Network)
    (taken last : List IndexOperation) (come : Bool) : Prop where
  pushed : concerning part n x s.pushed = taken ++ concerning part n x (buffered M s.state.shared)
  requests : ∀ r ∈ s.requests, concerning part n x (deliveries r) = [] ∨
    concerning part n x (deliveries r) = last
  waiting : come = false → last ≠ [] →
    ∃ r ∈ s.requests, concerning part n x (deliveries r) = last
  running : ∀ i ∈ s.reached, ∃ f, s.state.flush i = some f
  reached : ∀ i ∈ s.reached, ∀ f ∈ s.state.flush i,
    concerning part n x (deliveries f.request) ≠ [] → come = true

section
variable {M : Ingestor} {part : String → String} {n x : String} {s s' : Network}
  {taken last : List IndexOperation} {come : Bool}

theorem inStep_start : InStep M part n x netStart [] [] false where
  pushed := rfl
  requests r hr := by simp [Network.requests, netStart, start, Task.requests, Task.flush] at hr
  waiting _ h := absurd rfl h
  running i hi := by cases hi
  reached i hi := by cases hi

theorem InStep.arrive (h : InStep M part n x s taken last come) {r : Request}
    (harrives : Arrives s r s') :
    InStep M part n x s' taken last (come || decide (concerning part n x (deliveries r) ≠ [])) := by
  obtain ⟨hstate, hpushed, hreached, hsub, hkept⟩ := harrives
  constructor
  case pushed => rw [hpushed, hstate]; exact h.pushed
  case requests => exact fun r' hr' => h.requests r' (hsub r' hr')
  case waiting =>
    intro hcome hlast
    rw [Bool.or_eq_false_iff, decide_eq_false_iff_not, not_not] at hcome
    obtain ⟨r', hr', hc⟩ := h.waiting hcome.1 hlast
    rcases hkept r' hr' with hr' | rfl
    · exact ⟨r', hr', hc⟩
    · exact absurd (hc.symm.trans hcome.2) hlast
  case running =>
    intro i hi
    rw [hstate]
    rcases hreached i hi with hi | ⟨f, hf, -⟩
    · exact h.running i hi
    · exact ⟨f, hf⟩
  case reached =>
    intro i hi f hf hne
    rw [hstate] at hf
    rw [Bool.or_eq_true, decide_eq_true_eq]
    rcases hreached i hi with hi | ⟨f', hf', rfl⟩
    · exact Or.inl (h.reached i hi f hf hne)
    · rw [hf'] at hf
      cases hf
      exact Or.inr hne

/-- If nothing is to be sent or under way, the last batch has arrived. -/
theorem InStep.come_or (h : InStep M part n x s taken last come)
    (hnothing : ∀ r ∈ s.requests, concerning part n x (deliveries r) = []) :
    come = true ∨ last = [] := by
  cases come with
  | true => exact Or.inl rfl
  | false =>
    refine Or.inr ?_
    by_contra hlast
    obtain ⟨r, hr, hc⟩ := h.waiting rfl hlast
    exact hlast (hc.symm.trans (hnothing r hr))

/-- An answer to a flush, or a failure of its try, loses no request that is still to come. -/
theorem InStep.reply (h : InStep M part n x s taken last come) {i k : ℕ}
    {response : Option IndexBatchResponse} {f : Flush} (hf : s.state.flush i = some f)
    (hsome : response.isSome → i ∈ s.reached)
    (hflush : s'.state.flush = Function.update s.state.flush i (f.reply k response).flush)
    (hbuffer : s'.state.shared.buffer = s.state.shared.buffer) (hpushed : s'.pushed = s.pushed)
    (hreached : s'.reached = s.reached.filter (· ≠ i))
    (hlate : s'.late = s.late ++ s.abandoned i (.reply k response)) :
    InStep M part n x s' taken last come := by
  have habandoned : s.abandoned i (.reply k response) =
      if response.isSome ∨ i ∈ s.reached then [] else [f.request] := by
    cases response <;> simp [Network.abandoned, hf]
  have hsub (r : Request) (hr : r ∈ s'.requests) : r ∈ s.requests :=
    mem_requests_reply hf hflush hlate hr
  constructor
  case pushed => rw [hpushed, buffered_congr hbuffer]; exact h.pushed
  case requests => exact fun r hr => h.requests r (hsub r hr)
  case waiting =>
    intro hcome hlast
    obtain ⟨r, hr, hc⟩ := h.waiting hcome hlast
    refine ⟨r, ?_, hc⟩
    rw [mem_requests_iff] at hr
    rw [mem_requests_iff, hflush, hlate, habandoned]
    rcases hr with ⟨j, f', hf', hr⟩ | hr
    swap
    · exact Or.inr (List.mem_append_left _ hr)
    by_cases hj : j = i
    swap
    · exact Or.inl ⟨j, f', by rw [Function.update_of_ne hj]; exact hf', hr⟩
    subst hj
    rw [hf] at hf'
    cases hf'
    -- the request of the flush has not arrived, so only a failed try ends it
    have hunreached (hr : r = f.request) : ¬ (response.isSome ∨ j ∈ s.reached) := by
      subst hr
      rintro (hs | hj)
      · exact absurd (h.reached j (hsome hs) f hf (hc ▸ hlast)) (by rw [hcome]; simp)
      · exact absurd (h.reached j hj f hf (hc ▸ hlast)) (by rw [hcome]; simp)
    have hnext {st : FlushState} (hst : f.reply k response = st)
        (hmem : r ∈ st.todo) : ∃ j' f', Function.update s.state.flush j
          (f.reply k response).flush j' = some f' ∧ r ∈ f'.requests := by
      rw [todo_eq] at hmem
      cases hfl : st.flush with
      | none => rw [hfl] at hmem; cases hmem
      | some f' =>
        rw [hfl] at hmem
        exact ⟨j, f', by rw [Function.update_self, hst, hfl], hmem⟩
    have hreply := reply_step k f response
    generalize hst : f.reply k response = st at hreply
    rw [← hst]
    cases hreply with
    | retried => exact Or.inl (hnext hst hr)
    | counted _ htodo =>
      rcases List.mem_cons.1 hr with hr | hr
      · exact absurd (Or.inl rfl) (hunreached hr)
      · exact Or.inl (hnext hst (htodo.mem_iff.2 hr))
    | failed _ htodo =>
      rcases List.mem_cons.1 hr with hr | hr
      · rw [if_neg (hunreached hr), hr]
        exact Or.inr (List.mem_append_right _ (List.mem_singleton_self _))
      · exact Or.inl (hnext hst (htodo.mem_iff.2 hr))
  case running =>
    intro j hj
    rw [hreached, List.mem_filter, decide_eq_true_eq] at hj
    rw [hflush, Function.update_of_ne hj.2]
    exact h.running j hj.1
  case reached =>
    intro j hj f' hf' hne
    rw [hreached, List.mem_filter, decide_eq_true_eq] at hj
    rw [hflush, Function.update_of_ne hj.2] at hf'
    exact h.reached j hj.1 f' hf' hne

/-- A flush takes the buffer: what it takes on the document is the next batch. -/
theorem InStep.take (h : InStep M part n x s taken last come) {i k : ℕ} {t : Task}
    (ht : s.state.tasks[i]? = some t) (htaking : t.taking = true)
    (hnone : s.state.flush i = none) (halone : TakesAlone M part n x s (.move i (.proceed k)))
    (hflush : s'.state.flush = Function.update s.state.flush i
      (nextBatch k [] (nodeBatches M.serde s.state.shared.buffer)).flush)
    (hbuffer : s'.state.shared.buffer = []) (hpushed : s'.pushed = s.pushed)
    (hreached : s'.reached = s.reached) (hlate : s'.late = s.late) :
    InStep M part n x s' taken last come ∨ ((come = true ∨ last = []) ∧
      ∃ batch, InStep M part n x s' (taken ++ batch) batch false) := by
  have hempty : buffered M s'.state.shared = [] := by rw [buffered, hbuffer]; rfl
  have hsub (r : Request) (hr : r ∈ s'.requests) :
      r ∈ s.requests ∨ r ∈ nodeBatches M.serde s.state.shared.buffer :=
    mem_requests_take hflush hlate hr
  have hold (r : Request) (hr : r ∈ s.requests) : r ∈ s'.requests := by
    rw [mem_requests_iff] at hr
    rw [mem_requests_iff, hflush, hlate]
    rcases hr with ⟨j, f', hf', hr⟩ | hr
    · have hj : j ≠ i := by
        rintro rfl
        rw [hnone] at hf'
        cases hf'
      exact Or.inl ⟨j, f', by rw [Function.update_of_ne hj]; exact hf', hr⟩
    · exact Or.inr hr
  have hother (j : ℕ) (hj : j ∈ s'.reached) : j ∈ s.reached ∧
      s'.state.flush j = s.state.flush j := by
    rw [hreached] at hj
    refine ⟨hj, ?_⟩
    rw [hflush, Function.update_of_ne]
    rintro rfl
    obtain ⟨f, hf⟩ := h.running j hj
    rw [hnone] at hf
    cases hf
  have hrunning (j : ℕ) (hj : j ∈ s'.reached) : ∃ f, s'.state.flush j = some f := by
    rw [(hother j hj).2]
    exact h.running j (hother j hj).1
  by_cases hwaiting : concerning part n x (buffered M s.state.shared) = []
  · -- the flush takes nothing on the document
    have hnew (r : Request) (hr : r ∈ nodeBatches M.serde s.state.shared.buffer) :
        concerning part n x (deliveries r) = [] := by
      rw [concerning_nodeBatches M.serde _ hr]
      change (if r.1 = n then concerning part n x (buffered M s.state.shared) else []) = []
      rw [hwaiting, ite_self]
    refine Or.inl ⟨?_, fun r hr => ?_, fun hcome hlast => ?_, hrunning,
      fun j hj f' hf' hne => ?_⟩
    · rw [hpushed, hempty, h.pushed, hwaiting]
      rfl
    · exact (hsub r hr).elim (h.requests r) fun hr => Or.inl (hnew r hr)
    · obtain ⟨r, hr, hc⟩ := h.waiting hcome hlast
      exact ⟨r, hold r hr, hc⟩
    · rw [(hother j hj).2] at hf'
      exact h.reached j (hother j hj).1 f' hf' hne
  · -- nothing is under way, so the last batch has come, and the next is taken
    have hnothing := halone t ht htaking hwaiting
    refine Or.inr ⟨h.come_or hnothing, concerning part n x (buffered M s.state.shared),
      ⟨?_, fun r hr => ?_, fun _ _ => ?_, hrunning, fun j hj f' hf' hne => ?_⟩⟩
    · rw [hpushed, hempty, h.pushed]
      exact (List.append_nil _).symm
    · rcases hsub r hr with hr | hr
      · exact Or.inl (hnothing r hr)
      · rw [concerning_nodeBatches M.serde _ hr]
        split_ifs
        · exact Or.inr rfl
        · exact Or.inl rfl
    · obtain ⟨r, hr, hc⟩ := concerning_batch M.serde hwaiting
      refine ⟨r, ?_, hc⟩
      rw [mem_requests_iff, hflush]
      have hmem := (nextBatch_spec k [] (nodeBatches M.serde s.state.shared.buffer)).1.mem_iff.2 hr
      rw [todo_eq] at hmem
      cases hfl : (nextBatch k [] (nodeBatches M.serde s.state.shared.buffer)).flush with
      | none => rw [hfl] at hmem; cases hmem
      | some f' =>
        rw [hfl] at hmem
        exact Or.inl ⟨i, f', Function.update_self .., hmem⟩
    · rw [(hother j hj).2] at hf'
      refine absurd (hnothing f'.request ?_) hne
      exact mem_requests_iff.2 (Or.inl ⟨j, f', hf', List.mem_cons_self⟩)

/-- **An event by which no request arrives takes the next batch**, once the last has come, or
    leaves the operations as far as they have come. -/
theorem InStep.net (h : InStep M part n x s taken last come) {ev : NetEvent}
    (hstep : NetStep M s ev s') (hread : NetReads M s ev) (halone : TakesAlone M part n x s ev)
    (hreach : ∀ i, ev ≠ .reach i) (hlate : ∀ j, ev ≠ .reachLate j) :
    InStep M part n x s' taken last come ∨ ((come = true ∨ last = []) ∧
      ∃ batch, InStep M part n x s' (taken ++ batch) batch false) := by
  cases hstep with
  | quiet hflush hbuffer _ hpushed _ hsub hlate =>
    have hreq := requests_congr hflush hlate
    refine Or.inl ⟨?_, fun r hr => h.requests r ((hreq r).1 hr), fun hcome hlast => ?_,
      fun i hi => ?_, fun i hi f hf => ?_⟩
    · rw [hpushed, buffered_congr hbuffer]
      exact h.pushed
    · obtain ⟨r, hr, hc⟩ := h.waiting hcome hlast
      exact ⟨r, (hreq r).2 hr, hc⟩
    · rw [hflush]
      exact h.running i (hsub.subset hi)
    · rw [hflush] at hf
      exact h.reached i (hsub.subset hi) f hf
  | @push i k t item _ ht hpush hflush hbuffer _ hpushed _ hreached hlate =>
    have hreq := requests_congr hflush hlate
    have hbuffered := buffered_push hbuffer (hread t ht item hpush)
    refine Or.inl ⟨?_, fun r hr => h.requests r ((hreq r).1 hr), fun hcome hlast => ?_,
      fun i hi => ?_, fun i hi f hf => ?_⟩
    · rw [hpushed, hbuffered, concerning_append, concerning_append, h.pushed, List.append_assoc]
    · obtain ⟨r, hr, hc⟩ := h.waiting hcome hlast
      exact ⟨r, (hreq r).2 hr, hc⟩
    · rw [hflush]
      exact h.running i (hreached ▸ hi)
    · rw [hflush] at hf
      exact h.reached i (hreached ▸ hi) f hf
  | take ht htaking hnone hflush hbuffer _ hpushed _ hreached hlate =>
    exact h.take ht htaking hnone halone hflush hbuffer hpushed hreached hlate
  | reply hf hsome hflush hbuffer _ hpushed _ hreached hlate =>
    exact Or.inl (h.reply hf hsome hflush hbuffer hpushed hreached hlate)
  | reach => exact absurd rfl (hreach _)
  | reachLate => exact absurd rfl (hlate _)

end

end Tantylla
