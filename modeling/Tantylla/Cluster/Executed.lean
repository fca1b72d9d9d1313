/-
  What is acknowledged has been executed.

  A node answers a batch with `Ok` when it has executed all of it, and then counts every
  operation.  `Honest` says of every state of a cluster that what its tasks have been told,
  and what they can still be told, has been executed as often: `acked_executed`.  With
  what a flush keeps of the items it takes, an accepted item is delivered at least once,
  if no batch with it is given up: `accepted_executed`.
-/
import Tantylla.Cluster.System
import Tantylla.Cluster.Requests
import Tantylla.Node.Counts
import Tantylla.Ingestor.InOrder
import Mathlib.Data.List.Nodup

namespace Tantylla

open Ingestor

variable {M : Ingestor} {X : Crates} {e : Delivery}

/-! ## Requests that reach their node -/

section
variable {s : Network} {i : ℕ}

theorem underWay_eq_some {r : Request} (h : s.underWay i = some r) :
    ∃ f, s.state.flush i = some f ∧ i ∉ s.reached ∧ r = f.request := by
  unfold Network.underWay at h
  split_ifs at h with hi
  obtain ⟨f, hf, rfl⟩ := Option.map_eq_some_iff.1 h
  exact ⟨f, hf, hi, rfl⟩

theorem netStep_reach {f : Flush} (hf : s.state.flush i = some f) (hi : i ∉ s.reached) :
    netStep M s (.reach i) =
      { s with arrived := s.arrived ++ deliveries f.request, reached := i :: s.reached } := by
  simp only [netStep, hf, hi, if_false]

theorem netStep_reach_of_none (h : s.underWay i = none) : netStep M s (.reach i) = s := by
  unfold Network.underWay at h
  split_ifs at h with hi
  · cases hf : s.state.flush i <;> simp [netStep, hf, hi]
  · simp [netStep, Option.map_eq_none_iff.1 h]

end

namespace Cluster

/-! ## What the tasks have not heard of -/

/-- What has been executed of the request of the task `i`, which has not heard of it. -/
def unheardAt (s : Cluster) (i : ℕ) : List Delivery :=
  if (s.answers i).isSome then
    ((s.net.state.flush i).map fun f => deliveries f.request).getD []
  else []

def unheard (s : Cluster) : List Delivery := s.net.reached.flatMap s.unheardAt

/-- A request that has reached its node is that of a flush, and an answer to it counts all
    its operations.  What has been acknowledged, and what may be, has been executed. -/
structure Honest (e : Delivery) (s : Cluster) : Prop where
  nodup : s.net.reached.Nodup
  running : ∀ i ∈ s.net.reached, ∃ f, s.net.state.flush i = some f ∧
    ∀ r ∈ s.answers i, r.processedCount + r.skippedCount = f.operations.length
  executed : s.net.state.shared.acked.count e + s.unheard.count e ≤ s.executed.count e

theorem honest_start : Honest e clusterStart := ⟨List.nodup_nil, nofun, Nat.zero_le _⟩

theorem count_flatMap_sublist {α : Type*} (g : α → List Delivery) {l l' : List α}
    (h : l'.Sublist l) : (l'.flatMap g).count e ≤ (l.flatMap g).count e := by
  induction h with
  | slnil => exact le_refl _
  | cons a _ ih => rw [List.flatMap_cons, List.count_append]; omega
  | cons_cons a _ ih => rw [List.flatMap_cons, List.flatMap_cons, List.count_append,
      List.count_append]; omega

theorem count_flatMap_of_mem (g : ℕ → List Delivery) {l : List ℕ} (hl : l.Nodup) {i : ℕ}
    (hi : i ∈ l) :
    (l.flatMap g).count e = (g i).count e + ((l.filter (· ≠ i)).flatMap g).count e := by
  have hperm := (List.perm_cons_erase hi).flatMap_right g
  rw [hperm.count_eq, List.flatMap_cons, List.count_append, hl.erase_eq_filter]
  refine congrArg _ (congrArg _ (congrArg _ (List.filter_congr fun j _ => ?_)))
  rw [bne, beq_eq_decide, decide_not]

variable {s : Cluster}

theorem unheardAt_congr {s' : Cluster} {i : ℕ} (hanswers : s'.answers i = s.answers i)
    (hflush : s'.net.state.flush i = s.net.state.flush i) : s'.unheardAt i = s.unheardAt i := by
  rw [unheardAt, unheardAt, hanswers, hflush]

/-- An event that lets no request reach its node, and gives no answer that is not there. -/
theorem Honest.net (h : Honest e s) {s' : Cluster} (ev : NetEvent)
    (hstep : NetStep M s.net ev s'.net) (hreach : ∀ i, ev ≠ .reach i)
    (hreply : ∀ i k response, ev = .move i (.reply k (some response)) →
      s.answers i = some response)
    (hanswers : s'.answers = s.answers) (hexecuted : s.executed <+: s'.executed) :
    Honest e s' := by
  obtain ⟨hnodup, hrunning, hexec⟩ := h
  replace hexec := hexec.trans (hexecuted.sublist.count_le e)
  -- the tasks of `reached` keep their flushes
  have hkeep (hflush : ∀ i ∈ s'.net.reached, s'.net.state.flush i = s.net.state.flush i)
      (hsub : s'.net.reached.Sublist s.net.reached)
      (hacked : s'.net.state.shared.acked.count e +
        (s'.net.reached.flatMap s.unheardAt).count e ≤ s'.executed.count e) : Honest e s' := by
    refine ⟨hnodup.sublist hsub, fun i hi => ?_, ?_⟩
    · obtain ⟨f, hf, hr⟩ := hrunning i (hsub.subset hi)
      exact ⟨f, (hflush i hi).trans hf, hanswers ▸ hr⟩
    · have hsame : s'.unheard = s'.net.reached.flatMap s.unheardAt :=
        List.flatMap_congr fun i hi => unheardAt_congr (by rw [hanswers]) (hflush i hi)
      rw [hsame]
      exact hacked
  cases hstep with
  | quiet hflush _ hacked _ _ hsub =>
    refine hkeep (fun i _ => by rw [hflush]) hsub ?_
    have := count_flatMap_sublist (e := e) s.unheardAt hsub
    rw [hacked]
    exact (Nat.add_le_add_left this _).trans hexec
  | push _ _ hflush _ hacked _ _ hreached =>
    refine hkeep (fun i _ => by rw [hflush]) (by rw [hreached]) ?_
    rw [hacked, hreached]
    exact hexec
  | @take i k t _ _ _ hnone hflush _ hacked _ _ hreached =>
    refine hkeep (fun j hj => ?_) (by rw [hreached]) ?_
    · rw [hflush, Function.update_of_ne]
      rintro rfl
      obtain ⟨f, hf, -⟩ := hrunning j (hreached ▸ hj)
      rw [hnone] at hf
      cases hf
    · rw [hacked, hreached]
      exact hexec
  | @reply i k response f _ hf hsome hflush _ hacked _ _ hreached =>
    have hsub : s'.net.reached.Sublist s.net.reached := hreached ▸ List.filter_sublist
    refine hkeep (fun j hj => ?_) hsub ?_
    · rw [hreached, List.mem_filter, decide_eq_true_eq] at hj
      rw [hflush, Function.update_of_ne hj.2]
    · rw [hacked, List.count_append, hreached]
      cases response with
      | none =>
        have := count_flatMap_sublist (e := e) s.unheardAt
          (List.filter_sublist (p := (· ≠ i)) (l := s.net.reached))
        exact (Nat.add_le_add_left this _).trans hexec
      | some response =>
        -- what is acknowledged now had been executed before
        have hanswer := hreply i k response rfl
        have hi := hsome rfl
        have hsplit := count_flatMap_of_mem (e := e) s.unheardAt hnodup hi
        have hat : s.unheardAt i = deliveries f.request := by
          rw [unheardAt, hanswer, hf]
          rfl
        have hack : (f.acknowledged (some response)).count e ≤ (deliveries f.request).count e := by
          rw [Flush.acknowledged]
          split_ifs
          · exact le_refl _
          · exact Nat.zero_le _
        rw [hat] at hsplit
        rw [unheard, hsplit] at hexec
        omega
  | reach => exact absurd rfl (hreach _)
  | reachLate _ hstate _ _ hreached =>
    refine hkeep (fun i _ => by rw [hstate]) (by rw [hreached]) ?_
    rw [hstate, hreached]
    exact hexec

/-- The request of a flush reaches its node, which executes it or not. -/
theorem Honest.reach (h : Honest e s) {i : ℕ} (addOk : ℕ → Bool) :
    Honest e (clusterStep M X s (.reach i addOk)) := by
  cases hunder : s.net.underWay i with
  | none =>
    have hsame : clusterStep M X s (.reach i addOk) = s := by
      have hanswers : s.answersAfter X (.reach i addOk) = s.answers := by
        funext j
        rw [answersAfter, hunder]
      simp [clusterStep, netEvent, call, callAt, hunder, netStep_reach_of_none hunder, hanswers]
    rw [hsame]
    exact h
  | some r =>
    obtain ⟨f, hf, hi, rfl⟩ := underWay_eq_some hunder
    obtain ⟨hnodup, hrunning, hexec⟩ := h
    set p := (s.nodes f.targetNode).processBatch X addOk f.operations with hp
    have hanswers (j : ℕ) : (clusterStep M X s (.reach i addOk)).answers j =
        if j = i then p.2 else s.answers j := by
      show s.answersAfter X (.reach i addOk) j = _
      rw [answersAfter, hunder]
      rfl
    have hnet : (clusterStep M X s (.reach i addOk)).net = _ := netStep_reach (M := M) hf hi
    have hexecuted : (clusterStep M X s (.reach i addOk)).executed =
        s.executed ++ if p.2.isSome then deliveries f.request else [] := by
      show s.executed ++ ((s.call (.reach i addOk)).map (s.executes X)).getD [] = _
      rw [call, hunder]
      rfl
    have hother (j : ℕ) (hj : j ∈ s.net.reached) : j ≠ i := fun hji => hi (hji ▸ hj)
    refine ⟨?_, fun j hj => ?_, ?_⟩
    · rw [hnet]
      exact List.nodup_cons.2 ⟨hi, hnodup⟩
    · rw [hnet] at hj ⊢
      rw [hanswers]
      rcases List.mem_cons.1 hj with rfl | hj
      · refine ⟨f, hf, fun r hr => ?_⟩
        rw [if_pos rfl] at hr
        have := Engine.counts_of_processLoop hr
        omega
      · rw [if_neg (hother j hj)]
        exact hrunning j hj
    · have hsame : s.net.reached.flatMap (clusterStep M X s (.reach i addOk)).unheardAt =
          s.unheard :=
        List.flatMap_congr fun j hj => unheardAt_congr
          (by rw [hanswers, if_neg (hother j hj)]) (by rw [hnet])
      have hat : (clusterStep M X s (.reach i addOk)).unheardAt i =
          if p.2.isSome then deliveries f.request else [] := by
        rw [unheardAt, hanswers, if_pos rfl, hnet, hf]
        rfl
      rw [hexecuted, unheard]
      have hreached : (clusterStep M X s (.reach i addOk)).net.reached = i :: s.net.reached := by
        rw [hnet]
      have hacked : (clusterStep M X s (.reach i addOk)).net.state.shared.acked =
          s.net.state.shared.acked := by rw [hnet]
      rw [hreached, hacked, List.flatMap_cons, hsame, hat, List.count_append, List.count_append]
      omega

theorem of_netEvent_reach {ev : ClusterEvent} {i : ℕ} (h : s.netEvent ev = some (.reach i)) :
    ∃ addOk, ev = .reach i addOk := by
  cases ev with
  | reach i addOk => cases h; exact ⟨addOk, rfl⟩
  | answer i k =>
    rw [netEvent] at h
    split_ifs at h
    cases h
  | list i =>
    obtain ⟨p, -, hp⟩ := Option.map_eq_some_iff.1 h
    cases hp
  | act | newConsumer | reachLate | fail | listFail | node => cases h

/-- Only a node gives an answer. -/
theorem of_netEvent_reply {ev : ClusterEvent} {i k : ℕ} {response : IndexBatchResponse}
    (h : s.netEvent ev = some (.move i (.reply k (some response)))) :
    s.answers i = some response := by
  cases ev with
  | act i m => cases m <;> cases h
  | answer i k =>
    rw [netEvent] at h
    split_ifs at h
    injection h with h
    injection h with hi hr
    injection hr with _ hr
    rw [← hi, hr]
  | list i =>
    obtain ⟨p, -, hp⟩ := Option.map_eq_some_iff.1 h
    cases hp
  | reach | newConsumer | reachLate | fail | listFail | node => cases h

theorem Honest.step (h : Honest e s) (ev : ClusterEvent) : Honest e (clusterStep M X s ev) := by
  by_cases hreach : ∃ i addOk, ev = .reach i addOk
  · obtain ⟨i, addOk, rfl⟩ := hreach
    exact h.reach addOk
  have hanswers : (clusterStep M X s ev).answers = s.answers := by
    cases ev with
    | reach i addOk => exact absurd ⟨i, addOk, rfl⟩ hreach
    | _ => rfl
  have hexecuted : s.executed <+: (clusterStep M X s ev).executed := List.prefix_append ..
  cases hev : s.netEvent ev with
  | none =>
    have hnet : (clusterStep M X s ev).net = s.net := by simp only [clusterStep, hev, Option.elim]
    refine h.net (M := M) .newConsumer ?_ (fun _ h => by cases h)
      (fun _ _ _ h => by cases h) hanswers hexecuted
    rw [hnet]
    exact .quiet rfl rfl rfl rfl rfl (List.Sublist.refl _) rfl
  | some nev =>
    have hnet : (clusterStep M X s ev).net = netStep M s.net nev := by
      simp only [clusterStep, hev, Option.elim]
    refine h.net (M := M) nev (hnet ▸ netStep_step s.net nev) ?_ ?_ hanswers hexecuted
    · rintro i rfl
      obtain ⟨addOk, rfl⟩ := of_netEvent_reach hev
      exact hreach ⟨i, addOk, rfl⟩
    · rintro i k response rfl
      exact of_netEvent_reply hev

/-- **What is acknowledged has been executed.**  In every run of a cluster, whatever is lost,
    fails or crashes, a delivery is acknowledged at most as often as its node has executed a
    batch with it to the end. -/
theorem acked_executed (es : List ClusterEvent) :
    (Run.exec (clusterStep M X) clusterStart es).net.state.shared.acked.count e ≤
      (Run.exec (clusterStep M X) clusterStart es).executed.count e :=
  (Nat.le_add_right ..).trans
    (Run.exec_inv (I := Honest e) (fun _ ev h => h.step ev) es honest_start).executed

/-! ## At least once -/

/-- The third try of a batch with the delivery fails. -/
def GivesUp (e : Delivery) (s : Cluster) : ClusterEvent → Prop
  | .answer i _ => s.answers i = none ∧ ∃ f ∈ s.net.state.flush i, e ∈ deliveries f.request ∧
      maxRetryAttempts ≤ f.attempt + 1
  | .fail i _ => ∃ f ∈ s.net.state.flush i, e ∈ deliveries f.request ∧
      maxRetryAttempts ≤ f.attempt + 1
  | _ => False

/-- An item that is pushed is read back as it was written. -/
def Reads (M : Ingestor) (s : Cluster) (ev : ClusterEvent) : Prop :=
  ∀ nev ∈ s.netEvent ev, NetReads M s.net nev

instance (s : Cluster) : ∀ ev, Decidable (GivesUp e s ev)
  | .answer i _ => inferInstanceAs (Decidable (_ ∧ ∃ f ∈ s.net.state.flush i, _ ∧ _))
  | .fail i _ => inferInstanceAs (Decidable (∃ f ∈ s.net.state.flush i, _ ∧ _))
  | .act _ _ | .newConsumer | .reach _ _ | .reachLate _ _ | .list _ | .listFail _ | .node _ _ =>
    isFalse id

instance (s : Cluster) (ev : ClusterEvent) : Decidable (Reads M s ev) :=
  inferInstanceAs (Decidable (∀ nev ∈ s.netEvent ev, NetReads M s.net nev))

/-- A task that hears of its batch does not give it up. -/
theorem answered_of_reply (h : Honest e s) {ev : ClusterEvent} {i k : ℕ}
    {response : Option IndexBatchResponse} {t : Task}
    (hev : s.netEvent ev = some (.move i (.reply k response)))
    (hearly : s.net.early i (.reply k response) = false) (hkept : ¬ GivesUp e s ev)
    (ht : s.net.state.tasks[i]? = some t) : t.Answered e (.reply k response) := by
  intro f hf he
  have hflush : s.net.state.flush i = some f := (flush_of_task ht).trans hf
  cases response with
  | some response =>
    have hi : i ∈ s.net.reached := by
      by_contra hi
      simp [Network.early, hflush, hi] at hearly
    obtain ⟨f', hf', hcounts⟩ := h.running i hi
    rw [hflush] at hf'
    cases hf'
    exact (hcounts response (of_netEvent_reply hev)).ge
  | none =>
    show f.attempt + 1 < maxRetryAttempts
    by_contra hlt
    refine hkept ?_
    have hgives : ∃ f ∈ s.net.state.flush i, e ∈ deliveries f.request ∧
        maxRetryAttempts ≤ f.attempt + 1 := ⟨f, hflush, he, not_lt.1 hlt⟩
    cases ev with
    | answer j l =>
      rw [netEvent] at hev
      split_ifs at hev
      injection hev with hev
      injection hev with hj hr
      injection hr with _ hr
      rw [hj] at hr ⊢
      exact ⟨hr, hgives⟩
    | fail j l => cases hev; exact hgives
    | act j m => cases m <;> cases hev
    | list j =>
      obtain ⟨p, -, hp⟩ := Option.map_eq_some_iff.1 hev
      cases hp
    | reach | newConsumer | reachLate | listFail | node => cases hev

/-- The ingestor of a cluster moves as by itself, or not at all; an item that it pushes is
    read back, and a batch with the delivery is not given up. -/
structure Moves (M : Ingestor) (e : Delivery) (s : State) (ev : Ingestor.Event) (s' : State) :
    Prop where
  eq : s' = Ingestor.step M s ev
  reads : OnTask (fun t _ => t.Reads M) s ev
  answered : OnTask (fun t m => t.Answered e m) s ev
  runs : ev ≠ .crash

theorem moves_of_step (h : Honest e s) {ev : ClusterEvent} (hread : Reads M s ev)
    (hkept : ¬ GivesUp e s ev) :
    (clusterStep M X s ev).net.state = s.net.state ∨
      ∃ iev, Moves M e s.net.state iev (clusterStep M X s ev).net.state := by
  rw [clusterStep]
  cases hev : s.netEvent ev with
  | none => exact Or.inl rfl
  | some nev =>
    rw [Option.elim]
    cases nev with
    | move i m =>
      cases hearly : s.net.early i m with
      | true => exact Or.inl (by rw [netStep, hearly, if_pos rfl])
      | false =>
        refine Or.inr ⟨.task i m, ?_, hread _ hev, fun t ht => ?_, fun h => (by cases h)⟩
        · rw [netStep, hearly, if_neg Bool.false_ne_true]
        · cases m with
          | reply k response => exact answered_of_reply h hev hearly hkept ht
          | tick | shutdown | row | proceed | fetched => trivial
    | newConsumer =>
      exact Or.inr ⟨.newConsumer, rfl, trivial, trivial, fun h => (by cases h)⟩
    | reach i =>
      refine Or.inl ?_
      cases hunder : s.net.underWay i with
      | none => rw [netStep_reach_of_none hunder]
      | some r =>
        obtain ⟨f, hf, hi, -⟩ := underWay_eq_some hunder
        rw [netStep_reach hf hi]
    | reachLate j =>
      refine Or.inl ?_
      rw [netStep]
      cases s.net.late[j]? <;> rfl

/-- What every step of the ingestor keeps, a run of a cluster keeps, if no batch with the
    delivery is given up. -/
theorem kept_of_moves {I : State → Prop} (hstep : ∀ s ev s', I s → Moves M e s ev s' → I s')
    {es : List ClusterEvent} (hread : Run.Along (clusterStep M X) (Reads M) s es)
    (hkept : Run.Along (clusterStep M X) (fun s ev => ¬ GivesUp e s ev) s es)
    (h : Honest e s) (hs : I s.net.state) :
    Honest e (Run.exec (clusterStep M X) s es) ∧
      I (Run.exec (clusterStep M X) s es).net.state := by
  refine (hread.and hkept).inv (I := fun s => Honest e s ∧ I s.net.state)
    (fun s ev h hev => ⟨h.1.step ev, ?_⟩) ⟨h, hs⟩
  rcases moves_of_step (X := X) h.1 hev.1 hev.2 with hsame | ⟨iev, hmoves⟩
  · rw [hsame]
    exact h.2
  · exact hstep _ _ _ h.2 hmoves

theorem balanced_moves {s s' : State} {ev : Ingestor.Event} (h : Balanced M e s)
    (hmoves : Moves M e s ev s') : Balanced M e s' := by
  rw [hmoves.eq]
  exact h.step (hmoves.reads.and hmoves.answered)

/-- **At least once.**  In every run of a cluster, whatever else is lost or fails, each item
    for which `add` returned `Ok` is in the buffer, or held by a flush that has not returned,
    or in a batch that its node has executed to the end, as often as it was accepted, if
    no batch with it is given up after three tries. -/
theorem accepted_executed {es : List ClusterEvent}
    (hread : Run.Along (clusterStep M X) (Reads M) clusterStart es)
    (hkept : Run.Along (clusterStep M X) (fun s ev => ¬ GivesUp e s ev) clusterStart es) :
    let s := Run.exec (clusterStep M X) clusterStart es
    s.net.state.shared.accepted.count e ≤
      (buffered M s.net.state.shared).count e + s.net.state.held.count e + s.executed.count e := by
  intro s
  have hinv : Honest e s ∧ Balanced M e s.net.state :=
    kept_of_moves (fun _ _ _ => balanced_moves) hread hkept honest_start (balanced_start [] [])
  obtain ⟨⟨-, -, hexec⟩, hbal⟩ := hinv
  rw [Ingestor.Balanced, ← count_held] at hbal
  omega

/-- The consumer adds an insert. -/
def sampleInserts (time : Uuid) : List ClusterEvent :=
  [.act 2 (.row (sampleInsert time)), .act 2 (.proceed 0), .act 2 (.proceed 0),
    .act 2 (.proceed 0)]

/-- The first try of the ticker fails after its request has reached the node, and the second
    one before; the third request is answered. -/
def sampleTries : List ClusterEvent :=
  .newConsumer :: sampleInserts 0x1419d6801dd211b28000000000000000 ++
    [.act 0 .tick, .act 0 (.proceed 0), .reach 0 (fun _ => true), .fail 0 0, .fail 0 0,
      .node "node" (.commit .ok), .reach 0 (fun _ => true), .answer 0 0]

theorem accepted_executed_sample :
    let s := Run.exec (clusterStep sampleUpsertIngestor Engine.samplePayloadCrates) clusterStart
      sampleTries
    let e := (sampleUpsert "1419d680-1dd2-11b2-8000-000000000000" 1000000).delivery
    s.net.state.shared.accepted.count e ≤ (buffered sampleUpsertIngestor
      s.net.state.shared).count e + s.net.state.held.count e + s.executed.count e :=
  @accepted_executed sampleUpsertIngestor Engine.samplePayloadCrates _ sampleTries
    (by decide +kernel) (by decide +kernel)

end Cluster

end Tantylla
