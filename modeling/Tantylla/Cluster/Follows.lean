/-
  A node follows the buffer (`batch/service.rs`, `engine/core.rs`).

  `docsAfter ops` are the documents of an id after operations on it, each of which takes
  effect if it is later than what is there: the register `lives`.  `Layers` says how many
  of the operations the writer of a node, its last commit and its reader show, and that the
  reader is never ahead of the commit, nor the commit of the writer.

  `node_follows`: in every run of a cluster in which the operations on a document arrive in
  order and are answered, and its lookups are current, each of the three shows the
  document after some first part of what was pushed; the requests that come twice leave no
  trace, and when none is under way the writer shows all that has left the buffer.
-/
import Tantylla.Cluster.InStep
import Tantylla.Node.Replay

namespace Tantylla

open Ingestor Engine

variable {M : Ingestor} {X : Crates} {part : String → String} {n x : String}

/-! ## The layers of a node -/

/-- What the layers of a node show of the document `x`: the writer the document after
    `applied`, the last commit after `committed`, and the reader after `shown`. -/
structure Layers (hX : X.Lawful) (part : String → String) (x : String) (s : Engine)
    (shown committed applied : List IndexOperation) : Prop where
  writer : s.live x = docsAfter hX part x applied
  commit : docsOf x s.committed = docsAfter hX part x committed
  reader : docsOf x s.reader = docsAfter hX part x shown
  shown_le : shown <+: committed
  committed_le : committed <+: applied
  homed : Homed part s ∧ Homed part (new s.committed)

section
variable {hX : X.Lawful} {s : Engine} {shown committed applied : List IndexOperation}

theorem Layers.batch (h : Layers hX part x s shown committed applied) {addOk : ℕ → Bool}
    {ops applied' : List IndexOperation} (hc : CallSound X part x s (.batch addOk ops))
    (hle : applied <+: applied')
    (hlive : Run.exec lives.act (docsAfter hX part x applied)
      ((ops.filter (IndexOperation.Concerns part x)).filterMap (liveOp hX part x)) =
        docsAfter hX part x applied') :
    Layers hX part x (callStep X s (.batch addOk ops)) shown committed applied' := by
  obtain ⟨hcommitted, hreader⟩ := @frame_batch X addOk s ops
  refine ⟨?_, ?_, ?_, h.shown_le, h.committed_le.trans hle, homed_call hX h.homed hc⟩
  · exact (live_batch hX h.homed.1 hc).trans (by rw [h.writer, hlive])
  · exact (congrArg (docsOf x) hcommitted).trans h.commit
  · exact (congrArg (docsOf x) hreader).trans h.reader

/-- **What a node does by itself** changes which operations its last commit and its reader
    show, and not those the writer shows. -/
theorem Layers.node (h : Layers hX part x s shown committed applied) {e : NodeEvent}
    (hc : CallSound X part x s e.call) :
    ∃ shown' committed', Layers hX part x (callStep X s e.call) shown' committed' applied := by
  have hhomed := homed_call hX h.homed hc
  have hall := h.shown_le.trans h.committed_le
  cases e with
  | commit r =>
    cases r with
    | ok => exact ⟨shown, applied, h.writer, h.writer, h.reader, hall, List.prefix_refl _, hhomed⟩
    | failed =>
      exact ⟨shown, committed, h.writer, h.commit, h.reader, h.shown_le, h.committed_le, hhomed⟩
    | contended => exact ⟨shown, committed, h⟩
  | reload =>
    exact ⟨committed, committed, h.writer, h.commit, h.commit, List.prefix_refl _,
      h.committed_le, hhomed⟩
  | prune now r =>
    have hlive := live_call hX h.homed.1 hc
    cases r with
    | ok =>
      have hprune := hlive.trans h.writer
      exact ⟨shown, applied, hprune, hprune, h.reader, hall, List.prefix_refl _, hhomed⟩
    | commitFailed =>
      exact ⟨shown, committed, hlive.trans h.writer, h.commit, h.reader, h.shown_le,
        h.committed_le, hhomed⟩
    | queryFailed | contended => exact ⟨shown, committed, h⟩
  | crash =>
    have hdocs : docsOf x s.committed = docsAfter hX part x applied := hc.trans h.writer
    exact ⟨applied, applied, hdocs, hdocs, hdocs, List.prefix_refl _, List.prefix_refl _, hhomed⟩

end

namespace Cluster

/-! ## Runs of the cluster -/

/-- What keeps the node `n` in step on the document `x`: items read back as they were
    written, no flush overtakes another with operations on the document, and the calls of
    the node are sound. -/
structure Orderly (M : Ingestor) (X : Crates) (part : String → String) (n x : String)
    (s : Cluster) (ev : ClusterEvent) : Prop where
  reads : ∀ nev ∈ s.netEvent ev, NetReads M s.net nev
  alone : ∀ nev ∈ s.netEvent ev, TakesAlone M part n x s.net nev
  call : ∀ c ∈ s.callAt n ev, CallSound X part x (s.nodes n) c

instance (M : Ingestor) (X : Crates) (part : String → String) (n x : String) (s : Cluster)
    (ev : ClusterEvent) : Decidable (Orderly M X part n x s ev) :=
  decidable_of_iff ((∀ nev ∈ s.netEvent ev, NetReads M s.net nev) ∧
      (∀ nev ∈ s.netEvent ev, TakesAlone M part n x s.net nev) ∧
      ∀ c ∈ s.callAt n ev, CallSound X part x (s.nodes n) c)
    ⟨fun h => ⟨h.1, h.2.1, h.2.2⟩, fun h => ⟨h.reads, h.alone, h.call⟩⟩

theorem pushed_grows (s : Cluster) (ev : ClusterEvent) :
    s.net.pushed <+: (clusterStep M X s ev).net.pushed := by
  show s.net.pushed <+: ((s.netEvent ev).elim s.net (netStep M s.net)).pushed
  cases s.netEvent ev with
  | none => exact List.prefix_refl _
  | some nev =>
    have hstep := @netStep_step M s.net nev
    show s.net.pushed <+: (netStep M s.net nev).pushed
    generalize netStep M s.net nev = net at hstep
    cases hstep with
    | quiet _ _ _ hpushed | take _ _ _ _ _ _ hpushed | reply _ _ _ _ _ hpushed
    | reach _ _ _ hpushed | reachLate _ _ hpushed => exact hpushed ▸ List.prefix_refl _
    | push _ _ _ _ _ hpushed => rw [hpushed]; exact List.prefix_append ..

/-- The operations that have arrived. -/
def applied (done last : List IndexOperation) (come : Bool) : List IndexOperation :=
  done ++ if come then last else []

/-- Where the operations on the document are, and what the node shows of them. -/
def Following (M : Ingestor) (hX : X.Lawful) (part : String → String) (n x : String)
    (s : Cluster) : Prop :=
  ∃ done last come shown committed, InStep M part n x s.net (done ++ last) last come ∧
    Layers hX part x (s.nodes n) shown committed (applied done last come)

variable {s : Cluster}

theorem following_start (hX : X.Lawful) : Following M hX part n x clusterStart :=
  ⟨[], [], false, [], [], inStep_start, rfl, rfl, rfl, List.prefix_refl _, List.prefix_refl _,
    homed_new part, homed_new part⟩

theorem Following.arrive {hX : X.Lawful} (h : Following M hX part n x s)
    (hord : InOrder (concerning part n x s.net.pushed)) {r : Request} (hr : r ∈ s.net.requests)
    {addOk : ℕ → Bool} {s' : Cluster} (harrives : Arrives s.net r s'.net)
    (hnode : s'.nodes n =
      if r.1 = n then callStep X (s.nodes n) (.batch addOk r.2) else s.nodes n)
    (hc : r.1 = n → CallSound X part x (s.nodes n) (.batch addOk r.2)) :
    Following M hX part n x s' := by
  obtain ⟨done, last, come, shown, committed, hstep, hlayers⟩ := h
  refine ⟨done, last, _, shown, committed, hstep.arrive harrives, ?_⟩
  have hops := @concerning_deliveries part n x r
  rw [hnode]
  split_ifs at hops ⊢ with hn
  swap
  · simp only [hops, ne_eq, not_true_eq_false, decide_false, Bool.or_false]
    exact hlayers
  refine hlayers.batch (hc hn) ?_ ?_
  · cases come with
    | true => exact List.prefix_refl _
    | false =>
      rw [applied, if_neg Bool.false_ne_true, List.append_nil]
      exact List.prefix_append ..
  · rw [← hops]
    rcases hstep.requests r hr with hnil | hlast
    · simp only [hnil, ne_eq, not_true_eq_false, decide_false, Bool.or_false]
      rfl
    · rw [hlast]
      by_cases hne : last = []
      · simp only [hne, ne_eq, not_true_eq_false, decide_false, Bool.or_false]
        rfl
      · cases come with
        | true =>
          -- the batch has come before
          refine docsAfter_again hX done ?_
          refine List.Pairwise.sublist ?_ hord
          rw [hstep.pushed, List.append_assoc]
          exact (List.sublist_append_left ..).trans (List.sublist_append_right ..)
        | false =>
          simp only [applied, hne, ne_eq, not_false_eq_true, decide_true, Bool.or_true,
            if_true, Bool.false_eq_true, if_false, List.append_nil]
          exact (docsAfter_append hX done last).symm

/-- **An event of an orderly run** leaves the node showing what it showed, or more. -/
theorem Following.step {hX : X.Lawful} (h : Following M hX part n x s)
    (hord : InOrder (concerning part n x s.net.pushed)) {ev : ClusterEvent}
    (hev : Orderly M X part n x s ev) : Following M hX part n x (clusterStep M X s ev) := by
  have hevent := nodeStep_step (M := M) (X := X) (n := n) s ev
  generalize clusterStep M X s ev = s' at hevent
  cases hevent with
  | same hnet hnode =>
    rw [Following, hnet, hnode]
    exact h
  | net nev hnev hstep hreach hlate hnode =>
    obtain ⟨done, last, come, shown, committed, hin, hlayers⟩ := h
    rw [Following, hnode]
    rcases hin.net hstep (hev.reads nev hnev) (hev.alone nev hnev) hreach hlate with
      hsame | ⟨hcome, batch, htake⟩
    · exact ⟨done, last, come, shown, committed, hsame, hlayers⟩
    · refine ⟨done ++ last, batch, false, shown, committed, htake, ?_⟩
      have happlied : applied (done ++ last) batch false = applied done last come := by
        rcases hcome with rfl | rfl <;> simp [applied]
      rw [happlied]
      exact hlayers
  | arrive r addOk hr harrives hcall hnode =>
    exact h.arrive hord hr harrives hnode fun hn => hev.call _ (hcall hn)
  | node e hcall hnet hnode =>
    obtain ⟨done, last, come, shown, committed, hin, hlayers⟩ := h
    obtain ⟨shown', committed', hlayers'⟩ := hlayers.node (hev.call _ hcall)
    rw [Following, hnet, hnode]
    exact ⟨done, last, come, shown', committed', hin, hlayers'⟩

/-- Each layer of the node `n` shows the document `x` after a first part of the operations
    pushed on it, the reader after no more than the last commit, and that after no more than
    the writer.  The writer shows it after all that have left the buffer, if no request with
    operations on it is under way. -/
def FollowsPushed (M : Ingestor) (hX : X.Lawful) (part : String → String) (n x : String)
    (s : Cluster) : Prop :=
  ∃ shown committed applied, shown <+: committed ∧ committed <+: applied ∧
    applied <+: concerning part n x s.net.pushed ∧
    docsOf x (s.nodes n).reader = docsAfter hX part x shown ∧
    docsOf x (s.nodes n).committed = docsAfter hX part x committed ∧
    (s.nodes n).live x = docsAfter hX part x applied ∧
    ((∀ r ∈ s.net.requests, concerning part n x (deliveries r) = []) →
      applied ++ concerning part n x (buffered M s.net.state.shared) =
        concerning part n x s.net.pushed)

/-- Where the operations on the document are, after an orderly run. -/
theorem following_run (hX : X.Lawful) {es : List ClusterEvent}
    (hes : Run.Along (clusterStep M X) (Orderly M X part n x) clusterStart es)
    (hord : InOrder (concerning part n x
      (Run.exec (clusterStep M X) clusterStart es).net.pushed)) :
    Following M hX part n x (Run.exec (clusterStep M X) clusterStart es) := by
  have hback (s : Cluster) (ev : ClusterEvent)
      (h : InOrder (concerning part n x (clusterStep M X s ev).net.pushed)) :
      InOrder (concerning part n x s.net.pushed) :=
    h.sublist (((pushed_grows s ev).sublist.filter _).map _)
  have hall := (Run.along_of_exec (Q := fun s : Cluster =>
    InOrder (concerning part n x s.net.pushed)) hback hord).and hes
  exact hall.inv (I := Following M hX part n x) (fun s ev h hev => h.step (hback s ev hev.1) hev.2)
    (following_start hX)

theorem Following.pushed {hX : X.Lawful} (h : Following M hX part n x s) :
    FollowsPushed M hX part n x s := by
  obtain ⟨done, last, come, shown, committed, hstep, hlayers⟩ := h
  refine ⟨shown, committed, _, hlayers.shown_le, hlayers.committed_le, ?_, hlayers.reader,
    hlayers.commit, hlayers.writer, fun hnothing => ?_⟩
  · rw [hstep.pushed, applied]
    refine List.IsPrefix.trans ?_ (List.prefix_append ..)
    cases come with
    | true => exact List.prefix_refl _
    | false => exact ⟨last, by simp⟩
  · rw [hstep.pushed]
    rcases hstep.come_or hnothing with rfl | rfl <;> simp [applied]

/-- **A node follows the buffer.**  In every run of a cluster in which items read back, no
    flush takes operations on the document `x` while others are still to be sent or under
    way, the batches with them are answered and look the document up as it is, each id stays in
    one partition, the document does not expire, and no crash of the node loses it: if the
    operations pushed on it are in writetime order, its node shows the document after first
    parts of them. -/
theorem node_follows (hX : X.Lawful) {es : List ClusterEvent}
    (hes : Run.Along (clusterStep M X) (Orderly M X part n x) clusterStart es)
    (hord : InOrder (concerning part n x
      (Run.exec (clusterStep M X) clusterStart es).net.pushed)) :
    FollowsPushed M hX part n x (Run.exec (clusterStep M X) clusterStart es) :=
  (following_run hX hes hord).pushed

/-- The payloads of the sample inserts are read as they are written. -/
def sampleUpsertCrates : Crates :=
  .ofTexts (sampleTimes.map fun t => (samplePayloadText t.2.1, samplePayload t.2.1))

theorem sampleUpsertCrates_stores : sampleUpsertCrates.Stores := Crates.ofTexts_stores _

theorem sampleUpsertCrates_lawful : sampleUpsertCrates.Lawful := Crates.ofTexts_lawful _

/-- The first request of the first insert comes twice, with a commit and a reload in between;
    then the second insert comes. -/
def sampleFollowed : List ClusterEvent :=
  .newConsumer :: sampleInserts 0x1419d6801dd211b28000000000000000 ++
    [.act 0 .tick, .act 0 (.proceed 0), .reach 0 (fun _ => true), .fail 0 0,
      .node "node" (.commit .ok), .node "node" .reload, .reach 0 (fun _ => true), .answer 0 0] ++
    sampleInserts 0x14b26d001dd211b28000000000000000 ++
    [.act 0 .tick, .act 0 (.proceed 0), .reach 0 (fun _ => true), .answer 0 0]

theorem node_follows_sample : FollowsPushed sampleUpsertIngestor sampleUpsertCrates_lawful
    (fun _ => "x") "node" "x:2:3"
    (Run.exec (clusterStep sampleUpsertIngestor sampleUpsertCrates) clusterStart sampleFollowed) :=
  node_follows sampleUpsertCrates_lawful (by decide +kernel) (by decide +kernel)

end Cluster

end Tantylla
