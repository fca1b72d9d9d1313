/-
  An ingestor that crashes and resumes (`main.rs`, `batch/service.rs`).

  A crash loses the buffer and the flushes.  The next process starts from the checkpoint that
  was stored, so it reads rows again that were delivered before, and the requests of the
  former one may still be under way.  While it reads them, a document may go back to what it
  was: an old write is not stale where a delete has left nothing.  `recovers`: once the last
  process has delivered all there is, the document is as if there had been no crash, if no
  checkpoint covered an operation that was still in the buffer, to be sent or under way.
-/
import Tantylla.Cluster.Follows
import Tantylla.Lib.Rewind

namespace Tantylla

open Ingestor Engine Run

variable {M : Ingestor} {X : Crates} {part : String → String} {n x : String}
  {ops : List IndexOperation}

/-! ## The operations on a document as a log -/

/-- What an operation does to the documents of the id `x`. -/
def docStep (hX : X.Lawful) (part : String → String) (x : String) (l : List TantivyDoc)
    (o : IndexOperation) : List TantivyDoc := (liveOp hX part x o).elim l (lives.act l)

theorem exec_docStep (hX : X.Lawful) (l : List TantivyDoc) (ops : List IndexOperation) :
    exec (docStep hX part x) l ops = exec lives.act l (ops.filterMap (liveOp hX part x)) :=
  exec_project (π := id) (I := fun _ => True) (P := fun _ _ => True) (fun _ _ _ _ => trivial)
    (fun _ _ _ _ => rfl) (along_of_forall fun _ _ => trivial) trivial

/-- Any part of the log, when all of it has come, may come again. -/
theorem replays_of_inOrder (hX : X.Lawful) (hops : InOrder ops) :
    Replays (docStep hX part x) ops := by
  intro i j l
  have hpart : InOrder (Run.part ops i j) :=
    hops.sublist ((List.take_sublist ..).trans (List.drop_sublist ..))
  rw [exec_docStep, exec_docStep]
  exact Register.exec_replay (ordered_filterMap (fun _ _ h => liveOp_version h) hpart) _

/-! ## Restarts -/

/-- The requests that are under way. -/
def Ingestor.Network.sent (s : Network) : List Request :=
  (List.range s.state.tasks.length).filterMap s.underWay ++ s.late

/-- The ingestor crashes and is started again; of the requests that are under way `late`
    still reach their nodes. -/
def Ingestor.Network.restart (M : Ingestor) (s : Network) (late : List Request) : Network where
  state := step M s.state .crash
  pushed := []
  arrived := s.arrived
  reached := []
  late := late

theorem sent_subset (s : Network) : s.sent ⊆ s.requests := by
  intro r hr
  rw [mem_requests_iff]
  rcases List.mem_append.1 hr with hr | hr
  · obtain ⟨i, -, hi⟩ := List.mem_filterMap.1 hr
    obtain ⟨f, hf, -, rfl⟩ := underWay_eq_some hi
    exact Or.inl ⟨i, f, hf, List.mem_cons_self⟩
  · exact Or.inr hr

namespace Cluster

def restart (M : Ingestor) (s : Cluster) (late : List Request) : Cluster where
  net := s.net.restart M late
  nodes := s.nodes
  answers _ := none
  executed := s.executed

/-- What one process of the ingestor sees: it starts from a checkpoint that covers the first
    `covered` operations on the document, `late` are the requests of former processes that
    still reach their nodes, and the events end with its crash. -/
structure Session where
  covered : ℕ
  late : List Request
  events : List ClusterEvent

/-- The cluster, and how many of the operations the checkpoint covered at the last start. -/
structure Resumed where
  cluster : Cluster
  covered : ℕ

def resumedStart : Resumed := ⟨clusterStart, 0⟩

def sessionStep (M : Ingestor) (X : Crates) (s : Resumed) (c : Session) : Resumed where
  cluster := exec (clusterStep M X) (s.cluster.restart M c.late) c.events
  covered := c.covered

/-- The operation was pushed, and is neither in the buffer nor to be sent nor under way. -/
def Settled (M : Ingestor) (part : String → String) (n x : String) (s : Network)
    (o : IndexOperation) : Prop :=
  o ∈ concerning part n x s.pushed ∧ o ∉ concerning part n x (buffered M s.state.shared) ∧
    ∀ r ∈ s.requests, o ∉ concerning part n x (deliveries r)

instance (s : Network) (o : IndexOperation) : Decidable (Settled M part n x s o) :=
  inferInstanceAs (Decidable (_ ∧ _ ∧ ∀ r ∈ _, _))

/-- A process resumes the operations `ops` on the document `x` of the node `n`: its checkpoint
    covers what the one before covered and operations that are settled, it pushes what
    follows, in order, and its run is orderly. -/
structure Resumes (M : Ingestor) (X : Crates) (part : String → String) (n x : String)
    (ops : List IndexOperation) (s : Resumed) (c : Session) : Prop where
  covered : s.covered ≤ c.covered ∧ c.covered ≤ ops.length
  settled : ∀ o ∈ Run.part ops s.covered c.covered, Settled M part n x s.cluster.net o
  late : c.late ⊆ s.cluster.net.sent
  orderly : Along (clusterStep M X) (Orderly M X part n x) (s.cluster.restart M c.late) c.events
  pushed : concerning part n x (sessionStep M X s c).cluster.net.pushed <+: ops.drop c.covered

instance (s : Resumed) (c : Session) : Decidable (Resumes M X part n x ops s c) :=
  decidable_of_iff ((s.covered ≤ c.covered ∧ c.covered ≤ ops.length) ∧
      (∀ o ∈ Run.part ops s.covered c.covered, Settled M part n x s.cluster.net o) ∧
      c.late ⊆ s.cluster.net.sent ∧
      Along (clusterStep M X) (Orderly M X part n x) (s.cluster.restart M c.late) c.events ∧
      concerning part n x (sessionStep M X s c).cluster.net.pushed <+: ops.drop c.covered)
    ⟨fun h => ⟨h.1, h.2.1, h.2.2.1, h.2.2.2.1, h.2.2.2.2⟩,
      fun h => ⟨h.covered, h.settled, h.late, h.orderly, h.pushed⟩⟩

/-! ## Where the log has come -/

/-- The positions of a log at which the node, the last batch `i` to `j` and the flushes of the
    last process are, which started at `covered` and has taken all up to `taken`. -/
structure Positions (length covered since pos i j taken : ℕ) (come : Bool) : Prop where
  covered_le : since ≤ covered ∧ covered ≤ pos ∧ covered ≤ j
  batch_le : since ≤ i ∧ i ≤ pos ∧ i ≤ j ∧ j ≤ length
  come_eq : come = true → j = pos
  coming : come = false → covered ≤ i ∧ (i = pos ∨ i = covered)
  taken_eq : taken = covered ∨ taken = j

/-- Where the operations on the document are, and where the node is in the log of them. -/
def Recovering (M : Ingestor) (hX : X.Lawful) (part : String → String) (n x : String)
    (ops : List IndexOperation) (covered : ℕ) (s : Cluster) : Prop :=
  ∃ since pos furthest i j taken come, furthest ≤ ops.length ∧
    Positions ops.length covered since pos i j taken come ∧
    InStep M part n x s.net (Run.part ops covered taken) (Run.part ops i j) come ∧
    Resuming (docStep hX part x) ops [] since pos furthest ((s.nodes n).live x) ∧
    Homed part (s.nodes n) ∧ Homed part (new (s.nodes n).committed)

section
variable {length covered since pos i j taken : ℕ} {come : Bool}

theorem Positions.taken_le (h : Positions length covered since pos i j taken come)
    (hcome : come = true ∨ i = j) : covered ≤ taken ∧ taken ≤ pos ∧ taken ≤ length ∧
      since ≤ taken ∧ (taken = pos ∨ taken = covered) := by
  obtain ⟨⟨_, _, _⟩, ⟨_, _, _, _⟩, hcome_eq, hcoming, htaken⟩ := h
  cases come with
  | true =>
    have := hcome_eq rfl
    omega
  | false =>
    have := hcoming rfl
    have : i = j := hcome.resolve_left Bool.false_ne_true
    omega

theorem Positions.take (h : Positions length covered since pos i j taken come)
    (hcome : come = true ∨ i = j) {next : ℕ} (hnext : taken ≤ next ∧ next ≤ length) :
    Positions length covered since pos taken next next false := by
  obtain ⟨hcovered, hpos, -, hsince, heq⟩ := h.taken_le hcome
  exact ⟨⟨h.covered_le.1, h.covered_le.2.1, hcovered.trans hnext.1⟩,
    ⟨hsince, hpos, hnext.1, hnext.2⟩, nofun, fun _ => ⟨hcovered, heq⟩, Or.inr rfl⟩

theorem Positions.next (h : Positions length covered since i i j taken false) :
    Positions length covered since j i j taken true := by
  obtain ⟨⟨hsince, -, hcovered⟩, ⟨hi, -, hj, hlength⟩, -, -, htaken⟩ := h
  exact ⟨⟨hsince, hcovered, hcovered⟩, ⟨hi, hj, hj, hlength⟩, fun _ => rfl, nofun, htaken⟩

/-- The batch comes with which a process goes back to where it started. -/
theorem Positions.back (h : Positions length covered since pos covered j taken false) :
    Positions length covered covered j covered j taken true := by
  obtain ⟨⟨-, -, hcovered⟩, ⟨-, -, -, hlength⟩, -, -, htaken⟩ := h
  exact ⟨⟨le_refl _, hcovered, hcovered⟩, ⟨le_refl _, hcovered, hcovered, hlength⟩,
    fun _ => rfl, nofun, htaken⟩

end

theorem recovering_start (hX : X.Lawful) : Recovering M hX part n x ops 0 clusterStart :=
  ⟨0, 0, 0, 0, 0, 0, false, Nat.zero_le _,
    ⟨⟨le_refl _, le_refl _, le_refl _⟩, ⟨le_refl _, le_refl _, le_refl _, Nat.zero_le _⟩, nofun,
      fun _ => ⟨le_refl _, Or.inl rfl⟩, Or.inl rfl⟩,
    inStep_start, resuming_start, homed_new part, homed_new part⟩

variable {hX : X.Lawful} {s : Cluster} {covered : ℕ}

/-- A request reaches its node. -/
theorem Recovering.arrive (h : Recovering M hX part n x ops covered s) (hops : InOrder ops)
    {r : Request} (hr : r ∈ s.net.requests) {addOk : ℕ → Bool} {s' : Cluster}
    (harrives : Arrives s.net r s'.net)
    (hnode : s'.nodes n =
      if r.1 = n then callStep X (s.nodes n) (.batch addOk r.2) else s.nodes n)
    (hc : r.1 = n → CallSound X part x (s.nodes n) (.batch addOk r.2)) :
    Recovering M hX part n x ops covered s' := by
  obtain ⟨since, pos, furthest, i, j, taken, come, hfurthest, hpositions, hstep, hlive, hhome⟩ := h
  have harrive := hstep.arrive harrives
  have hconcern := @concerning_deliveries part n x r
  -- what the request does to the document
  have hnew : (s'.nodes n).live x =
      exec (docStep hX part x) ((s.nodes n).live x) (concerning part n x (deliveries r)) := by
    rw [hnode, hconcern, exec_docStep]
    split_ifs with hn
    · exact live_batch hX hhome.1 (hc hn)
    · rfl
  have hhome' : Homed part (s'.nodes n) ∧ Homed part (new (s'.nodes n).committed) := by
    rw [hnode]
    split_ifs with hn
    · exact homed_call hX hhome (hc hn)
    · exact hhome
  have hquiet (hnil : concerning part n x (deliveries r) = []) :
      Recovering M hX part n x ops covered s' := by
    simp only [hnil, ne_eq, not_true_eq_false, decide_false, Bool.or_false] at harrive
    refine ⟨since, pos, furthest, i, j, taken, come, hfurthest, hpositions, harrive, ?_, hhome'⟩
    rw [hnew, hnil]
    exact hlive
  by_cases hnil : concerning part n x (deliveries r) = []
  · exact hquiet hnil
  have hlast : concerning part n x (deliveries r) = Run.part ops i j :=
    (hstep.requests r hr).resolve_left hnil
  simp only [hnil, ne_eq, not_false_eq_true, decide_true, Bool.or_true] at harrive
  rw [hlast] at hnew
  obtain ⟨hsince, hi, hj, hlength⟩ := hpositions.batch_le
  cases come with
  | true =>
    -- the batch has come before
    obtain rfl := hpositions.come_eq rfl
    rw [hlive.again (replays_of_inOrder hX hops) hsince hi] at hnew
    exact ⟨since, j, furthest, i, j, taken, true, hfurthest, hpositions, harrive, hnew ▸ hlive,
      hhome'⟩
  | false =>
    have hle : max furthest j ≤ ops.length := max_le hfurthest hlength
    by_cases hpos : i = pos
    · subst hpos
      exact ⟨since, j, max furthest j, i, j, taken, true, hle, hpositions.next, harrive,
        hnew ▸ hlive.next hj, hhome'⟩
    · -- the first batch of a process goes back to where it started
      obtain rfl : i = covered := (hpositions.coming rfl).2.resolve_left hpos
      exact ⟨i, j, max furthest j, i, j, taken, true, hle, hpositions.back, harrive,
        hnew ▸ hlive.back (replays_of_inOrder hX hops) hsince hi hj, hhome'⟩

/-- **An event of an orderly run** in which the operations are pushed in order. -/
theorem Recovering.step (h : Recovering M hX part n x ops covered s) (hops : InOrder ops)
    {ev : ClusterEvent} (hev : Orderly M X part n x s ev)
    (hpushed : concerning part n x (clusterStep M X s ev).net.pushed <+: ops.drop covered) :
    Recovering M hX part n x ops covered (clusterStep M X s ev) := by
  have hevent := nodeStep_step (M := M) (X := X) (n := n) s ev
  generalize clusterStep M X s ev = s' at hevent hpushed
  cases hevent with
  | same hnet hnode =>
    rw [Recovering, hnet, hnode]
    exact h
  | arrive r addOk hr harrives hcall hnode =>
    exact h.arrive hops hr harrives hnode fun hn => hev.call _ (hcall hn)
  | node e hcall hnet hnode =>
    obtain ⟨since, pos, furthest, i, j, taken, come, hfurthest, hpositions, hstep, hlive,
      hhome⟩ := h
    have hsound := hev.call _ hcall
    have hnone : e.call.operations = [] := by cases e <;> rfl
    have hsame := live_call hX hhome.1 hsound
    rw [hnone] at hsame
    rw [Recovering, hnet, hnode]
    exact ⟨since, pos, furthest, i, j, taken, come, hfurthest, hpositions, hstep, hsame ▸ hlive,
      homed_call hX hhome hsound⟩
  | net nev hnev hnet hreach hlate hnode =>
    obtain ⟨since, pos, furthest, i, j, taken, come, hfurthest, hpositions, hstep, hlive,
      hhome⟩ := h
    rw [Recovering, hnode]
    rcases hstep.net hnet (hev.reads nev hnev) (hev.alone nev hnev) hreach hlate with
      hsame | ⟨hcome, batch, htake⟩
    · exact ⟨since, pos, furthest, i, j, taken, come, hfurthest, hpositions, hsame, hlive, hhome⟩
    · -- the next batch is what follows in the log
      obtain ⟨-, -, hij, hj⟩ := hpositions.batch_le
      have hempty := hcome.imp_right (eq_of_part_eq_nil hij hj)
      obtain ⟨hcovered, -, hlength, -, -⟩ := hpositions.taken_le hempty
      have hbatch : batch <+: ops.drop taken := by
        have hprefix := (List.prefix_append _ _).trans (htake.pushed ▸ hpushed)
        rwa [← part_append_drop hcovered, List.prefix_append_right_inj] at hprefix
      have hpart := eq_part_of_prefix_drop hbatch
      have hle : taken + batch.length ≤ ops.length := by
        have := hbatch.length_le
        rw [List.length_drop] at this
        omega
      rw [hpart, part_append hcovered (Nat.le_add_right ..)] at htake
      exact ⟨since, pos, furthest, taken, _, _, false, hfurthest,
        hpositions.take hempty ⟨Nat.le_add_right .., hle⟩, htake, hlive, hhome⟩

/-! ## A crash -/

theorem inStep_restart {s : Network} {late : List Request} {last : List IndexOperation}
    {come : Bool} (hrequests : ∀ r ∈ late, concerning part n x (deliveries r) = [] ∨
      concerning part n x (deliveries r) = last)
    (hwaiting : come = false → last ≠ [] →
      ∃ r ∈ late, concerning part n x (deliveries r) = last) :
    InStep M part n x (s.restart M late) [] last come where
  pushed := rfl
  requests := hrequests
  waiting := hwaiting
  running i hi := by cases hi
  reached i hi := by cases hi

/-- The operations that are settled have come before the node's position, and before a batch
    that is still to come. -/
theorem settled_before {since pos i j taken covered' : ℕ} {come : Bool} (hnodup : ops.Nodup)
    (hpositions : Positions ops.length covered since pos i j taken come)
    (hstep : InStep M part n x s.net (Run.part ops covered taken) (Run.part ops i j) come)
    (hcovered : covered' ≤ ops.length)
    (hsettled : ∀ o ∈ Run.part ops covered covered', Settled M part n x s.net o) :
    covered' ≤ pos ∧ (come = false → i < j → covered' ≤ i) := by
  obtain ⟨⟨-, hcp, -⟩, ⟨-, hip, -, hj⟩, hcome_eq, hcoming, htaken⟩ := hpositions
  -- an operation that is settled is taken, and not in the batch that is to come
  have hout (m : ℕ) (hm : m < covered') (hle : covered ≤ m) :
      m < taken ∧ (come = false → ¬ (i ≤ m ∧ m < j)) := by
    have hlt : m < ops.length := hm.trans_le hcovered
    obtain ⟨hpushed, hbuffered, hrequests⟩ :=
      hsettled _ ((getElem_mem_part_iff hnodup hlt).2 ⟨hle, hm⟩)
    rw [hstep.pushed] at hpushed
    have hmem := (List.mem_append.1 hpushed).resolve_right hbuffered
    refine ⟨((getElem_mem_part_iff hnodup hlt).1 hmem).2, fun hcome hin => ?_⟩
    have hlast := (getElem_mem_part_iff hnodup hlt).2 hin
    obtain ⟨r, hr, hc⟩ := hstep.waiting hcome (List.ne_nil_of_mem hlast)
    exact hrequests r hr (hc ▸ hlast)
  constructor
  · by_contra hlt
    obtain ⟨htake, hnot⟩ := hout pos (by omega) hcp
    cases come with
    | true =>
      have := hcome_eq rfl
      omega
    | false => exact hnot rfl (by omega)
  · intro hcome hij
    by_contra hlt
    exact (hout i (by omega) (hcoming hcome).1).2 hcome ⟨le_refl _, hij⟩

/-- **A crash of the ingestor** and its start from a checkpoint that covers settled operations
    only. -/
theorem Recovering.restart (h : Recovering M hX part n x ops covered s) (hnodup : ops.Nodup)
    {covered' : ℕ} (hcovered : covered ≤ covered' ∧ covered' ≤ ops.length)
    (hsettled : ∀ o ∈ Run.part ops covered covered', Settled M part n x s.net o)
    {late : List Request} (hlate : late ⊆ s.net.sent) :
    Recovering M hX part n x ops covered' (s.restart M late) := by
  obtain ⟨since, pos, furthest, i, j, taken, come, hfurthest, hpositions, hstep, hlive, hhome⟩ := h
  obtain ⟨hpos, hbatch⟩ := settled_before hnodup hpositions hstep hcovered.2 hsettled
  have hrequests (r : Request) (hr : r ∈ late) := hstep.requests r (sent_subset _ (hlate hr))
  obtain ⟨⟨hsince, -, -⟩, ⟨hi, hip, hij, hj⟩, hcome_eq, hcoming, -⟩ := hpositions
  by_cases hkept : ∃ r ∈ late, concerning part n x (deliveries r) ≠ []
  · -- the last batch of a former process may still come
    obtain ⟨r, hr, hne⟩ := hkept
    have hlast := (hrequests r hr).resolve_left hne
    have hlt : i < j := by
      by_contra hnot
      rw [Nat.le_antisymm hij (Nat.le_of_not_lt hnot), part_self] at hlast
      exact hne hlast
    have hcj : covered' ≤ j := by
      cases come with
      | true => exact hpos.trans (hcome_eq rfl).ge
      | false => exact (hbatch rfl hlt).trans hij
    have hcoming' (hcome : come = false) : covered' ≤ i ∧ (i = pos ∨ i = covered') := by
      have := hbatch hcome hlt
      have := hcoming hcome
      omega
    have hin : InStep M part n x (s.net.restart M late) (Run.part ops covered' covered')
        (Run.part ops i j) come := by
      rw [part_self]
      exact inStep_restart hrequests fun _ _ => ⟨r, hr, hlast⟩
    exact ⟨since, pos, furthest, i, j, covered', come, hfurthest,
      ⟨⟨hsince.trans hcovered.1, hpos, hcj⟩, ⟨hi, hip, hij, hj⟩, hcome_eq, hcoming', Or.inl rfl⟩,
      hin, hlive, hhome⟩
  · -- nothing of the document is under way
    have hnothing (r : Request) (hr : r ∈ late) : concerning part n x (deliveries r) = [] := by
      by_contra hne
      exact hkept ⟨r, hr, hne⟩
    have hin : InStep M part n x (s.net.restart M late) (Run.part ops covered' covered')
        (Run.part ops pos pos) true := by
      rw [part_self, part_self]
      exact inStep_restart (fun r hr => Or.inl (hnothing r hr)) nofun
    exact ⟨since, pos, furthest, pos, pos, covered', true, hfurthest,
      ⟨⟨hsince.trans hcovered.1, hpos, hpos⟩, ⟨hlive.since_le, le_refl _, le_refl _,
        hlive.pos_le.trans hfurthest⟩, fun _ => rfl, nofun, Or.inl rfl⟩, hin, hlive, hhome⟩

/-- **A session**: a crash, a start from the checkpoint, and the run until the next crash. -/
theorem Recovering.session {s : Resumed} (h : Recovering M hX part n x ops s.covered s.cluster)
    (hops : InOrder ops) (hnodup : ops.Nodup) {c : Session} (hc : Resumes M X part n x ops s c) :
    Recovering M hX part n x ops (sessionStep M X s c).covered (sessionStep M X s c).cluster := by
  have hstart := h.restart hnodup hc.covered hc.settled hc.late
  have hback (s : Cluster) (ev : ClusterEvent)
      (h : concerning part n x (clusterStep M X s ev).net.pushed <+: ops.drop c.covered) :
      concerning part n x s.net.pushed <+: ops.drop c.covered :=
    (((pushed_grows s ev).filter _).map _).trans h
  have hall := (along_of_exec (Q := fun s : Cluster =>
    concerning part n x s.net.pushed <+: ops.drop c.covered) hback hc.pushed).and hc.orderly
  exact hall.inv (I := Recovering M hX part n x ops c.covered)
    (fun s ev h hev => h.step hops hev.2 hev.1) hstart

/-- **Crashes leave no trace.**  Let the operations on the document `x` be distinct and in the
    order of their writetimes, where several may have the same.  Let an ingestor crash and be
    started again any number of times, each time from a checkpoint that covers none of them that
    was in the buffer, to be sent or under way, and let each process push the operations that
    follow in order, and its run be orderly.  Once the last process has delivered all there are,
    and no request with operations on `x` is under way, the node has the document after each
    operation once, whatever was delivered again or came late. -/
theorem recovers (hX : X.Lawful) (hops : InOrder ops) (hnodup : ops.Nodup) {cs : List Session}
    (hcs : Along (sessionStep M X) (Resumes M X part n x ops) resumedStart cs) :
    let s := exec (sessionStep M X) resumedStart cs
    concerning part n x s.cluster.net.pushed = ops.drop s.covered →
      concerning part n x (buffered M s.cluster.net.state.shared) = [] →
      (∀ r ∈ s.cluster.net.requests, concerning part n x (deliveries r) = []) →
      (s.cluster.nodes n).live x = docsAfter hX part x ops := by
  intro s hpushed hbuffered hnothing
  have hinv : Recovering M hX part n x ops s.covered s.cluster :=
    hcs.inv (I := fun s : Resumed => Recovering M hX part n x ops s.covered s.cluster)
      (fun s c h hc => h.session hops hnodup hc) (recovering_start hX)
  obtain ⟨since, pos, furthest, i, j, taken, come, hfurthest, hpositions, hstep, hlive, -⟩ := hinv
  obtain ⟨-, -, hij, hj⟩ := hpositions.batch_le
  have hcome := (hstep.come_or hnothing).imp_right (eq_of_part_eq_nil hij hj)
  -- all has been taken, and has come
  have hall : ops.length ≤ pos := by
    obtain ⟨hcovered, htaken, hlength, -, -⟩ := hpositions.taken_le hcome
    have hpart := hstep.pushed
    rw [hbuffered, List.append_nil, hpushed] at hpart
    have := congrArg List.length hpart
    rw [List.length_drop, length_part hlength] at this
    omega
  rw [hlive.caught_up (hfurthest.trans hall), List.take_of_length_le hall, exec_docStep]
  rfl

/-- The first insert is settled when the ingestor crashes, and the second under way; it reaches
    the node before the next process sends it again. -/
def sampleSessions : List Session :=
  let send : List ClusterEvent :=
    [.act 0 .tick, .act 0 (.proceed 0), .reach 0 (fun _ => true), .answer 0 0]
  [⟨0, [], .newConsumer :: sampleInserts 0x1419d6801dd211b28000000000000000 ++ send ++
      sampleInserts 0x14b26d001dd211b28000000000000000 ++ [.act 0 .tick, .act 0 (.proceed 0)]⟩,
    ⟨1, [("node", [(sampleUpsert "14b26d00-1dd2-11b2-8000-000000000000" 2000000).operation])],
      .newConsumer :: sampleInserts 0x14b26d001dd211b28000000000000000 ++
        [.reachLate 0 (fun _ => true), .node "node" (.commit .ok), .node "node" .reload] ++ send⟩]

theorem recovers_sample :
    ((exec (sessionStep sampleUpsertIngestor sampleUpsertCrates) resumedStart
      sampleSessions).cluster.nodes "node").live "x:2:3" =
        docsAfter sampleUpsertCrates_lawful (fun _ => "x") "x:2:3"
          (sampleUpserts.map fun p => p.1.operation) :=
  @recovers sampleUpsertIngestor sampleUpsertCrates (fun _ => "x") "node" "x:2:3"
    (sampleUpserts.map fun p => p.1.operation) sampleUpsertCrates_lawful (by decide +kernel)
    (by decide +kernel) sampleSessions (by decide +kernel) (by decide +kernel)
    (by decide +kernel) (by decide +kernel)

end Cluster

end Tantylla
