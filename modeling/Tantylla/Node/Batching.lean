/-
  How operations are cut into batches, and where the ticks fall.

  To a document the operations on it matter, in their order, and nothing else.
  `batches_join`: batches that are answered do what one batch of all their operations does,
  and their counts add up.  `batches_commute`: operations on different documents may come in
  any order, in any batches.  `layers_of_calls`: if the lookups of a document are current
  the same holds across commits, reloads and restarts; each layer of the node shows the
  register of the document after the operations of the first calls, as many as it has seen.
-/
import Tantylla.Node.Counts
import Tantylla.Node.Retry
import Tantylla.Node.Snapshots
import Mathlib.Algebra.GroupWithZero.Nat

namespace Tantylla

/-- The operation concerns the document `x`: it is an upsert or a delete of it, or a delete of
    its partition. -/
def IndexOperation.Concerns (part : String → String) (x : String) (o : IndexOperation) : Bool :=
  match o.type with
  | .upsert | .delete => o.id = x
  | .partitionDelete => o.partition = part x
  | .unspecified => false

open Engine

variable {X : Crates} {part : String → String} {x : String}

/-! ## The documents after operations -/

/-- The documents of the id `x` after operations on it. -/
def docsAfter (hX : X.Lawful) (part : String → String) (x : String) (ops : List IndexOperation) :
    List TantivyDoc := Run.exec lives.act [] (ops.filterMap (liveOp hX part x))

theorem docsAfter_append (hX : X.Lawful) (ops ops' : List IndexOperation) :
    docsAfter hX part x (ops ++ ops') =
      Run.exec lives.act (docsAfter hX part x ops) (ops'.filterMap (liveOp hX part x)) := by
  rw [docsAfter, List.filterMap_append, Run.exec_append]
  rfl

/-- **Operations in order that are applied twice leave no trace.** -/
theorem docsAfter_again (hX : X.Lawful) (ops : List IndexOperation) {again : List IndexOperation}
    (hord : InOrder again) :
    Run.exec lives.act (docsAfter hX part x (ops ++ again)) (again.filterMap (liveOp hX part x)) =
      docsAfter hX part x (ops ++ again) := by
  rw [docsAfter_append]
  exact Register.exec_replay (ordered_filterMap (fun _ _ h => liveOp_version h) hord) _

/-- An operation that does not concern the document does not show. -/
theorem liveOp_eq_none (hX : X.Lawful) {o : IndexOperation} (h : o.Concerns part x = false) :
    liveOp hX part x o = none := by
  unfold IndexOperation.Concerns at h
  unfold liveOp
  cases ht : o.type with
  | upsert | delete =>
    simp only [ht, decide_eq_false_iff_not] at h
    exact if_neg h
  | partitionDelete =>
    simp only [ht, decide_eq_false_iff_not] at h
    exact if_neg h
  | unspecified => rfl

theorem filterMap_liveOp (hX : X.Lawful) (ops : List IndexOperation) :
    ops.filterMap (liveOp hX part x) =
      (ops.filter (IndexOperation.Concerns part x)).filterMap (liveOp hX part x) := by
  rw [List.filterMap_filter]
  refine List.filterMap_congr fun o _ => ?_
  split_ifs with h
  · rfl
  · exact liveOp_eq_none hX (Bool.eq_false_of_not_eq_true h)

/-- Only the operations on the document matter. -/
theorem docsAfter_congr (hX : X.Lawful) {ops ops' : List IndexOperation}
    (h : ops.filter (IndexOperation.Concerns part x) =
      ops'.filter (IndexOperation.Concerns part x)) :
    docsAfter hX part x ops = docsAfter hX part x ops' := by
  rw [docsAfter, docsAfter, filterMap_liveOp, h, ← filterMap_liveOp]

namespace Engine

/-! ## One batch or several -/

/-- A batch, with how `add_document` goes for its operations. -/
abbrev Batch := (ℕ → Bool) × List IndexOperation

def batchStep (X : Crates) (s : Engine) (b : Batch) : Engine := (processBatch X b.1 s b.2).1

/-- The batch is answered with `Ok`. -/
def Answered (X : Crates) (s : Engine) (b : Batch) : Prop := (processBatch X b.1 s b.2).2.isSome

instance (s : Engine) (b : Batch) : Decidable (Answered X s b) :=
  inferInstanceAs (Decidable (_ = true))

/-- The responses to the batches, one after the other. -/
def responses (X : Crates) : Engine → List Batch → List IndexBatchResponse
  | _, [] => []
  | s, b :: bs => (processBatch X b.1 s b.2).2.toList ++ responses X (batchStep X s b) bs

theorem exec_batchStep {bs : List Batch} {s : Engine}
    (h : Run.Along (batchStep X) (Answered X) s bs) :
    Run.exec (batchStep X) s bs = Run.exec (opStep X) s (bs.flatMap Prod.snd) := by
  induction bs generalizing s with
  | nil => rfl
  | cons b bs ih =>
    rw [Run.exec_cons, ih h.2, List.flatMap_cons, Run.exec_append, batchStep,
      processBatch_of_isSome h.1]

/-- What becomes of the operations, one after the other. -/
def outcomes (X : Crates) : Engine → List IndexOperation → List Outcome
  | _, [] => []
  | s, o :: ops => (processOp X true s o).2 :: outcomes X (opStep X s o) ops

theorem outcomes_append (s : Engine) (ops ops' : List IndexOperation) :
    outcomes X s (ops ++ ops') =
      outcomes X s ops ++ outcomes X (Run.exec (opStep X) s ops) ops' := by
  induction ops generalizing s with
  | nil => rfl
  | cons o ops ih => rw [List.cons_append, outcomes, ih, outcomes, List.cons_append, Run.exec_cons]

/-- An operation that does not fail does what it does when `add_document` succeeds. -/
theorem outcome_of_ne_failed {addOk : Bool} {s : Engine} {o : IndexOperation}
    (h : (processOp X addOk s o).2 ≠ .failed) :
    (processOp X addOk s o).2 = (processOp X true s o).2 := by
  cases addOk with
  | true => rfl
  | false =>
    unfold processOp at h ⊢
    cases ht : o.type with
    | upsert =>
      rw [ht] at h
      unfold upsert at h ⊢
      by_cases hs : isStale (s.findCachedOrIndexed o.id) o.writetime
      · simp only [hs, if_true]
      · cases hd : storedDoc X s o with
        | none => simp only [hs]
        | some d => simp [hs, hd] at h
    | delete | partitionDelete | unspecified => rfl

/-- The response to a batch that is answered. -/
def tally (p k : ℕ) (rs : List Outcome) : IndexBatchResponse :=
  ⟨p + rs.count .processed, k + rs.countP (· ≠ .processed), true⟩

theorem processLoop_answered {addOk : ℕ → Bool} {ops : List IndexOperation} :
    ∀ {i : ℕ} {s : Engine} {p k : ℕ}, (processLoop X addOk i s p k ops).2.isSome →
      (processLoop X addOk i s p k ops).2 = some (tally p k (outcomes X s ops)) := by
  induction ops with
  | nil => exact fun _ => rfl
  | cons o ops ih =>
    intro i s p k h
    have hstate (hf : (processOp X (addOk i) s o).2 ≠ .failed) := processOp_of_ne_failed hf
    have hout (hf : (processOp X (addOk i) s o).2 ≠ .failed) := outcome_of_ne_failed hf
    rw [processLoop] at h ⊢
    rw [outcomes]
    cases hsr : processOp X (addOk i) s o with
    | mk s' r =>
      rw [hsr] at h hstate hout
      cases r with
      | failed => cases h
      | processed =>
        rw [← hstate (by simp), ← hout (by simp)]
        refine (ih h).trans ?_
        simp only [tally, List.count_cons_self, ne_eq, not_true_eq_false, decide_false,
          Bool.false_eq_true, not_false_eq_true, List.countP_cons_of_neg]
        rw [Nat.add_right_comm, Nat.add_assoc]
      | stale | rejected | ignored =>
        rw [← hstate (by simp), ← hout (by simp)]
        refine (ih h).trans ?_
        simp only [tally, ne_eq, reduceCtorEq, not_false_eq_true, List.count_cons_of_ne,
          decide_true, List.countP_cons_of_pos]
        rw [Nat.add_right_comm, Nat.add_assoc]

/-- **Batches that are answered are one batch.**  The batch of all their operations leaves the
    node as they do, and its counts are the sums of theirs. -/
theorem batches_join {s : Engine} {bs : List Batch}
    (h : Run.Along (batchStep X) (Answered X) s bs) :
    processBatch X (fun _ => true) s (bs.flatMap Prod.snd) =
      (Run.exec (batchStep X) s bs,
        some ⟨((responses X s bs).map IndexBatchResponse.processedCount).sum,
          ((responses X s bs).map IndexBatchResponse.skippedCount).sum, true⟩) := by
  have hcounts (bs : List Batch) : ∀ s, Run.Along (batchStep X) (Answered X) s bs →
      ((responses X s bs).map IndexBatchResponse.processedCount).sum =
        (outcomes X s (bs.flatMap Prod.snd)).count .processed ∧
      ((responses X s bs).map IndexBatchResponse.skippedCount).sum =
        (outcomes X s (bs.flatMap Prod.snd)).countP (· ≠ .processed) := by
    induction bs with
    | nil => exact fun _ _ => ⟨rfl, rfl⟩
    | cons b bs ih =>
      intro s h
      obtain ⟨hprocessed, hskipped⟩ := ih _ h.2
      have hresponse : (processBatch X b.1 s b.2).2 = some (tally 0 0 (outcomes X s b.2)) :=
        processLoop_answered h.1
      rw [responses, hresponse, List.flatMap_cons, outcomes_append,
        ← processBatch_of_isSome h.1]
      simp only [Option.toList_some, List.singleton_append, List.map_cons, List.sum_cons,
        List.count_append, List.countP_append]
      rw [hprocessed, hskipped]
      simp only [tally, Nat.zero_add]
      exact ⟨rfl, rfl⟩
  have hsome := processLoop_true_isSome (X := X) (bs.flatMap Prod.snd) 0 s 0 0
  refine Prod.ext ?_ ?_
  · rw [exec_batchStep h]
    exact processBatch_of_isSome hsome
  · obtain ⟨hprocessed, hskipped⟩ := hcounts bs s h
    rw [hprocessed, hskipped]
    exact (processLoop_answered hsome).trans (by rw [tally, Nat.zero_add, Nat.zero_add])

/-- The upsert of `a` and an older one come in two batches, the counts of one add up to two. -/
theorem batches_join_sample :
    processBatch sampleCrates (fun _ => true) (new [])
        [sampleOp .upsert "a" "p" 10 "\x7b\"a\":1\x7d",
          sampleOp .upsert "a" "p" 5 "\x7b\"b\":2\x7d"] =
      (Run.exec (batchStep sampleCrates) (new [])
        [(fun _ => true, [sampleOp .upsert "a" "p" 10 "\x7b\"a\":1\x7d"]),
          (fun _ => false, [sampleOp .upsert "a" "p" 5 "\x7b\"b\":2\x7d"])], some ⟨1, 1, true⟩) :=
  @batches_join sampleCrates (new [])
    [(fun _ => true, [sampleOp .upsert "a" "p" 10 "\x7b\"a\":1\x7d"]),
      (fun _ => false, [sampleOp .upsert "a" "p" 5 "\x7b\"b\":2\x7d"])] (by decide)

/-! ## Operations on different documents -/

instance (o : IndexOperation) : Decidable (KeepsHome part o) :=
  inferInstanceAs (Decidable (_ = _ → _ = _))

theorem cellOp_eq_none {r : Option Doc} {o : IndexOperation} (h : o.Concerns part x = false) :
    cellOp X r part x o = none := by
  unfold IndexOperation.Concerns at h
  unfold cellOp
  cases ht : o.type with
  | upsert | delete =>
    simp only [ht, decide_eq_false_iff_not] at h
    exact if_neg h
  | partitionDelete =>
    simp only [ht, decide_eq_false_iff_not] at h
    exact if_neg h
  | unspecified => rfl

theorem filterMap_cellOp {r : Option Doc} (ops : List IndexOperation) :
    ops.filterMap (cellOp X r part x) =
      (ops.filter (IndexOperation.Concerns part x)).filterMap (cellOp X r part x) := by
  rw [List.filterMap_filter]
  refine List.filterMap_congr fun o _ => ?_
  split_ifs with h
  · rfl
  · exact cellOp_eq_none (Bool.eq_false_of_not_eq_true h)

/-- **Operations on different documents commute.**  Between two commits, batches that have the
    same operations on the document, in the same order, leave it alike and let lookups find
    the same, however they are cut and whatever other operations stand between; where they
    delete partitions, each id is to be in one. -/
theorem batches_commute (hX : X.Lawful) {s : Engine} {bs bs' : List Batch}
    (h : Run.Along (batchStep X) (Answered X) s bs)
    (h' : Run.Along (batchStep X) (Answered X) s bs')
    (hhome : HomedFor part s (bs.flatMap Prod.snd))
    (hhome' : HomedFor part s (bs'.flatMap Prod.snd))
    (hsame : (bs.flatMap Prod.snd).filter (IndexOperation.Concerns part x) =
      (bs'.flatMap Prod.snd).filter (IndexOperation.Concerns part x)) :
    let t := Run.exec (batchStep X) s bs
    let t' := Run.exec (batchStep X) s bs'
    t.live x = t'.live x ∧
      (t.findCachedOrIndexed x).map Doc.content = (t'.findCachedOrIndexed x).map Doc.content := by
  intro t t'
  have hcell : t.cell x = t'.cell x := by
    show (Run.exec (batchStep X) s bs).cell x = (Run.exec (batchStep X) s bs').cell x
    rw [exec_batchStep h, exec_batchStep h', cell_exec hX hhome, cell_exec hX hhome',
      filterMap_cellOp, hsame, ← filterMap_cellOp]
  have hsnap : t.snapshot x = t'.snapshot x := by
    show (Run.exec (batchStep X) s bs).snapshot x = (Run.exec (batchStep X) s bs').snapshot x
    rw [exec_batchStep h, exec_batchStep h', snapshot_exec, snapshot_exec]
  refine ⟨congrArg Cell.live hcell, ?_⟩
  rw [find_content, find_content, hcell, hsnap]

/-- An operation on `b` comes after the one on `a` in the same batch, or before it in another. -/
theorem batches_commute_sample :
    let a := sampleOp .upsert "a" "p" 10 "\x7b\"a\":1\x7d"
    let b := sampleOp .upsert "b" "p" 20 "\x7b\"b\":2\x7d"
    (Run.exec (batchStep sampleCrates) (new []) [(fun _ => true, [a, b])]).live "a" =
      (Run.exec (batchStep sampleCrates) (new []) [(fun _ => true, [b]),
        (fun _ => true, [a])]).live "a" :=
  (@batches_commute sampleCrates (fun _ => "p") "a" sampleCrates_lawful (new [])
    [(fun _ => true, [sampleOp .upsert "a" "p" 10 "\x7b\"a\":1\x7d",
      sampleOp .upsert "b" "p" 20 "\x7b\"b\":2\x7d"])]
    [(fun _ => true, [sampleOp .upsert "b" "p" 20 "\x7b\"b\":2\x7d"]),
      (fun _ => true, [sampleOp .upsert "a" "p" 10 "\x7b\"a\":1\x7d"])]
    (by decide) (by decide) (fun _ => ⟨homed_new _, by decide⟩) (fun _ => ⟨homed_new _, by decide⟩)
    (by decide)).1

/-! ## Across commits, reloads and restarts -/

/-- What keeps a node in step on the document `x`: upserts carry the partition of their id, a
    batch with operations on it is answered and looks it up as it is, it does not expire, and a
    crash loses nothing of it. -/
def CallSound (X : Crates) (part : String → String) (x : String) (s : Engine) : Call → Prop
  | .batch addOk operations => (∀ o ∈ operations, KeepsHome part o) ∧
      ((∃ o ∈ operations, o.Concerns part x = true) →
        (processBatch X addOk s operations).2.isSome ∧
          Run.Along (opStep X) (CurrentAt x) s operations)
  | .commit _ | .reload => True
  | .prune now _ => ∀ d ∈ s.live x, now < d.expiresAt
  | .crash => docsOf x s.committed = s.live x

instance (s : Engine) (o : IndexOperation) : Decidable (CurrentAt x s o) :=
  inferInstanceAs (Decidable (_ ∨ _ → _ = _ → Current x s))

instance (s : Engine) : ∀ c, Decidable (CallSound X part x s c)
  | .batch _ operations => inferInstanceAs (Decidable ((∀ o ∈ operations, KeepsHome part o) ∧
      ((∃ o ∈ operations, o.Concerns part x = true) → _ ∧ Run.Along (opStep X) _ s operations)))
  | .commit _ | .reload => isTrue trivial
  | .prune now _ => inferInstanceAs (Decidable (∀ d ∈ s.live x, now < d.expiresAt))
  | .crash => inferInstanceAs (Decidable (docsOf x s.committed = s.live x))

/-- Every call leaves each id in its partition, before a crash and after it. -/
theorem homed_call (hX : X.Lawful) {s : Engine} {c : Call}
    (h : Homed part s ∧ Homed part (new s.committed)) (hc : CallSound X part x s c) :
    Homed part (callStep X s c) ∧ Homed part (new (callStep X s c).committed) := by
  rw [callStep_eq]
  have hevents : ∀ e ∈ c.events X s, EventKeepsHome part e := by
    intro e he
    cases c with
    | batch addOk ops =>
      obtain ⟨ok, o, ho, rfl⟩ := mem_batchEvents he
      exact hc.1 o ho
    | commit | reload | prune | crash => rw [List.mem_singleton.1 he]; trivial
  exact (Run.along_of_forall hevents).inv (I := fun t : Engine =>
    Homed part t ∧ Homed part (new t.committed)) (fun t e ht he => Homed.step hX t e ht he) h

theorem homed_calls (hX : X.Lawful) {cs : List Call}
    (hcs : Run.Along (callStep X) (CallSound X part x) (new []) cs) :
    Homed part (Run.exec (callStep X) (new []) cs) :=
  (hcs.inv (I := fun s : Engine => Homed part s ∧ Homed part (new s.committed))
    (fun _ _ hs hc => homed_call hX hs hc) ⟨homed_new part, homed_new part⟩).1

/-- **A batch acts on the document as its operations on it do.** -/
theorem live_batch (hX : X.Lawful) {s : Engine} (hs : Homed part s) {addOk : ℕ → Bool}
    {ops : List IndexOperation} (hc : CallSound X part x s (.batch addOk ops)) :
    (processBatch X addOk s ops).1.live x = Run.exec lives.act (s.live x)
      ((ops.filter (IndexOperation.Concerns part x)).filterMap (liveOp hX part x)) := by
  obtain ⟨hhome, hanswered⟩ := hc
  by_cases hconcern : ∃ o ∈ ops, o.Concerns part x = true
  · obtain ⟨hsome, hcur⟩ := hanswered hconcern
    rw [processBatch_of_isSome hsome, live_exec hX hs hhome hcur, ← filterMap_liveOp]
  · -- none of the operations that are executed touches the document
    have hother : ∀ o ∈ ops, o.Concerns part x = false := fun o ho =>
      Bool.eq_false_of_not_eq_true fun h => hconcern ⟨o, ho, h⟩
    have hnil : ops.filter (IndexOperation.Concerns part x) = [] :=
      List.filter_eq_nil_iff.2 fun o ho => by rw [hother o ho]; exact Bool.false_ne_true
    rw [hnil, processBatch_fst]
    have hops : ∀ e ∈ batchEvents X addOk 0 s ops, ∃ ok, ∃ o ∈ ops, e = .op ok o :=
      fun e he => mem_batchEvents he
    refine ((Run.along_of_forall hops).inv (I := fun t : Engine =>
      t.live x = s.live x ∧ Homed part t) (fun t e ht he => ?_) ⟨rfl, hs⟩).1
    obtain ⟨ok, o, ho, rfl⟩ := he
    have hstep := processOp_step X ok t o
    have hnot := hother o ho
    refine ⟨(hstep.live_of_other hX (fun ht' hid => ?_) fun ht' d hd hpk => ?_).trans ht.1,
      ht.2.op hX (hhome o ho) hstep⟩
    · rcases ht' with ht' | ht' <;> simp [IndexOperation.Concerns, ht', hid] at hnot
    · have hpart := (ht.2 x).1 d hd
      simp [IndexOperation.Concerns, ht', ← hpk, hpart] at hnot

/-- The operations of a call. -/
def Call.operations : Call → List IndexOperation
  | .batch _ ops => ops
  | .commit _ | .reload | .prune _ _ | .crash => []

/-- **A call acts on the document as its operations on it do.** -/
theorem live_call (hX : X.Lawful) {s : Engine} (hs : Homed part s) {c : Call}
    (hc : CallSound X part x s c) :
    (callStep X s c).live x = Run.exec lives.act (s.live x)
      (c.operations.filterMap (liveOp hX part x)) := by
  cases c with
  | batch addOk ops =>
    rw [Call.operations, filterMap_liveOp]
    exact live_batch hX hs hc
  | commit r => exact live_committerTick ..
  | reload => rfl
  | prune now r =>
    have hprune : (s.prune now).live x = s.live x := by
      rw [live_prune, List.filter_eq_self.2 fun d hd => by simpa using hc d hd]
    cases r with
    | ok | commitFailed => exact hprune
    | queryFailed | contended => rfl
  | crash => exact hc

theorem live_calls (hX : X.Lawful) {cs : List Call}
    (hcs : Run.Along (callStep X) (CallSound X part x) (new []) cs) :
    (Run.exec (callStep X) (new []) cs).live x =
      docsAfter hX part x (cs.flatMap Call.operations) := by
  suffices h : ∀ s : Engine, Homed part s ∧ Homed part (new s.committed) →
      Run.Along (callStep X) (CallSound X part x) s cs →
      (Run.exec (callStep X) s cs).live x = Run.exec lives.act (s.live x)
        ((cs.flatMap Call.operations).filterMap (liveOp hX part x)) from
    h (new []) ⟨homed_new part, homed_new part⟩ hcs
  clear hcs
  induction cs with
  | nil => exact fun _ _ _ => rfl
  | cons c cs ih =>
    intro s hs hcs
    rw [Run.exec_cons, ih _ (homed_call hX hs hcs.1) hcs.2, live_call hX hs.1 hcs.1,
      List.flatMap_cons, List.filterMap_append, Run.exec_append]

/-- **Each layer of a node is the register of the document.**  In every run of a node in which
    each id stays in one partition and whose calls look the document up as it is, answer the
    batches on it and lose nothing of it, the writer shows the document after all operations on
    it, and the last commit and the reader after those of the first calls, as many as they show;
    so where the operations are cut into batches, and where the commits and reloads fall between
    them, leaves no trace. -/
theorem layers_of_calls (hX : X.Lawful) {cs : List Call}
    (hcs : Run.Along (callStep X) (CallSound X part x) (new []) cs) :
    let s := Run.exec (callStep X) (new []) cs
    let first := fun k => (cs.take k).flatMap Call.operations
    s.live x = docsAfter hX part x (cs.flatMap Call.operations) ∧
      docsOf x s.committed = docsAfter hX part x (first (marks cs).committed) ∧
      docsOf x s.reader = docsAfter hX part x (first (marks cs).shown) ∧
      ∀ cs', Run.Along (callStep X) (CallSound X part x) (new []) cs' →
        (cs'.flatMap Call.operations).filter (IndexOperation.Concerns part x) =
          (cs.flatMap Call.operations).filter (IndexOperation.Concerns part x) →
        (Run.exec (callStep X) (new []) cs').live x = s.live x := by
  intro s first
  have hmarks := marked_run (X := X) [] cs
  have hafter (k : ℕ) : docsOf x (writerAfter X [] cs k) = docsAfter hX part x (first k) :=
    live_calls hX (hcs.take k)
  refine ⟨live_calls hX hcs, ?_, ?_, fun cs' hcs' hsame => ?_⟩
  · rw [hmarks.committed, hafter]
  · rw [hmarks.reader, hafter]
  · rw [live_calls hX hcs', live_calls hX hcs]
    exact docsAfter_congr hX hsame

/-- The second commit is not reloaded, so the reader shows the first operation only. -/
theorem layers_of_calls_sample :
    let cs : List Call := [.batch (fun _ => true) [sampleOp .upsert "a" "p" 10 "\x7b\"a\":1\x7d"],
      .commit .ok, .reload, .batch (fun _ => true) [sampleOp .upsert "a" "p" 20 "\x7b\"b\":2\x7d"],
      .commit .ok]
    docsOf "a" (Run.exec (callStep sampleCrates) (new []) cs).reader =
      docsAfter sampleCrates_lawful (fun _ => "p") "a"
        [sampleOp .upsert "a" "p" 10 "\x7b\"a\":1\x7d"] :=
  (@layers_of_calls sampleCrates (fun _ => "p") "a" sampleCrates_lawful
    [.batch (fun _ => true) [sampleOp .upsert "a" "p" 10 "\x7b\"a\":1\x7d"],
      .commit .ok, .reload, .batch (fun _ => true) [sampleOp .upsert "a" "p" 20 "\x7b\"b\":2\x7d"],
      .commit .ok] (by decide)).2.2.1

end Engine

end Tantylla
