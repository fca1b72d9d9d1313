/-
  A batch that failed midway and is delivered again.

  An upsert enters its document into the cache and deletes the old one before it calls
  `add_document`.  When that call fails, the batch ends with the upsert half done, and
  the next delivery finds the document in the cache and takes the upsert for stale.
  `retry_iff`: that does not happen, and the second delivery ends as one successful one
  would, iff a delete of its partition before the upsert takes the document out of the
  cache again.
-/
import Tantylla.Node.Replay

namespace Tantylla

namespace Engine

variable {part : String → String} {X : Crates} {s : Engine} {id : String}

/-! ## Where a batch fails -/

theorem processLoop_eq_none {ok : ℕ → Bool} {ops : List IndexOperation} :
    ∀ {i : ℕ} {s : Engine} {p k : ℕ}, (processLoop X ok i s p k ops).2 = none →
      ∃ pre u post d, ops = pre ++ u :: post ∧ u.type = .upsert ∧ ok (i + pre.length) = false ∧
        storedDoc X (Run.exec (opStep X) s pre) u = some d ∧
        ¬ isStale ((Run.exec (opStep X) s pre).findCachedOrIndexed u.id) u.writetime ∧
        (processLoop X ok i s p k ops).1 = staged X (Run.exec (opStep X) s pre) u := by
  induction ops with
  | nil =>
    intro i s p k h
    cases h
  | cons o ops ih =>
    intro i s p k h
    have ho := processOp_step X (ok i) s o
    have hne (hf : (processOp X (ok i) s o).2 ≠ .failed) := processOp_of_ne_failed hf
    rw [processLoop] at h ⊢
    generalize processOp X (ok i) s o = sr at ho hne h
    obtain ⟨s', r⟩ := sr
    cases r with
    | failed =>
      -- the batch fails here
      suffices hu : o.type = .upsert ∧ ok i = false ∧
          ¬ isStale (s.findCachedOrIndexed o.id) o.writetime ∧
          ∃ d, storedDoc X s o = some d ∧ s' = staged X s o by
        obtain ⟨ht, hok, hs, d, hd, rfl⟩ := hu
        exact ⟨[], o, ops, d, rfl, ht, hok, hd, hs, rfl⟩
      generalize hr : Outcome.failed = r at ho
      cases ho with
      | failed d ht hs hd hok => exact ⟨ht, hok, hs, d, hd, rfl⟩
      | _ => cases hr
    | processed | stale | rejected | ignored =>
      obtain ⟨pre, u, post, d, rfl, ht, hok, hu⟩ := ih h
      have hs' : s' = opStep X s o := hne (by simp)
      rw [hs'] at hu ⊢
      rw [Nat.add_assoc, Nat.add_comm 1] at hok
      exact ⟨o :: pre, u, post, d, rfl, ht, hok, hu⟩

theorem processLoop_true_isSome (ops : List IndexOperation) : ∀ (i : ℕ) (s : Engine) (p k : ℕ),
    (processLoop X (fun _ => true) i s p k ops).2.isSome := by
  induction ops with
  | nil => exact fun _ _ _ _ => rfl
  | cons o ops ih =>
    intro i s p k
    have ho := processOp_step X true s o
    rw [processLoop]
    generalize processOp X true s o = sr at ho
    obtain ⟨s', r⟩ := sr
    cases r with
    | failed =>
      generalize hr : Outcome.failed = r at ho
      cases ho with
      | failed _ _ _ _ hok => cases hok
      | _ => cases hr
    | processed | stale | rejected | ignored => exact ih ..

/-! ## The second delivery -/

/-- The operation `o`, after the operations `before` of its batch, is skipped as stale. -/
def TakenForStale (X : Crates) (ok : ℕ → Bool) (s : Engine) (before : List IndexOperation)
    (o : IndexOperation) : Prop :=
  (processOp X (ok before.length) (processBatch X ok s before).1 o).2 = .stale

/-- A batch was applied as far as `pre` in the state `s`, and left `half`.  Delivered again, it
    ends with the live documents of one successful delivery, and drops none of the
    operations `rest` that were not applied: it takes one for stale only if a successful
    delivery does. -/
structure RetrySafe (X : Crates) (ok : ℕ → Bool) (s half : Engine)
    (pre rest : List IndexOperation) : Prop where
  live : ∀ id, (processBatch X ok half (pre ++ rest)).1.live id =
    (processBatch X (fun _ => true) s (pre ++ rest)).1.live id
  noneDropped : ∀ mid o post, rest = mid ++ o :: post →
    TakenForStale X ok half (pre ++ mid) o → TakenForStale X (fun _ => true) s (pre ++ mid) o

/-- The batch holds, before the upsert, a delete of its partition. -/
def ClearedBefore (pre : List IndexOperation) (u : IndexOperation) : Prop :=
  ∃ o ∈ pre, o.type = .partitionDelete ∧ o.partition = u.partition

theorem takenForStale_iff {ok : ℕ → Bool} {before rest : List IndexOperation}
    {o : IndexOperation} (h : (processBatch X ok s (before ++ rest)).2.isSome) :
    TakenForStale X ok s before o ↔ (o.type = .upsert ∨ o.type = .delete) ∧
      isStale ((Run.exec (opStep X) s before).findCachedOrIndexed o.id) o.writetime := by
  rw [TakenForStale, processBatch_of_isSome (processBatch_isSome_left h)]
  constructor
  · intro hr
    have ho := processOp_step X (ok before.length) (Run.exec (opStep X) s before) o
    rw [hr] at ho
    generalize (processOp X (ok before.length) (Run.exec (opStep X) s before) o).1 = s' at ho
    generalize Run.exec (opStep X) s before = t at ho
    cases ho with
    | stale ht hs => exact ⟨ht, hs⟩
  · rintro ⟨ht, hs⟩
    rw [processOp_of_stale X _ ht hs]

/-- A cached document stays in the cache as long as its partition is not deleted and nothing
    newer comes. -/
theorem cached_stays {ops : List IndexOperation} {c : Doc}
    (hops : ∀ o ∈ ops, o.writetime ≤ c.writetime ∧
      (o.type = .partitionDelete → c.partitionKey ≠ o.partition))
    (h : s.uncommittedDocs.get? id = some c) :
    (Run.exec (opStep X) s ops).uncommittedDocs.get? id = some c := by
  refine (Run.along_of_forall hops).inv
    (I := fun t : Engine => t.uncommittedDocs.get? id = some c) (fun t o ht ho => ?_) h
  obtain ⟨hle, hpd⟩ := ho
  by_cases hid : (o.type = .upsert ∨ o.type = .delete) ∧ o.id = id
  · have hst : isStale (t.findCachedOrIndexed o.id) o.writetime :=
      isStale_iff.2 ⟨c, find_of_cached (hid.2 ▸ ht), hle⟩
    rw [opStep, processOp_of_stale X true hid.1 hst]
    exact ht
  · refine ((processOp_step X true t o).cached_of_other (fun ht hid' => hid ⟨ht, hid'⟩)
      fun htype c' hc' => ?_).trans ht
    obtain rfl : c = c' := Option.some.inj (ht.symm.trans hc')
    exact hpd htype

theorem clear_mem {r : Option Doc} {ops : List IndexOperation} :
    Register.Op.clear ∈ ops.filterMap (cellOp X r part id) ↔
      ∃ o ∈ ops, o.type = .partitionDelete ∧ o.partition = part id := by
  rw [List.mem_filterMap]
  constructor
  · rintro ⟨o, ho, hc⟩
    rcases cellOp_cases hc with ⟨-, -, h⟩ | ⟨-, -, h⟩ | ⟨ht, hpk, -⟩
    · cases h
    · cases h
    · exact ⟨o, ho, ht, hpk⟩
  · rintro ⟨o, ho, ht, hpk⟩
    exact ⟨o, ho, by simp [cellOp, ht, hpk]⟩

section
variable {pre post : List IndexOperation} {u : IndexOperation}

theorem cell_staged (X : Crates) (t : Engine) (u : IndexOperation) (id : String) :
    (staged X t u).cell id =
      if u.id = id then ⟨some (upsertDoc X t u).content, []⟩ else t.cell id :=
  cell_of_upsert X t u (live_staged ..) rfl

theorem snapshot_staged (X : Crates) (s : Engine) (pre : List IndexOperation) (u : IndexOperation)
    (id : String) : (staged X (Run.exec (opStep X) s pre) u).snapshot id = s.snapshot id := by
  rw [snapshot, reader_staged, (frame_exec X s pre).1]; rfl

/-- **The upsert is dropped** when it comes again, unless its partition is deleted before. -/
theorem stale_again (hord : InOrder (pre ++ u :: post)) (hc : ¬ ClearedBefore pre u) (t : Engine) :
    isStale ((Run.exec (opStep X) (staged X t u) pre).findCachedOrIndexed u.id) u.writetime := by
  have hcached : (staged X t u).uncommittedDocs.get? u.id = some (upsertDoc X t u) :=
    OrdMap.get?_insert_self ..
  refine isStale_iff.2 ⟨_, find_of_cached (cached_stays (fun o ho => ⟨?_, ?_⟩) hcached), le_rfl⟩
  · exact (List.pairwise_append.1 hord).2.2 o ho u (List.mem_cons_self ..)
  · exact fun ht hpk => hc ⟨o, ho, ht, hpk.symm⟩

/-- **A delete of the partition makes up for the failure**: once it has run again, every id is
    as it was after the operations before the upsert. -/
theorem cell_again (hX : X.Lawful) (hs : Homed part s)
    (hops : ∀ o ∈ pre ++ u :: post, KeepsHome part o) (hord : InOrder (pre ++ u :: post))
    (ht : u.type = .upsert) (hc : ClearedBefore pre u)
    (hhalf : Homed part (staged X (Run.exec (opStep X) s pre) u)) (id : String) :
    (Run.exec (opStep X) (staged X (Run.exec (opStep X) s pre) u) pre).cell id =
      (Run.exec (opStep X) s pre).cell id := by
  have hpre : ∀ o ∈ pre, KeepsHome part o := fun o ho => hops o (List.mem_append_left _ ho)
  have hfirst := cell_exec hX (fun _ => ⟨hs, hpre⟩) id
  rw [cell_exec hX (fun _ => ⟨hhalf, hpre⟩), snapshot_staged, cell_staged]
  split_ifs with hid
  · -- the register of the upsert's id is cleared
    obtain ⟨o, ho, hto, hpk⟩ := hc
    have hpart : o.partition = part id := by rw [hpk, ← hid]; exact hops u (by simp) ht
    rw [hfirst]
    exact Register.exec_of_clear (clear_mem.2 ⟨o, ho, hto, hpart⟩) _ _
  · -- any other one is as the first delivery left it
    rw [hfirst, Register.exec_replay (ordered_cells (List.pairwise_append.1 hord).1)]

/-- From there on the second delivery goes as a successful one. -/
theorem retrySafe_of_cleared (hX : X.Lawful) (hs : Homed part s)
    (hops : ∀ o ∈ pre ++ u :: post, KeepsHome part o) (hord : InOrder (pre ++ u :: post))
    (ht : u.type = .upsert) (hc : ClearedBefore pre u) {ok : ℕ → Bool} {half : Engine}
    (hhalf : half = staged X (Run.exec (opStep X) s pre) u) (hhome : Homed part half)
    (h₂ : (processBatch X ok half (pre ++ u :: post)).2.isSome) :
    RetrySafe X ok s half pre (u :: post) := by
  subst hhalf
  have hpre : ∀ o ∈ pre, KeepsHome part o := fun o ho => hops o (List.mem_append_left _ ho)
  have hsnap (ops : List IndexOperation) (id : String) :
      (Run.exec (opStep X) (staged X (Run.exec (opStep X) s pre) u) ops).snapshot id =
        (Run.exec (opStep X) s ops).snapshot id := by
    rw [snapshot_exec, snapshot_exec, snapshot_staged]
  have hcell {mid : List IndexOperation} (hmid : mid ⊆ u :: post) (id : String) :
      (Run.exec (opStep X) (staged X (Run.exec (opStep X) s pre) u) (pre ++ mid)).cell id =
        (Run.exec (opStep X) s (pre ++ mid)).cell id := by
    have hkeep : ∀ o ∈ mid, KeepsHome part o := fun o ho =>
      hops o (List.mem_append_right _ (hmid ho))
    rw [Run.exec_append, Run.exec_append, cell_exec hX (fun _ => ⟨hhome.exec hX hpre, hkeep⟩),
      cell_exec hX (fun _ => ⟨hs.exec hX hpre, hkeep⟩), hsnap,
      cell_again hX hs hops hord ht hc hhome]
  refine ⟨fun id => ?_, fun mid o rest hrest hstale => ?_⟩
  · rw [processBatch_of_isSome h₂, processBatch_of_isSome (processLoop_true_isSome ..)]
    exact congrArg Cell.live (hcell (List.Subset.refl _) id)
  · rw [hrest, ← List.append_assoc] at h₂
    rw [takenForStale_iff h₂] at hstale
    rw [takenForStale_iff (processLoop_true_isSome (pre ++ mid ++ o :: rest) ..)]
    refine ⟨hstale.1, ?_⟩
    rw [← stale_cells, ← hcell (hrest ▸ List.subset_append_left ..), ← hsnap, stale_cells]
    exact hstale.2

end

/-- **Retry.**  A batch in writetime order whose `add_document` fails, for the upsert `u`, leaves
    every operation before `u` applied and `u` half done.  A second delivery that is
    answered is safe only if the batch holds a delete of the partition of `u` before it; and
    it is safe then, if each id stays in one partition. -/
theorem retry_iff (hX : X.Lawful) {ops : List IndexOperation} {ok₁ ok₂ : ℕ → Bool}
    (hord : InOrder ops) (h₁ : (processBatch X ok₁ s ops).2 = none)
    (h₂ : (processBatch X ok₂ (processBatch X ok₁ s ops).1 ops).2.isSome) :
    ∃ pre u post, ops = pre ++ u :: post ∧ u.type = .upsert ∧ ok₁ pre.length = false ∧
      (processBatch X ok₁ s ops).1 = staged X (processBatch X (fun _ => true) s pre).1 u ∧
      (RetrySafe X ok₂ s (processBatch X ok₁ s ops).1 pre (u :: post) → ClearedBefore pre u) ∧
      ∀ part, HomedFor part s ops → ClearedBefore pre u →
        RetrySafe X ok₂ s (processBatch X ok₁ s ops).1 pre (u :: post) := by
  obtain ⟨pre, u, post, d, rfl, ht, hok, hd, hst, hfail⟩ := processLoop_eq_none h₁
  rw [Nat.zero_add] at hok
  change (processBatch X ok₁ s (pre ++ u :: post)).1 = _ at hfail
  refine ⟨pre, u, post, rfl, ht, hok, ?_, fun hsafe => ?_, fun part hs hc => ?_⟩
  · rw [hfail, processBatch_of_isSome (processLoop_true_isSome ..)]
  · -- otherwise the second delivery drops the upsert, and a successful one does not
    by_contra hc
    have hdropped := hsafe.noneDropped [] u post rfl
    rw [List.append_nil, takenForStale_iff h₂,
      takenForStale_iff (processLoop_true_isSome (pre ++ u :: post) ..), hfail] at hdropped
    exact hst (hdropped ⟨Or.inl ht, stale_again hord hc _⟩).2
  · obtain ⟨o, ho, hto, -⟩ := id hc
    obtain ⟨hhome, hops⟩ := hs ⟨o, List.mem_append_left _ ho, hto⟩
    have hpre := hhome.exec hX fun o ho => hops o (List.mem_append_left _ ho)
    refine retrySafe_of_cleared hX hhome hops hord ht hc hfail ?_ h₂
    rw [hfail]
    exact hpre.op hX (hops u (by simp)) (.failed d ht hst hd rfl)

/-- An upsert that fails, in a batch that deletes its partition before it. -/
theorem retry_iff_cleared :
    let pd := sampleOp .partitionDelete "p" "p" 1 ""
    let u := sampleOp .upsert "a" "p" 2 "\x7b\"a\":1\x7d"
    let half := (processBatch sampleCrates (fun _ => false) (new []) [pd, u]).1
    RetrySafe sampleCrates (fun _ => true) (new []) half [pd] [u] := by
  intro pd u half
  obtain ⟨pre, u', post, hops, ht, -, -, -, hsafe⟩ := @retry_iff sampleCrates (new [])
    sampleCrates_lawful [pd, u] (fun _ => false) (fun _ => true) (by decide) (by decide)
    (by decide)
  -- it is the upsert that has failed
  obtain ⟨rfl, rfl, rfl⟩ : pre = [pd] ∧ u' = u ∧ post = [] := by
    match pre, hops with
    | [], hops =>
      cases hops
      exact absurd ht (by decide)
    | [_], hops =>
      cases hops
      exact ⟨rfl, rfl, rfl⟩
    | _ :: _ :: _, hops => simp at hops
  exact hsafe (fun _ => "p") (fun _ => ⟨homed_new _, by simp [KeepsHome, pd, u, sampleOp,
    IndexOperation.partition]⟩) ⟨pd, List.mem_singleton_self _, rfl, rfl⟩

/-- An upsert that fails by itself is taken for stale when it is delivered again, and its
    row is missing. -/
theorem retry_drops_upsert :
    let u := sampleOp .upsert "a" "p" 1 "\x7b\"a\":1\x7d"
    let s := processBatch sampleCrates (fun _ => false) (new []) [u]
    let t := processBatch sampleCrates (fun _ => true) s.1 [u]
    let t' := processBatch sampleCrates (fun _ => true) (new []) [u]
    s.2 = none ∧ t.2 = some ⟨0, 1, true⟩ ∧ t.1.live "a" = [] ∧
      t'.2 = some ⟨1, 0, true⟩ ∧ t'.1.live "a" ≠ [] ∧
      TakenForStale sampleCrates (fun _ => true) s.1 [] u ∧
      ¬ TakenForStale sampleCrates (fun _ => true) (new []) [] u ∧
      ¬ RetrySafe sampleCrates (fun _ => true) (new []) s.1 [] [u] := by
  intro u s t t'
  have hdropped : TakenForStale sampleCrates (fun _ => true) s.1 [] u := by
    unfold TakenForStale
    decide
  have hprocessed : ¬ TakenForStale sampleCrates (fun _ => true) (new []) [] u := by
    unfold TakenForStale
    decide
  exact ⟨by decide, by decide, by decide, by decide, by decide, hdropped, hprocessed,
    fun h => hprocessed (h.noneDropped [] u [] rfl hdropped)⟩

end Engine

end Tantylla
