/-
  What survives a crash.

  A response counts an operation as processed when it has reached the index writer;
  the writer is committed later, by the committer or by the pruner, and a crash loses
  what it held.  `acked_upsert_lost`: an acknowledged upsert can be lost.
  `reflected_after_commit`: once a commit has followed an operation, the operation is
  reflected in the index of every later restart, until it is superseded.
-/
import Tantylla.Node.Cell
import Tantylla.Node.Wrapper

namespace Tantylla

namespace Engine

/-- The operation `o`, processed in the state `s`, is reflected in the documents `l` of an
    id: the one an upsert stored, none after a delete, none of the partition after a
    partition delete. -/
def Reflected (X : Crates) (s : Engine) (o : IndexOperation) (l : List TantivyDoc) : Prop :=
  match o.type with
  | .upsert => ∃ d, storedDoc X s o = some d ∧ l = [d]
  | .delete => l = []
  | .partitionDelete => ∀ d ∈ l, d.partitionKey ≠ o.partition
  | .unspecified => True

/-- The operation `o'`, with the outcome `r`, supersedes `o` for `id`.  Of an upsert: an
    upsert on the id that is not stale, a delete of it that is processed, a delete of its
    partition; of a delete: a processed upsert on the id; of a partition delete: a processed
    upsert of the id into the partition. -/
def OpSupersedes (o : IndexOperation) (id : String) (o' : IndexOperation) (r : Outcome) : Prop :=
  match o.type with
  | .upsert => ((o'.type = .upsert ∨ o'.type = .delete) ∧ o'.id = id ∧ r ≠ .stale) ∨
    (o'.type = .partitionDelete ∧ o'.partition = o.partition)
  | .delete => o'.type = .upsert ∧ o'.id = id ∧ r = .processed
  | .partitionDelete =>
    o'.type = .upsert ∧ o'.id = id ∧ o'.partition = o.partition ∧ r = .processed
  | .unspecified => False

/-- The event supersedes `o` for `id`: an operation that does, or the pruner once the
    document of an upsert has expired. -/
def Supersedes (X : Crates) (o : IndexOperation) (id : String) (t : Engine) : Event → Prop
  | .op addOk o' => OpSupersedes o id o' (processOp X addOk t o').2
  | .prune now r => o.type = .upsert ∧ o.expiresAt ≤ now ∧ (r = .ok ∨ r = .commitFailed)
  | .commit _ | .reload | .crash => False

/-- The event is a commit that succeeds, of the committer or of the pruner. -/
def Commits (e : Event) : Prop := e = .commit .ok ∨ ∃ now, e = .prune now .ok

variable {X : Crates} {s t : Engine} {o : IndexOperation} {id : String}

/-- What keeps the document of an upsert keeps the operation reflected. -/
theorem Reflected.filter {l : List TantivyDoc} (h : Reflected X s o l) (p : TantivyDoc → Bool)
    (hp : o.type = .upsert → ∀ d, storedDoc X s o = some d → p d) :
    Reflected X s o (l.filter p) := by
  unfold Reflected at h ⊢
  cases ht : o.type with
  | upsert =>
    rw [ht] at h
    obtain ⟨d, hd, rfl⟩ := h
    exact ⟨d, hd, by simp [hp ht d hd]⟩
  | delete => rw [ht] at h; subst h; rfl
  | partitionDelete =>
    rw [ht] at h
    exact fun d hd => h d (List.mem_of_mem_filter hd)
  | unspecified => trivial

theorem reflected_of_processed (hX : X.Lawful) {addOk : Bool}
    (hid : o.type = .upsert ∨ o.type = .delete → o.id = id)
    (h : (processOp X addOk s o).2 = .processed) :
    Reflected X s o ((processOp X addOk s o).1.live id) := by
  unfold Reflected
  cases ht : o.type with
  | upsert =>
    obtain ⟨-, d, hd, hs⟩ := stored_of_processed ht h
    refine ⟨d, hd, ?_⟩
    rw [hs, live_stored (hX.storedDoc_fields hd).1, if_pos (hid (Or.inl ht)).symm]
  | delete =>
    show (processOp X addOk s o).1.live id = []
    rw [(erased_of_processed ht h).2, live_erased, if_pos (hid (Or.inr ht)).symm]
  | partitionDelete =>
    intro d hd
    rw [processOp_partitionDelete X addOk s ht, live_cleared] at hd
    simpa using (List.mem_filter.1 hd).2
  | unspecified => trivial

theorem Reflected.nil (h : o.type ≠ .upsert) : Reflected X s o [] := by
  unfold Reflected
  cases ht : o.type with
  | upsert => exact absurd ht h
  | delete | unspecified => trivial
  | partitionDelete =>
    intro d hd
    cases hd

theorem Reflected.cleared (hX : X.Lawful) {o' : IndexOperation} {r : Outcome}
    (h : Reflected X s o (t.live id)) (hn : ¬ OpSupersedes o id o' r)
    (ht' : o'.type = .partitionDelete) :
    Reflected X s o ((t.cleared o'.partition).live id) := by
  rw [live_cleared]
  refine h.filter _ fun ht d hd => ?_
  have hpk : o'.partition ≠ o.partition := by
    intro hpk
    refine hn ?_
    rw [OpSupersedes, ht]
    exact Or.inr ⟨ht', hpk⟩
  rw [(hX.storedDoc_fields hd).2.1, decide_eq_true_eq]
  exact hpk.symm

theorem Reflected.stored (hX : X.Lawful) {o' : IndexOperation} {d : TantivyDoc}
    (hn : ¬ OpSupersedes o id o' .processed) (ht' : o'.type = .upsert) (hid : o'.id = id)
    (hd : storedDoc X t o' = some d) : Reflected X s o [d] := by
  unfold OpSupersedes at hn
  unfold Reflected
  cases ht : o.type with
  | upsert => rw [ht] at hn; exact absurd (Or.inl ⟨Or.inl ht', hid, nofun⟩) hn
  | delete => rw [ht] at hn; exact absurd ⟨ht', hid, rfl⟩ hn
  | partitionDelete =>
    intro e he hpk
    rw [List.mem_singleton] at he
    rw [ht] at hn
    exact hn ⟨ht', hid, by rw [← hpk, he, (hX.storedDoc_fields hd).2.1], rfl⟩
  | unspecified => trivial

/-- An operation that does not supersede leaves the operation reflected in the writer. -/
theorem Reflected.op (hX : X.Lawful) {addOk : Bool} {o' : IndexOperation} {t' : Engine}
    {r : Outcome} (h : Reflected X s o (t.live id)) (ho : OpStep X addOk t o' t' r)
    (hn : ¬ OpSupersedes o id o' r) : Reflected X s o (t'.live id) := by
  by_cases hid : o'.id = id
  · -- an upsert has lost its document if an operation on its id took effect
    have hne (hv : o'.type = .upsert ∨ o'.type = .delete) (hr : r ≠ .stale) : o.type ≠ .upsert := by
      intro ht
      refine hn ?_
      rw [OpSupersedes, ht]
      exact Or.inl ⟨hv, hid, hr⟩
    cases ho with
    | ignored | stale => exact h
    | stored d ht' _ hd =>
      rw [live_stored (hX.storedDoc_fields hd).1, if_pos hid.symm]
      exact .stored hX hn ht' hid hd
    | rejected ht' | failed _ ht' =>
      rw [live_staged, if_pos hid.symm]
      exact .nil (hne (Or.inl ht') nofun)
    | erased ht' =>
      rw [live_erased, if_pos hid.symm]
      exact .nil (hne (Or.inr ht') nofun)
    | cleared ht' => exact h.cleared hX hn ht'
  · have hid : id ≠ o'.id := fun he => hid he.symm
    cases ho with
    | ignored | stale => exact h
    | stored d _ _ hd => rwa [live_stored (hX.storedDoc_fields hd).1, if_neg hid]
    | rejected | failed => rwa [live_staged, if_neg hid]
    | erased => rwa [live_erased, if_neg hid]
    | cleared ht' => exact h.cleared hX hn ht'

theorem Reflected.prune (hX : X.Lawful) {now : ℤ} (h : Reflected X s o (t.live id))
    (hn : ¬ (o.type = .upsert ∧ o.expiresAt ≤ now)) : Reflected X s o ((t.prune now).live id) := by
  rw [live_prune]
  refine h.filter _ fun ht d hd => ?_
  rw [(hX.storedDoc_fields hd).2.2.1, decide_eq_true_eq]
  exact not_le.1 fun hle => hn ⟨ht, hle⟩

/-- **What does not supersede an operation leaves it reflected in the writer**; a crash
    leaves it so if it was reflected in the last commit. -/
theorem Reflected.step (hX : X.Lawful) {e : Event} (h : Reflected X s o (t.live id))
    (hn : ¬ Supersedes X o id t e)
    (hc : e = .crash → Reflected X s o (docsOf id t.committed)) :
    Reflected X s o ((Engine.step X t e).live id) := by
  cases e with
  | op addOk o' => exact h.op hX (processOp_step X addOk t o') hn
  | commit r => rw [Engine.step, live_committerTick]; exact h
  | reload => exact h
  | prune now r =>
    cases r with
    | ok => exact h.prune hX fun hp => hn ⟨hp.1, hp.2, Or.inl rfl⟩
    | commitFailed => exact h.prune hX fun hp => hn ⟨hp.1, hp.2, Or.inr rfl⟩
    | queryFailed | contended => exact h
  | crash => exact hc rfl

/-- The last commit of the state after an event is the one before it, or the writer. -/
theorem committed_step (X : Crates) (t : Engine) (e : Event) :
    (step X t e).committed = t.committed ∨ (step X t e).committed = (step X t e).writer := by
  cases e with
  | op addOk o => exact Or.inl (processOp_step X addOk t o).frame.1
  | commit r =>
    by_cases hr : r = .ok
    · subst hr; exact Or.inr rfl
    · exact Or.inl (t.committerTick_of_ne_ok hr).1
  | reload | crash => exact Or.inl rfl
  | prune now r =>
    cases r with
    | ok => exact Or.inr rfl
    | commitFailed | queryFailed | contended => exact Or.inl rfl

theorem committed_of_commits {e : Event} (X : Crates) (t : Engine) (he : Commits e) :
    (step X t e).committed = (step X t e).writer := by
  rcases he with rfl | ⟨now, rfl⟩ <;> rfl

/-- **Durability.**  An operation that was processed, and that a successful commit has
    followed before any crash, is reflected in the index of every later restart, as long
    as no event has superseded it. -/
theorem reflected_after_commit (hX : X.Lawful) {addOk : Bool}
    (hid : o.type = .upsert ∨ o.type = .delete → o.id = id)
    (h : (processOp X addOk s o).2 = .processed) {es₁ es₂ : List Event} {c : Event}
    (hc : Commits c)
    (hes : Run.Along (step X) (fun t e => ¬ Supersedes X o id t e) (processOp X addOk s o).1
      (es₁ ++ c :: es₂)) (hcrash : ∀ e ∈ es₁, e ≠ .crash) :
    Reflected X s o (docsOf id
      (step X (Run.exec (step X) (processOp X addOk s o).1 (es₁ ++ c :: es₂)) .crash).writer) := by
  obtain ⟨h₁, hnc, h₂⟩ := (Run.along_append ..).1 hes
  rw [Run.exec_append, Run.exec_cons]
  -- up to the commit, the operation is reflected in the writer
  have hw : Reflected X s o ((Run.exec (step X) (processOp X addOk s o).1 es₁).live id) := by
    refine (h₁.and (Run.along_of_forall hcrash)).inv (I := fun t => Reflected X s o (t.live id))
      (fun t e ht he => ?_) (reflected_of_processed hX hid h)
    exact ht.step hX he.1 fun hcr => absurd hcr he.2
  -- from the commit on, it is reflected in the writer and in the last commit
  have hboth := h₂.inv (I := fun t => Reflected X s o (t.live id) ∧
      Reflected X s o (docsOf id t.committed)) (fun t e ht he => ?_) ?_
  · exact hboth.2
  · have hlive := ht.1.step hX he fun _ => ht.2
    refine ⟨hlive, ?_⟩
    rcases committed_step X t e with hcm | hcm
    · rw [hcm]; exact ht.2
    · rw [hcm]; exact hlive
  · have hlive := hw.step hX hnc fun hcr => by
      rcases hc with hc | ⟨now, hc⟩ <;> rw [hc] at hcr <;> cases hcr
    exact ⟨hlive, by rw [committed_of_commits X _ hc]; exact hlive⟩

/-- An upsert followed by a commit, a reload, a delete that is stale, and a crash. -/
theorem reflected_after_commit_upsert :
    let o := sampleOp .upsert "a" "p" 10 "\x7b\"a\":1\x7d"
    let s := (processOp sampleCrates true (new []) o).1
    Reflected sampleCrates (new []) o (docsOf "a" (step sampleCrates
      (Run.exec (step sampleCrates) s
        ([] ++ .commit .ok :: [.reload, .op true (sampleOp .delete "a" "p" 5 "")]))
      .crash).writer) := by
  intro o s
  refine reflected_after_commit sampleCrates_lawful (fun _ => rfl) (by decide) (Or.inl rfl) ?_ nofun
  refine ⟨nofun, nofun, fun h => ?_, trivial⟩
  rcases h with ⟨-, -, h⟩ | ⟨h, -⟩
  · exact h (by decide)
  · cases h

/-- An upsert that an `Ok` response counts as processed is lost in a crash. -/
theorem acked_upsert_lost :
    let o := sampleOp .upsert "a" "p" 10 "\x7b\"a\":1\x7d"
    let s := (processBatch sampleCrates (fun _ => true) (new []) [o]).1
    (processBatch sampleCrates (fun _ => true) (new []) [o]).2 = some ⟨1, 0, true⟩ ∧
    (step sampleCrates s .crash).writer = [] ∧
    ¬ Reflected sampleCrates (new []) o (docsOf "a" (step sampleCrates s .crash).writer) := by
  refine ⟨by decide, by decide, ?_⟩
  rintro ⟨d, -, hd⟩
  exact absurd hd (by rw [show docsOf "a" _ = [] by decide]; nofun)

end Engine

end Tantylla
