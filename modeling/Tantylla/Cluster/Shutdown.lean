/-
  A graceful shutdown (`main.rs` of the ingestor over `batch/service.rs`).

  On its signal `main` flushes once, whoever else adds and flushes at the time, and returns.
  `shutdown_executes`: when it has returned, the nodes have executed what was accepted before
  the signal, but for batches that were given up and for what another flush still holds.
-/
import Tantylla.Cluster.Executed
import Tantylla.Ingestor.RangeReads

namespace Tantylla

open Ingestor

variable {M : Ingestor} {X : Crates} {e : Delivery}

namespace Ingestor

/-- `main` waits for its signal. -/
def Task.awaitsSignal (t : Task) : Bool :=
  match t.role, t.control with
  | .main, .waiting => true
  | _, _ => false

/-- The task has returned. -/
def Task.returned (t : Task) : Bool :=
  match t.control with
  | .stopped => true
  | _ => false

/-- The task has called a flush that has not taken the buffer yet. -/
def Taking (after : After) (i : ℕ) (s : State) : Prop :=
  ∃ t, s.tasks[i]? = some t ∧ t.control = .taking after

variable {m : Move} {s : Shared} {t : Task} {after : After}

theorem act_shutdown (h : t.awaitsSignal = true) :
    act M .shutdown s t = (s, { t with control := .taking .shutdown }) := by
  unfold Task.awaitsSignal at h
  split at h
  case _ hrole hc => simp only [act, hc, hrole, if_true]
  case _ => cases h

end Ingestor

namespace Cluster

/-! ## Until the buffer is taken -/

section
variable {s s' : State} {ev : Ingestor.Event} {i n : ℕ} {after : After}

theorem Moves.kept (h : Moves M e s ev s') (hkept : Kept M e n s) : Kept M e n s' := by
  rw [h.eq]
  exact hkept.step h.answered h.runs

theorem Moves.sent (h : Moves M e s ev s') (hsent : Sent e n s) : Sent e n s' := by
  rw [h.eq]
  exact hsent.step h.answered h.runs

/-- When the task takes the buffer, all that was kept is sent. -/
theorem Moves.taking (h : Moves M e s ev s') (hkept : Kept M e n s) (ht : Taking after i s) :
    Taking after i s' ∨ Sent e n s' := by
  obtain ⟨t, ht, hc⟩ := ht
  rw [h.eq]
  cases ev with
  | crash => exact absurd rfl h.runs
  | save j => exact Or.inl ⟨t, ht, hc⟩
  | newConsumer => exact Or.inl ⟨t, getElem?_step_newConsumer ht, hc⟩
  | task j m =>
    by_cases hj : j = i
    · subst hj
      rcases act_beforeTaking (M := M) (m := m) (s := s.shared) (Or.inr ⟨after, hc⟩) with
        hidle | hempty
      · exact Or.inl ⟨t, by rw [getElem?_step_task ht, hidle], hc⟩
      · exact Or.inr (sent_of_taken hkept ht h.answered hempty)
    · exact Or.inl ⟨t, (getElem?_step_task_of_ne hj m).trans ht, hc⟩

/-- What is kept while a flush has not taken the buffer, and sent afterwards. -/
structure Flushing (M : Ingestor) (e : Delivery) (after : After) (i n : ℕ) (s : State) : Prop where
  kept : Kept M e n s
  sent : Taking after i s ∨ Sent e n s

theorem Flushing.moves (h : Flushing M e after i n s) (hm : Moves M e s ev s') :
    Flushing M e after i n s' where
  kept := hm.kept h.kept
  sent := h.sent.elim (hm.taking h.kept) fun hsent => Or.inr (hm.sent hsent)

end

/-! ## The last flush -/

/-- The signal makes the main task flush. -/
theorem taking_of_signal {s : Cluster} {i : ℕ}
    (h : s.net.state.tasks[i]?.any Task.awaitsSignal = true) :
    Taking .shutdown i (clusterStep M X s (.act i .shutdown)).net.state := by
  obtain ⟨t, ht, hawaits⟩ := (Option.any_eq_true _ _).1 h
  have hstate : (clusterStep M X s (.act i .shutdown)).net.state =
      Ingestor.step M s.net.state (.task i .shutdown) := rfl
  refine ⟨{ t with control := .taking .shutdown }, ?_, rfl⟩
  rw [hstate, getElem?_step_task ht, act_shutdown hawaits]

/-- A task that has returned is in no flush. -/
theorem not_taking_of_returned {s : State} {i : ℕ} {after : After}
    (h : s.tasks[i]?.any Task.returned = true) : ¬ Taking after i s := by
  rintro ⟨t, ht, hc⟩
  rw [ht, Option.any_some, Task.returned, hc] at h
  cases h

/-- **A shutdown executes what was accepted before.**  In every run of a cluster, whatever
    else the tasks do and the network loses: let `main` get its signal, and let it have
    returned at the end.  Then each item for which `add` had returned `Ok` before the signal
    has been executed by its node, as often as it was accepted, if no batch with it is given
    up after three tries and no other flush still holds it. -/
theorem shutdown_executes {es₁ es₂ : List ClusterEvent} {i : ℕ}
    (hread : Run.Along (clusterStep M X) (Reads M) clusterStart (es₁ ++ .act i .shutdown :: es₂))
    (hkept : Run.Along (clusterStep M X) (fun s ev => ¬ GivesUp e s ev) clusterStart
      (es₁ ++ .act i .shutdown :: es₂))
    (hsignal : (Run.exec (clusterStep M X) clusterStart
      es₁).net.state.tasks[i]?.any Task.awaitsSignal = true)
    (hreturned : (Run.exec (clusterStep M X) clusterStart
      (es₁ ++ .act i .shutdown :: es₂)).net.state.tasks[i]?.any Task.returned = true)
    (hheld : e ∉ (Run.exec (clusterStep M X) clusterStart
      (es₁ ++ .act i .shutdown :: es₂)).net.state.held) :
    (Run.exec (clusterStep M X) clusterStart es₁).net.state.shared.accepted.count e ≤
      (Run.exec (clusterStep M X) clusterStart
        (es₁ ++ .act i .shutdown :: es₂)).executed.count e := by
  rw [Run.along_append] at hread hkept
  rw [Run.exec_append, Run.exec_cons] at hreturned hheld ⊢
  obtain ⟨honest, hbal⟩ := kept_of_moves (I := Balanced M e) (fun _ _ _ => balanced_moves)
    hread.1 hkept.1 honest_start (balanced_start [] [])
  set s := Run.exec (clusterStep M X) clusterStart es₁
  have hbefore : Kept M e (s.net.state.shared.accepted.count e) s.net.state := by
    rw [Ingestor.Balanced] at hbal
    rw [Kept]
    omega
  have hafter : Kept M e (s.net.state.shared.accepted.count e)
      (clusterStep M X s (.act i .shutdown)).net.state := by
    rcases moves_of_step (X := X) honest hread.2.1 hkept.2.1 with hsame | ⟨iev, hmoves⟩
    · rw [hsame]
      exact hbefore
    · exact hmoves.kept hbefore
  obtain ⟨⟨-, -, hexec⟩, -, hsent⟩ := kept_of_moves (I := Flushing M e .shutdown i _)
    (fun _ _ _ h hm => h.moves hm) hread.2.2 hkept.2.2 (honest.step _)
    ⟨hafter, Or.inl (taking_of_signal hsignal)⟩
  -- main has returned, so its flush has taken the buffer
  rcases hsent with htaking | hsent
  · exact absurd htaking (not_taking_of_returned hreturned)
  · rw [Sent, ← count_held, List.count_eq_zero_of_not_mem hheld] at hsent
    omega

/-- A consumer adds an insert, and `main` flushes it when it is told to stop. -/
theorem shutdown_executes_sample :
    1 ≤ (Run.exec (clusterStep sampleUpsertIngestor Engine.samplePayloadCrates) clusterStart
      (.newConsumer :: sampleInserts 0x1419d6801dd211b28000000000000000 ++ .act 1 .shutdown ::
        [.act 1 (.proceed 0), .reach 1 (fun _ => true), .answer 1 0])).executed.count
          (sampleUpsert "1419d680-1dd2-11b2-8000-000000000000" 1000000).delivery := by
  have haccepted : (Run.exec (clusterStep sampleUpsertIngestor Engine.samplePayloadCrates)
      clusterStart (.newConsumer ::
        sampleInserts 0x1419d6801dd211b28000000000000000)).net.state.shared.accepted.count
          (sampleUpsert "1419d680-1dd2-11b2-8000-000000000000" 1000000).delivery = 1 := by
    decide +kernel
  exact haccepted ▸ @shutdown_executes sampleUpsertIngestor Engine.samplePayloadCrates _
    (.newConsumer :: sampleInserts 0x1419d6801dd211b28000000000000000) _ 1 (by decide +kernel)
    (by decide +kernel) (by decide +kernel) (by decide +kernel) (by decide +kernel)

end Cluster

end Tantylla
