/-
  What an event does to the buffer, the flushes and the requests.

  `NetStep` says it once, of the flushes as a function of the task (`State.flush`), and
  `netStep_step` is the only place where `netStep` is taken apart: an event pushes an item,
  takes the buffer, answers a flush or lets one try fail, lets a request reach its node, or
  does none of these.
-/
import Tantylla.Ingestor.Arrivals
import Mathlib.Logic.Function.Basic

namespace Tantylla

namespace Ingestor

variable {M : Ingestor}

/-- What an event can do to the buffer, the flushes and the requests. -/
inductive NetStep (M : Ingestor) (s : Network) : NetEvent → Network → Prop
  | quiet {ev : NetEvent} {s' : Network} : s'.state.flush = s.state.flush →
      s'.state.shared.buffer = s.state.shared.buffer →
      s'.state.shared.acked = s.state.shared.acked → s'.pushed = s.pushed →
      s'.arrived = s.arrived → s'.reached.Sublist s.reached → s'.late = s.late → NetStep M s ev s'
  | push {i k : ℕ} {t : Task} {item : BatchItem} {s' : Network} : s.state.tasks[i]? = some t →
      t.pushed = some item → s'.state.flush = s.state.flush →
      s'.state.shared.buffer = s.state.shared.buffer ++ [M.serde.toString item] →
      s'.state.shared.acked = s.state.shared.acked → s'.pushed = s.pushed ++ [item.delivery] →
      s'.arrived = s.arrived → s'.reached = s.reached → s'.late = s.late →
      NetStep M s (.move i (.proceed k)) s'
  | take {i k : ℕ} {t : Task} {s' : Network} : s.state.tasks[i]? = some t → t.taking = true →
      s.state.flush i = none →
      s'.state.flush = Function.update s.state.flush i
        (nextBatch k [] (nodeBatches M.serde s.state.shared.buffer)).flush →
      s'.state.shared.buffer = [] → s'.state.shared.acked = s.state.shared.acked →
      s'.pushed = s.pushed → s'.arrived = s.arrived → s'.reached = s.reached → s'.late = s.late →
      NetStep M s (.move i (.proceed k)) s'
  | reply {i k : ℕ} {response : Option IndexBatchResponse} {f : Flush} {s' : Network} :
      s.state.flush i = some f → (response.isSome → i ∈ s.reached) →
      s'.state.flush = Function.update s.state.flush i (f.reply k response).flush →
      s'.state.shared.buffer = s.state.shared.buffer →
      s'.state.shared.acked = s.state.shared.acked ++ f.acknowledged response →
      s'.pushed = s.pushed → s'.arrived = s.arrived → s'.reached = s.reached.filter (· ≠ i) →
      s'.late = s.late ++ s.abandoned i (.reply k response) →
      NetStep M s (.move i (.reply k response)) s'
  | reach {i : ℕ} {f : Flush} {s' : Network} : s.state.flush i = some f → i ∉ s.reached →
      s'.state = s.state → s'.pushed = s.pushed →
      s'.arrived = s.arrived ++ deliveries f.request → s'.reached = i :: s.reached →
      s'.late = s.late → NetStep M s (.reach i) s'
  | reachLate {j : ℕ} {r : Request} {s' : Network} : s.late[j]? = some r →
      s'.state = s.state → s'.pushed = s.pushed → s'.arrived = s.arrived ++ deliveries r →
      s'.reached = s.reached → s'.late = s.late.eraseIdx j → NetStep M s (.reachLate j) s'

/-! ## The flushes -/

section
variable {s : State} {i : ℕ} {t : Task}

theorem flush_of_task (ht : s.tasks[i]? = some t) : s.flush i = t.flush := by
  rw [State.flush, ht, Option.bind_some]

/-- The task that moves has its new flush, the others have theirs. -/
theorem flush_step_task (ht : s.tasks[i]? = some t) (m : Move) :
    (step M s (.task i m)).flush =
      Function.update s.flush i (act M m s.shared t).2.flush := by
  funext j
  by_cases hj : j = i
  · subst hj
    rw [Function.update_self, flush_of_task (getElem?_step_task ht m)]
  · rw [Function.update_of_ne hj, State.flush, getElem?_step_task_of_ne (Ne.symm hj)]
    rfl

theorem flush_step_newConsumer (s : State) : (step M s .newConsumer).flush = s.flush := by
  funext j
  rw [State.flush, State.flush, step]
  rcases lt_trichotomy j s.tasks.length with hj | hj | hj
  · rw [List.getElem?_append_left hj]
  · subst hj
    rw [List.getElem?_concat_length, List.getElem?_eq_none (le_refl _)]
    rfl
  · rw [List.getElem?_eq_none (by rw [List.length_append]; exact hj), List.getElem?_eq_none hj.le]

end

theorem mem_requests_iff {s : Network} {r : Request} : r ∈ s.requests ↔
    (∃ i, ∃ f, s.state.flush i = some f ∧ r ∈ f.requests) ∨ r ∈ s.late := by
  rw [Network.requests, List.mem_append]
  refine or_congr_left ?_
  simp only [List.mem_flatMap]
  constructor
  · rintro ⟨t, ht, hr⟩
    obtain ⟨i, hi⟩ := List.getElem?_of_mem ht
    rw [Task.requests] at hr
    cases hf : t.flush with
    | none => rw [hf] at hr; cases hr
    | some f => rw [hf] at hr; exact ⟨i, f, (flush_of_task hi).trans hf, hr⟩
  · rintro ⟨i, f, hf, hr⟩
    obtain ⟨t, ht, hft⟩ := Option.bind_eq_some_iff.1 hf
    refine ⟨t, List.mem_of_getElem? ht, ?_⟩
    rw [Task.requests, hft]
    exact hr

/-! ## The effect of an event -/

theorem flush_eq_some {t : Task} {f : Flush} (h : t.flush = some f) :
    ∃ after, t.control = .flushing f after := by
  unfold Task.flush at h
  split at h
  next f' after hc => cases h; exact ⟨after, hc⟩
  next => cases h

section
variable {s : Network} {i : ℕ} {t : Task}

theorem netStep_step_reply {k : ℕ} {response : Option IndexBatchResponse}
    (ht : s.state.tasks[i]? = some t) (hearly : s.early i (.reply k response) = false) :
    NetStep M s (.move i (.reply k response)) (netStep M s (.move i (.reply k response))) := by
  have hflush := flush_step_task (M := M) ht (.reply k response)
  have hown := flush_of_task ht
  rw [netStep_move ht hearly, step_task ht]
  rw [step_task ht] at hflush
  cases hf : t.flush with
  | none =>
    -- no flush runs, so the answer is for nobody
    have hact : act M (.reply k response) s.state.shared t = (s.state.shared, t) := by
      have hstep := act_step M (.reply k response) s.state.shared t
      generalize act M (.reply k response) s.state.shared t = p at hstep
      cases hstep with
      | idle => rfl
      | reply _ _ hc => rw [Task.flush, hc] at hf; cases hf
    rw [hf] at hown
    have hlate : s.abandoned i (.reply k response) = [] := by
      cases response with
      | some response => rfl
      | none => rw [Network.abandoned, hown]; exact ite_self _
    rw [hact, hf, ← hown, Function.update_eq_self] at hflush
    rw [hact]
    exact .quiet hflush rfl rfl (List.append_nil _) rfl List.filter_sublist
      (by rw [hlate]; exact List.append_nil _)
  | some f =>
    obtain ⟨after, hc⟩ := flush_eq_some hf
    have hact : act M (.reply k response) s.state.shared t =
        continueFlush M { s.state.shared with
          acked := s.state.shared.acked ++ f.acknowledged response } t after
          (f.reply k response) := by simp only [act, hc]
    obtain ⟨hbuffer, hacked, hrest⟩ := @continueFlush_effect M { s.state.shared with
      acked := s.state.shared.acked ++ f.acknowledged response } t after (f.reply k response)
    rw [hf] at hown
    rw [hact, hrest] at hflush
    rw [hact]
    refine .reply hown (fun hsome => ?_) hflush hbuffer hacked (List.append_nil _) rfl rfl rfl
    by_contra hreached
    obtain ⟨response, rfl⟩ := Option.isSome_iff_exists.1 hsome
    simp [Network.early, hown, hreached] at hearly

theorem netStep_step_move {m : Move} (ht : s.state.tasks[i]? = some t)
    (hm : ∀ k response, m ≠ .reply k response) :
    NetStep M s (.move i m) (netStep M s (.move i m)) := by
  have hearly : s.early i m = false := by
    cases m with
    | reply k response => exact absurd rfl (hm k response)
    | tick | shutdown | row | proceed | fetched => rfl
  have hreached : s.reachedAfter i m = s.reached := by
    cases m with
    | reply k response => exact absurd rfl (hm k response)
    | tick | shutdown | row | proceed | fetched => rfl
  have hlate : s.late ++ s.abandoned i m = s.late := by
    cases m with
    | reply k response => exact absurd rfl (hm k response)
    | tick | shutdown | row | proceed | fetched => exact List.append_nil _
  have hflush := flush_step_task (M := M) ht m
  have hown := flush_of_task ht
  have hstep := @flush_act M m s.state.shared t
  rw [netStep_move ht hearly, step_task ht, hreached, hlate]
  rw [step_task ht] at hflush
  generalize (act M m s.state.shared t).2.flush = fl at hstep hflush
  generalize act M m s.state.shared t = p at hstep hflush ⊢
  have hsame (h : fl = t.flush) : Function.update s.state.flush i fl = s.state.flush := by
    rw [h, ← hown, Function.update_eq_self]
  cases hstep with
  | quiet hnone hbuffer hacked =>
    rw [hsame rfl] at hflush
    exact .quiet hflush hbuffer hacked (by rw [hnone]; exact List.append_nil _) rfl
      (List.Sublist.refl _) rfl
  | @push k item _ hpush hnone hbuffer hacked =>
    rw [hsame hnone.symm] at hflush
    have hpushes : t.pushes (.proceed k) = some item := hpush
    exact .push ht hpush hflush hbuffer hacked (by rw [hpushes]; rfl) rfl rfl rfl
  | @take k after _ hc hbuffer hacked =>
    have hnone : t.pushes (.proceed k) = none := by rw [Task.pushes, Task.pushed, hc]
    refine .take ht (by rw [Task.taking, hc]) (by rw [hown, Task.flush, hc]) hflush hbuffer hacked
      ?_ rfl rfl rfl
    rw [hnone]
    exact List.append_nil _
  | @reply k response => exact absurd rfl (hm k response)

end

/-- **What an event does to the buffer, the flushes and the requests.** -/
theorem netStep_step (s : Network) (ev : NetEvent) : NetStep M s ev (netStep M s ev) := by
  cases ev with
  | move i m =>
    cases ht : s.state.tasks[i]? with
    | none =>
      rw [netStep_of_none ht]
      refine .quiet rfl rfl rfl rfl rfl ?_ rfl
      cases m with
      | reply => exact List.filter_sublist
      | tick | shutdown | row | proceed | fetched => exact List.Sublist.refl _
    | some t =>
      cases m with
      | reply k response =>
        cases hearly : s.early i (.reply k response) with
        | true =>
          rw [netStep, hearly, if_pos rfl]
          exact .quiet rfl rfl rfl rfl rfl (List.Sublist.refl _) rfl
        | false => exact netStep_step_reply ht hearly
      | tick | shutdown | row | proceed | fetched =>
        exact netStep_step_move ht fun _ _ h => by cases h
  | newConsumer =>
    exact .quiet (flush_step_newConsumer (M := M) s.state) rfl rfl rfl rfl (List.Sublist.refl _) rfl
  | reach i =>
    rw [netStep]
    cases hf : s.state.flush i with
    | none => exact .quiet rfl rfl rfl rfl rfl (List.Sublist.refl _) rfl
    | some f =>
      by_cases hi : i ∈ s.reached
      · simp only [hi, if_true]
        exact .quiet rfl rfl rfl rfl rfl (List.Sublist.refl _) rfl
      · simp only [hi, if_false]
        exact .reach hf hi rfl rfl rfl rfl rfl
  | reachLate j =>
    rw [netStep]
    cases hr : s.late[j]? with
    | none => exact .quiet rfl rfl rfl rfl rfl (List.Sublist.refl _) rfl
    | some r => exact .reachLate hr rfl rfl rfl rfl rfl

/-! ## Where requests come from -/

section
variable {s s' : Network} {i k : ℕ} {r : Request}

theorem mem_requests_take (hflush : s'.state.flush = Function.update s.state.flush i
      (nextBatch k [] (nodeBatches M.serde s.state.shared.buffer)).flush)
    (hlate : s'.late = s.late) (hr : r ∈ s'.requests) :
    r ∈ s.requests ∨ r ∈ nodeBatches M.serde s.state.shared.buffer := by
  rw [mem_requests_iff, hflush, hlate] at hr
  rw [mem_requests_iff]
  rcases hr with ⟨j, f', hf', hr⟩ | hr
  · by_cases hj : j = i
    · subst hj
      rw [Function.update_self] at hf'
      exact Or.inr (requests_nextBatch (by rw [hf']; exact hr))
    · rw [Function.update_of_ne hj] at hf'
      exact Or.inl (Or.inl ⟨j, f', hf', hr⟩)
  · exact Or.inl (Or.inr hr)

theorem mem_requests_reply {response : Option IndexBatchResponse} {f : Flush}
    (hf : s.state.flush i = some f)
    (hflush : s'.state.flush = Function.update s.state.flush i (f.reply k response).flush)
    (hlate : s'.late = s.late ++ s.abandoned i (.reply k response)) (hr : r ∈ s'.requests) :
    r ∈ s.requests := by
  rw [mem_requests_iff, hflush, hlate] at hr
  rw [mem_requests_iff]
  rcases hr with ⟨j, f', hf', hr⟩ | hr
  · by_cases hj : j = i
    · subst hj
      rw [Function.update_self] at hf'
      exact Or.inl ⟨j, f, hf, requests_reply (by rw [hf']; exact hr)⟩
    · rw [Function.update_of_ne hj] at hf'
      exact Or.inl ⟨j, f', hf', hr⟩
  · rcases List.mem_append.1 hr with hr | hr
    · exact Or.inr hr
    · obtain ⟨t, ht, hft⟩ := Option.bind_eq_some_iff.1 hf
      have hmem := abandoned_subset ht hr
      rw [Task.requests, hft] at hmem
      exact Or.inl ⟨i, f, hf, hmem⟩

theorem requests_congr (hflush : s'.state.flush = s.state.flush) (hlate : s'.late = s.late)
    (r : Request) : r ∈ s'.requests ↔ r ∈ s.requests := by
  rw [mem_requests_iff, mem_requests_iff, hflush, hlate]

/-- **Every request is an old one, or a batch of the buffer.** -/
theorem NetStep.mem_requests {ev : NetEvent} (h : NetStep M s ev s') (hr : r ∈ s'.requests) :
    r ∈ s.requests ∨ r ∈ nodeBatches M.serde s.state.shared.buffer := by
  cases h with
  | quiet hflush _ _ _ _ _ hlate | push _ _ hflush _ _ _ _ _ hlate =>
    exact Or.inl ((requests_congr hflush hlate r).1 hr)
  | take _ _ _ hflush _ _ _ _ _ hlate => exact mem_requests_take hflush hlate hr
  | reply hf _ hflush _ _ _ _ _ hlate => exact Or.inl (mem_requests_reply hf hflush hlate hr)
  | reach _ _ hstate _ _ _ hlate =>
    exact Or.inl ((requests_congr (by rw [hstate]) hlate r).1 hr)
  | reachLate _ hstate _ _ _ hlate =>
    rw [mem_requests_iff, hstate, hlate] at hr
    rw [mem_requests_iff]
    exact Or.inl (hr.imp_right fun hr => List.eraseIdx_subset hr)

end

end Ingestor

end Tantylla
