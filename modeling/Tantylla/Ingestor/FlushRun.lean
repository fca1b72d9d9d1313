/-
  One flush, from the taking of the buffer to its return.

  A flush is a run of `Flush.reply` over the answers of the nodes, as `flush_act` finds it
  in the task that runs it.  `requests` are the batches it sends, the one under way
  included, and `answers` the answers it gets.

  * `Flush.Reply` says once what an answer can do: another try of the same batch, or
    the end of the batch, after which it is never sent again (`reply_step`);
  * `mem_requests`, `attempts_le`: every request is a whole batch, at most three of one;
  * `mem_failedNodes_iff`: a flush that returns names the nodes whose batch has no
    answer that counts enough, as `u32` numbers count;
  * `flush_reports_iff`: the buffer is partitioned exactly, and the result is right iff
    the wrapping sums compare as the true ones do.
-/
import Tantylla.Ingestor.Flushes
import Mathlib.Data.List.Perm.Subperm

namespace Tantylla

/-- The operations of the items for a node, in the order of the items. -/
def batchOf (items : List BatchItem) (node : String) : List IndexOperation :=
  (items.filter fun item => item.targetNode = node).map BatchItem.operation

/-- The response counts a batch as done: `total_processed < expected_count` is false. -/
def IndexBatchResponse.Counts (response : IndexBatchResponse) (operations : List IndexOperation) :
    Prop :=
  operations.length % 2 ^ 32 ≤ (response.processedCount + response.skippedCount) % 2 ^ 32

/-- The response acknowledges as many operations as there are. -/
def IndexBatchResponse.Covers (response : IndexBatchResponse) (operations : List IndexOperation) :
    Prop :=
  operations.length ≤ response.processedCount + response.skippedCount

/-- Counts that fit in a `u32` are compared as they are. -/
theorem IndexBatchResponse.covers_iff_counts {response : IndexBatchResponse}
    {operations : List IndexOperation} (hlen : operations.length < 2 ^ 32)
    (hsum : response.processedCount + response.skippedCount < 2 ^ 32) :
    response.Covers operations ↔ response.Counts operations := by
  rw [Covers, Counts, Nat.mod_eq_of_lt hlen, Nat.mod_eq_of_lt hsum]

namespace FlushState

/-- An answer of a node; it comes with the choice of the next batch. -/
def answer : FlushState → ℕ × Option IndexBatchResponse → FlushState
  | .running f, (k, response) => f.reply k response
  | .returned failedNodes, _ => .returned failedNodes

/-- The batches that are sent while the answers `rs` come in, the last one unanswered. -/
def requests : FlushState → List (ℕ × Option IndexBatchResponse) →
    List (String × List IndexOperation)
  | .returned _, _ => []
  | .running f, [] => [(f.targetNode, f.operations)]
  | .running f, (k, response) :: rs =>
    (f.targetNode, f.operations) :: (f.reply k response).requests rs

/-- The answers, each with its node. -/
def answers : FlushState → List (ℕ × Option IndexBatchResponse) →
    List (String × Option IndexBatchResponse)
  | .returned _, _ | .running _, [] => []
  | .running f, (k, response) :: rs => (f.targetNode, response) :: (f.reply k response).answers rs

/-- The batches that are not done with. -/
def todo : FlushState → List (String × List IndexOperation)
  | .running f => (f.targetNode, f.operations) :: f.nodeBatches
  | .returned _ => []

theorem todo_running (f : Flush) :
    (running f).todo = (f.targetNode, f.operations) :: f.nodeBatches := rfl

/-- The nodes that have failed so far. -/
def failed : FlushState → List String
  | .running f => f.failedNodes
  | .returned failedNodes => failedNodes

/-- The tries for a node that have failed. -/
def attempt (node : String) : FlushState → ℕ
  | .running f => if f.targetNode = node then f.attempt else 0
  | .returned _ => 0

/-- The batches that are not done with are for different nodes, none of which has failed, and
    there are tries left. -/
structure Fair (st : FlushState) : Prop where
  nodup : (st.failed ++ st.todo.map Prod.fst).Nodup
  attempt : ∀ node, st.attempt node < maxRetryAttempts

end FlushState

open FlushState Ingestor

/-! ## One answer -/

/-- What an answer does to a flush: the batch is tried again, or it is done with. -/
inductive Flush.Reply (f : Flush) : Option IndexBatchResponse → FlushState → Prop
  | retried : f.attempt + 1 < maxRetryAttempts →
      Flush.Reply f none (.running { f with attempt := f.attempt + 1 })
  | counted {response : IndexBatchResponse} {st : FlushState} :
      response.Counts f.operations → st.todo.Perm f.nodeBatches → st.failed = f.failedNodes →
      (∀ node, st.attempt node = 0) → Flush.Reply f (some response) st
  | failed {r : Option IndexBatchResponse} {st : FlushState} :
      (∀ response ∈ r, ¬ response.Counts f.operations) → st.todo.Perm f.nodeBatches →
      st.failed = f.failedNodes ++ [f.targetNode] → (∀ node, st.attempt node = 0) →
      Flush.Reply f r st

theorem nextBatch_spec (k : ℕ) (failedNodes : List String)
    (bs : List (String × List IndexOperation)) :
    (nextBatch k failedNodes bs).todo.Perm bs ∧ (nextBatch k failedNodes bs).failed = failedNodes ∧
      ∀ node, (nextBatch k failedNodes bs).attempt node = 0 := by
  unfold nextBatch
  cases h : pick k bs with
  | none => exact ⟨by rw [pick_eq_none h]; exact .refl _, rfl, fun _ => rfl⟩
  | some p => exact ⟨pick_perm h, rfl, fun _ => ite_self _⟩

theorem reply_step (k : ℕ) (f : Flush) (r : Option IndexBatchResponse) :
    f.Reply r (f.reply k r) := by
  cases r with
  | some response =>
    simp only [Flush.reply]
    split_ifs with h
    · obtain ⟨htodo, hfailed, hattempt⟩ :=
        nextBatch_spec k (f.failedNodes ++ [f.targetNode]) f.nodeBatches
      refine .failed (fun response' hr => ?_) htodo hfailed hattempt
      cases hr
      exact Nat.not_le.2 h
    · obtain ⟨htodo, hfailed, hattempt⟩ := nextBatch_spec k f.failedNodes f.nodeBatches
      exact .counted (Nat.not_lt.1 h) htodo hfailed hattempt
  | none =>
    simp only [Flush.reply]
    split_ifs with h
    · exact .retried h
    · obtain ⟨htodo, hfailed, hattempt⟩ :=
        nextBatch_spec k (f.failedNodes ++ [f.targetNode]) f.nodeBatches
      exact .failed (by simp) htodo hfailed hattempt

theorem FlushState.Fair.reply {f : Flush} (h : Fair (.running f))
    {r : Option IndexBatchResponse} {st : FlushState} (hr : f.Reply r st) : Fair st := by
  have hnodup : (f.failedNodes ++ f.targetNode :: f.nodeBatches.map Prod.fst).Nodup := h.nodup
  have hzero (h0 : ∀ node, st.attempt node = 0) (node : String) :
      st.attempt node < maxRetryAttempts := by
    rw [h0]
    decide
  cases hr with
  | retried hlt =>
    refine ⟨hnodup, fun node => ?_⟩
    rw [FlushState.attempt]
    split_ifs
    · exact hlt
    · decide
  | counted _ htodo hfailed h0 =>
    refine ⟨?_, hzero h0⟩
    rw [hfailed, ((htodo.map Prod.fst).append_left f.failedNodes).nodup_iff]
    exact hnodup.sublist ((List.sublist_cons_self ..).append_left _)
  | failed _ htodo hfailed h0 =>
    refine ⟨?_, hzero h0⟩
    rw [hfailed, List.append_assoc, ((htodo.map Prod.fst).append_left _ |>.append_left _).nodup_iff]
    exact hnodup

section
variable {f : Flush} (h : Fair (.running f))
include h

theorem FlushState.Fair.not_waiting : f.targetNode ∉ f.nodeBatches.map Prod.fst :=
  (List.nodup_cons.1 (List.nodup_append.1 h.nodup).2.1).1

/-- The batch that is done with is not to come again. -/
theorem FlushState.Fair.not_mem {st : FlushState} (htodo : st.todo.Perm f.nodeBatches) :
    f.targetNode ∉ st.todo.map Prod.fst := by
  rw [(htodo.map Prod.fst).mem_iff]
  exact h.not_waiting

theorem FlushState.Fair.not_failed : f.targetNode ∉ f.failedNodes := fun hmem =>
  (List.nodup_append.1 h.nodup).2.2 _ hmem _ List.mem_cons_self rfl

theorem FlushState.Fair.operations_eq {operations : List IndexOperation}
    (hmem : (f.targetNode, operations) ∈ (FlushState.running f).todo) :
    operations = f.operations := by
  rcases List.mem_cons.1 hmem with he | hmem
  · cases he
    rfl
  · exact absurd (List.mem_map_of_mem hmem) h.not_waiting

end

/-! ## Requests and answers -/

section
variable {st : FlushState}

/-- **Every request is a whole batch.** -/
theorem mem_requests {rs : List (ℕ × Option IndexBatchResponse)}
    {b : String × List IndexOperation} (h : b ∈ st.requests rs) : b ∈ st.todo := by
  induction rs generalizing st with
  | nil =>
    cases st with
    | returned => cases h
    | running f => exact List.mem_cons.2 (Or.inl (List.mem_singleton.1 h))
  | cons kr rs ih =>
    obtain ⟨k, r⟩ := kr
    cases st with
    | returned => cases h
    | running f =>
      rcases List.mem_cons.1 h with rfl | h
      · exact List.mem_cons_self
      · have hb := ih h
        have hr := reply_step k f r
        generalize f.reply k r = st at hr hb
        cases hr with
        | retried => exact hb
        | counted _ htodo | failed _ htodo => exact List.mem_cons_of_mem _ (htodo.mem_iff.1 hb)

theorem mem_answers {rs : List (ℕ × Option IndexBatchResponse)} {node : String}
    {r : Option IndexBatchResponse} (h : (node, r) ∈ st.answers rs) :
    node ∈ st.todo.map Prod.fst := by
  induction rs generalizing st with
  | nil => cases st <;> cases h
  | cons kr rs ih =>
    obtain ⟨k, r'⟩ := kr
    cases st with
    | returned => cases h
    | running f =>
      rcases List.mem_cons.1 h with he | h
      · cases he
        exact List.mem_cons_self
      · have hb := ih h
        have hr := reply_step k f r'
        generalize f.reply k r' = st at hr hb
        cases hr with
        | retried => exact hb
        | counted _ htodo | failed _ htodo =>
          exact List.mem_cons_of_mem _ ((htodo.map Prod.fst).mem_iff.1 hb)

/-- **A batch is tried three times at most**, the tries before included. -/
theorem attempts_le (h : Fair st) (rs : List (ℕ × Option IndexBatchResponse)) (node : String) :
    ((st.requests rs).filter fun b => b.1 = node).length + st.attempt node ≤ maxRetryAttempts := by
  induction rs generalizing st with
  | nil =>
    have hlt := h.attempt node
    cases st with
    | returned => exact Nat.zero_le _
    | running f =>
      have := List.length_filter_le (fun b => decide (b.1 = node)) [(f.targetNode, f.operations)]
      rw [requests]
      simp only [List.length_singleton] at this
      omega
  | cons kr rs ih =>
    obtain ⟨k, r⟩ := kr
    cases st with
    | returned => exact Nat.zero_le _
    | running f =>
      have hr := reply_step k f r
      have ih := ih (h.reply hr)
      rw [requests]
      -- the batches after one that is done with are for other nodes
      have hother {st : FlushState} (htodo : st.todo.Perm f.nodeBatches)
          (hn : f.targetNode = node) :
          (st.requests rs).filter (fun b => b.1 = node) = [] := by
        refine List.filter_eq_nil_iff.2 fun b hb => ?_
        have hne := h.not_mem htodo
        rw [decide_eq_true_eq]
        rintro rfl
        exact hne (hn ▸ List.mem_map_of_mem (mem_requests hb))
      generalize f.reply k r = st at hr ih
      by_cases hn : f.targetNode = node
      · rw [List.filter_cons_of_pos (by simpa using hn), List.length_cons]
        have hlt := h.attempt node
        simp only [FlushState.attempt, if_pos hn] at hlt ⊢
        cases hr with
        | retried =>
          simp only [FlushState.attempt, if_pos hn] at ih
          omega
        | counted _ htodo | failed _ htodo =>
          rw [hother htodo hn, List.length_nil]
          omega
      · rw [List.filter_cons_of_neg (by simpa using hn)]
        simp only [FlushState.attempt, if_neg hn]
        omega

/-- A batch has one answer at most that is no error. -/
theorem answer_unique (h : Fair st) {rs : List (ℕ × Option IndexBatchResponse)} {node : String}
    {r r' : IndexBatchResponse} (hr : (node, some r) ∈ st.answers rs)
    (hr' : (node, some r') ∈ st.answers rs) : r = r' := by
  induction rs generalizing st with
  | nil => cases st <;> cases hr
  | cons kr rs ih =>
    obtain ⟨k, a⟩ := kr
    cases st with
    | returned => cases hr
    | running f =>
      have hstep := reply_step k f a
      have ih := ih (h.reply hstep)
      rw [answers, List.mem_cons, Prod.mk.injEq] at hr hr'
      generalize f.reply k a = st at hstep ih hr hr'
      cases hstep with
      | retried =>
        exact ih (hr.resolve_left fun he => by cases he.2)
          (hr'.resolve_left fun he => by cases he.2)
      | counted _ htodo | failed _ htodo =>
        have hne := h.not_mem htodo
        rcases hr with ⟨rfl, he⟩ | hr <;> rcases hr' with ⟨hn, he'⟩ | hr'
        · rw [← he', Option.some.injEq] at he
          exact he
        · exact absurd (mem_answers hr') hne
        · exact absurd (hn ▸ mem_answers hr) hne
        · exact ih hr hr'

theorem exec_returned (failedNodes : List String) (rs : List (ℕ × Option IndexBatchResponse)) :
    Run.exec answer (.returned failedNodes) rs = .returned failedNodes := by
  induction rs with
  | nil => rfl
  | cons r rs ih => exact ih

/-- Of another node than that of the batch which is done with, nothing has changed. -/
theorem other_iff {f : Flush} {rs : List (ℕ × Option IndexBatchResponse)} {node : String}
    {a : Option IndexBatchResponse} (hn : node ≠ f.targetNode)
    (htodo : st.todo.Perm f.nodeBatches) :
    (∃ operations, (node, operations) ∈ st.todo ∧
      ∀ response, (node, some response) ∈ st.answers rs → ¬ response.Counts operations) ↔
    ∃ operations, (node, operations) ∈ (FlushState.running f).todo ∧
      ∀ response, (node, some response) ∈ (f.targetNode, a) :: st.answers rs →
        ¬ response.Counts operations := by
  simp only [todo_running, List.mem_cons, Prod.mk.injEq, hn, false_and, false_or, htodo.mem_iff]

/-- **The nodes that failed** are those without an answer that counts their batch. -/
theorem mem_failedNodes_iff (h : Fair st) {rs : List (ℕ × Option IndexBatchResponse)}
    {failedNodes : List String} (hret : Run.exec answer st rs = .returned failedNodes)
    (node : String) : node ∈ failedNodes ↔ node ∈ st.failed ∨ ∃ operations,
      (node, operations) ∈ st.todo ∧
        ∀ response, (node, some response) ∈ st.answers rs → ¬ response.Counts operations := by
  induction rs generalizing st with
  | nil =>
    cases hret
    simp [FlushState.failed, todo]
  | cons kr rs ih =>
    obtain ⟨k, a⟩ := kr
    cases st with
    | returned l =>
      rw [exec_returned, FlushState.returned.injEq] at hret
      subst hret
      simp [FlushState.failed, todo]
    | running f =>
      have hstep := reply_step k f a
      have ih := ih (h.reply hstep) hret
      rw [ih, answers]
      generalize f.reply k a = st at hstep
      cases hstep with
      | retried =>
        simp only [FlushState.failed, todo, List.mem_cons, Prod.mk.injEq, reduceCtorEq, and_false,
          false_or]
      | counted hc htodo hfailed =>
        by_cases hn : node = f.targetNode
        · -- it has not failed, and is done with
          subst hn
          refine iff_of_false ?_ ?_
          · rintro (hmem | ⟨ops, hmem, -⟩)
            · exact h.not_failed (hfailed ▸ hmem)
            · exact h.not_mem htodo (List.mem_map_of_mem hmem)
          · rintro (hmem | ⟨ops, hmem, hall⟩)
            · exact h.not_failed hmem
            · rw [h.operations_eq hmem] at hall
              exact hall _ List.mem_cons_self hc
        · rw [hfailed, other_iff hn htodo]
          rfl
      | failed hc htodo hfailed =>
        by_cases hn : node = f.targetNode
        · subst hn
          refine iff_of_true (Or.inl (hfailed ▸ List.mem_append_right _ List.mem_cons_self))
            (Or.inr ⟨f.operations, List.mem_cons_self, fun response hmem => ?_⟩)
          rcases List.mem_cons.1 hmem with he | hmem
          · cases he
            exact hc response rfl
          · exact absurd (mem_answers hmem) (h.not_mem htodo)
        · rw [hfailed, List.mem_append, List.mem_singleton, or_iff_left hn, other_iff hn htodo]
          rfl

theorem mem_requests_of_returned {rs : List (ℕ × Option IndexBatchResponse)}
    {failedNodes : List String} (hret : Run.exec answer st rs = .returned failedNodes)
    {b : String × List IndexOperation} (hb : b ∈ st.todo) : b ∈ st.requests rs := by
  induction rs generalizing st with
  | nil =>
    cases hret
    cases hb
  | cons kr rs ih =>
    obtain ⟨k, a⟩ := kr
    cases st with
    | returned => cases hb
    | running f =>
      have hstep := reply_step k f a
      have ih := @ih (f.reply k a) hret
      rw [requests]
      generalize f.reply k a = st at hstep ih
      rcases List.mem_cons.1 hb with rfl | hb
      · exact List.mem_cons_self
      · cases hstep with
        | retried => exact List.mem_cons_of_mem _ (ih (List.mem_cons_of_mem _ hb))
        | counted _ htodo | failed _ htodo =>
          exact List.mem_cons_of_mem _ (ih (htodo.mem_iff.2 hb))

theorem FlushState.Fair.answer (h : Fair st) (kr : ℕ × Option IndexBatchResponse) :
    Fair (st.answer kr) := by
  cases st with
  | returned => exact h
  | running f => exact h.reply (reply_step kr.1 f kr.2)

/-- The tries that are left to a flush. -/
def FlushState.triesLeft : FlushState → ℕ
  | .running f => maxRetryAttempts * (f.nodeBatches.length + 1) - f.attempt
  | .returned _ => 0

theorem triesLeft_reply {f : Flush} (h : Fair (.running f)) {r : Option IndexBatchResponse}
    (hr : f.Reply r st) : st.triesLeft < (FlushState.running f).triesLeft := by
  have hlt := h.attempt f.targetNode
  simp only [FlushState.attempt, if_true] at hlt
  have hdone (htodo : st.todo.Perm f.nodeBatches) (h0 : ∀ node, st.attempt node = 0) :
      st.triesLeft < (FlushState.running f).triesLeft := by
    have hlen := htodo.length_eq
    cases st with
    | returned =>
      simp only [FlushState.triesLeft, maxRetryAttempts] at hlt ⊢
      omega
    | running f' =>
      have h0 := h0 f'.targetNode
      simp only [FlushState.attempt, if_true] at h0
      simp only [todo_running, List.length_cons] at hlen
      simp only [FlushState.triesLeft, maxRetryAttempts] at hlt ⊢
      omega
  cases hr with
  | retried =>
    simp only [FlushState.triesLeft, maxRetryAttempts] at hlt ⊢
    omega
  | counted _ htodo _ h0 | failed _ htodo _ h0 => exact hdone htodo h0

/-- **A flush returns**, after three answers for each batch at most. -/
theorem returns_of_triesLeft (h : Fair st) {rs : List (ℕ × Option IndexBatchResponse)}
    (hrs : st.triesLeft ≤ rs.length) :
    ∃ failedNodes, Run.exec answer st rs = .returned failedNodes := by
  induction rs generalizing st with
  | nil =>
    cases st with
    | returned l => exact ⟨l, rfl⟩
    | running f =>
      have hlt := h.attempt f.targetNode
      simp only [FlushState.attempt, if_true, FlushState.triesLeft, maxRetryAttempts,
        List.length_nil] at hlt hrs
      omega
  | cons kr rs ih =>
    obtain ⟨k, a⟩ := kr
    cases st with
    | returned l => exact ⟨l, exec_returned l _⟩
    | running f =>
      have hstep := reply_step k f a
      have hlt := triesLeft_reply h hstep
      rw [List.length_cons] at hrs
      exact @ih (f.reply k a) (h.reply hstep) (by omega)

end

/-! ## The batches of a buffer -/

theorem mem_nodes_of_nodeBatches (D : Serde) (buffer : List String) {node : String}
    (h : node ∈ (nodeBatches D buffer).map Prod.fst) :
    node ∈ (buffer.filterMap D.fromStr).map BatchItem.targetNode := by
  rw [nodeBatches] at h
  generalize buffer.filterMap D.fromStr = items at h ⊢
  induction items using List.reverseRecOn with
  | nil => exact h
  | append_singleton items item ih =>
    rw [List.foldl_append, List.foldl_cons, List.foldl_nil, map_fst_pushOperation] at h
    rw [List.map_append, List.mem_append]
    split_ifs at h
    · exact Or.inl (ih h)
    · exact (List.mem_append.1 h).imp_left ih

theorem fair_nextBatch (D : Serde) (k : ℕ) (buffer : List String) :
    Fair (nextBatch k [] (nodeBatches D buffer)) := by
  obtain ⟨htodo, hfailed, hattempt⟩ := nextBatch_spec k [] (nodeBatches D buffer)
  refine ⟨?_, fun node => ?_⟩
  · rw [hfailed, List.nil_append, (htodo.map Prod.fst).nodup_iff]
    exact (grouped_nodeBatches D buffer).nodup
  · rw [hattempt]
    decide

section
variable {D : Serde} {items : List BatchItem}

theorem filterMap_fromStr (hread : ∀ item ∈ items, D.fromStr (D.toString item) = some item) :
    (items.map D.toString).filterMap D.fromStr = items := by
  rw [List.filterMap_map]
  exact (List.filterMap_congr hread).trans List.filterMap_some

variable (hread : ∀ item ∈ items, D.fromStr (D.toString item) = some item)
include hread

/-- The batches of a flush are those of the items, one for each node. -/
theorem mem_todo_iff (k : ℕ) {b : String × List IndexOperation} :
    b ∈ (nextBatch k [] (nodeBatches D (items.map D.toString))).todo ↔
      b.1 ∈ items.map BatchItem.targetNode ∧ b.2 = batchOf items b.1 := by
  have hgrouped := grouped_nodeBatches D (items.map D.toString)
  have hnodes (node : String) := @mem_nodes_of_nodeBatches D (items.map D.toString) node
  rw [filterMap_fromStr hread] at hgrouped hnodes
  rw [(nextBatch_spec k [] _).1.mem_iff]
  constructor
  · intro hb
    exact ⟨hnodes b.1 (List.mem_map_of_mem hb), hgrouped.operations b hb⟩
  · rintro ⟨hnode, hops⟩
    obtain ⟨item, hitem, hnode⟩ := List.mem_map.1 hnode
    obtain ⟨b', hb', hnode'⟩ := List.mem_map.1 (hgrouped.nodes item hitem)
    have hfst : b'.1 = b.1 := hnode'.trans hnode
    have hsnd : b'.2 = b.2 := by
      rw [hops, hgrouped.operations b' hb', hfst]
      rfl
    exact Prod.ext hfst hsnd ▸ hb'

theorem triesLeft_le (k : ℕ) :
    (nextBatch k [] (nodeBatches D (items.map D.toString))).triesLeft ≤
      maxRetryAttempts * items.length := by
  have hle : (nodeBatches D (items.map D.toString)).length ≤ items.length := by
    have hnodup := (grouped_nodeBatches D (items.map D.toString)).nodup
    have hnodes (node : String) := @mem_nodes_of_nodeBatches D (items.map D.toString) node
    rw [filterMap_fromStr hread] at hnodes
    simpa using (List.subperm_of_subset hnodup hnodes).length_le
  have hlen := (nextBatch_spec k [] (nodeBatches D (items.map D.toString))).1.length_eq
  cases hst : nextBatch k [] (nodeBatches D (items.map D.toString)) with
  | returned => exact Nat.zero_le _
  | running f =>
    rw [hst, todo_running, List.length_cons] at hlen
    rw [FlushState.triesLeft]
    exact Nat.le_trans (Nat.sub_le _ _)
      (Nat.mul_le_mul_left _ (Nat.le_trans (Nat.le_of_eq hlen) hle))

theorem mem_failedNodes_iff_counts {k : ℕ} {rs : List (ℕ × Option IndexBatchResponse)}
    {failedNodes : List String}
    (hret : Run.exec answer (nextBatch k [] (nodeBatches D (items.map D.toString))) rs =
      .returned failedNodes) (node : String) :
    node ∈ failedNodes ↔ node ∈ items.map BatchItem.targetNode ∧ ∀ response,
      (node, some response) ∈
          (nextBatch k [] (nodeBatches D (items.map D.toString))).answers rs →
        ¬ response.Counts (batchOf items node) := by
  rw [mem_failedNodes_iff (fair_nextBatch D k _) hret, (nextBatch_spec k [] _).2.1]
  simp only [mem_todo_iff hread k, List.not_mem_nil, false_or]
  constructor
  · rintro ⟨ops, ⟨hnode, rfl⟩, hall⟩
    exact ⟨hnode, hall⟩
  · rintro ⟨hnode, hall⟩
    exact ⟨_, ⟨hnode, rfl⟩, hall⟩

end

/-! ## The result of a flush -/

/-- The node has acknowledged all operations of its items. -/
def Acknowledged (items : List BatchItem) (answers : List (String × Option IndexBatchResponse))
    (node : String) : Prop :=
  ∃ response, (node, some response) ∈ answers ∧ response.Covers (batchOf items node)

/-- What the result of a flush should say: `Ok` if every target has acknowledged its
    operations, and otherwise which ones have not. -/
structure Reports (items : List BatchItem) (answers : List (String × Option IndexBatchResponse))
    (failedNodes : List String) : Prop where
  ok : failedNodes = [] ↔ ∀ node ∈ items.map BatchItem.targetNode, Acknowledged items answers node
  err : ∀ node, node ∈ failedNodes ↔
    node ∈ items.map BatchItem.targetNode ∧ ¬ Acknowledged items answers node

/-- If a result names the nodes without an answer that counts, and no node has two answers, it
    is right iff the answers count their batches as they cover them. -/
theorem reports_iff {items : List BatchItem} {answers : List (String × Option IndexBatchResponse)}
    {failedNodes : List String}
    (hfailed : ∀ node, node ∈ failedNodes ↔ node ∈ items.map BatchItem.targetNode ∧
      ∀ response, (node, some response) ∈ answers → ¬ response.Counts (batchOf items node))
    (hnodes : ∀ node response, (node, some response) ∈ answers →
      node ∈ items.map BatchItem.targetNode)
    (hunique : ∀ node response response', (node, some response) ∈ answers →
      (node, some response') ∈ answers → response = response') :
    Reports items answers failedNodes ↔ ∀ node response, (node, some response) ∈ answers →
      (response.Covers (batchOf items node) ↔ response.Counts (batchOf items node)) := by
  constructor
  · intro h node response hmem
    have hnode := hnodes node response hmem
    constructor
    · intro hcovers
      have hnot : node ∉ failedNodes := fun hf => ((h.err node).1 hf).2 ⟨response, hmem, hcovers⟩
      by_contra hcounts
      refine hnot ((hfailed node).2 ⟨hnode, fun response' hmem' => ?_⟩)
      rwa [hunique node response' response hmem' hmem]
    · intro hcounts
      have hnot : node ∉ failedNodes := fun hf => ((hfailed node).1 hf).2 response hmem hcounts
      rw [h.err, not_and_not_right] at hnot
      obtain ⟨response', hmem', hcovers⟩ := hnot hnode
      rwa [hunique node response response' hmem hmem']
  · intro h
    have herr (node : String) : node ∈ failedNodes ↔
        node ∈ items.map BatchItem.targetNode ∧ ¬ Acknowledged items answers node := by
      rw [hfailed, Acknowledged, not_exists]
      refine and_congr_right fun _ => forall_congr' fun response => ?_
      rw [not_and]
      exact forall_congr' fun hmem => not_congr (h node response hmem).symm
    refine ⟨?_, herr⟩
    simp only [List.eq_nil_iff_forall_not_mem, herr, not_and_not_right]

/-- **A flush partitions its items exactly, and reports soundly iff the sums do not wrap
    where it matters.**  Every request is the whole batch of a target, in the order of the
    buffer; a batch is sent three times at most, and once at least by the time the flush
    returns, which it does.  Its result is right iff each answer counts its batch exactly
    when it covers it. -/
theorem flush_reports_iff (D : Serde) {items : List BatchItem}
    (hread : ∀ item ∈ items, D.fromStr (D.toString item) = some item) (k : ℕ)
    (rs : List (ℕ × Option IndexBatchResponse)) :
    let st := nextBatch k [] (nodeBatches D (items.map D.toString))
    let nodes := items.map BatchItem.targetNode
    (∀ b ∈ st.requests rs, b.1 ∈ nodes ∧ b.2 = batchOf items b.1) ∧
    (∀ node, ((st.requests rs).filter fun b => b.1 = node).length ≤ maxRetryAttempts) ∧
    (maxRetryAttempts * items.length ≤ rs.length →
      ∃ failedNodes, Run.exec answer st rs = .returned failedNodes) ∧
    ∀ failedNodes, Run.exec answer st rs = .returned failedNodes →
      (∀ node ∈ nodes, ∃ b ∈ st.requests rs, b.1 = node) ∧ failedNodes.Nodup ∧
      (Reports items (st.answers rs) failedNodes ↔
        ∀ node response, (node, some response) ∈ st.answers rs →
          (response.Covers (batchOf items node) ↔ response.Counts (batchOf items node))) := by
  intro st nodes
  have hfair : Fair st := fair_nextBatch D k _
  refine ⟨fun b hb => (mem_todo_iff hread k).1 (mem_requests hb),
    fun node => Nat.le_trans (Nat.le_add_right _ _) (attempts_le hfair rs node),
    fun hlen => returns_of_triesLeft hfair (Nat.le_trans (triesLeft_le hread k) hlen),
    fun failedNodes hret => ⟨fun node hnode => ?_, ?_, ?_⟩⟩
  · exact ⟨(node, batchOf items node),
      mem_requests_of_returned hret ((mem_todo_iff hread k).2 ⟨hnode, rfl⟩), rfl⟩
  · have hnodup : Fair (.returned failedNodes) :=
      hret ▸ Run.exec_inv (fun _ kr h => h.answer kr) rs hfair
    exact (List.nodup_append.1 hnodup.nodup).1
  · refine reports_iff (mem_failedNodes_iff_counts hread hret) (fun node response hmem => ?_)
      fun node response response' hmem hmem' => answer_unique hfair hmem hmem'
    obtain ⟨b, hb, rfl⟩ := List.mem_map.1 (mem_answers hmem)
    exact ((mem_todo_iff hread k).1 hb).1

theorem nextBatch_sample :
    nextBatch 0 [] (nodeBatches sampleIngestor.serde
        ([sampleItem].map sampleIngestor.serde.toString)) =
      .running ⟨"node", [sampleItem.operation], 0, [], []⟩ := by
  have hbatches : nodeBatches sampleIngestor.serde
      ([sampleItem].map sampleIngestor.serde.toString) = [("node", [sampleItem.operation])] := by
    decide +kernel
  rw [hbatches]
  rfl

/-- The node answers at the second try. -/
theorem flush_reports_retried :
    let rs := [(0, none), (0, some ⟨1, 0, true⟩)]
    let st := nextBatch 0 [] (nodeBatches sampleIngestor.serde
      ([sampleItem].map sampleIngestor.serde.toString))
    Run.exec answer st rs = .returned [] ∧ Reports [sampleItem] (st.answers rs) [] := by
  intro rs st
  have hread : ∀ item ∈ [sampleItem], sampleIngestor.serde.fromStr
      (sampleIngestor.serde.toString item) = some item := by decide +kernel
  have hret : Run.exec answer st rs = .returned [] := by
    rw [show st = _ from nextBatch_sample]
    rfl
  have hanswers : st.answers rs = [("node", none), ("node", some ⟨1, 0, true⟩)] := by
    rw [show st = _ from nextBatch_sample]
    rfl
  refine ⟨hret, ((flush_reports_iff sampleIngestor.serde hread 0 rs).2.2.2 [] hret).2.2.2 ?_⟩
  intro node response hmem
  have hmem : (node, some response) ∈ st.answers rs := hmem
  rw [hanswers] at hmem
  simp only [List.mem_cons, Prod.mk.injEq, reduceCtorEq, and_false, false_or, List.not_mem_nil,
    or_false, Option.some.injEq] at hmem
  obtain ⟨rfl, rfl⟩ := hmem
  exact IndexBatchResponse.covers_iff_counts (by decide : 1 < 2 ^ 32) (by decide)

/-- The node counts `2 ^ 32` operations, which is none in a `u32`: it has acknowledged the one
    operation it was sent, and has failed. -/
theorem flush_sum_wraps :
    let rs := [(0, some ⟨4294967295, 1, true⟩)]
    let st := nextBatch 0 [] (nodeBatches sampleIngestor.serde
      ([sampleItem].map sampleIngestor.serde.toString))
    Run.exec answer st rs = .returned ["node"] ∧
      ¬ Reports [sampleItem] (st.answers rs) ["node"] := by
  rw [nextBatch_sample]
  refine ⟨rfl, fun h => ?_⟩
  have hcovers : (⟨4294967295, 1, true⟩ : IndexBatchResponse).Covers
      (batchOf [sampleItem] "node") := (by decide : 1 ≤ 4294967295 + 1)
  exact ((h.err "node").1 List.mem_cons_self).2 ⟨_, List.mem_cons_self, hcovers⟩

end Tantylla
