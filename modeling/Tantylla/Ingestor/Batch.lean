/-
  Items and flushes of the batch service (`batch/service.rs`).

  The buffer holds items as JSON texts.  A flush takes the whole buffer, sorts the
  items into one batch for each node (`nodeBatches`), and sends the batches one
  after the other in the order of a hash map, which here is any order (`pick`).
  `Flush` is a flush that is waiting for the answer to a try; `Flush.reply` is what
  it does with the answer: it tries again after an error, up to three times, and
  otherwise goes on to the next batch.

  A delivery is an operation with its target node; the counting lemmas say that a
  flush holds the deliveries of the items it took until they are answered.
-/
import Tantylla.Proto
import Mathlib.Data.List.Count
import Mathlib.Data.List.Induction
import Mathlib.Data.List.Perm.Basic
import Mathlib.Algebra.Group.Nat.Defs

namespace Tantylla

/-- `BatchItem` -/
structure BatchItem where
  targetNode : String
  id : String
  opType : ℤ
  writetime : ℕ
  cdcTtl : Option ℤ
  payloadJson : String
  collectionDeltas : List CollectionDelta
  partitionKey : Option String
  deriving DecidableEq

/-- The operation a flush sends for an item. -/
def BatchItem.operation (item : BatchItem) : IndexOperation where
  id := item.id
  opType := item.opType
  writetime := item.writetime
  cdcTtl := item.cdcTtl
  payloadJson := item.payloadJson
  collectionDeltas := item.collectionDeltas
  partitionKey := item.partitionKey

/-- An operation for a node. -/
abbrev Delivery := String × IndexOperation

def BatchItem.delivery (item : BatchItem) : Delivery := (item.targetNode, item.operation)

/-- `serde_json::to_string` and `serde_json::from_str` on items. -/
structure Serde where
  toString : BatchItem → String
  fromStr : String → Option BatchItem

/-! ## The batches of a flush -/

/-- `node_batches.entry(target_node).or_default().push(operation)`. -/
def pushOperation (targetNode : String) (operation : IndexOperation) :
    List (String × List IndexOperation) → List (String × List IndexOperation)
  | [] => [(targetNode, [operation])]
  | (node, operations) :: batches =>
    if node = targetNode then (node, operations ++ [operation]) :: batches
    else (node, operations) :: pushOperation targetNode operation batches

/-- One batch for each node; an item that does not decode is logged and left out. -/
def nodeBatches (D : Serde) (itemsToProcess : List String) : List (String × List IndexOperation) :=
  (itemsToProcess.filterMap D.fromStr).foldl
    (fun batches item => pushOperation item.targetNode item.operation batches) []

/-- The deliveries of a batch. -/
def deliveries (batch : String × List IndexOperation) : List Delivery :=
  batch.2.map fun operation => (batch.1, operation)

section
variable (e : Delivery)

theorem count_pushOperation (node : String) (o : IndexOperation)
    (bs : List (String × List IndexOperation)) :
    ((pushOperation node o bs).flatMap deliveries).count e =
      (bs.flatMap deliveries).count e + [(node, o)].count e := by
  induction bs with
  | nil => simp [pushOperation, deliveries]
  | cons b bs ih =>
    obtain ⟨n, ops⟩ := b
    rw [pushOperation]
    split_ifs with h
    · subst h
      simp only [List.flatMap_cons, List.count_append, deliveries, List.map_append, List.map_cons,
        List.map_nil]
      omega
    · simp only [List.flatMap_cons, List.count_append, ih]
      omega

theorem count_foldl_pushOperation (items : List BatchItem)
    (bs : List (String × List IndexOperation)) :
    ((items.foldl (fun bs item => pushOperation item.targetNode item.operation bs) bs).flatMap
      deliveries).count e = (bs.flatMap deliveries).count e +
        (items.map BatchItem.delivery).count e := by
  induction items generalizing bs with
  | nil => simp
  | cons item items ih =>
    rw [List.foldl_cons, ih, count_pushOperation, Nat.add_assoc, ← List.count_append]
    rfl

/-- **The batches deliver the items that decode.** -/
theorem count_nodeBatches (D : Serde) (items : List String) :
    ((nodeBatches D items).flatMap deliveries).count e =
      ((items.filterMap D.fromStr).map BatchItem.delivery).count e := by
  rw [nodeBatches, count_foldl_pushOperation]
  simp

end

/-! ## The order in a batch -/

/-- A batch after an operation was pushed: another node's, one that grew, or a new one. -/
theorem mem_pushOperation {node : String} {o : IndexOperation}
    {bs : List (String × List IndexOperation)} {b : String × List IndexOperation}
    (hnodup : (bs.map Prod.fst).Nodup) (h : b ∈ pushOperation node o bs) :
    (b ∈ bs ∧ b.1 ≠ node) ∨ (∃ ops, (node, ops) ∈ bs ∧ b = (node, ops ++ [o])) ∨
      node ∉ bs.map Prod.fst ∧ b = (node, [o]) := by
  induction bs with
  | nil => exact Or.inr (Or.inr ⟨List.not_mem_nil, List.mem_singleton.1 h⟩)
  | cons c bs ih =>
    obtain ⟨n, ops⟩ := c
    obtain ⟨hn, hnodup⟩ := List.nodup_cons.1 hnodup
    rw [pushOperation] at h
    split_ifs at h with hnode
    · subst hnode
      rcases List.mem_cons.1 h with rfl | h
      · exact Or.inr (Or.inl ⟨ops, List.mem_cons_self, rfl⟩)
      · exact Or.inl ⟨List.mem_cons_of_mem _ h, fun hb => hn (List.mem_map.2 ⟨b, h, hb⟩)⟩
    · rcases List.mem_cons.1 h with rfl | h
      · exact Or.inl ⟨List.mem_cons_self, hnode⟩
      · rcases ih hnodup h with ⟨hb, hne⟩ | ⟨ops', hb, rfl⟩ | ⟨hb, rfl⟩
        · exact Or.inl ⟨List.mem_cons_of_mem _ hb, hne⟩
        · exact Or.inr (Or.inl ⟨ops', List.mem_cons_of_mem _ hb, rfl⟩)
        · refine Or.inr (Or.inr ⟨?_, rfl⟩)
          rw [List.map_cons, List.mem_cons, not_or]
          exact ⟨fun h => hnode h.symm, hb⟩

theorem map_fst_pushOperation (node : String) (o : IndexOperation)
    (bs : List (String × List IndexOperation)) :
    (pushOperation node o bs).map Prod.fst =
      if node ∈ bs.map Prod.fst then bs.map Prod.fst else bs.map Prod.fst ++ [node] := by
  induction bs with
  | nil => rfl
  | cons c bs ih =>
    obtain ⟨n, ops⟩ := c
    rw [pushOperation]
    by_cases hnode : n = node
    · subst hnode
      simp
    · have hmem : node ∈ ((n, ops) :: bs).map Prod.fst ↔ node ∈ bs.map Prod.fst := by
        rw [List.map_cons, List.mem_cons, or_iff_right (Ne.symm hnode)]
      rw [if_neg hnode, List.map_cons, ih]
      simp only [hmem]
      split_ifs <;> rfl

/-- Each node has one batch, with the operations of its items in order. -/
structure Grouped (items : List BatchItem) (bs : List (String × List IndexOperation)) : Prop where
  nodup : (bs.map Prod.fst).Nodup
  nodes : ∀ item ∈ items, item.targetNode ∈ bs.map Prod.fst
  operations : ∀ b ∈ bs,
    b.2 = (items.filter fun item => item.targetNode = b.1).map BatchItem.operation

theorem Grouped.push {items : List BatchItem} {bs : List (String × List IndexOperation)}
    (h : Grouped items bs) (item : BatchItem) :
    Grouped (items ++ [item]) (pushOperation item.targetNode item.operation bs) := by
  have hnames := map_fst_pushOperation item.targetNode item.operation bs
  refine ⟨?_, fun item' hitem' => ?_, fun b hb => ?_⟩
  · rw [hnames]
    split_ifs with hmem
    · exact h.nodup
    · exact List.nodup_append.2 ⟨h.nodup, List.nodup_cons.2 ⟨List.not_mem_nil, List.nodup_nil⟩,
        fun a ha b hb hab => hmem (List.mem_singleton.1 hb ▸ hab ▸ ha)⟩
  · rw [hnames]
    rcases List.mem_append.1 hitem' with hitem' | hitem'
    · split_ifs
      · exact h.nodes item' hitem'
      · exact List.mem_append_left _ (h.nodes item' hitem')
    · rw [List.mem_singleton.1 hitem']
      split_ifs with hmem
      · exact hmem
      · exact List.mem_append_right _ (List.mem_singleton_self _)
  · rw [List.filter_append, List.map_append]
    rcases mem_pushOperation h.nodup hb with ⟨hb, hne⟩ | ⟨ops, hops, rfl⟩ | ⟨hnone, rfl⟩
    · rw [List.filter_cons_of_neg (by simpa using Ne.symm hne), h.operations b hb]
      exact (List.append_nil _).symm
    · rw [List.filter_cons_of_pos (by simp), ← h.operations _ hops]
      rfl
    · -- no item before it was for the node
      rw [List.filter_cons_of_pos (by simp), List.filter_eq_nil_iff.2 fun item' hitem' => ?_]
      · rfl
      · rw [decide_eq_true_eq]
        intro heq
        have hmem := h.nodes item' hitem'
        rw [heq] at hmem
        exact hnone hmem

/-- **A batch has the operations of its node in the order of the items.** -/
theorem grouped_nodeBatches (D : Serde) (items : List String) :
    Grouped (items.filterMap D.fromStr) (nodeBatches D items) := by
  rw [nodeBatches]
  induction items.filterMap D.fromStr using List.reverseRecOn with
  | nil => exact ⟨List.nodup_nil, nofun, nofun⟩
  | append_singleton items item ih =>
    rw [List.foldl_append]
    exact ih.push item

/-! ## A flush -/

/-- `DEFAULT_BATCH_LIMIT` -/
def batchLimit : ℕ := 250

/-- `DEFAULT_MAX_RETRY_ATTEMPTS` -/
def maxRetryAttempts : ℕ := 3

/-- A flush that waits for the answer to a try of `send_batch_with_retry`. -/
structure Flush where
  targetNode : String
  operations : List IndexOperation
  /-- the tries of this batch that failed -/
  attempt : ℕ
  /-- the batches not sent yet -/
  nodeBatches : List (String × List IndexOperation)
  failedNodes : List String

/-- Where a flush stands: it runs, or it has returned: `Ok` if no node failed. -/
inductive FlushState where
  | running (f : Flush)
  | returned (failedNodes : List String)

/-- One element of a list and the others; none of an empty list. -/
def pick {α : Type*} (k : ℕ) (l : List α) : Option (α × List α) :=
  (l[k % l.length]?).map fun a => (a, l.eraseIdx (k % l.length))

/-- The flush goes on to the next batch, or returns. -/
def nextBatch (k : ℕ) (failedNodes : List String) (batches : List (String × List IndexOperation)) :
    FlushState :=
  match pick k batches with
  | some ((targetNode, operations), rest) =>
    .running { targetNode, operations, attempt := 0, nodeBatches := rest, failedNodes }
  | none => .returned failedNodes

namespace Flush

/-- `operations.len() as u32` -/
def expectedCount (f : Flush) : ℕ := f.operations.length % 2 ^ 32

/-- What the flush does with the answer to a try; no answer stands for an error. -/
def reply (k : ℕ) (f : Flush) : Option IndexBatchResponse → FlushState
  | some response =>
    let totalProcessed := (response.processedCount + response.skippedCount) % 2 ^ 32
    if totalProcessed < f.expectedCount then
      nextBatch k (f.failedNodes ++ [f.targetNode]) f.nodeBatches
    else nextBatch k f.failedNodes f.nodeBatches
  | none =>
    if f.attempt + 1 < maxRetryAttempts then .running { f with attempt := f.attempt + 1 }
    else nextBatch k (f.failedNodes ++ [f.targetNode]) f.nodeBatches

/-- The deliveries of the batches that are not answered yet. -/
def held (f : Flush) : List Delivery :=
  deliveries (f.targetNode, f.operations) ++ f.nodeBatches.flatMap deliveries

/-- The deliveries that an answer acknowledges: all of the batch, if it counts as many
    operations as processed or skipped. -/
def acknowledged (f : Flush) : Option IndexBatchResponse → List Delivery
  | some response =>
    if f.operations.length ≤ response.processedCount + response.skippedCount then
      deliveries (f.targetNode, f.operations)
    else []
  | none => []

/-- The batch is not given up with this answer: it is acknowledged, or tried again. -/
def Answered (f : Flush) : Option IndexBatchResponse → Prop
  | some response => f.operations.length ≤ response.processedCount + response.skippedCount
  | none => f.attempt + 1 < maxRetryAttempts

instance (f : Flush) : ∀ response, Decidable (f.Answered response)
  | some response =>
    inferInstanceAs (Decidable (_ ≤ response.processedCount + response.skippedCount))
  | none => inferInstanceAs (Decidable (_ < maxRetryAttempts))

end Flush

/-- The deliveries that a flush holds. -/
def FlushState.held : FlushState → List Delivery
  | .running f => f.held
  | .returned _ => []

theorem pick_perm {α : Type*} {k : ℕ} {l rest : List α} {a : α} (h : pick k l = some (a, rest)) :
    (a :: rest).Perm l := by
  obtain ⟨b, hb, he⟩ := Option.map_eq_some_iff.1 h
  cases he
  obtain ⟨hlt, rfl⟩ := List.getElem?_eq_some_iff.1 hb
  exact List.getElem_cons_eraseIdx_perm hlt

theorem pick_eq_none {α : Type*} {k : ℕ} {l : List α} (h : pick k l = none) : l = [] := by
  rcases l with _ | ⟨a, l⟩
  · rfl
  · rw [pick, Option.map_eq_none_iff, List.getElem?_eq_none_iff] at h
    exact absurd (Nat.mod_lt k (Nat.succ_pos l.length)) (Nat.not_lt.2 h)

/-- Whatever batch comes next, the flush holds the deliveries of all of them. -/
theorem count_nextBatch (e : Delivery) (k : ℕ) (failedNodes : List String)
    (bs : List (String × List IndexOperation)) :
    (nextBatch k failedNodes bs).held.count e = (bs.flatMap deliveries).count e := by
  unfold nextBatch
  cases h : pick k bs with
  | none => rw [pick_eq_none h]; rfl
  | some p => exact ((pick_perm h).flatMap_right deliveries).count_eq e

/-- **A delivery whose batch is not given up stays held or is acknowledged.** -/
theorem Flush.count_reply {e : Delivery} (k : ℕ) {f : Flush} {r : Option IndexBatchResponse}
    (h : e ∈ deliveries (f.targetNode, f.operations) → f.Answered r) :
    f.held.count e ≤ (f.reply k r).held.count e + (f.acknowledged r).count e := by
  have hnext (failedNodes : List String) := count_nextBatch e k failedNodes f.nodeBatches
  rw [held, List.count_append]
  cases r with
  | some response =>
    have hreply : (f.reply k (some response)).held.count e =
        (f.nodeBatches.flatMap deliveries).count e := by
      rw [reply]
      split_ifs
      · exact hnext _
      · exact hnext _
    rw [hreply, acknowledged]
    split_ifs with hle
    · omega
    · rw [List.count_eq_zero_of_not_mem fun he => hle (h he)]
      omega
  | none =>
    rw [reply]
    split_ifs with hlt
    · simp only [FlushState.held, held, List.count_append]
      omega
    · rw [hnext, List.count_eq_zero_of_not_mem fun he => hlt (h he)]
      omega

end Tantylla
