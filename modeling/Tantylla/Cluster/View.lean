/-
  The index is a view of the table, while the cluster runs.

  `node_follows` says which operations each layer of a node shows, `views_iff` what the
  delta rows of a key make of its document.  `index_views_table` joins them: the searches of
  a node, its last commit and its writer show the row of the table as it was after some
  number of its changes, none of them ahead of the next, with the values as the index
  keeps them.
-/
import Tantylla.Cluster.Follows
import Tantylla.Ingestor.TableView

namespace Tantylla

open Ingestor Engine OrdMap

variable {M : Ingestor} {X : Crates} {C : RouterCrates} {router : Router}
  {part : String → String} {n x : String} {rows : List CDCRow} {cols : List String}

/-! ## The rows of a document -/

/-- The row `r` has a writetime before that of `r'`. -/
def CDCRow.Earlier (C : RouterCrates) (r r' : CDCRow) : Prop :=
  ∀ w ∈ extractWritetimeFromTimeuuid C.getTimestamp r.time,
    ∀ w' ∈ extractWritetimeFromTimeuuid C.getTimestamp r'.time, w < w'

/-- The delta rows of the document `x`, in the order of their writetimes. -/
structure History (X : Crates) (C : RouterCrates) (router : Router) (cols : List String)
    (x : String) (rows : List CDCRow) : Prop where
  delta : ∀ r ∈ rows, r.IsDelta
  wellFormed : ∀ r ∈ rows, r.WellFormed C.toFormats cols ∧ r.ReadBack X C
  routed : ∀ r ∈ rows, ∃ o, router.operationOf C r = some o ∧ o.id = x
  times : rows.Pairwise (CDCRow.Earlier C)

/-- The operations that the rows are delivered as. -/
def operationsOf (C : RouterCrates) (router : Router) (rows : List CDCRow) :
    List IndexOperation := rows.filterMap (router.operationOf C)

theorem History.take (h : History X C router cols x rows) (k : ℕ) :
    History X C router cols x (rows.take k) where
  delta r hr := h.delta r (List.mem_of_mem_take hr)
  wellFormed r hr := h.wellFormed r (List.mem_of_mem_take hr)
  routed r hr := h.routed r (List.mem_of_mem_take hr)
  times := h.times.sublist (List.take_sublist ..)

theorem History.inOrder (h : History X C router cols x rows) :
    InOrder (operationsOf C router rows) := by
  refine List.pairwise_filterMap.2 (h.times.imp_of_mem fun {r r'} hr hr' hlt o ho o' ho' => ?_)
  obtain ⟨hw, -⟩ := (h.delta r hr).delivered ho
  obtain ⟨hw', -⟩ := (h.delta r' hr').delivered ho'
  exact (hlt _ hw _ hw').le

theorem History.operations_take (h : History X C router cols x rows) (k : ℕ) :
    (operationsOf C router rows).take k = operationsOf C router (rows.take k) := by
  have hrouted := h.routed
  clear h
  unfold operationsOf
  induction rows generalizing k with
  | nil => rw [List.take_nil, List.filterMap_nil, List.take_nil]
  | cons r rows ih =>
    obtain ⟨⟨o, ho, -⟩, hrest⟩ := List.forall_mem_cons.1 hrouted
    cases k with
    | zero => rfl
    | succ k =>
      rw [List.filterMap_cons_some ho, List.take_succ_cons, List.take_succ_cons,
        List.filterMap_cons_some ho, ih k hrest]

theorem History.operations_split (h : History X C router cols x rows) {ops : List IndexOperation}
    (hops : ops <+: operationsOf C router rows) :
    operationsOf C router rows = ops ++ operationsOf C router (rows.drop ops.length) := by
  have htake := List.prefix_iff_eq_take.1 hops
  rw [h.operations_take] at htake
  generalize ops.length = k at htake ⊢
  rw [htake, operationsOf, operationsOf, operationsOf, ← List.filterMap_append,
    List.take_append_drop]

/-- **The document after the operations of the rows** has the body that the rows make, as the
    index keeps it. -/
theorem History.body_docsAfter (h : History X C router cols x rows) (hX : X.Stores) :
    (docsAfter hX.toLawful part x (operationsOf C router rows)).head?.map TantivyDoc.body =
      rows.foldl (storedEffect X C) none := by
  obtain ⟨-, hacts⟩ := @acts_of_rows X C router part x hX rows fun r hr =>
    ⟨h.delta r hr, ⟨_, (h.wellFormed r hr).2⟩, h.routed r hr⟩
  -- no operation is skipped: each is later than the one before
  have hchain : rows.IsChain (CDCRow.Before C) := (h.times.imp Or.inr).isChain
  have hfresh := Register.fresh_iff.2 ⟨(head_fresh_iff hacts []).2 fun d hd => (by cases hd),
    (isChain_follows_iff hacts).2 hchain⟩
  rw [docsAfter, operationsOf, Register.exec_of_fresh hfresh]
  exact foldl_effect hacts []

/-! ## The layers of a node -/

/-- The body of the document of the id in a layer. -/
def bodyOf (id : String) (l : List TantivyDoc) : Option Json :=
  (docsOf id l).head?.map TantivyDoc.body

/-- What is shown after the first `k` operations is what the table had after `k` changes. -/
theorem History.views (h : History X C router cols x rows) (hX : X.Stores)
    (hkeeps : Run.Along tableStep (CDCRow.Keeps C.toFormats cols) none rows)
    {l : List TantivyDoc} {ops : List IndexOperation} (hops : ops <+: operationsOf C router rows)
    (hl : docsOf x l = docsAfter hX.toLawful part x ops) :
    StoredViews C.toFormats cols X (Run.exec tableStep none (rows.take ops.length))
      (bodyOf x l) := by
  rw [List.prefix_iff_eq_take.1 hops, h.operations_take] at hl
  rw [bodyOf, hl, (h.take _).body_docsAfter hX]
  exact Views.stored hX (h.take _).wellFormed
    ((views_iff h.wellFormed).2 hkeeps _ (List.take_prefix ..))

namespace Cluster

variable {es : List ClusterEvent}

/-- **The index is a view of the table.**  Let a cluster run in an orderly way, and let the
    operations pushed on the document `x` to its node be those of a history of delta rows of
    the table that keeps the view.  Then the reader of the node, its last commit and its writer
    show the row of the table as it was after `shown ≤ committed ≤ applied` of its changes,
    with its values as the index keeps them.  Once no request with operations on it is under
    way, the other changes are those in the buffer. -/
theorem index_views_table (hX : X.Stores)
    (hes : Run.Along (clusterStep M X) (Orderly M X part n x) clusterStart es)
    (h : History X M.crates M.router cols x rows)
    (hkeeps : Run.Along tableStep (CDCRow.Keeps M.crates.toFormats cols) none rows)
    (hpushed : concerning part n x (Run.exec (clusterStep M X) clusterStart es).net.pushed =
      operationsOf M.crates M.router rows) :
    let s := Run.exec (clusterStep M X) clusterStart es
    let table := fun k => Run.exec tableStep none (rows.take k)
    ∃ shown committed applied, shown ≤ committed ∧ committed ≤ applied ∧
      applied ≤ rows.length ∧
      StoredViews M.crates.toFormats cols X (table shown) (bodyOf x (s.nodes n).reader) ∧
      StoredViews M.crates.toFormats cols X (table committed) (bodyOf x (s.nodes n).committed) ∧
      StoredViews M.crates.toFormats cols X (table applied) (bodyOf x (s.nodes n).writer) ∧
      ((∀ r ∈ s.net.requests, concerning part n x (deliveries r) = []) →
        concerning part n x (buffered M s.net.state.shared) =
          operationsOf M.crates M.router (rows.drop applied)) := by
  intro s table
  have hord := h.inOrder
  rw [← hpushed] at hord
  obtain ⟨shown, committed, applied, hshown, hcommitted, happlied, hreader, hcommit, hwriter,
    hquiet⟩ := (following_run hX.toLawful hes hord).pushed
  rw [hpushed] at happlied hquiet
  have hle : applied.length ≤ rows.length :=
    happlied.length_le.trans (List.length_filterMap_le ..)
  refine ⟨shown.length, committed.length, applied.length, hshown.length_le,
    hcommitted.length_le, hle, h.views hX hkeeps ((hshown.trans hcommitted).trans happlied) hreader,
    h.views hX hkeeps (hcommitted.trans happlied) hcommit, h.views hX hkeeps happlied hwriter,
    fun hnothing => ?_⟩
  exact List.append_cancel_left ((hquiet hnothing).trans (h.operations_split happlied))

/-- The two inserts of the sample run. -/
def sampleHistory : List CDCRow :=
  [sampleInsert 0x1419d6801dd211b28000000000000000, sampleInsert 0x14b26d001dd211b28000000000000000]

theorem sampleHistory_history : History sampleUpsertCrates sampleUpsertIngestor.crates
    sampleUpsertIngestor.router ["c1", "c2"] "x:2:3" sampleHistory := by
  have hinsert (time : Uuid) (hread : (sampleInsert time).ReadBack sampleUpsertCrates
      sampleUpsertIngestor.crates) :
      (sampleInsert time).WellFormed sampleUpsertIngestor.crates.toFormats ["c1", "c2"] ∧
        (sampleInsert time).ReadBack sampleUpsertCrates sampleUpsertIngestor.crates := by
    refine ⟨⟨(by decide : ["k", "c1", "c2"].Nodup), ?_, ?_⟩, hread⟩
    · simp [sampleInsert, sampleBound]
    · simp [sampleInsert, sampleBound, cdcFields, find_put]
  refine ⟨?_, ?_, ?_, ?_⟩
  · simp [sampleHistory, CDCRow.IsDelta, sampleInsert, sampleBound]
  · exact List.forall_mem_cons.2 ⟨hinsert _ (by unfold CDCRow.ReadBack; decide),
      List.forall_mem_singleton.2 (hinsert _ (by unfold CDCRow.ReadBack; decide))⟩
  · exact List.forall_mem_cons.2 ⟨⟨_, rfl, by decide⟩,
      List.forall_mem_singleton.2 ⟨_, rfl, by decide⟩⟩
  · refine List.pairwise_pair.2 fun w hw w' hw' => ?_
    cases hw
    cases hw'
    decide

theorem sampleHistory_keeps : Run.Along tableStep
    (CDCRow.Keeps sampleUpsertIngestor.crates.toFormats ["c1", "c2"]) none sampleHistory := by
  refine ⟨fun _ c hc _ => ?_, fun _ c hc _ => ?_, trivial⟩
  all_goals
    simp only [sampleInsert, sampleBound, List.mem_cons, List.not_mem_nil, or_false] at hc
    rcases hc with rfl | rfl | rfl <;> rfl

theorem index_views_table_sample :
    let s := Run.exec (clusterStep sampleUpsertIngestor sampleUpsertCrates) clusterStart
      sampleFollowed
    ∃ applied ≤ 2, StoredViews sampleUpsertIngestor.crates.toFormats ["c1", "c2"]
      sampleUpsertCrates (Run.exec tableStep none (sampleHistory.take applied))
      (bodyOf "x:2:3" (s.nodes "node").writer) := by
  obtain ⟨_, _, applied, -, -, hle, -, -, hviews, -⟩ :=
    @index_views_table sampleUpsertIngestor sampleUpsertCrates (fun _ => "x") "node" "x:2:3"
      sampleHistory ["c1", "c2"] sampleFollowed sampleUpsertCrates_stores (by decide +kernel)
      sampleHistory_history sampleHistory_keeps (by decide +kernel)
  exact ⟨applied, hle, hviews⟩

end Cluster

end Tantylla
