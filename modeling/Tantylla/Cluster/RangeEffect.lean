/-
  What a range delete does to a node (`router/core.rs` over `engine/core.rs`).

  The ingestor asks the node for the ids of the partition, keeps those within the bounds and
  sends a delete for each; the node executes the deletes in batches, between commits and
  reloads.  `range_delete_removes`: what is gone at the end is what the partition had within
  the bounds and from before the start of the delete, and nothing else.
-/
import Tantylla.Ingestor.Batch
import Tantylla.Ingestor.Ranges
import Tantylla.Node.Batching
import Tantylla.Node.Listing

namespace Tantylla

open Engine

variable {X : Crates} {part : String → String} {x pk : String} {cs : List Call}

/-! ## The list of a partition -/

namespace Engine

theorem homed_shown (hX : X.Lawful)
    (hcs : Run.Along (callStep X) (CallSound X part x) (new []) cs) :
    ∀ d ∈ (Run.exec (callStep X) (new []) cs).reader, d.partitionKey = part d.id := by
  intro d hd
  rw [(marked_run (X := X) [] cs).reader] at hd
  exact (homed_calls hX (hcs.take _) d.id).1 d (mem_docsOf.2 ⟨hd, rfl⟩)

theorem part_of_listed (hX : X.Lawful)
    (hcs : Run.Along (callStep X) (CallSound X part x) (new []) cs) {id : String}
    (h : id ∈ (Run.exec (callStep X) (new []) cs).listDocumentIdsByPartitionKey pk) :
    part id = pk := by
  rcases mem_listDocumentIds.1 h with ⟨c, hc, hpk⟩ | ⟨d, hd, rfl, hpk⟩
  · exact ((homed_calls hX hcs id).2 c hc).symm.trans hpk
  · exact (homed_shown hX hcs d hd).symm.trans hpk

/-- A live document of the partition is listed, if the snapshot shows what is not cached. -/
theorem listed_of_live {s : Engine} (hs : Coherent s) (hshown : Shown s pk) {d : TantivyDoc}
    (hd : d ∈ s.writer) (hpk : d.partitionKey = pk) :
    d.id ∈ s.listDocumentIdsByPartitionKey pk := by
  refine mem_listDocumentIds.2 ?_
  cases hc : s.uncommittedDocs.get? d.id with
  | some c => exact Or.inl ⟨c, rfl, (hs.cached hc hd rfl).symm.trans hpk⟩
  | none => exact Or.inr (hshown d hd hpk hc)

/-! ## Deletes of one writetime -/

theorem mem_act_erase {l : List TantivyDoc} (hl : ∀ d ∈ l, ∀ e ∈ l, d = e) {w : ℕ}
    {d : TantivyDoc} : d ∈ lives.act l (.erase w) ↔ d ∈ l ∧ w ≤ d.writetime := by
  cases l with
  | nil => simp [Register.act, Register.skips, Register.stale, Register.Op.version,
      Register.Op.effect, lives]
  | cons e l =>
    have hskips : lives.skips (e :: l) (.erase w) = decide (w ≤ e.writetime) := rfl
    rw [Register.act, hskips]
    by_cases hw : w ≤ e.writetime
    · simp only [hw, decide_true, if_true]
      refine ⟨fun hd => ⟨hd, ?_⟩, And.left⟩
      rw [hl d hd e List.mem_cons_self]
      exact hw
    · simp only [hw, decide_false, Bool.false_eq_true, if_false]
      refine ⟨fun hd => (by cases hd), fun hd => absurd hd.2 ?_⟩
      rw [hl d hd.1 e List.mem_cons_self]
      exact hw

theorem mem_exec_erase {w : ℕ} {as : List lives.Op} (has : ∀ a ∈ as, a = .erase w)
    {d : TantivyDoc} : ∀ {l : List TantivyDoc}, (∀ d ∈ l, ∀ e ∈ l, d = e) →
      (d ∈ Run.exec lives.act l as ↔ d ∈ l ∧ (as ≠ [] → w ≤ d.writetime)) := by
  induction as with
  | nil => simp
  | cons a as ih =>
    intro l hl
    obtain ⟨rfl, hrest⟩ := List.forall_mem_cons.1 has
    have hsub {e : TantivyDoc} (he : e ∈ lives.act l (.erase w)) : e ∈ l :=
      ((mem_act_erase hl).1 he).1
    rw [Run.exec_cons, ih hrest fun d hd e he => hl d (hsub hd) e (hsub he), mem_act_erase hl]
    simp only [ne_eq, reduceCtorEq, not_false_eq_true, forall_true_left]
    exact ⟨fun h => h.1, fun h => ⟨h, fun _ => h.2⟩⟩

end Engine

/-! ## The range -/

section
variable {C : RouterCrates} {router : Router} {start : PendingRangeStart} {startRow endRow : CDCRow}

/-- The deletes that a range delete sends, given the ids that the node lists. -/
def rangeDeletes (C : RouterCrates) (router : Router) (start : PendingRangeStart) (endRow : CDCRow)
    (allDocIds : List String) : List IndexOperation :=
  (router.rangeDeleteItems C start endRow allDocIds).map BatchItem.operation

/-- A range delete is one delete for each id that it selects. -/
theorem mem_rangeDeletes {ids : List String} {o : IndexOperation} :
    o ∈ rangeDeletes C router start endRow ids →
      o.type = .delete ∧ o.writetime = start.writetime ∧
        o.id ∈ router.filterDocIdsByCkRange C ids start (router.ckValuesOf C endRow)
          (endRow.operation = .rowRangeDelInclRight) := by
  intro ho
  obtain ⟨item, hitem, rfl⟩ := List.mem_map.1 ho
  obtain ⟨id, hid, rfl⟩ := List.mem_map.1 hitem
  exact ⟨OpType.ofI32_toI32 .delete, rfl, hid⟩

theorem exists_rangeDelete {ids : List String}
    (h : x ∈ router.filterDocIdsByCkRange C ids start (router.ckValuesOf C endRow)
      (endRow.operation = .rowRangeDelInclRight)) :
    ∃ o ∈ rangeDeletes C router start endRow ids, o.id = x :=
  ⟨_, List.mem_map_of_mem (List.mem_map_of_mem h), rfl⟩

theorem mem_selected_iff {key : String → DocKey} {ids : List String}
    (hcolumns : router.partitionKeyColumns ≠ [])
    (hstart : router.extractRangeDeleteStart C startRow = some start)
    (hkey : ∀ id ∈ ids, (key id).id C.toFormats = id ∧ router.HasKey C (key id)) :
    x ∈ router.filterDocIdsByCkRange C ids start (router.ckValuesOf C endRow)
        (endRow.operation = .rowRangeDelInclRight) ↔
      x ∈ ids ∧ router.InEachColumn (textOrder C) startRow endRow (key x) := by
  have hids : (ids.map key).map (DocKey.id C.toFormats) = ids := by
    rw [List.map_map]
    exact (List.map_congr_left fun id hid => (hkey id hid).1).trans (List.map_id' ids)
  constructor
  · intro h
    have hx : x ∈ ids := (List.mem_filter.1 h).1
    refine ⟨hx, ?_⟩
    rw [← hids, ← (hkey x hx).1] at h
    exact (Router.mem_filter_iff (hkey x hx).2 hcolumns hstart (List.mem_map_of_mem hx)).1 h
  · rintro ⟨hx, h⟩
    rw [← hids, ← (hkey x hx).1]
    exact (Router.mem_filter_iff (hkey x hx).2 hcolumns hstart (List.mem_map_of_mem hx)).2 h

/-- The operations of a run that are the deletes of a range erase its ids, and no others. -/
theorem erases_of_rangeDeletes (hX : X.Lawful) {ops : List IndexOperation} {ids : List String}
    (hops : ∀ o, o.Concerns part x = true →
      (o ∈ ops ↔ o ∈ rangeDeletes C router start endRow ids)) :
    (∀ a ∈ ops.filterMap (liveOp hX part x), a = .erase start.writetime) ∧
      (ops.filterMap (liveOp hX part x) ≠ [] ↔
        x ∈ router.filterDocIdsByCkRange C ids start (router.ckValuesOf C endRow)
          (endRow.operation = .rowRangeDelInclRight)) := by
  have hdelete {o : IndexOperation} (ho : o.type = .delete) (hid : o.id = x) :
      o.Concerns part x = true ∧ liveOp hX part x o = some (.erase o.writetime) := by
    refine ⟨?_, ?_⟩
    · rw [IndexOperation.Concerns, ho]
      exact decide_eq_true hid
    · rw [liveOp, ho]
      exact if_pos hid
  have hmem {a : lives.Op} (ha : a ∈ ops.filterMap (liveOp hX part x)) :
      a = .erase start.writetime ∧
        x ∈ router.filterDocIdsByCkRange C ids start (router.ckValuesOf C endRow)
          (endRow.operation = .rowRangeDelInclRight) := by
    obtain ⟨o, ho, hoa⟩ := List.mem_filterMap.1 ha
    have hconcerns : o.Concerns part x = true := by
      by_contra h
      rw [liveOp_eq_none hX (Bool.eq_false_of_not_eq_true h)] at hoa
      cases hoa
    obtain ⟨htype, hw, hid⟩ := mem_rangeDeletes ((hops o hconcerns).1 ho)
    have hx : o.id = x := by simpa [IndexOperation.Concerns, htype] using hconcerns
    rw [(hdelete htype hx).2, hw] at hoa
    exact ⟨(Option.some.inj hoa).symm, hx ▸ hid⟩
  refine ⟨fun a ha => (hmem ha).1, fun hne => ?_, fun hx hnil => ?_⟩
  · obtain ⟨a, ha⟩ := List.exists_mem_of_ne_nil _ hne
    exact (hmem ha).2
  · obtain ⟨o, ho, hid⟩ := exists_rangeDelete hx
    obtain ⟨hconcerns, hlive⟩ := hdelete (mem_rangeDeletes ho).1 hid
    have ha := List.mem_filterMap.2 ⟨o, (hops o hconcerns).2 ho, hlive⟩
    rw [hnil] at ha
    cases ha

/-! ## A sample range -/

/-- The node stores `(1, 7)`, `(2, 0)` and `(3, 0)`. -/
def storedRows : List Call :=
  [.batch (fun _ => true) [sampleOp .upsert "x:1:7" "x" 10 "\x7b\"a\":1\x7d",
    sampleOp .upsert "x:2:0" "x" 10 "\x7b\"a\":1\x7d",
    sampleOp .upsert "x:3:0" "x" 10 "\x7b\"a\":1\x7d"]]

def storedKey (id : String) : DocKey :=
  if id = "x:1:7" then sampleDocKey 1 7 else if id = "x:2:0" then sampleDocKey 2 0
  else sampleDocKey 3 0

/-- The start bound: from `1` on. -/
def fromOne : PendingRangeStart where
  partitionKey := "x"
  targetNode := "node"
  ckValues := [some "1", none]
  startInclusive := true
  writetime := 1000000

/-- The deletes of what is before `3`, one of them sent again once the others show. -/
def rangeCalls : List Call :=
  [.commit .ok, .reload, .batch (fun _ => true) [sampleOp .delete "x:2:0" "x" 1000000 "",
    sampleOp .delete "x:1:7" "x" 1000000 ""], .commit .ok, .reload,
    .batch (fun _ => true) [sampleOp .delete "x:2:0" "x" 1000000 ""]]

theorem storedKey_hasKey : ∀ id ∈ ["x:1:7", "x:2:0", "x:3:0"],
    (storedKey id).id sampleRouterCrates.toFormats = id ∧
      sampleRangeRouter.HasKey sampleRouterCrates (storedKey id) := by
  simp only [List.forall_mem_cons]
  exact ⟨⟨by decide, rfl, rfl, by decide⟩, ⟨by decide, rfl, rfl, by decide⟩,
    ⟨by decide, rfl, rfl, by decide⟩, by simp⟩

theorem rangeDeletes_stored : rangeDeletes sampleRouterCrates sampleRangeRouter fromOne
    (sampleBound .rowRangeDelExclRight (some 3) none) ["x:1:7", "x:2:0", "x:3:0"] =
      [sampleOp .delete "x:1:7" "x" 1000000 "", sampleOp .delete "x:2:0" "x" 1000000 ""] := by
  have hselect (id : String) (hid : id ∈ ["x:1:7", "x:2:0", "x:3:0"]) :
      (id.splitOn ":") = (storedKey id).texts sampleRouterCrates.toFormats := by
    obtain ⟨hkey, hhas⟩ := storedKey_hasKey id hid
    conv_lhs => rw [← hkey]
    exact hhas.splitOn_id (by decide)
  have h1 := hselect "x:1:7" (by simp)
  have h2 := hselect "x:2:0" (by simp)
  have h3 := hselect "x:3:0" (by simp)
  simp only [rangeDeletes, Router.rangeDeleteItems, Router.filterDocIdsByCkRange, List.filter_cons,
    List.filter_nil, h1, h2, h3]
  decide +kernel

/-! ## What is removed -/

/-- **A range delete removes its range, and nothing else.**  The node lists the ids of the
    partition, each that of a document with a key of the table.  Later it answers the deletes
    of the range in any order and any batches, between commits, reloads, restarts and
    operations on other documents, and always looks the document up as it is.  Then the
    document is gone iff it was in the partition, from before the start of the delete, and
    within the bounds of each clustering column. -/
theorem range_delete_removes (hX : X.Lawful) {cs' : List Call} {key : String → DocKey}
    (hcs : Run.Along (callStep X) (CallSound X part x) (new []) (cs ++ cs'))
    (hcolumns : router.partitionKeyColumns ≠ [])
    (hstart : router.extractRangeDeleteStart C startRow = some start)
    (hshown : Shown (Run.exec (callStep X) (new []) cs) start.partitionKey)
    (hkey : ∀ id ∈ (Run.exec (callStep X) (new []) cs).listDocumentIdsByPartitionKey
      start.partitionKey, (key id).id C.toFormats = id ∧ router.HasKey C (key id))
    (hops : ∀ o, o.Concerns part x = true → (o ∈ cs'.flatMap Call.operations ↔
      o ∈ rangeDeletes C router start endRow ((Run.exec (callStep X) (new [])
        cs).listDocumentIdsByPartitionKey start.partitionKey))) (d : TantivyDoc) :
    d ∈ (Run.exec (callStep X) (new []) (cs ++ cs')).live x ↔
      d ∈ (Run.exec (callStep X) (new []) cs).live x ∧
        ¬ (d.partitionKey = start.partitionKey ∧ d.writetime < start.writetime ∧
          router.InEachColumn (textOrder C) startRow endRow (key x)) := by
  have hbefore := ((Run.along_append _ _ _).1 hcs).1
  have hcoherent : Coherent (Run.exec (callStep X) (new []) cs) :=
    ((reachable_iff X _).2 ⟨cs, rfl⟩).coherent hX
  have hunique : ∀ d ∈ (Run.exec (callStep X) (new []) cs).live x,
      ∀ e ∈ (Run.exec (callStep X) (new []) cs).live x, d = e := by
    intro d hd e he
    obtain ⟨hd, hdx⟩ := mem_docsOf.1 hd
    obtain ⟨he, hex⟩ := mem_docsOf.1 he
    exact hcoherent.writer d hd e he (hdx.trans hex.symm)
  obtain ⟨herase, hsome⟩ := erases_of_rangeDeletes hX hops
  rw [live_calls hX hcs, List.flatMap_append, docsAfter_append, ← live_calls hX hbefore,
    mem_exec_erase herase hunique, hsome, mem_selected_iff hcolumns hstart hkey]
  refine and_congr_right fun hd => ?_
  obtain ⟨hwriter, hid⟩ := mem_docsOf.1 hd
  have hlisted : x ∈ (Run.exec (callStep X) (new []) cs).listDocumentIdsByPartitionKey
      start.partitionKey ↔ d.partitionKey = start.partitionKey := by
    refine ⟨fun h => ?_, fun h => hid ▸ listed_of_live hcoherent hshown hwriter h⟩
    exact ((homed_calls hX hbefore x).1 d hd).trans (part_of_listed hX hbefore h)
  rw [hlisted]
  constructor
  · rintro h ⟨hpk, hold, hcolumn⟩
    exact Nat.not_le.2 hold (h ⟨hpk, hcolumn⟩)
  · rintro h ⟨hpk, hcolumn⟩
    exact Nat.le_of_not_lt fun hold => h ⟨hpk, hold, hcolumn⟩

/-- The row `(2, 0)` is deleted. -/
theorem range_delete_removes_sample :
    (Run.exec (callStep sampleCrates) (new []) (storedRows ++ rangeCalls)).live "x:2:0" = [] := by
  have hlist : (Run.exec (callStep sampleCrates) (new [])
      storedRows).listDocumentIdsByPartitionKey "x" = ["x:1:7", "x:2:0", "x:3:0"] := by decide
  refine List.eq_nil_iff_forall_not_mem.2 fun d hd => ?_
  obtain ⟨hstored, hkept⟩ := (@range_delete_removes sampleCrates (fun _ => "x") "x:2:0"
    storedRows sampleRouterCrates sampleRangeRouter fromOne
    (sampleBound .rowRangeDelInclLeft (some 1) none)
    (sampleBound .rowRangeDelExclRight (some 3) none) sampleCrates_lawful rangeCalls storedKey
    (by decide) (by decide) rfl (by unfold Shown; decide) (hlist ▸ storedKey_hasKey)
    (fun o _ => by
      rw [show fromOne.partitionKey = "x" from rfl, hlist, rangeDeletes_stored]
      simp only [rangeCalls, Call.operations, List.flatMap_cons, List.flatMap_nil, List.mem_append,
        List.mem_cons, List.not_mem_nil]
      tauto) d).1 hd
  have hold : ∀ e ∈ (Run.exec (callStep sampleCrates) (new []) storedRows).live "x:2:0",
      e.partitionKey = "x" ∧ e.writetime < 1000000 := by decide
  refine hkept ⟨(hold d hstored).1, (hold d hstored).2, ?_⟩
  unfold Router.InEachColumn
  decide +kernel

end

end Tantylla
