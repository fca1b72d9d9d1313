/-
  What a range delete selects (`filter_doc_ids_by_ck_range`).

  The range of a delete compares clustering keys in lexicographic order, the code
  compares each column with its bounds by itself.  Whatever the code keeps is in the
  range; it keeps the whole range just when every document of the range is also within
  the bounds of each column (`filter_exact_iff`), as with one clustering column
  (`filter_exact_of_one_column`).
-/
import Tantylla.Ingestor.RangeDelete
import Tantylla.Lib.Lex
import Tantylla.Lib.Split

namespace Tantylla

/-! ## Documents and bounds -/

/-- The values of the key columns of a document. -/
structure DocKey where
  partition : List CqlValue
  clustering : List CqlValue

/-- The texts that are joined to the id of the document. -/
def DocKey.texts (F : Formats) (d : DocKey) : List String :=
  (d.partition ++ d.clustering).map (cqlValueToKeyString F)

def DocKey.id (F : Formats) (d : DocKey) : String := ":".intercalate (d.texts F)

namespace Router

variable (C : RouterCrates) (router : Router)

/-- The document has a value in each key column of the table, and a text without colons. -/
structure HasKey (d : DocKey) : Prop where
  partition : d.partition.length = router.partitionKeyColumns.length
  clustering : d.clustering.length = router.clusteringKeyColumns.length
  colonFree : ∀ part ∈ d.texts C.toFormats, ':' ∉ part.toList

/-- The clustering columns that a bound row fixes, with their values. -/
def bound (row : CDCRow) : List (Option CqlValue) :=
  router.clusteringKeyColumns.map fun ckCol => row.getValue ckCol.name

end Router

/-- The order of the values of a clustering column. -/
abbrev ColumnOrder := ClusteringKeyColumn → CqlValue → CqlValue → Ordering

/-- The values of a clustering key compared with those that a bound fixes. -/
def boundCmps (ord : ColumnOrder) (columns : List ClusteringKeyColumn) (key : List CqlValue)
    (bound : List (Option CqlValue)) : List Ordering :=
  (columns.zip (key.zip bound)).filterMap fun (ckCol, v, b) => b.map (ord ckCol v)

/-- The order that the code compares the texts of a column in. -/
def textOrder (C : RouterCrates) : ColumnOrder := fun ckCol a b =>
  compareCqlValues C (cqlValueToKeyString C.toFormats a) (cqlValueToKeyString C.toFormats b)
    ckCol.cqlType

section
variable {C : RouterCrates} {ord : ColumnOrder} {columns : List ClusteringKeyColumn}
  {key : List CqlValue}

theorem boundCmps_cons {c : ClusteringKeyColumn} {v : CqlValue} {b : Option CqlValue}
    {bs : List (Option CqlValue)} :
    boundCmps ord (c :: columns) (v :: key) (b :: bs) =
      (b.map (ord c v)).toList ++ boundCmps ord columns key bs := by
  cases b <;> rfl

theorem length_boundCmps_le {bs : List (Option CqlValue)} :
    (boundCmps ord columns key bs).length ≤ columns.length := by
  refine (List.length_filterMap_le _ _).trans ?_
  rw [List.length_zip]
  exact min_le_left _ _

theorem withinBounds_iff {ckCol : ClusteringKeyColumn} {v : CqlValue} {s e : Option CqlValue}
    {startInclusive endInclusive : Bool} :
    Router.withinBounds C ckCol (cqlValueToKeyString C.toFormats v)
        (s.map (cqlValueToKeyString C.toFormats)) (e.map (cqlValueToKeyString C.toFormats))
        startInclusive endInclusive = true ↔
      (∀ o ∈ (s.map (textOrder C ckCol v)).toList, Lex.Allows startInclusive o) ∧
        ∀ o ∈ (e.map (textOrder C ckCol v)).toList, Lex.Allows endInclusive o.swap := by
  unfold Router.withinBounds
  rw [Bool.and_eq_true]
  refine and_congr ?_ ?_
  · cases s with
    | none => simp
    | some s =>
      simp only [Option.map_some, Option.toList_some, List.forall_mem_singleton, Lex.allows_iff,
        textOrder]
      cases startInclusive <;> simp
  · cases e with
    | none => simp
    | some e =>
      simp only [Option.map_some, Option.toList_some, List.forall_mem_singleton,
        Lex.allows_swap_iff, textOrder]
      cases endInclusive <;> simp

theorem all_withinBounds_iff {ss es : List (Option CqlValue)}
    {startInclusive endInclusive : Bool} (hs : ss.length = columns.length)
    (he : es.length = columns.length) :
    ((columns.zip ((key.map (cqlValueToKeyString C.toFormats)).zip
        ((ss.map (Option.map (cqlValueToKeyString C.toFormats))).zip
          (es.map (Option.map (cqlValueToKeyString C.toFormats)))))).all
        fun (ckCol, docCkVal, startVal, endVal) =>
          Router.withinBounds C ckCol docCkVal startVal endVal startInclusive endInclusive) =
        true ↔
      (∀ o ∈ boundCmps (textOrder C) columns key ss, Lex.Allows startInclusive o) ∧
        ∀ o ∈ boundCmps (textOrder C) columns key es, Lex.Allows endInclusive o.swap := by
  induction columns generalizing key ss es with
  | nil => simp [boundCmps]
  | cons c columns ih =>
    obtain _ | ⟨v, key⟩ := key
    · simp [boundCmps]
    obtain _ | ⟨s, ss⟩ := ss
    · cases hs
    obtain _ | ⟨e, es⟩ := es
    · cases he
    rw [boundCmps_cons, boundCmps_cons, List.forall_mem_append, List.forall_mem_append,
      and_and_and_comm, ← withinBounds_iff, ← ih (Nat.succ.inj hs) (Nat.succ.inj he)]
    simp only [List.map_cons, List.zip_cons_cons, List.all_cons, Bool.and_eq_true]

/-- The texts of the clustering values compare with those of the bounds as the values do, up to
    the first that is out of bounds: with what follows it the code compares nothing. -/
def AgreesUpTo (C : RouterCrates) (ord : ColumnOrder) (startInclusive endInclusive : Bool) :
    List (ClusteringKeyColumn × CqlValue × Option CqlValue × Option CqlValue) → Prop
  | [] => True
  | (ckCol, v, s, e) :: rest =>
    s.map (textOrder C ckCol v) = s.map (ord ckCol v) ∧
      ((∀ o ∈ (s.map (textOrder C ckCol v)).toList, Lex.Allows startInclusive o) →
        e.map (textOrder C ckCol v) = e.map (ord ckCol v) ∧
          ((∀ o ∈ (e.map (textOrder C ckCol v)).toList, Lex.Allows endInclusive o.swap) →
            AgreesUpTo C ord startInclusive endInclusive rest))

instance decidableAgreesUpTo (C : RouterCrates) (ord : ColumnOrder)
    (startInclusive endInclusive : Bool) :
    DecidablePred (AgreesUpTo C ord startInclusive endInclusive)
  | [] => .isTrue trivial
  | (_, _, _, _) :: rest =>
    have := decidableAgreesUpTo C ord startInclusive endInclusive rest
    inferInstanceAs (Decidable (_ ∧ (_ → _ ∧ (_ → _))))

/-- What is not compared does not matter to what is kept. -/
theorem forall_boundCmps_iff {startInclusive endInclusive : Bool} {ss es : List (Option CqlValue)}
    (hs : ss.length = columns.length) (he : es.length = columns.length)
    (h : AgreesUpTo C ord startInclusive endInclusive (columns.zip (key.zip (ss.zip es)))) :
    ((∀ o ∈ boundCmps (textOrder C) columns key ss, Lex.Allows startInclusive o) ∧
        ∀ o ∈ boundCmps (textOrder C) columns key es, Lex.Allows endInclusive o.swap) ↔
      (∀ o ∈ boundCmps ord columns key ss, Lex.Allows startInclusive o) ∧
        ∀ o ∈ boundCmps ord columns key es, Lex.Allows endInclusive o.swap := by
  induction columns generalizing key ss es with
  | nil => simp [boundCmps]
  | cons c columns ih =>
    obtain _ | ⟨v, key⟩ := key
    · simp [boundCmps]
    obtain _ | ⟨s, ss⟩ := ss
    · cases hs
    obtain _ | ⟨e, es⟩ := es
    · cases he
    obtain ⟨hstart, hrest⟩ := h
    simp only [boundCmps_cons, List.forall_mem_append]
    rw [and_and_and_comm, and_and_and_comm (a := ∀ o ∈ (s.map (ord c v)).toList, _), ← hstart]
    -- after a value that is out of bounds nothing is compared, nor does it matter
    by_cases hpast : ∀ o ∈ (s.map (textOrder C c v)).toList, Lex.Allows startInclusive o
    · obtain ⟨hend, hrest⟩ := hrest hpast
      rw [← hend]
      by_cases hbefore : ∀ o ∈ (e.map (textOrder C c v)).toList, Lex.Allows endInclusive o.swap
      · rw [ih (Nat.succ.inj hs) (Nat.succ.inj he) (hrest hbefore)]
      · exact iff_of_false (fun h => hbefore h.1.2) (fun h => hbefore h.1.2)
    · exact iff_of_false (fun h => hpast h.1.1) (fun h => hpast h.1.1)

end

/-! ## A sample table -/

/-- A table with the primary key `(k, c1, c2)`. -/
def sampleRangeRouter : Router where
  nodeInfo := ["node"]
  partitionKeyColumns := ["k"]
  fullPrimaryKeyColumns := ["k", "c1", "c2"]
  clusteringKeyColumns := [⟨"c1", "int"⟩, ⟨"c2", "int"⟩]

/-- A bound row of the partition `x`. -/
def sampleBound (operation : OperationType) (c1 c2 : Option ℤ) : CDCRow where
  streamId := "00"
  time := 0x1419d6801dd211b28000000000000000
  batchSeqNo := 0
  operation := operation
  ttl := none
  columns := [⟨"k", some (.text "x"), false, none⟩, ⟨"c1", c1.map .int, false, none⟩,
    ⟨"c2", c2.map .int, false, none⟩]

def sampleDocKey (c1 c2 : ℤ) : DocKey := ⟨[.text "x"], [.int c1, .int c2]⟩

/-- The order of `int` columns. -/
def intOrder : ColumnOrder
  | _, .int i, .int j => compare i j
  | _, _, _ => .eq

/-! ## The range -/

namespace Router

section
variable (ord : ColumnOrder) (router : Router) (startRow endRow : CDCRow) (d : DocKey)

/-- The clustering key of the document is in the range between two bound rows. -/
def InRange : Prop :=
  Lex.Past (startRow.operation = .rowRangeDelInclLeft)
      (boundCmps ord router.clusteringKeyColumns d.clustering (router.bound startRow)) ∧
    Lex.Before (endRow.operation = .rowRangeDelInclRight)
      (boundCmps ord router.clusteringKeyColumns d.clustering (router.bound endRow))

/-- Each clustering value of the document is by itself within the bounds of its column. -/
def InEachColumn : Prop :=
  (∀ o ∈ boundCmps ord router.clusteringKeyColumns d.clustering (router.bound startRow),
      Lex.Allows (startRow.operation = .rowRangeDelInclLeft) o) ∧
    ∀ o ∈ boundCmps ord router.clusteringKeyColumns d.clustering (router.bound endRow),
      Lex.Allows (endRow.operation = .rowRangeDelInclRight) o.swap

/-- The comparisons that the code makes for the document are those of the order of the
    columns. -/
def ComparesAs (C : RouterCrates) : Prop :=
  AgreesUpTo C ord (startRow.operation = .rowRangeDelInclLeft)
    (endRow.operation = .rowRangeDelInclRight)
    (router.clusteringKeyColumns.zip
      (d.clustering.zip ((router.bound startRow).zip (router.bound endRow))))

end

section
variable {C : RouterCrates} {ord : ColumnOrder} {router : Router} {startRow endRow : CDCRow}
  {d : DocKey} {docs : List DocKey} {start : PendingRangeStart}

theorem InEachColumn.inRange (h : router.InEachColumn ord startRow endRow d) :
    router.InRange ord startRow endRow d :=
  ⟨Lex.past_of_forall h.1, Lex.before_of_forall h.2⟩

theorem inEachColumn_iff_of_one_column (hone : router.clusteringKeyColumns.length ≤ 1) :
    router.InEachColumn ord startRow endRow d ↔ router.InRange ord startRow endRow d :=
  and_congr (Lex.past_iff_of_length_le (length_boundCmps_le.trans hone)).symm
    (Lex.before_iff_of_length_le (length_boundCmps_le.trans hone)).symm

/-- The texts of a document are found again in its id. -/
theorem HasKey.splitOn_id (hd : router.HasKey C d) (hpk : router.partitionKeyColumns ≠ []) :
    (d.id C.toFormats).splitOn ":" = d.texts C.toFormats := by
  refine (Split.splitOn_intercalate_iff (c := ':') ?_).2 hd.colonFree
  have hne : d.partition ≠ [] := by
    rw [← List.length_pos_iff, hd.partition, List.length_pos_iff]
    exact hpk
  rw [DocKey.texts, ne_eq, List.map_eq_nil_iff]
  exact List.append_ne_nil_of_left_ne_nil hne _

theorem extractRangeDeleteStart_bound (h : router.extractRangeDeleteStart C startRow = some start) :
    start.ckValues = router.ckValuesOf C startRow ∧
      start.startInclusive = decide (startRow.operation = .rowRangeDelInclLeft) := by
  simp only [extractRangeDeleteStart, Option.bind_eq_bind, Option.bind_eq_some_iff,
    Option.some.injEq] at h
  obtain ⟨_, -, _, -, rfl⟩ := h
  exact ⟨rfl, rfl⟩

theorem ckValuesOf_eq (row : CDCRow) :
    router.ckValuesOf C row =
      (router.bound row).map (Option.map (cqlValueToKeyString C.toFormats)) := by
  rw [ckValuesOf, bound, List.map_map]
  rfl

/-- The code keeps a document that is within the bounds of each column. -/
theorem mem_filter_iff (hd : router.HasKey C d) (hpk : router.partitionKeyColumns ≠ [])
    (hstart : router.extractRangeDeleteStart C startRow = some start) (hmem : d ∈ docs) :
    d.id C.toFormats ∈ router.filterDocIdsByCkRange C (docs.map (DocKey.id C.toFormats)) start
        (router.ckValuesOf C endRow) (endRow.operation = .rowRangeDelInclRight) ↔
      router.InEachColumn (textOrder C) startRow endRow d := by
  obtain ⟨hck, hincl⟩ := extractRangeDeleteStart_bound hstart
  have hlen : (d.texts C.toFormats).length =
      router.partitionKeyColumns.length + router.clusteringKeyColumns.length := by
    rw [DocKey.texts, List.length_map, List.length_append, hd.partition, hd.clustering]
  have hdrop : (d.texts C.toFormats).drop router.partitionKeyColumns.length =
      d.clustering.map (cqlValueToKeyString C.toFormats) := by
    rw [DocKey.texts, List.map_append, List.drop_left']
    rw [List.length_map, hd.partition]
  have hbound : ∀ row, (router.bound row).length = router.clusteringKeyColumns.length :=
    fun row => List.length_map _
  rw [filterDocIdsByCkRange, List.mem_filter, and_iff_right (List.mem_map_of_mem hmem)]
  simp only [hd.splitOn_id hpk]
  rw [if_neg (not_not.2 hlen), hdrop, hck, ckValuesOf_eq, ckValuesOf_eq, hincl]
  exact all_withinBounds_iff (hbound _) (hbound _)

/-- **A range delete selects exactly its range just when each document of the range is within
    the bounds of each column.** -/
theorem filter_exact_iff (hpk : router.partitionKeyColumns ≠ [])
    (hstart : router.extractRangeDeleteStart C startRow = some start)
    (hdocs : ∀ d ∈ docs, router.HasKey C d)
    (hord : ∀ d ∈ docs, router.ComparesAs ord startRow endRow d C) :
    (∀ d ∈ docs, (d.id C.toFormats ∈ router.filterDocIdsByCkRange C
        (docs.map (DocKey.id C.toFormats)) start (router.ckValuesOf C endRow)
          (endRow.operation = .rowRangeDelInclRight) ↔
        router.InRange ord startRow endRow d)) ↔
      ∀ d ∈ docs, router.InRange ord startRow endRow d →
        router.InEachColumn ord startRow endRow d := by
  refine forall₂_congr fun d hd => ?_
  have hbound : ∀ row, (router.bound row).length = router.clusteringKeyColumns.length :=
    fun row => List.length_map _
  have hsame : router.InEachColumn (textOrder C) startRow endRow d ↔
      router.InEachColumn ord startRow endRow d :=
    forall_boundCmps_iff (hbound startRow) (hbound endRow) (hord d hd)
  rw [mem_filter_iff (hdocs d hd) hpk hstart hd, hsame]
  exact ⟨fun h hrange => h.2 hrange, fun h => ⟨InEachColumn.inRange, h⟩⟩

/-- Of `(1, 7)`, `(2, 0)` and `(3, 0)`, the first two are from `1` on and before `3`. -/
theorem filter_exact_sample : ∃ start,
    sampleRangeRouter.extractRangeDeleteStart sampleRouterCrates
        (sampleBound .rowRangeDelInclLeft (some 1) none) = some start ∧
      ∀ d ∈ [sampleDocKey 1 7, sampleDocKey 2 0, sampleDocKey 3 0],
        (d.id sampleRouterCrates.toFormats ∈
            sampleRangeRouter.filterDocIdsByCkRange sampleRouterCrates
              ([sampleDocKey 1 7, sampleDocKey 2 0, sampleDocKey 3 0].map
                (DocKey.id sampleRouterCrates.toFormats)) start
              (sampleRangeRouter.ckValuesOf sampleRouterCrates
                (sampleBound .rowRangeDelExclRight (some 3) none)) false ↔
          sampleRangeRouter.InRange intOrder (sampleBound .rowRangeDelInclLeft (some 1) none)
            (sampleBound .rowRangeDelExclRight (some 3) none) d) := by
  have hdocs : ∀ d ∈ [sampleDocKey 1 7, sampleDocKey 2 0, sampleDocKey 3 0],
      sampleRangeRouter.HasKey sampleRouterCrates d := by
    simp only [List.forall_mem_cons]
    exact ⟨⟨rfl, rfl, by decide⟩, ⟨rfl, rfl, by decide⟩, ⟨rfl, rfl, by decide⟩, by simp⟩
  have hord : ∀ d ∈ [sampleDocKey 1 7, sampleDocKey 2 0, sampleDocKey 3 0],
      sampleRangeRouter.ComparesAs intOrder (sampleBound .rowRangeDelInclLeft (some 1) none)
        (sampleBound .rowRangeDelExclRight (some 3) none) d sampleRouterCrates := by
    unfold ComparesAs
    decide +kernel
  refine ⟨_, rfl, (filter_exact_iff (by decide) rfl hdocs hord).2 ?_⟩
  unfold InRange InEachColumn
  decide +kernel

/-- The range from `(1, 5)` to `3` contains `(2, 3)`, which the code does not keep. -/
theorem filter_misses : ∃ start,
    sampleRangeRouter.extractRangeDeleteStart sampleRouterCrates
        (sampleBound .rowRangeDelInclLeft (some 1) (some 5)) = some start ∧
      sampleRangeRouter.HasKey sampleRouterCrates (sampleDocKey 2 3) ∧
      sampleRangeRouter.ComparesAs intOrder (sampleBound .rowRangeDelInclLeft (some 1) (some 5))
        (sampleBound .rowRangeDelInclRight (some 3) none) (sampleDocKey 2 3)
        sampleRouterCrates ∧
      sampleRangeRouter.InRange intOrder (sampleBound .rowRangeDelInclLeft (some 1) (some 5))
        (sampleBound .rowRangeDelInclRight (some 3) none) (sampleDocKey 2 3) ∧
      (sampleDocKey 2 3).id sampleRouterCrates.toFormats ∉
        sampleRangeRouter.filterDocIdsByCkRange sampleRouterCrates
          ([sampleDocKey 2 3].map (DocKey.id sampleRouterCrates.toFormats)) start
          (sampleRangeRouter.ckValuesOf sampleRouterCrates
            (sampleBound .rowRangeDelInclRight (some 3) none)) true := by
  have hkey : sampleRangeRouter.HasKey sampleRouterCrates (sampleDocKey 2 3) :=
    ⟨rfl, rfl, by decide⟩
  have hstart : sampleRangeRouter.extractRangeDeleteStart sampleRouterCrates
      (sampleBound .rowRangeDelInclLeft (some 1) (some 5)) = some _ := rfl
  refine ⟨_, hstart, hkey, ?_, ?_,
    mt (mem_filter_iff hkey (by decide) hstart List.mem_cons_self).1 ?_⟩
  · unfold ComparesAs
    decide +kernel
  · unfold InRange
    decide +kernel
  · unfold InEachColumn
    decide +kernel

/-- With one clustering column a range delete selects exactly its range. -/
theorem filter_exact_of_one_column (hpk : router.partitionKeyColumns ≠ [])
    (hone : router.clusteringKeyColumns.length ≤ 1)
    (hstart : router.extractRangeDeleteStart C startRow = some start)
    (hd : router.HasKey C d) (hmem : d ∈ docs) :
    d.id C.toFormats ∈ router.filterDocIdsByCkRange C (docs.map (DocKey.id C.toFormats)) start
        (router.ckValuesOf C endRow) (endRow.operation = .rowRangeDelInclRight) ↔
      router.InRange (textOrder C) startRow endRow d := by
  rw [mem_filter_iff hd hpk hstart hmem, inEachColumn_iff_of_one_column hone]

end

end Router

end Tantylla
