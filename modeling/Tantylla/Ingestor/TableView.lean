/-
  The table behind the index.

  The index is a view of a table.  `tableStep` says what a row of the table is after a
  delta row of its log, and `Views` that a document has the values of the row, as JSON, in
  the columns that are not non-frozen collections.  `views_iff`: the documents that the
  delta rows of a key make view the rows of the table throughout, just when each delta row
  `Keeps` the view: its values overwrite those of the table, and where it sets a column to
  null there was no value.  `Views.stored`: the documents that the index keeps have the same
  values, as it keeps them.
-/
import Tantylla.Ingestor.Columns
import Tantylla.Ingestor.InOrder

namespace Tantylla

open OrdMap

/-! ## The table -/

/-- The values of the columns of a row of the table. -/
abbrev TableRow := String → Option CqlValue

/-- The value of a column after an insert or update of the log: a value is set, a deleted one is
    null, and a column that is not mentioned stays. -/
def valueAfter (old : Option TableRow) (row : CDCRow) (name : String) : Option CqlValue :=
  match row.columns.find? fun c => c.name = name with
  | some c => c.value.or (if c.valueDeleted then none else old.bind (· name))
  | none => old.bind (· name)

/-- What a delta row of the log does to the row of the table, which is there from its first
    insert or update on, until it is deleted. -/
def tableStep (old : Option TableRow) (row : CDCRow) : Option TableRow :=
  if row.operation = .rowDelete then none else some (valueAfter old row)

section
variable (F : Formats) (cols : List String)

/-- The log has the columns `cols`, none of which is a non-frozen collection or named like a
    metadata field. -/
structure CDCRow.WellFormed (row : CDCRow) : Prop where
  nodup : (row.columns.map Column.name).Nodup
  has : ∀ name ∈ cols, ∃ c ∈ row.columns, c.name = name ∧ c.deletedElements = none
  plain : ∀ name ∈ cols, find name (cdcFields F row) = none

/-- The document has the values of the row in the columns `cols`; there is none where there is
    no row. -/
def Views : Option TableRow → Option Json → Prop
  | none, none => True
  | some t, some body => ∀ name ∈ cols, body.get name = (t name).map (cqlToJson F)
  | _, _ => False

/-- The document has the values of the row in the columns `cols`, as the index keeps them. -/
def StoredViews (X : Crates) : Option TableRow → Option Json → Prop
  | none, none => True
  | some t, some body =>
    ∀ name ∈ cols, body.get name = (t name).map fun v => X.asStored (cqlToJson F v)
  | _, _ => False

/-- The values of the delta row overwrite those of the table, and where it sets a column to
    null there was no value. -/
def CDCRow.Keeps (old : Option TableRow) (row : CDCRow) : Prop :=
  row.operation ≠ .rowDelete → ∀ c ∈ row.columns, c.name ∈ cols →
    match c.value with
    | some v => overwrites (((old.bind (· c.name)).map (cqlToJson F)).getD .null) (cqlToJson F v)
    | none => c.valueDeleted → old.bind (· c.name) = none

end

variable {F : Formats} {cols : List String} {old : Option TableRow} {body : Option Json}
  {row : CDCRow}

theorem Views.get (h : Views F cols old body) {name : String} (hname : name ∈ cols) :
    (body.getD (.obj [])).get name = (old.bind (· name)).map (cqlToJson F) := by
  cases old with
  | none =>
    cases body with
    | none => rfl
    | some j => exact h.elim
  | some t =>
    cases body with
    | none => exact h.elim
    | some j => exact h name hname

/-- What the table has in a column of a delta row. -/
theorem valueAfter_column (hn : (row.columns.map Column.name).Nodup) {c : Column}
    (hc : c ∈ row.columns) : valueAfter old row c.name =
      c.value.or (if c.valueDeleted then none else old.bind (· c.name)) := by
  have hfind : (row.columns.find? fun c' => c'.name = c.name) = some c := by
    cases hfind : row.columns.find? fun c' => c'.name = c.name with
    | none => exact absurd (List.find?_eq_none.1 hfind c hc) (by simp)
    | some c' =>
      have hname : c'.name = c.name := by simpa using List.find?_some hfind
      rw [List.inj_on_of_nodup_map hn (List.mem_of_find?_eq_some hfind) hc hname]
  rw [valueAfter, hfind]

/-! ## One delta row -/

/-- **One column** of a delta row that is not a delete. -/
theorem get_eq_iff (fromStr : String → Option Json) (hrow : row.WellFormed F cols) {c : Column}
    (hc : c ∈ row.columns) (hname : c.name ∈ cols) (hd : c.deletedElements = none) {j : Json}
    (hold : j.get c.name = (old.bind (· c.name)).map (cqlToJson F)) :
    (applyCollectionDeltas fromStr (mergeJson j (.obj (deltaDoc F row)))
        (deltasOf F row)).get c.name = (valueAfter old row c.name).map (cqlToJson F) ↔
      match c.value with
      | some v =>
        overwrites (((old.bind (· c.name)).map (cqlToJson F)).getD .null) (cqlToJson F v)
      | none => c.valueDeleted → old.bind (· c.name) = none := by
  have hordered : (((old.bind (· c.name)).map (cqlToJson F)).getD .null).Ordered := by
    cases old.bind (· c.name) with
    | none => trivial
    | some v => exact cqlToJson_ordered F v
  rw [get_body fromStr hrow.nodup hc hd, hrow.plain _ hname, hold,
    valueAfter_column hrow.nodup hc]
  cases hv : c.value with
  | some v =>
    simp only [Option.map_some, Option.some_or, Option.some.injEq]
    exact mergeJson_eq_right_iff _ _ hordered (cqlToJson_ordered F v)
  | none =>
    simp only [Option.map_none, Option.none_or]
    cases old.bind (· c.name) <;> cases c.valueDeleted <;> simp

section
variable {X : Crates} {C : RouterCrates}

/-- The payload of the row is read as it is written. -/
def CDCRow.ReadBack (X : Crates) (C : RouterCrates) (row : CDCRow) : Prop :=
  X.fromStr (C.jsonToString (.obj (deltaDoc C.toFormats row))) =
    some (.obj (deltaDoc C.toFormats row))

/-- **One delta row.**  The document views the row of the table after it just when the delta
    row keeps the view. -/
theorem views_step (hviews : Views C.toFormats cols old body)
    (hrow : row.WellFormed C.toFormats cols ∧ row.ReadBack X C) :
    Views C.toFormats cols (tableStep old row) (rowEffect X C body row) ↔
      row.Keeps C.toFormats cols old := by
  obtain ⟨hwell, hread⟩ := hrow
  unfold CDCRow.Keeps
  by_cases hdel : row.operation = .rowDelete
  · rw [tableStep, if_pos hdel, rowEffect, if_pos hdel]
    exact iff_of_true trivial fun h => absurd hdel h
  rw [tableStep, if_neg hdel, rowEffect, if_neg hdel]
  have hpatch : (X.fromStr (serializeCdcRow C.toFormats row).payloadJson).getD .null =
      .obj (deltaDoc C.toFormats row) := by
    rw [serializeCdcRow, show X.fromStr _ = _ from hread]
    rfl
  dsimp only
  rw [hpatch]
  have hcolumn (c : Column) (hc : c ∈ row.columns) (hname : c.name ∈ cols)
      (hd : c.deletedElements = none) := get_eq_iff X.fromStr hwell hc hname hd
    (hviews.get hname)
  constructor
  · intro hnew _ c hc hname
    obtain ⟨c', hc', heq, hd⟩ := hwell.has _ hname
    obtain rfl : c' = c := List.inj_on_of_nodup_map hwell.nodup hc' hc heq
    exact (hcolumn c' hc hname hd).1 (hnew _ hname)
  · intro hkeeps name hname
    obtain ⟨c, hc, rfl, hd⟩ := hwell.has _ hname
    exact (hcolumn c hc hname hd).2 (hkeeps hdel c hc hname)

/-- **The index views the table.**  The documents that the delta rows of a key make, one after
    the other, view the rows of the table throughout just when each delta row keeps the
    view. -/
theorem views_iff {rows : List CDCRow}
    (hrows : ∀ r ∈ rows, r.WellFormed C.toFormats cols ∧ r.ReadBack X C) :
    (∀ rows', rows' <+: rows → Views C.toFormats cols (Run.exec tableStep none rows')
      (Run.exec (rowEffect X C) none rows')) ↔
      Run.Along tableStep (CDCRow.Keeps C.toFormats cols) none rows := by
  have hstep (old : Option TableRow) (body : Option Json) (row : CDCRow)
      (hviews : Views C.toFormats cols old body)
      (hrow : row.WellFormed C.toFormats cols ∧ row.ReadBack X C) :
      Views C.toFormats cols (tableStep old row) (rowEffect X C body row) ↔
        CDCRow.Keeps C.toFormats cols old row := views_step hviews hrow
  exact Run.related_iff_forall_prefix (R := Views C.toFormats cols) hstep hrows trivial

/-! ## The documents that the index keeps -/

/-- The second document is there if the first is, and has its values in the columns `cols`, as
    the index keeps them. -/
def SameColumns (X : Crates) (cols : List String) (body body' : Option Json) : Prop :=
  body'.isSome = body.isSome ∧ ∀ name ∈ cols, (body'.getD (.obj [])).get name =
    ((body.getD (.obj [])).get name).map X.asStored

/-- A delta row writes the columns of both documents alike. -/
theorem SameColumns.step (hX : X.Stores) {body' : Option Json}
    (h : SameColumns X cols body body')
    (hrow : row.WellFormed C.toFormats cols ∧ row.ReadBack X C) :
    SameColumns X cols (rowEffect X C body row) (storedEffect X C body' row) := by
  obtain ⟨hwell, hread⟩ := hrow
  by_cases hdel : row.operation = .rowDelete
  · simp only [storedEffect, rowEffect, if_pos hdel]
    exact ⟨rfl, fun _ _ => rfl⟩
  have hpatch : (X.fromStr (serializeCdcRow C.toFormats row).payloadJson).getD .null =
      .obj (deltaDoc C.toFormats row) := by
    rw [serializeCdcRow, show X.fromStr _ = _ from hread]
    rfl
  simp only [storedEffect, rowEffect, if_neg hdel, hpatch, Option.map_some]
  refine ⟨rfl, fun name hname => ?_⟩
  obtain ⟨c, hc, rfl, hd⟩ := hwell.has _ hname
  have hbody (old : Json) := @get_body C.toFormats X.fromStr row hwell.nodup c hc hd old
  have hnull : X.asStored .null = .null := rfl
  simp only [Option.getD_some, serializeCdcRow, X.get_asStored, hbody, hwell.plain _ hname,
    h.2 _ hname]
  cases c.value with
  | none => cases (body.getD (.obj [])).get c.name <;> simp [hX.asStored_asStored]
  | some v =>
    cases (body.getD (.obj [])).get c.name <;>
      simp [X.asStored_mergeJson, hX.asStored_asStored, hnull]

/-- **What the index keeps of a view** has the values of the table as it keeps them. -/
theorem Views.stored (hX : X.Stores) {rows : List CDCRow} {t : Option TableRow}
    (hrows : ∀ r ∈ rows, r.WellFormed C.toFormats cols ∧ r.ReadBack X C)
    (h : Views C.toFormats cols t (rows.foldl (rowEffect X C) none)) :
    StoredViews C.toFormats cols X t (rows.foldl (storedEffect X C) none) := by
  have hsame : SameColumns X cols (rows.foldl (rowEffect X C) none)
      (rows.foldl (storedEffect X C) none) := by
    clear h
    induction rows using List.reverseRecOn with
    | nil => exact ⟨rfl, fun _ _ => rfl⟩
    | append_singleton rows row ih =>
      rw [List.foldl_append, List.foldl_append]
      exact (ih fun r hr => hrows r (List.mem_append_left _ hr)).step hX
        (hrows row (by simp))
  generalize rows.foldl (rowEffect X C) none = body at h hsame
  generalize rows.foldl (storedEffect X C) none = body' at hsame
  obtain ⟨hsome, hget⟩ := hsame
  cases t with
  | none =>
    cases body with
    | none => cases body' with
      | none => trivial
      | some j => cases hsome
    | some j => exact h.elim
  | some t =>
    cases body with
    | none => exact h.elim
    | some j => cases body' with
      | none => cases hsome
      | some j' =>
        intro name hname
        rw [show j'.get name = _ from hget name hname,
          show (Option.getD (some j) (.obj [])).get name = _ from h name hname, Option.map_map]
        rfl

end

/-- The row with a frozen map and a text is inserted, and its document has both. -/
theorem views_iff_sample : Views Engine.frozenRouterCrates.toFormats ["m", "t"]
    (Run.exec tableStep none [Engine.frozenInsert])
    (Run.exec (rowEffect Engine.frozenCrates Engine.frozenRouterCrates) none
      [Engine.frozenInsert]) := by
  have hwell : Engine.frozenInsert.WellFormed Engine.frozenRouterCrates.toFormats ["m", "t"] := by
    refine ⟨(by decide : ["k", "m", "t"].Nodup), ?_, ?_⟩
    · simp [Engine.frozenInsert, Engine.frozenRow]
    · simp [Engine.frozenInsert, Engine.frozenRow, cdcFields, find_put]
  have hread : Engine.frozenInsert.ReadBack Engine.frozenCrates Engine.frozenRouterCrates := by
    unfold CDCRow.ReadBack
    decide
  refine (views_iff (List.forall_mem_singleton.2 ⟨hwell, hread⟩)).2 ⟨fun _ c hc _ => ?_, trivial⟩
    _ (List.prefix_refl _)
  simp only [Engine.frozenInsert, Engine.frozenRow, List.mem_cons, List.not_mem_nil,
    or_false] at hc
  rcases hc with rfl | rfl | rfl <;> rfl

end Tantylla
