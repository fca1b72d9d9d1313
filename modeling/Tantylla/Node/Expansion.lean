/-
  Default fields and the special clauses.

  A bare token is spread over the default fields before the recogniser of special clauses
  sees it, and the expansion puts it in parentheses.  The recogniser takes those for a
  compound query, so a bare `wire*` or `wireles~1` goes to the parser, while the same token
  with the name of the field is built here: `sameBranch_iff`.
-/
import Tantylla.Node.SpecialQuery

namespace Tantylla

variable (T : TextCrates)

/-- The query of a token in a field of the document. -/
def explicitQuery (field token : String) : String := "document." ++ field ++ ":" ++ token

/-- The query that a search builds itself, if it does. -/
def BuiltQuery.special? : BuiltQuery → Option FuzzyTermQuery
  | special query => some query
  | parsed _ => none

/-- A search for the token in the default field takes the branch of the explicit query, with
    the same path, token and distance. -/
def SameBranch (field token : String) : Prop :=
  (buildQuery T token [field] []).special? =
    (buildQuery T (explicitQuery field token) [field] []).special?

/-- The token is a prefix `<token>*`, or a fuzzy term `<token>~<N>`. -/
def SpecialToken (t : List Char) : Prop :=
  (∃ token, t = token ++ ['*'] ∧ token ≠ [] ∧ '*' ∉ token) ∨
    ∃ (token : List Char) (plus : Bool) (distance : List Char),
      t = token ++ '~' :: ((if plus then ['+'] else []) ++ distance) ∧ token ≠ [] ∧
        '~' ∉ token ∧ Cut.IsDecimal distance ∧ Cut.decimal distance ≤ 2

/-- A token: not empty, without white space, colon or quote. -/
structure PlainToken (t : List Char) : Prop where
  nonempty : t ≠ []
  space : ∀ c ∈ t, Cut.isWhitespace c = false
  colon : ':' ∉ t
  quote : '"' ∉ t

/-- The name of a field: not empty, without white space, colon or parenthesis. -/
structure PlainField (f : List Char) : Prop where
  nonempty : f ≠ []
  space : ∀ c ∈ f, Cut.isWhitespace c = false
  colon : ':' ∉ f
  parens : '(' ∉ f ∧ ')' ∉ f

variable {T} {field token : String}

theorem special?_buildQuery (queryStr : String) (defaultFields : List String) :
    (buildQuery T queryStr defaultFields []).special? =
      tryBuildJsonSpecialQuery T (effectiveQuery T queryStr defaultFields []) := by
  unfold buildQuery
  dsimp only
  cases tryBuildJsonSpecialQuery T (effectiveQuery T queryStr defaultFields []) with
  | none => rfl
  | some query => rfl

/-- A bare token is put in parentheses. -/
theorem effectiveQuery_token (ht : PlainToken token.toList) :
    effectiveQuery T token [field] [] = "(" ++ explicitQuery field token ++ ")" := by
  have hcond : [field] ≠ [] ∧ decide (':' ∉ token.toList) = true ∧
      decide ('"' ∉ token.toList) = true ∧ decide (Cut.trim token.toList ≠ []) = true := by
    rw [Cut.trim_of_forall ht.space]
    exact ⟨List.cons_ne_nil _ _, decide_eq_true ht.colon, decide_eq_true ht.quote,
      decide_eq_true ht.nonempty⟩
  unfold effectiveQuery
  dsimp only
  rw [if_neg fun h => h.1 rfl, if_pos hcond, expandTokens,
    Cut.splitWhitespace_eq_singleton ht.nonempty ht.space]
  simp [tokenClause, explicitQuery]

/-- A query that names a field is left as it is. -/
theorem effectiveQuery_of_colon {queryStr : String} (defaultFields : List String)
    (h : ':' ∈ queryStr.toList) : effectiveQuery T queryStr defaultFields [] = queryStr := by
  unfold effectiveQuery
  dsimp only
  rw [if_neg fun hif => hif.1 rfl, if_neg fun hif => absurd h (of_decide_eq_true hif.2.1)]

/-- In parentheses nothing is special. -/
theorem tryBuildJsonSpecialQuery_parens (s : String) :
    tryBuildJsonSpecialQuery T ("(" ++ s ++ ")") = none := by
  by_contra hsome
  obtain ⟨query, hquery⟩ := Option.ne_none_iff_exists'.1 hsome
  refine (tryBuildJsonSpecialQuery_eq_some_iff.1 hquery).1 (Or.inr (Or.inl ?_))
  exact Cut.mem_trim (by simp) (by decide)

theorem toList_explicitQuery : (explicitQuery field token).toList =
    ("document.".toList ++ field.toList) ++ ':' :: token.toList := by
  simp [explicitQuery]

/-- The explicit query has a special form just when its token has. -/
theorem exists_clause_iff {f t : List Char} (hf : ':' ∉ f) :
    (∃ c : SpecialClause, c.WellFormed ∧ c.text = ("document.".toList ++ f) ++ ':' :: t) ↔
      SpecialToken t := by
  constructor
  · rintro ⟨c, hwf, htext⟩
    have hcolon : ':' ∉ "document.".toList ++ f := by
      rw [List.mem_append, not_or]
      exact ⟨by decide, hf⟩
    have hfirst := SpecialClause.first_text hwf
    rw [htext, Cut.first_append hcolon, Option.some.injEq, Prod.mk.injEq] at hfirst
    obtain ⟨-, rfl⟩ := hfirst
    cases c with
    | starts path token => exact Or.inl ⟨token, rfl, hwf.2⟩
    | fuzzy path token plus distance => exact Or.inr ⟨token, plus, distance, rfl, hwf.2⟩
  · rintro (⟨token, rfl, htoken⟩ | ⟨token, plus, distance, rfl, htoken⟩)
    · exact ⟨.starts f token, ⟨hf, htoken⟩, rfl⟩
    · exact ⟨.fuzzy f token plus distance, ⟨hf, htoken⟩, rfl⟩

theorem looksCompound_explicit_iff {f t : List Char} (hf : PlainField f) (ht : PlainToken t) :
    LooksCompound (("document.".toList ++ f) ++ ':' :: t) ↔ '(' ∈ t ∨ '"' ∈ f := by
  have hspace : Cut.isWhitespace ' ' = true := by decide
  have hft : ' ' ∉ f ∧ ' ' ∉ t := by
    refine ⟨fun h => ?_, fun h => ?_⟩
    · exact absurd (hf.space _ h) (by rw [hspace]; decide)
    · exact absurd (ht.space _ h) (by rw [hspace]; decide)
  simp [LooksCompound, hft.1, hft.2, hf.parens.1, ht.quote]

/-- The explicit query is special just when its token is, and nothing in it looks compound. -/
theorem tryBuildJsonSpecialQuery_explicit (hf : PlainField field.toList)
    (ht : PlainToken token.toList) :
    tryBuildJsonSpecialQuery T (explicitQuery field token) = none ↔
      (SpecialToken token.toList → '(' ∈ token.toList ∨ '"' ∈ field.toList) := by
  have hspace : ∀ c ∈ (explicitQuery field token).toList, Cut.isWhitespace c = false := by
    intro c hc
    rw [toList_explicitQuery, List.mem_append, List.mem_append, List.mem_cons] at hc
    rcases hc with (hc | hc) | rfl | hc
    · exact Cut.forall_of_all (by decide) c hc
    · exact hf.space c hc
    · decide
    · exact ht.space c hc
  have htrim := (Cut.trim_of_forall hspace).trans toList_explicitQuery
  rw [← exists_clause_iff hf.colon, ← looksCompound_explicit_iff hf ht,
    Option.eq_none_iff_forall_ne_some]
  simp only [ne_eq, tryBuildJsonSpecialQuery_eq_some_iff, htrim]
  constructor
  · rintro h ⟨c, hwf, htext⟩
    by_contra hcompound
    exact h (c.query T) ⟨hcompound, c, hwf, htext, rfl⟩
  · rintro h query ⟨hcompound, c, hwf, htext, -⟩
    exact hcompound (h ⟨c, hwf, htext⟩)

/-- **A bare token keeps the meaning it has with the name of the field, exactly if it is not of
    a special form**, or the parser is left the explicit query, too, for a parenthesis in the
    token or a quote in the name. -/
theorem sameBranch_iff (hf : PlainField field.toList) (ht : PlainToken token.toList) :
    SameBranch T field token ↔
      (SpecialToken token.toList → '(' ∈ token.toList ∨ '"' ∈ field.toList) := by
  have hcolon : ':' ∈ (explicitQuery field token).toList := by simp [explicitQuery]
  rw [SameBranch, special?_buildQuery, special?_buildQuery, effectiveQuery_token ht,
    effectiveQuery_of_colon _ hcolon, tryBuildJsonSpecialQuery_parens, eq_comm,
    tryBuildJsonSpecialQuery_explicit hf ht]

theorem plainField_title : PlainField "title".toList :=
  ⟨by decide, Cut.forall_of_all (by decide), by decide, by decide⟩

/-- The plain token `wireless` has the same meaning with and without the name of its field. -/
theorem sameBranch_plain : SameBranch sampleLower "title" "wireless" := by
  have htoken : PlainToken "wireless".toList :=
    ⟨by decide, Cut.forall_of_all (by decide), by decide, by decide⟩
  refine (sameBranch_iff plainField_title htoken).2 ?_
  rintro (⟨token, heq, -⟩ | ⟨token, plus, distance, heq, -⟩)
  · have hmem : '*' ∈ "wireless".toList := heq ▸ List.mem_append_right _ List.mem_cons_self
    revert hmem
    decide
  · have hmem : '~' ∈ "wireless".toList := heq ▸ List.mem_append_right _ List.mem_cons_self
    revert hmem
    decide

/-- The bare prefix `wire*` goes to the parser, the explicit one does not. -/
theorem bare_prefix_parsed :
    buildQuery sampleLower "wire*" ["title"] [] = .parsed "(document.title:wire*)" ∧
      buildQuery sampleLower (explicitQuery "title" "wire*") ["title"] [] =
        .special ⟨⟨"title", false, "wire"⟩, 0, true, true⟩ ∧
      ¬ SameBranch sampleLower "title" "wire*" := by
  have hbare : buildQuery sampleLower "wire*" ["title"] [] = .parsed "(document.title:wire*)" := by
    decide +kernel
  have hexplicit : buildQuery sampleLower (explicitQuery "title" "wire*") ["title"] [] =
      .special ⟨⟨"title", false, "wire"⟩, 0, true, true⟩ := by
    decide +kernel
  refine ⟨hbare, hexplicit, ?_⟩
  rw [SameBranch, hbare, hexplicit]
  exact nofun

end Tantylla
