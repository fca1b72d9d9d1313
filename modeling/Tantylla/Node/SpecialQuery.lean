/-
  The clauses that a search builds itself.

  The recogniser is meant for a single clause of two forms (`SpecialClause`): a prefix
  `document.<path>:<token>*`, or a fuzzy term `document.<path>:<token>~<N>`.
  `tryBuildJsonSpecialQuery_eq_some_iff` says what it reads as one.  That is more than the
  forms: only the space ends a clause for it, not the other white space, and the number is
  read with a plus sign, too.  `recognisesGrammar_iff`: apart from these it is exact.
-/
import Tantylla.Node.Query

namespace Tantylla

/-- A clause of one of the two forms, as its parts; `plus` says whether a sign comes before
    the distance. -/
inductive SpecialClause where
  | starts (path token : List Char)
  | fuzzy (path token : List Char) (plus : Bool) (distance : List Char)

namespace SpecialClause

def text : SpecialClause → List Char
  | starts path token => ("document.".toList ++ path) ++ ':' :: (token ++ ['*'])
  | fuzzy path token plus distance =>
    ("document.".toList ++ path) ++ ':' ::
      (token ++ '~' :: ((if plus then ['+'] else []) ++ distance))

def WellFormed : SpecialClause → Prop
  | starts path token => ':' ∉ path ∧ token ≠ [] ∧ '*' ∉ token
  | fuzzy path token _ distance => ':' ∉ path ∧ token ≠ [] ∧ '~' ∉ token ∧
    Cut.IsDecimal distance ∧ Cut.decimal distance ≤ 2

def plus : SpecialClause → Bool
  | starts _ _ => false
  | fuzzy _ _ plus _ => plus

/-- The query that stands for the clause. -/
def query (T : TextCrates) : SpecialClause → FuzzyTermQuery
  | starts path token => ⟨jsonTerm T path token, 0, true, true⟩
  | fuzzy path token _ distance => ⟨jsonTerm T path token, Cut.decimal distance, true, false⟩

end SpecialClause

variable {T : TextCrates} {q : String} {query : FuzzyTermQuery}

/-- **What the recogniser reads.** -/
theorem tryBuildJsonSpecialQuery_eq_some_iff : tryBuildJsonSpecialQuery T q = some query ↔
    ¬ LooksCompound (Cut.trim q.toList) ∧ ∃ c : SpecialClause,
      c.WellFormed ∧ c.text = Cut.trim q.toList ∧ c.query T = query := by
  have hdocument : ':' ∉ "document.".toList := by decide
  unfold tryBuildJsonSpecialQuery
  generalize Cut.trim q.toList = trimmed
  dsimp only
  by_cases hcompound : LooksCompound trimmed
  · rw [if_pos hcompound]
    exact iff_of_false nofun fun h => h.1 hcompound
  rw [if_neg hcompound, and_iff_right hcompound]
  simp only [Option.bind_eq_bind, Option.bind_eq_some_iff, Prod.exists, Cut.first_eq_some_iff,
    Cut.stripPrefix_eq_some_iff]
  constructor
  · rintro ⟨fieldPart, valuePart, ⟨rfl, hcolon⟩, path, rfl, hquery⟩
    rw [List.mem_append, not_or] at hcolon
    cases hstarts : prefixToken valuePart with
    | some token =>
      rw [hstarts] at hquery
      cases hquery
      obtain ⟨rfl, hne, hstar⟩ := prefixToken_eq_some_iff.1 hstarts
      exact ⟨.starts path token, ⟨hcolon.2, hne, hstar⟩, rfl, rfl⟩
    | none =>
      rw [hstarts] at hquery
      cases hfuzzy : fuzzyToken valuePart with
      | none => rw [hfuzzy] at hquery; cases hquery
      | some p =>
        rw [hfuzzy] at hquery
        cases hquery
        obtain ⟨plus, digits, rfl, hne, htilde, hdec, hdist, hle⟩ := fuzzyToken_eq_some_iff.1 hfuzzy
        refine ⟨.fuzzy path p.1 plus digits, ⟨hcolon.2, hne, htilde, hdec, hdist ▸ hle⟩, rfl, ?_⟩
        rw [SpecialClause.query, ← hdist]
  · rintro ⟨c, hwf, rfl, rfl⟩
    cases c with
    | starts path token =>
      obtain ⟨hcolon, hne, hstar⟩ := hwf
      refine ⟨_, _, ⟨rfl, ?_⟩, path, rfl, ?_⟩
      · rw [List.mem_append, not_or]
        exact ⟨hdocument, hcolon⟩
      · rw [prefixToken_eq_some_iff.2 ⟨rfl, hne, hstar⟩]
        rfl
    | fuzzy path token plus digits =>
      obtain ⟨hcolon, hne, htilde, hdec, hle⟩ := hwf
      refine ⟨_, _, ⟨rfl, ?_⟩, path, rfl, ?_⟩
      · rw [List.mem_append, not_or]
        exact ⟨hdocument, hcolon⟩
      · have hfuzzy := fuzzyToken_eq_some_iff.2
          ⟨plus, digits, rfl, hne, htilde, hdec, rfl, hle⟩
        rw [prefixToken_eq_none hdec, hfuzzy]
        rfl

/-! ## The grammar -/

namespace SpecialClause

def path : SpecialClause → List Char
  | starts path _ | fuzzy path _ _ _ => path

/-- What comes after the first colon. -/
def value : SpecialClause → List Char
  | starts _ token => token ++ ['*']
  | fuzzy _ token plus distance => token ++ '~' :: ((if plus then ['+'] else []) ++ distance)

theorem first_text {c : SpecialClause} (h : c.WellFormed) :
    Cut.first ':' c.text = some ("document.".toList ++ c.path, c.value) := by
  have hdocument : ':' ∉ "document.".toList := by decide
  cases c with
  | starts path token | fuzzy path token plus distance =>
    refine Cut.first_append ?_
    rw [List.mem_append, not_or]
    exact ⟨hdocument, h.1⟩

/-- A sign is told from a digit. -/
theorem sign_inj {plus plus' : Bool} {distance distance' : List Char}
    (h : Cut.IsDecimal distance) (h' : Cut.IsDecimal distance')
    (heq : (if plus then ['+'] else []) ++ distance = (if plus' then ['+'] else []) ++ distance') :
    plus = plus' ∧ distance = distance' := by
  have hsign : ∀ {d : List Char}, Cut.IsDecimal d → '+' ∉ d := by
    intro d hd hmem
    have := hd.2 '+' hmem
    simp at this
  cases plus with
  | true =>
    cases plus' with
    | true => exact ⟨rfl, List.append_cancel_left heq⟩
    | false => exact absurd (heq ▸ List.mem_cons_self : '+' ∈ [] ++ distance') (hsign h')
  | false =>
    cases plus' with
    | true => exact absurd (heq.symm ▸ List.mem_cons_self : '+' ∈ [] ++ distance) (hsign h)
    | false => exact ⟨rfl, heq⟩

/-- A text is that of one clause at most. -/
theorem text_inj {c c' : SpecialClause} (h : c.WellFormed) (h' : c'.WellFormed)
    (htext : c.text = c'.text) : c = c' := by
  have hfirst := first_text h
  rw [htext, first_text h', Option.some.injEq, Prod.mk.injEq, List.append_cancel_left_eq] at hfirst
  obtain ⟨hpath, hvalue⟩ := hfirst
  cases c with
  | starts path token =>
    cases c' with
    | starts path' token' =>
      obtain rfl : path' = path := hpath
      obtain rfl : token' = token := List.append_cancel_right hvalue
      rfl
    | fuzzy path' token' plus' distance' =>
      have hnone := @prefixToken_eq_none token' distance' h'.2.2.2.1 plus'
      rw [show token' ++ _ = token ++ ['*'] from hvalue,
        prefixToken_eq_some_iff.2 ⟨rfl, h.2⟩] at hnone
      cases hnone
  | fuzzy path token plus distance =>
    cases c' with
    | starts path' token' =>
      have hnone := @prefixToken_eq_none token distance h.2.2.2.1 plus
      rw [show token ++ _ = token' ++ ['*'] from hvalue.symm,
        prefixToken_eq_some_iff.2 ⟨rfl, h'.2⟩] at hnone
      cases hnone
    | fuzzy path' token' plus' distance' =>
      have hlast := @Cut.last_append _ _ _ token _ (tilde_notMem h.2.2.2.1 plus)
      rw [show token ++ _ = token' ++ _ from hvalue.symm,
        Cut.last_append (tilde_notMem h'.2.2.2.1 plus'), Option.some.injEq, Prod.mk.injEq] at hlast
      obtain rfl : path' = path := hpath
      obtain ⟨rfl, hrest⟩ := hlast
      obtain ⟨rfl, rfl⟩ := sign_inj h'.2.2.2.1 h.2.2.2.1 hrest
      rfl

end SpecialClause

/-- The query is a clause of the grammar: one of the two forms, without a sign, and without
    white space, parenthesis or quote. -/
def InGrammar (q : String) (c : SpecialClause) : Prop :=
  c.WellFormed ∧ c.text = Cut.trim q.toList ∧ c.plus = false ∧
    ∀ ch ∈ Cut.trim q.toList, Cut.isWhitespace ch = false ∧ ch ≠ '(' ∧ ch ≠ '"'

/-- The recogniser accepts the query just when it is a clause of the grammar, and then with
    the query that stands for the clause; it leaves two and more clauses to the parser. -/
structure RecognisesGrammar (T : TextCrates) (q : String) : Prop where
  accepts : ∀ query, tryBuildJsonSpecialQuery T q = some query ↔
    ∃ c, InGrammar q c ∧ c.query T = query
  compound : 2 ≤ (Cut.splitWhitespace q.toList).length → tryBuildJsonSpecialQuery T q = none

/-- If the query has one of the two forms, it has no white space but the space, and no sign. -/
def PlainSpecial (q : String) : Prop :=
  ¬ LooksCompound (Cut.trim q.toList) → ∀ c : SpecialClause, c.WellFormed →
    c.text = Cut.trim q.toList →
      c.plus = false ∧ ∀ ch ∈ Cut.trim q.toList, Cut.isWhitespace ch = false

/-- **The recogniser accepts exactly its grammar, unless it takes other white space than the
    space for part of a clause, or reads a sign before the distance.** -/
theorem recognisesGrammar_iff : RecognisesGrammar T q ↔ PlainSpecial q := by
  constructor
  · intro h hcompound c hwf htext
    obtain ⟨c', ⟨hwf', htext', hplus, hchars⟩, -⟩ := (h.accepts (c.query T)).1
      (tryBuildJsonSpecialQuery_eq_some_iff.2 ⟨hcompound, c, hwf, htext, rfl⟩)
    obtain rfl := SpecialClause.text_inj hwf' hwf (htext'.trans htext.symm)
    exact ⟨hplus, fun ch hch => (hchars ch hch).1⟩
  · intro h
    refine ⟨fun query => ?_, fun hparts => ?_⟩
    · rw [tryBuildJsonSpecialQuery_eq_some_iff]
      constructor
      · rintro ⟨hcompound, c, hwf, htext, rfl⟩
        obtain ⟨hplus, hspace⟩ := h hcompound c hwf htext
        refine ⟨c, ⟨hwf, htext, hplus, fun ch hch => ⟨hspace ch hch, ?_, ?_⟩⟩, rfl⟩
        · rintro rfl
          exact hcompound (Or.inr (Or.inl hch))
        · rintro rfl
          exact hcompound (Or.inr (Or.inr hch))
      · rintro ⟨c, ⟨hwf, htext, -, hchars⟩, rfl⟩
        refine ⟨?_, c, hwf, htext, rfl⟩
        rintro (hspace | hparen | hquote)
        · exact absurd (hchars ' ' hspace).1 (by decide)
        · exact (hchars '(' hparen).2.1 rfl
        · exact (hchars '"' hquote).2.2 rfl
    · by_contra hsome
      obtain ⟨query, hquery⟩ := Option.ne_none_iff_exists'.1 hsome
      obtain ⟨hcompound, c, hwf, htext, -⟩ := tryBuildJsonSpecialQuery_eq_some_iff.1 hquery
      have hle := Cut.length_splitWhitespace_le (h hcompound c hwf htext).2
      omega

/-- Texts of ASCII letters. -/
def sampleLower : TextCrates where
  toLowercase s := String.ofList (s.toList.map Char.toLower)
  floatText _ := "1"

/-- Two clauses with a tab between them are read as one prefix. -/
theorem tab_is_no_space :
    let q := "document.title:red\tdocument.title:wire*"
    (Cut.splitWhitespace q.toList).length = 2 ∧
      tryBuildJsonSpecialQuery sampleLower q =
        some ⟨⟨"title", false, "red\tdocument.title:wire"⟩, 0, true, true⟩ ∧
      ¬ RecognisesGrammar sampleLower q := by
  intro q
  have hparts : (Cut.splitWhitespace q.toList).length = 2 := by decide +kernel
  have hread : tryBuildJsonSpecialQuery sampleLower q =
      some ⟨⟨"title", false, "red\tdocument.title:wire"⟩, 0, true, true⟩ := by decide +kernel
  refine ⟨hparts, hread, fun h => ?_⟩
  have hnone := h.compound hparts.ge
  rw [hread] at hnone
  cases hnone

end Tantylla
