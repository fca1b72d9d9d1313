/-
  How a search reads its query (`engine/core.rs`).

  The text is rewritten twice.  `effectiveQuery` spreads a query without field names over
  the boosted or the default fields; `tryBuildJsonSpecialQuery` takes the two forms of a
  clause that the query parser does not read as meant, a prefix and a fuzzy term of a field
  of the document, and builds the query of the index itself.  `buildQuery` is the two, one
  after the other; what is left goes to the parser.
-/
import Tantylla.Search.Messages
import Tantylla.Lib.Cut

namespace Tantylla

/-- The functions of the standard library on texts that a search calls. -/
structure TextCrates where
  /-- `str::to_lowercase` -/
  toLowercase : String → String
  /-- `f32::to_string` -/
  floatText : F32 → String

/-! ## The expansion of a query -/

section
variable (T : TextCrates)

/-- The clause of a token: one of its fields has it. -/
def tokenClause (perField : List String) : String := "(" ++ " OR ".intercalate perField ++ ")"

/-- The clauses of all tokens of a query. -/
def expandTokens (queryStr : String) (perField : String → List String) : String :=
  " AND ".intercalate ((Cut.splitWhitespace queryStr.toList).map fun token =>
    tokenClause (perField (String.ofList token)))

/-- `effective_query`: only a query that names no field, has no phrase and is not blank is
    expanded. -/
def effectiveQuery (queryStr : String) (defaultFields : List String)
    (boostFields : List BoostField) : String :=
  let noColon : Bool := ':' ∉ queryStr.toList
  let noQuote : Bool := '"' ∉ queryStr.toList
  let nonBlank : Bool := Cut.trim queryStr.toList ≠ []
  if boostFields ≠ [] ∧ noColon ∧ noQuote ∧ nonBlank then
    expandTokens queryStr fun token => boostFields.map fun bf =>
      "document." ++ bf.field ++ ":" ++ token ++ "^" ++ T.floatText bf.boost
  else if defaultFields ≠ [] ∧ noColon ∧ noQuote ∧ nonBlank then
    expandTokens queryStr fun token => defaultFields.map fun field =>
      "document." ++ field ++ ":" ++ token
  else queryStr

/-! ## Queries of the index -/

/-- A term of a field of the document: `Term::from_field_json_path`, then
    `append_type_and_str`. -/
structure JsonTerm where
  jsonPath : String
  expandDots : Bool
  token : String
  deriving DecidableEq

/-- `FuzzyTermQuery`. -/
structure FuzzyTermQuery where
  term : JsonTerm
  distance : ℕ
  transpositionCostOne : Bool
  isPrefix : Bool
  deriving DecidableEq

/-- `str::parse::<u8>`: digits, after a plus sign or none. -/
def parseU8 (s : List Char) : Option ℕ :=
  let digits := if s.head? = some '+' then s.tail else s
  if Cut.IsDecimal digits ∧ Cut.decimal digits ≤ 255 then some (Cut.decimal digits) else none

/-- The token of a value `<token>*`. -/
def prefixToken (valuePart : List Char) : Option (List Char) :=
  (Cut.stripLast '*' valuePart).filter fun token => token ≠ [] ∧ '*' ∉ token

/-- The token and the distance of a value `<token>~<N>`. -/
def fuzzyToken (valuePart : List Char) : Option (List Char × ℕ) := do
  let (tokenPart, distStr) ← Cut.last '~' valuePart
  let dist ← parseU8 distStr
  if tokenPart ≠ [] ∧ '~' ∉ tokenPart ∧ dist ≤ 2 then some (tokenPart, dist) else none

/-- The term of a path and a token; the token is in lower case. -/
def jsonTerm (jsonSubpath token : List Char) : JsonTerm where
  jsonPath := String.ofList jsonSubpath
  expandDots := false
  token := T.toLowercase (String.ofList token)

/-- What is taken for more than one clause: a text with a space, a parenthesis or a quote. -/
def LooksCompound (trimmed : List Char) : Prop :=
  ' ' ∈ trimmed ∨ '(' ∈ trimmed ∨ '"' ∈ trimmed

instance : DecidablePred LooksCompound := fun trimmed =>
  inferInstanceAs (Decidable (' ' ∈ trimmed ∨ '(' ∈ trimmed ∨ '"' ∈ trimmed))

/-- `try_build_json_special_query`. -/
def tryBuildJsonSpecialQuery (queryStr : String) : Option FuzzyTermQuery := do
  let trimmed := Cut.trim queryStr.toList
  if LooksCompound trimmed then none
  else do
    let (fieldPart, valuePart) ← Cut.first ':' trimmed
    let jsonSubpath ← Cut.stripPrefix "document.".toList fieldPart
    match prefixToken valuePart with
    | some token => some ⟨jsonTerm T jsonSubpath token, 0, true, true⟩
    | none =>
      match fuzzyToken valuePart with
      | some (token, dist) => some ⟨jsonTerm T jsonSubpath token, dist, true, false⟩
      | none => none

/-- The query of a search: built here, or left to the parser. -/
inductive BuiltQuery where
  | special (query : FuzzyTermQuery)
  | parsed (queryStr : String)
  deriving DecidableEq

/-- The query that a search runs, but for the expiry. -/
def buildQuery (queryStr : String) (defaultFields : List String) (boostFields : List BoostField) :
    BuiltQuery :=
  let effective := effectiveQuery T queryStr defaultFields boostFields
  match tryBuildJsonSpecialQuery T effective with
  | some special => .special special
  | none => .parsed effective

end

/-! ## What the special forms read -/

theorem parseU8_eq_some_iff {s : List Char} {n : ℕ} : parseU8 s = some n ↔
    ∃ (plus : Bool) (digits : List Char), s = (if plus then ['+'] else []) ++ digits ∧
      Cut.IsDecimal digits ∧ Cut.decimal digits ≤ 255 ∧ n = Cut.decimal digits := by
  unfold parseU8
  constructor
  · intro h
    by_cases hs : s.head? = some '+'
    · obtain ⟨digits, rfl⟩ := List.head?_eq_some_iff.1 hs
      dsimp only at h
      rw [if_pos hs, List.tail_cons] at h
      split_ifs at h with hd
      cases h
      exact ⟨true, digits, rfl, hd.1, hd.2, rfl⟩
    · dsimp only at h
      rw [if_neg hs] at h
      split_ifs at h with hd
      cases h
      exact ⟨false, s, rfl, hd.1, hd.2, rfl⟩
  · rintro ⟨plus, digits, rfl, hd, hle, rfl⟩
    cases plus with
    | true => exact if_pos ⟨hd, hle⟩
    | false =>
      have hhead : digits.head? ≠ some '+' := by
        intro hplus
        have := hd.2 '+' (List.mem_of_mem_head? hplus)
        simp at this
      dsimp only
      rw [if_neg Bool.false_ne_true, List.nil_append, if_neg hhead, if_pos ⟨hd, hle⟩]

theorem prefixToken_eq_some_iff {value token : List Char} : prefixToken value = some token ↔
    value = token ++ ['*'] ∧ token ≠ [] ∧ '*' ∉ token := by
  rw [prefixToken, Option.filter_eq_some_iff, Cut.stripLast_eq_some_iff, decide_eq_true_eq]

/-- A value that ends with a digit is no prefix. -/
theorem prefixToken_eq_none {token digits : List Char} (h : Cut.IsDecimal digits) (plus : Bool) :
    prefixToken (token ++ '~' :: ((if plus then ['+'] else []) ++ digits)) = none := by
  cases hp : prefixToken (token ++ '~' :: ((if plus then ['+'] else []) ++ digits)) with
  | none => rfl
  | some token' =>
    have hlast := congrArg List.getLast? (prefixToken_eq_some_iff.1 hp).1
    rw [← List.cons_append, ← List.append_assoc, List.getLast?_append_of_ne_nil _ h.1,
      List.getLast?_concat] at hlast
    have := h.2 '*' (List.mem_of_mem_getLast? hlast)
    simp at this

/-- A sign or a digit is no tilde. -/
theorem tilde_notMem {digits : List Char} (h : Cut.IsDecimal digits) (plus : Bool) :
    '~' ∉ (if plus then ['+'] else []) ++ digits := by
  rw [List.mem_append, not_or]
  constructor
  · cases plus <;> simp
  · intro hmem
    have := h.2 '~' hmem
    simp at this

theorem fuzzyToken_eq_some_iff {value token : List Char} {dist : ℕ} :
    fuzzyToken value = some (token, dist) ↔ ∃ (plus : Bool) (digits : List Char),
      value = token ++ '~' :: ((if plus then ['+'] else []) ++ digits) ∧ token ≠ [] ∧
        '~' ∉ token ∧ Cut.IsDecimal digits ∧ dist = Cut.decimal digits ∧ dist ≤ 2 := by
  simp only [fuzzyToken, Option.bind_eq_bind, Option.bind_eq_some_iff, Prod.exists,
    Cut.last_eq_some_iff, parseU8_eq_some_iff]
  constructor
  · rintro ⟨tokenPart, distStr, ⟨rfl, -⟩, dist, ⟨plus, digits, rfl, hdec, -, rfl⟩, hif⟩
    split_ifs at hif with h
    cases hif
    exact ⟨plus, digits, rfl, h.1, h.2.1, hdec, rfl, h.2.2⟩
  · rintro ⟨plus, digits, rfl, hne, htilde, hdec, rfl, hle⟩
    exact ⟨token, _, ⟨rfl, tilde_notMem hdec plus⟩, _, ⟨plus, digits, rfl, hdec, by omega, rfl⟩,
      if_pos ⟨hne, htilde, hle⟩⟩

end Tantylla
