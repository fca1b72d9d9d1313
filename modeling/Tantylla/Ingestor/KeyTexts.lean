/-
  The key strings of CQL values, as other crates write them.

  A UUID is written in hexadecimal digits with hyphens, a blob in base64, and what
  `cql_value_to_key_string` leaves to the derived `Debug` with the name of its variant, an
  integer in decimal digits, a varint as the list of its bytes.  Each section says when one
  text comes before another.
-/
import Tantylla.Ingestor.Ids
import Tantylla.Lib.TextOrder

namespace Tantylla

open TextOrder

/-! ## Texts -/

/-- A hyphen after the first `k` characters. -/
def hyphen (k : ℕ) (l : List Char) : List Char := l.take k ++ '-' :: l.drop k

/-- `Uuid::to_string`: groups of 8, 4, 4, 4 and 12 digits. -/
def hyphenated (u : Uuid) : String :=
  String.ofList (hyphen 8 (hyphen 12 (hyphen 16 (hyphen 20
    ((digits 16 32 u.toNat).map Nat.digitChar)))))

/-- The base64 symbols of bytes, six bits each, filled up to four with the padding; the padding
    is 0, and the symbol of the bits `n` is `n + 1`. -/
def base64Symbols : List ℕ → List ℕ
  | [] => []
  | [a] => [a / 4 + 1, a % 4 * 16 + 1, 0, 0]
  | [a, b] => [a / 4 + 1, a % 4 * 16 + b / 16 + 1, b % 16 * 4 + 1, 0]
  | a :: b :: c :: bytes =>
    [a / 4 + 1, a % 4 * 16 + b / 16 + 1, b % 16 * 4 + c / 64 + 1, c % 64 + 1] ++
      base64Symbols bytes

/-- The standard alphabet, after the padding. -/
def base64Char (n : ℕ) : Char :=
  ("=ABCDEFGHIJKLMNOPQRSTUVWXYZabcdefghijklmnopqrstuvwxyz0123456789+/".toList)[n]?.getD '='

/-- `base64::engine::general_purpose::STANDARD.encode`. -/
def base64Standard (bytes : List UInt8) : String :=
  String.ofList ((base64Symbols (bytes.map UInt8.toNat)).map base64Char)

/-- The bytes of a varint: big-endian, in two's complement, as few as there can be. -/
def varintBytes (i : ℤ) : List ℕ :=
  if -128 ≤ i ∧ i < 128 then [(i % 256).toNat]
  else varintBytes (i / 256) ++ [(i % 256).toNat]
  termination_by i.natAbs
  decreasing_by omega

/-- The elements of a list, with whether they are the last. -/
def withLast : List ℕ → List (ℕ × Bool)
  | [] => []
  | [b] => [(b, true)]
  | b :: bytes => (b, false) :: withLast bytes

/-- `Debug` of a byte of a varint, with what follows it. -/
def debugByte (e : ℕ × Bool) : List Char :=
  Nat.toDigits 10 e.1 ++ if e.2 then [']', ')', ')'] else [',', ' ']

/-- How other crates write key values. -/
structure Formats.KeyForms (F : Formats) : Prop where
  uuid : ∀ u, F.uuid u = hyphenated u
  base64 : ∀ bytes, F.base64 bytes = base64Standard bytes
  tinyInt : ∀ i, F.debug (.tinyInt i) = "TinyInt(" ++ toString i ++ ")"
  smallInt : ∀ i, F.debug (.smallInt i) = "SmallInt(" ++ toString i ++ ")"
  timestamp : ∀ ms, F.debug (.timestamp ms) = "Timestamp(CqlTimestamp(" ++ toString ms ++ "))"
  varint : ∀ i, F.debug (.varint i) = "Varint(CqlVarint([" ++
    String.ofList ((withLast (varintBytes i)).flatMap debugByte)

/-! ## UUIDs -/

theorem hyphen_lt_iff {k : ℕ} {l r : List Char} (h : l.length = r.length) :
    hyphen k l < hyphen k r ↔ l < r := by
  have hk : (l.take k).length = (r.take k).length := by simp [h]
  have hrest : '-' :: l.drop k < '-' :: r.drop k ↔ l.drop k < r.drop k := by simp
  unfold hyphen
  rw [append_lt_append_iff hk, hrest, ← append_lt_append_iff hk, List.take_append_drop,
    List.take_append_drop]

@[simp] theorem length_hyphen {k : ℕ} {l : List Char} : (hyphen k l).length = l.length + 1 := by
  simp [hyphen]
  omega

/-- **UUIDs are in the order of their 128 bits.** -/
theorem hyphenated_lt_iff (a b : Uuid) : hyphenated a < hyphenated b ↔ a.toNat < b.toNat := by
  have hsixteen (u : Uuid) : ∀ x ∈ digits 16 32 u.toNat, x ∈ Set.Iio 16 := by
    intro x hx
    exact Set.mem_Iio.2 (lt_of_mem_digits (by decide) hx)
  rw [hyphenated, hyphenated, String.lt_iff_toList_lt, String.toList_ofList, String.toList_ofList]
  rw [hyphen_lt_iff (by simp), hyphen_lt_iff (by simp), hyphen_lt_iff (by simp),
    hyphen_lt_iff (by simp), map_lt_map_iff strictMonoOn_digitChar (hsixteen a) (hsixteen b),
    digits_lt_iff]
  · exact a.isLt
  · exact b.isLt

/-! ## Blobs -/

/-- **The symbols of bytes are in the order of the bytes.** -/
theorem base64Symbols_lt {l r : List ℕ} (hl : ∀ x ∈ l, x < 256) (hr : ∀ x ∈ r, x < 256)
    (h : l < r) : base64Symbols l < base64Symbols r := by
  fun_induction base64Symbols l generalizing r with
  | case1 =>
    rcases r with _ | ⟨x, _ | ⟨y, _ | ⟨z, t⟩⟩⟩
    · exact absurd h (lt_irrefl _)
    all_goals exact List.nil_lt_cons _ _
  | case2 a | case3 a b =>
    rcases r with _ | ⟨x, _ | ⟨y, _ | ⟨z, t⟩⟩⟩
    · exact absurd h (List.not_lt_nil _)
    all_goals
      simp only [base64Symbols, List.forall_mem_cons, List.cons_append, List.nil_append,
        List.cons_lt_cons_iff, List.nil_lt_cons, List.not_lt_nil, and_true, and_false,
        or_false] at hl hr h ⊢
      omega
  | case4 a b c bytes ih =>
    rcases r with _ | ⟨x, _ | ⟨y, _ | ⟨z, t⟩⟩⟩
    · exact absurd h (List.not_lt_nil _)
    all_goals
      simp only [base64Symbols, List.forall_mem_cons, List.cons_append, List.nil_append,
        List.cons_lt_cons_iff, List.not_lt_nil, and_false, or_false] at hl hr h ⊢
    · omega
    · omega
    · -- of the same three bytes, the rest decides
      by_cases ht : bytes < t
      · simp only [ht, ih hl.2.2.2 hr.2.2.2 ht, and_true] at h ⊢
        omega
      · simp only [ht, and_false, or_false] at h
        omega

/-- The padding and the letters, the digits, the two other symbols. -/
def base64Block (n : ℕ) : ℕ := if n ≤ 52 then 0 else if n ≤ 62 then 1 else 2

/-- The padding, the capital letters, the small ones, the digits, plus and slash. -/
theorem toNat_base64Char : ∀ n < 65, (base64Char n).toNat =
    if n = 0 then 61 else if n ≤ 26 then n + 64 else if n ≤ 52 then n + 70
    else if n ≤ 62 then n - 5 else if n = 63 then 43 else 47 := by
  decide +kernel

/-- The characters of symbols are in the order of the symbols within a block, and in the other
    order between blocks. -/
theorem base64Char_lt_iff {x y : ℕ} (hxy : x < y) (hy : y < 65) :
    base64Char x < base64Char y ↔ base64Block x = base64Block y := by
  have hchar : base64Char x < base64Char y ↔ (base64Char x).toNat < (base64Char y).toNat :=
    UInt32.lt_iff_toNat_lt
  rw [hchar, toNat_base64Char x (by omega), toNat_base64Char y hy]
  unfold base64Block
  grind

theorem base64Char_inj {x y : ℕ} (hx : x < 65) (hy : y < 65) (h : base64Char x = base64Char y) :
    x = y := by
  have hne {m n : ℕ} (hmn : m < n) (hn : n < 65) : base64Char m ≠ base64Char n := by
    intro heq
    have hnat := congrArg Char.toNat heq
    rw [toNat_base64Char m (hmn.trans hn), toNat_base64Char n hn] at hnat
    grind
  rcases lt_trichotomy x y with hxy | rfl | hxy
  · exact absurd h (hne hxy hy)
  · rfl
  · exact absurd h.symm (hne hxy hx)

theorem base64Symbols_lt_65 {l : List ℕ} (hl : ∀ x ∈ l, x < 256) :
    ∀ x ∈ base64Symbols l, x < 65 := by
  fun_induction base64Symbols l with
  | case1 => simp
  | case2 a | case3 a b =>
    simp at hl ⊢
    omega
  | case4 a b c bytes ih =>
    simp only [List.forall_mem_cons] at hl
    simp only [List.cons_append, List.nil_append, List.forall_mem_cons]
    have := ih hl.2.2.2
    refine ⟨?_, ?_, ?_, ?_, this⟩ <;> omega

/-- The first symbols that differ are of one block. -/
def BlobsInOrder (a b : List ℕ) : Prop :=
  FirstDiffer (fun x y => base64Block x = base64Block y) (base64Symbols a) (base64Symbols b)

/-- **The texts of blobs are in the order of the bytes iff the first symbols that differ are of
    one block.** -/
theorem base64Standard_lt_iff {a b : List UInt8} (h : a.map UInt8.toNat < b.map UInt8.toNat) :
    base64Standard a < base64Standard b ↔
      BlobsInOrder (a.map UInt8.toNat) (b.map UInt8.toNat) := by
  have hbytes (l : List UInt8) : ∀ x ∈ l.map UInt8.toNat, x < 256 := by
    intro x hx
    obtain ⟨c, -, rfl⟩ := List.mem_map.1 hx
    exact c.toNat_lt
  have hsymbols := base64Symbols_lt (hbytes a) (hbytes b) h
  have ha := base64Symbols_lt_65 (hbytes a)
  have hb := base64Symbols_lt_65 (hbytes b)
  rw [base64Standard, base64Standard, String.lt_iff_toList_lt, String.toList_ofList,
    String.toList_ofList, map_lt_iff fun x hx y hy => base64Char_inj (ha x hx) (hb y hy),
    lex_iff_firstDiffer (fun x => lt_irrefl (base64Char x)) (not_prefix_of_lt hsymbols),
    BlobsInOrder]
  exact firstDiffer_congr (fun x _ y hy hxy => base64Char_lt_iff hxy (hb y hy)) hsymbols

/-! ## Integers -/

/-- The digits of two integers of one sign are in the order of the integers. -/
structure NumeralsInOrder (i j : ℤ) : Prop where
  nonneg : 0 ≤ i → Leads false i.toNat j.toNat
  neg : j < 0 → ¬ Leads false (-j).toNat (-i).toNat

/-- The text of an integer in parentheses. -/
theorem toList_parens (i : ℤ) (s : List Char) : (toString i).toList ++ ')' :: s =
    if 0 ≤ i then Nat.toDigits 10 i.toNat ++ ')' :: s
    else '-' :: (Nat.toDigits 10 (-i).toNat ++ ')' :: s) := by
  rw [toList_toString_int, Nat.toList_repr, Nat.toList_repr]
  split_ifs <;> rfl

/-- **Integers in parentheses are in the order of their digits.** -/
theorem parens_lt_iff {i j : ℤ} (hij : i < j) (s : List Char) :
    (toString i).toList ++ ')' :: s < (toString j).toList ++ ')' :: s ↔ NumeralsInOrder i j := by
  have hparen : if false = true then '9' < ')' else ')' < '0' := by decide
  rw [toList_parens, toList_parens]
  by_cases hi : 0 ≤ i
  · have hj : 0 ≤ j := by omega
    rw [if_pos hi, if_pos hj, numeral_lt_iff (by omega) hparen]
    exact ⟨fun h => ⟨fun _ => h, fun hneg => absurd hj (by omega)⟩, fun h => h.nonneg hi⟩
  · rw [if_neg hi]
    by_cases hj : 0 ≤ j
    · -- the sign comes before all digits
      obtain ⟨d, ds, hds⟩ := List.exists_cons_of_ne_nil (@Nat.toDigits_ne_nil j.toNat 10)
      have hd : d.isDigit = true :=
        Nat.isDigit_of_mem_toDigits (by decide) (by decide) (hds ▸ List.mem_cons_self)
      have hlt : '-' < d := by
        rw [Char.isDigit_iff_toNat] at hd
        exact Char.lt_def.2 (UInt32.lt_iff_toNat_lt.2 (lt_of_lt_of_le (by decide) hd.1))
      rw [if_pos hj, hds, List.cons_append, List.cons_lt_cons_iff]
      exact ⟨fun _ => ⟨fun h => absurd h hi, fun h => absurd hj (by omega)⟩, fun _ => Or.inl hlt⟩
    · rw [if_neg hj, List.cons_lt_cons_iff]
      have hdigit : (')').isDigit = false := by decide
      have hgt := numeral_gt_iff (show (-j).toNat < (-i).toNat by omega) hparen hdigit hdigit s s
      simp only [lt_irrefl, false_or, true_and, hgt]
      exact ⟨fun h => ⟨fun h => absurd h hi, fun _ => h⟩, fun h => h.neg (by omega)⟩

/-! ## Varints -/

theorem varintBytes_of_lt {i : ℤ} (hi : -128 ≤ i ∧ i < 128) :
    varintBytes i = [(i % 256).toNat] := by
  rw [varintBytes, if_pos hi]

theorem varintBytes_ne_nil (i : ℤ) : varintBytes i ≠ [] := by
  unfold varintBytes
  split_ifs <;> simp

theorem varintBytes_inj {i j : ℤ} (h : varintBytes i = varintBytes j) : i = j := by
  fun_induction varintBytes i generalizing j with
  | case1 i hi =>
    rw [varintBytes] at h
    split_ifs at h with hj
    · rw [List.cons.injEq] at h
      omega
    · have hlen := congrArg List.length h
      simp [varintBytes_ne_nil] at hlen
  | case2 i hi ih =>
    rw [varintBytes.eq_1 j] at h
    split_ifs at h with hj
    · have hlen := congrArg List.length h
      simp [varintBytes_ne_nil] at hlen
    · obtain ⟨hdiv, hmod⟩ := List.append_inj' h rfl
      have := ih hdiv
      rw [List.cons.injEq] at hmod
      omega

/-- A byte of a varint with what follows it comes before another one. -/
def ByteLt (x y : ℕ × Bool) : Prop :=
  if x.1 < y.1 then Leads x.2 x.1 y.1
  else if y.1 < x.1 then ¬ Leads y.2 y.1 x.1
  else x.2 = false ∧ y.2 = true

/-- The first bytes that differ, or of which only one is the last, are in order. -/
def VarintsInOrder (i j : ℤ) : Prop :=
  FirstDiffer ByteLt (withLast (varintBytes i)) (withLast (varintBytes j))

theorem withLast_begins {l r : List ℕ} (hl : l ≠ []) (h : withLast l <+: withLast r) : l = r := by
  induction l generalizing r with
  | nil => exact absurd rfl hl
  | cons b l ih =>
    rcases l with _ | ⟨c, l⟩ <;> rcases r with _ | ⟨d, _ | ⟨e, r⟩⟩ <;>
      simp only [withLast, List.cons_prefix_cons, Prod.mk.injEq, reduceCtorEq, and_false,
        false_and, List.prefix_nil] at h
    · rw [h.1.1]
    · obtain ⟨⟨rfl, -⟩, h⟩ := h
      rw [ih (List.cons_ne_nil _ _) h]

theorem debugByte_lt_iff {x y : ℕ × Bool} (hne : x ≠ y) (s t : List Char) :
    debugByte x ++ s < debugByte y ++ t ↔ ByteLt x y := by
  obtain ⟨m, l⟩ := x
  obtain ⟨n, k⟩ := y
  have hcode (m : ℕ) (l : Bool) (s : List Char) : ∃ c cs, debugByte (m, l) ++ s =
      Nat.toDigits 10 m ++ c :: cs ∧ c.isDigit = false ∧ (if l then '9' < c else c < '0') := by
    cases l
    · exact ⟨',', _, List.append_assoc .., by decide, by decide⟩
    · exact ⟨']', _, List.append_assoc .., by decide, by decide⟩
  obtain ⟨c, cs, hx, hc, hc'⟩ := hcode m l s
  obtain ⟨d, ds, hy, hd, hd'⟩ := hcode n k t
  unfold ByteLt
  dsimp only
  rcases lt_trichotomy m n with hmn | rfl | hmn
  · rw [if_pos hmn, hx, hy, numeral_lt_iff hmn hc']
  · -- the end of the list comes after a comma
    have hlk : l ≠ k := fun h => hne (by rw [h])
    have hdigits : '0' < '9' := by decide
    rw [if_neg (lt_irrefl m), if_neg (lt_irrefl m), hx, hy]
    cases l <;> cases k <;> simp only [ne_eq, not_true_eq_false, if_true, if_false,
      Bool.false_eq_true] at hlk hc' hd'
    · have hcd : c < d := (hc'.trans hdigits).trans hd'
      simpa [numeral_self_lt_iff m hcd.ne] using hcd
    · have hcd : d < c := (hd'.trans hdigits).trans hc'
      simpa [numeral_self_lt_iff m hcd.ne'] using hcd.le
  · rw [if_neg hmn.not_gt, if_pos hmn, hx, hy, numeral_gt_iff hmn hd' hd hc]

/-- **Varints are in the order of their bytes, read as decimal numerals.** -/
theorem varint_lt_iff {i j : ℤ} (hij : i ≠ j) :
    (withLast (varintBytes i)).flatMap debugByte < (withLast (varintBytes j)).flatMap debugByte ↔
      VarintsInOrder i j := by
  have hne (x : ℕ × Bool) : debugByte x ≠ [] := by simp [debugByte, Nat.toDigits_ne_nil]
  have hirrefl (x : ℕ × Bool) : ¬ ByteLt x x := by
    rcases x with ⟨m, _ | _⟩ <;> simp [ByteLt]
  have hends : ¬ withLast (varintBytes j) <+: withLast (varintBytes i) := by
    intro h
    exact hij (varintBytes_inj (withLast_begins (varintBytes_ne_nil j) h)).symm
  rw [flatMap_lt_iff hne hirrefl fun x y hxy s t => debugByte_lt_iff hxy s t,
    lex_iff_firstDiffer hirrefl hends, VarintsInOrder]

end Tantylla
