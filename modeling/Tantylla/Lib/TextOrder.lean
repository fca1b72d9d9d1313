/-
  The order of texts, and of what they are written from.

  Lists are in lexicographic order, a list before those it begins.  Where each element is
  written by a code that decides before it ends, the codes in a row are in the order of the
  elements that first differ (`flatMap_lt_iff`); so are the bytes of UTF-8
  (`utf8_lt_iff`).  Digits of one width are in the order of their numbers
  (`digits_lt_iff`), decimal numerals are not: a number comes before a greater one if it
  does so when zeros make it as long (`numeral_lt_iff`).
-/
import Mathlib.Data.List.Lex
import Mathlib.Data.String.Basic
import Mathlib.Data.Set.Function

namespace TextOrder

/-! ## Lists -/

section
variable {α β : Type*}

/-- Where the lists first differ, their elements are related. -/
def FirstDiffer [DecidableEq α] (R : α → α → Prop) : List α → List α → Prop
  | x :: l, y :: r => if x = y then FirstDiffer R l r else R x y
  | _, _ => True

/-- Lists are in the order of the elements that first differ, unless one begins the other. -/
theorem lex_iff_firstDiffer [DecidableEq α] {R : α → α → Prop} (hR : ∀ x, ¬ R x x)
    {l r : List α} (h : ¬ r <+: l) : List.Lex R l r ↔ FirstDiffer R l r := by
  induction l generalizing r with
  | nil =>
    rcases r with _ | ⟨y, r⟩
    · exact absurd (List.prefix_refl []) h
    · simp [FirstDiffer]
  | cons x l ih =>
    rcases r with _ | ⟨y, r⟩
    · exact absurd List.nil_prefix h
    · rw [List.cons_lex_cons_iff, FirstDiffer]
      by_cases hxy : x = y
      · subst hxy
        have hr : ¬ r <+: l := by simpa using h
        simp [hR x, ih hr]
      · simp [hxy]

variable [LinearOrder β]

theorem append_lt_append_iff {a b c d : List β} (h : a.length = b.length) :
    a ++ c < b ++ d ↔ a < b ∨ a = b ∧ c < d := by
  induction a generalizing b with
  | nil =>
    obtain rfl : b = [] := List.length_eq_zero_iff.1 h.symm
    simp
  | cons x a ih =>
    rcases b with _ | ⟨y, b⟩
    · cases h
    · have hl : a.length = b.length := Nat.succ.inj h
      rw [List.cons_append, List.cons_append, List.cons_lt_cons_iff, ih hl,
        List.cons_lt_cons_iff, List.cons.injEq]
      tauto

@[simp] theorem append_left_lt_iff (p : List β) {a b : List β} : p ++ a < p ++ b ↔ a < b := by
  simp [append_lt_append_iff]

theorem not_prefix_of_lt {a b : List β} (h : a < b) : ¬ b <+: a := by
  rintro ⟨t, rfl⟩
  have ht : b ++ t < b ++ [] := by rwa [List.append_nil]
  rw [append_left_lt_iff] at ht
  exact absurd ht (List.not_lt_nil t)

/-- Of the first elements that differ, the one of the smaller list is smaller. -/
theorem firstDiffer_congr {R Q : β → β → Prop} {l r : List β}
    (hRQ : ∀ x ∈ l, ∀ y ∈ r, x < y → (R x y ↔ Q x y)) (h : l < r) :
    FirstDiffer R l r ↔ FirstDiffer Q l r := by
  induction l generalizing r with
  | nil => simp [FirstDiffer]
  | cons x l ih =>
    rcases r with _ | ⟨y, r⟩
    · exact absurd h (List.not_lt_nil _)
    · rw [FirstDiffer, FirstDiffer]
      rcases List.cons_lt_cons_iff.1 h with hxy | ⟨rfl, hlr⟩
      · rw [if_neg hxy.ne, if_neg hxy.ne]
        exact hRQ x List.mem_cons_self y List.mem_cons_self hxy
      · rw [if_pos rfl, if_pos rfl]
        exact ih (fun a ha b hb => hRQ a (List.mem_cons_of_mem _ ha) b (List.mem_cons_of_mem _ hb))
          hlr

/-- Not before, not equal: after. -/
theorem lt_iff_of_lt {a b : List β} {P : Prop} (h : P → a < b) (h' : ¬ P → b < a) :
    a < b ↔ P := by
  refine ⟨fun hab => ?_, h⟩
  by_contra hP
  exact lt_asymm hab (h' hP)

/-- **Codes in a row are in the order of what they stand for**, if each decides. -/
theorem flatMap_lt_iff {code : α → List β} {R : α → α → Prop} (hne : ∀ x, code x ≠ [])
    (hR : ∀ x, ¬ R x x)
    (hcode : ∀ x y, x ≠ y → ∀ s t, code x ++ s < code y ++ t ↔ R x y) (l r : List α) :
    l.flatMap code < r.flatMap code ↔ List.Lex R l r := by
  induction l generalizing r with
  | nil =>
    rcases r with _ | ⟨y, r⟩
    · simp
    · have hpos : ([] : List β) < code y ++ r.flatMap code := by
        rcases hy : code y with _ | ⟨b, bs⟩
        · exact absurd hy (hne y)
        · exact List.nil_lt_cons _ _
      simpa using hpos
  | cons x l ih =>
    rcases r with _ | ⟨y, r⟩
    · simp
    · rw [List.flatMap_cons, List.flatMap_cons, List.cons_lex_cons_iff]
      by_cases hxy : x = y
      · subst hxy
        simp [hR x, ih r]
      · simp [hcode x y hxy, hxy]

/-- Texts of symbols are in the order of the symbols that first differ. -/
theorem map_lt_iff {f : α → β} {l r : List α} (hf : ∀ x ∈ l, ∀ y ∈ r, f x = f y → x = y) :
    l.map f < r.map f ↔ List.Lex (fun x y => f x < f y) l r := by
  induction l generalizing r with
  | nil => cases r <;> simp
  | cons x l ih =>
    rcases r with _ | ⟨y, r⟩
    · simp
    · have hxy : f x = f y ↔ x = y :=
        ⟨hf x List.mem_cons_self y List.mem_cons_self, congrArg f⟩
      rw [List.map_cons, List.map_cons, List.cons_lt_cons_iff, List.cons_lex_cons_iff, hxy,
        ih fun a ha b hb => hf a (List.mem_cons_of_mem _ ha) b (List.mem_cons_of_mem _ hb)]

/-- A map that keeps the order of the elements keeps the order of lists. -/
theorem map_lt_map_iff [LinearOrder α] {f : α → β} {S : Set α} (hf : StrictMonoOn f S)
    {l r : List α} (hl : ∀ x ∈ l, x ∈ S) (hr : ∀ x ∈ r, x ∈ S) :
    l.map f < r.map f ↔ l < r := by
  induction l generalizing r with
  | nil => cases r <;> simp
  | cons x l ih =>
    rcases r with _ | ⟨y, r⟩
    · simp
    · have hx := hl x List.mem_cons_self
      have hy := hr y List.mem_cons_self
      rw [List.map_cons, List.map_cons, List.cons_lt_cons_iff, List.cons_lt_cons_iff,
        hf.lt_iff_lt hx hy, hf.injOn.eq_iff hx hy,
        ih (fun a ha => hl a (List.mem_cons_of_mem _ ha))
          fun a ha => hr a (List.mem_cons_of_mem _ ha)]

end

/-! ## Digits -/

/-- The last `w` digits of a number to the base `b`, the first one first. -/
def digits (b : ℕ) : ℕ → ℕ → List ℕ
  | 0, _ => []
  | w + 1, n => digits b w (n / b) ++ [n % b]

@[simp] theorem length_digits (b w n : ℕ) : (digits b w n).length = w := by
  induction w generalizing n with
  | zero => rfl
  | succ w ih => simp [digits, ih]

theorem lt_of_mem_digits {b : ℕ} (hb : 0 < b) {w n d : ℕ} (h : d ∈ digits b w n) : d < b := by
  induction w generalizing n with
  | zero => cases h
  | succ w ih =>
    rcases List.mem_append.1 h with h | h
    · exact ih h
    · rw [List.mem_singleton.1 h]
      exact Nat.mod_lt _ hb

/-- The digits of two parts of a number. -/
theorem digits_add (b w k n : ℕ) :
    digits b (w + k) n = digits b w (n / b ^ k) ++ digits b k n := by
  induction k generalizing n with
  | zero => simp [digits]
  | succ k ih =>
    rw [← Nat.add_assoc, digits, ih, digits, Nat.div_div_eq_div_mul, pow_succ', List.append_assoc]

theorem digits_lt_of_lt {b w m n : ℕ} (hn : n < b ^ w) (h : m < n) :
    digits b w m < digits b w n := by
  induction w generalizing m n with
  | zero =>
    rw [pow_zero] at hn
    omega
  | succ w ih =>
    rw [digits, digits, append_lt_append_iff (by simp)]
    have hdiv : m / b ≤ n / b := Nat.div_le_div_right h.le
    rcases hdiv.lt_or_eq with hlt | heq
    · exact Or.inl (ih (Nat.div_lt_of_lt_mul (by rwa [pow_succ'] at hn)) hlt)
    · have hmod : m % b < n % b := by
        have hm := Nat.div_add_mod m b
        have hn' := Nat.div_add_mod n b
        rw [heq] at hm
        omega
      rw [heq]
      exact Or.inr ⟨rfl, List.cons_lt_cons_iff.2 (Or.inl hmod)⟩

/-- **Digits of one width are in the order of their numbers.** -/
theorem digits_lt_iff {b w m n : ℕ} (hm : m < b ^ w) (hn : n < b ^ w) :
    digits b w m < digits b w n ↔ m < n := by
  refine ⟨fun h => ?_, digits_lt_of_lt hn⟩
  by_contra hle
  rcases (Nat.le_of_not_lt hle).lt_or_eq with hlt | rfl
  · exact lt_asymm h (digits_lt_of_lt hm hlt)
  · exact lt_irrefl _ h

/-- The characters of the digits below sixteen are in the order of the digits. -/
theorem strictMonoOn_digitChar : StrictMonoOn Nat.digitChar (Set.Iio 16) := by
  have hlt : ∀ y < 16, ∀ x < y, Nat.digitChar x < Nat.digitChar y := by decide
  intro x _ y hy hxy
  exact hlt y hy x hxy

theorem digitChar_range : ∀ x < 10, '0' ≤ Nat.digitChar x ∧ Nat.digitChar x ≤ '9' := by
  decide

/-! ## Decimal numerals -/

/-- The number of digits of a decimal numeral. -/
def width (n : ℕ) : ℕ := (Nat.toDigits 10 n).length

theorem width_pos (n : ℕ) : 0 < width n := Nat.length_toDigits_pos

theorem lt_pow_width (n : ℕ) : n < 10 ^ width n :=
  (Nat.length_toDigits_le_iff (by decide) (width_pos n)).1 le_rfl

theorem width_mono {m n : ℕ} (h : m ≤ n) : width m ≤ width n :=
  (Nat.length_toDigits_le_iff (by decide) (width_pos n)).2 (h.trans_lt (lt_pow_width n))

theorem toDigits_eq (n : ℕ) : Nat.toDigits 10 n = (digits 10 (width n) n).map Nat.digitChar := by
  induction n using Nat.strong_induction_on with
  | _ n ih =>
    by_cases hn : n < 10
    · rw [width, Nat.toDigits_of_lt_base hn]
      simp [digits, Nat.mod_eq_of_lt hn]
    · have hdigits := Nat.toDigits_of_base_le (b := 10) (by decide) (Nat.le_of_not_lt hn)
      have hwidth : width n = width (n / 10) + 1 := by
        rw [width, hdigits, List.length_append]
        rfl
      rw [hdigits, ih (n / 10) (by omega), hwidth, digits, List.map_append]
      rfl

/-- The numerals of one width, with zeros in front, are in the order of their numbers. -/
theorem map_digits_lt_iff {w m n : ℕ} (hm : m < 10 ^ w) (hn : n < 10 ^ w) :
    (digits 10 w m).map Nat.digitChar < (digits 10 w n).map Nat.digitChar ↔ m < n := by
  have hten (n : ℕ) : ∀ x ∈ digits 10 w n, x ∈ Set.Iio 16 := by
    intro x hx
    have := lt_of_mem_digits (by decide) hx
    exact Set.mem_Iio.2 (by omega)
  rw [map_lt_map_iff strictMonoOn_digitChar (hten m) (hten n), digits_lt_iff hm hn]

/-- The number `m`, or the next one of its width, is at most `n` when zeros make it as long. -/
def Leads (next : Bool) (m n : ℕ) : Prop :=
  (if next then m + 1 else m) * 10 ^ (width n - width m) ≤ n

/-- **Decimal numerals in texts**: the smaller number, followed by a character before all
    digits (or after all of them), is first iff it leads (or the next one does). -/
theorem numeral_lt_iff {m n : ℕ} (hmn : m < n) {next : Bool} {c : Char}
    (hc : if next then '9' < c else c < '0') (s t : List Char) :
    Nat.toDigits 10 m ++ c :: s < Nat.toDigits 10 n ++ t ↔ Leads next m n := by
  obtain ⟨k, hk⟩ := Nat.exists_eq_add_of_le (width_mono hmn.le)
  have hpos : 0 < 10 ^ k := Nat.pow_pos (by decide)
  have hm : m < 10 ^ width m := lt_pow_width m
  have hn : n / 10 ^ k < 10 ^ width m := by
    have h := lt_pow_width n
    rw [hk, Nat.pow_add, Nat.mul_comm] at h
    exact Nat.div_lt_of_lt_mul h
  -- the digits of `n` that stand under those of `m` decide, else the next one
  have hheads : Nat.toDigits 10 m ++ c :: s < Nat.toDigits 10 n ++ t ↔ m < n / 10 ^ k ∨
      m = n / 10 ^ k ∧ c :: s < (digits 10 k n).map Nat.digitChar ++ t := by
    have hlt := map_digits_lt_iff hm hn
    have hgt := map_digits_lt_iff hn hm
    rw [toDigits_eq m, toDigits_eq n, hk, digits_add, List.map_append, List.append_assoc,
      append_lt_append_iff (by simp), hlt]
    refine or_congr Iff.rfl (and_congr_left' ⟨fun heq => ?_, fun heq => ?_⟩)
    · rw [heq] at hlt
      rw [heq] at hgt
      have := mt hlt.2 (lt_irrefl _)
      have := mt hgt.2 (lt_irrefl _)
      omega
    · rw [← heq]
  have hlead : Leads next m n ↔ (if next then m + 1 else m) ≤ n / 10 ^ k := by
    rw [Leads, hk, Nat.add_sub_cancel_left, Nat.le_div_iff_mul_le hpos]
  rw [hheads, hlead]
  rcases k with _ | k
  · cases next <;> simp <;> omega
  · obtain ⟨x, xs, hx⟩ := List.exists_cons_of_length_pos
      (show 0 < (digits 10 (k + 1) n).length by simp)
    have hten : x < 10 := lt_of_mem_digits (by decide) (hx ▸ List.mem_cons_self)
    have hrange := digitChar_range x hten
    rw [hx, List.map_cons, List.cons_append, List.cons_lt_cons_iff]
    cases next with
    | false =>
      have hlt : c < Nat.digitChar x := lt_of_lt_of_le (by simpa using hc) hrange.1
      simp only [hlt, true_or, and_true, Bool.false_eq_true, if_false]
      omega
    | true =>
      have hgt : Nat.digitChar x < c := lt_of_le_of_lt hrange.2 (by simpa using hc)
      simp only [hgt.not_gt, hgt.ne', false_and, or_self, and_false, or_false, if_true]
      omega

/-- The numeral of a text, up to the first character that is not a digit. -/
theorem takeWhile_numeral (n : ℕ) {c : Char} (hc : c.isDigit = false) (s : List Char) :
    (Nat.toDigits 10 n ++ c :: s).takeWhile Char.isDigit = Nat.toDigits 10 n := by
  have hdigits : ∀ d ∈ Nat.toDigits 10 n, d.isDigit = true := by
    intro d hd
    exact Nat.isDigit_of_mem_toDigits (by decide) (by decide) hd
  rw [List.takeWhile_append_of_pos hdigits, List.takeWhile_cons, if_neg (by simp [hc]),
    List.append_nil]

theorem numeral_inj {m n : ℕ} {c d : Char} (hc : c.isDigit = false) (hd : d.isDigit = false)
    {s t : List Char} (h : Nat.toDigits 10 m ++ c :: s = Nat.toDigits 10 n ++ d :: t) : m = n := by
  have htake := congrArg (List.takeWhile Char.isDigit) h
  rw [takeWhile_numeral m hc, takeWhile_numeral n hd] at htake
  rw [← @Nat.ofDigitChars_ten_toDigits m, htake, Nat.ofDigitChars_ten_toDigits]

/-- The greater number is first iff the smaller one does not lead. -/
theorem numeral_gt_iff {m n : ℕ} (hmn : m < n) {next : Bool} {c d : Char}
    (hc : if next then '9' < c else c < '0') (hc' : c.isDigit = false) (hd : d.isDigit = false)
    (s t : List Char) :
    Nat.toDigits 10 n ++ d :: t < Nat.toDigits 10 m ++ c :: s ↔ ¬ Leads next m n := by
  rw [← numeral_lt_iff hmn hc s (d :: t), not_lt]
  refine ⟨le_of_lt, fun hle => lt_of_le_of_ne hle fun heq => ?_⟩
  exact hmn.ne' (numeral_inj hd hc' heq)

/-- Of one number, what follows decides. -/
theorem numeral_self_lt_iff (n : ℕ) {c d : Char} (hcd : c ≠ d) (s t : List Char) :
    Nat.toDigits 10 n ++ c :: s < Nat.toDigits 10 n ++ d :: t ↔ c < d := by
  rw [append_left_lt_iff, List.cons_lt_cons_iff]
  simp [hcd]

/-! ## UTF-8 -/

/-- The bytes of a character, as numbers. -/
def utf8Char (c : Char) : List ℕ := (String.utf8EncodeChar c).map UInt8.toNat

/-- The bytes of a text. -/
def utf8 (l : List Char) : List ℕ := l.flatMap utf8Char

/-- The first byte tells how many there are, the others hold six bits each. -/
theorem utf8Char_eq (c : Char) : utf8Char c =
    let v := c.val.toNat
    if v ≤ 0x7f then [v]
    else if v ≤ 0x7ff then [v / 64 + 0xc0, v % 64 + 0x80]
    else if v ≤ 0xffff then [v / 4096 + 0xe0, v / 64 % 64 + 0x80, v % 64 + 0x80]
    else [v / 262144 + 0xf0, v / 4096 % 64 + 0x80, v / 64 % 64 + 0x80, v % 64 + 0x80] := by
  have hc : c.val.toNat < 0x110000 := by
    rcases c.valid with hc | hc
    · exact hc.trans (by decide)
    · exact hc.2
  unfold utf8Char String.utf8EncodeChar
  dsimp only
  split_ifs <;> simp only [List.map_cons, List.map_nil, UInt8.toNat_ofNat'] <;>
    simp only [List.cons.injEq, and_true] <;> omega

theorem utf8Char_lt {x y : Char} (h : x < y) (s t : List ℕ) :
    utf8Char x ++ s < utf8Char y ++ t := by
  have hx : x.val.toNat < y.val.toNat := h
  have hy : y.val.toNat < 64 ^ 4 := by
    rcases y.valid with hy | hy
    · exact hy.trans (by decide)
    · exact hy.2.trans (by decide)
  -- the digits to the base 64
  have hdigits := digits_lt_of_lt hy hx
  simp only [digits, List.nil_append, List.cons_append, Nat.div_div_eq_div_mul, Nat.reduceMul,
    List.cons_lt_cons_iff] at hdigits
  rw [utf8Char_eq, utf8Char_eq]
  dsimp only
  split_ifs <;>
    simp only [List.cons_append, List.nil_append, List.cons_lt_cons_iff] <;>
    omega

/-- **The bytes of texts are in the order of their characters.** -/
theorem utf8_lt_iff (l r : List Char) : utf8 l < utf8 r ↔ l < r := by
  have hne (c : Char) : utf8Char c ≠ [] := by
    rw [utf8Char, ne_eq, List.map_eq_nil_iff]
    exact String.utf8EncodeChar_ne_nil
  refine flatMap_lt_iff hne (fun c => lt_irrefl c) ?_ l r
  intro x y hxy s t
  refine lt_iff_of_lt (fun h => utf8Char_lt h s t) fun hle => utf8Char_lt ?_ t s
  exact lt_of_le_of_ne (not_lt.1 hle) hxy.symm

end TextOrder
