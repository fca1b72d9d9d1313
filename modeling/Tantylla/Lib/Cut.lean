/-
  Texts cut at a character, and trimmed.

  Texts are lists of characters.  `first` and `last` cut a text at the first or the last
  place of a character; `stripPrefix` and `stripLast` take a known start or end off.  Each
  is determined by the parts it leaves (`first_eq_some_iff` and so on), so a reader made of
  them accepts exactly the texts that are put together of such parts.  `decimal` reads
  digits.
-/
import Mathlib.Data.List.Basic
import Mathlib.Data.List.DropRight

namespace Cut

section
variable {α : Type*} [DecidableEq α] {a : α} {l l₁ l₂ : List α}

/-- The parts before and after the first `a`. -/
def first (a : α) : List α → Option (List α × List α)
  | [] => none
  | b :: l => if b = a then some ([], l) else (first a l).map fun p => (b :: p.1, p.2)

/-- The parts before and after the last `a`. -/
def last (a : α) (l : List α) : Option (List α × List α) :=
  (first a l.reverse).map fun p => (p.2.reverse, p.1.reverse)

/-- What follows the start `pre`. -/
def stripPrefix (pre l : List α) : Option (List α) :=
  if pre <+: l then some (l.drop pre.length) else none

/-- What comes before the end `a`. -/
def stripLast (a : α) (l : List α) : Option (List α) :=
  if l.getLast? = some a then some l.dropLast else none

theorem first_append (h : a ∉ l₁) : first a (l₁ ++ a :: l₂) = some (l₁, l₂) := by
  induction l₁ with
  | nil => rw [List.nil_append, first, if_pos rfl]
  | cons b l₁ ih =>
    rw [List.mem_cons, not_or] at h
    rw [List.cons_append, first, if_neg (Ne.symm h.1), ih h.2, Option.map_some]

theorem first_eq_some_iff : first a l = some (l₁, l₂) ↔ l = l₁ ++ a :: l₂ ∧ a ∉ l₁ := by
  refine ⟨fun h => ?_, fun ⟨hl, hn⟩ => hl ▸ first_append hn⟩
  induction l generalizing l₁ with
  | nil => cases h
  | cons b l ih =>
    rw [first] at h
    split_ifs at h with hb
    · cases h
      exact ⟨by rw [hb, List.nil_append], List.not_mem_nil⟩
    · obtain ⟨⟨l₁', l₂'⟩, hl, heq⟩ := Option.map_eq_some_iff.1 h
      cases heq
      obtain ⟨rfl, hn⟩ := ih hl
      refine ⟨rfl, ?_⟩
      rw [List.mem_cons, not_or]
      exact ⟨Ne.symm hb, hn⟩

theorem last_eq_some_iff : last a l = some (l₁, l₂) ↔ l = l₁ ++ a :: l₂ ∧ a ∉ l₂ := by
  unfold last
  constructor
  · intro h
    obtain ⟨⟨l₁', l₂'⟩, hl, heq⟩ := Option.map_eq_some_iff.1 h
    cases heq
    obtain ⟨hl, hn⟩ := first_eq_some_iff.1 hl
    refine ⟨?_, by rwa [List.mem_reverse]⟩
    rw [← List.reverse_reverse l, hl]
    simp
  · rintro ⟨rfl, hn⟩
    have hrev : (l₁ ++ a :: l₂).reverse = l₂.reverse ++ a :: l₁.reverse := by simp
    rw [hrev, first_append (by rwa [List.mem_reverse]), Option.map_some]
    simp

theorem last_append (h : a ∉ l₂) : last a (l₁ ++ a :: l₂) = some (l₁, l₂) :=
  last_eq_some_iff.2 ⟨rfl, h⟩

theorem stripPrefix_eq_some_iff {pre : List α} : stripPrefix pre l = some l₁ ↔ l = pre ++ l₁ := by
  unfold stripPrefix
  constructor
  · intro h
    split_ifs at h with hpre
    obtain ⟨rest, rfl⟩ := hpre
    rw [List.drop_left, Option.some.injEq] at h
    rw [h]
  · rintro rfl
    rw [if_pos (List.prefix_append _ _), List.drop_left]

theorem stripLast_eq_some_iff : stripLast a l = some l₁ ↔ l = l₁ ++ [a] := by
  unfold stripLast
  constructor
  · intro h
    split_ifs at h with hlast
    cases h
    exact (List.dropLast_append_getLast? a hlast).symm
  · rintro rfl
    rw [if_pos List.getLast?_concat, List.dropLast_concat]

end

/-! ## White space -/

/-- The white space of Unicode. -/
def isWhitespace (c : Char) : Bool :=
  (0x9 ≤ c.toNat ∧ c.toNat ≤ 0xd) ∨ c.toNat = 0x20 ∨ c.toNat = 0x85 ∨ c.toNat = 0xa0 ∨
    c.toNat = 0x1680 ∨ (0x2000 ≤ c.toNat ∧ c.toNat ≤ 0x200a) ∨ c.toNat = 0x2028 ∨
    c.toNat = 0x2029 ∨ c.toNat = 0x202f ∨ c.toNat = 0x205f ∨ c.toNat = 0x3000

/-- The text without the white space around it. -/
def trim (l : List Char) : List Char := (l.dropWhile isWhitespace).rdropWhile isWhitespace

/-- The parts between white space. -/
def splitWhitespace (l : List Char) : List (List Char) :=
  (l.splitOnP isWhitespace).filter fun part => part ≠ []

/-- A text without white space at its ends is not changed. -/
theorem trim_eq_self {l : List Char} (hhead : ∀ c ∈ l.head?, isWhitespace c = false)
    (hlast : ∀ c ∈ l.getLast?, isWhitespace c = false) : trim l = l := by
  have hdrop : l.dropWhile isWhitespace = l := by
    cases l with
    | nil => rfl
    | cons c l => rw [List.dropWhile_cons_of_neg (by rw [hhead c rfl]; exact Bool.false_ne_true)]
  rw [trim, hdrop, List.rdropWhile_eq_self_iff]
  intro hne
  rw [hlast _ (List.getLast?_eq_some_getLast hne)]
  exact Bool.false_ne_true

/-- No white space in a concrete text. -/
theorem forall_of_all {l : List Char} (h : (l.all fun c => !isWhitespace c) = true) :
    ∀ c ∈ l, isWhitespace c = false := by
  simpa using h

theorem trim_of_forall {l : List Char} (h : ∀ c ∈ l, isWhitespace c = false) : trim l = l :=
  trim_eq_self (fun c hc => h c (List.mem_of_mem_head? hc))
    fun c hc => h c (List.mem_of_mem_getLast? hc)

/-- Trimming takes white space only. -/
theorem mem_trim {l : List Char} {c : Char} (hc : c ∈ l) (hspace : isWhitespace c = false) :
    c ∈ trim l := by
  have hne : isWhitespace c ≠ true := by rw [hspace]; exact Bool.false_ne_true
  rw [← @List.takeWhile_append_dropWhile _ isWhitespace l, List.mem_append] at hc
  have hdrop := hc.resolve_left fun h => hne (List.mem_takeWhile_imp h)
  rw [← @List.rdropWhile_append_rtakeWhile _ isWhitespace (l.dropWhile isWhitespace),
    List.mem_append] at hdrop
  exact hdrop.resolve_right fun h => hne (List.mem_rtakeWhile_imp h)

/-- A text without white space is its only part. -/
theorem splitWhitespace_eq_singleton {l : List Char} (hne : l ≠ [])
    (h : ∀ c ∈ l, isWhitespace c = false) : splitWhitespace l = [l] := by
  rw [splitWhitespace, List.splitOnP_eq_singleton h, List.filter_cons_of_pos (by simpa using hne)]
  rfl

/-- Spaces after a text without any split off empty parts only. -/
theorem exists_splitOnP {t w : List Char} (ht : ∀ c ∈ t, isWhitespace c = false)
    (hw : ∀ c ∈ w, isWhitespace c = true) :
    ∃ parts, (t ++ w).splitOnP isWhitespace = t :: parts ∧ ∀ part ∈ parts, part = [] := by
  induction t with
  | nil =>
    induction w with
    | nil => exact ⟨[], rfl, nofun⟩
    | cons c w ih =>
      rw [List.forall_mem_cons] at hw
      obtain ⟨parts, hsplit, hparts⟩ := ih hw.2
      rw [List.nil_append] at hsplit
      refine ⟨[] :: parts, ?_, List.forall_mem_cons.2 ⟨rfl, hparts⟩⟩
      rw [List.nil_append, List.splitOnP_cons_eq_if_modifyHead, if_pos hw.1, hsplit]
  | cons c t ih =>
    rw [List.forall_mem_cons] at ht
    obtain ⟨parts, hsplit, hparts⟩ := ih ht.2
    refine ⟨parts, ?_, hparts⟩
    rw [List.cons_append, List.splitOnP_cons_eq_if_modifyHead, if_neg (by rw [ht.1]; simp),
      hsplit, List.modifyHead_cons]

theorem splitWhitespace_dropWhile (l : List Char) :
    splitWhitespace (l.dropWhile isWhitespace) = splitWhitespace l := by
  induction l with
  | nil => rfl
  | cons c l ih =>
    cases hc : isWhitespace c with
    | true =>
      rw [List.dropWhile_cons_of_pos hc, ih, splitWhitespace, splitWhitespace,
        List.splitOnP_cons_eq_if_modifyHead, if_pos hc, List.filter_cons_of_neg (by simp)]
    | false => rw [List.dropWhile_cons_of_neg (by simp [hc])]

/-- A text that has no white space but around it has one part at most. -/
theorem length_splitWhitespace_le {l : List Char} (h : ∀ c ∈ trim l, isWhitespace c = false) :
    (splitWhitespace l).length ≤ 1 := by
  have hw : ∀ c ∈ (l.dropWhile isWhitespace).rtakeWhile isWhitespace, isWhitespace c = true :=
    fun c hc => List.mem_rtakeWhile_imp hc
  obtain ⟨parts, hsplit, hparts⟩ := exists_splitOnP h hw
  rw [trim, List.rdropWhile_append_rtakeWhile] at hsplit
  have hnil : parts.filter (fun part => part ≠ []) = [] :=
    List.filter_eq_nil_iff.2 fun part hpart => by simp [hparts part hpart]
  rw [← splitWhitespace_dropWhile, splitWhitespace, hsplit, List.filter_cons]
  split_ifs
  · rw [hnil, List.length_singleton]
  · rw [hnil]
    exact Nat.zero_le _

/-! ## Digits -/

/-- The number that digits are read as. -/
def decimal (l : List Char) : ℕ := l.foldl (fun n c => 10 * n + (c.toNat - '0'.toNat)) 0

/-- The text is that of a number. -/
def IsDecimal (l : List Char) : Prop := l ≠ [] ∧ ∀ c ∈ l, c.isDigit = true

instance : DecidablePred IsDecimal :=
  fun l => inferInstanceAs (Decidable (l ≠ [] ∧ ∀ c ∈ l, c.isDigit = true))

end Cut
