/-
  The order of key strings (`compare_cql_values` of `cql_value_to_key_string`).

  A range delete compares the texts of clustering values, where the database compares the
  values (`clusteringOrder`).  `compare_cql_values` parses the texts of integers, but most
  are not written as integers, and it takes every other text to be in the order of its
  value.  The two agree on all values of the types int, bigint and text, and otherwise on
  those whose texts happen to be in order (`keysAgree_iff`).  Where they agree, and the key
  has one clustering column, the delete is exact (`filter_exact_of_agree`).
-/
import Tantylla.Ingestor.KeyTexts
import Tantylla.Ingestor.Ranges

namespace Tantylla

open TextOrder

/-! ## The order of clustering values -/

namespace Uuid

variable (u : Uuid)

/-! The fields, from the first bits to the last. -/

def timeLow : ℕ := u.toNat / 2 ^ 96
def timeMid : ℕ := u.toNat / 2 ^ 80 % 2 ^ 16
def version : ℕ := u.toNat / 2 ^ 76 % 2 ^ 4
def timeHigh : ℕ := u.toNat / 2 ^ 64 % 2 ^ 12
def lsb : ℕ := u.toNat % 2 ^ 64

/-- The time: the high, the middle and the low field, in this order. -/
def time : ℕ := timeHigh u * 2 ^ 48 + timeMid u * 2 ^ 32 + timeLow u

/-- The clock sequence and the node, for a comparison of signed bytes. -/
def signedLsb : ℕ := lsb u ^^^ 0x8080808080808080

end Uuid

/-- The order of the type uuid: by version, then version 1 by time, others by their bytes. -/
def uuidOrder (a b : Uuid) : Ordering :=
  (compare (Uuid.version a) (Uuid.version b)).then
    (if Uuid.version a = 1 then
      (compare (Uuid.time a) (Uuid.time b)).then (compare (Uuid.lsb a) (Uuid.lsb b))
    else compare a.toNat b.toNat)

/-- The order of the type timeuuid: by time. -/
def timeuuidOrder (a b : Uuid) : Ordering :=
  (compare (Uuid.time a) (Uuid.time b)).then (compare (Uuid.signedLsb a) (Uuid.signedLsb b))

/-- The order of bytes. -/
def byteOrder (a b : List ℕ) : Ordering := compareOfLessAndEq a b

/-- The order in which the database keeps the values of a clustering column. -/
def clusteringOrder : CqlValue → CqlValue → Ordering
  | .tinyInt i, .tinyInt j | .smallInt i, .smallInt j | .int i, .int j | .bigInt i, .bigInt j
  | .varint i, .varint j | .timestamp i, .timestamp j => compare i j
  | .text s, .text t => byteOrder (utf8 s.toList) (utf8 t.toList)
  | .uuid a, .uuid b => uuidOrder a b
  | .timeuuid a, .timeuuid b => timeuuidOrder a b
  | .blob a, .blob b => byteOrder (a.map UInt8.toNat) (b.map UInt8.toNat)
  | _, _ => .eq

/-! ## Types -/

/-- The types of clustering columns, but for the floating ones. -/
inductive ClusteringType where
  | tinyint | smallint | int | bigint | varint | timestamp | text | uuid | timeuuid | blob
  deriving DecidableEq

namespace ClusteringType

def name : ClusteringType → String
  | tinyint => "tinyint"
  | smallint => "smallint"
  | int => "int"
  | bigint => "bigint"
  | varint => "varint"
  | timestamp => "timestamp"
  | text => "text"
  | uuid => "uuid"
  | timeuuid => "timeuuid"
  | blob => "blob"

/-- The values of a type. -/
inductive Has : ClusteringType → CqlValue → Prop
  | tinyint {i : ℤ} (h : -2 ^ 7 ≤ i ∧ i < 2 ^ 7) : Has tinyint (.tinyInt i)
  | smallint {i : ℤ} (h : -2 ^ 15 ≤ i ∧ i < 2 ^ 15) : Has smallint (.smallInt i)
  | int {i : ℤ} (h : -2 ^ 31 ≤ i ∧ i < 2 ^ 31) : Has int (.int i)
  | bigint {i : ℤ} (h : i64Min ≤ i ∧ i ≤ i64Max) : Has bigint (.bigInt i)
  | varint (i : ℤ) : Has varint (.varint i)
  | timestamp {ms : ℤ} (h : i64Min ≤ ms ∧ ms ≤ i64Max) : Has timestamp (.timestamp ms)
  | text (s : String) : Has text (.text s)
  | uuid (u : Uuid) : Has uuid (.uuid u)
  | timeuuid (u : Uuid) : Has timeuuid (.timeuuid u)
  | blob (bytes : List UInt8) : Has blob (.blob bytes)

end ClusteringType

/-! ## Values whose texts are in order -/

/-- The smaller of the two is first. -/
def Agree {α : Type*} [LT α] (R : α → α → Prop) (a b : α) : Prop :=
  (a < b → R a b) ∧ (b < a → R b a)

/-- The UUID with the smaller bits has the smaller version, or the same one and, in version 1,
    not the later time. -/
def UuidsInOrder (a b : Uuid) : Prop :=
  Uuid.version a < Uuid.version b ∨
    Uuid.version a = Uuid.version b ∧ (Uuid.version a = 1 → Uuid.time a ≤ Uuid.time b)

/-- The UUID with the smaller bits has the earlier time, or the same one and the smaller node. -/
def TimesInOrder (a b : Uuid) : Prop :=
  Uuid.time a < Uuid.time b ∨
    Uuid.time a = Uuid.time b ∧ Uuid.signedLsb a < Uuid.signedLsb b

/-- Two values of one type whose texts are in the order of the values. -/
def KeysAgree : CqlValue → CqlValue → Prop
  | .tinyInt i, .tinyInt j | .smallInt i, .smallInt j | .timestamp i, .timestamp j =>
    Agree NumeralsInOrder i j
  | .varint i, .varint j => Agree VarintsInOrder i j
  | .uuid a, .uuid b => Agree UuidsInOrder a b
  | .timeuuid a, .timeuuid b => Agree TimesInOrder a b
  | .blob a, .blob b => Agree BlobsInOrder (a.map UInt8.toNat) (b.map UInt8.toNat)
  | _, _ => True

/-! ## What is parsed -/

theorem parseI64_of_letter {s : String} {c : Char} {cs : List Char} (hs : s.toList = c :: cs)
    (hc : c.isDigit = false) (hsign : c ≠ '-' ∧ c ≠ '+') : parseI64 s = none := by
  unfold parseI64
  rw [hs]
  simp [hc, hsign.1, hsign.2]

/-- The loop of the parser reads decimal digits. -/
theorem foldl_digits (cs : List Char) (n : ℕ) :
    cs.foldl (fun (n : ℤ) c => 10 * n + (c.toNat - '0'.toNat : ℕ)) n =
      (Nat.ofDigitChars 10 cs n : ℕ) := by
  induction cs generalizing n with
  | nil => rfl
  | cons c cs ih =>
    rw [List.foldl_cons, Nat.ofDigitChars_cons, ← ih]
    push_cast
    rfl

theorem foldl_toDigits (n : ℕ) : (Nat.toDigits 10 n).foldl
    (fun (n : ℤ) c => 10 * n + (c.toNat - '0'.toNat : ℕ)) 0 = n := by
  have h := foldl_digits (Nat.toDigits 10 n) 0
  rwa [Nat.ofDigitChars_ten_toDigits] at h

theorem not_mem_toDigits {c : Char} (hc : c.isDigit = false) (n : ℕ) :
    c ∉ Nat.toDigits 10 n := by
  rw [← Nat.toList_repr]
  exact not_mem_repr hc n

theorem parseI64_toString {i : ℤ} (hi : i64Min ≤ i ∧ i ≤ i64Max) :
    parseI64 (toString i) = some i := by
  have hdigits (n : ℕ) : ¬ (Nat.toDigits 10 n = [] ∨
      ¬ (Nat.toDigits 10 n).all Char.isDigit = true) := by
    rw [not_or, not_not, List.all_eq_true]
    refine ⟨Nat.toDigits_ne_nil, fun c hc => ?_⟩
    exact Nat.isDigit_of_mem_toDigits (by decide) (by decide) hc
  unfold parseI64
  dsimp only
  rw [toList_toString_int, Nat.toList_repr, Nat.toList_repr]
  by_cases hnonneg : 0 ≤ i
  · have hcast : (i.toNat : ℤ) = i := Int.toNat_of_nonneg hnonneg
    rw [if_pos hnonneg]
    split
    next hsign => exact absurd (hsign ▸ List.mem_cons_self) (not_mem_toDigits (by decide) _)
    next hsign => exact absurd (hsign ▸ List.mem_cons_self) (not_mem_toDigits (by decide) _)
    · rw [if_neg (hdigits _), foldl_toDigits, hcast, if_neg Bool.false_ne_true, if_pos hi]
  · have hcast : -((-i).toNat : ℤ) = i := by omega
    rw [if_neg hnonneg]
    simp only [if_neg (hdigits _), foldl_toDigits, hcast, if_true, if_pos hi]

section
variable {C : RouterCrates} {t : ClusteringType} {a b : String}

/-- The types whose texts are parsed. -/
def ClusteringType.Parsed : ClusteringType → Prop
  | tinyint | smallint | int | bigint | varint | timestamp => True
  | text | uuid | timeuuid | blob => False

theorem toLower_name (t : ClusteringType) : t.name.toLower = t.name := by
  cases t <;> decide +kernel

theorem compareCqlValues_of_parsed (ht : t.Parsed) {i j : ℤ} (ha : parseI64 a = some i)
    (hb : parseI64 b = some j) : compareCqlValues C a b t.name = compare i j := by
  unfold compareCqlValues
  rw [toLower_name]
  cases t <;> simp [ClusteringType.Parsed, ClusteringType.name, ha, hb] at ht ⊢

theorem compareCqlValues_of_text (ht : t.Parsed → parseI64 a = none) :
    compareCqlValues C a b t.name = compare a b := by
  unfold compareCqlValues
  rw [toLower_name]
  cases t <;> simp [ClusteringType.Parsed, ClusteringType.name] at ht ⊢
  all_goals simp [ht]

end

/-! ## Texts and values -/

/-- Two texts are in the order of their values iff the smaller value's is first. -/
theorem compare_iff_agree {γ α : Type*} [LinearOrder α] {R : α → α → Prop} {value : γ → α}
    (hinj : Function.Injective value) {text : γ → String}
    (hR : ∀ v w, value v < value w → (text v < text w ↔ R (value v) (value w))) (v w : γ) :
    compare (text v) (text w) = compare (value v) (value w) ↔ Agree R (value v) (value w) := by
  unfold Agree
  rcases lt_trichotomy (value v) (value w) with h | h | h
  · rw [compare_lt_iff_lt.2 h, compare_lt_iff_lt, hR v w h]
    simp [h, h.not_gt]
  · obtain rfl := hinj h
    simp
  · rw [compare_gt_iff_gt.2 h, compare_gt_iff_gt, hR w v h]
    simp [h, h.not_gt]

/-- Comparisons that hold together. -/
theorem compare_congr {α β : Type*} [LinearOrder α] [LinearOrder β] {v w : α} {s t : β}
    (hlt : v < w ↔ s < t) (hgt : w < v ↔ t < s) : compare v w = compare s t := by
  rcases lt_trichotomy v w with h | rfl | h
  · rw [compare_lt_iff_lt.2 h, compare_lt_iff_lt.2 (hlt.1 h)]
  · have heq : s = t := le_antisymm (not_lt.1 (mt hgt.2 (lt_irrefl v)))
      (not_lt.1 (mt hlt.2 (lt_irrefl v)))
    rw [heq, compare_eq_iff_eq.2 rfl, compare_eq_iff_eq.2 rfl]
  · rw [compare_gt_iff_gt.2 h, compare_gt_iff_gt.2 (hgt.1 h)]

theorem byteOrder_eq (a b : List ℕ) : byteOrder a b = @compare _ LinearOrder.toOrd a b := by
  rw [LinearOrder.compare_eq_compareOfLessAndEq]
  unfold byteOrder compareOfLessAndEq
  split_ifs <;> rfl

/-- **Texts are in the order of their bytes.** -/
theorem text_agree (s t : String) :
    compare s t = byteOrder (utf8 s.toList) (utf8 t.toList) := by
  rw [byteOrder_eq]
  refine compare_congr ?_ ?_
  · rw [utf8_lt_iff, String.lt_iff_toList_lt]
  · rw [utf8_lt_iff, String.lt_iff_toList_lt]

theorem uuid_compare (a b : Uuid) :
    compare (hyphenated a) (hyphenated b) = compare a.toNat b.toNat :=
  compare_congr (hyphenated_lt_iff a b) (hyphenated_lt_iff b a)

/-- A UUID is made of its fields. -/
theorem Uuid.toNat_eq (u : Uuid) : u.toNat =
    timeLow u * 2 ^ 96 + timeMid u * 2 ^ 80 + version u * 2 ^ 76 + timeHigh u * 2 ^ 64 + lsb u := by
  have h96 : u.toNat / 2 ^ 96 = u.toNat / 2 ^ 80 / 2 ^ 16 := by
    rw [Nat.div_div_eq_div_mul, ← pow_add]
  have h80 : u.toNat / 2 ^ 80 = u.toNat / 2 ^ 76 / 2 ^ 4 := by
    rw [Nat.div_div_eq_div_mul, ← pow_add]
  have h76 : u.toNat / 2 ^ 76 = u.toNat / 2 ^ 64 / 2 ^ 12 := by
    rw [Nat.div_div_eq_div_mul, ← pow_add]
  unfold timeLow timeMid version timeHigh lsb
  omega

theorem Uuid.fields_lt (u : Uuid) : timeLow u < 2 ^ 32 ∧ timeMid u < 2 ^ 16 := by
  have h := u.isLt
  unfold timeLow timeMid
  omega

/-- Of two UUIDs of one version and one time, the bits are in the order of the last fields. -/
theorem Uuid.lt_iff_lsb {a b : Uuid} (hversion : version a = version b) (htime : time a = time b) :
    a.toNat < b.toNat ↔ lsb a < lsb b := by
  have ha := toNat_eq a
  have hb := toNat_eq b
  have hfa := fields_lt a
  have hfb := fields_lt b
  unfold time at htime
  have hhigh : timeHigh a = timeHigh b := by omega
  have hmid : timeMid a = timeMid b := by omega
  have hlow : timeLow a = timeLow b := by omega
  rw [ha, hb, hversion, hhigh, hmid, hlow]
  omega

/-- Where the bits are in order, the type uuid has the order iff the fields are in order. -/
theorem uuidOrder_lt_iff {a b : Uuid} (h : a.toNat < b.toNat) :
    uuidOrder a b = .lt ↔ UuidsInOrder a b := by
  unfold uuidOrder UuidsInOrder
  rw [Ordering.then_eq_lt, compare_lt_iff_lt, compare_eq_iff_eq]
  refine or_congr Iff.rfl (and_congr_right fun hversion => ?_)
  by_cases hone : Uuid.version a = 1
  · rw [if_pos hone, Ordering.then_eq_lt, compare_lt_iff_lt, compare_eq_iff_eq,
      compare_lt_iff_lt, le_iff_lt_or_eq]
    constructor
    · rintro (hlt | ⟨heq, -⟩) -
      · exact Or.inl hlt
      · exact Or.inr heq
    · intro hle
      refine (hle hone).imp id fun heq => ⟨heq, ?_⟩
      exact (Uuid.lt_iff_lsb hversion heq).1 h
  · rw [if_neg hone, compare_lt_iff_lt]
    exact iff_of_true h fun hone' => absurd hone' hone

theorem timeuuidOrder_lt_iff {a b : Uuid} : timeuuidOrder a b = .lt ↔ TimesInOrder a b := by
  unfold timeuuidOrder TimesInOrder
  rw [Ordering.then_eq_lt, compare_lt_iff_lt, compare_eq_iff_eq, compare_lt_iff_lt]

theorem compare_swap (m n : ℕ) : (compare m n).swap = compare n m :=
  Std.OrientedOrd.eq_swap.symm

theorem swap_uuidOrder (a b : Uuid) : (uuidOrder a b).swap = uuidOrder b a := by
  unfold uuidOrder
  rw [Ordering.swap_then, compare_swap]
  by_cases hversion : Uuid.version a = Uuid.version b
  · rw [hversion]
    split_ifs
    · rw [Ordering.swap_then, compare_swap, compare_swap]
    · rw [compare_swap]
  · -- the versions decide
    rcases lt_or_gt_of_ne hversion with h | h
    · rw [compare_gt_iff_gt.2 h]
      rfl
    · rw [compare_lt_iff_lt.2 h]
      rfl

theorem swap_timeuuidOrder (a b : Uuid) : (timeuuidOrder a b).swap = timeuuidOrder b a := by
  unfold timeuuidOrder
  rw [Ordering.swap_then, compare_swap, compare_swap]

/-- The texts of UUIDs are in an order iff those with the smaller bits are smaller in it. -/
theorem uuid_agree_iff {ord : Uuid → Uuid → Ordering} {R : Uuid → Uuid → Prop}
    (hswap : ∀ a b, (ord a b).swap = ord b a)
    (hR : ∀ a b : Uuid, a.toNat < b.toNat → (ord a b = .lt ↔ R a b)) (a b : Uuid) :
    compare (hyphenated a) (hyphenated b) = ord a b ↔ Agree R a b := by
  rw [uuid_compare]
  unfold Agree
  simp only [BitVec.lt_def]
  rcases lt_trichotomy a.toNat b.toNat with h | h | h
  · rw [compare_lt_iff_lt.2 h, eq_comm, hR a b h]
    simp [h, h.not_gt]
  · obtain rfl := BitVec.eq_of_toNat_eq h
    have heq : ord a a = .eq := Ordering.eq_eq_of_eq_swap (hswap a a).symm
    rw [heq, compare_eq_iff_eq]
    simp
  · rw [compare_gt_iff_gt.2 h, ← hR b a h, ← hswap a b, Ordering.swap_eq_lt, eq_comm]
    simp [h, h.not_gt]

theorem blobs_agree_iff (a b : List UInt8) :
    compare (base64Standard a) (base64Standard b) =
        byteOrder (a.map UInt8.toNat) (b.map UInt8.toNat) ↔
      Agree BlobsInOrder (a.map UInt8.toNat) (b.map UInt8.toNat) := by
  have hinj : Function.Injective (List.map UInt8.toNat) :=
    List.map_injective_iff.2 fun _ _ => UInt8.toNat_inj.1
  rw [byteOrder_eq]
  exact compare_iff_agree hinj (fun v w => base64Standard_lt_iff) a b

section
variable {C : RouterCrates} {t : ClusteringType} {c : Char} {text : ℤ → String} {name : String}
  {cs : List Char}

/-- Integers written in parentheses after a name are compared as texts, and these are in order iff
    their digits are. -/
theorem numerals_agree_iff {close : String} {ds : List Char} (hname : name.toList = c :: cs)
    (hc : c.isDigit = false) (hsign : c ≠ '-' ∧ c ≠ '+') (hclose : close.toList = ')' :: ds)
    (htext : ∀ i, text i = name ++ toString i ++ close) (i j : ℤ) :
    compareCqlValues C (text i) (text j) t.name = compare i j ↔ Agree NumeralsInOrder i j := by
  have hlist (i : ℤ) : (text i).toList = c :: cs ++ ((toString i).toList ++ ')' :: ds) := by
    rw [htext, String.toList_append, String.toList_append, hname, hclose, List.append_assoc]
  rw [compareCqlValues_of_text fun _ => parseI64_of_letter (hlist i) hc hsign]
  refine @compare_iff_agree ℤ ℤ _ _ id (fun _ _ h => h) _ (fun v w h => ?_) i j
  rw [String.lt_iff_toList_lt, hlist, hlist, append_left_lt_iff]
  exact parens_lt_iff h ds

/-- So are varints, whose texts are in order iff their bytes are, as numerals. -/
theorem varints_agree_iff (hname : name.toList = c :: cs) (hc : c.isDigit = false)
    (hsign : c ≠ '-' ∧ c ≠ '+')
    (htext : ∀ i, text i = name ++ String.ofList ((withLast (varintBytes i)).flatMap debugByte))
    (i j : ℤ) :
    compareCqlValues C (text i) (text j) t.name = compare i j ↔ Agree VarintsInOrder i j := by
  have hlist (i : ℤ) : (text i).toList =
      c :: cs ++ (withLast (varintBytes i)).flatMap debugByte := by
    rw [htext, String.toList_append, String.toList_ofList, hname]
  rw [compareCqlValues_of_text fun _ => parseI64_of_letter (hlist i) hc hsign]
  refine @compare_iff_agree ℤ ℤ _ _ id (fun _ _ h => h) _ (fun v w h => ?_) i j
  rw [String.lt_iff_toList_lt, hlist, hlist, append_left_lt_iff]
  exact varint_lt_iff (ne_of_lt h)

end

section
variable {C : RouterCrates} {t : ClusteringType} {a b : CqlValue}

/-- The code compares the texts of two clustering values as the database compares the values iff
    the texts are in order. -/
theorem compareCqlValues_iff (hF : C.toFormats.KeyForms) (ha : t.Has a) (hb : t.Has b) :
    compareCqlValues C (cqlValueToKeyString C.toFormats a) (cqlValueToKeyString C.toFormats b)
      t.name = clusteringOrder a b ↔ KeysAgree a b := by
  cases ha with
  | @tinyint i hi =>
    cases hb with
    | @tinyint j hj =>
      exact @numerals_agree_iff C .tinyint 'T' (fun i => C.debug (.tinyInt i)) _ _ _ _ rfl
        (by decide) (by decide) rfl hF.tinyInt i j
  | @smallint i hi =>
    cases hb with
    | @smallint j hj =>
      exact @numerals_agree_iff C .smallint 'S' (fun i => C.debug (.smallInt i)) _ _ _ _ rfl
        (by decide) (by decide) rfl hF.smallInt i j
  | @timestamp i hi =>
    cases hb with
    | @timestamp j hj =>
      exact @numerals_agree_iff C .timestamp 'T' (fun i => C.debug (.timestamp i)) _ _ _ _ rfl
        (by decide) (by decide) rfl hF.timestamp i j
  | varint i =>
    cases hb with
    | varint j =>
      exact @varints_agree_iff C .varint 'V' (fun i => C.debug (.varint i)) _ _ rfl
        (by decide) (by decide) hF.varint i j
  | int hi =>
    cases hb with
    | int hj =>
      have hi' := parseI64_toString ⟨le_trans (by decide) hi.1, hi.2.le.trans (by decide)⟩
      have hj' := parseI64_toString ⟨le_trans (by decide) hj.1, hj.2.le.trans (by decide)⟩
      exact iff_of_true (@compareCqlValues_of_parsed C .int _ _ trivial _ _ hi' hj') trivial
  | bigint hi =>
    cases hb with
    | bigint hj =>
      have hi' := parseI64_toString hi
      have hj' := parseI64_toString hj
      exact iff_of_true (@compareCqlValues_of_parsed C .bigint _ _ trivial _ _ hi' hj') trivial
  | text s =>
    cases hb with
    | text r =>
      have htext := @compareCqlValues_of_text C .text s r False.elim
      exact iff_of_true (htext.trans (text_agree s r)) trivial
  | uuid u =>
    cases hb with
    | uuid v =>
      have htext := @compareCqlValues_of_text C .uuid (C.uuid u) (C.uuid v) False.elim
      refine (Eq.congr_left htext).trans ?_
      rw [hF.uuid, hF.uuid]
      exact uuid_agree_iff swap_uuidOrder (fun _ _ h => uuidOrder_lt_iff h) u v
  | timeuuid u =>
    cases hb with
    | timeuuid v =>
      have htext := @compareCqlValues_of_text C .timeuuid (C.uuid u) (C.uuid v) False.elim
      refine (Eq.congr_left htext).trans ?_
      rw [hF.uuid, hF.uuid]
      exact uuid_agree_iff swap_timeuuidOrder (fun _ _ _ => timeuuidOrder_lt_iff) u v
  | blob bytes =>
    cases hb with
    | blob bytes' =>
      have htext := @compareCqlValues_of_text C .blob (C.base64 bytes) (C.base64 bytes') False.elim
      refine (Eq.congr_left htext).trans ?_
      rw [hF.base64, hF.base64]
      exact blobs_agree_iff bytes bytes'

/-- Two UUIDs of version 1: the bits of the first are smaller, but its time is later. -/
def laterUuid : Uuid := 0x00000000000110008000000000000000
def earlierUuid : Uuid := 0x00000001000010008000000000000000

/-- The texts of all values of a type are in order iff the type is int, bigint or text. -/
theorem forall_keysAgree_iff (t : ClusteringType) :
    (∀ a b, t.Has a → t.Has b → KeysAgree a b) ↔ t = .int ∨ t = .bigint ∨ t = .text := by
  have htwo : ¬ Agree NumeralsInOrder 2 10 := by
    intro h
    have hlead := (h.1 (by decide)).nonneg (by decide)
    revert hlead
    unfold Leads
    decide
  constructor
  · intro h
    cases t with
    | tinyint => exact absurd (h _ _ (.tinyint (by decide)) (.tinyint (by decide))) htwo
    | smallint => exact absurd (h _ _ (.smallint (by decide)) (.smallint (by decide))) htwo
    | timestamp => exact absurd (h _ _ (.timestamp (by decide)) (.timestamp (by decide))) htwo
    | int | bigint | text => simp
    | varint =>
      -- 9] comes after 10]
      have hnine : VarintsInOrder 9 10 := (h _ _ (.varint 9) (.varint 10)).1 (by decide)
      rw [VarintsInOrder, varintBytes_of_lt (by decide), varintBytes_of_lt (by decide)] at hnine
      revert hnine
      simp only [withLast, FirstDiffer, ByteLt, Leads]
      decide
    | uuid =>
      exact absurd ((h _ _ (.uuid laterUuid) (.uuid earlierUuid)).1 (by decide))
        (by unfold UuidsInOrder; decide +kernel)
    | timeuuid =>
      exact absurd ((h _ _ (.timeuuid laterUuid) (.timeuuid earlierUuid)).1 (by decide))
        (by unfold TimesInOrder; decide +kernel)
    | blob =>
      -- A of the bits 0 comes after 0 of the bits 52
      have hblob : BlobsInOrder [0] [208] := (h _ _ (.blob [0]) (.blob [208])).1 (by decide)
      revert hblob
      simp [BlobsInOrder, base64Symbols, FirstDiffer, base64Block]
  · rintro (rfl | rfl | rfl) a b ha hb <;> cases ha <;> cases hb <;> exact trivial

end

/-- **The code compares the key strings of two clustering values as the database compares the
    values iff the texts are in order**: of all values for the types int, bigint and text, and
    only for these. -/
theorem keysAgree_iff {C : RouterCrates} (hF : C.toFormats.KeyForms) (t : ClusteringType) :
    (∀ a b, t.Has a → t.Has b →
      (compareCqlValues C (cqlValueToKeyString C.toFormats a) (cqlValueToKeyString C.toFormats b)
        t.name = clusteringOrder a b ↔ KeysAgree a b)) ∧
    ((∀ a b, t.Has a → t.Has b → KeysAgree a b) ↔ t = .int ∨ t = .bigint ∨ t = .text) :=
  ⟨fun _ _ ha hb => compareCqlValues_iff hF ha hb, forall_keysAgree_iff t⟩

/-- The crates, with the texts of key values. -/
def formCrates : RouterCrates :=
  { sampleRouterCrates with
    uuid := hyphenated
    base64 := base64Standard
    debug := fun
      | .tinyInt i => "TinyInt(" ++ toString i ++ ")"
      | .smallInt i => "SmallInt(" ++ toString i ++ ")"
      | .timestamp ms => "Timestamp(CqlTimestamp(" ++ toString ms ++ "))"
      | .varint i => "Varint(CqlVarint([" ++
          String.ofList ((withLast (varintBytes i)).flatMap debugByte)
      | _ => "" }

theorem formCrates_keyForms : formCrates.toFormats.KeyForms := by
  constructor <;> intro <;> rfl

/-- The timestamps 1000 and 2000 have one number of digits. -/
theorem keysAgree_timestamps :
    compareCqlValues formCrates (cqlValueToKeyString formCrates.toFormats (.timestamp 1000))
      (cqlValueToKeyString formCrates.toFormats (.timestamp 2000)) "timestamp" =
        clusteringOrder (.timestamp 1000) (.timestamp 2000) := by
  have hiff := (keysAgree_iff formCrates_keyForms .timestamp).1
  refine (hiff _ _ (.timestamp (by decide)) (.timestamp (by decide))).2 ?_
  refine ⟨fun _ => ⟨fun _ => ?_, fun h => absurd h (by decide)⟩, fun h => absurd h (by decide)⟩
  unfold Leads
  decide

/-- The smallint 2 comes after 10. -/
theorem two_after_ten :
    compareCqlValues formCrates (cqlValueToKeyString formCrates.toFormats (.smallInt 2))
        (cqlValueToKeyString formCrates.toFormats (.smallInt 10)) "smallint" = .gt ∧
      clusteringOrder (.smallInt 2) (.smallInt 10) = .lt := by
  decide +kernel

/-! ## Range deletes -/

namespace Router

variable {C : RouterCrates} {router : Router} {startRow endRow : CDCRow} {d : DocKey}
  {docs : List DocKey} {start : PendingRangeStart}

/-- The clustering values of the document and of a bound are of the types of their columns, and
    their texts are in order. -/
def BoundAgrees (router : Router) (d : DocKey) (row : CDCRow) : Prop :=
  ∀ e ∈ router.clusteringKeyColumns.zip (d.clustering.zip (router.bound row)), ∀ b,
    e.2.2 = some b →
      ∃ t : ClusteringType, e.1.cqlType = t.name ∧ t.Has e.2.1 ∧ t.Has b ∧ KeysAgree e.2.1 b

/-- Then the code compares them as the database does. -/
theorem boundCmps_of_agree (hF : C.toFormats.KeyForms) {row : CDCRow}
    (h : router.BoundAgrees d row) :
    boundCmps (textOrder C) router.clusteringKeyColumns d.clustering (router.bound row) =
      boundCmps (fun _ => clusteringOrder) router.clusteringKeyColumns d.clustering
        (router.bound row) := by
  refine List.filterMap_congr fun e he => ?_
  obtain ⟨ckCol, v, b⟩ := e
  cases b with
  | none => rfl
  | some b =>
    obtain ⟨t, htype, hv, hb, hagree⟩ := h _ he b rfl
    have horder : textOrder C ckCol v b = clusteringOrder v b := by
      rw [textOrder, htype]
      exact (compareCqlValues_iff hF hv hb).2 hagree
    exact congrArg some horder

/-- **With one clustering column whose texts are in order, a range delete selects exactly the range
    of the database.** -/
theorem filter_exact_of_agree (hF : C.toFormats.KeyForms) (hpk : router.partitionKeyColumns ≠ [])
    (hone : router.clusteringKeyColumns.length ≤ 1)
    (hstart : router.extractRangeDeleteStart C startRow = some start)
    (hd : router.HasKey C d) (hmem : d ∈ docs)
    (h : ∀ row ∈ [startRow, endRow], router.BoundAgrees d row) :
    d.id C.toFormats ∈ router.filterDocIdsByCkRange C (docs.map (DocKey.id C.toFormats)) start
        (router.ckValuesOf C endRow) (endRow.operation = .rowRangeDelInclRight) ↔
      router.InRange (fun _ => clusteringOrder) startRow endRow d := by
  rw [mem_filter_iff hd hpk hstart hmem, inEachColumn_iff_of_one_column hone, InRange, InRange,
    boundCmps_of_agree hF (h startRow (by simp)), boundCmps_of_agree hF (h endRow (by simp))]

end Router

end Tantylla
