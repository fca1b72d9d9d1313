/-
  Document ids (`route_forward`, `filter_doc_ids_by_ck_range`, `get_table_key_info`).

  The id of a row joins the texts of its key columns with colons, and a range delete
  splits it again.  A text key may contain colons and an IPv6 address does; where no key
  value has a colon, the ids say what the key columns are (`faithful_iff`).
-/
import Tantylla.Ingestor.Router
import Tantylla.Lib.Split
import Mathlib.Data.List.Sort

namespace Tantylla

/-! ## Key values -/

/-- The CQL types of texts, integers, booleans, UUIDs, addresses and blobs. -/
inductive KeyType where
  | ascii | text | boolean | tinyInt | smallInt | int | bigInt | varint | uuid | timeuuid
  | inet | blob

def CqlValue.keyType : CqlValue → Option KeyType
  | .ascii _ => some .ascii
  | .text _ => some .text
  | .boolean _ => some .boolean
  | .tinyInt _ => some .tinyInt
  | .smallInt _ => some .smallInt
  | .int _ => some .int
  | .bigInt _ => some .bigInt
  | .varint _ => some .varint
  | .uuid _ => some .uuid
  | .timeuuid _ => some .timeuuid
  | .inet _ => some .inet
  | .blob _ => some .blob
  | _ => none

/-- A value that is neither a text with a colon nor an IPv6 address. -/
def CqlValue.ColonFree : CqlValue → Prop
  | .ascii s | .text s => ':' ∉ s.toList
  | .inet (.v6 _) => False
  | _ => True

/-- The integers that are written by `Debug`. -/
def debugInts : List (ℤ → CqlValue) := [.tinyInt, .smallInt, .varint]

/-- How the other crates write key values: no two in the same way, and only an IPv6
    address with colons. -/
structure Formats.KeyTexts (F : Formats) : Prop where
  uuid_inj : Function.Injective F.uuid
  inet_inj : Function.Injective F.inet
  base64_inj : Function.Injective F.base64
  debug_inj : ∀ f ∈ debugInts, Function.Injective fun i => F.debug (f i)
  uuid_colon : ∀ u, ':' ∉ (F.uuid u).toList
  v4_colon : ∀ bits, ':' ∉ (F.inet (.v4 bits)).toList
  v6_colon : ∀ bits, ':' ∈ (F.inet (.v6 bits)).toList
  base64_colon : ∀ b, ':' ∉ (F.base64 b).toList
  debug_colon : ∀ f ∈ debugInts, ∀ i, ':' ∉ (F.debug (f i)).toList

/-! ## The texts of integers -/

theorem nat_repr_inj {m n : ℕ} (h : m.repr = n.repr) : m = n := by
  have hdigits : Nat.toDigits 10 m = Nat.toDigits 10 n := by
    rw [← Nat.toList_repr, h, Nat.toList_repr]
  rw [← @Nat.ofDigitChars_ten_toDigits m, hdigits, Nat.ofDigitChars_ten_toDigits]

theorem not_mem_repr {c : Char} (hc : c.isDigit = false) (n : ℕ) : c ∉ n.repr.toList := by
  rw [Nat.toList_repr]
  intro h
  rw [Nat.isDigit_of_mem_toDigits (by decide) (by decide) h] at hc
  cases hc

theorem toList_toString_int (i : ℤ) :
    (toString i).toList =
      if 0 ≤ i then i.toNat.repr.toList else '-' :: (-i).toNat.repr.toList := by
  rw [Int.toString_eq_repr, Int.repr_eq_if]
  split <;> simp

theorem toString_int_inj {i j : ℤ} (h : toString i = toString j) : i = j := by
  have hl : (toString i).toList = (toString j).toList := by rw [h]
  have hminus : ∀ n : ℕ, '-' ∉ n.repr.toList := not_mem_repr (by decide)
  rw [toList_toString_int, toList_toString_int] at hl
  split at hl <;> split at hl
  next hi hj =>
    have := nat_repr_inj (String.toList_inj.1 hl)
    omega
  next hi hj => exact absurd (hl ▸ List.mem_cons_self) (hminus _)
  next hi hj => exact absurd (hl ▸ List.mem_cons_self) (hminus _)
  next hi hj =>
    have := nat_repr_inj (String.toList_inj.1 (List.cons.inj hl).2)
    omega

theorem colon_not_mem_toString_int (i : ℤ) : ':' ∉ (toString i).toList := by
  have hcolon : ∀ n : ℕ, ':' ∉ n.repr.toList := not_mem_repr (by decide)
  rw [toList_toString_int]
  split
  · exact hcolon _
  · rw [List.mem_cons, not_or]
    exact ⟨by decide, hcolon _⟩

/-! ## The texts of key values -/

section
variable {F : Formats} {v v₁ v₂ : CqlValue} {t : KeyType}

/-- Values of one type are told apart by their texts. -/
theorem cqlValueToKeyString_inj (hF : F.KeyTexts) (h₁ : v₁.keyType = some t)
    (h₂ : v₂.keyType = some t) (h : cqlValueToKeyString F v₁ = cqlValueToKeyString F v₂) :
    v₁ = v₂ := by
  cases t <;> cases v₁ <;> simp only [CqlValue.keyType, Option.some.injEq, reduceCtorEq] at h₁ <;>
    cases v₂ <;> simp only [CqlValue.keyType, Option.some.injEq, reduceCtorEq] at h₂ <;>
    simp only [cqlValueToKeyString] at h
  case ascii | text => rw [h]
  case boolean b₁ b₂ => cases b₁ <;> cases b₂ <;> first | rfl | exact absurd h (by decide)
  case tinyInt => rw [hF.debug_inj .tinyInt (by simp [debugInts]) h]
  case smallInt => rw [hF.debug_inj .smallInt (by simp [debugInts]) h]
  case varint => rw [hF.debug_inj .varint (by simp [debugInts]) h]
  case int | bigInt => rw [toString_int_inj h]
  case uuid | timeuuid => rw [hF.uuid_inj h]
  case inet => rw [hF.inet_inj h]
  case blob => rw [hF.base64_inj h]

/-- The text of a key value has a colon just when the value is not colon free. -/
theorem colonFree_iff (hF : F.KeyTexts) (hv : v.keyType = some t) :
    ':' ∉ (cqlValueToKeyString F v).toList ↔ v.ColonFree := by
  cases v <;> simp only [CqlValue.keyType, reduceCtorEq] at hv <;>
    simp only [cqlValueToKeyString, CqlValue.ColonFree, iff_true]
  case boolean b => cases b <;> decide
  case tinyInt => exact hF.debug_colon .tinyInt (by simp [debugInts]) _
  case smallInt => exact hF.debug_colon .smallInt (by simp [debugInts]) _
  case varint => exact hF.debug_colon .varint (by simp [debugInts]) _
  case int | bigInt => exact colon_not_mem_toString_int _
  case uuid | timeuuid => exact hF.uuid_colon _
  case inet ip =>
    cases ip with
    | v4 bits => simpa only [iff_true] using hF.v4_colon bits
    | v6 bits => simpa only [iff_false, not_not] using hF.v6_colon bits
  case blob => exact hF.base64_colon _

end

/-! ## The key columns of a table -/

/-- A row of `system_schema.columns`. -/
structure SchemaColumn where
  columnName : String
  position : ℤ
  kind : String
  cqlType : String

/-- `TableKeyInfo` -/
structure TableKeyInfo where
  partitionKeyColumns : List String
  fullPrimaryKeyColumns : List String
  clusteringKeyColumns : List ClusteringKeyColumn

/-- `get_table_key_info`, from the key columns that the session returns. -/
def getTableKeyInfo (rows : List SchemaColumn) : TableKeyInfo :=
  let byPosition (columns : List SchemaColumn) :=
    columns.insertionSort fun a b => a.position ≤ b.position
  let partitionKeys := byPosition (rows.filter fun row => row.kind = "partition_key")
  let clusteringKeys := byPosition (rows.filter fun row => row.kind ≠ "partition_key")
  let pkNames := partitionKeys.map SchemaColumn.columnName
  { partitionKeyColumns := pkNames
    fullPrimaryKeyColumns := pkNames ++ clusteringKeys.map SchemaColumn.columnName
    clusteringKeyColumns := clusteringKeys.map fun row => ⟨row.columnName, row.cqlType⟩ }

theorem getTableKeyInfo_full (rows : List SchemaColumn) :
    (getTableKeyInfo rows).fullPrimaryKeyColumns =
      (getTableKeyInfo rows).partitionKeyColumns ++
        (getTableKeyInfo rows).clusteringKeyColumns.map ClusteringKeyColumn.name := by
  simp only [getTableKeyInfo, List.map_map, Function.comp_def]

theorem getTableKeyInfo_ne_nil {rows : List SchemaColumn}
    (h : ∃ row ∈ rows, row.kind = "partition_key") :
    (getTableKeyInfo rows).partitionKeyColumns ≠ [] := by
  obtain ⟨row, hrow, hkind⟩ := h
  have hmem : row ∈ rows.filter fun row => row.kind = "partition_key" :=
    List.mem_filter.2 ⟨hrow, decide_eq_true hkind⟩
  exact List.ne_nil_of_mem (List.mem_map_of_mem ((List.mem_insertionSort _).2 hmem))

namespace Router

/-- The key columns of the router are those of a table. -/
structure KeysOf (router : Router) (info : TableKeyInfo) : Prop where
  partition : router.partitionKeyColumns = info.partitionKeyColumns
  full : router.fullPrimaryKeyColumns = info.fullPrimaryKeyColumns
  clustering : router.clusteringKeyColumns = info.clusteringKeyColumns

variable (C : RouterCrates) (router : Router)

/-- The values of key columns. -/
def keyValues (columns : List String) (row : CDCRow) : List (Option CqlValue) :=
  columns.map row.getValue

/-- The texts of key columns, before they are joined. -/
def keyStrings (columns : List String) (row : CDCRow) : List String :=
  columns.map fun name =>
    match row.getValue name with
    | some val => cqlValueToKeyString C.toFormats val
    | none => "null"

/-- Each key column has a value of its type. -/
def Keyed (columns : List String) (types : String → KeyType) (row : CDCRow) : Prop :=
  ∀ name ∈ columns, ∃ v, row.getValue name = some v ∧ v.keyType = some (types name)

/-- No key column has a value with a colon. -/
def ColonFreeKey (columns : List String) (row : CDCRow) : Prop :=
  ∀ name ∈ columns, ∀ v, row.getValue name = some v → v.ColonFree

/-- The items of two rows tell their keys and their partitions apart, and their ids can be
    split into the texts of the key columns. -/
structure Faithful (row₁ row₂ : CDCRow) (item₁ item₂ : BatchItem) : Prop where
  id : keyValues router.fullPrimaryKeyColumns row₁ ≠ keyValues router.fullPrimaryKeyColumns row₂ →
    item₁.id ≠ item₂.id
  partition : keyValues router.partitionKeyColumns row₁ ≠
    keyValues router.partitionKeyColumns row₂ → item₁.partitionKey ≠ item₂.partitionKey
  split₁ : item₁.id.splitOn ":" = keyStrings C router.fullPrimaryKeyColumns row₁
  split₂ : item₂.id.splitOn ":" = keyStrings C router.fullPrimaryKeyColumns row₂

section
variable {C} {router} {columns : List String} {types : String → KeyType} {row row₁ row₂ : CDCRow}

theorem keyOf_eq : keyOf C columns row = (String.singleton ':').intercalate
    (keyStrings C columns row) :=
  rfl

theorem Keyed.mono {columns' : List String} (h : Keyed columns types row)
    (hsub : columns' ⊆ columns) : Keyed columns' types row :=
  fun name hname => h name (hsub hname)

/-- The texts of key columns have no colons just when the values have none. -/
theorem keyStrings_colonFree_iff (hF : C.toFormats.KeyTexts) (h : Keyed columns types row) :
    (∀ part ∈ keyStrings C columns row, ':' ∉ part.toList) ↔ ColonFreeKey columns row := by
  simp only [keyStrings, List.forall_mem_map, ColonFreeKey]
  refine forall₂_congr fun name hname => ?_
  obtain ⟨v, hv, ht⟩ := h name hname
  rw [hv, colonFree_iff hF ht]
  constructor
  · rintro hfree _ ⟨⟩
    exact hfree
  · intro hfree
    exact hfree v rfl

/-- The values of key columns are told apart by their texts. -/
theorem keyStrings_inj (hF : C.toFormats.KeyTexts) (h₁ : Keyed columns types row₁)
    (h₂ : Keyed columns types row₂) (h : keyStrings C columns row₁ = keyStrings C columns row₂) :
    keyValues columns row₁ = keyValues columns row₂ := by
  refine List.map_congr_left fun name hname => ?_
  obtain ⟨v₁, hv₁, ht₁⟩ := h₁ name hname
  obtain ⟨v₂, hv₂, ht₂⟩ := h₂ name hname
  have hname := List.map_inj_left.1 h name hname
  rw [hv₁, hv₂] at hname ⊢
  rw [cqlValueToKeyString_inj hF ht₁ ht₂ hname]

/-- Keys without colons are told apart by their joined texts. -/
theorem keyOf_inj (hF : C.toFormats.KeyTexts) (hne : columns ≠ [])
    (h₁ : Keyed columns types row₁) (h₂ : Keyed columns types row₂)
    (hc₁ : ColonFreeKey columns row₁) (hc₂ : ColonFreeKey columns row₂)
    (h : keyOf C columns row₁ = keyOf C columns row₂) :
    keyValues columns row₁ = keyValues columns row₂ := by
  have hne' : ∀ row, keyStrings C columns row ≠ [] := fun row => by
    simpa only [keyStrings, ne_eq, List.map_eq_nil_iff] using hne
  rw [keyOf_eq, keyOf_eq] at h
  refine keyStrings_inj hF h₁ h₂ (Split.intercalate_inj (hne' _) (hne' _) ?_ ?_ h)
  · exact (keyStrings_colonFree_iff hF h₁).2 hc₁
  · exact (keyStrings_colonFree_iff hF h₂).2 hc₂

/-- The texts of a key are found again in the id just when it has no colons. -/
theorem splitOn_keyOf_iff (hF : C.toFormats.KeyTexts) (hne : columns ≠ [])
    (h : Keyed columns types row) :
    (keyOf C columns row).splitOn ":" = keyStrings C columns row ↔ ColonFreeKey columns row := by
  have hne' : keyStrings C columns row ≠ [] := by
    simpa only [keyStrings, ne_eq, List.map_eq_nil_iff] using hne
  rw [← keyStrings_colonFree_iff hF h]
  exact Split.splitOn_intercalate_iff (c := ':') hne'

end

end Router

/-! ## Sample keys -/

/-- The crates, with a text for each key value; those of integers, UUIDs, addresses and blobs
    do not matter here. -/
def sampleKeyCrates : RouterCrates :=
  { sampleRouterCrates with
    uuid := fun u => u.toNat.repr
    inet := fun
      | .v4 bits => bits.toNat.repr
      | .v6 bits => ":" ++ bits.toNat.repr
    base64 := fun b => String.ofList (b.map fun x => Char.ofNat (x.toNat + 64))
    debug := fun
      | .tinyInt i | .smallInt i | .varint i => toString i
      | _ => "" }

/-- The key columns of a table with the primary key `((k1, k2))`, out of order. -/
def sampleKeyInfo : List SchemaColumn :=
  [⟨"k2", 1, "partition_key", "text"⟩, ⟨"k1", 0, "partition_key", "text"⟩]

def sampleKeyRouter : Router where
  nodeInfo := ["node"]
  partitionKeyColumns := ["k1", "k2"]
  fullPrimaryKeyColumns := ["k1", "k2"]
  clusteringKeyColumns := []

/-- A delete of the row with the key `(k1, k2)`. -/
def sampleKeyRow (k1 k2 : String) : CDCRow where
  streamId := "00"
  time := 0x1419d6801dd211b28000000000000000
  batchSeqNo := 0
  operation := .rowDelete
  ttl := none
  columns := [⟨"k1", some (.text k1), false, none⟩, ⟨"k2", some (.text k2), false, none⟩]

/-- A character of the sample texts of blobs. -/
theorem toNat_sampleChar (x : UInt8) : (Char.ofNat (x.toNat + 64)).toNat = x.toNat + 64 := by
  have hx : x.toNat < 256 := x.toNat_lt
  have hvalid : (x.toNat + 64).isValidChar := Or.inl (by omega)
  rw [Char.ofNat, dif_pos hvalid]
  rfl

theorem sampleKeyCrates_keyTexts : sampleKeyCrates.toFormats.KeyTexts where
  uuid_inj u₁ u₂ h := BitVec.eq_of_toNat_eq (nat_repr_inj h)
  inet_inj ip₁ ip₂ h := by
    have hv6 : ∀ bits : BitVec 128, ':' ∈ (":" ++ bits.toNat.repr).toList := fun bits => by simp
    have hv4 : ∀ bits : BitVec 32, ':' ∉ bits.toNat.repr.toList :=
      fun bits => not_mem_repr (by decide) _
    cases ip₁ with
    | v4 bits₁ =>
      cases ip₂ with
      | v4 bits₂ => rw [BitVec.eq_of_toNat_eq (nat_repr_inj h)]
      | v6 bits₂ => exact absurd ((congrArg String.toList h).symm ▸ hv6 bits₂) (hv4 bits₁)
    | v6 bits₁ =>
      cases ip₂ with
      | v4 bits₂ => exact absurd ((congrArg String.toList h) ▸ hv6 bits₁) (hv4 bits₂)
      | v6 bits₂ =>
        have h' := congrArg String.toList h
        simp only [sampleKeyCrates, String.toList_append, List.append_cancel_left_eq] at h'
        rw [BitVec.eq_of_toNat_eq (nat_repr_inj (String.toList_inj.1 h'))]
  base64_inj b₁ b₂ h := by
    refine List.map_injective_iff.2 (fun x y hxy => ?_) (String.ofList_injective h)
    have hnat := congrArg Char.toNat hxy
    rw [toNat_sampleChar, toNat_sampleChar] at hnat
    exact UInt8.toNat_inj.1 (by omega)
  debug_inj f hf i j h := by
    simp only [debugInts, List.mem_cons, List.not_mem_nil, or_false] at hf
    rcases hf with rfl | rfl | rfl <;> exact toString_int_inj h
  uuid_colon u := not_mem_repr (by decide) _
  v4_colon bits := not_mem_repr (by decide) _
  v6_colon bits := by simp [sampleKeyCrates]
  base64_colon b h := by
    rw [sampleKeyCrates, String.toList_ofList, List.mem_map] at h
    obtain ⟨x, -, hx⟩ := h
    have hnat := congrArg Char.toNat hx
    rw [toNat_sampleChar] at hnat
    simp at hnat
  debug_colon f hf i := by
    simp only [debugInts, List.mem_cons, List.not_mem_nil, or_false] at hf
    rcases hf with rfl | rfl | rfl <;> exact colon_not_mem_toString_int i

theorem sampleKeyRow_keyed (k1 k2 : String) :
    Router.Keyed sampleKeyRouter.fullPrimaryKeyColumns (fun _ => .text) (sampleKeyRow k1 k2) := by
  intro name hname
  simp only [sampleKeyRouter, List.mem_cons, List.not_mem_nil, or_false] at hname
  rcases hname with rfl | rfl <;> exact ⟨_, rfl, rfl⟩

theorem sampleKeyRouter_keysOf : sampleKeyRouter.KeysOf (getTableKeyInfo sampleKeyInfo) :=
  ⟨by decide, by decide, rfl⟩

theorem sampleKeyRow_colonFree {k1 k2 : String} (h1 : ':' ∉ k1.toList) (h2 : ':' ∉ k2.toList) :
    Router.ColonFreeKey sampleKeyRouter.fullPrimaryKeyColumns (sampleKeyRow k1 k2) := by
  intro name hname v hv
  simp only [sampleKeyRouter, List.mem_cons, List.not_mem_nil, or_false] at hname
  rcases hname with rfl | rfl <;> cases hv
  · exact h1
  · exact h2

namespace Router

section
variable {C : RouterCrates} {router : Router} {types : String → KeyType} {row₁ row₂ : CDCRow}

/-- **The ids of two rows are faithful just when no key value of them has a colon.** -/
theorem faithful_iff {info : List SchemaColumn} {opType₁ opType₂ : OpType}
    {item₁ item₂ : BatchItem} (hF : C.toFormats.KeyTexts)
    (hkeys : router.KeysOf (getTableKeyInfo info))
    (hpk : ∃ column ∈ info, column.kind = "partition_key")
    (h₁ : Keyed router.fullPrimaryKeyColumns types row₁)
    (h₂ : Keyed router.fullPrimaryKeyColumns types row₂)
    (hitem₁ : router.routeItem C row₁ opType₁ = some item₁)
    (hitem₂ : router.routeItem C row₂ opType₂ = some item₂) :
    router.Faithful C row₁ row₂ item₁ item₂ ↔
      ColonFreeKey router.fullPrimaryKeyColumns row₁ ∧
        ColonFreeKey router.fullPrimaryKeyColumns row₂ := by
  have hfull : router.fullPrimaryKeyColumns =
      router.partitionKeyColumns ++ router.clusteringKeyColumns.map ClusteringKeyColumn.name := by
    rw [hkeys.full, hkeys.partition, hkeys.clustering, getTableKeyInfo_full]
  have hne : router.partitionKeyColumns ≠ [] := by
    rw [hkeys.partition]
    exact getTableKeyInfo_ne_nil hpk
  have hne' : router.fullPrimaryKeyColumns ≠ [] := by
    rw [hfull]
    exact List.append_ne_nil_of_left_ne_nil hne _
  have hsub : router.partitionKeyColumns ⊆ router.fullPrimaryKeyColumns := by
    rw [hfull]
    exact List.subset_append_left _ _
  obtain ⟨-, hid₁, hpart₁, -⟩ := isItemOf_of_routeItem hitem₁
  obtain ⟨-, hid₂, hpart₂, -⟩ := isItemOf_of_routeItem hitem₂
  constructor
  · rintro ⟨-, -, hs₁, hs₂⟩
    rw [hid₁] at hs₁
    rw [hid₂] at hs₂
    exact ⟨(splitOn_keyOf_iff hF hne' h₁).1 hs₁, (splitOn_keyOf_iff hF hne' h₂).1 hs₂⟩
  · rintro ⟨hc₁, hc₂⟩
    refine ⟨mt fun h => ?_, mt fun h => ?_, ?_, ?_⟩
    · rw [hid₁, hid₂] at h
      exact keyOf_inj hF hne' h₁ h₂ hc₁ hc₂ h
    · rw [hpart₁, hpart₂, Option.some.injEq] at h
      exact keyOf_inj hF hne (h₁.mono hsub) (h₂.mono hsub) (fun name hn => hc₁ name (hsub hn))
        (fun name hn => hc₂ name (hsub hn)) h
    · rw [hid₁]
      exact (splitOn_keyOf_iff hF hne' h₁).2 hc₁
    · rw [hid₂]
      exact (splitOn_keyOf_iff hF hne' h₂).2 hc₂

theorem faithful_sample : ∃ item₁ item₂,
    sampleKeyRouter.routeItem sampleKeyCrates (sampleKeyRow "a" "b") .delete = some item₁ ∧
      sampleKeyRouter.routeItem sampleKeyCrates (sampleKeyRow "a" "c") .delete = some item₂ ∧
      sampleKeyRouter.Faithful sampleKeyCrates (sampleKeyRow "a" "b") (sampleKeyRow "a" "c")
        item₁ item₂ := by
  refine ⟨_, _, rfl, rfl, (faithful_iff sampleKeyCrates_keyTexts sampleKeyRouter_keysOf
    ⟨_, List.mem_cons_self, rfl⟩ (sampleKeyRow_keyed "a" "b") (sampleKeyRow_keyed "a" "c")
    rfl rfl).2 ⟨?_, ?_⟩⟩
  · exact sampleKeyRow_colonFree (by decide) (by decide)
  · exact sampleKeyRow_colonFree (by decide) (by decide)

/-- The keys `(a:b, c)` and `(a, b:c)` have one id and one partition key. -/
theorem ids_collide : ∃ item₁ item₂,
    sampleKeyRouter.routeItem sampleKeyCrates (sampleKeyRow "a:b" "c") .delete = some item₁ ∧
      sampleKeyRouter.routeItem sampleKeyCrates (sampleKeyRow "a" "b:c") .delete = some item₂ ∧
      item₁.id = item₂.id ∧ item₁.partitionKey = item₂.partitionKey ∧
      ¬ sampleKeyRouter.Faithful sampleKeyCrates (sampleKeyRow "a:b" "c") (sampleKeyRow "a" "b:c")
        item₁ item₂ := by
  refine ⟨_, _, rfl, rfl, by decide, by decide, fun h => h.id ?_ (by decide)⟩
  intro hvalues
  simp [keyValues, sampleKeyRouter, sampleKeyRow, CDCRow.getValue] at hvalues

end

end Router

end Tantylla
