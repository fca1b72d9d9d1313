/-
  A reading of the index's documents.

  `TantivyDocument::parse_json` belongs to another crate; the engine is modelled
  over any function that obeys `Crates.Lawful`, and `Crates.Stores` where bodies are
  read.  `readWrapper` is one: it reads the five fields of the schema, and takes objects
  only for the JSON field.  `storing_stores`: with it, any reader of JSON texts and any
  way to keep texts that changes a text once only, the laws hold.
-/
import Tantylla.Node.Step

namespace Tantylla

/-- The value is an object. -/
def Json.isObject : Json → Bool
  | .obj _ => true
  | _ => false

/-- The values of a field of the wrapper: those of an array, or the one value. -/
def fieldValues (key : String) (j : Json) : List Json :=
  match j.get key with
  | some (.arr vs) => vs
  | some v => [v]
  | none => []

/-- Read a document from its wrapper; the texts in its body are kept as `storedText` says. -/
def readWrapper (storedText : String → String) (j : Json) : Option TantivyDoc := do
  let id ← (j.get "id").bind Json.asStr
  let partitionKey ← (j.get "partition_key").bind Json.asStr
  let expiresAt ← (j.get "expires_at").bind Json.asI64
  let writetime ← (j.get "writetime").bind Json.asU64
  let document := fieldValues "document" j
  if h : (i64Min ≤ expiresAt ∧ expiresAt ≤ i64Max) ∧ (writetime : ℤ) ≤ i64Max ∧
      document.all Json.isObject then
    some { id, partitionKey, expiresAt, writetime,
           document := document.map (Json.mapText storedText),
           expiresAt_fits := h.1, writetime_fits := h.2.1 }
  else none

/-- A reader of JSON texts that knows the given ones, with an index that keeps the texts
    of a body as `storedText` says. -/
def Crates.storing (storedText : String → String) (texts : List (String × Json)) : Crates where
  fromStr s := texts.lookup s
  parseJson := readWrapper storedText
  storedText := storedText

/-- The same with an index that keeps every text as it is. -/
def Crates.ofTexts (texts : List (String × Json)) : Crates := .storing id texts

theorem get_fullDocWrapper (d : Doc) :
    d.fullDocWrapper.get "id" = some (.str d.id) ∧
    d.fullDocWrapper.get "partition_key" = some (.str d.partitionKey) ∧
    d.fullDocWrapper.get "expires_at" = some (.num (.int d.expiresAt)) ∧
    d.fullDocWrapper.get "writetime" = some (.num (.int d.writetime)) ∧
    d.fullDocWrapper.get "document" = some d.doc := by
  simp [Doc.fullDocWrapper, Json.get, OrdMap.find]

theorem fieldValues_document (d : Doc) :
    fieldValues "document" d.fullDocWrapper =
      match d.doc with
      | .arr vs => vs
      | v => [v] := by
  unfold fieldValues
  rw [(get_fullDocWrapper d).2.2.2.2]
  cases d.doc <;> rfl

/-- The document read from a wrapper has its fields; it is there iff the numbers fit and
    the JSON field has objects only. -/
theorem readWrapper_eq (f : String → String) (d : Doc) : readWrapper f d.fullDocWrapper =
    if h : (i64Min ≤ d.expiresAt ∧ d.expiresAt ≤ i64Max) ∧ (d.writetime : ℤ) ≤ i64Max ∧
        (fieldValues "document" d.fullDocWrapper).all Json.isObject then
      some {
        id := d.id, partitionKey := d.partitionKey, expiresAt := d.expiresAt,
        document := (fieldValues "document" d.fullDocWrapper).map (Json.mapText f),
        writetime := d.writetime,
        expiresAt_fits := h.1, writetime_fits := h.2.1 }
    else none := by
  obtain ⟨hid, hpk, hex, hwt, -⟩ := get_fullDocWrapper d
  unfold readWrapper
  rw [hid, hpk, hex, hwt]
  simp only [Option.bind_eq_bind, Option.bind_some, Json.asStr, Json.asI64, Json.asU64]
  by_cases he : i64Min ≤ d.expiresAt ∧ d.expiresAt ≤ i64Max
  · by_cases hu : 0 ≤ (d.writetime : ℤ) ∧ (d.writetime : ℤ) ≤ u64Max
    · simp only [if_pos he, if_pos hu, Option.bind_some, Int.toNat_natCast]
    · have hw : ¬ (d.writetime : ℤ) ≤ i64Max := fun hw =>
        hu ⟨Int.natCast_nonneg _, hw.trans (by decide)⟩
      rw [if_pos he, if_neg hu, dif_neg fun h => hw h.2.1]; rfl
  · rw [if_neg he, dif_neg fun h => he h.1]; rfl

theorem Crates.storing_lawful (f : String → String) (texts : List (String × Json)) :
    (storing f texts).Lawful where
  fields d t h := by
    change readWrapper f d.fullDocWrapper = some t at h
    rw [readWrapper_eq] at h
    split_ifs at h
    cases h
    exact ⟨rfl, rfl, rfl, rfl⟩
  accepts d hobj he hw := by
    obtain ⟨m, hm⟩ := hobj
    have hall : (fieldValues "document" d.fullDocWrapper).all Json.isObject := by
      simp [fieldValues_document, hm, Json.isObject]
    exact Option.isSome_iff_exists.2 ⟨_, (readWrapper_eq f d).trans (dif_pos ⟨he, hw, hall⟩)⟩

/-- **The laws of `parse_json` hold of the reading.** -/
theorem Crates.storing_stores {f : String → String} (hf : ∀ s, f (f s) = f s)
    (texts : List (String × Json)) : (storing f texts).Stores where
  toLawful := storing_lawful f texts
  storedText_twice := hf
  document d t hobj h := by
    obtain ⟨m, hm⟩ := hobj
    change readWrapper f d.fullDocWrapper = some t at h
    rw [readWrapper_eq] at h
    split_ifs at h
    cases h
    simp only [fieldValues_document, hm, List.map_cons, List.map_nil]
    rfl

theorem Crates.ofTexts_stores (texts : List (String × Json)) : (ofTexts texts).Stores :=
  storing_stores (fun _ => rfl) texts

theorem Crates.ofTexts_lawful (texts : List (String × Json)) : (ofTexts texts).Lawful :=
  storing_lawful id texts

/-- An index that keeps texts as they are returns every body as it was written. -/
theorem Crates.ofTexts_asWritten (texts : List (String × Json)) (body : Json) :
    (ofTexts texts).AsWritten body :=
  Json.mapText_eq_self (fun _ => rfl) body

/-! ## Sample operations -/

/-- Two payloads with one column each. -/
def sampleTexts : List (String × Json) :=
  [("\x7b\"a\":1\x7d", .obj [("a", .num (.int 1))]),
    ("\x7b\"b\":2\x7d", .obj [("b", .num (.int 2))])]

/-- The two payloads are read as the crate reads them; the index reads wrappers as above. -/
def sampleCrates : Crates := .ofTexts sampleTexts

theorem sampleCrates_lawful : sampleCrates.Lawful := Crates.ofTexts_lawful _

theorem sampleCrates_stores : sampleCrates.Stores := Crates.ofTexts_stores _

/-- An operation of the given type, with no TTL and no deltas. -/
def sampleOp (t : OpType) (id pk : String) (writetime : ℕ) (payload : String) : IndexOperation where
  id := id
  opType := t.toI32
  writetime := writetime
  cdcTtl := none
  payloadJson := payload
  collectionDeltas := []
  partitionKey := some pk

end Tantylla
