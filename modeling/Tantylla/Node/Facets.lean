/-
  The facets of a node.

  The response lists the counters of the facet fields (`mem_facetResults`,
  `exists_bucket_iff`), in whatever order the maps are iterated.  `counter_iff` says what is
  counted: each time a field is asked for, each value of it in each document.  A
  facet is meant to count documents, where a document has the values that its JSON value in
  the field `Holds`; that it does exactly if no document counts twice for a value, and some
  document has a body at all (`facetsCountDocuments_iff`).
-/
import Mathlib.Data.Nat.ModEq
import Tantylla.Node.Matches

namespace Tantylla

/-! ## Facet results as lists of counters -/

/-- The counts of a facet result. -/
def FacetResult.counts (f : FacetResult) : String × List (String × ℕ) :=
  (f.field, f.buckets.map fun b => (b.value, b.count))

/-- Facet results list the counters they are made of. -/
theorem lists_facetResults (H : HashOrder) (counts : OrdMap String (OrdMap String ℕ)) :
    Tally.Lists counts ((facetResults H counts).map FacetResult.counts) := by
  refine ⟨H.fields counts.entries, H.fields_perm _, ?_⟩
  rw [facetResults, List.map_map, List.forall₂_map_right_iff, List.forall₂_same]
  rintro ⟨field, buckets⟩ -
  refine ⟨rfl, ?_⟩
  refine ((perm_sortBy bucketCmp _).map _).trans ?_
  rw [List.map_map]
  exact (List.Perm.of_eq (List.map_id _)).trans (H.buckets_perm field buckets.entries)

/-- Two lists of facet results that agree but for the order of fields and of equal counts. -/
structure SameFacets (facets single : List FacetResult) : Prop where
  fields_nodup : (facets.map FacetResult.field).Nodup
  values_nodup : ∀ f ∈ facets, (f.buckets.map FacetBucket.value).Nodup
  sorted : ∀ f ∈ facets, f.buckets.Pairwise fun a b => b.count ≤ a.count
  fields : ∀ field, field ∈ facets.map FacetResult.field ↔ field ∈ single.map FacetResult.field
  buckets : ∀ field value count,
    (∃ f ∈ facets, f.field = field ∧ (⟨value, count⟩ : FacetBucket) ∈ f.buckets) ↔
      ∃ f ∈ single, f.field = field ∧ (⟨value, count⟩ : FacetBucket) ∈ f.buckets

section
variable {H : HashOrder} {counts : OrdMap String (OrdMap String ℕ)}

theorem mem_facetResults {f : FacetResult} : f ∈ facetResults H counts ↔
    ∃ buckets, counts.get? f.field = some buckets ∧ f.buckets = sortBy bucketCmp
      ((H.buckets f.field buckets.entries).map fun (value, count) => ⟨value, count⟩) := by
  unfold facetResults
  rw [List.mem_map]
  constructor
  · rintro ⟨⟨field, buckets⟩, hmem, rfl⟩
    exact ⟨buckets, OrdMap.mem_entries.1 ((H.fields_perm _).mem_iff.1 hmem), rfl⟩
  · rintro ⟨buckets, hget, hf⟩
    refine ⟨(f.field, buckets), (H.fields_perm _).mem_iff.2 (OrdMap.mem_entries.2 hget), ?_⟩
    dsimp only
    rw [← hf]

/-- The buckets of a facet result are the counters of its field. -/
theorem perm_buckets {f : FacetResult} (hf : f ∈ facetResults H counts) :
    ∃ buckets, counts.get? f.field = some buckets ∧
      f.buckets.Perm (buckets.entries.map fun e => ⟨e.1, e.2⟩) := by
  obtain ⟨buckets, hget, hb⟩ := mem_facetResults.1 hf
  refine ⟨buckets, hget, ?_⟩
  rw [hb]
  exact (perm_sortBy bucketCmp _).trans ((H.buckets_perm f.field _).map _)

theorem exists_bucket_iff {field value : String} {count : ℕ} :
    (∃ f ∈ facetResults H counts, f.field = field ∧ (⟨value, count⟩ : FacetBucket) ∈ f.buckets) ↔
      ∃ buckets, counts.get? field = some buckets ∧ buckets.get? value = some count := by
  have hmem (buckets : OrdMap String ℕ) : (⟨value, count⟩ : FacetBucket) ∈
      buckets.entries.map (fun e => (⟨e.1, e.2⟩ : FacetBucket)) ↔
        buckets.get? value = some count := by
    rw [← OrdMap.mem_entries, List.mem_map]
    constructor
    · rintro ⟨e, he, heq⟩
      cases heq
      exact he
    · intro h
      exact ⟨_, h, rfl⟩
  constructor
  · rintro ⟨f, hf, rfl, hb⟩
    obtain ⟨buckets, hget, hperm⟩ := perm_buckets hf
    exact ⟨buckets, hget, (hmem buckets).1 (hperm.mem_iff.1 hb)⟩
  · rintro ⟨buckets, hget, hb⟩
    have hf : (⟨field, sortBy bucketCmp ((H.buckets field buckets.entries).map
        fun (value, count) => ⟨value, count⟩)⟩ : FacetResult) ∈ facetResults H counts :=
      mem_facetResults.2 ⟨buckets, hget, rfl⟩
    obtain ⟨buckets', hget', hperm⟩ := perm_buckets hf
    obtain rfl : buckets = buckets' := Option.some.inj (hget.symm.trans hget')
    exact ⟨_, hf, rfl, hperm.mem_iff.2 ((hmem buckets).2 hb)⟩

theorem fields_facetResults : ((facetResults H counts).map FacetResult.field).Perm
    (counts.entries.map Prod.fst) := by
  rw [facetResults, List.map_map]
  exact (H.fields_perm _).map Prod.fst

/-- **The same counters make the same facets**, in whatever order the maps are iterated. -/
theorem sameFacets_facetResults (H H' : HashOrder) (counts : OrdMap String (OrdMap String ℕ)) :
    SameFacets (facetResults H counts) (facetResults H' counts) where
  fields_nodup := fields_facetResults.nodup_iff.2 counts.nodup_keys
  values_nodup := by
    intro f hf
    obtain ⟨buckets, -, hperm⟩ := perm_buckets hf
    rw [(hperm.map _).nodup_iff, List.map_map]
    exact buckets.nodup_keys
  sorted := by
    intro f hf
    obtain ⟨buckets, -, hb⟩ := mem_facetResults.1 hf
    rw [hb]
    exact pairwise_sortBy_bucketCmp _
  fields field := by rw [fields_facetResults.mem_iff, fields_facetResults.mem_iff]
  buckets field value count := exists_bucket_iff.trans exists_bucket_iff.symm

end

/-! ## The counts of a node -/

namespace Engine

variable (Y : SearchCrates) (facetFields : List String)

/-- The loop of a node tallies the counts of its documents. -/
theorem countFacets_eq (docs : List TantivyDoc) : countFacets Y facetFields docs =
    Tally.tallyAll u64Count .empty (docs.flatMap (facetCounts Y facetFields)) := by
  rw [Tally.tallyAll, List.foldl_flatMap]
  rfl

theorem searchFacets_eq (m : Shard) : searchFacets Y m facetFields =
    facetResults m.order (countFacets Y facetFields m.docSet) := by
  unfold searchFacets
  split_ifs with h
  · -- without facet fields nothing is counted
    subst h
    have hnil : countFacets Y [] m.docSet = .empty := by
      have hcounts : m.docSet.flatMap (facetCounts Y []) = [] := by
        rw [List.flatMap_eq_nil_iff]
        intro d _
        unfold facetCounts
        cases storedBody d <;> rfl
      rw [countFacets_eq, hcounts]
      rfl
    have hfields : m.order.fields OrdMap.empty.entries = [] :=
      List.perm_nil.1 (m.order.fields_perm _)
    rw [hnil, facetResults, hfields]
    rfl
  · rfl

/-! ## Counting documents -/

/-- The JSON value is the scalar that is rendered as `value`, or an array that contains it as a
    string. -/
def Holds (v : Json) (value : String) : Prop :=
  match v with
  | .str s => s = value
  | .num n => Y.numberText n = value
  | .bool b => toString b = value
  | .arr xs => .str value ∈ xs
  | .null | .obj _ => False

instance (value : String) : ∀ v, Decidable (Holds Y v value)
  | .str s => inferInstanceAs (Decidable (s = value))
  | .num n => inferInstanceAs (Decidable (Y.numberText n = value))
  | .bool b => inferInstanceAs (Decidable (toString b = value))
  | .arr xs => inferInstanceAs (Decidable (.str value ∈ xs))
  | .null | .obj _ => inferInstanceAs (Decidable False)

/-- The JSON value of a document in a field. -/
def fieldOf (d : TantivyDoc) (field : String) : Option Json :=
  d.document.head?.bind (Json.get field)

/-- The document has the value in the field. -/
def docHolds (field value : String) (d : TantivyDoc) : Bool :=
  (fieldOf d field).any fun v => Holds Y v value

/-- The number of documents that have the value in the field. -/
def docsWith (docs : List TantivyDoc) (field value : String) : ℕ :=
  docs.countP (docHolds Y field value)

/-- How often a JSON value has the value: as often as it is in the array, or once. -/
def occurrences (value : String) (v : Json) : ℕ :=
  match v with
  | .arr xs => xs.count (.str value)
  | _ => if Holds Y v value then 1 else 0

/-- How often a document is counted for a value: each time the field is asked for, each time
    it has the value. -/
def timesCounted (field value : String) (d : TantivyDoc) : ℕ :=
  facetFields.count field * ((fieldOf d field).map (occurrences Y value)).getD 0

/-- How often the documents are counted for a value. -/
def counted (docs : List TantivyDoc) (field value : String) : ℕ :=
  (docs.map (timesCounted Y facetFields field value)).sum

/-- How often they are counted beyond the first time of each. -/
def surplus (docs : List TantivyDoc) (field value : String) : ℕ :=
  (docs.map fun d => timesCounted Y facetFields field value d - 1).sum

/-- Each facet field has one result, also without matches; its buckets are the values that
    documents have in the field, each once and with the number of these documents, by count
    descending. -/
structure FacetsCountDocuments (docs : List TantivyDoc) (facets : List FacetResult) : Prop where
  fields_nodup : (facets.map FacetResult.field).Nodup
  fields : ∀ field, field ∈ facets.map FacetResult.field ↔ field ∈ facetFields
  buckets : ∀ field ∈ facetFields, ∀ value count,
    (∃ f ∈ facets, f.field = field ∧ (⟨value, count⟩ : FacetBucket) ∈ f.buckets) ↔
      0 < docsWith Y docs field value ∧ count = docsWith Y docs field value
  values_nodup : ∀ f ∈ facets, (f.buckets.map FacetBucket.value).Nodup
  sorted : ∀ f ∈ facets, f.buckets.Pairwise fun a b => b.count ≤ a.count

/-- Some document has a body, unless no field is asked for. -/
def SomeBody (docs : List TantivyDoc) : Prop :=
  facetFields = [] ∨ ∃ d ∈ docs, d.document ≠ []

/-- For each value, fewer than `2 ^ 64` documents have it, and they are not counted again, or a
    multiple of `2 ^ 64` times, which the counter does not show. -/
structure CountsOnce (docs : List TantivyDoc) : Prop where
  body : SomeBody facetFields docs
  once : ∀ field ∈ facetFields, ∀ value, docsWith Y docs field value ≤ u64Max ∧
    surplus Y facetFields docs field value % u64Count = 0

/-- No document has a string twice in the array of a field asked for, or has values in a field
    asked for twice. -/
def NoRepeats (docs : List TantivyDoc) : Prop :=
  ∀ field ∈ facetFields, ∀ d ∈ docs, ∀ v ∈ fieldOf d field,
    (∀ xs, v = .arr xs → ∀ s, xs.count (.str s) ≤ 1) ∧
    ((∃ value, Holds Y v value) → facetFields.count field = 1)

/-! ## What is counted -/

variable {Y facetFields} {docs : List TantivyDoc} {field value : String}

theorem storedBody_eq (d : TantivyDoc) : storedBody d = d.document.head? := by
  unfold storedBody TantivyDoc.toJson
  cases d.document <;> simp [Json.get, OrdMap.find]

theorem isSome_storedBody {d : TantivyDoc} : (storedBody d).isSome ↔ d.document ≠ [] := by
  rw [storedBody_eq]
  cases d.document <;> simp

theorem occurrences_pos_iff {v : Json} : 0 < occurrences Y value v ↔ Holds Y v value := by
  cases v with
  | arr xs => exact List.count_pos_iff
  | null | bool _ | num _ | str _ | obj _ =>
    unfold occurrences
    dsimp only
    split_ifs with h <;> simp [h]

/-- **The values that are counted** are those that the JSON value has, as often as it has
    them. -/
theorem count_facetValues (docObj : Json) : (facetValues Y docObj field).count value =
    ((docObj.get field).map (occurrences Y value)).getD 0 := by
  have hone (s : String) : [s].count value = if s = value then 1 else 0 := by
    rw [List.count_singleton]
    simp
  unfold facetValues
  cases docObj.get field with
  | none => rfl
  | some v =>
    cases v with
    | str s => exact hone s
    | num n => exact hone (Y.numberText n)
    | bool b => cases b <;> exact hone _
    | null | obj _ => rfl
    | arr xs =>
      show (xs.filterMap Json.asStr).count value = xs.count (.str value)
      induction xs with
      | nil => rfl
      | cons x xs ih =>
        rw [List.filterMap_cons, List.count_cons, ← ih]
        cases x <;> simp [Json.asStr, List.count_cons]

theorem total_under_map (values : String → List String) :
    Tally.total value (Tally.under field (facetFields.map fun f =>
      (f, (values f).map fun v => (v, 1)))) =
      facetFields.count field * (values field).count value := by
  have hone (l : List String) : Tally.total value (l.map fun v => (v, 1)) = l.count value := by
    induction l with
    | nil => rfl
    | cons v l ih =>
      rw [List.map_cons, Tally.total_cons, ih, List.count_cons]
      by_cases hv : v = value
      · simp [hv, Nat.add_comm]
      · simp [hv]
  induction facetFields with
  | nil => simp [Tally.under]
  | cons f fs ih =>
    rw [List.map_cons, Tally.under_cons, Tally.total_append, ih, List.count_cons]
    dsimp only
    by_cases hf : f = field
    · subst hf
      rw [if_pos rfl, hone, beq_self_eq_true, if_pos rfl, Nat.succ_mul, Nat.add_comm]
    · rw [if_neg hf, if_neg (by simpa using hf), Tally.total_nil, Nat.zero_add, Nat.add_zero]

theorem total_under_facetCounts (d : TantivyDoc) :
    Tally.total value (Tally.under field (facetCounts Y facetFields d)) =
      timesCounted Y facetFields field value d := by
  unfold facetCounts timesCounted fieldOf
  rw [storedBody_eq]
  cases d.document.head? with
  | none => simp [Tally.under]
  | some docObj =>
    exact (total_under_map fun f => facetValues Y docObj f).trans
      (congrArg (facetFields.count field * ·) (count_facetValues docObj))

theorem total_under_counts : Tally.total value (Tally.under field
    (docs.flatMap (facetCounts Y facetFields))) = counted Y facetFields docs field value := by
  unfold counted
  induction docs with
  | nil => rfl
  | cons d docs ih =>
    rw [List.flatMap_cons, Tally.under_append, Tally.total_append, ih, total_under_facetCounts,
      List.map_cons, List.sum_cons]

theorem counts_pos : ∀ e ∈ Tally.under field (docs.flatMap (facetCounts Y facetFields)),
    0 < e.2 := by
  intro e he
  obtain ⟨g, hg, he⟩ := List.mem_flatMap.1 he
  obtain ⟨d, -, hg⟩ := List.mem_flatMap.1 (List.mem_of_mem_filter hg)
  unfold facetCounts at hg
  cases hbody : storedBody d with
  | none => rw [hbody] at hg; cases hg
  | some docObj =>
    rw [hbody] at hg
    obtain ⟨f, -, rfl⟩ := List.mem_map.1 hg
    obtain ⟨v, -, rfl⟩ := List.mem_map.1 he
    exact Nat.one_pos

theorem field_mem_counts_iff :
    field ∈ (docs.flatMap (facetCounts Y facetFields)).map Prod.fst ↔
      field ∈ facetFields ∧ ∃ d ∈ docs, (storedBody d).isSome := by
  have hdoc (d : TantivyDoc) : field ∈ (facetCounts Y facetFields d).map Prod.fst ↔
      field ∈ facetFields ∧ (storedBody d).isSome := by
    unfold facetCounts
    cases storedBody d with
    | none => simp
    | some docObj => simp
  rw [List.map_flatMap, List.mem_flatMap]
  simp only [hdoc]
  constructor
  · rintro ⟨d, hd, hfield, hbody⟩
    exact ⟨hfield, d, hd, hbody⟩
  · rintro ⟨hfield, d, hd, hbody⟩
    exact ⟨d, hd, hfield, hbody⟩

/-- **The counter of a value**: how often the documents are counted for it. -/
theorem counter_iff {count : ℕ} : (∃ buckets, (countFacets Y facetFields docs).get? field =
      some buckets ∧ buckets.get? value = some count) ↔
    0 < counted Y facetFields docs field value ∧
      count = counted Y facetFields docs field value % u64Count := by
  rw [countFacets_eq, Tally.get?_tallyAll_empty, ← total_under_counts,
    Tally.total_pos_iff counts_pos]
  constructor
  · rintro ⟨buckets, hget, hvalue⟩
    split_ifs at hget
    cases hget
    rw [Tally.get?_tally_empty] at hvalue
    split_ifs at hvalue with hmem
    cases hvalue
    exact ⟨hmem, rfl⟩
  · rintro ⟨hmem, rfl⟩
    have hfield : field ∈ (docs.flatMap (facetCounts Y facetFields)).map Prod.fst := by
      by_contra hfield
      rw [Tally.under_of_notMem hfield] at hmem
      cases hmem
    rw [if_pos hfield]
    exact ⟨_, rfl, by rw [Tally.get?_tally_empty, if_pos hmem]⟩

/-- The fields of the counters: those asked for, once some document has a body. -/
theorem field_mem_facets_iff (H : HashOrder) : field ∈ (facetResults H
      (countFacets Y facetFields docs)).map FacetResult.field ↔
    field ∈ facetFields ∧ ∃ d ∈ docs, (storedBody d).isSome := by
  rw [fields_facetResults.mem_iff, OrdMap.mem_keys, countFacets_eq,
    Tally.get?_tallyAll_empty, ← field_mem_counts_iff (Y := Y)]
  split_ifs with h
  · simp [h]
  · simp [h]

theorem fields_iff_someBody (H : HashOrder) : (∀ field, field ∈ (facetResults H
      (countFacets Y facetFields docs)).map FacetResult.field ↔ field ∈ facetFields) ↔
    SomeBody facetFields docs := by
  simp only [field_mem_facets_iff, isSome_storedBody]
  constructor
  · intro h
    rcases facetFields with _ | ⟨f, fs⟩
    · exact .inl rfl
    · exact .inr ((h f).2 List.mem_cons_self).2
  · rintro (rfl | hbody) field
    · simp
    · exact and_iff_left hbody

/-! ## Documents counted more than once -/

theorem timesCounted_pos_iff (hfield : field ∈ facetFields) (d : TantivyDoc) :
    0 < timesCounted Y facetFields field value d ↔ docHolds Y field value d := by
  rw [timesCounted, Nat.mul_pos_iff_of_pos_left (List.count_pos_iff.2 hfield), docHolds]
  cases fieldOf d field with
  | none => simp
  | some v => simp [occurrences_pos_iff]

/-- A value is counted once for each document that has it, and for what is surplus. -/
theorem counted_eq (hfield : field ∈ facetFields) :
    counted Y facetFields docs field value =
      docsWith Y docs field value + surplus Y facetFields docs field value := by
  unfold counted docsWith surplus
  induction docs with
  | nil => rfl
  | cons d docs ih =>
    have hpos : 0 < timesCounted Y facetFields field value d ↔ docHolds Y field value d :=
      timesCounted_pos_iff hfield d
    rw [List.map_cons, List.sum_cons, ih, List.countP_cons, List.map_cons, List.sum_cons]
    by_cases hd : docHolds Y field value d
    · rw [if_pos hd]
      have := hpos.2 hd
      omega
    · rw [if_neg hd]
      have := mt hpos.1 hd
      omega

theorem counted_pos_iff (hfield : field ∈ facetFields) :
    0 < counted Y facetFields docs field value ↔ 0 < docsWith Y docs field value := by
  refine ⟨fun h => ?_, fun h => by rw [counted_eq hfield]; omega⟩
  obtain ⟨n, hn, hpos⟩ : ∃ n ∈ docs.map (timesCounted Y facetFields field value), 0 < n := by
    by_contra hall
    push Not at hall
    have hzero : counted Y facetFields docs field value = 0 :=
      List.sum_eq_zero fun n hn => Nat.le_zero.1 (hall n hn)
    omega
  obtain ⟨d, hd, rfl⟩ := List.mem_map.1 hn
  rw [docsWith, List.countP_pos_iff]
  exact ⟨d, hd, (timesCounted_pos_iff hfield d).1 hpos⟩

/-- Nothing is surplus just if no document counts twice. -/
theorem surplus_eq_zero_iff : surplus Y facetFields docs field value = 0 ↔
    ∀ d ∈ docs, timesCounted Y facetFields field value d ≤ 1 := by
  unfold surplus
  rw [List.sum_eq_zero_iff_forall_eq_nat]
  constructor
  · intro h d hd
    have := h _ (List.mem_map_of_mem hd)
    omega
  · intro h n hn
    obtain ⟨d, hd, rfl⟩ := List.mem_map.1 hn
    have := h d hd
    omega

theorem occurrences_le_one {v : Json} (h : ∀ xs, v = .arr xs → ∀ s, xs.count (.str s) ≤ 1) :
    occurrences Y value v ≤ 1 := by
  cases v with
  | arr xs => exact h xs rfl value
  | null | bool _ | num _ | str _ | obj _ =>
    unfold occurrences
    dsimp only
    split_ifs <;> omega

/-- A document counts at most once for each value of a field, if it has no string twice and the
    field, where it has values, is asked for once. -/
theorem timesCounted_le_one_iff (hfield : field ∈ facetFields) (d : TantivyDoc) :
    (∀ value, timesCounted Y facetFields field value d ≤ 1) ↔ ∀ v ∈ fieldOf d field,
      (∀ xs, v = .arr xs → ∀ s, xs.count (.str s) ≤ 1) ∧
      ((∃ value, Holds Y v value) → facetFields.count field = 1) := by
  have hasked : 0 < facetFields.count field := List.count_pos_iff.2 hfield
  unfold timesCounted
  cases fieldOf d field with
  | none => simp
  | some v =>
    simp only [Option.map_some, Option.getD_some, Option.mem_some_iff, forall_eq']
    constructor
    · intro h
      refine ⟨?_, ?_⟩
      · rintro xs rfl s
        exact (Nat.le_mul_of_pos_left _ hasked).trans (h s)
      · rintro ⟨value, hvalue⟩
        have hle := (Nat.le_mul_of_pos_right _ (occurrences_pos_iff.2 hvalue)).trans (h value)
        omega
    · rintro ⟨honce, hone⟩ value
      by_cases hvalue : Holds Y v value
      · rw [hone ⟨value, hvalue⟩, Nat.one_mul]
        exact occurrences_le_one honce
      · rw [Nat.le_zero.1 (not_lt.1 (mt occurrences_pos_iff.1 hvalue)), Nat.mul_zero]
        exact Nat.zero_le _

theorem noRepeats_iff : NoRepeats Y facetFields docs ↔
    ∀ field ∈ facetFields, ∀ value, surplus Y facetFields docs field value = 0 := by
  simp only [NoRepeats, surplus_eq_zero_iff]
  constructor
  · intro h field hfield value d hd
    exact (timesCounted_le_one_iff hfield d).2 (h field hfield d hd) value
  · intro h field hfield d hd
    exact (timesCounted_le_one_iff hfield d).1 fun value => h field hfield value d hd

/-- Below `2 ^ 64`, documents count once just if nothing repeats. -/
theorem countsOnce_iff_noRepeats
    (hfits : ∀ field value, counted Y facetFields docs field value ≤ u64Max) :
    CountsOnce Y facetFields docs ↔ SomeBody facetFields docs ∧ NoRepeats Y facetFields docs := by
  have hsum {field : String} (hfield : field ∈ facetFields) (value : String) :
      docsWith Y docs field value + surplus Y facetFields docs field value ≤ u64Max :=
    (counted_eq hfield).symm.trans_le (hfits field value)
  have hlt : u64Max < u64Count := by decide
  rw [noRepeats_iff]
  constructor
  · rintro ⟨hbody, honce⟩
    refine ⟨hbody, fun field hfield value => ?_⟩
    have hzero := (honce field hfield value).2
    have := hsum hfield value
    rwa [Nat.mod_eq_of_lt (by omega)] at hzero
  · rintro ⟨hbody, hzero⟩
    refine ⟨hbody, fun field hfield value => ?_⟩
    have := hsum hfield value
    rw [hzero field hfield value]
    exact ⟨by omega, Nat.zero_mod _⟩

/-- The counter shows the number of documents just if it does not overflow and what is surplus
    cannot be seen. -/
theorem bucket_iff (hfield : field ∈ facetFields) :
    (∀ count, (0 < counted Y facetFields docs field value ∧
        count = counted Y facetFields docs field value % u64Count) ↔
      0 < docsWith Y docs field value ∧ count = docsWith Y docs field value) ↔
    docsWith Y docs field value ≤ u64Max ∧
      surplus Y facetFields docs field value % u64Count = 0 := by
  have hu : u64Count = u64Max + 1 := by decide
  have hsum : counted Y facetFields docs field value =
      docsWith Y docs field value + surplus Y facetFields docs field value := counted_eq hfield
  have hpos : 0 < counted Y facetFields docs field value ↔ 0 < docsWith Y docs field value :=
    counted_pos_iff hfield
  constructor
  · intro h
    by_cases hdocs : 0 < docsWith Y docs field value
    · have hcount : docsWith Y docs field value =
          counted Y facetFields docs field value % u64Count := ((h _).2 ⟨hdocs, rfl⟩).2
      have hfits : docsWith Y docs field value < u64Count := by
        rw [hcount]
        exact Nat.mod_lt _ (by omega)
      -- both count the same modulo `2 ^ 64`
      have hmod : Nat.ModEq u64Count
          (docsWith Y docs field value + surplus Y facetFields docs field value)
          (docsWith Y docs field value + 0) := by
        rw [Nat.ModEq, ← hsum, ← hcount, Nat.add_zero, Nat.mod_eq_of_lt hfits]
      exact ⟨by omega, Nat.ModEq.add_left_cancel' _ hmod⟩
    · have hnone := mt hpos.1 hdocs
      have hzero : surplus Y facetFields docs field value = 0 := by omega
      rw [hzero]
      exact ⟨by omega, Nat.zero_mod _⟩
  · rintro ⟨hfits, hzero⟩ count
    rw [hpos, hsum, Nat.add_mod, hzero, Nat.add_zero, Nat.mod_mod,
      Nat.mod_eq_of_lt (show docsWith Y docs field value < u64Count by omega)]

/-! ## The facets of a search -/

/-- The search answers, and its facets count documents. -/
def AnswersFacets (Y : SearchCrates) (m : Shard) (req : SearchRequest) : Prop :=
  ∃ response, search Y m req = some response ∧
    FacetsCountDocuments Y req.facetFields m.docSet response.facets

theorem facetsCountDocuments_searchFacets (m : Shard) :
    FacetsCountDocuments Y facetFields m.docSet (searchFacets Y m facetFields) ↔
      CountsOnce Y facetFields m.docSet := by
  have hsame := sameFacets_facetResults m.order m.order (countFacets Y facetFields m.docSet)
  rw [searchFacets_eq]
  constructor
  · intro h
    refine ⟨(fields_iff_someBody m.order).1 h.fields, fun field hfield value => ?_⟩
    refine (bucket_iff hfield).1 fun count => ?_
    rw [← h.buckets field hfield value count, exists_bucket_iff, counter_iff]
  · rintro ⟨hbody, honce⟩
    refine ⟨hsame.fields_nodup, (fields_iff_someBody m.order).2 hbody, ?_, hsame.values_nodup,
      hsame.sorted⟩
    intro field hfield value count
    rw [exists_bucket_iff, counter_iff]
    exact (bucket_iff hfield).2 (honce field hfield value) count

section
variable {m : Shard} {req : SearchRequest}

/-- **The facets of a search count documents iff** the search answers (grouped, it needs a match),
    some matching document has a body, and for each value the documents that have it are fewer
    than `2 ^ 64` and not counted again; that is, where the counters do not overflow, **iff
    nothing repeats**: no value in a document, no field with values in the request. -/
theorem facetsCountDocuments_iff (hlimit : 1 ≤ req.limit) :
    (AnswersFacets Y m req ↔ (req.groupByPartition → 0 < m.count) ∧
      CountsOnce Y req.facetFields m.docSet) ∧
    ((∀ field value, counted Y req.facetFields m.docSet field value ≤ u64Max) →
      (CountsOnce Y req.facetFields m.docSet ↔
        SomeBody req.facetFields m.docSet ∧ NoRepeats Y req.facetFields m.docSet)) := by
  refine ⟨?_, countsOnce_iff_noRepeats⟩
  have hcollects : collectorLimit m req.limit req.groupByPartition ≠ 0 ↔
      (req.groupByPartition → m.count ≠ 0) := collectorLimit_ne_zero_iff (by omega)
  simp only [← facetsCountDocuments_searchFacets, Nat.pos_iff_ne_zero]
  rw [← hcollects]
  constructor
  · rintro ⟨response, hsearch, hfacets⟩
    unfold search at hsearch
    cases hhits : searchHits Y m req.limit req.offset req.groupByPartition with
    | none =>
      rw [hhits] at hsearch
      cases hsearch
    | some hits =>
      rw [hhits] at hsearch
      cases hsearch
      refine ⟨fun hzero => ?_, hfacets⟩
      rw [searchHits_eq_none_iff.2 hzero] at hhits
      cases hhits
  · rintro ⟨hpos, hfacets⟩
    have hsome : searchHits Y m req.limit req.offset req.groupByPartition ≠ none :=
      mt searchHits_eq_none_iff.1 hpos
    obtain ⟨hits, hhits⟩ := Option.ne_none_iff_exists'.1 hsome
    refine ⟨⟨hits, m.count % u64Count, m.elapsed, searchFacets Y m req.facetFields⟩, ?_, hfacets⟩
    rw [search, hhits]
    rfl

end

/-- The first ten documents, with the counts of their tags. -/
def tagRequest : SearchRequest :=
  { groupedRequest false with facetFields := ["tag"] }

/-- Two documents with one tag each. -/
theorem facetsCountDocuments_tags : AnswersFacets sampleSearch sampleShard tagRequest := by
  have hscalar : ∀ d ∈ sampleShard.docSet, ∀ xs, fieldOf d "tag" ≠ some (.arr xs) := by
    have hnone : ∀ d ∈ sampleShard.docSet, (fieldOf d "tag").bind Json.asArray = none := by
      decide +kernel
    intro d hd xs hxs
    have harr := hnone d hd
    rw [hxs] at harr
    cases harr
  have hnone : NoRepeats sampleSearch ["tag"] sampleShard.docSet := by
    intro field hfield d hd v hv
    obtain rfl := List.mem_singleton.1 hfield
    exact ⟨fun xs hxs => absurd (hxs ▸ hv) (hscalar d hd xs), fun _ => by decide⟩
  have honce : CountsOnce sampleSearch ["tag"] sampleShard.docSet := by
    refine ⟨.inr ⟨_, List.mem_cons_self, by decide⟩, fun field hfield value => ⟨?_, ?_⟩⟩
    · exact List.countP_le_length.trans (by decide)
    · rw [noRepeats_iff.1 hnone field hfield value]
      rfl
  exact (facetsCountDocuments_iff (by decide)).1.2 ⟨nofun, honce⟩

/-- A node that found one document, with the array of tags `x`, `x`. -/
def repeatedShard : Shard where
  ranked := [(scoreOne, { sampleDoc "p:1" "p" "x" with
    document := [.obj [("tag", .arr [.str "x", .str "x"])]] })]
  docSet := [{ sampleDoc "p:1" "p" "x" with
    document := [.obj [("tag", .arr [.str "x", .str "x"])]] }]
  order := keyOrder
  elapsed := 1
  numbers := by decide
  sorted := by decide
  docSet_perm := .refl _

/-- **One document counts as two**, if its array has a string twice. -/
theorem repeated_tag_counts_twice :
    docsWith sampleSearch repeatedShard.docSet "tag" "x" = 1 ∧
      searchFacets sampleSearch repeatedShard ["tag"] = [⟨"tag", [⟨"x", 2⟩]⟩] ∧
      ¬ AnswersFacets sampleSearch repeatedShard tagRequest := by
  have hdocs : docsWith sampleSearch repeatedShard.docSet "tag" "x" = 1 := by decide +kernel
  have hfacets : searchFacets sampleSearch repeatedShard ["tag"] = [⟨"tag", [⟨"x", 2⟩]⟩] := by
    decide +kernel
  have hsearch : (search sampleSearch repeatedShard tagRequest).map SearchResponse.facets =
      some [⟨"tag", [⟨"x", 2⟩]⟩] := by decide +kernel
  refine ⟨hdocs, hfacets, ?_⟩
  rintro ⟨response, hresponse, hcounts⟩
  rw [hresponse] at hsearch
  have hbucket : ∃ f ∈ response.facets, f.field = "tag" ∧ (⟨"x", 2⟩ : FacetBucket) ∈ f.buckets := by
    rw [Option.some.inj hsearch]
    exact ⟨_, List.mem_cons_self, rfl, List.mem_cons_self⟩
  have htwo := ((hcounts.buckets "tag" List.mem_cons_self "x" 2).1 hbucket).2
  rw [hdocs] at htwo
  omega

end Engine

end Tantylla
