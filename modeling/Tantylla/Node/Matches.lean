/-
  What a search matches, and the limit it gives its collector.

  A search looks at the reader's snapshot: `Scorer.shard` is what the index gives it, the
  documents that the query scores and that have not expired.  The collector of the best
  hits must not get the limit zero.  The service sees to that for the limit of a request;
  a grouped search computes its own, from the number of matches: `collectsSafely_iff`.
-/
import Tantylla.Node.Search
import Tantylla.Node.Expiry

namespace Tantylla

/-! ## The matching documents -/

/-- What a query makes of a snapshot: the score of each document that matches it. -/
structure Scorer where
  score : List TantivyDoc → TantivyDoc → Option F32
  numbers : ∀ docs d s, score docs d = some s → s.IsNumber

/-- The score of `a` is that of `b`, or higher. -/
def ScoresAbove (a b : F32 × TantivyDoc) : Prop := b.1.rank.getD 0 ≤ a.1.rank.getD 0

instance : DecidableRel ScoresAbove :=
  fun a b => inferInstanceAs (Decidable (b.1.rank.getD 0 ≤ a.1.rank.getD 0))

instance : Std.Total ScoresAbove := ⟨fun a b => le_total (b.1.rank.getD 0) (a.1.rank.getD 0)⟩

instance : IsTrans (F32 × TantivyDoc) ScoresAbove := ⟨fun _ _ _ hab hbc => le_trans hbc hab⟩

namespace Scorer

variable (q : Scorer) (docs : List TantivyDoc) (startMicros : ℤ)

/-- The score of a document under the combined query: it matches, and has not expired. -/
def combined (d : TantivyDoc) : Option (F32 × TantivyDoc) :=
  if (RangeQuery.expiration startMicros).contains d.expiresAt then
    (q.score docs d).map fun score => (score, d)
  else none

/-- What the index gives a search that starts at `startMicros`. -/
def shard (order : HashOrder) (elapsed : ℕ) : Shard where
  ranked := (docs.filterMap (q.combined docs startMicros)).insertionSort ScoresAbove
  docSet := (docs.filterMap (q.combined docs startMicros)).map Prod.snd
  order := order
  elapsed := elapsed
  numbers := by
    intro e he
    rw [List.mem_insertionSort, List.mem_filterMap] at he
    obtain ⟨d, -, hd⟩ := he
    unfold combined at hd
    split_ifs at hd
    obtain ⟨score, hscore, rfl⟩ := Option.map_eq_some_iff.1 hd
    exact q.numbers docs d score hscore
  sorted := List.pairwise_insertionSort ScoresAbove _
  docSet_perm := ((List.perm_insertionSort ScoresAbove _).map Prod.snd).symm

/-- Some document of the snapshot matches the query and has not expired. -/
def Matches : Prop := ∃ d ∈ docs, startMicros < d.expiresAt ∧ (q.score docs d).isSome

variable {q docs startMicros} {order : HashOrder} {elapsed : ℕ}

theorem isSome_combined_iff {d : TantivyDoc} : (q.combined docs startMicros d).isSome ↔
    startMicros < d.expiresAt ∧ (q.score docs d).isSome := by
  unfold combined
  split_ifs with h
  · simp [(RangeQuery.contains_expiration ..).1 h]
  · simp [mt (RangeQuery.contains_expiration ..).2 h]

theorem count_shard_pos_iff :
    0 < (q.shard docs startMicros order elapsed).count ↔ q.Matches docs startMicros := by
  rw [Shard.count, shard, List.length_insertionSort, List.length_pos_iff_exists_mem]
  constructor
  · rintro ⟨e, he⟩
    obtain ⟨d, hd, hsome⟩ := List.mem_filterMap.1 he
    exact ⟨d, hd, isSome_combined_iff.1 (Option.isSome_of_eq_some hsome)⟩
  · rintro ⟨d, hd, hmatch⟩
    obtain ⟨e, he⟩ := Option.isSome_iff_exists.1 (isSome_combined_iff.2 hmatch)
    exact ⟨e, List.mem_filterMap.2 ⟨d, hd, he⟩⟩

end Scorer

/-! ## The limit of the collector -/

namespace Engine

variable {Y : SearchCrates} {m : Shard} {req : SearchRequest}

/-- The limit that a search gives to `TopDocs::with_limit`, in its one call. -/
def collectorLimit (m : Shard) (limit : ℕ) (groupByPartition : Bool) : ℕ :=
  if groupByPartition then min m.count 10000 else limit

theorem collectorLimit_ne_zero_iff {limit : ℕ} {group : Bool} (hlimit : limit ≠ 0) :
    collectorLimit m limit group ≠ 0 ↔ (group → m.count ≠ 0) := by
  unfold collectorLimit
  cases group with
  | false => simpa using hlimit
  | true => simp

/-- The collector panics just when its limit is zero. -/
theorem searchHits_eq_none_iff {limit offset : ℕ} {group : Bool} :
    searchHits Y m limit offset group = none ↔ collectorLimit m limit group = 0 := by
  unfold searchHits collectorLimit
  cases group with
  | false =>
    by_cases h : limit = 0 <;> simp [Shard.topDocs, h]
  | true =>
    by_cases h : min m.count 10000 = 0 <;> simp [Shard.topDocs, h]

theorem exists_serve (hlimit : req.limit ≠ 0)
    (hpos : collectorLimit m req.limit req.groupByPartition ≠ 0) : ∃ hits,
      searchHits Y m req.limit req.offset req.groupByPartition = some hits ∧
      m.serve Y req =
        .ok ⟨hits, m.count % u64Count, m.elapsed, searchFacets Y m req.facetFields⟩ := by
  obtain ⟨hits, hhits⟩ := Option.ne_none_iff_exists'.1 (mt searchHits_eq_none_iff.1 hpos)
  refine ⟨hits, hhits, ?_⟩
  rw [Shard.serve, if_neg hlimit, search, hhits]
  rfl

theorem serve_ok_iff : (∃ response, m.serve Y req = .ok response) ↔
    req.limit ≠ 0 ∧ collectorLimit m req.limit req.groupByPartition ≠ 0 := by
  constructor
  · rintro ⟨response, hok⟩
    by_cases hlimit : req.limit = 0
    · rw [Shard.serve, if_pos hlimit] at hok
      cases hok
    · refine ⟨hlimit, fun hzero => ?_⟩
      rw [Shard.serve, if_neg hlimit, search, searchHits_eq_none_iff.2 hzero] at hok
      cases hok
  · rintro ⟨hlimit, hpos⟩
    obtain ⟨hits, -, hserve⟩ := exists_serve (Y := Y) hlimit hpos
    exact ⟨_, hserve⟩

theorem searchHits_of_count_eq_zero {limit offset : ℕ} {group : Bool} {hits : List SearchHit}
    (hm : m.count = 0) (h : searchHits Y m limit offset group = some hits) : hits = [] := by
  have hnil : m.ranked = [] := List.length_eq_zero_iff.1 hm
  cases group with
  | false =>
    by_cases hl : limit = 0
    · simp [searchHits, Shard.topDocs, hl] at h
    · simpa [searchHits, Shard.topDocs, hl, hnil, eq_comm] using h
  | true => simp [searchHits, Shard.topDocs, hm] at h

/-- The limit of the collector is positive, and the service answers; without matches, with no
    hits and the total zero. -/
structure CollectsSafely (Y : SearchCrates) (m : Shard) (req : SearchRequest) : Prop where
  positive : 0 < collectorLimit m req.limit req.groupByPartition
  answers : ∃ response, m.serve Y req = .ok response ∧
    (m.count = 0 → response.hits = [] ∧ response.totalHits = 0)

theorem collectsSafely_iff_positive (hlimit : 1 ≤ req.limit) :
    CollectsSafely Y m req ↔ 0 < collectorLimit m req.limit req.groupByPartition := by
  refine ⟨CollectsSafely.positive, fun hpos => ⟨hpos, ?_⟩⟩
  obtain ⟨hits, hhits, hserve⟩ := exists_serve (Y := Y) (by omega) hpos.ne'
  refine ⟨_, hserve, fun hm => ?_⟩
  exact ⟨searchHits_of_count_eq_zero hm hhits, by rw [hm, Nat.zero_mod]⟩

/-- **A search that the service admits gives its collector a positive limit, and answers, iff it
    is not grouped or some document that has not expired matches.** -/
theorem collectsSafely_iff {q : Scorer} {docs : List TantivyDoc} {startMicros : ℤ}
    {order : HashOrder} {elapsed : ℕ} (hlimit : 1 ≤ req.limit) :
    CollectsSafely Y (q.shard docs startMicros order elapsed) req ↔
      (req.groupByPartition → q.Matches docs startMicros) := by
  rw [collectsSafely_iff_positive hlimit, Nat.pos_iff_ne_zero,
    collectorLimit_ne_zero_iff (by omega), ← Nat.pos_iff_ne_zero, Scorer.count_shard_pos_iff]

/-- A query that every document matches, with the score one. -/
def sampleScorer : Scorer where
  score _ _ := some scoreOne
  numbers _ _ _ h := by
    cases h
    decide

/-- The first ten hits, grouped by partition or not. -/
def groupedRequest (group : Bool) : SearchRequest where
  query := "document.tag:x"
  limit := 10
  offset := 0
  consistency := 1
  defaultFields := []
  facetFields := []
  boostFields := []
  groupByPartition := group
  limit_fits := by decide
  offset_fits := by decide

/-- Without a document, the search that is not grouped answers. -/
theorem collectsSafely_iff_empty :
    CollectsSafely sampleSearch (sampleScorer.shard [] 10 keyOrder 1) (groupedRequest false) :=
  (collectsSafely_iff (by decide)).2 nofun

/-- A document that expired at 5. -/
def expiredDoc : TantivyDoc :=
  { sampleDoc "p:1" "p" "x" with expiresAt := 5, expiresAt_fits := by decide }

/-- When the last match has expired, the grouped search panics. -/
theorem grouped_search_panics :
    let m := sampleScorer.shard [expiredDoc] 10 keyOrder 1
    m.serve sampleSearch (groupedRequest true) = .error sampleSearch.panicked ∧
      ¬ CollectsSafely sampleSearch m (groupedRequest true) := by
  intro m
  have hpanic : m.serve sampleSearch (groupedRequest true) = .error sampleSearch.panicked := by
    decide +kernel
  refine ⟨hpanic, fun h => ?_⟩
  obtain ⟨response, hok, -⟩ := h.answers
  rw [hpanic] at hok
  cases hok

end Engine

end Tantylla
