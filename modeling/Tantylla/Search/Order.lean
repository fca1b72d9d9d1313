/-
  The order of hits and of buckets.

  Among hits whose scores are numbers, `sortBy hitCmp` is the stable sort by score
  descending (`sortBy_hitCmp`).
-/
import Tantylla.Search.Messages
import Tantylla.Lib.Rank

namespace Tantylla

/-- The place of the score of a hit. -/
def SearchHit.place (h : SearchHit) : ℤ := h.score.rank.getD 0

/-- The score of `a` is that of `b`, or higher. -/
def ByScore (a b : SearchHit) : Prop := b.place ≤ a.place

instance : DecidableRel ByScore := fun a b => inferInstanceAs (Decidable (b.place ≤ a.place))

instance : Std.Total ByScore := ⟨fun a b => le_total b.place a.place⟩

instance : IsTrans SearchHit ByScore := ⟨fun _ _ _ hab hbc => le_trans hbc hab⟩

instance : Std.Refl ByScore := ⟨fun a => le_refl a.place⟩

theorem hitCmp_ne_gt_iff {a b : SearchHit} (ha : a.score.IsNumber) (hb : b.score.IsNumber) :
    hitCmp a b ≠ .gt ↔ ByScore a b := by
  obtain ⟨x, hx⟩ := Option.isSome_iff_exists.1 ha
  obtain ⟨y, hy⟩ := Option.isSome_iff_exists.1 hb
  rw [hitCmp, F32.partialCmp, hx, hy, ByScore, SearchHit.place, SearchHit.place, hx, hy]
  exact compare_le_iff_le

/-- **Among hits whose scores are numbers, the sort of the source is the stable sort by
    score descending.** -/
theorem sortBy_hitCmp {hits : List SearchHit} (h : ∀ a ∈ hits, a.score.IsNumber) :
    sortBy hitCmp hits = hits.insertionSort ByScore :=
  Rank.insertionSort_congr fun a ha b hb => hitCmp_ne_gt_iff (h a ha) (h b hb)

theorem perm_sortBy {α : Type*} (cmp : α → α → Ordering) (l : List α) : (sortBy cmp l).Perm l :=
  List.perm_insertionSort ..

/-- Sorted buckets have their counts in descending order. -/
theorem pairwise_sortBy_bucketCmp (buckets : List FacetBucket) :
    (sortBy bucketCmp buckets).Pairwise fun a b => b.count ≤ a.count := by
  let r : FacetBucket → FacetBucket → Prop := fun a b => b.count ≤ a.count
  have : Std.Total r := ⟨fun a b => le_total b.count a.count⟩
  have : IsTrans FacetBucket r := ⟨fun _ _ _ hab hbc => le_trans hbc hab⟩
  have heq : sortBy bucketCmp buckets = buckets.insertionSort r :=
    Rank.insertionSort_congr fun a _ b _ => compare_le_iff_le
  rw [heq]
  exact List.pairwise_insertionSort r buckets

end Tantylla
