/-
  When documents expire.

  The code speaks of expiry in three places: an upsert computes `expires_at` with
  saturating machine arithmetic, a search asks for the documents that expire after its
  clock, and the pruner deletes those that expire at its clock or before.
  On writetimes that fit `i64` the arithmetic is exact, clamped to `i64::MAX`:
  `expiresAt_eq`.
-/
import Tantylla.Node.Cell
import Tantylla.Node.Wrapper

namespace Tantylla

/-! ## Range queries -/

/-- `std::ops::Bound`, of an `i64` term. -/
inductive Bound where
  | included (v : ℤ)
  | excluded (v : ℤ)
  | unbounded
  deriving DecidableEq

/-- A `RangeQuery` on the field `expires_at`. -/
structure RangeQuery where
  lower : Bound
  upper : Bound
  deriving DecidableEq

namespace RangeQuery

/-- The range contains the value. -/
def contains (q : RangeQuery) (v : ℤ) : Bool :=
  (match q.lower with
    | .included a => decide (a ≤ v)
    | .excluded a => decide (a < v)
    | .unbounded => true) &&
  (match q.upper with
    | .included b => decide (v ≤ b)
    | .excluded b => decide (v < b)
    | .unbounded => true)

/-- The `expiration_query` of a search that starts at `startMicros`. -/
def expiration (startMicros : ℤ) : RangeQuery := ⟨.excluded startMicros, .unbounded⟩

/-- The `prune_query` of a tick of the pruner at `now`. -/
def pruning (now : ℤ) : RangeQuery := ⟨.unbounded, .included now⟩

@[simp] theorem contains_expiration (now v : ℤ) : (expiration now).contains v ↔ now < v := by
  simp [contains, expiration]

@[simp] theorem contains_pruning (now v : ℤ) : (pruning now).contains v ↔ v ≤ now := by
  simp [contains, pruning]

end RangeQuery

/-! ## The expiry of an upsert -/

/-- The microseconds of a TTL, as a `u64`. -/
theorem toNat_saturatingMulI64 (a b : ℤ) :
    ((max (saturatingMulI64 a b) 0).toNat : ℤ) = max (min (a * b) i64Max) 0 := by
  unfold saturatingMulI64 i64Min i64Max
  omega

/-- **The arithmetic is exact, clamped to `i64::MAX`.** -/
theorem IndexOperation.expiresAt_eq {op : IndexOperation} (hw : (op.writetime : ℤ) ≤ i64Max) :
    op.expiresAt = match op.cdcTtl with
      | some ttl => min (op.writetime + max ttl 0 * 1000000) i64Max
      | none => i64Max := by
  unfold IndexOperation.expiresAt
  cases op.cdcTtl with
  | none => rfl
  | some ttl =>
    have hmul := toNat_saturatingMulI64 ttl 1000000
    unfold saturatingAddU64 u64Max i64Max at *
    dsimp only
    split_ifs <;> omega

/-- A time before `i64::MAX` is before the expiry iff there is no TTL, or it is before the
    end of the TTL. -/
theorem IndexOperation.lt_expiresAt_iff {op : IndexOperation} (hw : (op.writetime : ℤ) ≤ i64Max)
    {t : ℤ} (ht : t < i64Max) :
    t < op.expiresAt ↔ ∀ ttl ∈ op.cdcTtl, t < op.writetime + max ttl 0 * 1000000 := by
  rw [op.expiresAt_eq hw]
  cases op.cdcTtl with
  | none => simp [ht]
  | some ttl => simp [ht]

namespace Engine

theorem writer_prune (s : Engine) (now : ℤ) : (s.prune now).writer =
    s.writer.filter fun d => ¬ (RangeQuery.pruning now).contains d.expiresAt :=
  List.filter_congr fun d _ => by simp

theorem pruning_of_removed {s : Engine} {d : TantivyDoc} {now : ℤ} {r : PruneTick}
    (hd : d ∈ s.writer) (hr : d ∉ (s.prunerTick now r).writer) :
    (RangeQuery.pruning now).contains d.expiresAt := by
  have hprune (h : d ∉ (s.prune now).writer) : (RangeQuery.pruning now).contains d.expiresAt := by
    by_contra hc
    exact h (writer_prune s now ▸ List.mem_filter.2 ⟨hd, by simpa using hc⟩)
  cases r with
  | ok | commitFailed => exact hprune hr
  | queryFailed | contended => exact absurd hd hr

/-- **TTL, search and pruner agree.**  An upsert that is processed leaves one live document,
    which a search at `t` lets through iff there is no TTL or `t` is before the writetime
    plus the TTL, in exact integers.  A tick of the pruner removes it only if no search
    from its clock on would return it, and never if it has no TTL. -/
theorem ttl_search_prune {X : Crates} (hX : X.Lawful) {s : Engine} {op : IndexOperation}
    {addOk : Bool} (ht : op.type = .upsert) (h : (processOp X addOk s op).2 = .processed) :
    ∃ d, (processOp X addOk s op).1.live op.id = [d] ∧
      (∀ t < i64Max, (RangeQuery.expiration t).contains d.expiresAt ↔
        ∀ ttl ∈ op.cdcTtl, t < op.writetime + max ttl 0 * 1000000) ∧
      ∀ (s' : Engine) (t' : ℤ) (r : PruneTick), d ∈ s'.writer →
        d ∉ (s'.prunerTick t' r).writer →
        (∀ t ≥ t', ¬ (RangeQuery.expiration t).contains d.expiresAt) ∧
        (t' < i64Max → op.cdcTtl ≠ none) := by
  obtain ⟨-, d, hd, hs⟩ := stored_of_processed ht h
  obtain ⟨hid, -, hexp, hwt⟩ := hX.storedDoc_fields hd
  have hw : (op.writetime : ℤ) ≤ i64Max := hwt ▸ d.writetime_fits
  refine ⟨d, ?_, fun t ht => ?_, fun s' t' r hmem hr => ?_⟩
  · rw [hs, live_stored hid, if_pos rfl]
  · rw [RangeQuery.contains_expiration, hexp, op.lt_expiresAt_iff hw ht]
  · have hle := (RangeQuery.contains_pruning ..).1 (pruning_of_removed hmem hr)
    refine ⟨fun t ht => ?_, fun ht hnone => ?_⟩
    · rw [RangeQuery.contains_expiration]
      omega
    · rw [hexp, op.expiresAt_eq hw, hnone] at hle
      exact absurd hle (not_le.2 ht)

/-- An upsert at 10 with a TTL of one second. -/
def sampleTtlOp : IndexOperation :=
  { sampleOp .upsert "a" "p" 10 "\x7b\"a\":1\x7d" with cdcTtl := some 1 }

/-- Its document is returned before 1000010, and not pruned before. -/
theorem ttl_search_prune_second :
    ∃ d, (processOp sampleCrates true (new []) sampleTtlOp).1.live "a" = [d] ∧
      (∀ t < i64Max, (RangeQuery.expiration t).contains d.expiresAt ↔ t < 1000010) ∧
      ∀ (s' : Engine) (t' : ℤ) (r : PruneTick), d ∈ s'.writer →
        d ∉ (s'.prunerTick t' r).writer →
        ∀ t ≥ t', ¬ (RangeQuery.expiration t).contains d.expiresAt := by
  obtain ⟨d, hlive, hsearch, hprune⟩ :=
    @ttl_search_prune sampleCrates sampleCrates_lawful (new []) sampleTtlOp true rfl (by decide)
  refine ⟨d, hlive, fun t ht => ?_, fun s' t' r hd hr => (hprune s' t' r hd hr).1⟩
  rw [hsearch t ht]
  simp [sampleTtlOp, sampleOp]

end Engine

end Tantylla
