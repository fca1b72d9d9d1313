/-
  Upserts of full rows, in any order.

  A node skips an upsert that is not later than the document it finds, and merges any other
  into that document.  So the order in which rows arrive shows in what the earlier ones
  leave of their columns.  `last_row_iff`: every order, with repetitions, and commits and
  reloads in between, ends with what the last row alone would have made, just when the last
  row overwrites each of the others.
-/
import Tantylla.Node.MergeLaws
import Tantylla.Node.Upserts

namespace Tantylla

open OrdMap

namespace Json

/-! ## Overwriting what is merged -/

theorem overwrites_of_not_isObj {new : Json} (h : ¬ new.IsObj) (old : Json) :
    overwrites old new := by
  cases new with
  | obj m => exact absurd ⟨m, rfl⟩ h
  | null | bool _ | num _ | str _ | arr _ => cases old <;> rfl

theorem overwrites_null (new : Json) : overwrites .null new := by cases new <;> rfl

/-- What an object overwrites, key by key. -/
theorem overwrites_obj_iff {old : Json} {new : List (String × Json)} :
    overwrites old (.obj new) ↔ (∀ e ∈ old.fields, (find e.1 new).isSome) ∧
      ∀ e ∈ new, overwrites ((old.get e.1).getD .null) e.2 := by
  have hfields (m : List (String × Json)) (new : List (String × Json)) :
      overwritesFields m new ↔ ∀ e ∈ new, overwrites ((find e.1 m).getD .null) e.2 := by
    induction new with
    | nil => simp [overwritesFields]
    | cons e new ih => rw [overwritesFields, Bool.and_eq_true, ih, List.forall_mem_cons]
  cases old with
  | obj m => rw [overwrites, Bool.and_eq_true, List.all_eq_true, hfields]; rfl
  | null | bool _ | num _ | str _ | arr _ =>
    simp [overwrites, Json.fields, Json.get, overwrites_null]

mutual
theorem ordered_mergeJson : ∀ (b a : Json), a.Ordered → b.Ordered → (mergeJson a b).Ordered
  | .obj p, a, ha, hb => by
    rw [mergeJson_obj hb.1]
    exact ⟨sorted_mergeFields p ha.fields.1, ordered_mergeFields p a.fields ha.fields.2 hb.2⟩
  | .null, a, _, hb | .bool _, a, _, hb | .num _, a, _, hb | .str _, a, _, hb
  | .arr _, a, _, hb => by
    rw [mergeJson_of_not_isObj a fun ⟨_, h⟩ => by cases h]
    exact hb

theorem ordered_mergeFields : ∀ (p m : List (String × Json)), OrderedFields m →
    OrderedFields p → OrderedFields (mergeFields m p)
  | [], _, hm, _ => hm
  | (k, v) :: p, _, hm, hp =>
    ordered_mergeFields p _ (hm.put k (ordered_mergeJson v _ (hm.find k) hp.1)) hp.2
end

mutual
/-- **What overwrites two values overwrites the one merged into the other.** -/
theorem overwrites_mergeJson : ∀ (c a b : Json), b.Ordered → overwrites a c → overwrites b c →
    overwrites (mergeJson a b) c
  | .obj new, a, .obj p, hb, hac, hbc => by
    rw [overwrites_obj_iff] at hac hbc ⊢
    refine ⟨fun e he => ?_, fun e he => ?_⟩
    · rw [mergeJson_obj hb.1, Json.fields] at he
      -- the keys of the merged object are those of the two
      have hkey : (find e.1 (mergeFields a.fields p)).isSome :=
        find_isSome.2 (List.mem_map_of_mem he)
      rcases (find_mergeFields_isSome p a.fields).1 hkey with h | h
      · obtain ⟨e', he', hk⟩ := List.mem_map.1 (find_isSome.1 h)
        exact hk ▸ hac.1 e' he'
      · obtain ⟨e', he', hk⟩ := List.mem_map.1 (find_isSome.1 h)
        exact hk ▸ hbc.1 e' he'
    · have hb' := hbc.2 e he
      rw [get_mergeJson hb.1]
      rw [Json.get] at hb'
      cases hk : find e.1 p with
      | none => exact hac.2 e he
      | some w =>
        rw [hk, Option.getD_some] at hb'
        exact overwrites_mergeJson_of_mem new e he _ w
          (orderedFields_iff.1 hb.2 _ (mem_of_find hk)) (hac.2 e he) hb'
  | .obj _, a, .null, _, _, hbc | .obj _, a, .bool _, _, _, hbc | .obj _, a, .num _, _, _, hbc
  | .obj _, a, .str _, _, _, hbc | .obj _, a, .arr _, _, _, hbc => by
    rw [mergeJson_of_not_isObj a fun ⟨_, h⟩ => by cases h]
    exact hbc
  | .null, _, _, _, _, _ | .bool _, _, _, _, _, _ | .num _, _, _, _, _, _
  | .str _, _, _, _, _, _ | .arr _, _, _, _, _, _ =>
    overwrites_of_not_isObj (fun ⟨_, h⟩ => by cases h) _

theorem overwrites_mergeJson_of_mem : ∀ (new : List (String × Json)), ∀ e ∈ new,
    ∀ a b : Json, b.Ordered → overwrites a e.2 → overwrites b e.2 →
      overwrites (mergeJson a b) e.2
  | [], _, he, _, _, _, _, _ => by cases he
  | (k, v) :: new, e, he, a, b, hb, ha, hbe => by
    rcases List.mem_cons.1 he with rfl | he
    · exact overwrites_mergeJson v a b hb ha hbe
    · exact overwrites_mergeJson_of_mem new e he a b hb ha hbe
end

end Json

open Json

namespace Engine

variable {X : Crates} {x : String} {ops : List IndexOperation}

/-! ## Rows of one document -/

/-- What the payload of the operation is read as. -/
def payload (X : Crates) (o : IndexOperation) : Json := (X.fromStr o.payloadJson).getD .null

/-- Upserts of the document `x` with objects as payloads, which the index keeps as they were
    written, and no collection deltas; no two of them are different at one writetime. -/
structure Rows (X : Crates) (x : String) (ops : List IndexOperation) : Prop where
  upsert : ∀ o ∈ ops, o.type = .upsert ∧ o.id = x
  sound : ∀ o ∈ ops, SoundOp X true o
  plain : ∀ o ∈ ops, o.collectionDeltas = []
  ordered : ∀ o ∈ ops, (payload X o).Ordered
  written : ∀ o ∈ ops, X.AsWritten (payload X o)
  distinct : ∀ o ∈ ops, ∀ o' ∈ ops, o.writetime = o'.writetime → o = o'

/-- One row of a document is merged into it. -/
theorem Rows.foldStep (h : Rows X x ops) {o : IndexOperation} (ho : o ∈ ops) (body : Json) :
    foldStep X body o = mergeJson body (payload X o) := by
  rw [Engine.foldStep, h.plain o ho, applyCollectionDeltas_nil]
  rfl

theorem Rows.congr (h : Rows X x ops) {ops' : List IndexOperation}
    (hsame : ∀ o, o ∈ ops' ↔ o ∈ ops) : Rows X x ops' where
  upsert o ho := h.upsert o ((hsame o).1 ho)
  sound o ho := h.sound o ((hsame o).1 ho)
  plain o ho := h.plain o ((hsame o).1 ho)
  ordered o ho := h.ordered o ((hsame o).1 ho)
  written o ho := h.written o ((hsame o).1 ho)
  distinct o ho o' ho' := h.distinct o ((hsame o).1 ho) o' ((hsame o').1 ho')

end Engine

end Tantylla
