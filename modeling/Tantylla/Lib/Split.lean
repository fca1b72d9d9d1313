/-
  Texts joined with a separator, and split again.

  `String.splitOn` with a separator of one character is `List.splitOn` on the
  characters (`splitOn_singleton`).  Hence it undoes the join of texts just when none of
  them contains the separator (`splitOn_intercalate_iff`), and on such texts the join is
  injective (`intercalate_inj`).
-/
import Mathlib.Data.String.Basic

namespace Split

variable {c : Char}

theorem splitOnAux_eq (s : String) (b i : String.Pos.Raw) (r : List String) :
    s.splitOnAux (String.singleton c) b i 0 r = s.splitAux (· == c) b i r := by
  have hget : String.Pos.Raw.get (String.singleton c) 0 = c := by
    simpa using String.get_of_valid [] [c]
  have hnext : String.Pos.Raw.next (String.singleton c) 0 = ⟨c.utf8Size⟩ := by
    simp [String.Pos.Raw.next, hget, String.Pos.Raw.ext_iff]
  have hend : String.Pos.Raw.atEnd (String.singleton c) ⟨c.utf8Size⟩ = true := by
    simp [String.atEnd_iff, String.Pos.Raw.le_iff]
  fun_induction String.splitAux s (· == c) b i r with
  | case1 b i r h => rw [String.splitOnAux, if_pos h]
  | case2 b i r h _ hc i' ih =>
    have hprev : i'.unoffsetBy ⟨c.utf8Size⟩ = i := by
      rw [beq_iff_eq] at hc
      simp [i', String.Pos.Raw.next, hc, String.Pos.Raw.ext_iff]
    rw [String.splitOnAux, if_neg h, hget, if_pos hc, hnext, if_pos hend, ← ih]
    simp only [i'] at hprev ⊢
    rw [hprev]
  | case3 b i r h _ hc ih =>
    have hstay : i.unoffsetBy 0 = i := rfl
    rw [String.splitOnAux, if_neg h, hget, if_neg hc, hstay, ih]

/-- Splitting a text splits its characters. -/
theorem splitOn_singleton (s : String) :
    s.splitOn (String.singleton c) = (s.toList.splitOn c).map String.ofList := by
  have h : s.splitOn (String.singleton c) = s.splitToList (· == c) := by
    rw [String.splitOn, if_neg (by simp), splitOnAux_eq, String.splitToList]
  rw [h, String.splitToList_of_valid, List.splitOn]

/-- The parts of a split list do not contain the separator. -/
theorem not_mem_of_mem_splitOn {l part : List Char} (h : part ∈ l.splitOn c) : c ∉ part := by
  induction l generalizing part with
  | nil =>
    rw [List.splitOn_nil, List.mem_singleton] at h
    rw [h]
    exact List.not_mem_nil
  | cons x l ih =>
    rw [List.splitOn_cons_eq_if_modifyHead] at h
    split at h
    next =>
      rcases List.mem_cons.1 h with rfl | h
      · exact List.not_mem_nil
      · exact ih h
    next hx =>
      obtain ⟨hd, tl, htl⟩ := List.exists_cons_of_ne_nil (List.splitOn_ne_nil c l)
      rw [htl] at h ih
      rcases List.mem_cons.1 h with rfl | h
      · rw [List.mem_cons, not_or]
        refine ⟨fun hc => hx ?_, ih List.mem_cons_self⟩
        rw [hc, beq_self_eq_true]
      · exact ih (List.mem_cons_of_mem _ h)

theorem toList_intercalate_singleton (parts : List String) :
    ((String.singleton c).intercalate parts).toList =
      [c].intercalate (parts.map String.toList) := by
  rw [String.toList_intercalate, String.toList_singleton]

/-- **Splitting undoes a join of texts just when none of them contains the separator.** -/
theorem splitOn_intercalate_iff {parts : List String} (hne : parts ≠ []) :
    ((String.singleton c).intercalate parts).splitOn (String.singleton c) = parts ↔
      ∀ part ∈ parts, c ∉ part.toList := by
  rw [splitOn_singleton, toList_intercalate_singleton]
  constructor
  · intro h part hpart
    rw [← h] at hpart
    obtain ⟨l, hl, rfl⟩ := List.mem_map.1 hpart
    rw [String.toList_ofList]
    exact not_mem_of_mem_splitOn hl
  · intro h
    rw [List.splitOn_intercalate c (by simpa using h) (by simpa using hne), List.map_map]
    simp

/-- Texts that do not contain the separator are determined by their join. -/
theorem intercalate_inj {parts₁ parts₂ : List String} (hne₁ : parts₁ ≠ []) (hne₂ : parts₂ ≠ [])
    (h₁ : ∀ part ∈ parts₁, c ∉ part.toList) (h₂ : ∀ part ∈ parts₂, c ∉ part.toList)
    (h : (String.singleton c).intercalate parts₁ = (String.singleton c).intercalate parts₂) :
    parts₁ = parts₂ := by
  rw [← (splitOn_intercalate_iff hne₁).2 h₁, h, (splitOn_intercalate_iff hne₂).2 h₂]

end Split
