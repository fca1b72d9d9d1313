/-
  A log that is resumed from earlier positions.

  A reader of a log may fall back to an earlier position and run the log again from there.
  `Resuming` is where a state has come that began at `r`: at `pos`, having run all of the
  log from `since` on in one go, and never beyond `furthest`.  If the log replays, what has
  fallen back catches up: `Resuming.caught_up` says that a state which has come as far as any
  before it is that of a run without a step back.
-/
import Tantylla.Lib.Run
import Mathlib.Data.List.Nodup

namespace Run

variable {σ ε : Type*} {step : σ → ε → σ} {log : List ε} {r s : σ} {i j k : ℕ}

/-- The part of a log from the position `i` up to `j`. -/
def part (log : List ε) (i j : ℕ) : List ε := (log.drop i).take (j - i)

theorem part_self : part log i i = [] := by rw [part, Nat.sub_self, List.take_zero]

theorem part_append (hij : i ≤ j) (hjk : j ≤ k) :
    part log i j ++ part log j k = part log i k := by
  have hdrop : log.drop j = (log.drop i).drop (j - i) := by
    rw [List.drop_drop, Nat.add_sub_cancel' hij]
  have hlength : k - i = (j - i) + (k - j) := by omega
  rw [part, part, part, hdrop, hlength, ← List.take_add]

theorem part_append_drop (hij : i ≤ j) : part log i j ++ log.drop j = log.drop i := by
  have hdrop : log.drop j = (log.drop i).drop (j - i) := by
    rw [List.drop_drop, Nat.add_sub_cancel' hij]
  rw [part, hdrop, List.take_append_drop]

theorem length_part (hj : j ≤ log.length) : (part log i j).length = j - i := by
  rw [part, List.length_take, List.length_drop]
  omega

theorem eq_of_part_eq_nil (hij : i ≤ j) (hj : j ≤ log.length) (h : part log i j = []) :
    i = j := by
  have hlength := length_part (i := i) hj
  rw [h, List.length_nil] at hlength
  omega

/-- What follows a position of the log is a part of it. -/
theorem eq_part_of_prefix_drop {l : List ε} (h : l <+: log.drop i) :
    l = part log i (i + l.length) := by
  rw [part, Nat.add_sub_cancel_left]
  exact List.prefix_iff_eq_take.1 h

/-- An entry of a log without repeats is in the parts that contain its position. -/
theorem getElem_mem_part_iff (hnodup : log.Nodup) (hj : j < log.length) :
    log[j] ∈ part log i k ↔ i ≤ j ∧ j < k := by
  rw [part, List.mem_take_iff_getElem]
  simp only [List.length_drop, List.getElem_drop, hnodup.getElem_inj_iff]
  constructor
  · rintro ⟨m, hm, rfl⟩
    omega
  · intro h
    exact ⟨j - i, by omega, by omega⟩

/-- Each part of the log, run twice, does what it does when it is run once. -/
def Replays (step : σ → ε → σ) (log : List ε) : Prop :=
  ∀ i j s, exec step (exec step s (part log i j)) (part log i j) = exec step s (part log i j)

/-- A run of parts of the log has come from `r` to `s`, at the position `pos` of the log, and
    not beyond `furthest` on its way; it has not fallen back since it was at `since`. -/
structure Resuming (step : σ → ε → σ) (log : List ε) (r : σ) (since pos furthest : ℕ) (s : σ) :
    Prop where
  since_le : since ≤ pos
  pos_le : pos ≤ furthest
  last : ∃ u, exec step u (part log since pos) = s
  ahead : ∀ j, furthest ≤ j → exec step s (part log pos j) = exec step r (log.take j)

variable {since pos furthest : ℕ}

theorem resuming_start : Resuming step log r 0 0 0 r :=
  ⟨Nat.le_refl _, Nat.le_refl _, ⟨r, rfl⟩, fun _ _ => rfl⟩

/-- What was run last may be run again. -/
theorem Resuming.again (h : Resuming step log r since pos furthest s) (hlog : Replays step log)
    (hi : since ≤ i) (hpos : i ≤ pos) : exec step s (part log i pos) = s := by
  obtain ⟨u, rfl⟩ := h.last
  rw [← part_append hi hpos, exec_append]
  exact hlog i pos _

/-- The log is run on. -/
theorem Resuming.next (h : Resuming step log r since pos furthest s) (hj : pos ≤ j) :
    Resuming step log r since j (max furthest j) (exec step s (part log pos j)) where
  since_le := Nat.le_trans h.since_le hj
  pos_le := Nat.le_max_right ..
  last := by
    obtain ⟨u, rfl⟩ := h.last
    exact ⟨u, by rw [← exec_append, part_append h.since_le hj]⟩
  ahead k hk := by
    obtain ⟨hfurthest, hjk⟩ := Nat.max_le.1 hk
    rw [← exec_append, part_append hj hjk]
    exact h.ahead k hfurthest

/-- **A step back**, not before `since`, and a run from there. -/
theorem Resuming.back (h : Resuming step log r since pos furthest s) (hlog : Replays step log)
    (hi : since ≤ i) (hpos : i ≤ pos) (hj : i ≤ j) :
    Resuming step log r i j (max furthest j) (exec step s (part log i j)) where
  since_le := hj
  pos_le := Nat.le_max_right ..
  last := ⟨s, rfl⟩
  ahead k hk := by
    obtain ⟨hfurthest, hjk⟩ := Nat.max_le.1 hk
    have hk : pos ≤ k := Nat.le_trans h.pos_le hfurthest
    rw [← exec_append, part_append hj hjk, ← part_append hpos hk, exec_append,
      h.again hlog hi hpos]
    exact h.ahead k hfurthest

/-- **What has fallen back and caught up** is as if it had not fallen back. -/
theorem Resuming.caught_up (h : Resuming step log r since pos furthest s)
    (hpos : furthest ≤ pos) : s = exec step r (log.take pos) := by
  have hahead := h.ahead pos hpos
  rwa [part_self] at hahead

end Run
