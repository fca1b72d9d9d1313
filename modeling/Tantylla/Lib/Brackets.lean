/-
  Opening and closing elements of several interleaved streams.

  A list is paired if each opening element is followed at once by a closing one that
  matches it, and there are no other closing ones.  A list may be paired in each of its
  streams and not as a whole.  `slot` remembers the last opening element until the next
  closing one, without regard to streams; this finds a closing element's own opening one
  just when the opening and closing elements are paired as a whole (`paired_of_slots`,
  `slot_eq_own`).
-/
import Mathlib.Data.List.Basic
import Mathlib.Data.List.Induction

namespace Brackets

inductive Kind where
  | opening
  | closing
  | other
  deriving DecidableEq

variable {α κ : Type*} (kind : α → Kind) (match_ : α → α → Prop)

/-- Each opening element is followed by a closing one that matches it. -/
inductive Paired : List α → Prop
  | nil : Paired []
  | other {a : α} {l : List α} : kind a = .other → Paired l → Paired (a :: l)
  | pair {a b : α} {l : List α} : kind a = .opening → kind b = .closing → match_ a b →
      Paired l → Paired (a :: b :: l)

/-- The opening and closing elements. -/
def brackets (l : List α) : List α := l.filter fun a => kind a ≠ .other

/-- The last opening element, unless a closing one came after it. -/
def slot (l : List α) : Option α :=
  l.foldl (fun p a => match kind a with
    | .opening => some a
    | .closing => none
    | .other => p) none

/-- Every closing element finds an opening one in the slot. -/
def SlotsFull (l : List α) : Prop :=
  ∀ before b after, l = before ++ b :: after → kind b = .closing → slot kind before ≠ none

section
variable {kind match_} {a b : α} {l : List α}

/-! ## Paired lists -/

theorem paired_brackets (h : Paired kind match_ l) : Paired kind match_ (brackets kind l) := by
  induction h with
  | nil => exact .nil
  | other ha _ ih => rwa [brackets, List.filter_cons_of_neg (by simp [ha])]
  | pair ha hb hm _ ih =>
    rw [brackets, List.filter_cons_of_pos (by simp [ha]), List.filter_cons_of_pos (by simp [hb])]
    exact .pair ha hb hm ih

/-- A paired list does not start with a closing element. -/
theorem Paired.not_closing (h : Paired kind match_ (b :: l)) : kind b ≠ .closing := by
  cases h with
  | other ha => rw [ha]; nofun
  | pair ha => rw [ha]; nofun

/-- A paired list does not end with an opening element. -/
theorem Paired.not_opening {l : List α} (h : Paired kind match_ (l ++ [a])) :
    kind a ≠ .opening := by
  generalize hl : l ++ [a] = l' at h
  induction h generalizing l with
  | nil => exact absurd hl (List.append_ne_nil_of_right_ne_nil l (List.cons_ne_nil a []))
  | other hx _ ih =>
    obtain _ | ⟨x, l⟩ := l
    · cases hl
      rw [hx]
      nofun
    · exact ih (List.cons.inj hl).2
  | pair hx hy _ _ ih =>
    obtain _ | ⟨x, _ | ⟨y, l⟩⟩ := l
    · cases hl
    · cases hl
      rw [hy]
      nofun
    · exact ih (List.cons.inj (List.cons.inj hl).2).2

/-- The element before a closing one is the one it matches. -/
theorem Paired.getLast_before {before after : List α}
    (h : Paired kind match_ (before ++ b :: after)) (hb : kind b = .closing) :
    ∃ a, before.getLast? = some a ∧ kind a = .opening ∧ match_ a b := by
  generalize hl : before ++ b :: after = l at h
  induction h generalizing before with
  | nil => exact absurd hl (List.append_ne_nil_of_right_ne_nil before (List.cons_ne_nil b _))
  | @other x l hx hp ih =>
    obtain _ | ⟨y, before⟩ := before
    · cases hl
      rw [hb] at hx
      cases hx
    · obtain ⟨a, ha, hrest⟩ := ih (List.cons.inj hl).2
      exact ⟨a, by rw [List.getLast?_cons, ha, Option.getD_some], hrest⟩
  | @pair x y l hx hy hm hp ih =>
    obtain _ | ⟨x', _ | ⟨y', before⟩⟩ := before
    · cases hl
      rw [hb] at hx
      cases hx
    · cases hl
      exact ⟨x, rfl, hx, hm⟩
    · obtain ⟨a, ha, hrest⟩ := ih (List.cons.inj (List.cons.inj hl).2).2
      exact ⟨a, by rw [List.getLast?_cons, List.getLast?_cons, ha]; rfl, hrest⟩

theorem Paired.countP_eq (h : Paired kind match_ l) :
    l.countP (kind · = .opening) = l.countP (kind · = .closing) := by
  induction h with
  | nil => rfl
  | other ha _ ih => simp [ha, ih]
  | pair ha hb _ _ ih => simp [ha, hb, ih]

theorem getLast?_filter {q : α → Bool} (h : l.getLast? = some a) (ha : q a = true) :
    (l.filter q).getLast? = some a := by
  obtain ⟨init, rfl⟩ := List.getLast?_eq_some_iff.1 h
  rw [List.filter_append, List.filter_cons_of_pos ha, List.filter_nil, List.getLast?_concat]

/-! ## The slot -/

theorem slot_append_singleton : slot kind (l ++ [a]) = match kind a with
    | .opening => some a
    | .closing => none
    | .other => slot kind l := by
  rw [slot, List.foldl_append]
  rfl

/-- Only the opening and closing elements matter to the slot. -/
theorem slot_brackets (l : List α) : slot kind (brackets kind l) = slot kind l := by
  induction l using List.reverseRecOn with
  | nil => rfl
  | append_singleton l a ih =>
    rw [brackets, List.filter_append, slot_append_singleton]
    by_cases ha : kind a = .other
    · rw [List.filter_cons_of_neg (by simp [ha]), List.filter_nil, List.append_nil, ha]
      exact ih
    · rw [List.filter_cons_of_pos (by simp [ha]), List.filter_nil, slot_append_singleton]
      cases hk : kind a with
      | opening | closing => rfl
      | other => exact absurd hk ha

/-- A run of the slot, full or empty, in which no closing element finds it empty. -/
def Accepts (kind : α → Kind) : Bool → List α → Prop
  | _, [] => True
  | full, a :: l => match kind a with
    | .opening => Accepts kind true l
    | .closing => full = true ∧ Accepts kind false l
    | .other => Accepts kind full l

/-- Opening and closing elements in turns. -/
def Alternates (kind : α → Kind) : Bool → List α → Prop
  | full, [] => full = false
  | full, a :: l => match kind a with
    | .opening => full = false ∧ Alternates kind true l
    | .closing => full = true ∧ Alternates kind false l
    | .other => Alternates kind full l

/-- The slots of the opening and closing elements are full if all are. -/
theorem SlotsFull.brackets (h : SlotsFull kind l) : SlotsFull kind (Brackets.brackets kind l) := by
  intro before b after hl hb
  obtain ⟨before', after', rfl, hbefore, hafter⟩ := List.filter_eq_append_iff.1 hl
  obtain ⟨skipped, after'', rfl, hskipped, -, -⟩ := List.filter_eq_cons_iff.1 hafter
  have hslot := h (before' ++ skipped) b after'' (by simp) hb
  have hnil : Brackets.brackets kind skipped = [] := List.filter_eq_nil_iff.2 hskipped
  rw [← slot_brackets, Brackets.brackets, List.filter_append, hbefore,
    ← Brackets.brackets, hnil, List.append_nil] at hslot
  exact hslot

theorem accepts_of_slotsFull (h : SlotsFull kind l) : Accepts kind false l := by
  -- the elements before `l` set the slot
  suffices hgen : ∀ before, SlotsFull kind (before ++ l) →
      Accepts kind (slot kind before).isSome l from hgen [] h
  clear h
  intro before h
  induction l generalizing before with
  | nil => trivial
  | cons a l ih =>
    have hrest := ih (before ++ [a]) (by rwa [List.append_assoc])
    rw [slot_append_singleton] at hrest
    cases ha : kind a with
    | opening => simpa only [Accepts, ha, Option.isSome_some] using hrest
    | closing =>
      simp only [Accepts, ha] at hrest ⊢
      exact ⟨Option.isSome_iff_ne_none.2 (h before a l rfl ha), hrest⟩
    | other => simpa only [Accepts, ha] using hrest

theorem Accepts.countP_le {full : Bool} (h : Accepts kind full l) :
    l.countP (kind · = .closing) ≤ l.countP (kind · = .opening) + full.toNat := by
  induction l generalizing full with
  | nil => exact Nat.zero_le _
  | cons a l ih =>
    cases ha : kind a with
    | opening =>
      simp only [Accepts, ha] at h
      have := ih h
      simp [ha] at this ⊢
      omega
    | closing =>
      simp only [Accepts, ha] at h
      have := ih h.2
      simp [ha, h.1] at this ⊢
      omega
    | other =>
      simp only [Accepts, ha] at h
      simpa [ha] using ih h

/-- With as many opening as closing elements, none is lost from the slot. -/
theorem Accepts.alternates {full : Bool} (h : Accepts kind full l)
    (hcount : l.countP (kind · = .closing) = l.countP (kind · = .opening) + full.toNat) :
    Alternates kind full l := by
  induction l generalizing full with
  | nil => cases full <;> simp_all [Alternates]
  | cons a l ih =>
    cases ha : kind a with
    | opening =>
      simp only [Accepts, ha] at h
      have hle := h.countP_le
      simp [ha] at hcount hle
      have hfull : full = false := by
        cases full with
        | false => rfl
        | true => simp at hcount; omega
      simp only [Alternates, ha]
      refine ⟨hfull, ih h ?_⟩
      simp [hfull] at hcount ⊢
      omega
    | closing =>
      simp only [Accepts, ha] at h
      simp only [Alternates, ha]
      refine ⟨h.1, ih h.2 ?_⟩
      simp [ha, h.1] at hcount ⊢
      omega
    | other =>
      simp only [Accepts, ha] at h
      simp only [Alternates, ha]
      exact ih h (by simpa [ha] using hcount)

end

/-! ## Streams -/

section
variable {kind match_} {key : α → κ} [DecidableEq κ] {a b : α} {l : List α}

/-- Two counts that agree in each stream agree. -/
theorem countP_eq_of_streams {p q : α → Bool}
    (h : ∀ k, (l.filter (key · = k)).countP p = (l.filter (key · = k)).countP q) :
    l.countP p = l.countP q := by
  induction hn : l.length using Nat.strongRecOn generalizing l with
  | _ n ih =>
    obtain _ | ⟨a, l⟩ := l
    · rfl
    -- count the stream of the first element, and the others
    have hlt : ((a :: l).filter (key · ≠ key a)).length < n := by
      rw [← hn, List.filter_cons_of_neg (by simp)]
      exact Nat.lt_succ_of_le (List.length_filter_le _ _)
    have hothers := ih _ hlt (fun k => ?_) rfl
    · rw [List.countP_eq_countP_filter_add (a :: l) p (key · = key a),
        List.countP_eq_countP_filter_add (a :: l) q (key · = key a), h]
      simpa only [ne_eq, decide_not, Nat.add_left_cancel_iff] using hothers
    · rw [List.filter_filter]
      by_cases hk : k = key a
      · rw [List.filter_eq_nil_iff.2 (by simp [hk])]
        rfl
      · have hsame : ((a :: l).filter fun x => decide (key x = k) && decide (key x ≠ key a)) =
            (a :: l).filter (key · = k) := by
          refine List.filter_congr fun x _ => ?_
          by_cases hx : key x = k <;> simp [hx, hk]
        rw [hsame, h]

/-- Streams that are paired each, in turns, are paired as a whole. -/
theorem paired_of_alternates : ∀ {l : List α}, (∀ a ∈ l, kind a ≠ .other) →
    (∀ k, Paired kind match_ (l.filter (key · = k))) → Alternates kind false l →
    Paired kind match_ l
  | [], _, _, _ => .nil
  | [a], hother, _, h => by
    cases ha : kind a with
    | opening => simp [Alternates, ha] at h
    | closing => simp [Alternates, ha] at h
    | other => exact absurd ha (hother a List.mem_cons_self)
  | a :: b :: l, hother, hkey, h => by
    have ha : kind a = .opening := by
      cases ha : kind a with
      | opening => rfl
      | closing => simp [Alternates, ha] at h
      | other => exact absurd ha (hother a List.mem_cons_self)
    have hb : kind b = .closing := by
      cases hb : kind b with
      | opening => simp [Alternates, ha, hb] at h
      | closing => rfl
      | other => exact absurd hb (hother b (List.mem_cons_of_mem _ List.mem_cons_self))
    have hrest : Alternates kind false l := by
      simpa only [Alternates, ha, hb, true_and] using h
    -- the closing element is not the first of its stream
    have hkeys : key a = key b := by
      by_contra hne
      have hp := hkey (key b)
      rw [List.filter_cons_of_neg (by simpa using hne), List.filter_cons_of_pos (by simp)] at hp
      exact hp.not_closing hb
    have hp := hkey (key b)
    rw [List.filter_cons_of_pos (by simpa using hkeys), List.filter_cons_of_pos (by simp)] at hp
    obtain ⟨hm, hp⟩ : match_ a b ∧ Paired kind match_ (l.filter (key · = key b)) := by
      cases hp with
      | other hx => rw [ha] at hx; cases hx
      | pair _ _ hm hp => exact ⟨hm, hp⟩
    refine .pair ha hb hm (paired_of_alternates (fun x hx => hother x ?_) (fun k => ?_) hrest)
    · exact List.mem_cons_of_mem _ (List.mem_cons_of_mem _ hx)
    · by_cases hk : key b = k
      · rwa [← hk]
      · have hp' := hkey k
        rwa [List.filter_cons_of_neg (by simpa [hkeys] using hk),
          List.filter_cons_of_neg (by simpa using hk)] at hp'

theorem brackets_filter_comm (k : κ) :
    (brackets kind l).filter (key · = k) = brackets kind (l.filter (key · = k)) := by
  rw [brackets, brackets, List.filter_filter, List.filter_filter]
  exact List.filter_congr fun x _ => Bool.and_comm _ _

/-- **If each stream is paired and no closing element finds the slot empty, the opening and
    closing elements are paired as a whole.** -/
theorem paired_of_slots (hkey : ∀ k, Paired kind match_ (l.filter (key · = k)))
    (h : SlotsFull kind l) : Paired kind match_ (brackets kind l) := by
  have hkey' : ∀ k, Paired kind match_ ((brackets kind l).filter (key · = k)) := fun k => by
    rw [brackets_filter_comm]
    exact paired_brackets (hkey k)
  have hcount : (brackets kind l).countP (kind · = .closing) =
      (brackets kind l).countP (kind · = .opening) :=
    countP_eq_of_streams fun k => (hkey' k).countP_eq.symm
  have haccepts := accepts_of_slotsFull h.brackets
  exact paired_of_alternates (fun a ha => of_decide_eq_true (List.mem_filter.1 ha).2) hkey'
    (haccepts.alternates hcount)

/-- **If the opening and closing elements are paired as a whole, each closing one finds its
    own opening one, the last element of its stream.** -/
theorem slot_eq_own {before after : List α} (hmatch : ∀ a b, match_ a b → key a = key b)
    (hkey : ∀ k, Paired kind match_ (l.filter (key · = k)))
    (h : Paired kind match_ (brackets kind l)) (hl : l = before ++ b :: after)
    (hb : kind b = .closing) :
    ∃ a, slot kind before = some a ∧ (before.filter (key · = key b)).getLast? = some a ∧
      kind a = .opening ∧ match_ a b := by
  -- its own opening element is the last of its stream, ...
  have hp := hkey (key b)
  rw [hl, List.filter_append, List.filter_cons_of_pos (by simp)] at hp
  obtain ⟨a, ha, hopen, hm⟩ := hp.getLast_before hb
  -- ... the one in the slot is the last of all
  have hbr : brackets kind l = brackets kind before ++ b :: brackets kind after := by
    rw [hl, brackets, List.filter_append, List.filter_cons_of_pos (by simp [hb])]
    rfl
  rw [hbr] at h
  obtain ⟨a', ha', hopen', hm'⟩ := h.getLast_before hb
  have hsame : some a' = some a := by
    have hlast : ((brackets kind before).filter (key · = key b)).getLast? = some a' :=
      getLast?_filter ha' (decide_eq_true (hmatch a' b hm'))
    have hlast' : (brackets kind (before.filter (key · = key b))).getLast? = some a :=
      getLast?_filter ha (by simp [hopen])
    rw [← hlast, ← hlast', brackets_filter_comm]
  cases hsame
  refine ⟨a, ?_, ha, hopen, hm⟩
  obtain ⟨init, hinit⟩ := List.getLast?_eq_some_iff.1 ha'
  rw [← slot_brackets, hinit, slot_append_singleton, hopen]

end

end Brackets
