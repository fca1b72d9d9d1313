/-
  JSON values (`serde_json::Value`).

  Objects are `BTreeMap`s: their entries are listed in increasing key order, and
  every operation below keeps that order.  A number is an integer (an `i64` or a
  `u64` in the crate) or a finite double, given by its bits; negative zero, which
  the crate holds equal to zero, is read as zero.
-/
import Tantylla.Lib.OrdMap
import Mathlib.Data.String.Basic

namespace Tantylla

/-- `i64::MIN` -/
abbrev i64Min : ℤ := -9223372036854775808
/-- `i64::MAX` -/
abbrev i64Max : ℤ := 9223372036854775807
/-- `u64::MAX` -/
abbrev u64Max : ℕ := 18446744073709551615

/-- A JSON number. -/
inductive Number where
  | int (n : ℤ)
  | float (bits : UInt64)
  deriving DecidableEq

/-- A JSON value. -/
inductive Json where
  | null
  | bool (b : Bool)
  | num (n : Number)
  | str (s : String)
  | arr (xs : List Json)
  | obj (m : List (String × Json))

namespace Json

mutual
/-- Equality of values is decidable (the crate's `==`). -/
def decEq : (a b : Json) → Decidable (a = b)
  | .null, .null => isTrue rfl
  | .bool a, .bool b => if h : a = b then isTrue (by rw [h]) else isFalse (by simp [h])
  | .num a, .num b => if h : a = b then isTrue (by rw [h]) else isFalse (by simp [h])
  | .str a, .str b => if h : a = b then isTrue (by rw [h]) else isFalse (by simp [h])
  | .arr a, .arr b => match decEqList a b with
    | isTrue h => isTrue (by rw [h])
    | isFalse h => isFalse (by simp [h])
  | .obj a, .obj b => match decEqFields a b with
    | isTrue h => isTrue (by rw [h])
    | isFalse h => isFalse (by simp [h])
  | .null, .bool _ | .null, .num _ | .null, .str _ | .null, .arr _ | .null, .obj _
  | .bool _, .null | .bool _, .num _ | .bool _, .str _ | .bool _, .arr _ | .bool _, .obj _
  | .num _, .null | .num _, .bool _ | .num _, .str _ | .num _, .arr _ | .num _, .obj _
  | .str _, .null | .str _, .bool _ | .str _, .num _ | .str _, .arr _ | .str _, .obj _
  | .arr _, .null | .arr _, .bool _ | .arr _, .num _ | .arr _, .str _ | .arr _, .obj _
  | .obj _, .null | .obj _, .bool _ | .obj _, .num _ | .obj _, .str _ | .obj _, .arr _ =>
    isFalse (by simp)

def decEqList : (a b : List Json) → Decidable (a = b)
  | [], [] => isTrue rfl
  | x :: xs, y :: ys => match decEq x y, decEqList xs ys with
    | isTrue h₁, isTrue h₂ => isTrue (by rw [h₁, h₂])
    | isFalse h, _ => isFalse (by simp [h])
    | _, isFalse h => isFalse (by simp [h])
  | [], _ :: _ | _ :: _, [] => isFalse (by simp)

def decEqFields : (a b : List (String × Json)) → Decidable (a = b)
  | [], [] => isTrue rfl
  | (k, x) :: xs, (l, y) :: ys =>
    if h : k = l then match decEq x y, decEqFields xs ys with
      | isTrue h₁, isTrue h₂ => isTrue (by rw [h, h₁, h₂])
      | isFalse h, _ => isFalse (by simp [h])
      | _, isFalse h => isFalse (by simp [h])
    else isFalse (by simp [h])
  | [], _ :: _ | _ :: _, [] => isFalse (by simp)
end

instance : DecidableEq Json := decEq

/-! ## Reading a value (`Value::get`, `Value::as_array`, …) -/

def get (k : String) : Json → Option Json
  | .obj m => OrdMap.find k m
  | _ => none

def asArray : Json → Option (List Json)
  | .arr xs => some xs
  | _ => none

def asStr : Json → Option String
  | .str s => some s
  | _ => none

def asU64 : Json → Option ℕ
  | .num (.int n) => if 0 ≤ n ∧ n ≤ u64Max then some n.toNat else none
  | _ => none

def asI64 : Json → Option ℤ
  | .num (.int n) => if i64Min ≤ n ∧ n ≤ i64Max then some n else none
  | _ => none

/-- The value is an object that holds all the keys `ks`. -/
def HasKeys (ks : List String) (j : Json) : Prop :=
  ∃ m, j = .obj m ∧ ∀ k ∈ ks, (OrdMap.find k m).isSome

/-- The value is an object. -/
def IsObj (j : Json) : Prop := ∃ m, j = .obj m

theorem HasKeys.isObj {ks : List String} {j : Json} (h : HasKeys ks j) : IsObj j :=
  let ⟨m, hm, _⟩ := h
  ⟨m, hm⟩

/-! ## The texts of a value -/

mutual
/-- The value with each of its texts changed by `f`; the keys of objects stay. -/
def mapText (f : String → String) : Json → Json
  | .str s => .str (f s)
  | .arr xs => .arr (mapTextList f xs)
  | .obj m => .obj (mapTextFields f m)
  | .null => .null
  | .bool b => .bool b
  | .num n => .num n

def mapTextList (f : String → String) : List Json → List Json
  | [] => []
  | x :: xs => mapText f x :: mapTextList f xs

def mapTextFields (f : String → String) : List (String × Json) → List (String × Json)
  | [] => []
  | (k, x) :: m => (k, mapText f x) :: mapTextFields f m
end

section
variable {f : String → String}

mutual
theorem mapText_eq_self (h : ∀ s, f s = s) : ∀ j, mapText f j = j
  | .str s => congrArg Json.str (h s)
  | .arr xs => congrArg Json.arr (mapTextList_eq_self h xs)
  | .obj m => congrArg Json.obj (mapTextFields_eq_self h m)
  | .null | .bool _ | .num _ => rfl

theorem mapTextList_eq_self (h : ∀ s, f s = s) : ∀ xs, mapTextList f xs = xs
  | [] => rfl
  | x :: xs => congrArg₂ List.cons (mapText_eq_self h x) (mapTextList_eq_self h xs)

theorem mapTextFields_eq_self (h : ∀ s, f s = s) : ∀ m, mapTextFields f m = m
  | [] => rfl
  | (k, x) :: m => congrArg₂ (fun x m => (k, x) :: m) (mapText_eq_self h x)
      (mapTextFields_eq_self h m)
end

mutual
/-- If a text changes once only, so does a value. -/
theorem mapText_twice (h : ∀ s, f (f s) = f s) : ∀ j, mapText f (mapText f j) = mapText f j
  | .str s => congrArg Json.str (h s)
  | .arr xs => congrArg Json.arr (mapTextList_twice h xs)
  | .obj m => congrArg Json.obj (mapTextFields_twice h m)
  | .null | .bool _ | .num _ => rfl

theorem mapTextList_twice (h : ∀ s, f (f s) = f s) :
    ∀ xs, mapTextList f (mapTextList f xs) = mapTextList f xs
  | [] => rfl
  | x :: xs => congrArg₂ List.cons (mapText_twice h x) (mapTextList_twice h xs)

theorem mapTextFields_twice (h : ∀ s, f (f s) = f s) :
    ∀ m, mapTextFields f (mapTextFields f m) = mapTextFields f m
  | [] => rfl
  | (k, x) :: m => congrArg₂ (fun x m => (k, x) :: m) (mapText_twice h x)
      (mapTextFields_twice h m)
end

theorem mapTextFields_eq_map (m : List (String × Json)) :
    mapTextFields f m = m.map fun e => (e.1, mapText f e.2) := by
  induction m with
  | nil => rfl
  | cons e m ih => rw [mapTextFields, ih, List.map_cons]

theorem find_mapTextFields (k : String) (m : List (String × Json)) :
    OrdMap.find k (mapTextFields f m) = (OrdMap.find k m).map (mapText f) := by
  induction m with
  | nil => rfl
  | cons e m ih =>
    obtain ⟨l, x⟩ := e
    rw [mapTextFields, OrdMap.find, OrdMap.find, ih]
    split_ifs <;> rfl

theorem get_mapText (k : String) (j : Json) :
    (mapText f j).get k = (j.get k).map (mapText f) := by
  cases j with
  | obj m => exact find_mapTextFields k m
  | null | bool _ | num _ | str _ | arr _ => rfl

theorem HasKeys.mapText {ks : List String} {j : Json} (h : HasKeys ks j) :
    HasKeys ks (Json.mapText f j) := by
  obtain ⟨m, rfl, hm⟩ := h
  refine ⟨mapTextFields f m, rfl, fun k hk => ?_⟩
  rw [find_mapTextFields, Option.isSome_map]
  exact hm k hk

end

end Json

end Tantylla
