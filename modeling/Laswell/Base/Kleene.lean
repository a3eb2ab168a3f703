import Mathlib.Data.Option.Basic
import Mathlib.Order.Defs.LinearOrder

/-!
# Laswell.Base.Kleene

SQL's logic of three values: a comparison with NULL is neither true nor false. A WHERE keeps a row
whose condition is true; a CHECK admits a row whose condition is not false.

* `both`, `either`, `inList`: AND, OR and IN.
* `passes_both`, `passes_either`, `passes_inList`: a CHECK over each, taken apart.
* `Holds`: the same for a WHERE.
-/

namespace Laswell
namespace Base

/-- `none` is NULL. -/
abbrev Truth := Option Bool

def both : Truth → Truth → Truth
  | some false, _ => some false
  | _, some false => some false
  | some true, some true => some true
  | _, _ => none

def either : Truth → Truth → Truth
  | some true, _ => some true
  | _, some true => some true
  | some false, some false => some false
  | _, _ => none

/-- What a CHECK asks of a row. -/
def Passes (b : Truth) : Prop := b ≠ some false

/-- What a WHERE asks of a row. -/
def Holds (b : Truth) : Prop := b = some true

instance (b : Truth) : Decidable (Passes b) := inferInstanceAs (Decidable (b ≠ some false))

instance (b : Truth) : Decidable (Holds b) := inferInstanceAs (Decidable (b = some true))

theorem passes_both (a b : Truth) : Passes (both a b) ↔ Passes a ∧ Passes b := by
  rcases a with _ | _ | _ <;> rcases b with _ | _ | _ <;> simp [Passes, both]

theorem passes_either (a b : Truth) : Passes (either a b) ↔ Passes a ∨ Passes b := by
  rcases a with _ | _ | _ <;> rcases b with _ | _ | _ <;> simp [Passes, either]

theorem holds_either (a b : Truth) : Holds (either a b) ↔ Holds a ∨ Holds b := by
  rcases a with _ | _ | _ <;> rcases b with _ | _ | _ <;> simp [Holds, either]

section Comparison

variable {V : Type}

/-- A comparison of two values, either of which may be NULL. -/
def compared (op : V → V → Bool) : Option V → Option V → Truth
  | some x, some y => some (op x y)
  | _, _ => none

@[simp] theorem passes_compared_values (op : V → V → Bool) (x y : V) :
    Passes (compared op (some x) (some y)) ↔ op x y = true := by
  simp [Passes, compared]

@[simp] theorem passes_compared_null_left (op : V → V → Bool) (y : Option V) :
    Passes (compared op none y) := by
  simp [Passes, compared]

@[simp] theorem passes_compared_null_right (op : V → V → Bool) (x : Option V) :
    Passes (compared op x none) := by
  cases x <;> simp [Passes, compared]

variable [DecidableEq V]

def equals : Option V → Option V → Truth := compared fun x y => decide (x = y)

/-- `x IN (..)` -/
def inList (x : Option V) : List (Option V) → Truth
  | [] => some false
  | y :: ys => either (equals x y) (inList x ys)

theorem passes_inList (x : Option V) (ys : List (Option V)) :
    Passes (inList x ys) ↔ ∃ y ∈ ys, Passes (equals x y) := by
  induction ys with
  | nil => simp [inList, Passes]
  | cons y ys ih =>
    rw [inList, passes_either, ih]
    simp

theorem holds_equals (x y : Option V) : Holds (equals x y) ↔ ∃ v, x = some v ∧ y = some v := by
  cases x with
  | none => simp [Holds, equals, compared]
  | some a =>
    cases y with
    | none => simp [Holds, equals, compared]
    | some b => simp [Holds, equals, compared, eq_comm]

theorem holds_inList (x : Option V) (ys : List (Option V)) :
    Holds (inList x ys) ↔ ∃ y ∈ ys, Holds (equals x y) := by
  induction ys with
  | nil => simp [inList, Holds]
  | cons y ys ih =>
    rw [inList, holds_either, ih]
    simp

/-- A value is in a list, as far as a CHECK can tell, if it is one of them or one is NULL. -/
theorem passes_inList_value (x : V) (ys : List (Option V)) :
    Passes (inList (some x) ys) ↔ some x ∈ ys ∨ none ∈ ys := by
  rw [passes_inList]
  constructor
  · rintro ⟨y, hy, hp⟩
    cases y with
    | none => exact .inr hy
    | some y =>
      rw [equals, passes_compared_values, decide_eq_true_eq] at hp
      exact .inl (hp ▸ hy)
  · rintro (hx | hnull)
    · exact ⟨some x, hx, by simp [equals]⟩
    · exact ⟨none, hnull, by simp [equals]⟩

end Comparison

end Base
end Laswell
