import Mathlib.Data.Option.Basic
import Mathlib.Data.Set.List
import Mathlib.Order.Defs.LinearOrder

/-!
# Laswell.Base.Nullable

SQL's comparison of a row that may hold NULLs with a row of values. It goes column by column up to
the first that differs, and a NULL met on the way leaves it unknown.
-/

namespace Laswell
namespace Base

variable {V : Type} [LinearOrder V]

/-- `(x1, x2, …) > (y1, y2, …)`: `none` where SQL answers NULL. -/
def rowGreater : List (Option V) → List V → Option Bool
  | none :: _, _ :: _ => none
  | some x :: xs, y :: ys => if x = y then rowGreater xs ys else some (decide (y < x))
  | _, _ => some false

/-- Without NULLs it is the lexicographic order. -/
theorem rowGreater_values (xs : List V) :
    ∀ ys : List V, ys.length = xs.length →
      rowGreater (xs.map some) ys = some (decide (ys < xs)) := by
  induction xs with
  | nil =>
    intro ys hlength
    obtain rfl := List.length_eq_zero_iff.mp hlength
    simp [rowGreater]
  | cons x xs ih =>
    intro ys hlength
    cases ys with
    | nil => simp at hlength
    | cons y ys =>
      have hrest := ih ys (by simpa using hlength)
      by_cases hxy : x = y
      · subst hxy
        simp [rowGreater, hrest]
      · simp [rowGreater, hxy, List.cons_lt_cons_iff, Ne.symm hxy]

/-- The cursor that agrees with a row up to its NULL compares with it as unknown. -/
theorem rowGreater_null (v : V) (row : List (Option V)) (hnull : none ∈ row) :
    rowGreater row (row.map (·.getD v)) = none := by
  induction row with
  | nil => simp at hnull
  | cons x row ih =>
    cases x with
    | none => rfl
    | some x =>
      have hrest : none ∈ row := by simpa using hnull
      simp [rowGreater, ih hrest]

/-- Every cursor compares with a row exactly when the row holds no NULL. -/
theorem rowGreater_known_iff [Nonempty V] (row : List (Option V)) :
    (∀ cursor : List V, cursor.length = row.length → rowGreater row cursor ≠ none) ↔
      none ∉ row := by
  constructor
  · intro hknown hnull
    obtain ⟨v⟩ := ‹Nonempty V›
    exact hknown _ (List.length_map _) (rowGreater_null v row hnull)
  · intro hvalues cursor hlength
    have hrow : row ∈ Set.range (List.map some) := by
      rw [Set.range_list_map]
      intro x hx
      exact Option.ne_none_iff_exists.mp fun h => hvalues (h ▸ hx)
    obtain ⟨xs, rfl⟩ := hrow
    rw [rowGreater_values xs cursor (by simpa using hlength)]
    simp

end Base
end Laswell
