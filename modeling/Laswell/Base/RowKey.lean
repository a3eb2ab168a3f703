import Mathlib.Order.Fin.Basic
import Mathlib.Order.PiLex

/-!
# Laswell.Base.RowKey

Rows of several columns, compared as SQL compares them: by the first column they differ in.
-/

namespace Laswell
namespace Base

/-- A row of values, none of them NULL. -/
structure RowKey {n : Nat} (α : Fin n → Type) where
  column : ∀ i, α i

namespace RowKey

variable {n : Nat} {α : Fin n → Type}

@[ext] theorem ext {x y : RowKey α} (h : ∀ i, x.column i = y.column i) : x = y := by
  cases x
  cases y
  exact congrArg mk (funext h)

theorem eq_iff_toLex {x y : RowKey α} : x = y ↔ toLex x.column = toLex y.column :=
  ⟨fun h => by rw [h], fun h => ext (congrFun (toLex_inj.mp h))⟩

instance [∀ i, DecidableEq (α i)] : DecidableEq (RowKey α) := fun x y =>
  decidable_of_iff (∀ i, x.column i = y.column i) ⟨ext, fun h i => by rw [h]⟩

variable [∀ i, LinearOrder (α i)]

instance : LT (RowKey α) :=
  ⟨fun x y => ∃ i, (∀ j < i, x.column j = y.column j) ∧ x.column i < y.column i⟩

instance : LE (RowKey α) := ⟨fun x y => x = y ∨ x < y⟩

instance : DecidableLT (RowKey α) := fun x y =>
  inferInstanceAs (Decidable (∃ i, (∀ j < i, x.column j = y.column j) ∧ x.column i < y.column i))

instance : DecidableLE (RowKey α) := fun x y => inferInstanceAs (Decidable (x = y ∨ x < y))

theorem le_iff_toLex {x y : RowKey α} : x ≤ y ↔ toLex x.column ≤ toLex y.column := by
  rw [le_iff_eq_or_lt, ← eq_iff_toLex]
  rfl

instance : LinearOrder (RowKey α) where
  le_refl _ := .inl rfl
  le_trans x y z := by simpa only [le_iff_toLex] using le_trans
  lt_iff_le_not_ge x y := by
    rw [le_iff_toLex, le_iff_toLex, ← lt_iff_le_not_ge]
    rfl
  le_antisymm x y h h' :=
    eq_iff_toLex.mpr (le_antisymm (le_iff_toLex.mp h) (le_iff_toLex.mp h'))
  le_total x y := by simpa only [le_iff_toLex] using le_total _ _
  toDecidableLE := inferInstance
  toDecidableLT := inferInstance
  toDecidableEq := inferInstance

end RowKey

end Base
end Laswell
