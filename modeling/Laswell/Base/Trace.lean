import Mathlib.Data.List.Basic

/-!
# Laswell.Base.Trace

Logs, newest entry first: `later ++ e :: earlier` is a log in which `e` came after `earlier`.

* `Along P log`: `P` holds of every entry and what came before it.
* `Follows a b log`: `b` is in the log, and `a` before it.
-/

namespace Laswell
namespace Base

variable {α : Type} {P : α → List α → Prop} {a b e : α} {log : List α}

def Along (P : α → List α → Prop) (log : List α) : Prop :=
  ∀ later e earlier, log = later ++ e :: earlier → P e earlier

theorem along_nil : Along P [] := by
  intro later e earlier h
  simp at h

theorem Along.cons (h : Along P log) (he : P e log) : Along P (e :: log) := by
  intro later e' earlier heq
  cases later with
  | nil =>
    obtain ⟨rfl, rfl⟩ := List.cons.inj heq
    exact he
  | cons x later => exact h later e' earlier (List.cons.inj heq).2

def Follows (a b : α) (log : List α) : Prop :=
  ∃ later earlier, log = later ++ b :: earlier ∧ a ∈ earlier

theorem follows_now (h : a ∈ log) : Follows a b (b :: log) := ⟨[], log, rfl, h⟩

theorem Follows.cons (h : Follows a b log) (e : α) : Follows a b (e :: log) := by
  obtain ⟨later, earlier, rfl, ha⟩ := h
  exact ⟨e :: later, earlier, rfl, ha⟩

end Base
end Laswell
