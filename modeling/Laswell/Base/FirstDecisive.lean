import Mathlib.Data.List.Basic

/-!
# Laswell.Base.FirstDecisive

A search down a list in which the first element that decides anything decides it all: `FirstIs d g`
says that there is such an element and that it is a good one.

* `firstIs_iff_exists`: where every deciding element is good, one good element is enough.
* `orderFree_iff`: the outcome is the same in every order exactly when the deciding elements agree.
-/

namespace Laswell
namespace Base

variable {α : Type}

/-- The first element that decides is good. -/
def FirstIs (decides good : α → Prop) : List α → Prop
  | [] => False
  | x :: xs => (decides x ∧ good x) ∨ (¬ decides x ∧ FirstIs decides good xs)

/-- The outcome does not depend on the order of the list. -/
def OrderFree (outcome : List α → Prop) (l : List α) : Prop :=
  ∀ l', l'.Perm l → (outcome l' ↔ outcome l)

variable {decides good : α → Prop}

theorem firstIs_cons_of_decides {x : α} {xs : List α} (hx : decides x) :
    FirstIs decides good (x :: xs) ↔ good x := by
  simp [FirstIs, hx]

theorem firstIs_cons_of_not {x : α} {xs : List α} (hx : ¬ decides x) :
    FirstIs decides good (x :: xs) ↔ FirstIs decides good xs := by
  simp [FirstIs, hx]

theorem FirstIs.exists {l : List α} (h : FirstIs decides good l) :
    ∃ x ∈ l, decides x ∧ good x := by
  induction l with
  | nil => exact absurd h id
  | cons x xs ih =>
    rcases h with hx | ⟨_, h⟩
    · exact ⟨x, List.mem_cons_self, hx⟩
    · obtain ⟨y, hy, hgood⟩ := ih h
      exact ⟨y, List.mem_cons_of_mem _ hy, hgood⟩

theorem firstIs_iff_exists {l : List α} (hagree : ∀ x ∈ l, decides x → good x) :
    FirstIs decides good l ↔ ∃ x ∈ l, decides x := by
  constructor
  · intro h
    obtain ⟨x, hx, hd, _⟩ := h.exists
    exact ⟨x, hx, hd⟩
  · intro h
    induction l with
    | nil =>
      obtain ⟨x, hx, _⟩ := h
      exact absurd hx List.not_mem_nil
    | cons x xs ih =>
      by_cases hx : decides x
      · exact (firstIs_cons_of_decides hx).2 (hagree x List.mem_cons_self hx)
      · rw [firstIs_cons_of_not hx]
        refine ih (fun y hy => hagree y (List.mem_cons_of_mem _ hy)) ?_
        obtain ⟨y, hy, hd⟩ := h
        rcases List.mem_cons.1 hy with rfl | hy
        · exact absurd hd hx
        · exact ⟨y, hy, hd⟩

/-- Any element of a list can be first in another order of it. -/
theorem perm_to_front {x : α} {l : List α} (h : x ∈ l) : ∃ rest, (x :: rest).Perm l := by
  obtain ⟨before, after, rfl⟩ := List.append_of_mem h
  exact ⟨before ++ after, List.perm_middle.symm⟩

theorem orderFree_iff {l : List α} : OrderFree (FirstIs decides good) l ↔
    (∀ x ∈ l, decides x → ¬ good x) ∨ (∀ x ∈ l, decides x → good x) := by
  constructor
  · -- with one of each kind, either of them can be first
    intro h
    by_contra hmixed
    push Not at hmixed
    obtain ⟨⟨x, hx, hdx, hgx⟩, y, hy, hdy, hgy⟩ := hmixed
    obtain ⟨xs, hxs⟩ := perm_to_front hx
    obtain ⟨ys, hys⟩ := perm_to_front hy
    have hyes : FirstIs decides good l := (h _ hxs).1 ((firstIs_cons_of_decides hdx).2 hgx)
    exact hgy ((firstIs_cons_of_decides hdy).1 ((h _ hys).2 hyes))
  · rintro (hnone | hall) l' hperm
    · refine iff_of_false (fun hl => ?_) (fun hl => ?_)
      · obtain ⟨x, hx, hd, hg⟩ := hl.exists
        exact hnone x (hperm.mem_iff.1 hx) hd hg
      · obtain ⟨x, hx, hd, hg⟩ := hl.exists
        exact hnone x hx hd hg
    · rw [firstIs_iff_exists hall,
        firstIs_iff_exists fun x hx => hall x (hperm.mem_iff.1 hx)]
      exact exists_congr fun x => and_congr_left' hperm.mem_iff

end Base
end Laswell
