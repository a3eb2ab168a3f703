import Mathlib.Data.List.Basic

/-!
# Laswell.Base.Copies

A list with each element repeated as often as a join finds it, beside the elements that were meant.

* `copies_eq_filter`: with each of them there once and no others, the two lists are the same.
* `copies_perm_iff`: and where each is there at least once, nothing else makes them agree, not even
  up to order and in what a function shows of the elements.
-/

namespace Laswell
namespace Base

variable {α β : Type}

def copies (n : α → Nat) (l : List α) : List α := l.flatMap fun a => List.replicate (n a) a

variable {n : α → Nat} {p : α → Bool}

theorem copies_cons (a : α) (l : List α) :
    copies n (a :: l) = List.replicate (n a) a ++ copies n l := rfl

theorem copies_eq_filter {l : List α} (h : ∀ a ∈ l, n a = if p a then 1 else 0) :
    copies n l = l.filter p := by
  induction l with
  | nil => rfl
  | cons a l ih =>
    rw [copies_cons, ih fun b hb => h b (List.mem_cons_of_mem _ hb), h a List.mem_cons_self]
    cases hp : p a with
    | false => simp [hp]
    | true => simp [hp]

theorem length_filter_le {l : List α} (hle : ∀ a ∈ l, p a = true → 1 ≤ n a) :
    (l.filter p).length ≤ (copies n l).length := by
  induction l with
  | nil => exact Nat.le_refl 0
  | cons a l ih =>
    have hl := ih fun b hb => hle b (List.mem_cons_of_mem _ hb)
    rw [copies_cons, List.length_append, List.length_replicate, List.filter_cons]
    split
    · rename_i hp
      have ha := hle a List.mem_cons_self hp
      rw [List.length_cons]
      omega
    · omega

/-- As many copies as elements that were meant: then none is there twice, and no other at all. -/
theorem eq_of_length_copies {l : List α} (hle : ∀ a ∈ l, p a = true → 1 ≤ n a)
    (h : (copies n l).length ≤ (l.filter p).length) : ∀ a ∈ l, n a = if p a then 1 else 0 := by
  induction l with
  | nil => exact fun a ha => absurd ha List.not_mem_nil
  | cons a l ih =>
    have hrest : ∀ b ∈ l, p b = true → 1 ≤ n b := fun b hb => hle b (List.mem_cons_of_mem _ hb)
    have hmeant := length_filter_le hrest
    rw [copies_cons, List.length_append, List.length_replicate, List.filter_cons] at h
    intro b hb
    cases hp : p a with
    | true =>
      have ha := hle a List.mem_cons_self hp
      rw [if_pos hp, List.length_cons] at h
      rcases List.mem_cons.1 hb with rfl | hb
      · rw [if_pos hp]
        omega
      · exact ih hrest (by omega) b hb
    | false =>
      rw [if_neg (by simp [hp])] at h
      rcases List.mem_cons.1 hb with rfl | hb
      · rw [if_neg (by simp [hp])]
        omega
      · exact ih hrest (by omega) b hb

theorem copies_perm_iff {f : α → β} {l : List α} (hle : ∀ a ∈ l, p a = true → 1 ≤ n a) :
    ((copies n l).map f).Perm ((l.filter p).map f) ↔
      ∀ a ∈ l, n a = if p a then 1 else 0 := by
  constructor
  · intro h
    have hlength := h.length_eq
    rw [List.length_map, List.length_map] at hlength
    exact eq_of_length_copies hle (Nat.le_of_eq hlength)
  · intro h
    rw [copies_eq_filter h]

end Base
end Laswell
