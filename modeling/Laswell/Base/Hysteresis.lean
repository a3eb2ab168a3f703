import Mathlib

/-!
# Laswell.Base.Hysteresis

A switch with two thresholds and a dwell: on after as many readings in a row at or above the high
threshold, off after as many at or below the low one. Readings are listed newest first.

* `Switch.next`: one reading, with a counter for each threshold.
* `Switch.after_above`, `after_below`: the counters are the streaks of the readings.
* `turns_on_iff`, `turns_off_iff`, `on_of_between`, `on_next_of_turned`: what the switch does.
-/

namespace Laswell
namespace Base

/-- How many of the newest readings satisfy `p`, in a row. -/
def streak {α : Type} (p : α → Bool) (xs : List α) : Nat := (xs.takeWhile p).length

@[simp] theorem streak_nil {α : Type} (p : α → Bool) : streak p [] = 0 := rfl

theorem streak_cons_pos {α : Type} {p : α → Bool} {x : α} (h : p x = true) (xs : List α) :
    streak p (x :: xs) = streak p xs + 1 := by
  simp [streak, h]

theorem streak_cons_neg {α : Type} {p : α → Bool} {x : α} (h : p x = false) (xs : List α) :
    streak p (x :: xs) = 0 := by
  simp [streak, h]

structure Thresholds (α : Type) [LinearOrder α] where
  low : α
  high : α
  dwell : Nat
  low_lt_high : low < high
  dwell_pos : 0 < dwell

structure Switch where
  above : Nat := 0
  below : Nat := 0
  on : Bool := false

section

variable {α : Type} [LinearOrder α] (th : Thresholds α)

/-- How long the readings have been at or above the high threshold. -/
def Thresholds.above (xs : List α) : Nat := streak (fun x => decide (th.high ≤ x)) xs

/-- How long they have been at or below the low one. -/
def Thresholds.below (xs : List α) : Nat := streak (fun x => decide (x ≤ th.low)) xs

def Switch.next (x : α) (s : Switch) : Switch :=
  if th.high ≤ x then
    { above := s.above + 1, below := 0, on := s.on || decide (th.dwell ≤ s.above + 1) }
  else if x ≤ th.low then
    { above := 0, below := s.below + 1, on := s.on && !decide (th.dwell ≤ s.below + 1) }
  else { above := 0, below := 0, on := s.on }

def Switch.after : List α → Switch
  | [] => {}
  | x :: xs => (after xs).next th x

variable {th}

theorem Thresholds.above_cons_pos {x : α} (h : th.high ≤ x) (xs : List α) :
    th.above (x :: xs) = th.above xs + 1 :=
  streak_cons_pos (p := fun x => decide (th.high ≤ x)) (decide_eq_true h) xs

theorem Thresholds.above_cons_neg {x : α} (h : ¬ th.high ≤ x) (xs : List α) :
    th.above (x :: xs) = 0 :=
  streak_cons_neg (p := fun x => decide (th.high ≤ x)) (decide_eq_false h) xs

theorem Thresholds.below_cons_pos {x : α} (h : x ≤ th.low) (xs : List α) :
    th.below (x :: xs) = th.below xs + 1 :=
  streak_cons_pos (p := fun x => decide (x ≤ th.low)) (decide_eq_true h) xs

theorem Thresholds.below_cons_neg {x : α} (h : ¬ x ≤ th.low) (xs : List α) :
    th.below (x :: xs) = 0 :=
  streak_cons_neg (p := fun x => decide (x ≤ th.low)) (decide_eq_false h) xs

namespace Switch

theorem next_high {x : α} (s : Switch) (h : th.high ≤ x) : s.next th x =
    { above := s.above + 1, below := 0, on := s.on || decide (th.dwell ≤ s.above + 1) } :=
  if_pos h

theorem not_high_of_low {x : α} (h : x ≤ th.low) : ¬ th.high ≤ x :=
  not_le_of_gt (lt_of_le_of_lt h th.low_lt_high)

theorem next_low {x : α} (s : Switch) (h : x ≤ th.low) : s.next th x =
    { above := 0, below := s.below + 1, on := s.on && !decide (th.dwell ≤ s.below + 1) } :=
  (if_neg (not_high_of_low h)).trans (if_pos h)

theorem next_between {x : α} (s : Switch) (hlow : th.low < x) (hhigh : x < th.high) :
    s.next th x = { above := 0, below := 0, on := s.on } :=
  (if_neg (not_le_of_gt hhigh)).trans (if_neg (not_le_of_gt hlow))

@[simp] theorem after_nil : after th ([] : List α) = {} := rfl

theorem after_cons (x : α) (xs : List α) :
    after th (x :: xs) = (after th xs).next th x := rfl

theorem after_above (xs : List α) : (after th xs).above = th.above xs := by
  induction xs with
  | nil => rfl
  | cons x xs ih =>
    by_cases hhigh : th.high ≤ x
    · rw [after_cons, next_high _ hhigh, Thresholds.above_cons_pos hhigh, ih]
    · rw [after_cons, Thresholds.above_cons_neg hhigh]
      by_cases hlow : x ≤ th.low
      · rw [next_low _ hlow]
      · rw [next_between _ (not_le.mp hlow) (not_le.mp hhigh)]

theorem after_below (xs : List α) : (after th xs).below = th.below xs := by
  induction xs with
  | nil => rfl
  | cons x xs ih =>
    by_cases hlow : x ≤ th.low
    · rw [after_cons, next_low _ hlow, Thresholds.below_cons_pos hlow, ih]
    · rw [after_cons, Thresholds.below_cons_neg hlow]
      by_cases hhigh : th.high ≤ x
      · rw [next_high _ hhigh]
      · rw [next_between _ (not_le.mp hlow) (not_le.mp hhigh)]

/-- A switch that is off has not dwelt above, and one that is on has not dwelt below. -/
theorem after_dwell (xs : List α) :
    ((after th xs).on = false → th.above xs < th.dwell) ∧
      ((after th xs).on = true → th.below xs < th.dwell) := by
  have hpos := th.dwell_pos
  cases xs with
  | nil => exact ⟨fun _ => hpos, fun h => by simp at h⟩
  | cons x xs =>
    rw [← after_above, ← after_below]
    rw [after_cons]
    by_cases hhigh : th.high ≤ x
    · simp [next_high _ hhigh, hpos]
    · by_cases hlow : x ≤ th.low
      · simp [next_low _ hlow, hpos]
      · simp [next_between _ (not_le.mp hlow) (not_le.mp hhigh), hpos]

/-- The switch turns on at the reading that completes the dwell above. -/
theorem turns_on_iff {x : α} {xs : List α} (hoff : (after th xs).on = false) :
    (after th (x :: xs)).on = true ↔ th.above (x :: xs) = th.dwell := by
  have hpos := th.dwell_pos
  have hbefore := (after_dwell xs).1 hoff
  rw [← after_above] at hbefore
  rw [← after_above]
  rw [after_cons]
  by_cases hhigh : th.high ≤ x
  · simp only [next_high _ hhigh, hoff, Bool.false_or, decide_eq_true_eq]
    omega
  · by_cases hlow : x ≤ th.low
    · simp only [next_low _ hlow, hoff, Bool.false_and, Bool.false_eq_true, false_iff]
      omega
    · simp only [next_between _ (not_le.mp hlow) (not_le.mp hhigh), hoff, Bool.false_eq_true,
        false_iff]
      omega

/-- It turns off at the reading that completes the dwell below. -/
theorem turns_off_iff {x : α} {xs : List α} (hon : (after th xs).on = true) :
    (after th (x :: xs)).on = false ↔ th.below (x :: xs) = th.dwell := by
  have hpos := th.dwell_pos
  have hbefore := (after_dwell xs).2 hon
  rw [← after_below] at hbefore
  rw [← after_below]
  rw [after_cons]
  by_cases hhigh : th.high ≤ x
  · simp only [next_high _ hhigh, hon, Bool.true_or, Bool.true_eq_false, false_iff]
    omega
  · by_cases hlow : x ≤ th.low
    · simp only [next_low _ hlow, hon, Bool.true_and, Bool.not_eq_false', decide_eq_true_eq]
      omega
    · simp only [next_between _ (not_le.mp hlow) (not_le.mp hhigh), hon, Bool.true_eq_false,
        false_iff]
      omega

theorem on_of_between {x : α} {xs : List α} (hlow : th.low < x) (hhigh : x < th.high) :
    (after th (x :: xs)).on = (after th xs).on := by
  rw [after_cons, next_between _ hlow hhigh]

/-- A reading that turns the switch is not followed by one that turns it back. -/
theorem on_next_of_turned {x y : α} {xs : List α} (hdwell : 2 ≤ th.dwell)
    (hturned : (after th (x :: xs)).on ≠ (after th xs).on) :
    (after th (y :: x :: xs)).on = (after th (x :: xs)).on := by
  -- the reading that turned it is on the far side of the other threshold, so that streak is new
  cases hon : (after th (x :: xs)).on with
  | true =>
    have hoff : (after th xs).on = false := by simpa [hon] using hturned.symm
    have habove : th.above (x :: xs) = th.dwell := (turns_on_iff hoff).mp hon
    have hhigh : th.high ≤ x := by
      by_contra hlow
      rw [Thresholds.above_cons_neg hlow] at habove
      omega
    have hstart : th.below (x :: xs) = 0 :=
      Thresholds.below_cons_neg (not_le_of_gt (lt_of_lt_of_le th.low_lt_high hhigh)) xs
    have hnext : th.below (y :: x :: xs) ≠ th.dwell := by
      intro hd
      by_cases hy : y ≤ th.low
      · rw [Thresholds.below_cons_pos hy, hstart] at hd
        omega
      · rw [Thresholds.below_cons_neg hy] at hd
        omega
    exact eq_true_of_ne_false fun h => hnext ((turns_off_iff hon).mp h)
  | false =>
    have hwas : (after th xs).on = true := by simpa [hon] using hturned.symm
    have hbelow : th.below (x :: xs) = th.dwell := (turns_off_iff hwas).mp hon
    have hlow : x ≤ th.low := by
      by_contra hhigh
      rw [Thresholds.below_cons_neg hhigh] at hbelow
      omega
    have hstart : th.above (x :: xs) = 0 :=
      Thresholds.above_cons_neg (not_le_of_gt (lt_of_le_of_lt hlow th.low_lt_high)) xs
    have hnext : th.above (y :: x :: xs) ≠ th.dwell := by
      intro hd
      by_cases hy : th.high ≤ y
      · rw [Thresholds.above_cons_pos hy, hstart] at hd
        omega
      · rw [Thresholds.above_cons_neg hy] at hd
        omega
    exact eq_false_of_ne_true fun h => hnext ((turns_on_iff hon).mp h)

end Switch

end

end Base
end Laswell
