import Mathlib.Data.List.Basic

/-!
# Laswell.Base.Lines

A text read line by line, as `getline` does: a terminator ends a line, and what follows the last
one is a line of its own unless it is empty.

* `getlines`, `unlines`: reading, and writing each line with its terminator.
* `getlines_unlines`, `getlines_append`: reading back what was written.
-/

namespace Laswell
namespace Base

variable {α : Type} {nl : α}

def getlines [DecidableEq α] (nl : α) : List α → List (List α)
  | [] => []
  | a :: s =>
    if a = nl then [] :: getlines nl s
    else
      match getlines nl s with
      | [] => [[a]]
      | line :: lines => (a :: line) :: lines

def unlines (nl : α) (lines : List (List α)) : List α := lines.flatMap fun line => line ++ [nl]

@[simp] theorem unlines_nil : unlines nl ([] : List (List α)) = [] := rfl

@[simp] theorem unlines_cons (line : List α) (lines : List (List α)) :
    unlines nl (line :: lines) = line ++ nl :: unlines nl lines := by
  simp [unlines]

variable [DecidableEq α]

/-- The first line, when it is terminated. -/
theorem getlines_append {line : List α} (h : nl ∉ line) (s : List α) :
    getlines nl (line ++ nl :: s) = line :: getlines nl s := by
  induction line with
  | nil => simp [getlines]
  | cons a line ih =>
    have ha : a ≠ nl := fun he => h (by simp [he])
    have hrest := ih fun hm => h (List.mem_cons_of_mem a hm)
    simp [getlines, ha, hrest]

theorem getlines_unlines {lines : List (List α)} (h : ∀ line ∈ lines, nl ∉ line) :
    getlines nl (unlines nl lines) = lines := by
  induction lines with
  | nil => rfl
  | cons line lines ih =>
    rw [List.forall_mem_cons] at h
    rw [unlines_cons, getlines_append h.1, ih h.2]

theorem not_mem_getlines {s line : List α} (h : line ∈ getlines nl s) : nl ∉ line := by
  induction s generalizing line with
  | nil => cases h
  | cons a s ih =>
    rw [getlines] at h
    split at h
    · rcases List.mem_cons.mp h with rfl | h
      · simp
      · exact ih h
    · next ha =>
      split at h
      · obtain rfl := List.mem_singleton.mp h
        simpa using Ne.symm ha
      · next first lines heq =>
        rw [heq] at ih
        rcases List.mem_cons.mp h with rfl | h
        · simpa [Ne.symm ha] using ih List.mem_cons_self
        · exact ih (List.mem_cons_of_mem _ h)

end Base
end Laswell
