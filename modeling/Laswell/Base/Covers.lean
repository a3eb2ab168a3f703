import Mathlib.Data.List.Basic

/-!
# Laswell.Base.Covers

A map kept in the order of its keys beside a partial function it stands for: the map has a member
where the function has a value, and the two are related.

* `Covers`: member by member, up to a relation.
* `Covers.insert`, `Covers.erase`, `Covers.moveTo`: an update on both sides.
* `Covers.setAll`: one value for the keys of a list, on both sides.
-/

namespace Laswell

variable {κ α β : Type} [Ord κ]

def Covers (R : α → β → Prop) (m : Std.TreeMap κ α) (f : κ → Option β) : Prop :=
  ∀ k, Option.Rel R m[k]? (f k)

namespace Covers

variable {R : α → β → Prop} {m : Std.TreeMap κ α} {f : κ → Option β}

theorem empty : Covers R (∅ : Std.TreeMap κ α) fun _ => none := by
  intro k
  exact .none

theorem none_iff (h : Covers R m f) (k : κ) : m[k]? = none ↔ f k = none := by
  have hk := h k
  cases hm : m[k]? <;> cases hf : f k <;> simp [hm, hf] at hk ⊢

theorem of_some (h : Covers R m f) {k : κ} {a : α} (hm : m[k]? = some a) :
    ∃ b, f k = some b ∧ R a b := by
  have hk := h k
  rw [hm] at hk
  cases hf : f k with
  | none => rw [hf] at hk; cases hk
  | some b => rw [hf] at hk; cases hk with | some hr => exact ⟨b, rfl, hr⟩

theorem of_value (h : Covers R m f) {k : κ} {b : β} (hf : f k = some b) :
    ∃ a, m[k]? = some a ∧ R a b := by
  have hk := h k
  rw [hf] at hk
  cases hm : m[k]? with
  | none => rw [hm] at hk; cases hk
  | some a => rw [hm] at hk; cases hk with | some hr => exact ⟨a, rfl, hr⟩

variable [Std.TransOrd κ] [Std.LawfulEqOrd κ] [DecidableEq κ]

theorem insert (h : Covers R m f) (k : κ) {a : α} {b : β} (hr : R a b) :
    Covers R (m.insert k a) (Function.update f k (some b)) := by
  intro j
  by_cases hj : j = k
  · subst hj
    simp only [Std.TreeMap.getElem?_insert_self, Function.update_self]
    exact .some hr
  · have hne : ¬ k = j := fun e => hj e.symm
    simpa [Std.TreeMap.getElem?_insert, hne, hj] using h j

theorem erase (h : Covers R m f) (k : κ) : Covers R (m.erase k) (Function.update f k none) := by
  intro j
  by_cases hj : j = k
  · subst hj
    simp only [Std.TreeMap.getElem?_erase_self, Function.update_self]
    exact .none
  · have hne : ¬ k = j := fun e => hj e.symm
    simpa [Std.TreeMap.getElem?_erase, hne, hj] using h j

/-- What is under one key goes to another. -/
theorem moveTo (h : Covers R m f) {k j : κ} {a : α} {b : β} (hkj : k ≠ j) (hr : R a b) :
    Covers R ((m.insert j a).erase k)
      (Function.update (Function.update f k none) j (some b)) := by
  rw [Function.update_comm hkj]
  exact (h.insert j hr).erase k

/-- A value that every member of a list gets, whatever there was. -/
theorem setAll {γ : Type} (key : γ → κ) (member : Std.TreeMap κ α → γ → α) (b : β)
    (hr : ∀ m c, R (member m c) b) (cs : List γ) (h : Covers R m f) :
    Covers R (cs.foldl (fun m c => m.insert (key c) (member m c)) m)
      fun k => if k ∈ cs.map key then some b else f k := by
  induction cs generalizing m f with
  | nil => simpa using h
  | cons c cs ih =>
    have hnext := ih (h.insert (key c) (hr m c))
    intro k
    have hk := hnext k
    by_cases hc : k = key c
    · subst hc
      simpa using hk
    · simpa [hc] using hk

end Covers

end Laswell
