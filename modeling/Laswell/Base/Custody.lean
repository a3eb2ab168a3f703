import Mathlib.Logic.Function.Basic
import Mathlib.Tactic.ByContra

/-!
# Laswell.Base.Custody

Things that are held, each by one holder at most at a time, and none of them left lying around.

* `Custody holds alive`: what is alive is held by exactly one holder, and nothing else is.
* `create`, `pass`, `drop`: a new thing, one that changes hands, and one that is given up.
-/

namespace Laswell
namespace Base

variable {ω ρ : Type} {holds : ω → Option ρ} {alive : ρ → Prop}

structure Custody (holds : ω → Option ρ) (alive : ρ → Prop) : Prop where
  alone : ∀ o o' r, holds o = some r → holds o' = some r → o = o'
  exact : ∀ r, alive r ↔ ∃ o, holds o = some r

namespace Custody

theorem existsUnique (h : Custody holds alive) {r : ρ} (hr : alive r) :
    ∃! o, holds o = some r := by
  obtain ⟨o, ho⟩ := (h.exact r).mp hr
  exact ⟨o, ho, fun o' ho' => h.alone o' o r ho' ho⟩

/-- Only what is alive matters. -/
theorem congr (h : Custody holds alive) {holds' : ω → Option ρ} {alive' : ρ → Prop}
    (hh : ∀ o, holds' o = holds o) (ha : ∀ r, alive' r ↔ alive r) : Custody holds' alive' := by
  obtain rfl : holds' = holds := funext hh
  exact ⟨h.alone, fun r => (ha r).trans (h.exact r)⟩

variable [DecidableEq ω]

/-- A holder gives up what it has, and it is gone. -/
theorem drop (h : Custody holds alive) {o : ω} {r : ρ} (ho : holds o = some r) :
    Custody (Function.update holds o none) fun x => alive x ∧ x ≠ r := by
  have hothers : ∀ a x, Function.update holds o none a = some x ↔ a ≠ o ∧ holds a = some x := by
    intro a x
    rw [Function.update_apply]
    split <;> simp_all
  constructor
  · intro a b x ha hb
    exact h.alone a b x ((hothers a x).mp ha).2 ((hothers b x).mp hb).2
  · intro x
    constructor
    · rintro ⟨hx, hne⟩
      obtain ⟨a, ha⟩ := (h.exact x).mp hx
      have hao : a ≠ o := by
        rintro rfl
        exact hne (Option.some.inj (ha.symm.trans ho))
      exact ⟨a, (hothers a x).mpr ⟨hao, ha⟩⟩
    · rintro ⟨a, ha⟩
      obtain ⟨hao, ha⟩ := (hothers a x).mp ha
      refine ⟨(h.exact x).mpr ⟨a, ha⟩, ?_⟩
      rintro rfl
      exact hao (h.alone a o x ha ho)

/-- A new thing for a holder that has none. -/
theorem create (h : Custody holds alive) {o : ω} {r : ρ} (ho : holds o = none)
    (hr : ¬ alive r) :
    Custody (Function.update holds o (some r)) fun x => x = r ∨ alive x := by
  have hold : ∀ o', holds o' ≠ some r := fun o' ho' => hr ((h.exact r).mpr ⟨o', ho'⟩)
  constructor
  · intro o1 o2 x h1 h2
    rw [Function.update_apply] at h1 h2
    split at h1
    · next he1 =>
      split at h2
      · next he2 => rw [he1, he2]
      · cases h1
        exact absurd h2 (hold o2)
    · split at h2
      · cases h2
        exact absurd h1 (hold o1)
      · exact h.alone o1 o2 x h1 h2
  · intro x
    constructor
    · rintro (rfl | hx)
      · exact ⟨o, by simp⟩
      · obtain ⟨o', ho'⟩ := (h.exact x).mp hx
        have hne : o' ≠ o := by
          rintro rfl
          rw [ho] at ho'
          cases ho'
        exact ⟨o', by rw [Function.update_of_ne hne]; exact ho'⟩
    · rintro ⟨o', ho'⟩
      rw [Function.update_apply] at ho'
      split at ho'
      · cases ho'
        exact .inl rfl
      · exact .inr ((h.exact x).mpr ⟨o', ho'⟩)

/-- A thing changes hands. -/
theorem pass (h : Custody holds alive) {o o' : ω} {r : ρ} (ho : holds o = some r)
    (ho' : holds o' = none) :
    Custody (Function.update (Function.update holds o none) o' (some r)) alive := by
  have hne : o ≠ o' := by
    rintro rfl
    rw [ho] at ho'
    cases ho'
  have hothers : ∀ x q, x ≠ o' →
      (Function.update (Function.update holds o none) o' (some r) x = some q ↔
        x ≠ o ∧ holds x = some q) := by
    intro x q hx
    rw [Function.update_of_ne hx, Function.update_apply]
    split <;> simp_all
  have hself : Function.update (Function.update holds o none) o' (some r) o' = some r := by simp
  constructor
  · intro a b q ha hb
    by_cases hao : a = o'
    · subst hao
      rw [hself] at ha
      cases ha
      by_contra hab
      obtain ⟨hbo, hbr⟩ := (hothers b r (Ne.symm hab)).mp hb
      exact hbo (h.alone b o r hbr ho)
    · obtain ⟨hane, haq⟩ := (hothers a q hao).mp ha
      by_cases hbo : b = o'
      · subst hbo
        rw [hself] at hb
        cases hb
        exact absurd (h.alone a o r haq ho) hane
      · exact h.alone a b q haq ((hothers b q hbo).mp hb).2
  · intro q
    rw [h.exact q]
    constructor
    · rintro ⟨a, ha⟩
      by_cases hao : a = o
      · subst hao
        rw [ho] at ha
        cases ha
        exact ⟨o', hself⟩
      · have hao' : a ≠ o' := by
          rintro rfl
          rw [ho'] at ha
          cases ha
        exact ⟨a, (hothers a q hao').mpr ⟨hao, ha⟩⟩
    · rintro ⟨a, ha⟩
      by_cases hao : a = o'
      · subst hao
        rw [hself] at ha
        cases ha
        exact ⟨o, ho⟩
      · exact ⟨a, ((hothers a q hao).mp ha).2⟩

end Custody

end Base
end Laswell
