import Mathlib.Data.List.Basic

/-!
# Laswell.Base.Checks

Programs whose only effect is to check: a `Checking` makes its checks in order, and the first that
fails is thrown. What is read from a value that has failed a check is of no consequence, since
nothing after the check is looked at (`run_bind`: a run is the run of a program with exceptions).

* `Reaches p c`: `p` makes the check `c`, and all before it hold.
* `run_error_iff`: what is thrown is the error of the first check that does not hold.
* `throws_only_iff`: a program throws only what `P` allows exactly if each check it reaches that
  throws anything else holds.
* `open_bind`, `open_forM`: the checks outside of `P`, program by program.
-/

namespace Laswell
namespace Base

/-- A check, and what is thrown where it does not hold. -/
structure Check (ε : Type) where
  error : ε
  holds : Bool

structure Checking (ε α : Type) where
  value : α
  checks : List (Check ε)

namespace Checking

variable {ε α β : Type}

def pure (a : α) : Checking ε α where
  value := a
  checks := []

def bind (p : Checking ε α) (f : α → Checking ε β) : Checking ε β where
  value := (f p.value).value
  checks := p.checks ++ (f p.value).checks

instance : Monad (Checking ε) where
  pure := pure
  bind := bind

/-- Throws `error` unless `holds`. -/
def require (error : ε) (holds : Bool) : Checking ε Unit where
  value := ()
  checks := [{ error, holds }]

/-- A value that may not be there, and what is thrown where it is not. -/
def attempt (r : Except ε α) (otherwise : α) : Checking ε α :=
  match r with
  | .ok a => pure a
  | .error e => { value := otherwise, checks := [{ error := e, holds := false }] }

def run (p : Checking ε α) : Except ε α :=
  match p.checks.find? fun c => !c.holds with
  | none => .ok p.value
  | some c => .error c.error

/-- What a run throws, if anything. -/
def thrown (p : Checking ε α) : Option ε := (p.checks.find? fun c => !c.holds).map Check.error

def Reaches (p : Checking ε α) (c : Check ε) : Prop :=
  ∃ before after, p.checks = before ++ c :: after ∧ ∀ b ∈ before, b.holds = true

/-! ## Runs -/

@[simp] theorem value_pure (a : α) : (Pure.pure a : Checking ε α).value = a := rfl

@[simp] theorem checks_pure (a : α) : (Pure.pure a : Checking ε α).checks = [] := rfl

@[simp] theorem value_bind (p : Checking ε α) (f : α → Checking ε β) :
    (p >>= f).value = (f p.value).value := rfl

@[simp] theorem checks_bind (p : Checking ε α) (f : α → Checking ε β) :
    (p >>= f).checks = p.checks ++ (f p.value).checks := rfl

theorem run_pure (a : α) : (Pure.pure a : Checking ε α).run = .ok a := rfl

theorem run_bind (p : Checking ε α) (f : α → Checking ε β) :
    (p >>= f).run = p.run >>= fun a => (f a).run := by
  unfold run
  rw [checks_bind, List.find?_append]
  cases p.checks.find? fun c => !c.holds with
  | none => rfl
  | some c => rfl

theorem run_attempt (r : Except ε α) (otherwise : α) : (attempt r otherwise).run = r := by
  cases r with
  | ok a => rfl
  | error e => rfl

theorem run_of_thrown {p : Checking ε α} {e : ε} (h : p.thrown = some e) : p.run = .error e := by
  obtain ⟨c, hfind, rfl⟩ := Option.map_eq_some_iff.1 h
  rw [run, hfind]

theorem run_ok_iff {p : Checking ε α} {a : α} :
    p.run = .ok a ↔ (∀ c ∈ p.checks, c.holds = true) ∧ p.value = a := by
  unfold run
  cases hfind : p.checks.find? fun c => !c.holds with
  | none => simpa using fun _ => List.find?_eq_none.1 hfind
  | some c =>
    have hc := List.find?_some hfind
    have hmem := List.mem_of_find?_eq_some hfind
    simp only [reduceCtorEq, false_iff, not_and]
    intro hall
    simp [hall c hmem] at hc

theorem run_error_iff {p : Checking ε α} {e : ε} :
    p.run = .error e ↔ ∃ c, p.Reaches c ∧ c.holds = false ∧ c.error = e := by
  constructor
  · intro h
    unfold run at h
    split at h
    · cases h
    · rename_i c hfind
      cases h
      obtain ⟨hc, before, after, hchecks, hbefore⟩ := List.find?_eq_some_iff_append.1 hfind
      refine ⟨c, ⟨before, after, hchecks, fun b hb => ?_⟩, by simpa using hc, rfl⟩
      simpa using hbefore b hb
  · rintro ⟨c, ⟨before, after, hchecks, hbefore⟩, hc, rfl⟩
    have hfind : (p.checks.find? fun c => !c.holds) = some c := by
      refine List.find?_eq_some_iff_append.2 ⟨by simp [hc], before, after, hchecks, fun b hb => ?_⟩
      simp [hbefore b hb]
    rw [run, hfind]

theorem throws_only_iff {p : Checking ε α} {P : ε → Prop} :
    (∀ e, p.run = .error e → P e) ↔ ∀ c, p.Reaches c → ¬ P c.error → c.holds = true := by
  constructor
  · intro h c hreach hnot
    by_contra hfails
    rw [Bool.not_eq_true] at hfails
    exact hnot (h c.error (run_error_iff.2 ⟨c, hreach, hfails, rfl⟩))
  · intro h e hrun
    obtain ⟨c, hreach, hfails, rfl⟩ := run_error_iff.1 hrun
    by_contra hnot
    rw [h c hreach hnot] at hfails
    cases hfails

/-! ## The checks that throw something else -/

section Open

variable (allowed : ε → Bool)

def opens (p : Checking ε α) : List (Check ε) := p.checks.filter fun c => !allowed c.error

variable {allowed}

@[simp] theorem open_pure (a : α) : (Pure.pure a : Checking ε α).opens allowed = [] := rfl

@[simp] theorem open_bind (p : Checking ε α) (f : α → Checking ε β) :
    (p >>= f).opens allowed = p.opens allowed ++ (f p.value).opens allowed :=
  List.filter_append ..

@[simp] theorem open_ite {c : Prop} [Decidable c] (p q : Checking ε α) :
    (if c then p else q).opens allowed = if c then p.opens allowed else q.opens allowed := by
  split <;> rfl

@[simp] theorem open_forM (l : List β) (f : β → Checking ε PUnit) :
    (forM l f).opens allowed = l.flatMap fun b => (f b).opens allowed := by
  induction l with
  | nil => rfl
  | cons b l ih =>
    rw [List.forM_cons, open_bind, ih, List.flatMap_cons]

@[simp] theorem flatMap_none (l : List β) :
    (l.flatMap fun _ => ([] : List (Check ε))) = [] := by simp

theorem open_require {error : ε} {holds : Bool} (h : allowed error = true) :
    (require error holds).opens allowed = [] := by
  simp [opens, require, h]

theorem Reaches.mem_open {p : Checking ε α} {c : Check ε} (h : p.Reaches c)
    (hc : allowed c.error = false) : c ∈ p.opens allowed := by
  obtain ⟨before, after, hchecks, -⟩ := h
  refine List.mem_filter.2 ⟨?_, by simp [hc]⟩
  rw [hchecks]
  exact List.mem_append_right _ (List.mem_cons_self ..)

end Open

end Checking

end Base
end Laswell
