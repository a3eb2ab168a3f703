import Mathlib.Logic.Relation

/-!
# Laswell.Base.Resumable

A job that is planned from the state it finds and commits its plan one action after another. It
may stop between two of them, or at one that fails and leaves something, and is then planned again
from what was left, any number of times.

* `Job.Reaches`: what such a run comes to.
* `Resumable`: what makes a job one that may be stopped: a state that rests has a plan that goes
  through, and every state on the way that may be stopped at rests again.
* `Resumable.reaches_rests`, `Resumable.completes`: then from all that is reached the next plan
  runs to the end.
* `Job.Through`, `Resumable.of_through`: a plan that goes through with an invariant makes a job one
  that may be stopped wherever the state is clean.
-/

namespace Laswell
namespace Base

variable {σ β : Type}

/-- `leaves` is what an action that fails may make of the state. -/
structure Job (σ β : Type) where
  plan : σ → List β
  exec : β → σ → Option σ
  leaves : β → σ → σ → Prop := fun _ s s' => s' = s

namespace Job

/-- All of the actions, one after another. -/
def runAll (job : Job σ β) : List β → σ → Option σ
  | [], s => some s
  | b :: bs, s => (job.exec b s).bind (job.runAll bs)

/-- `stops` says between which actions the job is stopped. -/
inductive Moves (job : Job σ β) (stops : σ → List β → Prop) : σ × List β → σ × List β → Prop
  | replan {s} : Moves job stops (s, []) (s, job.plan s)
  | commit {s s' b bs} (h : job.exec b s = some s') : Moves job stops (s, b :: bs) (s', bs)
  | fail {s s' b bs} (hs : stops s (b :: bs)) (h : job.leaves b s s') :
    Moves job stops (s, b :: bs) (s', [])
  | stop {s bs} (hs : stops s bs) : Moves job stops (s, bs) (s, [])

def Reaches (job : Job σ β) (stops : σ → List β → Prop) : σ × List β → σ × List β → Prop :=
  Relation.ReflTransGen (job.Moves stops)

theorem runAll_append (job : Job σ β) (as bs : List β) (s : σ) :
    job.runAll (as ++ bs) s = (job.runAll as s).bind (job.runAll bs) := by
  induction as generalizing s with
  | nil => rfl
  | cons a as ih =>
    rw [List.cons_append, runAll, runAll]
    cases job.exec a s with
    | none => rfl
    | some s' => exact ih s'

theorem runAll_exec {job job' : Job σ β} (hexec : job'.exec = job.exec) (bs : List β) (s : σ) :
    job'.runAll bs s = job.runAll bs s := by
  induction bs generalizing s with
  | nil => rfl
  | cons b bs ih =>
    rw [runAll, runAll, hexec]
    exact congrArg _ (funext ih)

/-- Stopped after the first actions of the plan. -/
theorem reaches_stopped {job : Job σ β} {stops : σ → List β → Prop} {s s' : σ} {as bs : List β}
    (hplan : job.plan s = as ++ bs) (hrun : job.runAll as s = some s') (hstop : stops s' bs) :
    job.Reaches stops (s, []) (s', []) := by
  have hcommits : ∀ (as : List β) (s : σ), job.runAll as s = some s' →
      job.Reaches stops (s, as ++ bs) (s', bs) := by
    intro as
    induction as with
    | nil =>
      intro s h
      cases h
      exact .refl
    | cons a as ih =>
      intro s h
      rw [runAll] at h
      cases hexec : job.exec a s with
      | none =>
        rw [hexec] at h
        cases h
      | some s₁ =>
        rw [hexec] at h
        exact .head (.commit hexec) (ih s₁ h)
  have hfirst : job.Reaches stops (s, []) (s, as ++ bs) := by
    rw [← hplan]
    exact .single .replan
  exact (hfirst.trans (hcommits as s hrun)).tail (.stop hstop)

end Job

/-- `Rests` holds where a plan is made, `Underway` between two actions of one, and `Done` at its
end. -/
structure Resumable (job : Job σ β) (stops : σ → List β → Prop) (Rests : σ → Prop)
    (Underway : σ → List β → Prop) (Done : σ → Prop) : Prop where
  plan : ∀ {s}, Rests s → Underway s (job.plan s)
  commit : ∀ {s b bs}, Underway s (b :: bs) → ∃ s', job.exec b s = some s' ∧ Underway s' bs
  fail : ∀ {s s' b bs}, Underway s (b :: bs) → stops s (b :: bs) → job.leaves b s s' → Rests s'
  stop : ∀ {s bs}, Underway s bs → stops s bs → Rests s
  done : ∀ {s}, Underway s [] → Rests s ∧ Done s

namespace Resumable

variable {job : Job σ β} {stops : σ → List β → Prop} {Rests Done : σ → Prop}
  {Underway : σ → List β → Prop} {s : σ} {bs : List β} {p q : σ × List β}

theorem moves (h : Resumable job stops Rests Underway Done) (hm : job.Moves stops p q)
    (hp : Underway p.1 p.2 ∨ p.2 = [] ∧ Rests p.1) :
    Underway q.1 q.2 ∨ q.2 = [] ∧ Rests q.1 := by
  cases hm with
  | replan =>
    rcases hp with hp | hp
    · exact .inl (h.plan (h.done hp).1)
    · exact .inl (h.plan hp.2)
  | commit hexec =>
    rcases hp with hp | hp
    · obtain ⟨s', hs', hnext⟩ := h.commit hp
      rw [hexec] at hs'
      cases hs'
      exact .inl hnext
    · exact absurd hp.1 (List.cons_ne_nil _ _)
  | fail hs hl =>
    rcases hp with hp | hp
    · exact .inr ⟨rfl, h.fail hp hs hl⟩
    · exact absurd hp.1 (List.cons_ne_nil _ _)
  | stop hs =>
    rcases hp with hp | hp
    · exact .inr ⟨rfl, h.stop hp hs⟩
    · exact .inr ⟨rfl, hp.2⟩

theorem reaches (h : Resumable job stops Rests Underway Done) (hr : job.Reaches stops p q)
    (hp : p.2 = [] ∧ Rests p.1) : Underway q.1 q.2 ∨ q.2 = [] ∧ Rests q.1 := by
  induction hr with
  | refl => exact .inr hp
  | tail _ hm ih => exact h.moves hm ih

/-- What is reached and has nothing to do rests. -/
theorem reaches_rests (h : Resumable job stops Rests Underway Done)
    (hr : job.Reaches stops p (s, [])) (hp : p.2 = [] ∧ Rests p.1) : Rests s := by
  rcases h.reaches hr hp with hs | hs
  · exact (h.done hs).1
  · exact hs.2

theorem runs (h : Resumable job stops Rests Underway Done) (hs : Underway s bs) :
    ∃ s', job.runAll bs s = some s' ∧ Rests s' ∧ Done s' := by
  induction bs generalizing s with
  | nil => exact ⟨s, rfl, h.done hs⟩
  | cons b bs ih =>
    obtain ⟨s', hexec, hnext⟩ := h.commit hs
    obtain ⟨s'', hrun, hend⟩ := ih hnext
    exact ⟨s'', by rw [Job.runAll, hexec]; exact hrun, hend⟩

/-- The plan made there goes through and ends the job. -/
theorem completes (h : Resumable job stops Rests Underway Done) (hs : Rests s) :
    ∃ s', job.runAll (job.plan s) s = some s' ∧ Rests s' ∧ Done s' := h.runs (h.plan hs)

end Resumable

/-! ## Going through with an invariant -/

namespace Job

variable {job : Job σ β} {inv post mid : σ → Prop}

/-- The actions go through, `inv` holds before, between and after them, and `post` at the end. -/
def Through (job : Job σ β) (inv : σ → Prop) : List β → (σ → Prop) → σ → Prop
  | [], post, s => inv s ∧ post s
  | b :: bs, post, s => inv s ∧ ∃ s', job.exec b s = some s' ∧ job.Through inv bs post s'

theorem Through.here {bs : List β} {s : σ} (h : job.Through inv bs post s) : inv s := by
  cases bs with
  | nil => exact h.1
  | cons b bs => exact h.1

theorem Through.append {as bs : List β} {s : σ} (h : job.Through inv as mid s)
    (hnext : ∀ s, inv s → mid s → job.Through inv bs post s) :
    job.Through inv (as ++ bs) post s := by
  induction as generalizing s with
  | nil => exact hnext s h.1 h.2
  | cons a as ih =>
    obtain ⟨hinv, s', hexec, hrest⟩ := h
    exact ⟨hinv, s', hexec, ih hrest⟩

theorem Through.mono {bs : List β} {s : σ} (h : job.Through inv bs mid s)
    (hpost : ∀ s, inv s → mid s → post s) : job.Through inv bs post s := by
  induction bs generalizing s with
  | nil => exact ⟨h.1, hpost s h.1 h.2⟩
  | cons b bs ih =>
    obtain ⟨hinv, s', hexec, hrest⟩ := h
    exact ⟨hinv, s', hexec, ih hrest⟩

/-- What goes through does so whatever an action leaves that fails. -/
theorem Through.exec {job' : Job σ β} (hexec : job'.exec = job.exec) {bs : List β} {s : σ}
    (h : job.Through inv bs post s) : job'.Through inv bs post s := by
  induction bs generalizing s with
  | nil => exact h
  | cons b bs ih =>
    obtain ⟨hinv, s', hs', hrest⟩ := h
    exact ⟨hinv, s', by rw [hexec]; exact hs', ih hrest⟩

end Job

/-- What an action leaves that fails is to keep the invariant and to be clean, where the action would
have kept it. -/
theorem Resumable.of_through {job : Job σ β} {inv clean done : σ → Prop}
    (hplan : ∀ s, inv s → clean s → job.Through inv (job.plan s) done s)
    (hdone : ∀ s, inv s → done s → clean s)
    (hleaves : ∀ b s s' t, inv s → clean s → job.exec b s = some s' → inv s' →
      job.leaves b s t → inv t ∧ clean t) :
    Resumable job (fun s _ => clean s) (fun s => inv s ∧ clean s)
      (fun s bs => job.Through inv bs done s) done where
  plan h := hplan _ h.1 h.2
  commit := by
    rintro s b bs ⟨-, s', hexec, hrest⟩
    exact ⟨s', hexec, hrest⟩
  fail := by
    rintro s t b bs ⟨hinv, s', hexec, hrest⟩ hclean hl
    exact hleaves b s s' t hinv hclean hexec hrest.here hl
  stop h hclean := ⟨h.here, hclean⟩
  done h := ⟨⟨h.1, hdone _ h.1 h.2⟩, h.2⟩

end Base
end Laswell
