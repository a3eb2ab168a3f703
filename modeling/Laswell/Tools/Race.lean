import Mathlib
import Laswell.Ledger.Reconcile

/-!
# Laswell.Tools.Race

Any number of `startMigration` calls on one database, made by any processes. A call observes the
catalog and plans from what it saw; later it takes its advisory locks, opens the job and hands the
plan to a worker, which changes the catalog step by step. The locks and the rows are those of
`Laswell.Ledger.Cluster`.

* `Moves`: what one call does at a time, in any interleaving with the others.
* `Fresh`: no job runs a plan made from a catalog that a job of a sharing specification changed
  between the observation and the locks.
* `serial_fresh`: so it is where no such job runs while a call is between the two.
-/

namespace Laswell
namespace Tools

open Ledger

/-- What a call takes its locks for: the specification's id, and the conflict keys of its
intents. -/
structure LockSpec where
  id : String
  targets : List String
  deriving DecidableEq

/-- FNV-1a of the bytes, cut to 63 bits. -/
def advisoryKey (s : String) : Int :=
  let h := s.toUTF8.data.toList.foldl
    (fun h ch => (h ^^^ ch.toNat) * 1099511628211 % 2 ^ 64) 1469598103934665603
  (h % 2 ^ 63 : Nat)

def LockSpec.lockKeys (spec : LockSpec) : List Int :=
  advisoryKey ("laswell:spec:" ++ spec.id) ::
    spec.targets.map fun t => advisoryKey ("laswell:target:" ++ t)

/-- The two have a conflict key in common. -/
def Shares (a b : LockSpec) : Prop := ∃ t ∈ a.targets, t ∈ b.targets

/-- Where a call is: it has planned, it has its locks, its worker runs, or it is over. -/
inductive Stage where
  | planned
  | locked
  | running
  | ended
  deriving DecidableEq

/-- A call. `observed` is the catalog it planned from, `todo` what its worker has still to run, and
`during` the jobs that changed the catalog after it observed and before it had its locks. -/
structure Start (χ : Type) where
  spec : LockSpec
  observed : χ
  todo : List (χ → χ)
  stage : Stage := .planned
  during : List JobId := []

structure Database (χ : Type) where
  cluster : Cluster := {}
  catalog : χ
  starts : JobId → Option (Start χ) := fun _ => none

inductive Move where
  | observe (j : JobId) (spec : LockSpec)
  | server (e : Event)
  | runStep (j : JobId)
  | endStart (j : JobId)

section Moves

variable {χ : Type} (sees : String → String → Bool) (plan : LockSpec → χ → List (χ → χ))

def Database.setStage (d : Database χ) (j : JobId) (stage : Stage) : JobId → Option (Start χ) :=
  Function.update d.starts j ((d.starts j).map fun st => { st with stage := stage })

/-- A call makes its ledger when it has planned, and finishes its job when the worker is over. -/
def Database.admits (d : Database χ) : Event → Prop
  | .openLedger j _ _ keys =>
    ∃ st, d.starts j = some st ∧ st.stage = .planned ∧ keys = st.spec.lockKeys
  | .beginInsert j => ∃ st, d.starts j = some st ∧ st.stage = .planned
  | .insert j => ∃ st, d.starts j = some st ∧ st.stage = .locked
  | .updateJob j _ => ∃ st, d.starts j = some st ∧ st.stage = .ended
  | .finishRefused j => ∃ st, d.starts j = some st ∧ st.stage = .ended
  | _ => True

/-- `open_job` begins its row when it has every lock, and the worker is started when it returns. -/
def Database.onServer (d : Database χ) (e : Event) (c : Cluster) : Database χ :=
  { d with
    cluster := c
    starts := match e with
      | .beginInsert j => d.setStage j .locked
      | .insert j => d.setStage j .running
      | _ => d.starts }

/-- A step of the plan of `j` runs. -/
def Database.change (d : Database χ) (j : JobId) (st : Start χ) (f : χ → χ)
    (rest : List (χ → χ)) : Database χ :=
  { d with
    catalog := f d.catalog
    starts := fun k =>
      (Function.update d.starts j (some { st with todo := rest }) k).map fun s =>
        if s.stage = .planned then { s with during := j :: s.during } else s }

inductive Moves (d : Database χ) : Move → Database χ → Prop
  | observe {j spec} (hj : d.starts j = none) :
    Moves d (.observe j spec) { d with
      starts := Function.update d.starts j
        (some { spec := spec, observed := d.catalog, todo := plan spec d.catalog }) }
  | server {e c} (he : d.admits e) (hstep : Step sees d.cluster e c) :
    Moves d (.server e) (d.onServer e c)
  | runStep {j st f rest} (hj : d.starts j = some st) (hs : st.stage = .running)
    (ht : st.todo = f :: rest) : Moves d (.runStep j) (d.change j st f rest)
  | endStart {j st} (hj : d.starts j = some st) :
    Moves d (.endStart j) { d with starts := d.setStage j .ended }

/-- What each worker runs, it planned from what its call observed, and no job of a sharing
specification changed the catalog between that observation and the locks. -/
def Fresh (d : Database χ) : Prop :=
  ∀ j st, d.starts j = some st → st.stage ≠ .planned →
    (∃ done, plan st.spec st.observed = done ++ st.todo) ∧
    ∀ j' st', j' ∈ st.during → d.starts j' = some st' → ¬ Shares st.spec st'.spec

/-- A call observes while no job of a sharing specification runs, and a job is opened while no
other call of a sharing specification is between its observation and its locks. -/
def Serial (d : Database χ) : Move → Prop
  | .observe _ spec =>
    ∀ j' st', d.starts j' = some st' → st'.stage = .running → ¬ Shares spec st'.spec
  | .server (.insert j) =>
    ∀ st, d.starts j = some st → ∀ j' st', j' ≠ j → d.starts j' = some st' →
      st'.stage = .planned → ¬ Shares st'.spec st.spec
  | _ => True

def Runs (allowed : Database χ → Move → Prop) : Database χ → Database χ → Prop :=
  Relation.ReflTransGen fun d d' => ∃ m, allowed d m ∧ Moves sees plan d m d'

end Moves

/-! ## Calls that do not overlap -/

section Serial

variable {χ : Type} {sees : String → String → Bool} {plan : LockSpec → χ → List (χ → χ)}
  {d d' : Database χ} {m : Move}

/-- In a run of such moves no call between its observation and its locks sees a job of a sharing
specification run. -/
structure SerialInv (plan : LockSpec → χ → List (χ → χ)) (d : Database χ) : Prop where
  planned : ∀ j st, d.starts j = some st → ∃ done, plan st.spec st.observed = done ++ st.todo
  apart : ∀ j st j' st', d.starts j = some st → st.stage = .planned → d.starts j' = some st' →
    st'.stage = .running → ¬ Shares st.spec st'.spec
  known : ∀ j st j', d.starts j = some st → j' ∈ st.during → ∃ st', d.starts j' = some st'
  untouched : ∀ j st j' st', d.starts j = some st → j' ∈ st.during → d.starts j' = some st' →
    ¬ Shares st.spec st'.spec

/-- How a call gets on, as far as the others can tell. -/
structure Start.Follows (st st' : Start χ) : Prop where
  spec : st'.spec = st.spec
  observed : st'.observed = st.observed
  todo : ∃ done, st.todo = done ++ st'.todo
  planned : st'.stage = .planned → st.stage = .planned

theorem Start.Follows.refl (st : Start χ) : st.Follows st := ⟨rfl, rfl, ⟨[], rfl⟩, fun h => h⟩

/-- A move that makes no call observe: every call follows, what it has in `during` was there or is
the job that has just run, and a worker that runs now is of a specification no call between its
observation and its locks shares with. -/
theorem SerialInv.follows (hinv : SerialInv plan d)
    (h : ∀ j st', d'.starts j = some st' → ∃ st, d.starts j = some st ∧ st.Follows st' ∧
      ∀ k ∈ st'.during, k ∈ st.during ∨
        st.stage = .planned ∧ ∃ stk, d.starts k = some stk ∧ stk.stage = .running)
    (hrun : ∀ j' st', d'.starts j' = some st' → st'.stage = .running → ∀ j st, j ≠ j' →
      d.starts j = some st → st.stage = .planned → ¬ Shares st.spec st'.spec)
    (hall : ∀ j st, d.starts j = some st → ∃ st', d'.starts j = some st') : SerialInv plan d' where
  planned := by
    intro j st' hj'
    obtain ⟨st, hj, hf, -⟩ := h j st' hj'
    obtain ⟨done, hdone⟩ := hinv.planned j st hj
    obtain ⟨more, hmore⟩ := hf.todo
    refine ⟨done ++ more, ?_⟩
    rw [hf.spec, hf.observed, hdone, hmore, List.append_assoc]
  apart := by
    intro j st₁ j' st₂ h₁ hp h₂ hr
    obtain ⟨st, hj, hf, -⟩ := h j st₁ h₁
    have hne : j ≠ j' := by
      rintro rfl
      have heq := Option.some.inj (h₁.symm.trans h₂)
      rw [heq, hr] at hp
      cases hp
    rw [hf.spec]
    exact hrun j' st₂ h₂ hr j st hne hj (hf.planned hp)
  known := by
    intro j st₁ k h₁ hk
    obtain ⟨st, hj, -, hduring⟩ := h j st₁ h₁
    rcases hduring k hk with hk | ⟨-, stk, hstk, -⟩
    · obtain ⟨stk, hstk⟩ := hinv.known j st k hj hk
      exact hall k stk hstk
    · exact hall k stk hstk
  untouched := by
    intro j st₁ k st₂ h₁ hk h₂
    obtain ⟨st, hj, hf, hduring⟩ := h j st₁ h₁
    obtain ⟨stk, hstk, hfk, -⟩ := h k st₂ h₂
    rw [hf.spec, hfk.spec]
    rcases hduring k hk with hk | ⟨hp, stk', hstk', hr⟩
    · exact hinv.untouched j st k stk hj hk hstk
    · have heq := Option.some.inj (hstk'.symm.trans hstk)
      rw [heq] at hr
      exact hinv.apart j st k stk hj hp hstk hr

theorem setStage_cases {j k : JobId} {stage : Stage} {st' : Start χ}
    (h : d.setStage j stage k = some st') :
    ∃ st, d.starts k = some st ∧
      ((k ≠ j ∧ st' = st) ∨ (k = j ∧ st' = { st with stage := stage })) := by
  by_cases hk : k = j
  · subst hk
    rw [Database.setStage, Function.update_self] at h
    obtain ⟨st, hst, rfl⟩ := Option.map_eq_some_iff.mp h
    exact ⟨st, hst, .inr ⟨rfl, rfl⟩⟩
  · rw [Database.setStage, Function.update_of_ne hk] at h
    exact ⟨st', h, .inl ⟨hk, rfl⟩⟩

theorem setStage_some {j k : JobId} {stage : Stage} {st : Start χ} (h : d.starts k = some st) :
    ∃ st', d.setStage j stage k = some st' := by
  by_cases hk : k = j
  · subst hk
    exact ⟨{ st with stage := stage }, by simp [Database.setStage, h]⟩
  · exact ⟨st, by simp [Database.setStage, hk, h]⟩

/-- A call goes on to another stage. Where that starts its worker, no call between its observation
and its locks may share with it. -/
theorem SerialInv.setStage {j : JobId} {stage : Stage} (hinv : SerialInv plan d)
    (hd : d'.starts = d.setStage j stage) (hstage : stage ≠ .planned)
    (hrun : stage = .running → ∀ st, d.starts j = some st → ∀ k stk, k ≠ j →
      d.starts k = some stk → stk.stage = .planned → ¬ Shares stk.spec st.spec) :
    SerialInv plan d' := by
  refine hinv.follows ?_ ?_ ?_
  · intro k st' hk
    rw [hd] at hk
    obtain ⟨st, hst, ⟨-, rfl⟩ | ⟨-, rfl⟩⟩ := setStage_cases hk
    · exact ⟨st', hst, .refl st', fun _ hm => .inl hm⟩
    · exact ⟨st, hst, ⟨rfl, rfl, ⟨[], rfl⟩, fun h => absurd h hstage⟩, fun _ hm => .inl hm⟩
  · intro k st' hk hr i sti hne hi hp
    rw [hd] at hk
    obtain ⟨st, hst, ⟨-, rfl⟩ | ⟨rfl, rfl⟩⟩ := setStage_cases hk
    · exact hinv.apart i sti k st' hi hp hst hr
    · exact hrun hr st hst i sti hne hi hp
  · intro k st hst
    rw [hd]
    exact setStage_some hst

theorem change_cases {j k : JobId} {st st' : Start χ} {f : χ → χ} {rest : List (χ → χ)}
    (hj : d.starts j = some st) (h : (d.change j st f rest).starts k = some st') :
    ∃ s, d.starts k = some s ∧ st'.spec = s.spec ∧ st'.observed = s.observed ∧
      st'.stage = s.stage ∧ (st'.todo = s.todo ∨ k = j ∧ st'.todo = rest) ∧
      ∀ i ∈ st'.during, i ∈ s.during ∨ s.stage = .planned ∧ i = j := by
  obtain ⟨s, hs, rfl⟩ := Option.map_eq_some_iff.mp h
  have hbefore : ∃ s₀, d.starts k = some s₀ ∧ s.spec = s₀.spec ∧ s.observed = s₀.observed ∧
      s.stage = s₀.stage ∧ (s.todo = s₀.todo ∨ k = j ∧ s.todo = rest) ∧ s.during = s₀.during := by
    by_cases hk : k = j
    · subst hk
      rw [Function.update_self, Option.some.injEq] at hs
      subst hs
      exact ⟨st, hj, rfl, rfl, rfl, .inr ⟨rfl, rfl⟩, rfl⟩
    · rw [Function.update_of_ne hk] at hs
      exact ⟨s, hs, rfl, rfl, rfl, .inl rfl, rfl⟩
  obtain ⟨s₀, hs₀, hspec, hobs, hstage, htodo, hduring⟩ := hbefore
  refine ⟨s₀, hs₀, ?_⟩
  by_cases hp : s.stage = .planned
  · rw [if_pos hp]
    refine ⟨hspec, hobs, hstage, htodo, fun i hi => ?_⟩
    rcases List.mem_cons.mp hi with rfl | hi
    · exact .inr ⟨hstage.symm.trans hp, rfl⟩
    · exact .inl (by rw [← hduring]; exact hi)
  · rw [if_neg hp]
    exact ⟨hspec, hobs, hstage, htodo, fun i hi => .inl (by rw [← hduring]; exact hi)⟩

theorem SerialInv.change {j : JobId} {st : Start χ} {f : χ → χ} {rest : List (χ → χ)}
    (hinv : SerialInv plan d) (hj : d.starts j = some st) (hs : st.stage = .running)
    (ht : st.todo = f :: rest) : SerialInv plan (d.change j st f rest) := by
  refine hinv.follows ?_ ?_ ?_
  · intro k st' hk
    obtain ⟨s, hs₀, hspec, hobs, hstage, htodo, hduring⟩ := change_cases hj hk
    refine ⟨s, hs₀, ⟨hspec, hobs, ?_, fun h => hstage.symm.trans h⟩, fun i hi => ?_⟩
    · rcases htodo with htodo | ⟨rfl, htodo⟩
      · exact ⟨[], by rw [htodo]; rfl⟩
      · have heq := Option.some.inj (hs₀.symm.trans hj)
        exact ⟨[f], by rw [heq, ht, htodo]; rfl⟩
    · rcases hduring i hi with hi | ⟨hp, rfl⟩
      · exact .inl hi
      · exact .inr ⟨hp, st, hj, hs⟩
  · intro k st' hk hr i sti _ hi hp
    obtain ⟨s, hs₀, hspec, -, hstage, -⟩ := change_cases hj hk
    rw [hspec]
    exact hinv.apart i sti k s hi hp hs₀ (hstage.symm.trans hr)
  · intro k s hk
    refine Option.isSome_iff_exists.mp ?_
    by_cases hkj : k = j
    · simp [Database.change, hkj]
    · simp [Database.change, hkj, hk]

theorem SerialInv.observe {j : JobId} {spec : LockSpec} (hinv : SerialInv plan d)
    (hj : d.starts j = none)
    (hserial : ∀ k st, d.starts k = some st → st.stage = .running → ¬ Shares spec st.spec) :
    SerialInv plan { d with
      starts := Function.update d.starts j
        (some { spec := spec, observed := d.catalog, todo := plan spec d.catalog }) } := by
  have hcases : ∀ k st', Function.update d.starts j (some
      ({ spec := spec, observed := d.catalog, todo := plan spec d.catalog } : Start χ)) k =
        some st' →
      (k = j ∧ st' = { spec := spec, observed := d.catalog, todo := plan spec d.catalog }) ∨
      (k ≠ j ∧ d.starts k = some st') := by
    intro k st' hk
    by_cases hkj : k = j
    · subst hkj
      rw [Function.update_self, Option.some.injEq] at hk
      exact .inl ⟨rfl, hk.symm⟩
    · rw [Function.update_of_ne hkj] at hk
      exact .inr ⟨hkj, hk⟩
  refine ⟨?_, ?_, ?_, ?_⟩
  · intro k st' hk
    rcases hcases k st' hk with ⟨rfl, rfl⟩ | ⟨-, hk⟩
    · exact ⟨[], rfl⟩
    · exact hinv.planned k st' hk
  · intro k st₁ k' st₂ h₁ hp h₂ hr
    rcases hcases k' st₂ h₂ with ⟨-, rfl⟩ | ⟨-, hold₂⟩
    · cases hr
    · rcases hcases k st₁ h₁ with ⟨-, rfl⟩ | ⟨-, hold₁⟩
      · exact hserial k' st₂ hold₂ hr
      · exact hinv.apart k st₁ k' st₂ hold₁ hp hold₂ hr
  · intro k st₁ i h₁ hi
    rcases hcases k st₁ h₁ with ⟨-, rfl⟩ | ⟨-, hold₁⟩
    · cases hi
    · obtain ⟨sti, hsti⟩ := hinv.known k st₁ i hold₁ hi
      have hij : i ≠ j := fun h => by rw [h, hj] at hsti; cases hsti
      exact ⟨sti, by simp [hij, hsti]⟩
  · intro k st₁ i st₂ h₁ hi h₂
    rcases hcases k st₁ h₁ with ⟨-, rfl⟩ | ⟨-, hold₁⟩
    · cases hi
    · rcases hcases i st₂ h₂ with ⟨hij, -⟩ | ⟨-, hold₂⟩
      · obtain ⟨sti, hsti⟩ := hinv.known k st₁ i hold₁ hi
        rw [hij, hj] at hsti
        cases hsti
      · exact hinv.untouched k st₁ i st₂ hold₁ hi hold₂

theorem SerialInv.step (hinv : SerialInv plan d) (hm : Moves sees plan d m d')
    (hserial : Serial d m) : SerialInv plan d' := by
  cases hm with
  | observe hj => exact hinv.observe hj hserial
  | runStep hj hs ht => exact hinv.change hj hs ht
  | endStart hj => exact hinv.setStage rfl (by decide) (fun h => by cases h)
  | @server e c he hstep =>
    cases e with
    | beginInsert j => exact hinv.setStage rfl (by decide) (fun h => by cases h)
    | insert j => exact hinv.setStage rfl (by decide) fun _ st hst => hserial st hst
    | _ => exact ⟨hinv.planned, hinv.apart, hinv.known, hinv.untouched⟩

theorem serialInv_init (catalog : χ) : SerialInv plan { catalog := catalog } where
  planned := by simp
  apart := by simp
  known := by simp
  untouched := by simp

/-- Where each call observes while no job of a sharing specification runs, and each job is opened
while no other call of a sharing specification is between its observation and its locks, every
plan that runs is fresh. -/
theorem serial_fresh (sees : String → String → Bool) (plan : LockSpec → χ → List (χ → χ))
    (catalog : χ) {d : Database χ} (h : Runs sees plan Serial { catalog := catalog } d) :
    Fresh plan d := by
  have hinv : SerialInv plan d := by
    induction h with
    | refl => exact serialInv_init catalog
    | tail _ hstep ih =>
      obtain ⟨m, hserial, hm⟩ := hstep
      exact ih.step hm hserial
  intro j st hj _
  exact ⟨hinv.planned j st hj, fun j' st' hm hj' => hinv.untouched j st j' st' hj hm hj'⟩

/-! ## Two calls that overlap -/

theorem Runs.next {allowed : Database χ → Move → Prop} {d₀ : Database χ}
    (h : Runs sees plan allowed d₀ d) (ha : allowed d m) (hm : Moves sees plan d m d') :
    Runs sees plan allowed d₀ d' := h.tail ⟨m, ha, hm⟩

theorem Runs.serve {allowed : Database χ → Move → Prop} {d₀ : Database χ} {e : Event} {c : Cluster}
    (h : Runs sees plan allowed d₀ d) (hap : Happens sees d.cluster e c) (he : d.admits e)
    (ha : allowed d (.server e)) : Runs sees plan allowed d₀ (d.onServer e c.tick) :=
  h.next ha (.server he ⟨c, hap, rfl⟩)

/-- Two specifications that add one column to one table. -/
def addRegion (id : String) : LockSpec := ⟨id, ["house.room"]⟩

def planRegion (_ : LockSpec) (columns : List String) : List (List String → List String) :=
  if "region" ∈ columns then [] else [("region" :: ·)]

/-- The job of one call runs and ends between the observation of another and its locks. The other
then runs the plan it made before, and adds the column a second time. -/
theorem overlapping_calls_run_stale :
    ∃ d, Runs (fun _ _ => true) planRegion (fun _ _ => True) { catalog := [] } d ∧
      d.catalog = ["region", "region"] ∧ ¬ Fresh planRegion d := by
  have h0 : Runs (fun _ _ => true) planRegion (fun _ _ => True) { catalog := [] }
    { catalog := [] } := .refl
  have h1 := h0.next trivial (@Moves.observe _ _ _ _ 1 (addRegion "0001") rfl)
  have h2 := h1.next trivial (@Moves.observe _ _ _ _ 2 (addRegion "0002") rfl)
  have h3 := h2.serve (@Happens.openLedger _ _ 2 5 "runner" (addRegion "0002").lockKeys rfl rfl)
    ⟨_, rfl, rfl, rfl⟩ trivial
  have h4 := h3.serve (Happens.grant (j := 2) rfl ⟨_, rfl, rfl⟩ rfl (by
    intro pid b hne hb
    simp [Database.onServer, Cluster.tick, Cluster.setJob, Cluster.setBackend, hne] at hb))
    trivial trivial
  have h5 := h4.serve (Happens.grant (j := 2) rfl ⟨_, rfl, rfl⟩ rfl (by
    intro pid b hne hb
    simp [Database.onServer, Cluster.tick, Cluster.setJob, Cluster.setBackend, Cluster.setLocks,
      hne] at hb)) trivial trivial
  have h6 := h5.serve (Happens.beginInsert (j := 2) rfl ⟨_, rfl, rfl⟩ rfl) ⟨_, rfl, rfl⟩ trivial
  have h7 := h6.serve (Happens.insert (j := 2) rfl ⟨_, rfl, rfl⟩ rfl) ⟨_, rfl, rfl⟩ trivial
  have h8 := h7.next trivial (.runStep (j := 2) rfl rfl rfl)
  have h9 := h8.next trivial (.endStart (j := 2) rfl)
  have h10 := h9.serve (@Happens.updateJob _ _ 2 _ .succeeded rfl ⟨_, rfl, rfl⟩ rfl (by
    rintro ⟨i, w, hw, -⟩
    cases hw)) ⟨_, rfl, rfl⟩ trivial
  have h11 := h10.serve (Happens.commitFinish (j := 2) rfl ⟨_, rfl, rfl⟩ rfl rfl) trivial trivial
  have h12 := h11.serve (Happens.unlock (j := 2) rfl ⟨_, rfl, rfl⟩ rfl) trivial trivial
  have h13 := h12.serve (Happens.unlock (j := 2) rfl ⟨_, rfl, rfl⟩ rfl) trivial trivial
  have h14 := h13.serve (@Happens.openLedger _ _ 1 6 "runner" (addRegion "0001").lockKeys rfl rfl)
    ⟨_, rfl, rfl, rfl⟩ trivial
  -- the other session is still there, and has unlocked both keys
  have h15 := h14.serve (Happens.grant (j := 1) rfl ⟨_, rfl, rfl⟩ rfl (by
    intro pid b hne hb
    by_cases hp : pid = 5
    · subst hp
      cases hb
      decide +kernel
    · simp [Database.onServer, Database.change, Cluster.tick, Cluster.setJob, Cluster.setRow,
        Cluster.setBackend, Cluster.setLocks, hne, hp] at hb)) trivial trivial
  have h16 := h15.serve (Happens.grant (j := 1) rfl ⟨_, rfl, rfl⟩ rfl (by
    intro pid b hne hb
    by_cases hp : pid = 5
    · subst hp
      cases hb
      decide +kernel
    · simp [Database.onServer, Database.change, Cluster.tick, Cluster.setJob, Cluster.setRow,
        Cluster.setBackend, Cluster.setLocks, hne, hp] at hb)) trivial trivial
  have h17 := h16.serve (Happens.beginInsert (j := 1) rfl ⟨_, rfl, rfl⟩ rfl) ⟨_, rfl, rfl⟩ trivial
  have h18 := h17.serve (Happens.insert (j := 1) rfl ⟨_, rfl, rfl⟩ rfl) ⟨_, rfl, rfl⟩ trivial
  have h19 := h18.next trivial (.runStep (j := 1) rfl rfl rfl)
  refine ⟨_, h19, rfl, fun hfresh => ?_⟩
  have hshares : Shares (addRegion "0001") (addRegion "0002") :=
    ⟨"house.room", List.mem_cons_self, List.mem_cons_self⟩
  exact (hfresh 1 _ rfl (by decide)).2 2 _ List.mem_cons_self rfl hshares

/-- A call alone: it plans, locks, opens its job and runs the plan. -/
theorem one_call_runs_fresh :
    ∃ d, Runs (fun _ _ => true) planRegion Serial { catalog := [] } d ∧
      d.catalog = ["region"] ∧ Fresh planRegion d := by
  have h0 : Runs (fun _ _ => true) planRegion Serial { catalog := [] } { catalog := [] } := .refl
  have h1 := h0.next (by simp [Serial]) (@Moves.observe _ _ _ _ 1 (addRegion "0001") rfl)
  have h2 := h1.serve (@Happens.openLedger _ _ 1 5 "runner" (addRegion "0001").lockKeys rfl rfl)
    ⟨_, rfl, rfl, rfl⟩ trivial
  have h3 := h2.serve (Happens.grant (j := 1) rfl ⟨_, rfl, rfl⟩ rfl (by
    intro pid b hne hb
    simp [Database.onServer, Cluster.tick, Cluster.setJob, Cluster.setBackend, hne] at hb))
    trivial trivial
  have h4 := h3.serve (Happens.grant (j := 1) rfl ⟨_, rfl, rfl⟩ rfl (by
    intro pid b hne hb
    simp [Database.onServer, Cluster.tick, Cluster.setJob, Cluster.setBackend, Cluster.setLocks,
      hne] at hb)) trivial trivial
  have h5 := h4.serve (Happens.beginInsert (j := 1) rfl ⟨_, rfl, rfl⟩ rfl) ⟨_, rfl, rfl⟩ trivial
  have h6 := h5.serve (Happens.insert (j := 1) rfl ⟨_, rfl, rfl⟩ rfl) ⟨_, rfl, rfl⟩ (by
    intro st hst j' st' hne hj' _
    simp [Database.onServer, Database.setStage, hne] at hj')
  have h7 := h6.next (m := .runStep 1) trivial (.runStep rfl rfl rfl)
  exact ⟨_, h7, rfl, serial_fresh _ _ _ h7⟩

end Serial

end Tools
end Laswell
