import Mathlib
import Laswell.Executor.Backfill
import Laswell.Executor.Committed
import Laswell.Planner.Steps

/-!
# Laswell.Executor.Resume

Where a walk takes up again (`resume_cursor`): at the cursor an earlier job of the same
specification left in the ledger under the same step number, if that job did not succeed. The
steps are numbered anew by every plan, so the number names a walk only as long as the plans agree.

* `walksOf`: the walks of a plan, by their ordinals in `planMigration` (`isWalk_planMigration`).
* `World.step`: one event of any number of jobs of any number of specifications, one job at a time.
  A walk goes transaction by transaction, each the executor's own (`walkTxn`), and others may write
  in between. `step_enter`: a walk begins wherever the plan has it.
* `stable_sound`: as long as plans agree on the ordinals that cursors were left under, and a walk
  whose cursor nothing checks keeps what it claims, whatever is resumed is a cursor of the same
  walk, with everything at or below it applied.
* `shifted_resumes_other`: the verify step after a concurrent build is gone from the second plan,
  and a walk takes up where the walk before it had ended.
-/

namespace Laswell
namespace Resume

open Base Executor Planner

/-- A walk of a specification: of which intent, and which of its passes. -/
structure WalkId where
  digest : String
  intent : Nat
  pass : Nat
  deriving DecidableEq

/-! ## The walks of a plan -/

def isWalk (s : Step) : Bool := s.txnClass == .ownTxnPerBatch && s.action == .apply

/-- The steps of one intent, each with the pass it is if it is a walk; a concurrent build is
followed by its verify step. -/
def walksOfStep (digest : String) (intent : Nat) (s : Nat × Step) : List (Option WalkId) :=
  if s.2.buildsOutside then [none, none]
  else if isWalk s.2 then [some { digest, intent, pass := s.1 }]
  else [none]

def walksFrom (digest : String) : Nat → List (List (Nat × Step)) → List (Option WalkId)
  | _, [] => []
  | intent, steps :: rest =>
    steps.flatMap (walksOfStep digest intent) ++ walksFrom digest (intent + 1) rest

/-- The walks of a plan, by ordinal. -/
def walksOf (digest : String) (emitted : List (List (Nat × Step))) : List (Option WalkId) :=
  walksFrom digest 0 emitted

/-- The steps of a plan that one step becomes, and whether they are walks. -/
def walkMarks (s : Step) : List Bool := if s.buildsOutside then [false, false] else [isWalk s]

theorem isWalk_withVerification : ∀ l : List Step,
    (withVerification l).map isWalk = l.flatMap walkMarks
  | [] => rfl
  | s :: rest => by
    have ih := isWalk_withVerification rest
    have hbuild : s.buildsOutside = true → isWalk s = false := by
      intro h
      simp only [Step.buildsOutside, Bool.and_eq_true, beq_iff_eq] at h
      simp [isWalk, h.2]
    rw [withVerification, List.flatMap_cons, walkMarks]
    by_cases h : s.buildsOutside = true
    · rw [if_pos h, if_pos h, List.map_cons, List.map_cons, ih, hbuild h]
      rfl
    · rw [if_neg h, if_neg h, List.map_cons, ih]
      rfl

theorem isWalk_renumber (l : List Step) : (renumber l).map isWalk = l.map isWalk := by
  refine List.ext_getElem? fun n => ?_
  rw [renumber, List.getElem?_map, List.getElem?_mapIdx, List.getElem?_map, Option.map_map]
  rfl

theorem walkMarks_group : ∀ (g : Grouping) (l : List Step),
    (group g l).flatMap walkMarks = l.flatMap walkMarks
  | _, [] => rfl
  | g, s :: rest => by
    rw [group, List.flatMap_cons, List.flatMap_cons, walkMarks_group (g.after s) rest]
    rfl

theorem walkMarks_raiseMemory (maintenanceMb : Int) (s : Step) :
    walkMarks (s.raiseMemory maintenanceMb) = walkMarks s := by
  unfold Step.raiseMemory
  split <;> rfl

theorem isSome_walksOfStep (digest : String) (intent : Nat) (s : Nat × Step) :
    (walksOfStep digest intent s).map Option.isSome = walkMarks s.2 := by
  unfold walksOfStep walkMarks
  by_cases hb : s.2.buildsOutside = true
  · simp [hb]
  · by_cases hw : isWalk s.2 = true
    · simp [hb, hw]
    · simp [hb, hw]

theorem isSome_walksFrom (digest : String) : ∀ (intent : Nat) (l : List (List (Nat × Step))),
    (walksFrom digest intent l).map Option.isSome =
      (l.map (List.map Prod.snd)).flatten.flatMap walkMarks
  | _, [] => rfl
  | intent, steps :: rest => by
    have hsteps : (steps.flatMap (walksOfStep digest intent)).map Option.isSome =
        (steps.map Prod.snd).flatMap walkMarks := by
      rw [List.map_flatMap, List.flatMap_map]
      simp only [isSome_walksOfStep]
    rw [walksFrom, List.map_append, hsteps, isSome_walksFrom digest (intent + 1) rest,
      List.map_cons, List.flatten_cons, List.flatMap_append]

/-- The ordinals of the walks are those that `planMigration` gives them. -/
theorem isWalk_planMigration (digest : String) (maintenanceMb : Int)
    (emitted : List (List (Nat × Step))) :
    (planMigration maintenanceMb (emitted.map (List.map Prod.snd))).map isWalk =
      (walksOf digest emitted).map Option.isSome := by
  rw [planMigration, isWalk_renumber, isWalk_withVerification, walkMarks_group, List.flatMap_map,
    walksOf, isSome_walksFrom]
  simp only [walkMarks_raiseMemory]

/-! ## What a cursor claims -/

section Claims

variable {γ κ ρ : Type} [LinearOrder γ] [LinearOrder κ]

/-- A row the walk has still to apply its change to. -/
def unapplied (rel : Relation γ κ ρ) (r : Row γ κ ρ) : Bool := r.matched rel && !r.applied

/-- Everything at or below the cursor is done. -/
def Claim (codec : ArrayText) (rel : Relation γ κ ρ) (form : WalkForm) (c : String)
    (d : Table γ κ ρ) : Prop :=
  ∀ r ∈ d, unapplied rel r = true → ¬ Executor.Covers codec rel form c r.group r.key

/-- What the server answers when it is asked for the rows at or below a cursor. -/
def covered (codec : ArrayText) (rel : Relation γ κ ρ) (form : WalkForm) (c : String) (g : γ)
    (k : κ) : Bool :=
  match form with
  | .statement | .twoStatement => (rel.keyText.read c).any fun p => decide (k ≤ p)
  | .composite | .compositeStatement =>
    ((compositeAt codec rel.columns c).join.bind rel.keyColumns.read).any fun p => decide (k ≤ p)
  | .grouped => (GroupCursor.decode codec c).any fun at_ => decide (at_.group ≠ "") &&
      (rel.groupText.read at_.group).any fun g' => decide (g < g') ||
        (decide (g = g') && decide (at_.key ≠ "") &&
          (rel.keyText.read at_.key).any fun p => decide (k ≤ p))

theorem covered_iff {codec : ArrayText} {rel : Relation γ κ ρ} {form : WalkForm} {c : String}
    {g : γ} {k : κ} :
    covered codec rel form c g k = true ↔ Executor.Covers codec rel form c g k := by
  cases form with
  | statement => simp [covered, Executor.Covers, Option.any_eq_true]
  | twoStatement => simp [covered, Executor.Covers, Option.any_eq_true]
  | composite =>
    simp only [covered, Executor.Covers, Option.any_eq_true, Option.bind_eq_some_iff,
      decide_eq_true_eq,
      Option.join_eq_some_iff]
    grind
  | compositeStatement =>
    simp only [covered, Executor.Covers, Option.any_eq_true, Option.bind_eq_some_iff,
      decide_eq_true_eq,
      Option.join_eq_some_iff]
    grind
  | grouped =>
    simp only [covered, Executor.Covers, Option.any_eq_true, decide_eq_true_eq, Bool.and_eq_true,
      Bool.or_eq_true]
    grind

instance (codec : ArrayText) (rel : Relation γ κ ρ) (form : WalkForm) (c : String) (g : γ)
    (k : κ) : Decidable (Executor.Covers codec rel form c g k) :=
  decidable_of_iff _ covered_iff

instance (codec : ArrayText) (rel : Relation γ κ ρ) (form : WalkForm) (c : String)
    (d : Table γ κ ρ) : Decidable (Claim codec rel form c d) :=
  inferInstanceAs (Decidable (∀ r ∈ d, _ → _))

/-- Whether a row that still matches is at or below a position; one the server cannot read makes
the question throw. -/
def matchesBelow {α : Type} (rel : Relation γ κ ρ) (d : Table γ κ ρ) (position : Option α)
    (below : α → Row γ κ ρ → Bool) : Bool :=
  match position with
  | none => true
  | some p => d.any fun r => r.matched rel && below p r

/-- `cursor_is_stale`. A check that throws is read as stale. -/
def cursorIsStale (codec : ArrayText) (rel : Relation γ κ ρ) (form : WalkForm) (c : String)
    (d : Table γ κ ρ) : Bool :=
  match form with
  | .composite | .compositeStatement =>
    match compositeAt codec rel.columns c with
    | none => true
    | some none => false
    | some (some values) =>
      matchesBelow rel d (rel.keyColumns.read values) fun p r => decide (r.key ≤ p)
  | .grouped =>
    match GroupCursor.decode codec c with
    | none => true
    | some at_ =>
      if at_.group = "" then false
      else if at_.key = "" then
        matchesBelow rel d (rel.groupText.read at_.group) fun g r => decide (r.group < g)
      else
        matchesBelow rel d (do pure (← rel.groupText.read at_.group, ← rel.keyText.read at_.key))
          fun p r => decide (r.group < p.1) || (decide (r.group = p.1) && decide (r.key ≤ p.2))
  | .statement | .twoStatement =>
    matchesBelow rel d (rel.keyText.read c) fun p r => decide (r.key ≤ p)

variable {codec : ArrayText} {rel : Relation γ κ ρ} {form : WalkForm} {c : String}
  {d : Table γ κ ρ}

omit [LinearOrder γ] [LinearOrder κ] in
theorem matchesBelow_of_mem {α : Type} {position : Option α} {below : α → Row γ κ ρ → Bool}
    {r : Row γ κ ρ} (hr : r ∈ d) (hmatched : r.matched rel = true)
    (hbelow : ∀ p, position = some p → below p r = true) :
    matchesBelow rel d position below = true := by
  cases position with
  | none => rfl
  | some p =>
    simp only [matchesBelow, List.any_eq_true, Bool.and_eq_true]
    exact ⟨r, hr, hmatched, hbelow p rfl⟩

/-- A row at or below a cursor that still matches makes the cursor stale. -/
theorem stale_of_covers {r : Row γ κ ρ} (hr : r ∈ d) (hmatched : r.matched rel = true)
    (hcov : Executor.Covers codec rel form c r.group r.key) :
    cursorIsStale codec rel form c d = true := by
  cases form with
  | statement =>
    obtain ⟨p, hp, hle⟩ := hcov
    exact matchesBelow_of_mem hr hmatched (by simp [hp, hle])
  | twoStatement =>
    obtain ⟨p, hp, hle⟩ := hcov
    exact matchesBelow_of_mem hr hmatched (by simp [hp, hle])
  | composite =>
    obtain ⟨values, p, hat, hp, hle⟩ := hcov
    simp only [cursorIsStale, hat]
    exact matchesBelow_of_mem hr hmatched (by simp [hp, hle])
  | compositeStatement =>
    obtain ⟨values, p, hat, hp, hle⟩ := hcov
    simp only [cursorIsStale, hat]
    exact matchesBelow_of_mem hr hmatched (by simp [hp, hle])
  | grouped =>
    obtain ⟨at_, g, hat, hgroup, hg, hcase⟩ := hcov
    simp only [cursorIsStale, hat, if_neg hgroup]
    split
    · rename_i hkey
      rcases hcase with hlt | ⟨-, hne, -⟩
      · exact matchesBelow_of_mem hr hmatched (by simp [hg, hlt])
      · exact absurd hkey hne
    · refine matchesBelow_of_mem hr hmatched fun p hp => ?_
      simp only [hg, Option.bind_eq_bind, Option.bind_some, Option.pure_def,
        Option.bind_eq_some_iff, Option.some.injEq] at hp
      obtain ⟨k, hk, rfl⟩ := hp
      rcases hcase with hlt | ⟨heq, -, k', hk', hle⟩
      · simp [hlt]
      · rw [hk] at hk'
        cases hk'
        simp [heq, hle]

/-- A cursor that passed the check claims nothing that is not done. -/
theorem Claim.of_not_stale (h : cursorIsStale codec rel form c d = false) :
    Claim codec rel form c d := by
  intro r hr hun hcov
  rw [stale_of_covers hr (Bool.and_eq_true_iff.1 hun).1 hcov] at h
  cases h

omit [LinearOrder γ] [LinearOrder κ] in
theorem unapplied_mutate {named : Row γ κ ρ → Bool} {r : Row γ κ ρ}
    (h : unapplied rel (r.mutate rel named) = true) : unapplied rel r = true := by
  unfold Row.mutate at h
  split at h
  · simp [unapplied] at h
  · exact h

/-- No mutation takes a claim back. -/
theorem Claim.mutate (h : Claim codec rel form c d) (named : Row γ κ ρ → Bool) :
    Claim codec rel form c (rel.mutate named d).2 := by
  intro r' hr' hun
  obtain ⟨r, hr, rfl⟩ := List.mem_map.1 hr'
  have hsite : (r.mutate rel named).site = r.site := Row.mutate_site
  simp only [Row.site, Prod.mk.injEq] at hsite
  rw [hsite.1, hsite.2.1]
  exact h r hr (unapplied_mutate hun)

/-- What a walk has swept, from where everything was done, is done. -/
theorem Claim.of_swept {sites : List (γ × κ × ρ)} {start : String}
    (hswept : Swept codec rel form sites start c d) (hstart : Claim codec rel form start d) :
    Claim codec rel form c d := by
  intro r hr hun hcov
  obtain ⟨hmatched, hnot⟩ := Bool.and_eq_true_iff.1 hun
  have hnot : r.applied = false := by simpa using hnot
  have hfilter : rel.filter r.found = true := by
    rw [Row.matched, hswept.sound r hr hnot] at hmatched
    exact hmatched
  rcases hswept.applied r hr hfilter hcov with hcov | happlied
  · exact hstart r hr hun hcov
  · rw [hnot] at happlied
    cases happlied

end Claims

/-! ## The ledger -/

/-- How a job ended, as its row says: not at all, if its process went away. -/
inductive Ending where
  | unfinished
  | succeeded
  | failed
  | cancelled
  | interrupted
  | abortedContention
  deriving DecidableEq

def Ending.resumes (e : Ending) : Bool := e != .succeeded

/-- A job's row, and the plan it was started with, which is not in the ledger. -/
structure JobRow where
  digest : String
  maintenanceMb : Int
  emitted : List (List (Nat × Step))
  ending : Ending := .unfinished

def JobRow.steps (j : JobRow) : List Step :=
  planMigration j.maintenanceMb (j.emitted.map (List.map Prod.snd))

/-- Which walk a step of the plan is. -/
def JobRow.walkAt (j : JobRow) (ordinal : Nat) : Option WalkId :=
  (walksOf j.digest j.emitted)[ordinal]?.join

/-- The steps that walk, by the numbers the plan gives them, are those that have a walk. -/
theorem JobRow.isWalk_eq (j : JobRow) (ordinal : Nat) :
    (j.steps[ordinal]?).any isWalk = (j.walkAt ordinal).isSome := by
  have hmap := congrArg (·[ordinal]?) (isWalk_planMigration j.digest j.maintenanceMb j.emitted)
  simp only [List.getElem?_map] at hmap
  unfold JobRow.steps JobRow.walkAt
  cases hstep : (planMigration j.maintenanceMb (j.emitted.map (List.map Prod.snd)))[ordinal]? with
  | none =>
    rw [hstep] at hmap
    cases hwalk : (walksOf j.digest j.emitted)[ordinal]? with
    | none => rfl
    | some w =>
      rw [hwalk] at hmap
      cases hmap
  | some step =>
    rw [hstep] at hmap
    cases hwalk : (walksOf j.digest j.emitted)[ordinal]? with
    | none =>
      rw [hwalk] at hmap
      cases hmap
    | some w =>
      rw [hwalk] at hmap
      simpa using hmap

/-- A row of `laswell.backfill_cursor`. -/
structure CursorRow where
  job : Nat
  ordinal : Nat
  lastKey : String
  deriving DecidableEq

/-- Jobs by number, and the cursors with the one last updated first. -/
structure Ledger where
  jobs : List JobRow := []
  cursors : List CursorRow := []

/-- A job that did not succeed. -/
def Ledger.leftOff (l : Ledger) (job : Nat) : Bool := (l.jobs[job]?).any fun j => j.ending.resumes

/-- A job of the specification that did not succeed. -/
def Ledger.resumable (l : Ledger) (digest : String) (job : Nat) : Bool :=
  (l.jobs[job]?).any fun j => decide (j.digest = digest) && j.ending.resumes

/-- The cursor last updated of those at this ordinal. -/
def Ledger.findCursor (l : Ledger) (digest : String) (ordinal : Nat) : Option CursorRow :=
  l.cursors.find? fun r => decide (r.ordinal = ordinal) && l.resumable digest r.job

/-- The walk whose transaction wrote a cursor. -/
def Ledger.writer (l : Ledger) (r : CursorRow) : Option WalkId :=
  (l.jobs[r.job]?).bind fun j => j.walkAt r.ordinal

/-- `ON CONFLICT (job_id, ordinal) DO UPDATE` -/
def Ledger.upsert (l : Ledger) (r : CursorRow) : Ledger :=
  { l with cursors :=
      r :: l.cursors.filter fun r' => !decide (r'.job = r.job ∧ r'.ordinal = r.ordinal) }

def Ledger.finish (l : Ledger) (job : Nat) (ending : Ending) : Ledger :=
  { l with jobs := l.jobs.modify job fun j => { j with ending } }

/-! ## Jobs -/

section Jobs

variable {γ κ ρ : Type} [LinearOrder γ] [LinearOrder κ]

/-- A walk as its step has it. `checked`: there is a predicate that tells its rows, the ones still
to do from the others, so a cursor is checked before it is taken over. -/
structure Paced (γ κ ρ : Type) where
  rel : Relation γ κ ρ
  form : WalkForm
  checked : Bool
  single : Bool := false
  confined : Bool := false

/-- The statement over the whole table is the mutation without a position. -/
def Paced.walk (p : Paced γ κ ρ) (ordinal : Nat) : Walk (Table γ κ ρ) where
  ordinal := ordinal
  single := if p.single then some fun d => .ok (p.rel.mutate (fun _ => true) d) else none
  sql := p.rel.walkSql p.form
  confined := p.confined

/-- A walk under way: the highest key it goes to, and how far it has got. -/
structure Walking where
  walk : WalkId
  ordinal : Nat
  upto : List (Option String)
  vars : WalkVars

/-- The job that is running. -/
structure Running where
  job : Nat
  walking : Option Walking := none

/-- A walk that took up at a cursor: whose it was, and its rows at that moment. -/
structure Resumption (γ κ ρ : Type) where
  walk : WalkId
  lastKey : String
  writer : Option WalkId
  rows : Table γ κ ρ
  deriving DecidableEq

/-- `tables` are the rows each walk goes over, as the database has them. -/
structure World (γ κ ρ : Type) where
  ledger : Ledger := {}
  tables : WalkId → Table γ κ ρ
  running : Option Running := none
  resumed : List (Resumption γ κ ρ) := []

/-- What the world outside does while a part of a walk runs, and for how long it does. -/
structure Run where
  env : Env := {}
  cfg : Executor.Config := {}
  fuel : Nat

/-- `arrive` and `remove` are what others write; a row that they change is one that goes and one
that comes. `enter` is a walk's beginning, with the upper bound it reads, and `txn` one of its
transactions. -/
inductive Event (γ κ ρ : Type) where
  | arrive (w : WalkId) (group : γ) (key : κ) (value : ρ)
  | remove (w : WalkId) (group : γ) (key : κ)
  | start (digest : String) (maintenanceMb : Int) (emitted : List (List (Nat × Step)))
  | enter (ordinal : Nat) (readable : Bool) (upto : List (Option String)) (run : Run)
  | txn (run : Run)
  | finish (ending : Ending)

/-- The worker, as a part of a walk begins. -/
def between (d : Table γ κ ρ) : Executor.World (Table γ κ ρ) :=
  { durable := { data := d }, jobState := .running, jobLog := [.published .running] }

variable (codec : ArrayText) (paced : WalkId → Paced γ κ ρ)

def World.setTable (s : World γ κ ρ) (w : WalkId) (d : Table γ κ ρ) : World γ κ ρ :=
  { s with tables := Function.update s.tables w d }

section SetTable

variable (s : World γ κ ρ) {w w' : WalkId} (d : Table γ κ ρ)

omit [LinearOrder γ] [LinearOrder κ]

@[simp] theorem setTable_tables_self : (s.setTable w d).tables w = d := Function.update_self ..

@[simp] theorem setTable_tables_of_ne (h : w' ≠ w) : (s.setTable w d).tables w' = s.tables w' :=
  Function.update_of_ne h ..

end SetTable

/-- `resume_cursor`; a ledger that cannot be read starts the walk over. -/
def World.resumeCursor (s : World γ κ ρ) (readable : Bool) (digest : String) (w : WalkId)
    (ordinal : Nat) : Option CursorRow :=
  if readable then
    (s.ledger.findCursor digest ordinal).filter fun r =>
      !((paced w).checked &&
        cursorIsStale codec (paced w).rel (paced w).form r.lastKey (s.tables w))
  else none

/-- The beginning of a walk: the cursor it takes up at, and the statement over the whole table
where there is none. -/
def Paced.begins (p : Paced γ κ ρ) (ordinal : Nat) (cursor : String) (run : Run)
    (d : Table γ κ ρ) : Outcome Failure SingleEnd × Executor.World (Table γ κ ρ) :=
  singleStatement run.env run.cfg run.fuel (p.walk ordinal) cursor (between d)

/-- One transaction of a walk. -/
def Paced.transaction (p : Paced γ κ ρ) (v : Walking) (run : Run) (d : Table γ κ ρ) :
    Outcome Failure (WalkVars ⊕ Option WalkVars) × Executor.World (Table γ κ ρ) :=
  walkTxn run.env run.cfg codec run.fuel (p.walk v.ordinal) v.upto v.vars (between d)

/-- Where a walk is after its beginning, if it goes on. -/
def Walking.enters (w : WalkId) (ordinal : Nat) (upto : List (Option String)) (cursor : String)
    (started : Int) : Outcome Failure SingleEnd → Option Walking
  | .ok .walk => some { walk := w, ordinal, upto, vars := { cursor, progressAskedMs := started } }
  | .ok (.done _) => none
  | .ok .stopped => none
  | .err _ => none
  | .out => none

/-- Where a walk is after a transaction, if it goes on. -/
def Walking.after (v : Walking) : Outcome Failure (WalkVars ⊕ Option WalkVars) → Option Walking
  | .ok (.inl vars) => some { v with vars }
  | .ok (.inr _) => none
  | .err _ => none
  | .out => none

/-- The cursor a transaction committed. -/
def Ledger.record (l : Ledger) (job ordinal : Nat) (committed : Option Executor.CursorRow) :
    Ledger :=
  match committed with
  | none => l
  | some row => l.upsert { job, ordinal, lastKey := row.lastKey }

/-- A walk's beginning, from the cursor that was found for it. -/
def World.begin (s : World γ κ ρ) (r : Running) (w : WalkId) (ordinal : Nat)
    (upto : List (Option String)) (run : Run) (row : Option CursorRow) : World γ κ ρ :=
  let cursor := (row.map CursorRow.lastKey).getD "0"
  let out := (paced w).begins ordinal cursor run (s.tables w)
  { s.setTable w out.2.durable.data with
    running := some { r with
      walking := Walking.enters w ordinal upto cursor (run.env.steadyMs 0) out.1 }
    resumed := match row with
      | none => s.resumed
      | some row => ⟨w, row.lastKey, s.ledger.writer row, s.tables w⟩ :: s.resumed }

/-- What a transaction of the walk left. -/
def World.afterTxn (s : World γ κ ρ) (r : Running) (v : Walking)
    (out : Outcome Failure (WalkVars ⊕ Option WalkVars) × Executor.World (Table γ κ ρ)) :
    World γ κ ρ :=
  { s.setTable v.walk out.2.durable.data with
    ledger := s.ledger.record r.job v.ordinal (out.2.durable.cursors v.ordinal)
    running := some { r with walking := v.after out.1 } }

def World.step (s : World γ κ ρ) : Event γ κ ρ → Option (World γ κ ρ)
  | .arrive w group key value =>
    some (s.setTable w (Row.fresh group key value :: s.tables w))
  | .remove w group key =>
    some (s.setTable w ((s.tables w).filter fun r => !decide (r.group = group ∧ r.key = key)))
  | .start digest maintenanceMb emitted =>
    if s.running.isSome then none
    else some { s with
      ledger := { s.ledger with
        jobs := s.ledger.jobs ++ [{ digest, maintenanceMb, emitted }] }
      running := some { job := s.ledger.jobs.length } }
  | .enter ordinal readable upto run => do
    let r ← s.running
    let j ← s.ledger.jobs[r.job]?
    if r.walking.isNone && (j.steps[ordinal]?).any isWalk then
      let w ← j.walkAt ordinal
      pure (s.begin paced r w ordinal upto run
        (s.resumeCursor codec paced readable j.digest w ordinal))
    else none
  | .txn run => do
    let r ← s.running
    let v ← r.walking
    pure (s.afterTxn r v ((paced v.walk).transaction codec v run (s.tables v.walk)))
  | .finish ending => do
    let r ← s.running
    pure { s with ledger := s.ledger.finish r.job ending, running := none }

/-- Runs whose every event `P` allows. -/
def World.Runs (P : World γ κ ρ → Event γ κ ρ → Prop) : World γ κ ρ → World γ κ ρ → Prop :=
  Relation.ReflTransGen fun s s' => ∃ e, P s e ∧ s.step codec paced e = some s'

def World.run : List (Event γ κ ρ) → World γ κ ρ → Option (World γ κ ρ)
  | [], s => some s
  | e :: es, s => (s.step codec paced e).bind (World.run es)

/-- Nothing has been planned yet. -/
def World.initial (rows : WalkId → List (γ × κ × ρ)) : World γ κ ρ :=
  { tables := fun w => Table.fresh (rows w) }

/-- Whatever was resumed was a cursor of the same walk, and had left no row behind. -/
def World.Sound (s : World γ κ ρ) : Prop :=
  ∀ r ∈ s.resumed, r.writer = some r.walk ∧
    Claim codec (paced r.walk).rel (paced r.walk).form r.lastKey r.rows

/-- The plan of a job agrees with those of the earlier jobs of its specification that did not
succeed, at the ordinals they left cursors under. And for a walk whose cursor nothing checks: no
row that it is to apply comes in at or below a cursor of it, or at or below where it stands; a walk
that starts over has none to apply at or below the sentinel; and each batch of it that the observer
had cancelled was the first of its transaction. -/
def Stable (s : World γ κ ρ) : Event γ κ ρ → Prop
  | .start digest maintenanceMb emitted => ∀ r ∈ s.ledger.cursors,
      s.ledger.resumable digest r.job = true →
      ∀ w ∈ JobRow.walkAt { digest, maintenanceMb, emitted } r.ordinal,
        s.ledger.writer r = some w
  | .arrive w group key value =>
      (paced w).checked = false → (paced w).rel.filter value = true →
      (∀ r ∈ s.ledger.cursors, s.ledger.leftOff r.job = true → s.ledger.writer r = some w →
        ¬ Executor.Covers codec (paced w).rel (paced w).form r.lastKey group key) ∧
      ∀ r ∈ s.running, ∀ v ∈ r.walking, v.walk = w →
        ¬ Executor.Covers codec (paced w).rel (paced w).form v.vars.cursor group key
  | .enter ordinal readable _ _ =>
      ∀ r ∈ s.running, ∀ j ∈ s.ledger.jobs[r.job]?, ∀ w ∈ j.walkAt ordinal,
        (paced w).checked = false →
        s.resumeCursor codec paced readable j.digest w ordinal = none →
        Claim codec (paced w).rel (paced w).form "0" (s.tables w)
  | .txn run =>
      ∀ r ∈ s.running, ∀ v ∈ r.walking, (paced v.walk).checked = false →
        CancelsFirst ((paced v.walk).transaction codec v run (s.tables v.walk)).2.walkLog
  | .remove _ _ _ => True
  | .finish _ => True

instance decidableStable (s : World γ κ ρ) :
    ∀ e, Decidable (Stable codec paced s e)
  | .start _ _ _ => by dsimp only [Stable]; infer_instance
  | .arrive _ _ _ _ => by dsimp only [Stable]; infer_instance
  | .enter _ _ _ _ => by dsimp only [Stable]; infer_instance
  | .txn _ => by dsimp only [Stable]; infer_instance
  | .remove _ _ _ => isTrue trivial
  | .finish _ => isTrue trivial

/-- A run, as long as its events are stable. -/
def World.runStable : List (Event γ κ ρ) → World γ κ ρ → Option (World γ κ ρ)
  | [], s => some s
  | e :: es, s =>
    if Stable codec paced s e then (s.step codec paced e).bind (World.runStable es) else none

theorem runs_of_runStable : ∀ (es : List (Event γ κ ρ)) (s : World γ κ ρ) {s' : World γ κ ρ},
    World.runStable codec paced es s = some s' →
      World.Runs codec paced (Stable codec paced) s s'
  | [], _, _, h => by
    cases h
    exact .refl
  | e :: es, s, s', h => by
    rw [World.runStable] at h
    split at h
    · obtain ⟨s₁, hs₁, h⟩ := Option.bind_eq_some_iff.1 h
      exact .head ⟨e, ‹_›, hs₁⟩ (runs_of_runStable es s₁ h)
    · cases h

end Jobs

/-! ## What a walk keeps -/

section Keeps

variable {γ κ ρ : Type} [LinearOrder γ] [LinearOrder κ] {codec : ArrayText} {p : Paced γ κ ρ}
  {d : Table γ κ ρ}

/-- What was claimed of the rows is still true of them, and they hold what the walk found until it
changes them. -/
structure Follows (codec : ArrayText) (p : Paced γ κ ρ) (d d' : Table γ κ ρ) : Prop where
  claims : ∀ c, Claim codec p.rel p.form c d → Claim codec p.rel p.form c d'
  sound : (∀ r ∈ d, r.Sound) → ∀ r ∈ d', r.Sound

theorem Follows.refl : Follows codec p d d := ⟨fun _ h => h, fun h => h⟩

theorem Follows.mutate {d' : Table γ κ ρ} (h : Follows codec p d d') (named : Row γ κ ρ → Bool) :
    Follows codec p d (p.rel.mutate named d').2 := by
  refine ⟨fun c hc => (h.claims c hc).mutate named, fun hd r hr => ?_⟩
  obtain ⟨r₀, hr₀, rfl⟩ := List.mem_map.1 hr
  exact Row.mutate_sound (h.sound hd r₀ hr₀)

/-- The statement over the whole table takes no claim back. -/
theorem Paced.begins_follows (ordinal : Nat) (cursor : String) (run : Run) :
    Follows codec p d (p.begins ordinal cursor run d).2.durable.data := by
  have hkeeps : Prog.Keeps (Within (Follows codec p d))
      (singleStatement run.env run.cfg run.fuel (p.walk ordinal) cursor) :=
    singleStatement_within ?_ run.fuel cursor
  · exact (hkeeps (between d) ⟨Follows.refl, nofun⟩).1
  intro stmt hstmt d' rows d'' hd' hrun
  simp only [Paced.walk] at hstmt
  split at hstmt
  · cases hstmt
    cases hrun
    exact hd'.mutate _
  · cases hstmt

/-- What a transaction of a walk leaves: the cursor it committed, and the one the walk goes on
from, claim no more than is done. -/
structure Moved (codec : ArrayText) (p : Paced γ κ ρ) (v : Walking) (d : Table γ κ ρ)
    (out : Outcome Failure (WalkVars ⊕ Option WalkVars) × Executor.World (Table γ κ ρ)) :
    Prop where
  follows : Follows codec p d out.2.durable.data
  committed : ∀ row, out.2.durable.cursors v.ordinal = some row →
    Claim codec p.rel p.form row.lastKey out.2.durable.data
  goesOn : ∀ v', v.after out.1 = some v' →
    Claim codec p.rel p.form v'.vars.cursor out.2.durable.data

theorem Paced.transaction_moved {v : Walking} {run : Run} (hsound : ∀ r ∈ d, r.Sound)
    (hclaim : Claim codec p.rel p.form v.vars.cursor d)
    (hcancels : CancelsFirst (p.transaction codec v run d).2.walkLog) :
    Moved codec p v d (p.transaction codec v run d) := by
  let P (c : String) (d' : Table γ κ ρ) : Prop :=
    Swept codec p.rel p.form (d.map Row.site) v.vars.cursor c d' ∧ Follows codec p d d'
  have hsql : (p.walk v.ordinal).sql.Sweeps codec P :=
    (walkSql_sweeps p.form).and (walkSql_keeps (fun named _ h => h.mutate named) p.form)
  have hclaims : ∀ c d', P c d' → Claim codec p.rel p.form c d' := fun c d' h =>
    Claim.of_swept h.1 (h.2.claims _ hclaim)
  have hrest : AtRest P v.vars.cursor v.ordinal [] [] v.vars.cursor (between d) :=
    ⟨⟨rfl, ⟨rfl, rfl, 0, rfl⟩, ⟨by simp [Calm, between], rfl⟩, fun _ => trivial⟩,
      fun _ => ⟨rfl, ⟨rfl, hsound, fun _ _ _ h => .inl h⟩, Follows.refl⟩⟩
  have hdone : TxnDone P v.vars.cursor v.ordinal [] [] (p.transaction codec v run d).1
      (p.transaction codec v run d).2 := walkTxn_spec hsql v.upto run.fuel hrest
  have hrecorded : (walkTxn run.env run.cfg codec run.fuel (p.walk v.ordinal) v.upto v.vars).Wp
      (fun _ w => Recorded v.ordinal { data := d } w) (between d) :=
    walkTxn_recorded ⟨rfl, rfl⟩ run.fuel v.upto v.vars
  have hrec : Recorded v.ordinal { data := d } (p.transaction codec v run d).2 := hrecorded
  have hgoesOn : ∀ v', v.after (p.transaction codec v run d).1 = some v' →
      Claim codec p.rel p.form v'.vars.cursor (p.transaction codec v run d).2.durable.data := by
    intro v' hv'
    rcases hout : (p.transaction codec v run d).1 with (vars | _) | e | _ <;>
      rw [hout] at hv' hdone <;> cases hv'
    exact hclaims _ _ (hdone.2 hcancels).2
  rcases hrec with ⟨hsame, -⟩ | ⟨row, hlog, hrow⟩
  · rw [hsame] at hgoesOn
    refine ⟨by rw [hsame]; exact Follows.refl, fun row hrow => ?_, by rw [hsame]; exact hgoesOn⟩
    rw [hsame] at hrow
    cases hrow
  · have hP := (hdone.faithful hcancels).lastCommit hlog
    refine ⟨hP.2, fun row' hrow' => ?_, hgoesOn⟩
    rw [hrow] at hrow'
    cases hrow'
    exact hclaims _ _ hP

theorem Follows.remove (gone : Row γ κ ρ → Bool) : Follows codec p d (d.filter gone) :=
  ⟨fun _ h r hr => h r (List.mem_of_mem_filter hr), fun h r hr => h r (List.mem_of_mem_filter hr)⟩

/-- A row that comes in leaves a claim as it was, where the claim is not about it. -/
theorem Claim.arrive {c : String} (h : Claim codec p.rel p.form c d) {group : γ} {key : κ}
    {value : ρ} (hout : p.rel.filter value = true → ¬ Executor.Covers codec p.rel p.form c group key) :
    Claim codec p.rel p.form c (Row.fresh group key value :: d) := by
  intro r hr hun
  rcases List.mem_cons.1 hr with rfl | hr
  · refine hout ?_
    simpa [unapplied, Row.matched, Row.fresh] using hun
  · exact h r hr hun

omit [LinearOrder γ] [LinearOrder κ] in
theorem sound_arrive (h : ∀ r ∈ d, r.Sound) (group : γ) (key : κ) (value : ρ) :
    ∀ r ∈ Row.fresh group key value :: d, r.Sound := by
  intro r hr
  rcases List.mem_cons.1 hr with rfl | hr
  · exact fun _ => rfl
  · exact h r hr

end Keeps

/-! ## What holds between events -/

section Rows

variable {l : Ledger} {r row : CursorRow}

theorem writer_append (j : JobRow) (h : r.job < l.jobs.length) :
    Ledger.writer { l with jobs := l.jobs ++ [j] } r = l.writer r := by
  simp [Ledger.writer, List.getElem?_append_left h]

theorem resumable_append {digest : String} {job : Nat} (j : JobRow) (h : job < l.jobs.length) :
    Ledger.resumable { l with jobs := l.jobs ++ [j] } digest job = l.resumable digest job := by
  simp [Ledger.resumable, List.getElem?_append_left h]

theorem leftOff_append {job : Nat} (j : JobRow) (h : job < l.jobs.length) :
    Ledger.leftOff { l with jobs := l.jobs ++ [j] } job = l.leftOff job := by
  simp [Ledger.leftOff, List.getElem?_append_left h]

theorem leftOff_of_resumable {digest : String} {job : Nat} (h : l.resumable digest job = true) :
    l.leftOff job = true := by
  unfold Ledger.resumable at h
  unfold Ledger.leftOff
  cases hj : l.jobs[job]? with
  | none =>
    rw [hj] at h
    cases h
  | some j =>
    rw [hj] at h
    exact (Bool.and_eq_true_iff.1 h).2

/-- A job that ends keeps its plan. -/
theorem writer_finish {job : Nat} {ending : Ending} :
    (l.finish job ending).writer r = l.writer r := by
  unfold Ledger.writer Ledger.finish
  rw [List.getElem?_modify]
  cases l.jobs[r.job]? with
  | none => rfl
  | some j =>
    by_cases h : job = r.job
    · simp [h, JobRow.walkAt]
    · simp [h]

/-- What was left off after a job ended was so before, while it ran. -/
theorem leftOff_finish {job job' : Nat} {ending : Ending} {j : JobRow}
    (hj : l.jobs[job]? = some j) (hopen : j.ending = .unfinished)
    (h : (l.finish job ending).leftOff job' = true) : l.leftOff job' = true := by
  unfold Ledger.leftOff Ledger.finish at h
  rw [List.getElem?_modify] at h
  by_cases hjob : job = job'
  · subst hjob
    simp [Ledger.leftOff, hj, hopen, Ending.resumes]
  · simpa [Ledger.leftOff, hjob] using h

theorem mem_upsert (h : row ∈ (l.upsert r).cursors) : row = r ∨ row ∈ l.cursors := by
  cases h with
  | head => exact .inl rfl
  | tail _ h => exact .inr (List.mem_of_mem_filter h)

/-- A cursor of the ledger after a transaction was there before, or is the one that was
committed. -/
theorem mem_record {job ordinal : Nat} {committed : Option Executor.CursorRow}
    (h : row ∈ (l.record job ordinal committed).cursors) : row ∈ l.cursors ∨
      ∃ c, committed = some c ∧ row = { job, ordinal, lastKey := c.lastKey } := by
  cases committed with
  | none => exact .inl h
  | some c =>
    rcases mem_upsert h with rfl | h
    · exact .inr ⟨c, rfl, rfl⟩
    · exact .inl h

theorem record_jobs (job ordinal : Nat) (committed : Option Executor.CursorRow) :
    (l.record job ordinal committed).jobs = l.jobs := by
  cases committed <;> rfl

theorem writer_record (job ordinal : Nat) (committed : Option Executor.CursorRow) :
    (l.record job ordinal committed).writer r = l.writer r := by
  cases committed <;> rfl

theorem leftOff_record (job ordinal : Nat) (committed : Option Executor.CursorRow) (job' : Nat) :
    (l.record job ordinal committed).leftOff job' = l.leftOff job' := by
  cases committed <;> rfl

theorem resumable_record (job ordinal : Nat) (committed : Option Executor.CursorRow)
    (digest : String) (job' : Nat) :
    (l.record job ordinal committed).resumable digest job' = l.resumable digest job' := by
  cases committed <;> rfl

end Rows

section Steps

variable {γ κ ρ : Type} [LinearOrder γ] [LinearOrder κ] {codec : ArrayText}
  {paced : WalkId → Paced γ κ ρ} {s s' : World γ κ ρ}

/-- What a cursor of the walk claims of its rows, where nothing checks it. -/
def Holds (codec : ArrayText) (paced : WalkId → Paced γ κ ρ) (s : World γ κ ρ) (w : WalkId)
    (c : String) : Prop :=
  (paced w).checked = false → Claim codec (paced w).rel (paced w).form c (s.tables w)

/-- The running job's plan agrees with the cursors there are, and its walk stands where it may. -/
structure Agrees (codec : ArrayText) (paced : WalkId → Paced γ κ ρ) (s : World γ κ ρ)
    (r : Running) (j : JobRow) : Prop where
  job : s.ledger.jobs[r.job]? = some j
  unfinished : j.ending = .unfinished
  cursors : ∀ row ∈ s.ledger.cursors, s.ledger.resumable j.digest row.job = true →
    ∀ w, j.walkAt row.ordinal = some w → s.ledger.writer row = some w
  walk : ∀ v, r.walking = some v → j.walkAt v.ordinal = some v.walk
  position : ∀ v, r.walking = some v → Holds codec paced s v.walk v.vars.cursor

structure ResumeInv (codec : ArrayText) (paced : WalkId → Paced γ κ ρ) (s : World γ κ ρ) :
    Prop where
  recorded : ∀ row ∈ s.ledger.cursors, row.job < s.ledger.jobs.length
  holds : ∀ row ∈ s.ledger.cursors, s.ledger.leftOff row.job = true →
    ∀ w, s.ledger.writer row = some w → Holds codec paced s w row.lastKey
  rows : ∀ w, (paced w).checked = false → ∀ r ∈ s.tables w, r.Sound
  agrees : ∀ r, s.running = some r → ∃ j, Agrees codec paced s r j
  sound : s.Sound codec paced

/-- The rows of another walk are as they were. -/
theorem Holds.setTable {w w' : WalkId} {c : String} {d : Table γ κ ρ}
    (h : Holds codec paced s w' c)
    (hd : w' = w → (paced w).checked = false →
      Claim codec (paced w).rel (paced w).form c (s.tables w) →
      Claim codec (paced w).rel (paced w).form c d) :
    Holds codec paced (s.setTable w d) w' c := by
  intro hc
  by_cases hw : w' = w
  · subst hw
    rw [setTable_tables_self]
    exact hd rfl hc (h hc)
  · rw [setTable_tables_of_ne s d hw]
    exact h hc

omit [LinearOrder γ] [LinearOrder κ] in
theorem rows_setTable {w : WalkId} {d : Table γ κ ρ}
    (h : ∀ w, (paced w).checked = false → ∀ r ∈ s.tables w, r.Sound)
    (hd : (∀ r ∈ s.tables w, r.Sound) → ∀ r ∈ d, r.Sound) :
    ∀ w', (paced w').checked = false → ∀ r ∈ (s.setTable w d).tables w', r.Sound := by
  intro w' hc
  by_cases hw : w' = w
  · subst hw
    rw [setTable_tables_self]
    exact hd (h w' hc)
  · rw [setTable_tables_of_ne s d hw]
    exact h w' hc

/-- The rows of a walk change, and every claim that may be taken up, or that the walk stands by,
is kept. -/
theorem ResumeInv.setTable (h : ResumeInv codec paced s) {w : WalkId} {d : Table γ κ ρ}
    (hrows : (∀ r ∈ s.tables w, r.Sound) → ∀ r ∈ d, r.Sound)
    (hcursors : (paced w).checked = false → ∀ row ∈ s.ledger.cursors,
      s.ledger.leftOff row.job = true → s.ledger.writer row = some w →
      Claim codec (paced w).rel (paced w).form row.lastKey (s.tables w) →
      Claim codec (paced w).rel (paced w).form row.lastKey d)
    (hposition : (paced w).checked = false → ∀ r, s.running = some r → ∀ v, r.walking = some v →
      v.walk = w → Claim codec (paced w).rel (paced w).form v.vars.cursor (s.tables w) →
      Claim codec (paced w).rel (paced w).form v.vars.cursor d) :
    ResumeInv codec paced (s.setTable w d) := by
  refine ⟨h.recorded, fun row hrow hleft w' hw' => ?_, rows_setTable h.rows hrows,
    fun r hr => ?_, h.sound⟩
  · refine (h.holds row hrow hleft w' hw').setTable fun heq hc => ?_
    subst heq
    exact hcursors hc row hrow hleft hw'
  · obtain ⟨j, hj⟩ := h.agrees r hr
    refine ⟨j, hj.job, hj.unfinished, hj.cursors, hj.walk, fun v hv => ?_⟩
    exact (hj.position v hv).setTable fun heq hc => hposition hc r hr v hv heq

theorem ResumeInv.arrive (h : ResumeInv codec paced s) {w : WalkId} {group : γ} {key : κ}
    {value : ρ} (hstable : Stable codec paced s (.arrive w group key value)) :
    ResumeInv codec paced (s.setTable w (Row.fresh group key value :: s.tables w)) := by
  refine h.setTable (fun hd => sound_arrive hd group key value)
    (fun hc row hrow hleft hw hclaim => hclaim.arrive fun hf => ?_)
    fun hc r hr v hv hw hclaim => hclaim.arrive fun hf => ?_
  · exact (hstable hc hf).1 row hrow hleft hw
  · exact (hstable hc hf).2 r hr v hv hw

theorem ResumeInv.remove (h : ResumeInv codec paced s) (w : WalkId) (gone : Row γ κ ρ → Bool) :
    ResumeInv codec paced (s.setTable w ((s.tables w).filter gone)) := by
  have hfollows : Follows codec (paced w) (s.tables w) ((s.tables w).filter gone) :=
    Follows.remove gone
  exact h.setTable hfollows.sound (fun _ row _ _ _ => hfollows.claims row.lastKey)
    fun _ _ _ v _ _ => hfollows.claims v.vars.cursor

theorem ResumeInv.start (h : ResumeInv codec paced s) {digest : String} {maintenanceMb : Int}
    {emitted : List (List (Nat × Step))}
    (hstable : Stable codec paced s (.start digest maintenanceMb emitted)) :
    ResumeInv codec paced { s with
      ledger := { s.ledger with
        jobs := s.ledger.jobs ++ [{ digest, maintenanceMb, emitted }] }
      running := some { job := s.ledger.jobs.length } } := by
  refine ⟨fun row hrow => ?_, fun row hrow hleft w hw => ?_, h.rows, fun r hr => ?_, h.sound⟩
  · have := h.recorded row hrow
    simp only [List.length_append, List.length_singleton]
    omega
  · rw [writer_append _ (h.recorded row hrow)] at hw
    rw [leftOff_append _ (h.recorded row hrow)] at hleft
    exact h.holds row hrow hleft w hw
  · cases hr
    refine ⟨_, List.getElem?_concat_length, rfl, fun row hrow hres w hw => ?_,
      fun v hv => (nomatch hv), fun v hv => (nomatch hv)⟩
    rw [resumable_append _ (h.recorded row hrow)] at hres
    rw [writer_append _ (h.recorded row hrow)]
    exact hstable row hrow hres w hw

/-- What a walk takes up at is a cursor of its own, and it left nothing behind. -/
theorem ResumeInv.resumed (h : ResumeInv codec paced s) {r : Running} {j : JobRow}
    (hj : Agrees codec paced s r j) {w : WalkId} {ordinal : Nat} (hw : j.walkAt ordinal = some w)
    {readable : Bool} {row : CursorRow}
    (hrow : s.resumeCursor codec paced readable j.digest w ordinal = some row) :
    s.ledger.writer row = some w ∧
      Claim codec (paced w).rel (paced w).form row.lastKey (s.tables w) := by
  unfold World.resumeCursor at hrow
  split at hrow
  · obtain ⟨hfind, hfresh⟩ := Option.filter_eq_some_iff.1 hrow
    have hmem := List.mem_of_find?_eq_some hfind
    have hmatch := List.find?_some hfind
    simp only [Bool.and_eq_true, decide_eq_true_eq] at hmatch
    obtain ⟨rfl, hres⟩ := hmatch
    have hwriter := hj.cursors row hmem hres w hw
    refine ⟨hwriter, ?_⟩
    by_cases hc : (paced w).checked = true
    · refine Claim.of_not_stale ?_
      simpa [hc] using hfresh
    · exact h.holds row hmem (leftOff_of_resumable hres) w hwriter (by simpa using hc)
  · cases hrow

/-- A walk goes on from the cursor it was begun at. -/
theorem Walking.enters_eq_some {w : WalkId} {ordinal : Nat} {upto : List (Option String)}
    {cursor : String} {started : Int} {o : Outcome Failure SingleEnd} {v : Walking}
    (h : Walking.enters w ordinal upto cursor started o = some v) :
    v.walk = w ∧ v.ordinal = ordinal ∧ v.vars.cursor = cursor := by
  rcases o with (_ | rows | _) | e | _ <;> cases h
  exact ⟨rfl, rfl, rfl⟩

theorem Walking.after_eq_some {v v' : Walking}
    {o : Outcome Failure (WalkVars ⊕ Option WalkVars)} (h : v.after o = some v') :
    v'.walk = v.walk ∧ v'.ordinal = v.ordinal := by
  rcases o with (vars | _) | e | _ <;> cases h
  exact ⟨rfl, rfl⟩

theorem ResumeInv.begin (h : ResumeInv codec paced s) {r : Running} {j : JobRow}
    (hj : Agrees codec paced s r j) {w : WalkId} {ordinal : Nat} (hw : j.walkAt ordinal = some w)
    (upto : List (Option String)) (run : Run)
    {row : Option CursorRow} (hfresh : row = none → Holds codec paced s w "0")
    (hrow : ∀ x, row = some x → s.ledger.writer x = some w ∧
      Claim codec (paced w).rel (paced w).form x.lastKey (s.tables w)) :
    ResumeInv codec paced (s.begin paced r w ordinal upto run row) := by
  have hfollows : Follows codec (paced w) (s.tables w) _ :=
    Paced.begins_follows ordinal ((row.map CursorRow.lastKey).getD "0") run
  have hstart : Holds codec paced s w ((row.map CursorRow.lastKey).getD "0") := by
    cases row with
    | none => exact hfresh rfl
    | some x => exact fun _ => (hrow x rfl).2
  have hrest : ResumeInv codec paced (s.setTable w _) := h.setTable hfollows.sound
    (fun _ row _ _ _ => hfollows.claims row.lastKey)
    fun _ _ _ v _ _ => hfollows.claims v.vars.cursor
  refine ⟨hrest.recorded, hrest.holds, hrest.rows, fun r' hr' => ?_, fun x hx => ?_⟩
  · cases hr'
    refine ⟨j, hj.job, hj.unfinished, hj.cursors, fun v hv => ?_, fun v hv => ?_⟩
    · obtain ⟨hwalk, hordinal, -⟩ := Walking.enters_eq_some hv
      rw [hwalk, hordinal]
      exact hw
    · obtain ⟨hwalk, -, hcursor⟩ := Walking.enters_eq_some hv
      rw [hwalk, hcursor]
      exact hstart.setTable fun _ _ => hfollows.claims _
  · cases row with
    | none => exact h.sound x hx
    | some row =>
      rcases List.mem_cons.1 hx with rfl | hx
      · exact hrow row rfl
      · exact h.sound x hx

theorem ResumeInv.enter (h : ResumeInv codec paced s) {ordinal : Nat} {readable : Bool}
    {upto : List (Option String)} {run : Run}
    (hstable : Stable codec paced s (.enter ordinal readable upto run))
    (hs : s.step codec paced (.enter ordinal readable upto run) = some s') :
    ResumeInv codec paced s' := by
  cases hr : s.running with
  | none => simp [World.step, hr] at hs
  | some r =>
    obtain ⟨j, hj⟩ := h.agrees r hr
    simp only [World.step, hr, hj.job, Option.bind_eq_bind, Option.bind_some] at hs
    split at hs
    · obtain ⟨w, hw, hs⟩ := Option.bind_eq_some_iff.1 hs
      cases hs
      refine h.begin hj hw upto run (fun hnone hc => ?_) fun row hrow => h.resumed hj hw hrow
      exact hstable r hr j hj.job w hw hc hnone
    · cases hs

/-- A walk that has no other under way begins wherever the plan has it. -/
theorem step_enter {r : Running} (hr : s.running = some r) {j : JobRow}
    (hj : s.ledger.jobs[r.job]? = some j) (hnone : r.walking = none) {ordinal : Nat}
    (hwalk : (j.steps[ordinal]?).any isWalk = true) (readable : Bool)
    (upto : List (Option String)) (run : Run) :
    ∃ w, j.walkAt ordinal = some w ∧ s.step codec paced (.enter ordinal readable upto run) =
      some (s.begin paced r w ordinal upto run
        (s.resumeCursor codec paced readable j.digest w ordinal)) := by
  obtain ⟨w, hw⟩ := Option.isSome_iff_exists.1 ((j.isWalk_eq ordinal).symm.trans hwalk)
  refine ⟨w, hw, ?_⟩
  simp [World.step, hr, hj, hnone, hwalk, hw]

theorem ResumeInv.afterTxn (h : ResumeInv codec paced s) {r : Running} (hr : s.running = some r)
    {v : Walking} (hv : r.walking = some v)
    {out : Outcome Failure (WalkVars ⊕ Option WalkVars) × Executor.World (Table γ κ ρ)}
    (hmoved : (paced v.walk).checked = false →
      Moved codec (paced v.walk) v (s.tables v.walk) out) :
    ResumeInv codec paced (s.afterTxn r v out) := by
  obtain ⟨j, hj⟩ := h.agrees r hr
  have hwalk := hj.walk v hv
  have hwriter : ∀ c, s.ledger.writer ⟨r.job, v.ordinal, c⟩ = some v.walk := by
    simp [Ledger.writer, hj.job, hwalk]
  have hold : ∀ {w c}, Holds codec paced s w c →
      Holds codec paced (s.setTable v.walk out.2.durable.data) w c := fun hc =>
    hc.setTable fun _ hunchecked => (hmoved hunchecked).follows.claims _
  have hnew : ∀ {c}, ((paced v.walk).checked = false →
        Claim codec (paced v.walk).rel (paced v.walk).form c out.2.durable.data) →
      Holds codec paced (s.setTable v.walk out.2.durable.data) v.walk c := by
    intro c hc hunchecked
    rw [setTable_tables_self]
    exact hc hunchecked
  refine ⟨fun row hrow => ?_, fun row hrow hleft w hw => ?_, ?_, fun r' hr' => ?_, h.sound⟩
  · have hjobs := record_jobs (l := s.ledger) r.job v.ordinal (out.2.durable.cursors v.ordinal)
    rcases mem_record hrow with hrow | ⟨c, -, rfl⟩
    · exact (h.recorded row hrow).trans_eq (congrArg List.length hjobs.symm)
    · exact (List.getElem?_eq_some_iff.1 hj.job).1.trans_eq (congrArg List.length hjobs.symm)
  · have hw : s.ledger.writer row = some w := (writer_record _ _ _).symm.trans hw
    rcases mem_record hrow with hrow | ⟨c, hc, rfl⟩
    · exact hold (h.holds row hrow ((leftOff_record _ _ _ _).symm.trans hleft) w hw)
    · rw [hwriter, Option.some.injEq] at hw
      subst hw
      exact hnew fun hunchecked => (hmoved hunchecked).committed c hc
  · intro w hc
    by_cases hw : w = v.walk
    · subst hw
      exact rows_setTable h.rows (fun _ => (hmoved hc).follows.sound (h.rows _ hc)) _ hc
    · have hother : (s.afterTxn r v out).tables w = s.tables w := Function.update_of_ne hw _ _
      rw [hother]
      exact h.rows w hc
  · cases hr'
    refine ⟨j, ?_, hj.unfinished, fun row hrow hres w hw => ?_, fun v' hv' => ?_,
      fun v' hv' => ?_⟩
    · exact (congrArg (·[r.job]?) (record_jobs _ _ _)).trans hj.job
    · refine (writer_record _ _ _).trans ?_
      rcases mem_record hrow with hrow | ⟨c, -, rfl⟩
      · exact hj.cursors row hrow ((resumable_record _ _ _ _ _).symm.trans hres) w hw
      · rw [hwriter, ← hwalk]
        exact hw
    · obtain ⟨hsame, hordinal⟩ := Walking.after_eq_some hv'
      rw [hsame, hordinal]
      exact hwalk
    · obtain ⟨hsame, -⟩ := Walking.after_eq_some hv'
      rw [hsame]
      exact hnew fun hunchecked => (hmoved hunchecked).goesOn v' hv'

theorem ResumeInv.txn (h : ResumeInv codec paced s) {run : Run}
    (hstable : Stable codec paced s (.txn run))
    (hs : s.step codec paced (.txn run) = some s') : ResumeInv codec paced s' := by
  cases hr : s.running with
  | none => simp [World.step, hr] at hs
  | some r =>
    cases hv : r.walking with
    | none => simp [World.step, hr, hv] at hs
    | some v =>
      simp only [World.step, hr, hv, Option.bind_eq_bind, Option.bind_some, Option.pure_def,
        Option.some.injEq] at hs
      subst hs
      obtain ⟨j, hj⟩ := h.agrees r hr
      refine h.afterTxn hr hv fun hc => ?_
      exact Paced.transaction_moved (h.rows v.walk hc) (hj.position v hv hc)
        (hstable r hr v hv hc)

theorem ResumeInv.finish (h : ResumeInv codec paced s) {r : Running} (hr : s.running = some r)
    (ending : Ending) : ResumeInv codec paced
      { s with ledger := s.ledger.finish r.job ending, running := none } := by
  obtain ⟨j, hj⟩ := h.agrees r hr
  refine ⟨fun row hrow => ?_, fun row hrow hleft w hw => ?_, h.rows, fun r hr => ?_, h.sound⟩
  · have := h.recorded row hrow
    simpa [Ledger.finish] using this
  · rw [writer_finish] at hw
    exact h.holds row hrow (leftOff_finish hj.job hj.unfinished hleft) w hw
  · cases hr

theorem ResumeInv.step (h : ResumeInv codec paced s) {e : Event γ κ ρ}
    (hstable : Stable codec paced s e) (hs : s.step codec paced e = some s') :
    ResumeInv codec paced s' := by
  cases e with
  | arrive w group key value =>
    cases hs
    exact h.arrive hstable
  | remove w group key =>
    cases hs
    exact h.remove w _
  | start digest maintenanceMb emitted =>
    simp only [World.step] at hs
    split at hs
    · cases hs
    · cases hs
      exact h.start hstable
  | enter ordinal readable upto run => exact h.enter hstable hs
  | txn run => exact h.txn hstable hs
  | finish ending =>
    cases hr : s.running with
    | none => simp [World.step, hr] at hs
    | some r =>
      simp only [World.step, hr, Option.bind_eq_bind, Option.bind_some, Option.pure_def,
        Option.some.injEq] at hs
      subst hs
      exact h.finish hr ending

theorem resumeInv_initial (rows : WalkId → List (γ × κ × ρ)) :
    ResumeInv codec paced (World.initial rows) := by
  refine ⟨nofun, nofun, fun w _ r hr => ?_, nofun, nofun⟩
  obtain ⟨a, -, rfl⟩ := List.mem_map.1 hr
  exact fun _ => rfl

theorem resumeInv_runs {rows : WalkId → List (γ × κ × ρ)}
    (h : World.Runs codec paced (Stable codec paced) (World.initial rows) s) :
    ResumeInv codec paced s := by
  induction h with
  | refl => exact resumeInv_initial rows
  | tail _ hstep ih =>
    obtain ⟨e, hstable, hs⟩ := hstep
    exact ih.step hstable hs

/-- In every run in which plans agree on the ordinals cursors were left under, and walks whose
cursors nothing checks keep what these claim, whatever is resumed is a cursor of the same walk, with
every row at or below it applied. -/
theorem stable_sound {rows : WalkId → List (γ × κ × ρ)}
    (h : World.Runs codec paced (Stable codec paced) (World.initial rows) s) :
    s.Sound codec paced :=
  (resumeInv_runs h).sound

end Steps

/-! ## A plan that is made anew -/

def concurrentBuild : Step := { kind := createIndex, txnClass := .forbidden }

def builtAlready : Step := { kind := createIndex, action := .satisfied }

def pacedInsert : Step := { kind := "insert_rows", txnClass := .ownTxnPerBatch }

/-- An index, and two inserts. -/
def firstPlan : List (List (Nat × Step)) :=
  [[(0, concurrentBuild)], [(0, pacedInsert)], [(0, pacedInsert)]]

/-- The same specification once the index is there. -/
def secondPlan : List (List (Nat × Step)) :=
  [[(0, builtAlready)], [(0, pacedInsert)], [(0, pacedInsert)]]

def insertWalk (intent : Nat) : WalkId := { digest := "d", intent, pass := 0 }

/-- Rows are inserted where they are not, and no predicate tells which those are. -/
def inserts : WalkId → Paced Unit (Fin 4) Bool := fun _ =>
  { rel := unfilled, form := .statement, checked := false }

local instance neZeroFour : NeZero 4 := ⟨by decide⟩

def twoSources : World Unit (Fin 4) Bool := World.initial fun w =>
  if w = insertWalk 1 then [((), 1, false), ((), 3, false)]
  else if w = insertWalk 2 then [((), 2, false)] else []

def allRows : Run :=
  { cfg := { batchRows := 1, batchRows_pos := Int.one_pos }, fuel := 3 }

/-- A commit after each row. -/
def oneRow : Run :=
  { cfg := { batchRows := 1, commitIntervalMs := 0, batchRows_pos := Int.one_pos }, fuel := 2 }

/-- The first insert fails after a transaction, and takes up where it was. -/
def sameAgain : List (Event Unit (Fin 4) Bool) :=
  [.start "d" 0 firstPlan, .enter 2 true [] oneRow, .txn oneRow, .finish .failed,
    .start "d" 0 firstPlan, .enter 2 true [] oneRow]

theorem sameAgain_sound : ∃ s,
    World.runStable jsonStrings inserts sameAgain twoSources = some s ∧
    s.resumed = [⟨insertWalk 1, "1", some (insertWalk 1),
      [{ Row.fresh () 1 false with now := some true, applied := true }, Row.fresh () 3 false]⟩] ∧
    s.Sound jsonStrings inserts := by
  have hrun : (World.runStable jsonStrings inserts sameAgain twoSources).map World.resumed =
      some [⟨insertWalk 1, "1", some (insertWalk 1),
        [{ Row.fresh () 1 false with now := some true, applied := true },
          Row.fresh () 3 false]⟩] := by
    decide +kernel
  obtain ⟨s, hs, hresumed⟩ := Option.map_eq_some_iff.1 hrun
  exact ⟨s, hs, hresumed, stable_sound (runs_of_runStable jsonStrings inserts sameAgain _ hs)⟩

/-- The first insert is done and the second is not when the job fails; the plan made then has no
verify step. -/
def shifted : List (Event Unit (Fin 4) Bool) :=
  [.start "d" 0 firstPlan, .enter 2 true [] allRows, .txn allRows, .enter 3 true [] allRows,
    .finish .failed, .start "d" 0 secondPlan, .enter 1 true [] allRows, .txn allRows,
    .enter 2 true [] allRows]

/-- The second insert takes up at the cursor of the first, and its row is skipped. -/
theorem shifted_resumes_other : ∃ s,
    World.run jsonStrings inserts shifted twoSources = some s ∧
    s.resumed = [⟨insertWalk 2, "3", some (insertWalk 1), [Row.fresh () 2 false]⟩] ∧
    ¬ s.Sound jsonStrings inserts := by
  have hrun : (World.run jsonStrings inserts shifted twoSources).map World.resumed =
      some [⟨insertWalk 2, "3", some (insertWalk 1), [Row.fresh () 2 false]⟩] := by
    decide +kernel
  obtain ⟨s, hs, hresumed⟩ := Option.map_eq_some_iff.1 hrun
  refine ⟨s, hs, hresumed, fun hsound => ?_⟩
  have hother := (hsound ⟨insertWalk 2, "3", some (insertWalk 1), [Row.fresh () 2 false]⟩
    (by simp [hresumed])).1
  exact absurd hother (by decide)

end Resume
end Laswell
