import Laswell.Base.Prog
import Laswell.Jobs.Job

/-!
# Laswell.Executor.Session

What a job's worker has before it: the session it writes through (`WriteSession`), the job it
reports to, and everything it cannot foresee (`Env`). Whatever the observer, the server, the clock
and the operator may do is an answer the environment gives at the moment it is asked for, so a
result for every environment holds for every interleaving with them.
-/

namespace Laswell
namespace Executor

open Base Jobs

/-- The SQLSTATEs the executor tells apart. -/
inductive SqlState where
  | lockNotAvailable
  | queryCanceled
  | other (code : String)
  deriving DecidableEq

/-- What is thrown: a `pqxx::sql_error`, or any other exception. -/
inductive Failure where
  | sql (state : SqlState) (what : String)
  | runtime (what : String)
  deriving DecidableEq

/-- How the operation gate answers: no ceiling is set, a slot was taken, or it is full. -/
inductive GateAnswer where
  | unlimited
  | taken
  | full
  deriving DecidableEq

/-- The answers of the world outside, by the number of the question. `sql` is the outcome of one
round trip to the server, `committed` whether a COMMIT whose answer was lost was carried out, and
`indexValid` what `pg_index` says of an index, by its schema and name. -/
structure Env where
  cancelStop : Nat → Bool := fun _ => false
  stopNow : Nat → Bool := fun _ => false
  cancelRequested : Nat → Bool := fun _ => false
  paused : Nat → Bool := fun _ => false
  throttled : Nat → Bool := fun _ => false
  directWaiters : Nat → Int := fun _ => 0
  steadyMs : Nat → Int := fun _ => 0
  sql : Nat → Option Failure := fun _ => none
  committed : Nat → Bool := fun _ => false
  gate : Nat → GateAnswer := fun _ => .unlimited
  indexValid : Nat → String × String → Option Bool := fun _ _ => some true
  resumeCursor : Nat → String := fun _ => "0"

structure CursorRow where
  lastKey : String
  rowsDone : Int
  commits : Nat
  deriving DecidableEq

/-- The database as a transaction sees it: the tables, and `laswell.backfill_cursor` of this job
by step. -/
structure Db (δ : Type) where
  data : δ
  cursors : Nat → Option CursorRow := fun _ => none

/-- An open transaction: what it sees, and the steps whose statements ran in it. -/
structure Txn (δ : Type) where
  view : Db δ
  work : List Nat

inductive StepState where
  | skippedSatisfied
  | succeeded
  | failed
  | lockNotAcquired
  | rolledBack
  deriving DecidableEq

/-- One entry of the job's record. -/
structure StepRecord where
  ordinal : Nat
  state : StepState
  rows : Int
  deriving DecidableEq

/-- What is said about the job: `Job::state`, the row `finish_job` writes, and a pause that lasted
too long. -/
inductive JobEvent where
  | published (s : JobState)
  | finished (s : JobState)
  | pauseExpired
  deriving DecidableEq

/-- What a walk does with its cursor: a transaction opened at it, a batch that moved it, a batch
the observer had cancelled, and a transaction committed with it, which left `data` behind. -/
inductive WalkEvent (δ : Type) where
  | began (cursor : String)
  | batch (cursor : String)
  | batchCancelled
  | committed (cursor : String) (data : δ)
  deriving DecidableEq

/-- `kept` and `doubtful` are the steps whose work the database has: their transaction was
committed, or they ran outside of one and returned; or their transaction was committed, and the
worker did not hear of it. Logs have their newest event first. -/
structure World (δ : Type) where
  tick : Nat := 0
  durable : Db δ
  txn : Option (Txn δ) := none
  kept : List Nat := []
  doubtful : List Nat := []
  slots : Nat := 0
  jobState : JobState := .planned
  steps : List StepRecord := []
  uncommitted : List Nat := []
  jobLog : List JobEvent := []
  walkLog : List (WalkEvent δ) := []

/-- The database has the step's work. -/
def World.Has {δ : Type} (w : World δ) (ordinal : Nat) : Prop :=
  ordinal ∈ w.kept ∨ ordinal ∈ w.doubtful

instance {δ : Type} (w : World δ) (ordinal : Nat) : Decidable (w.Has ordinal) :=
  inferInstanceAs (Decidable (_ ∨ _))

abbrev Exec (δ α : Type) := Prog (World δ) Failure α

variable {δ α : Type}

def ask (answer : Nat → α) : Exec δ α := do
  let n ← Prog.gets World.tick
  Prog.modify fun w => { w with tick := n + 1 }
  pure (answer n)

/-! ## WriteSession -/

section Session

variable (env : Env)

/-- One round trip to the server. -/
def call : Exec δ Unit := do
  match ← ask env.sql with
  | none => pure ()
  | some e => Prog.throw e

/-- `txn()` -/
def openTxn : Exec δ (Txn δ) := do
  match ← Prog.gets World.txn with
  | none => Prog.throw (.runtime "WriteSession: no transaction is open")
  | some t => pure t

def setView (db : Db δ) (w : World δ) : World δ :=
  { w with txn := w.txn.map fun t => { t with view := db } }

/-- A statement of the open transaction: what it returns and the database it leaves, unless the
server refuses it. -/
def exec (f : Db δ → Except Failure (α × Db δ)) : Exec δ α := do
  let t ← openTxn
  call env
  match f t.view with
  | .error e => Prog.throw e
  | .ok (a, db) => do
    Prog.modify (setView db)
    pure a

/-- A statement on the tables. -/
def onData (f : δ → Except Failure (α × δ)) : Exec δ α :=
  exec env fun db => (f db.data).map fun r => (r.1, { db with data := r.2 })

/-- A statement that only reads. -/
def readData (f : δ → Except Failure α) : Exec δ α :=
  onData env fun d => (f d).map fun a => (a, d)

def begin : Exec δ Unit := do
  match ← Prog.gets World.txn with
  | some _ => Prog.throw (.runtime "WriteSession: a transaction is open")
  | none =>
    Prog.modify fun w => { w with txn := some { view := w.durable, work := [] } }
    call env

/-- `commit()`, with `note` for what is written down of a transaction that the database has. An
error of the server means that it has not; with any other (`in_doubt_error` is no `sql_error`) it
may have the transaction all the same. -/
def commitNoting (note : World δ → World δ) : Exec δ Unit := do
  match ← Prog.gets World.txn with
  | none => Prog.throw (.runtime "WriteSession: no transaction to commit")
  | some t =>
    match ← ask env.sql with
    | none =>
      Prog.modify fun w =>
        note { w with durable := t.view, kept := w.kept ++ t.work, txn := none }
    | some (.sql state what) => Prog.throw (.sql state what)
    | some (.runtime what) => do
      if ← ask env.committed then
        Prog.modify fun w =>
          note { w with durable := t.view, doubtful := w.doubtful ++ t.work }
      Prog.throw (.runtime what)

def commit : Exec δ Unit := commitNoting env id

def rollback : Exec δ Unit := Prog.modify fun w => { w with txn := none }

/-- A statement outside of any transaction. What one that fails leaves behind is not followed. -/
def execNontransactional (f : δ → Except Failure (α × δ)) : Exec δ Unit := do
  match ← Prog.gets World.txn with
  | some _ =>
    Prog.throw (.runtime ("exec_nontransactional called while a transaction is open; the " ++
      "statement would fail with 'cannot run inside a transaction block'"))
  | none =>
    call env
    match f (← Prog.gets fun w => w.durable.data) with
    | .error e => Prog.throw e
    | .ok (_, d) => Prog.modify fun w => { w with durable := { w.durable with data := d } }

/-- The step ran outside of any transaction, and returned. -/
def keepOutside (ordinal : Nat) : Exec δ Unit :=
  Prog.modify fun w => { w with kept := w.kept ++ [ordinal] }

/-- The step's statements run in the open transaction. -/
def enlist (ordinal : Nat) : Exec δ Unit :=
  Prog.modify fun w =>
    { w with txn := w.txn.map fun t => { t with work := t.work ++ [ordinal] } }

end Session

/-! ## Rules for the session

What has to hold for each answer that may come back. -/

section Rules

variable {env : Env} {w : World δ} {β : Type}

theorem ask_wp {answer : Nat → β} {Q : Outcome Failure β → World δ → Prop}
    (h : ∀ a, Q (.ok a) { w with tick := w.tick + 1 }) : (ask answer).Wp Q w := h _

theorem call_wp {Q : Outcome Failure Unit → World δ → Prop}
    (hok : Q (.ok ()) { w with tick := w.tick + 1 })
    (herr : ∀ e, Q (.err e) { w with tick := w.tick + 1 }) : (call env).Wp Q w := by
  rw [call, Prog.wp_bind]
  refine ask_wp fun a => ?_
  cases a with
  | none => exact hok
  | some e => exact herr e

theorem openTxn_wp {t : Txn δ} (ht : w.txn = some t)
    {Q : Outcome Failure (Txn δ) → World δ → Prop} (h : Q (.ok t) w) : openTxn.Wp Q w := by
  rw [openTxn, Prog.wp_bind, Prog.wp_gets, Prog.andThen_ok, ht]
  exact h

theorem exec_wp {t : Txn δ} (ht : w.txn = some t) {f : Db δ → Except Failure (β × Db δ)}
    {Q : Outcome Failure β → World δ → Prop}
    (hok : ∀ a db, f t.view = .ok (a, db) →
      Q (.ok a) { w with tick := w.tick + 1, txn := some { t with view := db } })
    (herr : ∀ e, Q (.err e) { w with tick := w.tick + 1 }) : (exec env f).Wp Q w := by
  rw [exec, Prog.wp_bind]
  refine openTxn_wp ht ?_
  rw [Prog.andThen_ok, Prog.wp_bind]
  refine call_wp ?_ herr
  rw [Prog.andThen_ok]
  cases hf : f t.view with
  | error e => exact herr e
  | ok r =>
    have h := hok r.1 r.2 hf
    rw [Prog.wp_bind, Prog.wp_modify, Prog.andThen_ok, Prog.wp_pure]
    simpa [setView, ht] using h

theorem onData_wp {t : Txn δ} (ht : w.txn = some t) {f : δ → Except Failure (β × δ)}
    {Q : Outcome Failure β → World δ → Prop}
    (hok : ∀ a d, f t.view.data = .ok (a, d) → Q (.ok a)
      { w with tick := w.tick + 1, txn := some { t with view := { t.view with data := d } } })
    (herr : ∀ e, Q (.err e) { w with tick := w.tick + 1 }) : (onData env f).Wp Q w := by
  refine exec_wp ht ?_ herr
  intro a db h
  cases hf : f t.view.data with
  | error e =>
    rw [hf] at h
    cases h
  | ok r =>
    rw [hf] at h
    cases h
    exact hok r.1 r.2 hf

theorem readData_wp {t : Txn δ} (ht : w.txn = some t) {f : δ → Except Failure β}
    {Q : Outcome Failure β → World δ → Prop}
    (hok : ∀ a, f t.view.data = .ok a → Q (.ok a) { w with tick := w.tick + 1 })
    (herr : ∀ e, Q (.err e) { w with tick := w.tick + 1 }) : (readData env f).Wp Q w := by
  refine onData_wp ht ?_ herr
  intro a d h
  cases hf : f t.view.data with
  | error e =>
    rw [hf] at h
    cases h
  | ok b =>
    rw [hf] at h
    cases h
    have hw := hok a hf
    rw [← ht]
    exact hw

theorem begin_wp (ht : w.txn = none) {Q : Outcome Failure Unit → World δ → Prop}
    (hok : Q (.ok ())
      { w with tick := w.tick + 1, txn := some { view := w.durable, work := [] } })
    (herr : ∀ e, Q (.err e)
      { w with tick := w.tick + 1, txn := some { view := w.durable, work := [] } }) :
    (begin env).Wp Q w := by
  rw [begin, Prog.wp_bind, Prog.wp_gets, Prog.andThen_ok, ht, Prog.wp_bind, Prog.wp_modify,
    Prog.andThen_ok]
  exact call_wp hok herr

theorem commitNoting_wp {t : Txn δ} (ht : w.txn = some t) {note : World δ → World δ}
    {Q : Outcome Failure Unit → World δ → Prop}
    (hok : Q (.ok ()) (note
      { w with tick := w.tick + 1, durable := t.view, kept := w.kept ++ t.work, txn := none }))
    (herr : ∀ e k, w.tick ≤ k → Q (.err e) { w with tick := k })
    (hdoubt : ∀ what k, w.tick ≤ k → Q (.err (.runtime what)) (note
      { w with tick := k, durable := t.view, doubtful := w.doubtful ++ t.work })) :
    (commitNoting env note).Wp Q w := by
  rw [commitNoting, Prog.wp_bind, Prog.wp_gets, Prog.andThen_ok, ht, Prog.wp_bind]
  refine ask_wp fun answer => ?_
  rw [Prog.andThen_ok]
  match answer with
  | none => exact hok
  | some (.sql state what) => exact herr _ _ (Nat.le_succ _)
  | some (.runtime what) =>
    simp only
    rw [Prog.wp_bind]
    refine ask_wp fun committed => ?_
    rw [Prog.andThen_ok]
    cases committed with
    | false => exact herr _ _ (Nat.le_add_right _ 2)
    | true => exact hdoubt what _ (Nat.le_add_right _ 2)

theorem commit_wp {t : Txn δ} (ht : w.txn = some t) {Q : Outcome Failure Unit → World δ → Prop}
    (hok : Q (.ok ())
      { w with tick := w.tick + 1, durable := t.view, kept := w.kept ++ t.work, txn := none })
    (herr : ∀ e k, w.tick ≤ k → Q (.err e) { w with tick := k })
    (hdoubt : ∀ what k, w.tick ≤ k → Q (.err (.runtime what))
      { w with tick := k, durable := t.view, doubtful := w.doubtful ++ t.work }) :
    (commit env).Wp Q w := commitNoting_wp ht hok herr hdoubt

/-- With an answer that is no error. -/
theorem commitNoting_ok {t : Txn δ} (ht : w.txn = some t) (henv : env.sql w.tick = none)
    (note : World δ → World δ) : (commitNoting env note : Exec δ Unit) w = (.ok (), note
      { w with tick := w.tick + 1, durable := t.view, kept := w.kept ++ t.work, txn := none }) := by
  have hask : (ask env.sql : Exec δ _) w = (.ok none, { w with tick := w.tick + 1 }) := by
    rw [ask, Prog.bind_gets, Prog.bind_modify, henv]
    rfl
  rw [commitNoting, Prog.bind_gets, ht]
  simp only
  rw [Prog.bind_ok hask]
  rfl

theorem execNontransactional_wp {α : Type} {f : δ → Except Failure (α × δ)}
    {Q : Outcome Failure Unit → World δ → Prop}
    (hok : ∀ k db, Q (.ok ()) { w with tick := k, durable := db })
    (herr : ∀ e k, Q (.err e) { w with tick := k }) : (execNontransactional env f).Wp Q w := by
  rw [execNontransactional, Prog.wp_bind, Prog.wp_gets, Prog.andThen_ok]
  cases w.txn with
  | some t => exact herr _ w.tick
  | none =>
    simp only
    rw [Prog.wp_bind]
    refine call_wp ?_ fun e => herr e _
    rw [Prog.andThen_ok, Prog.wp_bind, Prog.wp_gets, Prog.andThen_ok]
    split
    · exact herr _ _
    · exact hok _ _

end Rules

/-! ## The job's record -/

def publish (s : JobState) : Exec δ Unit :=
  Prog.modify fun w => { w with jobState := s, jobLog := .published s :: w.jobLog }

def finishJob (s : JobState) : Exec δ Unit :=
  Prog.modify fun w => { w with jobLog := .finished s :: w.jobLog }

def succeed : Exec δ Unit := do
  finishJob .succeeded
  publish .succeeded

def cancelled : Exec δ Unit := do
  finishJob .cancelled
  publish .cancelled

def fail : Exec δ Unit := do
  let ending ← Prog.gets fun w =>
    if w.jobState = .abortedContention then JobState.abortedContention else .failed
  finishJob ending
  publish ending

def recordStep (ordinal : Nat) (state : StepState) (rows : Int) : Exec δ Unit :=
  Prog.modify fun w => { w with steps := w.steps ++ [⟨ordinal, state, rows⟩] }

/-- The steps of a group that is being run again, out of the job's record. -/
def forgetStepsFrom (firstOrdinal : Nat) : Exec δ Unit :=
  Prog.modify fun w =>
    { w with steps := w.steps.filter fun r => !decide (firstOrdinal ≤ r.ordinal) }

def groupCommitted : Exec δ Unit := Prog.modify fun w => { w with uncommitted := [] }

def StepRecord.rollBack (ordinals : List Nat) (r : StepRecord) : StepRecord :=
  if r.state = .succeeded ∧ r.ordinal ∈ ordinals then { r with state := .rolledBack } else r

def groupRolledBack : Exec δ Unit :=
  Prog.modify fun w =>
    { w with steps := w.steps.map (StepRecord.rollBack w.uncommitted), uncommitted := [] }

def pushUncommitted (ordinal : Nat) : Exec δ Unit :=
  Prog.modify fun w => { w with uncommitted := w.uncommitted ++ [ordinal] }

/-! ## The operation gate -/

section Gate

variable (env : Env)

/-- `operation_slot`: whether a slot is held. Full, it is asked again unless the job should
stop. -/
def operationSlot (fuel : Nat) : Exec δ Bool :=
  Prog.loop (fun _ : Unit => do
    match ← ask env.gate with
    | .unlimited => pure (.inr false)
    | .taken => do
      Prog.modify fun w => { w with slots := w.slots + 1 }
      pure (.inr true)
    | .full => do
      if ← ask env.cancelStop then pure (.inr false) else pure (.inl ())) fuel ()

def releaseSlot (held : Bool) (w : World δ) : World δ :=
  if held then { w with slots := w.slots - 1 } else w

end Gate

end Executor
end Laswell
