import Laswell.Executor.Walk

/-!
# Laswell.Executor.Execute

The steps of a job, one after another (`Executor::execute`): groups of steps that share a
transaction, steps that need one of their own or none, and the group that is run again from its
first step when an exclusive lock does not come. `run` is the job's worker, with what it does about
an exception.
-/

namespace Laswell
namespace Executor

open Base Jobs

/-- A statement without its semicolon, and what the server does with it: rows affected, and the
data it leaves. -/
structure Statement (δ : Type) where
  sql : String
  effect : δ → Except Failure (Nat × δ)

inductive Action where
  | apply
  | satisfied
  | other
  deriving DecidableEq

inductive TxnClass (δ : Type) where
  | txnForbidden
  | ownTxnPerBatch (walk : Walk δ)
  | transactional

/-- `copyRows` has the payload that follows its statement, if the step has one. -/
inductive StepKind (δ : Type) where
  | verifyIndexValid
  | createIndex (schema index : String)
  | copyRows (payload : Option (δ → Except Failure (Nat × δ)))
  | other

structure Step (δ : Type) where
  ordinal : Nat
  txnGroup : Int := 0
  kind : StepKind δ := .other
  txnClass : TxnClass δ := .transactional
  action : Action := .apply
  sql : List (Statement δ) := []
  maintenanceWorkMemMb : Int := 0
  noStatementTimeout : Bool := false
  exclusiveRetry : Bool := false
  weakerLockFirst : Int := 1

/-- A plan, with its steps numbered as the planner numbers them. -/
structure Plan (δ : Type) where
  steps : List (Step δ)
  numbered : ∀ (n : Nat) (step : Step δ), steps[n]? = some step → step.ordinal = n

def Step.needsOwn {δ : Type} (step : Step δ) : Bool :=
  match step.txnClass with
  | .txnForbidden => true
  | .ownTxnPerBatch _ => true
  | .transactional => false

/-- The index the nearest `create_index` step before `ordinal` builds. -/
def indexNameFor {δ : Type} (steps : List (Step δ)) : Nat → Option (String × String)
  | 0 => none
  | i + 1 =>
    match steps.findSome? fun s =>
        match s.kind with
        | .createIndex schema index => if s.ordinal = i then some (schema, index) else none
        | _ => none with
    | some name => some name
    | none => indexNameFor steps i

/-- A verify step with nothing to verify. -/
def NoIndex {δ : Type} (steps : List (Step δ)) (ordinal : Nat) : Prop :=
  ∀ name ∈ indexNameFor steps ordinal, name.2 = ""

variable {δ : Type}

section

variable (env : Env) (cfg : Config) (codec : ArrayText) (fuel : Nat)

/-! ## One step -/

/-- A setting of the open transaction, where it is wanted. -/
def setLocal (wanted : Bool) : Exec δ Unit :=
  if wanted then readData env fun _ => .ok () else pure ()

structure Gates where
  rows : Int := 0
  gated : Bool := false
  taken : Int := 0

def isLockTable (sql : String) : Bool := "LOCK TABLE ".toList.isPrefixOf sql.toList

/-- After the weaker lock, the exclusive one with a short wait. -/
def takeGate (step : Step δ) (retry : Bool) (sql : String) (g : Gates) : Exec δ Gates :=
  if retry && isLockTable sql && !g.gated then
    if step.weakerLockFirst ≤ g.taken + 1 then do
      readData env fun _ => .ok ()
      pure { g with taken := g.taken + 1, gated := true }
    else pure { g with taken := g.taken + 1 }
  else pure g

/-- `none`: the lock did not come, and it is the caller's to handle. -/
def runStatement (step : Step δ) (retry : Bool) (s : Statement δ) (g : Gates) :
    Exec δ (Option Gates) :=
  Prog.tryCatch
    (do
      let rows ← onData env s.effect
      let g ← takeGate env step retry s.sql { g with rows := g.rows + rows }
      pure (some g))
    fun
    | .sql .lockNotAvailable _ =>
      if retry then pure none
      else do
        recordStep step.ordinal .lockNotAcquired 0
        Prog.throw (.runtime ("step " ++ toString step.ordinal ++
          " could not acquire its lock within lock_timeout"))
    | .sql state what => do
      recordStep step.ordinal .failed 0
      Prog.throw (.sql state what)
    | .runtime what => Prog.throw (.runtime what)

def runStatements (step : Step δ) (retry : Bool) :
    List (Statement δ) → Gates → Exec δ (Option Gates)
  | [], g => pure (some g)
  | s :: rest, g =>
    if s.sql = "" then runStatements step retry rest g
    else do
      match ← runStatement env step retry s g with
      | none => pure none
      | some g => runStatements step retry rest g

/-- Whether the lock timed out. -/
def runInTransaction (step : Step δ) (retry : Bool) : Exec δ Bool := do
  enlist step.ordinal
  setLocal env (decide (0 < step.maintenanceWorkMemMb))
  setLocal env (decide (0 < cfg.statementTimeoutMs) && step.noStatementTimeout)
  match ← runStatements env step retry step.sql {} with
  | none => pure true
  | some g =>
    setLocal env (decide (0 < step.maintenanceWorkMemMb))
    setLocal env (decide (0 < cfg.statementTimeoutMs) && step.noStatementTimeout)
    setLocal env g.gated
    recordStep step.ordinal .succeeded g.rows
    pushUncommitted step.ordinal
    pure false

def runCopy (step : Step δ) (payload : δ → Except Failure (Nat × δ)) : Exec δ Unit := do
  enlist step.ordinal
  let written ← Prog.tryCatch (onData env payload) fun
    | .sql state what => do
      recordStep step.ordinal .failed 0
      Prog.throw (.sql state what)
    | .runtime what => Prog.throw (.runtime what)
  recordStep step.ordinal .succeeded written
  pushUncommitted step.ordinal

/-- A session setting around statements that run outside of a transaction; its reset cannot
fail. -/
def setSession (wanted : Bool) : Exec δ Unit := if wanted then call env else pure ()

def runOutside : List (Statement δ) → Exec δ Unit
  | [] => pure ()
  | s :: rest =>
    if s.sql = "" then runOutside rest
    else do
      let held ← operationSlot env fuel
      Prog.leaving (execNontransactional env s.effect) (releaseSlot held)
      runOutside rest

def runNontransactional (step : Step δ) : Exec δ Unit := do
  Prog.tryCatch
    (do
      setSession env true
      setSession env (decide (0 < step.maintenanceWorkMemMb))
      runOutside env fuel step.sql)
    fun
    | .sql state what => do
      recordStep step.ordinal .failed 0
      Prog.throw (.sql state what)
    | .runtime what => Prog.throw (.runtime what)
  keepOutside step.ordinal
  recordStep step.ordinal .succeeded 0

/-- What `pg_index` says of the index, in a transaction of its own. -/
def readIndexValid (name : String × String) (ordinal : Nat) : Exec δ (Option Bool) := do
  begin env
  enlist ordinal
  readData env fun _ => .ok ()
  let valid ← ask fun k => env.indexValid k name
  commit env
  pure valid

def verifyIndexValid (steps : List (Step δ)) (step : Step δ) : Exec δ Unit :=
  match indexNameFor steps step.ordinal with
  | none => recordStep step.ordinal .succeeded 0
  | some (schema, index) =>
    if index = "" then recordStep step.ordinal .succeeded 0
    else do
      let valid ← readIndexValid env (schema, index) step.ordinal
      if valid = some true then recordStep step.ordinal .succeeded 0
      else
        recordStep step.ordinal .failed 0
        Prog.throw (.runtime ("index " ++ schema ++ "." ++ index ++
          " is invalid after a concurrent build"))

/-! ## The loop -/

/-- The loop's variables. -/
structure ExecVars where
  position : Nat := 0
  currentGroup : Int := -1
  groupOpen : Bool := false
  groupSlot : Bool := false
  groupFirst : Nat := 0
  groupAttempt : Nat := 1
  groupBegan : Int := 0

def ExecVars.advance (v : ExecVars) : ExecVars := { v with position := v.position + 1 }

def freeSlot (held : Bool) : Exec δ Unit := Prog.modify (releaseSlot held)

/-- The open group is committed. -/
def commitGroup (v : ExecVars) : Exec δ ExecVars :=
  if v.groupOpen then do
    commit env
    groupCommitted
    freeSlot v.groupSlot
    pure { v with groupOpen := false, groupSlot := false }
  else pure v

/-- A step of another group, or one that needs its own transaction, ends the open one. -/
def leaveGroup (v : ExecVars) (step : Step δ) : Exec δ ExecVars :=
  if step.txnGroup ≠ v.currentGroup ∨ step.needsOwn then do
    let v ← commitGroup env v
    pure { v with currentGroup := step.txnGroup }
  else pure v

/-- A group being tried again keeps its count and its clock. -/
def openGroup (v : ExecVars) : Exec δ ExecVars :=
  if v.groupOpen then pure v
  else do
    let held ← operationSlot env fuel
    begin env
    if v.groupFirst ≠ v.position ∨ v.groupBegan = 0 then do
      let now ← ask env.steadyMs
      pure { v with groupOpen := true, groupSlot := held, groupFirst := v.position
                    groupAttempt := 1, groupBegan := now }
    else pure { v with groupOpen := true, groupSlot := held }

def exclusivePatienceFactor : Int := 20

/-- The lock did not come: the whole group is rolled back, and run again from its first step unless
the job was cancelled or its patience is at an end. `none`: the job was cancelled. -/
def retryGroup (plan : Plan δ) (v : ExecVars) (step : Step δ) : Exec δ (Option ExecVars) := do
  rollback
  groupRolledBack
  freeSlot v.groupSlot
  if ← ask env.cancelStop then
    cancelled
    pure none
  else
    let now ← ask env.steadyMs
    if cfg.lockTimeoutMs * exclusivePatienceFactor ≤ now - v.groupBegan then
      recordStep step.ordinal .lockNotAcquired 0
      Prog.throw (.runtime ("step " ++ toString step.ordinal ++
        " could not acquire its exclusive lock in " ++ toString v.groupAttempt ++ " attempts"))
    else
      forgetStepsFrom ((plan.steps[v.groupFirst]?.map Step.ordinal).getD 0)
      pure (some { v with groupOpen := false, groupSlot := false, position := v.groupFirst
                          groupAttempt := v.groupAttempt + 1 })

/-- A step in the transaction of its group. -/
def runGrouped (plan : Plan δ) (v : ExecVars) (step : Step δ) : Exec δ (ExecVars ⊕ Unit) := do
  let v ← openGroup env fuel v
  match step.kind with
  | .copyRows (some payload) =>
    runCopy env step payload
    pure (.inl v.advance)
  | _ =>
    if ← runInTransaction env cfg step step.exclusiveRetry then
      match ← retryGroup env cfg plan v step with
      | none => pure (.inr ())
      | some v => pure (.inl v)
    else pure (.inl v.advance)

/-- A step of its own class, after the group before it was left. -/
def runStep (plan : Plan δ) (v : ExecVars) (step : Step δ) : Exec δ (ExecVars ⊕ Unit) :=
  match step.txnClass with
  | .ownTxnPerBatch walk => do
    runBackfill env cfg codec fuel { walk with ordinal := step.ordinal }
    -- a walk that was cancelled has said so
    if (← Prog.gets World.jobState) = .cancelled then pure (.inr ()) else pure (.inl v.advance)
  | .txnForbidden => do
    runNontransactional env fuel step
    pure (.inl v.advance)
  | .transactional =>
    match step.kind with
    | .verifyIndexValid => do
      verifyIndexValid env plan.steps step
      pure (.inl v.advance)
    | _ => runGrouped env cfg fuel plan v step

def stopJob (v : ExecVars) : Exec δ Unit := do
  if v.groupOpen then do
    rollback
    groupRolledBack
    cancelled
  else cancelled

def takeStep (plan : Plan δ) (v : ExecVars) (step : Step δ) : Exec δ (ExecVars ⊕ Unit) := do
  if ← ask env.cancelStop then
    stopJob v
    pure (.inr ())
  else
    match step.action with
    | .satisfied =>
      recordStep step.ordinal .skippedSatisfied 0
      pure (.inl v.advance)
    | .other => pure (.inl v.advance)
    | .apply =>
      let v ← leaveGroup env v step
      runStep env cfg codec fuel plan v step

def nextStep (plan : Plan δ) (v : ExecVars) : Exec δ (ExecVars ⊕ Unit) :=
  match plan.steps[v.position]? with
  | some step => takeStep env cfg codec fuel plan v step
  | none => do
    let _ ← commitGroup env v
    succeed
    pure (.inr ())

def execute (plan : Plan δ) : Exec δ Unit := do
  call env
  publish .running
  Prog.loop (nextStep env cfg codec fuel plan) fuel {}

/-- The session's destructor aborts what is open, and what is held is given back. -/
def leaveSession (w : World δ) : World δ := { w with txn := none, slots := 0 }

/-- `group_rolled_back`, and the job is cancelled if it was told to stop and this is the
cancellation it asked for; else it failed. -/
def ended (e : Failure) : Exec δ Unit := do
  groupRolledBack
  match e with
  | .sql .queryCanceled _ =>
    if ← ask env.stopNow then
      if ← ask env.cancelStop then
        if ← ask env.cancelRequested then cancelled else fail
      else fail
    else fail
  | _ => fail

/-- The job's worker. -/
def run (plan : Plan δ) : Exec δ Unit :=
  Prog.tryCatch (Prog.leaving (execute env cfg codec fuel plan) leaveSession) (ended env)

end

end Executor
end Laswell
