import Laswell.Executor.Batch

/-!
# Laswell.Executor.Walk

The paced backfill (`run_backfill`): transactions of several batches each, with the walk's cursor
written by the transaction whose rows it speaks of. `Walk` is the plan of one such step.

* `walkTxn`: one transaction, from the operation slot to the commit.
* `runBackfill_spec`: what a walk leaves behind, whatever comes of it. `Faithful` is what its log
  then says of the cursors it committed and of those it started from.
-/

namespace Laswell
namespace Executor

open Base Jobs

/-- A connection's settings, as `config.h` accepts them. -/
structure Config extends ExecutorConfig where
  statementTimeoutMs : Int := 30000
  batchRows_pos : 0 < batchRows := by decide

/-- A step with `own_txn_per_batch`. -/
structure Walk (δ : Type) where
  ordinal : Nat
  single : Option (δ → Except Failure (Nat × δ)) := none
  sql : WalkSql δ
  upperBound : Option (δ → Except Failure (List (Option String))) := none
  invariants : List (String × (δ → Except Failure (Option String))) := []
  verifyRemaining : Option (δ → Except Failure Nat) := none
  confined : Bool := false

/-- The loop's variables: `rowsDone` includes the open transaction, `rowsCommitted` survives a
crash. -/
structure WalkVars where
  cursor : String
  rowsDone : Int := 0
  rowsCommitted : Int := 0
  commits : Nat := 0
  progressAskedMs : Int

structure TxnVars where
  cursor : String
  rowsDone : Int
  rowsThisTxn : Int := 0

/-- How a transaction's batches ended. -/
structure TxnEnd where
  cursor : String
  rowsDone : Int
  done : Bool

/-- What came of the single statement. -/
inductive SingleEnd where
  | walk
  | done (rows : Int)
  | stopped

variable {δ : Type}

def logWalk (e : WalkEvent δ) : Exec δ Unit :=
  Prog.modify fun w => { w with walkLog := e :: w.walkLog }

section

variable (env : Env) (cfg : Config) (codec : ArrayText) (fuel : Nat)

/-- A transaction that only reads. -/
def readOnly {α : Type} (p : Exec δ α) : Exec δ α := do
  begin env
  let a ← p
  commit env
  pure a

def readInvariants : List (String × (δ → Except Failure (Option String))) →
    Exec δ (List (String × Option String))
  | [] => pure []
  | (name, query) :: rest => do
    let v ← readData env query
    let vs ← readInvariants rest
    pure ((name, v) :: vs)

/-- The value an invariant had; of two of one name, the later. -/
def invariantBefore (before : List (String × Option String)) (name : String) : Option String :=
  (before.reverse.lookup name).join

def expirePause : Exec δ Unit := do
  Prog.modify fun w => { w with jobLog := .pauseExpired :: w.jobLog }
  publish .abortedContention
  Prog.throw (.runtime "aborted: paused for contention too long")

def waitWhilePaused : Exec δ Unit := do
  if ← ask env.paused then
    publish .pausedContention
    let pausedAt ← ask env.steadyMs
    Prog.loop (fun _ : Unit => do
      if ← ask env.paused then
        if ← ask env.cancelStop then pure (.inr ())
        else
          let now ← ask env.steadyMs
          if cfg.maxPauseS * 1000 < now - pausedAt then
            expirePause
            pure (.inr ())
          else pure (.inl ())
      else pure (.inr ())) fuel ()
    if ← ask env.cancelStop then pure () else publish .running
  else
    if (← Prog.gets World.jobState) = .pausedContention then publish .running

/-- Two EXPLAINs, in a transaction of their own; a reading that fails never fails the walk. -/
def walkedFraction (walk : Walk δ) (cursor : String) : Exec δ Unit := do
  if cursor = "" ∨ cursor = "0" ∨ walk.confined then pure ()
  else if cursor.front = '[' ∧ (codec.parse cursor).getD [] = [] then pure ()
  else
    Prog.tryCatch
      (readOnly env do
        readData env fun _ => .ok ()
        readData env fun _ => .ok ())
      fun _ => rollback

def unlessStopped {α : Type} (stopped : α) (p : Exec δ α) : Exec δ α := do
  if ← ask env.cancelStop then
    cancelled
    pure stopped
  else p

/-- The statement timeout comes off, where there is one. -/
def liftTimeout : Exec δ Unit :=
  if 0 < cfg.statementTimeoutMs then readData env fun _ => .ok () else pure ()

/-- The statement over the whole table, where no earlier attempt left a cursor. -/
def singleStatement (walk : Walk δ) (resumedFrom : String) : Exec δ SingleEnd :=
  match walk.single with
  | none => pure .walk
  | some run =>
    if resumedFrom ≠ "0" then pure .walk
    else do
      let held ← operationSlot env fuel
      Prog.leaving (unlessStopped env .stopped do
        begin env
        enlist walk.ordinal
        Prog.tryCatch
          (do
            liftTimeout env cfg
            readData env fun _ => .ok ()
            let rows ← onData env run
            commit env
            pure (.done rows))
          fun
          | .sql .queryCanceled what => do
            if ← ask env.cancelStop then
              rollback
              cancelled
              pure .stopped
            else if ← ask env.cancelRequested then
              rollback
              pure .walk
            else
              recordStep walk.ordinal .failed 0
              Prog.throw (.sql .queryCanceled what)
          | .sql .lockNotAvailable _ => do
            rollback
            pure .walk
          | .sql (.other code) what => do
            recordStep walk.ordinal .failed 0
            Prog.throw (.sql (.other code) what)
          | .runtime what => Prog.throw (.runtime what))
        (releaseSlot held)

/-- The batch of this walk's form. A cursor that will not parse stops the step. -/
def runBatch (walk : Walk δ) (upto : List (Option String)) (batch : Int) (v : TxnVars) :
    Exec δ BatchOutcome :=
  match walk.sql with
  | .statement run => runPacedStatement env run v.cursor batch
  | .twoStatement select apply =>
    runPacedBatch env select apply v.cursor batch cfg.batchBytes upto
  | .composite columns select apply =>
    runCompositeBatch env codec columns select apply v.cursor batch cfg.batchBytes upto
  | .compositeStatement columns run =>
    runCompositeStatement env codec columns run v.cursor batch upto
  | .grouped groups select apply =>
    match GroupCursor.decode codec v.cursor with
    | none => do
      recordStep walk.ordinal .failed v.rowsDone
      rollback
      Prog.throw (unreadableGrouped v.cursor)
    | some from_ =>
      runGroupedBatch env codec groups select apply batch cfg.batchBytes
        (decide (batch ≤ v.rowsThisTxn)) from_

/-- `none`: the observer had the batch cancelled, and its transaction is rolled back. -/
def attemptBatch (walk : Walk δ) (upto : List (Option String)) (batch : Int) (v : TxnVars) :
    Exec δ (Option BatchOutcome) :=
  Prog.tryCatch
    (do
      let outcome ← runBatch env cfg codec walk upto batch v
      pure (some outcome))
    fun
    | .sql .queryCanceled what => do
      if ← ask env.cancelRequested then
        rollback
        logWalk .batchCancelled
        pure none
      else
        recordStep walk.ordinal .failed v.rowsDone
        Prog.throw (.sql .queryCanceled what)
    | .sql state what => do
      recordStep walk.ordinal .failed v.rowsDone
      Prog.throw (.sql state what)
    | .runtime what => Prog.throw (.runtime what)

def TxnVars.advance (v : TxnVars) (outcome : BatchOutcome) : TxnVars :=
  { cursor := outcome.cursor
    rowsDone := v.rowsDone + outcome.considered
    rowsThisTxn := v.rowsThisTxn + outcome.considered }

def TxnVars.ends (v : TxnVars) (done : Bool) : TxnEnd :=
  { cursor := v.cursor, rowsDone := v.rowsDone, done }

/-- A batch, and whether the transaction goes on after it. A cancelled one ends it with the
variables as they are. -/
def batchOfTxn (walk : Walk δ) (upto : List (Option String)) (txnStarted : Int) (v : TxnVars) :
    Exec δ (TxnVars ⊕ TxnEnd) := do
  let throttled ← ask env.throttled
  let batch := if throttled then max 1 (cfg.batchRows / 2) else cfg.batchRows
  match ← attemptBatch env cfg codec walk upto batch v with
  | none => pure (.inr (v.ends false))
  | some outcome =>
    logWalk (.batch outcome.cursor)
    if outcome.commitFirst then pure (.inr ((v.advance outcome).ends false))
    else if outcome.considered = 0 then
      pure (.inr ((v.advance outcome).ends (!outcome.skippedOnly)))
    else
      -- a waiter first, then the interval, then the row cap
      let waiters ← ask env.directWaiters
      if 0 < waiters then pure (.inr ((v.advance outcome).ends false))
      else
        let now ← ask env.steadyMs
        if cfg.commitIntervalMs ≤ now - txnStarted then
          pure (.inr ((v.advance outcome).ends false))
        else if cfg.batchCapRows ≤ (v.advance outcome).rowsThisTxn then
          pure (.inr ((v.advance outcome).ends false))
        else pure (.inl (v.advance outcome))

def Db.setCursor (ordinal : Nat) (cursor : String) (rowsDone : Int) (db : Db δ) : Db δ :=
  { db with cursors := fun n =>
      if n = ordinal then
        some { lastKey := cursor
               rowsDone := rowsDone
               commits := ((db.cursors n).map CursorRow.commits).getD 0 + 1 }
      else db.cursors n }

/-- The cursor rides in the same transaction as the data it describes. -/
def commitCursor (ordinal : Nat) (cursor : String) (rowsDone : Int) : Exec δ Unit := do
  exec env fun db => .ok ((), db.setCursor ordinal cursor rowsDone)
  commitNoting env fun w =>
    { w with walkLog := .committed cursor w.durable.data :: w.walkLog }

/-- After the batches of a transaction: the commit, unless they were rolled back. -/
def closeTxn (walk : Walk δ) (vars : WalkVars) (e : TxnEnd) : Exec δ WalkVars := do
  if (← Prog.gets World.txn).isSome then
    commitCursor env walk.ordinal e.cursor e.rowsDone
    pure { vars with cursor := e.cursor, rowsDone := e.rowsDone, rowsCommitted := e.rowsDone
                     commits := vars.commits + 1 }
  else pure { vars with cursor := e.cursor, rowsDone := e.rowsDone }

def askProgress (walk : Walk δ) (vars : WalkVars) : Exec δ WalkVars := do
  let now ← ask env.steadyMs
  if cfg.progressIntervalMs ≤ now - vars.progressAskedMs then
    let asked ← ask env.steadyMs
    walkedFraction env codec walk vars.cursor
    pure { vars with progressAskedMs := asked }
  else pure vars

/-- One transaction of the walk. `.inr none`: the job was cancelled, and has said so. -/
def walkTxn (walk : Walk δ) (upto : List (Option String)) (vars : WalkVars) :
    Exec δ (WalkVars ⊕ Option WalkVars) :=
  unlessStopped env (.inr none) do
    waitWhilePaused env cfg fuel
    unlessStopped env (.inr none) do
      let held ← operationSlot env fuel
      Prog.leaving (unlessStopped env (.inr none) do
        begin env
        enlist walk.ordinal
        logWalk (.began vars.cursor)
        let txnStarted ← ask env.steadyMs
        let e ← Prog.loop (batchOfTxn env cfg codec walk upto txnStarted) fuel
          { cursor := vars.cursor, rowsDone := vars.rowsDone }
        let vars ← closeTxn env walk vars e
        if e.done then pure (.inr (some vars))
        else do
          let vars ← askProgress env cfg codec walk vars
          pure (.inl vars))
        (releaseSlot held)

def verifyRemaining (walk : Walk δ) (rowsDone : Int) : Exec δ Unit :=
  match walk.verifyRemaining with
  | none => pure ()
  | some count => do
    let n ← readOnly env (readData env count)
    if n ≠ 0 then
      recordStep walk.ordinal .failed rowsDone
      Prog.throw (.runtime ("verify_remaining still selects " ++ toString n ++
        " rows after the backfill completed"))

def verifyInvariants (walk : Walk δ) (before : List (String × Option String))
    (rowsDone : Int) : Exec δ Unit :=
  if walk.invariants = [] then pure ()
  else do
    let after ← readOnly env (readInvariants env walk.invariants)
    match after.find? fun v => decide (v.2 ≠ invariantBefore before v.1) with
    | none => pure ()
    | some broken =>
      recordStep walk.ordinal .failed rowsDone
      Prog.throw (.runtime ("invariant \"" ++ broken.1 ++ "\" went from " ++
        codec.scalar (invariantBefore before broken.1) ++ " to " ++ codec.scalar broken.2))

/-- After the last batch: completeness, what must not have changed, and the record. -/
def finishWalk (walk : Walk δ) (before : List (String × Option String)) (rowsDone : Int) :
    Exec δ Unit := do
  verifyRemaining env walk rowsDone
  verifyInvariants env codec walk before rowsDone
  recordStep walk.ordinal .succeeded rowsDone

def invariantsBefore (walk : Walk δ) : Exec δ (List (String × Option String)) :=
  if walk.invariants = [] then pure [] else readOnly env (readInvariants env walk.invariants)

/-- The highest key there is as the walk starts, read once. -/
def readUpperBound (walk : Walk δ) : Exec δ (List (Option String)) :=
  match walk.upperBound with
  | none => pure []
  | some read => readOnly env (readData env read)

def runBackfill (walk : Walk δ) : Exec δ Unit := do
  Prog.modify fun w => { w with walkLog := [] }
  let before ← invariantsBefore env walk
  let upto ← readUpperBound env walk
  let started ← ask env.steadyMs
  -- nothing is asked of a walk that starts at the sentinel
  walkedFraction env codec walk (env.resumeCursor walk.ordinal)
  match ← singleStatement env cfg fuel walk (env.resumeCursor walk.ordinal) with
  | .stopped => pure ()
  | .done rows => finishWalk env codec walk before rows
  | .walk =>
    match ← Prog.loop (walkTxn env cfg codec fuel walk upto) fuel
        { cursor := env.resumeCursor walk.ordinal, progressAskedMs := started } with
    | none => pure ()
    | some vars => finishWalk env codec walk before vars.rowsDone

end

end Executor
end Laswell
