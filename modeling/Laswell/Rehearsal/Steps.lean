import Laswell.Base.Prog

/-!
# Laswell.Rehearsal.Steps

`Catalog::rehearse_steps`: the steps of one plan, in order, inside a transaction that its caller
rolls back. A step that cannot run there is left out, and what it would have made is then missing
for those after it.

* `Session`: what is done in the transaction, and what it may throw.
* `checkOnEmptyCopies`: the definition of a step that is left out.
* `rehearseSteps`: the loop, with its ways to end.
-/

namespace Laswell
namespace Rehearsal

open Base

/-! ## The transaction -/

inductive Fault where
  /-- `pqxx::sql_error` -/
  | sqlError (sqlstate what : String)
  /-- `pqxx::broken_connection`: any error in class 08, be the connection broken or not -/
  | brokenConnection (what : String)
  | other (what : String)
deriving DecidableEq

structure CopyPayload where
  qualified : Option String := none
  columns : List String := []
  rows : List (List (Option String)) := []

/-- A statement, with the transaction's own told apart. -/
inductive Command where
  | savepoint (name : String)
  | rollbackTo (name : String)
  | release (name : String)
  | sql (text : String)
deriving DecidableEq

/-- What is done in an open transaction. `verifyStatement stmt execute` says whether the check was
only weak. -/
structure Session (σ : Type) where
  verifyStatement : String → Bool → Prog σ Fault Bool
  exec : Command → Prog σ Fault Unit
  streamCopy : CopyPayload → Prog σ Fault Unit
  isOpen : σ → Bool

/-! ## The report -/

structure Problem where
  step : Nat
  sqlstate : String
  message : String
  statement : String
deriving DecidableEq

structure DryRun where
  weakVerification : String := ""
  problems : List Problem := []
  unverifiedSteps : List Nat := []
  timedOutAt : Option Nat := none
  lockUnavailableAt : Option Nat := none
  dependsOnSkipped : Bool := false
  definitionChecked : List Nat := []

inductive Ending where
  | ok | failed | timedOut | gap
deriving DecidableEq

def isBlank (c : Char) : Bool := c ∈ [' ', '\n', '\t', '\r']

/-- `server_message` -/
def serverMessage (raw : String) : String :=
  let m := if "ERROR:".toList.isPrefixOf raw.toList then raw.toList.drop 6 else raw.toList
  let m := (m.reverse.dropWhile fun c => c ∈ ['\n', '\r', ' ']).reverse
  String.ofList (m.dropWhile fun c => c ∈ [' ', '\t'])

def trimRight (cs : List Char) : List Char := (cs.reverse.dropWhile isBlank).reverse

/-- `strip_trailing_semicolon`. One that stands alone stays. -/
def stripTrailingSemicolon (s : String) : String :=
  let cs := trimRight s.toList
  if cs.getLast? = some ';' ∧ 1 < cs.length then String.ofList (trimRight cs.dropLast)
  else String.ofList cs

def hasPrefix (beginning : String) (s : String) : Bool := beginning.toList.isPrefixOf s.toList

def hasText (text : String) (s : String) : Bool := s.toList.tails.any text.toList.isPrefixOf

/-! ## The steps -/

structure CopyCheck where
  relation : String
  sql : String

/-- One entry of each of the vectors that `rehearsal_inputs` fills side by side. -/
structure Step where
  ordinal : Nat
  statements : List String := []
  /-- cannot run in a transaction, or is left out -/
  txnForbidden : Bool := false
  copyPayload : Option CopyPayload := none
  execute : Bool := false
  onCopy : List CopyCheck := []

/-- What the server answered a check: of a statement, by step and position, or of a COPY. -/
inductive Heard where
  | accepted (step position : Nat)
  | weak (step position : Nat)
  | refused (step position : Nat) (fault : Fault)
  | copied (step : Nat)

/-- The transaction, and what the caller passes by reference. Nothing reads `heard`. -/
structure World (σ : Type) where
  session : σ
  out : DryRun := {}
  skippedAny : Bool := false
  heard : List Heard := []

abbrev Run (σ α : Type) := Prog (World σ) Fault α

section

variable {σ : Type} (srv : Session σ)

def onSession {α : Type} (p : Prog σ Fault α) : Run σ α := fun w =>
  let (o, s) := p w.session
  (o, { w with session := s })

def hear (h : Heard) : Run σ Unit := Prog.modify fun w => { w with heard := h :: w.heard }

def report (f : DryRun → DryRun) : Run σ Unit := Prog.modify fun w => { w with out := f w.out }

def noteUnverified (ordinal : Nat) : Run σ Unit := report fun out =>
  if ordinal ∈ out.unverifiedSteps then out
  else { out with unverifiedSteps := out.unverifiedSteps ++ [ordinal] }

def noteAll : List Step → Run σ Unit
  | [] => pure ()
  | step :: rest => do
    noteUnverified step.ordinal
    noteAll rest

def addProblem (p : Problem) : Run σ Unit := report fun out =>
  { out with problems := out.problems ++ [p] }

/-- A handler for `sql_error` alone. -/
def onSqlError {α : Type} (p : Run σ α) (h : String → String → Run σ α) : Run σ α :=
  p.tryCatch fun
    | .sqlError sqlstate what => h sqlstate what
    | fault => Prog.throw fault

/-- The check of a statement, and what came of it. -/
def verify (index position : Nat) (stmt : String) (execute : Bool) : Run σ Bool := do
  let weak ← onSession (srv.verifyStatement stmt execute)
  hear (if weak then .weak index position else .accepted index position)
  pure weak

/-! ## Definitions on empty copies -/

def back : Run σ Unit := do
  onSession (srv.exec (.rollbackTo "laswell_empty_copy"))
  onSession (srv.exec (.release "laswell_empty_copy"))

/-- The refusal, if there is one, and whether all that was asked for was checked. -/
def checkOnEmptyCopies : List CopyCheck → Bool → Run σ (Option Problem × Bool)
  | [], checked => pure (none, checked)
  | c :: rest, checked => do
    let stmt := stripTrailingSemicolon c.sql
    if c.relation = "" ∨ stmt = "" then checkOnEmptyCopies rest checked
    else do
      onSession (srv.exec (.savepoint "laswell_empty_copy"))
      let made ← onSqlError (do
        onSession (srv.exec (.sql ("CREATE TEMP TABLE laswell_shape (LIKE " ++ c.relation ++
          " INCLUDING GENERATED) ON COMMIT DROP")))
        pure true) fun _ _ => pure false
      if made = false then do
        back srv
        pure (none, false)
      else do
        let refusal ← onSqlError (do
          onSession (srv.exec (.sql stmt))
          pure none) fun sqlstate what => pure (some
            { step := 0, sqlstate, message := serverMessage what,
              statement := stmt ++ "   -- on an empty copy of " ++ c.relation })
        back srv
        match refusal with
        | some p => pure (some p, checked)
        | none => checkOnEmptyCopies rest true

/-! ## The loop -/

def rehearsalExclusiveTryMs : String := "200"

def observationLockTimeoutMs : String := "2000"

def weakText : String :=
  "a statement was checked by PREPARE rather than by EXPLAIN (GENERIC_PLAN), which this " ++
  "server does not support for these tables -- Citus among them. PREPARE catches a malformed " ++
  "statement and not one the extension will refuse to route, because Citus plans at " ++
  "execution time. Those steps are listed as unverified rather than claimed as checked."

/-- Whether the short wait for the exclusive lock begins after this statement: it takes the last of
the weaker locks. -/
def beginsShortWait (stmt : String) (more : List String) : Bool :=
  hasPrefix "LOCK TABLE " stmt && hasText "SHARE UPDATE EXCLUSIVE" stmt &&
    !(more.head?.any (hasPrefix "LOCK TABLE "))

/-- One statement. Returns whether the wait for a lock is now short. -/
def rehearseStatement (index position : Nat) (step : Step) (stmt : String) (more : List String)
    (shortWait : Bool) : Run σ Bool := do
  let weak ← verify srv index position stmt step.execute
  if weak then do
    noteUnverified step.ordinal
    report fun out =>
      if out.weakVerification = "" then { out with weakVerification := weakText } else out
  if !shortWait && beginsShortWait stmt more then do
    onSession (srv.exec (.sql ("SET LOCAL lock_timeout = " ++ rehearsalExclusiveTryMs)))
    pure true
  else pure shortWait

/-- How the rehearsal ends when a statement fails. -/
def statementFailed (step : Step) (rest : List Step) (stmt : String) (shortWait : Bool) :
    Fault → Run σ Ending
  | .sqlError sqlstate what => do
    if shortWait && sqlstate == "55P03" then do
      report fun out => { out with lockUnavailableAt := some step.ordinal }
      noteAll (step :: rest)
      pure .timedOut
    else if sqlstate = "57014" then do
      report fun out => { out with timedOutAt := some step.ordinal }
      noteAll (step :: rest)
      pure .timedOut
    else do
      let skippedAny ← Prog.gets World.skippedAny
      if skippedAny then do
        noteUnverified step.ordinal
        report fun out => { out with dependsOnSkipped := true }
        pure .gap
      else do
        addProblem { step := step.ordinal, sqlstate, message := serverMessage what,
                     statement := stmt }
        pure .failed
  | .brokenConnection what => do
    let isOpen ← Prog.gets fun w => srv.isOpen w.session
    if isOpen then do
      addProblem { step := step.ordinal, sqlstate := "08000", message := serverMessage what,
                   statement := stmt }
      pure .failed
    else Prog.throw (.brokenConnection what)
  | fault => Prog.throw fault

/-- The statements of a step: the wait for locks at their end, or the end of the rehearsal. -/
def rehearseStatements (index : Nat) (step : Step) (rest : List Step) :
    Nat → List String → Bool → Run σ (Bool ⊕ Ending)
  | _, [], shortWait => pure (.inl shortWait)
  | position, raw :: more, shortWait => do
    let stmt := stripTrailingSemicolon raw
    if stmt = "" then rehearseStatements index step rest (position + 1) more shortWait
    else do
      let result : Bool ⊕ Ending ← Prog.tryCatch (do
          let shortWait ← rehearseStatement srv index position step stmt more shortWait
          pure (.inl shortWait))
        fun fault => do
          hear (.refused index position fault)
          let ending ← statementFailed srv step rest stmt shortWait fault
          pure (.inr ending)
      match result with
      | .inl shortWait => rehearseStatements index step rest (position + 1) more shortWait
      | .inr ending => pure (.inr ending)

/-- A step that is left out. Returns whether nothing of it was checked. -/
def leaveOut (step : Step) (skippedUnchecked : Bool) : Run σ (Bool ⊕ Ending) := do
  noteUnverified step.ordinal
  let (problem, checked) ← checkOnEmptyCopies srv step.onCopy false
  match problem, skippedUnchecked with
  | some p, false => do
    addProblem { p with step := step.ordinal }
    pure (.inr .failed)
  | _, _ => do
    let checked := checked && problem.isNone
    if checked then
      report fun out => { out with definitionChecked := out.definitionChecked ++ [step.ordinal] }
    Prog.modify fun w => { w with skippedAny := true }
    pure (.inl !checked)

def copyRows (index : Nat) (step : Step) (payload : CopyPayload) : Run σ (Option Ending) :=
  onSqlError (do
    onSession (srv.streamCopy payload)
    hear (.copied index)
    pure none) fun sqlstate what => do
      addProblem { step := step.ordinal, sqlstate, message := serverMessage what,
                   statement := "COPY into " ++ payload.qualified.getD "?" }
      pure (some .failed)

/-- Every step from this one on. `skippedUnchecked`: one was left out with nothing checked. -/
def rehearseFrom : Nat → List Step → Bool → Run σ Ending
  | _, [], _ => pure .ok
  | index, step :: rest, skippedUnchecked => do
    if step.txnForbidden then do
      match ← leaveOut srv step skippedUnchecked with
      | .inl unchecked => rehearseFrom (index + 1) rest (skippedUnchecked || unchecked)
      | .inr ending => pure ending
    else
      match step.copyPayload with
      | some payload => do
        match ← copyRows srv index step payload with
        | none => rehearseFrom (index + 1) rest skippedUnchecked
        | some ending => pure ending
      | none => do
        match ← rehearseStatements srv index step rest 0 step.statements false with
        | .inl shortWait => do
          if shortWait then
            onSession
              (srv.exec (.sql ("SET LOCAL lock_timeout = " ++ observationLockTimeoutMs)))
          rehearseFrom (index + 1) rest skippedUnchecked
        | .inr ending => pure ending

def rehearseSteps (steps : List Step) : Run σ Ending := do
  let skippedAny ← Prog.gets World.skippedAny
  rehearseFrom srv 0 steps skippedAny

end

end Rehearsal
end Laswell
