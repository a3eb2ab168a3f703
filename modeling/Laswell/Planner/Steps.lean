import Laswell.Executor.Execute

/-!
# Laswell.Planner.Steps

What `plan_migration` does with the steps its planners emit, whatever intents they are for: the
transaction group of each, the check that follows a concurrent build, and the numbers. `Step.run`
is such a step as the executor reads it.

* `group`: consecutive steps share a transaction, unless one of them cannot.
* `withVerification`: a build that runs outside of a transaction is followed by a verify step.
* `planMigration`: the plan's steps, `toPlan` the plan the executor runs.
-/

namespace Laswell
namespace Planner

open Executor

inductive TxnClass where
  | required
  | optional
  | forbidden
  | ownTxnPerBatch
  deriving DecidableEq

inductive Action where
  | apply
  | satisfied
  | conflict
  deriving DecidableEq

/-- What is read back of a step's detail; a text that is not there reads as the empty one. -/
structure Detail where
  schema : String := ""
  index : String := ""
  copyRows : Bool := false
  maintenanceWorkMemMb : Int := 0
  noStatementTimeout : Bool := false
  exclusiveRetry : Bool := false
  weakerLockFirst : Int := 1
  deriving DecidableEq

structure Step where
  ordinal : Nat := 0
  txnGroup : Int := 0
  kind : String
  txnClass : TxnClass := .optional
  action : Action := .apply
  sql : List String := []
  lock : String := ""
  ownTransaction : Bool := false
  detail : Detail := {}
  deriving DecidableEq

/-! ## Memory for builds -/

def occursIn (part : List Char) : List Char → Bool
  | [] => part.isEmpty
  | c :: rest => part.isPrefixOf (c :: rest) || occursIn part rest

/-- `text.find(part) != npos` -/
def contains (text part : String) : Bool := occursIn part.toList text.toList

/-- The operations that use `maintenance_work_mem`. -/
def usesMaintenanceMemory (sql : String) : Bool :=
  contains sql "CREATE INDEX" || contains sql "CREATE UNIQUE INDEX" ||
  contains sql "VALIDATE CONSTRAINT" ||
  (contains sql " FOREIGN KEY " && !contains sql " NOT VALID;") ||
  contains sql "ALTER COLUMN"

def Step.raiseMemory (maintenanceMb : Int) (step : Step) : Step :=
  if 0 < maintenanceMb ∧ step.action = .apply ∧
      usesMaintenanceMemory (" ".intercalate step.sql) then
    { step with detail := { step.detail with maintenanceWorkMemMb := maintenanceMb } }
  else step

/-! ## Groups -/

/-- Forbidden in a transaction, or committing on its own. -/
def TxnClass.apart (c : TxnClass) : Bool := c == .forbidden || c == .ownTxnPerBatch

/-- The loop's variables. -/
structure Grouping where
  group : Int := 1
  previous : TxnClass := .required
  first : Bool := true

def boundaryBefore (previous : TxnClass) (step : Step) : Bool :=
  step.ownTransaction || step.txnClass.apart || previous.apart

def Grouping.groupOf (g : Grouping) (step : Step) : Int :=
  if !g.first && boundaryBefore g.previous step then g.group + 1 else g.group

def Grouping.after (g : Grouping) (step : Step) : Grouping where
  group := g.groupOf step
  previous := step.txnClass
  first := false

def group : Grouping → List Step → List Step
  | _, [] => []
  | g, step :: rest => { step with txnGroup := g.groupOf step } :: group (g.after step) rest

/-! ## Verify steps -/

def verifyIndexValid : String := "verify_index_valid"

def createIndex : String := "create_index"

/-- A verify step, as the recipes emit one for an index of theirs. -/
def verifyStep (schema index : String) : Step where
  kind := verifyIndexValid
  lock := "none (catalog read)"
  detail := { schema, index }

/-- A concurrent build: it can return without error and leave an invalid index. -/
def Step.buildsOutside (s : Step) : Bool :=
  s.kind == createIndex && s.action == .apply && s.txnClass == .forbidden

/-- The verify step of a build, in the build's own group. -/
def Step.verification (s : Step) : Step :=
  { verifyStep s.detail.schema s.detail.index with txnGroup := s.txnGroup }

def withVerification : List Step → List Step
  | [] => []
  | s :: rest =>
    if s.buildsOutside then s :: s.verification :: withVerification rest
    else s :: withVerification rest

/-- Ordinals are dense, also after the insertions. -/
def renumber (steps : List Step) : List Step := steps.mapIdx fun i s => { s with ordinal := i }

/-- The steps of a plan, from those of each intent. -/
def planMigration (maintenanceMb : Int) (emitted : List (List Step)) : List Step :=
  renumber (withVerification (group {} (emitted.flatten.map (Step.raiseMemory maintenanceMb))))

/-! ## As the executor reads them -/

def isBlank (c : Char) : Bool := c == ' ' || c == '\n' || c == '\t' || c == '\r'

def stripSemicolon (s : String) : String :=
  match s.toList.reverse.dropWhile isBlank with
  | ';' :: rest => String.ofList (rest.dropWhile isBlank).reverse
  | rest => String.ofList rest.reverse

/-- What the server makes of the statements of a plan, by their text: a statement, the payload of
a copy, and a walk, which has its texts in the step's detail. -/
structure Meaning (δ : Type) where
  statement : String → δ → Except Failure (Nat × δ)
  copy : Step → δ → Except Failure (Nat × δ)
  walk : Step → Walk δ

variable {δ : Type} (m : Meaning δ)

def Step.runKind (s : Step) : StepKind δ :=
  if s.kind = verifyIndexValid then .verifyIndexValid
  else if s.kind = createIndex then .createIndex s.detail.schema s.detail.index
  else if s.kind = "copy_rows" then .copyRows (if s.detail.copyRows then some (m.copy s) else none)
  else .other

def Step.runClass (s : Step) : Executor.TxnClass δ :=
  match s.txnClass with
  | .forbidden => .txnForbidden
  | .ownTxnPerBatch => .ownTxnPerBatch (m.walk s)
  | .required => .transactional
  | .optional => .transactional

def Action.run : Action → Executor.Action
  | .apply => .apply
  | .satisfied => .satisfied
  | .conflict => .other

def Step.run (s : Step) : Executor.Step δ where
  ordinal := s.ordinal
  txnGroup := s.txnGroup
  kind := s.runKind m
  txnClass := s.runClass m
  action := s.action.run
  sql := s.sql.map fun text =>
    { sql := stripSemicolon text, effect := m.statement (stripSemicolon text) }
  maintenanceWorkMemMb := s.detail.maintenanceWorkMemMb
  noStatementTimeout := s.detail.noStatementTimeout
  exclusiveRetry := s.detail.exclusiveRetry
  weakerLockFirst := s.detail.weakerLockFirst

/-- Each step is where its ordinal says. -/
def Numbered (steps : List Step) : Prop :=
  ∀ (n : Nat) (s : Step), steps[n]? = some s → s.ordinal = n

theorem numbered_renumber (steps : List Step) : Numbered (renumber steps) := by
  intro n s h
  rw [renumber, List.getElem?_mapIdx] at h
  obtain ⟨s, -, rfl⟩ := Option.map_eq_some_iff.1 h
  rfl

theorem numbered_planMigration (maintenanceMb : Int) (emitted : List (List Step)) :
    Numbered (planMigration maintenanceMb emitted) := numbered_renumber _

def toPlan (steps : List Step) (h : Numbered steps) : Plan δ where
  steps := steps.map (Step.run m)
  numbered := by
    intro n step hstep
    rw [List.getElem?_map] at hstep
    obtain ⟨s, hs, rfl⟩ := Option.map_eq_some_iff.1 hstep
    exact h n s hs

/-! ## What the executor sees of a step -/

section

variable {m} {s : Step}

theorem run_isVerify :
    (s.run m).kind = .verifyIndexValid ↔ s.kind = verifyIndexValid := by
  change s.runKind m = _ ↔ _
  unfold Step.runKind
  split_ifs <;> simp_all

theorem run_apply : (s.run m).action = .apply ↔ s.action = .apply := by
  change s.action.run = _ ↔ _
  cases s.action <;> simp [Action.run]

theorem run_needsOwn : (s.run m).needsOwn = s.txnClass.apart := by
  have hclass : (s.run m).txnClass = s.runClass m := rfl
  rw [Executor.Step.needsOwn, hclass, Step.runClass]
  cases s.txnClass <;> rfl

end

end Planner
end Laswell
