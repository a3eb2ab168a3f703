import Laswell.Base.Prog
import Laswell.Jobs.Job
import Laswell.Repository.Assemble

/-!
# Laswell.Deploy.Deployment

`Deployment::run`: the levels of a listing in order, the groups of a level one after another, and
within a group as many jobs at once as the cap allows, each polled until it has ended.

What the deployment is told (a signal, a file, the answer to a start, the state of a job) is the
`World`'s, and may change from one question to the next: a question is asked at the tick its number
is, and is logged with its answer. So a log of `n` entries stands at tick `n`.
-/

namespace Laswell
namespace Deploy

open Base Jobs Repository

structure DeployOptions where
  dryRun : Bool := false
  chain : Bool := false
  statusOnly : Bool := false
  /-- `max_concurrent_jobs` of the default connection. -/
  cap : Int := 2

inductive DeployResult where
  | ok
  | refused
  | repoProblem
  | configProblem
  | interrupted
  deriving DecidableEq, Repr

/-- `accepted` of a `startMigration` that has answered, with the job's id. -/
inductive Started where
  | accepted (jobId : String)
  | refused
  deriving DecidableEq, Repr

/-- The outcome of one specification of a chain rehearsal. -/
inductive Rehearsal where
  | rehearsed
  | incomplete
  | failed
  | refused
  deriving DecidableEq, Repr

/-- What the deployment may be told at each tick. `none` where a tool answers is an exception.
`state` is what `snapshot` reads of a job, `none` of one the registry does not know; `interrupted`,
which the source counts as an end too, is a word of the ledger and no job of the registry says
it. -/
structure World where
  /-- The tick from which a signal is there. It is recorded once and stays. -/
  signal : Option Nat
  readable : Nat → RepoEntry → Bool
  planned : Nat → RepoEntry → Option Bool
  started : Nat → RepoEntry → Option Started
  rehearsed : Nat → RepoEntry → Option Rehearsal
  state : Nat → String → Option JobState

def World.received (w : World) (tick : Nat) : Bool :=
  match w.signal with
  | none => false
  | some first => first ≤ tick

/-- A signal stays. -/
theorem World.received_mono {w : World} {m n : Nat} (h : w.received m = true) (hle : m ≤ n) :
    w.received n = true := by
  unfold World.received at h ⊢
  cases hs : w.signal with
  | none => simp [hs] at h
  | some first =>
    simp only [hs, decide_eq_true_eq] at h ⊢
    omega

inductive Event where
  | signal (received : Bool)
  | askedToStop
  | read (id : String) (ok : Bool)
  | planned (id : String) (ok : Option Bool)
  | started (id jobId : String)
  | notStarted (id : String)
  | rehearsed (id : String) (outcome : Option Rehearsal)
  | slept
  | seen (id jobId : String) (state : Option JobState)
  deriving DecidableEq, Repr

structure Run where
  stopSaid : Bool := false
  log : List Event := []
  deriving DecidableEq, Repr

abbrev Deploying (α : Type) := Prog Run Unit α

def Run.note (s : Run) (e : Event) : Run := { s with log := e :: s.log }

def ask {α : Type} (answer : Nat → α) (event : α → Event) : Deploying α := fun s =>
  (.ok (answer s.log.length), s.note (event (answer s.log.length)))

/-- A tool that may throw. -/
def call {α : Type} (answer : Nat → Option α) (event : Option α → Event) : Deploying α := do
  match ← ask answer event with
  | some a => pure a
  | none => Prog.throw ()

def received (w : World) : Deploying Bool := ask w.received .signal

def sleep : Deploying Unit := ask (fun _ => ()) fun _ => .slept

/-- `read_spec_file`: false where it throws, which every caller catches. -/
def readSpecFile (w : World) (e : RepoEntry) : Deploying Bool :=
  ask (fun tick => w.readable tick e) (.read e.specId)

/-- A plan and its report: is it one that may be applied? -/
def planMigrationTool (w : World) (e : RepoEntry) : Deploying Bool :=
  call (fun tick => w.planned tick e) (.planned e.specId)

def startEvent (id : String) : Option Started → Event
  | some (.accepted job) => .started id job
  | _ => .notStarted id

def startMigration (w : World) (e : RepoEntry) : Deploying Started :=
  call (fun tick => w.started tick e) (startEvent e.specId)

def rehearse (w : World) (e : RepoEntry) : Deploying Rehearsal :=
  call (fun tick => w.rehearsed tick e) (.rehearsed e.specId)

def snapshot (w : World) (id job : String) : Deploying (Option JobState) :=
  ask (fun tick => w.state tick job) (.seen id job)

/-- Has a job been seen to end? -/
def ended : Option JobState → Bool
  | none => false
  | some st => isTerminal st

/-- The jobs are asked to stop at the first signal only. -/
def stopOnSignal (w : World) : Deploying Bool := do
  if ← received w then
    if ← Prog.gets Run.stopSaid then pure true
    else do
      Prog.modify fun s => { stopSaid := true, log := .askedToStop :: s.log }
      pure true
  else pure false

/-! ## Groups -/

/-- Id and job id of what has been started and has not been seen to end. -/
abbrev Running := List (String × String)

/-- One round of `drain`: `kept` are the jobs the iterator has passed. -/
def drainRound (w : World) : Running → Running → Deploying Running
  | kept, [] => pure kept
  | kept, (id, job) :: rest => do
    let state ← snapshot w id job
    if ended state then drainRound w kept rest else drainRound w (kept ++ [(id, job)]) rest

def drain (w : World) : Nat → Running → Deploying Unit :=
  Prog.loop fun running =>
    if running.isEmpty then pure (.inr ())
    else do
      let _ ← stopOnSignal w
      sleep
      let running ← drainRound w [] running
      pure (.inl running)

/-- How the inner loop of `run_group` is left: `ended` is a return out of the group. -/
inductive Filled where
  | waiting (ids : List RepoEntry) (running : Running)
  | ended (result : DeployResult)

/-- The inner loop: start while there is something to start and room for it. -/
def startWhileRoom (w : World) (opts : DeployOptions) (fuel : Nat) :
    List RepoEntry → Running → Deploying Filled
  | [], running => pure (.waiting [] running)
  | e :: ids, running =>
    if opts.cap ≤ running.length then pure (.waiting (e :: ids) running)
    else do
      if ← received w then pure (.waiting (e :: ids) running)
      else do
        if ← readSpecFile w e then
          if opts.dryRun then do
            if ← planMigrationTool w e then startWhileRoom w opts fuel ids running
            else pure (.ended .refused)
          else do
            match ← startMigration w e with
            | .accepted job => startWhileRoom w opts fuel ids (running ++ [(e.specId, job)])
            | .refused => do
              drain w fuel running
              pure (.ended .refused)
        else do
          drain w fuel running
          pure (.ended .repoProblem)

/-- The polling loop of `run_group`: the first job seen to end otherwise than `succeeded` ends the
deployment, once the others are drained. -/
def poll (w : World) (fuel : Nat) : Running → Running → Deploying (Running ⊕ DeployResult)
  | kept, [] => pure (.inl kept)
  | kept, (id, job) :: rest => do
    let state ← snapshot w id job
    if ended state then
      if state = some .succeeded then poll w fuel kept rest
      else do
        drain w fuel (kept ++ rest)
        pure (.inr .refused)
    else poll w fuel (kept ++ [(id, job)]) rest

/-- One round of the loop of `run_group`. -/
def groupRound (w : World) (opts : DeployOptions) (fuel : Nat) :
    List RepoEntry × Running → Deploying ((List RepoEntry × Running) ⊕ DeployResult)
  | (ids, running) =>
    if ids.isEmpty && running.isEmpty then pure (.inr .ok)
    else do
      match ← startWhileRoom w opts fuel ids running with
      | .ended result => pure (.inr result)
      | .waiting ids running => do
        if ← stopOnSignal w then do
          drain w fuel running
          pure (.inr .interrupted)
        else if running.isEmpty then pure (.inl (ids, running))
        else do
          sleep
          match ← poll w fuel [] running with
          | .inl running => pure (.inl (ids, running))
          | .inr result => pure (.inr result)

def runGroup (w : World) (opts : DeployOptions) (fuel : Nat) (ids : List RepoEntry) :
    Deploying DeployResult :=
  Prog.loop (groupRound w opts fuel) fuel (ids, [])

/-! ## Levels -/

/-- The deployment's own `by_id`, in which the last of two entries with one id is. -/
def listed (migrations : List RepoEntry) (id : String) : Option RepoEntry :=
  (migrations.filter fun m => m.specId = id).getLast?

/-- What of a list of ids the deployment acts on. -/
def pendingOf (migrations : List RepoEntry) (specs : List String) : List RepoEntry :=
  (specs.filterMap (listed migrations)).filter fun m =>
    m.status = .pending || m.status = .failed

def runGroups (w : World) (opts : DeployOptions) (fuel : Nat) (migrations : List RepoEntry) :
    List Group → Deploying DeployResult
  | [] => pure .ok
  | g :: groups =>
    let ids := pendingOf migrations g.specs
    if ids.isEmpty then runGroups w opts fuel migrations groups
    else do
      let r ← runGroup w opts fuel ids
      if r = .ok then runGroups w opts fuel migrations groups else pure r

def runLevels (w : World) (opts : DeployOptions) (fuel : Nat) (migrations : List RepoEntry) :
    List Level → Deploying DeployResult
  | [] => pure .ok
  | level :: levels => do
    let r ← runGroups w opts fuel migrations level.groups
    if r = .ok then runLevels w opts fuel migrations levels else pure r

/-! ## The chain rehearsal -/

/-- What a chain has come to. `broken` are the failed, the incomplete, and those blocked by
either. -/
structure Chain where
  broken : List String := []
  failed : Nat := 0
  incomplete : Nat := 0
  blocked : Nat := 0

def Chain.rehearsed (c : Chain) (id : String) : Rehearsal → Chain
  | .rehearsed => c
  | .incomplete => { c with broken := id :: c.broken, incomplete := c.incomplete + 1 }
  | .failed => { c with broken := id :: c.broken, failed := c.failed + 1 }
  | .refused => { c with broken := id :: c.broken, failed := c.failed + 1 }

/-- A specification that depends on a broken one is not rehearsed, and the chain goes on. -/
def chainLoop (w : World) : Chain → List RepoEntry → Deploying DeployResult
  | c, [] => pure (if c.failed + c.incomplete + c.blocked = 0 then .ok else .refused)
  | c, e :: rest =>
    if e.dependsOn.any fun d => c.broken.contains d then
      chainLoop w { c with broken := e.specId :: c.broken, blocked := c.blocked + 1 } rest
    else do
      if ← readSpecFile w e then do
        let outcome ← rehearse w e
        chainLoop w (c.rehearsed e.specId outcome) rest
      else pure .repoProblem

def runChain (w : World) (l : Listing) : Deploying DeployResult :=
  chainLoop w {} (pendingOf l.migrations l.specs)

/-! ## The deployment -/

def countStatus (migrations : List RepoEntry) (status : RepoStatus) : Nat :=
  migrations.countP fun m => m.status = status

/-- `listing` is what `list_migrations` answered, `none` an error. -/
def run (w : World) (opts : DeployOptions) (fuel : Nat) (listing : Option Listing) :
    Deploying DeployResult :=
  match listing with
  | none => pure .configProblem
  | some l =>
    let pending := countStatus l.migrations .pending
    let retry := countStatus l.migrations .failed
    if !l.problems.isEmpty then pure .repoProblem
    else if opts.statusOnly then pure (if 0 < retry then .refused else .ok)
    else if pending + retry = 0 then pure .ok
    else if opts.chain then runChain w l
    else runLevels w opts fuel l.migrations l.order

end Deploy
end Laswell
