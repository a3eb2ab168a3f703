import Mathlib.Data.List.Forall2
import Laswell.Base.Prog
import Laswell.Jobs.Job

/-!
# Laswell.Jobs.Observer

One observation cycle (`tick`) of one observer, and runs in which observers of several connections
tick in any order, between whatever the workers and the tools write.

`run_foreign_unobserved`: an observer of another connection that never finds the job alive leaves
its pacing as the observers of the job's own connection make it. `tick_foreign_unpauses`: one that
does find it alive does not.
-/

namespace Laswell
namespace Jobs

open Base

/-- A field of a reading's JSON object. -/
inductive Field where
  | absent
  | null
  | number (n : Int)
  deriving DecidableEq

/-- `nlohmann::json::type_error`: a value of another type than the one asked for. -/
structure TypeError where

/-- `value(key, default)`: a field that is there and is no number throws. -/
def Field.value {σ : Type} (f : Field) (default : Int) : Prog σ TypeError Int :=
  match f with
  | .absent => pure default
  | .null => Prog.throw {}
  | .number n => pure n

/-- The `cic` object of a reading. -/
structure Cic where
  lockersTotal : Field
  lockersDone : Field
  currentLockerPid : Field
  deriving DecidableEq

/-- What `kObserverSql` answers for one worker pid. -/
structure Reading where
  direct : Field := .absent
  transitive : Field := .absent
  blockingWaiterPid : Field := .absent
  oldestWaitMs : Field := .absent
  inflictedBlockedMs : Field := .absent
  cic : Option Cic := none
  deriving DecidableEq

/-- What the topology's statement answers for one worker pid. -/
structure ClusterReading where
  direct : Field := .absent
  transitive : Field := .absent
  oldestWaitUpperBoundMs : Option Int := none

/-- What a tick learns about waiters: the reading failed, nobody waits, or the answers by worker
pid, the cluster's beside the local ones. -/
inductive Waits where
  | failed
  | nobody
  | readings (byPid : Int → Option Reading) (cluster : Int → Option ClusterReading)

/-- Everything one tick reads on the server it is attached to. `sizes` is there when the heap of
long statements is due to be read. -/
structure Observation where
  sizes : Option (Nat → Option Int) := none
  waits : Waits
  now : Int

def Job.withPacing (f : PacingState → PacingState) (j : Job) : Job :=
  { j with pacing := f j.pacing }

def requestCancel (j : Job) : Job :=
  if j.pacing.cancelRequested then j
  else
    let j := j.withPacing fun p => { p with cancelRequested := true }
    if j.workerConn then { j with cancels := j.cancels + 1 } else j

section Ladder

variable (cfg : ExecutorConfig)

def bumpQuiet (j : Job) : Job :=
  j.withPacing fun p =>
    if p.transitiveWaiters ≤ cfg.resumeWaiters then
      let p := { p with quietTicks := p.quietTicks + 1 }
      if cfg.contentionDwellTicks ≤ p.quietTicks then
        { p with paused := false, throttled := false }
      else p
    else { p with quietTicks := 0 }

def clearContention (j : Job) : Job :=
  bumpQuiet cfg <| j.withPacing fun p =>
    { p with directWaiters := 0, transitiveWaiters := 0, blockingWaiterPid := 0,
             oldestWaitMs := 0, inflictedBlockedMs := 0, contentionTicks := 0 }

/-- A reading at or above `pause_waiters`. -/
def contend (now : Int) (j : Job) : Job :=
  let j := j.withPacing fun p =>
    { p with contentionTicks := p.contentionTicks + 1, quietTicks := 0 }
  if cfg.contentionDwellTicks ≤ j.pacing.contentionTicks ∧ j.pacing.paused = false then
    j.withPacing fun p => { p with paused := true, pausedSinceMs := now }
  else j

/-- The ladder, on the transitive count. -/
def climb (now transitive : Int) (j : Job) : Job :=
  let j := j.withPacing fun p => { p with throttled := decide (cfg.throttleWaiters ≤ transitive) }
  if cfg.pauseWaiters ≤ transitive then contend cfg now j
  else
    bumpQuiet cfg (j.withPacing fun p => { p with contentionTicks := 0 })

/-- `j.pacing.field = r.value(key, 0)` -/
def assign (f : Field) (set : Int → PacingState → PacingState) : Prog Job TypeError Unit := do
  let n ← f.value 0
  Prog.modify (Job.withPacing (set n))

def assignCic (cic : Option Cic) : Prog Job TypeError Unit :=
  match cic with
  | none => pure ()
  | some cic => do
    assign cic.lockersTotal fun n p => { p with cicLockersTotal := n }
    assign cic.lockersDone fun n p => { p with cicLockersDone := n }
    assign cic.currentLockerPid fun n p => { p with cicCurrentLockerPid := n }

/-- Fields are written as they are read: one that throws leaves those before it in place. -/
def apply (now : Int) (r : Reading) : Prog Job TypeError Unit := do
  let direct ← r.direct.value 0
  let transitive ← r.transitive.value 0
  Prog.modify (Job.withPacing fun p =>
    { p with directWaiters := direct, transitiveWaiters := transitive })
  assign r.blockingWaiterPid fun n p => { p with blockingWaiterPid := n }
  assign r.oldestWaitMs fun n p => { p with oldestWaitMs := n }
  assign r.inflictedBlockedMs fun n p => { p with inflictedBlockedMs := n }
  assignCic r.cic
  Prog.modify (climb cfg now transitive)
  Prog.modify fun j =>
    if cfg.maxWaiterWaitMs < j.pacing.oldestWaitMs then requestCancel j else j

/-- The cluster's counts and age, where they are larger than the local ones. -/
def merge {σ : Type} (r : Reading) (c : ClusterReading) : Prog σ TypeError Reading := do
  let direct ← r.direct.value 0
  let far ← c.direct.value 0
  let transitive ← r.transitive.value 0
  let farther ← c.transitive.value 0
  let r := { r with direct := .number (max direct far),
                    transitive := .number (max transitive farther) }
  match c.oldestWaitUpperBoundMs with
  | none => pure r
  | some bound =>
    let oldest ← r.oldestWaitMs.value 0
    pure { r with oldestWaitMs := .number (max oldest bound) }

/-- `reading.empty() || (direct == 0 && transitive == 0)` -/
def Reading.quiet {σ : Type} (r : Reading) : Prog σ TypeError Bool := do
  if r = {} then pure true
  else
    let direct ← r.direct.value 0
    if direct = 0 then
      let transitive ← r.transitive.value 0
      pure (decide (transitive = 0))
    else pure false

/-- The reading of one job's worker pid: the local answer, raised by the cluster's. -/
def readingOf {σ : Type} (pid : Int) (byPid : Int → Option Reading)
    (cluster : Int → Option ClusterReading) : Prog σ TypeError Reading :=
  match cluster pid with
  | none => pure ((byPid pid).getD {})
  | some c => merge ((byPid pid).getD {}) c

/-- The loop's body for one live job. -/
def observe (now : Int) (byPid : Int → Option Reading) (cluster : Int → Option ClusterReading) :
    Prog Job TypeError Unit := do
  let pid ← Prog.gets fun j => j.pacing.workerPid
  let reading ← readingOf pid byPid cluster
  let quiet ← reading.quiet
  if quiet then Prog.modify (clearContention cfg) else apply cfg now reading

/-- The loop over the live jobs. An exception ends it: the jobs after are not looked at. -/
def observeAll (now : Int) (byPid : Int → Option Reading)
    (cluster : Int → Option ClusterReading) : JobRegistry → JobRegistry
  | [] => []
  | j :: js =>
    if j.live then
      match observe cfg now byPid cluster j with
      | (.ok _, j') => j' :: observeAll now byPid cluster js
      | (_, j') => j' :: js
    else j :: observeAll now byPid cluster js

/-- A job inside one long statement has no batch boundary at which to notice that it should
stop. -/
def stopLongStatement (j : Job) : Job :=
  if j.live && j.pacing.cancelStop &&
      (j.pacing.longStatement || (j.pacing.stopNow && !j.pacing.inWalk)) then requestCancel j
  else j

def readSize (sizes : Nat → Option Int) (j : Job) : Job :=
  if j.live && j.pacing.longStatement && decide (j.pacing.longStatementRelation ≠ 0) then
    match sizes j.pacing.longStatementRelation with
    | none => j
    | some n => j.withPacing fun p => { p with longStatementBytesNow := n }
  else j

def readSizes (sizes : Option (Nat → Option Int)) (jobs : JobRegistry) : JobRegistry :=
  match sizes with
  | none => jobs
  | some sizes => jobs.map (readSize sizes)

def clearAll (jobs : JobRegistry) : JobRegistry :=
  jobs.map fun j => if j.live then clearContention cfg j else j

/-- What the tick does with what it learned about waiters. -/
def learn (obs : Observation) (jobs : JobRegistry) : JobRegistry :=
  match obs.waits with
  | .failed => jobs
  | .nobody => clearAll cfg jobs
  | .readings byPid cluster => observeAll cfg obs.now byPid cluster jobs

/-- One observation cycle. -/
def tick (obs : Observation) (jobs : JobRegistry) : JobRegistry :=
  learn cfg obs (readSizes obs.sizes (jobs.map stopLongStatement))

end Ladder

/-! ## Runs -/

/-- What the worker, the tools and the signal handler write into a job. -/
inductive Write where
  | state (s : JobState)
  | workerPid (pid : Int)
  | workerConn (there : Bool)
  | cancelStop
  | stopNow
  | inWalk (b : Bool)
  | longStatement (b : Bool)
  | longStatementRelation (rel : Nat) (bytes : Int)
  | cancelNoted

def Write.perform (w : Write) (j : Job) : Job :=
  match w with
  | .state s => { j with state := s }
  | .workerPid pid => j.withPacing fun p => { p with workerPid := pid }
  | .workerConn there => { j with workerConn := there }
  | .cancelStop => j.withPacing fun p => { p with cancelStop := true }
  | .stopNow => j.withPacing fun p => { p with stopNow := true, cancelStop := true }
  | .inWalk b => j.withPacing fun p => { p with inWalk := b }
  | .longStatement b => j.withPacing fun p => { p with longStatement := b }
  | .longStatementRelation rel bytes =>
    j.withPacing fun p => { p with longStatementRelation := rel, longStatementBytesNow := bytes }
  | .cancelNoted => j.withPacing fun p => { p with cancelRequested := false }

/-- One step of the process: the observer of a connection ticks, something else writes, or a job
is registered. -/
inductive Step where
  | tick (connection : String) (obs : Observation)
  | write (jobId : String) (w : Write)
  | create (jobId connection : String)

section Runs

variable (configs : String → ExecutorConfig)

def Step.perform (jobs : JobRegistry) : Step → JobRegistry
  | .tick connection obs => Jobs.tick (configs connection) obs jobs
  | .write jobId w => jobs.map fun j => if j.jobId = jobId then w.perform j else j
  | .create jobId connection => JobRegistry.create { jobId, connection } jobs

def run (jobs : JobRegistry) (steps : List Step) : JobRegistry :=
  steps.foldl (Step.perform configs) jobs

end Runs

/-- The pacing fields a job's readings make. -/
structure Watch where
  directWaiters : Int
  transitiveWaiters : Int
  oldestWaitMs : Int
  contentionTicks : Int
  quietTicks : Int
  throttled : Bool
  paused : Bool
  deriving DecidableEq

def Job.watch (j : Job) : Watch where
  directWaiters := j.pacing.directWaiters
  transitiveWaiters := j.pacing.transitiveWaiters
  oldestWaitMs := j.pacing.oldestWaitMs
  contentionTicks := j.pacing.contentionTicks
  quietTicks := j.pacing.quietTicks
  throttled := j.pacing.throttled
  paused := j.pacing.paused

def watchOf (jobId : String) (jobs : JobRegistry) : Option Watch :=
  (jobs.find jobId).map Job.watch

/-- The fields that decide which jobs a tick looks at and which answer is whose. -/
structure Control where
  jobId : String
  connection : String
  state : JobState
  workerPid : Int
  deriving DecidableEq

def Job.control (j : Job) : Control where
  jobId := j.jobId
  connection := j.connection
  state := j.state
  workerPid := j.pacing.workerPid

/-! ## Two runs side by side -/

/-- The same job in two registries, as far as the job `jobId` is concerned. -/
def Alike (jobId : String) (j j' : Job) : Prop :=
  j.control = j'.control ∧ (j.jobId = jobId → j.watch = j'.watch)

section Alike

variable {jobId : String} {j j' : Job} {cfg : ExecutorConfig}

theorem Alike.refl (j : Job) : Alike jobId j j := ⟨rfl, fun _ => rfl⟩

theorem Alike.jobId_eq (h : Alike jobId j j') : j.jobId = j'.jobId :=
  congrArg Control.jobId h.1

theorem Alike.symm (h : Alike jobId j j') : Alike jobId j' j :=
  ⟨h.1.symm, fun hj => (h.2 (h.jobId_eq.trans hj)).symm⟩

theorem Alike.trans {k : Job} (h : Alike jobId j j') (h' : Alike jobId j' k) : Alike jobId j k :=
  ⟨h.1.trans h'.1, fun hj => (h.2 hj).trans (h'.2 (h.jobId_eq ▸ hj))⟩

theorem Alike.live_eq (h : Alike jobId j j') : j.live = j'.live := by
  have hs : j.state = j'.state := congrArg Control.state h.1
  have hp : j.pacing.workerPid = j'.pacing.workerPid := congrArg Control.workerPid h.1
  rw [Job.live, Job.live, hs, hp]

/-- A change that no pacing field shows. -/
theorem Alike.of_same {f : Job → Job} (hc : ∀ j, (f j).control = j.control)
    (hw : ∀ j, (f j).watch = j.watch) (h : Alike jobId j j') : Alike jobId (f j) (f j') := by
  have hid : (f j).jobId = j.jobId := congrArg Control.jobId (hc j)
  refine ⟨by rw [hc, hc, h.1], fun hj => ?_⟩
  rw [hw, hw, h.2 (hid ▸ hj)]

/-- A change whose result, as far as the pacing fields go, comes from the pacing fields. -/
theorem Alike.of_watch {f : Job → Job} (hc : ∀ j, (f j).control = j.control)
    (hw : ∀ j j', j.watch = j'.watch → (f j).watch = (f j').watch) (h : Alike jobId j j') :
    Alike jobId (f j) (f j') := by
  have hid : (f j).jobId = j.jobId := congrArg Control.jobId (hc j)
  exact ⟨by rw [hc, hc, h.1], fun hj => hw _ _ (h.2 (hid ▸ hj))⟩

theorem control_requestCancel (j : Job) : (requestCancel j).control = j.control := by
  unfold requestCancel
  split
  · rfl
  · dsimp only
    split <;> rfl

theorem watch_requestCancel (j : Job) : (requestCancel j).watch = j.watch := by
  unfold requestCancel
  split
  · rfl
  · dsimp only
    split <;> rfl

theorem control_stopLongStatement (j : Job) : (stopLongStatement j).control = j.control := by
  unfold stopLongStatement
  split
  · exact control_requestCancel j
  · rfl

theorem watch_stopLongStatement (j : Job) : (stopLongStatement j).watch = j.watch := by
  unfold stopLongStatement
  split
  · exact watch_requestCancel j
  · rfl

theorem control_readSize (sizes : Nat → Option Int) (j : Job) :
    (readSize sizes j).control = j.control := by
  unfold readSize
  split
  · split <;> rfl
  · rfl

theorem watch_readSize (sizes : Nat → Option Int) (j : Job) :
    (readSize sizes j).watch = j.watch := by
  unfold readSize
  split
  · split <;> rfl
  · rfl

theorem control_bumpQuiet (j : Job) : (bumpQuiet cfg j).control = j.control := by
  simp only [bumpQuiet, Job.withPacing, Job.control]
  split
  · split <;> rfl
  · rfl

theorem watch_bumpQuiet (h : j.watch = j'.watch) :
    (bumpQuiet cfg j).watch = (bumpQuiet cfg j').watch := by
  simp only [Job.watch, Watch.mk.injEq] at h
  obtain ⟨h1, h2, h3, h4, h5, h6, h7⟩ := h
  simp only [bumpQuiet, Job.withPacing, Job.watch, h2, h5]
  split
  · split <;> simp [h1, h3, h4, h6, h7]
  · simp [h1, h3, h4, h6, h7]

theorem control_clearContention (j : Job) : (clearContention cfg j).control = j.control :=
  control_bumpQuiet _

theorem watch_clearContention (h : j.watch = j'.watch) :
    (clearContention cfg j).watch = (clearContention cfg j').watch := by
  refine watch_bumpQuiet ?_
  simp only [Job.watch, Watch.mk.injEq] at h
  simp [Job.withPacing, Job.watch, h]

theorem control_contend (now : Int) (j : Job) : (contend cfg now j).control = j.control := by
  unfold contend
  dsimp only
  split <;> rfl

theorem watch_contend (now : Int) (j : Job) :
    (contend cfg now j).watch = { j.watch with
      contentionTicks := j.watch.contentionTicks + 1
      quietTicks := 0
      paused := decide (cfg.contentionDwellTicks ≤ j.watch.contentionTicks + 1) ||
        j.watch.paused } := by
  unfold contend
  dsimp only
  split
  · rename_i hc
    have hd : cfg.contentionDwellTicks ≤ j.pacing.contentionTicks + 1 := hc.1
    simp [Job.watch, Job.withPacing, hd]
  · rename_i hc
    have hp : (decide (cfg.contentionDwellTicks ≤ j.pacing.contentionTicks + 1) ||
        j.pacing.paused) = j.pacing.paused := by
      cases h : j.pacing.paused with
      | true => simp
      | false => simpa [Job.withPacing, h] using hc
    simp only [Job.watch, Job.withPacing, Watch.mk.injEq, true_and]
    exact hp.symm

theorem control_climb (now transitive : Int) (j : Job) :
    (climb cfg now transitive j).control = j.control := by
  unfold climb
  dsimp only
  split
  · exact control_contend _ _
  · exact control_bumpQuiet _

theorem watch_climb (now transitive : Int) (h : j.watch = j'.watch) :
    (climb cfg now transitive j).watch = (climb cfg now transitive j').watch := by
  unfold climb
  dsimp only
  have ht : (j.withPacing fun p =>
      { p with throttled := decide (cfg.throttleWaiters ≤ transitive) }).watch =
      (j'.withPacing fun p =>
        { p with throttled := decide (cfg.throttleWaiters ≤ transitive) }).watch := by
    simp only [Job.watch, Watch.mk.injEq] at h
    simp [Job.withPacing, Job.watch, h]
  split
  · rw [watch_contend, watch_contend, ht]
  · refine watch_bumpQuiet ?_
    simp only [Job.watch, Job.withPacing, Watch.mk.injEq, true_and] at ht ⊢
    simp [ht]

/-- A field is read without looking at the job. -/
theorem relates_value {σ : Type} {R : σ → σ → Prop} (f : Field) (default : Int) :
    Prog.Relates R (f.value default) := by
  cases f with
  | absent => exact Prog.relates_pure
  | null => exact Prog.relates_throw
  | number n => exact Prog.relates_pure

theorem relates_set {f : Job → Job} (hc : ∀ j, (f j).control = j.control)
    (hw : ∀ j j', j.watch = j'.watch → (f j).watch = (f j').watch) :
    Prog.Relates (Alike jobId) (Prog.modify f : Prog Job TypeError Unit) :=
  Prog.relates_modify fun _ _ h => h.of_watch hc hw

theorem relates_assign (f : Field) {set : Int → PacingState → PacingState}
    (hc : ∀ n (j : Job), (j.withPacing (set n)).control = j.control)
    (hw : ∀ n (j j' : Job), j.watch = j'.watch →
      (j.withPacing (set n)).watch = (j'.withPacing (set n)).watch) :
    Prog.Relates (Alike jobId) (assign f set) :=
  Prog.relates_bind (relates_value _ _) fun n => relates_set (hc n) (hw n)

theorem relates_assignCic (cic : Option Cic) : Prog.Relates (Alike jobId) (assignCic cic) := by
  cases cic with
  | none => exact Prog.relates_pure
  | some cic =>
    refine Prog.relates_bind (relates_assign _ (fun _ _ => rfl) fun _ _ _ h => h) fun _ => ?_
    refine Prog.relates_bind (relates_assign _ (fun _ _ => rfl) fun _ _ _ h => h) fun _ => ?_
    exact relates_assign _ (fun _ _ => rfl) fun _ _ _ h => h

theorem relates_apply (now : Int) (r : Reading) :
    Prog.Relates (Alike jobId) (apply cfg now r) := by
  refine Prog.relates_bind (relates_value _ _) fun direct => ?_
  refine Prog.relates_bind (relates_value _ _) fun transitive => ?_
  refine Prog.relates_bind (relates_set (fun _ => rfl) fun j j' h => ?_) fun _ => ?_
  · simp only [Job.watch, Watch.mk.injEq] at h
    simp [Job.withPacing, Job.watch, h]
  refine Prog.relates_bind (relates_assign _ (fun _ _ => rfl) fun _ _ _ h => h) fun _ => ?_
  refine Prog.relates_bind (relates_assign _ (fun _ _ => rfl) fun n j j' h => ?_) fun _ => ?_
  · simp only [Job.watch, Watch.mk.injEq] at h
    simp [Job.withPacing, Job.watch, h]
  refine Prog.relates_bind (relates_assign _ (fun _ _ => rfl) fun _ _ _ h => h) fun _ => ?_
  refine Prog.relates_bind (relates_assignCic _) fun _ => ?_
  refine Prog.relates_bind (relates_set (control_climb _ _) fun _ _ h => watch_climb _ _ h)
    fun _ => ?_
  refine Prog.relates_modify fun j j' h => ?_
  have hsame : ∀ k : Job, Alike jobId
      (if cfg.maxWaiterWaitMs < k.pacing.oldestWaitMs then requestCancel k else k) k := by
    intro k
    split
    · exact ⟨control_requestCancel k, fun _ => watch_requestCancel k⟩
    · exact Alike.refl k
  exact (hsame j).trans (h.trans (hsame j').symm)

theorem relates_merge (r : Reading) (c : ClusterReading) :
    Prog.Relates (Alike jobId) (merge r c) := by
  refine Prog.relates_bind (relates_value _ _) fun direct => ?_
  refine Prog.relates_bind (relates_value _ _) fun far => ?_
  refine Prog.relates_bind (relates_value _ _) fun transitive => ?_
  refine Prog.relates_bind (relates_value _ _) fun farther => ?_
  cases c.oldestWaitUpperBoundMs with
  | none => exact Prog.relates_pure
  | some bound =>
    exact Prog.relates_bind (relates_value _ _) fun oldest => Prog.relates_pure

theorem relates_quiet (r : Reading) : Prog.Relates (Alike jobId) r.quiet := by
  refine Prog.relates_ite Prog.relates_pure ?_
  refine Prog.relates_bind (relates_value _ _) fun direct => ?_
  exact Prog.relates_ite
    (Prog.relates_bind (relates_value _ _) fun transitive => Prog.relates_pure)
    Prog.relates_pure

/-- Two runs of the loop's body on jobs that are alike end alike: the answer that is read is the
one for the worker pid, which is the same. -/
theorem relates_observe (now : Int) (byPid : Int → Option Reading)
    (cluster : Int → Option ClusterReading) :
    Prog.Relates (Alike jobId) (observe cfg now byPid cluster) := by
  refine Prog.relates_bind (Prog.relates_gets fun _ _ h => congrArg Control.workerPid h.1)
    fun pid => ?_
  refine Prog.relates_bind ?_ fun reading => ?_
  · unfold readingOf
    split
    · exact Prog.relates_pure
    · exact relates_merge _ _
  refine Prog.relates_bind (relates_quiet _) fun quiet => ?_
  exact Prog.relates_ite
    (relates_set (fun _ => control_clearContention _) fun _ _ h => watch_clearContention h)
    (relates_apply _ _)

end Alike

/-! ## Registries side by side -/

/-- Two registries that hold the same jobs, the job `jobId` with the same pacing. -/
def Agree (jobId : String) : JobRegistry → JobRegistry → Prop := List.Forall₂ (Alike jobId)

section Agree

variable {jobId : String} {jobs jobs' : JobRegistry} {cfg : ExecutorConfig}

theorem Agree.refl (jobs : JobRegistry) : Agree jobId jobs jobs :=
  List.forall₂_same.mpr fun j _ => Alike.refl j

theorem Agree.trans {jobs'' : JobRegistry} (h : Agree jobId jobs jobs')
    (h' : Agree jobId jobs' jobs'') : Agree jobId jobs jobs'' := by
  induction h generalizing jobs'' with
  | nil => exact h'
  | cons hj _ ih =>
    cases h' with
    | cons hk hks => exact List.Forall₂.cons (hj.trans hk) (ih hks)

theorem Agree.dead (h : Agree jobId jobs jobs')
    (hdead : ∀ j ∈ jobs', j.jobId = jobId → j.live = false) :
    ∀ j ∈ jobs, j.jobId = jobId → j.live = false := by
  induction h with
  | nil => simp
  | cons hj _ ih =>
    simp only [List.forall_mem_cons] at hdead ⊢
    refine ⟨fun hid => ?_, ih hdead.2⟩
    rw [hj.live_eq]
    exact hdead.1 (hj.jobId_eq ▸ hid)

theorem Agree.watchOf_eq (h : Agree jobId jobs jobs') :
    watchOf jobId jobs = watchOf jobId jobs' := by
  induction h with
  | nil => rfl
  | @cons j j' js js' hj _ ih =>
    have hid := hj.jobId_eq
    simp only [watchOf, JobRegistry.find, List.find?_cons] at ih ⊢
    by_cases h : j.jobId = jobId
    · simp [h, ← hid, hj.2 h]
    · simpa [h, ← hid] using ih

theorem Agree.map {f g : Job → Job} (h : Agree jobId jobs jobs')
    (hf : ∀ j ∈ jobs, ∀ j', Alike jobId j j' → Alike jobId (f j) (g j')) :
    Agree jobId (jobs.map f) (jobs'.map g) := by
  induction h with
  | nil => exact List.Forall₂.nil
  | @cons j j' js js' hj _ ih =>
    exact List.Forall₂.cons (hf j (by simp) j' hj) (ih fun k hk => hf k (by simp [hk]))

theorem agree_observeAll (now : Int) (byPid : Int → Option Reading)
    (cluster : Int → Option ClusterReading) (h : Agree jobId jobs jobs') :
    Agree jobId (observeAll cfg now byPid cluster jobs)
      (observeAll cfg now byPid cluster jobs') := by
  induction h with
  | nil => exact List.Forall₂.nil
  | @cons j j' js js' hj hjs ih =>
    have hr : Prog.Relates (Alike jobId) (observe cfg now byPid cluster) := relates_observe _ _ _
    obtain ⟨ho, ha⟩ := hr j j' hj
    simp only [observeAll, hj.live_eq]
    split
    · rcases h1 : observe cfg now byPid cluster j with ⟨o, k⟩
      rcases h2 : observe cfg now byPid cluster j' with ⟨o', k'⟩
      rw [h1, h2] at ho ha
      dsimp only at ho ha
      subst ho
      cases o with
      | ok _ => exact List.Forall₂.cons ha ih
      | err _ => exact List.Forall₂.cons ha hjs
      | out => exact List.Forall₂.cons ha hjs
    · exact List.Forall₂.cons hj ih

theorem agree_readSizes (sizes : Option (Nat → Option Int)) (h : Agree jobId jobs jobs') :
    Agree jobId (readSizes sizes jobs) (readSizes sizes jobs') := by
  cases sizes with
  | none => exact h
  | some sizes =>
    exact h.map fun _ _ _ hj => hj.of_same (control_readSize sizes) (watch_readSize sizes)

theorem agree_clearAll (h : Agree jobId jobs jobs') :
    Agree jobId (clearAll cfg jobs) (clearAll cfg jobs') := by
  refine h.map fun j _ j' hj => ?_
  rw [hj.live_eq]
  split
  · exact hj.of_watch (fun _ => control_clearContention _) fun _ _ h => watch_clearContention h
  · exact hj

/-- The same tick on registries that agree. -/
theorem agree_tick (obs : Observation) (h : Agree jobId jobs jobs') :
    Agree jobId (tick cfg obs jobs) (tick cfg obs jobs') := by
  have hs := agree_readSizes obs.sizes
    (h.map fun _ _ _ hj => hj.of_same control_stopLongStatement watch_stopLongStatement)
  unfold tick learn
  cases obs.waits with
  | failed => exact hs
  | nobody => exact agree_clearAll hs
  | readings byPid cluster => exact agree_observeAll _ _ _ hs

theorem Write.control_perform (w : Write) {j j' : Job} (h : j.control = j'.control) :
    (w.perform j).control = (w.perform j').control := by
  simp only [Job.control, Control.mk.injEq] at h
  cases w <;> simp [Write.perform, Job.withPacing, Job.control, h]

theorem Write.watch_perform (w : Write) (j : Job) : (w.perform j).watch = j.watch := by
  cases w <;> rfl

theorem Write.jobId_perform (w : Write) (j : Job) : (w.perform j).jobId = j.jobId := by
  cases w <;> rfl

theorem agree_write (id : String) (w : Write) (h : Agree jobId jobs jobs') :
    Agree jobId (jobs.map fun j => if j.jobId = id then w.perform j else j)
      (jobs'.map fun j => if j.jobId = id then w.perform j else j) := by
  refine h.map fun j _ j' hj => ?_
  rw [hj.jobId_eq]
  split
  · refine ⟨w.control_perform hj.1, fun hid => ?_⟩
    rw [w.watch_perform, w.watch_perform]
    exact hj.2 (w.jobId_perform j ▸ hid)
  · exact hj

theorem agree_create (job : Job) (h : Agree jobId jobs jobs') :
    Agree jobId (JobRegistry.create job jobs) (JobRegistry.create job jobs') := by
  induction h with
  | nil => exact Agree.refl [job]
  | @cons j j' js js' hj hjs ih =>
    simp only [JobRegistry.create, hj.jobId_eq]
    split
    · exact List.Forall₂.cons (Alike.refl job) hjs
    · split
      · exact List.Forall₂.cons (Alike.refl job) (List.Forall₂.cons hj hjs)
      · exact List.Forall₂.cons hj ih

theorem agree_perform (configs : String → ExecutorConfig) (step : Step)
    (h : Agree jobId jobs jobs') :
    Agree jobId (step.perform configs jobs) (step.perform configs jobs') := by
  cases step with
  | tick connection obs => exact agree_tick obs h
  | write id w => exact agree_write id w h
  | create id connection => exact agree_create _ h

end Agree

/-! ## A tick that does not find the job alive -/

def Waits.isFailed : Waits → Bool
  | .failed => true
  | _ => false

/-- The tick took no reading, or the job is not one it looks at. -/
def Passes (jobId : String) (jobs : JobRegistry) (obs : Observation) : Prop :=
  obs.waits.isFailed = true ∨ ∀ j ∈ jobs, j.jobId = jobId → j.live = false

section Passes

variable {jobId : String} {jobs jobs' : JobRegistry} {cfg : ExecutorConfig}

/-- A tick keeps a job's control fields. -/
theorem keeps_control {c : Control} {f : Job → Job} (hf : ∀ j, (f j).control = j.control) :
    Prog.Keeps (fun j => j.control = c) (Prog.modify f : Prog Job TypeError Unit) :=
  Prog.keeps_modify fun j hj => (hf j).trans hj

theorem keeps_value {σ : Type} {I : σ → Prop} (f : Field) (default : Int) :
    Prog.Keeps I (f.value default) := by
  cases f with
  | absent => exact Prog.keeps_pure
  | null => exact Prog.keeps_throw
  | number n => exact Prog.keeps_pure

theorem keeps_assign {c : Control} (f : Field) {set : Int → PacingState → PacingState}
    (hc : ∀ n (j : Job), (j.withPacing (set n)).control = j.control) :
    Prog.Keeps (fun j => j.control = c) (assign f set) :=
  Prog.keeps_bind (keeps_value _ _) fun n => keeps_control (hc n)

theorem keeps_assignCic {c : Control} (cic : Option Cic) :
    Prog.Keeps (fun j => j.control = c) (assignCic cic) := by
  cases cic with
  | none => exact Prog.keeps_pure
  | some cic =>
    refine Prog.keeps_bind (keeps_assign _ fun _ _ => rfl) fun _ => ?_
    refine Prog.keeps_bind (keeps_assign _ fun _ _ => rfl) fun _ => ?_
    exact keeps_assign _ fun _ _ => rfl

theorem keeps_apply {c : Control} (now : Int) (r : Reading) :
    Prog.Keeps (fun j => j.control = c) (apply cfg now r) := by
  refine Prog.keeps_bind (keeps_value _ _) fun direct => ?_
  refine Prog.keeps_bind (keeps_value _ _) fun transitive => ?_
  refine Prog.keeps_bind (keeps_control fun _ => rfl) fun _ => ?_
  refine Prog.keeps_bind (keeps_assign _ fun _ _ => rfl) fun _ => ?_
  refine Prog.keeps_bind (keeps_assign _ fun _ _ => rfl) fun _ => ?_
  refine Prog.keeps_bind (keeps_assign _ fun _ _ => rfl) fun _ => ?_
  refine Prog.keeps_bind (keeps_assignCic _) fun _ => ?_
  refine Prog.keeps_bind (keeps_control (control_climb _ _)) fun _ => keeps_control fun j => ?_
  split
  · exact control_requestCancel j
  · rfl

theorem keeps_merge {σ : Type} {I : σ → Prop} (r : Reading) (c : ClusterReading) :
    Prog.Keeps I (merge r c) := by
  refine Prog.keeps_bind (keeps_value _ _) fun _ => ?_
  refine Prog.keeps_bind (keeps_value _ _) fun _ => ?_
  refine Prog.keeps_bind (keeps_value _ _) fun _ => ?_
  refine Prog.keeps_bind (keeps_value _ _) fun _ => ?_
  cases c.oldestWaitUpperBoundMs with
  | none => exact Prog.keeps_pure
  | some bound => exact Prog.keeps_bind (keeps_value _ _) fun _ => Prog.keeps_pure

theorem keeps_quiet {σ : Type} {I : σ → Prop} (r : Reading) : Prog.Keeps I r.quiet := by
  refine Prog.keeps_ite (fun _ => Prog.keeps_pure) fun _ => ?_
  refine Prog.keeps_bind (keeps_value _ _) fun _ => ?_
  exact Prog.keeps_ite
    (fun _ => Prog.keeps_bind (keeps_value _ _) fun _ => Prog.keeps_pure) fun _ => Prog.keeps_pure

theorem control_observe (now : Int) (byPid : Int → Option Reading)
    (cluster : Int → Option ClusterReading) (j : Job) :
    (observe cfg now byPid cluster j).2.control = j.control := by
  have keeps : Prog.Keeps (fun k => k.control = j.control) (observe cfg now byPid cluster) := by
    refine Prog.keeps_bind Prog.keeps_gets fun pid => ?_
    refine Prog.keeps_bind ?_ fun reading => ?_
    · unfold readingOf
      split
      · exact Prog.keeps_pure
      · exact keeps_merge _ _
    refine Prog.keeps_bind (keeps_quiet _) fun quiet => ?_
    exact Prog.keeps_ite (fun _ => keeps_control fun _ => control_clearContention _)
      fun _ => keeps_apply _ _
  exact keeps j rfl

theorem observeAll_passes (now : Int) (byPid : Int → Option Reading)
    (cluster : Int → Option ClusterReading) (h : Agree jobId jobs jobs')
    (hdead : ∀ j ∈ jobs, j.jobId = jobId → j.live = false) :
    Agree jobId (observeAll cfg now byPid cluster jobs) jobs' := by
  induction h with
  | nil => exact List.Forall₂.nil
  | @cons j j' js js' hj hjs ih =>
    have ih := ih fun k hk => hdead k (by simp [hk])
    simp only [observeAll]
    split
    · rename_i hlive
      have hc : (observe cfg now byPid cluster j).2.control = j.control := control_observe _ _ _ _
      have hother : ∀ k : Job, k.control = j.control → Alike jobId k j' := fun k hk =>
        ⟨hk.trans hj.1, fun hid => by
          have hkj : k.jobId = j.jobId := congrArg Control.jobId hk
          rw [hdead j (by simp) (hkj ▸ hid)] at hlive
          cases hlive⟩
      split
      · rename_i heq
        rw [heq] at hc
        exact List.Forall₂.cons (hother _ hc) ih
      · rename_i heq
        rw [heq] at hc
        exact List.Forall₂.cons (hother _ hc) hjs
    · exact List.Forall₂.cons hj ih

/-- Changes no pacing field shows, job by job. -/
theorem agree_map_same {f : Job → Job} (hc : ∀ j, (f j).control = j.control)
    (hw : ∀ j, (f j).watch = j.watch) (h : Agree jobId jobs jobs') :
    Agree jobId (jobs.map f) jobs' := by
  have hsame : ∀ j, Alike jobId (f j) j := fun j => ⟨hc j, fun _ => hw j⟩
  have hm := h.map (f := f) (g := id) fun j _ j' hj => (hsame j).trans hj
  rwa [List.map_id] at hm

theorem clearAll_passes (h : Agree jobId jobs jobs')
    (hdead : ∀ j ∈ jobs, j.jobId = jobId → j.live = false) :
    Agree jobId (clearAll cfg jobs) jobs' := by
  have hm := h.map (f := fun j => if j.live then clearContention cfg j else j) (g := id)
    fun j hj j' ha => by
      split
      · rename_i hlive
        have hc : (clearContention cfg j).control = j.control := control_clearContention j
        refine ⟨hc.trans ha.1, fun hid => ?_⟩
        have hjid : (clearContention cfg j).jobId = j.jobId := congrArg Control.jobId hc
        rw [hdead j hj (hjid ▸ hid)] at hlive
        cases hlive
      · exact ha
  rwa [List.map_id] at hm

/-- A tick that passes the job by leaves its pacing as it was. -/
theorem tick_passes {obs : Observation} (hp : Passes jobId jobs obs) :
    Agree jobId (tick cfg obs jobs) jobs := by
  have hread : Agree jobId (readSizes obs.sizes (jobs.map stopLongStatement)) jobs := by
    have hstop : Agree jobId (jobs.map stopLongStatement) jobs :=
      agree_map_same control_stopLongStatement watch_stopLongStatement (Agree.refl jobs)
    cases obs.sizes with
    | none => exact hstop
    | some sizes => exact agree_map_same (control_readSize sizes) (watch_readSize sizes) hstop
  unfold tick learn
  rcases hp with hp | hdead
  · cases hw : obs.waits with
    | failed => exact hread
    | nobody => rw [hw] at hp; cases hp
    | readings byPid cluster => rw [hw] at hp; cases hp
  · have hdead := hread.dead hdead
    cases obs.waits with
    | failed => exact hread
    | nobody => exact clearAll_passes hread hdead
    | readings byPid cluster => exact observeAll_passes _ _ _ hread hdead

end Passes

/-! ## Observers of other connections -/

/-- The steps of a run without the ticks of observers on other connections. -/
def ownSteps (connection : String) (steps : List Step) : List Step :=
  steps.filter fun
    | .tick c _ => decide (c = connection)
    | _ => true

/-- No observer of another connection takes a reading while it finds the job alive. -/
def Unobserved (configs : String → ExecutorConfig) (jobId connection : String) :
    JobRegistry → List Step → Prop
  | _, [] => True
  | jobs, step :: steps =>
    (match step with
      | .tick c obs => c = connection ∨ Passes jobId jobs obs
      | _ => True) ∧
    Unobserved configs jobId connection (step.perform configs jobs) steps

theorem run_agree (configs : String → ExecutorConfig) {jobId connection : String} :
    ∀ (steps : List Step) (jobs jobs' : JobRegistry), Agree jobId jobs jobs' →
      Unobserved configs jobId connection jobs steps →
      Agree jobId (run configs jobs steps) (run configs jobs' (ownSteps connection steps)) := by
  intro steps
  induction steps with
  | nil =>
    intro jobs jobs' h _
    exact h
  | cons step steps ih =>
    intro jobs jobs' h hu
    obtain ⟨hstep, hrest⟩ := hu
    have keep := ih (step.perform configs jobs) (step.perform configs jobs')
      (agree_perform configs step h) hrest
    cases step with
    | write id w => exact keep
    | create id c => exact keep
    | tick c obs =>
      by_cases hc : c = connection
      · simpa [ownSteps, hc, run] using keep
      · have hp := hstep.resolve_left hc
        have skip := ih (Step.perform configs jobs (.tick c obs)) jobs'
          ((tick_passes hp).trans h) hrest
        simpa [ownSteps, hc, run] using skip

/-- Through any interleaving of ticks and writes in which no observer of another connection takes
a reading while it finds the job alive, the job's pacing fields are those the observers of
`connection` alone would have made of it. -/
theorem run_foreign_unobserved (configs : String → ExecutorConfig) (jobId connection : String)
    (jobs : JobRegistry) (steps : List Step)
    (h : Unobserved configs jobId connection jobs steps) :
    watchOf jobId (run configs jobs steps) =
      watchOf jobId (run configs jobs (ownSteps connection steps)) :=
  (run_agree configs steps jobs jobs (Agree.refl jobs) h).watchOf_eq

/-- A job paused on one connection, and a quiet observer on another. -/
def pausedJob : Job :=
  { jobId := "job", connection := "pub", state := .pausedContention,
    pacing := { workerPid := 41, transitiveWaiters := 9, contentionTicks := 3, throttled := true,
                paused := true } }

def quiet : Observation := { waits := .nobody, now := 0 }

theorem run_foreign_unobserved_finished :
    watchOf "job" (run (fun _ => {}) [pausedJob]
        [.tick "pub" quiet, .write "job" (.state .cancelled), .tick "sub" quiet]) =
      watchOf "job" (run (fun _ => {}) [pausedJob]
        [.tick "pub" quiet, .write "job" (.state .cancelled)]) :=
  run_foreign_unobserved (fun _ => {}) "job" "pub" [pausedJob]
    [.tick "pub" quiet, .write "job" (.state .cancelled), .tick "sub" quiet]
    ⟨.inl rfl, trivial, .inr (.inr (by decide)), trivial⟩

/-- Three quiet ticks of the observer of `sub` release the job on `pub` from its pause. -/
theorem tick_foreign_unpauses :
    (watchOf "job" [pausedJob]).map Watch.paused = some true ∧
    (watchOf "job" (run (fun _ => {}) [pausedJob]
      [.tick "sub" quiet, .tick "sub" quiet, .tick "sub" quiet])).map Watch.paused =
        some false := by
  decide

end Jobs
end Laswell
