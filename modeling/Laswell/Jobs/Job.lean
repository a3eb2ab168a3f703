import Mathlib.Data.List.Basic

/-!
# Laswell.Jobs.Job

Jobs as the process keeps them: the state machine of a job, what the observer and the worker tell
each other (`PacingState`), and the registry. The registry is a `std::map` by job id, so a list of
jobs in the order of their ids.
-/

namespace Laswell
namespace Jobs

inductive JobState where
  | planned
  | running
  | throttled
  | pausedContention
  | succeeded
  | failed
  | cancelled
  | abortedContention
  deriving DecidableEq, Repr

def isTerminal (s : JobState) : Bool :=
  s == .succeeded || s == .failed || s == .cancelled || s == .abortedContention

/-- The pacing and breaker settings of a connection, with their defaults. -/
structure ExecutorConfig where
  batchRows : Int := 1000
  commitIntervalMs : Int := 1000
  batchCapRows : Int := 10000
  progressIntervalMs : Int := 10000
  batchBytes : Int := 1048576
  lockTimeoutMs : Int := 3000
  throttleWaiters : Int := 4
  pauseWaiters : Int := 8
  resumeWaiters : Int := 1
  contentionDwellTicks : Int := 3
  maxWaiterWaitMs : Int := 5000
  maxPauseS : Int := 300

structure PacingState where
  workerPid : Int := 0
  directWaiters : Int := 0
  transitiveWaiters : Int := 0
  blockingWaiterPid : Int := 0
  oldestWaitMs : Int := 0
  inflictedBlockedMs : Int := 0
  contentionTicks : Int := 0
  quietTicks : Int := 0
  cancelRequested : Bool := false
  cancelStop : Bool := false
  longStatement : Bool := false
  longStatementRelation : Nat := 0
  longStatementBytesNow : Int := -1
  stopNow : Bool := false
  inWalk : Bool := false
  throttled : Bool := false
  paused : Bool := false
  pausedSinceMs : Int := 0
  cicLockersTotal : Int := 0
  cicLockersDone : Int := 0
  cicCurrentLockerPid : Int := 0
  deriving DecidableEq

/-- `workerConn`: the observer can reach the worker's connection. `cancels` counts the
`cancel_query` calls made on it. -/
structure Job where
  jobId : String
  connection : String
  state : JobState := .planned
  pacing : PacingState := {}
  workerConn : Bool := false
  cancels : Nat := 0
  deriving DecidableEq

abbrev JobRegistry := List Job

/-- `jobs_[job_id] = j` -/
def JobRegistry.create (job : Job) : JobRegistry → JobRegistry
  | [] => [job]
  | j :: js =>
    if job.jobId = j.jobId then job :: js
    else if job.jobId < j.jobId then job :: j :: js
    else j :: JobRegistry.create job js

def JobRegistry.find (jobId : String) (jobs : JobRegistry) : Option Job :=
  List.find? (fun j => decide (j.jobId = jobId)) jobs

def JobRegistry.runningCount (jobs : JobRegistry) : Nat :=
  List.countP (fun j => !isTerminal j.state) jobs

/-- The jobs an observer's tick looks at: not over, and with a worker session. -/
def Job.live (j : Job) : Bool := !isTerminal j.state && decide (0 < j.pacing.workerPid)

/-! ## What a registration does to the count -/

theorem runningCount_cons (j : Job) (jobs : JobRegistry) :
    JobRegistry.runningCount (j :: jobs) =
      jobs.runningCount + if isTerminal j.state then 0 else 1 := by
  unfold JobRegistry.runningCount
  cases h : isTerminal j.state <;> simp [h]

/-- A job of a new id is one more, unless it is over already. -/
theorem runningCount_create {job : Job} {jobs : JobRegistry}
    (h : ∀ j ∈ jobs, j.jobId ≠ job.jobId) :
    (JobRegistry.create job jobs).runningCount =
      jobs.runningCount + if isTerminal job.state then 0 else 1 := by
  induction jobs with
  | nil => exact runningCount_cons job []
  | cons j jobs ih =>
    have hj : job.jobId ≠ j.jobId := (h j List.mem_cons_self).symm
    have ih := ih fun k hk => h k (List.mem_cons_of_mem j hk)
    rw [JobRegistry.create, if_neg hj]
    split
    · exact runningCount_cons job (j :: jobs)
    · rw [runningCount_cons, ih, runningCount_cons]
      omega

/-- The same job in another state takes the place of the one that was registered. -/
theorem create_create {job job' : Job} {jobs : JobRegistry} (hid : job'.jobId = job.jobId) :
    JobRegistry.create job' (JobRegistry.create job jobs) = JobRegistry.create job' jobs := by
  induction jobs with
  | nil => simp [JobRegistry.create, hid]
  | cons j jobs ih =>
    by_cases hj : job.jobId = j.jobId
    · simp [JobRegistry.create, hid, hj]
    · by_cases hlt : job.jobId < j.jobId
      · simp [JobRegistry.create, hid, hj, hlt]
      · simp [JobRegistry.create, hid, hj, hlt, ih]

end Jobs
end Laswell
