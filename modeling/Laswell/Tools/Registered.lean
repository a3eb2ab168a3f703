import Laswell.Tools.Start

/-!
# Laswell.Tools.Registered

What a start that fails leaves in the registry. A job is registered before its migration is
recorded and its row and locks are taken, and it counts against `max_concurrent_jobs` until it is
over.

* `Opening`: how the database answers `open_job`, each question by a value or by throwing.
* `startJob`: the whole call, with the start of the observer and of the worker.
* `startJob_count_iff`: a call that starts no worker leaves the count as it was, exactly where
  nothing throws once the migration is recorded.
-/

namespace Laswell
namespace Tools

open Jobs

/-- What `open_job` meets. `tryLock` is asked for the locks in order, by position and key. -/
structure Opening where
  session : Except String Unit
  tryLock : Nat → Int → Except String Bool
  begin' : Except String Unit
  insert : Except String Unit
  commit : Except String Unit

def Opening.takeLocks (o : Opening) : Nat → List Int → Except String Bool
  | _, [] => .ok true
  | i, key :: keys =>
    match o.tryLock i key with
    | .error what => .error what
    | .ok false => .ok false
    | .ok true => o.takeLocks (i + 1) keys

def Opening.openJob (o : Opening) (lockKeys : List Int) : Except String (Option String) := do
  o.session
  if ← o.takeLocks 0 lockKeys then
    o.begin'
    o.insert
    o.commit
    return none
  return some ("another job already holds the advisory lock for one of this spec's targets; " ++
    "call jobStatus to see it")

/-- The surroundings in which `open_job` is answered so. -/
def Surroundings.opening (s : Surroundings) (o : Opening) (lockKeys : List Int) : Surroundings :=
  { s with openJob := o.openJob lockKeys }

/-- The call. `worker` is what follows an opened job: its observer and its thread are started. -/
def startJob (s : Surroundings) (o : Opening) (lockKeys : List Int) (worker : Except String Unit)
    (jobs : JobRegistry) : Reply × JobRegistry :=
  let (reply, registered) := startMigration (s.opening o lockKeys) jobs
  if reply.accepted then
    match worker with
    | .error what => (.threw what, registered)
    | .ok () => (reply, registered)
  else (reply, registered)

/-! ## When `open_job` throws -/

/-- Every lock is granted. -/
def Opening.Granted (o : Opening) (lockKeys : List Int) : Prop :=
  ∀ i key, lockKeys[i]? = some key → o.tryLock i key = .ok true

/-- A lock is asked for, after others that were granted, and the question throws. -/
def Opening.LockThrows (o : Opening) (lockKeys : List Int) : Prop :=
  ∃ n key what, lockKeys[n]? = some key ∧ o.tryLock n key = .error what ∧
    ∀ i < n, ∀ key, lockKeys[i]? = some key → o.tryLock i key = .ok true

def Throws (answer : Except String Unit) : Prop := ∃ what, answer = .error what

/-- Something throws between the record of the migration and the worker. -/
def OpeningThrows (o : Opening) (lockKeys : List Int) (worker : Except String Unit) : Prop :=
  Throws o.session ∨ o.LockThrows lockKeys ∨
    (o.Granted lockKeys ∧
      (Throws o.begin' ∨ Throws o.insert ∨ Throws o.commit ∨ Throws worker))

/-- The call gets as far as `open_job`: the gates let it pass, it has a plan that may run, a job
more is allowed, its signer is trusted and its migration is recorded. -/
structure Recorded (s : Surroundings) (jobs : JobRegistry) : Prop where
  hregistry : s.hasRegistry = true
  hprobe : probe s = none
  hplanned : ∃ planDigest, planMigrationTool s = .ok (.plan planDigest false)
  hallowed : (jobs.runningCount : Int) < s.maxConcurrentJobs
  hsigner : ∃ signer, s.signer = .ok signer ∧ signer.verified = true
  hrecord : ∃ spec id, s.parsed = .ok spec ∧ recordMigration s spec = .ok id

section Locks

variable {o : Opening}

theorem takeLocks_true_iff (i : Nat) (keys : List Int) :
    o.takeLocks i keys = .ok true ↔
      ∀ n key, keys[n]? = some key → o.tryLock (i + n) key = .ok true := by
  induction keys generalizing i with
  | nil => simp [Opening.takeLocks]
  | cons key keys ih =>
    have hstep : (∀ n k, (key :: keys)[n]? = some k → o.tryLock (i + n) k = .ok true) ↔
        o.tryLock i key = .ok true ∧
          ∀ n k, keys[n]? = some k → o.tryLock (i + 1 + n) k = .ok true := by
      constructor
      · intro h
        refine ⟨h 0 key rfl, fun n k hn => ?_⟩
        have := h (n + 1) k (by simpa using hn)
        rwa [show i + (n + 1) = i + 1 + n from by omega] at this
      · rintro ⟨h0, h⟩ n k hn
        cases n with
        | zero =>
          cases hn
          exact h0
        | succ n =>
          rw [show i + (n + 1) = i + 1 + n from by omega]
          exact h n k (by simpa using hn)
    rw [hstep, ← ih, Opening.takeLocks]
    cases o.tryLock i key with
    | error what => simp
    | ok granted => cases granted <;> simp

theorem takeLocks_error_iff (i : Nat) (keys : List Int) :
    (∃ what, o.takeLocks i keys = .error what) ↔
      ∃ n key what, keys[n]? = some key ∧ o.tryLock (i + n) key = .error what ∧
        ∀ m < n, ∀ key, keys[m]? = some key → o.tryLock (i + m) key = .ok true := by
  induction keys generalizing i with
  | nil => simp [Opening.takeLocks]
  | cons key keys ih =>
    rw [Opening.takeLocks]
    constructor
    · rintro ⟨what, h⟩
      cases ha : o.tryLock i key with
      | error w => exact ⟨0, key, w, rfl, ha, fun m hm => absurd hm (Nat.not_lt_zero m)⟩
      | ok granted =>
        rw [ha] at h
        cases granted with
        | false => cases h
        | true =>
          obtain ⟨n, k, w, hk, hw, hbefore⟩ := (ih (i + 1)).mp ⟨what, h⟩
          refine ⟨n + 1, k, w, by simpa using hk, by rwa [← Nat.add_assoc, Nat.add_right_comm],
            fun m hm k' hk' => ?_⟩
          cases m with
          | zero =>
            cases hk'
            exact ha
          | succ m =>
            have := hbefore m (by omega) k' (by simpa using hk')
            rwa [show i + (m + 1) = i + 1 + m from by omega]
    · rintro ⟨n, k, w, hk, hw, hbefore⟩
      cases n with
      | zero =>
        cases hk
        exact ⟨w, by rw [Nat.add_zero] at hw; rw [hw]⟩
      | succ n =>
        have h0 : o.tryLock i key = .ok true := hbefore 0 (by omega) key rfl
        rw [h0]
        refine (ih (i + 1)).mpr ⟨n, k, w, by simpa using hk, ?_, fun m hm k' hk' => ?_⟩
        · rwa [show i + 1 + n = i + (n + 1) from by omega]
        · rw [show i + 1 + m = i + (m + 1) from by omega]
          exact hbefore (m + 1) (by omega) k' (by simpa using hk')

end Locks

/-- What `open_job` answers, by what it meets. -/
theorem openJob_cases (o : Opening) (keys : List Int) :
    (∃ what, o.openJob keys = .error what) ∧
        (Throws o.session ∨ o.LockThrows keys ∨
          (o.Granted keys ∧ (Throws o.begin' ∨ Throws o.insert ∨ Throws o.commit))) ∨
      (∃ conflict, o.openJob keys = .ok (some conflict)) ∧ ¬ Throws o.session ∧
        ¬ o.LockThrows keys ∧ ¬ o.Granted keys ∨
      o.openJob keys = .ok none ∧ ¬ Throws o.session ∧ ¬ o.LockThrows keys ∧ o.Granted keys ∧
        ¬ Throws o.begin' ∧ ¬ Throws o.insert ∧ ¬ Throws o.commit := by
  have htrue := takeLocks_true_iff (o := o) 0 keys
  have herror := takeLocks_error_iff (o := o) 0 keys
  simp only [Nat.zero_add] at htrue herror
  rw [← Opening.Granted] at htrue
  rw [← Opening.LockThrows] at herror
  unfold Opening.openJob
  cases hs : o.session with
  | error what => exact .inl ⟨⟨what, rfl⟩, .inl ⟨what, rfl⟩⟩
  | ok u =>
    have hns : ¬ Throws (Except.ok u) := fun ⟨_, h⟩ => nomatch h
    cases hl : o.takeLocks 0 keys with
    | error what => exact .inl ⟨⟨what, rfl⟩, .inr (.inl (herror.mp ⟨what, hl⟩))⟩
    | ok granted =>
      have hnl : ¬ o.LockThrows keys := fun h => by
        obtain ⟨what, h⟩ := herror.mpr h
        rw [hl] at h
        cases h
      cases granted with
      | false =>
        refine .inr (.inl ⟨⟨_, rfl⟩, hns, hnl, fun h => ?_⟩)
        rw [htrue.mpr h] at hl
        cases hl
      | true =>
        have hg := htrue.mp hl
        cases hb : o.begin' with
        | error what => exact .inl ⟨⟨what, rfl⟩, .inr (.inr ⟨hg, .inl ⟨what, rfl⟩⟩)⟩
        | ok u =>
          cases hi : o.insert with
          | error what => exact .inl ⟨⟨what, rfl⟩, .inr (.inr ⟨hg, .inr (.inl ⟨what, rfl⟩)⟩)⟩
          | ok u =>
            cases hc : o.commit with
            | error what =>
              exact .inl ⟨⟨what, rfl⟩, .inr (.inr ⟨hg, .inr (.inr ⟨what, rfl⟩)⟩)⟩
            | ok u =>
              exact .inr (.inr ⟨rfl, hns, hnl, hg, hns, hns, hns⟩)

/-! ## The registry after the call -/

section Count

variable {s : Surroundings} {o : Opening} {keys : List Int} {worker : Except String Unit}
  {jobs : JobRegistry}

/-- A job that is registered and then ends failed leaves the count as it was. -/
theorem runningCount_failed {job : Job} (hnew : ∀ j ∈ jobs, j.jobId ≠ job.jobId) :
    (JobRegistry.create { job with state := .failed }
      (JobRegistry.create job jobs)).runningCount = jobs.runningCount := by
  have hcreate : JobRegistry.create { job with state := .failed } (JobRegistry.create job jobs) =
      JobRegistry.create { job with state := .failed } jobs := create_create rfl
  have hcount := @runningCount_create { job with state := .failed } jobs hnew
  rw [hcreate, hcount]
  rfl

/-- A call that does not get to `open_job` is refused and leaves the count as it was. -/
theorem startMigration_unrecorded (hnew : ∀ j ∈ jobs, j.jobId ≠ s.jobId)
    (h : ¬ Recorded s jobs) :
    (startMigration s jobs).1.accepted = false ∧
      (startMigration s jobs).2.runningCount = jobs.runningCount := by
  unfold startMigration
  split
  · rename_i hregistry
    split
    · rename_i reply hprobe
      refine ⟨?_, rfl⟩
      unfold probe at hprobe
      repeat' split at hprobe
      · cases hprobe
      · cases hprobe
        rfl
      · cases hg : startGates _ _ with
        | none => rw [hg] at hprobe; cases hprobe
        | some r =>
          rw [hg] at hprobe
          cases hprobe
          rfl
      · cases hprobe
    · rename_i hprobe
      split
      · exact ⟨rfl, rfl⟩
      · exact ⟨rfl, rfl⟩
      · exact ⟨rfl, rfl⟩
      · rename_i planDigest draft hplanned
        split
        · exact ⟨rfl, rfl⟩
        · rename_i hdraft
          rw [Bool.not_eq_true] at hdraft
          subst hdraft
          unfold startPlanned
          split
          · exact ⟨rfl, rfl⟩
          · rename_i hallowed
            split
            · exact ⟨rfl, rfl⟩
            · rename_i spec hparsed
              split
              · exact ⟨rfl, rfl⟩
              · rename_i signer hsigner
                split
                · rename_i hverified
                  unfold openStarted
                  cases hrecord : recordMigration s spec with
                  | error what => exact ⟨rfl, runningCount_failed hnew⟩
                  | ok id =>
                    exact absurd
                      { hregistry, hprobe, hplanned := ⟨planDigest, hplanned⟩
                        hallowed := by omega
                        hsigner := ⟨signer, hsigner, hverified⟩
                        hrecord := ⟨spec, id, hparsed, hrecord⟩ } h
                · exact ⟨rfl, rfl⟩
  · exact ⟨rfl, rfl⟩

/-- A call that gets there leaves what `open_job` makes of it. -/
theorem startMigration_recorded (hnew : ∀ j ∈ jobs, j.jobId ≠ s.jobId) (h : Recorded s jobs) :
    let r := startMigration s jobs
    match s.openJob with
    | .error _ => r.1.accepted = false ∧ r.2.runningCount = jobs.runningCount + 1
    | .ok (some _) => r.1.accepted = false ∧ r.2.runningCount = jobs.runningCount
    | .ok none => r.1.accepted = true ∧ r.2.runningCount = jobs.runningCount + 1 := by
  obtain ⟨hregistry, hprobe, ⟨planDigest, hplanned⟩, hallowed, ⟨signer, hsigner, hverified⟩,
    ⟨spec, id, hparsed, hrecord⟩⟩ := h
  have hroom : ¬ s.maxConcurrentJobs ≤ jobs.runningCount := by omega
  have hcount := @runningCount_create { jobId := s.jobId, connection := s.connection } jobs hnew
  have hcall : startMigration s jobs = openStarted s spec signer.keyId planDigest jobs := by
    simp [startMigration, hregistry, hprobe, hplanned, startPlanned, hroom, hparsed, hsigner,
      hverified]
  simp only [hcall, openStarted, hrecord]
  cases s.openJob with
  | error what => exact ⟨rfl, hcount⟩
  | ok conflict =>
    cases conflict with
    | some conflict =>
      have hfailed :=
        @runningCount_failed jobs { jobId := s.jobId, connection := s.connection } hnew
      exact ⟨rfl, hfailed⟩
    | none => exact ⟨rfl, hcount⟩

/-- A call that starts no worker leaves the count of jobs that are not over as it was, unless it
recorded its migration and something throws after that. -/
theorem startJob_count_iff (hnew : ∀ j ∈ jobs, j.jobId ≠ s.jobId) :
    ((startJob s o keys worker jobs).1.accepted = false →
      (startJob s o keys worker jobs).2.runningCount = jobs.runningCount) ↔
    ¬ (Recorded s jobs ∧ OpeningThrows o keys worker) := by
  have hasked : (s.opening o keys).openJob = o.openJob keys := rfl
  have hsame : Recorded (s.opening o keys) jobs ↔ Recorded s jobs :=
    ⟨fun ⟨h1, h2, h3, h4, h5, h6⟩ => ⟨h1, h2, h3, h4, h5, h6⟩,
      fun ⟨h1, h2, h3, h4, h5, h6⟩ => ⟨h1, h2, h3, h4, h5, h6⟩⟩
  by_cases hr : Recorded s jobs
  · have hgo := @startMigration_recorded (s.opening o keys) jobs hnew (hsame.mpr hr)
    rcases openJob_cases o keys with ⟨⟨what, ho⟩, hthrows⟩ | ⟨⟨conflict, ho⟩, hs, hl, hg⟩ |
      ⟨ho, hs, hl, hg, hb, hi, hc⟩
    · -- the job stays as it was registered
      have hopening : OpeningThrows o keys worker := by
        unfold OpeningThrows
        tauto
      simp only [hasked, ho] at hgo
      simp [startJob, hgo, hr, hopening]
    · have hopening : ¬ OpeningThrows o keys worker := by
        unfold OpeningThrows
        tauto
      simp only [hasked, ho] at hgo
      simp [startJob, hgo, hopening]
    · simp only [hasked, ho] at hgo
      have hopening : OpeningThrows o keys worker ↔ Throws worker := by
        unfold OpeningThrows
        tauto
      rw [hopening]
      cases worker with
      | error what =>
        have hw : Throws (Except.error what) := ⟨what, rfl⟩
        have hthrew : (Reply.threw what).accepted = false := rfl
        simp [startJob, hgo, hr, hw, hthrew]
      | ok u =>
        have hw : ¬ Throws (Except.ok u) := fun ⟨_, h⟩ => nomatch h
        simp [startJob, hgo, hw]
  · have hgo := @startMigration_unrecorded (s.opening o keys) jobs hnew (mt hsame.mp hr)
    simp [startJob, hgo, hr]

end Count

/-- A database that grants every lock and then fails the row of the job. -/
def insertFails : Opening where
  session := .ok ()
  tryLock _ _ := .ok true
  begin' := .ok ()
  insert := .error "ERROR: canceling statement due to lock timeout"
  commit := .ok ()

theorem startJob_count_lockTaken :
    (startJob (clear { id := "0001", digest := "d" } { epochsLive := ["default"] })
      { insertFails with tryLock := fun i _ => .ok (i == 0) } [1, 2] (.ok ()) []).2.runningCount =
        JobRegistry.runningCount [] := by
  refine (startJob_count_iff (fun j hj => absurd hj List.not_mem_nil)).mpr (fun ⟨_, h⟩ => ?_)
    (by decide)
  rcases h with ⟨what, h⟩ | ⟨n, key, what, _, h, _⟩ | ⟨hg, _⟩
  · cases h
  · cases h
  · exact absurd (hg 1 2 rfl) (by decide)

/-- The insert of the row fails: no worker is started, and the job counts as running for good. -/
theorem startJob_insert_fails :
    (startJob (clear { id := "0001", digest := "d" } { epochsLive := ["default"] }) insertFails [1, 2] (.ok ())
      []).1.accepted = false ∧
    (startJob (clear { id := "0001", digest := "d" } { epochsLive := ["default"] }) insertFails [1, 2] (.ok ())
      []).2.runningCount = 1 := by
  decide

end Tools
end Laswell
