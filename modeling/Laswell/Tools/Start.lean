import Laswell.Jobs.Job
import Laswell.Repository.Gate

/-!
# Laswell.Tools.Start

`startMigration`, the call that starts a job. It checks the target's name, environment and release
itself, so that a call which never consulted the listing cannot apply what the listing holds.

`startMigration_gated_iff`: for which specifications and databases it starts a job only where the
listing's gate leaves the specification runnable.
-/

namespace Laswell
namespace Tools

open Jobs Repository

/-- What the gates and the start of a job read of a specification. -/
structure Spec where
  id : String
  digest : String
  targetDatabase : String := ""
  targetEnvironment : String := ""
  targetEpoch : String := ""
  release : String := ""

/-- What a database says of itself. -/
structure LedgerStatus where
  database : String := ""
  databaseIdentity : String := ""
  environment : String := ""
  releasesReady : List String := []
  epochsLive : List String := []
  epochsRetired : List String := []

/-- What `plan_migration_tool` answers, once the specification parses: an error, a plan that was
refused, or a plan, which is a draft when its signatures were not checked. -/
inductive Planned where
  | error (error hint : String)
  | refused
  | plan (planDigest : String) (draft : Bool)

structure Signer where
  verified : Bool
  keyId : String
  reason : String

/-- Everything a call meets outside of itself. An `Except` is a call that may throw; `ledger` is what
the database holds, whether it can be asked or not; `inserted` is what comes of the row of the
migration but for its epoch, and `epochMissing` the error for one that is not there; `openJob`
answers with the reason of a conflict. -/
structure Surroundings where
  hasRegistry : Bool := true
  parsed : Except String Spec
  ledger : LedgerStatus
  status : Except String LedgerStatus
  status_ledger : ∀ st, status = .ok st → st = ledger
  planned : Except String Planned
  connection : String
  maxConcurrentJobs : Int
  signer : Except String Signer
  jobId : String
  inserted : Except String Int
  epochMissing : String := "ERROR: violates foreign key constraint \"migration_epoch_fkey\""
  openJob : Except String (Option String)

inductive Reply where
  | refused (error hint : String)
  | threw (what : String)
  | started (jobId specId specDigest planDigest signerKeyId : String)
  deriving DecidableEq

def Reply.accepted : Reply → Bool
  | .started .. => true
  | _ => false

/-- The gates enforced at the start: a reason to refuse, or none. -/
def startGates (spec : Spec) (st : LedgerStatus) : Option (String × String) :=
  if spec.targetDatabase ≠ "" ∧ st.database ≠ "" ∧ spec.targetDatabase ≠ st.database then
    some ("this database is \"" ++ st.database ++ "\" and the spec targets \"" ++
        spec.targetDatabase ++ "\"",
      "current_database() is what this compares against. A name proves less than " ++
        "target.environment, which is read from a table only the owner of the laswell schema " ++
        "can write.")
  else if spec.targetEnvironment ≠ "" ∧ spec.targetEnvironment ≠ st.environment then
    some ("this database is \"" ++
        (if st.environment = "" then "not labelled" else st.environment) ++
        "\" and the spec targets \"" ++ spec.targetEnvironment ++ "\"",
      "laswell.environment says which database this is, and only the owner of that schema can " ++
        "change it.")
  else if spec.release ≠ "" ∧ spec.release ∉ st.releasesReady then
    some ("release \"" ++ spec.release ++ "\" is not marked ready in this database",
      "Approve it in laswell.release, as the owner of the laswell schema. Until then every " ++
        "spec carrying this tag is held.")
  else none

/-- The gates as the call makes them: the ledger is asked only by a specification that declares
one of the three, and one that does not parse is left to the planner to report. -/
def probe (s : Surroundings) : Option Reply :=
  match s.parsed with
  | .error _ => none
  | .ok spec =>
    if spec.targetDatabase ≠ "" ∨ spec.targetEnvironment ≠ "" ∨ spec.release ≠ "" then
      match s.status with
      | .error what => some (.threw what)
      | .ok st => (startGates spec st).map fun r => .refused r.1 r.2
    else none

/-- `plan_migration_tool`, which reports a specification that does not parse. -/
def planMigrationTool (s : Surroundings) : Except String Planned :=
  match s.parsed with
  | .error e => .ok (.error e "")
  | .ok _ => s.planned

/-- The lineage a specification belongs to. -/
def Spec.epoch (spec : Spec) : String :=
  if spec.targetEpoch = "" then "default" else spec.targetEpoch

/-- A row of `laswell.migration` references its epoch's row, which a retired epoch keeps. -/
def recordMigration (s : Surroundings) (spec : Spec) : Except String Int :=
  if spec.epoch ∈ s.ledger.epochsLive ∨ spec.epoch ∈ s.ledger.epochsRetired then s.inserted
  else .error s.epochMissing

/-- From the registration of the job on: its migration is recorded and its row and locks are
taken, or it ends failed. -/
def openStarted (s : Surroundings) (spec : Spec) (keyId planDigest : String)
    (jobs : JobRegistry) : Reply × JobRegistry :=
  let job : Job := { jobId := s.jobId, connection := s.connection }
  let registered := JobRegistry.create job jobs
  let failed := JobRegistry.create { job with state := .failed } registered
  match recordMigration s spec with
  | .error what =>
    (.refused ("could not record the migration: " ++ what)
      ("laswell.migration.signer_key_id references trusted_key, so an untrusted signer cannot " ++
        "open a job. Call validateSpec."), failed)
  | .ok _ =>
    match s.openJob with
    | .error what => (.threw what, registered)
    | .ok (some conflict) =>
      (.refused conflict "Call jobStatus to see the job that holds it.", failed)
    | .ok none => (.started s.jobId spec.id spec.digest planDigest keyId, registered)

/-- From a plan that may run on: the ceiling on jobs, then the signer the database trusts. -/
def startPlanned (s : Surroundings) (planDigest : String) (jobs : JobRegistry) :
    Reply × JobRegistry :=
  if s.maxConcurrentJobs ≤ jobs.runningCount then
    (.refused "the concurrency limit is reached"
      ("max_concurrent_jobs is " ++ toString s.maxConcurrentJobs ++
        "; wait for a job to finish or raise it in [executor]."), jobs)
  else
    match s.parsed with
    | .error what => (.threw what, jobs)
    | .ok spec =>
      match s.signer with
      | .error what => (.threw what, jobs)
      | .ok signer =>
        if signer.verified then openStarted s spec signer.keyId planDigest jobs
        else (.refused signer.reason "Call validateSpec.", jobs)

def startMigration (s : Surroundings) (jobs : JobRegistry) : Reply × JobRegistry :=
  if s.hasRegistry then
    match probe s with
    | some reply => (reply, jobs)
    | none =>
      match planMigrationTool s with
      | .error what => (.threw what, jobs)
      | .ok (.error error hint) => (.refused error hint, jobs)
      | .ok .refused => (.refused "" "The plan was refused; nothing was started.", jobs)
      | .ok (.plan planDigest draft) =>
        if draft then
          (.refused "a draft plan cannot be executed"
            ("This plan was produced with skipTrustChecks, so its signatures were never " ++
              "verified. Sign the spec and plan again."), jobs)
        else startPlanned s planDigest jobs
  else
    (.refused "this server has no job registry" "startMigration is unavailable in this build.",
      jobs)

/-! ## The listing's view of the same call -/

/-- The entry a listing makes of the specification, before its ledger and its gate are asked. -/
def entryOf (spec : Spec) (connection : String) : RepoEntry where
  specId := spec.id
  digest := spec.digest
  connection := connection
  database := spec.targetDatabase
  environment := spec.targetEnvironment
  release := spec.release
  epoch := spec.epoch

/-- What `view_for` keeps of a status that could be read. -/
def viewOf (st : LedgerStatus) (applied : AppliedIndex) : View where
  reachable := true
  database := st.database
  databaseIdentity := st.databaseIdentity
  environment := st.environment
  releasesReady := st.releasesReady
  epochsLive := st.epochsLive
  epochsRetired := st.epochsRetired
  applied := applied

/-- The epoch check the listing makes and the start does not. -/
def EpochOpen (spec : Spec) (st : LedgerStatus) : Prop :=
  spec.epoch ∉ st.epochsRetired ∧ (spec.epoch ∈ st.epochsLive ∨ st.epochsLive = [])

theorem startGates_none_iff (spec : Spec) (st : LedgerStatus) :
    startGates spec st = none ↔
      ¬ (spec.targetDatabase ≠ "" ∧ st.database ≠ "" ∧ spec.targetDatabase ≠ st.database) ∧
      ¬ (spec.targetEnvironment ≠ "" ∧ spec.targetEnvironment ≠ st.environment) ∧
      ¬ (spec.release ≠ "" ∧ spec.release ∉ st.releasesReady) := by
  unfold startGates
  split
  · rename_i hd
    exact ⟨fun h => (by cases h), fun h => absurd hd h.1⟩
  · rename_i hd
    split
    · rename_i he
      exact ⟨fun h => (by cases h), fun h => absurd he h.2.1⟩
    · rename_i he
      split
      · rename_i hr
        exact ⟨fun h => (by cases h), fun h => absurd hr h.2.2⟩
      · rename_i hr
        exact ⟨fun _ => ⟨hd, he, hr⟩, fun _ => rfl⟩

theorem Spec.epoch_ne (spec : Spec) : spec.epoch ≠ "" := by
  unfold Spec.epoch
  split
  · decide
  · assumption

/-- The listing refutes what the start's gates refuse, and an epoch that is not open. -/
theorem refuted_iff (spec : Spec) (st : LedgerStatus) (connection : String)
    (applied : AppliedIndex) :
    ¬ Refuted (entryOf spec connection) (viewOf st applied) ↔
      startGates spec st = none ∧ EpochOpen spec st := by
  have he := spec.epoch_ne
  rw [startGates_none_iff, Refuted, EpochOpen]
  simp only [entryOf, viewOf] at *
  by_cases hl : st.epochsLive = []
  · simp only [hl] at *
    tauto
  · tauto

/-- A call gets past the probe exactly when the gates let it. -/
theorem probe_none_iff {s : Surroundings} {spec : Spec} {st : LedgerStatus}
    (hp : s.parsed = .ok spec) (hs : s.status = .ok st) :
    probe s = none ↔ startGates spec st = none := by
  simp only [probe, hp, hs]
  split
  · simp
  · rename_i h
    rw [startGates_none_iff]
    simp_all

/-- Where the migration cannot be recorded, the call ends there at the latest. -/
theorem startPlanned_unrecorded {s : Surroundings} {spec : Spec} {what planDigest : String}
    {jobs : JobRegistry} (hp : s.parsed = .ok spec) (hr : recordMigration s spec = .error what) :
    (startPlanned s planDigest jobs).1.accepted = false := by
  unfold startPlanned
  split
  · rfl
  · rw [hp]
    cases s.signer with
    | error _ => rfl
    | ok signer =>
      dsimp only
      split
      · unfold openStarted
        rw [hr]
        rfl
      · rfl

/-- What a call that starts a job got past: the gates of its own, and the reference to the epoch. -/
theorem startMigration_accepted {s : Surroundings} {spec : Spec} {st : LedgerStatus}
    {jobs : JobRegistry} (hp : s.parsed = .ok spec) (hs : s.status = .ok st)
    (h : (startMigration s jobs).1.accepted = true) :
    startGates spec st = none ∧ (spec.epoch ∈ st.epochsLive ∨ spec.epoch ∈ st.epochsRetired) := by
  unfold startMigration at h
  split at h
  · cases hpr : probe s with
    | some reply =>
      rw [hpr] at h
      simp only [probe, hp, hs] at hpr
      split at hpr
      · cases hg : startGates spec st with
        | none => rw [hg] at hpr; cases hpr
        | some r =>
          rw [hg] at hpr
          cases hpr
          cases h
      · cases hpr
    | none =>
      refine ⟨(probe_none_iff hp hs).mp hpr, ?_⟩
      by_contra hno
      have hrecord : recordMigration s spec = .error s.epochMissing := by
        rw [recordMigration, ← s.status_ledger st hs, if_neg hno]
      rw [hpr] at h
      cases hplanned : planMigrationTool s with
      | error what => rw [hplanned] at h; cases h
      | ok planned =>
        rw [hplanned] at h
        cases planned with
        | error error hint => cases h
        | refused => cases h
        | plan planDigest draft =>
          cases draft with
          | true => cases h
          | false =>
            have hnot : (startPlanned s planDigest jobs).1.accepted = false :=
              startPlanned_unrecorded hp hrecord
            exact absurd h (by simpa using hnot)
  · cases h

/-- Surroundings in which nothing but the gates stands in the way. -/
def clear (spec : Spec) (st : LedgerStatus) : Surroundings where
  parsed := .ok spec
  ledger := st
  status := .ok st
  status_ledger _ h := by cases h; rfl
  planned := .ok (.plan "digest" false)
  connection := "default"
  maxConcurrentJobs := 2
  signer := .ok { verified := true, keyId := "ed25519:1", reason := "" }
  jobId := "job"
  inserted := .ok 1
  openJob := .ok none

theorem startMigration_clear {spec : Spec} {st : LedgerStatus} (h : startGates spec st = none)
    (he : spec.epoch ∈ st.epochsLive ∨ spec.epoch ∈ st.epochsRetired) :
    (startMigration (clear spec st) []).1.accepted = true := by
  have hp : probe (clear spec st) = none := (probe_none_iff rfl rfl).mpr h
  have hr : recordMigration (clear spec st) spec = .ok 1 := if_pos he
  have ho : (openStarted (clear spec st) spec "ed25519:1" "digest" []).1.accepted = true := by
    simp only [openStarted, hr]
    rfl
  simp only [startMigration, hp]
  exact ho

/-- A job is started only where the listing's gate leaves the specification runnable, exactly for
the specifications the start refuses anyway and those whose epoch the database has not retired. -/
theorem startMigration_gated_iff (spec : Spec) (st : LedgerStatus) (applied : AppliedIndex)
    (connection : String) :
    (∀ (s : Surroundings) (jobs : JobRegistry), s.parsed = .ok spec → s.status = .ok st →
      (startMigration s jobs).1.accepted = true →
      (gate (entryOf spec connection) (viewOf st applied)).status.runnable = true) ↔
    ((startGates spec st).isSome = true ∨ spec.epoch ∉ st.epochsRetired) := by
  have hgate : (gate (entryOf spec connection) (viewOf st applied)).status.runnable = true ↔
      startGates spec st = none ∧ EpochOpen spec st := by
    rw [gate_runnable_iff, refuted_iff]
    exact and_iff_right rfl
  simp only [hgate]
  constructor
  · intro h
    cases hg : startGates spec st with
    | some r => exact .inl rfl
    | none =>
      refine .inr fun hretired => ?_
      have hopen := (h (clear spec st) [] rfl rfl (startMigration_clear hg (.inr hretired))).2
      exact hopen.1 hretired
  · rintro h s jobs hp hs ha
    obtain ⟨hg, hrow⟩ := startMigration_accepted hp hs ha
    rw [hg] at h
    have hretired : spec.epoch ∉ st.epochsRetired := h.resolve_left (by simp)
    exact ⟨hg, hretired, .inl (hrow.resolve_right hretired)⟩

/-- A specification of a lineage this database has retired: the listing says so, and a direct call
starts it. -/
theorem startMigration_retired_epoch :
    (startMigration (clear { id := "0001", digest := "d", targetEpoch := "v1" }
      { database := "app", epochsLive := ["default"], epochsRetired := ["v1"] })
      []).1.accepted = true ∧
    (gate (entryOf { id := "0001", digest := "d", targetEpoch := "v1" } "default")
      (viewOf { database := "app", epochsLive := ["default"], epochsRetired := ["v1"] }
        [])).status.runnable = false := by
  decide

end Tools
end Laswell
