import Mathlib
import Laswell.Ledger.Calls
import Laswell.Repository.Entry

/-!
# Laswell.History.Rows

The ledger of one database as a listing reads it: the rows of `laswell.migration`, each with the
rows of `laswell.job` that refer to it.

* `recordMigration`, `reconcile`: what a start writes.
* `appliedIndex`: what `applied_index` reads, and `appliedIndex_find`, one record of it.
* `successes`: how many jobs of an id in an epoch have succeeded. `successes_recordMigration`.
* `classify_runnable`: nothing that is runnable has succeeded.
-/

namespace Laswell
namespace History

open Repository
open Ledger (Lifecycle)

/-! ## Rows -/

/-- `finished` is `finished_at IS NOT NULL`. `alive`: the job's own backend holds its lock. -/
structure JobRow where
  state : Lifecycle
  finished : Bool
  alive : Bool
  deriving DecidableEq

structure MigrationRow where
  epoch : String
  specId : String
  digest : String
  jobs : List JobRow := []
  deriving DecidableEq

abbrev Rows := List MigrationRow

namespace JobRow

def succeeded (j : JobRow) : Bool := j.state == .of .succeeded

def failed (j : JobRow) : Bool := j.state == .of .failed

/-- `job_is_dead_sql` -/
def dead (j : JobRow) : Bool := !j.finished && !j.alive

def running (j : JobRow) : Bool := !j.finished && !j.dead

/-- A job that died, as `reconcile_dead_jobs` leaves it. -/
def reconciled (j : JobRow) : JobRow :=
  if j.dead then { j with state := .interrupted, finished := true } else j

end JobRow

def MigrationRow.reconciled (m : MigrationRow) : MigrationRow :=
  { m with jobs := m.jobs.map JobRow.reconciled }

def reconcile (rows : Rows) : Rows := rows.map MigrationRow.reconciled

/-- `record_migration`, and the job that `open_job` has refer to the row, where one was opened. The
rows are unique by epoch and digest. -/
def recordMigration (epoch digest specId : String) (job : Option JobRow) : Rows → Rows
  | [] => [{ epoch := epoch, specId := specId, digest := digest, jobs := job.toList }]
  | m :: ms =>
    if m.epoch = epoch ∧ m.digest = digest then
      { m with specId := specId, jobs := m.jobs ++ job.toList } :: ms
    else m :: recordMigration epoch digest specId job ms

/-! ## The index -/

/-- `JSONB_AGG(DISTINCT spec_digest)` -/
def digestsOf (rows : Rows) : List String :=
  (rows.map MigrationRow.digest).dedup.insertionSort (· ≤ ·)

/-- The digests of the rows that have such a job. -/
def digestsWith (p : JobRow → Bool) (rows : Rows) : List String :=
  digestsOf (rows.filter fun m => m.jobs.any p)

def appliedEntry (rows : Rows) : AppliedEntry where
  digests := digestsOf rows
  succeeded := digestsWith JobRow.succeeded rows
  running := digestsWith JobRow.running rows
  failed := digestsWith JobRow.failed rows

/-- `GROUP BY`, in the order of the groups' keys. -/
def grouped {α : Type} (key : MigrationRow → String) (f : Rows → α) (rows : Rows) :
    List (String × α) :=
  ((rows.map key).dedup.insertionSort (· ≤ ·)).map fun k =>
    (k, f (rows.filter fun m => key m = k))

/-- `applied_index` -/
def appliedIndex (rows : Rows) : AppliedIndex :=
  grouped MigrationRow.epoch (grouped MigrationRow.specId appliedEntry) rows

/-- The rows of an id in an epoch. -/
def rowsOf (epoch id : String) (rows : Rows) : Rows :=
  rows.filter fun m => m.epoch = epoch ∧ m.specId = id

def successes (epoch id : String) (rows : Rows) : Nat :=
  ((rowsOf epoch id rows).flatMap MigrationRow.jobs).countP JobRow.succeeded

/-! ## Reading the index -/

section

variable {rows : Rows} {epoch id digest : String}

theorem mem_digestsOf : digest ∈ digestsOf rows ↔ ∃ m ∈ rows, m.digest = digest := by
  rw [digestsOf, List.mem_insertionSort, List.mem_dedup, List.mem_map]

theorem mem_digestsWith {p : JobRow → Bool} :
    digest ∈ digestsWith p rows ↔ ∃ m ∈ rows, m.digest = digest ∧ ∃ j ∈ m.jobs, p j = true := by
  simp only [digestsWith, mem_digestsOf, List.mem_filter, List.any_eq_true]
  constructor
  · rintro ⟨m, ⟨hm, hj⟩, hd⟩
    exact ⟨m, hm, hd, hj⟩
  · rintro ⟨m, hm, hd, hj⟩
    exact ⟨m, ⟨hm, hj⟩, hd⟩

theorem lookup_grouped {α : Type} {key : MigrationRow → String} {f : Rows → α} {k : String} :
    (grouped key f rows).lookup k =
      if (rows.filter fun m => key m = k) = [] then none
      else some (f (rows.filter fun m => key m = k)) := by
  have hmem : k ∈ (rows.map key).dedup.insertionSort (· ≤ ·) ↔
      (rows.filter fun m => key m = k) ≠ [] := by
    rw [List.mem_insertionSort, List.mem_dedup, List.mem_map, Ne, List.filter_eq_nil_iff]
    simp
  unfold grouped
  by_cases hk : (rows.filter fun m => key m = k) = []
  · rw [if_pos hk, List.lookup_eq_none_iff]
    intro p hp
    obtain ⟨k', hk', rfl⟩ := List.mem_map.mp hp
    rw [bne_iff_ne]
    rintro rfl
    exact hmem.mp hk' hk
  · rw [if_neg hk]
    exact List.lookup_graph (fun k => f (rows.filter fun m => key m = k)) (hmem.mpr hk)

theorem filter_epoch_id : (rows.filter fun m => m.epoch = epoch).filter (fun m => m.specId = id) =
    rowsOf epoch id rows := by
  rw [List.filter_filter, rowsOf]
  refine List.filter_congr fun m _ => ?_
  simp [Bool.and_comm]

/-- The record of an id in an epoch is made of its rows. -/
theorem appliedIndex_find : (appliedIndex rows).find epoch id =
    if rowsOf epoch id rows = [] then none else some (appliedEntry (rowsOf epoch id rows)) := by
  rw [AppliedIndex.find, appliedIndex, lookup_grouped, ← filter_epoch_id]
  split
  next h => rw [h]; rfl
  next h => exact lookup_grouped

theorem successes_eq_zero : successes epoch id rows = 0 ↔
    digestsWith JobRow.succeeded (rowsOf epoch id rows) = [] := by
  rw [successes, List.countP_eq_zero, List.eq_nil_iff_forall_not_mem]
  simp only [List.mem_flatMap, mem_digestsWith]
  constructor
  · rintro h digest ⟨m, hm, -, j, hj, hs⟩
    exact h j ⟨m, hm, hj⟩ hs
  · rintro h j ⟨m, hm, hj⟩ hs
    exact h m.digest ⟨m, hm, rfl, j, hj, hs⟩

/-- What the index leaves runnable has no job that succeeded, under this digest or another. -/
theorem classify_runnable {e : RepoEntry}
    (h : (classify e (appliedIndex rows)).status.runnable = true) :
    successes e.epoch e.specId rows = 0 := by
  rw [successes_eq_zero]
  by_cases hnone : rowsOf e.epoch e.specId rows = []
  · rw [hnone]
    rfl
  · have hfind := @appliedIndex_find rows e.epoch e.specId
    rw [if_neg hnone] at hfind
    by_contra hs
    have hd : e.digest ∈ (appliedEntry (rowsOf e.epoch e.specId rows)).succeeded := by
      by_contra hd
      rw [classify_modified hfind hs hd] at h
      cases h
    unfold classify at h
    rw [hfind] at h
    dsimp only at h
    split at h
    · cases h
    · rw [if_pos (by simpa using hd)] at h
      cases h

end

/-! ## Writing the rows -/

section

variable {rows : Rows} {epoch id digest specId : String} {job : Option JobRow}

/-- The digest says which id it is of, and a job that has not finished has not ended. -/
structure Sound (idOf : String → String) (rows : Rows) : Prop where
  named : ∀ m ∈ rows, m.specId = idOf m.digest
  unfinished : ∀ m ∈ rows, ∀ j ∈ m.jobs, j.finished = false → j.state = .of .running

variable {idOf : String → String}

theorem sound_nil : Sound idOf [] := ⟨by simp, by simp⟩

theorem Sound.of_cons {m : MigrationRow} (h : Sound idOf (m :: rows)) : Sound idOf rows :=
  ⟨fun x hx => h.named x (List.mem_cons_of_mem _ hx),
    fun x hx => h.unfinished x (List.mem_cons_of_mem _ hx)⟩

/-- A row that is written is one there was, or one for the specification at hand. -/
theorem mem_recordMigration {x : MigrationRow} : x ∈ recordMigration epoch digest specId job rows →
    x ∈ rows ∨ x.digest = digest ∧ x.specId = specId ∧
      ∀ j ∈ x.jobs, j ∈ job ∨ ∃ m ∈ rows, j ∈ m.jobs := by
  induction rows with
  | nil =>
    intro hx
    rw [recordMigration, List.mem_singleton] at hx
    subst hx
    exact .inr ⟨rfl, rfl, fun j hj => .inl (by simpa using hj)⟩
  | cons m rows ih =>
    intro hx
    rw [recordMigration] at hx
    split at hx
    next hkey =>
      rcases List.mem_cons.mp hx with rfl | hx
      · refine .inr ⟨hkey.2, rfl, fun j hj => ?_⟩
        rcases List.mem_append.mp hj with hj | hj
        · exact .inr ⟨m, List.mem_cons_self, hj⟩
        · exact .inl (by simpa using hj)
      · exact .inl (List.mem_cons_of_mem _ hx)
    next =>
      rcases List.mem_cons.mp hx with rfl | hx
      · exact .inl List.mem_cons_self
      · rcases ih hx with hx | ⟨hd, hid, hjobs⟩
        · exact .inl (List.mem_cons_of_mem _ hx)
        · refine .inr ⟨hd, hid, fun j hj => (hjobs j hj).imp_right ?_⟩
          rintro ⟨m', hm', hj'⟩
          exact ⟨m', List.mem_cons_of_mem _ hm', hj'⟩

theorem Sound.recordMigration (h : Sound idOf rows) (hid : idOf digest = specId)
    (hjob : ∀ j ∈ job, j.finished = false → j.state = .of .running) :
    Sound idOf (recordMigration epoch digest specId job rows) := by
  refine ⟨fun x hx => ?_, fun x hx j hj => ?_⟩
  · rcases mem_recordMigration hx with hx | ⟨hd, hs, -⟩
    · exact h.named x hx
    · rw [hs, hd, hid]
  · rcases mem_recordMigration hx with hx | ⟨-, -, hjobs⟩
    · exact h.unfinished x hx j hj
    · rcases hjobs j hj with hj | ⟨m, hm, hj⟩
      · exact hjob j hj
      · exact h.unfinished m hm j hj

theorem successes_cons {m : MigrationRow} : successes epoch id (m :: rows) =
    (if m.epoch = epoch ∧ m.specId = id then m.jobs.countP JobRow.succeeded else 0) +
      successes epoch id rows := by
  unfold successes rowsOf
  by_cases h : m.epoch = epoch ∧ m.specId = id <;> simp [h, List.countP_append]

/-- A job adds to the successes of its own specification only. -/
theorem successes_recordMigration (h : Sound idOf rows) (hid : idOf digest = specId)
    (epoch' id : String) :
    successes epoch' id (recordMigration epoch digest specId job rows) =
      successes epoch' id rows +
        if epoch = epoch' ∧ specId = id then job.toList.countP JobRow.succeeded else 0 := by
  induction rows with
  | nil => rw [recordMigration, successes_cons, Nat.add_comm]
  | cons m rows ih =>
    rw [recordMigration]
    split
    next hkey =>
      obtain ⟨rfl, rfl⟩ := hkey
      have hname : m.specId = specId := (h.named m List.mem_cons_self).trans hid
      rw [successes_cons, successes_cons, hname, List.countP_append]
      split <;> omega
    next =>
      rw [successes_cons, successes_cons, ih h.of_cons]
      omega

/-! ## Reconciling -/

/-- What is read of a job is the same once it is reconciled. -/
theorem reconciled_reads {j : JobRow} (h : j.finished = false → j.state = .of .running) :
    j.reconciled.succeeded = j.succeeded ∧ j.reconciled.failed = j.failed ∧
      j.reconciled.running = j.running := by
  unfold JobRow.reconciled
  split
  next hdead =>
    have hfin : j.finished = false := by
      simp only [JobRow.dead, Bool.and_eq_true, Bool.not_eq_true'] at hdead
      exact hdead.1
    have hstate := h hfin
    simp [JobRow.succeeded, JobRow.failed, JobRow.running, hstate, hdead]
  next => exact ⟨rfl, rfl, rfl⟩

theorem Sound.reconcile (h : Sound idOf rows) : Sound idOf (reconcile rows) := by
  refine ⟨fun x hx => ?_, fun x hx j hj hfin => ?_⟩
  · obtain ⟨m, hm, rfl⟩ := List.mem_map.mp hx
    exact h.named m hm
  · obtain ⟨m, hm, rfl⟩ := List.mem_map.mp hx
    obtain ⟨j', hj', rfl⟩ := List.mem_map.mp hj
    unfold JobRow.reconciled at hfin ⊢
    split at hfin
    · cases hfin
    next hdead =>
      rw [if_neg hdead]
      exact h.unfinished m hm j' hj' hfin

theorem successes_reconcile (h : Sound idOf rows) :
    successes epoch id (reconcile rows) = successes epoch id rows := by
  induction rows with
  | nil => rfl
  | cons m rows ih =>
    have hcount : m.reconciled.jobs.countP JobRow.succeeded =
        m.jobs.countP JobRow.succeeded := by
      rw [MigrationRow.reconciled, List.countP_map]
      refine List.countP_congr fun j hj => ?_
      rw [Function.comp, (reconciled_reads (h.unfinished m List.mem_cons_self j hj)).1]
    rw [History.reconcile, List.map_cons, successes_cons, successes_cons, hcount]
    exact congrArg _ (ih h.of_cons)

end

end History
end Laswell
