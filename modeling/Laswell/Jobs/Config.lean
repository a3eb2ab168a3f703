import Laswell.Jobs.Job

/-!
# Laswell.Jobs.Config

The executor's settings as the configuration file gives them: each key parsed on its own, and the
settings of a section checked together.

* `applyExecutorKey`: one `key = value` pair.
* `validateExecutor`: the checks on the settings together.
* `Accepted`: settings a connection may have.
-/

namespace Laswell
namespace Jobs

/-- The settings, with those that are not pacing. -/
structure ExecutorSettings extends ExecutorConfig where
  dmlSingleTxnRows : Int := 1000
  dryRunStatementTimeoutMs : Int := 10000
  observerTickMs : Int := 250
  maxConcurrentJobs : Int := 2
  maxConcurrentOperations : Int := 0
  hostVcpus : Int := 0
  maintenanceWorkMemMb : Int := 0
  appPoolSize : Int := 0
  appStatementTimeoutMs : Int := 0
  safetyPercent : Int := 25

/-! ## Numbers -/

def isSpace (c : Char) : Bool := [9, 10, 11, 12, 13, 32].contains c.toNat

/-- The number of a run of digits. -/
def decimal (digits : List Char) : Nat :=
  digits.foldl (fun n d => 10 * n + (d.toNat - 48)) 0

/-- `std::stol`: the number, and how many characters were read for it. A number that no `long`
holds throws, and so does every caller here of one that no `int` holds. -/
def stol (value : List Char) : Option (Int × Nat) :=
  let blanks := value.takeWhile isSpace
  let signed := value.dropWhile isSpace
  let negative := signed.head? == some '-'
  let sign := if negative || signed.head? == some '+' then 1 else 0
  let digits := (signed.drop sign).takeWhile Char.isDigit
  if digits.isEmpty then none
  else
    let n : Int := decimal digits
    some (if negative then -n else n, blanks.length + sign + digits.length)

/-- A number from `least` to the largest `int`, and nothing after it. -/
def boundedInt (least : Int) (kind value key w : String) : Except String Int :=
  match stol value.toList with
  | some (v, used) =>
    if used ≠ value.length ∨ v < least ∨ 2147483647 < v then
      .error s!"{w}: {key} must be a {kind} integer, got \"{value}\""
    else .ok v
  | none => .error s!"{w}: {key} must be a {kind} integer, got \"{value}\""

def positiveInt (value key w : String) : Except String Int := boundedInt 1 "positive" value key w

def nonNegativeInt (value key w : String) : Except String Int :=
  boundedInt 0 "non-negative" value key w

/-- The setting is the number that stands there, to the last character, and an `int` in range. -/
theorem boundedInt_spec {least n : Int} {kind value key w : String}
    (h : boundedInt least kind value key w = .ok n) :
    stol value.toList = some (n, value.length) ∧ least ≤ n ∧ n ≤ 2147483647 := by
  unfold boundedInt at h
  split at h
  · split at h
    · cases h
    next v used hread hrange =>
      obtain rfl : v = n := by simpa using h
      obtain rfl : used = value.length := by omega
      exact ⟨hread, by omega, by omega⟩
  · cases h

theorem boundedInt_ge {least n : Int} {kind value key w : String}
    (h : boundedInt least kind value key w = .ok n) : least ≤ n := (boundedInt_spec h).2.1

/-! ## Keys -/

/-- The key that is set, and to what; none where it is no executor key. -/
def applyExecutorKey (e : ExecutorSettings) (key value w : String) :
    Except String (Option ExecutorSettings) :=
  let positive (set : Int → ExecutorSettings) := (positiveInt value key w).map (some ∘ set)
  let nonNegative (set : Int → ExecutorSettings) := (nonNegativeInt value key w).map (some ∘ set)
  match key with
  | "batch_rows" => positive fun n => { e with batchRows := n }
  | "batch_bytes" => positive fun n => { e with batchBytes := n }
  | "commit_interval_ms" => positive fun n => { e with commitIntervalMs := n }
  | "progress_interval_ms" => positive fun n => { e with progressIntervalMs := n }
  | "batch_cap_rows" => positive fun n => { e with batchCapRows := n }
  | "max_concurrent_operations" => nonNegative fun n => { e with maxConcurrentOperations := n }
  | "dml_single_txn_rows" => positive fun n => { e with dmlSingleTxnRows := n }
  | "lock_timeout_ms" => positive fun n => { e with lockTimeoutMs := n }
  | "dry_run_statement_timeout_ms" => positive fun n => { e with dryRunStatementTimeoutMs := n }
  | "observer_tick_ms" => positive fun n => { e with observerTickMs := n }
  | "max_concurrent_jobs" => positive fun n => { e with maxConcurrentJobs := n }
  | "host_vcpus" => positive fun n => { e with hostVcpus := n }
  | "maintenance_work_mem_mb" => positive fun n => { e with maintenanceWorkMemMb := n }
  | "throttle_waiters" => positive fun n => { e with throttleWaiters := n }
  | "pause_waiters" => positive fun n => { e with pauseWaiters := n }
  | "resume_waiters" => nonNegative fun n => { e with resumeWaiters := n }
  | "contention_dwell_ticks" => positive fun n => { e with contentionDwellTicks := n }
  | "max_waiter_wait_ms" => positive fun n => { e with maxWaiterWaitMs := n }
  | "max_pause_s" => positive fun n => { e with maxPauseS := n }
  | "app_pool_size" => nonNegative fun n => { e with appPoolSize := n }
  | "app_statement_timeout_ms" => nonNegative fun n => { e with appStatementTimeoutMs := n }
  | "safety_percent" => positive fun n => { e with safetyPercent := n }
  | _ => .ok none

/-- The checks in order; the first that fails is reported. -/
def validateExecutor (e : ExecutorSettings) (w : String) : Except String Unit :=
  if e.batchCapRows < e.batchRows then
    .error (s!"{w}: batch_cap_rows ({e.batchCapRows}) is below batch_rows ({e.batchRows}), " ++
      "so the cap would fire on every batch")
  else if e.pauseWaiters < e.throttleWaiters then
    .error (s!"{w}: pause_waiters ({e.pauseWaiters}) is below throttle_waiters " ++
      s!"({e.throttleWaiters}), so the breaker would pause before throttling")
  else if e.pauseWaiters ≤ e.resumeWaiters then
    .error (s!"{w}: resume_waiters ({e.resumeWaiters}) must be below pause_waiters " ++
      s!"({e.pauseWaiters}) or the breaker will flap")
  else if e.commitIntervalMs < e.observerTickMs then
    .error (s!"{w}: observer_tick_ms ({e.observerTickMs}) exceeds commit_interval_ms " ++
      s!"({e.commitIntervalMs}), so a waiter could not be seen before the " ++
      "interval commit it was meant to trigger")
  else if 100 < e.safetyPercent then
    .error s!"{w}: safety_percent must be 1..100, got {e.safetyPercent}"
  else .ok ()

/-- The defaults, and what keys make of them. -/
inductive Configured : ExecutorSettings → Prop where
  | defaults : Configured {}
  | key {e e' : ExecutorSettings} {key value w : String} (h : Configured e)
      (hset : applyExecutorKey e key value w = .ok (some e')) : Configured e'

structure Accepted (e : ExecutorSettings) : Prop where
  configured : Configured e
  valid : ∃ w, validateExecutor e w = .ok ()

/-! ## The breaker's settings -/

/-- What each key of the breaker is checked for on its own. -/
structure InRange (e : ExecutorSettings) : Prop where
  resume : 0 ≤ e.resumeWaiters
  dwell : 1 ≤ e.contentionDwellTicks

/-- What holds of the settings with any number in range holds of those with the one read. -/
theorem set_keeps {P : ExecutorSettings → Prop} {least : Int} {kind value key w : String}
    {set : Int → ExecutorSettings} {e' : ExecutorSettings}
    (h : (boundedInt least kind value key w).map (some ∘ set) = .ok (some e'))
    (hset : ∀ n, least ≤ n → P (set n)) : P e' := by
  cases hn : boundedInt least kind value key w with
  | error text => simp [hn, Except.map] at h
  | ok n =>
    obtain rfl : set n = e' := by simpa [hn, Except.map] using h
    exact hset n (boundedInt_ge hn)

theorem applyExecutorKey_inRange {e e' : ExecutorSettings} {key value w : String}
    (he : InRange e) (h : applyExecutorKey e key value w = .ok (some e')) : InRange e' := by
  simp only [applyExecutorKey, positiveInt, nonNegativeInt] at h
  split at h
  case h_16 => exact set_keeps h fun n hn => ⟨hn, he.dwell⟩
  case h_17 => exact set_keeps h fun n hn => ⟨he.resume, hn⟩
  case h_23 => cases h
  -- the other keys set neither
  all_goals exact set_keeps h fun _ _ => ⟨he.resume, he.dwell⟩

theorem applyExecutorKey_commitInterval {e e' : ExecutorSettings} {key value w : String}
    (he : 1 ≤ e.commitIntervalMs) (h : applyExecutorKey e key value w = .ok (some e')) :
    1 ≤ e'.commitIntervalMs := by
  have hkeeps : ∀ {least : Int} {kind : String} {set : Int → ExecutorSettings},
      (boundedInt least kind value key w).map (some ∘ set) = .ok (some e') →
      (∀ n, least ≤ n → 1 ≤ (set n).commitIntervalMs) → 1 ≤ e'.commitIntervalMs :=
    fun hset hleast => set_keeps (P := fun e => 1 ≤ e.commitIntervalMs) hset hleast
  simp only [applyExecutorKey, positiveInt, nonNegativeInt] at h
  split at h
  case h_3 => exact hkeeps h fun n hn => hn
  case h_23 => cases h
  all_goals exact hkeeps h fun _ _ => he

theorem Configured.commitInterval_pos {e : ExecutorSettings} (h : Configured e) :
    1 ≤ e.commitIntervalMs := by
  induction h with
  | defaults => decide
  | key _ hset ih => exact applyExecutorKey_commitInterval ih hset

theorem Configured.inRange {e : ExecutorSettings} (h : Configured e) : InRange e := by
  induction h with
  | defaults => exact ⟨by decide, by decide⟩
  | key _ hset ih => exact applyExecutorKey_inRange ih hset

theorem validateExecutor_hysteresis {e : ExecutorSettings} {w : String}
    (h : validateExecutor e w = .ok ()) : e.resumeWaiters < e.pauseWaiters := by
  unfold validateExecutor at h
  by_contra hnot
  have hle : e.pauseWaiters ≤ e.resumeWaiters := by omega
  simp only [hle, if_true] at h
  split at h
  · cases h
  · split at h <;> cases h

theorem Accepted.resume_lt_pause {e : ExecutorSettings} (h : Accepted e) :
    e.resumeWaiters < e.pauseWaiters := by
  obtain ⟨w, hw⟩ := h.valid
  exact validateExecutor_hysteresis hw

theorem accepted_defaults : Accepted {} := ⟨.defaults, "", rfl⟩

end Jobs
end Laswell
