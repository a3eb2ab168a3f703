import Mathlib.Data.Int.Order.Basic
import Laswell.Base.Hysteresis
import Laswell.Jobs.Config
import Laswell.Jobs.Observer

/-!
# Laswell.Jobs.Breaker

The circuit breaker of one job over whole histories of ticks: `paused` is a switch with the dwell
`contention_dwell_ticks` between `resume_waiters` and `pause_waiters`.

* `Event`: what a tick, or anything between two ticks, does to the job.
* `Track`: the job beside the transitive counts that were read of it.
* `Shows`: the job's counters are those of the switch.
* `breaker_hysteresis`: what the breaker does in a history of legible readings.
* `cluster_wait_unread`: a reading that is not legible is no reading at all.
-/

namespace Laswell
namespace Jobs

open Base

/-! ## Readings -/

def Field.toInt : Field → Int
  | .number n => n
  | _ => 0

/-- A field that `value` can be asked for. -/
def Field.Legible (f : Field) : Prop := f ≠ .null

instance (f : Field) : Decidable f.Legible := inferInstanceAs (Decidable (f ≠ .null))

/-- What happens to a job: one of the passes of a tick over it, or something else writes. -/
inductive Event where
  /-- Nobody waits on the server. -/
  | nobody
  | answered (now : Int) (byPid : Int → Option Reading) (cluster : Int → Option ClusterReading)
  | stopLongStatement
  | readSize (sizes : Nat → Option Int)
  | write (w : Write)

def Event.perform (cfg : ExecutorConfig) (j : Job) : Event → Job
  | .nobody => clearContention cfg j
  | .answered now byPid cluster => (observe cfg now byPid cluster j).2
  | .stopLongStatement => Jobs.stopLongStatement j
  | .readSize sizes => Jobs.readSize sizes j
  | .write w => w.perform j

/-- The counts of a reading, the larger of the local one and the cluster's. -/
def counted (count : Reading → Field) (clusterCount : ClusterReading → Field) (pid : Int)
    (byPid : Int → Option Reading) (cluster : Int → Option ClusterReading) : Int :=
  let near := (count ((byPid pid).getD {})).toInt
  match cluster pid with
  | none => near
  | some c => max near (clusterCount c).toInt

def directOf := counted Reading.direct ClusterReading.direct

def transitiveOf := counted Reading.transitive ClusterReading.transitive

/-- The age of the oldest wait in a reading: the local one, or the cluster's bound where that is
larger. -/
def oldestOf (pid : Int) (byPid : Int → Option Reading) (cluster : Int → Option ClusterReading) :
    Int :=
  let near := ((byPid pid).getD {}).oldestWaitMs.toInt
  match (cluster pid).bind ClusterReading.oldestWaitUpperBoundMs with
  | none => near
  | some bound => max near bound

/-- The transitive count that was read of the worker. -/
def Event.reading (pid : Int) : Event → Option Int
  | .nobody => some 0
  | .answered _ byPid cluster => some (transitiveOf pid byPid cluster)
  | _ => none

/-- Every field that is asked for before the ladder is one that `value` can be asked for. -/
def Cic.Legible (cic : Cic) : Prop :=
  cic.lockersTotal.Legible ∧ cic.lockersDone.Legible ∧ cic.currentLockerPid.Legible

structure Reading.Legible (r : Reading) : Prop where
  blockingWaiterPid : r.blockingWaiterPid.Legible
  oldestWaitMs : r.oldestWaitMs.Legible
  inflictedBlockedMs : r.inflictedBlockedMs.Legible
  cic : ∀ cic, r.cic = some cic → cic.Legible

/-- The counts are numbers, and where there are waiters so is the rest. -/
structure LegibleAnswer (pid : Int) (byPid : Int → Option Reading)
    (cluster : Int → Option ClusterReading) : Prop where
  direct : ((byPid pid).getD {}).direct.Legible
  transitive : ((byPid pid).getD {}).transitive.Legible
  far : ∀ c, cluster pid = some c → c.direct.Legible ∧ c.transitive.Legible ∧
    (c.oldestWaitUpperBoundMs.isSome → ((byPid pid).getD {}).oldestWaitMs.Legible)
  rest : ¬(directOf pid byPid cluster = 0 ∧ transitiveOf pid byPid cluster = 0) →
    ((byPid pid).getD {}).Legible

def Event.Legible (pid : Int) : Event → Prop
  | .answered _ byPid cluster => LegibleAnswer pid byPid cluster
  | _ => True

/-! ## Tracks -/

/-- A job, and what was read of it, the newest first. -/
structure Track where
  job : Job
  readings : List Int := []

def Track.next (cfg : ExecutorConfig) (t : Track) (e : Event) : Track where
  job := e.perform cfg t.job
  readings := (e.reading t.job.pacing.workerPid).toList ++ t.readings

def Track.run (cfg : ExecutorConfig) (t : Track) (events : List Event) : Track :=
  events.foldl (Track.next cfg) t

def Track.paused (t : Track) : Bool := t.job.pacing.paused

/-- How many readings in a row were at or above `pause_waiters`. -/
def Track.contended (cfg : ExecutorConfig) (t : Track) : Int :=
  streak (fun n => decide (cfg.pauseWaiters ≤ n)) t.readings

/-- How many were at or below `resume_waiters`. -/
def Track.calm (cfg : ExecutorConfig) (t : Track) : Int :=
  streak (fun n => decide (n ≤ cfg.resumeWaiters)) t.readings

/-- Histories from a job's start in which every reading is legible. -/
inductive Tracked (cfg : ExecutorConfig) : Track → Prop where
  | start {j : Job} (fresh : j.pacing = {}) : Tracked cfg { job := j }
  | next {t : Track} {e : Event} (h : Tracked cfg t) (legible : e.Legible t.job.pacing.workerPid) :
      Tracked cfg (t.next cfg e)

/-! ## The counters -/

/-- The breaker's settings as those of a switch. -/
def Accepted.thresholds {e : ExecutorSettings} (h : Accepted e) : Thresholds Int where
  low := e.resumeWaiters
  high := e.pauseWaiters
  dwell := e.contentionDwellTicks.toNat
  low_lt_high := h.resume_lt_pause
  dwell_pos := by
    have hdwell := h.configured.inRange.dwell
    omega

/-- The job's counters are those of the switch. -/
structure Job.Shows (j : Job) (s : Switch) : Prop where
  above : j.pacing.contentionTicks = s.above
  below : j.pacing.quietTicks = s.below
  on : j.pacing.paused = s.on

section Ladder

variable {e : ExecutorSettings} {j : Job} {s : Switch}

theorem Job.Shows.watch {j' : Job} (h : j.Shows s) (hw : j'.watch = j.watch) : j'.Shows s := by
  simp only [Job.watch, Watch.mk.injEq] at hw
  obtain ⟨-, -, -, habove, hbelow, -, hon⟩ := hw
  exact ⟨habove.trans h.above, hbelow.trans h.below, hon.trans h.on⟩

/-- A reading below `pause_waiters`, once the contention is over. -/
theorem bumpQuiet_shows (he : Accepted e) (habove : j.pacing.contentionTicks = 0)
    (hbelow : j.pacing.quietTicks = s.below) (hon : j.pacing.paused = s.on)
    (hpause : j.pacing.transitiveWaiters < e.pauseWaiters) :
    (bumpQuiet e.toExecutorConfig j).Shows
      (s.next he.thresholds j.pacing.transitiveWaiters) := by
  have hdwell := he.configured.inRange.dwell
  by_cases hlow : j.pacing.transitiveWaiters ≤ e.resumeWaiters
  · rw [Switch.next_low s hlow]
    have hsame : (he.thresholds.dwell ≤ s.below + 1) ↔
        e.contentionDwellTicks ≤ (s.below : Int) + 1 := by
      simp only [Accepted.thresholds]
      omega
    by_cases hquiet : e.contentionDwellTicks ≤ (s.below : Int) + 1
    · refine ⟨?_, ?_, ?_⟩ <;>
        simp [bumpQuiet, Job.withPacing, hlow, hquiet, habove, hbelow, hsame]
    · refine ⟨?_, ?_, ?_⟩ <;>
        simp [bumpQuiet, Job.withPacing, hlow, hquiet, habove, hbelow, hon, hsame]
  · rw [Switch.next_between s (not_le.mp hlow) hpause]
    refine ⟨?_, ?_, ?_⟩ <;> simp [bumpQuiet, Job.withPacing, hlow, habove, hon]

theorem contend_shows (he : Accepted e) {now n : Int} (h : j.Shows s)
    (hpause : e.pauseWaiters ≤ n) :
    (contend e.toExecutorConfig now j).Shows (s.next he.thresholds n) := by
  have hdwell := he.configured.inRange.dwell
  rw [Switch.next_high s hpause]
  have hsame : e.contentionDwellTicks ≤ j.watch.contentionTicks + 1 ↔
      he.thresholds.dwell ≤ s.above + 1 := by
    have habove : j.watch.contentionTicks = s.above := h.above
    simp only [Accepted.thresholds, habove]
    omega
  have hwatch : (contend e.toExecutorConfig now j).watch = _ := watch_contend now j
  simp only [Job.watch, Watch.mk.injEq] at hwatch
  obtain ⟨-, -, -, habove, hbelow, -, hon⟩ := hwatch
  refine ⟨by simp [habove, h.above], by simp [hbelow], ?_⟩
  calc (contend e.toExecutorConfig now j).pacing.paused
      = (decide (e.contentionDwellTicks ≤ j.watch.contentionTicks + 1) || j.pacing.paused) := hon
    _ = (s.on || decide (he.thresholds.dwell ≤ s.above + 1)) := by
        rw [h.on, decide_eq_decide.mpr hsame, Bool.or_comm]

theorem climb_shows (he : Accepted e) {now n : Int} (h : j.Shows s)
    (hn : j.pacing.transitiveWaiters = n) :
    (climb e.toExecutorConfig now n j).Shows (s.next he.thresholds n) := by
  unfold climb
  split
  next hpause => exact contend_shows he ⟨h.above, h.below, h.on⟩ hpause
  next hpause =>
    subst hn
    exact bumpQuiet_shows he rfl h.below h.on (not_le.mp hpause)

theorem clearContention_shows (he : Accepted e) (h : j.Shows s) :
    (clearContention e.toExecutorConfig j).Shows (s.next he.thresholds 0) := by
  have hresume := he.configured.inRange.resume
  have hpause := he.resume_lt_pause
  exact bumpQuiet_shows he rfl h.below h.on (lt_of_le_of_lt hresume hpause)

end Ladder

/-! ## One reading -/

theorem wp_value {σ : Type} {f : Field} {Q : Outcome TypeError Int → σ → Prop} {s : σ}
    (h : f.Legible) : (f.value 0 : Prog σ TypeError Int).Wp Q s ↔ Q (.ok f.toInt) s := by
  cases f with
  | absent => exact Iff.rfl
  | null => exact absurd rfl h
  | number n => exact Iff.rfl

theorem wp_assign {f : Field} {set : Int → PacingState → PacingState}
    {Q : Outcome TypeError Unit → Job → Prop} {j : Job} (h : f.Legible) :
    (assign f set).Wp Q j ↔ Q (.ok ()) (j.withPacing (set f.toInt)) := by
  simp [assign, wp_value h, Prog.andThen]

section Reading

variable {e : ExecutorSettings} {j : Job} {s : Switch}

theorem assignCic_shows {cic : Option Cic} {n : Int} (h : j.Shows s)
    (hn : j.pacing.transitiveWaiters = n) (hcic : ∀ c, cic = some c → c.Legible) :
    (assignCic cic).Wp
      (fun o j' => o = .ok () ∧ j'.Shows s ∧ j'.pacing.transitiveWaiters = n) j := by
  cases cic with
  | none => exact ⟨rfl, h, hn⟩
  | some c =>
    obtain ⟨htotal, hdone, hpid⟩ := hcic c rfl
    simp only [assignCic, Prog.wp_bind, wp_assign htotal, Prog.andThen, wp_assign hdone,
      wp_assign hpid]
    exact ⟨trivial, ⟨h.above, h.below, h.on⟩, hn⟩

theorem apply_shows (he : Accepted e) {now : Int} {r : Reading} (h : j.Shows s)
    (hdirect : r.direct.Legible) (htransitive : r.transitive.Legible) (hr : r.Legible) :
    (apply e.toExecutorConfig now r).Wp
      (fun o j' => o = .ok () ∧ j'.Shows (s.next he.thresholds r.transitive.toInt)) j := by
  simp only [apply, Prog.wp_bind, wp_value hdirect, wp_value htransitive, Prog.andThen,
    Prog.wp_modify, wp_assign hr.blockingWaiterPid, wp_assign hr.oldestWaitMs,
    wp_assign hr.inflictedBlockedMs]
  refine Prog.Wp.mono (Q := fun o j' => o = .ok () ∧ j'.Shows s ∧
    j'.pacing.transitiveWaiters = r.transitive.toInt) ?_ ?_
  · exact assignCic_shows ⟨h.above, h.below, h.on⟩ rfl hr.cic
  rintro o j' ⟨rfl, hshows, hn⟩
  simp only [Prog.andThen, Prog.wp_bind, Prog.wp_modify]
  refine ⟨trivial, ?_⟩
  have hclimb : (climb e.toExecutorConfig now _ j').Shows _ := climb_shows he hshows hn
  split
  · exact hclimb.watch (watch_requestCancel _)
  · exact hclimb

/-- What a legible answer is merged to. -/
structure Merged (pid : Int) (byPid : Int → Option Reading) (cluster : Int → Option ClusterReading)
    (r : Reading) : Prop where
  direct : r.direct.Legible ∧ r.direct.toInt = directOf pid byPid cluster
  transitive : r.transitive.Legible ∧ r.transitive.toInt = transitiveOf pid byPid cluster
  oldest : r.oldestWaitMs.toInt = oldestOf pid byPid cluster
  rest : ((byPid pid).getD {}).Legible → r.Legible

theorem readingOf_merged {σ : Type} {k : σ} {pid : Int} {byPid : Int → Option Reading}
    {cluster : Int → Option ClusterReading} (h : LegibleAnswer pid byPid cluster) :
    (readingOf pid byPid cluster).Wp
      (fun o k' => k' = k ∧ ∃ r, o = .ok r ∧ Merged pid byPid cluster r) k := by
  unfold readingOf
  cases hc : cluster pid with
  | none =>
    refine ⟨rfl, _, rfl, ⟨h.direct, ?_⟩, ⟨h.transitive, ?_⟩, ?_, id⟩
    · simp [directOf, counted, hc]
    · simp [transitiveOf, counted, hc]
    · simp [oldestOf, hc]
  | some c =>
    obtain ⟨hdirect, htransitive, hbound⟩ := h.far c hc
    have hnumber : ∀ n, (Field.number n).Legible := fun n => by simp [Field.Legible]
    have hmaxDirect : directOf pid byPid cluster =
        max ((byPid pid).getD {}).direct.toInt c.direct.toInt := by
      simp [directOf, counted, hc]
    have hmaxTransitive : transitiveOf pid byPid cluster =
        max ((byPid pid).getD {}).transitive.toInt c.transitive.toInt := by
      simp [transitiveOf, counted, hc]
    simp only [merge, Prog.wp_bind, wp_value h.direct, wp_value hdirect, wp_value h.transitive,
      wp_value htransitive, Prog.andThen]
    cases hbounds : c.oldestWaitUpperBoundMs with
    | none =>
      have holdest : ((byPid pid).getD {}).oldestWaitMs.toInt = oldestOf pid byPid cluster := by
        simp [oldestOf, hc, hbounds]
      exact ⟨rfl, _, rfl, ⟨hnumber _, hmaxDirect.symm⟩, ⟨hnumber _, hmaxTransitive.symm⟩, holdest,
        fun hr => ⟨hr.blockingWaiterPid, hr.oldestWaitMs, hr.inflictedBlockedMs, hr.cic⟩⟩
    | some bound =>
      have holdest := hbound (by simp [hbounds])
      have hmaxOldest : oldestOf pid byPid cluster =
          max ((byPid pid).getD {}).oldestWaitMs.toInt bound := by
        simp [oldestOf, hc, hbounds]
      simp only [Prog.wp_bind, wp_value holdest, Prog.andThen]
      exact ⟨rfl, _, rfl, ⟨hnumber _, hmaxDirect.symm⟩, ⟨hnumber _, hmaxTransitive.symm⟩,
        hmaxOldest.symm, fun hr => ⟨hr.blockingWaiterPid, hnumber _, hr.inflictedBlockedMs, hr.cic⟩⟩

theorem wp_quiet {σ : Type} {r : Reading} {Q : Outcome TypeError Bool → σ → Prop} {k : σ}
    (hdirect : r.direct.Legible) (htransitive : r.transitive.Legible) :
    r.quiet.Wp Q k ↔ Q (.ok (decide (r.direct.toInt = 0 ∧ r.transitive.toInt = 0))) k := by
  unfold Reading.quiet
  split
  next hempty =>
    subst hempty
    exact Iff.rfl
  next =>
    simp only [Prog.wp_bind, wp_value hdirect, Prog.andThen]
    split
    next hzero => simp [wp_value htransitive, Prog.andThen, hzero]
    next hzero => simp [hzero]

theorem observe_shows (he : Accepted e) {now : Int} {byPid : Int → Option Reading}
    {cluster : Int → Option ClusterReading} (h : j.Shows s)
    (hl : LegibleAnswer j.pacing.workerPid byPid cluster) :
    (observe e.toExecutorConfig now byPid cluster j).2.Shows
      (s.next he.thresholds (transitiveOf j.pacing.workerPid byPid cluster)) := by
  have hwp : (observe e.toExecutorConfig now byPid cluster).Wp (fun _ j' => j'.Shows
      (s.next he.thresholds (transitiveOf j.pacing.workerPid byPid cluster))) j := by
    simp only [observe, Prog.wp_bind, Prog.wp_gets, Prog.andThen]
    refine (readingOf_merged (k := j) hl).mono ?_
    rintro o j' ⟨rfl, r, rfl, hr⟩
    simp only [Prog.andThen, Prog.wp_bind, wp_quiet hr.direct.1 hr.transitive.1]
    rw [hr.direct.2, hr.transitive.2]
    by_cases hzero : directOf j'.pacing.workerPid byPid cluster = 0 ∧
        transitiveOf j'.pacing.workerPid byPid cluster = 0
    · have hclear := clearContention_shows he h
      simpa [hzero] using hclear
    · simp only [hzero, decide_false, Bool.false_eq_true, if_false]
      rw [← hr.transitive.2]
      exact (apply_shows he h hr.direct.1 hr.transitive.1 (hr.rest (hl.rest hzero))).mono
        fun _ _ hj => hj.2
  exact hwp

end Reading

/-! ## Histories -/

theorem Event.perform_shows {e : ExecutorSettings} (he : Accepted e) {j : Job} {s : Switch}
    {ev : Event} (h : j.Shows s) (hl : ev.Legible j.pacing.workerPid) :
    (ev.perform e.toExecutorConfig j).Shows
      ((ev.reading j.pacing.workerPid).elim s fun n => s.next he.thresholds n) := by
  cases ev with
  | nobody => exact clearContention_shows he h
  | answered now byPid cluster => exact observe_shows he h hl
  | stopLongStatement => exact h.watch (watch_stopLongStatement j)
  | readSize sizes => exact h.watch (watch_readSize sizes j)
  | write w => exact h.watch (w.watch_perform j)

/-- In a history of legible readings the job's counters are those of the switch after them. -/
theorem Tracked.shows {e : ExecutorSettings} (he : Accepted e) {t : Track}
    (h : Tracked e.toExecutorConfig t) :
    t.job.Shows (Switch.after he.thresholds t.readings) := by
  induction h with
  | start fresh => exact ⟨by simp [fresh, Switch.after], by simp [fresh, Switch.after],
      by simp [fresh, Switch.after]⟩
  | @next t ev h legible ih =>
    have hstep := Event.perform_shows he ih legible
    cases hr : ev.reading t.job.pacing.workerPid with
    | none => simpa [Track.next, hr] using hstep
    | some n => simpa [Track.next, hr, Switch.after] using hstep

theorem Tracked.run {cfg : ExecutorConfig} {t : Track} (h : Tracked cfg t) {events : List Event}
    (hsilent : ∀ ev ∈ events, ∀ pid, ev.reading pid = none) :
    Tracked cfg (t.run cfg events) ∧ (t.run cfg events).readings = t.readings := by
  induction events generalizing t with
  | nil => exact ⟨h, rfl⟩
  | cons ev events ih =>
    have hfirst := hsilent ev (List.mem_cons_self ..)
    have hlegible : ev.Legible t.job.pacing.workerPid := by
      cases ev with
      | answered now byPid cluster => simp [Event.reading] at hfirst
      | _ => trivial
    obtain ⟨htracked, hreadings⟩ := ih (h.next hlegible) fun x hx =>
      hsilent x (List.mem_cons_of_mem _ hx)
    exact ⟨htracked, hreadings.trans (by simp [Track.next, hfirst])⟩

/-- The breaker in a history of legible readings: nothing but a reading changes it; it pauses at the
reading that completes the dwell at or above `pause_waiters`, it resumes at the one that completes
the dwell at or below `resume_waiters`, a reading in between leaves it as it is, and where the dwell
is two ticks or more a tick that changes it is not followed by one that changes it back. -/
theorem breaker_hysteresis {e : ExecutorSettings} (he : Accepted e) {t : Track}
    (ht : Tracked e.toExecutorConfig t) {ev : Event} (hl : ev.Legible t.job.pacing.workerPid) :
    let read := (ev.reading t.job.pacing.workerPid).isSome
    let t' := t.next e.toExecutorConfig ev
    (read = false → t'.paused = t.paused) ∧
    (t.paused = false → (t'.paused = true ↔
      read = true ∧ t'.contended e.toExecutorConfig = e.contentionDwellTicks)) ∧
    (t.paused = true → (t'.paused = false ↔
      read = true ∧ t'.calm e.toExecutorConfig = e.contentionDwellTicks)) ∧
    (∀ n, ev.reading t.job.pacing.workerPid = some n → e.resumeWaiters < n → n < e.pauseWaiters →
      t'.paused = t.paused) ∧
    (2 ≤ e.contentionDwellTicks → t'.paused ≠ t.paused →
      ∀ between, (∀ x ∈ between, ∀ pid, Event.reading pid x = none) →
        ∀ ev', Event.Legible (t'.run e.toExecutorConfig between).job.pacing.workerPid ev' →
          ((t'.run e.toExecutorConfig between).next e.toExecutorConfig ev').paused =
            t'.paused) := by
  intro read t'
  have ht' : Tracked e.toExecutorConfig t' := ht.next hl
  have hdwell : (he.thresholds.dwell : Int) = e.contentionDwellTicks := by
    have hone := he.configured.inRange.dwell
    simp only [Accepted.thresholds]
    omega
  have hpaused : t.paused = (Switch.after he.thresholds t.readings).on := (ht.shows he).on
  have hpaused' : t'.paused = (Switch.after he.thresholds t'.readings).on := (ht'.shows he).on
  cases hr : ev.reading t.job.pacing.workerPid with
  | none =>
    have hread : read = false := by simp [read, hr]
    have hsame : t'.paused = t.paused := by
      rw [hpaused, hpaused']
      simp [t', Track.next, hr]
    refine ⟨fun _ => hsame, fun hoff => ?_, fun hon => ?_, fun n hn => ?_, fun _ hne => ?_⟩
    · simp [hsame, hoff, hread]
    · simp [hsame, hon, hread]
    · cases hn
    · exact absurd hsame hne
  | some n =>
    have hread : read = true := by simp [read, hr]
    have hreadings : t'.readings = n :: t.readings := by simp [t', Track.next, hr]
    rw [hreadings] at hpaused'
    refine ⟨fun h => ?_, fun hoff => ?_, fun hon => ?_, fun m hm hlow hhigh => ?_,
      fun htwo hne between hsilent ev' hl' => ?_⟩
    · simp [hread] at h
    · have hturns := Switch.turns_on_iff (x := n) (hpaused ▸ hoff)
      rw [hpaused', hturns, Track.contended, hreadings, ← hdwell]
      simp only [hread, true_and, Int.natCast_inj]
      exact Iff.rfl
    · have hturns := Switch.turns_off_iff (x := n) (hpaused ▸ hon)
      rw [hpaused', hturns, Track.calm, hreadings, ← hdwell]
      simp only [hread, true_and, Int.natCast_inj]
      exact Iff.rfl
    · obtain rfl : n = m := Option.some.inj hm
      rw [hpaused, hpaused']
      exact Switch.on_of_between hlow hhigh
    · obtain ⟨hrun, hrunReadings⟩ := ht'.run hsilent
      have hlast := ((hrun.next hl').shows he).on
      rw [hreadings] at hrunReadings
      cases hr' : ev'.reading (t'.run e.toExecutorConfig between).job.pacing.workerPid with
      | none =>
        rw [hpaused', ← hrunReadings]
        refine hlast.trans ?_
        simp [Track.next, hr']
      | some m =>
        have hreadings' :
            ((t'.run e.toExecutorConfig between).next e.toExecutorConfig ev').readings =
              m :: n :: t.readings := by
          simp [Track.next, hr', hrunReadings]
        rw [hreadings'] at hlast
        rw [hpaused']
        refine hlast.trans (Switch.on_next_of_turned ?_ ?_)
        · have hnat : (2 : Int) ≤ he.thresholds.dwell := hdwell ▸ htwo
          omega
        · rw [← hpaused, ← hpaused']
          exact hne

theorem breaker_hysteresis_three_ticks :
    let answer : Event := .answered 0 (fun _ => some
      { direct := .number 2, transitive := .number 8, blockingWaiterPid := .number 71,
        oldestWaitMs := .number 40, inflictedBlockedMs := .number 60 }) fun _ => none
    let t := Track.run {} { job := { jobId := "j1", connection := "c" } }
      [.write (.workerPid 7), answer, answer]
    t.paused = false ∧ (t.next {} answer).paused = true := by
  intro answer t
  have hl : ∀ pid, answer.Legible pid := fun pid => by
    refine ⟨by simp [Field.Legible], by simp [Field.Legible],
      (fun c (hc : none = some c) => by cases hc), fun _ => ?_⟩
    exact ⟨by simp [Field.Legible], by simp [Field.Legible], by simp [Field.Legible],
      fun c (hc : none = some c) => by cases hc⟩
  have ht : Tracked ({} : ExecutorSettings).toExecutorConfig t :=
    .next (.next (.next (.start rfl) trivial) (hl _)) (hl _)
  have hoff : t.paused = false := by decide
  exact ⟨hoff, ((breaker_hysteresis accepted_defaults ht (hl _)).2.1 hoff).mpr (by decide)⟩

/-- What the coordinator answers of a worker whose waiters are all on other nodes: the pid of its
nearest waiter is null. -/
def nearWaitless : Reading where
  direct := .number 0
  transitive := .number 0
  blockingWaiterPid := .null
  oldestWaitMs := .number 0
  inflictedBlockedMs := .number 0

/-- Eight waiters in a row, all of them on other nodes, for as long as the dwell: the pid that is
null throws before the ladder, so the breaker never pauses. -/
theorem cluster_wait_unread :
    let answer : Event := .answered 0 (fun _ => some nearWaitless) fun _ => some
      { direct := .number 8, transitive := .number 8, oldestWaitUpperBoundMs := some 900 }
    let t := Track.run {} { job := { jobId := "j1", connection := "c" } }
      [.write (.workerPid 7), answer, answer]
    Accepted {} ∧ t.paused = false ∧ (answer.reading t.job.pacing.workerPid).isSome = true ∧
      (t.next {} answer).contended {} = ({} : ExecutorSettings).contentionDwellTicks ∧
      (t.next {} answer).paused = false := by
  refine ⟨accepted_defaults, ?_, ?_, ?_, ?_⟩ <;> decide

end Jobs
end Laswell
