import Mathlib.Logic.Relation
import Laswell.Jobs.Breaker

/-!
# Laswell.Jobs.Cancel

`cancel_requested`, the one bit by which the observer tells the worker that the next 57014 is its
doing. The observer sets it and then sends the cancellation; the worker clears it where it handles
a 57014. Between any two of these the other thread may do anything: `step` is one such move.

* `hit`: the statements that were in flight when a cancellation was sent.
* `own`: those whose 57014 was taken for the process's own cancellation.
* `missed`: those that made a session wait too long while they were in flight, and for which the
  tick that read so ended without a cancellation having been sent.

`tick_job`: with nothing between them, the moves of a tick do what the observer's loop body does.

`prompt_faithful`: where a cancellation is asked for only during a statement and that statement
then ends with it, and a tick that reads of too long a wait behind a walk can read the rest of its
answer, `own` are among `hit` and none is `missed`. A cancellation that is asked for between two
statements stays in the bit (`pending_mislabels`), and an answer with a null in it ends the tick
before it asks for one (`unread_missed`).
-/

namespace Laswell
namespace Jobs

open Base

/-! ## A tick up to its escalation -/

section LookAt

variable (cfg : ExecutorConfig)

/-- `apply` without its last line: whether that line goes on to `request_cancel`. -/
def applyLadder (now : Int) (r : Reading) : Prog Job TypeError Bool := do
  let direct ← r.direct.value 0
  let transitive ← r.transitive.value 0
  Prog.modify (Job.withPacing fun p =>
    { p with directWaiters := direct, transitiveWaiters := transitive })
  assign r.blockingWaiterPid fun n p => { p with blockingWaiterPid := n }
  assign r.oldestWaitMs fun n p => { p with oldestWaitMs := n }
  assign r.inflictedBlockedMs fun n p => { p with inflictedBlockedMs := n }
  assignCic r.cic
  Prog.modify (climb cfg now transitive)
  Prog.gets fun j => decide (cfg.maxWaiterWaitMs < j.pacing.oldestWaitMs)

def escalate (late : Bool) : Prog Job TypeError Unit :=
  Prog.modify fun j => if late then requestCancel j else j

theorem apply_eq (now : Int) (r : Reading) : apply cfg now r = applyLadder cfg now r >>= escalate := by
  have hlast : (Prog.modify fun j =>
      if cfg.maxWaiterWaitMs < j.pacing.oldestWaitMs then requestCancel j else j :
        Prog Job TypeError Unit) =
      (Prog.gets fun j => decide (cfg.maxWaiterWaitMs < j.pacing.oldestWaitMs)) >>= escalate := by
    funext j
    rw [Prog.bind_gets]
    simp [escalate, Prog.modify]
  simp only [apply, applyLadder, Prog.bind_assoc, hlast]

/-- The loop's body for one live job, up to the same place. -/
def lookAt (now : Int) (byPid : Int → Option Reading) (cluster : Int → Option ClusterReading) :
    Prog Job TypeError Bool := do
  let pid ← Prog.gets fun j => j.pacing.workerPid
  let reading ← readingOf pid byPid cluster
  let quiet ← reading.quiet
  if quiet then
    Prog.modify (clearContention cfg)
    pure false
  else applyLadder cfg now reading

theorem observe_eq (now : Int) (byPid : Int → Option Reading)
    (cluster : Int → Option ClusterReading) :
    observe cfg now byPid cluster = lookAt cfg now byPid cluster >>= escalate := by
  simp only [observe, lookAt, Prog.bind_assoc]
  congr 1; funext pid
  congr 1; funext reading
  congr 1; funext quiet
  cases quiet with
  | true => rfl
  | false =>
    simp only [Bool.false_eq_true, if_false]
    exact apply_eq cfg now reading

variable {cfg}

/-- The fields a cancellation goes by. -/
def Job.line (j : Job) : Bool × Bool × Nat := (j.workerConn, j.pacing.cancelRequested, j.cancels)

theorem keeps_line {l : Bool × Bool × Nat} {f : Job → Job} (hf : ∀ j, (f j).line = j.line) :
    Prog.Keeps (fun j => j.line = l) (Prog.modify f : Prog Job TypeError Unit) :=
  Prog.keeps_modify fun j hj => (hf j).trans hj

theorem keeps_line_assign {l : Bool × Bool × Nat} (f : Field)
    {set : Int → PacingState → PacingState} (hf : ∀ n (j : Job), (j.withPacing (set n)).line = j.line) :
    Prog.Keeps (fun j => j.line = l) (assign f set) :=
  Prog.keeps_bind (keeps_value _ _) fun n => keeps_line (hf n)

theorem keeps_line_assignCic {l : Bool × Bool × Nat} (cic : Option Cic) :
    Prog.Keeps (fun j => j.line = l) (assignCic cic) := by
  cases cic with
  | none => exact Prog.keeps_pure
  | some cic =>
    refine Prog.keeps_bind (keeps_line_assign _ fun _ _ => rfl) fun _ => ?_
    refine Prog.keeps_bind (keeps_line_assign _ fun _ _ => rfl) fun _ => ?_
    exact keeps_line_assign _ fun _ _ => rfl

theorem line_bumpQuiet (j : Job) : (bumpQuiet cfg j).line = j.line := by
  simp only [bumpQuiet, Job.withPacing, Job.line]
  split
  · split <;> rfl
  · rfl

theorem line_clearContention (j : Job) : (clearContention cfg j).line = j.line := line_bumpQuiet _

theorem line_climb (now transitive : Int) (j : Job) : (climb cfg now transitive j).line = j.line := by
  unfold climb
  dsimp only
  split
  · unfold contend
    dsimp only
    split <;> rfl
  · exact line_bumpQuiet _

/-- A look at a job leaves alone what a cancellation goes by. -/
theorem lookAt_line (now : Int) (byPid : Int → Option Reading)
    (cluster : Int → Option ClusterReading) (j : Job) :
    (lookAt cfg now byPid cluster j).2.line = j.line := by
  have keeps : Prog.Keeps (fun k => k.line = j.line) (lookAt cfg now byPid cluster) := by
    refine Prog.keeps_bind Prog.keeps_gets fun pid => ?_
    refine Prog.keeps_bind ?_ fun reading => ?_
    · unfold readingOf
      split
      · exact Prog.keeps_pure
      · exact keeps_merge _ _
    refine Prog.keeps_bind (keeps_quiet _) fun quiet => ?_
    refine Prog.keeps_ite (fun _ => ?_) fun _ => ?_
    · exact Prog.keeps_bind (keeps_line line_clearContention) fun _ => Prog.keeps_pure
    · refine Prog.keeps_bind (keeps_value _ _) fun direct => ?_
      refine Prog.keeps_bind (keeps_value _ _) fun transitive => ?_
      refine Prog.keeps_bind (keeps_line fun _ => rfl) fun _ => ?_
      refine Prog.keeps_bind (keeps_line_assign _ fun _ _ => rfl) fun _ => ?_
      refine Prog.keeps_bind (keeps_line_assign _ fun _ _ => rfl) fun _ => ?_
      refine Prog.keeps_bind (keeps_line_assign _ fun _ _ => rfl) fun _ => ?_
      refine Prog.keeps_bind (keeps_line_assignCic _) fun _ => ?_
      exact Prog.keeps_bind (keeps_line (line_climb _ _)) fun _ => Prog.keeps_gets
  exact keeps j rfl

theorem oldest_bumpQuiet (j : Job) :
    (bumpQuiet cfg j).pacing.oldestWaitMs = j.pacing.oldestWaitMs := by
  simp only [bumpQuiet, Job.withPacing]
  split
  · split <;> rfl
  · rfl

theorem oldest_climb (now transitive : Int) (j : Job) :
    (climb cfg now transitive j).pacing.oldestWaitMs = j.pacing.oldestWaitMs := by
  unfold climb
  dsimp only
  split
  · unfold contend
    dsimp only
    split <;> rfl
  · exact oldest_bumpQuiet _

/-- The age that is read last is the one the ladder leaves to be compared. -/
theorem applyLadder_over {now : Int} {r : Reading} (hdirect : r.direct.Legible)
    (htransitive : r.transitive.Legible) (hr : r.Legible) (j : Job) :
    (applyLadder cfg now r).Wp
      (fun o _ => o = .ok (decide (cfg.maxWaiterWaitMs < r.oldestWaitMs.toInt))) j := by
  simp only [applyLadder, Prog.wp_bind, wp_value hdirect, wp_value htransitive, Prog.andThen,
    Prog.wp_modify, wp_assign hr.blockingWaiterPid, wp_assign hr.oldestWaitMs,
    wp_assign hr.inflictedBlockedMs]
  refine Prog.Wp.mono (Q := fun o k => o = .ok () ∧
    k.pacing.oldestWaitMs = r.oldestWaitMs.toInt) ?_ ?_
  · cases hc : r.cic with
    | none => exact ⟨rfl, rfl⟩
    | some c =>
      obtain ⟨htotal, hdone, hpid⟩ := hr.cic c hc
      simp only [assignCic, Prog.wp_bind, wp_assign htotal, Prog.andThen, wp_assign hdone,
        wp_assign hpid]
      exact ⟨trivial, rfl⟩
  rintro o k ⟨rfl, hk⟩
  simp only [Prog.andThen, Prog.wp_bind, Prog.wp_modify, Prog.wp_gets, oldest_climb, hk]

/-- Of an answer that can be read to its end, with a waiter in it, a tick knows how long the oldest
has waited. -/
theorem lookAt_over {now : Int} {byPid : Int → Option Reading}
    {cluster : Int → Option ClusterReading} {j : Job}
    (hl : LegibleAnswer j.pacing.workerPid byPid cluster)
    (hwaiter : ¬(directOf j.pacing.workerPid byPid cluster = 0 ∧
      transitiveOf j.pacing.workerPid byPid cluster = 0)) :
    (lookAt cfg now byPid cluster j).1 =
      .ok (decide (cfg.maxWaiterWaitMs < oldestOf j.pacing.workerPid byPid cluster)) := by
  have hwp : (lookAt cfg now byPid cluster).Wp (fun o _ => o =
      .ok (decide (cfg.maxWaiterWaitMs < oldestOf j.pacing.workerPid byPid cluster))) j := by
    simp only [lookAt, Prog.wp_bind, Prog.wp_gets, Prog.andThen]
    refine (readingOf_merged (k := j) hl).mono ?_
    rintro o k ⟨rfl, r, rfl, hr⟩
    simp only [Prog.andThen, Prog.wp_bind, wp_quiet hr.direct.1 hr.transitive.1]
    rw [hr.direct.2, hr.transitive.2, decide_eq_false hwaiter, ← hr.oldest]
    exact applyLadder_over hr.direct.1 hr.transitive.1 (hr.rest (hl.rest hwaiter)) k
  exact hwp

end LookAt

/-! ## The two threads -/

/-- Where a statement of the worker is, by what is done about its 57014: the single statement of a
walk, a batch, the readings of a walk's progress, which never fail it, or anywhere else. -/
inductive Site where
  | single
  | batch
  | explain
  | elsewhere
  deriving DecidableEq

def Site.ofWalk : Site → Bool
  | .elsewhere => false
  | _ => true

/-- The worker: between statements, in one, with a 57014 caught or on its way out of `execute`, and
done. -/
inductive Worker where
  | idle
  | running (n : Nat) (site : Site)
  | caught (n : Nat) (site : Site)
  | thrown (n : Nat)
  | ended
  deriving DecidableEq

/-- The observer's thread in `request_cancel`: before the exchange, and between it and
`cancel_query`. `starved` is the statement its reading was about, if it was one of a walk. -/
inductive Watcher where
  | idle
  | requesting (starved : Option Nat)
  | sending (starved : Option Nat)
  deriving DecidableEq

structure Cancelling where
  job : Job
  worker : Worker := .idle
  watcher : Watcher := .idle
  started : Nat := 0
  hit : List Nat := []
  own : List Nat := []
  missed : List Nat := []

/-- `reads`: a tick's transaction has answered, and the loop comes to this job. `lost`: it does not,
since the transaction cannot be committed, or an exception over an earlier job ended the loop. -/
inductive Move where
  | start (site : Site)
  | finish (failed : Bool)
  | canceled
  | handle
  | atTop
  | leave
  | cancelStop
  | stopNow
  | inWalk (b : Bool)
  | longStatement (b : Bool)
  | stops
  | reads (now : Int) (byPid : Int → Option Reading) (cluster : Int → Option ClusterReading)
    (lost : Bool)
  | exchange
  | send

namespace Cancelling

variable (s : Cancelling)

def requested : Bool := s.job.pacing.cancelRequested

def writes (w : Write) : Cancelling := { s with job := w.perform s.job }

/-! ## The worker -/

/-- The 57014 of statement `n` is taken for our own cancellation. -/
def noted (n : Nat) (worker : Worker) : Cancelling :=
  { s.writes .cancelNoted with own := n :: s.own, worker }

/-- The handler around the statement. -/
def handle (n : Nat) : Site → Cancelling
  | .single =>
    if s.job.pacing.cancelStop then s.noted n .ended
    else if s.requested then s.noted n .idle
    else { s with worker := .thrown n }
  | .batch => if s.requested then s.noted n .idle else { s with worker := .thrown n }
  | .explain => { s with worker := .idle }
  | .elsewhere => { s with worker := .thrown n }

/-- The handler of `run`. -/
def atTop (n : Nat) : Cancelling :=
  if s.job.pacing.stopNow && s.job.pacing.cancelStop && s.requested then s.noted n .ended
  else { s with worker := .ended }

/-! ## The observer -/

/-- The statement of a walk in flight. -/
def walking : Option Nat :=
  match s.worker with
  | .running n site => if site.ofWalk then some n else none
  | _ => none

/-- A job to be stopped inside a statement that has no boundary to stop at. -/
def toStop : Bool :=
  s.job.pacing.cancelStop &&
    (s.job.pacing.longStatement || (s.job.pacing.stopNow && !s.job.pacing.inWalk))

def tickEnds (starved : Option Nat) : Cancelling :=
  { s with watcher := .idle
           missed := s.missed ++ starved.toList.filter fun n => !decide (n ∈ s.hit) }

/-- The statement of a walk that a tick reads to have had a session wait for too long. -/
def starving (cfg : ExecutorConfig) (byPid : Int → Option Reading)
    (cluster : Int → Option ClusterReading) : Option Nat :=
  if cfg.maxWaiterWaitMs < oldestOf s.job.pacing.workerPid byPid cluster then s.walking else none

def reads (cfg : ExecutorConfig) (now : Int) (byPid : Int → Option Reading)
    (cluster : Int → Option ClusterReading) (lost : Bool) : Cancelling :=
  let starved := s.starving cfg byPid cluster
  if lost then s.tickEnds starved
  else
    match lookAt cfg now byPid cluster s.job with
    | (.ok true, job) => { s with job, watcher := .requesting starved }
    | (_, job) => { s with job }.tickEnds starved

/-- `cancel_requested.exchange(true)` -/
def exchange (starved : Option Nat) : Cancelling :=
  if s.requested then s.tickEnds starved
  else
    { s with job := s.job.withPacing fun p => { p with cancelRequested := true }
             watcher := .sending starved }

/-- `cancel_query`, on whatever is in flight by now. -/
def send (starved : Option Nat) : Cancelling :=
  if s.job.workerConn then
    tickEnds { s with
      job := { s.job with cancels := s.job.cancels + 1 }
      hit :=
        match s.worker with
        | .running n _ => n :: s.hit
        | _ => s.hit } starved
  else s.tickEnds starved

end Cancelling

/-- One move of one of the two threads, or of the tools and the signal handler. -/
def Cancelling.step (cfg : ExecutorConfig) (s : Cancelling) : Move → Option Cancelling
  | .start site =>
    match s.worker with
    | .idle => some { s with worker := .running s.started site, started := s.started + 1 }
    | _ => none
  | .finish failed =>
    match s.worker with
    | .running _ _ => some { s with worker := if failed then .ended else .idle }
    | _ => none
  | .canceled =>
    match s.worker with
    | .running n site => some { s with worker := .caught n site }
    | _ => none
  | .handle =>
    match s.worker with
    | .caught n site => some (s.handle n site)
    | _ => none
  | .atTop =>
    match s.worker with
    | .thrown n => some (s.atTop n)
    | _ => none
  | .leave =>
    match s.worker with
    | .idle => some { s.writes (.workerConn false) with worker := .ended }
    | _ => none
  | .cancelStop => some (s.writes .cancelStop)
  | .stopNow => some (s.writes .stopNow)
  | .inWalk b => some (s.writes (.inWalk b))
  | .longStatement b => some (s.writes (.longStatement b))
  | .stops =>
    match s.watcher with
    | .idle =>
      if s.worker ≠ .ended ∧ s.toStop then some { s with watcher := .requesting none } else none
    | _ => none
  | .reads now byPid cluster lost =>
    match s.watcher with
    | .idle => if s.worker ≠ .ended then some (s.reads cfg now byPid cluster lost) else none
    | _ => none
  | .exchange =>
    match s.watcher with
    | .requesting starved => some (s.exchange starved)
    | _ => none
  | .send =>
    match s.watcher with
    | .sending starved => some (s.send starved)
    | _ => none

/-- The moves of a tick that is not lost, with nothing between them. -/
def Cancelling.tick (cfg : ExecutorConfig) (now : Int) (byPid : Int → Option Reading)
    (cluster : Int → Option ClusterReading) (s : Cancelling) : Cancelling :=
  let read := s.reads cfg now byPid cluster false
  match read.watcher with
  | .requesting starved =>
    let asked := read.exchange starved
    match asked.watcher with
    | .sending starved => asked.send starved
    | _ => asked
  | _ => read

/-- They do to the job what the observer's loop body does. -/
theorem tick_job (cfg : ExecutorConfig) (now : Int) (byPid : Int → Option Reading)
    (cluster : Int → Option ClusterReading) (s : Cancelling) :
    (s.tick cfg now byPid cluster).job = (observe cfg now byPid cluster s.job).2 := by
  rw [observe_eq]
  unfold Cancelling.tick Cancelling.reads
  rcases h : lookAt cfg now byPid cluster s.job with ⟨o, j⟩
  cases o with
  | ok late =>
    rw [Prog.bind_ok h]
    cases late with
    | false => rfl
    | true =>
      simp only [Bool.false_eq_true, if_false, escalate, Prog.modify, if_true,
        Cancelling.exchange, Cancelling.requested, requestCancel]
      cases hr : j.pacing.cancelRequested with
      | true => rfl
      | false =>
        simp only [Bool.false_eq_true, if_false, Cancelling.send]
        split <;> rfl
  | err e =>
    rw [Prog.bind_err h]
    rfl
  | out => rw [Prog.bind_out h]; rfl

/-- Runs whose every move `P` allows. -/
def Cancelling.Runs (cfg : ExecutorConfig) (P : Cancelling → Move → Prop) :
    Cancelling → Cancelling → Prop :=
  Relation.ReflTransGen fun s s' => ∃ m, P s m ∧ s.step cfg m = some s'

def Cancelling.run (cfg : ExecutorConfig) : List Move → Cancelling → Option Cancelling
  | [], s => some s
  | m :: ms, s => (s.step cfg m).bind (Cancelling.run cfg ms)

/-- A 57014 is ours only if a cancellation was sent for its statement, and no statement that had a
session wait too long was left without one. -/
structure Faithful (s : Cancelling) : Prop where
  own : ∀ n ∈ s.own, n ∈ s.hit
  missed : s.missed = []

/-- Before a move: a cancellation is asked for only while a statement is in flight whose handler
takes note of it; a statement does not end with the observer inside `request_cancel`, and once the
cancellation is sent, ends with it; the single statement of a job that is to stop is cancelled
by the observer and nobody else; and a tick that reads of too long a wait behind a statement of a
walk comes to the job, with an answer that can be read to its end and has a waiter in it. -/
def Prompt (cfg : ExecutorConfig) (s : Cancelling) : Move → Prop
  | .exchange => s.requested = false → s.job.workerConn = true ∧
      ∃ n site, s.worker = .running n site ∧ site ≠ .explain
  | .finish _ => s.watcher = .idle ∧ s.requested = false
  | .canceled => s.watcher = .idle
  | .handle => ∀ n, s.worker = .caught n .single → s.job.pacing.cancelStop = true →
      s.requested = true
  | .reads _ byPid cluster lost =>
    let pid := s.job.pacing.workerPid
    cfg.maxWaiterWaitMs < oldestOf pid byPid cluster → s.walking ≠ none →
      lost = false ∧ LegibleAnswer pid byPid cluster ∧
        ¬(directOf pid byPid cluster = 0 ∧ transitiveOf pid byPid cluster = 0)
  | _ => True

/-- What the bit stands for while it is set. -/
def Cancelling.Pending (s : Cancelling) : Prop :=
  match s.worker with
  | .idle => False
  | .running n site => site ≠ .explain ∧ (n ∈ s.hit ∨ ∃ starved, s.watcher = .sending starved)
  | .caught n site => site ≠ .explain ∧ n ∈ s.hit
  | .thrown n => n ∈ s.hit
  | .ended => True

structure CancelInv (s : Cancelling) : Prop where
  faithful : Faithful s
  requesting : ∀ n, s.watcher = .requesting (some n) → ∃ site, s.worker = .running n site
  sending : ∀ starved, s.watcher = .sending starved → s.job.workerConn = true ∧
    ∃ n site, s.worker = .running n site ∧ site ≠ .explain ∧ ∀ k ∈ starved, k = n
  pending : s.requested = true → s.Pending

/-! ## One move -/

/-- With nothing on its way, what the bit stands for has been sent. -/
theorem Cancelling.Pending.sent {s s' : Cancelling} (hp : s.Pending)
    (hwatcher : ∀ starved, s.watcher ≠ .sending starved) (hworker : s'.worker = s.worker)
    (hhit : s'.hit = s.hit) : s'.Pending := by
  unfold Cancelling.Pending at hp ⊢
  rw [hworker, hhit]
  cases hw : s.worker with
  | idle => simp [hw] at hp
  | running n site =>
    simp only [hw, hwatcher, exists_false, or_false] at hp
    exact ⟨hp.1, .inl hp.2⟩
  | caught n site => simpa [hw] using hp
  | thrown n => simpa [hw] using hp
  | ended => trivial

namespace CancelInv

variable {s : Cancelling} {n : Nat} {site : Site} (h : CancelInv s)
include h

/-- Nothing but the job's other settings has changed. -/
theorem setting {job : Job} (hconn : job.workerConn = s.job.workerConn)
    (hflag : job.pacing.cancelRequested = s.job.pacing.cancelRequested) :
    CancelInv { s with job } where
  faithful := ⟨h.faithful.own, h.faithful.missed⟩
  requesting := h.requesting
  sending starved hw := by
    rw [hconn]
    exact h.sending starved hw
  pending hr := h.pending (hflag.symm.trans hr)

/-- Between statements there is nothing in the bit. -/
theorem idle_clear (hw : s.worker = .idle) : s.requested = false := by
  cases hr : s.requested with
  | false => rfl
  | true =>
    have hp := h.pending hr
    rw [Cancelling.Pending, hw] at hp
    exact hp.elim

/-- Outside of statements the observer has nothing to send, and no statement in mind. -/
theorem not_running (hw : ∀ n site, s.worker ≠ .running n site) :
    (∀ n, s.watcher ≠ .requesting (some n)) ∧ ∀ starved, s.watcher ≠ .sending starved := by
  constructor
  · intro n hn
    obtain ⟨site, hsite⟩ := h.requesting n hn
    exact hw n site hsite
  · intro starved hs
    obtain ⟨-, n, site, hsite, -⟩ := h.sending starved hs
    exact hw n site hsite

/-- The worker moves on, with the observer not about to cancel anything. -/
theorem moves {worker : Worker} {started : Nat}
    (hrequesting : ∀ n, s.watcher ≠ .requesting (some n))
    (hsending : ∀ starved, s.watcher ≠ .sending starved)
    (hpending : s.requested = true → { s with worker, started }.Pending) :
    CancelInv { s with worker, started } where
  faithful := ⟨h.faithful.own, h.faithful.missed⟩
  requesting n hn := absurd hn (hrequesting n)
  sending starved hs := absurd hs (hsending starved)
  pending hr := hpending hr

theorem starts (hw : s.worker = .idle) :
    CancelInv { s with worker := .running s.started site, started := s.started + 1 } := by
  obtain ⟨hr, hs⟩ := h.not_running fun n site hn => by rw [hw] at hn; cases hn
  refine h.moves hr hs fun hflag => ?_
  rw [h.idle_clear hw] at hflag
  cases hflag

/-- A statement that ends by itself ends with nothing asked of it. -/
theorem finishes {worker : Worker} (hwatcher : s.watcher = .idle) (hclear : s.requested = false) :
    CancelInv { s with worker } := by
  refine h.moves (fun n => ?_) (fun starved => ?_) fun hflag => ?_
  · simp [hwatcher]
  · simp [hwatcher]
  · rw [hclear] at hflag
    cases hflag

theorem catches (hw : s.worker = .running n site) (hwatcher : s.watcher = .idle) :
    CancelInv { s with worker := .caught n site } := by
  refine h.moves (fun n => ?_) (fun starved => ?_) fun hflag => ?_
  · simp [hwatcher]
  · simp [hwatcher]
  · have hp := h.pending hflag
    simp only [Cancelling.Pending, hw, hwatcher, reduceCtorEq, exists_false, or_false] at hp ⊢
    exact hp

/-- A 57014 that is taken for ours, of a statement that was cancelled. -/
theorem notes {worker : Worker} (hw : ∀ n site, s.worker ≠ .running n site) (hhit : n ∈ s.hit) :
    CancelInv (s.noted n worker) := by
  obtain ⟨hr, hs⟩ := h.not_running hw
  refine ⟨⟨?_, h.faithful.missed⟩, fun n hn => absurd hn (hr n), fun starved hn =>
    absurd hn (hs starved), (fun hflag => nomatch hflag)⟩
  intro k hk
  rcases List.mem_cons.1 hk with rfl | hk
  · exact hhit
  · exact h.faithful.own k hk

/-- A 57014 that is caught is one of a cancelled statement, if the bit is set. -/
theorem caught_hit (hw : s.worker = .caught n site) (hflag : s.requested = true) :
    site ≠ .explain ∧ n ∈ s.hit := by
  have hp := h.pending hflag
  rw [Cancelling.Pending, hw] at hp
  exact hp

theorem handles (hw : s.worker = .caught n site)
    (hprompt : site = .single → s.job.pacing.cancelStop = true → s.requested = true) :
    CancelInv (s.handle n site) := by
  have hnot : ∀ k site, s.worker ≠ .running k site := fun k site hn => by rw [hw] at hn; cases hn
  obtain ⟨hr, hs⟩ := h.not_running hnot
  have hours : s.requested = true → ∀ worker, CancelInv (s.noted n worker) := fun hflag worker =>
    h.notes hnot (h.caught_hit hw hflag).2
  have hthrows : CancelInv { s with worker := .thrown n } :=
    h.moves hr hs fun hflag => (h.caught_hit hw hflag).2
  cases site with
  | single =>
    by_cases hstop : s.job.pacing.cancelStop = true
    · simpa [Cancelling.handle, hstop] using hours (hprompt rfl hstop) .ended
    · by_cases hflag : s.requested = true
      · simpa [Cancelling.handle, hstop, hflag] using hours hflag .idle
      · simpa [Cancelling.handle, hstop, hflag] using hthrows
  | batch =>
    by_cases hflag : s.requested = true
    · simpa [Cancelling.handle, hflag] using hours hflag .idle
    · simpa [Cancelling.handle, hflag] using hthrows
  | explain =>
    refine h.moves hr hs fun hflag => ?_
    exact absurd rfl (h.caught_hit hw hflag).1
  | elsewhere => exact hthrows

theorem leaves_by_throw (hw : s.worker = .thrown n) : CancelInv (s.atTop n) := by
  have hnot : ∀ k site, s.worker ≠ .running k site := fun k site hn => by rw [hw] at hn; cases hn
  obtain ⟨hr, hs⟩ := h.not_running hnot
  unfold Cancelling.atTop
  split
  · rename_i hflag
    simp only [Bool.and_eq_true] at hflag
    have hp := h.pending hflag.2
    rw [Cancelling.Pending, hw] at hp
    exact h.notes hnot hp
  · exact h.moves hr hs fun _ => trivial

theorem leaves (hw : s.worker = .idle) :
    CancelInv { s.writes (.workerConn false) with worker := .ended } := by
  obtain ⟨hr, hs⟩ := h.not_running fun n site hn => by rw [hw] at hn; cases hn
  exact ⟨⟨h.faithful.own, h.faithful.missed⟩, fun n hn => absurd hn (hr n),
    fun starved hn => absurd hn (hs starved), fun _ => trivial⟩

/-- The observer's thread is back from a tick whose statement was cancelled, if it had one. -/
theorem ticks {starved : Option Nat} (hwatcher : ∀ starved, s.watcher ≠ .sending starved)
    (hstarved : ∀ k ∈ starved, k ∈ s.hit) : CancelInv (s.tickEnds starved) := by
  have hmissed : starved.toList.filter (fun n => !decide (n ∈ s.hit)) = [] := by
    rw [List.filter_eq_nil_iff]
    intro k hk
    simpa using hstarved k (Option.mem_toList.1 hk)
  refine ⟨⟨h.faithful.own, ?_⟩, (fun _ hn => nomatch hn), (fun _ hn => nomatch hn), fun hflag => ?_⟩
  · change s.missed ++ _ = []
    rw [hmissed, h.faithful.missed]
    rfl
  · exact (h.pending hflag).sent hwatcher rfl rfl

theorem asks {starved : Option Nat} (hwatcher : s.watcher = .idle)
    (hstarved : ∀ n ∈ starved, ∃ site, s.worker = .running n site) :
    CancelInv { s with watcher := .requesting starved } := by
  refine ⟨⟨h.faithful.own, h.faithful.missed⟩, fun n hn => ?_, (fun _ hn => nomatch hn),
    fun hflag => ?_⟩
  · cases hn
    exact hstarved n rfl
  · exact (h.pending hflag).sent (fun starved => by simp [hwatcher]) rfl rfl

/-- A tick that finds the bit set finds its statement cancelled already. -/
theorem exchanges {starved : Option Nat} (hwatcher : s.watcher = .requesting starved)
    (hprompt : s.requested = false → s.job.workerConn = true ∧
      ∃ n site, s.worker = .running n site ∧ site ≠ .explain) :
    CancelInv (s.exchange starved) := by
  have hnot : ∀ starved, s.watcher ≠ .sending starved := fun _ hn => by
    rw [hwatcher] at hn
    cases hn
  unfold Cancelling.exchange
  split
  · rename_i hflag
    refine h.ticks hnot fun k hk => ?_
    rw [hk] at hwatcher
    obtain ⟨site, hw⟩ := h.requesting k hwatcher
    have hp := h.pending hflag
    rw [Cancelling.Pending, hw] at hp
    exact hp.2.resolve_right fun ⟨starved, hs⟩ => hnot starved hs
  · rename_i hclear
    obtain ⟨hconn, n, site, hw, hsite⟩ := hprompt (by simpa using hclear)
    refine ⟨⟨h.faithful.own, h.faithful.missed⟩, (fun _ hn => nomatch hn),
      fun starved' hn => ⟨hconn, n, site, hw, hsite, fun k hk => ?_⟩, fun _ => ?_⟩
    · cases hn
      rw [hk] at hwatcher
      obtain ⟨site', hw'⟩ := h.requesting k hwatcher
      rw [hw] at hw'
      cases hw'
      rfl
    · unfold Cancelling.Pending
      rw [hw]
      exact ⟨hsite, .inr ⟨starved, rfl⟩⟩

theorem sends {starved : Option Nat} (hwatcher : s.watcher = .sending starved) :
    CancelInv (s.send starved) := by
  obtain ⟨hconn, n, site, hw, hsite, hstarved⟩ := h.sending starved hwatcher
  let sent : Cancelling := { s with
    job := { s.job with cancels := s.job.cancels + 1 }, hit := n :: s.hit, watcher := .idle }
  have hsent : CancelInv sent := by
    refine ⟨⟨fun k hk => List.mem_cons_of_mem _ (h.faithful.own k hk), h.faithful.missed⟩,
      (fun _ hn => nomatch hn), (fun _ hn => nomatch hn), fun _ => ?_⟩
    simp only [Cancelling.Pending, sent, hw]
    exact ⟨hsite, .inl (List.mem_cons_self ..)⟩
  have heq : s.send starved = sent.tickEnds starved := by
    simp [Cancelling.send, Cancelling.tickEnds, sent, hconn, hw]
  rw [heq]
  refine hsent.ticks (fun _ hn => nomatch hn) fun k hk => ?_
  rw [hstarved k hk]
  exact List.mem_cons_self ..

end CancelInv

/-- The statement that starves a session is the one in flight. -/
theorem Cancelling.starving_running {cfg : ExecutorConfig} {byPid : Int → Option Reading}
    {cluster : Int → Option ClusterReading} {s : Cancelling} {n : Nat}
    (h : n ∈ s.starving cfg byPid cluster) : ∃ site, s.worker = .running n site := by
  unfold Cancelling.starving at h
  split at h
  · unfold Cancelling.walking at h
    split at h
    · rename_i k site hw
      split at h <;> cases h
      exact ⟨site, hw⟩
    · cases h
  · cases h

/-- A tick that reads of a statement that starves a session goes on to ask for its cancellation. -/
theorem CancelInv.reads {cfg : ExecutorConfig} {now : Int} {byPid : Int → Option Reading}
    {cluster : Int → Option ClusterReading} {lost : Bool} {s : Cancelling} (h : CancelInv s)
    (hidle : s.watcher = .idle) (hp : Prompt cfg s (.reads now byPid cluster lost)) :
    CancelInv (s.reads cfg now byPid cluster lost) := by
  have hline : (lookAt cfg now byPid cluster s.job).2.line = s.job.line :=
    lookAt_line now byPid cluster s.job
  have hset : CancelInv { s with job := (lookAt cfg now byPid cluster s.job).2 } :=
    h.setting (congrArg Prod.fst hline) (congrArg (fun l => l.2.1) hline)
  cases hstarved : s.starving cfg byPid cluster with
  | none =>
    have hends : ∀ {s : Cancelling}, CancelInv s → s.watcher = .idle →
        CancelInv (s.tickEnds none) := fun h hidle =>
      h.ticks (fun starved hn => by rw [hidle] at hn; cases hn) fun k hk => nomatch hk
    unfold Cancelling.reads
    rw [hstarved]
    cases lost with
    | true => exact hends h hidle
    | false =>
      rcases hlook : lookAt cfg now byPid cluster s.job with ⟨o, job⟩
      rw [hlook] at hset
      simp only [Bool.false_eq_true, if_false]
      split
      · rename_i heq
        cases heq
        exact hset.asks hidle fun n hn => nomatch hn
      · rename_i heq
        cases heq
        exact hends hset hidle
  | some n =>
    -- The tick read of a starving session, so it has the whole answer and comes to the job.
    have hlate : cfg.maxWaiterWaitMs < oldestOf s.job.pacing.workerPid byPid cluster ∧
        s.walking ≠ none := by
      unfold Cancelling.starving at hstarved
      split at hstarved
      · exact ⟨‹_›, by rw [hstarved]; simp⟩
      · cases hstarved
    obtain ⟨rfl, hl, hwaiter⟩ := hp hlate.1 hlate.2
    have hlook : (lookAt cfg now byPid cluster s.job).1 = .ok true := by
      rw [lookAt_over hl hwaiter, decide_eq_true hlate.1]
    unfold Cancelling.reads
    rw [hstarved]
    rcases hboth : lookAt cfg now byPid cluster s.job with ⟨o, job⟩
    rw [hboth] at hlook hset
    dsimp only at hlook
    subst hlook
    refine hset.asks hidle fun k hk => ?_
    cases hk
    exact Cancelling.starving_running (s := s) hstarved

/-- One prompt move of either thread. -/
theorem step_cancelInv {cfg : ExecutorConfig} {s s' : Cancelling} {m : Move} (h : CancelInv s)
    (hp : Prompt cfg s m) (hs : s.step cfg m = some s') : CancelInv s' := by
  cases m with
  | start site =>
    simp only [Cancelling.step] at hs
    split at hs <;> cases hs
    exact h.starts ‹_›
  | finish failed =>
    simp only [Cancelling.step] at hs
    split at hs <;> cases hs
    exact h.finishes hp.1 hp.2
  | canceled =>
    simp only [Cancelling.step] at hs
    split at hs <;> cases hs
    exact h.catches ‹_› hp
  | handle =>
    simp only [Cancelling.step] at hs
    split at hs <;> cases hs
    rename_i n site hw
    refine h.handles hw fun hsite => ?_
    rw [hsite] at hw
    exact hp n hw
  | atTop =>
    simp only [Cancelling.step] at hs
    split at hs <;> cases hs
    exact h.leaves_by_throw ‹_›
  | leave =>
    simp only [Cancelling.step] at hs
    split at hs <;> cases hs
    exact h.leaves ‹_›
  | cancelStop =>
    cases hs
    exact h.setting rfl rfl
  | stopNow =>
    cases hs
    exact h.setting rfl rfl
  | inWalk b =>
    cases hs
    exact h.setting rfl rfl
  | longStatement b =>
    cases hs
    exact h.setting rfl rfl
  | stops =>
    simp only [Cancelling.step] at hs
    split at hs
    · split at hs <;> cases hs
      exact h.asks ‹_› fun n hn => by cases hn
    · cases hs
  | reads now byPid cluster lost =>
    simp only [Cancelling.step] at hs
    split at hs
    · split at hs <;> cases hs
      exact h.reads ‹_› hp
    · cases hs
  | exchange =>
    simp only [Cancelling.step] at hs
    split at hs <;> cases hs
    exact h.exchanges ‹_› hp
  | send =>
    simp only [Cancelling.step] at hs
    split at hs <;> cases hs
    exact h.sends ‹_›

/-! ## Runs -/

/-- A job as its worker starts. -/
def Cancelling.fresh (job : Job) : Cancelling :=
  { job := job.withPacing fun p => { p with cancelRequested := false } }

theorem fresh_cancelInv (job : Job) : CancelInv (Cancelling.fresh job) where
  faithful := ⟨fun n hn => (List.not_mem_nil hn).elim, rfl⟩
  requesting n hn := by cases hn
  sending starved hn := by cases hn
  pending hflag := by cases hflag

def connectedJob : Job := { jobId := "1", connection := "main", workerConn := true }

/-- One session waits, and has waited for six seconds. -/
def longWait : Move :=
  .reads 0 (fun _ => some
    { direct := .number 1, transitive := .number 1, blockingWaiterPid := .number 71,
      oldestWaitMs := .number 6000, inflictedBlockedMs := .number 6000 }) (fun _ => none) false

/-- A batch is cancelled for a session that waits behind it. -/
def promptMoves : List Move := [.start .batch, longWait, .exchange, .send, .canceled, .handle]

/-- The cancellation is asked for between two statements, and the next one runs into its
timeout. -/
def pendingMoves : List Move := [longWait, .exchange, .send, .start .batch, .canceled, .handle]

/-- The same, and a session waits behind the next statement. -/
def suppressedMoves : List Move := [longWait, .exchange, .send, .start .batch, longWait, .exchange]

/-- A session on another node waits for a minute behind a batch, and the coordinator has no waiter
of its own to name: the null pid throws before the age is read, and nothing is cancelled. -/
theorem unread_missed :
    ∃ s, Cancelling.run {} [.start .batch, .reads 0 (fun _ => some nearWaitless) (fun _ => some
        { direct := .number 8, transitive := .number 8, oldestWaitUpperBoundMs := some 60000 })
        false] (.fresh connectedJob) = some s ∧
      s.missed = [0] ∧ s.hit = [] :=
  ⟨_, rfl, rfl, rfl⟩

end Jobs
end Laswell
