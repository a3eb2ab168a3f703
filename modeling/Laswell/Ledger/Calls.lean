import Mathlib.Data.List.Induction
import Laswell.Executor.Session

/-!
# Laswell.Ledger.Calls

What a job writes to the ledger, on the coordination session that `open_job` left: a row per step,
the row of the job, and the unlocking of its advisory locks. Any statement sent may fail, with an
exception that leaves the connection usable, and the callers swallow what is thrown.

* `beginStep`, `recordStep`, `rollBackSteps`, `finishJob`: the calls, as the source makes them.
* `Call`: one of them with what the server answers to its statements.
* `Recorded`: after every call of a run no transaction is open, a call whose statements succeed
  has taken effect, and a `finish_job` has released the locks.
-/

namespace Laswell
namespace Ledger

open Base Executor

/-! ## Rows -/

/-- `laswell.step.state`. -/
inductive StepState where
  | running
  | succeeded
  | rolledBack
  | failed
  | lockNotAcquired
  | skippedSatisfied
  | cancelled
  | interrupted
  deriving DecidableEq

/-- `laswell.job.state`: the states a process gives its job, and what a later run infers. -/
inductive Lifecycle where
  | of (s : Jobs.JobState)
  | interrupted
  deriving DecidableEq

/-- What the ledger copies of a planned step. -/
structure PlannedStep where
  txnGroup : Int := 0
  kind : String := ""
  txnClass : String := ""
  sql : List String := []
  why : String := ""
  deriving DecidableEq

structure StepRow where
  planned : PlannedStep
  state : StepState
  startedAt : Nat
  finishedAt : Option Nat
  rowsAffected : Option Int
  detail : String
  deriving DecidableEq

structure JobRow where
  state : Lifecycle
  finishedAt : Option Nat
  error : Option String
  deriving DecidableEq

/-- The rows of one job: its own, and one per step by ordinal. -/
structure Rows where
  job : JobRow
  steps : Nat → Option StepRow

def Rows.setStep (rows : Rows) (ordinal : Nat) (row : StepRow) : Rows :=
  { rows with steps := fun n => if n = ordinal then some row else rows.steps n }

def Rows.mapSteps (rows : Rows) (f : Nat → StepRow → StepRow) : Rows :=
  { rows with steps := fun n => (rows.steps n).map (f n) }

/-! ## The coordination session -/

/-- The statements of a call, by their place in it. `begin` is what `pqxx::work` sends when it is
made, `setup` the settings of the transaction. -/
inductive Statement where
  | begin
  | setup
  | write
  | writeSteps
  | commit
  | unlock (key : Int)
  deriving DecidableEq

/-- What the server answers during one call: which statements fail, the backend's pid as the setup
reads it, and the two clocks. -/
structure Replies where
  fails : Statement → Option Failure := fun _ => none
  pid : Option Int := none
  now : Nat := 0
  clockTimestamp : Nat := 0

/-- The ledger object and its session. `txn` is what the open transaction sees of the rows, `held`
the keys the object believes it holds, and `locks` those the server has for the session. -/
structure World where
  coordination : Bool := true
  backendPid : Int
  txn : Option Rows := none
  held : List Int
  rows : Rows
  locks : List Int

/-- As `open_job` leaves it. -/
def opened (backendPid : Int) (lockKeys : List Int) (rows : Rows) : World :=
  { backendPid := backendPid, held := lockKeys, rows := rows, locks := lockKeys }

abbrev Write (α : Type) := Prog World Failure α

section Writes

variable (r : Replies)

def serve (st : Statement) : Write Unit :=
  match r.fails st with
  | none => pure ()
  | some e => Prog.throw e

def pidChanged (pid now : Int) : Failure :=
  .runtime ("the backend pid changed from " ++ toString pid ++ " to " ++ toString now ++
    " between transactions, so this is not a direct connection to one PostgreSQL backend -- " ++
    "commonly a connection pooler (in ANY pool mode, session included), a proxy, or a load " ++
    "balancer in front of the server. pg_laswell's executor requires a direct connection; " ++
    "see the POOLERS section of man pg_laswell_mcp.")

def checkPid : Write Unit := do
  let pid ← Prog.gets World.backendPid
  match r.pid with
  | none => pure ()
  | some now => if now ≠ pid then Prog.throw (pidChanged pid now) else pure ()

/-- `WriteSession::begin`. The transaction is there as soon as the server has answered BEGIN, and
nothing takes it away when the setup fails. -/
def begin : Write Unit := do
  match ← Prog.gets World.txn with
  | some _ => Prog.throw (.runtime "WriteSession: a transaction is open")
  | none =>
    serve r .begin
    Prog.modify fun w => { w with txn := some w.rows }
    serve r .setup
    checkPid r

/-- `txn().exec` -/
def exec (st : Statement) (f : Rows → Rows) : Write Unit := do
  match ← Prog.gets World.txn with
  | none => Prog.throw (.runtime "WriteSession: no transaction is open")
  | some view =>
    serve r st
    Prog.modify fun w => { w with txn := some (f view) }

def commit : Write Unit := do
  match ← Prog.gets World.txn with
  | none => Prog.throw (.runtime "WriteSession: no transaction to commit")
  | some view =>
    serve r .commit
    Prog.modify fun w => { w with rows := view, txn := none }

def execNontransactionalTxn : Write Unit := do
  match ← Prog.gets World.txn with
  | some _ =>
    Prog.throw (.runtime "exec_nontransactional_txn called while a transaction is open")
  | none => pure ()

/-! ## The calls -/

/-- `INSERT … ON CONFLICT (job_id, ordinal) DO UPDATE SET state = 'running', finished_at = NULL` -/
def insertRunning (ordinal : Nat) (step : PlannedStep) (rows : Rows) : Rows :=
  rows.setStep ordinal <|
    match rows.steps ordinal with
    | some row => { row with state := .running, finishedAt := none }
    | none =>
      { planned := step, state := .running, startedAt := r.clockTimestamp, finishedAt := none,
        rowsAffected := none, detail := "{}" }

def upsertStep (ordinal : Nat) (step : PlannedStep) (state : StepState) (n : Int)
    (detail : String) (rows : Rows) : Rows :=
  rows.setStep ordinal <|
    match rows.steps ordinal with
    | some row =>
      { row with
        state := state, finishedAt := some r.clockTimestamp, rowsAffected := some n,
        detail := detail }
    | none =>
      { planned := step, state := state, startedAt := r.clockTimestamp,
        finishedAt := some r.clockTimestamp, rowsAffected := some n, detail := detail }

def markRolledBack (ordinals : List Nat) (rows : Rows) : Rows :=
  rows.mapSteps fun n row =>
    if n ∈ ordinals ∧ row.state = .succeeded then { row with state := .rolledBack } else row

def endJob (state : Jobs.JobState) (error : Option String) (rows : Rows) : Rows :=
  { rows with job := { state := .of state, finishedAt := some r.now, error := error } }

def endRunningSteps (state : Jobs.JobState) (rows : Rows) : Rows :=
  rows.mapSteps fun _ row =>
    if row.state = .running then
      { row with
        finishedAt := some r.clockTimestamp
        state := if state = .cancelled then .cancelled else .failed }
    else row

def execAll : List (Statement × (Rows → Rows)) → Write Unit
  | [] => pure ()
  | st :: writes => do
    exec r st.1 st.2
    execAll writes

/-- What the four writers have in common: begin, the statements in their order, commit. -/
def transaction (writes : List (Statement × (Rows → Rows))) : Write Unit := do
  begin r
  execAll r writes
  commit r

/-- `if (!coordination_) return;` -/
def withCoordination (p : Write Unit) : Write Unit := do
  match ← Prog.gets World.coordination with
  | true => p
  | false => pure ()

def beginStep (ordinal : Nat) (step : PlannedStep) : Write Unit :=
  withCoordination (transaction r [(.write, insertRunning r ordinal step)])

def recordStep (ordinal : Nat) (step : PlannedStep) (state : StepState) (n : Int)
    (detail : String) : Write Unit :=
  withCoordination (transaction r [(.write, upsertStep r ordinal step state n detail)])

def rollBackSteps (ordinals : List Nat) : Write Unit :=
  withCoordination <|
    match ordinals with
    | [] => pure ()
    | _ :: _ => transaction r [(.write, markRolledBack ordinals)]

def swallow (p : Write Unit) : Write Unit := Prog.tryCatch p fun _ => pure ()

def unlock (key : Int) : Write Unit := do
  execNontransactionalTxn
  serve r (.unlock key)
  Prog.modify fun w => { w with locks := w.locks.erase key }

def unlockEach : List Int → Write Unit
  | [] => pure ()
  | key :: keys => do
    swallow (unlock r key)
    unlockEach keys

def releaseLocks : Write Unit :=
  withCoordination do
    unlockEach r (← Prog.gets World.held)
    Prog.modify fun w => { w with held := [] }

def finishJob (state : Jobs.JobState) (error : Option String) : Write Unit :=
  withCoordination do
    swallow (transaction r [(.write, endJob r state error),
      (.writeSteps, endRunningSteps r state)])
    releaseLocks r

end Writes

/-! ## Runs of calls -/

inductive Op where
  | beginStep (ordinal : Nat) (step : PlannedStep)
  | recordStep (ordinal : Nat) (step : PlannedStep) (state : StepState) (rows : Int)
      (detail : String)
  | rollBackSteps (ordinals : List Nat)
  | finishJob (state : Jobs.JobState) (error : Option String)

/-- The statements of a call's transaction, between its setup and its commit. -/
def Op.writes (r : Replies) : Op → List (Statement × (Rows → Rows))
  | .beginStep ordinal step => [(.write, insertRunning r ordinal step)]
  | .recordStep ordinal step state n detail => [(.write, upsertStep r ordinal step state n detail)]
  | .rollBackSteps [] => []
  | .rollBackSteps (n :: ns) => [(.write, markRolledBack (n :: ns))]
  | .finishJob state error =>
    [(.write, endJob r state error), (.writeSteps, endRunningSteps r state)]

/-- What a call is for: the rows it leaves when it takes effect. -/
def Op.effect (r : Replies) (op : Op) (rows : Rows) : Rows :=
  (op.writes r).foldl (fun rows st => st.2 rows) rows

def Op.finishes : Op → Bool
  | .finishJob _ _ => true
  | _ => false

/-- A call, and what the server answers to its statements. -/
structure Call where
  op : Op
  replies : Replies := {}

def Call.perform (c : Call) : Write Unit :=
  match c.op with
  | .beginStep ordinal step => beginStep c.replies ordinal step
  | .recordStep ordinal step state n detail => recordStep c.replies ordinal step state n detail
  | .rollBackSteps ordinals => rollBackSteps c.replies ordinals
  | .finishJob state error => finishJob c.replies state error

/-- The executor swallows what a call throws. -/
def Call.run (c : Call) (w : World) : World := (swallow c.perform w).2

def runCalls (calls : List Call) (w : World) : World := calls.foldl (fun w c => c.run w) w

/-- The pid read by the setup is that of the session. -/
def Replies.samePid (r : Replies) (pid : Int) : Prop := r.pid = none ∨ r.pid = some pid

/-- What follows BEGIN succeeds: the setup, the writes and the commit. -/
def Replies.serves (r : Replies) (pid : Int) (writes : List (Statement × (Rows → Rows))) : Prop :=
  r.fails .setup = none ∧ r.samePid pid ∧ (∀ st ∈ writes, r.fails st.1 = none) ∧
    r.fails .commit = none

def Call.written (c : Call) (pid : Int) : Prop :=
  c.replies.serves pid (c.op.writes c.replies)

/-- Every statement of the call's transaction succeeds. -/
def Call.served (c : Call) (pid : Int) : Prop :=
  c.replies.fails .begin = none ∧ c.written pid

/-- What is promised of a call made in `w`. -/
structure Call.Kept (c : Call) (w : World) : Prop where
  closed : (c.run w).txn = none
  effective : c.served w.backendPid → (c.run w).rows = c.op.effect c.replies w.rows
  released : c.op.finishes = true → (∀ k ∈ w.held, c.replies.fails (.unlock k) = none) →
    (c.run w).locks = []

/-- The promise is kept by every call of the run. -/
def Recorded (w : World) (calls : List Call) : Prop :=
  ∀ earlier c later, calls = earlier ++ c :: later → c.Kept (runCalls earlier w)

/-- The call sends nothing, is refused at BEGIN, or has all that follows BEGIN succeed. -/
def Call.Harmless (pid : Int) (c : Call) : Prop :=
  c.op.writes c.replies = [] ∨ c.replies.fails .begin ≠ none ∨ c.written pid

/-- Where a `finish_job` could not unlock one of the keys, there is no other after it. -/
def UnlockedOnce (lockKeys : List Int) (calls : List Call) : Prop :=
  ∀ earlier c later, calls = earlier ++ c :: later → c.op.finishes = true →
    (∃ k ∈ lockKeys, c.replies.fails (.unlock k) ≠ none) →
    (∃ d ∈ earlier, d.op.finishes = true) ∨ ∀ d ∈ later, d.op.finishes = false

/-! ## One transaction -/

section Transaction

variable {r : Replies} {w : World} {writes : List (Statement × (Rows → Rows))}

@[simp] theorem swallow_state (p : Write Unit) (w : World) : (swallow p w).2 = (p w).2 := by
  rcases h : p w with ⟨o, w'⟩
  cases o with
  | ok a => simp [swallow, Prog.tryCatch, h]
  | err e => simp [swallow, Prog.tryCatch, h, pure, Prog.pure]
  | out => simp [swallow, Prog.tryCatch, h]

theorem serve_none {st : Statement} (h : r.fails st = none) : serve r st w = (.ok (), w) := by
  rw [serve, h]
  rfl

theorem serve_some {st : Statement} {e : Failure} (h : r.fails st = some e) :
    serve r st w = (.err e, w) := by
  rw [serve, h]
  rfl

variable (r writes) in
/-- A transaction was left open: whatever the server would answer, the call is refused. -/
theorem transaction_refused (h : w.txn ≠ none) : ∃ e, transaction r writes w = (.err e, w) := by
  obtain ⟨view, hv⟩ := Option.ne_none_iff_exists'.mp h
  have hbegin : begin r w = (.err (.runtime "WriteSession: a transaction is open"), w) := by
    rw [begin, Prog.bind_gets, hv]
    rfl
  exact ⟨_, Prog.bind_err hbegin⟩

theorem begin_failed {e : Failure} (hw : w.txn = none) (h : r.fails .begin = some e) :
    begin r w = (.err e, w) := by
  rw [begin, Prog.bind_gets, hw]
  exact Prog.bind_err (serve_some h)

theorem checkPid_cases :
    (r.samePid w.backendPid ∧ checkPid r w = (.ok (), w)) ∨
    (¬ r.samePid w.backendPid ∧ ∃ e, checkPid r w = (.err e, w)) := by
  rw [checkPid, Prog.bind_gets]
  cases hr : r.pid with
  | none => exact .inl ⟨.inl hr, rfl⟩
  | some now =>
    by_cases hn : now = w.backendPid
    · refine .inl ⟨.inr (by rw [hr, hn]), ?_⟩
      simp [hn, pure, Prog.pure]
    · refine .inr ⟨by simp [Replies.samePid, hr, hn], pidChanged w.backendPid now, ?_⟩
      simp [hn, Prog.throw]

/-- What the setup comes to, once BEGIN was answered. -/
theorem begin_answered (hw : w.txn = none) (h : r.fails .begin = none) :
    (r.fails .setup = none ∧ r.samePid w.backendPid ∧
      begin r w = (.ok (), { w with txn := some w.rows })) ∨
    (¬ (r.fails .setup = none ∧ r.samePid w.backendPid) ∧
      ∃ e, begin r w = (.err e, { w with txn := some w.rows })) := by
  have hrun : begin r w =
      (serve r .setup >>= fun _ => checkPid r) { w with txn := some w.rows } := by
    rw [begin, Prog.bind_gets, hw]
    exact (Prog.bind_ok (serve_none h)).trans Prog.bind_modify
  rw [hrun]
  cases hs : r.fails .setup with
  | some e => exact .inr ⟨by simp, e, Prog.bind_err (serve_some hs)⟩
  | none =>
    rw [Prog.bind_ok (serve_none hs)]
    rcases checkPid_cases (r := r) (w := { w with txn := some w.rows }) with
      ⟨hp, hok⟩ | ⟨hp, e, herr⟩
    · exact .inl ⟨rfl, hp, hok⟩
    · exact .inr ⟨fun h => hp h.2, e, herr⟩

variable (r writes) in
/-- The writes of an open transaction: all of them are in its view, or one failed and the
transaction is as open as it was. -/
theorem execAll_cases {view : Rows} (hw : w.txn = some view) :
    ((∀ st ∈ writes, r.fails st.1 = none) ∧ execAll r writes w =
      (.ok (), { w with txn := some (writes.foldl (fun rows st => st.2 rows) view) })) ∨
    (¬ (∀ st ∈ writes, r.fails st.1 = none) ∧
      ∃ e view', execAll r writes w = (.err e, { w with txn := some view' })) := by
  induction writes generalizing w view with
  | nil =>
    refine .inl ⟨by simp, ?_⟩
    simp [execAll, pure, Prog.pure, ← hw]
  | cons st writes ih =>
    have hstart : exec r st.1 st.2 w = (serve r st.1 >>= fun _ =>
        Prog.modify fun w => { w with txn := some (st.2 view) }) w := by
      rw [exec, Prog.bind_gets, hw]
    cases hst : r.fails st.1 with
    | some e =>
      refine .inr ⟨fun h => ?_, e, view, ?_⟩
      · have := h st (by simp)
        rw [hst] at this
        cases this
      · rw [← hw]
        exact Prog.bind_err (hstart.trans (Prog.bind_err (serve_some hst)))
    | none =>
      have hexec : exec r st.1 st.2 w = (.ok (), { w with txn := some (st.2 view) }) :=
        hstart.trans (Prog.bind_ok (serve_none hst))
      have hall : (∀ st' ∈ st :: writes, r.fails st'.1 = none) ↔
          ∀ st' ∈ writes, r.fails st'.1 = none := by simp [hst]
      rw [execAll, Prog.bind_ok hexec, hall]
      exact ih rfl

theorem commit_cases {view : Rows} (hw : w.txn = some view) :
    (r.fails .commit = none ∧ commit r w = (.ok (), { w with rows := view, txn := none })) ∨
    (r.fails .commit ≠ none ∧ ∃ e, commit r w = (.err e, w)) := by
  rw [commit, Prog.bind_gets, hw]
  cases hc : r.fails .commit with
  | none => exact .inl ⟨rfl, Prog.bind_ok (serve_none hc)⟩
  | some e => exact .inr ⟨by simp, e, Prog.bind_err (serve_some hc)⟩

variable (r writes) in
/-- The three ways a writer's transaction can go, from a session that has none: refused at BEGIN
and nothing happened, every statement served and the rows are written, or a later statement failed
and the transaction stays open. -/
theorem transaction_cases (hw : w.txn = none) :
    (r.fails .begin ≠ none ∧ ∃ e, transaction r writes w = (.err e, w)) ∨
    (r.fails .begin = none ∧ r.serves w.backendPid writes ∧ transaction r writes w =
      (.ok (), { w with rows := writes.foldl (fun rows st => st.2 rows) w.rows })) ∨
    (r.fails .begin = none ∧ ¬ r.serves w.backendPid writes ∧
      ∃ e view, transaction r writes w = (.err e, { w with txn := some view })) := by
  cases hb : r.fails .begin with
  | some e => exact .inl ⟨by simp, e, Prog.bind_err (begin_failed hw hb)⟩
  | none =>
    refine .inr ?_
    rcases begin_answered hw hb with ⟨hs, hp, hbegin⟩ | ⟨hno, e, hbegin⟩
    · rw [transaction, Prog.bind_ok hbegin]
      rcases execAll_cases r writes (w := { w with txn := some w.rows }) rfl with
        ⟨hok, hwrites⟩ | ⟨hno, e, view, hwrites⟩
      · rw [Prog.bind_ok hwrites]
        rcases commit_cases (r := r)
            (w := { w with txn := some (writes.foldl (fun rows st => st.2 rows) w.rows) }) rfl with
          ⟨hc, hcommit⟩ | ⟨hc, e, hcommit⟩
        · refine .inl ⟨rfl, ⟨hs, hp, hok, hc⟩, ?_⟩
          rw [hw]
          exact hcommit
        · exact .inr ⟨rfl, fun h => hc h.2.2.2, e, _, hcommit⟩
      · exact .inr ⟨rfl, fun h => hno h.2.2.1, e, view, Prog.bind_err hwrites⟩
    · exact .inr ⟨rfl, fun h => hno ⟨h.1, h.2.1⟩, e, w.rows, Prog.bind_err hbegin⟩

variable (r writes) in
theorem transaction_ne_out : (transaction r writes w).1 ≠ .out := by
  by_cases hw : w.txn = none
  · rcases transaction_cases r writes hw with
      ⟨-, e, h⟩ | ⟨-, -, h⟩ | ⟨-, -, e, view, h⟩ <;> simp [h]
  · obtain ⟨e, h⟩ := transaction_refused r writes hw
    simp [h]

end Transaction

/-! ## The locks -/

section Locks

variable {r : Replies} {w : World}

/-- The locks left by unlocking `keys` one after the other. -/
def unlocked (r : Replies) (keys locks : List Int) : List Int :=
  keys.foldl (fun locks k => if r.fails (.unlock k) = none then locks.erase k else locks) locks

theorem unlocked_cons (k : Int) (keys locks : List Int) :
    unlocked r (k :: keys) locks =
      unlocked r keys (if r.fails (.unlock k) = none then locks.erase k else locks) := rfl

/-- What stays locked are the keys whose unlocking failed. -/
theorem unlocked_perm (keys : List Int) {locks kept : List Int} (h : locks.Perm (keys ++ kept)) :
    (unlocked r keys locks).Perm
      (keys.filter (fun k => (r.fails (.unlock k)).isSome) ++ kept) := by
  induction keys generalizing locks kept with
  | nil => simpa [unlocked] using h
  | cons k keys ih =>
    rw [unlocked_cons]
    by_cases hk : r.fails (.unlock k) = none
    · have herase : (locks.erase k).Perm (keys ++ kept) := by simpa using h.erase k
      simpa [hk] using ih herase
    · have hsome : (r.fails (.unlock k)).isSome = true := by
        simpa [Option.isSome_iff_ne_none] using hk
      have hmove : locks.Perm (keys ++ k :: kept) := h.trans List.perm_middle.symm
      have hrest := ih hmove
      simp only [hk, if_false, List.filter_cons, hsome, if_true]
      exact hrest.trans List.perm_middle

theorem swallow_ok {p : Write Unit} (h : (p w).1 ≠ .out) : swallow p w = (.ok (), (p w).2) := by
  rcases hp : p w with ⟨o, w'⟩
  cases o with
  | ok a => simp [swallow, Prog.tryCatch, hp]
  | err e => simp [swallow, Prog.tryCatch, hp, pure, Prog.pure]
  | out => simp [hp] at h

theorem unlock_open (k : Int) (hw : w.txn ≠ none) : ∃ e, unlock r k w = (.err e, w) := by
  obtain ⟨view, hv⟩ := Option.ne_none_iff_exists'.mp hw
  refine ⟨_, Prog.bind_err (e := .runtime
    "exec_nontransactional_txn called while a transaction is open") ?_⟩
  rw [execNontransactionalTxn, Prog.bind_gets, hv]
  rfl

theorem unlock_closed (k : Int) (hw : w.txn = none) :
    (unlock r k w).1 ≠ .out ∧ (unlock r k w).2 =
      { w with locks := if r.fails (.unlock k) = none then w.locks.erase k else w.locks } := by
  have hnone : execNontransactionalTxn w = (.ok (), w) := by
    rw [execNontransactionalTxn, Prog.bind_gets, hw]
    rfl
  rw [unlock, Prog.bind_ok hnone]
  cases hk : r.fails (.unlock k) with
  | none =>
    rw [Prog.bind_ok (serve_none hk)]
    simp [Prog.modify]
  | some e =>
    rw [Prog.bind_err (serve_some hk)]
    simp

theorem unlockEach_open (keys : List Int) (hw : w.txn ≠ none) :
    unlockEach r keys w = (.ok (), w) := by
  induction keys with
  | nil => rfl
  | cons k keys ih =>
    obtain ⟨e, he⟩ := unlock_open (r := r) k hw
    have hswallow : swallow (unlock r k) w = (.ok (), w) := by
      rw [swallow_ok (by simp [he]), he]
    rw [unlockEach, Prog.bind_ok hswallow, ih]

theorem unlockEach_closed (keys : List Int) (hw : w.txn = none) :
    unlockEach r keys w = (.ok (), { w with locks := unlocked r keys w.locks }) := by
  induction keys generalizing w with
  | nil => rfl
  | cons k keys ih =>
    obtain ⟨hout, hstate⟩ := unlock_closed (r := r) k hw
    have hswallow : swallow (unlock r k) w = (.ok (), { w with
        locks := if r.fails (.unlock k) = none then w.locks.erase k else w.locks }) := by
      rw [swallow_ok hout, hstate]
    rw [unlockEach, Prog.bind_ok hswallow]
    exact ih hw

theorem withCoordination_set {p : Write Unit} (hc : w.coordination = true) :
    withCoordination p w = p w := by
  rw [withCoordination, Prog.bind_gets, hc]

/-- With a transaction open no unlocking is tried, and the keys are forgotten all the same. -/
theorem releaseLocks_open (hc : w.coordination = true) (hw : w.txn ≠ none) :
    (releaseLocks r w).2 = { w with held := [] } := by
  rw [releaseLocks, withCoordination_set hc, Prog.bind_gets,
    Prog.bind_ok (unlockEach_open w.held hw)]
  rfl

theorem releaseLocks_closed (hc : w.coordination = true) (hw : w.txn = none) :
    (releaseLocks r w).2 = { w with locks := unlocked r w.held w.locks, held := [] } := by
  rw [releaseLocks, withCoordination_set hc, Prog.bind_gets,
    Prog.bind_ok (unlockEach_closed w.held hw)]
  rfl

end Locks

/-! ## One call -/

section Calls

variable {c : Call} {w : World}

/-- The state a call leaves: that of its transaction, with the locks released if it finishes. -/
theorem Call.run_eq (hc : w.coordination = true) :
    c.run w =
      if c.op.writes c.replies = [] then w
      else if c.op.finishes then
        (releaseLocks c.replies (transaction c.replies (c.op.writes c.replies) w).2).2
      else (transaction c.replies (c.op.writes c.replies) w).2 := by
  obtain ⟨op, r⟩ := c
  rw [Call.run, swallow_state]
  cases op with
  | beginStep ordinal step => exact congrArg Prod.snd (withCoordination_set hc)
  | recordStep ordinal step state n detail => exact congrArg Prod.snd (withCoordination_set hc)
  | rollBackSteps ordinals =>
    have hrun := congrArg Prod.snd (withCoordination_set (p := match ordinals with
      | [] => pure ()
      | _ :: _ => transaction r [(.write, markRolledBack ordinals)]) hc)
    cases ordinals with
    | nil => exact hrun
    | cons n ns => exact hrun
  | finishJob state error =>
    have hend := swallow_ok (w := w) (transaction_ne_out r
      [(.write, endJob r state error), (.writeSteps, endRunningSteps r state)])
    refine (congrArg Prod.snd (withCoordination_set hc)).trans ?_
    rw [Prog.bind_ok hend]
    rfl

theorem Op.finishes_writes {op : Op} {r : Replies} (h : op.finishes = true) : op.writes r ≠ [] := by
  cases op <;> simp [Op.finishes, Op.writes] at h ⊢

/-- A harmless call made with no transaction open leaves none. Its rows are written unless BEGIN
was refused, and it unlocks what it can. -/
theorem Call.run_harmless (hc : w.coordination = true) (hw : w.txn = none)
    (h : c.Harmless w.backendPid) :
    c.run w = { w with
      rows := if c.replies.fails .begin = none then c.op.effect c.replies w.rows else w.rows
      held := if c.op.finishes then [] else w.held
      locks := if c.op.finishes then unlocked c.replies w.held w.locks else w.locks } := by
  rw [Call.run_eq hc]
  by_cases hnil : c.op.writes c.replies = []
  · have hf : c.op.finishes = false := by
      by_contra hf
      exact Op.finishes_writes (by simpa using hf) hnil
    simp [hnil, hf, Op.effect]
  · rw [if_neg hnil]
    rcases transaction_cases c.replies (c.op.writes c.replies) hw with
      ⟨hb, e, hrun⟩ | ⟨hb, hs, hrun⟩ | ⟨hb, hs, e, view, hrun⟩
    · rw [hrun, if_neg hb]
      split
      · exact releaseLocks_closed hc hw
      · rfl
    · rw [hrun, if_pos hb]
      split
      · exact releaseLocks_closed (w := { w with rows := c.op.effect c.replies w.rows }) hc hw
      · rfl
    · rcases h with h | h | h
      · exact absurd h hnil
      · exact absurd hb h
      · exact absurd h hs

/-- Any other call leaves its transaction open. -/
theorem Call.run_harmful (hc : w.coordination = true) (hw : w.txn = none)
    (h : ¬ c.Harmless w.backendPid) : (c.run w).txn ≠ none := by
  have hnil : c.op.writes c.replies ≠ [] := fun hnil => h (.inl hnil)
  rw [Call.run_eq hc, if_neg hnil]
  rcases transaction_cases c.replies (c.op.writes c.replies) hw with
    ⟨hb, -⟩ | ⟨-, hs, -⟩ | ⟨-, -, e, view, hrun⟩
  · exact absurd (.inr (.inl hb)) h
  · exact absurd (.inr (.inr hs)) h
  · rw [hrun]
    have hopen : ({ w with txn := some view } : World).txn ≠ none := by simp
    split
    · rw [releaseLocks_open (w := { w with txn := some view }) hc hopen]
      exact hopen
    · exact hopen

end Calls

/-! ## Runs -/

section Runs

variable {pid : Int} {lockKeys : List Int} {rows : Rows} {calls : List Call}

theorem runCalls_concat (calls : List Call) (c : Call) (w : World) :
    runCalls (calls ++ [c]) w = c.run (runCalls calls w) := by
  simp [runCalls]

/-- The keys a `finish_job` could not unlock. -/
def Call.stuck (lockKeys : List Int) (c : Call) : List Int :=
  lockKeys.filter fun k => (c.replies.fails (.unlock k)).isSome

theorem Call.stuck_eq_nil {c : Call} :
    c.stuck lockKeys = [] ↔ ∀ k ∈ lockKeys, c.replies.fails (.unlock k) = none := by
  simp [Call.stuck, List.filter_eq_nil_iff]

variable (lockKeys) in
theorem Call.stuck_perm (c : Call) :
    (unlocked c.replies lockKeys lockKeys).Perm (c.stuck lockKeys) := by
  have hself : lockKeys.Perm (lockKeys ++ []) := by simp
  simpa [Call.stuck] using unlocked_perm (r := c.replies) lockKeys hself

/-- The session after harmless calls. Its locks are those of the job until the first `finish_job`,
and from then on what that call could not unlock. -/
structure Settled (pid : Int) (lockKeys : List Int) (calls : List Call) (w : World) : Prop where
  coordination : w.coordination = true
  closed : w.txn = none
  backendPid : w.backendPid = pid
  locks : match calls.find? (fun c => c.op.finishes) with
    | none => w.held = lockKeys ∧ w.locks = lockKeys
    | some c => w.held = [] ∧ w.locks.Perm (c.stuck lockKeys)

theorem Settled.concat {w : World} {c : Call} (h : Settled pid lockKeys calls w)
    (hc : c.Harmless pid) : Settled pid lockKeys (calls ++ [c]) (c.run w) := by
  have hrun := Call.run_harmless h.coordination h.closed (by rw [h.backendPid]; exact hc)
  have hlocks := h.locks
  refine ⟨by rw [hrun]; exact h.coordination, by rw [hrun]; exact h.closed,
    by rw [hrun]; exact h.backendPid, ?_⟩
  rw [List.find?_append, hrun]
  cases hf : calls.find? (fun c => c.op.finishes) with
  | some f =>
    rw [hf] at hlocks
    obtain ⟨hheld, hperm⟩ := hlocks
    by_cases hfin : c.op.finishes = true
    · simpa [hfin, hheld, unlocked] using hperm
    · simpa [hfin, hheld] using hperm
  | none =>
    rw [hf] at hlocks
    obtain ⟨hheld, heq⟩ := hlocks
    by_cases hfin : c.op.finishes = true
    · simpa [hfin, hheld, heq] using c.stuck_perm lockKeys
    · simp [hfin, hheld, heq]

variable (lockKeys rows) in
theorem settled_run (h : ∀ c ∈ calls, c.Harmless pid) :
    Settled pid lockKeys calls (runCalls calls (opened pid lockKeys rows)) := by
  induction calls using List.reverseRecOn with
  | nil => exact ⟨rfl, rfl, rfl, rfl, rfl⟩
  | append_singleton calls c ih =>
    rw [runCalls_concat]
    exact (ih fun d hd => h d (by simp [hd])).concat (h c (by simp))

/-- In a run that keeps its promise every call was harmless: the first that is not leaves its
transaction open. -/
theorem harmless_of_recorded (h : Recorded (opened pid lockKeys rows) calls) :
    ∀ c ∈ calls, c.Harmless pid := by
  induction calls using List.reverseRecOn with
  | nil => simp
  | append_singleton calls c ih =>
    have hcalls : ∀ d ∈ calls, d.Harmless pid := by
      refine ih fun earlier d later heq => ?_
      exact h earlier d (later ++ [c]) (by simp [heq])
    have hsettled := settled_run lockKeys rows hcalls
    have hc : c.Harmless pid := by
      by_contra hno
      rw [← hsettled.backendPid] at hno
      exact Call.run_harmful hsettled.coordination hsettled.closed hno (h calls c [] rfl).closed
    intro d hd
    rcases List.mem_append.mp hd with hd | hd
    · exact hcalls d hd
    · rw [List.mem_singleton.mp hd]
      exact hc

/-- After a `finish_job` that could not unlock a key no call unlocks it: it is forgotten. -/
theorem unlockedOnce_of_recorded (h : Recorded (opened pid lockKeys rows) calls) :
    UnlockedOnce lockKeys calls := by
  intro earlier c later heq hfin hstuck
  by_contra hno
  push Not at hno
  obtain ⟨hfirst, d, hd, hdfin⟩ := hno
  obtain ⟨between, rest, rfl⟩ := List.append_of_mem hd
  have hall := harmless_of_recorded h
  have hearlier : ∀ e ∈ earlier ++ c :: between, e.Harmless pid := by
    intro e he
    refine hall e ?_
    rw [heq]
    simp only [List.mem_append, List.mem_cons] at he ⊢
    tauto
  have hsettled := settled_run lockKeys rows hearlier
  have hfind : (earlier ++ c :: between).find? (fun c => c.op.finishes) = some c := by
    rw [List.find?_append, List.find?_eq_none.mpr (by simpa using hfirst)]
    simp [hfin]
  have hlocks := hsettled.locks
  rw [hfind] at hlocks
  obtain ⟨hheld, hperm⟩ := hlocks
  have hdrun := Call.run_harmless hsettled.coordination hsettled.closed
    (c := d) (by rw [hsettled.backendPid]; exact hall d (by simp [heq]))
  have hempty := (h (earlier ++ c :: between) d rest (by simp [heq])).released
    (by simpa using hdfin) (by simp [hheld])
  rw [hdrun] at hempty
  simp only [hheld, unlocked, List.foldl_nil, ite_self] at hempty
  rw [hempty] at hperm
  obtain ⟨k, hk, hfail⟩ := hstuck
  exact hfail (Call.stuck_eq_nil.mp (List.nil_perm.mp hperm) k hk)

/-- Where the keys were unlocked at once, a `finish_job` leaves none locked. -/
theorem Settled.released {w : World} {c : Call} {later : List Call}
    (h : Settled pid lockKeys calls w) (honce : UnlockedOnce lockKeys (calls ++ c :: later))
    (hfin : c.op.finishes = true) (hunlock : ∀ k ∈ w.held, c.replies.fails (.unlock k) = none) :
    unlocked c.replies w.held w.locks = [] := by
  have hlocks := h.locks
  cases hf : calls.find? (fun c => c.op.finishes) with
  | none =>
    rw [hf] at hlocks
    obtain ⟨hheld, heq⟩ := hlocks
    rw [hheld] at hunlock
    have hperm := c.stuck_perm lockKeys
    rw [Call.stuck_eq_nil.mpr hunlock] at hperm
    rw [hheld, heq]
    exact hperm.eq_nil
  | some f =>
    rw [hf] at hlocks
    obtain ⟨hheld, hperm⟩ := hlocks
    obtain ⟨hffin, before, after, hsplit, hbefore⟩ := List.find?_eq_some_iff_append.mp hf
    have hnil : f.stuck lockKeys = [] := by
      rw [Call.stuck_eq_nil]
      by_contra hno
      push Not at hno
      rcases honce before f (after ++ c :: later) (by simp [hsplit]) hffin hno with
        ⟨d, hd, hdfin⟩ | hlater
      · simpa [hdfin] using hbefore d hd
      · have hc := hlater c (by simp)
        rw [hfin] at hc
        cases hc
    rw [hnil] at hperm
    rw [hheld]
    exact hperm.eq_nil

/-- The ledger of a job is written and its locks are released, whatever fails and in every run of
calls, exactly when no statement fails after a BEGIN that was answered, and after a `finish_job`
that could not unlock a key there is no other. -/
theorem recorded_iff (pid : Int) (lockKeys : List Int) (rows : Rows) (calls : List Call) :
    Recorded (opened pid lockKeys rows) calls ↔
      (∀ c ∈ calls, c.Harmless pid) ∧ UnlockedOnce lockKeys calls := by
  constructor
  · intro h
    exact ⟨harmless_of_recorded h, unlockedOnce_of_recorded h⟩
  · rintro ⟨hall, honce⟩ earlier c later rfl
    have hearlier : ∀ e ∈ earlier, e.Harmless pid := fun e he => hall e (by simp [he])
    have hsettled := settled_run lockKeys rows hearlier
    have hrun := Call.run_harmless hsettled.coordination hsettled.closed
      (c := c) (by rw [hsettled.backendPid]; exact hall c (by simp))
    refine ⟨by rw [hrun]; exact hsettled.closed, fun hserved => ?_, fun hfin hunlock => ?_⟩
    · rw [hrun]
      simp [hserved.1]
    · rw [hrun]
      simp only [hfin, if_true]
      exact hsettled.released honce hfin hunlock

/-- A job under way, whose session holds one lock. -/
def underWay : World :=
  opened 7 [42] { job := ⟨.of .running, none, none⟩, steps := fun _ => none }

/-- A `begin_step` whose INSERT times out, then a `finish_job` the server would serve. -/
def insertTimedOut : List Call :=
  [{ op := .beginStep 1 { kind := "create_table" },
     replies := { fails := fun st =>
       if st = .write then some (.sql .lockNotAvailable "lock timeout") else none } },
   { op := .finishJob .succeeded none }]

theorem insertTimedOut_not_recorded :
    (runCalls insertTimedOut underWay).rows.job.state = .of .running ∧
      (runCalls insertTimedOut underWay).locks = [42] ∧
      ¬ Recorded underWay insertTimedOut := by
  refine ⟨rfl, rfl, fun h => ?_⟩
  have hfinish := h [_] _ [] rfl
  have hstate := congrArg (fun rows => rows.job.state)
    (hfinish.effective ⟨rfl, rfl, .inl rfl, fun _ _ => rfl, rfl⟩)
  have hrunning : Lifecycle.of .running = .of .succeeded := hstate
  exact absurd hrunning (by decide)

end Runs

end Ledger
end Laswell
