import Laswell.Executor.Walk

/-!
# Laswell.Executor.WalkSpec

What a walk leaves behind, whatever comes of it: the job's record, the job's log, and the log of
the walk's own cursors. `P` is any relation between a cursor and the data that the statements of
the walk keep (`WalkSql.Sweeps`).

* `CancelsFirst`: each batch the observer had cancelled was the first of its transaction.
* `Faithful`: each cursor was committed with data it tells the truth about, and each transaction
  began at the cursor committed last.
* `runBackfill_spec`: a walk whose log is `CancelsFirst` has a `Faithful` one.
-/

namespace Laswell
namespace Executor

open Base Jobs

variable {δ : Type}

/-! ## The walk's log -/

/-- Each batch the observer had cancelled was the first of its transaction. -/
def CancelsFirst : List (WalkEvent δ) → Prop
  | [] => True
  | .batchCancelled :: rest => (∃ c log, rest = .began c :: log) ∧ CancelsFirst rest
  | .began _ :: rest => CancelsFirst rest
  | .batch _ :: rest => CancelsFirst rest
  | .committed _ _ :: rest => CancelsFirst rest

instance decidableBegan : ∀ log : List (WalkEvent δ), Decidable (∃ c rest, log = .began c :: rest)
  | .began c :: rest => isTrue ⟨c, rest, rfl⟩
  | [] => isFalse (by simp)
  | .batch _ :: _ => isFalse (by simp)
  | .batchCancelled :: _ => isFalse (by simp)
  | .committed _ _ :: _ => isFalse (by simp)

instance decidableCancelsFirst : ∀ log : List (WalkEvent δ), Decidable (CancelsFirst log)
  | [] => isTrue trivial
  | .batchCancelled :: rest =>
    have := decidableCancelsFirst rest
    inferInstanceAs (Decidable ((∃ c log, rest = .began c :: log) ∧ CancelsFirst rest))
  | .began _ :: rest => decidableCancelsFirst rest
  | .batch _ :: rest => decidableCancelsFirst rest
  | .committed _ _ :: rest => decidableCancelsFirst rest

/-- The cursor of the last committed transaction. -/
def lastCommitted (start : String) : List (WalkEvent δ) → String
  | [] => start
  | .committed c _ :: _ => c
  | .began _ :: rest => lastCommitted start rest
  | .batch _ :: rest => lastCommitted start rest
  | .batchCancelled :: rest => lastCommitted start rest

def Faithful (P : String → δ → Prop) (start : String) : List (WalkEvent δ) → Prop
  | [] => True
  | .committed c d :: rest => P c d ∧ Faithful P start rest
  | .began c :: rest => c = lastCommitted start rest ∧ Faithful P start rest
  | .batch _ :: rest => Faithful P start rest
  | .batchCancelled :: rest => Faithful P start rest

/-! ## The job's log -/

/-- Nothing was said of the job but that it runs, or waits. -/
def Calm (log : List JobEvent) : Prop :=
  ∀ e ∈ log, e = .published .running ∨ e = .published .pausedContention

def JobQuiet (w : World δ) : Prop := Calm w.jobLog ∧ isTerminal w.jobState = false

def JobCancelled (w : World δ) : Prop :=
  ∃ log, w.jobLog = .published .cancelled :: .finished .cancelled :: log ∧ Calm log ∧
    w.jobState = .cancelled

/-- A pause lasted too long: the state is said, and `finish_job` has not been called. -/
def JobExpired (w : World δ) : Prop :=
  ∃ log, w.jobLog = .published .abortedContention :: .pauseExpired :: log ∧ Calm log ∧
    w.jobState = .abortedContention

/-! ## Between two statements of a walk -/

section

variable (P : String → δ → Prop) (start : String) (n : Nat) (S : List StepRecord) (K : List Nat)

/-- The job's record since the walk began: the steps are as they were, and nothing was kept but of
this step. -/
def Unrecorded (w : World δ) : Prop :=
  w.steps = S ∧ w.uncommitted = [] ∧ ∃ m, w.kept = K ++ List.replicate m n

/-- No transaction is open. -/
def Idle (w : World δ) : Prop :=
  w.txn = none ∧ Unrecorded n S K w ∧ JobQuiet w ∧
    (CancelsFirst w.walkLog → Faithful P start w.walkLog)

/-- No transaction is open, and the walk is at `c`. -/
def AtRest (c : String) (w : World δ) : Prop :=
  Idle P start n S K w ∧
    (CancelsFirst w.walkLog → lastCommitted start w.walkLog = c ∧ P c w.durable.data)

/-- In a transaction that began at `c₀` and has come to `c`. -/
def InTxn (c₀ c : String) (w : World δ) : Prop :=
  (∃ t, w.txn = some t ∧ t.work = [n] ∧ (CancelsFirst w.walkLog → P c t.view.data)) ∧
    Unrecorded n S K w ∧ JobQuiet w ∧
    (CancelsFirst w.walkLog → Faithful P start w.walkLog ∧ lastCommitted start w.walkLog = c₀ ∧
      P c₀ w.durable.data ∧ ∀ c' log, w.walkLog = .began c' :: log → c = c₀)

/-- The walk was broken off by an exception, or cut short. -/
def Broken (w : World δ) : Prop :=
  (w.steps = S ∨ ∃ rows, w.steps = S ++ [⟨n, .failed, rows⟩]) ∧ w.uncommitted = [] ∧
    (∃ m, w.kept = K ++ List.replicate m n) ∧ (JobQuiet w ∨ JobExpired w) ∧
    (CancelsFirst w.walkLog → Faithful P start w.walkLog)

/-- The job was cancelled, and has said so. -/
def Stopped (w : World δ) : Prop :=
  w.txn = none ∧ Unrecorded n S K w ∧ JobCancelled w ∧
    (CancelsFirst w.walkLog → Faithful P start w.walkLog)

/-- The step succeeded. -/
def Walked (w : World δ) : Prop :=
  w.txn = none ∧ (∃ rows, w.steps = S ++ [⟨n, .succeeded, rows⟩]) ∧ w.uncommitted = [] ∧
    (∃ m, w.kept = K ++ List.replicate (m + 1) n) ∧ JobQuiet w ∧
    (CancelsFirst w.walkLog → Faithful P start w.walkLog)

end

section Specs

variable {P : String → δ → Prop} {start : String} {n : Nat} {S : List StepRecord} {K : List Nat}
  {w : World δ} {env : Env}

theorem Idle.broken (h : Idle P start n S K w) (k : Nat) (x : Option (Txn δ)) :
    Broken P start n S K { w with tick := k, txn := x } := by
  obtain ⟨-, ⟨hsteps, hun, hkept⟩, hjob, hlog⟩ := h
  exact ⟨.inl hsteps, hun, hkept, .inl hjob, hlog⟩

theorem InTxn.broken {c₀ c : String} (h : InTxn P start n S K c₀ c w) (k : Nat)
    (x : Option (Txn δ)) : Broken P start n S K { w with tick := k, txn := x } := by
  obtain ⟨-, ⟨hsteps, hun, hkept⟩, hjob, hlog⟩ := h
  exact ⟨.inl hsteps, hun, hkept, .inl hjob, fun hc => (hlog hc).1⟩

theorem Idle.cancelled_wp (h : Idle P start n S K w) {α : Type} {a : α}
    {Q : Outcome Failure α → World δ → Prop} (hQ : ∀ w', Stopped P start n S K w' → Q (.ok a) w') :
    (do cancelled; pure a : Exec δ α).Wp Q w := by
  obtain ⟨htxn, hrec, ⟨hcalm, -⟩, hlog⟩ := h
  exact hQ _ ⟨htxn, hrec, ⟨w.jobLog, rfl, hcalm, rfl⟩, hlog⟩

theorem Idle.unlessStopped_wp (h : Idle P start n S K w) {α : Type} {stopped : α}
    {p : Exec δ α} {Q : Outcome Failure α → World δ → Prop}
    (hQ : ∀ w', Stopped P start n S K w' → Q (.ok stopped) w')
    (hp : p.Wp Q { w with tick := w.tick + 1 }) : (unlessStopped env stopped p).Wp Q w := by
  rw [unlessStopped, Prog.wp_bind]
  refine ask_wp fun stop => ?_
  rw [Prog.andThen_ok]
  cases stop with
  | true => exact Idle.cancelled_wp (w := { w with tick := w.tick + 1 }) h hQ
  | false => exact hp

/-! ## Readings -/

/-- After a transaction that only reads. -/
def ReadDone {α : Type} (w : World δ) (o : Outcome Failure α) (w' : World δ) : Prop :=
  match o with
  | .ok _ => ∃ k, w' = { w with tick := k }
  | .err _ => ∃ k x, w' = { w with tick := k, txn := x }
  | .out => False

theorem readOnly_spec {α : Type} {p : Exec δ α}
    (hp : ∀ w t, w.txn = some t → p.Wp (fun o w' => o ≠ .out ∧ ∃ k, w' = { w with tick := k }) w)
    (ht : w.txn = none) : (readOnly env p).Wp (ReadDone w) w := by
  rw [readOnly, Prog.wp_bind]
  refine begin_wp ht ?_ fun e => ⟨_, _, rfl⟩
  rw [Prog.andThen_ok, Prog.wp_bind]
  refine (hp _ _ rfl).mono ?_
  rintro (a | e | _) w' ⟨hout, k, rfl⟩
  · rw [Prog.andThen_ok, Prog.wp_bind]
    refine commit_wp (t := { view := w.durable, work := [] }) rfl ?_
      (fun e k _ => ⟨_, _, rfl⟩) ?_
    · refine ⟨k + 1, ?_⟩
      simp only [ht, List.append_nil]
      rfl
    · -- in doubt, a transaction that wrote nothing leaves what there was
      intro what k' _
      simp only [List.append_nil]
      exact ⟨k', _, rfl⟩
  · exact ⟨_, _, rfl⟩
  · exact absurd rfl hout

theorem readData_reads {α : Type} (f : δ → Except Failure α) (w : World δ) (t : Txn δ)
    (ht : w.txn = some t) :
    (readData env f).Wp (fun o w' => o ≠ .out ∧ ∃ k, w' = { w with tick := k }) w :=
  readData_wp ht (fun _ _ => ⟨by simp, _, rfl⟩) fun _ => ⟨by simp, _, rfl⟩

theorem readInvariants_reads (qs : List (String × (δ → Except Failure (Option String)))) :
    ∀ (w : World δ) (t : Txn δ), w.txn = some t →
      (readInvariants env qs).Wp (fun o w' => o ≠ .out ∧ ∃ k, w' = { w with tick := k }) w := by
  induction qs with
  | nil =>
    intro w t ht
    rw [readInvariants, Prog.wp_pure]
    exact ⟨by simp, w.tick, rfl⟩
  | cons q qs ih =>
    intro w t ht
    rw [readInvariants, Prog.wp_bind]
    refine readData_wp ht ?_ fun e => ⟨by simp, _, rfl⟩
    intro v _
    rw [Prog.andThen_ok, Prog.wp_bind]
    refine (ih { w with tick := w.tick + 1 } t ht).mono ?_
    rintro (a | e | _) w' ⟨hout, k, rfl⟩
    · rw [Prog.andThen_ok, Prog.wp_pure]
      exact ⟨by simp, k, rfl⟩
    · exact ⟨by simp, k, rfl⟩
    · exact absurd rfl hout

theorem walkedFraction_spec {codec : ArrayText} (walk : Walk δ) (cursor : String)
    (ht : w.txn = none) : (walkedFraction env codec walk cursor).Wp
      (fun o w' => o = .ok () ∧ ∃ k, w' = { w with tick := k }) w := by
  rw [walkedFraction]
  split
  · exact ⟨rfl, w.tick, rfl⟩
  split
  · exact ⟨rfl, w.tick, rfl⟩
  · rw [Prog.wp_tryCatch]
    refine (readOnly_spec ?_ ht).mono ?_
    · intro w t ht
      rw [Prog.wp_bind]
      refine readData_wp ht ?_ fun e => ⟨by simp, _, rfl⟩
      intro _ _
      rw [Prog.andThen_ok]
      exact readData_reads _ { w with tick := w.tick + 1 } t ht
    · rintro (a | e | _) w' h
      · exact ⟨rfl, h⟩
      · obtain ⟨k, x, rfl⟩ := h
        refine ⟨rfl, k, ?_⟩
        simp only [ht]
        rfl
      · exact h.elim

/-! ## Waiting -/

theorem operationSlot_spec (fuel : Nat) : (operationSlot env fuel).Wp
    (fun o w' => (∀ e, o ≠ .err e) ∧ ∃ k l, w' = { w with tick := k, slots := l }) w := by
  refine Prog.wp_loop (fun _ w' => ∃ k l, w' = { w with tick := k, slots := l })
    (fun _ _ h => ⟨by simp, h⟩) ?_ fuel () w ⟨w.tick, w.slots, rfl⟩
  rintro _ _ ⟨k, l, rfl⟩
  rw [Prog.wp_bind]
  refine ask_wp fun answer => ?_
  rw [Prog.andThen_ok]
  cases answer with
  | unlimited => exact ⟨by simp, _, _, rfl⟩
  | taken => exact ⟨by simp, _, _, rfl⟩
  | full =>
    simp only
    rw [Prog.wp_bind]
    refine ask_wp fun stop => ?_
    rw [Prog.andThen_ok]
    cases stop with
    | true => exact ⟨by simp, _, _, rfl⟩
    | false => exact ⟨_, _, rfl⟩

/-- A slot is taken, something is done with it held, and it is given back. -/
theorem operationSlot_bind {α : Type} (fuel : Nat) {p : Bool → Exec δ α}
    {Q : Outcome Failure α → World δ → Prop}
    (hp : ∀ held k l, (p held).Wp Q { w with tick := k, slots := l })
    (hout : ∀ k l, Q .out { w with tick := k, slots := l }) :
    (operationSlot env fuel >>= p).Wp Q w := by
  rw [Prog.wp_bind]
  refine (operationSlot_spec fuel).mono ?_
  rintro (held | e | _) w' ⟨herr, k, l, rfl⟩
  · exact hp held k l
  · exact absurd rfl (herr e)
  · exact hout k l

theorem Calm.cons {log : List JobEvent} (h : Calm log) {s : JobState}
    (hs : s = .running ∨ s = .pausedContention) : Calm (.published s :: log) := by
  intro e he
  rcases List.mem_cons.1 he with rfl | he
  · rcases hs with rfl | rfl
    · exact .inl rfl
    · exact .inr rfl
  · exact h e he

/-- While a job waits, only what is said of it changes. -/
def Waited {α : Type} (w : World δ) (o : Outcome Failure α) (w' : World δ) : Prop :=
  (∃ k s l, w' = { w with tick := k, jobState := s, jobLog := l }) ∧
    match o with
    | .ok _ => JobQuiet w'
    | .err _ => JobExpired w'
    | .out => JobQuiet w'

/-- Where a wait ends the job runs again, unless it was stopped. -/
theorem resume_spec {k : Nat} {s : JobState} {l : List JobEvent}
    (h : JobQuiet { w with tick := k, jobState := s, jobLog := l }) :
    (do if ← ask env.cancelStop then pure () else publish .running : Exec δ Unit).Wp (Waited w)
      { w with tick := k, jobState := s, jobLog := l } := by
  rw [Prog.wp_bind]
  refine ask_wp fun stop => ?_
  rw [Prog.andThen_ok]
  cases stop with
  | true => exact ⟨⟨_, _, _, rfl⟩, h⟩
  | false => exact ⟨⟨_, _, _, rfl⟩, h.1.cons (.inl rfl), rfl⟩

theorem waitWhilePaused_spec (cfg : Config) (fuel : Nat) (h : JobQuiet w) :
    (waitWhilePaused env cfg fuel).Wp (Waited w) w := by
  rw [waitWhilePaused, Prog.wp_bind]
  refine ask_wp fun paused => ?_
  rw [Prog.andThen_ok]
  obtain ⟨hcalm, hstate⟩ := h
  cases paused with
  | false =>
    simp only [Bool.false_eq_true, if_false]
    rw [Prog.wp_bind, Prog.wp_gets, Prog.andThen_ok]
    split
    · exact ⟨⟨_, _, _, rfl⟩, hcalm.cons (.inl rfl), rfl⟩
    · exact ⟨⟨_, _, _, rfl⟩, hcalm, hstate⟩
  | true =>
    simp only [if_true]
    rw [Prog.wp_bind]
    change Prog.andThen _ _ (.ok ()) _
    rw [Prog.andThen_ok, Prog.wp_bind]
    refine ask_wp fun pausedAt => ?_
    rw [Prog.andThen_ok, Prog.wp_bind]
    refine Prog.wp_loop
      (fun _ w' => (∃ k s l, w' = { w with tick := k, jobState := s, jobLog := l }) ∧ JobQuiet w')
      (fun _ _ h => h) ?_ fuel () _ ⟨⟨_, _, _, rfl⟩, hcalm.cons (.inr rfl), rfl⟩
    rintro _ _ ⟨⟨k, s, l, rfl⟩, hquiet⟩
    rw [Prog.wp_bind]
    refine ask_wp fun still => ?_
    rw [Prog.andThen_ok]
    cases still with
    | false => exact resume_spec (by exact hquiet)
    | true =>
      simp only [if_true]
      rw [Prog.wp_bind]
      refine ask_wp fun stop => ?_
      rw [Prog.andThen_ok]
      cases stop with
      | true => exact resume_spec (by exact hquiet)
      | false =>
        simp only [Bool.false_eq_true, if_false]
        rw [Prog.wp_bind]
        refine ask_wp fun now => ?_
        rw [Prog.andThen_ok]
        split
        · exact ⟨⟨_, _, _, rfl⟩, l, rfl, hquiet.1, rfl⟩
        · exact ⟨⟨_, _, _, rfl⟩, hquiet⟩

/-! ## The batches of a transaction -/

section Batches

variable {cfg : Config} {codec : ArrayText} {walk : Walk δ}

theorem runBatch_spec (hsql : walk.sql.Sweeps codec P) (upto : List (Option String)) {batch : Int}
    (hbatch : 0 < batch) {v : TxnVars} {t : Txn δ} (ht : w.txn = some t)
    (hP : P v.cursor t.view.data) :
    (runBatch env cfg codec walk upto batch v).Wp (fun o w' =>
      BatchDone (fun o => P o.cursor) w t o w' ∨
      (o = .err (unreadableGrouped v.cursor) ∧
        w' = { w with txn := none, steps := w.steps ++ [⟨walk.ordinal, .failed, v.rowsDone⟩] }))
      w := by
  rw [runBatch]
  cases hform : walk.sql with
  | statement run =>
    rw [hform] at hsql
    exact (runPacedStatement_spec hsql ht hP batch).mono fun _ _ h => .inl h
  | twoStatement select apply =>
    rw [hform] at hsql
    exact (runPacedBatch_spec hsql ht hP batch _ upto).mono fun _ _ h => .inl h
  | composite columns select apply =>
    rw [hform] at hsql
    exact (runCompositeBatch_spec hsql ht hP batch _ upto).mono fun _ _ h => .inl h
  | compositeStatement columns run =>
    rw [hform] at hsql
    exact (runCompositeStatement_spec hsql ht hP batch upto).mono fun _ _ h => .inl h
  | grouped groups select apply =>
    rw [hform] at hsql
    cases hat : GroupCursor.decode codec v.cursor with
    | none =>
      simp only
      exact .inr ⟨rfl, rfl⟩
    | some from_ =>
      simp only
      exact (lookAtGroups_spec hsql hbatch _ _ _ ht (hsql.reencode _ _ _ hat hP)).mono
        fun _ _ h => .inl h

/-- A failure of the batch is recorded with the step, and breaks the walk off. -/
theorem InTxn.recordFailed {c₀ c : String} (h : InTxn P start n S K c₀ c w) (k : Nat)
    (x : Option (Txn δ)) (rows : Int) : Broken P start n S K
      { w with tick := k, txn := x, steps := w.steps ++ [⟨n, .failed, rows⟩] } := by
  obtain ⟨-, ⟨hsteps, hun, hkept⟩, hjob, hlog⟩ := h
  exact ⟨.inr ⟨rows, by rw [hsteps]⟩, hun, hkept, .inl hjob, fun hc => (hlog hc).1⟩

/-- A cancelled batch, if it was the first of its transaction, leaves the walk where the
transaction began. -/
theorem InTxn.batchCancelled {c₀ c : String} (h : InTxn P start n S K c₀ c w) (k : Nat) :
    AtRest P start n S K c
      { w with tick := k, txn := none, walkLog := .batchCancelled :: w.walkLog } := by
  obtain ⟨-, hrec, hjob, hlog⟩ := h
  refine ⟨⟨rfl, hrec, hjob, fun hc => (hlog hc.2).1⟩, fun hc => ?_⟩
  obtain ⟨⟨c', log, hbegan⟩, hc⟩ := hc
  obtain ⟨-, hlast, hP, hfirst⟩ := hlog hc
  have hcc : c = c₀ := hfirst c' log hbegan
  subst hcc
  exact ⟨hlast, hP⟩

/-- A batch that returned moves the walk to its cursor. -/
theorem InTxn.batch {c₀ c c' : String} (h : InTxn P start n S K c₀ c w) {t : Txn δ}
    (ht : w.txn = some t) (k : Nat) {db : Db δ}
    (hP : CancelsFirst w.walkLog → P c' db.data) : InTxn P start n S K c₀ c'
      { w with
        tick := k, txn := some { t with view := db }, walkLog := .batch c' :: w.walkLog } := by
  obtain ⟨⟨t', ht', hwork, -⟩, hrec, hjob, hlog⟩ := h
  rw [ht] at ht'
  cases ht'
  refine ⟨⟨_, rfl, hwork, hP⟩, hrec, hjob, fun hc => ?_⟩
  obtain ⟨hfaithful, hlast, hP₀, -⟩ := hlog hc
  exact ⟨hfaithful, hlast, hP₀, fun _ _ heq => by cases heq⟩

theorem attemptBatch_spec (hsql : walk.sql.Sweeps codec P) (upto : List (Option String))
    {batch : Int} (hbatch : 0 < batch) {v : TxnVars} {c₀ : String}
    (h : InTxn P start walk.ordinal S K c₀ v.cursor w) :
    (attemptBatch env cfg codec walk upto batch v).Wp (fun o w' =>
      match o with
      | .ok none => AtRest P start walk.ordinal S K v.cursor w'
      | .ok (some b) => InTxn P start walk.ordinal S K c₀ b.cursor
          { w' with walkLog := .batch b.cursor :: w'.walkLog }
      | .err _ => Broken P start walk.ordinal S K w'
      | .out => False) w := by
  obtain ⟨t, ht, -, hP⟩ := h.1
  rw [attemptBatch, Prog.wp_tryCatch, Prog.wp_bind]
  refine (runBatch_spec (hsql.under (CancelsFirst w.walkLog)) upto hbatch ht hP).mono ?_
  rintro (b | e | _) w' (⟨k, db, rfl, hb⟩ | ⟨ho, rfl⟩)
  · exact h.batch ht k hb
  · cases ho
  · rw [Prog.andThen_err, Prog.orCatch_err]
    match e with
    | .sql .queryCanceled what =>
      simp only
      rw [Prog.wp_bind]
      refine ask_wp fun requested => ?_
      rw [Prog.andThen_ok]
      cases requested with
      | true => exact h.batchCancelled _
      | false => exact h.recordFailed _ _ _
    | .sql .lockNotAvailable what => exact h.recordFailed _ _ _
    | .sql (.other code) what => exact h.recordFailed _ _ _
    | .runtime what => exact h.broken _ _
  · cases ho
    exact h.recordFailed _ _ _
  · exact hb.elim
  · cases ho

theorem batchOfTxn_spec (hsql : walk.sql.Sweeps codec P) (upto : List (Option String))
    (txnStarted : Int) {v : TxnVars} {c₀ : String}
    (h : InTxn P start walk.ordinal S K c₀ v.cursor w) :
    (batchOfTxn env cfg codec walk upto txnStarted v).Wp (fun o w' =>
      match o with
      | .ok (.inl v') => InTxn P start walk.ordinal S K c₀ v'.cursor w'
      | .ok (.inr e) => InTxn P start walk.ordinal S K c₀ e.cursor w' ∨
          (e.done = false ∧ AtRest P start walk.ordinal S K e.cursor w')
      | .err _ => Broken P start walk.ordinal S K w'
      | .out => False) w := by
  rw [batchOfTxn, Prog.wp_bind]
  refine ask_wp fun throttled => ?_
  rw [Prog.andThen_ok]
  have hbatch : 0 < if throttled then max 1 (cfg.batchRows / 2) else cfg.batchRows := by
    have hpos := cfg.batchRows_pos
    split
    · omega
    · exact hpos
  simp only
  rw [Prog.wp_bind]
  refine (attemptBatch_spec (w := { w with tick := w.tick + 1 }) hsql upto hbatch h).mono ?_
  rintro ((_ | b) | e | _) w' hw
  · exact .inr ⟨rfl, hw⟩
  · rw [Prog.andThen_ok]
    simp only
    rw [Prog.wp_bind]
    change Prog.andThen _ _ (.ok ()) { w' with walkLog := .batch b.cursor :: w'.walkLog }
    rw [Prog.andThen_ok]
    split
    · exact .inl hw
    split
    · exact .inl hw
    rw [Prog.wp_bind]
    refine ask_wp fun waiters => ?_
    rw [Prog.andThen_ok]
    split
    · exact .inl hw
    rw [Prog.wp_bind]
    refine ask_wp fun now => ?_
    rw [Prog.andThen_ok]
    split
    · exact .inl hw
    split
    · exact .inl hw
    · exact hw
  · exact hw
  · exact hw

/-- The batches of one transaction. -/
theorem batchesOfTxn_spec (hsql : walk.sql.Sweeps codec P) (upto : List (Option String))
    (txnStarted : Int) (fuel : Nat) {v : TxnVars} {c₀ : String}
    (h : InTxn P start walk.ordinal S K c₀ v.cursor w) :
    (Prog.loop (batchOfTxn env cfg codec walk upto txnStarted) fuel v).Wp (fun o w' =>
      match o with
      | .ok e => InTxn P start walk.ordinal S K c₀ e.cursor w' ∨
          (e.done = false ∧ AtRest P start walk.ordinal S K e.cursor w')
      | .err _ => Broken P start walk.ordinal S K w'
      | .out => Broken P start walk.ordinal S K w') w := by
  refine Prog.wp_loop (fun v w => InTxn P start walk.ordinal S K c₀ v.cursor w)
    (fun v w h => h.broken w.tick w.txn) ?_ fuel v w h
  intro v w h
  refine (batchOfTxn_spec hsql upto txnStarted h).mono ?_
  rintro ((v' | e) | e | _) w' hw
  · exact hw
  · exact hw
  · exact hw
  · exact hw.elim

theorem closeTxn_spec {vars : WalkVars} {e : TxnEnd} {c₀ : String}
    (h : InTxn P start walk.ordinal S K c₀ e.cursor w ∨
      (e.done = false ∧ AtRest P start walk.ordinal S K e.cursor w)) :
    (closeTxn env walk vars e).Wp (fun o w' =>
      match o with
      | .ok vars' => AtRest P start walk.ordinal S K vars'.cursor w' ∧
          (e.done = true → ∃ m, w'.kept = K ++ List.replicate (m + 1) walk.ordinal)
      | .err _ => Broken P start walk.ordinal S K w'
      | .out => False) w := by
  rw [closeTxn, Prog.wp_bind, Prog.wp_gets, Prog.andThen_ok]
  rcases h with h | ⟨hdone, h⟩
  · obtain ⟨t, ht, hwork, hP⟩ := h.1
    simp only [ht, Option.isSome_some, if_true]
    rw [Prog.wp_bind, commitCursor, Prog.wp_bind]
    refine exec_wp ht ?_ fun e => h.broken _ _
    rintro _ _ ⟨⟩
    rw [Prog.andThen_ok]
    refine commitNoting_wp rfl ?_ (fun e k _ => h.broken _ _) fun what k _ => ?_
    · obtain ⟨-, ⟨hsteps, hun, m, hkept⟩, hjob, hlog⟩ := h
      have hkept' : w.kept ++ t.work = K ++ List.replicate (m + 1) walk.ordinal := by
        rw [hkept, hwork, List.append_assoc, List.replicate_succ']
      exact ⟨⟨⟨rfl, ⟨hsteps, hun, m + 1, hkept'⟩, hjob, fun hc => ⟨hP hc, (hlog hc).1⟩⟩,
        fun hc => ⟨rfl, hP hc⟩⟩, fun _ => ⟨m, hkept'⟩⟩
    · -- the cursor was committed with its data, though nobody was told
      obtain ⟨-, ⟨hsteps, hun, hkept⟩, hjob, hlog⟩ := h
      exact ⟨.inl hsteps, hun, hkept, .inl hjob, fun hc => ⟨hP hc, (hlog hc).1⟩⟩
  · simp only [h.1.1, Option.isSome_none, Bool.false_eq_true, if_false]
    refine ⟨h, fun hd => ?_⟩
    rw [hdone] at hd
    cases hd

/-- A transaction opens where the walk is. -/
theorem AtRest.begins {c : String} (h : AtRest P start n S K c w) (k : Nat) :
    InTxn P start n S K c c
      { w with tick := k, txn := some { view := w.durable, work := [n] }
               walkLog := .began c :: w.walkLog } := by
  obtain ⟨⟨-, hrec, hjob, hlog⟩, hat⟩ := h
  refine ⟨⟨_, rfl, rfl, fun hc => (hat hc).2⟩, hrec, hjob, fun hc => ?_⟩
  exact ⟨⟨(hat hc).1.symm, hlog hc⟩, (hat hc).1, (hat hc).2, fun _ _ _ => rfl⟩

theorem askProgress_spec {vars : WalkVars} {c : String} (h : AtRest P start n S K c w)
    (hc : vars.cursor = c) : (askProgress env cfg codec walk vars).Wp (fun o w' =>
      match o with
      | .ok vars' => AtRest P start n S K vars'.cursor w'
      | .err _ => False
      | .out => False) w := by
  subst hc
  rw [askProgress, Prog.wp_bind]
  refine ask_wp fun now => ?_
  rw [Prog.andThen_ok]
  split
  · rw [Prog.wp_bind]
    refine ask_wp fun asked => ?_
    rw [Prog.andThen_ok, Prog.wp_bind]
    refine (walkedFraction_spec walk vars.cursor (by exact h.1.1)).mono ?_
    rintro _ _ ⟨rfl, k, rfl⟩
    exact h
  · exact h

/-! ## The transactions of a walk -/

/-- What a transaction of the walk comes to. -/
def TxnDone (P : String → δ → Prop) (start : String) (n : Nat) (S : List StepRecord)
    (K : List Nat) (o : Outcome Failure (WalkVars ⊕ Option WalkVars)) (w : World δ) : Prop :=
  match o with
  | .ok (.inl vars) => AtRest P start n S K vars.cursor w
  | .ok (.inr none) => Stopped P start n S K w
  | .ok (.inr (some _)) => Idle P start n S K w ∧ ∃ m, w.kept = K ++ List.replicate (m + 1) n
  | .err _ => Broken P start n S K w
  | .out => Broken P start n S K w

theorem TxnDone.releaseSlot {o : Outcome Failure (WalkVars ⊕ Option WalkVars)}
    (h : TxnDone P start n S K o w) (held : Bool) :
    TxnDone P start n S K o (releaseSlot held w) := by
  cases held with
  | false => exact h
  | true => rcases o with (_ | _ | _) | _ | _ <;> exact h

/-- The transaction itself, with its slot held. -/
theorem heldTxn_spec (hsql : walk.sql.Sweeps codec P) (upto : List (Option String)) (fuel : Nat)
    {vars : WalkVars} (h : AtRest P start walk.ordinal S K vars.cursor w) :
    (do begin env
        enlist walk.ordinal
        logWalk (.began vars.cursor)
        let txnStarted ← ask env.steadyMs
        let e ← Prog.loop (batchOfTxn env cfg codec walk upto txnStarted) fuel
          { cursor := vars.cursor, rowsDone := vars.rowsDone }
        let vars ← closeTxn env walk vars e
        if e.done then pure (.inr (some vars))
        else do
          let vars ← askProgress env cfg codec walk vars
          pure (.inl vars) : Exec δ (WalkVars ⊕ Option WalkVars)).Wp
      (TxnDone P start walk.ordinal S K) w := by
  obtain ⟨⟨htxn, hrec, hjob, hlog⟩, hat⟩ := h
  rw [Prog.wp_bind]
  refine begin_wp htxn ?_ fun e => Idle.broken ⟨htxn, hrec, hjob, hlog⟩ _ _
  rw [Prog.andThen_ok, Prog.wp_bind]
  change Prog.andThen _ _ (.ok ()) _
  rw [Prog.andThen_ok, Prog.wp_bind]
  change Prog.andThen _ _ (.ok ()) _
  rw [Prog.andThen_ok, Prog.wp_bind]
  refine ask_wp fun txnStarted => ?_
  rw [Prog.andThen_ok, Prog.wp_bind]
  refine Prog.Wp.mono (batchesOfTxn_spec hsql upto txnStarted fuel
    (AtRest.begins ⟨⟨htxn, hrec, hjob, hlog⟩, hat⟩ _)) ?_
  rintro (e | e | _) w' hw
  · rw [Prog.andThen_ok, Prog.wp_bind]
    refine (closeTxn_spec hw).mono ?_
    rintro (vars' | e' | _) w₂ hw₂
    · rw [Prog.andThen_ok]
      obtain ⟨hrest, hkept⟩ := hw₂
      split
      · exact ⟨hrest.1, hkept ‹_›⟩
      · rw [Prog.wp_bind]
        refine (askProgress_spec hrest rfl).mono ?_
        rintro (vars₃ | e₃ | _) w₃ hw₃
        · exact hw₃
        · exact hw₃.elim
        · exact hw₃.elim
    · exact hw₂
    · exact hw₂.elim
  · exact hw
  · exact hw

theorem walkTxn_spec (hsql : walk.sql.Sweeps codec P) (upto : List (Option String)) (fuel : Nat)
    {vars : WalkVars} (h : AtRest P start walk.ordinal S K vars.cursor w) :
    (walkTxn env cfg codec fuel walk upto vars).Wp (TxnDone P start walk.ordinal S K) w := by
  refine h.1.unlessStopped_wp (fun _ hs => hs) ?_
  rw [Prog.wp_bind]
  refine (waitWhilePaused_spec (w := { w with tick := w.tick + 1 }) cfg fuel h.1.2.2.1).mono ?_
  obtain ⟨⟨htxn, ⟨hsteps, hun, hkept⟩, -, hlog⟩, hat⟩ := h
  rintro (_ | e | _) w' ⟨⟨k, s, l, rfl⟩, hjob⟩
  · rw [Prog.andThen_ok]
    have h' : AtRest P start walk.ordinal S K vars.cursor
        { w with tick := k, jobState := s, jobLog := l } :=
      ⟨⟨htxn, ⟨hsteps, hun, hkept⟩, hjob, hlog⟩, hat⟩
    refine h'.1.unlessStopped_wp (fun _ hs => hs) ?_
    refine operationSlot_bind fuel ?_ fun k' _ => h'.1.broken k' w.txn
    intro held k' l'
    rw [Prog.wp_leaving]
    refine Prog.Wp.mono (Q := TxnDone P start walk.ordinal S K) ?_ fun _ _ ho => ho.releaseSlot held
    refine Idle.unlessStopped_wp (by exact h'.1) (fun _ hs => hs) ?_
    exact heldTxn_spec hsql upto fuel h'
  · exact ⟨.inl hsteps, hun, hkept, .inr hjob, hlog⟩
  · exact ⟨.inl hsteps, hun, hkept, .inl hjob, hlog⟩

/-! ## The single statement -/

/-- What came of the single statement. -/
def SingleDone (P : String → δ → Prop) (start : String) (n : Nat) (S : List StepRecord)
    (K : List Nat) (o : Outcome Failure SingleEnd) (w : World δ) : Prop :=
  match o with
  | .ok .walk => AtRest P start n S K start w
  | .ok (.done _) => Idle P start n S K w ∧ ∃ m, w.kept = K ++ List.replicate (m + 1) n
  | .ok .stopped => Stopped P start n S K w
  | .err _ => Broken P start n S K w
  | .out => Broken P start n S K w

theorem SingleDone.releaseSlot {o : Outcome Failure SingleEnd}
    (h : SingleDone P start n S K o w) (held : Bool) :
    SingleDone P start n S K o (releaseSlot held w) := by
  cases held with
  | false => exact h
  | true => rcases o with (_ | _ | _) | _ | _ <;> exact h

theorem Idle.recordFailed (h : Idle P start n S K w) (k : Nat) (x : Option (Txn δ)) (rows : Int) :
    Broken P start n S K
      { w with tick := k, txn := x, steps := w.steps ++ [⟨n, .failed, rows⟩] } := by
  obtain ⟨-, ⟨hsteps, hun, hkept⟩, hjob, hlog⟩ := h
  exact ⟨.inr ⟨rows, by rw [hsteps]⟩, hun, hkept, .inl hjob, hlog⟩

theorem liftTimeout_reads (w : World δ) (t : Txn δ) (ht : w.txn = some t) :
    (liftTimeout env cfg).Wp (fun o w' => o ≠ .out ∧ ∃ k, w' = { w with tick := k }) w := by
  rw [liftTimeout]
  split
  · exact readData_reads _ w t ht
  · exact ⟨by simp [Pure.pure, Prog.pure], w.tick, rfl⟩

/-- A transaction broken off: an error of the server leaves the database as it was, and with any
other it may have the transaction. -/
def BrokenOff (w : World δ) : Failure → World δ → Prop
  | .sql _ _, w' => ∃ k x, w' = { w with tick := k, txn := x }
  | .runtime _, w' => ∃ k x db d, w' = { w with tick := k, durable := db, txn := x, doubtful := d }

theorem BrokenOff.refused (w : World δ) (e : Failure) (k : Nat) (x : Option (Txn δ)) :
    BrokenOff w e { w with tick := k, txn := x } := by
  cases e with
  | sql state what => exact ⟨k, x, rfl⟩
  | runtime what => exact ⟨k, x, w.durable, w.doubtful, rfl⟩

/-- The statement in its transaction: it is committed, or broken off. -/
theorem singleInTxn_spec {run : δ → Except Failure (Nat × δ)} {t : Txn δ} (ht : w.txn = some t) :
    (do liftTimeout env cfg
        readData env fun _ => .ok ()
        let rows ← onData env run
        commit env
        pure (.done rows) : Exec δ SingleEnd).Wp (fun o w' =>
      match o with
      | .ok r => ∃ rows k db, r = .done rows ∧
          w' = { w with tick := k, durable := db, txn := none, kept := w.kept ++ t.work }
      | .err e => BrokenOff w e w'
      | .out => False) w := by
  rw [Prog.wp_bind]
  refine (liftTimeout_reads w t ht).mono ?_
  rintro (_ | e | _) w' ⟨hout, k, rfl⟩
  · rw [Prog.andThen_ok, Prog.wp_bind]
    refine readData_wp (t := t) (by exact ht) ?_ fun e => BrokenOff.refused w e _ _
    intro _ _
    rw [Prog.andThen_ok, Prog.wp_bind]
    refine onData_wp (t := t) (by exact ht) ?_ fun e => BrokenOff.refused w e _ _
    intro rows d _
    rw [Prog.andThen_ok, Prog.wp_bind]
    refine commit_wp rfl ?_ (fun e k _ => BrokenOff.refused w e k _)
      fun what k _ => ⟨_, _, _, _, rfl⟩
    exact ⟨rows, _, _, rfl, rfl⟩
  · exact BrokenOff.refused w e _ _
  · exact absurd rfl hout

theorem singleStatement_spec (fuel : Nat) (h : AtRest P start walk.ordinal S K start w) :
    (singleStatement env cfg fuel walk start).Wp (SingleDone P start walk.ordinal S K) w := by
  rw [singleStatement]
  cases walk.single with
  | none => exact h
  | some run =>
    simp only
    split
    · exact h
    · refine operationSlot_bind fuel ?_ fun k _ => h.1.broken k w.txn
      intro held k l
      have hidle : Idle P start walk.ordinal S K { w with slots := l } := h.1
      rw [Prog.wp_leaving]
      refine Prog.Wp.mono (Q := SingleDone P start walk.ordinal S K) ?_
        fun _ _ ho => ho.releaseSlot held
      refine Idle.unlessStopped_wp (by exact h.1) (fun _ hs => hs) ?_
      rw [Prog.wp_bind]
      refine begin_wp (by exact h.1.1) ?_ fun e => hidle.broken _ _
      rw [Prog.andThen_ok, Prog.wp_bind]
      change Prog.andThen _ _ (.ok ()) _
      rw [Prog.andThen_ok, Prog.wp_tryCatch]
      refine Prog.Wp.mono (singleInTxn_spec rfl) ?_
      rintro (r | e | _) w' hw
      · obtain ⟨rows, k', db, rfl, rfl⟩ := hw
        obtain ⟨⟨-, ⟨hsteps, hun, m, hkept⟩, hjob, hlog⟩, -⟩ := h
        have hkept' : w.kept ++ [walk.ordinal] = K ++ List.replicate (m + 1) walk.ordinal := by
          rw [hkept, List.append_assoc, List.replicate_succ']
        exact ⟨⟨rfl, ⟨hsteps, hun, m + 1, hkept'⟩, hjob, hlog⟩, m, hkept'⟩
      · rw [Prog.orCatch_err]
        match e with
        | .sql .queryCanceled what =>
          obtain ⟨k', x, rfl⟩ := hw
          simp only
          rw [Prog.wp_bind]
          refine ask_wp fun stop => ?_
          rw [Prog.andThen_ok]
          cases stop with
          | true =>
            simp only [if_true]
            rw [Prog.wp_bind]
            change Prog.andThen _ _ (.ok ()) _
            rw [Prog.andThen_ok]
            refine Idle.cancelled_wp (by exact ⟨rfl, h.1.2⟩) fun _ hs => hs
          | false =>
            simp only [Bool.false_eq_true, if_false]
            rw [Prog.wp_bind]
            refine ask_wp fun requested => ?_
            rw [Prog.andThen_ok]
            cases requested with
            | true => exact ⟨⟨rfl, h.1.2⟩, h.2⟩
            | false => exact hidle.recordFailed _ _ _
        | .sql .lockNotAvailable what =>
          obtain ⟨k', x, rfl⟩ := hw
          exact ⟨⟨rfl, h.1.2⟩, h.2⟩
        | .sql (.other code) what =>
          obtain ⟨k', x, rfl⟩ := hw
          exact hidle.recordFailed _ _ _
        | .runtime what =>
          obtain ⟨k', x, db, d, rfl⟩ := hw
          exact hidle.broken k' x
      · exact hw.elim

/-! ## The end of a walk -/

theorem verifyRemaining_spec (rows : Int) (h : Idle P start walk.ordinal S K w) :
    (verifyRemaining env walk rows).Wp (fun o w' =>
      match o with
      | .ok _ => ∃ k, w' = { w with tick := k }
      | .err _ => Broken P start walk.ordinal S K w'
      | .out => False) w := by
  rw [verifyRemaining]
  cases walk.verifyRemaining with
  | none => exact ⟨w.tick, rfl⟩
  | some count =>
    simp only
    rw [Prog.wp_bind]
    refine (readOnly_spec (readData_reads count) h.1).mono ?_
    rintro (left | e | _) w' hw
    · obtain ⟨k, rfl⟩ := hw
      rw [Prog.andThen_ok]
      split
      · exact h.recordFailed _ _ _
      · exact ⟨k, rfl⟩
    · obtain ⟨k, x, rfl⟩ := hw
      exact h.broken k x
    · exact hw.elim

theorem verifyInvariants_spec (before : List (String × Option String)) (rows : Int)
    (h : Idle P start walk.ordinal S K w) :
    (verifyInvariants env codec walk before rows).Wp (fun o w' =>
      match o with
      | .ok _ => ∃ k, w' = { w with tick := k }
      | .err _ => Broken P start walk.ordinal S K w'
      | .out => False) w := by
  rw [verifyInvariants]
  split
  · exact ⟨w.tick, rfl⟩
  · rw [Prog.wp_bind]
    refine (readOnly_spec (readInvariants_reads walk.invariants) h.1).mono ?_
    rintro (after | e | _) w' hw
    · obtain ⟨k, rfl⟩ := hw
      rw [Prog.andThen_ok]
      split
      · exact ⟨k, rfl⟩
      · exact h.recordFailed _ _ _
    · obtain ⟨k, x, rfl⟩ := hw
      exact h.broken k x
    · exact hw.elim

/-- What a walk comes to. -/
def WalkDone (P : String → δ → Prop) (start : String) (n : Nat) (S : List StepRecord)
    (K : List Nat) (o : Outcome Failure Unit) (w : World δ) : Prop :=
  match o with
  | .ok _ => Walked P start n S K w ∨ Stopped P start n S K w
  | .err _ => Broken P start n S K w
  | .out => Broken P start n S K w

theorem finishWalk_spec (before : List (String × Option String)) (rows : Int)
    (h : Idle P start walk.ordinal S K w)
    (hkept : ∃ m, w.kept = K ++ List.replicate (m + 1) walk.ordinal) :
    (finishWalk env codec walk before rows).Wp (WalkDone P start walk.ordinal S K) w := by
  rw [finishWalk, Prog.wp_bind]
  refine (verifyRemaining_spec rows h).mono ?_
  rintro (_ | e | _) w' hw
  · obtain ⟨k, rfl⟩ := hw
    rw [Prog.andThen_ok, Prog.wp_bind]
    refine Prog.Wp.mono (verifyInvariants_spec (P := P) (S := S) (K := K) before rows h) ?_
    rintro (_ | e | _) w' hw
    · obtain ⟨k', rfl⟩ := hw
      obtain ⟨htxn, ⟨hsteps, hun, -⟩, hjob, hlog⟩ := h
      refine .inl ⟨htxn, ⟨rows, ?_⟩, hun, hkept, hjob, hlog⟩
      change w.steps ++ _ = _
      rw [hsteps]
    · exact hw
    · exact hw.elim
  · exact hw
  · exact hw.elim

theorem invariantsBefore_spec (ht : w.txn = none) :
    (invariantsBefore env walk).Wp (ReadDone w) w := by
  rw [invariantsBefore]
  split
  · exact ⟨w.tick, rfl⟩
  · exact readOnly_spec (readInvariants_reads walk.invariants) ht

theorem readUpperBound_spec (ht : w.txn = none) :
    (readUpperBound env walk).Wp (ReadDone w) w := by
  rw [readUpperBound]
  cases walk.upperBound with
  | none => exact ⟨w.tick, rfl⟩
  | some read => exact readOnly_spec (readData_reads read) ht

/-- The transactions of a walk, one after another. -/
theorem walkTxns_spec (hsql : walk.sql.Sweeps codec P) (upto : List (Option String))
    (fuel rounds : Nat) {vars : WalkVars} (h : AtRest P start walk.ordinal S K vars.cursor w) :
    (Prog.loop (walkTxn env cfg codec fuel walk upto) rounds vars).Wp (fun o w' =>
      match o with
      | .ok none => Stopped P start walk.ordinal S K w'
      | .ok (some _) => Idle P start walk.ordinal S K w' ∧
          ∃ m, w'.kept = K ++ List.replicate (m + 1) walk.ordinal
      | .err _ => Broken P start walk.ordinal S K w'
      | .out => Broken P start walk.ordinal S K w') w := by
  refine Prog.wp_loop (fun vars w => AtRest P start walk.ordinal S K vars.cursor w)
    (fun vars w h => h.1.broken w.tick w.txn) ?_ rounds vars w h
  intro vars w h
  refine (walkTxn_spec hsql upto fuel h).mono ?_
  rintro ((vars' | _ | vars') | e | _) w' hw
  · exact hw
  · exact hw
  · exact hw
  · exact hw
  · exact hw

/-- What a walk leaves behind, whatever comes of it, where its statements keep `P` and `P` holds
of its starting position. -/
theorem runBackfill_spec (hsql : walk.sql.Sweeps codec P) (fuel : Nat) (htxn : w.txn = none)
    (hrec : Unrecorded walk.ordinal S K w) (hjob : JobQuiet w)
    (hP : P (env.resumeCursor walk.ordinal) w.durable.data) :
    (runBackfill env cfg codec fuel walk).Wp
      (WalkDone P (env.resumeCursor walk.ordinal) walk.ordinal S K) w := by
  have h : AtRest P (env.resumeCursor walk.ordinal) walk.ordinal S K
      (env.resumeCursor walk.ordinal) { w with walkLog := [] } :=
    ⟨⟨htxn, hrec, hjob, fun _ => trivial⟩, fun _ => ⟨rfl, hP⟩⟩
  rw [runBackfill, Prog.wp_bind, Prog.wp_modify, Prog.andThen_ok, Prog.wp_bind]
  refine (invariantsBefore_spec h.1.1).mono ?_
  rintro (before | e | _) w₁ hw₁
  rotate_left
  · obtain ⟨k, x, rfl⟩ := hw₁
    exact h.1.broken k x
  · exact hw₁.elim
  obtain ⟨k, rfl⟩ := hw₁
  rw [Prog.andThen_ok, Prog.wp_bind]
  refine Prog.Wp.mono (readUpperBound_spec (by exact h.1.1)) ?_
  rintro (upto | e | _) w₂ hw₂
  rotate_left
  · obtain ⟨k, x, rfl⟩ := hw₂
    exact h.1.broken k x
  · exact hw₂.elim
  obtain ⟨k', rfl⟩ := hw₂
  rw [Prog.andThen_ok, Prog.wp_bind]
  refine ask_wp fun started => ?_
  rw [Prog.andThen_ok, Prog.wp_bind]
  refine (walkedFraction_spec walk _ (by exact h.1.1)).mono ?_
  rintro _ _ ⟨rfl, k₃, rfl⟩
  rw [Prog.andThen_ok, Prog.wp_bind]
  refine Prog.Wp.mono (singleStatement_spec fuel (by exact h)) ?_
  rintro ((_ | rows | _) | e | _) w₄ hw₄
  · rw [Prog.andThen_ok]
    simp only
    rw [Prog.wp_bind]
    refine (walkTxns_spec hsql upto fuel fuel (by exact hw₄)).mono ?_
    rintro ((_ | vars) | e | _) w₅ hw₅
    · exact .inr hw₅
    · exact finishWalk_spec before vars.rowsDone hw₅.1 hw₅.2
    · exact hw₅
    · exact hw₅
  · exact finishWalk_spec before rows hw₄.1 hw₄.2
  · exact .inr hw₄
  · exact hw₄
  · exact hw₄

end Batches

end Specs

end Executor
end Laswell
