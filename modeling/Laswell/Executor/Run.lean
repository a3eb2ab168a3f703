import Laswell.Executor.Backfill
import Laswell.Executor.ExecuteSpec

/-!
# Laswell.Executor.Run

A job's worker from beginning to end.

* `run_ledgerFirst_iff`: the ledger is told how the job ended before the job says so, in every run
  in which no pause outlasts `max_pause_s`, and in no other.
* `run_finalState`: what a step reads in the end, against whether the database has its work, where
  no COMMIT of it went unanswered.
-/

namespace Laswell
namespace Executor

open Base Jobs

variable {δ : Type}

/-- A job that has been planned, and not begun. -/
def World.planned (db : Db δ) (tick : Nat := 0) : World δ := { tick, durable := db }

section Specs

variable {plan : Plan δ} {w : World δ} {env : Env} {cfg : Config} {codec : ArrayText}

theorem head_nil (plan : Plan δ) : Head plan 0 0 [] [] [] :=
  { ordered := .nil
    below := fun r hr => by cases hr
    states := fun r hr => by cases hr
    succeeded := fun r hr => by cases hr
    recorded := fun m hm => by rcases hm with hm | hm <;> cases hm
    kept_lt := fun m hm => by cases hm
    open_ge := fun m hm => by cases hm }

theorem execute_spec (fuel : Nat) (db : Db δ) (tick : Nat) :
    (execute env cfg codec fuel plan).Wp (fun o w' =>
      match o with
      | .ok _ => Ended plan w'
      | .err _ => Torn plan w'
      | .out => Torn plan w') (.planned db tick) := by
  rw [execute, Prog.wp_bind]
  refine call_wp ?_ fun e => ?_
  · rw [Prog.andThen_ok, Prog.wp_bind, publish, Prog.wp_modify, Prog.andThen_ok]
    refine Prog.wp_loop (fun v w => AtHead plan v w) (fun v w h => h.torn w.tick w.txn) ?_ fuel {}
      _ ((atHead_closed rfl).2 ?_)
    · intro v w h
      refine (nextStep_spec fuel h).mono ?_
      rintro ((v' | _) | e | _) w' hw
      · exact hw
      · exact hw
      · exact hw
      · exact hw
    · exact ⟨rfl, rfl, ⟨by simp [Calm, World.planned], rfl⟩, head_nil plan⟩
  · exact ⟨(head_nil plan).records, .inl ⟨by simp [Calm, World.planned], rfl⟩⟩

/-! ## How the job ends -/

/-- After the handler: the ledger was told, and then the state; a pause that lasted too long was
published before. -/
def Handled (plan : Plan δ) (w : World δ) : Prop :=
  Records plan w.steps w.kept [] ∧
    ∃ s log, w.jobLog = .published s :: .finished s :: log ∧
      (Calm log ∨ ∃ log', log = .published .abortedContention :: .pauseExpired :: log' ∧ Calm log')

theorem cancelled_handled (h : Torn plan w) (hun : w.uncommitted = []) :
    (cancelled : Exec δ Unit).Wp (fun o w' => o = .ok () ∧ Handled plan w') w := by
  obtain ⟨hrec, hjob⟩ := h
  rw [hun] at hrec
  refine ⟨rfl, hrec, .cancelled, w.jobLog, rfl, ?_⟩
  rcases hjob with hjob | ⟨log, hlog, hcalm, -⟩
  · exact .inl hjob.1
  · exact .inr ⟨log, hlog, hcalm⟩

theorem fail_handled (h : Torn plan w) (hun : w.uncommitted = []) :
    (fail : Exec δ Unit).Wp (fun o w' => o = .ok () ∧ Handled plan w') w := by
  obtain ⟨hrec, hjob⟩ := h
  rw [hun] at hrec
  refine ⟨rfl, hrec, _, w.jobLog, rfl, ?_⟩
  rcases hjob with hjob | ⟨log, hlog, hcalm, -⟩
  · exact .inl hjob.1
  · exact .inr ⟨log, hlog, hcalm⟩

theorem ended_spec (e : Failure) (h : Torn plan w) :
    (ended env e).Wp (fun o w' => o = .ok () ∧ Handled plan w') w := by
  unfold ended
  rw [Prog.wp_bind, groupRolledBack, Prog.wp_modify, Prog.andThen_ok]
  have h' : ∀ k, Torn plan { w with
      tick := k
      steps := w.steps.map (StepRecord.rollBack w.uncommitted)
      uncommitted := [] } := fun k => ⟨h.1.rollBack, h.2⟩
  cases e with
  | runtime what => exact fail_handled (h' w.tick) rfl
  | sql state what =>
    cases state with
    | lockNotAvailable => exact fail_handled (h' w.tick) rfl
    | other code => exact fail_handled (h' w.tick) rfl
    | queryCanceled =>
      simp only
      rw [Prog.wp_bind]
      refine ask_wp fun now => ?_
      rw [Prog.andThen_ok]
      split
      · rw [Prog.wp_bind]
        refine ask_wp fun stop => ?_
        rw [Prog.andThen_ok]
        split
        · rw [Prog.wp_bind]
          refine ask_wp fun requested => ?_
          rw [Prog.andThen_ok]
          split
          · exact cancelled_handled (h' _) rfl
          · exact fail_handled (h' _) rfl
        · exact fail_handled (h' _) rfl
      · exact fail_handled (h' _) rfl

/-- A run that ends has been handled; one that is cut short was in the middle of it. -/
theorem run_spec (fuel : Nat) (db : Db δ) (tick : Nat) :
    (run env cfg codec fuel plan).Wp (fun o w' =>
      match o with
      | .ok _ => Handled plan w'
      | .err _ => False
      | .out => JobQuiet w' ∨ JobExpired w') (.planned db tick) := by
  rw [run, Prog.wp_tryCatch, Prog.wp_leaving]
  refine (execute_spec fuel db tick).mono ?_
  rintro (_ | e | _) w' hw
  · obtain ⟨hrec, hun, s, log, hlog, hcalm⟩ := hw
    exact ⟨hrec, s, log, hlog, .inl hcalm⟩
  · rw [Prog.orCatch_err]
    refine (ended_spec (w := leaveSession w') e hw).mono ?_
    rintro _ w₂ ⟨rfl, hw₂⟩
    exact hw₂
  · exact hw.2

end Specs

/-! ## The ledger first, then the state -/

/-- Each terminal state was recorded by `finish_job` before it was published. -/
def LedgerFirst (log : List JobEvent) : Prop :=
  ∀ later s earlier, log = later ++ .published s :: earlier → isTerminal s = true →
    .finished s ∈ earlier

theorem Calm.not_mem_pauseExpired {log : List JobEvent} (h : Calm log) :
    JobEvent.pauseExpired ∉ log := by
  intro hmem
  rcases h _ hmem with h | h <;> cases h

theorem Calm.not_mem_finished {log : List JobEvent} (h : Calm log) (s : JobState) :
    JobEvent.finished s ∉ log := by
  intro hmem
  rcases h _ hmem with h | h <;> cases h

theorem Calm.not_terminal {log : List JobEvent} (h : Calm log) {s : JobState}
    (hmem : JobEvent.published s ∈ log) : isTerminal s = false := by
  rcases h _ hmem with h | h <;> cases h <;> rfl

theorem Calm.ledgerFirst {log : List JobEvent} (h : Calm log) : LedgerFirst log := by
  intro later s earlier heq hterm
  have hs := h.not_terminal (s := s) (by simp [heq])
  rw [hs] at hterm
  cases hterm

theorem Calm.ledgerFirst_told {log : List JobEvent} (h : Calm log) (s : JobState) :
    LedgerFirst (.published s :: .finished s :: log) := by
  intro later s' earlier heq hterm
  rcases later with _ | ⟨e, later⟩
  · cases heq
    exact List.mem_cons_self
  · rw [List.cons_append, List.cons.injEq] at heq
    rcases later with _ | ⟨e', later⟩
    · cases heq.2
    · rw [List.cons_append, List.cons.injEq] at heq
      exact h.ledgerFirst later s' earlier heq.2.2 hterm

theorem Calm.not_ledgerFirst_expired {log : List JobEvent} (h : Calm log)
    (later : List JobEvent) : ¬ LedgerFirst
      (later ++ .published .abortedContention :: .pauseExpired :: log) := by
  intro hfirst
  rcases List.mem_cons.1 (hfirst later _ _ rfl rfl) with hmem | hmem
  · cases hmem
  · exact h.not_mem_finished _ hmem

/-- What is said of a job over a run: that it runs; how it ended, after the ledger was told; or,
somewhere, that it was aborted. -/
theorem run_jobLog (env : Env) (cfg : Config) (codec : ArrayText) (fuel : Nat) (plan : Plan δ)
    (db : Db δ) (tick : Nat) (log : List JobEvent)
    (hlog : log = (run env cfg codec fuel plan (.planned db tick)).2.jobLog) :
    Calm log ∨ (∃ s l, log = .published s :: .finished s :: l ∧ Calm l) ∨
      ∃ later l, log = later ++ .published .abortedContention :: .pauseExpired :: l ∧ Calm l := by
  have hspec : (run env cfg codec fuel plan).Wp _ _ := run_spec fuel db tick
  rw [Prog.Wp] at hspec
  rcases hrun : run env cfg codec fuel plan (.planned db tick) with ⟨o, w⟩
  rw [hrun] at hspec hlog
  subst hlog
  rcases o with _ | e | _
  · obtain ⟨-, s, l, hl, hcalm | ⟨l', rfl, hcalm⟩⟩ := hspec
    · exact .inr (.inl ⟨s, l, hl, hcalm⟩)
    · exact .inr (.inr ⟨[.published s, .finished s], l', hl, hcalm⟩)
  · exact hspec.elim
  · rcases hspec with hquiet | ⟨l, hl, hcalm, -⟩
    · exact .inl hquiet.1
    · exact .inr (.inr ⟨[], l, hl, hcalm⟩)

/-- In every run, at every moment of it: the states a job ends in are published after the ledger
has them, if and only if no pause outlasts `max_pause_s`. -/
theorem run_ledgerFirst_iff (env : Env) (cfg : Config) (codec : ArrayText) (fuel : Nat)
    (plan : Plan δ) (db : Db δ) (tick : Nat) :
    LedgerFirst (run env cfg codec fuel plan (.planned db tick)).2.jobLog ↔
      .pauseExpired ∉ (run env cfg codec fuel plan (.planned db tick)).2.jobLog := by
  rcases run_jobLog env cfg codec fuel plan db tick _ rfl with
    hcalm | ⟨s, l, hl, hcalm⟩ | ⟨later, l, hl, hcalm⟩
  · exact iff_of_true hcalm.ledgerFirst hcalm.not_mem_pauseExpired
  · rw [hl]
    refine iff_of_true (hcalm.ledgerFirst_told s) ?_
    simp [hcalm.not_mem_pauseExpired]
  · rw [hl]
    refine iff_of_false (hcalm.not_ledgerFirst_expired later) ?_
    simp

/-- A walk that selects nothing. -/
def emptyWalk : Walk Unit := { ordinal := 0, sql := .statement fun _ _ d => .ok ([], d) }

def emptyWalkPlan : Plan Unit where
  steps := [{ ordinal := 0, txnClass := .ownTxnPerBatch emptyWalk }]
  numbered n step h := by
    rcases n with _ | n
    · cases h
      rfl
    · cases h

/-- The observer has the walk wait, and the clock runs on. -/
def pausedForever : Env where
  paused _ := true
  steadyMs n := 1000000 * n

/-- The pause expires: the job says that it was aborted, and `finish_job` comes after it. -/
theorem run_publishes_aborted_first : ¬ LedgerFirst
    (run pausedForever {} jsonStrings 3 emptyWalkPlan (.planned { data := () })).2.jobLog := by
  have hlog : (run pausedForever {} jsonStrings 3 emptyWalkPlan
      (.planned { data := () })).2.jobLog =
      [.published .abortedContention, .finished .abortedContention] ++
        .published .abortedContention :: .pauseExpired ::
          [.published .pausedContention, .published .running] := by
    decide +kernel
  rw [hlog]
  exact Calm.not_ledgerFirst_expired (by simp [Calm]) _

/-! ## The record against the database -/

/-- The state a step reads in the job's record: that of its last entry. -/
def finalState (steps : List StepRecord) (n : Nat) : Option StepState :=
  ((steps.filter fun r => decide (r.ordinal = n)).getLast?).map StepRecord.state

theorem finalState_eq_some {steps : List StepRecord}
    (hordered : steps.Pairwise fun a b => a.ordinal < b.ordinal) {n : Nat} {state : StepState} :
    finalState steps n = some state ↔ ∃ r ∈ steps, r.ordinal = n ∧ r.state = state := by
  rw [finalState, Option.map_eq_some_iff]
  constructor
  · rintro ⟨r, hr, rfl⟩
    have hmem := List.mem_filter.1 (List.mem_of_getLast? hr)
    exact ⟨r, hmem.1, of_decide_eq_true hmem.2, rfl⟩
  · rintro ⟨r, hr, hn, rfl⟩
    refine ⟨r, ?_, rfl⟩
    have hmem : r ∈ steps.filter fun r => decide (r.ordinal = n) :=
      List.mem_filter.2 ⟨hr, decide_eq_true hn⟩
    cases hlast : (steps.filter fun r => decide (r.ordinal = n)).getLast? with
    | none =>
      rw [List.getLast?_eq_none_iff] at hlast
      rw [hlast] at hmem
      cases hmem
    | some r' =>
      -- two records of one step would not be in order
      have hr' := List.mem_filter.1 (List.mem_of_getLast? hlast)
      have hn' : r'.ordinal = n := of_decide_eq_true hr'.2
      have hnodup : (steps.map StepRecord.ordinal).Nodup :=
        List.pairwise_map.2 (hordered.imp fun h => Nat.ne_of_lt h)
      rw [List.inj_on_of_nodup_map hnodup hr'.1 hr (hn'.trans hn.symm)]

def statement (sql : String) : Statement Unit := { sql, effect := fun d => .ok (1, d) }

/-- Two statements in one group. -/
def twoInserts : Plan Unit where
  steps := [{ ordinal := 0, sql := [statement "INSERT INTO a VALUES (1)"] },
    { ordinal := 1, sql := [statement "INSERT INTO b VALUES (1)"] }]
  numbered n step h := by
    rcases n with _ | _ | n <;> cases h <;> rfl

/-- The second insert violates a constraint. -/
def secondInsertFails : Env where
  sql n := if n = 7 then some (.sql (.other "23505") "duplicate key value") else none

noncomputable def afterSecondInsert : World Unit :=
  (run secondInsertFails {} jsonStrings 5 twoInserts (.planned { data := () })).2

/-- The connection is lost while the group's COMMIT is under way, after the server took it. -/
def commitUnanswered : Env where
  sql n := if n = 8 then some (.runtime "COMMIT: connection lost, in doubt") else none
  committed _ := true

/-- The database has both inserts, and both read rolled back: a COMMIT in doubt is handled as one
that failed. -/
theorem run_commit_in_doubt :
    ∀ n ∈ [0, 1],
      (run commitUnanswered {} jsonStrings 5 twoInserts (.planned { data := () })).2.Has n ∧
      finalState (run commitUnanswered {} jsonStrings 5 twoInserts
        (.planned { data := () })).2.steps n = some .rolledBack := by
  decide +kernel

/-- A concurrent build, and the step that verifies it. -/
def concurrentBuild : Plan Unit where
  steps := [
    { ordinal := 0, txnClass := .txnForbidden, kind := .createIndex "public" "t_a_idx"
      sql := [statement "CREATE INDEX CONCURRENTLY t_a_idx ON t (a)"] },
    { ordinal := 1, txnGroup := 1, kind := .verifyIndexValid }]
  numbered n step h := by
    rcases n with _ | _ | n <;> cases h <;> rfl

/-- The build returned, and left an index that is not valid. -/
def indexInvalid : Env where
  indexValid _ _ := some false

end Executor
end Laswell
