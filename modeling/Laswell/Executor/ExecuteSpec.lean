import Laswell.Executor.Records

/-!
# Laswell.Executor.ExecuteSpec

What `execute` leaves behind, step by step. `Inside` is the state of the loop while a group's
transaction is open, `Between` while none is; `Torn` is what an exception leaves, and `Ended` the
state of a job that has said how it ended.
-/

namespace Laswell
namespace Executor

open Base Jobs

variable {δ : Type}

/-! ## The states of the loop -/

section

variable (plan : Plan δ)

/-- No transaction is open before the step `n`. -/
def Between (n : Nat) (w : World δ) : Prop :=
  w.txn = none ∧ w.uncommitted = [] ∧ JobQuiet w ∧ Head plan n n w.steps w.kept []

/-- Before the step `n`, in the transaction of the group that began with the step `lo`. -/
def Inside (n lo : Nat) (w : World δ) : Prop :=
  (∃ t, w.txn = some t ∧ t.work = w.uncommitted) ∧ lo ≤ n ∧ JobQuiet w ∧
    Head plan n lo w.steps w.kept w.uncommitted

def AtHead (v : ExecVars) (w : World δ) : Prop :=
  match v.groupOpen with
  | true => Inside plan v.position v.groupFirst w
  | false => Between plan v.position w

/-- What an exception leaves, before the handler. -/
def Torn (w : World δ) : Prop :=
  Records plan w.steps w.kept w.uncommitted ∧ (JobQuiet w ∨ JobExpired w)

/-- `finish_job` was called, and then the state was published. -/
def JobTold (w : World δ) : Prop :=
  ∃ s log, w.jobLog = .published s :: .finished s :: log ∧ Calm log

def Ended (w : World δ) : Prop := Records plan w.steps w.kept [] ∧ w.uncommitted = [] ∧ JobTold w

end

section Specs

variable {plan : Plan δ} {w : World δ} {n lo : Nat} {env : Env} {cfg : Config} {codec : ArrayText}

theorem Between.torn (h : Between plan n w) (k : Nat) (x : Option (Txn δ)) (l : Nat) :
    Torn plan { w with tick := k, txn := x, slots := l } := by
  obtain ⟨-, hun, hjob, hhead⟩ := h
  refine ⟨?_, .inl hjob⟩
  rw [hun]
  exact hhead.records

theorem Inside.torn (h : Inside plan n lo w) (k : Nat) (x : Option (Txn δ)) :
    Torn plan { w with tick := k, txn := x } :=
  ⟨h.2.2.2.records, .inl h.2.2.1⟩

theorem Inside.failing (h : Inside plan n lo w) {rs : List StepRecord} (hrs : Failing n rs)
    (k : Nat) (x : Option (Txn δ)) :
    Torn plan { w with tick := k, txn := x, steps := w.steps ++ rs } :=
  ⟨h.2.2.2.failed hrs, .inl h.2.2.1⟩

theorem atHead_open {v : ExecVars} (h : v.groupOpen = true) :
    AtHead plan v w ↔ Inside plan v.position v.groupFirst w := by
  rw [AtHead, h]

theorem atHead_closed {v : ExecVars} (h : v.groupOpen = false) :
    AtHead plan v w ↔ Between plan v.position w := by
  rw [AtHead, h]

theorem AtHead.torn {v : ExecVars} (h : AtHead plan v w) (k : Nat) (x : Option (Txn δ)) :
    Torn plan { w with tick := k, txn := x } := by
  rw [AtHead] at h
  split at h
  · exact h.torn k x
  · exact Between.torn h k x w.slots

/-! ## Statements in a group -/

/-- Nothing but the view of the transaction moves. -/
def Touched {α : Type} (w : World δ) (t : Txn δ) : Outcome Failure α → World δ → Prop :=
  BatchDone (fun _ _ => True) w t

theorem Touched.still {α : Type} {t : Txn δ} (ht : w.txn = some t) (k : Nat) (a : α) :
    Touched w t (.ok a) { w with tick := k } :=
  BatchDone.still (Q := fun _ _ => True) ht k trivial

theorem Touched.failed {α : Type} {t : Txn δ} (ht : w.txn = some t) (k : Nat) (e : Failure) :
    Touched w t (.err e : Outcome Failure α) { w with tick := k } :=
  BatchDone.failed ht k e

theorem setLocal_spec {t : Txn δ} (ht : w.txn = some t) (wanted : Bool) :
    (setLocal env wanted).Wp (Touched w t) w := by
  rw [setLocal]
  split
  · exact readData_wp ht (fun _ _ => Touched.still ht _ _) fun e => Touched.failed ht _ e
  · exact Touched.still ht w.tick _

theorem takeGate_spec {t : Txn δ} (ht : w.txn = some t) (step : Step δ) (retry : Bool)
    (sql : String) (g : Gates) : (takeGate env step retry sql g).Wp (Touched w t) w := by
  rw [takeGate]
  split
  · split
    · refine BatchDone.bind (Q := fun _ _ => True) ?_ fun _ k db _ => Touched.still rfl k _
      exact readData_wp ht (fun _ _ => Touched.still ht _ _) fun e => Touched.failed ht _ e
    · exact Touched.still ht w.tick _
  · exact Touched.still ht w.tick _

/-- After a statement of the step `n` in the transaction `t`: an error may have been recorded. -/
def StatementDone {α : Type} (n : Nat) (w : World δ) (t : Txn δ) (o : Outcome Failure α)
    (w' : World δ) : Prop :=
  match o with
  | .ok _ => ∃ k db, w' = { w with tick := k, txn := some { t with view := db } }
  | .err _ => ∃ k x rs, w' = { w with tick := k, txn := x, steps := w.steps ++ rs } ∧ Failing n rs
  | .out => False

theorem Touched.statementDone {α : Type} {t : Txn δ} {o : Outcome Failure α} {w' : World δ}
    (h : Touched w t o w') : StatementDone n w t o w' := by
  obtain ⟨k, db, rfl, ho⟩ := h
  rcases o with a | e | _
  · exact ⟨k, db, rfl⟩
  · exact ⟨k, _, [], by rw [List.append_nil], .inl rfl⟩
  · exact ho

/-- A statement that returned is followed by `f`. -/
theorem StatementDone.andThen {α β : Type} {t : Txn δ} {p : Exec δ α} {f : α → Exec δ β}
    {Q : Outcome Failure β → World δ → Prop} (hp : p.Wp (StatementDone n w t) w)
    (hf : ∀ a k db, (f a).Wp Q { w with tick := k, txn := some { t with view := db } })
    (herr : ∀ e k x rs, Failing n rs →
      Q (.err e) { w with tick := k, txn := x, steps := w.steps ++ rs }) :
    (p >>= f).Wp Q w := by
  rw [Prog.wp_bind]
  refine hp.mono ?_
  rintro (a | e | _) w' h
  · obtain ⟨k, db, rfl⟩ := h
    exact hf a k db
  · obtain ⟨k, x, rs, rfl, hrs⟩ := h
    exact herr e k x rs hrs
  · exact h.elim

theorem StatementDone.later {α : Type} {t : Txn δ} {k : Nat} {db : Db δ} {o : Outcome Failure α}
    {w' : World δ} (h : StatementDone n { w with tick := k, txn := some { t with view := db } }
      { t with view := db } o w') : StatementDone n w t o w' := by
  rcases o with a | e | _
  · obtain ⟨k', db', rfl⟩ := h
    exact ⟨k', db', rfl⟩
  · obtain ⟨k', x, rs, rfl, hrs⟩ := h
    exact ⟨k', x, rs, rfl, hrs⟩
  · exact h

theorem runStatement_spec {t : Txn δ} (ht : w.txn = some t) (step : Step δ) (retry : Bool)
    (s : Statement δ) (g : Gates) :
    (runStatement env step retry s g).Wp (StatementDone step.ordinal w t) w := by
  rw [runStatement, Prog.wp_tryCatch]
  have hbody : (do
      let rows ← onData env s.effect
      let g ← takeGate env step retry s.sql { g with rows := g.rows + rows }
      pure (some g) : Exec δ (Option Gates)).Wp (Touched w t) w := by
    refine BatchDone.bind (Q := fun _ _ => True) ?_ fun rows k db _ => ?_
    · exact onData_wp ht (fun _ d _ => ⟨_, _, rfl, trivial⟩) fun e => Touched.failed ht _ e
    · exact BatchDone.bind (takeGate_spec rfl step retry s.sql _) fun _ k db _ =>
        Touched.still rfl k _
  refine hbody.mono ?_
  rintro (a | e | _) w' ⟨k, db, rfl, h⟩
  · exact ⟨k, db, rfl⟩
  · rw [Prog.orCatch_err]
    match e with
    | .sql .lockNotAvailable what =>
      simp only
      split
      · exact ⟨k, db, rfl⟩
      · exact ⟨k, _, _, rfl, .inr ⟨_, _, .inr rfl, rfl⟩⟩
    | .sql .queryCanceled what => exact ⟨k, _, _, rfl, .inr ⟨_, _, .inl rfl, rfl⟩⟩
    | .sql (.other code) what => exact ⟨k, _, _, rfl, .inr ⟨_, _, .inl rfl, rfl⟩⟩
    | .runtime what => exact ⟨k, _, [], by rw [List.append_nil]; rfl, .inl rfl⟩
  · exact h.elim

theorem runStatements_spec (step : Step δ) (retry : Bool) (ss : List (Statement δ)) :
    ∀ {w : World δ} {t : Txn δ} (_ : w.txn = some t) (g : Gates),
      (runStatements env step retry ss g).Wp (StatementDone step.ordinal w t) w := by
  induction ss with
  | nil =>
    intro w t ht g
    exact Touched.statementDone (Touched.still ht w.tick _)
  | cons s ss ih =>
    intro w t ht g
    rw [runStatements]
    split
    · exact ih ht g
    · refine StatementDone.andThen (runStatement_spec ht step retry s g) ?_
        fun e k x rs hrs => ⟨k, x, rs, rfl, hrs⟩
      intro a k db
      cases a with
      | none => exact ⟨k, db, rfl⟩
      | some g => exact (ih rfl g).mono fun _ _ => StatementDone.later

/-! ## Steps of a group -/

theorem Inside.succeeds (h : Inside plan n lo w) {t : Txn δ} (ht : w.txn = some t) (k : Nat)
    (db : Db δ) (rows : Int) : Inside plan (n + 1) lo
      { w with
        tick := k
        txn := some { view := db, work := t.work ++ [n] }
        steps := w.steps ++ [⟨n, .succeeded, rows⟩]
        uncommitted := w.uncommitted ++ [n] } := by
  obtain ⟨⟨t', ht', hwork⟩, hle, hjob, hhead⟩ := h
  rw [ht] at ht'
  cases ht'
  refine ⟨⟨_, rfl, by rw [hwork]⟩, Nat.le_succ_of_le hle, hjob, hhead.succeeds rows ?_ ?_ ?_ ?_ ?_⟩
  · exact .inr (.inl (List.mem_append_right _ (List.mem_singleton_self n)))
  · exact fun m hm => hm
  · exact fun m hm => List.mem_append_left _ hm
  · exact fun m hm => ⟨.inl hm, hhead.kept_lt m hm⟩
  · intro m hm
    rcases List.mem_append.1 hm with hm | hm
    · exact ⟨.inl hm, hhead.open_ge m hm⟩
    · rw [List.mem_singleton.1 hm]
      exact ⟨.inr rfl, hle⟩

theorem runInTransaction_spec {step : Step δ} (hstep : step.ordinal = n) (retry : Bool)
    (h : Inside plan n lo w) : (runInTransaction env cfg step retry).Wp (fun o w' =>
      match o with
      | .ok false => Inside plan (n + 1) lo w'
      | .ok true => ∃ k x, w' = { w with tick := k, txn := x }
      | .err _ => Torn plan w'
      | .out => False) w := by
  subst hstep
  obtain ⟨t, ht, hwork⟩ := h.1
  rw [runInTransaction, Prog.wp_bind, enlist, Prog.wp_modify, Prog.andThen_ok]
  simp only [ht, Option.map_some]
  refine StatementDone.andThen ((setLocal_spec rfl _).mono fun _ _ => Touched.statementDone) ?_
    fun e k x rs hrs => h.failing hrs k x
  intro _ k db
  refine StatementDone.andThen ((setLocal_spec rfl _).mono fun _ _ => Touched.statementDone) ?_
    fun e k x rs hrs => h.failing hrs k x
  intro _ k db
  refine StatementDone.andThen (runStatements_spec step retry step.sql rfl {}) ?_
    fun e k x rs hrs => h.failing hrs k x
  intro g k db
  cases g with
  | none => exact ⟨k, _, rfl⟩
  | some g =>
    simp only
    refine StatementDone.andThen ((setLocal_spec rfl _).mono fun _ _ => Touched.statementDone) ?_
      fun e k x rs hrs => h.failing hrs k x
    intro _ k db
    refine StatementDone.andThen ((setLocal_spec rfl _).mono fun _ _ => Touched.statementDone) ?_
      fun e k x rs hrs => h.failing hrs k x
    intro _ k db
    refine StatementDone.andThen ((setLocal_spec rfl _).mono fun _ _ => Touched.statementDone) ?_
      fun e k x rs hrs => h.failing hrs k x
    intro _ k db
    exact h.succeeds ht k db g.rows

theorem runCopy_spec {step : Step δ} (hstep : step.ordinal = n)
    (payload : δ → Except Failure (Nat × δ)) (h : Inside plan n lo w) :
    (runCopy env step payload).Wp (fun o w' =>
      match o with
      | .ok _ => Inside plan (n + 1) lo w'
      | .err _ => Torn plan w'
      | .out => False) w := by
  subst hstep
  obtain ⟨t, ht, hwork⟩ := h.1
  rw [runCopy, Prog.wp_bind, enlist, Prog.wp_modify, Prog.andThen_ok]
  simp only [ht, Option.map_some]
  rw [Prog.wp_bind, Prog.wp_tryCatch]
  refine onData_wp rfl ?_ fun e => ?_
  · intro written d _
    exact h.succeeds ht _ _ written
  · rw [Prog.orCatch_err]
    match e with
    | .sql state what => exact h.failing (.inr ⟨_, _, .inl rfl, rfl⟩) _ _
    | .runtime what => exact h.torn _ _

/-! ## Steps outside of a group -/

/-- The step succeeded with its work kept, or with none to do. -/
theorem Between.succeeds (h : Between plan n w) (rows : Int) {K' : List Nat}
    (hwork : n ∈ K' ∨ NothingToVerify plan n) (hK : ∀ m ∈ w.kept, m ∈ K')
    (hK' : ∀ m ∈ K', m ∈ w.kept ∨ m = n) :
    Head plan (n + 1) (n + 1) (w.steps ++ [⟨n, .succeeded, rows⟩]) K' [] := by
  obtain ⟨-, -, -, hhead⟩ := h
  refine hhead.succeeds rows (hwork.imp_right .inr) hK (fun m hm => hm) ?_ ?_
  · intro m hm
    rcases hK' m hm with hm | rfl
    · exact ⟨.inl hm, Nat.lt_succ_of_lt (hhead.kept_lt m hm)⟩
    · exact ⟨.inr rfl, Nat.lt_succ_self m⟩
  · intro m hm
    cases hm

theorem runOutside_spec (fuel : Nat) (ss : List (Statement δ)) :
    ∀ w : World δ, (runOutside env fuel ss).Wp
      (fun _ w' => ∃ k l db, w' = { w with tick := k, slots := l, durable := db }) w := by
  induction ss with
  | nil => exact fun w => ⟨w.tick, w.slots, w.durable, rfl⟩
  | cons s ss ih =>
    intro w
    rw [runOutside]
    split
    · exact ih w
    · refine operationSlot_bind fuel ?_ fun k l => ⟨k, l, w.durable, rfl⟩
      intro held k l
      rw [Prog.wp_bind, Prog.wp_leaving]
      have hrelease : ∀ w' : World δ, ∃ l, releaseSlot held w' = { w' with slots := l } := by
        intro w'
        cases held with
        | false => exact ⟨w'.slots, rfl⟩
        | true => exact ⟨w'.slots - 1, rfl⟩
      refine execNontransactional_wp (fun k' db => ?_) fun e k' => ?_
      · obtain ⟨l', hl'⟩ := hrelease { w with tick := k', slots := l, durable := db }
        rw [hl', Prog.andThen_ok]
        refine (ih _).mono ?_
        rintro o w' ⟨k, l, db, rfl⟩
        exact ⟨k, l, db, rfl⟩
      · obtain ⟨l', hl'⟩ := hrelease { w with tick := k', slots := l }
        rw [hl']
        exact ⟨_, _, _, rfl⟩

theorem setSession_spec (wanted : Bool) :
    (setSession env wanted).Wp (fun _ w' => ∃ k, w' = { w with tick := k }) w := by
  rw [setSession]
  split
  · exact call_wp ⟨_, rfl⟩ fun e => ⟨_, rfl⟩
  · exact ⟨w.tick, rfl⟩

/-- The statements of a step without a transaction, with their settings. -/
theorem outside_spec (fuel : Nat) (step : Step δ) :
    (do setSession env true
        setSession env (decide (0 < step.maintenanceWorkMemMb))
        runOutside env fuel step.sql : Exec δ Unit).Wp
      (fun _ w' => ∃ k l db, w' = { w with tick := k, slots := l, durable := db }) w := by
  rw [Prog.wp_bind]
  refine (setSession_spec true).mono ?_
  rintro (_ | e | _) _ ⟨k, rfl⟩
  · rw [Prog.andThen_ok, Prog.wp_bind]
    refine (setSession_spec _).mono ?_
    rintro (_ | e | _) _ ⟨k, rfl⟩
    · rw [Prog.andThen_ok]
      refine (runOutside_spec fuel step.sql _).mono ?_
      rintro o w' ⟨k, l, db, rfl⟩
      exact ⟨k, l, db, rfl⟩
    · exact ⟨_, _, _, rfl⟩
    · exact ⟨_, _, _, rfl⟩
  · exact ⟨_, _, _, rfl⟩
  · exact ⟨_, _, _, rfl⟩

theorem runNontransactional_spec (fuel : Nat) {step : Step δ} (hstep : step.ordinal = n)
    (h : Between plan n w) : (runNontransactional env fuel step).Wp (fun o w' =>
      match o with
      | .ok _ => Between plan (n + 1) w'
      | .err _ => Torn plan w'
      | .out => Torn plan w') w := by
  subst hstep
  have hfail : ∀ {rs : List StepRecord}, Failing step.ordinal rs → ∀ k l db, Torn plan
      { w with tick := k, slots := l, durable := db, steps := w.steps ++ rs } := by
    intro rs hrs k l db
    obtain ⟨-, hun, hjob, hhead⟩ := h
    refine ⟨?_, .inl hjob⟩
    rw [hun]
    exact hhead.failed hrs
  have hnone : ∀ k l db, Torn plan { w with tick := k, slots := l, durable := db } := by
    intro k l db
    have := hfail (.inl rfl) k l db
    rwa [List.append_nil] at this
  rw [runNontransactional, Prog.wp_bind, Prog.wp_tryCatch]
  refine (outside_spec fuel step).mono ?_
  rintro (_ | e | _) _ ⟨k, l, db, rfl⟩
  · obtain ⟨htxn, hun, hjob, hhead⟩ := h
    refine ⟨htxn, hun, hjob, Between.succeeds ⟨htxn, hun, hjob, hhead⟩ 0 ?_ ?_ ?_⟩
    · exact .inl (List.mem_append_right _ (List.mem_singleton_self _))
    · exact fun m hm => List.mem_append_left _ hm
    · exact fun m hm => (List.mem_append.1 hm).imp_right List.mem_singleton.1
  · rw [Prog.orCatch_err]
    match e with
    | .sql state what => exact hfail (.inr ⟨_, _, .inl rfl, rfl⟩) _ _ _
    | .runtime what => exact hnone _ _ _
  · exact hnone _ _ _

/-- A verify step. -/
def Step.verifies (step : Step δ) : Prop :=
  step.txnClass = .transactional ∧ step.kind = .verifyIndexValid

theorem Step.verifies.not_accountable {step : Step δ} (h : step.verifies) :
    step.accountable = false := by
  rw [Step.accountable, h.1, h.2]

theorem Step.verifies_of_not_accountable (step : Step δ) (h : step.accountable = false)
    (hown : ∀ walk, step.txnClass ≠ .ownTxnPerBatch walk) : step.verifies := by
  cases hclass : step.txnClass with
  | ownTxnPerBatch walk => exact absurd hclass (hown walk)
  | txnForbidden =>
    rw [Step.accountable, hclass] at h
    cases h
  | transactional =>
    refine ⟨hclass, ?_⟩
    cases hkind : step.kind with
    | verifyIndexValid => rfl
    | createIndex schema index =>
      rw [Step.accountable, hclass, hkind] at h
      cases h
    | copyRows payload =>
      rw [Step.accountable, hclass, hkind] at h
      cases h
    | other =>
      rw [Step.accountable, hclass, hkind] at h
      cases h

/-- A verify step with nothing to verify succeeds where it stands. -/
theorem AtHead.nothingToVerify {v : ExecVars} (h : AtHead plan v w)
    (hnone : NothingToVerify plan v.position) : AtHead plan v.advance
      { w with steps := w.steps ++ [⟨v.position, .succeeded, 0⟩] } := by
  cases hopen : v.groupOpen with
  | true =>
    obtain ⟨htxn, hle, hjob, hhead⟩ := (atHead_open hopen).1 h
    refine (atHead_open (v := v.advance) hopen).2 ?_
    refine ⟨htxn, Nat.le_succ_of_le hle, hjob, hhead.succeeds 0 (.inr (.inr hnone)) ?_ ?_ ?_ ?_⟩
    · exact fun m hm => hm
    · exact fun m hm => hm
    · exact fun m hm => ⟨.inl hm, hhead.kept_lt m hm⟩
    · exact fun m hm => ⟨.inl hm, hhead.open_ge m hm⟩
  | false =>
    obtain ⟨htxn, hun, hjob, hhead⟩ := (atHead_closed hopen).1 h
    refine (atHead_closed (v := v.advance) hopen).2 ?_
    refine ⟨htxn, hun, hjob, Between.succeeds ⟨htxn, hun, hjob, hhead⟩ 0 (.inr hnone) ?_ ?_⟩
    · exact fun m hm => hm
    · exact fun m hm => .inl hm

theorem Between.brokenOff (h : Between plan n w) {e : Failure} {w' : World δ}
    (hw : BrokenOff w e w') : Torn plan w' := by
  cases e with
  | sql state what =>
    obtain ⟨k, x, rfl⟩ := hw
    exact h.torn k x w.slots
  | runtime what =>
    obtain ⟨k, x, db, d, rfl⟩ := hw
    exact h.torn k x w.slots

/-- The reading of a verify step is committed, or broken off. -/
theorem readIndexValid_spec (htxn : w.txn = none) (name : String × String) :
    (readIndexValid env name n).Wp (fun o w' =>
      match o with
      | .ok _ => ∃ k, w' = { w with tick := k, kept := w.kept ++ [n] }
      | .err e => BrokenOff w e w'
      | .out => False) w := by
  rw [readIndexValid, Prog.wp_bind]
  refine begin_wp htxn ?_ fun e => BrokenOff.refused w e _ _
  rw [Prog.andThen_ok, Prog.wp_bind, enlist, Prog.wp_modify, Prog.andThen_ok, Prog.wp_bind]
  refine readData_wp rfl (fun _ _ => ?_) fun e => BrokenOff.refused w e _ _
  rw [Prog.andThen_ok, Prog.wp_bind]
  refine ask_wp fun valid => ?_
  rw [Prog.andThen_ok, Prog.wp_bind]
  refine commit_wp rfl ?_ (fun e k _ => BrokenOff.refused w e k _) fun what k _ => ⟨k, _, _, _, rfl⟩
  refine ⟨w.tick + 1 + 1 + 1 + 1, ?_⟩
  rw [htxn]
  rfl

/-- The verdict, once the transaction that read it is committed. -/
theorem indexVerdict_spec {v : ExecVars} (hun : Unaccountable plan v.position) {k : Nat}
    (valid : Option Bool) (hopen : v.groupOpen = false) (h : Between plan v.position w)
    {what : String} :
    (if valid = some true then recordStep v.position .succeeded 0
      else do
        recordStep v.position .failed 0
        Prog.throw (.runtime what) : Exec δ Unit).Wp (fun o w' =>
      match o with
      | .ok _ => AtHead plan v.advance w'
      | .err _ => Torn plan w'
      | .out => False) { w with tick := k, kept := w.kept ++ [v.position] } := by
  obtain ⟨htxn, hunc, hjob, hhead⟩ := h
  have hmem : ∀ m ∈ w.kept ++ [v.position], m ∈ w.kept ∨ m = v.position :=
    fun m hm => (List.mem_append.1 hm).imp_right List.mem_singleton.1
  split
  · refine (atHead_closed (v := v.advance) hopen).2 ?_
    refine ⟨htxn, hunc, hjob, Between.succeeds ⟨htxn, hunc, hjob, hhead⟩ 0 ?_ ?_ hmem⟩
    · exact .inl (List.mem_append_right _ (List.mem_singleton_self _))
    · exact fun m hm => List.mem_append_left _ hm
  · refine ⟨?_, .inl hjob⟩
    change Records plan (w.steps ++ _) (w.kept ++ [v.position]) w.uncommitted
    rw [hunc]
    refine hhead.failing (.inr ⟨_, _, .inl rfl, rfl⟩) (fun m hm => ?_)
      fun m hm => List.mem_append_left _ hm
    refine (hmem m hm).imp_right fun hm => ⟨hm, hun, fun u hu => ?_⟩
    cases hu

theorem verifyIndexValid_spec {v : ExecVars} {step : Step δ}
    (hstep : plan.steps[v.position]? = some step) (hverify : step.verifies)
    (h : AtHead plan v w) : (verifyIndexValid env plan.steps step).Wp (fun o w' =>
      match o with
      | .ok _ => AtHead plan v.advance w'
      | .err _ => Torn plan w'
      | .out => False) w := by
  have hn : step.ordinal = v.position := plan.numbered _ _ hstep
  have hun : Unaccountable plan v.position := ⟨step, hstep, hverify.not_accountable⟩
  have hnothing : NoIndex plan.steps v.position → NothingToVerify plan v.position := by
    intro hno
    refine ⟨step, hstep, hverify.not_accountable, hno, fun walk hwalk => ?_⟩
    rw [hverify.1] at hwalk
    cases hwalk
  rw [verifyIndexValid, hn]
  cases hname : indexNameFor plan.steps v.position with
  | none =>
    refine h.nothingToVerify (hnothing fun name hmem => ?_)
    rw [hname] at hmem
    cases hmem
  | some name =>
    obtain ⟨schema, index⟩ := name
    simp only
    split
    · rename_i hempty
      refine h.nothingToVerify (hnothing fun name hmem => ?_)
      rw [hname] at hmem
      cases hmem
      exact hempty
    · rw [Prog.wp_bind]
      cases hopen : v.groupOpen with
      | true =>
        -- the group's transaction is open, and a second one is refused
        have hin := (atHead_open hopen).1 h
        obtain ⟨t, ht, -⟩ := hin.1
        rw [readIndexValid, Prog.wp_bind, begin, Prog.wp_bind, Prog.wp_gets, Prog.andThen_ok, ht]
        exact hin.torn w.tick w.txn
      | false =>
        have hbet := (atHead_closed hopen).1 h
        refine (readIndexValid_spec hbet.1 _).mono ?_
        rintro (valid | e | _) w' hw
        · obtain ⟨k, rfl⟩ := hw
          exact indexVerdict_spec hun valid hopen hbet
        · exact hbet.brokenOff hw
        · exact hw.elim

/-! ## Walks -/

theorem WalkSql.sweeps_true : ∀ sql : WalkSql δ, sql.Sweeps codec (fun _ _ => True)
  | .statement _ => fun _ _ _ _ _ _ _ => trivial
  | .twoStatement _ _ => fun _ _ _ _ _ _ _ _ _ _ _ _ _ _ => trivial
  | .composite _ _ _ => fun _ _ _ _ _ _ _ _ _ _ _ _ _ _ _ _ => trivial
  | .compositeStatement _ _ => fun _ _ _ _ _ _ _ _ _ _ => trivial
  | .grouped _ _ _ =>
    { reencode := fun _ _ _ _ _ => trivial
      enter := fun _ _ _ _ _ => trivial
      next := fun _ _ _ _ _ _ _ _ _ => trivial
      apply := fun _ _ _ _ _ _ _ _ _ _ _ _ _ => trivial }

theorem walkStep_spec (fuel : Nat) {step : Step δ} {walk : Walk δ}
    (hstep : plan.steps[n]? = some step) (hwalk : step.txnClass = .ownTxnPerBatch walk)
    (h : Between plan n w) :
    (runBackfill env cfg codec fuel { walk with ordinal := n }).Wp (fun o w' =>
      match o with
      | .ok _ => Between plan (n + 1) w' ∨ (w'.jobState = .cancelled ∧ Ended plan w')
      | .err _ => Torn plan w'
      | .out => Torn plan w') w := by
  obtain ⟨htxn, hun, hjob, hhead⟩ := h
  have hunacc : Unaccountable plan n := ⟨step, hstep, by rw [Step.accountable, hwalk]⟩
  have hmem : ∀ {m l}, l ∈ w.kept ++ List.replicate m n → l ∈ w.kept ∨ l = n :=
    fun hl => (List.mem_append.1 hl).imp_right List.eq_of_mem_replicate
  -- whatever is kept of the walk, the records are right
  have hrec : ∀ {rs : List StepRecord} (m : Nat), Failing n rs →
      Records plan (w.steps ++ rs) (w.kept ++ List.replicate m n) [] := by
    intro rs m hrs
    refine hhead.failing hrs (fun l hl => ?_) fun l hl => List.mem_append_left _ hl
    refine (hmem hl).imp_right fun hl => ⟨hl, hunacc, fun u hu => ?_⟩
    cases hu
  have hbroken : ∀ w', Broken (fun _ _ => True) (env.resumeCursor n) n w.steps w.kept w' →
      Torn plan w' := by
    rintro w' ⟨hsteps, hun', ⟨m, hkept⟩, hjob', -⟩
    refine ⟨?_, hjob'⟩
    rw [hun', hkept]
    rcases hsteps with hsteps | ⟨rows, hsteps⟩
    · rw [hsteps, ← List.append_nil w.steps]
      exact hrec m (.inl rfl)
    · rw [hsteps]
      exact hrec m (.inr ⟨_, _, .inl rfl, rfl⟩)
  refine Prog.Wp.mono (runBackfill_spec (P := fun _ _ => True) (S := w.steps) (K := w.kept)
    (by exact WalkSql.sweeps_true _) fuel htxn ⟨rfl, hun, 0, by simp⟩ hjob trivial) ?_
  rintro (_ | e | _) w' hw
  · rcases hw with ⟨htxn', ⟨rows, hsteps⟩, hun', ⟨m, hkept⟩, hjob', -⟩ | hw
    · refine .inl ⟨htxn', hun', hjob', ?_⟩
      rw [hsteps, hkept]
      refine Between.succeeds ⟨htxn, hun, hjob, hhead⟩ rows (.inl ?_) ?_ fun l => hmem
      · exact List.mem_append_right _ (by simp)
      · exact fun l hl => List.mem_append_left _ hl
    · obtain ⟨-, ⟨hsteps, hun', m, hkept⟩, ⟨log, hlog, hcalm, hstate⟩, -⟩ := hw
      refine .inr ⟨hstate, ?_, hun', _, log, hlog, hcalm⟩
      rw [hsteps, hkept, ← List.append_nil w.steps]
      exact hrec m (.inl rfl)
  · exact hbroken w' hw
  · exact hbroken w' hw

/-! ## Groups -/

theorem Inside.commits (h : Inside plan n lo w) {t : Txn δ} (ht : w.txn = some t) (k l : Nat) :
    Between plan n
      { w with
        tick := k
        durable := t.view
        kept := w.kept ++ t.work
        txn := none
        uncommitted := []
        slots := l } := by
  obtain ⟨⟨t', ht', hwork⟩, -, hjob, hhead⟩ := h
  rw [ht] at ht'
  cases ht'
  refine ⟨rfl, rfl, hjob, ?_⟩
  rw [hwork]
  exact hhead.commits

theorem releaseSlot_eq (held : Bool) (w : World δ) :
    ∃ l, releaseSlot held w = { w with slots := l } := by
  cases held with
  | false => exact ⟨w.slots, rfl⟩
  | true => exact ⟨w.slots - 1, rfl⟩

theorem commitGroup_spec {v : ExecVars} (h : AtHead plan v w) :
    (commitGroup env v).Wp (fun o w' =>
      match o with
      | .ok v' => v'.groupOpen = false ∧ v'.position = v.position ∧ Between plan v.position w'
      | .err _ => Torn plan w'
      | .out => False) w := by
  rw [commitGroup]
  cases hopen : v.groupOpen with
  | false =>
    rw [atHead_closed hopen] at h
    exact ⟨hopen, rfl, h⟩
  | true =>
    rw [atHead_open hopen] at h
    obtain ⟨t, ht, -⟩ := h.1
    simp only [if_true]
    rw [Prog.wp_bind]
    -- in doubt, the record still has the group as not committed
    refine commit_wp ht ?_ (fun e k _ => h.torn k _) fun what k _ => h.torn k w.txn
    rw [Prog.andThen_ok, Prog.wp_bind, groupCommitted, Prog.wp_modify, Prog.andThen_ok,
      Prog.wp_bind, freeSlot, Prog.wp_modify, Prog.andThen_ok, Prog.wp_pure]
    obtain ⟨l, hl⟩ := releaseSlot_eq v.groupSlot
      { w with tick := w.tick + 1, durable := t.view, kept := w.kept ++ t.work, txn := none
               uncommitted := [] }
    rw [hl]
    exact ⟨rfl, rfl, h.commits ht _ _⟩

theorem leaveGroup_spec {v : ExecVars} {step : Step δ} (h : AtHead plan v w) :
    (leaveGroup env v step).Wp (fun o w' =>
      match o with
      | .ok v' => v'.position = v.position ∧ AtHead plan v' w' ∧
          (step.needsOwn = true → v'.groupOpen = false)
      | .err _ => Torn plan w'
      | .out => False) w := by
  rw [leaveGroup]
  split
  · rw [Prog.wp_bind]
    refine (commitGroup_spec h).mono ?_
    rintro (v' | e | _) w' hw
    · obtain ⟨hopen, hpos, hbet⟩ := hw
      refine ⟨hpos, ?_, fun _ => hopen⟩
      refine (atHead_closed (v := { v' with currentGroup := step.txnGroup }) hopen).2 ?_
      rw [← hpos] at hbet
      exact hbet
    · exact hw
    · exact hw
  · rename_i hsame
    refine ⟨rfl, h, fun hown => ?_⟩
    exact absurd (.inr hown) hsame

theorem openGroup_spec (fuel : Nat) {v : ExecVars} (h : AtHead plan v w) :
    (openGroup env fuel v).Wp (fun o w' =>
      match o with
      | .ok v' => v'.groupOpen = true ∧ v'.position = v.position ∧
          Inside plan v'.position v'.groupFirst w'
      | .err _ => Torn plan w'
      | .out => Torn plan w') w := by
  rw [openGroup]
  cases hopen : v.groupOpen with
  | true =>
    rw [atHead_open hopen] at h
    exact ⟨hopen, rfl, h⟩
  | false =>
    rw [atHead_closed hopen] at h
    simp only [Bool.false_eq_true, if_false]
    refine operationSlot_bind fuel ?_ fun k l => h.torn k w.txn l
    intro held k l
    rw [Prog.wp_bind]
    refine begin_wp (by exact h.1) ?_ fun e => h.torn _ _ _
    -- the group begins with this step, whichever way its clock is set
    have hin : ∀ k', Inside plan v.position v.position
        { w with tick := k', slots := l, txn := some { view := w.durable, work := [] } } := by
      intro k'
      obtain ⟨-, hun, hjob, hhead⟩ := h
      refine ⟨⟨_, rfl, hun.symm⟩, Nat.le_refl _, hjob, ?_⟩
      rw [hun]
      exact hhead
    rw [Prog.andThen_ok]
    split
    · rw [Prog.wp_bind]
      refine ask_wp fun now => ?_
      exact ⟨rfl, rfl, hin _⟩
    · rename_i hfirst
      rw [not_or, not_not] at hfirst
      refine ⟨rfl, rfl, ?_⟩
      change Inside plan v.position v.groupFirst _
      rw [hfirst.1]
      exact hin _

/-- The step number `m` before a step that is there. -/
theorem ordinalAt_of_le {m : Nat} {step : Step δ} (hstep : plan.steps[n]? = some step)
    (hm : m ≤ n) : (plan.steps[m]?.map Step.ordinal).getD 0 = m := by
  obtain ⟨hlt, -⟩ := List.getElem?_eq_some_iff.1 hstep
  have hget : plan.steps[m]? = some (plan.steps[m]) :=
    List.getElem?_eq_getElem (Nat.lt_of_le_of_lt hm hlt)
  rw [hget, Option.map_some, Option.getD_some]
  exact plan.numbered m _ hget

theorem retryGroup_spec {v : ExecVars} {step : Step δ}
    (hstep : plan.steps[v.position]? = some step) (hle : v.groupFirst ≤ v.position)
    (hjob : JobQuiet w)
    (hhead : Head plan v.position v.groupFirst w.steps w.kept w.uncommitted) :
    (retryGroup env cfg plan v step).Wp (fun o w' =>
      match o with
      | .ok none => Ended plan w'
      | .ok (some v') => AtHead plan v' w'
      | .err _ => Torn plan w'
      | .out => False) w := by
  have hn : step.ordinal = v.position := plan.numbered _ _ hstep
  rw [retryGroup, Prog.wp_bind, rollback, Prog.wp_modify, Prog.andThen_ok, Prog.wp_bind,
    groupRolledBack, Prog.wp_modify, Prog.andThen_ok, Prog.wp_bind, freeSlot, Prog.wp_modify,
    Prog.andThen_ok]
  obtain ⟨l, hl⟩ := releaseSlot_eq v.groupSlot
    { w with txn := none, steps := w.steps.map (StepRecord.rollBack w.uncommitted)
             uncommitted := [] }
  rw [hl, Prog.wp_bind]
  refine ask_wp fun stop => ?_
  rw [Prog.andThen_ok]
  cases stop with
  | true => exact ⟨hhead.records.rollBack, rfl, _, _, rfl, hjob.1⟩
  | false =>
    simp only [Bool.false_eq_true, if_false]
    rw [Prog.wp_bind]
    refine ask_wp fun now => ?_
    rw [Prog.andThen_ok]
    split
    · refine ⟨?_, .inl hjob⟩
      have hfailing : Failing v.position [⟨v.position, .lockNotAcquired, 0⟩] :=
        .inr ⟨_, _, .inr rfl, rfl⟩
      have hrec := (hhead.failed hfailing).rollBack
      rw [List.map_append] at hrec
      rw [hn]
      exact hrec
    · refine (atHead_closed (v := { v with
        groupOpen := false, groupSlot := false, position := v.groupFirst
        groupAttempt := v.groupAttempt + 1 }) rfl).2 ?_
      refine ⟨rfl, rfl, hjob, ?_⟩
      change Head plan v.groupFirst v.groupFirst
        ((w.steps.map (StepRecord.rollBack w.uncommitted)).filter fun r =>
          !decide ((plan.steps[v.groupFirst]?.map Step.ordinal).getD 0 ≤ r.ordinal)) w.kept []
      rw [ordinalAt_of_le hstep hle]
      exact hhead.forgets

/-! ## The loop -/

/-- What comes of one turn of the loop. -/
def TurnDone (plan : Plan δ) (o : Outcome Failure (ExecVars ⊕ Unit)) (w : World δ) : Prop :=
  match o with
  | .ok (.inl v) => AtHead plan v w
  | .ok (.inr _) => Ended plan w
  | .err _ => Torn plan w
  | .out => Torn plan w

theorem runGrouped_spec (fuel : Nat) {v : ExecVars} {step : Step δ}
    (hstep : plan.steps[v.position]? = some step) (h : AtHead plan v w) :
    (runGrouped env cfg fuel plan v step).Wp (TurnDone plan) w := by
  have hn : step.ordinal = v.position := plan.numbered _ _ hstep
  rw [runGrouped, Prog.wp_bind]
  refine (openGroup_spec fuel h).mono ?_
  rintro (v' | e | _) w' hw
  rotate_left
  · exact hw
  · exact hw
  obtain ⟨hopen, hpos, hin⟩ := hw
  rw [Prog.andThen_ok]
  rw [← hpos] at hn hstep
  split
  · rw [Prog.wp_bind]
    refine (runCopy_spec hn _ hin).mono ?_
    rintro (_ | e | _) w₂ hw₂
    · exact (atHead_open (v := v'.advance) hopen).2 hw₂
    · exact hw₂
    · exact hw₂.elim
  -- the statements of a step in its group, and the retry if the lock does not come
  · rw [Prog.wp_bind]
    refine (runInTransaction_spec hn step.exclusiveRetry hin).mono ?_
    rintro ((_ | _) | e | _) w₂ hw₂
    · exact (atHead_open (v := v'.advance) hopen).2 hw₂
    · obtain ⟨k, x, rfl⟩ := hw₂
      rw [Prog.andThen_ok]
      simp only [if_true]
      rw [Prog.wp_bind]
      obtain ⟨-, hle, hjob, hhead⟩ := hin
      refine Prog.Wp.mono (retryGroup_spec hstep hle (by exact hjob) (by exact hhead)) ?_
      rintro ((_ | v₃) | e | _) w₃ hw₃
      · exact hw₃
      · exact hw₃
      · exact hw₃
      · exact hw₃.elim
    · exact hw₂
    · exact hw₂.elim

theorem runStep_spec (fuel : Nat) {v : ExecVars} {step : Step δ}
    (hstep : plan.steps[v.position]? = some step) (h : AtHead plan v w)
    (hown : step.needsOwn = true → v.groupOpen = false) :
    (runStep env cfg codec fuel plan v step).Wp (TurnDone plan) w := by
  have hn : step.ordinal = v.position := plan.numbered _ _ hstep
  rw [runStep]
  cases hclass : step.txnClass with
  | ownTxnPerBatch walk =>
    have hopen := hown (by rw [Step.needsOwn, hclass])
    rw [atHead_closed hopen] at h
    simp only
    rw [Prog.wp_bind, hn]
    refine (walkStep_spec fuel hstep hclass h).mono ?_
    rintro (_ | e | _) w' hw
    · rw [Prog.andThen_ok, Prog.wp_bind, Prog.wp_gets, Prog.andThen_ok]
      rcases hw with hw | ⟨hcancelled, hw⟩
      · rw [if_neg]
        · exact (atHead_closed (v := v.advance) hopen).2 hw
        · intro hcancelled
          have hquiet := hw.2.2.1.2
          rw [hcancelled] at hquiet
          cases hquiet
      · rw [if_pos hcancelled]
        exact hw
    · exact hw
    · exact hw
  | txnForbidden =>
    have hopen := hown (by rw [Step.needsOwn, hclass])
    rw [atHead_closed hopen] at h
    simp only
    rw [Prog.wp_bind]
    refine (runNontransactional_spec fuel hn h).mono ?_
    rintro (_ | e | _) w' hw
    · exact (atHead_closed (v := v.advance) hopen).2 hw
    · exact hw
    · exact hw
  | transactional =>
    simp only
    split
    · rename_i hkind
      rw [Prog.wp_bind]
      refine (verifyIndexValid_spec hstep ⟨hclass, hkind⟩ h).mono ?_
      rintro (_ | e | _) w' hw
      · exact hw
      · exact hw
      · exact hw.elim
    · exact runGrouped_spec fuel hstep h

theorem stopJob_spec {v : ExecVars} (h : AtHead plan v w) :
    (stopJob v : Exec δ Unit).Wp (fun o w' => o = .ok () ∧ Ended plan w') w := by
  rw [stopJob]
  cases hopen : v.groupOpen with
  | true =>
    obtain ⟨-, -, hjob, hhead⟩ := (atHead_open hopen).1 h
    exact ⟨rfl, hhead.records.rollBack, rfl, _, _, rfl, hjob.1⟩
  | false =>
    obtain ⟨-, hun, hjob, hhead⟩ := (atHead_closed hopen).1 h
    exact ⟨rfl, hhead.records, hun, _, _, rfl, hjob.1⟩

/-- A step that leaves nothing but its record, or not even that. -/
theorem AtHead.passes {v : ExecVars} (h : AtHead plan v w) : AtHead plan v.advance w := by
  cases hopen : v.groupOpen with
  | true =>
    obtain ⟨htxn, hle, hjob, hhead⟩ := (atHead_open hopen).1 h
    exact (atHead_open (v := v.advance) hopen).2
      ⟨htxn, Nat.le_succ_of_le hle, hjob, hhead.pass⟩
  | false =>
    obtain ⟨htxn, hun, hjob, hhead⟩ := (atHead_closed hopen).1 h
    refine (atHead_closed (v := v.advance) hopen).2 ⟨htxn, hun, hjob, ?_⟩
    exact { hhead.pass with
      kept_lt := fun m hm => Nat.lt_succ_of_lt (hhead.kept_lt m hm)
      open_ge := fun m hm => by cases hm }

theorem AtHead.skips {v : ExecVars} (h : AtHead plan v w) : AtHead plan v.advance
    { w with steps := w.steps ++ [⟨v.position, .skippedSatisfied, 0⟩] } := by
  cases hopen : v.groupOpen with
  | true =>
    obtain ⟨htxn, hle, hjob, hhead⟩ := (atHead_open hopen).1 h
    exact (atHead_open (v := v.advance) hopen).2
      ⟨htxn, Nat.le_succ_of_le hle, hjob, hhead.satisfied 0⟩
  | false =>
    obtain ⟨htxn, hun, hjob, hhead⟩ := (atHead_closed hopen).1 h
    refine (atHead_closed (v := v.advance) hopen).2 ⟨htxn, hun, hjob, ?_⟩
    exact { hhead.satisfied 0 with
      kept_lt := fun m hm => Nat.lt_succ_of_lt (hhead.kept_lt m hm)
      open_ge := fun m hm => by cases hm }

theorem takeStep_spec (fuel : Nat) {v : ExecVars} {step : Step δ}
    (hstep : plan.steps[v.position]? = some step) (h : AtHead plan v w) :
    (takeStep env cfg codec fuel plan v step).Wp (TurnDone plan) w := by
  have hn : step.ordinal = v.position := plan.numbered _ _ hstep
  rw [takeStep, Prog.wp_bind]
  refine ask_wp fun stop => ?_
  rw [Prog.andThen_ok]
  have h' : AtHead plan v { w with tick := w.tick + 1 } := by
    rw [AtHead] at h ⊢
    exact h
  cases stop with
  | true =>
    simp only [if_true]
    rw [Prog.wp_bind]
    refine (stopJob_spec h').mono ?_
    rintro _ w' ⟨rfl, hw⟩
    exact hw
  | false =>
    simp only [Bool.false_eq_true, if_false]
    cases step.action with
    | satisfied =>
      rw [hn]
      exact h'.skips
    | other => exact h'.passes
    | apply =>
      simp only
      rw [Prog.wp_bind]
      refine (leaveGroup_spec h').mono ?_
      rintro (v' | e | _) w' hw
      · obtain ⟨hpos, hat, hown⟩ := hw
        rw [← hpos] at hstep
        exact runStep_spec fuel hstep hat hown
      · exact hw
      · exact hw.elim

theorem nextStep_spec (fuel : Nat) {v : ExecVars} (h : AtHead plan v w) :
    (nextStep env cfg codec fuel plan v).Wp (TurnDone plan) w := by
  rw [nextStep]
  cases hstep : plan.steps[v.position]? with
  | some step => exact takeStep_spec fuel hstep h
  | none =>
    simp only
    rw [Prog.wp_bind]
    refine (commitGroup_spec h).mono ?_
    rintro (v' | e | _) w' hw
    · obtain ⟨-, hun, hjob, hhead⟩ := hw.2.2
      exact ⟨hhead.records, hun, _, _, rfl, hjob.1⟩
    · exact hw
    · exact hw.elim

end Specs

end Executor
end Laswell
