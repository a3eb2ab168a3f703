import Laswell.Base.Triple
import Laswell.Executor.Execute

/-!
# Laswell.Executor.OpenTxn

Whether a transaction of the worker is open, through every function of the executor. The session
throws errors of its own when it is called in the wrong state (`Failure.OfState`): a transaction
begun while one is open, a statement that cannot be in one run inside it, and a statement or a
commit without one.

* `Quiet P p Q`: from `P`, `p` ends in `Q` if it returns, and throws none of these.
* `Stays b p`: `p` leaves a transaction open, or closed, as it found it.
* `openAt`: which group's transaction is open when a step of a plan is reached. `Clear` is what a
  plan has to keep for a verify step not to begin a transaction inside an open one.
* `execute_beginsTwice`: a server that takes every statement brings a plan to the first verify step
  that is not clear, and the run ends there.
-/

namespace Laswell
namespace Executor

open Base Jobs

/-- The session's complaints about its own state. -/
def stateErrors : List String :=
  ["WriteSession: a transaction is open",
   "exec_nontransactional called while a transaction is open; the " ++
     "statement would fail with 'cannot run inside a transaction block'",
   "WriteSession: no transaction is open",
   "WriteSession: no transaction to commit"]

def Failure.OfState : Failure → Prop
  | .sql _ _ => False
  | .runtime what => what ∈ stateErrors

instance : DecidablePred Failure.OfState
  | .sql _ _ => inferInstanceAs (Decidable False)
  | .runtime what => inferInstanceAs (Decidable (what ∈ stateErrors))

/-- The executor's own messages begin otherwise. -/
theorem not_ofState {what : String} {c : Char} (h : what.toList.head? = some c) (hW : c ≠ 'W')
    (he : c ≠ 'e') : ¬ (Failure.runtime what).OfState := by
  intro hmem
  have hhead : ∀ s ∈ stateErrors, s.toList.head? = some 'W' ∨ s.toList.head? = some 'e' := by
    simp [stateErrors]
  rcases hhead what hmem with h' | h' <;> rw [h] at h'
  · exact hW (Option.some.inj h')
  · exact he (Option.some.inj h')

/-- What comes from the server is not one of them. -/
def Honest {α : Type} (r : Except Failure α) : Prop := ∀ e, r = .error e → ¬ e.OfState

def Env.Honest (env : Env) : Prop := ∀ n e, env.sql n = some e → ¬ e.OfState

variable {δ α β γ : Type}

def HasTxn (b : Bool) (w : World δ) : Prop := w.txn.isSome = b

def Quiet (P : World δ → Prop) (p : Exec δ α) (Q : α → World δ → Prop) : Prop :=
  Prog.Triple (fun e => ¬ e.OfState) P p Q

def Stays (b : Bool) (p : Exec δ α) : Prop := Quiet (HasTxn b) p fun _ => HasTxn b

/-! ## Programs that leave it as it is -/

section Stays

variable {b : Bool}

theorem stays_pure {a : α} : Stays b (pure a : Exec δ α) := Prog.triple_pure fun _ h => h

theorem stays_gets {f : World δ → α} : Stays b (Prog.gets f : Exec δ α) :=
  Prog.triple_gets fun _ h => h

theorem stays_throw {e : Failure} (h : ¬ e.OfState) : Stays b (Prog.throw e : Exec δ α) :=
  Prog.triple_throw h

theorem stays_modify {f : World δ → World δ} (h : ∀ w, (f w).txn.isSome = w.txn.isSome) :
    Stays b (Prog.modify f : Exec δ Unit) :=
  Prog.triple_modify fun w hw => (h w).trans hw

theorem stays_bind {p : Exec δ α} {f : α → Exec δ β} (hp : Stays b p) (hf : ∀ a, Stays b (f a)) :
    Stays b (p >>= f) := Prog.triple_bind hp hf

theorem stays_ite {c : Prop} [Decidable c] {p q : Exec δ α} (hp : c → Stays b p)
    (hq : ¬ c → Stays b q) : Stays b (if c then p else q) := Prog.triple_ite hp hq

theorem stays_leaving {p : Exec δ α} {f : World δ → World δ} (hp : Stays b p)
    (hf : ∀ w, (f w).txn.isSome = w.txn.isSome) : Stays b (Prog.leaving p f) :=
  Prog.triple_leaving hp fun _ w hw => (hf w).trans hw

theorem stays_loop {body : β → Exec δ (β ⊕ γ)} (hbody : ∀ x, Stays b (body x)) (fuel : Nat)
    (x : β) : Stays b (Prog.loop body fuel x) :=
  Prog.triple_loop (I := fun _ => HasTxn b)
    (fun x => (hbody x).post fun r _ h => by cases r <;> exact h) fuel x

theorem ask_stays {answer : Nat → α} : Stays b (ask answer : Exec δ α) :=
  stays_bind stays_gets fun _ => stays_bind (stays_modify fun _ => rfl) fun _ => stays_pure

theorem ask_answers {answer : Nat → α} : Quiet (HasTxn b) (ask answer : Exec δ α)
    fun a w => HasTxn b w ∧ ∃ n, a = answer n :=
  fun w hw => ⟨hw, w.tick, rfl⟩

theorem enlist_stays (n : Nat) : Stays b (enlist n : Exec δ Unit) :=
  stays_modify fun _ => Option.isSome_map

theorem publish_stays (s : JobState) : Stays b (publish s : Exec δ Unit) :=
  stays_modify fun _ => rfl

theorem cancelled_stays : Stays b (cancelled : Exec δ Unit) :=
  stays_bind (stays_modify fun _ => rfl) fun _ => publish_stays _

theorem succeed_stays : Stays b (succeed : Exec δ Unit) :=
  stays_bind (stays_modify fun _ => rfl) fun _ => publish_stays _

theorem recordStep_stays (n : Nat) (s : StepState) (rows : Int) :
    Stays b (recordStep n s rows : Exec δ Unit) := stays_modify fun _ => rfl

theorem releaseSlot_txn (held : Bool) (w : World δ) : (releaseSlot held w).txn = w.txn := by
  unfold releaseSlot
  split <;> rfl

theorem operationSlot_stays (env : Env) (fuel : Nat) :
    Stays b (operationSlot env fuel : Exec δ Bool) := by
  refine stays_loop (fun _ => stays_bind ask_stays fun a => ?_) _ _
  cases a with
  | unlimited => exact stays_pure
  | taken => exact stays_bind (stays_modify fun _ => rfl) fun _ => stays_pure
  | full => exact stays_bind ask_stays fun _ => stays_ite (fun _ => stays_pure) fun _ => stays_pure

end Stays

/-! ## The session -/

section Session

variable {env : Env} (henv : env.Honest) {b : Bool}
include henv

theorem call_stays : Stays b (call env : Exec δ Unit) := by
  refine Prog.triple_bind ask_answers fun a => ?_
  cases a with
  | none => exact stays_pure.pre fun _ h => h.1
  | some e =>
    intro w ⟨_, n, hn⟩
    exact henv n e hn.symm

theorem exec_stays {f : Db δ → Except Failure (α × Db δ)} (hf : ∀ db, Honest (f db)) :
    Stays true (exec env f) := by
  refine Prog.triple_bind (R := fun _ => HasTxn true) ?_ fun t =>
    Prog.triple_bind (call_stays henv) fun _ => ?_
  · intro w hw
    obtain ⟨t, ht⟩ := Option.isSome_iff_exists.1 hw
    exact openTxn_wp ht hw
  · cases h : f t.view with
    | error e => exact stays_throw (hf _ e h)
    | ok r => exact stays_bind (stays_modify fun _ => Option.isSome_map) fun _ => stays_pure

theorem onData_stays {f : δ → Except Failure (α × δ)} (hf : ∀ d, Honest (f d)) :
    Stays true (onData env f) := by
  refine exec_stays henv fun db e he => ?_
  cases h : f db.data with
  | error e' =>
    rw [h] at he
    cases he
    exact hf _ _ h
  | ok r =>
    rw [h] at he
    cases he

theorem readData_stays {f : δ → Except Failure α} (hf : ∀ d, Honest (f d)) :
    Stays true (readData env f) := by
  refine onData_stays henv fun d e he => ?_
  cases h : f d with
  | error e' =>
    rw [h] at he
    cases he
    exact hf _ _ h
  | ok r =>
    rw [h] at he
    cases he

theorem begin_opens : Quiet (HasTxn false) (begin env : Exec δ Unit) fun _ => HasTxn true := by
  intro w hw
  have ht : w.txn = none := Option.isSome_eq_false_iff.1 hw |> Option.isNone_iff_eq_none.1
  rw [begin, Prog.wp_bind, Prog.wp_gets, Prog.andThen_ok, ht, Prog.wp_bind, Prog.wp_modify,
    Prog.andThen_ok]
  exact call_stays henv _ rfl

theorem commitNoting_closes {note : World δ → World δ} (hnote : ∀ w, (note w).txn = w.txn) :
    Quiet (HasTxn true) (commitNoting env note) fun _ => HasTxn false := by
  intro w hw
  obtain ⟨t, ht⟩ := Option.isSome_iff_exists.1 hw
  rw [commitNoting, Prog.wp_bind, Prog.wp_gets, Prog.andThen_ok, ht]
  refine Prog.triple_bind ask_answers (fun answer w => ?_) w hw
  rintro ⟨-, n, hn⟩
  rcases answer with _ | ⟨state, what⟩ | what
  · change ((note _).txn.isSome) = false
    rw [hnote]
    rfl
  · exact henv n _ hn.symm
  · simp only
    rw [Prog.wp_bind]
    refine ask_wp fun committed => ?_
    rw [Prog.andThen_ok]
    cases committed <;> exact henv n _ hn.symm

theorem commit_closes : Quiet (HasTxn true) (commit env : Exec δ Unit) fun _ => HasTxn false :=
  commitNoting_closes henv fun _ => rfl

omit henv in
theorem rollback_closes : Quiet (fun _ => True) (rollback : Exec δ Unit) fun _ => HasTxn false :=
  Prog.triple_modify fun _ _ => rfl

theorem execNontransactional_stays {f : δ → Except Failure (α × δ)} (hf : ∀ d, Honest (f d)) :
    Stays false (execNontransactional env f) := by
  intro w hw
  have ht : w.txn = none := Option.isSome_eq_false_iff.1 hw |> Option.isNone_iff_eq_none.1
  rw [execNontransactional, Prog.wp_bind, Prog.wp_gets, Prog.andThen_ok, ht]
  refine stays_bind (call_stays henv) (fun _ => stays_bind stays_gets fun d => ?_) w hw
  cases h : f d with
  | error e => exact stays_throw (hf _ e h)
  | ok r => exact stays_modify fun _ => rfl

end Session

/-! ## Batches and walks -/

def WalkSql.Honest : WalkSql δ → Prop
  | .statement run => ∀ c batch d, Executor.Honest (run c batch d)
  | .twoStatement select apply =>
      (∀ c batch upto d, Executor.Honest (select c batch upto d)) ∧
      ∀ keys d, Executor.Honest (apply keys d)
  | .composite _ select apply =>
      (∀ c batch upto d, Executor.Honest (select c batch upto d)) ∧
      ∀ rows d, Executor.Honest (apply rows d)
  | .compositeStatement _ run => ∀ c batch upto d, Executor.Honest (run c batch upto d)
  | .grouped groups select apply =>
      (∀ c d, Executor.Honest (groups c d)) ∧
      (∀ g c batch d, Executor.Honest (select g c batch d)) ∧
      ∀ g keys d, Executor.Honest (apply g keys d)

structure Walk.Honest (walk : Walk δ) : Prop where
  single : ∀ run ∈ walk.single, ∀ d, Executor.Honest (run d)
  sql : walk.sql.Honest
  upperBound : ∀ read ∈ walk.upperBound, ∀ d, Executor.Honest (read d)
  invariants : ∀ query ∈ walk.invariants, ∀ d, Executor.Honest (query.2 d)
  verifyRemaining : ∀ count ∈ walk.verifyRemaining, ∀ d, Executor.Honest (count d)

theorem honest_ok {a : α} : Honest (.ok a) := fun _ h => by cases h

section Walks

variable {env : Env} {cfg : Config} {codec : ArrayText} {fuel : Nat} (henv : env.Honest)
include henv

/-- A setting, or a reading nothing is taken from. -/
theorem readNothing_stays : Stays true (readData env fun _ : δ => .ok ()) :=
  readData_stays henv fun _ => honest_ok

theorem readOnly_stays {p : Exec δ α} (hp : Stays true p) : Stays false (readOnly env p) :=
  Prog.triple_bind (begin_opens henv) fun _ => Prog.triple_bind hp fun _ =>
    Prog.triple_bind (commit_closes henv) fun _ => stays_pure

theorem lookIntoGroup_stays {groups : Option String → δ → Except Failure (Option String)}
    {select : String → Option String → Int → δ → Except Failure (List String)}
    {apply : String → List String → δ → Except Failure (Nat × δ)}
    (h : (WalkSql.grouped groups select apply).Honest) (batch batchBytes : Int) (holdsLocks : Bool)
    (at_ : GroupCursor) : Stays true
      (lookIntoGroup env codec groups select apply batch batchBytes holdsLocks at_) := by
  refine stays_bind (readData_stays henv (h.2.1 _ _ _)) fun selected => ?_
  split
  · refine stays_ite (fun _ => stays_pure) fun _ =>
      stays_bind (readData_stays henv (h.1 _)) fun next => ?_
    cases next <;> exact stays_pure
  · exact stays_bind (onData_stays henv (h.2.2 _ _)) fun _ => stays_pure

theorem lookAtGroups_stays {groups : Option String → δ → Except Failure (Option String)}
    {select : String → Option String → Int → δ → Except Failure (List String)}
    {apply : String → List String → δ → Except Failure (Nat × δ)}
    (h : (WalkSql.grouped groups select apply).Honest) (batch batchBytes : Int)
    (holdsLocks : Bool) : ∀ looks at_, Stays true
      (lookAtGroups env codec groups select apply batch batchBytes holdsLocks looks at_)
  | 0, _ => stays_pure
  | looks + 1, at_ => by
    have henter : Stays true (enterGroup env groups at_) := by
      refine stays_ite (fun _ => stays_bind (readData_stays henv (h.1 _)) fun next => ?_)
        fun _ => stays_pure
      cases next <;> exact stays_pure
    refine stays_bind henter fun next => ?_
    cases next with
    | none => exact stays_pure
    | some at_ =>
      refine stays_bind (lookIntoGroup_stays henv h batch batchBytes holdsLocks at_) fun r => ?_
      cases r with
      | inl next => exact lookAtGroups_stays h batch batchBytes holdsLocks looks next
      | inr outcome => exact stays_pure

/-- A batch returns with its transaction open. -/
theorem runBatch_stays {walk : Walk δ} (hwalk : walk.Honest) (upto : List (Option String))
    (batch : Int) (v : TxnVars) : Stays true (runBatch env cfg codec walk upto batch v) := by
  have h := hwalk.sql
  unfold runBatch
  cases hsql : walk.sql with
  | statement run =>
    rw [hsql] at h
    exact stays_bind (onData_stays henv (h _ _)) fun _ => stays_pure
  | twoStatement select apply =>
    rw [hsql] at h
    refine stays_bind (readData_stays henv (h.1 _ _ _)) fun selected => ?_
    split
    · exact stays_pure
    · exact stays_bind (onData_stays henv (h.2 _)) fun _ => stays_pure
  | composite columns select apply =>
    rw [hsql] at h
    simp only [runCompositeBatch]
    split
    · exact stays_throw (not_ofState (c := 'a') (by simp) (by decide) (by decide))
    · refine stays_bind (readData_stays henv (h.1 _ _ _)) fun selected => ?_
      split
      · exact stays_pure
      · exact stays_bind (onData_stays henv (h.2 _)) fun _ => stays_pure
  | compositeStatement columns run =>
    rw [hsql] at h
    simp only [runCompositeStatement]
    split
    · exact stays_throw (not_ofState (c := 'a') (by simp) (by decide) (by decide))
    · exact stays_bind (onData_stays henv (h _ _ _)) fun _ => stays_pure
  | grouped groups select apply =>
    rw [hsql] at h
    simp only
    split
    · refine Prog.triple_bind (recordStep_stays _ _ _) fun _ =>
        Prog.triple_bind (R := fun _ _ => True) (Prog.triple_modify fun _ _ => trivial) fun _ => ?_
      exact Prog.triple_throw (not_ofState (c := 'a') (by simp) (by decide) (by decide))
    · exact lookAtGroups_stays henv h _ _ _ _ _

/-- A batch the observer had cancelled is rolled back. -/
theorem attemptBatch_quiet {walk : Walk δ} (hwalk : walk.Honest) (upto : List (Option String))
    (batch : Int) (v : TxnVars) : Quiet (HasTxn true)
      (attemptBatch env cfg codec walk upto batch v) fun r => HasTxn r.isSome := by
  refine Prog.triple_tryCatch
    (Prog.triple_bind (runBatch_stays henv hwalk upto batch v) fun _ =>
      Prog.triple_pure fun _ h => h) fun e he => ?_
  have hagain : Quiet (fun _ => True) (do
      recordStep walk.ordinal .failed v.rowsDone
      Prog.throw e : Exec δ (Option BatchOutcome)) fun r => HasTxn r.isSome :=
    Prog.triple_bind (R := fun _ _ => True) (Prog.triple_modify fun _ _ => trivial) fun _ =>
      Prog.triple_throw he
  match e, he with
  | .runtime what, he => exact Prog.triple_throw he
  | .sql .lockNotAvailable what, _ => exact hagain
  | .sql (.other code) what, _ => exact hagain
  | .sql .queryCanceled what, _ =>
    refine Prog.triple_bind (R := fun _ _ => True) (fun _ _ => trivial) fun asked => ?_
    refine Prog.triple_ite (fun _ => ?_) fun _ => hagain
    exact Prog.triple_bind rollback_closes fun _ =>
      Prog.triple_bind (stays_modify fun _ => rfl) fun _ => Prog.triple_pure fun _ h => h

/-- Nothing is known of the transaction once its batches have ended. -/
theorem batchOfTxn_quiet {walk : Walk δ} (hwalk : walk.Honest) (upto : List (Option String))
    (started : Int) (v : TxnVars) : Quiet (HasTxn true)
      (batchOfTxn env cfg codec walk upto started v)
      fun r w => r.elim (fun _ => HasTxn true w) fun _ => True := by
  refine Prog.triple_bind ask_stays fun throttled =>
    Prog.triple_bind (attemptBatch_quiet henv hwalk upto _ v) fun r => ?_
  cases r with
  | none => exact Prog.triple_pure fun _ _ => trivial
  | some outcome =>
    refine Prog.triple_bind (stays_modify fun _ => rfl) fun _ => ?_
    refine Prog.triple_ite (fun _ => Prog.triple_pure fun _ _ => trivial) fun _ => ?_
    refine Prog.triple_ite (fun _ => Prog.triple_pure fun _ _ => trivial) fun _ => ?_
    refine Prog.triple_bind ask_stays fun waiters => ?_
    refine Prog.triple_ite (fun _ => Prog.triple_pure fun _ _ => trivial) fun _ => ?_
    refine Prog.triple_bind ask_stays fun now => ?_
    refine Prog.triple_ite (fun _ => Prog.triple_pure fun _ _ => trivial) fun _ => ?_
    exact Prog.triple_ite (fun _ => Prog.triple_pure fun _ _ => trivial) fun _ =>
      Prog.triple_pure fun _ h => h

theorem closeTxn_closes (walk : Walk δ) (vars : WalkVars) (e : TxnEnd) :
    Quiet (fun _ => True) (closeTxn env walk vars e) fun _ => HasTxn false := by
  refine Prog.triple_bind (R := fun (t : Option (Txn δ)) w => HasTxn t.isSome w)
    (Prog.triple_gets fun _ _ => rfl) fun t =>
      Prog.triple_ite (fun ht => ?_) fun ht => Prog.triple_pure fun w hw => ?_
  · rw [ht]
    refine Prog.triple_bind ?_ fun _ => stays_pure
    exact Prog.triple_bind (exec_stays henv fun _ => honest_ok) fun _ =>
      commitNoting_closes henv fun _ => rfl
  · exact hw.trans (by simpa using ht)

theorem walkedFraction_stays (walk : Walk δ) (cursor : String) :
    Stays false (walkedFraction env codec walk cursor) := by
  refine stays_ite (fun _ => stays_pure) fun _ => stays_ite (fun _ => stays_pure) fun _ => ?_
  refine Prog.triple_tryCatch (readOnly_stays henv ?_) fun _ _ => rollback_closes
  exact stays_bind (readNothing_stays henv) fun _ => readNothing_stays henv

omit henv in
theorem waitWhilePaused_stays {b : Bool} : Stays b (waitWhilePaused env cfg fuel : Exec δ Unit) := by
  refine stays_bind ask_stays fun paused => stays_ite (fun _ => ?_) fun _ => ?_
  · refine stays_bind (publish_stays _) fun _ => stays_bind ask_stays fun pausedAt => ?_
    refine stays_bind (stays_loop (fun _ => ?_) _ _) fun _ =>
      stays_bind ask_stays fun _ => stays_ite (fun _ => stays_pure) fun _ => publish_stays _
    refine stays_bind ask_stays fun _ => stays_ite (fun _ => ?_) fun _ => stays_pure
    refine stays_bind ask_stays fun _ => stays_ite (fun _ => stays_pure) fun _ => ?_
    refine stays_bind ask_stays fun now => stays_ite (fun _ => ?_) fun _ => stays_pure
    refine stays_bind ?_ fun _ => stays_pure
    exact stays_bind (stays_modify fun _ => rfl) fun _ => stays_bind (publish_stays _) fun _ =>
      stays_throw (not_ofState (c := 'a') (by simp) (by decide) (by decide))
  · exact stays_bind stays_gets fun s => stays_ite (fun _ => publish_stays _) fun _ => stays_pure

omit henv in
theorem unlessStopped_stays {b : Bool} {stopped : α} {p : Exec δ α} (hp : Stays b p) :
    Stays b (unlessStopped env stopped p) :=
  stays_bind ask_stays fun _ =>
    stays_ite (fun _ => stays_bind cancelled_stays fun _ => stays_pure) fun _ => hp

/-- One transaction of a walk, from closed to closed. -/
theorem walkTxn_stays {walk : Walk δ} (hwalk : walk.Honest) (upto : List (Option String))
    (vars : WalkVars) : Stays false (walkTxn env cfg codec fuel walk upto vars) := by
  refine unlessStopped_stays (stays_bind waitWhilePaused_stays fun _ =>
    unlessStopped_stays (stays_bind (operationSlot_stays env fuel) fun held =>
      stays_leaving (unlessStopped_stays ?_) fun w => by rw [releaseSlot_txn]))
  refine Prog.triple_bind (begin_opens henv) fun _ => Prog.triple_bind (enlist_stays _) fun _ =>
    Prog.triple_bind (stays_modify fun _ => rfl) fun _ => Prog.triple_bind ask_stays fun started => ?_
  refine Prog.triple_bind (Prog.triple_loop (batchOfTxn_quiet henv hwalk upto started) _ _)
    fun e => Prog.triple_bind (closeTxn_closes henv walk vars e) fun vars =>
      stays_ite (fun _ => stays_pure) fun _ => stays_bind ?_ fun _ => stays_pure
  refine stays_bind ask_stays fun now => stays_ite (fun _ => ?_) fun _ => stays_pure
  exact stays_bind ask_stays fun asked =>
    stays_bind (walkedFraction_stays henv walk _) fun _ => stays_pure

theorem singleStatement_stays {walk : Walk δ} (hwalk : walk.Honest) (resumedFrom : String) :
    Stays false (singleStatement env cfg fuel walk resumedFrom) := by
  unfold singleStatement
  cases hs : walk.single with
  | none => exact stays_pure
  | some run =>
    refine stays_ite (fun _ => stays_pure) fun _ =>
      stays_bind (operationSlot_stays env fuel) fun held =>
        stays_leaving (unlessStopped_stays ?_) fun w => by rw [releaseSlot_txn]
    refine Prog.triple_bind (begin_opens henv) fun _ => Prog.triple_bind (enlist_stays _) fun _ =>
      Prog.triple_tryCatch ?_ fun e he => ?_
    · refine Prog.triple_bind (R := fun _ => HasTxn true) ?_ fun _ =>
        Prog.triple_bind (readNothing_stays henv) fun _ =>
          Prog.triple_bind (onData_stays henv (hwalk.single run hs)) fun rows =>
            Prog.triple_bind (commit_closes henv) fun _ => stays_pure
      exact stays_ite (fun _ => readNothing_stays henv) fun _ => stays_pure
    · have hagain : Quiet (fun _ => True) (do
          recordStep walk.ordinal .failed 0
          Prog.throw e : Exec δ SingleEnd) fun _ => HasTxn false :=
        Prog.triple_bind (R := fun _ _ => True) (Prog.triple_modify fun _ _ => trivial) fun _ =>
          Prog.triple_throw he
      match e, he with
      | .runtime what, he => exact Prog.triple_throw he
      | .sql (.other code) what, _ => exact hagain
      | .sql .lockNotAvailable what, _ => exact Prog.triple_bind rollback_closes fun _ => stays_pure
      | .sql .queryCanceled what, _ =>
        refine Prog.triple_bind (R := fun _ _ => True) (fun _ _ => trivial) fun stop => ?_
        refine Prog.triple_ite (fun _ => Prog.triple_bind rollback_closes fun _ =>
          stays_bind cancelled_stays fun _ => stays_pure) fun _ => ?_
        refine Prog.triple_bind (R := fun _ _ => True) (fun _ _ => trivial) fun asked => ?_
        exact Prog.triple_ite (fun _ => Prog.triple_bind rollback_closes fun _ => stays_pure)
          fun _ => hagain

theorem readInvariants_stays : ∀ {queries : List (String × (δ → Except Failure (Option String)))},
    (∀ query ∈ queries, ∀ d, Honest (query.2 d)) → Stays true (readInvariants env queries)
  | [], _ => stays_pure
  | (_, _) :: _, h =>
    stays_bind (readData_stays henv (h _ (List.mem_cons_self ..))) fun _ =>
      stays_bind (readInvariants_stays fun query hq => h query (List.mem_cons_of_mem _ hq))
        fun _ => stays_pure

theorem finishWalk_stays {walk : Walk δ} (hwalk : walk.Honest)
    (before : List (String × Option String)) (rows : Int) :
    Stays false (finishWalk env codec walk before rows) := by
  refine stays_bind ?_ fun _ => stays_bind ?_ fun _ => recordStep_stays _ _ _
  · unfold verifyRemaining
    cases hv : walk.verifyRemaining with
    | none => exact stays_pure
    | some count =>
      refine stays_bind (readOnly_stays henv (readData_stays henv (hwalk.verifyRemaining _ hv)))
        fun n => stays_ite (fun _ => stays_bind (recordStep_stays _ _ _) fun _ => ?_)
          fun _ => stays_pure
      exact stays_throw (not_ofState (c := 'v') (by simp) (by decide) (by decide))
  · refine stays_ite (fun _ => stays_pure) fun _ =>
      stays_bind (readOnly_stays henv (readInvariants_stays henv hwalk.invariants)) fun after => ?_
    split
    · exact stays_pure
    · exact stays_bind (recordStep_stays _ _ _) fun _ =>
        stays_throw (not_ofState (c := 'i') (by simp) (by decide) (by decide))

/-- A walk starts with no transaction open and leaves none. -/
theorem runBackfill_stays {walk : Walk δ} (hwalk : walk.Honest) :
    Stays false (runBackfill env cfg codec fuel walk) := by
  refine stays_bind (stays_modify fun _ => rfl) fun _ => stays_bind ?_ fun before =>
    stays_bind ?_ fun upto => stays_bind ask_stays fun started =>
      stays_bind (walkedFraction_stays henv walk _) fun _ =>
        stays_bind (singleStatement_stays henv hwalk _) fun r => ?_
  · exact stays_ite (fun _ => stays_pure) fun _ =>
      readOnly_stays henv (readInvariants_stays henv hwalk.invariants)
  · unfold readUpperBound
    cases hu : walk.upperBound with
    | none => exact stays_pure
    | some read => exact readOnly_stays henv (readData_stays henv (hwalk.upperBound _ hu))
  · cases r with
    | stopped => exact stays_pure
    | done rows => exact finishWalk_stays henv hwalk before rows
    | walk =>
      refine stays_bind (stays_loop (walkTxn_stays henv hwalk upto) _ _) fun vars => ?_
      cases vars with
      | none => exact stays_pure
      | some vars => exact finishWalk_stays henv hwalk before _

end Walks

/-! ## Steps -/

structure Step.Honest (step : Step δ) : Prop where
  sql : ∀ s ∈ step.sql, ∀ d, Executor.Honest (s.effect d)
  copy : ∀ payload, step.kind = .copyRows (some payload) → ∀ d, Executor.Honest (payload d)
  walk : ∀ walk, step.txnClass = .ownTxnPerBatch walk → walk.Honest

section Steps

variable {env : Env} {cfg : Config} {codec : ArrayText} {fuel : Nat} (henv : env.Honest)
include henv

theorem setLocal_stays (wanted : Bool) : Stays true (setLocal env wanted : Exec δ Unit) :=
  stays_ite (fun _ => readNothing_stays henv) fun _ => stays_pure

theorem takeGate_stays (step : Step δ) (retry : Bool) (sql : String) (g : Gates) :
    Stays true (takeGate env step retry sql g) := by
  refine stays_ite (fun _ => stays_ite (fun _ => ?_) fun _ => stays_pure) fun _ => stays_pure
  exact stays_bind (readNothing_stays henv) fun _ => stays_pure

/-- Where the lock did not come, the caller has the transaction to roll back. -/
theorem runStatement_quiet {step : Step δ} {s : Statement δ} (hs : ∀ d, Honest (s.effect d))
    (retry : Bool) (g : Gates) : Quiet (HasTxn true) (runStatement env step retry s g)
      fun r w => r.isSome → HasTxn true w := by
  refine Prog.triple_tryCatch ?_ fun e he => ?_
  · exact Prog.triple_bind (onData_stays henv hs) fun rows =>
      Prog.triple_bind (takeGate_stays henv step retry _ _) fun g =>
        Prog.triple_pure fun _ h _ => h
  · have hagain : Quiet (fun _ => True) (do
        recordStep step.ordinal .failed 0
        Prog.throw e : Exec δ (Option Gates)) fun r w => r.isSome → HasTxn true w :=
      Prog.triple_bind (R := fun _ _ => True) (Prog.triple_modify fun _ _ => trivial) fun _ =>
        Prog.triple_throw he
    match e, he with
    | .runtime what, he => exact Prog.triple_throw he
    | .sql .queryCanceled what, _ => exact hagain
    | .sql (.other code) what, _ => exact hagain
    | .sql .lockNotAvailable what, _ =>
      refine Prog.triple_ite (fun _ => Prog.triple_pure fun _ _ h => by simp at h) fun _ => ?_
      refine Prog.triple_bind (R := fun _ _ => True) (Prog.triple_modify fun _ _ => trivial)
        fun _ => ?_
      exact Prog.triple_throw (not_ofState (c := 's') (by simp) (by decide) (by decide))

theorem runStatements_quiet {step : Step δ} (retry : Bool) : ∀ {statements : List (Statement δ)},
    (∀ s ∈ statements, ∀ d, Honest (s.effect d)) → ∀ g,
    Quiet (HasTxn true) (runStatements env step retry statements g)
      fun r w => r.isSome → HasTxn true w
  | [], _, _ => Prog.triple_pure fun _ h _ => h
  | s :: rest, h, g => by
    have hrest : ∀ g, Quiet (HasTxn true) (runStatements env step retry rest g)
        fun r w => r.isSome → HasTxn true w :=
      runStatements_quiet retry fun s' hs' => h s' (List.mem_cons_of_mem _ hs')
    refine Prog.triple_ite (fun _ => hrest g) fun _ =>
      Prog.triple_bind (runStatement_quiet henv (h s (List.mem_cons_self ..)) retry g) fun r => ?_
    cases r with
    | none => exact Prog.triple_pure fun _ _ h => by simp at h
    | some g => exact (hrest g).pre fun _ hw => hw rfl

theorem runInTransaction_quiet {step : Step δ} (hstep : step.Honest) (retry : Bool) :
    Quiet (HasTxn true) (runInTransaction env cfg step retry)
      fun timedOut w => timedOut = false → HasTxn true w := by
  refine Prog.triple_bind (enlist_stays _) fun _ => Prog.triple_bind (setLocal_stays henv _) fun _ =>
    Prog.triple_bind (setLocal_stays henv _) fun _ =>
      Prog.triple_bind (runStatements_quiet henv retry hstep.sql {}) fun r => ?_
  cases r with
  | none => exact Prog.triple_pure fun _ _ h => by simp at h
  | some g =>
    have hstays : Stays true (do
        setLocal env (decide (0 < step.maintenanceWorkMemMb))
        setLocal env (decide (0 < cfg.statementTimeoutMs) && step.noStatementTimeout)
        setLocal env g.gated
        recordStep step.ordinal .succeeded g.rows
        pushUncommitted step.ordinal
        pure false : Exec δ Bool) :=
      stays_bind (setLocal_stays henv _) fun _ => stays_bind (setLocal_stays henv _) fun _ =>
        stays_bind (setLocal_stays henv _) fun _ => stays_bind (recordStep_stays _ _ _) fun _ =>
          stays_bind (stays_modify fun _ => rfl) fun _ => stays_pure
    exact (hstays.pre fun _ hw => hw rfl).post fun _ _ hw _ => hw

theorem runCopy_stays (step : Step δ) {payload : δ → Except Failure (Nat × δ)}
    (hp : ∀ d, Honest (payload d)) : Stays true (runCopy env step payload) := by
  refine stays_bind (enlist_stays _) fun _ => stays_bind ?_ fun written =>
    stays_bind (recordStep_stays _ _ _) fun _ => stays_modify fun _ => rfl
  refine Prog.triple_tryCatch (onData_stays henv hp) fun e he => ?_
  cases e with
  | runtime what => exact Prog.triple_throw he
  | sql state what =>
    exact Prog.triple_bind (R := fun _ _ => True) (Prog.triple_modify fun _ _ => trivial) fun _ =>
      Prog.triple_throw he

theorem runOutside_stays : ∀ {statements : List (Statement δ)},
    (∀ s ∈ statements, ∀ d, Honest (s.effect d)) → Stays false (runOutside env fuel statements)
  | [], _ => stays_pure
  | s :: rest, h => by
    have hrest := runOutside_stays fun s' hs' => h s' (List.mem_cons_of_mem _ hs')
    refine stays_ite (fun _ => hrest) fun _ =>
      stays_bind (operationSlot_stays env fuel) fun held => stays_bind ?_ fun _ => hrest
    exact stays_leaving (execNontransactional_stays henv (h s (List.mem_cons_self ..)))
      fun w => by rw [releaseSlot_txn]

theorem runNontransactional_stays {step : Step δ} (hstep : step.Honest) :
    Stays false (runNontransactional env fuel step) := by
  refine stays_bind ?_ fun _ => stays_bind (stays_modify fun _ => rfl) fun _ =>
    recordStep_stays _ _ _
  have hset : ∀ wanted, Stays false (setSession env wanted : Exec δ Unit) := fun wanted =>
    stays_ite (fun _ => call_stays henv) fun _ => stays_pure
  refine Prog.triple_tryCatch (stays_bind (hset _) fun _ => stays_bind (hset _) fun _ =>
    runOutside_stays henv hstep.sql) fun e he => ?_
  cases e with
  | runtime what => exact Prog.triple_throw he
  | sql state what =>
    exact Prog.triple_bind (R := fun _ _ => True) (Prog.triple_modify fun _ _ => trivial) fun _ =>
      Prog.triple_throw he

/-- A verify step begins a transaction only where it has an index to look for. -/
theorem verifyIndexValid_stays {steps : List (Step δ)} {step : Step δ} {b : Bool}
    (h : b = true → NoIndex steps step.ordinal) :
    Stays b (verifyIndexValid env steps step) := by
  unfold verifyIndexValid
  split
  · exact recordStep_stays _ _ _
  · rename_i schema index hname
    refine stays_ite (fun _ => recordStep_stays _ _ _) fun hindex => ?_
    cases b with
    | true => exact absurd (h rfl _ hname) hindex
    | false =>
      refine Prog.triple_bind (R := fun _ => HasTxn false) ?_ fun valid =>
        stays_ite (fun _ => recordStep_stays _ _ _) fun _ =>
          stays_bind (recordStep_stays _ _ _) fun _ =>
            stays_throw (not_ofState (c := 'i') (by simp) (by decide) (by decide))
      exact Prog.triple_bind (begin_opens henv) fun _ => Prog.triple_bind (enlist_stays _) fun _ =>
        Prog.triple_bind (readNothing_stays henv) fun _ => Prog.triple_bind ask_stays fun valid =>
          Prog.triple_bind (commit_closes henv) fun _ => stays_pure

end Steps

/-! ## Plans -/

/-- The group whose transaction is open after a step, if `g` is the one open before it. -/
def Step.openAfter (step : Step δ) (g : Option Int) : Option Int :=
  match step.action with
  | .satisfied => g
  | .other => g
  | .apply =>
    if step.needsOwn then none
    else
      match step.kind with
      | .verifyIndexValid => if g = some step.txnGroup then g else none
      | _ => some step.txnGroup

/-- The group whose transaction is open when step `n` is reached. -/
def openAt (steps : List (Step δ)) : Nat → Option Int
  | 0 => none
  | n + 1 =>
    match steps[n]? with
    | none => openAt steps n
    | some step => step.openAfter (openAt steps n)

/-- Reached inside its group's open transaction, a verify step has no index to look for. -/
def Plan.Clear (plan : Plan δ) : Prop :=
  ∀ n step, plan.steps[n]? = some step → step.action = .apply → step.needsOwn = false →
    step.kind = .verifyIndexValid → openAt plan.steps n = some step.txnGroup →
    NoIndex plan.steps step.ordinal

def Plan.Honest (plan : Plan δ) : Prop := ∀ step ∈ plan.steps, step.Honest

/-- Between steps: the loop knows whether a transaction is open, and one that is belongs to the
group the plan says. -/
def LoopInv (plan : Plan δ) (v : ExecVars) (w : World δ) : Prop :=
  HasTxn v.groupOpen w ∧ (v.groupOpen = true → openAt plan.steps v.position = some v.currentGroup)

/-- After the group before `step` was left. -/
structure Left (plan : Plan δ) (v : ExecVars) (step : Step δ) (w : World δ) : Prop where
  txn : HasTxn v.groupOpen w
  group : v.currentGroup = step.txnGroup
  isOpen : v.groupOpen = true → openAt plan.steps v.position = some step.txnGroup
  apart : step.needsOwn = true → v.groupOpen = false

section Plans

variable {env : Env} {cfg : Config} {codec : ArrayText} {fuel : Nat} (henv : env.Honest)
  {plan : Plan δ} {v : ExecVars} {step : Step δ}

theorem openAt_succ (hstep : plan.steps[v.position]? = some step) :
    openAt plan.steps v.advance.position = step.openAfter (openAt plan.steps v.position) := by
  rw [ExecVars.advance, openAt, hstep]

include henv

theorem commitGroup_quiet : Quiet (HasTxn v.groupOpen) (commitGroup env v : Exec δ ExecVars)
    fun v' w => HasTxn false w ∧ v'.groupOpen = false ∧ v'.position = v.position := by
  refine Prog.triple_ite (fun hopen => ?_) fun hopen => Prog.triple_pure fun w hw => ?_
  · rw [hopen]
    refine Prog.triple_bind (commit_closes henv) fun _ =>
      Prog.triple_bind (stays_modify fun _ => rfl) fun _ =>
        Prog.triple_bind (stays_modify fun w => by rw [releaseSlot_txn]) fun _ =>
          Prog.triple_pure fun w hw => ⟨hw, rfl, rfl⟩
  · have hclosed : v.groupOpen = false := by simpa using hopen
    rw [hclosed] at hw
    exact ⟨hw, hclosed, rfl⟩

theorem leaveGroup_quiet : Quiet (LoopInv plan v) (leaveGroup env v step)
    fun v' w => Left plan v' step w ∧ v'.position = v.position := by
  refine Prog.triple_ite (fun _ => ?_) fun hstay => Prog.triple_pure fun w hw => ?_
  · refine Prog.triple_bind ((commitGroup_quiet henv).pre fun w hw => hw.1) fun v' =>
      Prog.triple_pure fun w hw => ?_
    obtain ⟨hclosed, hopen, hpos⟩ := hw
    refine ⟨⟨?_, rfl, fun h => ?_, fun _ => hopen⟩, hpos⟩
    · rw [hopen]
      exact hclosed
    · rw [hopen] at h
      cases h
  · simp only [not_or, not_not, Bool.not_eq_true] at hstay
    refine ⟨⟨hw.1, hstay.1.symm, fun h => ?_, fun h => ?_⟩, rfl⟩
    · rw [hw.2 h, hstay.1]
    · rw [hstay.2] at h
      cases h

theorem openGroup_quiet : Quiet (HasTxn v.groupOpen) (openGroup env fuel v : Exec δ ExecVars)
    fun v' w => HasTxn true w ∧ v'.groupOpen = true ∧ v'.position = v.position ∧
      v'.currentGroup = v.currentGroup := by
  refine Prog.triple_ite (fun hopen => Prog.triple_pure fun w hw => ?_) fun hopen => ?_
  · rw [hopen] at hw
    exact ⟨hw, hopen, rfl, rfl⟩
  · have hclosed : v.groupOpen = false := by simpa using hopen
    rw [hclosed]
    refine Prog.triple_bind (operationSlot_stays env fuel) fun held =>
      Prog.triple_bind (begin_opens henv) fun _ => Prog.triple_ite (fun _ => ?_) fun _ => ?_
    · exact Prog.triple_bind ask_stays fun now => Prog.triple_pure fun w hw => ⟨hw, rfl, rfl, rfl⟩
    · exact Prog.triple_pure fun w hw => ⟨hw, rfl, rfl, rfl⟩

omit henv in
/-- A group that is run again starts from no transaction. -/
theorem retryGroup_quiet : Quiet (fun _ => True) (retryGroup env cfg plan v step)
    fun r w => ∀ v' ∈ r, HasTxn false w ∧ v'.groupOpen = false := by
  refine Prog.triple_bind rollback_closes fun _ =>
    Prog.triple_bind (stays_modify fun _ => rfl) fun _ =>
      Prog.triple_bind (stays_modify fun w => by rw [releaseSlot_txn]) fun _ =>
        Prog.triple_bind ask_stays fun stop => Prog.triple_ite (fun _ => ?_) fun _ => ?_
  · exact Prog.triple_bind cancelled_stays fun _ => Prog.triple_pure fun _ _ v' hv => by cases hv
  · refine Prog.triple_bind ask_stays fun now => Prog.triple_ite (fun _ => ?_) fun _ => ?_
    · exact Prog.triple_bind (recordStep_stays _ _ _) fun _ =>
        Prog.triple_throw (not_ofState (c := 's') (by simp) (by decide) (by decide))
    · refine Prog.triple_bind (stays_modify fun _ => rfl) fun _ =>
        Prog.triple_pure fun w hw v' hv => ?_
      cases hv
      exact ⟨hw, rfl⟩

/-- A step of a group leaves its transaction open, unless the whole group is to be run again. -/
theorem runGrouped_quiet (hstep : step.Honest) (hat : plan.steps[v.position]? = some step)
    (hafter : ∀ g, step.openAfter g = some step.txnGroup) :
    Quiet (Left plan v step) (runGrouped env cfg fuel plan v step)
      fun r w => r.elim (LoopInv plan · w) fun _ => True := by
  -- where the step is done
  have hdone : ∀ v' : ExecVars, v'.groupOpen = true → v'.position = v.position →
      v'.currentGroup = step.txnGroup → ∀ w, HasTxn true w → LoopInv plan v'.advance w := by
    intro v' hopen hpos hgroup w hw
    have hat' : plan.steps[v'.position]? = some step := by rw [hpos, hat]
    refine ⟨?_, fun _ => ?_⟩
    · rw [ExecVars.advance, hopen]
      exact hw
    · rw [openAt_succ hat', hafter, ExecVars.advance, hgroup]
  intro w hw
  refine Prog.triple_bind (P := HasTxn v.groupOpen) (openGroup_quiet henv) (fun v' => ?_) w hw.txn
  intro w' ⟨htxn, hopen, hpos, hgroup⟩
  rw [hw.group] at hgroup
  have hnext := hdone v' hopen hpos hgroup
  split
  · rename_i payload hkind
    refine Prog.triple_bind (runCopy_stays henv step (hstep.copy payload hkind)) (fun _ => ?_) w'
      htxn
    exact Prog.triple_pure fun w h => hnext w h
  · refine Prog.triple_bind (runInTransaction_quiet henv hstep _) (fun timedOut => ?_) w' htxn
    cases timedOut with
    | false => exact Prog.triple_pure fun w h => hnext w (h rfl)
    | true =>
      refine Prog.triple_bind (retryGroup_quiet.pre fun _ _ => trivial) fun r => ?_
      cases r with
      | none => exact Prog.triple_pure fun _ _ => trivial
      | some v'' =>
        refine Prog.triple_pure fun w h => ?_
        obtain ⟨hclosed, hfalse⟩ := h v'' rfl
        refine ⟨?_, fun h => ?_⟩
        · rw [hfalse]
          exact hclosed
        · rw [hfalse] at h
          cases h

omit henv in
/-- A step that is done outside of any group. -/
theorem advance_closed {w : World δ} (hopen : v.groupOpen = false) (hw : HasTxn false w) :
    LoopInv plan v.advance w := by
  refine ⟨?_, fun h => ?_⟩
  · rw [ExecVars.advance, hopen]
    exact hw
  · rw [ExecVars.advance, hopen] at h
    cases h

theorem runStep_quiet (hclear : plan.Clear) (hstep : step.Honest)
    (hat : plan.steps[v.position]? = some step) (happly : step.action = .apply) :
    Quiet (Left plan v step) (runStep env cfg codec fuel plan v step)
      fun r w => r.elim (LoopInv plan · w) fun _ => True := by
  unfold runStep
  intro w hw
  cases hclass : step.txnClass with
  | ownTxnPerBatch walk =>
    have hneeds : step.needsOwn = true := by rw [Step.needsOwn, hclass]
    have hopen := hw.apart hneeds
    have hclosed : HasTxn false w := hopen ▸ hw.txn
    have hwalk := hstep.walk walk hclass
    have hwalk' : Walk.Honest { walk with ordinal := step.ordinal } :=
      ⟨hwalk.single, hwalk.sql, hwalk.upperBound, hwalk.invariants, hwalk.verifyRemaining⟩
    refine Prog.triple_bind (runBackfill_stays henv hwalk') (fun _ => ?_) w hclosed
    refine Prog.triple_bind stays_gets fun state => Prog.triple_ite (fun _ => ?_) fun _ => ?_
    · exact Prog.triple_pure fun _ _ => trivial
    · exact Prog.triple_pure fun w' hw' => advance_closed hopen hw'
  | txnForbidden =>
    have hneeds : step.needsOwn = true := by rw [Step.needsOwn, hclass]
    have hopen := hw.apart hneeds
    have hclosed : HasTxn false w := hopen ▸ hw.txn
    refine Prog.triple_bind (runNontransactional_stays henv hstep) (fun _ => ?_) w hclosed
    exact Prog.triple_pure fun w' hw' => advance_closed hopen hw'
  | transactional =>
    have hneeds : step.needsOwn = false := by rw [Step.needsOwn, hclass]
    have hgrouped : step.kind ≠ .verifyIndexValid → ∀ g, step.openAfter g = some step.txnGroup := by
      intro hkind g
      rw [Step.openAfter, happly]
      cases hk : step.kind with
      | verifyIndexValid => exact absurd hk hkind
      | createIndex schema index => simp [hneeds]
      | copyRows payload => simp [hneeds]
      | other => simp [hneeds]
    cases hkind : step.kind with
    | verifyIndexValid =>
      -- inside an open transaction there is no index to look for
      have hno : v.groupOpen = true → NoIndex plan.steps step.ordinal := fun hopen =>
        hclear v.position step hat happly hneeds hkind (hw.isOpen hopen)
      refine Prog.triple_bind (verifyIndexValid_stays henv hno) (fun _ => ?_) w hw.txn
      refine Prog.triple_pure fun w' hw' => ⟨hw', fun hopen => ?_⟩
      have hgroup := hw.isOpen hopen
      rw [openAt_succ hat, Step.openAfter, happly]
      simp only [hneeds, hkind, hgroup, Bool.false_eq_true, if_false, if_true]
      rw [ExecVars.advance, hw.group]
    | createIndex schema index =>
      exact runGrouped_quiet henv hstep hat (hgrouped (by simp [hkind])) w hw
    | copyRows payload => exact runGrouped_quiet henv hstep hat (hgrouped (by simp [hkind])) w hw
    | other => exact runGrouped_quiet henv hstep hat (hgrouped (by simp [hkind])) w hw

/-- One step of the loop. -/
theorem nextStep_quiet (hclear : plan.Clear) (hplan : plan.Honest) (v : ExecVars) :
    Quiet (LoopInv plan v) (nextStep env cfg codec fuel plan v)
      fun r w => r.elim (LoopInv plan · w) fun _ => True := by
  unfold nextStep
  cases hat : plan.steps[v.position]? with
  | none =>
    exact Prog.triple_bind ((commitGroup_quiet henv).pre fun _ hw => hw.1) fun _ =>
      Prog.triple_bind (succeed_stays.pre fun _ hw => hw.1) fun _ =>
        Prog.triple_pure fun _ _ => trivial
  | some step =>
    have hstep := hplan step (List.mem_of_getElem? hat)
    have hask : Quiet (LoopInv plan v) (ask env.cancelStop) fun _ => LoopInv plan v :=
      fun w hw => hw
    refine Prog.triple_bind hask fun stop => Prog.triple_ite (fun _ => ?_) fun _ => ?_
    · refine Prog.triple_bind (R := fun _ _ => True) ?_ fun _ => Prog.triple_pure fun _ _ => trivial
      refine Prog.triple_ite (fun _ => ?_) fun _ => fun _ _ => trivial
      exact fun _ _ => trivial
    · cases happly : step.action with
      | satisfied =>
        refine Prog.triple_bind (R := fun _ => LoopInv plan v) (fun _ hw => hw) fun _ =>
          Prog.triple_pure fun w hw => ⟨hw.1, fun hopen => ?_⟩
        rw [openAt_succ hat, Step.openAfter, happly]
        exact hw.2 hopen
      | other =>
        refine Prog.triple_pure fun w hw => ⟨hw.1, fun hopen => ?_⟩
        rw [openAt_succ hat, Step.openAfter, happly]
        exact hw.2 hopen
      | apply =>
        refine Prog.triple_bind (leaveGroup_quiet henv) fun v' => ?_
        intro w ⟨hleft, hpos⟩
        exact runStep_quiet henv hclear hstep (by rw [hpos, hat]) happly w hleft

/-- A run of a clear plan never calls the session in the wrong state, however often its groups are
run again. -/
theorem execute_quiet (hclear : plan.Clear) (hplan : plan.Honest) :
    Quiet (HasTxn false) (execute env cfg codec fuel plan) fun _ _ => True := by
  refine Prog.triple_bind (call_stays henv) fun _ => Prog.triple_bind (publish_stays _) fun _ => ?_
  exact (Prog.triple_loop (nextStep_quiet henv hclear hplan) fuel {}).pre fun w hw =>
    ⟨hw, fun h => by cases h⟩

end Plans

/-! ## A server that takes every statement

With an idle operator and a server that refuses nothing, a verify step that is reached inside its
group's open transaction and has an index to look for ends the run. -/

/-- A step of statements that are taken, in a group or outside of one. -/
structure Step.Taken (step : Step δ) : Prop where
  apply : step.action = .apply
  kind : step.kind ≠ .verifyIndexValid
  copy : ∀ payload, step.kind ≠ .copyRows (some payload)
  walk : ∀ walk, step.txnClass ≠ .ownTxnPerBatch walk
  sql : ∀ s ∈ step.sql, ∀ d, ∃ r, s.effect d = .ok r

/-- Step `n` is next, and the transaction that is open is the one the plan says. -/
structure Reached (plan : Plan δ) (n : Nat) (v : ExecVars) (w : World δ) : Prop where
  position : v.position = n
  txn : HasTxn v.groupOpen w
  openAt : openAt plan.steps n = if v.groupOpen then some v.currentGroup else none

section Taken

variable {cfg : Config} {codec : ArrayText} {fuel : Nat} {plan : Plan δ} {v : ExecVars}
  {step : Step δ} {w : World δ} {n : Nat}

theorem ends_tryCatch {p : Nat → Exec δ α} {h : Failure → Exec δ α} {Q : α → World δ → Prop}
    (hp : Prog.Ends p Q w) : Prog.Ends (fun fuel => Prog.tryCatch (p fuel) h) Q w := by
  obtain ⟨a, w', enough, heq, hq⟩ := hp
  refine ⟨a, w', enough, fun fuel hle => ?_, hq⟩
  simp only [Prog.tryCatch, heq fuel hle]

theorem call_taken {b : Bool} (hw : HasTxn b w) :
    Prog.Ends (fun _ => call {}) (fun _ => HasTxn b) w := Prog.ends_of_eq rfl hw

theorem onData_taken {f : δ → Except Failure (α × δ)} (hf : ∀ d, ∃ r, f d = .ok r)
    (hw : HasTxn true w) : Prog.Ends (fun _ => onData {} f) (fun _ => HasTxn true) w := by
  obtain ⟨t, ht⟩ := Option.isSome_iff_exists.1 hw
  obtain ⟨r, hr⟩ := hf t.view.data
  have hopen : openTxn w = (.ok t, w) := by
    rw [openTxn, Prog.bind_gets, ht]
    rfl
  refine Prog.ends_bind (Prog.ends_of_eq hopen ?_)
  refine Prog.ends_bind ((call_taken hw).mono fun _ w' hw' => ?_)
  simp only [hr, Except.map]
  exact Prog.ends_bind (Prog.ends_of_eq rfl (Prog.ends_pure (Option.isSome_map.trans hw')))

theorem setLocal_taken (wanted : Bool) (hw : HasTxn true w) :
    Prog.Ends (fun _ => setLocal {} wanted) (fun _ => HasTxn true) w := by
  cases wanted with
  | false => exact Prog.ends_pure hw
  | true => exact onData_taken (fun d => ⟨_, rfl⟩) hw

theorem takeGate_taken (retry : Bool) (sql : String) (g : Gates) (hw : HasTxn true w) :
    Prog.Ends (fun _ => takeGate {} step retry sql g) (fun _ => HasTxn true) w := by
  unfold takeGate
  split
  · split
    · exact Prog.ends_bind ((onData_taken (fun d => ⟨_, rfl⟩) hw).mono fun _ _ hw' =>
        Prog.ends_pure hw')
    · exact Prog.ends_pure hw
  · exact Prog.ends_pure hw

theorem runStatement_taken {s : Statement δ} (hs : ∀ d, ∃ r, s.effect d = .ok r) (retry : Bool)
    (g : Gates) (hw : HasTxn true w) : Prog.Ends (fun _ => runStatement {} step retry s g)
      (fun r w' => r.isSome = true ∧ HasTxn true w') w := by
  refine ends_tryCatch (Prog.ends_bind ((onData_taken hs hw).mono fun rows _ hw' => ?_))
  exact Prog.ends_bind ((takeGate_taken retry s.sql _ hw').mono fun g _ hw'' =>
    Prog.ends_pure ⟨rfl, hw''⟩)

theorem runStatements_taken (retry : Bool) : ∀ {statements : List (Statement δ)},
    (∀ s ∈ statements, ∀ d, ∃ r, s.effect d = .ok r) → ∀ (g : Gates) {w : World δ},
    HasTxn true w → Prog.Ends (fun _ => runStatements {} step retry statements g)
      (fun r w' => r.isSome = true ∧ HasTxn true w') w
  | [], _, _, _, hw => Prog.ends_pure ⟨rfl, hw⟩
  | s :: rest, h, g, _, hw => by
    have hrest := fun g {w} => @runStatements_taken retry rest
      (fun s' hs' => h s' (List.mem_cons_of_mem _ hs')) g w
    unfold runStatements
    split
    · exact hrest g hw
    · refine Prog.ends_bind ((runStatement_taken (h s (List.mem_cons_self ..)) retry g hw).mono ?_)
      intro r w' hr
      obtain ⟨g', rfl⟩ := Option.isSome_iff_exists.1 hr.1
      exact hrest g' hr.2

theorem runInTransaction_taken (h : step.Taken) (retry : Bool) (hw : HasTxn true w) :
    Prog.Ends (fun _ => runInTransaction {} cfg step retry)
      (fun timedOut w' => timedOut = false ∧ HasTxn true w') w := by
  have henlist : HasTxn true (enlist step.ordinal w).2 := Option.isSome_map.trans hw
  refine Prog.ends_bind (Prog.ends_of_eq rfl ?_)
  refine Prog.ends_bind ((setLocal_taken _ henlist).mono fun _ _ hw => ?_)
  refine Prog.ends_bind ((setLocal_taken _ hw).mono fun _ _ hw => ?_)
  refine Prog.ends_bind ((runStatements_taken retry h.sql {} hw).mono fun r _ hr => ?_)
  obtain ⟨g, rfl⟩ := Option.isSome_iff_exists.1 hr.1
  refine Prog.ends_bind ((setLocal_taken _ hr.2).mono fun _ _ hw => ?_)
  refine Prog.ends_bind ((setLocal_taken _ hw).mono fun _ _ hw => ?_)
  refine Prog.ends_bind ((setLocal_taken _ hw).mono fun _ _ hw => ?_)
  exact Prog.ends_bind (Prog.ends_of_eq rfl (Prog.ends_bind (Prog.ends_of_eq rfl
    (Prog.ends_pure ⟨rfl, hw⟩))))

theorem execNontransactional_taken {f : δ → Except Failure (α × δ)} (hf : ∀ d, ∃ r, f d = .ok r)
    (hw : HasTxn false w) :
    Prog.Ends (fun _ => execNontransactional {} f) (fun _ => HasTxn false) w := by
  have ht : w.txn = none := Option.isSome_eq_false_iff.1 hw |> Option.isNone_iff_eq_none.1
  refine Prog.ends_bind (Prog.ends_of_eq rfl ?_)
  rw [ht]
  refine Prog.ends_bind ((call_taken hw).mono fun _ w' hw' => ?_)
  refine Prog.ends_bind (Prog.ends_of_eq rfl ?_)
  obtain ⟨r, hr⟩ := hf w'.durable.data
  rw [hr]
  exact Prog.ends_of_eq rfl hw'

theorem runOutside_taken : ∀ {statements : List (Statement δ)},
    (∀ s ∈ statements, ∀ d, ∃ r, s.effect d = .ok r) → ∀ {w : World δ}, HasTxn false w →
    Prog.Ends (fun _ => runOutside {} (fuel + 1) statements) (fun _ => HasTxn false) w
  | [], _, _, hw => Prog.ends_pure hw
  | s :: rest, h, w, hw => by
    have hrest := fun {w} => @runOutside_taken rest
      (fun s' hs' => h s' (List.mem_cons_of_mem _ hs')) w
    unfold runOutside
    split
    · exact hrest hw
    · refine Prog.ends_bind (Prog.ends_of_eq rfl (Prog.ends_bind ?_))
      obtain ⟨_, w', enough, heq, hw'⟩ := execNontransactional_taken
        (h s (List.mem_cons_self ..)) (show HasTxn false { w with tick := w.tick + 1 } from hw)
      refine Prog.ends_of_eq (a := ()) ?_ (hrest hw')
      have hran := heq enough (Nat.le_refl _)
      exact Prod.ext (congrArg Prod.fst hran) (congrArg Prod.snd hran)

theorem runNontransactional_taken (h : step.Taken) (hw : HasTxn false w) :
    Prog.Ends (fun _ => runNontransactional {} (fuel + 1) step) (fun _ => HasTxn false) w := by
  refine Prog.ends_bind ((ends_tryCatch ?_).mono fun _ _ hw =>
    Prog.ends_bind (Prog.ends_of_eq rfl (Prog.ends_of_eq rfl hw)))
  have hset : ∀ wanted {w : World δ}, HasTxn false w →
      Prog.Ends (fun _ => setSession {} wanted) (fun _ => HasTxn false) w := by
    intro wanted w hw
    cases wanted with
    | false => exact Prog.ends_pure hw
    | true => exact call_taken hw
  exact Prog.ends_bind ((hset _ hw).mono fun _ _ hw => Prog.ends_bind ((hset _ hw).mono
    fun _ _ hw => runOutside_taken h.sql hw))

theorem commitGroup_taken (hw : HasTxn v.groupOpen w) : Prog.Ends (fun _ => commitGroup {} v)
    (fun v' w' => HasTxn false w' ∧ v'.groupOpen = false ∧ v'.position = v.position) w := by
  unfold commitGroup
  split
  · rename_i hopen
    rw [hopen] at hw
    obtain ⟨t, ht⟩ := Option.isSome_iff_exists.1 hw
    have hcommit : commit {} w = (.ok (), { w with
        tick := w.tick + 1, durable := t.view, kept := w.kept ++ t.work, txn := none }) :=
      commitNoting_ok ht rfl id
    refine Prog.ends_bind (Prog.ends_of_eq hcommit (Prog.ends_bind (Prog.ends_of_eq rfl
      (Prog.ends_bind (Prog.ends_of_eq rfl (Prog.ends_pure ⟨?_, rfl, rfl⟩))))))
    rw [HasTxn, releaseSlot_txn]
    rfl
  · rename_i hopen
    rw [Bool.not_eq_true] at hopen
    rw [hopen] at hw
    exact Prog.ends_pure ⟨hw, hopen, rfl⟩

/-- After the group before `step` was left, the transaction that is open is the step's own. -/
theorem leaveGroup_taken (h : Reached plan n v w) : Prog.Ends (fun _ => leaveGroup {} v step)
    (fun v' w' => HasTxn v'.groupOpen w' ∧ v'.position = n ∧ v'.currentGroup = step.txnGroup ∧
      (v'.groupOpen = true ↔
        step.needsOwn = false ∧ openAt plan.steps n = some step.txnGroup)) w := by
  have hat := h.openAt
  unfold leaveGroup
  split
  · rename_i hleave
    refine Prog.ends_bind ((commitGroup_taken h.txn).mono ?_)
    rintro v' w' ⟨hw', hopen, hpos⟩
    refine Prog.ends_pure ⟨?_, hpos.trans h.position, rfl, ?_⟩
    · rw [hopen]
      exact hw'
    · refine iff_of_false (by simp [hopen]) ?_
      rintro ⟨hneeds, hgroup⟩
      rw [hat] at hgroup
      split at hgroup
      · have hsame := Option.some.inj hgroup
        simp [hneeds, hsame] at hleave
      · cases hgroup
  · rename_i hstay
    simp only [not_or, not_not, Bool.not_eq_true] at hstay
    refine Prog.ends_pure ⟨h.txn, h.position, hstay.1.symm, ?_⟩
    rw [hat, hstay.1]
    cases v.groupOpen <;> simp [hstay.2]

theorem openGroup_taken (hw : HasTxn v.groupOpen w) :
    Prog.Ends (fun _ => openGroup {} (fuel + 1) v) (fun v' w' => HasTxn true w' ∧
      v'.groupOpen = true ∧ v'.position = v.position ∧ v'.currentGroup = v.currentGroup) w := by
  unfold openGroup
  split
  · rename_i hopen
    rw [hopen] at hw
    exact Prog.ends_pure ⟨hw, hopen, rfl, rfl⟩
  · rename_i hopen
    rw [Bool.not_eq_true] at hopen
    rw [hopen] at hw
    have ht : w.txn = none := Option.isSome_eq_false_iff.1 hw |> Option.isNone_iff_eq_none.1
    have hbegin : ∀ n, begin {} { w with tick := n } = (.ok (), { w with
        tick := n + 1, txn := some { view := w.durable, work := [] } }) := by
      intro n
      rw [begin, Prog.bind_gets, ht]
      rfl
    refine Prog.ends_bind (Prog.ends_of_eq rfl (Prog.ends_bind (Prog.ends_of_eq (hbegin _) ?_)))
    split
    · exact Prog.ends_bind (Prog.ends_of_eq rfl (Prog.ends_pure ⟨rfl, rfl, rfl, rfl⟩))
    · exact Prog.ends_pure ⟨rfl, rfl, rfl, rfl⟩

/-- Step `n` is taken, and the next one is reached. -/
theorem nextStep_taken (hat : plan.steps[n]? = some step) (hstep : step.Taken)
    (h : Reached plan n v w) : Prog.Ends (fun _ => nextStep {} cfg codec (fuel + 1) plan v)
      (fun r w' => ∃ v', r = .inl v' ∧ Reached plan (n + 1) v' w') w := by
  have hnext : openAt plan.steps (n + 1) = step.openAfter (openAt plan.steps n) := by
    rw [openAt, hat]
  have hreached : Reached plan n v { w with tick := w.tick + 1 } := ⟨h.position, h.txn, h.openAt⟩
  unfold nextStep
  rw [h.position, hat]
  refine Prog.ends_bind (Prog.ends_of_eq rfl ?_)
  rw [if_neg (by simp), hstep.apply]
  refine Prog.ends_bind ((leaveGroup_taken hreached).mono ?_)
  rintro v₁ w₁ ⟨hw₁, hpos, hgroup, hopen⟩
  unfold runStep
  cases hclass : step.txnClass with
  | ownTxnPerBatch walk => exact absurd hclass (hstep.walk walk)
  | txnForbidden =>
    have hneeds : step.needsOwn = true := by rw [Step.needsOwn, hclass]
    have hclosed : v₁.groupOpen = false := by
      rw [← Bool.not_eq_true, hopen, hneeds]
      simp
    rw [hclosed] at hw₁
    refine Prog.ends_bind ((runNontransactional_taken hstep hw₁).mono fun _ w₂ hw₂ => ?_)
    refine Prog.ends_pure ⟨_, rfl, by rw [ExecVars.advance, hpos], ?_, ?_⟩
    · rw [ExecVars.advance, hclosed]
      exact hw₂
    · rw [hnext, Step.openAfter, hstep.apply, ExecVars.advance, hclosed]
      simp [hneeds]
  | transactional =>
    have hneeds : step.needsOwn = false := by rw [Step.needsOwn, hclass]
    have hafter : openAt plan.steps (n + 1) = some step.txnGroup := by
      rw [hnext, Step.openAfter, hstep.apply]
      simp only [hneeds, Bool.false_eq_true, if_false]
      split
      · rename_i hkind
        exact absurd hkind hstep.kind
      · rfl
    have hgrouped : Prog.Ends (fun _ => runGrouped {} cfg (fuel + 1) plan v₁ step)
        (fun r w' => ∃ v', r = .inl v' ∧ Reached plan (n + 1) v' w') w₁ := by
      refine Prog.ends_bind ((openGroup_taken hw₁).mono ?_)
      rintro v₂ w₂ ⟨htxn, hopen₂, hpos₂, hgroup₂⟩
      have hdone : ∀ w, HasTxn true w → Reached plan (n + 1) v₂.advance w := by
        intro w hw
        refine ⟨by rw [ExecVars.advance, hpos₂, hpos], ?_, ?_⟩
        · rw [ExecVars.advance, hopen₂]
          exact hw
        · rw [hafter, ExecVars.advance, hopen₂, hgroup₂, hgroup]
          rfl
      split
      · rename_i payload hkind
        exact absurd hkind (hstep.copy payload)
      · refine Prog.ends_bind ((runInTransaction_taken hstep _ htxn).mono ?_)
        rintro timedOut w₃ ⟨rfl, hw₃⟩
        exact Prog.ends_pure ⟨_, rfl, hdone _ hw₃⟩
    dsimp only
    split
    · rename_i hkind
      exact absurd hkind hstep.kind
    · exact hgrouped

theorem verifyIndexValid_beginsTwice (hw : HasTxn true w)
    (hindex : ¬ NoIndex plan.steps step.ordinal) :
    ∃ w', verifyIndexValid {} plan.steps step w =
      (.err (.runtime "WriteSession: a transaction is open"), w') := by
  obtain ⟨t, ht⟩ := Option.isSome_iff_exists.1 hw
  obtain ⟨⟨schema, index⟩, hname, hnot⟩ : ∃ name, indexNameFor plan.steps step.ordinal = some name ∧
      name.2 ≠ "" := by
    simp only [NoIndex, not_forall] at hindex
    obtain ⟨name, hname, hnot⟩ := hindex
    exact ⟨name, hname, hnot⟩
  have hbegin : begin {} w = (.err (.runtime "WriteSession: a transaction is open"), w) := by
    rw [begin, Prog.bind_gets, ht]
    rfl
  unfold verifyIndexValid
  rw [hname]
  simp only
  rw [if_neg hnot]
  exact ⟨w, Prog.bind_err (Prog.bind_err hbegin)⟩

/-- A verify step inside its group's open transaction begins another. -/
theorem nextStep_beginsTwice (hat : plan.steps[n]? = some step) (happly : step.action = .apply)
    (hneeds : step.needsOwn = false) (hkind : step.kind = .verifyIndexValid)
    (hopen : openAt plan.steps n = some step.txnGroup) (hindex : ¬ NoIndex plan.steps step.ordinal)
    (h : Reached plan n v w) : ∃ w', nextStep {} cfg codec fuel plan v w =
      (.err (.runtime "WriteSession: a transaction is open"), w') := by
  have hreached : Reached plan n v { w with tick := w.tick + 1 } := ⟨h.position, h.txn, h.openAt⟩
  have hended := @leaveGroup_taken _ plan v step _ n hreached
  obtain ⟨v₁, w₁, enough, hleave, hw₁, -, -, hopen₁⟩ := hended
  rw [hopen₁.2 ⟨hneeds, hopen⟩] at hw₁
  obtain ⟨w₂, hverify⟩ := verifyIndexValid_beginsTwice hw₁ hindex
  have hclass : step.txnClass = .transactional := by
    unfold Step.needsOwn at hneeds
    split at hneeds <;> simp_all
  refine ⟨w₂, ?_⟩
  unfold nextStep
  rw [h.position, hat]
  simp only [takeStep, happly]
  refine (Prog.bind_ok (p := ask fun _ => false) rfl).trans ?_
  rw [if_neg (by simp)]
  refine (Prog.bind_ok (hleave enough (Nat.le_refl _))).trans ?_
  unfold runStep
  rw [hclass]
  simp only [hkind]
  exact Prog.bind_err hverify

/-- The run lemma. -/
theorem loop_beginsTwice {m : Nat} {e : Failure} (hm : ∀ v w, Reached plan m v w →
      ∃ w', nextStep {} cfg codec (fuel + 1) plan v w = (.err e, w')) :
    ∀ (k n : Nat) (v : ExecVars) (w : World δ), n + k = m →
      (∀ i, n ≤ i → i < m → ∃ step, plan.steps[i]? = some step ∧ step.Taken) →
      Reached plan n v w → ∀ more,
      (Prog.loop (nextStep {} cfg codec (fuel + 1) plan) (k + 1 + more) v w).1 = .err e := by
  intro k
  induction k with
  | zero =>
    intro n v w hn _ h more
    obtain ⟨w', hthrow⟩ := hm v w (by rwa [← hn])
    rw [Nat.add_right_comm, Prog.loop, Prog.bind_err hthrow]
  | succ k ih =>
    intro n v w hn htaken h more
    obtain ⟨step, hat, hstep⟩ := htaken n (Nat.le_refl _) (by omega)
    obtain ⟨r, w', enough, hnext, v', rfl, h'⟩ :=
      @nextStep_taken _ cfg codec fuel plan v step w n hat hstep h
    rw [Nat.add_right_comm, Prog.loop, Prog.bind_ok (hnext enough (Nat.le_refl _))]
    exact ih (n + 1) v' w' (by omega) (fun i hi => htaken i (by omega)) h' more

/-- A run that reaches a verify step in its group's open transaction ends there. -/
theorem execute_beginsTwice (hw : HasTxn false w) (hat : plan.steps[n]? = some step)
    (happly : step.action = .apply) (hneeds : step.needsOwn = false)
    (hkind : step.kind = .verifyIndexValid) (hopen : openAt plan.steps n = some step.txnGroup)
    (hindex : ¬ NoIndex plan.steps step.ordinal)
    (htaken : ∀ i < n, ∃ step, plan.steps[i]? = some step ∧ step.Taken) (hfuel : n < fuel) :
    (execute {} cfg codec fuel plan w).1 =
      .err (.runtime "WriteSession: a transaction is open") := by
  obtain ⟨more, rfl⟩ : ∃ more, fuel = n + 1 + more := ⟨fuel - (n + 1), by omega⟩
  have hfirst : ∀ w' : World δ, HasTxn false w' → Reached plan 0 {} w' := fun _ hw' =>
    ⟨rfl, hw', rfl⟩
  have hloop := @loop_beginsTwice _ cfg codec (n + more) plan n _
    (fun v w h => nextStep_beginsTwice hat happly hneeds hkind hopen hindex h) n 0 {} _ (by omega)
    (fun i _ hi => htaken i hi) (hfirst (publish .running { w with tick := w.tick + 1 }).2 hw) more
  have hsucc : n + more + 1 = n + 1 + more := by omega
  rw [hsucc] at hloop
  exact hloop

end Taken

end Executor
end Laswell
