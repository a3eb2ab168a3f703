import Laswell.Executor.WalkSpec
import Laswell.Executor.Table

/-!
# Laswell.Executor.Committed

What a transaction of a walk leaves in the database, in whichever way it ends: what there was, or
the cursor its log has as committed last, together with the data of that commit. In between nothing
is written that others can see.

* `Patient`: invariants that whatever only reports, waits or asks keeps. `batchOfTxn_keeps` is what
  the batches of a walk keep of them.
* `walkTxn_recorded`: a transaction of a walk, from the operation slot to the commit.
* `singleStatement_within`: the statement over the whole table, for what its change keeps.
* `walkSql_keeps`: what no mutation breaks, no statement of a walk breaks.
-/

namespace Laswell
namespace Executor

open Base Jobs

variable {δ α : Type}

/-- The cursor committed last, with the data it was committed with. -/
def lastCommit : List (WalkEvent δ) → Option (String × δ)
  | [] => none
  | .committed c d :: _ => some (c, d)
  | .began _ :: rest => lastCommit rest
  | .batch _ :: rest => lastCommit rest
  | .batchCancelled :: rest => lastCommit rest

theorem Faithful.lastCommit {P : String → δ → Prop} {start c : String} {d : δ}
    {log : List (WalkEvent δ)} (h : Faithful P start log) (hc : lastCommit log = some (c, d)) :
    P c d := by
  induction log with
  | nil => cases hc
  | cons e rest ih =>
    cases e with
    | committed c' d' =>
      cases hc
      exact h.1
    | began c' => exact ih h.2 hc
    | batch c' => exact ih h hc
    | batchCancelled => exact ih h hc

/-! ## Invariants that waiting keeps -/

/-- Of `w`, nothing that is written is gone in `w'`, and no success is new: time went on, and the
open transaction may have been rolled back. -/
structure Idled (w w' : World δ) : Prop where
  durable : w'.durable = w.durable
  walkLog : w'.walkLog = w.walkLog
  txn : w'.txn = w.txn ∨ w'.txn = none
  tick : w.tick ≤ w'.tick
  steps : ∀ r ∈ w'.steps, r.state = .succeeded → r ∈ w.steps

def Patient (I : World δ → Prop) : Prop := ∀ w w', Idled w w' → I w → I w'

section Patient

variable {I : World δ → Prop} (hI : Patient I) {env : Env} {cfg : Config} {fuel : Nat}
include hI

theorem ask_keeps {answer : Nat → α} : Prog.Keeps I (ask answer : Exec δ α) := fun w h =>
  hI w _ ⟨rfl, rfl, .inl rfl, Nat.le_succ _, fun _ hr _ => hr⟩ h

theorem call_keeps : Prog.Keeps I (call env : Exec δ Unit) := by
  refine Prog.keeps_bind (ask_keeps hI) fun a => ?_
  cases a with
  | none => exact Prog.keeps_pure
  | some e => exact Prog.keeps_throw

theorem publish_keeps (s : JobState) : Prog.Keeps I (publish s : Exec δ Unit) := fun w h =>
  hI w _ ⟨rfl, rfl, .inl rfl, Nat.le_refl _, fun _ hr _ => hr⟩ h

theorem cancelled_keeps : Prog.Keeps I (cancelled : Exec δ Unit) := fun w h =>
  hI w _ ⟨rfl, rfl, .inl rfl, Nat.le_refl _, fun _ hr _ => hr⟩ h

theorem recordStep_keeps (n : Nat) {s : StepState} (hs : s ≠ .succeeded) (rows : Int) :
    Prog.Keeps I (recordStep n s rows : Exec δ Unit) := fun w h => by
  refine hI w _ ⟨rfl, rfl, .inl rfl, Nat.le_refl _, fun r hr hstate => ?_⟩ h
  refine (List.mem_append.1 hr).resolve_right fun hr => hs ?_
  rwa [List.mem_singleton.1 hr] at hstate

theorem rollback_keeps : Prog.Keeps I (rollback : Exec δ Unit) := fun w h =>
  hI w _ ⟨rfl, rfl, .inr rfl, Nat.le_refl _, fun _ hr _ => hr⟩ h

theorem releaseSlot_keeps (held : Bool) (w : World δ) (h : I w) : I (releaseSlot held w) := by
  cases held with
  | false => exact h
  | true => exact hI w _ ⟨rfl, rfl, .inl rfl, Nat.le_refl _, fun _ hr _ => hr⟩ h

theorem operationSlot_keeps : Prog.Keeps I (operationSlot env fuel : Exec δ Bool) := by
  refine Prog.keeps_loop (fun _ => Prog.keeps_bind (ask_keeps hI) fun a => ?_) _ _
  cases a with
  | unlimited => exact Prog.keeps_pure
  | taken =>
    refine Prog.keeps_bind (fun w h => ?_) fun _ => Prog.keeps_pure
    exact hI w _ ⟨rfl, rfl, .inl rfl, Nat.le_refl _, fun _ hr _ => hr⟩ h
  | full =>
    exact Prog.keeps_bind (ask_keeps hI) fun _ =>
      Prog.keeps_ite (fun _ => Prog.keeps_pure) fun _ => Prog.keeps_pure

theorem unlessStopped_keeps {stopped : α} {p : Exec δ α} (hp : Prog.Keeps I p) :
    Prog.Keeps I (unlessStopped env stopped p) :=
  Prog.keeps_bind (ask_keeps hI) fun _ => Prog.keeps_ite
    (fun _ => Prog.keeps_bind (cancelled_keeps hI) fun _ => Prog.keeps_pure) fun _ => hp

theorem waitWhilePaused_keeps : Prog.Keeps I (waitWhilePaused env cfg fuel : Exec δ Unit) := by
  refine Prog.keeps_bind (ask_keeps hI) fun paused =>
    Prog.keeps_ite (fun _ => ?_) fun _ => ?_
  · refine Prog.keeps_bind (publish_keeps hI _) fun _ =>
      Prog.keeps_bind (ask_keeps hI) fun pausedAt =>
      Prog.keeps_bind (Prog.keeps_loop (fun _ => ?_) _ _) fun _ =>
      Prog.keeps_bind (ask_keeps hI) fun _ =>
      Prog.keeps_ite (fun _ => Prog.keeps_pure) fun _ => publish_keeps hI _
    refine Prog.keeps_bind (ask_keeps hI) fun _ =>
      Prog.keeps_ite (fun _ => ?_) fun _ => Prog.keeps_pure
    refine Prog.keeps_bind (ask_keeps hI) fun _ =>
      Prog.keeps_ite (fun _ => Prog.keeps_pure) fun _ =>
      Prog.keeps_bind (ask_keeps hI) fun now =>
      Prog.keeps_ite (fun _ => ?_) fun _ => Prog.keeps_pure
    refine Prog.keeps_bind (Prog.keeps_bind ?_ fun _ =>
      Prog.keeps_bind (publish_keeps hI _) fun _ => Prog.keeps_throw) fun _ => Prog.keeps_pure
    exact fun w h => hI w _ ⟨rfl, rfl, .inl rfl, Nat.le_refl _, fun _ hr _ => hr⟩ h
  · exact Prog.keeps_bind Prog.keeps_gets fun _ =>
      Prog.keeps_ite (fun _ => publish_keeps hI _) fun _ => Prog.keeps_pure

/-- A statement keeps what it keeps of the transaction's view. -/
theorem exec_keeps {f : Db δ → Except Failure (α × Db δ)}
    (hf : ∀ w t a db, I w → w.txn = some t → f t.view = .ok (a, db) →
      I { w with txn := some { t with view := db } }) : Prog.Keeps I (exec env f) := by
  refine Prog.Keeps.of_wp fun w h => ?_
  cases ht : w.txn with
  | none =>
    rw [exec, Prog.wp_bind, openTxn, Prog.wp_bind, Prog.wp_gets, Prog.andThen_ok, ht]
    exact h
  | some t =>
    have htick : I { w with tick := w.tick + 1 } :=
      hI w _ ⟨rfl, rfl, .inl rfl, Nat.le_succ _, fun _ hr _ => hr⟩ h
    exact exec_wp ht (fun a db hdb => hf { w with tick := w.tick + 1 } t a db htick ht hdb)
      fun e => htick

end Patient

/-! ## The batches of a transaction -/

section Batches

variable {I : World δ → Prop} {env : Env} {cfg : Config} {codec : ArrayText}

/-- What a walk writes to its log before it commits. -/
def WalkEvent.uncommitted : WalkEvent δ → Bool
  | .committed _ _ => false
  | .began _ | .batch _ | .batchCancelled => true

variable (hI : Patient I)
  (hexec : ∀ {α : Type} (f : Db δ → Except Failure (α × Db δ)), Prog.Keeps I (exec env f))
include hexec

theorem lookAtGroups_keeps {groups : Option String → δ → Except Failure (Option String)}
    {select : String → Option String → Int → δ → Except Failure (List String)}
    {apply : String → List String → δ → Except Failure (Nat × δ)} (batch batchBytes : Int)
    (holdsLocks : Bool) : ∀ looks at_, Prog.Keeps I
      (lookAtGroups env codec groups select apply batch batchBytes holdsLocks looks at_)
  | 0, _ => Prog.keeps_pure
  | looks + 1, at_ => by
    refine Prog.keeps_bind (Prog.keeps_ite (fun _ => Prog.keeps_bind (hexec _)
      fun next => ?_) fun _ => Prog.keeps_pure) fun next => ?_
    · cases next <;> exact Prog.keeps_pure
    cases next with
    | none => exact Prog.keeps_pure
    | some at_ =>
      refine Prog.keeps_bind (Prog.keeps_bind (hexec _) fun selected => ?_) fun r => ?_
      · split
        · refine Prog.keeps_ite (fun _ => Prog.keeps_pure) fun _ =>
            Prog.keeps_bind (hexec _) fun next => ?_
          cases next <;> exact Prog.keeps_pure
        · exact Prog.keeps_bind (hexec _) fun _ => Prog.keeps_pure
      cases r with
      | inl next => exact lookAtGroups_keeps batch batchBytes holdsLocks looks next
      | inr outcome => exact Prog.keeps_pure

include hI

theorem runBatch_keeps (walk : Walk δ) (upto : List (Option String)) (batch : Int)
    (v : TxnVars) : Prog.Keeps I (runBatch env cfg codec walk upto batch v) := by
  unfold runBatch
  cases walk.sql with
  | statement run => exact Prog.keeps_bind (hexec _) fun _ => Prog.keeps_pure
  | twoStatement select apply =>
    refine Prog.keeps_bind (hexec _) fun selected => ?_
    split
    · exact Prog.keeps_pure
    · exact Prog.keeps_bind (hexec _) fun _ => Prog.keeps_pure
  | composite columns select apply =>
    simp only [runCompositeBatch]
    split
    · exact Prog.keeps_throw
    · refine Prog.keeps_bind (hexec _) fun selected => ?_
      split
      · exact Prog.keeps_pure
      · exact Prog.keeps_bind (hexec _) fun _ => Prog.keeps_pure
  | compositeStatement columns run =>
    simp only [runCompositeStatement]
    split
    · exact Prog.keeps_throw
    · exact Prog.keeps_bind (hexec _) fun _ => Prog.keeps_pure
  | grouped groups select apply =>
    simp only
    split
    · exact Prog.keeps_bind (recordStep_keeps hI _ (by decide) _) fun _ =>
        Prog.keeps_bind (rollback_keeps hI) fun _ => Prog.keeps_throw
    · exact lookAtGroups_keeps hexec _ _ _ _ _

theorem batchOfTxn_keeps
    (hlog : ∀ (e : WalkEvent δ), e.uncommitted = true → Prog.Keeps I (logWalk e))
    (walk : Walk δ) (upto : List (Option String)) (started : Int) (v : TxnVars) :
    Prog.Keeps I (batchOfTxn env cfg codec walk upto started v) := by
  have hfail : ∀ (e : Failure), Prog.Keeps I (do
      recordStep walk.ordinal .failed v.rowsDone
      Prog.throw e : Exec δ (Option BatchOutcome)) := fun _ =>
    Prog.keeps_bind (recordStep_keeps hI _ (by decide) _) fun _ => Prog.keeps_throw
  refine Prog.keeps_bind (ask_keeps hI) fun throttled => Prog.keeps_bind ?_ fun r => ?_
  · refine Prog.keeps_tryCatch (Prog.keeps_bind (runBatch_keeps hI hexec walk upto _ v) fun _ =>
      Prog.keeps_pure) fun e => ?_
    match e with
    | .runtime what => exact Prog.keeps_throw
    | .sql .lockNotAvailable what => exact hfail _
    | .sql (.other code) what => exact hfail _
    | .sql .queryCanceled what =>
      refine Prog.keeps_bind (ask_keeps hI) fun asked =>
        Prog.keeps_ite (fun _ => ?_) fun _ => hfail _
      exact Prog.keeps_bind (rollback_keeps hI) fun _ =>
        Prog.keeps_bind (hlog _ rfl) fun _ => Prog.keeps_pure
  · cases r with
    | none => exact Prog.keeps_pure
    | some outcome =>
      refine Prog.keeps_bind (hlog _ rfl) fun _ =>
        Prog.keeps_ite (fun _ => Prog.keeps_pure) fun _ =>
        Prog.keeps_ite (fun _ => Prog.keeps_pure) fun _ =>
        Prog.keeps_bind (ask_keeps hI) fun waiters =>
        Prog.keeps_ite (fun _ => Prog.keeps_pure) fun _ =>
        Prog.keeps_bind (ask_keeps hI) fun now =>
        Prog.keeps_ite (fun _ => Prog.keeps_pure) fun _ =>
        Prog.keeps_ite (fun _ => Prog.keeps_pure) fun _ => Prog.keeps_pure

end Batches

/-! ## Nothing committed yet -/

def Unwritten (db : Db δ) (w : World δ) : Prop := w.durable = db ∧ lastCommit w.walkLog = none

theorem unwritten_patient (db : Db δ) : Patient (Unwritten db) := fun _ _ h hw =>
  ⟨h.durable.trans hw.1, (congrArg lastCommit h.walkLog).trans hw.2⟩

section Unwritten

variable {db : Db δ} {env : Env} {cfg : Config} {codec : ArrayText}

theorem batchOfTxn_unwritten (walk : Walk δ) (upto : List (Option String)) (started : Int)
    (v : TxnVars) :
    Prog.Keeps (Unwritten db) (batchOfTxn env cfg codec walk upto started v) := by
  refine batchOfTxn_keeps (unwritten_patient db)
    (fun _ => exec_keeps (unwritten_patient db) fun _ _ _ _ h _ _ => h) (fun e he w h => ?_)
    walk upto started v
  cases e with
  | committed cursor data => cases he
  | _ => exact h

end Unwritten

/-! ## A transaction of a walk -/

/-- The database is as it was, or as the log's last commit left it: its data, and the cursor of the
step. -/
def Recorded (n : Nat) (db : Db δ) (w : World δ) : Prop :=
  Unwritten db w ∨ ∃ row, lastCommit w.walkLog = some (row.lastKey, w.durable.data) ∧
    w.durable.cursors n = some row

theorem Recorded.releaseSlot {n : Nat} {db : Db δ} {w : World δ} (h : Recorded n db w)
    (held : Bool) : Recorded n db (releaseSlot held w) := by
  cases held <;> exact h

section Txn

variable {db : Db δ} {env : Env} {cfg : Config} {codec : ArrayText} {w : World δ} {walk : Walk δ}

theorem commitCursor_recorded {t : Txn δ} (ht : w.txn = some t) (h : Unwritten db w) (n : Nat)
    (cursor : String) (rowsDone : Int) :
    (commitCursor env n cursor rowsDone).Wp
      (fun o w' => Recorded n db w' ∧ (o = .ok () → w'.txn = none)) w := by
  rw [commitCursor, Prog.wp_bind]
  refine exec_wp ht ?_ fun e => ⟨.inl h, fun he => by cases he⟩
  rintro _ _ ⟨⟩
  rw [Prog.andThen_ok]
  have hrow : ∀ d : Db δ, (d.setCursor n cursor rowsDone).cursors n = some
      { lastKey := cursor, rowsDone, commits := ((d.cursors n).map CursorRow.commits).getD 0 + 1 } :=
    fun d => if_pos rfl
  refine commitNoting_wp rfl ?_ (fun e k _ => ⟨.inl h, fun he => by cases he⟩) fun what k _ => ?_
  · exact ⟨.inr ⟨_, rfl, hrow t.view⟩, fun _ => rfl⟩
  · exact ⟨.inr ⟨_, rfl, hrow t.view⟩, fun he => by cases he⟩

theorem closeTxn_recorded (h : Unwritten db w) (vars : WalkVars) (e : TxnEnd) :
    (closeTxn env walk vars e).Wp
      (fun o w' => Recorded walk.ordinal db w' ∧ ∀ v, o = .ok v → w'.txn = none) w := by
  rw [closeTxn, Prog.wp_bind, Prog.wp_gets, Prog.andThen_ok]
  cases ht : w.txn with
  | none =>
    simp only [Option.isSome_none, Bool.false_eq_true, if_false]
    exact ⟨.inl h, fun _ _ => ht⟩
  | some t =>
    simp only [Option.isSome_some, if_true]
    rw [Prog.wp_bind]
    refine (commitCursor_recorded ht h _ _ _).mono ?_
    rintro (_ | _ | _) w' ⟨hrec, htxn⟩
    · exact ⟨hrec, fun _ _ => htxn rfl⟩
    · exact ⟨hrec, fun _ he => by cases he⟩
    · exact ⟨hrec, fun _ he => by cases he⟩

theorem askProgress_recorded {n : Nat} (ht : w.txn = none) (h : Recorded n db w)
    (vars : WalkVars) :
    (askProgress env cfg codec walk vars).Wp (fun _ w' => Recorded n db w') w := by
  rw [askProgress, Prog.wp_bind]
  refine ask_wp fun now => ?_
  rw [Prog.andThen_ok]
  split
  · rw [Prog.wp_bind]
    refine ask_wp fun asked => ?_
    rw [Prog.andThen_ok, Prog.wp_bind]
    refine (walkedFraction_spec walk vars.cursor (by exact ht)).mono ?_
    rintro _ _ ⟨rfl, k, rfl⟩
    exact h
  · exact h

/-- What comes before the commit writes nothing. -/
theorem Unwritten.bind {α β : Type} {n : Nat} {p : Exec δ α} {f : α → Exec δ β}
    (h : Unwritten db w) (hp : Prog.Keeps (Unwritten db) p)
    (hf : ∀ a w', Unwritten db w' → (f a).Wp (fun _ w'' => Recorded n db w'') w') :
    (p >>= f).Wp (fun _ w' => Recorded n db w') w := by
  rw [Prog.wp_bind]
  refine (hp.wp h).mono ?_
  rintro (a | e | _) w' hw'
  · exact hf a w' hw'
  · exact .inl hw'
  · exact .inl hw'

theorem begin_unwritten : Prog.Keeps (Unwritten db) (begin env : Exec δ Unit) := by
  refine Prog.keeps_bind Prog.keeps_gets fun t => ?_
  cases t with
  | none =>
    exact Prog.keeps_bind (fun _ h => h) fun _ => call_keeps (unwritten_patient db)
  | some t => exact Prog.keeps_throw

theorem Unwritten.unlessStopped {α : Type} {n : Nat} {stopped : α} {p : Exec δ α}
    (h : Unwritten db w)
    (hp : ∀ w', Unwritten db w' → p.Wp (fun _ w'' => Recorded n db w'') w') :
    (unlessStopped env stopped p).Wp (fun _ w' => Recorded n db w') w := by
  refine h.bind (ask_keeps (unwritten_patient db)) fun stop w' hw' => ?_
  cases stop with
  | true => exact .inl hw'
  | false => exact hp w' hw'

/-- Whatever comes of a transaction, the database has what its log says. -/
theorem walkTxn_recorded (h : Unwritten db w) (fuel : Nat) (upto : List (Option String))
    (vars : WalkVars) :
    (walkTxn env cfg codec fuel walk upto vars).Wp
      (fun _ w' => Recorded walk.ordinal db w') w := by
  have hI := unwritten_patient db
  refine h.unlessStopped fun w h => h.bind (waitWhilePaused_keeps hI) fun _ w h =>
    h.unlessStopped fun w h => h.bind (operationSlot_keeps hI) fun held w h => ?_
  rw [Prog.wp_leaving]
  refine Prog.Wp.mono (Q := fun _ w' => Recorded walk.ordinal db w') ?_
    fun _ _ hrec => hrec.releaseSlot held
  refine h.unlessStopped fun w h => h.bind begin_unwritten fun _ w h =>
    h.bind (fun _ h => h) fun _ w h => h.bind (fun _ h => h) fun _ w h =>
    h.bind (ask_keeps hI) fun started w h =>
    h.bind (Prog.keeps_loop (batchOfTxn_unwritten walk upto started) fuel _) fun e w h => ?_
  rw [Prog.wp_bind]
  refine (closeTxn_recorded h vars e).mono ?_
  rintro (vars' | e' | _) w' ⟨hrec, htxn⟩
  · rw [Prog.andThen_ok]
    split
    · exact hrec
    · rw [Prog.wp_bind]
      refine (askProgress_recorded (htxn _ rfl) hrec vars').mono ?_
      rintro (_ | _ | _) w'' hrec'
      · exact hrec'
      · exact hrec'
      · exact hrec'
  · exact hrec
  · exact hrec

/-- What the walk's statements keep holds of the cursor and the data of its commits. -/
theorem TxnDone.faithful {P : String → δ → Prop} {start : String} {n : Nat}
    {S : List StepRecord} {K : List Nat} {o : Outcome Failure (WalkVars ⊕ Option WalkVars)}
    (h : TxnDone P start n S K o w) (hc : CancelsFirst w.walkLog) :
    Faithful P start w.walkLog := by
  rcases o with (vars | _ | vars) | e | _
  · exact h.1.2.2.2 hc
  · exact h.2.2.2 hc
  · exact h.1.2.2.2 hc
  · exact h.2.2.2.2 hc
  · exact h.2.2.2.2 hc

end Txn

/-! ## The single statement -/

/-- `V` holds of the data, in the database and as an open transaction sees it. -/
def Within (V : δ → Prop) (w : World δ) : Prop :=
  V w.durable.data ∧ ∀ t, w.txn = some t → V t.view.data

section Within

variable {V : δ → Prop} {env : Env} {cfg : Config} {walk : Walk δ}

theorem within_patient (V : δ → Prop) : Patient (Within V) := by
  rintro w w' h ⟨hdata, hview⟩
  refine ⟨by rw [h.durable]; exact hdata, fun t ht => ?_⟩
  rcases h.txn with htxn | htxn
  · exact hview t (htxn ▸ ht)
  · rw [htxn] at ht
    cases ht

theorem onData_within {f : δ → Except Failure (α × δ)}
    (hf : ∀ d a d', V d → f d = .ok (a, d') → V d') : Prog.Keeps (Within V) (onData env f) := by
  refine exec_keeps (within_patient V) fun w t a db h ht hdb => ⟨h.1, fun t' ht' => ?_⟩
  cases ht'
  cases hd : f t.view.data with
  | error e =>
    rw [hd] at hdb
    cases hdb
  | ok r =>
    rw [hd] at hdb
    cases hdb
    exact hf _ r.1 r.2 (h.2 t ht) hd

theorem readData_within (f : δ → Except Failure α) : Prog.Keeps (Within V) (readData env f) := by
  refine onData_within fun d a d' hd hok => ?_
  cases h : f d with
  | error e =>
    rw [h] at hok
    cases hok
  | ok r =>
    rw [h] at hok
    cases hok
    exact hd

theorem begin_within : Prog.Keeps (Within V) (begin env : Exec δ Unit) := by
  refine Prog.keeps_bind Prog.keeps_gets fun t => ?_
  cases t with
  | none =>
    refine Prog.keeps_bind (fun w h => ⟨h.1, fun t ht => ?_⟩) fun _ =>
      call_keeps (within_patient V)
    cases ht
    exact h.1
  | some t => exact Prog.keeps_throw

theorem commit_within : Prog.Keeps (Within V) (commit env : Exec δ Unit) := by
  refine Prog.Keeps.of_wp fun w h => ?_
  cases ht : w.txn with
  | none =>
    rw [commit, commitNoting, Prog.wp_bind, Prog.wp_gets, Prog.andThen_ok, ht]
    exact h
  | some t =>
    refine commit_wp ht ⟨h.2 t ht, fun _ ht' => by cases ht'⟩ (fun e k _ => h) fun what k _ => ?_
    exact ⟨h.2 t ht, fun t' ht' => h.2 t' ht'⟩

/-- What the statement over the whole table keeps holds of the data after it, in whichever way it
ends. -/
theorem singleStatement_within
    (hsingle : ∀ run ∈ walk.single, ∀ d rows d', V d → run d = .ok (rows, d') → V d')
    (fuel : Nat) (resumedFrom : String) :
    Prog.Keeps (Within V) (singleStatement env cfg fuel walk resumedFrom) := by
  have hI := within_patient V
  unfold singleStatement
  cases hrun : walk.single with
  | none => exact Prog.keeps_pure
  | some run =>
    refine Prog.keeps_ite (fun _ => Prog.keeps_pure) fun _ =>
      Prog.keeps_bind (operationSlot_keeps hI) fun held =>
      Prog.keeps_leaving (unlessStopped_keeps hI ?_) (releaseSlot_keeps hI held)
    refine Prog.keeps_bind begin_within fun _ => Prog.keeps_bind ?_ fun _ =>
      Prog.keeps_tryCatch ?_ fun e => ?_
    · intro w h
      refine ⟨h.1, fun t ht => ?_⟩
      obtain ⟨t', ht', rfl⟩ := Option.map_eq_some_iff.1 ht
      exact h.2 t' ht'
    · refine Prog.keeps_bind (Prog.keeps_ite (fun _ => readData_within _) fun _ =>
        Prog.keeps_pure) fun _ => Prog.keeps_bind (readData_within _) fun _ =>
        Prog.keeps_bind (onData_within (hsingle run hrun)) fun rows =>
        Prog.keeps_bind commit_within fun _ => Prog.keeps_pure
    · match e with
      | .runtime what => exact Prog.keeps_throw
      | .sql .lockNotAvailable what =>
        exact Prog.keeps_bind (rollback_keeps hI) fun _ => Prog.keeps_pure
      | .sql (.other code) what =>
        exact Prog.keeps_bind (recordStep_keeps hI _ (by decide) _) fun _ => Prog.keeps_throw
      | .sql .queryCanceled what =>
        refine Prog.keeps_bind (ask_keeps hI) fun stop => Prog.keeps_ite (fun _ => ?_) fun _ =>
          Prog.keeps_bind (ask_keeps hI) fun asked => Prog.keeps_ite (fun _ => ?_) fun _ => ?_
        · exact Prog.keeps_bind (rollback_keeps hI) fun _ =>
            Prog.keeps_bind (cancelled_keeps hI) fun _ => Prog.keeps_pure
        · exact Prog.keeps_bind (rollback_keeps hI) fun _ => Prog.keeps_pure
        · exact Prog.keeps_bind (recordStep_keeps hI _ (by decide) _) fun _ => Prog.keeps_throw

end Within

/-! ## What no mutation breaks -/

section Sweeps

variable {codec : ArrayText} {P Q : String → δ → Prop}

theorem WalkSql.Sweeps.and : ∀ {sql : WalkSql δ}, sql.Sweeps codec P → sql.Sweeps codec Q →
    sql.Sweeps codec fun c d => P c d ∧ Q c d
  | .statement _, h, h' => fun c batch d keys d' hPQ hrun =>
    ⟨h c batch d keys d' hPQ.1 hrun, h' c batch d keys d' hPQ.2 hrun⟩
  | .twoStatement _ _, h, h' => fun c batch upto d selected keys last returned d' hPQ hs hk hl ha =>
    ⟨h c batch upto d selected keys last returned d' hPQ.1 hs hk hl ha,
      h' c batch upto d selected keys last returned d' hPQ.2 hs hk hl ha⟩
  | .composite _ _ _, h, h' =>
    fun c position batch upto d selected rows last returned d' hPQ hat hs hk hl ha =>
      ⟨h c position batch upto d selected rows last returned d' hPQ.1 hat hs hk hl ha,
        h' c position batch upto d selected rows last returned d' hPQ.2 hat hs hk hl ha⟩
  | .compositeStatement _ _, h, h' => fun c position batch upto d rows d' hPQ hat hrun =>
    ⟨h c position batch upto d rows d' hPQ.1 hat hrun,
      h' c position batch upto d rows d' hPQ.2 hat hrun⟩
  | .grouped _ _ _, h, h' =>
    { reencode := fun c at_ d hd hPQ => ⟨h.reencode c at_ d hd hPQ.1, h'.reencode c at_ d hd hPQ.2⟩
      enter := fun c d group hPQ hg => ⟨h.enter c d group hPQ.1 hg, h'.enter c d group hPQ.2 hg⟩
      next := fun at_ batch d group hb hne hPQ hs hg =>
        ⟨h.next at_ batch d group hb hne hPQ.1 hs hg, h'.next at_ batch d group hb hne hPQ.2 hs hg⟩
      apply := fun at_ batch d selected keys last returned d' hPQ hs hk hl ha =>
        ⟨h.apply at_ batch d selected keys last returned d' hPQ.1 hs hk hl ha,
          h'.apply at_ batch d selected keys last returned d' hPQ.2 hs hk hl ha⟩ }

variable {γ κ ρ : Type} [LinearOrder γ] [LinearOrder κ] {rel : Relation γ κ ρ}

omit [LinearOrder γ] in
theorem Relation.pacedStatement_keeps {V : Table γ κ ρ → Prop}
    (hV : ∀ named d, V d → V (rel.mutate named d).2) {p u : Option κ} {limit : Int}
    {d : Table γ κ ρ} (h : V d) : V (rel.pacedStatement p u limit d).2 := by
  unfold Relation.pacedStatement
  split
  · exact h
  · exact hV _ d h

/-- The statements of a walk change the table by mutations alone. -/
theorem walkSql_keeps {V : Table γ κ ρ → Prop} (hV : ∀ named d, V d → V (rel.mutate named d).2)
    (form : WalkForm) : (rel.walkSql form).Sweeps codec fun _ d => V d := by
  cases form with
  | statement =>
    intro c batch d keys d' h hrun
    obtain ⟨p, -, hrun⟩ := bind_eq_ok.1 hrun
    cases hrun
    exact Relation.pacedStatement_keeps hV h
  | twoStatement =>
    intro c batch upto d selected keys last returned d' h _ _ _ happly
    obtain ⟨ks, -, happly⟩ := bind_eq_ok.1 happly
    cases happly
    exact hV _ d h
  | composite =>
    intro c position batch upto d selected rows last returned d' h _ _ _ _ happly
    obtain ⟨ks, -, happly⟩ := bind_eq_ok.1 happly
    cases happly
    exact hV _ d h
  | compositeStatement =>
    intro c position batch upto d rows d' h _ hrun
    obtain ⟨p, -, hrun⟩ := bind_eq_ok.1 hrun
    cases hrun
    exact Relation.pacedStatement_keeps hV h
  | grouped =>
    refine ⟨fun _ _ _ _ h => h, fun _ _ _ h _ => h, fun _ _ _ _ _ _ h _ _ => h, ?_⟩
    intro at_ batch d selected keys last returned d' h _ _ _ happly
    obtain ⟨g, -, happly⟩ := bind_eq_ok.1 happly
    obtain ⟨ks, -, happly⟩ := bind_eq_ok.1 happly
    cases happly
    exact hV _ d h

end Sweeps

end Executor
end Laswell
