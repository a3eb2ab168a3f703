import Laswell.Executor.Committed
import Laswell.Executor.Run

/-!
# Laswell.Executor.Checked

What the record of a verify step stands for: that it succeeded only if the index it looks for was
there and valid at a moment of the run.

Whatever else a worker does, it reports no success, or that of a step with nothing to look for, and
keeps `Checked`. There is one lemma for each part of a walk, of a step and of the loop.

* `verifyIndexValid_checked`: the reading of the catalog comes before the record.
* `run_checked`: every run.
-/

namespace Laswell
namespace Executor

open Base Jobs

variable {δ α : Type}

/-- The verify step `n` has the index `name` to look for. -/
def Plan.Looks (plan : Plan δ) (n : Nat) (name : String × String) : Prop :=
  name.2 ≠ "" ∧ indexNameFor plan.steps n = some name ∧
    ∃ step, plan.steps[n]? = some step ∧ step.verifies

/-- A verify step that reads succeeded found its index valid, since the run began. -/
structure Checked (env : Env) (plan : Plan δ) (began : Nat) (w : World δ) : Prop where
  began_le : began ≤ w.tick
  valid : ∀ r ∈ w.steps, r.state = .succeeded → ∀ name, plan.Looks r.ordinal name →
    ∃ k, began ≤ k ∧ k < w.tick ∧ env.indexValid k name = some true

section Checked

variable {env : Env} {cfg : Config} {codec : ArrayText} {fuel : Nat} {plan : Plan δ} {began : Nat}
  {w w' : World δ}

theorem Checked.of (h : Checked env plan began w) (htick : w.tick ≤ w'.tick)
    (hsteps : ∀ r ∈ w'.steps, r.state = .succeeded → r ∈ w.steps) :
    Checked env plan began w' := by
  refine ⟨h.began_le.trans htick, fun r hr hs name hlooks => ?_⟩
  obtain ⟨k, hle, hlt, hvalid⟩ := h.valid r (hsteps r hr hs) hs name hlooks
  exact ⟨k, hle, hlt.trans_le htick, hvalid⟩

theorem Checked.same (h : Checked env plan began w) (htick : w'.tick = w.tick)
    (hsteps : w'.steps = w.steps) : Checked env plan began w' :=
  h.of (Nat.le_of_eq htick.symm) fun _ hr _ => hsteps ▸ hr

theorem checked_patient : Patient (Checked env plan began) := fun _ _ h hw => hw.of h.tick h.steps

theorem Checked.record (h : Checked env plan began w) {n : Nat}
    (hn : ∀ name, plan.Looks n name →
      ∃ k, began ≤ k ∧ k < w.tick ∧ env.indexValid k name = some true)
    (s : StepState) (rows : Int) :
    Checked env plan began { w with steps := w.steps ++ [⟨n, s, rows⟩] } := by
  refine ⟨h.began_le, fun r hr hs name hlooks => ?_⟩
  rcases List.mem_append.1 hr with hr | hr
  · exact h.valid r hr hs name hlooks
  · rw [List.mem_singleton.1 hr] at hlooks
    exact hn name hlooks

/-- The record of a step with nothing to look for. -/
theorem recordStep_checked {n : Nat} (hn : ∀ name, ¬ plan.Looks n name) (s : StepState)
    (rows : Int) : Prog.Keeps (Checked env plan began) (recordStep n s rows) :=
  fun _ h => h.record (fun name hlooks => absurd hlooks (hn name)) s rows

theorem failed_checked (n : Nat) (rows : Int) (e : Failure) :
    Prog.Keeps (Checked env plan began) (do
      recordStep n .failed rows
      Prog.throw e : Exec δ α) :=
  Prog.keeps_bind (recordStep_keeps checked_patient n (by decide) rows) fun _ => Prog.keeps_throw

/-! ## The session -/

theorem exec_checked (f : Db δ → Except Failure (α × Db δ)) :
    Prog.Keeps (Checked env plan began) (exec env f) :=
  exec_keeps checked_patient fun _ _ _ _ h _ _ => h.same rfl rfl

theorem call_checked : Prog.Keeps (Checked env plan began) (call env) :=
  call_keeps checked_patient

theorem begin_checked : Prog.Keeps (Checked env plan began) (begin env) := by
  refine Prog.keeps_bind Prog.keeps_gets fun t => ?_
  cases t with
  | none => exact Prog.keeps_bind (fun _ h => h.same rfl rfl) fun _ => call_checked
  | some t => exact Prog.keeps_throw

theorem enlist_checked (n : Nat) : Prog.Keeps (Checked env plan began) (enlist n) :=
  fun _ h => h.same rfl rfl

theorem logWalk_checked (e : WalkEvent δ) : Prog.Keeps (Checked env plan began) (logWalk e) :=
  fun _ h => h.same rfl rfl

theorem commitNoting_checked {note : World δ → World δ}
    (hnote : ∀ w, (note w).tick = w.tick ∧ (note w).steps = w.steps) :
    Prog.Keeps (Checked env plan began) (commitNoting env note) := by
  have hwritten : ∀ f : World δ → World δ, (∀ w, (f w).tick = w.tick ∧ (f w).steps = w.steps) →
      Prog.Keeps (Checked env plan began) (Prog.modify fun w => note (f w) : Exec δ Unit) := by
    intro f hf w h
    exact h.same ((hnote (f w)).1.trans (hf w).1) ((hnote (f w)).2.trans (hf w).2)
  refine Prog.keeps_bind Prog.keeps_gets fun t => ?_
  cases t with
  | none => exact Prog.keeps_throw
  | some t =>
    refine Prog.keeps_bind (ask_keeps checked_patient) fun answer => ?_
    match answer with
    | none => exact hwritten _ fun _ => ⟨rfl, rfl⟩
    | some (.sql state what) => exact Prog.keeps_throw
    | some (.runtime what) =>
      refine Prog.keeps_bind (ask_keeps checked_patient) fun committed => ?_
      cases committed with
      | false => exact Prog.keeps_throw
      | true => exact Prog.keeps_bind (hwritten _ fun _ => ⟨rfl, rfl⟩) fun _ => Prog.keeps_throw

theorem commit_checked : Prog.Keeps (Checked env plan began) (commit env) :=
  commitNoting_checked fun _ => ⟨rfl, rfl⟩

theorem execNontransactional_checked (f : δ → Except Failure (α × δ)) :
    Prog.Keeps (Checked env plan began) (execNontransactional env f) := by
  refine Prog.keeps_bind Prog.keeps_gets fun t => ?_
  cases t with
  | some t => exact Prog.keeps_throw
  | none =>
    refine Prog.keeps_bind call_checked fun _ => Prog.keeps_bind Prog.keeps_gets fun d => ?_
    cases f d with
    | error e => exact Prog.keeps_throw
    | ok r => exact fun _ h => h.same rfl rfl

theorem readOnly_checked {p : Exec δ α} (hp : Prog.Keeps (Checked env plan began) p) :
    Prog.Keeps (Checked env plan began) (readOnly env p) :=
  Prog.keeps_bind begin_checked fun _ => Prog.keeps_bind hp fun _ =>
    Prog.keeps_bind commit_checked fun _ => Prog.keeps_pure

/-! ## Walks -/

theorem readInvariants_checked : ∀ queries : List (String × (δ → Except Failure (Option String))),
    Prog.Keeps (Checked env plan began) (readInvariants env queries)
  | [] => Prog.keeps_pure
  | _ :: rest => Prog.keeps_bind (exec_checked _) fun _ =>
      Prog.keeps_bind (readInvariants_checked rest) fun _ => Prog.keeps_pure

theorem walkedFraction_checked (walk : Walk δ) (cursor : String) :
    Prog.Keeps (Checked env plan began) (walkedFraction env codec walk cursor) := by
  refine Prog.keeps_ite (fun _ => Prog.keeps_pure) fun _ =>
    Prog.keeps_ite (fun _ => Prog.keeps_pure) fun _ => Prog.keeps_tryCatch ?_ fun _ =>
      rollback_keeps checked_patient
  exact readOnly_checked (Prog.keeps_bind (exec_checked _) fun _ => exec_checked _)

theorem singleStatement_checked (walk : Walk δ) (resumedFrom : String) :
    Prog.Keeps (Checked env plan began) (singleStatement env cfg fuel walk resumedFrom) := by
  unfold singleStatement
  cases walk.single with
  | none => exact Prog.keeps_pure
  | some run =>
    refine Prog.keeps_ite (fun _ => Prog.keeps_pure) fun _ =>
      Prog.keeps_bind (operationSlot_keeps checked_patient) fun held =>
      Prog.keeps_leaving (unlessStopped_keeps checked_patient ?_)
        (releaseSlot_keeps checked_patient held)
    refine Prog.keeps_bind begin_checked fun _ => Prog.keeps_bind (enlist_checked _) fun _ =>
      Prog.keeps_tryCatch ?_ fun e => ?_
    · refine Prog.keeps_bind (Prog.keeps_ite (fun _ => exec_checked _) fun _ =>
        Prog.keeps_pure) fun _ => Prog.keeps_bind (exec_checked _) fun _ =>
        Prog.keeps_bind (exec_checked _) fun rows =>
        Prog.keeps_bind commit_checked fun _ => Prog.keeps_pure
    · match e with
      | .runtime what => exact Prog.keeps_throw
      | .sql .lockNotAvailable what =>
        exact Prog.keeps_bind (rollback_keeps checked_patient) fun _ => Prog.keeps_pure
      | .sql (.other code) what => exact failed_checked _ _ _
      | .sql .queryCanceled what =>
        refine Prog.keeps_bind (ask_keeps checked_patient) fun stop =>
          Prog.keeps_ite (fun _ => ?_) fun _ =>
          Prog.keeps_bind (ask_keeps checked_patient) fun asked =>
          Prog.keeps_ite (fun _ => ?_) fun _ => failed_checked _ _ _
        · exact Prog.keeps_bind (rollback_keeps checked_patient) fun _ =>
            Prog.keeps_bind (cancelled_keeps checked_patient) fun _ => Prog.keeps_pure
        · exact Prog.keeps_bind (rollback_keeps checked_patient) fun _ => Prog.keeps_pure

theorem closeTxn_checked (walk : Walk δ) (vars : WalkVars) (e : TxnEnd) :
    Prog.Keeps (Checked env plan began) (closeTxn env walk vars e) := by
  have hcursor : Prog.Keeps (Checked env plan began)
      (commitCursor env walk.ordinal e.cursor e.rowsDone) :=
    Prog.keeps_bind (exec_checked _) fun _ => commitNoting_checked fun _ => ⟨rfl, rfl⟩
  exact Prog.keeps_bind Prog.keeps_gets fun t => Prog.keeps_ite
    (fun _ => Prog.keeps_bind hcursor fun _ => Prog.keeps_pure) fun _ => Prog.keeps_pure

theorem askProgress_checked (walk : Walk δ) (vars : WalkVars) :
    Prog.Keeps (Checked env plan began) (askProgress env cfg codec walk vars) := by
  refine Prog.keeps_bind (ask_keeps checked_patient) fun now =>
    Prog.keeps_ite (fun _ => ?_) fun _ => Prog.keeps_pure
  exact Prog.keeps_bind (ask_keeps checked_patient) fun asked =>
    Prog.keeps_bind (walkedFraction_checked walk _) fun _ => Prog.keeps_pure

theorem walkTxn_checked (walk : Walk δ) (upto : List (Option String)) (vars : WalkVars) :
    Prog.Keeps (Checked env plan began) (walkTxn env cfg codec fuel walk upto vars) := by
  refine unlessStopped_keeps checked_patient
    (Prog.keeps_bind (waitWhilePaused_keeps checked_patient) fun _ =>
      unlessStopped_keeps checked_patient
        (Prog.keeps_bind (operationSlot_keeps checked_patient) fun held =>
          Prog.keeps_leaving (unlessStopped_keeps checked_patient ?_)
            (releaseSlot_keeps checked_patient held)))
  refine Prog.keeps_bind begin_checked fun _ => Prog.keeps_bind (enlist_checked _) fun _ =>
    Prog.keeps_bind (logWalk_checked _) fun _ =>
    Prog.keeps_bind (ask_keeps checked_patient) fun started =>
    Prog.keeps_bind (Prog.keeps_loop (fun v => ?_) fuel _) fun e =>
    Prog.keeps_bind (closeTxn_checked walk vars e) fun vars =>
    Prog.keeps_ite (fun _ => Prog.keeps_pure) fun _ =>
    Prog.keeps_bind (askProgress_checked walk vars) fun _ => Prog.keeps_pure
  exact batchOfTxn_keeps checked_patient exec_checked (fun e _ => logWalk_checked e) walk upto
    started v

theorem verifyRemaining_checked (walk : Walk δ) (rows : Int) :
    Prog.Keeps (Checked env plan began) (verifyRemaining env walk rows) := by
  unfold verifyRemaining
  cases walk.verifyRemaining with
  | none => exact Prog.keeps_pure
  | some count =>
    exact Prog.keeps_bind (readOnly_checked (exec_checked _)) fun n =>
      Prog.keeps_ite (fun _ => failed_checked _ _ _) fun _ => Prog.keeps_pure

theorem verifyInvariants_checked (walk : Walk δ) (before : List (String × Option String))
    (rows : Int) :
    Prog.Keeps (Checked env plan began) (verifyInvariants env codec walk before rows) := by
  refine Prog.keeps_ite (fun _ => Prog.keeps_pure) fun _ =>
    Prog.keeps_bind (readOnly_checked (readInvariants_checked _)) fun after => ?_
  split
  · exact Prog.keeps_pure
  · exact failed_checked _ _ _

theorem finishWalk_checked {walk : Walk δ} (hn : ∀ name, ¬ plan.Looks walk.ordinal name)
    (before : List (String × Option String)) (rows : Int) :
    Prog.Keeps (Checked env plan began) (finishWalk env codec walk before rows) :=
  Prog.keeps_bind (verifyRemaining_checked walk rows) fun _ =>
    Prog.keeps_bind (verifyInvariants_checked walk before rows) fun _ => recordStep_checked hn _ _

theorem runBackfill_checked {walk : Walk δ} (hn : ∀ name, ¬ plan.Looks walk.ordinal name) :
    Prog.Keeps (Checked env plan began) (runBackfill env cfg codec fuel walk) := by
  refine Prog.keeps_bind (fun _ h => h.same rfl rfl) fun _ =>
    Prog.keeps_bind (Prog.keeps_ite (fun _ => Prog.keeps_pure) fun _ =>
      readOnly_checked (readInvariants_checked _)) fun before =>
    Prog.keeps_bind ?_ fun upto => Prog.keeps_bind (ask_keeps checked_patient) fun started =>
    Prog.keeps_bind (walkedFraction_checked walk _) fun _ =>
    Prog.keeps_bind (singleStatement_checked walk _) fun single => ?_
  · unfold readUpperBound
    cases walk.upperBound with
    | none => exact Prog.keeps_pure
    | some read => exact readOnly_checked (exec_checked _)
  · cases single with
    | stopped => exact Prog.keeps_pure
    | done rows => exact finishWalk_checked hn before rows
    | walk =>
      refine Prog.keeps_bind (Prog.keeps_loop (walkTxn_checked walk upto) fuel _) fun v => ?_
      cases v with
      | none => exact Prog.keeps_pure
      | some vars => exact finishWalk_checked hn before vars.rowsDone

/-! ## Steps -/

theorem setLocal_checked (wanted : Bool) :
    Prog.Keeps (Checked env plan began) (setLocal env wanted) :=
  Prog.keeps_ite (fun _ => exec_checked _) fun _ => Prog.keeps_pure

theorem runStatement_checked (step : Step δ) (retry : Bool) (s : Statement δ) (g : Gates) :
    Prog.Keeps (Checked env plan began) (runStatement env step retry s g) := by
  refine Prog.keeps_tryCatch (Prog.keeps_bind (exec_checked _) fun rows =>
    Prog.keeps_bind ?_ fun _ => Prog.keeps_pure) fun e => ?_
  · exact Prog.keeps_ite (fun _ => Prog.keeps_ite
      (fun _ => Prog.keeps_bind (exec_checked _) fun _ => Prog.keeps_pure)
      fun _ => Prog.keeps_pure) fun _ => Prog.keeps_pure
  · match e with
    | .runtime what => exact Prog.keeps_throw
    | .sql .queryCanceled what => exact failed_checked _ _ _
    | .sql (.other code) what => exact failed_checked _ _ _
    | .sql .lockNotAvailable what =>
      exact Prog.keeps_ite (fun _ => Prog.keeps_pure) fun _ =>
        Prog.keeps_bind (recordStep_keeps checked_patient _ (by decide) _) fun _ =>
          Prog.keeps_throw

theorem runStatements_checked (step : Step δ) (retry : Bool) : ∀ statements g,
    Prog.Keeps (Checked env plan began) (runStatements env step retry statements g)
  | [], _ => Prog.keeps_pure
  | s :: rest, g => by
    refine Prog.keeps_ite (fun _ => runStatements_checked step retry rest g) fun _ =>
      Prog.keeps_bind (runStatement_checked step retry s g) fun r => ?_
    cases r with
    | none => exact Prog.keeps_pure
    | some g => exact runStatements_checked step retry rest g

theorem runInTransaction_checked {step : Step δ} (hn : ∀ name, ¬ plan.Looks step.ordinal name)
    (retry : Bool) : Prog.Keeps (Checked env plan began) (runInTransaction env cfg step retry) := by
  refine Prog.keeps_bind (enlist_checked _) fun _ => Prog.keeps_bind (setLocal_checked _) fun _ =>
    Prog.keeps_bind (setLocal_checked _) fun _ =>
    Prog.keeps_bind (runStatements_checked step retry _ _) fun r => ?_
  cases r with
  | none => exact Prog.keeps_pure
  | some g =>
    exact Prog.keeps_bind (setLocal_checked _) fun _ => Prog.keeps_bind (setLocal_checked _) fun _ =>
      Prog.keeps_bind (setLocal_checked _) fun _ =>
      Prog.keeps_bind (recordStep_checked hn _ _) fun _ =>
      Prog.keeps_bind (fun _ h => h.same rfl rfl) fun _ => Prog.keeps_pure

theorem runCopy_checked {step : Step δ} (hn : ∀ name, ¬ plan.Looks step.ordinal name)
    (payload : δ → Except Failure (Nat × δ)) :
    Prog.Keeps (Checked env plan began) (runCopy env step payload) := by
  refine Prog.keeps_bind (enlist_checked _) fun _ =>
    Prog.keeps_bind (Prog.keeps_tryCatch (exec_checked _) fun e => ?_) fun written =>
    Prog.keeps_bind (recordStep_checked hn _ _) fun _ => fun _ h => h.same rfl rfl
  cases e with
  | runtime what => exact Prog.keeps_throw
  | sql state what => exact failed_checked _ _ _

theorem runOutside_checked : ∀ statements : List (Statement δ),
    Prog.Keeps (Checked env plan began) (runOutside env fuel statements)
  | [] => Prog.keeps_pure
  | s :: rest => by
    refine Prog.keeps_ite (fun _ => runOutside_checked rest) fun _ =>
      Prog.keeps_bind (operationSlot_keeps checked_patient) fun held =>
      Prog.keeps_bind ?_ fun _ => runOutside_checked rest
    exact Prog.keeps_leaving (execNontransactional_checked _)
      (releaseSlot_keeps checked_patient held)

theorem runNontransactional_checked {step : Step δ}
    (hn : ∀ name, ¬ plan.Looks step.ordinal name) :
    Prog.Keeps (Checked env plan began) (runNontransactional env fuel step) := by
  have hset : ∀ wanted, Prog.Keeps (Checked env plan began)
      (setSession env wanted : Exec δ Unit) := fun wanted =>
    Prog.keeps_ite (fun _ => call_checked) fun _ => Prog.keeps_pure
  refine Prog.keeps_bind (Prog.keeps_tryCatch (Prog.keeps_bind (hset _) fun _ =>
    Prog.keeps_bind (hset _) fun _ => runOutside_checked _) fun e => ?_) fun _ =>
    Prog.keeps_bind (fun _ h => h.same rfl rfl) fun _ => recordStep_checked hn _ _
  cases e with
  | runtime what => exact Prog.keeps_throw
  | sql state what => exact failed_checked _ _ _

/-- What is read is what the catalog said at a moment of the reading. -/
theorem readIndexValid_wp (name : String × String) (n : Nat) (w : World δ) :
    (readIndexValid env name n).Wp (fun o w' => w.tick ≤ w'.tick ∧ w'.steps = w.steps ∧
      ∀ valid, o = .ok valid →
        ∃ k, w.tick ≤ k ∧ k < w'.tick ∧ env.indexValid k name = valid) w := by
  rw [readIndexValid, Prog.wp_bind]
  cases ht : w.txn with
  | some t =>
    rw [begin, Prog.wp_bind, Prog.wp_gets, Prog.andThen_ok, ht]
    exact ⟨Nat.le_refl _, rfl, fun _ he => by cases he⟩
  | none =>
    refine begin_wp ht ?_ fun e => ⟨Nat.le_succ _, rfl, fun _ he => by cases he⟩
    simp only [Prog.andThen_ok, enlist, Prog.wp_bind, Prog.wp_modify, Option.map_some]
    refine readData_wp rfl (fun _ _ => ?_) fun e =>
      ⟨Nat.le_add_right _ 2, rfl, fun _ he => by cases he⟩
    simp only [Prog.andThen_ok, Prog.wp_bind, ask, Prog.wp_gets, Prog.wp_modify, Prog.wp_pure]
    have hbroken : ∀ k, w.tick + 1 + 1 + 1 ≤ k → w.tick ≤ k := fun k hk => by omega
    refine commit_wp rfl ?_ (fun e k hk => ⟨hbroken k hk, rfl, fun _ he => by cases he⟩)
      fun what k hk => ⟨hbroken k hk, rfl, fun _ he => by cases he⟩
    rw [Prog.andThen_ok, Prog.wp_pure]
    refine ⟨by dsimp only; omega, rfl, ?_⟩
    rintro valid ⟨⟩
    exact ⟨w.tick + 1 + 1, by omega, by dsimp only; omega, rfl⟩

theorem verifyIndexValid_checked {step : Step δ} (n : Nat) (hn : step.ordinal = n) :
    Prog.Keeps (Checked env plan began) (verifyIndexValid env plan.steps step) := by
  unfold verifyIndexValid
  rw [hn]
  cases hname : indexNameFor plan.steps n with
  | none =>
    refine recordStep_checked (fun name hlooks => ?_) _ _
    rw [hlooks.2.1] at hname
    cases hname
  | some found =>
    obtain ⟨schema, index⟩ := found
    refine Prog.keeps_ite (fun hempty => recordStep_checked (fun name hlooks => ?_) _ _) fun _ => ?_
    · rw [hlooks.2.1] at hname
      cases hname
      exact hlooks.1 hempty
    refine Prog.Keeps.of_wp fun w h => ?_
    rw [Prog.wp_bind]
    refine (readIndexValid_wp (schema, index) n w).mono ?_
    rintro (valid | e | _) w' ⟨htick, hsteps, hvalid⟩
    · have hread : Checked env plan began w' := h.of htick fun _ hr _ => hsteps ▸ hr
      rw [Prog.andThen_ok]
      by_cases htrue : valid = some true
      · -- the catalog was read in this step, and the look-back finds no other index
        obtain ⟨k, hle, hlt, hk⟩ := hvalid valid rfl
        rw [if_pos htrue]
        refine hread.record (fun name hlooks => ⟨k, h.began_le.trans hle, hlt, ?_⟩) _ _
        rw [hlooks.2.1] at hname
        cases hname
        rw [hk, htrue]
      · rw [if_neg htrue]
        exact failed_checked _ _ _ w' hread
    · exact h.of htick fun _ hr _ => hsteps ▸ hr
    · exact h.of htick fun _ hr _ => hsteps ▸ hr

/-! ## The loop -/

theorem groupRolledBack_checked : Prog.Keeps (Checked env plan began) groupRolledBack := by
  refine fun w h => h.of (Nat.le_refl _) fun r hr hs => ?_
  obtain ⟨r, hr', rfl⟩ := List.mem_map.1 hr
  rw [StepRecord.rollBack] at hs ⊢
  split at hs
  · cases hs
  · rw [if_neg ‹_›]
    exact hr'

theorem commitGroup_checked (v : ExecVars) :
    Prog.Keeps (Checked env plan began) (commitGroup env v) :=
  Prog.keeps_ite (fun _ => Prog.keeps_bind commit_checked fun _ =>
    Prog.keeps_bind (fun _ h => h.same rfl rfl) fun _ =>
    Prog.keeps_bind (releaseSlot_keeps checked_patient _) fun _ => Prog.keeps_pure)
    fun _ => Prog.keeps_pure

theorem leaveGroup_checked (v : ExecVars) (step : Step δ) :
    Prog.Keeps (Checked env plan began) (leaveGroup env v step) :=
  Prog.keeps_ite (fun _ => Prog.keeps_bind (commitGroup_checked v) fun _ => Prog.keeps_pure)
    fun _ => Prog.keeps_pure

theorem openGroup_checked (v : ExecVars) :
    Prog.Keeps (Checked env plan began) (openGroup env fuel v) :=
  Prog.keeps_ite (fun _ => Prog.keeps_pure) fun _ =>
    Prog.keeps_bind (operationSlot_keeps checked_patient) fun _ =>
    Prog.keeps_bind begin_checked fun _ => Prog.keeps_ite
      (fun _ => Prog.keeps_bind (ask_keeps checked_patient) fun _ => Prog.keeps_pure)
      fun _ => Prog.keeps_pure

theorem retryGroup_checked (v : ExecVars) (step : Step δ) :
    Prog.Keeps (Checked env plan began) (retryGroup env cfg plan v step) := by
  refine Prog.keeps_bind (rollback_keeps checked_patient) fun _ =>
    Prog.keeps_bind groupRolledBack_checked fun _ =>
    Prog.keeps_bind (releaseSlot_keeps checked_patient _) fun _ =>
    Prog.keeps_bind (ask_keeps checked_patient) fun stop => Prog.keeps_ite (fun _ => ?_) fun _ =>
    Prog.keeps_bind (ask_keeps checked_patient) fun now => Prog.keeps_ite (fun _ => ?_) fun _ => ?_
  · exact Prog.keeps_bind (cancelled_keeps checked_patient) fun _ => Prog.keeps_pure
  · exact Prog.keeps_bind (recordStep_keeps checked_patient _ (by decide) _) fun _ =>
      Prog.keeps_throw
  · refine Prog.keeps_bind (fun w h => h.of (Nat.le_refl _) fun r hr _ => ?_) fun _ =>
      Prog.keeps_pure
    exact List.mem_of_mem_filter hr

theorem runGrouped_checked (v : ExecVars) {step : Step δ}
    (hn : ∀ name, ¬ plan.Looks step.ordinal name) :
    Prog.Keeps (Checked env plan began) (runGrouped env cfg fuel plan v step) := by
  refine Prog.keeps_bind (openGroup_checked v) fun v => ?_
  split
  · exact Prog.keeps_bind (runCopy_checked hn _) fun _ => Prog.keeps_pure
  · refine Prog.keeps_bind (runInTransaction_checked hn _) fun timedOut =>
      Prog.keeps_ite (fun _ => ?_) fun _ => Prog.keeps_pure
    refine Prog.keeps_bind (retryGroup_checked v step) fun r => ?_
    cases r <;> exact Prog.keeps_pure

theorem runStep_checked {v : ExecVars} {n : Nat} {step : Step δ}
    (hstep : plan.steps[n]? = some step) :
    Prog.Keeps (Checked env plan began) (runStep env cfg codec fuel plan v step) := by
  have hord : step.ordinal = n := plan.numbered n step hstep
  have hother : ¬ step.verifies → ∀ name, ¬ plan.Looks step.ordinal name := by
    rintro hnot name ⟨-, -, step', hstep', hverifies⟩
    rw [hord, hstep] at hstep'
    cases hstep'
    exact hnot hverifies
  unfold runStep
  cases hclass : step.txnClass with
  | ownTxnPerBatch walk =>
    refine Prog.keeps_bind (runBackfill_checked (hother fun h => ?_)) fun _ =>
      Prog.keeps_bind Prog.keeps_gets fun _ =>
      Prog.keeps_ite (fun _ => Prog.keeps_pure) fun _ => Prog.keeps_pure
    rw [Step.verifies, hclass] at h
    cases h.1
  | txnForbidden =>
    refine Prog.keeps_bind (runNontransactional_checked (hother fun h => ?_)) fun _ =>
      Prog.keeps_pure
    rw [Step.verifies, hclass] at h
    cases h.1
  | transactional =>
    dsimp only
    split
    · exact Prog.keeps_bind (verifyIndexValid_checked n hord) fun _ => Prog.keeps_pure
    · rename_i hkind
      exact runGrouped_checked v (hother fun h => hkind h.2)

theorem takeStep_checked {v : ExecVars} {step : Step δ}
    (hstep : plan.steps[v.position]? = some step) :
    Prog.Keeps (Checked env plan began) (takeStep env cfg codec fuel plan v step) := by
  refine Prog.keeps_bind (ask_keeps checked_patient) fun stop => Prog.keeps_ite (fun _ => ?_)
    fun _ => ?_
  · refine Prog.keeps_bind (Prog.keeps_ite (fun _ => ?_) fun _ =>
      cancelled_keeps checked_patient) fun _ => Prog.keeps_pure
    exact Prog.keeps_bind (rollback_keeps checked_patient) fun _ =>
      Prog.keeps_bind groupRolledBack_checked fun _ => cancelled_keeps checked_patient
  · split
    · exact Prog.keeps_bind (recordStep_keeps checked_patient _ (by decide) _) fun _ =>
        Prog.keeps_pure
    · exact Prog.keeps_pure
    · exact Prog.keeps_bind (leaveGroup_checked v step) fun v => runStep_checked hstep

theorem nextStep_checked (v : ExecVars) :
    Prog.Keeps (Checked env plan began) (nextStep env cfg codec fuel plan v) := by
  unfold nextStep
  cases hstep : plan.steps[v.position]? with
  | some step => exact takeStep_checked hstep
  | none =>
    refine Prog.keeps_bind (commitGroup_checked v) fun _ =>
      Prog.keeps_bind (fun _ h => ?_) fun _ => Prog.keeps_pure
    exact h.same rfl rfl

theorem ended_checked (e : Failure) : Prog.Keeps (Checked env plan began) (ended env e) := by
  have hfail : Prog.Keeps (Checked env plan began) fail :=
    Prog.keeps_bind Prog.keeps_gets fun _ => Prog.keeps_bind (fun _ h => h.same rfl rfl) fun _ =>
      publish_keeps checked_patient _
  refine Prog.keeps_bind groupRolledBack_checked fun _ => ?_
  split
  · exact Prog.keeps_bind (ask_keeps checked_patient) fun _ => Prog.keeps_ite
      (fun _ => Prog.keeps_bind (ask_keeps checked_patient) fun _ => Prog.keeps_ite
        (fun _ => Prog.keeps_bind (ask_keeps checked_patient) fun _ => Prog.keeps_ite
          (fun _ => cancelled_keeps checked_patient) fun _ => hfail) fun _ => hfail) fun _ => hfail
  · exact hfail

theorem run_keeps_checked :
    Prog.Keeps (Checked env plan began) (run env cfg codec fuel plan) := by
  refine Prog.keeps_tryCatch (Prog.keeps_leaving (Prog.keeps_bind call_checked fun _ =>
    Prog.keeps_bind (publish_keeps checked_patient _) fun _ =>
    Prog.keeps_loop nextStep_checked fuel _) fun w h => h.same rfl rfl) ended_checked

end Checked

/-- In every run, a verify step that has an index to look for reads succeeded only if that index
was there and valid at a moment of the run. -/
theorem run_checked (env : Env) (cfg : Config) (codec : ArrayText) (fuel : Nat) (plan : Plan δ)
    (db : Db δ) (tick : Nat) :
    Checked env plan tick (run env cfg codec fuel plan (.planned db tick)).2 :=
  run_keeps_checked _ ⟨Nat.le_refl _, fun _ hr => by cases hr⟩

end Executor
end Laswell
