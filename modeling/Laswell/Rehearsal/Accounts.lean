import Laswell.Rehearsal.Steps

/-!
# Laswell.Rehearsal.Accounts

What the report of a rehearsal says of each step.

* `Settled`: a step was checked in full or is listed as unverified.
* `Stopped`: how the rehearsal can end at a step; `StepEnds` is what comes of one.
* `Ready`: what holds before a step, `Ready.next` and `Ready.stopped` what each outcome makes of it.
* `rehearsal_accounted`: which steps are settled, or come after a problem, and when a refusal is
  reported as one.
-/

namespace Laswell
namespace Rehearsal

open Base

/-! ## What is accounted for -/

/-- The server accepted every statement of the step in full, or took the rows of its COPY. -/
def FullyChecked (heard : List Heard) (index : Nat) (step : Step) : Prop :=
  step.txnForbidden = false ∧
    match step.copyPayload with
    | some _ => .copied index ∈ heard
    | none => ∀ position raw, step.statements[position]? = some raw →
        stripTrailingSemicolon raw ≠ "" → .accepted index position ∈ heard

def Settled {σ : Type} (w : World σ) (index : Nat) (step : Step) : Prop :=
  FullyChecked w.heard index step ∨ step.ordinal ∈ w.out.unverifiedSteps

/-- A problem is reported at the step, or at one before it. -/
def AfterProblem {σ : Type} (w : World σ) (steps : List Step) (index : Nat) : Prop :=
  ∃ j step, j ≤ index ∧ steps[j]? = some step ∧ ∃ p ∈ w.out.problems, p.step = step.ordinal

/-- Neither an earlier plan of the chain nor a step of this one before it was left out. -/
def NoneLeftOut (skippedBefore : Bool) (steps : List Step) (index : Nat) : Prop :=
  skippedBefore = false ∧ ∀ s ∈ steps.take index, s.txnForbidden = false

/-- None was left out with nothing checked: the definition of every one was accepted. -/
def NoneUnchecked {σ : Type} (w : World σ) (skippedBefore : Bool) (steps : List Step)
    (index : Nat) : Prop :=
  skippedBefore = false ∧ ∀ s ∈ steps.take index, s.txnForbidden = true →
    s.ordinal ∈ w.out.definitionChecked

/-- Every step is settled or comes after a problem, and a problem is one only where no earlier step
was left out. -/
structure AccountsFor {σ : Type} (steps : List Step) (skippedBefore : Bool) (w : World σ) :
    Prop where
  accounted : ∀ i step, steps[i]? = some step → Settled w i step ∨ AfterProblem w steps i
  refusals : ∀ p ∈ w.out.problems, ∃ i step, steps[i]? = some step ∧ p.step = step.ordinal ∧
    NoneLeftOut skippedBefore steps i

/-- The same, except that a gap leaves open what follows it, that the definition of a step that is
left out is held against it unless another was left out unchecked, and that nothing is said of
COPY and of errors in class 08. -/
structure Accounts {σ : Type} (steps : List Step) (skippedBefore : Bool) (ending : Ending)
    (w : World σ) : Prop where
  accounted : ending ≠ .gap →
    ∀ i step, steps[i]? = some step → Settled w i step ∨ AfterProblem w steps i
  gap : ending = .gap → ∃ k q fault, .refused k q fault ∈ w.heard ∧
    ∀ i ≤ k, ∀ step, steps[i]? = some step → Settled w i step
  refusals : ∀ p ∈ w.out.problems, ∃ i step, steps[i]? = some step ∧ p.step = step.ordinal ∧
    (NoneLeftOut skippedBefore steps i ∨
      step.txnForbidden = true ∧ NoneUnchecked w skippedBefore steps i ∨
      step.copyPayload.isSome = true ∨
      ∃ q what, .refused i q (.brokenConnection what) ∈ w.heard)

section Specs

variable {σ : Type} {srv : Session σ}

/-- Nothing that was heard, left unverified or checked by its definition is forgotten. -/
structure Grows (w w' : World σ) : Prop where
  heard : ∀ h ∈ w.heard, h ∈ w'.heard
  unverified : ∀ n ∈ w.out.unverifiedSteps, n ∈ w'.out.unverifiedSteps
  checked : ∀ n ∈ w.out.definitionChecked, n ∈ w'.out.definitionChecked

theorem Grows.refl (w : World σ) : Grows w w := ⟨fun _ h => h, fun _ h => h, fun _ h => h⟩

theorem Grows.trans {w w' w'' : World σ} (h : Grows w w') (h' : Grows w' w'') : Grows w w'' :=
  ⟨fun x hx => h'.heard x (h.heard x hx), fun n hn => h'.unverified n (h.unverified n hn),
    fun n hn => h'.checked n (h.checked n hn)⟩

theorem Settled.grows {w w' : World σ} {index : Nat} {step : Step} (h : Settled w index step)
    (hgrows : Grows w w') : Settled w' index step := by
  rcases h with ⟨hrun, hchecked⟩ | hlisted
  · refine .inl ⟨hrun, ?_⟩
    cases hcopy : step.copyPayload with
    | some payload =>
      rw [hcopy] at hchecked
      exact hgrows.heard _ hchecked
    | none =>
      rw [hcopy] at hchecked
      intro position raw hraw hne
      exact hgrows.heard _ (hchecked position raw hraw hne)
  · exact .inr (hgrows.unverified _ hlisted)

/-- What goes on inside a step: the problems and the flag of the chain stay. -/
structure Within (w w' : World σ) : Prop extends Grows w w' where
  problems : w'.out.problems = w.out.problems
  skippedAny : w'.skippedAny = w.skippedAny

theorem Within.refl (w : World σ) : Within w w := ⟨.refl w, rfl, rfl⟩

theorem Within.trans {w w' w'' : World σ} (h : Within w w') (h' : Within w' w'') : Within w w'' :=
  ⟨h.toGrows.trans h'.toGrows, h'.problems.trans h.problems, h'.skippedAny.trans h.skippedAny⟩

theorem wp_onSession {α : Type} {p : Prog σ Fault α} {Q : Outcome Fault α → World σ → Prop}
    {w : World σ} (h : ∀ o s, Q o { w with session := s }) : (onSession p).Wp Q w :=
  h (p w.session).1 (p w.session).2

theorem within_session (w : World σ) (s : σ) : Within w { w with session := s } :=
  ⟨⟨fun _ h => h, fun _ h => h, fun _ h => h⟩, rfl, rfl⟩

theorem within_hear (w : World σ) (h : Heard) : Within w { w with heard := h :: w.heard } :=
  ⟨⟨fun _ hx => List.mem_cons_of_mem _ hx, fun _ hx => hx, fun _ hx => hx⟩, rfl, rfl⟩

/-- A step is added to the list, if it is not there. -/
theorem noteUnverified_spec (ordinal : Nat) (w : World σ) :
    (noteUnverified ordinal).Wp (fun o w' => o = .ok () ∧ Within w w' ∧
      ordinal ∈ w'.out.unverifiedSteps) w := by
  unfold noteUnverified report
  rw [Prog.wp_modify]
  by_cases hin : ordinal ∈ w.out.unverifiedSteps
  · simp only [if_pos hin, true_and]
    exact ⟨.refl w, hin⟩
  · simp only [if_neg hin, true_and]
    refine ⟨⟨⟨fun _ h => h, fun n hn => ?_, fun _ h => h⟩, rfl, rfl⟩, by simp⟩
    exact List.mem_append_left _ hn

theorem noteAll_spec (steps : List Step) :
    ∀ w : World σ, (noteAll steps).Wp (fun o w' => o = .ok () ∧ Within w w' ∧
      ∀ s ∈ steps, s.ordinal ∈ w'.out.unverifiedSteps) w := by
  induction steps with
  | nil =>
    intro w
    exact ⟨rfl, .refl w, by simp⟩
  | cons step rest ih =>
    intro w
    rw [noteAll, Prog.wp_bind]
    refine (noteUnverified_spec step.ordinal w).mono ?_
    rintro o w' ⟨rfl, hwithin, hstep⟩
    rw [Prog.andThen_ok]
    refine (ih w').mono ?_
    rintro o w'' ⟨rfl, hwithin', hrest⟩
    refine ⟨rfl, hwithin.trans hwithin', fun s hs => ?_⟩
    rcases List.mem_cons.mp hs with rfl | hs
    · exact hwithin'.unverified _ hstep
    · exact hrest s hs

/-! ## What each part comes to -/

section Parts

variable {α : Type} {w₀ : World σ}

theorem keeps_onSession (p : Prog σ Fault α) : Prog.Keeps (Within w₀) (onSession p) :=
  fun w h => h.trans (within_session w _)

theorem keeps_onSqlError {p : Run σ α} {h : String → String → Run σ α}
    (hp : Prog.Keeps (Within w₀) p) (hh : ∀ a b, Prog.Keeps (Within w₀) (h a b)) :
    Prog.Keeps (Within w₀) (onSqlError p h) := by
  refine Prog.keeps_tryCatch hp fun fault => ?_
  cases fault with
  | sqlError sqlstate what => exact hh sqlstate what
  | brokenConnection what => exact Prog.keeps_throw
  | other what => exact Prog.keeps_throw

theorem keeps_checkOnEmptyCopies (checks : List CopyCheck) :
    ∀ checked, Prog.Keeps (Within w₀) (checkOnEmptyCopies srv checks checked) := by
  have hback : Prog.Keeps (Within w₀) (back srv) :=
    Prog.keeps_bind (keeps_onSession _) fun _ => keeps_onSession _
  induction checks with
  | nil => exact fun _ => Prog.keeps_pure
  | cons c rest ih =>
    intro checked
    unfold checkOnEmptyCopies
    refine Prog.keeps_ite (fun _ => ih checked) fun _ => ?_
    refine Prog.keeps_bind (keeps_onSession _) fun _ => Prog.keeps_bind ?_ fun made => ?_
    · exact keeps_onSqlError (Prog.keeps_bind (keeps_onSession _) fun _ => Prog.keeps_pure)
        fun _ _ => Prog.keeps_pure
    · refine Prog.keeps_ite (fun _ => Prog.keeps_bind hback fun _ => Prog.keeps_pure) fun _ => ?_
      refine Prog.keeps_bind ?_ fun refusal => Prog.keeps_bind hback fun _ => ?_
      · exact keeps_onSqlError (Prog.keeps_bind (keeps_onSession _) fun _ => Prog.keeps_pure)
          fun _ _ => Prog.keeps_pure
      · cases refusal with
        | none => exact ih true
        | some p => exact Prog.keeps_pure

end Parts

theorem verify_spec (index position : Nat) (stmt : String) (execute : Bool) (w : World σ) :
    (verify srv index position stmt execute).Wp (fun o w' => Within w w' ∧
      (o = .ok false → .accepted index position ∈ w'.heard)) w := by
  unfold verify
  rw [Prog.wp_bind]
  refine wp_onSession fun o s => ?_
  cases o with
  | ok weak =>
    rw [Prog.andThen_ok, Prog.wp_bind, hear, Prog.wp_modify, Prog.andThen_ok, Prog.wp_pure]
    refine ⟨(within_session w s).trans (within_hear _ _), fun hweak => ?_⟩
    obtain rfl : weak = false := Outcome.ok.inj hweak
    simp
  | err e => exact ⟨within_session w s, fun h => by cases h⟩
  | out => exact ⟨within_session w s, fun h => by cases h⟩

/-- A statement that is taken was accepted, or its step is listed. -/
theorem rehearseStatement_spec (index position : Nat) (step : Step) (stmt : String)
    (more : List String) (shortWait : Bool) (w : World σ) :
    (rehearseStatement srv index position step stmt more shortWait).Wp (fun o w' =>
      Within w w' ∧ ∀ b, o = .ok b →
        .accepted index position ∈ w'.heard ∨ step.ordinal ∈ w'.out.unverifiedSteps) w := by
  unfold rehearseStatement
  rw [Prog.wp_bind]
  refine (verify_spec index position stmt step.execute w).mono ?_
  rintro o w₁ ⟨hwithin, haccepted⟩
  cases o with
  | err e => exact ⟨hwithin, fun b h => by cases h⟩
  | out => exact ⟨hwithin, fun b h => by cases h⟩
  | ok weak =>
    rw [Prog.andThen_ok]
    -- the statement is accepted or listed before the timeout of the next lock is set
    have htimeout : ∀ w₂ : World σ, Within w w₂ →
        (.accepted index position ∈ w₂.heard ∨ step.ordinal ∈ w₂.out.unverifiedSteps) →
        (if (!shortWait && beginsShortWait stmt more) = true then do
            onSession (srv.exec (.sql ("SET LOCAL lock_timeout = " ++ rehearsalExclusiveTryMs)))
            pure true
          else pure shortWait : Run σ Bool).Wp (fun o w' => Within w w' ∧ ∀ b, o = .ok b →
            .accepted index position ∈ w'.heard ∨ step.ordinal ∈ w'.out.unverifiedSteps) w₂ := by
      intro w₂ hw₂ hdone
      split_ifs
      · rw [Prog.wp_bind]
        refine wp_onSession fun o s => ?_
        cases o with
        | ok _ => exact ⟨hw₂.trans (within_session w₂ s), fun _ _ => hdone⟩
        | err e => exact ⟨hw₂.trans (within_session w₂ s), fun b h => by cases h⟩
        | out => exact ⟨hw₂.trans (within_session w₂ s), fun b h => by cases h⟩
      · exact ⟨hw₂, fun _ _ => hdone⟩
    cases weak with
    | false => exact htimeout w₁ hwithin (.inl (haccepted rfl))
    | true =>
      simp only [if_true, Prog.wp_bind]
      refine (noteUnverified_spec step.ordinal w₁).mono ?_
      rintro o w₂ ⟨rfl, hwithin', hlisted⟩
      unfold report
      rw [Prog.andThen_ok, Prog.wp_bind, Prog.wp_modify, Prog.andThen_ok]
      refine htimeout _ ((hwithin.trans hwithin').trans ?_) (.inr ?_)
      · dsimp only
        split_ifs <;> exact ⟨⟨fun _ h => h, fun _ h => h, fun _ h => h⟩, rfl, rfl⟩
      · dsimp only
        split_ifs <;> exact hlisted

/-- Why a refusal at this step is held against it. -/
def Blamed (w w' : World σ) (index : Nat) (step : Step) (unchecked : Bool) : Prop :=
  w.skippedAny = false ∨ step.txnForbidden = true ∧ unchecked = false ∨
    step.copyPayload.isSome = true ∨
    ∃ q what, .refused index q (.brokenConnection what) ∈ w'.heard

/-- How the rehearsal can end at a step. -/
def Stopped (w w' : World σ) (index : Nat) (step : Step) (rest : List Step) (unchecked : Bool) :
    Ending → Prop
  | .ok => False
  | .timedOut => w'.out.problems = w.out.problems ∧
      ∀ s ∈ step :: rest, s.ordinal ∈ w'.out.unverifiedSteps
  | .gap => w'.out.problems = w.out.problems ∧ step.ordinal ∈ w'.out.unverifiedSteps ∧
      ∃ q fault, .refused index q fault ∈ w'.heard
  | .failed => ∃ p, w'.out.problems = w.out.problems ++ [p] ∧ p.step = step.ordinal ∧
      Blamed w w' index step unchecked

theorem addProblem_spec (p : Problem) (w : World σ) :
    (addProblem p).Wp (fun o w' => o = .ok () ∧ Grows w w' ∧
      w'.out.problems = w.out.problems ++ [p] ∧ w'.heard = w.heard) w :=
  ⟨rfl, ⟨fun _ h => h, fun _ h => h, fun _ h => h⟩, rfl, rfl⟩

/-- A flag of the report. -/
theorem within_report {f : DryRun → DryRun} (w : World σ)
    (hf : ∀ out, (f out).unverifiedSteps = out.unverifiedSteps ∧
      (f out).definitionChecked = out.definitionChecked ∧ (f out).problems = out.problems) :
    Within w { w with out := f w.out } := by
  obtain ⟨hunverified, hchecked, hproblems⟩ := hf w.out
  exact ⟨⟨fun _ h => h, fun n hn => by rwa [hunverified], fun n hn => by rwa [hchecked]⟩,
    hproblems, rfl⟩

theorem timedOut_spec (f : DryRun → DryRun) (steps : List Step) (w : World σ)
    (hf : ∀ out, (f out).unverifiedSteps = out.unverifiedSteps ∧
      (f out).definitionChecked = out.definitionChecked ∧ (f out).problems = out.problems) :
    ((do
      report f
      noteAll steps
      pure .timedOut) : Run σ Ending).Wp (fun o w' => o = .ok .timedOut ∧ Within w w' ∧
        ∀ s ∈ steps, s.ordinal ∈ w'.out.unverifiedSteps) w := by
  unfold report
  rw [Prog.wp_bind, Prog.wp_modify, Prog.andThen_ok, Prog.wp_bind]
  refine (noteAll_spec steps _).mono ?_
  rintro o w' ⟨rfl, hwithin, hlisted⟩
  exact ⟨rfl, (within_report w hf).trans hwithin, hlisted⟩

/-- A failure that does not escape ends the rehearsal. -/
theorem statementFailed_spec (index position : Nat) (step : Step) (rest : List Step)
    (stmt : String) (shortWait unchecked : Bool) (fault : Fault) (w : World σ)
    (hheard : .refused index position fault ∈ w.heard) :
    (statementFailed srv step rest stmt shortWait fault).Wp (fun o w' => ∀ ending,
      o = .ok ending → Grows w w' ∧ Stopped w w' index step rest unchecked ending) w := by
  cases fault with
  | other what => exact fun ending h => by cases h
  | brokenConnection what =>
    rw [statementFailed, Prog.wp_bind, Prog.wp_gets, Prog.andThen_ok]
    split_ifs
    · rw [Prog.wp_bind]
      refine (addProblem_spec _ w).mono ?_
      rintro o w' ⟨rfl, hgrows, hproblems, -⟩
      rintro ending h
      obtain rfl := Outcome.ok.inj h
      exact ⟨hgrows, _, hproblems, rfl,
        .inr (.inr (.inr ⟨position, what, hgrows.heard _ hheard⟩))⟩
    · exact fun ending h => by cases h
  | sqlError sqlstate what =>
    rw [statementFailed]
    split_ifs with hlock htimeout
    · refine (timedOut_spec (fun out => { out with lockUnavailableAt := some step.ordinal })
        (step :: rest) w fun _ => ⟨rfl, rfl, rfl⟩).mono ?_
      rintro o w' ⟨rfl, hwithin, hlisted⟩ ending h
      obtain rfl := Outcome.ok.inj h
      exact ⟨hwithin.toGrows, hwithin.problems, hlisted⟩
    · refine (timedOut_spec (fun out => { out with timedOutAt := some step.ordinal })
        (step :: rest) w fun _ => ⟨rfl, rfl, rfl⟩).mono ?_
      rintro o w' ⟨rfl, hwithin, hlisted⟩ ending h
      obtain rfl := Outcome.ok.inj h
      exact ⟨hwithin.toGrows, hwithin.problems, hlisted⟩
    · rw [Prog.wp_bind, Prog.wp_gets, Prog.andThen_ok]
      split_ifs with hskipped
      · rw [Prog.wp_bind]
        refine (noteUnverified_spec step.ordinal w).mono ?_
        rintro o w₁ ⟨rfl, hwithin, hlisted⟩
        unfold report
        rw [Prog.andThen_ok, Prog.wp_bind, Prog.wp_modify, Prog.andThen_ok]
        rintro ending h
        obtain rfl := Outcome.ok.inj h
        have hwithin' : Within w
            { w₁ with out := { w₁.out with dependsOnSkipped := true } } :=
          hwithin.trans ⟨⟨fun _ h => h, fun _ h => h, fun _ h => h⟩, rfl, rfl⟩
        exact ⟨hwithin'.toGrows, hwithin'.problems, hlisted, position, _,
          hwithin'.heard _ hheard⟩
      · rw [Prog.wp_bind]
        refine (addProblem_spec _ w).mono ?_
        rintro o w' ⟨rfl, hgrows, hproblems, -⟩
        rintro ending h
        obtain rfl := Outcome.ok.inj h
        exact ⟨hgrows, _, hproblems, rfl, .inl (by simpa using hskipped)⟩

theorem Stopped.of_within {w w₁ w' : World σ} {index : Nat} {step : Step} {rest : List Step}
    {unchecked : Bool} {ending : Ending} (hwithin : Within w w₁)
    (h : Stopped w₁ w' index step rest unchecked ending) :
    Stopped w w' index step rest unchecked ending := by
  cases ending with
  | ok => exact h
  | timedOut => exact ⟨h.1.trans hwithin.problems, h.2⟩
  | gap => exact ⟨h.1.trans hwithin.problems, h.2⟩
  | failed =>
    obtain ⟨p, hproblems, hp, hblamed⟩ := h
    refine ⟨p, by rw [hproblems, hwithin.problems], hp, ?_⟩
    rwa [Blamed, hwithin.skippedAny] at hblamed

/-- What comes of a step: it is passed, or the rehearsal ends at it. Nothing is said of a failure
that escapes. -/
def StepEnds {β : Type} (w w' : World σ) (index : Nat) (step : Step) (rest : List Step)
    (unchecked : Bool) (passed : β → Prop) : Outcome Fault (β ⊕ Ending) → Prop
  | .ok (.inl b) => passed b
  | .ok (.inr ending) => Grows w w' ∧ Stopped w w' index step rest unchecked ending
  | .err _ => True
  | .out => True

/-- The statements from one position on: all accepted or the step listed, unless one ends it. -/
theorem rehearseStatements_spec (index : Nat) (step : Step) (rest : List Step) (unchecked : Bool)
    (statements : List String) :
    ∀ position shortWait (w : World σ),
      (rehearseStatements srv index step rest position statements shortWait).Wp (fun o w' =>
        StepEnds w w' index step rest unchecked (fun _ => Within w w' ∧
          (step.ordinal ∈ w'.out.unverifiedSteps ∨
            ∀ k raw, statements[k]? = some raw → stripTrailingSemicolon raw ≠ "" →
              .accepted index (position + k) ∈ w'.heard)) o) w := by
  induction statements with
  | nil =>
    intro position shortWait w
    exact ⟨.refl w, .inr (by simp)⟩
  | cons raw more ih =>
    intro position shortWait w
    -- what the statements after this one come to, once it is settled
    have hmore : ∀ (w₁ : World σ) (b : Bool), Within w w₁ →
        (step.ordinal ∈ w₁.out.unverifiedSteps ∨ stripTrailingSemicolon raw = "" ∨
          .accepted index position ∈ w₁.heard) →
        (rehearseStatements srv index step rest (position + 1) more b).Wp (fun o w' =>
          StepEnds w w' index step rest unchecked (fun _ => Within w w' ∧
            (step.ordinal ∈ w'.out.unverifiedSteps ∨
              ∀ k r, (raw :: more)[k]? = some r → stripTrailingSemicolon r ≠ "" →
                .accepted index (position + k) ∈ w'.heard)) o) w₁ := by
      intro w₁ b hwithin hfirst
      refine (ih (position + 1) b w₁).mono ?_
      intro o w' hends
      match o, hends with
      | .ok (.inl b'), ⟨hwithin', hrest⟩ =>
        refine ⟨hwithin.trans hwithin', ?_⟩
        rcases hrest with hlisted | hrest
        · exact .inl hlisted
        · rcases hfirst with hlisted | hfirst
          · exact .inl (hwithin'.unverified _ hlisted)
          · refine .inr fun k r hr hne => ?_
            cases k with
            | zero =>
              obtain rfl : raw = r := by simpa using hr
              exact hwithin'.heard _ (hfirst.resolve_left hne)
            | succ k =>
              have haccepted := hrest k r (by simpa using hr) hne
              rwa [Nat.add_right_comm] at haccepted
      | .ok (.inr ending), ⟨hgrows, hend⟩ =>
        exact ⟨hwithin.toGrows.trans hgrows, hend.of_within hwithin⟩
      | .err e, _ => trivial
      | .out, _ => trivial
    rw [rehearseStatements]
    split_ifs with hempty
    · exact hmore w shortWait (.refl w) (.inr (.inl hempty))
    · rw [Prog.wp_bind, Prog.wp_tryCatch, Prog.wp_bind]
      refine (rehearseStatement_spec index position step _ more shortWait w).mono ?_
      rintro o w₁ ⟨hwithin, haccepted⟩
      cases o with
      | ok b =>
        rcases haccepted b rfl with haccepted | hlisted
        · exact hmore w₁ b hwithin (.inr (.inr haccepted))
        · exact hmore w₁ b hwithin (.inl hlisted)
      | out => trivial
      | err fault =>
        rw [Prog.andThen_err, Prog.orCatch_err, Prog.wp_bind, hear, Prog.wp_modify,
          Prog.andThen_ok, Prog.wp_bind]
        have hwithin' := hwithin.trans (within_hear w₁ (.refused index position fault))
        refine (statementFailed_spec index position step rest _ shortWait unchecked fault _
          (List.mem_cons_self ..)).mono ?_
        rintro o w₂ hend
        cases o with
        | ok ending =>
          obtain ⟨hgrows, hstopped⟩ := hend ending rfl
          exact ⟨hwithin'.toGrows.trans hgrows, hstopped.of_within hwithin'⟩
        | err e => trivial
        | out => trivial

/-- A step that is left out is listed. -/
theorem leaveOut_spec (index : Nat) (step : Step) (rest : List Step) (unchecked : Bool)
    (w : World σ) (hforbidden : step.txnForbidden = true) :
    (leaveOut srv step unchecked).Wp (fun o w' =>
      StepEnds w w' index step rest unchecked (fun u => Grows w w' ∧
        w'.out.problems = w.out.problems ∧ w'.skippedAny = true ∧
        step.ordinal ∈ w'.out.unverifiedSteps ∧
        (u = false → step.ordinal ∈ w'.out.definitionChecked)) o) w := by
  unfold leaveOut
  rw [Prog.wp_bind]
  refine (noteUnverified_spec step.ordinal w).mono ?_
  rintro o w₁ ⟨rfl, hwithin, hlisted⟩
  rw [Prog.andThen_ok, Prog.wp_bind]
  have hkeeps : Prog.Keeps (Within w₁) (checkOnEmptyCopies srv step.onCopy false) :=
    keeps_checkOnEmptyCopies step.onCopy false
  refine (hkeeps.wp (.refl w₁)).mono ?_
  intro o w₂ hwithin₂
  have hw₂ := hwithin.trans hwithin₂
  -- both ways on, once the step counts as left out
  have hleft : ∀ checked : Bool, ((do
      if checked then
        report fun out => { out with definitionChecked := out.definitionChecked ++ [step.ordinal] }
      Prog.modify fun w => { w with skippedAny := true }
      pure (.inl !checked)) : Run σ (Bool ⊕ Ending)).Wp (fun o w' =>
        StepEnds w w' index step rest unchecked (fun u => Grows w w' ∧
          w'.out.problems = w.out.problems ∧ w'.skippedAny = true ∧
          step.ordinal ∈ w'.out.unverifiedSteps ∧
          (u = false → step.ordinal ∈ w'.out.definitionChecked)) o) w₂ := by
    intro checked
    have hlisted₂ := hwithin₂.unverified _ hlisted
    cases checked with
    | false =>
      simp only [Bool.false_eq_true, if_false, Prog.wp_bind, Prog.wp_modify, Prog.andThen_ok,
        Prog.wp_pure]
      exact ⟨⟨hw₂.heard, hw₂.unverified, hw₂.checked⟩, hw₂.problems, trivial, hlisted₂, by simp⟩
    | true =>
      simp only [if_true, report, Prog.wp_bind, Prog.wp_modify, Prog.andThen_ok, Prog.wp_pure]
      refine ⟨⟨hw₂.heard, hw₂.unverified, fun n hn => ?_⟩, hw₂.problems, trivial, hlisted₂, ?_⟩
      · exact List.mem_append_left _ (hw₂.checked n hn)
      · simp
  cases o with
  | err e => trivial
  | out => trivial
  | ok checks =>
    obtain ⟨p, checked⟩ := checks
    cases p with
    | none => exact hleft (checked && true)
    | some p =>
      cases unchecked with
      | true => exact hleft (checked && false)
      | false =>
        rw [Prog.andThen_ok, Prog.wp_bind]
        refine (addProblem_spec { p with step := step.ordinal } w₂).mono ?_
        rintro o w₃ ⟨rfl, hgrows, hproblems, -⟩
        rw [Prog.andThen_ok, Prog.wp_pure]
        exact ⟨hw₂.toGrows.trans hgrows, _, by rw [hproblems, hw₂.problems], rfl,
          .inr (.inl ⟨hforbidden, rfl⟩)⟩

theorem copyRows_spec (index : Nat) (step : Step) (rest : List Step) (unchecked : Bool)
    (payload : CopyPayload) (hpayload : step.copyPayload = some payload) (w : World σ) :
    (copyRows srv index step payload).Wp (fun o w' =>
      (o = .ok none → Within w w' ∧ .copied index ∈ w'.heard) ∧
      ∀ ending, o = .ok (some ending) →
        Grows w w' ∧ Stopped w w' index step rest unchecked ending) w := by
  unfold copyRows onSqlError
  rw [Prog.wp_tryCatch, Prog.wp_bind]
  refine wp_onSession fun o s => ?_
  have hsession := within_session w s
  cases o with
  | ok _ =>
    exact ⟨fun _ => ⟨hsession.trans (within_hear _ _), List.mem_cons_self ..⟩, nofun⟩
  | out => exact ⟨nofun, nofun⟩
  | err fault =>
    cases fault with
    | brokenConnection what => exact ⟨nofun, nofun⟩
    | other what => exact ⟨nofun, nofun⟩
    | sqlError sqlstate what =>
      rw [Prog.andThen_err, Prog.orCatch_err, Prog.wp_bind]
      refine (addProblem_spec _ _).mono ?_
      rintro o w' ⟨rfl, hgrows, hproblems, -⟩
      rw [Prog.andThen_ok, Prog.wp_pure]
      refine ⟨nofun, fun ending h => ?_⟩
      obtain rfl : Ending.failed = ending := by simpa using h
      exact ⟨hsession.toGrows.trans hgrows, _, hproblems, rfl,
        .inr (.inr (.inl (by rw [hpayload]; rfl)))⟩

/-! ## A whole rehearsal -/

/-- Before a step: those before it are settled, and no problem is reported. -/
structure Ready (skippedBefore : Bool) (done : List Step) (unchecked : Bool) (w : World σ) :
    Prop where
  settled : ∀ i step, done[i]? = some step → Settled w i step
  problems : w.out.problems = []
  skipped : w.skippedAny = false →
    skippedBefore = false ∧ ∀ s ∈ done, s.txnForbidden = false
  unchecked : unchecked = false →
    skippedBefore = false ∧ ∀ s ∈ done, s.txnForbidden = true →
      s.ordinal ∈ w.out.definitionChecked

theorem getElem?_append_one {done : List Step} {step s : Step} {i : Nat}
    (h : (done ++ [step])[i]? = some s) : done[i]? = some s ∨ i = done.length ∧ s = step := by
  rcases Nat.lt_or_ge i done.length with hlt | hge
  · exact .inl (by rwa [List.getElem?_append_left hlt] at h)
  · rw [List.getElem?_append_right hge] at h
    obtain ⟨hi, hs⟩ := List.getElem?_eq_some_iff.mp h
    simp only [List.length_singleton] at hi
    have hzero : i - done.length = 0 := by omega
    refine .inr ⟨by omega, ?_⟩
    simp only [hzero, List.getElem_cons_zero] at hs
    exact hs.symm

/-- One more step is settled. -/
theorem Ready.next {b unchecked unchecked' : Bool} {done : List Step} {step : Step}
    {w w' : World σ} (h : Ready b done unchecked w) (hgrows : Grows w w')
    (hproblems : w'.out.problems = w.out.problems) (hstep : Settled w' done.length step)
    (hskipped : w'.skippedAny = false → w.skippedAny = false ∧ step.txnForbidden = false)
    (hunchecked : unchecked' = false → unchecked = false ∧
      (step.txnForbidden = true → step.ordinal ∈ w'.out.definitionChecked)) :
    Ready b (done ++ [step]) unchecked' w' where
  settled i s hs := by
    rcases getElem?_append_one hs with hs | ⟨rfl, rfl⟩
    · exact (h.settled i s hs).grows hgrows
    · exact hstep
  problems := hproblems.trans h.problems
  skipped hfalse := by
    obtain ⟨hbefore, hnow⟩ := hskipped hfalse
    obtain ⟨hb, hdone⟩ := h.skipped hbefore
    exact ⟨hb, by simpa [or_imp, forall_and, hnow] using hdone⟩
  unchecked hfalse := by
    obtain ⟨hbefore, hnow⟩ := hunchecked hfalse
    obtain ⟨hb, hdone⟩ := h.unchecked hbefore
    refine ⟨hb, fun s hs hforbidden => ?_⟩
    rcases List.mem_append.mp hs with hs | hs
    · exact hgrows.checked _ (hdone s hs hforbidden)
    · obtain rfl := List.mem_singleton.mp hs
      exact hnow hforbidden

/-- The step of an ending is the first that is not settled, and the report accounts for it. -/
theorem Ready.stopped {b unchecked : Bool} {done rest : List Step} {step : Step}
    {w w' : World σ} {ending : Ending} (h : Ready b done unchecked w) (hgrows : Grows w w')
    (hstopped : Stopped w w' done.length step rest unchecked ending) :
    Accounts (done ++ step :: rest) b ending w' := by
  have hdone : ∀ i s, i < done.length → (done ++ step :: rest)[i]? = some s →
      Settled w' i s := by
    intro i s hi hs
    rw [List.getElem?_append_left hi] at hs
    exact (h.settled i s hs).grows hgrows
  have hat : (done ++ step :: rest)[done.length]? = some step := by simp
  have htake : (done ++ step :: rest).take done.length = done := by simp
  cases ending with
  | ok => exact hstopped.elim
  | timedOut =>
    obtain ⟨hproblems, hlisted⟩ := hstopped
    refine ⟨fun _ i s hs => .inl ?_, nofun, fun p hp => ?_⟩
    · rcases Nat.lt_or_ge i done.length with hlt | hge
      · exact hdone i s hlt hs
      · rw [List.getElem?_append_right hge] at hs
        exact .inr (hlisted s (List.mem_of_getElem? hs))
    · rw [hproblems, h.problems] at hp
      cases hp
  | gap =>
    obtain ⟨hproblems, hlisted, q, fault, hheard⟩ := hstopped
    refine ⟨fun hne => absurd rfl hne, fun _ => ?_, fun p hp => ?_⟩
    · refine ⟨done.length, q, fault, hheard, fun i hi s hs => ?_⟩
      rcases Nat.lt_or_ge i done.length with hlt | hge
      · exact hdone i s hlt hs
      · obtain rfl : i = done.length := by omega
        obtain rfl : step = s := by simpa using hs
        exact .inr hlisted
    · rw [hproblems, h.problems] at hp
      cases hp
  | failed =>
    obtain ⟨p, hproblems, hp, hblamed⟩ := hstopped
    rw [h.problems, List.nil_append] at hproblems
    refine ⟨fun _ i s hs => ?_, nofun, fun p' hp' => ?_⟩
    · rcases Nat.lt_or_ge i done.length with hlt | hge
      · exact .inl (hdone i s hlt hs)
      · exact .inr ⟨done.length, step, hge, hat, p, by simp [hproblems], hp⟩
    · obtain rfl : p' = p := by simpa [hproblems] using hp'
      refine ⟨done.length, step, hat, hp, ?_⟩
      rw [NoneLeftOut, NoneUnchecked, htake]
      rcases hblamed with hskipped | ⟨hforbidden, hunchecked⟩ | hcopy | hbroken
      · exact .inl (h.skipped hskipped)
      · obtain ⟨hb, hall⟩ := h.unchecked hunchecked
        exact .inr (.inl ⟨hforbidden, hb, fun s hs hs' => hgrows.checked _ (hall s hs hs')⟩)
      · exact .inr (.inr (.inl hcopy))
      · exact .inr (.inr (.inr hbroken))

/-- From a step on, when those before it are settled. -/
theorem rehearseFrom_spec (b : Bool) (rest : List Step) :
    ∀ (done : List Step) (unchecked : Bool) (w : World σ), Ready b done unchecked w →
      (rehearseFrom srv done.length rest unchecked).Wp (fun o w' =>
        ∀ ending, o = .ok ending → Accounts (done ++ rest) b ending w') w := by
  induction rest with
  | nil =>
    intro done unchecked w hready
    rw [rehearseFrom, Prog.wp_pure, List.append_nil]
    intro ending h
    obtain rfl : Ending.ok = ending := Outcome.ok.inj h
    refine ⟨fun _ i s hs => .inl (hready.settled i s hs), nofun, fun p hp => ?_⟩
    rw [hready.problems] at hp
    cases hp
  | cons step rest ih =>
    intro done unchecked w hready
    -- the steps after this one, once it is settled
    have hnext : ∀ (unchecked' : Bool) (w' : World σ), Ready b (done ++ [step]) unchecked' w' →
        (rehearseFrom srv (done.length + 1) rest unchecked').Wp (fun o w' =>
          ∀ ending, o = .ok ending → Accounts (done ++ step :: rest) b ending w') w' := by
      intro unchecked' w' hready'
      simpa using ih (done ++ [step]) unchecked' w' hready'
    rw [rehearseFrom]
    split_ifs with hforbidden
    · rw [Prog.wp_bind]
      refine (leaveOut_spec done.length step rest unchecked w hforbidden).mono ?_
      intro o w' hends
      match o, hends with
      | .err e, _ => exact fun ending h => by cases h
      | .out, _ => exact fun ending h => by cases h
      | .ok (.inr ending), ⟨hgrows, hstopped⟩ =>
        intro ending' h
        obtain rfl : ending = ending' := Outcome.ok.inj h
        exact hready.stopped hgrows hstopped
      | .ok (.inl u), ⟨hgrows, hproblems, hskipped, hlisted, hchecked⟩ =>
        refine hnext _ w' (hready.next hgrows hproblems (.inr hlisted) ?_ ?_)
        · exact fun hfalse => by rw [hskipped] at hfalse; cases hfalse
        · intro hfalse
          rw [Bool.or_eq_false_iff] at hfalse
          exact ⟨hfalse.1, fun _ => hchecked hfalse.2⟩
    · have hrun : step.txnForbidden = false := by simpa using hforbidden
      -- a step that is run leaves the flags
      have hgo : ∀ w' : World σ, Within w w' → Settled w' done.length step →
          Ready b (done ++ [step]) unchecked w' := by
        intro w' hwithin hsettled
        refine hready.next hwithin.toGrows hwithin.problems hsettled ?_ ?_
        · exact fun hfalse => ⟨by rw [← hwithin.skippedAny, hfalse], hrun⟩
        · exact fun hfalse => ⟨hfalse, fun h => absurd h hforbidden⟩
      split
      · rename_i payload hpayload
        rw [Prog.wp_bind]
        refine (copyRows_spec done.length step rest unchecked payload hpayload w).mono ?_
        rintro o w' ⟨hcopied, hstopped⟩
        match o with
        | .err e => exact fun ending h => by cases h
        | .out => exact fun ending h => by cases h
        | .ok none =>
          obtain ⟨hwithin, hheard⟩ := hcopied rfl
          exact hnext unchecked w' (hgo w' hwithin (.inl ⟨hrun, by rw [hpayload]; exact hheard⟩))
        | .ok (some ending) =>
          obtain ⟨hgrows, hend⟩ := hstopped ending rfl
          intro ending' h
          obtain rfl : ending = ending' := Outcome.ok.inj h
          exact hready.stopped hgrows hend
      · rename_i hpayload
        rw [Prog.wp_bind]
        refine (rehearseStatements_spec done.length step rest unchecked step.statements 0 false
          w).mono ?_
        intro o w' hends
        match o, hends with
        | .err e, _ => exact fun ending h => by cases h
        | .out, _ => exact fun ending h => by cases h
        | .ok (.inr ending), ⟨hgrows, hstopped⟩ =>
          intro ending' h
          obtain rfl : ending = ending' := Outcome.ok.inj h
          exact hready.stopped hgrows hstopped
        | .ok (.inl shortWait), ⟨hwithin, hdone⟩ =>
          have hsettled : Settled w' done.length step := by
            rcases hdone with hlisted | hall
            · exact .inr hlisted
            · refine .inl ⟨hrun, ?_⟩
              rw [hpayload]
              simpa using hall
          cases shortWait with
          | false => exact hnext unchecked w' (hgo w' hwithin hsettled)
          | true =>
            simp only [Prog.andThen_ok, if_true, Prog.wp_bind]
            refine wp_onSession fun o s => ?_
            cases o with
            | err e => exact fun ending h => by cases h
            | out => exact fun ending h => by cases h
            | ok _ =>
              exact hnext unchecked _ (hgo _ (hwithin.trans (within_session w' s)) hsettled)

/-- When the rehearsal returns, every step is settled or comes after a reported problem; a gap
settles those up to it. An ordinary refusal is a problem only where no earlier step was left out,
and that of a definition only where none was left out unchecked. -/
theorem rehearsal_accounted (srv : Session σ) (steps : List Step) (session : σ)
    (skippedBefore : Bool) {ending : Ending} {w' : World σ}
    (h : rehearseSteps srv steps { session, skippedAny := skippedBefore } = (.ok ending, w')) :
    Accounts steps skippedBefore ending w' := by
  have hready : Ready skippedBefore [] skippedBefore
      ({ session, skippedAny := skippedBefore } : World σ) :=
    ⟨by simp, rfl, fun h => ⟨h, by simp⟩, fun h => ⟨h, by simp⟩⟩
  have hspec : (rehearseFrom srv 0 steps skippedBefore).Wp (fun o w' => ∀ ending,
      o = .ok ending → Accounts steps skippedBefore ending w')
      { session, skippedAny := skippedBefore } :=
    rehearseFrom_spec skippedBefore steps [] skippedBefore _ hready
  unfold rehearseSteps at h
  rw [Prog.bind_gets] at h
  rw [Prog.Wp, h] at hspec
  exact hspec ending rfl

end Specs

/-! ## Two rehearsals -/

/-- A server that refuses one statement. -/
def refusing (refused : String) : Session Unit where
  verifyStatement stmt _ :=
    if stmt = refused then Prog.throw (.sqlError "42703" "ERROR:  no such column") else pure false
  exec command :=
    if command = .sql refused then Prog.throw (.sqlError "42703" "ERROR:  no such column")
    else pure ()
  streamCopy _ := pure ()
  isOpen _ := true

/-- An index build that is left out, with its definition to be tried on an empty copy. -/
def indexBuild (ordinal : Nat) (sql : String) : Step where
  ordinal := ordinal
  txnForbidden := true
  onCopy := [{ relation := "t", sql }]

/-- The definition of the first build is accepted and that of the second refused: it is a problem,
although the first was left out. -/
theorem rehearsal_blames_definition :
    ¬∀ (steps : List Step) (ending : Ending) (w' : World Unit),
      rehearseSteps (refusing "b") steps { session := () } = (.ok ending, w') →
        AccountsFor steps false w' := by
  intro h
  have haccounts := h [indexBuild 0 "a", indexBuild 1 "b"] .failed _ rfl
  obtain ⟨i, step, hstep, hordinal, -, hnone⟩ := haccounts.refusals
    { step := 1, sqlstate := "42703", message := "no such column",
      statement := "b   -- on an empty copy of t" } (by decide)
  match i, hstep with
  | 0, hstep =>
    obtain rfl : indexBuild 0 "a" = step := by simpa using hstep
    exact absurd hordinal (by decide)
  | 1, _ => exact absurd (hnone (indexBuild 0 "a") (by simp)) (by decide)
  | i + 2, hstep => simp at hstep

/-- A statement is refused after a build that was left out. -/
theorem rehearsal_accounted_gap :
    ∃ w', rehearseSteps (refusing "b") [indexBuild 0 "a", { ordinal := 1, statements := ["b;"] },
      { ordinal := 2, statements := ["c;"] }] { session := () } = (.ok .gap, w') ∧
      w'.out.unverifiedSteps = [0, 1] ∧
      Accounts [indexBuild 0 "a", { ordinal := 1, statements := ["b;"] },
        { ordinal := 2, statements := ["c;"] }] false .gap w' :=
  ⟨_, rfl, rfl, rehearsal_accounted (refusing "b") _ () false rfl⟩

end Rehearsal
end Laswell
