import Laswell.Executor.Checked
import Laswell.Executor.OpenTxn
import Laswell.Planner.Recipes

/-!
# Laswell.Planner.Verify

Planned verify steps, as the executor runs them. It finds the index by looking back through the
plan for a `create_index` step, and reads the catalog in a transaction of its own.

* `planMigration_verified`: a concurrent build is followed by its own check, which starts with no
  transaction open.
* `checksOwn_iff`: a verify step checks the index in its own detail exactly if the nearest
  `create_index` step before it names that index. `planMigration_checked` is the run of such a plan.
* `planned_quiet`: a plan whose verify steps start outside of open transactions, or have nothing to
  look for, never calls the session in the wrong state.
-/

namespace Laswell
namespace Planner

open Base Executor

variable {δ : Type}

/-! ## The check that follows a build -/

theorem verification_builds (s : Step) : s.verification.buildsOutside = false := rfl

theorem withVerification_next : ∀ {l : List Step} {n : Nat} {s : Step},
    (withVerification l)[n]? = some s → s.buildsOutside = true →
    (withVerification l)[n + 1]? = some s.verification
  | [], n, s, h, _ => by simp [withVerification] at h
  | s₀ :: rest, n, s, h, hs => by
    rw [withVerification] at h ⊢
    by_cases hs₀ : s₀.buildsOutside = true
    · rw [if_pos hs₀] at h ⊢
      match n with
      | 0 =>
        cases h
        rfl
      | 1 =>
        cases h
        rw [verification_builds] at hs
        cases hs
      | n + 2 => exact withVerification_next (l := rest) h hs
    · rw [if_neg hs₀] at h ⊢
      match n with
      | 0 =>
        cases h
        exact absurd hs hs₀
      | n + 1 => exact withVerification_next (l := rest) h hs

/-! ## Looking back -/

section LookBack

variable {steps : List (Executor.Step δ)}
  (hnum : ∀ (n : Nat) (step : Executor.Step δ), steps[n]? = some step → step.ordinal = n)
include hnum

/-- What the look-back finds at one ordinal. -/
theorem findSome?_createIndex {i : Nat} {name : String × String} :
    (steps.findSome? fun s =>
        match s.kind with
        | .createIndex schema index => if s.ordinal = i then some (schema, index) else none
        | _ => none) = some name ↔
      ∃ step, steps[i]? = some step ∧ step.kind = .createIndex name.1 name.2 := by
  constructor
  · intro h
    obtain ⟨step, hmem, hstep⟩ := List.exists_of_findSome?_eq_some h
    obtain ⟨n, hn⟩ := List.getElem?_of_mem hmem
    split at hstep
    · rename_i schema index hkind
      split_ifs at hstep with hord
      cases hstep
      rw [hnum n step hn] at hord
      subst hord
      exact ⟨step, hn, hkind⟩
    · cases hstep
  · rintro ⟨step, hstep, hkind⟩
    cases hfind : steps.findSome? fun s =>
        match s.kind with
        | .createIndex schema index => if s.ordinal = i then some (schema, index) else none
        | _ => none with
    | none =>
      have hnone := List.findSome?_eq_none_iff.1 hfind step (List.mem_of_getElem? hstep)
      rw [hkind] at hnone
      simp [hnum i step hstep] at hnone
    | some name' =>
      obtain ⟨step', hmem, hstep'⟩ := List.exists_of_findSome?_eq_some hfind
      obtain ⟨n, hn⟩ := List.getElem?_of_mem hmem
      split at hstep'
      · rename_i schema index hkind'
        split_ifs at hstep' with hord
        rw [hnum n step' hn] at hord
        subst hord
        rw [hstep] at hn
        cases hn
        rw [hkind] at hkind'
        cases hkind'
        exact hstep'.symm ▸ rfl
      · cases hstep'

/-- The index of the nearest `create_index` step before `n`. -/
theorem indexNameFor_eq_some : ∀ {n : Nat} {name : String × String},
    indexNameFor steps n = some name ↔ ∃ i < n,
      (∃ step, steps[i]? = some step ∧ step.kind = .createIndex name.1 name.2) ∧
      ∀ j, i < j → j < n → ∀ step, steps[j]? = some step →
        ∀ schema index, step.kind ≠ .createIndex schema index
  | 0, name => by simp [indexNameFor]
  | n + 1, name => by
    rw [indexNameFor]
    cases hfind : steps.findSome? fun s =>
        match s.kind with
        | .createIndex schema index => if s.ordinal = n then some (schema, index) else none
        | _ => none with
    | some name' =>
      obtain ⟨step, hstep, hkind⟩ := (findSome?_createIndex hnum).1 hfind
      constructor
      · rintro ⟨⟩
        exact ⟨n, Nat.lt_succ_self n, ⟨step, hstep, hkind⟩, fun j hj hjn => by omega⟩
      · rintro ⟨i, hi, ⟨step', hstep', hkind'⟩, hbetween⟩
        rcases Nat.lt_succ_iff_lt_or_eq.1 hi with hlt | rfl
        · exact absurd hkind (hbetween n hlt (Nat.lt_succ_self n) step hstep _ _)
        · rw [hstep] at hstep'
          cases hstep'
          rw [hkind] at hkind'
          injection hkind' with h₁ h₂
          exact congrArg some (Prod.ext h₁ h₂)
    | none =>
      have hnot : ∀ step, steps[n]? = some step →
          ∀ schema index, step.kind ≠ .createIndex schema index := by
        intro step hstep schema index hkind
        have hsome := (@findSome?_createIndex _ _ hnum n (schema, index)).2 ⟨step, hstep, hkind⟩
        rw [hfind] at hsome
        cases hsome
      simp only [indexNameFor_eq_some (n := n)]
      constructor
      · rintro ⟨i, hi, hstep, hbetween⟩
        refine ⟨i, Nat.lt_succ_of_lt hi, hstep, fun j hij hj => ?_⟩
        rcases Nat.lt_succ_iff_lt_or_eq.1 hj with hlt | rfl
        · exact hbetween j hij hlt
        · exact hnot
      · rintro ⟨i, hi, ⟨step, hstep, hkind⟩, hbetween⟩
        rcases Nat.lt_succ_iff_lt_or_eq.1 hi with hlt | rfl
        · exact ⟨i, hlt, ⟨step, hstep, hkind⟩, fun j hij hj => hbetween j hij (Nat.lt_succ_of_lt hj)⟩
        · exact absurd hkind (hnot step hstep _ _)

end LookBack

/-! ## The index that is checked -/

/-- A step that the executor runs as a verify step. -/
def Step.Verifies (s : Step) : Prop :=
  s.kind = verifyIndexValid ∧ s.action = .apply ∧ s.txnClass.apart = false

/-- The index a verify step is for, by its own detail. -/
def Step.own (s : Step) : String × String := (s.detail.schema, s.detail.index)

/-- The index the executor asks `pg_index` for. -/
def asked (steps : List (Executor.Step δ)) (ordinal : Nat) : String × String :=
  (indexNameFor steps ordinal).getD ("", "")

section Own

variable {m : Meaning δ} {env : Env} {cfg : Config} {codec : ArrayText} {fuel : Nat}

/-- What is recorded by a verify step that asks for an index: that it succeeded only if the index
was there and valid when it was read. -/
theorem verifyIndexValid_reads {steps : List (Executor.Step δ)} {step : Executor.Step δ}
    (hasked : (asked steps step.ordinal).2 ≠ "") (w : World δ) :
    (Executor.verifyIndexValid env steps step).Wp (fun _ w' =>
      w'.steps = w.steps ++ [⟨step.ordinal, .succeeded, 0⟩] →
        ∃ k, w.tick ≤ k ∧ k < w'.tick ∧ env.indexValid k (asked steps step.ordinal) = some true)
      w := by
  have hsame : ∀ {w' : World δ}, w'.steps = w.steps →
      w'.steps = w.steps ++ [⟨step.ordinal, .succeeded, 0⟩] →
        ∃ k, w.tick ≤ k ∧ k < w'.tick ∧ env.indexValid k (asked steps step.ordinal) = some true := by
    intro w' hsteps h
    rw [hsteps] at h
    simp at h
  unfold Executor.verifyIndexValid
  unfold asked at hasked hsame ⊢
  cases hname : indexNameFor steps step.ordinal with
  | none => simp [hname] at hasked
  | some name =>
    obtain ⟨schema, index⟩ := name
    rw [hname] at hasked hsame
    have hindex : index ≠ "" := hasked
    simp only [Option.getD_some] at hsame ⊢
    rw [if_neg hindex, Prog.wp_bind]
    refine (readIndexValid_wp (schema, index) step.ordinal w).mono ?_
    rintro (valid | e | _) w' ⟨-, hsteps, hread⟩
    · obtain ⟨k, hle, hlt, hk⟩ := hread valid rfl
      rw [Prog.andThen_ok]
      by_cases hvalid : valid = some true
      · rw [if_pos hvalid, recordStep, Prog.wp_modify]
        exact fun _ => ⟨k, hle, hlt, hk.trans hvalid⟩
      · rw [if_neg hvalid, Prog.wp_bind, recordStep, Prog.wp_modify, Prog.andThen_ok,
          Prog.wp_throw]
        intro h
        simp [hsteps] at h
    · exact hsame hsteps
    · exact hsame hsteps

/-- With nothing to look for, or an index that is there and valid, the step succeeds. -/
theorem verifyIndexValid_succeeds {steps : List (Executor.Step δ)} {step : Executor.Step δ}
    {pgIndex : String × String → Option Bool} (d : δ)
    (h : (asked steps step.ordinal).2 = "" ∨ pgIndex (asked steps step.ordinal) = some true) :
    (Executor.verifyIndexValid { indexValid := fun _ => pgIndex } steps step
      { durable := { data := d } }).2.steps = [⟨step.ordinal, .succeeded, 0⟩] := by
  unfold Executor.verifyIndexValid
  unfold asked at h
  cases hname : indexNameFor steps step.ordinal with
  | none => rfl
  | some name =>
    obtain ⟨schema, index⟩ := name
    rw [hname] at h
    simp only [Option.getD_some] at h ⊢
    by_cases hindex : index = ""
    · rw [if_pos hindex]
      rfl
    · have hvalid := h.resolve_left hindex
      have hread : ∃ w, readIndexValid { indexValid := fun _ => pgIndex } (schema, index)
          step.ordinal { durable := { data := d } } = (.ok (pgIndex (schema, index)), w) ∧
            w.steps = [] := ⟨_, rfl, rfl⟩
      obtain ⟨w, hread, hsteps⟩ := hread
      rw [if_neg hindex, Prog.bind_ok hread, if_pos hvalid]
      change w.steps ++ _ = _
      rw [hsteps, List.nil_append]

theorem run_isCreate {s : Step} {schema index : String} :
    (s.run m).kind = .createIndex schema index ↔ s.kind = createIndex ∧ s.own = (schema, index) := by
  change s.runKind m = _ ↔ _
  unfold Step.runKind Step.own
  by_cases hv : s.kind = verifyIndexValid
  · simp [hv, verifyIndexValid, createIndex]
  · by_cases hc : s.kind = createIndex
    · simp [hc, verifyIndexValid, createIndex]
    · rw [if_neg hv, if_neg hc]
      split_ifs <;> simp [hc]

theorem run_verifies {s : Step} (hs : s.Verifies) : (s.run m).verifies := by
  refine ⟨?_, run_isVerify.2 hs.1⟩
  have hown := @run_needsOwn δ m s
  rw [hs.2.2, Executor.Step.needsOwn] at hown
  cases hc : (s.run m).txnClass <;> simp_all

theorem runStep_verifies {plan : Executor.Plan δ} {v : ExecVars} {s : Step} (hs : s.Verifies)
    (w : World δ) :
    (runStep env cfg codec fuel plan v (s.run m) w).2 =
      (Executor.verifyIndexValid env plan.steps (s.run m) w).2 := by
  have hverifies : (s.run m).verifies := run_verifies hs
  rw [runStep, hverifies.1]
  simp only [hverifies.2]
  rcases hp : Executor.verifyIndexValid env plan.steps (s.run m) w with ⟨o, w'⟩
  change (Prog.bind _ _ w).2 = _
  rw [Prog.bind, hp]
  cases o <;> rfl

/-- The nearest `create_index` step before `s` names the index of `s`, and it is a name. -/
def NearestIsOwn (steps : List Step) (s : Step) : Prop :=
  s.detail.index ≠ "" ∧ ∃ i < s.ordinal,
    (∃ b, steps[i]? = some b ∧ b.kind = createIndex ∧ b.own = s.own) ∧
    ∀ j, i < j → j < s.ordinal → ∀ b, steps[j]? = some b → b.kind ≠ createIndex

theorem nearestIsOwn_iff {steps : List Step} (hnum : Numbered steps) (s : Step) :
    NearestIsOwn steps s ↔ (asked (steps.map (Step.run m)) s.ordinal).2 ≠ "" ∧
      asked (steps.map (Step.run m)) s.ordinal = s.own := by
  have hname : ∀ name, indexNameFor (steps.map (Step.run m)) s.ordinal = some name ↔
      ∃ i < s.ordinal, (∃ b, steps[i]? = some b ∧ b.kind = createIndex ∧ b.own = name) ∧
        ∀ j, i < j → j < s.ordinal → ∀ b, steps[j]? = some b → b.kind ≠ createIndex := by
    intro name
    have hnum' : ∀ (n : Nat) (step : Executor.Step δ),
        (steps.map (Step.run m))[n]? = some step → step.ordinal = n :=
      (toPlan m steps hnum).numbered
    have hnot : ∀ b : Step, (∀ schema index, b.kind = createIndex → ¬ b.own = (schema, index)) ↔
        b.kind ≠ createIndex := fun b => ⟨fun h hk => h _ _ hk rfl, fun h _ _ hk => absurd hk h⟩
    rw [indexNameFor_eq_some hnum']
    simp [run_isCreate, hnot]
  rw [NearestIsOwn, ← hname]
  unfold asked
  cases indexNameFor (steps.map (Step.run m)) s.ordinal with
  | none => simp
  | some name =>
    simp only [Option.some.injEq, Option.getD_some]
    constructor
    · rintro ⟨hindex, rfl⟩
      exact ⟨hindex, rfl⟩
    · rintro ⟨hindex, rfl⟩
      exact ⟨hindex, rfl⟩

/-- The executor records a verify step as succeeded only if the index in the step's own detail was
there and valid at a moment of the step. -/
def ChecksOwn (m : Meaning δ) (cfg : Config) (codec : ArrayText) (fuel : Nat) (v : ExecVars)
    (steps : List Step) (hnum : Numbered steps) : Prop :=
  ∀ s ∈ steps, s.Verifies → ∀ (env : Env) (w w' : World δ),
    w' = (runStep env cfg codec fuel (toPlan m steps hnum) v (s.run m) w).2 →
    w'.steps = w.steps ++ [⟨s.ordinal, .succeeded, 0⟩] →
    ∃ k, w.tick ≤ k ∧ k < w'.tick ∧ env.indexValid k s.own = some true

end Own

theorem ChecksOwn.iff_nearest {m : Meaning δ} {cfg : Config} {codec : ArrayText} {fuel : Nat}
    {v : ExecVars} (d : δ) {steps : List Step} (hnum : Numbered steps) :
    ChecksOwn m cfg codec fuel v steps hnum ↔
      ∀ s ∈ steps, s.Verifies → NearestIsOwn steps s := by
  constructor
  · intro h s hmem hs
    by_contra hnot
    rw [nearestIsOwn_iff (m := m) hnum s] at hnot
    -- every index is valid but the one the step is for
    let pgIndex (name : String × String) : Option Bool := if name = s.own then none else some true
    have hrec : (asked (steps.map (Step.run m)) (s.run m).ordinal).2 = "" ∨
        pgIndex (asked (steps.map (Step.run m)) (s.run m).ordinal) = some true := by
      by_cases hempty : (asked (steps.map (Step.run m)) s.ordinal).2 = ""
      · exact .inl hempty
      · exact .inr (if_neg fun hown => hnot ⟨hempty, hown⟩)
    obtain ⟨k, -, -, hk⟩ := h s hmem hs { indexValid := fun _ => pgIndex }
      { durable := { data := d } } _ rfl (by
        rw [runStep_verifies hs]
        exact verifyIndexValid_succeeds d hrec)
    simp [pgIndex] at hk
  · rintro h s hmem hs env w w' rfl hrec
    obtain ⟨hindex, hown⟩ := (nearestIsOwn_iff hnum s).1 (h s hmem hs)
    rw [runStep_verifies hs] at hrec ⊢
    obtain ⟨k, hle, hlt, hvalid⟩ := verifyIndexValid_reads hindex w hrec
    rw [← hown]
    exact ⟨k, hle, hlt, hvalid⟩

/-- The verify steps of a plan check their own indexes exactly if the nearest `create_index` step
before each of them is one of its index. -/
theorem checksOwn_iff (m : Meaning δ) (cfg : Config) (codec : ArrayText) (fuel : Nat)
    (v : ExecVars) (d : δ) (maintenanceMb : Int) (emitted : List (List Step)) :
    ChecksOwn m cfg codec fuel v (planMigration maintenanceMb emitted)
        (numbered_planMigration maintenanceMb emitted) ↔
      ∀ s ∈ planMigration maintenanceMb emitted, s.Verifies →
        NearestIsOwn (planMigration maintenanceMb emitted) s :=
  ChecksOwn.iff_nearest d (numbered_planMigration maintenanceMb emitted)

/-- In every run of such a plan, a verify step reads succeeded only if the index in its own detail
was there and valid at a moment of the run. -/
theorem planMigration_checked (m : Meaning δ) (env : Env) (cfg : Config) (codec : ArrayText)
    (fuel : Nat) (db : Db δ) (tick : Nat) {maintenanceMb : Int} {emitted : List (List Step)}
    (hown : ∀ s ∈ planMigration maintenanceMb emitted, s.Verifies →
      NearestIsOwn (planMigration maintenanceMb emitted) s) {w' : World δ}
    (hrun : w' = (Executor.run env cfg codec fuel (toPlan m (planMigration maintenanceMb emitted)
      (numbered_planMigration maintenanceMb emitted)) (.planned db tick)).2) :
    ∀ s ∈ planMigration maintenanceMb emitted, s.Verifies → ∀ r ∈ w'.steps,
      r.ordinal = s.ordinal → r.state = .succeeded →
        ∃ k, tick ≤ k ∧ k < w'.tick ∧ env.indexValid k s.own = some true := by
  subst hrun
  intro s hmem hs r hr hord hstate
  have hnum := numbered_planMigration maintenanceMb emitted
  have hchecked := run_checked env cfg codec fuel (toPlan m _ hnum) db tick
  obtain ⟨hindex, hasked⟩ := (nearestIsOwn_iff (m := m) hnum s).1 (hown s hmem hs)
  refine hchecked.valid r hr hstate s.own ⟨hasked ▸ hindex, ?_, s.run m, ?_, run_verifies hs⟩
  · rw [hord]
    unfold asked at hindex hasked
    change indexNameFor (List.map (Step.run m) _) s.ordinal = _
    cases hname : indexNameFor (List.map (Step.run m) (planMigration maintenanceMb emitted))
        s.ordinal with
    | none => exact absurd (by rw [hname]; rfl) hindex
    | some name =>
      rw [hname] at hasked
      exact congrArg some hasked
  · obtain ⟨n, hn⟩ := List.getElem?_of_mem hmem
    obtain rfl : s.ordinal = n := hnum n s hn
    rw [hord]
    exact (List.getElem?_map ..).trans (congrArg (Option.map (Step.run m)) hn)

/-- An index on a table with one partition. -/
def eventsIndex : IndexIntent where
  schema := "public"
  table := "events"
  name := "events_at_idx"
  columns := ["at"]
  using_ := " USING btree (\"at\")"

/-- A server that does whatever it is told. -/
def obeying : Meaning Unit where
  statement _ d := .ok (0, d)
  copy _ d := .ok (0, d)
  walk s := { ordinal := s.ordinal, sql := .statement fun _ _ d => .ok ([], d) }

/-- `s` is the step `t`, but for its statements, its lock and its marks. -/
def Step.IsOf (s t : Step) : Prop := ∃ sql lock retry first,
  s = { t with
    sql, lock, detail := { t.detail with exclusiveRetry := retry, weakerLockFirst := first } }

theorem takeWeakerLockFirst_isOf (lockable : List String) {s t : Step} (h : s.IsOf t) :
    (takeWeakerLockFirst lockable s).IsOf t := by
  obtain ⟨sql, lock, retry, first, rfl⟩ := h
  unfold takeWeakerLockFirst
  split
  · exact ⟨_, _, _, _, rfl⟩
  · exact ⟨_, _, _, _, rfl⟩

/-- Its partition. -/
def eventsPart : Part := { relation := "public.events_2026" }

/-- The check of a partitioned index finds the last step that attached a partition, which names no
index, and passes with an index that is not valid. -/
theorem partitionedIndex_unchecked :
    ∃ steps, planPartitionedIndex eventsIndex ["at"] [{ relation := "public.events_2026" }] =
        .ok steps ∧
      ¬ ChecksOwn obeying {} jsonStrings 9 {}
        (planMigration 0 [steps.map (takeWeakerLockFirst ["\"public\".\"events\""])])
        (numbered_planMigration 0 _) := by
  have hplan : planPartitionedIndex eventsIndex ["at"] [eventsPart] =
      .ok ([partitionBuild eventsIndex eventsPart.relation] ++ [parentBuild eventsIndex] ++
        [attachIndex eventsIndex eventsPart.relation] ++
        [verifyStep "public" "events_at_idx"]) := rfl
  refine ⟨_, hplan, fun h => ?_⟩
  have hof := @takeWeakerLockFirst_isOf ["\"public\".\"events\""]
  obtain ⟨q₀, l₀, r₀, n₀, h₀⟩ := hof (s := partitionBuild eventsIndex eventsPart.relation)
    (t := { kind := createIndex, txnClass := .forbidden, ownTransaction := true, detail := {
      schema := "public", index := childName eventsPart.relation "events_at_idx" } })
    ⟨_, _, _, _, rfl⟩
  obtain ⟨q₁, l₁, r₁, n₁, h₁⟩ := hof (s := parentBuild eventsIndex) (t := {
      kind := createIndex, ownTransaction := true
      detail := { schema := "public", index := "events_at_idx" } }) ⟨_, _, _, _, rfl⟩
  obtain ⟨q₂, l₂, r₂, n₂, h₂⟩ := hof (s := attachIndex eventsIndex eventsPart.relation)
    (t := { kind := createIndex }) ⟨_, _, _, _, rfl⟩
  obtain ⟨q₃, l₃, r₃, n₃, h₃⟩ := hof (s := verifyStep "public" "events_at_idx")
    (t := verifyStep "public" "events_at_idx") ⟨_, _, _, _, rfl⟩
  have hnear := (ChecksOwn.iff_nearest () _).1 h
  simp only [List.map_cons, List.map_nil, List.cons_append, List.nil_append,
    h₀, h₁, h₂, h₃] at hnear
  obtain ⟨-, i, hi, ⟨b, hb, -, hown⟩, hbetween⟩ :=
    hnear _ (List.mem_of_getElem? (i := 4) rfl) ⟨rfl, rfl, rfl⟩
  -- the step that attached the partition is the nearest
  have hlast : ¬ i < 3 := fun hlt => hbetween 3 hlt (show 3 < 4 by decide) _ rfl rfl
  obtain rfl : i = 3 := by
    have hlt : i < 4 := hi
    omega
  cases hb
  exact absurd hown (show ("", "") ≠ ("public", "events_at_idx") by decide)

/-! ## Transactions -/

/-- The server's errors are its own. -/
structure Meaning.Honest (m : Meaning δ) : Prop where
  statement : ∀ sql d, Executor.Honest (m.statement sql d)
  copy : ∀ s d, Executor.Honest (m.copy s d)
  walk : ∀ s, (m.walk s).Honest

theorem toPlan_honest {m : Meaning δ} (hm : m.Honest) {steps : List Step} (hnum : Numbered steps) :
    (toPlan m steps hnum).Honest := by
  intro step hstep
  obtain ⟨s, -, rfl⟩ := List.mem_map.1 hstep
  refine ⟨fun st hst d => ?_, fun payload hp d => ?_, fun walk hw => ?_⟩
  · obtain ⟨text, -, rfl⟩ := List.mem_map.1 hst
    exact hm.statement _ d
  · change s.runKind m = _ at hp
    unfold Step.runKind at hp
    split_ifs at hp <;> cases hp
    exact hm.copy s d
  · change s.runClass m = _ at hw
    unfold Step.runClass at hw
    split at hw <;> cases hw
    exact hm.walk s

/-- The check that follows a concurrent build is of that build's index, and finds no transaction
open. -/
theorem planMigration_verified (m : Meaning δ) {maintenanceMb : Int} {emitted : List (List Step)}
    {n : Nat} {s : Step} (h : (planMigration maintenanceMb emitted)[n]? = some s)
    (hs : s.buildsOutside = true) (hindex : s.detail.index ≠ "") :
    NearestIsOwn (planMigration maintenanceMb emitted) { s.verification with ordinal := n + 1 } ∧
      openAt ((planMigration maintenanceMb emitted).map (Step.run m)) (n + 1) = none := by
  simp only [Step.buildsOutside, Bool.and_eq_true, beq_iff_eq] at hs
  obtain ⟨⟨hkind, happly⟩, hclass⟩ := hs
  refine ⟨⟨hindex, n, Nat.lt_succ_self n, ⟨s, h, hkind, rfl⟩, fun j hnj hj => ?_⟩, ?_⟩
  · dsimp only at hj
    omega
  · have hrun : ((planMigration maintenanceMb emitted).map (Step.run m))[n]? = some (s.run m) := by
      rw [List.getElem?_map, h]
      rfl
    rw [openAt, hrun]
    simp only
    rw [Executor.Step.openAfter, run_apply.2 happly]
    simp [run_needsOwn, TxnClass.apart, hclass]

/-- No run of a clear plan calls the session in the wrong state: whatever the server and the
observer do, and however often a group is run again, what is thrown is none of its state errors. -/
theorem planned_quiet (m : Meaning δ) (env : Env) (cfg : Config) (codec : ArrayText) (fuel : Nat)
    (maintenanceMb : Int) (emitted : List (List Step)) (w : World δ)
    (hm : m.Honest) (henv : env.Honest) (hw : w.txn = none)
    (hclear : (toPlan m (planMigration maintenanceMb emitted)
      (numbered_planMigration maintenanceMb emitted)).Clear)
    (e : Failure) (w' : World δ)
    (hrun : execute env cfg codec fuel (toPlan m (planMigration maintenanceMb emitted)
      (numbered_planMigration maintenanceMb emitted)) w = (.err e, w')) : ¬ e.OfState := by
  have hclosed : HasTxn false w := by rw [HasTxn, hw]; rfl
  have hquiet : (execute env cfg codec fuel _).Wp _ w :=
    execute_quiet henv hclear (toPlan_honest hm _) w hclosed
  rw [Prog.Wp, hrun] at hquiet
  exact hquiet

theorem obeying_honest : obeying.Honest where
  statement _ _ := honest_ok
  copy _ _ := honest_ok
  walk _ :=
    { single := fun _ h => by cases h
      sql := fun _ _ _ => honest_ok
      upperBound := fun _ h => by cases h
      invariants := fun _ h => by cases h
      verifyRemaining := fun _ h => by cases h }

/-- A unique key of the partitioned table. -/
def eventsKey : UniqueIntent where
  primary := false
  qualified := "public.events"
  name := "events_key"
  columns := ["at", "id"]

/-- An index of another table. -/
def ordersIndex : IndexIntent where
  schema := "public"
  table := "orders"
  name := "orders_region_idx"
  columns := ["region"]
  using_ := " USING btree (\"region\")"

/-- The index of another table, and then the unique key. -/
def indexThenKey (key : List Step) : List (List Step) :=
  [[takeWeakerLockFirst ["\"public\".\"orders\""] (planCreateIndex ordersIndex 0 0)],
    key.map (takeWeakerLockFirst ["\"public\".\"events\""])]

/-- A server that obeys takes every statement of such a step. -/
theorem obeying_taken {s : Step} {k : String} {c : TxnClass} (happly : s.action = .apply)
    (hkind : s.kind = k) (hk : k ≠ verifyIndexValid ∧ k ≠ "copy_rows") (hclass : s.txnClass = c)
    (hc : c ≠ .ownTxnPerBatch) : (s.run obeying).Taken where
  apply := run_apply.2 happly
  kind h := hk.1 (hkind ▸ run_isVerify.1 h)
  copy payload h := by
    change s.runKind obeying = _ at h
    unfold Step.runKind at h
    split_ifs at h <;> simp_all
  walk walk h := by
    change s.runClass obeying = _ at h
    unfold Step.runClass at h
    split at h <;> simp_all
  sql st hst d := by
    obtain ⟨text, -, rfl⟩ := List.mem_map.1 hst
    exact ⟨_, rfl⟩

/-- The check of the partitioned key comes in the transaction that attached the last partition,
finds the index of the intent before, and begins another. -/
theorem uniqueKey_begins_twice :
    ∃ steps e, planUniqueOnPartitions eventsKey ["at"] [{ relation := "public.events_2026" }] =
        .ok steps ∧
      (execute {} {} jsonStrings 9 (toPlan obeying (planMigration 0 (indexThenKey steps))
        (numbered_planMigration 0 (indexThenKey steps)))
        { durable := { data := () } }).1 = .err e ∧ e.OfState := by
  have hsteps : eventsKey.stepsOn eventsPart =
    [eventsKey.buildOn eventsPart, eventsKey.adopt eventsPart,
      eventsKey.constraint.attach eventsPart] := rfl
  have hkey : planUniqueOnPartitions eventsKey ["at"] [eventsPart] =
    .ok ([eventsKey.constraint.addOnly] ++ (eventsKey.stepsOn eventsPart ++ []) ++
      [eventsKey.constraint.verify]) := rfl
  refine ⟨_, _, hkey, ?_, show Failure.OfState (.runtime "WriteSession: a transaction is open") by
    decide +kernel⟩
  have hadd : ∀ {s : Step}, s.action = .apply → s.kind = "add_unique_constraint" →
      s.txnClass = .required ∨ s.txnClass = .forbidden → (s.run obeying).Taken := by
    intro s happly hkind hclass
    refine obeying_taken happly hkind (by decide) rfl ?_
    rcases hclass with h | h <;> simp [h]
  have hof := @takeWeakerLockFirst_isOf
  obtain ⟨q₀, l₀, r₀, n₀, h₀⟩ := hof ["\"public\".\"orders\""]
    (s := planCreateIndex ordersIndex 0 0) (t := {
      kind := createIndex, detail := { schema := "public", index := "orders_region_idx" } })
    ⟨_, _, _, _, rfl⟩
  obtain ⟨q₁, l₁, r₁, n₁, h₁⟩ := hof ["\"public\".\"events\""] (s := eventsKey.constraint.addOnly)
    (t := { kind := "add_unique_constraint", txnClass := .required, ownTransaction := true })
    ⟨_, _, _, _, rfl⟩
  obtain ⟨q₂, l₂, r₂, n₂, h₂⟩ := hof ["\"public\".\"events\""] (s := eventsKey.buildOn eventsPart)
    (t := { kind := "add_unique_constraint", txnClass := .forbidden, ownTransaction := true
            detail := { schema := beforeDot eventsPart.relation
                        index := childName eventsPart.relation eventsKey.name } })
    ⟨_, _, _, _, rfl⟩
  obtain ⟨q₃, l₃, r₃, n₃, h₃⟩ := hof ["\"public\".\"events\""] (s := eventsKey.adopt eventsPart)
    (t := { kind := "add_unique_constraint", txnClass := .required, ownTransaction := true })
    ⟨_, _, _, _, rfl⟩
  obtain ⟨q₄, l₄, r₄, n₄, h₄⟩ := hof ["\"public\".\"events\""]
    (s := eventsKey.constraint.attach eventsPart)
    (t := { kind := "add_unique_constraint", txnClass := .required, ownTransaction := true })
    ⟨_, _, _, _, rfl⟩
  obtain ⟨q₅, l₅, r₅, n₅, h₅⟩ := hof ["\"public\".\"events\""] (s := eventsKey.constraint.verify)
    (t := verifyStep "public" "events_key") ⟨_, _, _, _, rfl⟩
  rw [hsteps]
  simp only [indexThenKey, List.map_cons, List.map_nil, List.cons_append, List.nil_append,
    h₀, h₁, h₂, h₃, h₄, h₅]
  refine execute_beginsTwice (n := 5) rfl rfl rfl rfl rfl rfl ?_ ?_ (by decide)
  · intro hno
    exact absurd (hno ("public", "orders_region_idx") rfl) (by decide)
  · intro i hi
    match i with
    | 0 =>
      exact ⟨_, rfl,
        obeying_taken rfl (k := createIndex) rfl (by decide) (c := .optional) rfl nofun⟩
    | 1 => exact ⟨_, rfl, hadd rfl rfl (.inl rfl)⟩
    | 2 => exact ⟨_, rfl, hadd rfl rfl (.inr rfl)⟩
    | 3 => exact ⟨_, rfl, hadd rfl rfl (.inl rfl)⟩
    | 4 => exact ⟨_, rfl, hadd rfl rfl (.inl rfl)⟩

/-- A build that returned and left an index that is not valid: the error is the executor's own. -/
theorem invalidBuild_quiet :
    ∃ e, (execute indexInvalid {} jsonStrings 9 (toPlan obeying
      (planMigration 0 [[planCreateIndex eventsIndex plainCeilingBytes 0]])
      (numbered_planMigration 0 [[planCreateIndex eventsIndex plainCeilingBytes 0]]))
      { durable := { data := () } }).1 = .err e ∧ ¬ e.OfState := by
  refine ⟨.runtime ("index public.events_at_idx is invalid after a concurrent build"),
    by decide +kernel, ?_⟩
  refine planned_quiet obeying indexInvalid {} jsonStrings 9 0
    [[planCreateIndex eventsIndex plainCeilingBytes 0]] { durable := { data := () } }
    obeying_honest (fun n e h => by cases h) rfl ?_ _ _ (Prod.ext (by decide +kernel) rfl)
  intro n step hstep happly hown hkind hopen
  match n with
  | 0 =>
    cases hstep
    cases hown
  | 1 => cases hopen
  | n + 2 => cases hstep

end Planner
end Laswell
