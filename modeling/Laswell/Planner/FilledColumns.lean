import Mathlib.Logic.Function.Basic
import Mathlib.Data.List.Forall2
import Laswell.Base.Resumable
import Laswell.Planner.TempCheck

/-!
# Laswell.Planner.FilledColumns

The recipe of a group of columns with a fill, stopped between its transactions and planned again.
Its parts are taken one at a time: the columns with their trigger, the passes, NOT NULL, and the
trigger dropped.

* `FilledClean`: no temporary check is left that no plan would drop, and there is a walk that comes
  by every row that is to be filled.
* `filledTarget`: what an attempt that is not interrupted ends in.
* `filled_resumes`: from what is left at a clean state, the plan goes through to that.
-/

namespace Laswell
namespace Planner

open Base

/-- A group on one table, whose columns are told apart, have a source each, have a type written the
way the server writes it, and have names the server keeps whole. -/
structure FillGroup (formatType : String → String) (lead : FillColumn) (group : List FillColumn) :
    Prop where
  leads : lead ∈ group
  nodup : (group.map FillColumn.column).Nodup
  table : ∀ g ∈ group, g.table = lead.table
  sources : ∀ g ∈ group, g.sources ≠ []
  filler : tooLong lead.filler = false
  types : ∀ g ∈ group, formatType g.type = g.type

section

variable (oneStep : Option String) (conf : Confinement) (lead : FillColumn) (group : List FillColumn)

/-- The check that the pending columns are scanned under. -/
def unitCheck : List FillColumn → String
  | [g] => g.notNullCheck
  | _ => lead.notNullCheck

/-- The trigger of the recipe calls its function, its columns have their types, and some source has
a value for every row that is NULL in a column. -/
structure FilledReady (s : Catalog) : Prop where
  function : s.trigger lead.filler = true → s.function lead.filler = true
  typed : ∀ g ∈ group, ∀ type b, s.column g.column = .there type b → type = g.type
  notNull : ∀ g ∈ group, (s.column g.column).notNull = true → s.nulls g.column = false
  filled : ∀ g ∈ group, ∀ r ∈ s.rows, r.null g.column = true →
    ∃ n < g.sources.length, r.given g.column n = true

/-- The trigger stays. -/
def staysAfter (s : Catalog) : Bool :=
  !lead.dropAfter && (s.trigger lead.filler || !(pendingOf group s).isEmpty)

/-- The function stays, or is one that no trigger of the recipe calls. -/
def functionAfter (s : Catalog) : Bool :=
  if pendingOf group s = [] ∧ s.trigger lead.filler = false then s.function lead.filler
  else staysAfter lead group s

/-- With a value in every column of the group. -/
def StoredRow.full (r : StoredRow) : StoredRow :=
  r.having fun c => decide (c ∈ group.map FillColumn.column)

def filledTarget (s : Catalog) : Catalog :=
  { s with
    column := columnsWith group true s.column
    rows := s.rows.map (StoredRow.full group)
    check := fun k => if k ∈ group.map FillColumn.notNullCheck then none else s.check k
    trigger := Function.update s.trigger lead.filler (staysAfter lead group s)
    function := Function.update s.function lead.filler (functionAfter lead group s)
    absent_null := fun r hr c h => by
      obtain ⟨x, hx, rfl⟩ := List.mem_map.mp hr
      have hother := columnsWith_absent h
      exact (StoredRow.having_other (decide_eq_false hother.1)).trans
        (s.absent_null x hx c hother.2) }

/-- The walk comes to its end, and by every row that is NULL in a column of the group, where it is
the walk that fills them. -/
def WalkFills (choice : WalkChoice) (s : Catalog) : Prop :=
  lead.paced = true ∨ s.waited = true →
    s.ends choice = true ∧
    ∀ r ∈ s.rows, (∃ g ∈ group, r.null g.column = true) →
      choice.meets r.null r.behindZero = true

/-- A check that is there is the one the next plan goes on with, and no row is outside of it once
the columns are filled; and where columns are to be filled, there is a walk to do it. -/
structure FilledClean (s : Catalog) : Prop where
  short : pendingOf group s ≠ [] → oneStep = none →
    tooLong (unitCheck lead (pendingOf group s)) = false
  resumed : ∀ g ∈ group, ∀ x, s.check g.notNullCheck = some x →
    pendingOf group s ≠ [] ∧ oneStep = none ∧
      g.notNullCheck = unitCheck lead (pendingOf group s) ∧
      (filledTarget lead group s).holds x.expr = true
  walked : pendingOf group s ≠ [] → ∃ key choice, fillKey lead conf s = some key ∧
    whichFillWalk lead conf s key = .ok choice ∧ WalkFills lead group choice s

/-- What holds between the transactions. -/
def FilledInv (τ s : Catalog) : Prop :=
  FilledReady lead group s ∧ filledTarget lead group s = τ

end

section

variable {formatType : String → String} {oneStep : Option String} {conf : Confinement}
  {lead g : FillColumn} {group pending : List FillColumn} {choice : WalkChoice}
  {check : String → Option Check} {plan : Catalog → List Txn} {s s' s₀ τ : Catalog}
  {rows : List StoredRow}

/-! ## Rows that go on -/

theorem nulls_eq_false {c : String} : s.nulls c = false ↔ ∀ r ∈ s.rows, r.null c = false := by
  simp [Catalog.nulls]

theorem StoredRow.Later.full {r r' : StoredRow} (h : r.Later r')
    (hsame : ∀ c, c ∉ group.map FillColumn.column → r'.null c = r.null c) :
    r'.full group = r.full group := by
  obtain ⟨-, hgiven, hzero, hempty⟩ := h
  unfold StoredRow.full StoredRow.having
  rw [StoredRow.mk.injEq]
  refine ⟨funext fun c => ?_, hgiven, hzero, hempty⟩
  by_cases hc : c ∈ group.map FillColumn.column
  · simp [hc]
  · rw [hsame c hc]

theorem later_mem (h : List.Forall₂ StoredRow.Later s.rows rows) :
    (∀ r' ∈ rows, ∃ r ∈ s.rows, r.Later r') ∧ ∀ r ∈ s.rows, ∃ r' ∈ rows, r.Later r' := by
  generalize s.rows = before at h
  induction h with
  | nil => exact ⟨fun r hr => absurd hr List.not_mem_nil, fun r hr => absurd hr List.not_mem_nil⟩
  | cons hab _ ih =>
    refine ⟨fun r' hr' => ?_, fun r hr => ?_⟩
    · rcases List.mem_cons.mp hr' with rfl | hr'
      · exact ⟨_, List.mem_cons_self, hab⟩
      · obtain ⟨r, hr, hlater⟩ := ih.1 r' hr'
        exact ⟨r, List.mem_cons_of_mem _ hr, hlater⟩
    · rcases List.mem_cons.mp hr with rfl | hr
      · exact ⟨_, List.mem_cons_self, hab⟩
      · obtain ⟨r', hr', hlater⟩ := ih.2 r hr
        exact ⟨r', List.mem_cons_of_mem _ hr', hlater⟩

theorem nulls_later (h : List.Forall₂ StoredRow.Later s.rows s'.rows) {c : String}
    (hnulls : s.nulls c = false) : s'.nulls c = false := by
  rw [nulls_eq_false] at hnulls ⊢
  intro r' hr'
  obtain ⟨r, hr, hlater⟩ := (later_mem h).1 r' hr'
  exact Bool.eq_false_iff.mpr fun hnull =>
    Bool.eq_false_iff.mp (hnulls r hr) (hlater.null c hnull)

theorem FilledReady.later (hready : FilledReady lead group s)
    (h : List.Forall₂ StoredRow.Later s.rows s'.rows) (hcolumn : s'.column = s.column)
    (hfunction : s'.trigger lead.filler = true → s'.function lead.filler = true) :
    FilledReady lead group s' := by
  refine ⟨hfunction, fun g hg type b hcol => ?_, fun g hg hnotNull => ?_,
    fun g hg r' hr' hnull => ?_⟩
  · rw [hcolumn] at hcol
    exact hready.typed g hg type b hcol
  · rw [hcolumn] at hnotNull
    exact nulls_later h (hready.notNull g hg hnotNull)
  · obtain ⟨r, hr, hlater⟩ := (later_mem h).1 r' hr'
    obtain ⟨n, hn, hgiven⟩ := hready.filled g hg r hr (hlater.null _ hnull)
    exact ⟨n, hn, by rw [hlater.given]; exact hgiven⟩

theorem meets_later {r r' : StoredRow} (h : r.Later r')
    (hmeets : choice.meets r.null r.behindZero = true) :
    choice.meets r'.null r'.behindZero = true := by
  have hkept : ∀ c, r.null c = false → r'.null c = false := fun c hc =>
    Bool.eq_false_iff.mpr fun hnull => Bool.eq_false_iff.mp hc (h.null c hnull)
  rw [h.behindZero]
  cases choice with
  | ordinary key index =>
    simp only [WalkChoice.meets, Bool.and_eq_true, Bool.not_eq_true'] at hmeets ⊢
    exact ⟨hkept key hmeets.1, hmeets.2⟩
  | composite columns index =>
    simp only [WalkChoice.meets, List.all_eq_true, Bool.not_eq_true'] at hmeets ⊢
    exact fun c hc => hkept c (hmeets c hc)
  | grouped groupColumn key index =>
    simp only [WalkChoice.meets, Bool.and_eq_true, Bool.not_eq_true'] at hmeets ⊢
    exact ⟨hkept groupColumn hmeets.1, hkept key hmeets.2⟩

theorem ends_later (h : List.Forall₂ StoredRow.Later s.rows s'.rows)
    (hzero : s'.readsZero = s.readsZero) (hends : s.ends choice = true) :
    s'.ends choice = true := by
  cases choice with
  | ordinary key index =>
    change s'.readsZero key = true
    rw [hzero]
    exact hends
  | composite columns index => rfl
  | grouped groupColumn key index =>
    simp only [Catalog.ends, Bool.and_eq_true, Bool.not_eq_true', Bool.or_eq_true,
      List.isEmpty_iff, List.any_eq_true, List.any_eq_false] at hends ⊢
    refine ⟨fun r' hr' => ?_, hends.2.imp (fun hnil => ?_) fun hsome => ?_⟩
    · obtain ⟨r, hr, hlater⟩ := (later_mem h).1 r' hr'
      rw [hlater.empty]
      exact hends.1 r hr
    · rw [hnil] at h
      exact List.forall₂_nil_left_iff.mp h
    · obtain ⟨r, hr, hnull⟩ := hsome
      obtain ⟨r', hr', hlater⟩ := (later_mem h).2 r hr
      exact ⟨r', hr', Bool.eq_false_iff.mpr fun hnull' =>
        Bool.eq_false_iff.mp hnull (hlater.null _ hnull')⟩

theorem WalkFills.later (hfills : WalkFills lead group choice s)
    (h : List.Forall₂ StoredRow.Later s.rows s'.rows) (hzero : s'.readsZero = s.readsZero)
    (hwaited : s'.waited = s.waited) : WalkFills lead group choice s' := by
  intro hpaced
  rw [hwaited] at hpaced
  obtain ⟨hends, hmeets⟩ := hfills hpaced
  refine ⟨ends_later h hzero hends, fun r' hr' ⟨g, hg, hnull⟩ => ?_⟩
  obtain ⟨r, hr, hlater⟩ := (later_mem h).1 r' hr'
  exact meets_later hlater (hmeets r hr ⟨g, hg, hlater.null _ hnull⟩)

/-! ## What an attempt ends in -/

/-- What a recipe with a fill leaves alone. -/
structure SameGround (s' s : Catalog) : Prop where
  indexes : s'.indexes = s.indexes
  readsZero : s'.readsZero = s.readsZero
  waited : s'.waited = s.waited
  attached : s'.attached = s.attached
  outside : s'.outside = s.outside

theorem SameGround.refl : SameGround s s := ⟨rfl, rfl, rfl, rfl, rfl⟩

/-- Two states that differ in what the recipe makes come to the same. -/
theorem filledTarget_congr
    (hcolumn : ∀ c, c ∉ group.map FillColumn.column → s'.column c = s.column c)
    (hrows : s'.rows.map (StoredRow.full group) = s.rows.map (StoredRow.full group))
    (hcheck : ∀ k, k ∉ group.map FillColumn.notNullCheck → s'.check k = s.check k)
    (hfiller : ∀ k, k ≠ lead.filler →
      s'.trigger k = s.trigger k ∧ s'.function k = s.function k)
    (hstays : staysAfter lead group s' = staysAfter lead group s)
    (hfunction : functionAfter lead group s' = functionAfter lead group s)
    (hground : SameGround s' s) :
    filledTarget lead group s' = filledTarget lead group s := by
  obtain ⟨hindexes, hzero, hwaited, hattached, houtside⟩ := hground
  unfold filledTarget
  rw [Catalog.mk.injEq]
  refine ⟨?_, hrows, ?_, ?_, ?_, hindexes, hzero, hwaited, hattached, houtside⟩
  · funext c
    unfold columnsWith
    cases hfind : group.find? fun g => decide (g.column = c) with
    | some g => rfl
    | none =>
      refine hcolumn c fun hc => ?_
      obtain ⟨g, hg, rfl⟩ := List.mem_map.mp hc
      have hne := List.find?_eq_none.mp hfind g hg
      simp at hne
  · funext k
    split
    · rfl
    · rename_i hk
      exact hcheck k hk
  · funext k
    by_cases hk : k = lead.filler
    · rw [hk, Function.update_self, Function.update_self, hstays]
    · rw [Function.update_of_ne hk, Function.update_of_ne hk, (hfiller k hk).1]
  · funext k
    by_cases hk : k = lead.filler
    · rw [hk, Function.update_self, Function.update_self, hfunction]
    · rw [Function.update_of_ne hk, Function.update_of_ne hk, (hfiller k hk).2]

theorem rows_full (hnulls : ∀ g ∈ group, s.nulls g.column = false) :
    s.rows.map (StoredRow.full group) = s.rows := by
  refine (List.map_congr_left fun r hr => ?_).trans (List.map_id s.rows)
  change StoredRow.mk _ r.given r.behindZero r.empty = r
  congr 1
  funext c
  by_cases hc : c ∈ group.map FillColumn.column
  · obtain ⟨g, hg, rfl⟩ := List.mem_map.mp hc
    have hnull := nulls_eq_false.mp (hnulls g hg) r hr
    simp [hnull]
  · simp [hc]

/-- Where all is made and no check is left, there is nothing to do. -/
theorem filledTarget_self (hready : FilledReady lead group s) (hpending : pendingOf group s = [])
    (hcheck : ∀ g ∈ group, s.check g.notNullCheck = none)
    (htrigger : s.trigger lead.filler = staysAfter lead group s)
    (hfunction : s.function lead.filler = functionAfter lead group s) :
    filledTarget lead group s = s := by
  have hdone : ∀ g ∈ group, (s.column g.column).notNull = true := by
    intro g hg
    simpa using List.filter_eq_nil_iff.mp hpending g hg
  have hcolumn : columnsWith group true s.column = s.column := by
    funext c
    unfold columnsWith
    cases hfind : group.find? fun g => decide (g.column = c) with
    | none => rfl
    | some g =>
      have hg := List.mem_of_find?_eq_some hfind
      have hc : g.column = c := by simpa using List.find?_some hfind
      have hnotNull := hdone g hg
      rw [← hc]
      cases hcol : s.column g.column with
      | absent =>
        rw [hcol] at hnotNull
        cases hnotNull
      | there type b =>
        rw [hcol] at hnotNull
        cases hnotNull
        rw [hready.typed g hg type true hcol]
  have hrows : s.rows.map (StoredRow.full group) = s.rows :=
    rows_full fun g hg => hready.notNull g hg (hdone g hg)
  have hchecks : (fun k => if k ∈ group.map FillColumn.notNullCheck then none else s.check k) =
      s.check := by
    funext k
    split
    · rename_i hk
      obtain ⟨g, hg, rfl⟩ := List.mem_map.mp hk
      exact (hcheck g hg).symm
    · rfl
  have htriggers : Function.update s.trigger lead.filler (staysAfter lead group s) = s.trigger := by
    rw [← htrigger]
    exact Function.update_eq_self _ _
  have hfunctions : Function.update s.function lead.filler (functionAfter lead group s) =
      s.function := by
    rw [← hfunction]
    exact Function.update_eq_self _ _
  unfold filledTarget
  obtain ⟨column, rows, check, trigger, function⟩ := s
  rw [Catalog.mk.injEq]
  exact ⟨hcolumn, hrows, hchecks, htriggers, hfunctions, rfl, rfl, rfl, rfl, rfl⟩

theorem pendingOf_congr
    (h : ∀ g ∈ group, (s'.column g.column).notNull = (s.column g.column).notNull) :
    pendingOf group s' = pendingOf group s :=
  List.filter_congr fun g hg => by rw [h g hg]

theorem pending_mem (hg : g ∈ pendingOf group s) : g ∈ group := (List.mem_filter.mp hg).1

theorem pending_nullable (hg : g ∈ pendingOf group s) : (s.column g.column).notNull = false := by
  simpa using (List.mem_filter.mp hg).2

theorem pendingOf_eq_nil (h : ∀ g ∈ group, (s.column g.column).notNull = true) :
    pendingOf group s = [] := by
  rw [pendingOf, List.filter_eq_nil_iff]
  intro g hg
  simp [h g hg]

theorem notNull_of_not_pending (hg : g ∈ group) (hpending : g ∉ pendingOf group s) :
    (s.column g.column).notNull = true := by
  have hkept : ¬(!(s.column g.column).notNull) = true := fun h =>
    hpending (List.mem_filter.mpr ⟨hg, h⟩)
  simpa using hkept

theorem functionAfter_pending (h : pendingOf group s ≠ []) :
    functionAfter lead group s = staysAfter lead group s := if_neg fun h' => h h'.1

theorem functionAfter_trigger (h : s.trigger lead.filler = true) :
    functionAfter lead group s = staysAfter lead group s :=
  if_neg fun h' => Bool.false_ne_true (h'.2.symm.trans h)

theorem staysAfter_trigger (h : s.trigger lead.filler = true) :
    staysAfter lead group s = !lead.dropAfter := by
  rw [staysAfter, h]
  simp

theorem filledTarget_holds (hnulls : ∀ g ∈ group, s.nulls g.column = false) (e : CheckExpr) :
    (filledTarget lead group s).holds e = s.holds e := by
  have hsame : (filledTarget lead group s).nulls = s.nulls := by
    funext c
    change (s.rows.map (StoredRow.full group)).any (·.null c) = s.nulls c
    rw [rows_full hnulls]
    rfl
  cases e with
  | notNull columns => rw [Catalog.holds, hsame, Catalog.holds]
  | bound text => rfl

/-! ## The columns and their trigger -/

/-- After the first step, with the checks as they were when the plan was made and the walk that it
has. -/
structure FilledStaged (lead : FillColumn) (group pending : List FillColumn) (choice : WalkChoice)
    (check : String → Option Check) (s : Catalog) : Prop where
  pending : pendingOf group s = pending
  there : ∀ g ∈ group, (s.column g.column).isThere = true
  trigger : s.trigger lead.filler = true
  check : s.check = check
  fills : WalkFills lead group choice s

theorem addColumns_exec {gs : List FillColumn} (hnodup : (gs.map FillColumn.column).Nodup)
    (habsent : ∀ g ∈ gs, (s.column g.column).isThere = false)
    (htypes : ∀ g ∈ gs, formatType g.type = g.type) :
    ∃ column h,
      (gs.flatMap fun g =>
        [Stmt.addColumn g.column g.type, .commentColumn g.column g.comment]).foldlM
          (fun s stmt => stmt.exec formatType s) s =
        some { s with column := column, absent_null := h } ∧
      (∀ g ∈ gs, column g.column = .there g.type false) ∧
      ∀ c, c ∉ gs.map FillColumn.column → column c = s.column c := by
  induction gs generalizing s with
  | nil =>
    exact ⟨s.column, s.absent_null, rfl, fun g hg => absurd hg List.not_mem_nil, fun c _ => rfl⟩
  | cons g gs ih =>
    rw [List.map_cons, List.nodup_cons] at hnodup
    let s₁ : Catalog := s.withColumn g.column g.type
    have hadd : (Stmt.addColumn g.column g.type).exec formatType s = some s₁ := by
      simp [Stmt.exec, habsent g List.mem_cons_self, htypes g List.mem_cons_self, s₁]
    have hcomment : (Stmt.commentColumn g.column g.comment).exec formatType s₁ = some s₁ := by
      simp [Stmt.exec, s₁, Catalog.withColumn, Column.isThere]
    have hother : ∀ c, c ≠ g.column → s₁.column c = s.column c :=
      fun c hc => Function.update_of_ne hc _ _
    obtain ⟨column, h, hexec, hadded, hkept⟩ := @ih s₁ hnodup.2
      (fun x hx => by
        have hne : x.column ≠ g.column := fun heq => hnodup.1 (heq ▸ List.mem_map_of_mem hx)
        rw [hother x.column hne]
        exact habsent x (List.mem_cons_of_mem g hx))
      (fun x hx => htypes x (List.mem_cons_of_mem g hx))
    refine ⟨column, h, ?_, fun x hx => ?_, fun c hc => ?_⟩
    · rw [List.flatMap_cons, List.foldlM_append]
      have hboth : [Stmt.addColumn g.column g.type, .commentColumn g.column g.comment].foldlM
          (fun s stmt => stmt.exec formatType s) s = some s₁ := by
        simp only [List.foldlM_cons, List.foldlM_nil, hadd, hcomment, Option.bind_eq_bind,
          Option.bind_some, Option.pure_def]
      rw [hboth]
      exact hexec
    · rcases List.mem_cons.mp hx with rfl | hx
      · rw [hkept _ hnodup.1]
        exact Function.update_self _ _ _
      · exact hadded x hx
    · rw [List.map_cons, List.mem_cons, not_or] at hc
      rw [hkept c hc.2]
      exact hother c hc.1

theorem addFilled_exec (hgroup : FillGroup formatType lead group) :
    ∃ column h,
      (addFilled lead group s).exec formatType s = some { s with
        column := column
        trigger := Function.update s.trigger lead.filler true
        function := Function.update s.function lead.filler true
        absent_null := h } ∧
      (∀ g ∈ missingOf group s, column g.column = .there g.type false) ∧
      ∀ c, c ∉ (missingOf group s).map FillColumn.column → column c = s.column c := by
  have hsub : (missingOf group s).Sublist group := List.filter_sublist
  have habsent : ∀ g ∈ missingOf group s, (s.column g.column).isThere = false := by
    intro g hg
    simpa using (List.mem_filter.mp hg).2
  obtain ⟨column, h, hexec, hadded, hkept⟩ := @addColumns_exec formatType s (missingOf group s)
    (List.Nodup.sublist (hsub.map _) hgroup.nodup) habsent
    (fun g hg => hgroup.types g (hsub.subset hg))
  refine ⟨column, h, ?_, hadded, hkept⟩
  rw [addFilled, Txn.exec_lockFirst]
  unfold Txn.exec
  rw [List.foldlM_append, List.foldlM_append, hexec]
  cases htrigger : s.trigger lead.filler with
  | true =>
    have hsame : Function.update s.trigger lead.filler true = s.trigger := by
      rw [← htrigger]
      exact Function.update_eq_self _ _
    simp [Stmt.exec, serverName_short hgroup.filler, hsame]
  | false => simp [Stmt.exec, serverName_short hgroup.filler, htrigger]

theorem addFilled_through (hgroup : FillGroup formatType lead group)
    (hinv : FilledInv lead group τ s) (hpending : pendingOf group s ≠ [])
    (hfills : WalkFills lead group choice s) :
    ∃ s', (addFilled lead group s).exec formatType s = some s' ∧ FilledInv lead group τ s' ∧
      FilledStaged lead group (pendingOf group s) choice s.check s' := by
  obtain ⟨column, habsent_null, hexec, hadded, hkept⟩ :=
    @addFilled_exec formatType lead group s hgroup
  let s' : Catalog := { s with
    column := column
    trigger := Function.update s.trigger lead.filler true
    function := Function.update s.function lead.filler true
    absent_null := habsent_null }
  have hcases : ∀ g ∈ group,
      ((s.column g.column).isThere = false ∧ column g.column = .there g.type false) ∨
      ((s.column g.column).isThere = true ∧ column g.column = s.column g.column) := by
    intro g hg
    cases hthere : (s.column g.column).isThere with
    | false => exact .inl ⟨rfl, hadded g (List.mem_filter.mpr ⟨hg, by simp [hthere]⟩)⟩
    | true =>
      refine .inr ⟨rfl, hkept g.column fun hmem => ?_⟩
      obtain ⟨m, hm, heq⟩ := List.mem_map.mp hmem
      have hm' : (s.column m.column).isThere = false := by simpa using (List.mem_filter.mp hm).2
      rw [heq, hthere] at hm'
      cases hm'
  have hsame : pendingOf group s' = pendingOf group s := by
    refine pendingOf_congr fun g hg => ?_
    change (column g.column).notNull = _
    rcases hcases g hg with ⟨habsent, hcol⟩ | ⟨-, hcol⟩
    · rw [hcol]
      cases hc : s.column g.column with
      | absent => rfl
      | there type b =>
        rw [hc] at habsent
        cases habsent
    · rw [hcol]
  have hpending' : pendingOf group s' ≠ [] := by
    rw [hsame]
    exact hpending
  have hstays : staysAfter lead group s' = staysAfter lead group s := by
    have hsome : (pendingOf group s).isEmpty = false := by simpa using hpending
    unfold staysAfter
    rw [hsame, hsome]
    simp
  refine ⟨s', hexec, ⟨⟨?_, fun g hg type b hcol => ?_, fun g hg hnotNull => ?_, hinv.1.filled⟩, ?_⟩,
    ⟨hsame, fun g hg => ?_, Function.update_self _ _ _, rfl, hfills⟩⟩
  · exact fun _ => Function.update_self lead.filler true s.function
  · change column g.column = _ at hcol
    rcases hcases g hg with ⟨-, hadd⟩ | ⟨-, hold⟩
    · rw [hadd] at hcol
      cases hcol
      rfl
    · rw [hold] at hcol
      exact hinv.1.typed g hg type b hcol
  · change (column g.column).notNull = true at hnotNull
    rcases hcases g hg with ⟨-, hadd⟩ | ⟨-, hold⟩
    · rw [hadd] at hnotNull
      cases hnotNull
    · rw [hold] at hnotNull
      exact hinv.1.notNull g hg hnotNull
  · rw [← hinv.2]
    refine filledTarget_congr (fun c hc => hkept c fun hmem => hc ?_) rfl (fun k _ => rfl)
      (fun k hk => ⟨Function.update_of_ne hk _ _, Function.update_of_ne hk _ _⟩) hstays ?_
      ⟨rfl, rfl, rfl, rfl, rfl⟩
    · obtain ⟨m, hm, rfl⟩ := List.mem_map.mp hmem
      exact List.mem_map_of_mem (List.mem_filter.mp hm).1
    · rw [functionAfter_pending hpending, functionAfter_pending hpending']
      exact hstays
  · change (column g.column).isThere = true
    rcases hcases g hg with ⟨-, hadd⟩ | ⟨hthere, hold⟩
    · rw [hadd]
      rfl
    · rw [hold]
      exact hthere

/-! ## The passes -/

/-- No row that is still NULL in the column has a value from its source of this place. -/
def Spent (c : String) (n : Nat) (s : Catalog) : Prop :=
  ∀ r ∈ s.rows, r.null c = true → r.given c n = false

theorem Spent.later {c : String} {n : Nat} (hspent : Spent c n s)
    (h : List.Forall₂ StoredRow.Later s.rows s'.rows) : Spent c n s' := by
  intro r' hr' hnull
  obtain ⟨r, hr, hlater⟩ := (later_mem h).1 r' hr'
  rw [hlater.given]
  exact hspent r hr (hlater.null c hnull)

/-- A row that the walk comes by is not left NULL where the source of the pass has a value. -/
theorem visit_spent {w : FillWalk} {r : StoredRow} (hg : g ∈ w.pass.columns)
    (hmeets : r.null g.column = true → w.meets s r = true)
    (hnull : (w.visit s r).null g.column = true) : r.given g.column w.pass.round = false := by
  have hbefore : r.null g.column = true := FillWalk.visit_later.null _ hnull
  by_contra hgiven
  rw [Bool.not_eq_false] at hgiven
  have htaken : r.taken w.pass = true := List.any_eq_true.mpr ⟨g, hg, by simp [hbefore, hgiven]⟩
  have hset : (r.setBy w.pass).null g.column = true := by
    have hwritten : w.visit s r = if s.trigger (serverName w.filler) then
        (r.setBy w.pass).filledBy w.group else r.setBy w.pass :=
      if_pos (by rw [hmeets hbefore, htaken]; rfl)
    rw [hwritten] at hnull
    split at hnull
    · exact ((r.setBy w.pass).having_later _).null _ hnull
    · exact hnull
  have hgets : (w.pass.columns.any fun x =>
      decide (x.column = g.column) && r.given g.column w.pass.round) = true :=
    List.any_eq_true.mpr ⟨g, hg, by simp [hgiven]⟩
  have hgone : (!w.pass.columns.any fun x =>
      decide (x.column = g.column) && r.given g.column w.pass.round) = true :=
    (Bool.and_eq_true_iff.mp hset).2
  rw [hgets] at hgone
  cases hgone

theorem rows_later (w : FillWalk) : List.Forall₂ StoredRow.Later s.rows (s.rows.map (w.visit s)) :=
  List.forall₂_map_right_iff.mpr (List.forall₂_same.mpr fun _ _ => FillWalk.visit_later)

theorem walk_exec {w : FillWalk} (h : (Stmt.walk w).exec formatType s = some s') :
    s'.rows = s.rows.map (w.visit s) := by
  change (if h : w.Fits s ∧ (w.inOne s || s.ends w.choice) = true then
    some (s.withRows (s.rows.map (w.visit s)) h.1.visited) else none) = some s' at h
  split at h
  · cases h
    rfl
  · cases h

theorem walk_through {p : Pass} (hp : ∀ g ∈ p.columns, g ∈ group) (hinv : FilledInv lead group τ s)
    (hstaged : FilledStaged lead group pending choice check s) :
    ∃ s', (walkTxn lead group choice p).exec formatType s = some s' ∧ FilledInv lead group τ s' ∧
      FilledStaged lead group pending choice check s' ∧
      List.Forall₂ StoredRow.Later s.rows s'.rows ∧
      ∀ g ∈ p.columns, Spent g.column p.round s' := by
  let w := fillWalk lead group choice p
  have hcolumns : ∀ g ∈ w.pass.columns ++ w.group, g ∈ group := by
    intro g hg
    exact (List.mem_append.mp hg).elim (hp g) id
  have hfits : w.Fits s := fun g hg => hstaged.there g (hcolumns g hg)
  let s' : Catalog := s.withRows (s.rows.map (w.visit s)) hfits.visited
  have hlater : List.Forall₂ StoredRow.Later s.rows s'.rows := rows_later w
  have hpaced : w.inOne s = false → lead.paced = true ∨ s.waited = true := by
    intro hone
    have hone' : (!lead.paced && !s.waited) = false := hone
    cases hpaced : lead.paced with
    | true => exact .inl rfl
    | false =>
      rw [hpaced] at hone'
      exact .inr (by simpa using hone')
  have hends : (w.inOne s || s.ends w.choice) = true := by
    cases hone : w.inOne s with
    | true => rfl
    | false => exact (hstaged.fills (hpaced hone)).1
  have hmeets : ∀ r ∈ s.rows, ∀ g ∈ group, r.null g.column = true → w.meets s r = true := by
    intro r hr g hg hnull
    unfold FillWalk.meets
    cases hone : w.inOne s with
    | true => rfl
    | false => exact (hstaged.fills (hpaced hone)).2 r hr ⟨g, hg, hnull⟩
  refine ⟨s', ?_, ⟨hinv.1.later hlater rfl hinv.1.function, ?_⟩,
    ⟨hstaged.pending, hstaged.there, hstaged.trigger, hstaged.check,
      hstaged.fills.later hlater rfl rfl⟩, hlater, fun g hg r' hr' hnull => ?_⟩
  · rw [walkTxn, Txn.exec_one]
    exact dif_pos ⟨hfits, hends⟩
  · rw [← hinv.2]
    refine filledTarget_congr (fun _ _ => rfl) ?_ (fun _ _ => rfl) (fun _ _ => ⟨rfl, rfl⟩) rfl rfl
      ⟨rfl, rfl, rfl, rfl, rfl⟩
    change (s.rows.map (w.visit s)).map _ = _
    rw [List.map_map]
    refine List.map_congr_left fun r _ => FillWalk.visit_later.full fun c hc => ?_
    refine FillWalk.visit_other fun g hg heq => hc ?_
    rw [← heq]
    exact List.mem_map_of_mem (hcolumns g hg)
  · obtain ⟨r, hr, rfl⟩ := List.mem_map.mp hr'
    rw [FillWalk.visit_later.given]
    exact visit_spent hg (hmeets r hr g (hp g hg)) hnull

theorem walks_through {ps : List Pass} (hps : ∀ p ∈ ps, ∀ g ∈ p.columns, g ∈ group)
    (hinv : FilledInv lead group τ s)
    (hstaged : FilledStaged lead group pending choice check s) :
    (txnJob formatType plan).Through (FilledInv lead group τ) (ps.map (walkTxn lead group choice))
      (fun s' => FilledStaged lead group pending choice check s' ∧
        (∀ c n, Spent c n s → Spent c n s') ∧
        ∀ p ∈ ps, ∀ g ∈ p.columns, Spent g.column p.round s') s := by
  induction ps generalizing s with
  | nil => exact ⟨hinv, hstaged, fun _ _ h => h, fun p hp => absurd hp List.not_mem_nil⟩
  | cons p ps ih =>
    obtain ⟨s', hexec, hinv', hstaged', hlater, hspent⟩ :=
      @walk_through formatType lead group pending choice check s τ p (hps p List.mem_cons_self) hinv
        hstaged
    refine ⟨hinv, s', hexec, ?_⟩
    refine (ih (fun q hq => hps q (List.mem_cons_of_mem p hq)) hinv' hstaged').mono ?_
    rintro s'' - ⟨hstaged'', hkept, hspent'⟩
    refine ⟨hstaged'', fun c n hc => hkept c n (hc.later hlater), fun q hq g hg => ?_⟩
    rcases List.mem_cons.mp hq with rfl | hq
    · exact hkept _ _ (hspent g hg)
    · exact hspent' q hq g hg

/-- Every source of a pending column has its pass. -/
theorem passes_all {n : Nat} (hn : n < g.sources.length) (hg : g ∈ pending) :
    ∃ p ∈ passes pending, p.round = n ∧ g ∈ p.columns := by
  have hrounds : n < rounds pending := Nat.lt_of_lt_of_le hn (length_le_rounds hg)
  have hsome : (g.sources[n]?).isSome = true := by simpa using hn
  obtain ⟨p, hp, hgp⟩ := (@passesOf_columns pending n).2 g hg hsome
  exact ⟨p, mem_passes.mpr ⟨n, hrounds, hp⟩, (mem_passesOf hp).1, hgp⟩

theorem passes_through (hinv : FilledInv lead group τ s)
    (hstaged : FilledStaged lead group pending choice check s) :
    (txnJob formatType plan).Through (FilledInv lead group τ)
      ((passes pending).map (walkTxn lead group choice))
      (fun s' => FilledStaged lead group pending choice check s' ∧
        ∀ g ∈ group, s'.nulls g.column = false) s := by
  have hsub : ∀ g ∈ pending, g ∈ group := by
    intro g hg
    rw [← hstaged.pending] at hg
    exact pending_mem hg
  refine (walks_through (fun p hp g hg => ?_) hinv hstaged).mono ?_
  · obtain ⟨round, -, hp'⟩ := mem_passes.mp hp
    exact hsub g ((@passesOf_columns pending round).1 p hp' g hg)
  · rintro s' hinv' ⟨hstaged', -, hspent⟩
    refine ⟨hstaged', fun g hg => ?_⟩
    by_cases hmem : g ∈ pending
    · refine nulls_eq_false.mpr fun r hr => ?_
      by_contra hnull
      rw [Bool.not_eq_false] at hnull
      obtain ⟨n, hn, hgiven⟩ := hinv'.1.filled g hg r hr hnull
      obtain ⟨p, hp, rfl, hgp⟩ := passes_all hn hmem
      rw [hspent p hp g hgp r hr hnull] at hgiven
      cases hgiven
    · rw [← hstaged'.pending] at hmem
      exact hinv'.1.notNull g hg (notNull_of_not_pending hg hmem)

/-! ## NOT NULL -/

/-- Before the trigger is dropped. -/
structure FilledSealed (lead : FillColumn) (group : List FillColumn) (s : Catalog) : Prop where
  pending : pendingOf group s = []
  trigger : s.trigger lead.filler = true
  check : ∀ g ∈ group, s.check g.notNullCheck = none

theorem withCheck_inv {k : String} (x : Option Check) (hk : k ∈ group.map FillColumn.notNullCheck)
    (hinv : FilledInv lead group τ s) : FilledInv lead group τ (s.withCheck k x) := by
  refine ⟨⟨hinv.1.function, hinv.1.typed, hinv.1.notNull, hinv.1.filled⟩, ?_⟩
  rw [← hinv.2]
  refine filledTarget_congr (fun _ _ => rfl) rfl (fun j hj => ?_) (fun _ _ => ⟨rfl, rfl⟩) rfl
    rfl ⟨rfl, rfl, rfl, rfl, rfl⟩
  exact s.withCheck_other x fun heq => hj (heq ▸ hk)

theorem withNotNull_inv {columns : List String}
    (hcolumns : ∀ c ∈ columns, c ∈ group.map FillColumn.column) (hinv : FilledInv lead group τ s)
    (htrigger : s.trigger lead.filler = true) (hnulls : ∀ g ∈ group, s.nulls g.column = false) :
    FilledInv lead group τ (s.withNotNull columns) := by
  refine ⟨⟨hinv.1.function, fun g hg type b hcol => ?_, fun g hg _ => hnulls g hg,
    hinv.1.filled⟩, ?_⟩
  · change (if g.column ∈ columns then (s.column g.column).setNotNull else s.column g.column) = _
      at hcol
    cases hc : s.column g.column with
    | absent =>
      rw [hc] at hcol
      split at hcol <;> cases hcol
    | there type' b' =>
      rw [← hinv.1.typed g hg type' b' hc]
      rw [hc] at hcol
      split at hcol
      · cases hcol
        rfl
      · cases hcol
        rfl
  · rw [← hinv.2]
    have hstays : staysAfter lead group (s.withNotNull columns) = staysAfter lead group s := by
      rw [staysAfter_trigger htrigger]
      exact staysAfter_trigger htrigger
    refine filledTarget_congr (fun c hc => if_neg fun hmem => hc (hcolumns c hmem)) rfl
      (fun _ _ => rfl) (fun _ _ => ⟨rfl, rfl⟩) hstays ?_ ⟨rfl, rfl, rfl, rfl, rfl⟩
    rw [functionAfter_trigger htrigger, ← hstays]
    exact functionAfter_trigger htrigger

theorem withNotNull_notNull {columns : List String} (hthere : (s.column g.column).isThere = true)
    (h : g.column ∈ columns ∨ (s.column g.column).notNull = true) :
    ((s.withNotNull columns).column g.column).notNull = true := by
  change (if g.column ∈ columns then (s.column g.column).setNotNull else s.column g.column).notNull
    = true
  split
  · rw [Column.notNull_setNotNull]
    exact hthere
  · rename_i hnot
    exact h.resolve_left hnot

theorem unitCheck_mem (hlead : lead ∈ group) {pending : List FillColumn}
    (hsub : ∀ g ∈ pending, g ∈ group) :
    unitCheck lead pending ∈ group.map FillColumn.notNullCheck := by
  unfold unitCheck
  split
  · exact List.mem_map_of_mem (hsub _ (List.mem_singleton_self _))
  · exact List.mem_map_of_mem hlead

/-- The scan under one check, from wherever an earlier attempt stopped. -/
theorem scan_through (hgroup : FillGroup formatType lead group)
    (hclean : FilledClean none conf lead group s₀) (hpending : pendingOf group s₀ ≠ [])
    (htarget : filledTarget lead group s₀ = τ) (hinv : FilledInv lead group τ s)
    (hstaged : FilledStaged lead group (pendingOf group s₀) choice s₀.check s)
    (hnulls : ∀ g ∈ group, s.nulls g.column = false) :
    (txnJob formatType plan).Through (FilledInv lead group τ)
      (throughCheck (s₀.check (unitCheck lead (pendingOf group s₀)))
        (SetNotNull.make (.addCheck (unitCheck lead (pendingOf group s₀))
          (.notNull ((pendingOf group s₀).map FillColumn.column))) addLock).lockFirst
        (SetNotNull.make (.validate (unitCheck lead (pendingOf group s₀))) validateLock)
        (SetNotNull.make (.setNotNull ((pendingOf group s₀).map FillColumn.column))
          noScanLock).lockFirst
        (SetNotNull.make (.dropConstraint (unitCheck lead (pendingOf group s₀)))
          briefLock).lockFirst false)
      (FilledSealed lead group) s := by
  let columns := (pendingOf group s₀).map FillColumn.column
  let k := unitCheck lead (pendingOf group s₀)
  have hk : k ∈ group.map FillColumn.notNullCheck :=
    unitCheck_mem hgroup.leads fun g hg => pending_mem hg
  have hcolumns : ∀ c ∈ columns, c ∈ group.map FillColumn.column := by
    intro c hc
    obtain ⟨g, hg, rfl⟩ := List.mem_map.mp hc
    exact List.mem_map_of_mem (pending_mem hg)
  have hready : ∀ c ∈ columns, (s.column c).isThere = true ∧ s.nulls c = false := by
    intro c hc
    obtain ⟨g, hg, rfl⟩ := List.mem_map.mp (hcolumns c hc)
    exact ⟨hstaged.there g hg, hnulls g hg⟩
  -- what is there under the name, or what is added
  let e := ((s.check k).map Check.expr).getD (.notNull columns)
  have hown : ∀ x, s.check k = some x → x.expr = e := by
    intro x hx
    change _ = ((s.check k).map Check.expr).getD _
    rw [hx]
    rfl
  have hadd : s.check k = none → ∀ s, (SetNotNull.make (.addCheck k (.notNull columns))
      addLock).lockFirst.exec formatType s = (Stmt.addCheck k e).exec formatType s := by
    intro hnone s'
    have he : e = .notNull columns := by
      change ((s.check k).map Check.expr).getD _ = _
      rw [hnone]
      rfl
    rw [he]
    exact make_exec _ addLock s'
  have hholds : s.holds e = true := by
    cases hc : s.check k with
    | none =>
      change s.holds (((s.check k).map Check.expr).getD _) = true
      rw [hc]
      change columns.all (fun c => !s.nulls c) = true
      rw [List.all_eq_true]
      intro c hc
      simp [(hready c hc).2]
    | some x =>
      rw [← hown x hc]
      obtain ⟨g, hg, heq⟩ := List.mem_map.mp hk
      rw [hstaged.check, ← heq] at hc
      have hrows := (hclean.resumed g hg x hc).2.2.2
      rw [htarget, ← hinv.2, filledTarget_holds hnulls] at hrows
      exact hrows
  have hsealed : ∀ x, FilledInv lead group τ ((s.withCheck k x).withNotNull columns) := fun x =>
    withNotNull_inv hcolumns (withCheck_inv x hk hinv) hstaged.trigger hnulls
  rw [← hstaged.check]
  refine through_check hadd (fun s => make_exec _ validateLock s)
    (fun s => make_exec _ briefLock s) (hclean.short hpending rfl) hown hholds hinv
    (fun valid => withCheck_inv _ hk hinv)
    ((make_exec _ noScanLock _).trans (setNotNull_exec hready)) ?_ (hsealed _)
    ⟨withCheck_inv none hk (hsealed _), ?_, hstaged.trigger, fun g hg => ?_⟩
  · change ((s.withCheck k _).check k).isSome = true
    rw [Catalog.withCheck_same]
    rfl
  · refine pendingOf_eq_nil fun g hg => withNotNull_notNull (hstaged.there g hg) ?_
    by_cases hmem : g ∈ pendingOf group s₀
    · exact .inl (List.mem_map_of_mem hmem)
    · rw [← hstaged.pending] at hmem
      exact .inr (notNull_of_not_pending hg hmem)
  · change (((s.withCheck k _).withNotNull columns).withCheck k none).check g.notNullCheck = none
    by_cases heq : g.notNullCheck = k
    · rw [heq, Catalog.withCheck_same]
    · rw [Catalog.withCheck_other _ _ heq]
      change (s.withCheck k _).check g.notNullCheck = none
      rw [Catalog.withCheck_other _ _ heq, hstaged.check, Option.eq_none_iff_forall_not_mem]
      exact fun x hx => heq (hclean.resumed g hg x hx).2.2.1

/-- One statement for each column, each with a scan of its own. -/
theorem each_through {scope : String} {gs : List FillColumn} (hgs : ∀ g ∈ gs, g ∈ group)
    (hinv : FilledInv lead group τ s) (hthere : ∀ g ∈ group, (s.column g.column).isThere = true)
    (htrigger : s.trigger lead.filler = true) (hnulls : ∀ g ∈ group, s.nulls g.column = false)
    (hnone : ∀ g ∈ group, s.check g.notNullCheck = none)
    (hrest : ∀ g ∈ group, g ∈ gs ∨ (s.column g.column).notNull = true) :
    (txnJob formatType plan).Through (FilledInv lead group τ)
      (gs.map fun g => SetNotNull.make (.setNotNull [g.column]) (scanLock scope))
      (FilledSealed lead group) s := by
  induction gs generalizing s with
  | nil =>
    exact ⟨hinv, pendingOf_eq_nil fun g hg => (hrest g hg).resolve_left List.not_mem_nil, htrigger,
      hnone⟩
  | cons x xs ih =>
    have hx := hgs x List.mem_cons_self
    have hone : ∀ c ∈ [x.column], c ∈ group.map FillColumn.column := by
      intro c hc
      rw [List.mem_singleton.mp hc]
      exact List.mem_map_of_mem hx
    refine ⟨hinv, s.withNotNull [x.column],
      (make_exec _ (scanLock scope) s).trans (setNotNull_exec fun c hc => ?_),
      ih (fun g hg => hgs g (List.mem_cons_of_mem x hg))
        (withNotNull_inv hone hinv htrigger hnulls) (fun g hg => ?_) htrigger hnulls hnone
        fun g hg => ?_⟩
    · rw [List.mem_singleton.mp hc]
      exact ⟨hthere x hx, hnulls x hx⟩
    · change (if g.column ∈ [x.column] then (s.column g.column).setNotNull
        else s.column g.column).isThere = true
      split
      · rw [Column.isThere_setNotNull]
        exact hthere g hg
      · exact hthere g hg
    · rcases hrest g hg with hmem | hnotNull
      · rcases List.mem_cons.mp hmem with rfl | hmem
        · exact .inr (withNotNull_notNull (hthere g hg) (.inl (List.mem_singleton_self _)))
        · exact .inl hmem
      · exact .inr (withNotNull_notNull (hthere g hg) (.inr hnotNull))

/-- What the columns are for the recipes composed after the first step. -/
theorem afterAdding_column (hg : g ∈ pendingOf group s) :
    ∃ type, (afterAdding lead group s).column g.column = .there type false := by
  change ∃ type, columnsWith (missingOf group s) false s.column g.column = .there type false
  unfold columnsWith
  cases hfind : (missingOf group s).find? fun x => decide (x.column = g.column) with
  | some x => exact ⟨x.type, rfl⟩
  | none =>
    have hnullable := pending_nullable hg
    cases hcol : s.column g.column with
    | absent =>
      have hmissing : g ∈ missingOf group s :=
        List.mem_filter.mpr ⟨pending_mem hg, by simp [hcol, Column.isThere]⟩
      have hne := List.find?_eq_none.mp hfind g hmissing
      simp at hne
    | there type b =>
      rw [hcol] at hnullable
      cases hnullable
      exact ⟨type, rfl⟩

theorem mapM_ok {ε α β : Type} {f : α → Except ε β} {h : α → β} {xs : List α}
    (hf : ∀ x ∈ xs, f x = .ok (h x)) : xs.mapM f = .ok (xs.map h) := by
  induction xs with
  | nil => rfl
  | cons x xs ih =>
    rw [List.mapM_cons, hf x List.mem_cons_self, ih fun y hy => hf y (List.mem_cons_of_mem x hy)]
    rfl

theorem setAllNotNull_through (hgroup : FillGroup formatType lead group)
    (hclean : FilledClean oneStep conf lead group s₀) (htarget : filledTarget lead group s₀ = τ)
    (hpending : pendingOf group s₀ ≠ []) :
    ∃ last, setAllNotNull lead group oneStep (pendingOf group s₀) s₀ = .ok last ∧
      ∀ s, FilledInv lead group τ s →
        FilledStaged lead group (pendingOf group s₀) choice s₀.check s →
        (∀ g ∈ group, s.nulls g.column = false) →
        (txnJob formatType plan).Through (FilledInv lead group τ) last
          (FilledSealed lead group) s := by
  cases hone : oneStep with
  | none =>
    rw [hone] at hclean
    by_cases hmany : 1 < (pendingOf group s₀).length
    · have hunit : unitCheck lead (pendingOf group s₀) = lead.notNullCheck := by
        unfold unitCheck
        split
        · rename_i hsingle
          rw [hsingle] at hmany
          simp at hmany
        · rfl
      refine ⟨oneScan lead (pendingOf group s₀) s₀, if_pos ⟨hmany, rfl⟩, fun s hinv hst hn => ?_⟩
      have hscan := @scan_through formatType conf lead group choice plan s s₀ τ hgroup hclean
        hpending htarget hinv hst hn
      rw [hunit] at hscan
      exact hscan
    · obtain ⟨g, hsingle⟩ : ∃ g, pendingOf group s₀ = [g] := by
        rcases hp : pendingOf group s₀ with _ | ⟨g, _ | ⟨g', more⟩⟩
        · exact absurd hp hpending
        · exact ⟨g, rfl⟩
        · rw [hp] at hmany
          simp at hmany
      have hg : g ∈ pendingOf group s₀ := by
        rw [hsingle]
        exact List.mem_singleton_self g
      have hcheck : lead.table ++ "_" ++ g.column ++ "_laswell_nn" = g.notNullCheck := by
        rw [FillColumn.notNullCheck, hgroup.table g (pending_mem hg)]
      obtain ⟨type, htype⟩ := @afterAdding_column lead g group s₀ hg
      have hscan := fun s hinv hst hn =>
        @scan_through formatType conf lead group choice plan s s₀ τ hgroup hclean hpending htarget
          hinv hst hn
      refine ⟨_, ?_, hscan⟩
      have hnot : ¬(1 < (pendingOf group s₀).length ∧ (none : Option String) = none) :=
        fun h => hmany h.1
      unfold setAllNotNull
      rw [if_neg hnot, hsingle, List.mapM_cons, List.mapM_nil]
      unfold planSetNotNull
      rw [htype]
      unfold SetNotNull.check
      rw [hcheck]
      simp [unitCheck, throughCheck, afterAdding, Except.map]
      rfl
  | some scope =>
    rw [hone] at hclean
    have hnone : ∀ g ∈ group, s₀.check g.notNullCheck = none := by
      intro g hg
      rw [Option.eq_none_iff_forall_not_mem]
      intro x hx
      cases (hclean.resumed g hg x hx).2.1
    refine ⟨(pendingOf group s₀).map fun g =>
      SetNotNull.make (.setNotNull [g.column]) (scanLock scope), ?_,
      fun s hinv hst hn => each_through (fun g hg => pending_mem hg) hinv hst.there hst.trigger hn
        (fun g hg => by rw [hst.check]; exact hnone g hg) fun g hg => ?_⟩
    · have hnot : ¬(1 < (pendingOf group s₀).length ∧ some scope = none) := fun h => by cases h.2
      unfold setAllNotNull
      rw [if_neg hnot, mapM_ok (h := fun g =>
        [SetNotNull.make (.setNotNull [g.column]) (scanLock scope)]) fun g hg => ?_]
      · rw [Except.map, ← List.flatMap_def, ← List.map_eq_flatMap]
      · obtain ⟨type, htype⟩ := @afterAdding_column lead g group s₀ hg
        unfold planSetNotNull
        rw [htype]
    · by_cases hmem : g ∈ pendingOf group s₀
      · exact .inl hmem
      · rw [← hst.pending] at hmem
        exact .inr (notNull_of_not_pending hg hmem)

/-! ## The whole recipe -/

theorem dropFiller_exec (hgroup : FillGroup formatType lead group)
    (hinv : FilledInv lead group τ s) (htrigger : s.trigger lead.filler = true) :
    (dropFiller lead).exec formatType s = some { s with
      trigger := Function.update s.trigger lead.filler false
      function := Function.update s.function lead.filler false } := by
  have hfunction : s.function lead.filler = true := hinv.1.function htrigger
  rw [dropFiller, Txn.exec_lockFirst]
  simp [Txn.exec, Stmt.exec, serverName_short hgroup.filler, htrigger, hfunction]

/-- Dropped or kept, nothing is left to do. -/
theorem dropFiller_through (hgroup : FillGroup formatType lead group)
    (hinv : FilledInv lead group τ s) (hsealed : FilledSealed lead group s) :
    (txnJob formatType plan).Through (FilledInv lead group τ)
      (if lead.dropAfter then [dropFiller lead] else []) (· = τ) s := by
  cases hafter : lead.dropAfter with
  | false =>
    refine ⟨hinv, ?_⟩
    rw [← hinv.2]
    have hstays : true = staysAfter lead group s := by
      rw [staysAfter_trigger hsealed.trigger, hafter]
      rfl
    refine (filledTarget_self hinv.1 hsealed.pending hsealed.check ?_ ?_).symm
    · rw [hsealed.trigger]
      exact hstays
    · rw [hinv.1.function hsealed.trigger, functionAfter_trigger hsealed.trigger]
      exact hstays
  | true =>
    let s' : Catalog := { s with
      trigger := Function.update s.trigger lead.filler false
      function := Function.update s.function lead.filler false }
    have hgone : s'.trigger lead.filler = false := Function.update_self _ _ _
    have hstays : ∀ s : Catalog, staysAfter lead group s = false := by
      intro s
      rw [staysAfter, hafter]
      rfl
    have hfunction : functionAfter lead group s' = false := by
      rw [functionAfter, if_pos ⟨hsealed.pending, hgone⟩]
      exact Function.update_self _ _ _
    have hfunction' : functionAfter lead group s = false :=
      (functionAfter_trigger hsealed.trigger).trans (hstays s)
    have htarget : filledTarget lead group s' = filledTarget lead group s :=
      filledTarget_congr (fun _ _ => rfl) rfl (fun _ _ => rfl)
        (fun k hk => ⟨Function.update_of_ne hk _ _, Function.update_of_ne hk _ _⟩)
        ((hstays s').trans (hstays s).symm) (hfunction.trans hfunction'.symm)
        ⟨rfl, rfl, rfl, rfl, rfl⟩
    have hready : FilledReady lead group s' :=
      ⟨fun h => absurd (hgone.symm.trans h) Bool.false_ne_true, hinv.1.typed, hinv.1.notNull,
        hinv.1.filled⟩
    refine ⟨hinv, s', dropFiller_exec hgroup hinv hsealed.trigger,
      ⟨hready, htarget.trans hinv.2⟩, ?_⟩
    rw [← hinv.2, ← htarget]
    exact (filledTarget_self hready hsealed.pending hsealed.check (hgone.trans (hstays s').symm)
      ((Function.update_self _ _ _).trans hfunction.symm)).symm

theorem otherType_none (hready : FilledReady lead group s) : otherType lead group s = none := by
  rw [otherType, List.findSome?_eq_none_iff]
  intro g hg
  cases hcol : s.column g.column with
  | absent => rfl
  | there type b =>
    have htype := hready.typed g hg type b hcol
    simp [htype]

/-- The plan made at a clean state goes through. -/
theorem filled_through (hgroup : FillGroup formatType lead group)
    (hinv : FilledInv lead group τ s) (hclean : FilledClean oneStep conf lead group s) :
    ∃ txns, planAddColumnsFilled lead group oneStep conf s = .ok txns ∧
      (txnJob formatType plan).Through (FilledInv lead group τ) txns (· = τ) s := by
  unfold planAddColumnsFilled
  rw [otherType_none hinv.1]
  by_cases hpending : pendingOf group s = []
  · have hchecks : ∀ g ∈ group, s.check g.notNullCheck = none := by
      intro g hg
      rw [Option.eq_none_iff_forall_not_mem]
      intro x hx
      exact (hclean.resumed g hg x hx).1 hpending
    have hstays : staysAfter lead group s = (!lead.dropAfter && s.trigger lead.filler) := by
      rw [staysAfter, hpending]
      simp
    refine ⟨_, if_pos hpending, ?_⟩
    cases htrigger : s.trigger lead.filler with
    | true =>
      rw [Bool.and_true]
      exact dropFiller_through hgroup hinv ⟨hpending, htrigger, hchecks⟩
    | false =>
      rw [Bool.and_false]
      refine ⟨hinv, ?_⟩
      rw [← hinv.2]
      refine (filledTarget_self hinv.1 hpending hchecks ?_ ?_).symm
      · rw [hstays, htrigger, Bool.and_false]
      · rw [functionAfter, if_pos ⟨hpending, htrigger⟩]
  · obtain ⟨key, choice, hkey, hchoice, hfills⟩ := hclean.walked hpending
    obtain ⟨last, hlast, hthrough⟩ := @setAllNotNull_through formatType oneStep conf lead group
      choice plan s τ hgroup hclean hinv.2 hpending
    have hwalks : ((passes (pendingOf group s)).mapM fun p =>
        (whichFillWalk lead conf s key).map fun choice => walkTxn lead group choice p) =
        .ok ((passes (pendingOf group s)).map (walkTxn lead group choice)) :=
      mapM_ok fun p _ => by rw [hchoice]; rfl
    refine ⟨(if missingOf group s = [] ∧ s.trigger lead.filler = true then []
        else [addFilled lead group s]) ++
      (passes (pendingOf group s)).map (walkTxn lead group choice) ++ last ++
      (if lead.dropAfter then [dropFiller lead] else []), ?_, ?_⟩
    · rw [if_neg hpending, hkey]
      simp only [hwalks, hlast]
      rfl
    have hfirst : (txnJob formatType plan).Through (FilledInv lead group τ)
        (if missingOf group s = [] ∧ s.trigger lead.filler = true then []
          else [addFilled lead group s])
        (FilledStaged lead group (pendingOf group s) choice s.check) s := by
      split
      · rename_i hthere
        refine ⟨hinv, rfl, fun g hg => ?_, hthere.2, rfl, hfills⟩
        simpa using List.filter_eq_nil_iff.mp hthere.1 g hg
      · obtain ⟨s', hexec, hinv', hstaged⟩ := addFilled_through hgroup hinv hpending hfills
        exact ⟨hinv, s', hexec, hinv', hstaged⟩
    refine ((hfirst.append fun s' hinv' hstaged => passes_through hinv' hstaged).append
      fun s' hinv' hfilled => hthrough s' hinv' hfilled.1 hfilled.2).append ?_
    exact fun s' hinv' hsealed => dropFiller_through hgroup hinv' hsealed

theorem filledTarget_clean (hnodup : (group.map FillColumn.column).Nodup) :
    FilledClean oneStep conf lead group (filledTarget lead group s) := by
  have hpending : pendingOf group (filledTarget lead group s) = [] := by
    refine pendingOf_eq_nil fun g hg => ?_
    change (columnsWith group true s.column g.column).notNull = true
    rw [columnsWith, find_column hnodup hg]
    rfl
  refine ⟨fun h => absurd hpending h, fun g hg x hx => ?_, fun h => absurd hpending h⟩
  change (if g.notNullCheck ∈ group.map FillColumn.notNullCheck then none else _) = some x at hx
  rw [if_pos (List.mem_map_of_mem hg)] at hx
  cases hx

theorem full_part {before : List StoredRow} {f : StoredRow → StoredRow}
    (hrows : List.Forall₂ (fun r r' => r' = r ∨ r' = f r) before rows)
    (hfull : ∀ r ∈ before, (f r).full group = r.full group) :
    rows.map (StoredRow.full group) = before.map (StoredRow.full group) := by
  induction hrows with
  | nil => rfl
  | cons hab hrest ih =>
    rw [List.map_cons, List.map_cons, ih fun r hr => hfull r (List.mem_cons_of_mem _ hr)]
    rcases hab with rfl | rfl
    · rfl
    · rw [hfull _ List.mem_cons_self]

/-- The batches of a walk that is stopped keep what a whole one keeps. -/
theorem batches_kept {w : FillWalk}
    {h : ∀ r ∈ rows, ∀ c, (s.column c).isThere = false → r.null c = true}
    (hinv : FilledInv lead group τ s) (hclean : FilledClean oneStep conf lead group s)
    (hexec : (Stmt.walk w).exec formatType s = some s') (hinv' : FilledInv lead group τ s')
    (hrows : List.Forall₂ (fun r r' => r' = r ∨ r' = w.visit s r) s.rows rows) :
    FilledInv lead group τ (s.withRows rows h) ∧
      FilledClean oneStep conf lead group (s.withRows rows h) := by
  have hlater : List.Forall₂ StoredRow.Later s.rows rows := by
    refine hrows.imp fun r r' hr => ?_
    rcases hr with rfl | rfl
    · exact .refl _
    · exact FillWalk.visit_later
  -- a row that the walk writes is no other once it is full
  have hwhole : s.rows.map (fun r => (w.visit s r).full group) =
      s.rows.map (StoredRow.full group) := by
    have hsame := congrArg Catalog.rows (hinv'.2.trans hinv.2.symm)
    change s'.rows.map (StoredRow.full group) = s.rows.map (StoredRow.full group) at hsame
    rw [← hsame, walk_exec hexec, List.map_map]
    rfl
  have hfull : ∀ r ∈ s.rows, (w.visit s r).full group = r.full group := List.map_inj_left.mp hwhole
  have hpart := full_part hrows hfull
  have htarget : filledTarget lead group (s.withRows rows h) = filledTarget lead group s :=
    filledTarget_congr (fun _ _ => rfl) hpart (fun _ _ => rfl) (fun _ _ => ⟨rfl, rfl⟩) rfl rfl
      ⟨rfl, rfl, rfl, rfl, rfl⟩
  refine ⟨⟨hinv.1.later hlater rfl hinv.1.function, htarget.trans hinv.2⟩, hclean.short, ?_,
    fun hpending => ?_⟩
  · rw [htarget]
    exact hclean.resumed
  · obtain ⟨key, choice, hkey, hchoice, hfills⟩ := hclean.walked hpending
    exact ⟨key, choice, hkey, hchoice, hfills.later hlater rfl rfl⟩

/-- Stopped and planned again any number of times, wherever no check is left behind: the plan goes
through, to what an attempt that is not interrupted ends in. -/
theorem filled_resumes (hgroup : FillGroup formatType lead group)
    (hready : FilledReady lead group s₀) (hclean : FilledClean oneStep conf lead group s₀)
    (hreach : (fillJob formatType lead group oneStep conf).Reaches
      (fun s _ => FilledClean oneStep conf lead group s) (s₀, []) (s, [])) :
    ∃ txns, planAddColumnsFilled lead group oneStep conf s = .ok txns ∧
      (fillJob formatType lead group oneStep conf).runAll txns s =
        some (filledTarget lead group s₀) := by
  let job := fillJob formatType lead group oneStep conf
  have hthrough : ∀ s, FilledInv lead group (filledTarget lead group s₀) s →
      FilledClean oneStep conf lead group s →
      ∃ txns, planAddColumnsFilled lead group oneStep conf s = .ok txns ∧ job.plan s = txns ∧
        job.Through (FilledInv lead group (filledTarget lead group s₀)) txns
          (· = filledTarget lead group s₀) s := by
    intro s hinv hc
    obtain ⟨txns, hplan, hthrough⟩ := @filled_through formatType oneStep conf lead group job.plan s
      _ hgroup hinv hc
    have hexec : job.exec = (txnJob formatType job.plan).exec := rfl
    refine ⟨txns, hplan, ?_, hthrough.exec hexec⟩
    change (planAddColumnsFilled lead group oneStep conf s).toOption.getD [] = txns
    rw [hplan]
    rfl
  have hres : Resumable job (fun s _ => FilledClean oneStep conf lead group s)
      (fun s => FilledInv lead group (filledTarget lead group s₀) s ∧
        FilledClean oneStep conf lead group s)
      (fun s bs => job.Through (FilledInv lead group (filledTarget lead group s₀)) bs
        (· = filledTarget lead group s₀) s)
      (· = filledTarget lead group s₀) := by
    refine Resumable.of_through (fun s hinv hc => ?_) (fun s _ hs => ?_)
      fun txn s s' t hinv hc hexec hinv' hl => ?_
    · obtain ⟨txns, -, hplan, hthrough⟩ := hthrough s hinv hc
      rw [hplan]
      exact hthrough
    · rw [hs]
      exact filledTarget_clean hgroup.nodup
    · rcases hl with rfl | ⟨w, rows, h, hstmts, rfl, hrows⟩
      · exact ⟨hinv, hc⟩
      · exact batches_kept hinv hc ((Txn.exec_stmts formatType hstmts s).symm.trans hexec) hinv'
          hrows
  have hrests := hres.reaches_rests hreach ⟨rfl, ⟨hready, rfl⟩, hclean⟩
  obtain ⟨txns, hplan, hplans, -⟩ := hthrough s hrests.1 hrests.2
  obtain ⟨s', hrun, -, hend⟩ := hres.completes hrests
  refine ⟨txns, hplan, ?_⟩
  rw [← hend, ← hrun, hplans]

end

/-! ## The recipes, stopped and planned again -/

section Claims

/-- An attempt from `s₀` that is not interrupted and one from `s` end in the same catalog. -/
def SameEnd (formatType : String → String) (plan : Catalog → Except String (List Txn))
    (s₀ s : Catalog) (ends : Catalog → Prop) : Prop :=
  ∃ e first next, plan s₀ = .ok first ∧ plan s = .ok next ∧
    (recipeJob formatType plan).runAll first s₀ = some e ∧
    (recipeJob formatType plan).runAll next s = some e ∧ ends e

variable {formatType : String → String} {oneStep : Option String} {s₀ s : Catalog}

theorem planSetNotNull_ok {in_ : SetNotNull} (h : (s.column in_.column).isThere = true) :
    planSetNotNull oneStep in_ s = .ok ((in_.guarded oneStep).plan s) := by
  change _ = Except.ok ((planSetNotNull oneStep in_ s).toOption.getD [])
  unfold planSetNotNull
  cases hcol : s.column in_.column with
  | absent =>
    rw [hcol] at h
    cases h
  | there type b =>
    cases b with
    | true => rfl
    | false =>
      cases oneStep with
      | none => rfl
      | some scope => rfl

theorem setNotNull_resumes {in_ : SetNotNull} (hk : tooLong in_.check = false)
    (hthere : (s₀.column in_.column).isThere = true) (hnulls : s₀.nulls in_.column = false)
    (hown : (in_.guarded oneStep).Own s₀) (hclean : (in_.guarded oneStep).Clean s₀)
    (hreach : (recipeJob formatType (planSetNotNull oneStep in_)).Reaches
      (fun s _ => (in_.guarded oneStep).Clean s) (s₀, []) (s, [])) :
    SameEnd formatType (planSetNotNull oneStep in_) s₀ s fun e =>
      (e.column in_.column).notNull = true ∧
      (in_.keepCheck = false → e.check in_.check = none) := by
  have hr : (in_.guarded oneStep).Lawful formatType := SetNotNull.lawful oneStep hk
  obtain ⟨hready, hrun⟩ := Guarded.resumes hr ⟨hthere, hnulls⟩ hown hclean hreach
  obtain ⟨-, hrun₀⟩ := Guarded.resumes hr ⟨hthere, hnulls⟩ hown hclean .refl
  refine ⟨_, _, _, planSetNotNull_ok hthere, planSetNotNull_ok hready.1, hrun₀, hrun, ?_,
    fun hkeep => ?_⟩
  · exact hr.done_reach ⟨hthere, hnulls⟩
  · have hlast : (in_.guarded oneStep).lastCheck s₀ = none := by
      rw [Guarded.lastCheck]
      exact if_neg (by simpa [SetNotNull.guarded] using hkeep)
    change (((in_.guarded oneStep).reach s₀).withCheck in_.check _).check in_.check = none
    rw [Catalog.withCheck_same, hlast]

theorem attachPartition_resumes {in_ : AttachPartition} (hk : tooLong in_.check = false)
    (hrows : s₀.outside = false) (hown : in_.guarded.Own s₀) (hclean : in_.guarded.Clean s₀)
    (hreach : (recipeJob formatType (.ok ∘ planAttachPartition in_)).Reaches
      (fun s _ => in_.guarded.Clean s) (s₀, []) (s, [])) :
    SameEnd formatType (.ok ∘ planAttachPartition in_) s₀ s fun e =>
      e.attached = true ∧ e.check in_.check = none := by
  have hr : in_.guarded.Lawful formatType := AttachPartition.lawful hk
  obtain ⟨-, hrun⟩ := Guarded.resumes hr hrows hown hclean hreach
  obtain ⟨-, hrun₀⟩ := Guarded.resumes hr hrows hown hclean .refl
  refine ⟨_, _, _, rfl, rfl, hrun₀, hrun, rfl, ?_⟩
  change ((in_.guarded.reach s₀).withCheck in_.check none).check in_.check = none
  exact Catalog.withCheck_same _ _ _

/-- What a group with a fill ends in. -/
def FilledEnd (lead : FillColumn) (group : List FillColumn) (s₀ e : Catalog) : Prop :=
  (∀ g ∈ group, e.column g.column = .there g.type true ∧ e.check g.notNullCheck = none) ∧
  (lead.dropAfter = true → e.trigger lead.filler = false ∧
    (pendingOf group s₀ ≠ [] ∨ s₀.trigger lead.filler = true → e.function lead.filler = false)) ∧
  (lead.dropAfter = false → pendingOf group s₀ ≠ [] ∨ s₀.trigger lead.filler = true →
    e.trigger lead.filler = true ∧ e.function lead.filler = true)

theorem filledTarget_end {lead : FillColumn} {group : List FillColumn}
    (hnodup : (group.map FillColumn.column).Nodup) :
    FilledEnd lead group s₀ (filledTarget lead group s₀) := by
  have htrigger : (filledTarget lead group s₀).trigger lead.filler = staysAfter lead group s₀ :=
    Function.update_self _ _ _
  have hfunction : (filledTarget lead group s₀).function lead.filler =
      functionAfter lead group s₀ := Function.update_self _ _ _
  have hmade : pendingOf group s₀ ≠ [] ∨ s₀.trigger lead.filler = true →
      staysAfter lead group s₀ = (!lead.dropAfter) ∧
      functionAfter lead group s₀ = staysAfter lead group s₀ := by
    rintro (hpending | htrigger)
    · refine ⟨?_, functionAfter_pending hpending⟩
      have hsome : (pendingOf group s₀).isEmpty = false := by simpa using hpending
      rw [staysAfter, hsome]
      simp
    · exact ⟨staysAfter_trigger htrigger, functionAfter_trigger htrigger⟩
  refine ⟨fun g hg => ⟨?_, if_pos (List.mem_map_of_mem hg)⟩, fun hafter => ⟨?_, fun h => ?_⟩,
    fun hafter h => ?_⟩
  · change columnsWith group true s₀.column g.column = _
    rw [columnsWith, find_column hnodup hg]
  · rw [htrigger, staysAfter, hafter]
    rfl
  · rw [hfunction, (hmade h).2, (hmade h).1, hafter]
    rfl
  · rw [htrigger, hfunction, (hmade h).2, (hmade h).1, hafter]
    exact ⟨rfl, rfl⟩

/-- NOT NULL, columns with a fill and an attached partition: stopped any number of times, and never
where a check would be left behind or no walk fills the columns, the next plan ends where an attempt
that is not interrupted does. -/
theorem scannedRecipes_resume (formatType : String → String) (oneStep : Option String) :
    (∀ (in_ : SetNotNull) (s₀ s : Catalog), tooLong in_.check = false →
      (s₀.column in_.column).isThere = true → s₀.nulls in_.column = false →
      (in_.guarded oneStep).Own s₀ → (in_.guarded oneStep).Clean s₀ →
      (recipeJob formatType (planSetNotNull oneStep in_)).Reaches
        (fun s _ => (in_.guarded oneStep).Clean s) (s₀, []) (s, []) →
      SameEnd formatType (planSetNotNull oneStep in_) s₀ s fun e =>
        (e.column in_.column).notNull = true ∧
        (in_.keepCheck = false → e.check in_.check = none)) ∧
    (∀ (lead : FillColumn) (group : List FillColumn) (conf : Confinement) (s₀ s : Catalog),
      FillGroup formatType lead group → FilledReady lead group s₀ →
      FilledClean oneStep conf lead group s₀ →
      (fillJob formatType lead group oneStep conf).Reaches
        (fun s _ => FilledClean oneStep conf lead group s) (s₀, []) (s, []) →
      SameEnd formatType (planAddColumnsFilled lead group oneStep conf) s₀ s
        (FilledEnd lead group s₀)) ∧
    ∀ (in_ : AttachPartition) (s₀ s : Catalog), tooLong in_.check = false → s₀.outside = false →
      in_.guarded.Own s₀ → in_.guarded.Clean s₀ →
      (recipeJob formatType (.ok ∘ planAttachPartition in_)).Reaches
        (fun s _ => in_.guarded.Clean s) (s₀, []) (s, []) →
      SameEnd formatType (.ok ∘ planAttachPartition in_) s₀ s fun e =>
        e.attached = true ∧ e.check in_.check = none := by
  refine ⟨fun in_ s₀ s => setNotNull_resumes,
    fun lead group conf s₀ s hgroup hready hclean hreach => ?_,
    fun in_ s₀ s => attachPartition_resumes⟩
  obtain ⟨next, hplan, hrun⟩ := filled_resumes hgroup hready hclean hreach
  obtain ⟨first, hplan₀, hrun₀⟩ := filled_resumes hgroup hready hclean .refl
  have hexec : (fillJob formatType lead group oneStep conf).exec =
      (recipeJob formatType (planAddColumnsFilled lead group oneStep conf)).exec := rfl
  rw [Job.runAll_exec hexec] at hrun hrun₀
  exact ⟨_, first, next, hplan₀, hplan, hrun₀, hrun, filledTarget_end hgroup.nodup⟩

/-- The primary key on `id`. -/
def idPrimary : IndexReading where
  isUnique := true
  isValid := true
  isPrimary := true
  leadingColumn := "id"
  columns := some [some "id"]
  predicate := some ""
  keyColumnCount := some 1

/-- A table keyed by `id`, with the columns and these rows, which lack the other columns, and nothing
of a recipe. -/
def tableOf (columns : List String) (rows : List StoredRow)
    (h : ∀ r ∈ rows, r.null = fun c => decide (c ∉ "id" :: columns)) : Catalog where
  column c := if c ∈ "id" :: columns then .there "integer" (c = "id") else .absent
  rows
  indexes := [("orders_pkey", idPrimary)]
  names_sorted := List.pairwise_singleton _ _
  absent_null r hr c hc := by
    rw [h r hr]
    split at hc
    · cases hc
    · simpa using ‹c ∉ "id" :: columns›

/-- A row of `orders`, with its amount. -/
def orderRow : StoredRow where
  null c := decide (c ∉ ["id", "amount"])
  given c n := c = "total" && n = 0

def orders : Catalog := tableOf ["amount"] [orderRow] fun _ hr => by
  rw [List.mem_singleton.mp hr]
  rfl

def amountNotNull : SetNotNull := { schema := "public", table := "orders", column := "amount" }

def totalFilled : FillColumn :=
  { schema := "public", table := "orders", column := "total", type := "integer"
    sources := [{ value := "amount" }], after := "drop_trigger" }

def orders2025 : AttachPartition :=
  { schema := "public", table := "orders", partition := "orders_2025", bound := some "amount > 0"
    forValues := "FOR VALUES FROM (0) TO (9)" }

/-- Stopped after the check is added, or before anything is done. -/
theorem scannedRecipes_resume_orders :
    SameEnd id (planSetNotNull none amountNotNull) orders
      (orders.withCheck amountNotNull.check (some ⟨.notNull ["amount"], false⟩))
      (fun e => (e.column "amount").notNull = true ∧
        (amountNotNull.keepCheck = false → e.check amountNotNull.check = none)) ∧
    SameEnd id (planAddColumnsFilled totalFilled [totalFilled] none ⟨"", ""⟩) orders orders
      (FilledEnd totalFilled [totalFilled] orders) ∧
    SameEnd id (.ok ∘ planAttachPartition orders2025) orders orders
      (fun e => e.attached = true ∧ e.check orders2025.check = none) := by
  obtain ⟨hnotNull, hfilled, hattach⟩ := scannedRecipes_resume id none
  have hplan : (recipeJob id (planSetNotNull none amountNotNull)).plan orders =
      [(SetNotNull.make (.addCheck amountNotNull.check (.notNull ["amount"])) addLock).lockFirst] ++
      ((recipeJob id (planSetNotNull none amountNotNull)).plan orders).tail := rfl
  refine ⟨hnotNull amountNotNull orders _ (by decide) rfl rfl (fun _ hx => nomatch hx)
      (fun _ _ => rfl) (Job.reaches_stopped hplan rfl fun _ h => ?_),
    hfilled totalFilled [totalFilled] ⟨"", ""⟩ orders _ ?_ ?_ ?_ .refl,
    hattach orders2025 orders _ (by decide) rfl (fun _ hx => nomatch hx)
      (fun _ _ => rfl) .refl⟩
  · exact absurd h (by decide)
  · exact ⟨List.mem_singleton_self _, by decide, by decide, by decide, by decide, by decide⟩
  · refine ⟨(fun h => nomatch h), fun g hg type b hcol => ?_, fun g hg hnotNull => ?_,
      fun g hg r hr _ => ?_⟩
    · rw [List.mem_singleton.mp hg] at hcol
      cases hcol
    · rw [List.mem_singleton.mp hg] at hnotNull
      cases hnotNull
    · rw [List.mem_singleton.mp hg, List.mem_singleton.mp hr]
      exact ⟨0, by decide, rfl⟩
  · refine ⟨fun _ _ => by decide, (fun _ _ _ hx => nomatch hx), fun _ => ?_⟩
    refine ⟨"id", .ordinary "id" "orders_pkey", rfl, rfl, fun _ => ⟨rfl, fun r hr _ => ?_⟩⟩
    rw [List.mem_singleton.mp hr]
    rfl

/-- Stopped after SET NOT NULL, the next plan has nothing to do and the check stays. -/
theorem stopped_before_drop :
    ¬ ∀ s, (recipeJob id (planSetNotNull none amountNotNull)).Reaches (fun _ _ => True)
        (orders, []) (s, []) →
      SameEnd id (planSetNotNull none amountNotNull) orders s fun e =>
        (e.column "amount").notNull = true ∧
        (amountNotNull.keepCheck = false → e.check amountNotNull.check = none) := by
  intro h
  let drop : Txn :=
    (SetNotNull.make (.dropConstraint amountNotNull.check) briefLock).lockFirst
  let left : Catalog := ((orders.withCheck amountNotNull.check
    (some ⟨.notNull ["amount"], false⟩)).withCheck amountNotNull.check
    (some ⟨.notNull ["amount"], true⟩)).withNotNull ["amount"]
  have hrun : (recipeJob id (planSetNotNull none amountNotNull)).runAll
      (((recipeJob id (planSetNotNull none amountNotNull)).plan orders).take 3)
      orders = some left := by
    rfl
  have hfirst : (recipeJob id (planSetNotNull none amountNotNull)).plan orders =
      ((recipeJob id (planSetNotNull none amountNotNull)).plan orders).take 3 ++
        [drop] := rfl
  obtain ⟨e, first, next, -, hnext, -, hsame, -, hgone⟩ :=
    h left (Job.reaches_stopped hfirst hrun trivial)
  have hplan : planSetNotNull none amountNotNull left = .ok [] := rfl
  rw [hplan] at hnext
  cases hnext
  cases hsame
  cases hgone rfl

end Claims

end Planner
end Laswell
