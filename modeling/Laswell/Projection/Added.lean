import Laswell.Projection.Mirrored

/-!
# Laswell.Projection.Added

Columns that are added: one by itself, and those of a fill, which are planned together at the first
of them.

* `flags_notNulls`: one recipe after the other makes the columns NOT NULL.
* `FilledMirrored`, `DefaultedMirrored`: what has to be so before, for each kind of group.
* `addColumn_agrees`: an `add_column` with the columns that join it.
-/

namespace Laswell
namespace Projection

variable {s : Server} {watched : Rel → Prop} {env : Env} {obs : Observations} {r : Rel}

/-! ## Entries with several columns more -/

abbrev TableObs.withColumns (t : TableObs) (group : List AddColumn) (notNull : Bool) : TableObs :=
  group.foldl (fun t g => t.withColumn g.column g.type notNull) t

section WithColumns

variable (t : TableObs) (group : List AddColumn) (notNull : Bool)

@[simp] theorem present_withColumns : (t.withColumns group notNull).present = t.present := by
  induction group generalizing t with
  | nil => rfl
  | cons g gs ih => exact ih (t.withColumn g.column g.type notNull)

@[simp] theorem indexes_withColumns : (t.withColumns group notNull).indexes = t.indexes := by
  induction group generalizing t with
  | nil => rfl
  | cons g gs ih => exact ih (t.withColumn g.column g.type notNull)

@[simp] theorem constraints_withColumns :
    (t.withColumns group notNull).constraints = t.constraints := by
  induction group generalizing t with
  | nil => rfl
  | cons g gs ih => exact ih (t.withColumn g.column g.type notNull)

theorem columns_withColumns :
    (t.withColumns group notNull).columns =
      group.foldl (fun cols g => cols.insert g.column { type := g.type, notNull := notNull })
        t.columns := by
  induction group generalizing t with
  | nil => rfl
  | cons g gs ih => exact ih (t.withColumn g.column g.type notNull)

/-- The columns of the group have the flag, the others are as they were. -/
theorem withColumns_covers :
    Covers (fun (c : ColumnObs) flag => c.notNull = flag) (t.withColumns group notNull).columns
      fun c => if c ∈ group.map (·.column) then some notNull
        else (t.columns[c]?).map (·.notNull) := by
  have hself : Covers (fun (c : ColumnObs) flag => c.notNull = flag) t.columns
      fun c => (t.columns[c]?).map (·.notNull) := by
    intro c
    show Option.Rel _ t.columns[c]? ((t.columns[c]?).map (·.notNull))
    cases t.columns[c]? with
    | none => exact .none
    | some col => exact .some rfl
  rw [columns_withColumns]
  exact Covers.setAll (·.column) (fun _ g => { type := g.type, notNull := notNull }) notNull
    (fun _ _ => rfl) group hself

end WithColumns

theorem TableAgrees.withColumns {t : TableObs} {k : CatTable} (h : TableAgrees s t k)
    (group : List AddColumn) :
    TableAgrees s (t.withColumns group true) (k.notNulls (group.map (·.column))) := by
  constructor
  · rw [columns_withColumns]
    exact h.columns.setAll (·.column) (fun _ g => { type := g.type, notNull := true }) true
      (fun _ _ => rfl) group
  · rw [indexes_withColumns]
    exact h.indexes
  · rw [constraints_withColumns]
    exact h.constraints

/-- Columns that are NOT NULL already make no difference. -/
theorem CatTable.notNulls_congr {k : CatTable} {as bs : List String}
    (hab : ∀ c ∈ as, c ∈ bs ∨ k.columns c = some true)
    (hba : ∀ c ∈ bs, c ∈ as ∨ k.columns c = some true) : k.notNulls as = k.notNulls bs := by
  simp only [CatTable.notNulls, CatTable.mk.injEq, and_true]
  funext c
  by_cases ha : c ∈ as <;> by_cases hb : c ∈ bs
  · simp [ha, hb]
  · simp [ha, hb, (hab c ha).resolve_left hb]
  · simp [ha, hb, (hba c hb).resolve_left ha]
  · simp [ha, hb]

/-! ## What the group's first step projects -/

theorem tables_projectGroup {group : List AddColumn} {steps : List Step}
    (hp : (obs.table r).present = true) (happly : steps.any Step.applies = true) :
    (projectGroup r group steps obs).tables =
      Function.update obs.tables r (some ((obs.table r).withColumns group true)) := by
  cases group with
  | nil =>
    have hself := present_tables hp
    simp [projectGroup, TableObs.withColumns, ← hself]
  | cons g gs => simp [projectGroup, happly, Observations.assign, TableObs.withColumns]

/-- The entry once the columns that join are taken along, and the first one where its step
applies. -/
def groupEntry (t : TableObs) (lead : AddColumn) (group : List AddColumn) (leads : Bool) : TableObs :=
  if leads then (t.withColumns group true).withColumn lead.column lead.type !lead.nullable
  else t.withColumns group true

theorem table_projectFirst {lead : AddColumn} {group : List AddColumn} {first : Step}
    {more : List Step} (hp : (obs.table r).present = true)
    (happly : (first :: more).any Step.applies = true) (q : Rel) :
    (projectFirst ⟨r, .addColumn lead⟩ (first :: more)
        (projectGroup r group (first :: more) obs)).table q =
      if q = r then groupEntry (obs.table r) lead group first.applies else obs.table q := by
  have htables : (projectGroup r group (first :: more) obs).tables = _ :=
    tables_projectGroup hp happly
  have hgroup : ∀ q, (projectGroup r group (first :: more) obs).table q =
      if q = r then (obs.table r).withColumns group true else obs.table q := by
    intro q
    simp only [Observations.table, htables, Function.update_apply]
    split <;> rfl
  cases hfirst : first.applies with
  | false => simpa [projectFirst, project, hfirst, groupEntry] using hgroup q
  | true =>
    have hself : (projectGroup r group (first :: more) obs).tables r =
        some ((obs.table r).withColumns group true) := by rw [htables, Function.update_self]
    simp only [projectFirst, project, hfirst, hself, projectChange, Observations.table_assign,
      Bool.not_true, Bool.false_eq_true, if_false, groupEntry, if_true]
    split
    · rfl
    next hq => rw [hgroup, if_neg hq]

theorem groupEntry_agrees {t : TableObs} {k : CatTable} {lead : AddColumn} (h : TableAgrees s t k)
    (hnull : lead.nullable = false) (group : List AddColumn) (leads : Bool) :
    TableAgrees s (groupEntry t lead group leads)
      (k.notNulls (group.map (·.column) ++ if leads then [lead.column] else [])) := by
  cases leads with
  | false => simpa [groupEntry] using h.withColumns group
  | true =>
    have hlead := (h.withColumns group).withColumn lead.column lead.type true
    rw [← CatTable.notNulls_singleton, CatTable.notNulls_append] at hlead
    simpa [groupEntry, hnull] using hlead

theorem group_agrees {c c' : Catalog} {lead : AddColumn} {group : List AddColumn} {first : Step}
    {more : List Step} (hagree : Agrees s watched obs c) (hr : watched r)
    (hp : (obs.table r).present = true) (happly : (first :: more).any Step.applies = true)
    (hconf : ∀ stmt ∈ statementsOf (first :: more), Confined watched c r stmt)
    (hexec : s.execAll (statementsOf (first :: more)) c = some c')
    (htable : ∀ k k', c.tables r = some k → TableAgrees s (obs.table r) k →
      s.alterAll (alterationsOn r (statementsOf (first :: more))) k = some k' →
      TableAgrees s (groupEntry (obs.table r) lead group first.applies) k') :
    Agrees s watched (projectFirst ⟨r, .addColumn lead⟩ (first :: more)
      (projectGroup r group (first :: more) obs)) c' := by
  obtain ⟨k, hk, htk⟩ := (hagree r hr).of_present hp
  have haltered := execAll_confined hr hconf hk hexec
  refine haltered.agrees hagree (fun q hq => ?_) fun k' hk' => ?_
  · rw [table_projectFirst hp happly, if_neg hq]
  · rw [table_projectFirst hp happly, if_pos rfl]
    refine ⟨?_, htable k k' hk htk hk'⟩
    cases hfirst : first.applies <;> simp [groupEntry, TableObs.withColumn, hp]

/-! ## One recipe after the other -/

theorem flags_apply {columns : List String} {plans : List (List Step)}
    (hnull : ∀ c ∈ columns, NullableIn (obs.table r) c)
    (hplan : columns.mapM (fun c => planSetNotNull env obs r c false) = some plans) :
    (∀ st ∈ plans.flatten, st.applies = true) ∧ (columns ≠ [] → plans.flatten ≠ []) ∧
      ∀ stmt ∈ statementsOf plans.flatten, ∃ a, stmt = .alter r a := by
  induction columns generalizing plans with
  | nil =>
    obtain rfl : plans = [] := by simpa using hplan.symm
    simp [statementsOf]
  | cons c cs ih =>
    simp only [List.mapM_cons, Option.bind_eq_bind, Option.bind_eq_some_iff, Option.pure_def,
      Option.some.injEq] at hplan
    obtain ⟨steps, hsteps, more, hmore, rfl⟩ := hplan
    obtain ⟨-, happly, hstmts⟩ := planSetNotNull_applies (hnull c (by simp)) hsteps
    obtain ⟨hrest, -, hrests⟩ := ih (fun x hx => hnull x (by simp [hx])) hmore
    refine ⟨?_, fun _ => by simp [happly.1], ?_⟩
    · intro st hst
      rw [List.flatten_cons, List.mem_append] at hst
      rcases hst with hst | hst
      · exact happly.2 st hst
      · exact hrest st hst
    · intro stmt hstmt
      simp only [List.flatten_cons, statementsOf, List.flatMap_append, List.mem_append] at hstmt
      rcases hstmt with hstmt | hstmt
      · exact hstmts stmt hstmt
      · exact hrests stmt hstmt

/-- The recipes leave the constraints as they find them, so each is planned as the first is. -/
theorem flags_notNulls {columns : List String} {plans : List (List Step)} {k k' : CatTable}
    (hnull : ∀ c ∈ columns, NullableIn (obs.table r) c)
    (hplan : columns.mapM (fun c => planSetNotNull env obs r c false) = some plans)
    (hagree : ConstraintsAgree (obs.table r).constraints k.constraints)
    (hflag : ∀ c ∈ columns, FlagMirrored env s obs (obs.table r) r c false)
    (h : s.alterAll (alterationsOn r (statementsOf plans.flatten)) k = some k') :
    k' = k.notNulls columns := by
  induction columns generalizing plans k with
  | nil =>
    obtain rfl : plans = [] := by simpa using hplan.symm
    obtain rfl : k = k' := by simpa [statementsOf, alterAll_nil] using h
    simp
  | cons c cs ih =>
    simp only [List.mapM_cons, Option.bind_eq_bind, Option.bind_eq_some_iff, Option.pure_def,
      Option.some.injEq] at hplan
    obtain ⟨steps, hsteps, more, hmore, rfl⟩ := hplan
    simp only [List.flatten_cons, statementsOf, List.flatMap_append, alterationsOn_append,
      alterAll_append] at h
    obtain ⟨mid, hmid, hrest⟩ := h
    obtain rfl := planSetNotNull_notNulls (hnull c (by simp)) hsteps hagree (hflag c (by simp)) hmid
    rw [← CatTable.notNulls_cons]
    exact ih (fun x hx => hnull x (by simp [hx])) hmore hagree (fun x hx => hflag x (by simp [hx]))
      hrest

/-! ## A column by itself -/

theorem planAddColumnPlain_cases {d : AddColumn} {step : Step}
    (h : planAddColumnPlain obs r d = some step) :
    (obs.table r).present = true ∧
      (((obs.table r).columns[d.column]?).isSome ∧ step = .satisfied ∨
        (obs.table r).columns[d.column]? = none ∧
          step = .applying [.alter r (.addColumn d.def_), .other]) := by
  simp only [planAddColumnPlain] at h
  split at h
  · cases h
  next hp =>
    refine ⟨by simpa using hp, ?_⟩
    split at h
    next existing hcol =>
      split at h
      · cases h
      · split at h
        · cases h
        · exact .inl ⟨by rw [hcol]; rfl, (Option.some.inj h).symm⟩
    next hcol =>
      split at h
      · cases h
      · exact .inr ⟨hcol, (Option.some.inj h).symm⟩

def PlainMirrored (s : Server) (watched : Rel → Prop) (obs : Observations) (c : Catalog) (r : Rel)
    (d : AddColumn) : Prop :=
  (obs.table r).columns[d.column]? = none → Alone watched c r ∧ Declared s d.def_

theorem addColumnPlain_agrees {c c' : Catalog} {d : AddColumn} {step : Step}
    (hagree : Agrees s watched obs c) (hr : watched r)
    (hplan : planAddColumnPlain obs r d = some step)
    (hexec : s.execAll (statementsOf [step]) c = some c')
    (hmir : PlainMirrored s watched obs c r d) :
    Agrees s watched (projectFirst ⟨r, .addColumn d⟩ [step] obs) c' := by
  obtain ⟨hp, hcases⟩ := planAddColumnPlain_cases hplan
  rcases hcases with ⟨-, rfl⟩ | ⟨hcol, rfl⟩
  · exact satisfied_agrees hagree hexec
  · obtain ⟨halone, hdeclared⟩ := hmir hcol
    refine altered_agrees ((obs.table r).withColumn d.column d.type !d.nullable) hagree hr hp
      (allApply_singleton _) rfl ?_ hexec hp fun k k' hk htk hall => ?_
    · simp only [statementsOf, Step.applying, List.flatMap_cons, List.flatMap_nil, List.append_nil,
        List.mem_cons, List.not_mem_nil, or_false]
      rintro stmt (rfl | rfl)
      · exact confined_alone halone _
      · trivial
    · obtain ⟨mid, hmid, hrest⟩ := alterAll_cons.mp (by
        simpa [statementsOf, Step.applying] using hall)
      rw [alterAll_nil] at hrest
      subst hrest
      obtain rfl := hdeclared.addColumn_eq hmid
      exact htk.withColumn d.column d.type !d.nullable

/-! ## Columns that are filled -/

/-- Nothing but the columns of the list is new. -/
structure Grown (k k' : CatTable) (columns : List String) : Prop where
  columns : ∀ c, c ∉ columns → k'.columns c = k.columns c
  indexes : k'.indexes = k.indexes
  constraints : k'.constraints = k.constraints

theorem Grown.notNulls {k k' : CatTable} {columns among : List String} (h : Grown k k' columns)
    (hsub : ∀ c ∈ columns, c ∈ among) : k'.notNulls among = k.notNulls among := by
  have hcols : (k'.notNulls among).columns = (k.notNulls among).columns := by
    funext c
    by_cases hc : c ∈ among
    · simp [CatTable.notNulls, hc]
    · simp [CatTable.notNulls, hc, h.columns c fun hmem => hc (hsub c hmem)]
  cases k
  cases k'
  simp only [CatTable.notNulls, CatTable.mk.injEq] at hcols ⊢
  exact ⟨hcols, h.indexes, h.constraints⟩

theorem addColumns_grown {group : List AddColumn} {k k' : CatTable}
    (hrec : s.recordsNotNull = false) (hplain : ∀ g ∈ group, Plain s g.bare)
    (h : s.alterAll (group.map fun g => .addColumn g.bare) k = some k') :
    Grown k k' (group.map (·.column)) := by
  induction group generalizing k with
  | nil =>
    obtain rfl : k = k' := by simpa [alterAll_nil] using h
    exact ⟨fun _ _ => rfl, rfl, rfl⟩
  | cons g gs ih =>
    obtain ⟨mid, hmid, hrest⟩ := alterAll_cons.mp h
    have hone := addColumn_eq (hplain g (by simp)) (fun hon => by simp [hrec] at hon) hmid
    have hmore := ih (fun x hx => hplain x (by simp [hx])) hrest
    subst hone
    refine ⟨fun c hc => ?_, hmore.indexes, hmore.constraints⟩
    simp only [List.map_cons, List.mem_cons, not_or] at hc
    rw [hmore.columns c hc.2]
    exact Function.update_of_ne hc.1 _ _

theorem alterationsOn_others {stmts : List Statement} (h : ∀ stmt ∈ stmts, stmt = .other) :
    alterationsOn r stmts = [] := by
  rw [alterationsOn, List.filterMap_eq_nil_iff]
  intro stmt hstmt
  rw [h stmt hstmt]

theorem alterationsOn_added (group : List AddColumn) (stmts : List Statement) :
    alterationsOn r (group.flatMap (fun g => [.alter r (.addColumn g.bare), .other]) ++ stmts) =
      (group.map fun g => .addColumn g.bare) ++ alterationsOn r stmts := by
  induction group with
  | nil => rfl
  | cons g gs ih => simpa using ih

/-- The columns whose checks the recipes for a fill's columns are called by. -/
def checked (lead : AddColumn) (columns : List AddColumn) : List String :=
  if 1 < columns.length then [lead.column] else columns.map (·.column)

theorem planFilledNotNull_cases {lead : AddColumn} {columns : List AddColumn} {flags : List Step}
    (h : planFilledNotNull env obs r lead columns = some flags) :
    (1 < columns.length ∧ (env.constraintTraits obs r).refusesValidate = false ∧
      flags = notNullRecipe r (nnCheck r lead.column) (columns.map (·.column))
        (constraintState (obs.table r) (nnCheck r lead.column)) false) ∨
    ((1 < columns.length → (env.constraintTraits obs r).refusesValidate = true) ∧
      ∃ plans, (columns.map (·.column)).mapM (fun c => planSetNotNull env obs r c false) =
        some plans ∧ flags = plans.flatten) := by
  unfold planFilledNotNull at h
  split at h
  next hjoint =>
    cases h
    simp only [Bool.and_eq_true, decide_eq_true_eq, Bool.not_eq_true'] at hjoint
    exact .inl ⟨hjoint.1, hjoint.2, rfl⟩
  next heach =>
    obtain ⟨plans, hplans, rfl⟩ := Option.map_eq_some_iff.mp h
    refine .inr ⟨fun hlen => by simpa [hlen] using heach, plans, ?_, rfl⟩
    rw [List.mapM_map]
    exact hplans

theorem planFilledNotNull_apply {lead : AddColumn} {columns : List AddColumn} {flags : List Step}
    (hne : columns ≠ []) (hnull : ∀ g ∈ columns, NullableIn (obs.table r) g.column)
    (hplan : planFilledNotNull env obs r lead columns = some flags) :
    AllApply flags ∧ ∀ stmt ∈ statementsOf flags, ∃ a, stmt = .alter r a := by
  rcases planFilledNotNull_cases hplan with ⟨-, -, rfl⟩ | ⟨-, plans, hplans, rfl⟩
  · exact ⟨recipe_allApply .., recipe_statements⟩
  · have hnames : ∀ c ∈ columns.map (·.column), NullableIn (obs.table r) c := by
      intro c hc
      obtain ⟨g, hg, rfl⟩ := List.mem_map.mp hc
      exact hnull g hg
    obtain ⟨happly, hsome, hstmts⟩ := flags_apply hnames hplans
    exact ⟨⟨hsome (by simpa using hne), happly⟩, hstmts⟩

theorem planFilledNotNull_notNulls {lead : AddColumn} {columns : List AddColumn}
    {flags : List Step} {k k' : CatTable}
    (hnull : ∀ g ∈ columns, NullableIn (obs.table r) g.column)
    (hplan : planFilledNotNull env obs r lead columns = some flags)
    (hagree : ConstraintsAgree (obs.table r).constraints k.constraints)
    (hrec : s.recordsNotNull = false)
    (hfree : (env.constraintTraits obs r).refusesValidate = false → ∀ column ∈ checked lead columns,
      (obs.table r).constraints[nnCheck r column]? = none)
    (h : s.alterAll (alterationsOn r (statementsOf flags)) k = some k') :
    k' = k.notNulls (columns.map (·.column)) := by
  rcases planFilledNotNull_cases hplan with ⟨hlen, hvalidates, rfl⟩ | ⟨halone, plans, hplans, rfl⟩
  · have hcheck := hfree hvalidates lead.column (by simp [checked, hlen])
    exact recipe_notNulls hagree hrec (by rw [hcheck]; rfl) h
  · refine flags_notNulls (fun c hc => ?_) hplans hagree (fun c hc => ?_) h
    · obtain ⟨g, hg, rfl⟩ := List.mem_map.mp hc
      exact hnull g hg
    · refine ⟨hrec, fun hvalidates => ?_⟩
      have hfew : ¬ 1 < columns.length := fun hlen => by simp [hvalidates] at halone; omega
      rw [hfree hvalidates c (by simpa [checked, hfew] using hc)]
      rfl

/-- Steps that add the columns, without their flags, and alter nothing else. -/
structure Adding (r : Rel) (columns : List AddColumn) (steps : List Step) : Prop where
  apply : ∀ st ∈ steps, st.applies = true
  here : ∀ stmt ∈ statementsOf steps, stmt = .other ∨ ∃ a, stmt = .alter r a
  alterations : alterationsOn r (statementsOf steps) = columns.map fun g => .addColumn g.bare

theorem Adding.nothing {steps : List Step} (happly : ∀ st ∈ steps, st.applies = true)
    (hother : ∀ stmt ∈ statementsOf steps, stmt = .other) : Adding r [] steps :=
  ⟨happly, fun stmt hstmt => .inl (hother stmt hstmt), alterationsOn_others hother⟩

theorem Adding.append {columns : List AddColumn} {before more : List Step}
    (h : Adding r columns before) (hm : Adding r [] more) : Adding r columns (before ++ more) := by
  constructor
  · intro st hst
    exact (List.mem_append.mp hst).elim (h.apply st) (hm.apply st)
  · intro stmt hstmt
    rw [statementsOf, List.flatMap_append, List.mem_append] at hstmt
    exact hstmt.elim (h.here stmt) (hm.here stmt)
  · rw [statementsOf, List.flatMap_append, alterationsOn_append]
    exact (congrArg₂ (· ++ ·) h.alterations hm.alterations).trans (List.append_nil _)

theorem planAddColumnsFilled_cases {lead : AddColumn} {group : List AddColumn} {steps : List Step}
    (h : planAddColumnsFilled env obs r lead group = some steps) :
    (obs.table r).present = true ∧
      ((pending (obs.table r) (lead :: group) = [] ∧
          (steps = [.satisfied] ∨ steps = [.applying [.other, .other]])) ∨
        (pending (obs.table r) (lead :: group) ≠ [] ∧ ∃ before flags after,
          steps = before ++ flags ++ after ∧
            Adding r (missing (obs.table r) (lead :: group)) before ∧
            planFilledNotNull env (filling obs r lead (lead :: group)) r lead
              (pending (obs.table r) (lead :: group)) = some flags ∧ Adding r [] after)) := by
  unfold planAddColumnsFilled at h
  dsimp only at h
  split at h
  · cases h
  next hp =>
    refine ⟨by simpa using hp, ?_⟩
    split at h
    · cases h
    · split at h
      next hnone =>
        refine .inl ⟨by simpa using hnone, ?_⟩
        split at h
        · exact .inr (Option.some.inj h).symm
        · exact .inl (Option.some.inj h).symm
      next hsome =>
        refine .inr ⟨by simpa using hsome, ?_⟩
        simp only [Option.bind_eq_bind, Option.bind_eq_some_iff,
          Option.ite_none_right_eq_some, Option.some.injEq] at h
        obtain ⟨key, -, -, flags, hflags, rfl⟩ := h
        refine ⟨_, flags, _, rfl, Adding.append ?_ (.nothing ?_ ?_), hflags, .nothing ?_ ?_⟩
        · split
          next hnothing =>
            simp only [Bool.and_eq_true, List.isEmpty_iff] at hnothing
            rw [hnothing.1]
            exact .nothing (by simp) (by simp [statementsOf])
          · refine ⟨by simp [Step.applying, Step.applies], fun stmt hstmt => ?_, ?_⟩
            · simp only [statementsOf, Step.applying, List.flatMap_cons, List.flatMap_nil,
                List.append_nil, List.mem_append, List.mem_flatMap] at hstmt
              rcases hstmt with (⟨g, -, hg⟩ | hstmt) | hstmt
              · simp only [List.mem_cons, List.not_mem_nil, or_false] at hg
                exact hg.elim (fun e => .inr ⟨_, e⟩) .inl
              · exact .inl (by simpa using hstmt)
              · split at hstmt
                · cases hstmt
                · exact .inl (by simpa using hstmt)
            · simp only [statementsOf, Step.applying, List.flatMap_cons, List.flatMap_nil,
                List.append_nil, List.append_assoc, alterationsOn_added]
              split <;> simp
        · simp [Step.applying, Step.applies]
        · simp [statementsOf, Step.applying]
        · split <;> simp [Step.applying, Step.applies]
        · split <;> simp [statementsOf, Step.applying]

theorem missing_pending {t : TableObs} {group : List AddColumn} {g : AddColumn}
    (h : g ∈ missing t group) : g ∈ pending t group := by
  simp only [missing, List.mem_filter, Option.isNone_iff_eq_none] at h
  simp [pending, h.1, h.2]

theorem pending_or_flagged {t : TableObs} {k : CatTable} (h : TableAgrees s t k)
    {group : List AddColumn} {g : AddColumn} (hg : g ∈ group) :
    g ∈ pending t group ∨ k.columns g.column = some true := by
  cases hcol : t.columns[g.column]? with
  | none => exact .inl (by simp [pending, hg, hcol])
  | some col =>
    cases hflag : col.notNull with
    | false => exact .inl (by simp [pending, hg, hcol, hflag])
    | true =>
      obtain ⟨flag, hk, heq⟩ := h.columns.of_some hcol
      exact .inr (by rw [hk, ← heq, hflag])

theorem nullable_filling {lead : AddColumn} {group : List AddColumn} {g : AddColumn}
    (h : g ∈ pending (obs.table r) group) :
    NullableIn ((filling obs r lead group).table r) g.column := by
  have hcovers := withColumns_covers (obs.table r) (missing (obs.table r) group) false
  have hself : ((filling obs r lead group).table r).columns =
      ((obs.table r).withColumns (missing (obs.table r) group) false).columns := by
    simp [filling, TableObs.withColumns]
  simp only [pending, List.mem_filter, Bool.not_eq_true'] at h
  rw [NullableIn, hself]
  refine hcovers.of_value ?_
  split
  · rfl
  next hnot =>
    cases hcol : (obs.table r).columns[g.column]? with
    | none =>
      have hmissing : g ∈ missing (obs.table r) group := by simp [missing, h.1, hcol]
      exact absurd (List.mem_map_of_mem hmissing) hnot
    | some col =>
      have hflag : col.notNull = false := by simpa [hcol] using h.2
      simp [hflag]

/-- Where there is something to fill: nothing else is watched below the table, the server makes
columns of the definitions and nothing else, and no check is left over under a name in use. -/
def FilledMirrored (env : Env) (s : Server) (watched : Rel → Prop) (obs : Observations)
    (c : Catalog) (r : Rel) (lead : AddColumn) (group : List AddColumn) : Prop :=
  pending (obs.table r) (lead :: group) ≠ [] →
    Alone watched c r ∧ s.recordsNotNull = false ∧
      (∀ g ∈ missing (obs.table r) (lead :: group), Plain s g.bare) ∧
      ((env.constraintTraits (filling obs r lead (lead :: group)) r).refusesValidate = false →
        ∀ column ∈ checked lead (pending (obs.table r) (lead :: group)),
          (obs.table r).constraints[nnCheck r column]? = none)

theorem addColumnsFilled_agrees {c c' : Catalog} {lead : AddColumn} {group : List AddColumn}
    {steps : List Step} (hagree : Agrees s watched obs c) (hr : watched r)
    (hnull : lead.nullable = false)
    (hplan : planAddColumnsFilled env obs r lead group = some steps)
    (hexec : s.execAll (statementsOf steps) c = some c')
    (hmir : FilledMirrored env s watched obs c r lead group) :
    Agrees s watched
      (projectFirst ⟨r, .addColumn lead⟩ steps (projectGroup r group steps obs)) c' := by
  obtain ⟨hp, hcases⟩ := planAddColumnsFilled_cases hplan
  rcases hcases with ⟨hnone, rfl | rfl⟩ | ⟨hsome, before, flags, after, rfl, hbefore, hflags, hafter⟩
  · have hgroup : projectGroup r group [.satisfied] obs = obs := by
      simp [projectGroup, Step.satisfied, Step.applies]
    rw [hgroup]
    exact satisfied_agrees hagree hexec
  · -- the trigger goes, and every column is there and flagged
    refine group_agrees hagree hr hp (by simp [Step.applying, Step.applies]) ?_ hexec ?_
    · simp [statementsOf, Step.applying, Confined]
    · intro k k' hk htk hall
      obtain rfl : k = k' := by simpa [statementsOf, Step.applying, alterAll_nil] using hall
      have hflagged : ∀ g ∈ lead :: group, k.columns g.column = some true := fun g hg =>
        (pending_or_flagged htk hg).resolve_left (by simp [hnone])
      have hentry := groupEntry_agrees htk hnull group true
      rwa [CatTable.notNulls_of_forall] at hentry
      intro c hc
      simp only [if_true, List.mem_append, List.mem_map, List.mem_singleton] at hc
      rcases hc with ⟨g, hg, rfl⟩ | rfl
      · exact hflagged g (List.mem_cons_of_mem _ hg)
      · exact hflagged lead (List.mem_cons_self ..)
  · obtain ⟨halone, hrec, hplain, hfree⟩ := hmir hsome
    have hnullable : ∀ g ∈ pending (obs.table r) (lead :: group),
        NullableIn ((filling obs r lead (lead :: group)).table r) g.column :=
      fun g hg => nullable_filling hg
    obtain ⟨hall, halters⟩ := planFilledNotNull_apply hsome hnullable hflags
    have happly : ∀ st ∈ before ++ flags ++ after, st.applies = true := by
      intro st hst
      simp only [List.mem_append] at hst
      rcases hst with (hst | hst) | hst
      · exact hbefore.apply st hst
      · exact hall.2 st hst
      · exact hafter.apply st hst
    obtain ⟨first, more, hsteps⟩ : ∃ first more, before ++ flags ++ after = first :: more :=
      List.exists_cons_of_ne_nil (by simp [hall.1])
    have hfirst : first.applies = true := happly first (by simp [hsteps])
    have hhere : ∀ stmt ∈ statementsOf (before ++ flags ++ after), Confined watched c r stmt := by
      intro stmt hstmt
      simp only [statementsOf, List.flatMap_append, List.mem_append] at hstmt
      have hcases : stmt = .other ∨ ∃ a, stmt = .alter r a := by
        rcases hstmt with (hstmt | hstmt) | hstmt
        · exact hbefore.here stmt hstmt
        · exact .inr (halters stmt hstmt)
        · exact hafter.here stmt hstmt
      rcases hcases with rfl | ⟨a, rfl⟩
      · trivial
      · exact confined_alone halone a
    rw [hsteps] at hexec hhere ⊢
    refine group_agrees hagree hr hp (by simp [hfirst]) hhere hexec fun k k' hk htk hrun => ?_
    rw [← hsteps] at hrun
    simp only [statementsOf, List.flatMap_append, alterationsOn_append, alterAll_append] at hrun
    obtain ⟨mid, ⟨grown, hadd, hflag⟩, hrest⟩ := hrun
    have hgrown : Grown k grown ((missing (obs.table r) (lead :: group)).map (·.column)) :=
      addColumns_grown hrec hplain (by rw [← hbefore.alterations]; exact hadd)
    have hconstraints : ((filling obs r lead (lead :: group)).table r).constraints =
        (obs.table r).constraints := by simp [filling]
    have hset : mid = grown.notNulls
        ((pending (obs.table r) (lead :: group)).map (·.column)) := by
      refine planFilledNotNull_notNulls hnullable hflags ?_ hrec ?_ hflag
      · rw [hconstraints, hgrown.constraints]
        exact htk.constraints
      · rw [hconstraints]
        exact hfree
    have hend : k' = mid := by
      have halterations := hafter.alterations
      simp only [statementsOf, List.map_nil] at halterations
      rw [halterations, alterAll_nil] at hrest
      exact hrest.symm
    rw [hend, hset, hgrown.notNulls fun c hc => ?_, hfirst]
    · have hentry := groupEntry_agrees htk hnull group true
      refine (CatTable.notNulls_congr (fun c hc => ?_) fun c hc => ?_) ▸ hentry
      · simp only [if_true, List.mem_append, List.mem_map, List.mem_singleton] at hc
        rcases hc with ⟨g, hg, rfl⟩ | rfl
        · exact (pending_or_flagged htk (List.mem_cons_of_mem _ hg)).imp_left
            (List.mem_map_of_mem ·)
        · exact (pending_or_flagged htk (List.mem_cons_self ..)).imp_left (List.mem_map_of_mem ·)
      · obtain ⟨g, hg, rfl⟩ := List.mem_map.mp hc
        left
        rcases List.mem_cons.mp (List.mem_filter.mp hg).1 with rfl | hmem
        · simp
        · exact List.mem_append.mpr (.inl (List.mem_map_of_mem hmem))
    · obtain ⟨g, hg, rfl⟩ := List.mem_map.mp hc
      exact List.mem_map_of_mem (missing_pending hg)

/-! ## Columns with a default -/

theorem addedPlain {group : List AddColumn} {added : List Step}
    (h : group.mapM (planAddColumnPlain obs r) = some added) :
    (∀ stmt ∈ statementsOf added, stmt = .other ∨
        (missing (obs.table r) group ≠ [] ∧ ∃ a, stmt = .alter r a)) ∧
      alterationsOn r (statementsOf added) =
        (missing (obs.table r) group).map fun g => .addColumn g.def_ := by
  induction group generalizing added with
  | nil =>
    obtain rfl : added = [] := by simpa using h.symm
    simp [statementsOf, missing]
  | cons g gs ih =>
    simp only [List.mapM_cons, Option.bind_eq_bind, Option.bind_eq_some_iff, Option.pure_def,
      Option.some.injEq] at h
    obtain ⟨step, hstep, more, hmore, rfl⟩ := h
    obtain ⟨hhere, halterations⟩ := ih hmore
    obtain ⟨-, hcases⟩ := planAddColumnPlain_cases hstep
    have hrest : missing (obs.table r) gs ≠ [] → missing (obs.table r) (g :: gs) ≠ [] := by
      intro hne
      simp only [missing, List.filter_cons] at hne ⊢
      split <;> simp [hne]
    rcases hcases with ⟨hthere, rfl⟩ | ⟨hcol, rfl⟩
    · have hsome : (obs.table r).columns[g.column]?.isNone = false := by
        simpa [Option.isNone_iff_eq_none, Option.isSome_iff_ne_none] using hthere
      refine ⟨fun stmt hstmt => ?_, ?_⟩
      · have hstmt : stmt ∈ statementsOf more := by
          simpa [statementsOf, Step.satisfied] using hstmt
        exact (hhere stmt hstmt).imp_right fun h => ⟨hrest h.1, h.2⟩
      · simpa [statementsOf, Step.satisfied, missing, hsome] using halterations
    · have hmissing : missing (obs.table r) (g :: gs) = g :: missing (obs.table r) gs := by
        simp [missing, hcol]
      refine ⟨fun stmt hstmt => ?_, ?_⟩
      · simp only [statementsOf, Step.applying, List.flatMap_cons, List.cons_append,
          List.nil_append, List.mem_cons] at hstmt
        rcases hstmt with rfl | rfl | hstmt
        · exact .inr ⟨by simp [hmissing], _, rfl⟩
        · exact .inl rfl
        · exact (hhere stmt hstmt).imp_right fun h => ⟨hrest h.1, h.2⟩
      · rw [hmissing, List.map_cons, ← halterations]
        simp [statementsOf, Step.applying]

theorem addDeclared_notNulls {group : List AddColumn} {k k' : CatTable}
    (hdeclared : ∀ g ∈ group, Declared s g.def_ ∧ g.nullable = false)
    (h : s.alterAll (group.map fun g => .addColumn g.def_) k = some k') :
    k' = k.notNulls (group.map (·.column)) := by
  induction group generalizing k with
  | nil =>
    obtain rfl : k = k' := by simpa [alterAll_nil] using h
    simp
  | cons g gs ih =>
    obtain ⟨mid, hmid, hrest⟩ := alterAll_cons.mp h
    obtain ⟨hone, hnull⟩ := hdeclared g (by simp)
    have hmid' := hone.addColumn_eq hmid
    simp only [AddColumn.def_, hnull, Bool.not_false] at hmid'
    rw [← CatTable.notNulls_singleton] at hmid'
    rw [List.map_cons, ← CatTable.notNulls_cons, ← hmid']
    exact ih (fun x hx => hdeclared x (by simp [hx])) hrest

/-- The columns that join are NOT NULL where they are there already: their steps are satisfied by a
nullable one as well. -/
def DefaultedMirrored (s : Server) (watched : Rel → Prop) (obs : Observations) (c : Catalog)
    (r : Rel) (lead : AddColumn) (group : List AddColumn) : Prop :=
  (missing (obs.table r) (lead :: group) ≠ [] → Alone watched c r) ∧
    (∀ g ∈ missing (obs.table r) (lead :: group), Declared s g.def_) ∧
    ∀ g ∈ group, ∀ col, (obs.table r).columns[g.column]? = some col → col.notNull = true

theorem planAddColumnsDefaulted_eq {lead : AddColumn} {group : List AddColumn} {steps : List Step}
    (h : planAddColumnsDefaulted env obs r lead group = some steps) :
    ∃ added, (lead :: group).mapM (planAddColumnPlain obs r) = some added ∧
      steps = added ++ [.applying [.other]] := by
  simp only [planAddColumnsDefaulted, Option.bind_eq_bind, Option.bind_eq_some_iff,
    Option.some.injEq] at h
  obtain ⟨added, hadded, walk, hwalk, rfl⟩ := h
  simp only [planDefaultedFill, Option.bind_eq_bind, Option.bind_eq_some_iff,
    Option.ite_none_right_eq_some] at hwalk
  obtain ⟨key, -, -, hwalk⟩ := hwalk
  exact ⟨added, hadded, by rw [← Option.some.inj hwalk]⟩

theorem addColumnsDefaulted_agrees {c c' : Catalog} {lead : AddColumn} {group : List AddColumn}
    {steps : List Step} (hagree : Agrees s watched obs c) (hr : watched r)
    (hnull : ∀ g ∈ lead :: group, g.nullable = false)
    (hplan : planAddColumnsDefaulted env obs r lead group = some steps)
    (hexec : s.execAll (statementsOf steps) c = some c')
    (hmir : DefaultedMirrored s watched obs c r lead group) :
    Agrees s watched
      (projectFirst ⟨r, .addColumn lead⟩ steps (projectGroup r group steps obs)) c' := by
  obtain ⟨halone, hdeclared, hflagged⟩ := hmir
  obtain ⟨added, hadded, rfl⟩ := planAddColumnsDefaulted_eq hplan
  obtain ⟨hhere, halterations⟩ := addedPlain hadded
  simp only [List.mapM_cons, Option.bind_eq_bind, Option.bind_eq_some_iff, Option.pure_def,
    Option.some.injEq] at hadded
  obtain ⟨first, hfirst, more, -, rfl⟩ := hadded
  obtain ⟨hp, hcases⟩ := planAddColumnPlain_cases hfirst
  have hleads : first.applies = ((obs.table r).columns[lead.column]?).isNone := by
    rcases hcases with ⟨hthere, rfl⟩ | ⟨hcol, rfl⟩
    · simp only [Step.satisfied, Step.applies]
      cases hcol : (obs.table r).columns[lead.column]? with
      | none => simp [hcol] at hthere
      | some col => rfl
    · simp [Step.applying, Step.applies, hcol]
  rw [List.cons_append] at hexec ⊢
  have hstatements : statementsOf (first :: (more ++ [.applying [.other]])) =
      statementsOf (first :: more) ++ [.other] := by
    simp [statementsOf, Step.applying]
  refine group_agrees hagree hr hp ?_ ?_ hexec fun k k' hk htk hrun => ?_
  · simp [Step.applying, Step.applies]
  · intro stmt hstmt
    rw [hstatements, List.mem_append] at hstmt
    rcases hstmt with hstmt | hstmt
    · rcases hhere stmt hstmt with rfl | ⟨hne, a, rfl⟩
      · trivial
      · exact confined_alone (halone hne) a
    · obtain rfl : stmt = .other := by simpa using hstmt
      trivial
  · rw [hstatements, alterationsOn_append, halterations,
      alterationsOn_others (by simp), List.append_nil] at hrun
    have hnew := addDeclared_notNulls (fun g hg =>
      ⟨hdeclared g hg, hnull g (List.mem_filter.mp hg).1⟩) hrun
    have hentry := groupEntry_agrees htk (hnull lead (by simp)) group first.applies
    rw [hnew]
    refine (CatTable.notNulls_congr (fun c hc => ?_) fun c hc => ?_) ▸ hentry
    · rcases List.mem_append.mp hc with hc | hc
      · obtain ⟨g, hg, rfl⟩ := List.mem_map.mp hc
        cases hcol : (obs.table r).columns[g.column]? with
        | none =>
          refine .inl (List.mem_map_of_mem (List.mem_filter.mpr ⟨?_, by simp [hcol]⟩))
          exact List.mem_cons_of_mem _ hg
        | some col =>
          obtain ⟨flag, hflag, heq⟩ := htk.columns.of_some hcol
          exact .inr (by rw [hflag, ← heq, hflagged g hg col hcol])
      · split at hc
        next happlies =>
          obtain rfl : c = lead.column := by simpa using hc
          refine .inl (List.mem_map_of_mem (List.mem_filter.mpr ⟨by simp, ?_⟩))
          rw [← hleads, happlies]
        · cases hc
    · obtain ⟨g, hg, rfl⟩ := List.mem_map.mp hc
      obtain ⟨hmem, hnone⟩ := List.mem_filter.mp hg
      left
      rcases List.mem_cons.mp hmem with rfl | hmem
      · rw [hleads, hnone]
        simp
      · exact List.mem_append.mpr (.inl (List.mem_map_of_mem hmem))

/-! ## An intent with the columns that join it -/

theorem filledColumnGroup_filled {lead : AddColumn} {group : List AddColumn} {rest : List Intent} :
    ∀ g ∈ filledColumnGroup r lead group rest, g.filled = true := by
  induction rest generalizing group with
  | nil => simp [filledColumnGroup]
  | cons in_ rest ih =>
    obtain ⟨q, change⟩ := in_
    cases change with
    | addColumn next =>
      simp only [filledColumnGroup]
      split
      next hjoins =>
        intro g hg
        rcases List.mem_cons.mp hg with rfl | hg
        · simp only [joinsGroup, Bool.and_eq_true] at hjoins
          exact hjoins.1.1.1.1.1.1
        · exact ih g hg
      · simp
    | _ => simp [filledColumnGroup]

theorem AddColumn.notNull_of_filled {d : AddColumn} (h : d.filled = true) : d.nullable = false :=
  d.fill_not_null fun hfill => by simp [AddColumn.filled, hfill] at h

theorem together_notNull {d : AddColumn} (hd : d.filled = true) (rest : List Intent) :
    ∀ g ∈ d :: together r d rest, g.nullable = false := by
  intro g hg
  rcases List.mem_cons.mp hg with rfl | hg
  · exact AddColumn.notNull_of_filled hd
  · simp only [together, hd, if_true] at hg
    exact AddColumn.notNull_of_filled (filledColumnGroup_filled g hg)

def AddMirrored (env : Env) (s : Server) (watched : Rel → Prop) (obs : Observations) (c : Catalog)
    (r : Rel) (d : AddColumn) (rest : List Intent) : Prop :=
  if d.filled then
    if d.defaulted then DefaultedMirrored s watched obs c r d (together r d rest)
    else FilledMirrored env s watched obs c r d (together r d rest)
  else PlainMirrored s watched obs c r d

/-- The three ways an `add_column` is planned. -/
theorem planIntent_addColumn (d : AddColumn) (rest : List Intent) :
    planIntent env obs r rest (.addColumn d) =
      if d.filled then
        if d.defaulted then planAddColumnsDefaulted env obs r d (together r d rest)
        else planAddColumnsFilled env obs r d (together r d rest)
      else (planAddColumnPlain obs r d).map fun step => [step] := by
  simp only [planIntent, planAddColumn]
  cases hfilled : d.filled with
  | false => simp [together, hfilled]
  | true =>
    cases hdefaulted : d.defaulted <;> cases htogether : together r d rest <;> simp

theorem addColumn_agrees {c c' : Catalog} {d : AddColumn} {rest : List Intent} {steps : List Step}
    (hagree : Agrees s watched obs c) (hr : watched r)
    (hplan : planIntent env obs r rest (.addColumn d) = some steps)
    (hexec : s.execAll (statementsOf steps) c = some c')
    (hmir : AddMirrored env s watched obs c r d rest) :
    Agrees s watched (projectFirst ⟨r, .addColumn d⟩ steps
      (projectGroup r (followers ⟨r, .addColumn d⟩ rest) steps obs)) c' := by
  have hfollowers : followers ⟨r, .addColumn d⟩ rest = together r d rest := rfl
  rw [hfollowers]
  rw [planIntent_addColumn] at hplan
  unfold AddMirrored at hmir
  split at hplan
  next hfilled =>
    have hnull := together_notNull (r := r) (d := d) hfilled
    rw [if_pos hfilled] at hmir
    split at hplan
    next hdefaulted =>
      rw [if_pos hdefaulted] at hmir
      exact addColumnsDefaulted_agrees hagree hr (hnull rest) hplan hexec hmir
    next hdefaulted =>
      rw [if_neg hdefaulted] at hmir
      exact addColumnsFilled_agrees hagree hr (hnull rest d (by simp)) hplan hexec hmir
  next hfilled =>
    rw [if_neg hfilled] at hmir
    obtain ⟨step, hstep, rfl⟩ := Option.map_eq_some_iff.mp hplan
    have hnone : together r d rest = [] := by simp [together, hfilled]
    have hself : projectGroup r [] [step] obs = obs := by simp [projectGroup]
    rw [hnone, hself]
    exact addColumnPlain_agrees hagree hr hstep hexec hmir

end Projection
end Laswell
