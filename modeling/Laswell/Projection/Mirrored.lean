import Laswell.Projection.Effects

/-!
# Laswell.Projection.Mirrored

Flags, what is dropped or renamed, and whole tables: when `project` says of such an intent all that
its steps do, so that the observations agree with the catalog after as they did before. One theorem
for each kind, from the plan and the statements that ran to agreement.

* `altered_agrees`: the one table is altered, and gets an entry that agrees.
* `created_agrees`: a table is new, and its entry agrees.
-/

namespace Laswell
namespace Projection

variable {s : Server} {watched : Rel → Prop} {env : Env}

/-! ## Steps that apply -/

/-- A plan whose first step applies, as all its steps do. -/
def AllApply (steps : List Step) : Prop := steps ≠ [] ∧ ∀ st ∈ steps, st.applies = true

theorem allApply_singleton (stmts : List Statement) : AllApply [.applying stmts] := by
  simp [AllApply, Step.applying, Step.applies]

theorem AllApply.append {as bs : List Step} (ha : ∀ st ∈ as, st.applies = true)
    (hb : AllApply bs) : AllApply (as ++ bs) := by
  refine ⟨by simp [hb.1], fun st hst => ?_⟩
  rcases List.mem_append.mp hst with h | h
  · exact ha st h
  · exact hb.2 st h

theorem AllApply.append_left {as bs : List Step} (ha : AllApply as)
    (hb : ∀ st ∈ bs, st.applies = true) : AllApply (as ++ bs) := by
  refine ⟨by simp [ha.1], fun st hst => ?_⟩
  rcases List.mem_append.mp hst with h | h
  · exact ha.2 st h
  · exact hb st h

theorem recipe_allApply (r : Rel) (check : String) (cs : List String) (found : ConstraintState)
    (keepCheck : Bool) : AllApply (notNullRecipe r check cs found keepCheck) := by
  refine ⟨by simp [notNullRecipe], fun st hst => ?_⟩
  simp only [notNullRecipe, List.mem_append, List.mem_singleton] at hst
  rcases hst with ((hst | hst) | rfl) | hst
  · split at hst <;> simp_all [Step.applying, Step.applies]
  · split at hst <;> simp_all [Step.applying, Step.applies]
  · rfl
  · split at hst <;> simp_all [Step.applying, Step.applies]

theorem recipe_statements {r : Rel} {check : String} {cs : List String} {found : ConstraintState}
    {keepCheck : Bool} :
    ∀ stmt ∈ statementsOf (notNullRecipe r check cs found keepCheck), ∃ a, stmt = .alter r a := by
  intro stmt hstmt
  simp only [statementsOf, notNullRecipe, List.flatMap_append, List.mem_append] at hstmt
  rcases hstmt with ((hstmt | hstmt) | hstmt) | hstmt
  · split at hstmt <;> simp_all [Step.applying]
  · split at hstmt <;> simp_all [Step.applying]
  · simp_all [Step.applying]
  · split at hstmt <;> simp_all [Step.applying]

theorem present_tables {obs : Observations} {r : Rel} (h : (obs.table r).present = true) :
    obs.tables r = some (obs.table r) := by
  cases ht : obs.tables r with
  | none => simp [Observations.table, ht] at h
  | some t => simp [Observations.table, ht]

theorem projectFirst_applying (in_ : Intent) {steps : List Step} {obs : Observations}
    {t : TableObs} (h : AllApply steps) (ht : obs.tables in_.rel = some t) :
    projectFirst in_ steps obs = projectChange in_.rel t obs in_.change := by
  obtain ⟨hne, hall⟩ := h
  cases steps with
  | nil => exact absurd rfl hne
  | cons front more =>
    have hfront := hall front (List.mem_cons_self ..)
    simp [projectFirst, project, hfront, ht]

/-- Nothing is run and nothing is projected. -/
theorem satisfied_agrees {in_ : Intent} {obs : Observations} {c c' : Catalog}
    (hagree : Agrees s watched obs c)
    (hexec : s.execAll (statementsOf [.satisfied]) c = some c') :
    Agrees s watched (projectFirst in_ [.satisfied] obs) c' := by
  have hc : c = c' := by simpa [statementsOf, Step.satisfied, Server.execAll] using hexec
  subst hc
  exact hagree

/-- The one table is altered, and `project` writes an entry for it that agrees. -/
theorem altered_agrees {in_ : Intent} {steps : List Step} {obs : Observations} {c c' : Catalog}
    (t' : TableObs) (hagree : Agrees s watched obs c) (hr : watched in_.rel)
    (hp : (obs.table in_.rel).present = true) (happly : AllApply steps)
    (hchange : projectChange in_.rel (obs.table in_.rel) obs in_.change = obs.assign in_.rel t')
    (hconf : ∀ stmt ∈ statementsOf steps, Confined watched c in_.rel stmt)
    (hexec : s.execAll (statementsOf steps) c = some c') (hp' : t'.present = true)
    (htable : ∀ k k', c.tables in_.rel = some k → TableAgrees s (obs.table in_.rel) k →
      s.alterAll (alterationsOn in_.rel (statementsOf steps)) k = some k' → TableAgrees s t' k') :
    Agrees s watched (projectFirst in_ steps obs) c' := by
  obtain ⟨k, hk, htk⟩ := (hagree in_.rel hr).of_present hp
  have haltered := execAll_confined hr hconf hk hexec
  rw [projectFirst_applying in_ happly (present_tables hp), hchange]
  refine haltered.agrees hagree (fun q hq => by simp [hq]) fun k' hk' => ?_
  simp only [Observations.table_assign, if_true]
  exact ⟨hp', htable k k' hk htk hk'⟩

theorem confined_alone {c : Catalog} {r : Rel} (h : Alone watched c r) (a : Alteration) :
    Confined watched c r (.alter r a) := ⟨.inl rfl, fun _ => h⟩

theorem confined_unwatched {c : Catalog} {r p : Rel} (h : Unwatched watched c p) (a : Alteration) :
    Confined watched c r (.alter p a) := ⟨.inr h.1, fun _ => h.2⟩

/-! ## Flags -/

def NullableIn (t : TableObs) (column : String) : Prop :=
  ∃ col, t.columns[column]? = some col ∧ col.notNull = false

/-- The recipe for the flag of a column leaves nothing beside it: the server records no constraint,
and a check that an earlier attempt left is one to be kept, or there is none and none is kept. -/
def FlagMirrored (env : Env) (s : Server) (obs : Observations) (t : TableObs) (r : Rel)
    (column : String) (keepCheck : Bool) : Prop :=
  s.recordsNotNull = false ∧ ((env.constraintTraits obs r).refusesValidate = false →
    (t.constraints[nnCheck r column]?).isSome = keepCheck)

theorem planSetNotNull_applies {obs : Observations} {r : Rel} {column : String} {keepCheck : Bool}
    {steps : List Step} (hnull : NullableIn (obs.table r) column)
    (hplan : planSetNotNull env obs r column keepCheck = some steps) :
    (obs.table r).present = true ∧ AllApply steps ∧
      ∀ stmt ∈ statementsOf steps, ∃ a, stmt = .alter r a := by
  obtain ⟨col, hcol, hflag⟩ := hnull
  unfold planSetNotNull at hplan
  simp only [hcol, hflag] at hplan
  split at hplan
  · cases hplan
  next hp =>
    refine ⟨by simpa using hp, ?_⟩
    simp only [Bool.false_eq_true, if_false] at hplan
    split at hplan
    · cases hplan
      exact ⟨allApply_singleton _, fun stmt hstmt => ⟨_, by
        simpa [statementsOf, Step.applying] using hstmt⟩⟩
    · cases hplan
      exact ⟨recipe_allApply .., recipe_statements⟩

/-- The statements of the recipe make the column NOT NULL and leave nothing else. -/
theorem planSetNotNull_notNulls {obs : Observations} {r : Rel} {column : String}
    {keepCheck : Bool} {steps : List Step} {k k' : CatTable}
    (hnull : NullableIn (obs.table r) column)
    (hplan : planSetNotNull env obs r column keepCheck = some steps)
    (hagree : ConstraintsAgree (obs.table r).constraints k.constraints)
    (hflag : FlagMirrored env s obs (obs.table r) r column keepCheck)
    (h : s.alterAll (alterationsOn r (statementsOf steps)) k = some k') :
    k' = k.notNulls [column] := by
  obtain ⟨col, hcol, hnn⟩ := hnull
  unfold planSetNotNull at hplan
  simp only [hcol, hnn] at hplan
  split at hplan
  · cases hplan
  · simp only [Bool.false_eq_true, if_false] at hplan
    split at hplan
    · cases hplan
      have hset : s.alterAll [.setNotNull [column]] k = some k' := by
        simpa [statementsOf, Step.applying] using h
      rw [alterAll_cons] at hset
      obtain ⟨mid, hmid, hrest⟩ := hset
      rw [alterAll_nil] at hrest
      subst hrest
      exact makeNotNull_all (.inl hflag.1) hmid
    next hrefuses =>
      cases hplan
      exact recipe_notNulls hagree hflag.1 (hflag.2 (by simpa using hrefuses)) h

theorem setNotNull_agrees {obs : Observations} {c c' : Catalog} {r : Rel} {column : String}
    {keepCheck : Bool} {steps : List Step} (hagree : Agrees s watched obs c) (hr : watched r)
    (hplan : planSetNotNull env obs r column keepCheck = some steps)
    (hexec : s.execAll (statementsOf steps) c = some c')
    (hmir : NullableIn (obs.table r) column → Alone watched c r ∧
      FlagMirrored env s obs (obs.table r) r column keepCheck) :
    Agrees s watched (projectFirst ⟨r, .setNotNull column keepCheck⟩ steps obs) c' := by
  by_cases hnull : NullableIn (obs.table r) column
  · obtain ⟨halone, hflag⟩ := hmir hnull
    obtain ⟨hp, happly, hstmts⟩ := planSetNotNull_applies hnull hplan
    obtain ⟨col, hcol, -⟩ := id hnull
    refine altered_agrees { obs.table r with
      columns := flagged (obs.table r).columns column true } hagree hr hp happly ?_ ?_ hexec hp ?_
    · have hthere : (obs.table r).columns.contains column = true := by
        simp [Std.TreeMap.contains_eq_isSome_getElem?, hcol]
      simp [projectChange, hthere]
    · intro stmt hstmt
      obtain ⟨a, rfl⟩ := hstmts stmt hstmt
      exact confined_alone halone a
    · intro k k' hk htk hall
      rw [planSetNotNull_notNulls hnull hplan htk.constraints hflag hall, k.notNulls_singleton]
      exact htk.flagged column true
  · have hsteps : steps = [.satisfied] := by
      simp only [planSetNotNull] at hplan
      split at hplan
      · cases hplan
      · split at hplan
        · cases hplan
        next col hcol =>
          split at hplan
          · exact (Option.some.inj hplan).symm
          next hflag => exact absurd ⟨col, hcol, by simpa using hflag⟩ hnull
    subst hsteps
    exact satisfied_agrees hagree hexec

theorem dropNotNull_agrees {obs : Observations} {c c' : Catalog} {r : Rel} {column : String}
    {steps : List Step} (hagree : Agrees s watched obs c) (hr : watched r)
    (hplan : planDropNotNull obs r column = some steps)
    (hexec : s.execAll (statementsOf steps) c = some c')
    (hmir : (∃ col, (obs.table r).columns[column]? = some col ∧ col.notNull = true) →
      Alone watched c r ∧ s.recordsNotNull = false) :
    Agrees s watched (projectFirst ⟨r, .dropNotNull column⟩ steps obs) c' := by
  simp only [planDropNotNull] at hplan
  split at hplan
  · cases hplan
  next hp =>
    split at hplan
    · cases hplan
    next col hcol =>
      split at hplan
      · cases hplan
        exact satisfied_agrees hagree hexec
      next hflag =>
        cases hplan
        obtain ⟨halone, hrec⟩ := hmir ⟨col, hcol, by simpa using hflag⟩
        refine altered_agrees { obs.table r with
          columns := flagged (obs.table r).columns column false } hagree hr (by simpa using hp)
          (allApply_singleton _) rfl ?_ hexec (by simpa using hp) ?_
        · simpa [statementsOf, Step.applying] using confined_alone halone _
        · intro k k' hk htk hall
          simp only [statementsOf, Step.applying, List.flatMap_cons, List.flatMap_nil,
            List.append_nil, alterationsOn_self, alterationsOn_nil, alterAll_cons, alterAll_nil,
            Server.alter] at hall
          obtain ⟨mid, hmid, rfl⟩ := hall
          rw [dropNotNull_eq hrec hmid]
          exact htk.flagged column false

/-! ## One alteration -/

/-- A step of one statement, which alters the table. -/
theorem single_agrees {in_ : Intent} {obs : Observations} {c c' : Catalog} {a : Alteration}
    (t' : TableObs) (hagree : Agrees s watched obs c) (hr : watched in_.rel)
    (hp : (obs.table in_.rel).present = true) (hp' : t'.present = true)
    (hconf : a.reaches (c.inParts in_.rel) = true → Alone watched c in_.rel)
    (hchange : projectChange in_.rel (obs.table in_.rel) obs in_.change = obs.assign in_.rel t')
    (hexec : s.execAll (statementsOf [.applying [.alter in_.rel a]]) c = some c')
    (htable : ∀ k k', c.tables in_.rel = some k → TableAgrees s (obs.table in_.rel) k →
      s.alter a k = some k' → TableAgrees s t' k') :
    Agrees s watched (projectFirst in_ [.applying [.alter in_.rel a]] obs) c' := by
  refine altered_agrees t' hagree hr hp (allApply_singleton _) hchange ?_ hexec hp' ?_
  · intro stmt hstmt
    have hself : stmt = .alter in_.rel a := by
      simpa [statementsOf, Step.applying] using hstmt
    subst hself
    exact ⟨.inl rfl, hconf⟩
  · intro k k' hk htk hall
    have hone : s.alterAll [a] k = some k' := by
      simpa [statementsOf, Step.applying] using hall
    obtain ⟨mid, hmid, hrest⟩ := alterAll_cons.mp hone
    rw [alterAll_nil] at hrest
    subst hrest
    exact htable k mid hk htk hmid

theorem dropColumn_agrees {obs : Observations} {c c' : Catalog} {r : Rel} {column : String}
    {steps : List Step} (hagree : Agrees s watched obs c) (hr : watched r)
    (hplan : planDropColumn obs r column = some steps)
    (hexec : s.execAll (statementsOf steps) c = some c')
    (hmir : ((obs.table r).columns[column]?).isSome → Alone watched c r ∧
      ∀ k, c.tables r = some k → Unused k column) :
    Agrees s watched (projectFirst ⟨r, .dropColumn column⟩ steps obs) c' := by
  simp only [planDropColumn] at hplan
  split at hplan
  · cases hplan
  next hp =>
    split at hplan
    next hcol =>
      cases hplan
      exact satisfied_agrees hagree hexec
    next col hcol =>
      split at hplan
      · cases hplan
      · cases hplan
        obtain ⟨halone, hunused⟩ := hmir (by simp [hcol])
        refine single_agrees { obs.table r with columns := (obs.table r).columns.erase column } hagree hr
          (by simpa using hp)
          (by simpa using hp) (fun _ => halone) rfl hexec fun k k' hk htk halter => ?_
        exact htk.dropColumn (hunused k hk) halter

theorem dropConstraint_agrees {obs : Observations} {c c' : Catalog} {r : Rel} {name : String}
    {steps : List Step} (hagree : Agrees s watched obs c) (hr : watched r)
    (hplan : planDropConstraint obs r name = some steps)
    (hexec : s.execAll (statementsOf steps) c = some c')
    (hmir : ((obs.table r).constraints[name]?).isSome → Alone watched c r ∧
      ∀ k x, c.tables r = some k → k.constraints name = some x →
        x.index = none ∧ x.type ≠ .notNull) :
    Agrees s watched (projectFirst ⟨r, .dropConstraint name⟩ steps obs) c' := by
  simp only [planDropConstraint] at hplan
  split at hplan
  · cases hplan
  next hp =>
    split at hplan
    · cases hplan
      exact satisfied_agrees hagree hexec
    next x hx =>
      split at hplan
      · cases hplan
      · cases hplan
        obtain ⟨halone, hbare⟩ := hmir (by simp [hx])
        refine single_agrees { obs.table r with constraints := (obs.table r).constraints.erase name } hagree hr
          (by simpa using hp)
          (by simpa using hp) (fun _ => halone) rfl hexec fun k k' hk htk halter => ?_
        exact htk.dropConstraint (fun y hy => hbare k y hk hy) halter

theorem dropIndex_agrees {obs : Observations} {c c' : Catalog} {r : Rel} {name : String}
    {steps : List Step} (hagree : Agrees s watched obs c) (hr : watched r)
    (hplan : planDropIndex obs r name = some steps)
    (hexec : s.execAll (statementsOf steps) c = some c')
    (hmir : ((obs.table r).indexes[name]?).isSome → AloneInParts watched c r) :
    Agrees s watched (projectFirst ⟨r, .dropIndex name⟩ steps obs) c' := by
  simp only [planDropIndex] at hplan
  split at hplan
  · cases hplan
  next hp =>
    split at hplan
    · cases hplan
      exact satisfied_agrees hagree hexec
    next ix hix =>
      split at hplan
      · cases hplan
      · cases hplan
        refine single_agrees { obs.table r with indexes := (obs.table r).indexes.erase name } hagree hr
          (by simpa using hp)
          (by simpa using hp) (hmir (by simp [hix])) rfl hexec fun k k' hk htk halter => ?_
        exact htk.dropIndex halter

/-- A rename is done already, or it is one alteration of what is there. -/
theorem planRenameMember_cases {α : Type} {obs : Observations} {r : Rel} {members : Object α}
    {name newName : String} {a : Alteration} {steps : List Step}
    (h : planRenameMember obs r members name newName a = some steps) :
    (obs.table r).present = true ∧ (steps = [.satisfied] ∨
      ((members[name]?).isSome ∧ steps = [.applying [.alter r a]])) := by
  simp only [planRenameMember] at h
  split at h
  · cases h
  next hp =>
    refine ⟨by simpa using hp, ?_⟩
    split at h
    · exact .inl (Option.some.inj h).symm
    · split at h
      · cases h
      next hthere =>
        split at h
        · cases h
        · refine .inr ⟨?_, (Option.some.inj h).symm⟩
          simpa using hthere

theorem renameColumn_agrees {obs : Observations} {c c' : Catalog} {r : Rel}
    {column newName : String} {steps : List Step} (hagree : Agrees s watched obs c)
    (hr : watched r) (hplan : planRenameColumn obs r column newName = some steps)
    (hexec : s.execAll (statementsOf steps) c = some c')
    (hmir : ((obs.table r).columns[column]?).isSome → Alone watched c r ∧
      ∀ k, c.tables r = some k → UnreadInIndexes k column) :
    Agrees s watched (projectFirst ⟨r, .renameColumn column newName⟩ steps obs) c' := by
  obtain ⟨hp, hcases⟩ := planRenameMember_cases hplan
  rcases hcases with rfl | ⟨hthere, rfl⟩
  · exact satisfied_agrees hagree hexec
  · obtain ⟨halone, hunread⟩ := hmir hthere
    refine single_agrees { obs.table r with
      columns := renameMember (obs.table r).columns column newName }
      hagree hr hp hp (fun _ => halone) rfl
      hexec fun k k' hk htk halter => ?_
    exact htk.renameColumn (hunread k hk) halter

theorem renameConstraint_agrees {obs : Observations} {c c' : Catalog} {r : Rel}
    {name newName : String} {steps : List Step} (hagree : Agrees s watched obs c)
    (hr : watched r) (hplan : planRenameConstraint obs r name newName = some steps)
    (hexec : s.execAll (statementsOf steps) c = some c')
    (hmir : ((obs.table r).constraints[name]?).isSome → Alone watched c r ∧
      ∀ k x, c.tables r = some k → k.constraints name = some x → x.index = none) :
    Agrees s watched (projectFirst ⟨r, .renameConstraint name newName⟩ steps obs) c' := by
  obtain ⟨hp, hcases⟩ := planRenameMember_cases hplan
  rcases hcases with rfl | ⟨hthere, rfl⟩
  · exact satisfied_agrees hagree hexec
  · obtain ⟨halone, hbare⟩ := hmir hthere
    refine single_agrees { obs.table r with
      constraints := renameMember (obs.table r).constraints name newName }
      hagree hr hp hp (fun _ => halone)
      rfl hexec fun k k' hk htk halter => ?_
    exact htk.renameConstraint (fun x hx => hbare k x hk hx) halter

/-! ## Whole tables -/

theorem dropTable_agrees {obs : Observations} {c c' : Catalog} {r : Rel} {steps : List Step}
    (hagree : Agrees s watched obs c) (hplan : planDropTable obs r = some steps)
    (hexec : s.execAll (statementsOf steps) c = some c')
    (hmir : (obs.table r).present = true → Alone watched c r) :
    Agrees s watched (projectFirst ⟨r, .dropTable⟩ steps obs) c' := by
  simp only [planDropTable] at hplan
  split at hplan
  · cases hplan
    exact satisfied_agrees hagree hexec
  next hp =>
    split at hplan
    · cases hplan
    · cases hplan
      have hpresent : (obs.table r).present = true := by simpa using hp
      have halone := hmir hpresent
      have hone : s.exec (.dropTable r) c = some c' := by
        simpa [statementsOf, Step.applying, Server.execAll] using hexec
      simp only [Server.exec, Option.map_eq_some_iff] at hone
      obtain ⟨k, -, rfl⟩ := hone
      have hproject := projectFirst_applying ⟨r, .dropTable⟩
        (allApply_singleton [.dropTable r]) (present_tables hpresent)
      rw [hproject]
      intro q hq
      by_cases hqr : q = r
      · subst hqr
        simp [projectChange, EntryAgrees]
      · simpa [projectChange, hqr, halone q hq] using hagree q hq

theorem renameTable_agrees {obs : Observations} {c c' : Catalog} {r : Rel} {newName : String}
    {steps : List Step} (hagree : Agrees s watched obs c) (hr : watched r)
    (hplan : planRenameTable obs r newName = some steps)
    (hexec : s.execAll (statementsOf steps) c = some c') :
    Agrees s watched (projectFirst ⟨r, .renameTable newName⟩ steps obs) c' := by
  simp only [planRenameTable] at hplan
  split at hplan
  · cases hplan
  next hp =>
    split at hplan
    · cases hplan
      exact satisfied_agrees hagree hexec
    next hname =>
      cases hplan
      have hpresent : (obs.table r).present = true := by simpa using hp
      have hone : s.exec (.renameTable r newName) c = some c' := by
        simpa [statementsOf, Step.applying, Server.execAll] using hexec
      simp only [Server.exec] at hone
      split at hone
      · cases hone
      · simp only [Option.map_eq_some_iff] at hone
        obtain ⟨k, hk, rfl⟩ := hone
        have hproject := projectFirst_applying ⟨r, .renameTable newName⟩
          (allApply_singleton [.renameTable r newName]) (present_tables hpresent)
        rw [hproject]
        have hne : ({ r with name := newName } : Rel) ≠ r := fun e =>
          hname (congrArg Rel.name e).symm
        intro q hq
        by_cases hqr : q = r
        · subst hqr
          simp [projectChange, Observations.table, EntryAgrees, hne.symm]
        · by_cases hnew : q = { r with name := newName }
          · have hold := hagree r hr
            rw [hk] at hold
            subst hnew
            simpa [projectChange, Observations.table, hqr, Function.update_apply] using hold
          · have hold := hagree q hq
            simpa [projectChange, Observations.table, hqr, hnew] using hold

/-- What is declared of the columns of a new table is all that comes of them. -/
def Declared (s : Server) (d : ColumnDef) : Prop :=
  Plain s d ∧ ((s.clause d).notNull = true → d.nullable = false) ∧
    (s.recordsNotNull = true → d.nullable = true)

theorem Declared.flag {d : ColumnDef} (h : Declared s d) :
    (!d.nullable || (s.clause d).notNull) = !d.nullable := by
  cases hclause : (s.clause d).notNull with
  | false => simp
  | true => simp [h.2.1 hclause]

theorem Declared.addColumn_eq {d : ColumnDef} {k k' : CatTable} (h : Declared s d)
    (hadd : s.addColumn d k = some k') : k' = k.withColumn d.name !d.nullable := by
  rw [← h.flag]
  refine Projection.addColumn_eq h.1 (fun hon => ?_) hadd
  have hnull := h.2.2 hon
  refine ⟨hnull, ?_⟩
  cases hclause : (s.clause d).notNull with
  | false => rfl
  | true => exact absurd ((h.2.1 hclause).symm.trans hnull) (by decide)

theorem newTable_agrees {columns : List ColumnDef} {t : TableObs} {k k' : CatTable}
    (hagree : TableAgrees s t k) (hdeclared : ∀ d ∈ columns, Declared s d)
    (h : columns.foldlM (fun k d => s.addColumn d k) k = some k') :
    TableAgrees s { t with columns := columns.foldl (fun cols d =>
      cols.insert d.name { type := d.type, notNull := !d.nullable }) t.columns } k' := by
  induction columns generalizing t k with
  | nil =>
    have hk : k = k' := by simpa using h
    subst hk
    exact hagree
  | cons d ds ih =>
    simp only [List.foldlM_cons, Option.bind_eq_bind, Option.bind_eq_some_iff] at h
    obtain ⟨mid, hmid, hrest⟩ := h
    obtain rfl := (hdeclared d (List.mem_cons_self ..)).addColumn_eq hmid
    exact ih (hagree.withColumn d.name d.type !d.nullable)
      (fun x hx => hdeclared x (List.mem_cons_of_mem _ hx)) hrest

theorem execAll_others {stmts : List Statement} (h : ∀ st ∈ stmts, st = .other) (c : Catalog) :
    s.execAll stmts c = some c := by
  induction stmts with
  | nil => rfl
  | cons st sts ih =>
    obtain rfl := h st (List.mem_cons_self ..)
    exact execAll_cons.mpr ⟨c, rfl, ih fun x hx => h x (List.mem_cons_of_mem _ hx)⟩

/-- A table is projected where its name is still among the observations. -/
theorem created_agrees {in_ : Intent} {obs obs' : Observations} {c c' : Catalog}
    {stmt : Statement} {stmts : List Statement} {k : CatTable} (hagree : Agrees s watched obs c)
    (hcontained : ∃ t, obs.tables in_.rel = some t ∧
      projectChange in_.rel t obs in_.change = obs')
    (hothers : ∀ st ∈ stmts, st = .other)
    (hexec : s.execAll (statementsOf [.applying (stmt :: stmts)]) c = some c')
    (hone : ∀ mid, s.exec stmt c = some mid → ∀ q, watched q →
      mid.tables q = if q = in_.rel then some k else c.tables q)
    (hentry : EntryAgrees s (obs'.table in_.rel) (some k))
    (hkept : ∀ q, watched q → q ≠ in_.rel →
      EntryAgrees s (obs.table q) (c.tables q) → EntryAgrees s (obs'.table q) (c.tables q)) :
    Agrees s watched (projectFirst in_ [.applying (stmt :: stmts)] obs) c' := by
  obtain ⟨t, ht, rfl⟩ := hcontained
  rw [projectFirst_applying in_ (allApply_singleton _) ht]
  obtain ⟨mid, hmid, hrest⟩ := execAll_cons.mp (by
    simpa [statementsOf, Step.applying] using hexec)
  obtain rfl : mid = c' := Option.some.inj ((execAll_others hothers mid).symm.trans hrest)
  intro q hq
  rw [hone mid hmid q hq]
  by_cases hqr : q = in_.rel
  · subst hqr
    simpa using hentry
  · simpa [hqr] using hkept q hq hqr (hagree q hq)

theorem present_newEntry (columns : Object ColumnObs) (partitionBy : Option String) :
    (newEntry columns partitionBy).present = true := rfl

theorem createTable_agrees {obs : Observations} {c c' : Catalog} {r : Rel} {d : TableDef}
    {steps : List Step} (hagree : Agrees s watched obs c)
    (hplan : planCreateTable obs r d = some steps)
    (hexec : s.execAll (statementsOf steps) c = some c')
    (hmir : (obs.table r).present = false → (obs.tables r).isSome ∧ d.primaryKey = none ∧
      ∀ column ∈ d.columns, Declared s column) :
    Agrees s watched (projectFirst ⟨r, .createTable d⟩ steps obs) c' := by
  simp only [planCreateTable] at hplan
  split at hplan
  · cases hplan
    exact satisfied_agrees hagree hexec
  next hp =>
    obtain ⟨hthere, hkey, hdeclared⟩ := hmir (by simpa using hp)
    obtain ⟨t, ht⟩ := Option.isSome_iff_exists.mp hthere
    split at hplan
    · cases hplan
    · cases hplan
      -- the table the statement makes, from the run
      obtain ⟨mid, hmid, -⟩ := execAll_cons.mp (by
        simpa [statementsOf, Step.applying] using hexec)
      simp only [Server.exec] at hmid
      split at hmid
      · cases hmid
      next hnone =>
        simp only [Option.map_eq_some_iff, Server.newTable, hkey, Option.bind_eq_bind,
          Option.bind_eq_some_iff, Option.some.injEq] at hmid
        obtain ⟨k', ⟨k, hk, rfl⟩, -⟩ := hmid
        have hnew : TableAgrees s (newEntry (declaredColumns d.columns) d.partitionBy) k :=
          @newTable_agrees s d.columns (newEntry ∅ d.partitionBy) {} k
            ⟨.empty, .empty, .empty⟩ hdeclared hk
        refine created_agrees (k := k) hagree ⟨t, ht, rfl⟩ (by simp) hexec ?_ ?_ ?_
        · intro mid hmid q hq
          simp only [Server.exec, hnone, Bool.false_eq_true, if_false, Option.map_eq_some_iff,
            Server.newTable, hkey, hk, Option.bind_eq_bind, Option.bind_some,
            Option.some.injEq] at hmid
          obtain ⟨_, rfl, rfl⟩ := hmid
          simp [Function.update_apply]
        · simpa [projectChange, hkey] using ⟨present_newEntry _ _, hnew⟩
        · intro q hq hqr hold
          simpa [projectChange, hqr] using hold

/-- The parent's entry is as before, as far as agreement goes. -/
theorem EntryAgrees.withPartition {p : TableObs} {k : Option CatTable} (h : EntryAgrees s p k)
    (r : Rel) (bound : Bound) : EntryAgrees s (Projection.withPartition p r bound) k := by
  cases k with
  | none => exact h
  | some k => exact ⟨h.1, h.2.columns, h.2.indexes, h.2.constraints⟩

theorem createPartition_agrees {obs : Observations} {c c' : Catalog} {r : Rel} {d : PartitionDef}
    {steps : List Step} (hagree : Agrees s watched obs c) (hparent : watched d.parent)
    (hplan : planCreatePartition obs r d = some steps)
    (hexec : s.execAll (statementsOf steps) c = some c')
    (hmir : (obs.table r).present = false → (obs.tables r).isSome ∧
      ∀ k n, c.tables d.parent = some k → (s.newPartition r k).indexes n = none ∧
        (s.newPartition r k).constraints n = none) :
    Agrees s watched (projectFirst ⟨r, .createPartition d⟩ steps obs) c' := by
  simp only [planCreatePartition] at hplan
  split at hplan
  · split at hplan
    · cases hplan
      exact satisfied_agrees hagree hexec
    · cases hplan
  next hp =>
    have habsent : (obs.table r).present = false := by simpa using hp
    obtain ⟨hthere, hbare⟩ := hmir habsent
    obtain ⟨t, ht⟩ := Option.isSome_iff_exists.mp hthere
    split at hplan
    · cases hplan
    next hpp =>
      have hpresent : (obs.table d.parent).present = true := by simpa using hpp
      obtain rfl : steps = [.applying [.createPartition r d, .other]] := by
        repeat' split at hplan
        all_goals first | exact (Option.some.inj hplan).symm | cases hplan
      have hne : r ≠ d.parent := fun e => by simp [e, hpresent] at habsent
      have hp := present_tables hpresent
      obtain ⟨k, hk, htk⟩ := (hagree d.parent hparent).of_present hpresent
      have hnew : TableAgrees s (newEntry (obs.table d.parent).columns d.partitionBy)
          (s.newPartition r k) := by
        refine ⟨htk.columns, fun n => ?_, fun n => ?_⟩
        · rw [(hbare k n hk).1]
          exact Covers.empty n
        · rw [(hbare k n hk).2]
          exact Covers.empty n
      refine created_agrees (k := s.newPartition r k) hagree ⟨t, ht, rfl⟩ (by simp) hexec ?_ ?_ ?_
      · intro mid hmid q hq
        simp only [Server.exec] at hmid
        split at hmid
        · cases hmid
        · simp only [hk, Option.map_some, Option.some.injEq] at hmid
          subst hmid
          simp [Function.update_apply]
      · simpa [projectChange, hp] using ⟨present_newEntry _ _, hnew⟩
      · intro q hq hqr hold
        by_cases hqp : q = d.parent
        · subst hqp
          simpa [projectChange, hp, hqr] using hold.withPartition r d.bound
        · simpa [projectChange, hp, hqr, hqp] using hold

end Projection
end Laswell
