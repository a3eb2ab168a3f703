import Laswell.Projection.Run

/-!
# Laswell.Projection.Satisfied

What `satisfied` says of an intent: that the catalog is as the intent asks. It is said on the
strength of the observations alone, so it is right of the catalog where the two agree.

* `Holds`: for each kind, what the intent asks of the catalog.
* `satisfied_holds`: an intent that is planned as satisfied is, in the catalog its predecessors leave.
-/

namespace Laswell
namespace Projection

variable {s : Server} {watched : Rel → Prop} {env : Env}

/-- An index is there under the name, or under another one with the same columns. -/
def IndexHolds (k : CatTable) (d : CreateIndex) : Prop :=
  (k.indexes d.name).isSome ∨
    ∃ n i, k.indexes n = some i ∧ i.keyColumns = d.names ∧ i.unique = d.unique

def TableHolds (k : CatTable) : Change → Prop
  | .addColumn d => ∃ flag, k.columns d.column = some flag ∧
      (d.nullable = true → flag = false) ∧ (d.filled = true → flag = true)
  | .dropColumn column => k.columns column = none
  | .renameColumn column newName => k.columns column = none ∧ (k.columns newName).isSome
  | .setNotNull column _ => k.columns column = some true
  | .dropNotNull column => k.columns column = some false
  | .createIndex d => IndexHolds k d
  | .dropIndex name => k.indexes name = none
  | .addKey key => ∃ x, k.constraints key.name = some x ∧ x.type = key.type
  | .dropConstraint name => k.constraints name = none
  | .renameConstraint name newName => k.constraints name = none ∧ (k.constraints newName).isSome
  | _ => True

def Holds (c : Catalog) (r : Rel) : Change → Prop
  | .dropTable => c.tables r = none
  | .renameTable newName => (c.tables r).isSome ∧ newName = r.name
  | change => ∃ k, c.tables r = some k ∧ TableHolds k change

theorem not_satisfied {steps : List Step} (h : AllApply steps) : steps ≠ [.satisfied] := by
  rintro rfl
  have happly := h.2 .satisfied (by simp)
  simp [Step.satisfied, Step.applies] at happly

theorem createIndex_satisfied {obs : Observations} {r : Rel} {d : CreateIndex} {k : CatTable}
    (hagree : TableAgrees s (obs.table r) k)
    (hplan : planCreateIndex env obs r d = some [.satisfied]) : IndexHolds k d := by
  have hnew : ∀ rebuild, planNewIndex env obs r d rebuild = some [.satisfied] →
      IndexHolds k d := by
    intro rebuild hplan
    cases hfound : firstEquivalent (obs.table r) d with
    | none =>
      rcases planNewIndex_within (.inl hfound) hplan with ⟨-, found, hsome⟩ | ⟨happly, -⟩
      · rw [hfound] at hsome
        cases hsome
      · exact absurd rfl (not_satisfied happly)
    | some found =>
      obtain ⟨other, ex⟩ := found
      have hequiv := List.find?_some hfound
      have hthere := Std.TreeMap.mem_toList_iff_getElem?_eq_some.mp
        (List.mem_of_find?_eq_some hfound)
      obtain ⟨i, hi, hreads⟩ := hagree.indexes.of_some hthere
      simp only [equivalent, Bool.and_eq_true, beq_iff_eq] at hequiv
      refine .inr ⟨other, i, hi, ?_, ?_⟩
      · rw [← hreads.keyColumns]
        exact hequiv.2.1.1.1.1.1.1.2
      · rw [← hreads.unique]
        exact hequiv.2.1.2
  simp only [planCreateIndex] at hplan
  split at hplan
  · cases hplan
  · split at hplan
    · exact hnew false hplan
    next ex hindex =>
      split at hplan
      · exact hnew true hplan
      · obtain ⟨i, hi, -⟩ := hagree.indexes.of_some hindex
        exact .inl (by rw [hi]; rfl)

theorem addColumn_satisfied {obs : Observations} {r : Rel} {d : AddColumn} {rest : List Intent}
    {k : CatTable} (hagree : TableAgrees s (obs.table r) k)
    (hplan : planIntent env obs r rest (.addColumn d) = some [.satisfied]) :
    TableHolds k (.addColumn d) := by
  have hfilled : ∀ group, planAddColumnsFilled env obs r d group = some [.satisfied] →
      d.nullable = false → TableHolds k (.addColumn d) := by
    intro group hplan hnull
    obtain ⟨-, hcases⟩ := planAddColumnsFilled_cases hplan
    rcases hcases with ⟨hnone, -⟩ | ⟨hsome, before, flags, after, heq, -, hflags, -⟩
    · have hflagged := (pending_or_flagged hagree (List.mem_cons_self (a := d) (l := group))).resolve_left
        (by simp [hnone])
      exact ⟨true, hflagged, by simp [hnull], fun _ => rfl⟩
    · have hall := (planFilledNotNull_apply hsome (fun g hg => nullable_filling hg) hflags).1
      obtain ⟨first, hfirst⟩ := List.exists_mem_of_ne_nil _ hall.1
      have hmem : first ∈ [Step.satisfied] := by
        rw [heq]
        simp [hfirst]
      obtain rfl : first = .satisfied := by simpa using hmem
      exact absurd (hall.2 _ hfirst) (by simp [Step.satisfied, Step.applies])
  have hdefaulted : ∀ group, planAddColumnsDefaulted env obs r d group ≠ some [.satisfied] := by
    intro group hplan
    obtain ⟨added, -, heq⟩ := planAddColumnsDefaulted_eq hplan
    have hmem : Step.applying [.other] ∈ [Step.satisfied] := by
      rw [heq]
      simp
    simp [Step.applying, Step.satisfied] at hmem
  rw [planIntent_addColumn] at hplan
  split at hplan
  next hfill =>
    split at hplan
    · exact absurd hplan (hdefaulted _)
    · exact hfilled _ hplan (AddColumn.notNull_of_filled hfill)
  next hfill =>
    obtain ⟨step, hstep, heq⟩ := Option.map_eq_some_iff.mp hplan
    obtain rfl : step = .satisfied := by simpa using heq
    simp only [planAddColumnPlain] at hstep
    split at hstep
    · cases hstep
    · split at hstep
      next existing hcol =>
        split at hstep
        · cases hstep
        · split at hstep
          · cases hstep
          next hnull =>
            obtain ⟨flag, hflag, heq⟩ := hagree.columns.of_some hcol
            refine ⟨flag, hflag, fun hd => ?_, fun hd => absurd hd hfill⟩
            rw [← heq]
            simpa [hd] using hnull
      · split at hstep
        · cases hstep
        · simp [Step.applying, Step.satisfied] at hstep

theorem keyOnPartitions_apply {r : Rel} {t : TableObs} {k : AddKey} {steps : List Step}
    (h : planKeyOnPartitions r t k = some steps) : ∀ st ∈ steps, st.applies = true := by
  simp only [planKeyOnPartitions, Option.ite_none_left_eq_some] at h
  obtain ⟨-, -, h⟩ := h
  by_cases hparts : t.partitionParts.isEmpty = true
  · rw [if_pos hparts] at h
    cases h
    simp [Step.applying, Step.applies]
  · rw [if_neg hparts] at h
    obtain rfl := Option.some.inj h
    intro st hst
    simp only [List.mem_append, List.mem_singleton, List.mem_flatMap] at hst
    rcases hst with (hst | ⟨p, -, hst⟩) | rfl
    · split at hst
      · cases hst
      · obtain rfl := List.mem_singleton.mp hst
        rfl
    · exact (keyOnPart_elsewhere k p st hst).1
    · rfl

theorem ordinaryKey_apply {obs : Observations} {r : Rel} {k : AddKey} :
    ∀ st ∈ planOrdinaryKey env obs r k, st.applies = true := by
  unfold planOrdinaryKey
  dsimp only
  split
  · simp [Step.applying, Step.applies]
  · split <;> simp [Step.applying, Step.applies]

theorem addKey_satisfied {obs : Observations} {r : Rel} {key : AddKey} {k : CatTable}
    (hagree : TableAgrees s (obs.table r) k)
    (hplan : planUniqueLike env obs r key = some [.satisfied]) :
    TableHolds k (.addKey key) := by
  simp only [planUniqueLike, Option.ite_none_left_eq_some] at hplan
  obtain ⟨-, hthere, hplan⟩ := hplan
  split at hplan
  · split at hplan
    next htype =>
      obtain ⟨x, hx, htype⟩ := Option.map_eq_some_iff.mp htype
      obtain ⟨y, hy, heq⟩ := hagree.constraints.of_some hx
      exact ⟨y, hy, heq.symm.trans htype⟩
    · cases hplan
  · -- what is built applies, and so do the recipes before it
    simp only [Option.ite_none_left_eq_some, Option.bind_eq_bind, Option.bind_eq_some_iff] at hplan
    obtain ⟨-, flags, hplans, hplan⟩ := hplan
    have hnull : ∀ column ∈ nullableKeyColumns (obs.table r) key,
        NullableIn (obs.table r) column := by
      intro column hmem
      unfold nullableKeyColumns at hmem
      split at hmem
      · obtain ⟨hin, hflag⟩ := List.mem_filter.mp hmem
        cases hcol : (obs.table r).columns[column]? with
        | none => exact absurd (List.any_eq_true.mpr ⟨column, hin, by simp [hcol]⟩) hthere
        | some col => exact ⟨col, hcol, by simpa [hcol] using hflag⟩
      · cases hmem
    have hflags := (flags_apply hnull hplans).1
    have hbuild : ∃ build, [Step.satisfied] = flags.flatten ++ build ∧
        ∀ st ∈ build, st.applies = true := by
      split at hplan
      · obtain ⟨build, hbuild, h⟩ := Option.bind_eq_some_iff.mp hplan
        refine ⟨build, (Option.some.inj h).symm, ?_⟩
        simp only [planPeriodKey, Option.ite_none_left_eq_some] at hbuild
        obtain ⟨-, -, hbuild⟩ := hbuild
        split at hbuild
        · exact keyOnPartitions_apply hbuild
        · cases hbuild
          simp [Step.applying, Step.applies]
      · split at hplan
        · obtain ⟨build, hbuild, h⟩ := Option.bind_eq_some_iff.mp hplan
          exact ⟨build, (Option.some.inj h).symm, keyOnPartitions_apply hbuild⟩
        · exact ⟨_, (Option.some.inj hplan).symm, ordinaryKey_apply⟩
    obtain ⟨build, heq, happly⟩ := hbuild
    have hmem : Step.satisfied ∈ flags.flatten ++ build := by
      rw [← heq]
      exact List.mem_singleton_self _
    have hself : Step.satisfied.applies = true :=
      (List.mem_append.mp hmem).elim (hflags _) (happly _)
    simp [Step.satisfied, Step.applies] at hself

theorem renameMember_satisfied {α β : Type} {R : α → β → Prop} {obs : Observations} {r : Rel}
    {members : Object α} {f : String → Option β} {name newName : String} {a : Alteration}
    (hagree : Covers R members f)
    (hplan : planRenameMember obs r members name newName a = some [.satisfied]) :
    f name = none ∧ (f newName).isSome := by
  simp only [planRenameMember, Option.ite_none_left_eq_some] at hplan
  obtain ⟨-, hplan⟩ := hplan
  split at hplan
  next hthere =>
    simp only [Bool.and_eq_true, Bool.not_eq_true', Std.TreeMap.contains_eq_isSome_getElem?,
      Option.isSome_eq_false_iff, Option.isNone_iff_eq_none] at hthere
    refine ⟨(hagree.none_iff name).mp hthere.2, ?_⟩
    rw [Option.isSome_iff_ne_none]
    intro hnone
    rw [(hagree.none_iff newName).mpr hnone] at hthere
    simp at hthere
  · simp [Step.applying, Step.satisfied] at hplan

/-- A plan of any kind but two is one of a table that is there. -/
theorem present_of_satisfied {obs : Observations} {r : Rel} {rest : List Intent} {change : Change}
    (hplan : planIntent env obs r rest change = some [.satisfied]) (hdrop : change ≠ .dropTable) :
    (obs.table r).present = true := by
  by_contra habsent
  have hp : (obs.table r).present = false := by simpa using habsent
  cases change with
  | createTable d => simp [planIntent, planCreateTable, hp, Step.applying, Step.satisfied] at hplan
  | createPartition d =>
    simp only [planIntent, planCreatePartition, hp, Bool.false_eq_true, if_false,
      Option.ite_none_left_eq_some] at hplan
    simp [Step.applying, Step.satisfied] at hplan
  | dropTable => exact hdrop rfl
  | renameTable newName => simp [planIntent, planRenameTable, hp] at hplan
  | addColumn d =>
    rw [planIntent_addColumn] at hplan
    split at hplan
    · split at hplan
      · obtain ⟨added, hadded, -⟩ := planAddColumnsDefaulted_eq hplan
        simp only [List.mapM_cons, Option.bind_eq_bind, Option.bind_eq_some_iff] at hadded
        obtain ⟨first, hfirst, -⟩ := hadded
        exact habsent (planAddColumnPlain_cases hfirst).1
      · exact habsent (planAddColumnsFilled_cases hplan).1
    · obtain ⟨step, hstep, -⟩ := Option.map_eq_some_iff.mp hplan
      exact habsent (planAddColumnPlain_cases hstep).1
  | dropColumn column => simp [planIntent, planDropColumn, hp] at hplan
  | renameColumn column newName =>
    simp [planIntent, planRenameColumn, planRenameMember, hp] at hplan
  | setNotNull column keepCheck => simp [planIntent, planSetNotNull, hp] at hplan
  | dropNotNull column => simp [planIntent, planDropNotNull, hp] at hplan
  | createIndex d => simp [planIntent, planCreateIndex, hp] at hplan
  | dropIndex name => simp [planIntent, planDropIndex, hp] at hplan
  | addKey k => simp [planIntent, planUniqueLike, hp] at hplan
  | dropConstraint name => simp [planIntent, planDropConstraint, hp] at hplan
  | renameConstraint name newName =>
    simp [planIntent, planRenameConstraint, planRenameMember, hp] at hplan

theorem holds_of_satisfied {obs : Observations} {c : Catalog} {r : Rel} {rest : List Intent}
    {change : Change} (hagree : Agrees s watched obs c) (hr : watched r)
    (hplan : planIntent env obs r rest change = some [.satisfied]) : Holds c r change := by
  by_cases hdrop : change = .dropTable
  · subst hdrop
    refine (hagree r hr).of_absent ?_
    simp only [planIntent, planDropTable] at hplan
    split at hplan
    next hp => simpa using hp
    · split at hplan <;> simp [Step.applying, Step.satisfied] at hplan
  have hp := present_of_satisfied hplan hdrop
  obtain ⟨k, hk, htk⟩ := (hagree r hr).of_present hp
  cases change with
  | createTable d => exact ⟨k, hk, trivial⟩
  | createPartition d => exact ⟨k, hk, trivial⟩
  | dropTable => exact absurd rfl hdrop
  | renameTable newName =>
    refine ⟨by rw [hk]; rfl, ?_⟩
    simp only [planIntent, planRenameTable, hp, Bool.not_true, Bool.false_eq_true, if_false] at hplan
    split at hplan
    next hname => exact hname.symm
    · simp [Step.applying, Step.satisfied] at hplan
  | addColumn d => exact ⟨k, hk, addColumn_satisfied htk hplan⟩
  | dropColumn column =>
    refine ⟨k, hk, ?_⟩
    simp only [planIntent, planDropColumn, hp, Bool.not_true, Bool.false_eq_true, if_false] at hplan
    split at hplan
    next hcol => exact (htk.columns.none_iff column).mp hcol
    · split at hplan <;> simp [Step.applying, Step.satisfied] at hplan
  | renameColumn column newName => exact ⟨k, hk, renameMember_satisfied htk.columns hplan⟩
  | setNotNull column keepCheck =>
    refine ⟨k, hk, ?_⟩
    have hflag : ¬ NullableIn (obs.table r) column := fun hnull =>
      not_satisfied (planSetNotNull_applies hnull hplan).2.1 rfl
    simp only [planIntent, planSetNotNull, hp, Bool.not_true, Bool.false_eq_true, if_false] at hplan
    split at hplan
    · cases hplan
    next col hcol =>
      obtain ⟨flag, hk', heq⟩ := htk.columns.of_some hcol
      cases hnn : col.notNull with
      | false => exact absurd ⟨col, hcol, hnn⟩ hflag
      | true => exact hk'.trans (by rw [← heq, hnn])
  | dropNotNull column =>
    refine ⟨k, hk, ?_⟩
    simp only [planIntent, planDropNotNull, hp, Bool.not_true, Bool.false_eq_true,
      if_false] at hplan
    split at hplan
    · cases hplan
    next col hcol =>
      split at hplan
      next hflag =>
        obtain ⟨flag, hk', heq⟩ := htk.columns.of_some hcol
        exact hk'.trans (by rw [← heq]; simpa using hflag)
      · simp [Step.applying, Step.satisfied] at hplan
  | createIndex d => exact ⟨k, hk, createIndex_satisfied htk hplan⟩
  | dropIndex name =>
    refine ⟨k, hk, ?_⟩
    simp only [planIntent, planDropIndex, hp, Bool.not_true, Bool.false_eq_true, if_false] at hplan
    split at hplan
    next hindex => exact (htk.indexes.none_iff name).mp hindex
    · split at hplan <;> simp [Step.applying, Step.satisfied] at hplan
  | addKey key => exact ⟨k, hk, addKey_satisfied htk hplan⟩
  | dropConstraint name =>
    refine ⟨k, hk, ?_⟩
    simp only [planIntent, planDropConstraint, hp, Bool.not_true, Bool.false_eq_true,
      if_false] at hplan
    split at hplan
    next hconstraint => exact (htk.constraints.none_iff name).mp hconstraint
    · split at hplan <;> simp [Step.applying, Step.satisfied] at hplan
  | renameConstraint name newName =>
    exact ⟨k, hk, renameMember_satisfied htk.constraints hplan⟩

/-- In every run whose intents so far met their conditions, an intent that is planned as satisfied
asks for nothing that the catalog left by its predecessors' steps does not have. -/
theorem satisfied_holds {intents rest : List Intent} {obs : Observations} {c : Catalog} {st : Stage}
    {in_ : Intent} (hagree : Agrees s watched obs c)
    (hnamed : ∀ in_ ∈ intents, ∀ q ∈ in_.named, watched q)
    (hrun : Relation.ReflTransGen
      (fun a b => Mirrored env s watched a ∧ a.next env s = some b)
      (Stage.start intents obs c) st)
    (hrest : st.rest = in_ :: rest)
    (hplan : planIntent env st.loop.obs in_.rel rest in_.change = some [.satisfied]) :
    Holds st.catalog in_.rel in_.change := by
  have hstart : InStep s watched (Stage.start intents obs c) := ⟨hagree, hnamed⟩
  have hnow := hstart.run hrun
  have hr : watched in_.rel := hnow.named in_ (by simp [hrest]) in_.rel (List.mem_cons_self ..)
  exact holds_of_satisfied hnow.agrees hr hplan

theorem satisfied_holds_people :
    ∃ c : Catalog, Holds c people (.setNotNull "person" false) := by
  obtain ⟨st, hrun, hrest, -, hplan⟩ := people_renamed
  exact ⟨st.catalog, satisfied_holds people_agrees people_named hrun hrest hplan⟩

end Projection
end Laswell
