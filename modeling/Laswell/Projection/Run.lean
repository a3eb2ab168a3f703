import Mathlib.Logic.Relation
import Laswell.Projection.Indexed

/-!
# Laswell.Projection.Run

The observations that `plan_migration` carries from one intent to the next, beside the catalog that
the steps planned so far leave, over a whole specification.

* `ChangeMirrored`: for each kind, when `project` says of the intent all that its steps do.
* `next_inStep`: one round of the loop keeps the two in agreement.
* `observations_agree`: so does any number of them.
* `stages_agree`: the stages of a run one by one, up to the first intent whose condition fails.
* `renamed_disagrees`: a column that is renamed under an index.
-/

namespace Laswell
namespace Projection

variable {s : Server} {watched : Rel → Prop} {env : Env}

/-- The condition of each kind, on the observations it is planned against and the catalog its steps
are run on. Nothing is asked where nothing is done. -/
def ChangeMirrored (env : Env) (s : Server) (watched : Rel → Prop) (obs : Observations)
    (c : Catalog) (r : Rel) (rest : List Intent) : Change → Prop
  | .createTable d =>
    (obs.table r).present = false → (obs.tables r).isSome ∧ d.primaryKey = none ∧
      ∀ column ∈ d.columns, Declared s column
  | .createPartition d =>
    (obs.table r).present = false → (obs.tables r).isSome ∧
      ∀ k n, c.tables d.parent = some k → (s.newPartition r k).indexes n = none ∧
        (s.newPartition r k).constraints n = none
  | .dropTable => (obs.table r).present = true → Alone watched c r
  | .renameTable _ => True
  | .addColumn d => AddMirrored env s watched obs c r d rest
  | .dropColumn column =>
    ((obs.table r).columns[column]?).isSome → Alone watched c r ∧
      ∀ k, c.tables r = some k → Unused k column
  | .renameColumn column _ =>
    ((obs.table r).columns[column]?).isSome → Alone watched c r ∧
      ∀ k, c.tables r = some k → UnreadInIndexes k column
  | .setNotNull column keepCheck =>
    NullableIn (obs.table r) column → Alone watched c r ∧
      FlagMirrored env s obs (obs.table r) r column keepCheck
  | .dropNotNull column =>
    (∃ col, (obs.table r).columns[column]? = some col ∧ col.notNull = true) →
      Alone watched c r ∧ s.recordsNotNull = false
  | .createIndex d => IndexMirrored env s watched obs c r d
  | .dropIndex name => ((obs.table r).indexes[name]?).isSome → AloneInParts watched c r
  | .addKey k => KeyMirrored env s watched obs c r k
  | .dropConstraint name =>
    ((obs.table r).constraints[name]?).isSome → Alone watched c r ∧
      ∀ k x, c.tables r = some k → k.constraints name = some x → x.index = none ∧ x.type ≠ .notNull
  | .renameConstraint name _ =>
    ((obs.table r).constraints[name]?).isSome → Alone watched c r ∧
      ∀ k x, c.tables r = some k → k.constraints name = some x → x.index = none

/-- The intent that is next meets its condition, or its column is planned already. -/
def Mirrored (env : Env) (s : Server) (watched : Rel → Prop) (st : Stage) : Prop :=
  match st.rest with
  | [] => True
  | in_ :: rest =>
    match st.loop.led, in_.change with
    | _ + 1, .addColumn _ => True
    | _, change => ChangeMirrored env s watched st.loop.obs st.catalog in_.rel rest change

theorem change_agrees {obs : Observations} {c c' : Catalog} {in_ : Intent} {rest : List Intent}
    {steps : List Step} (hagree : Agrees s watched obs c) (hnamed : ∀ q ∈ in_.named, watched q)
    (hplan : planIntent env obs in_.rel rest in_.change = some steps)
    (hexec : s.execAll (statementsOf steps) c = some c')
    (hmir : ChangeMirrored env s watched obs c in_.rel rest in_.change) :
    Agrees s watched
      (projectFirst in_ steps (projectGroup in_.rel (followers in_ rest) steps obs)) c' := by
  obtain ⟨r, change⟩ := in_
  have hr : watched r := hnamed r (List.mem_cons_self ..)
  have halone : followers ⟨r, change⟩ rest = [] →
      projectGroup r (followers ⟨r, change⟩ rest) steps obs = obs := by
    intro hnone
    simp [projectGroup, hnone]
  cases change with
  | createTable d =>
    rw [halone rfl]
    exact createTable_agrees hagree hplan hexec hmir
  | createPartition d =>
    rw [halone rfl]
    exact createPartition_agrees hagree (hnamed d.parent (by simp [Intent.named])) hplan hexec hmir
  | dropTable =>
    rw [halone rfl]
    exact dropTable_agrees hagree hplan hexec hmir
  | renameTable newName =>
    rw [halone rfl]
    exact renameTable_agrees hagree hr hplan hexec
  | addColumn d => exact addColumn_agrees hagree hr hplan hexec hmir
  | dropColumn column =>
    rw [halone rfl]
    exact dropColumn_agrees hagree hr hplan hexec hmir
  | renameColumn column newName =>
    rw [halone rfl]
    exact renameColumn_agrees hagree hr hplan hexec hmir
  | setNotNull column keepCheck =>
    rw [halone rfl]
    exact setNotNull_agrees hagree hr hplan hexec hmir
  | dropNotNull column =>
    rw [halone rfl]
    exact dropNotNull_agrees hagree hr hplan hexec hmir
  | createIndex d =>
    rw [halone rfl]
    exact createIndex_agrees hagree hr hplan hexec hmir
  | dropIndex name =>
    rw [halone rfl]
    exact dropIndex_agrees hagree hr hplan hexec hmir
  | addKey k =>
    rw [halone rfl]
    exact addKey_agrees hagree hr hplan hexec hmir
  | dropConstraint name =>
    rw [halone rfl]
    exact dropConstraint_agrees hagree hr hplan hexec hmir
  | renameConstraint name newName =>
    rw [halone rfl]
    exact renameConstraint_agrees hagree hr hplan hexec hmir

/-- The observations agree with the catalog, and every table that the intents to come name is
watched. -/
structure InStep (s : Server) (watched : Rel → Prop) (st : Stage) : Prop where
  agrees : Agrees s watched st.loop.obs st.catalog
  named : ∀ in_ ∈ st.rest, ∀ q ∈ in_.named, watched q

theorem next_inStep {st st' : Stage} (h : InStep s watched st) (hmir : Mirrored env s watched st)
    (hnext : st.next env s = some st') : InStep s watched st' := by
  obtain ⟨⟨obs, led⟩, intents, c⟩ := st
  cases intents with
  | nil => simp [Stage.next] at hnext
  | cons in_ rest =>
    obtain ⟨hagree, hnamed⟩ := h
    simp only [Stage.next, Option.bind_eq_some_iff, Option.map_eq_some_iff] at hnext
    obtain ⟨⟨steps, loop⟩, hplan, c', hexec, rfl⟩ := hnext
    refine ⟨?_, fun x hx => hnamed x (List.mem_cons_of_mem _ hx)⟩
    simp only [Mirrored] at hmir
    simp only [planNext] at hplan
    split at hplan
    next led column hchange =>
      cases hplan
      have hc : c = c' := by simpa [statementsOf, Step.satisfied, Server.execAll] using hexec
      subst hc
      exact hagree
    next hother =>
      obtain ⟨planned, hplanned, hstep⟩ := Option.map_eq_some_iff.mp hplan
      cases hstep
      have hchange : ChangeMirrored env s watched obs c in_.rel rest in_.change := by
        split at hmir
        next hadd => exact absurd hadd (hother _ _ rfl)
        · exact hmir
      exact change_agrees hagree (hnamed in_ (List.mem_cons_self ..)) hplanned hexec hchange

theorem InStep.run {st st' : Stage} (h : InStep s watched st)
    (hrun : Relation.ReflTransGen
      (fun a b => Mirrored env s watched a ∧ a.next env s = some b) st st') :
    InStep s watched st' := by
  induction hrun with
  | refl => exact h
  | tail _ hstep ih => exact next_inStep ih hstep.1 hstep.2

/-- In every run whose intents all meet their conditions, each is planned against observations that
agree with the catalog its predecessors' steps leave: the same tables, with the same columns and
NOT NULL flags, the same indexes and the same constraints. -/
theorem observations_agree {intents : List Intent} {obs : Observations} {c : Catalog} {st : Stage}
    (hagree : Agrees s watched obs c) (hnamed : ∀ in_ ∈ intents, ∀ q ∈ in_.named, watched q)
    (hrun : Relation.ReflTransGen
      (fun a b => Mirrored env s watched a ∧ a.next env s = some b)
      (Stage.start intents obs c) st) :
    Agrees s watched st.loop.obs st.catalog := by
  have hstart : InStep s watched (Stage.start intents obs c) := ⟨hagree, hnamed⟩
  exact (hstart.run hrun).agrees

/-- The stages of a run, one after the other, stay in step up to the first intent that does not meet
its condition, and the next one. -/
theorem InStep.take {stages : List Stage} : ∀ {st : Stage}, InStep s watched st →
    (st :: stages).IsChain (fun a b => a.next env s = some b) → ∀ k,
      (∀ a ∈ (st :: stages).take k, Mirrored env s watched a) →
        ∀ a ∈ (st :: stages).take (k + 1), InStep s watched a := by
  induction stages with
  | nil =>
    intro st h _ k _ a ha
    rw [List.take_succ_cons, List.take_nil] at ha
    rwa [List.mem_singleton.mp ha]
  | cons st' stages ih =>
    intro st h hrun k hmir a ha
    rw [List.take_succ_cons, List.mem_cons] at ha
    rcases ha with rfl | ha
    · exact h
    · cases k with
      | zero => simp at ha
      | succ k =>
        rw [List.take_succ_cons] at hmir
        obtain ⟨hnext, hrest⟩ := List.isChain_cons_cons.mp hrun
        have hstep : InStep s watched st' := next_inStep h (hmir st List.mem_cons_self) hnext
        exact ih hstep hrest k (fun b hb => hmir b (List.mem_cons_of_mem _ hb)) a ha

/-- Stage by stage: as long as the intents before it met their conditions, each is planned against
observations that agree with the catalog left by then. -/
theorem stages_agree {intents : List Intent} {obs : Observations} {c : Catalog}
    {stages : List Stage} (hagree : Agrees s watched obs c)
    (hnamed : ∀ in_ ∈ intents, ∀ q ∈ in_.named, watched q)
    (hrun : (Stage.start intents obs c :: stages).IsChain fun a b => a.next env s = some b)
    (k : Nat) (hmir : ∀ st ∈ (Stage.start intents obs c :: stages).take k, Mirrored env s watched st) :
    ∀ st ∈ (Stage.start intents obs c :: stages).take (k + 1),
      Agrees s watched st.loop.obs st.catalog := by
  have hstart : InStep s watched (Stage.start intents obs c) := ⟨hagree, hnamed⟩
  exact fun st hst => (hstart.take hrun k hmir st hst).agrees

/-! ## A run -/

def people : Rel := ⟨"public", "people"⟩

theorem age_unfilled : ([] : List Planner.FillSource) ≠ [] → true = false := by decide

def age : AddColumn :=
  { column := "age", type := "integer", nullable := true, fill_not_null := age_unfilled }

def peopleIntents : List Intent :=
  [⟨people, .addColumn age⟩,
    ⟨people, .createIndex { name := "people_age", columns := [{ name := "age" }] }⟩,
    ⟨people, .renameColumn "id" "person"⟩,
    ⟨people, .setNotNull "person" false⟩]

def peopleObs : Observations where
  tables := Function.update (fun _ => none) people (some
    { present := true, columns := (∅ : Object ColumnObs).insert "id" ⟨"bigint", true, none, none⟩ })

def peopleCatalog : Catalog where
  tables := Function.update (fun _ => none) people (some
    { columns := Function.update (fun _ => none) "id" (some true) })

theorem people_agrees : Agrees {} (· = people) peopleObs peopleCatalog := by
  rintro q rfl
  refine ⟨rfl, ?_, .empty, .empty⟩
  exact Covers.empty.insert "id" rfl

theorem people_named : ∀ in_ ∈ peopleIntents, ∀ q ∈ in_.named, q = people := by
  simp [peopleIntents, Intent.named]

/-- Up to the last intent, which finds the renamed column NOT NULL. -/
theorem people_stages : ∃ st₁ st₂ st₃ : Stage,
    [Stage.start peopleIntents peopleObs peopleCatalog, st₁, st₂, st₃].IsChain
      (fun a b => a.next {} {} = some b) ∧
    (∀ st ∈ [Stage.start peopleIntents peopleObs peopleCatalog, st₁, st₂],
      Mirrored {} {} (· = people) st) ∧
    st₃.rest = [⟨people, .setNotNull "person" false⟩] ∧ st₃.loop.led = 0 ∧
    planIntent {} st₃.loop.obs people [] (.setNotNull "person" false) = some [.satisfied] := by
  have halone : ∀ c : Catalog, c.under = (fun _ _ => false) → Alone (· = people) c people :=
    fun c hc q _ => by rw [hc]
  have hunread : ∀ n i, Function.update (fun _ => none) "people_age"
      (some (Server.built {} { name := "people_age", columns := [{ name := "age" }] })) n = some i →
      "id" ∉ i.keyColumns ∧ "id" ∉ i.predicateColumns := by
    intro n i hi
    rw [Function.update_apply] at hi
    split at hi
    · cases hi
      decide
    · cases hi
  refine ⟨_, _, _, .cons_cons rfl (.cons_cons rfl (.cons_cons rfl (.singleton _))), ?_, rfl, rfl, rfl⟩
  simp only [List.forall_mem_cons, List.not_mem_nil, false_implies, implies_true, and_true]
  exact ⟨fun _ => ⟨halone _ rfl, ⟨rfl, rfl⟩, nofun, nofun⟩,
    fun _ => ⟨rfl, fun _ => halone _ rfl, nofun, .inl (by rfl)⟩,
    fun _ => ⟨halone _ rfl, fun k hk => by cases hk; exact hunread⟩⟩

theorem people_renamed :
    ∃ st, Relation.ReflTransGen
        (fun a b => Mirrored {} {} (· = people) a ∧ a.next {} {} = some b)
        (Stage.start peopleIntents peopleObs peopleCatalog) st ∧
      st.rest = [⟨people, .setNotNull "person" false⟩] ∧ st.loop.led = 0 ∧
      planIntent {} st.loop.obs people [] (.setNotNull "person" false) = some [.satisfied] := by
  obtain ⟨st₁, st₂, st₃, hrun, hmir, hlast⟩ := people_stages
  simp only [List.isChain_cons_cons, List.isChain_singleton, and_true] at hrun
  simp only [List.forall_mem_cons, List.not_mem_nil, false_implies, implies_true, and_true] at hmir
  obtain ⟨h1, h2, h3⟩ := hrun
  obtain ⟨m0, m1, m2⟩ := hmir
  exact ⟨st₃, ((Relation.ReflTransGen.single ⟨m0, h1⟩).tail ⟨m1, h2⟩).tail ⟨m2, h3⟩, hlast⟩

theorem observations_agree_people :
    ∃ st : Stage, st.rest.length = 1 ∧ Agrees {} (· = people) st.loop.obs st.catalog := by
  obtain ⟨st, hrun, hrest, -⟩ := people_renamed
  exact ⟨st, by rw [hrest]; rfl, observations_agree people_agrees people_named hrun⟩

theorem stages_agree_people : ∃ st₁ st₂ st₃ : Stage,
    [Stage.start peopleIntents peopleObs peopleCatalog, st₁, st₂, st₃].IsChain
      (fun a b => a.next {} {} = some b) ∧
    ∀ st ∈ [Stage.start peopleIntents peopleObs peopleCatalog, st₁, st₂, st₃],
      Agrees {} (· = people) st.loop.obs st.catalog := by
  obtain ⟨st₁, st₂, st₃, hrun, hmir, -⟩ := people_stages
  exact ⟨st₁, st₂, st₃, hrun, stages_agree people_agrees people_named hrun 3 hmir⟩

/-! ## A renamed column with an index -/

def renamedIntents : List Intent :=
  [⟨people, .addColumn age⟩,
    ⟨people, .createIndex { name := "people_age", columns := [{ name := "age" }] }⟩,
    ⟨people, .renameColumn "age" "years"⟩,
    ⟨people, .createIndex { name := "people_years", columns := [{ name := "years" }] }⟩]

/-- The server renames the column in the index, and `project` does not: the next intent is planned
against an index on a column that is not there. -/
theorem renamed_disagrees : Agrees {} (· = people) peopleObs peopleCatalog ∧
    (∀ in_ ∈ renamedIntents, ∀ q ∈ in_.named, q = people) ∧
    ∃ st₁ st₂ st₃ st₄ : Stage,
      [Stage.start renamedIntents peopleObs peopleCatalog, st₁, st₂, st₃, st₄].IsChain
        (fun a b => a.next {} {} = some b) ∧
      ¬ Agrees {} (· = people) st₃.loop.obs st₃.catalog := by
  refine ⟨people_agrees, by simp [renamedIntents, Intent.named], ?_⟩
  refine ⟨_, _, _, _,
    .cons_cons rfl (.cons_cons rfl (.cons_cons rfl (.cons_cons rfl (.singleton _)))), fun h => ?_⟩
  obtain ⟨i, hi, hreads⟩ := (h people rfl).2.indexes.of_some (k := "people_age") rfl
  cases hi
  exact absurd hreads.keyColumns (by decide)

end Projection
end Laswell
