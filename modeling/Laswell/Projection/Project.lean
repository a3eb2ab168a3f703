import Laswell.Projection.Plans

/-!
# Laswell.Projection.Project

How `plan_migration` carries the observations from one intent to the next: `project` writes into
them what the intent will have changed once its steps have run.

* `project`: the effect of the first step of an intent, one case for each kind.
* `planNext`: one round of the loop, with the columns that a fill takes along.
* `Stage`: what the loop has come to, beside the catalog that the steps so far leave.
-/

namespace Laswell
namespace Projection

/-! ## Project -/

/-- The index a key brings with it. -/
def keyIndex (columns : List String) (primary withoutOverlaps : Bool) : IndexObs where
  isValid := true
  isUnique := true
  isPrimary := primary
  columns := columns
  keyColumnCount := columns.length
  columnOrder := columns.map fun _ => { desc := false, nullsFirst := false }
  columnOpclasses := columns.map fun _ => ""
  method := if withoutOverlaps then "gist" else "btree"
  predicate := ""
  hasExpressions := false
  constraintBacked := true

def projectKeyIndex (t : TableObs) (name : String) (columns : List String)
    (primary withoutOverlaps : Bool) : TableObs :=
  if name = "" || columns.isEmpty then t
  else { t with indexes := t.indexes.insert name (keyIndex columns primary withoutOverlaps) }

/-- The index a definition asks for, as the catalog would report it. -/
def CreateIndex.projected (d : CreateIndex) : IndexObs where
  isValid := true
  isUnique := d.unique
  columns := d.names ++ d.payload
  keyColumnCount := d.columns.length
  columnOrder := d.columns.map (·.order)
  columnOpclasses := d.columns.map (·.opclass)
  method := d.method
  predicate := d.predicate
  options := d.options
  hasExpressions := d.hasExpressionKey

/-- `columns[column]["not_null"] = notNull` -/
def flagged (columns : Object ColumnObs) (column : String) (notNull : Bool) : Object ColumnObs :=
  columns.insert column
    { (columns[column]?).getD { type := "", notNull := notNull } with notNull := notNull }

/-- `members[newName] = members[name]`, and `name` is erased. -/
def renameMember {α : Type} (members : Object α) (name newName : String) : Object α :=
  match members[name]? with
  | none => members
  | some m => (members.insert newName m).erase name

/-- The entry of a table that is created. -/
def newEntry (columns : Object ColumnObs) (partitionBy : Option String) : TableObs where
  present := true
  kind := if partitionBy.isSome then .partitionedTable else .table
  columns := columns
  partitionBy := partitionBy.getD ""

def declaredColumns (columns : List ColumnDef) : Object ColumnObs :=
  columns.foldl (fun cols c => cols.insert c.name { type := c.type, notNull := !c.nullable }) ∅

/-- The parent learns of a partition. -/
def withPartition (p : TableObs) (r : Rel) (bound : Bound) : TableObs :=
  { p with
    partitions := p.partitions ++ [r]
    defaultPartition := if bound = .default then some r else p.defaultPartition }

def projectChange (r : Rel) (t : TableObs) (obs : Observations) : Change → Observations
  | .addColumn d => obs.assign r (t.withColumn d.column d.type !d.nullable)
  | .createIndex d => obs.assign r { t with indexes := t.indexes.insert d.name d.projected }
  | .dropIndex name => obs.assign r { t with indexes := t.indexes.erase name }
  | .setNotNull column _ =>
    if t.columns.contains column then
      obs.assign r { t with columns := flagged t.columns column true }
    else obs
  | .dropConstraint name => obs.assign r { t with constraints := t.constraints.erase name }
  | .dropColumn column => obs.assign r { t with columns := t.columns.erase column }
  | .createTable d =>
    let entry := newEntry (declaredColumns d.columns) d.partitionBy
    obs.assign r (match d.primaryKey with
      | none => entry
      | some key => projectKeyIndex entry (r.name ++ "_pkey") key true d.withoutOverlaps)
  | .createPartition d =>
    match obs.tables d.parent with
    | none => obs.assign r (newEntry ∅ d.partitionBy)
    | some p =>
      (obs.assign d.parent (withPartition p r d.bound)).assign r (newEntry p.columns d.partitionBy)
  | .dropTable => obs.assign r {}
  | .renameTable newName =>
    { obs with
      tables := Function.update (Function.update obs.tables { r with name := newName } (some t)) r
        none }
  | .renameColumn column newName =>
    obs.assign r { t with columns := renameMember t.columns column newName }
  | .renameConstraint name newName =>
    obs.assign r { t with constraints := renameMember t.constraints name newName }
  | .dropNotNull column => obs.assign r { t with columns := flagged t.columns column false }
  | .addKey k =>
    obs.assign r (projectKeyIndex
      { t with
        constraints := t.constraints.insert k.name { type := k.type }
        columns :=
          if k.primary then k.columns.foldl (fun cols c => flagged cols c true) t.columns
          else t.columns }
      k.name k.columns k.primary k.withoutOverlaps)

/-- Only a step that applies changes anything, and only a table that is in the observations. -/
def project (in_ : Intent) (step : Step) (obs : Observations) : Observations :=
  if !step.applies then obs
  else match obs.tables in_.rel with
    | none => obs
    | some t => projectChange in_.rel t obs in_.change

/-! ## The loop -/

/-- `led` is how many of the intents to come are planned already, as columns of a fill. -/
structure Loop where
  obs : Observations
  led : Nat := 0

/-- The columns a fill took along are in the observations as the steps will leave them. -/
def projectGroup (r : Rel) (followers : List AddColumn) (steps : List Step) (obs : Observations) :
    Observations :=
  if !followers.isEmpty && steps.any Step.applies then
    obs.assign r (followers.foldl (fun t g => t.withColumn g.column g.type true) (obs.table r))
  else obs

def followers (in_ : Intent) (rest : List Intent) : List AddColumn :=
  match in_.change with
  | .addColumn d => together in_.rel d rest
  | _ => []

def projectFirst (in_ : Intent) (steps : List Step) (obs : Observations) : Observations :=
  match steps with
  | [] => obs
  | front :: _ => project in_ front obs

/-- An `add_column` of a group that was planned at its first one is satisfied. -/
def planNext (env : Env) (l : Loop) (in_ : Intent) (rest : List Intent) :
    Option (List Step × Loop) :=
  match l.led, in_.change with
  | led + 1, .addColumn _ => some ([.satisfied], { l with led := led })
  | _, change =>
    (planIntent env l.obs in_.rel rest change).map fun steps =>
      (steps,
        { obs := projectFirst in_ steps (projectGroup in_.rel (followers in_ rest) steps l.obs)
          led := (followers in_ rest).length })

/-- The steps of a specification, in order; none where one of its intents is in conflict. -/
def planMigration (env : Env) : Loop → List Intent → Option (List Step)
  | _, [] => some []
  | l, in_ :: rest => do
    let (steps, l') ← planNext env l in_ rest
    let more ← planMigration env l' rest
    some (steps ++ more)

/-! ## Plan and catalog side by side -/

def statementsOf (steps : List Step) : List Statement := steps.flatMap (·.statements)

/-- The loop before an intent, and the catalog that the steps of the intents before it leave. -/
structure Stage where
  loop : Loop
  rest : List Intent
  catalog : Catalog

def Stage.start (intents : List Intent) (obs : Observations) (c : Catalog) : Stage where
  loop := { obs := obs }
  rest := intents
  catalog := c

/-- The next intent is planned, without conflict, and its steps are run, without failing. -/
def Stage.next (env : Env) (s : Server) (st : Stage) : Option Stage :=
  match st.rest with
  | [] => none
  | in_ :: rest =>
    (planNext env st.loop in_ rest).bind fun (steps, loop) =>
      (s.execAll (statementsOf steps) st.catalog).map fun c =>
        { loop := loop, rest := rest, catalog := c }

/-- The catalog of every stage is the one left by the steps planned on the way there, and the whole
plan is those steps and what is planned from there. -/
theorem planMigration_of_next {env : Env} {s : Server} {st st' : Stage}
    (h : st.next env s = some st') :
    ∃ steps, s.execAll (statementsOf steps) st.catalog = some st'.catalog ∧
      planMigration env st.loop st.rest =
        (planMigration env st'.loop st'.rest).map fun more => steps ++ more := by
  obtain ⟨loop, rest, c⟩ := st
  cases rest with
  | nil => simp [Stage.next] at h
  | cons in_ rest =>
    simp only [Stage.next, Option.bind_eq_some_iff, Option.map_eq_some_iff] at h
    obtain ⟨⟨steps, loop'⟩, hplan, c', hexec, rfl⟩ := h
    refine ⟨steps, hexec, ?_⟩
    cases hmore : planMigration env loop' rest <;> simp [planMigration, hplan, hmore]

end Projection
end Laswell
