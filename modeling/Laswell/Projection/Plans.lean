import Laswell.Projection.Server

/-!
# Laswell.Projection.Plans

The planners of the structural intents on tables (`planner.h`), as far as the statements of their
steps go. A plan is none where a conflict is pushed: nothing of it is run.

* `planSetNotNull`: the recipe around a check, or one statement.
* `planAddColumnPlain`, `planAddColumnsFilled`, `planAddColumnsDefaulted`, `filledColumnGroup`.
* `planCreateIndex`: an index that is there, adopted, renamed, or built in one of three ways.
* `planUniqueLike`: a key that is there, one over an index that is there, or one that is built.
* `planIntent`: one intent, without the grouping.
-/

namespace Laswell
namespace Projection

open Planner (Action FillSource namesWord plainCeilingBytes)

structure Step where
  action : Action := .apply
  statements : List Statement := []

namespace Step

def satisfied : Step := { action := .satisfied }

def applying (statements : List Statement) : Step := { statements := statements }

def applies (s : Step) : Bool := s.action == .apply

end Step

abbrev Plan := Option (List Step)

/-- A pass of a fill over the rows: the key it walks, the source it joins, and what it sets. -/
structure Walk where
  key : String
  source : String := ""
  on : String := ""
  columns : List String
  round : Nat := 0

/-- What is asked beside the observations: the modules, and whether `plan_backfill` takes a walk. -/
structure Env where
  indexTraits : Observations → Rel → Change → IndexTraits := fun _ _ _ => {}
  constraintTraits : Observations → Rel → ConstraintTraits := fun _ _ => {}
  /-- `required_confinement` -/
  confinement : Observations → Rel → String := fun _ _ => ""
  walkable : Observations → Rel → Walk → Bool := fun _ _ _ => true

variable (env : Env)

/-! ## Set not null -/

inductive ConstraintState where
  | absent | notValid | valid
  deriving DecidableEq

def constraintState (t : TableObs) (name : String) : ConstraintState :=
  match t.constraints[name]? with
  | none => .absent
  | some k => if k.validated then .valid else .notValid

/-- The name of the check, from the table's and the column's. -/
def nnCheck (r : Rel) (column : String) : String := r.name ++ "_" ++ column ++ "_laswell_nn"

/-- A check that the columns are not null, validated, the flags, and the check dropped; from where
an earlier attempt stopped. -/
def notNullRecipe (r : Rel) (check : String) (columns : List String) (found : ConstraintState)
    (keepCheck : Bool) : List Step :=
  (if found = .absent then [Step.applying [.alter r (.addCheck check columns)]] else []) ++
  (if found ≠ .valid then [Step.applying [.alter r (.validateConstraint check)]] else []) ++
  [Step.applying [.alter r (.setNotNull columns)]] ++
  (if keepCheck then [] else [Step.applying [.alter r (.dropConstraint check)]])

def planSetNotNull (obs : Observations) (r : Rel) (column : String) (keepCheck : Bool) : Plan :=
  let t := obs.table r
  if !t.present then none
  else match t.columns[column]? with
    | none => none
    | some c =>
      if c.notNull then some [.satisfied]
      else if (env.constraintTraits obs r).refusesValidate then
        some [.applying [.alter r (.setNotNull [column])]]
      else
        let check := nnCheck r column
        some (notNullRecipe r check [column] (constraintState t check) keepCheck)

def planDropNotNull (obs : Observations) (r : Rel) (column : String) : Plan :=
  let t := obs.table r
  if !t.present then none
  else match t.columns[column]? with
    | none => none
    | some c =>
      if !c.notNull then some [.satisfied]
      else some [.applying [.alter r (.dropNotNull column)]]

/-! ## Add column -/

def AddColumn.def_ (d : AddColumn) : ColumnDef where
  name := d.column
  type := d.type
  nullable := d.nullable
  default := d.default

/-- The first statement of a fill adds the column without its NOT NULL. -/
def AddColumn.bare (d : AddColumn) : ColumnDef where
  name := d.column
  type := d.type
  nullable := true

/-- What the planner takes the table to be once a step of its own has run. -/
def TableObs.withColumn (t : TableObs) (column type : String) (notNull : Bool) : TableObs :=
  { t with columns := t.columns.insert column { type := type, notNull := notNull } }

def planAddColumnPlain (obs : Observations) (r : Rel) (d : AddColumn) : Option Step :=
  let t := obs.table r
  if !t.present then none
  else match t.columns[d.column]? with
    | some existing =>
      if existing.type ≠ d.type && d.type ≠ "" then none
      else if existing.notNull && d.nullable then none
      else some .satisfied
    | none =>
      if !d.nullable && !d.defaulted then none
      else some (.applying [.alter r (.addColumn d.def_), .other])

/-- The first column of a primary key that a walk may go along. -/
def defaultFillKey (obs : Observations) (r : Rel) : Option String :=
  let confined := env.confinement obs r
  ((obs.table r).indexes.toList.filterMap fun (_, ix) =>
    if ix.isPrimary then
      ix.keyColumns.find? fun c => !(1 < ix.keyColumnCount && c == confined)
    else none).head?

def fillKey (obs : Observations) (r : Rel) (d : AddColumn) : Option String :=
  if d.key ≠ "" then some d.key else defaultFillKey env obs r

/-- One walk for the columns of a group that have a default. -/
def planDefaultedFill (after : Observations) (r : Rel) (lead : AddColumn)
    (group : List AddColumn) : Option Step := do
  let key ← fillKey env after r lead
  let first := lead.fill.headD { value := "" }
  let joins := lead.fill.length == 1 && first.joined && group.all fun g =>
    match g.fill with
    | [src] => src.joined && src.from_ == first.from_ && src.on == first.on
    | _ => false
  let walk : Walk :=
    { key := key, columns := group.map (·.column)
      source := if joins then first.from_ else ""
      on := if joins then first.on else "" }
  if env.walkable after r walk then some (.applying [.other]) else none

/-- Every column of the group as one with a default is added, and then the walk. -/
def planAddColumnsDefaulted (obs : Observations) (r : Rel) (lead : AddColumn)
    (rest : List AddColumn) : Plan := do
  let group := lead :: rest
  let added ← group.mapM (planAddColumnPlain obs r)
  let after := obs.assign r (group.foldl (fun t g => t.withColumn g.column g.type true)
    (obs.table r))
  let walk ← planDefaultedFill env after r lead group
  some (added ++ [walk])

/-- The columns of a group that are not there yet. -/
def missing (t : TableObs) (group : List AddColumn) : List AddColumn :=
  group.filter fun g => (t.columns[g.column]?).isNone

/-- Those that are not there, or not NOT NULL. -/
def pending (t : TableObs) (group : List AddColumn) : List AddColumn :=
  group.filter fun g => !((t.columns[g.column]?).map (·.notNull)).getD false

def fillTrigger (r : Rel) (lead : AddColumn) : String :=
  r.name ++ "_" ++ lead.column ++ "_laswell_fill"

def walkOf (key : String) (p : Planner.Pass) : Walk where
  key := key
  source := p.from_
  on := p.on
  columns := p.columns.map (·.column)
  round := p.round

/-- One walk for each pass. -/
def walks (r : Rel) (key : String) (columns : List AddColumn) : List Walk :=
  (Planner.passes (columns.map (·.fillColumn r))).map (walkOf key)

/-- The NOT NULL of a fill's columns: one scan for them all, where VALIDATE can be told apart. -/
def planFilledNotNull (after : Observations) (r : Rel) (lead : AddColumn)
    (columns : List AddColumn) : Plan :=
  if 1 < columns.length && !(env.constraintTraits after r).refusesValidate then
    let check := nnCheck r lead.column
    some (notNullRecipe r check (columns.map (·.column))
      (constraintState (after.table r) check) false)
  else (columns.mapM fun g => planSetNotNull env after r g.column false).map List.flatten

/-- The observations once the columns and the trigger of a fill are there. -/
def filling (obs : Observations) (r : Rel) (lead : AddColumn) (group : List AddColumn) :
    Observations :=
  let t := obs.table r
  obs.assign r
    { (missing t group).foldl (fun t g => t.withColumn g.column g.type false) t with
      triggers := fillTrigger r lead :: t.triggers }

def planAddColumnsFilled (obs : Observations) (r : Rel) (lead : AddColumn)
    (rest : List AddColumn) : Plan :=
  let group := lead :: rest
  let t := obs.table r
  let filler := fillTrigger r lead
  let hasTrigger : Bool := filler ∈ t.triggers
  let dropFiller := Step.applying [.other, .other]
  if !t.present then none
  else if group.any fun g => ((t.columns[g.column]?).map fun c =>
      c.type ≠ g.type && g.type ≠ "").getD false then none
  else if (pending t group).isEmpty then
    some [if lead.after = some .dropTrigger && hasTrigger then dropFiller else .satisfied]
  else do
    let key ← fillKey env obs r lead
    let added := if (missing t group).isEmpty && hasTrigger then [] else
      [Step.applying ((missing t group).flatMap (fun g => [.alter r (.addColumn g.bare), .other]) ++
        [.other] ++ if hasTrigger then [] else [.other])]
    let after := filling obs r lead group
    let ws := walks r key (pending t group)
    if ws.all (env.walkable after r) then
      let flags ← planFilledNotNull env after r lead (pending t group)
      some (added ++ ws.map (fun _ => Step.applying [.other]) ++ flags ++
        if lead.after = some .dropTrigger then [dropFiller] else [])
    else none

def planAddColumn (obs : Observations) (r : Rel) (d : AddColumn) : Plan :=
  if d.filled && !d.defaulted then planAddColumnsFilled env obs r d []
  else if d.filled then planAddColumnsDefaulted env obs r d []
  else (planAddColumnPlain obs r d).map fun step => [step]

/-- Whether a column can join a group: the same kind of fill on the same table, and no expression
that names a column of the other. -/
def joinsGroup (r : Rel) (lead : AddColumn) (group : List AddColumn) (q : Rel) (next : AddColumn) :
    Bool :=
  next.filled && next.defaulted == lead.defaulted && q == r && next.after == lead.after &&
    next.key == lead.key && next.paced == lead.paced &&
    !group.any fun g => namesWord next.fillText g.column || namesWord g.fillText next.column

/-- The columns after the first of `filled_column_group`, from the intents that follow it. -/
def filledColumnGroup (r : Rel) (lead : AddColumn) :
    List AddColumn → List Intent → List AddColumn
  | _, [] => []
  | group, { rel := q, change := .addColumn next } :: rest =>
    if joinsGroup r lead group q next then
      next :: filledColumnGroup r lead (group ++ [next]) rest
    else []
  | _, _ :: _ => []

/-- The columns planned together with an `add_column`. -/
def together (r : Rel) (d : AddColumn) (rest : List Intent) : List AddColumn :=
  if d.filled then filledColumnGroup r d [d] rest else []

/-! ## Drop column, drop constraint, renames -/

def planDropColumn (obs : Observations) (r : Rel) (column : String) : Plan :=
  let t := obs.table r
  if !t.present then none
  else match t.columns[column]? with
    | none => some [.satisfied]
    | some _ =>
      if t.dependentViews.toList.any fun v => column ∈ v.2 then none
      else some [.applying [.alter r (.dropColumn column)]]

def planDropConstraint (obs : Observations) (r : Rel) (name : String) : Plan :=
  let t := obs.table r
  if !t.present then none
  else match t.constraints[name]? with
    | none => some [.satisfied]
    | some k =>
      if k.dependedOnBy ≠ [] then none
      else some [.applying [.alter r (.dropConstraint name)]]

def planRenameTable (obs : Observations) (r : Rel) (newName : String) : Plan :=
  if !(obs.table r).present then none
  else if r.name = newName then some [.satisfied]
  else some [.applying [.renameTable r newName]]

/-- A column, or a constraint, that is renamed: what is there is in `members`. -/
def planRenameMember {α : Type} (obs : Observations) (r : Rel) (members : Object α)
    (name newName : String) (a : Alteration) : Plan :=
  if !(obs.table r).present then none
  else if members.contains newName && !members.contains name then some [.satisfied]
  else if !members.contains name then none
  else if members.contains newName then none
  else some [.applying [.alter r a]]

def planRenameColumn (obs : Observations) (r : Rel) (column newName : String) : Plan :=
  planRenameMember obs r (obs.table r).columns column newName (.renameColumn column newName)

def planRenameConstraint (obs : Observations) (r : Rel) (name newName : String) : Plan :=
  planRenameMember obs r (obs.table r).constraints name newName (.renameConstraint name newName)

/-! ## Create and drop table -/

/-- What the declared types alone make certain of a key with a period. -/
def periodRefused (obs : Observations) (d : TableDef) (key : List String) : Bool :=
  let declared := fun c => ((d.columns.reverse.find? (·.name == c)).map (·.type)).getD ""
  knownScalarType (declared (key.getLastD "")) ||
    (!obs.btreeGist && key.dropLast.any fun c => knownScalarType (declared c))

def planCreateTable (obs : Observations) (r : Rel) (d : TableDef) : Plan :=
  if (obs.table r).present then some [.satisfied]
  else if d.withoutOverlaps && (d.primaryKey.map (periodRefused obs d)).getD false then none
  else some [.applying (.createTable r d :: .other :: d.columns.map fun _ => .other)]

def planCreatePartition (obs : Observations) (r : Rel) (d : PartitionDef) : Plan :=
  let p := obs.table d.parent
  let strategy := strategyOf (if p.partitionKey = "" then p.partitionBy else p.partitionKey)
  if (obs.table r).present then if r ∈ p.partitions then some [.satisfied] else none
  else if !p.present then none
  else if p.kind ≠ .partitionedTable then none
  else if strategy ≠ "" && d.bound = .default && strategy = "HASH" then none
  else if strategy ≠ "" && d.bound ≠ .default && strategy ≠ d.bound.strategy then none
  else if d.bound = .default && p.defaultPartition.isSome then none
  else some [.applying [.createPartition r d, .other]]

def planDropTable (obs : Observations) (r : Rel) : Plan :=
  let t := obs.table r
  if !t.present then some [.satisfied]
  else if !t.dependentViews.isEmpty || t.referencedBy ≠ [] then none
  else some [.applying [.dropTable r]]

/-! ## Create and drop index -/

/-- `same_shape`, with the predicate and what comes before the comparison. -/
def equivalent (d : CreateIndex) (ex : IndexObs) : Bool :=
  ex.isValid && !ex.hasExpressions && !d.hasExpressionKey && ex.method == d.method &&
    ex.columnOrder.length == ex.keyColumns.length &&
    ex.columnOpclasses.length == ex.keyColumns.length &&
    ex.keyColumns == d.names && ex.includeColumns == d.payload &&
    ex.columnOpclasses == d.columns.map (·.opclass) &&
    ex.columnOrder == d.columns.map (·.order) && catalogIndexOptions ex == d.options &&
    ex.isUnique == d.unique && normalizePredicate ex.predicate == normalizePredicate d.predicate

/-- The first index that is the same under another name. -/
def firstEquivalent (t : TableObs) (d : CreateIndex) : Option (String × IndexObs) :=
  t.indexes.toList.find? fun (name, ex) => name != d.name && equivalent d ex

def partName (relation : Rel) (name : String) : String := relation.name ++ "_" ++ name

def fits (name : String) : Bool := name.utf8ByteSize ≤ 63

/-- The definition under the name its index has on a part. -/
def CreateIndex.onPart (d : CreateIndex) (relation : Rel) : CreateIndex :=
  { d with name := partName relation d.name }

/-- `index_parts_missing`; none for -1. -/
def indexPartsMissing (parts : List IndexPart) (name : String) : Option Nat :=
  if parts.all fun p => fits (partName p.relation name) then
    some (parts.filter fun p => !(p.indexes[partName p.relation name]?).getD false).length
  else none

/-- The build on one part, where there is no valid index. -/
def buildOnPart (d : CreateIndex) (p : IndexPart) : Option Step :=
  match p.indexes[partName p.relation d.name]? with
  | some true => none
  | some false => some (.applying
      [.alter p.relation (.dropIndex (partName p.relation d.name)),
        .alter p.relation (.createIndex (d.onPart p.relation) false)])
  | none => some (.applying [.alter p.relation (.createIndex (d.onPart p.relation) false)])

def planIndexByParts (r : Rel) (d : CreateIndex) (parts : List IndexPart) (parentExists : Bool) :
    List Step :=
  let builds := parts.filterMap (buildOnPart d)
  if parentExists then if builds.isEmpty then [.satisfied] else builds
  else .applying [.alter r (.createIndex d true), .other] :: builds

/-- Builds on the partitions, the index on the parent alone, and each attached to it. -/
def planPartitionedIndex (r : Rel) (t : TableObs) (d : CreateIndex) : Plan :=
  let key := partitionKeyColumns t.partitionKey
  if t.partitions.isEmpty then none
  else if d.unique && (key.isEmpty || key.any fun k => k ∉ d.names) then none
  else if t.partitionParts.any (·.partitioned) then none
  else if t.partitions.any fun p => !fits (partName p d.name) then none
  else some (
    (t.partitions.map fun p => Step.applying [.alter p (.createIndex (d.onPart p) false)]) ++
    [.applying [.alter r (.createIndex d true), .other]] ++
    (t.partitions.map fun _ => Step.applying [.other]) ++ [.applying [.other]])

/-- `plain`: small, with nobody waiting, and not unique. -/
def plainBuild (t : TableObs) (traits : IndexTraits) (d : CreateIndex) : Bool :=
  let size := if traits.answered && 0 ≤ traits.sizeBytes then traits.sizeBytes
    else t.sizeMeasured.getD t.sizeEstimate
  size < plainCeilingBytes && t.lockWaiters == 0 && !d.unique

/-- No concurrent build on the table itself, but one on each of its parts. -/
def buildsByParts (t : TableObs) (traits : IndexTraits) (d : CreateIndex) (rebuild : Bool) : Bool :=
  traits.answered && !traits.concurrent && !plainBuild t traits d && !d.unique && !rebuild &&
    !traits.parts.isEmpty && (indexPartsMissing traits.parts d.name).isSome

/-- An index that is there and valid on the table, with parts that lack theirs. -/
def continuesByParts (traits : IndexTraits) (d : CreateIndex) : Bool :=
  !traits.parts.isEmpty && !d.unique && 0 < (indexPartsMissing traits.parts d.name).getD 0

/-- No index of the name is there, or an invalid one that goes first. -/
def planNewIndex (obs : Observations) (r : Rel) (d : CreateIndex) (rebuild : Bool) : Plan :=
  let t := obs.table r
  let traits := env.indexTraits obs r (.createIndex d)
  match firstEquivalent t d with
  | some (other, ex) =>
    if ex.constraintBacked then none
    else match d.onEquivalent with
      | .refuse => none
      | .adopt => some [.satisfied]
      | .rename => some [.applying [.alter r (.renameIndex other d.name), .other]]
  | none =>
    if t.kind = .partitionedTable then planPartitionedIndex r t d
    else if buildsByParts t traits d rebuild then some (planIndexByParts r d traits.parts false)
    -- plainly, concurrently or one part at a time: the statement is the same for the catalog
    else some [.applying ((if rebuild then [.alter r (.dropIndex d.name)] else []) ++
      [.alter r (.createIndex d false), .other])]

def planCreateIndex (obs : Observations) (r : Rel) (d : CreateIndex) : Plan :=
  let t := obs.table r
  let traits := env.indexTraits obs r (.createIndex d)
  if !t.present then none
  else match t.indexes[d.name]? with
    | none => planNewIndex env obs r d false
    | some ex =>
      if !ex.isValid then planNewIndex env obs r d true
      else if continuesByParts traits d then some (planIndexByParts r d traits.parts true)
      else some [.satisfied]

def planDropIndex (obs : Observations) (r : Rel) (name : String) : Plan :=
  let t := obs.table r
  if !t.present then none
  else match t.indexes[name]? with
    | none => some [.satisfied]
    | some ex =>
      if ex.constraintBacked then none
      else some [.applying [.alter r (.dropIndex name)]]

/-! ## Keys -/

/-- A partition whose own index is in the way: what it has under the name is not what is needed. -/
def partRefused (k : AddKey) (p : PartObs) : Bool :=
  p.partitioned || !fits (partName p.relation k.name) ||
    match p.indexes[partName p.relation k.name]? with
    | none => false
    | some ix => if k.withoutOverlaps then ix.constraint.isNone else ix.valid && !ix.unique

/-- The unique index on a partition, built and made its constraint, as far as it is not. -/
def uniqueOnPart (k : AddKey) (p : PartObs) : List Step :=
  let child := partName p.relation k.name
  let ix := p.indexes[child]?
  let valid := (ix.map (·.valid)).getD false
  let index : CreateIndex :=
    { name := child, columns := k.columns.map fun c => { name := c }, unique := true }
  let adopted := valid && (ix.bind (·.constraint)).isSome
  (if valid then [] else [Step.applying
    ((if ix.isSome then [.alter p.relation (.dropIndex child)] else []) ++
      [.alter p.relation (.createIndex index false)])]) ++
  (if adopted then [] else
    [Step.applying [.alter p.relation (.addKeyUsing child k.primary child)]]) ++
  (if valid && ix.bind (·.attachedTo) == some k.name then [] else [Step.applying [.other]])

/-- A key with a period on a partition: the statement that adds it builds it. -/
def periodOnPart (k : AddKey) (p : PartObs) : List Step :=
  let child := partName p.relation k.name
  let ix := p.indexes[child]?
  (if ix.isSome then [] else
    [Step.applying [.alter p.relation (.addKey child k.primary k.columns false)]]) ++
  (if ix.bind (·.attachedTo) == some k.name then [] else [Step.applying [.other]])

/-- `plan_unique_on_partitions`, and `plan_locked_build_on_partitions` for a key with a period. -/
def planKeyOnPartitions (r : Rel) (t : TableObs) (k : AddKey) : Plan :=
  let key := partitionKeyColumns t.partitionKey
  -- a period is not compared for equality
  let equal := if k.withoutOverlaps then k.columns.dropLast else k.columns
  if key.isEmpty || key.any fun c => c ∉ equal then none
  else if t.partitionParts.any (partRefused k) then none
  else if t.partitionParts.isEmpty then
    some [.applying [.alter r (.addKey k.name k.primary k.columns false)]]
  else some (
    (if t.constraints.contains k.name then [] else
      [Step.applying [.alter r (.addKey k.name k.primary k.columns true)]]) ++
    t.partitionParts.flatMap (if k.withoutOverlaps then periodOnPart k else uniqueOnPart k) ++
    [.applying [.other]])

/-- GiST has no operator class for a column of the key, and the column's type is a base type. -/
def gistRefused (t : TableObs) (columns : List String) : Bool :=
  columns.any fun c => match t.columns[c]? with
    | none => false
    | some col => col.gistOpclass == some false && col.typeKind == some 'b'

/-- `plan_locked_build`, once the last column was found to be a range. -/
def planPeriodKey (r : Rel) (t : TableObs) (k : AddKey) : Plan :=
  let kindOf := (((t.columns[k.columns.getLast k.covers]?).bind (·.typeKind)).getD 'r')
  if kindOf ≠ 'r' && kindOf ≠ 'm' then none
  else if gistRefused t k.columns then none
  else if t.kind = .partitionedTable then planKeyOnPartitions r t k
  else some [.applying [.alter r (.addKey k.name k.primary k.columns false)]]

/-- The first index that is the whole build, already paid for. -/
def backing (t : TableObs) (columns : List String) : Option (String × IndexObs) :=
  t.indexes.toList.find? fun (_, ix) => ix.isValid && ix.isUnique && !ix.hasExpressions &&
    ix.predicate == "" && ix.columns == columns

/-- `small_and_quiet` -/
def briefBuild (t : TableObs) (traits : IndexTraits) : Bool :=
  let size := if traits.answered && 0 ≤ traits.sizeBytes then traits.sizeBytes else t.sizeEstimate
  (size < plainCeilingBytes && t.lockWaiters == 0) || (traits.answered && !traits.concurrent)

def planOrdinaryKey (obs : Observations) (r : Rel) (k : AddKey) : List Step :=
  let t := obs.table r
  match backing t k.columns with
  | some (index, _) => [.applying [.alter r (.addKeyUsing k.name k.primary index)]]
  | none =>
    if briefBuild t (env.indexTraits obs r (.addKey k)) then
      [.applying [.alter r (.addKey k.name k.primary k.columns false)]]
    else
      let index : CreateIndex :=
        { name := k.name, columns := k.columns.map fun c => { name := c }, unique := true }
      [.applying [.alter r (.createIndex index false)],
        .applying [.alter r (.addKeyUsing k.name k.primary k.name)]]

/-- On the parent of partitions, and not valid: to be taken up, not present. -/
def unfinished (t : TableObs) (k : AddKey) : Bool :=
  t.kind == .partitionedTable && ((t.constraints[k.name]?).map (·.type)) == some k.type &&
    !((t.indexes[k.name]?).map (·.isValid)).getD true

/-- The columns of a primary key that are to be NOT NULL first. -/
def nullableKeyColumns (t : TableObs) (k : AddKey) : List String :=
  if k.primary then
    k.columns.filter fun c => !((t.columns[c]?).map (·.notNull)).getD false
  else []

def planUniqueLike (obs : Observations) (r : Rel) (k : AddKey) : Plan :=
  let t := obs.table r
  if !t.present then none
  else if k.columns.any fun c => (t.columns[c]?).isNone then none
  else if (t.constraints[k.name]?).isSome && !unfinished t k then
    if ((t.constraints[k.name]?).map (·.type)) = some k.type then some [.satisfied] else none
  else if k.primary && !unfinished t k &&
      t.constraints.toList.any fun c => c.2.type == .primaryKey then none
  else do
    let flags ← (nullableKeyColumns t k).mapM fun c => planSetNotNull env obs r c false
    let steps ←
      if k.withoutOverlaps then planPeriodKey r t k
      else if t.kind = .partitionedTable then planKeyOnPartitions r t k
      else some (planOrdinaryKey env obs r k)
    some (flags.flatten ++ steps)

/-! ## One intent -/

/-- The planner of each kind. An `add_column` is planned with the columns that join it. -/
def planIntent (obs : Observations) (r : Rel) (rest : List Intent) : Change → Plan
  | .createTable d => planCreateTable obs r d
  | .createPartition d => planCreatePartition obs r d
  | .dropTable => planDropTable obs r
  | .renameTable newName => planRenameTable obs r newName
  | .addColumn d =>
    match together r d rest with
    | [] => planAddColumn env obs r d
    | next :: more =>
      if d.defaulted then planAddColumnsDefaulted env obs r d (next :: more)
      else planAddColumnsFilled env obs r d (next :: more)
  | .dropColumn column => planDropColumn obs r column
  | .renameColumn column newName => planRenameColumn obs r column newName
  | .setNotNull column keepCheck => planSetNotNull env obs r column keepCheck
  | .dropNotNull column => planDropNotNull obs r column
  | .createIndex d => planCreateIndex env obs r d
  | .dropIndex name => planDropIndex obs r name
  | .addKey k => planUniqueLike env obs r k
  | .dropConstraint name => planDropConstraint obs r name
  | .renameConstraint name newName => planRenameConstraint obs r name newName

end Projection
end Laswell
