import Laswell.Projection.Intents

/-!
# Laswell.Projection.Server

The catalog a migration changes, and what PostgreSQL's statements on tables do to it.

* `Catalog`: tables by name, each with its columns and their NOT NULL flags, its indexes and its
  constraints; which table is under which (a partition, an inheriting table).
* `Alteration`, `Statement`: the statements the planner writes, without the text around them.
* `Server`: what depends on the server at hand, such as the names it makes up and the text it
  stores for a predicate.
* `Server.alter`, `Server.exec`: the effect of a statement, none where the server refuses it.
-/

namespace Laswell
namespace Projection

/-! ## The catalog -/

/-- An index. A key that is an expression has no name. -/
structure CatIndex where
  keys : List (Option String)
  payload : List String := []
  unique : Bool
  predicate : String := ""
  predicateColumns : List String := []
  expressionColumns : List String := []
  /-- the constraint it belongs to -/
  backs : Option String := none

def CatIndex.uses (i : CatIndex) (column : String) : Bool :=
  some column ∈ i.keys || column ∈ i.payload || column ∈ i.predicateColumns ||
    column ∈ i.expressionColumns

structure CatConstraint where
  type : ConstraintType
  columns : List String := []
  /-- the index it is enforced with -/
  index : Option String := none

/-- A column is there or not, and it is NOT NULL or not. -/
structure CatTable where
  columns : String → Option Bool := fun _ => none
  indexes : String → Option CatIndex := fun _ => none
  constraints : String → Option CatConstraint := fun _ => none

namespace CatTable

/-- Dropping the column takes the constraint along: it is on the column, or on an index that is. -/
def constraintUses (t : CatTable) (k : CatConstraint) (column : String) : Bool :=
  column ∈ k.columns || ((k.index.bind t.indexes).map (·.uses column)).getD false

end CatTable

/-- `under q r`: q is a partition of r or inherits from it, directly or not. `inParts r`: an index
of r is one on each of its parts. -/
structure Catalog where
  tables : Rel → Option CatTable
  under : Rel → Rel → Bool := fun _ _ => false
  inParts : Rel → Bool := fun _ => false

/-! ## Statements -/

inductive Alteration where
  | addColumn (d : ColumnDef)
  | dropColumn (column : String)
  | renameColumn (column newName : String)
  | setNotNull (columns : List String)
  | dropNotNull (column : String)
  /-- NOT VALID -/
  | addCheck (name : String) (columns : List String)
  | validateConstraint (name : String)
  | dropConstraint (name : String)
  | renameConstraint (name newName : String)
  | createIndex (d : CreateIndex) (only : Bool)
  | dropIndex (name : String)
  | renameIndex (name newName : String)
  | addKey (name : String) (primary : Bool) (columns : List String) (only : Bool)
  | addKeyUsing (name : String) (primary : Bool) (index : String)

/-- Whether it reaches the tables under the one it names. -/
def Alteration.reaches (inParts : Bool) : Alteration → Bool
  | .createIndex _ only | .addKey _ _ _ only => inParts && !only
  | .dropIndex _ | .renameIndex _ _ | .addKeyUsing _ _ _ => inParts
  | _ => true

/-- `other`: a comment, a function or a trigger, rows, an index attached to another, a reading. -/
inductive Statement where
  | createTable (r : Rel) (d : TableDef)
  | createPartition (r : Rel) (d : PartitionDef)
  | dropTable (r : Rel)
  | renameTable (r : Rel) (newName : String)
  | alter (r : Rel) (a : Alteration)
  | other

/-! ## The server -/

/-- What a column's definition makes besides the column: the type and the default are SQL. -/
structure Clause where
  notNull : Bool := false
  indexes : List (String × CatIndex) := []
  constraints : List (String × CatConstraint) := []

structure Server where
  clause : ColumnDef → Clause := fun _ => {}
  /-- the text the catalog gives for a predicate -/
  render : String → String := id
  /-- that text once a column in it is renamed -/
  renderRenamed : String → String → String → String := fun _ _ p => p
  columnsIn : String → List String := fun _ => []
  /-- a NOT NULL is a constraint with a name, as it is from version 18 on -/
  recordsNotNull : Bool := false
  notNullName : CatTable → String → String := fun _ column => column
  keyName : Rel → String := fun r => r.name ++ "_pkey"
  /-- from which index of its parent a partition has one of its own, and the same for constraints -/
  indexFrom : Rel → String → Option String := fun _ _ => none
  constraintFrom : Rel → String → Option String := fun _ _ => none
  /-- what an alteration makes of a table under the one it names -/
  inherit : Alteration → CatTable → CatTable := fun _ t => t

namespace Server

variable (s : Server)

/-- The column, which is there, becomes NOT NULL. -/
def makeNotNull (t : CatTable) (column : String) : Option CatTable :=
  (t.columns column).map fun notNull =>
    if notNull then t
    else
      { t with
        columns := Function.update t.columns column (some true)
        constraints :=
          if s.recordsNotNull then
            Function.update t.constraints (s.notNullName t column)
              (some { type := .notNull, columns := [column] })
          else t.constraints }

/-- Members of a list under their names, over those there were. -/
def withAll {α : Type} (members : List (String × α)) (f : String → Option α) : String → Option α :=
  members.foldl (fun f m => Function.update f m.1 (some m.2)) f

def addColumn (d : ColumnDef) (t : CatTable) : Option CatTable :=
  if (t.columns d.name).isSome then none
  else
    let added : CatTable :=
      { columns := Function.update t.columns d.name (some false)
        indexes := withAll (s.clause d).indexes t.indexes
        constraints := withAll (s.clause d).constraints t.constraints }
    if !d.nullable || (s.clause d).notNull then s.makeNotNull added d.name else some added

def dropColumn (column : String) (t : CatTable) : Option CatTable :=
  (t.columns column).map fun _ =>
    { columns := Function.update t.columns column none
      indexes := fun n => (t.indexes n).filter fun i => !i.uses column
      constraints := fun n => (t.constraints n).filter fun k => !t.constraintUses k column }

/-- A list with one name in the place of another. -/
def renamed (column newName : String) (columns : List String) : List String :=
  columns.map fun c => if c = column then newName else c

def renameIn (column newName : String) (i : CatIndex) : CatIndex :=
  { i with
    keys := i.keys.map fun k => k.map fun c => if c = column then newName else c
    payload := renamed column newName i.payload
    predicate :=
      if column ∈ i.predicateColumns then s.renderRenamed column newName i.predicate
      else i.predicate
    predicateColumns := renamed column newName i.predicateColumns
    expressionColumns := renamed column newName i.expressionColumns }

/-- The member called `name` is called `newName`. -/
def moved {α : Type} (name newName : String) (f : String → Option α) : String → Option α :=
  Function.update (Function.update f name none) newName (f name)

def renameColumn (column newName : String) (t : CatTable) : Option CatTable :=
  if (t.columns column).isNone || (t.columns newName).isSome then none
  else some
    { columns := moved column newName t.columns
      indexes := fun n => (t.indexes n).map (s.renameIn column newName)
      constraints := fun n => (t.constraints n).map fun k =>
        { k with columns := renamed column newName k.columns } }

/-- The constraint that recorded the flag goes with it. -/
def dropNotNull (column : String) (t : CatTable) : Option CatTable :=
  (t.columns column).map fun _ =>
    { t with
      columns := Function.update t.columns column (some false)
      constraints :=
        if s.recordsNotNull then fun n => (t.constraints n).filter fun k =>
          !(k.type = .notNull && k.columns = [column])
        else t.constraints }

def addConstraint (name : String) (k : CatConstraint) (t : CatTable) : Option CatTable :=
  if (t.constraints name).isSome then none
  else some { t with constraints := Function.update t.constraints name (some k) }

/-- With its index, where it has one; a NOT NULL takes the flag of its column along. -/
def dropConstraint (name : String) (t : CatTable) : Option CatTable :=
  (t.constraints name).map fun k =>
    { columns := fun c =>
        if k.type = .notNull && c ∈ k.columns then (t.columns c).map fun _ => false
        else t.columns c
      indexes := (k.index.map fun i => Function.update t.indexes i none).getD t.indexes
      constraints := Function.update t.constraints name none }

/-- With its index, where it has one. -/
def renameConstraint (name newName : String) (t : CatTable) : Option CatTable :=
  if (t.constraints newName).isSome then none
  else (t.constraints name).map fun k =>
    { t with
      indexes := (k.index.map fun i => moved i newName t.indexes).getD t.indexes
      constraints := Function.update (Function.update t.constraints name none) newName
        (some { k with index := k.index.map fun _ => newName }) }

/-- The index a definition asks for. -/
def built (d : CreateIndex) : CatIndex where
  keys := d.columns.map fun k => if k.expression = "" then some k.name else none
  payload := d.payload
  unique := d.unique
  predicate := if d.predicate = "" then "" else s.render d.predicate
  predicateColumns := if d.predicate = "" then [] else s.columnsIn d.predicate
  expressionColumns := d.columns.flatMap fun k => s.columnsIn k.expression

def addIndex (name : String) (i : CatIndex) (t : CatTable) : Option CatTable :=
  if (t.indexes name).isSome then none
  else some { t with indexes := Function.update t.indexes name (some i) }

/-- One that belongs to a constraint is not dropped by itself. -/
def dropIndex (name : String) (t : CatTable) : Option CatTable :=
  (t.indexes name).bind fun i =>
    if i.backs.isSome then none
    else some { t with indexes := Function.update t.indexes name none }

/-- One that belongs to a constraint gives its name to it. -/
def renameIndex (name newName : String) (t : CatTable) : Option CatTable :=
  if (t.indexes newName).isSome then none
  else (t.indexes name).map fun i =>
    { t with
      indexes := Function.update (Function.update t.indexes name none) newName
        (some { i with backs := i.backs.map fun _ => newName })
      constraints := (i.backs.map fun k => moved k newName t.constraints).getD t.constraints }

def keyType (primary : Bool) : ConstraintType := if primary then .primaryKey else .unique

/-- A primary key makes its columns NOT NULL. -/
def keyColumnsNotNull (primary : Bool) (columns : List String) (t : CatTable) : Option CatTable :=
  if primary then columns.foldlM s.makeNotNull t else some t

def addKey (name : String) (primary : Bool) (columns : List String) (t : CatTable) :
    Option CatTable := do
  let t ← s.keyColumnsNotNull primary columns t
  let t ← addConstraint name { type := keyType primary, columns := columns, index := some name } t
  addIndex name { keys := columns.map some, unique := true, backs := some name } t

/-- USING INDEX gives the index the constraint's name. -/
def addKeyUsing (name : String) (primary : Bool) (index : String) (t : CatTable) :
    Option CatTable := do
  let i ← t.indexes index
  if !i.unique || i.backs.isSome || i.predicate != "" || i.keys.any (·.isNone) then none
  else
    let columns := i.keys.filterMap id
    let t ← s.keyColumnsNotNull primary columns t
    let t ← addConstraint name { type := keyType primary, columns := columns, index := some name } t
    addIndex name { i with backs := some name }
      { t with indexes := Function.update t.indexes index none }

def alter : Alteration → CatTable → Option CatTable
  | .addColumn d, t => s.addColumn d t
  | .dropColumn column, t => dropColumn column t
  | .renameColumn column newName, t => s.renameColumn column newName t
  | .setNotNull columns, t => columns.foldlM s.makeNotNull t
  | .dropNotNull column, t => s.dropNotNull column t
  | .addCheck name columns, t => addConstraint name { type := .check, columns := columns } t
  | .validateConstraint name, t => (t.constraints name).map fun _ => t
  | .dropConstraint name, t => dropConstraint name t
  | .renameConstraint name newName, t => renameConstraint name newName t
  | .createIndex d _, t => addIndex d.name (s.built d) t
  | .dropIndex name, t => dropIndex name t
  | .renameIndex name newName, t => renameIndex name newName t
  | .addKey name primary columns _, t => s.addKey name primary columns t
  | .addKeyUsing name primary index, t => s.addKeyUsing name primary index t

/-- A table with the columns of its definition, one after the other, and its key. -/
def newTable (r : Rel) (d : TableDef) : Option CatTable := do
  let t ← d.columns.foldlM (fun t column => s.addColumn column t) {}
  match d.primaryKey with
  | none => some t
  | some columns => s.addKey (s.keyName r) true columns t

/-- A partition has the columns of its parent, and its own of each index and each constraint. -/
def newPartition (r : Rel) (parent : CatTable) : CatTable where
  columns := parent.columns
  indexes := fun n => (s.indexFrom r n).bind parent.indexes
  constraints := fun n => (s.constraintFrom r n).bind parent.constraints

/-- An altered table, and those under it where the statement reaches them. -/
def altered (c : Catalog) (r : Rel) (a : Alteration) (t : CatTable) : Catalog :=
  { c with
    tables := fun q =>
      if q = r then some t
      else if a.reaches (c.inParts r) && c.under q r then (c.tables q).map (s.inherit a)
      else c.tables q }

def exec : Statement → Catalog → Option Catalog
  | .createTable r d, c =>
    if (c.tables r).isSome then none
    else (s.newTable r d).map fun t =>
      { c with
        tables := Function.update c.tables r (some t)
        inParts := Function.update c.inParts r d.partitionBy.isSome }
  | .createPartition r d, c =>
    if (c.tables r).isSome then none
    else (c.tables d.parent).map fun p =>
      { tables := Function.update c.tables r (some (s.newPartition r p))
        under := fun q x => c.under q x || (q == r && (x == d.parent || c.under d.parent x))
        inParts := Function.update c.inParts r d.partitionBy.isSome }
  | .dropTable r, c =>
    (c.tables r).map fun _ =>
      -- its partitions go with it
      let gone := fun q => q == r || c.under q r
      { c with
        tables := fun q => if gone q then none else c.tables q
        under := fun q x => !gone q && !gone x && c.under q x }
  | .renameTable r newName, c =>
    let r' : Rel := { r with name := newName }
    if (c.tables r').isSome then none
    else (c.tables r).map fun t =>
      let before := fun q => if q = r' then r else q
      { tables := Function.update (Function.update c.tables r none) r' (some t)
        under := fun q x => q != r && x != r && c.under (before q) (before x)
        inParts := Function.update c.inParts r' (c.inParts r) }
  | .alter r a, c => (c.tables r).bind fun t => (s.alter a t).map (s.altered c r a)
  | .other, c => some c

def execAll (stmts : List Statement) (c : Catalog) : Option Catalog :=
  stmts.foldlM (fun c stmt => s.exec stmt c) c

def alterAll (as : List Alteration) (t : CatTable) : Option CatTable :=
  as.foldlM (fun t a => s.alter a t) t

end Server

end Projection
end Laswell
