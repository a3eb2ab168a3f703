import Mathlib.Data.List.Basic

/-!
# Laswell.Projection.Observed

What the planner reads of a table before it plans a structural change of it (`observations.h`, the
query of `catalog.h`), and what the vendor modules answer about one.

* `Object`: a JSON object, which is kept in the order of its names.
* `TableObs`: the columns, indexes and constraints of a table, and what depends on it.
* `IndexTraits`, `ConstraintTraits`: the readings a module may give of a table.
-/

namespace Laswell
namespace Projection

/-- A JSON object: its members, in the order of their names. -/
abbrev Object (α : Type) := Std.TreeMap String α

structure Rel where
  schema : String
  name : String
  deriving DecidableEq

/-! ## Tables -/

structure ColumnObs where
  type : String
  notNull : Bool
  /-- `type_kind` -/
  typeKind : Option Char := none
  gistOpclass : Option Bool := none

/-- One term of `column_order`. -/
structure SortOrder where
  desc : Bool
  nullsFirst : Bool
  deriving DecidableEq

/-- `columns` has the key columns first and the INCLUDE columns after them. An expression has no
name, and is not among them. -/
structure IndexObs where
  isValid : Bool
  isUnique : Bool
  isPrimary : Bool := false
  columns : List String
  keyColumnCount : Nat
  columnOrder : List SortOrder
  columnOpclasses : List String
  method : String
  predicate : String
  options : List String := []
  hasExpressions : Bool
  constraintBacked : Bool := false

namespace IndexObs

def keyColumns (ix : IndexObs) : List String := ix.columns.take ix.keyColumnCount

def includeColumns (ix : IndexObs) : List String := ix.columns.drop ix.keyColumnCount

end IndexObs

/-- `pg_constraint.contype` -/
inductive ConstraintType where
  | primaryKey | unique | exclusion | check | foreignKey | notNull | trigger
  deriving DecidableEq

/-- Those the server enforces with an index of its own. -/
def ConstraintType.indexed : ConstraintType → Bool
  | .primaryKey | .unique | .exclusion => true
  | _ => false

structure ConstraintObs where
  type : ConstraintType
  validated : Bool := true
  dependedOnBy : List String := []

structure PartIndexObs where
  valid : Bool
  unique : Bool
  constraint : Option String := none
  attachedTo : Option String := none

/-- One entry of `partition_parts`. -/
structure PartObs where
  relation : Rel
  partitioned : Bool
  indexes : Object PartIndexObs := ∅

inductive RelationKind where
  | table | partitionedTable | view | materializedView | other
  deriving DecidableEq

structure TableObs where
  /-- `exists` -/
  present : Bool := false
  kind : RelationKind := .other
  columns : Object ColumnObs := ∅
  indexes : Object IndexObs := ∅
  constraints : Object ConstraintObs := ∅
  triggers : List String := []
  /-- `dependent_views`, each with its `uses_columns` -/
  dependentViews : Object (List String) := ∅
  referencedBy : List String := []
  partitions : List Rel := []
  partitionParts : List PartObs := []
  partitionKey : String := ""
  partitionBy : String := ""
  defaultPartition : Option Rel := none
  sizeEstimate : Int := 0
  sizeMeasured : Option Int := none
  lockWaiters : Nat := 0

/-- `btreeGist` is whether the extension of that name is there. -/
structure Observations where
  tables : Rel → Option TableObs
  btreeGist : Bool := false

def Observations.table (obs : Observations) (r : Rel) : TableObs := (obs.tables r).getD {}

/-- What `obs.tables[r]` becomes under an assignment. -/
def Observations.assign (obs : Observations) (r : Rel) (t : TableObs) : Observations :=
  { obs with tables := Function.update obs.tables r (some t) }

@[simp] theorem Observations.table_assign (obs : Observations) (r q : Rel) (t : TableObs) :
    (obs.assign r t).table q = if q = r then t else obs.table q := by
  by_cases hq : q = r
  · subst hq
    simp [table, assign]
  · simp [table, assign, hq]

/-! ## What a module answers -/

/-- A part of the table that takes a concurrent build of its own, with its indexes and whether each
is valid. -/
structure IndexPart where
  relation : Rel
  indexes : Object Bool := ∅

structure IndexTraits where
  answered : Bool := false
  parts : List IndexPart := []
  concurrent : Bool := true
  sizeBytes : Int := -1

structure ConstraintTraits where
  answered : Bool := false
  separateValidation : Bool := true

/-- NOT VALID and VALIDATE cannot be told apart here. -/
def ConstraintTraits.refusesValidate (traits : ConstraintTraits) : Bool :=
  traits.answered && !traits.separateValidation

end Projection
end Laswell
