import Laswell.Planner.Steps

/-!
# Laswell.Planner.Recipes

The planners that emit index builds and verify steps: one index, an index on a partitioned table,
a unique constraint or one that is built under its lock on a partitioned table, and the rebuilds
after a text search mapping has changed. Each emits steps from what was read of the catalog, or
refuses.
-/

namespace Laswell
namespace Planner

/-! ## Names in SQL -/

/-- A text in quotes, with those inside doubled. -/
def quoted (quote : Char) (s : String) : String :=
  String.ofList
    (quote :: (s.toList.flatMap fun c => if c = quote then [quote, c] else [c]) ++ [quote])

def quoteIdentifier (s : String) : String := quoted '"' s

def quoteLiteral (s : String) : String := quoted '\'' s

/-- `substr(0, find('.'))` -/
def beforeDot (s : String) : String := String.ofList (s.toList.takeWhile (· ≠ '.'))

/-- `substr(find('.') + 1)` -/
def afterDot (s : String) : String :=
  match s.toList.dropWhile (· ≠ '.') with
  | [] => s
  | _ :: rest => String.ofList rest

def quoteQualified (qualified : String) : String :=
  if '.' ∈ qualified.toList then
    quoteIdentifier (beforeDot qualified) ++ "." ++ quoteIdentifier (afterDot qualified)
  else quoteIdentifier qualified

def join (sep : String) (v : List String) : String := sep.intercalate v

/-- `LOCK TABLE` on each relation before the step's own statements, and the mark that has the
executor ask for the exclusive lock with a short wait. -/
def Step.weakerLockFirst (step : Step) (sqlRels : List String) : Step :=
  { step with
    sql := (sqlRels.map fun rel => "LOCK TABLE " ++ rel ++ " IN SHARE UPDATE EXCLUSIVE MODE;") ++
      step.sql
    detail := { step.detail with exclusiveRetry := true, weakerLockFirst := sqlRels.length } }

/-- A lock that readers or writers wait behind. -/
def locksOut (lock : String) : Bool :=
  contains lock "AccessExclusiveLock" || contains lock "ShareRowExclusiveLock" ||
    contains lock "ShareLock"

/-- `take_weaker_lock_first`, for the tables of an intent that can be locked. -/
def takeWeakerLockFirst (lockable : List String) (step : Step) : Step :=
  if lockable = [] ∨ step.action ≠ .apply ∨ step.sql = [] ∨ step.txnClass.apart ∨
      step.detail.exclusiveRetry ∨ !locksOut step.lock ∨
      step.sql.any (contains · "VALIDATE CONSTRAINT") ∨
      "ALTER INDEX ".toList.isPrefixOf (step.sql.headD "").toList then step
  else step.weakerLockFirst lockable

/-! ## One index -/

/-- A `create_index` intent. `using_` is its key as SQL: method, columns, INCLUDE, WITH and
WHERE. -/
structure IndexIntent where
  schema : String
  table : String
  name : String
  columns : List String
  using_ : String
  unique : Bool := false
  comment : String := ""

namespace IndexIntent

variable (in_ : IndexIntent)

def qualified : String := in_.schema ++ "." ++ in_.table

def uniqueSql : String := if in_.unique then "UNIQUE " else ""

def commentSql : String :=
  "COMMENT ON INDEX " ++ quoteIdentifier in_.schema ++ "." ++ quoteIdentifier in_.name ++ " IS " ++
    quoteLiteral in_.comment ++ ";"

end IndexIntent

def plainCeilingBytes : Int := 64 * 1024 * 1024

/-- A table that is small, and that nothing waits for. -/
def plainBuild (in_ : IndexIntent) (size : Int) (waiters : Nat) : Bool :=
  decide (size < plainCeilingBytes) && decide (waiters = 0) && !in_.unique

/-- `plan_create_index` on a table that is not partitioned, where no index of this name or shape
is there and no module has a say in the build. -/
def planCreateIndex (in_ : IndexIntent) (size : Int) (waiters : Nat) : Step where
  kind := createIndex
  txnClass := if plainBuild in_ size waiters then .optional else .forbidden
  sql :=
    [if plainBuild in_ size waiters then
      "CREATE INDEX " ++ quoteIdentifier in_.name ++ " ON " ++ quoteQualified in_.qualified ++
        in_.using_ ++ ";"
    else
      "CREATE " ++ in_.uniqueSql ++ "INDEX CONCURRENTLY " ++ quoteIdentifier in_.name ++ " ON " ++
        quoteQualified in_.qualified ++ in_.using_ ++ ";",
     in_.commentSql]
  lock :=
    if plainBuild in_ size waiters then "ShareLock (blocks writes for the whole build)"
    else "ShareUpdateExclusiveLock (two table scans)"
  detail := { schema := in_.schema, index := in_.name }

/-! ## On a partitioned table -/

/-- Why a recipe is refused. -/
inductive Refused where
  | noPartitions
  | keyIsExpression
  | keyLacks (column : String)
  | subpartitioned (relation : String)
  | nameTooLong (name : String)
  | indexNotUnique (name : String)
  | indexBacksNothing (name : String)
  deriving DecidableEq

/-- What was read of the index a partition is to have. -/
structure PartIndex where
  valid : Bool := false
  unique : Bool := false
  constraint : Option String := none
  attachedTo : Option String := none

/-- A partition, and the index on it that has the name the recipe gives its own. -/
structure Part where
  relation : String
  partitioned : Bool := false
  index : Option PartIndex := none

def childName (relation name : String) : String := afterDot relation ++ "_" ++ name

def tooLong (name : String) : Bool := decide (63 < name.utf8ByteSize)

/-- A unique key has every column of the partition key among its own. -/
def checkPartitionKey (key columns : List String) : Except Refused Unit :=
  if key = [] then .error .keyIsExpression
  else
    match key.find? fun k => !columns.contains k with
    | some k => .error (.keyLacks k)
    | none => .ok ()

def partitionBuild (in_ : IndexIntent) (part : String) : Step where
  kind := createIndex
  txnClass := .forbidden
  ownTransaction := true
  sql :=
    ["CREATE " ++ in_.uniqueSql ++ "INDEX CONCURRENTLY " ++
      quoteIdentifier (childName part in_.name) ++ " ON " ++ quoteQualified part ++
      in_.using_ ++ ";"]
  lock := "ShareUpdateExclusiveLock on " ++ part
  detail := { schema := in_.schema, index := childName part in_.name }

/-- On the parent alone: a catalog entry, invalid until every partition is attached. -/
def parentBuild (in_ : IndexIntent) : Step where
  kind := createIndex
  ownTransaction := true
  sql :=
    ["CREATE " ++ in_.uniqueSql ++ "INDEX " ++ quoteIdentifier in_.name ++ " ON ONLY " ++
      quoteQualified in_.qualified ++ in_.using_ ++ ";",
     in_.commentSql]
  lock := "ShareLock on " ++ in_.qualified ++ ", which holds no data itself"
  detail := { schema := in_.schema, index := in_.name }

def attachSql (parentSchema name childSchema child : String) : String :=
  "ALTER INDEX " ++ quoteIdentifier parentSchema ++ "." ++ quoteIdentifier name ++
    " ATTACH PARTITION " ++ quoteIdentifier childSchema ++ "." ++ quoteIdentifier child ++ ";"

/-- Its detail names no index. -/
def attachIndex (in_ : IndexIntent) (part : String) : Step where
  kind := createIndex
  sql := [attachSql in_.schema in_.name in_.schema (childName part in_.name)]
  lock := "AccessExclusiveLock on the partition's index and " ++
    "ShareUpdateExclusiveLock on the parent index, briefly"

/-- `plan_partitioned_index` -/
def planPartitionedIndex (in_ : IndexIntent) (key : List String) (parts : List Part) :
    Except Refused (List Step) := do
  if parts = [] then throw .noPartitions
  if in_.unique then checkPartitionKey key in_.columns
  if let some p := parts.find? Part.partitioned then throw (.subpartitioned p.relation)
  if let some p := parts.find? fun p => tooLong (childName p.relation in_.name) then
    throw (.nameTooLong (childName p.relation in_.name))
  return parts.map (fun p => partitionBuild in_ p.relation) ++ [parentBuild in_] ++
    parts.map (fun p => attachIndex in_ p.relation) ++ [verifyStep in_.schema in_.name]

/-- A constraint intent on a partitioned table. `clause` is what it says of its columns. -/
structure ConstraintIntent where
  kind : String
  qualified : String
  name : String
  columns : List String
  clause : String
  /-- whether the constraint is there, on the parent -/
  present : Bool := false

namespace ConstraintIntent

variable (in_ : ConstraintIntent)

/-- Each step in a transaction of its own. -/
def emit (txnClass : TxnClass) (sql : List String) (lock : String) : Step where
  kind := in_.kind
  txnClass := txnClass
  ownTransaction := true
  sql := sql
  lock := lock

def addTo (only : String) (name clause : String) : String :=
  "ALTER TABLE " ++ only ++ " ADD CONSTRAINT " ++ quoteIdentifier name ++ " " ++ clause ++ ";"

/-- The constraint as a catalog entry of the parent. -/
def addOnly : Step :=
  (in_.emit .required [addTo ("ONLY " ++ quoteQualified in_.qualified) in_.name in_.clause]
    ("AccessExclusiveLock on " ++ in_.qualified ++
      " alone, briefly -- no partition is locked or read")).weakerLockFirst
    ["ONLY " ++ quoteQualified in_.qualified]

def attach (p : Part) : Step :=
  in_.emit .required [attachSql (beforeDot in_.qualified) in_.name (beforeDot p.relation)
    (childName p.relation in_.name)]
    ("AccessExclusiveLock on the partition's index and " ++
      "ShareUpdateExclusiveLock on the parent's, briefly")

def verify : Step := verifyStep (beforeDot in_.qualified) in_.name

/-- The checks the two recipes share, on a partition that is to have the index `child`. -/
def checkPart (p : Part) : Except Refused Unit := do
  if p.partitioned then throw (.subpartitioned p.relation)
  if tooLong (childName p.relation in_.name) then
    throw (.nameTooLong (childName p.relation in_.name))

end ConstraintIntent

/-- An `add_unique_constraint` or `add_primary_key` intent on a partitioned table. -/
structure UniqueIntent where
  primary : Bool
  qualified : String
  name : String
  columns : List String
  present : Bool := false

namespace UniqueIntent

variable (in_ : UniqueIntent)

def kindSql : String := if in_.primary then "PRIMARY KEY" else "UNIQUE"

def quotedColumns : String := join ", " (in_.columns.map quoteIdentifier)

def constraint : ConstraintIntent where
  kind := if in_.primary then "add_primary_key" else "add_unique_constraint"
  qualified := in_.qualified
  name := in_.name
  columns := in_.columns
  clause := in_.kindSql ++ " (" ++ in_.quotedColumns ++ ")"
  present := in_.present

def built (p : Part) : Bool := (p.index.map PartIndex.valid).getD false

/-- The concurrent build on a partition, after an invalid leftover is dropped. -/
def buildOn (p : Part) : Step :=
  { in_.constraint.emit .forbidden
      ((if p.index.isSome then
          ["DROP INDEX CONCURRENTLY " ++ quoteIdentifier (beforeDot p.relation) ++ "." ++
            quoteIdentifier (childName p.relation in_.name) ++ ";"]
        else []) ++
        ["CREATE UNIQUE INDEX CONCURRENTLY " ++ quoteIdentifier (childName p.relation in_.name) ++
          " ON " ++ quoteQualified p.relation ++ " (" ++ in_.quotedColumns ++ ");"])
      ("ShareUpdateExclusiveLock on " ++ p.relation ++ " -- reads and writes continue") with
    detail := { schema := beforeDot p.relation, index := childName p.relation in_.name } }

/-- The partition's index becomes its own constraint. -/
def adopt (p : Part) : Step :=
  (in_.constraint.emit .required [ConstraintIntent.addTo (quoteQualified p.relation)
    (childName p.relation in_.name) (in_.kindSql ++ " USING INDEX " ++
      quoteIdentifier (childName p.relation in_.name))]
    ("AccessExclusiveLock on " ++ p.relation ++
      ", briefly: no build and no scan under it")).weakerLockFirst [quoteQualified p.relation]

/-- What is left to do on a partition. -/
def stepsOn (p : Part) : List Step :=
  (if built p then [] else [in_.buildOn p]) ++
  (if built p && (p.index.bind PartIndex.constraint).isSome then [] else [in_.adopt p]) ++
  (if built p && decide (p.index.bind PartIndex.attachedTo = some in_.name) then []
    else [in_.constraint.attach p])

def checkPart (p : Part) : Except Refused Unit := do
  in_.constraint.checkPart p
  if built p && !(p.index.map PartIndex.unique).getD false then
    throw (.indexNotUnique (childName p.relation in_.name))

end UniqueIntent

/-- The lock of the one statement on a parent without partitions. -/
def emptyParentLock (qualified : String) : String :=
  "AccessExclusiveLock on " ++ qualified ++ ", briefly: it has no partitions"

/-- `plan_unique_on_partitions` -/
def planUniqueOnPartitions (in_ : UniqueIntent) (key : List String) (parts : List Part) :
    Except Refused (List Step) := do
  checkPartitionKey key in_.columns
  parts.forM in_.checkPart
  if parts = [] then
    return [(in_.constraint.emit .required [ConstraintIntent.addTo (quoteQualified in_.qualified)
      in_.name in_.constraint.clause] (emptyParentLock in_.qualified)).weakerLockFirst
      [quoteQualified in_.qualified]]
  return (if in_.present then [] else [in_.constraint.addOnly]) ++ parts.flatMap in_.stepsOn ++
    [in_.constraint.verify]

namespace ConstraintIntent

variable (in_ : ConstraintIntent)

/-- What is left to do on a partition: its index is built by the statement that adds the
constraint, under that statement's lock. -/
def lockedStepsOn (p : Part) : List Step :=
  (if p.index.isSome then []
    else [(in_.emit .required [addTo (quoteQualified p.relation) (childName p.relation in_.name)
      in_.clause]
      ("AccessExclusiveLock on " ++ p.relation ++ " for the whole of its index build; the other " ++
        "partitions are not locked")).weakerLockFirst [quoteQualified p.relation]]) ++
  (if p.index.bind PartIndex.attachedTo = some in_.name then [] else [in_.attach p])

def checkLockedPart (p : Part) : Except Refused Unit := do
  in_.checkPart p
  if p.index.isSome && (p.index.bind PartIndex.constraint).isNone then
    throw (.indexBacksNothing (childName p.relation in_.name))

end ConstraintIntent

/-- `plan_locked_build_on_partitions`; `columns` are those compared for equality. -/
def planLockedBuildOnPartitions (in_ : ConstraintIntent) (key : List String) (parts : List Part) :
    Except Refused (List Step) := do
  checkPartitionKey key in_.columns
  parts.forM in_.checkLockedPart
  if parts = [] then
    return [in_.emit .required [ConstraintIntent.addTo (quoteQualified in_.qualified) in_.name
      in_.clause] (emptyParentLock in_.qualified)]
  return (if in_.present then [] else [in_.addOnly]) ++ parts.flatMap in_.lockedStepsOn ++
    [in_.verify]

/-! ## Text search -/

/-- `plan_set_text_search_mapping` where a mapping changes: its statements, and the indexes that
were built with the old one and can be rebuilt as a whole, by table, schema and name. -/
def planSetTextSearchMapping (sql : List String) (indexes : List (String × String × String)) :
    List Step :=
  { kind := "set_text_search_mapping"
    txnClass := .required
    ownTransaction := true
    sql
    lock := "none on any table: the configuration's catalog rows only" } ::
  indexes.flatMap fun ix =>
    [{ kind := "set_text_search_mapping"
       txnClass := .forbidden
       sql := ["REINDEX INDEX CONCURRENTLY " ++ quoteIdentifier ix.2.1 ++ "." ++
         quoteIdentifier ix.2.2 ++ ";"]
       lock := "ShareUpdateExclusiveLock on " ++ ix.1 ++ " -- reads and writes continue"
       detail := { schema := ix.2.1, index := ix.2.2 } },
     verifyStep ix.2.1 ix.2.2]

end Planner
end Laswell
