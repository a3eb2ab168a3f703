import Mathlib.Data.List.Sort
import Laswell.Planner.Fill
import Laswell.Projection.Observed

/-!
# Laswell.Projection.Intents

The structural intents on tables, with the fields of their bodies the planner reads, and the
readings it takes of their texts.

* `Change`, `Intent`: the thirteen kinds.
* `normalizePredicate`: a predicate as far as the planner compares it with the catalog's spelling.
* `partitionKeyColumns`, `strategyOf`: the columns and the strategy in a partition key's text.
-/

namespace Laswell
namespace Projection

open Planner (FillSource isIdent)

/-! ## Columns -/

/-- A column as `create_table` declares it. -/
structure ColumnDef where
  name : String
  type : String
  nullable : Bool
  default : Option String := none

inductive After where
  | dropTrigger | keepTrigger
  deriving DecidableEq

def After.text : After → String
  | .dropTrigger => "drop_trigger"
  | .keepTrigger => "keep_trigger"

/-- An `add_column`. No fill is an empty list of sources: the parser refuses a fill without any, and
one for a nullable column. -/
structure AddColumn where
  column : String
  type : String
  nullable : Bool
  comment : String := ""
  default : Option String := none
  fill : List FillSource := []
  key : String := ""
  after : Option After := none
  paced : Bool := true
  fill_not_null : fill ≠ [] → nullable = false := by decide

namespace AddColumn

def filled (d : AddColumn) : Bool := !d.fill.isEmpty

def defaulted (d : AddColumn) : Bool := d.default.isSome

def fillText (d : AddColumn) : String := Planner.fillText d.fill

/-- As the passes over the rows are planned by. -/
def fillColumn (r : Rel) (d : AddColumn) : Planner.FillColumn where
  schema := r.schema
  table := r.name
  column := d.column
  type := d.type
  comment := d.comment
  sources := d.fill
  defaulted := d.defaulted
  after := (d.after.map After.text).getD ""
  key := d.key
  paced := d.paced

end AddColumn

/-! ## Tables -/

inductive Bound where
  | range | list | hash | default
  deriving DecidableEq

structure TableDef where
  columns : List ColumnDef
  primaryKey : Option (List String) := none
  withoutOverlaps : Bool := false
  partitionBy : Option String := none

/-- `create_table` with `partition_of` -/
structure PartitionDef where
  parent : Rel
  bound : Bound
  partitionBy : Option String := none

/-! ## Indexes and keys -/

inductive Direction where
  | asc | desc
  deriving DecidableEq

inductive Nulls where
  | first | last
  deriving DecidableEq

/-- A key column of an index: a name, or else an expression. -/
structure IndexColumn where
  name : String := ""
  expression : String := ""
  opclass : String := ""
  direction : Option Direction := none
  nulls : Option Nulls := none

/-- One of `index_order_terms`. -/
def IndexColumn.order (k : IndexColumn) : SortOrder where
  desc := k.direction == some .desc
  nullsFirst := (k.nulls.map (· == .first)).getD (k.direction == some .desc)

/-- `on_equivalent_index` -/
inductive OnEquivalent where
  | rename | refuse | adopt
  deriving DecidableEq

structure CreateIndex where
  name : String
  columns : List IndexColumn
  payload : List String := []
  unique : Bool := false
  method : String := "btree"
  predicate : String := ""
  /-- `index_options` -/
  options : List String := []
  onEquivalent : OnEquivalent := .rename

namespace CreateIndex

def hasExpressionKey (d : CreateIndex) : Bool := d.columns.any fun k => k.expression != ""

def names (d : CreateIndex) : List String := d.columns.map (·.name)

end CreateIndex

/-- An `add_primary_key` or an `add_unique_constraint`. -/
structure AddKey where
  primary : Bool
  name : String
  columns : List String
  withoutOverlaps : Bool := false
  named : name ≠ "" := by decide
  covers : columns ≠ [] := by decide

def AddKey.type (k : AddKey) : ConstraintType := if k.primary then .primaryKey else .unique

/-! ## Intents -/

inductive Change where
  | createTable (d : TableDef)
  | createPartition (d : PartitionDef)
  | dropTable
  | renameTable (newName : String)
  | addColumn (d : AddColumn)
  | dropColumn (column : String)
  | renameColumn (column newName : String)
  | setNotNull (column : String) (keepCheck : Bool)
  | dropNotNull (column : String)
  | createIndex (d : CreateIndex)
  | dropIndex (name : String)
  | addKey (k : AddKey)
  | dropConstraint (name : String)
  | renameConstraint (name newName : String)

/-- `rel` is `schema` and `table`. -/
structure Intent where
  rel : Rel
  change : Change

/-- The relations `conflict_keys` names, all of which are observed. -/
def Intent.named (in_ : Intent) : List Rel :=
  in_.rel :: match in_.change with
    | .createPartition d => [d.parent]
    | .renameTable newName => [{ in_.rel with name := newName }]
    | _ => []

/-! ## Texts -/

def castChar (c : Char) : Bool := isIdent c || c == '.'

/-- What is left after a `::`: the type's name is skipped, and one `(..)` or `[]` behind it. -/
def afterCast (p : List Char) : List Char :=
  match p.dropWhile castChar with
  | '(' :: rest => (rest.dropWhile (· ≠ ')')).tail
  | '[' :: ']' :: rest => rest
  | rest => rest

/-- The loop over the predicate. `out` is what was written, its last character first; no more
rounds are needed than there are characters. -/
def normalizeLoop : Nat → Bool → List Char → List Char → List Char
  | 0, _, out, _ => out.reverse
  | _ + 1, _, out, [] => out.reverse
  | fuel + 1, inString, out, '\'' :: rest => normalizeLoop fuel (!inString) ('\'' :: out) rest
  | fuel + 1, true, out, c :: rest => normalizeLoop fuel true (c :: out) rest
  | fuel + 1, false, out, ':' :: ':' :: rest => normalizeLoop fuel false out (afterCast rest)
  | fuel + 1, false, out, c :: rest =>
    if c == ' ' || c == '\n' || c == '\t' then
      normalizeLoop fuel false
        (if out.isEmpty || out.head? == some ' ' then out else ' ' :: out) rest
    else normalizeLoop fuel false (c.toLower :: out) rest

def trim (v : List Char) : List Char :=
  ((v.dropWhile (· == ' ')).reverse.dropWhile (· == ' ')).reverse

/-- The parenthesis opened first is closed by the last character and not before. -/
def wraps : Int → List Char → Bool
  | _, [] => true
  | depth, c :: rest =>
    let depth' := if c == '(' then depth + 1 else if c == ')' then depth - 1 else depth
    (depth' != 0 || rest.isEmpty) && wraps depth' rest

def unwrap : Nat → List Char → List Char
  | 0, norm => norm
  | fuel + 1, norm =>
    if 1 < norm.length && norm.head? == some '(' && norm.getLast? == some ')' && wraps 0 norm then
      unwrap fuel (trim norm.tail.dropLast)
    else norm

/-- `normalize` in `plan_create_index` -/
def normalizePredicate (p : String) : String :=
  let norm := trim (normalizeLoop (p.length + 1) false [] p.toList)
  String.ofList (unwrap norm.length norm)

/-- `normalize_reloption` -/
def normalizeReloption (opt : String) : String :=
  let lower := opt.toList.map Char.toLower
  let name := lower.takeWhile (· ≠ '=')
  match lower.dropWhile (· ≠ '=') with
  | [] => String.ofList lower
  | _ :: value =>
    if String.ofList value ∈ ["on", "yes", "true"] then String.ofList (name ++ "=true".toList)
    else if String.ofList value ∈ ["off", "no", "false"] then
      String.ofList (name ++ "=false".toList)
    else String.ofList lower

/-- `catalog_index_options` -/
def catalogIndexOptions (ix : IndexObs) : List String :=
  (ix.options.map normalizeReloption).insertionSort (· ≤ ·)

/-- One column of a partition key, without what may stand after it. -/
def partitionColumn (part : List Char) : Option String :=
  match part.dropWhile (· == ' ') with
  | [] => none
  | '"' :: rest =>
    if '"' ∈ rest then some (String.ofList (rest.takeWhile (· ≠ '"'))) else none
  | rest => some (String.ofList (rest.takeWhile (· ≠ ' ')))

/-- `partition_key_columns`: none at all where a part of the key is an expression. -/
def partitionKeyColumns (partkeydef : String) : List String :=
  let opened := (partkeydef.toList.dropWhile (· ≠ '(')).tail
  if ')' ∉ opened then []
  else
    let inner := (opened.reverse.dropWhile (· ≠ ')')).tail.reverse
    if '(' ∈ inner then [] else ((inner.splitOn ',').mapM partitionColumn).getD []

/-- `known_scalar_type` -/
def knownScalarType (type : String) : Bool :=
  let base := (type.toList.map Char.toLower).takeWhile (· ≠ '(')
  String.ofList (base.reverse.dropWhile (· == ' ')).reverse ∈
    ["smallint", "integer", "bigint", "int2", "int4", "int8", "int", "text", "character varying",
      "varchar", "character", "char", "bpchar", "date", "timestamp", "timestamptz",
      "timestamp without time zone", "timestamp with time zone", "time", "timetz",
      "time without time zone", "time with time zone", "interval", "uuid", "numeric", "decimal",
      "boolean", "bool", "real", "double precision", "float4", "float8", "oid", "money", "bytea",
      "macaddr", "macaddr8"]

/-- The first word of the key's text, in capitals. -/
def strategyOf (key : String) : String :=
  String.ofList ((key.toList.takeWhile fun c => c ≠ ' ' && c ≠ '(').map Char.toUpper)

def Bound.strategy : Bound → String
  | .range => "RANGE"
  | .list => "LIST"
  | .hash => "HASH"
  | .default => "DEFAULT"

end Projection
end Laswell
