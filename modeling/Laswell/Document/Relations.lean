import Laswell.Document.Reading

/-!
# Laswell.Document.Relations

The parsers of the intents about tables, their columns, indexes, constraints and partitions. Each
`parse...` is what the parser of that name checks of an intent, in its order; `unguarded_...` lists
what it reads without asking.
-/

namespace Laswell
namespace Document

open Base Canonical

/-! ## Columns -/

/-- One of several sources of a filled column. -/
def parseFillSource (place : Bytes) (src : Json) : Parse Unit :=
  if isString src then refuse (text src).isEmpty (place ++ " is an empty expression")
  else do
    refuse (!isObject src) (place ++ " is neither an expression nor a source object")
    (members src).forM fun m =>
      refuse (!oneOf ["from", "on", "value"] m.1)
        (place ++ " has an unknown key " ++ quotedWord m.1)
    ["from", "on", "value"].forM fun k =>
      refuse (!isWord (at_ src k)) (place ++ " needs a non-empty " ++ quotedWord k)

/-- What `fill` gives, where an intent has it. -/
def parseFill (in_ : Intent) (fill : Json) : Parse Unit := do
  refuse (!isWord fill && !isList fill)
    (in_.place ++ ".fill must be a non-empty SQL expression, or a list of sources")
  if isArray fill then
    (elements fill).zipIdx.forM fun src =>
      parseFillSource (in_.place ++ ".fill[" ++ natDigits src.2 ++ "]") src.1
  refuse (flag (at_ in_.body "nullable"))
    (in_.place ++ ".fill is for a column declared with nullable false")

def parseAddColumn (in_ : Intent) : Parse Unit := do
  let body := in_.body
  in_.keys ["kind", "schema", "table", "column", "type", "nullable", "default", "comment", "fill",
    "key", "after", "paced"]
  in_.identifier "schema"
  in_.identifier "table"
  in_.identifier "column"
  in_.string "type"
  in_.statedFlag "nullable" " must state \"nullable\" explicitly"
  in_.string "comment"
  if has body "paced" then
    refuse (!isBoolean (at_ body "paced")) (in_.place ++ ".paced must be true or false")
    refuse (!has body "fill") (in_.place ++ " has \"paced\" and no \"fill\"")
  if has body "fill" then parseFill in_ (at_ body "fill")
  let defaultedFill := has body "fill" && has body "default" && !isNull (at_ body "default")
  refuse (defaultedFill && has body "after")
    (in_.place ++ ".after does not apply when the column has a default")
  if !defaultedFill && (has body "fill" || has body "after") then
    refuse (!has body "fill")
      (in_.place ++ ".after is only meaningful together with a fill expression")
    refuse (!isOneOf (at_ body "after") ["drop_trigger", "keep_trigger"])
      (in_.place ++ ".after must be \"drop_trigger\" or \"keep_trigger\"")
  if has body "key" then
    refuse (!has body "fill") (in_.place ++ ".key is only meaningful together with a fill " ++
      "expression")
    refuse (!isString (at_ body "key")) (in_.place ++ ".key must be a column name")
    requireIdentifier (text (at_ body "key")) "key" in_.ordinal
  if has body "fill" then
    let table ← valueText body "table" []
    let column ← valueText body "column" []
    let generated := table ++ "_" ++ column ++ "_laswell_fill"
    refuse (decide (63 < generated.length)) (in_.place ++ ": the generated name " ++
      quotedWord generated ++ " is " ++ natDigits generated.length ++ " bytes")

def parseSetNotNull (in_ : Intent) : Parse Unit := do
  in_.keys ["kind", "schema", "table", "column", "keep_check"]
  in_.identifier "schema"
  in_.identifier "table"
  in_.identifier "column"
  in_.optionalFlag "keep_check" ".keep_check must be a boolean"

def parseDropNotNull (in_ : Intent) : Parse Unit := do
  in_.keys ["kind", "schema", "table", "column"]
  in_.identifier "schema"
  in_.identifier "table"
  in_.identifier "column"

def parseAlterColumnDefault (in_ : Intent) : Parse Unit := do
  in_.keys ["kind", "schema", "table", "column", "default"]
  in_.identifier "schema"
  in_.identifier "table"
  in_.identifier "column"
  refuse (has in_.body "default" && !isString (at_ in_.body "default"))
    (in_.place ++ ".default must be a string, or absent to drop it")

/-- The one check that throws a `std::runtime_error`. -/
def parseAlterColumnType (in_ : Intent) : Parse Unit := do
  in_.keys ["kind", "schema", "table", "column", "type", "using"]
  in_.identifier "schema"
  in_.identifier "table"
  in_.identifier "column"
  in_.string "type"
  .require (.runtimeError (in_.place ++ ".using must be a string"))
    (!has in_.body "using" || isString (at_ in_.body "using"))

def parseDropColumn (in_ : Intent) : Parse Unit := do
  in_.keys ["kind", "schema", "table", "column"]
  in_.identifier "schema"
  in_.identifier "table"
  in_.identifier "column"

/-! ## Backfills -/

/-- `preserve` and `assert_invariants`, as each kind that has them reads them. `changed` is what
the table is said to be. -/
def parsePreserve (in_ : Intent) (changed : Bytes) : Parse Unit :=
  if has in_.body "preserve" then do
    let p := at_ in_.body "preserve"
    let place := in_.place ++ ".preserve"
    refuse (!isObject p) (place ++ " must be an object")
    rejectUnknownKeys p ["schema", "table"] place
    requireIdentifier (← requireString p "schema" place) "preserve.schema" in_.ordinal
    requireIdentifier (← requireString p "table" place) "preserve.table" in_.ordinal
    let schema ← valueText p "schema" []
    let inSchema ← valueText in_.body "schema" []
    if schema = inSchema then
      let table ← valueText p "table" []
      let inTable ← valueText in_.body "table" []
      refuse (decide (table = inTable)) (place ++ " names the table being " ++ changed)
  else return

def parseInvariants (in_ : Intent) : Parse Unit :=
  if has in_.body "assert_invariants" then do
    let place := in_.place ++ ".assert_invariants"
    refuse (!isArray (at_ in_.body "assert_invariants")) (place ++ " must be an array")
    (elements (at_ in_.body "assert_invariants")).forM fun inv => do
      refuse (!isObject inv) (place ++ " entries must be objects")
      rejectUnknownKeys inv ["name", "query"] (place ++ "[]")
      let _ ← requireString inv "name" (place ++ "[]")
      let _ ← requireString inv "query" (place ++ "[]")
  else return

def parseBackfill (in_ : Intent) : Parse Unit := do
  let body := in_.body
  in_.keys ["kind", "schema", "table", "key", "set", "from", "where", "verify_remaining",
    "assert_invariants", "preserve", "paced"]
  if has body "paced" then
    refuse (!isBoolean (at_ body "paced")) (in_.place ++ ".paced must be true or false")
    refuse (!flag (at_ body "paced") && has body "preserve")
      (in_.place ++ " asks for \"paced\": false together with \"preserve\"")
  in_.identifier "schema"
  in_.identifier "table"
  in_.identifier "key"
  refuse (!isObject (at_ body "set") || isEmpty (at_ body "set"))
    (in_.place ++ " needs a non-empty \"set\" object")
  (members (at_ body "set")).forM fun m => do
    requireIdentifier m.1 ("set." ++ m.1) in_.ordinal
    refuse (!isWord m.2) (in_.place ++ ".set." ++ m.1 ++ " must be a non-empty SQL expression")
  let filter ← valueText body "where" []
  refuse filter.isEmpty (in_.place ++ " has no \"where\" clause")
  parsePreserve in_ "backfilled"
  parseInvariants in_

/-! ## Indexes -/

def parseIndexColumn (in_ : Intent) (c : Json) : Parse Unit :=
  let place := in_.place ++ ".columns"
  if isString c then requireIdentifier (text c) "columns" in_.ordinal
  else do
    refuse (!isObject c) (place ++ " entries must be a column name or an object")
    rejectUnknownKeys c ["name", "expression", "direction", "nulls", "opclass"] place
    refuse (has c "name" == has c "expression")
      (place ++ " entries need exactly one of \"name\" and \"expression\"")
    if has c "name" then
      requireIdentifier (← requireString c "name" place) "name" in_.ordinal
    else
      let expression ← requireString c "expression" place
      refuse expression.isEmpty (place ++ " expression must not be empty")
    refuse (has c "direction" && !isOneOf (at_ c "direction") ["asc", "desc"])
      (place ++ " direction must be \"asc\" or \"desc\"")
    refuse (has c "nulls" && !isOneOf (at_ c "nulls") ["first", "last"])
      (place ++ " nulls must be \"first\" or \"last\"")
    if has c "opclass" then
      requireIdentifier (← requireString c "opclass" place) "opclass" in_.ordinal

/-- The characters of a storage parameter that is a word. -/
def isWordByte (c : UInt8) : Bool :=
  (0x30 ≤ c && c ≤ 0x39) || (0x41 ≤ c && c ≤ 0x5A) || (0x61 ≤ c && c ≤ 0x7A) || c == 0x5F ||
    c == 0x2E

def parseCreateIndex (in_ : Intent) : Parse Unit := do
  let body := in_.body
  in_.keys ["kind", "schema", "table", "name", "columns", "include", "unique", "method", "where",
    "with", "comment", "on_equivalent_index"]
  in_.identifier "schema"
  in_.identifier "table"
  in_.identifier "name"
  in_.list "columns" " needs a non-empty \"columns\" array"
  (elements (at_ body "columns")).forM fun c => parseIndexColumn in_ c
  if has body "include" then
    in_.list "include" ".include must be a non-empty array of column names"
    in_.identifiers (elements (at_ body "include")) "include"
      ".include entries must be column names"
    let method ← valueText body "method" "btree"
    refuse (!oneOf ["btree", "gist", "spgist"] method)
      (in_.place ++ " uses include with method " ++ quotedWord method)
  in_.string "comment"
  if has body "with" then
    let w := at_ body "with"
    refuse (!isObject w || isEmpty w) (in_.place ++ ".with must be a non-empty object")
    (members w).forM fun m => do
      requireIdentifier m.1 "with" in_.ordinal
      refuse (!(isNumber m.2 || isBoolean m.2 || (isWord m.2 && (text m.2).all isWordByte)))
        (in_.place ++ ".with." ++ m.1 ++ " must be a number, a boolean or a short word")
  refuse (has body "on_equivalent_index" &&
      !isOneOf (at_ body "on_equivalent_index") ["rename", "adopt", "refuse"])
    (in_.place ++ ".on_equivalent_index must be \"rename\", \"adopt\" or \"refuse\"")

def parseDropIndex (in_ : Intent) : Parse Unit := do
  in_.keys ["kind", "schema", "table", "name"]
  in_.identifier "schema"
  in_.identifier "table"
  in_.identifier "name"

/-! ## Constraints -/

/-- `optional_creation_comment` -/
def optionalCreationComment (in_ : Intent) : Parse Unit :=
  refuse (has in_.body "comment" && !isWord (at_ in_.body "comment"))
    (in_.place ++ ".comment must be a non-empty string")

def foreignKeyActions : List String :=
  ["CASCADE", "NO ACTION", "RESTRICT", "SET DEFAULT", "SET NULL"]

/-- What a foreign key does when a row it refers to goes or changes. -/
def parseAction (in_ : Intent) (key : String) : Parse Unit :=
  if has in_.body key then do
    let v ← valueText in_.body key []
    refuse (!oneOf foreignKeyActions v) (in_.place ++ "." ++ key ++ " must be one of: " ++
      ", ".intercalate foreignKeyActions)
    let period ← valueFlag in_.body "period" false
    refuse (period && v != ascii "NO ACTION")
      (in_.place ++ "." ++ key ++ " is " ++ v ++ " on a foreign key with a period")
  else return

def parseAddForeignKey (in_ : Intent) : Parse Unit := do
  let body := in_.body
  in_.keys ["kind", "schema", "table", "name", "columns", "references_schema",
    "references_table", "references_columns", "on_delete", "on_update", "comment", "period"]
  optionalCreationComment in_
  in_.identifier "schema"
  in_.identifier "table"
  in_.identifier "name"
  in_.identifier "references_schema"
  in_.identifier "references_table"
  ["columns", "references_columns"].forM fun key => do
    in_.list key (" needs a non-empty " ++ quotedWord key ++ " array")
    in_.identifiers (elements (at_ body key)) key ("." ++ ascii key ++ " entries must be strings")
  refuse (size (at_ body "columns") != size (at_ body "references_columns"))
    (in_.place ++ " has " ++ natDigits (size (at_ body "columns")) ++ " columns and " ++
      natDigits (size (at_ body "references_columns")) ++ " references_columns")
  ["on_delete", "on_update"].forM fun key => parseAction in_ key
  periodFlag body "period" "columns" in_.place

def occursIn (part : Bytes) : Bytes → Bool
  | [] => part.isEmpty
  | c :: rest => part.isPrefixOf (c :: rest) || occursIn part rest

def operatorBytes : Bytes := "+-*/<>=~!@#%^&|`?"

/-- An operator's own characters, and no comment. -/
def isOperator (op : Bytes) : Bool :=
  !op.isEmpty && decide (op.length ≤ 63) && op.all (operatorBytes.contains ·) &&
    !occursIn "--" op && !occursIn "/*" op

def parseAddExclusionConstraint (in_ : Intent) : Parse Unit := do
  let body := in_.body
  let place := in_.place ++ ".elements"
  in_.keys ["kind", "schema", "table", "name", "using", "elements", "where", "comment"]
  optionalCreationComment in_
  in_.identifier "schema"
  in_.identifier "table"
  in_.identifier "name"
  if has body "using" then in_.identifier "using"
  refuse (has body "where" && !isWord (at_ body "where"))
    (in_.place ++ ".where must be a non-empty string")
  in_.list "elements" ".elements must be a non-empty array"
  (elements (at_ body "elements")).forM fun e => do
    refuse (!isObject e) (place ++ " entries must be objects")
    rejectUnknownKeys e ["column", "expression", "with"] place
    refuse (has e "column" == has e "expression")
      (place ++ " entries name a column or an expression, one of them")
    if has e "column" then
      requireIdentifier (← requireString e "column" place) "elements.column" in_.ordinal
    else
      let expression ← requireString e "expression" place
      refuse expression.isEmpty (place ++ ".expression must not be empty")
    let op ← requireString e "with" place
    refuse (!isOperator op) (place ++ ".with is not an operator: " ++ quotedWord op)

def parseAddCheckConstraint (in_ : Intent) : Parse Unit := do
  in_.keys ["kind", "schema", "table", "name", "expression", "comment"]
  optionalCreationComment in_
  in_.identifier "schema"
  in_.identifier "table"
  in_.identifier "name"
  in_.string "expression"

/-- `add_unique_constraint` and `add_primary_key` -/
def parseUniqueLike (in_ : Intent) : Parse Unit := do
  in_.keys ["kind", "schema", "table", "name", "columns", "comment", "without_overlaps"]
  optionalCreationComment in_
  in_.identifier "schema"
  in_.identifier "table"
  in_.identifier "name"
  in_.list "columns" ".columns must be a non-empty array"
  in_.identifiers (elements (at_ in_.body "columns")) "columns" ".columns must be strings"
  periodFlag in_.body "without_overlaps" "columns" in_.place

def parseDropConstraint (in_ : Intent) : Parse Unit := do
  in_.keys ["kind", "schema", "table", "name"]
  in_.identifier "schema"
  in_.identifier "table"
  in_.identifier "name"

/-! ## Tables and partitions -/

/-- The two parts of a name around its first dot. -/
def splitDot (s : Bytes) : Option (Bytes × Bytes) :=
  if s.contains 0x2E then
    some (s.takeWhile (· != 0x2E), (s.dropWhile (· != 0x2E)).tail)
  else none

/-- A list of literals, as SQL writes them. -/
def parseListValues (in_ : Intent) : Parse Unit := do
  in_.list "values" ".values must be a non-empty array"
  (elements (at_ in_.body "values")).forM fun v =>
    refuse (!isString v) (in_.place ++ ".values must be strings")

/-- How many of these are so. -/
def countTrue (bs : List Bool) : Nat := bs.count true

def parsePartitionOf (in_ : Intent) (range list hash deflt : Bool) : Parse Unit := do
  let body := in_.body
  let parent ← requireString body "partition_of" in_.place
  refuse (splitDot parent).isNone (in_.place ++ ".partition_of must be \"schema.table\"")
  let halves := (splitDot parent).getD ([], [])
  requireIdentifier halves.1 "partition_of" in_.ordinal
  requireIdentifier halves.2 "partition_of" in_.ordinal
  ["columns", "primary_key", "without_overlaps"].forM fun k =>
    refuse (has body k) (in_.place ++ " gives " ++ k ++ " to a partition")
  refuse (countTrue [range, list, hash, deflt] != 1)
    (in_.place ++ " must state exactly one kind of bound")
  if range then
    in_.string "from"
    in_.string "to"
  if list then parseListValues in_
  if hash then
    let modulus := at_ body "modulus"
    let remainder := at_ body "remainder"
    refuse (!isInteger modulus || decide (intOf modulus < 1) || !isInteger remainder ||
        decide (intOf remainder < 0) || decide (intOf modulus ≤ intOf remainder))
      (in_.place ++ " needs an integer modulus of at least 1 and a remainder from 0 to modulus - 1")

/-- A column of a new table. -/
def parseColumn (in_ : Intent) (col : Json) : Parse Unit := do
  refuse (!isObject col) (in_.place ++ ".columns entries must be objects")
  rejectUnknownKeys col ["name", "type", "nullable", "default", "comment"]
    (in_.place ++ ".columns")
  requireIdentifier (← requireString col "name" in_.place) "name" in_.ordinal
  let _ ← requireString col "type" in_.place
  let _ ← requireString col "comment" in_.place
  if !isBoolean (at_ col "nullable") then
    let name ← valueText col "name" "?"
    refuse true (in_.place ++ ".columns." ++ name ++ ".nullable must be stated as a boolean")

def parseDeclaredKey (in_ : Intent) : Parse Unit := do
  let body := in_.body
  if has body "primary_key" then
    in_.list "primary_key" ".primary_key must be a non-empty array of columns"
    (elements (at_ body "columns")).forM fun col => do
      let _ ← valueText col "name" []
    let declared := (elements (at_ body "columns")).map fun col => text (at_ col "name")
    (elements (at_ body "primary_key")).forM fun c => do
      refuse (!isString c) (in_.place ++ ".primary_key must be strings")
      refuse (!declared.contains (text c)) (in_.place ++ ".primary_key names " ++
        quotedWord (text c) ++ ", which is not one of its columns")
  if has body "without_overlaps" then
    refuse (!has body "primary_key")
      (in_.place ++ ".without_overlaps is given without a primary_key")
    periodFlag body "without_overlaps" "primary_key" in_.place

def parseCreateTable (in_ : Intent) : Parse Unit := do
  let body := in_.body
  in_.keys ["kind", "schema", "table", "columns", "comment", "primary_key", "without_overlaps",
    "partition_by", "unlogged", "options", "partition_of", "from", "to", "values", "default",
    "modulus", "remainder"]
  in_.identifier "schema"
  in_.identifier "table"
  in_.string "comment"
  if has body "options" then
    refuse (!isObject (at_ body "options"))
      (in_.place ++ ".options must be an object of name to value")
    (members (at_ body "options")).forM fun m => do
      requireIdentifier m.1 "options" in_.ordinal
      refuse (!isString m.2 && !isNumber m.2)
        (in_.place ++ ".options." ++ m.1 ++ " must be a string or a number")
    refuse (has body "partition_by")
      (in_.place ++ " gives storage options to a partitioned table")
  let range := has body "from" || has body "to"
  let list := has body "values"
  let hash := has body "modulus" || has body "remainder"
  let deflt ← valueFlag body "default" false
  if has body "partition_of" then parsePartitionOf in_ range list hash deflt
  else
    refuse (range || list || hash || has body "default")
      (in_.place ++ " states a partition bound without partition_of")
    in_.list "columns" ".columns must be a non-empty array"
    (elements (at_ body "columns")).forM fun col => parseColumn in_ col
    parseDeclaredKey in_

def parseDropTable (in_ : Intent) : Parse Unit := do
  in_.keys ["kind", "schema", "table"]
  in_.identifier "schema"
  in_.identifier "table"

/-- The renames of a table, of a column and of a constraint; `what` is the key that names the
last two. -/
def parseRename (what : String) (in_ : Intent) : Parse Unit := do
  in_.keys (["kind", "schema", "table", "to"] ++ if what = "" then [] else [what])
  in_.identifier "schema"
  in_.identifier "table"
  in_.identifier "to"
  if what ≠ "" then in_.identifier what

def parseAttachPartition (in_ : Intent) : Parse Unit := do
  let body := in_.body
  in_.keys ["kind", "schema", "table", "partition", "from", "to", "values", "default"]
  in_.identifier "schema"
  in_.identifier "table"
  in_.identifier "partition"
  let range := has body "from" || has body "to"
  let list := has body "values"
  let deflt ← valueFlag body "default" false
  refuse (countTrue [range, list, deflt] != 1)
    (in_.place ++ " must state exactly one kind of bound")
  if range then
    in_.string "from"
    in_.string "to"
  if list then parseListValues in_

def parseDetachPartition (in_ : Intent) : Parse Unit := do
  in_.keys ["kind", "schema", "table", "partition"]
  in_.identifier "schema"
  in_.identifier "table"
  in_.identifier "partition"

/-! ## What they read without asking -/

/-- The table kept apart is compared with the intent's own. -/
def preserveReads (in_ : Intent) : List (Check Thrown) :=
  let p := at_ in_.body "preserve"
  if has in_.body "preserve" then
    [textRead p "schema", textRead in_.body "schema"] ++
      if (valueText p "schema" []).value = (valueText in_.body "schema" []).value then
        [textRead p "table", textRead in_.body "table"]
      else []
  else []

def addColumnReads (in_ : Intent) : List (Check Thrown) :=
  if has in_.body "fill" then [textRead in_.body "table", textRead in_.body "column"] else []

def alterColumnTypeReads (in_ : Intent) : List (Check Thrown) :=
  [⟨.runtimeError (in_.place ++ ".using must be a string"),
    !has in_.body "using" || isString (at_ in_.body "using")⟩]

def backfillReads (in_ : Intent) : List (Check Thrown) :=
  textRead in_.body "where" :: preserveReads in_

def createIndexReads (in_ : Intent) : List (Check Thrown) :=
  if has in_.body "include" then [textRead in_.body "method"] else []

def addForeignKeyReads (in_ : Intent) : List (Check Thrown) :=
  ["on_delete", "on_update"].flatMap fun key =>
    if has in_.body key then [textRead in_.body key, flagRead in_.body "period"] else []

/-- The name of a column goes into the text of an error, and into the names a key is checked
against. -/
def createTableReads (in_ : Intent) : List (Check Thrown) :=
  flagRead in_.body "default" ::
    if has in_.body "partition_of" then []
    else
      ((elements (at_ in_.body "columns")).flatMap fun col =>
        if isBoolean (at_ col "nullable") then [] else [textRead col "name"]) ++
      if has in_.body "primary_key" then
        (elements (at_ in_.body "columns")).map fun col => textRead col "name"
      else []

def attachPartitionReads (in_ : Intent) : List (Check Thrown) := [flagRead in_.body "default"]

section Unguarded

variable (in_ : Intent)

theorem unguarded_parseFill (fill : Json) : unguarded (parseFill in_ fill) = [] := by
  have hsource : ∀ place src, unguarded (parseFillSource place src) = [] := by
    intro place src
    unfold parseFillSource
    split <;> simp
  simp [parseFill, hsource]

@[simp] theorem unguarded_parsePreserve (changed : Bytes) :
    unguarded (parsePreserve in_ changed) = preserveReads in_ := by
  unfold parsePreserve preserveReads
  split <;> simp

@[simp] theorem unguarded_parseInvariants : unguarded (parseInvariants in_) = [] := by
  unfold parseInvariants
  split <;> simp

@[simp] theorem unguarded_optionalCreationComment :
    unguarded (optionalCreationComment in_) = [] := unguarded_refuse _ _

theorem unguarded_parseAddColumn : unguarded (parseAddColumn in_) = addColumnReads in_ := by
  simp [parseAddColumn, addColumnReads, unguarded_parseFill]

theorem unguarded_parseAlterColumnType :
    unguarded (parseAlterColumnType in_) = alterColumnTypeReads in_ := by
  simp [parseAlterColumnType]
  rfl

theorem unguarded_parseBackfill : unguarded (parseBackfill in_) = backfillReads in_ := by
  simp [parseBackfill, backfillReads]

theorem unguarded_parseCreateIndex : unguarded (parseCreateIndex in_) = createIndexReads in_ := by
  have hcolumn : ∀ c, unguarded (parseIndexColumn in_ c) = [] := by
    intro c
    unfold parseIndexColumn
    split <;> simp
  simp [parseCreateIndex, createIndexReads, hcolumn]

theorem unguarded_parseAddForeignKey :
    unguarded (parseAddForeignKey in_) = addForeignKeyReads in_ := by
  have haction : ∀ key, unguarded (parseAction in_ key) =
      if has in_.body key then [textRead in_.body key, flagRead in_.body "period"] else [] := by
    intro key
    unfold parseAction
    split <;> simp
  simp [parseAddForeignKey, addForeignKeyReads, haction]

theorem unguarded_parseCreateTable : unguarded (parseCreateTable in_) = createTableReads in_ := by
  have hpartition : ∀ range list hash deflt,
      unguarded (parsePartitionOf in_ range list hash deflt) = [] := by
    intro range list hash deflt
    simp [parsePartitionOf, parseListValues]
  have hcolumn : ∀ col, unguarded (parseColumn in_ col) =
      if isBoolean (at_ col "nullable") then [] else [textRead col "name"] := by
    intro col
    cases hnullable : isBoolean (at_ col "nullable") <;> simp [parseColumn, hnullable]
  have hkey : unguarded (parseDeclaredKey in_) = if has in_.body "primary_key" then
      (elements (at_ in_.body "columns")).map fun col => textRead col "name" else [] := by
    simp [parseDeclaredKey, List.map_eq_flatMap]
  simp [parseCreateTable, createTableReads, hpartition, hcolumn, hkey]

theorem unguarded_parseAttachPartition :
    unguarded (parseAttachPartition in_) = attachPartitionReads in_ := by
  simp [parseAttachPartition, attachPartitionReads, parseListValues]

/-- The others ask before each reading. -/
theorem unguarded_relations :
    ∀ parse ∈ [parseSetNotNull, parseDropNotNull, parseAlterColumnDefault, parseDropColumn,
      parseDropIndex, parseAddExclusionConstraint, parseAddCheckConstraint, parseUniqueLike,
      parseDropConstraint, parseDropTable, parseRename "", parseRename "column",
      parseRename "name", parseDetachPartition], unguarded (parse in_) = [] := by
  simp [parseSetNotNull, parseDropNotNull, parseAlterColumnDefault, parseDropColumn,
    parseDropIndex, parseAddExclusionConstraint, parseAddCheckConstraint, parseUniqueLike,
    parseDropConstraint, parseDropTable, parseRename, parseDetachPartition]

end Unguarded

end Document
end Laswell
