import Laswell.Document.Relations

/-!
# Laswell.Document.Rows

The parsers of the intents about rows, and what they share: the source of the rows, the columns
that an update writes, and the rows kept apart. Each is what the parser of that name checks, in its
order.
-/

namespace Laswell
namespace Document

open Base Canonical

/-! ## The source of the rows -/

/-- `require_scalar_cell` -/
def requireScalarCell (cell : Json) (place : Bytes) : Parse Unit :=
  refuse (isObject cell || isArray cell) (place ++ " must be a string, number, boolean or null")

/-- One row of `values`. -/
def parseRow (place : Bytes) (arity : Nat) (row : Json) : Parse Unit := do
  refuse (!isArray row) (place ++ " must be an array")
  refuse (size row != arity) (place ++ " has " ++ natDigits (size row) ++ " values but " ++
    "\"columns\" names " ++ natDigits arity)
  (elements row).zipIdx.forM fun cell =>
    requireScalarCell cell.1 (place ++ "[" ++ natDigits cell.2 ++ "]")

/-- Each key has to be among the columns, which are read once more for it. -/
def requireKeys (in_ : Intent) (keys : List Bytes) (what : Bytes → Bytes) : Parse Unit :=
  keys.forM fun key => do
    (elements (at_ in_.body "columns")).forM fun c => do
      let _ ← getText c
    refuse (!(elements (at_ in_.body "columns")).any fun c => text c == key)
      (in_.place ++ what key)

def parseSelect (in_ : Intent) : Parse Unit := do
  in_.string "select"
  in_.identifiers (valueElements in_.body "columns") "columns" ".columns entries must be strings"
  refuse (!has in_.body "key") (in_.place ++ " uses \"select\" but names no \"key\"")

def parseValues (in_ : Intent) : Parse Unit := do
  let columns := at_ in_.body "columns"
  let values := at_ in_.body "values"
  in_.list "columns" " has \"values\" but no non-empty \"columns\""
  in_.distinct "columns" ".columns entries must be strings"
    (fun name => ".columns names " ++ quotedWord name ++ " twice") [] (elements columns)
  in_.list "values" ".values must be a non-empty array of rows"
  (elements values).zipIdx.forM fun row =>
    parseRow (in_.place ++ ".values[" ++ natDigits row.2 ++ "]") (size columns) row.1
  requireKeys in_ (← rowKeyColumns in_ false) fun key =>
    ".key " ++ quotedWord key ++ " is not in \"columns\""

/-- `parse_row_source`; what the key is for goes into its hints alone. -/
def parseRowSource (in_ : Intent) (allowWhere : Bool) : Parse Unit := do
  let body := in_.body
  let sources := countTrue
    [has body "values", has body "select", allowWhere && isWord (at_ body "where")]
  refuse (decide (sources = 0)) (in_.place ++ " names no rows")
  refuse (decide (1 < sources)) (in_.place ++ " names rows more than one way")
  if has body "select" then parseSelect in_
  if has body "values" then parseValues in_
  in_.optionalFlag "paced" ".paced must be a boolean"
  refuse (has body "verify_remaining" && !isString (at_ body "verify_remaining"))
    (in_.place ++ ".verify_remaining must be a string")

/-- `require_update_columns_supplied` -/
def requireUpdateColumnsSupplied (in_ : Intent) : Parse Unit :=
  let supplied := ((valueElements in_.body "columns").filter isString).map text
  if !has in_.body "update_columns" || supplied.isEmpty then return
  else
    (elements (at_ in_.body "update_columns")).forM fun c =>
      refuse (isString c && !supplied.contains (text c)) (in_.place ++ ".update_columns names " ++
        quotedWord (text c) ++ ", which is not one of the columns this intent supplies")

/-- `update_columns`, where `written` says that there is an update to write them. -/
def parseUpdateColumns (in_ : Intent) (written : Bool) (what : Bytes) : Parse Unit :=
  if has in_.body "update_columns" then do
    refuse (!written) (in_.place ++ " has \"update_columns\" but " ++ what)
    in_.list "update_columns" ".update_columns must be a non-empty array"
    in_.identifiers (elements (at_ in_.body "update_columns")) "update_columns"
      ".update_columns entries must be strings"
    requireUpdateColumnsSupplied in_
  else return

/-- `parse_preserve_and_invariants` -/
def parsePreserveAndInvariants (in_ : Intent) : Parse Unit := do
  parsePreserve in_ "changed"
  parseInvariants in_

/-- A word with a default: it is read first, and then asked for. -/
def defaultedWord (in_ : Intent) (key : String) (default : Bytes) (words : List String)
    (what : Bytes) : Parse Bytes := do
  let v ← valueText in_.body key default
  refuse (has in_.body key && (!isString (at_ in_.body key) || !oneOf words v)) (in_.place ++ what)
  return v

/-! ## The kinds -/

def parseDeleteRows (in_ : Intent) : Parse Unit := do
  let body := in_.body
  in_.keys ["kind", "schema", "table", "key", "where", "columns", "values", "select", "paced",
    "verify_remaining", "preserve", "assert_invariants"]
  in_.names ["schema", "table"]
  let keys ← rowKeyColumns in_ true
  let byPredicate := !has body "values" && !has body "select"
  refuse (byPredicate && decide (1 < keys.length))
    (in_.place ++ ".key is a list, which the \"where\" form does not take")
  if byPredicate then
    let filter ← valueText body "where" []
    refuse (!isString (at_ body "where") || filter.isEmpty)
      (in_.place ++ " names no rows to delete")
  parseRowSource in_ true
  parsePreserveAndInvariants in_

def parseInsertRows (in_ : Intent) : Parse Unit := do
  let body := in_.body
  in_.keys ["kind", "schema", "table", "key", "columns", "values", "select", "on_conflict",
    "conflict_target", "conflict_where", "update_columns", "overriding", "paced",
    "verify_remaining", "assert_invariants"]
  in_.names ["schema", "table"]
  let _ ← rowKeyColumns in_ false
  parseRowSource in_ false
  refuse (has body "select" && !isList (at_ body "columns"))
    (in_.place ++ " uses \"select\" but names no \"columns\"")
  let onConflict ← defaultedWord in_ "on_conflict" "refuse" ["refuse", "skip", "update"]
    ".on_conflict must be \"refuse\", \"skip\" or \"update\""
  if !oneOf ["refuse"] onConflict then
    in_.list "conflict_target"
      (".on_conflict " ++ quotedWord onConflict ++ " needs a \"conflict_target\"")
    in_.identifiers (elements (at_ body "conflict_target")) "conflict_target"
      ".conflict_target entries must be strings"
  else
    refuse (has body "conflict_target")
      (in_.place ++ " has a \"conflict_target\" but on_conflict is \"refuse\"")
  refuse (has body "conflict_where" && !isWord (at_ body "conflict_where"))
    (in_.place ++ ".conflict_where must be a non-empty string")
  parseUpdateColumns in_ (oneOf ["update"] onConflict) "on_conflict is not \"update\""
  if has body "overriding" then
    let o ← valueText body "overriding" []
    refuse (!isString (at_ body "overriding") || !oneOf ["system", "user"] o)
      (in_.place ++ ".overriding must be \"system\" or \"user\"")
  parsePreserveAndInvariants in_

def parseUpdateRows (in_ : Intent) : Parse Unit := do
  let columns := at_ in_.body "columns"
  in_.keys ["kind", "schema", "table", "key", "columns", "values", "select", "paced",
    "verify_remaining", "preserve", "assert_invariants"]
  in_.names ["schema", "table"]
  let keys ← rowKeyColumns in_ true
  parseRowSource in_ false
  in_.list "columns" " needs a non-empty \"columns\""
  keys.forM fun key =>
    refuse (!(elements columns).any fun c => isString c && text c == key)
      (in_.place ++ ".columns does not include the key " ++ quotedWord key)
  refuse (decide (size columns < keys.length + 1)) (in_.place ++ " sets no columns")
  parsePreserveAndInvariants in_

def parseMergeRows (in_ : Intent) : Parse Unit := do
  let body := in_.body
  in_.keys ["kind", "schema", "table", "key", "columns", "values", "select", "when_matched",
    "update_columns", "when_not_matched", "when_not_matched_by_source", "paced",
    "verify_remaining", "preserve", "assert_invariants"]
  in_.names ["schema", "table"]
  let keys ← rowKeyColumns in_ true
  parseRowSource in_ false
  in_.list "columns" " needs a non-empty \"columns\""
  (elements (at_ body "columns")).forM fun c =>
    refuse (!isString c) (in_.place ++ ".columns entries must be strings")
  requireKeys in_ keys fun key => ".columns does not include the key " ++ quotedWord key
  let matched ← defaultedWord in_ "when_matched" "update" ["update", "delete", "nothing"]
    ".when_matched must be \"update\", \"delete\" or \"nothing\""
  let notMatched ← defaultedWord in_ "when_not_matched" "insert" ["insert", "nothing"]
    ".when_not_matched must be \"insert\" or \"nothing\""
  let bySource ← defaultedWord in_ "when_not_matched_by_source" "nothing" ["nothing", "delete"]
    ".when_not_matched_by_source must be \"nothing\" or \"delete\""
  refuse ([matched, notMatched, bySource].all (oneOf ["nothing"])) (in_.place ++ " would do nothing")
  parseUpdateColumns in_ (oneOf ["update"] matched) ("when_matched is " ++ quotedWord matched)
  parsePreserveAndInvariants in_

def parseCopyRows (in_ : Intent) : Parse Unit := do
  let body := in_.body
  ["on_error", "reject_limit", "freeze"].forM fun k =>
    refuse (has body k) (in_.place ++ " uses " ++ quotedWord k ++ ", which this build cannot send")
  in_.keys ["kind", "schema", "table", "columns", "values", "verify_remaining",
    "assert_invariants"]
  in_.names ["schema", "table"]
  refuse (has body "select") (in_.place ++ " has \"select\", which COPY cannot take")
  parseRowSource in_ false
  refuse (!has body "values") (in_.place ++ " needs \"values\"")
  in_.list "columns" " needs a non-empty \"columns\""

/-! ## What they read without asking -/

/-- The columns, once for each key. -/
def keyReads (in_ : Intent) (keys : List Bytes) : List (Check Thrown) :=
  keys.flatMap fun _ => (elements (at_ in_.body "columns")).map getRead

def rowSourceReads (in_ : Intent) : List (Check Thrown) :=
  if has in_.body "values" then keyReads in_ (rowKeyColumns in_ false).value else []

def deleteRowsReads (in_ : Intent) : List (Check Thrown) :=
  (if !has in_.body "values" && !has in_.body "select" then [textRead in_.body "where"] else []) ++
    (rowSourceReads in_ ++ preserveReads in_)

def insertRowsReads (in_ : Intent) : List (Check Thrown) :=
  rowSourceReads in_ ++
    (textRead in_.body "on_conflict" ::
      ((if has in_.body "overriding" then [textRead in_.body "overriding"] else []) ++
        preserveReads in_))

def updateRowsReads (in_ : Intent) : List (Check Thrown) :=
  rowSourceReads in_ ++ preserveReads in_

def mergeRowsReads (in_ : Intent) : List (Check Thrown) :=
  rowSourceReads in_ ++
    (keyReads in_ (rowKeyColumns in_ true).value ++
      (["when_matched", "when_not_matched", "when_not_matched_by_source"].map (textRead in_.body) ++
        preserveReads in_))

section Unguarded

variable (in_ : Intent)

@[simp] theorem unguarded_requireKeys (keys : List Bytes) (what : Bytes → Bytes) :
    unguarded (requireKeys in_ keys what) = keyReads in_ keys := by
  simp [requireKeys, keyReads, List.map_eq_flatMap]

@[simp] theorem unguarded_parseSelect : unguarded (parseSelect in_) = [] := by simp [parseSelect]

@[simp] theorem unguarded_parseRow (place : Bytes) (arity : Nat) (row : Json) :
    unguarded (parseRow place arity row) = [] := by simp [parseRow, requireScalarCell]

@[simp] theorem unguarded_parseRowSource (allowWhere : Bool) :
    unguarded (parseRowSource in_ allowWhere) = rowSourceReads in_ := by
  simp [parseRowSource, parseValues, rowSourceReads]

@[simp] theorem unguarded_parseUpdateColumns (written : Bool) (what : Bytes) :
    unguarded (parseUpdateColumns in_ written what) = [] := by
  have hsupplied : unguarded (requireUpdateColumnsSupplied in_) = [] := by
    simp only [requireUpdateColumnsSupplied]
    split <;> simp
  unfold parseUpdateColumns
  split <;> simp [hsupplied]

@[simp] theorem unguarded_parsePreserveAndInvariants :
    unguarded (parsePreserveAndInvariants in_) = preserveReads in_ := by
  simp [parsePreserveAndInvariants]

@[simp] theorem unguarded_defaultedWord (key : String) (default : Bytes) (words : List String)
    (what : Bytes) :
    unguarded (defaultedWord in_ key default words what) = [textRead in_.body key] := by
  simp [defaultedWord]

theorem unguarded_parseDeleteRows : unguarded (parseDeleteRows in_) = deleteRowsReads in_ := by
  by_cases hpredicate : has in_.body "values" = false ∧ has in_.body "select" = false <;>
    simp [parseDeleteRows, deleteRowsReads, hpredicate]

theorem unguarded_parseInsertRows : unguarded (parseInsertRows in_) = insertRowsReads in_ := by
  cases hoverriding : has in_.body "overriding" <;>
    simp [parseInsertRows, insertRowsReads, hoverriding]

theorem unguarded_parseUpdateRows : unguarded (parseUpdateRows in_) = updateRowsReads in_ := by
  simp [parseUpdateRows, updateRowsReads]

theorem unguarded_parseMergeRows : unguarded (parseMergeRows in_) = mergeRowsReads in_ := by
  simp [parseMergeRows, mergeRowsReads]

theorem unguarded_parseCopyRows : unguarded (parseCopyRows in_) = rowSourceReads in_ := by
  simp [parseCopyRows]

end Unguarded

end Document
end Laswell
