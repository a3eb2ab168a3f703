import Laswell.Document.Relations

/-!
# Laswell.Document.Settings

The parsers of the intents that set something on a table or a column, and of those that say who may
do what: policies, row security, grants and default privileges. Each is what the parser of that
name checks, in its order.
-/

namespace Laswell
namespace Document

open Base Canonical

/-! ## Columns -/

def parseSetIdentity (in_ : Intent) : Parse Unit := do
  in_.keys ["kind", "schema", "table", "column", "identity"]
  in_.names ["schema", "table", "column"]
  if has in_.body "identity" then
    let v ← requireString in_.body "identity" in_.place
    refuse (!oneOf ["ALWAYS", "BY DEFAULT"] v)
      (in_.place ++ ".identity must be ALWAYS or BY DEFAULT")

/-- A key that takes one of a few words, where it is given; it is read before it is known to be a
string. -/
def optionalWord (in_ : Intent) (key : String) (words : List String) (what : Bytes) : Parse Unit :=
  if has in_.body key then do
    let v ← valueText in_.body key []
    refuse (!oneOf words v) (in_.place ++ what)
  else return

def parseSetColumnOptions (in_ : Intent) : Parse Unit := do
  in_.keys ["kind", "schema", "table", "column", "statistics", "storage", "compression"]
  in_.names ["schema", "table", "column"]
  in_.optionalInteger "statistics"
  optionalWord in_ "storage" ["PLAIN", "EXTERNAL", "EXTENDED", "MAIN"]
    ".storage must be PLAIN, EXTERNAL, EXTENDED or MAIN"
  optionalWord in_ "compression" ["pglz", "lz4", "default"]
    ".compression must be pglz, lz4 or default"
  in_.changes ["statistics", "storage", "compression"]

/-! ## Tables -/

def parseSetTableOptions (in_ : Intent) : Parse Unit := do
  let body := in_.body
  in_.keys ["kind", "schema", "table", "options", "reset"]
  in_.names ["schema", "table"]
  refuse (has body "options" && !isObject (at_ body "options"))
    (in_.place ++ ".options must be an object of name to value")
  (members (at_ body "options")).forM fun m => do
    requireIdentifier m.1 "options" in_.ordinal
    refuse (!isString m.2 && !isNumber m.2)
      (in_.place ++ ".options." ++ m.1 ++ " must be a string or a number")
  if has body "reset" then
    refuse (!isArray (at_ body "reset")) (in_.place ++ ".reset must be an array")
    (elements (at_ body "reset")).forM fun r => do
      requireIdentifier (← getText r) "reset" in_.ordinal
  in_.changes ["options", "reset"]

def parseSetLogged (in_ : Intent) : Parse Unit := do
  in_.keys ["kind", "schema", "table", "logged"]
  in_.names ["schema", "table"]
  in_.statedFlag "logged" ".logged must be stated as a boolean"

def parseSetTablespace (in_ : Intent) : Parse Unit := do
  in_.keys ["kind", "schema", "table", "tablespace"]
  in_.names ["schema", "table", "tablespace"]

def parseSetAccessMethod (in_ : Intent) : Parse Unit := do
  in_.keys ["kind", "schema", "table", "method"]
  in_.names ["schema", "table", "method"]

def parseSetReplicaIdentity (in_ : Intent) : Parse Unit := do
  in_.keys ["kind", "schema", "table", "identity", "index"]
  in_.names ["schema", "table"]
  let v ← requireString in_.body "identity" in_.place
  refuse (!oneOf ["DEFAULT", "FULL", "NOTHING", "USING INDEX"] v)
    (in_.place ++ ".identity must be DEFAULT, FULL, NOTHING or USING INDEX")
  if oneOf ["USING INDEX"] v then in_.identifier "index"

def parseClusterOn (in_ : Intent) : Parse Unit := do
  in_.keys ["kind", "schema", "table", "index"]
  in_.names ["schema", "table"]
  if has in_.body "index" then
    requireIdentifier (← valueText in_.body "index" []) "index" in_.ordinal

def parseSetTriggerState (in_ : Intent) : Parse Unit := do
  in_.keys ["kind", "schema", "table", "trigger", "enabled"]
  in_.names ["schema", "table", "trigger"]
  in_.statedFlag "enabled" ".enabled must be stated as a boolean"

/-! ## Policies -/

def parseSetRowSecurity (in_ : Intent) : Parse Unit := do
  in_.keys ["kind", "schema", "table", "enabled", "force"]
  in_.names ["schema", "table"]
  in_.statedFlag "enabled" ".enabled must be stated as a boolean"
  in_.optionalFlag "force" ".force must be a boolean"

def parseCreatePolicy (in_ : Intent) : Parse Unit := do
  let body := in_.body
  in_.keys ["kind", "schema", "table", "name", "command", "roles", "using", "check", "comment"]
  optionalCreationComment in_
  in_.names ["schema", "table", "name"]
  refuse (!has body "using" && !has body "check")
    (in_.place ++ " needs a \"using\" or \"check\" expression")
  ["using", "check", "command"].forM fun k =>
    refuse (has body k && !isString (at_ body k)) (in_.place ++ "." ++ k ++ " must be a string")
  if has body "roles" then
    in_.list "roles" ".roles must be a non-empty array"
    in_.identifiers (elements (at_ body "roles")) "roles" ".roles must be strings"

def parseAlterPolicy (in_ : Intent) : Parse Unit := do
  in_.keys ["kind", "schema", "table", "name", "using", "check", "roles"]
  in_.names ["schema", "table", "name"]
  in_.changes ["using", "check", "roles"]

def parseDropPolicy (in_ : Intent) : Parse Unit := do
  in_.keys ["kind", "schema", "table", "name"]
  in_.names ["schema", "table", "name"]

/-! ## Privileges -/

/-- Each object type accepts privileges of its own. -/
def grantablePrivileges : List (String × List String) :=
  [("TABLE", ["SELECT", "INSERT", "UPDATE", "DELETE", "TRUNCATE", "REFERENCES", "TRIGGER",
      "MAINTAIN", "ALL"]),
    ("SCHEMA", ["USAGE", "CREATE", "ALL"]),
    ("SEQUENCE", ["USAGE", "SELECT", "UPDATE", "ALL"]),
    ("FUNCTION", ["EXECUTE", "ALL"]),
    ("TYPE", ["USAGE", "ALL"]),
    ("DOMAIN", ["USAGE", "ALL"]),
    ("DATABASE", ["CREATE", "CONNECT", "TEMPORARY", "TEMP", "ALL"])]

def privilegesOf (ot : Bytes) : List String :=
  ((grantablePrivileges.find? fun p => ascii p.1 == ot).map Prod.snd).getD []

/-- The roles of a grant, under the key it has for them. -/
def parseRoles (in_ : Intent) (who : String) : Parse Unit :=
  in_.list who ("." ++ ascii who ++ " must be a non-empty array of roles")

/-- `grant` and `revoke` -/
def parseGrantLike (granting : Bool) (in_ : Intent) : Parse Unit := do
  let body := in_.body
  let who := if granting then "to" else "from"
  in_.keys ["kind", "object_type", "schema", "table", "name", "arguments", "privileges", "columns",
    "all_in_schema", who]
  let ot ← valueText body "object_type" "TABLE"
  refuse (!oneOf (grantablePrivileges.map Prod.fst) ot)
    (in_.place ++ ".object_type cannot be granted on here: " ++ ot)
  if oneOf ["TABLE"] ot then
    in_.identifier "schema"
    let all ← valueFlag body "all_in_schema" false
    if !all then in_.identifier "table"
  else in_.identifier "name"
  in_.optionalFlag "all_in_schema" ".all_in_schema must be a boolean"
  in_.list "privileges" ".privileges must be a non-empty array"
  (elements (at_ body "privileges")).forM fun pv =>
    refuseDumping (!isOneOf pv (privilegesOf ot))
      (in_.place ++ ".privileges has one a " ++ ot ++ " does not accept: ") pv
  parseRoles in_ who
  (elements (at_ body who)).forM fun r =>
    refuse (!isString r) (in_.place ++ "." ++ who ++ " must be strings")
  if has body "columns" then
    refuse (!oneOf ["TABLE"] ot) (in_.place ++ ".columns applies only to a TABLE grant")
    in_.list "columns" ".columns must be a non-empty array"
    in_.identifiers (elements (at_ body "columns")) "columns" ".columns must be strings"

def parseAlterDefaultPrivileges (in_ : Intent) : Parse Unit := do
  let granting ← valueFlag in_.body "grant" true
  let who := if granting then "to" else "from"
  in_.keys ["kind", "schema", "for_role", "object_type", "privileges", "grant", who]
  let ot ← requireString in_.body "object_type" in_.place
  refuse (!oneOf ["TABLES", "SEQUENCES", "FUNCTIONS", "TYPES", "SCHEMAS"] ot)
    (in_.place ++ ".object_type must be TABLES, SEQUENCES, FUNCTIONS, TYPES or SCHEMAS")
  in_.list "privileges" ".privileges must be a non-empty array"
  parseRoles in_ who

/-! ## What they read without asking -/

def optionalTextRead (in_ : Intent) (key : String) : List (Check Thrown) :=
  if has in_.body key then [textRead in_.body key] else []

def setColumnOptionsReads (in_ : Intent) : List (Check Thrown) :=
  optionalTextRead in_ "storage" ++ optionalTextRead in_ "compression"

def setTableOptionsReads (in_ : Intent) : List (Check Thrown) :=
  if has in_.body "reset" then (elements (at_ in_.body "reset")).map getRead else []

def clusterOnReads (in_ : Intent) : List (Check Thrown) := optionalTextRead in_ "index"

/-- What is granted on, and the privileges it does not have. -/
def grantLikeReads (in_ : Intent) : List (Check Thrown) :=
  let ot := (valueText in_.body "object_type" "TABLE").value
  textRead in_.body "object_type" ::
    ((if oneOf ["TABLE"] ot then [flagRead in_.body "all_in_schema"] else []) ++
      dumpsOf (privilegesOf ot) (elements (at_ in_.body "privileges")))

def alterDefaultPrivilegesReads (in_ : Intent) : List (Check Thrown) :=
  [flagRead in_.body "grant"]

section Unguarded

variable (in_ : Intent)

@[simp] theorem unguarded_optionalWord (key : String) (words : List String) (what : Bytes) :
    unguarded (optionalWord in_ key words what) = optionalTextRead in_ key := by
  unfold optionalWord optionalTextRead
  split <;> simp

@[simp] theorem unguarded_parseRoles (who : String) : unguarded (parseRoles in_ who) = [] := by
  simp [parseRoles]

theorem unguarded_parseSetColumnOptions :
    unguarded (parseSetColumnOptions in_) = setColumnOptionsReads in_ := by
  simp [parseSetColumnOptions, setColumnOptionsReads]

theorem unguarded_parseSetTableOptions :
    unguarded (parseSetTableOptions in_) = setTableOptionsReads in_ := by
  simp [parseSetTableOptions, setTableOptionsReads, List.map_eq_flatMap]

theorem unguarded_parseClusterOn : unguarded (parseClusterOn in_) = clusterOnReads in_ := by
  simp [parseClusterOn, clusterOnReads, optionalTextRead]

theorem unguarded_parseGrantLike (granting : Bool) :
    unguarded (parseGrantLike granting in_) = grantLikeReads in_ := by
  cases htable : oneOf ["TABLE"] (valueText in_.body "object_type" "TABLE").value <;>
    simp [parseGrantLike, grantLikeReads, dumpsOf, htable]

theorem unguarded_parseAlterDefaultPrivileges :
    unguarded (parseAlterDefaultPrivileges in_) = alterDefaultPrivilegesReads in_ := by
  simp [parseAlterDefaultPrivileges, alterDefaultPrivilegesReads]

/-- The others ask before each reading. -/
theorem unguarded_settings :
    ∀ parse ∈ [parseSetIdentity, parseSetLogged, parseSetTablespace, parseSetAccessMethod,
      parseSetReplicaIdentity, parseSetTriggerState, parseSetRowSecurity, parseCreatePolicy,
      parseAlterPolicy, parseDropPolicy], unguarded (parse in_) = [] := by
  simp [parseSetIdentity, parseSetLogged, parseSetTablespace, parseSetAccessMethod,
    parseSetReplicaIdentity, parseSetTriggerState, parseSetRowSecurity, parseCreatePolicy,
    parseAlterPolicy, parseDropPolicy]

end Unguarded

end Document
end Laswell
