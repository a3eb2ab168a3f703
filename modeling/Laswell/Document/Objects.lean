import Laswell.Document.Relations

/-!
# Laswell.Document.Objects

The parsers of the intents about everything that is not a table: schemas, extensions, types,
functions, triggers, rules, sequences, views, statistics, replication, and the object types that
share one kind. Each is what the parser of that name checks, in its order.
-/

namespace Laswell
namespace Document

open Base Canonical

def lowerByte (c : UInt8) : UInt8 := if 0x41 ≤ c && c ≤ 0x5A then c + 0x20 else c

def lower (s : Bytes) : Bytes := s.map lowerByte

/-! ## Replication -/

def parseReplicationName (in_ : Intent) : Parse Unit := do
  in_.keys ["kind", "name"]
  in_.identifier "name"

/-- `create_publication` and `alter_publication`; only the first takes a comment. -/
def parsePublication (creating : Bool) (in_ : Intent) : Parse Unit := do
  let body := in_.body
  in_.keys (["kind", "name", "tables", "all_tables", "operations", "add_tables", "drop_tables",
    "publish_via_partition_root"] ++ if creating then ["comment"] else [])
  optionalCreationComment in_
  in_.optionalFlag "publish_via_partition_root" ".publish_via_partition_root must be a boolean"
  in_.identifier "name"
  ["tables", "add_tables", "drop_tables"].forM fun k =>
    refuse (has body k && !isList (at_ body k)) (in_.place ++ "." ++ k ++
      " must be a non-empty array")
  (valueElements body "operations").forM fun o =>
    refuseDumping (!isOneOf o ["insert", "update", "delete", "truncate"])
      (in_.place ++ ".operations has an unknown operation: ") o

/-- `create_subscription` and `alter_subscription` -/
def parseSubscription (creating : Bool) (in_ : Intent) : Parse Unit := do
  let body := in_.body
  in_.keys (["kind", "name", "connection", "publications", "enabled", "connect", "slot_name",
    "refresh"] ++ if creating then ["comment"] else [])
  optionalCreationComment in_
  in_.identifier "name"
  if has body "connection" then
    let conn ← requireString body "connection" in_.place
    refuse (occursIn "password" (lower conn))
      (in_.place ++ ".connection must not carry a password")
  if creating then
    in_.string "connection"
    in_.list "publications" ".publications must be a non-empty array"
  ["enabled", "connect", "refresh"].forM fun k =>
    in_.optionalFlag k ("." ++ ascii k ++ " must be a boolean")

/-! ## Object types that share a kind -/

def genericObjectTypes : List String :=
  ["AGGREGATE", "CAST", "COLLATION", "CONVERSION", "OPERATOR", "OPERATOR CLASS", "OPERATOR FAMILY",
    "TEXT SEARCH CONFIGURATION", "TEXT SEARCH DICTIONARY", "TEXT SEARCH PARSER",
    "TEXT SEARCH TEMPLATE", "TRANSFORM", "ACCESS METHOD", "LANGUAGE", "FOREIGN DATA WRAPPER",
    "SERVER", "USER MAPPING", "FOREIGN TABLE"]

/-- An object type, and what is said of one that is not among `types`. -/
def objectType (in_ : Intent) (types : List String) (what : Bytes) : Parse Bytes := do
  let ot ← requireString in_.body "object_type" in_.place
  refuse (!oneOf types ot) (in_.place ++ ".object_type " ++ what ++ ot)
  return ot

def parseAlterObject (in_ : Intent) : Parse Unit := do
  in_.keys ["kind", "object_type", "schema", "name", "to", "owner", "set_schema"]
  let _ ← objectType in_ genericObjectTypes "is not one alter_object handles: "
  in_.string "name"
  in_.changes ["to", "owner", "set_schema"]

def parseCreateObject (in_ : Intent) : Parse Unit := do
  in_.keys ["kind", "object_type", "schema", "name", "definition", "comment"]
  let _ ← objectType in_ genericObjectTypes "is not one create_object handles: "
  in_.string "name"
  in_.string "definition"

def parseDropObject (in_ : Intent) : Parse Unit := do
  in_.keys ["kind", "object_type", "schema", "name"]
  let _ ← objectType in_ genericObjectTypes "is not one drop_object handles: "
  in_.string "name"

/-- The drops that need a schema and a name, and nothing else. -/
def parseNamedObject (in_ : Intent) : Parse Unit := do
  in_.keys ["kind", "schema", "name"]
  in_.names ["schema", "name"]

def commentableObjectTypes : List String :=
  ["TABLE", "COLUMN", "VIEW", "MATERIALIZED VIEW", "INDEX", "SEQUENCE", "SCHEMA", "TYPE", "DOMAIN",
    "FUNCTION", "TRIGGER", "CONSTRAINT", "POLICY", "RULE", "EXTENSION", "PUBLICATION",
    "SUBSCRIPTION"]

def parseSetComment (in_ : Intent) : Parse Unit := do
  in_.keys ["kind", "object_type", "schema", "name", "table", "comment"]
  let ot ← objectType in_ commentableObjectTypes "is not one this tool comments on: "
  in_.identifier "name"
  in_.string "comment"
  refuse (oneOf ["SCHEMA", "EXTENSION", "PUBLICATION", "SUBSCRIPTION"] ot && has in_.body "schema")
    (in_.place ++ " should not carry \"schema\" for a " ++ ot ++ " comment")
  refuse (oneOf ["COLUMN", "TRIGGER", "CONSTRAINT", "POLICY", "RULE"] ot && !has in_.body "table")
    (in_.place ++ " needs \"table\" for a " ++ ot ++ " comment")

def parseSetOwner (in_ : Intent) : Parse Unit := do
  in_.keys ["kind", "object_type", "schema", "name", "owner"]
  let _ ← objectType in_ ["TABLE", "VIEW", "MATERIALIZED VIEW", "SEQUENCE", "SCHEMA", "TYPE",
    "DOMAIN", "FUNCTION"] "cannot be given an owner here: "
  in_.names ["name", "owner"]

def parseSecurityLabel (in_ : Intent) : Parse Unit := do
  in_.keys ["kind", "object_type", "schema", "name", "provider", "label"]
  in_.string "object_type"
  in_.string "name"
  in_.string "provider"
  refuse (has in_.body "label" && !isString (at_ in_.body "label"))
    (in_.place ++ ".label must be a string, or absent to remove it")

/-! ## Schemas and extensions -/

/-- `create_schema` and `drop_schema` -/
def parseSchemaLike (creating : Bool) (in_ : Intent) : Parse Unit := do
  in_.keys (["kind", "schema"] ++ if creating then ["comment", "owner"] else [])
  in_.identifier "schema"
  if creating then in_.string "comment"

def parseAlterSchema (in_ : Intent) : Parse Unit := do
  in_.keys ["kind", "schema", "to", "owner"]
  in_.identifier "schema"
  in_.changes ["to", "owner"]

def parseImportForeignSchema (in_ : Intent) : Parse Unit := do
  in_.keys ["kind", "server", "remote_schema", "schema", "limit_to", "except"]
  in_.names ["server", "remote_schema", "schema"]
  refuse (has in_.body "limit_to" && has in_.body "except")
    (in_.place ++ " cannot state both limit_to and except")

def parseCreateExtension (in_ : Intent) : Parse Unit := do
  in_.keys ["kind", "name", "schema", "version", "comment"]
  optionalCreationComment in_
  in_.identifier "name"
  if has in_.body "schema" then
    requireIdentifier (← valueText in_.body "schema" []) "schema" in_.ordinal
  refuse (has in_.body "version" && !isString (at_ in_.body "version"))
    (in_.place ++ ".version must be a string")

def parseAlterExtension (in_ : Intent) : Parse Unit := do
  in_.keys ["kind", "name", "version", "schema"]
  in_.identifier "name"
  in_.changes ["version", "schema"]

def parseDropExtension (in_ : Intent) : Parse Unit := do
  in_.keys ["kind", "name"]
  in_.identifier "name"

/-! ## Types -/

def parseCreateType (in_ : Intent) : Parse Unit := do
  in_.keys ["kind", "schema", "name", "type_kind", "labels", "base", "check", "attributes",
    "comment", "not_null"]
  in_.names ["schema", "name"]
  in_.string "comment"
  let tk ← requireString in_.body "type_kind" in_.place
  if tk = "enum" then
    in_.list "labels" ".labels must be a non-empty array for an enum"
    (elements (at_ in_.body "labels")).forM fun l =>
      refuse (!isString l) (in_.place ++ ".labels must be strings")
  else if tk = "domain" then in_.string "base"
  else if tk = "composite" then
    in_.list "attributes" ".attributes must be a non-empty array for a composite"
  else refuse true (in_.place ++ ".type_kind must be enum, domain or composite")

def parseAddEnumValue (in_ : Intent) : Parse Unit := do
  in_.keys ["kind", "schema", "name", "value", "before", "after"]
  in_.names ["schema", "name"]
  in_.string "value"
  refuse (has in_.body "before" && has in_.body "after")
    (in_.place ++ " cannot state both \"before\" and \"after\"")

def parseAlterDomain (in_ : Intent) : Parse Unit := do
  in_.keys ["kind", "schema", "name", "add_check", "constraint_name", "drop_constraint",
    "not_null", "default"]
  in_.names ["schema", "name"]
  if has in_.body "add_check" then
    in_.string "add_check"
    in_.identifier "constraint_name"
  in_.changes ["add_check", "drop_constraint", "not_null", "default"]

/-! ## Functions, triggers and rules -/

def parseCreateFunction (in_ : Intent) : Parse Unit := do
  let body := in_.body
  in_.keys ["kind", "schema", "name", "arguments", "returns", "language", "body", "volatility",
    "strict", "security_definer", "comment", "routine_kind"]
  let rk ← valueText body "routine_kind" "FUNCTION"
  refuse (!oneOf ["FUNCTION", "PROCEDURE"] rk)
    (in_.place ++ ".routine_kind must be FUNCTION or PROCEDURE")
  refuse (oneOf ["PROCEDURE"] rk && has body "returns")
    (in_.place ++ " is a PROCEDURE and cannot declare a return type")
  in_.names ["schema", "name"]
  if oneOf ["FUNCTION"] rk then in_.string "returns"
  in_.string "language"
  in_.string "body"
  in_.string "comment"
  refuse (has body "arguments" && !isArray (at_ body "arguments"))
    (in_.place ++ ".arguments must be an array of \x7bname, type\x7d")
  (valueElements body "arguments").forM fun a =>
    refuse (!isObject a || !has a "type") (in_.place ++ ".arguments entries need at least a type")

/-- A function is told from its overloads by its arguments. -/
def requireArguments (in_ : Intent) : Parse Unit :=
  refuse (!isArray (at_ in_.body "arguments"))
    (in_.place ++ ".arguments is required, even when empty")

def parseDropFunction (in_ : Intent) : Parse Unit := do
  in_.keys ["kind", "schema", "name", "arguments", "routine_kind"]
  in_.names ["schema", "name"]
  requireArguments in_

def parseAlterFunction (in_ : Intent) : Parse Unit := do
  in_.keys ["kind", "schema", "name", "arguments", "to", "owner", "search_path", "volatility"]
  in_.names ["schema", "name"]
  requireArguments in_
  in_.changes ["to", "owner", "search_path", "volatility"]

def parseCreateTrigger (in_ : Intent) : Parse Unit := do
  in_.keys ["kind", "schema", "table", "name", "timing", "events", "function", "for_each", "when",
    "comment"]
  optionalCreationComment in_
  in_.names ["schema", "table", "name"]
  in_.string "function"
  let timing ← requireString in_.body "timing" in_.place
  refuse (!oneOf ["BEFORE", "AFTER", "INSTEAD OF"] timing)
    (in_.place ++ ".timing must be BEFORE, AFTER or INSTEAD OF")
  in_.list "events" ".events must be a non-empty array"
  (elements (at_ in_.body "events")).forM fun e =>
    refuseDumping (!isOneOf e ["INSERT", "UPDATE", "DELETE", "TRUNCATE"])
      (in_.place ++ ".events has an unknown event: ") e

def parseDropTrigger (in_ : Intent) : Parse Unit := do
  in_.keys ["kind", "schema", "table", "name"]
  in_.names ["schema", "table", "name"]

def parseCreateRule (in_ : Intent) : Parse Unit := do
  in_.keys ["kind", "schema", "table", "name", "event", "instead", "action", "where", "comment"]
  optionalCreationComment in_
  in_.names ["schema", "table", "name"]
  let event ← requireString in_.body "event" in_.place
  refuse (!oneOf ["SELECT", "INSERT", "UPDATE", "DELETE"] event)
    (in_.place ++ ".event must be SELECT, INSERT, UPDATE or DELETE")
  in_.string "action"

def parseDropRule (in_ : Intent) : Parse Unit := do
  in_.keys ["kind", "schema", "table", "name"]
  in_.names ["schema", "table", "name"]

/-! ## Sequences -/

def parseCreateSequence (in_ : Intent) : Parse Unit := do
  in_.keys ["kind", "schema", "name", "comment", "start", "increment", "owned_by"]
  in_.names ["schema", "name"]
  in_.string "comment"
  ["start", "increment"].forM fun k => in_.optionalInteger k

def parseAlterSequence (in_ : Intent) : Parse Unit := do
  in_.keys ["kind", "schema", "name", "restart", "increment", "owned_by", "to"]
  in_.names ["schema", "name"]
  ["restart", "increment"].forM fun k => in_.optionalInteger k
  in_.changes ["restart", "increment", "owned_by", "to"]

/-! ## Views and statistics -/

/-- A definition is the query, and not the statement that makes the view. -/
def refuseStatement (in_ : Intent) (definition : Bytes) : Parse Unit :=
  refuse (decide (lower (definition.take 6) = "create"))
    (in_.place ++ ".definition is the view's QUERY, not a CREATE statement")

def parseReplaceView (in_ : Intent) : Parse Unit := do
  in_.keys ["kind", "schema", "name", "definition", "comment"]
  in_.names ["schema", "name"]
  let definition ← requireString in_.body "definition" in_.place
  refuse definition.isEmpty (in_.place ++ ".definition must not be empty")
  refuseStatement in_ definition

def parseAlterView (in_ : Intent) : Parse Unit := do
  in_.keys ["kind", "schema", "name", "to", "owner", "options"]
  in_.names ["schema", "name"]
  in_.changes ["to", "owner", "options"]

def parseCreateMatview (in_ : Intent) : Parse Unit := do
  in_.keys ["kind", "schema", "name", "definition", "comment", "with_data", "tablespace"]
  in_.names ["schema", "name"]
  in_.string "comment"
  refuseStatement in_ (← requireString in_.body "definition" in_.place)
  in_.optionalFlag "with_data" ".with_data must be a boolean"

def parseCreateTableAs (in_ : Intent) : Parse Unit := do
  in_.keys ["kind", "schema", "table", "definition", "comment", "with_data", "unlogged"]
  in_.names ["schema", "table"]
  in_.string "definition"
  in_.string "comment"
  in_.optionalFlag "with_data" ".with_data must be a boolean"

def parseCreateStatistics (in_ : Intent) : Parse Unit := do
  let columns := at_ in_.body "columns"
  in_.keys ["kind", "schema", "name", "table", "columns", "kinds", "comment"]
  in_.names ["schema", "name", "table"]
  refuse (!isArray columns || decide (size columns < 2))
    (in_.place ++ ".columns needs at least two columns")
  (elements columns).forM fun c => do
    requireIdentifier (← getText c) "columns" in_.ordinal
  (valueElements in_.body "kinds").forM fun k =>
    refuseDumping (!isOneOf k ["ndistinct", "dependencies", "mcv"])
      (in_.place ++ ".kinds has an unknown statistic kind: ") k

def parseSetTextSearchMapping (in_ : Intent) : Parse Unit := do
  let body := in_.body
  in_.keys ["kind", "schema", "name", "tokens", "dictionaries"]
  in_.names ["schema", "name"]
  in_.list "tokens" ".tokens must be a non-empty array"
  in_.distinct "tokens" ".tokens must be strings" (fun t => ".tokens names " ++ t ++ " twice") []
    (elements (at_ body "tokens"))
  refuse (!isArray (at_ body "dictionaries")) (in_.place ++ ".dictionaries must be an array")
  (elements (at_ body "dictionaries")).forM fun d => do
    refuse (!isString d) (in_.place ++ ".dictionaries must be strings")
    match splitDot (text d) with
    | none => requireIdentifier (text d) "dictionaries" in_.ordinal
    | some (schema, name) => do
      requireIdentifier schema "dictionaries" in_.ordinal
      requireIdentifier name "dictionaries" in_.ordinal

/-! ## What they read without asking -/

/-- An operation that is not known goes into the text of the error. -/
def publicationReads (in_ : Intent) : List (Check Thrown) :=
  dumpsOf ["insert", "update", "delete", "truncate"] (valueElements in_.body "operations")

def createExtensionReads (in_ : Intent) : List (Check Thrown) :=
  if has in_.body "schema" then [textRead in_.body "schema"] else []

def createFunctionReads (in_ : Intent) : List (Check Thrown) := [textRead in_.body "routine_kind"]

def createTriggerReads (in_ : Intent) : List (Check Thrown) :=
  dumpsOf ["INSERT", "UPDATE", "DELETE", "TRUNCATE"] (elements (at_ in_.body "events"))

def createStatisticsReads (in_ : Intent) : List (Check Thrown) :=
  (elements (at_ in_.body "columns")).map getRead ++
    dumpsOf ["ndistinct", "dependencies", "mcv"] (valueElements in_.body "kinds")

section Unguarded

variable (in_ : Intent)

@[simp] theorem unguarded_objectType (types : List String) (what : Bytes) :
    unguarded (objectType in_ types what) = [] := by simp [objectType]

@[simp] theorem unguarded_refuseStatement (definition : Bytes) :
    unguarded (refuseStatement in_ definition) = [] := unguarded_refuse _ _

@[simp] theorem unguarded_requireArguments : unguarded (requireArguments in_) = [] :=
  unguarded_refuse _ _

theorem unguarded_parsePublication (creating : Bool) :
    unguarded (parsePublication creating in_) = publicationReads in_ := by
  simp [parsePublication, publicationReads, dumpsOf]

theorem unguarded_parseCreateExtension :
    unguarded (parseCreateExtension in_) = createExtensionReads in_ := by
  simp [parseCreateExtension, createExtensionReads]

theorem unguarded_parseCreateFunction :
    unguarded (parseCreateFunction in_) = createFunctionReads in_ := by
  simp [parseCreateFunction, createFunctionReads]

theorem unguarded_parseCreateTrigger :
    unguarded (parseCreateTrigger in_) = createTriggerReads in_ := by
  simp [parseCreateTrigger, createTriggerReads, dumpsOf]

theorem unguarded_parseCreateStatistics :
    unguarded (parseCreateStatistics in_) = createStatisticsReads in_ := by
  simp [parseCreateStatistics, createStatisticsReads, dumpsOf, List.map_eq_flatMap]

theorem unguarded_parseSetTextSearchMapping :
    unguarded (parseSetTextSearchMapping in_) = [] := by
  have hdictionary : ∀ d : Json, unguarded (match splitDot (text d) with
      | none => requireIdentifier (text d) "dictionaries" in_.ordinal
      | some (schema, name) => do
        requireIdentifier schema "dictionaries" in_.ordinal
        requireIdentifier name "dictionaries" in_.ordinal) = [] := by
    intro d
    split <;> simp
  simp [parseSetTextSearchMapping, hdictionary]

/-- The others ask before each reading. -/
theorem unguarded_objects :
    ∀ parse ∈ [parseReplicationName, parseSubscription true, parseSubscription false,
      parseAlterObject, parseCreateObject, parseDropObject, parseNamedObject, parseSetComment,
      parseSetOwner, parseSecurityLabel, parseSchemaLike true, parseSchemaLike false,
      parseAlterSchema, parseImportForeignSchema, parseAlterExtension, parseDropExtension,
      parseCreateType, parseAddEnumValue, parseAlterDomain, parseDropFunction,
      parseAlterFunction, parseDropTrigger, parseCreateRule, parseDropRule, parseCreateSequence,
      parseAlterSequence, parseReplaceView, parseAlterView, parseCreateMatview,
      parseCreateTableAs], unguarded (parse in_) = [] := by
  simp [parseReplicationName, parseSubscription, parseAlterObject, parseCreateObject,
    parseDropObject, parseNamedObject, parseSetComment, parseSetOwner, parseSecurityLabel,
    parseSchemaLike, parseAlterSchema, parseImportForeignSchema, parseAlterExtension,
    parseDropExtension, parseCreateType, parseAddEnumValue, parseAlterDomain, parseDropFunction,
    parseAlterFunction, parseDropTrigger, parseCreateRule, parseDropRule, parseCreateSequence,
    parseAlterSequence, parseReplaceView, parseAlterView, parseCreateMatview, parseCreateTableAs]

end Unguarded

end Document
end Laswell
