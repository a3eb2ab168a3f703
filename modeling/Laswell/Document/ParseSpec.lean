import Laswell.Document.Rows
import Laswell.Document.Settings
import Laswell.Document.Vendors
import Laswell.Spec.Keys

/-!
# Laswell.Document.ParseSpec

`parse_spec`: the keys at the top of a document, its intents kind by kind, and the canonical form
that is signed. The kinds of vendor modules are there in a build that has the module.

* `specReads`: everything a document has that is read without asking what it is.
* `parseSpec_specError_iff`: a document that is not accepted is refused by a `SpecError`, unless the
  parser comes to one of these and it does not hold.
-/

namespace Laswell
namespace Document

open Base Canonical

/-! ## Kinds -/

inductive IntentKind where
  | core (kind : Spec.IntentKind)
  | vendor (kind : VendorKind)

def coreKinds : List (String × Spec.IntentKind) :=
  [("add_column", .addColumn), ("backfill", .backfill), ("create_index", .createIndex),
    ("drop_index", .dropIndex), ("set_not_null", .setNotNull), ("add_foreign_key", .addForeignKey),
    ("add_check_constraint", .addCheckConstraint), ("drop_constraint", .dropConstraint),
    ("alter_column_type", .alterColumnType), ("drop_column", .dropColumn),
    ("replace_view", .replaceView), ("add_unique_constraint", .addUniqueConstraint),
    ("add_primary_key", .addPrimaryKey), ("attach_partition", .attachPartition),
    ("detach_partition", .detachPartition), ("rename_table", .renameTable),
    ("rename_column", .renameColumn), ("rename_constraint", .renameConstraint),
    ("create_table", .createTable), ("drop_table", .dropTable), ("delete_rows", .deleteRows),
    ("set_row_security", .setRowSecurity), ("create_policy", .createPolicy),
    ("drop_policy", .dropPolicy), ("set_trigger_state", .setTriggerState), ("grant", .grant),
    ("revoke", .revoke), ("create_schema", .createSchema), ("drop_schema", .dropSchema),
    ("create_extension", .createExtension), ("drop_extension", .dropExtension),
    ("create_type", .createType), ("drop_type", .dropType), ("add_enum_value", .addEnumValue),
    ("create_function", .createFunction), ("drop_function", .dropFunction),
    ("create_trigger", .createTrigger), ("drop_trigger", .dropTrigger),
    ("create_sequence", .createSequence), ("drop_sequence", .dropSequence),
    ("drop_view", .dropView), ("alter_column_default", .alterColumnDefault),
    ("drop_not_null", .dropNotNull), ("alter_sequence", .alterSequence),
    ("alter_schema", .alterSchema), ("alter_extension", .alterExtension),
    ("alter_domain", .alterDomain), ("alter_function", .alterFunction), ("alter_view", .alterView),
    ("alter_policy", .alterPolicy), ("set_comment", .setComment), ("set_owner", .setOwner),
    ("set_identity", .setIdentity), ("drop_expression", .dropExpression),
    ("set_column_options", .setColumnOptions), ("set_table_options", .setTableOptions),
    ("set_logged", .setLogged), ("set_tablespace", .setTablespace),
    ("set_access_method", .setAccessMethod), ("set_replica_identity", .setReplicaIdentity),
    ("cluster_on", .clusterOn), ("create_materialized_view", .createMaterializedView),
    ("create_statistics", .createStatistics), ("drop_statistics", .dropStatistics),
    ("create_rule", .createRule), ("drop_rule", .dropRule),
    ("create_publication", .createPublication), ("alter_publication", .alterPublication),
    ("drop_publication", .dropPublication), ("create_subscription", .createSubscription),
    ("alter_subscription", .alterSubscription), ("drop_subscription", .dropSubscription),
    ("create_object", .createObject), ("drop_object", .dropObject), ("alter_object", .alterObject),
    ("add_exclusion_constraint", .addExclusionConstraint),
    ("set_text_search_mapping", .setTextSearchMapping), ("create_table_as", .createTableAs),
    ("import_foreign_schema", .importForeignSchema), ("security_label", .securityLabel),
    ("alter_default_privileges", .alterDefaultPrivileges), ("insert_rows", .insertRows),
    ("update_rows", .updateRows), ("merge_rows", .mergeRows), ("copy_rows", .copyRows)]

/-- `intent_kinds`, in a build with these modules -/
def intentKinds (enabled : List Vendor) : List (String × IntentKind) :=
  (enabled.flatMap fun v => (vendorKinds v).map fun k => (k.1, .vendor k.2)) ++
    coreKinds.map fun k => (k.1, .core k.2)

def kindOf (enabled : List Vendor) (name : Bytes) : Option IntentKind :=
  ((intentKinds enabled).find? fun k => ascii k.1 == name).map Prod.snd

def parseCore : Spec.IntentKind → Intent → Parse Unit
  | .addColumn => parseAddColumn
  | .backfill => parseBackfill
  | .createIndex => parseCreateIndex
  | .dropIndex => parseDropIndex
  | .setNotNull => parseSetNotNull
  | .addForeignKey => parseAddForeignKey
  | .addCheckConstraint => parseAddCheckConstraint
  | .dropConstraint => parseDropConstraint
  | .alterColumnType => parseAlterColumnType
  | .dropColumn => parseDropColumn
  | .replaceView => parseReplaceView
  | .addUniqueConstraint => parseUniqueLike
  | .addPrimaryKey => parseUniqueLike
  | .attachPartition => parseAttachPartition
  | .detachPartition => parseDetachPartition
  | .renameTable => parseRename ""
  | .renameColumn => parseRename "column"
  | .renameConstraint => parseRename "name"
  | .createTable => parseCreateTable
  | .dropTable => parseDropTable
  | .deleteRows => parseDeleteRows
  | .setRowSecurity => parseSetRowSecurity
  | .createPolicy => parseCreatePolicy
  | .dropPolicy => parseDropPolicy
  | .setTriggerState => parseSetTriggerState
  | .grant => parseGrantLike true
  | .revoke => parseGrantLike false
  | .createSchema => parseSchemaLike true
  | .dropSchema => parseSchemaLike false
  | .createExtension => parseCreateExtension
  | .dropExtension => parseDropExtension
  | .createType => parseCreateType
  | .dropType => parseNamedObject
  | .addEnumValue => parseAddEnumValue
  | .createFunction => parseCreateFunction
  | .dropFunction => parseDropFunction
  | .createTrigger => parseCreateTrigger
  | .dropTrigger => parseDropTrigger
  | .createSequence => parseCreateSequence
  | .dropSequence => parseNamedObject
  | .dropView => parseNamedObject
  | .alterColumnDefault => parseAlterColumnDefault
  | .dropNotNull => parseDropNotNull
  | .alterSequence => parseAlterSequence
  | .alterSchema => parseAlterSchema
  | .alterExtension => parseAlterExtension
  | .alterDomain => parseAlterDomain
  | .alterFunction => parseAlterFunction
  | .alterView => parseAlterView
  | .alterPolicy => parseAlterPolicy
  | .setComment => parseSetComment
  | .setOwner => parseSetOwner
  | .setIdentity => parseSetIdentity
  | .dropExpression => parseDropNotNull
  | .setColumnOptions => parseSetColumnOptions
  | .setTableOptions => parseSetTableOptions
  | .setLogged => parseSetLogged
  | .setTablespace => parseSetTablespace
  | .setAccessMethod => parseSetAccessMethod
  | .setReplicaIdentity => parseSetReplicaIdentity
  | .clusterOn => parseClusterOn
  | .createMaterializedView => parseCreateMatview
  | .createStatistics => parseCreateStatistics
  | .dropStatistics => parseNamedObject
  | .createRule => parseCreateRule
  | .dropRule => parseDropRule
  | .createPublication => parsePublication true
  | .alterPublication => parsePublication false
  | .dropPublication => parseReplicationName
  | .createSubscription => parseSubscription true
  | .alterSubscription => parseSubscription false
  | .dropSubscription => parseReplicationName
  | .createObject => parseCreateObject
  | .dropObject => parseDropObject
  | .alterObject => parseAlterObject
  | .addExclusionConstraint => parseAddExclusionConstraint
  | .setTextSearchMapping => parseSetTextSearchMapping
  | .createTableAs => parseCreateTableAs
  | .importForeignSchema => parseImportForeignSchema
  | .securityLabel => parseSecurityLabel
  | .alterDefaultPrivileges => parseAlterDefaultPrivileges
  | .insertRows => parseInsertRows
  | .updateRows => parseUpdateRows
  | .mergeRows => parseMergeRows
  | .copyRows => parseCopyRows

def parseIntent : IntentKind → Intent → Parse Unit
  | .core kind => parseCore kind
  | .vendor kind => parseVendor kind

/-! ## The top of a document -/

def specVersion : Int := 1

/-- `signed_top_level_keys`, in the order of the set -/
def signedTopLevelKeys : List String :=
  ["depends_on", "description", "id", "intents", "laswell_spec_version", "rationale", "release",
    "target"]

structure Target where
  connection : Bytes := []
  database : Bytes := []
  environment : Bytes := []
  epoch : Bytes := []
  minServerVersion : Int := 0

structure Spec where
  document : Json
  signedProjection : Json
  canonicalBytes : Bytes
  digest : Bytes
  id : Bytes
  description : Bytes
  rationale : Bytes
  target : Target
  release : Bytes
  dependsOn : List Bytes
  intents : List Intent
  signatures : Json

def parseTopLevelKeys (doc : Json) : Parse Unit :=
  (members doc).forM fun m =>
    refuse (!oneOf ("signatures" :: signedTopLevelKeys) m.1)
      ("unknown top-level key " ++ quotedWord m.1)

/-- The version is compared as an `int`. -/
def parseVersion (doc : Json) : Parse Unit := do
  let version := at_ doc "laswell_spec_version"
  refuse (!isInteger version) "the spec has no integer \"laswell_spec_version\""
  refuse (decide (intOf version ≠ specVersion))
    ("spec version " ++ intDigits (intOf version) ++ " is not supported by this binary")

def parseDependsOn (doc : Json) (id : Bytes) : Parse (List Bytes) :=
  if has doc "depends_on" then do
    refuse (!isArray (at_ doc "depends_on")) "\"depends_on\" must be an array of spec ids"
    (elements (at_ doc "depends_on")).forM fun d => do
      refuse (!isWord d) "depends_on entries must be non-empty spec ids"
      refuse (text d == id) ("spec " ++ quotedWord id ++ " depends on itself")
    return (elements (at_ doc "depends_on")).map text
  else return []

/-- `require_string` of a key that may be left out. -/
def givenString (j : Json) (key : String) (place : Bytes) : Parse Bytes :=
  if has j key then requireString j key place else return []

def parseMinServerVersion (target : Json) : Parse Int :=
  if has target "min_server_version" then do
    refuse (!isInteger (at_ target "min_server_version"))
      "target.min_server_version must be an integer"
    return intOf (at_ target "min_server_version")
  else return 0

def parseTarget (doc : Json) : Parse Target :=
  if has doc "target" then do
    let target := at_ doc "target"
    refuse (!isObject target) "\"target\" must be an object"
    rejectUnknownKeys target
      ["connection", "database", "environment", "epoch", "min_server_version"] "target"
    let connection ← givenString target "connection" "target"
    let database ← valueText target "database" []
    let environment ← givenString target "environment" "target"
    let epoch ← givenString target "epoch" "target"
    let minServerVersion ← parseMinServerVersion target
    return { connection, database, environment, epoch, minServerVersion }
  else return {}

/-- The entries of `intents`, each with its place. -/
def intentsOf (doc : Json) : List Intent :=
  (elements (at_ doc "intents")).zipIdx.map fun e => { ordinal := e.2, body := e.1 }

def parseEntry (enabled : List Vendor) (in_ : Intent) : Parse Unit := do
  refuse (!isObject in_.body) (in_.place ++ " is not an object")
  let kindName ← requireString in_.body "kind" in_.place
  match kindOf enabled kindName with
  | none => refuse true ("unknown intent kind " ++ quotedWord kindName ++ " at " ++ in_.place)
  | some kind => parseIntent kind in_

def parseIntents (enabled : List Vendor) (doc : Json) : Parse (List Intent) := do
  refuse (!isList (at_ doc "intents")) "the spec has no intents"
  (intentsOf doc).forM fun in_ => parseEntry enabled in_
  return intentsOf doc

def parseSignatures (doc : Json) : Parse Json :=
  if has doc "signatures" then do
    refuse (!isArray (at_ doc "signatures")) "\"signatures\" must be an array"
    return at_ doc "signatures"
  else return .array []

def signedProjection (doc : Json) : Json :=
  .object (signedTopLevelKeys.filterMap fun k : String => (member? doc k).map fun v => (ascii k, v))

/-- `canonicalize`, and what it throws. -/
def canonicalForm (doc : Json) : Except Thrown Bytes :=
  (canonicalize (signedProjection doc)).mapError fun e => .runtimeError e.what

section ParseSpec

variable (enabled : List Vendor) (sha256 : Bytes → Option Bytes)

/-- `to_hex(sha256(bytes))`. The digest is the library's, which says when it fails. -/
def digestOf (bytes : Bytes) : Except Thrown Bytes :=
  match sha256 bytes with
  | some digest => .ok digest
  | none => .error (.runtimeError "sha256: EVP_Digest failed")

def parseSpec (doc : Json) : Parse Spec := do
  refuse (!isObject doc) "the spec is not a JSON object"
  parseTopLevelKeys doc
  parseVersion doc
  let id ← requireString doc "id" "the spec"
  let description ← requireString doc "description" "the spec"
  let rationale ← valueText doc "rationale" []
  let dependsOn ← parseDependsOn doc id
  let release ← givenString doc "release" "spec"
  let target ← parseTarget doc
  let intents ← parseIntents enabled doc
  let signatures ← parseSignatures doc
  let canonicalBytes ← .attempt (canonicalForm doc) []
  let digest ← .attempt (digestOf sha256 canonicalBytes) []
  return { document := doc, signedProjection := signedProjection doc, canonicalBytes, digest, id,
           description, rationale, target, release, dependsOn, intents, signatures }

end ParseSpec

/-! ## What is read without asking -/

def coreReads : Spec.IntentKind → Intent → List (Check Thrown)
  | .addColumn => addColumnReads
  | .alterColumnType => alterColumnTypeReads
  | .backfill => backfillReads
  | .createIndex => createIndexReads
  | .addForeignKey => addForeignKeyReads
  | .createTable => createTableReads
  | .attachPartition => attachPartitionReads
  | .createPublication => publicationReads
  | .alterPublication => publicationReads
  | .createExtension => createExtensionReads
  | .createFunction => createFunctionReads
  | .createTrigger => createTriggerReads
  | .createStatistics => createStatisticsReads
  | .setColumnOptions => setColumnOptionsReads
  | .setTableOptions => setTableOptionsReads
  | .clusterOn => clusterOnReads
  | .grant => grantLikeReads
  | .revoke => grantLikeReads
  | .alterDefaultPrivileges => alterDefaultPrivilegesReads
  | .deleteRows => deleteRowsReads
  | .insertRows => insertRowsReads
  | .updateRows => updateRowsReads
  | .mergeRows => mergeRowsReads
  | .copyRows => rowSourceReads
  | _ => fun _ => []

def intentReads : IntentKind → Intent → List (Check Thrown)
  | .core kind => coreReads kind
  | .vendor kind => vendorReads kind

/-- The reads of an entry whose kind is known. -/
def entryReads (enabled : List Vendor) (in_ : Intent) : List (Check Thrown) :=
  match kindOf enabled (text (at_ in_.body "kind")) with
  | none => []
  | some kind => intentReads kind in_

/-- What may be thrown in place of a result. -/
def resultReads {α : Type} : Except Thrown α → List (Check Thrown)
  | .ok _ => []
  | .error e => if e.isSpecError then [] else [⟨e, false⟩]

def specReads (enabled : List Vendor) (sha256 : Bytes → Option Bytes) (doc : Json) :
    List (Check Thrown) :=
  textRead doc "rationale" ::
    ((if has doc "target" then [textRead (at_ doc "target") "database"] else []) ++
      ((intentsOf doc).flatMap (entryReads enabled) ++
        (resultReads (canonicalForm doc) ++
          resultReads (digestOf sha256 ((Checking.attempt (canonicalForm doc) []).value)))))

section Unguarded

theorem unguarded_parseCore (kind : Spec.IntentKind) (in_ : Intent) :
    unguarded (parseCore kind in_) = coreReads kind in_ := by
  cases kind
  case addColumn => exact unguarded_parseAddColumn in_
  case alterColumnType => exact unguarded_parseAlterColumnType in_
  case backfill => exact unguarded_parseBackfill in_
  case createIndex => exact unguarded_parseCreateIndex in_
  case addForeignKey => exact unguarded_parseAddForeignKey in_
  case createTable => exact unguarded_parseCreateTable in_
  case attachPartition => exact unguarded_parseAttachPartition in_
  case createPublication => exact unguarded_parsePublication in_ true
  case alterPublication => exact unguarded_parsePublication in_ false
  case createExtension => exact unguarded_parseCreateExtension in_
  case createFunction => exact unguarded_parseCreateFunction in_
  case createTrigger => exact unguarded_parseCreateTrigger in_
  case createStatistics => exact unguarded_parseCreateStatistics in_
  case setColumnOptions => exact unguarded_parseSetColumnOptions in_
  case setTableOptions => exact unguarded_parseSetTableOptions in_
  case clusterOn => exact unguarded_parseClusterOn in_
  case grant => exact unguarded_parseGrantLike in_ true
  case revoke => exact unguarded_parseGrantLike in_ false
  case alterDefaultPrivileges => exact unguarded_parseAlterDefaultPrivileges in_
  case deleteRows => exact unguarded_parseDeleteRows in_
  case insertRows => exact unguarded_parseInsertRows in_
  case updateRows => exact unguarded_parseUpdateRows in_
  case mergeRows => exact unguarded_parseMergeRows in_
  case copyRows => exact unguarded_parseCopyRows in_
  case setTextSearchMapping => exact unguarded_parseSetTextSearchMapping in_
  -- the others are in one of the lists of parsers that ask first
  all_goals first
    | refine unguarded_relations in_ _ ?_; simp [parseCore]; done
    | refine unguarded_objects in_ _ ?_; simp [parseCore]; done
    | refine unguarded_settings in_ _ ?_; simp [parseCore]

theorem unguarded_parseIntent (kind : IntentKind) (in_ : Intent) :
    unguarded (parseIntent kind in_) = intentReads kind in_ := by
  cases kind with
  | core kind => exact unguarded_parseCore kind in_
  | vendor kind => exact unguarded_parseVendor in_ kind

variable (enabled : List Vendor) (sha256 : Bytes → Option Bytes) (doc : Json)

@[simp] theorem unguarded_parseEntry (in_ : Intent) :
    unguarded (parseEntry enabled in_) = entryReads enabled in_ := by
  simp only [parseEntry, entryReads, Checking.open_bind, unguarded_refuse,
    unguarded_requireString, List.nil_append]
  change unguarded (match kindOf enabled (text (at_ in_.body "kind")) with
    | none => _
    | some kind => _) = _
  split
  · exact unguarded_refuse _ _
  · exact unguarded_parseIntent _ _

@[simp] theorem unguarded_attempt {α : Type} (r : Except Thrown α) (otherwise : α) :
    unguarded (.attempt r otherwise) = resultReads r := by
  cases r with
  | ok a => rfl
  | error e => cases e <;> rfl

@[simp] theorem unguarded_parseTopLevelKeys : unguarded (parseTopLevelKeys doc) = [] := by
  simp [parseTopLevelKeys]

@[simp] theorem unguarded_parseVersion : unguarded (parseVersion doc) = [] := by
  simp [parseVersion]

@[simp] theorem unguarded_parseDependsOn (id : Bytes) : unguarded (parseDependsOn doc id) = [] := by
  unfold parseDependsOn
  split <;> simp

@[simp] theorem unguarded_givenString (key : String) (place : Bytes) :
    unguarded (givenString doc key place) = [] := by
  unfold givenString
  split <;> simp

@[simp] theorem unguarded_parseMinServerVersion : unguarded (parseMinServerVersion doc) = [] := by
  unfold parseMinServerVersion
  split <;> simp

@[simp] theorem unguarded_parseTarget : unguarded (parseTarget doc) =
    if has doc "target" then [textRead (at_ doc "target") "database"] else [] := by
  unfold parseTarget
  split <;> simp

@[simp] theorem unguarded_parseIntents :
    unguarded (parseIntents enabled doc) = (intentsOf doc).flatMap (entryReads enabled) := by
  simp [parseIntents]

@[simp] theorem unguarded_parseSignatures : unguarded (parseSignatures doc) = [] := by
  unfold parseSignatures
  split <;> simp

theorem unguarded_parseSpec :
    unguarded (parseSpec enabled sha256 doc) = specReads enabled sha256 doc := by
  simp [parseSpec, specReads]

end Unguarded

/-! ## What escapes -/

section Escapes

variable (enabled : List Vendor) (sha256 : Bytes → Option Bytes) (doc : Json)

/-- Nothing but a `SpecError` is thrown exactly if each of the readings that ask nothing, where the
parser gets to it, finds what it reads. -/
theorem parseSpec_specError_iff :
    (∀ e, (parseSpec enabled sha256 doc).run = .error e → e.isSpecError = true) ↔
      ∀ c ∈ specReads enabled sha256 doc, (parseSpec enabled sha256 doc).Reaches c →
        c.holds = true := by
  rw [Checking.throws_only_iff, ← unguarded_parseSpec]
  constructor
  · intro h c hc hreach
    have hnot : (!c.error.isSpecError) = true := (List.mem_filter.1 hc).2
    exact h c hreach (by simpa using hnot)
  · intro h c hreach hnot
    exact h c (hreach.mem_open (by simpa using hnot)) hreach

/-- A specification to drop a table, but for a rationale that is a number. -/
def numberRationale : Json :=
  .object [(ascii "description", .string "d"), (ascii "id", .string "s"),
    (ascii "intents", .array [.object [(ascii "kind", .string "drop_table"),
      (ascii "schema", .string "s"), (ascii "table", .string "t")]]),
    (ascii "laswell_spec_version", .numberUnsigned 1), (ascii "rationale", .numberUnsigned 5)]

theorem numberRationale_escapes :
    ¬ ∀ enabled sha256 doc e, (parseSpec enabled sha256 doc).run = .error e →
      e.isSpecError = true := by
  intro h
  have hthrown : (parseSpec [] (fun _ => some []) numberRationale).thrown = some .typeError := by
    decide +kernel
  exact absurd (h _ _ _ _ (Checking.run_of_thrown hthrown)) (by decide)

end Escapes

end Document
end Laswell
