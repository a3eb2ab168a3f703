import Mathlib.Data.List.Basic

/-!
# Laswell.Spec.Keys

The intents of a specification, with those fields of their bodies that say what they are about, and
the keys an intent serialises against (`conflict_keys`). A job holds an advisory lock for each key
of each of its intents, and the repository seeds its relation sets with the same keys.

* `Relation`: a schema and a name, both identifiers as the parser demands them.
* `Intent`: a kind, and the fields of the body that were given.
* `conflictKeys`: the object, the table, and the edges of the kind.
-/

namespace Laswell
namespace Spec

/-! ## Identifiers -/

def identifierChar (c : Char) : Bool :=
  ('a' ≤ c && c ≤ 'z') || ('0' ≤ c && c ≤ '9') || c == '_'

/-- `require_identifier` -/
def isIdentifier (v : String) : Bool :=
  match v.toList with
  | [] => false
  | c :: rest => decide (rest.length < 63) && (('a' ≤ c && c ≤ 'z') || c == '_') &&
      (c :: rest).all identifierChar

theorem isIdentifier_public : isIdentifier "public" = true := by decide

/-- A relation, or another object that lives in a schema. -/
structure Relation where
  schema : String
  name : String
  schema_valid : isIdentifier schema = true
  name_valid : isIdentifier name = true
  deriving DecidableEq

namespace Relation

def text (r : Relation) : String := r.schema ++ "." ++ r.name

end Relation

/-! ## Intents -/

inductive IntentKind where
  | addColumn | backfill | createIndex | dropIndex | setNotNull | addForeignKey
  | addCheckConstraint | dropConstraint | alterColumnType | dropColumn | replaceView
  | addUniqueConstraint | addPrimaryKey | attachPartition | detachPartition | renameTable
  | renameColumn | renameConstraint | createTable | dropTable | deleteRows | setRowSecurity
  | createPolicy | dropPolicy | setTriggerState | grant | revoke | createSchema | dropSchema
  | createExtension | dropExtension | createType | dropType | addEnumValue | createFunction
  | dropFunction | createTrigger | dropTrigger | createSequence | dropSequence | dropView
  | alterColumnDefault | dropNotNull | alterSequence | alterSchema | alterExtension | alterDomain
  | alterFunction | alterView | alterPolicy | setComment | setOwner | setIdentity | dropExpression
  | setColumnOptions | setTableOptions | setLogged | setTablespace | setAccessMethod
  | setReplicaIdentity | clusterOn | createMaterializedView | createStatistics | dropStatistics
  | createRule | dropRule | createPublication | alterPublication | dropPublication
  | createSubscription | alterSubscription | dropSubscription | createObject | dropObject
  | alterObject | addExclusionConstraint | setTextSearchMapping | createTableAs
  | importForeignSchema | securityLabel | alterDefaultPrivileges | insertRows | updateRows
  | mergeRows | copyRows
  deriving DecidableEq

/-- A column as `create_table` declares it. -/
structure ColumnDef where
  name : String
  type : String

/-- An intent. Two fields of the body that name a relation together are one field here; one that
was not given is `none`, or reads as the empty text. -/
structure Intent where
  kind : IntentKind
  schema : String := ""
  /-- `schema` and `table` -/
  table : Option Relation := none
  /-- `schema` and `name`, where the kind has its relation or object there -/
  named : Option Relation := none
  /-- the name of an object that is in no schema -/
  name : String := ""
  column : String := ""
  type : String := ""
  columns : List ColumnDef := []
  /-- `schema` and `to` -/
  renamedTo : Option Relation := none
  /-- `set_schema` and `name` -/
  movedTo : Option Relation := none
  /-- `schema` and `partition` -/
  partition : Option Relation := none
  partitionOf : Option Relation := none
  /-- `references_schema` and `references_table` -/
  references : Option Relation := none
  preserve : Option Relation := none
  function : String := ""
  objectType : String := ""
  withoutOverlaps : Bool := false
  using_ : String := "gist"
  fill : Bool := false

/-! ## Keys -/

def objectKeyFor (in_ : Intent) : List String :=
  match in_.kind with
  | .createSchema | .dropSchema | .alterSchema => ["schema:" ++ in_.schema]
  | .createExtension | .dropExtension | .alterExtension => ["extension:" ++ in_.name]
  | .createType | .dropType | .addEnumValue | .alterDomain =>
    in_.named.toList.map fun r => "type:" ++ r.text
  | .createFunction | .dropFunction | .alterFunction =>
    in_.named.toList.map fun r => "function:" ++ r.text
  | .createSequence | .dropSequence | .alterSequence =>
    in_.named.toList.map fun r => "sequence:" ++ r.text
  | .setTextSearchMapping => in_.named.toList.map fun r => "tsconfig:" ++ r.text
  | _ => []

/-- `text.substr(0, text.find('('))` -/
def beforeParenthesis (text : String) : List Char := text.toList.takeWhile (· ≠ '(')

/-- The name of a column's type: what comes before a modifier, without blanks and opening
brackets at its end. -/
def columnTypeBase (type : String) : String :=
  String.ofList ((beforeParenthesis type).reverse.dropWhile fun c => c == ' ' || c == '[').reverse

/-- The keys for the type of a column. Only one with a schema has any. -/
def columnTypeKeys (type : String) : List String :=
  if '.' ∈ type.toList then ["type:" ++ columnTypeBase type] else []

/-- Those for the type of a column of a new table, which is cut at the modifier alone. -/
def declaredTypeKeys (type : String) : List String :=
  if '.' ∈ type.toList then ["type:" ++ String.ofList (beforeParenthesis type)] else []

def triggerKeys (function : String) : List String :=
  if '.' ∈ beforeParenthesis function then
    ["function:" ++ String.ofList (beforeParenthesis function)]
  else []

def extensionKeys (needed : Bool) : List String := if needed then ["extension:btree_gist"] else []

/-- The edges of a kind: what it conflicts with that it is not itself about. -/
def edges (in_ : Intent) : List String :=
  match in_.kind with
  | .addColumn | .alterColumnType => columnTypeKeys in_.type
  | .createTable =>
    in_.partitionOf.toList.map Relation.text ++ extensionKeys in_.withoutOverlaps ++
      in_.columns.flatMap fun c => declaredTypeKeys c.type
  | .createTrigger => triggerKeys in_.function
  | .attachPartition | .detachPartition => in_.partition.toList.map Relation.text
  | .renameTable => in_.renamedTo.toList.map Relation.text
  | .addForeignKey => in_.references.toList.map Relation.text
  | .addUniqueConstraint | .addPrimaryKey => extensionKeys in_.withoutOverlaps
  | .addExclusionConstraint => extensionKeys (in_.using_ == "gist")
  | .replaceView | .dropView | .alterView | .createMaterializedView =>
    in_.named.toList.map Relation.text
  | _ => []

/-- The relations of the kind's edges. -/
def edgeRelations (in_ : Intent) : List Relation :=
  match in_.kind with
  | .createTable => in_.partitionOf.toList
  | .attachPartition | .detachPartition => in_.partition.toList
  | .renameTable => in_.renamedTo.toList
  | .addForeignKey => in_.references.toList
  | .replaceView | .dropView | .alterView | .createMaterializedView => in_.named.toList
  | _ => []

def namedRelations (in_ : Intent) : List Relation := in_.table.toList ++ edgeRelations in_

/-- A key that `add` takes. -/
def isKey (k : String) : Bool := k != "" && k != "." && k.toList.getLast? != some '.'

def conflictKeys (in_ : Intent) : List String :=
  (objectKeyFor in_ ++ in_.table.toList.map Relation.text ++ edges in_).filter isKey

/-! ## What keys look like -/

theorem dot_not_identifierChar : identifierChar '.' = false := by decide

theorem colon_not_identifierChar : identifierChar ':' = false := by decide

theorem all_of_isIdentifier {v : String} (h : isIdentifier v = true) :
    ∀ c ∈ v.toList, identifierChar c = true := by
  unfold isIdentifier at h
  split at h
  · cases h
  · rename_i c rest hv
    simp only [Bool.and_eq_true] at h
    rw [hv]
    exact List.all_eq_true.1 h.2

theorem ne_nil_of_isIdentifier {v : String} (h : isIdentifier v = true) : v.toList ≠ [] := by
  intro hv
  simp [isIdentifier, hv] at h

theorem toList_text (r : Relation) : r.text.toList = r.schema.toList ++ '.' :: r.name.toList := by
  simp [Relation.text, String.toList_append]

/-- An identifier ends where the first character comes that is none. -/
theorem takeWhile_identifier {l rest : List Char} {c : Char}
    (h : ∀ c ∈ l, identifierChar c = true) (hc : identifierChar c = false) :
    (l ++ c :: rest).takeWhile identifierChar = l := by
  rw [List.takeWhile_append_of_pos h, List.takeWhile_cons, hc]
  simp

theorem text_injective {r r' : Relation} (h : r.text = r'.text) : r = r' := by
  have hlist := congrArg String.toList h
  rw [toList_text, toList_text] at hlist
  have hschema : r.schema.toList = r'.schema.toList := by
    have htake := congrArg (List.takeWhile identifierChar) hlist
    rwa [takeWhile_identifier (all_of_isIdentifier r.schema_valid) dot_not_identifierChar,
      takeWhile_identifier (all_of_isIdentifier r'.schema_valid) dot_not_identifierChar] at htake
  rw [hschema, List.append_cancel_left_eq, List.cons.injEq] at hlist
  obtain ⟨s, n, hs, hn⟩ := r
  obtain ⟨s', n', hs', hn'⟩ := r'
  cases String.toList_inj.1 hschema
  cases String.toList_inj.1 hlist.2
  rfl

theorem colon_notMem_text (r : Relation) : ':' ∉ r.text.toList := by
  rw [toList_text]
  intro hmem
  rcases List.mem_append.1 hmem with h | h
  · have := all_of_isIdentifier r.schema_valid _ h
    rw [colon_not_identifierChar] at this
    cases this
  · cases h with
    | tail _ h =>
      have := all_of_isIdentifier r.name_valid _ h
      rw [colon_not_identifierChar] at this
      cases this

theorem text_ne (r : Relation) {k : String} (h : ':' ∈ k.toList) : r.text ≠ k := by
  rintro rfl
  exact colon_notMem_text r h

theorem text_mem_edges {in_ : Intent} {r : Relation} (h : r ∈ edgeRelations in_) :
    r.text ∈ edges in_ := by
  unfold edgeRelations at h
  unfold edges
  split at h <;> simp_all

/-- The keys that are no relation's text, by what they begin with. -/
def EdgeKey (k : String) : Prop :=
  (∃ a, k = "type:" ++ a) ∨ (∃ a, k = "function:" ++ a) ∨ k = "extension:" ++ "btree_gist"

theorem EdgeKey.colon {k : String} (h : EdgeKey k) : ':' ∈ k.toList := by
  rcases h with ⟨a, rfl⟩ | ⟨a, rfl⟩ | rfl <;> simp

/-- Every key of an edge is the text of a relation that is named, or begins as one of the others. -/
theorem mem_edges {in_ : Intent} {k : String} (h : k ∈ edges in_) :
    (∃ r ∈ edgeRelations in_, k = r.text) ∨ EdgeKey k := by
  have htype (type : String) (k : String) (h : k ∈ columnTypeKeys type) : EdgeKey k := by
    unfold columnTypeKeys at h
    split at h
    · exact .inl ⟨_, List.mem_singleton.1 h⟩
    · cases h
  have hdeclared (type : String) (k : String) (h : k ∈ declaredTypeKeys type) : EdgeKey k := by
    unfold declaredTypeKeys at h
    split at h
    · exact .inl ⟨_, List.mem_singleton.1 h⟩
    · cases h
  have htrigger (f : String) (k : String) (h : k ∈ triggerKeys f) : EdgeKey k := by
    unfold triggerKeys at h
    split at h
    · exact .inr (.inl ⟨_, List.mem_singleton.1 h⟩)
    · cases h
  have hextension (b : Bool) (k : String) (h : k ∈ extensionKeys b) : EdgeKey k := by
    unfold extensionKeys at h
    split at h
    · rw [List.mem_singleton.1 h]
      exact .inr (.inr rfl)
    · cases h
  have hrelations {o : Option Relation} (h : k ∈ o.toList.map Relation.text) :
      ∃ r ∈ o.toList, k = r.text := by
    obtain ⟨r, hr, rfl⟩ := List.mem_map.1 h
    exact ⟨r, hr, rfl⟩
  unfold edges at h
  unfold edgeRelations
  split at h
  · exact .inr (htype _ k h)
  · exact .inr (htype _ k h)
  · rename_i hkind
    rw [hkind]
    simp only [List.mem_append, List.mem_flatMap] at h
    rcases h with (h | h) | ⟨c, -, h⟩
    · exact .inl (hrelations h)
    · exact .inr (hextension _ k h)
    · exact .inr (hdeclared _ k h)
  · exact .inr (htrigger _ k h)
  all_goals first
    | exact .inr (hextension _ k h)
    | (rename_i hkind; rw [hkind]; exact .inl (hrelations h))
    | cases h

theorem mem_objectKeyFor {in_ : Intent} {k : String} (h : k ∈ objectKeyFor in_) :
    ':' ∈ k.toList := by
  unfold objectKeyFor at h
  split at h <;> simp at h
  all_goals first
    | (subst h; simp)
    | (obtain ⟨r, -, rfl⟩ := h; simp)

/-- A key is the text of a relation, or has a colon. -/
theorem mem_conflictKeys {in_ : Intent} {k : String} (h : k ∈ conflictKeys in_) :
    (∃ r : Relation, k = r.text) ∨ ':' ∈ k.toList := by
  rcases List.mem_append.1 (List.mem_of_mem_filter h) with h | h
  · rcases List.mem_append.1 h with h | h
    · exact .inr (mem_objectKeyFor h)
    · obtain ⟨r, -, rfl⟩ := List.mem_map.1 h
      exact .inl ⟨r, rfl⟩
  · rcases mem_edges h with ⟨r, -, rfl⟩ | h
    · exact .inl ⟨r, rfl⟩
    · exact .inr h.colon

theorem isKey_prefixed (p : String) (r : Relation) : isKey (p ++ r.text) = true := by
  have hne := ne_nil_of_isIdentifier r.name_valid
  have hall := all_of_isIdentifier r.name_valid
  obtain ⟨l, c, hl⟩ : ∃ l c, r.name.toList = l ++ [c] :=
    ⟨_, _, (List.dropLast_append_getLast hne).symm⟩
  have hc : identifierChar c = true := hall c (by rw [hl]; simp)
  have hdot : c ≠ '.' := by
    rintro rfl
    rw [dot_not_identifierChar] at hc
    cases hc
  have hlist : (p ++ r.text).toList = (p.toList ++ (r.schema.toList ++ '.' :: l)) ++ [c] := by
    rw [String.toList_append, toList_text, hl]
    simp
  have hlast : (p ++ r.text).toList.getLast? = some c := by rw [hlist, List.getLast?_concat]
  have hempty : p ++ r.text ≠ "" := by
    intro h
    rw [h] at hlast
    cases hlast
  have honly : p ++ r.text ≠ "." := by
    intro h
    rw [h] at hlast
    exact hdot (Option.some.inj hlast).symm
  rw [isKey, hlast]
  simp [hempty, honly, hdot]

theorem isKey_text (r : Relation) : isKey r.text = true := by
  have := isKey_prefixed "" r
  rwa [String.empty_append] at this

end Spec
end Laswell
