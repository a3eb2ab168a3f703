import Mathlib
import Laswell.Spec.Keys

/-!
# Laswell.Spec.Conflicts

What the statements planned for an intent touch, against the keys it serialises by. A relation here
is a table, a view, a materialized view or a foreign table: an index, a constraint, a trigger or a
policy is part of the table it is on. Sequences have keys of their own. The type of a relation's rows
changes with the relation. Privileges, comments and labels change none.

* `touched`: the relations, sequences and types that are created, dropped, altered or written.
* `typesGiven`: the types, named with their schema, that columns are given.
* `serialised_iff`: an intent shares a key with every one it collides with exactly when its
  statements touch what it names and nothing else, and its types are spelled plainly.
* `arrayType_unserialised`: a column of an array type, against a change of its element type.
-/

namespace Laswell
namespace Spec

/-! ## Objects -/

/-- The schema and the name of an object, as the catalog has them: any two texts. -/
structure ObjectName where
  schema : String
  name : String
  deriving DecidableEq

def Relation.object (r : Relation) : ObjectName := ⟨r.schema, r.name⟩

theorem object_injective {r r' : Relation} (h : r.object = r'.object) : r = r' := by
  obtain ⟨s, n, hs, hn⟩ := r
  obtain ⟨s', n', hs', hn'⟩ := r'
  cases h
  rfl

/-- What a statement creates, drops, alters or writes. A type is one whose name was given: an array
type goes with that of its elements. -/
inductive Target where
  | rel (o : ObjectName)
  | seq (o : ObjectName)
  | type (o : ObjectName)
  deriving DecidableEq

/-! ## Intents that touch one object -/

/-- An intent that alters one relation. -/
def altersOnly (r : Relation) : Intent := { kind := .setRowSecurity, table := some r }

def dropsSequence (s : Relation) : Intent := { kind := .dropSequence, named := some s }

def dropsType (t : Relation) : Intent := { kind := .dropType, named := some t }

/-- An intent that makes a table with one column of a type. -/
def declaresColumn (r t : Relation) : Intent :=
  { kind := .createTable, table := some r, columns := [⟨"c", t.text⟩] }

def Alone (in_ : Intent) : Prop :=
  ∃ r, in_ = altersOnly r ∨ in_ = dropsSequence r ∨ in_ = dropsType r ∨
    ∃ t, in_ = declaresColumn r t

/-! ## The server -/

def wordChar (c : Char) : Bool := c.isAlphanum || c == '_'

/-- One part of a qualified name: what stands between quotes, or a word with its letters folded. -/
def namePart : List Char → String × List Char
  | '"' :: rest =>
    (String.ofList (rest.takeWhile (· ≠ '"')), (rest.dropWhile (· ≠ '"')).drop 1)
  | text =>
    (String.ofList ((text.takeWhile wordChar).map Char.toLower), text.dropWhile wordChar)

def skipBlanks (text : List Char) : List Char := text.dropWhile Char.isWhitespace

/-- The type that a text names with its schema, in the usual spellings: what comes after the name
are modifiers, brackets and constraints. -/
def writtenType (type : String) : Option ObjectName :=
  let schema := namePart (skipBlanks type.toList)
  match skipBlanks schema.2 with
  | '.' :: rest => some ⟨schema.1, (namePart (skipBlanks rest)).1⟩
  | _ => none

/-- An entry of `dependent_views`. -/
structure DependentView where
  view : ObjectName
  usesColumns : List String
  dependsOn : List ObjectName

/-- A foreign key as one of its two tables has it: the columns of that table, and the other one. -/
structure ForeignKey where
  name : String
  columns : List String
  other : ObjectName

/-- What the planners read, and what the server does besides. -/
structure Catalog where
  /-- the type that a text names with its schema, however it is spelled: of an array, that of its
  elements -/
  typeOf : String → Option ObjectName := writtenType
  /-- the partitions below a table, at every level -/
  partitions : ObjectName → List ObjectName := fun _ => []
  /-- the table that a table is a partition of -/
  parent : ObjectName → Option ObjectName := fun _ => none
  /-- the foreign keys that a table has -/
  foreignKeys : ObjectName → List ForeignKey := fun _ => []
  /-- those that refer to it -/
  referencedBy : ObjectName → List ForeignKey := fun _ => []
  /-- the sequences that the columns of a table own -/
  sequences : ObjectName → List (String × ObjectName) := fun _ => []
  /-- what a change of a table's rows changes too: the tables that the actions of foreign keys and
  triggers write, and the sequences of its defaults -/
  writtenWith : ObjectName → List Target := fun _ => []
  views : ObjectName → List DependentView := fun _ => []
  /-- the objects of an extension -/
  members : String → List Target := fun _ => []
  /-- the foreign tables an import makes -/
  imported : Intent → List ObjectName := fun _ => []
  /-- the tables with an index that a text search configuration was used for -/
  searched : ObjectName → List ObjectName := fun _ => []
  /-- a name without a schema -/
  resolve : String → Option ObjectName := fun _ => none
  /-- whether the name is that of a relation, there or made by one of the intents: the type of that
  name is then the one of its rows -/
  rows : ObjectName → Bool := fun _ => false
  /-- the types that columns get from a query, a definition or another server -/
  bodyTypes : Intent → List ObjectName := fun _ => []
  /-- whatever else is touched in carrying the statements out: the sequences that columns are made
  with, the objects of a schema that is renamed, what event triggers do -/
  reaches : Intent → List Target := fun _ => []
  /-- row security of a table, a sequence or a type that is dropped, a table of one column -/
  reaches_alone : ∀ in_, Alone in_ → reaches in_ = [] := by intros; rfl

/-- One round: the views that read an affected one are affected. -/
def affectedBy (views : List DependentView) (affected : List ObjectName) : List ObjectName :=
  affected ++ (views.filter fun v => v.dependsOn.any (affected.contains ·)).map DependentView.view

/-- `views_to_rebuild`: those that read the column, and those above them. -/
def viewsToRebuild (views : List DependentView) (column : String) : List ObjectName :=
  Nat.repeat (affectedBy views) views.length
    ((views.filter fun v => v.usesColumns.contains column).map DependentView.view)

/-! ## What an intent names -/

/-- The type that an intent creates, alters or drops. -/
def changedTypes (in_ : Intent) : List Relation :=
  match in_.kind with
  | .createType | .dropType | .addEnumValue | .alterDomain => in_.named.toList
  | _ => []

def changedSequences (in_ : Intent) : List Relation :=
  match in_.kind with
  | .createSequence | .dropSequence | .alterSequence => in_.named.toList
  | _ => []

/-- The kinds that change privileges, comments and labels only. -/
def IntentKind.describes : IntentKind → Bool
  | .grant | .revoke | .setComment | .securityLabel => true
  | _ => false

/-- What an intent names and its statements touch. -/
def own (in_ : Intent) : List Target :=
  if in_.kind.describes then []
  else (namedRelations in_).map (.rel ·.object) ++ (changedSequences in_).map (.seq ·.object) ++
    (changedTypes in_).map (.type ·.object)

/-! ## What the statements touch besides -/

/-- The kinds whose statements on a partitioned table reach its partitions. -/
def IntentKind.descends : IntentKind → Bool
  | .addColumn | .backfill | .createIndex | .dropIndex | .setNotNull | .addForeignKey
  | .addCheckConstraint | .dropConstraint | .alterColumnType | .dropColumn | .addUniqueConstraint
  | .addPrimaryKey | .renameColumn | .renameConstraint | .dropTable | .deleteRows
  | .setTriggerState | .createTrigger | .dropTrigger | .alterColumnDefault | .dropNotNull
  | .setIdentity | .dropExpression | .setColumnOptions | .addExclusionConstraint | .insertRows
  | .updateRows | .mergeRows | .copyRows => true
  | _ => false

def writesRows (in_ : Intent) : Bool :=
  match in_.kind with
  | .backfill | .deleteRows | .insertRows | .updateRows | .mergeRows | .copyRows => true
  | .addColumn => in_.fill
  | _ => false

section

variable (cat : Catalog)

/-- The object of a kind that takes any type of object. -/
def denoted (in_ : Intent) : List ObjectName :=
  ((in_.named.map Relation.object).orElse fun _ => cat.resolve in_.name).toList

def sequencesOf (t : ObjectName) : List Target := (cat.sequences t).map fun s => .seq s.2

/-- The tables that the foreign keys `p` holds of join to `t`. -/
def joined (keys : ObjectName → List ForeignKey) (p : ForeignKey → Bool) (t : ObjectName) :
    List Target := ((keys t).filter p).map (.rel ·.other)

/-- What each kind touches that is not its table, `t` where it has one: the views around a column
change; the tables on the other side of a foreign key that is dropped, rebuilt or copied to a
partition; the sequences of a column; the new name of a view or a sequence; an object that is given
an owner or is a foreign table; and the objects of an extension. -/
def besides (in_ : Intent) : List Target :=
  let onTable (f : ObjectName → List Target) := in_.table.toList.flatMap fun t => f t.object
  match in_.kind with
  | .alterColumnType => onTable fun t =>
    (viewsToRebuild (cat.views t) in_.column).map .rel ++
      joined cat.foreignKeys (fun k => k.columns.contains in_.column) t ++
      joined cat.referencedBy (fun k => k.columns.contains in_.column) t
  | .dropColumn => onTable fun t =>
    joined cat.foreignKeys (fun k => k.columns.contains in_.column) t ++
      ((cat.sequences t).filter fun s => s.1 = in_.column).map fun s => .seq s.2
  | .dropConstraint => onTable (joined cat.foreignKeys fun k => k.name = in_.name)
  | .dropTable => onTable fun t =>
    joined cat.foreignKeys (fun _ => true) t ++ (cat.parent t).toList.map .rel ++ sequencesOf cat t
  | .createTable => in_.partitionOf.toList.flatMap fun p =>
    joined cat.foreignKeys (fun _ => true) p.object
  | .addForeignKey => (in_.references.toList.flatMap fun t => cat.partitions t.object).map .rel
  | .attachPartition | .detachPartition =>
    onTable (joined cat.foreignKeys fun _ => true) ++
      (in_.partition.toList.flatMap fun t => cat.partitions t.object).map .rel
  | .setIdentity => onTable fun t =>
    ((cat.sequences t).filter fun s => s.1 = in_.column).map fun s => .seq s.2
  | .setLogged => onTable (sequencesOf cat)
  | .alterView => in_.renamedTo.toList.map (.rel ·.object)
  | .alterSequence => in_.renamedTo.toList.map (.seq ·.object)
  | .setOwner =>
    if in_.objectType ∈ ["TABLE", "VIEW", "MATERIALIZED VIEW"] then
      (denoted cat in_).flatMap fun t => .rel t :: sequencesOf cat t
    else if in_.objectType = "SEQUENCE" then (denoted cat in_).map .seq
    else if in_.objectType ∈ ["TYPE", "DOMAIN"] then (denoted cat in_).map .type
    else []
  | .createObject | .dropObject | .alterObject =>
    if in_.objectType = "FOREIGN TABLE" then
      (denoted cat in_ ++ (in_.renamedTo.toList ++ in_.movedTo.toList).map Relation.object).map .rel
    else []
  | .importForeignSchema => (cat.imported in_).map .rel
  | .createExtension | .dropExtension | .alterExtension => cat.members in_.name
  | .setTextSearchMapping => (in_.named.toList.flatMap fun c => cat.searched c.object).map .rel
  | _ => []

def extra (in_ : Intent) : List Target :=
  (if in_.kind.descends then
    (in_.table.toList.flatMap fun t => cat.partitions t.object).map .rel
  else []) ++
  (if writesRows in_ then
    (in_.table.toList.flatMap fun t => cat.writtenWith t.object) ++
      in_.preserve.toList.map (.rel ·.object)
  else []) ++
  besides cat in_ ++ cat.reaches in_

def touched (in_ : Intent) : List Target := own in_ ++ extra cat in_

/-! ## The types of columns -/

/-- The types, named with their schema, that an intent gives columns. -/
def typesGiven (in_ : Intent) : List ObjectName :=
  match in_.kind with
  | .addColumn | .alterColumnType => (cat.typeOf in_.type).toList
  | .createTable => in_.columns.filterMap fun c => cat.typeOf c.type
  | .createTableAs | .createMaterializedView | .replaceView | .createObject
  | .importForeignSchema => cat.bodyTypes in_
  | _ => []

end

/-- The text of a type is its name, some trailing characters, and then a modifier if anything. -/
def SpelledWith (trailing : List Char) (type : String) (t : Relation) : Prop :=
  ∃ trail rest, type.toList = t.text.toList ++ trail ++ rest ∧ (∀ c ∈ trail, c ∈ trailing) ∧
    (rest = [] ∨ ∃ r, rest = '(' :: r)

/-- Blanks and opening brackets may follow the name of a column's type; in a new table nothing
may. -/
def SpelledPlainly (in_ : Intent) (t : Relation) : Prop :=
  match in_.kind with
  | .createTable => ∃ c ∈ in_.columns, SpelledWith [] c.type t
  | .addColumn | .alterColumnType => SpelledWith [' ', '['] in_.type t
  | _ => False

/-- The object is in a field of the intent for it, or is a type in plain spelling. -/
def Named (in_ : Intent) : Target → Prop
  | .rel o => ∃ r ∈ namedRelations in_, r.object = o
  | .seq o => ∃ s ∈ changedSequences in_, s.object = o
  | .type o => ∃ t : Relation, t.object = o ∧ (t ∈ changedTypes in_ ∨ SpelledPlainly in_ t)

/-! ## Collisions -/

/-- The statements change the type, or the relation it is the row type of. -/
def ChangesType (cat : Catalog) (in_ : Intent) (o : ObjectName) : Prop :=
  .type o ∈ touched cat in_ ∨ cat.rows o = true ∧ .rel o ∈ touched cat in_

/-- Two intents that touch the same relation or sequence, or of which one gives a column a type that
the other changes. -/
def Collide (cat : Catalog) (a b : Intent) : Prop :=
  (∃ o, .rel o ∈ touched cat a ∧ .rel o ∈ touched cat b) ∨
  (∃ o, .seq o ∈ touched cat a ∧ .seq o ∈ touched cat b) ∨
  (∃ o ∈ typesGiven cat a, ChangesType cat b o) ∨
  ∃ o ∈ typesGiven cat b, ChangesType cat a o

def Serialised (a b : Intent) : Prop := ∃ k ∈ conflictKeys a, k ∈ conflictKeys b

/-- The type is named, and so is the relation if it is the type of a relation's rows. -/
def NamesType (cat : Catalog) (in_ : Intent) (o : ObjectName) : Prop :=
  Named in_ (.type o) ∧ (cat.rows o = true → Named in_ (.rel o))

/-- The statements touch what the intent names and nothing else, and every type of a schema that it
gives a column, and that an intent could name, is spelled plainly and not the type of the rows of
another relation. -/
def Keyed (cat : Catalog) (in_ : Intent) : Prop :=
  (∀ x ∈ touched cat in_, Named in_ x) ∧
    ∀ t : Relation, t.object ∈ typesGiven cat in_ → NamesType cat in_ t.object

/-- An intent can name the object: its two names are identifiers, and a type's are read as they
stand and are no relation's. -/
def Nameable (cat : Catalog) : Target → Prop
  | .rel o => ∃ r : Relation, r.object = o
  | .seq o => ∃ s : Relation, s.object = o
  | .type o => ∃ t : Relation, t.object = o ∧ cat.typeOf t.text = some o ∧ cat.rows o = false

/-! ## Names and keys -/

/-- Keys of two kinds are told apart by their first letters. -/
theorem prefix_ne {p q : String} (a b : String) (h : p.toList.take 2 ≠ q.toList.take 2)
    (hp : 2 ≤ p.toList.length) (hq : 2 ≤ q.toList.length) : p ++ a ≠ q ++ b := by
  intro heq
  have htake := congrArg (fun s => s.toList.take 2) heq
  simp only [String.toList_append, List.take_append_of_le_length hp,
    List.take_append_of_le_length hq] at htake
  exact h htake

theorem text_mem_conflictKeys {in_ : Intent} {r : Relation} (h : r ∈ namedRelations in_) :
    r.text ∈ conflictKeys in_ := by
  refine List.mem_filter.2 ⟨?_, isKey_text r⟩
  rcases List.mem_append.1 h with h | h
  · exact List.mem_append_left _ (List.mem_append_right _ (List.mem_map_of_mem h))
  · exact List.mem_append_right _ (text_mem_edges h)

/-- A relation is a key exactly if it is named. -/
theorem text_mem_conflictKeys_iff {in_ : Intent} {r : Relation} :
    r.text ∈ conflictKeys in_ ↔ r ∈ namedRelations in_ := by
  refine ⟨fun h => ?_, text_mem_conflictKeys⟩
  rcases List.mem_append.1 (List.mem_of_mem_filter h) with h | h
  · rcases List.mem_append.1 h with h | h
    · exact (text_ne r (mem_objectKeyFor h) rfl).elim
    · obtain ⟨r', hr', heq⟩ := List.mem_map.1 h
      rw [← text_injective heq]
      exact List.mem_append_left _ hr'
  · rcases mem_edges h with ⟨r', hr', heq⟩ | h
    · rw [text_injective heq]
      exact List.mem_append_right _ hr'
    · exact (text_ne r h.colon rfl).elim

/-- A key with a prefix is the intent's object, or comes from an edge. -/
theorem prefixed_mem_conflictKeys_iff {in_ : Intent} {p : String} (hp : ':' ∈ p.toList)
    (t : Relation) : p ++ t.text ∈ conflictKeys in_ ↔
      p ++ t.text ∈ objectKeyFor in_ ∨ p ++ t.text ∈ edges in_ := by
  have htable : p ++ t.text ∉ in_.table.toList.map Relation.text := by
    intro h
    obtain ⟨r, -, hr⟩ := List.mem_map.1 h
    refine text_ne r ?_ hr
    rw [String.toList_append]
    exact List.mem_append_left _ hp
  simp only [conflictKeys, List.mem_filter, List.mem_append, isKey_prefixed, and_true]
  tauto

theorem text_eq_iff {r r' : Relation} : r.text = r'.text ↔ r = r' :=
  ⟨text_injective, fun h => h ▸ rfl⟩

/-- The object of an intent has the key of a sequence if it is one, and of a type if it is one. -/
theorem objectKeyFor_mem_iff {in_ : Intent} {r : Relation} :
    ("sequence:" ++ r.text ∈ objectKeyFor in_ ↔ r ∈ changedSequences in_) ∧
      ("type:" ++ r.text ∈ objectKeyFor in_ ↔ r ∈ changedTypes in_) := by
  unfold objectKeyFor changedSequences changedTypes
  split
  case h_18 => constructor <;> split <;> simp_all
  all_goals
    rename_i hkind
    simp (disch := decide) [hkind, prefix_ne, text_eq_iff, String.append_right_inj]

theorem sequenceKey_mem_iff {in_ : Intent} {s : Relation} :
    "sequence:" ++ s.text ∈ conflictKeys in_ ↔ s ∈ changedSequences in_ := by
  have hedges : "sequence:" ++ s.text ∉ edges in_ := by
    intro h
    rcases mem_edges h with ⟨r, -, hr⟩ | ⟨a, ha⟩ | ⟨a, ha⟩ | ha
    · exact text_ne r (by simp) hr.symm
    · exact prefix_ne _ _ (by decide) (by decide) (by decide) ha
    · exact prefix_ne _ _ (by decide) (by decide) (by decide) ha
    · exact prefix_ne _ _ (by decide) (by decide) (by decide) ha
  rw [prefixed_mem_conflictKeys_iff (by decide), or_iff_left hedges, objectKeyFor_mem_iff.1]

/-! ## Spellings -/

theorem dot_mem_text (t : Relation) : '.' ∈ t.text.toList := by
  rw [toList_text]
  simp

/-- No character of a name stops the reading of a type, or is stripped from its end. -/
theorem text_chars (t : Relation) : ∀ c ∈ t.text.toList, c ≠ '(' ∧ c ≠ ' ' ∧ c ≠ '[' := by
  intro c hc
  rw [toList_text] at hc
  have hident : identifierChar c = true ∨ c = '.' := by
    rcases List.mem_append.1 hc with h | h
    · exact .inl (all_of_isIdentifier t.schema_valid c h)
    · cases h with
      | head => exact .inr rfl
      | tail _ h => exact .inl (all_of_isIdentifier t.name_valid c h)
  rcases hident with h | rfl
  · refine ⟨?_, ?_, ?_⟩ <;> (rintro rfl; exact absurd h (by decide))
  · decide

theorem takeWhile_spelled {name trail rest : List Char} (hname : ∀ c ∈ name, c ≠ '(')
    (htrail : ∀ c ∈ trail, c ≠ '(') (hrest : rest = [] ∨ ∃ r, rest = '(' :: r) :
    (name ++ trail ++ rest).takeWhile (· ≠ '(') = name ++ trail := by
  have hall : ∀ c ∈ name ++ trail, decide (c ≠ '(') = true := by
    intro c hc
    rcases List.mem_append.1 hc with h | h
    · exact decide_eq_true (hname c h)
    · exact decide_eq_true (htrail c h)
  rw [List.takeWhile_append_of_pos hall]
  rcases hrest with rfl | ⟨r, rfl⟩
  · simp
  · simp

/-- What the cut at the parenthesis leaves is a prefix of the text, and the rest is a modifier. -/
theorem beforeParenthesis_append (type : String) : ∃ rest, type.toList =
    beforeParenthesis type ++ rest ∧ (rest = [] ∨ ∃ r, rest = '(' :: r) := by
  refine ⟨type.toList.dropWhile (· ≠ '('), List.takeWhile_append_dropWhile.symm, ?_⟩
  cases h : type.toList.dropWhile (· ≠ '(') with
  | nil => exact .inl rfl
  | cons c r =>
    have hc := List.head?_dropWhile_not (fun x => decide (x ≠ '(')) type.toList
    rw [h] at hc
    simp only [List.head?_cons] at hc
    exact .inr ⟨r, by rw [show c = '(' by simpa using hc]⟩

theorem ofList_eq_text {l : List Char} {t : Relation} :
    String.ofList l = t.text ↔ l = t.text.toList := by
  constructor
  · intro h
    rw [← h, String.toList_ofList]
  · rintro rfl
    exact String.ofList_toList

/-- The base of a column's type is the name exactly if it is spelled so. -/
theorem columnTypeBase_eq_iff {type : String} {t : Relation} :
    columnTypeBase type = t.text ↔ SpelledWith [' ', '['] type t := by
  have hnot : ∀ c ∈ t.text.toList, (c == ' ' || c == '[') = false := by
    intro c hc
    obtain ⟨-, hblank, hbracket⟩ := text_chars t c hc
    simp [hblank, hbracket]
  rw [columnTypeBase, ofList_eq_text]
  constructor
  · intro h
    obtain ⟨rest, htype, hrest⟩ := beforeParenthesis_append type
    have hsplit := congrArg List.reverse (List.takeWhile_append_dropWhile
      (p := fun c => c == ' ' || c == '[') (l := (beforeParenthesis type).reverse))
    rw [List.reverse_append, List.reverse_reverse, h] at hsplit
    refine ⟨_, rest, by rw [hsplit]; exact htype, fun c hc => ?_, hrest⟩
    have := List.mem_takeWhile_imp (List.mem_reverse.1 hc)
    simpa using this
  · rintro ⟨trail, rest, htype, htrail, hrest⟩
    have hbefore : beforeParenthesis type = t.text.toList ++ trail := by
      rw [beforeParenthesis, htype]
      refine takeWhile_spelled (fun c hc => (text_chars t c hc).1) (fun c hc => ?_) hrest
      rintro rfl
      exact absurd (htrail _ hc) (by decide)
    have hall : ∀ c ∈ trail.reverse, (c == ' ' || c == '[') = true := by
      intro c hc
      simpa using htrail c (List.mem_reverse.1 hc)
    rw [hbefore, List.reverse_append, List.dropWhile_append_of_pos hall]
    obtain ⟨l, c, hl⟩ : ∃ l c, t.text.toList = l ++ [c] :=
      ⟨_, _, (List.dropLast_append_getLast (List.ne_nil_of_mem (dot_mem_text t))).symm⟩
    have hc := hnot c (by rw [hl]; simp)
    rw [hl, List.reverse_append, List.reverse_singleton, List.singleton_append,
      List.dropWhile_cons, hc]
    simp

theorem beforeParenthesis_eq_iff {type : String} {t : Relation} :
    String.ofList (beforeParenthesis type) = t.text ↔ SpelledWith [] type t := by
  rw [ofList_eq_text]
  constructor
  · intro h
    obtain ⟨rest, htype, hrest⟩ := beforeParenthesis_append type
    exact ⟨[], rest, by rw [htype, h, List.append_nil], fun c hc => (nomatch hc), hrest⟩
  · rintro ⟨trail, rest, htype, htrail, hrest⟩
    have hnil : trail = [] := List.eq_nil_iff_forall_not_mem.2 fun c hc => (nomatch htrail c hc)
    subst hnil
    have := @takeWhile_spelled _ [] _ (fun c hc => (text_chars t c hc).1)
      (fun c hc => (nomatch hc)) hrest
    rwa [← htype, List.append_nil] at this

/-- A type has its key from an edge exactly if it is spelled plainly. -/
theorem type_mem_edges_iff {in_ : Intent} {t : Relation} :
    "type:" ++ t.text ∈ edges in_ ↔ SpelledPlainly in_ t := by
  have hcolumn (type : String) : "type:" ++ t.text ∈ columnTypeKeys type ↔
      SpelledWith [' ', '['] type t := by
    rw [← columnTypeBase_eq_iff, columnTypeKeys]
    split
    · rw [List.mem_singleton, String.append_right_inj, eq_comm]
    · rename_i hdot
      refine ⟨fun h => (nomatch h), fun h => (hdot ?_).elim⟩
      obtain ⟨trail, rest, htype, -⟩ := columnTypeBase_eq_iff.1 h
      rw [htype, List.append_assoc]
      exact List.mem_append_left _ (dot_mem_text t)
  have hdeclared (type : String) : "type:" ++ t.text ∈ declaredTypeKeys type ↔
      SpelledWith [] type t := by
    rw [← beforeParenthesis_eq_iff, declaredTypeKeys]
    split
    · rw [List.mem_singleton, String.append_right_inj, eq_comm]
    · rename_i hdot
      refine ⟨fun h => (nomatch h), fun h => (hdot ?_).elim⟩
      obtain ⟨trail, rest, htype, -⟩ := beforeParenthesis_eq_iff.1 h
      rw [htype, List.append_assoc]
      exact List.mem_append_left _ (dot_mem_text t)
  have hrelations (o : Option Relation) : "type:" ++ t.text ∉ o.toList.map Relation.text := by
    intro h
    obtain ⟨r, -, hr⟩ := List.mem_map.1 h
    exact text_ne r (by simp) hr
  have hextension (b : Bool) : "type:" ++ t.text ∉ extensionKeys b := by
    unfold extensionKeys
    split
    · rw [List.mem_singleton]
      change "type:" ++ t.text ≠ "extension:" ++ "btree_gist"
      exact prefix_ne _ _ (by decide) (by decide) (by decide)
    · simp
  have htrigger (f : String) : "type:" ++ t.text ∉ triggerKeys f := by
    unfold triggerKeys
    split
    · rw [List.mem_singleton]
      exact prefix_ne _ _ (by decide) (by decide) (by decide)
    · simp
  unfold edges
  split
  case h_1 hkind => simp [SpelledPlainly, hkind, hcolumn]
  case h_2 hkind => simp [SpelledPlainly, hkind, hcolumn]
  case h_3 hkind =>
    simp only [SpelledPlainly, hkind, List.mem_append, List.mem_flatMap, hdeclared, hrelations,
      hextension, false_or]
  case h_16 =>
    unfold SpelledPlainly
    split <;> simp_all
  all_goals
    rename_i hkind
    simp only [SpelledPlainly, hkind, hrelations, hextension, htrigger]

theorem typeKey_mem_iff {in_ : Intent} {t : Relation} : "type:" ++ t.text ∈ conflictKeys in_ ↔
    t ∈ changedTypes in_ ∨ SpelledPlainly in_ t := by
  rw [prefixed_mem_conflictKeys_iff (by decide), objectKeyFor_mem_iff.2, type_mem_edges_iff]

/-! ## What is named has a key -/

theorem named_rel_iff {in_ : Intent} {r : Relation} :
    Named in_ (.rel r.object) ↔ r.text ∈ conflictKeys in_ := by
  rw [text_mem_conflictKeys_iff]
  constructor
  · rintro ⟨r', hr', ho⟩
    rwa [← object_injective ho]
  · exact fun h => ⟨r, h, rfl⟩

theorem named_seq_iff {in_ : Intent} {s : Relation} :
    Named in_ (.seq s.object) ↔ "sequence:" ++ s.text ∈ conflictKeys in_ := by
  rw [sequenceKey_mem_iff]
  constructor
  · rintro ⟨s', hs', ho⟩
    rwa [← object_injective ho]
  · exact fun h => ⟨s, h, rfl⟩

theorem named_type_iff {in_ : Intent} {t : Relation} :
    Named in_ (.type t.object) ↔ "type:" ++ t.text ∈ conflictKeys in_ := by
  rw [typeKey_mem_iff]
  constructor
  · rintro ⟨t', ho, h⟩
    rwa [← object_injective ho]
  · exact fun h => ⟨t, rfl, h⟩

theorem own_named {in_ : Intent} {x : Target} (h : x ∈ own in_) : Named in_ x := by
  unfold own at h
  split at h
  · cases h
  · rcases List.mem_append.1 h with h | h
    · rcases List.mem_append.1 h with h | h
      · obtain ⟨r, hr, rfl⟩ := List.mem_map.1 h
        exact ⟨r, hr, rfl⟩
      · obtain ⟨s, hs, rfl⟩ := List.mem_map.1 h
        exact ⟨s, hs, rfl⟩
    · obtain ⟨t, ht, rfl⟩ := List.mem_map.1 h
      exact ⟨t, rfl, .inl ht⟩

/-! ## Exactly when the keys serve -/

theorem serialised_of_keyed {cat : Catalog} {a b : Intent} (ha : Keyed cat a) (hb : Keyed cat b)
    (h : Collide cat a b) : Serialised a b := by
  -- a type that one gives a column, and the other changes
  have htypes {a b : Intent} (ha : Keyed cat a) (hb : Keyed cat b) {o : ObjectName}
      (hoa : o ∈ typesGiven cat a) (hob : ChangesType cat b o) : Serialised a b := by
    rcases hob with hob | ⟨hrows, hob⟩
    · have hnamed := hb.1 _ hob
      obtain ⟨t, rfl, -⟩ := hnamed
      exact ⟨_, named_type_iff.1 (ha.2 t hoa).1, named_type_iff.1 (hb.1 _ hob)⟩
    · have hnamed := hb.1 _ hob
      obtain ⟨r, -, rfl⟩ := hnamed
      exact ⟨_, named_rel_iff.1 ((ha.2 r hoa).2 hrows), named_rel_iff.1 (hb.1 _ hob)⟩
  rcases h with ⟨o, hoa, hob⟩ | ⟨o, hoa, hob⟩ | ⟨o, hoa, hob⟩ | ⟨o, hob, hoa⟩
  · obtain ⟨r, -, rfl⟩ := ha.1 _ hoa
    exact ⟨_, named_rel_iff.1 (ha.1 _ hoa), named_rel_iff.1 (hb.1 _ hob)⟩
  · obtain ⟨s, -, rfl⟩ := ha.1 _ hoa
    exact ⟨_, named_seq_iff.1 (ha.1 _ hoa), named_seq_iff.1 (hb.1 _ hob)⟩
  · exact htypes ha hb hoa hob
  · obtain ⟨k, hkb, hka⟩ := htypes hb ha hob hoa
    exact ⟨k, hka, hkb⟩

/-! ## Partners -/

theorem touched_alone {cat : Catalog} {in_ : Intent} (h : Alone in_) :
    touched cat in_ = own in_ := by
  have hreaches := cat.reaches_alone in_ h
  obtain ⟨r, rfl | rfl | rfl | ⟨t, rfl⟩⟩ := h
  all_goals
    rw [touched, extra, hreaches]
    simp [besides, altersOnly, dropsSequence, dropsType, declaresColumn, IntentKind.descends,
      writesRows]

theorem keyed_alone {cat : Catalog} {in_ : Intent} (h : Alone in_)
    (htypes : ∀ t : Relation, t.object ∈ typesGiven cat in_ → NamesType cat in_ t.object) :
    Keyed cat in_ := by
  refine ⟨fun x hx => ?_, htypes⟩
  rw [touched_alone h] at hx
  exact own_named hx

theorem altersOnly_touches (cat : Catalog) (r : Relation) :
    .rel r.object ∈ touched cat (altersOnly r) := by
  rw [touched_alone ⟨r, .inl rfl⟩]
  simp [altersOnly, own, IntentKind.describes, namedRelations]

theorem dropsType_touches (cat : Catalog) (t : Relation) :
    .type t.object ∈ touched cat (dropsType t) := by
  rw [touched_alone ⟨t, .inr (.inr (.inl rfl))⟩]
  simp [dropsType, own, IntentKind.describes, changedTypes]

theorem altersOnly_keyed (cat : Catalog) (r : Relation) : Keyed cat (altersOnly r) :=
  keyed_alone ⟨r, .inl rfl⟩ fun t ht => by simp [altersOnly, typesGiven] at ht

theorem dropsSequence_keyed (cat : Catalog) (s : Relation) : Keyed cat (dropsSequence s) :=
  keyed_alone ⟨s, .inr (.inl rfl)⟩ fun t ht => by simp [dropsSequence, typesGiven] at ht

theorem dropsType_keyed (cat : Catalog) (t : Relation) : Keyed cat (dropsType t) :=
  keyed_alone ⟨t, .inr (.inr (.inl rfl))⟩ fun t ht => by simp [dropsType, typesGiven] at ht

theorem spelledWith_text (trailing : List Char) (t : Relation) :
    SpelledWith trailing t.text t := ⟨[], [], by simp, fun c hc => (nomatch hc), .inl rfl⟩

theorem declaresColumn_keyed {cat : Catalog} (r : Relation) {t : Relation}
    (ht : cat.typeOf t.text = some t.object) (hrows : cat.rows t.object = false) :
    Keyed cat (declaresColumn r t) := by
  refine keyed_alone ⟨r, .inr (.inr (.inr ⟨t, rfl⟩))⟩ fun t' ht' => ?_
  have hobject : t'.object = t.object := by simpa [declaresColumn, typesGiven, ht] using ht'
  rw [hobject, NamesType, hrows]
  exact ⟨⟨t, rfl, .inr ⟨_, .head _, spelledWith_text [] t⟩⟩, nofun⟩

theorem conflictKeys_altersOnly (r : Relation) : conflictKeys (altersOnly r) = [r.text] := by
  simp [altersOnly, conflictKeys, objectKeyFor, edges, isKey_text]

theorem conflictKeys_dropsSequence (s : Relation) :
    conflictKeys (dropsSequence s) = ["sequence:" ++ s.text] := by
  simp [dropsSequence, conflictKeys, objectKeyFor, edges, isKey_prefixed]

theorem conflictKeys_dropsType (t : Relation) :
    conflictKeys (dropsType t) = ["type:" ++ t.text] := by
  simp [dropsType, conflictKeys, objectKeyFor, edges, isKey_prefixed]

theorem conflictKeys_declaresColumn (r t : Relation) :
    conflictKeys (declaresColumn r t) = [r.text, "type:" ++ t.text] := by
  have hbase := beforeParenthesis_eq_iff.2 (spelledWith_text [] t)
  simp [declaresColumn, conflictKeys, objectKeyFor, edges, extensionKeys, declaredTypeKeys, hbase,
    dot_mem_text, isKey_text, isKey_prefixed]

def tableT : Relation := ⟨"public", "t", isIdentifier_public, by decide⟩

def tableU : Relation := ⟨"public", "u", isIdentifier_public, by decide⟩

def tableV : Relation := ⟨"public", "v", isIdentifier_public, by decide⟩

theorem namedRelations_length (in_ : Intent) : (namedRelations in_).length ≤ 2 := by
  have hone (o : Option Relation) : o.toList.length ≤ 1 := by cases o <;> simp
  have hedges : (edgeRelations in_).length ≤ 1 := by
    unfold edgeRelations
    split <;> first | exact hone _ | simp
  have htable := hone in_.table
  rw [namedRelations, List.length_append]
  omega

/-- A table that is none of those an intent names. -/
theorem exists_other_table (in_ : Intent) : ∃ r : Relation, r ∉ namedRelations in_ := by
  by_contra hall
  push Not at hall
  have hnodup : [tableT, tableU, tableV].Nodup := by decide
  have hlength := (hnodup.subperm fun r _ => hall r).length_le
  have htwo := namedRelations_length in_
  simp only [List.length_cons, List.length_nil] at hlength
  omega

/-- What is touched and not named has a partner: an intent of one object. -/
theorem collides_unserialised {cat : Catalog} {a : Intent} {x : Target} (hx : x ∈ touched cat a)
    (hnot : ¬ Named a x) (hname : Nameable cat x) :
    ∃ b, Keyed cat b ∧ Collide cat a b ∧ ¬ Serialised a b := by
  cases x with
  | rel o =>
    obtain ⟨r, rfl⟩ := hname
    refine ⟨altersOnly r, altersOnly_keyed cat r, .inl ⟨_, hx, altersOnly_touches cat r⟩, ?_⟩
    rintro ⟨k, hka, hkb⟩
    rw [conflictKeys_altersOnly, List.mem_singleton] at hkb
    rw [hkb] at hka
    exact hnot (named_rel_iff.2 hka)
  | seq o =>
    obtain ⟨s, rfl⟩ := hname
    refine ⟨dropsSequence s, dropsSequence_keyed cat s, .inr (.inl ⟨_, hx, ?_⟩), ?_⟩
    · rw [touched_alone ⟨s, .inr (.inl rfl)⟩]
      simp [dropsSequence, own, IntentKind.describes, changedSequences]
    · rintro ⟨k, hka, hkb⟩
      rw [conflictKeys_dropsSequence, List.mem_singleton] at hkb
      rw [hkb] at hka
      exact hnot (named_seq_iff.2 hka)
  | type o =>
    obtain ⟨t, rfl, ht, hrows⟩ := hname
    obtain ⟨r, hr⟩ := exists_other_table a
    refine ⟨declaresColumn r t, declaresColumn_keyed r ht hrows,
      .inr (.inr (.inr ⟨_, ?_, .inl hx⟩)), ?_⟩
    · simp [declaresColumn, typesGiven, ht]
    · rintro ⟨k, hka, hkb⟩
      rw [conflictKeys_declaresColumn] at hkb
      rcases List.mem_pair.1 hkb with rfl | rfl
      · exact hr (text_mem_conflictKeys_iff.1 hka)
      · exact hnot (named_type_iff.2 hka)

/-- An intent meets the condition exactly when it shares a key with every one it collides with,
among those that meet it too, and touches besides what it names only objects that an intent could
name. -/
theorem serialised_iff (cat : Catalog) (a : Intent) :
    Keyed cat a ↔ (∀ x ∈ touched cat a, Named a x ∨ Nameable cat x) ∧
      ∀ b, Keyed cat b → Collide cat a b → Serialised a b := by
  constructor
  · intro ha
    exact ⟨fun x hx => .inl (ha.1 x hx), fun b hb h => serialised_of_keyed ha hb h⟩
  · rintro ⟨hnameable, h⟩
    constructor
    · intro x hx
      by_contra hnot
      obtain ⟨b, hb, hcollide, hserial⟩ :=
        collides_unserialised hx hnot ((hnameable x hx).resolve_left hnot)
      exact hserial (h b hb hcollide)
    · intro t ht
      constructor
      · have hcollide : Collide cat a (dropsType t) :=
          .inr (.inr (.inl ⟨_, ht, .inl (dropsType_touches cat t)⟩))
        obtain ⟨k, hka, hkb⟩ := h _ (dropsType_keyed cat t) hcollide
        rw [conflictKeys_dropsType, List.mem_singleton] at hkb
        rw [hkb] at hka
        exact named_type_iff.2 hka
      · intro hrows
        have hcollide : Collide cat a (altersOnly t) :=
          .inr (.inr (.inl ⟨_, ht, .inr ⟨hrows, altersOnly_touches cat t⟩⟩))
        obtain ⟨k, hka, hkb⟩ := h _ (altersOnly_keyed cat t) hcollide
        rw [conflictKeys_altersOnly, List.mem_singleton] at hkb
        rw [hkb] at hka
        exact named_rel_iff.2 hka

def mood : Relation := ⟨"public", "mood", isIdentifier_public, by decide⟩

/-- `add_column` of `public.mood[]`, and `drop_type` of `public.mood`. -/
theorem arrayType_unserialised :
    Collide {} { kind := .addColumn, table := some tableT, type := "public.mood[]" }
        (dropsType mood) ∧
      ¬ Serialised { kind := .addColumn, table := some tableT, type := "public.mood[]" }
        (dropsType mood) := by
  constructor
  · exact .inr (.inr (.inl ⟨mood.object, by decide, .inl (by decide)⟩))
  · unfold Serialised
    decide

end Spec
end Laswell
