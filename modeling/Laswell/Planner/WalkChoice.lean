import Laswell.Base.Nullable

/-!
# Laswell.Planner.WalkChoice

Which rows a backfill's walk can meet. The planner reads a table's indexes and takes a walk along
the key alone, along a unique index that contains it, or along it inside each value of a group
column; the walk asks for the rows whose columns are greater than its cursor.

* `accepted_index`: the walk's columns are the key columns of a unique index without a predicate.
* `walk_orders_iff`: the rows of every content can be told apart and ordered by the walk's columns
  exactly when those columns are NOT NULL, which only the walk along a whole index asks for.
-/

namespace Laswell
namespace Planner

open Base

/-! ## The readings -/

/-- An index as the catalog query reads it. A field that the reading may lack is an option. -/
structure IndexReading where
  isUnique : Bool := false
  isValid : Bool := false
  isPrimary : Bool := false
  hasExpressions : Bool := false
  leadingColumn : String := ""
  columns : Option (List (Option String)) := none
  predicate : Option String := none
  keyColumnCount : Option Nat := none

/-- A table as the catalog query reads it: the columns with `not_null`, and the indexes by name. -/
structure TableReading where
  columns : List (String × Bool)
  indexes : List (String × IndexReading)
  names_sorted : (indexes.map Prod.fst).Pairwise (· < ·)

def TableReading.notNull (t : TableReading) (column : String) : Bool :=
  (t.columns.lookup column).getD false

/-- The indexes whose first column is the key. -/
def TableReading.leaders (t : TableReading) (key : String) : List (String × IndexReading) :=
  t.indexes.filter fun entry => entry.2.leadingColumn == key

/-- The columns after the key ones are payload. -/
def IndexReading.keyCount (ix : IndexReading) (columns : List (Option String)) : Nat :=
  ix.keyColumnCount.getD columns.length

/-! ## The three proofs -/

/-- Why an index that leads with the key does not prove it unique. -/
inductive Doubt where
  | notUnique
  | notValid
  | unread
  | wider (columns : List String)
  | narrowed (predicate : String)
deriving DecidableEq

def Doubt.text (indexName key : String) : Doubt → String
  | .notUnique => indexName ++ " leads with it but is not unique"
  | .notValid => indexName ++ " is unique but not valid -- a CREATE INDEX CONCURRENTLY " ++
      "that failed leaves exactly this behind"
  | .unread => indexName ++ " is unique, but this observation does not say which " ++
      "columns it covers or whether it is partial, so it proves nothing"
  | .wider columns => indexName ++ " is UNIQUE (" ++ ", ".intercalate columns ++
      "), which permits the same " ++ key ++ " on rows that differ in the other column(s)"
  | .narrowed predicate => indexName ++ " is unique but PARTIAL (WHERE " ++ predicate ++
      "), which says nothing about the rows outside its predicate"

def IndexReading.doubt (ix : IndexReading) : Option Doubt :=
  if ix.isUnique = false then some .notUnique
  else if ix.isValid = false then some .notValid
  else
    match ix.columns, ix.predicate with
    | some columns, some predicate =>
      if ix.keyCount columns ≠ 1 then
        some (.wider (columns.map (·.getD "<expression>")))
      else if predicate ≠ "" then some (.narrowed predicate)
      else none
    | _, _ => some .unread

/-- The name of an index on the key alone, or what the first candidate lacks. -/
def uniqueKeyIndex (t : TableReading) (key : String) : Except String String :=
  match (t.leaders key).find? (·.2.doubt.isNone) with
  | some entry => .ok entry.1
  | none => .error (((t.leaders key).head?.bind fun entry =>
      entry.2.doubt.map (·.text entry.1 key)).getD "")

/-- What both proofs over several columns ask of an index before they look at its columns. -/
def IndexReading.provable (ix : IndexReading) : Option (List (Option String)) :=
  if ix.isUnique = false ∨ ix.isValid = false ∨ ix.hasExpressions = true then none
  else
    match ix.columns, ix.predicate with
    | some columns, some predicate => if predicate ≠ "" then none else some columns
    | _, _ => none

def columnNames : List (Option String) → Option (List String)
  | [] => some []
  | none :: _ => none
  | some column :: rest => (columnNames rest).map (column :: ·)

/-- The key columns of an index that contains the key, over NOT NULL columns only. -/
def IndexReading.containing (t : TableReading) (key : String) (ix : IndexReading) :
    Option (List String) :=
  match ix.provable with
  | none => none
  | some all =>
    let keyCount := ix.keyCount all
    if keyCount < 2 ∨ all.length < keyCount then none
    else
      match columnNames (all.take keyCount) with
      | none => none
      | some columns =>
        if columns.all t.notNull = false ∨ key ∉ columns then none else some columns

/-- What the loop over the indexes has kept so far. -/
structure Kept where
  columns : List String
  indexName : String
  isPrimary : Bool

/-- The primary key before the others, then the narrowest, then the first by name. -/
def better (kept : Option Kept) (isPrimary : Bool) (columns : List String) : Bool :=
  match kept with
  | none => true
  | some k => (isPrimary && !k.isPrimary) ||
      (isPrimary == k.isPrimary && decide (columns.length < k.columns.length))

def keepBetter (t : TableReading) (key : String) (kept : Option Kept)
    (entry : String × IndexReading) : Option Kept :=
  match entry.2.containing t key with
  | none => kept
  | some columns =>
    if better kept entry.2.isPrimary columns = true then
      some { columns, indexName := entry.1, isPrimary := entry.2.isPrimary }
    else kept

def uniqueIndexContaining (t : TableReading) (key : String) : Option Kept :=
  t.indexes.foldl (keepBetter t key) none

/-- The group column of an index on exactly the group and the key, group first. -/
def IndexReading.groupOf (requiredGroup key : String) (ix : IndexReading) : Option String :=
  match ix.provable with
  | some (some group :: some second :: rest) =>
    if ix.keyCount (some group :: some second :: rest) ≠ 2 then none
    else if second ≠ key then none
    else if requiredGroup ≠ "" ∧ group ≠ requiredGroup then none
    else some group
  | _ => none

/-- The group column and the index. -/
def uniqueGroupKeyIndex (t : TableReading) (key requiredGroup : String) :
    Option (String × String) :=
  t.indexes.findSome? fun entry =>
    (entry.2.groupOf requiredGroup key).map fun group => (group, entry.1)

/-! ## Which walk -/

inductive WalkChoice where
  | ordinary (key supportingIndex : String)
  | composite (columns : List String) (supportingIndex : String)
  | grouped (groupColumn key supportingIndex : String)
deriving DecidableEq

/-- The columns that the walk's cursor holds. -/
def WalkChoice.columns : WalkChoice → List String
  | .ordinary key _ => [key]
  | .composite columns _ => columns
  | .grouped groupColumn key _ => [groupColumn, key]

/-- What a module says about the batches of a table: the column they must be confined to, empty
for none, and the module. -/
structure Confinement where
  requiredGroup : String
  confinedBy : String

/-- The step's `why` and the plan's conflict. -/
structure WalkConflict where
  why : String
  conflict : String
deriving DecidableEq

def confinedToKey (qualified key : String) (c : Confinement) : WalkConflict :=
  let why := "row-locking batches on " ++ qualified ++ " must be confined to one value of " ++
    key ++ ", which is the walk key"
  { why
    conflict := why ++ " -- the " ++ c.confinedBy ++ " reading says so, and with the " ++
      "two the same every batch would be a single row. Walk a different key " ++
      "that is unique within one " ++ key ++ ", or supply the rows with " ++
      "update_rows, which needs no walk." }

def noGroupIndex (qualified key : String) (c : Confinement) : WalkConflict :=
  let why := "no unique index on (" ++ c.requiredGroup ++ ", " ++ key ++ ") covers " ++ qualified
  { why
    conflict := why ++ ". The " ++ c.confinedBy ++ " reading says row-locking " ++
      "batches on this table must be confined to one value of " ++
      c.requiredGroup ++ ", so " ++ key ++ " only has to be unique WITHIN one " ++
      "-- which a unique index on (" ++ c.requiredGroup ++ ", " ++ key ++
      "), in that order, proves. Create it, or walk a key that such an " ++
      "index already covers." }

def noIndex (qualified key unproven : String) : WalkConflict :=
  { why := "no unique index proves " ++ key ++ " unique"
    conflict := qualified ++ " has no valid unique index on (" ++ key ++ ") alone" ++
      (if unproven = "" then "" else " (" ++ unproven ++ ")") ++
      ", nor one that contains " ++ key ++ " over NOT NULL columns only, so a " ++
      "keyset walk could skip or repeat rows. The walk needs a unique index " ++
      "that contains " ++ key ++ ": on it alone, or with other columns, which " ++
      "it then follows together. Name as \"key\" a column of such an " ++
      "index, or create one." }

/-- The walk inside each value of a group column, where an index proves it. -/
def groupWalk (t : TableReading) (qualified key : String) (c : Confinement) (unproven : String) :
    Except WalkConflict WalkChoice :=
  match uniqueGroupKeyIndex t key c.requiredGroup with
  | some (groupColumn, groupedIndex) => .ok (.grouped groupColumn key groupedIndex)
  | none =>
    if c.requiredGroup ≠ "" then .error (noGroupIndex qualified key c)
    else .error (noIndex qualified key unproven)

/-- The part of `plan_backfill` that chooses the walk. -/
def whichWalk (t : TableReading) (qualified key : String) (c : Confinement) :
    Except WalkConflict WalkChoice :=
  if c.requiredGroup = "" then
    match uniqueKeyIndex t key with
    | .ok supportingIndex => .ok (.ordinary key supportingIndex)
    | .error unproven =>
      match uniqueIndexContaining t key with
      | some kept => .ok (.composite kept.columns kept.indexName)
      | none => groupWalk t qualified key c unproven
  else if c.requiredGroup = key then .error (confinedToKey qualified key c)
  else groupWalk t qualified key c ""

/-- `default_fill_key`: the first column of the primary key, of several the first one that batches
are not confined to. -/
def defaultFillKey (t : TableReading) (c : Confinement) : Option String :=
  t.indexes.findSome? fun entry =>
    if entry.2.isPrimary then
      let columns := entry.2.columns.getD []
      let keys := entry.2.keyCount columns
      (columns.take keys).findSome? fun column =>
        column.filter fun name => !(decide (1 < keys) && name == c.requiredGroup)
    else none

/-- Whether the walk comes by a row, which has NULL in some columns and in some a value greater than
the text "0". The walk along one key starts behind "0", the others before the first row. -/
def WalkChoice.meets (null behindZero : String → Bool) : WalkChoice → Bool
  | .ordinary key _ => !null key && behindZero key
  | .composite columns _ => columns.all fun column => !null column
  | .grouped groupColumn key _ => !null groupColumn && !null key

/-! ## The table behind a reading -/

section Content

variable {V : Type}

abbrev Row (V : Type) := String → Option V

inductive KeyTerm (V : Type) where
  | column (name : String)
  | expression (value : Row V → Option V)

def KeyTerm.eval (row : Row V) : KeyTerm V → Option V
  | .column name => row name
  | .expression value => value row

def KeyTerm.name? : KeyTerm V → Option String
  | .column name => some name
  | .expression _ => none

/-- The predicate of an index that covers part of the rows. -/
structure IndexPredicate (V : Type) where
  text : String
  text_ne : text ≠ ""
  holds : Row V → Bool

structure IndexDef (V : Type) where
  keys : List (KeyTerm V)
  payload : List String
  isUnique : Bool
  isValid : Bool
  isPrimary : Bool
  predicate : Option (IndexPredicate V)

/-- What the catalog query reads of an index: an expression has no name in the list. -/
def IndexDef.observed (d : IndexDef V) : IndexReading where
  isUnique := d.isUnique
  isValid := d.isValid
  isPrimary := d.isPrimary
  hasExpressions := d.keys.any fun term => term.name?.isNone
  leadingColumn := (d.keys.head?.bind KeyTerm.name?).getD ""
  columns := some ((d.keys.filterMap KeyTerm.name? ++ d.payload).map some)
  predicate := some ((d.predicate.map IndexPredicate.text).getD "")
  keyColumnCount := some d.keys.length

/-- The reading is one of this index. It may lack fields, and never says what is not so. -/
structure IndexReading.Describes (ix : IndexReading) (d : IndexDef V) : Prop where
  unique : ix.isUnique = true → d.isUnique = true
  valid : ix.isValid = true → d.isValid = true
  leading : ix.leadingColumn ≠ "" → d.keys.head? = some (.column ix.leadingColumn)
  whole : ix.predicate = some "" → d.predicate = none
  counted : ∀ columns, ix.columns = some columns → ix.keyCount columns = d.keys.length
  listed : ∀ columns, ix.columns = some columns → ix.hasExpressions = false →
    columns.take d.keys.length = d.keys.map KeyTerm.name?

theorem names_filterMap (keys : List (KeyTerm V)) (hnames : ∀ term ∈ keys, term.name? ≠ none) :
    keys.map KeyTerm.name? = (keys.filterMap KeyTerm.name?).map some := by
  induction keys with
  | nil => rfl
  | cons term rest ih =>
    obtain ⟨name, hname⟩ := Option.ne_none_iff_exists'.mp (hnames term (by simp))
    simp [hname, ih fun u hu => hnames u (by simp [hu])]

theorem observed_describes (d : IndexDef V) : d.observed.Describes d where
  unique h := h
  valid h := h
  leading h := by
    cases hkeys : d.keys with
    | nil => simp [IndexDef.observed, hkeys] at h
    | cons term rest => cases term <;> simp_all [IndexDef.observed, KeyTerm.name?]
  whole h := by
    cases hpredicate : d.predicate with
    | none => rfl
    | some p => simp [IndexDef.observed, hpredicate, p.text_ne] at h
  counted columns _ := rfl
  listed columns hcolumns hnames := by
    have hall := names_filterMap d.keys (by
      simpa [IndexDef.observed, Option.isSome_iff_ne_none] using hnames)
    obtain rfl := Option.some.inj hcolumns
    rw [List.map_append, ← hall, List.take_append_of_le_length (by simp),
      List.take_of_length_le (by simp)]

/-- Of two rows that the index constrains, one column or expression of its key differs. A NULL
differs from everything. -/
def IndexDef.Unique (d : IndexDef V) (rows : List (Row V)) : Prop :=
  rows.Pairwise fun a b =>
    (∀ term ∈ d.keys, term.eval a ≠ none) → ∃ term ∈ d.keys, term.eval a ≠ term.eval b

/-- The indexes that a reading is of. -/
structure Observed (V : Type) (t : TableReading) where
  index : String → IndexDef V
  describes : ∀ entry ∈ t.indexes, entry.2.Describes (index entry.1)

/-- A content the table can have: `not_null` columns hold no NULL, and unique indexes that are
valid and have no predicate hold. -/
structure Observed.Consistent {t : TableReading} (o : Observed V t) (rows : List (Row V)) :
    Prop where
  notNull : ∀ column, t.notNull column = true → ∀ row ∈ rows, row column ≠ none
  unique : ∀ entry ∈ t.indexes, (o.index entry.1).isUnique = true →
    (o.index entry.1).isValid = true → (o.index entry.1).predicate = none →
    (o.index entry.1).Unique rows

/-- The walk's columns tell any two rows apart, and compare every row that matches with every
cursor. -/
structure Orders [LinearOrder V] (columns : List String) (rows : List (Row V))
    (filter : Row V → Bool) : Prop where
  distinct : rows.Pairwise fun a b => columns.map a ≠ columns.map b
  reached : ∀ row ∈ rows, filter row = true → ∀ cursor : List V,
    cursor.length = columns.length → rowGreater (columns.map row) cursor ≠ none

/-! ## What an accepted walk rests on -/

/-- A unique index on these columns, whole and valid. -/
structure IndexDef.Proves (d : IndexDef V) (columns : List String) : Prop where
  unique : d.isUnique = true
  valid : d.isValid = true
  whole : d.predicate = none
  keys : d.keys = columns.map .column

theorem doubt_none {ix : IndexReading} (h : ix.doubt = none) :
    ix.isUnique = true ∧ ix.isValid = true ∧ ix.predicate = some "" ∧
      ∃ columns, ix.columns = some columns ∧ ix.keyCount columns = 1 := by
  unfold IndexReading.doubt at h
  split_ifs at h with hunique hvalid
  split at h
  · rename_i columns predicate hcolumns hpredicate
    split_ifs at h with hcount hempty
    simp only [not_not] at hcount hempty
    exact ⟨by simpa using hunique, by simpa using hvalid, by rw [hpredicate, hempty],
      columns, hcolumns, hcount⟩
  · cases h

theorem provable_some {ix : IndexReading} {all : List (Option String)}
    (h : ix.provable = some all) :
    ix.isUnique = true ∧ ix.isValid = true ∧ ix.hasExpressions = false ∧
      ix.predicate = some "" ∧ ix.columns = some all := by
  unfold IndexReading.provable at h
  split_ifs at h with hguards
  split at h
  · rename_i columns predicate hcolumns hpredicate
    split_ifs at h with hempty
    obtain rfl := Option.some.inj h
    simp only [not_or, not_not, Bool.not_eq_false, Bool.not_eq_true] at hguards hempty
    exact ⟨hguards.1, hguards.2.1, hguards.2.2, by rw [hpredicate, hempty], hcolumns⟩
  · cases h

theorem columnNames_eq_some {all : List (Option String)} :
    ∀ {columns : List String}, columnNames all = some columns ↔ all = columns.map some := by
  induction all with
  | nil =>
    intro columns
    cases columns <;> simp [columnNames]
  | cons name rest ih =>
    intro columns
    cases name with
    | none => cases columns <;> simp [columnNames]
    | some name =>
      cases columns with
      | nil => simp [columnNames]
      | cons column columns => simp [columnNames, ih, and_comm]

theorem containing_eq_some {t : TableReading} {key : String} {ix : IndexReading}
    {columns : List String} :
    ix.containing t key = some columns ↔
      ∃ all, ix.provable = some all ∧ 2 ≤ ix.keyCount all ∧ ix.keyCount all ≤ all.length ∧
        all.take (ix.keyCount all) = columns.map some ∧ columns.all t.notNull = true ∧
        key ∈ columns := by
  unfold IndexReading.containing
  cases ix.provable with
  | none => simp
  | some all =>
    simp only [Option.some.injEq, exists_eq_left']
    cases hnames : columnNames (all.take (ix.keyCount all)) with
    | none =>
      have hnone : all.take (ix.keyCount all) ≠ columns.map some := fun h => by
        rw [columnNames_eq_some.mpr h] at hnames
        cases hnames
      simp [hnone]
    | some names =>
      rw [columnNames_eq_some] at hnames
      have hmap : List.map some names = columns.map some ↔ names = columns :=
        List.map_inj_right (Option.some_injective String)
      rw [hnames, hmap]
      by_cases hcount : ix.keyCount all < 2 ∨ all.length < ix.keyCount all
      · simp only [if_pos hcount, reduceCtorEq, false_iff]
        omega
      · simp only [if_neg hcount]
        grind

theorem groupOf_eq_some {requiredGroup key group : String} {ix : IndexReading}
    (h : ix.groupOf requiredGroup key = some group) :
    ∃ all, ix.provable = some all ∧ ix.keyCount all = 2 ∧ 2 ≤ all.length ∧
      all.take 2 = [group, key].map some ∧
      (requiredGroup = "" ∨ group = requiredGroup) := by
  unfold IndexReading.groupOf at h
  split at h
  · rename_i first second rest hprovable
    split_ifs at h with hcount hkey hgroup
    obtain rfl := Option.some.inj h
    simp only [not_not] at hcount hkey
    exact ⟨_, hprovable, hcount, by simp, by simp [hkey], by tauto⟩
  · cases h

/-- An index that leads with the key and leaves no doubt is on the key alone. -/
theorem alone_proves {ix : IndexReading} {d : IndexDef V} {key : String} (hread : ix.Describes d)
    (hkey : key ≠ "") (hleads : ix.leadingColumn = key) (hdoubt : ix.doubt = none) :
    d.Proves [key] := by
  obtain ⟨hunique, hvalid, hwhole, columns, hcolumns, hcount⟩ := doubt_none hdoubt
  have hhead := hread.leading (by rwa [hleads])
  have hlength : d.keys.length = 1 := by rw [← hread.counted columns hcolumns, hcount]
  obtain ⟨term, hterm⟩ := List.length_eq_one_iff.mp hlength
  rw [hterm, List.head?_cons, Option.some.injEq, hleads] at hhead
  exact ⟨hread.unique hunique, hread.valid hvalid, hread.whole hwhole, by simp [hterm, hhead]⟩

theorem keys_of_names {keys : List (KeyTerm V)} :
    ∀ {columns : List String}, keys.map KeyTerm.name? = columns.map some →
      keys = columns.map .column := by
  induction keys with
  | nil =>
    intro columns h
    cases columns with
    | nil => rfl
    | cons column columns => simp at h
  | cons term keys ih =>
    intro columns h
    cases columns with
    | nil => simp at h
    | cons column columns =>
      simp only [List.map_cons, List.cons.injEq] at h
      cases term with
      | column name =>
        obtain rfl : name = column := Option.some.inj h.1
        rw [List.map_cons, ih h.2]
      | expression value => simp [KeyTerm.name?] at h

/-- The key columns of an index without expressions are what its reading lists first. -/
theorem listed_proves {ix : IndexReading} {d : IndexDef V} {all : List (Option String)}
    {columns : List String} (hread : ix.Describes d) (hprovable : ix.provable = some all)
    (htake : all.take (ix.keyCount all) = columns.map some) : d.Proves columns := by
  obtain ⟨hunique, hvalid, hnames, hwhole, hall⟩ := provable_some hprovable
  rw [hread.counted all hall, hread.listed all hall hnames] at htake
  exact ⟨hread.unique hunique, hread.valid hvalid, hread.whole hwhole, keys_of_names htake⟩

end Content

/-! ## What the planner accepts -/

section Accepted

variable {t : TableReading} {qualified key : String} {c : Confinement} {walk : WalkChoice}

theorem keepBetter_none {kept : Option Kept} {entry : String × IndexReading}
    (h : keepBetter t key kept entry = none) :
    kept = none ∧ entry.2.containing t key = none := by
  unfold keepBetter at h
  split at h
  · rename_i hcontaining
    exact ⟨h, hcontaining⟩
  · split_ifs at h with hbetter
    subst h
    simp [better] at hbetter

theorem keepBetter_some {kept : Option Kept} {entry : String × IndexReading} {k : Kept}
    (h : keepBetter t key kept entry = some k) :
    kept = some k ∨ entry.1 = k.indexName ∧ entry.2.containing t key = some k.columns := by
  unfold keepBetter at h
  split at h
  · exact .inl h
  · rename_i columns hcontaining
    split_ifs at h with hbetter
    · obtain rfl := Option.some.inj h
      exact .inr ⟨rfl, hcontaining⟩
    · exact .inl h

theorem foldl_keepBetter_none (indexes : List (String × IndexReading)) :
    ∀ kept, indexes.foldl (keepBetter t key) kept = none →
      kept = none ∧ ∀ entry ∈ indexes, entry.2.containing t key = none := by
  induction indexes with
  | nil => simp
  | cons entry rest ih =>
    intro kept h
    obtain ⟨hkept, hrest⟩ := ih _ h
    obtain ⟨hnone, hentry⟩ := keepBetter_none hkept
    exact ⟨hnone, by simpa [hentry] using fun a b hmem => hrest (a, b) hmem⟩

theorem foldl_keepBetter_some (indexes : List (String × IndexReading)) {k : Kept} :
    ∀ kept, indexes.foldl (keepBetter t key) kept = some k →
      kept = some k ∨ ∃ entry ∈ indexes, entry.1 = k.indexName ∧
        entry.2.containing t key = some k.columns := by
  induction indexes with
  | nil => simp
  | cons entry rest ih =>
    intro kept h
    rcases ih _ h with hkept | ⟨e, hmem, he⟩
    · rcases keepBetter_some hkept with hkept | hentry
      · exact .inl hkept
      · exact .inr ⟨entry, by simp, hentry⟩
    · exact .inr ⟨e, by simp [hmem], he⟩

/-- No index proves the key alone. -/
def NoneAlone (t : TableReading) (key : String) : Prop :=
  ∀ entry ∈ t.leaders key, entry.2.doubt ≠ none

instance : Decidable (NoneAlone t key) :=
  inferInstanceAs (Decidable (∀ entry ∈ t.leaders key, entry.2.doubt ≠ none))

theorem uniqueKeyIndex_ok {name : String} (h : uniqueKeyIndex t key = .ok name) :
    ∃ ix, (name, ix) ∈ t.leaders key ∧ ix.doubt = none := by
  unfold uniqueKeyIndex at h
  split at h
  · rename_i entry hfind
    obtain rfl := Except.ok.inj h
    have hnone := List.find?_some hfind
    exact ⟨entry.2, List.mem_of_find?_eq_some hfind, by simpa using hnone⟩
  · cases h

theorem uniqueKeyIndex_error {why : String} (h : uniqueKeyIndex t key = .error why) :
    NoneAlone t key := by
  unfold uniqueKeyIndex at h
  split at h
  · cases h
  · rename_i hfind
    intro entry hentry hdoubt
    simpa [hdoubt] using List.find?_eq_none.mp hfind entry hentry

theorem groupWalk_ok {unproven : String} (h : groupWalk t qualified key c unproven = .ok walk) :
    ∃ group, ∃ entry ∈ t.indexes, walk = .grouped group key entry.1 ∧
      entry.2.groupOf c.requiredGroup key = some group := by
  unfold groupWalk at h
  split at h
  · rename_i group name hfound
    obtain rfl := Except.ok.inj h
    obtain ⟨entry, hmem, hentry⟩ := List.exists_of_findSome?_eq_some hfound
    obtain ⟨g, hg, hpair⟩ := Option.map_eq_some_iff.mp hentry
    obtain ⟨rfl, rfl⟩ := Prod.mk.inj hpair
    exact ⟨g, entry, hmem, rfl, hg⟩
  · split_ifs at h

/-- What the three walks rest on. -/
theorem whichWalk_ok (h : whichWalk t qualified key c = .ok walk) :
    (c.requiredGroup = "" ∧ ∃ entry ∈ t.leaders key, entry.2.doubt = none ∧
      walk = .ordinary key entry.1) ∨
    (c.requiredGroup = "" ∧ NoneAlone t key ∧ ∃ entry ∈ t.indexes, ∃ columns,
      entry.2.containing t key = some columns ∧ walk = .composite columns entry.1) ∨
    ((c.requiredGroup = "" → NoneAlone t key ∧
        ∀ entry ∈ t.indexes, entry.2.containing t key = none) ∧
      ∃ group, ∃ entry ∈ t.indexes, walk = .grouped group key entry.1 ∧
        entry.2.groupOf c.requiredGroup key = some group) := by
  unfold whichWalk at h
  split_ifs at h with hgroup hsame
  · split at h
    · rename_i name hname
      obtain ⟨ix, hmem, hdoubt⟩ := uniqueKeyIndex_ok hname
      exact .inl ⟨hgroup, (name, ix), hmem, hdoubt, (Except.ok.inj h).symm⟩
    · rename_i why hwhy
      have hnone := uniqueKeyIndex_error hwhy
      split at h
      · rename_i kept hkept
        rcases foldl_keepBetter_some t.indexes none hkept with hfirst | ⟨entry, hmem, hname, hentry⟩
        · cases hfirst
        · refine .inr (.inl ⟨hgroup, hnone, entry, hmem, kept.columns, hentry, ?_⟩)
          rw [hname]
          exact (Except.ok.inj h).symm
      · rename_i hkept
        have hcontaining := (foldl_keepBetter_none t.indexes none hkept).2
        exact .inr (.inr ⟨fun _ => ⟨hnone, hcontaining⟩, groupWalk_ok h⟩)
  · exact .inr (.inr ⟨fun hempty => absurd hempty hgroup, groupWalk_ok h⟩)

/-- The walk's columns are the key columns of a unique index, valid and whole. -/
theorem accepted_index {V : Type} (o : Observed V t) (hkey : key ≠ "")
    (h : whichWalk t qualified key c = .ok walk) :
    ∃ entry ∈ t.indexes, (o.index entry.1).Proves walk.columns := by
  rcases whichWalk_ok h with ⟨-, entry, hmem, hdoubt, rfl⟩ |
    ⟨-, -, entry, hmem, columns, hcontaining, rfl⟩ | ⟨-, group, entry, hmem, rfl, hgroup⟩
  · obtain ⟨hin, hleads⟩ := List.mem_filter.mp hmem
    exact ⟨entry, hin, alone_proves (o.describes entry hin) hkey (by simpa using hleads) hdoubt⟩
  · obtain ⟨all, hprovable, -, -, htake, -, -⟩ := containing_eq_some.mp hcontaining
    exact ⟨entry, hmem, listed_proves (o.describes entry hmem) hprovable htake⟩
  · obtain ⟨all, hprovable, hcount, -, htake, -⟩ := groupOf_eq_some hgroup
    refine ⟨entry, hmem, listed_proves (o.describes entry hmem) hprovable ?_⟩
    rw [hcount, htake]
    rfl

/-- When the planner's walk leaves no NULL behind. A walk along the key alone needs it NOT NULL,
and one along another index needs one over NOT NULL columns that contains the key; in a group that
a module names, the group column and the key have to be NOT NULL. -/
def NullsExcluded (t : TableReading) (requiredGroup key : String) : Prop :=
  if requiredGroup = "" then
    (¬NoneAlone t key → t.notNull key = true) ∧
    (NoneAlone t key → ∃ entry ∈ t.indexes, entry.2.containing t key ≠ none)
  else t.notNull requiredGroup = true ∧ t.notNull key = true

instance (t : TableReading) (requiredGroup key : String) :
    Decidable (NullsExcluded t requiredGroup key) := by
  unfold NullsExcluded
  infer_instance

/-- An index on the group and the key contains the key, if both are NOT NULL. -/
theorem containing_of_groupOf {ix : IndexReading} {requiredGroup group : String}
    (h : ix.groupOf requiredGroup key = some group) (hgroup : t.notNull group = true)
    (hkey : t.notNull key = true) : ix.containing t key = some [group, key] := by
  obtain ⟨all, hprovable, hcount, hlength, htake, -⟩ := groupOf_eq_some h
  refine containing_eq_some.mpr ⟨all, hprovable, by omega, by omega, ?_, ?_, by simp⟩
  · rw [hcount, htake]
  · simp [hgroup, hkey]

theorem nullsExcluded_iff (h : whichWalk t qualified key c = .ok walk) :
    NullsExcluded t c.requiredGroup key ↔ ∀ column ∈ walk.columns, t.notNull column = true := by
  unfold NullsExcluded
  rcases whichWalk_ok h with ⟨hempty, entry, hmem, hdoubt, rfl⟩ |
    ⟨hempty, hnone, entry, hmem, columns, hcontaining, rfl⟩ | ⟨hfree, group, entry, hmem, rfl, hg⟩
  · have halone : ¬NoneAlone t key := fun hnone => hnone entry hmem hdoubt
    simp [hempty, halone, WalkChoice.columns]
  · obtain ⟨all, -, -, -, -, hall, -⟩ := containing_eq_some.mp hcontaining
    have hexists : ∃ entry ∈ t.indexes, entry.2.containing t key ≠ none :=
      ⟨entry, hmem, by simp [hcontaining]⟩
    rw [if_pos hempty]
    exact ⟨fun _ => List.all_eq_true.mp hall,
      fun _ => ⟨fun halone => absurd hnone halone, fun _ => hexists⟩⟩
  · obtain ⟨-, -, -, -, -, hrequired⟩ := groupOf_eq_some hg
    by_cases hempty : c.requiredGroup = ""
    · obtain ⟨hnone, hcontaining⟩ := hfree hempty
      rw [if_pos hempty]
      constructor
      · rintro ⟨-, hexists⟩
        obtain ⟨e, he, hsome⟩ := hexists hnone
        exact absurd (hcontaining e he) hsome
      · intro hcolumns
        have hpair := containing_of_groupOf hg (hcolumns group (by simp [WalkChoice.columns]))
          (hcolumns key (by simp [WalkChoice.columns]))
        rw [hcontaining entry hmem] at hpair
        cases hpair
    · obtain rfl := hrequired.resolve_left hempty
      simp [hempty, WalkChoice.columns]

end Accepted

/-! ## The rows it can meet -/

section Rows

variable {V : Type} {t : TableReading} {qualified key : String} {c : Confinement}
  {walk : WalkChoice}

/-- Rows without a NULL in the key columns differ in one of them. -/
theorem IndexDef.Proves.distinct {d : IndexDef V} {columns : List String} {rows : List (Row V)}
    (hproves : d.Proves columns) (hunique : d.Unique rows)
    (hvalues : ∀ row ∈ rows, ∀ column ∈ columns, row column ≠ none) :
    rows.Pairwise fun a b => columns.map a ≠ columns.map b := by
  refine hunique.imp_of_mem fun {a b} ha hb hdiffer hsame => ?_
  rw [hproves.keys] at hdiffer
  obtain ⟨term, hterm, hne⟩ := hdiffer fun term hterm => by
    obtain ⟨column, hcolumn, rfl⟩ := List.mem_map.mp hterm
    exact hvalues a ha column hcolumn
  obtain ⟨column, hcolumn, rfl⟩ := List.mem_map.mp hterm
  exact hne (List.map_inj_left.mp hsame column hcolumn)

/-- The row that holds a NULL wherever the reading lets it. -/
def sparseRow (t : TableReading) (v : V) : Row V := fun column =>
  if t.notNull column = true then some v else none

theorem sparseRow_consistent (o : Observed V t) (v : V) : o.Consistent [sparseRow t v] where
  notNull column hcolumn row hrow := by
    obtain rfl := List.mem_singleton.mp hrow
    simp [sparseRow, hcolumn]
  unique _ _ _ _ _ := List.pairwise_singleton _ _

/-- The columns of an accepted walk tell the rows of every content apart and compare all that
match with every cursor exactly when no NULL can stand in them. -/
theorem walk_orders_iff [LinearOrder V] [Nonempty V] (o : Observed V t) (hkey : key ≠ "")
    (haccepted : whichWalk t qualified key c = .ok walk) :
    (∀ (rows : List (Row V)) (filter : Row V → Bool), o.Consistent rows →
      Orders walk.columns rows filter) ↔ NullsExcluded t c.requiredGroup key := by
  obtain ⟨entry, hmem, hproves⟩ := accepted_index o hkey haccepted
  rw [nullsExcluded_iff haccepted]
  constructor
  · intro horders column hcolumn
    obtain ⟨v⟩ := ‹Nonempty V›
    by_contra hnullable
    have hreached := (horders [sparseRow t v] (fun _ => true)
      (sparseRow_consistent o v)).reached (sparseRow t v) (by simp) rfl
    rw [← List.length_map (sparseRow t v), rowGreater_known_iff] at hreached
    exact hreached (List.mem_map.mpr ⟨column, hcolumn, by simp [sparseRow, hnullable]⟩)
  · intro hnotNull rows filter hconsistent
    have hvalues : ∀ row ∈ rows, ∀ column ∈ walk.columns, row column ≠ none :=
      fun row hrow column hcolumn =>
        hconsistent.notNull column (hnotNull column hcolumn) row hrow
    have hunique := hconsistent.unique entry hmem hproves.unique hproves.valid hproves.whole
    refine ⟨hproves.distinct hunique hvalues, fun row hrow _ cursor hlength => ?_⟩
    have hnull : none ∉ walk.columns.map row := fun h => by
      obtain ⟨column, hcolumn, hnone⟩ := List.mem_map.mp h
      exact hvalues row hrow column hcolumn hnone
    exact (rowGreater_known_iff _).mpr hnull cursor (by simpa using hlength)

/-- A table whose only index is unique on `code`. -/
def codeIndex : IndexDef Nat where
  keys := [.column "code"]
  payload := []
  isUnique := true
  isValid := true
  isPrimary := false
  predicate := none

def codeTable (notNull : Bool) : TableReading where
  columns := [("code", notNull)]
  indexes := [("t_code_key", codeIndex.observed)]
  names_sorted := List.pairwise_singleton _ _

def codeObserved (notNull : Bool) : Observed Nat (codeTable notNull) where
  index _ := codeIndex
  describes entry hentry := by
    obtain rfl := List.mem_singleton.mp hentry
    exact observed_describes codeIndex

theorem codeTable_walk (notNull : Bool) :
    whichWalk (codeTable notNull) "public.t" "code" ⟨"", ""⟩ =
      .ok (.ordinary "code" "t_code_key") := rfl

theorem walk_orders_notNull :
    NullsExcluded (codeTable true) "" "code" ∧
    ∀ (rows : List (Row Nat)) (filter : Row Nat → Bool), (codeObserved true).Consistent rows →
      Orders ["code"] rows filter := by
  have hexcluded : NullsExcluded (codeTable true) "" "code" := by decide
  exact ⟨hexcluded,
    (walk_orders_iff (codeObserved true) (by decide) (codeTable_walk true)).mpr hexcluded⟩

/-- The unique key may be NULL: no cursor is below a row where it is. -/
theorem walk_misses_null :
    ¬∀ (t : TableReading) (o : Observed Nat t) (qualified key : String) (c : Confinement)
      (walk : WalkChoice) (rows : List (Row Nat)) (filter : Row Nat → Bool), key ≠ "" →
      whichWalk t qualified key c = .ok walk → o.Consistent rows →
      Orders walk.columns rows filter := by
  intro h
  have horders := h (codeTable false) (codeObserved false) "public.t" "code" ⟨"", ""⟩ _
    [sparseRow (codeTable false) 0] (fun _ => true) (by decide) (codeTable_walk false)
    (sparseRow_consistent _ 0)
  exact horders.reached _ (List.mem_singleton_self _) rfl [0] rfl rfl

end Rows

end Planner
end Laswell
