import Mathlib.Logic.Function.Basic
import Laswell.Base.Resumable
import Laswell.Planner.Fill
import Laswell.Planner.WalkChoice

/-!
# Laswell.Planner.TempCheck

The recipes that have a table scanned under a temporary CHECK: a column set NOT NULL, columns added
with a fill, and a partition attached. A transaction of a recipe is a list of statements, each with
its text and what the server does with it.

* `Catalog`: what is read of a table, with its rows as a fill finds them.
* `throughCheck`: the four steps the recipes share.
* `planSetNotNull`, `planAddColumnsFilled`, `planAttachPartition`: the plans, from what is read of
  the catalog.
* `through_check`: the shared steps go through from wherever an earlier attempt stopped.
-/

namespace Laswell
namespace Planner

open Base

/-! ## The catalog -/

/-- What a check says of a row. -/
inductive CheckExpr where
  | notNull (columns : List String)
  | bound (text : String)
  deriving DecidableEq

def CheckExpr.sql : CheckExpr → String
  | .notNull columns => join " AND " (columns.map fun c => quoteIdentifier c ++ " IS NOT NULL")
  | .bound text => text

structure Check where
  expr : CheckExpr
  valid : Bool
  deriving DecidableEq

inductive Column where
  | absent
  | there (type : String) (notNull : Bool)
  deriving DecidableEq

namespace Column

def isThere : Column → Bool
  | .absent => false
  | .there _ _ => true

def notNull : Column → Bool
  | .absent => false
  | .there _ b => b

def setNotNull : Column → Column
  | .absent => .absent
  | .there type _ => .there type true

@[simp] theorem isThere_setNotNull (c : Column) : c.setNotNull.isThere = c.isThere := by
  cases c <;> rfl

end Column

/-- A row as a fill finds it: the columns it is NULL in, the sources of a column that have a value
for it, by their place in the list, and the columns whose value is greater than the one that the
text "0" is read as, or is the empty text. -/
structure StoredRow where
  null : String → Bool
  given : String → Nat → Bool
  behindZero : String → Bool := fun _ => true
  empty : String → Bool := fun _ => false

namespace StoredRow

variable (r : StoredRow)

/-- With a value in these columns, where it has none. -/
def having (gets : String → Bool) : StoredRow := { r with null := fun c => r.null c && !gets c }

/-- `Pass.where_` -/
def taken (p : Pass) : Bool :=
  p.columns.any fun g => r.null g.column && (!p.joined || r.given g.column p.round)

/-- `Pass.setTerm`, for every column of the pass. -/
def setBy (p : Pass) : StoredRow :=
  r.having fun c => p.columns.any fun g => decide (g.column = c) && r.given c p.round

/-- `triggerBody` -/
def filledBy (group : List FillColumn) : StoredRow :=
  r.having fun c => group.any fun g =>
    decide (g.column = c) && (List.range g.sources.length).any (r.given c)

/-- A row that has gone on is NULL in fewer columns, and is else as it was. -/
structure Later (r r' : StoredRow) : Prop where
  null : ∀ c, r'.null c = true → r.null c = true
  given : r'.given = r.given
  behindZero : r'.behindZero = r.behindZero
  empty : r'.empty = r.empty

theorem Later.refl : r.Later r := ⟨fun _ h => h, rfl, rfl, rfl⟩

variable {r} in
theorem Later.trans {r' r'' : StoredRow} (h : r.Later r') (h' : r'.Later r'') : r.Later r'' :=
  ⟨fun c hc => h.null c (h'.null c hc), h'.given.trans h.given,
    h'.behindZero.trans h.behindZero, h'.empty.trans h.empty⟩

theorem having_later (gets : String → Bool) : r.Later (r.having gets) :=
  ⟨fun _ h => (Bool.and_eq_true_iff.mp h).1, rfl, rfl, rfl⟩

variable {r} in
theorem having_other {gets : String → Bool} {c : String} (h : gets c = false) :
    (r.having gets).null c = r.null c := by
  simp [having, h]

end StoredRow

/-- A table: its columns and rows, its checks, triggers and functions by the names the server keeps,
its indexes, the columns of whose type the text "0" is a value, whether a session waits too long
behind a statement over the whole table, whether it is a partition of the parent, and whether a row
of it is outside of the bounds it is to have there. -/
structure Catalog where
  column : String → Column
  rows : List StoredRow := []
  check : String → Option Check := fun _ => none
  trigger : String → Bool := fun _ => false
  function : String → Bool := fun _ => false
  indexes : List (String × IndexReading) := []
  readsZero : String → Bool := fun _ => true
  waited : Bool := false
  attached : Bool := false
  outside : Bool := false
  names_sorted : (indexes.map Prod.fst).Pairwise (· < ·)
  absent_null : ∀ r ∈ rows, ∀ c, (column c).isThere = false → r.null c = true

namespace Catalog

variable (s : Catalog)

def nulls (c : String) : Bool := s.rows.any (·.null c)

/-- What the planner reads of it to choose a walk: no other columns stand in an index. -/
def reading : TableReading where
  columns := (s.indexes.flatMap fun entry => (entry.2.columns.getD []).filterMap id).map fun c =>
    (c, (s.column c).notNull)
  indexes := s.indexes
  names_sorted := s.names_sorted

/-- Whether the walk comes to its end. One that has not begun reads "0" as its key; a group without
text is gone into again and again, and one that is NULL cannot be read. -/
def ends : WalkChoice → Bool
  | .ordinary key _ => s.readsZero key
  | .composite _ _ => true
  | .grouped groupColumn _ _ =>
    !s.rows.any (·.empty groupColumn) &&
      (s.rows.isEmpty || s.rows.any fun r => !r.null groupColumn)

def withCheck (k : String) (x : Option Check) : Catalog :=
  { s with check := Function.update s.check k x }

/-- Every row is NULL in a column that is added. -/
def withColumn (c type : String) : Catalog :=
  { s with
    column := Function.update s.column c (.there type false)
    absent_null := fun r hr d h => s.absent_null r hr d (by
      by_cases hd : d = c
      · rw [hd, Function.update_self] at h
        cases h
      · rwa [Function.update_of_ne hd] at h) }

def withNotNull (columns : List String) : Catalog :=
  { s with
    column := fun c => if c ∈ columns then (s.column c).setNotNull else s.column c
    absent_null := fun r hr c h => s.absent_null r hr c (by
      split at h
      · rwa [Column.isThere_setNotNull] at h
      · exact h) }

def withRows (rows : List StoredRow)
    (h : ∀ r ∈ rows, ∀ c, (s.column c).isThere = false → r.null c = true) : Catalog :=
  { s with rows, absent_null := h }

def holds : CheckExpr → Bool
  | .notNull columns => columns.all fun c => !s.nulls c
  | .bound _ => !s.outside

@[simp] theorem withCheck_column (k : String) (x : Option Check) :
    (s.withCheck k x).column = s.column := rfl

@[simp] theorem withCheck_rows (k : String) (x : Option Check) :
    (s.withCheck k x).rows = s.rows := rfl

@[simp] theorem withCheck_nulls (k : String) (x : Option Check) :
    (s.withCheck k x).nulls = s.nulls := rfl

@[simp] theorem withCheck_trigger (k : String) (x : Option Check) :
    (s.withCheck k x).trigger = s.trigger := rfl

@[simp] theorem withCheck_function (k : String) (x : Option Check) :
    (s.withCheck k x).function = s.function := rfl

@[simp] theorem withCheck_attached (k : String) (x : Option Check) :
    (s.withCheck k x).attached = s.attached := rfl

@[simp] theorem withCheck_outside (k : String) (x : Option Check) :
    (s.withCheck k x).outside = s.outside := rfl

@[simp] theorem withCheck_same (k : String) (x : Option Check) : (s.withCheck k x).check k = x := by
  change Function.update s.check k x k = x
  exact Function.update_self k x s.check

theorem withCheck_other {k j : String} (x : Option Check) (h : j ≠ k) :
    (s.withCheck k x).check j = s.check j := by
  change Function.update s.check k x j = s.check j
  exact Function.update_of_ne h x s.check

@[simp] theorem withCheck_twice (k : String) (x y : Option Check) :
    (s.withCheck k x).withCheck k y = s.withCheck k y := by
  simp [withCheck, Function.update_idem]

theorem withCheck_self (k : String) : s.withCheck k (s.check k) = s := by
  simp [withCheck, Function.update_eq_self]

@[simp] theorem withCheck_holds (k : String) (x : Option Check) (e : CheckExpr) :
    (s.withCheck k x).holds e = s.holds e := by
  cases e <;> rfl

end Catalog

/-! ## Statements -/

/-- The first 63 bytes of a name, in whole characters. -/
def cutAt : Nat → List Char → List Char
  | _, [] => []
  | room, c :: rest => if c.utf8Size ≤ room then c :: cutAt (room - c.utf8Size) rest else []

/-- The name the server keeps. -/
def serverName (name : String) : String :=
  if tooLong name then String.ofList (cutAt 63 name.toList) else name

theorem serverName_short {name : String} (h : tooLong name = false) : serverName name = name := by
  rw [serverName, h]
  rfl

/-- A table, and the parent it may be attached to. -/
structure Site where
  schema : String
  table : String
  parent : String := ""

namespace Site

variable (site : Site)

def qualified : String := site.schema ++ "." ++ site.table

def rel : String := quoteQualified site.qualified

/-- A name in the table's schema. -/
def inSchema (name : String) : String :=
  quoteIdentifier site.schema ++ "." ++ quoteIdentifier name

end Site

/-- The walk of a pass. `filler` is the trigger, with the columns it fills, that runs on every row
that is written. -/
structure FillWalk where
  pass : Pass
  group : List FillColumn
  filler : String
  paced : Bool
  choice : WalkChoice

namespace FillWalk

variable (w : FillWalk) (s : Catalog)

/-- One statement over the whole table goes first where the walk is not paced, and the walk does the
work where it is cancelled for one that waits. -/
def inOne : Bool := !w.paced && !s.waited

def meets (r : StoredRow) : Bool := w.inOne s || w.choice.meets r.null r.behindZero

/-- What the walk makes of a row. -/
def visit (r : StoredRow) : StoredRow :=
  if w.meets s r && r.taken w.pass then
    if s.trigger (serverName w.filler) then (r.setBy w.pass).filledBy w.group
    else r.setBy w.pass
  else r

/-- All that is written is there. -/
def Fits : Prop := ∀ g ∈ w.pass.columns ++ w.group, (s.column g.column).isThere = true

instance : Decidable (w.Fits s) := inferInstanceAs (Decidable (∀ g ∈ _, _))

variable {w s} {r : StoredRow}

theorem visit_later : r.Later (w.visit s r) := by
  unfold visit
  split
  · split
    · exact (r.having_later _).trans ((r.setBy w.pass).having_later _)
    · exact r.having_later _
  · exact .refl r

theorem visit_other {c : String} (hne : ∀ g ∈ w.pass.columns ++ w.group, g.column ≠ c) :
    (w.visit s r).null c = r.null c := by
  have hset : (r.setBy w.pass).null c = r.null c :=
    StoredRow.having_other (List.any_eq_false.mpr fun g hg => by
      simp [hne g (List.mem_append_left _ hg)])
  have hfilled : ((r.setBy w.pass).filledBy w.group).null c = (r.setBy w.pass).null c :=
    StoredRow.having_other (List.any_eq_false.mpr fun g hg => by
      simp [hne g (List.mem_append_right _ hg)])
  unfold visit
  split
  · split
    · exact hfilled.trans hset
    · exact hset
  · rfl

theorem Fits.visited (hfits : w.Fits s) :
    ∀ r ∈ s.rows.map (w.visit s), ∀ c, (s.column c).isThere = false → r.null c = true := by
  intro r' hr' c hc
  obtain ⟨r, hr, rfl⟩ := List.mem_map.mp hr'
  have hne : ∀ g ∈ w.pass.columns ++ w.group, g.column ≠ c := by
    intro g hg heq
    have hthere := hfits g hg
    rw [heq, hc] at hthere
    cases hthere
  rw [visit_other hne]
  exact s.absent_null r hr c hc

end FillWalk

inductive Stmt where
  | lockTable
  | addColumn (column type : String)
  | commentColumn (column comment : String)
  | createFunction (name tag body : String)
  | createTrigger (name : String)
  | dropTrigger (name : String)
  | dropFunction (name : String)
  | walk (w : FillWalk)
  | addCheck (name : String) (expr : CheckExpr)
  | validate (name : String)
  | setNotNull (columns : List String)
  | dropConstraint (name : String)
  | attachPartition (forValues : String)

/-- The statements of a walk are not written out. -/
def Stmt.sql (site : Site) : Stmt → Option String
  | .lockTable => some ("LOCK TABLE " ++ site.rel ++ " IN SHARE UPDATE EXCLUSIVE MODE;")
  | .addColumn column type =>
    some ("ALTER TABLE " ++ site.rel ++ " ADD COLUMN " ++ quoteIdentifier column ++ " " ++ type ++
      ";")
  | .commentColumn column comment =>
    some ("COMMENT ON COLUMN " ++ site.rel ++ "." ++ quoteIdentifier column ++ " IS " ++
      quoteLiteral comment ++ ";")
  | .createFunction name tag body =>
    some ("CREATE OR REPLACE FUNCTION " ++ site.inSchema name ++
      "() RETURNS trigger LANGUAGE plpgsql AS $" ++ tag ++ "$\nBEGIN\n" ++ body ++
      "  RETURN NEW;\nEND\n$" ++ tag ++ "$;")
  | .createTrigger name =>
    some ("CREATE TRIGGER " ++ quoteIdentifier name ++ " BEFORE INSERT OR UPDATE ON " ++ site.rel ++
      " FOR EACH ROW EXECUTE FUNCTION " ++ site.inSchema name ++ "();")
  | .dropTrigger name =>
    some ("DROP TRIGGER " ++ quoteIdentifier name ++ " ON " ++ site.rel ++ ";")
  | .dropFunction name => some ("DROP FUNCTION " ++ site.inSchema name ++ "();")
  | .walk _ => none
  | .addCheck name expr =>
    some ("ALTER TABLE " ++ site.rel ++ " ADD CONSTRAINT " ++ quoteIdentifier name ++ " CHECK (" ++
      expr.sql ++ ") NOT VALID;")
  | .validate name =>
    some ("ALTER TABLE " ++ site.rel ++ " VALIDATE CONSTRAINT " ++ quoteIdentifier name ++ ";")
  | .setNotNull columns =>
    some ("ALTER TABLE " ++ site.rel ++ " " ++
      join ", " (columns.map fun c => "ALTER COLUMN " ++ quoteIdentifier c ++ " SET NOT NULL") ++
      ";")
  | .dropConstraint name =>
    some ("ALTER TABLE " ++ site.rel ++ " DROP CONSTRAINT " ++ quoteIdentifier name ++ ";")
  | .attachPartition forValues =>
    some ("ALTER TABLE " ++ quoteQualified site.parent ++ " ATTACH PARTITION " ++ site.rel ++ " " ++
      forValues ++ ";")

/-- What the server does, where it does not refuse. `formatType` is how it writes a type. -/
def Stmt.exec (formatType : String → String) (s : Catalog) : Stmt → Option Catalog
  | .lockTable => some s
  | .addColumn column type =>
    if (s.column column).isThere then none else some (s.withColumn column (formatType type))
  | .commentColumn column _ => if (s.column column).isThere then some s else none
  | .createFunction name _ _ =>
    some { s with function := Function.update s.function (serverName name) true }
  | .createTrigger name =>
    if s.trigger (serverName name) || !s.function (serverName name) then none
    else some { s with trigger := Function.update s.trigger (serverName name) true }
  | .dropTrigger name =>
    if s.trigger (serverName name) then
      some { s with trigger := Function.update s.trigger (serverName name) false }
    else none
  | .dropFunction name =>
    if s.function (serverName name) && !s.trigger (serverName name) then
      some { s with function := Function.update s.function (serverName name) false }
    else none
  | .walk w =>
    if h : w.Fits s ∧ (w.inOne s || s.ends w.choice) = true then
      some (s.withRows (s.rows.map (w.visit s)) h.1.visited)
    else none
  | .addCheck name expr =>
    if (s.check (serverName name)).isSome then none
    else some (s.withCheck (serverName name) (some { expr, valid := false }))
  | .validate name =>
    match s.check (serverName name) with
    | some check =>
      if s.holds check.expr then
        some (s.withCheck (serverName name) (some { check with valid := true }))
      else none
    | none => none
  | .setNotNull columns =>
    if columns.all fun c => (s.column c).isThere && !s.nulls c then
      some (s.withNotNull columns)
    else none
  | .dropConstraint name =>
    if (s.check (serverName name)).isSome then some (s.withCheck (serverName name) none) else none
  | .attachPartition _ =>
    if s.attached || s.outside then none else some { s with attached := true }

/-- A step that commits on its own. -/
structure Txn where
  kind : String
  txnClass : TxnClass := .required
  stmts : List Stmt
  lock : String

namespace Txn

variable (formatType : String → String)

def exec (txn : Txn) (s : Catalog) : Option Catalog :=
  txn.stmts.foldlM (fun s stmt => stmt.exec formatType s) s

/-- `weaker_lock_first` -/
def lockFirst (txn : Txn) : Txn := { txn with stmts := .lockTable :: txn.stmts }

def locksFirst (txn : Txn) : Bool :=
  match txn.stmts with
  | .lockTable :: _ => true
  | _ => false

/-- The step of the plan. -/
def step (site : Site) (txn : Txn) : Step where
  kind := txn.kind
  txnClass := txn.txnClass
  ownTransaction := true
  sql := txn.stmts.filterMap (Stmt.sql site)
  lock := txn.lock
  detail := { exclusiveRetry := txn.locksFirst }

@[simp] theorem exec_lockFirst (txn : Txn) (s : Catalog) :
    txn.lockFirst.exec formatType s = txn.exec formatType s := rfl

theorem exec_stmts {txn : Txn} {stmt : Stmt} (h : txn.stmts = [stmt]) (s : Catalog) :
    txn.exec formatType s = stmt.exec formatType s := by
  unfold exec
  rw [h]
  change (stmt.exec formatType s).bind some = _
  cases stmt.exec formatType s <;> rfl

theorem exec_one (stmt : Stmt) (s : Catalog) {kind lock : String} {txnClass : TxnClass} :
    (Txn.mk kind txnClass [stmt] lock).exec formatType s = stmt.exec formatType s :=
  exec_stmts formatType rfl s

end Txn

/-! ## The steps the recipes share -/

/-- From the check as it is: added, validated, what it is for, and dropped. -/
def throughCheck (have_ : Option Check) (add validate goal drop : Txn) (keep : Bool) : List Txn :=
  (if have_ = none then [add] else []) ++
  (if (have_.map Check.valid).getD false then [] else [validate]) ++
  [goal] ++ (if keep then [] else [drop])

def briefLock : String := "AccessExclusiveLock, briefly"

def addLock : String :=
  "AccessExclusiveLock, briefly: reads and writes wait while it is requested and held; " ++
    "NOT VALID means no scan"

def validateLock : String := "ShareUpdateExclusiveLock -- does NOT block reads or writes"

def noScanLock : String := "AccessExclusiveLock, but no scan"

def scanLock (scope : String) : String :=
  "AccessExclusiveLock on " ++ scope ++ ", held for the whole scan"

/-! ## NOT NULL -/

structure SetNotNull where
  schema : String
  table : String
  column : String
  keepCheck : Bool := false

namespace SetNotNull

variable (in_ : SetNotNull)

def site : Site := { schema := in_.schema, table := in_.table }

def check : String := in_.table ++ "_" ++ in_.column ++ "_laswell_nn"

def make (stmt : Stmt) (lock : String) : Txn :=
  { kind := "set_not_null", stmts := [stmt], lock }

end SetNotNull

/-- `plan_set_not_null`, on a table that is there. `oneStep` is what a module that refuses a
separate VALIDATE says is scanned. No transaction is a column that is NOT NULL already. -/
def planSetNotNull (oneStep : Option String) (in_ : SetNotNull) (s : Catalog) :
    Except String (List Txn) :=
  match s.column in_.column with
  | .absent =>
    .error (in_.site.qualified ++ "." ++ in_.column ++
      " does not exist, so it cannot be set NOT NULL")
  | .there _ true => .ok []
  | .there _ false =>
    match oneStep with
    | some scope =>
      .ok [SetNotNull.make (.setNotNull [in_.column]) (scanLock scope)]
    | none =>
      .ok (throughCheck (s.check in_.check)
        (SetNotNull.make (.addCheck in_.check (.notNull [in_.column])) addLock).lockFirst
        (SetNotNull.make (.validate in_.check) validateLock)
        (SetNotNull.make (.setNotNull [in_.column]) noScanLock).lockFirst
        (SetNotNull.make (.dropConstraint in_.check) briefLock).lockFirst in_.keepCheck)

/-! ## A partition -/

/-- `bound` is the CHECK that proves the bounds, where there is one. -/
structure AttachPartition where
  schema : String
  table : String
  partition : String
  bound : Option String
  forValues : String
  defaultPartition : Option String := none

namespace AttachPartition

variable (in_ : AttachPartition)

def parent : String := in_.schema ++ "." ++ in_.table

def site : Site := { schema := in_.schema, table := in_.partition, parent := in_.parent }

def check : String := in_.partition ++ "_laswell_bound"

def emit (stmt : Stmt) (lock : String) : Txn :=
  { kind := "attach_partition", stmts := [stmt], lock }

def addBound (bound : String) : Txn :=
  emit (.addCheck in_.check (.bound bound))
    ("AccessExclusiveLock on " ++ in_.site.qualified ++ ", briefly; NOT VALID means no scan")

def validateBound : Txn :=
  emit (.validate in_.check)
    ("ShareUpdateExclusiveLock on " ++ in_.site.qualified ++ " -- does NOT block reads or writes")

def dropBound : Txn :=
  emit (.dropConstraint in_.check)
    ("AccessExclusiveLock on " ++ in_.site.qualified ++ ", briefly")

def attach : Txn :=
  emit (.attachPartition in_.forValues)
    ("ShareUpdateExclusiveLock on " ++ in_.parent ++
      " -- other partitions keep serving -- and AccessExclusiveLock on " ++ in_.site.qualified ++
      match in_.defaultPartition with
      | some deflt => " and on the DEFAULT partition " ++ deflt ++
          ", whose readers and writers wait while it is scanned"
      | none => "")

end AttachPartition

/-- `plan_attach_partition`, of a table that is there to a partitioned one. No transaction is a
table that is a partition already. -/
def planAttachPartition (in_ : AttachPartition) (s : Catalog) : List Txn :=
  if s.attached then []
  else
    match in_.bound with
    | none => [in_.attach]
    | some bound =>
      throughCheck (s.check in_.check) (in_.addBound bound) in_.validateBound in_.attach
        in_.dropBound false

/-! ## Columns with a fill -/

/-- The first of the names `tag`, `tag_`, .. that does not stand in the text between dollars. -/
def freshTag (text : String) : Nat → String → String
  | 0, tag => tag
  | n + 1, tag => if contains text ("$" ++ tag ++ "$") then freshTag text n (tag ++ "_") else tag

namespace FillColumn

variable (g : FillColumn)

def site : Site := { schema := g.schema, table := g.table }

/-- The trigger and its function. -/
def filler : String := g.table ++ "_" ++ g.column ++ "_laswell_fill"

def notNullCheck : String := g.table ++ "_" ++ g.column ++ "_laswell_nn"

def dropAfter : Bool := g.after = "drop_trigger"

end FillColumn

section Filled

variable (lead : FillColumn) (group : List FillColumn)

/-- The columns that are not NOT NULL yet. -/
def pendingOf (s : Catalog) : List FillColumn := group.filter fun g => !(s.column g.column).notNull

def missingOf (s : Catalog) : List FillColumn := group.filter fun g => !(s.column g.column).isThere

def dropFiller : Txn :=
  Txn.lockFirst {
    kind := "add_column"
    stmts := [.dropTrigger lead.filler, .dropFunction lead.filler]
    lock := "AccessExclusiveLock on " ++ lead.qualified ++ ", briefly" }

/-- The columns, and the trigger that fills them, in one transaction. -/
def addFilled (s : Catalog) : Txn :=
  Txn.lockFirst {
    kind := "add_column"
    stmts :=
      (missingOf group s).flatMap (fun g =>
        [.addColumn g.column g.type, .commentColumn g.column g.comment]) ++
      [.createFunction lead.filler
        (freshTag (String.join (group.map FillColumn.fillText))
          (String.join (group.map FillColumn.fillText)).length "laswell_fill")
        (triggerBody (quoteIdentifier lead.table) group)] ++
      (if s.trigger lead.filler then [] else [.createTrigger lead.filler])
    lock :=
      if missingOf group s = [] then
        "ShareRowExclusiveLock on " ++ lead.qualified ++ " -- blocks writes, not reads"
      else "AccessExclusiveLock on " ++ lead.qualified ++
        ", briefly: a nullable column with no default is catalog-only" }

def fillWalk (choice : WalkChoice) (pass : Pass) : FillWalk :=
  { pass, group, filler := lead.filler, paced := lead.paced, choice }

def walkTxn (choice : WalkChoice) (pass : Pass) : Txn :=
  { kind := "backfill"
    txnClass := .ownTxnPerBatch
    stmts := [.walk (fillWalk lead group choice pass)]
    lock := "RowExclusiveLock plus row locks, released at every commit" }

/-- The columns as they are once these are added, and NOT NULL or not. -/
def columnsWith (gs : List FillColumn) (notNull : Bool) (column : String → Column) (c : String) :
    Column :=
  match gs.find? fun g => decide (g.column = c) with
  | some g => .there g.type notNull
  | none => column c

theorem columnsWith_absent {gs : List FillColumn} {notNull : Bool} {column : String → Column}
    {c : String} (h : (columnsWith gs notNull column c).isThere = false) :
    c ∉ gs.map FillColumn.column ∧ (column c).isThere = false := by
  unfold columnsWith at h
  split at h
  · cases h
  · rename_i hfind
    refine ⟨fun hc => ?_, h⟩
    obtain ⟨g, hg, rfl⟩ := List.mem_map.mp hc
    have hne := List.find?_eq_none.mp hfind g hg
    simp at hne

/-- What the first step leaves, for the recipes composed below. -/
def afterAdding (s : Catalog) : Catalog :=
  { s with
    column := columnsWith (missingOf group s) false s.column
    trigger := Function.update s.trigger lead.filler true
    absent_null := fun r hr c h => s.absent_null r hr c (columnsWith_absent h).2 }

/-- One check over all the columns, and one scan. -/
def oneScan (pending : List FillColumn) (s : Catalog) : List Txn :=
  throughCheck (s.check lead.notNullCheck)
    (SetNotNull.make (.addCheck lead.notNullCheck (.notNull (pending.map FillColumn.column)))
      addLock).lockFirst
    (SetNotNull.make (.validate lead.notNullCheck) validateLock)
    (SetNotNull.make (.setNotNull (pending.map FillColumn.column)) noScanLock).lockFirst
    (SetNotNull.make (.dropConstraint lead.notNullCheck) briefLock).lockFirst false

def setAllNotNull (oneStep : Option String) (pending : List FillColumn) (s : Catalog) :
    Except String (List Txn) :=
  if 1 < pending.length ∧ oneStep = none then .ok (oneScan lead pending s)
  else
    (pending.mapM fun g => planSetNotNull oneStep
      { schema := lead.schema, table := lead.table, column := g.column }
      (afterAdding lead group s)).map List.flatten

/-- The first column that is there with another type. -/
def otherType (s : Catalog) : Option String :=
  group.findSome? fun g =>
    match s.column g.column with
    | .there type _ =>
      if type ≠ g.type ∧ g.type ≠ "" then
        some (lead.qualified ++ "." ++ g.column ++ " exists as " ++ type ++ ", spec declares " ++
          g.type)
      else none
    | .absent => none

/-- What the walks go along. -/
def fillKey (c : Confinement) (s : Catalog) : Option String :=
  if lead.key = "" then defaultFillKey s.reading c else some lead.key

/-- The walk of every pass, from what is read of the table. The columns that the first step adds are
not NOT NULL, and are to a walk as those that are not there. -/
def whichFillWalk (c : Confinement) (s : Catalog) (key : String) : Except String WalkChoice :=
  (whichWalk s.reading lead.qualified key c).mapError WalkConflict.conflict

/-- `plan_add_columns_filled`, on a table that is there. No transaction is a group that is there
already. -/
def planAddColumnsFilled (oneStep : Option String) (c : Confinement) (s : Catalog) :
    Except String (List Txn) :=
  match otherType lead group s with
  | some why => .error why
  | none =>
    if pendingOf group s = [] then
      .ok (if lead.dropAfter && s.trigger lead.filler then [dropFiller lead] else [])
    else
      match fillKey lead c s with
      | none =>
        .error (lead.qualified ++ " has no primary key to walk while filling " ++
          join ", " (group.map FillColumn.column) ++
          ". Name in \"key\" a column that is unique, " ++
          "or that a unique index over NOT NULL columns contains.")
      | some key => do
        let walks ← (passes (pendingOf group s)).mapM fun p =>
          (whichFillWalk lead c s key).map fun choice => walkTxn lead group choice p
        let last ← setAllNotNull lead group oneStep (pendingOf group s) s
        return (if missingOf group s = [] ∧ s.trigger lead.filler then []
            else [addFilled lead group s]) ++
          walks ++ last ++ (if lead.dropAfter then [dropFiller lead] else [])

end Filled

/-! ## From wherever an earlier attempt stopped -/

/-- A recipe as a job. What is interrupted leaves nothing. -/
def txnJob (formatType : String → String) (plan : Catalog → List Txn) : Job Catalog Txn where
  plan := plan
  exec txn s := txn.exec formatType s

/-- What is planned, or that there is a conflict. -/
def recipeJob (formatType : String → String) (plan : Catalog → Except String (List Txn)) :
    Job Catalog Txn :=
  txnJob formatType fun s => (plan s).toOption.getD []

/-- A group with a fill as a job. A walk that is interrupted leaves the batches it has committed. -/
def fillJob (formatType : String → String) (lead : FillColumn) (group : List FillColumn)
    (oneStep : Option String) (c : Confinement) : Job Catalog Txn :=
  { recipeJob formatType (planAddColumnsFilled lead group oneStep c) with
    leaves := fun txn s s' => s' = s ∨ ∃ w rows h, txn.stmts = [.walk w] ∧
      s' = s.withRows rows h ∧ List.Forall₂ (fun r r' => r' = r ∨ r' = w.visit s r) s.rows rows }

section Through

variable {formatType : String → String} {plan : Catalog → List Txn} {inv post : Catalog → Prop}
  {s s' : Catalog} {k : String} {e : CheckExpr}

theorem addCheck_exec (hk : tooLong k = false) (hnone : s.check k = none) :
    (Stmt.addCheck k e).exec formatType s = some (s.withCheck k (some ⟨e, false⟩)) := by
  simp only [Stmt.exec, serverName_short hk, hnone]
  rfl

theorem validate_exec (hk : tooLong k = false) (hholds : s.holds e = true) (valid : Bool) :
    (Stmt.validate k).exec formatType (s.withCheck k (some ⟨e, valid⟩)) =
      some (s.withCheck k (some ⟨e, true⟩)) := by
  simp only [Stmt.exec, serverName_short hk, Catalog.withCheck_same, Catalog.withCheck_holds,
    hholds, if_true, Catalog.withCheck_twice]

theorem dropConstraint_exec (hk : tooLong k = false) (hsome : (s.check k).isSome = true) :
    (Stmt.dropConstraint k).exec formatType s = some (s.withCheck k none) := by
  simp only [Stmt.exec, serverName_short hk, hsome, if_true]

/-- The shared steps go through, whether the check is absent, not valid or valid, and the invariant
does not depend on which. -/
theorem through_check {add validate goal drop : Txn} {keep : Bool}
    (hadd : s.check k = none → ∀ s, add.exec formatType s = (Stmt.addCheck k e).exec formatType s)
    (hvalidate : ∀ s, validate.exec formatType s = (Stmt.validate k).exec formatType s)
    (hdrop : ∀ s, drop.exec formatType s = (Stmt.dropConstraint k).exec formatType s)
    (hk : tooLong k = false) (hown : ∀ x, s.check k = some x → x.expr = e)
    (hholds : s.holds e = true) (hhere : inv s)
    (hinv : ∀ valid, inv (s.withCheck k (some ⟨e, valid⟩)))
    (hgoal : goal.exec formatType (s.withCheck k (some ⟨e, true⟩)) = some s')
    (hthere : (s'.check k).isSome = true) (hinv' : inv s')
    (hend : if keep = true then post s'
      else inv (s'.withCheck k none) ∧ post (s'.withCheck k none)) :
    (txnJob formatType plan).Through inv (throughCheck (s.check k) add validate goal drop keep)
      post s := by
  have hvalid : (txnJob formatType plan).Through inv ([goal] ++ if keep then [] else [drop]) post
      (s.withCheck k (some ⟨e, true⟩)) := by
    refine ⟨hinv true, s', hgoal, ?_⟩
    cases keep with
    | true => exact ⟨hinv', hend⟩
    | false => exact ⟨hinv', _, (hdrop s').trans (dropConstraint_exec hk hthere), hend⟩
  have hnotValid : (txnJob formatType plan).Through inv
      (validate :: ([goal] ++ if keep then [] else [drop])) post
      (s.withCheck k (some ⟨e, false⟩)) :=
    ⟨hinv false, _, (hvalidate _).trans (validate_exec hk hholds false), hvalid⟩
  have hself := s.withCheck_self k
  cases hc : s.check k with
  | none =>
    exact ⟨hhere, _, (hadd hc s).trans (addCheck_exec hk hc), hnotValid⟩
  | some x =>
    obtain ⟨expr, valid⟩ := x
    have hexpr : expr = e := hown _ hc
    rw [hc, hexpr] at hself
    cases valid with
    | true =>
      rw [hself] at hvalid
      exact hvalid
    | false =>
      rw [hself] at hnotValid
      exact hnotValid

end Through

/-! ## One goal, stopped and planned again -/

/-- A recipe for one goal. A `bare` one adds no check. -/
structure Guarded where
  check : String
  expr : CheckExpr
  keep : Bool
  bare : Bool
  ready : Catalog → Prop
  done : Catalog → Bool
  reach : Catalog → Catalog
  plan : Catalog → List Txn

namespace Guarded

/-- Reaching the goal has nothing to do with the check but for the scan, and the plan is the shared
steps. -/
structure Lawful (formatType : String → String) (r : Guarded) : Prop where
  short : tooLong r.check = false
  holds : ∀ {s}, r.ready s → s.holds r.expr = true
  holds_reach : ∀ {s e}, (r.reach s).holds e = s.holds e
  ready_check : ∀ {s x}, r.ready s → r.ready (s.withCheck r.check x)
  ready_reach : ∀ {s}, r.ready s → r.ready (r.reach s)
  done_check : ∀ {s x}, r.done (s.withCheck r.check x) = r.done s
  done_reach : ∀ {s}, r.ready s → r.done (r.reach s) = true
  reach_check : ∀ {s x}, r.reach (s.withCheck r.check x) = (r.reach s).withCheck r.check x
  reach_done : ∀ {s}, r.done s = true → r.reach s = s
  plan_done : ∀ {s}, r.done s = true → r.plan s = []
  plan_bare : ∀ {s}, r.ready s → r.done s = false → r.bare = true →
    ∃ goal, r.plan s = [goal] ∧ goal.exec formatType s = some (r.reach s)
  plan_check : ∀ {s}, r.ready s → r.done s = false → r.bare = false →
    ∃ add validate goal drop,
      r.plan s = throughCheck (s.check r.check) add validate goal drop r.keep ∧
      (∀ s, add.exec formatType s = (Stmt.addCheck r.check r.expr).exec formatType s) ∧
      (∀ s, validate.exec formatType s = (Stmt.validate r.check).exec formatType s) ∧
      (∀ s, drop.exec formatType s = (Stmt.dropConstraint r.check).exec formatType s) ∧
      ∀ s, r.ready s → r.done s = false → goal.exec formatType s = some (r.reach s)

variable (r : Guarded)

/-- What the check under the name has, or will have. -/
def exprOf (s : Catalog) : CheckExpr := ((s.check r.check).map Check.expr).getD r.expr

/-- The check that is left, if it is to be kept. -/
def lastCheck (s : Catalog) : Option Check :=
  if r.keep then
    if r.done s || r.bare then s.check r.check else some { expr := r.exprOf s, valid := true }
  else none

/-- What an attempt that is not interrupted ends in. -/
def target (s : Catalog) : Catalog := (r.reach s).withCheck r.check (r.lastCheck s)

/-- The rows are within what is under the check's name. -/
def Own (s : Catalog) : Prop := ∀ x, s.check r.check = some x → s.holds x.expr = true

/-- No check is left that no plan would drop. -/
def Clean (s : Catalog) : Prop :=
  r.keep = false → r.done s = true ∨ r.bare = true → s.check r.check = none

def job (formatType : String → String) : Job Catalog Txn := txnJob formatType r.plan

section

variable {r} {formatType : String → String} {s s₀ τ : Catalog}

theorem check_reach (hr : r.Lawful formatType) : (r.reach s).check r.check = s.check r.check := by
  have hself := hr.reach_check (s := s) (x := s.check r.check)
  rw [Catalog.withCheck_self] at hself
  rw [hself, Catalog.withCheck_same]

/-- Where the goal is reached and no check is left, there is nothing to do. -/
theorem target_self (hr : r.Lawful formatType) (hdone : r.done s = true)
    (hgone : r.keep = false → s.check r.check = none) : r.target s = s := by
  have hlast : r.lastCheck s = s.check r.check := by
    unfold lastCheck
    cases hkeep : r.keep with
    | true => simp [hdone]
    | false => simp [hgone hkeep]
  rw [target, hlast, hr.reach_done hdone, Catalog.withCheck_self]

theorem target_dropped (hr : r.Lawful formatType) (hdone : r.done s = true)
    (hkeep : r.keep = false) : r.target s = s.withCheck r.check none := by
  have hlast : r.lastCheck s = none := by
    unfold lastCheck
    simp [hkeep]
  rw [target, hlast, hr.reach_done hdone]

/-- Before the goal, whether the check is valid does not matter. -/
theorem target_check (hr : r.Lawful formatType) (hdone : r.done s = false)
    (hbare : r.bare = false) (valid : Bool) :
    r.target (s.withCheck r.check (some ⟨r.exprOf s, valid⟩)) = r.target s := by
  have hexpr : r.exprOf (s.withCheck r.check (some ⟨r.exprOf s, valid⟩)) = r.exprOf s := by
    conv_lhs => rw [exprOf, Catalog.withCheck_same]
    rfl
  have hlast : r.lastCheck (s.withCheck r.check (some ⟨r.exprOf s, valid⟩)) = r.lastCheck s := by
    unfold lastCheck
    simp [hr.done_check, hdone, hbare, hexpr]
  rw [target, target, hlast, hr.reach_check, Catalog.withCheck_twice]

theorem through (hr : r.Lawful formatType) (h : (r.ready s ∧ r.Own s) ∧ r.target s = τ)
    (hclean : r.Clean s) :
    (r.job formatType).Through (fun s => (r.ready s ∧ r.Own s) ∧ r.target s = τ) (r.plan s) (· = τ)
      s := by
  obtain ⟨⟨hready, hown⟩, rfl⟩ := h
  cases hdone : r.done s with
  | true =>
    rw [hr.plan_done hdone]
    exact ⟨⟨⟨hready, hown⟩, rfl⟩,
      (target_self hr hdone fun hkeep => hclean hkeep (.inl hdone)).symm⟩
  | false =>
    cases hbare : r.bare with
    | true =>
      obtain ⟨goal, hplan, hexec⟩ := hr.plan_bare hready hdone hbare
      have hlast : r.lastCheck s = s.check r.check := by
        unfold lastCheck
        cases hkeep : r.keep with
        | true => simp [hbare]
        | false => simp [hclean hkeep (.inr hbare)]
      have hend : r.reach s = r.target s := by
        rw [target, hlast, ← check_reach hr, Catalog.withCheck_self]
      have hown'' : r.Own (r.reach s) := by
        intro x hx
        rw [check_reach hr] at hx
        rw [hr.holds_reach]
        exact hown x hx
      rw [hplan]
      refine ⟨⟨⟨hready, hown⟩, rfl⟩, r.reach s, hexec, ⟨⟨hr.ready_reach hready, hown''⟩, ?_⟩, hend⟩
      rw [← hend]
      refine target_self hr (hr.done_reach hready) fun hkeep => ?_
      rw [check_reach hr]
      exact hclean hkeep (.inr hbare)
    | false =>
      obtain ⟨add, validate, goal, drop, hplan, hadd, hvalidate, hdrop, hgoal⟩ :=
        hr.plan_check hready hdone hbare
      let valid : Option Check := some { expr := r.exprOf s, valid := true }
      have hexpr : ∀ x, s.check r.check = some x → x.expr = r.exprOf s := by
        intro x hx
        rw [exprOf, hx]
        rfl
      have hholds : s.holds (r.exprOf s) = true := by
        cases hc : s.check r.check with
        | none =>
          rw [exprOf, hc]
          exact hr.holds hready
        | some x =>
          rw [← hexpr x hc]
          exact hown x hc
      have hadd' : s.check r.check = none →
          ∀ s', add.exec formatType s' =
            (Stmt.addCheck r.check (r.exprOf s)).exec formatType s' := by
        intro hnone
        rw [exprOf, hnone]
        exact hadd
      have hown' : ∀ s' : Catalog, (∀ e, s'.holds e = s.holds e) → ∀ b,
          r.Own (s'.withCheck r.check (some ⟨r.exprOf s, b⟩)) := by
        intro s' hsame b y hy
        rw [Catalog.withCheck_same] at hy
        rw [← Option.some.inj hy, Catalog.withCheck_holds, hsame]
        exact hholds
      have hreach : r.reach (s.withCheck r.check valid) = (r.reach s).withCheck r.check valid :=
        hr.reach_check
      have hexec : goal.exec formatType (s.withCheck r.check valid) =
          some ((r.reach s).withCheck r.check valid) := by
        rw [← hreach]
        exact hgoal _ (hr.ready_check hready) (hr.done_check.trans hdone)
      have hready' : ∀ x, r.ready ((r.reach s).withCheck r.check x) :=
        fun x => hr.ready_check (hr.ready_reach hready)
      have hdone' : ∀ x, r.done ((r.reach s).withCheck r.check x) = true :=
        fun x => hr.done_check.trans (hr.done_reach hready)
      have hkept : r.keep = true → (r.reach s).withCheck r.check valid = r.target s := by
        intro hkeep
        unfold target lastCheck
        simp [hkeep, hdone, hbare, valid]
      have hdropped : r.keep = false → (r.reach s).withCheck r.check none = r.target s := by
        intro hkeep
        unfold target lastCheck
        simp [hkeep]
      rw [hplan]
      refine through_check hadd' hvalidate hdrop hr.short hexpr hholds ⟨⟨hready, hown⟩, rfl⟩
        (fun b => ⟨⟨hr.ready_check hready, hown' s (fun _ => rfl) b⟩,
          target_check hr hdone hbare b⟩) hexec
        ?_ ⟨⟨hready' _, hown' (r.reach s) (fun _ => hr.holds_reach) true⟩, ?_⟩ ?_
      · rw [Catalog.withCheck_same]
        rfl
      · cases hkeep : r.keep with
        | true =>
          rw [target_self hr (hdone' _) (by simp [hkeep])]
          exact hkept hkeep
        | false =>
          rw [target_dropped hr (hdone' _) hkeep, Catalog.withCheck_twice]
          exact hdropped hkeep
      · split
        · rename_i hkeep
          exact hkept hkeep
        · rename_i hkeep
          have hkeep' : r.keep = false := by simpa using hkeep
          rw [Catalog.withCheck_twice]
          refine ⟨⟨⟨hready' _, fun y hy => ?_⟩, ?_⟩, hdropped hkeep'⟩
          · rw [Catalog.withCheck_same] at hy
            cases hy
          · rw [target_dropped hr (hdone' _) hkeep', Catalog.withCheck_twice]
            exact hdropped hkeep'

/-- Stopped and planned again any number of times, wherever no check is left behind: the plan goes
through, to what an attempt that is not interrupted ends in. -/
theorem resumes (hr : r.Lawful formatType) (hready : r.ready s₀) (hown : r.Own s₀)
    (hclean : r.Clean s₀)
    (hreach : (r.job formatType).Reaches (fun s _ => r.Clean s) (s₀, []) (s, [])) :
    r.ready s ∧ (r.job formatType).runAll (r.plan s) s = some (r.target s₀) := by
  have hres : Resumable (r.job formatType) (fun s _ => r.Clean s)
      (fun s => ((r.ready s ∧ r.Own s) ∧ r.target s = r.target s₀) ∧ r.Clean s)
      (fun s bs => (r.job formatType).Through
        (fun s => (r.ready s ∧ r.Own s) ∧ r.target s = r.target s₀) bs (· = r.target s₀) s)
      (· = r.target s₀) := by
    refine Resumable.of_through (fun s h hc => through hr h hc) (fun s h hs hkeep _ => ?_)
      fun _ _ _ _ hinv hc _ _ hl => hl ▸ ⟨hinv, hc⟩
    have hlast : r.lastCheck s₀ = none := by
      unfold lastCheck
      simp [hkeep]
    rw [hs, target, hlast, Catalog.withCheck_same]
  have hrests := hres.reaches_rests hreach ⟨rfl, ⟨⟨hready, hown⟩, rfl⟩, hclean⟩
  obtain ⟨s', hrun, -, hend⟩ := hres.completes hrests
  refine ⟨hrests.1.1.1, ?_⟩
  rw [← hend]
  exact hrun

end

end Guarded

section Goals

variable {formatType : String → String} {s : Catalog}

theorem Column.eq_there {c : Column} (h : c.isThere = true) :
    ∃ type, c = .there type c.notNull := by
  cases c with
  | absent => cases h
  | there type b => exact ⟨type, rfl⟩

theorem Column.setNotNull_of_notNull {c : Column} (h : c.notNull = true) : c.setNotNull = c := by
  cases c with
  | absent => cases h
  | there type b =>
    cases h
    rfl

@[simp] theorem Column.notNull_setNotNull (c : Column) : c.setNotNull.notNull = c.isThere := by
  cases c <;> rfl

theorem setNotNull_exec {columns : List String}
    (h : ∀ c ∈ columns, (s.column c).isThere = true ∧ s.nulls c = false) :
    (Stmt.setNotNull columns).exec formatType s = some (s.withNotNull columns) := by
  refine if_pos ?_
  rw [List.all_eq_true]
  intro c hc
  simp [h c hc]

theorem make_exec (stmt : Stmt) (lock : String) (s : Catalog) :
    (SetNotNull.make stmt lock).exec formatType s = stmt.exec formatType s :=
  Txn.exec_one formatType stmt s

theorem emit_exec (stmt : Stmt) (lock : String) (s : Catalog) :
    (AttachPartition.emit stmt lock).exec formatType s = stmt.exec formatType s :=
  Txn.exec_one formatType stmt s

/-- The column NOT NULL. -/
def SetNotNull.guarded (oneStep : Option String) (in_ : SetNotNull) : Guarded where
  check := in_.check
  expr := .notNull [in_.column]
  keep := in_.keepCheck
  bare := oneStep.isSome
  ready s := (s.column in_.column).isThere = true ∧ s.nulls in_.column = false
  done s := (s.column in_.column).notNull
  reach s := s.withNotNull [in_.column]
  plan s := (planSetNotNull oneStep in_ s).toOption.getD []

theorem SetNotNull.lawful (oneStep : Option String) {in_ : SetNotNull}
    (hk : tooLong in_.check = false) : (in_.guarded oneStep).Lawful formatType where
  short := hk
  holds h := by simp [SetNotNull.guarded, Catalog.holds, h.2]
  holds_reach := by
    intro s e
    cases e <;> rfl
  ready_check h := h
  ready_reach h := by
    refine ⟨?_, h.2⟩
    simpa [SetNotNull.guarded, Catalog.withNotNull] using h.1
  done_check := rfl
  done_reach h := by simpa [SetNotNull.guarded, Catalog.withNotNull] using h.1
  reach_check := rfl
  reach_done := by
    intro s hdone
    have hcolumn : (fun c => if c ∈ [in_.column] then (s.column c).setNotNull else s.column c) =
        s.column := by
      funext c
      split
      · rename_i hc
        rw [List.mem_singleton.mp hc]
        exact Column.setNotNull_of_notNull hdone
      · rfl
    change s.withNotNull [in_.column] = s
    cases s
    rw [Catalog.withNotNull, Catalog.mk.injEq]
    exact ⟨hcolumn, rfl, rfl, rfl, rfl, rfl, rfl, rfl, rfl, rfl⟩
  plan_done := by
    intro s hdone
    change (planSetNotNull oneStep in_ s).toOption.getD [] = []
    unfold planSetNotNull
    cases hc : s.column in_.column with
    | absent => rfl
    | there type b =>
      change (s.column in_.column).notNull = true at hdone
      rw [hc] at hdone
      cases hdone
      rfl
  plan_bare := by
    intro s hready hdone hbare
    obtain ⟨scope, rfl⟩ := Option.isSome_iff_exists.mp hbare
    obtain ⟨type, htype⟩ := Column.eq_there hready.1
    refine ⟨SetNotNull.make (.setNotNull [in_.column]) (scanLock scope), ?_, ?_⟩
    · change (planSetNotNull (some scope) in_ s).toOption.getD [] = _
      unfold planSetNotNull
      change (s.column in_.column).notNull = false at hdone
      rw [hdone] at htype
      rw [htype]
      rfl
    · rw [make_exec]
      exact setNotNull_exec fun c hc => by
        rw [List.mem_singleton.mp hc]
        exact hready
  plan_check := by
    intro s hready hdone hbare
    have hnone : oneStep = none := by
      cases oneStep with
      | none => rfl
      | some scope => cases hbare
    obtain ⟨type, htype⟩ := Column.eq_there hready.1
    refine ⟨(SetNotNull.make (.addCheck in_.check (.notNull [in_.column])) addLock).lockFirst,
      SetNotNull.make (.validate in_.check) validateLock,
      (SetNotNull.make (.setNotNull [in_.column]) noScanLock).lockFirst,
      (SetNotNull.make (.dropConstraint in_.check) briefLock).lockFirst, ?_,
      fun s => make_exec _ addLock s, fun s => make_exec _ validateLock s,
      fun s => make_exec _ briefLock s,
      fun s h _ => (make_exec _ noScanLock s).trans (setNotNull_exec fun c hc => ?_)⟩
    · change (planSetNotNull oneStep in_ s).toOption.getD [] = _
      unfold planSetNotNull
      change (s.column in_.column).notNull = false at hdone
      rw [hdone] at htype
      rw [htype, hnone]
      rfl
    · rw [List.mem_singleton.mp hc]
      exact h

/-- The table attached. -/
def AttachPartition.guarded (in_ : AttachPartition) : Guarded where
  check := in_.check
  expr := .bound (in_.bound.getD "")
  keep := false
  bare := in_.bound.isNone
  ready s := s.outside = false
  done s := s.attached
  reach s := { s with attached := true }
  plan := planAttachPartition in_

theorem attach_exec {in_ : AttachPartition} (hready : s.outside = false)
    (hdone : s.attached = false) :
    in_.attach.exec formatType s = some { s with attached := true } := by
  have hexec : in_.attach.exec formatType s =
      (Stmt.attachPartition in_.forValues).exec formatType s := emit_exec _ _ s
  rw [hexec]
  simp [Stmt.exec, hready, hdone]

theorem AttachPartition.lawful {in_ : AttachPartition} (hk : tooLong in_.check = false) :
    in_.guarded.Lawful formatType where
  short := hk
  holds h := by
    change (!_) = true
    rw [h]
    rfl
  holds_reach := by
    intro s e
    cases e <;> rfl
  ready_check h := h
  ready_reach h := h
  done_check := rfl
  done_reach _ := rfl
  reach_check := rfl
  reach_done := by
    intro s hdone
    change s.attached = true at hdone
    change { s with attached := true } = s
    rw [← hdone]
  plan_done hdone := if_pos hdone
  plan_bare := by
    intro s hready hdone hbare
    have hnone : in_.bound = none := Option.isNone_iff_eq_none.mp hbare
    change s.attached = false at hdone
    refine ⟨in_.attach, ?_, attach_exec hready hdone⟩
    change planAttachPartition in_ s = _
    unfold planAttachPartition
    rw [hdone, hnone]
    rfl
  plan_check := by
    intro s hready hdone hbare
    change s.attached = false at hdone
    cases hbound : in_.bound with
    | none =>
      change in_.bound.isNone = false at hbare
      rw [hbound] at hbare
      cases hbare
    | some bound =>
      have hexpr : in_.guarded.expr = .bound bound := by
        change CheckExpr.bound (in_.bound.getD "") = _
        rw [hbound]
        rfl
      rw [hexpr]
      refine ⟨in_.addBound bound, in_.validateBound, in_.attach, in_.dropBound, ?_,
        fun s => emit_exec _ _ s, fun s => emit_exec _ _ s, fun s => emit_exec _ _ s,
        fun s h h' => attach_exec h h'⟩
      change planAttachPartition in_ s = _
      unfold planAttachPartition
      rw [hdone, hbound]
      rfl

end Goals

end Planner
end Laswell
