import Laswell.Planner.Recipes
import Laswell.Projection.Observed

/-!
# Laswell.Planner.Ddl

The statements on indexes that the recipes for partitioned tables are made of, as values: what
each is as SQL, and what the server does with it. An index stands in the schema of its table,
beside the tables, under a name of its own.

* `meant_observed`: a recipe finds a relation by its key where the schema has no dot in it.
* `Ddl.sql`, `Ddl.run`: the text of a statement and its effect; `none` where the server refuses it.
* `get_update`, `get_cons`, `get_without`: what stands under a name afterwards.
-/

namespace Laswell
namespace Planner

open Projection (Rel)

/-! ## Names -/

/-- The key of a relation among the observations. -/
def observed (r : Rel) : String := r.schema ++ "." ++ r.name

/-- The relation a recipe means by a key: it is split at the first dot. -/
def meant (relation : String) : Rel where
  schema := beforeDot relation
  name := afterDot relation

def sqlName (r : Rel) : String := quoteIdentifier r.schema ++ "." ++ quoteIdentifier r.name

theorem observed_toList (r : Rel) :
    (observed r).toList = r.schema.toList ++ '.' :: r.name.toList := by
  simp [observed, String.toList_append]

theorem quoteQualified_observed (r : Rel) :
    quoteQualified (observed r) = sqlName (meant (observed r)) := by
  have hdot : '.' ∈ (observed r).toList := by simp [observed_toList]
  rw [quoteQualified, if_pos hdot]
  rfl

theorem beforeDot_observed {r : Rel} (h : '.' ∉ r.schema.toList) :
    beforeDot (observed r) = r.schema := by
  have hall : ∀ c ∈ r.schema.toList, decide (c ≠ '.') = true := by
    intro c hc
    have hne : c ≠ '.' := fun heq => h (heq ▸ hc)
    simpa using hne
  rw [beforeDot, observed_toList, List.takeWhile_append_of_pos hall]
  simp

theorem afterDot_observed {r : Rel} (h : '.' ∉ r.schema.toList) :
    afterDot (observed r) = r.name := by
  have hall : ∀ c ∈ r.schema.toList, decide (c ≠ '.') = true := by
    intro c hc
    have hne : c ≠ '.' := fun heq => h (heq ▸ hc)
    simpa using hne
  rw [afterDot, observed_toList, List.dropWhile_append_of_pos hall]
  simp

theorem meant_observed {r : Rel} (h : '.' ∉ r.schema.toList) : meant (observed r) = r := by
  rw [meant, beforeDot_observed h, afterDot_observed h]

/-! ## The catalog -/

structure Backing where
  name : String
  primary : Bool
  deriving DecidableEq

/-- `key` is all that is said of the columns. -/
structure Index where
  name : Rel
  on : Rel
  key : String
  unique : Bool
  valid : Bool
  constraint : Option Backing := none
  attachedTo : Option Rel := none
  deriving DecidableEq

/-- A partitioned table with its partitions, and what else has a name. -/
structure Tables where
  parent : Rel
  partitions : List Rel
  others : List Rel
  distinct : (parent :: (partitions ++ others)).Nodup

def Tables.all (t : Tables) : List Rel := t.parent :: (t.partitions ++ t.others)

abbrev Indexes := List Index

def get (c : Indexes) (r : Rel) : Option Index := c.find? fun i => decide (i.name = r)

def update (c : Indexes) (r : Rel) (f : Index → Index) : Indexes :=
  c.map fun i => if i.name = r then f i else i

def without (c : Indexes) (r : Rel) : Indexes := c.filter fun i => decide (i.name ≠ r)

theorem get_cons (i : Index) (c : Indexes) (r : Rel) :
    get (i :: c) r = if i.name = r then some i else get c r := by
  by_cases h : i.name = r <;> simp [get, h]

theorem get_update {f : Index → Index} (hf : ∀ i, (f i).name = i.name) (c : Indexes) (r s : Rel) :
    get (update c r f) s = if s = r then (get c r).map f else get c s := by
  induction c with
  | nil => simp [get, update]
  | cons i c ih =>
    have hcons : update (i :: c) r f = (if i.name = r then f i else i) :: update c r f := rfl
    rw [hcons, get_cons, ih, get_cons, get_cons]
    by_cases hr : i.name = r
    · by_cases hs : s = r
      · subst hs
        simp [hr, hf]
      · have hne : ¬ r = s := fun h => hs h.symm
        simp [hr, hf, hs, hne]
    · by_cases hs : s = r
      · subst hs
        simp [hr]
      · simp [hr, hs]

theorem get_without (c : Indexes) (r s : Rel) :
    get (without c r) s = if s = r then none else get c s := by
  induction c with
  | nil => simp [get, without]
  | cons i c ih =>
    have hcons : without (i :: c) r = if i.name = r then without c r else i :: without c r := by
      by_cases h : i.name = r <;> simp [without, h]
    rw [hcons]
    by_cases hr : i.name = r
    · rw [if_pos hr, ih, get_cons, hr]
      by_cases hs : s = r
      · simp [hs]
      · have hne : ¬ r = s := fun h => hs h.symm
        simp [hs, hne]
    · rw [if_neg hr, get_cons, get_cons, ih]
      by_cases hs : s = r
      · subst hs
        simp [hr]
      · simp [hs]

theorem get_name {c : Indexes} {r : Rel} {i : Index} (h : get c r = some i) : i ∈ c ∧ i.name = r :=
  ⟨List.mem_of_find?_eq_some h, by simpa using List.find?_some h⟩

/-- Names are used once. -/
def Named (c : Indexes) : Prop := (c.map Index.name).Nodup

theorem get_of_mem {c : Indexes} (hc : Named c) {i : Index} (h : i ∈ c) :
    get c i.name = some i := by
  induction c with
  | nil => exact absurd h List.not_mem_nil
  | cons j c ih =>
    rw [Named, List.map_cons, List.nodup_cons] at hc
    rw [get_cons]
    rcases List.mem_cons.mp h with rfl | h
    · rw [if_pos rfl]
    · have hne : ¬ j.name = i.name := fun heq => hc.1 (heq ▸ List.mem_map_of_mem h)
      rw [if_neg hne]
      exact ih hc.2 h

theorem named_update {c : Indexes} (hc : Named c) {f : Index → Index}
    (hf : ∀ i, (f i).name = i.name)
    (r : Rel) : Named (update c r f) := by
  have hnames : (update c r f).map Index.name = c.map Index.name := by
    rw [update, List.map_map]
    refine List.map_congr_left fun i _ => ?_
    by_cases h : i.name = r <;> simp [h, hf]
  rw [Named, hnames]
  exact hc

theorem named_without {c : Indexes} (hc : Named c) (r : Rel) : Named (without c r) :=
  hc.sublist (List.filter_sublist.map _)

theorem named_cons {c : Indexes} (hc : Named c) {i : Index} (h : get c i.name = none) :
    Named (i :: c) := by
  rw [Named, List.map_cons, List.nodup_cons]
  refine ⟨fun hmem => ?_, hc⟩
  obtain ⟨j, hj, hname⟩ := List.mem_map.mp hmem
  have hsome := get_of_mem hc hj
  rw [hname, h] at hsome
  cases hsome

/-! ## Statements -/

inductive Ddl where
  | lockTable (only : Bool) (on : Rel)
  | createConcurrently (unique : Bool) (name : String) (on : Rel) (key : String)
  | createOnly (unique : Bool) (name : String) (on : Rel) (key : String)
  | commentIndex (index : Rel) (comment : String)
  | dropConcurrently (index : Rel)
  | addConstraintOnly (on : Rel) (name : String) (primary : Bool) (key : String)
  | addConstraintUsing (on : Rel) (name : String) (primary : Bool)
  | attach (parent child : Rel)
  deriving DecidableEq

def uniqueText (unique : Bool) : String := if unique then "UNIQUE " else ""

def kindText (primary : Bool) : String := if primary then "PRIMARY KEY" else "UNIQUE"

def onlyText (only : Bool) : String := if only then "ONLY " else ""

def lockTableSql (only : Bool) (on : Rel) : String :=
  "LOCK TABLE " ++ (onlyText only ++ sqlName on) ++ " IN SHARE UPDATE EXCLUSIVE MODE;"

/-- `how` is what stands between INDEX and the name, `where_` what stands before the relation. -/
def createIndexSql (unique : Bool) (how name where_ : String) (on : Rel) (key : String) : String :=
  "CREATE " ++ uniqueText unique ++ "INDEX " ++ how ++ quoteIdentifier name ++ where_ ++
    sqlName on ++ key ++ ";"

def commentIndexSql (index : Rel) (comment : String) : String :=
  "COMMENT ON INDEX " ++ sqlName index ++ " IS " ++ quoteLiteral comment ++ ";"

def dropIndexSql (index : Rel) : String := "DROP INDEX CONCURRENTLY " ++ sqlName index ++ ";"

def addConstraintSql (only : String) (on : Rel) (name clause : String) : String :=
  "ALTER TABLE " ++ (only ++ sqlName on) ++ " ADD CONSTRAINT " ++ quoteIdentifier name ++ " " ++
    clause ++ ";"

def attachPartitionSql (parent child : Rel) : String :=
  "ALTER INDEX " ++ sqlName parent ++ " ATTACH PARTITION " ++ sqlName child ++ ";"

def Ddl.sql : Ddl → String
  | .lockTable only on => lockTableSql only on
  | .createConcurrently unique name on key =>
    createIndexSql unique "CONCURRENTLY " name " ON " on key
  | .createOnly unique name on key => createIndexSql unique "" name " ON ONLY " on key
  | .commentIndex index comment => commentIndexSql index comment
  | .dropConcurrently index => dropIndexSql index
  | .addConstraintOnly on name primary key =>
    addConstraintSql "ONLY " on name (kindText primary ++ key)
  | .addConstraintUsing on name primary =>
    addConstraintSql "" on name (kindText primary ++ " USING INDEX " ++ quoteIdentifier name)
  | .attach parent child => attachPartitionSql parent child

/-- The name is that of a table or of an index. -/
def Tables.taken (t : Tables) (c : Indexes) (r : Rel) : Bool :=
  decide (r ∈ t.all) || (get c r).isSome

/-- A table has one primary key. -/
def hasPrimary (c : Indexes) (on : Rel) : Bool :=
  c.any fun i => decide (i.on = on) && (i.constraint.map Backing.primary).getD false

/-- Every partition has a valid index that is attached to `parent`. -/
def Tables.complete (t : Tables) (c : Indexes) (parent : Rel) : Bool :=
  t.partitions.all fun p => c.any fun i =>
    decide (i.on = p) && decide (i.attachedTo = some parent) && i.valid

/-- The parent's index turns valid with the last partition's, and not back. -/
def Tables.validated (t : Tables) (c : Indexes) (parent : Rel) : Indexes :=
  update c parent fun i => { i with valid := i.valid || t.complete c parent }

/-- The server attaches an index of a partition: it must be the like of the parent's, and the only
one of its partition. -/
def Tables.attach (t : Tables) (c : Indexes) (parent child : Rel) : Option Indexes :=
  match get c parent, get c child with
  | some p, some i =>
    if p.on ≠ t.parent ∨ i.on ∉ t.partitions then none
    else if i.attachedTo = some parent then some c
    else if i.attachedTo ≠ none ∨ i.key ≠ p.key ∨ i.unique ≠ p.unique ∨
        (p.constraint.isSome ∧ i.constraint.isNone) ∨
        c.any (fun j => decide (j.on = i.on) && decide (j.attachedTo = some parent)) then none
    else
      some (t.validated (update c child fun i => { i with attachedTo := some parent }) parent)
  | _, _ => none

/-- A new index. One on the parent alone is valid only where there is nothing to attach. -/
def Tables.create (t : Tables) (c : Indexes) (i : Index) : Option Indexes :=
  if t.taken c i.name then none else some (i :: c)

def Ddl.run (t : Tables) (c : Indexes) : Ddl → Option Indexes
  | .lockTable _ on => if on ∈ t.all then some c else none
  | .createConcurrently unique name on key =>
    if on ∈ t.partitions ++ t.others then
      t.create c { name := { on with name := name }, on, key, unique, valid := true }
    else none
  | .createOnly unique name on key =>
    if on = t.parent then
      t.create c
        { name := { on with name := name }, on, key, unique, valid := t.partitions.isEmpty }
    else none
  | .commentIndex index _ => if (get c index).isSome then some c else none
  | .dropConcurrently index =>
    match get c index with
    | some i => if i.constraint.isNone ∧ i.attachedTo.isNone then some (without c index) else none
    | none => none
  | .addConstraintOnly on name primary key =>
    if on = t.parent ∧ !(primary && hasPrimary c on) then
      t.create c {
        name := { on with name := name }, on, key, unique := true, valid := t.partitions.isEmpty
        constraint := some { name, primary } }
    else none
  | .addConstraintUsing on name primary =>
    match get c { on with name := name } with
    | some i =>
      if i.on = on ∧ i.unique ∧ i.valid ∧ i.constraint.isNone ∧ !(primary && hasPrimary c on) then
        some (update c { on with name := name } fun i =>
          { i with constraint := some { name, primary } })
      else none
    | none => none
  | .attach parent child => t.attach c parent child

/-- What a concurrent build that fails or is interrupted leaves: nothing, or an invalid index. Any
other statement leaves nothing. -/
def Ddl.leaves (t : Tables) (c c' : Indexes) : Ddl → Prop
  | .createConcurrently unique name on key =>
    c' = c ∨ on ∈ t.partitions ++ t.others ∧
      t.create c { name := { on with name := name }, on, key, unique, valid := false } = some c'
  | _ => c' = c

end Planner
end Laswell
