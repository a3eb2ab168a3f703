import Laswell.Base.Resumable
import Laswell.Planner.Parts

/-!
# Laswell.Planner.UniqueParts

A unique constraint or primary key on a partitioned table, built partition by partition and
resumed from whatever an interruption left.

* `recipe_sql`: the statements of `planUniqueOnPartitions`, as values.
* `simulates`: each statement of a plan takes the catalog one step of that progress.
* `uniqueParts_resumes`: over any run of commits, failed builds, stops and plans, a plan has exactly
  the steps whose effect is missing, and ends with the constraint finished.
-/

namespace Laswell
namespace Planner

open Base
open Projection (Rel)

/-! ## The recipe as statements -/

namespace UniqueIntent

variable (in_ : UniqueIntent)

def key : String := " (" ++ in_.quotedColumns ++ ")"

/-- The index the recipe means on a partition. -/
def childOf (relation : String) : Rel where
  schema := beforeDot relation
  name := childName relation in_.name

/-- One list for each step. -/
def ddlOn (p : Part) : List (List Ddl) :=
  (if built p then [] else
    [(if p.index.isSome then [.dropConcurrently (in_.childOf p.relation)] else []) ++
      [.createConcurrently true (childName p.relation in_.name) (meant p.relation) in_.key]]) ++
  (if built p && (p.index.bind PartIndex.constraint).isSome then [] else
    [[.lockTable false (meant p.relation),
      .addConstraintUsing (meant p.relation) (childName p.relation in_.name) in_.primary]]) ++
  (if built p && decide (p.index.bind PartIndex.attachedTo = some in_.name) then [] else
    [[.attach { meant in_.qualified with name := in_.name } (in_.childOf p.relation)]])

/-- Its indexes. -/
def family : Family where
  name := in_.name
  key := in_.key
  unique := true
  primary := some in_.primary

/-- The last step has no statement. -/
def recipe (parts : List Part) : List (List Ddl) :=
  (if in_.present then [] else
    [[.lockTable true (meant in_.qualified),
      .addConstraintOnly (meant in_.qualified) in_.name in_.primary in_.key]]) ++
  parts.flatMap in_.ddlOn ++ [[]]

end UniqueIntent

section Text

variable {in_ : UniqueIntent}

theorem lockTable_sql (only : Bool) (rel : Rel) : (Ddl.lockTable only rel).sql =
    "LOCK TABLE " ++ (onlyText only ++ sqlName rel) ++ " IN SHARE UPDATE EXCLUSIVE MODE;" := by
  have htext : (Ddl.lockTable only rel).sql = lockTableSql only rel := rfl
  rw [htext]
  unfold lockTableSql
  rfl

theorem dropIndex_sql (schema name : String) :
    "DROP INDEX CONCURRENTLY " ++ quoteIdentifier schema ++ "." ++ quoteIdentifier name ++ ";" =
      (Ddl.dropConcurrently ⟨schema, name⟩).sql := by
  have htext : (Ddl.dropConcurrently ⟨schema, name⟩).sql = dropIndexSql ⟨schema, name⟩ := rfl
  rw [htext]
  unfold dropIndexSql sqlName
  rw [← String.toList_inj]
  simp

theorem adopt_sql (rel : Rel) (name : String) :
    ConstraintIntent.addTo (sqlName rel) name (in_.kindSql ++ " USING INDEX " ++
        quoteIdentifier name) =
      (Ddl.addConstraintUsing rel name in_.primary).sql := by
  have htext : (Ddl.addConstraintUsing rel name in_.primary).sql = addConstraintSql "" rel name
    (kindText in_.primary ++ " USING INDEX " ++ quoteIdentifier name) := rfl
  rw [htext, ← String.toList_inj]
  simp [ConstraintIntent.addTo, addConstraintSql, kindText, UniqueIntent.kindSql]

theorem build_sql (rel : Rel) (name : String) :
    "CREATE UNIQUE INDEX CONCURRENTLY " ++ quoteIdentifier name ++ " ON " ++ sqlName rel ++ " (" ++
        in_.quotedColumns ++ ");" =
      (Ddl.createConcurrently true name rel in_.key).sql := by
  have htext : (Ddl.createConcurrently true name rel in_.key).sql =
    createIndexSql true "CONCURRENTLY " name " ON " rel in_.key := rfl
  rw [htext, ← String.toList_inj]
  simp [createIndexSql, uniqueText, UniqueIntent.key]

theorem addOnly_sql (rel : Rel) :
    ConstraintIntent.addTo ("ONLY " ++ sqlName rel) in_.name in_.constraint.clause =
      (Ddl.addConstraintOnly rel in_.name in_.primary in_.key).sql := by
  have htext : (Ddl.addConstraintOnly rel in_.name in_.primary in_.key).sql =
    addConstraintSql "ONLY " rel in_.name (kindText in_.primary ++ in_.key) := rfl
  rw [htext, ← String.toList_inj]
  simp [ConstraintIntent.addTo, addConstraintSql, kindText, UniqueIntent.kindSql,
    UniqueIntent.constraint, UniqueIntent.key]

theorem ddlOn_sql {p : Part} (hp : quoteQualified p.relation = sqlName (meant p.relation)) :
    (in_.stepsOn p).map Step.sql = (in_.ddlOn p).map (List.map Ddl.sql) := by
  have hbuild : (in_.buildOn p).sql = ((if p.index.isSome then
      [Ddl.dropConcurrently (in_.childOf p.relation)] else []) ++
      [Ddl.createConcurrently true (childName p.relation in_.name) (meant p.relation)
        in_.key]).map Ddl.sql := by
    rw [List.map_append, List.map_singleton, ← build_sql, ← hp]
    unfold UniqueIntent.buildOn ConstraintIntent.emit
    cases hi : p.index with
    | none => simp
    | some i => simp [UniqueIntent.childOf, ← dropIndex_sql]
  have hadopt : (in_.adopt p).sql = [Ddl.lockTable false (meant p.relation),
      Ddl.addConstraintUsing (meant p.relation) (childName p.relation in_.name) in_.primary].map
        Ddl.sql := by
    rw [List.map_cons, List.map_singleton, lockTable_sql, ← adopt_sql, ← hp]
    have honly : onlyText false ++ quoteQualified p.relation = quoteQualified p.relation := by
      simp [onlyText]
    rw [honly]
    rfl
  have hattach : (in_.constraint.attach p).sql = [Ddl.attach
      { meant in_.qualified with name := in_.name } (in_.childOf p.relation)].map Ddl.sql := by
    rw [List.map_singleton]
    have htext : ∀ parent child, (Ddl.attach parent child).sql =
      attachPartitionSql parent child := fun _ _ => rfl
    rw [htext]
    unfold attachPartitionSql sqlName
    have hsql : (in_.constraint.attach p).sql = [attachSql (beforeDot in_.qualified) in_.name
      (beforeDot p.relation) (childName p.relation in_.name)] := rfl
    rw [hsql]
    unfold attachSql
    simp only [List.cons.injEq, and_true, meant, UniqueIntent.childOf]
    rw [← String.toList_inj]
    simp
  unfold UniqueIntent.stepsOn UniqueIntent.ddlOn
  simp only [List.map_append, apply_ite (List.map Step.sql),
    apply_ite (List.map (List.map Ddl.sql)),
    List.map_nil, List.map_singleton, hbuild, hadopt, hattach]

theorem planUniqueOnPartitions_eq {key : List String} {parts : List Part} {steps : List Step}
    (hne : parts ≠ []) (h : planUniqueOnPartitions in_ key parts = .ok steps) :
    steps = (if in_.present then [] else [in_.constraint.addOnly]) ++
      parts.flatMap in_.stepsOn ++ [in_.constraint.verify] := by
  unfold planUniqueOnPartitions at h
  cases hk : checkPartitionKey key in_.columns with
  | error e => rw [hk] at h; cases h
  | ok u =>
    rw [hk] at h
    cases hc : parts.forM in_.checkPart with
    | error e => rw [hc] at h; cases h
    | ok u =>
      rw [hc] at h
      simp only [hne, if_false] at h
      cases h
      rfl

/-- The recipe is what the planner emits. -/
theorem recipe_sql {key : List String} {parts : List Part} {steps : List Step}
    (hq : quoteQualified in_.qualified = sqlName (meant in_.qualified))
    (hparts : ∀ p ∈ parts, quoteQualified p.relation = sqlName (meant p.relation))
    (hne : parts ≠ []) (h : planUniqueOnPartitions in_ key parts = .ok steps) :
    steps.map Step.sql = (in_.recipe parts).map (List.map Ddl.sql) := by
  have hsteps := planUniqueOnPartitions_eq hne h
  have hon : (in_.constraint.addOnly).sql = [Ddl.lockTable true (meant in_.qualified),
      Ddl.addConstraintOnly (meant in_.qualified) in_.name in_.primary in_.key].map Ddl.sql := by
    rw [List.map_cons, List.map_singleton, lockTable_sql, ← addOnly_sql, ← hq]
    rfl
  have hflat : (parts.flatMap in_.stepsOn).map Step.sql =
      (parts.flatMap in_.ddlOn).map (List.map Ddl.sql) := by
    clear h hsteps hne
    induction parts with
    | nil => rfl
    | cons p ps ih =>
      rw [List.flatMap_cons, List.flatMap_cons, List.map_append, List.map_append,
        ddlOn_sql (hparts p List.mem_cons_self),
        ih fun q hq => hparts q (List.mem_cons_of_mem p hq)]
  rw [hsteps, UniqueIntent.recipe]
  simp only [List.map_append, apply_ite (List.map Step.sql),
    apply_ite (List.map (List.map Ddl.sql)),
    List.map_nil, List.map_singleton, hon, hflat]
  rfl

end Text

/-! ## One step of it -/

/-- The statements of the recipe, by what they are for. -/
inductive Act where
  | lockParent
  | addOnly
  | drop (p : Rel)
  | build (p : Rel)
  | lock (p : Rel)
  | adopt (p : Rel)
  | attach (p : Rel)

def Act.ddl (t : Tables) (in_ : UniqueIntent) : Act → Ddl
  | .lockParent => .lockTable true t.parent
  | .addOnly => .addConstraintOnly t.parent in_.name in_.primary in_.key
  | .drop p => .dropConcurrently (childIndex in_.family p)
  | .build p => .createConcurrently true (p.name ++ "_" ++ in_.name) p in_.key
  | .lock p => .lockTable false p
  | .adopt p => .addConstraintUsing p (p.name ++ "_" ++ in_.name) in_.primary
  | .attach p => .attach (parentIndex t in_.family) (childIndex in_.family p)

def Act.step (t : Tables) (a : Progress) : Act → Option Progress
  | .lockParent => some a
  | .addOnly => if a.parent then none else some { a with parent := true }
  | .drop p => if p ∈ t.partitions ∧ a.part p = .invalid then some (a.set p .absent) else none
  | .build p => if p ∈ t.partitions ∧ a.part p = .absent then some (a.set p .built) else none
  | .lock p => if p ∈ t.partitions then some a else none
  | .adopt p => if p ∈ t.partitions ∧ a.part p = .built then some (a.set p .adopted) else none
  | .attach p =>
    if p ∈ t.partitions ∧ a.part p = .adopted ∧ a.parent then some (a.set p .attached) else none

/-- A table and an intent on it for which the recipe finds what it made. -/
structure Suited (t : Tables) (in_ : UniqueIntent) : Prop extends Fits t in_.family where
  qualified : in_.qualified = observed t.parent

section Simulation

variable {t : Tables} {in_ : UniqueIntent} {c c' : Indexes} {a a' : Progress} {p : Rel}

theorem Owns.drop (h : Owns t in_.family c a) (hp : p ∈ t.partitions)
    (hstate : a.part p = .invalid) :
    ∃ c', (Ddl.dropConcurrently (childIndex in_.family p)).run t c = some c' ∧
      Owns t in_.family c' (a.set p .absent) := by
  have hget : get c (childIndex in_.family p) = some (indexOn in_.family p false none none) := by
    rw [h.parts p hp, hstate]
    rfl
  refine ⟨without c (childIndex in_.family p), ?_,
    h.change hp (named_without h.named _) (fun r => ?_) ?_ ?_⟩
  · simp [Ddl.run, hget, indexOn]
  · exact get_without c _ r
  · rw [hstate]
    decide
  · decide

theorem Owns.adopt (h : Owns t in_.family c a) (hp : p ∈ t.partitions)
    (hstate : a.part p = .built) :
    ∃ c', (Ddl.addConstraintUsing p (p.name ++ "_" ++ in_.name) in_.primary).run t c = some c' ∧
      Owns t in_.family c' (a.set p .adopted) := by
  have hget : get c (childIndex in_.family p) = some (indexOn in_.family p true none none) := by
    rw [h.parts p hp, hstate]
    rfl
  have hprimary : (in_.primary && hasPrimary c p) = false := by
    cases hpr : in_.primary with
    | false => rfl
    | true =>
      exact primary_elsewhere h (congrArg some hpr) (.inr hp)
        (fun heq => absurd heq.symm (parent_ne_partition hp))
        fun _ => by rw [hstate]; decide
  have hrun : (Ddl.addConstraintUsing p (p.name ++ "_" ++ in_.name) in_.primary).run t c =
      some (update c (childIndex in_.family p) fun i =>
        { i with constraint := some ⟨p.name ++ "_" ++ in_.name, in_.primary⟩ }) := by
    have hname :
        ({ p with name := p.name ++ "_" ++ in_.name } : Rel) = childIndex in_.family p := rfl
    simp only [Ddl.run, hname, hget, hprimary]
    exact if_pos ⟨rfl, rfl, rfl, rfl, rfl⟩
  have hnamed : Named (update c (childIndex in_.family p) fun i =>
    { i with constraint := some ⟨p.name ++ "_" ++ in_.name, in_.primary⟩ }) := by
    refine named_update h.named ?_ _
    exact fun _ => rfl
  refine ⟨_, hrun, h.change hp hnamed (fun r => ?_) ?_ ?_⟩
  · have hafter := @get_update
      (fun i => { i with constraint := some ⟨p.name ++ "_" ++ in_.name, in_.primary⟩ })
      (fun _ => rfl) c
      (childIndex in_.family p) r
    rw [hafter, hget]
    rfl
  · rw [hstate]
    decide
  · decide

theorem Owns.addOnly (hfits : Fits t in_.family) (h : Owns t in_.family c a)
    (hparent : a.parent = false) :
    ∃ c', (Ddl.addConstraintOnly t.parent in_.name in_.primary in_.key).run t c = some c' ∧
      Owns t in_.family c' { a with parent := true } := by
  have hprimary : (in_.primary && hasPrimary c t.parent) = false := by
    cases hpr : in_.primary with
    | false => rfl
    | true =>
      exact primary_elsewhere h (congrArg some hpr) (.inl rfl) (fun _ => hparent)
        fun hmem => absurd rfl (parent_ne_partition hmem)
  obtain ⟨c', hcreate, hown⟩ := h.addParent hfits hparent
  refine ⟨c', ?_, hown⟩
  simp only [Ddl.run, hprimary]
  exact hcreate

/-- A statement takes the catalog where it takes the progress. -/
theorem simulates (hsuited : Suited t in_) (h : Owns t in_.family c a) {act : Act}
    (hstep : act.step t a = some a') :
    ∃ c', (act.ddl t in_).run t c = some c' ∧ Owns t in_.family c' a' := by
  cases act with
  | lockParent =>
    cases hstep
    exact ⟨c, if_pos List.mem_cons_self, h⟩
  | addOnly =>
    simp only [Act.step] at hstep
    split at hstep
    · cases hstep
    · rename_i hparent
      cases hstep
      exact h.addOnly hsuited.toFits (by simpa using hparent)
  | drop p =>
    simp only [Act.step] at hstep
    split at hstep
    · rename_i hp
      cases hstep
      exact h.drop hp.1 hp.2
    · cases hstep
  | build p =>
    simp only [Act.step] at hstep
    split at hstep
    · rename_i hp
      cases hstep
      obtain ⟨c', hc', hown⟩ := h.create hsuited.toFits hp.1 hp.2 true
      exact ⟨c', (if_pos (List.mem_append_left _ hp.1)).trans hc', hown⟩
    · cases hstep
  | lock p =>
    simp only [Act.step] at hstep
    split at hstep
    · rename_i hp
      cases hstep
      exact ⟨c, if_pos (mem_all hp), h⟩
    · cases hstep
  | adopt p =>
    simp only [Act.step] at hstep
    split at hstep
    · rename_i hp
      cases hstep
      exact h.adopt hp.1 hp.2
    · cases hstep
  | attach p =>
    simp only [Act.step] at hstep
    split at hstep
    · rename_i hp
      cases hstep
      exact h.attach hp.1 hp.2.1 hp.2.2
    · cases hstep

end Simulation

/-! ## What is left of it -/

/-- The statements left on a partition. -/
def partActs (p : Rel) : PartState → List Act
  | .absent => [.build p, .lock p, .adopt p, .attach p]
  | .invalid => [.drop p, .build p, .lock p, .adopt p, .attach p]
  | .built => [.lock p, .adopt p, .attach p]
  | .adopted => [.attach p]
  | .attached => []

def Progress.acts (t : Tables) (a : Progress) : List Act :=
  (if a.parent then [] else [.lockParent, .addOnly]) ++
    t.partitions.flatMap fun p => partActs p (a.part p)

def Progress.finished (t : Tables) (a : Progress) : Prop :=
  a.parent = true ∧ a.allAttached t = true

/-- The recipe, on the progress alone. -/
def progressJob (t : Tables) : Job Progress Act where
  plan := Progress.acts t
  exec act a := act.step t a

section Progress

variable {t : Tables} {a : Progress}

theorem Progress.set_set (a : Progress) (p : Rel) (s s' : PartState) :
    (a.set p s).set p s' = a.set p s' := by
  unfold Progress.set
  congr 1
  funext q
  by_cases hq : q = p <;> simp [hq]

theorem Progress.set_self {p : Rel} {s : PartState} (h : a.part p = s) : a.set p s = a := by
  unfold Progress.set
  cases a
  congr 1
  funext q
  by_cases hq : q = p
  · rw [if_pos hq, hq]
    exact h.symm
  · rw [if_neg hq]

theorem partActs_run {p : Rel} (hp : p ∈ t.partitions) (hparent : a.parent = true) :
    (progressJob t).runAll (partActs p (a.part p)) a = some (a.set p .attached) := by
  cases hs : a.part p <;>
    simp [partActs, Job.runAll, progressJob, Act.step, hp, hs, hparent, Progress.set_set,
      Progress.set_self hs]

/-- What is left finishes it. -/
theorem acts_run (t : Tables) (a : Progress) :
    ∃ a', (progressJob t).runAll (a.acts t) a = some a' ∧ a'.finished t := by
  have hparent : (progressJob t).runAll (if a.parent then [] else [.lockParent, .addOnly]) a =
      some { a with parent := true } := by
    cases a with
    | mk parent part => cases parent <;> rfl
  have hone : ∀ {b : Progress} {p : Rel}, p ∈ t.partitions → b.parent = true →
      b.part p = a.part p →
      (progressJob t).runAll (partActs p (a.part p)) b = some (b.set p .attached) := by
    intro b p hp hb hsame
    rw [← hsame]
    exact partActs_run hp hb
  obtain ⟨a', hrun, hthere, hall, -⟩ := runAll_parts (progressJob t) hone (fun _ h => h)
    (partitions_nodup t) (a := { a with parent := true }) rfl fun _ _ => rfl
  refine ⟨a', ?_, hthere, allAttached_iff.mpr hall⟩
  rw [Progress.acts, Job.runAll_append, hparent]
  exact hrun

end Progress

/-! ## What is read, and the plan from that -/

/-- What was read of a partition. -/
def readPart (in_ : UniqueIntent) (c : Indexes) (p : Rel) : Part where
  relation := observed p
  index := ((get c { p with name := childName (observed p) in_.name }).filter
    fun i => decide (i.on = p)).map fun i => {
      valid := i.valid
      unique := i.unique
      constraint := i.constraint.map Backing.name
      attachedTo := i.attachedTo.map Rel.name }

/-- What was read of the parent: the type of the constraint that has the intent's name, whether
its index is valid, whether there is a primary key, the partition key, and the partitions. -/
structure UniqueRead where
  constraint : Option String := none
  indexValid : Option Bool := none
  primaryKey : Bool := false
  partitionKey : List String
  parts : List Part

def readUnique (t : Tables) (in_ : UniqueIntent) (partitionKey : List String) (c : Indexes) :
    UniqueRead where
  constraint := (get c (parentIndex t in_.family)).bind fun i =>
    i.constraint.map fun b => if b.primary then "p" else "u"
  indexValid := (get c (parentIndex t in_.family)).map Index.valid
  primaryKey := hasPrimary c t.parent
  partitionKey := partitionKey
  parts := t.partitions.map (readPart in_ c)

/-- Why there is no recipe. -/
inductive Unplanned where
  | otherConstraint
  | hasPrimaryKey
  | refused (why : Refused)
  deriving DecidableEq

namespace UniqueIntent

variable (in_ : UniqueIntent)

def contype : String := if in_.primary then "p" else "u"

/-- On the parent alone, with its index invalid. -/
def unfinished (r : UniqueRead) : Bool :=
  decide (r.constraint = some in_.contype) && !r.indexValid.getD true

def satisfied : Step where
  kind := in_.constraint.kind
  action := .satisfied

end UniqueIntent

/-- `plan_unique_like`, for columns that are there and not null and a table with partitions. -/
def planUniqueLike (in_ : UniqueIntent) (r : UniqueRead) : Except Unplanned (List Step) :=
  if r.constraint.isSome ∧ !in_.unfinished r then
    if r.constraint = some in_.contype then .ok [in_.satisfied] else .error .otherConstraint
  else if in_.primary ∧ !in_.unfinished r ∧ r.primaryKey then .error .hasPrimaryKey
  else
    (planUniqueOnPartitions { in_ with present := r.constraint.isSome } r.partitionKey
      r.parts).mapError .refused

/-- The statements of that plan; a satisfied intent has none. -/
def uniqueDdl (in_ : UniqueIntent) (r : UniqueRead) : List Ddl :=
  if planUniqueLike in_ r = .ok [in_.satisfied] then []
  else (({ in_ with present := r.constraint.isSome } : UniqueIntent).recipe r.parts).flatten

section Reading

variable {t : Tables} {in_ : UniqueIntent} {c : Indexes} {a : Progress} {p : Rel}
  {partitionKey : List String}

theorem childName_observed (hdot : '.' ∉ p.schema.toList) :
    childName (observed p) in_.name = p.name ++ "_" ++ in_.name := by
  rw [childName, afterDot_observed hdot]

theorem readPart_index (hsuited : Suited t in_) (h : Owns t in_.family c a)
    (hp : p ∈ t.partitions) :
    (readPart in_ c p).index = ((a.part p).index t in_.family p).map fun i => {
      valid := i.valid
      unique := i.unique
      constraint := i.constraint.map Backing.name
      attachedTo := i.attachedTo.map Rel.name } := by
  have hget : get c { p with name := childName (observed p) in_.name } =
      (a.part p).index t in_.family p := by
    rw [childName_observed (hsuited.undotted p hp)]
    exact h.parts p hp
  have hon : ((a.part p).index t in_.family p).filter (fun i => decide (i.on = p)) =
      (a.part p).index t in_.family p := by
    cases hi : (a.part p).index t in_.family p with
    | none => rfl
    | some i => simp [index_on hi]
  rw [readPart, hget, hon]

theorem ddlOn_eq (hsuited : Suited t in_) (h : Owns t in_.family c a) (hp : p ∈ t.partitions)
    (b : Bool) :
    (({ in_ with present := b } : UniqueIntent).ddlOn (readPart in_ c p)).flatten =
      (partActs p (a.part p)).map (Act.ddl t in_) := by
  have hdot := hsuited.undotted p hp
  have hindex := readPart_index hsuited h hp
  have hrel : (readPart in_ c p).relation = observed p := rfl
  have hparent :
      ({ meant in_.qualified with name := in_.name } : Rel) = parentIndex t in_.family := by
    rw [hsuited.qualified, meant_observed hsuited.parentUndotted]
    rfl
  have hchild : ({ in_ with present := b } : UniqueIntent).childOf (observed p) =
      childIndex in_.family p := by
    simp only [UniqueIntent.childOf, beforeDot_observed hdot, childName_observed hdot]
    rfl
  unfold UniqueIntent.ddlOn UniqueIntent.built
  simp only [hindex, hrel, hparent, hchild, meant_observed hdot, childName_observed hdot]
  cases a.part p <;>
    simp [PartState.index, indexOn, partActs, Act.ddl, backing, parentIndex,
      UniqueIntent.family] <;> rfl

/-- What the planner asks of the intent, however far the recipe is. -/
structure Accepted (t : Tables) (in_ : UniqueIntent) (partitionKey : List String) : Prop where
  key : checkPartitionKey partitionKey in_.columns = .ok ()
  short : ∀ p ∈ t.partitions, tooLong (childName (observed p) in_.name) = false

theorem forM_ok {α ε : Type} {f : α → Except ε Unit} {xs : List α} (h : ∀ x ∈ xs, f x = .ok ()) :
    xs.forM f = .ok () := by
  induction xs with
  | nil => rfl
  | cons x xs ih =>
    change (f x >>= fun _ => xs.forM f) = .ok ()
    rw [h x List.mem_cons_self]
    exact ih fun y hy => h y (List.mem_cons_of_mem x hy)

theorem checkPart_read (hsuited : Suited t in_) (hacc : Accepted t in_ partitionKey)
    (h : Owns t in_.family c a) (hp : p ∈ t.partitions) (b : Bool) :
    ({ in_ with present := b } : UniqueIntent).checkPart (readPart in_ c p) = .ok () := by
  have hindex := readPart_index hsuited h hp
  have hshort : tooLong (childName (observed p) ({ in_ with present := b } : UniqueIntent).name) =
      false := hacc.short p hp
  have hshared :
      ({ in_ with present := b } : UniqueIntent).constraint.checkPart (readPart in_ c p) =
        .ok () := by
    unfold ConstraintIntent.checkPart
    have hname : childName (readPart in_ c p).relation
        ({ in_ with present := b } : UniqueIntent).constraint.name =
      childName (observed p) ({ in_ with present := b } : UniqueIntent).name := rfl
    rw [hname, hshort]
    rfl
  unfold UniqueIntent.checkPart UniqueIntent.built
  rw [hshared, hindex]
  cases a.part p <;> rfl

/-- The planner has a recipe. -/
theorem planUniqueOnPartitions_read (hsuited : Suited t in_) (hacc : Accepted t in_ partitionKey)
    (h : Owns t in_.family c a) (b : Bool) :
    ∃ steps, planUniqueOnPartitions { in_ with present := b } partitionKey
        (t.partitions.map (readPart in_ c)) = .ok steps ∧ steps ≠ [in_.satisfied] ∧
      steps.map Step.sql =
        (({ in_ with present := b } : UniqueIntent).recipe
          (t.partitions.map (readPart in_ c))).map (List.map Ddl.sql) := by
  have hne : t.partitions.map (readPart in_ c) ≠ [] := by
    simpa using hsuited.some
  have hchecked : (t.partitions.map (readPart in_ c)).forM
      ({ in_ with present := b } : UniqueIntent).checkPart = .ok () := by
    refine forM_ok fun x hx => ?_
    obtain ⟨p, hp, rfl⟩ := List.mem_map.mp hx
    exact checkPart_read hsuited hacc h hp b
  have hplan : ∃ steps, planUniqueOnPartitions { in_ with present := b } partitionKey
      (t.partitions.map (readPart in_ c)) = .ok steps := by
    unfold planUniqueOnPartitions
    have hkey : checkPartitionKey partitionKey ({ in_ with present := b } : UniqueIntent).columns =
      .ok () := hacc.key
    rw [hkey, hchecked]
    simp only [hne, if_false]
    exact ⟨_, rfl⟩
  obtain ⟨steps, hsteps⟩ := hplan
  refine ⟨steps, hsteps, fun heq => ?_, recipe_sql ?_ (fun x hx => ?_) hne hsteps⟩
  · have hlast := congrArg (fun l => l.getLast?.map Step.action)
      ((planUniqueOnPartitions_eq hne hsteps).symm.trans heq)
    rw [List.getLast?_concat] at hlast
    cases hlast
  · have hq : in_.qualified = observed t.parent := hsuited.qualified
    change quoteQualified in_.qualified = sqlName (meant in_.qualified)
    rw [hq]
    exact quoteQualified_observed t.parent
  · obtain ⟨p, -, rfl⟩ := List.mem_map.mp hx
    exact quoteQualified_observed p

theorem recipe_eq (hsuited : Suited t in_) (h : Owns t in_.family c a) :
    (({ in_ with present := a.parent } : UniqueIntent).recipe
      (t.partitions.map (readPart in_ c))).flatten = (a.acts t).map (Act.ddl t in_) := by
  have hparent : meant in_.qualified = t.parent := by
    rw [hsuited.qualified, meant_observed hsuited.parentUndotted]
  have hflat : ∀ ps : List Rel, (∀ p ∈ ps, p ∈ t.partitions) →
      ((ps.map (readPart in_ c)).flatMap
        ({ in_ with present := a.parent } : UniqueIntent).ddlOn).flatten =
      (ps.flatMap fun p => partActs p (a.part p)).map (Act.ddl t in_) := by
    intro ps hps
    induction ps with
    | nil => rfl
    | cons p ps ih =>
      rw [List.map_cons, List.flatMap_cons, List.flatten_append,
        ddlOn_eq hsuited h (hps p List.mem_cons_self), List.flatMap_cons, List.map_append,
        ih fun q hq => hps q (List.mem_cons_of_mem p hq)]
  rw [UniqueIntent.recipe, Progress.acts, List.map_append, List.flatten_append,
    List.flatten_append, hflat t.partitions fun _ hp => hp]
  cases a.parent <;> simp [Act.ddl, hparent]
  rfl

/-- There is nothing to do where it is finished, and else a recipe for what is left. -/
theorem planUniqueLike_read (hsuited : Suited t in_) (hacc : Accepted t in_ partitionKey)
    (h : Owns t in_.family c a) :
    (a.finished t ∧ planUniqueLike in_ (readUnique t in_ partitionKey c) = .ok [in_.satisfied]) ∨
    (¬ a.finished t ∧ ∃ steps, planUniqueLike in_ (readUnique t in_ partitionKey c) = .ok steps ∧
      steps ≠ [in_.satisfied] ∧
      steps.map Step.sql = (({ in_ with present := a.parent } : UniqueIntent).recipe
        (t.partitions.map (readPart in_ c))).map (List.map Ddl.sql) ∧
      uniqueDdl in_ (readUnique t in_ partitionKey c) = (a.acts t).map (Act.ddl t in_)) := by
  have hconstraint : (readUnique t in_ partitionKey c).constraint =
      if a.parent then some in_.contype else none := by
    simp only [readUnique, h.parent, Progress.parentIndex]
    cases a.parent <;> rfl
  have hvalid : (readUnique t in_ partitionKey c).indexValid =
      if a.parent then some (a.allAttached t) else none := by
    simp only [readUnique, h.parent, Progress.parentIndex]
    cases a.parent <;> rfl
  by_cases hfin : a.finished t
  · refine .inl ⟨hfin, ?_⟩
    unfold planUniqueLike UniqueIntent.unfinished
    rw [hconstraint, hvalid, hfin.1, hfin.2]
    simp
  · refine .inr ⟨hfin, ?_⟩
    obtain ⟨steps, hsteps, hne, hsql⟩ := planUniqueOnPartitions_read hsuited hacc h a.parent
    have hplan : planUniqueLike in_ (readUnique t in_ partitionKey c) = .ok steps := by
      unfold planUniqueLike UniqueIntent.unfinished
      rw [hconstraint, hvalid]
      cases hparent : a.parent with
      | true =>
        have hall : a.allAttached t = false := by
          rw [Bool.eq_false_iff]
          exact fun hall => hfin ⟨hparent, hall⟩
        rw [hparent] at hsteps
        rw [hall]
        simp only [if_true, Option.isSome_some, decide_true, Bool.true_and, Option.getD_some,
          Bool.not_false, Bool.not_true, Bool.false_eq_true, and_false, false_and, if_false]
        change (planUniqueOnPartitions { in_ with present := true } partitionKey
          (t.partitions.map (readPart in_ c))).mapError Unplanned.refused = _
        rw [hsteps]
        rfl
      | false =>
        have hprimary : ¬ (in_.primary = true ∧
            (readUnique t in_ partitionKey c).primaryKey = true) := by
          rintro ⟨hpr, hhas⟩
          have hnot := primary_elsewhere h (congrArg some hpr) (.inl rfl) (fun _ => hparent)
            fun hmem => absurd rfl (parent_ne_partition hmem)
          exact Bool.false_ne_true (hnot.symm.trans hhas)
        rw [hparent] at hsteps
        simp only [Bool.false_eq_true, if_false, Option.isSome_none, false_and, reduceCtorEq,
          decide_false, Bool.false_and, Bool.not_false, true_and]
        rw [if_neg hprimary]
        change (planUniqueOnPartitions { in_ with present := false } partitionKey
          (t.partitions.map (readPart in_ c))).mapError Unplanned.refused = _
        rw [hsteps]
        rfl
    refine ⟨steps, hplan, hne, hsql, ?_⟩
    have hpresent : (readUnique t in_ partitionKey c).constraint.isSome = a.parent := by
      rw [hconstraint]
      cases a.parent <;> rfl
    have hnot : planUniqueLike in_ (readUnique t in_ partitionKey c) ≠ .ok [in_.satisfied] := by
      rw [hplan]
      exact fun heq => hne (Except.ok.inj heq)
    rw [uniqueDdl, if_neg hnot, hpresent, ← recipe_eq hsuited h]
    rfl

end Reading

/-! ## Stopped and planned again -/

/-- The constraint as it is to end: on the parent, valid, and on each partition an index of the
derived name that is valid, a constraint's, and attached. -/
structure Finished (t : Tables) (in_ : UniqueIntent) (c : Indexes) : Prop where
  parent : ∃ i, get c (parentIndex t in_.family) = some i ∧ i.on = t.parent ∧ i.valid = true ∧
    i.constraint = some { name := in_.name, primary := in_.primary }
  parts : ∀ p ∈ t.partitions, ∃ i, get c (childIndex in_.family p) = some i ∧ i.on = p ∧
    i.valid = true ∧ i.constraint.isSome = true ∧ i.attachedTo = some (parentIndex t in_.family)

namespace Act

/-- It is about one of the tables. -/
def isOf (t : Tables) : Act → Prop
  | .lockParent => True
  | .addOnly => True
  | .drop p => p ∈ t.partitions
  | .build p => p ∈ t.partitions
  | .lock p => p ∈ t.partitions
  | .adopt p => p ∈ t.partitions
  | .attach p => p ∈ t.partitions

/-- What it is for is in the catalog. A lock is for the statement that follows it. -/
def effected (t : Tables) (in_ : UniqueIntent) (c : Indexes) : Act → Prop
  | .lockParent => (get c (parentIndex t in_.family)).isSome = true
  | .addOnly => (get c (parentIndex t in_.family)).isSome = true
  | .drop p => ∀ i, get c (childIndex in_.family p) = some i → i.valid = true
  | .build p => ∃ i, get c (childIndex in_.family p) = some i ∧ i.valid = true
  | .lock p => ∃ i, get c (childIndex in_.family p) = some i ∧ i.constraint.isSome = true
  | .adopt p => ∃ i, get c (childIndex in_.family p) = some i ∧ i.constraint.isSome = true
  | .attach p => ∃ i, get c (childIndex in_.family p) = some i ∧
      i.attachedTo = some (parentIndex t in_.family)

theorem ddl_inj {t : Tables} {in_ : UniqueIntent} {x y : Act} (h : x.ddl t in_ = y.ddl t in_) :
    x = y := by
  cases x <;> cases y <;> simp_all [ddl, childIndex_inj]

end Act

/-- The recipe, planned from what is read of the catalog. -/
def uniqueJob (t : Tables) (in_ : UniqueIntent) (partitionKey : List String) : Job Indexes Ddl where
  plan c := uniqueDdl in_ (readUnique t in_ partitionKey c)
  exec d c := d.run t c
  leaves d c c' := d.leaves t c c'

section Run

variable {t : Tables} {in_ : UniqueIntent} {c : Indexes} {a : Progress}
  {partitionKey : List String}

theorem finished_iff (h : Owns t in_.family c a) : Finished t in_ c ↔ a.finished t := by
  constructor
  · rintro ⟨⟨i, hi, -, -, -⟩, hparts⟩
    refine ⟨?_, allAttached_iff.mpr fun p hp => ?_⟩
    · rw [h.parent, Progress.parentIndex] at hi
      split at hi
      · rename_i hthere
        exact hthere
      · cases hi
    · obtain ⟨j, hj, -, -, -, hto⟩ := hparts p hp
      rw [h.parts p hp] at hj
      exact index_attachedTo hj (by rw [hto]; exact Option.some_ne_none _)
  · rintro ⟨hthere, hall⟩
    have hparent := h.parent
    rw [Progress.parentIndex, if_pos hthere, hall] at hparent
    refine ⟨⟨_, hparent, rfl, rfl, rfl⟩, fun p hp => ?_⟩
    have hpart := h.parts p hp
    rw [allAttached_iff.mp hall p hp] at hpart
    exact ⟨_, hpart, rfl, rfl, rfl, rfl⟩

theorem acts_finished (h : a.finished t) : a.acts t = [] := by
  have hparts : (t.partitions.flatMap fun p => partActs p (a.part p)) = [] := by
    rw [List.flatMap_eq_nil_iff]
    intro p hp
    rw [allAttached_iff.mp h.2 p hp]
    rfl
  rw [Progress.acts, hparts, if_pos h.1]
  rfl

theorem uniqueDdl_eq (hsuited : Suited t in_) (hacc : Accepted t in_ partitionKey)
    (h : Owns t in_.family c a) :
    uniqueDdl in_ (readUnique t in_ partitionKey c) = (a.acts t).map (Act.ddl t in_) := by
  rcases planUniqueLike_read hsuited hacc h with ⟨hfin, hplan⟩ | ⟨-, _, -, -, -, hddl⟩
  · rw [uniqueDdl, if_pos hplan, acts_finished hfin]
    rfl
  · exact hddl

theorem satisfied_iff (hsuited : Suited t in_) (hacc : Accepted t in_ partitionKey)
    (h : Owns t in_.family c a) :
    planUniqueLike in_ (readUnique t in_ partitionKey c) = .ok [in_.satisfied] ↔
      Finished t in_ c := by
  rw [finished_iff h]
  rcases planUniqueLike_read hsuited hacc h with ⟨hfin, hplan⟩ | ⟨hnot, steps, hplan, hne, -⟩
  · exact iff_of_true hplan hfin
  · refine iff_of_false (fun heq => ?_) hnot
    rw [hplan] at heq
    exact hne (Except.ok.inj heq)

theorem mem_partActs {p : Rel} {s : PartState} {act : Act} (h : act ∈ partActs p s) :
    act = .drop p ∨ act = .build p ∨ act = .lock p ∨ act = .adopt p ∨ act = .attach p := by
  cases s <;> simp only [partActs, List.mem_cons, List.not_mem_nil, or_false] at h <;> tauto

/-- What is left is what is not there. -/
theorem mem_acts (h : Owns t in_.family c a) {act : Act} (hof : act.isOf t) :
    act ∈ a.acts t ↔ ¬ act.effected t in_ c := by
  have hparent : ∀ x ∈ [Act.lockParent, Act.addOnly],
      (x ∈ a.acts t ↔ ¬ (get c (parentIndex t in_.family)).isSome = true) := by
    intro x hx
    have hnot : x ∉ t.partitions.flatMap fun p => partActs p (a.part p) := by
      intro hmem
      obtain ⟨p, -, hxp⟩ := List.mem_flatMap.mp hmem
      rcases mem_partActs hxp with rfl | rfl | rfl | rfl | rfl <;> simp at hx
    rw [Progress.acts, List.mem_append, or_iff_left hnot, h.parent, Progress.parentIndex]
    cases a.parent <;> simp_all
  have hpart : ∀ p ∈ t.partitions, ∀ x ∈ [Act.drop p, .build p, .lock p, .adopt p, .attach p],
      (x ∈ a.acts t ↔ x ∈ partActs p (a.part p)) := by
    intro p hp x hx
    have hnot : x ∉ (if a.parent then [] else [Act.lockParent, .addOnly]) := by
      intro hmem
      split at hmem
      · cases hmem
      · simp only [List.mem_cons, List.not_mem_nil, or_false] at hmem
        rcases hmem with rfl | rfl <;> simp at hx
    rw [Progress.acts, List.mem_append, or_iff_right hnot, List.mem_flatMap]
    refine ⟨?_, fun hxp => ⟨p, hp, hxp⟩⟩
    rintro ⟨q, -, hxq⟩
    have hqp : q = p := by
      rcases mem_partActs hxq with rfl | rfl | rfl | rfl | rfl <;> simpa using hx
    rw [← hqp]
    exact hxq
  cases act with
  | lockParent => exact hparent _ (by simp)
  | addOnly => exact hparent _ (by simp)
  | drop p =>
    rw [hpart p hof _ (by simp), Act.effected, h.parts p hof]
    cases a.part p <;> simp [partActs, PartState.index, indexOn]
  | build p =>
    rw [hpart p hof _ (by simp), Act.effected, h.parts p hof]
    cases a.part p <;> simp [partActs, PartState.index, indexOn]
  | lock p =>
    rw [hpart p hof _ (by simp), Act.effected, h.parts p hof]
    cases a.part p <;> simp [partActs, PartState.index, indexOn, backing, UniqueIntent.family]
  | adopt p =>
    rw [hpart p hof _ (by simp), Act.effected, h.parts p hof]
    cases a.part p <;> simp [partActs, PartState.index, indexOn, backing, UniqueIntent.family]
  | attach p =>
    rw [hpart p hof _ (by simp), Act.effected, h.parts p hof]
    cases a.part p <;> simp [partActs, PartState.index, indexOn]

theorem isOf_acts {act : Act} (h : act ∈ a.acts t) : act.isOf t := by
  rw [Progress.acts, List.mem_append] at h
  rcases h with h | h
  · split at h
    · cases h
    · simp only [List.mem_cons, List.not_mem_nil, or_false] at h
      rcases h with rfl | rfl <;> trivial
  · obtain ⟨p, hp, hact⟩ := List.mem_flatMap.mp h
    rcases mem_partActs hact with rfl | rfl | rfl | rfl | rfl <;> exact hp

/-- A catalog that rests is so far, and a plan under way has the statements to the end. -/
theorem resumable (hsuited : Suited t in_) (hacc : Accepted t in_ partitionKey) :
    Resumable (uniqueJob t in_ partitionKey) (fun _ _ => True) (fun c => ∃ a, Owns t in_.family c a)
      (fun c todo => ∃ a acts a', Owns t in_.family c a ∧ todo = acts.map (Act.ddl t in_) ∧
        (progressJob t).runAll acts a = some a' ∧ a'.finished t)
      (Finished t in_) where
  plan := by
    rintro c ⟨a, h⟩
    obtain ⟨a', hrun, hfin⟩ := acts_run t a
    exact ⟨a, a.acts t, a', h, uniqueDdl_eq hsuited hacc h, hrun, hfin⟩
  commit := by
    rintro c d todo ⟨a, acts, a', h, htodo, hrun, hfin⟩
    cases acts with
    | nil => cases htodo
    | cons act acts =>
      cases htodo
      obtain ⟨a₁, hstep, hrest⟩ := Option.bind_eq_some_iff.mp hrun
      obtain ⟨c₁, hc₁, hnext⟩ := simulates hsuited h hstep
      exact ⟨c₁, hc₁, a₁, acts, a', hnext, rfl, hrest, hfin⟩
  fail := by
    rintro c c' d todo ⟨a, acts, a', h, htodo, hrun, hfin⟩ - hleaves
    cases acts with
    | nil => cases htodo
    | cons act acts =>
      cases htodo
      obtain ⟨a₁, hstep, -⟩ := Option.bind_eq_some_iff.mp hrun
      cases act with
      | build p =>
        rcases hleaves with rfl | ⟨-, hcreate⟩
        · exact ⟨a, h⟩
        · have hp : p ∈ t.partitions ∧ a.part p = .absent := by
            by_contra hnot
            have hnone : (Act.build p).step t a = none := if_neg hnot
            rw [show (progressJob t).exec (Act.build p) a = (Act.build p).step t a from rfl,
              hnone] at hstep
            cases hstep
          obtain ⟨c₁, hc₁, hown⟩ := h.create hsuited.toFits hp.1 hp.2 false
          have hsame : c₁ = c' := Option.some.inj (hc₁.symm.trans hcreate)
          exact ⟨_, hsame ▸ hown⟩
      | _ =>
        cases hleaves
        exact ⟨a, h⟩
  stop := by
    rintro c todo ⟨a, acts, a', h, -⟩ -
    exact ⟨a, h⟩
  done := by
    rintro c ⟨a, acts, a', h, htodo, hrun, hfin⟩
    cases acts with
    | nil =>
      cases hrun
      exact ⟨⟨_, h⟩, (finished_iff h).mpr hfin⟩
    | cons act acts => cases htodo

/-- Whatever was committed, failed or was stopped, and however often it was planned again: the
planner has a plan for the catalog that is left; it says that all is done exactly where it is; its
statements are those whose effect is not there; and they go through and finish the constraint. -/
theorem uniqueParts_resumes (hsuited : Suited t in_) (hacc : Accepted t in_ partitionKey)
    {c₀ : Indexes} {a₀ : Progress} (h₀ : Owns t in_.family c₀ a₀)
    (hreach : (uniqueJob t in_ partitionKey).Reaches (fun _ _ => True) (c₀, []) (c, [])) :
    (planUniqueLike in_ (readUnique t in_ partitionKey c) = .ok [in_.satisfied] ↔
      Finished t in_ c) ∧
    (¬ Finished t in_ c → ∃ steps b,
      planUniqueLike in_ (readUnique t in_ partitionKey c) = .ok steps ∧
      steps.map Step.sql = (({ in_ with present := b } : UniqueIntent).recipe
        (readUnique t in_ partitionKey c).parts).map (List.map Ddl.sql) ∧
      (({ in_ with present := b } : UniqueIntent).recipe
        (readUnique t in_ partitionKey c).parts).flatten =
          (uniqueJob t in_ partitionKey).plan c) ∧
    (∀ act : Act, act.isOf t →
      (act.ddl t in_ ∈ (uniqueJob t in_ partitionKey).plan c ↔ ¬ act.effected t in_ c)) ∧
    (∀ d ∈ (uniqueJob t in_ partitionKey).plan c, ∃ act : Act, act.isOf t ∧ d = act.ddl t in_) ∧
    ∃ c', (uniqueJob t in_ partitionKey).runAll ((uniqueJob t in_ partitionKey).plan c) c =
      some c' ∧ Finished t in_ c' := by
  have hres := resumable hsuited hacc
  obtain ⟨a, h⟩ := hres.reaches_rests hreach ⟨rfl, a₀, h₀⟩
  have hplan : (uniqueJob t in_ partitionKey).plan c = (a.acts t).map (Act.ddl t in_) :=
    uniqueDdl_eq hsuited hacc h
  refine ⟨satisfied_iff hsuited hacc h, fun hnot => ?_, fun act hof => ?_, fun d hd => ?_, ?_⟩
  · rcases planUniqueLike_read hsuited hacc h with ⟨hfin, -⟩ | ⟨-, steps, hsteps, -, hsql, -⟩
    · exact absurd ((finished_iff h).mpr hfin) hnot
    · exact ⟨steps, a.parent, hsteps, hsql, by rw [hplan]; exact recipe_eq hsuited h⟩
  · rw [hplan, List.mem_map_of_injective (fun _ _ heq => Act.ddl_inj heq)]
    exact mem_acts h hof
  · rw [hplan] at hd
    obtain ⟨act, hact, rfl⟩ := List.mem_map.mp hd
    exact ⟨act, isOf_acts hact, rfl⟩
  · obtain ⟨c', hrun, -, hfin⟩ := hres.completes ⟨a, h⟩
    exact ⟨c', hrun, hfin⟩

end Run

section Cases

/-- A table with a partition beside it and one in a schema of its own. -/
def measurements : Tables where
  parent := ⟨"public", "m"⟩
  partitions := [⟨"public", "m1"⟩, ⟨"parts", "m2"⟩]
  others := []
  distinct := by decide

def measurementKey : UniqueIntent where
  primary := false
  qualified := "public.m"
  name := "u"
  columns := ["id"]

/-- The parent has the constraint, and the first build was interrupted. -/
def leftInvalid : Indexes :=
  [indexOn measurementKey.family ⟨"public", "m1"⟩ false none none,
   { name := ⟨"public", "u"⟩
     on := ⟨"public", "m"⟩
     key := measurementKey.key
     unique := true
     valid := false
     constraint := some { name := "u", primary := false } }]

theorem suited_measurements : Suited measurements measurementKey where
  some := by decide
  parentUndotted := by decide
  undotted := by decide
  qualified := by decide
  freeParent := by decide
  free := by decide

theorem accepted_measurements : Accepted measurements measurementKey ["id"] where
  key := by decide
  short := by decide

theorem owns_nothing : Owns measurements measurementKey.family [] ⟨false, fun _ => .absent⟩ where
  named := List.nodup_nil
  parent := rfl
  parts _ _ := rfl
  attachedOwn _ _ h := nomatch h
  primaryOwn h := nomatch h
  ordered _ _ _ := PartState.noConfusion

theorem reaches_leftInvalid :
    (uniqueJob measurements measurementKey ["id"]).Reaches (fun _ _ => True) ([], [])
      (leftInvalid, []) := by
  have hplan : (uniqueJob measurements measurementKey ["id"]).plan [] =
      ([.lockParent, .addOnly, .build ⟨"public", "m1"⟩, .lock ⟨"public", "m1"⟩,
        .adopt ⟨"public", "m1"⟩, .attach ⟨"public", "m1"⟩, .build ⟨"parts", "m2"⟩,
        .lock ⟨"parts", "m2"⟩, .adopt ⟨"parts", "m2"⟩, .attach ⟨"parts", "m2"⟩] : List Act).map
        (Act.ddl measurements measurementKey) := by decide
  have hreplan := @Job.Moves.replan _ _ (uniqueJob measurements measurementKey ["id"])
    (fun _ _ => True) []
  rw [hplan] at hreplan
  refine .head hreplan (.head (.commit rfl) (.head (.commit rfl) (.single (.fail trivial ?_))))
  exact .inr (by decide)

theorem uniqueParts_resumes_leftInvalid :
    ∃ c', (uniqueJob measurements measurementKey ["id"]).runAll
        ((uniqueJob measurements measurementKey ["id"]).plan leftInvalid) leftInvalid = some c' ∧
      Finished measurements measurementKey c' :=
  (uniqueParts_resumes suited_measurements accepted_measurements owns_nothing
    reaches_leftInvalid).2.2.2.2

/-- With the partition in the schema `a.b`, the build names the relation `b.p` of a schema `a`. -/
def dotted : Tables where
  parent := ⟨"public", "m"⟩
  partitions := [⟨"a.b", "p"⟩]
  others := []
  distinct := by decide

theorem dotted_never_finished :
    (∃ steps, planUniqueLike measurementKey (readUnique dotted measurementKey ["id"] []) =
      .ok steps ∧ "CREATE UNIQUE INDEX CONCURRENTLY \"b.p_u\" ON \"a\".\"b.p\" (\"id\");" ∈
        steps.flatMap Step.sql) ∧
    (uniqueJob dotted measurementKey ["id"]).runAll
      ((uniqueJob dotted measurementKey ["id"]).plan []) [] = none := by
  constructor
  · exact ⟨_, rfl, by decide⟩
  · decide

end Cases

end Planner
end Laswell
