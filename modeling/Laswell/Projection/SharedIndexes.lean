import Laswell.Planner.PartitionedIndex
import Laswell.Planner.UniqueParts
import Laswell.Projection.Plans

/-!
# Laswell.Projection.SharedIndexes

An index, and a key on partitions, are planned as SQL in `Planner.Recipes`. The plans here have the
same steps, and each text there is of the statement that stands here for it.

* `Writes`: the text of a statement on a table.
* `PlanWrites`: a plan and its SQL, or neither.
* `planCreateIndex_writes`, `planIndexOnParts_writes`: an index, on one table or on each part.
* `planKeyOnPartitions_writes`, `planPeriodOnPartitions_writes`, `planUniqueLike_writes`: a key on
  partitions.
-/

namespace Laswell
namespace Projection

open Planner (observed meant sqlName createIndexSql dropIndexSql addConstraintSql commentIndexSql
  attachPartitionSql onlyText kindText uniqueText quoteIdentifier quoteQualified beforeDot)

/-! ## Texts -/

/-- What is said of an index behind the name of its table, and of a key behind its own. -/
structure Texts where
  index : CreateIndex → String
  key : Bool → List String → String := fun _ _ => ""
  index_renamed : ∀ d name, index { d with name := name } = index d

variable (texts : Texts)

/-- A statement on a table, and its SQL. -/
inductive Writes : Statement → String → Prop where
  | createIndex (on : Rel) (d : CreateIndex) (concurrently : Bool) :
    Writes (.alter on (.createIndex d false))
      (createIndexSql d.unique (if concurrently then "CONCURRENTLY " else "") d.name " ON " on
        (texts.index d))
  | createIndexOnly (on : Rel) (d : CreateIndex) :
    Writes (.alter on (.createIndex d true))
      (createIndexSql d.unique "" d.name " ON ONLY " on (texts.index d))
  | dropIndex (on : Rel) (name : String) :
    Writes (.alter on (.dropIndex name)) (dropIndexSql { on with name := name })
  | addKey (on : Rel) (name : String) (primary : Bool) (columns : List String) (only : Bool) :
    Writes (.alter on (.addKey name primary columns only))
      (addConstraintSql (onlyText only) on name (texts.key primary columns))
  | addKeyUsing (on : Rel) (name : String) (primary : Bool) (index : String) :
    Writes (.alter on (.addKeyUsing name primary index))
      (addConstraintSql "" on name (kindText primary ++ " USING INDEX " ++ quoteIdentifier index))
  | commentIndex (index : Rel) (comment : String) : Writes .other (commentIndexSql index comment)
  | attach (parent child : Rel) : Writes .other (attachPartitionSql parent child)

/-- Behind the LOCK TABLEs a step begins with. A check that an index is valid has no SQL. -/
def StepWrites (step : Step) (s : Planner.Step) : Prop :=
  s.action = step.action ∧
    if s.kind = Planner.verifyIndexValid then step.statements = [.other]
    else List.Forall₂ (Writes texts) step.statements
      (s.sql.drop (if s.detail.exclusiveRetry then s.detail.weakerLockFirst.toNat else 0))

/-- There is a plan and its SQL, or neither. -/
def PlanWrites {ε : Type} (plan : Plan) (planned : Except ε (List Planner.Step)) : Prop :=
  Option.Rel (List.Forall₂ (StepWrites texts)) plan planned.toOption

section Steps

variable {texts} {statements : List Statement} {s : Planner.Step}

theorem stepWrites_of (haction : s.action = .apply) (hkind : s.kind ≠ Planner.verifyIndexValid)
    (hlocks : s.detail.exclusiveRetry = false)
    (hsql : List.Forall₂ (Writes texts) statements s.sql) :
    StepWrites texts (.applying statements) s := by
  refine ⟨haction, ?_⟩
  rw [if_neg hkind, hlocks]
  exact hsql

/-- A step that takes a weaker lock first. -/
theorem stepWrites_locking {rel : String} (haction : s.action = .apply)
    (hkind : s.kind ≠ Planner.verifyIndexValid)
    (hsql : List.Forall₂ (Writes texts) statements s.sql) :
    StepWrites texts (.applying statements) (s.weakerLockFirst [rel]) := by
  have hkind' : (s.weakerLockFirst [rel]).kind ≠ Planner.verifyIndexValid := hkind
  refine ⟨haction, ?_⟩
  rw [if_neg hkind']
  exact hsql

theorem verify_writes (schema index : String) :
    StepWrites texts (.applying [.other]) (Planner.verifyStep schema index) := by
  have hkind : (Planner.verifyStep schema index).kind = Planner.verifyIndexValid := rfl
  refine ⟨rfl, ?_⟩
  rw [if_pos hkind]
  rfl

/-- Nothing is left to do. -/
theorem satisfied_writes {ε : Type} (haction : s.action = .satisfied)
    (hkind : s.kind ≠ Planner.verifyIndexValid) (hsql : s.sql = []) :
    PlanWrites texts (some [.satisfied]) (.ok [s] : Except ε _) := by
  refine .some (.cons ⟨haction, ?_⟩ .nil)
  rw [if_neg hkind, hsql, List.drop_nil]
  exact .nil

theorem ite_writes {ε : Type} {c c' : Prop} [Decidable c] [Decidable c'] {a b : Plan}
    {a' b' : Except ε (List Planner.Step)} (hc : c ↔ c') (hthen : PlanWrites texts a a')
    (helse : PlanWrites texts b b') :
    PlanWrites texts (if c then a else b) (if c' then a' else b') := by
  by_cases h : c'
  · rw [if_pos (hc.mpr h), if_pos h]
    exact hthen
  · rw [if_neg fun hcc => h (hc.mp hcc), if_neg h]
    exact helse

end Steps

/-! ## One index -/

/-- As its SQL is planned from. -/
def CreateIndex.intent (r : Rel) (comment : String) (d : CreateIndex) : Planner.IndexIntent where
  schema := r.schema
  table := r.name
  name := d.name
  columns := d.names
  using_ := texts.index d
  unique := d.unique
  comment := comment

section Index

variable {texts} {env : Env} {obs : Observations} {r : Rel} {d : CreateIndex} {comment : String}

theorem sqlName_qualified (hr : '.' ∉ r.schema.toList) :
    quoteQualified (r.schema ++ "." ++ r.name) = sqlName r := by
  have hquoted := Planner.quoteQualified_observed r
  rw [Planner.meant_observed hr] at hquoted
  exact hquoted

theorem commentSql_writes :
    Writes texts .other (Planner.IndexIntent.commentSql (d.intent texts r comment)) := by
  have htext : (d.intent texts r comment).commentSql =
      commentIndexSql { r with name := d.name } comment := by
    unfold Planner.IndexIntent.commentSql commentIndexSql sqlName
    rw [← String.toList_inj]
    simp [CreateIndex.intent]
  rw [htext]
  exact .commentIndex _ comment

theorem createIndex_ne_verify : Planner.createIndex ≠ Planner.verifyIndexValid := by decide

/-- The build of an index, whether plain or concurrent. -/
theorem createIndex_writes (hr : '.' ∉ r.schema.toList) (size : Int) (waiters : Nat) :
    StepWrites texts (.applying [.alter r (.createIndex d false), .other])
      (Planner.planCreateIndex (d.intent texts r comment) size waiters) := by
  have hquoted : quoteQualified (d.intent texts r comment).qualified = sqlName r :=
    sqlName_qualified hr
  refine stepWrites_of rfl createIndex_ne_verify rfl (.cons ?_ (.cons commentSql_writes .nil))
  rw [hquoted]
  split
  next hplain =>
    have hunique : d.unique = false := by
      simp only [Planner.plainBuild, Bool.and_eq_true, Bool.not_eq_true'] at hplain
      exact hplain.2
    have htext : "CREATE INDEX " ++ quoteIdentifier d.name ++ " ON " ++ sqlName r ++
        texts.index d ++ ";" = createIndexSql d.unique "" d.name " ON " r (texts.index d) := by
      rw [createIndexSql, hunique, ← String.toList_inj]
      simp [uniqueText]
    exact htext ▸ .createIndex r d false
  next =>
    have htext : "CREATE " ++ uniqueText d.unique ++ "INDEX CONCURRENTLY " ++
        quoteIdentifier d.name ++ " ON " ++ sqlName r ++ texts.index d ++ ";" =
          createIndexSql d.unique "CONCURRENTLY " d.name " ON " r (texts.index d) := by
      rw [createIndexSql, ← String.toList_inj]
      simp
    exact htext ▸ .createIndex r d true

/-- An index that is not there, on a table that is built at one go. -/
theorem planCreateIndex_writes (hr : '.' ∉ r.schema.toList)
    (hpresent : (obs.table r).present = true) (hnone : (obs.table r).indexes[d.name]? = none)
    (hfirst : firstEquivalent (obs.table r) d = none)
    (hkind : (obs.table r).kind ≠ .partitionedTable)
    (hparts : buildsByParts (obs.table r) (env.indexTraits obs r (.createIndex d)) d false = false)
    (size : Int) (waiters : Nat) :
    PlanWrites texts (planCreateIndex env obs r d)
      (.ok [Planner.planCreateIndex (d.intent texts r comment) size waiters] :
        Except Planner.Refused _) := by
  have hplan : planCreateIndex env obs r d =
      some [.applying [.alter r (.createIndex d false), .other]] := by
    simp [planCreateIndex, hpresent, hnone, planNewIndex, hfirst, hkind, hparts]
  rw [hplan]
  exact .some (.cons (createIndex_writes hr size waiters) .nil)

/-! ## An index on each part -/

/-- A partition, with its index of the name. -/
def PartObs.part (name : String) (p : PartObs) : Planner.Part where
  relation := observed p.relation
  partitioned := p.partitioned
  index := (p.indexes[partName p.relation name]?).map fun ix => {
    valid := ix.valid
    unique := ix.unique
    constraint := ix.constraint
    attachedTo := ix.attachedTo }

theorem childName_part {p : Rel} (hp : '.' ∉ p.schema.toList) (name : String) :
    Planner.childName (observed p) name = partName p name := by
  rw [Planner.childName, Planner.afterDot_observed hp, partName]

theorem partitionBuild_writes {p : Rel} (hp : '.' ∉ p.schema.toList) :
    StepWrites texts (.applying [.alter p (.createIndex (d.onPart p) false)])
      (Planner.partitionBuild (d.intent texts r comment) (observed p)) := by
  refine stepWrites_of rfl createIndex_ne_verify rfl ?_
  have hbuild : (Planner.partitionBuild (d.intent texts r comment) (observed p)).sql =
      [((d.intent texts r comment).buildDdl (observed p)).sql] :=
    Planner.build_stated (Planner.quoteQualified_observed p)
  rw [hbuild]
  refine .cons ?_ .nil
  have htext : ((d.intent texts r comment).buildDdl (observed p)).sql =
      createIndexSql (d.onPart p).unique "CONCURRENTLY " (d.onPart p).name " ON " p
        (texts.index (d.onPart p)) := by
    change createIndexSql d.unique "CONCURRENTLY " (Planner.childName (observed p) d.name) " ON "
      (meant (observed p)) (texts.index d) = _
    rw [childName_part hp, Planner.meant_observed hp, ← texts.index_renamed d (partName p d.name)]
    rfl
  exact htext ▸ .createIndex p (d.onPart p) true

theorem parentBuild_writes (hr : '.' ∉ r.schema.toList) :
    StepWrites texts (.applying [.alter r (.createIndex d true), .other])
      (Planner.parentBuild (d.intent texts r comment)) := by
  have hqualified : (d.intent texts r comment).qualified = observed r := rfl
  refine stepWrites_of rfl createIndex_ne_verify rfl ?_
  rw [Planner.parent_stated (by rw [hqualified]; exact Planner.quoteQualified_observed r)]
  refine .cons ?_ (.cons (.commentIndex _ _) .nil)
  change Writes texts _ (createIndexSql d.unique "" d.name " ON ONLY " (meant (observed r))
    (texts.index d))
  rw [Planner.meant_observed hr]
  exact .createIndexOnly r d

theorem attachIndex_writes (relation : String) :
    StepWrites texts (.applying [.other])
      (Planner.attachIndex (d.intent texts r comment) relation) := by
  refine stepWrites_of rfl createIndex_ne_verify rfl ?_
  rw [Planner.attach_stated]
  exact .cons (.attach _ _) .nil

/-- The partition key is refused. -/
def keyRefused (key columns : List String) : Bool :=
  key.isEmpty || key.any fun k => k ∉ columns

theorem checkPartitionKey_isOk (key columns : List String) :
    (Planner.checkPartitionKey key columns).isOk = !keyRefused key columns := by
  rw [Planner.checkPartitionKey, keyRefused]
  split
  next h => rw [h]; rfl
  next h =>
    have hempty : key.isEmpty = false := List.isEmpty_eq_false_iff.mpr h
    have hfind : (key.find? fun k => !columns.contains k).isSome =
        key.any fun k => k ∉ columns := by
      rw [List.isSome_find?]
      simp
    rw [hempty, Bool.false_or, ← hfind]
    cases key.find? fun k => !columns.contains k <;> rfl

theorem tooLong_eq (name : String) : Planner.tooLong name = !fits name := by
  rw [Planner.tooLong, fits, ← decide_not, decide_eq_decide, Nat.not_le]

/-- What `plan_partitioned_index` asks first. -/
def indexRefused (in_ : Planner.IndexIntent) (key : List String) (parts : List Planner.Part) :
    Bool :=
  parts.isEmpty || (in_.unique && keyRefused key in_.columns) || parts.any (·.partitioned) ||
    parts.any fun p => Planner.tooLong (Planner.childName p.relation in_.name)

theorem planPartitionedIndex_toOption (in_ : Planner.IndexIntent) (key : List String)
    (parts : List Planner.Part) :
    (Planner.planPartitionedIndex in_ key parts).toOption =
      if indexRefused in_ key parts then none
      else some (parts.map (fun p => Planner.partitionBuild in_ p.relation) ++
        [Planner.parentBuild in_] ++ parts.map (fun p => Planner.attachIndex in_ p.relation) ++
        [Planner.verifyStep in_.schema in_.name]) := by
  have hkey := checkPartitionKey_isOk key in_.columns
  have hsub : (parts.find? Planner.Part.partitioned).isSome =
      parts.any Planner.Part.partitioned := List.isSome_find?
  have hlong : (parts.find? fun p =>
        Planner.tooLong (Planner.childName p.relation in_.name)).isSome =
      parts.any fun p => Planner.tooLong (Planner.childName p.relation in_.name) :=
    List.isSome_find?
  unfold Planner.planPartitionedIndex indexRefused
  by_cases hne : parts = []
  · rw [hne]
    rfl
  · rw [if_neg hne, List.isEmpty_eq_false_iff.mpr hne, Bool.false_or, ← hsub, ← hlong]
    rw [← Bool.not_eq_eq_eq_not.mpr hkey]
    cases in_.unique <;> cases Planner.checkPartitionKey key in_.columns <;>
      cases parts.find? Planner.Part.partitioned <;>
      cases parts.find? (fun p => Planner.tooLong (Planner.childName p.relation in_.name)) <;> rfl

variable (texts d comment) in
/-- `plan_partitioned_index` -/
theorem planPartitionedIndex_writes {t : TableObs} (hr : '.' ∉ r.schema.toList)
    (hdots : ∀ p ∈ t.partitionParts, '.' ∉ p.relation.schema.toList)
    (hparts : t.partitions = t.partitionParts.map (·.relation)) :
    PlanWrites texts (planPartitionedIndex r t d)
      (Planner.planPartitionedIndex (d.intent texts r comment)
        (partitionKeyColumns t.partitionKey) (t.partitionParts.map (·.part d.name))) := by
  have hlong : ∀ p ∈ t.partitionParts,
      Planner.tooLong (Planner.childName (p.part d.name).relation d.name) =
        !fits (partName p.relation d.name) := by
    intro p hp
    rw [PartObs.part, childName_part (hdots p hp), tooLong_eq]
  have hrefused : indexRefused (d.intent texts r comment) (partitionKeyColumns t.partitionKey)
      (t.partitionParts.map (·.part d.name)) =
        (t.partitions.isEmpty || (d.unique && keyRefused (partitionKeyColumns t.partitionKey)
          d.names) || t.partitionParts.any (·.partitioned) ||
          t.partitions.any fun p => !fits (partName p d.name)) := by
    rw [indexRefused, hparts, List.any_map, List.any_map, List.any_map, List.isEmpty_map,
      List.isEmpty_map]
    congr 1
    rw [Bool.eq_iff_iff, List.any_eq_true, List.any_eq_true]
    exact exists_congr fun p => and_congr_right fun hp => by
      rw [Function.comp_apply, Function.comp_apply, ← hlong p hp]
      rfl
  rw [PlanWrites, planPartitionedIndex_toOption, hrefused]
  unfold planPartitionedIndex keyRefused
  dsimp only
  cases t.partitions.isEmpty with
  | true => exact .none
  | false =>
    cases d.unique && ((partitionKeyColumns t.partitionKey).isEmpty ||
        (partitionKeyColumns t.partitionKey).any fun k => k ∉ d.names) with
    | true => exact .none
    | false =>
      cases t.partitionParts.any (·.partitioned) with
      | true => exact .none
      | false =>
        cases t.partitions.any fun p => !fits (partName p d.name) with
        | true => exact .none
        | false =>
          refine .some ?_
          rw [hparts, List.map_map, List.map_map, List.map_map, List.map_map]
          refine List.rel_append (List.rel_append (List.rel_append ?builds ?parent) ?attaches)
            (.cons (verify_writes _ _) .nil)
          case builds =>
            rw [List.forall₂_map_left_iff, List.forall₂_map_right_iff, List.forall₂_same]
            exact fun p hp => partitionBuild_writes (hdots p hp)
          case parent => exact .cons (parentBuild_writes hr) .nil
          case attaches =>
            rw [List.forall₂_map_left_iff, List.forall₂_map_right_iff, List.forall₂_same]
            exact fun p _ => attachIndex_writes _

/-- `plan_create_index` on a table with partitions, where no index is the same under another
name. -/
theorem planIndexOnParts_writes (hr : '.' ∉ r.schema.toList)
    (hdots : ∀ p ∈ (obs.table r).partitionParts, '.' ∉ p.relation.schema.toList)
    (hparts : (obs.table r).partitions = (obs.table r).partitionParts.map (·.relation))
    (hpresent : (obs.table r).present = true) (hkind : (obs.table r).kind = .partitionedTable)
    (hfirst : firstEquivalent (obs.table r) d = none)
    (hcontinues : continuesByParts (env.indexTraits obs r (.createIndex d)) d = false) :
    PlanWrites texts (planCreateIndex env obs r d)
      (Planner.planIndexOnParts (d.intent texts r comment)
        (((obs.table r).indexes[d.name]?).map (·.isValid))
        (partitionKeyColumns (obs.table r).partitionKey)
        ((obs.table r).partitionParts.map (·.part d.name))) := by
  have hnew : ∀ rebuild, planNewIndex env obs r d rebuild =
      planPartitionedIndex r (obs.table r) d := by
    intro rebuild
    simp [planNewIndex, hfirst, hkind]
  have hrecipe := planPartitionedIndex_writes texts d comment hr hdots hparts
  unfold planCreateIndex Planner.planIndexOnParts
  simp only [hpresent, Bool.not_true, Bool.false_eq_true, if_false, hcontinues, hnew]
  cases (obs.table r).indexes[d.name]? with
  | none => exact hrecipe
  | some ex =>
    cases hvalid : ex.isValid with
    | false => simpa [hvalid] using hrecipe
    | true =>
      have hdone : PlanWrites texts (some [.satisfied])
          (.ok [Planner.IndexIntent.satisfied] : Except Planner.Refused _) :=
        satisfied_writes rfl createIndex_ne_verify rfl
      simpa [hvalid] using hdone

end Index

/-! ## A key on partitions -/

def columnsText (columns : List String) : String :=
  " (" ++ Planner.join ", " (columns.map quoteIdentifier) ++ ")"

/-- A key, and the indexes it is made of. -/
def keyTexts : Texts where
  index d := columnsText d.names
  key primary columns := kindText primary ++ columnsText columns
  index_renamed _ _ := rfl

namespace AddKey

variable (k : AddKey) (r : Rel)

/-- As its SQL is planned from; `present` is whether the parent has it. -/
def unique (present : Bool) : Planner.UniqueIntent where
  primary := k.primary
  qualified := observed r
  name := k.name
  columns := k.columns
  present := present

/-- The same for a key with a period, whose last column is not compared for equality. -/
def locked (clause : String) (present : Bool) : Planner.ConstraintIntent where
  kind := if k.primary then "add_primary_key" else "add_unique_constraint"
  qualified := observed r
  name := k.name
  columns := k.columns.dropLast
  clause := clause
  present := present

end AddKey

section Key

variable {env : Env} {obs : Observations} {r : Rel} {k : AddKey} {present : Bool}

theorem forM_isOk {ε α : Type} (check : α → Except ε Unit) (xs : List α) :
    (xs.forM check).isOk = xs.all fun x => (check x).isOk := by
  induction xs with
  | nil => rfl
  | cons x xs ih =>
    rw [List.all_cons, ← ih]
    change (Except.bind (check x) fun _ => xs.forM check).isOk = _
    cases check x <;> rfl

/-- What both recipes begin with. -/
theorem checked_toOption (key columns : List String) (parts : List Planner.Part)
    (check : Planner.Part → Except Planner.Refused Unit) (steps : List Planner.Step) :
    (do
      Planner.checkPartitionKey key columns
      parts.forM check
      pure steps : Except Planner.Refused (List Planner.Step)).toOption =
      if keyRefused key columns || parts.any fun p => !(check p).isOk then none
      else some steps := by
  have hkey := checkPartitionKey_isOk key columns
  have hparts : (parts.forM check).isOk = !parts.any fun p => !(check p).isOk := by
    rw [forM_isOk, List.not_any_eq_all_not]
    simp
  rw [← Bool.not_eq_eq_eq_not.mpr hkey, ← Bool.not_eq_eq_eq_not.mpr hparts]
  cases Planner.checkPartitionKey key columns with
  | error why => rfl
  | ok u => cases parts.forM check <;> rfl

theorem planUniqueOnPartitions_toOption (in_ : Planner.UniqueIntent) (key : List String)
    (parts : List Planner.Part) :
    (Planner.planUniqueOnPartitions in_ key parts).toOption =
      if keyRefused key in_.columns || parts.any fun p => !(in_.checkPart p).isOk then none
      else some (if parts = [] then
          [(in_.constraint.emit .required [Planner.ConstraintIntent.addTo
            (quoteQualified in_.qualified) in_.name in_.constraint.clause]
            (Planner.emptyParentLock in_.qualified)).weakerLockFirst [quoteQualified in_.qualified]]
        else (if in_.present then [] else [in_.constraint.addOnly]) ++
          parts.flatMap in_.stepsOn ++ [in_.constraint.verify]) := by
  rw [← checked_toOption]
  unfold Planner.planUniqueOnPartitions
  by_cases hempty : parts = []
  · simp only [if_pos hempty]
  · simp only [if_neg hempty]

theorem planLockedBuildOnPartitions_toOption (in_ : Planner.ConstraintIntent) (key : List String)
    (parts : List Planner.Part) :
    (Planner.planLockedBuildOnPartitions in_ key parts).toOption =
      if keyRefused key in_.columns || parts.any fun p => !(in_.checkLockedPart p).isOk then none
      else some (if parts = [] then
          [in_.emit .required [Planner.ConstraintIntent.addTo (quoteQualified in_.qualified)
            in_.name in_.clause] (Planner.emptyParentLock in_.qualified)]
        else (if in_.present then [] else [in_.addOnly]) ++ parts.flatMap in_.lockedStepsOn ++
          [in_.verify]) := by
  rw [← checked_toOption]
  unfold Planner.planLockedBuildOnPartitions
  by_cases hempty : parts = []
  · simp only [if_pos hempty]
  · simp only [if_neg hempty]

/-- What both recipes ask of a partition. -/
theorem constraint_checkPart_isOk (in_ : Planner.ConstraintIntent) (p : Planner.Part) :
    (in_.checkPart p).isOk =
      !(p.partitioned || Planner.tooLong (Planner.childName p.relation in_.name)) := by
  unfold Planner.ConstraintIntent.checkPart
  cases p.partitioned <;> cases Planner.tooLong (Planner.childName p.relation in_.name) <;> rfl

theorem checkPart_isOk (in_ : Planner.UniqueIntent) (p : Planner.Part) :
    (in_.checkPart p).isOk =
      !(p.partitioned || Planner.tooLong (Planner.childName p.relation in_.name) ||
        (Planner.UniqueIntent.built p && !(p.index.map Planner.PartIndex.unique).getD false)) := by
  have hshared : (in_.constraint.checkPart p).isOk =
      !(p.partitioned || Planner.tooLong (Planner.childName p.relation in_.name)) :=
    constraint_checkPart_isOk in_.constraint p
  unfold Planner.UniqueIntent.checkPart
  rw [← Bool.not_eq_eq_eq_not.mpr hshared]
  cases in_.constraint.checkPart p <;>
    cases Planner.UniqueIntent.built p && !(p.index.map Planner.PartIndex.unique).getD false <;> rfl

theorem checkLockedPart_isOk (in_ : Planner.ConstraintIntent) (p : Planner.Part) :
    (in_.checkLockedPart p).isOk =
      !(p.partitioned || Planner.tooLong (Planner.childName p.relation in_.name) ||
        (p.index.isSome && (p.index.bind Planner.PartIndex.constraint).isNone)) := by
  have hshared := constraint_checkPart_isOk in_ p
  unfold Planner.ConstraintIntent.checkLockedPart
  rw [← Bool.not_eq_eq_eq_not.mpr hshared]
  cases in_.checkPart p <;>
    cases p.index.isSome && (p.index.bind Planner.PartIndex.constraint).isNone <;> rfl

/-- A partition is refused for the same reasons. -/
theorem checkPart_seen {p : PartObs} (hp : '.' ∉ p.relation.schema.toList)
    (hk : k.withoutOverlaps = false) :
    (!((k.unique r present).checkPart (p.part k.name)).isOk) = partRefused k p := by
  rw [checkPart_isOk, Bool.not_not, partRefused, hk]
  change (p.partitioned || Planner.tooLong (Planner.childName (observed p.relation) k.name) ||
    _) = _
  rw [childName_part hp, tooLong_eq]
  congr 1
  unfold Planner.UniqueIntent.built PartObs.part
  rcases p.indexes[partName p.relation k.name]? with _ | ⟨valid, unique, _, _⟩
  · rfl
  · cases valid <;> cases unique <;> rfl

theorem checkLockedPart_seen {p : PartObs} {clause : String} (hp : '.' ∉ p.relation.schema.toList)
    (hk : k.withoutOverlaps = true) :
    (!((k.locked r clause present).checkLockedPart (p.part k.name)).isOk) = partRefused k p := by
  rw [checkLockedPart_isOk, Bool.not_not, partRefused, hk]
  change (p.partitioned || Planner.tooLong (Planner.childName (observed p.relation) k.name) ||
    _) = _
  rw [childName_part hp, tooLong_eq]
  congr 1
  unfold PartObs.part
  rcases p.indexes[partName p.relation k.name]? with _ | ⟨_, _, constraint, _⟩
  · rfl
  · cases constraint <;> rfl

theorem attach_writes (texts : Texts) (in_ : Planner.ConstraintIntent) (p : Planner.Part)
    (hkind : in_.kind ≠ Planner.verifyIndexValid) :
    StepWrites texts (.applying [.other]) (in_.attach p) := by
  refine stepWrites_of rfl hkind rfl (.cons ?_ .nil)
  have htext : Planner.attachSql (beforeDot in_.qualified) in_.name (beforeDot p.relation)
      (Planner.childName p.relation in_.name) =
        attachPartitionSql ⟨beforeDot in_.qualified, in_.name⟩
          ⟨beforeDot p.relation, Planner.childName p.relation in_.name⟩ := by
    unfold Planner.attachSql attachPartitionSql sqlName
    rw [← String.toList_inj]
    simp
  exact htext ▸ .attach _ _

theorem kind_ne_verify (in_ : Planner.UniqueIntent) :
    in_.constraint.kind ≠ Planner.verifyIndexValid := by
  change (if in_.primary then "add_primary_key" else "add_unique_constraint") ≠ _
  cases in_.primary <;> decide

/-- The index of a key, without more. -/
def ownIndex (k : AddKey) (name : String) : CreateIndex where
  name := name
  columns := k.columns.map fun c => { name := c }
  unique := true

theorem ownIndex_text (name : String) :
    keyTexts.index (ownIndex k name) = columnsText k.columns := by
  have hnames : (ownIndex k name).names = k.columns :=
    (List.map_map ..).trans (List.map_id k.columns)
  change columnsText (ownIndex k name).names = _
  rw [hnames]

theorem buildOn_writes {p : PartObs} (hp : '.' ∉ p.relation.schema.toList) :
    StepWrites keyTexts
      (.applying ((if (p.indexes[partName p.relation k.name]?).isSome then
          [.alter p.relation (.dropIndex (partName p.relation k.name))] else []) ++
        [.alter p.relation (.createIndex (ownIndex k (partName p.relation k.name)) false)]))
      ((k.unique r present).buildOn (p.part k.name)) := by
  have hdrop : "DROP INDEX CONCURRENTLY " ++ quoteIdentifier p.relation.schema ++ "." ++
      quoteIdentifier (partName p.relation k.name) ++ ";" =
        dropIndexSql { p.relation with name := partName p.relation k.name } :=
    Planner.dropIndex_sql p.relation.schema _
  have hbuild : "CREATE UNIQUE INDEX CONCURRENTLY " ++
      quoteIdentifier (partName p.relation k.name) ++ " ON " ++ sqlName p.relation ++ " (" ++
        (k.unique r present).quotedColumns ++ ");" =
        createIndexSql true "CONCURRENTLY " (partName p.relation k.name) " ON " p.relation
          (keyTexts.index (ownIndex k (partName p.relation k.name))) := by
    rw [ownIndex_text]
    exact Planner.build_sql p.relation _
  refine stepWrites_of rfl (kind_ne_verify _) rfl ?_
  change List.Forall₂ _ _ ((if ((p.indexes[partName p.relation k.name]?).map _).isSome = true then
      ["DROP INDEX CONCURRENTLY " ++ quoteIdentifier (beforeDot (observed p.relation)) ++ "." ++
        quoteIdentifier (Planner.childName (observed p.relation) k.name) ++ ";"] else []) ++
    ["CREATE UNIQUE INDEX CONCURRENTLY " ++
      quoteIdentifier (Planner.childName (observed p.relation) k.name) ++ " ON " ++
      quoteQualified (observed p.relation) ++ " (" ++ (k.unique r present).quotedColumns ++ ");"])
  rw [Planner.beforeDot_observed hp, childName_part hp, Planner.quoteQualified_observed,
    Planner.meant_observed hp, hdrop, hbuild, Option.isSome_map]
  refine List.rel_append ?_ (.cons (.createIndex _ _ true) .nil)
  split
  · exact .cons (.dropIndex _ _) .nil
  · exact .nil

theorem adopt_writes {p : PartObs} (hp : '.' ∉ p.relation.schema.toList) :
    StepWrites keyTexts
      (.applying [.alter p.relation (.addKeyUsing (partName p.relation k.name) k.primary
        (partName p.relation k.name))])
      ((k.unique r present).adopt (p.part k.name)) := by
  refine stepWrites_locking rfl (kind_ne_verify _) (.cons ?_ .nil)
  change Writes _ _ (Planner.ConstraintIntent.addTo (quoteQualified (observed p.relation))
    (Planner.childName (observed p.relation) k.name) ((k.unique r present).kindSql ++
      " USING INDEX " ++ quoteIdentifier (Planner.childName (observed p.relation) k.name)))
  rw [childName_part hp, Planner.quoteQualified_observed, Planner.meant_observed hp,
    Planner.adopt_sql]
  exact .addKeyUsing _ _ _ _

theorem unless_writes {texts : Texts} {c c' : Prop} [Decidable c] [Decidable c'] {step : Step}
    {s : Planner.Step} (hc : c ↔ c') (h : StepWrites texts step s) :
    List.Forall₂ (StepWrites texts) (if c then [] else [step]) (if c' then [] else [s]) := by
  by_cases hc' : c'
  · rw [if_pos (hc.mpr hc'), if_pos hc']
    exact .nil
  · rw [if_neg fun hcc => hc' (hc.mp hcc), if_neg hc']
    exact .cons h .nil

/-- What is left to do on a partition. -/
theorem stepsOn_writes {p : PartObs} (hp : '.' ∉ p.relation.schema.toList) :
    List.Forall₂ (StepWrites keyTexts) (uniqueOnPart k p)
      ((k.unique r present).stepsOn (p.part k.name)) := by
  have hvalid : Planner.UniqueIntent.built (p.part k.name) =
      ((p.indexes[partName p.relation k.name]?).map (·.valid)).getD false := by
    unfold Planner.UniqueIntent.built PartObs.part
    cases p.indexes[partName p.relation k.name]? <;> rfl
  have hconstraint : ((p.part k.name).index.bind Planner.PartIndex.constraint) =
      (p.indexes[partName p.relation k.name]?).bind (·.constraint) := by
    unfold PartObs.part
    cases p.indexes[partName p.relation k.name]? <;> rfl
  have hattached : ((p.part k.name).index.bind Planner.PartIndex.attachedTo) =
      (p.indexes[partName p.relation k.name]?).bind (·.attachedTo) := by
    unfold PartObs.part
    cases p.indexes[partName p.relation k.name]? <;> rfl
  have hattach := attach_writes keyTexts (k.unique r present).constraint
    (p.part k.name) (kind_ne_verify _)
  unfold uniqueOnPart Planner.UniqueIntent.stepsOn
  rw [hvalid, hconstraint, hattached]
  refine List.rel_append (List.rel_append (unless_writes Iff.rfl (buildOn_writes hp))
    (unless_writes Iff.rfl (adopt_writes hp))) (unless_writes ?_ hattach)
  rw [Bool.and_eq_true, Bool.and_eq_true, beq_iff_eq, decide_eq_true_eq]
  exact Iff.rfl

theorem addTo_writes {texts : Texts} {on : Rel} {name clause : String} {primary : Bool}
    {columns : List String} (hclause : texts.key primary columns = clause) (only : Bool) :
    Writes texts (.alter on (.addKey name primary columns only))
      (Planner.ConstraintIntent.addTo (onlyText only ++ sqlName on) name clause) :=
  hclause ▸ .addKey on name primary columns only

theorem unique_clause :
    keyTexts.key k.primary k.columns = (k.unique r present).constraint.clause := by
  change kindText k.primary ++ columnsText k.columns =
    kindText k.primary ++ " (" ++ (k.unique r present).quotedColumns ++ ")"
  rw [← String.toList_inj]
  simp [columnsText, Planner.UniqueIntent.quotedColumns, AddKey.unique]

/-- On the parent alone, and where there is no partition. -/
theorem addOnly_writes {texts : Texts} {in_ : Planner.ConstraintIntent}
    (hr : '.' ∉ r.schema.toList) (hqualified : in_.qualified = observed r)
    (hname : in_.name = k.name)
    (hkind : in_.kind ≠ Planner.verifyIndexValid)
    (hclause : texts.key k.primary k.columns = in_.clause) :
    StepWrites texts (.applying [.alter r (.addKey k.name k.primary k.columns true)])
      in_.addOnly := by
  refine stepWrites_locking rfl hkind (.cons ?_ .nil)
  rw [hqualified, hname, Planner.quoteQualified_observed, Planner.meant_observed hr]
  exact addTo_writes hclause true

theorem addKey_sql {texts : Texts} {in_ : Planner.ConstraintIntent} (hr : '.' ∉ r.schema.toList)
    (hqualified : in_.qualified = observed r) (hname : in_.name = k.name)
    (hclause : texts.key k.primary k.columns = in_.clause) :
    List.Forall₂ (Writes texts) [.alter r (.addKey k.name k.primary k.columns false)]
      [Planner.ConstraintIntent.addTo (quoteQualified in_.qualified) in_.name in_.clause] := by
  rw [hqualified, hname, Planner.quoteQualified_observed, Planner.meant_observed hr]
  have htext : onlyText false ++ sqlName r = sqlName r := String.empty_append
  exact .cons (htext ▸ addTo_writes hclause false) .nil

/-- The one statement where there is no partition. -/
theorem unique_addKey_writes (hr : '.' ∉ r.schema.toList) (lock rel : String) :
    StepWrites keyTexts (.applying [.alter r (.addKey k.name k.primary k.columns false)])
      (((k.unique r present).constraint.emit .required [Planner.ConstraintIntent.addTo
        (quoteQualified (k.unique r present).qualified) (k.unique r present).name
        (k.unique r present).constraint.clause] lock).weakerLockFirst [rel]) := by
  have hsql : List.Forall₂ (Writes keyTexts)
      [.alter r (.addKey k.name k.primary k.columns false)]
      [Planner.ConstraintIntent.addTo (quoteQualified (k.unique r present).constraint.qualified)
        (k.unique r present).constraint.name (k.unique r present).constraint.clause] :=
    addKey_sql hr rfl rfl unique_clause
  exact stepWrites_locking rfl (kind_ne_verify _) hsql

theorem unique_addOnly_writes (hr : '.' ∉ r.schema.toList) :
    StepWrites keyTexts (.applying [.alter r (.addKey k.name k.primary k.columns true)])
      (k.unique r present).constraint.addOnly :=
  addOnly_writes hr rfl rfl (kind_ne_verify _) unique_clause

theorem flatMap_writes {texts : Texts} {parts : List PartObs} {f : PartObs → List Step}
    {g : PartObs → List Planner.Step}
    (h : ∀ p ∈ parts, List.Forall₂ (StepWrites texts) (f p) (g p)) :
    List.Forall₂ (StepWrites texts) (parts.flatMap f) (parts.flatMap g) := by
  induction parts with
  | nil => exact .nil
  | cons p ps ih =>
    rw [List.flatMap_cons, List.flatMap_cons]
    exact List.rel_append (h p List.mem_cons_self) (ih fun q hq => h q (List.mem_cons_of_mem p hq))

/-- A recipe on partitions is planned here as there, where each of its parts is. -/
theorem onPartitions_writes {texts : Texts} {t : TableObs} {refused : Planner.Part → Bool}
    {one addOnly verify : Planner.Step} {stepsOn : Planner.Part → List Planner.Step}
    (hrefused : ∀ p ∈ t.partitionParts, refused (p.part k.name) = partRefused k p)
    (hone : StepWrites texts (.applying [.alter r (.addKey k.name k.primary k.columns false)]) one)
    (haddOnly : StepWrites texts
      (.applying [.alter r (.addKey k.name k.primary k.columns true)]) addOnly)
    (hsteps : ∀ p ∈ t.partitionParts, List.Forall₂ (StepWrites texts)
      ((if k.withoutOverlaps then periodOnPart k else uniqueOnPart k) p) (stepsOn (p.part k.name)))
    (hverify : StepWrites texts (.applying [.other]) verify) :
    Option.Rel (List.Forall₂ (StepWrites texts)) (planKeyOnPartitions r t k)
      (if keyRefused (partitionKeyColumns t.partitionKey)
          (if k.withoutOverlaps then k.columns.dropLast else k.columns) ||
          (t.partitionParts.map (·.part k.name)).any refused then none
        else some (if t.partitionParts.map (·.part k.name) = [] then [one]
          else (if t.constraints.contains k.name then [] else [addOnly]) ++
            (t.partitionParts.map (·.part k.name)).flatMap stepsOn ++ [verify])) := by
  have hparts : (t.partitionParts.map (·.part k.name)).any refused =
      t.partitionParts.any (partRefused k) := by
    rw [List.any_map, Bool.eq_iff_iff, List.any_eq_true, List.any_eq_true]
    exact exists_congr fun p => and_congr_right fun hp => by
      rw [Function.comp_apply, hrefused p hp]
  rw [hparts]
  unfold planKeyOnPartitions keyRefused
  dsimp only
  cases (partitionKeyColumns t.partitionKey).isEmpty || (partitionKeyColumns t.partitionKey).any
      fun c => c ∉ if k.withoutOverlaps then k.columns.dropLast else k.columns with
  | true => exact .none
  | false =>
    cases t.partitionParts.any (partRefused k) with
    | true => exact .none
    | false =>
      simp only [Bool.or_false, Bool.false_eq_true, if_false, List.map_eq_nil_iff,
        List.isEmpty_iff]
      by_cases hempty : t.partitionParts = []
      · rw [if_pos hempty, if_pos hempty]
        exact .some (.cons hone .nil)
      · rw [if_neg hempty, if_neg hempty, List.flatMap_map]
        refine .some (List.rel_append (List.rel_append (unless_writes Iff.rfl haddOnly)
          (flatMap_writes hsteps)) (.cons hverify .nil))

/-- `plan_unique_on_partitions` -/
theorem planKeyOnPartitions_writes {t : TableObs} (hr : '.' ∉ r.schema.toList)
    (hdots : ∀ p ∈ t.partitionParts, '.' ∉ p.relation.schema.toList)
    (hk : k.withoutOverlaps = false) :
    PlanWrites keyTexts (planKeyOnPartitions r t k)
      (Planner.planUniqueOnPartitions (k.unique r (t.constraints.contains k.name))
        (partitionKeyColumns t.partitionKey) (t.partitionParts.map (·.part k.name))) := by
  have hcolumns : (k.unique r (t.constraints.contains k.name)).columns =
      if k.withoutOverlaps then k.columns.dropLast else k.columns := by
    rw [hk]
    rfl
  rw [PlanWrites, planUniqueOnPartitions_toOption, hcolumns]
  refine onPartitions_writes (fun p hp => checkPart_seen (hdots p hp) hk)
    (unique_addKey_writes hr _ _) (unique_addOnly_writes hr) (fun p hp => ?_) (verify_writes _ _)
  rw [hk]
  exact stepsOn_writes (hdots p hp)

/-- The same of a key whose text is the clause. -/
def clauseTexts (clause : String) : Texts := { keyTexts with key := fun _ _ => clause }

theorem lockedStepsOn_writes {p : PartObs} {clause : String}
    (hp : '.' ∉ p.relation.schema.toList) :
    List.Forall₂ (StepWrites (clauseTexts clause)) (periodOnPart k p)
      ((k.locked r clause present).lockedStepsOn (p.part k.name)) := by
  have hkind : (k.locked r clause present).kind ≠ Planner.verifyIndexValid :=
    kind_ne_verify (k.unique r present)
  have hsome : (p.part k.name).index.isSome =
      (p.indexes[partName p.relation k.name]?).isSome := Option.isSome_map
  have hattached : ((p.part k.name).index.bind Planner.PartIndex.attachedTo) =
      (p.indexes[partName p.relation k.name]?).bind (·.attachedTo) := by
    unfold PartObs.part
    cases p.indexes[partName p.relation k.name]? <;> rfl
  have hadd : List.Forall₂ (Writes (clauseTexts clause))
      [.alter p.relation (.addKey (partName p.relation k.name) k.primary k.columns false)]
      [Planner.ConstraintIntent.addTo (quoteQualified (observed p.relation))
        (Planner.childName (observed p.relation) k.name) clause] := by
    rw [childName_part hp, Planner.quoteQualified_observed, Planner.meant_observed hp]
    have htext : onlyText false ++ sqlName p.relation = sqlName p.relation := String.empty_append
    exact .cons (htext ▸ addTo_writes rfl false) .nil
  unfold periodOnPart Planner.ConstraintIntent.lockedStepsOn
  rw [hsome, hattached]
  refine List.rel_append (unless_writes Iff.rfl (stepWrites_locking rfl hkind hadd))
    (unless_writes ?_ (attach_writes _ _ _ hkind))
  rw [beq_iff_eq]
  exact Iff.rfl

/-- `plan_locked_build_on_partitions` -/
theorem planPeriodOnPartitions_writes {t : TableObs} {clause : String}
    (hr : '.' ∉ r.schema.toList)
    (hdots : ∀ p ∈ t.partitionParts, '.' ∉ p.relation.schema.toList)
    (hk : k.withoutOverlaps = true) :
    PlanWrites (clauseTexts clause) (planKeyOnPartitions r t k)
      (Planner.planLockedBuildOnPartitions (k.locked r clause (t.constraints.contains k.name))
        (partitionKeyColumns t.partitionKey) (t.partitionParts.map (·.part k.name))) := by
  have hkind : (k.locked r clause (t.constraints.contains k.name)).kind ≠
      Planner.verifyIndexValid := kind_ne_verify (k.unique r (t.constraints.contains k.name))
  have hsql : List.Forall₂ (Writes (clauseTexts clause))
      [.alter r (.addKey k.name k.primary k.columns false)]
      [Planner.ConstraintIntent.addTo
        (quoteQualified (k.locked r clause (t.constraints.contains k.name)).qualified)
        (k.locked r clause (t.constraints.contains k.name)).name
        (k.locked r clause (t.constraints.contains k.name)).clause] :=
    addKey_sql hr rfl rfl rfl
  have honly : StepWrites (clauseTexts clause)
      (.applying [.alter r (.addKey k.name k.primary k.columns true)])
      (k.locked r clause (t.constraints.contains k.name)).addOnly :=
    addOnly_writes hr rfl rfl hkind rfl
  have hcolumns : (k.locked r clause (t.constraints.contains k.name)).columns =
      if k.withoutOverlaps then k.columns.dropLast else k.columns := by
    rw [hk]
    rfl
  rw [PlanWrites, planLockedBuildOnPartitions_toOption, hcolumns]
  refine onPartitions_writes (fun p hp => checkLockedPart_seen (hdots p hp) hk)
    (stepWrites_of rfl hkind rfl hsql) honly (fun p hp => ?_) (verify_writes _ _)
  rw [hk]
  exact lockedStepsOn_writes (hdots p hp)

/-- `contype` -/
def ConstraintType.letter : ConstraintType → String
  | .primaryKey => "p"
  | .unique => "u"
  | .exclusion => "x"
  | .check => "c"
  | .foreignKey => "f"
  | .notNull => "n"
  | .trigger => "t"

/-- What is read before a key is planned. -/
def TableObs.uniqueRead (t : TableObs) (k : AddKey) : Planner.UniqueRead where
  constraint := (t.constraints[k.name]?).map (·.type.letter)
  indexValid := (t.indexes[k.name]?).map (·.isValid)
  primaryKey := t.constraints.toList.any fun c => c.2.type == .primaryKey
  partitionKey := partitionKeyColumns t.partitionKey
  parts := t.partitionParts.map (·.part k.name)

variable (r k present) in
theorem letter_type (ct : ConstraintType) :
    ct.letter = (k.unique r present).contype ↔ ct = k.type := by
  change ct.letter = (if k.primary then "p" else "u") ↔
    ct = if k.primary then .primaryKey else .unique
  cases k.primary <;> cases ct <;> decide

theorem toOption_mapError {ε ε' α : Type} (f : ε → ε') (x : Except ε α) :
    (x.mapError f).toOption = x.toOption := by
  cases x <;> rfl

/-- `plan_unique_like`, for columns that are there and not null and a table with partitions. -/
theorem planUniqueLike_writes (hr : '.' ∉ r.schema.toList)
    (hdots : ∀ p ∈ (obs.table r).partitionParts, '.' ∉ p.relation.schema.toList)
    (hpresent : (obs.table r).present = true)
    (hcolumns : ∀ c ∈ k.columns, ((obs.table r).columns[c]?).isSome = true)
    (hnull : nullableKeyColumns (obs.table r) k = [])
    (hkind : (obs.table r).kind = .partitionedTable) (hk : k.withoutOverlaps = false) :
    PlanWrites keyTexts (planUniqueLike env obs r k)
      (Planner.planUniqueLike (k.unique r false) ((obs.table r).uniqueRead k)) := by
  have hthere : (k.columns.any fun c => ((obs.table r).columns[c]?).isNone) = false := by
    rw [List.any_eq_false]
    intro c hc
    simpa using hcolumns c hc
  have hunfinished : (k.unique r false).unfinished ((obs.table r).uniqueRead k) =
      unfinished (obs.table r) k := by
    unfold Planner.UniqueIntent.unfinished unfinished TableObs.uniqueRead
    rw [hkind]
    cases (obs.table r).constraints[k.name]? with
    | none => rfl
    | some c =>
      have hletter := letter_type r k false c.type
      have hsame : decide (some c.type.letter = some (k.unique r false).contype) =
          (some c.type == some k.type) := by
        rw [beq_eq_decide, decide_eq_decide, Option.some_inj, Option.some_inj]
        exact hletter
      simp only [Option.map_some, hsame, beq_self_eq_true, Bool.true_and]
  have hrecipe := planKeyOnPartitions_writes hr hdots hk
  have hcontains : (obs.table r).constraints.contains k.name =
      ((obs.table r).constraints[k.name]?).isSome := Std.TreeMap.contains_eq_isSome_getElem?
  unfold planUniqueLike Planner.planUniqueLike
  simp only [hpresent, hthere, hnull, hkind, hk, Bool.not_true, Bool.false_eq_true, if_false,
    hunfinished]
  refine ite_writes ?there (ite_writes ?same (satisfied_writes rfl (kind_ne_verify _) rfl) .none)
    (ite_writes ?other .none ?recipe)
  case there =>
    rw [Bool.and_eq_true, TableObs.uniqueRead, Option.isSome_map]
  case same =>
    rw [TableObs.uniqueRead]
    cases (obs.table r).constraints[k.name]? with
    | none => exact iff_of_false (by simp) (by simp)
    | some c =>
      rw [Option.map_some, Option.map_some, Option.some_inj, Option.some_inj]
      exact (letter_type r k false c.type).symm
  case other =>
    rw [Bool.and_eq_true, Bool.and_eq_true, and_assoc]
    exact Iff.rfl
  case recipe =>
    have hsteps : (do
        let flags ← ([] : List String).mapM fun c => planSetNotNull env obs r c false
        if True then do
          let steps ← planKeyOnPartitions r (obs.table r) k
          some (flags.flatten ++ steps)
        else do
          let steps ← some (planOrdinaryKey env obs r k)
          some (flags.flatten ++ steps)) = planKeyOnPartitions r (obs.table r) k := by
      cases planKeyOnPartitions r (obs.table r) k <;> rfl
    have hpresent : ((obs.table r).uniqueRead k).constraint.isSome =
        (obs.table r).constraints.contains k.name := by
      rw [hcontains, TableObs.uniqueRead, Option.isSome_map]
    rw [hsteps, hpresent]
    unfold PlanWrites at hrecipe ⊢
    rw [toOption_mapError]
    exact hrecipe

end Key

end Projection
end Laswell
