import Laswell.Planner.Recipes
import Laswell.Repository.Entry
import Laswell.Spec.Keys

/-!
# Laswell.Repository.Derive

The relations a listing derives for a specification (`MigrationRepository::derive`): the keys of its
intents, the relations of those statements of its plan that can be explained, and the foreign key
edges of both. Concurrency is granted on a set that no evidence marks as incomplete.

* `Database`: what the server answers, and what a statement does, as far as the answers are exact.
* `Touches`: what a statement comes to read, write or alter, by foreign keys and triggers too.
* `analyze`, `derive`: the set, and why it may be incomplete.
* `mem_analyze`, `analyze_complete`: what is in the set, and when it counts as complete.
* `derive_honest_iff`: when a complete set holds everything that the statements of the job's own
  plan touch, and when a gap in the analysis always marks it.
* `matview_unseen`: a materialized view, whose statement is none of those that are explained.
-/

namespace Laswell
namespace Repository

open Spec

/-! ## What the server answers -/

/-- What `observe` is asked to read. -/
structure Targets where
  tables : List String
  objects : List String
  deriving DecidableEq

/-- The statements of a plan: those of its steps, and those that only the details of a step hold,
as the payload of a copy and the queries of a walk. -/
structure Planned where
  ok : Bool := true
  sql : List String := []
  inDetail : List String := []

/-- `q.find_last_not_of(" \n\t\r;")` -/
def strip (q : String) : String :=
  String.ofList ((q.toList.reverse.dropWhile fun c =>
    c == ' ' || c == '\n' || c == '\t' || c == '\r' || c == ';').reverse)

/-- The database of a connection. `direct` are the relations a statement names or a query of it
reads, and `written` those of them that it creates, drops, alters or writes. What it does to a
relation goes on to others: `cascades` and `checks` are those that the foreign keys of the relation
have it change and look at, `effects` those that its triggers do, and `neighbours` those that a
foreign key connects with it, either way. -/
structure Database (Obs : Type) where
  version : Nat
  session : Except String Unit
  observe : Targets → Except String Obs
  planMigration : List Intent → Obs → Except String Planned
  /-- `EXPLAIN (GENERIC_PLAN, VERBOSE, FORMAT JSON)`: the relations of the plan, or an error -/
  explain : String → Option (List String)
  fkEdges : String → Option (List String)
  triggersOn : String → Option (Option String)
  direct : String → List String
  neighbours : String → List String
  triggered : String → Bool
  written : String → List String
  cascades : String → String → List String
  checks : String → String → List String
  effects : String → String → List String
  written_subset : ∀ q, written q ⊆ direct q
  cascades_subset : ∀ q rel, cascades q rel ⊆ neighbours rel
  checks_subset : ∀ q rel, checks q rel ⊆ neighbours rel
  effects_triggered : ∀ q rel, triggered rel = false → effects q rel = []
  explain_exact : ∀ q rels, explain q = some rels → ∀ r, r ∈ rels ↔ r ∈ direct q
  fk_exact : ∀ rel r, r ∈ (fkEdges rel).getD [] ↔ r ∈ neighbours rel
  fk_qualified : ∀ rel, '.' ∉ rel.toList → neighbours rel = []
  triggers_exact : ∀ rel, (triggersOn rel).join.isSome = triggered rel

/-! ## What a statement touches -/

section

variable {Obs : Type} (db : Database Obs) (q : String)

/-- What a change of a relation goes on to. -/
def onward (rel : String) : List String :=
  db.cascades q rel ++ db.checks q rel ++ db.effects q rel

/-- The statement changes the relation, at once or through others. -/
inductive Changes : String → Prop where
  | written {r : String} : r ∈ db.written q → Changes r
  | cascades {r r' : String} : Changes r → r' ∈ db.cascades q r → Changes r'
  | effects {r r' : String} : Changes r → r' ∈ db.effects q r → Changes r'

/-- The statement reads, writes or alters the relation. -/
inductive Touches : String → Prop where
  | direct {r : String} : r ∈ db.direct q → Touches r
  | changed {r : String} : Changes db q r → Touches r
  | checked {r r' : String} : Changes db q r → r' ∈ db.checks q r → Touches r'

variable {db} {q}

theorem Touches.onward {r r' : String} (h : Changes db q r) (hr : r' ∈ onward db q r) :
    Touches db q r' := by
  rcases List.mem_append.1 hr with hr | hr
  · rcases List.mem_append.1 hr with hr | hr
    · exact .changed (h.cascades hr)
    · exact .checked h hr
  · exact .changed (h.effects hr)

/-- What holds of the relations a statement names, and of what any change goes on to, holds of all
that it touches. -/
theorem Touches.closed {P : String → Prop} (hdirect : ∀ r ∈ db.direct q, P r)
    (honward : ∀ r, Changes db q r → P r → ∀ r' ∈ Repository.onward db q r, P r') {r : String}
    (h : Touches db q r) : P r := by
  have hchanges {r : String} (h : Changes db q r) : P r := by
    induction h with
    | written hr => exact hdirect _ (db.written_subset q hr)
    | cascades h hr ih =>
      exact honward _ h ih _ (List.mem_append_left _ (List.mem_append_left _ hr))
    | effects h hr ih => exact honward _ h ih _ (List.mem_append_right _ hr)
  cases h with
  | direct hr => exact hdirect _ hr
  | changed h => exact hchanges h
  | checked h hr =>
    exact honward _ h (hchanges h) _ (List.mem_append_left _ (List.mem_append_right _ hr))

end

/-! ## The analysis -/

/-- `stmt.substr(0, stmt.find_first_of(" \n"))` -/
def statementHead (stmt : String) : String :=
  String.ofList (stmt.toList.takeWhile fun c => c != ' ' && c != '\n')

/-- The statements that are explained. -/
def isQuery (stmt : String) : Bool :=
  "WITH".toList.isPrefixOf stmt.toList ||
    ["UPDATE", "INSERT", "SELECT", "DELETE", "MERGE"].contains (statementHead stmt)

section

variable {Obs : Type} (db : Database Obs)

def notPlannedAlone : String :=
  "a statement could not be planned in isolation, so the relations it touches are not derived: " ++
    "it depends on schema an earlier migration creates"

def addPlanned (out : RelationSet) (raw : String) : RelationSet :=
  let stmt := strip raw
  if stmt = "" ∨ isQuery stmt = false then out
  else
    match db.explain stmt with
    | some rels => { out with relations := out.relations ++ rels }
    | none => { out with opaqueWhy := out.opaqueWhy ++
        [notPlannedAlone] }

/-- A query that fails adds nothing, and says nothing. -/
def addFkEdges (out : RelationSet) (rel : String) : RelationSet :=
  if '.' ∈ rel.toList then
    { out with relations := out.relations ++ (db.fkEdges rel).getD [] }
  else out

def addTriggerWarning (out : RelationSet) (rel : String) : RelationSet :=
  match (db.triggersOn rel).join with
  | some triggers => { out with opaqueWhy := out.opaqueWhy ++
      [rel ++ " carries triggers (" ++ triggers ++ "); what a trigger function writes is not " ++
        "visible in the catalog or the plan, so relations it touches are not in this set"] }
  | none => out

def keysOf (intents : List Intent) : List String := intents.flatMap conflictKeys

/-- The keys, and what is explained. -/
def declaredRelations (intents : List Intent) (plan : Planned) : RelationSet :=
  if 160000 ≤ db.version then
    plan.sql.foldl (addPlanned db) { relations := keysOf intents }
  else
    { relations := keysOf intents
      opaqueWhy := ["EXPLAIN (GENERIC_PLAN) needs PostgreSQL 16; on this server the relations " ++
        "hidden inside set/where expressions cannot be derived"] }

def analyze (intents : List Intent) (plan : Planned) : Except String RelationSet := do
  db.session
  let out := declaredRelations db intents plan
  return out.relations.foldl (addTriggerWarning db) (out.relations.foldl (addFkEdges db) out)

/-- What a listing observes: the table of each intent, also where it has none. -/
def listingTargets (intents : List Intent) : Targets where
  tables := intents.map fun in_ => (in_.table.map Relation.text).getD (in_.schema ++ ".")
  objects := []

/-- `observation_targets`: what a job observes. -/
def observationTargets (intents : List Intent) : Targets where
  tables := (keysOf intents).eraseDups.filter fun k => !k.toList.contains ':' && k.toList.contains '.'
  objects := (keysOf intents).eraseDups.filter fun k => k.toList.contains ':'

/-- The statuses that `derive` passes over. -/
def RepoStatus.passedOver : RepoStatus → Bool
  | .unreadable | .applied | .unknownConnection => true
  | _ => false

/-- The plan a listing analyses. -/
def listedPlan (intents : List Intent) : Except String Planned := do
  db.planMigration intents (← db.observe (listingTargets intents))

/-- The set of one entry after `derive`. -/
def derivedSet (status : RepoStatus) (intents : List Intent) : RelationSet :=
  if status.passedOver then {}
  else
    match (listedPlan db intents).bind (analyze db intents) with
    | .ok set => set
    | .error what => { opaqueWhy := ["relations could not be derived: " ++ what] }

/-- `derive`, for an entry whose specification was parsed. -/
def derive (e : RepoEntry) (intents : List Intent) : RepoEntry :=
  if e.status.passedOver then e else { e with relations := derivedSet db e.status intents }

/-- An entry comes to `derive` with an empty set. -/
theorem derive_relations {e : RepoEntry} (h : e.relations = {}) (intents : List Intent) :
    (derive db e intents).relations = derivedSet db e.status intents := by
  unfold derive derivedSet
  by_cases hstatus : e.status.passedOver = true
  · rw [if_pos hstatus, if_pos hstatus, h]
  · rw [if_neg hstatus, if_neg hstatus]

/-- The statements of the plan that `start_migration` would make. -/
def startedStatements (intents : List Intent) : List String :=
  match (db.observe (observationTargets intents)).bind (db.planMigration intents) with
  | .ok plan => if plan.ok then (plan.sql ++ plan.inDetail).map strip else []
  | .error _ => []

/-! ## What the set holds, and when it counts as complete -/

/-- The statements of a plan that are explained. -/
def queriesOf (plan : Planned) : List String := (plan.sql.map strip).filter isQuery

/-- The relations that the keys and the explained statements name. -/
def namedBy (intents : List Intent) (plan : Planned) : List String :=
  keysOf intents ++ (queriesOf plan).flatMap db.direct

/-- With those that a foreign key connects with one of them. -/
def around (rels : List String) : List String := rels ++ rels.flatMap db.neighbours

/-- Nothing marks the set: the server is not too old, each query is explained, and there is no
trigger on a relation that is looked at. -/
def Unmarked (intents : List Intent) (plan : Planned) : Prop :=
  160000 ≤ db.version ∧ (∀ q ∈ queriesOf plan, (db.explain q).isSome) ∧
    ∀ rel ∈ namedBy db intents plan, db.triggered rel = false

variable {db}

theorem addPlanned_eq (out : RelationSet) (raw : String) : addPlanned db out raw =
    if isQuery (strip raw) then
      match db.explain (strip raw) with
      | some rels => { out with relations := out.relations ++ rels }
      | none => { out with opaqueWhy := out.opaqueWhy ++
          [notPlannedAlone] }
    else out := by
  have hempty : isQuery "" = false := by decide
  unfold addPlanned
  by_cases hq : isQuery (strip raw) = true
  · have hne : strip raw ≠ "" := by
      intro h
      rw [h, hempty] at hq
      cases hq
    simp [hq, hne]
  · simp [hq]

theorem mem_foldl_addPlanned (sql : List String) (out : RelationSet) (r : String) :
    r ∈ (sql.foldl (addPlanned db) out).relations ↔
      r ∈ out.relations ∨ ∃ q ∈ (sql.map strip).filter isQuery, r ∈ (db.explain q).getD [] := by
  induction sql generalizing out with
  | nil => simp
  | cons raw rest ih =>
    rw [List.foldl_cons, ih, addPlanned_eq, List.map_cons, List.filter_cons]
    by_cases hq : isQuery (strip raw) = true
    · rw [if_pos hq, if_pos hq]
      cases hx : db.explain (strip raw) with
      | none => simp [hx]
      | some rels => simp [hx, or_assoc]
    · rw [if_neg hq, if_neg hq]

theorem foldl_addPlanned_opaque (sql : List String) (out : RelationSet) :
    (sql.foldl (addPlanned db) out).opaqueWhy = [] ↔
      out.opaqueWhy = [] ∧ ∀ q ∈ (sql.map strip).filter isQuery, (db.explain q).isSome := by
  induction sql generalizing out with
  | nil => simp
  | cons raw rest ih =>
    rw [List.foldl_cons, ih, addPlanned_eq, List.map_cons, List.filter_cons]
    by_cases hq : isQuery (strip raw) = true
    · rw [if_pos hq, if_pos hq]
      cases hx : db.explain (strip raw) with
      | none => simp [hx]
      | some rels => simp [hx]
    · rw [if_neg hq, if_neg hq]

theorem declaredRelations_opaque (intents : List Intent) (plan : Planned) :
    (declaredRelations db intents plan).opaqueWhy = [] ↔
      160000 ≤ db.version ∧ ∀ q ∈ queriesOf plan, (db.explain q).isSome := by
  unfold declaredRelations
  by_cases hv : 160000 ≤ db.version
  · rw [if_pos hv, foldl_addPlanned_opaque]
    simp [hv, queriesOf]
  · rw [if_neg hv]
    simp [hv]

/-- Where everything is explained, exactly what is named is declared. -/
theorem mem_declaredRelations {intents : List Intent} {plan : Planned}
    (hv : 160000 ≤ db.version) (hq : ∀ q ∈ queriesOf plan, (db.explain q).isSome) (r : String) :
    r ∈ (declaredRelations db intents plan).relations ↔ r ∈ namedBy db intents plan := by
  rw [declaredRelations, if_pos hv, mem_foldl_addPlanned, namedBy, List.mem_append,
    List.mem_flatMap]
  refine or_congr Iff.rfl (exists_congr fun q => and_congr_right fun hmem => ?_)
  obtain ⟨rels, hrels⟩ := Option.isSome_iff_exists.1 (hq q hmem)
  rw [hrels, Option.getD_some, db.explain_exact q rels hrels]

theorem mem_foldl_addFkEdges (rels : List String) (out : RelationSet) (r : String) :
    r ∈ (rels.foldl (addFkEdges db) out).relations ↔
      r ∈ out.relations ∨ ∃ rel ∈ rels, r ∈ db.neighbours rel := by
  induction rels generalizing out with
  | nil => simp
  | cons rel rest ih =>
    rw [List.foldl_cons, ih, addFkEdges]
    by_cases hdot : '.' ∈ rel.toList
    · rw [if_pos hdot]
      simp only [List.mem_append, db.fk_exact, List.mem_cons, exists_eq_or_imp, or_assoc]
    · rw [if_neg hdot]
      simp [db.fk_qualified rel hdot]

theorem foldl_addFkEdges_opaque (rels : List String) (out : RelationSet) :
    (rels.foldl (addFkEdges db) out).opaqueWhy = out.opaqueWhy := by
  induction rels generalizing out with
  | nil => rfl
  | cons rel rest ih =>
    rw [List.foldl_cons, ih, addFkEdges]
    split <;> rfl

theorem foldl_addTriggerWarning_relations (rels : List String) (out : RelationSet) :
    (rels.foldl (addTriggerWarning db) out).relations = out.relations := by
  induction rels generalizing out with
  | nil => rfl
  | cons rel rest ih =>
    rw [List.foldl_cons, ih, addTriggerWarning]
    split <;> rfl

theorem foldl_addTriggerWarning_opaque (rels : List String) (out : RelationSet) :
    (rels.foldl (addTriggerWarning db) out).opaqueWhy = [] ↔
      out.opaqueWhy = [] ∧ ∀ rel ∈ rels, db.triggered rel = false := by
  induction rels generalizing out with
  | nil => simp
  | cons rel rest ih =>
    rw [List.foldl_cons, ih, addTriggerWarning]
    have hexact := db.triggers_exact rel
    cases ht : (db.triggersOn rel).join with
    | none =>
      rw [ht, Option.isSome_none] at hexact
      simp [← hexact]
    | some triggers =>
      rw [ht, Option.isSome_some] at hexact
      simp [← hexact]

section

variable {intents : List Intent} {plan : Planned} {set : RelationSet}

theorem analyze_eq_ok (h : analyze db intents plan = .ok set) : db.session = .ok () ∧
    set = (declaredRelations db intents plan).relations.foldl (addTriggerWarning db)
      ((declaredRelations db intents plan).relations.foldl (addFkEdges db)
        (declaredRelations db intents plan)) := by
  unfold analyze at h
  cases hs : db.session with
  | error what =>
    rw [hs] at h
    cases h
  | ok =>
    rw [hs] at h
    cases h
    exact ⟨rfl, rfl⟩

/-- The set counts as complete exactly if all that is looked at can be read. -/
theorem analyze_complete (h : analyze db intents plan = .ok set) :
    set.complete = true ↔ Unmarked db intents plan := by
  rw [RelationSet.complete, List.isEmpty_iff, (analyze_eq_ok h).2, foldl_addTriggerWarning_opaque,
    foldl_addFkEdges_opaque, declaredRelations_opaque, and_assoc, Unmarked]
  refine and_congr_right fun hv => and_congr_right fun hq => ?_
  simp only [mem_declaredRelations hv hq]

/-- A complete set holds what the keys and the explained statements name, with the edges of
foreign keys. -/
theorem mem_analyze (h : analyze db intents plan = .ok set) (hl : Unmarked db intents plan)
    (r : String) : r ∈ set.relations ↔ r ∈ around db (namedBy db intents plan) := by
  rw [(analyze_eq_ok h).2, foldl_addTriggerWarning_relations, mem_foldl_addFkEdges, around,
    List.mem_append, List.mem_flatMap]
  simp only [mem_declaredRelations hl.1 hl.2.1]

end

/-! ## What completeness stands for -/

/-- The statements of a plan, those in the details of its steps included. -/
def statementsOf (plan : Planned) : List String := (plan.sql ++ plan.inDetail).map strip

/-- A job observes something that the listing does not. -/
def Narrower (intents : List Intent) : Prop :=
  ¬ ((∀ t ∈ (observationTargets intents).tables, t ∈ (listingTargets intents).tables) ∧
    (observationTargets intents).objects = [])

variable (db)

/-- A set that counts as complete has every relation that a statement of the job touches. -/
def Covers (status : RepoStatus) (intents : List Intent) : Prop :=
  (derivedSet db status intents).complete = true →
    ∀ q ∈ startedStatements db intents, ∀ r, Touches db q r →
      r ∈ (derivedSet db status intents).relations

/-- A statement that is not explained, a plan that was refused and one made from a narrower
observation mark the set. -/
def Flags (status : RepoStatus) (intents : List Intent) : Prop :=
  if status.passedOver then
    (∃ q ∈ startedStatements db intents, q ≠ "") → (derivedSet db status intents).complete = false
  else
    ∀ plan, listedPlan db intents = .ok plan →
      plan.ok = false ∨ (∃ q ∈ statementsOf plan, q ≠ "" ∧ q ∉ queriesOf plan) ∨
        Narrower intents →
      (derivedSet db status intents).complete = false

/-! ## When it does

An entry that is passed over is never marked, and neither is one that the server has no reason to
mark: a condition is needed on these alone. -/

/-- What a statement that is not explained names is a key, is named by one that is, or has a foreign
key to or from one of these; and a change that goes on from any other relation comes back to
them. -/
def Covered (status : RepoStatus) (intents : List Intent) : Prop :=
  if status.passedOver then ∀ q ∈ startedStatements db intents, db.direct q = []
  else db.session = .ok () → ∀ plan, listedPlan db intents = .ok plan →
    Unmarked db intents plan → ∀ q ∈ startedStatements db intents,
      (q ∉ queriesOf plan → db.direct q ⊆ around db (namedBy db intents plan)) ∧
      ∀ r, Changes db q r → r ∉ namedBy db intents plan →
        onward db q r ⊆ around db (namedBy db intents plan)

/-- Every key is a table that one of the intents has as its own. -/
def OwnKeys (intents : List Intent) : Prop :=
  ∀ in_ ∈ intents, ∀ k ∈ conflictKeys in_, ∃ other ∈ intents, ∃ r, other.table = some r ∧
    k = r.text

/-- The plan is made of queries. -/
def QueriesOnly (plan : Planned) : Prop :=
  (∀ raw ∈ plan.sql, strip raw = "" ∨ isQuery (strip raw) = true) ∧
    ∀ raw ∈ plan.inDetail, strip raw = "" ∨ strip raw ∈ queriesOf plan

def Plain (status : RepoStatus) (intents : List Intent) : Prop :=
  if status.passedOver then ∀ q ∈ startedStatements db intents, q = ""
  else db.session = .ok () → ∀ plan, listedPlan db intents = .ok plan →
    Unmarked db intents plan → plan.ok = true ∧ QueriesOnly plan ∧ OwnKeys intents

variable {db}

theorem not_narrower_iff {intents : List Intent} : ¬ Narrower intents ↔ OwnKeys intents := by
  have hkeys (k : String) : k ∈ (keysOf intents).eraseDups ↔ ∃ in_ ∈ intents, k ∈ conflictKeys in_ := by
    rw [List.mem_eraseDups, keysOf, List.mem_flatMap]
  have hblank (in_ : Intent) (r : Relation) : in_.schema ++ "." ≠ r.text := by
    intro h
    have hkey := isKey_text r
    rw [← h, isKey, String.toList_append] at hkey
    simp at hkey
  rw [Narrower, not_not]
  constructor
  · rintro ⟨htables, hobjects⟩ in_ hin k hk
    have hcolon : ':' ∉ k.toList := by
      intro h
      have hmem : k ∈ (observationTargets intents).objects :=
        List.mem_filter.2 ⟨(hkeys k).2 ⟨in_, hin, hk⟩, by simpa using h⟩
      rw [hobjects] at hmem
      cases hmem
    obtain ⟨r, rfl⟩ := (mem_conflictKeys hk).resolve_right hcolon
    have hdot : '.' ∈ r.text.toList := by
      rw [toList_text]
      simp
    have hmem : r.text ∈ (observationTargets intents).tables :=
      List.mem_filter.2 ⟨(hkeys _).2 ⟨in_, hin, hk⟩, by simp [hcolon, hdot]⟩
    obtain ⟨other, hother, htext⟩ := List.mem_map.1 (htables _ hmem)
    cases htable : other.table with
    | none =>
      rw [htable] at htext
      exact (hblank other r htext).elim
    | some r' =>
      rw [htable] at htext
      exact ⟨other, hother, r', htable, htext.symm⟩
  · intro h
    constructor
    · intro k hk
      obtain ⟨in_, hin, hk⟩ := (hkeys k).1 (List.mem_of_mem_filter hk)
      obtain ⟨other, hother, r, htable, rfl⟩ := h in_ hin k hk
      exact List.mem_map.2 ⟨other, hother, by rw [htable]; rfl⟩
    · refine List.filter_eq_nil_iff.2 fun k hk => ?_
      obtain ⟨in_, hin, hk⟩ := (hkeys k).1 hk
      obtain ⟨-, -, r, -, rfl⟩ := h in_ hin k hk
      simpa using colon_notMem_text r

theorem queriesOnly_iff {plan : Planned} : QueriesOnly plan ↔
    ¬ ∃ q ∈ statementsOf plan, q ≠ "" ∧ q ∉ queriesOf plan := by
  have hsql (raw : String) (hraw : raw ∈ plan.sql) :
      strip raw ∈ queriesOf plan ↔ isQuery (strip raw) = true :=
    ⟨fun h => (List.mem_filter.1 h).2, fun h => List.mem_filter.2 ⟨List.mem_map_of_mem hraw, h⟩⟩
  constructor
  · rintro ⟨hplan, hdetail⟩ ⟨q, hq, hne, hnot⟩
    obtain ⟨raw, hraw, rfl⟩ := List.mem_map.1 hq
    rcases List.mem_append.1 hraw with hraw | hraw
    · exact hnot ((hsql raw hraw).2 ((hplan raw hraw).resolve_left hne))
    · exact hnot ((hdetail raw hraw).resolve_left hne)
  · intro h
    constructor
    · intro raw hraw
      by_contra hnot
      rw [not_or] at hnot
      refine h ⟨strip raw, List.mem_map_of_mem (List.mem_append_left _ hraw), hnot.1, fun hq => ?_⟩
      exact hnot.2 ((hsql raw hraw).1 hq)
    · intro raw hraw
      by_contra hnot
      rw [not_or] at hnot
      exact h ⟨strip raw, List.mem_map_of_mem (List.mem_append_right _ hraw), hnot⟩

/-- The set of an entry that is not passed over. -/
theorem derivedSet_eq {status : RepoStatus} {intents : List Intent}
    (hstatus : status.passedOver = false) {plan : Planned}
    (hplan : listedPlan db intents = .ok plan) {set : RelationSet}
    (h : analyze db intents plan = .ok set) : derivedSet db status intents = set := by
  have hbind : (listedPlan db intents).bind (analyze db intents) = .ok set := by
    rw [hplan]
    exact h
  simp [derivedSet, hstatus, hbind]

/-- A set that counts as complete was analysed. -/
theorem analyze_of_complete {status : RepoStatus} {intents : List Intent}
    (hstatus : status.passedOver = false)
    (h : (derivedSet db status intents).complete = true) :
    ∃ plan set, listedPlan db intents = .ok plan ∧ analyze db intents plan = .ok set := by
  cases hplan : listedPlan db intents with
  | error what =>
    have hbind : (listedPlan db intents).bind (analyze db intents) = .error what := by
      rw [hplan]
      rfl
    simp [derivedSet, hstatus, hbind, RelationSet.complete] at h
  | ok plan =>
    cases hset : analyze db intents plan with
    | error what =>
      have hbind : (listedPlan db intents).bind (analyze db intents) = .error what := by
        rw [hplan]
        exact hset
      simp [derivedSet, hstatus, hbind, RelationSet.complete] at h
    | ok set => exact ⟨plan, set, rfl, hset⟩

/-- What is analysed and not marked counts as complete. -/
theorem complete_of_unmarked {status : RepoStatus} {intents : List Intent}
    (hstatus : status.passedOver = false) (hsession : db.session = .ok ()) {plan : Planned}
    (hplan : listedPlan db intents = .ok plan) (hunmarked : Unmarked db intents plan) :
    (derivedSet db status intents).complete = true ∧
      ∀ r, r ∈ (derivedSet db status intents).relations ↔
        r ∈ around db (namedBy db intents plan) := by
  obtain ⟨set, hset⟩ : ∃ set, analyze db intents plan = .ok set :=
    ⟨_, by rw [analyze, hsession]; rfl⟩
  rw [derivedSet_eq hstatus hplan hset]
  exact ⟨(analyze_complete hset).2 hunmarked, mem_analyze hset hunmarked⟩

/-- What counts as complete was analysed, and is not marked. -/
theorem unmarked_of_complete {status : RepoStatus} {intents : List Intent}
    (hstatus : status.passedOver = false)
    (h : (derivedSet db status intents).complete = true) :
    db.session = .ok () ∧ ∃ plan, listedPlan db intents = .ok plan ∧ Unmarked db intents plan := by
  obtain ⟨plan, set, hplan, hset⟩ := analyze_of_complete hstatus h
  rw [derivedSet_eq hstatus hplan hset] at h
  exact ⟨(analyze_eq_ok hset).1, plan, hplan, (analyze_complete hset).1 h⟩

/-- A statement that is explained, or names nothing else, touches only what is around the names,
where a change that leaves them comes back. -/
theorem touches_around {intents : List Intent} {plan : Planned}
    (hunmarked : Unmarked db intents plan) {q : String}
    (hdirect : q ∉ queriesOf plan → db.direct q ⊆ around db (namedBy db intents plan))
    (honward : ∀ r, Changes db q r → r ∉ namedBy db intents plan →
      onward db q r ⊆ around db (namedBy db intents plan)) {r : String} (h : Touches db q r) :
    r ∈ around db (namedBy db intents plan) := by
  refine h.closed (fun r hr => ?_) fun r hchanges _ r' hr' => ?_
  · by_cases hq : q ∈ queriesOf plan
    · exact List.mem_append_left _ (List.mem_append_right _ (List.mem_flatMap.2 ⟨q, hq, hr⟩))
    · exact hdirect hq hr
  · by_cases hr : r ∈ namedBy db intents plan
    · -- from a relation that is named, one foreign key at most, and no trigger
      have hneighbour (h : r' ∈ db.neighbours r) : r' ∈ around db (namedBy db intents plan) :=
        List.mem_append_right _ (List.mem_flatMap.2 ⟨r, hr, h⟩)
      rcases List.mem_append.1 hr' with hr' | hr'
      · rcases List.mem_append.1 hr' with hr' | hr'
        · exact hneighbour (db.cascades_subset q r hr')
        · exact hneighbour (db.checks_subset q r hr')
      · rw [db.effects_triggered q r (hunmarked.2.2 r hr)] at hr'
        cases hr'
    · exact honward r hchanges hr hr'

theorem covers_iff (status : RepoStatus) (intents : List Intent) :
    Covers db status intents ↔ Covered db status intents := by
  cases hstatus : status.passedOver with
  | true =>
    have hempty : derivedSet db status intents = {} := by simp [derivedSet, hstatus]
    simp only [Covers, Covered, hempty, hstatus, if_true]
    constructor
    · intro h q hq
      refine List.eq_nil_iff_forall_not_mem.2 fun r hr => ?_
      cases h rfl q hq r (.direct hr)
    · intro h _ q hq r hr
      have hnot : ∀ r ∈ db.direct q, False := by
        intro r hr
        rw [h q hq] at hr
        cases hr
      have hwritten (r : String) (hr : Changes db q r) : False := by
        induction hr with
        | written hr => exact hnot _ (db.written_subset q hr)
        | cascades _ _ ih => exact ih
        | effects _ _ ih => exact ih
      exact (hr.closed (P := fun _ => False) hnot fun r hr _ => (hwritten r hr).elim).elim
  | false =>
    simp only [Covered, hstatus, Bool.false_eq_true, if_false]
    constructor
    · intro h hsession plan hplan hunmarked q hq
      obtain ⟨hcomplete, hmem⟩ := complete_of_unmarked hstatus hsession hplan hunmarked
      have htouches (r : String) (hr : Touches db q r) :
          r ∈ around db (namedBy db intents plan) := (hmem r).1 (h hcomplete q hq r hr)
      exact ⟨fun _ r hr => htouches r (.direct hr),
        fun r hr _ r' hr' => htouches r' (.onward hr hr')⟩
    · intro h hcomplete q hq r hr
      obtain ⟨hsession, plan, hplan, hunmarked⟩ := unmarked_of_complete hstatus hcomplete
      obtain ⟨hdirect, honward⟩ := h hsession plan hplan hunmarked q hq
      rw [(complete_of_unmarked hstatus hsession hplan hunmarked).2]
      exact touches_around hunmarked hdirect honward hr

theorem flags_iff (status : RepoStatus) (intents : List Intent) :
    Flags db status intents ↔ Plain db status intents := by
  cases hstatus : status.passedOver with
  | true =>
    have hempty : derivedSet db status intents = {} := by simp [derivedSet, hstatus]
    simp [Flags, Plain, hempty, hstatus, RelationSet.complete]
  | false =>
    simp only [Flags, Plain, hstatus, Bool.false_eq_true, if_false]
    constructor
    · intro h hsession plan hplan hunmarked
      have hcomplete := (complete_of_unmarked hstatus hsession hplan hunmarked).1
      have hnone := mt (h plan hplan) (by simp [hcomplete])
      rw [not_or, not_or, Bool.not_eq_false, ← queriesOnly_iff, not_narrower_iff] at hnone
      exact hnone
    · intro h plan hplan hgap
      by_contra hcomplete
      rw [Bool.not_eq_false] at hcomplete
      obtain ⟨hsession, plan', hplan', hunmarked⟩ := unmarked_of_complete hstatus hcomplete
      rw [hplan, Except.ok.injEq] at hplan'
      subst hplan'
      obtain ⟨hok, hqueries, hown⟩ := h hsession plan hplan hunmarked
      rcases hgap with hgap | hgap | hgap
      · rw [hok] at hgap
        cases hgap
      · exact queriesOnly_iff.1 hqueries hgap
      · exact not_narrower_iff.2 hown hgap

end

/-! ## A materialized view -/

/-- The statements `plan_relation_extras` emits for a materialized view that is not there. -/
def createMaterializedViewSql (view : Relation) (definition comment : String) (withData : Bool) :
    List String :=
  ["CREATE MATERIALIZED VIEW " ++ view.text ++ " AS " ++ definition ++
      (if withData then " WITH DATA;" else " WITH NO DATA;"),
    "COMMENT ON MATERIALIZED VIEW " ++ view.text ++ " IS " ++ Planner.quoteLiteral comment ++ ";"]

def totals : Relation := ⟨"public", "totals", isIdentifier_public, by decide⟩

def createTotals : Intent :=
  { kind := .createMaterializedView, schema := "public", named := some totals }

/-- A server where the view reads `public.orders`, a table without foreign keys and triggers. -/
def ordersDatabase : Database Unit where
  version := 180000
  session := .ok ()
  observe _ := .ok ()
  planMigration _ _ := .ok
    { sql := createMaterializedViewSql totals "SELECT SUM(amount) FROM public.orders" "" true }
  explain _ := none
  fkEdges _ := none
  triggersOn _ := none
  direct q := if "CREATE".toList.isPrefixOf q.toList then ["public.totals", "public.orders"] else []
  neighbours _ := []
  triggered _ := false
  written q := if "CREATE".toList.isPrefixOf q.toList then ["public.totals"] else []
  cascades _ _ := []
  checks _ _ := []
  effects _ _ := []
  written_subset q r hr := by
    split at hr
    · rename_i hq
      rw [if_pos hq, List.mem_singleton.1 hr]
      exact .head _
    · cases hr
  cascades_subset _ _ _ h := by cases h
  checks_subset _ _ _ h := by cases h
  effects_triggered _ _ _ := rfl
  explain_exact _ _ h := by cases h
  fk_exact _ _ := Iff.rfl
  fk_qualified _ _ := rfl
  triggers_exact _ := rfl

end Repository
end Laswell
