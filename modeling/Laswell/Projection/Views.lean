import Mathlib.Data.Set.Basic
import Mathlib.Logic.Function.Basic
import Laswell.Planner.Steps
import Laswell.Projection.Observed

/-!
# Laswell.Projection.Views

The intents on views: `replace_view`, `create_materialized_view` and `drop_view`. They name their
relation in `name`, and `project` looks at `table` first, so it never comes to their cases.

* `planView`: the step of one intent, from the observations it is given.
* `Server.exec`: what the statements do to the views of a catalog.
* `project_eq`: the observations stay as they were before the specification.
* `planned_against_left_iff`: each intent is planned against what the steps before it leave exactly
  when every intent but the last leaves the starting catalog as it is.
-/

namespace Laswell
namespace Projection
namespace Views

open Planner (Action)

/-! ## Planning -/

/-- `kind` of a relation, `other` with the text of the reading. -/
inductive Kind where
  | view
  | materializedView
  | other (text : String)
deriving DecidableEq

def Kind.text : Kind → String
  | .view => "view"
  | .materializedView => "materialized_view"
  | .other text => text

def Kind.isView : Kind → Bool
  | .other _ => false
  | _ => true

/-- What the planner reads of a relation before it plans one of these intents. -/
structure RelationObs where
  /-- `exists` -/
  present : Bool := false
  kind : Option Kind := none
  /-- `view_definition` -/
  definition : String := ""
  reloptions : List String := []
  owner : String := ""
  /-- `dependent_views`, in the order of their names -/
  dependentViews : List Rel := []

abbrev Observations := Rel → Option RelationObs

def Observations.table (obs : Observations) (r : Rel) : RelationObs := (obs r).getD {}

inductive ViewIntent where
  | replaceView (r : Rel) (definition : String) (comment : Option String)
  | createMaterializedView (r : Rel) (definition comment : String) (withData : Bool)
  | dropView (r : Rel)

/-- `schema` and `name` -/
def ViewIntent.rel : ViewIntent → Rel
  | .replaceView r _ _ | .createMaterializedView r _ _ _ | .dropView r => r

/-- `Intent::table`: none of the three kinds has a key `table`, so it reads as empty. -/
def ViewIntent.table (_ : ViewIntent) : String := ""

/-- `Intent::qualified_table` -/
def ViewIntent.qualifiedTable (in_ : ViewIntent) : Rel :=
  { schema := in_.rel.schema, name := in_.table }

inductive ViewStatement where
  | createView (r : Rel) (definition : String)
  | replaceView (r : Rel) (definition : String)
  | createMaterializedView (r : Rel) (definition : String) (withData : Bool)
  | dropView (r : Rel)
  | dropMaterializedView (r : Rel)
  | commentOn (r : Rel) (comment : String)
  | setOptions (r : Rel) (options : List String)
  | ownerTo (r : Rel) (owner : String)

structure ViewStep where
  action : Action := .apply
  why : String
  conflicts : List String := []
  statements : List ViewStatement := []
  ownTransaction : Bool := false
  /-- `detail["method"]` -/
  method : Option String := none

def relText (r : Rel) : String := r.schema ++ "." ++ r.name

def isNotAView (r : Rel) (kind : Kind) (because : String) : ViewStep where
  action := .conflict
  why := relText r ++ " is a " ++ kind.text ++ ", not a view"
  conflicts := [relText r ++ " is a " ++ kind.text ++ because]

def planReplaceView (obs : Observations) (r : Rel) (definition : String)
    (comment : Option String) : ViewStep :=
  let v := obs.table r
  let kind := v.kind.getD (.other "")
  if v.present = false then
    { why := relText r ++ " does not exist, so this creates it"
      statements := .createView r definition :: (comment.map (.commentOn r)).toList
      method := some "create" }
  else
    match kind with
    | .other _ => isNotAView r kind (". replace_view will not turn a table into a view: that is " ++
        "a data loss dressed as a definition change.")
    | .view =>
      { why := "CREATE OR REPLACE keeps the comment, grants, column grants, INSTEAD " ++
          "OF triggers, owner and every dependent object -- so this is the cheap " ++
          "path, and it is available because the definition only appends columns"
        statements := .replaceView r definition ::
          if v.reloptions.isEmpty then [] else [.setOptions r v.reloptions]
        method := some "replace" }
    | .materializedView =>
      { why := "PostgreSQL has no CREATE OR REPLACE MATERIALIZED VIEW, so this is a " ++
          "drop and recreate: the query is re-run in full and everything attached " ++
          "to the old object has to be put back"
        statements := [.dropMaterializedView r, .createMaterializedView r definition true] ++
          if v.owner = "" then [] else [.ownerTo r v.owner]
        ownTransaction := true
        method := some "drop_and_recreate" }

def planCreateMaterializedView (obs : Observations) (r : Rel) (definition comment : String)
    (withData : Bool) : ViewStep :=
  if (obs.table r).present = true then
    { action := .satisfied, why := relText r ++ " already exists" }
  else
    { why :=
        if withData then "WITH DATA runs the query in full at creation, so this step costs " ++
          "whatever that query costs and holds read locks throughout"
        else "WITH NO DATA creates the definition and nothing else, so it is instant"
      statements := [.createMaterializedView r definition withData, .commentOn r comment]
      ownTransaction := withData }

def planDropView (obs : Observations) (r : Rel) : ViewStep :=
  let t := obs.table r
  let kind := t.kind.getD (.other "")
  if t.present = false then
    { action := .satisfied, why := relText r ++ " does not exist" }
  else if kind.isView = false then
    isNotAView r kind (". drop_view will not drop a table; drop_table is the intent that " ++
      "says so out loud, and warns about the data.")
  else if t.dependentViews ≠ [] then
    { action := .conflict
      why := relText r ++ " has views stacked on it"
      conflicts := ["cannot drop " ++ relText r ++ ": " ++
        ", ".intercalate (t.dependentViews.map relText) ++
        " read it. Drop them first, in earlier intents. CASCADE would take " ++
        "the whole stack, which is measured to leave zero views standing."] }
  else
    { why := "nothing reads " ++ relText r
      statements :=
        [if kind = .materializedView then .dropMaterializedView r else .dropView r] }

def planView (obs : Observations) : ViewIntent → ViewStep
  | .replaceView r definition comment => planReplaceView obs r definition comment
  | .createMaterializedView r definition comment withData =>
    planCreateMaterializedView obs r definition comment withData
  | .dropView r => planDropView obs r

/-- What the step will have changed, for the intents that follow. An intent without a table is left
to the modules, and none of them has these kinds. -/
def project (in_ : ViewIntent) (step : ViewStep) (projected : Observations) : Observations :=
  if step.action ≠ .apply then projected
  else if in_.table = "" then projected
  else if (projected in_.qualifiedTable).isNone then projected
  else
    match in_ with
    | .dropView _ => Function.update projected in_.qualifiedTable (some {})
    | .createMaterializedView r _ _ _ =>
      Function.update projected r (some { present := true, kind := some .materializedView })
    | .replaceView r definition _ =>
      let v := projected.table r
      Function.update projected r (some
        { v with present := true, kind := v.kind <|> some .view, definition := definition })

/-- The loop of `plan_migration`: each step, with the observations it was planned against. -/
def planMigration (projected : Observations) : List ViewIntent → List (Observations × ViewStep)
  | [] => []
  | in_ :: rest =>
    let step := planView projected in_
    (projected, step) :: planMigration (project in_ step projected) rest

theorem project_eq (in_ : ViewIntent) (step : ViewStep) (projected : Observations) :
    project in_ step projected = projected := by
  unfold project
  by_cases happly : step.action ≠ .apply
  · rw [if_pos happly]
  · have htable : in_.table = "" := rfl
    rw [if_neg happly, if_pos htable]

/-- Every intent is planned against the observations made before the specification. -/
theorem planMigration_eq (obs : Observations) (intents : List ViewIntent) :
    planMigration obs intents = intents.map fun in_ => (obs, planView obs in_) := by
  induction intents with
  | nil => rfl
  | cons in_ rest ih => simp [planMigration, project_eq, ih]

/-! ## The views of a catalog -/

structure Entry where
  kind : Kind
  definition : String

abbrev Catalog := Rel → Option Entry

/-- `reads`: the relations a query reads. `takes`: the server accepts the query as the relation's
definition; over a view that is there, its columns may only be appended. -/
structure Server where
  reads : String → List Rel
  takes : Catalog → Rel → String → Bool

section Servers

variable (s : Server)

/-- The views whose query reads the relation. -/
def Server.readers (c : Catalog) (r : Rel) : Set Rel :=
  { v | ∃ e, c v = some e ∧ e.kind.isView = true ∧ r ∈ s.reads e.definition }

def Server.create (c : Catalog) (r : Rel) (e : Entry) : Option Catalog :=
  if (c r).isNone && s.takes c r e.definition then some (Function.update c r (some e)) else none

open Classical in
/-- Nothing is dropped that another view reads, or under the wrong name for its kind. -/
noncomputable def Server.remove (c : Catalog) (r : Rel) (kind : Kind) : Option Catalog :=
  if (c r).map Entry.kind = some kind ∧ s.readers c r = ∅ then some (Function.update c r none)
  else none

/-- One statement, and none where the server refuses it. -/
noncomputable def Server.exec (c : Catalog) : ViewStatement → Option Catalog
  | .createView r definition => s.create c r { kind := .view, definition }
  | .createMaterializedView r definition _ => s.create c r { kind := .materializedView, definition }
  | .replaceView r definition =>
    if (c r).map Entry.kind = some .view ∧ s.takes c r definition = true then
      some (Function.update c r (some { kind := .view, definition }))
    else none
  | .dropView r => s.remove c r .view
  | .dropMaterializedView r => s.remove c r .materializedView
  | .commentOn r _ | .setOptions r _ | .ownerTo r _ => if (c r).isSome then some c else none

/-- The catalog a step leaves. One that the server refuses is rolled back. -/
noncomputable def Server.leave (c : Catalog) (step : ViewStep) : Catalog :=
  (step.statements.foldlM s.exec c).getD c

noncomputable def Server.leaves (c : Catalog) (steps : List ViewStep) : Catalog :=
  steps.foldl s.leave c

/-- The reading of a relation is that of the catalog: it is there or not, its kind, its definition
if it is a view, and the views that read it. -/
structure Server.Reads (c : Catalog) (r : Rel) (o : RelationObs) : Prop where
  present : o.present = (c r).isSome
  kind : ∀ e, c r = some e → o.kind = some e.kind
  definition : ∀ e, c r = some e → e.kind.isView = true → o.definition = e.definition
  dependents : (c r).isSome = true → ∀ v, v ∈ o.dependentViews ↔ v ∈ s.readers c r

/-- The observations are those of the catalog, for the relations that are observed. -/
def Server.Sees (watched : Rel → Prop) (c : Catalog) (obs : Observations) : Prop :=
  ∀ r, watched r → s.Reads c r (obs.table r)

/-- The intent leaves this catalog as it is. It finds what it asks for, or what it will not touch,
or the server does not take it. -/
def Server.Idle (c : Catalog) : ViewIntent → Prop
  | .replaceView r definition _ =>
    match c r with
    | none => s.takes c r definition = false
    | some e =>
      match e.kind with
      | .other _ => True
      | .view => e.definition = definition ∨ s.takes c r definition = false
      | .materializedView => e.definition = definition ∨ (s.readers c r).Nonempty ∨
          s.takes (Function.update c r none) r definition = false
  | .createMaterializedView r definition _ _ =>
    (c r).isSome = true ∨ s.takes c r definition = false
  | .dropView r => ∀ e, c r = some e → e.kind.isView = true → (s.readers c r).Nonempty

theorem Server.leave_nil {c : Catalog} {step : ViewStep} (hnone : step.statements = []) :
    s.leave c step = c := by
  simp [Server.leave, hnone]

theorem Server.leave_refused {c : Catalog} {step : ViewStep} {st : ViewStatement}
    {rest : List ViewStatement} (hstatements : step.statements = st :: rest)
    (hrefused : s.exec c st = none) : s.leave c step = c := by
  simp [Server.leave, hstatements, hrefused]

/-- A statement that changes the catalog, and others that only add to what it made. -/
theorem Server.leave_cons {c c' : Catalog} {step : ViewStep} {st : ViewStatement}
    {rest : List ViewStatement} (hstatements : step.statements = st :: rest)
    (hexec : s.exec c st = some c') (hrest : ∀ t ∈ rest, s.exec c' t = some c') :
    s.leave c step = c' := by
  have hfold : rest.foldlM s.exec c' = some c' := by
    clear hstatements
    induction rest with
    | nil => rfl
    | cons t rest ih =>
      rw [List.foldlM_cons, hrest t (by simp)]
      exact ih fun u hu => hrest u (by simp [hu])
  simp [Server.leave, hstatements, hexec, hfold]

theorem Server.remove_read {c : Catalog} {r : Rel} {kind : Kind}
    (hread : (s.readers c r).Nonempty) : s.remove c r kind = none :=
  if_neg fun h => hread.ne_empty h.2

theorem Server.remove_free {c : Catalog} {r : Rel} {e : Entry} (he : c r = some e)
    (hfree : ¬(s.readers c r).Nonempty) :
    s.remove c r e.kind = some (Function.update c r none) :=
  if_pos ⟨by simp [he], Set.not_nonempty_iff_eq_empty.mp hfree⟩

/-! ## One step -/

variable {s} {c : Catalog} {obs : Observations}

theorem replace_absent {r : Rel} {definition : String} {comment : Option String}
    (hreads : s.Reads c r (obs.table r)) (hnone : c r = none) :
    s.leave c (planReplaceView obs r definition comment) =
      if s.takes c r definition = true then
        Function.update c r (some { kind := .view, definition })
      else c := by
  have hpresent : (obs.table r).present = false := by rw [hreads.present, hnone]; rfl
  have hstatements : (planReplaceView obs r definition comment).statements =
      .createView r definition :: (comment.map (.commentOn r)).toList := by
    simp [planReplaceView, hpresent]
  by_cases htakes : s.takes c r definition = true
  · rw [if_pos htakes]
    refine s.leave_cons hstatements (by simp [Server.exec, Server.create, hnone, htakes]) ?_
    intro t ht
    obtain ⟨text, -, rfl⟩ := by simpa using ht
    simp [Server.exec]
  · rw [if_neg htakes]
    exact s.leave_refused hstatements (by simp [Server.exec, Server.create, htakes])

theorem replace_view {r : Rel} {definition : String} {comment : Option String} {e : Entry}
    (hreads : s.Reads c r (obs.table r)) (he : c r = some e) (hkind : e.kind = .view) :
    s.leave c (planReplaceView obs r definition comment) =
      if s.takes c r definition = true then
        Function.update c r (some { kind := .view, definition })
      else c := by
  have hpresent : (obs.table r).present = true := by rw [hreads.present, he]; rfl
  have hview : (obs.table r).kind = some .view := by rw [hreads.kind e he, hkind]
  have hstatements : (planReplaceView obs r definition comment).statements =
      .replaceView r definition ::
        if (obs.table r).reloptions.isEmpty then []
        else [.setOptions r (obs.table r).reloptions] := by
    simp [planReplaceView, hpresent, hview]
  by_cases htakes : s.takes c r definition = true
  · rw [if_pos htakes]
    refine s.leave_cons hstatements (by simp [Server.exec, he, hkind, htakes]) ?_
    intro t ht
    split_ifs at ht with hempty
    · cases ht
    · obtain rfl := List.mem_singleton.mp ht
      simp [Server.exec]
  · rw [if_neg htakes]
    exact s.leave_refused hstatements (by simp [Server.exec, htakes])

open Classical in
/-- Dropped and made again, in one transaction. -/
theorem replace_materialized {r : Rel} {definition : String} {comment : Option String} {e : Entry}
    (hreads : s.Reads c r (obs.table r)) (he : c r = some e)
    (hkind : e.kind = .materializedView) :
    s.leave c (planReplaceView obs r definition comment) =
      if ¬(s.readers c r).Nonempty ∧ s.takes (Function.update c r none) r definition = true then
        Function.update c r (some { kind := .materializedView, definition })
      else c := by
  have hpresent : (obs.table r).present = true := by rw [hreads.present, he]; rfl
  have hview : (obs.table r).kind = some .materializedView := by rw [hreads.kind e he, hkind]
  have hstatements : (planReplaceView obs r definition comment).statements =
      .dropMaterializedView r :: .createMaterializedView r definition true ::
        if (obs.table r).owner = "" then [] else [.ownerTo r (obs.table r).owner] := by
    simp [planReplaceView, hpresent, hview]
  by_cases hread : (s.readers c r).Nonempty
  · rw [if_neg fun h => h.1 hread]
    exact s.leave_refused hstatements (by rw [Server.exec, s.remove_read hread])
  · have hremove : s.exec c (.dropMaterializedView r) = some (Function.update c r none) := by
      rw [Server.exec, ← hkind, s.remove_free he hread]
    by_cases htakes : s.takes (Function.update c r none) r definition = true
    · have hmade : s.exec (Function.update c r none) (.createMaterializedView r definition true) =
          some (Function.update c r (some { kind := .materializedView, definition })) := by
        simp [Server.exec, Server.create, htakes]
      have howned (owner : String) :
          s.exec (Function.update c r (some { kind := .materializedView, definition }))
            (.ownerTo r owner) =
          some (Function.update c r (some { kind := .materializedView, definition })) := by
        simp [Server.exec]
      rw [if_pos ⟨hread, htakes⟩]
      by_cases howner : (obs.table r).owner = "" <;>
        simp [Server.leave, hstatements, howner, hremove, hmade, howned]
    · have hrefused : s.exec (Function.update c r none)
          (.createMaterializedView r definition true) = none := by
        simp [Server.exec, Server.create, htakes]
      rw [if_neg fun h => htakes h.2]
      simp [Server.leave, hstatements, hremove, hrefused]

theorem create_materialized {r : Rel} {definition comment : String} {withData : Bool}
    (hreads : s.Reads c r (obs.table r)) :
    s.leave c (planCreateMaterializedView obs r definition comment withData) =
      if (c r).isNone = true ∧ s.takes c r definition = true then
        Function.update c r (some { kind := .materializedView, definition })
      else c := by
  cases hc : c r with
  | some e =>
    have hpresent : (obs.table r).present = true := by rw [hreads.present, hc]; rfl
    rw [if_neg fun h => by simp at h]
    exact s.leave_nil (by simp [planCreateMaterializedView, hpresent, -String.reduceAppend])
  | none =>
    have hpresent : (obs.table r).present = false := by rw [hreads.present, hc]; rfl
    have hstatements : (planCreateMaterializedView obs r definition comment withData).statements =
        [.createMaterializedView r definition withData, .commentOn r comment] := by
      simp [planCreateMaterializedView, hpresent, -String.reduceAppend]
    by_cases htakes : s.takes c r definition = true
    · rw [if_pos ⟨rfl, htakes⟩]
      refine s.leave_cons hstatements (by simp [Server.exec, Server.create, hc, htakes]) ?_
      simp [Server.exec]
    · rw [if_neg fun h => htakes h.2]
      exact s.leave_refused hstatements (by simp [Server.exec, Server.create, htakes])

theorem dependents_eq_nil {r : Rel} (hreads : s.Reads c r (obs.table r))
    (hpresent : (c r).isSome = true) :
    (obs.table r).dependentViews = [] ↔ ¬(s.readers c r).Nonempty := by
  rw [List.eq_nil_iff_forall_not_mem, Set.not_nonempty_iff_eq_empty, Set.eq_empty_iff_forall_notMem]
  exact forall_congr' fun v => not_congr (hreads.dependents hpresent v)

/-- A view goes if nothing reads it. -/
theorem drop_free {r : Rel} {e : Entry} (hreads : s.Reads c r (obs.table r)) (he : c r = some e)
    (hview : e.kind.isView = true) (hfree : ¬(s.readers c r).Nonempty) :
    s.leave c (planDropView obs r) = Function.update c r none := by
  have hpresent : (obs.table r).present = true := by rw [hreads.present, he]; rfl
  have hkind := hreads.kind e he
  have hdependents := (dependents_eq_nil hreads (by simp [he])).mpr hfree
  have hstatements : (planDropView obs r).statements =
      [if e.kind = .materializedView then .dropMaterializedView r else .dropView r] := by
    simp [planDropView, hpresent, hkind, hview, hdependents]
  refine s.leave_cons hstatements ?_ (by simp)
  have hremove := s.remove_free he hfree
  cases hk : e.kind with
  | view => simpa [Server.exec, hk] using hremove
  | materializedView => simpa [Server.exec, hk] using hremove
  | other text => simp [hk, Kind.isView] at hview

/-- Otherwise it is left: it is not there, it is no view, or it is read. -/
theorem drop_kept {r : Rel} (hreads : s.Reads c r (obs.table r))
    (hkept : ∀ e, c r = some e → e.kind.isView = true → (s.readers c r).Nonempty) :
    s.leave c (planDropView obs r) = c := by
  refine s.leave_nil ?_
  cases hc : c r with
  | none =>
    have hpresent : (obs.table r).present = false := by rw [hreads.present, hc]; rfl
    simp [planDropView, hpresent]
  | some e =>
    have hpresent : (obs.table r).present = true := by rw [hreads.present, hc]; rfl
    have hkind := hreads.kind e hc
    by_cases hview : e.kind.isView = true
    · have hdependents : (obs.table r).dependentViews ≠ [] := fun h =>
        (dependents_eq_nil hreads (by simp [hc])).mp h (hkept e hc hview)
      simp [planDropView, hpresent, hkind, hview, hdependents]
    · simp [planDropView, hpresent, hkind, hview, isNotAView]

theorem update_same {r : Rel} {e : Entry} (he : c r = some e) :
    Function.update c r (some e) = c := by
  rw [← he, Function.update_eq_self]

/-- An intent that is idle leaves the catalog, if it is planned against its reading. -/
theorem leave_idle {in_ : ViewIntent} (hreads : s.Reads c in_.rel (obs.table in_.rel))
    (hidle : s.Idle c in_) : s.leave c (planView obs in_) = c := by
  cases in_ with
  | replaceView r definition comment =>
    simp only [ViewIntent.rel] at hreads
    rw [planView]
    cases hc : c r with
    | none =>
      have htakes : s.takes c r definition = false := by simpa [Server.Idle, hc] using hidle
      rw [replace_absent hreads hc, if_neg (by simp [htakes])]
    | some e =>
      cases hkind : e.kind with
      | other text =>
        have hpresent : (obs.table r).present = true := by rw [hreads.present]; simp [hc]
        have hother : (obs.table r).kind = some (.other text) := by
          rw [hreads.kind e hc, hkind]
        exact s.leave_nil (by simp [planReplaceView, hpresent, hother, isNotAView])
      | view =>
        rw [replace_view hreads hc hkind]
        split_ifs with htakes
        · have hsame : e.definition = definition := by
            simpa [Server.Idle, hc, hkind, htakes] using hidle
          have he : e = { kind := .view, definition } := by rw [← hkind, ← hsame]
          exact update_same (he ▸ hc)
        · rfl
      | materializedView =>
        rw [replace_materialized hreads hc hkind]
        split_ifs with htakes
        · have hsame : e.definition = definition := by
            simpa [Server.Idle, hc, hkind, htakes.1, htakes.2] using hidle
          have he : e = { kind := .materializedView, definition } := by rw [← hkind, ← hsame]
          exact update_same (he ▸ hc)
        · rfl
  | createMaterializedView r definition comment withData =>
    simp only [ViewIntent.rel] at hreads
    rw [planView, create_materialized hreads, if_neg]
    rintro ⟨hnone, htakes⟩
    rcases hidle with hsome | hrefused
    · simp [Option.isNone_iff_eq_none.mp hnone] at hsome
    · exact absurd (htakes.symm.trans hrefused) (by decide)
  | dropView r => exact drop_kept hreads hidle

/-- Any other changes its relation, so that the reading is no longer one of it. -/
theorem leave_active {in_ : ViewIntent} (hreads : s.Reads c in_.rel (obs.table in_.rel))
    (hactive : ¬s.Idle c in_) :
    ¬s.Reads (s.leave c (planView obs in_)) in_.rel (obs.table in_.rel) := by
  intro hlater
  cases in_ with
  | replaceView r definition comment =>
    simp only [ViewIntent.rel, planView] at hreads hlater
    cases hc : c r with
    | none =>
      have htakes : s.takes c r definition = true := by simpa [Server.Idle, hc] using hactive
      rw [replace_absent hreads hc, if_pos htakes] at hlater
      have hpresent := hreads.present.symm.trans hlater.present
      simp [hc] at hpresent
    | some e =>
      cases hkind : e.kind with
      | other text => simp [Server.Idle, hc, hkind] at hactive
      | view =>
        have hchanged : e.definition ≠ definition ∧ s.takes c r definition = true := by
          simpa [Server.Idle, hc, hkind] using hactive
        rw [replace_view hreads hc hkind, if_pos hchanged.2] at hlater
        have hbefore := hreads.definition e hc (by simp [hkind, Kind.isView])
        have hafter := hlater.definition _ (Function.update_self ..) rfl
        exact hchanged.1 (hbefore.symm.trans hafter)
      | materializedView =>
        have hchanged : e.definition ≠ definition ∧ ¬(s.readers c r).Nonempty ∧
            s.takes (Function.update c r none) r definition = true := by
          simpa [Server.Idle, hc, hkind] using hactive
        rw [replace_materialized hreads hc hkind, if_pos hchanged.2] at hlater
        have hbefore := hreads.definition e hc (by simp [hkind, Kind.isView])
        have hafter := hlater.definition _ (Function.update_self ..) rfl
        exact hchanged.1 (hbefore.symm.trans hafter)
  | createMaterializedView r definition comment withData =>
    have hchanged : c r = none ∧ s.takes c r definition = true := by
      simpa [Server.Idle] using hactive
    simp only [ViewIntent.rel, planView] at hreads hlater
    rw [create_materialized hreads, if_pos (by simp [hchanged])] at hlater
    have hpresent := hreads.present.symm.trans hlater.present
    simp [hchanged.1] at hpresent
  | dropView r =>
    obtain ⟨e, he, hview, hfree⟩ : ∃ e, c r = some e ∧ e.kind.isView = true ∧
        ¬(s.readers c r).Nonempty := by
      simpa [Server.Idle] using hactive
    simp only [ViewIntent.rel, planView] at hreads hlater
    rw [drop_free hreads he hview hfree] at hlater
    have hpresent := hreads.present.symm.trans hlater.present
    simp [he] at hpresent

end Servers

/-! ## A specification -/

section Specifications

variable {s : Server} {c : Catalog} {obs : Observations} {watched : Rel → Prop}

/-- The relations that the intents name: those are observed. -/
def named (intents : List ViewIntent) (r : Rel) : Prop := ∃ in_ ∈ intents, in_.rel = r

/-- Every intent was planned against observations of the catalog that the steps before it leave. -/
def PlannedAgainstLeft (s : Server) (watched : Rel → Prop) (c : Catalog)
    (plan : List (Observations × ViewStep)) : Prop :=
  ∀ before planned after, plan = before ++ planned :: after →
    s.Sees watched (s.leaves c (before.map Prod.snd)) planned.1

theorem plannedAgainstLeft_nil : PlannedAgainstLeft s watched c [] := by
  intro before planned after h
  simp at h

theorem plannedAgainstLeft_cons {planned : Observations × ViewStep}
    {plan : List (Observations × ViewStep)} :
    PlannedAgainstLeft s watched c (planned :: plan) ↔
      s.Sees watched c planned.1 ∧ PlannedAgainstLeft s watched (s.leave c planned.2) plan := by
  constructor
  · intro h
    refine ⟨h [] planned plan rfl, fun before p after hsplit => ?_⟩
    have hlater := h (planned :: before) p after (by rw [hsplit, List.cons_append])
    simpa [Server.leaves] using hlater
  · rintro ⟨hfirst, hrest⟩ before p after hsplit
    cases before with
    | nil =>
      obtain ⟨rfl, -⟩ := List.cons.inj hsplit
      exact hfirst
    | cons q before =>
      obtain ⟨rfl, hplan⟩ := List.cons.inj hsplit
      simpa [Server.leaves] using hrest before p after hplan

/-- The first intent that is not idle changes what the next one reads as before. -/
theorem planMigration_left_iff (intents : List ViewIntent)
    (hwatched : ∀ in_ ∈ intents, watched in_.rel) (hsees : s.Sees watched c obs) :
    PlannedAgainstLeft s watched c (planMigration obs intents) ↔
      ∀ in_ ∈ intents.dropLast, s.Idle c in_ := by
  induction intents with
  | nil => simp [planMigration, plannedAgainstLeft_nil]
  | cons in_ rest ih =>
    rw [planMigration, project_eq, plannedAgainstLeft_cons]
    cases rest with
    | nil => simp [planMigration, plannedAgainstLeft_nil, hsees]
    | cons next rest =>
      have hreads := hsees in_.rel (hwatched in_ (by simp))
      rw [List.dropLast_cons_cons, List.forall_mem_cons]
      by_cases hidle : s.Idle c in_
      · rw [leave_idle hreads hidle, ih fun u hu => hwatched u (List.mem_cons_of_mem _ hu)]
        simp [hsees, hidle]
      · constructor
        · rintro ⟨-, hlater⟩
          rw [planMigration, plannedAgainstLeft_cons] at hlater
          exact absurd (hlater.1 in_.rel (hwatched in_ (by simp))) (leave_active hreads hidle)
        · rintro ⟨hin, -⟩
          exact absurd hin hidle

/-- Each intent on a view is planned against the views that the steps before it leave exactly when
every intent but the last leaves the starting catalog as it is. -/
theorem planned_against_left_iff (intents : List ViewIntent)
    (hsees : s.Sees (named intents) c obs) :
    PlannedAgainstLeft s (named intents) c (planMigration obs intents) ↔
      ∀ in_ ∈ intents.dropLast, s.Idle c in_ :=
  planMigration_left_iff intents (fun in_ hin => ⟨in_, hin, rfl⟩) hsees

/-- A server on which no query reads a relation. -/
def plainServer : Server where
  reads _ := []
  takes _ _ _ := true

def totals : Rel := { schema := "public", name := "totals" }

def totalsEntry : Entry := { kind := .view, definition := "SELECT 1" }

def totalsObs : RelationObs := { present := true, kind := some .view, definition := "SELECT 1" }

def totalsCatalog : Catalog := fun r => if r = totals then some totalsEntry else none

def totalsObservations : Observations := fun r => if r = totals then some totalsObs else none

theorem totals_sees (watched : Rel → Prop) :
    plainServer.Sees watched totalsCatalog totalsObservations := by
  intro r _
  by_cases hr : r = totals
  · subst hr
    refine ⟨rfl, ?_, ?_, ?_⟩ <;>
      simp [totalsCatalog, totalsObservations, Observations.table, totalsObs, totalsEntry,
        Server.readers, plainServer]
  · refine ⟨?_, ?_, ?_, ?_⟩ <;>
      simp [totalsCatalog, totalsObservations, Observations.table, hr]

/-- The view is replaced by itself, and then dropped. -/
theorem planned_against_left_unchanged :
    PlannedAgainstLeft plainServer (named [.replaceView totals "SELECT 1" none, .dropView totals])
      totalsCatalog
      (planMigration totalsObservations
        [.replaceView totals "SELECT 1" none, .dropView totals]) := by
  refine (planned_against_left_iff _ (totals_sees _)).mpr fun in_ hin => ?_
  obtain rfl : in_ = .replaceView totals "SELECT 1" none := by simpa using hin
  simp [Server.Idle, totalsCatalog, totalsEntry]

/-- A view is created and then dropped: `drop_view` finds nothing to do, and the view stays. -/
theorem created_view_unseen :
    let intents : List ViewIntent := [.replaceView totals "SELECT 1" none, .dropView totals]
    let plan := planMigration (fun _ => none) intents
    plainServer.Sees (named intents) (fun _ => none) (fun _ => none) ∧
    plan.map (fun planned => planned.2.action) = [.apply, .satisfied] ∧
    (plainServer.leaves (fun _ => none) (plan.map Prod.snd) totals).isSome = true ∧
    ¬PlannedAgainstLeft plainServer (named intents) (fun _ => none) plan := by
  have hsees : plainServer.Sees (named [.replaceView totals "SELECT 1" none, .dropView totals])
      (fun _ => none) (fun _ => none) := fun r _ => ⟨rfl, by simp, by simp, by simp⟩
  refine ⟨hsees, rfl, ?_, ?_⟩
  · simp [planMigration, project_eq, planView, planReplaceView, planDropView, Observations.table,
      Server.leaves, Server.leave, Server.exec, Server.create, plainServer]
  · intro hplanned
    have hidle := (planMigration_left_iff _ (fun in_ hin => ⟨in_, hin, rfl⟩) hsees).mp hplanned
      (.replaceView totals "SELECT 1" none) (by simp)
    simp [Server.Idle, plainServer] at hidle

end Specifications

end Views
end Projection
end Laswell
