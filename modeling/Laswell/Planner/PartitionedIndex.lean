import Laswell.Base.Resumable
import Laswell.Planner.Parts

/-!
# Laswell.Planner.PartitionedIndex

An index on a partitioned table: built concurrently on each partition and checked, made on the
parent alone, and attached. An interrupted recipe is planned again from its first step.

* `plan_stated`: the statements and the checks of `planPartitionedIndex`, as values.
* `makes_taken`: a recipe does not get past an index that is there already.
* `partitionedIndex_resumes_iff`: what was committed of the recipe can be planned again and
  finished exactly if that is nothing, or all of it, with every partition in the parent's schema.
-/

namespace Laswell
namespace Planner

open Base
open Projection (Rel)

/-! ## The recipe as values -/

/-- A statement, or the check that an index is there and valid. The recipe's last check finds the
last step that attached a partition, which names no index, and passes. -/
inductive Deed where
  | run (d : Ddl)
  | check (index : Rel)
  | pass (index : Rel)

namespace Deed

def sql : Deed → Option String
  | .run d => some d.sql
  | _ => none

def checked : Deed → Option Rel
  | .run _ => none
  | .check index => some index
  | .pass index => some index

def exec (t : Tables) (c : Indexes) : Deed → Option Indexes
  | .run d => d.run t c
  | .check index => if (get c index).any Index.valid then some c else none
  | .pass _ => some c

def leaves (t : Tables) (c c' : Indexes) : Deed → Prop
  | .run d => d.leaves t c c'
  | _ => c' = c

end Deed

namespace IndexIntent

variable (in_ : IndexIntent)

def rel : Rel := ⟨in_.schema, in_.name⟩

def family : Family where
  name := in_.name
  key := in_.using_
  unique := in_.unique

/-- The index that is checked and attached for a partition. -/
def childOf (relation : String) : Rel where
  schema := in_.schema
  name := childName relation in_.name

def buildDdl (relation : String) : Ddl :=
  .createConcurrently in_.unique (childName relation in_.name) (meant relation) in_.using_

def parentDdl : List Ddl :=
  [.createOnly in_.unique in_.name (meant in_.qualified) in_.using_,
   .commentIndex in_.rel in_.comment]

def attachDdl (relation : String) : Ddl := .attach in_.rel (in_.childOf relation)

/-- One list for each step. -/
def deeds (relations : List String) : List (List Deed) :=
  relations.flatMap (fun r => [[.run (in_.buildDdl r)], [.check (in_.childOf r)]]) ++
    [in_.parentDdl.map .run] ++
    relations.map (fun r => [.run (in_.attachDdl r)]) ++ [[.pass in_.rel]]

end IndexIntent

/-- What a step has the server do, and the index a verify step names. -/
def Step.stated (s : Step) : List String × Option Rel :=
  (s.sql, if s.kind = verifyIndexValid then some ⟨s.detail.schema, s.detail.index⟩ else none)

def stating (ds : List Deed) : List String × Option Rel :=
  (ds.filterMap Deed.sql, ds.findSome? Deed.checked)

section Text

variable {in_ : IndexIntent}

theorem build_stated {relation : String} (hq : quoteQualified relation = sqlName (meant relation)) :
    (partitionBuild in_ relation).sql = [(in_.buildDdl relation).sql] := by
  have htext : (in_.buildDdl relation).sql = createIndexSql in_.unique "CONCURRENTLY "
    (childName relation in_.name) " ON " (meant relation) in_.using_ := rfl
  rw [htext]
  unfold partitionBuild createIndexSql
  simp only [hq, List.cons.injEq, and_true]
  rw [← String.toList_inj]
  simp [IndexIntent.uniqueSql, uniqueText]

theorem parent_stated (hq : quoteQualified in_.qualified = sqlName (meant in_.qualified)) :
    (parentBuild in_).sql = in_.parentDdl.map Ddl.sql := by
  have htext : in_.parentDdl.map Ddl.sql = [createIndexSql in_.unique "" in_.name " ON ONLY "
    (meant in_.qualified) in_.using_, commentIndexSql in_.rel in_.comment] := rfl
  rw [htext]
  unfold parentBuild createIndexSql
  simp only [hq, List.cons.injEq, and_true]
  constructor
  · rw [← String.toList_inj]
    simp [IndexIntent.uniqueSql, uniqueText]
  · unfold IndexIntent.commentSql commentIndexSql sqlName IndexIntent.rel
    rw [← String.toList_inj]
    simp

theorem attach_stated (relation : String) :
    (attachIndex in_ relation).sql = [(in_.attachDdl relation).sql] := by
  have htext : (in_.attachDdl relation).sql =
    attachPartitionSql in_.rel (in_.childOf relation) := rfl
  rw [htext]
  have hsql : (attachIndex in_ relation).sql =
    [attachSql in_.schema in_.name in_.schema (childName relation in_.name)] := rfl
  rw [hsql]
  unfold attachSql attachPartitionSql sqlName IndexIntent.rel IndexIntent.childOf
  simp only [List.cons.injEq, and_true]
  rw [← String.toList_inj]
  simp

/-- Alike in all that is said and checked. -/
def Step.Alike (s s' : Step) : Prop :=
  s.sql = s'.sql ∧ s.kind = s'.kind ∧ s.action = s'.action ∧ s.txnClass = s'.txnClass ∧
    s.detail.schema = s'.detail.schema ∧ s.detail.index = s'.detail.index

theorem Step.Alike.stated {s s' : Step} (h : s.Alike s') : s.stated = s'.stated := by
  obtain ⟨hsql, hkind, -, -, hschema, hindex⟩ := h
  rw [Step.stated, Step.stated, hsql, hkind, hschema, hindex]

theorem alike_raiseMemory (maintenanceMb : Int) (s : Step) :
    (s.raiseMemory maintenanceMb).Alike s := by
  unfold Step.raiseMemory
  split <;> exact ⟨rfl, rfl, rfl, rfl, rfl, rfl⟩

theorem alike_group : ∀ (g : Grouping) (l : List Step), List.Forall₂ Step.Alike (group g l) l
  | _, [] => .nil
  | g, s :: l => .cons ⟨rfl, rfl, rfl, rfl, rfl, rfl⟩ (alike_group (g.after s) l)

theorem withVerification_stated {l l' : List Step} (halike : List.Forall₂ Step.Alike l l') :
    (withVerification l).map Step.stated = (withVerification l').map Step.stated := by
  induction halike with
  | nil => rfl
  | @cons s s' l l' h _ ih =>
    have hbuilds : s.buildsOutside = s'.buildsOutside := by
      rw [Step.buildsOutside, Step.buildsOutside, h.2.1, h.2.2.1, h.2.2.2.1]
    have hcheck : s.verification.stated = s'.verification.stated := by
      rw [Step.verification, Step.verification, h.2.2.2.2.1, h.2.2.2.2.2]
      rfl
    rw [withVerification, withVerification, hbuilds]
    split
    · rw [List.map_cons, List.map_cons, List.map_cons, List.map_cons, h.stated, hcheck, ih]
    · rw [List.map_cons, List.map_cons, h.stated, ih]

/-- Groups, memory and numbers change nothing that is said. -/
theorem planMigration_stated (maintenanceMb : Int) (steps : List Step) :
    (planMigration maintenanceMb [steps]).map Step.stated =
      (withVerification steps).map Step.stated := by
  have hnumber : ∀ l : List Step, (renumber l).map Step.stated = l.map Step.stated := by
    intro l
    refine List.ext_getElem (by simp [renumber]) fun n _ _ => ?_
    simp [renumber, Step.stated]
  have hraise : List.Forall₂ Step.Alike (steps.map (Step.raiseMemory maintenanceMb)) steps := by
    induction steps with
    | nil => exact .nil
    | cons s l ih => exact .cons (alike_raiseMemory maintenanceMb s) ih
  rw [planMigration, hnumber, List.flatten_singleton, withVerification_stated (alike_group _ _),
    withVerification_stated hraise]

theorem withVerification_append : ∀ l l' : List Step,
    withVerification (l ++ l') = withVerification l ++ withVerification l'
  | [], _ => rfl
  | s :: l, l' => by
    rw [List.cons_append, withVerification, withVerification, withVerification_append l l']
    split <;> rfl

theorem planPartitionedIndex_eq {key : List String} {parts : List Part} {steps : List Step}
    (h : planPartitionedIndex in_ key parts = .ok steps) :
    steps = parts.map (fun p => partitionBuild in_ p.relation) ++ [parentBuild in_] ++
      parts.map (fun p => attachIndex in_ p.relation) ++ [verifyStep in_.schema in_.name] := by
  have hchecked : ∀ r : Except Refused (List Step),
      (if in_.unique = true then (do checkPartitionKey key in_.columns; r) else r) = .ok steps →
      r = .ok steps := by
    intro r hr
    split at hr
    · cases hkey : checkPartitionKey key in_.columns with
      | error e => rw [hkey] at hr; cases hr
      | ok u => rw [hkey] at hr; exact hr
    · exact hr
  unfold planPartitionedIndex at h
  by_cases hempty : parts = []
  · rw [if_pos hempty] at h
    cases h
  · rw [if_neg hempty] at h
    cases hsub : parts.find? Part.partitioned with
    | some p =>
      simp only [hsub] at h
      cases hchecked _ h
    | none =>
      cases hlong : parts.find? fun p => tooLong (childName p.relation in_.name) with
      | some p =>
        simp only [hsub, hlong] at h
        cases hchecked _ h
      | none =>
        simp only [hsub, hlong] at h
        cases hchecked _ h
        rfl

/-- The plan of the recipe, in the deeds' words. -/
theorem plan_stated {key : List String} {parts : List Part} {steps : List Step}
    (maintenanceMb : Int)
    (hq : quoteQualified in_.qualified = sqlName (meant in_.qualified))
    (hparts : ∀ p ∈ parts, quoteQualified p.relation = sqlName (meant p.relation))
    (h : planPartitionedIndex in_ key parts = .ok steps) :
    (planMigration maintenanceMb [steps]).map Step.stated =
      (in_.deeds (parts.map Part.relation)).map stating := by
  have hsteps := planPartitionedIndex_eq h
  have hbuilds : ∀ l : List Part,
      (∀ p ∈ l, quoteQualified p.relation = sqlName (meant p.relation)) →
      (withVerification (l.map fun p => partitionBuild in_ p.relation)).map Step.stated =
        ((l.map Part.relation).flatMap fun r =>
          [[Deed.run (in_.buildDdl r)], [.check (in_.childOf r)]]).map stating := by
    intro l hl
    induction l with
    | nil => rfl
    | cons p l ih =>
      have hstated : (partitionBuild in_ p.relation).stated =
          stating [Deed.run (in_.buildDdl p.relation)] := by
        rw [Step.stated, build_stated (hl p List.mem_cons_self)]
        rfl
      have htail := ih fun q hq => hl q (List.mem_cons_of_mem p hq)
      have hbuild : (partitionBuild in_ p.relation).buildsOutside = true := rfl
      rw [List.map_cons, withVerification, if_pos hbuild, List.map_cons, List.map_cons, hstated,
        htail]
      rfl
  have hattaches : ∀ l : List Part,
      (withVerification (l.map fun p => attachIndex in_ p.relation)).map Step.stated =
        ((l.map Part.relation).map fun r => [Deed.run (in_.attachDdl r)]).map stating := by
    intro l
    induction l with
    | nil => rfl
    | cons p l ih =>
      have hstated : (attachIndex in_ p.relation).stated =
          stating [Deed.run (in_.attachDdl p.relation)] := by
        rw [Step.stated, attach_stated]
        rfl
      have hno : ¬ (attachIndex in_ p.relation).buildsOutside = true := Bool.false_ne_true
      rw [List.map_cons, withVerification, if_neg hno, List.map_cons, hstated, ih]
      rfl
  have hparent : (withVerification [parentBuild in_]).map Step.stated =
      [in_.parentDdl.map Deed.run].map stating := by
    have hstated : (parentBuild in_).stated = stating (in_.parentDdl.map Deed.run) := by
      rw [Step.stated, parent_stated hq]
      rfl
    rw [List.map_singleton, ← hstated]
    rfl
  rw [planMigration_stated, hsteps, withVerification_append, withVerification_append,
    withVerification_append, List.map_append, List.map_append, List.map_append,
    hbuilds parts hparts,
    hparent, hattaches]
  simp only [IndexIntent.deeds, List.map_append]
  rfl

end Text

/-! ## How far it is -/

/-- The deeds of the recipe, by what they are for. -/
inductive IndexAct where
  | build (p : Rel)
  | check (p : Rel)
  | parent
  | comment
  | attach (p : Rel)
  | pass

namespace IndexAct

def deed (t : Tables) (in_ : IndexIntent) : IndexAct → Deed
  | .build p => .run (.createConcurrently in_.unique (p.name ++ "_" ++ in_.name) p in_.using_)
  | .check p => .check (childIndex in_.family p)
  | .parent => .run (.createOnly in_.unique in_.name t.parent in_.using_)
  | .comment => .run (.commentIndex (parentIndex t in_.family) in_.comment)
  | .attach p => .run (.attach (parentIndex t in_.family) (childIndex in_.family p))
  | .pass => .pass (parentIndex t in_.family)

/-- An index that backs no constraint can be attached as soon as it is built. -/
def step (t : Tables) (a : Progress) : IndexAct → Option Progress
  | .build p => if p ∈ t.partitions ∧ a.part p = .absent then some (a.set p .adopted) else none
  | .check p => if p ∈ t.partitions ∧ a.part p = .adopted then some a else none
  | .parent => if a.parent then none else some { a with parent := true }
  | .comment => if a.parent then some a else none
  | .attach p =>
    if p ∈ t.partitions ∧ a.part p = .adopted ∧ a.parent then some (a.set p .attached) else none
  | .pass => some a

end IndexAct

def indexActs (t : Tables) : List IndexAct :=
  t.partitions.flatMap (fun p => [.build p, .check p]) ++ [.parent, .comment] ++
    t.partitions.map .attach ++ [.pass]

/-- The recipe on the progress alone, from nothing. -/
def indexProgress (t : Tables) : Job Progress IndexAct where
  plan _ := indexActs t
  exec act a := act.step t a

section Simulation

variable {t : Tables} {in_ : IndexIntent} {c c' : Indexes} {a a' : Progress} {p : Rel}

theorem Owns.noConstraint (h : Owns t in_.family c (a.set p .built)) (hp : p ∈ t.partitions) :
    Owns t in_.family c (a.set p .adopted) where
  named := h.named
  parent := by
    have hbuilt : (a.set p .built).allAttached t = false := allAttached_false hp (by simp)
    have hadopted : (a.set p .adopted).allAttached t = false := allAttached_false hp (by simp)
    rw [h.parent, Progress.parentIndex, Progress.parentIndex, hbuilt, hadopted]
    rfl
  parts q hq := by
    rw [h.parts q hq]
    by_cases hqp : q = p
    · rw [hqp, Progress.set_same, Progress.set_same]
      rfl
    · rw [Progress.set_other a _ hqp, Progress.set_other a _ hqp]
  attachedOwn := h.attachedOwn
  primaryOwn := h.primaryOwn
  ordered hparent q hq := by
    by_cases hqp : q = p
    · rw [hqp, Progress.set_same]
      decide
    · have hbefore := h.ordered hparent q hq
      rwa [Progress.set_other a _ hqp] at hbefore ⊢

theorem deed_simulates (hfits : Fits t in_.family) (h : Owns t in_.family c a) {act : IndexAct}
    (hstep : act.step t a = some a') :
    ∃ c', (act.deed t in_).exec t c = some c' ∧ Owns t in_.family c' a' := by
  cases act with
  | build p =>
    simp only [IndexAct.step] at hstep
    split at hstep
    · rename_i hp
      cases hstep
      obtain ⟨c', hc', hown⟩ := h.create hfits hp.1 hp.2 true
      exact ⟨c', (if_pos (List.mem_append_left _ hp.1)).trans hc', Owns.noConstraint hown hp.1⟩
    · cases hstep
  | check p =>
    simp only [IndexAct.step] at hstep
    split at hstep
    · rename_i hp
      cases hstep
      have hget := h.parts p hp.1
      rw [hp.2] at hget
      refine ⟨c, ?_, h⟩
      simp only [IndexAct.deed, Deed.exec, hget]
      rfl
    · cases hstep
  | parent =>
    simp only [IndexAct.step] at hstep
    split at hstep
    · cases hstep
    · rename_i hparent
      cases hstep
      obtain ⟨c', hc', hown⟩ := h.addParent hfits (by simpa using hparent)
      exact ⟨c', (if_pos rfl).trans hc', hown⟩
  | comment =>
    simp only [IndexAct.step] at hstep
    split at hstep
    · rename_i hparent
      cases hstep
      have hget := h.parent
      rw [Progress.parentIndex, if_pos hparent] at hget
      refine ⟨c, ?_, h⟩
      simp only [IndexAct.deed, Deed.exec, Ddl.run, hget]
      rfl
    · cases hstep
  | attach p =>
    simp only [IndexAct.step] at hstep
    split at hstep
    · rename_i hp
      cases hstep
      exact h.attach hp.1 hp.2.1 hp.2.2
    · cases hstep
  | pass =>
    cases hstep
    exact ⟨c, rfl, h⟩

theorem deeds_simulate (hfits : Fits t in_.family) (job : Job Indexes Deed)
    (hexec : ∀ d c, job.exec d c = d.exec t c) {acts : List IndexAct} (h : Owns t in_.family c a)
    (hrun : (indexProgress t).runAll acts a = some a') :
    ∃ c', job.runAll (acts.map (IndexAct.deed t in_)) c = some c' ∧ Owns t in_.family c' a' := by
  induction acts generalizing c a with
  | nil =>
    cases hrun
    exact ⟨c, rfl, h⟩
  | cons act acts ih =>
    obtain ⟨a₁, hstep, hrest⟩ := Option.bind_eq_some_iff.mp hrun
    obtain ⟨c₁, hc₁, hnext⟩ := deed_simulates hfits h hstep
    obtain ⟨c', hc', hown⟩ := ih hnext hrest
    refine ⟨c', ?_, hown⟩
    rw [List.map_cons, Job.runAll, hexec, hc₁]
    exact hc'

/-- From nothing to the end. -/
theorem indexActs_run (t : Tables) :
    ∃ a', (indexProgress t).runAll (indexActs t) ⟨false, fun _ => .absent⟩ = some a' ∧
      a'.parent = true ∧ a'.allAttached t = true := by
  have hbuild : ∀ {a : Progress} {p : Rel}, p ∈ t.partitions → a.parent = false →
      a.part p = .absent →
      (indexProgress t).runAll [.build p, .check p] a = some (a.set p .adopted) := by
    intro a p hp _ hstate
    simp [Job.runAll, indexProgress, IndexAct.step, hp, hstate]
  have hattach : ∀ {a : Progress} {p : Rel}, p ∈ t.partitions → a.parent = true →
      a.part p = .adopted → (indexProgress t).runAll [.attach p] a = some (a.set p .attached) := by
    intro a p hp hparent hstate
    simp [Job.runAll, indexProgress, IndexAct.step, hp, hparent, hstate]
  obtain ⟨a₁, hrun₁, hparent₁, hall₁, -⟩ := runAll_parts (indexProgress t) hbuild (fun _ h => h)
    (partitions_nodup t) (a := ⟨false, fun _ => .absent⟩) rfl fun _ _ => rfl
  obtain ⟨a₂, hrun₂, hparent₂, hall₂, -⟩ := runAll_parts (indexProgress t) hattach (fun _ h => h)
    (partitions_nodup t) (a := { a₁ with parent := true }) rfl hall₁
  have hmiddle : (indexProgress t).runAll [.parent, .comment] a₁ =
      some { a₁ with parent := true } := by
    simp [Job.runAll, indexProgress, IndexAct.step, hparent₁]
  have hattaches : t.partitions.map IndexAct.attach = t.partitions.flatMap fun p => [.attach p] :=
    List.flatMap_pure_eq_map _ _ |>.symm
  refine ⟨a₂, ?_, hparent₂, allAttached_iff.mpr hall₂⟩
  rw [indexActs, hattaches, Job.runAll_append, Job.runAll_append, Job.runAll_append, hrun₁,
    Option.bind_some, hmiddle, Option.bind_some, hrun₂]
  rfl

/-- A partition that is not attached is so until its index is. -/
theorem not_attached {acts : List IndexAct} (hnot : ∀ act ∈ acts, act ≠ .attach p)
    (hstate : a.part p ≠ .attached) (hrun : (indexProgress t).runAll acts a = some a') :
    a'.part p ≠ .attached := by
  induction acts generalizing a with
  | nil =>
    cases hrun
    exact hstate
  | cons act acts ih =>
    obtain ⟨a₁, hstep, hrest⟩ := Option.bind_eq_some_iff.mp hrun
    refine ih (fun x hx => hnot x (List.mem_cons_of_mem act hx)) ?_ hrest
    have hset : ∀ {q : Rel} {s : PartState}, s ≠ .attached ∨ q ≠ p →
        (a.set q s).part p ≠ .attached := by
      intro q s hs
      by_cases hqp : p = q
      · rw [hqp, Progress.set_same]
        exact hs.resolve_right (not_not.mpr hqp.symm)
      · rwa [Progress.set_other a s hqp]
    change act.step t a = some a₁ at hstep
    cases act with
    | build q =>
      simp only [IndexAct.step] at hstep
      split at hstep
      · cases hstep
        exact hset (.inl (by decide))
      · cases hstep
    | attach q =>
      simp only [IndexAct.step] at hstep
      split at hstep
      · cases hstep
        exact hset (.inr fun heq => hnot _ List.mem_cons_self (heq ▸ rfl))
      · cases hstep
    | pass =>
      cases hstep
      exact hstate
    | _ =>
      simp only [IndexAct.step] at hstep
      split at hstep
      · cases hstep <;> exact hstate
      · cases hstep <;> exact hstate

end Simulation

/-! ## Names that are taken -/

namespace Deed

/-- The name of the index it makes. -/
def makes : Deed → Option Rel
  | .run (.createConcurrently _ name on _) => some { on with name := name }
  | .run (.createOnly _ name on _) => some { on with name := name }
  | _ => none

def drops : Deed → Bool
  | .run (.dropConcurrently _) => true
  | _ => false

end Deed

section Taken

variable {t : Tables} {c c' : Indexes} {d : Deed} {r : Rel}

theorem taken_iff : t.taken c r = true ↔ r ∈ t.all ∨ (get c r).isSome = true := by
  simp [Tables.taken]

theorem taken_update {f : Index → Index} (hf : ∀ i, (f i).name = i.name) (s : Rel)
    (h : t.taken c r = true) : t.taken (update c s f) r = true := by
  rw [taken_iff] at h ⊢
  refine h.imp_right fun hsome => ?_
  rw [get_update hf]
  by_cases hr : r = s
  · subst hr
    simpa using hsome
  · rwa [if_neg hr]

theorem taken_create {i : Index} (hc : t.create c i = some c') :
    t.taken c' i.name = true ∧ (t.taken c r = true → t.taken c' r = true) := by
  rw [Tables.create] at hc
  split at hc
  · cases hc
  · cases hc
    constructor
    · rw [taken_iff, get_cons, if_pos rfl]
      exact .inr rfl
    · intro h
      rw [taken_iff] at h ⊢
      refine h.imp_right fun hsome => ?_
      rw [get_cons]
      split
      · rfl
      · exact hsome

/-- What is there stays there, until it is dropped. -/
theorem taken_exec (hd : d.drops = false) (hexec : d.exec t c = some c')
    (h : t.taken c r = true) : t.taken c' r = true := by
  cases d with
  | check index =>
    simp only [Deed.exec] at hexec
    split at hexec
    · cases hexec
      exact h
    · cases hexec
  | pass index =>
    cases hexec
    exact h
  | run d =>
    cases d with
    | dropConcurrently index => cases hd
    | lockTable only on =>
      simp only [Deed.exec, Ddl.run] at hexec
      split at hexec
      · cases hexec
        exact h
      · cases hexec
    | commentIndex index comment =>
      simp only [Deed.exec, Ddl.run] at hexec
      split at hexec
      · cases hexec
        exact h
      · cases hexec
    | addConstraintUsing on name primary =>
      simp only [Deed.exec, Ddl.run] at hexec
      split at hexec
      · split at hexec
        · cases hexec
          refine taken_update ?_ _ h
          exact fun _ => rfl
        · cases hexec
      · cases hexec
    | attach parent child =>
      simp only [Deed.exec, Ddl.run, Tables.attach] at hexec
      split at hexec
      · split at hexec
        · cases hexec
        · split at hexec
          · cases hexec
            exact h
          · split at hexec
            · cases hexec
            · cases hexec
              refine taken_update ?_ _ (taken_update ?_ _ h) <;> exact fun _ => rfl
      · cases hexec
    | _ =>
      simp only [Deed.exec, Ddl.run] at hexec
      split at hexec
      · exact (taken_create hexec).2 h
      · cases hexec

theorem makes_taken (hd : d.makes = some r) (hexec : d.exec t c = some c') :
    t.taken c r = false ∧ t.taken c' r = true := by
  have hcreate : ∀ {i : Index}, i.name = r → t.create c i = some c' →
      t.taken c r = false ∧ t.taken c' r = true := by
    intro i hname hc
    have hafter := (@taken_create t c c' r i hc).1
    rw [Tables.create] at hc
    split at hc
    · cases hc
    · rename_i hfree
      rw [← hname]
      exact ⟨by simpa using hfree, hafter⟩
  cases d with
  | run d =>
    cases d with
    | createConcurrently unique name on key =>
      simp only [Deed.exec, Ddl.run] at hexec
      split at hexec
      · have hname : ({ on with name := name } : Rel) = r := Option.some.inj hd
        exact hcreate hname hexec
      · cases hexec
    | createOnly unique name on key =>
      simp only [Deed.exec, Ddl.run] at hexec
      split at hexec
      · have hname : ({ on with name := name } : Rel) = r := Option.some.inj hd
        exact hcreate hname hexec
      · cases hexec
    | _ => cases hd
  | _ => cases hd

theorem taken_leaves (hleaves : d.leaves t c c') (h : t.taken c r = true) :
    t.taken c' r = true := by
  cases d with
  | run d =>
    cases d with
    | createConcurrently unique name on key =>
      rcases hleaves with rfl | ⟨-, hcreate⟩
      · exact h
      · exact (taken_create hcreate).2 h
    | _ =>
      cases hleaves
      exact h
  | _ =>
    cases hleaves
    exact h

variable (job : Job Indexes Deed) {ds : List Deed}

theorem taken_runAll (hexec : ∀ d c, job.exec d c = d.exec t c) (hds : ∀ d ∈ ds, d.drops = false)
    (hrun : job.runAll ds c = some c') (h : t.taken c r = true) : t.taken c' r = true := by
  induction ds generalizing c with
  | nil =>
    cases hrun
    exact h
  | cons d ds ih =>
    obtain ⟨c₁, hc₁, hrest⟩ := Option.bind_eq_some_iff.mp hrun
    rw [hexec] at hc₁
    exact ih (fun x hx => hds x (List.mem_cons_of_mem d hx)) hrest
      (taken_exec (hds d List.mem_cons_self) hc₁ h)

/-- A recipe that makes an index does not get past one of that name, and leaves one. -/
theorem makes_runAll (hexec : ∀ d c, job.exec d c = d.exec t c) (hds : ∀ d ∈ ds, d.drops = false)
    (hd : d ∈ ds) (hmakes : d.makes = some r) (hrun : job.runAll ds c = some c') :
    t.taken c r = false ∧ t.taken c' r = true := by
  obtain ⟨before, after, rfl⟩ := List.append_of_mem hd
  rw [Job.runAll_append] at hrun
  obtain ⟨c₁, hc₁, hrun⟩ := Option.bind_eq_some_iff.mp hrun
  obtain ⟨c₂, hc₂, hrest⟩ := Option.bind_eq_some_iff.mp hrun
  rw [hexec] at hc₂
  obtain ⟨hfree, hthere⟩ := makes_taken hmakes hc₂
  constructor
  · by_contra hnot
    have hstays := taken_runAll job hexec (fun x hx => hds x (List.mem_append_left _ hx)) hc₁
      (by simpa using hnot)
    rw [hfree] at hstays
    cases hstays
  · exact taken_runAll job hexec
      (fun x hx => hds x (List.mem_append_right _ (List.mem_cons_of_mem d hx))) hrest hthere

end Taken

/-! ## Planned again -/

def partsOf (t : Tables) : List Part := t.partitions.map fun p => { relation := observed p }

def IndexIntent.satisfied : Step where
  kind := createIndex
  action := .satisfied

/-- `plan_create_index` on a partitioned table that has no index of this shape under another name.
`existing` is the validity of the one that has the name. -/
def planIndexOnParts (in_ : IndexIntent) (existing : Option Bool) (key : List String)
    (parts : List Part) : Except Refused (List Step) :=
  if existing = some true then .ok [IndexIntent.satisfied] else planPartitionedIndex in_ key parts

def readExisting (t : Tables) (in_ : IndexIntent) (c : Indexes) : Option Bool :=
  ((get c in_.rel).filter fun i => decide (i.on = t.parent)).map Index.valid

def recipeOf (t : Tables) (in_ : IndexIntent) : List Deed :=
  (in_.deeds (t.partitions.map observed)).flatten

/-- The recipe, planned from what is read of the catalog. -/
def indexJob (t : Tables) (in_ : IndexIntent) : Job Indexes Deed where
  plan c := if readExisting t in_ c = some true then [] else recipeOf t in_
  exec d c := d.exec t c
  leaves d c c' := d.leaves t c c'

/-- What the first `k` deeds of the recipe have left, and the next one, if it was interrupted. -/
def Left (t : Tables) (in_ : IndexIntent) (c₀ : Indexes) (k : Nat) (c : Indexes) : Prop :=
  ∃ c₁, (indexJob t in_).runAll ((recipeOf t in_).take k) c₀ = some c₁ ∧
    (c = c₁ ∨ ∃ d, (recipeOf t in_)[k]? = some d ∧ d.leaves t c₁ c)

/-- The parent's index is valid, and each partition has one index that is attached to it. -/
structure IndexFinished (t : Tables) (in_ : IndexIntent) (c : Indexes) : Prop where
  parent : ∃ i, get c in_.rel = some i ∧ i.on = t.parent ∧ i.valid = true
  parts : ∀ p ∈ t.partitions, ∃! i, i ∈ c ∧ i.on = p ∧ i.attachedTo = some in_.rel

/-- Planning the intent again succeeds, and the plan runs to its end. -/
def Resumes (t : Tables) (in_ : IndexIntent) (key : List String) (c : Indexes) : Prop :=
  (∃ steps, planIndexOnParts in_ (readExisting t in_ c) key (partsOf t) = .ok steps) ∧
  ∃ c', (indexJob t in_).runAll ((indexJob t in_).plan c) c = some c' ∧ IndexFinished t in_ c'

/-- The table a build is on, and the index it makes there. -/
def Ddl.builds : Ddl → Option (Rel × Rel)
  | .createConcurrently _ name on _ => some (on, { on with name := name })
  | _ => none

/-- What is built on a partition is what is checked and attached for it. -/
def NamesBuilt (t : Tables) (in_ : IndexIntent) : Prop :=
  ∀ p ∈ t.partitions, (in_.buildDdl (observed p)).builds = some (p, in_.childOf (observed p))

/-- A catalog: a name is used once, and what an index is attached to is there. -/
structure Sound (c : Indexes) : Prop where
  named : Named c
  attached : ∀ i ∈ c, ∀ r, i.attachedTo = some r → (get c r).isSome = true

/-- The recipe's names are free. -/
def Free (t : Tables) (in_ : IndexIntent) (c : Indexes) : Prop :=
  t.taken c (parentIndex t in_.family) = false ∧
    ∀ p ∈ t.partitions, t.taken c (childIndex in_.family p) = false

section Resume

variable {t : Tables} {in_ : IndexIntent} {c c₀ c₁ : Indexes} {a : Progress} {k : Nat}

theorem namesBuilt_iff (hschema : '.' ∉ in_.schema.toList) :
    NamesBuilt t in_ ↔ ∀ p ∈ t.partitions, p.schema = in_.schema := by
  refine forall₂_congr fun p _ => ?_
  constructor
  · intro h
    have hpair := Option.some.inj h
    have hon : meant (observed p) = p := congrArg Prod.fst hpair
    have hindex : (meant (observed p)).schema = in_.schema :=
      congrArg (fun x : Rel × Rel => x.2.schema) hpair
    rw [hon] at hindex
    exact hindex
  · intro h
    have hdot : '.' ∉ p.schema.toList := by rwa [h]
    simp only [IndexIntent.buildDdl, Ddl.builds, meant_observed hdot, IndexIntent.childOf, ← h]

theorem recipeOf_eq (hparent : t.parent = ⟨in_.schema, in_.table⟩)
    (hschema : '.' ∉ in_.schema.toList) (hsame : ∀ p ∈ t.partitions, p.schema = in_.schema) :
    recipeOf t in_ = (indexActs t).map (IndexAct.deed t in_) := by
  have hrel : in_.rel = parentIndex t in_.family := by
    rw [parentIndex, hparent]
    rfl
  have hmeant : meant in_.qualified = t.parent := by
    have hq : in_.qualified = observed t.parent := by
      rw [hparent]
      rfl
    rw [hq, meant_observed (by rw [hparent]; exact hschema)]
  have hdot : ∀ p ∈ t.partitions, '.' ∉ p.schema.toList := fun p hp => by rwa [hsame p hp]
  have hchild : ∀ p ∈ t.partitions, in_.childOf (observed p) = childIndex in_.family p := by
    intro p hp
    rw [IndexIntent.childOf, childName, afterDot_observed (hdot p hp), ← hsame p hp]
    rfl
  have hbuilds : ∀ ps : List Rel, (∀ p ∈ ps, p ∈ t.partitions) →
      ((ps.map observed).flatMap fun r =>
        [[Deed.run (in_.buildDdl r)], [.check (in_.childOf r)]]).flatten =
      (ps.flatMap fun p => [IndexAct.build p, .check p]).map (IndexAct.deed t in_) := by
    intro ps hps
    induction ps with
    | nil => rfl
    | cons p ps ih =>
      have hp := hps p List.mem_cons_self
      have hbuild : in_.buildDdl (observed p) =
          .createConcurrently in_.unique (p.name ++ "_" ++ in_.name) p in_.using_ := by
        rw [IndexIntent.buildDdl, childName, afterDot_observed (hdot p hp),
          meant_observed (hdot p hp)]
      rw [List.map_cons, List.flatMap_cons, List.flatten_append, List.flatMap_cons, List.map_append,
        ih fun q hq => hps q (List.mem_cons_of_mem p hq), hbuild, hchild p hp]
      rfl
  have hattaches : ∀ ps : List Rel, (∀ p ∈ ps, p ∈ t.partitions) →
      ((ps.map observed).map fun r => [Deed.run (in_.attachDdl r)]).flatten =
      (ps.map IndexAct.attach).map (IndexAct.deed t in_) := by
    intro ps hps
    induction ps with
    | nil => rfl
    | cons p ps ih =>
      have hp := hps p List.mem_cons_self
      rw [List.map_cons, List.map_cons, List.flatten_cons, List.map_cons, List.map_cons,
        ih fun q hq => hps q (List.mem_cons_of_mem p hq), IndexIntent.attachDdl, hchild p hp, hrel]
      rfl
  rw [recipeOf, IndexIntent.deeds, List.flatten_append, List.flatten_append, List.flatten_append,
    hbuilds _ fun _ h => h, hattaches _ fun _ h => h, indexActs, List.map_append, List.map_append,
    List.map_append]
  simp only [IndexIntent.parentDdl, hmeant, hrel]
  rfl

theorem drops_acts (acts : List IndexAct) :
    ∀ d ∈ acts.map (IndexAct.deed t in_), d.drops = false := by
  intro d hd
  obtain ⟨act, -, rfl⟩ := List.mem_map.mp hd
  cases act <;> rfl

theorem owns_free (hsound : Sound c₀) (hfree : Free t in_ c₀) :
    Owns t in_.family c₀ ⟨false, fun _ => .absent⟩ := by
  have hnone : ∀ {r : Rel}, t.taken c₀ r = false → get c₀ r = none := by
    intro r hr
    rw [← Bool.not_eq_true, taken_iff, not_or] at hr
    simpa using hr.2
  refine ⟨hsound.named, hnone hfree.1, fun p hp => hnone (hfree.2 p hp), fun r i hi hto => ?_,
    fun hprimary => (nomatch hprimary), fun _ _ _ => PartState.noConfusion⟩
  have hthere := hsound.attached i (get_name hi).1 _ hto
  rw [hnone hfree.1] at hthere
  cases hthere

theorem fits_free (hne : t.partitions ≠ []) (hparent : t.parent = ⟨in_.schema, in_.table⟩)
    (hschema : '.' ∉ in_.schema.toList) (hsame : ∀ p ∈ t.partitions, p.schema = in_.schema)
    (hfree : Free t in_ c₀) : Fits t in_.family := by
  have hno : ∀ {r : Rel}, t.taken c₀ r = false → r ∉ t.all := by
    intro r hr hmem
    rw [← Bool.not_eq_true, taken_iff, not_or] at hr
    exact hr.1 hmem
  refine ⟨hne, by rwa [hparent], fun p hp => by rwa [hsame p hp], hno hfree.1,
    fun p hp => hno (hfree.2 p hp)⟩

/-- Up to its last two, the deeds leave a partition without its index attached. -/
theorem take_acts (hne : t.partitions ≠ []) (hk : k + 1 < (indexActs t).length) :
    ∃ p ∈ t.partitions, ∀ act ∈ (indexActs t).take k, act ≠ .attach p := by
  obtain ⟨ps, p, hps⟩ : ∃ ps p, t.partitions = ps ++ [p] := by
    rcases List.eq_nil_or_concat t.partitions with hnil | ⟨ps, p, h⟩
    · exact absurd hnil hne
    · exact ⟨ps, p, by rw [h, List.concat_eq_append]⟩
  have hnodup := partitions_nodup t
  have hpp : p ∉ ps := by
    rw [hps, List.nodup_append] at hnodup
    exact fun hmem => hnodup.2.2 p hmem p (List.mem_singleton_self p) rfl
  let front : List IndexAct := t.partitions.flatMap (fun p => [.build p, .check p]) ++
    [.parent, .comment] ++ ps.map .attach
  have hacts : indexActs t = front ++ [.attach p, .pass] := by
    simp only [indexActs, front, hps, List.map_append, List.append_assoc, List.map_cons,
      List.map_nil, List.cons_append, List.nil_append]
  have hfront : ∀ act ∈ front, act ≠ .attach p := by
    intro act hact
    simp only [front, List.mem_append, List.mem_flatMap, List.mem_map, List.mem_cons,
      List.not_mem_nil, or_false] at hact
    rcases hact with (⟨q, -, rfl | rfl⟩ | rfl | rfl) | ⟨q, hq, rfl⟩
    · exact IndexAct.noConfusion
    · exact IndexAct.noConfusion
    · exact IndexAct.noConfusion
    · exact IndexAct.noConfusion
    · exact fun heq => hpp (IndexAct.attach.inj heq ▸ hq)
  refine ⟨p, by simp [hps], fun act hact => hfront act ?_⟩
  rw [hacts, List.length_append] at hk
  rw [hacts, List.take_append_of_le_length (by simpa using Nat.lt_succ_iff.mp hk)] at hact
  exact List.mem_of_mem_take hact

theorem indexActs_last (hk : (indexActs t).length ≤ k + 1) :
    (indexActs t).drop k = [] ∨ (indexActs t).drop k = [.pass] := by
  let init : List IndexAct := t.partitions.flatMap (fun p => [.build p, .check p]) ++
    [.parent, .comment] ++ t.partitions.map .attach
  have hacts : indexActs t = init ++ [.pass] := rfl
  rw [hacts, List.length_append, List.length_singleton] at hk
  rw [hacts]
  rcases Nat.lt_or_ge init.length k with hlt | hge
  · left
    exact List.drop_eq_nil_of_le (by rw [List.length_append]; exact hlt)
  · right
    have heq : k = init.length := Nat.le_antisymm hge (Nat.le_of_succ_le_succ hk)
    rw [heq, List.drop_left]

/-- Every prefix of the recipe, with its next build interrupted or not, is so far; it is not at the
end before the last index is attached, and then it is. -/
theorem owns_left (hfits : Fits t in_.family)
    (hrecipe : recipeOf t in_ = (indexActs t).map (IndexAct.deed t in_))
    (h₀ : Owns t in_.family c₀ ⟨false, fun _ => .absent⟩) (hleft : Left t in_ c₀ k c) :
    ∃ a, Owns t in_.family c a ∧
      (k + 1 < (indexActs t).length → ∃ p ∈ t.partitions, a.part p ≠ .attached) ∧
      ((indexActs t).length ≤ k + 1 → a.parent = true ∧ a.allAttached t = true) := by
  obtain ⟨c₁, hrun, hc⟩ := hleft
  obtain ⟨a', hall, hend⟩ := indexActs_run t
  rw [← List.take_append_drop k (indexActs t), Job.runAll_append] at hall
  obtain ⟨a, htake, hdrop⟩ := Option.bind_eq_some_iff.mp hall
  obtain ⟨c₁', hrun', hown⟩ := deeds_simulate hfits (indexJob t in_) (fun _ _ => rfl) h₀ htake
  rw [hrecipe, ← List.map_take, hrun'] at hrun
  cases hrun
  have hnot : k + 1 < (indexActs t).length → ∃ p ∈ t.partitions, a.part p ≠ .attached := by
    intro hk
    obtain ⟨p, hp, hacts⟩ := take_acts hfits.some hk
    exact ⟨p, hp, not_attached hacts (PartState.noConfusion) htake⟩
  have hfull : (indexActs t).length ≤ k + 1 → a.parent = true ∧ a.allAttached t = true := by
    intro hk
    rcases indexActs_last hk with hnil | hpass
    · rw [hnil] at hdrop
      cases hdrop
      exact hend
    · rw [hpass] at hdrop
      cases hdrop
      exact hend
  rcases hc with rfl | ⟨d, hd, hleaves⟩
  · exact ⟨a, hown, hnot, hfull⟩
  · rw [hrecipe, List.getElem?_map] at hd
    obtain ⟨act, hact, rfl⟩ := Option.map_eq_some_iff.mp hd
    have hnext : (indexActs t).drop k = act :: (indexActs t).drop (k + 1) := by
      obtain ⟨hlt, hget⟩ := List.getElem?_eq_some_iff.mp hact
      rw [List.drop_eq_getElem_cons hlt, hget]
    cases act with
    | build p =>
      rcases hleaves with rfl | ⟨-, hcreate⟩
      · exact ⟨a, hown, hnot, hfull⟩
      · rw [hnext] at hdrop
        obtain ⟨a₂, hstep, -⟩ := Option.bind_eq_some_iff.mp hdrop
        have hp : p ∈ t.partitions ∧ a.part p = .absent := by
          by_contra hno
          have hnone : (IndexAct.build p).step t a = none := if_neg hno
          rw [show (indexProgress t).exec (.build p) a = (IndexAct.build p).step t a from rfl,
            hnone] at hstep
          cases hstep
        obtain ⟨c₂, hc₂, hown₂⟩ := hown.create hfits hp.1 hp.2 false
        have hsame : c₂ = c := Option.some.inj (hc₂.symm.trans hcreate)
        subst hsame
        refine ⟨_, hown₂, fun _ => ⟨p, hp.1, by simp⟩, fun hk => ?_⟩
        rcases indexActs_last hk with hnil | hpass
        · rw [hnil] at hnext
          cases hnext
        · rw [hpass] at hnext
          cases hnext
    | _ =>
      cases hleaves
      exact ⟨a, hown, hnot, hfull⟩

theorem indexFinished_of_owns (hparent : t.parent = ⟨in_.schema, in_.table⟩)
    (h : Owns t in_.family c a) (hthere : a.parent = true) (hall : a.allAttached t = true) :
    IndexFinished t in_ c := by
  have hrel : in_.rel = parentIndex t in_.family := by
    rw [parentIndex, hparent]
    rfl
  have hget := h.parent
  rw [Progress.parentIndex, if_pos hthere, hall] at hget
  refine ⟨⟨_, by rw [hrel]; exact hget, rfl, rfl⟩, fun p hp => ?_⟩
  have hpart := h.parts p hp
  rw [allAttached_iff.mp hall p hp] at hpart
  refine ⟨_, ⟨(get_name hpart).1, rfl, by rw [hrel]; rfl⟩, ?_⟩
  rintro j ⟨hj, hon, hto⟩
  have hgetj := get_of_mem h.named hj
  obtain ⟨q, hq, hname⟩ := h.attachedOwn j.name j hgetj (by rw [← hrel]; exact hto)
  rw [hname, h.parts q hq] at hgetj
  have hqp : q = p := (index_on hgetj).symm.trans hon
  rw [hqp, allAttached_iff.mp hall p hp] at hgetj
  exact (Option.some.inj hgetj).symm

theorem readExisting_of_owns (hparent : t.parent = ⟨in_.schema, in_.table⟩)
    (h : Owns t in_.family c a) :
    readExisting t in_ c = if a.parent then some (a.allAttached t) else none := by
  have hrel : in_.rel = parentIndex t in_.family := by
    rw [parentIndex, hparent]
    rfl
  rw [readExisting, hrel, h.parent, Progress.parentIndex]
  split
  · simp [onParent]
  · rfl

theorem get_create {i : Index} {c' : Indexes} {r : Rel} (hc : t.create c i = some c')
    (hne : i.name ≠ r) : get c' r = get c r := by
  rw [Tables.create] at hc
  split at hc
  · cases hc
  · cases hc
    rw [get_cons, if_neg hne]

theorem get_builds {acts : List IndexAct} {b b' : Indexes}
    (hacts : ∀ act ∈ acts, ∃ p, act = .build p ∨ act = .check p)
    (hrun : (indexJob t in_).runAll (acts.map (IndexAct.deed t in_)) b = some b') :
    get b' (parentIndex t in_.family) = get b (parentIndex t in_.family) := by
  induction acts generalizing b with
  | nil =>
    cases hrun
    rfl
  | cons act acts ih =>
    obtain ⟨b₁, hb₁, hrest⟩ := Option.bind_eq_some_iff.mp hrun
    rw [ih (fun x hx => hacts x (List.mem_cons_of_mem act hx)) hrest]
    change (act.deed t in_).exec t b = some b₁ at hb₁
    obtain ⟨p, rfl | rfl⟩ := hacts act List.mem_cons_self
    · simp only [IndexAct.deed, Deed.exec, Ddl.run] at hb₁
      split at hb₁
      · have hne : childIndex in_.family p ≠ parentIndex t in_.family := childIndex_ne_parent p
        exact get_create hb₁ hne
      · cases hb₁
    · simp only [IndexAct.deed, Deed.exec] at hb₁
      split at hb₁
      · cases hb₁
        rfl
      · cases hb₁

/-- Where a name of the recipe is taken, it gets no further than the builds, and leaves the
parent's index as it was. -/
theorem left_taken (hrecipe : recipeOf t in_ = (indexActs t).map (IndexAct.deed t in_))
    (hnot : ¬ Free t in_ c₀) (hleft : Left t in_ c₀ k c) :
    k + 1 < (indexActs t).length ∧
      get c (parentIndex t in_.family) = get c₀ (parentIndex t in_.family) := by
  obtain ⟨c₁, hrun, hc⟩ := hleft
  let builds : List IndexAct := t.partitions.flatMap fun p => [.build p, .check p]
  have hacts : indexActs t =
      builds ++ (.parent :: .comment :: (t.partitions.map .attach ++ [.pass])) := by
    simp [indexActs, builds]
  have hk : k ≤ builds.length := by
    by_contra hlt
    rw [Nat.not_le] at hlt
    apply hnot
    have htake : (indexActs t).take k = builds ++ .parent ::
        (IndexAct.comment :: (t.partitions.map .attach ++ [.pass])).take
          (k - builds.length - 1) := by
      rw [hacts, List.take_append, List.take_of_length_le (Nat.le_of_lt hlt)]
      obtain ⟨n, hn⟩ : ∃ n, k - builds.length = n + 1 :=
        ⟨k - builds.length - 1, by omega⟩
      rw [hn]
      rfl
    have hmakes : ∀ (act : IndexAct) {r : Rel}, act ∈ (indexActs t).take k →
        (act.deed t in_).makes = some r → t.taken c₀ r = false := by
      intro act r hact hmake
      rw [hrecipe, ← List.map_take] at hrun
      exact (makes_runAll (indexJob t in_) (fun _ _ => rfl) (drops_acts _)
        (List.mem_map_of_mem hact) hmake hrun).1
    constructor
    · exact hmakes .parent (by rw [htake]; simp) rfl
    · intro p hp
      refine hmakes (.build p) ?_ rfl
      rw [htake, List.mem_append, List.mem_flatMap]
      exact .inl ⟨p, hp, List.mem_cons_self⟩
  constructor
  · rw [hacts, List.length_append]
    simp only [List.length_cons]
    omega
  · have htake : (indexActs t).take k = builds.take k := by
      rw [hacts, List.take_append_of_le_length hk]
    rw [hrecipe, ← List.map_take, htake] at hrun
    rw [← get_builds (fun act hact => ?_) hrun]
    · rcases hc with rfl | ⟨d, hd, hleaves⟩
      · rfl
      · rw [hrecipe, List.getElem?_map] at hd
        obtain ⟨act, -, rfl⟩ := Option.map_eq_some_iff.mp hd
        cases act with
        | build p =>
          rcases hleaves with rfl | ⟨-, hcreate⟩
          · rfl
          · have hne : childIndex in_.family p ≠ parentIndex t in_.family := childIndex_ne_parent p
            exact get_create hcreate hne
        | _ =>
          cases hleaves
          rfl
    · obtain ⟨p, -, hp⟩ := List.mem_flatMap.mp (List.mem_of_mem_take hact)
      simp only [List.mem_cons, List.not_mem_nil, or_false] at hp
      exact ⟨p, hp⟩

/-- What was committed of the recipe is planned again and finished exactly if it is nothing, with
the names free, or all of it, and the partitions are where the parent is. -/
theorem partitionedIndex_resumes_iff {key : List String} {steps : List Step}
    (hparent : t.parent = ⟨in_.schema, in_.table⟩) (hschema : '.' ∉ in_.schema.toList)
    (hplan : planPartitionedIndex in_ key (partsOf t) = .ok steps) (hsound : Sound c₀)
    (hfirst : readExisting t in_ c₀ ≠ some true) (hleft : Left t in_ c₀ k c) :
    NamesBuilt t in_ ∧ Resumes t in_ key c ↔
      (∀ p ∈ t.partitions, p.schema = in_.schema) ∧
      (k = 0 ∧ c = c₀ ∧ Free t in_ c₀ ∨ (recipeOf t in_).length ≤ k + 1) := by
  have hne : t.partitions ≠ [] := by
    intro hnil
    rw [partsOf, hnil] at hplan
    cases hplan
  have hrel : in_.rel = parentIndex t in_.family := by
    rw [parentIndex, hparent]
    rfl
  have hagain : ∀ b, ∃ steps, planIndexOnParts in_ (readExisting t in_ b) key (partsOf t) =
      .ok steps := by
    intro b
    rw [planIndexOnParts]
    split
    · exact ⟨_, rfl⟩
    · exact ⟨_, hplan⟩
  rw [namesBuilt_iff hschema]
  refine and_congr_right fun hsame => ?_
  have hrecipe := recipeOf_eq hparent hschema hsame
  have hlength : (recipeOf t in_).length = (indexActs t).length := by
    rw [hrecipe, List.length_map]
  rw [hlength]
  constructor
  · rintro ⟨-, c', hrun, -⟩
    by_contra hnot
    rw [not_or, Nat.not_le] at hnot
    have hinvalid : readExisting t in_ c ≠ some true := by
      by_cases hfree : Free t in_ c₀
      · obtain ⟨a, hown, hsome, -⟩ := owns_left (fits_free hne hparent hschema hsame hfree) hrecipe
          (owns_free hsound hfree) hleft
        obtain ⟨p, hp, hp'⟩ := hsome hnot.2
        rw [readExisting_of_owns hparent hown, allAttached_false hp hp']
        split <;> simp
      · rw [readExisting, hrel, (left_taken hrecipe hfree hleft).2, ← hrel]
        exact hfirst
    have htaken : ∃ act ∈ indexActs t, ∃ r, (act.deed t in_).makes = some r ∧
        t.taken c r = true := by
      obtain ⟨c₁, hbefore, hc⟩ := hleft
      have hlast : ∀ {r : Rel}, t.taken c₁ r = true → t.taken c r = true := by
        intro r hr
        rcases hc with rfl | ⟨d, -, hleaves⟩
        · exact hr
        · exact taken_leaves hleaves hr
      by_cases hfree : Free t in_ c₀
      · obtain ⟨p, ps, hps⟩ := List.exists_cons_of_ne_nil hne
        obtain ⟨rest, hrest⟩ : ∃ rest, indexActs t = .build p :: rest :=
          ⟨_, by rw [indexActs, hps]; rfl⟩
        refine ⟨.build p, by rw [hrest]; exact List.mem_cons_self, _, rfl, ?_⟩
        cases k with
        | zero =>
          cases hbefore
          rcases hc with rfl | ⟨d, hd, hleaves⟩
          · exact absurd ⟨rfl, rfl, hfree⟩ hnot.1
          · rw [hrecipe, hrest] at hd
            cases hd
            rcases hleaves with rfl | ⟨-, hcreate⟩
            · exact absurd ⟨rfl, rfl, hfree⟩ hnot.1
            · exact (@taken_create t c₀ c p _ hcreate).1
        | succ k =>
          have hmakes :
              ((IndexAct.build p).deed t in_).makes = some (childIndex in_.family p) := rfl
          refine hlast (makes_runAll (indexJob t in_) (fun _ _ => rfl) ?_ ?_ hmakes hbefore).2
          · rw [hrecipe, ← List.map_take]
            exact drops_acts _
          · rw [hrecipe, hrest]
            exact List.mem_cons_self
      · have hstays : ∀ {r : Rel}, t.taken c₀ r = true → t.taken c r = true := by
          intro r hr
          rw [hrecipe, ← List.map_take] at hbefore
          exact hlast (taken_runAll (indexJob t in_) (fun _ _ => rfl) (drops_acts _) hbefore hr)
        by_cases hname : t.taken c₀ (parentIndex t in_.family) = true
        · exact ⟨.parent, by simp [indexActs], _, rfl, hstays hname⟩
        · obtain ⟨p, hp, hchild⟩ : ∃ p ∈ t.partitions,
              t.taken c₀ (childIndex in_.family p) = true := by
            by_contra hnone
            refine hfree ⟨by simpa using hname, fun p hp => ?_⟩
            by_contra hthere
            exact hnone ⟨p, hp, by simpa using hthere⟩
          refine ⟨.build p, ?_, _, rfl, hstays hchild⟩
          simp [indexActs, hp]
    obtain ⟨act, hact, r, hmakes, hthere⟩ := htaken
    have hplanned : (indexJob t in_).plan c = (indexActs t).map (IndexAct.deed t in_) :=
      (if_neg hinvalid).trans hrecipe
    rw [hplanned] at hrun
    have hfree := (makes_runAll (indexJob t in_) (fun _ _ => rfl) (drops_acts _)
      (List.mem_map_of_mem hact) hmakes hrun).1
    rw [hthere] at hfree
    cases hfree
  · rintro (⟨rfl, rfl, hfree⟩ | hk)
    · refine ⟨hagain c, ?_⟩
      obtain ⟨a', hall, hthere, hend⟩ := indexActs_run t
      obtain ⟨c', hrun, hown⟩ := deeds_simulate (fits_free hne hparent hschema hsame hfree)
        (indexJob t in_) (fun _ _ => rfl) (owns_free hsound hfree) hall
      refine ⟨c', ?_, indexFinished_of_owns hparent hown hthere hend⟩
      have hplanned : (indexJob t in_).plan c = (indexActs t).map (IndexAct.deed t in_) :=
        (if_neg hfirst).trans hrecipe
      rw [hplanned]
      exact hrun
    · have hfree : Free t in_ c₀ := by
        by_contra hnot
        exact absurd (left_taken hrecipe hnot hleft).1 (Nat.not_lt.mpr hk)
      obtain ⟨a, hown, -, hend⟩ := owns_left (fits_free hne hparent hschema hsame hfree) hrecipe
        (owns_free hsound hfree) hleft
      obtain ⟨hthere, hall⟩ := hend hk
      have hvalid : readExisting t in_ c = some true := by
        rw [readExisting_of_owns hparent hown, if_pos hthere, hall]
      have hplanned : (indexJob t in_).plan c = [] := if_pos hvalid
      refine ⟨hagain c, c, ?_, indexFinished_of_owns hparent hown hthere hall⟩
      rw [hplanned]
      rfl

end Resume

section Cases

def readings : Tables where
  parent := ⟨"public", "readings"⟩
  partitions := [⟨"public", "readings_2025"⟩, ⟨"public", "readings_2026"⟩]
  others := []
  distinct := by decide

def readingsAt : IndexIntent where
  schema := "public"
  table := "readings"
  name := "at_idx"
  columns := ["at"]
  using_ := " USING btree (\"at\")"

theorem sound_nil : Sound [] := ⟨List.nodup_nil, fun _ h => absurd h List.not_mem_nil⟩

theorem partitionedIndex_resumes_nothing :
    NamesBuilt readings readingsAt ∧ Resumes readings readingsAt ["at"] [] :=
  (partitionedIndex_resumes_iff rfl (by decide) rfl sound_nil (by decide)
    ⟨[], rfl, .inl rfl⟩).mpr
    ⟨by decide, .inl ⟨rfl, rfl, by decide, by decide⟩⟩

/-- The first partition's index is there, and its build is the first step of the next plan too. -/
theorem committed_build_blocks :
    let built : Indexes := [indexOn readingsAt.family ⟨"public", "readings_2025"⟩ true none none]
    Left readings readingsAt [] 2 built ∧ ¬ Resumes readings readingsAt ["at"] built := by
  refine ⟨⟨_, rfl, .inl rfl⟩, ?_⟩
  rintro ⟨-, c', hrun, -⟩
  have hnone : (indexJob readings readingsAt).runAll ((indexJob readings readingsAt).plan
      [indexOn readingsAt.family ⟨"public", "readings_2025"⟩ true none none])
      [indexOn readingsAt.family ⟨"public", "readings_2025"⟩ true none none] = none := by decide
  rw [hnone] at hrun
  cases hrun

end Cases

end Planner
end Laswell
