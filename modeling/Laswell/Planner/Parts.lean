import Laswell.Base.Resumable
import Laswell.Planner.Ddl

/-!
# Laswell.Planner.Parts

An index on a partitioned table is a family of indexes: one on the parent, and one on each
partition that is attached to it. How far a family is, whatever recipe makes it.

* `Progress`, `Owns`: how far each partition and the parent are, and the catalog that says so.
* `Owns.create`, `Owns.attach`: a statement of the family takes the catalog one step further.
-/

namespace Laswell
namespace Planner

open Base
open Projection (Rel)

/-! ## How far it is -/

/-- What there is of the index on a partition. -/
inductive PartState where
  | absent
  | invalid
  | built
  | adopted
  | attached
  deriving DecidableEq

/-- The indexes of a recipe: the parent's name, and what they are all alike in. `primary` says
which constraint they are of, if they are of one. -/
structure Family where
  name : String
  key : String
  unique : Bool
  primary : Option Bool := none

structure Progress where
  parent : Bool
  part : Rel → PartState

def Progress.set (a : Progress) (p : Rel) (s : PartState) : Progress :=
  { a with part := fun q => if q = p then s else a.part q }

@[simp] theorem Progress.set_parent (a : Progress) (p : Rel) (s : PartState) :
    (a.set p s).parent = a.parent := rfl

@[simp] theorem Progress.set_same (a : Progress) (p : Rel) (s : PartState) :
    (a.set p s).part p = s := if_pos rfl

theorem Progress.set_other (a : Progress) {p q : Rel} (s : PartState) (h : q ≠ p) :
    (a.set p s).part q = a.part q := if_neg h

section Owns

variable (t : Tables) (f : Family)

def parentIndex : Rel := { t.parent with name := f.name }

def childIndex (p : Rel) : Rel := { p with name := p.name ++ "_" ++ f.name }

def indexOn (p : Rel) (valid : Bool) (constraint : Option Backing) (attachedTo : Option Rel) :
    Index where
  name := childIndex f p
  on := p
  key := f.key
  unique := f.unique
  valid := valid
  constraint := constraint
  attachedTo := attachedTo

/-- A constraint of the index's own name. -/
def backing (p : Rel) : Option Backing :=
  f.primary.map fun primary => { name := p.name ++ "_" ++ f.name, primary }

def PartState.index (p : Rel) : PartState → Option Index
  | .absent => none
  | .invalid => some (indexOn f p false none none)
  | .built => some (indexOn f p true none none)
  | .adopted => some (indexOn f p true (backing f p) none)
  | .attached => some (indexOn f p true (backing f p) (some (parentIndex t f)))

def Progress.allAttached (a : Progress) : Bool :=
  t.partitions.all fun p => decide (a.part p = .attached)

def onParent (valid : Bool) : Index where
  name := parentIndex t f
  on := t.parent
  key := f.key
  unique := f.unique
  valid := valid
  constraint := f.primary.map fun primary => { name := f.name, primary }

def Progress.parentIndex (a : Progress) : Option Index :=
  if a.parent then some (onParent t f (a.allAttached t)) else none

/-- A table for which a recipe finds what it made: every name is taken apart as it was put
together, and no table has a name of the family's. -/
structure Fits : Prop where
  some : t.partitions ≠ []
  parentUndotted : '.' ∉ t.parent.schema.toList
  undotted : ∀ p ∈ t.partitions, '.' ∉ p.schema.toList
  freeParent : parentIndex t f ∉ t.all
  free : ∀ p ∈ t.partitions, childIndex f p ∉ t.all

/-- The catalog is so far: under the family's names there is what belongs to it, and nothing else is
attached to its index or is a primary key of one of the tables. -/
structure Owns (c : Indexes) (a : Progress) : Prop where
  named : Named c
  parent : get c (parentIndex t f) = a.parentIndex t f
  parts : ∀ p ∈ t.partitions, get c (childIndex f p) = (a.part p).index t f p
  attachedOwn : ∀ r i, get c r = some i → i.attachedTo = some (parentIndex t f) →
    ∃ p ∈ t.partitions, r = childIndex f p
  primaryOwn : f.primary = some true → ∀ r i, get c r = some i →
    (i.constraint.map Backing.primary).getD false = true → i.on = t.parent ∨ i.on ∈ t.partitions →
    r = parentIndex t f ∨ ∃ p ∈ t.partitions, r = childIndex f p
  ordered : a.parent = false → ∀ p ∈ t.partitions, a.part p ≠ .attached

end Owns

section Names

variable {t : Tables} {f : Family}

theorem childIndex_inj {p q : Rel} : childIndex f p = childIndex f q ↔ p = q := by
  constructor
  · intro h
    simp only [childIndex, Rel.mk.injEq] at h
    obtain ⟨hs, hn⟩ := h
    have hname : p.name = q.name := by
      have hlist := congrArg String.toList hn
      simp only [String.toList_append, List.append_assoc] at hlist
      exact String.toList_inj.mp (List.append_cancel_right hlist)
    cases p
    cases q
    simp_all
  · rintro rfl
    rfl

theorem childIndex_ne_parent (p : Rel) : childIndex f p ≠ parentIndex t f := by
  intro h
  have hn : p.name ++ "_" ++ f.name = f.name := congrArg Rel.name h
  have hlen := congrArg (fun s => s.toList.length) hn
  simp at hlen
  omega

theorem parent_ne_partition {p : Rel} (hp : p ∈ t.partitions) : t.parent ≠ p := by
  rintro rfl
  have hnodup := t.distinct
  rw [List.nodup_cons] at hnodup
  exact hnodup.1 (List.mem_append_left _ hp)

theorem partitions_nodup (t : Tables) : t.partitions.Nodup := by
  have hnodup := t.distinct
  rw [List.nodup_cons, List.nodup_append] at hnodup
  exact hnodup.2.1

end Names

/-! ## What a statement makes of it -/

section Simulation

variable {t : Tables} {f : Family} {c c' : Indexes} {a a' : Progress} {p : Rel}
  {s : PartState}

theorem allAttached_false (hp : p ∈ t.partitions) (h : a.part p ≠ .attached) :
    a.allAttached t = false := by
  rw [Progress.allAttached, List.all_eq_false]
  exact ⟨p, hp, by simpa using h⟩

theorem allAttached_iff : a.allAttached t = true ↔ ∀ p ∈ t.partitions, a.part p = .attached := by
  simp [Progress.allAttached]

theorem index_on {i : Index} (h : s.index t f p = some i) : i.on = p := by
  cases s with
  | absent => cases h
  | _ => cases h; rfl

theorem index_attachedTo {i : Index} (h : s.index t f p = some i) (hi : i.attachedTo ≠ none) :
    s = .attached := by
  cases s with
  | attached => rfl
  | absent => cases h
  | _ => cases h; exact absurd rfl hi

theorem index_constraint {i : Index} (h : s.index t f p = some i) (hi : i.constraint ≠ none) :
    s = .adopted ∨ s = .attached := by
  cases s with
  | adopted => exact .inl rfl
  | attached => exact .inr rfl
  | absent => cases h
  | _ => cases h; exact absurd rfl hi

/-- Another index stands on the partition, or none, and nothing else is different. -/
theorem Owns.change (h : Owns t f c a) (hp : p ∈ t.partitions) (hnamed : Named c')
    (hget : ∀ r, get c' r = if r = childIndex f p then s.index t f p else get c r)
    (hold : a.part p ≠ .attached) (hs : s ≠ .attached) : Owns t f c' (a.set p s) where
  named := hnamed
  parent := by
    rw [hget, if_neg (childIndex_ne_parent p).symm, h.parent, Progress.parentIndex,
      Progress.parentIndex, allAttached_false hp hold,
      allAttached_false hp (by rwa [Progress.set_same]), Progress.set_parent]
  parts q hq := by
    rw [hget]
    by_cases hqp : q = p
    · rw [hqp, if_pos rfl, Progress.set_same]
    · rw [if_neg fun heq => hqp (childIndex_inj.mp heq), h.parts q hq, Progress.set_other a s hqp]
  attachedOwn r i hr hi := by
    rw [hget] at hr
    by_cases hrp : r = childIndex f p
    · exact ⟨p, hp, hrp⟩
    · rw [if_neg hrp] at hr
      exact h.attachedOwn r i hr hi
  primaryOwn hprimary r i hr hi hon := by
    rw [hget] at hr
    by_cases hrp : r = childIndex f p
    · exact .inr ⟨p, hp, hrp⟩
    · rw [if_neg hrp] at hr
      exact h.primaryOwn hprimary r i hr hi hon
  ordered hparent q hq := by
    by_cases hqp : q = p
    · rw [hqp, Progress.set_same]
      exact hs
    · rw [Progress.set_other a s hqp]
      exact h.ordered hparent q hq

theorem taken_eq_false {r : Rel} (hfree : r ∉ t.all) (hget : get c r = none) :
    t.taken c r = false := by
  simp [Tables.taken, hfree, hget]

/-- A build, valid or not. -/
theorem Owns.create (hfits : Fits t f) (h : Owns t f c a) (hp : p ∈ t.partitions)
    (hstate : a.part p = .absent) (valid : Bool) :
    ∃ c', t.create c (indexOn f p valid none none) = some c' ∧
      Owns t f c' (a.set p (if valid then .built else .invalid)) := by
  have hnone : get c (childIndex f p) = none := by rw [h.parts p hp, hstate]; rfl
  have hcreate : t.create c (indexOn f p valid none none) =
      some (indexOn f p valid none none :: c) := by
    have htaken := taken_eq_false (hfits.free p hp) hnone
    rw [Tables.create, if_neg]
    exact fun htrue => Bool.false_ne_true (htaken.symm.trans htrue)
  refine ⟨_, hcreate, h.change hp (named_cons h.named hnone) (fun r => ?_) ?_ ?_⟩
  · rw [get_cons]
    by_cases hr : r = childIndex f p
    · have hname : (indexOn f p valid none none).name = r := hr.symm
      rw [if_pos hname, if_pos hr]
      cases valid <;> rfl
    · have hname : ¬ (indexOn f p valid none none).name = r := fun heq => hr heq.symm
      rw [if_neg hname, if_neg hr]
  · rw [hstate]
    decide
  · cases valid <;> decide

theorem primary_elsewhere (h : Owns t f c a) (hprimary : f.primary = some true) {on : Rel}
    (hon : on = t.parent ∨ on ∈ t.partitions)
    (hparent : on = t.parent → a.parent = false)
    (hpart : on ∈ t.partitions → a.part on ≠ .adopted ∧ a.part on ≠ .attached) :
    hasPrimary c on = false := by
  rw [hasPrimary, List.any_eq_false]
  intro i hi
  rw [Bool.not_eq_true, Bool.and_eq_false_iff, decide_eq_false_iff_not]
  by_contra hboth
  rw [not_or, not_not, Bool.not_eq_false] at hboth
  obtain ⟨hion, hip⟩ := hboth
  have hget := get_of_mem h.named hi
  rcases h.primaryOwn hprimary i.name i hget hip (hion ▸ hon) with hname | ⟨q, hq, hname⟩
  · rw [hname, h.parent, Progress.parentIndex] at hget
    split at hget
    · rename_i hthere
      cases hget
      rw [hparent hion.symm] at hthere
      cases hthere
    · cases hget
  · rw [hname, h.parts q hq] at hget
    have hqon : q = on := (index_on hget).symm.trans hion
    subst hqon
    have hconstraint : i.constraint ≠ none := by
      intro hnone
      rw [hnone] at hip
      cases hip
    rcases index_constraint hget hconstraint with hs | hs
    · exact (hpart hq).1 hs
    · exact (hpart hq).2 hs

/-- The parent's index, with nothing attached to it yet. -/
theorem Owns.addParent (hfits : Fits t f) (h : Owns t f c a) (hparent : a.parent = false) :
    ∃ c', t.create c (onParent t f t.partitions.isEmpty) = some c' ∧
      Owns t f c' { a with parent := true } := by
  have hnone : get c (parentIndex t f) = none := by
    rw [h.parent, Progress.parentIndex, hparent]
    rfl
  obtain ⟨p, hp⟩ := List.exists_mem_of_ne_nil _ hfits.some
  have hall : a.allAttached t = false := allAttached_false hp (h.ordered hparent p hp)
  have hempty : t.partitions.isEmpty = false := by
    cases ht : t.partitions with
    | nil => exact absurd ht hfits.some
    | cons q qs => rfl
  have hcreate : t.create c (onParent t f t.partitions.isEmpty) =
      some (onParent t f false :: c) := by
    have htaken := taken_eq_false hfits.freeParent hnone
    rw [hempty, Tables.create, if_neg]
    exact fun htrue => Bool.false_ne_true (htaken.symm.trans htrue)
  refine ⟨_, hcreate, ⟨named_cons h.named hnone, ?_, fun q hq => ?_, fun r j hr hj => ?_,
    fun hpr r j hr hj hon => ?_, fun hfalse => nomatch hfalse⟩⟩
  · have hname : (onParent t f false).name = parentIndex t f := rfl
    rw [get_cons, if_pos hname, ← hall]
    rfl
  · rw [get_cons, if_neg fun heq => childIndex_ne_parent q heq.symm]
    exact h.parts q hq
  · rw [get_cons] at hr
    split at hr
    · cases hr
      cases hj
    · exact h.attachedOwn r j hr hj
  · rw [get_cons] at hr
    split at hr
    · rename_i hname
      exact .inl hname.symm
    · exact h.primaryOwn hpr r j hr hj hon

/-- Every partition has a valid index that is attached, where every one is attached. -/
theorem complete_eq (hnamed : Named c)
    (hparts : ∀ p ∈ t.partitions, get c (childIndex f p) = (a.part p).index t f p)
    (hown : ∀ r i, get c r = some i → i.attachedTo = some (parentIndex t f) →
      ∃ p ∈ t.partitions, r = childIndex f p) :
    t.complete c (parentIndex t f) = a.allAttached t := by
  rw [Bool.eq_iff_iff, allAttached_iff, Tables.complete, List.all_eq_true]
  refine forall₂_congr fun p hp => ?_
  rw [List.any_eq_true]
  constructor
  · rintro ⟨i, hi, hall⟩
    simp only [Bool.and_eq_true, decide_eq_true_eq] at hall
    obtain ⟨⟨hon, hto⟩, -⟩ := hall
    have hget := get_of_mem hnamed hi
    obtain ⟨q, hq, hname⟩ := hown i.name i hget hto
    rw [hname, hparts q hq] at hget
    have hqp : q = p := (index_on hget).symm.trans hon
    rw [← hqp]
    exact index_attachedTo hget (by rw [hto]; exact Option.some_ne_none _)
  · intro hstate
    have hget := hparts p hp
    rw [hstate] at hget
    exact ⟨_, (get_name hget).1, by simp [indexOn]⟩

theorem Owns.attach (h : Owns t f c a) (hp : p ∈ t.partitions) (hstate : a.part p = .adopted)
    (hparent : a.parent = true) :
    ∃ c', (Ddl.attach (parentIndex t f) (childIndex f p)).run t c = some c' ∧
      Owns t f c' (a.set p .attached) := by
  let attached : Indexes :=
    update c (childIndex f p) fun i => { i with attachedTo := some (parentIndex t f) }
  have hchild : get c (childIndex f p) = some (indexOn f p true (backing f p) none) := by
    rw [h.parts p hp, hstate]
    rfl
  have hthere := h.parent
  rw [Progress.parentIndex, if_pos hparent] at hthere
  have hnot : a.allAttached t = false := allAttached_false hp (by rw [hstate]; decide)
  have hnamed : Named attached := by
    refine named_update h.named ?_ _
    exact fun _ => rfl
  have hget : ∀ r, get attached r = if r = childIndex f p then
      PartState.attached.index t f p else get c r := by
    intro r
    have hafter := @get_update (fun i => { i with attachedTo := some (parentIndex t f) })
      (fun _ => rfl) c (childIndex f p) r
    rw [hchild] at hafter
    exact hafter
  have hparts : ∀ q ∈ t.partitions, get attached (childIndex f q) =
      ((a.set p .attached).part q).index t f q := by
    intro q hq
    rw [hget]
    by_cases hqp : q = p
    · rw [hqp, if_pos rfl, Progress.set_same]
    · rw [if_neg fun heq => hqp (childIndex_inj.mp heq), h.parts q hq, Progress.set_other a _ hqp]
  have hown : ∀ r i, get attached r = some i → i.attachedTo = some (parentIndex t f) →
      ∃ q ∈ t.partitions, r = childIndex f q := by
    intro r i hr hi
    rw [hget] at hr
    by_cases hrp : r = childIndex f p
    · exact ⟨p, hp, hrp⟩
    · rw [if_neg hrp] at hr
      exact h.attachedOwn r i hr hi
  have halone : c.any (fun j => decide (j.on = p) &&
      decide (j.attachedTo = some (parentIndex t f))) = false := by
    rw [List.any_eq_false]
    intro j hj hboth
    simp only [Bool.and_eq_true, decide_eq_true_eq] at hboth
    have hgetj := get_of_mem h.named hj
    obtain ⟨q, hq, hname⟩ := h.attachedOwn j.name j hgetj hboth.2
    rw [hname, h.parts q hq] at hgetj
    have hqp : q = p := (index_on hgetj).symm.trans hboth.1
    have hattached := index_attachedTo hgetj (by rw [hboth.2]; exact Option.some_ne_none _)
    rw [hqp, hstate] at hattached
    cases hattached
  have hrun : (Ddl.attach (parentIndex t f) (childIndex f p)).run t c =
      some (t.validated attached (parentIndex t f)) := by
    simp only [Ddl.run, Tables.attach, hthere, hchild]
    rw [if_neg (by simp [indexOn, onParent, hp]), if_neg (by simp [indexOn])]
    refine if_neg ?_
    rintro (hto | hkey | hunique | hnone | hany)
    · exact hto rfl
    · exact hkey rfl
    · exact hunique rfl
    · rw [indexOn, onParent, backing] at hnone
      cases hpr : f.primary <;> simp [hpr] at hnone
    · exact Bool.false_ne_true (halone.symm.trans hany)
  have hcomplete := complete_eq hnamed hparts hown
  have hget' : ∀ r, get (t.validated attached (parentIndex t f)) r =
      if r = parentIndex t f then (a.set p .attached).parentIndex t f else get attached r := by
    intro r
    have hafter := @get_update
      (fun i => { i with valid := i.valid || t.complete attached (parentIndex t f) })
      (fun _ => rfl) attached (parentIndex t f) r
    rw [Tables.validated, hafter, hcomplete]
    by_cases hr : r = parentIndex t f
    · rw [if_pos hr, if_pos hr, hget, if_neg (childIndex_ne_parent p).symm, hthere,
        Progress.parentIndex, Progress.set_parent, if_pos hparent, Option.map_some, hnot]
      rfl
    · rw [if_neg hr, if_neg hr]
  have hnamed' : Named (t.validated attached (parentIndex t f)) := by
    refine named_update hnamed ?_ _
    exact fun _ => rfl
  refine ⟨_, hrun, ⟨hnamed', ?_, fun q hq => ?_, fun r i hr hi => ?_,
    fun hpr r i hr hi hon => ?_, fun hfalse => ?_⟩⟩
  · rw [hget', if_pos rfl]
  · rw [hget', if_neg (childIndex_ne_parent q)]
    exact hparts q hq
  · rw [hget'] at hr
    split at hr
    · rw [Progress.parentIndex, Progress.set_parent, if_pos hparent] at hr
      cases hr
      cases hi
    · exact hown r i hr hi
  · rw [hget'] at hr
    split at hr
    · rename_i hname
      exact .inl hname
    · rw [hget] at hr
      split at hr
      · rename_i hname
        exact .inr ⟨p, hp, hname⟩
      · exact h.primaryOwn hpr r i hr hi hon
  · rw [Progress.set_parent, hparent] at hfalse
    cases hfalse

theorem mem_all (hp : p ∈ t.partitions) : p ∈ t.all :=
  List.mem_cons_of_mem _ (List.mem_append_left _ hp)

end Simulation

section Run

variable {t : Tables} {β : Type}

/-- Partition after partition. The induction is on those still to come: the ones before are where
they are to be, and nothing was done to these. -/
theorem runAll_parts (job : Job Progress β) {acts : Rel → List β} {start : Rel → PartState}
    {final : PartState} {parent : Bool}
    (hone : ∀ {a : Progress} {p : Rel}, p ∈ t.partitions → a.parent = parent →
      a.part p = start p → job.runAll (acts p) a = some (a.set p final))
    {ps : List Rel} (hps : ∀ p ∈ ps, p ∈ t.partitions) (hnodup : ps.Nodup) {a : Progress}
    (hparent : a.parent = parent) (hstart : ∀ p ∈ ps, a.part p = start p) :
    ∃ a', job.runAll (ps.flatMap acts) a = some a' ∧ a'.parent = parent ∧
      (∀ p ∈ ps, a'.part p = final) ∧ ∀ p, p ∉ ps → a'.part p = a.part p := by
  induction ps generalizing a with
  | nil => exact ⟨a, rfl, hparent, fun _ h => absurd h List.not_mem_nil, fun _ _ => rfl⟩
  | cons p ps ih =>
    rw [List.nodup_cons] at hnodup
    have hne : ∀ q ∈ ps, q ≠ p := fun q hq heq => hnodup.1 (heq ▸ hq)
    obtain ⟨a', hrun, hthere, hall, hother⟩ := ih (fun q hq => hps q (List.mem_cons_of_mem p hq))
      hnodup.2 (a := a.set p final) hparent fun q hq => by
        rw [Progress.set_other a _ (hne q hq)]
        exact hstart q (List.mem_cons_of_mem p hq)
    have hfirst := hone (hps p List.mem_cons_self) hparent (hstart p List.mem_cons_self)
    refine ⟨a', ?_, hthere, fun q hq => ?_, fun q hq => ?_⟩
    · rw [List.flatMap_cons, Job.runAll_append, hfirst]
      exact hrun
    · rcases List.mem_cons.mp hq with rfl | hq
      · rw [hother q hnodup.1, Progress.set_same]
      · exact hall q hq
    · rw [hother q fun hmem => hq (List.mem_cons_of_mem p hmem)]
      exact Progress.set_other a _ fun heq => hq (heq ▸ List.mem_cons_self)

end Run

end Planner
end Laswell
