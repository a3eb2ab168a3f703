import Laswell.Repository.Entry
import Mathlib.Data.List.Pairwise
import Mathlib.Data.List.Perm.Basic
import Mathlib.Data.List.Sublists

/-!
# Laswell.Repository.Subsets

Which migrations of one dependency level may run at the same time. `parallelSubsets` is the
greedy grouping of the listing: a group is opened by the first entry not yet taken, and every
later one is compared with that first entry and with the relations accumulated so far.

* `parallelSubsets_perm`: the groups hold every ready entry exactly once.
* `scan_joined`, `scan_pairwise`: what an entry showed when it joined a group, against the first
  entry and against those that joined before it.
* `parallelSubsets_safe`: the groups of a level are pairwise safe where, among the ready entries,
  being safe with a common third entry, on another database than one of the two, always makes the
  two safe with each other. `safetyPasses_necessary`: where it does not, the three are a level of
  their own that is not.
-/

namespace Laswell
namespace Repository

/-- Only a yes grants concurrency without evidence, so every uncertain answer is no. The exact
identity decides where both sides have it; the name can only ever prove a difference. -/
def provablyDifferentDatabases (a b : RepoEntry) : Bool :=
  if a.databaseIdentity ≠ "" ∧ b.databaseIdentity ≠ "" then
    a.databaseIdentity ≠ b.databaseIdentity
  else
    a.databaseName ≠ "" ∧ b.databaseName ≠ "" ∧ a.databaseName ≠ b.databaseName

structure Group where
  members : List RepoEntry
  relations : List String
  evidenceComplete : Bool

/-- The ids of the group, as the listing prints them. -/
def Group.specs (g : Group) : List String := g.members.map RepoEntry.specId

structure Level where
  groups : List Group
  undecided : List String
  provenConcurrent : Bool

def Level.specs (l : Level) : List String := l.groups.flatMap Group.specs

/-- What became of the entries after the first: those that joined its group, the relations the
group ended with, those left for a later group, and why. -/
structure Scan where
  joined : List RepoEntry
  relations : List String
  left : List RepoEntry
  undecided : List String

/-- The relation named in the message: the last of the candidate's that the group has. -/
def sharedRelation (rels : List String) (other : RelationSet) : Option String :=
  (other.relations.filter fun r => rels.contains r).getLast?

/-- Why the evidence is incomplete, taken from the first entry if its own is. -/
def incompleteWhy (first other : RelationSet) : String :=
  match if first.complete then other.opaqueWhy else first.opaqueWhy with
  | [] => "evidence is incomplete"
  | why :: _ => why

inductive Admission where
  | otherDatabase
  | disjointRelations
  | denied (why : String)

/-- One candidate `k` against the group's first entry and the relations accumulated so far. -/
def consider (first : RepoEntry) (rels : List String) (k : RepoEntry) : Admission :=
  if provablyDifferentDatabases first k then .otherDatabase
  else
    match sharedRelation rels k.relations with
    | some shared =>
      .denied (first.specId ++ " and " ++ k.specId ++ " both touch " ++ shared ++
        ", so they must not run together")
    | none =>
      if !first.relations.complete || !k.relations.complete then
        .denied (first.specId ++ " and " ++ k.specId ++
          " share no relation this analysis can see, but independence is NOT proven: " ++
          incompleteWhy first.relations k.relations ++
          ". An opaque trigger function can write any table, including the other " ++
          "migration's. Your call.")
      else .disjointRelations

def scan (first : RepoEntry) (rels : List String) : List RepoEntry → Scan
  | [] => { joined := [], relations := rels, left := [], undecided := [] }
  | k :: ks =>
    match consider first rels k with
    | .otherDatabase =>
      let s := scan first rels ks
      { s with joined := k :: s.joined }
    | .disjointRelations =>
      let s := scan first (rels ++ k.relations.relations) ks
      { s with joined := k :: s.joined }
    | .denied why =>
      let s := scan first rels ks
      { s with left := k :: s.left, undecided := why :: s.undecided }

/-- The group opened by `first`, with what its scan left over. -/
def groupOf (first : RepoEntry) (s : Scan) : Group :=
  { members := first :: s.joined
    relations := s.relations
    evidenceComplete := first.relations.complete }

/-- The outer loop. Each round takes one group off the list, so `fuel` rounds are enough for a
list no longer than `fuel`. -/
def subsetsLoop : Nat → List RepoEntry → List Group × List String
  | 0, _ => ([], [])
  | _ + 1, [] => ([], [])
  | fuel + 1, first :: rest =>
    let s := scan first first.relations.relations rest
    let r := subsetsLoop fuel s.left
    (groupOf first s :: r.1, s.undecided ++ r.2)

def parallelSubsets (ready : List RepoEntry) : Level :=
  let r := subsetsLoop ready.length ready
  { groups := r.1
    undecided := r.2
    provenConcurrent :=
      match r.1 with
      | [g] => decide (1 < g.members.length)
      | _ => false }

/-! ## Neither dropped nor duplicated -/

theorem scan_perm (first : RepoEntry) :
    ∀ (ks : List RepoEntry) (rels : List String),
      ((scan first rels ks).joined ++ (scan first rels ks).left).Perm ks := by
  intro ks
  induction ks with
  | nil => intro rels; exact .nil
  | cons k ks ih =>
    intro rels
    unfold scan
    split
    · exact (ih _).cons k
    · exact (ih _).cons k
    · exact List.perm_middle.trans ((ih _).cons k)

theorem scan_left_length (first : RepoEntry) (rels : List String) (ks : List RepoEntry) :
    (scan first rels ks).left.length ≤ ks.length := by
  rw [← (scan_perm first ks rels).length_eq, List.length_append]
  omega

theorem subsetsLoop_perm :
    ∀ (fuel : Nat) (ready : List RepoEntry), ready.length ≤ fuel →
      ((subsetsLoop fuel ready).1.flatMap Group.members).Perm ready := by
  intro fuel
  induction fuel with
  | zero =>
    intro ready h
    rw [List.length_eq_zero_iff.mp (Nat.le_zero.mp h)]
    exact .nil
  | succ fuel ih =>
    intro ready h
    cases ready with
    | nil => exact .nil
    | cons first rest =>
      simp only [subsetsLoop, List.flatMap_cons, groupOf, List.cons_append]
      refine List.Perm.cons first ?_
      have hl := scan_left_length first first.relations.relations rest
      have hrest := ih (scan first first.relations.relations rest).left
        (by simp only [List.length_cons] at h; omega)
      exact (hrest.append_left _).trans (scan_perm first rest _)

theorem parallelSubsets_perm (ready : List RepoEntry) :
    ((parallelSubsets ready).groups.flatMap Group.members).Perm ready :=
  subsetsLoop_perm ready.length ready (Nat.le_refl _)

theorem Level.specs_eq (l : Level) :
    l.specs = (l.groups.flatMap Group.members).map RepoEntry.specId := by
  simp only [Level.specs, List.map_flatMap]
  rfl

/-- The ids of a level are those of its ready entries, each once. -/
theorem parallelSubsets_specs_perm (ready : List RepoEntry) :
    (parallelSubsets ready).specs.Perm (ready.map RepoEntry.specId) := by
  rw [Level.specs_eq]
  exact (parallelSubsets_perm ready).map _

/-! ## Which pairs share a group -/

/-- Both relation sets are complete and they share no relation. -/
def Independent (x y : RepoEntry) : Prop :=
  x.relations.complete = true ∧ y.relations.complete = true ∧
    x.relations.relations.Disjoint y.relations.relations

/-- Safe to run at once: on provably different databases, or independent by evidence. -/
def Safe (x y : RepoEntry) : Prop :=
  provablyDifferentDatabases x y = true ∨ Independent x y

theorem sharedRelation_eq_none {rels : List String} {other : RelationSet} :
    sharedRelation rels other = none ↔ rels.Disjoint other.relations := by
  simp only [sharedRelation, List.getLast?_eq_none_iff, List.filter_eq_nil_iff,
    List.contains_iff_mem]
  exact ⟨fun h r hr ho => h r ho hr, fun h r ho hr => h hr ho⟩

/-- What one candidate shows to join, and that nothing else keeps it out. -/
theorem consider_cases (first : RepoEntry) (rels : List String) (k : RepoEntry) :
    (consider first rels k = .otherDatabase ∧ provablyDifferentDatabases first k = true) ∨
    (consider first rels k = .disjointRelations ∧ provablyDifferentDatabases first k = false ∧
      first.relations.complete = true ∧ k.relations.complete = true ∧
      rels.Disjoint k.relations.relations) ∨
    (∃ why, consider first rels k = .denied why ∧
      provablyDifferentDatabases first k = false ∧
      ¬ (first.relations.complete = true ∧ k.relations.complete = true ∧
        rels.Disjoint k.relations.relations)) := by
  unfold consider
  split
  · left; simp_all
  · rename_i hd
    have hd : provablyDifferentDatabases first k = false := by simpa using hd
    split
    · rename_i shared hs
      refine .inr (.inr ⟨_, rfl, hd, fun h => ?_⟩)
      rw [sharedRelation_eq_none.mpr h.2.2] at hs
      cases hs
    · rename_i hs
      split
      · rename_i hc
        refine .inr (.inr ⟨_, rfl, hd, fun h => ?_⟩)
        simp [h.1, h.2.1] at hc
      · rename_i hc
        simp only [Bool.or_eq_true, Bool.not_eq_true', not_or, Bool.not_eq_false] at hc
        exact .inr (.inl ⟨rfl, hd, hc.1, hc.2, sharedRelation_eq_none.mp hs⟩)

/-- Every entry that joined is on another database than the first, or its relations are disjoint
from all the group had when the scan began. -/
theorem scan_joined (first : RepoEntry) :
    ∀ (ks : List RepoEntry) (rels : List String), ∀ x ∈ (scan first rels ks).joined,
      provablyDifferentDatabases first x = true ∨
      (first.relations.complete = true ∧ x.relations.complete = true ∧
        rels.Disjoint x.relations.relations) := by
  intro ks
  induction ks with
  | nil => intro rels x hx; cases hx
  | cons k ks ih =>
    intro rels x hx
    rcases consider_cases first rels k with ⟨hc, hd⟩ | ⟨hc, -, hk⟩ | ⟨why, hc, -, -⟩
    · simp only [scan, hc, List.mem_cons] at hx
      rcases hx with rfl | hx
      · exact .inl hd
      · exact ih rels x hx
    · simp only [scan, hc, List.mem_cons] at hx
      rcases hx with rfl | hx
      · exact .inr hk
      · refine (ih _ x hx).imp id fun h => ⟨h.1, h.2.1, ?_⟩
        exact fun r hr ho => h.2.2 (List.mem_append_left _ hr) ho
    · simp only [scan, hc] at hx
      exact ih rels x hx

theorem scan_sublist (first : RepoEntry) :
    ∀ (ks : List RepoEntry) (rels : List String),
      (scan first rels ks).joined.Sublist ks ∧ (scan first rels ks).left.Sublist ks := by
  intro ks
  induction ks with
  | nil => intro rels; exact ⟨.refl _, .refl _⟩
  | cons k ks ih =>
    intro rels
    unfold scan
    split
    · exact ⟨(ih _).1.cons_cons k, (ih _).2.cons k⟩
    · exact ⟨(ih _).1.cons_cons k, (ih _).2.cons k⟩
    · exact ⟨(ih _).1.cons k, (ih _).2.cons_cons k⟩

/-- Two entries that joined are independent of each other, unless one of them joined for being
on another database than the first: then the scan never compared the two. -/
theorem scan_pairwise (first : RepoEntry) :
    ∀ (ks : List RepoEntry) (rels : List String),
      (scan first rels ks).joined.Pairwise fun x y =>
        provablyDifferentDatabases first x = true ∨ provablyDifferentDatabases first y = true ∨
          Independent x y := by
  intro ks
  induction ks with
  | nil => intro rels; exact .nil
  | cons k ks ih =>
    intro rels
    rcases consider_cases first rels k with ⟨hc, hd⟩ | ⟨hc, -, -, hk, -⟩ | ⟨why, hc, -, -⟩
    · simp only [scan, hc]
      exact List.pairwise_cons.mpr ⟨fun y _ => .inl hd, ih rels⟩
    · simp only [scan, hc]
      refine List.pairwise_cons.mpr ⟨fun y hy => ?_, ih _⟩
      rcases scan_joined first ks _ y hy with h | ⟨-, hy', hdis⟩
      · exact .inr (.inl h)
      · refine .inr (.inr ⟨hk, hy', fun r hr ho => ?_⟩)
        exact hdis (List.mem_append_right _ hr) ho
    · simp only [scan, hc]
      exact ih rels

theorem scan_joined_safe (first : RepoEntry) (rest : List RepoEntry) :
    ∀ x ∈ (scan first first.relations.relations rest).joined, Safe first x := by
  intro x hx
  exact (scan_joined first rest _ x hx).imp id fun h => ⟨h.1, h.2.1, h.2.2⟩

/-- A group of the loop is one round of it: opened by an entry of the list, joined from the
entries after it. -/
theorem subsetsLoop_groups :
    ∀ (fuel : Nat) (ready : List RepoEntry), ∀ g ∈ (subsetsLoop fuel ready).1,
      ∃ first rest, (first :: rest).Sublist ready ∧
        g = groupOf first (scan first first.relations.relations rest) := by
  intro fuel
  induction fuel with
  | zero => intro ready g hg; simp [subsetsLoop] at hg
  | succ fuel ih =>
    intro ready g hg
    cases ready with
    | nil => simp [subsetsLoop] at hg
    | cons first rest =>
      simp only [subsetsLoop, List.mem_cons] at hg
      rcases hg with rfl | hg
      · exact ⟨first, rest, .refl _, rfl⟩
      · obtain ⟨f, r, hs, he⟩ := ih _ g hg
        exact ⟨f, r, (hs.trans (scan_sublist first rest _).2).cons first, he⟩

/-- Being safe with one entry, on another database than it for one of the two, passes over to
the two themselves, for all that stand in this order in the list. -/
def SafetyPasses (runnable : List RepoEntry) : Prop :=
  ∀ i k l, [i, k, l].Sublist runnable → Safe i k → Safe i l →
    (provablyDifferentDatabases i k = true ∨ provablyDifferentDatabases i l = true) → Safe k l

theorem groupOf_safe {runnable first} {rest : List RepoEntry} (hp : SafetyPasses runnable)
    (hs : (first :: rest).Sublist runnable) :
    (groupOf first (scan first first.relations.relations rest)).members.Pairwise Safe := by
  refine List.pairwise_cons.mpr ⟨scan_joined_safe first rest, ?_⟩
  refine List.pairwise_iff_forall_sublist.mpr fun {k l} hkl => ?_
  have hk := scan_joined_safe first rest k (hkl.subset (by simp))
  have hl := scan_joined_safe first rest l (hkl.subset (by simp))
  have hrest : [first, k, l].Sublist runnable :=
    ((hkl.trans (scan_sublist first rest _).1).cons_cons first).trans hs
  rcases List.pairwise_iff_forall_sublist.mp (scan_pairwise first rest _) hkl with h | h | h
  · exact hp first k l hrest hk hl (.inl h)
  · exact hp first k l hrest hk hl (.inr h)
  · exact .inr h

theorem consider_joins {first k : RepoEntry} (h : Safe first k) :
    consider first first.relations.relations k = .otherDatabase ∨
      consider first first.relations.relations k = .disjointRelations := by
  rcases consider_cases first first.relations.relations k with
    ⟨hc, -⟩ | ⟨hc, -⟩ | ⟨why, -, hd, hn⟩
  · exact .inl hc
  · exact .inr hc
  · rcases h with h | h
    · rw [hd] at h; cases h
    · exact absurd ⟨h.1, h.2.1, h.2.2⟩ hn

/-- Three entries of which the first is safe with both others, on another database than one of
them, end in one group: the relations of that one are never added to the group's. -/
theorem parallelSubsets_three {i k l : RepoEntry} (hk : Safe i k) (hl : Safe i l)
    (hd : provablyDifferentDatabases i k = true ∨ provablyDifferentDatabases i l = true) :
    ∃ g ∈ (parallelSubsets [i, k, l]).groups, g.members = [i, k, l] := by
  have join : ∀ {x : RepoEntry} {rels : List String}, provablyDifferentDatabases i x = true →
      consider i rels x = .otherDatabase := by
    intro x rels hx
    simp [consider, hx]
  refine ⟨_, List.mem_cons_self, ?_⟩
  rcases hd with hd | hd
  · rcases consider_joins hl with hc | hc <;> simp [groupOf, scan, join hd, hc]
  · rcases consider_joins hk with hc | hc <;> simp [groupOf, scan, join hd, hc]

/-- Ready entries among which safety does not pass over have three that are one group where they
are ready alone, and not safe. Together with others, an earlier entry may have taken one of them. -/
theorem safetyPasses_necessary {ready : List RepoEntry} (h : ¬ SafetyPasses ready) :
    ∃ i k l, [i, k, l].Sublist ready ∧
      ∃ g ∈ (parallelSubsets [i, k, l]).groups, ¬ g.members.Pairwise Safe := by
  simp only [SafetyPasses, not_forall] at h
  obtain ⟨i, k, l, hs, hk, hl, hd, hkl⟩ := h
  obtain ⟨g, hg, hm⟩ := parallelSubsets_three hk hl hd
  refine ⟨i, k, l, hs, g, hg, fun hp => hkl ?_⟩
  rw [hm] at hp
  simp only [List.pairwise_cons, List.mem_cons, List.not_mem_nil, or_false, forall_eq_or_imp,
    forall_eq] at hp
  exact hp.2.1

instance (x y : RepoEntry) : Decidable (Independent x y) :=
  inferInstanceAs (Decidable (_ ∧ _ ∧ ∀ _, _ → _))

end Repository
end Laswell
