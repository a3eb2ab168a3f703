import Laswell.Base.Cycle
import Laswell.Repository.Assemble

/-!
# Laswell.Repository.Diagnosis

What the ordering loop says of the entries it could not place. A round that finds nothing ready
either names what each entry is stuck behind, or calls the rest a cycle.

* `Stuck`: the entries that nothing of a run can bring forward.
* `Halted`: how the loop ends. `orderLoop_halted` goes through its rounds.
* `stuck_unplaced`: a stuck entry is never placed.
* `assemble_diagnosis`: a listing calls a cycle only what is one, is silent only where everything
  is placed, and never calls a cycle what is stuck.
-/

namespace Laswell
namespace Repository

open Base

/-- `a` depends on `b`. -/
def DependsOn (entries : List RepoEntry) (a b : String) : Prop := b ∈ dependsOn entries a

/-- Behind an entry that is neither applied nor runnable, or behind one that is itself stuck. -/
inductive Stuck (entries : List RepoEntry) : String → Prop where
  | behind {id d : String} {e : RepoEntry} (hd : d ∈ dependsOn entries id)
      (he : byId entries d = some e) (hs : e.status ≠ .applied)
      (hr : e.status.runnable = false) : Stuck entries id
  | after {id d : String} {e : RepoEntry} (hd : d ∈ dependsOn entries id)
      (he : byId entries d = some e) (hr : e.status.runnable = true) (h : Stuck entries d) :
      Stuck entries id

/-- The runnable entries that are in no level. -/
def Listing.unplaced (l : Listing) : List String :=
  (runnableIds l.migrations).filter fun id => id ∉ l.specs

/-! ## How the loop ends -/

/-- Nothing is left, and nothing is said; or of what is left nothing is ready. -/
structure Halted (entries : List RepoEntry) (remaining placed : List String)
    (r : List Level × List String) : Prop where
  ordered : Ordered entries remaining placed r.1
  left : remaining = (runnableIds entries).filter fun id => id ∉ placed
  done : remaining = [] → r.2 = []
  idle : remaining ≠ [] → remaining.filter (isReady entries placed) = [] ∧
    r.2 = stuckProblems entries placed remaining

theorem orderLoop_halted {entries : List RepoEntry} (hk : Keyed entries) :
    ∀ (fuel : Nat) (remaining placed : List String) (order : List Level) r,
      Ordered entries remaining placed order →
      (remaining = (runnableIds entries).filter fun id => id ∉ placed) →
      orderLoop entries fuel remaining placed order = some r →
      ∃ remaining' placed', Halted entries remaining' placed' r := by
  intro fuel
  induction fuel with
  | zero =>
    intro remaining placed order r ho hl h
    cases remaining with
    | nil => cases h; exact ⟨[], placed, ho, hl, fun _ => rfl, fun hne => absurd rfl hne⟩
    | cons id ids => cases h
  | succ fuel ih =>
    intro remaining placed order r ho hl h
    cases remaining with
    | nil => cases h; exact ⟨[], placed, ho, hl, fun _ => rfl, fun hne => absurd rfl hne⟩
    | cons id ids =>
      simp only [orderLoop] at h
      split at h
      · rename_i hr
        cases h
        have hidle : (id :: ids).filter (isReady entries placed) = [] := List.isEmpty_iff.mp hr
        exact ⟨id :: ids, placed, ho, hl, fun hnil => absurd hnil (List.cons_ne_nil _ _),
          fun _ => ⟨hidle, rfl⟩⟩
      · refine ih _ _ _ _ (orderRound_ordered hk ho) ?_ h
        rw [hl, List.filter_filter]
        refine List.filter_congr fun i _ => ?_
        simp only [List.mem_append, not_or, decide_not, Bool.decide_and]
        rw [Bool.and_right_comm, Bool.and_self]

/-! ## What is left -/

section Halted

variable {entries : List RepoEntry} {remaining placed : List String}
  {r : List Level × List String}

/-- An entry the loop knows, that could run and is not placed, is among the remaining ones. -/
theorem Halted.waiting_mem (h : Halted entries remaining placed r) {d : String}
    (hd : dependencyOutcome entries placed d = .waiting) : d ∈ remaining := by
  unfold dependencyOutcome at hd
  split at hd
  · cases hd
  · rename_i e he
    obtain ⟨hm, hs, -⟩ := byId_some he
    split at hd
    · cases hd
    · split at hd
      · cases hd
      · rename_i hp
        split at hd
        · rename_i hr
          have hrun : d ∈ runnableIds entries :=
            List.mem_map.mpr ⟨e, List.mem_filter.mpr ⟨hm, hr⟩, hs⟩
          rw [h.left]
          exact List.mem_filter.mpr ⟨hrun, by simpa using hp⟩
        · cases hd

/-- A remaining entry has a dependency that keeps it. -/
theorem Halted.kept (h : Halted entries remaining placed r) {id : String} (hid : id ∈ remaining) :
    ∃ d ∈ dependsOn entries id, dependencyOutcome entries placed d ≠ .satisfied := by
  have hne : remaining ≠ [] := List.ne_nil_of_mem hid
  have hready := (List.filter_eq_nil_iff.mp (h.idle hne).1) id hid
  simpa [isReady] using hready

theorem mem_blockedBy_iff {id : String} :
    blockedBy entries placed id ≠ [] ↔
      ∃ d ∈ dependsOn entries id, ∃ status, dependencyOutcome entries placed d = .blocked status := by
  unfold blockedBy
  rw [ne_eq, List.filterMap_eq_nil_iff]
  constructor
  · intro h
    by_contra hc
    refine h fun d hd => ?_
    split
    · rename_i status hs
      exact absurd ⟨d, hd, status, hs⟩ hc
    · rfl
  · rintro ⟨d, hd, status, hs⟩ h
    have := h d hd
    rw [hs] at this
    cases this

/-- Where no remaining entry is behind a blocked one, each is behind another remaining one. -/
theorem Halted.cyclic (h : Halted entries remaining placed r) (hne : remaining ≠ [])
    (hb : remaining.flatMap (blockedBy entries placed) = []) :
    Cyclic remaining (DependsOn entries) := by
  refine cyclic_of_successors hne fun id hid => ?_
  obtain ⟨d, hd, ho⟩ := h.kept hid
  have hfree : ¬ ∃ status, dependencyOutcome entries placed d = .blocked status := by
    rintro ⟨status, hs⟩
    exact mem_blockedBy_iff.mpr ⟨d, hd, status, hs⟩ (List.flatMap_eq_nil_iff.mp hb id hid)
  have hw : dependencyOutcome entries placed d = .waiting := by
    cases hout : dependencyOutcome entries placed d with
    | satisfied => exact absurd hout ho
    | waiting => rfl
    | blocked status => exact absurd ⟨status, hout⟩ hfree
  exact ⟨d, h.waiting_mem hw, hd⟩

end Halted

/-! ## What is stuck -/

section Stuck

variable {entries : List RepoEntry} {remaining placed : List String} {order : List Level}

theorem Ordered.mem_specs (ho : Ordered entries remaining placed order) {id : String} :
    id ∈ placed ↔ ∃ (i : Nat) (lv : Level), order[i]? = some lv ∧ id ∈ lv.specs := by
  rw [← ho.levels.mem_iff, List.mem_flatMap]
  constructor
  · rintro ⟨lv, hlv, hid⟩
    obtain ⟨i, hi⟩ := List.mem_iff_getElem?.mp hlv
    exact ⟨i, lv, hi, hid⟩
  · rintro ⟨i, lv, hi, hid⟩
    exact ⟨lv, List.mem_of_getElem? hi, hid⟩

/-- What the loop places could run. -/
theorem Ordered.runnable_of_placed (hk : Keyed entries)
    (ho : Ordered entries remaining placed order) {id : String} (hid : id ∈ placed) :
    ∃ e, byId entries id = some e ∧ e.status.runnable = true := by
  obtain ⟨e, -, -, hr, hb⟩ :=
    hk.byId_runnable (ho.split.subset (List.mem_append_left _ hid))
  exact ⟨e, hb, hr⟩

/-- A stuck entry is never placed: what it is behind is neither applied nor placed before. -/
theorem stuck_unplaced (hk : Keyed entries) (ho : Ordered entries remaining placed order)
    {id : String} (hs : Stuck entries id) : id ∉ placed := by
  induction hs with
  | @behind id d e hd he hs hr =>
    intro hid
    obtain ⟨i, lv, hi, hlv⟩ := ho.mem_specs.mp hid
    obtain ⟨hm, hspec, hname⟩ := byId_some he
    rcases ho.deps i lv hi id hlv d hd with hn | ⟨e', he', hs', happ⟩ | ⟨j, -, lv', hj, hd'⟩
    · rw [hn] at he; cases he
    · have heq := hk.byId_eq he' (by rw [hs']; exact hname)
      rw [hs', he] at heq
      cases heq
      exact hs happ
    · obtain ⟨e', he', hr'⟩ := ho.runnable_of_placed hk (ho.mem_specs.mpr ⟨j, lv', hj, hd'⟩)
      rw [he] at he'
      cases he'
      rw [hr] at hr'
      cases hr'
  | @after id d e hd he hr _ ih =>
    intro hid
    obtain ⟨i, lv, hi, hlv⟩ := ho.mem_specs.mp hid
    obtain ⟨hm, hspec, hname⟩ := byId_some he
    rcases ho.deps i lv hi id hlv d hd with hn | ⟨e', he', hs', happ⟩ | ⟨j, -, lv', hj, hd'⟩
    · rw [hn] at he; cases he
    · have heq := hk.byId_eq he' (by rw [hs']; exact hname)
      rw [hs', he] at heq
      cases heq
      rw [happ] at hr
      cases hr
    · exact ih (ho.mem_specs.mpr ⟨j, lv', hj, hd'⟩)

/-- Behind a stuck entry that could run there is one that is blocked itself, and it remains. -/
theorem Stuck.blocked (hk : Keyed entries) {r : List Level × List String}
    (h : Halted entries remaining placed r) {id : String} (hs : Stuck entries id)
    (hid : id ∈ runnableIds entries) : remaining.flatMap (blockedBy entries placed) ≠ [] := by
  induction hs with
  | @behind id d e hd he hs hr =>
    have hleft : id ∈ remaining := by
      rw [h.left]
      exact List.mem_filter.mpr
        ⟨hid, by simpa using stuck_unplaced hk h.ordered (.behind hd he hs hr)⟩
    have hplaced : d ∉ placed := by
      intro hp
      obtain ⟨e', he', hr'⟩ := h.ordered.runnable_of_placed hk hp
      rw [he] at he'
      cases he'
      rw [hr] at hr'
      cases hr'
    have hout : dependencyOutcome entries placed d = .blocked e.status := by
      unfold dependencyOutcome
      rw [he]
      simp only [if_neg hs, if_neg hplaced, hr, Bool.false_eq_true, if_false]
    intro hnil
    exact mem_blockedBy_iff.mpr ⟨d, hd, e.status, hout⟩ (List.flatMap_eq_nil_iff.mp hnil id hleft)
  | @after id d e hd he hr _ ih =>
    obtain ⟨hm, hspec, -⟩ := byId_some he
    exact ih (List.mem_map.mpr ⟨e, List.mem_filter.mpr ⟨hm, hr⟩, hspec⟩)

end Stuck

/-! ## The diagnosis -/

/-- A line about a blocked entry begins with the name of the entry, in quotes. -/
theorem cycleProblem_not_blocked {entries : List RepoEntry} {placed names : List String}
    {id : String} : cycleProblem names ∉ blockedBy entries placed id := by
  unfold blockedBy cycleProblem
  rw [List.mem_filterMap]
  rintro ⟨d, -, hd⟩
  split at hd
  · rename_i status _
    have htext := congrArg String.toList (Option.some.inj hd)
    simp only [String.toList_append] at htext
    have hhead := congrArg List.head? htext
    simp at hhead
  · cases hd

/-- What a listing may say of the entries that are not placed. -/
structure Listing.Diagnosed (l : Listing) (diagnosis : List String) : Prop where
  silent_iff : diagnosis = [] ↔ l.unplaced = []
  cycle : ∀ names, cycleProblem names ∈ diagnosis →
    diagnosis = [cycleProblem l.unplaced] ∧ Cyclic l.unplaced (DependsOn l.migrations)
  stuck : ∀ id ∈ runnableIds l.migrations, Stuck l.migrations id →
    id ∈ l.unplaced ∧ ∀ names, cycleProblem names ∉ diagnosis

theorem Halted.diagnosed {entries : List RepoEntry} {remaining placed : List String}
    {r : List Level × List String} (hk : Keyed entries) (h : Halted entries remaining placed r)
    {l : Listing} (hm : l.migrations = entries) (horder : l.order = r.1) :
    l.Diagnosed r.2 := by
  have hspecs : ∀ id, id ∈ l.specs ↔ id ∈ placed := by
    intro id
    rw [Listing.specs, horder]
    exact h.ordered.levels.mem_iff
  have hleft : l.unplaced = remaining := by
    rw [Listing.unplaced, hm, h.left]
    exact List.filter_congr fun id _ => by simp [hspecs]
  have hcycle : ∀ names, cycleProblem names ∈ r.2 →
      remaining ≠ [] ∧ remaining.flatMap (blockedBy entries placed) = [] := by
    intro names hn
    have hne : remaining ≠ [] := by
      intro hnil
      rw [h.done hnil] at hn
      cases hn
    refine ⟨hne, ?_⟩
    rw [(h.idle hne).2, stuckProblems] at hn
    split at hn
    · assumption
    · obtain ⟨id, -, hb⟩ := List.mem_flatMap.mp hn
      exact absurd hb cycleProblem_not_blocked
  refine ⟨?_, ?_, ?_⟩
  · rw [hleft]
    constructor
    · intro hnil
      by_contra hne
      rw [(h.idle hne).2, stuckProblems] at hnil
      split at hnil
      · cases hnil
      · rename_i hblocked
        exact hblocked hnil
    · exact h.done
  · intro names hn
    obtain ⟨hne, hb⟩ := hcycle names hn
    rw [hleft, hm]
    refine ⟨?_, h.cyclic hne hb⟩
    rw [(h.idle hne).2, stuckProblems, hb]
  · intro id hid hs
    rw [hm] at hid hs
    constructor
    · rw [hleft, h.left]
      exact List.mem_filter.mpr ⟨hid, by simpa using stuck_unplaced hk h.ordered hs⟩
    · intro names hn
      exact hs.blocked hk h hid (hcycle names hn).2

/-- A listing is made whatever the dependencies are, and the last of its problems are what the
loop says of the entries it did not place. -/
theorem assemble_diagnosis (views : List (String × View)) (entries : List RepoEntry)
    (problems notes : List String) (hk : Keyed entries) :
    ∃ (l : Listing) (diagnosis : List String), l.migrations = entries ∧
      (∀ fuel, entries.length ≤ fuel → assemble fuel views entries problems notes = some l) ∧
      l.problems = problems ++ modifiedProblems entries ++ missingProblems entries views ++
        diagnosis ∧
      l.Diagnosed diagnosis := by
  have hlen : (runnableIds entries).length ≤ entries.length := by
    rw [runnableIds, List.length_map]
    exact List.length_filter_le _ _
  obtain ⟨r, hr⟩ := orderLoop_total entries entries.length (runnableIds entries) [] [] hlen
  obtain ⟨remaining, placed, h⟩ :=
    orderLoop_halted hk _ _ _ _ _ (ordered_start entries) (by simp) hr
  refine ⟨listingOf views entries problems notes r, r.2, rfl, ?_, rfl, h.diagnosed hk rfl rfl⟩
  intro fuel hf
  rw [assemble, orderLoop_mono entries _ fuel _ _ _ _ hr hf]
  rfl

/-- One entry behind a held one, and one behind itself: the listing has one problem, about the
first. Of the second alone it says that it is a cycle. -/
theorem assemble_diagnosis_held :
    let entries : List RepoEntry :=
      [{ specId := "0001", status := .heldForRelease },
       { specId := "0002", dependsOn := ["0001"] },
       { specId := "0003", dependsOn := ["0003"] }]
    Keyed entries ∧ ∃ (l : Listing) (diagnosis : List String), l.Diagnosed diagnosis ∧ l.problems = diagnosis ∧
      l.unplaced = ["0002", "0003"] ∧ diagnosis.length = 1 := by
  intro entries
  have hk : Keyed entries := ⟨by decide, by decide⟩
  obtain ⟨l, diagnosis, -, hl, hp, hd⟩ := assemble_diagnosis [] entries [] [] hk
  have h3 : (assemble 3 [] entries [] []).map
      (fun l => (l.problems.length, l.unplaced)) = some (1, ["0002", "0003"]) := by
    decide
  have hempty : modifiedProblems entries ++ missingProblems entries [] = [] := by decide
  rw [hl 3 (by decide), Option.map_some, Option.some.injEq, Prod.mk.injEq] at h3
  have hproblems : l.problems = diagnosis := by
    rw [hp, List.nil_append, hempty, List.nil_append]
  exact ⟨hk, l, diagnosis, hd, hproblems, h3.2, hproblems ▸ h3.1⟩

end Repository
end Laswell
