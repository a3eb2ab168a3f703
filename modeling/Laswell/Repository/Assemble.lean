import Laswell.Repository.Subsets

/-!
# Laswell.Repository.Assemble

The order of a listing: topological levels from `depends_on`, each split into the groups of
`parallelSubsets`. The loop of `assemble` takes, round after round, the remaining entries whose
dependencies are applied or already placed, and stops with a problem when there is none.

* `dependencyOutcome`: the four things a dependency can be.
* `orderLoop_total`: the loop ends, after at most as many rounds as there are runnable entries.
* `Ordered`: the invariant of a run of the loop. `orderRound_ordered` is one round of it and
  `orderLoop_ordered` the whole run.
* `assemble_ordered`: a listing without problems orders exactly the runnable entries, each after
  everything it depends on.
-/

namespace Laswell
namespace Repository

structure Listing where
  migrations : List RepoEntry
  order : List Level
  problems : List String
  notes : List String

def Listing.specs (l : Listing) : List String := l.order.flatMap Level.specs

/-- `by_id`: an entry without an id is not in it, and the last of two with one id is. -/
def byId (entries : List RepoEntry) (id : String) : Option RepoEntry :=
  if id = "" then none else (entries.filter fun e => e.specId = id).getLast?

def runnableIds (entries : List RepoEntry) : List String :=
  (entries.filter fun e => e.status.runnable).map RepoEntry.specId

def dependsOn (entries : List RepoEntry) (id : String) : List String :=
  match byId entries id with
  | none => []
  | some e => e.dependsOn

/-- What a dependency is to a round of the loop. -/
inductive DependencyOutcome where
  | satisfied
  | waiting
  | blocked (status : RepoStatus)
  deriving DecidableEq

/-- One absent from the repository is reported elsewhere and does not block; an applied one is
satisfied, one placed in an earlier level goes first, one still runnable is waited for, and one
in any other state blocks. -/
def dependencyOutcome (entries : List RepoEntry) (placed : List String) (d : String) :
    DependencyOutcome :=
  match byId entries d with
  | none => .satisfied
  | some e =>
    if e.status = .applied then .satisfied
    else if d ∈ placed then .satisfied
    else if e.status.runnable then .waiting
    else .blocked e.status

def isReady (entries : List RepoEntry) (placed : List String) (id : String) : Bool :=
  (dependsOn entries id).all fun d => dependencyOutcome entries placed d = .satisfied

/-- Why `id` is not ready, one line per dependency that nothing in this run will satisfy. -/
def blockedBy (entries : List RepoEntry) (placed : List String) (id : String) : List String :=
  (dependsOn entries id).filterMap fun d =>
    match dependencyOutcome entries placed d with
    | .blocked status =>
      some ("\"" ++ id ++ "\" depends on \"" ++ d ++ "\", which is " ++ status.toString ++
        " -- not applied and not runnable, so nothing that depends on it can be ordered")
    | _ => none

def cycleProblem (remaining : List String) : String :=
  "the depends_on graph has a cycle among [" ++ ", ".intercalate remaining ++
    "]; none of them can be ordered"

/-- The problems of a round that placed nothing: what each entry is stuck behind, or a cycle. -/
def stuckProblems (entries : List RepoEntry) (placed remaining : List String) : List String :=
  match remaining.flatMap (blockedBy entries placed) with
  | [] => [cycleProblem remaining]
  | blocked => blocked

/-- The ordering loop. `none` is a loop that has not ended within `fuel` rounds. -/
def orderLoop (entries : List RepoEntry) :
    Nat → (remaining placed : List String) → List Level → Option (List Level × List String)
  | _, [], _, order => some (order, [])
  | 0, _ :: _, _, _ => none
  | fuel + 1, id :: ids, placed, order =>
    let remaining := id :: ids
    let ready := remaining.filter (isReady entries placed)
    if ready.isEmpty then some (order, stuckProblems entries placed remaining)
    else
      let placed' := placed ++ ready
      orderLoop entries fuel (remaining.filter fun i => i ∉ placed') placed'
        (order ++ [parallelSubsets (ready.filterMap (byId entries))])

/-- A dependency no file here defines and no ledger of the listing records as succeeded. -/
def missingProblems (entries : List RepoEntry) (views : List (String × View)) : List String :=
  (runnableIds entries).flatMap fun id =>
    (dependsOn entries id).filterMap fun d =>
      if (byId entries d).isSome ∨ appliedSomewhere views d then none
      else some ("\"" ++ id ++ "\" depends on \"" ++ d ++ "\", which is not in this repository " ++
        "and which no database in this listing records as applied")

def modifiedProblems (entries : List RepoEntry) : List String :=
  (entries.filter fun e => e.status = .modified).map fun e => e.error ++ " -- " ++ e.hint

def listingOf (views : List (String × View)) (entries : List RepoEntry)
    (problems notes : List String) (r : List Level × List String) : Listing :=
  { migrations := entries
    order := r.1
    problems := problems ++ modifiedProblems entries ++ missingProblems entries views ++ r.2
    notes := notes }

def assemble (fuel : Nat) (views : List (String × View)) (entries : List RepoEntry)
    (problems notes : List String) : Option Listing :=
  (orderLoop entries fuel (runnableIds entries) [] []).map
    (listingOf views entries problems notes)

/-- What a scan promises of its entries: an id is claimed by one of them only, and whatever could
run has one. -/
structure Keyed (entries : List RepoEntry) : Prop where
  unique : ((entries.map RepoEntry.specId).filter fun id => id ≠ "").Nodup
  named : ∀ e ∈ entries, e.status.runnable = true → e.specId ≠ ""

/-! ## Lookup -/

theorem byId_some {entries : List RepoEntry} {id : String} {e : RepoEntry}
    (h : byId entries id = some e) : e ∈ entries ∧ e.specId = id ∧ id ≠ "" := by
  unfold byId at h
  split at h
  · cases h
  · rename_i hid
    have hm := List.mem_of_getLast? h
    simp only [List.mem_filter, decide_eq_true_eq] at hm
    exact ⟨hm.1, hm.2, hid⟩

theorem byId_none {entries : List RepoEntry} {id : String} (h : byId entries id = none)
    (hid : id ≠ "") : ∀ e ∈ entries, e.specId ≠ id := by
  intro e he hs
  rw [byId, if_neg hid, List.getLast?_eq_none_iff, List.filter_eq_nil_iff] at h
  exact h e he (by simpa using hs)

section Keyed

variable {entries : List RepoEntry}

theorem Keyed.byId_eq (hk : Keyed entries) {e : RepoEntry} (he : e ∈ entries)
    (hid : e.specId ≠ "") : byId entries e.specId = some e := by
  cases hb : byId entries e.specId with
  | none => exact absurd rfl (byId_none hb hid e he)
  | some e' =>
    obtain ⟨he', hs, -⟩ := byId_some hb
    -- two entries with one non-empty id would both survive the filter, in two places
    have hinj := List.inj_on_of_nodup_map (l := entries.filter fun e => e.specId ≠ "")
      (f := RepoEntry.specId) (by simpa [List.filter_map, Function.comp_def] using hk.unique)
    exact congrArg some (hinj (by simp [he', hs, hid]) (by simp [he, hid]) hs)

theorem Keyed.runnable_nodup (hk : Keyed entries) : (runnableIds entries).Nodup := by
  have hsub : (runnableIds entries).Sublist
      ((entries.map RepoEntry.specId).filter fun id => id ≠ "") := by
    rw [List.filter_map]
    refine List.Sublist.map _ ?_
    have : (entries.filter fun e => e.status.runnable) =
        ((entries.filter ((fun id => decide (id ≠ "")) ∘ RepoEntry.specId)).filter
          fun e => e.status.runnable) := by
      rw [List.filter_filter]
      refine List.filter_congr fun e he => ?_
      by_cases hr : e.status.runnable = true
      · simp [hr, hk.named e he hr]
      · simp [hr]
    rw [this]
    exact List.filter_sublist
  exact hk.unique.sublist hsub

/-- A runnable id is looked up as the entry it came from. -/
theorem Keyed.byId_runnable (hk : Keyed entries) {id : String} (h : id ∈ runnableIds entries) :
    ∃ e ∈ entries, e.specId = id ∧ e.status.runnable = true ∧ byId entries id = some e := by
  simp only [runnableIds, List.mem_map, List.mem_filter] at h
  obtain ⟨e, ⟨he, hr⟩, rfl⟩ := h
  exact ⟨e, he, rfl, hr, hk.byId_eq he (hk.named e he hr)⟩

theorem Keyed.filterMap_byId (hk : Keyed entries) :
    ∀ {ids : List String}, (∀ id ∈ ids, id ∈ runnableIds entries) →
      (ids.filterMap (byId entries)).map RepoEntry.specId = ids := by
  intro ids
  induction ids with
  | nil => intro _; rfl
  | cons id ids ih =>
    intro h
    obtain ⟨e, -, hs, -, hb⟩ := hk.byId_runnable (h id (by simp))
    rw [List.filterMap_cons_some hb, List.map_cons, hs, ih fun i hi => h i (by simp [hi])]

end Keyed

/-! ## The loop ends -/

theorem orderLoop_total (entries : List RepoEntry) :
    ∀ (fuel : Nat) (remaining placed : List String) (order : List Level),
      remaining.length ≤ fuel → ∃ r, orderLoop entries fuel remaining placed order = some r := by
  intro fuel
  induction fuel with
  | zero =>
    intro remaining placed order h
    rw [List.length_eq_zero_iff.mp (Nat.le_zero.mp h)]
    exact ⟨_, rfl⟩
  | succ fuel ih =>
    intro remaining placed order h
    cases remaining with
    | nil => exact ⟨_, rfl⟩
    | cons id ids =>
      simp only [orderLoop]
      split
      · exact ⟨_, rfl⟩
      · rename_i hr
        -- some ready entry leaves the list, so the next round has fewer
        have hne : (id :: ids).filter (isReady entries placed) ≠ [] := by
          rwa [List.isEmpty_iff] at hr
        obtain ⟨r, hmem⟩ := List.exists_mem_of_ne_nil _ hne
        have hlt : ((id :: ids).filter fun i =>
            i ∉ placed ++ (id :: ids).filter (isReady entries placed)).length <
              (id :: ids).length :=
          List.length_filter_lt_length_iff_exists.mpr
            ⟨r, (List.mem_filter.mp hmem).1, by
              simp only [decide_eq_true_eq, not_not]; exact List.mem_append_right _ hmem⟩
        exact ih _ _ _ (by omega)

/-- More fuel does not change the result. -/
theorem orderLoop_mono (entries : List RepoEntry) :
    ∀ (fuel more : Nat) (remaining placed : List String) (order : List Level) r,
      orderLoop entries fuel remaining placed order = some r → fuel ≤ more →
      orderLoop entries more remaining placed order = some r := by
  intro fuel
  induction fuel with
  | zero =>
    intro more remaining placed order r h _
    cases remaining with
    | nil => cases more <;> exact h
    | cons id ids => cases h
  | succ fuel ih =>
    intro more remaining placed order r h hle
    obtain ⟨more, rfl⟩ : ∃ m, more = m + 1 := ⟨more - 1, by omega⟩
    cases remaining with
    | nil => exact h
    | cons id ids =>
      simp only [orderLoop] at h ⊢
      split at h
      · rename_i hr; rw [if_pos hr]; exact h
      · rename_i hr; rw [if_neg hr]; exact ih _ _ _ _ _ h (by omega)

/-! ## What a run of the loop keeps -/

/-- A dependency of an entry in level `i`: applied, defined by no file, or in an earlier level. -/
def DependencyMet (entries : List RepoEntry) (order : List Level) (i : Nat) (d : String) : Prop :=
  byId entries d = none ∨ (∃ e ∈ entries, e.specId = d ∧ e.status = .applied) ∨
    ∃ j < i, ∃ lv, order[j]? = some lv ∧ d ∈ lv.specs

/-- The invariant of the loop: the levels hold what was placed, the placed and the remaining ids
are the runnable ones, and every dependency of a placed entry is met by an earlier level. -/
structure Ordered (entries : List RepoEntry) (remaining placed : List String)
    (order : List Level) : Prop where
  levels : (order.flatMap Level.specs).Perm placed
  split : (placed ++ remaining).Perm (runnableIds entries)
  deps : ∀ i lv, order[i]? = some lv → ∀ id ∈ lv.specs, ∀ d ∈ dependsOn entries id,
    DependencyMet entries order i d

theorem DependencyMet.append {entries : List RepoEntry} {order more : List Level} {i : Nat}
    {d : String} (h : DependencyMet entries order i d) :
    DependencyMet entries (order ++ more) i d := by
  refine h.imp id (Or.imp id ?_)
  rintro ⟨j, hj, lv, hlv, hd⟩
  exact ⟨j, hj, lv, by rw [List.getElem?_append_left (List.getElem?_eq_some_iff.mp hlv).1, hlv], hd⟩

theorem dependencyMet_of_satisfied {entries : List RepoEntry} {remaining placed : List String}
    {order : List Level} (ho : Ordered entries remaining placed order) {d : String}
    (h : dependencyOutcome entries placed d = .satisfied) :
    DependencyMet entries order order.length d := by
  unfold dependencyOutcome at h
  split at h
  · exact .inl ‹_›
  · rename_i e he
    obtain ⟨hm, hs, -⟩ := byId_some he
    split at h
    · exact .inr (.inl ⟨e, hm, hs, ‹_›⟩)
    · split at h
      · rename_i hp
        obtain ⟨lv, hlv, hd⟩ := List.mem_flatMap.mp (ho.levels.mem_iff.mpr hp)
        obtain ⟨j, hj⟩ := List.mem_iff_getElem?.mp hlv
        exact .inr (.inr ⟨j, (List.getElem?_eq_some_iff.mp hj).1, lv, hj, hd⟩)
      · split at h <;> cases h

/-- One round: the ready entries become the next level and leave the list. -/
theorem orderRound_ordered {entries : List RepoEntry} (hk : Keyed entries)
    {remaining placed : List String} {order : List Level}
    (ho : Ordered entries remaining placed order) :
    let ready := remaining.filter (isReady entries placed)
    Ordered entries (remaining.filter fun i => i ∉ placed ++ ready) (placed ++ ready)
      (order ++ [parallelSubsets (ready.filterMap (byId entries))]) := by
  intro ready
  have hnd : (placed ++ remaining).Nodup := ho.split.nodup_iff.mpr hk.runnable_nodup
  have hrun : ∀ id ∈ ready, id ∈ runnableIds entries := fun id h =>
    ho.split.subset (List.mem_append_right _ (List.mem_filter.mp h).1)
  have hspecs : (parallelSubsets (ready.filterMap (byId entries))).specs.Perm ready := by
    have := parallelSubsets_specs_perm (ready.filterMap (byId entries))
    rwa [hk.filterMap_byId hrun] at this
  refine ⟨?_, ?_, ?_⟩
  · rw [List.flatMap_append, List.flatMap_singleton]
    exact ho.levels.append hspecs
  · have hleft : (remaining.filter fun i => i ∉ placed ++ ready) =
        remaining.filter fun i => !isReady entries placed i := by
      refine List.filter_congr fun i hi => ?_
      have hp : i ∉ placed := fun h => (List.disjoint_of_nodup_append hnd) h hi
      simp [ready, hp, hi]
    rw [hleft, List.append_assoc]
    exact ((List.filter_append_perm (isReady entries placed) remaining).append_left
      placed).trans ho.split
  · intro i lv hlv id hid d hd
    rcases Nat.lt_or_ge i order.length with hi | hi
    · rw [List.getElem?_append_left hi] at hlv
      exact (ho.deps i lv hlv id hid d hd).append
    · rw [List.getElem?_append_right hi, List.getElem?_singleton] at hlv
      split at hlv
      · rename_i h0
        cases hlv
        have hready := (List.mem_filter.mp (hspecs.subset hid)).2
        have hsat := (List.all_eq_true.mp hready) d hd
        have hlen : i = order.length := by omega
        rw [hlen]
        exact (dependencyMet_of_satisfied ho (by simpa using hsat)).append
      · cases hlv

/-- The whole run: the invariant holds of the result, and if no problem is reported nothing is
left over. -/
theorem orderLoop_ordered {entries : List RepoEntry} (hk : Keyed entries) :
    ∀ (fuel : Nat) (remaining placed : List String) (order : List Level) r,
      Ordered entries remaining placed order →
      orderLoop entries fuel remaining placed order = some r → r.2 = [] →
      ∃ placed', Ordered entries [] placed' r.1 := by
  intro fuel
  induction fuel with
  | zero =>
    intro remaining placed order r ho h _
    cases remaining with
    | nil => cases h; exact ⟨placed, ho⟩
    | cons id ids => cases h
  | succ fuel ih =>
    intro remaining placed order r ho h hr
    cases remaining with
    | nil => cases h; exact ⟨placed, ho⟩
    | cons id ids =>
      simp only [orderLoop] at h
      split at h
      · cases h
        simp only [stuckProblems] at hr
        split at hr
        · cases hr
        · rename_i hne; exact absurd hr hne
      · exact ih _ _ _ _ (orderRound_ordered hk ho) h hr

theorem ordered_start (entries : List RepoEntry) :
    Ordered entries (runnableIds entries) [] [] :=
  ⟨.nil, .refl _, fun i lv h => by simp at h⟩

theorem missingProblems_nil {entries : List RepoEntry} {views : List (String × View)}
    (h : missingProblems entries views = []) {id d : String} (hid : id ∈ runnableIds entries)
    (hd : d ∈ dependsOn entries id) (hn : byId entries d = none) :
    appliedSomewhere views d = true := by
  simp only [missingProblems, List.flatMap_eq_nil_iff, List.filterMap_eq_nil_iff] at h
  have := h id hid d hd
  split at this
  · rename_i hc; simpa [hn] using hc
  · cases this

/-- What the order of a listing is for: exactly the runnable entries, each once, and every
dependency of one of them applied, recorded by a ledger though no file here defines it, or in a
strictly earlier level. -/
structure Listing.InOrder (views : List (String × View)) (l : Listing) : Prop where
  perm : l.specs.Perm (runnableIds l.migrations)
  nodup : l.specs.Nodup
  deps : ∀ (i : Nat) (lv : Level), l.order[i]? = some lv →
    ∀ id ∈ lv.specs, ∀ d ∈ dependsOn l.migrations id,
      (∃ e ∈ l.migrations, e.specId = d ∧ e.status = .applied) ∨
      (byId l.migrations d = none ∧ appliedSomewhere views d = true) ∨
      ∃ j < i, ∃ lv' : Level, l.order[j]? = some lv' ∧ d ∈ lv'.specs

theorem listingOf_inOrder {views : List (String × View)} {entries : List RepoEntry}
    {problems notes : List String} {fuel : Nat} {r : List Level × List String}
    (hk : Keyed entries) (hr : orderLoop entries fuel (runnableIds entries) [] [] = some r)
    (hp : (listingOf views entries problems notes r).problems = []) :
    (listingOf views entries problems notes r).InOrder views := by
  simp only [listingOf, List.append_eq_nil_iff] at hp
  obtain ⟨placed, ho⟩ := orderLoop_ordered hk _ _ _ _ _ (ordered_start entries) hr hp.2
  have hperm : (r.1.flatMap Level.specs).Perm (runnableIds entries) :=
    ho.levels.trans (by simpa using ho.split)
  refine ⟨hperm, hperm.nodup_iff.mpr hk.runnable_nodup, ?_⟩
  intro i lv hlv id hid d hd
  rcases ho.deps i lv hlv id hid d hd with h | h | h
  · have hrun : id ∈ runnableIds entries :=
      hperm.subset (List.mem_flatMap.mpr ⟨lv, List.mem_of_getElem? hlv, hid⟩)
    exact .inr (.inl ⟨h, missingProblems_nil hp.1.2 hrun hd h⟩)
  · exact .inl h
  · exact .inr (.inr h)

/-- The listing is made whatever the dependencies are, in at most one round per entry, and where
it has no problems its order is as `InOrder` says. -/
theorem assemble_ordered (views : List (String × View)) (entries : List RepoEntry)
    (problems notes : List String) (hk : Keyed entries) :
    ∃ l : Listing, l.migrations = entries ∧
      (∀ fuel, entries.length ≤ fuel → assemble fuel views entries problems notes = some l) ∧
      (l.problems = [] → l.InOrder views) := by
  have hlen : (runnableIds entries).length ≤ entries.length := by
    rw [runnableIds, List.length_map]
    exact List.length_filter_le _ _
  obtain ⟨r, hr⟩ := orderLoop_total entries entries.length (runnableIds entries) [] [] hlen
  refine ⟨listingOf views entries problems notes r, rfl, ?_, listingOf_inOrder hk hr⟩
  intro fuel hf
  rw [assemble, orderLoop_mono entries _ fuel _ _ _ _ hr hf]
  rfl

/-- A failed entry behind a pending one behind an applied one and an id only a ledger knows: two
levels, in that order. -/
theorem assemble_ordered_chain :
    let views : List (String × View) :=
      [("main", { applied := [("default", [("0000", { succeeded := ["d0"] })])] })]
    let entries : List RepoEntry :=
      [{ specId := "0003", status := .failed, dependsOn := ["0002"] },
       { specId := "0001", status := .applied },
       { specId := "0002", dependsOn := ["0001", "0000"] }]
    Keyed entries ∧ ∃ l : Listing,
      (∀ fuel, 3 ≤ fuel → assemble fuel views entries [] [] = some l) ∧
      l.order.map Level.specs = [["0002"], ["0003"]] ∧ l.InOrder views := by
  intro views entries
  have hk : Keyed entries := ⟨by decide, by decide⟩
  obtain ⟨l, -, hl, ho⟩ := assemble_ordered views entries [] [] hk
  have h3 : (assemble 3 views entries [] []).map
      (fun l => (l.problems, l.order.map Level.specs)) = some ([], [["0002"], ["0003"]]) := by
    decide
  rw [hl 3 (by decide), Option.map_some, Option.some.injEq, Prod.mk.injEq] at h3
  exact ⟨hk, l, hl, h3.2, ho h3.1⟩

end Repository
end Laswell
