import Laswell.Executor.GroupReach
import Laswell.Executor.WalkSpec

/-!
# Laswell.Executor.GroupStuck

Where a grouped walk does not get past a group: its cursor has no text for the group it is in, or
none for the key it has come to, and the next batch starts over.

* `WalksOnce`: no row has the empty text for its group; and where one has it for its key and still
  matches once it is changed, the first batch of its group goes on behind it.
* `finds_before`: from a cursor before such a group, a batch goes on to one.
* `group_walk_iff`: the walk ends with every row that matches changed once, just where `WalksOnce`.
-/

namespace Laswell
namespace Executor

open Base

section

variable {γ κ ρ : Type} [LinearOrder γ] [LinearOrder κ] {upd : GroupedUpdate γ κ ρ}
  {rows : List (γ × κ × ρ)} {batch batchBytes : Int}

/-! ## The condition -/

/-- Behind a row that is the first of its group, a batch has room for the next one that matches. -/
def SecondFits (upd : GroupedUpdate γ κ ρ) (rows : List (γ × κ × ρ)) (batch batchBytes : Int)
    (r : γ × κ × ρ) : Prop :=
  2 ≤ batch ∧ ∃ r' ∈ rows, r'.1 = r.1 ∧ upd.filter r'.2.2 = true ∧ r'.2.1 ≠ r.2.1 ∧
    keyBytes (upd.keyText.write r'.2.1) ≤ batchBytes ∧
    ∀ r'' ∈ rows, r''.1 = r.1 → upd.filter r''.2.2 = true → r''.2.1 ≠ r.2.1 → r'.2.1 ≤ r''.2.1

structure WalksOnce (upd : GroupedUpdate γ κ ρ) (rows : List (γ × κ × ρ))
    (batch batchBytes : Int) : Prop where
  groups : ∀ r ∈ rows, upd.groupText.write r.1 ≠ ""
  keys : ∀ r ∈ rows, upd.keyText.write r.2.1 = "" → upd.filter r.2.2 = true →
    upd.filter (upd.update r.2.2) = true → SecondFits upd rows batch batchBytes r

theorem mem_wantedIn {g : γ} {k : κ} : k ∈ upd.wantedIn g rows ↔
    ∃ r ∈ rows, r.1 = g ∧ upd.filter r.2.2 = true ∧ r.2.1 = k := by
  simp only [GroupedUpdate.wantedIn, List.mem_map, List.mem_filter, Bool.and_eq_true,
    decide_eq_true_eq]
  constructor
  · rintro ⟨r, ⟨hr, hg, hf⟩, rfl⟩
    exact ⟨r, hr, hg, hf, rfl⟩
  · rintro ⟨r, hr, hg, hf, rfl⟩
    exact ⟨r, ⟨hr, hg, hf⟩, rfl⟩

theorem wantedIn_nodup (hunique : (rows.map fun r => (r.1, r.2.1)).Nodup) (g : γ) :
    (upd.wantedIn g rows).Nodup := by
  have hpairs : ((rows.filter fun r => decide (r.1 = g) && upd.filter r.2.2).map
      fun r => (r.1, r.2.1)).Nodup := hunique.sublist (List.filter_sublist.map _)
  refine List.Nodup.of_map (fun k => (g, k)) ?_
  have hsame : (upd.wantedIn g rows).map (fun k => (g, k)) =
      (rows.filter fun r => decide (r.1 = g) && upd.filter r.2.2).map fun r => (r.1, r.2.1) := by
    rw [GroupedUpdate.wantedIn, List.map_map]
    refine List.map_congr_left fun r hr => ?_
    have hg : r.1 = g := by
      have h := (List.mem_filter.mp hr).2
      simp only [Bool.and_eq_true, decide_eq_true_eq] at h
      exact h.1
    simp [hg]
  rw [hsame]
  exact hpairs

theorem endsOnEmpty_iff (hunique : (rows.map fun r => (r.1, r.2.1)).Nodup) (hbatch : 0 < batch)
    {r : γ × κ × ρ} (hr : r ∈ rows) (hempty : upd.keyText.write r.2.1 = "")
    (hf : upd.filter r.2.2 = true) :
    EndsOnEmpty upd rows batch batchBytes r.1 ↔ ¬SecondFits upd rows batch batchBytes r := by
  have hnodup : (upd.wantedIn r.1 rows).Nodup := wantedIn_nodup hunique r.1
  have hmem : r.2.1 ∈ upd.wantedIn r.1 rows := mem_wantedIn.mpr ⟨r, hr, rfl, hf, rfl⟩
  have hspan := span_least hnodup hmem fun k _ => upd.empty_first _ k hempty
  have hrest : ∀ k, k ∈ span (some r.2.1) none (upd.wantedIn r.1 rows) ↔
      k ∈ upd.wantedIn r.1 rows ∧ k ≠ r.2.1 := by
    intro k
    rw [mem_span]
    constructor
    · rintro ⟨hk, hafter, -⟩
      have hlt : r.2.1 < k := by simpa [after] using hafter
      exact ⟨hk, hlt.ne'⟩
    · rintro ⟨hk, hne⟩
      have hlt := lt_of_le_of_ne (upd.empty_first _ k hempty) hne.symm
      exact ⟨hk, by simpa [after] using hlt, rfl⟩
  have hsorted := span_sorted (some r.2.1) none (upd.wantedIn r.1 rows)
  obtain ⟨n, hn⟩ : ∃ n, batch.toNat = n + 1 := ⟨batch.toNat - 1, by omega⟩
  rw [EndsOnEmpty, page, hspan, hn, List.take_succ_cons, List.map_cons, hempty, withinBudget]
  generalize hlater : span (some r.2.1) none (upd.wantedIn r.1 rows) = later at *
  cases later with
  | nil =>
    refine iff_of_true (by simp [withinBudget]) ?_
    rintro ⟨-, r', hr', hg, hf', hne, -⟩
    have hin := (hrest r'.2.1).mpr ⟨mem_wantedIn.mpr ⟨r', hr', hg, hf', rfl⟩, hne⟩
    cases hin
  | cons k ks =>
    cases n with
    | zero =>
      refine iff_of_true (by simp [withinBudget]) ?_
      rintro ⟨htwo, -⟩
      omega
    | succ n =>
      have hk := (hrest k).mp List.mem_cons_self
      have hleast : ∀ k', k' ∈ upd.wantedIn r.1 rows → k' ≠ r.2.1 → k ≤ k' := by
        intro k' hk' hne
        rcases List.mem_cons.mp ((hrest k').mpr ⟨hk', hne⟩) with h | h
        · exact h ▸ le_rfl
        · exact (List.pairwise_cons.mp hsorted).1 k' h
      have hzero : keyBytes "" = 0 := rfl
      rw [List.take_succ_cons, List.map_cons, withinBudget, hzero, zero_add]
      by_cases hfits : batchBytes < keyBytes (upd.keyText.write k)
      · rw [if_pos hfits]
        refine iff_of_true rfl ?_
        rintro ⟨-, r', hr', hg, hf', hne, hsize, hleast'⟩
        obtain ⟨r₁, hr₁, hg₁, hf₁, rfl⟩ := mem_wantedIn.mp hk.1
        have hle := hleast' r₁ hr₁ hg₁ hf₁ hk.2
        have hge := hleast r'.2.1 (mem_wantedIn.mpr ⟨r', hr', hg, hf', rfl⟩) hne
        rw [le_antisymm hle hge] at hsize
        omega
      · rw [if_neg hfits]
        refine iff_of_false ?_ (not_not.mpr ⟨by omega, ?_⟩)
        · intro hlast
          rw [List.getLast?_cons_cons] at hlast
          have hin := List.mem_of_getLast? hlast
          have hwritten : "" ∈ (k :: ks.take n).map upd.keyText.write := by
            rcases List.mem_cons.mp hin with h | h
            · exact List.mem_map.mpr ⟨k, List.mem_cons_self, h.symm⟩
            · rw [List.map_cons]
              exact List.mem_cons_of_mem _ ((withinBudget_isPrefix _ _).subset h)
          obtain ⟨k', hk', hempty'⟩ := List.mem_map.mp hwritten
          have hlater' : k' ∈ k :: ks := by
            rcases List.mem_cons.mp hk' with h | h
            · exact h ▸ List.mem_cons_self
            · exact List.mem_cons_of_mem _ (List.mem_of_mem_take h)
          exact ((hrest k').mp hlater').2
            (le_antisymm (upd.empty_first _ _ hempty') (upd.empty_first _ _ hempty))
        · obtain ⟨r₁, hr₁, hg₁, hf₁, rfl⟩ := mem_wantedIn.mp hk.1
          exact ⟨r₁, hr₁, hg₁, hf₁, hk.2, by omega, fun r'' hr'' hg'' hf'' hne =>
            hleast _ (mem_wantedIn.mpr ⟨r'', hr'', hg'', hf'', rfl⟩) hne⟩

/-! ## Before a group -/

variable {g g₀ : γ} {d : Table γ κ ρ} {codec : ArrayText} {holdsLocks : Bool} {p : Option κ}

/-- A cursor that a walk passes on its way to a group, or at the start of it. -/
def BeforeGroup (upd : GroupedUpdate γ κ ρ) (g₀ : γ) (at_ : GroupCursor) : Prop :=
  at_.group = "" ∨ (∃ g < g₀, at_.group = upd.groupText.write g ∧
    ∃ p, ReadsPart upd.keyText at_.key p) ∨ at_ = { group := upd.groupText.write g₀, key := "" }

/-- What a batch from there comes to: it is not the last one, and leaves the walk there, with `Good`
of the rows, or it has made `Over` true of them. -/
def StaysBefore (upd : GroupedUpdate γ κ ρ) (codec : ArrayText) (g₀ : γ)
    (Good Over : Table γ κ ρ → Prop) (o : BatchOutcome) (d : Table γ κ ρ) : Prop :=
  ¬(o.commitFirst = false ∧ o.skippedOnly = false ∧ o.considered = 0) ∧
    (Over d ∨ (Good d ∧ ∃ at_, GroupCursor.decode codec o.cursor = some at_ ∧
      BeforeGroup upd g₀ at_))

theorem beforeGroup_next {pg : Option γ} {text : String} (hreads : ReadsPart upd.groupText text pg)
    (hlive : Relation.liveGroups d = rows.map fun r => r.1) (hmem : g₀ ∈ rows.map fun r => r.1)
    (hafter : after pg g₀ = true) :
    ∃ group, upd.relation.nextGroupSql (maybe text) d = .ok (some group) ∧
      BeforeGroup upd g₀ { group, key := "" } := by
  obtain ⟨g', hnext, hle⟩ := exists_next hmem hafter
  refine ⟨upd.groupText.write g', ?_, ?_⟩
  · rw [nextGroupSql_eq hreads, hlive, hnext]
    rfl
  · rcases hle.lt_or_eq with hlt | rfl
    · exact .inr (.inl ⟨g', hlt, rfl, none, readsPart_empty _⟩)
    · exact .inr (.inr rfl)

/-- Looking into a group on the way. -/
theorem finds_before {Good Over : Table γ κ ρ → Prop}
    (hlive : Relation.liveGroups d = rows.map fun r => r.1) (hmem : g₀ ∈ rows.map fun r => r.1)
    (hgood : Good d) (hkeep : ∀ ks, Good (upd.relation.applyInGroup g ks d).2)
    (hahead : ∃ pg, ReadsPart upd.groupText (upd.groupText.write g) pg ∧ after pg g₀ = true)
    (hstay : ∀ key, (∃ p, ReadsPart upd.keyText key p) →
      BeforeGroup upd g₀ { group := upd.groupText.write g, key }) {at_ : GroupCursor}
    (hgroup : at_.group = upd.groupText.write g) (hkey : ReadsPart upd.keyText at_.key p) :
    Finds codec upd.relation.nextGroupSql upd.relation.selectInGroupSql
      upd.relation.applyInGroupSql batch batchBytes holdsLocks d (BeforeGroup upd g₀)
      (StaysBefore upd codec g₀ Good Over) at_ := by
  obtain ⟨pg, hpg, hafter⟩ := hahead
  have hselect : upd.relation.selectInGroupSql at_.group (maybe at_.key) batch d =
      .ok ((page p none batch.toNat (upd.relation.matchedIn g d)).map upd.keyText.write) := by
    rw [hgroup, selectInGroupSql_eq hkey]
  cases hlast : (withinBudget keyBytes batchBytes none ((page p none batch.toNat
      (upd.relation.matchedIn g d)).map upd.keyText.write)).getLast? with
  | none =>
    have hnil := withinBudget_eq_nil.mp (List.getLast?_eq_none_iff.mp hlast)
    rw [hnil] at hselect
    cases holdsLocks with
    | true =>
      have hcursor : BeforeGroup upd g₀ at_ := by
        have hhere := hstay at_.key ⟨p, hkey⟩
        rwa [← hgroup] at hhere
      exact .locked hselect rfl
        ⟨fun h => absurd h.1 (by simp), .inr ⟨hgood, at_, decode_encode at_, hcursor⟩⟩
    | false =>
      obtain ⟨group, hnext, hbefore⟩ := beforeGroup_next hpg hlive hmem hafter
      exact .next hselect rfl (hgroup ▸ hnext) hbefore
  | some last =>
    obtain ⟨taken, m, htaken, htexts, hm, rfl⟩ :=
      isPrefix_written (withinBudget_isPrefix none _) hlast
    have happly : upd.relation.applyInGroupSql at_.group (withinBudget keyBytes batchBytes none
        ((page p none batch.toNat (upd.relation.matchedIn g d)).map upd.keyText.write)) d =
        .ok (upd.relation.applyInGroup g taken d) := by
      rw [htexts, hgroup, applyInGroupSql_eq]
    have hcount : 0 < (withinBudget keyBytes batchBytes none ((page p none batch.toNat
        (upd.relation.matchedIn g d)).map upd.keyText.write)).length :=
      List.length_pos_of_mem (List.mem_of_getLast? hlast)
    refine .rows hselect hlast happly ⟨fun h => considered_ne_zero hcount h.2.2,
      .inr ⟨hkeep taken, _, decode_encode _, ?_⟩⟩
    rw [hgroup]
    exact hstay _ (exists_readsPart _ m)

/-- A batch from before the group, whatever it does at its start. -/
theorem batch_before {env : Env} (henv : env.Answers) {Good Over : Table γ κ ρ → Prop}
    {w : World (Table γ κ ρ)} {t : Txn (Table γ κ ρ)} (ht : w.txn = some t)
    (hlive : Relation.liveGroups t.view.data = rows.map fun r => r.1)
    (hmem : g₀ ∈ rows.map fun r => r.1) (hgood : Good t.view.data)
    (hkeep : ∀ g < g₀, ∀ ks, Good (upd.relation.applyInGroup g ks t.view.data).2)
    (hhere : Finds codec upd.relation.nextGroupSql upd.relation.selectInGroupSql
      upd.relation.applyInGroupSql batch batchBytes holdsLocks t.view.data (BeforeGroup upd g₀)
      (StaysBefore upd codec g₀ Good Over) { group := upd.groupText.write g₀, key := "" })
    {at_ : GroupCursor} (hat : BeforeGroup upd g₀ at_) :
    Returns (runGroupedBatch env codec upd.relation.nextGroupSql upd.relation.selectInGroupSql
      upd.relation.applyInGroupSql batch batchBytes holdsLocks at_) w
      (StaysBefore upd codec g₀ Good Over) := by
  refine lookAtGroups_returns henv (I := fun _ => BeforeGroup upd g₀)
    (J := fun _ at_ => (∃ g < g₀, at_.group = upd.groupText.write g ∧
      ∃ p, ReadsPart upd.keyText at_.key p) ∨ at_ = { group := upd.groupText.write g₀, key := "" })
    ?_ ?_ ?_ ?_ groupsPerBatch at_ w t ht rfl hat
  · intro at_ hat
    exact ⟨fun h => absurd h.2.1 (by simp), .inr ⟨hgood, at_, decode_encode at_, hat⟩⟩
  · intro looks at_ _ _
    obtain ⟨g, hnext, hle⟩ := exists_next hmem (p := none) rfl
    refine .inr ⟨upd.groupText.write g, ?_, ?_⟩
    · have hread := nextGroupSql_eq (d := t.view.data) (readsPart_empty upd.groupText)
      rw [hlive, hnext] at hread
      exact hread
    · rcases hle.lt_or_eq with hlt | rfl
      · exact .inl ⟨g, hlt, rfl, none, readsPart_empty _⟩
      · exact .inr rfl
  · intro looks at_ hat hgroup
    exact hat.resolve_left hgroup
  · rintro looks at_ (⟨g, hlt, hgroup, p, hkey⟩ | rfl)
    · refine finds_before hlive hmem hgood (hkeep g hlt) ?_ (fun key hp => ?_) hgroup hkey
      · by_cases htext : upd.groupText.write g = ""
        · exact ⟨none, htext ▸ readsPart_empty _, rfl⟩
        · exact ⟨some g, readsPart_write htext, by simpa [after] using hlt⟩
      · exact .inr (.inl ⟨g, hlt, rfl, hp⟩)
    · exact hhere

/-! ## The walk -/

variable {env : Env} {cfg : Config} {walk : Walk (Table γ κ ρ)} {pauses : Nat → Bool}
  {w : World (Table γ κ ρ)} {t : Txn (Table γ κ ρ)}

/-- A walk that is before a group, and stays there until `Over`, ends nowhere else. -/
theorem walk_before (henv : env.Answers) (hbatch : 0 < batch) (g₀ : γ)
    (Good Over : Table γ κ ρ → Prop)
    (hstays : ∀ at_ holdsLocks (w : World (Table γ κ ρ)) t, w.txn = some t → Good t.view.data →
      BeforeGroup upd g₀ at_ →
      Returns (runGroupedBatch env codec upd.relation.nextGroupSql upd.relation.selectInGroupSql
        upd.relation.applyInGroupSql batch cfg.batchBytes holdsLocks at_) w
        (StaysBefore upd codec g₀ Good Over))
    (hover : ∀ g ks d, Over d → Over (upd.relation.applyInGroup g ks d).2)
    (ht : w.txn = some t) (hgood : Good t.view.data) {Q : Table γ κ ρ → Prop}
    (h : EndsWith (groupedOut env pauses ((walk.over upd.relation .grouped).groupedBatch env cfg
      codec batch) · notStarted) w Q) : ∃ d, Q d ∧ Over d := by
  have hsweeps : (upd.relation.walkSql .grouped).Sweeps codec (fun _ d => Over d) :=
    { reencode := fun _ _ _ _ h => h
      enter := fun _ _ _ h _ => h
      next := fun _ _ _ _ _ _ h _ _ => h
      apply := fun at_ _ d _ keys _ returned d' h _ _ _ happly => by
        obtain ⟨g, -, happly⟩ := bind_eq_ok.1 happly
        obtain ⟨ks, -, happly⟩ := bind_eq_ok.1 happly
        cases happly
        exact hover g ks d h }
  let I (v : GroupedVars) (w : World (Table γ κ ρ)) : Prop := ∃ t, w.txn = some t ∧
    (Over t.view.data ∨ (Good t.view.data ∧ ∃ at_, GroupCursor.decode codec v.cursor = some at_ ∧
      BeforeGroup upd g₀ at_))
  let R (o : Outcome Failure String) (w : World (Table γ κ ρ)) : Prop :=
    ∀ c, o = .ok c → ∃ t, w.txn = some t ∧ Over t.view.data
  have hloop : ∀ fuel v w, I v w → (Prog.loop (groupedOnce env pauses
      ((walk.over upd.relation .grouped).groupedBatch env cfg codec batch)) fuel v).Wp R w := by
    refine Prog.wp_loop I (fun _ _ _ c hc => by cases hc) ?_
    rintro v w ⟨t, ht, hcase⟩
    refine groupedOnce_wp henv (R := fun o d => Over d ∨ StaysBefore upd codec g₀ Good Over o d) ?_
      ?_ (fun _ _ c hc => by cases hc) (fun _ c hc => by cases hc)
    · rcases hcase with hdone | ⟨hgood, at_, hat, hbefore⟩
      · refine (runBatch_spec hsweeps [] hbatch ht hdone).mono ?_
        rintro o w' (⟨k, db, rfl, hR⟩ | ⟨rfl, -⟩) a ha
        · subst ha
          exact ⟨_, rfl, .inl hR⟩
        · cases ha
      · have hreturns : Returns ((walk.over upd.relation .grouped).groupedBatch env cfg codec batch
            v) w (StaysBefore upd codec g₀ Good Over) := by
          simp only [Walk.groupedBatch, runBatch, Walk.over]
          rw [Relation.walkSql_grouped]
          simp only [hat]
          exact hstays at_ _ w t ht hgood hbefore
        obtain ⟨o, w', t', hrun, ht', hR⟩ := hreturns
        rw [Prog.Wp, hrun]
        rintro a ha
        cases ha
        exact ⟨t', ht', .inr hR⟩
    · intro o w' t' ht' hR
      rcases after_cases pauses v o with ⟨hinr, hfinal⟩ | ⟨v', hinl, hcursor⟩
      · rw [hinr]
        rintro c -
        rcases hR with hdone | ⟨hmore, -⟩
        · exact ⟨t', ht', hdone⟩
        · exact absurd hfinal hmore
      · rw [hinl]
        refine ⟨t', ht', ?_⟩
        rcases hR with hdone | ⟨-, hdone | hgoes⟩
        · exact .inl hdone
        · exact .inl hdone
        · exact .inr (by rw [hcursor]; exact hgoes)
  obtain ⟨c, w', enough, hrun, t', ht', hQ⟩ := h
  have hend := hloop enough { cursor := notStarted } w ⟨t, ht, .inr ⟨hgood, {}, rfl, .inl rfl⟩⟩
  have hrun' : Prog.loop (groupedOnce env pauses ((walk.over upd.relation .grouped).groupedBatch
    env cfg codec batch)) enough { cursor := notStarted } w = (.ok c, w') := hrun enough le_rfl
  rw [Prog.Wp, hrun'] at hend
  obtain ⟨t'', ht'', hover'⟩ := hend c rfl
  cases ht'.symm.trans ht''
  exact ⟨_, hQ, hover'⟩

/-- The group has no text: the walk never ends. -/
theorem not_ends_of_emptyGroup (henv : env.Answers) (hbatch : 0 < batch) {r : γ × κ × ρ}
    (hr : r ∈ rows) (hempty : upd.groupText.write r.1 = "") (ht : w.txn = some t)
    (hd : t.view.data = Table.fresh rows) (Q : Table γ κ ρ → Prop) :
    ¬EndsWith (groupedOut env pauses ((walk.over upd.relation .grouped).groupedBatch env cfg codec
      batch) · notStarted) w Q := by
  intro h
  have hmem : r.1 ∈ rows.map fun r => r.1 := List.mem_map_of_mem hr
  have hlive : Relation.liveGroups t.view.data = rows.map fun r => r.1 := by
    rw [hd, ← upd.relation.walked_none rows, liveGroups_walked]
  let Good (d : Table γ κ ρ) : Prop := Relation.liveGroups d = rows.map fun r => r.1
  have hstays : ∀ at_ holdsLocks (w : World (Table γ κ ρ)) t, w.txn = some t → Good t.view.data →
      BeforeGroup upd r.1 at_ →
      Returns (runGroupedBatch env codec upd.relation.nextGroupSql upd.relation.selectInGroupSql
        upd.relation.applyInGroupSql batch cfg.batchBytes holdsLocks at_) w
        (StaysBefore upd codec r.1 Good fun _ => False) := by
    intro at_ holdsLocks w t ht hlive hat
    have hkeep : ∀ g ks, Good (upd.relation.applyInGroup g ks t.view.data).2 := fun g ks =>
      (liveGroups_mutate _ _).trans hlive
    refine batch_before henv ht hlive hmem hlive (fun g _ => hkeep g) ?_ hat
    refine finds_before hlive hmem hlive (hkeep r.1) ⟨none, ?_, rfl⟩ (fun _ _ => .inl hempty) rfl
      (readsPart_empty _)
    rw [hempty]
    exact readsPart_empty _
  obtain ⟨d, -, hnever⟩ :=
    walk_before henv hbatch r.1 Good (fun _ => False) hstays (fun _ _ _ h => h) ht hlive h
  exact hnever

theorem matchedIn_mutate {named : Row γ κ ρ → Bool} (h : ∀ r ∈ d, r.group = g₀ →
      (r.mutate upd.relation named).matched upd.relation = r.matched upd.relation) :
    upd.relation.matchedIn g₀ (upd.relation.mutate named d).2 = upd.relation.matchedIn g₀ d := by
  have hgroup : ∀ r : Row γ κ ρ, (r.mutate upd.relation named).group = r.group := fun r => by
    unfold Row.mutate
    split <;> rfl
  have hkey : ∀ r : Row γ κ ρ, (r.mutate upd.relation named).key = r.key := fun r => by
    unfold Row.mutate
    split <;> rfl
  simp only [Relation.matchedIn, Relation.mutate, List.filter_map, List.map_map, Function.comp_def,
    hgroup, hkey]
  refine congrArg (List.map _) (List.filter_congr fun r hr => ?_)
  by_cases hg : r.group = g₀
  · rw [h r hr hg]
  · simp [hg]

/-- Of a row that a batch ends on and that has the empty text for its key: it is changed until it
does not match, if that ever comes, and not as it is changed once. -/
theorem not_ends_of_emptyKey (henv : env.Answers) (hbatch : 0 < batch)
    (hunique : (rows.map fun r => (r.1, r.2.1)).Nodup) {r : γ × κ × ρ} (hr : r ∈ rows)
    (hempty : upd.keyText.write r.2.1 = "") (hf : upd.filter r.2.2 = true)
    (hstill : upd.filter (upd.update r.2.2) = true)
    (hcut : EndsOnEmpty upd rows batch cfg.batchBytes r.1) (ht : w.txn = some t)
    (hd : t.view.data = Table.fresh rows) :
    ¬EndsWith (groupedOut env pauses ((walk.over upd.relation .grouped).groupedBatch env cfg codec
      batch) · notStarted) w (· = upd.relation.walked (fun _ _ => true) rows) := by
  intro h
  have hmem : r.1 ∈ rows.map fun r => r.1 := List.mem_map_of_mem hr
  let Good (d : Table γ κ ρ) : Prop := (Relation.liveGroups d = rows.map fun r => r.1) ∧
    upd.relation.matchedIn r.1 d = upd.wantedIn r.1 rows
  let Over (d : Table γ κ ρ) : Prop :=
    ∃ r' ∈ d, r'.group = r.1 ∧ r'.key = r.2.1 ∧ r'.matched upd.relation = false
  have hgood : Good t.view.data := by
    refine ⟨by rw [hd, ← upd.relation.walked_none rows, liveGroups_walked], ?_⟩
    rw [hd, Relation.matchedIn, Table.fresh, List.filter_map, List.map_map]
    rfl
  have hover : ∀ g ks d, Over d → Over (upd.relation.applyInGroup g ks d).2 := by
    rintro g ks d ⟨r', hr', hg, hk, hno⟩
    refine ⟨r', List.mem_map.mpr ⟨r', hr', ?_⟩, hg, hk, hno⟩
    simp [Row.mutate, hno]
  have hstays : ∀ at_ holdsLocks (w : World (Table γ κ ρ)) t, w.txn = some t → Good t.view.data →
      BeforeGroup upd r.1 at_ →
      Returns (runGroupedBatch env codec upd.relation.nextGroupSql upd.relation.selectInGroupSql
        upd.relation.applyInGroupSql batch cfg.batchBytes holdsLocks at_) w
        (StaysBefore upd codec r.1 Good Over) := by
    rintro at_ holdsLocks w t ht ⟨hlive, hmatched⟩ hat
    refine batch_before henv ht hlive hmem ⟨hlive, hmatched⟩ (fun g hlt ks => ?_) ?_ hat
    · refine ⟨(liveGroups_mutate _ _).trans hlive, (matchedIn_mutate fun r' _ hg => ?_).trans
        hmatched⟩
      have hother : ¬r'.group = g := by rw [hg]; exact hlt.ne'
      simp [Row.mutate, hother]
    · have hselect : upd.relation.selectInGroupSql (upd.groupText.write r.1) (maybe "") batch
          t.view.data = .ok ((page none none batch.toNat (upd.wantedIn r.1 rows)).map
            upd.keyText.write) := by
        rw [selectInGroupSql_eq (readsPart_empty _), hmatched]
      obtain ⟨taken, m, htaken, htexts, hm, hwrite⟩ :=
        isPrefix_written (withinBudget_isPrefix none _) hcut
      have hkey : ∀ k ∈ taken, k = r.2.1 := fun k hk => by
        have hks := mem_of_page_isPrefix htaken hk
        have hle : k ≤ m := ((mem_taken_iff htaken hm hks.1).mp hk).2
        have hleast := upd.empty_first _ k hempty
        exact le_antisymm (hle.trans (upd.empty_first _ _ hwrite.symm)) hleast
      have happly : upd.relation.applyInGroupSql (upd.groupText.write r.1)
          (withinBudget keyBytes cfg.batchBytes none
            ((page none none batch.toNat (upd.wantedIn r.1 rows)).map upd.keyText.write))
          t.view.data = .ok (upd.relation.applyInGroup r.1 taken t.view.data) := by
        rw [htexts, applyInGroupSql_eq]
      have hcount : 0 < (withinBudget keyBytes cfg.batchBytes none
          ((page none none batch.toNat (upd.wantedIn r.1 rows)).map upd.keyText.write)).length :=
        List.length_pos_of_mem (List.mem_of_getLast? hcut)
      refine .rows hselect hcut happly ⟨fun h => considered_ne_zero hcount h.2.2, ?_⟩
      by_cases hends : ∃ r' ∈ t.view.data, r'.group = r.1 ∧ r'.key ∈ taken ∧
          r'.matched upd.relation = true ∧ (r'.mutate upd.relation fun r' =>
            decide (r'.group = r.1) && decide (r'.key ∈ taken)).matched upd.relation = false
      · obtain ⟨r', hr', hg, hk, -, hno⟩ := hends
        refine .inl ⟨_, List.mem_map.mpr ⟨r', hr', rfl⟩, ?_, ?_, hno⟩
        · unfold Row.mutate
          split <;> exact hg
        · unfold Row.mutate
          split <;> exact hkey _ hk
      · refine .inr ⟨⟨(liveGroups_mutate _ _).trans hlive,
          (matchedIn_mutate fun r' hr' hg => ?_).trans hmatched⟩, _, decode_encode _,
          .inr (.inr rfl)⟩
        by_cases hnamed : r'.key ∈ taken ∧ r'.matched upd.relation = true
        · rw [hnamed.2]
          by_contra hno
          exact hends ⟨r', hr', hg, hnamed.1, hnamed.2, Bool.eq_false_of_not_eq_true hno⟩
        · have hout : ((decide (r'.group = r.1) && decide (r'.key ∈ taken)) &&
              r'.matched upd.relation) = false := by
            simpa [hg] using hnamed
          rw [Row.mutate, if_neg (by simp [hout])]
  obtain ⟨d, rfl, r', hr', hg, hk, hno⟩ :=
    walk_before henv hbatch r.1 Good Over hstays hover ht hgood h
  -- in the table with every change made once, the row matches
  obtain ⟨r₁, hr₁, rfl⟩ := List.mem_map.mp hr'
  rw [Relation.walkedRow_group] at hg
  rw [Relation.walkedRow_key] at hk
  obtain rfl : r₁ = r := by
    have hsame : (fun r : γ × κ × ρ => (r.1, r.2.1)) r₁ = (fun r => (r.1, r.2.1)) r :=
      Prod.ext hg hk
    exact List.inj_on_of_nodup_map hunique hr₁ hr hsame
  rw [matched_walkedRow, hf] at hno
  simp [hstill] at hno

/-- The grouped walk ends, with every row that matches changed once and no other, where
`WalksOnce` holds and nowhere else. -/
theorem group_walk_iff (henv : env.Answers) (cfg : Config) (codec : ArrayText)
    (walk : Walk (Table γ κ ρ)) (pauses : Nat → Bool) (upd : GroupedUpdate γ κ ρ)
    (rows : List (γ × κ × ρ)) (hunique : (rows.map fun r => (r.1, r.2.1)).Nodup)
    (hbatch : 0 < batch) (ht : w.txn = some t) (hd : t.view.data = Table.fresh rows) :
    EndsWith (groupedOut env pauses ((walk.over upd.relation .grouped).groupedBatch env cfg codec
        batch) · notStarted) w (· = upd.relation.walked (fun _ _ => true) rows) ↔
      WalksOnce upd rows batch cfg.batchBytes := by
  constructor
  · intro h
    refine ⟨fun r hr hempty => ?_, fun r hr hempty hf hstill => ?_⟩
    · exact not_ends_of_emptyGroup henv hbatch hr hempty ht hd _ h
    · by_contra hfits
      have hcut := (endsOnEmpty_iff hunique hbatch hr hempty hf).mpr hfits
      exact not_ends_of_emptyKey henv hbatch hunique hr hempty hf hstill hcut ht hd h
  · intro h
    refine group_walked henv hbatch (fun g hcut r hr hg hempty hf => ?_) h.groups ht hd
    by_contra hstill
    have hfits := h.keys r hr hempty hf (Bool.eq_true_of_not_eq_false hstill)
    subst hg
    exact (endsOnEmpty_iff hunique hbatch hr hempty hf).mp hcut hfits

end

/-! ## A group that has no text -/

/-- Texts of at most one letter. -/
def shortText : Coding (Fin 3) String where
  write k := if k = 0 then "" else if k = 1 then "a" else "b"
  read s := if s = "" then some 0 else if s = "a" then some 1 else if s = "b" then some 2 else none
  read_write := by decide

/-- A column to be filled where it is not. -/
def shortUpdate : GroupedUpdate (Fin 3) (Fin 3) Bool where
  filter filled := !filled
  update _ := true
  groupText := shortText
  keyText := shortText
  empty_first := by decide

noncomputable def shortWalk (fuel : Nat) : Exec (Table (Fin 3) (Fin 3) Bool) String :=
  groupedOut {} (fun _ => false) (Walk.groupedBatch (Walk.over
    { ordinal := 0, sql := shortUpdate.relation.walkSql .grouped } shortUpdate.relation .grouped) {}
    { batchRows := 1, batchRows_pos := Int.one_pos } jsonStrings 1) fuel notStarted

/-- Two groups, one with a row that has no text for its key. -/
theorem group_walk_twoGroups :
    EndsWith shortWalk (.opened [(2, 1, false), (1, 0, false), (1, 2, false)])
      (· = shortUpdate.relation.walked (fun _ _ => true)
        [(2, 1, false), (1, 0, false), (1, 2, false)]) :=
  (group_walk_iff (w := .opened [(2, 1, false), (1, 0, false), (1, 2, false)]) (fun _ => rfl)
    { batchRows := 1 } jsonStrings { ordinal := 0, sql := shortUpdate.relation.walkSql .grouped }
    (fun _ => false) shortUpdate [(2, 1, false), (1, 0, false), (1, 2, false)] (by decide)
    (by decide) rfl rfl).mpr ⟨by decide, fun _ _ _ _ h => by cases h⟩

/-- One group, which has no text: the walk never ends. -/
theorem group_walk_never_ends :
    ¬EndsWith shortWalk (.opened [(0, 1, false)])
      (· = shortUpdate.relation.walked (fun _ _ => true) [(0, 1, false)]) :=
  not_ends_of_emptyGroup (w := .opened [(0, 1, false)]) (fun _ => rfl) (by decide)
    List.mem_cons_self rfl rfl rfl _

end Executor
end Laswell
