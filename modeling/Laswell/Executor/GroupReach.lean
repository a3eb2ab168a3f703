import Laswell.Executor.GroupWalk

/-!
# Laswell.Executor.GroupReach

How far a grouped walk has got: in which group it stands, and on which of the group's keys.

* `reached`: the rows such a walk has changed.
* `Standing`: a cursor, the position it is for, and how much is ahead of it.
* `group_walked`: the walk changes every row that matches once, where no row has the empty text for
  its group and no batch ends on a row that has it for its key and still matches.
-/

namespace Laswell
namespace Executor

open Base

section

variable {γ κ ρ : Type} [LinearOrder γ] [LinearOrder κ] {upd : GroupedUpdate γ κ ρ}
  {rows : List (γ × κ × ρ)} {g g' : γ} {p q : Option κ} {m : κ} {taken : List κ} {limit : Nat}

/-! ## Positions -/

/-- The groups before `g`, and of that group the keys up to `q`. -/
def reached (g : γ) (q : Option κ) : γ → κ → Bool := fun g' k =>
  decide (g' < g) || (decide (g' = g) && !after q k)

theorem reached_same (k : κ) : reached g q g k = !after q k := by
  simp [reached]

theorem reached_other (h : g' ≠ g) (k : κ) : reached g q g' k = decide (g' < g) := by
  simp [reached, h]

/-- A row that has the empty text for its key, on which the walk stands, does not match any
more. -/
def Clear (upd : GroupedUpdate γ κ ρ) (rows : List (γ × κ × ρ)) (g : γ) (q : Option κ) : Prop :=
  ∀ r ∈ rows, r.1 = g → q = some r.2.1 → upd.keyText.write r.2.1 = "" →
    upd.filter r.2.2 = true → upd.filter (upd.update r.2.2) = false

omit [LinearOrder γ] in
theorem matched_walkedRow (covered : γ → κ → Bool) (r : γ × κ × ρ) :
    (upd.relation.walkedRow covered r).matched upd.relation =
      if upd.filter r.2.2 && covered r.1 r.2.1 then upd.filter (upd.update r.2.2)
      else upd.filter r.2.2 := by
  unfold Relation.walkedRow
  split
  · rename_i h
    have h' : (upd.filter r.2.2 && covered r.1 r.2.1) = true := h
    rw [if_pos h']
    simp [Row.matched, Row.done, GroupedUpdate.relation]
  · rename_i h
    have h' : ¬(upd.filter r.2.2 && covered r.1 r.2.1) = true := h
    rw [if_neg h']
    simp [Row.matched, Row.fresh, GroupedUpdate.relation]

/-- The text of a position reads as one from which the group's page is the same: the position
itself, or for the empty text the start of the group. -/
theorem exists_page_reached (hclear : Clear upd rows g q) :
    ∃ p, ReadsPart upd.keyText ((q.map upd.keyText.write).getD "") p ∧
      page p none limit (upd.relation.matchedIn g (upd.relation.walked (reached g q) rows)) =
        page q none limit (upd.wantedIn g rows) := by
  have hpage : ∀ p, (∀ r ∈ rows, r.1 = g → (after p r.2.1 &&
        (upd.relation.walkedRow (reached g q) r).matched upd.relation) =
        (after q r.2.1 && upd.filter r.2.2)) →
      page p none limit (upd.relation.matchedIn g (upd.relation.walked (reached g q) rows)) =
        page q none limit (upd.wantedIn g rows) := by
    intro p hsame
    have hkeys : (upd.relation.matchedIn g (upd.relation.walked (reached g q) rows)).filter
          (fun k => after p k && within none k) =
        (upd.wantedIn g rows).filter fun k => after q k && within none k := by
      simp only [Relation.matchedIn, Relation.walked, GroupedUpdate.wantedIn, List.filter_map,
        List.map_map, List.filter_filter, Function.comp_def, Relation.walkedRow_key,
        Relation.walkedRow_group]
      refine congrArg (List.map _) (List.filter_congr fun r hr => ?_)
      by_cases hg : r.1 = g
      · simpa [hg, within] using hsame r hr hg
      · simp [hg]
    rw [page, page, span, span, hkeys]
  cases q with
  | none =>
    refine ⟨none, readsPart_empty _, hpage none fun r _ hg => ?_⟩
    rw [matched_walkedRow, ← hg, reached_same]
    simp [after]
  | some m =>
    by_cases hm : upd.keyText.write m = ""
    · -- the walk is at the start of the group again, and the row it came from does not match
      refine ⟨none, by rw [Option.map_some, Option.getD_some, hm]; exact readsPart_empty _,
        hpage none fun r hr hg => ?_⟩
      rw [matched_walkedRow, ← hg, reached_same]
      cases hafter : after (some m) r.2.1 with
      | true => simp [after]
      | false =>
        have hle : r.2.1 ≤ m := by simpa [after] using hafter
        have hkey : r.2.1 = m := le_antisymm hle (upd.empty_first _ _ hm)
        cases hf : upd.filter r.2.2 with
        | false => simp
        | true => simp [hclear r hr hg (by rw [hkey]) (by rw [hkey, hm]) hf]
    · refine ⟨some m, readsPart_write hm, hpage (some m) fun r _ hg => ?_⟩
      rw [matched_walkedRow, ← hg, reached_same]
      cases after (some m) r.2.1 <;> simp

/-- The rows of a batch are those of its group between its position and its last key. -/
theorem applyInGroup_reached (htaken : taken <+: page q none limit (upd.wantedIn g rows))
    (hm : taken.getLast? = some m) :
    (upd.relation.applyInGroup g taken (upd.relation.walked (reached g q) rows)).2 =
      upd.relation.walked (reached g (some m)) rows := by
  have hlast := (mem_of_page_isPrefix htaken (List.mem_of_getLast? hm)).2.1
  refine upd.relation.mutate_walked (fun g' k => decide (g' = g) && decide (k ∈ taken))
    fun r hr hf => ?_
  have hf' : upd.filter r.2.2 = true := hf
  by_cases hg : r.1 = g
  · have hwanted : r.2.1 ∈ upd.wantedIn g rows :=
      List.mem_map.mpr ⟨r, List.mem_filter.mpr ⟨hr, by simp [hg, hf']⟩, rfl⟩
    have hmem := mem_taken_iff htaken hm hwanted
    rw [hg, reached_same, reached_same]
    cases hafter : after q r.2.1 with
    | true =>
      rw [hafter] at hmem
      by_cases hle : r.2.1 ≤ m
      · have hupto : after (some m) r.2.1 = false := by simpa [after] using hle
        simp [hmem, hle, hupto]
      · have hbeyond : after (some m) r.2.1 = true := by simpa [after] using hle
        simp [hmem, hle, hbeyond]
    | false =>
      rw [hafter] at hmem
      obtain ⟨p, rfl, hp⟩ := after_eq_false.mp hafter
      have hlt : p < m := by simpa [after] using hlast
      have hupto : after (some m) r.2.1 = false := by simpa [after] using hp.trans hlt.le
      simp [hmem, hupto]
  · simp [reached_other hg, hg]

/-- Where nothing of the group is ahead, the walk is at the start of the next one, or, with no
group after it, at its end. -/
theorem reached_of_page_nil (hlimit : 0 < limit) (h : page q none limit (upd.wantedIn g rows) = [])
    {covered : γ → κ → Bool} (hg : ∀ k, covered g k = true)
    (hother : ∀ r ∈ rows, r.1 ≠ g → covered r.1 r.2.1 = decide (r.1 < g)) :
    upd.relation.walked (reached g q) rows = upd.relation.walked covered rows := by
  refine upd.relation.walked_congr fun r hr hf => ?_
  by_cases hgroup : r.1 = g
  · have hf' : upd.filter r.2.2 = true := hf
    have hwanted : r.2.1 ∈ upd.wantedIn g rows :=
      List.mem_map.mpr ⟨r, List.mem_filter.mpr ⟨hr, by simp [hgroup, hf']⟩, rfl⟩
    rw [hgroup, reached_same, hg, page_eq_nil hlimit h hwanted]
    rfl
  · rw [reached_other hgroup, hother r hr hgroup]

/-! ## What is ahead -/

/-- Each row of a later group counts twice: for the group and for itself. -/
def groupAhead (rows : List (γ × κ × ρ)) (g : γ) (q : Option κ) : Nat :=
  2 * (rows.filter fun r => decide (g < r.1)).length +
    (rows.filter fun r => decide (r.1 = g) && after q r.2.1).length

theorem groupAhead_batch (hm : m ∈ upd.wantedIn g rows) (hafter : after q m = true) :
    groupAhead rows g (some m) < groupAhead rows g q := by
  obtain ⟨r, hr, rfl⟩ := List.mem_map.mp hm
  have hr' := List.mem_filter.mp hr
  have hgroup : r.1 = g := by
    have h := hr'.2
    simp only [Bool.and_eq_true, decide_eq_true_eq] at h
    exact h.1
  have hsub : (rows.filter fun r' => decide (r'.1 = g) && after (some r.2.1) r'.2.1) =
      (rows.filter fun r' => decide (r'.1 = g) && after q r'.2.1).filter
        fun r' => after (some r.2.1) r'.2.1 := by
    rw [List.filter_filter]
    refine List.filter_congr fun r' _ => ?_
    cases hk : after (some r.2.1) r'.2.1 with
    | false => simp
    | true =>
      have hlt : r.2.1 < r'.2.1 := by simpa [after] using hk
      simp [after_trans hafter hlt.le]
  have hless : (rows.filter fun r' => decide (r'.1 = g) && after (some r.2.1) r'.2.1).length <
      (rows.filter fun r' => decide (r'.1 = g) && after q r'.2.1).length := by
    rw [hsub]
    refine List.length_filter_lt_length_iff_exists.mpr ⟨r, ?_, by simp [after]⟩
    exact List.mem_filter.mpr ⟨hr'.1, by simp [hgroup, hafter]⟩
  unfold groupAhead
  omega

theorem groupAhead_next (hmem : g' ∈ rows.map fun r => r.1) (hlt : g < g')
    (hleast : ∀ r ∈ rows, g < r.1 → g' ≤ r.1) :
    groupAhead rows g' none < groupAhead rows g q := by
  have hsplit := List.length_eq_length_filter_add (fun r => decide (g' < r.1))
    (l := rows.filter fun r => decide (g < r.1))
  have hlater : ((rows.filter fun r => decide (g < r.1)).filter fun r => decide (g' < r.1)) =
      rows.filter fun r => decide (g' < r.1) := by
    rw [List.filter_filter]
    refine List.filter_congr fun r _ => ?_
    by_cases h : g' < r.1
    · simp [h, hlt.trans h]
    · simp [h]
  have hnext : ((rows.filter fun r => decide (g < r.1)).filter fun r => !decide (g' < r.1)) =
      rows.filter fun r => decide (r.1 = g') && after none r.2.1 := by
    rw [List.filter_filter]
    refine List.filter_congr fun r hr => ?_
    by_cases h : r.1 = g'
    · simp [h, hlt, after]
    · by_cases hg : g < r.1
      · have hbeyond : g' < r.1 := lt_of_le_of_ne (hleast r hr hg) (Ne.symm h)
        simp [h, hbeyond]
      · simp [h, hg]
  obtain ⟨r, hr, rfl⟩ := List.mem_map.mp hmem
  have hsome : 0 < (rows.filter fun r' => decide (r'.1 = r.1) && after none r'.2.1).length :=
    List.length_pos_of_mem (List.mem_filter.mpr ⟨hr, by simp [after]⟩)
  rw [hlater, hnext] at hsplit
  unfold groupAhead
  omega

theorem groupAhead_le (g : γ) (rows : List (γ × κ × ρ)) :
    groupAhead rows g none ≤ 2 * rows.length := by
  have hsplit := List.length_eq_length_filter_add (fun r => decide (g < r.1)) (l := rows)
  have hsub : (rows.filter fun r => decide (r.1 = g) && after none r.2.1).length ≤
      (rows.filter fun r => !decide (g < r.1)).length := by
    refine (List.monotone_filter_right rows fun r h => ?_).length_le
    have hg : r.1 = g := by simpa [after] using h
    simp [hg]
  unfold groupAhead
  omega

/-! ## One batch -/

/-- A cursor inside a group. -/
structure Stands (upd : GroupedUpdate γ κ ρ) (rows : List (γ × κ × ρ)) (at_ : GroupCursor) (g : γ)
    (q : Option κ) : Prop where
  group : at_.group = upd.groupText.write g
  key : at_.key = (q.map upd.keyText.write).getD ""
  mem : g ∈ rows.map fun r => r.1
  clear : Clear upd rows g q

/-- A position of the walk, the rows as they are then, and how much is ahead. -/
inductive Standing (upd : GroupedUpdate γ κ ρ) (rows : List (γ × κ × ρ)) :
    Nat → GroupCursor → Table γ κ ρ → Prop
  | start : Standing upd rows (2 * rows.length + 1) {} (Table.fresh rows)
  | inside {at_ : GroupCursor} {g : γ} {q : Option κ} : Stands upd rows at_ g q →
      Standing upd rows (groupAhead rows g q) at_ (upd.relation.walked (reached g q) rows)

/-- The first batch of a group that ends on a row with the empty text for its key. -/
def EndsOnEmpty (upd : GroupedUpdate γ κ ρ) (rows : List (γ × κ × ρ)) (batch batchBytes : Int)
    (g : γ) : Prop :=
  (withinBudget keyBytes batchBytes none ((page none none batch.toNat (upd.wantedIn g rows)).map
    upd.keyText.write)).getLast? = some ""

/-- What a batch comes to from where `n` is ahead. -/
inductive Proceeds (upd : GroupedUpdate γ κ ρ) (rows : List (γ × κ × ρ)) (codec : ArrayText)
    (holdsLocks : Bool) (n : Nat) (o : BatchOutcome) (d : Table γ κ ρ) : Prop where
  | locked {n' : Nat} {at_ : GroupCursor} : o.commitFirst = true → holdsLocks = true →
      GroupCursor.decode codec o.cursor = some at_ → Standing upd rows n' at_ d → n' ≤ n →
      Proceeds upd rows codec holdsLocks n o d
  | skipped {n' : Nat} {at_ : GroupCursor} : o.skippedOnly = true →
      GroupCursor.decode codec o.cursor = some at_ → Standing upd rows n' at_ d → n' < n →
      Proceeds upd rows codec holdsLocks n o d
  | last : o.commitFirst = false → o.skippedOnly = false → o.considered = 0 →
      d = upd.relation.walked (fun _ _ => true) rows → Proceeds upd rows codec holdsLocks n o d
  | rows {n' : Nat} {at_ : GroupCursor} : o.commitFirst = false → o.skippedOnly = false →
      o.considered ≠ 0 → GroupCursor.decode codec o.cursor = some at_ →
      Standing upd rows n' at_ d → n' < n → Proceeds upd rows codec holdsLocks n o d

variable {env : Env} {codec : ArrayText} {batch batchBytes : Int} {holdsLocks : Bool}

/-- Looking into the group the walk stands in. -/
theorem finds_reached (hbatch : 0 < batch)
    (hempty : ∀ g, EndsOnEmpty upd rows batch batchBytes g →
      ∀ r ∈ rows, r.1 = g → upd.keyText.write r.2.1 = "" → upd.filter r.2.2 = true →
        upd.filter (upd.update r.2.2) = false)
    (hgroups : ∀ r ∈ rows, upd.groupText.write r.1 ≠ "") {at_ : GroupCursor}
    (h : Stands upd rows at_ g q) {n : Nat} (hn : groupAhead rows g q ≤ n) :
    Finds codec upd.relation.nextGroupSql upd.relation.selectInGroupSql
      upd.relation.applyInGroupSql batch batchBytes holdsLocks
      (upd.relation.walked (reached g q) rows)
      (fun next => ∃ g', Stands upd rows next g' none ∧ groupAhead rows g' none < n ∧
        upd.relation.walked (reached g q) rows = upd.relation.walked (reached g' none) rows)
      (Proceeds upd rows codec holdsLocks n) at_ := by
  have hreads : ∃ p, ReadsPart upd.keyText ((q.map upd.keyText.write).getD "") p ∧
      page p none batch.toNat (upd.relation.matchedIn g (upd.relation.walked (reached g q) rows)) =
        page q none batch.toNat (upd.wantedIn g rows) := exists_page_reached h.clear
  obtain ⟨p, hp, hpage⟩ := hreads
  have hselect : upd.relation.selectInGroupSql at_.group (maybe at_.key) batch
      (upd.relation.walked (reached g q) rows) =
      .ok ((page q none batch.toNat (upd.wantedIn g rows)).map upd.keyText.write) := by
    rw [h.group, h.key, selectInGroupSql_eq hp, hpage]
  have htext : upd.groupText.write g ≠ "" := by
    obtain ⟨r, hr, rfl⟩ := List.mem_map.mp h.mem
    exact hgroups r hr
  have hnext : upd.relation.nextGroupSql (maybe at_.group)
      (upd.relation.walked (reached g q) rows) =
      .ok ((next (some g) (rows.map fun r => r.1)).map upd.groupText.write) := by
    rw [h.group, nextGroupSql_eq (readsPart_write htext), liveGroups_walked]
  have hstart : ∀ g', Clear upd rows g' none := fun _ _ _ _ hq => by cases hq
  cases hkeys : page q none batch.toNat (upd.wantedIn g rows) with
  | nil =>
    rw [hkeys] at hselect
    cases holdsLocks with
    | true => exact .locked hselect rfl (.locked rfl rfl (decode_encode at_) (.inside h) hn)
    | false =>
      cases hnextGroup : next (some g) (rows.map fun r => r.1) with
      | none =>
        rw [hnextGroup] at hnext
        have hlastGroup : ∀ r ∈ rows, r.1 ≤ g := fun r hr => by
          have hnil : page (some g) none 1 (rows.map fun r => r.1) = [] :=
            List.head?_eq_none_iff.mp hnextGroup
          have hafter := page_eq_nil (by omega) hnil (List.mem_map_of_mem hr)
          simpa [after] using hafter
        refine .last hselect rfl hnext (.last rfl rfl rfl ?_)
        refine reached_of_page_nil (by omega) hkeys (fun _ => rfl) fun r hr hne => ?_
        simp [lt_of_le_of_ne (hlastGroup r hr) hne]
      | some g' =>
        rw [hnextGroup] at hnext
        have hmem := mem_of_page_isPrefix (next_isPrefix hnextGroup) List.mem_cons_self
        have hlt : g < g' := by simpa [after] using hmem.2.1
        have hleast : ∀ r ∈ rows, g < r.1 → g' ≤ r.1 := fun r hr hgr =>
          next_le hnextGroup (List.mem_map_of_mem hr) (by simpa [after] using hgr)
        refine .next hselect rfl hnext ⟨g', ⟨rfl, rfl, hmem.1, hstart g'⟩,
          lt_of_lt_of_le (groupAhead_next hmem.1 hlt hleast) hn, ?_⟩
        refine reached_of_page_nil (by omega) hkeys (fun k => by simp [reached, hlt])
          fun r hr hne => ?_
        by_cases hgr : r.1 < g
        · simp [reached, hgr, hgr.trans hlt]
        · have hbeyond : g' ≤ r.1 := hleast r hr (lt_of_le_of_ne (not_lt.mp hgr) (Ne.symm hne))
          simp [reached, hgr, not_lt.mpr hbeyond, after]
  | cons k ks =>
    have hsome : withinBudget keyBytes batchBytes none
        ((page q none batch.toNat (upd.wantedIn g rows)).map upd.keyText.write) ≠ [] := by
      rw [Ne, withinBudget_eq_nil, hkeys]
      simp
    obtain ⟨last, hlast⟩ := Option.ne_none_iff_exists'.mp
      fun hnone => hsome (List.getLast?_eq_none_iff.mp hnone)
    obtain ⟨taken, m, htaken, htexts, hm, rfl⟩ :=
      isPrefix_written (withinBudget_isPrefix none _) hlast
    have happly : upd.relation.applyInGroupSql at_.group (withinBudget keyBytes batchBytes none
        ((page q none batch.toNat (upd.wantedIn g rows)).map upd.keyText.write))
        (upd.relation.walked (reached g q) rows) =
        .ok ((upd.relation.applyInGroup g taken (upd.relation.walked (reached g q) rows)).1,
          upd.relation.walked (reached g (some m)) rows) := by
      rw [htexts, h.group, applyInGroupSql_eq, ← applyInGroup_reached htaken hm]
    have hmem := mem_of_page_isPrefix htaken (List.mem_of_getLast? hm)
    have hclear : Clear upd rows g (some m) := by
      intro r hr hg hkey hwrite
      cases hkey
      -- only at the start of the group does a batch end on its first key
      have hq : q = none := by
        cases q with
        | none => rfl
        | some q =>
          have hlt : q < r.2.1 := by simpa [after] using hmem.2.1
          exact absurd (upd.empty_first _ q hwrite) (not_le.mpr hlt)
      subst hq
      exact hempty g (by rw [EndsOnEmpty, hlast, hwrite]) r hr hg hwrite
    have hcount : 0 < (withinBudget keyBytes batchBytes none
        ((page q none batch.toNat (upd.wantedIn g rows)).map upd.keyText.write)).length :=
      List.length_pos_iff.mpr hsome
    exact .rows hselect hlast happly (.rows rfl rfl (considered_ne_zero hcount)
      (decode_encode _) (.inside ⟨h.group, rfl, h.mem, hclear⟩)
      (lt_of_lt_of_le (groupAhead_batch hmem.1 hmem.2.1) hn))

omit [LinearOrder γ] in
theorem Stands.group_ne_empty (hgroups : ∀ r ∈ rows, upd.groupText.write r.1 ≠ "")
    {at_ : GroupCursor} (h : Stands upd rows at_ g q) : at_.group ≠ "" := by
  obtain ⟨r, hr, hg⟩ := List.mem_map.mp h.mem
  rw [h.group, ← hg]
  exact hgroups r hr

/-- Before the first group. -/
theorem fresh_reached {g : γ} (hleast : ∀ r ∈ rows, g ≤ r.1) :
    Table.fresh rows = upd.relation.walked (reached g none) rows := by
  rw [← upd.relation.walked_none rows]
  refine upd.relation.walked_congr fun r hr _ => ?_
  simp [reached, not_lt.mpr (hleast r hr), after]

theorem lookAtGroups_proceeds (henv : env.Answers) (hbatch : 0 < batch)
    (hempty : ∀ g, EndsOnEmpty upd rows batch batchBytes g →
      ∀ r ∈ rows, r.1 = g → upd.keyText.write r.2.1 = "" → upd.filter r.2.2 = true →
        upd.filter (upd.update r.2.2) = false)
    (hgroups : ∀ r ∈ rows, upd.groupText.write r.1 ≠ "") {at_ : GroupCursor} {n : Nat}
    {w : World (Table γ κ ρ)} {t : Txn (Table γ κ ρ)} (ht : w.txn = some t)
    (h : Standing upd rows n at_ t.view.data) :
    Returns (runGroupedBatch env codec upd.relation.nextGroupSql upd.relation.selectInGroupSql
      upd.relation.applyInGroupSql batch batchBytes holdsLocks at_) w
      (Proceeds upd rows codec holdsLocks n) := by
  -- from the second look on, something of what was ahead is behind
  let I (looks : Nat) (at_ : GroupCursor) : Prop := ∃ n', Standing upd rows n' at_ t.view.data ∧
    n' ≤ n ∧ (looks = groupsPerBatch ∨ n' < n)
  let J (_ : Nat) (at_ : GroupCursor) : Prop := ∃ g q, Stands upd rows at_ g q ∧
    groupAhead rows g q ≤ n ∧ t.view.data = upd.relation.walked (reached g q) rows
  refine lookAtGroups_returns henv (I := I) (J := J) ?_ ?_ ?_ ?_ groupsPerBatch at_ w t ht rfl
    ⟨n, h, le_rfl, .inl rfl⟩
  · rintro at_ ⟨n', hstanding, -, hzero | hless⟩
    · cases hzero
    · exact .skipped rfl (decode_encode at_) hstanding hless
  · rintro looks at_ ⟨n', hstanding, hle, -⟩ hgroup
    generalize hd : t.view.data = d at hstanding
    cases hstanding with
    | start =>
      have hnext : upd.relation.nextGroupSql none (Table.fresh rows) =
          .ok ((next none (rows.map fun r => r.1)).map upd.groupText.write) := by
        have hread := nextGroupSql_eq (d := Table.fresh rows) (readsPart_empty upd.groupText)
        rw [← upd.relation.walked_none rows, liveGroups_walked] at hread
        rw [← upd.relation.walked_none rows]
        exact hread
      cases hfirst : next none (rows.map fun r => r.1) with
      | none =>
        rw [hfirst] at hnext
        have hnil : page none none 1 (rows.map fun r => r.1) = [] := List.head?_eq_none_iff.mp hfirst
        have hrows : rows = [] := by
          cases rows with
          | nil => rfl
          | cons r rest => cases page_eq_nil (by omega) hnil (List.mem_cons_self (a := r.1))
        refine .inl ⟨hnext, .last rfl rfl rfl ?_⟩
        subst hrows
        rfl
      | some g =>
        rw [hfirst] at hnext
        have hmem := mem_of_page_isPrefix (next_isPrefix hfirst) List.mem_cons_self
        have hleast : ∀ r ∈ rows, g ≤ r.1 := fun r hr =>
          next_le hfirst (List.mem_map_of_mem hr) rfl
        have hbound := groupAhead_le g rows
        exact .inr ⟨_, hnext, g, none, ⟨rfl, rfl, hmem.1, fun _ _ _ hq => by cases hq⟩,
          by omega, hd.trans (fresh_reached hleast)⟩
    | inside hstands => exact absurd hgroup (hstands.group_ne_empty hgroups)
  · rintro looks at_ ⟨n', hstanding, hle, -⟩ hgroup
    generalize hd : t.view.data = d at hstanding
    cases hstanding with
    | start => exact absurd rfl hgroup
    | inside hstands => exact ⟨_, _, hstands, hle, hd⟩
  · rintro looks at_ ⟨g, q, hstands, hle, hd⟩
    rw [hd]
    refine (finds_reached hbatch hempty hgroups hstands hle).mono fun next => ?_
    rintro ⟨g', hstands', hless, hsame⟩
    have hdata := hd.trans hsame
    exact ⟨groupAhead rows g' none, hdata ▸ .inside hstands', hless.le, .inr hless⟩

/-! ## The walk -/

variable {cfg : Config} {walk : Walk (Table γ κ ρ)} {pauses : Nat → Bool}
  {w : World (Table γ κ ρ)} {t : Txn (Table γ κ ρ)}

/-- The walk changes every row that matches once. -/
theorem group_walked (henv : env.Answers) (hbatch : 0 < batch)
    (hempty : ∀ g, EndsOnEmpty upd rows batch cfg.batchBytes g →
      ∀ r ∈ rows, r.1 = g → upd.keyText.write r.2.1 = "" → upd.filter r.2.2 = true →
        upd.filter (upd.update r.2.2) = false)
    (hgroups : ∀ r ∈ rows, upd.groupText.write r.1 ≠ "") (ht : w.txn = some t)
    (hd : t.view.data = Table.fresh rows) :
    EndsWith (groupedOut env pauses ((walk.over upd.relation .grouped).groupedBatch env cfg codec
      batch) · notStarted) w (· = upd.relation.walked (fun _ _ => true) rows) := by
  -- a batch that asks for a commit is not followed by another before it does something
  have hstart : Standing upd rows (2 * rows.length + 1) {} t.view.data := hd ▸ .start
  refine loop_ends (b := ({ cursor := notStarted } : GroupedVars))
    (Q := fun d => d = upd.relation.walked (fun _ _ => true) rows)
    (fun n v d => ∃ at_ m, GroupCursor.decode codec v.cursor = some at_ ∧
      Standing upd rows m at_ d ∧ n = 2 * m + if batch ≤ v.rowsThisTxn then 1 else 0) ?_ ht
    ⟨{}, _, rfl, hstart, rfl⟩
  rintro _ v w t ht ⟨at_, m, hat, hstanding, rfl⟩
  have hreturns : Returns ((walk.over upd.relation .grouped).groupedBatch env cfg codec batch v) w
      (Proceeds upd rows codec (decide (batch ≤ v.rowsThisTxn)) m) := by
    simp only [Walk.groupedBatch, runBatch, Walk.over]
    rw [Relation.walkSql_grouped]
    simp only [hat]
    exact lookAtGroups_proceeds henv hbatch hempty hgroups ht hstanding
  obtain ⟨o, x, w', t', hrun, ht', rfl, hproceeds⟩ := groupedOnce_returns henv pauses hreturns
  refine ⟨v.after pauses o, w', t', hrun, ht', ?_⟩
  cases hproceeds with
  | @locked n' at' hcommit hlocks hdecode hstanding' hle =>
    have hfull : batch ≤ v.rowsThisTxn := of_decide_eq_true hlocks
    have hnew : ¬batch ≤ 0 := by omega
    simp only [GroupedVars.after, hcommit, Bool.true_or, if_true, Sum.elim_inl]
    exact ⟨_, by rw [if_pos hfull, if_neg hnew]; omega, at', n', hdecode, hstanding', rfl⟩
  | @skipped n' at' hskipped hdecode hstanding' hless =>
    have hnew : ¬batch ≤ 0 := by omega
    simp only [GroupedVars.after, hskipped, Bool.or_true, if_true, Sum.elim_inl]
    exact ⟨_, by rw [if_neg hnew]; omega, at', n', hdecode, hstanding', rfl⟩
  | last hcommit hskipped hzero hwalked =>
    simpa [GroupedVars.after, hcommit, hskipped, hzero] using hwalked
  | @rows n' at' hcommit hskipped hsome hdecode hstanding' hless =>
    simp only [GroupedVars.after, hcommit, hskipped, Bool.or_self, Bool.false_eq_true, if_false,
      hsome]
    cases pauses v.batches with
    | true => exact ⟨_, by split <;> split <;> omega, at', n', hdecode, hstanding', rfl⟩
    | false => exact ⟨_, by split <;> split <;> omega, at', n', hdecode, hstanding', rfl⟩

end

end Executor
end Laswell
