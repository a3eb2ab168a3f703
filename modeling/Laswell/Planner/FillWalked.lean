import Laswell.Executor.ColumnWalk
import Laswell.Executor.GroupStuck
import Laswell.Planner.TempCheck

/-!
# Laswell.Planner.FillWalked

The walk of a fill, batch by batch. `Stmt.exec` says in one step what such a walk makes of the rows
of a table; the executor's loop, over the rows that have a key, comes to the same rows, and comes to
an end where `Catalog.ends` says so.

* `FillWalk.Carried`: the rows that a pass takes and what is written over them, as the relation of
  a walk.
* `visited_iff_exec`: the rows a loop is to leave are those that `Stmt.exec` leaves.
* `ordinary_walked`, `composite_walked`, `grouped_walked`: the loops of the three forms.
* `ordinary_stopped`, `composite_stopped`: between two batches, each row is as it was found or as
  the walk leaves it.
* `wholeTable_walked`: the one statement that may go first.
-/

namespace Laswell
namespace Planner

open Base Executor

namespace FillWalk

variable (f : FillWalk) (s : Catalog)

/-- What a row that is taken becomes: the trigger runs on what the UPDATE writes. -/
def write (r : StoredRow) : StoredRow :=
  if s.trigger (serverName f.filler) then (r.setBy f.pass).filledBy f.group else r.setBy f.pass

theorem visit_eq (r : StoredRow) :
    f.visit s r = if f.meets s r && r.taken f.pass then f.write s r else r := rfl

/-- A relation has the `where` of the pass and its SET. -/
structure Carried {γ κ : Type} (rel : Relation γ κ StoredRow) : Prop where
  filter : ∀ r, rel.filter r = r.taken f.pass
  change : ∀ r, rel.change r = some (f.write s r)

end FillWalk

section Walked

variable {γ κ : Type} {f : FillWalk} {s : Catalog} {rel : Relation γ κ StoredRow}
  {covered : γ → κ → Bool} {rows : List (γ × κ × StoredRow)}

/-- The table holds the rows as the walk leaves them. -/
def FillWalk.Visited (f : FillWalk) (s : Catalog) (rows : List (γ × κ × StoredRow))
    (d : Table γ κ StoredRow) : Prop :=
  d.map Executor.Row.now = rows.map fun r => some (f.visit s r.2.2)

/-- The table holds each row as the walk found it, or as it leaves it. -/
def FillWalk.PartlyVisited (f : FillWalk) (s : Catalog) (rows : List (γ × κ × StoredRow))
    (d : Table γ κ StoredRow) : Prop :=
  List.Forall₂ (fun r row => row.now = some r.2.2 ∨ row.now = some (f.visit s r.2.2)) rows d

theorem visited_walked (hcarried : f.Carried s rel)
    (hcovered : ∀ r ∈ rows, covered r.1 r.2.1 = f.meets s r.2.2) :
    f.Visited s rows (rel.walked covered rows) := by
  unfold FillWalk.Visited Relation.walked
  rw [List.map_map]
  refine List.map_congr_left fun r hr => ?_
  simp only [Function.comp_apply, Relation.walkedRow, hcarried.filter, hcovered r hr,
    FillWalk.visit_eq, Bool.and_comm (r.2.2.taken f.pass)]
  split
  · exact hcarried.change r.2.2
  · rfl

theorem partlyVisited_walked (hcarried : f.Carried s rel)
    (hcovered : ∀ r ∈ rows, covered r.1 r.2.1 = true → f.meets s r.2.2 = true) :
    f.PartlyVisited s rows (rel.walked covered rows) := by
  unfold FillWalk.PartlyVisited Relation.walked
  rw [List.forall₂_map_right_iff, List.forall₂_same]
  intro r hr
  cases hc : covered r.1 r.2.1 with
  | false =>
    rw [rel.walkedRow_out fun _ => hc]
    exact .inl rfl
  | true =>
    cases htaken : r.2.2.taken f.pass with
    | false =>
      have hout : rel.filter r.2.2 = false := (hcarried.filter r.2.2).trans htaken
      rw [rel.walkedRow_out fun hf => by rw [hout] at hf; cases hf]
      exact .inl rfl
    | true =>
      rw [rel.walkedRow_done ((hcarried.filter r.2.2).trans htaken) hc]
      refine .inr ((hcarried.change r.2.2).trans ?_)
      rw [FillWalk.visit_eq, hcovered r hr hc, htaken]
      rfl

/-- The table holds the rows of the catalog that `Stmt.exec` leaves. -/
theorem visited_iff_exec {formatType : String → String} {s' : Catalog}
    {d : Table γ κ StoredRow} (hstored : s.rows = rows.map fun r => r.2.2)
    (hexec : (Stmt.walk f).exec formatType s = some s') :
    f.Visited s rows d ↔ d.map Executor.Row.now = s'.rows.map some := by
  simp only [Stmt.exec] at hexec
  split at hexec
  · cases hexec
    change f.Visited s rows d ↔ _ = (s.rows.map (f.visit s)).map some
    rw [hstored, List.map_map, List.map_map]
    rfl
  · cases hexec

/-- The statement that goes first takes every row. -/
theorem wholeTable_walked [LinearOrder κ] (hcarried : f.Carried s rel)
    (hone : f.inOne s = true) :
    f.Visited s rows (rel.mutate (fun _ => true) (Table.fresh rows)).2 := by
  have hall : (rel.mutate (fun _ => true) (Table.fresh rows)).2 =
      rel.walked (fun _ _ => true) rows := by
    rw [← rel.walked_none rows]
    exact rel.mutate_walked (fun _ _ => true) fun r _ _ => ⟨fun _ => rfl, rfl⟩
  rw [hall]
  exact visited_walked hcarried fun r _ => by rw [FillWalk.meets, hone, Bool.true_or]

end Walked

/-! ## Along one key -/

section Ordinary

variable {γ κ : Type} [LinearOrder γ] [LinearOrder κ] {f : FillWalk} {s : Catalog}
  {rel : Relation γ κ StoredRow} {rows : List (γ × κ × StoredRow)} {env : Env} {cfg : Config}
  {codec : ArrayText} {walk : Walk (Table γ κ StoredRow)} {batch : Int} {bounded : Bool}
  {w : World (Table γ κ StoredRow)} {t : Executor.Txn (Table γ κ StoredRow)} {key index : String}

/-- The rows have a key, and what "0" is read as among the keys is what the catalog has of it. -/
structure KeyedBy (s : Catalog) (rel : Relation γ κ StoredRow)
    (rows : List (γ × κ × StoredRow)) (key : String) : Prop where
  present : ∀ r ∈ rows, r.2.2.null key = false
  readsZero : (rel.keyText.read notStarted).isSome = s.readsZero key
  behindZero : ∀ zero, rel.keyText.read notStarted = some zero →
    ∀ r ∈ rows, r.2.2.behindZero key = decide (zero < r.2.1)

omit [LinearOrder γ] in
theorem KeyedBy.meets (h : KeyedBy s rel rows key) (hchoice : f.choice = .ordinary key index)
    (hpaced : f.inOne s = false) {zero : κ} (hzero : rel.keyText.read notStarted = some zero)
    {r : γ × κ × StoredRow} (hr : r ∈ rows) : f.meets s r.2.2 = decide (zero < r.2.1) := by
  rw [FillWalk.meets, hpaced, Bool.false_or, hchoice, WalkChoice.meets, h.present r hr,
    h.behindZero zero hzero r hr]
  rfl

/-- The walk along one key ends where "0" is read as a key, and leaves the rows visited. -/
theorem ordinary_walked (henv : env.Answers) (hbatch : 0 < batch) (hcarried : f.Carried s rel)
    (hchoice : f.choice = .ordinary key index) (hpaced : f.inOne s = false)
    (hkeyed : KeyedBy s rel rows key) (ht : w.txn = some t)
    (hd : t.view.data = Table.fresh rows) :
    EndsWith (fun fuel => walkOut ((walk.over rel .twoStatement).batches env cfg codec
        (rel.upperBound bounded t.view.data) batch) fuel notStarted) w (f.Visited s rows) ↔
      s.ends f.choice = true := by
  rw [hchoice, Catalog.ends, ← hkeyed.readsZero]
  cases hzero : rel.keyText.read notStarted with
  | none =>
    refine iff_of_false ?_ (by simp)
    exact twoStatement_refused henv hzero ht _
  | some zero =>
    refine iff_of_true ?_ rfl
    refine (twoStatement_walked_behind henv hbatch hzero bounded ht hd).mono fun _ w' => ?_
    rintro ⟨t', ht', hd'⟩
    refine ⟨t', ht', ?_⟩
    rw [hd']
    exact visited_walked hcarried fun r hr => (hkeyed.meets hchoice hpaced hzero hr).symm

/-- Wherever the walk is stopped between two batches. -/
theorem ordinary_stopped (henv : env.Answers) (hbatch : 0 < batch) (hcarried : f.Carried s rel)
    (hchoice : f.choice = .ordinary key index) (hpaced : f.inOne s = false)
    (hkeyed : KeyedBy s rel rows key) (hends : s.ends f.choice = true) (ht : w.txn = some t)
    (hd : t.view.data = Table.fresh rows) {c : String} {w' : World (Table γ κ StoredRow)}
    (hat : Walking ((walk.over rel .twoStatement).batches env cfg codec
      (rel.upperBound bounded t.view.data) batch) notStarted w c w') :
    ∃ t', w'.txn = some t' ∧ f.PartlyVisited s rows t'.view.data := by
  have hu : rel.bound (rel.upperBound bounded t.view.data) = _ := bound_upperBound bounded _
  rw [hchoice, Catalog.ends, ← hkeyed.readsZero] at hends
  obtain ⟨zero, hzero⟩ := Option.isSome_iff_exists.mp hends
  obtain ⟨q, t', ht', -, -, hd'⟩ := hat.at_position
    (fun _ _ _ _ ht hc hpos hd => twoStatement_advances henv hbatch hu ht hc hpos hd) ht
    (⟨zero, hzero, rfl⟩ : ReadsKey rel notStarted (some zero)) hd
  refine ⟨t', ht', ?_⟩
  rw [hd']
  refine partlyVisited_walked hcarried fun r hr hpassed => ?_
  rw [hkeyed.meets hchoice hpaced hzero hr]
  simp only [passed, Bool.and_eq_true] at hpassed
  simpa [Base.after] using hpassed.1

end Ordinary

/-! ## Along several columns -/

section Composite

variable {γ : Type} {n : Nat} {α : Fin (n + 1) → Type} [∀ i, LinearOrder (α i)]
  {columnText : ∀ i, Coding (α i) String} {f : FillWalk} {s : Catalog}
  {rel : Relation γ (RowKey α) StoredRow} {rows : List (γ × RowKey α × StoredRow)}
  {env : Env} {cfg : Config} {codec : ArrayText} {walk : Walk (Table γ (RowKey α) StoredRow)}
  {upto : List (Option String)} {u : Option (RowKey α)} {batch : Int}
  {w : World (Table γ (RowKey α) StoredRow)} {t : Executor.Txn (Table γ (RowKey α) StoredRow)}
  {columns : List String} {index : String}

omit [∀ i, LinearOrder (α i)] in
theorem composite_meets (hchoice : f.choice = .composite columns index)
    (hpresent : ∀ r ∈ rows, ∀ c ∈ columns, r.2.2.null c = false) {r : γ × RowKey α × StoredRow}
    (hr : r ∈ rows) : f.meets s r.2.2 = true := by
  rw [FillWalk.meets, hchoice, WalkChoice.meets, Bool.or_eq_true]
  exact .inr (List.all_eq_true.mpr fun c hc => by rw [hpresent r hr c hc]; rfl)

/-- The walk along several columns ends, and leaves the rows visited. -/
theorem composite_walked (henv : env.Answers) (hbatch : 0 < batch) (hcarried : f.Carried s rel)
    (hchoice : f.choice = .composite columns index)
    (hpresent : ∀ r ∈ rows, ∀ c ∈ columns, r.2.2.null c = false)
    (hunique : (rows.map fun r => r.2.1).Nodup)
    (hu : (rel.byColumns columnText).boundColumns upto = .ok u)
    (hin : ∀ r ∈ rows, within u r.2.1 = true) (ht : w.txn = some t)
    (hd : t.view.data = Table.fresh rows) :
    EndsWith (fun fuel => walkOut ((walk.overColumns columnText rel).batches env cfg codec upto
      batch) fuel notStarted) w (f.Visited s rows) := by
  have hends := (composite_walk_once henv cfg codec walk columnText rel rows hunique hbatch hu ht
    hd).1
  refine hends.mono fun _ w' => ?_
  rintro ⟨t', ht', hd'⟩
  refine ⟨t', ht', ?_⟩
  rw [hd']
  exact visited_walked hcarried fun r hr =>
    (hin r hr).trans (composite_meets hchoice hpresent hr).symm

theorem composite_stopped (henv : env.Answers) (hbatch : 0 < batch) (hcarried : f.Carried s rel)
    (hchoice : f.choice = .composite columns index)
    (hpresent : ∀ r ∈ rows, ∀ c ∈ columns, r.2.2.null c = false)
    (hu : (rel.byColumns columnText).boundColumns upto = .ok u) (ht : w.txn = some t)
    (hd : t.view.data = Table.fresh rows) {c : String}
    {w' : World (Table γ (RowKey α) StoredRow)}
    (hat : Walking ((walk.overColumns columnText rel).batches env cfg codec upto batch) notStarted w
      c w') :
    ∃ t', w'.txn = some t' ∧ f.PartlyVisited s rows t'.view.data := by
  have hstart : ReadsColumns codec (rel.byColumns columnText) notStarted none := ⟨none, rfl, rfl⟩
  obtain ⟨q, t', ht', -, -, hd'⟩ := hat.at_position
    (fun _ _ _ _ ht hc hpos hd => overColumns_advances henv hbatch hu ht hc hpos hd) ht hstart hd
  refine ⟨t', ht', ?_⟩
  rw [hd']
  exact partlyVisited_walked hcarried fun r hr _ => composite_meets hchoice hpresent hr

end Composite

/-! ## By group -/

section Grouped

variable {γ κ : Type} [LinearOrder γ] [LinearOrder κ] {f : FillWalk} {s : Catalog}
  {upd : GroupedUpdate γ κ StoredRow} {rows : List (γ × κ × StoredRow)} {env : Env} {cfg : Config}
  {codec : ArrayText} {walk : Walk (Table γ κ StoredRow)} {pauses : Nat → Bool} {batch : Int}
  {w : World (Table γ κ StoredRow)} {t : Executor.Txn (Table γ κ StoredRow)}
  {groupColumn key index : String}

/-- The rows of the catalog have a group and a key, and the empty text is a group of theirs where
the catalog says so. -/
structure GroupedBy (s : Catalog) (upd : GroupedUpdate γ κ StoredRow)
    (rows : List (γ × κ × StoredRow)) (groupColumn key : String) : Prop where
  stored : s.rows = rows.map fun r => r.2.2
  present : ∀ r ∈ rows, r.2.2.null groupColumn = false ∧ r.2.2.null key = false
  empty : ∀ r ∈ rows, r.2.2.empty groupColumn = decide (upd.groupText.write r.1 = "")

omit [LinearOrder γ] in
theorem GroupedBy.ends_iff (h : GroupedBy s upd rows groupColumn key) :
    s.ends (.grouped groupColumn key index) = true ↔
      ∀ r ∈ rows, upd.groupText.write r.1 ≠ "" := by
  have hread : (s.rows.isEmpty || s.rows.any fun r => !r.null groupColumn) = true := by
    rw [h.stored]
    cases rows with
    | nil => rfl
    | cons r rest => simp [(h.present r List.mem_cons_self).1]
  have hempty : s.rows.any (·.empty groupColumn) = false ↔
      ∀ r ∈ rows, upd.groupText.write r.1 ≠ "" := by
    rw [h.stored, List.any_map, List.any_eq_false]
    refine forall₂_congr fun r hr => ?_
    simp [h.empty r hr]
  rw [Catalog.ends, hread, Bool.and_true, Bool.not_eq_true', hempty]

/-- The walk by group ends where no group is without text, and leaves the rows visited, if no row
is taken again once it is written. -/
theorem grouped_walked (henv : env.Answers) (hbatch : 0 < batch)
    (hcarried : f.Carried s upd.relation)
    (hchoice : f.choice = .grouped groupColumn key index)
    (hgrouped : GroupedBy s upd rows groupColumn key)
    (honce : ∀ r ∈ rows, r.2.2.taken f.pass = true →
      (f.write s r.2.2).taken f.pass = false)
    (ht : w.txn = some t) (hd : t.view.data = Table.fresh rows) :
    EndsWith (groupedOut env pauses ((walk.over upd.relation .grouped).groupedBatch env cfg codec
        batch) · notStarted) w (f.Visited s rows) ↔ s.ends f.choice = true := by
  rw [hchoice, hgrouped.ends_iff]
  constructor
  · intro h r hr hempty
    exact not_ends_of_emptyGroup henv hbatch hr hempty ht hd _ h
  · intro hgroups
    refine (group_walked henv hbatch (fun g _ r hr _ _ hf => ?_) hgroups ht hd).mono fun _ w' => ?_
    · have hupdate : f.write s r.2.2 = upd.update r.2.2 :=
        Option.some.inj ((hcarried.change r.2.2).symm.trans rfl)
      have htaken : r.2.2.taken f.pass = true := (hcarried.filter r.2.2).symm.trans hf
      rw [← hupdate]
      exact (hcarried.filter _).trans (honce r hr htaken)
    · rintro ⟨t', ht', hd'⟩
      refine ⟨t', ht', ?_⟩
      rw [hd']
      refine visited_walked hcarried fun r hr => ?_
      rw [FillWalk.meets, hchoice, WalkChoice.meets, (hgrouped.present r hr).1,
        (hgrouped.present r hr).2]
      simp

end Grouped

end Planner
end Laswell
