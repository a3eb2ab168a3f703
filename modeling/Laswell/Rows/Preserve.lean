import Laswell.Base.Copies
import Laswell.Base.Kleene
import Laswell.Planner.WalkChoice

/-!
# Laswell.Rows.Preserve

`preserve`: the statement that changes rows also saves them, in a CTE beside the change. Both read
the snapshot of the statement, each under a WHERE of its own.

* `Statement.Preserves`: the side table is given the rows that the change affects, each once, as
  they were.
* `preserves_iff`: when that is so, for the statements of every kind that takes `preserve`.
* `selected_preserves`: it is for the batches of a backfill.
-/

namespace Laswell
namespace Rows

open Base Planner

/-! ## What a statement reads -/

/-- `target` are the rows of the table, `source` those of `batch`, or of `src` in a statement that
is not paced. `keys` are the keys of a batch that is named by arrays, a value for each column of the
key, and `group` its group. `holds` is the condition of the intent, where it has a `from` with some
row of that. -/
structure Snapshot (V : Type) where
  target : List (Planner.Row V)
  source : List (Planner.Row V) := []
  keys : List (List V) := []
  group : Option V := none
  holds : String → Planner.Row V → Bool := fun _ _ => true

/-! ## The statements -/

/-- A term of a WHERE. `rel` is the target. -/
inductive Term where
  /-- `rel."c" = ANY($n::type[])` -/
  | anyOf (column : String) (array : Nat)
  /-- `((rel."a", rel."b") IN (SELECT * FROM unnest($1, $2))) IS TRUE` -/
  | tupleIn (columns : List String)
  /-- `rel."g" = $1` -/
  | inGroup (column : String)
  /-- `(where)` -/
  | filter (condition : String)
  /-- `rel."a" = pb."a" AND rel."b" = pb."b"`, with whatever alias the source has -/
  | equals (key : List String)
  deriving DecidableEq

inductive Change where
  | update
  | delete
  deriving DecidableEq

/-- `WITH preserved AS (INSERT INTO .. SELECT cols FROM rel .. WHERE capture)`, and an UPDATE or a
DELETE `WHERE mutation`; both with the source beside the target, or neither. -/
structure Statement where
  cols : List String
  joined : Bool
  capture : List Term
  mutation : List Term
  change : Change
  deriving DecidableEq

/-! ## The planners -/

/-- `pv.cols` of `plan_preserve`: the key first, and none twice. -/
def preservedColumns (key : String) (changed : List String) : List String :=
  changed.foldl (fun cols c => if c ∈ cols then cols else cols ++ [c]) [key]

def preserveCte (key : List String) : List Term := [.equals key]

def preserveCteByKeys (key : String) : List Term := [.anyOf key 0]

/-- `in_batch` of a walk along several columns. -/
def inBatch (columns : List String) : List Term :=
  columns.mapIdx (fun i c => .anyOf c i) ++ [.tupleIn columns]

/-- `apply_sql` of `plan_backfill`. `computed` are the values that the fill of `add_column` has the
SELECT compute; the update then has no condition but the keys. -/
def backfillStatement (walk : WalkChoice) (condition computed : String) (set : List String) :
    Statement :=
  let andWhere := if computed = "" then [Term.filter condition] else []
  match walk with
  | .ordinary key _ =>
    { cols := preservedColumns key set
      joined := false
      capture := preserveCteByKeys key
      mutation := .anyOf key 0 :: andWhere
      change := .update }
  | .composite columns _ =>
    { cols := preservedColumns (columns.headD "") (columns.tail ++ set)
      joined := false
      capture := inBatch columns
      mutation := inBatch columns ++ andWhere
      change := .update }
  | .grouped groupColumn key _ =>
    { cols := preservedColumns key set
      joined := false
      capture := preserveCteByKeys key ++ [.inGroup groupColumn]
      mutation := .inGroup groupColumn :: .anyOf key 0 :: andWhere
      change := .update }

/-- The DELETE of `plan_delete_rows` by a predicate, within a group where a module asks for it. -/
def deleteWhereStatement (groupColumn : Option String) (key condition : String)
    (columns : List String) : Statement :=
  match groupColumn with
  | none =>
    { cols := preservedColumns key columns
      joined := false
      capture := preserveCteByKeys key
      mutation := [.anyOf key 0, .filter condition]
      change := .delete }
  | some g =>
    { cols := preservedColumns key columns
      joined := false
      capture := preserveCteByKeys key ++ [.inGroup g]
      mutation := [.inGroup g, .anyOf key 0, .filter condition]
      change := .delete }

/-- `del` of `plan_delete_rows` by rows, paced or not. -/
def deleteRowsStatement (key columns : List String) : Statement where
  cols := preservedColumns (key.headD "") columns
  joined := true
  capture := preserveCte key
  mutation := [.equals key]
  change := .delete

/-- `with_rest_of_key` -/
def withRestOfKey (key changed : List String) : List String := key.tail ++ changed

/-- `upd` of `plan_update_rows`, paced or not. -/
def updateRowsStatement (key setColumns : List String) : Statement where
  cols := preservedColumns (key.headD "") (withRestOfKey key setColumns)
  joined := true
  capture := preserveCte key
  mutation := [.equals key]
  change := .update

/-- The intents that take `preserve`, as far as their statement goes. -/
inductive Preserving where
  | backfill (walk : WalkChoice) (condition computed : String) (set : List String)
  | deleteWhere (groupColumn : Option String) (key condition : String) (columns : List String)
  | deleteRows (key columns : List String)
  | updateRows (key setColumns : List String)

def Preserving.statement : Preserving → Statement
  | .backfill walk condition computed set => backfillStatement walk condition computed set
  | .deleteWhere groupColumn key condition columns =>
    deleteWhereStatement groupColumn key condition columns
  | .deleteRows key columns => deleteRowsStatement key columns
  | .updateRows key setColumns => updateRowsStatement key setColumns

/-! ## Running one -/

section Run

variable {V : Type} [DecidableEq V]

/-- The values of `$n`, the array of one column of the key. -/
def Snapshot.array (s : Snapshot V) (n : Nat) : List V := s.keys.filterMap (·[n]?)

/-- The row has these columns, none of them NULL. -/
def hasKey (columns : List String) (key : List V) (row : Planner.Row V) : Bool :=
  columns.map row == key.map some

def Term.holds (s : Snapshot V) (t : Planner.Row V) (source : Planner.Row V) : Term → Bool
  | .anyOf column array => decide (Holds (inList (t column) ((s.array array).map some)))
  | .tupleIn columns => s.keys.any fun key => hasKey columns key t
  | .inGroup column => decide (Holds (Base.equals (t column) s.group))
  | .filter condition => s.holds condition t
  | .equals key => key.all fun c => decide (Holds (Base.equals (t c) (source c)))

/-- The rows beside the target: those of the source, or a single one of no columns. -/
def Statement.beside (st : Statement) (s : Snapshot V) : List (Planner.Row V) :=
  if st.joined then s.source else [fun _ => none]

/-- The rows of the source that a row of the target is joined with. -/
def Statement.partners (st : Statement) (s : Snapshot V) (terms : List Term) (t : Planner.Row V) :
    List (Planner.Row V) :=
  (st.beside s).filter fun source => terms.all fun term => term.holds s t source

/-- What the capture selects, a row for every row of the source it is joined with. -/
def Statement.captured (st : Statement) (s : Snapshot V) : List (Planner.Row V) :=
  copies (fun t => (st.partners s st.capture t).length) s.target

/-- The mutation changes or removes the row: once, however many rows it is joined with. -/
def Statement.affects (st : Statement) (s : Snapshot V) (t : Planner.Row V) : Bool :=
  decide (st.partners s st.mutation t ≠ [])

def Statement.saved (st : Statement) (t : Planner.Row V) : List (Option V) := st.cols.map t

/-- The side table's new rows, and the target after the statement. `assign` are the new values that
a row takes, from the row of the source it was joined with. -/
def Statement.run (st : Statement) (assign : Planner.Row V → Planner.Row V → Planner.Row V)
    (s : Snapshot V) : List (List (Option V)) × List (Planner.Row V) :=
  ((st.captured s).map st.saved,
    match st.change with
    | .delete => s.target.filter fun t => !st.affects s t
    | .update => s.target.map fun t =>
      match st.partners s st.mutation t with
      | [] => t
      | source :: _ => assign t source)

/-- The side table is given the rows that the mutation affects, each once, as they were. -/
def Statement.Preserves (st : Statement) (s : Snapshot V) : Prop :=
  ∀ assign, (st.run assign s).1.Perm ((s.target.filter (st.affects s)).map st.saved)

end Run

/-! ## When it does -/

section Condition

variable {V : Type} [DecidableEq V]

/-- The row of the target is one that the arrays name. -/
def Snapshot.InBatch (s : Snapshot V) (terms : List Term) (t : Planner.Row V) : Prop :=
  ∀ term ∈ terms, term.holds s t (fun _ => none) = true

/-- By arrays: whatever rows the keys name, in their group, pass the condition, where the change
asks for it. By a source: no row of the target is named by two rows of it. -/
def Preserving.Coincides (s : Snapshot V) : Preserving → Prop
  | .backfill walk condition computed set => computed = "" →
    ∀ t ∈ s.target, s.InBatch (backfillStatement walk condition computed set).capture t →
      s.holds condition t = true
  | .deleteWhere groupColumn key condition columns =>
    ∀ t ∈ s.target, s.InBatch (deleteWhereStatement groupColumn key condition columns).capture t →
      s.holds condition t = true
  | .deleteRows key _ => ∀ t ∈ s.target, (s.source.filter fun source =>
      (Term.equals key).holds s t source).length ≤ 1
  | .updateRows key _ => ∀ t ∈ s.target, (s.source.filter fun source =>
      (Term.equals key).holds s t source).length ≤ 1

theorem Statement.preserves_iff_count (st : Statement) (s : Snapshot V)
    (hle : ∀ t ∈ s.target, st.affects s t = true → 1 ≤ (st.partners s st.capture t).length) :
    st.Preserves s ↔ ∀ t ∈ s.target, (st.partners s st.capture t).length =
      if st.affects s t then 1 else 0 := by
  rw [← copies_perm_iff (f := st.saved) hle]
  exact ⟨fun h => h fun t _ => t, fun h _ => h⟩

variable {st : Statement} {s : Snapshot V}

theorem inBatch_iff {terms : List Term} {t : Planner.Row V} :
    s.InBatch terms t ↔ (terms.all fun term => term.holds s t fun _ => none) = true :=
  List.all_eq_true.symm

theorem partners_alone (hj : st.joined = false) (terms : List Term) (t : Planner.Row V) :
    (st.partners s terms t).length =
      if (terms.all fun term => term.holds s t fun _ => none) = true then 1 else 0 := by
  rw [Statement.partners, Statement.beside, if_neg (by simp [hj]), List.filter_cons]
  split <;> rfl

theorem affects_iff (t : Planner.Row V) :
    st.affects s t = true ↔ 0 < (st.partners s st.mutation t).length := by
  rw [Statement.affects, decide_eq_true_eq, List.length_pos_iff]

/-- A statement that names its batch by arrays, and whose change asks for `passes` beside what the
capture asks for. -/
theorem preserves_byArrays (passes : Planner.Row V → Bool) (hj : st.joined = false)
    (hm : ∀ t, (st.mutation.all fun term => term.holds s t fun _ => none) =
      ((st.capture.all fun term => term.holds s t fun _ => none) && passes t)) :
    st.Preserves s ↔ ∀ t ∈ s.target, s.InBatch st.capture t → passes t = true := by
  have haffects : ∀ t, st.affects s t = true ↔ s.InBatch st.capture t ∧ passes t = true := by
    intro t
    rw [affects_iff, partners_alone hj, hm, inBatch_iff, ← Bool.and_eq_true]
    split
    · rename_i h
      simp [h]
    · rename_i h
      simp [h]
  rw [st.preserves_iff_count s]
  · refine forall_congr' fun t => forall_congr' fun _ => ?_
    rw [partners_alone hj]
    by_cases hb : s.InBatch st.capture t
    · rw [if_pos (inBatch_iff.1 hb)]
      by_cases hp : passes t = true
      · simp [(haffects t).2 ⟨hb, hp⟩, hp]
      · have hna : st.affects s t = false := by
          rw [Bool.eq_false_iff]
          exact fun h => hp ((haffects t).1 h).2
        simp [hna, hb, hp]
    · have hna : st.affects s t = false := by
        rw [Bool.eq_false_iff]
        exact fun h => hb ((haffects t).1 h).1
      rw [if_neg (inBatch_iff.not.1 hb), hna]
      simp [hb]
  · intro t _ h
    rw [partners_alone hj, if_pos (inBatch_iff.1 ((haffects t).1 h).1)]

/-- A statement whose capture and change are joined with the source in the same way. -/
theorem preserves_bySource (hj : st.joined = true) (hm : st.mutation = st.capture) :
    st.Preserves s ↔ ∀ t ∈ s.target, (s.source.filter fun source =>
      st.capture.all fun term => term.holds s t source).length ≤ 1 := by
  have hpartners : ∀ t, st.partners s st.capture t = s.source.filter fun source =>
      st.capture.all fun term => term.holds s t source := by
    intro t
    rw [Statement.partners, Statement.beside, if_pos hj]
  rw [st.preserves_iff_count s]
  · refine forall_congr' fun t => forall_congr' fun _ => ?_
    rw [← hpartners]
    split
    · rename_i h
      rw [affects_iff, hm] at h
      omega
    · rename_i h
      rw [affects_iff, hm] at h
      omega
  · intro t _ h
    rw [affects_iff, hm] at h
    exact h

/-- The pre-image of a statement is what its change affects, each row once, exactly when the keys
of a batch name only rows that the change asks for, and no row is named twice by a source. -/
theorem preserves_iff (p : Preserving) (s : Snapshot V) :
    p.statement.Preserves s ↔ p.Coincides s := by
  cases p with
  | backfill walk condition computed set =>
    rw [Preserving.Coincides, Preserving.statement]
    by_cases hc : computed = ""
    · rw [preserves_byArrays (s.holds condition)]
      · simp [hc]
      · cases walk <;> rfl
      · intro t
        cases walk with
        | ordinary key index => simp [backfillStatement, preserveCteByKeys, hc, Term.holds]
        | composite columns index =>
          simp [backfillStatement, hc, List.all_append, Term.holds]
        | grouped groupColumn key index =>
          simp [backfillStatement, preserveCteByKeys, hc, Term.holds, Bool.and_comm,
            Bool.and_assoc]
    · rw [preserves_byArrays fun _ => true]
      · simp [hc]
      · cases walk <;> rfl
      · intro t
        cases walk with
        | ordinary key index => simp [backfillStatement, preserveCteByKeys, hc]
        | composite columns index => simp [backfillStatement, hc]
        | grouped groupColumn key index =>
          simp [backfillStatement, preserveCteByKeys, hc, Bool.and_comm]
  | deleteWhere groupColumn key condition columns =>
    rw [Preserving.Coincides, Preserving.statement]
    rw [preserves_byArrays (s.holds condition)]
    · cases groupColumn <;> rfl
    · intro t
      cases groupColumn with
      | none => simp [deleteWhereStatement, preserveCteByKeys, Term.holds]
      | some g =>
        simp [deleteWhereStatement, preserveCteByKeys, Term.holds, Bool.and_comm,
          Bool.and_assoc]
  | deleteRows key columns =>
    rw [Preserving.Coincides, Preserving.statement, preserves_bySource rfl rfl]
    simp [deleteRowsStatement, preserveCte]
  | updateRows key setColumns =>
    rw [Preserving.Coincides, Preserving.statement, preserves_bySource rfl rfl]
    simp [updateRowsStatement, preserveCte]

end Condition

/-! ## The batches of a backfill -/

section Selected

variable {V : Type} [DecidableEq V] {s : Snapshot V}

/-- The columns that a key of the batch is of. -/
def batchColumns : WalkChoice → List String
  | .ordinary key _ => [key]
  | .composite columns _ => columns
  | .grouped _ key _ => [key]

/-- The group that a row of the batch is in. -/
def Snapshot.InGroup (s : Snapshot V) (t : Planner.Row V) : WalkChoice → Prop
  | .grouped groupColumn _ _ => ∃ v, t groupColumn = some v ∧ s.group = some v
  | _ => True

/-- Each key of the batch is that of a row that was found to pass the condition. -/
def Snapshot.Selected (s : Snapshot V) (walk : WalkChoice) (condition : String) : Prop :=
  ∀ key ∈ s.keys, ∃ t ∈ s.target, hasKey (batchColumns walk) key t = true ∧ s.InGroup t walk ∧
    s.holds condition t = true

/-- The columns of the walk tell the rows apart, as its index has them do. -/
def Snapshot.ToldApart (s : Snapshot V) (columns : List String) : Prop :=
  ∀ t ∈ s.target, ∀ u ∈ s.target, (∀ c ∈ columns, ∃ v, t c = some v ∧ u c = some v) → t = u

theorem hasKey_agree {columns : List String} {key : List V} {t u : Planner.Row V}
    (ht : hasKey columns key t = true) (hu : hasKey columns key u = true) :
    ∀ c ∈ columns, ∃ v, t c = some v ∧ u c = some v := by
  rw [hasKey, beq_iff_eq] at ht hu
  induction columns generalizing key with
  | nil => exact fun c hc => absurd hc List.not_mem_nil
  | cons d columns ih =>
    cases key with
    | nil => cases ht
    | cons v key =>
      rw [List.map_cons, List.map_cons, List.cons.injEq] at ht hu
      intro c hc
      rcases List.mem_cons.1 hc with rfl | hc
      · exact ⟨v, ht.1, hu.1⟩
      · exact ih ht.2 hu.2 c hc

/-- A key of one column that the first array holds. -/
theorem anyOf_first {column : String} {t source : Planner.Row V}
    (hlen : ∀ key ∈ s.keys, key.length = 1)
    (h : Term.holds s t source (.anyOf column 0) = true) :
    ∃ key ∈ s.keys, hasKey [column] key t = true := by
  rw [Term.holds, decide_eq_true_eq, holds_inList] at h
  obtain ⟨y, hy, heq⟩ := h
  obtain ⟨v, hv, rfl⟩ := (holds_equals _ _).1 heq
  obtain ⟨w, hw, hvw⟩ := List.mem_map.1 hy
  cases hvw
  obtain ⟨key, hkey, hfirst⟩ := List.mem_filterMap.1 hw
  refine ⟨key, hkey, ?_⟩
  obtain ⟨a, rfl⟩ := List.length_eq_one_iff.1 (hlen key hkey)
  cases hfirst
  simp [hasKey, hv]

theorem Snapshot.Selected.length {key : String} {walk : WalkChoice} {condition : String}
    (h : s.Selected walk condition) (hw : batchColumns walk = [key]) :
    ∀ k ∈ s.keys, k.length = 1 := by
  intro k hk
  obtain ⟨u, _, hu, _, _⟩ := h k hk
  rw [hasKey, beq_iff_eq, hw] at hu
  simpa using (congrArg List.length hu).symm

/-- The pre-image of a batch of a backfill is exact: no row but those selected has their key. -/
theorem selected_preserves {walk : WalkChoice} {condition computed : String} {set : List String}
    (hsel : s.Selected walk condition) (hapart : s.ToldApart walk.columns) :
    (Preserving.backfill walk condition computed set).statement.Preserves s := by
  rw [preserves_iff]
  intro _ t ht hbatch
  cases walk with
  | ordinary key index =>
    have hin := hbatch (.anyOf key 0) (by simp [backfillStatement, preserveCteByKeys])
    obtain ⟨k, hk, htk⟩ := anyOf_first (hsel.length rfl) hin
    obtain ⟨u, hu, huk, _, hholds⟩ := hsel k hk
    rw [hapart t ht u hu (hasKey_agree htk huk)]
    exact hholds
  | composite columns index =>
    have hin := hbatch (.tupleIn columns) (by simp [backfillStatement, inBatch])
    rw [Term.holds, List.any_eq_true] at hin
    obtain ⟨k, hk, htk⟩ := hin
    obtain ⟨u, hu, huk, _, hholds⟩ := hsel k hk
    rw [hapart t ht u hu (hasKey_agree htk huk)]
    exact hholds
  | grouped groupColumn key index =>
    have hin := hbatch (.anyOf key 0) (by simp [backfillStatement, preserveCteByKeys])
    have hgroup := hbatch (.inGroup groupColumn) (by simp [backfillStatement, preserveCteByKeys])
    rw [Term.holds, decide_eq_true_eq] at hgroup
    obtain ⟨g, htg, hsg⟩ := (holds_equals _ _).1 hgroup
    obtain ⟨k, hk, htk⟩ := anyOf_first (hsel.length rfl) hin
    obtain ⟨u, hu, huk, ⟨g', hug, hsg'⟩, hholds⟩ := hsel k hk
    cases hsg.symm.trans hsg'
    have hagree : ∀ c ∈ [groupColumn, key], ∃ v, t c = some v ∧ u c = some v := by
      intro c hc
      rcases List.mem_cons.1 hc with rfl | hc
      · exact ⟨g, htg, hug⟩
      · exact hasKey_agree htk huk c hc
    rw [hapart t ht u hu hagree]
    exact hholds

end Selected

/-! ## Two that save too much -/

def stockRow (id qty : Nat) : Planner.Row Nat := fun c =>
  if c = "id" then some id else if c = "qty" then some qty else none

/-- Of two rows with one key only the empty one is to go. -/
def emptied : Snapshot Nat where
  target := [stockRow 7 0, stockRow 7 5]
  keys := [[7]]
  holds _ t := t "qty" == some 0

/-- A source that gives one key twice. -/
def givenTwice : Snapshot Nat where
  target := [stockRow 7 0]
  source := [stockRow 7 1, stockRow 7 2]

/-- The delete leaves the row with another quantity and saves it too; the update changes its row
once and saves it twice. -/
theorem emptied_not_preserved :
    ¬ (Preserving.deleteWhere none "id" "qty = 0" ["id", "qty"]).statement.Preserves emptied ∧
    ¬ (Preserving.updateRows ["id"] ["qty"]).statement.Preserves givenTwice := by
  constructor
  · intro h
    exact absurd (h fun t _ => t).length_eq (by decide +kernel)
  · intro h
    exact absurd (h fun t _ => t).length_eq (by decide +kernel)

end Rows
end Laswell
