import Laswell.Base.RowKey
import Laswell.Executor.KeyWalk

/-!
# Laswell.Executor.ColumnWalk

Composite walks: along all the columns of a unique index, whose rows compare column by column. The
rows of a batch are passed as one array for each column.

* `inBatch_columnArrays`: the arrays name the rows of the batch and no other.
* `composite_walk_once`: every row that matches and is not above the bound is changed once, and a
  batch that the byte budget cut is followed by one that starts at the first row kept out of it.
-/

namespace Laswell
namespace Executor

open Base

/-! ## One array for each column -/

section Arrays

/-- Element `i` of each array is row `i`'s value. -/
def columnArrays (columns : Nat) (rows : List (List String)) : List (List String) :=
  (List.range columns).map fun c => rows.map (·.getD c "")

theorem columnArrays_getD (rows : List (List String)) {n : Nat} (i : Fin (n + 1)) :
    (columnArrays (n + 1) rows).getD i [] = rows.map (·.getD i "") := by
  rw [columnArrays, List.getD_eq_getElem?_getD, List.getElem?_map,
    List.getElem?_range i.isLt, Option.map_some, Option.getD_some]

/-- `SELECT * FROM unnest(…)`: a shorter array goes on as NULL. -/
def unnest (arrays : List (List String)) : List (List (Option String)) :=
  (List.range ((arrays.map List.length).max?.getD 0)).map fun i => arrays.map (·[i]?)

theorem unnest_columnArrays (n : Nat) (rows : List (List String)) :
    unnest (columnArrays (n + 1) rows) =
      rows.map fun row => (List.range (n + 1)).map fun c => some (row.getD c "") := by
  have hlengths : (columnArrays (n + 1) rows).map List.length =
      List.replicate (n + 1) rows.length := by
    refine List.eq_replicate_iff.mpr ⟨by simp [columnArrays], fun b hb => ?_⟩
    obtain ⟨column, hcolumn, rfl⟩ := List.mem_map.mp hb
    obtain ⟨c, -, rfl⟩ := List.mem_map.mp hcolumn
    simp
  rw [unnest, hlengths, List.max?_replicate_of_pos (by omega), Option.getD_some]
  refine List.ext_getElem (by simp) fun i hi hi' => ?_
  have hrow : i < rows.length := by simpa using hi'
  simp [columnArrays, hrow]

theorem getD_ofFn {m : Nat} (f : Fin m → String) (i : Fin m) : (List.ofFn f).getD i "" = f i := by
  rw [List.getD_eq_getElem?_getD, List.getElem?_ofFn]
  simp

variable {n : Nat} {α : Fin (n + 1) → Type} (columnText : ∀ i, Coding (α i) String)

/-- A row's key as the texts of its columns. -/
def rowText : Coding (RowKey α) (List String) where
  write k := List.ofFn fun i => (columnText i).write (k.column i)
  read texts :=
    if h : texts.length = n + 1 ∧ ∀ i : Fin (n + 1), ((columnText i).read (texts.getD i "")).isSome
    then some ⟨fun i => ((columnText i).read (texts.getD i "")).get (h.2 i)⟩
    else none
  read_write k := by
    have hread : ∀ i : Fin (n + 1), (columnText i).read
        ((List.ofFn fun i => (columnText i).write (k.column i)).getD i "") = some (k.column i) := by
      intro i
      rw [getD_ofFn, (columnText i).read_write]
    rw [dif_pos ⟨List.length_ofFn, fun i => by rw [hread]; rfl⟩]
    refine congrArg some (RowKey.ext fun i => ?_)
    simp only [hread, Option.get_some]

theorem rowText_getD (k : RowKey α) (i : Fin (n + 1)) :
    ((rowText columnText).write k).getD i "" = (columnText i).write (k.column i) :=
  getD_ofFn _ i

variable [∀ i, DecidableEq (α i)]

/-- `c1 = ANY($1) AND … AND ((c1, …) IN (SELECT * FROM unnest($1, …))) IS TRUE` -/
def inBatch (arrays : List (List String)) (k : RowKey α) : Bool :=
  (decide (∀ i : Fin (n + 1),
    some (k.column i) ∈ (arrays.getD i []).map (columnText i).read)) &&
  (unnest arrays).any fun row => decide (∀ i : Fin (n + 1),
    (row.getD i none).bind (columnText i).read = some (k.column i))

/-- The arrays of a batch name its rows: not one made of one row's first column and another's
second. -/
theorem inBatch_columnArrays (ks : List (RowKey α)) (k : RowKey α) :
    inBatch columnText (columnArrays (n + 1) (ks.map (rowText columnText).write)) k = true ↔
      k ∈ ks := by
  have hcolumn : ∀ (k' : RowKey α) (i : Fin (n + 1)),
      (((List.range (n + 1)).map fun c =>
        some (((rowText columnText).write k').getD c "")).getD i none).bind (columnText i).read =
        some (k'.column i) := by
    intro k' i
    rw [List.getD_eq_getElem?_getD, List.getElem?_map, List.getElem?_range i.isLt,
      Option.map_some, Option.getD_some, rowText_getD, Option.bind_some,
      (columnText i).read_write]
  rw [inBatch, Bool.and_eq_true, unnest_columnArrays, List.any_eq_true]
  constructor
  · rintro ⟨-, row, hrow, hsame⟩
    rw [List.map_map] at hrow
    obtain ⟨k', hk', rfl⟩ := List.mem_map.mp hrow
    have hk : k' = k := by
      refine RowKey.ext fun i => ?_
      exact Option.some.inj ((hcolumn k' i).symm.trans (of_decide_eq_true hsame i))
    exact hk ▸ hk'
  · intro hk
    refine ⟨decide_eq_true fun i => ?_, _,
      List.mem_map.mpr ⟨_, List.mem_map.mpr ⟨k, hk, rfl⟩, rfl⟩, decide_eq_true (hcolumn k)⟩
    have hin : ((rowText columnText).write k).getD i "" ∈
        (columnArrays (n + 1) (ks.map (rowText columnText).write)).getD i [] := by
      rw [columnArrays_getD]
      exact List.mem_map_of_mem (List.mem_map_of_mem hk)
    have hread := List.mem_map_of_mem (f := (columnText i).read) hin
    rwa [rowText_getD, (columnText i).read_write] at hread

omit [∀ i, DecidableEq (α i)] in
/-- Every text of a batch is a value of its column. -/
theorem columnArrays_read (ks : List (RowKey α)) (i : Fin (n + 1)) :
    ∀ text ∈ (columnArrays (n + 1) (ks.map (rowText columnText).write)).getD i [],
      ((columnText i).read text).isSome = true := by
  intro text htext
  rw [columnArrays_getD, List.map_map] at htext
  obtain ⟨k, -, rfl⟩ := List.mem_map.mp htext
  rw [Function.comp_apply, rowText_getD, (columnText i).read_write]
  rfl

end Arrays

/-! ## The walk -/

section Walks

variable {γ ρ : Type} {n : Nat} {α : Fin (n + 1) → Type}
  [∀ i, LinearOrder (α i)] (columnText : ∀ i, Coding (α i) String)

/-- A relation whose key is the columns of an index. -/
def Relation.byColumns (rel : Relation γ (RowKey α) ρ) : Relation γ (RowKey α) ρ :=
  { rel with
    columns := n + 1
    keyColumns := rowText columnText
    keyColumns_length := fun _ => List.length_ofFn }

def Relation.selectRows (rel : Relation γ (RowKey α) ρ) (upto : List (Option String))
    (limit : Int) (position : Option (List String)) (d : Table γ (RowKey α) ρ) :
    Except Failure (List (List String)) := do
  let p ← readMaybe (rowText columnText) position
  let u ← (rel.byColumns columnText).boundColumns upto
  pure ((rel.selectPage p u limit d).map (rowText columnText).write)

/-- `UPDATE … WHERE` the row is in the batch `AND (where)` -/
def Relation.applyArrays (rel : Relation γ (RowKey α) ρ) (arrays : List (List String))
    (d : Table γ (RowKey α) ρ) : Except Failure (Nat × Table γ (RowKey α) ρ) :=
  if ∀ i : Fin (n + 1), ∀ text ∈ arrays.getD i [], ((columnText i).read text).isSome then
    .ok (rel.mutate (fun r => inBatch columnText arrays r.key) d)
  else .error invalidText

/-- The statements of a composite walk, the rows of a batch passed as arrays. -/
def Walk.overColumns (walk : Walk (Table γ (RowKey α) ρ)) (rel : Relation γ (RowKey α) ρ) :
    Walk (Table γ (RowKey α) ρ) :=
  { walk with
    sql := .composite (n + 1)
      (fun position limit upto => rel.selectRows columnText upto limit position)
      (fun rows => rel.applyArrays columnText (columnArrays (n + 1) rows)) }

variable {columnText} {rel : Relation γ (RowKey α) ρ} {rows : List (γ × (RowKey α) × ρ)}
  {u q : Option (RowKey α)} {env : Env} {cfg : Config} {codec : ArrayText}
  {walk : Walk (Table γ (RowKey α) ρ)} {upto : List (Option String)} {batch : Int}
  {w : World (Table γ (RowKey α) ρ)} {t : Txn (Table γ (RowKey α) ρ)}

theorem applyArrays_written (ks : List (RowKey α)) (d : Table γ (RowKey α) ρ) :
    rel.applyArrays columnText (columnArrays (n + 1) (ks.map (rowText columnText).write)) d =
      .ok (rel.applyKeys ks d) := by
  rw [Relation.applyArrays, if_pos (columnArrays_read columnText ks), Relation.applyKeys]
  have hnamed : (fun r : Row γ (RowKey α) ρ =>
      inBatch columnText (columnArrays (n + 1) (ks.map (rowText columnText).write)) r.key) =
      fun r => decide (r.key ∈ ks) := by
    funext r
    exact Bool.eq_iff_iff.mpr ((inBatch_columnArrays columnText ks r.key).trans
      decide_eq_true_iff.symm)
  rw [hnamed]

theorem overColumns_takes (henv : env.Answers)
    (hu : (rel.byColumns columnText).boundColumns upto = .ok u) (ht : w.txn = some t) {c : String}
    (hc : ReadsColumns codec (rel.byColumns columnText) c q) :
    Returns ((walk.overColumns columnText rel).batches env cfg codec upto batch c) w
      (Takes (rowText columnText) rowBytes cfg.batchBytes codec.dump rel
        (rel.selectPage q u batch t.view.data) t.view.data) := by
  obtain ⟨position, hat, hq⟩ := hc
  simp only [Walk.batches, runBatch, Walk.overColumns]
  have hat' : compositeAt codec (n + 1) c = some position := hat
  rw [runCompositeBatch_eq hat']
  refine pageBatch_takes henv ?_ (fun ks d => applyArrays_written ks d) ht
  have hq' : Relation.readMaybe (rowText columnText) position = .ok q := hq
  rw [Relation.selectRows, hq', hu]
  rfl

theorem overColumns_advances (henv : env.Answers) (hbatch : 0 < batch)
    (hu : (rel.byColumns columnText).boundColumns upto = .ok u) {c : String} (ht : w.txn = some t)
    (hc : ReadsColumns codec (rel.byColumns columnText) c q) (hpos : Position none u q)
    (hd : t.view.data = rel.walked (passed none q) rows) :
    Returns ((walk.overColumns columnText rel).batches env cfg codec upto batch c) w
      (Advances (ReadsColumns codec (rel.byColumns columnText)) rel rows none u q) := by
  refine (overColumns_takes henv hu ht hc).mono fun o d' h => ?_
  rw [hd, selectPage_walked] at h
  exact h.advances hbatch readsColumns_dump hpos

/-- The batch after this one starts at the first row that the byte budget kept out of it. -/
def GoesOnAtCut {δ : Type} (codec : ArrayText) (columns : Nat) (batchBytes : Int)
    (select : Option (List String) → δ → Except Failure (List (List String)))
    (batchAt : String → Exec δ BatchOutcome) (c : String) (w : World δ) : Prop :=
  ∀ t position selected o w' row, w.txn = some t → compositeAt codec columns c = some position →
    select position t.view.data = .ok selected → batchAt c w = (.ok o, w') →
    selected[(withinBudget rowBytes batchBytes none selected).length]? = some row →
    ∃ t' position' selected', w'.txn = some t' ∧
      compositeAt codec columns o.cursor = some position' ∧
      select position' t'.view.data = .ok selected' ∧ selected'.head? = some row

theorem overColumns_goesOnAtCut (henv : env.Answers)
    (hunique : (rows.map fun r => r.2.1).Nodup)
    (hu : (rel.byColumns columnText).boundColumns upto = .ok u) {c : String} (ht : w.txn = some t)
    (hc : ReadsColumns codec (rel.byColumns columnText) c q) (hpos : Position none u q)
    (hd : t.view.data = rel.walked (passed none q) rows) :
    GoesOnAtCut codec (n + 1) cfg.batchBytes (rel.selectRows columnText upto batch)
      ((walk.overColumns columnText rel).batches env cfg codec upto batch) c w := by
  intro t' position selected o w' row ht' hat hselect hrun hrow
  obtain rfl : t = t' := Option.some.inj (ht.symm.trans ht')
  obtain ⟨position', hat', hq⟩ := hc
  obtain rfl : position' = position := Option.some.inj (hat'.symm.trans hat)
  have hread : Relation.readMaybe (rowText columnText) position' = .ok q := hq
  have hpage : rel.selectRows columnText upto batch position' t.view.data =
      .ok ((page q u batch.toNat (rel.wanted rows)).map (rowText columnText).write) := by
    have hnow : rel.selectPage q u batch t.view.data = _ := hd ▸ selectPage_walked rows
    rw [← hnow, Relation.selectRows, hread, hu]
    rfl
  cases hselect.symm.trans hpage
  have hreturns : Returns ((walk.overColumns columnText rel).batches env cfg codec upto batch c) w
      (Takes (rowText columnText) rowBytes cfg.batchBytes codec.dump rel
        (rel.selectPage q u batch t.view.data) t.view.data) :=
    overColumns_takes henv hu ht ⟨position', hat', hq⟩
  obtain ⟨o', w'', t'', hrun', ht'', htakes⟩ := hreturns
  cases hrun'.symm.trans hrun
  rw [hd, selectPage_walked] at htakes
  rw [List.getElem?_map, Option.map_eq_some_iff] at hrow
  obtain ⟨k, hk, rfl⟩ := hrow
  have hwanted : (rel.wanted rows).Nodup := hunique.sublist (List.filter_sublist.map _)
  obtain ⟨m, hcursor, hd'', hhead⟩ := htakes.next_page hwanted hpos hk
  refine ⟨t'', some ((rowText columnText).write m),
    (page (some m) u batch.toNat (rel.wanted rows)).map (rowText columnText).write, ht'', ?_, ?_, ?_⟩
  · rw [hcursor]
    have hcolumns : ∀ k, ((rowText columnText).write k).length = n + 1 := fun _ => List.length_ofFn
    simp [compositeAt, codec.dump_ne_empty, codec.dump_ne_zero, codec.parse_dump, hcolumns]
  · have hread' : Relation.readMaybe (rowText columnText) (some ((rowText columnText).write m)) =
        .ok (some m) := readMaybe_some.mpr ⟨m, (rowText columnText).read_write m, rfl⟩
    have hnext : rel.selectPage (some m) u batch t''.view.data = _ := hd'' ▸ selectPage_walked rows
    rw [← hnext, Relation.selectRows, hread', hu]
    rfl
  · rw [List.head?_map, hhead]
    rfl

/-- The walk along the columns of a key: it ends with every row that matches and is not above the
bound changed once and no other, and each of its batches is followed by one from its cut. -/
theorem composite_walk_once (henv : env.Answers) (cfg : Config) (codec : ArrayText)
    (walk : Walk (Table γ (RowKey α) ρ)) (columnText : ∀ i, Coding (α i) String)
    (rel : Relation γ (RowKey α) ρ) (rows : List (γ × (RowKey α) × ρ))
    (hunique : (rows.map fun r => r.2.1).Nodup) (hbatch : 0 < batch)
    (hu : (rel.byColumns columnText).boundColumns upto = .ok u) (ht : w.txn = some t)
    (hd : t.view.data = Table.fresh rows) :
    EndsWith (fun fuel => walkOut ((walk.overColumns columnText rel).batches env cfg codec upto
        batch) fuel notStarted) w (· = rel.walked (fun _ k => within u k) rows) ∧
      ∀ c w', Walking ((walk.overColumns columnText rel).batches env cfg codec upto batch)
          notStarted w c w' →
        GoesOnAtCut codec (n + 1) cfg.batchBytes (rel.selectRows columnText upto batch)
          ((walk.overColumns columnText rel).batches env cfg codec upto batch) c w' := by
  have hstart : ReadsColumns codec (rel.byColumns columnText) notStarted none := ⟨none, rfl, rfl⟩
  have hadvances : ∀ c q w t, w.txn = some t → ReadsColumns codec (rel.byColumns columnText) c q →
      Position none u q → t.view.data = rel.walked (passed none q) rows →
      Returns ((walk.overColumns columnText rel).batches env cfg codec upto batch c) w
        (Advances (ReadsColumns codec (rel.byColumns columnText)) rel rows none u q) :=
    fun _ _ _ _ ht hc hpos hd => overColumns_advances henv hbatch hu ht hc hpos hd
  constructor
  · exact walkOut_walked hadvances ht hstart hd
  · intro c w' hwalking
    obtain ⟨q, t', ht', hc, hpos, hd'⟩ := hwalking.at_position hadvances ht hstart hd
    exact overColumns_goesOnAtCut henv hunique hu ht' hc hpos hd'

omit [∀ i, LinearOrder (α i)] in
/-- A bound as it is read at the start. -/
theorem boundColumns_write (k : RowKey α) :
    (rel.byColumns columnText).boundColumns (((rowText columnText).write k).map some) =
      .ok (some k) := by
  have hread := (rowText columnText).read_write k
  cases htexts : (rowText columnText).write k with
  | nil => simp [rowText, List.ofFn_succ] at htexts
  | cons text rest =>
    rw [htexts] at hread
    have hsame : (rest.map some).map (·.getD "") = rest := by simp
    have hok : Relation.readOr (rel.byColumns columnText).keyColumns (text :: rest) = .ok k :=
      readOr_eq_ok.mpr hread
    simp only [List.map_cons, Relation.boundColumns]
    rw [hsame, hok]
    rfl

end Walks

abbrev TwoDigits := RowKey fun _ : Fin 2 => Fin 4

def twoDigits (a b : Fin 4) : TwoDigits := ⟨fun i => if i = 0 then a else b⟩

local instance neZeroFour : NeZero 4 := ⟨by decide⟩

/-- The rows of a table whose key is two digits. -/
def twoColumnRows : List (Unit × TwoDigits × Bool) :=
  [((), twoDigits 1 0, false), ((), twoDigits 0 2, false), ((), twoDigits 0 1, false)]

noncomputable def twoColumns : Relation Unit TwoDigits Bool where
  filter v := !v
  change _ := some true
  keyText :=
    { write := fun k => jsonStrings.dump ((rowText fun _ => digitText).write k)
      read := fun s => (jsonStrings.parse s).bind (rowText fun _ => digitText).read
      read_write := fun k => by rw [jsonStrings.parse_dump]; exact (rowText _).read_write k }
  groupText := unfilled.groupText
  columns := 2
  keyColumns := rowText fun _ => digitText
  keyColumns_length _ := List.length_ofFn

theorem composite_walk_twoColumns :
    EndsWith (fun fuel => walkOut (Walk.batches (Walk.overColumns (fun _ => digitText)
        { ordinal := 0, sql := twoColumns.walkSql .composite } twoColumns) {} { batchRows := 1 }
        jsonStrings (((rowText fun _ => digitText).write (twoDigits 0 2)).map some) 1) fuel notStarted)
      (.opened twoColumnRows)
      (· = twoColumns.walked (fun _ k => within (some (twoDigits 0 2)) k) twoColumnRows) :=
  (composite_walk_once (w := .opened twoColumnRows) (fun _ => rfl) { batchRows := 1 } jsonStrings
    { ordinal := 0, sql := twoColumns.walkSql .composite } (fun _ => digitText) twoColumns
    twoColumnRows (by decide) (by decide) (boundColumns_write _) rfl rfl).1

end Executor
end Laswell
