import Mathlib
import Laswell.Base.ArrayInput
import Laswell.Canonical.Utf8
import Laswell.Executor.ColumnWalk

/-!
# Laswell.Executor.Literals

The array literals a batch names its keys with. `pacedLiteral`, `groupedLiteral` and `takeRows` are
the three loops that write them, byte by byte, and `keyArrays_readBack` says what the server reads:
the keys, as they were and in their order. A key is a text the server sent, so it has no NUL byte
that would end the parameter; the rules of arrays themselves know no such byte.

`WalkSql.sent` puts the literals between the batch and the statement that applies it. What the
statements of a walk keep, they keep so (`WalkSql.Sweeps.sent`): the model of a batch may pass the
keys themselves.
-/

namespace Laswell
namespace Executor

open Base ArrayInput Canonical

abbrev comma : UInt8 := 0x2C

/-! ## The loops -/

/-- `if (c == '"' || c == '\\') literal += '\\'; literal += c;` -/
def appendByte (literal : Bytes) (c : UInt8) : Bytes :=
  (if c = quote ∨ c = backslash then literal ++ [backslash] else literal) ++ [c]

/-- One round of a loop: a comma behind the keys before, then the key in quotes. -/
def appendKey (before : Nat) (literal key : Bytes) : Bytes :=
  key.foldl appendByte ((if before ≠ 0 then literal ++ [comma] else literal) ++ [quote]) ++ [quote]

/-- The literal of `run_paced_batch`. -/
def pacedLiteral (keys : List Bytes) : Bytes :=
  keys.zipIdx.foldl (fun literal key => appendKey key.2 literal key.1) [openBrace] ++ [closeBrace]

/-- The literal of `run_grouped_batch`. -/
def groupedLiteral (keys : List Bytes) : Bytes :=
  keys.zipIdx.foldl (fun literal key => appendKey key.2 literal key.1) [openBrace] ++ [closeBrace]

section Columns

variable {columns : Nat}

/-- What the loop of `run_composite_batch` has gone through: a literal for each key column. -/
structure RowsTaken (columns : Nat) where
  literals : Fin columns → Bytes := fun _ => [openBrace]
  last : Option (Fin columns → Bytes) := none
  bytes : Int := 0
  taken : Nat := 0

def columnBytes (row : Fin columns → Bytes) : Int :=
  ((List.finRange columns).map fun c => ((row c).length : Int)).sum

def takeRow (r : RowsTaken columns) (row : Fin columns → Bytes) : RowsTaken columns where
  literals := fun c => appendKey r.taken (r.literals c) (row c)
  last := some row
  bytes := r.bytes + columnBytes row
  taken := r.taken + 1

def takeRows (batchBytes : Int) : RowsTaken columns → List (Fin columns → Bytes) →
    RowsTaken columns
  | r, [] => r
  | r, row :: rows =>
    if r.taken ≠ 0 ∧ batchBytes < r.bytes + columnBytes row then r
    else takeRows batchBytes (takeRow r row) rows

/-- The parameters of the composite form, one for each key column. -/
def compositeLiterals (batchBytes : Int) (selected : List (Fin columns → Bytes)) (c : Fin columns) :
    Bytes :=
  (takeRows batchBytes {} selected).literals c ++ [closeBrace]

end Columns

/-! ## What they write -/

theorem foldl_appendByte (key : Bytes) :
    ∀ literal, key.foldl appendByte literal = literal ++ escapeItem key := by
  induction key with
  | nil =>
    intro literal
    simp [escapeItem]
  | cons c key ih =>
    intro literal
    have hcons : escapeItem (c :: key) =
        (if c = quote ∨ c = backslash then [backslash, c] else [c]) ++ escapeItem key := rfl
    rw [List.foldl_cons, ih, hcons, appendByte]
    split <;> simp

theorem appendKey_zero (literal key : Bytes) :
    appendKey 0 literal key = literal ++ quoteItem key := by
  simp [appendKey, foldl_appendByte, quoteItem]

theorem appendKey_succ (n : Nat) (literal key : Bytes) :
    appendKey (n + 1) literal key = literal ++ comma :: quoteItem key := by
  simp [appendKey, foldl_appendByte, quoteItem]

/-- The keys after the first one. -/
theorem foldl_appendKey (keys : List Bytes) :
    ∀ n literal, (keys.zipIdx (n + 1)).foldl (fun literal key => appendKey key.2 literal key.1)
        literal ++ [closeBrace] = literal ++ sepTail quoteItem comma closeBrace keys := by
  induction keys with
  | nil =>
    intro n literal
    rfl
  | cons key keys ih =>
    intro n literal
    rw [List.zipIdx_cons, List.foldl_cons, ih, appendKey_succ]
    simp [sepTail]

theorem pacedLiteral_eq (keys : List Bytes) : pacedLiteral keys = write comma keys := by
  cases keys with
  | nil => rfl
  | cons key keys =>
    rw [pacedLiteral, List.zipIdx_cons, List.foldl_cons, foldl_appendKey, appendKey_zero]
    simp [write, sepList]

section Columns

variable {columns : Nat} {batchBytes : Int}

/-- The rows taken after the first one, column by column. -/
theorem takeRows_literals (rows : List (Fin columns → Bytes)) (c : Fin columns) :
    ∀ r : RowsTaken columns, r.taken ≠ 0 →
      (takeRows batchBytes r rows).literals c ++ [closeBrace] =
        r.literals c ++ sepTail quoteItem comma closeBrace
          ((withinBudget columnBytes batchBytes (some r.bytes) rows).map fun row => row c) := by
  induction rows with
  | nil =>
    intro r _
    rfl
  | cons row rows ih =>
    intro r htaken
    by_cases hover : batchBytes < r.bytes + columnBytes row
    · simp [takeRows, withinBudget, htaken, hover, sepTail]
    · obtain ⟨n, hn⟩ := Nat.exists_eq_succ_of_ne_zero htaken
      have hrest := ih (takeRow r row) (Nat.succ_ne_zero _)
      simp only [takeRows, withinBudget, hover, and_false, if_false, hrest]
      simp [takeRow, hn, appendKey_succ, sepTail]

theorem compositeLiterals_eq (batchBytes : Int) (selected : List (Fin columns → Bytes))
    (c : Fin columns) :
    compositeLiterals batchBytes selected c =
      pacedLiteral ((withinBudget columnBytes batchBytes none selected).map fun row => row c) := by
  rw [pacedLiteral_eq, compositeLiterals]
  cases selected with
  | nil => rfl
  | cons row rows =>
    have hfirst : takeRows batchBytes {} (row :: rows) =
        takeRows batchBytes (takeRow {} row) rows := by simp [takeRows]
    rw [hfirst, takeRows_literals rows c (takeRow {} row) (Nat.succ_ne_zero _)]
    simp [takeRow, withinBudget, write, sepList, appendKey_zero]

end Columns

theorem pacedLiteral_readBack (keys : List Bytes) :
    arrayIn comma (pacedLiteral keys) = some (keys.map some) := by
  rw [pacedLiteral_eq]
  exact arrayIn_write (by decide) keys

/-- A budget for all the rows takes them all. -/
theorem withinBudget_all {α : Type} {size : α → Int} (hsize : ∀ v, 0 ≤ size v) {budget : Int} :
    ∀ (vs : List α) (bytes : Int), bytes + (vs.map size).sum ≤ budget →
      withinBudget size budget (some bytes) vs = vs := by
  intro vs
  induction vs with
  | nil =>
    intro bytes _
    rfl
  | cons v vs ih =>
    intro bytes hle
    rw [List.map_cons, List.sum_cons] at hle
    have hrest : 0 ≤ (vs.map size).sum := List.sum_nonneg fun n hn => by
      obtain ⟨w, -, rfl⟩ := List.mem_map.1 hn
      exact hsize w
    rw [withinBudget, if_neg (by omega), ih _ (by omega)]

theorem withinBudget_total {α : Type} {size : α → Int} (hsize : ∀ v, 0 ≤ size v) (vs : List α) :
    withinBudget size (vs.map size).sum none vs = vs := by
  cases vs with
  | nil => rfl
  | cons v vs => rw [withinBudget, withinBudget_all hsize vs _ (by simp)]

theorem columnBytes_nonneg {columns : Nat} (row : Fin columns → Bytes) : 0 ≤ columnBytes row :=
  List.sum_nonneg fun n hn => by
    obtain ⟨c, -, rfl⟩ := List.mem_map.1 hn
    exact Int.natCast_nonneg _

/-- Whatever the bytes of the keys, each literal is read as the list it was written from, and the
three loops write the same; the loop by columns also ends at the byte budget, and every list of
rows is taken under some budget. -/
theorem keyArrays_readBack :
    (∀ keys, arrayIn comma (pacedLiteral keys) = some (keys.map some)) ∧
      (∀ keys, groupedLiteral keys = pacedLiteral keys) ∧
      (∀ (columns : Nat) (batchBytes : Int) (selected : List (Fin columns → Bytes))
        (c : Fin columns),
        let taken := withinBudget columnBytes batchBytes none selected
        compositeLiterals batchBytes selected c = pacedLiteral (taken.map fun row => row c) ∧
          arrayIn comma (compositeLiterals batchBytes selected c) =
            some (taken.map fun row => some (row c))) ∧
      ∀ (columns : Nat) (rows : List (Fin columns → Bytes)),
        withinBudget columnBytes (rows.map columnBytes).sum none rows = rows := by
  refine ⟨pacedLiteral_readBack, fun _ => rfl, ?_, fun _ => withinBudget_total columnBytes_nonneg⟩
  intro columns batchBytes selected c taken
  have hsame := compositeLiterals_eq batchBytes selected c
  refine ⟨hsame, ?_⟩
  rw [hsame, pacedLiteral_readBack, List.map_map]
  rfl

/-! ## The batch that sends them -/

/-- A key as the server sends it. -/
def utf8 (key : String) : Bytes := key.toUTF8.data.toList

def ofUtf8 (bytes : Bytes) : Option String := String.fromUTF8? ⟨bytes.toArray⟩

/-- The keys of a literal, on the server. -/
def readKeys (literal : Bytes) : Option (List String) :=
  (arrayIn comma literal).bind fun items => items.mapM fun item => item.bind ofUtf8

/-- The rows of several arrays. -/
def rowsOf (arrays : List (List String)) : List (List String) :=
  (unnest arrays).map fun row => row.map fun value => value.getD ""

def malformedArray : Failure := .sql (.other "22P02") "malformed array literal"

/-- A row of a selection, by the key columns. -/
def rowOf (columns : Nat) (row : List String) (c : Fin columns) : Bytes := utf8 (row.getD c "")

/-- The statements of a walk, with the keys of a batch passed as literals. -/
def WalkSql.sent {δ : Type} : WalkSql δ → WalkSql δ
  | .statement run => .statement run
  | .twoStatement select apply =>
    .twoStatement select fun keys d =>
      match readKeys (pacedLiteral (keys.map utf8)) with
      | some keys => apply keys d
      | none => .error malformedArray
  | .composite columns select apply =>
    .composite columns select fun rows d =>
      let taken := rows.map (rowOf columns)
      let arrays := (List.finRange columns).map
        (compositeLiterals (taken.map columnBytes).sum taken)
      match arrays.mapM readKeys with
      | some arrays => apply (rowsOf arrays) d
      | none => .error malformedArray
  | .compositeStatement columns run => .compositeStatement columns run
  | .grouped groups select apply =>
    .grouped groups select fun group keys d =>
      match readKeys (groupedLiteral (keys.map utf8)) with
      | some keys => apply group keys d
      | none => .error malformedArray

theorem ofUtf8_utf8 (key : String) : ofUtf8 (utf8 key) = some key := by
  have hbytes : (⟨(utf8 key).toArray⟩ : ByteArray) = key.toByteArray := by
    simp [utf8, String.toUTF8]
  rw [ofUtf8, hbytes]
  simp [String.fromUTF8?, key.isValidUTF8]
  rfl

theorem mapM_readBack {α β : Type} {read : β → Option α} {write : α → β}
    (h : ∀ a, read (write a) = some a) (as : List α) : (as.map write).mapM read = some as := by
  induction as with
  | nil => rfl
  | cons a as ih => simp [h, ih]

theorem readKeys_pacedLiteral (keys : List String) :
    readKeys (pacedLiteral (keys.map utf8)) = some keys := by
  have hitems : (keys.map utf8).map some = keys.map fun key => some (utf8 key) := by simp
  rw [readKeys, pacedLiteral_readBack, Option.bind_some, hitems]
  exact mapM_readBack (fun key => by rw [Option.bind_some, ofUtf8_utf8]) keys

/-- The arrays of rows that have so many columns, put together again. -/
theorem rowsOf_columnArrays {columns : Nat} (hcolumns : 0 < columns) {rows : List (List String)}
    (hrows : ∀ row ∈ rows, row.length = columns) : rowsOf (columnArrays columns rows) = rows := by
  obtain ⟨n, rfl⟩ : ∃ n, columns = n + 1 := ⟨columns - 1, by omega⟩
  have hrow : ∀ row ∈ rows, (List.range (n + 1)).map (fun c => row.getD c "") = row := by
    intro row hmem
    have hlength := hrows row hmem
    refine List.ext_getElem (by simp [hlength]) fun c _ hc => ?_
    simp [hc]
  rw [rowsOf, unnest_columnArrays, List.map_map]
  conv_rhs => rw [← List.map_id rows]
  refine List.map_congr_left fun row hmem => ?_
  simpa [Function.comp_def] using hrow row hmem

theorem readKeys_compositeLiterals {columns : Nat} {rows : List (List String)}
    (hcolumns : 0 < columns) (hrows : ∀ row ∈ rows, row.length = columns) :
    let taken := rows.map (rowOf columns)
    (((List.finRange columns).map (compositeLiterals (taken.map columnBytes).sum taken)).mapM
      readKeys).map rowsOf = some rows := by
  intro taken
  have hliteral : ∀ c : Fin columns, compositeLiterals (taken.map columnBytes).sum taken c =
      pacedLiteral ((rows.map fun row => row.getD c "").map utf8) := by
    intro c
    rw [compositeLiterals_eq, withinBudget_total columnBytes_nonneg]
    simp [taken, rowOf, Function.comp_def]
  have harrays : columnArrays columns rows =
      (List.finRange columns).map fun c => rows.map fun row => row.getD c "" := by
    rw [columnArrays, ← List.map_coe_finRange_eq_range, List.map_map]
    rfl
  have hcolumn : (List.finRange columns).map
        (compositeLiterals (taken.map columnBytes).sum taken) =
      (columnArrays columns rows).map fun keys => pacedLiteral (keys.map utf8) := by
    rw [List.map_congr_left fun c _ => hliteral c, harrays, List.map_map]
    rfl
  rw [hcolumn, mapM_readBack readKeys_pacedLiteral, Option.map_some,
    rowsOf_columnArrays hcolumns hrows]

/-- Every row of a composite walk has its key columns. -/
def WalkSql.Columns {δ : Type} : WalkSql δ → Prop
  | .composite columns select _ => 0 < columns ∧ ∀ position batch upto d rows,
      select position batch upto d = .ok rows → ∀ row ∈ rows, row.length = columns
  | _ => True

/-- What the statements of a walk keep, they keep with the keys passed as literals. -/
theorem WalkSql.Sweeps.sent {δ : Type} {codec : ArrayText} {P : String → δ → Prop} :
    ∀ {sql : WalkSql δ}, sql.Columns → sql.Sweeps codec P → sql.sent.Sweeps codec P := by
  intro sql hcolumns h
  cases sql with
  | statement run => exact h
  | twoStatement select apply =>
    intro c batch upto d selected keys last returned d' hP hselected hkeys hlast happly
    simp only [readKeys_pacedLiteral] at happly
    exact h c batch upto d selected keys last returned d' hP hselected hkeys hlast happly
  | composite columns select apply =>
    intro c position batch upto d selected rows last returned d' hP hat hselected hrows hlast happly
    have hlength : ∀ row ∈ rows, row.length = columns := fun row hrow =>
      hcolumns.2 position batch upto d selected hselected row (hrows.subset hrow)
    have hread := readKeys_compositeLiterals hcolumns.1 hlength
    obtain ⟨arrays, harrays, hunnest⟩ := Option.map_eq_some_iff.1 hread
    simp only [harrays, hunnest] at happly
    exact h c position batch upto d selected rows last returned d' hP hat hselected hrows hlast
      happly
  | compositeStatement columns run => exact h
  | grouped groups select apply =>
    have happly : (fun group keys d =>
        match readKeys (groupedLiteral (keys.map utf8)) with
        | some keys => apply group keys d
        | none => .error malformedArray) = apply := by
      funext group keys d
      have hread : readKeys (groupedLiteral (keys.map utf8)) = some keys :=
        readKeys_pacedLiteral keys
      simp only [hread]
    change GroupsSweep codec P groups select _
    rw [happly]
    exact h

end Executor
end Laswell
