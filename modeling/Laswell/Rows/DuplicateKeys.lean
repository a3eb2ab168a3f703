import Laswell.Base.Readable
import Laswell.Planner.Recipes

/-!
# Laswell.Rows.DuplicateKeys

`refuse_duplicate_keys`: no two rows of "values" may give one key. Keys are compared as the text
they are rendered to; the statement compares what the literals denote in the types of the columns.

* `renderKey_inj`: one text is one list of cells, also where several cells are joined.
* `refuseDuplicateKeys_eq_none`: accepted is a list that repeats no key in the same spelling.
* `told_iff`: when that is the same as repeating no key value.
-/

namespace Laswell
namespace Rows

open Base

/-! ## Rendering -/

/-- A cell of a row. The specification admits scalars only, and no number with a fraction. -/
inductive Cell where
  | null
  | bool (b : Bool)
  | int (n : Int)
  | text (s : String)
  deriving DecidableEq

def renderCell : Cell → String
  | .null => "NULL"
  | .bool b => if b then "true" else "false"
  | .int n => toString n
  | .text s => Planner.quoteLiteral s

/-- A row has one cell for each of the columns. -/
abbrev Row (names : List String) := Fin names.length → Cell

def addCell (rendered : String) (cell : Cell) : String :=
  rendered ++ ((if rendered = "" then "" else ", ") ++ renderCell cell)

def renderKey (cells : List Cell) : String :=
  let rendered := cells.foldl addCell ""
  if 1 < cells.length then "(" ++ rendered ++ ")" else rendered

/-! ## The refusal -/

/-- `idx`: where the key columns stand among the columns of the rows. -/
def keyIndexes (names key : List String) : Option (List (Fin names.length)) :=
  key.mapM fun k => names.findFinIdx? (· == k)

structure DuplicateKey where
  why : String
  conflict : String
  deriving DecidableEq

def duplicateKey (rendered : String) : DuplicateKey where
  why := "\"values\" gives key " ++ rendered ++ " twice"
  conflict := "\"values\" contains the key " ++ rendered ++
    " more than once. PostgreSQL breaks on this three different ways depending on the " ++
    "statement -- an INSERT violates the unique constraint, a MERGE raises \"MERGE command " ++
    "cannot affect row a second time\" (measured on 18.6), and an UPDATE quietly applies " ++
    "whichever row it reaches last -- so it is refused here instead. Decide which of the two " ++
    "rows is meant."

/-- The loop over the rows, with the keys seen so far. -/
def refuseLoop {names : List String} (idx : List (Fin names.length)) :
    List (Row names) → List String → Option DuplicateKey
  | [], _ => none
  | row :: rest, seen =>
    let rendered := renderKey (idx.map row)
    if rendered ∈ seen then some (duplicateKey rendered)
    else refuseLoop idx rest (rendered :: seen)

def refuseDuplicateKeys {names : List String} (values : Option (List (Row names)))
    (key : List String) : Option DuplicateKey :=
  match values with
  | none => none
  | some rows =>
    if key = [] then none
    else
      match keyIndexes names key with
      | none => none
      | some idx => refuseLoop idx rows []

/-! ## What it is for -/

/-- The key cells of the rows, where there are any to compare. -/
def keysOf {names : List String} (values : Option (List (Row names))) (key : List String) :
    List (List Cell) :=
  match values with
  | none => []
  | some rows =>
    if key = [] then []
    else
      match keyIndexes names key with
      | none => []
      | some idx => rows.map fun row => idx.map row

section Values

variable {V : Type}

/-- `denotes column literal` is the value of the literal in the type of the column, if it is one.
What NULL is, is up to it: no value, or one that is the same as itself. -/
def valuesOf (denotes : String → String → Option V) (key : List String) (cells : List Cell) :
    List (Option V) :=
  List.zipWith denotes key (cells.map renderCell)

def SameKey (denotes : String → String → Option V) (key : List String) (a b : List Cell) : Prop :=
  ∃ vs : List V, valuesOf denotes key a = vs.map some ∧ valuesOf denotes key b = vs.map some

def DistinctKeys (denotes : String → String → Option V) (key : List String)
    (keys : List (List Cell)) : Prop :=
  keys.Pairwise fun a b => ¬ SameKey denotes key a b

/-- Accepted are exactly the lists whose keys are pairwise different values. -/
def Told (denotes : String → String → Option V) {names : List String}
    (values : Option (List (Row names))) (key : List String) : Prop :=
  refuseDuplicateKeys values key = none ↔ DistinctKeys denotes key (keysOf values key)

/-- A key given twice in one spelling, all of it values. -/
def RepeatedValue (denotes : String → String → Option V) (key : List String)
    (keys : List (List Cell)) : Prop :=
  ∃ a, [a, a].Sublist keys ∧ SameKey denotes key a a

/-- A key given twice in one spelling, with a cell that is no value. -/
def RepeatedNull (denotes : String → String → Option V) (key : List String)
    (keys : List (List Cell)) : Prop :=
  ∃ a, [a, a].Sublist keys ∧ ¬ SameKey denotes key a a

/-- Two keys of different spelling and the same values. -/
def Respelled (denotes : String → String → Option V) (key : List String)
    (keys : List (List Cell)) : Prop :=
  ∃ a b, [a, b].Sublist keys ∧ a ≠ b ∧ SameKey denotes key a b

end Values

/-! ## One text is one list of cells -/

/-- The cell as it stands in a list, behind the blank of the separator. -/
def listed (c : Cell) : List Char := ' ' :: (renderCell c).toList

/-- What stands behind a cell: the separator, or the closing parenthesis. -/
def StopsCell (r : List Char) : Prop := ∃ l, r = ',' :: l ∨ r = ')' :: l

theorem StopsCell.head {r : List Char} (h : StopsCell r) :
    r.head? = some ',' ∨ r.head? = some ')' := by
  obtain ⟨l, rfl | rfl⟩ := h
  · exact .inl rfl
  · exact .inr rfl

theorem StopsCell.noQuote {r : List Char} (h : StopsCell r) : r.head? ≠ some '\'' := by
  rcases h.head with h | h <;> simp [h]

theorem StopsCell.noDigit {r : List Char} (h : StopsCell r) :
    ∀ c ∈ r.head?, c.isDigit = false := by
  rcases h.head with h | h <;> simp [h]

theorem quoteLiteral_toList (s : String) : (Planner.quoteLiteral s).toList =
    '\'' :: (s.toList.flatMap (fun c => if c = '\'' then ['\'', c] else [c]) ++ ['\'']) := by
  simp [Planner.quoteLiteral, Planner.quoted]

theorem natText_reads {m n : Nat} {r r' : List Char} (hr : StopsCell r) (hr' : StopsCell r')
    (h : Nat.toDigits 10 m ++ r = Nat.toDigits 10 n ++ r') : m = n ∧ r = r' := by
  have digits : ∀ k : Nat, ∀ c ∈ Nat.toDigits 10 k, c.isDigit = true := fun k c hc =>
    Nat.isDigit_of_mem_toDigits (by decide) (by decide) hc
  obtain ⟨hd, hrest⟩ := takeWhile_terminated (digits m) (digits n) hr.noDigit hr'.noDigit h
  refine ⟨?_, hrest⟩
  rw [← Nat.ofDigitChars_ten_toDigits (n := m), hd, Nat.ofDigitChars_ten_toDigits]

theorem toString_int (n : Int) : (toString n).toList =
    if n < 0 then '-' :: Nat.toDigits 10 n.natAbs else Nat.toDigits 10 n.natAbs := by
  rw [Int.toString_eq_repr, Int.repr_eq_if]
  split
  · rename_i hn
    have habs : n.toNat = n.natAbs := by omega
    rw [if_neg (by omega), Nat.toList_repr, habs]
  · rename_i hn
    have habs : (-n).toNat = n.natAbs := by omega
    rw [if_pos (by omega), String.toList_append, Nat.toList_repr, habs]
    rfl

inductive CellKind where
  | null | bool | number | text
  deriving DecidableEq

def Cell.kind : Cell → CellKind
  | .null => .null
  | .bool _ => .bool
  | .int _ => .number
  | .text _ => .text

/-- The kind of a literal, by its first character. -/
def kindOf (c : Char) : CellKind :=
  if c = 'N' then .null
  else if c = 't' ∨ c = 'f' then .bool
  else if c = '\'' then .text
  else .number

theorem kindOf_digit {c : Char} (h : c.isDigit = true) : kindOf c = .number := by
  have other : ∀ d : Char, d.isDigit = false → c ≠ d := by
    intro d hd hcd
    rw [hcd, hd] at h
    cases h
  unfold kindOf
  rw [if_neg (other 'N' (by decide)), if_neg, if_neg (other '\'' (by decide))]
  rintro (ht | hf)
  · exact other 't' (by decide) ht
  · exact other 'f' (by decide) hf

theorem renderCell_head (x : Cell) :
    ∃ c t, (renderCell x).toList = c :: t ∧ kindOf c = x.kind := by
  cases x with
  | null => exact ⟨'N', ['U', 'L', 'L'], by simp [renderCell], by decide⟩
  | bool b =>
    cases b with
    | false => exact ⟨'f', ['a', 'l', 's', 'e'], by simp [renderCell], by decide⟩
    | true => exact ⟨'t', ['r', 'u', 'e'], by simp [renderCell], by decide⟩
  | int n =>
    rw [renderCell, toString_int]
    split
    · exact ⟨'-', _, rfl, (by decide : kindOf '-' = .number)⟩
    · cases hd : Nat.toDigits 10 n.natAbs with
      | nil => exact absurd hd Nat.toDigits_ne_nil
      | cons c t =>
        have hc : c ∈ Nat.toDigits 10 n.natAbs := by simp [hd]
        exact ⟨c, t, rfl, kindOf_digit (Nat.isDigit_of_mem_toDigits (by decide) (by decide) hc)⟩
  | text s => exact ⟨'\'', _, quoteLiteral_toList s, (by decide : kindOf '\'' = .text)⟩

theorem renderCell_kind {x y : Cell} {r r' : List Char}
    (h : (renderCell x).toList ++ r = (renderCell y).toList ++ r') : x.kind = y.kind := by
  obtain ⟨c, t, hx, hc⟩ := renderCell_head x
  obtain ⟨d, u, hy, hd⟩ := renderCell_head y
  rw [hx, hy, List.cons_append, List.cons_append, List.cons.injEq] at h
  rw [← hc, ← hd, h.1]

theorem intText_reads {m n : Int} {r r' : List Char} (hr : StopsCell r) (hr' : StopsCell r')
    (h : (toString m).toList ++ r = (toString n).toList ++ r') : m = n ∧ r = r' := by
  have sign : ∀ {k l : Nat} {u v : List Char},
      '-' :: Nat.toDigits 10 k ++ u ≠ Nat.toDigits 10 l ++ v := by
    intro k l u v h
    cases hl : Nat.toDigits 10 l with
    | nil => exact Nat.toDigits_ne_nil hl
    | cons c t =>
      rw [hl, List.cons_append, List.cons_append, List.cons.injEq] at h
      have hc : c.isDigit = true :=
        Nat.isDigit_of_mem_toDigits (by decide) (by decide) (hl ▸ List.mem_cons_self)
      rw [← h.1] at hc
      exact absurd hc (by decide)
  rw [toString_int, toString_int] at h
  split at h <;> split at h
  · rw [List.cons_append, List.cons_append, List.cons.injEq] at h
    obtain ⟨he, hrest⟩ := natText_reads hr hr' h.2
    exact ⟨by omega, hrest⟩
  · exact absurd h sign
  · exact absurd h.symm sign
  · obtain ⟨he, hrest⟩ := natText_reads hr hr' h
    exact ⟨by omega, hrest⟩

/-- A cell, followed by a separator or a parenthesis, is read in one way. -/
theorem renderCell_reads (x y : Cell) {r r' : List Char} (hr : StopsCell r) (hr' : StopsCell r')
    (h : (renderCell x).toList ++ r = (renderCell y).toList ++ r') : x = y ∧ r = r' := by
  have hkind := renderCell_kind h
  cases x with
  | null =>
    cases y with
    | null => exact ⟨rfl, List.append_cancel_left h⟩
    | _ => cases hkind
  | bool b =>
    cases y with
    | bool b' =>
      cases b <;> cases b' <;> simp [renderCell] at h <;> exact ⟨rfl, h⟩
    | _ => cases hkind
  | int n =>
    cases y with
    | int n' =>
      obtain ⟨hn, hrest⟩ := intText_reads hr hr' h
      exact ⟨by rw [hn], hrest⟩
    | _ => cases hkind
  | text s =>
    cases y with
    | text s' =>
      simp only [renderCell, quoteLiteral_toList, List.cons_append, List.append_assoc,
        List.nil_append, List.cons.injEq, true_and] at h
      obtain ⟨hs, hrest⟩ := doubled_terminated s.toList s'.toList r r' hr.noQuote hr'.noQuote h
      exact ⟨by rw [String.toList_injective hs], hrest⟩
    | _ => cases hkind

theorem listed_reads (x : Cell) : Reads listed id (fun _ => True) StopsCell x := by
  intro y r r' _ hr hr' h
  simp only [listed, List.cons_append, List.cons.injEq, true_and] at h
  exact renderCell_reads x y hr hr' h

/-- What the loop has put together, as a separated list that is still to be closed. -/
theorem foldl_addCell (xs : List Cell) :
    ∀ rendered : String, rendered ≠ "" → (xs.foldl addCell rendered).toList ++ [')'] =
      rendered.toList ++ sepTail listed ',' ')' xs := by
  induction xs with
  | nil =>
    intro rendered _
    rfl
  | cons x xs ih =>
    intro rendered hne
    have hadd : (addCell rendered x).toList = rendered.toList ++ ',' :: listed x := by
      simp [addCell, hne, listed]
    have hne' : addCell rendered x ≠ "" := by
      intro h
      have := hadd
      rw [h] at this
      simp at this
    rw [List.foldl_cons, ih _ hne', hadd]
    simp [sepTail]

theorem addCell_first (x : Cell) : addCell "" x = renderCell x := by
  simp [addCell]

theorem renderCell_ne_empty (x : Cell) : renderCell x ≠ "" := by
  intro h
  obtain ⟨c, t, hx, -⟩ := renderCell_head x
  rw [h] at hx
  cases hx

theorem rendered_list {cells : List Cell} (hne : cells ≠ []) :
    ' ' :: ((cells.foldl addCell "").toList ++ [')']) = sepList listed ',' ')' cells := by
  cases cells with
  | nil => exact absurd rfl hne
  | cons x xs =>
    rw [List.foldl_cons, addCell_first, foldl_addCell xs _ (renderCell_ne_empty x)]
    rfl

theorem foldl_addCell_inj {a b : List Cell} (ha : a ≠ []) (hb : b ≠ [])
    (h : a.foldl addCell "" = b.foldl addCell "") : a = b := by
  have hl : sepList listed ',' ')' a ++ [] = sepList listed ',' ')' b ++ [] := by
    rw [← rendered_list ha, ← rendered_list hb, h]
  have hr := Reads.sepList (S := fun _ => True) (by decide) (fun l => ⟨l, .inl rfl⟩)
    (fun l => ⟨l, .inr rfl⟩) (fun x _ => ⟨' ', _, rfl, by decide⟩) (fun x _ => listed_reads x)
    (fun _ _ => trivial) (fun _ _ => trivial) hl
  simpa using hr.1

/-- Keys of the same number of columns, rendered alike, have the same cells. -/
theorem renderKey_inj {a b : List Cell} (hlen : a.length = b.length) (ha : a ≠ [])
    (h : renderKey a = renderKey b) : a = b := by
  have hb : b ≠ [] := by
    intro hb
    rw [hb, List.length_nil, List.length_eq_zero_iff] at hlen
    exact ha hlen
  refine foldl_addCell_inj ha hb ?_
  simp only [renderKey, hlen] at h
  split at h
  · have hl := congrArg String.toList h
    simp only [String.toList_append] at hl
    exact String.toList_injective (List.append_cancel_left (List.append_cancel_right hl))
  · exact h

/-! ## The loop -/

theorem refuseLoop_eq_none {names : List String} (idx : List (Fin names.length))
    (rows : List (Row names)) : ∀ seen, refuseLoop idx rows seen = none ↔
      (rows.map fun row => renderKey (idx.map row)).Nodup ∧
        ∀ row ∈ rows, renderKey (idx.map row) ∉ seen := by
  induction rows with
  | nil =>
    intro seen
    simp [refuseLoop]
  | cons row rest ih =>
    intro seen
    rw [refuseLoop]
    split
    · rename_i hseen
      constructor
      · intro h
        cases h
      · rintro ⟨-, h⟩
        exact absurd hseen (h row List.mem_cons_self)
    · rename_i hseen
      rw [ih, List.map_cons, List.nodup_cons]
      constructor
      · rintro ⟨hnodup, hrest⟩
        refine ⟨⟨?_, hnodup⟩, ?_⟩
        · intro hmem
          obtain ⟨r, hr, he⟩ := List.mem_map.1 hmem
          exact hrest r hr (by rw [he]; exact List.mem_cons_self)
        · intro r hr
          rcases List.mem_cons.1 hr with rfl | hr
          · exact hseen
          · exact fun hmem => hrest r hr (List.mem_cons_of_mem _ hmem)
      · rintro ⟨⟨hfresh, hnodup⟩, hall⟩
        refine ⟨hnodup, fun r hr hmem => ?_⟩
        rcases List.mem_cons.1 hmem with he | hmem
        · exact hfresh (List.mem_map.2 ⟨r, hr, he⟩)
        · exact hall r (List.mem_cons_of_mem _ hr) hmem

theorem keyIndexes_length {names key : List String} {idx : List (Fin names.length)}
    (h : keyIndexes names key = some idx) : idx.length = key.length := by
  induction key generalizing idx with
  | nil =>
    simp only [keyIndexes, List.mapM_nil, Option.pure_def, Option.some.injEq] at h
    simp [← h]
  | cons k key ih =>
    simp only [keyIndexes, List.mapM_cons, Option.bind_eq_bind, Option.bind_eq_some_iff,
      Option.pure_def, Option.some.injEq] at h
    obtain ⟨i, _, is, his, rfl⟩ := h
    simp [ih his]

/-- Accepted is a list that gives no key twice in the same spelling. -/
theorem refuseDuplicateKeys_eq_none {names : List String} (values : Option (List (Row names)))
    (key : List String) :
    refuseDuplicateKeys values key = none ↔ (keysOf values key).Nodup := by
  unfold refuseDuplicateKeys keysOf
  cases values with
  | none => simp
  | some rows =>
    by_cases hkey : key = []
    · simp [hkey]
    · simp only [hkey, ↓reduceIte]
      cases hidx : keyIndexes names key with
      | none => simp
      | some idx =>
        have hlen := keyIndexes_length hidx
        have hne : ∀ row : Row names, idx.map row ≠ [] := by
          intro row h
          rw [List.map_eq_nil_iff] at h
          rw [h, List.length_nil] at hlen
          exact hkey (List.length_eq_zero_iff.1 hlen.symm)
        have htexts : (rows.map fun row => renderKey (idx.map row)) =
            (rows.map fun row => idx.map row).map renderKey := by
          rw [List.map_map]
          rfl
        have hinj : ∀ a ∈ rows.map (fun row => idx.map row), ∀ b ∈ rows.map fun row => idx.map row,
            renderKey a = renderKey b → a = b := by
          intro a ha b hb h
          obtain ⟨r, _, rfl⟩ := List.mem_map.1 ha
          obtain ⟨r', _, rfl⟩ := List.mem_map.1 hb
          exact renderKey_inj (by simp) (hne r) h
        simp only [refuseLoop_eq_none, htexts, List.not_mem_nil, not_false_eq_true, implies_true,
          and_true]
        exact ⟨List.Nodup.of_map _, List.Nodup.map_on hinj⟩

/-! ## Spelling and value -/

section Values

variable {V : Type} (denotes : String → String → Option V) (key : List String)

theorem not_nodup_iff (keys : List (List Cell)) :
    ¬ keys.Nodup ↔ RepeatedValue denotes key keys ∨ RepeatedNull denotes key keys := by
  rw [List.nodup_iff_sublist]
  constructor
  · intro h
    obtain ⟨a, ha⟩ := not_forall.1 h
    by_cases hsame : SameKey denotes key a a
    · exact .inl ⟨a, not_not.1 ha, hsame⟩
    · exact .inr ⟨a, not_not.1 ha, hsame⟩
  · rintro (⟨a, ha, -⟩ | ⟨a, ha, -⟩) h
    · exact h a ha
    · exact h a ha

theorem not_distinctKeys_iff (keys : List (List Cell)) :
    ¬ DistinctKeys denotes key keys ↔
      RepeatedValue denotes key keys ∨ Respelled denotes key keys := by
  rw [DistinctKeys, List.pairwise_iff_forall_sublist]
  constructor
  · intro h
    push Not at h
    obtain ⟨a, b, hab, hsame⟩ := h
    by_cases he : a = b
    · subst he
      exact .inl ⟨a, hab, hsame⟩
    · exact .inr ⟨a, b, hab, he, hsame⟩
  · rintro (⟨a, ha, hsame⟩ | ⟨a, b, hab, -, hsame⟩) h
    · exact h ha hsame
    · exact h hab hsame

/-- Where a key of values is repeated in one spelling, the list is refused and has to be.
Elsewhere a repeated NULL is refused and a value that is spelled in two ways is not. -/
theorem told_iff {names : List String} (values : Option (List (Row names))) :
    Told denotes values key ↔ RepeatedValue denotes key (keysOf values key) ∨
      (RepeatedNull denotes key (keysOf values key) ↔
        Respelled denotes key (keysOf values key)) := by
  have hrefused := not_nodup_iff denotes key (keysOf values key)
  have hrepeats := not_distinctKeys_iff denotes key (keysOf values key)
  rw [Told, refuseDuplicateKeys_eq_none]
  by_cases hvalue : RepeatedValue denotes key (keysOf values key)
  · simp only [hvalue, true_or, iff_true] at hrefused hrepeats ⊢
    exact iff_of_false hrefused hrepeats
  · simp only [hvalue, false_or] at hrefused hrepeats ⊢
    rw [← hrefused, ← hrepeats, not_iff_not]

end Values

/-- The literals of an integer column: digits, in quotes or not. -/
def integerLiteral (_column literal : String) : Option Nat :=
  let digits := literal.toList.filter (· ≠ '\'')
  if digits ≠ [] ∧ digits.all Char.isDigit then some (Nat.ofDigitChars 10 digits 0) else none

def respelledRows : List (Row ["id", "amount"]) :=
  [![.int 1, .text "9.50"], ![.text "1", .text "7.00"]]

def nullRows : List (Row ["id", "amount"]) :=
  [![.null, .text "9.50"], ![.null, .text "7.00"]]

/-- `1` and `'1'` are one key of an integer column and are accepted, so that an update applies
either; two keys that are NULL are refused, although they match nothing, not even each other. -/
theorem respelled_accepted :
    (refuseDuplicateKeys (some respelledRows) ["id"] = none ∧
      ¬ DistinctKeys integerLiteral ["id"] (keysOf (some respelledRows) ["id"])) ∧
    (refuseDuplicateKeys (some nullRows) ["id"] ≠ none ∧
      DistinctKeys integerLiteral ["id"] (keysOf (some nullRows) ["id"])) := by
  have hrespelled : keysOf (some respelledRows) ["id"] = [[.int 1], [.text "1"]] := by
    decide +kernel
  have hnulls : keysOf (some nullRows) ["id"] = [[.null], [.null]] := by decide +kernel
  refine ⟨⟨by decide +kernel, ?_⟩, by decide +kernel, ?_⟩
  · rw [hrespelled]
    intro h
    have hsame : SameKey integerLiteral ["id"] [.int 1] [.text "1"] :=
      ⟨[1], by decide +kernel, by decide +kernel⟩
    exact (List.pairwise_cons.1 h).1 [.text "1"] List.mem_cons_self hsame
  · rw [hnulls]
    refine List.pairwise_cons.2 ⟨?_, List.pairwise_singleton _ _⟩
    rintro b - ⟨vs, hvs, -⟩
    have hnull : valuesOf integerLiteral ["id"] [.null] = [none] := by decide +kernel
    rw [hnull] at hvs
    cases vs with
    | nil => cases hvs
    | cons v vs => cases hvs

end Rows
end Laswell
