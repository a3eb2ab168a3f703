import Laswell.Planner.DependentViews

/-!
# Laswell.Planner.TypeChange

Which change of a column's type is called free. `provably_no_rewrite` compares two types as
`format_type` prints them, by the text before the modifier and the numbers in it.

* `typeShape`, `provablyNoRewrite`: the source.
* `Printed`: a printed type with all its parts, also what stands behind the modifier: a time zone,
  array brackets.
* `Unchanged`: the changes that leave every stored value as it is.
* `noRewrite_sound_iff`: the pairs for which the answer is right.
* `planAlterColumnType`: the plan that gives the answer. `changed_rebuilds` is its order,
  `planned_free_iff` what its answer is worth.
-/

namespace Laswell
namespace Planner

/-! ## The source -/

structure TypeShape where
  base : List Char
  /-- length, or numeric precision -/
  first : Int := -1
  /-- numeric scale -/
  second : Int := -1
  deriving DecidableEq

def isSpace (c : Char) : Bool := c == ' ' || ('\t' ≤ c && c ≤ '\r')

def digitsValue (ds : List Char) : Nat := ds.foldl (fun n c => 10 * n + (c.toNat - '0'.toNat)) 0

/-- `std::stol`: blanks, a sign, and as many digits as there are; `none` is an exception. -/
def stol (s : List Char) : Option Int :=
  let (negative, rest) : Bool × List Char :=
    match s.dropWhile isSpace with
    | '-' :: rest => (true, rest)
    | '+' :: rest => (false, rest)
    | rest => (false, rest)
  let ds := rest.takeWhile Char.isDigit
  if ds = [] then none
  else
    let n : Int := if negative then -(digitsValue ds : Int) else digitsValue ds
    if -(2 ^ 63) ≤ n ∧ n < 2 ^ 63 then some n else none

def trimEnd (s : List Char) : List Char := (s.reverse.dropWhile (· == ' ')).reverse

/-- The numbers of a modifier: none where it is not understood. -/
def modifierNumbers (mods : List Char) : Int × Int :=
  match stol (mods.takeWhile (· ≠ ',')) with
  | none => (-1, -1)
  | some first =>
    match mods.dropWhile (· ≠ ',') with
    | [] => (first, -1)
    | _ :: scale =>
      match stol scale with
      | none => (-1, -1)
      | some second => (first, second)

def typeShape (t : List Char) : TypeShape :=
  match t.dropWhile (· ≠ '(') with
  | [] => { base := t }
  | _ :: opened =>
    let numbers := modifierNumbers (opened.takeWhile (· ≠ ')'))
    { base := trimEnd (t.takeWhile (· ≠ '(')), first := numbers.1, second := numbers.2 }

def varchar : List Char := "character varying".toList

def character : List Char := "character".toList

def text : List Char := "text".toList

def provablyNoRewrite (from_ to_ : List Char) : Bool :=
  let a := typeShape from_
  let b := typeShape to_
  if (a.base = varchar ∨ a.base = character) ∧ b.base = text then true
  else if a.base ≠ b.base then false
  else if b.first = -1 then a.first ≠ -1
  else if a.first = -1 then false
  else if a.second ≠ b.second then false
  else a.first ≤ b.first

/-! ## Printed types -/

/-- A printed type: its name, the modifier in parentheses, and what stands behind it. -/
structure Printed where
  base : List Char
  modifier : Option (List Char)
  rest : List Char
  deriving DecidableEq

/-- The parts of a text. Without a modifier all of it is the name. -/
def Printed.parse (t : List Char) : Printed :=
  match t.dropWhile (· ≠ '(') with
  | [] => { base := t, modifier := none, rest := [] }
  | _ :: opened =>
    { base := trimEnd (t.takeWhile (· ≠ '('))
      modifier := some (opened.takeWhile (· ≠ ')'))
      rest := (opened.dropWhile (· ≠ ')')).tail }

/-- The modifier's numbers; -1 where there is none. -/
def Printed.numbers (p : Printed) : Int × Int := (p.modifier.map modifierNumbers).getD (-1, -1)

theorem typeShape_parse (t : List Char) :
    typeShape t = { base := (Printed.parse t).base
                    first := (Printed.parse t).numbers.1
                    second := (Printed.parse t).numbers.2 } := by
  unfold typeShape Printed.parse Printed.numbers
  cases t.dropWhile (· ≠ '(') <;> rfl

section Meaning

-- `relaxes base rest m m'`: each value of the type `base(m)rest` is stored the same as one of
-- `base(m')rest`; this is PostgreSQL's, and not in the text
variable (relaxes : List Char → List Char → List Char → List Char → Prop)

/-- The modifier is dropped, with nothing behind it, or is relaxed before the same rest. -/
def Relaxed (a b : Printed) : Prop :=
  match a.modifier, b.modifier with
  | some _, none => a.rest = []
  | some m, some m' => a.rest = b.rest ∧ relaxes a.base a.rest m m'
  | none, _ => False

/-- The stored values stay as they are: the same type with its modifier relaxed or dropped, or a
`character varying` that becomes a `text`. -/
def Unchanged (from_ to_ : List Char) : Prop :=
  let a := Printed.parse from_
  let b := Printed.parse to_
  (a.base = b.base ∧ Relaxed relaxes a b) ∨ (a.base = varchar ∧ a.rest = [] ∧ to_ = text)

/-- The second type has a modifier that is not understood, or none, where the first has a number;
or both have numbers, and the second is as wide. -/
def Widens (a b : Printed) : Prop :=
  a.numbers.1 ≠ -1 ∧
    (b.numbers.1 = -1 ∨ (a.numbers.2 = b.numbers.2 ∧ a.numbers.1 ≤ b.numbers.1))

/-- Where the answer is right. No `character` becomes a `text`; what becomes a `text` from a
`character varying` is no array; and of two types with one name and numbers that widen, what stands
behind the modifiers is the same, and wider numbers are a relaxed modifier of that type. -/
structure RightOn (from_ to_ : List Char) : Prop where
  character : (Printed.parse from_).base = character → (Printed.parse to_).base ≠ text
  varchar : (Printed.parse from_).base = varchar → (Printed.parse to_).base = text →
    (Printed.parse from_).rest = [] ∧ to_ = text
  widened : (Printed.parse from_).base = (Printed.parse to_).base →
    Widens (Printed.parse from_) (Printed.parse to_) →
    Relaxed relaxes (Printed.parse from_) (Printed.parse to_)

end Meaning

/-! ## When the answer is right -/

section Sound

variable {relaxes : List Char → List Char → List Char → List Char → Prop} {from_ to_ : List Char}

/-- What the comparison says, in the parts of the two types. -/
theorem provablyNoRewrite_iff :
    provablyNoRewrite from_ to_ = true ↔
      (((Printed.parse from_).base = varchar ∨ (Printed.parse from_).base = character) ∧
        (Printed.parse to_).base = text) ∨
      ((Printed.parse from_).base = (Printed.parse to_).base ∧
        Widens (Printed.parse from_) (Printed.parse to_)) := by
  have hnames : varchar ≠ text ∧ character ≠ text := by decide
  unfold provablyNoRewrite
  rw [typeShape_parse, typeShape_parse]
  dsimp only
  generalize Printed.parse from_ = a
  generalize Printed.parse to_ = b
  unfold Widens
  split
  · rename_i htext
    exact ⟨fun _ => .inl htext, fun _ => rfl⟩
  · rename_i hnot
    simp only [hnot, false_or]
    split
    · rename_i hbase
      simp [hbase]
    · rename_i hbase
      have hbase : a.base = b.base := not_not.mp hbase
      split
      · rename_i hb
        simp [hbase, hb]
      · rename_i hb
        split
        · rename_i ha
          simp [ha]
        · rename_i ha
          split
          · rename_i hscale
            simp [hb, hscale]
          · rename_i hscale
            simp [hbase, ha, hb, not_not.mp hscale]

theorem varchar_ne : varchar ≠ text ∧ character ≠ text ∧ character ≠ varchar := by decide

theorem unchanged_of_rightOn (h : RightOn relaxes from_ to_)
    (hfree : provablyNoRewrite from_ to_ = true) : Unchanged relaxes from_ to_ := by
  rcases provablyNoRewrite_iff.mp hfree with ⟨hvarchar | hcharacter, htext⟩ | ⟨hbase, hwidens⟩
  · exact .inr ⟨hvarchar, h.varchar hvarchar htext⟩
  · exact absurd htext (h.character hcharacter)
  · exact .inl ⟨hbase, h.widened hbase hwidens⟩

theorem rightOn_of_unchanged
    (h : provablyNoRewrite from_ to_ = true → Unchanged relaxes from_ to_) :
    RightOn relaxes from_ to_ := by
  refine ⟨?_, ?_, ?_⟩
  · intro hcharacter htext
    rcases h (provablyNoRewrite_iff.mpr (.inl ⟨.inr hcharacter, htext⟩)) with
      ⟨hbase, -⟩ | ⟨hvarchar, -, -⟩
    · exact varchar_ne.2.1 (hcharacter.symm.trans (hbase.trans htext))
    · exact varchar_ne.2.2 (hcharacter.symm.trans hvarchar)
  · intro hvarchar htext
    rcases h (provablyNoRewrite_iff.mpr (.inl ⟨.inl hvarchar, htext⟩)) with
      ⟨hbase, -⟩ | ⟨-, hrest⟩
    · exact absurd (hvarchar.symm.trans (hbase.trans htext)) varchar_ne.1
    · exact hrest
  · intro hbase hwidens
    rcases h (provablyNoRewrite_iff.mpr (.inr ⟨hbase, hwidens⟩)) with
      ⟨-, hrelaxed⟩ | ⟨hvarchar, -, hto⟩
    · exact hrelaxed
    · have htext : (Printed.parse to_).base = text := by
        rw [hto]
        rfl
      exact absurd (hvarchar.symm.trans (hbase.trans htext)) varchar_ne.1

/-- A change is called free only where it leaves the stored values as they are, exactly for the
pairs of `RightOn`. -/
theorem noRewrite_sound_iff (relaxes : List Char → List Char → List Char → List Char → Prop)
    (from_ to_ : String) :
    (provablyNoRewrite from_.toList to_.toList = true →
        Unchanged relaxes from_.toList to_.toList) ↔
      RightOn relaxes from_.toList to_.toList :=
  ⟨rightOn_of_unchanged, fun h => unchanged_of_rightOn h⟩

/-- Whatever modifiers are relaxed: a time zone that comes, array brackets that go, and the padding
of a `character` that goes are all called free. -/
theorem suffix_called_free :
    let anyModifier : List Char → List Char → List Char → List Char → Prop := fun _ _ _ _ => True
    ¬ (provablyNoRewrite "timestamp(3) without time zone".toList
          "timestamp(6) with time zone".toList = true →
        Unchanged anyModifier "timestamp(3) without time zone".toList
          "timestamp(6) with time zone".toList) ∧
    ¬ (provablyNoRewrite "numeric(10,2)[]".toList "numeric".toList = true →
        Unchanged anyModifier "numeric(10,2)[]".toList "numeric".toList) ∧
    ¬ (provablyNoRewrite "character(10)".toList "text".toList = true →
        Unchanged anyModifier "character(10)".toList "text".toList) := by
  refine ⟨fun h => ?_, fun h => ?_, fun h => ?_⟩
  · rcases h (by decide) with ⟨-, hrest, -⟩ | ⟨hvarchar, -⟩
    · exact absurd hrest (by decide)
    · exact absurd hvarchar (by decide)
  · rcases h (by decide) with ⟨-, hdropped⟩ | ⟨hvarchar, -⟩
    · have hrest : (Printed.parse "numeric(10,2)[]".toList).rest = [] := hdropped
      exact absurd hrest (by decide)
    · exact absurd hvarchar (by decide)
  · rcases h (by decide) with ⟨hbase, -⟩ | ⟨hvarchar, -⟩
    · exact absurd hbase (by decide)
    · exact absurd hvarchar (by decide)

end Sound

/-! ## The plan -/

/-- A change of a column's type. -/
structure AlterColumnType where
  qualified : String
  column : String
  type : String
  using_ : Option String := none

/-- What it is planned from: the table with the types of its columns, the views on it, and the
size of its data as `human_bytes` prints it. -/
structure TypedTable where
  present : Bool
  columns : List (String × String)
  views : DependentViews
  bytes : String

/-- The step with its reason and what its detail says of a rewrite, and what the plan is told. -/
structure TypeChange where
  step : Step
  why : String
  rewrite : Option String := none
  conflicts : List String := []
  warnings : List String := []

def alterColumnType : String := "alter_column_type"

namespace AlterColumnType

variable (in_ : AlterColumnType) (t : TypedTable) (current : String)

def sql : String :=
  "ALTER TABLE " ++ quoteQualified in_.qualified ++ " ALTER COLUMN " ++ quoteIdentifier in_.column ++
    " TYPE " ++ in_.type ++ (match in_.using_ with | some e => " USING " ++ e | none => "") ++ ";"

/-- `free_change` -/
def freeChange : Bool := provablyNoRewrite current.toList in_.type.toList

def onColumn : String := in_.qualified ++ "." ++ in_.column

def why (bytes : String) : String :=
  if in_.freeChange current then
    current ++ " -> " ++ in_.type ++ " relaxes the type modifier, which PostgreSQL applies " ++
      "without rewriting the table (measured on 18.6 by relfilenode)"
  else
    current ++ " -> " ++ in_.type ++ " is not a provable widening, so assume PostgreSQL rewrites " ++
      "the whole table: " ++ bytes ++ " under AccessExclusiveLock, during which every reader and " ++
      "writer queues"

def rewriteWarning : String :=
  "alter_column_type on " ++ in_.onColumn ++ " (" ++ current ++ " -> " ++ in_.type ++
    ") is assumed to rewrite the table. Only a relaxed type modifier is provably free; this " ++
    "project measures rather than guesses, and the measured no-rewrite cases are " ++
    "varchar(n)->varchar(m>n), varchar(n)->text, numeric(p,s)->numeric(p2>=p,s) and a widened " ++
    "timestamp precision."

/-- `warn_about_rebuild` -/
def rebuildWarnings (views : DependentViews) (order : List String) : List String :=
  let materialized := order.filter fun key => (views.get key).materialized
  ("changing " ++ in_.onColumn ++ " rebuilds " ++ toString order.length ++
    " dependent view(s): " ++ join ", " order ++ ". They are dropped and recreated in one " ++
    "transaction, so no reader sees them missing -- but the table holds AccessExclusiveLock " ++
    "for the whole of it, including any rewrite.") ::
  if materialized = [] then []
  else ["materialized view(s) " ++ join ", " materialized ++ " are rebuilt WITH DATA, so the " ++
    "transaction also re-runs their queries in full. On a large one that is the dominant cost " ++
    "of this migration, and it is paid while the lock is held."]

/-- Drops, change and recreates commit together, in a transaction of their own. -/
def change : TypeChange :=
  let rebuild := viewsToRebuild t.views in_.column
  let dropped := emitViewDrops t.views rebuild
    { kind := alterColumnType
      txnClass := .required
      ownTransaction := true
      lock := "AccessExclusiveLock on " ++ in_.qualified ++
        if rebuild = [] then "" else " and on every view rebuilt with it" }
  { step := emitViewRecreates t.views rebuild { dropped with sql := dropped.sql ++ [in_.sql] }
    why := in_.why current t.bytes ++
      if rebuild = [] then ""
      else "; " ++ toString rebuild.length ++
        " dependent view(s) block the change and are rebuilt around it"
    rewrite := some (if in_.freeChange current then "no" else "assumed")
    warnings := (if in_.freeChange current then [] else [in_.rewriteWarning current]) ++
      if rebuild = [] then [] else in_.rebuildWarnings t.views (rebuild.map Prod.snd) }

end AlterColumnType

def refusedChange (why more : String) : TypeChange where
  step := { kind := alterColumnType, action := .conflict }
  why := why
  conflicts := [why ++ more]

/-- `plan_alter_column_type` -/
def planAlterColumnType (in_ : AlterColumnType) (t : TypedTable) : TypeChange :=
  if !t.present then refusedChange (in_.qualified ++ " does not exist") ""
  else
    match t.columns.lookup in_.column with
    | none => refusedChange (in_.onColumn ++ " does not exist")
        (". A type change names a column that must already be there; add_column is the intent " ++
          "for one that is not.")
    | some current =>
      if current = in_.type then
        { step := { kind := alterColumnType, action := .satisfied }
          why := in_.onColumn ++ " is already " ++ in_.type }
      else in_.change t current

section Plan

variable {in_ : AlterColumnType} {t : TypedTable} {current : String}

/-- What a plan is: a conflict, nothing to do, or the change of a column of another type. -/
theorem planAlterColumnType_cases (in_ : AlterColumnType) (t : TypedTable) :
    (∃ why more, planAlterColumnType in_ t = refusedChange why more) ∨
    ((planAlterColumnType in_ t).step.action = .satisfied ∧
      (planAlterColumnType in_ t).rewrite = none ∧
      t.columns.lookup in_.column = some in_.type) ∨
    (∃ current, t.present = true ∧ t.columns.lookup in_.column = some current ∧
      current ≠ in_.type ∧ planAlterColumnType in_ t = in_.change t current) := by
  unfold planAlterColumnType
  cases hpresent : t.present with
  | false => exact .inl ⟨_, _, rfl⟩
  | true =>
    rw [Bool.not_true, if_neg Bool.false_ne_true]
    cases hcolumn : t.columns.lookup in_.column with
    | none => exact .inl ⟨_, _, rfl⟩
    | some current =>
      dsimp only
      by_cases hsame : current = in_.type
      · rw [if_pos hsame]
        exact .inr (.inl ⟨rfl, rfl, congrArg some hsame⟩)
      · rw [if_neg hsame]
        exact .inr (.inr ⟨current, rfl, rfl, hsame, rfl⟩)

theorem planAlterColumnType_changes (hpresent : t.present = true)
    (hcolumn : t.columns.lookup in_.column = some current) (hother : current ≠ in_.type) :
    planAlterColumnType in_ t = in_.change t current := by
  unfold planAlterColumnType
  rw [hpresent, Bool.not_true, if_neg Bool.false_ne_true, hcolumn]
  exact if_neg hother

/-- The change stands between the drops of the stack and their recreates. -/
theorem changed_rebuilds (h : t.views.Leveled) (hpresent : t.present = true)
    (hcolumn : t.columns.lookup in_.column = some current) (hother : current ≠ in_.type) :
    ∃ order, Stack t.views in_.column order ∧
      (planAlterColumnType in_ t).step.sql = order.map (dropView t.views) ++ [in_.sql] ++
        order.reverse.flatMap (recreateView t.views) := by
  refine ⟨_, viewsToRebuild_spec h, ?_⟩
  rw [planAlterColumnType_changes hpresent hcolumn hother, ← List.map_reverse, List.map_map,
    List.flatMap_map]
  rfl

theorem change_rewrite : (in_.change t current).rewrite = some "no" ↔
    in_.freeChange current = true := by
  change some (if in_.freeChange current then "no" else "assumed") = some "no" ↔ _
  cases in_.freeChange current <;> decide

/-- Whoever is not told of a rewrite is told that the change is free. -/
theorem change_warns : in_.rewriteWarning current ∈ (in_.change t current).warnings ∨
    (in_.change t current).rewrite = some "no" := by
  rw [change_rewrite]
  cases hfree : in_.freeChange current with
  | true => exact .inr rfl
  | false =>
    refine .inl (List.mem_append_left _ ?_)
    rw [hfree, if_neg Bool.false_ne_true]
    exact List.mem_singleton_self _

/-- A plan says that the table is not rewritten only where the stored values stay as they are,
exactly if the two types are a pair of `RightOn` wherever there is something to change. -/
theorem planned_free_iff (relaxes : List Char → List Char → List Char → List Char → Prop) :
    ((planAlterColumnType in_ t).rewrite = some "no" →
        ∃ current, t.columns.lookup in_.column = some current ∧
          Unchanged relaxes current.toList in_.type.toList) ↔
      ∀ current, t.present = true → t.columns.lookup in_.column = some current →
        current ≠ in_.type → RightOn relaxes current.toList in_.type.toList := by
  constructor
  · intro h current hpresent hcolumn hother
    rw [planAlterColumnType_changes hpresent hcolumn hother, change_rewrite] at h
    refine rightOn_of_unchanged fun hfree => ?_
    obtain ⟨_, hcurrent, hunchanged⟩ := h hfree
    rw [hcolumn] at hcurrent
    cases hcurrent
    exact hunchanged
  · intro h hno
    rcases planAlterColumnType_cases in_ t with ⟨why, more, hplan⟩ | ⟨-, hnone, -⟩ |
      ⟨current, hpresent, hcolumn, hother, hplan⟩
    · rw [hplan] at hno
      cases hno
    · rw [hnone] at hno
      cases hno
    · rw [hplan, change_rewrite] at hno
      exact ⟨current, hcolumn, unchanged_of_rightOn (h current hpresent hcolumn hother) hno⟩

end Plan

end Planner
end Laswell
