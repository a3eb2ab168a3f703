import Laswell.Base.Kleene
import Laswell.Planner.TempCheck

/-!
# Laswell.Planner.AttachPartition

`attach_partition` renders the bound of a partition twice: as the FOR VALUES clause of ATTACH, and
as a CHECK that is validated first, so that ATTACH need not scan.

* `boundsAsCheck`, `boundsAsForValues`, `singlePartitionKey`: the source; the plan over them is
  `planAttachPartition`.
* `Reading`: what PostgreSQL makes of the texts of a bound.
* `Test`: the CHECK as an expression. `boundsAsCheck_text` is its text.
* `check_tells_bound_iff`: when a row passes the CHECK exactly if the bound admits it.
-/

namespace Laswell
namespace Planner

open Base

/-! ## The source -/

/-- "from" and "to", or "values", of which there is at least one. -/
inductive KeyBound where
  | range (lower upper : String)
  | list (values : List String) (nonempty : values ≠ [])

/-- A hash bound comes with `create_table` only. -/
inductive PartBound where
  | keyed (b : KeyBound)
  | hash (modulus remainder : Int)
  | default

def boundsAsCheck (key : String) : PartBound → String
  | .keyed (.range lower upper) => key ++ " >= " ++ lower ++ " AND " ++ key ++ " < " ++ upper
  | .keyed (.list values _) => key ++ " IN (" ++ join ", " values ++ ")"
  | .hash _ _ => ""
  | .default => ""

def boundsAsForValues : PartBound → String
  | .hash modulus remainder =>
    "FOR VALUES WITH (MODULUS " ++ toString modulus ++ ", REMAINDER " ++ toString remainder ++ ")"
  | .keyed (.range lower upper) => "FOR VALUES FROM (" ++ lower ++ ") TO (" ++ upper ++ ")"
  | .keyed (.list values _) => "FOR VALUES IN (" ++ join ", " values ++ ")"
  | .default => "DEFAULT"

/-- "RANGE (at)" is "at"; a composite key, and one without parentheses, is "". -/
def singlePartitionKey (partkeydef : String) : String :=
  let opened := (partkeydef.toList.dropWhile (· ≠ '(')).tail
  let inner := (opened.reverse.dropWhile (· ≠ ')')).tail.reverse
  if ')' ∈ opened ∧ ',' ∉ inner then String.ofList inner else ""

/-- What `plan_attach_partition` makes of the bound: `check_expr`, where there is one, and the
clause. `planAttachPartition` is the plan with these. -/
def attachWith (schema table partition partitionKey : String) (b : PartBound)
    (defaultPartition : Option String) : AttachPartition where
  schema := schema
  table := table
  partition := partition
  bound :=
    let key := singlePartitionKey partitionKey
    let check := if key = "" then "" else boundsAsCheck key b
    if check = "" then none else some check
  forValues := boundsAsForValues b
  defaultPartition := defaultPartition

/-! ## What the texts mean -/

/-- An end of a range. -/
inductive RangeEnd (α : Type) where
  | minvalue
  | maxvalue
  | value (a : α)

/-- PostgreSQL's reading of the texts of a bound: the ends of a range, and the values of a list,
where `none` is NULL. -/
structure Reading (α : Type) where
  bound : String → RangeEnd α
  value : String → Option α

/-- MINVALUE and MAXVALUE are of the grammar of a bound. In an expression they are names, of
columns that there are not. -/
def RangeEnd.expression {α : Type} : RangeEnd α → Option α
  | .value a => some a
  | .minvalue => none
  | .maxvalue => none

theorem expression_eq_some {α : Type} {e : RangeEnd α} {a : α} :
    e.expression = some a ↔ e = .value a := by
  cases e <;> simp [RangeEnd.expression]

/-- The condition of a CHECK on the key. -/
inductive Test where
  | ge (bound : String)
  | lt (bound : String)
  | and (a b : Test)
  | inValues (values : List String)

def Test.text (key : String) : Test → String
  | .ge bound => key ++ " >= " ++ bound
  | .lt bound => key ++ " < " ++ bound
  | .and a b => a.text key ++ " AND " ++ b.text key
  | .inValues values => key ++ " IN (" ++ join ", " values ++ ")"

def KeyBound.test : KeyBound → Test
  | .range lower upper => .and (.ge lower) (.lt upper)
  | .list values _ => .inValues values

theorem boundsAsCheck_text (key : String) (b : KeyBound) :
    boundsAsCheck key (.keyed b) = b.test.text key := by
  cases b with
  | range lower upper => simp [boundsAsCheck, KeyBound.test, Test.text, String.append_assoc]
  | list values nonempty => rfl

/-- On a single-column key the plan validates that text before it attaches. -/
theorem attachWith_bound {schema table partition partitionKey : String} {b : KeyBound}
    {defaultPartition : Option String} (hkey : singlePartitionKey partitionKey ≠ "") :
    (attachWith schema table partition partitionKey (.keyed b) defaultPartition).bound =
      some (b.test.text (singlePartitionKey partitionKey)) := by
  have htext : boundsAsCheck (singlePartitionKey partitionKey) (.keyed b) ≠ "" := by
    intro h
    have hlength := congrArg String.length h
    cases b <;> simp [boundsAsCheck] at hlength
  unfold attachWith
  dsimp only
  rw [if_neg hkey, if_neg htext, boundsAsCheck_text]

section Meaning

variable {α : Type} [LinearOrder α] (read : Reading α)

/-- What the condition says of a key, or `none` where it is no expression. -/
def Test.eval : Test → Option (Option α → Truth)
  | .ge bound => (read.bound bound).expression.map fun a k =>
      compared (fun x y => decide (y ≤ x)) k (some a)
  | .lt bound => (read.bound bound).expression.map fun a k =>
      compared (fun x y => decide (x < y)) k (some a)
  | .and a b => a.eval.bind fun f => b.eval.map fun g k => both (f k) (g k)
  | .inValues values => some fun k => inList k (values.map read.value)

/-- A key that is not below the end. -/
def RangeEnd.le (k : α) : RangeEnd α → Prop
  | .minvalue => True
  | .maxvalue => False
  | .value a => a ≤ k

/-- A key below the end. -/
def RangeEnd.gt (k : α) : RangeEnd α → Prop
  | .minvalue => False
  | .maxvalue => True
  | .value a => k < a

/-- The partition bound: a range admits no NULL, and a list admits one if it lists it. -/
def KeyBound.Admits : KeyBound → Option α → Prop
  | .range _ _, none => False
  | .range lower upper, some k => (read.bound lower).le k ∧ (read.bound upper).gt k
  | .list values _, k => k ∈ values.map read.value

/-- The CHECK is an expression, and a row passes it exactly if its key is within the bound.
`notNull` says that the key column of the partition is NOT NULL. -/
def KeyBound.Tells (notNull : Bool) (b : KeyBound) : Prop :=
  ∃ check, b.test.eval read = some check ∧
    ∀ key : Option α, (notNull = true → key ≠ none) → (Passes (check key) ↔ b.Admits read key)

/-- Both ends of a range are values, and a key is never NULL; a list has no NULL and a key is
never NULL, or it has a NULL and every other value. -/
def KeyBound.TellsWhen (notNull : Bool) : KeyBound → Prop
  | .range lower upper => (∃ a, read.bound lower = .value a) ∧ (∃ b, read.bound upper = .value b) ∧
      notNull = true
  | .list values _ =>
      (none ∈ values.map read.value ∧ ∀ k, some k ∈ values.map read.value) ∨
      (none ∉ values.map read.value ∧ notNull = true)

end Meaning

/-! ## When the CHECK tells the bound -/

section Tells

variable {α : Type} [LinearOrder α] {read : Reading α} {notNull : Bool}

/-- The condition of a range is an expression exactly if both ends are values. -/
theorem eval_range {lower upper : String} {check : Option α → Truth} :
    (Test.and (.ge lower) (.lt upper)).eval read = some check ↔
      ∃ a b, read.bound lower = .value a ∧ read.bound upper = .value b ∧
        check = fun k => both (compared (fun x y => decide (y ≤ x)) k (some a))
          (compared (fun x y => decide (x < y)) k (some b)) := by
  simp only [Test.eval, Option.bind_eq_some_iff, Option.map_eq_some_iff, expression_eq_some]
  constructor
  · rintro ⟨f, ⟨a, ha, rfl⟩, g, ⟨b, hb, rfl⟩, rfl⟩
    exact ⟨a, b, ha, hb, rfl⟩
  · rintro ⟨a, b, ha, hb, rfl⟩
    exact ⟨_, ⟨a, ha, rfl⟩, _, ⟨b, hb, rfl⟩, rfl⟩

theorem range_tells_iff {lower upper : String} :
    (KeyBound.range lower upper).Tells read notNull ↔
      (KeyBound.range lower upper).TellsWhen read notNull := by
  constructor
  · rintro ⟨check, heval, htells⟩
    obtain ⟨a, b, ha, hb, rfl⟩ := eval_range.mp heval
    refine ⟨⟨a, ha⟩, ⟨b, hb⟩, ?_⟩
    by_contra hnullable
    -- a NULL key passes, and no range admits it
    have hnull := (htells none fun h => absurd h hnullable).mp (by simp [passes_both])
    exact hnull
  · rintro ⟨⟨a, ha⟩, ⟨b, hb⟩, hnn⟩
    refine ⟨_, eval_range.mpr ⟨a, b, ha, hb, rfl⟩, fun key hkey => ?_⟩
    cases key with
    | none => exact absurd rfl (hkey hnn)
    | some k => simp [passes_both, KeyBound.Admits, ha, hb, RangeEnd.le, RangeEnd.gt]

theorem list_tells_iff {values : List String} {nonempty : values ≠ []} :
    (KeyBound.list values nonempty).Tells read notNull ↔
      (KeyBound.list values nonempty).TellsWhen read notNull := by
  have hadmits (key : Option α) : (KeyBound.list values nonempty).Admits read key ↔
      key ∈ values.map read.value := by
    cases key <;> exact Iff.rfl
  have hnull : Passes (inList (none : Option α) (values.map read.value)) := by
    obtain ⟨v, hv⟩ := List.exists_mem_of_ne_nil _ nonempty
    rw [passes_inList]
    exact ⟨read.value v, List.mem_map_of_mem hv, by simp [equals]⟩
  constructor
  · rintro ⟨check, heval, htells⟩
    cases heval
    by_cases hlisted : none ∈ values.map read.value
    · refine .inl ⟨hlisted, fun k => ?_⟩
      -- with a NULL in the list every key passes
      rw [← hadmits, ← htells (some k) (fun _ => by simp), passes_inList_value]
      exact .inr hlisted
    · refine .inr ⟨hlisted, ?_⟩
      by_contra hnullable
      have hin := (htells none fun h => absurd h hnullable).mp hnull
      exact hlisted ((hadmits none).mp hin)
  · intro hwhen
    refine ⟨_, rfl, fun key hkey => ?_⟩
    rw [hadmits]
    rcases hwhen with ⟨hlisted, hall⟩ | ⟨hunlisted, hnn⟩
    · cases key with
      | none => exact ⟨fun _ => hlisted, fun _ => hnull⟩
      | some k =>
        rw [passes_inList_value]
        exact ⟨fun _ => hall k, fun _ => .inr hlisted⟩
    · cases key with
      | none => exact absurd rfl (hkey hnn)
      | some k =>
        rw [passes_inList_value]
        exact ⟨fun h => h.resolve_right hunlisted, .inl⟩

/-- The CHECK tells the bound exactly where `TellsWhen` says. -/
theorem check_tells_bound_iff (read : Reading α) (notNull : Bool) (b : KeyBound) :
    b.Tells read notNull ↔ b.TellsWhen read notNull := by
  cases b with
  | range lower upper => exact range_tells_iff
  | list values nonempty => exact list_tells_iff

end Tells

/-- Integer constants. -/
def number (t : String) : Nat := t.toList.foldl (fun n c => 10 * n + (c.toNat - 48)) 0

def integers : Reading Nat where
  bound t := if t = "MINVALUE" then .minvalue else if t = "MAXVALUE" then .maxvalue
    else .value (number t)
  value t := if t = "NULL" then none else some (number t)

/-- A NULL key passes `k >= 1 AND k < 10`; every key passes `k IN (1, NULL)`; and
`k >= MINVALUE` is no condition at all. -/
theorem check_misses_bound :
    ¬ (KeyBound.range "1" "10").Tells integers false ∧
    ¬ (KeyBound.list ["1", "NULL"] (by decide)).Tells integers true ∧
    ¬ (KeyBound.range "MINVALUE" "10").Tells integers true := by
  refine ⟨?_, ?_, ?_⟩
  · rintro ⟨check, heval, htells⟩
    cases heval
    have hnull := (htells none (by decide)).mp (by decide)
    exact hnull
  · rintro ⟨check, heval, htells⟩
    cases heval
    have htwo : some 2 ∈ ["1", "NULL"].map integers.value :=
      (htells (some 2) (by decide)).mp (by decide)
    exact absurd htwo (by decide)
  · rintro ⟨check, heval, -⟩
    cases heval

end Planner
end Laswell
