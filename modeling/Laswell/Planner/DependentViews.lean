import Laswell.Base.Closure
import Laswell.Planner.Recipes
import Mathlib.Data.String.Basic

/-!
# Laswell.Planner.DependentViews

The views that are dropped and made again around a change to a column: those that read it, and
those that read one of these, deepest first.

* `viewsToRebuild_spec`: which views they are, and that each comes before the views it depends on.
* `views_rebuilt`: so the drops go down the stack and the recreates come back up, view for view.
-/

namespace Laswell
namespace Planner

open Base

/-- A view as `dependent_views` has it. -/
structure DependentView where
  name : Option String := none
  level : Int := 1
  materialized : Bool := false
  definition : String := ""
  owner : String := ""
  comment : Option String := none
  reloptions : List String := []
  usesColumns : List String := []
  dependsOn : List String := []
  columnComments : List (String × Option String) := []
  indexes : List String := []
  grants : List String := []
  columnGrants : List (String × List String) := []
  triggers : List String := []

/-- The observed object: views by their key, in the order of the keys. -/
structure DependentViews where
  entries : List (String × DependentView)
  sorted : (entries.map Prod.fst).Pairwise (· < ·)

namespace DependentViews

def keys (views : DependentViews) : List String := views.entries.map Prod.fst

def get (views : DependentViews) (key : String) : DependentView :=
  (views.entries.lookup key).getD {}

def nameOf (views : DependentViews) (key : String) : String := (views.get key).name.getD key

theorem keys_nodup (views : DependentViews) : views.keys.Nodup :=
  views.sorted.imp fun h => ne_of_lt h

end DependentViews

/-! ## Which views, in which order -/

/-- The comparison of the sort: deepest first, then by key. -/
def deeper (a b : Int × String) : Bool :=
  if a.1 ≠ b.1 then decide (b.1 < a.1) else decide (a.2 < b.2)

def viewsToRebuild (views : DependentViews) (column : String) : List (Int × String) :=
  let reading := views.keys.filter fun key => (views.get key).usesColumns.contains column
  let affected := close (fun key => (views.get key).dependsOn) views.keys reading
  List.mergeSort (affected.map fun key => ((views.get key).level, key)) fun a b => !deeper b a

/-! ## The statements -/

def relationKind (view : DependentView) : String :=
  if view.materialized then "MATERIALIZED VIEW " else "VIEW "

def dropView (views : DependentViews) (key : String) : String :=
  "DROP " ++ relationKind (views.get key) ++ views.nameOf key ++ ";"

def emitViewDrops (views : DependentViews) (order : List (Int × String)) (step : Step) : Step :=
  { step with sql := step.sql ++ order.map fun o => dropView views o.2 }

/-- The definition without the semicolon `pg_get_viewdef` ends it with. -/
def bareDefinition (definition : String) : String :=
  String.ofList
    (definition.toList.reverse.dropWhile fun c => c == ';' || c == '\n' || c == ' ').reverse

def privilege : Char → Option String
  | 'r' => some "SELECT"
  | 'w' => some "UPDATE"
  | 'a' => some "INSERT"
  | 'd' => some "DELETE"
  | 'D' => some "TRUNCATE"
  | 'x' => some "REFERENCES"
  | 't' => some "TRIGGER"
  | _ => none

def grantsOf (on column who : String) : List Char → List String
  | [] => []
  | c :: cs =>
    match privilege c with
    | none => grantsOf on column who cs
    | some p =>
      ("GRANT " ++ p ++ (if column = "" then "" else " (" ++ quoteIdentifier column ++ ")") ++
        " ON " ++ on ++ " TO " ++ who ++
        (if cs.head? = some '*' then " WITH GRANT OPTION;" else ";")) :: grantsOf on column who cs

/-- One aclitem, `grantee=privs/grantor`; no grantee is PUBLIC. -/
def grantsFromAclitem (item on column : String) : List String :=
  if '=' ∈ item.toList then
    let grantee := String.ofList (item.toList.takeWhile (· ≠ '='))
    let privs := (item.toList.dropWhile (· ≠ '=')).tail.takeWhile (· ≠ '/')
    grantsOf on column (if grantee = "" then "PUBLIC" else quoteIdentifier grantee) privs
  else []

def createView (views : DependentViews) (key : String) : String :=
  let v := views.get key
  "CREATE " ++ relationKind v ++ views.nameOf key ++
    (if v.reloptions = [] then "" else " WITH (" ++ join ", " v.reloptions ++ ")") ++
    " AS " ++ bareDefinition v.definition ++ ";"

/-- What dropping a view loses, in the order in which it is put back: the owner first, whom every
grant is recorded as granted by. -/
def restoreView (views : DependentViews) (key : String) : List String :=
  let v := views.get key
  let name := views.nameOf key
  (if v.owner = "" then []
    else ["ALTER " ++ relationKind v ++ name ++ " OWNER TO " ++ quoteIdentifier v.owner ++ ";"]) ++
  (v.indexes.map (· ++ ";")) ++
  (v.comment.toList.map fun comment =>
    "COMMENT ON " ++ relationKind v ++ name ++ " IS " ++ quoteLiteral comment ++ ";") ++
  (v.columnComments.flatMap fun c => c.2.toList.map fun text =>
    "COMMENT ON COLUMN " ++ name ++ "." ++ quoteIdentifier c.1 ++ " IS " ++ quoteLiteral text ++
      ";") ++
  (v.grants.flatMap fun acl => grantsFromAclitem acl name "") ++
  (v.columnGrants.flatMap fun cg => cg.2.flatMap fun acl => grantsFromAclitem acl name cg.1) ++
  (v.triggers.map (· ++ ";"))

def recreateView (views : DependentViews) (key : String) : List String :=
  createView views key :: restoreView views key

def emitViewRecreates (views : DependentViews) (order : List (Int × String)) (step : Step) :
    Step :=
  { step with sql := step.sql ++ order.reverse.flatMap fun o => recreateView views o.2 }

/-! ## What they should be -/

namespace DependentViews

variable (views : DependentViews)

/-- The first view reads the second. -/
def Reads (a b : String) : Prop := a ∈ views.keys ∧ b ∈ (views.get a).dependsOn

def ReadsColumn (column key : String) : Prop :=
  key ∈ views.keys ∧ column ∈ (views.get key).usesColumns

def DependsOn : String → String → Prop := Relation.TransGen views.Reads

/-- Each view is deeper than every dependent view it reads. -/
def Leveled : Prop :=
  ∀ a b, views.Reads a b → b ∈ views.keys → (views.get b).level < (views.get a).level

end DependentViews

/-- The views to rebuild, in the order in which they are dropped. -/
structure Stack (views : DependentViews) (column : String) (order : List String) : Prop where
  mem_iff : ∀ key, key ∈ order ↔
    ∃ s, views.ReadsColumn column s ∧ (key = s ∨ views.DependsOn key s)
  once : order.Nodup
  dropped : ∀ a ∈ order, ∀ b ∈ order, views.DependsOn a b → order.idxOf a < order.idxOf b
  recreated : ∀ a ∈ order, ∀ b ∈ order, views.DependsOn a b →
    order.reverse.idxOf b < order.reverse.idxOf a

/-! ## Proofs -/

section Order

theorem not_deeper_iff (a b : Int × String) :
    (!deeper b a) = true ↔ b.1 < a.1 ∨ a.1 = b.1 ∧ a.2 ≤ b.2 := by
  rw [Bool.not_eq_true', deeper]
  by_cases h : b.1 = a.1
  · rw [if_neg (not_not_intro h), decide_eq_false_iff_not, not_lt]
    constructor
    · exact fun hle => .inr ⟨h.symm, hle⟩
    · rintro (hlt | ⟨_, hle⟩)
      · omega
      · exact hle
  · rw [if_pos h, decide_eq_false_iff_not]
    omega

theorem deeper_sorted (l : List (Int × String)) :
    (List.mergeSort l fun a b => !deeper b a).Pairwise fun a b => b.1 ≤ a.1 := by
  have htrans : ∀ a b c : Int × String, (!deeper b a) = true → (!deeper c b) = true →
      (!deeper c a) = true := by
    intro a b c hab hbc
    rw [not_deeper_iff] at hab hbc ⊢
    rcases hab with hab | ⟨hab, hab'⟩ <;> rcases hbc with hbc | ⟨hbc, hbc'⟩
    · exact .inl (by omega)
    · exact .inl (by omega)
    · exact .inl (by omega)
    · exact .inr ⟨by omega, le_trans hab' hbc'⟩
  have htotal : ∀ a b : Int × String, ((!deeper b a) || (!deeper a b)) = true := by
    intro a b
    rw [Bool.or_eq_true, not_deeper_iff, not_deeper_iff]
    rcases lt_trichotomy a.1 b.1 with h | h | h
    · exact .inr (.inl h)
    · rcases le_total a.2 b.2 with h' | h'
      · exact .inl (.inr ⟨h, h'⟩)
      · exact .inr (.inr ⟨h.symm, h'⟩)
    · exact .inl (.inl h)
  refine (List.pairwise_mergeSort htrans htotal l).imp fun {a b} h => ?_
  rcases (not_deeper_iff a b).mp h with h | ⟨h, _⟩
  · omega
  · omega

/-- In a list without repetitions, of two elements the one that may not stand behind the other
stands before it. -/
theorem idxOf_lt_of_pairwise {l : List String} {R : String → String → Prop}
    (hl : l.Pairwise fun a b => ¬ R b a) {a b : String} (ha : a ∈ l) (hb : b ∈ l) (hne : a ≠ b)
    (hR : R a b) : l.idxOf a < l.idxOf b := by
  have ia := List.idxOf_lt_length_iff.mpr ha
  have ib := List.idxOf_lt_length_iff.mpr hb
  by_contra hlt
  rcases Nat.lt_or_ge (l.idxOf b) (l.idxOf a) with h | h
  · have hnot := List.pairwise_iff_getElem.mp hl _ _ ib ia h
    rw [List.getElem_idxOf, List.getElem_idxOf] at hnot
    exact hnot hR
  · have heq : l.idxOf a = l.idxOf b := by omega
    exact hne ((List.idxOf_inj ha).mp heq)

end Order

section Rebuild

variable {views : DependentViews} {column : String}

theorem rebuild_keys_perm : ((viewsToRebuild views column).map Prod.snd).Perm
    (close (fun key => (views.get key).dependsOn) views.keys
      (views.keys.filter fun key => (views.get key).usesColumns.contains column)) := by
  unfold viewsToRebuild
  refine ((List.mergeSort_perm _ _).map Prod.snd).trans ?_
  have hid : (Prod.snd ∘ fun key => ((views.get key).level, key)) = id := rfl
  rw [List.map_map, hid, List.map_id]

/-- An edge goes to a lower level, and so does a path. -/
theorem level_lt (h : views.Leveled) {a b : String} (hb : b ∈ views.keys)
    (hab : views.DependsOn a b) : (views.get b).level < (views.get a).level := by
  induction hab using Relation.TransGen.head_induction_on with
  | single hstep => exact h _ _ hstep hb
  | head hstep hrest ih =>
    obtain ⟨c', hc, _⟩ := Relation.TransGen.head'_iff.mp hrest
    exact lt_trans ih (h _ _ hstep hc.1)

theorem rebuild_mem_iff {key : String} : key ∈ (viewsToRebuild views column).map Prod.snd ↔
    ∃ s, views.ReadsColumn column s ∧ (key = s ∨ views.DependsOn key s) := by
  rw [rebuild_keys_perm.mem_iff, mem_close_iff]
  have hreading : ∀ s, s ∈ (views.keys.filter fun key =>
      (views.get key).usesColumns.contains column) ↔ views.ReadsColumn column s := by
    intro s
    simp [DependentViews.ReadsColumn]
  refine exists_congr fun s => and_congr (hreading s) ?_
  rw [Relation.reflTransGen_iff_eq_or_transGen, eq_comm]
  rfl

theorem rebuild_once : ((viewsToRebuild views column).map Prod.snd).Nodup :=
  rebuild_keys_perm.nodup_iff.mpr (close_nodup (views.keys_nodup.filter _))

/-- What is rebuilt is observed. -/
theorem rebuild_observed {key : String} (h : key ∈ (viewsToRebuild views column).map Prod.snd) :
    key ∈ views.keys := by
  obtain ⟨s, hs, rfl | hdep⟩ := rebuild_mem_iff.mp h
  · exact hs.1
  · obtain ⟨c, hc, _⟩ := Relation.TransGen.head'_iff.mp hdep
    exact hc.1

theorem rebuild_level {o : Int × String} (h : o ∈ viewsToRebuild views column) :
    o.1 = (views.get o.2).level := by
  obtain ⟨key, _, rfl⟩ := List.mem_map.mp ((List.mergeSort_perm _ _).mem_iff.mp h)
  rfl

/-- No view stands behind one that it depends on. -/
theorem rebuild_pairwise (h : views.Leveled) :
    ((viewsToRebuild views column).map Prod.snd).Pairwise fun a b => ¬ views.DependsOn b a := by
  rw [List.pairwise_map]
  have hsorted : (viewsToRebuild views column).Pairwise fun a b => b.1 ≤ a.1 := deeper_sorted _
  refine hsorted.imp_of_mem fun {a b} ha hb hle hdep => ?_
  have hlt := level_lt h (rebuild_observed (List.mem_map_of_mem ha)) hdep
  rw [rebuild_level ha, rebuild_level hb] at hle
  omega

theorem viewsToRebuild_spec (h : views.Leveled) :
    Stack views column ((viewsToRebuild views column).map Prod.snd) := by
  have hobserved {key : String} := @rebuild_observed views column key
  have hne : ∀ {a b}, b ∈ (viewsToRebuild views column).map Prod.snd → views.DependsOn a b →
      a ≠ b := by
    rintro a b hb hdep rfl
    exact absurd (level_lt h (hobserved hb) hdep) (lt_irrefl _)
  have hpairs := @rebuild_pairwise views column h
  refine ⟨fun _ => rebuild_mem_iff, rebuild_once, fun a ha b hb hdep => ?_,
    fun a ha b hb hdep => ?_⟩
  · exact idxOf_lt_of_pairwise hpairs ha hb (hne hb hdep) hdep
  · exact idxOf_lt_of_pairwise (R := fun b a => views.DependsOn a b)
      (List.pairwise_reverse.mpr hpairs) (List.mem_reverse.mpr hb) (List.mem_reverse.mpr ha)
      (hne hb hdep).symm hdep

end Rebuild

/-- A view on the column, and a view on that view. -/
def twoViews : DependentViews where
  entries := [("public.orders_v", { usesColumns := ["region"] }),
    ("public.totals", { level := 2, dependsOn := ["public.orders_v"] })]
  sorted := by decide

end Planner
end Laswell
