import Laswell.Planner.Recipes
import Laswell.Projection.Plans

/-!
# Laswell.Rows.Arbiter

Which unique index answers for a list of columns: the one that `plan_unique_like` makes a
constraint of (`Projection.backing`), and the one that `plan_insert_rows` lets ON CONFLICT name.

The catalog lists the key columns of an index and its INCLUDE columns behind them. Both searches
compare the whole list.

* `findArbiter`: the loop of `plan_insert_rows`.
* `FindsKey`: what a search is for, an index whose key is exactly the columns.
* `keyIndexes_iff`: when each of the two finds that.
-/

namespace Laswell
namespace Rows

open Projection

/-! ## The two searches -/

structure ArbiterSearch where
  arbiter : Option String := none
  /-- `partial_candidate` and `partial_predicate` -/
  partialCandidate : Option (String × String) := none

def findArbiter (target : List String) (conflictWhere : String) :
    List (String × IndexObs) → ArbiterSearch → ArbiterSearch
  | [], found => found
  | (name, ix) :: rest, found =>
    if !ix.isUnique || !ix.isValid then findArbiter target conflictWhere rest found
    else if ix.hasExpressions then findArbiter target conflictWhere rest found
    else if ix.columns ≠ target then findArbiter target conflictWhere rest found
    else if ix.predicate = "" ∧ conflictWhere = "" then { found with arbiter := some name }
    else if ix.predicate ≠ "" then
      if conflictWhere ≠ "" then
        { found with arbiter := some name, partialCandidate := some (name, ix.predicate) }
      else
        findArbiter target conflictWhere rest
          { found with partialCandidate := some (name, ix.predicate) }
    else findArbiter target conflictWhere rest found

/-- What `plan_insert_rows` says where no index matches. -/
def noArbiter (qualified : String) (target : List String) (conflictWhere : String)
    (found : ArbiterSearch) : String :=
  let columns := Planner.join ", " target
  match found.partialCandidate, conflictWhere with
  | some (name, predicate), "" =>
    qualified ++ " has a unique index " ++ name ++ " on (" ++ columns ++
      ") but it is PARTIAL, with predicate " ++ predicate ++
      ". Measured on 18.6, ON CONFLICT (" ++ columns ++
      ") is refused against a partial index and ON CONFLICT (" ++ columns ++ ") WHERE " ++
      predicate ++ " is accepted. Add \"conflict_where\": " ++ Planner.quoteLiteral predicate ++ "."
  | _, _ =>
    qualified ++ " has no valid unique index on (" ++ columns ++
      "), so ON CONFLICT has nothing to arbitrate on. Measured on 18.6, PostgreSQL refuses this " ++
      "at execution -- \"there is no unique or exclusion constraint matching the ON CONFLICT " ++
      "specification\" -- rather than falling back to the primary key. Create the index first, " ++
      "in an earlier intent, or name the columns that a unique index does cover."

/-- The arbiter of an `on_conflict` other than "refuse". -/
def arbiter (qualified : String) (t : TableObs) (target : List String) (conflictWhere : String) :
    Except String String :=
  let found := findArbiter target conflictWhere t.indexes.toList {}
  match found.arbiter with
  | some name => .ok name
  | none => .error (noArbiter qualified target conflictWhere found)

/-- The condition under which the loop stops at an index. Without `conflict_where` it is also that
of `plan_unique_like`. -/
def accepts (conflictWhere : String) (columns : List String) (entry : String × IndexObs) : Bool :=
  entry.2.isValid && entry.2.isUnique && !entry.2.hasExpressions &&
    ((entry.2.predicate == "") == (conflictWhere == "")) && entry.2.columns == columns

/-- The first index in the order of the names that is accepted. -/
def firstAccepted (conflictWhere : String) (t : TableObs) (columns : List String) :
    Option (String × IndexObs) :=
  t.indexes.toList.find? (accepts conflictWhere columns)

/-! ## What they are for -/

/-- A valid unique index of every row whose key is exactly these columns. -/
structure Enforces (columns : List String) (ix : IndexObs) : Prop where
  valid : ix.isValid = true
  unique : ix.isUnique = true
  plain : ix.hasExpressions = false
  full : ix.predicate = ""
  key : ix.keyColumns = columns

/-- What is found has exactly the columns as its key, and an index that enforces them is not
overlooked. -/
structure FindsKey (t : TableObs) (columns : List String) (found : Option String) : Prop where
  exact : ∀ name ix, found = some name → t.indexes[name]? = some ix → ix.keyColumns = columns
  finds : (∃ (name : String) (ix : IndexObs), t.indexes[name]? = some ix ∧ Enforces columns ix) →
    found ≠ none

/-- An index whose INCLUDE columns make up the list stands behind one whose key is the list; and
where an index enforces the columns, one that can be accepted lists them. -/
structure KeysTold (conflictWhere : String) (t : TableObs) (columns : List String) : Prop where
  behind : ∀ before name ix after, t.indexes.toList = before ++ (name, ix) :: after →
    accepts conflictWhere columns (name, ix) = true → ix.includeColumns ≠ [] →
    ∃ p ∈ before, accepts conflictWhere columns p = true ∧ p.2.includeColumns = []
  listed : (∃ (name : String) (ix : IndexObs), t.indexes[name]? = some ix ∧ Enforces columns ix) →
    ∃ (name : String) (ix : IndexObs), t.indexes[name]? = some ix ∧
      accepts conflictWhere columns (name, ix) = true

/-! ## The loops as one search -/

theorem backing_eq (t : TableObs) (columns : List String) :
    backing t columns = firstAccepted "" t columns := by
  unfold backing firstAccepted
  congr 1
  funext p
  simp [accepts]

/-- One index: the loop stops there if it is accepted, and else goes on with the same arbiter. -/
theorem findArbiter_cons (target : List String) (conflictWhere name : String) (ix : IndexObs)
    (rest : List (String × IndexObs)) (found : ArbiterSearch) :
    (accepts conflictWhere target (name, ix) = true ∧
      (findArbiter target conflictWhere ((name, ix) :: rest) found).arbiter = some name) ∨
    (accepts conflictWhere target (name, ix) = false ∧ ∃ found' : ArbiterSearch,
      found'.arbiter = found.arbiter ∧
      findArbiter target conflictWhere ((name, ix) :: rest) found =
        findArbiter target conflictWhere rest found') := by
  rw [findArbiter]
  split
  · rename_i h
    refine .inr ⟨?_, found, rfl, rfl⟩
    simp only [Bool.or_eq_true, Bool.not_eq_true'] at h
    rcases h with h | h <;> simp [accepts, h]
  · rename_i h
    simp only [Bool.or_eq_true, Bool.not_eq_true', not_or, Bool.not_eq_false] at h
    split
    · rename_i hexpr
      exact .inr ⟨by simp [accepts, hexpr], found, rfl, rfl⟩
    · rename_i hexpr
      split
      · rename_i hcols
        exact .inr ⟨by simp [accepts, hcols], found, rfl, rfl⟩
      · rename_i hcols
        have hcols : ix.columns = target := not_not.mp hcols
        split
        · rename_i hfull
          exact .inl ⟨by simp [accepts, h, hexpr, hcols, hfull], rfl⟩
        · rename_i hfull
          split
          · rename_i hpred
            split
            · rename_i hwhere
              exact .inl ⟨by simp [accepts, h, hexpr, hcols, hpred, hwhere], rfl⟩
            · rename_i hwhere
              have hwhere : conflictWhere = "" := not_not.mp hwhere
              exact .inr ⟨by simp [accepts, hpred, hwhere],
                { found with partialCandidate := some (name, ix.predicate) }, rfl, rfl⟩
          · rename_i hpred
            have hpred : ix.predicate = "" := not_not.mp hpred
            have hwhere : conflictWhere ≠ "" := fun hw => hfull ⟨hpred, hw⟩
            exact .inr ⟨by simp [accepts, hpred, hwhere], found, rfl, rfl⟩

/-- The whole loop: the first accepted index. -/
theorem findArbiter_arbiter (target : List String) (conflictWhere : String)
    (l : List (String × IndexObs)) (found : ArbiterSearch) (hnone : found.arbiter = none) :
    (findArbiter target conflictWhere l found).arbiter =
      (l.find? (accepts conflictWhere target)).map Prod.fst := by
  induction l generalizing found with
  | nil => exact hnone
  | cons p rest ih =>
    obtain ⟨name, ix⟩ := p
    rcases findArbiter_cons target conflictWhere name ix rest found with
      ⟨hacc, hstop⟩ | ⟨hacc, found', hfound', hgo⟩
    · rw [hstop, List.find?_cons_of_pos hacc]
      rfl
    · rw [hgo, List.find?_cons_of_neg (by simp [hacc])]
      exact ih found' (hfound'.trans hnone)

theorem arbiter_toOption (qualified : String) (t : TableObs) (target : List String)
    (conflictWhere : String) :
    (arbiter qualified t target conflictWhere).toOption =
      (firstAccepted conflictWhere t target).map Prod.fst := by
  have hloop := findArbiter_arbiter target conflictWhere t.indexes.toList {} rfl
  unfold arbiter firstAccepted
  rw [← hloop]
  dsimp only
  cases hfound : (findArbiter target conflictWhere t.indexes.toList {}).arbiter with
  | none => rfl
  | some name => rfl

/-! ## When the first accepted index is the right one -/

section FirstAccepted

variable {conflictWhere : String} {t : TableObs} {columns : List String}

theorem mem_indexes {name : String} {ix : IndexObs} :
    (name, ix) ∈ t.indexes.toList ↔ t.indexes[name]? = some ix :=
  Std.TreeMap.mem_toList_iff_getElem?_eq_some

/-- Of an accepted index the key is the list exactly if nothing is included. -/
theorem key_iff_of_accepts {name : String} {ix : IndexObs}
    (h : accepts conflictWhere columns (name, ix) = true) :
    ix.keyColumns = columns ↔ ix.includeColumns = [] := by
  have hcols : ix.columns = columns := by
    unfold accepts at h
    simp only [Bool.and_eq_true, beq_iff_eq] at h
    exact h.2
  rw [IndexObs.keyColumns, IndexObs.includeColumns, ← hcols, List.take_eq_self_iff,
    List.drop_eq_nil_iff]

theorem findsKey_of_told (h : KeysTold conflictWhere t columns) :
    FindsKey t columns ((firstAccepted conflictWhere t columns).map Prod.fst) := by
  constructor
  · intro name ix hfound hix
    obtain ⟨⟨name', ix'⟩, hfirst, rfl⟩ := Option.map_eq_some_iff.mp hfound
    obtain ⟨hacc, before, after, hsplit, hbefore⟩ := List.find?_eq_some_iff_append.mp hfirst
    have hmem : (name', ix') ∈ t.indexes.toList := by rw [hsplit]; simp
    have hsame : ix' = ix := by
      rw [mem_indexes, hix] at hmem
      exact (Option.some.inj hmem).symm
    rw [← hsame]
    refine (key_iff_of_accepts hacc).mpr ?_
    by_contra hinc
    obtain ⟨p, hp, hpacc, -⟩ := h.behind before name' ix' after hsplit hacc hinc
    exact absurd hpacc (by simpa using hbefore p hp)
  · rintro hex hnone
    obtain ⟨name, ix, hix, hacc⟩ := h.listed hex
    rw [Option.map_eq_none_iff, firstAccepted, List.find?_eq_none] at hnone
    exact hnone (name, ix) (mem_indexes.mpr hix) hacc

theorem told_of_findsKey
    (h : FindsKey t columns ((firstAccepted conflictWhere t columns).map Prod.fst)) :
    KeysTold conflictWhere t columns := by
  have hexact : ∀ p, firstAccepted conflictWhere t columns = some p → p.2.includeColumns = [] := by
    intro p hp
    obtain ⟨hacc, -⟩ := List.find?_eq_some_iff_append.mp hp
    refine (key_iff_of_accepts hacc).mp (h.exact p.1 p.2 (by rw [hp]; rfl) ?_)
    exact mem_indexes.mp (List.mem_of_find?_eq_some hp)
  constructor
  · intro before name ix after hsplit hacc hinc
    cases hb : before.find? (accepts conflictWhere columns) with
    | some p =>
      have hfirst : firstAccepted conflictWhere t columns = some p := by
        rw [firstAccepted, hsplit, List.find?_append, hb]
        rfl
      exact ⟨p, List.mem_of_find?_eq_some hb, List.find?_some hb, hexact p hfirst⟩
    | none =>
      have hfirst : firstAccepted conflictWhere t columns = some (name, ix) := by
        rw [firstAccepted, hsplit, List.find?_append, hb, List.find?_cons_of_pos hacc]
        rfl
      exact absurd (hexact _ hfirst) hinc
  · intro hex
    have hfound := h.finds hex
    rw [ne_eq, Option.map_eq_none_iff] at hfound
    obtain ⟨p, hp⟩ := Option.ne_none_iff_exists'.mp hfound
    exact ⟨p.1, p.2, mem_indexes.mp (List.mem_of_find?_eq_some hp), List.find?_some hp⟩

end FirstAccepted

/-- Each of the two searches finds an index that has exactly the columns as its key, and overlooks
none, exactly where INCLUDE columns do not make up the list. -/
theorem keyIndexes_iff (qualified : String) (t : TableObs) (columns : List String)
    (conflictWhere : String) :
    (FindsKey t columns ((backing t columns).map Prod.fst) ↔ KeysTold "" t columns) ∧
    (FindsKey t columns (arbiter qualified t columns conflictWhere).toOption ↔
      KeysTold conflictWhere t columns) := by
  rw [backing_eq, arbiter_toOption]
  exact ⟨⟨told_of_findsKey, findsKey_of_told⟩, ⟨told_of_findsKey, findsKey_of_told⟩⟩

/-- UNIQUE (a) INCLUDE (b) -/
def payloadIndex : IndexObs where
  isValid := true
  isUnique := true
  columns := ["a", "b"]
  keyColumnCount := 1
  columnOrder := [⟨false, false⟩]
  columnOpclasses := [""]
  method := "btree"
  predicate := ""
  hasExpressions := false

/-- It is taken for a key of both columns, and overlooked where the key is the first. -/
theorem payload_counts_as_key :
    let t : TableObs := { present := true, indexes := (∅ : Object IndexObs).insert "i" payloadIndex }
    ¬ FindsKey t ["a", "b"] ((backing t ["a", "b"]).map Prod.fst) ∧
    ¬ FindsKey t ["a"] ((backing t ["a"]).map Prod.fst) ∧
    ¬ FindsKey t ["a", "b"] (arbiter "public.t" t ["a", "b"] "").toOption ∧
    ¬ FindsKey t ["a"] (arbiter "public.t" t ["a"] "").toOption := by
  intro t
  have hix : t.indexes["i"]? = some payloadIndex := by simp [t]
  have hexact (found : Option String) (hfound : found = some "i") : ¬ FindsKey t ["a", "b"] found :=
    fun h => absurd (h.exact "i" payloadIndex hfound hix) (by decide)
  have hfinds : ¬ FindsKey t ["a"] none :=
    fun h => h.finds ⟨"i", payloadIndex, hix, rfl, rfl, rfl, rfl, rfl⟩ rfl
  have hlist : t.indexes.toList = [("i", payloadIndex)] := by rfl
  refine ⟨hexact _ ?_, ?_, hexact _ ?_, ?_⟩
  · rw [backing_eq, firstAccepted, hlist]
    decide
  · rw [backing_eq, firstAccepted, hlist]
    exact hfinds
  · rw [arbiter_toOption, firstAccepted, hlist]
    decide
  · rw [arbiter_toOption, firstAccepted, hlist]
    exact hfinds

end Rows
end Laswell
