import Laswell.Base.Covers
import Laswell.Projection.Project

/-!
# Laswell.Projection.Agreement

When the observations agree with a catalog: what the planner reads of a table's columns, indexes and
constraints is what reading the catalog would give. And what each alteration does to a table that
agrees with its entry.

* `Reads`: an entry of `indexes` reads as an index of the catalog.
* `TableAgrees`, `Agrees`: one table, and all the tables that are watched.
* `notNulls`: a table with NOT NULL columns; what the recipes for NOT NULL come to.
-/

namespace Laswell
namespace Projection

/-! ## Readings -/

/-- The key columns as a reading gives them, which leaves expressions out of `columns`. -/
def CatIndex.keyColumns (i : CatIndex) : List String :=
  (i.keys.filterMap id ++ i.payload).take i.keys.length

/-- One predicate, as the catalog spells it or as a specification does. -/
def Server.samePredicate (s : Server) (observed stored : String) : Prop :=
  observed = stored ∨ (observed ≠ "" ∧ s.render observed = stored)

structure Reads (s : Server) (ix : IndexObs) (i : CatIndex) : Prop where
  keyColumns : ix.keyColumns = i.keyColumns
  unique : ix.isUnique = i.unique
  predicate : s.samePredicate ix.predicate i.predicate

abbrev ConstraintsAgree (xs : Object ConstraintObs) (f : String → Option CatConstraint) : Prop :=
  Covers (fun x y => x.type = y.type) xs f

/-- The same columns and flags, indexes and constraints. -/
structure TableAgrees (s : Server) (t : TableObs) (k : CatTable) : Prop where
  columns : Covers (fun (c : ColumnObs) notNull => c.notNull = notNull) t.columns k.columns
  indexes : Covers (Reads s) t.indexes k.indexes
  constraints : ConstraintsAgree t.constraints k.constraints

/-- The entry of a table, and the table if there is one. -/
def EntryAgrees (s : Server) (t : TableObs) : Option CatTable → Prop
  | none => t.present = false
  | some k => t.present = true ∧ TableAgrees s t k

/-- The tables that are watched agree with the catalog. -/
def Agrees (s : Server) (watched : Rel → Prop) (obs : Observations) (c : Catalog) : Prop :=
  ∀ q, watched q → EntryAgrees s (obs.table q) (c.tables q)

theorem EntryAgrees.of_present {s : Server} {t : TableObs} {k : Option CatTable}
    (h : EntryAgrees s t k) (hp : t.present = true) : ∃ k', k = some k' ∧ TableAgrees s t k' := by
  cases k with
  | none => exact absurd (h.symm.trans hp) (by decide)
  | some k' => exact ⟨k', rfl, h.2⟩

theorem EntryAgrees.of_absent {s : Server} {t : TableObs} {k : Option CatTable}
    (h : EntryAgrees s t k) (hp : t.present = false) : k = none := by
  cases k with
  | none => rfl
  | some k' => exact absurd (h.1.symm.trans hp) (by decide)

variable {s : Server}

/-! ## NOT NULL -/

/-- The table with the columns NOT NULL, be they there or not. -/
def CatTable.notNulls (k : CatTable) (columns : List String) : CatTable :=
  { k with columns := fun c => if c ∈ columns then some true else k.columns c }

namespace CatTable

@[simp] theorem notNulls_nil (k : CatTable) : k.notNulls [] = k := by
  simp [notNulls]

theorem notNulls_cons (k : CatTable) (c : String) (cs : List String) :
    (k.notNulls [c]).notNulls cs = k.notNulls (c :: cs) := by
  simp only [notNulls, CatTable.mk.injEq, and_true]
  funext d
  by_cases hd : d = c <;> by_cases hcs : d ∈ cs <;> simp [hd, hcs]

theorem notNulls_append (k : CatTable) (as bs : List String) :
    (k.notNulls as).notNulls bs = k.notNulls (as ++ bs) := by
  simp only [notNulls, CatTable.mk.injEq, and_true]
  funext d
  by_cases ha : d ∈ as <;> by_cases hb : d ∈ bs <;> simp [ha, hb]

/-- Columns that are NOT NULL already make no difference. -/
theorem notNulls_of_forall (k : CatTable) (cs : List String)
    (h : ∀ c ∈ cs, k.columns c = some true) : k.notNulls cs = k := by
  have hcols : (fun c => if c ∈ cs then some true else k.columns c) = k.columns := by
    funext c
    by_cases hc : c ∈ cs
    · simp [hc, h c hc]
    · simp [hc]
  simp [notNulls, hcols]

end CatTable

/-- A server that does not record the flag, or one that finds it set. -/
theorem makeNotNull_eq {k k' : CatTable} {c : String}
    (hrec : s.recordsNotNull = false ∨ k.columns c = some true)
    (h : s.makeNotNull k c = some k') : k' = k.notNulls [c] := by
  unfold Server.makeNotNull at h
  cases hc : k.columns c with
  | none => simp [hc] at h
  | some flag =>
    cases flag with
    | true =>
      have hk : k = k' := by simpa [hc] using h
      rw [← hk, CatTable.notNulls_of_forall]
      simp [hc]
    | false =>
      have hoff : s.recordsNotNull = false := by simpa [hc] using hrec
      have hk : { k with columns := Function.update k.columns c (some true) } = k' := by
        simpa [hc, hoff] using h
      rw [← hk]
      simp only [CatTable.notNulls, CatTable.mk.injEq, and_true]
      funext d
      by_cases hd : d = c <;> simp [hd]

theorem makeNotNull_all {cs : List String} {k k' : CatTable}
    (hrec : s.recordsNotNull = false ∨ ∀ c ∈ cs, k.columns c = some true)
    (h : cs.foldlM s.makeNotNull k = some k') : k' = k.notNulls cs := by
  induction cs generalizing k with
  | nil =>
    have hk : k = k' := by simpa using h
    simp [hk]
  | cons c cs ih =>
    simp only [List.foldlM_cons, Option.bind_eq_bind, Option.bind_eq_some_iff] at h
    obtain ⟨mid, hmid, hrest⟩ := h
    have hone : mid = k.notNulls [c] :=
      makeNotNull_eq (hrec.imp_right fun hall => hall c (by simp)) hmid
    subst hone
    rw [ih ?_ hrest, CatTable.notNulls_cons]
    refine hrec.imp_right fun hall d hd => ?_
    simp [CatTable.notNulls, hall d (by simp [hd])]

/-- The entry after as many columns were flagged. -/
theorem TableAgrees.notNulls {t : TableObs} {k : CatTable} (h : TableAgrees s t k)
    (cs : List String) :
    TableAgrees s { t with columns := cs.foldl (fun cols c => flagged cols c true) t.columns }
      (k.notNulls cs) := by
  refine ⟨?_, h.indexes, h.constraints⟩
  have hset := h.columns.setAll id
    (fun m c => { (m[c]?).getD { type := "", notNull := true } with notNull := true }) true
    (fun _ _ => rfl) cs
  simpa [flagged, CatTable.notNulls] using hset

/-! ## The recipe for NOT NULL -/

theorem alterAll_cons {a : Alteration} {as : List Alteration} {k k' : CatTable} :
    s.alterAll (a :: as) k = some k' ↔ ∃ mid, s.alter a k = some mid ∧ s.alterAll as mid = some k' := by
  simp [Server.alterAll, Option.bind_eq_some_iff]

theorem alterAll_nil {k k' : CatTable} : s.alterAll [] k = some k' ↔ k = k' := by
  simp [Server.alterAll]

theorem alterAll_append {as bs : List Alteration} {k k' : CatTable} :
    s.alterAll (as ++ bs) k = some k' ↔
      ∃ mid, s.alterAll as k = some mid ∧ s.alterAll bs mid = some k' := by
  simp [Server.alterAll, Option.bind_eq_some_iff]

end Projection
end Laswell
