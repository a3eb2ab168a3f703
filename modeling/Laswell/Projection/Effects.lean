import Laswell.Projection.Agreement

/-!
# Laswell.Projection.Effects

What the statements of a plan do to the tables that are watched: the one the intent names is
altered, the others stay as they are.

* `Confined`: a statement that alters no other watched table.
* `execAll_confined`: such statements come to the alterations of the one table.
* `TableAgrees.dropColumn`, ..: each alteration beside what `project` writes for it.
-/

namespace Laswell
namespace Projection

variable {s : Server} {watched : Rel → Prop}

/-! ## Statements on one table -/

/-- Nothing that is watched is under the table. -/
def Alone (watched : Rel → Prop) (c : Catalog) (r : Rel) : Prop :=
  ∀ q, watched q → c.under q r = false

/-- The same, where the table's indexes are on its parts. -/
def AloneInParts (watched : Rel → Prop) (c : Catalog) (r : Rel) : Prop :=
  c.inParts r = true → Alone watched c r

/-- The table is not watched, and nothing under it is. -/
def Unwatched (watched : Rel → Prop) (c : Catalog) (r : Rel) : Prop :=
  ¬ watched r ∧ Alone watched c r

def Confined (watched : Rel → Prop) (c : Catalog) (r : Rel) : Statement → Prop
  | .alter p a => (p = r ∨ ¬ watched p) ∧ (a.reaches (c.inParts p) = true → Alone watched c p)
  | .other => True
  | _ => False

/-- The alterations of one table among the statements. -/
def alterationsOn (r : Rel) (stmts : List Statement) : List Alteration :=
  stmts.filterMap fun
    | .alter p a => if p = r then some a else none
    | _ => none

@[simp] theorem alterationsOn_nil (r : Rel) : alterationsOn r [] = [] := rfl

@[simp] theorem alterationsOn_other (r : Rel) (stmts : List Statement) :
    alterationsOn r (.other :: stmts) = alterationsOn r stmts := rfl

@[simp] theorem alterationsOn_self (r : Rel) (a : Alteration) (stmts : List Statement) :
    alterationsOn r (.alter r a :: stmts) = a :: alterationsOn r stmts := by
  simp [alterationsOn]

theorem alterationsOn_append (r : Rel) (as bs : List Statement) :
    alterationsOn r (as ++ bs) = alterationsOn r as ++ alterationsOn r bs := by
  simp [alterationsOn]

theorem execAll_cons {stmt : Statement} {stmts : List Statement} {c c' : Catalog} :
    s.execAll (stmt :: stmts) c = some c' ↔
      ∃ mid, s.exec stmt c = some mid ∧ s.execAll stmts mid = some c' := by
  simp [Server.execAll, Option.bind_eq_some_iff]

/-- The catalog after, as far as tables that are watched go. -/
structure Altered (s : Server) (watched : Rel → Prop) (r : Rel) (as : List Alteration) (t : CatTable)
    (c c' : Catalog) : Prop where
  table : ∃ t', s.alterAll as t = some t' ∧ c'.tables r = some t'
  others : ∀ q, watched q → q ≠ r → c'.tables q = c.tables q

theorem exec_alter_tables {p : Rel} {a : Alteration} {c c' : Catalog}
    (h : s.exec (.alter p a) c = some c') :
    (∃ t t', c.tables p = some t ∧ s.alter a t = some t' ∧ c'.tables p = some t') ∧
      c'.under = c.under ∧ c'.inParts = c.inParts ∧
      ∀ q, q ≠ p → (a.reaches (c.inParts p) = true → c.under q p = false) →
        c'.tables q = c.tables q := by
  simp only [Server.exec, Option.bind_eq_some_iff, Option.map_eq_some_iff] at h
  obtain ⟨t, ht, t', ht', rfl⟩ := h
  refine ⟨⟨t, t', ht, ht', by simp [Server.altered]⟩, rfl, rfl, fun q hq hunder => ?_⟩
  cases hreach : a.reaches (c.inParts p) with
  | false => simp [Server.altered, hq, hreach]
  | true => simp [Server.altered, hq, hunder hreach]

theorem Confined.of_frame {c c' : Catalog} {r : Rel} {stmt : Statement}
    (h : Confined watched c r stmt) (hunder : c'.under = c.under) (hparts : c'.inParts = c.inParts) :
    Confined watched c' r stmt := by
  cases stmt with
  | alter p a =>
    simp only [Confined, Alone, hunder, hparts]
    exact h
  | _ => exact h

/-- The statements come to the alterations of the table, one after the other. -/
theorem execAll_confined {r : Rel} (hr : watched r) {stmts : List Statement} {c c' : Catalog}
    {t : CatTable} (hconf : ∀ stmt ∈ stmts, Confined watched c r stmt) (ht : c.tables r = some t)
    (h : s.execAll stmts c = some c') : Altered s watched r (alterationsOn r stmts) t c c' := by
  induction stmts generalizing c t with
  | nil =>
    have hc : c = c' := by simpa [Server.execAll] using h
    subst hc
    exact ⟨⟨t, by simp [Server.alterAll], ht⟩, fun _ _ _ => rfl⟩
  | cons stmt stmts ih =>
    obtain ⟨mid, hmid, hrest⟩ := execAll_cons.mp h
    have hrest' := fun x hx => hconf x (List.mem_cons_of_mem _ hx)
    have hfirst := hconf stmt (List.mem_cons_self ..)
    cases stmt with
    | other =>
      have hc : c = mid := by simpa [Server.exec] using hmid
      subst hc
      exact ih hrest' ht hrest
    | alter p a =>
      obtain ⟨⟨tp, tp', htp, hap, hp'⟩, hunder, hparts, hothers⟩ := exec_alter_tables hmid
      have hkept : ∀ q, watched q → q ≠ p → mid.tables q = c.tables q := fun q hq hne =>
        hothers q hne fun hreach => hfirst.2 hreach q hq
      have hconf' : ∀ x ∈ stmts, Confined watched mid r x := fun x hx =>
        (hrest' x hx).of_frame hunder hparts
      by_cases hpr : p = r
      · subst hpr
        obtain rfl : tp = t := Option.some.inj (htp.symm.trans ht)
        have hnext := ih hconf' hp' hrest
        refine ⟨?_, fun q hq hne => (hnext.others q hq hne).trans (hkept q hq hne)⟩
        obtain ⟨t', hall, hc'⟩ := hnext.table
        exact ⟨t', by simpa [alterAll_cons] using ⟨tp', hap, hall⟩, hc'⟩
      · have hunwatched : ¬ watched p := hfirst.1.resolve_left hpr
        have hnext := ih hconf' ((hkept r hr fun e => hpr e.symm).trans ht) hrest
        refine ⟨?_, fun q hq hne => ?_⟩
        · simpa [alterationsOn, hpr] using hnext.table
        · exact (hnext.others q hq hne).trans (hkept q hq fun e => hunwatched (e ▸ hq))
    | createTable => exact hfirst.elim
    | createPartition => exact hfirst.elim
    | dropTable => exact hfirst.elim
    | renameTable => exact hfirst.elim

/-- Agreement after: the table agrees with its new entry, the other entries stayed. -/
theorem Altered.agrees {obs obs' : Observations} {c c' : Catalog} {r : Rel}
    {as : List Alteration} {k : CatTable} (h : Altered s watched r as k c c')
    (hagree : Agrees s watched obs c) (hobs : ∀ q, q ≠ r → obs'.table q = obs.table q)
    (htable : ∀ k', s.alterAll as k = some k' → EntryAgrees s (obs'.table r) (some k')) :
    Agrees s watched obs' c' := by
  intro q hq
  by_cases hqr : q = r
  · subst hqr
    obtain ⟨k', hall, hk'⟩ := h.table
    rw [hk']
    exact htable k' hall
  · rw [hobs q hqr, h.others q hq hqr]
    exact hagree q hq

/-! ## The recipe for NOT NULL -/

/-- With a check that is there already and kept, or that is not and goes again. -/
theorem recipe_notNulls {t : TableObs} {k k' : CatTable} {r : Rel} {check : String}
    {cs : List String} {keepCheck : Bool} (hagree : ConstraintsAgree t.constraints k.constraints)
    (hrec : s.recordsNotNull = false) (hkeep : (t.constraints[check]?).isSome = keepCheck)
    (h : s.alterAll (alterationsOn r (statementsOf
      (notNullRecipe r check cs (constraintState t check) keepCheck))) k = some k') :
    k' = k.notNulls cs := by
  cases hcheck : t.constraints[check]? with
  | some x =>
    have hstate : constraintState t check ≠ .absent := by
      simp only [constraintState, hcheck]
      split <;> decide
    obtain ⟨y, hy, -⟩ := hagree.of_some hcheck
    obtain rfl : keepCheck = true := by simpa [hcheck] using hkeep.symm
    -- the check is validated first, or it is valid; either leaves the table as it is
    have hset : cs.foldlM s.makeNotNull k = some k' := by
      by_cases hvalid : constraintState t check = .valid
      · simpa [statementsOf, notNullRecipe, hvalid, Step.applying, Server.alterAll, Server.alter]
          using h
      · simpa [statementsOf, notNullRecipe, hstate, hvalid, Step.applying, Server.alterAll,
          Server.alter, hy] using h
    exact makeNotNull_all (.inl hrec) hset
  | none =>
    have hstate : constraintState t check = .absent := by simp [constraintState, hcheck]
    have hnone : k.constraints check = none := (hagree.none_iff check).mp hcheck
    obtain rfl : keepCheck = false := by simpa [hcheck] using hkeep.symm
    have hfirst : Server.addConstraint check { type := .check, columns := cs } k =
        some { k with constraints :=
          (Function.update k.constraints check (some { type := .check, columns := cs })) } := by
      simp [Server.addConstraint, hnone]
    simp only [statementsOf, notNullRecipe, hstate, Step.applying, if_true, ne_eq, reduceCtorEq,
      not_false_eq_true, Bool.false_eq_true, if_false, List.flatMap_cons, List.flatMap_nil,
      List.cons_append, List.nil_append, List.append_nil, alterationsOn_self, alterationsOn_nil,
      alterAll_cons, alterAll_nil, Server.alter] at h
    obtain ⟨added, hadded, same, hsame, mid, hmid, last, hlast, rfl⟩ := h
    obtain rfl : _ = added := Option.some.inj (hfirst.symm.trans hadded)
    obtain rfl : _ = same := by simpa using hsame
    rw [makeNotNull_all (.inl hrec) hmid] at hlast
    simp only [Server.dropConstraint, CatTable.notNulls, Function.update_self, Option.map_some,
      Option.some.injEq] at hlast
    rw [← hlast]
    have hback : Function.update k.constraints check none = k.constraints := by
      rw [← hnone, Function.update_eq_self]
    simp [CatTable.notNulls, hback]

/-! ## Columns -/

/-- The definition makes a column and nothing else: no index and no constraint. -/
def Plain (s : Server) (d : ColumnDef) : Prop :=
  (s.clause d).indexes = [] ∧ (s.clause d).constraints = []

/-- The table with a column that has the flag. -/
def CatTable.withColumn (k : CatTable) (column : String) (notNull : Bool) : CatTable :=
  { k with columns := Function.update k.columns column (some notNull) }

theorem CatTable.withColumn_notNulls (k : CatTable) (column : String) (notNull : Bool) :
    (k.withColumn column notNull).notNulls [column] = k.notNulls [column] := by
  simp only [CatTable.notNulls, CatTable.withColumn, CatTable.mk.injEq, and_true]
  funext d
  by_cases hd : d = column <;> simp [hd]

theorem CatTable.notNulls_singleton (k : CatTable) (column : String) :
    k.notNulls [column] = k.withColumn column true := by
  simp only [CatTable.notNulls, CatTable.withColumn, CatTable.mk.injEq, and_true]
  funext d
  by_cases hd : d = column <;> simp [hd]

theorem TableAgrees.withColumn {t : TableObs} {k : CatTable} (h : TableAgrees s t k)
    (column type : String) (notNull : Bool) :
    TableAgrees s (t.withColumn column type notNull) (k.withColumn column notNull) :=
  ⟨h.columns.insert column rfl, h.indexes, h.constraints⟩

theorem TableAgrees.flagged {t : TableObs} {k : CatTable} (h : TableAgrees s t k)
    (column : String) (notNull : Bool) :
    TableAgrees s { t with columns := flagged t.columns column notNull }
      (k.withColumn column notNull) :=
  ⟨h.columns.insert column rfl, h.indexes, h.constraints⟩

theorem addColumn_eq {d : ColumnDef} {k k' : CatTable} (hplain : Plain s d)
    (hrec : s.recordsNotNull = true → d.nullable = true ∧ (s.clause d).notNull = false)
    (h : s.addColumn d k = some k') :
    k' = k.withColumn d.name (!d.nullable || (s.clause d).notNull) := by
  unfold Server.addColumn at h
  simp only [hplain.1, hplain.2, Server.withAll, List.foldl_nil] at h
  split at h
  · cases h
  · split at h
    next hflag =>
      have hoff : s.recordsNotNull = false := by
        cases hon : s.recordsNotNull with
        | false => rfl
        | true =>
          obtain ⟨hnull, hclause⟩ := hrec hon
          simp [hnull, hclause] at hflag
      rw [makeNotNull_eq (.inl hoff) h, hflag]
      exact (CatTable.withColumn_notNulls k d.name false).trans (k.notNulls_singleton d.name)
    next hflag =>
      have hfalse : (!d.nullable || (s.clause d).notNull) = false := by simpa using hflag
      rw [hfalse, ← Option.some.inj h]
      rfl

/-- No index and no constraint uses the column. -/
def Unused (k : CatTable) (column : String) : Prop :=
  (∀ n i, k.indexes n = some i → i.uses column = false) ∧
    ∀ n x, k.constraints n = some x → column ∉ x.columns

theorem Unused.constraint {k : CatTable} {column : String} (h : Unused k column) {n : String}
    {x : CatConstraint} (hx : k.constraints n = some x) : k.constraintUses x column = false := by
  have hcolumns := h.2 n x hx
  cases hindex : x.index with
  | none => simp [CatTable.constraintUses, hindex, hcolumns]
  | some i =>
    cases hi : k.indexes i with
    | none => simp [CatTable.constraintUses, hindex, hi, hcolumns]
    | some ix => simp [CatTable.constraintUses, hindex, hi, hcolumns, h.1 i ix hi]

theorem TableAgrees.dropColumn {t : TableObs} {k k' : CatTable} (hagree : TableAgrees s t k)
    {column : String} (hunused : Unused k column) (h : Server.dropColumn column k = some k') :
    TableAgrees s { t with columns := t.columns.erase column } k' := by
  simp only [Server.dropColumn, Option.map_eq_some_iff] at h
  obtain ⟨flag, -, rfl⟩ := h
  have hindexes : (fun n => (k.indexes n).filter fun i => !i.uses column) = k.indexes := by
    funext n
    cases hi : k.indexes n with
    | none => rfl
    | some i => simp [hunused.1 n i hi]
  have hconstraints :
      (fun n => (k.constraints n).filter fun x => !k.constraintUses x column) = k.constraints := by
    funext n
    cases hx : k.constraints n with
    | none => rfl
    | some x => simp [hunused.constraint hx]
  refine ⟨hagree.columns.erase column, ?_, ?_⟩
  · rw [hindexes]
    exact hagree.indexes
  · rw [hconstraints]
    exact hagree.constraints

theorem dropNotNull_eq {k k' : CatTable} {column : String} (hrec : s.recordsNotNull = false)
    (h : s.dropNotNull column k = some k') : k' = k.withColumn column false := by
  simp only [Server.dropNotNull, Option.map_eq_some_iff, hrec] at h
  obtain ⟨flag, -, rfl⟩ := h
  rfl

/-! ## A column that is renamed -/

theorem renamed_of_notMem {column newName : String} {columns : List String}
    (h : column ∉ columns) : Server.renamed column newName columns = columns := by
  induction columns with
  | nil => rfl
  | cons c cs ih =>
    simp only [List.mem_cons, not_or] at h
    have hc : ¬ c = column := fun e => h.1 e.symm
    have htail := ih h.2
    simp only [Server.renamed] at htail
    simp [Server.renamed, hc, htail]

/-- The names of the keys of an index are renamed like any other names. -/
theorem filterMap_renamed (column newName : String) (keys : List (Option String)) :
    (keys.map fun k => k.map fun c => if c = column then newName else c).filterMap id =
      Server.renamed column newName (keys.filterMap id) := by
  induction keys with
  | nil => rfl
  | cons key keys ih =>
    cases key with
    | none => simpa using ih
    | some c => simpa [Server.renamed] using ih

theorem keyColumns_renameIn (i : CatIndex) (column newName : String) :
    (s.renameIn column newName i).keyColumns = Server.renamed column newName i.keyColumns := by
  simp only [CatIndex.keyColumns, Server.renameIn, filterMap_renamed, List.length_map]
  simp [Server.renamed, List.map_take]

/-- No index has the column in what is read of its key, or in its predicate. -/
def UnreadInIndexes (k : CatTable) (column : String) : Prop :=
  ∀ n i, k.indexes n = some i → column ∉ i.keyColumns ∧ column ∉ i.predicateColumns

theorem Reads.renameIn {ix : IndexObs} {i : CatIndex} (h : Reads s ix i) {column newName : String}
    (hkey : column ∉ i.keyColumns) (hpredicate : column ∉ i.predicateColumns) :
    Reads s ix (s.renameIn column newName i) := by
  refine ⟨?_, h.unique, ?_⟩
  · rw [keyColumns_renameIn, renamed_of_notMem hkey]
    exact h.keyColumns
  · simpa [Server.renameIn, hpredicate] using h.predicate

theorem TableAgrees.renameColumn {t : TableObs} {k k' : CatTable} (hagree : TableAgrees s t k)
    {column newName : String} (hunread : UnreadInIndexes k column)
    (h : s.renameColumn column newName k = some k') :
    TableAgrees s { t with columns := renameMember t.columns column newName } k' := by
  unfold Server.renameColumn at h
  split at h
  · cases h
  next hthere =>
    obtain ⟨flag, hflag⟩ : ∃ flag, k.columns column = some flag := by
      cases hcol : k.columns column with
      | none => simp [hcol] at hthere
      | some flag => exact ⟨flag, rfl⟩
    have hnew : k.columns newName = none := by
      cases hcol : k.columns newName with
      | none => rfl
      | some flag => simp [hcol] at hthere
    rw [← Option.some.inj h]
    obtain ⟨col, hcol, hrel⟩ := hagree.columns.of_value hflag
    have hne : column ≠ newName := fun e => by simp [← e, hflag] at hnew
    refine ⟨?_, ?_, ?_⟩
    · have hmoved := hagree.columns.moveTo hne hrel
      simpa [renameMember, hcol, Server.moved, hflag] using hmoved
    · intro n
      have hn := hagree.indexes n
      cases hi : k.indexes n with
      | none => simpa [hi] using hn
      | some i =>
        obtain ⟨hkey, hpredicate⟩ := hunread n i hi
        obtain ⟨ix, hix, hreads⟩ := hagree.indexes.of_value hi
        simp only [hix, hi, Option.map_some]
        exact .some (hreads.renameIn hkey hpredicate)
    · intro n
      have hn := hagree.constraints n
      cases hx : k.constraints n with
      | none => simpa [hx] using hn
      | some x =>
        obtain ⟨y, hy, htype⟩ := hagree.constraints.of_value hx
        simp only [hy, hx, Option.map_some]
        exact .some htype

/-! ## Indexes and constraints -/

theorem filterMap_names {columns : List IndexColumn}
    (h : (columns.any fun k => k.expression != "") = false) :
    (columns.map fun k => if k.expression = "" then some k.name else none).filterMap id =
      columns.map (·.name) := by
  induction columns with
  | nil => rfl
  | cons k ks ih =>
    simp only [List.any_cons, Bool.or_eq_false_iff, bne_eq_false_iff_eq] at h
    rw [List.map_cons, List.filterMap_cons, ih h.2]
    simp [h.1]

/-- What a definition projects is what reading the index it makes would give. -/
theorem reads_built {d : CreateIndex} (h : d.hasExpressionKey = false) :
    Reads s d.projected (s.built d) := by
  refine ⟨?_, rfl, ?_⟩
  · have hnames := filterMap_names h
    simp only [IndexObs.keyColumns, CreateIndex.projected, CatIndex.keyColumns, Server.built,
      List.length_map, hnames, CreateIndex.names]
  · by_cases hd : d.predicate = ""
    · left
      simp [CreateIndex.projected, Server.built, hd]
    · right
      simp [CreateIndex.projected, Server.built, hd]

theorem reads_keyIndex (columns : List String) (primary withoutOverlaps : Bool)
    (backs : Option String) :
    Reads s (keyIndex columns primary withoutOverlaps)
      { keys := columns.map some, unique := true, backs := backs } := by
  refine ⟨?_, rfl, .inl rfl⟩
  simp [IndexObs.keyColumns, keyIndex, CatIndex.keyColumns]

theorem addIndex_eq {name : String} {i : CatIndex} {k k' : CatTable}
    (h : Server.addIndex name i k = some k') :
    k.indexes name = none ∧ k' = { k with indexes := Function.update k.indexes name (some i) } := by
  unfold Server.addIndex at h
  split at h
  · cases h
  next hnone => exact ⟨by simpa using hnone, (Option.some.inj h).symm⟩

theorem addConstraint_eq {name : String} {x : CatConstraint} {k k' : CatTable}
    (h : Server.addConstraint name x k = some k') :
    k.constraints name = none ∧
      k' = { k with constraints := Function.update k.constraints name (some x) } := by
  unfold Server.addConstraint at h
  split at h
  · cases h
  next hnone => exact ⟨by simpa using hnone, (Option.some.inj h).symm⟩

theorem TableAgrees.addIndex {t : TableObs} {k k' : CatTable} (hagree : TableAgrees s t k)
    {name : String} {ix : IndexObs} {i : CatIndex} (hreads : Reads s ix i)
    (h : Server.addIndex name i k = some k') :
    TableAgrees s { t with indexes := t.indexes.insert name ix } k' := by
  obtain ⟨-, rfl⟩ := addIndex_eq h
  exact ⟨hagree.columns, hagree.indexes.insert name hreads, hagree.constraints⟩

theorem dropIndex_eq {name : String} {k k' : CatTable} (h : Server.dropIndex name k = some k') :
    k' = { k with indexes := Function.update k.indexes name none } := by
  simp only [Server.dropIndex, Option.bind_eq_some_iff] at h
  obtain ⟨i, -, h⟩ := h
  split at h
  · cases h
  · exact (Option.some.inj h).symm

theorem TableAgrees.dropIndex {t : TableObs} {k k' : CatTable} (hagree : TableAgrees s t k)
    {name : String} (h : Server.dropIndex name k = some k') :
    TableAgrees s { t with indexes := t.indexes.erase name } k' := by
  rw [dropIndex_eq h]
  exact ⟨hagree.columns, hagree.indexes.erase name, hagree.constraints⟩

/-- The constraint has no index of its own and is not what makes a column NOT NULL. -/
theorem TableAgrees.dropConstraint {t : TableObs} {k k' : CatTable} (hagree : TableAgrees s t k)
    {name : String} (hbare : ∀ x, k.constraints name = some x → x.index = none ∧ x.type ≠ .notNull)
    (h : Server.dropConstraint name k = some k') :
    TableAgrees s { t with constraints := t.constraints.erase name } k' := by
  simp only [Server.dropConstraint, Option.map_eq_some_iff] at h
  obtain ⟨x, hx, rfl⟩ := h
  obtain ⟨hindex, htype⟩ := hbare x hx
  simp only [hindex, Option.map_none, Option.getD_none, decide_eq_false htype, Bool.false_and,
    Bool.false_eq_true, if_false]
  exact ⟨hagree.columns, hagree.indexes, hagree.constraints.erase name⟩

theorem TableAgrees.renameConstraint {t : TableObs} {k k' : CatTable}
    (hagree : TableAgrees s t k) {name newName : String}
    (hbare : ∀ x, k.constraints name = some x → x.index = none)
    (h : Server.renameConstraint name newName k = some k') :
    TableAgrees s { t with constraints := renameMember t.constraints name newName } k' := by
  unfold Server.renameConstraint at h
  split at h
  · cases h
  next hnew =>
    simp only [Option.map_eq_some_iff] at h
    obtain ⟨x, hx, rfl⟩ := h
    have hindex := hbare x hx
    obtain ⟨y, hy, htype⟩ := hagree.constraints.of_value hx
    have hne : name ≠ newName := fun e => by simp [← e, hx] at hnew
    have hmoved := hagree.constraints.moveTo hne
      (b := { x with index := x.index.map fun _ => newName }) htype
    refine ⟨hagree.columns, ?_, ?_⟩
    · simpa [hindex] using hagree.indexes
    · simpa [renameMember, hy] using hmoved

/-! ## Keys -/

/-- The table with a key: a constraint and an index of one name, and its columns NOT NULL where it
is the primary key. -/
def CatTable.keyed (k : CatTable) (name : String) (primary : Bool) (columns : List String)
    (i : CatIndex) : CatTable where
  columns := if primary then (k.notNulls columns).columns else k.columns
  indexes := Function.update k.indexes name (some i)
  constraints := Function.update k.constraints name
    (some { type := Server.keyType primary, columns := columns, index := some name })

/-- What `project` makes of the entry. -/
def TableObs.keyed (t : TableObs) (key : AddKey) : TableObs :=
  { t with
    constraints := t.constraints.insert key.name { type := key.type }
    columns :=
      if key.primary then key.columns.foldl (fun cols c => flagged cols c true) t.columns
      else t.columns
    indexes := t.indexes.insert key.name
      (keyIndex key.columns key.primary key.withoutOverlaps) }

theorem projectChange_addKey (r : Rel) (t : TableObs) (obs : Observations) (key : AddKey) :
    projectChange r t obs (.addKey key) = obs.assign r (t.keyed key) := by
  have hcolumns : key.columns.isEmpty = false := by simpa using key.covers
  simp [projectChange, projectKeyIndex, key.named, hcolumns, TableObs.keyed]

theorem TableAgrees.keyed {t : TableObs} {k : CatTable} (h : TableAgrees s t k) (key : AddKey)
    {i : CatIndex} (hreads : Reads s (keyIndex key.columns key.primary key.withoutOverlaps) i) :
    TableAgrees s (t.keyed key) (k.keyed key.name key.primary key.columns i) := by
  refine ⟨?_, h.indexes.insert key.name hreads, h.constraints.insert key.name rfl⟩
  cases hprimary : key.primary with
  | true => simpa [TableObs.keyed, CatTable.keyed, hprimary] using (h.notNulls key.columns).columns
  | false => simpa [TableObs.keyed, CatTable.keyed, hprimary] using h.columns

/-- Columns flagged beforehand are among those the key flags. -/
theorem CatTable.keyed_notNulls (k : CatTable) {name : String} {primary : Bool}
    {columns before : List String} {i : CatIndex}
    (hbefore : ∀ c ∈ before, primary = true ∧ c ∈ columns) :
    (k.notNulls before).keyed name primary columns i = k.keyed name primary columns i := by
  cases primary with
  | true =>
    simp only [CatTable.keyed, if_true, CatTable.notNulls, CatTable.mk.injEq, and_true]
    funext d
    by_cases hd : d ∈ columns
    · simp [hd]
    · have hbefore' : d ∉ before := fun hmem => hd (hbefore d hmem).2
      simp [hd, hbefore']
  | false =>
    have hnil : before = [] := List.eq_nil_iff_forall_not_mem.mpr fun c hc => by
      simpa using (hbefore c hc).1
    simp [hnil]

theorem CatTable.keyed_index (k : CatTable) {name : String} {primary : Bool}
    {columns : List String} {i j : CatIndex} :
    ({ k with indexes := Function.update k.indexes name (some j) } : CatTable).keyed name primary
      columns i = k.keyed name primary columns i := by
  simp [CatTable.keyed, CatTable.notNulls]

theorem keyColumnsNotNull_eq {primary : Bool} {columns : List String} {k k' : CatTable}
    (hrec : s.recordsNotNull = false ∨ ∀ c ∈ columns, primary = true → k.columns c = some true)
    (h : s.keyColumnsNotNull primary columns k = some k') :
    k' = { k with columns := if primary then (k.notNulls columns).columns else k.columns } := by
  unfold Server.keyColumnsNotNull at h
  cases primary with
  | true =>
    have hall : columns.foldlM s.makeNotNull k = some k' := by simpa using h
    rw [makeNotNull_all (hrec.imp_right fun hnn c hc => hnn c hc rfl) hall]
    simp [CatTable.notNulls]
  | false =>
    have hk : k = k' := by simpa using h
    simp [hk]

theorem addKey_eq {name : String} {primary only : Bool} {columns : List String} {k k' : CatTable}
    (hrec : s.recordsNotNull = false ∨ ∀ c ∈ columns, primary = true → k.columns c = some true)
    (h : s.alter (.addKey name primary columns only) k = some k') :
    k' = k.keyed name primary columns
      { keys := columns.map some, unique := true, backs := some name } := by
  simp only [Server.alter, Server.addKey, Option.bind_eq_bind, Option.bind_eq_some_iff] at h
  obtain ⟨k₁, h₁, k₂, h₂, h₃⟩ := h
  rw [(addIndex_eq h₃).2, (addConstraint_eq h₂).2, keyColumnsNotNull_eq hrec h₁]
  rfl

/-- The index of the constraint's own name, over columns and nothing else. -/
theorem addKeyUsing_eq {name : String} {primary : Bool} {columns : List String} {k k' : CatTable}
    {i : CatIndex} (hi : k.indexes name = some i) (hcolumns : i.keyColumns = columns)
    (hrec : s.recordsNotNull = false ∨ ∀ c ∈ columns, primary = true → k.columns c = some true)
    (h : s.alter (.addKeyUsing name primary name) k = some k') :
    i.unique = true ∧ i.predicate = "" ∧
      k' = k.keyed name primary columns { i with backs := some name } := by
  simp only [Server.alter, Server.addKeyUsing, Option.bind_eq_bind, hi, Option.bind_some] at h
  split at h
  · cases h
  next hguard =>
    simp only [Bool.or_eq_true, Bool.not_eq_true', not_or, Bool.not_eq_false, bne_iff_ne, ne_eq,
      Decidable.not_not, List.any_eq_true, not_exists, not_and] at hguard
    obtain ⟨⟨⟨hunique, -⟩, hpredicate⟩, hkeys⟩ := hguard
    have hnamed : i.keys.filterMap id = columns := by
      rw [← hcolumns, CatIndex.keyColumns]
      have hlength : (i.keys.filterMap id).length = i.keys.length := by
        rw [List.filterMap_length_eq_length]
        intro key hkey
        have := hkeys key hkey
        cases key <;> simp_all
      rw [← hlength, List.take_left']
      rfl
    rw [hnamed] at h
    simp only [Option.bind_eq_some_iff] at h
    obtain ⟨k₁, h₁, k₂, h₂, h₃⟩ := h
    refine ⟨hunique, hpredicate, ?_⟩
    rw [(addIndex_eq h₃).2, (addConstraint_eq h₂).2, keyColumnsNotNull_eq hrec h₁]
    simp [CatTable.keyed]

theorem Reads.backing {ix : IndexObs} {i : CatIndex} (h : Reads s ix i) (backs : Option String) :
    Reads s ix { i with backs := backs } := ⟨h.keyColumns, h.unique, h.predicate⟩

end Projection
end Laswell
