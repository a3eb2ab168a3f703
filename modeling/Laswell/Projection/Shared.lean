import Laswell.Planner.TempCheck
import Laswell.Projection.Added

/-!
# Laswell.Projection.Shared

Columns with a fill and a NOT NULL are planned statement by statement in `Planner.TempCheck`, where
an attempt may stop behind any of them. The plans here are those plans, as far as the catalog of a
structural change sees them.

* `Seen`: the observations of a table are of that catalog.
* `planSeen`: what a plan there is here.
* `filledColumnGroup_seen`: the intents of a recipe are the same.
* `planSetNotNull_seen`, `planAddColumnsFilled_seen`: so are its steps, and what is refused.
-/

namespace Laswell
namespace Projection

/-! ## What is read -/

def columnSeen : Option ColumnObs → Planner.Column
  | none => .absent
  | some c => .there c.type c.notNull

def flagSeen : Planner.Column → Option Bool
  | .absent => none
  | .there _ notNull => some notNull

theorem flagSeen_columnSeen (c : Option ColumnObs) :
    flagSeen (columnSeen c) = c.map (·.notNull) := by
  cases c <;> rfl

/-- An index, as far as a fill's own key is chosen by it. -/
structure IndexSeen (ix : IndexObs) (reading : Planner.IndexReading) : Prop where
  isPrimary : reading.isPrimary = ix.isPrimary
  columns : reading.columns = some (ix.columns.map some)
  keyColumnCount : reading.keyColumnCount = some ix.keyColumnCount

/-- The table is there, and is read as the catalog has it. -/
structure Seen (obs : Observations) (r : Rel) (s : Planner.Catalog) : Prop where
  present : (obs.table r).present = true
  column : ∀ c, s.column c = columnSeen (obs.table r).columns[c]?
  check : ∀ k,
    (s.check k).map Planner.Check.valid = ((obs.table r).constraints[k]?).map (·.validated)
  trigger : ∀ name, s.trigger name = decide (name ∈ (obs.table r).triggers)
  indexes : List.Forall₂ (fun entry reading => IndexSeen entry.2 reading.2)
    (obs.table r).indexes.toList s.indexes

/-- What the NOT NULL of one column is planned by. -/
structure SeenAt (obs : Observations) (r : Rel) (s : Planner.Catalog) (column : String) :
    Prop where
  present : (obs.table r).present = true
  flag : flagSeen (s.column column) = ((obs.table r).columns[column]?).map (·.notNull)
  check : (s.check (nnCheck r column)).map Planner.Check.valid =
    ((obs.table r).constraints[nnCheck r column]?).map (·.validated)

theorem Seen.at {obs : Observations} {r : Rel} {s : Planner.Catalog} (h : Seen obs r s)
    (column : String) : SeenAt obs r s column where
  present := h.present
  flag := by rw [h.column, flagSeen_columnSeen]
  check := h.check _

/-! ## What is planned -/

def exprColumns : Planner.CheckExpr → List String
  | .notNull columns => columns
  | .bound _ => []

/-- A statement there, as the catalog here sees it: a LOCK TABLE leaves nothing to see. -/
def stmtSeen (r : Rel) : Planner.Stmt → Option Statement
  | .lockTable => none
  | .addColumn column type =>
    some (.alter r (.addColumn { name := column, type := type, nullable := true }))
  | .addCheck name expr => some (.alter r (.addCheck name (exprColumns expr)))
  | .validate name => some (.alter r (.validateConstraint name))
  | .setNotNull columns => some (.alter r (.setNotNull columns))
  | .dropConstraint name => some (.alter r (.dropConstraint name))
  | .commentColumn _ _ | .createFunction _ _ _ | .createTrigger _ | .dropTrigger _
  | .dropFunction _ | .walk _ | .attachPartition _ => some .other

def txnSeen (r : Rel) (txn : Planner.Txn) : Step :=
  .applying (txn.stmts.filterMap (stmtSeen r))

@[simp] theorem txnSeen_lockFirst (r : Rel) (txn : Planner.Txn) :
    txnSeen r txn.lockFirst = txnSeen r txn := rfl

@[simp] theorem txnSeen_make (r : Rel) (stmt : Planner.Stmt) (lock : String) :
    txnSeen r (Planner.SetNotNull.make stmt lock) = .applying (stmtSeen r stmt).toList := by
  cases h : stmtSeen r stmt <;> simp [txnSeen, Planner.SetNotNull.make, h]

/-- No transaction is an intent that is satisfied. -/
def planSeen (r : Rel) : Except String (List Planner.Txn) → Plan
  | .error _ => none
  | .ok [] => some [.satisfied]
  | .ok (txn :: txns) => some ((txn :: txns).map (txnSeen r))

theorem planSeen_ok {r : Rel} {txns : List Planner.Txn} (h : txns ≠ []) :
    planSeen r (.ok txns) = some (txns.map (txnSeen r)) := by
  cases txns with
  | nil => exact absurd rfl h
  | cons txn txns => rfl

/-! ## The group -/

section Group

variable {r : Rel} {lead : AddColumn}

theorem text_after {a b : Option After} :
    (a.map After.text).getD "" = (b.map After.text).getD "" ↔ a = b := by
  rcases a with _ | _ | _ <;> rcases b with _ | _ | _ <;> decide

/-- An intent, where it is a column with a fill. -/
def asFill (in_ : Intent) : Option Planner.FillColumn :=
  match in_.change with
  | .addColumn d => if d.filled then some (d.fillColumn in_.rel) else none
  | _ => none

/-- The rule by which a column joins is the same, where the tables are told apart by their
qualified names. -/
theorem joinsGroup_seen {group : List AddColumn} {q : Rel} {next : AddColumn}
    (hfilled : next.filled = true)
    (hname : (next.fillColumn q).qualified = (lead.fillColumn r).qualified → q = r) :
    (Planner.shares (lead.fillColumn r) (next.fillColumn q) &&
      !(group.map (·.fillColumn r)).any (Planner.entangled · (next.fillColumn q))) =
      joinsGroup r lead group q next := by
  have hqualified : decide ((next.fillColumn q).qualified = (lead.fillColumn r).qualified) =
      (q == r) := by
    rw [beq_eq_decide, decide_eq_decide]
    exact ⟨hname, fun h => by rw [h]; rfl⟩
  have hafter : decide ((next.fillColumn q).after = (lead.fillColumn r).after) =
      (next.after == lead.after) := by
    rw [beq_eq_decide, decide_eq_decide]
    exact text_after
  simp only [Planner.shares, joinsGroup, hqualified, hafter, hfilled, Bool.true_and, List.any_map]
  rfl

theorem growGroup_seen (rest : List Intent) (group : List AddColumn)
    (hname : ∀ in_ ∈ rest, in_.rel.schema ++ "." ++ in_.rel.name = r.schema ++ "." ++ r.name →
      in_.rel = r) :
    Planner.growGroup (lead.fillColumn r) (group.map (·.fillColumn r)) (rest.map asFill) =
      (group ++ filledColumnGroup r lead group rest).map (·.fillColumn r) := by
  induction rest generalizing group with
  | nil => simp [Planner.growGroup, filledColumnGroup]
  | cons in_ rest ih =>
    obtain ⟨q, change⟩ := in_
    have hstop : Planner.growGroup (lead.fillColumn r) (group.map (·.fillColumn r))
        (none :: rest.map asFill) = group.map (·.fillColumn r) := rfl
    cases change with
    | addColumn next =>
      cases hfilled : next.filled with
      | false =>
        have hnone : asFill { rel := q, change := .addColumn next } = none := by
          simp [asFill, hfilled]
        rw [List.map_cons, hnone, hstop, filledColumnGroup]
        simp [joinsGroup, hfilled]
      | true =>
        have hsome : asFill { rel := q, change := .addColumn next } =
            some (next.fillColumn q) := by
          simp [asFill, hfilled]
        have hjoins : _ = joinsGroup r lead group q next :=
          joinsGroup_seen hfilled (hname _ List.mem_cons_self)
        rw [List.map_cons, hsome, Planner.growGroup, hjoins, filledColumnGroup]
        split
        next hyes =>
          -- it is on the same table, and is the column there as it is here
          have hq : q = r := by
            simp only [joinsGroup, Bool.and_eq_true, beq_iff_eq] at hyes
            tauto
          have hgrown := ih (group ++ [next]) fun in_ hin => hname in_ (List.mem_cons_of_mem _ hin)
          rw [List.map_append, List.map_cons, List.map_nil] at hgrown
          rw [hq, hgrown, List.append_assoc]
          rfl
        · rw [List.append_nil]
    | _ => simp [asFill, hstop, filledColumnGroup]

/-- The columns that are planned together. -/
theorem filledColumnGroup_seen {rest : List Intent} (hfilled : lead.filled = true)
    (hname : ∀ in_ ∈ rest, in_.rel.schema ++ "." ++ in_.rel.name = r.schema ++ "." ++ r.name →
      in_.rel = r) :
    Planner.filledColumnGroup (some (lead.fillColumn r) :: rest.map asFill) =
      (lead :: together r lead rest).map (·.fillColumn r) := by
  rw [together, if_pos hfilled]
  exact growGroup_seen rest [lead] hname

end Group

/-! ## NOT NULL -/

section NotNull

variable {env : Env} {obs : Observations} {r : Rel} {s : Planner.Catalog} {oneStep : Option String}

theorem notNullRecipe_seen {t : TableObs} {check : String} {found : Option Planner.Check}
    (hfound : found.map Planner.Check.valid = (t.constraints[check]?).map (·.validated))
    (columns : List String) (keep : Bool) :
    (Planner.throughCheck found
      (Planner.SetNotNull.make (.addCheck check (.notNull columns)) Planner.addLock).lockFirst
      (Planner.SetNotNull.make (.validate check) Planner.validateLock)
      (Planner.SetNotNull.make (.setNotNull columns) Planner.noScanLock).lockFirst
      (Planner.SetNotNull.make (.dropConstraint check) Planner.briefLock).lockFirst keep).map
        (txnSeen r) =
      notNullRecipe r check columns (constraintState t check) keep := by
  rw [constraintState]
  cases hk : t.constraints[check]? with
  | none =>
    rw [hk] at hfound
    rw [Option.map_eq_none_iff.mp hfound]
    cases keep <;> rfl
  | some k =>
    rw [hk] at hfound
    obtain ⟨x, rfl, hx⟩ := Option.map_eq_some_iff.mp hfound
    obtain ⟨expr, valid⟩ := x
    change valid = k.validated at hx
    subst hx
    cases hv : k.validated <;> cases keep <;>
      simp [Planner.throughCheck, notNullRecipe, hv, stmtSeen]

/-- A column is made NOT NULL by the same steps. -/
theorem planSetNotNull_seen {column : String} (hs : SeenAt obs r s column)
    (hstep : oneStep.isSome = (env.constraintTraits obs r).refusesValidate) (keepCheck : Bool) :
    planSetNotNull env obs r column keepCheck =
      planSeen r (Planner.planSetNotNull oneStep
        { schema := r.schema, table := r.name, column, keepCheck } s) := by
  have hflag := hs.flag
  unfold planSetNotNull Planner.planSetNotNull
  simp only [hs.present, Bool.not_true, Bool.false_eq_true, if_false]
  cases hc : (obs.table r).columns[column]? with
  | none =>
    rw [hc] at hflag
    cases hcol : s.column column with
    | absent => rfl
    | there type notNull => rw [hcol] at hflag; cases hflag
  | some c =>
    rw [hc] at hflag
    cases hcol : s.column column with
    | absent => rw [hcol] at hflag; cases hflag
    | there type notNull =>
      rw [hcol] at hflag
      obtain rfl : notNull = c.notNull := Option.some.inj hflag
      obtain ⟨_, notNull, _, _⟩ := c
      cases notNull with
      | true => rfl
      | false =>
        cases oneStep with
        | some scope => simp [← hstep, planSeen, stmtSeen]
        | none =>
          have hsteps := notNullRecipe_seen (r := r) hs.check [column] keepCheck
          simp only [← hstep, Option.isSome_none, Bool.false_eq_true, if_false]
          rw [planSeen_ok, ← hsteps]
          · rfl
          · simp [Planner.throughCheck]

end NotNull

/-! ## Columns with a fill -/

section Filled

variable {env : Env} {obs : Observations} {r : Rel} {s : Planner.Catalog} {lead : AddColumn}
  {group : List AddColumn} {oneStep : Option String} {conf : Planner.Confinement}

theorem pending_seen (hs : Seen obs r s) :
    Planner.pendingOf (group.map (·.fillColumn r)) s =
      (pending (obs.table r) group).map (·.fillColumn r) := by
  rw [Planner.pendingOf, pending, List.filter_map]
  congr 2
  funext g
  change (!(s.column g.column).notNull) = _
  rw [hs.column]
  cases (obs.table r).columns[g.column]? <;> rfl

theorem missing_seen (hs : Seen obs r s) :
    Planner.missingOf (group.map (·.fillColumn r)) s =
      (missing (obs.table r) group).map (·.fillColumn r) := by
  rw [Planner.missingOf, missing, List.filter_map]
  congr 2
  funext g
  change (!(s.column g.column).isThere) = _
  rw [hs.column]
  cases (obs.table r).columns[g.column]? <;> rfl

variable (lead group) in
theorem otherType_seen (hs : Seen obs r s) :
    (Planner.otherType (lead.fillColumn r) (group.map (·.fillColumn r)) s).isSome =
      group.any fun g => (((obs.table r).columns[g.column]?).map fun c =>
        c.type ≠ g.type && g.type ≠ "").getD false := by
  rw [Planner.otherType, List.isSome_findSome?, List.any_map]
  congr 1
  funext g
  simp only [Function.comp_apply, AddColumn.fillColumn, hs.column]
  cases (obs.table r).columns[g.column]? with
  | none => rfl
  | some c =>
    change (if c.type ≠ g.type ∧ g.type ≠ "" then some _ else none).isSome =
      (decide (c.type ≠ g.type) && decide (g.type ≠ ""))
    split
    next h => simp [h]
    next h => simpa using h

theorem defaultFillKey_seen (hs : Seen obs r s)
    (hconf : conf.requiredGroup = env.confinement obs r) :
    Planner.defaultFillKey s.reading conf = defaultFillKey env obs r := by
  rw [Planner.defaultFillKey, defaultFillKey, List.head?_filterMap]
  change s.indexes.findSome? _ = _
  have hindexes := hs.indexes
  generalize (obs.table r).indexes.toList = entries, s.indexes = readings at hindexes ⊢
  induction hindexes with
  | nil => rfl
  | cons hentry _ ih =>
    rw [List.findSome?_cons, List.findSome?_cons, ih]
    simp only [hentry.isPrimary, hentry.columns, Option.getD_some, Planner.IndexReading.keyCount,
      hentry.keyColumnCount, ← List.map_take, List.findSome?_map, hconf, IndexObs.keyColumns,
      List.find?_eq_findSome?_guard]
    rfl

theorem fillKey_seen (hs : Seen obs r s) (hconf : conf.requiredGroup = env.confinement obs r) :
    Planner.fillKey (lead.fillColumn r) conf s = fillKey env obs r lead := by
  rw [Planner.fillKey, fillKey, defaultFillKey_seen hs hconf]
  change (if lead.key = "" then defaultFillKey env obs r else some lead.key) = _
  by_cases h : lead.key = ""
  · rw [if_pos h, if_neg (not_not.mpr h)]
  · rw [if_neg h, if_pos h]

variable (lead group) in
/-- The first step of a fill: the columns, the function and the trigger. -/
theorem addFilled_seen (hs : Seen obs r s) :
    txnSeen r (Planner.addFilled (lead.fillColumn r) (group.map (·.fillColumn r)) s) =
      .applying ((missing (obs.table r) group).flatMap
          (fun g => [.alter r (.addColumn g.bare), .other]) ++ [.other] ++
        if fillTrigger r lead ∈ (obs.table r).triggers then [] else [.other]) := by
  have hcolumns : ∀ gs : List AddColumn,
      ((gs.map (·.fillColumn r)).flatMap fun g =>
        [Planner.Stmt.addColumn g.column g.type, .commentColumn g.column g.comment]).filterMap
          (stmtSeen r) = gs.flatMap fun g => [.alter r (.addColumn g.bare), .other] := by
    intro gs
    induction gs with
    | nil => rfl
    | cons g gs ih =>
      rw [List.map_cons, List.flatMap_cons, List.filterMap_append, ih]
      rfl
  have htrigger : s.trigger (lead.fillColumn r).filler =
      decide (fillTrigger r lead ∈ (obs.table r).triggers) := hs.trigger _
  rw [txnSeen, Planner.addFilled, missing_seen hs, htrigger]
  simp only [Planner.Txn.lockFirst, List.filterMap_cons, List.filterMap_append, hcolumns,
    stmtSeen, List.filterMap_nil]
  congr 2
  split <;> simp_all [stmtSeen]

theorem flags_withColumns (t : TableObs) (gs : List AddColumn) (notNull : Bool) (column : String) :
    ((t.withColumns gs notNull).columns[column]?).map (·.notNull) =
      if column ∈ gs.map (·.column) then some notNull
      else (t.columns[column]?).map (·.notNull) := by
  have hcovers := withColumns_covers t gs notNull
  cases hc : (t.withColumns gs notNull).columns[column]? with
  | none => exact ((hcovers.none_iff column).mp hc).symm
  | some c =>
    obtain ⟨flag, hf, hflag⟩ := hcovers.of_some hc
    rw [Option.map_some, hflag]
    exact hf.symm

variable (lead group) in
/-- The columns of the first step are there, and the others and the checks are as they were. -/
theorem afterAdding_seen (hs : Seen obs r s) (column : String) :
    SeenAt (filling obs r lead group) r
      (Planner.afterAdding (lead.fillColumn r) (group.map (·.fillColumn r)) s) column where
  present := by simp [filling, hs.present]
  flag := by
    have hself : ((filling obs r lead group).table r).columns =
        ((obs.table r).withColumns (missing (obs.table r) group) false).columns := by
      simp [filling, TableObs.withColumns]
    have hmissing : column ∈ (Planner.missingOf (group.map (·.fillColumn r)) s).map
        Planner.FillColumn.column ↔ column ∈ (missing (obs.table r) group).map (·.column) := by
      rw [missing_seen hs, List.map_map]
      rfl
    rw [hself, flags_withColumns]
    change flagSeen (Planner.columnsWith _ false s.column column) = _
    unfold Planner.columnsWith
    split
    next g hfind =>
      have hg : g.column = column := by simpa using List.find?_some hfind
      rw [if_pos (hmissing.mp (hg ▸ List.mem_map_of_mem (List.mem_of_find?_eq_some hfind)))]
      rfl
    next hfind =>
      have hnot : column ∉ (missing (obs.table r) group).map (·.column) := fun hin => by
        obtain ⟨g, hg, hcolumn⟩ := List.mem_map.mp (hmissing.mpr hin)
        exact absurd hcolumn (by simpa using List.find?_eq_none.mp hfind g hg)
      rw [if_neg hnot]
      exact (hs.at column).flag
  check := by simpa [filling, Planner.afterAdding] using hs.check (nnCheck r column)

theorem planSeen_toOption {planned : Except String (List Planner.Txn)} (h : planned ≠ .ok []) :
    planSeen r planned = planned.toOption.map (List.map (txnSeen r)) := by
  cases planned with
  | error why => rfl
  | ok txns =>
    rw [planSeen_ok fun hnil => h (congrArg _ hnil)]
    rfl

/-- What is planned for one after the other, and seen, is what is seen of each. -/
theorem mapM_seen {ε α β γ : Type} {f : α → Option γ} {plan : α → Except ε β} {seen : β → γ}
    {xs : List α} (h : ∀ x ∈ xs, f x = (plan x).toOption.map seen) :
    xs.mapM f = (xs.mapM plan).toOption.map (List.map seen) := by
  induction xs with
  | nil => rfl
  | cons x xs ih =>
    rw [List.mapM_cons, List.mapM_cons, h x List.mem_cons_self,
      ih fun y hy => h y (List.mem_cons_of_mem x hy)]
    cases plan x with
    | error why => rfl
    | ok y =>
      cases xs.mapM plan <;> rfl

theorem map_flatten_seen {ε β γ : Type} {seen : β → γ} (plans : Except ε (List (List β))) :
    (plans.toOption.map (List.map (List.map seen))).map List.flatten =
      (plans.map List.flatten).toOption.map (List.map seen) := by
  cases plans with
  | error why => rfl
  | ok plans => exact congrArg some (List.map_flatten ..).symm

theorem planSetNotNull_ne_nil {column : String} {in_ : Planner.SetNotNull}
    (hcolumn : in_.column = column) (hflag : flagSeen (s.column column) ≠ some true) :
    Planner.planSetNotNull oneStep in_ s ≠ .ok [] := by
  subst hcolumn
  unfold Planner.planSetNotNull
  rcases hcol : s.column in_.column with _ | ⟨type, _ | _⟩
  · simp
  · cases oneStep <;> simp [Planner.throughCheck]
  · exact absurd (by rw [hcol]; rfl) hflag

/-- One scan for the columns, or one for each. -/
theorem planFilledNotNull_seen (hs : Seen obs r s)
    (hstep : oneStep.isSome =
      (env.constraintTraits (filling obs r lead group) r).refusesValidate) :
    planFilledNotNull env (filling obs r lead group) r lead (pending (obs.table r) group) =
      ((Planner.setAllNotNull (lead.fillColumn r) (group.map (·.fillColumn r)) oneStep
        (Planner.pendingOf (group.map (·.fillColumn r)) s) s).toOption).map
          (List.map (txnSeen r)) := by
  rw [planFilledNotNull, Planner.setAllNotNull, pending_seen hs, List.length_map, ← hstep]
  have hguard : (1 < (pending (obs.table r) group).length && !oneStep.isSome) = true ↔
      1 < (pending (obs.table r) group).length ∧ oneStep = none := by
    cases oneStep <;> simp
  by_cases h : 1 < (pending (obs.table r) group).length ∧ oneStep = none
  · rw [if_pos h, if_pos (hguard.mpr h)]
    have hcheck : (s.check (nnCheck r lead.column)).map Planner.Check.valid =
        (((filling obs r lead group).table r).constraints[nnCheck r lead.column]?).map
          (·.validated) := by
      simpa [filling] using hs.check (nnCheck r lead.column)
    have hcolumns : ((pending (obs.table r) group).map (·.fillColumn r)).map
        Planner.FillColumn.column = (pending (obs.table r) group).map (·.column) := by
      rw [List.map_map]
      rfl
    have hrecipe := notNullRecipe_seen (r := r) hcheck
      ((pending (obs.table r) group).map (·.column)) false
    rw [← hcolumns] at hrecipe
    rw [← hcolumns]
    exact (congrArg some hrecipe).symm
  · rw [if_neg h, if_neg fun hb => h (hguard.mp hb)]
    have heach : ∀ g ∈ pending (obs.table r) group,
        planSetNotNull env (filling obs r lead group) r g.column false =
          (Planner.planSetNotNull oneStep
            { schema := r.schema, table := r.name, column := g.column }
            (Planner.afterAdding (lead.fillColumn r) (group.map (·.fillColumn r))
              s)).toOption.map (List.map (txnSeen r)) := by
      intro g hg
      have hat := afterAdding_seen lead group hs g.column
      obtain ⟨col, hcol, hnull⟩ : NullableIn ((filling obs r lead group).table r) g.column :=
        nullable_filling hg
      rw [planSetNotNull_seen hat hstep, planSeen_toOption]
      refine planSetNotNull_ne_nil rfl ?_
      rw [hat.flag, hcol]
      simp [hnull]
    rw [mapM_seen heach, List.mapM_map]
    change _ = Option.map _ (Except.toOption (Except.map List.flatten (List.mapM
      (fun g : AddColumn => Planner.planSetNotNull oneStep
        { schema := r.schema, table := r.name, column := g.column }
        (Planner.afterAdding (lead.fillColumn r) (group.map (·.fillColumn r)) s)) _)))
    exact map_flatten_seen _

variable (group) in
/-- The walks are along the same key, or refused. -/
theorem walks_seen {key : String} {columns : List AddColumn} {after : Observations}
    (hwalk : ∀ w ∈ walks r key columns, env.walkable after r w =
      (Planner.whichFillWalk (lead.fillColumn r) conf s key).isOk) :
    (((Planner.passes (columns.map (·.fillColumn r))).mapM fun p =>
        (Planner.whichFillWalk (lead.fillColumn r) conf s key).map fun choice =>
          Planner.walkTxn (lead.fillColumn r) (group.map (·.fillColumn r)) choice p).toOption).map
        (List.map (txnSeen r)) =
      if (walks r key columns).all (env.walkable after r) then
        some ((walks r key columns).map fun _ => Step.applying [.other]) else none := by
  rw [walks] at hwalk ⊢
  revert hwalk
  cases Planner.passes (columns.map (·.fillColumn r)) with
  | nil => exact fun _ => rfl
  | cons p ps =>
    intro hwalk
    cases hchoice : Planner.whichFillWalk (lead.fillColumn r) conf s key with
    | error why =>
      rw [hchoice] at hwalk
      have hfirst := hwalk (walkOf key p) (List.mem_map_of_mem List.mem_cons_self)
      rw [List.map_cons, List.all_cons, hfirst]
      rfl
    | ok choice =>
      rw [hchoice] at hwalk
      have hall : (((p :: ps).map (walkOf key)).all (env.walkable after r)) = true :=
        List.all_eq_true.mpr fun w hw => hwalk w hw
      have hplanned := List.mapM_pure (m := Except String) (l := p :: ps) (f := fun p =>
        Planner.walkTxn (lead.fillColumn r) (group.map (·.fillColumn r)) choice p)
      rw [if_pos hall]
      refine (congrArg (fun plan => (Except.toOption plan).map (List.map (txnSeen r)))
        hplanned).trans ?_
      change some (((p :: ps).map _).map (txnSeen r)) = some (((p :: ps).map _).map _)
      rw [List.map_map, List.map_map]
      rfl

/-- The first step is left out where the columns and the trigger are there. -/
theorem added_seen (hs : Seen obs r s) :
    (if Planner.missingOf (group.map (·.fillColumn r)) s = [] ∧
        s.trigger (lead.fillColumn r).filler = true then []
      else [Planner.addFilled (lead.fillColumn r) (group.map (·.fillColumn r)) s]).map
        (txnSeen r) =
      if (missing (obs.table r) group).isEmpty &&
          decide (fillTrigger r lead ∈ (obs.table r).triggers) then []
      else
        [.applying ((missing (obs.table r) group).flatMap
            (fun g => [.alter r (.addColumn g.bare), .other]) ++ [.other] ++
          if decide (fillTrigger r lead ∈ (obs.table r).triggers) then [] else [.other])] := by
  have htrigger : s.trigger (lead.fillColumn r).filler =
      decide (fillTrigger r lead ∈ (obs.table r).triggers) := hs.trigger _
  have hadded := addFilled_seen lead group hs
  rw [missing_seen hs, htrigger]
  by_cases h : (missing (obs.table r) group).isEmpty = true ∧
      fillTrigger r lead ∈ (obs.table r).triggers
  · rw [if_pos (by simpa using h), if_pos (by simpa using h)]
    rfl
  · rw [if_neg (by simpa using h), if_neg (by simpa using h), List.map_singleton, hadded]
    simp only [decide_eq_true_eq]

theorem dropAfter_seen :
    (lead.fillColumn r).dropAfter = decide (lead.after = some .dropTrigger) := by
  rw [Planner.FillColumn.dropAfter, decide_eq_decide]
  exact text_after (b := some .dropTrigger)

/-- The trigger goes last, or stays. -/
theorem dropped_seen :
    (if (lead.fillColumn r).dropAfter = true then
        [Planner.dropFiller (lead.fillColumn r)] else []).map (txnSeen r) =
      if lead.after = some .dropTrigger then [.applying [.other, .other]] else [] := by
  rw [dropAfter_seen]
  by_cases h : lead.after = some .dropTrigger
  · rw [if_pos (decide_eq_true h), if_pos h]
    rfl
  · rw [if_neg (by simpa using h), if_neg h]
    rfl

/-- A group with a fill is planned by the same steps. -/
theorem planAddColumnsFilled_seen {rest : List AddColumn} (hs : Seen obs r s)
    (hconf : conf.requiredGroup = env.confinement obs r)
    (hstep : oneStep.isSome =
      (env.constraintTraits (filling obs r lead (lead :: rest)) r).refusesValidate)
    (hwalk : ∀ key, ∀ w ∈ walks r key (pending (obs.table r) (lead :: rest)),
      env.walkable (filling obs r lead (lead :: rest)) r w =
        (Planner.whichFillWalk (lead.fillColumn r) conf s key).isOk) :
    planAddColumnsFilled env obs r lead rest =
      planSeen r (Planner.planAddColumnsFilled (lead.fillColumn r)
        ((lead :: rest).map (·.fillColumn r)) oneStep conf s) := by
  have htype := otherType_seen lead (lead :: rest) hs
  have htrigger : s.trigger (lead.fillColumn r).filler =
      decide (fillTrigger r lead ∈ (obs.table r).triggers) := hs.trigger _
  have hflags := planFilledNotNull_seen hs hstep
  unfold planAddColumnsFilled Planner.planAddColumnsFilled
  simp only [hs.present, Bool.not_true, Bool.false_eq_true, if_false]
  cases hother : Planner.otherType (lead.fillColumn r) ((lead :: rest).map (·.fillColumn r)) s with
  | some why =>
    rw [hother, Option.isSome_some] at htype
    rw [if_pos htype.symm]
    rfl
  | none =>
    rw [hother, Option.isSome_none] at htype
    rw [if_neg (by rw [← htype]; exact Bool.false_ne_true)]
    dsimp only
    rw [pending_seen hs] at hflags ⊢
    by_cases hpending : pending (obs.table r) (lead :: rest) = []
    · have hempty : (pending (obs.table r) (lead :: rest)).isEmpty = true := by rw [hpending]; rfl
      have hnone : (pending (obs.table r) (lead :: rest)).map (·.fillColumn r) = [] := by
        rw [hpending]; rfl
      rw [if_pos hempty, if_pos hnone, dropAfter_seen, htrigger]
      split <;> rfl
    · have hsome : ¬(pending (obs.table r) (lead :: rest)).isEmpty = true := by simpa using hpending
      have hne : (pending (obs.table r) (lead :: rest)).map (·.fillColumn r) ≠ [] := by
        simpa using hpending
      rw [if_neg hsome, if_neg hne, fillKey_seen hs hconf]
      cases hkey : fillKey env obs r lead with
      | none => rfl
      | some key =>
        have hwalks := walks_seen (lead :: rest) (hwalk key)
        change (if _ then (planFilledNotNull env _ r lead _).bind _ else none) =
          planSeen r (Except.bind _ fun walks => Except.bind _ fun last => Except.ok _)
        cases hplanned : (Planner.passes ((pending (obs.table r) (lead :: rest)).map
            (·.fillColumn r))).mapM fun p =>
              (Planner.whichFillWalk (lead.fillColumn r) conf s key).map fun choice =>
                Planner.walkTxn (lead.fillColumn r) ((lead :: rest).map (·.fillColumn r)) choice
                  p with
        | error why =>
          rw [hplanned] at hwalks
          by_cases hall : (walks r key (pending (obs.table r) (lead :: rest))).all
              (env.walkable (filling obs r lead (lead :: rest)) r) = true
          · rw [if_pos hall] at hwalks
            cases hwalks
          · rw [if_neg hall]
            rfl
        | ok walked =>
          rw [hplanned] at hwalks
          by_cases hall : (walks r key (pending (obs.table r) (lead :: rest))).all
              (env.walkable (filling obs r lead (lead :: rest)) r) = true
          · rw [if_pos hall] at hwalks ⊢
            have hwalked : walked.map (txnSeen r) = _ := Option.some.inj hwalks
            have hnull : ∀ g ∈ pending (obs.table r) (lead :: rest),
                NullableIn ((filling obs r lead (lead :: rest)).table r) g.column :=
              fun g hg => nullable_filling hg
            cases hlast : Planner.setAllNotNull (lead.fillColumn r)
                ((lead :: rest).map (·.fillColumn r)) oneStep
                ((pending (obs.table r) (lead :: rest)).map (·.fillColumn r)) s with
            | error why =>
              rw [hflags, hlast]
              rfl
            | ok last =>
              rw [hlast] at hflags
              have hlast : last.map (txnSeen r) ≠ [] :=
                (planFilledNotNull_apply hpending hnull hflags).1.1
              rw [hflags]
              change some _ = planSeen r (.ok _)
              rw [planSeen_ok]
              · rw [List.map_append, List.map_append, List.map_append, added_seen hs, hwalked,
                  dropped_seen]
              · intro hnil
                simp only [List.append_eq_nil_iff] at hnil
                exact hlast (by rw [hnil.1.2]; rfl)
          · rw [if_neg hall] at hwalks
            cases hwalks

end Filled

end Projection
end Laswell
