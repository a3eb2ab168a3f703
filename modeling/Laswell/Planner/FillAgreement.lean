import Mathlib.Logic.Function.Basic
import Mathlib.Data.List.Pairwise
import Laswell.Planner.Fill
import Laswell.Planner.WalkChoice

/-!
# Laswell.Planner.FillAgreement

What the passes leave in a row that was there, and what the trigger makes of one that is written.
Values have types: a COALESCE takes all it is given to one type, and what comes of it is taken to the
column's.

* `triggerRow`: column after column, over the row as it is filled so far.
* `backfillRow`: pass after pass, each over the row as it was, where the walk comes by it; the
  trigger runs on every update.
* `fills_agree`: the two end in the same row, where the fills name what they read and their types
  come to the column's in the same way.
-/

namespace Laswell
namespace Planner

/-- `none` is NULL. -/
abbrev FillRow (V : Type) := String → Option V

/-- What the server takes for a column from a source, over a row that is stored and over the
`SELECT NEW.*` of a trigger, and of which type; the type it finds for a COALESCE; how a value is
taken to that type in an expression, to a column's by UPDATE, and to a column's by PL/pgSQL's INTO;
and whether a value of a column is greater than what it reads the text "0" as. What is `none` is
refused. -/
structure Server (V T : Type) where
  stored : FillColumn → FillSource → FillRow V → Option V
  inNew : FillColumn → FillSource → FillRow V → Option V
  storedType : FillColumn → FillSource → T
  inNewType : FillColumn → FillSource → T
  columnType : FillColumn → T
  common : List T → Option T
  cast : T → T → V → Option V
  assign : T → T → V → Option V
  assignInto : T → T → V → Option V
  behindZero : String → V → Bool

section Model

variable {V T : Type} (sv : Server V T)

namespace Server

/-- The first value there is, as the type that is found for all. -/
def coalesce (args : List (T × Option V)) : Option (T × Option V) := do
  let t ← sv.common (args.map Prod.fst)
  match args.findSome? fun arg => arg.2.map fun v => (arg.1, v) with
  | none => some (t, none)
  | some (from_, v) => (sv.cast from_ t v).map fun w => (t, some w)

/-- `fillExpression`, over `NEW`. -/
def fillValue (g : FillColumn) (new : FillRow V) : Option (T × Option V) :=
  match g.sources with
  | [src] => some (sv.inNewType g src, sv.inNew g src new)
  | sources => sv.coalesce (sources.map fun src => (sv.inNewType g src, sv.inNew g src new))

/-- `Pass.setTerm`, over a row that is stored. -/
def setValue (isSimple : Bool) (g : FillColumn) (src : FillSource) (row : FillRow V) :
    Option (T × Option V) :=
  if isSimple then some (sv.storedType g src, sv.stored g src row)
  else sv.coalesce
    [(sv.columnType g, row g.column), (sv.storedType g src, sv.stored g src row)]

end Server

/-- To a column's type. NULL is NULL of every type. -/
def toColumn (assigns : T → T → V → Option V) (columnType : T) :
    T × Option V → Option (Option V)
  | (_, none) => some none
  | (t, some v) => (assigns t columnType v).map some

/-- `fillIf` -/
def fillStep (new : FillRow V) (g : FillColumn) : Option (FillRow V) :=
  match new g.column with
  | some _ => some new
  | none => do
    let value ← sv.fillValue g new
    let v ← toColumn sv.assignInto (sv.columnType g) value
    some (Function.update new g.column v)

/-- `triggerBody` -/
def triggerRow (group : List FillColumn) (new : FillRow V) : Option (FillRow V) :=
  group.foldlM (fillStep sv) new

namespace Pass

variable (p : Pass)

def valueOf (row : FillRow V) (g : FillColumn) : Option V :=
  (p.source g).bind fun src => sv.stored g src row

/-- `where_`; a row the source is not found for is not joined. -/
def takes (row : FillRow V) : Bool :=
  p.columns.any fun g => (row g.column).isNone && (!p.joined || (p.valueOf sv row g).isSome)

def setTo (isSimple : Bool) (row : FillRow V) (g : FillColumn) : Option (Option V) := do
  let src ← p.source g
  let value ← sv.setValue isSimple g src row
  toColumn sv.assign (sv.columnType g) value

/-- Every column of the pass, from the row as it was. -/
def setRow (isSimple : Bool) (row : FillRow V) : Option (FillRow V) :=
  p.columns.foldlM (fun new g =>
    (p.setTo sv isSimple row g).map fun v => Function.update new g.column v) row

/-- The statement has a type for each of its COALESCEs. -/
def parses (isSimple : Bool) : Bool :=
  isSimple || p.columns.all fun g => (p.source g).any fun src =>
    (sv.common [sv.columnType g, sv.storedType g src]).isSome

end Pass

/-- `none` is one statement over the whole table. -/
def reaches (walk : Option WalkChoice) (row : FillRow V) : Bool :=
  walk.all fun choice =>
    choice.meets (fun c => (row c).isNone) fun c => (row c).any (sv.behindZero c)

variable (walk : Option WalkChoice) (group : List FillColumn)

def passRow (isSimple : Bool) (row : FillRow V) (p : Pass) : Option (FillRow V) :=
  if p.parses sv isSimple then
    if reaches sv walk row && p.takes sv row then
      (p.setRow sv isSimple row).bind (triggerRow sv group)
    else some row
  else none

def backfillRow (pending : List FillColumn) (row : FillRow V) : Option (FillRow V) :=
  (passes pending).foldlM (passRow sv walk group (simple pending)) row

/-! ## What comes of a value -/

namespace Server

/-- The type of `fillExpression`. -/
def fillType (g : FillColumn) : Option T :=
  match g.sources with
  | [src] => some (sv.inNewType g src)
  | sources => sv.common (sources.map (sv.inNewType g))

/-- A source's value, by the trigger. -/
def byTrigger (g : FillColumn) (src : FillSource) (v : V) : Option V := do
  let t ← sv.fillType g
  let w ← if g.sources.length = 1 then some v else sv.cast (sv.inNewType g src) t v
  sv.assignInto t (sv.columnType g) w

/-- A source's value, by its pass. -/
def byPass (isSimple : Bool) (g : FillColumn) (src : FillSource) (v : V) : Option V :=
  if isSimple then sv.assign (sv.storedType g src) (sv.columnType g) v
  else do
    let t ← sv.common [sv.columnType g, sv.storedType g src]
    let w ← sv.cast (sv.storedType g src) t v
    sv.assign t (sv.columnType g) w

/-- A value that is there, by a pass that sets its column with others. -/
def rewritten (g : FillColumn) (src : FillSource) (v : V) : Option V := do
  let t ← sv.common [sv.columnType g, sv.storedType g src]
  let w ← sv.cast (sv.columnType g) t v
  sv.assign t (sv.columnType g) w

end Server

/-- No pass that has another column makes another value of it. -/
def Unharmed (pending : List FillColumn) (c : String) (v : V) : Prop :=
  ∀ p ∈ passes pending, ∀ g ∈ p.columns, g.column = c → (∃ h ∈ p.columns, h.column ≠ c) →
    ∀ src, p.source g = some src → sv.rewritten g src v = some v

end Model

section Values

variable {V T : Type} {sv : Server V T} {p : Pass} {row new : FillRow V} {g : FillColumn}
  {src : FillSource} {v : V}

theorem coalesce_map {α : Type} {types : α → T} {values : α → Option V} (xs : List α) :
    sv.coalesce (xs.map fun x => (types x, values x)) =
      (sv.common (xs.map types)).bind fun t =>
        match xs.findSome? fun x => (values x).map fun v => (x, v) with
        | none => some (t, none)
        | some (x, v) => (sv.cast (types x) t v).map fun w => (t, some w) := by
  have hfind : ((xs.map fun x => (types x, values x)).findSome? fun arg =>
      arg.2.map fun v => (arg.1, v)) =
      (xs.findSome? fun x => (values x).map fun v => (x, v)).map fun given =>
        (types given.1, given.2) := by
    induction xs with
    | nil => rfl
    | cons x xs ih =>
      rw [List.map_cons, List.findSome?_cons, List.findSome?_cons, ih]
      cases values x with
      | none => rfl
      | some v => rfl
  unfold Server.coalesce
  rw [hfind, List.map_map]
  refine congrArg _ (funext fun t => ?_)
  cases xs.findSome? fun x => (values x).map fun v => (x, v) with
  | none => rfl
  | some given => rfl

/-- The trigger makes the same of a column's fill as of the first value that a source gives. -/
theorem fillValue_toColumn {t : T} (ht : sv.fillType g = some t) :
    ((sv.fillValue g new).bind (toColumn sv.assignInto (sv.columnType g))) =
      match g.sources.findSome? fun src => (sv.inNew g src new).map fun v => (src, v) with
      | none => some none
      | some (src, v) => (sv.byTrigger g src v).map some := by
  unfold Server.fillValue Server.byTrigger
  rw [ht]
  unfold Server.fillType at ht
  split
  · rename_i src hsources
    rw [hsources] at ht ⊢
    cases ht
    rw [List.findSome?_cons]
    cases sv.inNew g src new with
    | none => rfl
    | some v => simp [toColumn]
  · rename_i hmany
    have hlength : g.sources.length ≠ 1 := fun h => by
      obtain ⟨src, hsrc⟩ := List.length_eq_one_iff.mp h
      exact hmany src hsrc
    split at ht
    · rename_i src hsrc
      exact absurd hsrc (hmany src)
    · rw [coalesce_map, ht]
      cases g.sources.findSome? fun src => (sv.inNew g src new).map fun v => (src, v) with
      | none => rfl
      | some given =>
        simp only [if_neg hlength, Option.bind_some, Option.bind_eq_bind]
        cases sv.cast (sv.inNewType g given.1) t given.2 with
        | none => rfl
        | some w => rfl

/-- A value that is there is rewritten. -/
theorem setTo_there (hsrc : p.source g = some src) (hv : row g.column = some v) :
    p.setTo sv false row g = (sv.rewritten g src v).map some := by
  unfold Pass.setTo Server.setValue Server.rewritten Server.coalesce
  rw [hsrc, hv]
  simp only [Option.bind_eq_bind, Option.bind_some, List.map_cons, List.map_nil,
    List.findSome?_cons, Option.map_some, Bool.false_eq_true, if_false]
  cases sv.common [sv.columnType g, sv.storedType g src] with
  | none => rfl
  | some t =>
    simp only [Option.bind_some]
    cases sv.cast (sv.columnType g) t v with
    | none => rfl
    | some w => rfl

/-- Where there is none, the source's value is taken. -/
theorem setTo_given {isSimple : Bool} (hsrc : p.source g = some src) (hnull : row g.column = none)
    (hv : sv.stored g src row = some v) :
    p.setTo sv isSimple row g = (sv.byPass isSimple g src v).map some := by
  unfold Pass.setTo Server.setValue Server.byPass Server.coalesce
  rw [hsrc, Option.bind_eq_bind, Option.bind_some, hnull, hv]
  cases isSimple with
  | true => rfl
  | false =>
    simp only [Option.bind_eq_bind, List.map_cons, List.map_nil, List.findSome?_cons,
      Option.map_some, Option.map_none, Bool.false_eq_true, if_false]
    cases sv.common [sv.columnType g, sv.storedType g src] with
    | none => rfl
    | some t =>
      simp only [Option.bind_some]
      cases sv.cast (sv.storedType g src) t v with
      | none => rfl
      | some w => rfl

theorem setTo_null {isSimple : Bool} (hparses : p.parses sv isSimple = true) (hg : g ∈ p.columns)
    (hsrc : p.source g = some src) (hnull : row g.column = none)
    (hv : sv.stored g src row = none) : p.setTo sv isSimple row g = some none := by
  unfold Pass.setTo Server.setValue Server.coalesce
  rw [hsrc, Option.bind_eq_bind, Option.bind_some, hnull, hv]
  cases isSimple with
  | true => rfl
  | false =>
    have hsome := List.all_eq_true.mp hparses g hg
    rw [hsrc, Option.any_some, Option.isSome_iff_exists] at hsome
    obtain ⟨t, ht⟩ := hsome
    simp [ht, toColumn]

end Values

/-! ## What is there stays -/

section Kept

variable {V T : Type} {sv : Server V T} {walk : Option WalkChoice}
  {group pending : List FillColumn} {row row' new new' : FillRow V} {p : Pass} {g : FillColumn}
  {c : String} {v : V}

theorem fillStep_kept (hstep : fillStep sv new g = some new') (h : new c = some v) :
    new' c = some v := by
  unfold fillStep at hstep
  split at hstep
  · cases hstep
    exact h
  · rename_i hg
    have hne : c ≠ g.column := by
      intro heq
      rw [heq, hg] at h
      cases h
    simp only [Option.bind_eq_bind, Option.bind_eq_some_iff] at hstep
    obtain ⟨value, -, x, -, hx⟩ := hstep
    cases hx
    exact (Function.update_of_ne hne _ _).trans h

theorem triggerRow_kept (htrigger : triggerRow sv group new = some new') (h : new c = some v) :
    new' c = some v := by
  induction group generalizing new with
  | nil =>
    cases htrigger
    exact h
  | cons g gs ih =>
    unfold triggerRow at htrigger
    rw [List.foldlM_cons, Option.bind_eq_bind, Option.bind_eq_some_iff] at htrigger
    obtain ⟨new₁, hstep, hrest⟩ := htrigger
    exact ih hrest (fillStep_kept hstep h)

theorem foldlM_update {f : FillColumn → Option (Option V)} {gs : List FillColumn}
    {start new : FillRow V}
    (h : gs.foldlM (fun new g => (f g).map fun v => Function.update new g.column v) start =
      some new) (c : String) :
    (c ∉ gs.map FillColumn.column ∧ new c = start c) ∨
    ∃ g ∈ gs, g.column = c ∧ f g = some (new c) := by
  induction gs generalizing start with
  | nil =>
    cases h
    exact .inl ⟨List.not_mem_nil, rfl⟩
  | cons g gs ih =>
    rw [List.foldlM_cons, Option.bind_eq_bind, Option.bind_eq_some_iff] at h
    obtain ⟨start₁, hstep, hrest⟩ := h
    obtain ⟨x, hx, rfl⟩ := Option.map_eq_some_iff.mp hstep
    rcases ih hrest with ⟨hnot, hsame⟩ | ⟨y, hy, hcol, hval⟩
    · by_cases hc : c = g.column
      · refine .inr ⟨g, List.mem_cons_self, hc.symm, hx.trans ?_⟩
        rw [hsame, hc, Function.update_self]
      · refine .inl ⟨?_, hsame.trans (Function.update_of_ne hc _ _)⟩
        rw [List.map_cons, List.mem_cons, not_or]
        exact ⟨hc, hnot⟩
    · exact .inr ⟨y, List.mem_cons_of_mem g hy, hcol, hval⟩

/-- Where the value is set bare, the pass has one column and takes rows that are null in it. -/
theorem simple_null (hsimple : simple pending = true) (hp : p ∈ passes pending)
    (htakes : p.takes sv row = true) (hg : g ∈ p.columns) : row g.column = none := by
  obtain ⟨round, -, hp'⟩ := mem_passes.mp hp
  have honly := (@passesOf_columns pending round).1 p hp'
  obtain ⟨x, hx, hnull⟩ := List.any_eq_true.mp htakes
  match pending, hsimple with
  | [y], _ =>
    have hgy : g = y := List.mem_singleton.mp (honly g hg)
    have hxy : x = y := List.mem_singleton.mp (honly x hx)
    rw [hxy, ← hgy, Bool.and_eq_true] at hnull
    exact Option.isNone_iff_eq_none.mp hnull.1

/-- A pass takes a row for a column that is null in it. -/
theorem takes_other (htakes : p.takes sv row = true) (h : row c = some v) :
    ∃ x ∈ p.columns, x.column ≠ c := by
  obtain ⟨x, hx, hnull⟩ := List.any_eq_true.mp htakes
  refine ⟨x, hx, fun heq => ?_⟩
  rw [heq, h] at hnull
  cases hnull

theorem setTo_kept (hp : p ∈ passes pending) (htakes : p.takes sv row = true) (hg : g ∈ p.columns)
    (h : row g.column = some v) (hunharmed : Unharmed sv pending g.column v) :
    p.setTo sv (simple pending) row g = some (some v) := by
  have hsimple : simple pending = false := by
    rw [Bool.eq_false_iff]
    intro hsimple
    rw [simple_null hsimple hp htakes hg] at h
    cases h
  obtain ⟨round, -, hp'⟩ := mem_passes.mp hp
  obtain ⟨hround, hsources⟩ := mem_passesOf hp'
  obtain ⟨src, hsrc, -⟩ := hsources g hg
  rw [← hround] at hsrc
  rw [hsimple, setTo_there hsrc h,
    hunharmed p hp g hg rfl (takes_other htakes h) src hsrc]
  rfl

theorem passRow_kept (hp : p ∈ passes pending) (h : row c = some v)
    (hunharmed : Unharmed sv pending c v)
    (hpass : passRow sv walk group (simple pending) row p = some row') : row' c = some v := by
  unfold passRow at hpass
  split at hpass
  · split at hpass
    · rename_i htaken
      have htakes : p.takes sv row = true := (Bool.and_eq_true_iff.mp htaken).2
      obtain ⟨new, hset, htrigger⟩ := Option.bind_eq_some_iff.mp hpass
      refine triggerRow_kept htrigger ?_
      rcases foldlM_update hset c with ⟨-, hsame⟩ | ⟨g, hg, rfl, hval⟩
      · exact hsame.trans h
      · rw [setTo_kept hp htakes hg h hunharmed] at hval
        exact (Option.some.inj hval).symm
    · cases hpass
      exact h
  · cases hpass

theorem backfillRow_kept (h : row c = some v) (hunharmed : Unharmed sv pending c v)
    (hbackfill : backfillRow sv walk group pending row = some row') : row' c = some v := by
  have hfold : ∀ (ps : List Pass), (∀ p ∈ ps, p ∈ passes pending) → ∀ row : FillRow V,
      row c = some v → ps.foldlM (passRow sv walk group (simple pending)) row = some row' →
      row' c = some v := by
    intro ps
    induction ps with
    | nil =>
      intro _ row h hrow
      cases hrow
      exact h
    | cons p ps ih =>
      intro hps row h hrow
      rw [List.foldlM_cons, Option.bind_eq_bind, Option.bind_eq_some_iff] at hrow
      obtain ⟨row₁, hpass, hrest⟩ := hrow
      exact ih (fun q hq => hps q (List.mem_cons_of_mem p hq)) row₁
        (passRow_kept (hps p List.mem_cons_self) h hunharmed hpass) hrest
  exact hfold (passes pending) (fun _ hp => hp) row h hbackfill

end Kept

/-! ## The row that is filled -/

section Agreement

variable {V T : Type} (sv : Server V T) (group : List FillColumn)

/-- The first source with a value, and the value. -/
def firstGiven (g : FillColumn) (row : FillRow V) : Option (FillSource × V) :=
  g.sources.findSome? fun src => (sv.stored g src row).map fun v => (src, v)

def fillOf (g : FillColumn) (row : FillRow V) : Option V :=
  (firstGiven sv g row).bind fun given => sv.byTrigger g given.1 given.2

/-- Each column that is null from its own sources, over the row as it was. -/
def filledRow (row : FillRow V) : FillRow V := fun c =>
  (row c).or ((group.find? fun g => decide (g.column = c)).bind fun g => fillOf sv g row)

/-- Some of the columns filled. -/
def Partly (row row' : FillRow V) : Prop :=
  ∀ c, row' c = row c ∨ row' c = filledRow sv group row c

/-- A fill that reads another column of the group has its name as a word in it, and comes to the
same over `NEW` as over a row that is stored. -/
structure Spelled (row : FillRow V) : Prop where
  stored : ∀ g ∈ group, ∀ src ∈ g.sources, ∀ row', Partly sv group row row' →
    row' g.column = none →
    (∀ h ∈ group, namesWord g.fillText h.column = true → row' h.column = row h.column) →
    sv.stored g src row' = sv.stored g src row
  inNew : ∀ g ∈ group, ∀ src ∈ g.sources, ∀ row', Partly sv group row row' →
    row' g.column = none → sv.inNew g src row' = sv.stored g src row'

/-- No source of a column depends on whether others are filled. -/
structure Steady (row : FillRow V) : Prop where
  stored : ∀ g ∈ group, ∀ src ∈ g.sources, ∀ row', Partly sv group row row' →
    row' g.column = none → sv.stored g src row' = sv.stored g src row
  inNew : ∀ g ∈ group, ∀ src ∈ g.sources, ∀ row', Partly sv group row row' →
    row' g.column = none → sv.inNew g src row' = sv.stored g src row

/-- The trigger's COALESCEs and the passes' have types, the first value that a source gives a column
comes to the column's type by the trigger as it does by its pass, and no pass makes another value of
one that is there. -/
structure Typed (pending : List FillColumn) (row : FillRow V) : Prop where
  written : ∀ g ∈ group, row g.column = none → (sv.fillType g).isSome = true
  parsed : ∀ p ∈ passes pending, p.parses sv (simple pending) = true
  given : ∀ g ∈ group, row g.column = none → ∀ src v, firstGiven sv g row = some (src, v) →
    ∃ x, sv.byTrigger g src v = some x ∧
      (g ∈ pending → sv.byPass (simple pending) g src v = some x)
  unharmed : ∀ g ∈ pending, ∀ v, filledRow sv group row g.column = some v →
    Unharmed sv pending g.column v

/-- The walk comes by a row that there is a value for. -/
def Reached (walk : Option WalkChoice) (row : FillRow V) : Prop :=
  (∃ g ∈ group, row g.column = none ∧ ∃ src ∈ g.sources, sv.stored g src row ≠ none) →
    reaches sv walk row = true

end Agreement

section

variable {V T : Type} {sv : Server V T} {walk : Option WalkChoice}
  {group pending : List FillColumn} {row row' : FillRow V} {p : Pass} {g : FillColumn} {c : String}
  {k : Nat}

theorem filledRow_of_some {v : V} (h : row c = some v) : filledRow sv group row c = some v := by
  rw [filledRow, h]
  rfl

theorem filledRow_none (h : filledRow sv group row c = none) : row c = none := by
  cases hc : row c with
  | none => rfl
  | some v =>
    rw [filledRow_of_some hc] at h
    cases h

theorem filledRow_column (hnodup : (group.map FillColumn.column).Nodup) (hg : g ∈ group)
    (hnull : row g.column = none) : filledRow sv group row g.column = fillOf sv g row := by
  rw [filledRow, find_column hnodup hg, hnull]
  rfl

theorem filledRow_other (hc : c ∉ group.map FillColumn.column) :
    filledRow sv group row c = row c := by
  rw [filledRow, find_none hc]
  exact Option.or_none

theorem Partly.null (h : Partly sv group row row') (hc : row' c = none) : row c = none := by
  rcases h c with hsame | hfilled
  · rw [← hsame]
    exact hc
  · exact filledRow_none (hfilled.symm.trans hc)

theorem Partly.there {v : V} (h : Partly sv group row row') (hc : row' c = some v) :
    row' c = filledRow sv group row c := by
  rcases h c with hsame | hfilled
  · rw [filledRow_of_some (hsame.symm.trans hc), hc]
  · exact hfilled

theorem Partly.refl : Partly sv group row row := fun _ => .inl rfl

theorem Partly.filled : Partly sv group row (filledRow sv group row) := fun _ => .inr rfl

theorem Partly.update {x : Option V} (h : Partly sv group row row')
    (hx : x = row c ∨ x = filledRow sv group row c) :
    Partly sv group row (Function.update row' c x) := by
  intro d
  by_cases hd : d = c
  · rw [hd, Function.update_self]
    exact hx
  · rw [Function.update_of_ne hd]
    exact h d

/-! ## The trigger -/

theorem findSome_congr {α β : Type} {f f' : α → Option β} {xs : List α}
    (h : ∀ x ∈ xs, f x = f' x) : xs.findSome? f = xs.findSome? f' := by
  induction xs with
  | nil => rfl
  | cons x xs ih =>
    rw [List.findSome?_cons, List.findSome?_cons, h x List.mem_cons_self,
      ih fun y hy => h y (List.mem_cons_of_mem x hy)]

/-- Each step of the trigger has its column filled. -/
theorem fillStep_partly (hnodup : (group.map FillColumn.column).Nodup)
    (hsteady : Steady sv group row) (htyped : Typed sv group pending row) (hg : g ∈ group)
    (h : Partly sv group row row') :
    fillStep sv row' g =
      some (Function.update row' g.column (filledRow sv group row g.column)) := by
  unfold fillStep
  cases hcol : row' g.column with
  | some v =>
    rw [← h.there hcol, Function.update_eq_self]
  | none =>
    have hnull := h.null hcol
    obtain ⟨t, ht⟩ := Option.isSome_iff_exists.mp (htyped.written g hg hnull)
    have hfirst : (g.sources.findSome? fun src => (sv.inNew g src row').map fun v => (src, v)) =
        firstGiven sv g row :=
      findSome_congr fun src hsrc => by rw [hsteady.inNew g hg src hsrc row' h hcol]
    have hvalue : (sv.fillValue g row').bind (toColumn sv.assignInto (sv.columnType g)) =
        some (filledRow sv group row g.column) := by
      rw [fillValue_toColumn ht, hfirst, filledRow_column hnodup hg hnull, fillOf]
      cases hgiven : firstGiven sv g row with
      | none => rfl
      | some given =>
        obtain ⟨x, hx, -⟩ := htyped.given g hg hnull given.1 given.2 hgiven
        simp [hx]
    simp only [Option.bind_eq_bind]
    rw [← Option.bind_assoc, hvalue]
    rfl

theorem triggerRow_filled (hnodup : (group.map FillColumn.column).Nodup)
    (hsteady : Steady sv group row) (htyped : Typed sv group pending row)
    (h : Partly sv group row row') :
    triggerRow sv group row' = some (filledRow sv group row) := by
  have hfold : ∀ (gs : List FillColumn), (∀ g ∈ gs, g ∈ group) → ∀ row', Partly sv group row row' →
      ∃ new, gs.foldlM (fillStep sv) row' = some new ∧
        (∀ g ∈ gs, new g.column = filledRow sv group row g.column) ∧
        ∀ c, c ∉ gs.map FillColumn.column → new c = row' c := by
    intro gs
    induction gs with
    | nil =>
      exact fun _ row' _ => ⟨row', rfl, fun g hg => absurd hg List.not_mem_nil, fun _ _ => rfl⟩
    | cons g gs ih =>
      intro hgs row' h
      let row₁ := Function.update row' g.column (filledRow sv group row g.column)
      obtain ⟨new, hnew, hall, hkept⟩ := ih (fun x hx => hgs x (List.mem_cons_of_mem g hx)) row₁
        (h.update (.inr rfl))
      refine ⟨new, ?_, fun x hx => ?_, fun c hc => ?_⟩
      · rw [List.foldlM_cons, fillStep_partly hnodup hsteady htyped (hgs g List.mem_cons_self) h]
        exact hnew
      · by_cases hmem : x.column ∈ gs.map FillColumn.column
        · obtain ⟨y, hy, hxy⟩ := List.mem_map.mp hmem
          rw [← hxy]
          exact hall y hy
        · rcases List.mem_cons.mp hx with rfl | hx
          · rw [hkept _ hmem]
            exact Function.update_self _ _ _
          · exact absurd (List.mem_map_of_mem hx) hmem
      · rw [List.map_cons, List.mem_cons, not_or] at hc
        rw [hkept c hc.2]
        exact Function.update_of_ne hc.1 _ _
  obtain ⟨new, hnew, hall, hkept⟩ := hfold group (fun _ hg => hg) row' h
  refine hnew.trans (congrArg some (funext fun c => ?_))
  by_cases hc : c ∈ group.map FillColumn.column
  · obtain ⟨g, hg, rfl⟩ := List.mem_map.mp hc
    exact hall g hg
  · rw [hkept c hc]
    rcases h c with hsame | hfilled
    · rw [hsame, filledRow_other hc]
    · exact hfilled

/-! ## The passes -/

/-- The sources before this one give nothing for what is null. -/
def Exhausted (sv : Server V T) (pending : List FillColumn) (row row' : FillRow V) (k : Nat) :
    Prop :=
  ∀ g ∈ pending, row' g.column = none → ∀ j < k, ∀ src, g.sources[j]? = some src →
    sv.stored g src row = none

theorem findSome_at {α β : Type} {f : α → Option β} {xs : List α} {x : α} {v : β}
    (hx : xs[k]? = some x) (hv : f x = some v)
    (hbefore : ∀ j < k, ∀ y, xs[j]? = some y → f y = none) : xs.findSome? f = some v := by
  induction xs generalizing k with
  | nil => cases hx
  | cons y ys ih =>
    cases k with
    | zero =>
      cases hx
      rw [List.findSome?_cons, hv]
    | succ k =>
      rw [List.findSome?_cons, hbefore 0 (Nat.zero_lt_succ k) y rfl]
      exact ih hx fun j hj z hz => hbefore (j + 1) (Nat.succ_lt_succ hj) z hz

/-- What the first value that is given comes to is not NULL. -/
theorem fillOf_none (htyped : Typed sv group pending row) (hg : g ∈ group)
    (hnull : row g.column = none) (h : fillOf sv g row = none) {src : FillSource}
    (hsrc : src ∈ g.sources) : sv.stored g src row = none := by
  cases hgiven : firstGiven sv g row with
  | none =>
    have hnone := List.findSome?_eq_none_iff.mp hgiven src hsrc
    simpa using hnone
  | some given =>
    obtain ⟨x, hx, -⟩ := htyped.given g hg hnull given.1 given.2 hgiven
    rw [fillOf, hgiven, Option.bind_some, hx] at h
    cases h

theorem exhausted_filled (hnodup : (group.map FillColumn.column).Nodup)
    (htyped : Typed sv group pending row) (hsub : ∀ g ∈ pending, g ∈ group) :
    Exhausted sv pending row (filledRow sv group row) k := by
  intro g hg hnull j _ src hsrc
  have hnull' := filledRow_none hnull
  rw [filledRow_column hnodup (hsub g hg) hnull'] at hnull
  exact fillOf_none htyped (hsub g hg) hnull' hnull (List.mem_of_getElem? hsrc)

/-- A pass that takes the row sets each of its columns to what it is filled with. -/
theorem setTo_partly (hnodup : (group.map FillColumn.column).Nodup)
    (hsteady : Steady sv group row) (htyped : Typed sv group pending row)
    (hsub : ∀ g ∈ pending, g ∈ group) (hk : k < rounds pending)
    (hp : p ∈ passesOf pending k) (hbefore : Exhausted sv pending row row' k)
    (h : Partly sv group row row') (htakes : p.takes sv row' = true) (hg : g ∈ p.columns) :
    ∃ x, p.setTo sv (simple pending) row' g = some x ∧
      (x = row g.column ∨ x = filledRow sv group row g.column) := by
  have hpass : p ∈ passes pending := mem_passes.mpr ⟨k, hk, hp⟩
  have hpending := (@passesOf_columns pending k).1 p hp g hg
  have hgroup := hsub g hpending
  cases hcol : row' g.column with
  | some v =>
    have hfilled := (h.there hcol).symm.trans hcol
    exact ⟨some v, setTo_kept hpass htakes hg hcol (htyped.unharmed g hpending v hfilled),
      .inr hfilled.symm⟩
  | none =>
    have hnull := h.null hcol
    obtain ⟨hround, hsources⟩ := mem_passesOf hp
    obtain ⟨src, hsrc, -⟩ := hsources g hg
    have hsource : p.source g = some src := by
      rw [Pass.source, hround]
      exact hsrc
    have hsame : sv.stored g src row' = sv.stored g src row :=
      hsteady.stored g hgroup src (List.mem_of_getElem? hsrc) row' h hcol
    cases hv : sv.stored g src row with
    | none =>
      exact ⟨none, setTo_null (htyped.parsed p hpass) hg hsource hcol (hsame.trans hv),
        .inl hnull.symm⟩
    | some v =>
      have hgiven : firstGiven sv g row = some (src, v) := by
        refine findSome_at hsrc (by rw [hv]; rfl) fun j hj y hy => ?_
        rw [hbefore g hpending hcol j hj y hy]
        rfl
      obtain ⟨x, htrigger, hsets⟩ := htyped.given g hgroup hnull src v hgiven
      refine ⟨some x, ?_, .inr ?_⟩
      · rw [setTo_given hsource hcol (hsame.trans hv), hsets hpending]
        rfl
      · rw [filledRow_column hnodup hgroup hnull, fillOf, hgiven]
        exact htrigger.symm

theorem foldlM_partly {f : FillColumn → Option (Option V)} {gs : List FillColumn}
    (hf : ∀ g ∈ gs, ∃ x, f g = some x ∧ (x = row g.column ∨ x = filledRow sv group row g.column))
    (h : Partly sv group row row') :
    ∃ new, gs.foldlM (fun new g => (f g).map fun v => Function.update new g.column v) row' =
      some new ∧ Partly sv group row new := by
  induction gs generalizing row' with
  | nil => exact ⟨row', rfl, h⟩
  | cons g gs ih =>
    obtain ⟨x, hx, hval⟩ := hf g List.mem_cons_self
    obtain ⟨new, hnew, hpartly⟩ := ih (fun y hy => hf y (List.mem_cons_of_mem g hy)) (h.update hval)
    refine ⟨new, ?_, hpartly⟩
    rw [List.foldlM_cons, hx]
    exact hnew

/-- The row is filled by the first pass that takes it. -/
theorem passRow_filled (hnodup : (group.map FillColumn.column).Nodup)
    (hsteady : Steady sv group row) (htyped : Typed sv group pending row)
    (hsub : ∀ g ∈ pending, g ∈ group) (hk : k < rounds pending)
    (hp : p ∈ passesOf pending k) (hbefore : Exhausted sv pending row row' k)
    (h : Partly sv group row row') :
    passRow sv walk group (simple pending) row' p = some (filledRow sv group row) ∨
    passRow sv walk group (simple pending) row' p = some row' ∧
      (reaches sv walk row' = true →
        ∀ g ∈ p.columns, row' g.column = none → p.valueOf sv row' g = none) := by
  have hparses := htyped.parsed p (mem_passes.mpr ⟨k, hk, hp⟩)
  unfold passRow
  rw [if_pos hparses]
  split
  · rename_i htaken
    have htakes : p.takes sv row' = true := (Bool.and_eq_true_iff.mp htaken).2
    obtain ⟨new, hset, hpartly⟩ := foldlM_partly (fun g hg =>
      setTo_partly hnodup hsteady htyped hsub hk hp hbefore h htakes hg) h
    left
    unfold Pass.setRow
    rw [hset]
    exact triggerRow_filled hnodup hsteady htyped hpartly
  · rename_i hnot
    refine .inr ⟨rfl, fun hreaches g hg hnull => ?_⟩
    rw [hreaches, Bool.true_and] at hnot
    have hg' := List.any_eq_false.mp (Bool.not_eq_true _ ▸ hnot) g hg
    rw [hnull] at hg'
    cases hv : p.valueOf sv row' g with
    | none => rfl
    | some v => simp [hv] at hg'

theorem foldlM_filled (hnodup : (group.map FillColumn.column).Nodup)
    (hsteady : Steady sv group row) (htyped : Typed sv group pending row)
    (hsub : ∀ g ∈ pending, g ∈ group) (hk : k < rounds pending)
    {ps : List Pass} (hps : ∀ p ∈ ps, p ∈ passesOf pending k) :
    ps.foldlM (passRow sv walk group (simple pending)) (filledRow sv group row) =
      some (filledRow sv group row) := by
  induction ps with
  | nil => rfl
  | cons p ps ih =>
    have hfilled : passRow sv walk group (simple pending) (filledRow sv group row) p =
        some (filledRow sv group row) := by
      rcases passRow_filled hnodup hsteady htyped hsub hk (hps p List.mem_cons_self)
        (exhausted_filled hnodup htyped hsub) Partly.filled with h | h
      · exact h
      · exact h.1
    rw [List.foldlM_cons, hfilled]
    exact ih fun q hq => hps q (List.mem_cons_of_mem p hq)

/-- A round either fills the row or has no value for it. -/
theorem round_filled (hnodup : (group.map FillColumn.column).Nodup)
    (hsteady : Steady sv group row) (htyped : Typed sv group pending row)
    (hreached : Reached sv group walk row) (hsub : ∀ g ∈ pending, g ∈ group)
    (hk : k < rounds pending) (hbefore : Exhausted sv pending row row k) :
    (passesOf pending k).foldlM (passRow sv walk group (simple pending)) row =
      some (filledRow sv group row) ∨
    (passesOf pending k).foldlM (passRow sv walk group (simple pending)) row = some row ∧
      Exhausted sv pending row row (k + 1) := by
  have hfold : ∀ (ps : List Pass), (∀ p ∈ ps, p ∈ passesOf pending k) →
      ps.foldlM (passRow sv walk group (simple pending)) row = some (filledRow sv group row) ∨
      ps.foldlM (passRow sv walk group (simple pending)) row = some row ∧
        (reaches sv walk row = true →
          ∀ p ∈ ps, ∀ g ∈ p.columns, row g.column = none → p.valueOf sv row g = none) := by
    intro ps
    induction ps with
    | nil => exact fun _ => .inr ⟨rfl, fun _ p hp => absurd hp List.not_mem_nil⟩
    | cons p ps ih =>
      intro hps
      have hps' : ∀ q ∈ ps, q ∈ passesOf pending k := fun q hq => hps q (List.mem_cons_of_mem p hq)
      rw [List.foldlM_cons]
      rcases passRow_filled hnodup hsteady htyped hsub hk (hps p List.mem_cons_self) hbefore
        Partly.refl with h | ⟨h, hnone⟩
      · rw [h]
        exact .inl (foldlM_filled hnodup hsteady htyped hsub hk hps')
      · rw [h]
        refine (ih hps').imp_right fun ⟨hsame, hrest⟩ => ⟨hsame, fun hreaches q hq => ?_⟩
        rcases List.mem_cons.mp hq with rfl | hq
        · exact hnone hreaches
        · exact hrest hreaches q hq
  refine (hfold (passesOf pending k) fun _ hp => hp).imp_right fun ⟨hsame, hnone⟩ =>
    ⟨hsame, fun g hg hnull j hj src hsrc => ?_⟩
  rcases Nat.lt_succ_iff_lt_or_eq.mp hj with hj | rfl
  · exact hbefore g hg hnull j hj src hsrc
  · by_contra hvalue
    have hreaches := hreached ⟨g, hsub g hg, hnull, src, List.mem_of_getElem? hsrc, hvalue⟩
    have hsome : (g.sources[j]?).isSome = true := by
      rw [hsrc]
      rfl
    obtain ⟨p, hp, hgp⟩ := (@passesOf_columns pending j).2 g hg hsome
    have hnone' := hnone hreaches p hp g hgp hnull
    rw [Pass.valueOf, Pass.source, (mem_passesOf hp).1, hsrc] at hnone'
    exact hvalue hnone'

theorem backfillRow_filled (hnodup : (group.map FillColumn.column).Nodup)
    (hsteady : Steady sv group row) (htyped : Typed sv group pending row)
    (hreached : Reached sv group walk row) (hsub : ∀ g ∈ pending, g ∈ group)
    (hpending : ∀ g ∈ group, g ∈ pending ∨ row g.column ≠ none) :
    backfillRow sv walk group pending row = some (filledRow sv group row) := by
  have hrounds : ∀ n ≤ rounds pending,
      ((List.range n).flatMap (passesOf pending)).foldlM
          (passRow sv walk group (simple pending)) row = some (filledRow sv group row) ∨
      ((List.range n).flatMap (passesOf pending)).foldlM
          (passRow sv walk group (simple pending)) row = some row ∧
        Exhausted sv pending row row n := by
    intro n
    induction n with
    | zero => exact fun _ => .inr ⟨rfl, fun _ _ _ j hj => absurd hj (Nat.not_lt_zero j)⟩
    | succ n ih =>
      intro hn
      rw [List.range_succ, List.flatMap_append, List.foldlM_append, List.flatMap_singleton]
      rcases ih (Nat.le_of_succ_le hn) with h | ⟨h, hbefore⟩
      · rw [h]
        exact .inl (foldlM_filled hnodup hsteady htyped hsub hn fun _ hp => hp)
      · rw [h]
        exact round_filled hnodup hsteady htyped hreached hsub hn hbefore
  rcases hrounds (rounds pending) (Nat.le_refl _) with h | ⟨h, hnone⟩
  · exact h
  -- no pass took the row: there is no value for what is null in it
  refine h.trans (congrArg some (funext fun c => ?_))
  cases hc : row c with
  | some v => exact (filledRow_of_some hc).symm
  | none =>
    by_cases hmem : c ∈ group.map FillColumn.column
    · obtain ⟨g, hg, rfl⟩ := List.mem_map.mp hmem
      have hp : g ∈ pending := (hpending g hg).resolve_right fun hne => hne hc
      have hgiven : firstGiven sv g row = none := by
        refine List.findSome?_eq_none_iff.mpr fun src hsrc => ?_
        obtain ⟨j, hj⟩ := List.mem_iff_getElem?.mp hsrc
        have hlt : j < rounds pending :=
          Nat.lt_of_lt_of_le (List.getElem?_eq_some_iff.mp hj).1 (length_le_rounds hp)
        rw [hnone g hp hc j hlt src hj]
        rfl
      rw [filledRow_column hnodup hg hc, fillOf, hgiven]
      rfl
    · rw [filledRow_other hmem, hc]

/-! ## The fills of a group -/

theorem growGroup_apart {lead : FillColumn} {rest : List (Option FillColumn)} {gs : List FillColumn}
    (h : gs.Pairwise fun g x => entangled g x = false) :
    (growGroup lead gs rest).Pairwise fun g x => entangled g x = false := by
  induction rest generalizing gs with
  | nil => exact h
  | cons next rest ih =>
    cases next with
    | none => exact h
    | some next =>
      rw [growGroup]
      split
      · rename_i hjoins
        rw [Bool.and_eq_true, Bool.not_eq_true', List.any_eq_false] at hjoins
        refine ih (List.pairwise_append.mpr ⟨h, List.pairwise_singleton _ _, fun g hg x hx => ?_⟩)
        rw [List.mem_singleton.mp hx]
        simpa using hjoins.2 g hg
      · exact h

/-- No fill of the group has another's column as a word in it. -/
theorem filledColumnGroup_apart {intents : List (Option FillColumn)} {x : FillColumn}
    (hg : g ∈ filledColumnGroup intents) (hx : x ∈ filledColumnGroup intents) (hne : g ≠ x) :
    namesWord g.fillText x.column = false := by
  have hpairs : (filledColumnGroup intents).Pairwise fun g x => entangled g x = false := by
    unfold filledColumnGroup
    split
    · exact growGroup_apart (List.pairwise_singleton _ _)
    · exact List.Pairwise.nil
  have hboth : (filledColumnGroup intents).Pairwise fun g x =>
      namesWord g.fillText x.column = false ∧ namesWord x.fillText g.column = false := by
    refine hpairs.imp fun {a b} hab => ?_
    rw [entangled, Bool.or_eq_false_iff] at hab
    exact ⟨hab.2, hab.1⟩
  have hsymm : Std.Symm fun g x : FillColumn =>
      namesWord g.fillText x.column = false ∧ namesWord x.fillText g.column = false :=
    ⟨fun _ _ h => ⟨h.2, h.1⟩⟩
  exact (hboth.forall hg hx hne).1

theorem steady_of_spelled {intents : List (Option FillColumn)}
    (h : Spelled sv (filledColumnGroup intents) row) :
    Steady sv (filledColumnGroup intents) row := by
  have hstored : ∀ g ∈ filledColumnGroup intents, ∀ src ∈ g.sources, ∀ row',
      Partly sv (filledColumnGroup intents) row row' → row' g.column = none →
      sv.stored g src row' = sv.stored g src row := by
    intro g hg src hsrc row' hpartly hcol
    refine h.stored g hg src hsrc row' hpartly hcol fun x hx hnamed => ?_
    by_cases hxg : g = x
    · rw [← hxg, hcol, hpartly.null hcol]
    · rw [filledColumnGroup_apart hg hx hxg] at hnamed
      cases hnamed
  exact ⟨hstored, fun g hg src hsrc row' hpartly hcol =>
    (h.inNew g hg src hsrc row' hpartly hcol).trans (hstored g hg src hsrc row' hpartly hcol)⟩

/-- Where every source has the column's type there is nothing to come to. -/
theorem typed_of_same
    (htypes : ∀ g ∈ group, ∀ src ∈ g.sources, sv.storedType g src = sv.columnType g ∧
      sv.inNewType g src = sv.columnType g)
    (hsources : ∀ g ∈ group, g.sources ≠ []) (hsub : ∀ g ∈ pending, g ∈ group)
    (hcommon : ∀ t ts, ts ≠ [] → (∀ x ∈ ts, x = t) → sv.common ts = some t)
    (hself : ∀ t v, sv.cast t t v = some v ∧ sv.assign t t v = some v ∧
      sv.assignInto t t v = some v) : Typed sv group pending row := by
  have hfill : ∀ g ∈ group, sv.fillType g = some (sv.columnType g) := by
    intro g hg
    unfold Server.fillType
    split
    · rename_i src hsrc
      rw [(htypes g hg src (by simp [hsrc])).2]
    · refine hcommon _ _ (by simpa using hsources g hg) fun x hx => ?_
      obtain ⟨src, hsrc, rfl⟩ := List.mem_map.mp hx
      exact (htypes g hg src hsrc).2
  have hpair : ∀ g ∈ group, ∀ src ∈ g.sources,
      sv.common [sv.columnType g, sv.storedType g src] = some (sv.columnType g) := by
    intro g hg src hsrc
    refine hcommon _ _ (List.cons_ne_nil _ _) fun x hx => ?_
    rw [(htypes g hg src hsrc).1] at hx
    simpa using hx
  have hsource : ∀ p ∈ passes pending, ∀ g ∈ p.columns,
      g ∈ group ∧ ∃ src ∈ g.sources, p.source g = some src := by
    intro p hp g hg
    obtain ⟨round, -, hp'⟩ := mem_passes.mp hp
    obtain ⟨hround, hsources⟩ := mem_passesOf hp'
    obtain ⟨src, hsrc, -⟩ := hsources g hg
    rw [← hround] at hsrc
    exact ⟨hsub g ((@passesOf_columns pending round).1 p hp' g hg), src,
      List.mem_of_getElem? hsrc, hsrc⟩
  refine ⟨fun g hg _ => by rw [hfill g hg]; rfl, fun p hp => ?_, fun g hg _ src v hgiven => ?_,
    fun g _ v _ p hp x hx hcol _ src hsrc => ?_⟩
  · refine Bool.or_eq_true_iff.mpr (.inr (List.all_eq_true.mpr fun g hg => ?_))
    obtain ⟨hgroup, src, hsrc, hsome⟩ := hsource p hp g hg
    rw [hsome, Option.any_some, hpair g hgroup src hsrc]
    rfl
  · obtain ⟨s, hs, hmap⟩ := List.exists_of_findSome?_eq_some hgiven
    obtain ⟨w, -, hpair'⟩ := Option.map_eq_some_iff.mp hmap
    cases hpair'
    obtain ⟨hstored, hnew⟩ := htypes g hg src hs
    have hcast := fun t => (hself t v).1
    have hassign := fun t => (hself t v).2
    refine ⟨v, ?_, fun _ => ?_⟩
    · simp [Server.byTrigger, hfill g hg, hnew, hcast, hassign]
    · have hboth := hpair g hg src hs
      rw [hstored] at hboth
      simp [Server.byPass, hboth, hstored, hcast, hassign]
  · obtain ⟨hgroup, s, hs, hsome⟩ := hsource p hp x hx
    rw [hsrc] at hsome
    cases hsome
    simp [Server.rewritten, hpair x hgroup src hs, (hself _ v).1, (hself _ v).2.1]

end

/-! ## A name in another case, and a type that is wider -/

section Cases

def widthOne : FillColumn :=
  { schema := "public", table := "boxes", column := "width", type := "integer"
    sources := [{ value := "1" }] }

def heightOr (value : String) : FillColumn :=
  { schema := "public", table := "boxes", column := "height", type := "integer"
    sources := [{ value }] }

/-- `1`, and the column `read` or 7, all integers. -/
def boxes (read : String) : Server Nat Unit where
  stored _ src row := if src.value = "1" then some 1 else (row read).or (some 7)
  inNew _ src row := if src.value = "1" then some 1 else (row read).or (some 7)
  storedType _ _ := ()
  inNewType _ _ := ()
  columnType _ := ()
  common _ := some ()
  cast _ _ v := some v
  assign _ _ v := some v
  assignInto _ _ v := some v
  behindZero _ v := decide (0 < v)

/-- The walk along `id`. -/
def alongId : Option WalkChoice := some (.ordinary "id" "boxes_pkey")

def boxRow (id : Nat) : FillRow Nat := fun c => if c = "id" then some id else none

def priceCost : FillColumn :=
  { schema := "public", table := "boxes", column := "price", type := "numeric"
    sources := [{ value := "cost::real" }] }

/-- A price is numeric and `cost::real` is 2. A numeric value of nine digits becomes the multiple of
eight that is a real, and a real is written as numeric with six digits. -/
def prices : Server Nat String where
  stored _ src _ := if src.value = "1" then some 1 else some 2
  inNew _ src _ := if src.value = "1" then some 1 else some 2
  storedType _ src := if src.value = "1" then "integer" else "real"
  inNewType _ src := if src.value = "1" then "integer" else "real"
  columnType g := g.type
  common types := if "real" ∈ types then some "real" else types.head?
  cast from_ to_ v := some (if from_ = "numeric" ∧ to_ = "real" then (v + 4) / 8 * 8 else v)
  assign from_ to_ v := some
    (if from_ = "real" ∧ to_ = "numeric" ∧ 100000000 ≤ v then (v + 500) / 1000 * 1000 else v)
  assignInto _ _ v := some v
  behindZero _ v := decide (0 < v)

end Cases

end Planner
end Laswell
