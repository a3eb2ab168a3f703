import Laswell.Planner.Recipes

/-!
# Laswell.Planner.Fill

Columns that are added and filled: the sources of a column's value, the group of intents that
are planned as one recipe, the trigger that fills a row that is written, and the passes that fill
the rows that were there.

* `filledColumnGroup`: consecutive intents, while no fill has another's column as a word in it.
* `fillExpression`: all of a column's sources as the trigger evaluates them.
* `passes`: one walk for each source, shared by the columns that take it from the same place.
-/

namespace Laswell
namespace Planner

/-! ## Sources -/

/-- One place a value is taken from. An expression over the row has no `from_`. -/
structure FillSource where
  from_ : String := ""
  on : String := ""
  value : String
  deriving DecidableEq

def FillSource.joined (src : FillSource) : Bool := src.from_ ≠ ""

/-- Where the value is looked for. -/
def FillSource.place (src : FillSource) : String × String := (src.from_, src.on)

/-- `fill_text`: every piece of text a fill has. -/
def fillText (sources : List FillSource) : String :=
  String.join (sources.map fun src => src.from_ ++ " " ++ src.on ++ " " ++ src.value ++ " ")

/-- An `add_column` intent with a fill. -/
structure FillColumn where
  schema : String
  table : String
  column : String
  type : String
  comment : String := ""
  sources : List FillSource
  defaulted : Bool := false
  after : String := ""
  key : String := ""
  paced : Bool := true
  deriving DecidableEq

namespace FillColumn

variable (g : FillColumn)

def qualified : String := g.schema ++ "." ++ g.table

def fillText : String := Planner.fillText g.sources

end FillColumn

def FillSource.sql (src : FillSource) : String :=
  if src.joined then
    "(SELECT (" ++ src.value ++ ") FROM " ++ src.from_ ++ " WHERE " ++ src.on ++ ")"
  else src.value

/-- The first source that gives a value. -/
def fillExpression : List FillSource → String
  | [src] => src.sql
  | sources => "COALESCE(" ++ join ", " (sources.map FillSource.sql) ++ ")"

/-! ## The group -/

/-- `isalnum` or an underscore. -/
def isIdent (c : Char) : Bool := c.isAlphanum || c == '_'

/-- `before` is the character in front. -/
def namesWordFrom (word : List Char) (before : Option Char) : List Char → Bool
  | [] => word.isEmpty && !before.any isIdent
  | c :: rest =>
    (word.isPrefixOf (c :: rest) && !before.any isIdent &&
      !((c :: rest).drop word.length).head?.any isIdent) ||
    namesWordFrom word (some c) rest

/-- `names_word`: it is in the text, with no letter, digit or underscore on either side. -/
def namesWord (text word : String) : Bool := namesWordFrom word.toList none text.toList

/-- One fill has the other's column as a word in it. -/
def entangled (g next : FillColumn) : Bool :=
  namesWord next.fillText g.column || namesWord g.fillText next.column

/-- What the intents of a recipe have in common. -/
def shares (lead next : FillColumn) : Bool :=
  decide (next.defaulted = lead.defaulted) && decide (next.qualified = lead.qualified) &&
    decide (next.after = lead.after) && decide (next.key = lead.key) &&
    decide (next.paced = lead.paced)

/-- The intents after the first, while they go with those before; another kind of intent is
`none`. -/
def growGroup (lead : FillColumn) (group : List FillColumn) :
    List (Option FillColumn) → List FillColumn
  | some next :: rest =>
    if shares lead next && !group.any (entangled · next) then
      growGroup lead (group ++ [next]) rest
    else group
  | _ => group

/-- `filled_column_group`, for the intents from the first one on. -/
def filledColumnGroup : List (Option FillColumn) → List FillColumn
  | some lead :: rest => growGroup lead [lead] rest
  | _ => []

/-! ## The trigger -/

def fillIf (relAlias : String) (g : FillColumn) : String :=
  "  IF NEW." ++ quoteIdentifier g.column ++ " IS NULL THEN\n    SELECT (" ++
    fillExpression g.sources ++ ") INTO NEW." ++ quoteIdentifier g.column ++
    " FROM (SELECT NEW.*) AS " ++ relAlias ++ ";\n  END IF;\n"

/-- What the trigger does with a row, column after column. -/
def triggerBody (relAlias : String) (group : List FillColumn) : String :=
  String.join (group.map (fillIf relAlias))

/-! ## The passes -/

/-- A walk for the columns that take their source of this round from one place. -/
structure Pass where
  round : Nat
  from_ : String
  on : String
  columns : List FillColumn

namespace Pass

variable (p : Pass)

def place : String × String := (p.from_, p.on)

def joined : Bool := p.from_ ≠ ""

/-- The source of a column in this round. -/
def source (g : FillColumn) : Option FillSource := g.sources[p.round]?

def value (g : FillColumn) : String := ((p.source g).map FillSource.value).getD ""

def columnSql (g : FillColumn) : String :=
  quoteIdentifier g.table ++ "." ++ quoteIdentifier g.column

/-- Never over a value that is there; a walk for one column by one expression is over rows where it
is null. -/
def setTerm (simple : Bool) (g : FillColumn) : String × String :=
  (g.column,
    if simple then "(" ++ p.value g ++ ")"
    else "COALESCE(" ++ columnSql g ++ ", (" ++ p.value g ++ "))")

def whereTerm (g : FillColumn) : String :=
  if p.joined then
    "(" ++ columnSql g ++ " IS NULL AND (" ++ p.value g ++ ") IS NOT NULL)"
  else columnSql g ++ " IS NULL"

def where_ : String :=
  if p.joined then "(" ++ p.on ++ ") AND (" ++ join " OR " (p.columns.map p.whereTerm) ++ ")"
  else join " OR " (p.columns.map p.whereTerm)

end Pass

/-- A column joins the pass for its place, or begins one. -/
def joinPass (round : Nat) (g : FillColumn) (src : FillSource) : List Pass → List Pass
  | [] => [{ round, from_ := src.from_, on := src.on, columns := [g] }]
  | p :: ps =>
    if p.place = src.place then { p with columns := p.columns ++ [g] } :: ps
    else p :: joinPass round g src ps

def joinRound (round : Nat) (ps : List Pass) (g : FillColumn) : List Pass :=
  match g.sources[round]? with
  | some src => joinPass round g src ps
  | none => ps

/-- The passes of a round, in the order their first column was written. -/
def passesOf (pending : List FillColumn) (round : Nat) : List Pass :=
  pending.foldl (joinRound round) []

def rounds (pending : List FillColumn) : Nat :=
  (pending.map fun g => g.sources.length).foldl max 0

def passes (pending : List FillColumn) : List Pass :=
  (List.range (rounds pending)).flatMap (passesOf pending)

/-- One column, one expression over the row. -/
def simple : List FillColumn → Bool
  | [g] =>
    match g.sources with
    | [src] => !src.joined
    | _ => false
  | _ => false

/-! ## Columns that are told apart -/

section Columns

variable {g : FillColumn} {gs : List FillColumn}

theorem find_column (hnodup : (gs.map FillColumn.column).Nodup) (hg : g ∈ gs) :
    (gs.find? fun x => decide (x.column = g.column)) = some g := by
  induction gs with
  | nil => cases hg
  | cons x xs ih =>
    rw [List.map_cons, List.nodup_cons] at hnodup
    rcases List.mem_cons.mp hg with rfl | hg
    · simp
    · have hne : x.column ≠ g.column := by
        intro heq
        exact hnodup.1 (heq ▸ List.mem_map_of_mem hg)
      rw [List.find?_cons_of_neg (by simpa using hne)]
      exact ih hnodup.2 hg

theorem find_none {c : String} (hc : c ∉ gs.map FillColumn.column) :
    (gs.find? fun x => decide (x.column = c)) = none := by
  rw [List.find?_eq_none]
  intro x hx heq
  exact hc (of_decide_eq_true heq ▸ List.mem_map_of_mem hx)

end Columns

/-! ## What is in a pass -/

section Passes

variable {pending : List FillColumn} {round : Nat} {p : Pass} {g : FillColumn}

theorem mem_joinPass {src : FillSource} {ps : List Pass} (hg : g.sources[round]? = some src)
    (hps : ∀ p ∈ ps, p.round = round ∧ ∀ x ∈ p.columns, ∃ s, x.sources[round]? = some s ∧
      s.place = p.place) :
    ∀ p ∈ joinPass round g src ps, p.round = round ∧ ∀ x ∈ p.columns,
      ∃ s, x.sources[round]? = some s ∧ s.place = p.place := by
  induction ps with
  | nil =>
    intro p hp
    rw [joinPass, List.mem_singleton] at hp
    subst hp
    refine ⟨rfl, fun x hx => ?_⟩
    rw [List.mem_singleton.mp hx]
    exact ⟨src, hg, rfl⟩
  | cons q qs ih =>
    intro p hp
    rw [joinPass] at hp
    split at hp
    · rename_i hplace
      rcases List.mem_cons.mp hp with rfl | hp
      · obtain ⟨hround, hcols⟩ := hps q List.mem_cons_self
        refine ⟨hround, fun x hx => ?_⟩
        rcases List.mem_append.mp hx with hx | hx
        · exact hcols x hx
        · rw [List.mem_singleton.mp hx]
          exact ⟨src, hg, hplace.symm⟩
      · exact hps p (List.mem_cons_of_mem q hp)
    · rcases List.mem_cons.mp hp with rfl | hp
      · exact hps p List.mem_cons_self
      · exact ih (fun r hr => hps r (List.mem_cons_of_mem q hr)) p hp

/-- A pass has columns whose source of its round is of its place. -/
theorem mem_passesOf (hp : p ∈ passesOf pending round) :
    p.round = round ∧ ∀ x ∈ p.columns, ∃ s, x.sources[round]? = some s ∧ s.place = p.place := by
  have hfold : ∀ (gs : List FillColumn) (ps : List Pass),
      (∀ p ∈ ps, p.round = round ∧ ∀ x ∈ p.columns, ∃ s, x.sources[round]? = some s ∧
        s.place = p.place) →
      ∀ p ∈ gs.foldl (joinRound round) ps, p.round = round ∧ ∀ x ∈ p.columns,
        ∃ s, x.sources[round]? = some s ∧ s.place = p.place := by
    intro gs
    induction gs with
    | nil => exact fun _ h => h
    | cons g gs ih =>
      intro ps hps
      refine ih _ ?_
      rw [joinRound]
      cases hg : g.sources[round]? with
      | none => exact hps
      | some src => exact mem_joinPass hg hps
  exact hfold pending [] (fun _ h => absurd h List.not_mem_nil) p hp

theorem joinPass_columns {src : FillSource} {ps : List Pass} :
    (∀ p ∈ joinPass round g src ps, ∀ x ∈ p.columns, x = g ∨ ∃ q ∈ ps, x ∈ q.columns) ∧
    (∃ p ∈ joinPass round g src ps, g ∈ p.columns) ∧
    ∀ q ∈ ps, ∃ p ∈ joinPass round g src ps, ∀ x ∈ q.columns, x ∈ p.columns := by
  induction ps with
  | nil =>
    refine ⟨fun p hp x hx => .inl ?_, ⟨_, List.mem_singleton_self _, List.mem_singleton_self g⟩,
      fun q hq => absurd hq List.not_mem_nil⟩
    rw [joinPass, List.mem_singleton] at hp
    rw [hp] at hx
    exact List.mem_singleton.mp hx
  | cons q qs ih =>
    obtain ⟨ihOnly, ⟨p', hp', hgp'⟩, ihKeeps⟩ := ih
    rw [joinPass]
    split
    · refine ⟨fun p hp x hx => ?_, ⟨_, List.mem_cons_self, List.mem_append_right _
        (List.mem_singleton_self g)⟩, fun r hr => ?_⟩
      · rcases List.mem_cons.mp hp with rfl | hp
        · rcases List.mem_append.mp hx with hx | hx
          · exact .inr ⟨q, List.mem_cons_self, hx⟩
          · exact .inl (List.mem_singleton.mp hx)
        · exact .inr ⟨p, List.mem_cons_of_mem q hp, hx⟩
      · rcases List.mem_cons.mp hr with rfl | hr
        · exact ⟨_, List.mem_cons_self, fun x hx => List.mem_append_left _ hx⟩
        · exact ⟨r, List.mem_cons_of_mem _ hr, fun _ hx => hx⟩
    · refine ⟨fun p hp x hx => ?_, ⟨p', List.mem_cons_of_mem q hp', hgp'⟩, fun r hr => ?_⟩
      · rcases List.mem_cons.mp hp with rfl | hp
        · exact .inr ⟨p, List.mem_cons_self, hx⟩
        · rcases ihOnly p hp x hx with rfl | ⟨r, hr, hxr⟩
          · exact .inl rfl
          · exact .inr ⟨r, List.mem_cons_of_mem q hr, hxr⟩
      · rcases List.mem_cons.mp hr with rfl | hr
        · exact ⟨r, List.mem_cons_self, fun _ hx => hx⟩
        · obtain ⟨p, hp, hsub⟩ := ihKeeps r hr
          exact ⟨p, List.mem_cons_of_mem q hp, hsub⟩

/-- The columns of a round's passes are those that have a source in it. -/
theorem passesOf_columns :
    (∀ p ∈ passesOf pending round, ∀ x ∈ p.columns, x ∈ pending) ∧
    ∀ x ∈ pending, (x.sources[round]?).isSome = true →
      ∃ p ∈ passesOf pending round, x ∈ p.columns := by
  have hfold : ∀ (gs : List FillColumn) (ps : List Pass),
      (∀ p ∈ gs.foldl (joinRound round) ps, ∀ x ∈ p.columns,
        x ∈ gs ∨ ∃ q ∈ ps, x ∈ q.columns) ∧
      (∀ x ∈ gs, (x.sources[round]?).isSome = true →
        ∃ p ∈ gs.foldl (joinRound round) ps, x ∈ p.columns) ∧
      ∀ q ∈ ps, ∃ p ∈ gs.foldl (joinRound round) ps, ∀ x ∈ q.columns, x ∈ p.columns := by
    intro gs
    induction gs with
    | nil =>
      intro ps
      exact ⟨fun p hp x hx => .inr ⟨p, hp, hx⟩, fun x hx => absurd hx List.not_mem_nil,
        fun q hq => ⟨q, hq, fun _ hx => hx⟩⟩
    | cons g gs ih =>
      intro ps
      obtain ⟨ihOnly, ihAll, ihKeeps⟩ := ih (joinRound round ps g)
      rw [List.foldl_cons]
      cases hg : g.sources[round]? with
      | none =>
        have hjoin : joinRound round ps g = ps := by rw [joinRound, hg]
        rw [hjoin] at ihOnly ihAll ihKeeps ⊢
        refine ⟨fun p hp x hx => ?_, fun x hx hsome => ?_, ihKeeps⟩
        · exact (ihOnly p hp x hx).imp_left (List.mem_cons_of_mem g)
        · rcases List.mem_cons.mp hx with rfl | hx
          · rw [hg] at hsome
            cases hsome
          · exact ihAll x hx hsome
      | some src =>
        have hjoin : joinRound round ps g = joinPass round g src ps := by rw [joinRound, hg]
        rw [hjoin] at ihOnly ihAll ihKeeps ⊢
        obtain ⟨hOnly, ⟨p₀, hp₀, hgp₀⟩, hKeeps⟩ := @joinPass_columns round g src ps
        refine ⟨fun p hp x hx => ?_, fun x hx hsome => ?_, fun q hq => ?_⟩
        · rcases ihOnly p hp x hx with hx' | ⟨q, hq, hxq⟩
          · exact .inl (List.mem_cons_of_mem g hx')
          · rcases hOnly q hq x hxq with rfl | hbefore
            · exact .inl List.mem_cons_self
            · exact .inr hbefore
        · rcases List.mem_cons.mp hx with rfl | hx
          · obtain ⟨p, hp, hsub⟩ := ihKeeps p₀ hp₀
            exact ⟨p, hp, hsub x hgp₀⟩
          · exact ihAll x hx hsome
        · obtain ⟨p, hp, hsub⟩ := hKeeps q hq
          obtain ⟨p', hp', hsub'⟩ := ihKeeps p hp
          exact ⟨p', hp', fun x hx => hsub' x (hsub x hx)⟩
  obtain ⟨hOnly, hAll, -⟩ := hfold pending []
  refine ⟨fun p hp x hx => ?_, hAll⟩
  rcases hOnly p hp x hx with hx' | ⟨q, hq, -⟩
  · exact hx'
  · exact absurd hq List.not_mem_nil

theorem length_le_rounds (hg : g ∈ pending) : g.sources.length ≤ rounds pending := by
  have hfold : ∀ (ns : List Nat) (m : Nat), m ≤ ns.foldl max m ∧ ∀ n ∈ ns, n ≤ ns.foldl max m := by
    intro ns
    induction ns with
    | nil => exact fun m => ⟨Nat.le_refl m, fun n hn => absurd hn List.not_mem_nil⟩
    | cons n ns ih =>
      intro m
      obtain ⟨hle, hall⟩ := ih (max m n)
      refine ⟨Nat.le_trans (Nat.le_max_left m n) hle, fun k hk => ?_⟩
      rcases List.mem_cons.mp hk with rfl | hk
      · exact Nat.le_trans (Nat.le_max_right m k) hle
      · exact hall k hk
  exact (hfold _ 0).2 _ (List.mem_map_of_mem hg)

theorem mem_passes : p ∈ passes pending ↔ ∃ round < rounds pending, p ∈ passesOf pending round := by
  simp [passes, List.mem_flatMap, List.mem_range]

end Passes

end Planner
end Laswell
