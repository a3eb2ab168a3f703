import Laswell.Base.Keyset
import Laswell.Executor.Batch

/-!
# Laswell.Executor.Table

The statements the planner writes for a walk (`planner_dml.h`), over a table of rows. A row keeps
what it held when the walk found it, what it holds now, and whether the walk has applied its change
to it.

* `Relation.walkSql`: the statements of each form of walk.
* `Covers c r`: by the cursor `c`, the row `r` is done. It is what `cursor_is_stale` asks of a
  cursor before a job resumes from it.
* `Swept`: what a cursor covers beyond the starting position has been applied, and
  `walkSql_sweeps`: the statements of each form keep that.
-/

namespace Laswell
namespace Executor

open Base

/-- `now` is none for a row that was deleted. -/
structure Row (γ κ ρ : Type) where
  group : γ
  key : κ
  found : ρ
  now : Option ρ
  applied : Bool
  deriving DecidableEq

abbrev Table (γ κ ρ : Type) := List (Row γ κ ρ)

/-- Values of a column as text. -/
structure Coding (α τ : Type) where
  write : α → τ
  read : τ → Option α
  read_write : ∀ a, read (write a) = some a

/-- The relation a walk changes: its `where`, the change to a row (a deletion is none), and its
key, by one column or by several. -/
structure Relation (γ κ ρ : Type) where
  filter : ρ → Bool
  change : ρ → Option ρ
  keyText : Coding κ String
  groupText : Coding γ String
  columns : Nat
  keyColumns : Coding κ (List String)
  keyColumns_length : ∀ k, (keyColumns.write k).length = columns

inductive WalkForm where
  | statement
  | twoStatement
  | composite
  | compositeStatement
  | grouped
  deriving DecidableEq

def invalidText : Failure := .sql (.other "22P02") "invalid input syntax"

namespace Row

variable {γ κ ρ : Type}

/-- A row as the walk finds it. -/
def fresh (group : γ) (key : κ) (value : ρ) : Row γ κ ρ :=
  { group, key, found := value, now := some value, applied := false }

def matched (rel : Relation γ κ ρ) (r : Row γ κ ρ) : Bool := r.now.any rel.filter

/-- The mutation, on a row it names and that still matches. -/
def mutate (rel : Relation γ κ ρ) (named : Row γ κ ρ → Bool) (r : Row γ κ ρ) : Row γ κ ρ :=
  if named r && r.matched rel then { r with now := r.now.bind rel.change, applied := true } else r

end Row

namespace Relation

variable {γ κ ρ : Type} [LinearOrder γ] [LinearOrder κ] (rel : Relation γ κ ρ)

def matchedKeys (d : Table γ κ ρ) : List κ := (d.filter (Row.matched rel)).map Row.key

def mutate (named : Row γ κ ρ → Bool) (d : Table γ κ ρ) : Nat × Table γ κ ρ :=
  ((d.filter fun r => named r && r.matched rel).length, d.map (Row.mutate rel named))

def readOr {α τ : Type} (coding : Coding α τ) (text : τ) : Except Failure α :=
  match coding.read text with
  | none => .error invalidText
  | some a => .ok a

/-- A parameter that may be NULL. -/
def readMaybe {α τ : Type} (coding : Coding α τ) : Option τ → Except Failure (Option α)
  | none => .ok none
  | some text => (readOr coding text).map some

def readAll {α τ : Type} (coding : Coding α τ) : List τ → Except Failure (List α)
  | [] => .ok []
  | text :: texts => do
    let a ← readOr coding text
    let as ← readAll coding texts
    pure (a :: as)

/-- The upper bound of a walk along one column: NULL is none. -/
def bound (upto : List (Option String)) : Except Failure (Option κ) :=
  readMaybe rel.keyText (upto.head?.join)

/-- The upper bound of a walk along all the columns: NULL in the first of them is none. -/
def boundColumns (upto : List (Option String)) : Except Failure (Option κ) :=
  match upto with
  | some text :: rest => (readOr rel.keyColumns (text :: rest.map (·.getD ""))).map some
  | _ => .ok none

/-- `SELECT key … WHERE key > $1 AND (key <= $3 OR $3 IS NULL) AND (where) ORDER BY key LIMIT $2` -/
def selectPage (p u : Option κ) (limit : Int) (d : Table γ κ ρ) : List κ :=
  page p u limit.toNat (rel.matchedKeys d)

/-- `batch` of `paced_statement`: every row after the position and up to the last key of the first
`limit` ones; what is returned is their keys, in order. -/
def pacedStatement (p u : Option κ) (limit : Int) (d : Table γ κ ρ) : List κ × Table γ κ ρ :=
  match (rel.selectPage p u limit d).getLast? with
  | none => ([], d)
  | some last => (span p (some last) (rel.matchedKeys d),
      (rel.mutate (fun r => after p r.key && decide (r.key ≤ last)) d).2)

/-- `… WHERE key = ANY($1) AND (where)` -/
def applyKeys (ks : List κ) (d : Table γ κ ρ) : Nat × Table γ κ ρ :=
  rel.mutate (fun r => decide (r.key ∈ ks)) d

def liveGroups (d : Table γ κ ρ) : List γ := (d.filter fun r => r.now.isSome).map Row.group

/-- `… WHERE group = $1 AND (key > $2 OR $2 IS NULL) AND (where) ORDER BY key LIMIT $3` -/
def selectInGroup (g : γ) (p : Option κ) (limit : Int) (d : Table γ κ ρ) : List κ :=
  page p none limit.toNat
    ((d.filter fun r => decide (r.group = g) && r.matched rel).map Row.key)

def applyInGroup (g : γ) (ks : List κ) (d : Table γ κ ρ) : Nat × Table γ κ ρ :=
  rel.mutate (fun r => decide (r.group = g) && decide (r.key ∈ ks)) d

/-- The statements of a walk, in each form. -/
def walkSql : WalkForm → WalkSql (Table γ κ ρ)
  | .statement => .statement fun c limit d => do
      let p ← readOr rel.keyText c
      let r := rel.pacedStatement (some p) none limit d
      pure (r.1.map rel.keyText.write, r.2)
  | .twoStatement => .twoStatement
      (fun c limit upto d => do
        let p ← readOr rel.keyText c
        let u ← rel.bound upto
        pure ((rel.selectPage (some p) u limit d).map rel.keyText.write))
      (fun texts d => do
        let ks ← readAll rel.keyText texts
        pure (rel.applyKeys ks d))
  | .composite => .composite rel.columns
      (fun position limit upto d => do
        let p ← readMaybe rel.keyColumns position
        let u ← rel.boundColumns upto
        pure ((rel.selectPage p u limit d).map rel.keyColumns.write))
      (fun rows d => do
        let ks ← readAll rel.keyColumns rows
        pure (rel.applyKeys ks d))
  | .compositeStatement => .compositeStatement rel.columns fun position limit _ d => do
      let p ← readMaybe rel.keyColumns position
      let r := rel.pacedStatement p none limit d
      pure (r.1.map rel.keyColumns.write, r.2)
  | .grouped => .grouped
      (fun group d => do
        let g ← readMaybe rel.groupText group
        pure ((next g (liveGroups d)).map rel.groupText.write))
      (fun group key limit d => do
        let g ← readOr rel.groupText group
        let p ← readMaybe rel.keyText key
        pure ((rel.selectInGroup g p limit d).map rel.keyText.write))
      (fun group texts d => do
        let g ← readOr rel.groupText group
        let ks ← readAll rel.keyText texts
        pure (rel.applyInGroup g ks d))

end Relation

/-! ## Texts -/

section Texts

variable {α β τ : Type} {coding : Coding α τ}

theorem bind_eq_ok {x : Except Failure α} {f : α → Except Failure β} {b : β} :
    (x >>= f) = .ok b ↔ ∃ a, x = .ok a ∧ f a = .ok b := by
  cases x with
  | error e =>
    constructor
    · intro h
      cases h
    · rintro ⟨a, h, -⟩
      cases h
  | ok a =>
    constructor
    · exact fun h => ⟨a, rfl, h⟩
    · rintro ⟨a', h, hf⟩
      cases h
      exact hf

theorem readOr_eq_ok {text : τ} {a : α} :
    Relation.readOr coding text = .ok a ↔ coding.read text = some a := by
  rw [Relation.readOr]
  cases coding.read text <;> simp

theorem readMaybe_none {p : Option α} :
    Relation.readMaybe coding none = .ok p ↔ p = none := by
  rw [Relation.readMaybe]
  exact ⟨fun h => by cases h; rfl, fun h => by rw [h]⟩

theorem readMaybe_some {text : τ} {p : Option α} :
    Relation.readMaybe coding (some text) = .ok p ↔
      ∃ a, coding.read text = some a ∧ p = some a := by
  rw [Relation.readMaybe, Relation.readOr]
  cases coding.read text with
  | none => simp [Except.map]
  | some a => simp [Except.map, eq_comm]

theorem readAll_write (as : List α) :
    Relation.readAll coding (as.map coding.write) = .ok as := by
  induction as with
  | nil => rfl
  | cons a as ih =>
    rw [List.map_cons, Relation.readAll, readOr_eq_ok.2 (coding.read_write a)]
    simp only [ih]
    rfl

/-- What is taken of a written selection is what was written of a part of it. -/
theorem isPrefix_written {l : List α} {texts : List τ} {last : τ}
    (h : texts <+: l.map coding.write) (hlast : texts.getLast? = some last) :
    ∃ taken m, taken <+: l ∧ texts = taken.map coding.write ∧ taken.getLast? = some m ∧
      last = coding.write m := by
  obtain ⟨n, htexts⟩ : ∃ n, texts = (l.map coding.write).take n :=
    ⟨texts.length, (List.prefix_iff_eq_take.1 h)⟩
  rw [← List.map_take] at htexts
  subst htexts
  rw [List.getLast?_map, Option.map_eq_some_iff] at hlast
  obtain ⟨m, hm, rfl⟩ := hlast
  exact ⟨l.take n, m, List.take_prefix n l, rfl, hm, rfl⟩

end Texts

/-! ## What a mutation does to a row -/

section Rows

variable {γ κ ρ : Type} {rel : Relation γ κ ρ} {named : Row γ κ ρ → Bool} {r : Row γ κ ρ}

/-- Where a row stands, and what the walk found there. -/
def Row.site (r : Row γ κ ρ) : γ × κ × ρ := (r.group, r.key, r.found)

/-- A row holds what the walk found, until the walk applies its change. -/
def Row.Sound (r : Row γ κ ρ) : Prop := r.applied = false → r.now = some r.found

@[simp] theorem Row.mutate_site : (r.mutate rel named).site = r.site := by
  rw [Row.mutate]
  split <;> rfl

theorem Row.mutate_sound (h : r.Sound) : (r.mutate rel named).Sound := by
  rw [Row.mutate]
  split
  · intro hf
    cases hf
  · exact h

theorem Row.mutate_applied (h : r.applied = true) : (r.mutate rel named).applied = true := by
  rw [Row.mutate]
  split
  · rfl
  · exact h

theorem Row.mutate_named (hn : named r = true) (hm : r.matched rel = true) :
    (r.mutate rel named).applied = true := by
  rw [Row.mutate, hn, hm]
  rfl

/-- A row the walk is for is done, or still matches. -/
theorem Row.Sound.applied_or_matched (h : r.Sound) (hf : rel.filter r.found = true) :
    r.applied = true ∨ r.matched rel = true := by
  cases ha : r.applied with
  | true => exact .inl rfl
  | false =>
    right
    rw [Row.matched, h ha]
    exact hf

end Rows

/-! ## Covered rows -/

section Swept

variable {γ κ ρ : Type} [LinearOrder γ] [LinearOrder κ]

/-- By the cursor `c`, what stands at the key `k` of the group `g` is done. A grouped cursor speaks
of all earlier groups, and of its own up to its key. -/
def Covers (codec : ArrayText) (rel : Relation γ κ ρ) (form : WalkForm) (c : String) (g : γ)
    (k : κ) : Prop :=
  match form with
  | .statement | .twoStatement => ∃ p, rel.keyText.read c = some p ∧ k ≤ p
  | .composite | .compositeStatement => ∃ values p,
      compositeAt codec rel.columns c = some (some values) ∧
      rel.keyColumns.read values = some p ∧ k ≤ p
  | .grouped => ∃ at_ g', GroupCursor.decode codec c = some at_ ∧ at_.group ≠ "" ∧
      rel.groupText.read at_.group = some g' ∧
      (g < g' ∨ g = g' ∧ at_.key ≠ "" ∧ ∃ p, rel.keyText.read at_.key = some p ∧ k ≤ p)

/-- The rows of a walk that started at `start` and has come to `c`. -/
structure Swept (codec : ArrayText) (rel : Relation γ κ ρ) (form : WalkForm)
    (sites : List (γ × κ × ρ)) (start c : String) (d : Table γ κ ρ) : Prop where
  sites : d.map Row.site = sites
  sound : ∀ r ∈ d, r.Sound
  applied : ∀ r ∈ d, rel.filter r.found = true → Covers codec rel form c r.group r.key →
    Covers codec rel form start r.group r.key ∨ r.applied = true

variable {codec : ArrayText} {rel : Relation γ κ ρ} {form : WalkForm} {sites : List (γ × κ × ρ)}
  {start c c' : String} {d : Table γ κ ρ}

/-- The cursor may move over whatever does not match. -/
theorem Swept.skip (h : Swept codec rel form sites start c d)
    (hc : ∀ r ∈ d, r.matched rel = true → Covers codec rel form c' r.group r.key →
      Covers codec rel form c r.group r.key) : Swept codec rel form sites start c' d := by
  refine ⟨h.sites, h.sound, fun r hr hf hcov => ?_⟩
  rcases (h.sound r hr).applied_or_matched hf with ha | hm
  · exact .inr ha
  · exact h.applied r hr hf (hc r hr hm hcov)

/-- And over whatever the mutation names. -/
theorem Swept.mutate (h : Swept codec rel form sites start c d) (named : Row γ κ ρ → Bool)
    (hc : ∀ r ∈ d, r.matched rel = true → Covers codec rel form c' r.group r.key →
      Covers codec rel form c r.group r.key ∨ named r = true) :
    Swept codec rel form sites start c' (rel.mutate named d).2 := by
  refine ⟨?_, ?_, ?_⟩
  · rw [← h.sites, Relation.mutate, List.map_map]
    exact List.map_congr_left fun r _ => Row.mutate_site
  · intro r' hr'
    obtain ⟨r, hr, rfl⟩ := List.mem_map.1 hr'
    exact Row.mutate_sound (h.sound r hr)
  · intro r' hr' hf hcov
    obtain ⟨r, hr, rfl⟩ := List.mem_map.1 hr'
    have hsite : (r.mutate rel named).site = r.site := Row.mutate_site
    simp only [Row.site, Prod.mk.injEq] at hsite
    obtain ⟨hg, hk, hfound⟩ := hsite
    rw [hfound] at hf
    rw [hg, hk] at hcov ⊢
    rcases (h.sound r hr).applied_or_matched hf with ha | hm
    · exact .inr (Row.mutate_applied ha)
    · rcases hc r hr hm hcov with hcov | hn
      · exact (h.applied r hr hf hcov).imp_right Row.mutate_applied
      · exact .inr (Row.mutate_named hn hm)

omit [LinearOrder γ] [LinearOrder κ] in
theorem mem_matchedKeys {r : Row γ κ ρ} (hr : r ∈ d) (hm : r.matched rel = true) :
    r.key ∈ rel.matchedKeys d :=
  List.mem_map.2 ⟨r, List.mem_filter.2 ⟨hr, hm⟩, rfl⟩

theorem after_eq_false {p : Option κ} {k : κ} :
    after p k = false ↔ ∃ q, p = some q ∧ k ≤ q := by
  cases p <;> simp [after]

/-! ## The statements of a walk, one form after another -/

/-- A page taken from the position on, up to `m`: what is not after the position was covered. -/
theorem Swept.applyKeys (h : Swept codec rel form sites start c d) {p u : Option κ} {limit : Int}
    {taken : List κ} {m : κ} (hp : taken <+: rel.selectPage p u limit d)
    (hm : taken.getLast? = some m)
    (hbefore : ∀ g k, after p k = false → Covers codec rel form c g k)
    (hupto : ∀ g k, Covers codec rel form c' g k → k ≤ m) :
    Swept codec rel form sites start c' (rel.applyKeys taken d).2 := by
  refine h.mutate _ fun r hr hmatched hcov => ?_
  cases hafter : after p r.key with
  | false => exact .inl (hbefore _ _ hafter)
  | true =>
    right
    exact decide_eq_true
      (mem_of_le_getLast hp hm (mem_matchedKeys hr hmatched) hafter (hupto _ _ hcov))

theorem Swept.pacedStatement (h : Swept codec rel form sites start c d) {p u : Option κ}
    {limit : Int} (hbefore : ∀ g k, after p k = false → Covers codec rel form c g k)
    (hupto : ∀ m, (rel.pacedStatement p u limit d).1.getLast? = some m →
      ∀ g k, Covers codec rel form c' g k → k ≤ m)
    (hnone : (rel.pacedStatement p u limit d).1.getLast? = none → c' = c) :
    Swept codec rel form sites start c' (rel.pacedStatement p u limit d).2 := by
  rw [Relation.pacedStatement] at hupto hnone ⊢
  cases hlast : (rel.selectPage p u limit d).getLast? with
  | none =>
    simp only [hlast] at hnone ⊢
    rw [hnone rfl]
    exact h
  | some last =>
    simp only [hlast] at hupto hnone ⊢
    cases hm : (span p (some last) (rel.matchedKeys d)).getLast? with
    | none =>
      rw [hnone hm]
      exact h.mutate _ fun r hr _ hcov => .inl hcov
    | some m =>
      have hle : m ≤ last := by
        have := (mem_span.1 (List.mem_of_getLast? hm)).2.2
        simpa [within] using this
      refine h.mutate _ fun r hr _ hcov => ?_
      cases hafter : after p r.key with
      | false => exact .inl (hbefore _ _ hafter)
      | true => exact .inr (by simpa using (hupto m hm _ _ hcov).trans hle)

/-- The end of a walk along one column, as a cursor. -/
theorem covers_key {form : WalkForm} (hform : form = .statement ∨ form = .twoStatement) {g : γ}
    {k m : κ} : Covers codec rel form (rel.keyText.write m) g k ↔ k ≤ m := by
  rcases hform with rfl | rfl <;> simp [Covers, rel.keyText.read_write]

omit [LinearOrder γ] [LinearOrder κ] in
theorem compositeAt_dump (k : κ) :
    compositeAt codec rel.columns (codec.dump (rel.keyColumns.write k)) =
      some (some (rel.keyColumns.write k)) := by
  simp [compositeAt, codec.dump_ne_empty, codec.dump_ne_zero, codec.parse_dump,
    rel.keyColumns_length]

theorem covers_columns {form : WalkForm}
    (hform : form = .composite ∨ form = .compositeStatement) {g : γ} {k m : κ} :
    Covers codec rel form (codec.dump (rel.keyColumns.write m)) g k ↔ k ≤ m := by
  rcases hform with rfl | rfl <;> simp [Covers, compositeAt_dump, rel.keyColumns.read_write]

theorem statement_sweeps :
    (rel.walkSql .statement).Sweeps codec (Swept codec rel .statement sites start) := by
  intro c limit d keys d' h hrun
  obtain ⟨p, hp, hrun⟩ := bind_eq_ok.1 hrun
  rw [readOr_eq_ok] at hp
  cases hrun
  refine h.pacedStatement (fun g k hk => ?_) (fun m hm g k hcov => ?_) fun hnone => ?_
  · obtain ⟨q, hq, hkq⟩ := after_eq_false.1 hk
    cases hq
    exact ⟨p, hp, hkq⟩
  · rw [List.getLast?_map, hm] at hcov
    exact (covers_key (.inl rfl)).1 hcov
  · rw [List.getLast?_map, hnone]
    rfl

theorem twoStatement_sweeps :
    (rel.walkSql .twoStatement).Sweeps codec (Swept codec rel .twoStatement sites start) := by
  intro c limit upto d selected keys last returned d' h hsel hkeys hlast happly
  obtain ⟨p, hp, hsel⟩ := bind_eq_ok.1 hsel
  obtain ⟨u, -, hsel⟩ := bind_eq_ok.1 hsel
  rw [readOr_eq_ok] at hp
  cases hsel
  obtain ⟨taken, m, htaken, rfl, hm, rfl⟩ := isPrefix_written hkeys hlast
  obtain ⟨ks, hks, happly⟩ := bind_eq_ok.1 happly
  rw [readAll_write] at hks
  cases hks
  cases happly
  refine h.applyKeys htaken hm (fun g k hk => ?_) fun g k => (covers_key (.inr rfl)).1
  obtain ⟨q, hq, hkq⟩ := after_eq_false.1 hk
  cases hq
  exact ⟨p, hp, hkq⟩

/-- What is not after a composite position is covered by its cursor. -/
theorem covers_position {form : WalkForm}
    (hform : form = .composite ∨ form = .compositeStatement)
    {position : Option (List String)} (hat : compositeAt codec rel.columns c = some position)
    {p : Option κ} (hp : Relation.readMaybe rel.keyColumns position = .ok p) (g : γ) (k : κ)
    (hk : after p k = false) : Covers codec rel form c g k := by
  obtain ⟨q, rfl, hkq⟩ := after_eq_false.1 hk
  cases position with
  | none => cases readMaybe_none.1 hp
  | some values =>
    obtain ⟨a, ha, hqa⟩ := readMaybe_some.1 hp
    cases hqa
    rcases hform with rfl | rfl
    · exact ⟨values, q, hat, ha, hkq⟩
    · exact ⟨values, q, hat, ha, hkq⟩

theorem composite_sweeps :
    (rel.walkSql .composite).Sweeps codec (Swept codec rel .composite sites start) := by
  intro c position limit upto d selected rows last returned d' h hat hsel hrows hlast happly
  obtain ⟨p, hp, hsel⟩ := bind_eq_ok.1 hsel
  obtain ⟨u, -, hsel⟩ := bind_eq_ok.1 hsel
  cases hsel
  obtain ⟨taken, m, htaken, rfl, hm, rfl⟩ := isPrefix_written hrows hlast
  obtain ⟨ks, hks, happly⟩ := bind_eq_ok.1 happly
  rw [readAll_write] at hks
  cases hks
  cases happly
  exact h.applyKeys htaken hm (covers_position (.inl rfl) hat hp)
    fun g k => (covers_columns (.inl rfl)).1

theorem compositeStatement_sweeps : (rel.walkSql .compositeStatement).Sweeps codec
    (Swept codec rel .compositeStatement sites start) := by
  intro c position limit upto d rows d' h hat hrun
  obtain ⟨p, hp, hrun⟩ := bind_eq_ok.1 hrun
  cases hrun
  refine h.pacedStatement (covers_position (.inr rfl) hat hp) (fun m hm g k hcov => ?_)
    fun hnone => ?_
  · rw [List.getLast?_map, hm] at hcov
    exact (covers_columns (.inr rfl)).1 hcov
  · rw [List.getLast?_map, hnone]
    rfl

omit [LinearOrder γ] [LinearOrder κ] in
@[simp] theorem decode_encode (at_ : GroupCursor) :
    GroupCursor.decode codec (at_.encode codec) = some at_ := by
  simp [GroupCursor.decode, GroupCursor.encode, codec.dump_ne_empty, codec.dump_ne_zero,
    codec.parse_dump]

/-- A grouped cursor that has been decoded. -/
theorem covers_group {at_ : GroupCursor} {g : γ} {k : κ} :
    Covers codec rel .grouped (at_.encode codec) g k ↔
      at_.group ≠ "" ∧ ∃ g', rel.groupText.read at_.group = some g' ∧
        (g < g' ∨ g = g' ∧ at_.key ≠ "" ∧ ∃ p, rel.keyText.read at_.key = some p ∧ k ≤ p) := by
  simp [Covers]

/-- The start of a group, as it is written: all groups before it are covered. -/
theorem covers_groupStart {group g : γ} {k : κ}
    (h : Covers codec rel .grouped
      (GroupCursor.encode codec { group := rel.groupText.write group, key := "" }) g k) :
    g < group := by
  obtain ⟨-, g', hg', hlt | ⟨-, hkey, -⟩⟩ := covers_group.1 h
  · rw [rel.groupText.read_write] at hg'
    cases hg'
    exact hlt
  · exact absurd rfl hkey

omit [LinearOrder γ] [LinearOrder κ] in
theorem mem_liveGroups {r : Row γ κ ρ} (hr : r ∈ d) (hm : r.matched rel = true) :
    r.group ∈ Relation.liveGroups d := by
  refine List.mem_map.2 ⟨r, List.mem_filter.2 ⟨hr, ?_⟩, rfl⟩
  cases hnow : r.now with
  | none =>
    rw [Row.matched, hnow] at hm
    cases hm
  | some v => rfl

/-- The position inside a group, as the cursor has it: what is not after it is covered. -/
theorem covers_inGroup {at_ : GroupCursor} {g : γ} {p : Option κ} {k : κ}
    (hne : at_.group ≠ "") (hg : rel.groupText.read at_.group = some g)
    (hp : Relation.readMaybe rel.keyText (maybe at_.key) = .ok p) (hk : after p k = false) :
    Covers codec rel .grouped (at_.encode codec) g k := by
  obtain ⟨q, rfl, hkq⟩ := after_eq_false.1 hk
  rw [maybe] at hp
  split at hp
  · cases readMaybe_none.1 hp
  · rename_i hkey
    obtain ⟨a, ha, hqa⟩ := readMaybe_some.1 hp
    cases hqa
    exact covers_group.2 ⟨hne, g, hg, .inr ⟨rfl, hkey, q, ha, hkq⟩⟩

omit [LinearOrder γ] [LinearOrder κ] in
theorem mem_groupKeys [DecidableEq γ] {r : Row γ κ ρ} {g : γ} (hr : r ∈ d) (hg : r.group = g)
    (hm : r.matched rel = true) :
    r.key ∈ (d.filter fun r => decide (r.group = g) && r.matched rel).map Row.key :=
  List.mem_map.2 ⟨r, List.mem_filter.2 ⟨hr, by simp [hg, hm]⟩, rfl⟩

theorem grouped_sweeps :
    (rel.walkSql .grouped).Sweeps codec (Swept codec rel .grouped sites start) where
  reencode c at_ d hat h := by
    refine h.skip fun r _ _ hcov => ?_
    obtain ⟨hne, g', hg', hcase⟩ := covers_group.1 hcov
    exact ⟨at_, g', hat, hne, hg', hcase⟩
  enter c d group h hgroups := by
    obtain ⟨g, hg, hgroups⟩ := bind_eq_ok.1 hgroups
    cases readMaybe_none.1 hg
    obtain ⟨first, hfirst, rfl⟩ := Option.map_eq_some_iff.1 (Except.ok.inj hgroups)
    -- no row that matches is in a group before the first one
    refine h.skip fun r hr hm hcov => ?_
    exact absurd (next_le hfirst (mem_liveGroups hr hm) rfl) (not_le.2 (covers_groupStart hcov))
  next at_ batch d group hbatch hne h hsel hgroups := by
    obtain ⟨g, hg, hsel⟩ := bind_eq_ok.1 hsel
    obtain ⟨p, hp, hsel⟩ := bind_eq_ok.1 hsel
    obtain ⟨g', hg', hgroups⟩ := bind_eq_ok.1 hgroups
    obtain ⟨following, hnext, rfl⟩ := Option.map_eq_some_iff.1 (Except.ok.inj hgroups)
    rw [readOr_eq_ok] at hg
    obtain ⟨a, ha, rfl⟩ := readMaybe_some.1 hg'
    rw [hg] at ha
    cases ha
    have hnil := List.map_eq_nil_iff.1 (Except.ok.inj hsel)
    refine h.skip fun r hr hm hcov => ?_
    have hbefore := covers_groupStart hcov
    rcases lt_trichotomy r.group g with hlt | heq | hgt
    · exact covers_group.2 ⟨hne, g, hg, .inl hlt⟩
    · have hafter : after p r.key = false :=
        page_eq_nil (by omega : 0 < batch.toNat) hnil (mem_groupKeys hr heq hm)
      rw [heq]
      exact covers_inGroup hne hg hp hafter
    · exact absurd (next_le hnext (mem_liveGroups hr hm) (by simpa [after] using hgt))
        (not_le.2 hbefore)
  apply at_ batch d selected keys last returned d' h hsel hkeys hlast happly := by
    obtain ⟨g, hg, hsel⟩ := bind_eq_ok.1 hsel
    obtain ⟨p, hp, hsel⟩ := bind_eq_ok.1 hsel
    cases hsel
    obtain ⟨taken, m, htaken, rfl, hm, rfl⟩ := isPrefix_written hkeys hlast
    obtain ⟨g', hg', happly⟩ := bind_eq_ok.1 happly
    obtain ⟨ks, hks, happly⟩ := bind_eq_ok.1 happly
    rw [readAll_write] at hks
    cases hks
    cases happly
    rw [hg] at hg'
    cases hg'
    rw [readOr_eq_ok] at hg
    refine h.mutate _ fun r hr hmatched hcov => ?_
    obtain ⟨hne, g', hg', hcase⟩ := covers_group.1 hcov
    rw [hg] at hg'
    cases hg'
    rcases hcase with hlt | ⟨heq, -, q, hq, hle⟩
    · exact .inl (covers_group.2 ⟨hne, g, hg, .inl hlt⟩)
    · rw [rel.keyText.read_write] at hq
      cases hq
      cases hafter : after p r.key with
      | false =>
        left
        rw [heq]
        exact covers_inGroup hne hg hp hafter
      | true =>
        right
        have hnamed := mem_of_le_getLast htaken hm (mem_groupKeys hr heq hmatched) hafter hle
        simp [heq, hnamed]

/-- The planner's statements keep what a cursor says, in every form of walk. -/
theorem walkSql_sweeps (form : WalkForm) :
    (rel.walkSql form).Sweeps codec (Swept codec rel form sites start) := by
  cases form with
  | statement => exact statement_sweeps
  | twoStatement => exact twoStatement_sweeps
  | composite => exact composite_sweeps
  | compositeStatement => exact compositeStatement_sweeps
  | grouped => exact grouped_sweeps

/-- The table as the walk finds it. -/
def Table.fresh (rows : List (γ × κ × ρ)) : Table γ κ ρ :=
  rows.map fun r => Row.fresh r.1 r.2.1 r.2.2

theorem Swept.fresh (rows : List (γ × κ × ρ)) :
    Swept codec rel form rows start start (Table.fresh rows) := by
  refine ⟨?_, ?_, fun r _ _ hcov => .inl hcov⟩
  · rw [Table.fresh, List.map_map]
    exact List.map_id _
  · intro r hr
    obtain ⟨a, -, rfl⟩ := List.mem_map.1 hr
    exact fun _ => rfl

end Swept

end Executor
end Laswell
