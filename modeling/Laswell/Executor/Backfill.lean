import Laswell.Base.Readable
import Laswell.Executor.Table
import Laswell.Executor.WalkSpec

/-!
# Laswell.Executor.Backfill

A walk loses no row, as long as the observer cancels no batch but the first of its transaction:
every row that a committed cursor covers, beyond the starting position, has been applied in the
data committed with it, and every transaction begins at the cursor committed last. A batch that is
cancelled behind others of its transaction takes the rows of those back and leaves the cursor past
them.
-/

namespace Laswell
namespace Executor

open Base Jobs

section

variable {δ : Type} {P : String → δ → Prop} {start : String} {log : List (WalkEvent δ)}

theorem Faithful.of_append {later : List (WalkEvent δ)} (h : Faithful P start (later ++ log)) :
    Faithful P start log := by
  induction later with
  | nil => exact h
  | cons e later ih =>
    cases e with
    | began c => exact ih h.2
    | batch c => exact ih h
    | batchCancelled => exact ih h
    | committed c d => exact ih h.2

end

/-- A job at the beginning of a walk over `rows`. -/
def World.beforeWalk {γ κ ρ : Type} (rows : List (γ × κ × ρ)) (tick : Nat := 0)
    (cursors : Nat → Option CursorRow := fun _ => none) (steps : List StepRecord := [])
    (kept : List Nat := []) : World (Table γ κ ρ) :=
  { tick, durable := { data := Table.fresh rows, cursors }, kept, jobState := .running, steps
    jobLog := [.published .running] }

/-- The statements of a walk, put into its plan. -/
def Walk.over {γ κ ρ : Type} [LinearOrder γ] [LinearOrder κ] (walk : Walk (Table γ κ ρ))
    (rel : Relation γ κ ρ) (form : WalkForm) : Walk (Table γ κ ρ) :=
  { walk with sql := rel.walkSql form }

section

variable {γ κ ρ : Type} [LinearOrder γ] [LinearOrder κ]

theorem runBackfill_faithful (env : Env) (cfg : Config) (codec : ArrayText) (fuel : Nat)
    (walk : Walk (Table γ κ ρ)) (rel : Relation γ κ ρ) (form : WalkForm)
    (rows : List (γ × κ × ρ)) (tick : Nat) (cursors : Nat → Option CursorRow)
    (steps : List StepRecord) (kept : List Nat)
    (h : CancelsFirst (runBackfill env cfg codec fuel (walk.over rel form)
      (.beforeWalk rows tick cursors steps kept)).2.walkLog) :
    Faithful (Swept codec rel form rows (env.resumeCursor walk.ordinal))
      (env.resumeCursor walk.ordinal) (runBackfill env cfg codec fuel (walk.over rel form)
        (.beforeWalk rows tick cursors steps kept)).2.walkLog := by
  have hspec : (runBackfill env cfg codec fuel (walk.over rel form)).Wp _ _ :=
    runBackfill_spec (P := Swept codec rel form rows (env.resumeCursor walk.ordinal)) (S := steps)
      (K := kept) (w := .beforeWalk rows tick cursors steps kept) (walkSql_sweeps form) fuel rfl
      ⟨rfl, rfl, 0, by simp [World.beforeWalk]⟩ ⟨by simp [Calm, World.beforeWalk], rfl⟩
      (Swept.fresh rows)
  rw [Prog.Wp] at hspec
  rcases hrun : runBackfill env cfg codec fuel (walk.over rel form)
    (.beforeWalk rows tick cursors steps kept) with ⟨o, w⟩
  rw [hrun] at hspec h
  cases o with
  | ok _ =>
    rcases hspec with hw | hw
    · exact hw.2.2.2.2.2 h
    · exact hw.2.2.2 h
  | err e => exact hspec.2.2.2.2 h
  | out => exact hspec.2.2.2.2 h

/-- Whatever a committed cursor covers, beyond the starting position, has been applied in the data
committed with it; and a transaction begins at the cursor committed last. -/
def NoRowLost (codec : ArrayText) (rel : Relation γ κ ρ) (form : WalkForm)
    (rows : List (γ × κ × ρ)) (start : String) (log : List (WalkEvent (Table γ κ ρ))) : Prop :=
  (∀ later c d earlier, log = later ++ .committed c d :: earlier →
    d.map Row.site = rows ∧
    ∀ r ∈ d, rel.filter r.found = true → Covers codec rel form c r.group r.key →
      ¬ Covers codec rel form start r.group r.key → r.applied = true) ∧
  ∀ later c earlier, log = later ++ .began c :: earlier → c = lastCommitted start earlier

/-- Over every table, with every batch size, byte budget and throttling history, and in every run
whose cancelled batches are each the first of their transaction. -/
theorem runBackfill_noRowLost (env : Env) (cfg : Config) (codec : ArrayText) (fuel : Nat)
    (walk : Walk (Table γ κ ρ)) (rel : Relation γ κ ρ) (form : WalkForm)
    (rows : List (γ × κ × ρ)) (tick : Nat) (cursors : Nat → Option CursorRow)
    (steps : List StepRecord) (kept : List Nat) (log : List (WalkEvent (Table γ κ ρ)))
    (hlog : log = (runBackfill env cfg codec fuel (walk.over rel form)
      (.beforeWalk rows tick cursors steps kept)).2.walkLog)
    (h : CancelsFirst log) :
    NoRowLost codec rel form rows (env.resumeCursor walk.ordinal) log := by
  subst hlog
  have hfaithful := runBackfill_faithful env cfg codec fuel walk rel form rows tick cursors steps
    kept h
  constructor
  · intro later c d earlier heq
    rw [heq] at hfaithful
    have hswept := hfaithful.of_append.1
    refine ⟨hswept.sites, fun r hr hf hcov hstart => ?_⟩
    exact (hswept.applied r hr hf hcov).resolve_left hstart
  · intro later c earlier heq
    rw [heq] at hfaithful
    exact hfaithful.of_append.1

end

/-! ## A lost row -/

def escape (c : Char) : List Char := if c = '"' ∨ c = '\\' then ['\\', c] else [c]

/-- A string as JSON quotes it, where it has no control characters. -/
def quoted (s : String) : List Char := '"' :: (s.toList.flatMap escape ++ ['"'])

def dumpStrings (xs : List String) : String :=
  String.ofList ('[' :: sepList quoted ',' ']' xs)

theorem escape_inj (x y : Char) (l l' : List Char) (h : escape x ++ l = escape y ++ l') :
    x = y ∧ l = l' := by
  rw [escape, escape] at h
  split at h
  · split at h
    · simpa using h
    · rename_i hy
      exact absurd (.inr (List.cons.inj h).1.symm) hy
  · rename_i hx
    split at h
    · exact absurd (.inr (List.cons.inj h).1) hx
    · simpa using h

theorem escape_head (x : Char) : ∃ h t, escape x = h :: t ∧ h ≠ '"' := by
  rw [escape]
  split
  · exact ⟨'\\', [x], rfl, by decide⟩
  · rename_i hx
    exact ⟨x, [], rfl, fun h => hx (.inl h)⟩

theorem quoted_reads (s : String) : Reads quoted id (fun _ => True) (fun _ => True) s := by
  intro t r r' _ _ _ h
  simp only [quoted, List.cons_append, List.append_assoc, List.nil_append, List.cons.injEq,
    true_and] at h
  obtain ⟨hst, hr⟩ := flatMap_terminated escape_inj escape_head s.toList t.toList r r' h
  exact ⟨String.toList_injective hst, hr⟩

theorem dumpStrings_injective {xs ys : List String} (h : dumpStrings xs = dumpStrings ys) :
    xs = ys := by
  have hl : sepList quoted ',' ']' xs ++ [] = sepList quoted ',' ']' ys ++ [] := by
    rw [(List.cons.inj (String.ofList_injective h)).2]
  have hr := Reads.sepList (S := fun _ => True) (by decide) (fun _ => trivial) (fun _ => trivial)
    (fun x _ => ⟨'"', _, rfl, by decide⟩) (fun x _ => quoted_reads x) (fun _ _ => trivial)
    (fun _ _ => trivial) hl
  simpa using hr.1

open Classical in
/-- Reading undoes writing; what was not written is not read. -/
noncomputable def jsonStrings : ArrayText where
  scalar v := v.elim "null" fun s => String.ofList (quoted s)
  dump := dumpStrings
  parse text := if h : ∃ xs, dumpStrings xs = text then some h.choose else none
  parse_dump xs := by
    have h : ∃ ys, dumpStrings ys = dumpStrings xs := ⟨xs, rfl⟩
    rw [dif_pos h, dumpStrings_injective h.choose_spec]
  dump_ne_zero xs h := by
    have hzero : "0" = String.ofList ['0'] := rfl
    have hhead := List.cons.inj (String.ofList_injective (h.trans hzero))
    exact absurd hhead.1 (by decide)
  dump_ne_empty xs h := by
    have := String.ofList_injective (h.trans (show "" = String.ofList [] by rfl))
    cases this

/-- Keys of one digit. -/
def digitText : Coding (Fin 4) String where
  write k := if k = 0 then "0" else if k = 1 then "1" else if k = 2 then "2" else "3"
  read s :=
    if s = "0" then some 0 else if s = "1" then some 1 else if s = "2" then some 2
    else if s = "3" then some 3 else none
  read_write := by decide

/-- A column to be filled where it is not. -/
def unfilled : Relation Unit (Fin 4) Bool where
  filter filled := !filled
  change _ := some true
  keyText := digitText
  groupText := { write := fun _ => "", read := fun _ => some (), read_write := fun _ => rfl }
  columns := 1
  keyColumns :=
    { write := fun k => [digitText.write k]
      read := fun l => l.head?.bind digitText.read
      read_write := fun k => digitText.read_write k }
  keyColumns_length _ := rfl

def threeRows : List (Unit × Fin 4 × Bool) := [((), 1, false), ((), 2, false), ((), 3, false)]

/-- The `n`th round trip is a batch that the observer had cancelled. -/
def cancelledAt (n : Nat) : Env where
  sql k := if k = n then some (.sql .queryCanceled "canceling statement due to user request")
    else none
  cancelRequested _ := true

noncomputable def threeRowsLog (env : Env) : List (WalkEvent (Table Unit (Fin 4) Bool)) :=
  (runBackfill env { batchRows := 1, batchRows_pos := Int.one_pos } jsonStrings 6
    (Walk.over { ordinal := 0, sql := unfilled.walkSql .twoStatement } unfilled .twoStatement)
    (.beforeWalk threeRows)).2.walkLog

/-- The first batch of the first transaction is cancelled: the walk begins again at its start. -/
theorem runBackfill_noRowLost_firstCancelled :
    CancelsFirst (threeRowsLog (cancelledAt 9)) ∧
      NoRowLost jsonStrings unfilled .twoStatement threeRows "0" (threeRowsLog (cancelledAt 9)) :=
  ⟨by decide +kernel,
    runBackfill_noRowLost (cancelledAt 9) { batchRows := 1 } jsonStrings 6
      { ordinal := 0, sql := unfilled.walkSql .twoStatement } unfilled .twoStatement threeRows 0
      (fun _ => none) [] [] (threeRowsLog (cancelledAt 9)) rfl (by decide +kernel)⟩

/-- The second batch of the first transaction is cancelled: the row of the first one is taken back
with it, the walk goes on behind that row, and commits a cursor that covers it. -/
theorem runBackfill_loses_row : ¬ NoRowLost jsonStrings unfilled .twoStatement threeRows "0"
    (threeRowsLog (cancelledAt 14)) := by
  have hlog : threeRowsLog (cancelledAt 14) =
      [] ++ .committed "3"
        [Row.fresh () 1 false,
          { Row.fresh () 2 false with now := some true, applied := true },
          { Row.fresh () 3 false with now := some true, applied := true }] ::
        (threeRowsLog (cancelledAt 14)).tail := by
    decide +kernel
  have hcovered : Covers jsonStrings unfilled .twoStatement "3" () 1 := ⟨3, by decide, by decide⟩
  have hahead : ¬ Covers jsonStrings unfilled .twoStatement "0" () 1 := by
    rintro ⟨p, hp, hle⟩
    cases hp
    exact absurd hle (by decide)
  intro h
  have hlost := (h.1 _ _ _ _ hlog).2 _ List.mem_cons_self rfl hcovered hahead
  cases hlost

end Executor
end Laswell
