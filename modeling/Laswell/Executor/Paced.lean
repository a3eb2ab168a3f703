import Laswell.Executor.Backfill
import Laswell.Executor.Walked

/-!
# Laswell.Executor.Paced

Walks of one statement a batch over the rows of a source (`paced_statement`), whose keys may repeat:
the limit finds the last key, and the batch is every row up to it.

* `ConsideredOnce`: the batches together are the rows of the source, and none of them ends within
  a key.
* `paced_walk_iff`: along several columns that is how a walk ends; along one, where all the rows are
  behind the value its first cursor reads as, and nowhere else.
-/

namespace Laswell
namespace Executor

open Base

/-- A source of rows, with what a batch's mutation takes from them, and the key the walk goes
along. -/
structure RowSource (κ σ : Type) where
  rows : List (κ × σ)
  columns : Nat
  keyText : Coding κ String
  keyColumns : Coding κ (List String)
  keyColumns_length : ∀ k, (keyColumns.write k).length = columns

/-- The batches that the mutation was given, in order. -/
abbrev Batches (κ σ : Type) := List (List (κ × σ))

namespace RowSource

variable {κ σ : Type} [LinearOrder κ] (src : RowSource κ σ)

omit [LinearOrder κ] in
def composite : Bool := decide (1 < src.columns)

/-- `batch`: `src.k > $1 AND src.k <= (SELECT upto.k … DESC LIMIT 1)`, which is no row where there
is no last key. -/
def batch (p : Option κ) (limit : Int) : List (κ × σ) :=
  match (page p none limit.toNat (src.rows.map Prod.fst)).getLast? with
  | none => []
  | some upto => src.rows.filter fun r => after p r.1 && decide (r.1 ≤ upto)

/-- The mutation has the batch, and its keys are returned in order. -/
def pacedStatement (p : Option κ) (limit : Int) (d : Batches κ σ) : List κ × Batches κ σ :=
  (((src.batch p limit).map Prod.fst).insertionSort (· ≤ ·), d ++ [src.batch p limit])

def sql : WalkSql (Batches κ σ) :=
  if src.composite then
    .compositeStatement src.columns fun position limit _ d => do
      let p ← Relation.readMaybe src.keyColumns position
      let r := src.pacedStatement p limit d
      pure (r.1.map src.keyColumns.write, r.2)
  else
    .statement fun c limit d => do
      let p ← Relation.readOr src.keyText c
      let r := src.pacedStatement (some p) limit d
      pure (r.1.map src.keyText.write, r.2)

/-- A batch holds all the rows of a key or none. -/
def WholeKeys (b : List (κ × σ)) : Prop :=
  ∀ k, (b.filter fun r => decide (r.1 = k)) = [] ∨
    (b.filter fun r => decide (r.1 = k)) = src.rows.filter fun r => decide (r.1 = k)

def ConsideredOnce (d : Batches κ σ) : Prop :=
  d.flatten.Perm src.rows ∧ ∀ b ∈ d, src.WholeKeys b

/-- The position that a cursor stands for. -/
def Reads (codec : ArrayText) (c : String) (q : Option κ) : Prop :=
  if src.composite then ∃ position, compositeAt codec src.columns c = some position ∧
    Relation.readMaybe src.keyColumns position = .ok q
  else ∃ p, src.keyText.read c = some p ∧ q = some p

end RowSource

/-! ## One batch -/

section

variable {κ σ : Type} [LinearOrder κ] {src : RowSource κ σ} {start q : Option κ} {m : κ}
  {limit : Int}

/-- A batch is the rows up to the last of its keys, or there is no row ahead. -/
theorem batch_cases (hlimit : 0 < limit) :
    (src.batch q limit = [] ∧ ∀ r ∈ src.rows, after q r.1 = false) ∨
    ∃ m, m ∈ src.rows.map Prod.fst ∧ after q m = true ∧
      src.batch q limit = src.rows.filter (fun r => after q r.1 && decide (r.1 ≤ m)) ∧
      (((src.batch q limit).map Prod.fst).insertionSort (· ≤ ·)).getLast? = some m := by
  cases hlast : (page q none limit.toNat (src.rows.map Prod.fst)).getLast? with
  | none =>
    left
    have hnil := List.getLast?_eq_none_iff.mp hlast
    refine ⟨by simp [RowSource.batch, hlast], fun r hr => ?_⟩
    exact page_eq_nil (by omega) hnil (List.mem_map_of_mem hr)
  | some m =>
    right
    have hmem := mem_of_page_isPrefix (List.prefix_refl _) (List.mem_of_getLast? hlast)
    have hbatch : src.batch q limit =
        src.rows.filter (fun r => after q r.1 && decide (r.1 ≤ m)) := by
      simp [RowSource.batch, hlast]
    refine ⟨m, hmem.1, hmem.2.1, hbatch, ?_⟩
    rw [hbatch]
    generalize hkeys : ((src.rows.filter fun r => after q r.1 && decide (r.1 ≤ m)).map
      Prod.fst).insertionSort (· ≤ ·) = keys
    have hin : ∀ k, k ∈ keys ↔ k ∈ src.rows.map Prod.fst ∧ after q k = true ∧ k ≤ m := by
      intro k
      rw [← hkeys, List.mem_insertionSort]
      simp only [List.mem_map, List.mem_filter, Bool.and_eq_true, decide_eq_true_eq]
      constructor
      · rintro ⟨r, ⟨hr, hafter, hle⟩, rfl⟩
        exact ⟨⟨r, hr, rfl⟩, hafter, hle⟩
      · rintro ⟨⟨r, hr, rfl⟩, hafter, hle⟩
        exact ⟨r, ⟨hr, hafter, hle⟩, rfl⟩
    have hm : m ∈ keys := (hin m).mpr ⟨hmem.1, hmem.2.1, le_rfl⟩
    have hsorted : keys.Pairwise (· ≤ ·) := hkeys ▸ List.pairwise_insertionSort _ _
    obtain ⟨m', hm'⟩ : ∃ m', keys.getLast? = some m' :=
      Option.ne_none_iff_exists'.mp fun h => by
        rw [List.getLast?_eq_none_iff.mp h] at hm
        cases hm
    have hle : m' ≤ m := ((hin m').mp (List.mem_of_getLast? hm')).2.2
    rw [hm', le_antisymm hle (le_getLast_of_sorted hsorted hm' hm)]

theorem batch_wholeKeys (q : Option κ) (m : κ) :
    src.WholeKeys (src.rows.filter fun r => after q r.1 && decide (r.1 ≤ m)) := by
  intro k
  rw [List.filter_filter]
  cases hk : after q k && decide (k ≤ m) with
  | true =>
    right
    refine List.filter_congr fun r _ => ?_
    by_cases hr : r.1 = k
    · simpa [hr] using hk
    · simp [hr]
  | false =>
    left
    refine List.filter_eq_nil_iff.mpr fun r _ => ?_
    by_cases hr : r.1 = k
    · simpa [hr] using hk
    · simp [hr]

/-- The rows between the start of a walk and where it stands. -/
def behind (start q : Option κ) (rows : List (κ × σ)) : List (κ × σ) :=
  rows.filter fun r => after start r.1 && !after q r.1

/-- What a batch adds to the rows behind it. -/
theorem behind_batch (hq : Position start none q) (hm : after q m = true)
    (rows : List (κ × σ)) :
    (behind start q rows ++ rows.filter fun r => after q r.1 && decide (r.1 ≤ m)).Perm
      (behind start (some m) rows) := by
  have hsplit := List.filter_append_perm (fun r : κ × σ => !after q r.1)
    (behind start (some m) rows)
  have hbefore : (behind start (some m) rows).filter (fun r => !after q r.1) =
      behind start q rows := by
    rw [behind, behind, List.filter_filter]
    refine List.filter_congr fun r _ => ?_
    cases hafter : after q r.1 with
    | true => simp
    | false =>
      obtain ⟨p, rfl, hp⟩ := after_eq_false.mp hafter
      have hlt : p < m := by simpa [after] using hm
      have hbehind : after (some m) r.1 = false := by simpa [after] using hp.trans hlt.le
      simp [hbehind]
  have hbatch : (behind start (some m) rows).filter (fun r => !!after q r.1) =
      rows.filter fun r => after q r.1 && decide (r.1 ≤ m) := by
    rw [behind, List.filter_filter]
    refine List.filter_congr fun r _ => ?_
    cases hafter : after q r.1 with
    | false => simp
    | true =>
      have hupto : after (some m) r.1 = !decide (r.1 ≤ m) := by
        by_cases hle : r.1 ≤ m
        · simp [after, hle]
        · simp [after, hle, not_le.mp hle]
      simp [hq.after_start hafter, hupto]
  rw [hbefore, hbatch] at hsplit
  exact hsplit

theorem ahead_shrinks (hm : m ∈ src.rows.map Prod.fst) (hafter : after q m = true) :
    (src.rows.filter fun r => after (some m) r.1).length <
      (src.rows.filter fun r => after q r.1).length := by
  have hsub : (src.rows.filter fun r => after (some m) r.1) =
      (src.rows.filter fun r => after q r.1).filter fun r => after (some m) r.1 := by
    rw [List.filter_filter]
    refine List.filter_congr fun r _ => ?_
    cases hk : after (some m) r.1 with
    | false => simp
    | true =>
      have hlt : m < r.1 := by simpa [after] using hk
      simp [after_trans hafter hlt.le]
  obtain ⟨r, hr, rfl⟩ := List.mem_map.mp hm
  rw [hsub]
  refine List.length_filter_lt_length_iff_exists.mpr ⟨r, ?_, by simp [after]⟩
  exact List.mem_filter.mpr ⟨hr, hafter⟩

variable {env : Env} {cfg : Config} {codec : ArrayText} {walk : Walk (Batches κ σ)}
  {upto : List (Option String)} {w : World (Batches κ σ)} {t : Txn (Batches κ σ)}

def Walk.paced (walk : Walk (Batches κ σ)) (src : RowSource κ σ) : Walk (Batches κ σ) :=
  { walk with sql := src.sql }

/-- What a batch returns, of keys in order. -/
def Paces (codec : ArrayText) (src : RowSource κ σ) (q : Option κ) (limit : Int)
    (d : Batches κ σ) (o : BatchOutcome) (d' : Batches κ σ) : Prop :=
  d' = d ++ [src.batch q limit] ∧ o.considered = (src.batch q limit).length ∧
    ∀ m, (((src.batch q limit).map Prod.fst).insertionSort (· ≤ ·)).getLast? = some m →
      src.Reads codec o.cursor (some m)

/-- A statement and what is made of its result. -/
theorem onData_returns {δ τ : Type} {w : World δ} {t : Txn δ} (henv : env.Answers)
    (ht : w.txn = some t) {f : δ → Except Failure (τ × δ)} {r : τ} {d : δ}
    (hf : f t.view.data = .ok (r, d)) (finish : τ → BatchOutcome) :
    Returns (onData env f >>= fun r => pure (finish r)) w fun o d' => o = finish r ∧ d' = d := by
  refine ⟨finish r, { w with
    tick := w.tick + 1, txn := some { t with view := { t.view with data := d } } },
    { t with view := { t.view with data := d } }, ?_, rfl, rfl, rfl⟩
  rw [Prog.bind_ok (onData_ok henv ht hf)]
  rfl

theorem paced_batch (henv : env.Answers) (ht : w.txn = some t) {c : String}
    (hc : src.Reads codec c q) :
    Returns ((walk.paced src).batches env cfg codec upto limit c) w
      (Paces codec src q limit t.view.data) := by
  simp only [Walk.batches, runBatch, Walk.paced, RowSource.sql]
  cases hcomposite : src.composite with
  | true =>
    simp only [RowSource.Reads, hcomposite, if_true] at hc ⊢
    obtain ⟨position, hat, hq⟩ := hc
    simp only [runCompositeStatement, hat]
    refine (onData_returns (r := (((src.batch q limit).map Prod.fst).insertionSort (· ≤ ·)).map
      src.keyColumns.write) (d := t.view.data ++ [src.batch q limit]) henv ht ?_ _).mono ?_
    · rw [hq]
      rfl
    · rintro o d' ⟨rfl, rfl⟩
      refine ⟨rfl, ?_, fun m hm => ?_⟩
      · simp
      · have hread : compositeAt codec src.columns (codec.dump (src.keyColumns.write m)) =
            some (some (src.keyColumns.write m)) := by
          simp [compositeAt, codec.dump_ne_empty, codec.dump_ne_zero, codec.parse_dump,
            src.keyColumns_length]
        simp only [RowSource.Reads, hcomposite, if_true, List.getLast?_map, hm]
        exact ⟨_, hread, readMaybe_some.mpr ⟨m, src.keyColumns.read_write m, rfl⟩⟩
  | false =>
    simp only [RowSource.Reads, hcomposite, if_false, Bool.false_eq_true] at hc ⊢
    obtain ⟨p, hp, rfl⟩ := hc
    refine (onData_returns (r := (((src.batch (some p) limit).map Prod.fst).insertionSort
      (· ≤ ·)).map src.keyText.write) (d := t.view.data ++ [src.batch (some p) limit]) henv ht
      ?_ _).mono ?_
    · have hread := readOr_eq_ok.mpr hp
      simp only [hread]
      rfl
    · rintro o d' ⟨rfl, rfl⟩
      refine ⟨rfl, ?_, fun m hm => ?_⟩
      · simp
      · simp only [RowSource.Reads, hcomposite, Bool.false_eq_true, if_false, List.getLast?_map, hm]
        exact ⟨m, src.keyText.read_write m, rfl⟩

/-! ## Whole walks -/

/-- The batches of a walk hold the rows after its start, and none of them ends within a key. -/
theorem paced_walked (henv : env.Answers) (hlimit : 0 < limit) (ht : w.txn = some t) {c : String}
    (hc : src.Reads codec c start) (hd : t.view.data = []) :
    EndsWith (fun fuel => walkOut ((walk.paced src).batches env cfg codec upto limit) fuel c) w
      (fun d => d.flatten.Perm (src.rows.filter fun r => after start r.1) ∧
        ∀ b ∈ d, src.WholeKeys b) := by
  refine walkOut_ends (fun n c d => ∃ q, src.Reads codec c q ∧ Position start none q ∧
    d.flatten.Perm (behind start q src.rows) ∧ (∀ b ∈ d, src.WholeKeys b) ∧
    n = (src.rows.filter fun r => after q r.1).length) ?_ ht
    ⟨start, hc, .inl rfl, ?_, by simp [hd], rfl⟩
  · rintro _ c w t ht ⟨q, hread, hpos, hperm, hwhole, rfl⟩
    refine (paced_batch henv ht hread).mono ?_
    rintro o d' ⟨rfl, hconsidered, hcursor⟩
    have hcases : (src.batch q limit = [] ∧ _) ∨ _ := batch_cases hlimit
    rcases hcases with ⟨hnil, hnone⟩ | ⟨m, hm, hafter, hb, hlast⟩
    · left
      rw [hnil] at hconsidered ⊢
      refine ⟨by simpa using hconsidered, ?_, ?_⟩
      · have hall : behind start q src.rows = src.rows.filter fun r => after start r.1 :=
          List.filter_congr fun r hr => by simp [hnone r hr]
        simpa [← hall] using hperm
      · intro b hmem
        rcases List.mem_append.mp hmem with hmem | hmem
        · exact hwhole b hmem
        · rw [List.mem_singleton.mp hmem]
          exact fun k => .inl rfl
    · right
      have hsome : 0 < (src.batch q limit).length := by
        have hmem := (List.mem_insertionSort _).mp (List.mem_of_getLast? hlast)
        simpa using List.length_pos_of_mem hmem
      refine ⟨by omega, _, ahead_shrinks hm hafter, some m, hcursor m hlast,
        .inr ⟨m, rfl, hpos.after_start hafter, rfl⟩, ?_, ?_, rfl⟩
      · rw [List.flatten_append, List.flatten_singleton, hb]
        exact (hperm.append_right _).trans (behind_batch hpos hafter src.rows)
      · intro b hmem
        rcases List.mem_append.mp hmem with hmem | hmem
        · exact hwhole b hmem
        · rw [List.mem_singleton.mp hmem, hb]
          exact batch_wholeKeys q m
  · have hnone : behind start start src.rows = [] :=
      List.filter_eq_nil_iff.mpr fun r _ => by simp
    rw [hd, hnone]
    exact .refl _

/-- A walk considers every row of its source once: along several columns always, and along one
where the text "0" is a value of the key and every row is behind it. -/
theorem paced_walk_iff (henv : env.Answers) (cfg : Config) (codec : ArrayText)
    (walk : Walk (Batches κ σ)) (src : RowSource κ σ) (hlimit : 0 < limit) (ht : w.txn = some t)
    (hd : t.view.data = []) :
    EndsWith (fun fuel => walkOut ((walk.paced src).batches env cfg codec upto limit) fuel
        notStarted) w src.ConsideredOnce ↔
      src.composite = true ∨
        ∃ p, src.keyText.read notStarted = some p ∧ ∀ r ∈ src.rows, p < r.1 := by
  cases hcomposite : src.composite with
  | true =>
    refine iff_of_true ?_ (.inl rfl)
    have hstart : src.Reads codec notStarted none := by
      simp only [RowSource.Reads, hcomposite, if_true]
      exact ⟨none, rfl, rfl⟩
    refine (paced_walked henv hlimit ht hstart hd).mono fun _ _ => ?_
    rintro ⟨t', ht', hperm, hwhole⟩
    have hall : (src.rows.filter fun r => after none r.1) = src.rows :=
      List.filter_eq_self.mpr fun _ _ => rfl
    exact ⟨t', ht', hall ▸ hperm, hwhole⟩
  | false =>
    cases hp : src.keyText.read notStarted with
    | none =>
      -- the first statement is refused
      have hthrows : (walk.paced src).batches env cfg codec upto limit notStarted w =
          (.err invalidText, { w with tick := w.tick + 1 }) := by
        simp only [Walk.batches, runBatch, Walk.paced, RowSource.sql, hcomposite]
        exact Prog.bind_err (onData_error henv ht (by simp [Relation.readOr, hp]))
      exact iff_of_false (not_ends_of_throws hthrows) (by simp)
    | some p =>
      have hstart : src.Reads codec notStarted (some p) := by
        simp only [RowSource.Reads, hcomposite, Bool.false_eq_true, if_false]
        exact ⟨p, hp, rfl⟩
      have hends : EndsWith (fun fuel => walkOut ((walk.paced src).batches env cfg codec upto limit)
          fuel notStarted) w _ := paced_walked henv hlimit ht hstart hd
      constructor
      · intro hall
        obtain ⟨d, hd₁, hd₂⟩ := hall.unique hends
        refine .inr ⟨p, rfl, fun r hr => ?_⟩
        have hmem := (hd₁.1.symm.trans hd₂.1).subset hr
        simpa [after] using (List.mem_filter.mp hmem).2
      · rintro (h | ⟨p', hp', hbehind⟩)
        · cases h
        obtain rfl : p = p' := Option.some.inj hp'
        refine hends.mono fun _ _ => ?_
        rintro ⟨t', ht', hperm, hwhole⟩
        have hall : (src.rows.filter fun r => after (some p) r.1) = src.rows :=
          List.filter_eq_self.mpr fun r hr => by simpa [after] using hbehind r hr
        exact ⟨t', ht', hall ▸ hperm, hwhole⟩

end

/-! ## A key that is not behind the first cursor -/

/-- Rows whose key is a digit, each with a number. -/
def digitSource (rows : List (Fin 4 × Nat)) : RowSource (Fin 4) Nat where
  rows := rows
  columns := 1
  keyText := digitText
  keyColumns := unfilled.keyColumns
  keyColumns_length := unfilled.keyColumns_length

/-- A worker with its transaction open, before the first batch. -/
def World.loading : World (Batches (Fin 4) Nat) where
  durable := { data := [] }
  txn := some { view := { data := [] }, work := [] }

noncomputable def digitLoad (rows : List (Fin 4 × Nat)) (fuel : Nat) :
    Exec (Batches (Fin 4) Nat) String :=
  walkOut (Walk.batches (Walk.paced { ordinal := 0, sql := (digitSource rows).sql }
    (digitSource rows)) {} { batchRows := 1, batchRows_pos := Int.one_pos } jsonStrings [] 1)
    fuel notStarted

/-- A repeated key stays in one batch. -/
theorem paced_walk_repeatedKey :
    EndsWith (digitLoad [(1, 10), (2, 20), (1, 11)]) .loading
      (digitSource [(1, 10), (2, 20), (1, 11)]).ConsideredOnce :=
  (paced_walk_iff (w := .loading) (fun _ => rfl) { batchRows := 1 } jsonStrings
    { ordinal := 0, sql := (digitSource [(1, 10), (2, 20), (1, 11)]).sql }
    (digitSource [(1, 10), (2, 20), (1, 11)]) (by decide) rfl rfl).mpr
    (.inr ⟨0, by decide, by decide⟩)

/-- A row whose key is zero is in no batch. -/
theorem paced_walk_skips_zero : ¬ EndsWith (digitLoad [(0, 10), (2, 20)]) .loading
    (digitSource [(0, 10), (2, 20)]).ConsideredOnce := by
  rintro ⟨c, w', enough, hrun, t', ht', hperm, -⟩
  have hrun' := hrun (enough + 3) (by omega)
  have hthree : digitLoad [(0, 10), (2, 20)] (enough + 3) .loading =
      digitLoad [(0, 10), (2, 20)] 3 .loading := by
    rfl
  rw [hthree] at hrun'
  have htxn := congrArg (fun r => r.2.txn.map fun t => t.view.data) hrun'
  have hbatches : (digitLoad [(0, 10), (2, 20)] 3 .loading).2.txn.map (fun t => t.view.data) =
      some [[(2, 20)], []] := by
    decide +kernel
  simp only [hbatches, ht', Option.map_some, Option.some.injEq] at htxn
  rw [← htxn] at hperm
  exact absurd hperm.length_eq (by decide)

end Executor
end Laswell
