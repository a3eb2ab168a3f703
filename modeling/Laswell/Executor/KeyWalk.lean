import Laswell.Executor.Backfill
import Laswell.Executor.Walked

/-!
# Laswell.Executor.KeyWalk

Walks along a key: along one column from the cursor that means "not started", and along all the
columns of a unique index from before the first row.

* `batch_walked`: what a batch does to the rows, in both.
* `twoStatement_walk_iff`: the walk along one column applies every change once where all the rows
  it is for are behind the value its first cursor reads as, and nowhere else.
-/

namespace Laswell
namespace Executor

open Base

section

variable {γ κ ρ : Type} [LinearOrder γ] [LinearOrder κ]

namespace Relation

variable (rel : Relation γ κ ρ)

/-- `SELECT key … ORDER BY key DESC LIMIT 1` -/
def highest (d : Table γ κ ρ) : Option κ :=
  (((d.filter fun r => r.now.isSome).map Row.key).insertionSort (· ≥ ·)).head?

/-- The upper bound of a walk along one column, as it is read at the start: of no table where the
plan has none, and NULL of an empty one. -/
def upperBound (bounded : Bool) (d : Table γ κ ρ) : List (Option String) :=
  if bounded then [(highest d).map rel.keyText.write] else []

end Relation

variable {rel : Relation γ κ ρ} {rows : List (γ × κ × ρ)} {start u q : Option κ} {m : κ}
  {taken : List κ} {limit : Int}

omit [LinearOrder γ] in
theorem within_highest {r : γ × κ × ρ} (hr : r ∈ rows) :
    within (Relation.highest (Table.fresh rows)) r.2.1 = true := by
  have hmem : r.2.1 ∈ ((Table.fresh rows).filter fun r => r.now.isSome).map Row.key :=
    List.mem_map.mpr ⟨Row.fresh r.1 r.2.1 r.2.2, List.mem_filter.mpr
      ⟨List.mem_map.mpr ⟨r, hr, rfl⟩, rfl⟩, rfl⟩
  unfold Relation.highest
  generalize ((Table.fresh rows).filter fun r => r.now.isSome).map Row.key = ks at hmem
  have hsorted : (ks.insertionSort (· ≥ ·)).Pairwise (· ≥ ·) := List.pairwise_insertionSort _ _
  have hin : r.2.1 ∈ ks.insertionSort (· ≥ ·) := (List.mem_insertionSort _).mpr hmem
  cases hl : ks.insertionSort (· ≥ ·) with
  | nil => simp [hl] at hin
  | cons top rest =>
    rw [hl] at hin hsorted
    rcases List.mem_cons.mp hin with h | h
    · simp [within, h]
    · simpa [within] using (List.pairwise_cons.mp hsorted).1 _ h

omit [LinearOrder γ] in
theorem bound_upperBound (bounded : Bool) (d : Table γ κ ρ) :
    rel.bound (rel.upperBound bounded d) =
      .ok (if bounded then Relation.highest d else none) := by
  cases bounded with
  | false => rfl
  | true =>
    cases hh : Relation.highest d with
    | none => simp [Relation.upperBound, Relation.bound, hh, Relation.readMaybe]
    | some k =>
      simp [Relation.upperBound, Relation.bound, hh, Relation.readMaybe, Relation.readOr,
        rel.keyText.read_write, Except.map]

/-! ## One batch -/

omit [LinearOrder γ] in
/-- A batch taken from the page at a position: the walk stands on its last key, has changed the
rows up to it, and has fewer before it. -/
theorem batch_walked (hq : Position start u q)
    (htaken : taken <+: page q u limit.toNat (rel.wanted rows)) (hm : taken.getLast? = some m) :
    Position start u (some m) ∧
      (rel.applyKeys taken (rel.walked (passed start q) rows)).2 =
        rel.walked (passed start (some m)) rows ∧
      ahead rel rows u (some m) < ahead rel rows u q := by
  have hspan : m ∈ span q u (rel.wanted rows) :=
    (htaken.trans page_isPrefix).subset (List.mem_of_getLast? hm)
  have hmem := (mem_span.mp hspan).2
  exact ⟨.inr ⟨m, rfl, hq.after_start hmem.1, hmem.2⟩, applyKeys_walked hq htaken hm,
    ahead_lt hspan⟩

/-- What a batch does from a cursor that reads as a position: it comes to the end of what there is
up to the bound, or to a later position. -/
def Advances (read : String → Option κ → Prop) (rel : Relation γ κ ρ) (rows : List (γ × κ × ρ))
    (start u q : Option κ) (o : BatchOutcome) (d' : Table γ κ ρ) : Prop :=
  (o.considered = 0 ∧ d' = rel.walked (fun _ k => after start k && within u k) rows) ∨
  (o.considered ≠ 0 ∧ ∃ m, read o.cursor (some m) ∧ Position start u (some m) ∧
    d' = rel.walked (passed start (some m)) rows ∧
    ahead rel rows u (some m) < ahead rel rows u q)

omit [LinearOrder γ] in
/-- A walk whose batches advance changes the rows from its start to its bound. -/
theorem walkOut_walked {read : String → Option κ → Prop}
    {batchAt : String → Exec (Table γ κ ρ) BatchOutcome}
    (hbatch : ∀ c q w t, w.txn = some t → read c q → Position start u q →
      t.view.data = rel.walked (passed start q) rows →
      Returns (batchAt c) w (Advances read rel rows start u q))
    {c : String} {w : World (Table γ κ ρ)} {t : Txn (Table γ κ ρ)} (ht : w.txn = some t)
    (hc : read c start) (hd : t.view.data = Table.fresh rows) :
    EndsWith (fun fuel => walkOut batchAt fuel c) w
      (· = rel.walked (fun _ k => after start k && within u k) rows) := by
  refine walkOut_ends (fun n c d => ∃ q, read c q ∧ Position start u q ∧
    d = rel.walked (passed start q) rows ∧ n = ahead rel rows u q) ?_ ht
    ⟨start, hc, .inl rfl, hd.trans (passed_start rows).symm, rfl⟩
  rintro _ c w t ht ⟨q, hread, hpos, hd, rfl⟩
  obtain ⟨o, w', t', hrun, ht', hcase⟩ := hbatch c q w t ht hread hpos hd
  refine ⟨o, w', t', hrun, ht', hcase.imp_right ?_⟩
  rintro ⟨hsome, m, hread', hpos', hd', hless⟩
  exact ⟨hsome, _, hless, some m, hread', hpos', hd', rfl⟩

omit [LinearOrder γ] in
/-- Wherever such a walk comes by, its cursor is a position and what it passed is changed. -/
theorem Walking.at_position {read : String → Option κ → Prop}
    {batchAt : String → Exec (Table γ κ ρ) BatchOutcome}
    (hbatch : ∀ c q w t, w.txn = some t → read c q → Position start u q →
      t.view.data = rel.walked (passed start q) rows →
      Returns (batchAt c) w (Advances read rel rows start u q))
    {c c' : String} {w w' : World (Table γ κ ρ)} {t : Txn (Table γ κ ρ)} (ht : w.txn = some t)
    (hc : read c start) (hd : t.view.data = Table.fresh rows) (h : Walking batchAt c w c' w') :
    ∃ q t', w'.txn = some t' ∧ read c' q ∧ Position start u q ∧
      t'.view.data = rel.walked (passed start q) rows := by
  induction h with
  | start => exact ⟨start, t, ht, hc, .inl rfl, hd.trans (passed_start rows).symm⟩
  | batch _ hrun hsome ih =>
    obtain ⟨q, t', ht', hread, hpos, hd'⟩ := ih
    obtain ⟨o, w'', t'', hrun', ht'', hadv⟩ := hbatch _ q _ t' ht' hread hpos hd'
    cases hrun'.symm.trans hrun
    obtain ⟨hzero, -⟩ | ⟨-, m, hread', hpos', hd'', -⟩ := hadv
    · exact absurd hzero hsome
    · exact ⟨some m, t'', ht'', hread', hpos', hd''⟩

variable {env : Env} {cfg : Config} {codec : ArrayText} {walk : Walk (Table γ κ ρ)}
  {upto : List (Option String)} {batch : Int} {w : World (Table γ κ ρ)} {t : Txn (Table γ κ ρ)}

/-- A batch of a walk along a key, along one column or several: the first keys of the page that the
byte budget allows, and the cursor on the last of them. -/
def pageBatch {τ : Type} (env : Env) (size : τ → Int) (batchBytes : Int) (encode : τ → String)
    (select : Table γ κ ρ → Except Failure (List τ))
    (apply : List τ → Table γ κ ρ → Except Failure (Nat × Table γ κ ρ)) (cursor : String) :
    Exec (Table γ κ ρ) BatchOutcome := do
  let selected ← readData env select
  match (withinBudget size batchBytes none selected).getLast? with
  | none => pure { cursor := cursor }
  | some last =>
    let taken := withinBudget size batchBytes none selected
    let returned ← onData env (apply taken)
    pure { cursor := encode last, considered := considered returned taken.length }

omit [LinearOrder γ] [LinearOrder κ] in
theorem runPacedBatch_eq
    (select : String → Int → List (Option String) → Table γ κ ρ → Except Failure (List String))
    (apply : List String → Table γ κ ρ → Except Failure (Nat × Table γ κ ρ)) (c : String)
    (batchBytes : Int) :
    runPacedBatch env select apply c batch batchBytes upto =
      pageBatch env keyBytes batchBytes id (select c batch upto) apply c := by
  rw [runPacedBatch, pageBatch]
  congr 1
  funext selected
  cases (withinBudget keyBytes batchBytes none selected).getLast? <;> rfl

omit [LinearOrder γ] [LinearOrder κ] in
theorem runCompositeBatch_eq {columns : Nat} {c : String} {position : Option (List String)}
    (hat : compositeAt codec columns c = some position)
    (select : Option (List String) → Int → List (Option String) → Table γ κ ρ →
      Except Failure (List (List String)))
    (apply : List (List String) → Table γ κ ρ → Except Failure (Nat × Table γ κ ρ))
    (batchBytes : Int) :
    runCompositeBatch env codec columns select apply c batch batchBytes upto =
      pageBatch env rowBytes batchBytes codec.dump (select position batch upto) apply c := by
  simp only [runCompositeBatch, hat, pageBatch]
  congr 1
  funext selected
  cases (withinBudget rowBytes batchBytes none selected).getLast? <;> rfl

/-- What a batch does with the keys of its page: with none, nothing; else it changes the rows of the
first of them that the budget allows, and its cursor is the last of those. -/
def Takes {τ : Type} (coding : Coding κ τ) (size : τ → Int) (batchBytes : Int) (encode : τ → String)
    (rel : Relation γ κ ρ) (keys : List κ) (d : Table γ κ ρ) (o : BatchOutcome)
    (d' : Table γ κ ρ) : Prop :=
  (keys = [] ∧ o.considered = 0 ∧ d' = d) ∨
  ∃ taken m, taken <+: keys ∧
    taken.map coding.write = withinBudget size batchBytes none (keys.map coding.write) ∧
    taken.getLast? = some m ∧ o.considered ≠ 0 ∧ o.cursor = encode (coding.write m) ∧
    d' = (rel.applyKeys taken d).2

section

variable {τ : Type} {coding : Coding κ τ} {size : τ → Int} {batchBytes : Int} {encode : τ → String}

omit [LinearOrder γ] in
theorem pageBatch_takes {select : Table γ κ ρ → Except Failure (List τ)}
    {apply : List τ → Table γ κ ρ → Except Failure (Nat × Table γ κ ρ)} {c : String}
    {keys : List κ} (henv : env.Answers)
    (hselect : select t.view.data = .ok (keys.map coding.write))
    (happly : ∀ ks d, apply (ks.map coding.write) d = .ok (rel.applyKeys ks d))
    (ht : w.txn = some t) :
    Returns (pageBatch env size batchBytes encode select apply c) w
      (Takes coding size batchBytes encode rel keys t.view.data) := by
  have hrun := readData_ok henv ht hselect
  cases hlast : (withinBudget size batchBytes none (keys.map coding.write)).getLast? with
  | none =>
    have hnil : keys = [] := by
      simpa [withinBudget_eq_nil] using List.getLast?_eq_none_iff.mp hlast
    refine ⟨{ cursor := c }, { w with tick := w.tick + 1 }, t, ?_, ht, .inl ⟨hnil, rfl, rfl⟩⟩
    rw [pageBatch, Prog.bind_ok hrun, hlast]
    rfl
  | some last =>
    obtain ⟨taken, m, htaken, htexts, hm, rfl⟩ :=
      isPrefix_written (withinBudget_isPrefix none _) hlast
    have hmutate := onData_ok henv (w := { w with tick := w.tick + 1 }) ht
      (happly taken t.view.data)
    have hsome : 0 < taken.length := List.length_pos_of_mem (List.mem_of_getLast? hm)
    let after : Txn (Table γ κ ρ) :=
      { t with view := { t.view with data := (rel.applyKeys taken t.view.data).2 } }
    refine ⟨{ cursor := encode (coding.write m)
              considered := considered (rel.applyKeys taken t.view.data).1 taken.length },
      { w with tick := w.tick + 1 + 1, txn := some after }, after, ?_, rfl,
      .inr ⟨taken, m, htaken, htexts.symm, hm, considered_ne_zero hsome, rfl, rfl⟩⟩
    rw [pageBatch, Prog.bind_ok hrun, hlast]
    simp only [htexts]
    rw [Prog.bind_ok hmutate, List.length_map]
    rfl

omit [LinearOrder γ] in
/-- On the page at its position, a batch takes the walk on. -/
theorem Takes.advances {read : String → Option κ → Prop} {o : BatchOutcome} {d' : Table γ κ ρ}
    (hbatch : 0 < batch) (hread : ∀ m, read (encode (coding.write m)) (some m))
    (hpos : Position start u q)
    (h : Takes coding size batchBytes encode rel (page q u batch.toNat (rel.wanted rows))
      (rel.walked (passed start q) rows) o d') : Advances read rel rows start u q o d' := by
  rcases h with ⟨hnil, hzero, rfl⟩ | ⟨taken, m, htaken, -, hm, hsome, hcursor, rfl⟩
  · exact .inl ⟨hzero, walked_of_page_nil hpos (by omega) hnil⟩
  · obtain ⟨hpos', hwalked, hless⟩ := batch_walked hpos htaken hm
    exact .inr ⟨hsome, m, hcursor ▸ hread m, hpos', hwalked, hless⟩

omit [LinearOrder γ] in
/-- The next page starts with the first key that the budget kept out of the batch. -/
theorem Takes.next_page {o : BatchOutcome} {d' : Table γ κ ρ} {k : κ}
    (hunique : (rel.wanted rows).Nodup) (hpos : Position start u q)
    (h : Takes coding size batchBytes encode rel (page q u batch.toNat (rel.wanted rows))
      (rel.walked (passed start q) rows) o d')
    (hcut : (page q u batch.toNat (rel.wanted rows))[(withinBudget size batchBytes none
      ((page q u batch.toNat (rel.wanted rows)).map coding.write)).length]? = some k) :
    ∃ m, o.cursor = encode (coding.write m) ∧ d' = rel.walked (passed start (some m)) rows ∧
      (page (some m) u batch.toNat (rel.wanted rows)).head? = some k := by
  rcases h with ⟨hnil, -, -⟩ | ⟨taken, m, htaken, htexts, hm, -, hcursor, rfl⟩
  · simp [hnil] at hcut
  · refine ⟨m, hcursor, (batch_walked hpos htaken hm).2.1, ?_⟩
    rw [← htexts, List.length_map] at hcut
    obtain ⟨rest, hrest⟩ := htaken.trans page_isPrefix
    have hahead : span (some m) u (rel.wanted rows) = rest :=
      span_getLast hunique hrest.symm hm
    rw [page, ← hrest, List.getElem?_take] at hcut
    split at hcut
    · rename_i hless
      rw [List.getElem?_append_right le_rfl, Nat.sub_self] at hcut
      have hfirst : rest.head? = some k := by rw [List.head?_eq_getElem?, hcut]
      rw [page, hahead, List.head?_take, if_neg (by omega), hfirst]
    · cases hcut

end

/-- A cursor along one column. -/
def ReadsKey (rel : Relation γ κ ρ) (c : String) (q : Option κ) : Prop :=
  ∃ p, rel.keyText.read c = some p ∧ q = some p

theorem twoStatement_takes (henv : env.Answers) (hu : rel.bound upto = .ok u)
    (ht : w.txn = some t) {c : String} (hc : ReadsKey rel c q) :
    Returns ((walk.over rel .twoStatement).batches env cfg codec upto batch c) w
      (Takes rel.keyText keyBytes cfg.batchBytes id rel
        (rel.selectPage q u batch t.view.data) t.view.data) := by
  obtain ⟨p, hp, rfl⟩ := hc
  simp only [Walk.batches, runBatch, Walk.over, Relation.walkSql]
  rw [runPacedBatch_eq]
  refine pageBatch_takes henv ?_ (fun ks d => ?_) ht
  · rw [readOr_eq_ok.mpr hp, hu]
    rfl
  · rw [readAll_write]
    rfl

/-- A cursor along several columns. -/
def ReadsColumns (codec : ArrayText) (rel : Relation γ κ ρ) (c : String) (q : Option κ) : Prop :=
  ∃ position, compositeAt codec rel.columns c = some position ∧
    Relation.readMaybe rel.keyColumns position = .ok q

omit [LinearOrder γ] [LinearOrder κ] in
theorem readsColumns_dump (m : κ) :
    ReadsColumns codec rel (codec.dump (rel.keyColumns.write m)) (some m) :=
  ⟨_, compositeAt_dump m, readMaybe_some.mpr ⟨m, rel.keyColumns.read_write m, rfl⟩⟩

/-! ## Whole walks -/

theorem twoStatement_advances (henv : env.Answers) (hbatch : 0 < batch) (hu : rel.bound upto = .ok u)
    {q : Option κ} (ht : w.txn = some t) {c : String} (hc : ReadsKey rel c q)
    (hpos : Position start u q) (hd : t.view.data = rel.walked (passed start q) rows) :
    Returns ((walk.over rel .twoStatement).batches env cfg codec upto batch c) w
      (Advances (ReadsKey rel) rel rows start u q) := by
  refine (twoStatement_takes henv hu ht hc).mono fun o d' h => ?_
  rw [hd, selectPage_walked] at h
  exact h.advances hbatch (fun m => ⟨m, rel.keyText.read_write m, rfl⟩) hpos

theorem twoStatement_walked (henv : env.Answers) (hbatch : 0 < batch)
    (hu : rel.bound upto = .ok u) (ht : w.txn = some t) {c : String} (hc : ReadsKey rel c start)
    (hd : t.view.data = Table.fresh rows) :
    EndsWith (fun fuel => walkOut ((walk.over rel .twoStatement).batches env cfg codec upto batch)
        fuel c) w
      (· = rel.walked (fun _ k => after start k && within u k) rows) :=
  walkOut_walked (fun _ _ _ _ ht hc hpos hd => twoStatement_advances henv hbatch hu ht hc hpos hd)
    ht hc hd

/-- The first statement of a walk is refused where "0" is no value of the key. -/
theorem twoStatement_refused (henv : env.Answers) (hzero : rel.keyText.read notStarted = none)
    (ht : w.txn = some t) (Q : Table γ κ ρ → Prop) :
    ¬ EndsWith (fun fuel => walkOut ((walk.over rel .twoStatement).batches env cfg codec upto
      batch) fuel notStarted) w Q := by
  have hthrows : ((walk.over rel .twoStatement).batches env cfg codec upto batch notStarted) w =
      (.err invalidText, { w with tick := w.tick + 1 }) := by
    simp only [Walk.batches, runBatch, Walk.over, Relation.walkSql]
    rw [runPacedBatch]
    refine Prog.bind_err (readData_error henv ht ?_)
    simp [Relation.readOr, hzero]
    rfl
  exact not_ends_of_throws hthrows

/-- A walk from "0" leaves out the rows that are not behind it, and no others: a bound that is read
at the start excludes none. -/
theorem twoStatement_walked_behind (henv : env.Answers) (hbatch : 0 < batch) {zero : κ}
    (hzero : rel.keyText.read notStarted = some zero) (bounded : Bool) (ht : w.txn = some t)
    (hd : t.view.data = Table.fresh rows) :
    EndsWith (fun fuel => walkOut ((walk.over rel .twoStatement).batches env cfg codec
        (rel.upperBound bounded t.view.data) batch) fuel notStarted) w
      (· = rel.walked (fun _ k => decide (zero < k)) rows) := by
  have hu : rel.bound (rel.upperBound bounded t.view.data) = _ := bound_upperBound bounded _
  refine (twoStatement_walked henv hbatch hu ht ⟨zero, hzero, rfl⟩ hd).mono fun _ w' => ?_
  rintro ⟨t', ht', hd'⟩
  refine ⟨t', ht', hd'.trans (rel.walked_congr fun r hr _ => ?_)⟩
  have hin : within (if bounded then Relation.highest t.view.data else none) r.2.1 = true := by
    cases bounded with
    | false => rfl
    | true => simpa [hd] using within_highest hr
  simp [hin, Base.after]

/-- The walk along one column: every row that matches is changed once and no other is, where the
text "0" is a value of the key and all the rows that match are behind it. The change is any, so
also one that counts how often it is applied. -/
theorem twoStatement_walk_iff (henv : env.Answers) (cfg : Config) (codec : ArrayText)
    (walk : Walk (Table γ κ ρ)) (rel : Relation γ κ ρ) (rows : List (γ × κ × ρ))
    (hbatch : 0 < batch) (bounded : Bool) (ht : w.txn = some t)
    (hd : t.view.data = Table.fresh rows) :
    EndsWith (fun fuel => walkOut ((walk.over rel .twoStatement).batches env cfg codec
        (rel.upperBound bounded t.view.data) batch) fuel notStarted) w
      (· = rel.walked (fun _ _ => true) rows) ↔
    ∃ p, rel.keyText.read notStarted = some p ∧
      ∀ r ∈ rows, rel.filter r.2.2 = true → p < r.2.1 := by
  cases hp : rel.keyText.read notStarted with
  | none => exact iff_of_false (twoStatement_refused henv hp ht _) (by simp)
  | some p =>
    have hends : EndsWith (fun fuel => walkOut ((walk.over rel .twoStatement).batches env cfg codec
        (rel.upperBound bounded t.view.data) batch) fuel notStarted) w _ :=
      twoStatement_walked_behind henv hbatch hp bounded ht hd
    constructor
    · intro hall
      obtain ⟨d, hd₁, hd₂⟩ := hall.unique hends
      refine ⟨p, rfl, fun r hr hf => ?_⟩
      have hcovered := rel.walked_inj (hd₁.symm.trans hd₂) hr hf
      simpa using hcovered
    · rintro ⟨p', hp', hbehind⟩
      obtain rfl : p = p' := Option.some.inj hp'
      refine hends.mono fun _ w' => ?_
      rintro ⟨t', ht', hd'⟩
      refine ⟨t', ht', hd'.trans (rel.walked_congr fun r hr hf => ?_)⟩
      simp [hbehind r hr hf]

end

/-! ## A key that is not behind the first cursor -/

/-- The walk over rows whose key is a digit, one row a batch. -/
noncomputable def digitWalk (rows : List (Unit × Fin 4 × Bool)) (fuel : Nat) :
    Exec (Table Unit (Fin 4) Bool) String :=
  walkOut (Walk.batches (Walk.over { ordinal := 0, sql := unfilled.walkSql .twoStatement } unfilled
    .twoStatement) {} { batchRows := 1, batchRows_pos := Int.one_pos } jsonStrings
    (unfilled.upperBound false (Table.fresh rows)) 1) fuel notStarted

theorem twoStatement_walk_threeRows :
    EndsWith (digitWalk threeRows) (.opened threeRows)
      (· = unfilled.walked (fun _ _ => true) threeRows) :=
  (twoStatement_walk_iff (w := .opened threeRows) (fun _ => rfl) { batchRows := 1 } jsonStrings
    { ordinal := 0, sql := unfilled.walkSql .twoStatement } unfilled threeRows (by decide) false
    rfl rfl).mpr ⟨0, by decide, by decide⟩

/-- A row whose key is zero is not behind "0": the walk ends without it. -/
theorem twoStatement_walk_skips_zero :
    ¬ EndsWith (digitWalk [((), 0, false), ((), 2, false)])
      (.opened [((), 0, false), ((), 2, false)])
      (· = unfilled.walked (fun _ _ => true) [((), 0, false), ((), 2, false)]) := by
  rintro ⟨c, w', enough, hrun, t', ht', hd'⟩
  have hrun' := hrun (enough + 3) (by omega)
  have hthree : digitWalk [((), 0, false), ((), 2, false)] (enough + 3)
      (.opened [((), 0, false), ((), 2, false)]) =
      digitWalk [((), 0, false), ((), 2, false)] 3
        (.opened [((), 0, false), ((), 2, false)]) := by
    rfl
  rw [hthree] at hrun'
  have htxn := congrArg (fun r => r.2.txn.map fun t => t.view.data) hrun'
  simp only [ht', hd', Option.map_some] at htxn
  revert htxn
  decide +kernel

end Executor
end Laswell
