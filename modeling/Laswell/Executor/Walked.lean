import Mathlib.Order.Lattice.Nat
import Laswell.Executor.Walk
import Laswell.Executor.Table

/-!
# Laswell.Executor.Walked

Walks that are run to their end, with nothing failing and nobody else writing: batch after batch,
each from the cursor of the one before, until a batch considers nothing.

* `walkOut`: the loop.
* `Relation.walked`: the rows, with the change applied once to those a position has passed.
* `applyKeys_walked`: what a batch taken from a page does to them.
* `walkOut_ends`: the rule for such a loop, from what one batch does.
-/

namespace Laswell
namespace Executor

open Base

/-! ## A server that refuses nothing -/

def Env.Answers (env : Env) : Prop := ∀ n, env.sql n = none

section Session

variable {δ α : Type} {env : Env} {w : World δ} {t : Txn δ}

theorem call_ok (henv : env.Answers) :
    (call env : Exec δ Unit) w = (.ok (), { w with tick := w.tick + 1 }) := by
  have hask : (ask env.sql : Exec δ _) w = (.ok none, { w with tick := w.tick + 1 }) := by
    have hnone := henv w.tick
    rw [← hnone]
    rfl
  rw [call, Prog.bind_ok hask]
  rfl

theorem openTxn_ok (ht : w.txn = some t) : (openTxn : Exec δ (Txn δ)) w = (.ok t, w) := by
  rw [openTxn, Prog.bind_gets, ht]
  rfl

theorem exec_ok (henv : env.Answers) (ht : w.txn = some t) {f : Db δ → Except Failure (α × Db δ)}
    {a : α} {db : Db δ} (hf : f t.view = .ok (a, db)) :
    exec env f w =
      (.ok a, { w with tick := w.tick + 1, txn := some { t with view := db } }) := by
  rw [exec, Prog.bind_ok (openTxn_ok ht), Prog.bind_ok (call_ok henv), hf]
  simp [Prog.bind_modify, setView, ht]
  rfl

theorem exec_error (henv : env.Answers) (ht : w.txn = some t)
    {f : Db δ → Except Failure (α × Db δ)} {e : Failure} (hf : f t.view = .error e) :
    exec env f w = (.err e, { w with tick := w.tick + 1 }) := by
  rw [exec, Prog.bind_ok (openTxn_ok ht), Prog.bind_ok (call_ok henv), hf]
  rfl

theorem onData_ok (henv : env.Answers) (ht : w.txn = some t) {f : δ → Except Failure (α × δ)}
    {a : α} {d : δ} (hf : f t.view.data = .ok (a, d)) :
    onData env f w = (.ok a, { w with
      tick := w.tick + 1, txn := some { t with view := { t.view with data := d } } }) :=
  exec_ok henv ht (by simp [hf, Except.map])

theorem readData_ok (henv : env.Answers) (ht : w.txn = some t) {f : δ → Except Failure α}
    {a : α} (hf : f t.view.data = .ok a) :
    readData env f w = (.ok a, { w with tick := w.tick + 1 }) := by
  rw [readData, onData_ok henv ht (a := a) (d := t.view.data) (by simp [hf, Except.map])]
  simp [← ht]

theorem onData_error (henv : env.Answers) (ht : w.txn = some t)
    {f : δ → Except Failure (α × δ)} {e : Failure} (hf : f t.view.data = .error e) :
    onData env f w = (.err e, { w with tick := w.tick + 1 }) :=
  exec_error henv ht (by simp [hf, Except.map])

theorem readData_error (henv : env.Answers) (ht : w.txn = some t) {f : δ → Except Failure α}
    {e : Failure} (hf : f t.view.data = .error e) :
    readData env f w = (.err e, { w with tick := w.tick + 1 }) :=
  onData_error henv ht (by simp [hf, Except.map])

end Session

theorem considered_ne_zero {returned named : Nat} (h : 0 < named) :
    considered returned named ≠ 0 := by
  unfold considered
  split <;> omega

/-! ## The loop -/

/-- What `resume_cursor` returns where there is nothing to resume from. -/
def notStarted : String := "0"

section Loop

variable {δ : Type}

/-- The batches of a walk, each from a cursor. -/
def Walk.batches (walk : Walk δ) (env : Env) (cfg : Config) (codec : ArrayText)
    (upto : List (Option String)) (batch : Int) (cursor : String) : Exec δ BatchOutcome :=
  runBatch env cfg codec walk upto batch { cursor := cursor, rowsDone := 0 }

/-- A batch, after which the walk is at its end or goes on. -/
def walkOnce (batchAt : String → Exec δ BatchOutcome) (cursor : String) :
    Exec δ (String ⊕ String) := do
  let outcome ← batchAt cursor
  if outcome.considered = 0 then pure (.inr outcome.cursor) else pure (.inl outcome.cursor)

def walkOut (batchAt : String → Exec δ BatchOutcome) (fuel : Nat) (cursor : String) :
    Exec δ String :=
  Prog.loop (walkOnce batchAt) fuel cursor

theorem walkOnce_eq {batchAt : String → Exec δ BatchOutcome} {c : String} {w w' : World δ}
    {o : BatchOutcome} (h : batchAt c w = (.ok o, w')) :
    walkOnce batchAt c w =
      (.ok (if o.considered = 0 then .inr o.cursor else .inl o.cursor), w') := by
  rw [walkOnce, Prog.bind_ok h]
  split <;> rfl

/-- The batch returns, in the transaction it was begun in. -/
def Returns (p : Exec δ BatchOutcome) (w : World δ) (R : BatchOutcome → δ → Prop) : Prop :=
  ∃ o w' t', p w = (.ok o, w') ∧ w'.txn = some t' ∧ R o t'.view.data

theorem Returns.mono {p : Exec δ BatchOutcome} {w : World δ}
    {R R' : BatchOutcome → δ → Prop} (h : Returns p w R) (hR : ∀ o d, R o d → R' o d) :
    Returns p w R' := by
  obtain ⟨o, w', t', hrun, ht', hr⟩ := h
  exact ⟨o, w', t', hrun, ht', hR _ _ hr⟩

/-- In the end the data is as `Q` says. -/
def EndsWith (p : Nat → Exec δ String) (w : World δ) (Q : δ → Prop) : Prop :=
  Prog.Ends p (fun _ w' => ∃ t', w'.txn = some t' ∧ Q t'.view.data) w

/-- A loop in one transaction, whose passes each leave less to do or are the last one. -/
theorem loop_ends {β γ : Type} {body : β → Exec δ (β ⊕ γ)} (I : Nat → β → δ → Prop)
    {Q : δ → Prop}
    (hbody : ∀ n b w t, w.txn = some t → I n b t.view.data →
      ∃ x w' t', body b w = (.ok x, w') ∧ w'.txn = some t' ∧
        x.elim (fun b' => ∃ n' < n, I n' b' t'.view.data) fun _ => Q t'.view.data)
    {n : Nat} {b : β} {w : World δ} {t : Txn δ} (ht : w.txn = some t) (hI : I n b t.view.data) :
    Prog.Ends (fun fuel => Prog.loop body fuel b)
      (fun _ w' => ∃ t', w'.txn = some t' ∧ Q t'.view.data) w := by
  -- what is left is the least amount for which the invariant holds
  let left (b : β) (w : World δ) : Set Nat := {n | ∃ t, w.txn = some t ∧ I n b t.view.data}
  refine Prog.ends_loop (fun b w => (left b w).Nonempty) wellFounded_lt
    (fun b w => sInf (left b w)) ?_ ⟨n, t, ht, hI⟩
  intro b w hleft
  obtain ⟨t, ht, hI⟩ := Nat.sInf_mem hleft
  obtain ⟨x, w', t', hrun, ht', hx⟩ := hbody _ b w t ht hI
  cases x with
  | inl b' =>
    obtain ⟨n', hless, hI'⟩ := hx
    have hmem : n' ∈ left b' w' := ⟨t', ht', hI'⟩
    exact Prog.ends_of_eq hrun ⟨⟨n', hmem⟩, lt_of_le_of_lt (Nat.sInf_le hmem) hless⟩
  | inr c => exact Prog.ends_of_eq hrun ⟨t', ht', hx⟩

/-- Each batch considers something and leaves less to do, or there is nothing left. -/
theorem walkOut_ends {batchAt : String → Exec δ BatchOutcome} (I : Nat → String → δ → Prop)
    {Q : δ → Prop}
    (hbatch : ∀ n c w t, w.txn = some t → I n c t.view.data →
      Returns (batchAt c) w fun o d' =>
        (o.considered = 0 ∧ Q d') ∨ (o.considered ≠ 0 ∧ ∃ n' < n, I n' o.cursor d'))
    {n : Nat} {c : String} {w : World δ} {t : Txn δ} (ht : w.txn = some t)
    (hI : I n c t.view.data) : EndsWith (fun fuel => walkOut batchAt fuel c) w Q := by
  refine loop_ends I ?_ ht hI
  intro n c w t ht hI
  obtain ⟨o, w', t', hrun, ht', hcase⟩ := hbatch n c w t ht hI
  refine ⟨_, w', t', walkOnce_eq hrun, ht', ?_⟩
  rcases hcase with ⟨hzero, hQ⟩ | ⟨hsome, hless⟩
  · rw [if_pos hzero]
    exact hQ
  · rw [if_neg hsome]
    exact hless

/-- A batch that throws at once ends the walk with its exception. -/
theorem not_ends_of_throws {batchAt : String → Exec δ BatchOutcome} {c : String} {w w' : World δ}
    {e : Failure} {Q : δ → Prop} (h : batchAt c w = (.err e, w')) :
    ¬ EndsWith (fun fuel => walkOut batchAt fuel c) w Q := by
  rintro ⟨a, s', enough, hrun, -⟩
  have hrun' : walkOut batchAt (enough + 1) c w = (.ok a, s') := hrun _ (by omega)
  have hthrow : walkOnce batchAt c w = (.err e, w') := Prog.bind_err h
  rw [walkOut, Prog.loop, Prog.bind_err hthrow] at hrun'
  cases hrun'

/-- Where a walk comes by, a batch at a time. -/
inductive Walking (batchAt : String → Exec δ BatchOutcome) (c : String) (w : World δ) :
    String → World δ → Prop
  | start : Walking batchAt c w c w
  | batch {c' : String} {w' w'' : World δ} {o : BatchOutcome} : Walking batchAt c w c' w' →
      batchAt c' w' = (.ok o, w'') → o.considered ≠ 0 → Walking batchAt c w o.cursor w''

/-- A walk has one end. -/
theorem EndsWith.unique {p : Nat → Exec δ String} {w : World δ} {Q Q' : δ → Prop}
    (h : EndsWith p w Q) (h' : EndsWith p w Q') : ∃ d, Q d ∧ Q' d := by
  obtain ⟨a, s, m, hp, t, ht, hQ⟩ := h
  obtain ⟨a', s', n, hp', t', ht', hQ'⟩ := h'
  have hsame := (hp (max m n) (by omega)).symm.trans (hp' (max m n) (by omega))
  obtain ⟨-, rfl⟩ := Prod.mk.inj hsame
  obtain rfl : t = t' := Option.some.inj (ht.symm.trans ht')
  exact ⟨_, hQ, hQ'⟩

end Loop

/-! ## Rows that a position has passed -/

section Walked

variable {γ κ ρ : Type}

/-- A row once the change has been applied to what the walk found there. -/
def Row.done (rel : Relation γ κ ρ) (group : γ) (key : κ) (value : ρ) : Row γ κ ρ :=
  { group, key, found := value, now := rel.change value, applied := true }

namespace Relation

variable (rel : Relation γ κ ρ)

def walkedRow (covered : γ → κ → Bool) (r : γ × κ × ρ) : Row γ κ ρ :=
  if rel.filter r.2.2 && covered r.1 r.2.1 then Row.done rel r.1 r.2.1 r.2.2
  else Row.fresh r.1 r.2.1 r.2.2

@[simp] theorem walkedRow_key (covered : γ → κ → Bool) (r : γ × κ × ρ) :
    (walkedRow rel covered r).key = r.2.1 := by
  unfold walkedRow
  split <;> rfl

@[simp] theorem walkedRow_group (covered : γ → κ → Bool) (r : γ × κ × ρ) :
    (walkedRow rel covered r).group = r.1 := by
  unfold walkedRow
  split <;> rfl

theorem walkedRow_out {covered : γ → κ → Bool} {r : γ × κ × ρ}
    (h : rel.filter r.2.2 = true → covered r.1 r.2.1 = false) :
    walkedRow rel covered r = Row.fresh r.1 r.2.1 r.2.2 := by
  cases hf : rel.filter r.2.2 with
  | false => simp [walkedRow, hf]
  | true => simp [walkedRow, hf, h hf]

theorem walkedRow_done {covered : γ → κ → Bool} {r : γ × κ × ρ} (hf : rel.filter r.2.2 = true)
    (h : covered r.1 r.2.1 = true) :
    walkedRow rel covered r = Row.done rel r.1 r.2.1 r.2.2 := by
  simp [walkedRow, hf, h]

/-- A row that is not covered matches as the walk found it. -/
theorem walkedRow_matched {covered : γ → κ → Bool} {r : γ × κ × ρ}
    (h : covered r.1 r.2.1 = false) :
    (walkedRow rel covered r).matched rel = rel.filter r.2.2 := by
  rw [walkedRow_out rel fun _ => h]
  simp [Row.matched, Row.fresh]

/-- The table, with the change applied once to the rows that match and are covered. -/
def walked (covered : γ → κ → Bool) (rows : List (γ × κ × ρ)) : Table γ κ ρ :=
  rows.map (walkedRow rel covered)

/-- The keys of the rows that match as the walk finds them. -/
def wanted (rows : List (γ × κ × ρ)) : List κ :=
  (rows.filter fun r => rel.filter r.2.2).map fun r => r.2.1

theorem walked_congr {covered covered' : γ → κ → Bool} {rows : List (γ × κ × ρ)}
    (h : ∀ r ∈ rows, rel.filter r.2.2 = true → covered r.1 r.2.1 = covered' r.1 r.2.1) :
    rel.walked covered rows = rel.walked covered' rows := by
  refine List.map_congr_left fun r hr => ?_
  cases hf : rel.filter r.2.2 with
  | true => simp [walkedRow, h r hr hf]
  | false => simp [walkedRow, hf]

theorem walked_none (rows : List (γ × κ × ρ)) :
    rel.walked (fun _ _ => false) rows = Table.fresh rows := by
  simp [walked, walkedRow, Table.fresh]

/-- The rows that are covered are told apart by the table. -/
theorem walked_inj {covered covered' : γ → κ → Bool} {rows : List (γ × κ × ρ)}
    (h : rel.walked covered rows = rel.walked covered' rows) {r : γ × κ × ρ} (hr : r ∈ rows)
    (hf : rel.filter r.2.2 = true) : covered r.1 r.2.1 = covered' r.1 r.2.1 := by
  have hrow := (List.map_inj_left.mp h) r hr
  simp only [walkedRow, hf, Bool.true_and] at hrow
  cases hc : covered r.1 r.2.1 <;> cases hc' : covered' r.1 r.2.1 <;>
    simp_all [Row.done, Row.fresh]

/-- A statement that names rows the walk has not covered covers them too. -/
theorem mutate_walked (named : γ → κ → Bool) {covered covered' : γ → κ → Bool}
    {rows : List (γ × κ × ρ)} (h : ∀ r ∈ rows, rel.filter r.2.2 = true →
      (named r.1 r.2.1 = true → covered r.1 r.2.1 = false) ∧
        covered' r.1 r.2.1 = (covered r.1 r.2.1 || named r.1 r.2.1)) :
    (rel.mutate (fun r => named r.group r.key) (rel.walked covered rows)).2 =
      rel.walked covered' rows := by
  simp only [Relation.mutate, Relation.walked, List.map_map]
  refine List.map_congr_left fun r hr => ?_
  rw [Function.comp_apply]
  cases hf : rel.filter r.2.2 with
  | false =>
    have hno : ∀ {b}, rel.filter r.2.2 = true → b = false := fun h => by simp [hf] at h
    rw [rel.walkedRow_out hno, rel.walkedRow_out hno]
    simp [Row.mutate, Row.matched, Row.fresh, hf]
  | true =>
    obtain ⟨hnew, hcovered'⟩ := h r hr hf
    cases hn : named r.1 r.2.1 with
    | true =>
      have hbehind : covered' r.1 r.2.1 = true := by simp [hcovered', hn]
      rw [rel.walkedRow_out fun _ => hnew hn, rel.walkedRow_done hf hbehind]
      simp [Row.mutate, Row.matched, Row.fresh, Row.done, hn, hf]
    | false =>
      have hsame : rel.walkedRow covered r = rel.walkedRow covered' r := by
        simp [walkedRow, hcovered', hn]
      rw [hsame]
      simp [Row.mutate, hn]

end Relation

/-! ## Positions -/

section Positions

variable [LinearOrder κ] {rel : Relation γ κ ρ} {rows : List (γ × κ × ρ)}
  {start u q : Option κ} {k m : κ} {taken : List κ} {limit : Int}

/-- Where a walk from `start` up to the bound `u` may stand: at its start, or on a key it
reached. -/
def Position (start u q : Option κ) : Prop :=
  q = start ∨ ∃ m, q = some m ∧ after start m = true ∧ within u m = true

theorem after_trans (hm : after start m = true) (hmk : m ≤ k) : after start k = true := by
  cases start with
  | none => rfl
  | some s =>
    have hlt : s < m := by simpa [after] using hm
    simpa [after] using lt_of_lt_of_le hlt hmk

theorem Position.after_start (h : Position start u q) (hk : after q k = true) :
    after start k = true := by
  rcases h with rfl | ⟨m, rfl, hm, -⟩
  · exact hk
  · have hlt : m < k := by simpa [after] using hk
    exact after_trans hm hlt.le

/-- What the walk has passed on its way from `start` to `q`. -/
def passed (start q : Option κ) : γ → κ → Bool := fun _ k => after start k && !after q k

theorem passed_start (rows : List (γ × κ × ρ)) :
    rel.walked (passed start start) rows = Table.fresh rows := by
  rw [← rel.walked_none rows]
  exact rel.walked_congr fun r _ _ => by simp [passed]

/-- A page sees the rows that match as the walk found them: those that changed are behind it. -/
theorem span_walked (rows : List (γ × κ × ρ)) :
    span q u (rel.matchedKeys (rel.walked (passed start q) rows)) =
      span q u (rel.wanted rows) := by
  have hkeys : (rel.matchedKeys (rel.walked (passed start q) rows)).filter
        (fun k => after q k && within u k) =
      (rel.wanted rows).filter fun k => after q k && within u k := by
    simp only [Relation.matchedKeys, Relation.walked, Relation.wanted, List.filter_map,
      List.map_map, List.filter_filter]
    have hsame : ∀ r ∈ rows,
        ((after q r.2.1 && within u r.2.1) &&
          (rel.walkedRow (passed start q) r).matched rel) =
        ((after q r.2.1 && within u r.2.1) && rel.filter r.2.2) := by
      intro r _
      cases hafter : after q r.2.1 with
      | false => simp
      | true => rw [rel.walkedRow_matched (by simp [passed, hafter])]
    simp only [Function.comp_def, Relation.walkedRow_key]
    rw [List.filter_congr hsame]
  rw [span, span, hkeys]

theorem selectPage_walked (rows : List (γ × κ × ρ)) :
    rel.selectPage q u limit (rel.walked (passed start q) rows) =
      page q u limit.toNat (rel.wanted rows) := by
  rw [Relation.selectPage, page, page, span_walked]

/-- What was taken of a page are the keys after its position and up to the last one taken. -/
theorem mem_taken_iff {ks : List κ} {limit : Nat} (htaken : taken <+: page q u limit ks)
    (hm : taken.getLast? = some m) (hk : k ∈ ks) : k ∈ taken ↔ after q k = true ∧ k ≤ m := by
  constructor
  · intro h
    refine ⟨(mem_of_page_isPrefix htaken h).2.1, ?_⟩
    have hsorted := (span_sorted q u ks).sublist (htaken.trans page_isPrefix).sublist
    exact le_getLast_of_sorted hsorted hm h
  · rintro ⟨hafter, hle⟩
    exact mem_of_le_getLast htaken hm hk hafter hle

omit [LinearOrder κ] in
theorem mem_wanted {r : γ × κ × ρ} (hr : r ∈ rows) (hf : rel.filter r.2.2 = true) :
    r.2.1 ∈ rel.wanted rows :=
  List.mem_map.mpr ⟨r, List.mem_filter.mpr ⟨hr, hf⟩, rfl⟩

/-- The rows of a batch are those between its position and its last key. -/
theorem applyKeys_walked (hq : Position start u q)
    (htaken : taken <+: page q u limit.toNat (rel.wanted rows)) (hm : taken.getLast? = some m) :
    (rel.applyKeys taken (rel.walked (passed start q) rows)).2 =
      rel.walked (passed start (some m)) rows := by
  have hlast := (mem_of_page_isPrefix htaken (List.mem_of_getLast? hm)).2
  refine rel.mutate_walked (fun _ k => decide (k ∈ taken)) fun r hr hf => ?_
  have hmem : r.2.1 ∈ taken ↔ after q r.2.1 = true ∧ r.2.1 ≤ m :=
    mem_taken_iff htaken hm (mem_wanted hr hf)
  cases hafter : after q r.2.1 with
  | true =>
    have hstart := hq.after_start hafter
    refine ⟨fun _ => by simp [passed, hafter], ?_⟩
    by_cases hle : r.2.1 ≤ m
    · have hin : r.2.1 ∈ taken := hmem.mpr ⟨hafter, hle⟩
      have hupto : after (some m) r.2.1 = false := by simpa [after] using hle
      simp [passed, hstart, hupto, hin]
    · have hout : r.2.1 ∉ taken := fun h => hle (hmem.mp h).2
      have hbeyond : after (some m) r.2.1 = true := by simpa [after] using hle
      simp [passed, hafter, hbeyond, hout]
  | false =>
    have hout : r.2.1 ∉ taken := fun h => by simpa [hafter] using hmem.mp h
    have hbehind : after (some m) r.2.1 = false := by
      obtain ⟨p, rfl, hp⟩ := after_eq_false.mp hafter
      have hlt : p < m := by simpa [after] using hlast.1
      simpa [after] using hp.trans hlt.le
    exact ⟨fun h => absurd (of_decide_eq_true h) hout, by simp [passed, hafter, hbehind, hout]⟩

/-- How many rows a walk has still to come to. -/
def ahead (rel : Relation γ κ ρ) (rows : List (γ × κ × ρ)) (u q : Option κ) : Nat :=
  (span q u (rel.wanted rows)).length

theorem ahead_lt (hm : m ∈ span q u (rel.wanted rows)) :
    ahead rel rows u (some m) < ahead rel rows u q := by
  have hmem := mem_span.mp hm
  simp only [ahead, span, List.length_insertionSort]
  -- what is after the key is after the position, and the key itself is not
  have hsub : (rel.wanted rows).filter (fun k => after (some m) k && within u k) =
      ((rel.wanted rows).filter fun k => after q k && within u k).filter (after (some m)) := by
    rw [List.filter_filter]
    refine List.filter_congr fun k _ => ?_
    cases hk : after (some m) k with
    | false => simp
    | true =>
      have hlt : m < k := by simpa [after] using hk
      simp [after_trans hmem.2.1 hlt.le]
  rw [hsub]
  refine List.length_filter_lt_length_iff_exists.mpr ⟨m, ?_, by simp [after]⟩
  exact List.mem_filter.mpr ⟨hmem.1, by simp [hmem.2.1, hmem.2.2]⟩

/-- A walk that finds an empty page has passed all there is up to its bound. -/
theorem walked_of_page_nil (hq : Position start u q) {limit : Nat} (hlimit : 0 < limit)
    (h : page q u limit (rel.wanted rows) = []) :
    rel.walked (passed start q) rows =
      rel.walked (fun _ k => after start k && within u k) rows := by
  have hnil : span q u (rel.wanted rows) = [] :=
    (List.take_eq_nil_iff.mp h).resolve_left (by omega)
  refine rel.walked_congr fun r hr hf => ?_
  have hnot : ¬(after q r.2.1 = true ∧ within u r.2.1 = true) := fun hboth => by
    have hmem := mem_span.mpr ⟨mem_wanted hr hf, hboth⟩
    simp [hnil] at hmem
  cases hafter : after q r.2.1 with
  | true =>
    have hbeyond : within u r.2.1 = false := by simpa [hafter] using hnot
    simp [passed, hafter, hbeyond]
  | false =>
    rcases hq with rfl | ⟨m, rfl, -, hm⟩
    · simp [passed, hafter]
    · have hle : r.2.1 ≤ m := by simpa [after] using hafter
      have hin : within u r.2.1 = true := by
        cases u with
        | none => rfl
        | some b =>
          have hmb : m ≤ b := by simpa [within] using hm
          simpa [within] using hle.trans hmb
      simp [passed, hafter, hin]

end Positions

end Walked

/-- A worker with its transaction open on the rows. -/
def World.opened {γ κ ρ : Type} (rows : List (γ × κ × ρ)) : World (Table γ κ ρ) where
  durable := { data := Table.fresh rows }
  txn := some { view := { data := Table.fresh rows }, work := [] }

end Executor
end Laswell
