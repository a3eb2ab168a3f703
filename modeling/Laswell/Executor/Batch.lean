import Mathlib
import Laswell.Executor.Session

/-!
# Laswell.Executor.Batch

One batch of a walk, in each of its forms. The server's part of it, what the planned statements
select and change, is given by functions of the data (`WalkSql`); the executor's part is which
keys are taken, within the byte budget, and where the cursor goes.

`WalkSql.Sweeps` says what the statements of a walk have to keep, as a relation between the cursor
and the data; each form of a batch then keeps it too, and changes nothing but the view of its
transaction (`BatchDone`).
-/

namespace Laswell
namespace Executor

open Base

/-- `skippedOnly`: the batch only went past finished groups. `commitFirst`: a group ended with
batches uncommitted. -/
structure BatchOutcome where
  skippedOnly : Bool := false
  considered : Int := 0
  cursor : String
  commitFirst : Bool := false
  deriving DecidableEq

/-- Arrays of strings as `nlohmann::json` writes and reads them, and `scalar`, how it writes one
value: a string or a null. -/
structure ArrayText where
  scalar : Option String → String
  dump : List String → String
  parse : String → Option (List String)
  parse_dump : ∀ xs, parse (dump xs) = some xs
  dump_ne_zero : ∀ xs, dump xs ≠ "0"
  dump_ne_empty : ∀ xs, dump xs ≠ ""

/-- The statements of a walk, as the server answers them: by one statement that selects and
applies, by two, along all the columns of a key, or group by group. A cursor that is not there is
passed as NULL. -/
inductive WalkSql (δ : Type) where
  | statement (run : String → Int → δ → Except Failure (List String × δ))
  | twoStatement
      (select : String → Int → List (Option String) → δ → Except Failure (List String))
      (apply : List String → δ → Except Failure (Nat × δ))
  | composite (columns : Nat)
      (select : Option (List String) → Int → List (Option String) → δ →
        Except Failure (List (List String)))
      (apply : List (List String) → δ → Except Failure (Nat × δ))
  | compositeStatement (columns : Nat)
      (run : Option (List String) → Int → List (Option String) → δ →
        Except Failure (List (List String) × δ))
  | grouped (groups : Option String → δ → Except Failure (Option String))
      (select : String → Option String → Int → δ → Except Failure (List String))
      (apply : String → List String → δ → Except Failure (Nat × δ))

section Keys

variable {α : Type}

/-- The rows of a selection up to the byte budget, but never none of them. `taken` is the bytes
of the rows before, if there are any. -/
def withinBudget (size : α → Int) (budget : Int) : Option Int → List α → List α
  | _, [] => []
  | none, v :: vs => v :: withinBudget size budget (some (size v)) vs
  | some bytes, v :: vs =>
    if budget < bytes + size v then []
    else v :: withinBudget size budget (some (bytes + size v)) vs

def keyBytes (key : String) : Int := key.utf8ByteSize

def rowBytes (row : List String) : Int := (row.map keyBytes).sum

/-- Rows considered: those the mutation returned, and where it returned none, those it named. -/
def considered (returned : Nat) (named : Nat) : Int := if returned = 0 then named else returned

end Keys

/-- Where a grouped walk has got to: which value of the group column, and how far into it. -/
structure GroupCursor where
  group : String := ""
  key : String := ""
  deriving DecidableEq

def GroupCursor.encode (codec : ArrayText) (c : GroupCursor) : String :=
  codec.dump [c.group, c.key]

def GroupCursor.decode (codec : ArrayText) (text : String) : Option GroupCursor :=
  if text = "" ∨ text = "0" then some {}
  else
    match codec.parse text with
    | some [group, key] => some { group, key }
    | _ => none

/-- An empty position is a real NULL. -/
def maybe (v : String) : Option String := if v = "" then none else some v

/-- The position of a composite walk; `none` is a cursor that could not be read. -/
def compositeAt (codec : ArrayText) (columns : Nat) (cursor : String) :
    Option (Option (List String)) :=
  if cursor = "" ∨ cursor = "0" then some none
  else
    match codec.parse cursor with
    | some values => if values.length = columns then some (some values) else none
    | none => none

def unreadableComposite (cursor : String) : Failure :=
  .runtime ("a composite walk could not read its own cursor: \"" ++ cursor ++ "\"")

def unreadableGrouped (cursor : String) : Failure :=
  .runtime ("a grouped walk could not read its own cursor: \"" ++ cursor ++ "\"")

variable {δ : Type} (env : Env) (codec : ArrayText)

def runPacedStatement (run : String → Int → δ → Except Failure (List String × δ))
    (cursor : String) (batch : Int) : Exec δ BatchOutcome := do
  let keys ← onData env (run cursor batch)
  pure { cursor := keys.getLast?.getD cursor, considered := keys.length }

def runPacedBatch (select : String → Int → List (Option String) → δ → Except Failure (List String))
    (apply : List String → δ → Except Failure (Nat × δ)) (cursor : String)
    (batch batchBytes : Int) (upto : List (Option String)) : Exec δ BatchOutcome := do
  let selected ← readData env (select cursor batch upto)
  match (withinBudget keyBytes batchBytes none selected).getLast? with
  | none => pure { cursor := cursor }
  | some last =>
    let keys := withinBudget keyBytes batchBytes none selected
    let returned ← onData env (apply keys)
    pure { cursor := last, considered := considered returned keys.length }

def runCompositeStatement (columns : Nat)
    (run : Option (List String) → Int → List (Option String) → δ →
      Except Failure (List (List String) × δ))
    (cursor : String) (batch : Int) (upto : List (Option String)) : Exec δ BatchOutcome := do
  match compositeAt codec columns cursor with
  | none => Prog.throw (unreadableComposite cursor)
  | some position =>
    let rows ← onData env (run position batch upto)
    pure { cursor := (rows.getLast?.map codec.dump).getD cursor, considered := rows.length }

def runCompositeBatch (columns : Nat)
    (select : Option (List String) → Int → List (Option String) → δ →
      Except Failure (List (List String)))
    (apply : List (List String) → δ → Except Failure (Nat × δ)) (cursor : String)
    (batch batchBytes : Int) (upto : List (Option String)) : Exec δ BatchOutcome := do
  match compositeAt codec columns cursor with
  | none => Prog.throw (unreadableComposite cursor)
  | some position =>
    let selected ← readData env (select position batch upto)
    match (withinBudget rowBytes batchBytes none selected).getLast? with
    | none => pure { cursor := cursor }
    | some last =>
      let rows := withinBudget rowBytes batchBytes none selected
      let returned ← onData env (apply rows)
      pure { cursor := codec.dump last, considered := considered returned rows.length }

section Grouped

variable (groups : Option String → δ → Except Failure (Option String))
  (select : String → Option String → Int → δ → Except Failure (List String))
  (apply : String → List String → δ → Except Failure (Nat × δ))
  (batch batchBytes : Int) (holdsLocks : Bool)

/-- The group to look into: the one the cursor is in, or before any, the first. -/
def enterGroup (at_ : GroupCursor) : Exec δ (Option GroupCursor) := do
  if at_.group = "" then
    match ← readData env (groups (maybe at_.group)) with
    | none => pure none
    | some group => pure (some { group, key := "" })
  else pure (some at_)

/-- The batch inside one group. `.inl`: the group is done, and this is the next one to look at. -/
def lookIntoGroup (at_ : GroupCursor) : Exec δ (GroupCursor ⊕ BatchOutcome) := do
  let selected ← readData env (select at_.group (maybe at_.key) batch)
  match (withinBudget keyBytes batchBytes none selected).getLast? with
  | none =>
    if holdsLocks then pure (.inr { cursor := at_.encode codec, commitFirst := true })
    else
      match ← readData env (groups (maybe at_.group)) with
      | none => pure (.inr { cursor := at_.encode codec })
      | some group => pure (.inl { group, key := "" })
  | some last =>
    let keys := withinBudget keyBytes batchBytes none selected
    let returned ← onData env (apply at_.group keys)
    pure (.inr { cursor := { at_ with key := last : GroupCursor }.encode codec
                 considered := considered returned keys.length })

/-- Up to so many groups are looked at in one batch. -/
def groupsPerBatch : Nat := 64

def lookAtGroups : Nat → GroupCursor → Exec δ BatchOutcome
  | 0, at_ => pure { cursor := at_.encode codec, skippedOnly := true }
  | looks + 1, at_ => do
    match ← enterGroup env groups at_ with
    | none => pure { cursor := at_.encode codec }
    | some at_ =>
      match ← lookIntoGroup env codec groups select apply batch batchBytes holdsLocks at_ with
      | .inr outcome => pure outcome
      | .inl next => lookAtGroups looks next

def runGroupedBatch (from_ : GroupCursor) : Exec δ BatchOutcome :=
  lookAtGroups env codec groups select apply batch batchBytes holdsLocks groupsPerBatch from_

end Grouped

/-! ## What a batch keeps -/

section Keys

variable {α : Type} {size : α → Int} {budget : Int}

theorem withinBudget_isPrefix : ∀ (bytes : Option Int) (vs : List α),
    withinBudget size budget bytes vs <+: vs
  | _, [] => List.prefix_refl _
  | none, v :: vs => by
    rw [withinBudget, List.prefix_cons_inj]
    exact withinBudget_isPrefix _ vs
  | some bytes, v :: vs => by
    rw [withinBudget]
    split
    · exact List.nil_prefix
    · rw [List.prefix_cons_inj]
      exact withinBudget_isPrefix _ vs

/-- A budget never leaves a selection without progress. -/
theorem withinBudget_eq_nil {vs : List α} : withinBudget size budget none vs = [] ↔ vs = [] := by
  cases vs <;> simp [withinBudget]

end Keys

/-- The statements of a walk by group: `enter` and `next` find the group to go on with, `apply`
does the batch, and `reencode` is a cursor written anew. -/
structure GroupsSweep (P : String → δ → Prop)
    (groups : Option String → δ → Except Failure (Option String))
    (select : String → Option String → Int → δ → Except Failure (List String))
    (apply : String → List String → δ → Except Failure (Nat × δ)) : Prop where
  reencode : ∀ c at_ d, GroupCursor.decode codec c = some at_ → P c d → P (at_.encode codec) d
  enter : ∀ c d group, P c d → groups none d = .ok (some group) →
    P (GroupCursor.encode codec { group, key := "" }) d
  next : ∀ (at_ : GroupCursor) batch d group, 0 < batch → at_.group ≠ "" →
    P (at_.encode codec) d → select at_.group (maybe at_.key) batch d = .ok [] →
    groups (some at_.group) d = .ok (some group) →
    P (GroupCursor.encode codec { group, key := "" }) d
  apply : ∀ (at_ : GroupCursor) batch d selected keys last returned d',
    P (at_.encode codec) d → select at_.group (maybe at_.key) batch d = .ok selected →
    keys <+: selected → keys.getLast? = some last →
    apply at_.group keys d = .ok (returned, d') →
    P (GroupCursor.encode codec { at_ with key := last }) d'

/-- What the statements have to do for `P` to hold of the cursor and the data after each batch. -/
def WalkSql.Sweeps (P : String → δ → Prop) : WalkSql δ → Prop
  | .statement run => ∀ c batch d keys d', P c d → run c batch d = .ok (keys, d') →
      P (keys.getLast?.getD c) d'
  | .twoStatement select apply => ∀ c batch upto d selected keys last returned d', P c d →
      select c batch upto d = .ok selected → keys <+: selected → keys.getLast? = some last →
      apply keys d = .ok (returned, d') → P last d'
  | .composite columns select apply =>
      ∀ c position batch upto d selected rows last returned d', P c d →
      compositeAt codec columns c = some position →
      select position batch upto d = .ok selected → rows <+: selected →
      rows.getLast? = some last → apply rows d = .ok (returned, d') → P (codec.dump last) d'
  | .compositeStatement columns run => ∀ c position batch upto d rows d', P c d →
      compositeAt codec columns c = some position → run position batch upto d = .ok (rows, d') →
      P ((rows.getLast?.map codec.dump).getD c) d'
  | .grouped groups select apply => GroupsSweep codec P groups select apply

/-- What the statements keep, they keep under any assumption. -/
theorem WalkSql.Sweeps.under {codec : ArrayText} {P : String → δ → Prop} (H : Prop) :
    ∀ {sql : WalkSql δ}, sql.Sweeps codec P → sql.Sweeps codec (fun c d => H → P c d)
  | .statement _, h => fun c batch d keys d' hP hrun hH => h c batch d keys d' (hP hH) hrun
  | .twoStatement _ _, h => fun c batch upto d selected keys last returned d' hP hs hk hl ha hH =>
    h c batch upto d selected keys last returned d' (hP hH) hs hk hl ha
  | .composite _ _ _, h =>
    fun c position batch upto d selected rows last returned d' hP hat hs hk hl ha hH =>
      h c position batch upto d selected rows last returned d' (hP hH) hat hs hk hl ha
  | .compositeStatement _ _, h => fun c position batch upto d rows d' hP hat hrun hH =>
    h c position batch upto d rows d' (hP hH) hat hrun
  | .grouped _ _ _, h =>
    { reencode := fun c at_ d hd hP hH => h.reencode c at_ d hd (hP hH)
      enter := fun c d group hP hg hH => h.enter c d group (hP hH) hg
      next := fun at_ batch d group hb hne hP hs hg hH =>
        h.next at_ batch d group hb hne (hP hH) hs hg
      apply := fun at_ batch d selected keys last returned d' hP hs hk hl ha hH =>
        h.apply at_ batch d selected keys last returned d' (hP hH) hs hk hl ha }

/-- After a batch in the transaction `t`: nothing but its view and the clock has moved, and
whatever the batch returns is right. -/
def BatchDone {α : Type} (P : α → δ → Prop) (w : World δ) (t : Txn δ)
    (o : Outcome Failure α) (w' : World δ) : Prop :=
  ∃ k db, w' = { w with tick := k, txn := some { t with view := db } } ∧
    match o with
    | .ok a => P a db.data
    | .err _ => True
    | .out => False

section Specs

variable {env codec} {w : World δ} {t : Txn δ} {P : String → δ → Prop}

theorem BatchDone.still {α : Type} {Q : α → δ → Prop} (ht : w.txn = some t) (k : Nat) {a : α}
    (h : Q a t.view.data) : BatchDone Q w t (.ok a) { w with tick := k } :=
  ⟨k, t.view, by rw [← ht], h⟩

theorem BatchDone.failed {α : Type} {Q : α → δ → Prop} (ht : w.txn = some t) (k : Nat)
    (e : Failure) : BatchDone Q w t (.err e) { w with tick := k } :=
  ⟨k, t.view, by rw [← ht], trivial⟩

theorem runPacedStatement_spec {run : String → Int → δ → Except Failure (List String × δ)}
    (hsql : (WalkSql.statement run).Sweeps codec P) (ht : w.txn = some t) {c : String}
    (hP : P c t.view.data) (batch : Int) :
    (runPacedStatement env run c batch).Wp (BatchDone (fun o => P o.cursor) w t) w := by
  rw [runPacedStatement, Prog.wp_bind]
  refine onData_wp (t := t) (by exact ht) ?_ fun e => Prog.andThen_err.2 (.failed ht _ e)
  intro keys d' hrun
  exact ⟨_, _, rfl, hsql c batch _ keys d' hP hrun⟩

theorem runPacedBatch_spec
    {select : String → Int → List (Option String) → δ → Except Failure (List String)}
    {apply : List String → δ → Except Failure (Nat × δ)}
    (hsql : (WalkSql.twoStatement select apply).Sweeps codec P) (ht : w.txn = some t) {c : String}
    (hP : P c t.view.data) (batch batchBytes : Int) (upto : List (Option String)) :
    (runPacedBatch env select apply c batch batchBytes upto).Wp
      (BatchDone (fun o => P o.cursor) w t) w := by
  rw [runPacedBatch, Prog.wp_bind]
  refine readData_wp ht ?_ fun e => Prog.andThen_err.2 (.failed ht _ e)
  intro selected hsel
  rw [Prog.andThen_ok]
  cases hlast : (withinBudget keyBytes batchBytes none selected).getLast? with
  | none => exact .still ht _ hP
  | some last =>
    simp only
    rw [Prog.wp_bind]
    refine onData_wp (t := t) (by exact ht) ?_ fun e => Prog.andThen_err.2 (.failed ht _ e)
    intro returned d' happly
    exact ⟨_, _, rfl, hsql c batch upto _ selected _ last returned d' hP hsel
      (withinBudget_isPrefix _ _) hlast happly⟩

theorem runCompositeStatement_spec {columns : Nat}
    {run : Option (List String) → Int → List (Option String) → δ →
      Except Failure (List (List String) × δ)}
    (hsql : (WalkSql.compositeStatement columns run).Sweeps codec P) (ht : w.txn = some t)
    {c : String} (hP : P c t.view.data) (batch : Int) (upto : List (Option String)) :
    (runCompositeStatement env codec columns run c batch upto).Wp
      (BatchDone (fun o => P o.cursor) w t) w := by
  rw [runCompositeStatement]
  cases hat : compositeAt codec columns c with
  | none => exact .failed ht w.tick _
  | some position =>
    simp only
    rw [Prog.wp_bind]
    refine onData_wp (t := t) (by exact ht) ?_ fun e => Prog.andThen_err.2 (.failed ht _ e)
    intro rows d' hrun
    exact ⟨_, _, rfl, hsql c position batch upto _ rows d' hP hat hrun⟩

theorem runCompositeBatch_spec {columns : Nat}
    {select : Option (List String) → Int → List (Option String) → δ →
      Except Failure (List (List String))}
    {apply : List (List String) → δ → Except Failure (Nat × δ)}
    (hsql : (WalkSql.composite columns select apply).Sweeps codec P) (ht : w.txn = some t)
    {c : String} (hP : P c t.view.data) (batch batchBytes : Int) (upto : List (Option String)) :
    (runCompositeBatch env codec columns select apply c batch batchBytes upto).Wp
      (BatchDone (fun o => P o.cursor) w t) w := by
  rw [runCompositeBatch]
  cases hat : compositeAt codec columns c with
  | none => exact .failed ht w.tick _
  | some position =>
    simp only
    rw [Prog.wp_bind]
    refine readData_wp ht ?_ fun e => Prog.andThen_err.2 (.failed ht _ e)
    intro selected hsel
    rw [Prog.andThen_ok]
    cases hlast : (withinBudget rowBytes batchBytes none selected).getLast? with
    | none => exact .still ht _ hP
    | some last =>
      simp only
      rw [Prog.wp_bind]
      refine onData_wp (t := t) (by exact ht) ?_ fun e => Prog.andThen_err.2 (.failed ht _ e)
      intro returned d' happly
      exact ⟨_, _, rfl, hsql c position batch upto _ selected _ last returned d' hP hat hsel
        (withinBudget_isPrefix _ _) hlast happly⟩

/-- A batch after a batch of the same transaction. -/
theorem BatchDone.trans {α : Type} {Q : α → δ → Prop} {k : Nat} {db : Db δ} {o : Outcome Failure α}
    {w' : World δ} (h : BatchDone Q { w with tick := k, txn := some { t with view := db } }
      { t with view := db } o w') : BatchDone Q w t o w' := by
  obtain ⟨k', db', rfl, ho⟩ := h
  exact ⟨k', db', rfl, ho⟩

/-- Reading what comes next and going on from it. -/
theorem BatchDone.bind {α β : Type} {Q : α → δ → Prop} {R : β → δ → Prop} {p : Exec δ α}
    {f : α → Exec δ β} (hp : p.Wp (BatchDone Q w t) w)
    (hf : ∀ a k db, Q a db.data → (f a).Wp
      (BatchDone R { w with tick := k, txn := some { t with view := db } } { t with view := db })
      { w with tick := k, txn := some { t with view := db } }) :
    (p >>= f).Wp (BatchDone R w t) w := by
  rw [Prog.wp_bind]
  refine hp.mono ?_
  rintro (a | e | _) w' ⟨k, db, rfl, h⟩
  · rw [Prog.andThen_ok]
    exact (hf a k db h).mono fun _ _ => .trans
  · exact ⟨k, db, rfl, trivial⟩
  · exact h.elim

section Groups

variable {groups : Option String → δ → Except Failure (Option String)}
  {select : String → Option String → Int → δ → Except Failure (List String)}
  {apply : String → List String → δ → Except Failure (Nat × δ)}

theorem enterGroup_spec (hsql : GroupsSweep codec P groups select apply) {w : World δ} {t : Txn δ}
    (ht : w.txn = some t) {at_ : GroupCursor} (hP : P (at_.encode codec) t.view.data) :
    (enterGroup env groups at_).Wp
      (BatchDone (fun r d => P (GroupCursor.encode codec (r.getD at_)) d) w t) w := by
  rw [enterGroup]
  split
  · rename_i hgroup
    rw [Prog.wp_bind]
    refine readData_wp ht ?_ fun e => Prog.andThen_err.2 (.failed ht _ e)
    intro found hfound
    cases found with
    | none => exact .still ht _ hP
    | some group =>
      rw [hgroup] at hfound
      exact .still ht _ (hsql.enter _ _ group hP hfound)
  · exact .still ht w.tick hP

theorem lookIntoGroup_spec (hsql : GroupsSweep codec P groups select apply) {batch : Int}
    (hbatch : 0 < batch) (batchBytes : Int) (holdsLocks : Bool) {w : World δ} {t : Txn δ}
    (ht : w.txn = some t) {at_ : GroupCursor} (hP : P (at_.encode codec) t.view.data) :
    (lookIntoGroup env codec groups select apply batch batchBytes holdsLocks at_).Wp
      (BatchDone (fun r d => match r with
        | .inl c => P (GroupCursor.encode codec c) d
        | .inr o => P o.cursor d) w t) w := by
  rw [lookIntoGroup, Prog.wp_bind]
  refine readData_wp ht ?_ fun e => Prog.andThen_err.2 (.failed ht _ e)
  intro selected hsel
  rw [Prog.andThen_ok]
  cases hlast : (withinBudget keyBytes batchBytes none selected).getLast? with
  | some last =>
    simp only
    rw [Prog.wp_bind]
    refine onData_wp (t := t) (by exact ht) ?_ fun e => Prog.andThen_err.2 (.failed ht _ e)
    intro returned d' happly
    exact ⟨_, _, rfl, hsql.apply at_ batch _ selected _ last returned d' hP hsel
      (withinBudget_isPrefix _ _) hlast happly⟩
  | none =>
    simp only
    split
    · exact .still ht _ hP
    · rw [Prog.wp_bind]
      refine readData_wp (t := t) (by exact ht) ?_ fun e => Prog.andThen_err.2 (.failed ht _ e)
      intro found hfound
      cases found with
      | none => exact .still ht _ hP
      | some group =>
        refine .still ht _ ?_
        -- a group whose text is empty is passed as NULL, so the first group is found again
        by_cases hgroup : at_.group = ""
        · rw [hgroup] at hfound
          exact hsql.enter _ _ group hP hfound
        · rw [maybe, if_neg hgroup] at hfound
          rw [List.getLast?_eq_none_iff, withinBudget_eq_nil] at hlast
          subst hlast
          exact hsql.next at_ batch _ group hbatch hgroup hP hsel hfound

theorem lookAtGroups_spec (hsql : GroupsSweep codec P groups select apply) {batch : Int}
    (hbatch : 0 < batch) (batchBytes : Int) (holdsLocks : Bool) (looks : Nat) :
    ∀ {w : World δ} {t : Txn δ} {at_ : GroupCursor}, w.txn = some t →
      P (at_.encode codec) t.view.data →
      (lookAtGroups env codec groups select apply batch batchBytes holdsLocks looks at_).Wp
        (BatchDone (fun o => P o.cursor) w t) w := by
  induction looks with
  | zero =>
    intro w t at_ ht hP
    exact .still ht w.tick hP
  | succ looks ih =>
    intro w t at_ ht hP
    rw [lookAtGroups]
    refine BatchDone.bind (enterGroup_spec hsql ht hP) ?_
    intro found k db hfound
    cases found with
    | none => exact .still rfl k hfound
    | some c =>
      refine BatchDone.bind
        (lookIntoGroup_spec hsql hbatch batchBytes holdsLocks rfl hfound) ?_
      intro r k' db' hr
      cases r with
      | inl next => exact ih rfl hr
      | inr o => exact .still rfl k' hr

end Groups

end Specs

end Executor
end Laswell
