import Laswell.Rehearsal.Chain

/-!
# Laswell.Rehearsal.Stacked

What one specification of a chain leaves on its connection: it is tried on top of exactly those
kept before it, and nothing is committed.

* `planTexts`: every text that the rehearsal of a plan may send.
* `Server.Steady`: what a rehearsal relies on of its server, and `Server.Calm`: the same of the
  texts that are sent.
* `Inside`, `Between`: a transaction in and between two rehearsals.
* `safe_rehearseSteps`: whatever the steps do, the savepoint of their specification stays.
* `rehearseOn_spec`: one specification is kept, or undone and nothing else.
-/

namespace Laswell
namespace Rehearsal

open Base Repository

section

variable {δ ω α : Type} {srv : Server δ ω}

/-! ## Savepoints -/

theorem unwound_own {name : String} {inner older : List (String × δ)} {saved : δ}
    (h : ∀ p ∈ inner, p.1 ≠ name) :
    unwound name (inner ++ (name, saved) :: older) = some (saved, older) := by
  induction inner with
  | nil => simp [unwound]
  | cons p inner ih =>
    have hp : p.1 ≠ name := h p List.mem_cons_self
    have hi := ih fun q hq => h q (List.mem_cons_of_mem _ hq)
    simp only [List.cons_append, unwound, if_neg hp, hi]

/-- A savepoint under another name is one made later, or there is none. -/
theorem unwound_other {name own : String} {inner : List (String × δ)} {saved : δ}
    (hn : name ≠ own) {s : δ} {older : List (String × δ)}
    (h : unwound name (inner ++ [(own, saved)]) = some (s, older)) :
    ∃ inner', older = inner' ++ [(own, saved)] ∧ inner' ⊆ inner := by
  induction inner with
  | nil => simp [unwound, hn.symm] at h
  | cons p inner ih =>
    simp only [List.cons_append, unwound] at h
    split at h
    · cases h
      exact ⟨inner, rfl, List.subset_cons_self _ _⟩
    · obtain ⟨inner', ho, hs⟩ := ih h
      exact ⟨inner', ho, fun q hq => List.mem_cons_of_mem _ (hs hq)⟩

/-! ## What is asked of the server -/

/-- What the check of a statement may send. -/
def checkTexts (stmt : String) : List String :=
  [stmt, "EXPLAIN (GENERIC_PLAN, FORMAT JSON) " ++ stmt, "PREPARE laswell_dry AS " ++ stmt,
    "DEALLOCATE laswell_dry"]

def copyTexts (c : CopyCheck) : List String :=
  ["CREATE TEMP TABLE laswell_shape (LIKE " ++ c.relation ++ " INCLUDING GENERATED) ON COMMIT DROP",
    stripTrailingSemicolon c.sql]

def lockTexts : List String :=
  ["SET LOCAL lock_timeout = " ++ rehearsalExclusiveTryMs,
    "SET LOCAL lock_timeout = " ++ observationLockTimeoutMs]

def stepTexts (step : Step) : List String :=
  step.statements.flatMap (fun raw => checkTexts (stripTrailingSemicolon raw)) ++
    step.onCopy.flatMap copyTexts

/-- What the rehearsal of a plan may send. -/
def planTexts (steps : List Step) : List String := lockTexts ++ steps.flatMap stepTexts

def Command.Sends (sent : String → Prop) : Command → Prop
  | .sql text => sent text
  | _ => True

/-- The command leaves savepoints of this name alone. -/
def Command.Spares (own : String) : Command → Prop
  | .savepoint name | .rollbackTo name | .release name => name ≠ own
  | .sql _ => True

/-- The connection is there after the answer. -/
def Reply.Stays : Reply α → Prop
  | .lost _ => False
  | _ => True

/-- No connection is lost, no text holds transaction commands of its own, and the savepoint of a
specification is made, rolled back to and released where that is asked for. -/
structure Server.Steady (srv : Server δ ω) : Prop where
  plain : ∀ asked text data after, srv.answers asked text data ≠ .got (.controlled after)
  control : ∀ asked c, (srv.control asked c).Stays
  answers : ∀ asked text data, (srv.answers asked text data).Stays
  copies : ∀ asked payload data, (srv.copies asked payload data).Stays
  observes : ∀ asked e data, (srv.observes asked e data).Stays
  obeys : ∀ asked c, ¬ c.Spares chainSpec → srv.control asked c = .got ()

/-- The same, of the texts that are sent: others may hold what they like. -/
structure Server.Calm (srv : Server δ ω) (sent : String → Prop) : Prop where
  plain : ∀ text, sent text → ∀ asked data after,
    srv.answers asked text data ≠ .got (.controlled after)
  control : ∀ asked c, (srv.control asked c).Stays
  answers : ∀ text, sent text → ∀ asked data, (srv.answers asked text data).Stays
  copies : ∀ asked payload data, (srv.copies asked payload data).Stays
  observes : ∀ asked e data, (srv.observes asked e data).Stays
  obeys : ∀ asked c, ¬ c.Spares chainSpec → srv.control asked c = .got ()

theorem Server.Steady.calm (h : srv.Steady) (sent : String → Prop) : srv.Calm sent where
  plain text _ asked := h.plain asked text
  control := h.control
  answers text _ asked := h.answers asked text
  copies := h.copies
  observes := h.observes
  obeys := h.obeys

/-- Of an open connection: an error changes nothing but what has been asked, and whether the block
is aborted. -/
theorem ask_wp {reply : Txn δ → Reply α} {Q : Outcome Fault α → Txn δ → Prop} {t : Txn δ}
    (ho : t.isOpen = true) (hstays : (reply t).Stays)
    (hgot : ∀ a, reply t = .got a → Q (.ok a) { t with asked := t.asked + 1 })
    (herr : ∀ fault asked aborted, Q (.err fault) { t with asked, aborted }) :
    (ask reply).Wp Q t := by
  rw [ask, Prog.wp_bind, Prog.wp_gets, Prog.andThen_ok, Prog.wp_bind, Prog.wp_gets,
    Prog.andThen_ok, Prog.wp_bind, Prog.wp_modify, Prog.andThen_ok, if_pos ho]
  cases hr : reply t with
  | got a => exact hgot a hr
  | refused fault => exact herr fault _ _
  | lost what =>
    rw [hr] at hstays
    exact hstays.elim

theorem notAborted_wp {Q : Outcome Fault Unit → Txn δ → Prop} {t : Txn δ}
    (hok : t.aborted = false → Q (.ok ()) t)
    (herr : t.aborted = true → ∀ fault asked aborted, Q (.err fault) { t with asked, aborted }) :
    notAborted.Wp Q t := by
  rw [notAborted, Prog.wp_bind, Prog.wp_gets, Prog.andThen_ok]
  by_cases ha : t.aborted = true
  · rw [if_pos ha]
    exact herr ha _ _ _
  · rw [if_neg ha]
    exact hok (by simpa using ha)

theorem insideBlock_wp {Q : Outcome Fault Unit → Txn δ → Prop} {t : Txn δ}
    (hin : t.inBlock = true) (h : Q (.ok ()) t) : insideBlock.Wp Q t := by
  rw [insideBlock, Prog.wp_bind, Prog.wp_gets, Prog.andThen_ok, hin]
  exact h

/-! ## A transaction in a rehearsal -/

/-- The block has not ended, so nothing done in it is committed. -/
structure Held (base : δ) (t : Txn δ) : Prop where
  isOpen : t.isOpen = true
  inBlock : t.inBlock = true
  committed : t.committed = base

/-- The savepoint of a specification is there, with what the transaction saw before it. -/
structure Inside (base saved : δ) (t : Txn δ) : Prop extends Held base t where
  stacked : ∃ inner, t.savepoints = inner ++ [(chainSpec, saved)] ∧ ∀ p ∈ inner, p.1 ≠ chainSpec

/-- Between two specifications. -/
structure Between (base data : δ) (t : Txn δ) : Prop extends Held base t where
  notAborted : t.aborted = false
  savepoints : t.savepoints = []
  data : t.data = data

section

variable {base saved : δ} {t : Txn δ}

theorem Inside.erred (h : Inside base saved t) (asked : Nat) (aborted : Bool) :
    Inside base saved { t with asked, aborted } :=
  ⟨⟨h.isOpen, h.inBlock, h.committed⟩, h.stacked⟩

theorem Inside.pushed (h : Inside base saved t) {name : String} {data : δ}
    (hn : name ≠ chainSpec) :
    Inside base saved { t with savepoints := (name, data) :: t.savepoints } := by
  obtain ⟨inner, hs, hi⟩ := h.stacked
  refine ⟨⟨h.isOpen, h.inBlock, h.committed⟩, (name, data) :: inner, ?_, ?_⟩
  · simp only [hs, List.cons_append]
  · simpa using ⟨hn, fun a b hab => hi (a, b) hab⟩

theorem Inside.popped (h : Inside base saved t) {name : String} {s : δ}
    {older : List (String × δ)} (data : δ) (hn : name ≠ chainSpec)
    (hu : unwound name t.savepoints = some (s, older)) :
    Inside base saved { t with data, savepoints := older } := by
  obtain ⟨inner, hs, hi⟩ := h.stacked
  rw [hs] at hu
  obtain ⟨inner', rfl, hsub⟩ := unwound_other hn hu
  exact ⟨⟨h.isOpen, h.inBlock, h.committed⟩, inner', rfl, fun p hp => hi p (hsub hp)⟩

theorem Inside.taken (h : Inside base saved t) (data : δ) :
    Inside base saved (t.take (.made data)) := by
  have hc : (t.take (.made data)).committed = base := by
    simp only [Txn.take, h.inBlock, if_true, h.committed]
  exact ⟨⟨h.isOpen, h.inBlock, hc⟩, h.stacked⟩

/-- The savepoint of a specification is its own, whatever was made since. -/
theorem Inside.unwound_own (h : Inside base saved t) :
    unwound chainSpec t.savepoints = some (saved, []) := by
  obtain ⟨inner, hs, hi⟩ := h.stacked
  rw [hs]
  exact Rehearsal.unwound_own hi

end

/-! ## The commands of a rehearsal -/

section

variable {sent : String → Prop} {base saved : δ}

abbrev SafeInside (base saved : δ) (p : OnTxn δ α) : Prop := Prog.Safe (Inside base saved) p

theorem safe_exec (hs : srv.Calm sent) {c : Command} (hc : c.Spares chainSpec)
    (hsent : c.Sends sent) : SafeInside base saved (exec srv c) := by
  refine Prog.Safe.of_wp fun t h => ?_
  have herr : ∀ (fault : Fault) asked aborted, Outcome.err (α := Unit) fault ≠ .out ∧
      Inside base saved { t with asked, aborted } :=
    fun _ asked aborted => ⟨nofun, h.erred asked aborted⟩
  have hasked : Inside base saved { t with asked := t.asked + 1 } := h.erred _ _
  cases c with
  | savepoint name =>
    rw [exec, Prog.wp_bind]
    refine ask_wp h.isOpen (hs.control _ _) (fun _ _ => ?_) herr
    rw [Prog.andThen_ok, Prog.wp_bind]
    refine insideBlock_wp h.inBlock ?_
    rw [Prog.andThen_ok, Prog.wp_bind]
    refine notAborted_wp (fun _ => ?_) fun _ => herr
    exact ⟨nofun, hasked.pushed hc⟩
  | rollbackTo name =>
    rw [exec, Prog.wp_bind]
    refine ask_wp h.isOpen (hs.control _ _) (fun _ _ => ?_) herr
    rw [Prog.andThen_ok, Prog.wp_bind]
    refine insideBlock_wp h.inBlock ?_
    rw [Prog.andThen_ok, Prog.wp_bind, Prog.wp_gets, Prog.andThen_ok]
    cases hu : unwound name t.savepoints with
    | none => exact herr _ _ _
    | some found =>
      have hpopped := hasked.popped found.1 hc hu
      exact ⟨nofun, (hpopped.erred _ false).pushed hc⟩
  | release name =>
    rw [exec, Prog.wp_bind]
    refine ask_wp h.isOpen (hs.control _ _) (fun _ _ => ?_) herr
    rw [Prog.andThen_ok, Prog.wp_bind]
    refine insideBlock_wp h.inBlock ?_
    rw [Prog.andThen_ok, Prog.wp_bind]
    refine notAborted_wp (fun _ => ?_) fun _ => herr
    rw [Prog.andThen_ok, Prog.wp_bind, Prog.wp_gets, Prog.andThen_ok]
    cases hu : unwound name t.savepoints with
    | none => exact herr _ _ _
    | some found => exact ⟨nofun, hasked.popped t.data hc hu⟩
  | sql text =>
    rw [exec, Prog.wp_bind]
    refine ask_wp h.isOpen (hs.answers text hsent _ _) (fun effect hr => ?_) herr
    rw [Prog.andThen_ok, Prog.wp_bind]
    refine notAborted_wp (fun _ => ?_) fun _ => herr
    cases effect with
    | made data => exact ⟨nofun, hasked.taken data⟩
    | controlled after => exact absurd hr (hs.plain text hsent _ _ after)

theorem safe_streamCopy (hs : srv.Calm sent) (payload : CopyPayload) :
    SafeInside base saved (streamCopy srv payload) := by
  refine Prog.Safe.of_wp fun t h => ?_
  have herr : ∀ (fault : Fault) asked aborted, Outcome.err (α := Unit) fault ≠ .out ∧
      Inside base saved { t with asked, aborted } :=
    fun _ asked aborted => ⟨nofun, h.erred asked aborted⟩
  rw [streamCopy, Prog.wp_bind]
  refine ask_wp h.isOpen (hs.copies _ _ _) (fun data _ => ?_) herr
  rw [Prog.andThen_ok, Prog.wp_bind]
  refine notAborted_wp (fun _ => ?_) fun _ => herr
  exact ⟨nofun, (h.erred _ _).taken data⟩

theorem safe_observeIn (hs : srv.Calm sent) (e : RepoEntry) :
    SafeInside base saved (observeIn srv e) := by
  refine Prog.Safe.of_wp fun t h => ?_
  have herr : ∀ (fault : Fault) asked aborted, Outcome.err (α := ω) fault ≠ .out ∧
      Inside base saved { t with asked, aborted } :=
    fun _ asked aborted => ⟨nofun, h.erred asked aborted⟩
  rw [observeIn, Prog.wp_bind]
  refine ask_wp h.isOpen (hs.observes _ _ _) (fun seen _ => ?_) herr
  obtain ⟨obs, raised⟩ := seen
  rw [Prog.andThen_ok, Prog.wp_bind]
  refine notAborted_wp (fun _ => ?_) fun _ => herr
  obtain ⟨inner, hsaved, hi⟩ := h.stacked
  refine ⟨nofun, ⟨h.isOpen, h.inBlock, h.committed⟩,
    List.replicate raised ("laswell_module_reading", t.data) ++ inner, ?_, ?_⟩
  · change List.replicate raised _ ++ t.savepoints = _
    rw [hsaved, List.append_assoc]
  · intro p hp
    rcases List.mem_append.mp hp with hp | hp
    · have hname : "laswell_module_reading" ≠ chainSpec := by decide
      rwa [List.eq_of_mem_replicate hp]
    · exact hi p hp

theorem safe_explained (hs : srv.Calm sent) {stmt : String}
    (hsent : ∀ text ∈ checkTexts stmt, sent text) : SafeInside base saved (explained srv stmt) := by
  have hname : "laswell_generic_plan" ≠ chainSpec := by decide
  have hexec : ∀ c : Command, c.Spares chainSpec → c.Sends sent →
      SafeInside base saved (exec srv c) := fun c hc hsent => safe_exec hs hc hsent
  have hexplain : sent ("EXPLAIN (GENERIC_PLAN, FORMAT JSON) " ++ stmt) :=
    hsent _ (by simp [checkTexts])
  refine Prog.safe_bind (hexec _ hname trivial) fun _ => Prog.safe_tryCatch ?_ fun fault => ?_
  · exact Prog.safe_bind (hexec _ trivial hexplain) fun _ =>
      Prog.safe_bind (hexec _ hname trivial) fun _ => Prog.safe_pure
  · cases fault with
    | sqlError sqlstate what =>
      exact Prog.safe_bind (hexec _ hname trivial) fun _ =>
        Prog.safe_bind (hexec _ hname trivial) fun _ => Prog.safe_pure
    | brokenConnection what => exact Prog.safe_throw
    | other what => exact Prog.safe_throw

theorem safe_verifyStatement (hs : srv.Calm sent) {stmt : String} (execute : Bool)
    (hsent : ∀ text ∈ checkTexts stmt, sent text) :
    SafeInside base saved (verifyStatement srv stmt execute) := by
  have hsql : ∀ text ∈ checkTexts stmt, SafeInside base saved (exec srv (.sql text)) :=
    fun text htext => safe_exec hs trivial (hsent text htext)
  have hprepared : SafeInside base saved (prepared srv stmt) :=
    Prog.safe_bind (hsql _ (by simp [checkTexts])) fun _ =>
      Prog.safe_bind (hsql _ (by simp [checkTexts])) fun _ => Prog.safe_pure
  refine Prog.safe_ite (fun _ => ?_) fun _ => ?_
  · exact Prog.safe_bind (hsql _ (by simp [checkTexts])) fun _ => Prog.safe_pure
  refine Prog.safe_ite (fun _ => ?_) fun _ => hprepared
  refine Prog.safe_bind (safe_explained hs hsent) fun planned => ?_
  exact Prog.safe_ite (fun _ => Prog.safe_pure) fun _ => hprepared

end

end

/-! ## The steps of a plan -/

/-- What can be done in the transaction keeps `I`, savepoints named as a specification's and texts
that are not sent apart. -/
structure Session.Safe {σ : Type} (srv : Session σ) (sent : String → Prop) (I : σ → Prop) :
    Prop where
  verifyStatement : ∀ stmt execute, (∀ text ∈ checkTexts stmt, sent text) →
    Prog.Safe I (srv.verifyStatement stmt execute)
  exec : ∀ c : Command, c.Spares chainSpec → c.Sends sent → Prog.Safe I (srv.exec c)
  streamCopy : ∀ payload, Prog.Safe I (srv.streamCopy payload)

theorem session_safe {δ ω : Type} {srv : Server δ ω} {sent : String → Prop} (hs : srv.Calm sent)
    (base saved : δ) : (session srv).Safe sent (Inside base saved) where
  verifyStatement _ execute hsent := safe_verifyStatement hs execute hsent
  exec _ hc hsent := safe_exec hs hc hsent
  streamCopy := safe_streamCopy hs

section

variable {σ α : Type} {srv : Session σ} {sent : String → Prop} {I : σ → Prop}

abbrev SafeRun (I : σ → Prop) (p : Run σ α) : Prop := Prog.Safe (fun w => I w.session) p

theorem safe_onSession {p : Prog σ Fault α} (h : Prog.Safe I p) : SafeRun I (onSession p) :=
  fun w hw => h w.session hw

theorem safe_hear (h : Heard) : SafeRun I (hear h) := Prog.safe_modify fun _ hw => hw

theorem safe_report (f : DryRun → DryRun) : SafeRun I (report f) := Prog.safe_modify fun _ hw => hw

theorem safe_onSqlError {p : Run σ α} {h : String → String → Run σ α} (hp : SafeRun I p)
    (hh : ∀ a b, SafeRun I (h a b)) : SafeRun I (onSqlError p h) := by
  refine Prog.safe_tryCatch hp fun fault => ?_
  cases fault with
  | sqlError sqlstate what => exact hh sqlstate what
  | brokenConnection what => exact Prog.safe_throw
  | other what => exact Prog.safe_throw

theorem safe_noteAll (steps : List Step) : SafeRun I (noteAll steps) := by
  induction steps with
  | nil => exact Prog.safe_pure
  | cons step steps ih => exact Prog.safe_bind (safe_report _) fun _ => ih

theorem safe_back (h : srv.Safe sent I) : SafeRun I (back srv) := by
  have hname : "laswell_empty_copy" ≠ chainSpec := by decide
  exact Prog.safe_bind (safe_onSession (h.exec _ hname trivial)) fun _ =>
    safe_onSession (h.exec _ hname trivial)

theorem safe_checkOnEmptyCopies (h : srv.Safe sent I) (checks : List CopyCheck)
    (hsent : ∀ c ∈ checks, ∀ text ∈ copyTexts c, sent text) :
    ∀ checked, SafeRun I (checkOnEmptyCopies srv checks checked) := by
  have hname : "laswell_empty_copy" ≠ chainSpec := by decide
  induction checks with
  | nil => exact fun _ => Prog.safe_pure
  | cons c rest ih =>
    intro checked
    have hsql : ∀ text ∈ copyTexts c, SafeRun I (onSession (srv.exec (.sql text))) :=
      fun text htext =>
        safe_onSession (h.exec _ trivial (hsent c List.mem_cons_self text htext))
    have ih := ih fun c hc => hsent c (List.mem_cons_of_mem _ hc)
    rw [checkOnEmptyCopies]
    refine Prog.safe_ite (fun _ => ih checked) fun _ => ?_
    refine Prog.safe_bind (safe_onSession (h.exec _ hname trivial)) fun _ =>
      Prog.safe_bind ?_ fun made => ?_
    · exact safe_onSqlError (Prog.safe_bind (hsql _ (by simp [copyTexts])) fun _ => Prog.safe_pure)
        fun _ _ => Prog.safe_pure
    · refine Prog.safe_ite (fun _ => Prog.safe_bind (safe_back h) fun _ => Prog.safe_pure)
        fun _ => ?_
      refine Prog.safe_bind ?_ fun refusal => Prog.safe_bind (safe_back h) fun _ => ?_
      · exact safe_onSqlError
          (Prog.safe_bind (hsql _ (by simp [copyTexts])) fun _ => Prog.safe_pure)
          fun _ _ => Prog.safe_pure
      · cases refusal with
        | none => exact ih true
        | some p => exact Prog.safe_pure

theorem safe_rehearseStatement (h : srv.Safe sent I) (hlock : ∀ text ∈ lockTexts, sent text)
    (index position : Nat) (step : Step) {stmt : String}
    (hsent : ∀ text ∈ checkTexts stmt, sent text) (more : List String) (shortWait : Bool) :
    SafeRun I (rehearseStatement srv index position step stmt more shortWait) := by
  have hshort : SafeRun I (if !shortWait && beginsShortWait stmt more then do
      onSession (srv.exec (.sql ("SET LOCAL lock_timeout = " ++ rehearsalExclusiveTryMs)))
      pure true
    else pure shortWait : Run σ Bool) :=
    Prog.safe_ite (fun _ => Prog.safe_bind
      (safe_onSession (h.exec _ trivial (hlock _ List.mem_cons_self))) fun _ => Prog.safe_pure)
      fun _ => Prog.safe_pure
  refine Prog.safe_bind ?_ fun weak => ?_
  · exact Prog.safe_bind (safe_onSession (h.verifyStatement _ _ hsent)) fun weak =>
      Prog.safe_bind (safe_hear _) fun _ => Prog.safe_pure
  · exact Prog.safe_ite (fun _ => Prog.safe_bind (safe_report _) fun _ =>
      Prog.safe_bind (safe_report _) fun _ => hshort) fun _ => hshort

theorem safe_statementFailed (step : Step) (rest : List Step) (stmt : String) (shortWait : Bool)
    (fault : Fault) : SafeRun I (statementFailed srv step rest stmt shortWait fault) := by
  cases fault with
  | sqlError sqlstate what =>
    refine Prog.safe_ite (fun _ => ?_) fun _ => Prog.safe_ite (fun _ => ?_) fun _ => ?_
    · exact Prog.safe_bind (safe_report _) fun _ => Prog.safe_bind (safe_noteAll _) fun _ =>
        Prog.safe_pure
    · exact Prog.safe_bind (safe_report _) fun _ => Prog.safe_bind (safe_noteAll _) fun _ =>
        Prog.safe_pure
    · refine Prog.safe_bind Prog.safe_gets fun skippedAny => Prog.safe_ite (fun _ => ?_) fun _ => ?_
      · exact Prog.safe_bind (safe_report _) fun _ => Prog.safe_bind (safe_report _) fun _ =>
          Prog.safe_pure
      · exact Prog.safe_bind (safe_report _) fun _ => Prog.safe_pure
  | brokenConnection what =>
    refine Prog.safe_bind Prog.safe_gets fun isOpen => Prog.safe_ite (fun _ => ?_) fun _ => ?_
    · exact Prog.safe_bind (safe_report _) fun _ => Prog.safe_pure
    · exact Prog.safe_throw
  | other what => exact Prog.safe_throw

theorem safe_rehearseStatements (h : srv.Safe sent I) (hlock : ∀ text ∈ lockTexts, sent text)
    (index : Nat) (step : Step) (rest : List Step) (statements : List String)
    (hsent : ∀ raw ∈ statements, ∀ text ∈ checkTexts (stripTrailingSemicolon raw), sent text) :
    ∀ (position : Nat) (shortWait : Bool),
      SafeRun I (rehearseStatements srv index step rest position statements shortWait) := by
  induction statements with
  | nil => exact fun _ _ => Prog.safe_pure
  | cons raw more ih =>
    intro position shortWait
    have ih := ih fun raw hraw => hsent raw (List.mem_cons_of_mem _ hraw)
    rw [rehearseStatements]
    refine Prog.safe_ite (fun _ => ih _ _) fun _ => Prog.safe_bind ?_ fun result => ?_
    · refine Prog.safe_tryCatch ?_ fun fault => ?_
      · exact Prog.safe_bind (safe_rehearseStatement h hlock _ _ _ (hsent raw List.mem_cons_self) _ _)
          fun _ => Prog.safe_pure
      · exact Prog.safe_bind (safe_hear _) fun _ =>
          Prog.safe_bind (safe_statementFailed _ _ _ _ fault) fun _ => Prog.safe_pure
    · cases result with
      | inl shortWait => exact ih _ shortWait
      | inr ending => exact Prog.safe_pure

theorem safe_leaveOut (h : srv.Safe sent I) (step : Step)
    (hsent : ∀ c ∈ step.onCopy, ∀ text ∈ copyTexts c, sent text) (skippedUnchecked : Bool) :
    SafeRun I (leaveOut srv step skippedUnchecked) := by
  have hleft : ∀ checked : Bool, SafeRun I (do
      if checked then
        report fun out => { out with definitionChecked := out.definitionChecked ++ [step.ordinal] }
      Prog.modify fun w => { w with skippedAny := true }
      pure (.inl !checked) : Run σ (Bool ⊕ Ending)) := by
    intro checked
    have hskip : ∀ u : Unit, SafeRun I (do
        Prog.modify fun w => { w with skippedAny := true }
        pure (.inl !checked) : Run σ (Bool ⊕ Ending)) :=
      fun _ => Prog.safe_bind (Prog.safe_modify fun _ hw => hw) fun _ => Prog.safe_pure
    exact Prog.safe_ite (fun _ => Prog.safe_bind (safe_report _) hskip) fun _ => hskip ()
  refine Prog.safe_bind (safe_report _) fun _ =>
    Prog.safe_bind (safe_checkOnEmptyCopies h _ hsent _) fun found => ?_
  obtain ⟨problem, checked⟩ := found
  cases problem with
  | none => exact hleft _
  | some p =>
    cases skippedUnchecked with
    | true => exact hleft _
    | false => exact Prog.safe_bind (safe_report _) fun _ => Prog.safe_pure

theorem safe_copyRows (h : srv.Safe sent I) (index : Nat) (step : Step) (payload : CopyPayload) :
    SafeRun I (copyRows srv index step payload) := by
  refine safe_onSqlError ?_ fun _ _ => ?_
  · exact Prog.safe_bind (safe_onSession (h.streamCopy _)) fun _ =>
      Prog.safe_bind (safe_hear _) fun _ => Prog.safe_pure
  · exact Prog.safe_bind (safe_report _) fun _ => Prog.safe_pure

/-- The steps of a plan keep whatever each command but a specification's own savepoint keeps. -/
theorem safe_rehearseSteps (h : srv.Safe sent I) (steps : List Step)
    (hsent : ∀ text ∈ planTexts steps, sent text) : SafeRun I (rehearseSteps srv steps) := by
  have hlock : ∀ text ∈ lockTexts, sent text :=
    fun text htext => hsent text (List.mem_append_left _ htext)
  have hsteps : ∀ step ∈ steps, ∀ text ∈ stepTexts step, sent text := fun step hstep text htext =>
    hsent text (List.mem_append_right _ (List.mem_flatMap.mpr ⟨step, hstep, htext⟩))
  have hfrom : ∀ steps : List Step, (∀ step ∈ steps, ∀ text ∈ stepTexts step, sent text) →
      ∀ (index : Nat) (skippedUnchecked : Bool),
        SafeRun I (rehearseFrom srv index steps skippedUnchecked) := by
    intro steps hsteps
    induction steps with
    | nil => exact fun _ _ => Prog.safe_pure
    | cons step rest ih =>
      intro index skippedUnchecked
      have ih := ih fun step hstep => hsteps step (List.mem_cons_of_mem _ hstep)
      have hchecks : ∀ raw ∈ step.statements,
          ∀ text ∈ checkTexts (stripTrailingSemicolon raw), sent text := fun raw hraw text htext =>
        hsteps step List.mem_cons_self text
          (List.mem_append_left _ (List.mem_flatMap.mpr ⟨raw, hraw, htext⟩))
      have hcopies : ∀ c ∈ step.onCopy, ∀ text ∈ copyTexts c, sent text := fun c hc text htext =>
        hsteps step List.mem_cons_self text
          (List.mem_append_right _ (List.mem_flatMap.mpr ⟨c, hc, htext⟩))
      rw [rehearseFrom]
      refine Prog.safe_ite (fun _ => ?_) fun _ => ?_
      · refine Prog.safe_bind (safe_leaveOut h step hcopies _) fun left => ?_
        cases left with
        | inl unchecked => exact ih _ _
        | inr ending => exact Prog.safe_pure
      · cases step.copyPayload with
        | some payload =>
          refine Prog.safe_bind (safe_copyRows h index step payload) fun ending => ?_
          cases ending with
          | none => exact ih _ _
          | some ending => exact Prog.safe_pure
        | none =>
          refine Prog.safe_bind
            (safe_rehearseStatements h hlock index step rest _ hchecks _ _) fun result => ?_
          cases result with
          | inl shortWait =>
            refine Prog.safe_ite (fun _ => ?_) fun _ => ih _ _
            have hset := hlock _ (List.mem_cons_of_mem _ List.mem_cons_self)
            exact Prog.safe_bind (safe_onSession (h.exec _ trivial hset)) fun _ => ih _ _
          | inr ending => exact Prog.safe_pure
  exact Prog.safe_bind Prog.safe_gets fun skippedAny => hfrom steps hsteps 0 skippedAny

end

/-! ## One specification -/

/-- What the transaction of a connection sees after these attempts: what the latest one that was
kept left. -/
def standing {δ : Type} (base : δ) : List (Attempt δ) → δ
  | [] => base
  | a :: earlier => a.left.getD (standing base earlier)

/-- Each attempt was made on what the ones kept before it left. -/
def Stacked {δ : Type} (base : δ) : List (Attempt δ) → Prop
  | [] => True
  | a :: earlier => a.before = standing base earlier ∧ Stacked base earlier

section

variable {δ ω : Type} {srv : Server δ ω} {sent : String → Prop} {base saved : δ}

theorem not_spares_savepoint : ¬ (Command.savepoint chainSpec).Spares chainSpec := fun h => h rfl

theorem not_spares_rollbackTo : ¬ (Command.rollbackTo chainSpec).Spares chainSpec := fun h => h rfl

theorem not_spares_release : ¬ (Command.release chainSpec).Spares chainSpec := fun h => h rfl

theorem ask_obeyed (hs : srv.Calm sent) {t : Txn δ} (ho : t.isOpen = true) {c : Command}
    (hc : ¬ c.Spares chainSpec) {Q : Outcome Fault Unit → Txn δ → Prop} :
    (ask fun t => srv.control t.asked c).Wp Q t ↔ Q (.ok ()) { t with asked := t.asked + 1 } := by
  rw [ask, Prog.wp_bind, Prog.wp_gets, Prog.andThen_ok, Prog.wp_bind, Prog.wp_gets,
    Prog.andThen_ok, Prog.wp_bind, Prog.wp_modify, Prog.andThen_ok, if_pos ho,
    hs.obeys t.asked c hc]
  exact Iff.rfl

theorem savepoint_between (hs : srv.Calm sent) {t : Txn δ} (h : Between base saved t) :
    (exec srv (.savepoint chainSpec)).Wp
      (fun o t' => o = .ok () ∧ Inside base saved t' ∧ t'.data = saved) t := by
  rw [exec, Prog.wp_bind, ask_obeyed hs h.isOpen not_spares_savepoint, Prog.andThen_ok,
    Prog.wp_bind]
  refine insideBlock_wp h.inBlock ?_
  rw [Prog.andThen_ok, Prog.wp_bind]
  refine notAborted_wp (fun _ => ?_) fun ha => ?_
  · refine ⟨rfl, ⟨⟨h.isOpen, h.inBlock, h.committed⟩, [], ?_, nofun⟩, h.data⟩
    change (chainSpec, t.data) :: t.savepoints = _
    rw [h.savepoints, h.data]
    rfl
  · have haborted : t.aborted = true := ha
    rw [h.notAborted] at haborted
    cases haborted

theorem release_inside (hs : srv.Calm sent) {t : Txn δ} (h : Inside base saved t) :
    (exec srv (.release chainSpec)).Wp (fun o t' =>
      match o with
      | .ok _ => Between base t.data t'
      | .err _ => t.aborted = true ∧ Inside base saved t'
      | .out => False) t := by
  rw [exec, Prog.wp_bind, ask_obeyed hs h.isOpen not_spares_release, Prog.andThen_ok,
    Prog.wp_bind]
  refine insideBlock_wp h.inBlock ?_
  rw [Prog.andThen_ok, Prog.wp_bind]
  refine notAborted_wp (fun ha => ?_) fun ha _ asked aborted => ⟨ha, h.erred asked aborted⟩
  rw [Prog.andThen_ok, Prog.wp_bind, Prog.wp_gets, Prog.andThen_ok]
  have hu : unwound chainSpec { t with asked := t.asked + 1 }.savepoints = some (saved, []) :=
    h.unwound_own
  rw [hu]
  exact ⟨⟨h.isOpen, h.inBlock, h.committed⟩, ha, rfl, rfl⟩

theorem rollbackTo_inside (hs : srv.Calm sent) {t : Txn δ} (h : Inside base saved t) :
    (exec srv (.rollbackTo chainSpec)).Wp (fun o t' =>
      o = .ok () ∧ Inside base saved t' ∧ t'.data = saved ∧ t'.aborted = false) t := by
  rw [exec, Prog.wp_bind, ask_obeyed hs h.isOpen not_spares_rollbackTo, Prog.andThen_ok,
    Prog.wp_bind]
  refine insideBlock_wp h.inBlock ?_
  rw [Prog.andThen_ok, Prog.wp_bind, Prog.wp_gets, Prog.andThen_ok]
  have hu : unwound chainSpec { t with asked := t.asked + 1 }.savepoints = some (saved, []) :=
    h.unwound_own
  rw [hu]
  exact ⟨rfl, ⟨⟨h.isOpen, h.inBlock, h.committed⟩, [], rfl, nofun⟩, rfl, rfl⟩

theorem wp_onTxn {α : Type} {p : OnTxn δ α} {Q : Outcome Fault α → Link δ → Prop} {k : Link δ} :
    (onTxn p).Wp Q k ↔ p.Wp (fun o t => Q o { k with txn := t }) k.txn := Iff.rfl

/-- Whatever was done since the savepoint is undone, and nothing else is. -/
theorem undo_inside (hs : srv.Calm sent) {k : Link δ} (h : Inside base saved k.txn) :
    (undo srv).Wp (fun o k' =>
      o = .ok () ∧ k'.attempts = k.attempts ∧ Between base saved k'.txn) k := by
  rw [undo, Prog.wp_bind, wp_onTxn]
  refine (rollbackTo_inside hs h).mono ?_
  rintro o t ⟨rfl, hinside, hdata, haborted⟩
  rw [Prog.andThen_ok, wp_onTxn]
  refine (release_inside hs hinside).mono fun o t' ht' => ?_
  cases o with
  | out => exact ht'.elim
  | err fault =>
    rw [haborted] at ht'
    cases ht'.1
  | ok _ => exact ⟨rfl, rfl, hdata ▸ ht'⟩

/-- What a rehearsal has come to, of which `first` is the attempt and `earlier` those before. -/
def Tried (base : δ) (first : Attempt δ) (earlier : List (Attempt δ))
    (outcome : Deploy.Rehearsal) (k : Link δ) : Prop :=
  ∃ left, k.attempts = { first with left } :: earlier ∧
    (left.isSome = true ↔ outcome = .rehearsed) ∧
    Between base (left.getD first.before) k.txn

/-- A rehearsal that throws has its savepoint left, until it has handled the exception. -/
def Trying (base : δ) (first : Attempt δ) (earlier : List (Attempt δ)) (k : Link δ) : Prop :=
  k.attempts = first :: earlier ∧ Inside base first.before k.txn

section

variable {first : Attempt δ} {earlier : List (Attempt δ)} {k : Link δ}

theorem undone_spec (hs : srv.Calm sent) (hleft : first.left = none)
    (h : Trying base first earlier k) {outcome : Deploy.Rehearsal} (ho : outcome ≠ .rehearsed) :
    (undo srv >>= fun _ => pure outcome).Wp (fun o k' =>
      o = .ok outcome ∧ Tried base first earlier outcome k') k := by
  rw [Prog.wp_bind]
  refine (undo_inside hs h.2).mono ?_
  rintro o k' ⟨rfl, hattempts, hbetween⟩
  refine ⟨rfl, none, ?_, by simp [ho], hbetween⟩
  change k'.attempts = _
  rw [hattempts, h.1, ← hleft]

/-- What is kept of a specification is what the transaction saw as its savepoint was released. -/
theorem kept_spec (h : Trying base first earlier k) {t : Txn δ}
    (ht : Between base k.txn.data t) :
    (kept >>= fun _ => pure Deploy.Rehearsal.rehearsed : Prog (Link δ) Fault _).Wp (fun o k' =>
      o = .ok .rehearsed ∧ Tried base first earlier .rehearsed k') { k with txn := t } := by
  rw [Prog.wp_bind, kept, Prog.wp_modify, Prog.andThen_ok, Prog.wp_pure]
  refine ⟨rfl, some t.data, ?_, by simp, ?_⟩
  · rw [h.1]
  · rw [h.1]
    have hdata : k.txn.data = t.data := ht.data.symm
    exact hdata ▸ ht

/-- What the handler of a rehearsal is given: an outcome, or a fault with the savepoint still
there. -/
def Handled (base : δ) (first : Attempt δ) (earlier : List (Attempt δ)) :
    Outcome Fault Deploy.Rehearsal → Link δ → Prop
  | .ok outcome, k => Tried base first earlier outcome k
  | .err _, k => Trying base first earlier k
  | .out, _ => False

theorem rehearsePlan_spec (hs : srv.Calm sent) (hleft : first.left = none)
    (h : Trying base first earlier k) {planned : Planned}
    (hsent : ∀ steps, planned = .steps steps → ∀ text ∈ planTexts steps, sent text) :
    (rehearsePlan srv planned).Wp (Handled base first earlier) k := by
  have hundone : ∀ {k : Link δ}, Trying base first earlier k → ∀ {outcome : Deploy.Rehearsal},
      outcome ≠ .rehearsed → (undo srv >>= fun _ => pure outcome).Wp
        (Handled base first earlier) k := by
    intro k hk outcome ho
    refine (undone_spec hs hleft hk ho).mono ?_
    rintro o k' ⟨rfl, htried⟩
    exact htried
  cases planned with
  | conflicts => exact hundone h nofun
  | threw fault => exact h
  | steps steps =>
    rw [rehearsePlan, Prog.wp_bind]
    have hsteps :=
      safe_rehearseSteps (session_safe hs base first.before) steps (hsent steps rfl)
    have hend := hsteps { session := k.txn, skippedAny := k.skippedAny } h.2
    refine Prog.Wp.mono (Q := fun o k' => o ≠ .out ∧ Trying base first earlier k')
      ⟨hend.1, h.1, hend.2⟩ fun o k' hk => ?_
    cases o with
    | out => exact absurd rfl hk.1
    | err fault => exact hk.2
    | ok ending =>
      rw [Prog.andThen_ok]
      cases ending with
      | failed => exact hundone hk.2 nofun
      | timedOut => exact hundone hk.2 nofun
      | gap => exact hundone hk.2 nofun
      | ok =>
        rw [Prog.wp_bind, wp_onTxn]
        refine (release_inside hs hk.2.2).mono fun o t ht => ?_
        cases o with
        | out => exact ht
        | err fault => exact ⟨hk.2.1, ht.2⟩
        | ok _ =>
          rw [Prog.andThen_ok]
          refine (kept_spec hk.2 ht).mono ?_
          rintro o k'' ⟨rfl, htried⟩
          exact htried

/-- A text that the rehearsal of a plan of the specification may send. -/
def Env.Sends (env : Env δ ω) (e : RepoEntry) (text : String) : Prop :=
  ∃ obs steps, env.plans e obs = .steps steps ∧ text ∈ planTexts steps

/-- One specification, between two of which the transaction is again when it is through: it is
tried on top of what was there, and kept, or undone and nothing else. -/
theorem rehearseOn_spec {env : Env δ ω} {e : RepoEntry} (hs : srv.Calm (env.Sends e)) {data : δ}
    (h : Between base data k.txn) :
    (rehearseOn env srv e).Wp (fun o k' => ∃ outcome, o = .ok outcome ∧
      Tried base { id := e.specId, before := data } k.attempts outcome k') k := by
  rw [rehearseOn, Prog.wp_bind, wp_onTxn]
  refine (savepoint_between hs h).mono ?_
  rintro o t ⟨rfl, hinside, hdata⟩
  rw [Prog.andThen_ok, Prog.wp_bind, began, Prog.wp_modify, Prog.andThen_ok, Prog.wp_tryCatch,
    Prog.wp_bind, wp_onTxn]
  rw [hdata]
  refine ((safe_observeIn hs e).wp hinside).mono fun o t' ht' => ?_
  have hundo : ∀ k' : Link δ, Trying base { id := e.specId, before := data } k.attempts k' →
      (undo srv >>= fun _ => pure Deploy.Rehearsal.refused).Wp (fun o k' =>
        ∃ outcome, o = .ok outcome ∧
          Tried base { id := e.specId, before := data } k.attempts outcome k') k' := by
    intro k' hk'
    have hrefused : Deploy.Rehearsal.refused ≠ .rehearsed := nofun
    refine (undone_spec hs rfl hk' hrefused).mono ?_
    rintro o k'' ⟨rfl, htried⟩
    exact ⟨_, rfl, htried⟩
  cases o with
  | out => exact absurd rfl ht'.1
  | err fault => exact hundo _ ⟨rfl, ht'.2⟩
  | ok obs =>
    rw [Prog.andThen_ok]
    have hsent : ∀ steps, env.plans e obs = .steps steps → ∀ text ∈ planTexts steps,
        env.Sends e text := fun steps hplans text htext => ⟨obs, steps, hplans, htext⟩
    refine (rehearsePlan_spec hs rfl ⟨rfl, ht'.2⟩ hsent).mono fun o k' hk' => ?_
    cases o with
    | out => exact hk'.elim
    | err fault => exact hundo _ hk'
    | ok outcome => exact ⟨outcome, rfl, hk'⟩

end

end

end Rehearsal
end Laswell
