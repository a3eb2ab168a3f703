import Laswell.Base.Trace
import Laswell.Deploy.Order
import Laswell.Rehearsal.Stacked
import Laswell.Repository.Drift
import Mathlib.Logic.Relation

/-!
# Laswell.Rehearsal.Tally

A chain rehearsal as a whole: what is said of each specification, why one was left out, what each
was tried on top of, and that nothing is committed.

* `Env.Quiet`: nothing is thrown around the rehearsal of a specification. `Env.Calm` asks of the
  texts that are sent alone that they leave the transaction as it is.
* `Linked`: every transaction of the chain is between two specifications.
* `Tallied`: what the loop has counted, and why it has left a specification out.
* `runChain_told`: the whole run.
* `runChain_commits`: a definition that ends the transaction it is tried in.
-/

namespace Laswell
namespace Rehearsal

open Base Repository

/-! ## What a chain is asked to account for -/

def Line.LeftOut : Line → Prop
  | .came _ => False
  | .notRehearsed _ => True

/-- A specification of the chain depends on another one of it. -/
def DependsWithin (chain : List RepoEntry) (e d : RepoEntry) : Prop :=
  d ∈ chain ∧ d.specId ∈ e.dependsOn

section

variable {δ ω : Type}

/-- The document, the connection and the gates are answered for, and the server of the connection is
there. -/
structure Env.Quiet (env : Env δ ω) (e : RepoEntry) : Prop where
  parses : ∀ fault, env.parses e ≠ .threw fault
  gates : ∀ fault, env.gates e ≠ .threw fault
  opens : env.opens (env.connectionOf e) = none
  server : (env.server (env.connectionOf e)).Steady

/-- The same of a server that obeys what a text says: none of those that the rehearsal sends holds
transaction commands of its own. -/
structure Env.Calm (env : Env δ ω) (e : RepoEntry) : Prop where
  parses : ∀ fault, env.parses e ≠ .threw fault
  gates : ∀ fault, env.gates e ≠ .threw fault
  opens : env.opens (env.connectionOf e) = none
  server : (env.server (env.connectionOf e)).Calm (env.Sends e)

theorem Env.Quiet.calm {env : Env δ ω} {e : RepoEntry} (h : env.Quiet e) : env.Calm e where
  parses := h.parses
  gates := h.gates
  opens := h.opens
  server := h.server.calm _

/-- The specification came as far as a savepoint of its own. -/
def Env.reaches (env : Env δ ω) (e : RepoEntry) : Bool :=
  env.parses e = .accepted && env.gates e = .accepted

/-- What an attempt says of itself: which specification, and whether it was kept. -/
def Attempt.told (a : Attempt δ) : String × Bool := (a.id, a.left.isSome)

/-- The attempt that a line stands for on a connection. -/
def Env.attempt (env : Env δ ω) (name : String) : RepoEntry × Line → Option (String × Bool)
  | (e, .came outcome) =>
    if env.connectionOf e = name ∧ (env.reaches e = true ∨ outcome ≠ .refused) then
      some (e.specId, outcome = .rehearsed)
    else none
  | (_, .notRehearsed _) => none

/-- Of a chain over the databases `base`: each specification has one line; one is left out exactly
where a specification that it depends on, through others of the chain or not, was not rehearsed; the
attempts of a connection are those of its lines, each on top of what was kept before it; the result
says whether all were rehearsed; and nothing is committed. -/
structure ChainTold (env : Env δ ω) (chain : List RepoEntry) (base : String → δ)
    (run : Outcome Fault Deploy.DeployResult × Chaining δ) : Prop where
  once : (chain.map RepoEntry.specId).Nodup
  lines : run.2.lines.map Prod.fst = chain
  leftOut : ∀ p ∈ run.2.lines, p.2.LeftOut ↔ ∃ q ∈ run.2.lines,
    Relation.TransGen (DependsWithin chain) p.1 q.1 ∧ q.2 ≠ .came .rehearsed
  attempts : ∀ name,
    (run.2.history name).reverse.map Attempt.told = run.2.lines.filterMap (env.attempt name)
  stacked : ∀ name, Stacked (base name) (run.2.history name)
  result : ∃ r, run.1 = .ok r ∧ (r = .ok ↔ ∀ p ∈ run.2.lines, p.2 = .came .rehearsed)
  uncommitted : run.2.databases = base

end

/-! ## The transactions -/

section

variable {δ ω : Type} {env : Env δ ω} {base : String → δ} {r r' : Chaining δ}

def Chaining.attempts (r : Chaining δ) (name : String) : List (Attempt δ) :=
  ((r.links name).map Link.attempts).getD (r.history name)

/-- Every transaction is between two specifications, each of which was tried on what was kept
before it. -/
structure Linked (base : String → δ) (r : Chaining δ) : Prop where
  databases : r.databases = base
  history : r.history = fun _ => []
  between : ∀ name link, r.links name = some link →
    Between (base name) (standing (base name) link.attempts) link.txn
  stacked : ∀ name, Stacked (base name) (r.attempts name)

theorem linked_start : Linked base { databases := base } where
  databases := rfl
  history := rfl
  between name link h := by cases h
  stacked _ := trivial

theorem setLink_self (r : Chaining δ) (name : String) (link : Link δ) :
    (r.setLink name link).attempts name = link.attempts := by
  simp [Chaining.attempts, Chaining.setLink]

theorem setLink_other (r : Chaining δ) {name n : String} (link : Link δ) (hn : n ≠ name) :
    (r.setLink name link).attempts n = r.attempts n := by
  simp [Chaining.attempts, Chaining.setLink, hn]

theorem Linked.setLink (h : Linked base r) {name : String} {link : Link δ}
    (hbetween : Between (base name) (standing (base name) link.attempts) link.txn)
    (hstacked : Stacked (base name) link.attempts) : Linked base (r.setLink name link) where
  databases := h.databases
  history := h.history
  between n link' hlink := by
    simp only [Chaining.setLink] at hlink
    split at hlink
    · rename_i hn
      cases hlink
      exact hn ▸ hbetween
    · exact h.between n link' hlink
  stacked n := by
    by_cases hn : n = name
    · subst hn
      rwa [setLink_self]
    · rw [setLink_other r link hn]
      exact h.stacked n

/-- The link of a connection is there, or is made and has no attempts yet. -/
theorem linkFor_spec (h : Linked base r) {name : String} (hopens : env.opens name = none) :
    (linkFor env name).Wp (fun o r' => ∃ link, o = .ok link ∧ link.attempts = r.attempts name ∧
      Between (base name) (standing (base name) link.attempts) link.txn ∧
      Linked base r' ∧ r'.lines = r.lines ∧ r'.attempts = r.attempts) r := by
  rw [linkFor, Prog.wp_bind, Prog.wp_gets, Prog.andThen_ok]
  cases hlink : r.links name with
  | some link =>
    have hattempts : link.attempts = r.attempts name := by simp [Chaining.attempts, hlink]
    exact ⟨link, rfl, hattempts, h.between name link hlink, h, rfl, rfl⟩
  | none =>
    rw [hopens]
    have hnone : r.attempts name = [] := by simp [Chaining.attempts, hlink, h.history]
    have hdata : r.databases name = base name := by rw [h.databases]
    let link : Link δ := { txn := { committed := r.databases name, data := r.databases name } }
    have hbetween : Between (base name) (base name) link.txn :=
      ⟨⟨rfl, rfl, hdata⟩, rfl, rfl, hdata⟩
    have hsame : (r.setLink name link).attempts = r.attempts := by
      funext n
      by_cases hn : n = name
      · rw [hn, setLink_self, hnone]
      · rw [setLink_other r _ hn]
    exact ⟨link, rfl, hnone.symm, hbetween, h.setLink hbetween trivial, rfl, hsame⟩

theorem wp_onLink {α : Type} {name : String} {link : Link δ} {p : Prog (Link δ) Fault α}
    {Q : Outcome Fault α → Chaining δ → Prop} :
    (onLink name link p).Wp Q r ↔ p.Wp (fun o link => Q o (r.setLink name link)) link := Iff.rfl

/-- After an attempt the transaction is between two specifications again. -/
theorem Tried.standing {base data : δ} {id : String} {earlier : List (Attempt δ)}
    {outcome : Deploy.Rehearsal} {k : Link δ} (hdata : data = Rehearsal.standing base earlier)
    (h : Tried base { id, before := data } earlier outcome k) (hstacked : Stacked base earlier) :
    Between base (Rehearsal.standing base k.attempts) k.txn ∧ Stacked base k.attempts ∧
      k.attempts.map Attempt.told = (id, decide (outcome = .rehearsed)) ::
        earlier.map Attempt.told := by
  obtain ⟨left, hattempts, hleft, hbetween⟩ := h
  rw [hattempts]
  refine ⟨?_, ⟨hdata, hstacked⟩, ?_⟩
  · subst hdata
    exact hbetween
  · have htold : left.isSome = decide (outcome = .rehearsed) := by
      rw [Bool.eq_iff_iff, hleft, decide_eq_true_eq]
    rw [List.map_cons, ← htold]
    rfl

/-- One specification has an outcome, and its attempt is the latest of its connection. -/
theorem rehearse_spec (h : Linked base r) {e : RepoEntry} (hq : env.Calm e) :
    (rehearse env e).Wp (fun o r' => ∃ outcome, o = .ok outcome ∧ Linked base r' ∧
      r'.lines = r.lines ∧ ∀ name, (r'.attempts name).map Attempt.told =
        (env.attempt name (e, .came outcome)).toList ++ (r.attempts name).map Attempt.told) r := by
  have hrefused : env.reaches e = false → (pure Deploy.Rehearsal.refused : InChain δ _).Wp
      (fun o r' => ∃ outcome, o = .ok outcome ∧ Linked base r' ∧ r'.lines = r.lines ∧
        ∀ name, (r'.attempts name).map Attempt.told =
          (env.attempt name (e, .came outcome)).toList ++
            (r.attempts name).map Attempt.told) r := by
    intro hreaches
    have hnone : ∀ name, env.attempt name (e, .came .refused) = none :=
      fun name => by simp [Env.attempt, hreaches]
    exact ⟨.refused, rfl, h, rfl, fun name => by rw [hnone]; rfl⟩
  rw [rehearse]
  cases hparses : env.parses e with
  | threw fault => exact absurd hparses (hq.parses fault)
  | refused => exact hrefused (by simp [Env.reaches, hparses])
  | accepted =>
    cases hgates : env.gates e with
    | threw fault => exact absurd hgates (hq.gates fault)
    | refused => exact hrefused (by simp [Env.reaches, hgates])
    | accepted =>
      have hreaches : env.reaches e = true := by simp [Env.reaches, hparses, hgates]
      dsimp only
      rw [Prog.wp_bind]
      refine (linkFor_spec h hq.opens).mono ?_
      rintro _ r' ⟨link, rfl, hlink, hbetween, hlinked, hlines, hattempts⟩
      rw [Prog.andThen_ok, wp_onLink]
      refine (rehearseOn_spec hq.server hbetween).mono ?_
      rintro _ link' ⟨outcome, rfl, htried⟩
      have hstacked : Stacked (base (env.connectionOf e)) link.attempts :=
        hlink ▸ h.stacked (env.connectionOf e)
      obtain ⟨hbetween', hstacked', htold⟩ := htried.standing rfl hstacked
      refine ⟨outcome, rfl, hlinked.setLink hbetween' hstacked', hlines, fun name => ?_⟩
      by_cases hn : name = env.connectionOf e
      · subst hn
        rw [setLink_self, htold, hlink]
        simp [Env.attempt, hreaches]
      · rw [setLink_other r' link' hn, hattempts]
        simp [Env.attempt, Ne.symm hn]

/-! ## The loop -/

/-- A specification that some line before it says was not rehearsed. -/
def Broken (lines : List (RepoEntry × Line)) (id : String) : Prop :=
  ∃ q ∈ lines, q.1.specId = id ∧ q.2 ≠ .came .rehearsed

/-- What the loop has come to: `done` are the specifications it is through with. The newest line is
the first of what `judged` is about. -/
structure Tallied (env : Env δ ω) (base : String → δ) (done : List RepoEntry) (c : Deploy.Chain)
    (r : Chaining δ) : Prop extends Linked base r where
  lines : r.lines.map Prod.fst = done
  broken : ∀ id, id ∈ c.broken ↔ Broken r.lines id
  counted : c.failed + c.incomplete + c.blocked = 0 ↔ ∀ p ∈ r.lines, p.2 = .came .rehearsed
  judged : Along (fun p earlier => p.2.LeftOut ↔ ∃ d ∈ p.1.dependsOn, Broken earlier d)
    r.lines.reverse
  tried : ∀ name,
    (r.attempts name).reverse.map Attempt.told = r.lines.filterMap (env.attempt name)

theorem tallied_start : Tallied env base [] {} { databases := base } where
  toLinked := linked_start
  lines := rfl
  broken id := by simp [Broken]
  counted := by simp
  judged := along_nil
  tried _ := rfl

theorem broken_append {lines : List (RepoEntry × Line)} {p : RepoEntry × Line} {id : String} :
    Broken (lines ++ [p]) id ↔ Broken lines id ∨ (p.1.specId = id ∧ p.2 ≠ .came .rehearsed) := by
  simp only [Broken, List.mem_append, List.mem_singleton, or_and_right, exists_or, exists_eq_left]

theorem broken_reverse {lines : List (RepoEntry × Line)} {id : String} :
    Broken lines.reverse id ↔ Broken lines id := by
  simp only [Broken, List.mem_reverse]

/-- One more line. -/
theorem Tallied.line {done : List RepoEntry} {c c' : Deploy.Chain} {e : RepoEntry} {what : Line}
    (h : Tallied env base done c r) (hlinked : Linked base r') (hlines : r'.lines = r.lines)
    (hattempts : ∀ name, (r'.attempts name).map Attempt.told =
      (env.attempt name (e, what)).toList ++ (r.attempts name).map Attempt.told)
    (hleft : what.LeftOut ↔ ∃ d ∈ e.dependsOn, d ∈ c.broken)
    (hbroken : ∀ id, id ∈ c'.broken ↔ id ∈ c.broken ∨ (e.specId = id ∧ what ≠ .came .rehearsed))
    (hcounted : c'.failed + c'.incomplete + c'.blocked = 0 ↔
      c.failed + c.incomplete + c.blocked = 0 ∧ what = .came .rehearsed) :
    Tallied env base (done ++ [e]) c' { r' with lines := r'.lines ++ [(e, what)] } where
  databases := hlinked.databases
  history := hlinked.history
  between := hlinked.between
  stacked := hlinked.stacked
  lines := by
    change (r'.lines ++ [(e, what)]).map Prod.fst = _
    rw [List.map_append, hlines, h.lines]
    rfl
  broken id := by
    change _ ↔ Broken (r'.lines ++ [(e, what)]) id
    rw [hbroken, h.broken, hlines, broken_append]
  counted := by
    change _ ↔ ∀ p ∈ r'.lines ++ [(e, what)], _
    rw [hcounted, h.counted, hlines]
    simp [or_imp, forall_and]
  judged := by
    change Along _ (r'.lines ++ [(e, what)]).reverse
    rw [List.reverse_append, hlines]
    refine h.judged.cons ?_
    simp only [broken_reverse, ← h.broken]
    exact hleft
  tried name := by
    change (r'.attempts name).reverse.map Attempt.told =
      (r'.lines ++ [(e, what)]).filterMap (env.attempt name)
    have htried := h.tried name
    rw [List.map_reverse] at htried ⊢
    rw [hattempts, List.reverse_append, htried, hlines, List.filterMap_append]
    congr 1
    cases hatt : env.attempt name (e, what) <;> simp [hatt]

theorem rehearsed_broken (c : Deploy.Chain) (id : String) (outcome : Deploy.Rehearsal) :
    ∀ i, i ∈ (c.rehearsed id outcome).broken ↔
      i ∈ c.broken ∨ (id = i ∧ Line.came outcome ≠ .came .rehearsed) := by
  intro i
  cases outcome <;> simp [Deploy.Chain.rehearsed, or_comm, eq_comm]

theorem rehearsed_counted (c : Deploy.Chain) (id : String) (outcome : Deploy.Rehearsal) :
    (c.rehearsed id outcome).failed + (c.rehearsed id outcome).incomplete +
        (c.rehearsed id outcome).blocked = 0 ↔
      c.failed + c.incomplete + c.blocked = 0 ∧ Line.came outcome = .came .rehearsed := by
  cases outcome <;> simp [Deploy.Chain.rehearsed]

/-- The loop is through with every specification, and its result is what was counted. -/
theorem chainLoop_spec : ∀ (rest done : List RepoEntry) (c : Deploy.Chain) (r : Chaining δ),
    (∀ e ∈ rest, env.readable e.path = true ∧ env.Calm e) → Tallied env base done c r →
    (chainLoop env c rest).Wp (fun o r' => ∃ c', Tallied env base (done ++ rest) c' r' ∧
      o = .ok (if c'.failed + c'.incomplete + c'.blocked = 0 then .ok else .refused)) r := by
  intro rest
  induction rest with
  | nil =>
    intro done c r _ h
    exact ⟨c, by rwa [List.append_nil], rfl⟩
  | cons e rest ih =>
    intro done c r hrest h
    have htail : ∀ e ∈ rest, env.readable e.path = true ∧ env.Calm e :=
      fun e he => hrest e (List.mem_cons_of_mem _ he)
    obtain ⟨hread, hcalm⟩ := hrest e List.mem_cons_self
    have happend : done ++ e :: rest = done ++ [e] ++ rest := by simp
    rw [happend, chainLoop]
    split
    · rename_i cause hcause
      have hc : cause ∈ e.dependsOn ∧ c.broken.contains cause = true :=
        ⟨List.mem_of_find?_eq_some hcause, List.find?_some hcause⟩
      rw [Prog.wp_bind, line, Prog.wp_modify, Prog.andThen_ok]
      refine ih _ _ _ htail (h.line h.toLinked rfl (fun name => rfl) ?_ ?_ ?_)
      · exact iff_of_true trivial ⟨cause, hc.1, by simpa using hc.2⟩
      · intro id
        simp [or_comm, eq_comm]
      · simp
    · rename_i hnone
      rw [if_pos hread, Prog.wp_bind]
      refine (rehearse_spec h.toLinked hcalm).mono ?_
      rintro _ r' ⟨outcome, rfl, hlinked, hlines, hattempts⟩
      rw [Prog.andThen_ok, Prog.wp_bind, line, Prog.wp_modify, Prog.andThen_ok]
      refine ih _ _ _ htail (h.line hlinked hlines hattempts ?_ (rehearsed_broken c _ _)
        (rehearsed_counted c _ _))
      refine iff_of_false (fun h => h) ?_
      rintro ⟨d, hd, hb⟩
      simpa [hb] using List.find?_eq_none.mp hnone d hd

/-! ## Why one was left out -/

/-- A specification of the chain that another one depends on stands before it. -/
def DependenciesFirst (chain : List RepoEntry) : Prop :=
  ∀ before e after, chain = before ++ e :: after →
    ∀ d ∈ chain, d.specId ∈ e.dependsOn → d ∈ before

section

variable {chain : List RepoEntry} {lines : List (RepoEntry × Line)}

theorem judged_before {before after : List (RepoEntry × Line)} {p : RepoEntry × Line}
    (h : Along (fun p earlier => p.2.LeftOut ↔ ∃ d ∈ p.1.dependsOn, Broken earlier d)
      lines.reverse) (hl : lines = before ++ p :: after) :
    p.2.LeftOut ↔ ∃ d ∈ p.1.dependsOn, Broken before d := by
  have hp := h after.reverse p before.reverse (by simp [hl])
  simpa only [broken_reverse] using hp

/-- One is left out exactly where one that it depends on directly was not rehearsed. -/
theorem leftOut_direct (hids : (chain.map RepoEntry.specId).Nodup)
    (hfirst : DependenciesFirst chain) (hlines : lines.map Prod.fst = chain)
    (h : Along (fun p earlier => p.2.LeftOut ↔ ∃ d ∈ p.1.dependsOn, Broken earlier d)
      lines.reverse) {p : RepoEntry × Line} (hp : p ∈ lines) :
    p.2.LeftOut ↔ ∃ q ∈ lines, DependsWithin chain p.1 q.1 ∧ q.2 ≠ .came .rehearsed := by
  obtain ⟨before, after, hl⟩ := List.append_of_mem hp
  have hmem : ∀ q ∈ lines, q.1 ∈ chain := fun q hq => hlines ▸ List.mem_map_of_mem hq
  rw [judged_before h hl]
  constructor
  · rintro ⟨d, hd, q, hq, rfl, hnot⟩
    have hq' : q ∈ lines := by
      rw [hl]
      exact List.mem_append_left _ hq
    exact ⟨q, hq', ⟨hmem q hq', hd⟩, hnot⟩
  · rintro ⟨q, hq, ⟨hqc, hd⟩, hnot⟩
    have hchain : chain = before.map Prod.fst ++ p.1 :: after.map Prod.fst := by
      rw [← hlines, hl, List.map_append, List.map_cons]
    obtain ⟨q', hq', heq⟩ := List.mem_map.mp (hfirst _ _ _ hchain q.1 hqc hd)
    have hnodup : (lines.map fun l => l.1.specId).Nodup := by
      rw [← hlines, List.map_map] at hids
      exact hids
    have hsame : q' = q := by
      refine List.inj_on_of_nodup_map hnodup ?_ hq (by rw [heq])
      rw [hl]
      exact List.mem_append_left _ hq'
    exact ⟨q.1.specId, hd, q, hsame ▸ hq', rfl, hnot⟩

/-- And so exactly where one that it depends on, through others or not, was not. -/
theorem leftOut_iff (hids : (chain.map RepoEntry.specId).Nodup)
    (hfirst : DependenciesFirst chain) (hlines : lines.map Prod.fst = chain)
    (h : Along (fun p earlier => p.2.LeftOut ↔ ∃ d ∈ p.1.dependsOn, Broken earlier d)
      lines.reverse) {p : RepoEntry × Line} (hp : p ∈ lines) :
    p.2.LeftOut ↔ ∃ q ∈ lines, Relation.TransGen (DependsWithin chain) p.1 q.1 ∧
      q.2 ≠ .came .rehearsed := by
  constructor
  · intro hleft
    obtain ⟨q, hq, hd, hnot⟩ := (leftOut_direct hids hfirst hlines h hp).mp hleft
    exact ⟨q, hq, .single hd, hnot⟩
  · rintro ⟨q, hq, hd, hnot⟩
    -- from the end of the chain of dependencies, whose last but one is left out
    have hbroken : ∀ e, Relation.TransGen (DependsWithin chain) e q.1 →
        ∀ p ∈ lines, p.1 = e → p.2.LeftOut := by
      intro e he
      induction he using Relation.TransGen.head_induction_on with
      | single hd =>
        rintro p hp rfl
        exact (leftOut_direct hids hfirst hlines h hp).mpr ⟨q, hq, hd, hnot⟩
      | head hd _ ih =>
        rintro p hp rfl
        have hmid := hd.1
        rw [← hlines] at hmid
        obtain ⟨m, hm, rfl⟩ := List.mem_map.mp hmid
        refine (leftOut_direct hids hfirst hlines h hp).mpr ⟨m, hm, hd, fun hr => ?_⟩
        have hleft := ih m hm rfl
        rw [hr] at hleft
        exact hleft
    exact hbroken p.1 hd p hp rfl

end

/-! ## The chain of a listing -/

section

variable {l : Listing}

theorem pendingOf_mem {migrations : List RepoEntry} {specs : List String} {e : RepoEntry}
    (h : e ∈ Deploy.pendingOf migrations specs) : e ∈ migrations ∧ e.status.runnable = true := by
  obtain ⟨hlisted, hstatus⟩ := List.mem_filter.mp h
  obtain ⟨id, -, he⟩ := List.mem_filterMap.mp hlisted
  refine ⟨(List.mem_filter.mp (List.mem_of_getLast? he)).1, ?_⟩
  cases hs : e.status <;> simp [hs] at hstatus <;> rfl

/-- What a specification depends on stands in an earlier level, so before it. -/
theorem pendingOf_dependenciesFirst (hk : Keyed l.migrations) {views : List (String × View)}
    (hl : l.InOrder views)
    (hspecs : (Deploy.pendingOf l.migrations l.specs).map RepoEntry.specId = l.specs) :
    DependenciesFirst (Deploy.pendingOf l.migrations l.specs) := by
  intro before e after hchain d hd hdep
  have he : e ∈ Deploy.pendingOf l.migrations l.specs := by
    rw [hchain]
    exact List.mem_append_right _ List.mem_cons_self
  obtain ⟨hem, her⟩ := pendingOf_mem he
  obtain ⟨hdm, hdr⟩ := pendingOf_mem hd
  have hbyE : byId l.migrations e.specId = some e := hk.byId_eq hem (hk.named e hem her)
  have hbyD : byId l.migrations d.specId = some d := hk.byId_eq hdm (hk.named d hdm hdr)
  have hids : l.specs = before.map RepoEntry.specId ++ e.specId :: after.map RepoEntry.specId := by
    rw [← hspecs, hchain, List.map_append, List.map_cons]
  -- the level of `e`, and where in it `e` stands
  have hein : e.specId ∈ l.order.flatMap Level.specs := by
    change e.specId ∈ l.specs
    rw [hids]
    exact List.mem_append_right _ List.mem_cons_self
  obtain ⟨lv, hlv, hin⟩ := List.mem_flatMap.mp hein
  obtain ⟨front, back, horder⟩ := List.append_of_mem hlv
  obtain ⟨x, y, hxy⟩ := List.append_of_mem hin
  have hat : l.order[front.length]? = some lv := by simp [horder]
  have hdeps : d.specId ∈ dependsOn l.migrations e.specId := by
    rw [dependsOn, hbyE]
    exact hdep
  have hearlier : d.specId ∈ front.flatMap Level.specs := by
    rcases hl.deps front.length lv hat e.specId hin d.specId hdeps with h | h | h
    · obtain ⟨a, ham, hid, happ⟩ := h
      have hsame : some a = some d := by
        rw [← hbyD, ← hid]
        exact (hk.byId_eq ham (hid ▸ hk.named d hdm hdr)).symm
      cases hsame
      rw [happ] at hdr
      cases hdr
    · rw [h.1] at hbyD
      cases hbyD
    · obtain ⟨j, hj, lv', hlv', hd'⟩ := h
      rw [horder, List.getElem?_append_left hj] at hlv'
      exact List.mem_flatMap.mpr ⟨lv', List.mem_of_getElem? hlv', hd'⟩
  have hsplit : l.specs = (front.flatMap Level.specs ++ x) ++
      e.specId :: (y ++ back.flatMap Level.specs) := by
    change l.order.flatMap Level.specs = _
    rw [horder, List.flatMap_append, List.flatMap_cons, hxy]
    simp
  have hnodup := hl.nodup
  have hbefore : before.map RepoEntry.specId = front.flatMap Level.specs ++ x := by
    rw [hids] at hnodup
    have hnot := List.nodup_middle.mp hnodup
    rw [List.nodup_cons, List.mem_append, not_or] at hnot
    rw [hids] at hsplit
    exact ((List.append_cons_inj_of_notMem hnot.1.1 hnot.1.2).mp hsplit).1
  have hmem : d.specId ∈ before.map RepoEntry.specId := by
    rw [hbefore]
    exact List.mem_append_left _ hearlier
  obtain ⟨b, hb, hbid⟩ := List.mem_map.mp hmem
  have hbchain : b ∈ Deploy.pendingOf l.migrations l.specs := by
    rw [hchain]
    exact List.mem_append_left _ hb
  have hdistinct := hl.nodup
  rw [← hspecs] at hdistinct
  rwa [← List.inj_on_of_nodup_map hdistinct hbchain hd hbid]

end

theorem runChain_told (env : Env δ ω) (base : String → δ) {repo : MigrationRepository} {disk : Disk}
    {sources : List Source} {deriveRelations complete : Bool} {l : Listing}
    (hl : repo.scan disk sources deriveRelations complete = .ok (some l)) (hp : l.problems = [])
    (hread : ∀ e ∈ Deploy.pendingOf l.migrations l.specs, env.readable e.path = true)
    (hcalm : ∀ e ∈ Deploy.pendingOf l.migrations l.specs, env.Calm e) :
    ((Deploy.pendingOf l.migrations l.specs).map RepoEntry.specId).Perm
        (runnableIds l.migrations) ∧
      ChainTold env (Deploy.pendingOf l.migrations l.specs) base
        (runChain env l { databases := base }) := by
  have hk := MigrationRepository.scan_keyed hl
  obtain ⟨views, horder⟩ := MigrationRepository.scan_inOrder hl hp
  have hspecs : (Deploy.pendingOf l.migrations l.specs).map RepoEntry.specId = l.specs :=
    Deploy.pendingOf_specs hk fun id hid => horder.perm.subset hid
  have hnodup : ((Deploy.pendingOf l.migrations l.specs).map RepoEntry.specId).Nodup := by
    rw [hspecs]
    exact horder.nodup
  have hfirst := pendingOf_dependenciesFirst hk horder hspecs
  refine ⟨by rw [hspecs]; exact horder.perm, ?_⟩
  have hloop := chainLoop_spec (Deploy.pendingOf l.migrations l.specs) [] {} { databases := base }
    (fun e he => ⟨hread e he, hcalm e he⟩) tallied_start
  rw [List.nil_append, Prog.Wp] at hloop
  rcases hrun : chainLoop env {} (Deploy.pendingOf l.migrations l.specs) { databases := base }
    with ⟨o, r⟩
  rw [hrun] at hloop
  obtain ⟨c, htally, rfl⟩ := hloop
  have hend : runChain env l { databases := base } =
      (.ok (if c.failed + c.incomplete + c.blocked = 0 then .ok else .refused), r.ended) := by
    rw [runChain, Prog.leaving, hrun]
  rw [hend]
  have hcounted := htally.counted
  refine ⟨hnodup, htally.lines, fun p hm => ?_, htally.tried, htally.stacked,
    ⟨_, rfl, ?_⟩, ?_⟩
  · exact leftOut_iff hnodup hfirst htally.lines htally.judged hm
  · change _ ↔ ∀ p ∈ r.lines, _
    rw [← hcounted]
    split <;> simp_all
  · funext name
    change ((r.links name).map fun k => k.txn.committed).getD (r.databases name) = base name
    cases hlink : r.links name with
    | none =>
      rw [htally.databases]
      rfl
    | some link => exact (htally.between name link hlink).committed

/-- Every run over a listing without problems whose files can be read, where nothing is thrown
around a rehearsal and no server is lost. -/
theorem runChain_accounts (env : Env δ ω) (base : String → δ) (repo : MigrationRepository)
    (disk : Disk) (sources : List Source) (deriveRelations complete : Bool) (l : Listing)
    (hl : repo.scan disk sources deriveRelations complete = .ok (some l)) (hp : l.problems = [])
    (hread : ∀ e ∈ Deploy.pendingOf l.migrations l.specs, env.readable e.path = true)
    (hquiet : ∀ e ∈ Deploy.pendingOf l.migrations l.specs, env.Quiet e) :
    ((Deploy.pendingOf l.migrations l.specs).map RepoEntry.specId).Perm
        (runnableIds l.migrations) ∧
      ChainTold env (Deploy.pendingOf l.migrations l.specs) base
        (runChain env l { databases := base }) :=
  runChain_told env base hl hp hread fun e he => (hquiet e he).calm

/-- Every run over such a listing in which nothing is thrown around a rehearsal, the servers keep
their connections, and no text that is sent ends the transaction. -/
theorem runChain_classifies (env : Env δ ω) (base : String → δ) (repo : MigrationRepository)
    (disk : Disk) (sources : List Source) (deriveRelations complete : Bool) (l : Listing)
    (hl : repo.scan disk sources deriveRelations complete = .ok (some l)) (hp : l.problems = [])
    (hread : ∀ e ∈ Deploy.pendingOf l.migrations l.specs, env.readable e.path = true)
    (hcalm : ∀ e ∈ Deploy.pendingOf l.migrations l.specs, env.Calm e) :
    ((Deploy.pendingOf l.migrations l.specs).map RepoEntry.specId).Perm
        (runnableIds l.migrations) ∧
      ChainTold env (Deploy.pendingOf l.migrations l.specs) base
        (runChain env l { databases := base }) :=
  runChain_told env base hl hp hread hcalm

end

/-! ## A chain of three -/

theorem id0002_ne : "0002" ≠ "" := by decide

theorem id0003_ne : "0003" ≠ "" := by decide

/-- The first is refused by the server, the second depends on it, and the third stands alone. -/
def threeFiles : Disk where
  isDirectory _ := true
  canonical dir := some dir
  specFiles _ := ["specs/0001.json", "specs/0002.json", "specs/0003.json"]
  read path :=
    if path = "specs/0001.json" then .ok applied0001
    else if path = "specs/0002.json" then
      .ok { id := "0002", id_ne := id0002_ne, digest := "d2", dependsOn := ["0001"] }
    else .ok { id := "0003", id_ne := id0003_ne, digest := "d3" }

/-- What the transaction sees is the statements made in it. -/
def plainServer : Server (List String) Unit where
  version := 170000
  control _ _ := .got ()
  answers _ text data :=
    if text = "CREATE TABLE" then .refused (.sqlError "42601" "syntax error")
    else .got (.made (text :: data))
  copies _ _ data := .got data
  observes _ _ _ := .got ((), 0)

theorem plainServer_steady : plainServer.Steady where
  plain asked text data after := by
    simp only [plainServer]
    split <;> simp
  control _ _ := trivial
  answers asked text data := by
    simp only [plainServer]
    split <;> trivial
  copies _ _ _ := trivial
  observes _ _ _ := trivial
  obeys _ _ _ := rfl

def plainEnv : Env (List String) Unit where
  readable _ := true
  parses _ := .accepted
  defaultConnection := "main"
  gates _ := .accepted
  opens _ := none
  server _ := plainServer
  plans e _ := .steps [{
    ordinal := 1
    statements := [if e.specId = "0001" then "CREATE TABLE" else "CREATE TABLE t (id int)"] }]

theorem runChain_accounts_three : ∃ l : Listing,
    (twoLedgers {}).scan threeFiles specsDir false false = .ok (some l) ∧ l.problems = [] ∧
    ((Deploy.pendingOf l.migrations l.specs).map RepoEntry.specId).Perm
        (runnableIds l.migrations) ∧
      ChainTold plainEnv (Deploy.pendingOf l.migrations l.specs) (fun _ => [])
        (runChain plainEnv l { databases := fun _ => [] }) := by
  obtain ⟨l, hl, hp⟩ := @scan_silent (twoLedgers {}) threeFiles specsDir false false
    (by decide +kernel)
  refine ⟨l, hl, hp, runChain_accounts plainEnv (fun _ => []) (twoLedgers {}) threeFiles specsDir
    false false l hl hp (fun _ _ => rfl) fun e _ => ?_⟩
  exact ⟨fun _ => nofun, fun _ => nofun, rfl, plainServer_steady⟩

/-! ## A text that ends the transaction -/

/-- `CREATE VIEW` with a definition of three statements. -/
def viewThenCommit : String :=
  "CREATE VIEW \"public\".\"v\" AS SELECT 1 AS one; COMMIT; SELECT 2 AS two"

/-- The same server, which does what that text says. -/
def obeyingServer : Server (List String) Unit where
  version := plainServer.version
  control := plainServer.control
  answers asked text data :=
    if text = viewThenCommit then
      .got (.controlled { committed := text :: data, data := text :: data, inBlock := false })
    else plainServer.answers asked text data
  copies := plainServer.copies
  observes := plainServer.observes

def obeyingEnv (plans : RepoEntry → Planned) : Env (List String) Unit where
  readable := plainEnv.readable
  parses := plainEnv.parses
  defaultConnection := plainEnv.defaultConnection
  gates := plainEnv.gates
  opens := plainEnv.opens
  server _ := obeyingServer
  plans e _ := plans e

def plannedTable (e : RepoEntry) : Planned := plainEnv.plans e ()

theorem plannedTable_calm (e : RepoEntry) : (obeyingEnv plannedTable).Calm e where
  parses _ := nofun
  gates _ := nofun
  opens := rfl
  server := by
    have hsent : ∀ text, (obeyingEnv plannedTable).Sends e text → text ≠ viewThenCommit := by
      rintro text ⟨_, steps, hsteps, htext⟩ rfl
      have hplanned : plannedTable e = .steps steps := hsteps
      simp only [plannedTable, plainEnv, Planned.steps.injEq] at hplanned
      subst hplanned
      revert htext
      split <;> decide +kernel
    have hcalm := plainServer_steady.calm ((obeyingEnv plannedTable).Sends e)
    have hanswer : ∀ text, (obeyingEnv plannedTable).Sends e text → ∀ asked data,
        obeyingServer.answers asked text data = plainServer.answers asked text data :=
      fun text htext asked data => if_neg (hsent text htext)
    refine ⟨fun text htext asked data after => ?_, hcalm.control, fun text htext asked data => ?_,
      hcalm.copies, hcalm.observes, hcalm.obeys⟩
    · exact (hanswer text htext asked data).symm ▸ hcalm.plain text htext asked data after
    · exact (hanswer text htext asked data).symm ▸ hcalm.answers text htext asked data

theorem runChain_classifies_three : ∃ l : Listing,
    (twoLedgers {}).scan threeFiles specsDir false false = .ok (some l) ∧ l.problems = [] ∧
    ((Deploy.pendingOf l.migrations l.specs).map RepoEntry.specId).Perm
        (runnableIds l.migrations) ∧
      ChainTold (obeyingEnv plannedTable) (Deploy.pendingOf l.migrations l.specs) (fun _ => [])
        (runChain (obeyingEnv plannedTable) l { databases := fun _ => [] }) := by
  obtain ⟨l, hl, hp⟩ := @scan_silent (twoLedgers {}) threeFiles specsDir false false
    (by decide +kernel)
  exact ⟨l, hl, hp, runChain_classifies (obeyingEnv plannedTable) (fun _ => []) (twoLedgers {})
    threeFiles specsDir false false l hl hp (fun _ _ => rfl) fun e _ => plannedTable_calm e⟩

def plannedView (_ : RepoEntry) : Planned :=
  .steps [{ ordinal := 0, statements := [viewThenCommit ++ ";"] }]

/-- The view is committed, and nothing is said of its specification. -/
theorem runChain_commits : ∃ l : Listing,
    (twoLedgers {}).scan (oneFile applied0001) specsDir false false = .ok (some l) ∧
      l.problems = [] ∧
      (∀ e ∈ Deploy.pendingOf l.migrations l.specs,
        (obeyingEnv plannedView).readable e.path = true) ∧
      (runChain (obeyingEnv plannedView) l { databases := fun _ => [] }).2.lines = [] ∧
      ¬ ChainTold (obeyingEnv plannedView) (Deploy.pendingOf l.migrations l.specs) (fun _ => [])
        (runChain (obeyingEnv plannedView) l { databases := fun _ => [] }) := by
  let run (l : Listing) := (runChain (obeyingEnv plannedView) l { databases := fun _ => [] }).2
  obtain ⟨l, hl, hrun⟩ := @scan_made _
    (fun l => (l.problems, (run l).lines.isEmpty, (run l).databases "main"))
    ([], true, [viewThenCommit]) (twoLedgers {}) (oneFile applied0001) specsDir false false
    (by decide +kernel)
  obtain ⟨hp, hlines, hcommitted⟩ : l.problems = [] ∧ (run l).lines.isEmpty = true ∧
      (run l).databases "main" = [viewThenCommit] := by simpa using hrun
  refine ⟨l, hl, hp, fun _ _ => rfl, List.isEmpty_iff.mp hlines, fun h => ?_⟩
  have hnothing : (run l).databases "main" = [] := congrFun h.uncommitted "main"
  rw [hcommitted] at hnothing
  cases hnothing

end Rehearsal
end Laswell
