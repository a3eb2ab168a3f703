import Laswell.Base.Custody
import Mathlib.Logic.Relation

/-!
# Laswell.Sessions.Cache

`ConnectionCache` and the sessions that read through it (`ReadSession`): any number of sessions, the
reaper, servers that drop connections whenever they like, and any order of their moves. A move is
what one of them does under the cache's mutex, or to a connection it has in hand.

* `Phase`: where a session is, from its constructor to the end of its destructor.
* `Moves`: one move. A connection is destroyed where the source's pointer is reset.
* `Kept`: what every move keeps.
* `pool_kept`: every connection there is has one owner, the cache or one session.
-/

namespace Laswell
namespace Sessions

open Base

abbrev Name := String
abbrev ConnId := Nat
abbrev SessionId := Nat

/-- A connection: the name it was opened under, whether a transaction is open on it, and what
`is_open` says of it. -/
structure Conn where
  name : Name
  inTransaction : Bool := false
  isOpen : Bool := true

structure Entry where
  conn : ConnId
  since : Nat

/-- What the constructor of a session threw at. -/
inductive Cause where
  | connecting
  | beginning (cached : Bool)
  | settingUp
  deriving DecidableEq

/-- Where a session is. The first attempt may have a cached connection in hand. -/
inductive Phase where
  | taking (attempt : Nat)
  | beginning (attempt : Nat) (conn : ConnId) (cached : Bool)
  | settingUp (conn : ConnId)
  | reading (conn : ConnId)
  | closing (conn : ConnId)
  | thrown (cause : Cause)
  | gone
  deriving DecidableEq

/-- The connection a session has in hand. -/
def Phase.conn? : Phase → Option ConnId
  | .taking _ => none
  | .beginning _ c _ => some c
  | .settingUp c => some c
  | .reading c => some c
  | .closing c => some c
  | .thrown _ => none
  | .gone => none

/-- No connection of the cache's after the first attempt. -/
def Phase.Fresh : Phase → Prop
  | .taking attempt => attempt ≤ 1
  | .beginning attempt _ cached => attempt ≤ 1 ∧ (attempt = 1 → cached = false)
  | .thrown (.beginning cached) => cached = false
  | _ => True

/-- A session, made with a cache or without one. -/
structure Session where
  name : Name
  pooled : Bool
  phase : Phase

structure Pool where
  idle : Name → Option Entry := fun _ => none
  sessions : SessionId → Option Session := fun _ => none
  conns : ConnId → Option Conn := fun _ => none
  next : ConnId := 0
  now : Nat := 0

namespace Pool

variable (p : Pool)

def setSession (s : SessionId) (x : Session) (phase : Phase) : Pool :=
  { p with sessions := Function.update p.sessions s (some { x with phase }) }

def setConn (c : ConnId) (k : Conn) : Pool :=
  { p with conns := Function.update p.conns c (some k) }

/-- `conn_.reset()` -/
def destroy (c : ConnId) : Pool := { p with conns := Function.update p.conns c none }

/-- `take` -/
def take (n : Name) : Pool := { p with idle := Function.update p.idle n none }

/-- `std::make_unique<pqxx::connection>` -/
def connect (n : Name) : Pool :=
  { p with conns := Function.update p.conns p.next (some { name := n }), next := p.next + 1 }

/-- An entry goes, with its connection, or there was none. -/
def erase (n : Name) : Pool :=
  match p.idle n with
  | none => p
  | some e => (p.take n).destroy e.conn

def put (n : Name) (c : ConnId) : Pool :=
  { p with idle := Function.update p.idle n (some ⟨c, p.now⟩) }

/-- `release`, of a connection that is open. -/
def release (n : Name) (c : ConnId) : Pool := (p.erase n).put n c

/-- The entry has been idle for long enough. -/
def Stale (ttl : Nat) (n : Name) : Prop := ∃ e, p.idle n = some e ∧ ttl ≤ p.now - e.since

/-- What the cache has under each name, and what each session has in hand. -/
def holds : Name ⊕ SessionId → Option ConnId
  | .inl n => (p.idle n).map Entry.conn
  | .inr s => (p.sessions s).bind fun x => x.phase.conn?

/-- The name a holder gets its connections under. -/
def nameOf : Name ⊕ SessionId → Option Name
  | .inl n => some n
  | .inr s => (p.sessions s).map Session.name

end Pool

/-- The cache has nothing for a session at this attempt. -/
def Misses (p : Pool) (x : Session) (attempt : Nat) : Prop :=
  attempt = 0 → x.pooled = true → p.idle x.name = none

inductive Moves (ttl : Nat) (p : Pool) : Pool → Prop
  | construct {s name pooled} (h : p.sessions s = none) :
    Moves ttl p (p.setSession s ⟨name, pooled, .gone⟩ (.taking 0))
  | take {s x e} (h : p.sessions s = some x) (hx : x.phase = .taking 0) (hp : x.pooled = true)
      (he : p.idle x.name = some e) :
    Moves ttl p ((p.take x.name).setSession s x (.beginning 0 e.conn true))
  | connect {s x attempt} (h : p.sessions s = some x) (hx : x.phase = .taking attempt)
      (hm : Misses p x attempt) :
    Moves ttl p ((p.connect x.name).setSession s x (.beginning attempt p.next false))
  | connectFails {s x attempt} (h : p.sessions s = some x) (hx : x.phase = .taking attempt)
      (hm : Misses p x attempt) :
    Moves ttl p (p.setSession s x (.thrown .connecting))
  | begins {s x attempt c cached k} (h : p.sessions s = some x)
      (hx : x.phase = .beginning attempt c cached) (hc : p.conns c = some k)
      (ho : k.isOpen = true) :
    Moves ttl p ((p.setConn c { k with inTransaction := true }).setSession s x (.settingUp c))
  | beginFails {s x c cached} (h : p.sessions s = some x) (hx : x.phase = .beginning 0 c cached) :
    Moves ttl p ((p.destroy c).setSession s x (.taking 1))
  | beginThrows {s x attempt c cached} (h : p.sessions s = some x)
      (hx : x.phase = .beginning attempt c cached) (ha : attempt = 1) :
    Moves ttl p ((p.destroy c).setSession s x (.thrown (.beginning cached)))
  | setUp {s x c} (h : p.sessions s = some x) (hx : x.phase = .settingUp c) :
    Moves ttl p (p.setSession s x (.reading c))
  | setUpFails {s x c} (h : p.sessions s = some x) (hx : x.phase = .settingUp c) :
    Moves ttl p ((p.destroy c).setSession s x (.thrown .settingUp))
  | renew {s x c k} (h : p.sessions s = some x) (hx : x.phase = .reading c)
      (hc : p.conns c = some k) (begun : Bool) :
    Moves ttl p (p.setConn c { k with inTransaction := begun })
  | close {s x c k} (h : p.sessions s = some x) (hx : x.phase = .reading c)
      (hc : p.conns c = some k) :
    Moves ttl p ((p.setConn c { k with inTransaction := false }).setSession s x (.closing c))
  | release {s x c k} (h : p.sessions s = some x) (hx : x.phase = .closing c)
      (hp : x.pooled = true) (hc : p.conns c = some k) (ho : k.isOpen = true) :
    Moves ttl p ((p.release x.name c).setSession s x .gone)
  | discard {s x c k} (h : p.sessions s = some x) (hx : x.phase = .closing c)
      (hc : p.conns c = some k) (ho : x.pooled = false ∨ k.isOpen = false) :
    Moves ttl p ((p.destroy c).setSession s x .gone)
  | lose {c k} (hc : p.conns c = some k) :
    Moves ttl p (p.setConn c { k with isOpen := false })
  -- a pass of the reaper is one of these for each entry that is stale
  | reap {n} (h : p.Stale ttl n) : Moves ttl p (p.erase n)
  | tick {n} : Moves ttl p { p with now := p.now + n }

/-- Any number of moves. -/
def Runs (ttl : Nat) : Pool → Pool → Prop := Relation.ReflTransGen (Moves ttl)

variable {p : Pool} {ttl : Nat}

section Holds

variable {s : SessionId} {x : Session} {phase : Phase} {c : ConnId} {k : Conn} {n : Name}

@[simp] theorem conns_setSession : (p.setSession s x phase).conns = p.conns := rfl
@[simp] theorem idle_setSession : (p.setSession s x phase).idle = p.idle := rfl
@[simp] theorem next_setSession : (p.setSession s x phase).next = p.next := rfl

theorem sessions_setSession :
    (p.setSession s x phase).sessions = Function.update p.sessions s (some { x with phase }) := rfl

theorem holds_setSession :
    (p.setSession s x phase).holds = Function.update p.holds (.inr s) phase.conn? := by
  funext o
  rcases o with n | s'
  · rfl
  · by_cases hs : s' = s
    · subst hs
      simp [Pool.holds, Pool.setSession]
    · rw [Function.update_of_ne (by simpa using hs)]
      simp only [Pool.holds, Pool.setSession, Function.update_of_ne hs]

@[simp] theorem holds_setConn : (p.setConn c k).holds = p.holds := by
  funext o
  cases o <;> rfl

@[simp] theorem holds_destroy : (p.destroy c).holds = p.holds := by
  funext o
  cases o <;> rfl

theorem holds_take : (p.take n).holds = Function.update p.holds (.inl n) none := by
  funext o
  rcases o with n' | s
  · by_cases hn : n' = n
    · subst hn
      simp [Pool.holds, Pool.take]
    · rw [Function.update_of_ne (by simpa using hn)]
      simp only [Pool.holds, Pool.take, Function.update_of_ne hn]
  · rfl

theorem holds_put : (p.put n c).holds = Function.update p.holds (.inl n) (some c) := by
  funext o
  rcases o with n' | s
  · by_cases hn : n' = n
    · subst hn
      simp [Pool.holds, Pool.put]
    · rw [Function.update_of_ne (by simpa using hn)]
      simp only [Pool.holds, Pool.put, Function.update_of_ne hn]
  · rfl

@[simp] theorem holds_connect : (p.connect n).holds = p.holds := by
  funext o
  cases o <;> rfl

@[simp] theorem sessions_erase : (p.erase n).sessions = p.sessions := by
  unfold Pool.erase
  split <;> rfl

theorem holds_erase_self : (p.erase n).holds (.inl n) = none := by
  unfold Pool.erase
  split
  · next h => simp [Pool.holds, h]
  · rw [holds_destroy, holds_take, Function.update_self]

theorem holds_of_session (h : p.sessions s = some x) : p.holds (.inr s) = x.phase.conn? := by
  simp [Pool.holds, h]

end Holds

/-- What a connection's holder may count on. -/
structure Tidy (p : Pool) : Prop where
  opened : ∀ c, (p.conns c).isSome → c < p.next
  named : ∀ o c k, p.holds o = some c → p.conns c = some k → p.nameOf o = some k.name
  quiet : ∀ n c k, p.holds (.inl n) = some c → p.conns c = some k → k.inTransaction = false
  closed : ∀ s x c k, p.sessions s = some x → x.phase = .closing c → p.conns c = some k →
    k.inTransaction = false
  fresh : ∀ s x, p.sessions s = some x → x.phase.Fresh

/-- What every move keeps. -/
structure Kept (p : Pool) : Prop extends Tidy p where
  custody : Custody p.holds fun c => (p.conns c).isSome

section Tidy

variable {s : SessionId} {x : Session} {phase : Phase} {c : ConnId} {k : Conn} {n : Name}

theorem Tidy.setSession (h : Tidy p) (hf : phase.Fresh)
    (hn : ∀ c k, phase.conn? = some c → p.conns c = some k → x.name = k.name)
    (hc : ∀ c k, phase = .closing c → p.conns c = some k → k.inTransaction = false) :
    Tidy (p.setSession s x phase) where
  opened := h.opened
  named := by
    intro o c k ho hk
    rw [holds_setSession, Function.update_apply] at ho
    split at ho
    · next hos =>
      subst hos
      simp [Pool.nameOf, sessions_setSession, hn c k ho hk]
    · next hos =>
      have := h.named o c k ho hk
      rcases o with n | s'
      · exact this
      · have hs : s' ≠ s := by simpa using hos
        simpa [Pool.nameOf, sessions_setSession, Function.update_of_ne hs] using this
  quiet := by
    intro n c k ho hk
    rw [holds_setSession, Function.update_of_ne (by simp)] at ho
    exact h.quiet n c k ho hk
  closed := by
    intro s' x' c k hs' hx' hk
    rw [sessions_setSession, Function.update_apply] at hs'
    split at hs'
    · cases hs'
      exact hc c k hx' hk
    · exact h.closed s' x' c k hs' hx' hk
  fresh := by
    intro s' x' hs'
    rw [sessions_setSession, Function.update_apply] at hs'
    split at hs'
    · cases hs'
      exact hf
    · exact h.fresh s' x' hs'

theorem Tidy.setConn (h : Tidy p) {k' : Conn} (hk : p.conns c = some k) (hname : k'.name = k.name)
    (hquiet : ∀ n, p.holds (.inl n) = some c → k'.inTransaction = false)
    (hclosed : ∀ s x, p.sessions s = some x → x.phase = .closing c → k'.inTransaction = false) :
    Tidy (p.setConn c k') where
  opened := by
    intro c' hc'
    by_cases hcc : c' = c
    · subst hcc
      exact h.opened c' (by rw [hk]; rfl)
    · exact h.opened c' (by simpa [Pool.setConn, Function.update_of_ne hcc] using hc')
  named := by
    intro o c' k'' ho hk''
    rw [holds_setConn] at ho
    simp only [Pool.setConn, Function.update_apply] at hk''
    split at hk''
    · next hcc =>
      cases hk''
      subst hcc
      rw [hname]
      exact h.named o c' k ho hk
    · exact h.named o c' k'' ho hk''
  quiet := by
    intro n c' k'' ho hk''
    rw [holds_setConn] at ho
    simp only [Pool.setConn, Function.update_apply] at hk''
    split at hk''
    · next hcc =>
      cases hk''
      subst hcc
      exact hquiet n ho
    · exact h.quiet n c' k'' ho hk''
  closed := by
    intro s x c' k'' hs hx hk''
    simp only [Pool.setConn, Function.update_apply] at hk''
    split at hk''
    · next hcc =>
      cases hk''
      subst hcc
      exact hclosed s x hs hx
    · exact h.closed s x c' k'' hs hx hk''
  fresh := h.fresh

/-- Fewer connections, or fewer that are idle. -/
theorem Tidy.fewer (h : Tidy p) {q : Pool} (hs : q.sessions = p.sessions) (hn : q.next = p.next)
    (hc : ∀ c k, q.conns c = some k → p.conns c = some k)
    (hi : ∀ n e, q.idle n = some e → p.idle n = some e) : Tidy q := by
  have hholds : ∀ o c, q.holds o = some c → p.holds o = some c := by
    intro o c ho
    rcases o with n | s
    · obtain ⟨e, he, rfl⟩ := Option.map_eq_some_iff.mp ho
      simp [Pool.holds, hi n e he]
    · simpa [Pool.holds, hs] using ho
  have hname : ∀ o, q.nameOf o = p.nameOf o := by
    intro o
    cases o <;> simp [Pool.nameOf, hs]
  constructor
  · intro c hcs
    obtain ⟨k, hk⟩ := Option.isSome_iff_exists.mp hcs
    exact hn ▸ h.opened c (by rw [hc c k hk]; rfl)
  · intro o c k ho hk
    rw [hname]
    exact h.named o c k (hholds o c ho) (hc c k hk)
  · intro n c k ho hk
    exact h.quiet n c k (hholds _ c ho) (hc c k hk)
  · intro s x c k hx hp hk
    exact h.closed s x c k (hs ▸ hx) hp (hc c k hk)
  · intro s x hx
    exact h.fresh s x (hs ▸ hx)

theorem Tidy.destroy (h : Tidy p) : Tidy (p.destroy c) := by
  refine h.fewer rfl rfl (fun c' k hk => ?_) fun _ _ => id
  simp only [Pool.destroy, Function.update_apply] at hk
  split at hk
  · cases hk
  · exact hk

theorem Tidy.take (h : Tidy p) : Tidy (p.take n) := by
  refine h.fewer rfl rfl (fun _ _ => id) fun n' e he => ?_
  simp only [Pool.take, Function.update_apply] at he
  split at he
  · cases he
  · exact he

theorem Tidy.erase (h : Tidy p) : Tidy (p.erase n) := by
  unfold Pool.erase
  split
  · exact h
  · exact h.take.destroy

end Tidy

namespace Kept

variable {s : SessionId} {x : Session} {phase : Phase} {c : ConnId} {k : Conn} {n : Name}

theorem alive (h : Kept p) {o : Name ⊕ SessionId} (ho : p.holds o = some c) :
    ∃ k, p.conns c = some k :=
  Option.isSome_iff_exists.mp ((h.custody.exact c).mpr ⟨o, ho⟩)

/-- The same connection in hand, or still none. -/
theorem rephase (h : Kept p) (hs : p.holds (.inr s) = phase.conn?) (hf : phase.Fresh)
    (hn : ∀ c k, phase.conn? = some c → p.conns c = some k → x.name = k.name)
    (hc : ∀ c k, phase = .closing c → p.conns c = some k → k.inTransaction = false) :
    Kept (p.setSession s x phase) := by
  refine ⟨h.toTidy.setSession hf hn hc, ?_⟩
  rw [holds_setSession, ← hs, Function.update_eq_self]
  exact h.custody

theorem name_eq (h : Kept p) (hs : p.sessions s = some x) (hc : x.phase.conn? = some c)
    (hk : p.conns c = some k) : x.name = k.name := by
  have := h.named (.inr s) c k ((holds_of_session hs).trans hc) hk
  simpa [Pool.nameOf, hs] using this

theorem stays (h : Kept p) (hs : p.sessions s = some x) (hp : phase.conn? = x.phase.conn?)
    (hf : phase.Fresh)
    (hc : ∀ c k, phase = .closing c → p.conns c = some k → k.inTransaction = false) :
    Kept (p.setSession s x phase) :=
  h.rephase ((holds_of_session hs).trans hp.symm) hf
    (fun _ _ hc hk => h.name_eq hs (hp ▸ hc) hk) hc

theorem setConn (h : Kept p) {k' : Conn} (hk : p.conns c = some k) (hname : k'.name = k.name)
    (hquiet : ∀ n, p.holds (.inl n) = some c → k'.inTransaction = false)
    (hclosed : ∀ s x, p.sessions s = some x → x.phase = .closing c → k'.inTransaction = false) :
    Kept (p.setConn c k') := by
  refine ⟨h.toTidy.setConn hk hname hquiet hclosed, ?_⟩
  refine h.custody.congr (fun o => by rw [holds_setConn]) fun c' => ?_
  by_cases hcc : c' = c
  · subst hcc
    simp [Pool.setConn, hk]
  · simp [Pool.setConn, Function.update_of_ne hcc]

/-- A session that has a connection in hand keeps the others away from it. -/
theorem mine (h : Kept p) (hs : p.sessions s = some x) (hc : x.phase.conn? = some c) :
    (∀ n, p.holds (.inl n) ≠ some c) ∧
      ∀ s' x', p.sessions s' = some x' → x'.phase.conn? = some c → s' = s := by
  have hself : p.holds (.inr s) = some c := by rw [holds_of_session hs, hc]
  refine ⟨fun n hn => ?_, fun s' x' hs' hc' => ?_⟩
  · exact absurd (h.custody.alone _ _ c hn hself) (by simp)
  · have := h.custody.alone (.inr s') (.inr s) c (by rw [holds_of_session hs', hc']) hself
    simpa using this

/-- A session may begin and end transactions on what it has in hand. -/
theorem inHand (h : Kept p) (hs : p.sessions s = some x) (hc : x.phase.conn? = some c)
    (hx : x.phase ≠ .closing c) (hk : p.conns c = some k) (begun : Bool) :
    Kept (p.setConn c { k with inTransaction := begun }) := by
  obtain ⟨hidle, hothers⟩ := h.mine hs hc
  refine h.setConn hk rfl (fun n hn => absurd hn (hidle n)) fun s' x' hs' hx' => ?_
  obtain rfl := hothers s' x' hs' (by rw [hx']; rfl)
  obtain rfl := Option.some.inj (hs.symm.trans hs')
  exact absurd hx' hx

/-- The session destroys what it has in hand. -/
theorem drop (h : Kept p) (hs : p.sessions s = some x) (hc : x.phase.conn? = some c)
    (hnone : phase.conn? = none) (hf : phase.Fresh) :
    Kept ((p.destroy c).setSession s x phase) := by
  constructor
  · refine h.toTidy.destroy.setSession hf (fun c k hk => ?_) fun c k hk => ?_
    · rw [hnone] at hk
      cases hk
    · rw [hk] at hnone
      cases hnone
  · refine (h.custody.drop ((holds_of_session hs).trans hc)).congr (fun o => ?_) fun c' => ?_
    · rw [holds_setSession, hnone, holds_destroy]
    · by_cases hcc : c' = c
      · subst hcc
        simp [Pool.destroy]
      · simp [Pool.destroy, hcc]

theorem erase (h : Kept p) : Kept (p.erase n) := by
  refine ⟨h.toTidy.erase, ?_⟩
  unfold Pool.erase
  split
  · exact h.custody
  · next e he =>
    have hn : p.holds (.inl n) = some e.conn := by simp [Pool.holds, he]
    refine (h.custody.drop hn).congr (fun o => ?_) fun c => ?_
    · rw [holds_destroy, holds_take]
    · by_cases hc : c = e.conn
      · subst hc
        simp [Pool.destroy]
      · simp [Pool.destroy, Pool.take, hc]

/-- `take` hands the connection over. -/
theorem take {e : Entry} (h : Kept p) (hs : p.sessions s = some x) (hx : x.phase.conn? = none)
    (he : p.idle x.name = some e) :
    Kept ((p.take x.name).setSession s x (.beginning 0 e.conn true)) := by
  have hidle : p.holds (.inl x.name) = some e.conn := by simp [Pool.holds, he]
  constructor
  · refine h.toTidy.take.setSession ⟨by omega, by omega⟩ (fun c k hc hk => ?_) fun c k hc => ?_
    · cases hc
      exact Option.some.inj (h.named (.inl x.name) e.conn k hidle hk)
    · cases hc
  · rw [holds_setSession, holds_take]
    exact h.custody.pass hidle ((holds_of_session hs).trans hx)

theorem next_unused (h : Kept p) {o : Name ⊕ SessionId} (ho : p.holds o = some c) :
    c ≠ p.next := by
  obtain ⟨k, hk⟩ := h.alive ho
  exact Nat.ne_of_lt (h.opened c (by rw [hk]; rfl))

theorem opening (h : Kept p) : Tidy (p.connect n) where
  opened := by
    intro c hc
    by_cases hcn : c = p.next
    · subst hcn
      exact Nat.lt_succ_self p.next
    · have := h.opened c (by simpa [Pool.connect, Function.update_of_ne hcn] using hc)
      exact Nat.lt_succ_of_lt this
  named := by
    intro o c k ho hk
    rw [holds_connect] at ho
    have hk : p.conns c = some k := by
      simpa [Pool.connect, Function.update_of_ne (h.next_unused ho)] using hk
    exact h.named o c k ho hk
  quiet := by
    intro n c k ho hk
    rw [holds_connect] at ho
    have hk : p.conns c = some k := by
      simpa [Pool.connect, Function.update_of_ne (h.next_unused ho)] using hk
    exact h.quiet n c k ho hk
  closed := by
    intro s x c k hs hx hk
    have ho : p.holds (.inr s) = some c := (holds_of_session hs).trans (by rw [hx]; rfl)
    have hk : p.conns c = some k := by
      simpa [Pool.connect, Function.update_of_ne (h.next_unused ho)] using hk
    exact h.closed s x c k hs hx hk
  fresh := h.fresh

/-- A new connection, for a session that has none. -/
theorem connect {attempt : Nat} (h : Kept p) (hs : p.sessions s = some x)
    (hx : x.phase.conn? = none) (ha : attempt ≤ 1) :
    Kept ((p.connect x.name).setSession s x (.beginning attempt p.next false)) := by
  constructor
  · refine h.opening.setSession ⟨ha, fun _ => rfl⟩ (fun c k hc hk => ?_) fun c k hc => ?_
    · cases hc
      have hk : ({ name := x.name } : Conn) = k := by simpa [Pool.connect] using hk
      rw [← hk]
    · cases hc
  · have hdead : ¬ (p.conns p.next).isSome := fun hn => absurd (h.opened p.next hn) (Nat.lt_irrefl _)
    refine (h.custody.create ((holds_of_session hs).trans hx) hdead).congr (fun o => ?_) fun c => ?_
    · rw [holds_setSession, holds_connect]
      rfl
    · by_cases hc : c = p.next
      · subst hc
        simp [Pool.connect]
      · simp [Pool.connect, hc]

/-- `release` hands the connection back, in place of the one that is idle under its name. -/
theorem release (h : Kept p) (hs : p.sessions s = some x) (hx : x.phase = .closing c) :
    Kept ((p.release x.name c).setSession s x .gone) := by
  have hq : Kept (p.erase x.name) := h.erase
  have hsq : (p.erase x.name).sessions s = some x := by rw [sessions_erase, hs]
  have hmine : (p.erase x.name).holds (.inr s) = some c := by rw [holds_of_session hsq, hx]; rfl
  have hheld : ∀ o c', ((p.erase x.name).put x.name c).holds o = some c' →
      (o = .inl x.name ∧ c' = c) ∨ (p.erase x.name).holds o = some c' := by
    intro o c' ho
    rw [holds_put, Function.update_apply] at ho
    split at ho
    · cases ho
      exact .inl ⟨‹_›, rfl⟩
    · exact .inr ho
  have hput : Tidy ((p.erase x.name).put x.name c) := by
    constructor
    · exact hq.opened
    · intro o c' k ho hk
      have hsame : ((p.erase x.name).put x.name c).nameOf o = (p.erase x.name).nameOf o := by
        cases o <;> rfl
      rw [hsame]
      rcases hheld o c' ho with ⟨rfl, rfl⟩ | ho
      · have := hq.named (.inr s) c' k hmine hk
        simpa [Pool.nameOf, hs] using this
      · exact hq.named o c' k ho hk
    · intro n c' k ho hk
      rcases hheld _ c' ho with ⟨-, rfl⟩ | ho
      · exact hq.closed s x c' k hsq hx hk
      · exact hq.quiet n c' k ho hk
    · exact hq.closed
    · exact hq.fresh
  constructor
  · exact hput.setSession trivial (fun c k hc => by cases hc) fun c k hc => by cases hc
  · have := hq.custody.pass hmine holds_erase_self
    rw [Function.update_comm (by simp)] at this
    refine this.congr (fun o => ?_) fun c' => Iff.rfl
    rw [holds_setSession]
    exact congrArg (Function.update · _ _ o) holds_put

end Kept

theorem Kept.moves {q : Pool} (h : Kept p) (hm : Moves ttl p q) : Kept q := by
  cases hm with
  | @construct s name pooled hs =>
    have hnone : p.holds (.inr s) = none := by simp [Pool.holds, hs]
    exact h.rephase hnone (Nat.zero_le 1) (fun c k hc => by cases hc) fun c k hc => by cases hc
  | take hs hx hp he => exact h.take hs (by rw [hx]; rfl) he
  | connect hs hx hm =>
    have hf := h.fresh _ _ hs
    rw [hx] at hf
    exact h.connect hs (by rw [hx]; rfl) hf
  | connectFails hs hx hm =>
    exact h.stays hs (by rw [hx]; rfl) trivial fun c k hc => by cases hc
  | begins hs hx hc ho =>
    have hset := h.inHand hs (by rw [hx]; rfl) (by rw [hx]; simp) hc true
    exact hset.stays hs (by rw [hx]; rfl) trivial fun c k hc => by cases hc
  | beginFails hs hx => exact h.drop hs (by rw [hx]; rfl) rfl (Nat.le_refl 1)
  | beginThrows hs hx ha =>
    have hf := h.fresh _ _ hs
    rw [hx] at hf
    exact h.drop hs (by rw [hx]; rfl) rfl (hf.2 ha)
  | setUp hs hx => exact h.stays hs (by rw [hx]; rfl) trivial fun c k hc => by cases hc
  | setUpFails hs hx => exact h.drop hs (by rw [hx]; rfl) rfl trivial
  | renew hs hx hc begun => exact h.inHand hs (by rw [hx]; rfl) (by rw [hx]; simp) hc begun
  | @close s x c k hs hx hc =>
    have hset : Kept (p.setConn c { k with inTransaction := false }) :=
      h.setConn hc rfl (fun _ _ => rfl) fun _ _ _ _ => rfl
    refine hset.stays hs (by rw [hx]; rfl) trivial fun c' k' hc' hk' => ?_
    cases hc'
    have hk' : { k with inTransaction := false } = k' := by simpa [Pool.setConn] using hk'
    rw [← hk']
  | release hs hx hp hc ho => exact h.release hs hx
  | discard hs hx hc ho => exact h.drop hs (by rw [hx]; rfl) rfl trivial
  | @lose c k hc =>
    exact h.setConn hc rfl (fun n hn => h.quiet n c k hn hc) fun s x hs hx =>
      h.closed s x c k hs hx hc
  | reap hs => exact h.erase
  | tick =>
    refine ⟨h.toTidy.fewer rfl rfl (fun _ _ => id) fun _ _ => id, ?_⟩
    exact h.custody.congr (fun o => by cases o <;> rfl) fun c => Iff.rfl

theorem Kept.empty : Kept {} := by
  have hnone : ∀ o, ({} : Pool).holds o = none := by
    intro o
    cases o <;> rfl
  constructor
  · constructor
    · intro c hc
      cases hc
    · intro o c k ho hk
      cases hk
    · intro n c k ho hk
      cases hk
    · intro s x c k hs
      cases hs
    · intro s x hs
      cases hs
  · constructor
    · intro o o' r ho
      rw [hnone] at ho
      cases ho
    · simp [hnone]

theorem Kept.runs {q : Pool} (h : Kept p) (hr : Runs ttl p q) : Kept q := by
  induction hr with
  | refl => exact h
  | tail _ hm ih => exact ih.moves hm

/-- Every connection has one owner, the cache or one session, over any run from the start. The
owner's connection is there and was opened under the owner's name; no transaction is open on what
the cache holds, so none is on what it hands over; and a session that throws because no transaction
begins throws about a connection of its own making. -/
theorem pool_kept {p : Pool} (hr : Runs ttl {} p) :
    (∀ c k, p.conns c = some k → ∃! o, p.holds o = some c) ∧
      (∀ o c, p.holds o = some c → ∃ k, p.conns c = some k ∧ p.nameOf o = some k.name) ∧
      (∀ n e k, p.idle n = some e → p.conns e.conn = some k → k.inTransaction = false) ∧
      ∀ s x cached, p.sessions s = some x → x.phase = .thrown (.beginning cached) →
        cached = false := by
  have h := Kept.empty.runs hr
  refine ⟨fun c k hk => ?_, fun o c ho => ?_, fun n e k he hk => ?_, fun s x cached hs hx => ?_⟩
  · exact h.custody.existsUnique (by rw [hk]; rfl)
  · obtain ⟨k, hk⟩ := h.alive ho
    exact ⟨k, hk, h.named o c k ho hk⟩
  · exact h.quiet n e.conn k (by simp [Pool.holds, he]) hk
  · have hf := h.fresh s x hs
    rw [hx] at hf
    exact hf

/-- A second session gets the connection that the first one gave back. -/
theorem pool_kept_reused :
    ∃ p, Runs 60 {} p ∧ p.sessions 1 = some ⟨"main", true, .beginning 0 0 true⟩ ∧
      ∃! o, p.holds o = some 0 := by
  have h1 := Relation.ReflTransGen.single (@Moves.construct 60 {} 0 "main" true rfl)
  have h2 := h1.tail (@Moves.connect 60 _ 0 ⟨"main", true, .taking 0⟩ 0 rfl rfl fun _ _ => rfl)
  have h3 := h2.tail
    (@Moves.begins 60 _ 0 ⟨"main", true, .beginning 0 0 false⟩ 0 0 false _ rfl rfl rfl rfl)
  have h4 := h3.tail (@Moves.setUp 60 _ 0 ⟨"main", true, .settingUp 0⟩ 0 rfl rfl)
  have h5 := h4.tail (@Moves.close 60 _ 0 ⟨"main", true, .reading 0⟩ 0 _ rfl rfl rfl)
  have h6 := h5.tail
    (@Moves.release 60 _ 0 ⟨"main", true, .closing 0⟩ 0 _ rfl rfl rfl rfl rfl)
  have h7 := h6.tail (@Moves.construct 60 _ 1 "main" true rfl)
  have h8 := h7.tail (@Moves.take 60 _ 1 ⟨"main", true, .taking 0⟩ ⟨0, 0⟩ rfl rfl rfl rfl)
  exact ⟨_, h8, rfl, (pool_kept h8).1 0 _ rfl⟩

end Sessions
end Laswell
