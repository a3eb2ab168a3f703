import Mathlib.Logic.Function.Basic
import Mathlib.Logic.Relation
import Laswell.Ledger.Calls

/-!
# Laswell.Ledger.Cluster

The processes that work on one database, as far as their jobs' rows and advisory locks go: each job
has a ledger with a session of its own, which takes the locks, inserts the row, and at the end
writes the row and unlocks; any session may go away at any moment, and its pid be given to another
one; and `reconcile_dead_jobs` reads rows, locks and sessions while all this goes on.

* `Cluster`: the server's sessions and rows, the ledgers of the jobs, and the sweeps under way.
* `Event`, `Happens`: what can happen, when, and what it leaves.
* `Steps`: any interleaving.

Each event is one moment of the server's clock. A statement that writes several rows is split
where another session can see between them: the locks are tried one by one, a row is written
when its transaction commits, and a sweep takes its snapshot, reads `pg_locks`, reads
`pg_stat_activity`, marks row by row and commits in events of their own.
-/

namespace Laswell
namespace Ledger

abbrev Pid := Nat
abbrev JobId := Nat

/-- A session of the server. `locks` are the session advisory locks it was granted; one taken twice
is there twice. -/
structure Backend where
  start : Nat
  role : String
  locks : List Int
  deriving DecidableEq

/-- A session as a client knows it. A pid may be given to another session later, with another
start. -/
@[ext] structure SessionId where
  pid : Pid
  start : Nat
  deriving DecidableEq

/-- What `laswell.job` says of a job, in the columns its liveness is read from. -/
structure JobRecord where
  backendPid : Pid
  lockKey : Int
  startedAt : Nat
  finishedAt : Option Nat
  state : Lifecycle
  deriving DecidableEq

/-- Where a job's ledger is: in `open_job`'s loop over the keys, about to commit the row it
inserts, open, about to commit the row `finish_job` writes, in `release_locks`' loop, or done with
its session. -/
inductive Phase where
  | locking (todo : List Int)
  | inserting (startedAt : Nat)
  | opened
  | finishing (state : Jobs.JobState) (finishedAt : Nat)
  | releasing (todo : List Int)
  | ended
  deriving DecidableEq

structure JobLedger where
  session : SessionId
  lockKeys : List Int
  phase : Phase
  deriving DecidableEq

/-- A `reconcile_dead_jobs` under way: the rows its statement sees, `pg_locks` and
`pg_stat_activity` as it read them, and the rows it has written and not committed. In `activity` a
session that is not there and one whose start the role may not read are both NULL. -/
structure Sweep where
  session : SessionId
  role : String
  snapshot : Option (JobId → Option JobRecord) := none
  locks : Option (Pid → List Int) := none
  activity : Option (Pid → Option Nat) := none
  marked : List JobId := []
  ended : Bool := false

structure Cluster where
  clock : Nat := 0
  backends : Pid → Option Backend := fun _ => none
  rows : JobId → Option JobRecord := fun _ => none
  jobs : JobId → Option JobLedger := fun _ => none
  sweeps : Nat → Option Sweep := fun _ => none

/-! ## What a session holds -/

/-- The session is there, and not another one under its pid. -/
def Cluster.live (c : Cluster) (s : SessionId) : Prop :=
  ∃ b, c.backends s.pid = some b ∧ b.start = s.start

def Cluster.holds (c : Cluster) (s : SessionId) (k : Int) : Prop :=
  ∃ b, c.backends s.pid = some b ∧ b.start = s.start ∧ k ∈ b.locks

/-- `pg_try_advisory_lock` by the session with this pid is granted. -/
def Cluster.free (c : Cluster) (pid : Pid) (k : Int) : Prop :=
  ∀ pid' b, pid' ≠ pid → c.backends pid' = some b → k ∉ b.locks

/-- The row is written by a sweep that has not committed. -/
def Cluster.sweeping (c : Cluster) (j : JobId) : Prop :=
  ∃ i s, c.sweeps i = some s ∧ s.ended = false ∧ c.live s.session ∧ j ∈ s.marked

/-- The row is written by a `finish_job` that has not committed. -/
def Cluster.finishing (c : Cluster) (j : JobId) : Prop :=
  ∃ l state t, c.jobs j = some l ∧ l.phase = .finishing state t ∧ c.live l.session

/-- `job_is_dead_sql`, of a row, with what was read of `pg_locks` and `pg_stat_activity`. -/
def jobIsDead (locks : Pid → List Int) (activity : Pid → Option Nat) (r : JobRecord) : Prop :=
  r.finishedAt = none ∧
    ¬ (r.lockKey ∈ locks r.backendPid ∧
      (activity r.backendPid = none ∨ ∃ t, activity r.backendPid = some t ∧ t ≤ r.startedAt))

/-! ## Events -/

inductive Event where
  | openLedger (j : JobId) (pid : Pid) (role : String) (lockKeys : List Int)
  | grant (j : JobId)
  | refuse (j : JobId)
  | beginInsert (j : JobId)
  | insert (j : JobId)
  | updateJob (j : JobId) (state : Jobs.JobState)
  | commitFinish (j : JobId)
  | finishRefused (j : JobId)
  | unlock (j : JobId)
  | unlockFails (j : JobId)
  | giveUp (j : JobId)
  | gone (pid : Pid)
  | restart
  | connectSweep (i : Nat) (pid : Pid) (role : String)
  | snapshot (i : Nat)
  | readLocks (i : Nat)
  | readActivity (i : Nat)
  | mark (i : Nat) (j : JobId)
  | commitSweep (i : Nat)
  | abortSweep (i : Nat)
  deriving DecidableEq

section Events

variable (sees : String → String → Bool)

def Cluster.setBackend (c : Cluster) (pid : Pid) (b : Option Backend) : Cluster :=
  { c with backends := Function.update c.backends pid b }

def Cluster.setJob (c : Cluster) (j : JobId) (l : JobLedger) : Cluster :=
  { c with jobs := Function.update c.jobs j (some l) }

def Cluster.setRow (c : Cluster) (j : JobId) (r : JobRecord) : Cluster :=
  { c with rows := Function.update c.rows j (some r) }

def Cluster.setSweep (c : Cluster) (i : Nat) (s : Sweep) : Cluster :=
  { c with sweeps := Function.update c.sweeps i (some s) }

/-- The locks of a session, where it is still there. -/
def Cluster.setLocks (c : Cluster) (s : SessionId) (f : List Int → List Int) : Cluster :=
  match c.backends s.pid with
  | some b =>
    if b.start = s.start then c.setBackend s.pid (some { b with locks := f b.locks }) else c
  | none => c

/-- The rows of `js` as a sweep writes them. -/
def Cluster.interrupt (c : Cluster) (js : List JobId) : Cluster :=
  { c with
    rows := fun j =>
      if j ∈ js then
        (c.rows j).map fun r => { r with state := .interrupted, finishedAt := some c.clock }
      else c.rows j }

/-- The row `open_job` inserts. -/
def JobLedger.row (l : JobLedger) (startedAt : Nat) : JobRecord :=
  { backendPid := l.session.pid, lockKey := l.lockKeys.headD 0, startedAt := startedAt,
    finishedAt := none, state := .of .running }

/-- What one statement of `c` leaves, before the clock goes on. `sees role role'`: a session of
`role` may read when one of `role'` started. -/
inductive Happens (c : Cluster) : Event → Cluster → Prop
  | openLedger {j pid role keys} (hj : c.jobs j = none) (hpid : c.backends pid = none) :
    Happens c (.openLedger j pid role keys)
      ((c.setBackend pid (some ⟨c.clock, role, []⟩)).setJob j ⟨⟨pid, c.clock⟩, keys, .locking keys⟩)
  | grant {j l k todo} (hj : c.jobs j = some l) (hlive : c.live l.session)
    (hl : l.phase = .locking (k :: todo)) (hfree : c.free l.session.pid k) :
    Happens c (.grant j)
      ((c.setLocks l.session (k :: ·)).setJob j { l with phase := .locking todo })
  | refuse {j l k todo} (hj : c.jobs j = some l) (hlive : c.live l.session)
    (hl : l.phase = .locking (k :: todo)) (hfree : ¬ c.free l.session.pid k) :
    Happens c (.refuse j) (c.setJob j { l with phase := .ended })
  | beginInsert {j l} (hj : c.jobs j = some l) (hlive : c.live l.session)
    (hl : l.phase = .locking []) :
    Happens c (.beginInsert j) (c.setJob j { l with phase := .inserting c.clock })
  | insert {j l t} (hj : c.jobs j = some l) (hlive : c.live l.session)
    (hl : l.phase = .inserting t) :
    Happens c (.insert j) ((c.setRow j (l.row t)).setJob j { l with phase := .opened })
  | updateJob {j l state} (hj : c.jobs j = some l) (hlive : c.live l.session)
    (hl : l.phase = .opened) (hfree : ¬ c.sweeping j) :
    Happens c (.updateJob j state) (c.setJob j { l with phase := .finishing state c.clock })
  | commitFinish {j l r state t} (hj : c.jobs j = some l) (hlive : c.live l.session)
    (hl : l.phase = .finishing state t) (hr : c.rows j = some r) :
    Happens c (.commitFinish j)
      ((c.setRow j { r with state := .of state, finishedAt := some t }).setJob j
        { l with phase := .releasing l.lockKeys })
  | finishRefused {j l} (hj : c.jobs j = some l) (hlive : c.live l.session)
    (hl : l.phase = .opened) :
    Happens c (.finishRefused j) (c.setJob j { l with phase := .releasing l.lockKeys })
  | unlock {j l k todo} (hj : c.jobs j = some l) (hlive : c.live l.session)
    (hl : l.phase = .releasing (k :: todo)) :
    Happens c (.unlock j)
      ((c.setLocks l.session (·.erase k)).setJob j { l with phase := .releasing todo })
  | unlockFails {j l k todo} (hj : c.jobs j = some l) (hl : l.phase = .releasing (k :: todo)) :
    Happens c (.unlockFails j) (c.setJob j { l with phase := .releasing todo })
  | giveUp {j l} (hj : c.jobs j = some l) :
    Happens c (.giveUp j) (c.setJob j { l with phase := .ended })
  | gone {pid} : Happens c (.gone pid) (c.setBackend pid none)
  | restart : Happens c .restart { c with backends := fun _ => none }
  | connectSweep {i pid role} (hi : c.sweeps i = none) (hpid : c.backends pid = none) :
    Happens c (.connectSweep i pid role)
      ((c.setBackend pid (some ⟨c.clock, role, []⟩)).setSweep i
        { session := ⟨pid, c.clock⟩, role := role })
  | snapshot {i s} (hi : c.sweeps i = some s) (hlive : c.live s.session) (he : s.ended = false)
    (hs : s.snapshot = none) :
    Happens c (.snapshot i) (c.setSweep i
      { session := s.session, role := s.role, snapshot := some c.rows })
  | readLocks {i s} (hi : c.sweeps i = some s) (hlive : c.live s.session) (he : s.ended = false)
    (hs : s.snapshot ≠ none) (hl : s.locks = none) :
    Happens c (.readLocks i) (c.setSweep i { s with
      locks := some fun pid => ((c.backends pid).map Backend.locks).getD [] })
  | readActivity {i s} (hi : c.sweeps i = some s) (hlive : c.live s.session)
    (he : s.ended = false) (hs : s.snapshot ≠ none) (ha : s.activity = none) :
    Happens c (.readActivity i) (c.setSweep i { s with
      activity := some fun pid => (c.backends pid).bind fun b =>
        if sees s.role b.role then some b.start else none })
  | mark {i s j snap locks activity r r'} (hi : c.sweeps i = some s) (hlive : c.live s.session)
    (he : s.ended = false) (hs : s.snapshot = some snap) (hl : s.locks = some locks)
    (ha : s.activity = some activity) (hr : snap j = some r) (hdead : jobIsDead locks activity r)
    (hr' : c.rows j = some r') (hopen : r'.finishedAt = none) (hfin : ¬ c.finishing j)
    (hfree : ¬ c.sweeping j) :
    Happens c (.mark i j) (c.setSweep i { s with marked := j :: s.marked })
  | commitSweep {i s snap locks activity} (hi : c.sweeps i = some s) (hlive : c.live s.session)
    (he : s.ended = false) (hs : s.snapshot = some snap) (hl : s.locks = some locks)
    (ha : s.activity = some activity)
    (hall : ∀ j r, snap j = some r → jobIsDead locks activity r →
      j ∈ s.marked ∨ ∃ r', c.rows j = some r' ∧ r'.finishedAt ≠ none) :
    Happens c (.commitSweep i) ((c.interrupt s.marked).setSweep i { s with ended := true })
  | abortSweep {i s} (hi : c.sweeps i = some s) (he : s.ended = false) :
    Happens c (.abortSweep i) (c.setSweep i { s with ended := true })

def Cluster.tick (c : Cluster) : Cluster := { c with clock := c.clock + 1 }

def Step (c : Cluster) (e : Event) (c' : Cluster) : Prop := ∃ c₁, Happens sees c e c₁ ∧ c' = c₁.tick

/-- Any number of events of any processes, in any order. -/
def Steps : Cluster → Cluster → Prop := Relation.ReflTransGen fun c c' => ∃ e, Step sees c e c'

def Reachable (c : Cluster) : Prop := Steps sees {} c

end Events

/-! ## What an event changes -/

section Changes

variable {sees : String → String → Bool} {c c' : Cluster} {e : Event} {s : SessionId} {k : Int}

theorem setLocks_eq {b : Backend} {f : List Int → List Int} (hb : c.backends s.pid = some b)
    (hs : b.start = s.start) :
    c.setLocks s f = c.setBackend s.pid (some { b with locks := f b.locks }) := by
  simp [Cluster.setLocks, hb, hs]

/-- The sessions after an event: as they were, one more with no locks, some fewer, or one with a
lock more or less. -/
inductive Happens.Backends (c : Cluster) (e : Event) (c' : Cluster) : Prop
  | same (h : c'.backends = c.backends)
  | fewer (h : ∀ pid, c'.backends pid = none ∨ c'.backends pid = c.backends pid)
  | more (pid : Pid) (role : String) (hpid : c.backends pid = none)
    (h : c'.backends = Function.update c.backends pid (some ⟨c.clock, role, []⟩))
  | granted (j : JobId) (l : JobLedger) (b : Backend) (k : Int) (todo : List Int)
    (he : e = .grant j) (hj : c.jobs j = some l) (hl : l.phase = .locking (k :: todo))
    (hfree : c.free l.session.pid k) (hb : c.backends l.session.pid = some b)
    (hstart : b.start = l.session.start)
    (h : c'.backends =
      Function.update c.backends l.session.pid (some { b with locks := k :: b.locks }))
  | unlocked (j : JobId) (l : JobLedger) (b : Backend) (k : Int) (todo : List Int)
    (hj : c.jobs j = some l) (hl : l.phase = .releasing (k :: todo))
    (hb : c.backends l.session.pid = some b) (hstart : b.start = l.session.start)
    (h : c'.backends =
      Function.update c.backends l.session.pid (some { b with locks := b.locks.erase k }))

theorem Happens.backends (h : Happens sees c e c') : Happens.Backends c e c' := by
  cases h with
  | openLedger hj hpid => exact .more _ _ hpid rfl
  | connectSweep hi hpid => exact .more _ _ hpid rfl
  | @grant j l k todo hj hlive hl hfree =>
    obtain ⟨b, hb, hs⟩ := hlive
    exact .granted j l b k todo rfl hj hl hfree hb hs (by rw [setLocks_eq hb hs]; rfl)
  | @unlock j l k todo hj hlive hl =>
    obtain ⟨b, hb, hs⟩ := hlive
    exact .unlocked j l b k todo hj hl hb hs (by rw [setLocks_eq hb hs]; rfl)
  | @gone pid =>
    refine .fewer fun pid' => ?_
    by_cases hp : pid' = pid
    · subst hp
      exact .inl (by simp [Cluster.setBackend])
    · exact .inr (by simp [Cluster.setBackend, hp])
  | restart => exact .fewer fun _ => .inl rfl
  | _ => exact .same rfl

/-- The event grants the next key of the loop in `open_job`, to the ledger with this session. -/
def Cluster.granting (c : Cluster) (e : Event) (s : SessionId) (k : Int) : Prop :=
  ∃ j l todo, e = .grant j ∧ c.jobs j = some l ∧ l.session = s ∧ l.phase = .locking (k :: todo) ∧
    c.free s.pid k

/-- The next key of the loop in `release_locks` of the ledger with this session. -/
def Cluster.releasing (c : Cluster) (s : SessionId) (k : Int) : Prop :=
  ∃ j l todo, c.jobs j = some l ∧ l.session = s ∧ l.phase = .releasing (k :: todo)

theorem Happens.backend_before (h : Happens sees c e c') {pid : Pid} {b' : Backend}
    (hb' : c'.backends pid = some b') :
    (∃ b, c.backends pid = some b ∧ b.start = b'.start ∧
      ∀ k ∈ b'.locks, k ∈ b.locks ∨ c.granting e ⟨pid, b.start⟩ k) ∨
    (c.backends pid = none ∧ b'.start = c.clock ∧ b'.locks = []) := by
  have hsame : c'.backends pid = c.backends pid → ∃ b, c.backends pid = some b ∧
      b.start = b'.start ∧ ∀ k ∈ b'.locks, k ∈ b.locks ∨ c.granting e ⟨pid, b.start⟩ k :=
    fun heq => ⟨b', by rw [← heq]; exact hb', rfl, fun _ hk => .inl hk⟩
  cases h.backends with
  | same h => exact .inl (hsame (by rw [h]))
  | fewer h =>
    rcases h pid with hn | hn
    · rw [hn] at hb'
      cases hb'
    · exact .inl (hsame hn)
  | more pid' role hpid h =>
    by_cases hp : pid = pid'
    · subst hp
      rw [h, Function.update_self, Option.some.injEq] at hb'
      subst hb'
      exact .inr ⟨hpid, rfl, rfl⟩
    · exact .inl (hsame (by rw [h, Function.update_of_ne hp]))
  | granted j l b k todo he hj hl hfree hb hbs h =>
    by_cases hp : pid = l.session.pid
    · subst hp
      rw [h, Function.update_self, Option.some.injEq] at hb'
      subst hb'
      refine .inl ⟨b, hb, rfl, fun k' hk' => ?_⟩
      rcases List.mem_cons.mp hk' with rfl | hk'
      · exact .inr ⟨j, l, todo, he, hj, by rw [hbs], hl, hfree⟩
      · exact .inl hk'
    · exact .inl (hsame (by rw [h, Function.update_of_ne hp]))
  | unlocked j l b k todo hj hl hb hbs h =>
    by_cases hp : pid = l.session.pid
    · subst hp
      rw [h, Function.update_self, Option.some.injEq] at hb'
      subst hb'
      exact .inl ⟨b, hb, rfl, fun k' hk' => .inl (List.mem_of_mem_erase hk')⟩
    · exact .inl (hsame (by rw [h, Function.update_of_ne hp]))

/-- A session that is there after an event was there before, unless it has just begun. -/
theorem Happens.live_before (h : Happens sees c e c') (hs : s.start < c.clock) (hl : c'.live s) :
    c.live s := by
  obtain ⟨b', hb', hstart⟩ := hl
  rcases h.backend_before hb' with ⟨b, hb, hbs, -⟩ | ⟨-, hnew, -⟩
  · exact ⟨b, hb, hbs.trans hstart⟩
  · omega

/-- A lock held after an event was held before, unless it was just granted. -/
theorem Happens.holds_before (h : Happens sees c e c') (hk : c'.holds s k) :
    c.holds s k ∨ c.granting e s k := by
  obtain ⟨b', hb', hstart, hmem⟩ := hk
  rcases h.backend_before hb' with ⟨b, hb, hbs, hlocks⟩ | ⟨-, -, hnone⟩
  · rcases hlocks k hmem with hk | hk
    · exact .inl ⟨b, hb, hbs.trans hstart, hk⟩
    · rw [hbs, hstart] at hk
      exact .inr hk
  · rw [hnone] at hmem
    cases hmem

/-- A lock is held as long as its session is there and its ledger does not unlock it. -/
theorem Happens.holds_after (h : Happens sees c e c') (hk : c.holds s k) (hl : c'.live s) :
    c'.holds s k ∨ c.releasing s k := by
  obtain ⟨b, hb, hstart, hmem⟩ := hk
  have hsame : c'.backends s.pid = c.backends s.pid → c'.holds s k :=
    fun heq => ⟨b, by rw [heq]; exact hb, hstart, hmem⟩
  cases h.backends with
  | same h => exact .inl (hsame (by rw [h]))
  | fewer h =>
    rcases h s.pid with hn | hn
    · obtain ⟨b', hb', -⟩ := hl
      rw [hn] at hb'
      cases hb'
    · exact .inl (hsame hn)
  | more pid role hpid h =>
    by_cases hp : s.pid = pid
    · rw [hp, hpid] at hb
      cases hb
    · exact .inl (hsame (by rw [h, Function.update_of_ne hp]))
  | granted j l b₁ k₁ todo he hj hl₁ hfree hb₁ hbs h =>
    by_cases hp : s.pid = l.session.pid
    · have hbb : b = b₁ := by
        rw [hp, hb₁] at hb
        exact (Option.some.inj hb).symm
      subst hbb
      refine .inl ⟨{ b with locks := k₁ :: b.locks }, ?_, hstart, List.mem_cons_of_mem _ hmem⟩
      rw [h, hp, Function.update_self]
    · exact .inl (hsame (by rw [h, Function.update_of_ne hp]))
  | unlocked j l b₁ k₁ todo hj hl₁ hb₁ hbs h =>
    by_cases hp : s.pid = l.session.pid
    · have hbb : b = b₁ := by
        rw [hp, hb₁] at hb
        exact (Option.some.inj hb).symm
      subst hbb
      by_cases hkk : k = k₁
      · subst hkk
        have hsession : l.session = s := SessionId.ext hp.symm (hbs.symm.trans hstart)
        exact .inr ⟨j, l, todo, hj, hsession, hl₁⟩
      · refine .inl ⟨{ b with locks := b.locks.erase k₁ }, ?_, hstart,
          (List.mem_erase_of_ne hkk).mpr hmem⟩
        rw [h, hp, Function.update_self]
    · exact .inl (hsame (by rw [h, Function.update_of_ne hp]))

/-- How a ledger gets on. -/
inductive Happens.Phases (c c' : Cluster) (l : JobLedger) : Phase → Prop
  | locked {k : Int} {todo : List Int} (hl : l.phase = .locking (k :: todo))
    (hk : c'.holds l.session k) : Phases c c' l (.locking todo)
  | inserting (hl : l.phase = .locking []) : Phases c c' l (.inserting c.clock)
  | opened {t : Nat} (hl : l.phase = .inserting t) : Phases c c' l .opened
  | finishing {state : Jobs.JobState} (hl : l.phase = .opened) :
    Phases c c' l (.finishing state c.clock)
  | releasing {todo : List Int} : Phases c c' l (.releasing todo)
  | ended : Phases c c' l .ended

theorem job_of_setJob {j j' : JobId} {l l' : JobLedger}
    (hl : (c.setJob j' l').jobs j = some l) : (j = j' ∧ l = l') ∨ c.jobs j = some l := by
  by_cases hj : j = j'
  · subst hj
    simp only [Cluster.setJob, Function.update_self, Option.some.injEq] at hl
    exact .inl ⟨rfl, hl.symm⟩
  · simp only [Cluster.setJob, Function.update_of_ne hj] at hl
    exact .inr hl

@[simp] theorem setLocks_jobs (f : List Int → List Int) : (c.setLocks s f).jobs = c.jobs := by
  unfold Cluster.setLocks
  split
  · split <;> rfl
  · rfl

@[simp] theorem setLocks_rows (f : List Int → List Int) : (c.setLocks s f).rows = c.rows := by
  unfold Cluster.setLocks
  split
  · split <;> rfl
  · rfl

@[simp] theorem setLocks_sweeps (f : List Int → List Int) :
    (c.setLocks s f).sweeps = c.sweeps := by
  unfold Cluster.setLocks
  split
  · split <;> rfl
  · rfl

@[simp] theorem setLocks_clock (f : List Int → List Int) : (c.setLocks s f).clock = c.clock := by
  unfold Cluster.setLocks
  split
  · split <;> rfl
  · rfl

theorem Happens.clock (h : Happens sees c e c') : c'.clock = c.clock := by
  cases h with
  | grant => exact setLocks_clock _
  | unlock => exact setLocks_clock _
  | _ => rfl

theorem Happens.job_before (h : Happens sees c e c') {j : JobId} {l' : JobLedger}
    (hl' : c'.jobs j = some l') :
    c.jobs j = some l' ∨
    (c.jobs j = none ∧ l'.session.start = c.clock ∧ l'.phase = .locking l'.lockKeys ∧
      ∃ pid role keys, e = .openLedger j pid role keys) ∨
    ∃ l p, c.jobs j = some l ∧ l' = { l with phase := p } ∧ Happens.Phases c c' l p := by
  -- what an event does to the one ledger it is about
  have hset : ∀ {c₁ : Cluster} {j' : JobId} {l : JobLedger} {p : Phase},
      (c₁.setJob j' { l with phase := p }).jobs j = some l' → c₁.jobs = c.jobs →
      c.jobs j' = some l → Happens.Phases c c' l p →
      c.jobs j = some l' ∨
      ∃ l p, c.jobs j = some l ∧ l' = { l with phase := p } ∧ Happens.Phases c c' l p := by
    intro c₁ j' l p hl' hc₁ hj hp
    rcases job_of_setJob hl' with ⟨rfl, rfl⟩ | hl'
    · exact .inr ⟨l, p, hj, rfl, hp⟩
    · exact .inl (by rw [← hc₁]; exact hl')
  cases h with
  | openLedger hj hpid =>
    rcases job_of_setJob hl' with ⟨rfl, rfl⟩ | hl'
    · exact .inr (.inl ⟨hj, rfl, rfl, _, _, _, rfl⟩)
    · exact .inl hl'
  | @grant _ l k todo hj hlive hl hfree =>
    refine (hset hl' (setLocks_jobs _) hj (.locked hl ?_)).imp_right .inr
    obtain ⟨b, hb, hbs⟩ := hlive
    refine ⟨{ b with locks := k :: b.locks }, ?_, hbs, List.mem_cons_self⟩
    simp [Cluster.setJob, setLocks_eq hb hbs, Cluster.setBackend]
  | unlock hj => exact (hset hl' (setLocks_jobs _) hj .releasing).imp_right .inr
  | refuse hj => exact (hset hl' rfl hj .ended).imp_right .inr
  | beginInsert hj hlive hl => exact (hset hl' rfl hj (.inserting hl)).imp_right .inr
  | insert hj hlive hl => exact (hset hl' rfl hj (.opened hl)).imp_right .inr
  | updateJob hj hlive hl => exact (hset hl' rfl hj (.finishing hl)).imp_right .inr
  | commitFinish hj => exact (hset hl' rfl hj .releasing).imp_right .inr
  | finishRefused hj => exact (hset hl' rfl hj .releasing).imp_right .inr
  | unlockFails hj => exact (hset hl' rfl hj .releasing).imp_right .inr
  | giveUp hj => exact (hset hl' rfl hj .ended).imp_right .inr
  | _ => exact .inl hl'

/-- A ledger once made is there for good, with its session and its keys. -/
theorem Happens.job_after (h : Happens sees c e c') {j : JobId} {l : JobLedger}
    (hl : c.jobs j = some l) :
    ∃ l', c'.jobs j = some l' ∧ l'.session = l.session ∧ l'.lockKeys = l.lockKeys := by
  have hset : ∀ (c₁ : Cluster) {j' : JobId} {l₁ : JobLedger} (p : Phase), c₁.jobs = c.jobs →
      c.jobs j' = some l₁ →
      ∃ l', (c₁.setJob j' { l₁ with phase := p }).jobs j = some l' ∧
        l'.session = l.session ∧ l'.lockKeys = l.lockKeys := by
    intro c₁ j' l₁ p hc₁ hl₁
    by_cases hj : j = j'
    · subst hj
      rw [hl] at hl₁
      cases hl₁
      exact ⟨{ l with phase := p }, by simp [Cluster.setJob], rfl, rfl⟩
    · exact ⟨l, by simp [Cluster.setJob, hj, hc₁, hl], rfl, rfl⟩
  cases h with
  | openLedger hj hpid =>
    refine ⟨l, ?_, rfl, rfl⟩
    have hne : j ≠ _ := fun heq => by rw [heq, hj] at hl; cases hl
    simp only [Cluster.setJob, Function.update_of_ne hne]
    exact hl
  | grant hj => exact hset _ _ (setLocks_jobs _) hj
  | unlock hj => exact hset _ _ (setLocks_jobs _) hj
  | refuse hj => exact hset _ _ rfl hj
  | beginInsert hj => exact hset _ _ rfl hj
  | insert hj => exact hset _ _ rfl hj
  | updateJob hj => exact hset _ _ rfl hj
  | commitFinish hj => exact hset _ _ rfl hj
  | finishRefused hj => exact hset _ _ rfl hj
  | unlockFails hj => exact hset _ _ rfl hj
  | giveUp hj => exact hset _ _ rfl hj
  | _ => exact ⟨l, hl, rfl, rfl⟩

/-- How a row changes. -/
inductive Happens.Written (c c' : Cluster) (j : JobId) : JobRecord → Prop
  | inserted {l : JobLedger} {t : Nat} (hl : c.jobs j = some l) (hlive : c.live l.session)
    (hp : l.phase = .inserting t) (hl' : c'.jobs j = some { l with phase := .opened }) :
    Written c c' j (l.row t)
  | finished {l : JobLedger} {r : JobRecord} {state : Jobs.JobState} {t : Nat}
    (hl : c.jobs j = some l) (hlive : c.live l.session) (hr : c.rows j = some r) :
    Written c c' j { r with state := .of state, finishedAt := some t }
  | interrupted {i : Nat} {s : Sweep} {r : JobRecord} (hs : c.sweeps i = some s)
    (hj : j ∈ s.marked) (hr : c.rows j = some r) :
    Written c c' j { r with state := .interrupted, finishedAt := some c.clock }

theorem row_of_setRow {j j' : JobId} {r r' : JobRecord}
    (hr : (c.setRow j' r').rows j = some r) : (j = j' ∧ r = r') ∨ c.rows j = some r := by
  by_cases hj : j = j'
  · subst hj
    simp only [Cluster.setRow, Function.update_self, Option.some.injEq] at hr
    exact .inl ⟨rfl, hr.symm⟩
  · simp only [Cluster.setRow, Function.update_of_ne hj] at hr
    exact .inr hr

theorem Happens.row_before (h : Happens sees c e c') {j : JobId} {r' : JobRecord}
    (hr' : c'.rows j = some r') : c.rows j = some r' ∨ Happens.Written c c' j r' := by
  cases h with
  | insert hj hlive hl =>
    rcases row_of_setRow hr' with ⟨rfl, rfl⟩ | hr'
    · exact .inr (.inserted hj hlive hl (by simp [Cluster.setJob]))
    · exact .inl hr'
  | commitFinish hj hlive hl hr =>
    rcases row_of_setRow hr' with ⟨rfl, rfl⟩ | hr'
    · exact .inr (.finished hj hlive hr)
    · exact .inl hr'
  | @commitSweep i s _ _ _ hi =>
    change (if j ∈ s.marked then (c.rows j).map _ else c.rows j) = some r' at hr'
    by_cases hj : j ∈ s.marked
    · rw [if_pos hj] at hr'
      obtain ⟨r, hr, rfl⟩ := Option.map_eq_some_iff.mp hr'
      exact .inr (.interrupted hi hj hr)
    · rw [if_neg hj] at hr'
      exact .inl hr'
  | grant => exact .inl (by rw [← setLocks_rows]; exact hr')
  | unlock => exact .inl (by rw [← setLocks_rows]; exact hr')
  | _ => exact .inl hr'

/-- A row once there stays, of the same session, key and start. Only its ending is written. -/
theorem Happens.row_after (h : Happens sees c e c') {j : JobId} {r : JobRecord}
    (hr : c.rows j = some r)
    (hnew : ∀ l t, c.jobs j = some l → l.phase ≠ .inserting t) :
    ∃ r', c'.rows j = some r' ∧
      (r' = r ∨ ∃ state t, r' = { r with state := state, finishedAt := some t }) := by
  cases h with
  | @insert j' l t hj hlive hl =>
    have hne : j ≠ j' := by
      rintro rfl
      exact hnew l t hj hl
    exact ⟨r, by simp [Cluster.setJob, Cluster.setRow, hne, hr], .inl rfl⟩
  | @commitFinish j' l r₁ state t hj hlive hl hr₁ =>
    by_cases hne : j = j'
    · subst hne
      rw [hr] at hr₁
      cases hr₁
      exact ⟨{ r with state := .of state, finishedAt := some t },
        by simp [Cluster.setJob, Cluster.setRow], .inr ⟨.of state, t, rfl⟩⟩
    · exact ⟨r, by simp [Cluster.setJob, Cluster.setRow, hne, hr], .inl rfl⟩
  | @commitSweep i s =>
    by_cases hj : j ∈ s.marked
    · exact ⟨{ r with state := .interrupted, finishedAt := some c.clock },
        by simp [Cluster.setSweep, Cluster.interrupt, hj, hr], .inr ⟨.interrupted, c.clock, rfl⟩⟩
    · exact ⟨r, by simp [Cluster.setSweep, Cluster.interrupt, hj, hr], .inl rfl⟩
  | grant => exact ⟨r, by simpa [Cluster.setJob] using hr, .inl rfl⟩
  | unlock => exact ⟨r, by simpa [Cluster.setJob] using hr, .inl rfl⟩
  | _ => exact ⟨r, hr, .inl rfl⟩

/-- How a sweep gets on. -/
inductive Happens.Swept (sees : String → String → Bool) (c : Cluster) (s : Sweep) : Sweep → Prop
  | snapshot (hs : s.snapshot = none) : Swept sees c s
      { session := s.session, role := s.role, snapshot := some c.rows }
  | locks (hs : s.snapshot ≠ none) (hl : s.locks = none) : Swept sees c s { s with
      locks := some fun pid => ((c.backends pid).map Backend.locks).getD [] }
  | activity (hs : s.snapshot ≠ none) (ha : s.activity = none) : Swept sees c s { s with
      activity := some fun pid => (c.backends pid).bind fun b =>
        if sees s.role b.role then some b.start else none }
  | marked {j : JobId} {snap : JobId → Option JobRecord} {locks : Pid → List Int}
    {activity : Pid → Option Nat} {r : JobRecord} (hs : s.snapshot = some snap)
    (hl : s.locks = some locks) (ha : s.activity = some activity) (hr : snap j = some r)
    (hdead : jobIsDead locks activity r) : Swept sees c s { s with marked := j :: s.marked }
  | ended : Swept sees c s { s with ended := true }

theorem sweep_of_setSweep {i i' : Nat} {w w' : Sweep}
    (hw : (c.setSweep i' w').sweeps i = some w) : (i = i' ∧ w = w') ∨ c.sweeps i = some w := by
  by_cases hi : i = i'
  · subst hi
    simp only [Cluster.setSweep, Function.update_self, Option.some.injEq] at hw
    exact .inl ⟨rfl, hw.symm⟩
  · simp only [Cluster.setSweep, Function.update_of_ne hi] at hw
    exact .inr hw

theorem Happens.sweep_before (h : Happens sees c e c') {i : Nat} {w' : Sweep}
    (hw' : c'.sweeps i = some w') :
    c.sweeps i = some w' ∨
    (c.sweeps i = none ∧ w'.snapshot = none ∧ w'.marked = []) ∨
    ∃ w, c.sweeps i = some w ∧ Happens.Swept sees c w w' := by
  cases h with
  | connectSweep hi hpid =>
    rcases sweep_of_setSweep hw' with ⟨rfl, rfl⟩ | hw'
    · exact .inr (.inl ⟨hi, rfl, rfl⟩)
    · exact .inl hw'
  | snapshot hi hlive he hs =>
    rcases sweep_of_setSweep hw' with ⟨rfl, rfl⟩ | hw'
    · exact .inr (.inr ⟨_, hi, .snapshot hs⟩)
    · exact .inl hw'
  | readLocks hi hlive he hs hl =>
    rcases sweep_of_setSweep hw' with ⟨rfl, rfl⟩ | hw'
    · exact .inr (.inr ⟨_, hi, .locks hs hl⟩)
    · exact .inl hw'
  | readActivity hi hlive he hs ha =>
    rcases sweep_of_setSweep hw' with ⟨rfl, rfl⟩ | hw'
    · exact .inr (.inr ⟨_, hi, .activity hs ha⟩)
    · exact .inl hw'
  | mark hi hlive he hs hl ha hr hdead =>
    rcases sweep_of_setSweep hw' with ⟨rfl, rfl⟩ | hw'
    · exact .inr (.inr ⟨_, hi, .marked hs hl ha hr hdead⟩)
    · exact .inl hw'
  | commitSweep hi =>
    rcases sweep_of_setSweep hw' with ⟨rfl, rfl⟩ | hw'
    · exact .inr (.inr ⟨_, hi, .ended⟩)
    · exact .inl hw'
  | abortSweep hi =>
    rcases sweep_of_setSweep hw' with ⟨rfl, rfl⟩ | hw'
    · exact .inr (.inr ⟨_, hi, .ended⟩)
    · exact .inl hw'
  | grant => exact .inl (by rw [← setLocks_sweeps]; exact hw')
  | unlock => exact .inl (by rw [← setLocks_sweeps]; exact hw')
  | _ => exact .inl hw'

/-- A sweep once begun is not forgotten. -/
theorem Happens.sweep_after (h : Happens sees c e c') {i : Nat} {w : Sweep}
    (hw : c.sweeps i = some w) : ∃ w', c'.sweeps i = some w' := by
  have hset : ∀ (c₁ : Cluster) (i' : Nat) (w₁ : Sweep), c₁.sweeps = c.sweeps →
      ∃ w', (c₁.setSweep i' w₁).sweeps i = some w' := by
    intro c₁ i' w₁ hc₁
    by_cases hi : i = i'
    · subst hi
      exact ⟨w₁, by simp [Cluster.setSweep]⟩
    · exact ⟨w, by simp [Cluster.setSweep, hi, hc₁, hw]⟩
  cases h with
  | connectSweep => exact hset _ _ _ rfl
  | snapshot => exact hset _ _ _ rfl
  | readLocks => exact hset _ _ _ rfl
  | readActivity => exact hset _ _ _ rfl
  | mark => exact hset _ _ _ rfl
  | commitSweep => exact hset _ _ _ rfl
  | abortSweep => exact hset _ _ _ rfl
  | grant => exact ⟨w, by simpa [Cluster.setJob] using hw⟩
  | unlock => exact ⟨w, by simpa [Cluster.setJob] using hw⟩
  | _ => exact ⟨w, hw⟩

end Changes

end Ledger
end Laswell
