import Laswell.Ledger.Cluster

/-!
# Laswell.Ledger.Reconcile

What holds of the jobs' locks and rows in every interleaving.

* `SessionInv`: a lock has one holder, and a ledger that has opened its job holds all its keys.
* `RowInv`: a row names the session that opened it, and any other session under its pid began
  later.
* `SweepInv`: what a sweep has read of a job whose session still holds its lock says so.
* `locks_exclusive_and_dead_jobs_marked`: a sweep marks every unfinished job whose session was gone
  when it began, where it can read when the session began that has its pid.
-/

namespace Laswell
namespace Ledger

variable {sees : String → String → Bool} {c c' c'' : Cluster} {e : Event}

/-! ## Sessions and locks -/

/-- The keys still to be locked, of a ledger that is not yet done with its locks. -/
def Phase.waiting : Phase → Option (List Int)
  | .locking todo => some todo
  | .inserting _ => some []
  | .opened => some []
  | .finishing _ _ => some []
  | .releasing _ => none
  | .ended => none

structure SessionInv (c : Cluster) : Prop where
  backendStart : ∀ pid b, c.backends pid = some b → b.start < c.clock
  jobStart : ∀ j l, c.jobs j = some l → l.session.start < c.clock
  ownSession : ∀ j j' l l', c.jobs j = some l → c.jobs j' = some l' → l.session = l'.session →
    j = j'
  exclusive : ∀ s s' k, c.holds s k → c.holds s' k → s = s'
  taken : ∀ j l todo, c.jobs j = some l → l.phase.waiting = some todo → c.live l.session →
    ∀ k ∈ l.lockKeys, k ∈ todo ∨ c.holds l.session k

theorem sessionInv_init : SessionInv {} where
  backendStart := by simp
  jobStart := by simp
  ownSession := by simp
  exclusive := by simp [Cluster.holds]
  taken := by simp

/-- Two sessions under one pid are one session. -/
theorem Cluster.live.eq {s s' : SessionId} (h : c.live s) (h' : c.live s') (hpid : s.pid = s'.pid) :
    s = s' := by
  obtain ⟨b, hb, hs⟩ := h
  obtain ⟨b', hb', hs'⟩ := h'
  rw [hpid, hb'] at hb
  cases hb
  exact SessionId.ext hpid (hs.symm.trans hs')

theorem Cluster.holds.live {s : SessionId} {k : Int} (h : c.holds s k) : c.live s := by
  obtain ⟨b, hb, hs, -⟩ := h
  exact ⟨b, hb, hs⟩

/-- A lock that is being granted has no other holder. -/
theorem Cluster.granting.only {s s' : SessionId} {k : Int} (hg : c.granting e s k)
    (hk : c.holds s' k) : s'.pid = s.pid := by
  obtain ⟨j, l, todo, -, -, rfl, -, hfree⟩ := hg
  obtain ⟨b, hb, -, hmem⟩ := hk
  by_contra hne
  exact hfree s'.pid b hne hb hmem

theorem SessionInv.step (hinv : SessionInv c) (h : Happens sees c e c') : SessionInv c'.tick where
  backendStart := by
    intro pid b' hb'
    change b'.start < c'.clock + 1
    rw [h.clock]
    rcases h.backend_before hb' with ⟨b, hb, hbs, -⟩ | ⟨-, hnew, -⟩
    · have := hinv.backendStart pid b hb
      omega
    · omega
  jobStart := by
    intro j l' hl'
    change l'.session.start < c'.clock + 1
    rw [h.clock]
    rcases h.job_before hl' with hl | ⟨-, hnew, -⟩ | ⟨l, p, hl, rfl, -⟩
    · have := hinv.jobStart j l' hl
      omega
    · omega
    · have := hinv.jobStart j l hl
      dsimp only
      omega
  ownSession := by
    -- a session that has just begun is of no ledger there was
    have hbefore : ∀ j l', c'.jobs j = some l' →
        (∃ l, c.jobs j = some l ∧ l.session = l'.session) ∨
        (l'.session.start = c.clock ∧ ∃ pid role keys, e = .openLedger j pid role keys) := by
      intro j l' hl'
      rcases h.job_before hl' with hl | ⟨-, hnew, -, he⟩ | ⟨l, p, hl, rfl, -⟩
      · exact .inl ⟨l', hl, rfl⟩
      · exact .inr ⟨hnew, he⟩
      · exact .inl ⟨l, hl, rfl⟩
    intro j₁ j₂ l₁' l₂' h₁' h₂' heq
    rcases hbefore j₁ l₁' h₁' with ⟨l₁, h₁, hs₁⟩ | ⟨hnew₁, _, _, _, he₁⟩
    · rcases hbefore j₂ l₂' h₂' with ⟨l₂, h₂, hs₂⟩ | ⟨hnew₂, -⟩
      · exact hinv.ownSession j₁ j₂ l₁ l₂ h₁ h₂ (by rw [hs₁, hs₂, heq])
      · have := hinv.jobStart j₁ l₁ h₁
        rw [hs₁, heq, hnew₂] at this
        omega
    · rcases hbefore j₂ l₂' h₂' with ⟨l₂, h₂, hs₂⟩ | ⟨-, _, _, _, he₂⟩
      · have := hinv.jobStart j₂ l₂ h₂
        rw [hs₂, ← heq, hnew₁] at this
        omega
      · rw [he₁] at he₂
        cases he₂
        rfl
  exclusive := by
    intro s s' k hk hk'
    suffices hpid : s.pid = s'.pid from Cluster.live.eq hk.live hk'.live hpid
    rcases h.holds_before hk with hold | hg
    · rcases h.holds_before hk' with hold' | hg'
      · rw [hinv.exclusive s s' k hold hold']
      · exact hg'.only hold
    · rcases h.holds_before hk' with hold' | hg'
      · exact (hg.only hold').symm
      · obtain ⟨j, l, todo, he, hj, rfl, -⟩ := hg
        obtain ⟨j', l', todo', he', hj', rfl, -⟩ := hg'
        rw [he] at he'
        cases he'
        rw [hj] at hj'
        cases hj'
        rfl
  taken := by
    -- the session of a ledger that still takes locks is of no ledger that unlocks
    have hkeep : ∀ j l todo, c.jobs j = some l → l.phase.waiting = some todo →
        c'.live l.session → ∀ k, c.holds l.session k → c'.holds l.session k := by
      intro j l todo hl hw hlive k hk
      rcases h.holds_after hk hlive with hk' | ⟨j', l', todo', hl', hs', hp'⟩
      · exact hk'
      · have hjj := hinv.ownSession j j' l l' hl hl' hs'.symm
        subst hjj
        rw [hl] at hl'
        cases hl'
        rw [hp'] at hw
        cases hw
    have hold : ∀ j l todo, c.jobs j = some l → l.phase.waiting = some todo → c'.live l.session →
        ∀ k ∈ l.lockKeys, k ∈ todo ∨ c'.holds l.session k := by
      intro j l todo hl hw hlive k hk
      have hbefore := h.live_before (hinv.jobStart j l hl) hlive
      exact (hinv.taken j l todo hl hw hbefore k hk).imp_right (hkeep j l todo hl hw hlive k)
    intro j l' todo' hl' hw' hlive' k hk
    rcases h.job_before hl' with hl | ⟨-, -, hp, -⟩ | ⟨l, p, hl, rfl, hp⟩
    · exact hold j l' todo' hl hw' hlive' k hk
    · rw [hp] at hw'
      cases hw'
      exact .inl hk
    · cases hp with
      | @locked k₁ todo hp hk₁ =>
        cases hw'
        rcases hold j l (k₁ :: todo') hl (by rw [hp]; rfl) hlive' k hk with hmem | hholds
        · rcases List.mem_cons.mp hmem with rfl | hmem
          · exact .inr hk₁
          · exact .inl hmem
        · exact .inr hholds
      | inserting hp => exact hold j l todo' hl (by rw [hp]; exact hw') hlive' k hk
      | opened hp => exact hold j l todo' hl (by rw [hp]; exact hw') hlive' k hk
      | finishing hp => exact hold j l todo' hl (by rw [hp]; exact hw') hlive' k hk
      | releasing => cases hw'
      | ended => cases hw'

/-- A ledger that has opened its job and not ended it holds every key it was given. -/
theorem SessionInv.holds_all {j : JobId} {l : JobLedger} (h : SessionInv c) (hl : c.jobs j = some l)
    (hw : l.phase.waiting = some []) (hlive : c.live l.session) :
    ∀ k ∈ l.lockKeys, c.holds l.session k := by
  intro k hk
  rcases h.taken j l [] hl hw hlive k hk with hmem | hk
  · cases hmem
  · exact hk

/-! ## Rows -/

/-- The row of the job is not there yet. -/
def Phase.unopened : Phase → Bool
  | .locking _ => true
  | .inserting _ => true
  | _ => false

structure RowInv (c : Cluster) : Prop where
  unopened : ∀ j l, c.jobs j = some l → l.phase.unopened = true → c.rows j = none
  insertedAt : ∀ j l t, c.jobs j = some l → l.phase = .inserting t →
    l.session.start < t ∧ t < c.clock
  job : ∀ j r, c.rows j = some r → ∃ l, c.jobs j = some l ∧ r.backendPid = l.session.pid ∧
    l.session.start < r.startedAt ∧ r.startedAt < c.clock
  reused : ∀ j r l b, c.rows j = some r → c.jobs j = some l → c.backends r.backendPid = some b →
    b.start = l.session.start ∨ r.startedAt < b.start

theorem rowInv_init : RowInv {} where
  unopened := by simp
  insertedAt := by simp
  job := by simp
  reused := by simp

theorem RowInv.not_inserting {j : JobId} {r : JobRecord} (hinv : RowInv c) (hr : c.rows j = some r) :
    ∀ l t, c.jobs j = some l → l.phase ≠ .inserting t := by
  intro l t hl hp
  have hnone := hinv.unopened j l hl (by rw [hp]; rfl)
  rw [hr] at hnone
  cases hnone

/-- What is written keeps the session, the key and the start of the row. -/
theorem Happens.Written.same {j : JobId} {r' : JobRecord} (h : Happens.Written c c' j r') :
    (∃ r, c.rows j = some r ∧ r'.backendPid = r.backendPid ∧ r'.lockKey = r.lockKey ∧
      r'.startedAt = r.startedAt) ∨
    ∃ l t, c.jobs j = some l ∧ c.live l.session ∧ l.phase = .inserting t ∧
      c'.jobs j = some { l with phase := .opened } ∧ r' = l.row t := by
  cases h with
  | inserted hl hlive hp hl' => exact .inr ⟨_, _, hl, hlive, hp, hl', rfl⟩
  | finished hl hlive hr => exact .inl ⟨_, hr, rfl, rfl, rfl⟩
  | interrupted hs hj hr => exact .inl ⟨_, hr, rfl, rfl, rfl⟩

theorem Happens.row_same (h : Happens sees c e c') {j : JobId} {r' : JobRecord}
    (hr' : c'.rows j = some r') :
    (∃ r, c.rows j = some r ∧ r'.backendPid = r.backendPid ∧ r'.lockKey = r.lockKey ∧
      r'.startedAt = r.startedAt) ∨
    ∃ l t, c.jobs j = some l ∧ c.live l.session ∧ l.phase = .inserting t ∧
      c'.jobs j = some { l with phase := .opened } ∧ r' = l.row t := by
  rcases h.row_before hr' with hr | hw
  · exact .inl ⟨r', hr, rfl, rfl, rfl⟩
  · exact hw.same

/-- The session of a job is the same after an event. -/
theorem Happens.session_same (h : Happens sees c e c') {j : JobId} {l l' : JobLedger}
    (hl : c.jobs j = some l) (hl' : c'.jobs j = some l') : l'.session = l.session := by
  obtain ⟨l₁, hl₁, hs, -⟩ := h.job_after hl
  rw [hl'] at hl₁
  cases hl₁
  exact hs

theorem RowInv.step (hinv : RowInv c) (hsess : SessionInv c) (h : Happens sees c e c') :
    RowInv c'.tick where
  unopened := by
    intro j l' hl' hp'
    change c'.rows j = none
    have hnone : c.rows j = none := by
      rcases h.job_before hl' with hl | ⟨hnew, -, -⟩ | ⟨l, p, hl, rfl, hp⟩
      · exact hinv.unopened j l' hl hp'
      · by_contra hsome
        obtain ⟨r, hr⟩ := Option.ne_none_iff_exists'.mp hsome
        obtain ⟨l, hl, -⟩ := hinv.job j r hr
        rw [hnew] at hl
        cases hl
      · cases hp with
        | locked hp => exact hinv.unopened j l hl (by rw [hp]; rfl)
        | inserting hp => exact hinv.unopened j l hl (by rw [hp]; rfl)
        | opened => cases hp'
        | finishing => cases hp'
        | releasing => cases hp'
        | ended => cases hp'
    by_contra hsome
    obtain ⟨r', hr'⟩ := Option.ne_none_iff_exists'.mp hsome
    rcases h.row_same hr' with ⟨r, hr, -⟩ | ⟨l, t, -, -, -, hopened, -⟩
    · rw [hnone] at hr
      cases hr
    · have heq := Option.some.inj (hl'.symm.trans hopened)
      rw [heq] at hp'
      cases hp'
  insertedAt := by
    intro j l' t hl' hp'
    change l'.session.start < t ∧ t < c'.clock + 1
    rw [h.clock]
    rcases h.job_before hl' with hl | ⟨-, -, hp, -⟩ | ⟨l, p, hl, rfl, hp⟩
    · have := hinv.insertedAt j l' t hl hp'
      omega
    · rw [hp] at hp'
      cases hp'
    · cases hp with
      | inserting hp =>
        cases hp'
        have := hsess.jobStart j l hl
        exact ⟨this, by omega⟩
      | _ => cases hp'
  job := by
    intro j r' hr'
    change ∃ l, c'.jobs j = some l ∧ r'.backendPid = l.session.pid ∧
      l.session.start < r'.startedAt ∧ r'.startedAt < c'.clock + 1
    rw [h.clock]
    rcases h.row_same hr' with ⟨r, hr, hpid, -, hstart⟩ | ⟨l, t, hl, -, hp, -, rfl⟩
    · obtain ⟨l, hl, hlpid, hls, hlt⟩ := hinv.job j r hr
      obtain ⟨l', hl', hs, -⟩ := h.job_after hl
      refine ⟨l', hl', by rw [hpid, hlpid, hs], by rw [hs, hstart]; exact hls, by omega⟩
    · obtain ⟨l', hl', hs, -⟩ := h.job_after hl
      have := hinv.insertedAt j l t hl hp
      refine ⟨l', hl', by rw [hs]; rfl, by rw [hs]; exact this.1, ?_⟩
      change t < c.clock + 1
      omega
  reused := by
    intro j r' l' b' hr' hl' hb'
    change c'.backends r'.backendPid = some b' at hb'
    rcases h.row_same hr' with ⟨r, hr, hpid, -, hstart⟩ | ⟨l, t, hl, hlive, hp, -, rfl⟩
    · obtain ⟨l, hl, hlpid, hls, hlt⟩ := hinv.job j r hr
      rw [h.session_same hl hl', hstart]
      rcases h.backend_before hb' with ⟨b, hb, hbs, -⟩ | ⟨-, hnew, -⟩
      · rw [← hbs]
        exact hinv.reused j r l b hr hl (by rw [← hpid]; exact hb)
      · exact .inr (by omega)
    · rw [h.session_same hl hl']
      obtain ⟨b₀, hb₀, hs₀⟩ := hlive
      rcases h.backend_before hb' with ⟨b, hb, hbs, -⟩ | ⟨hnone, -⟩
      · have hbb : b = b₀ := Option.some.inj (hb.symm.trans hb₀)
        exact .inl (by rw [← hbs, hbb, hs₀])
      · have := hnone.symm.trans hb₀
        cases this

/-! ## Sweeps -/

/-- A sweep has read what it saw of the jobs in its snapshot. `locks` and `activity`: where the
job's own session still holds the lock, or is still there, the sweep has read that it does, or is
(or could not read it). -/
structure SweepInv (c : Cluster) : Prop where
  snapshot : ∀ i w snap j r, c.sweeps i = some w → w.snapshot = some snap → snap j = some r →
    ∃ r', c.rows j = some r' ∧ r'.backendPid = r.backendPid ∧ r'.lockKey = r.lockKey ∧
      r'.startedAt = r.startedAt
  locks : ∀ i w snap locks j r l, c.sweeps i = some w → w.snapshot = some snap →
    w.locks = some locks → snap j = some r → c.jobs j = some l → c.holds l.session r.lockKey →
    r.lockKey ∈ locks r.backendPid
  activity : ∀ i w snap activity j r l, c.sweeps i = some w → w.snapshot = some snap →
    w.activity = some activity → snap j = some r → c.jobs j = some l → c.live l.session →
    activity r.backendPid = none ∨ activity r.backendPid = some l.session.start
  marked : ∀ i w j, c.sweeps i = some w → j ∈ w.marked →
    ∃ r l, c.rows j = some r ∧ c.jobs j = some l ∧ ¬ c.holds l.session r.lockKey
  interrupted : ∀ j r l, c.rows j = some r → r.state = .interrupted → c.jobs j = some l →
    ¬ c.holds l.session r.lockKey

theorem sweepInv_init : SweepInv {} where
  snapshot := by simp
  locks := by simp
  activity := by simp
  marked := by simp
  interrupted := by simp

/-- A job that has its row takes no more locks. -/
theorem Happens.held_before (h : Happens sees c e c') (hsess : SessionInv c) (hrow : RowInv c)
    {j : JobId} {r : JobRecord} {l : JobLedger} (hr : c.rows j = some r) (hl : c.jobs j = some l)
    {k : Int} (hk : c'.holds l.session k) : c.holds l.session k := by
  rcases h.holds_before hk with hk | ⟨j', l', todo, -, hl', hs, hp, -⟩
  · exact hk
  · have hjj := hsess.ownSession j' j l' l hl' hl hs
    subst hjj
    have hnone := hrow.unopened j' l' hl' (by rw [hp]; rfl)
    rw [hr] at hnone
    cases hnone

/-- Only the ending of a row is written. -/
theorem Happens.row_kept (h : Happens sees c e c') (hrow : RowInv c) {j : JobId} {r : JobRecord}
    (hr : c.rows j = some r) : ∃ r', c'.rows j = some r' ∧ r'.backendPid = r.backendPid ∧
      r'.lockKey = r.lockKey ∧ r'.startedAt = r.startedAt := by
  obtain ⟨r', hr', rfl | ⟨state, t, rfl⟩⟩ := h.row_after hr (hrow.not_inserting hr)
  · exact ⟨r', hr', rfl, rfl, rfl⟩
  · exact ⟨_, hr', rfl, rfl, rfl⟩

/-- A job whose lock is not held does not come to hold it. -/
theorem Happens.stays_unheld (h : Happens sees c e c') (hsess : SessionInv c) (hrow : RowInv c)
    {j : JobId} {r : JobRecord} {l : JobLedger} (hr : c.rows j = some r) (hl : c.jobs j = some l)
    (hk : ¬ c.holds l.session r.lockKey) :
    ∃ r' l', c'.rows j = some r' ∧ c'.jobs j = some l' ∧ ¬ c'.holds l'.session r'.lockKey := by
  obtain ⟨r', hr', -, hkey, -⟩ := h.row_kept hrow hr
  obtain ⟨l', hl', hs, -⟩ := h.job_after hl
  refine ⟨r', l', hr', hl', fun hk' => hk ?_⟩
  rw [hs, hkey] at hk'
  exact h.held_before hsess hrow hr hl hk'

theorem SweepInv.dead_not_held {i : Nat} {w : Sweep} {snap : JobId → Option JobRecord}
    {locks : Pid → List Int} {activity : Pid → Option Nat} {j : JobId} {r : JobRecord}
    {l : JobLedger} (hinv : SweepInv c) (hrow : RowInv c) (hw : c.sweeps i = some w)
    (hs : w.snapshot = some snap) (hlocks : w.locks = some locks)
    (hact : w.activity = some activity) (hr : snap j = some r) (hl : c.jobs j = some l)
    (hdead : jobIsDead locks activity r) : ¬ c.holds l.session r.lockKey := by
  intro hk
  have hmem := hinv.locks i w snap locks j r l hw hs hlocks hr hl hk
  refine hdead.2 ⟨hmem, ?_⟩
  rcases hinv.activity i w snap activity j r l hw hs hact hr hl hk.live with hnone | hsome
  · exact .inl hnone
  · obtain ⟨r', hr', -, -, hstart⟩ := hinv.snapshot i w snap j r hw hs hr
    obtain ⟨l', hl', -, hbefore, -⟩ := hrow.job j r' hr'
    rw [hl] at hl'
    cases hl'
    exact .inr ⟨l.session.start, hsome, by omega⟩

theorem SweepInv.step (hinv : SweepInv c) (hsess : SessionInv c) (hrow : RowInv c)
    (h : Happens sees c e c') : SweepInv c'.tick where
  snapshot := by
    intro i w' snap j r hw' hsnap hr
    -- whatever the sweep sees, there is a row of it before the event
    have hbefore : ∃ r₁, c.rows j = some r₁ ∧ r₁.backendPid = r.backendPid ∧
        r₁.lockKey = r.lockKey ∧ r₁.startedAt = r.startedAt := by
      rcases h.sweep_before hw' with hw | ⟨-, hnone, -⟩ | ⟨w, hw, hswept⟩
      · exact hinv.snapshot i w' snap j r hw hsnap hr
      · rw [hnone] at hsnap
        cases hsnap
      · cases hswept with
        | snapshot =>
          cases hsnap
          exact ⟨r, hr, rfl, rfl, rfl⟩
        | _ => exact hinv.snapshot i w snap j r hw hsnap hr
    obtain ⟨r₁, hr₁, hpid, hkey, hstart⟩ := hbefore
    obtain ⟨r', hr', hpid', hkey', hstart'⟩ := h.row_kept hrow hr₁
    exact ⟨r', hr', hpid'.trans hpid, hkey'.trans hkey, hstart'.trans hstart⟩
  locks := by
    intro i w' snap locks j r l' hw' hsnap hlocks hr hl' hk'
    have hheld : ∀ w, c.sweeps i = some w → w.snapshot = some snap →
        ∃ l, c.jobs j = some l ∧ c.holds l.session r.lockKey ∧ r.backendPid = l.session.pid := by
      intro w hw hsnap
      obtain ⟨r₁, hr₁, hpid, -⟩ := hinv.snapshot i w snap j r hw hsnap hr
      obtain ⟨l, hl, hlpid, -⟩ := hrow.job j r₁ hr₁
      rw [h.session_same hl hl'] at hk'
      exact ⟨l, hl, h.held_before hsess hrow hr₁ hl hk', hpid.symm.trans hlpid⟩
    have hsame : ∀ w, c.sweeps i = some w → w.snapshot = some snap → w.locks = some locks →
        r.lockKey ∈ locks r.backendPid := by
      intro w hw hsnap hlocks
      obtain ⟨l, hl, hk, -⟩ := hheld w hw hsnap
      exact hinv.locks i w snap locks j r l hw hsnap hlocks hr hl hk
    rcases h.sweep_before hw' with hw | ⟨-, hnone, -⟩ | ⟨w, hw, hswept⟩
    · exact hsame w' hw hsnap hlocks
    · rw [hnone] at hsnap
      cases hsnap
    · cases hswept with
      | snapshot => cases hlocks
      | locks =>
        cases hlocks
        obtain ⟨l, -, ⟨b, hb, -, hmem⟩, hpid⟩ := hheld w hw hsnap
        rw [← hpid] at hb
        simpa [hb] using hmem
      | _ => exact hsame w hw hsnap hlocks
  activity := by
    intro i w' snap activity j r l' hw' hsnap hact hr hl' hlive'
    have hthere : ∀ w, c.sweeps i = some w → w.snapshot = some snap →
        ∃ l, c.jobs j = some l ∧ l'.session = l.session ∧ c.live l.session ∧
          r.backendPid = l.session.pid := by
      intro w hw hsnap
      obtain ⟨r₁, hr₁, hpid, -⟩ := hinv.snapshot i w snap j r hw hsnap hr
      obtain ⟨l, hl, hlpid, -⟩ := hrow.job j r₁ hr₁
      have hs := h.session_same hl hl'
      rw [hs] at hlive'
      exact ⟨l, hl, hs, h.live_before (hsess.jobStart j l hl) hlive', hpid.symm.trans hlpid⟩
    have hsame : ∀ w, c.sweeps i = some w → w.snapshot = some snap →
        w.activity = some activity →
        activity r.backendPid = none ∨ activity r.backendPid = some l'.session.start := by
      intro w hw hsnap hact
      obtain ⟨l, hl, hs, hlive, -⟩ := hthere w hw hsnap
      rw [hs]
      exact hinv.activity i w snap activity j r l hw hsnap hact hr hl hlive
    rcases h.sweep_before hw' with hw | ⟨-, hnone, -⟩ | ⟨w, hw, hswept⟩
    · exact hsame w' hw hsnap hact
    · rw [hnone] at hsnap
      cases hsnap
    · cases hswept with
      | snapshot => cases hact
      | activity =>
        cases hact
        obtain ⟨l, -, hs, ⟨b, hb, hbs⟩, hpid⟩ := hthere w hw hsnap
        rw [← hpid] at hb
        by_cases hsees : sees w.role b.role = true
        · exact .inr (by simp [hb, hsees, hbs, hs])
        · exact .inl (by simp [hb, hsees])
      | _ => exact hsame w hw hsnap hact
  marked := by
    intro i w' j hw' hj
    have hbefore : ∃ r l, c.rows j = some r ∧ c.jobs j = some l ∧
        ¬ c.holds l.session r.lockKey := by
      rcases h.sweep_before hw' with hw | ⟨-, -, hnone⟩ | ⟨w, hw, hswept⟩
      · exact hinv.marked i w' j hw hj
      · rw [hnone] at hj
        cases hj
      · cases hswept with
        | snapshot => cases hj
        | locks => exact hinv.marked i w j hw hj
        | activity => exact hinv.marked i w j hw hj
        | ended => exact hinv.marked i w j hw hj
        | marked hsnap hlocks hact hr hdead =>
          rcases List.mem_cons.mp hj with rfl | hj
          · obtain ⟨r₁, hr₁, -, hkey, -⟩ := hinv.snapshot i w _ j _ hw hsnap hr
            obtain ⟨l, hl, -⟩ := hrow.job j r₁ hr₁
            refine ⟨r₁, l, hr₁, hl, ?_⟩
            rw [hkey]
            exact hinv.dead_not_held hrow hw hsnap hlocks hact hr hl hdead
          · exact hinv.marked i w j hw hj
    obtain ⟨r, l, hr, hl, hk⟩ := hbefore
    exact h.stays_unheld hsess hrow hr hl hk
  interrupted := by
    intro j r' l' hr' hstate hl'
    have hbefore : ∃ r l, c.rows j = some r ∧ c.jobs j = some l ∧
        ¬ c.holds l.session r.lockKey := by
      rcases h.row_before hr' with hr | hw
      · obtain ⟨l, hl, -⟩ := hrow.job j r' hr
        exact ⟨r', l, hr, hl, hinv.interrupted j r' l hr hstate hl⟩
      · cases hw with
        | inserted => cases hstate
        | finished => cases hstate
        | interrupted hs hj => exact hinv.marked _ _ j hs hj
    obtain ⟨r, l, hr, hl, hk⟩ := hbefore
    obtain ⟨r₁, l₁, hr₁, hl₁, hk₁⟩ := h.stays_unheld hsess hrow hr hl hk
    have hrr : r' = r₁ := Option.some.inj (hr'.symm.trans hr₁)
    have hll : l' = l₁ := Option.some.inj (hl'.symm.trans hl₁)
    rw [hrr, hll]
    exact hk₁

/-! ## Every interleaving -/

structure ClusterInv (c : Cluster) : Prop where
  sessions : SessionInv c
  rows : RowInv c
  sweeps : SweepInv c

theorem ClusterInv.step (hinv : ClusterInv c) (h : Step sees c e c') : ClusterInv c' := by
  obtain ⟨c₁, h, rfl⟩ := h
  exact ⟨hinv.sessions.step h, hinv.rows.step hinv.sessions h,
    hinv.sweeps.step hinv.sessions hinv.rows h⟩

theorem ClusterInv.steps (hinv : ClusterInv c) (h : Steps sees c c') : ClusterInv c' := by
  induction h with
  | refl => exact hinv
  | tail _ hstep ih =>
    obtain ⟨e, hstep⟩ := hstep
    exact ih.step hstep

theorem Reachable.inv (h : Reachable sees c) : ClusterInv c :=
  ClusterInv.steps ⟨sessionInv_init, rowInv_init, sweepInv_init⟩ h

/-- A job that a sweep under way sees unfinished, and whose session was gone when the sweep took
its snapshot. -/
structure Doomed (i : Nat) (j : JobId) (r : JobRecord) (l : JobLedger) (c : Cluster) : Prop where
  gone : ¬ c.live l.session
  job : ∃ l', c.jobs j = some l' ∧ l'.session = l.session
  row : ∃ r', c.rows j = some r' ∧ r'.backendPid = r.backendPid ∧ r'.startedAt = r.startedAt ∧
    (r'.finishedAt = none ∨ r'.state = .interrupted)
  sweep : ∃ w snap, c.sweeps i = some w ∧ w.snapshot = some snap ∧ snap j = some r ∧
    ∀ activity, w.activity = some activity → ∀ t, activity r.backendPid = some t → r.startedAt < t

/-- Whatever session has the pid now, it began after the job. -/
theorem Doomed.later {i : Nat} {j : JobId} {r : JobRecord} {l : JobLedger} {b : Backend}
    (h : Doomed i j r l c) (hinv : ClusterInv c) (hb : c.backends r.backendPid = some b) :
    r.startedAt < b.start := by
  obtain ⟨l', hl', hs⟩ := h.job
  obtain ⟨r', hr', hpid, hstart, -⟩ := h.row
  obtain ⟨l₁, hl₁, hpid₁, -⟩ := hinv.rows.job j r' hr'
  have hll : l₁ = l' := Option.some.inj (hl₁.symm.trans hl')
  rcases hinv.rows.reused j r' l' b hr' hl' (by rw [hpid]; exact hb) with hsame | hlater
  · refine absurd ⟨b, ?_, hsame.trans (by rw [hs])⟩ h.gone
    rw [← hs, ← hll, ← hpid₁, hpid]
    exact hb
  · omega

theorem Doomed.step {i : Nat} {j : JobId} {r : JobRecord} {l : JobLedger} (h : Doomed i j r l c)
    (hinv : ClusterInv c) (hstep : Step sees c e c') : Doomed i j r l c' := by
  obtain ⟨c₁, hap, rfl⟩ := hstep
  obtain ⟨l₀, hl₀, hs₀⟩ := h.job
  have hgone : ¬ c₁.live l.session := by
    intro hlive
    refine h.gone (hap.live_before ?_ hlive)
    rw [← hs₀]
    exact hinv.sessions.jobStart j l₀ hl₀
  refine ⟨hgone, ?_, ?_, ?_⟩
  · obtain ⟨l', hl', hs, -⟩ := hap.job_after hl₀
    exact ⟨l', hl', hs.trans hs₀⟩
  · obtain ⟨r₀, hr₀, hpid, hstart, hend⟩ := h.row
    obtain ⟨r', hr', -⟩ := hap.row_kept hinv.rows hr₀
    refine ⟨r', hr', ?_⟩
    rcases hap.row_before hr' with hr | hw
    · have hrr : r' = r₀ := Option.some.inj (hr.symm.trans hr₀)
      rw [hrr]
      exact ⟨hpid, hstart, hend⟩
    · cases hw with
      | inserted hl hlive hp => exact absurd hp (hinv.rows.not_inserting hr₀ _ _ hl)
      | finished hl hlive hr =>
        have hll := Option.some.inj (hl.symm.trans hl₀)
        rw [hll, hs₀] at hlive
        exact absurd hlive h.gone
      | interrupted hs hj hr =>
        have hrr := Option.some.inj (hr.symm.trans hr₀)
        rw [hrr]
        exact ⟨hpid, hstart, .inr rfl⟩
  · obtain ⟨w, snap, hw, hsnap, hr, hact⟩ := h.sweep
    obtain ⟨w', hw'⟩ := hap.sweep_after hw
    rcases hap.sweep_before hw' with hsame | ⟨hnone, -⟩ | ⟨w₀, hw₀, hswept⟩
    · have hww := Option.some.inj (hsame.symm.trans hw)
      exact ⟨w', snap, hw', by rw [hww]; exact hsnap, hr, by rw [hww]; exact hact⟩
    · rw [hw] at hnone
      cases hnone
    · have hww := Option.some.inj (hw₀.symm.trans hw)
      subst hww
      cases hswept with
      | snapshot hs =>
        rw [hs] at hsnap
        cases hsnap
      | locks => exact ⟨_, snap, hw', hsnap, hr, hact⟩
      | marked => exact ⟨_, snap, hw', hsnap, hr, hact⟩
      | ended => exact ⟨_, snap, hw', hsnap, hr, hact⟩
      | activity =>
        refine ⟨_, snap, hw', hsnap, hr, fun activity ha t ht => ?_⟩
        cases ha
        obtain ⟨b, hb, ht⟩ := Option.bind_eq_some_iff.mp ht
        split at ht
        · cases ht
          exact h.later hinv hb
        · cases ht

/-- Another session that was given the job's pid holds the job's key, and the sweep could not read
when that session began. -/
def Sweep.blind (w : Sweep) (r : JobRecord) : Prop :=
  ∃ locks activity, w.locks = some locks ∧ w.activity = some activity ∧
    r.lockKey ∈ locks r.backendPid ∧ activity r.backendPid = none

theorem Doomed.of_snapshot {i : Nat} {j : JobId} {r : JobRecord} {l : JobLedger}
    (hinv : ClusterInv c) (hstep : Step sees c (.snapshot i) c') (hr : c.rows j = some r)
    (hopen : r.finishedAt = none) (hl : c.jobs j = some l) (hgone : ¬ c.live l.session) :
    Doomed i j r l c' := by
  obtain ⟨c₁, hap, rfl⟩ := hstep
  refine ⟨fun hlive => hgone (hap.live_before (hinv.sessions.jobStart j l hl) hlive), ?_, ?_, ?_⟩
  · obtain ⟨l', hl', hs, -⟩ := hap.job_after hl
    exact ⟨l', hl', hs⟩
  · cases hap with
    | snapshot => exact ⟨r, hr, rfl, rfl, .inl hopen⟩
  · cases hap with
    | @snapshot _ w hi =>
      refine ⟨{ session := w.session, role := w.role, snapshot := some c.rows }, c.rows, ?_, rfl,
        hr, ?_⟩
      · simp [Cluster.tick, Cluster.setSweep]
      · simp

theorem Doomed.steps {i : Nat} {j : JobId} {r : JobRecord} {l : JobLedger} (h : Doomed i j r l c)
    (hinv : ClusterInv c) (hsteps : Steps sees c c') : Doomed i j r l c' := by
  suffices ClusterInv c' ∧ Doomed i j r l c' from this.2
  induction hsteps with
  | refl => exact ⟨hinv, h⟩
  | tail _ hstep ih =>
    obtain ⟨e, hstep⟩ := hstep
    exact ⟨ih.1.step hstep, ih.2.step ih.1 hstep⟩

theorem Doomed.committed {i : Nat} {j : JobId} {r : JobRecord} {l : JobLedger} {w : Sweep}
    (h : Doomed i j r l c) (hopen : r.finishedAt = none) (hw : c.sweeps i = some w)
    (hblind : ¬ w.blind r) (hstep : Step sees c (.commitSweep i) c') :
    ∃ r', c'.rows j = some r' ∧ r'.state = .interrupted ∧ r'.finishedAt ≠ none := by
  obtain ⟨c₁, hap, rfl⟩ := hstep
  obtain ⟨w₁, snap₁, hw₁, hsnap₁, hr₁, hact⟩ := h.sweep
  obtain ⟨r', hr', -, -, hend⟩ := h.row
  cases hap with
  | @commitSweep _ w₂ snap locks activity hi hlive he hsnap hlocks hactivity hall =>
    have hww₁ := Option.some.inj (hw₁.symm.trans hi)
    have hww := Option.some.inj (hw.symm.trans hi)
    subst hww₁ hww
    have hss := Option.some.inj (hsnap₁.symm.trans hsnap)
    subst hss
    have hdead : jobIsDead locks activity r := by
      refine ⟨hopen, ?_⟩
      rintro ⟨hmem, hnone | ⟨t, ht, hle⟩⟩
      · exact hblind ⟨locks, activity, hlocks, hactivity, hmem, hnone⟩
      · have := hact activity hactivity t ht
        omega
    change ∃ r', (if j ∈ w.marked then (c.rows j).map _ else c.rows j) = some r' ∧ _
    by_cases hmarked : j ∈ w.marked
    · refine ⟨{ r' with state := .interrupted, finishedAt := some c.clock }, ?_, rfl, by simp⟩
      rw [if_pos hmarked, hr']
      rfl
    · rcases hall j r hr₁ hdead with hm | ⟨r'', hr'', hfin⟩
      · exact absurd hm hmarked
      · have hrr := Option.some.inj (hr''.symm.trans hr')
        subst hrr
        refine ⟨r'', by rw [if_neg hmarked]; exact hr', ?_, hfin⟩
        rcases hend with hnone | hint
        · exact absurd hnone hfin
        · exact hint

/-- `open_job` has returned and `finish_job` has not written the row. -/
def Phase.isOpen : Phase → Bool
  | .opened => true
  | .finishing _ _ => true
  | _ => false

theorem Phase.waiting_of_isOpen {p : Phase} (h : p.isOpen = true) : p.waiting = some [] := by
  cases p <;> simp [Phase.isOpen, Phase.waiting] at h ⊢

/-- In every interleaving: open jobs whose sessions are there hold all their keys and share none;
a job is marked interrupted only when its own session does not hold its lock; and a sweep marks
every unfinished job whose session was gone when it took its snapshot, unless it was blind. -/
theorem locks_exclusive_and_dead_jobs_marked (sees : String → String → Bool) {c : Cluster}
    (hc : Reachable sees c) :
    (∀ j j' l l', j ≠ j' → c.jobs j = some l → c.jobs j' = some l' → l.phase.isOpen = true →
      l'.phase.isOpen = true → c.live l.session → c.live l'.session →
      (∀ k ∈ l.lockKeys, c.holds l.session k) ∧ ∀ k ∈ l.lockKeys, k ∉ l'.lockKeys) ∧
    (∀ j r l, c.rows j = some r → c.jobs j = some l →
      (r.state = .interrupted ∨ ∃ i w, c.sweeps i = some w ∧ j ∈ w.marked) →
      ¬ c.holds l.session r.lockKey) ∧
    (∀ i c₁ c₂ c₃ w j r l, Step sees c (.snapshot i) c₁ → Steps sees c₁ c₂ →
      Step sees c₂ (.commitSweep i) c₃ → c.rows j = some r → r.finishedAt = none →
      c.jobs j = some l → ¬ c.live l.session → c₂.sweeps i = some w → ¬ w.blind r →
      ∃ r', c₃.rows j = some r' ∧ r'.state = .interrupted ∧ r'.finishedAt ≠ none) := by
  have hinv := hc.inv
  refine ⟨?_, ?_, ?_⟩
  · intro j j' l l' hne hl hl' ho ho' hlive hlive'
    have hall := hinv.sessions.holds_all hl (Phase.waiting_of_isOpen ho) hlive
    have hall' := hinv.sessions.holds_all hl' (Phase.waiting_of_isOpen ho') hlive'
    refine ⟨hall, fun k hk hk' => hne ?_⟩
    have hsame := hinv.sessions.exclusive _ _ k (hall k hk) (hall' k hk')
    exact hinv.sessions.ownSession j j' l l' hl hl' hsame
  · rintro j r l hr hl (hint | ⟨i, w, hw, hj⟩)
    · exact hinv.sweeps.interrupted j r l hr hint hl
    · obtain ⟨r', l', hr', hl', hk⟩ := hinv.sweeps.marked i w j hw hj
      have hrr := Option.some.inj (hr'.symm.trans hr)
      have hll := Option.some.inj (hl'.symm.trans hl)
      rw [← hrr, ← hll]
      exact hk
  · intro i c₁ c₂ c₃ w j r l hsnap hsteps hcommit hr hopen hl hgone hw hblind
    have hdoomed := Doomed.of_snapshot hinv hsnap hr hopen hl hgone
    exact (hdoomed.steps (hinv.step hsnap) hsteps).committed hopen hw hblind hcommit

theorem Steps.next (h : Steps sees c c') (hap : Happens sees c' e c'') : Steps sees c c''.tick :=
  h.tail ⟨e, c'', hap, rfl⟩

/-- Job 1 opened, the server was restarted, job 2 of the same specification got its pid and its
key, and a sweep has connected. -/
def takenOver : Cluster where
  clock := 8
  backends := Function.update (Function.update (fun _ => none) 5 (some ⟨5, "deployer", [42]⟩)) 6
    (some ⟨7, "house_runner", []⟩)
  rows := Function.update (fun _ => none) 1 (some ⟨5, 42, 2, none, .of .running⟩)
  jobs := Function.update (Function.update (fun _ => none) 1 (some ⟨⟨5, 0⟩, [42], .opened⟩)) 2
    (some ⟨⟨5, 5⟩, [42], .locking []⟩)
  sweeps := Function.update (fun _ => none) 0 (some { session := ⟨6, 7⟩, role := "house_runner" })

theorem takenOver_reachable (sees : String → String → Bool) : Reachable sees takenOver := by
  have h0 : Steps sees {} {} := .refl
  have h1 := h0.next (@Happens.openLedger sees _ 1 5 "house_runner" [42] rfl rfl)
  have h2 := h1.next (Happens.grant (j := 1) rfl ⟨_, rfl, rfl⟩ rfl (by
    intro pid b hne hb
    simp [Cluster.tick, Cluster.setJob, Cluster.setBackend, hne] at hb))
  have h3 := h2.next (Happens.beginInsert (j := 1) rfl ⟨_, rfl, rfl⟩ rfl)
  have h4 := h3.next (Happens.insert (j := 1) rfl ⟨_, rfl, rfl⟩ rfl)
  have h5 := h4.next Happens.restart
  have h6 := h5.next (@Happens.openLedger sees _ 2 5 "deployer" [42] rfl rfl)
  have h7 := h6.next (Happens.grant (j := 2) rfl ⟨_, rfl, rfl⟩ rfl (by
    intro pid b hne hb
    simp [Cluster.tick, Cluster.setJob, Cluster.setBackend, hne] at hb))
  have h8 := h7.next (@Happens.connectSweep sees _ 0 6 "house_runner" rfl rfl)
  refine Eq.mp (congrArg (Steps sees {}) ?_) h8
  simp [takenOver, Cluster.tick, Cluster.setJob, Cluster.setBackend, Cluster.setRow,
    Cluster.setSweep, Cluster.setLocks, JobLedger.row]

theorem takenOver_gone : ¬ takenOver.live ⟨5, 0⟩ := by
  rintro ⟨b, hb, hs⟩
  simp only [takenOver, Function.update] at hb
  cases hb
  cases hs

/-- The sweep of `takenOver` when it has read all it reads. -/
def takenOverSweep (sees : String → String → Bool) : Sweep where
  session := ⟨6, 7⟩
  role := "house_runner"
  snapshot := some takenOver.rows
  locks := some fun pid => ((takenOver.backends pid).map Backend.locks).getD []
  activity := some fun pid => (takenOver.backends pid).bind fun b =>
    if sees "house_runner" b.role then some b.start else none

def takenOverRead (sees : String → String → Bool) : Cluster :=
  { takenOver with
    clock := 11, sweeps := Function.update (fun _ => none) 0 (some (takenOverSweep sees)) }

theorem takenOver_read (sees : String → String → Bool) :
    ∃ c₁, Step sees takenOver (.snapshot 0) c₁ ∧ Steps sees c₁ (takenOverRead sees) := by
  have hsnap := @Happens.snapshot sees takenOver 0 _ rfl ⟨_, rfl, rfl⟩ rfl rfl
  refine ⟨_, ⟨_, hsnap, rfl⟩, ?_⟩
  refine Relation.ReflTransGen.head
    ⟨.readLocks 0, _, .readLocks rfl ⟨_, rfl, rfl⟩ rfl (by simp) rfl, rfl⟩ ?_
  refine Relation.ReflTransGen.head
    ⟨.readActivity 0, _, .readActivity rfl ⟨_, rfl, rfl⟩ rfl (by simp) rfl, rfl⟩ ?_
  refine Eq.mp (congrArg (Steps sees _) ?_) Relation.ReflTransGen.refl
  simp [takenOverRead, takenOverSweep, takenOver, Cluster.tick, Cluster.setSweep]

/-- The snapshot of the sweep sees one job. -/
theorem takenOver_rows {j : JobId} {r : JobRecord} (h : takenOver.rows j = some r) :
    j = 1 ∧ r = ⟨5, 42, 2, none, .of .running⟩ := by
  by_cases hj : j = 1
  · subst hj
    simp only [takenOver, Function.update_self, Option.some.injEq] at h
    exact ⟨rfl, h.symm⟩
  · simp [takenOver, hj] at h

/-- Where every start can be read, the job whose pid and key another one has is marked. -/
theorem takenOver_marked :
    ∃ c₁ c₂ c₃, Step (fun _ _ => true) takenOver (.snapshot 0) c₁ ∧
      Steps (fun _ _ => true) c₁ c₂ ∧ Step (fun _ _ => true) c₂ (.commitSweep 0) c₃ ∧
      ∃ r', c₃.rows 1 = some r' ∧ r'.state = .interrupted ∧ r'.finishedAt ≠ none := by
  obtain ⟨c₁, hsnap, hread⟩ := takenOver_read fun _ _ => true
  have hmark := hread.next (@Happens.mark _ _ 0 _ 1 _ _ _ _ _ rfl ⟨_, rfl, rfl⟩ rfl rfl rfl rfl rfl
    ⟨rfl, by decide⟩ rfl rfl (by
      rintro ⟨l, state, t, hl, hp, -⟩
      cases hl
      cases hp) (by
      rintro ⟨i, w, hw, -, -, hj⟩
      by_cases hi : i = 0
      · subst hi
        cases hw
        cases hj
      · simp [takenOverRead, hi] at hw))
  have hcommit := @Happens.commitSweep (fun _ _ => true)
    ((takenOverRead fun _ _ => true).setSweep 0
      { takenOverSweep (fun _ _ => true) with marked := [1] }).tick
    0 _ _ _ _ rfl ⟨_, rfl, rfl⟩ rfl rfl rfl rfl (by
      intro j r hr _
      obtain ⟨rfl, -⟩ := takenOver_rows hr
      exact .inl List.mem_cons_self)
  refine ⟨c₁, _, _, hsnap, hmark, ⟨_, hcommit, rfl⟩, ?_⟩
  have hall := (locks_exclusive_and_dead_jobs_marked _ (takenOver_reachable fun _ _ => true)).2.2
  refine hall 0 c₁ _ _ _ 1 _ _ hsnap hmark ⟨_, hcommit, rfl⟩ rfl rfl rfl takenOver_gone rfl ?_
  rintro ⟨locks, activity, hl, ha, -, hnone⟩
  cases ha
  cases hnone

/-- Where only the sessions of one's own role can be read, it is not: the job is unfinished, its
session gone, and the sweep passes it by. -/
theorem takenOver_passed_by :
    ∃ c₁ c₂ c₃ r, Reachable (fun a b => a == b) takenOver ∧
      takenOver.rows 1 = some r ∧ r.finishedAt = none ∧ ¬ takenOver.live ⟨5, 0⟩ ∧
      Step (fun a b => a == b) takenOver (.snapshot 0) c₁ ∧ Steps (fun a b => a == b) c₁ c₂ ∧
      Step (fun a b => a == b) c₂ (.commitSweep 0) c₃ ∧ c₃.rows 1 = some r := by
  obtain ⟨c₁, hsnap, hread⟩ := takenOver_read fun a b => a == b
  have hcommit := @Happens.commitSweep (fun a b => a == b) (takenOverRead fun a b => a == b)
    0 _ _ _ _ rfl ⟨_, rfl, rfl⟩ rfl rfl rfl rfl (by
      intro j r hr hdead
      obtain ⟨rfl, rfl⟩ := takenOver_rows hr
      exact absurd ⟨by decide, .inl (by decide)⟩ hdead.2)
  exact ⟨c₁, _, _, _, takenOver_reachable _, rfl, rfl, takenOver_gone, hsnap, hread,
    ⟨_, hcommit, rfl⟩, rfl⟩

end Ledger
end Laswell
