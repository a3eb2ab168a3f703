import Laswell.Base.Trace
import Laswell.Deploy.Deployment

/-!
# Laswell.Deploy.Order

What a deployment never does, whatever its jobs come to and whenever it is told to stop.

* `Orderly`: every start in a log comes after its dependencies have been seen to succeed, and
  before any job has been seen to end otherwise and any signal has been seen.
* `Watching`: every job that was started is still watched, or has been seen to end.
* `Going`: the same of a deployment that has not met with a reason to stop.
-/

namespace Laswell
namespace Deploy

open Base Jobs Repository

/-! ## Logs -/

/-- The entry is what the world answered at its tick. -/
def Event.Answered (w : World) (tick : Nat) : Event → Prop
  | .signal b => b = w.received tick
  | .seen _ job state => state = w.state tick job
  | _ => True

/-- A signal, or the end of a job that did not succeed. -/
def Event.stops : Event → Bool
  | .signal b => b
  | .seen _ _ state => ended state && state ≠ some .succeeded
  | _ => false

/-- The job was started, and has been seen to end since. -/
def EndedIn (id job : String) (log : List Event) : Prop :=
  ∃ state, ended state = true ∧ Follows (.started id job) (.seen id job state) log

def SucceededIn (id job : String) (log : List Event) : Prop :=
  Follows (.started id job) (.seen id job (some .succeeded)) log

/-- Each dependency that is an entry of the listing is applied, or was started and has been seen
to succeed. -/
def DependenciesMet (entries : List RepoEntry) (id : String) (log : List Event) : Prop :=
  ∀ d ∈ dependsOn entries id, ∀ e, byId entries d = some e →
    e.status = .applied ∨ ∃ job, SucceededIn d job log

def InTurn (entries : List RepoEntry) (e : Event) (earlier : List Event) : Prop :=
  ∀ id job, e = .started id job →
    DependenciesMet entries id earlier ∧ ∀ e' ∈ earlier, e'.stops = false

def Orderly (w : World) (entries : List RepoEntry) : List Event → Prop :=
  Along fun e earlier => e.Answered w earlier.length ∧ InTurn entries e earlier

def AllEnded (log : List Event) : Prop :=
  ∀ id job, Event.started id job ∈ log → EndedIn id job log

section

variable {w : World} {entries : List RepoEntry} {log : List Event} {e : Event}
  {id job : String}

theorem SucceededIn.endedIn (h : SucceededIn id job log) : EndedIn id job log :=
  ⟨_, rfl, h⟩

theorem EndedIn.cons (h : EndedIn id job log) (e : Event) : EndedIn id job (e :: log) := by
  obtain ⟨state, hs, hf⟩ := h
  exact ⟨state, hs, hf.cons e⟩

/-- Whatever is not a start may come at any time. -/
theorem Orderly.noted (h : Orderly w entries log) (ha : e.Answered w log.length)
    (hn : ∀ id job, e ≠ .started id job) : Orderly w entries (e :: log) :=
  Along.cons h ⟨ha, fun id job he => absurd he (hn id job)⟩

end

/-! ## Invariants -/

structure Watching (w : World) (entries : List RepoEntry) (running : Running)
    (log : List Event) : Prop where
  orderly : Orderly w entries log
  started : ∀ p ∈ running, Event.started p.1 p.2 ∈ log
  accounted : ∀ id job, Event.started id job ∈ log → (id, job) ∈ running ∨ EndedIn id job log

/-- `done` are the ids of the groups that are through, `taken` those of the present group that
the loop has come to. A dry run starts nothing. -/
structure Going (w : World) (entries : List RepoEntry) (dryRun : Bool) (done taken : List String)
    (running : Running) (log : List Event) : Prop where
  orderly : Orderly w entries log
  started : ∀ p ∈ running, Event.started p.1 p.2 ∈ log
  accounted : ∀ id job, Event.started id job ∈ log →
    (id, job) ∈ running ∨ SucceededIn id job log
  quiet : ∀ e ∈ log, e.stops = false
  through : dryRun = false → ∀ id ∈ done, ∃ job, SucceededIn id job log
  begun : dryRun = false → ∀ id ∈ taken, ∃ job, Event.started id job ∈ log
  dry : dryRun = true → running = []

section

variable {w : World} {entries : List RepoEntry} {dryRun : Bool} {done taken : List String}
  {running : Running} {log : List Event} {e : Event}

theorem Going.watching (h : Going w entries dryRun done taken running log) :
    Watching w entries running log :=
  ⟨h.orderly, h.started, fun id job hs => (h.accounted id job hs).imp_right (·.endedIn)⟩

theorem Watching.noted (h : Watching w entries running log) (ha : e.Answered w log.length)
    (hn : ∀ id job, e ≠ .started id job) : Watching w entries running (e :: log) where
  orderly := h.orderly.noted ha hn
  started p hp := List.mem_cons_of_mem _ (h.started p hp)
  accounted id job hs := by
    rcases List.mem_cons.mp hs with rfl | hs
    · exact absurd rfl (hn id job)
    · exact (h.accounted id job hs).imp_right (·.cons e)

theorem Going.noted (h : Going w entries dryRun done taken running log)
    (ha : e.Answered w log.length) (hn : ∀ id job, e ≠ .started id job)
    (hq : e.stops = false) : Going w entries dryRun done taken running (e :: log) where
  orderly := h.orderly.noted ha hn
  started p hp := List.mem_cons_of_mem _ (h.started p hp)
  accounted id job hs := by
    rcases List.mem_cons.mp hs with rfl | hs
    · exact absurd rfl (hn id job)
    · exact (h.accounted id job hs).imp_right (·.cons e)
  quiet := List.forall_mem_cons.mpr ⟨hq, h.quiet⟩
  through hd id hid := by
    obtain ⟨job, hs⟩ := h.through hd id hid
    exact ⟨job, hs.cons e⟩
  begun hd id hid := by
    obtain ⟨job, hs⟩ := h.begun hd id hid
    exact ⟨job, List.mem_cons_of_mem _ hs⟩
  dry := h.dry

/-- A job is taken off the list once what is required of the others holds of it. -/
theorem accounted_erase {kept rest : Running} {p q : String × String} {Q : String × String → Prop}
    (h : q ∈ kept ++ p :: rest ∨ Q q) (hp : Q p) : q ∈ kept ++ rest ∨ Q q := by
  by_cases heq : q = p
  · exact .inr (heq ▸ hp)
  · exact h.imp_left fun hm => by simpa [heq] using hm

/-- A job seen to end is watched no longer. -/
theorem Watching.seenEnded {kept rest : Running} {id job : String} {state : Option JobState}
    (h : Watching w entries (kept ++ (id, job) :: rest) log)
    (ha : state = w.state log.length job) (he : ended state = true) :
    Watching w entries (kept ++ rest) (.seen id job state :: log) := by
  have hlog := h.noted (e := .seen id job state) ha (by simp)
  have hend : EndedIn id job (.seen id job state :: log) :=
    ⟨state, he, follows_now (h.started (id, job) (by simp))⟩
  refine ⟨hlog.orderly, fun p hp => hlog.started p (by grind), fun id' job' hs => ?_⟩
  exact accounted_erase (Q := fun q => EndedIn q.1 q.2 _) (hlog.accounted id' job' hs) hend

theorem Going.seenSucceeded {kept rest : Running} {id job : String}
    (h : Going w entries dryRun done taken (kept ++ (id, job) :: rest) log)
    (ha : some .succeeded = w.state log.length job) :
    Going w entries dryRun done taken (kept ++ rest)
      (.seen id job (some .succeeded) :: log) := by
  have hlog := h.noted (e := .seen id job (some .succeeded)) ha (by simp) rfl
  have hend : SucceededIn id job (.seen id job (some .succeeded) :: log) :=
    follows_now (h.started (id, job) (by simp))
  refine { hlog with started := fun p hp => hlog.started p (by grind), accounted := ?_, dry := ?_ }
  · intro id' job' hs
    exact accounted_erase (Q := fun q => SucceededIn q.1 q.2 _) (hlog.accounted id' job' hs) hend
  · intro hd
    have := h.dry hd
    simp at this

/-- A start of an entry whose turn it is. -/
theorem Going.start {id job : String} (h : Going w entries false done taken running log)
    (hdeps : ∀ d ∈ dependsOn entries id, ∀ e, byId entries d = some e →
      e.status = .applied ∨ d ∈ done) :
    Going w entries false done (taken ++ [id]) (running ++ [(id, job)])
      (.started id job :: log) where
  orderly := by
    refine h.orderly.cons ⟨trivial, ?_⟩
    rintro _ _ ⟨⟩
    refine ⟨fun d hd e he => ?_, h.quiet⟩
    exact (hdeps d hd e he).imp_right (h.through rfl d)
  started p hp := by
    rcases List.mem_append.mp hp with hp | hp
    · exact List.mem_cons_of_mem _ (h.started p hp)
    · rw [List.mem_singleton.mp hp]
      exact List.mem_cons_self
  accounted id' job' hs := by
    rcases List.mem_cons.mp hs with heq | hs
    · cases heq
      exact .inl (by simp)
    · rcases h.accounted id' job' hs with hr | hr
      · exact .inl (List.mem_append_left _ hr)
      · exact .inr (hr.cons _)
  quiet := List.forall_mem_cons.mpr ⟨rfl, h.quiet⟩
  through hd id' hid := by
    obtain ⟨job', hs⟩ := h.through hd id' hid
    exact ⟨job', hs.cons _⟩
  begun hd id' hid := by
    rcases List.mem_append.mp hid with hid | hid
    · obtain ⟨job', hs⟩ := h.begun hd id' hid
      exact ⟨job', List.mem_cons_of_mem _ hs⟩
    · rw [List.mem_singleton.mp hid]
      exact ⟨job, List.mem_cons_self⟩
  dry hd := by cases hd

/-- A group is through once nothing of it is left to watch. -/
theorem Going.groupThrough (h : Going w entries dryRun done taken [] log) :
    Going w entries dryRun (done ++ taken) [] [] log where
  orderly := h.orderly
  started := h.started
  accounted := h.accounted
  quiet := h.quiet
  through hd id hid := by
    rcases List.mem_append.mp hid with hid | hid
    · exact h.through hd id hid
    · obtain ⟨job, hs⟩ := h.begun hd id hid
      exact ⟨job, (h.accounted id job hs).resolve_left (by simp)⟩
  begun _ id hid := by cases hid
  dry _ := rfl

end

/-! ## Questions -/

section

variable {w : World} {entries : List RepoEntry} {s : Run}

theorem ask_wp {α : Type} {answer : Nat → α} {event : α → Event}
    {Q : Outcome Unit α → Run → Prop}
    (h : ∀ a, a = answer s.log.length → Q (.ok a) (s.note (event a))) : (ask answer event).Wp Q s :=
  h _ rfl

theorem call_wp {α : Type} {answer : Nat → Option α} {event : Option α → Event}
    {Q : Outcome Unit α → Run → Prop} (hok : ∀ a, Q (.ok a) (s.note (event (some a))))
    (herr : Q (.err ()) (s.note (event none))) : (call answer event).Wp Q s := by
  rw [call, Prog.wp_bind]
  refine ask_wp fun a _ => ?_
  rw [Prog.andThen_ok]
  cases a with
  | none => exact herr
  | some a => exact hok a

/-- The jobs stay watched, and where no signal is found nothing else has changed. -/
theorem stopOnSignal_spec {running : Running} (h : Watching w entries running s.log) :
    (stopOnSignal w).Wp (fun o s' => ∃ b, o = .ok b ∧ Watching w entries running s'.log ∧
      (b = false → s' = s.note (.signal false) ∧ false = w.received s.log.length)) s := by
  rw [stopOnSignal, Prog.wp_bind]
  refine ask_wp fun b hb => ?_
  rw [Prog.andThen_ok]
  have hsig := h.noted (e := .signal b) hb (by simp)
  cases b with
  | false => exact ⟨false, rfl, hsig, fun _ => ⟨rfl, hb⟩⟩
  | true =>
    simp only [if_true, Prog.wp_bind, Prog.wp_gets, Prog.andThen_ok]
    split
    · exact ⟨true, rfl, hsig, by simp⟩
    · exact ⟨true, rfl, hsig.noted (e := .askedToStop) trivial (by simp), by simp⟩

theorem sleep_wp {Q : Outcome Unit Unit → Run → Prop} (h : Q (.ok ()) (s.note .slept)) :
    sleep.Wp Q s := h

end

/-! ## Watching jobs to their end -/

section

variable {w : World} {entries : List RepoEntry} {running : Running} {s : Run}

theorem drainRound_spec : ∀ (rest kept : Running) (s : Run),
    Watching w entries (kept ++ rest) s.log →
    (drainRound w kept rest).Wp
      (fun o s' => ∃ running, o = .ok running ∧ Watching w entries running s'.log) s := by
  intro rest
  induction rest with
  | nil =>
    intro kept s h
    rw [List.append_nil] at h
    exact ⟨kept, rfl, h⟩
  | cons p rest ih =>
    intro kept s h
    obtain ⟨id, job⟩ := p
    rw [drainRound, Prog.wp_bind]
    refine ask_wp fun state ha => ?_
    rw [Prog.andThen_ok]
    split
    · exact ih kept _ (h.seenEnded ha ‹_›)
    · refine ih (kept ++ [(id, job)]) _ ?_
      rw [List.append_assoc]
      exact h.noted ha (by simp)

/-- `Q` of what is returned, and an orderly log where nothing is: a tool has thrown, or the run
was cut short. -/
def Leaves {α : Type} (w : World) (entries : List RepoEntry) (Q : α → Run → Prop) :
    Outcome Unit α → Run → Prop
  | .ok a, s => Q a s
  | .err _, s => Orderly w entries s.log
  | .out, s => Orderly w entries s.log

theorem Leaves.mono {α : Type} {Q Q' : α → Run → Prop} {o : Outcome Unit α}
    (h : Leaves w entries Q o s) (hq : ∀ a, Q a s → Q' a s) : Leaves w entries Q' o s := by
  cases o with
  | ok a => exact hq a h
  | err _ => exact h
  | out => exact h

/-- The first of two programs, by what it leaves behind. -/
theorem bind_wp {α β : Type} {p : Deploying α} {f : α → Deploying β} {Q : α → Run → Prop}
    {Q' : β → Run → Prop} (hp : p.Wp (Leaves w entries Q) s)
    (hf : ∀ a s', Q a s' → (f a).Wp (Leaves w entries Q') s') :
    (p >>= f).Wp (Leaves w entries Q') s := by
  rw [Prog.wp_bind]
  refine hp.mono fun o s' h => ?_
  cases o with
  | ok a => exact hf a s' h
  | err _ => exact h
  | out => exact h

theorem loop_wp {β γ : Type} {body : β → Deploying (β ⊕ γ)} {Q : γ → Run → Prop}
    (I : β → Run → Prop) (hout : ∀ b s, I b s → Orderly w entries s.log)
    (hbody : ∀ b s, I b s →
      (body b).Wp (Leaves w entries fun r s' => r.elim (I · s') (Q · s')) s)
    (fuel : Nat) (b : β) (h : I b s) :
    (Prog.loop body fuel b).Wp (Leaves w entries Q) s := by
  refine Prog.wp_loop I hout (fun b s hb => (hbody b s hb).mono fun o s' ho => ?_) fuel b s h
  match o with
  | .ok (.inl b') => exact ho
  | .ok (.inr c) => exact ho
  | .err _ => exact ho
  | .out => exact ho

/-- `drain` returns with nothing left to watch. -/
theorem drain_spec (fuel : Nat) (h : Watching w entries running s.log) :
    (drain w fuel running).Wp (Leaves w entries fun _ s' => Watching w entries [] s'.log) s := by
  refine loop_wp (fun running s => Watching w entries running s.log) ?_ ?_ fuel running h
  · intro running s h
    exact h.orderly
  · intro running s h
    split
    · rename_i he
      rw [List.isEmpty_iff.mp he] at h
      exact h
    · rw [Prog.wp_bind]
      refine (stopOnSignal_spec h).mono ?_
      rintro _ s' ⟨b, rfl, h', -⟩
      rw [Prog.andThen_ok, Prog.wp_bind]
      refine sleep_wp ?_
      rw [Prog.andThen_ok, Prog.wp_bind]
      have hs := h'.noted (e := .slept) trivial (by simp)
      refine (drainRound_spec running [] (s'.note .slept) hs).mono ?_
      rintro _ s'' ⟨running', rfl, h''⟩
      exact h''

end

/-! ## One group -/

section

variable {w : World} {entries : List RepoEntry} {opts : DeployOptions} {done taken : List String}
  {running : Running} {s : Run}

/-- The polling loop goes on with what is still running, or ends the group once all is drained. -/
theorem poll_spec (fuel : Nat) : ∀ (rest kept : Running) (s : Run),
    Going w entries opts.dryRun done taken (kept ++ rest) s.log →
    (poll w fuel kept rest).Wp (Leaves w entries fun r s' =>
      match r with
      | .inl running => Going w entries opts.dryRun done taken running s'.log
      | .inr result => result ≠ .ok ∧ Watching w entries [] s'.log) s := by
  intro rest
  induction rest with
  | nil =>
    intro kept s h
    rw [List.append_nil] at h
    exact h
  | cons p rest ih =>
    intro kept s h
    obtain ⟨id, job⟩ := p
    rw [poll, Prog.wp_bind]
    refine ask_wp fun state ha => ?_
    rw [Prog.andThen_ok]
    split
    · rename_i he
      split
      · rename_i hs
        subst hs
        exact ih kept _ (h.seenSucceeded ha)
      · refine bind_wp (drain_spec fuel (h.watching.seenEnded ha he)) fun _ s' h' => ?_
        exact ⟨by decide, h'⟩
    · rename_i he
      refine ih (kept ++ [(id, job)]) _ ?_
      rw [List.append_assoc]
      exact h.noted ha (by simp) (by simp [Event.stops, he])

/-- What the order of the listing gives of an entry of a group. -/
def Due (entries : List RepoEntry) (done : List String) (e : RepoEntry) : Prop :=
  ∀ d ∈ dependsOn entries e.specId, ∀ e', byId entries d = some e' →
    e'.status = .applied ∨ d ∈ done

/-- The inner loop is left with the group still going, or because a signal was found: then it is
there to be found again. -/
def Paused (w : World) (entries : List RepoEntry) (dryRun : Bool) (done taken : List String)
    (running : Running) (log : List Event) : Prop :=
  Going w entries dryRun done taken running log ∨
    Watching w entries running log ∧ w.received log.length = true

/-- After the inner loop, of whose entries `ids` it has taken the first ones. -/
def FilledSo (w : World) (entries : List RepoEntry) (dryRun : Bool) (done taken : List String)
    (ids : List RepoEntry) : Filled → Run → Prop
  | .waiting ids' running, s => ∃ now, ids = now ++ ids' ∧
      Paused w entries dryRun done (taken ++ now.map RepoEntry.specId) running s.log
  | .ended result, s => result ≠ .ok ∧ Watching w entries [] s.log

theorem FilledSo.cons {dryRun : Bool} {e : RepoEntry} {ids : List RepoEntry} {r : Filled}
    (h : FilledSo w entries dryRun done (taken ++ [e.specId]) ids r s) :
    FilledSo w entries dryRun done taken (e :: ids) r s := by
  cases r with
  | ended result => exact h
  | waiting ids' running =>
    obtain ⟨now, rfl, hp⟩ := h
    refine ⟨e :: now, rfl, ?_⟩
    rwa [List.append_assoc, List.singleton_append] at hp

theorem filledSo_waiting {dryRun : Bool} {ids : List RepoEntry}
    (h : Paused w entries dryRun done taken running s.log) :
    FilledSo w entries dryRun done taken ids (.waiting ids running) s :=
  ⟨[], rfl, by rwa [List.map_nil, List.append_nil]⟩

/-- In a dry run an entry is taken without a start. -/
theorem Going.planned {log : List Event} (h : Going w entries true done taken running log)
    (id : String) : Going w entries true done (taken ++ [id]) running log :=
  { h with begun := fun hd => by cases hd }

/-- One entry of a dry run. -/
theorem planOne_spec {e : RepoEntry} {ids : List RepoEntry} {next : Deploying Filled}
    (h : Going w entries true done taken running s.log)
    (hnext : ∀ s' : Run, Going w entries true done (taken ++ [e.specId]) running s'.log →
      next.Wp (Leaves w entries (FilledSo w entries true done taken (e :: ids))) s') :
    (do if ← planMigrationTool w e then next else pure (.ended .refused) : Deploying Filled).Wp
      (Leaves w entries (FilledSo w entries true done taken (e :: ids))) s := by
  have hplan : ∀ ok, Going w entries true done taken running (.planned e.specId ok :: s.log) :=
    fun ok => h.noted trivial (by simp) rfl
  rw [Prog.wp_bind]
  refine call_wp (fun ok => ?_) (hplan none).orderly
  rw [Prog.andThen_ok]
  cases ok with
  | true => exact hnext _ ((hplan (some true)).planned e.specId)
  | false =>
    -- a dry run starts nothing, so there is nothing to drain
    have hw := (hplan (some false)).watching
    rw [(hplan (some false)).dry rfl] at hw
    exact ⟨by decide, hw⟩

/-- One entry whose turn it is. -/
theorem startOne_spec (fuel : Nat) {e : RepoEntry} {ids : List RepoEntry}
    {next : Running → Deploying Filled} (hdue : Due entries done e)
    (h : Going w entries false done taken running s.log)
    (hnext : ∀ running' (s' : Run),
      Going w entries false done (taken ++ [e.specId]) running' s'.log →
      (next running').Wp (Leaves w entries (FilledSo w entries false done taken (e :: ids))) s') :
    (do
      match ← startMigration w e with
      | .accepted job => next (running ++ [(e.specId, job)])
      | .refused => do
        drain w fuel running
        pure (.ended .refused) : Deploying Filled).Wp
      (Leaves w entries (FilledSo w entries false done taken (e :: ids))) s := by
  have hnot := h.noted (e := .notStarted e.specId) trivial (by simp) rfl
  rw [Prog.wp_bind]
  refine call_wp (fun answer => ?_) hnot.orderly
  rw [Prog.andThen_ok]
  cases answer with
  | accepted job => exact hnext _ _ (h.start hdue)
  | refused => exact bind_wp (drain_spec fuel hnot.watching) fun _ s' h' => ⟨by decide, h'⟩

theorem startWhileRoom_spec (fuel : Nat) : ∀ (ids : List RepoEntry) (taken : List String)
    (running : Running) (s : Run), (∀ e ∈ ids, Due entries done e) →
    Going w entries opts.dryRun done taken running s.log →
    (startWhileRoom w opts fuel ids running).Wp
      (Leaves w entries (FilledSo w entries opts.dryRun done taken ids)) s := by
  intro ids
  induction ids with
  | nil =>
    intro taken running s _ h
    exact filledSo_waiting (.inl h)
  | cons e ids ih =>
    intro taken running s hdue h
    have hnext : ∀ running' (s' : Run),
        Going w entries opts.dryRun done (taken ++ [e.specId]) running' s'.log →
        (startWhileRoom w opts fuel ids running').Wp
          (Leaves w entries (FilledSo w entries opts.dryRun done taken (e :: ids))) s' := by
      intro running' s' h'
      refine (ih _ running' s' (fun e' he' => hdue e' (List.mem_cons_of_mem _ he')) h').mono ?_
      exact fun o s'' ho => ho.mono fun r hr => hr.cons
    rw [startWhileRoom]
    split
    · exact filledSo_waiting (.inl h)
    rw [Prog.wp_bind]
    refine ask_wp fun b hb => ?_
    rw [Prog.andThen_ok]
    cases b with
    | true =>
      refine filledSo_waiting (.inr ⟨h.watching.noted hb (by simp), ?_⟩)
      exact World.received_mono hb.symm (Nat.le_succ _)
    | false =>
      have h := h.noted (e := .signal false) hb (by simp) rfl
      rw [if_neg (by decide), Prog.wp_bind]
      refine ask_wp fun ok _ => ?_
      rw [Prog.andThen_ok]
      have h := h.noted (e := .read e.specId ok) trivial (by simp) rfl
      cases ok with
      | false =>
        rw [if_neg (by decide)]
        exact bind_wp (drain_spec fuel h.watching) fun _ s' h' => ⟨by decide, h'⟩
      | true =>
        rw [if_pos rfl]
        cases hdry : opts.dryRun with
        | true =>
          rw [hdry] at h hnext
          exact planOne_spec h (hnext running)
        | false =>
          rw [hdry] at h hnext
          exact startOne_spec fuel (hdue e List.mem_cons_self) h hnext

/-- How a group ends: `ok` only once every job of it has been seen to succeed. -/
def GroupOver (w : World) (entries : List RepoEntry) (dryRun : Bool) (done : List String)
    (result : DeployResult) (s : Run) : Prop :=
  if result = .ok then Going w entries dryRun done [] [] s.log else Watching w entries [] s.log

theorem groupOver_stopped {dryRun : Bool} {result : DeployResult}
    (h : result ≠ .ok ∧ Watching w entries [] s.log) :
    GroupOver w entries dryRun done result s := by
  rw [GroupOver, if_neg h.1]
  exact h.2

/-- Each time round, the group is what was taken of it and what is still to come. -/
def GroupAt (w : World) (entries : List RepoEntry) (dryRun : Bool) (done : List String)
    (ids : List RepoEntry) (b : List RepoEntry × Running) (s : Run) : Prop :=
  ∃ now, ids = now ++ b.1 ∧ Going w entries dryRun done (now.map RepoEntry.specId) b.2 s.log

/-- After one round of the group: another one, or its end. -/
abbrev RoundOver (w : World) (entries : List RepoEntry) (dryRun : Bool) (done : List String)
    (ids : List RepoEntry) (r : (List RepoEntry × Running) ⊕ DeployResult) (s : Run) : Prop :=
  r.elim (GroupAt w entries dryRun done ids · s)
    (GroupOver w entries dryRun (done ++ ids.map RepoEntry.specId) · s)

/-- Where no signal is found: sleep, and poll what is running. -/
theorem pollRunning_spec (fuel : Nat) {ids rest : List RepoEntry}
    (h : GroupAt w entries opts.dryRun done ids (rest, running) s) :
    (if running.isEmpty then pure (.inl (rest, running))
      else do
        sleep
        match ← poll w fuel [] running with
        | .inl running => pure (.inl (rest, running))
        | .inr result => pure (.inr result) :
      Deploying ((List RepoEntry × Running) ⊕ DeployResult)).Wp
      (Leaves w entries (RoundOver w entries opts.dryRun done ids)) s := by
  split
  · exact h
  · obtain ⟨now, hids, h⟩ := h
    rw [Prog.wp_bind]
    refine sleep_wp ?_
    rw [Prog.andThen_ok]
    have h := h.noted (e := .slept) trivial (by simp) rfl
    refine bind_wp (poll_spec fuel running [] (s.note .slept) h) fun r s' hr => ?_
    cases r with
    | inl left => exact ⟨now, hids, hr⟩
    | inr result => exact groupOver_stopped hr

theorem groupRound_spec (fuel : Nat) {ids : List RepoEntry}
    (hdue : ∀ e ∈ ids, Due entries done e) (b : List RepoEntry × Running)
    (h : GroupAt w entries opts.dryRun done ids b s) :
    (groupRound w opts fuel b).Wp
      (Leaves w entries (RoundOver w entries opts.dryRun done ids)) s := by
  obtain ⟨rest, running⟩ := b
  obtain ⟨now, rfl, h⟩ := h
  have hrest : ∀ e ∈ rest, Due entries done e := fun e he =>
    hdue e (List.mem_append_right _ he)
  rw [groupRound]
  split
  · rename_i he
    simp only [Bool.and_eq_true, List.isEmpty_iff] at he
    obtain ⟨rfl, rfl⟩ := he
    rw [List.append_nil]
    exact h.groupThrough
  · refine bind_wp (startWhileRoom_spec fuel rest _ running s hrest h) fun r s' hr => ?_
    cases r with
    | ended result => exact groupOver_stopped hr
    | waiting rest' running' =>
      obtain ⟨more, rfl, hp⟩ := hr
      have hw : Watching w entries running' s'.log := hp.elim (·.watching) (·.1)
      rw [Prog.wp_bind]
      refine (stopOnSignal_spec hw).mono ?_
      rintro _ s'' ⟨b, rfl, hw', hb⟩
      rw [Prog.andThen_ok]
      cases b with
      | true => exact bind_wp (drain_spec fuel hw') fun _ t ht => ht
      | false =>
        obtain ⟨rfl, hrec⟩ := hb rfl
        -- no signal, so it was not for one that the inner loop was left
        have hg := hp.resolve_right fun hsig => by simp [← hrec] at hsig
        rw [← List.map_append] at hg
        refine pollRunning_spec fuel ⟨now ++ more, ?_, hg.noted hrec (by simp) rfl⟩
        exact (List.append_assoc now more rest').symm

theorem runGroup_spec (fuel : Nat) {ids : List RepoEntry} (hdue : ∀ e ∈ ids, Due entries done e)
    (h : Going w entries opts.dryRun done [] [] s.log) :
    (runGroup w opts fuel ids).Wp (Leaves w entries
      (GroupOver w entries opts.dryRun (done ++ ids.map RepoEntry.specId))) s := by
  refine loop_wp (GroupAt w entries opts.dryRun done ids) ?_ ?_ fuel (ids, []) ⟨[], rfl, h⟩
  · rintro b s ⟨now, -, h⟩
    exact h.orderly
  · intro b s hb
    exact groupRound_spec fuel hdue b hb

end

/-! ## The levels of a listing -/

section

variable {w : World} {entries : List RepoEntry} {opts : DeployOptions} {done : List String}
  {s : Run}

theorem listed_eq_byId {id : String} (hid : id ≠ "") : listed entries id = byId entries id := by
  rw [listed, byId, if_neg hid]

/-- The deployment acts on all the ids an order without problems is made of. -/
theorem pendingOf_specs (hk : Keyed entries) : ∀ {specs : List String},
    (∀ id ∈ specs, id ∈ runnableIds entries) →
    (pendingOf entries specs).map RepoEntry.specId = specs := by
  intro specs
  induction specs with
  | nil => intro _; rfl
  | cons id specs ih =>
    intro h
    obtain ⟨e, -, rfl, hr, hb⟩ := hk.byId_runnable (h id List.mem_cons_self)
    have hrest := ih fun i hi => h i (List.mem_cons_of_mem _ hi)
    have hlisted : listed entries e.specId = some e := by
      rw [listed_eq_byId (byId_some hb).2.2, hb]
    have hact : (decide (e.status = .pending) || decide (e.status = .failed)) = true := by
      cases hs : e.status <;> simp_all [RepoStatus.runnable]
    unfold pendingOf at hrest ⊢
    rw [List.filterMap_cons_some hlisted, List.filter_cons, if_pos hact, List.map_cons, hrest]

theorem Going.nothingTaken {dryRun : Bool} {more : List String} {log : List Event}
    (h : Going w entries dryRun done [] [] log) (hm : more = []) :
    Going w entries dryRun (done ++ more) [] [] log := by
  rwa [hm, List.append_nil]

/-- The groups of one level, whose entries are due once the levels before it are through. -/
theorem runGroups_spec (hk : Keyed entries) (fuel : Nat) : ∀ (groups : List Group)
    (done : List String) (s : Run), (∀ g ∈ groups, ∀ id ∈ g.specs, id ∈ runnableIds entries) →
    (∀ g ∈ groups, ∀ id ∈ g.specs, ∀ d ∈ dependsOn entries id, ∀ e', byId entries d = some e' →
      e'.status = .applied ∨ d ∈ done) →
    Going w entries opts.dryRun done [] [] s.log →
    (runGroups w opts fuel entries groups).Wp (Leaves w entries
      (GroupOver w entries opts.dryRun (done ++ groups.flatMap Group.specs))) s := by
  intro groups
  induction groups with
  | nil =>
    intro done s _ _ h
    rw [List.flatMap_nil, List.append_nil]
    exact h
  | cons g groups ih =>
    intro done s hrun hdue h
    have hspecs := pendingOf_specs hk (hrun g List.mem_cons_self)
    have hnext : ∀ s' : Run, Going w entries opts.dryRun (done ++ g.specs) [] [] s'.log →
        (runGroups w opts fuel entries groups).Wp (Leaves w entries
          (GroupOver w entries opts.dryRun (done ++ (g :: groups).flatMap Group.specs))) s' := by
      intro s' h'
      rw [List.flatMap_cons, ← List.append_assoc]
      refine ih _ s' (fun g' hg' => hrun g' (List.mem_cons_of_mem _ hg')) ?_ h'
      intro g' hg' id hid d hd e' he'
      exact (hdue g' (List.mem_cons_of_mem _ hg') id hid d hd e' he').imp_right
        (List.mem_append_left _)
    rw [runGroups]
    split
    · rename_i he
      rw [List.isEmpty_iff.mp he] at hspecs
      exact hnext s (h.nothingTaken hspecs.symm)
    · have hids : ∀ e ∈ pendingOf entries g.specs, Due entries done e := by
        intro e he d hd e' he'
        refine hdue g List.mem_cons_self e.specId ?_ d hd e' he'
        rw [← hspecs]
        exact List.mem_map_of_mem he
      refine bind_wp (runGroup_spec fuel hids h) fun r s' hr => ?_
      rw [hspecs] at hr
      split
      · rename_i hok
        rw [GroupOver, if_pos hok] at hr
        exact hnext s' hr
      · rename_i hok
        rw [GroupOver, if_neg hok] at hr
        exact groupOver_stopped ⟨hok, hr⟩

section

variable {views : List (String × View)} {l : Listing} {before levels : List Level} {level : Level}

theorem inOrder_runnable (hl : l.InOrder views) (hord : l.order = before ++ level :: levels) :
    ∀ g ∈ level.groups, ∀ id ∈ g.specs, id ∈ runnableIds l.migrations := by
  intro g hg id hid
  refine hl.perm.subset (List.mem_flatMap.mpr ⟨level, by simp [hord], ?_⟩)
  exact List.mem_flatMap.mpr ⟨g, hg, hid⟩

/-- The entries of a level are due once the levels before it are through. -/
theorem inOrder_due (hk : Keyed l.migrations) (hl : l.InOrder views)
    (hord : l.order = before ++ level :: levels) :
    ∀ g ∈ level.groups, ∀ id ∈ g.specs, ∀ d ∈ dependsOn l.migrations id, ∀ e',
      byId l.migrations d = some e' →
      e'.status = .applied ∨ d ∈ before.flatMap Level.specs := by
  intro g hg id hid d hd e' he'
  have hlevel : l.order[before.length]? = some level := by simp [hord]
  have hid : id ∈ level.specs := List.mem_flatMap.mpr ⟨g, hg, hid⟩
  rcases hl.deps before.length level hlevel id hid d hd with h | h | h
  · obtain ⟨e, he, rfl, happ⟩ := h
    rw [hk.byId_eq he (byId_some he').2.2] at he'
    cases he'
    exact .inl happ
  · rw [h.1] at he'
    cases he'
  · obtain ⟨j, hj, lv, hlv, hd⟩ := h
    rw [hord, List.getElem?_append_left hj] at hlv
    exact .inr (List.mem_flatMap.mpr ⟨lv, List.mem_of_getElem? hlv, hd⟩)

end

/-- Level after level, of an order in which a dependency comes in an earlier level. -/
theorem runLevels_spec {views : List (String × View)} {l : Listing} (hk : Keyed l.migrations)
    (hl : l.InOrder views) (fuel : Nat) : ∀ (levels before : List Level) (s : Run),
      l.order = before ++ levels →
      Going w l.migrations opts.dryRun (before.flatMap Level.specs) [] [] s.log →
      (runLevels w opts fuel l.migrations levels).Wp (Leaves w l.migrations fun _ s' =>
        Watching w l.migrations [] s'.log) s := by
  intro levels
  induction levels with
  | nil =>
    intro before s _ h
    exact h.watching
  | cons level levels ih =>
    intro before s hord h
    rw [runLevels]
    refine bind_wp (runGroups_spec hk fuel level.groups _ s (inOrder_runnable hl hord)
      (inOrder_due hk hl hord) h) fun r s' hr => ?_
    split
    · rename_i hok
      rw [GroupOver, if_pos hok] at hr
      refine ih (before ++ [level]) s' (by rw [hord, List.append_assoc]; rfl) ?_
      rw [List.flatMap_append, List.flatMap_singleton]
      exact hr
    · rename_i hok
      rw [GroupOver, if_neg hok] at hr
      exact hr

/-! ## The deployment -/

/-- A rehearsal starts nothing. -/
theorem chainLoop_spec : ∀ (rest : List RepoEntry) (c : Chain) (s : Run),
    Watching w entries [] s.log →
    (chainLoop w c rest).Wp (Leaves w entries fun _ s' => Watching w entries [] s'.log) s := by
  intro rest
  induction rest with
  | nil =>
    intro c s h
    exact h
  | cons e rest ih =>
    intro c s h
    rw [chainLoop]
    split
    · exact ih _ s h
    · rw [Prog.wp_bind]
      refine ask_wp fun ok _ => ?_
      rw [Prog.andThen_ok]
      have h := h.noted (e := .read e.specId ok) trivial (by simp)
      cases ok with
      | false => exact h
      | true =>
        rw [if_pos rfl, Prog.wp_bind]
        have hcall : ∀ o, Watching w entries [] (.rehearsed e.specId o :: (s.note _).log) :=
          fun o => h.noted trivial (by simp)
        refine call_wp (fun outcome => ?_) (hcall none).orderly
        exact ih _ _ (hcall (some outcome))

theorem going_start : Going w entries opts.dryRun [] [] [] [] where
  orderly := along_nil
  started p hp := by cases hp
  accounted id job hs := by cases hs
  quiet e he := by cases he
  through _ id hid := by cases hid
  begun _ id hid := by cases hid
  dry _ := rfl

end

/-- Whatever the world answers: a start comes after each dependency the listing has is applied or
has been seen to succeed in this run, and before anything is seen that stops the deployment; and
where the run returns, every job it started has been seen to end. -/
theorem run_orderly (w : World) (opts : DeployOptions) (fuel rounds : Nat)
    (views : List (String × View)) (entries : List RepoEntry) (problems notes : List String)
    (l : Listing) (hk : Keyed entries)
    (hl : assemble rounds views entries problems notes = some l) :
    (run w opts fuel (some l)).Wp (fun o s => Orderly w entries s.log ∧
      ∀ result, o = .ok result → AllEnded s.log) {} := by
  have hstart : Going w entries opts.dryRun [] [] [] [] := going_start
  have hspec : (run w opts fuel (some l)).Wp (Leaves w entries fun _ s =>
      Watching w entries [] s.log) {} := by
    rw [assemble, Option.map_eq_some_iff] at hl
    obtain ⟨r, hr, rfl⟩ := hl
    rw [run]
    split
    · exact hstart.watching
    split
    · exact hstart.watching
    split
    · exact hstart.watching
    split
    · exact chainLoop_spec _ _ _ hstart.watching
    · rename_i hp _ _ _
      have hinorder := listingOf_inOrder hk hr (by simpa using hp)
      exact runLevels_spec hk hinorder fuel _ [] {} rfl hstart
  refine hspec.mono fun o s h => ?_
  cases o with
  | ok result =>
    refine ⟨h.orderly, fun _ _ id job hs => ?_⟩
    exact (h.accounted id job hs).resolve_left (by simp)
  | err _ => exact ⟨h, by simp⟩
  | out => exact ⟨h, by simp⟩

/-- Two levels, in a world where a job is seen running once and then has succeeded. -/
theorem run_orderly_twoLevels :
    let w : World :=
      { signal := none
        readable := fun _ _ => true
        planned := fun _ _ => some true
        started := fun _ e => some (.accepted ("job-" ++ e.specId))
        rehearsed := fun _ _ => some .rehearsed
        state := fun tick _ => some (if tick % 2 = 1 then .running else .succeeded) }
    let entries : List RepoEntry :=
      [{ specId := "0002", status := .failed, dependsOn := ["0001"] }, { specId := "0001" }]
    Keyed entries ∧ ∃ l, assemble 2 [] entries [] [] = some l ∧
      (run w {} 9 (some l) {}).1 = .ok .ok ∧
      Orderly w entries (run w {} 9 (some l) {}).2.log ∧
      AllEnded (run w {} 9 (some l) {}).2.log ∧
      Event.started "0001" "job-0001" ∈ (run w {} 9 (some l) {}).2.log ∧
      Event.started "0002" "job-0002" ∈ (run w {} 9 (some l) {}).2.log := by
  intro w entries
  have hk : Keyed entries := ⟨by decide, by decide⟩
  have hrun : (assemble 2 [] entries [] []).map (fun l =>
      ((run w {} 9 (some l) {}).1,
        decide (Event.started "0001" "job-0001" ∈ (run w {} 9 (some l) {}).2.log),
        decide (Event.started "0002" "job-0002" ∈ (run w {} 9 (some l) {}).2.log))) =
      some (.ok .ok, true, true) := by
    decide +kernel
  rw [Option.map_eq_some_iff] at hrun
  obtain ⟨l, hl, hrun⟩ := hrun
  simp only [Prod.mk.injEq, decide_eq_true_eq] at hrun
  obtain ⟨horderly, hended⟩ := run_orderly w {} 9 2 [] entries [] [] l hk hl
  exact ⟨hk, l, hl, hrun.1, horderly, hended _ hrun.1, hrun.2⟩

/-! ## What is not seen -/

/-- Nothing is started once a job has ended otherwise than `succeeded`, whether seen or not. -/
def NoStartAfterFailure (w : World) : List Event → Prop :=
  Along fun e earlier => ∀ id job, e = .started id job →
    ∀ later id' job' before, earlier = later ++ .started id' job' :: before →
      ∀ tick, before.length < tick → tick ≤ earlier.length →
        ended (w.state tick job') = true → w.state tick job' = some .succeeded

/-- Nothing is started once a signal has come, whether seen or not. -/
def NoStartAfterSignal (w : World) : List Event → Prop :=
  Along fun e earlier => ∀ id job, e = .started id job → w.received earlier.length = false

/-- One level, one group, and room for two: `a` is seen to succeed and `b` to run; then `b` fails,
and while the file of `c` is read a signal comes; `c` is started. -/
theorem run_starts_unaware :
    let w : World :=
      { signal := some 11
        readable := fun _ _ => true
        planned := fun _ _ => some true
        started := fun _ e => some (.accepted ("job-" ++ e.specId))
        rehearsed := fun _ _ => some .rehearsed
        state := fun tick job =>
          some (if job = "job-b" then if tick < 10 then .running else .failed else .succeeded) }
    let entries : List RepoEntry := [{ specId := "a" }, { specId := "b" }, { specId := "c" }]
    ∃ l, assemble 3 [] entries [] [] = some l ∧ l.problems = [] ∧
      ¬ NoStartAfterFailure w (run w {} 9 (some l) {}).2.log ∧
      ¬ NoStartAfterSignal w (run w {} 9 (some l) {}).2.log := by
  intro w entries
  let before : List Event := [.read "b" true, .signal false, .started "a" "job-a",
    .read "a" true, .signal false]
  let between : List Event := [.read "c" true, .signal false, .seen "b" "job-b" (some .running),
    .seen "a" "job-a" (some .succeeded), .slept, .signal false]
  let later : List Event := [.seen "c" "job-c" (some .succeeded),
    .seen "b" "job-b" (some .failed), .slept, .signal true, .askedToStop, .signal true]
  have hrun : (assemble 3 [] entries [] []).map (fun l =>
      (l.problems, (run w {} 9 (some l) {}).2.log)) =
      some ([], later ++ .started "c" "job-c" :: (between ++ .started "b" "job-b" :: before)) := by
    decide +kernel
  rw [Option.map_eq_some_iff] at hrun
  obtain ⟨l, hl, hrun⟩ := hrun
  rw [Prod.mk.injEq] at hrun
  refine ⟨l, hl, hrun.1, fun h => ?_, fun h => ?_⟩
  · have hb := h _ _ _ hrun.2 "c" "job-c" rfl between "b" "job-b" before rfl 10 (by decide)
      (by decide) rfl
    cases hb
  · have hs := h _ _ _ hrun.2 "c" "job-c" rfl
    cases hs

end Deploy
end Laswell
