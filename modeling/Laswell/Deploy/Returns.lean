import Mathlib
import Laswell.Deploy.Deployment

/-!
# Laswell.Deploy.Returns

A deployment comes to an end where its jobs do: if no tool throws, every job has ended by some
tick, and the cap lets at least one job run, then `run` returns, whatever the answers are and
whenever a signal comes.

What goes down from round to round is the number of entries still to come, and where that stays
the `weight` of the jobs that are running: how long each may still take, and one.
-/

namespace Laswell
namespace Deploy

open Base Jobs Repository
open Base.Prog (Ends ends_of_eq ends_pure ends_bind ends_loop)

section

variable {w : World} {s : Run}

theorem ask_ends {α : Type} {answer : Nat → α} {event : α → Event} {Q : α → Run → Prop}
    (h : Q (answer s.log.length) (s.note (event (answer s.log.length)))) :
    Ends (fun _ => ask answer event) Q s := ends_of_eq rfl h

theorem call_ends {α : Type} {answer : Nat → Option α} {event : Option α → Event}
    {Q : α → Run → Prop} (hsome : (answer s.log.length).isSome)
    (h : ∀ a, Q a (s.note (event (some a)))) : Ends (fun _ => call answer event) Q s := by
  obtain ⟨a, ha⟩ := Option.isSome_iff_exists.1 hsome
  have hask : ask answer event s = (.ok (some a), s.note (event (some a))) := by rw [ask, ha]
  refine ends_of_eq ?_ (h a)
  simp only [call, Bind.bind, Prog.bind, hask]
  rfl

theorem stopOnSignal_ends :
    Ends (fun _ => stopOnSignal w) (fun b s' => b = w.received s.log.length ∧
      s.log.length ≤ s'.log.length) s := by
  refine ends_bind (ask_ends ?_)
  cases hb : w.received s.log.length with
  | false => exact ends_pure ⟨rfl, by simp [Run.note]⟩
  | true =>
    refine ends_bind (ends_of_eq rfl ?_)
    split
    · exact ends_pure ⟨rfl, by simp [Run.note]⟩
    · exact ends_bind (ends_of_eq rfl (ends_pure ⟨rfl, by simp [Run.note]; omega⟩))

end

/-! ## The jobs that are running -/

section

variable {w : World} {endsAt : String → Nat}

def weight (endsAt : String → Nat) (tick : Nat) (running : Running) : Nat :=
  (running.map fun p => endsAt p.2 - tick + 1).sum

theorem weight_cons (tick : Nat) (p : String × String) (running : Running) :
    weight endsAt tick (p :: running) = endsAt p.2 - tick + 1 + weight endsAt tick running := by
  simp [weight]

theorem weight_le {m n : Nat} (h : m ≤ n) (running : Running) :
    weight endsAt n running ≤ weight endsAt m running := by
  induction running with
  | nil => simp [weight]
  | cons p running ih =>
    simp only [weight_cons]
    omega

/-- After a round over `rest`: each job of it has ended, or has less time left. -/
def Lighter (endsAt : String → Nat) (kept rest : Running) (s : Run) (running : Running)
    (s' : Run) : Prop :=
  s.log.length + rest.length ≤ s'.log.length ∧ ∃ left, running = kept ++ left ∧
    weight endsAt s'.log.length left + rest.length ≤ weight endsAt s.log.length rest

theorem lighter_nil {kept : Running} {s : Run} : Lighter endsAt kept [] s kept s :=
  ⟨by simp, [], by simp, by simp [weight]⟩

theorem Lighter.ended {kept rest running : Running} {p : String × String} {s s' : Run} {e : Event}
    (h : Lighter endsAt kept rest (s.note e) running s') :
    Lighter endsAt kept (p :: rest) s running s' := by
  obtain ⟨hlen, left, rfl, hw⟩ := h
  have hle : weight endsAt (s.log.length + 1) rest ≤ weight endsAt s.log.length rest :=
    weight_le (by omega) rest
  simp only [Run.note, List.length_cons] at hlen hw
  refine ⟨by simp only [List.length_cons]; omega, left, rfl, ?_⟩
  simp only [weight_cons, List.length_cons]
  omega

theorem Lighter.kept {kept rest running : Running} {p : String × String} {s s' : Run} {e : Event}
    (hp : s.log.length < endsAt p.2)
    (h : Lighter endsAt (kept ++ [p]) rest (s.note e) running s') :
    Lighter endsAt kept (p :: rest) s running s' := by
  obtain ⟨hlen, left, rfl, hw⟩ := h
  have hle : weight endsAt (s.log.length + 1) rest ≤ weight endsAt s.log.length rest :=
    weight_le (by omega) rest
  simp only [Run.note, List.length_cons] at hlen hw
  refine ⟨by simp only [List.length_cons]; omega, p :: left, by simp, ?_⟩
  simp only [weight_cons, List.length_cons]
  omega

/-- A round over all that is running makes it lighter. -/
theorem Lighter.weight_lt {running running' : Running} {s s₁ s' : Run}
    (h : Lighter endsAt [] running s₁ running' s') (hle : s.log.length ≤ s₁.log.length)
    (hne : running ≠ []) :
    weight endsAt s'.log.length running' < weight endsAt s.log.length running := by
  obtain ⟨-, left, hleft, hw⟩ := h
  rw [List.nil_append] at hleft
  subst hleft
  have hpos := List.length_pos_iff.mpr hne
  have hmono : weight endsAt s₁.log.length running ≤ weight endsAt s.log.length running :=
    weight_le hle running
  omega

variable (hends : ∀ job tick, endsAt job ≤ tick → ended (w.state tick job) = true)

include hends

theorem lt_endsAt {job : String} {tick : Nat} (h : ended (w.state tick job) ≠ true) :
    tick < endsAt job :=
  Nat.lt_of_not_le fun hle => h (hends job tick hle)

theorem drainRound_ends : ∀ (rest kept : Running) (s : Run),
    Ends (fun _ => drainRound w kept rest) (Lighter endsAt kept rest s) s := by
  intro rest
  induction rest with
  | nil =>
    intro kept s
    exact ends_pure lighter_nil
  | cons p rest ih =>
    intro kept s
    refine ends_bind (ask_ends ?_)
    split
    · exact (ih kept _).mono fun _ _ h => h.ended
    · exact (ih (kept ++ [p]) _).mono fun _ _ h => h.kept (lt_endsAt hends ‹_›)

theorem drain_ends (running : Running) (s : Run) :
    Ends (fun fuel => drain w fuel running) (fun _ _ => True) s := by
  refine ends_loop (fun _ _ => True) Nat.lt_wfRel.wf
    (fun running s => weight endsAt s.log.length running) ?_ trivial
  intro running s _
  split
  · exact ends_pure trivial
  · rename_i hne
    refine ends_bind (stopOnSignal_ends.mono ?_)
    rintro _ s₁ ⟨-, hlen⟩
    refine ends_bind (ask_ends (ends_bind ((drainRound_ends hends running [] _).mono ?_)))
    intro running' s' hlighter
    refine ends_pure ⟨trivial, ?_⟩
    exact hlighter.weight_lt (Nat.le_succ_of_le hlen) (mt List.isEmpty_iff.mpr hne)

theorem poll_ends : ∀ (rest kept : Running) (s : Run),
    Ends (fun fuel => poll w fuel kept rest)
      (fun r s' => r.elim (Lighter endsAt kept rest s · s') fun _ => True) s := by
  intro rest
  induction rest with
  | nil =>
    intro kept s
    exact ends_pure lighter_nil
  | cons p rest ih =>
    intro kept s
    refine ends_bind (ask_ends ?_)
    split
    · split
      · refine (ih kept _).mono fun r s' h => ?_
        cases r with
        | inl running => exact h.ended
        | inr result => trivial
      · exact ends_bind ((drain_ends hends _ _).mono fun _ _ _ => ends_pure trivial)
    · rename_i hp
      refine (ih (kept ++ [p]) _).mono fun r s' h => ?_
      cases r with
      | inl running => exact h.kept (lt_endsAt hends hp)
      | inr result => trivial

end

/-! ## Groups -/

/-- No tool throws, and every job has ended by some tick. -/
structure World.Obliging (w : World) : Prop where
  planned : ∀ tick e, (w.planned tick e).isSome
  started : ∀ tick e, (w.started tick e).isSome
  rehearsed : ∀ tick e, (w.rehearsed tick e).isSome
  ends : ∀ job, ∃ last, ∀ tick, last ≤ tick → ended (w.state tick job) = true

section

variable {w : World} {opts : DeployOptions} {endsAt : String → Nat}

/-- After the inner loop: some entry was taken, or the loop was left as it was, and why. -/
def Moved (w : World) (opts : DeployOptions) (ids : List RepoEntry) (running : Running) (s : Run) :
    Filled → Run → Prop
  | .ended _, _ => True
  | .waiting ids' running', s' => ids'.length < ids.length ∨ ids' = ids ∧ running' = running ∧
      s.log.length ≤ s'.log.length ∧
      (ids = [] ∨ opts.cap ≤ running.length ∨ w.received s'.log.length = true)

theorem Moved.of_tail {e : RepoEntry} {ids : List RepoEntry} {running running' : Running}
    {s s₁ s' : Run} {r : Filled} (h : Moved w opts ids running' s₁ r s') :
    Moved w opts (e :: ids) running s r s' := by
  cases r with
  | ended result => trivial
  | waiting ids' running'' =>
    rcases h with h | ⟨rfl, -⟩
    · exact .inl (Nat.lt_succ_of_lt h)
    · exact .inl (Nat.lt_succ_self _)

variable (hw : w.Obliging)
  (hends : ∀ job tick, endsAt job ≤ tick → ended (w.state tick job) = true)

include hw hends

theorem startWhileRoom_ends : ∀ (ids : List RepoEntry) (running : Running) (s : Run),
    Ends (fun fuel => startWhileRoom w opts fuel ids running) (Moved w opts ids running s) s := by
  intro ids
  induction ids with
  | nil =>
    intro running s
    exact ends_pure (.inr ⟨rfl, rfl, Nat.le_refl _, .inl rfl⟩)
  | cons e ids ih =>
    intro running s
    simp only [startWhileRoom]
    split
    · exact ends_pure (.inr ⟨rfl, rfl, Nat.le_refl _, .inr (.inl ‹_›)⟩)
    refine ends_bind (ask_ends ?_)
    split
    · rename_i hsig
      refine ends_pure (.inr ⟨rfl, rfl, Nat.le_succ _, .inr (.inr ?_)⟩)
      exact World.received_mono hsig (Nat.le_succ _)
    refine ends_bind (ask_ends ?_)
    split
    · split
      · refine ends_bind (call_ends (hw.planned _ e) fun ok => ?_)
        split
        · exact (ih running _).mono fun _ _ h => h.of_tail
        · exact ends_pure trivial
      · refine ends_bind (call_ends (hw.started _ e) fun answer => ?_)
        cases answer with
        | accepted job => exact (ih _ _).mono fun _ _ h => h.of_tail
        | refused => exact ends_bind ((drain_ends hends _ _).mono fun _ _ _ => ends_pure trivial)
    · exact ends_bind ((drain_ends hends _ _).mono fun _ _ _ => ends_pure trivial)

omit hw in
/-- The jobs that are running are waited for, and are fewer afterwards or have less time left. -/
theorem pollRunning_ends (rest : List RepoEntry) (running : Running) (s : Run) :
    Ends (fun fuel => (if running.isEmpty then pure (.inl (rest, running))
      else do
        sleep
        match ← poll w fuel [] running with
        | .inl running => pure (.inl (rest, running))
        | .inr result => pure (.inr result) :
      Deploying ((List RepoEntry × Running) ⊕ DeployResult))) (fun x s' =>
      x.elim (fun b => b.1 = rest ∧
        (running ≠ [] → weight endsAt s'.log.length b.2 < weight endsAt s.log.length running))
        fun _ => True) s := by
  split
  · rename_i hempty
    exact ends_pure ⟨rfl, fun hne => absurd (List.isEmpty_iff.mp hempty) hne⟩
  · refine ends_bind (ask_ends (ends_bind ((poll_ends hends running [] _).mono fun r s' hr => ?_)))
    cases r with
    | inr result => exact ends_pure trivial
    | inl running' =>
      exact ends_pure ⟨rfl, fun hne => hr.weight_lt (Nat.le_succ s.log.length) hne⟩

/-- One round of a group: an entry fewer to come, or as many and less to wait for. -/
theorem groupRound_ends (hcap : 0 < opts.cap) (ids : List RepoEntry) (running : Running)
    (s : Run) : Ends (fun fuel => groupRound w opts fuel (ids, running)) (fun x s' =>
      x.elim (fun b => Prod.Lex (· < ·) (· < ·) (b.1.length, weight endsAt s'.log.length b.2)
        (ids.length, weight endsAt s.log.length running)) fun _ => True) s := by
  simp only [groupRound]
  split
  · exact ends_pure trivial
  rename_i hsome
  refine ends_bind ((startWhileRoom_ends hw hends ids running s).mono fun r s₁ hr => ?_)
  cases r with
  | ended result => exact ends_pure trivial
  | waiting ids' running' =>
    refine ends_bind (stopOnSignal_ends.mono ?_)
    rintro stop s₂ ⟨hstop, hlen⟩
    cases stop with
    | true => exact ends_bind ((drain_ends hends _ _).mono fun _ _ _ => ends_pure trivial)
    | false =>
      refine (pollRunning_ends hends ids' running' s₂).mono fun x s' hx => ?_
      cases x with
      | inr result => trivial
      | inl b =>
        obtain ⟨hids, hlighter⟩ := hx
        rcases hr with hlt | ⟨rfl, rfl, hlen', hwhy⟩
        · exact Prod.Lex.left _ _ (by rw [hids]; exact hlt)
        · -- nothing was taken, so that there was no room: something is running
          have hne : running' ≠ [] := by
            rintro rfl
            rcases hwhy with hnone | hfull | hsig
            · simp [hnone] at hsome
            · simp only [List.length_nil] at hfull
              omega
            · rw [hsig] at hstop
              cases hstop
          have hle : weight endsAt s₂.log.length running' ≤ weight endsAt s.log.length running' :=
            weight_le (by omega) running'
          have hless := hlighter hne
          simp only [Sum.elim_inl, hids]
          exact Prod.Lex.right _ (by omega)

theorem runGroup_ends (hcap : 0 < opts.cap) (ids : List RepoEntry) (s : Run) :
    Ends (fun fuel => runGroup w opts fuel ids) (fun _ _ => True) s := by
  refine ends_loop (fun _ _ => True)
    (WellFounded.prod_lex Nat.lt_wfRel.wf Nat.lt_wfRel.wf)
    (fun (b : List RepoEntry × Running) s => (b.1.length, weight endsAt s.log.length b.2))
    ?_ trivial
  rintro ⟨ids, running⟩ s -
  refine (groupRound_ends hw hends hcap ids running s).mono fun x s' hx => ?_
  cases x with
  | inl b => exact ⟨trivial, hx⟩
  | inr result => trivial

/-! ## The deployment -/

theorem runGroups_ends (hcap : 0 < opts.cap) (migrations : List RepoEntry) :
    ∀ (groups : List Group) (s : Run),
      Ends (fun fuel => runGroups w opts fuel migrations groups) (fun _ _ => True) s := by
  intro groups
  induction groups with
  | nil =>
    intro s
    exact ends_pure trivial
  | cons g groups ih =>
    intro s
    simp only [runGroups]
    split
    · exact ih s
    · refine ends_bind ((runGroup_ends hw hends hcap _ s).mono fun r s' _ => ?_)
      split
      · exact ih s'
      · exact ends_pure trivial

theorem runLevels_ends (hcap : 0 < opts.cap) (migrations : List RepoEntry) :
    ∀ (levels : List Level) (s : Run),
      Ends (fun fuel => runLevels w opts fuel migrations levels) (fun _ _ => True) s := by
  intro levels
  induction levels with
  | nil =>
    intro s
    exact ends_pure trivial
  | cons level levels ih =>
    intro s
    refine ends_bind ((runGroups_ends hw hends hcap migrations _ s).mono fun r s' _ => ?_)
    split
    · exact ih s'
    · exact ends_pure trivial

omit hends in
theorem chainLoop_ends : ∀ (rest : List RepoEntry) (c : Chain) (s : Run),
    Ends (fun _ => chainLoop w c rest) (fun _ _ => True) s := by
  intro rest
  induction rest with
  | nil =>
    intro c s
    exact ends_pure trivial
  | cons e rest ih =>
    intro c s
    simp only [chainLoop]
    split
    · exact ih _ s
    refine ends_bind (ask_ends ?_)
    split
    · exact ends_bind (call_ends (hw.rehearsed _ e) fun outcome => ih _ _)
    · exact ends_pure trivial

end

/-- A deployment returns, given a world that lets it, for every listing. -/
theorem run_returns {w : World} (hw : w.Obliging) {opts : DeployOptions} (hcap : 0 < opts.cap)
    (listing : Option Listing) (s : Run) :
    ∃ result s' enough, ∀ fuel, enough ≤ fuel →
      run w opts fuel listing s = (.ok result, s') := by
  choose endsAt hends using hw.ends
  have hrun : Ends (fun fuel => run w opts fuel listing) (fun _ _ => True) s := by
    cases listing with
    | none => exact ends_pure trivial
    | some l =>
      simp only [run]
      split
      · exact ends_pure trivial
      split
      · exact ends_pure trivial
      split
      · exact ends_pure trivial
      split
      · exact chainLoop_ends hw _ _ s
      · exact runLevels_ends hw hends hcap _ _ s
  obtain ⟨result, s', enough, h, -⟩ := hrun
  exact ⟨result, s', enough, h⟩

end Deploy
end Laswell
