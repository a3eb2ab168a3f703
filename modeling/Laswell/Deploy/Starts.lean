import Laswell.Deploy.Order

/-!
# Laswell.Deploy.Starts

Which migrations a deployment starts: the runnable ones of the listing from the front, in the order
of the listing, each once at most, and all of them where it says `ok`.

* `Begun`: of some entries the first ones have been started, and no others.
* `run_starts`: so it is of a whole deployment, whatever the world answers.
* `run_applies_once`: the same of the listing that is assembled.
-/

namespace Laswell
namespace Deploy

open Base Jobs Repository

/-- The ids that have been started, the first one first. -/
def startedIds : List Event → List String
  | [] => []
  | .started id _ :: log => startedIds log ++ [id]
  | _ :: log => startedIds log

theorem startedIds_noted {e : Event} (h : ∀ id job, e ≠ .started id job) (log : List Event) :
    startedIds (e :: log) = startedIds log := by
  cases e with
  | started id job => exact absurd rfl (h id job)
  | _ => rfl

/-! ## What starts nothing -/

section Quiet

variable {w : World} {ids : List String}

abbrev HasStarted (ids : List String) (s : Run) : Prop := startedIds s.log = ids

theorem ask_quiet {α : Type} {answer : Nat → α} {event : α → Event}
    (h : ∀ a id job, event a ≠ .started id job) :
    Prog.Keeps (HasStarted ids) (ask answer event) := by
  intro s hs
  exact (startedIds_noted (h _) _).trans hs

theorem call_quiet {α : Type} {answer : Nat → Option α} {event : Option α → Event}
    (h : ∀ a id job, event a ≠ .started id job) :
    Prog.Keeps (HasStarted ids) (call answer event) := by
  refine Prog.keeps_bind (ask_quiet h) fun a => ?_
  cases a with
  | none => exact Prog.keeps_throw
  | some a => exact Prog.keeps_pure

theorem stopOnSignal_quiet : Prog.Keeps (HasStarted ids) (stopOnSignal w) := by
  refine Prog.keeps_bind (ask_quiet (by simp)) fun b => ?_
  refine Prog.keeps_ite (fun _ => ?_) fun _ => Prog.keeps_pure
  refine Prog.keeps_bind Prog.keeps_gets fun said => ?_
  refine Prog.keeps_ite (fun _ => Prog.keeps_pure) fun _ => ?_
  exact Prog.keeps_bind (Prog.keeps_modify fun _ hs => hs) fun _ => Prog.keeps_pure

theorem drainRound_quiet : ∀ rest kept, Prog.Keeps (HasStarted ids) (drainRound w kept rest) := by
  intro rest
  induction rest with
  | nil => exact fun kept => Prog.keeps_pure
  | cons p rest ih =>
    intro kept
    refine Prog.keeps_bind (ask_quiet (by simp)) fun state => ?_
    exact Prog.keeps_ite (fun _ => ih kept) fun _ => ih _

theorem drain_quiet (fuel : Nat) (running : Running) :
    Prog.Keeps (HasStarted ids) (drain w fuel running) := by
  refine Prog.keeps_loop (fun running => ?_) fuel running
  refine Prog.keeps_ite (fun _ => Prog.keeps_pure) fun _ => ?_
  refine Prog.keeps_bind stopOnSignal_quiet fun _ => ?_
  refine Prog.keeps_bind (ask_quiet (by simp)) fun _ => ?_
  exact Prog.keeps_bind (drainRound_quiet running []) fun _ => Prog.keeps_pure

theorem poll_quiet (fuel : Nat) : ∀ (rest kept : Running) (s : Run), HasStarted ids s →
    (poll w fuel kept rest).Wp (fun o s' => HasStarted ids s' ∧
      ∀ result, o = .ok (.inr result) → result ≠ .ok) s := by
  intro rest
  induction rest with
  | nil =>
    intro kept s h
    rw [poll]
    exact ⟨h, by rintro _ ⟨⟩⟩
  | cons p rest ih =>
    intro kept s h
    rw [poll, Prog.wp_bind]
    refine ask_wp fun state _ => ?_
    rw [Prog.andThen_ok]
    have h : HasStarted ids (s.note (.seen p.1 p.2 state)) :=
      (startedIds_noted (by simp) _).trans h
    split
    · split
      · exact ih kept _ h
      · rw [Prog.wp_bind]
        refine ((drain_quiet fuel (kept ++ rest)).wp h).mono fun o s' hs => ?_
        cases o with
        | ok a => exact ⟨hs, by rintro _ ⟨⟩; decide⟩
        | err _ => exact ⟨hs, by simp⟩
        | out => exact ⟨hs, by simp⟩
    · exact ih _ _ h

theorem chainLoop_quiet : ∀ rest c, Prog.Keeps (HasStarted ids) (chainLoop w c rest) := by
  intro rest
  induction rest with
  | nil => exact fun c => Prog.keeps_pure
  | cons e rest ih =>
    intro c
    refine Prog.keeps_ite (fun _ => ih _) fun _ => ?_
    refine Prog.keeps_bind (ask_quiet (by simp)) fun ok => ?_
    refine Prog.keeps_ite (fun _ => ?_) fun _ => Prog.keeps_pure
    exact Prog.keeps_bind (call_quiet (by simp)) fun _ => ih _

end Quiet

/-! ## Groups -/

section Groups

variable {w : World} {opts : DeployOptions} {before : List String} {s : Run}

/-- What entries that were taken add to the ids started. A dry run starts nothing. -/
def startable (opts : DeployOptions) (ids : List RepoEntry) : List String :=
  if opts.dryRun then [] else ids.map RepoEntry.specId

@[simp] theorem startable_nil : startable opts [] = [] := by simp [startable]

theorem startable_append (as bs : List RepoEntry) :
    startable opts (as ++ bs) = startable opts as ++ startable opts bs := by
  unfold startable
  split <;> simp

/-- Of the entries, those before `rest` have been taken. -/
def Begun (opts : DeployOptions) (before : List String) (ids rest : List RepoEntry) (s : Run) :
    Prop :=
  ∃ now, ids = now ++ rest ∧ HasStarted (before ++ startable opts now) s

theorem Begun.nothing (h : HasStarted before s) (ids : List RepoEntry) :
    Begun opts before ids ids s := ⟨[], rfl, by simpa using h⟩

theorem Begun.append {now ids rest : List RepoEntry}
    (h : Begun opts (before ++ startable opts now) ids rest s) :
    Begun opts before (now ++ ids) rest s := by
  obtain ⟨more, rfl, hs⟩ := h
  refine ⟨now ++ more, (List.append_assoc ..).symm, ?_⟩
  rwa [List.append_assoc, ← startable_append] at hs

/-- How a program leaves the entries it was to take. -/
def Taken {α : Type} (opts : DeployOptions) (before : List String) (ids : List RepoEntry)
    (Q : α → List RepoEntry → Prop) (o : Outcome Unit α) (s : Run) : Prop :=
  ∃ rest, Begun opts before ids rest s ∧ ∀ a, o = .ok a → Q a rest

theorem Taken.append {α : Type} {now ids : List RepoEntry} {Q : α → List RepoEntry → Prop}
    {o : Outcome Unit α} (h : Taken opts (before ++ startable opts now) ids Q o s) :
    Taken opts before (now ++ ids) Q o s := by
  obtain ⟨rest, hb, hq⟩ := h
  exact ⟨rest, hb.append, hq⟩

/-- After something that starts nothing, and may throw or be cut short. -/
theorem bind_taken {α β : Type} {p : Deploying α} {f : α → Deploying β} {ids : List RepoEntry}
    {Q : β → List RepoEntry → Prop} (hp : Prog.Keeps (HasStarted before) p)
    (h : HasStarted before s)
    (hf : ∀ a s', HasStarted before s' → (f a).Wp (Taken opts before ids Q) s') :
    (p >>= f).Wp (Taken opts before ids Q) s := by
  rw [Prog.wp_bind]
  refine (hp.wp h).mono fun o s' hs => ?_
  cases o with
  | ok a => exact hf a s' hs
  | err _ => exact ⟨ids, .nothing hs ids, by simp⟩
  | out => exact ⟨ids, .nothing hs ids, by simp⟩

theorem pure_taken {α : Type} {a : α} {ids : List RepoEntry} {Q : α → List RepoEntry → Prop}
    (h : HasStarted before s) (hq : Q a ids) :
    (pure a : Deploying α).Wp (Taken opts before ids Q) s :=
  ⟨ids, .nothing h ids, by rintro _ ⟨⟩; exact hq⟩

def FilledWith : Filled → List RepoEntry → Prop
  | .waiting ids _, rest => ids = rest
  | .ended result, _ => result ≠ .ok

/-- The start of one entry, and what follows it. -/
theorem startOne_taken (fuel : Nat) {e : RepoEntry} {ids : List RepoEntry} {running : Running}
    {next : Running → Deploying Filled} (hdry : opts.dryRun = false) (h : HasStarted before s)
    (hnext : ∀ running' s', HasStarted (before ++ startable opts [e]) s' →
      (next running').Wp (Taken opts before (e :: ids) FilledWith) s') :
    (do
      match ← startMigration w e with
      | .accepted job => next (running ++ [(e.specId, job)])
      | .refused => do
        drain w fuel running
        pure (.ended .refused) : Deploying Filled).Wp
      (Taken opts before (e :: ids) FilledWith) s := by
  have hnot : HasStarted before (s.note (.notStarted e.specId)) :=
    (startedIds_noted (by simp) _).trans h
  rw [Prog.wp_bind]
  refine call_wp (fun answer => ?_) ⟨e :: ids, .nothing hnot _, by simp⟩
  rw [Prog.andThen_ok]
  cases answer with
  | accepted job =>
    refine hnext _ _ ?_
    simp only [HasStarted, Run.note, startEvent, startedIds, startable, hdry, Bool.false_eq_true,
      if_false, List.map_cons, List.map_nil]
    rw [h]
  | refused =>
    exact bind_taken (drain_quiet fuel running) hnot fun _ s' hs =>
      pure_taken hs (by simp [FilledWith])

theorem startWhileRoom_taken (fuel : Nat) : ∀ (ids : List RepoEntry) (before : List String)
    (running : Running) (s : Run), HasStarted before s →
    (startWhileRoom w opts fuel ids running).Wp (Taken opts before ids FilledWith) s := by
  intro ids
  induction ids with
  | nil => exact fun before running s h => pure_taken h rfl
  | cons e ids ih =>
    intro before running s h
    have hnext : ∀ running' s', HasStarted (before ++ startable opts [e]) s' →
        (startWhileRoom w opts fuel ids running').Wp (Taken opts before (e :: ids) FilledWith) s' :=
      fun running' s' hs => (ih _ running' s' hs).mono fun o s'' ho =>
        @Taken.append opts before s'' _ [e] ids _ o ho
    rw [startWhileRoom]
    split
    · exact pure_taken h rfl
    refine bind_taken (ask_quiet (by simp)) h fun b s h => ?_
    split
    · exact pure_taken h rfl
    refine bind_taken (ask_quiet (by simp)) h fun ok s h => ?_
    split
    · cases hdry : opts.dryRun with
      | true =>
        refine bind_taken (call_quiet (by simp)) h fun planned s h => ?_
        split
        · refine hnext running s ?_
          simpa [startable, hdry] using h
        · exact pure_taken h (by simp [FilledWith])
      | false => exact startOne_taken fuel hdry h hnext
    · exact bind_taken (drain_quiet fuel running) h fun _ s' hs =>
        pure_taken hs (by simp [FilledWith])

/-- Each time round, the ids that have been started are those of the entries taken so far. -/
def RoundWith : (List RepoEntry × Running) ⊕ DeployResult → List RepoEntry → Prop
  | .inl b, rest => b.1 = rest
  | .inr result, rest => result = .ok → rest = []

theorem groupRound_taken (fuel : Nat) (ids : List RepoEntry) (running : Running)
    (h : HasStarted before s) :
    (groupRound w opts fuel (ids, running)).Wp (Taken opts before ids RoundWith) s := by
  rw [groupRound]
  split
  next hnone =>
    refine pure_taken h fun _ => ?_
    simpa using (Bool.and_eq_true_iff.mp hnone).1
  · rw [Prog.wp_bind]
    refine (startWhileRoom_taken fuel ids before running s h).mono fun o s' ho => ?_
    obtain ⟨rest, ⟨now, rfl, hs⟩, hq⟩ := ho
    have hmore : ∀ {p : Deploying ((List RepoEntry × Running) ⊕ DeployResult)},
        p.Wp (Taken opts (before ++ startable opts now) rest RoundWith) s' →
        p.Wp (Taken opts before (now ++ rest) RoundWith) s' :=
      fun hp => hp.mono fun _ _ ho => ho.append
    cases o with
    | err _ => exact ⟨rest, ⟨now, rfl, hs⟩, by simp⟩
    | out => exact ⟨rest, ⟨now, rfl, hs⟩, by simp⟩
    | ok filled =>
      have hfilled := hq filled rfl
      rw [Prog.andThen_ok]
      cases filled with
      | ended result => exact hmore (pure_taken hs fun hok => absurd hok hfilled)
      | waiting ids' running' =>
        obtain rfl : ids' = rest := hfilled
        refine hmore (bind_taken stopOnSignal_quiet hs fun b s hs => ?_)
        split
        · exact bind_taken (drain_quiet fuel running') hs fun _ s hs =>
            pure_taken hs (by simp [RoundWith])
        · split
          · exact pure_taken hs rfl
          · refine bind_taken (ask_quiet (by simp)) hs fun _ s hs => ?_
            rw [Prog.wp_bind]
            refine (poll_quiet fuel running' [] s hs).mono fun o s hs => ?_
            cases o with
            | err _ => exact ⟨ids', .nothing hs.1 _, by simp⟩
            | out => exact ⟨ids', .nothing hs.1 _, by simp⟩
            | ok polled =>
              rw [Prog.andThen_ok]
              cases polled with
              | inl left => exact pure_taken hs.1 rfl
              | inr result => exact pure_taken hs.1 fun hok => absurd hok (hs.2 result rfl)

/-- A program that ends with `ok` only once all of its entries have been taken. -/
abbrev AllTaken (result : DeployResult) (rest : List RepoEntry) : Prop := result = .ok → rest = []

theorem runGroup_taken (fuel : Nat) (ids : List RepoEntry) (h : HasStarted before s) :
    (runGroup w opts fuel ids).Wp (Taken opts before ids AllTaken) s := by
  refine Prog.wp_loop (fun b s => Begun opts before ids b.1 s)
    (fun b s hb => ⟨b.1, hb, by simp⟩) (fun b s hb => ?_) fuel (ids, []) s (.nothing h ids)
  obtain ⟨rest, running⟩ := b
  obtain ⟨now, rfl, hs⟩ := hb
  refine (groupRound_taken fuel rest running hs).mono fun o s' ho => ?_
  obtain ⟨left, hb, hq⟩ := ho.append
  match o with
  | .ok (.inl b') =>
    obtain rfl := hq _ rfl
    exact hb
  | .ok (.inr result) => exact ⟨left, hb, by rintro _ ⟨⟩; exact hq _ rfl⟩
  | .err _ => exact ⟨left, hb, by simp⟩
  | .out => exact ⟨left, hb, by simp⟩

/-- One part of the entries after another, as long as the result is `ok`. -/
theorem andThen_taken {p q : Deploying DeployResult} {ids more : List RepoEntry}
    (hp : p.Wp (Taken opts before ids AllTaken) s)
    (hq : ∀ s', HasStarted (before ++ startable opts ids) s' →
      q.Wp (Taken opts (before ++ startable opts ids) more AllTaken) s') :
    (do
      let r ← p
      if r = .ok then q else pure r : Deploying DeployResult).Wp
      (Taken opts before (ids ++ more) AllTaken) s := by
  rw [Prog.wp_bind]
  refine hp.mono fun o s' ho => ?_
  obtain ⟨rest, ⟨now, rfl, hs⟩, hall⟩ := ho
  have hleft : Begun opts before (now ++ rest ++ more) (rest ++ more) s' :=
    ⟨now, List.append_assoc .., hs⟩
  cases o with
  | err _ => exact ⟨rest ++ more, hleft, by simp⟩
  | out => exact ⟨rest ++ more, hleft, by simp⟩
  | ok r =>
    rw [Prog.andThen_ok]
    split
    next hok =>
      obtain rfl := hall r rfl hok
      rw [List.append_nil] at hq ⊢
      exact (hq s' hs).mono fun _ _ ho => ho.append
    next hok => exact ⟨rest ++ more, hleft, by rintro _ ⟨⟩ h; exact absurd h hok⟩

/-- What the deployment acts on of some groups. -/
abbrev entriesOf (migrations : List RepoEntry) (groups : List Group) : List RepoEntry :=
  groups.flatMap fun g => pendingOf migrations g.specs

theorem runGroups_taken (fuel : Nat) (migrations : List RepoEntry) :
    ∀ (groups : List Group) (before : List String) (s : Run), HasStarted before s →
      (runGroups w opts fuel migrations groups).Wp
        (Taken opts before (entriesOf migrations groups) AllTaken) s := by
  intro groups
  induction groups with
  | nil => exact fun before s h => pure_taken h fun _ => rfl
  | cons g groups ih =>
    intro before s h
    rw [runGroups, entriesOf, List.flatMap_cons]
    split
    next hnone =>
      rw [List.isEmpty_iff.mp hnone]
      exact ih before s h
    · exact andThen_taken (runGroup_taken fuel _ h) fun s' hs => ih _ s' hs

theorem runLevels_taken (fuel : Nat) (migrations : List RepoEntry) :
    ∀ (levels : List Level) (before : List String) (s : Run), HasStarted before s →
      (runLevels w opts fuel migrations levels).Wp
        (Taken opts before (levels.flatMap fun l => entriesOf migrations l.groups) AllTaken) s := by
  intro levels
  induction levels with
  | nil => exact fun before s h => pure_taken h fun _ => rfl
  | cons level levels ih =>
    intro before s h
    rw [runLevels, List.flatMap_cons]
    exact andThen_taken (runGroups_taken fuel migrations level.groups before s h)
      fun s' hs => ih _ s' hs

end Groups

/-! ## The deployment -/

section

variable {w : World} {opts : DeployOptions} {s : Run}

/-- Where the levels end with `ok`, each entry of them has been seen to succeed. -/
theorem runLevels_through {views : List (String × View)} {l : Listing} (hk : Keyed l.migrations)
    (hl : l.InOrder views) (fuel : Nat) : ∀ (levels before : List Level) (s : Run),
      l.order = before ++ levels →
      Going w l.migrations opts.dryRun (before.flatMap Level.specs) [] [] s.log →
      (runLevels w opts fuel l.migrations levels).Wp (Leaves w l.migrations
        (GroupOver w l.migrations opts.dryRun l.specs)) s := by
  intro levels
  induction levels with
  | nil =>
    intro before s hord h
    rw [Listing.specs, hord, List.append_nil]
    exact h
  | cons level levels ih =>
    intro before s hord h
    rw [runLevels]
    refine bind_wp (runGroups_spec hk fuel level.groups _ s (inOrder_runnable hl hord)
      (inOrder_due hk hl hord) h) fun r s' hr => ?_
    split
    next hok =>
      rw [GroupOver, if_pos hok] at hr
      refine ih (before ++ [level]) s' (by rw [hord, List.append_assoc]; rfl) ?_
      rw [List.flatMap_append, List.flatMap_singleton]
      exact hr
    next hok =>
      rw [GroupOver, if_neg hok] at hr
      exact groupOver_stopped ⟨hok, hr⟩

end

/-- What a deployment has started of a listing when it is left with `o`. -/
structure StartsOf (opts : DeployOptions) (l : Listing) (o : Outcome Unit DeployResult)
    (s : Run) : Prop where
  once : (startedIds s.log).Nodup
  inOrder : startedIds s.log <+: l.specs
  none : l.problems ≠ [] ∨ opts.dryRun = true ∨ opts.chain = true ∨ opts.statusOnly = true →
    startedIds s.log = []
  all : o = .ok .ok → opts.dryRun = false → opts.chain = false → opts.statusOnly = false →
    startedIds s.log = l.specs ∧
      ∀ id ∈ runnableIds l.migrations, ∃ job, SucceededIn id job s.log

section

variable {w : World} {opts : DeployOptions} {views : List (String × View)} {l : Listing}
  {o : Outcome Unit DeployResult} {s : Run}

/-- Nothing has been started, and there was nothing to start or the result does not promise it. -/
theorem startsOf_nothing (h : HasStarted [] s)
    (ho : o = .ok .ok → opts.chain = false → opts.statusOnly = false → l.specs = [] ∧
      runnableIds l.migrations = []) : StartsOf opts l o s where
  once := by rw [h]; exact .nil
  inOrder := by rw [h]; exact List.nil_prefix
  none _ := h
  all hok _ hc hs := by
    obtain ⟨hspecs, hrun⟩ := ho hok hc hs
    refine ⟨h.trans hspecs.symm, fun id hid => ?_⟩
    rw [hrun] at hid
    cases hid

/-- With nothing pending and nothing failed there is nothing to run. -/
theorem runnableIds_nil {entries : List RepoEntry}
    (h : countStatus entries .pending + countStatus entries .failed = 0) :
    runnableIds entries = [] := by
  obtain ⟨hp, hf⟩ := Nat.add_eq_zero_iff.mp h
  simp only [countStatus, List.countP_eq_zero, decide_eq_true_eq] at hp hf
  rw [runnableIds, List.map_eq_nil_iff, List.filter_eq_nil_iff]
  intro e he hr
  cases hs : e.status <;> simp_all [RepoStatus.runnable]

theorem levels_specs (hk : Keyed l.migrations) (hl : l.InOrder views) :
    (l.order.flatMap fun lv => entriesOf l.migrations lv.groups).map RepoEntry.specId =
      l.specs := by
  simp only [entriesOf, List.map_flatMap]
  refine List.flatMap_congr fun lv hlv => List.flatMap_congr fun g hg => ?_
  refine pendingOf_specs hk fun id hid => hl.perm.subset ?_
  exact List.mem_flatMap.mpr ⟨lv, hlv, List.mem_flatMap.mpr ⟨g, hg, hid⟩⟩

theorem runLevels_starts (hk : Keyed l.migrations) (hl : l.InOrder views) (fuel : Nat)
    (hp : l.problems = []) (hchain : opts.chain = false) (hstatus : opts.statusOnly = false) :
    (runLevels w opts fuel l.migrations l.order).Wp (StartsOf opts l) {} := by
  have htaken := @runLevels_taken w opts fuel l.migrations l.order [] {} rfl
  have hthrough := @runLevels_through w opts views l hk hl fuel l.order [] {} rfl going_start
  generalize runLevels w opts fuel l.migrations l.order = p at htaken hthrough ⊢
  unfold Prog.Wp at htaken hthrough ⊢
  obtain ⟨rest, ⟨now, hnow, hs⟩, hrest⟩ := htaken
  have hspecs : l.specs = now.map RepoEntry.specId ++ rest.map RepoEntry.specId := by
    rw [← levels_specs hk hl, hnow, List.map_append]
  have hstarted : startedIds (p {}).2.log = startable opts now := by simpa using hs
  cases hdry : opts.dryRun with
  | true =>
    have hnone : startedIds (p {}).2.log = [] := by rw [hstarted, startable, if_pos hdry]
    exact ⟨by simp [hnone], by simp [hnone], fun _ => hnone, fun _ hd => by simp [hd] at hdry⟩
  | false =>
    have hmap : startedIds (p {}).2.log = now.map RepoEntry.specId := by
      rw [hstarted, startable, if_neg (by simp [hdry])]
    have hprefix : startedIds (p {}).2.log <+: l.specs := by
      rw [hmap, hspecs]
      exact List.prefix_append ..
    refine ⟨hl.nodup.sublist hprefix.sublist, hprefix, ?_, fun hok _ _ _ => ?_⟩
    · simp [hp, hdry, hchain, hstatus]
    · obtain rfl := hrest _ hok rfl
      rw [hok] at hthrough
      have hgoing : Going w l.migrations opts.dryRun l.specs [] [] (p {}).2.log := by
        simpa [Leaves, GroupOver] using hthrough
      refine ⟨by rw [hmap, hspecs, List.map_nil, List.append_nil], fun id hid => ?_⟩
      exact hgoing.through hdry id (hl.perm.symm.subset hid)

/-- Of any listing that is in order where it has no problems. -/
theorem run_starts (w : World) (opts : DeployOptions) (fuel : Nat) {l : Listing}
    (hk : Keyed l.migrations) (hl : l.problems = [] → ∃ views, l.InOrder views) :
    (run w opts fuel (some l)).Wp (StartsOf opts l) {} := by
  rw [run]
  split
  · exact Prog.wp_pure.mpr (startsOf_nothing rfl (by simp))
  next hp =>
    have hp : l.problems = [] := by simpa using hp
    obtain ⟨views, hinorder⟩ := hl hp
    split
    next hstatus => exact Prog.wp_pure.mpr (startsOf_nothing rfl (by simp [hstatus]))
    next hstatus =>
      split
      next hcount =>
        have hrun := runnableIds_nil hcount
        refine Prog.wp_pure.mpr (startsOf_nothing rfl fun _ _ _ => ⟨?_, hrun⟩)
        exact List.perm_nil.mp (hrun ▸ hinorder.perm)
      · split
        next hchain =>
          refine ((chainLoop_quiet _ {}).wp (rfl : HasStarted [] {})).mono fun o s hs => ?_
          exact startsOf_nothing hs (by simp [hchain])
        next hchain =>
          exact runLevels_starts hk hinorder fuel hp (by simpa using hchain)
            (by simpa using hstatus)

end

/-- Whatever the world answers, and however the deployment is left: no migration is started twice,
and those that are started are the first ones of the listing's order. A listing with problems, a
dry run, a chain rehearsal and a status start none. Where the result is `ok` otherwise, all have
been started, and each has been seen to succeed. -/
theorem run_applies_once (w : World) (opts : DeployOptions) (fuel rounds : Nat)
    (views : List (String × View)) (entries : List RepoEntry) (problems notes : List String)
    (l : Listing) (hk : Keyed entries)
    (hl : assemble rounds views entries problems notes = some l) :
    (run w opts fuel (some l)).Wp (StartsOf opts l) {} := by
  rw [assemble, Option.map_eq_some_iff] at hl
  obtain ⟨r, hr, rfl⟩ := hl
  exact run_starts w opts fuel hk fun hp => ⟨views, listingOf_inOrder hk hr hp⟩

/-- The two levels of `run_orderly_twoLevels`, the second of which comes first in the listing. -/
theorem run_applies_once_twoLevels :
    let w : World :=
      { signal := none
        readable := fun _ _ => true
        planned := fun _ _ => some true
        started := fun _ e => some (.accepted ("job-" ++ e.specId))
        rehearsed := fun _ _ => some .rehearsed
        state := fun tick _ => some (if tick % 2 = 1 then .running else .succeeded) }
    let entries : List RepoEntry :=
      [{ specId := "0002", status := .failed, dependsOn := ["0001"] }, { specId := "0001" }]
    Keyed entries ∧ ∃ l, assemble 2 [] entries [] [] = some l ∧ l.specs = ["0001", "0002"] ∧
      (run w {} 9 (some l) {}).1 = .ok .ok ∧
      (run w {} 9 (some l)).Wp (StartsOf {} l) {} := by
  intro w entries
  have hk : Keyed entries := ⟨by decide, by decide⟩
  have hrun : (assemble 2 [] entries [] []).map (fun l =>
      (l.specs, (run w {} 9 (some l) {}).1)) = some (["0001", "0002"], .ok .ok) := by
    decide +kernel
  rw [Option.map_eq_some_iff] at hrun
  obtain ⟨l, hl, hrun⟩ := hrun
  rw [Prod.mk.injEq] at hrun
  exact ⟨hk, l, hl, hrun.1, hrun.2, run_applies_once w {} 9 2 [] entries [] [] l hk hl⟩

end Deploy
end Laswell
