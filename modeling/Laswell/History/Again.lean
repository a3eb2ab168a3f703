import Laswell.History.Reread

/-!
# Laswell.History.Again

A deployment that says `ok` has left nothing to do: the same deployment again starts nothing,
writes nothing and says `ok`.

* `HasJob`: an id of an epoch has such a job under a digest. `hasJob_write`: what a deployment adds.
* `Settled`: a digest is being applied, or has been; `classify_modified_iff`, `settled_of_classify`:
  what the index makes of one that is not.
* `Carried`: how ledgers go on from a listing. `listed_quiet`, `listed_clear`: then the listing that
  follows has nothing to run and no problems. `after_carried`: those after a deployment do.
* `redeploy_nothing`.
-/

namespace Laswell
namespace History

open Base Repository Deploy
open Jobs (JobState)
open Ledger (Lifecycle)

/-! ## The jobs of an id -/

section

variable {rows : Rows} {epoch id digest specId : String} {job : Option JobRow}
  {p : JobRow → Bool} {idOf : String → String}

def HasJob (p : JobRow → Bool) (epoch id digest : String) (rows : Rows) : Prop :=
  ∃ m ∈ rows, m.epoch = epoch ∧ m.specId = id ∧ m.digest = digest ∧ ∃ j ∈ m.jobs, p j = true

theorem mem_digestsWith_rowsOf :
    digest ∈ digestsWith p (rowsOf epoch id rows) ↔ HasJob p epoch id digest rows := by
  simp only [mem_digestsWith, rowsOf, List.mem_filter, decide_eq_true_eq, HasJob]
  constructor
  · rintro ⟨m, ⟨hm, hep, hid⟩, hd, hj⟩
    exact ⟨m, hm, hep, hid, hd, hj⟩
  · rintro ⟨m, hm, hep, hid, hd, hj⟩
    exact ⟨m, ⟨hm, hep, hid⟩, hd, hj⟩

theorem hasJob_of_ne_nil (h : digestsWith p (rowsOf epoch id rows) ≠ []) :
    ∃ digest, HasJob p epoch id digest rows := by
  obtain ⟨digest, hd⟩ := List.exists_mem_of_ne_nil _ h
  exact ⟨digest, mem_digestsWith_rowsOf.mp hd⟩

theorem HasJob.found (h : HasJob p epoch id digest rows) :
    (appliedIndex rows).find epoch id = some (appliedEntry (rowsOf epoch id rows)) ∧
      digestsWith p (rowsOf epoch id rows) ≠ [] := by
  have hd := mem_digestsWith_rowsOf.mpr h
  have hne : digestsWith p (rowsOf epoch id rows) ≠ [] := List.ne_nil_of_mem hd
  refine ⟨?_, hne⟩
  rw [appliedIndex_find, if_neg]
  intro hnil
  rw [hnil] at hne
  exact hne rfl

theorem mem_grouped {α : Type} {key : MigrationRow → String} {f : Rows → α} {k : String} {x : α}
    (h : (k, x) ∈ grouped key f rows) : x = f (rows.filter fun m => key m = k) := by
  obtain ⟨k', -, heq⟩ := List.mem_map.mp h
  cases heq
  rfl

theorem mem_appliedIndex {records : List (String × AppliedEntry)} {record : AppliedEntry}
    (h : (epoch, records) ∈ appliedIndex rows) (hr : (id, record) ∈ records) :
    record = appliedEntry (rowsOf epoch id rows) := by
  rw [mem_grouped h] at hr
  rw [mem_grouped hr, filter_epoch_id]

theorem hasJob_cons {m : MigrationRow} : HasJob p epoch id digest (m :: rows) ↔
    (m.epoch = epoch ∧ m.specId = id ∧ m.digest = digest ∧ ∃ j ∈ m.jobs, p j = true) ∨
      HasJob p epoch id digest rows := by
  simp [HasJob]

theorem hasJob_recordMigration (h : Sound idOf rows) (hid : idOf digest = specId)
    {epoch' id' digest' : String} :
    HasJob p epoch' id' digest' (recordMigration epoch digest specId job rows) ↔
      HasJob p epoch' id' digest' rows ∨
        epoch = epoch' ∧ specId = id' ∧ digest = digest' ∧ ∃ j ∈ job, p j = true := by
  induction rows with
  | nil => simp [recordMigration, HasJob]
  | cons m rows ih =>
    rw [recordMigration]
    split
    next hkey =>
      obtain ⟨rfl, rfl⟩ := hkey
      have hname : m.specId = specId := (h.named m List.mem_cons_self).trans hid
      have hjobs : (∃ j ∈ m.jobs ++ job.toList, p j = true) ↔
          (∃ j ∈ m.jobs, p j = true) ∨ ∃ j ∈ job, p j = true := by
        simp only [List.mem_append, Option.mem_toList, Option.mem_def, or_and_right, exists_or]
      simp only [hasJob_cons, hname, hjobs, and_or_left]
      exact or_right_comm
    next => rw [hasJob_cons, hasJob_cons, ih h.of_cons, or_assoc]

/-- A property of jobs that reconciling does not change. -/
def Stable (p : JobRow → Bool) : Prop :=
  ∀ j : JobRow, (j.finished = false → j.state = .of .running) → p j.reconciled = p j

theorem stable_succeeded : Stable JobRow.succeeded := fun _ h => (reconciled_reads h).1

theorem stable_running : Stable JobRow.running := fun _ h => (reconciled_reads h).2.2

theorem hasJob_reconcile (hp : Stable p) (h : Sound idOf rows) :
    HasJob p epoch id digest (reconcile rows) ↔ HasJob p epoch id digest rows := by
  simp only [HasJob, reconcile, List.mem_map, exists_exists_and_eq_and, MigrationRow.reconciled]
  refine exists_congr fun m => and_congr_right fun hm => ?_
  refine and_congr_right fun _ => and_congr_right fun _ => and_congr_right fun _ => ?_
  exact exists_congr fun j => and_congr_right fun hj => by rw [hp j (h.unfinished m hm j hj)]

end

section

variable {st : Setting} {a : Answers} {L : Ledgers} {idOf : String → String}
  {migrations : List RepoEntry} {p : JobRow → Bool} {db epoch id digest : String}

/-- A job of the log is one of this id, epoch and digest, in this database. -/
def WroteJob (st : Setting) (a : Answers) (migrations : List RepoEntry) (p : JobRow → Bool)
    (db epoch id digest : String) (log : List Event) : Prop :=
  ∃ job e, Event.started id job ∈ log ∧ byId migrations id = some e ∧
    st.database e.connection = db ∧ e.epoch = epoch ∧ e.digest = digest ∧
    p (a.ends job).row = true

theorem hasJob_start {e : RepoEntry} {recorded : Bool} {job : Option JobRow} {id' : String}
    (hp : Stable p) (h : L.Sound idOf) (he : byId migrations id' = some e)
    (hid : idOf e.digest = e.specId) :
    HasJob p epoch id digest (st.start a L migrations id' recorded job db) ↔
      HasJob p epoch id digest (L db) ∨ (st.database e.connection = db ∧ e.epoch = epoch ∧
        id' = id ∧ e.digest = digest ∧ recorded ∧ ∃ j ∈ job, p j = true) := by
  obtain ⟨-, hspec, -⟩ := byId_some he
  rw [start_some he]
  split
  next hdb =>
    subst hdb
    have hrows : Sound idOf (if a.reconciles e.specId then reconcile (L (st.database e.connection))
        else L (st.database e.connection)) := by
      split
      · exact (h _).reconcile
      · exact h _
    have hsame : HasJob p epoch id digest (if a.reconciles e.specId then
        reconcile (L (st.database e.connection)) else L (st.database e.connection)) ↔
        HasJob p epoch id digest (L (st.database e.connection)) := by
      split
      · exact hasJob_reconcile hp (h _)
      · exact Iff.rfl
    unfold Setting.startRows
    dsimp only
    cases recorded with
    | false => simp [hsame]
    | true =>
      rw [if_pos rfl, hasJob_recordMigration hrows hid, hsame, hspec]
      simp
  next hdb => simp [Ne.symm hdb]

theorem hasJob_write (hp : Stable p) (hm : ∀ id e, byId migrations id = some e →
    idOf e.digest = e.specId) (h : L.Sound idOf) (log : List Event) :
    HasJob p epoch id digest (st.write a L migrations log db) ↔
      HasJob p epoch id digest (L db) ∨ WroteJob st a migrations p db epoch id digest log := by
  induction log with
  | nil => simp [Setting.write, WroteJob]
  | cons event log ih =>
    have hnot : ∀ e', (∀ id job, e' ≠ Event.started id job) →
        (WroteJob st a migrations p db epoch id digest (e' :: log) ↔
          WroteJob st a migrations p db epoch id digest log) := by
      intro e' hne
      simp only [WroteJob, List.mem_cons, (hne _ _).symm, false_or]
    cases event with
    | started id' job =>
      have hsound := @write_sound st a L idOf migrations hm h log
      have hwrote : WroteJob st a migrations p db epoch id digest (.started id' job :: log) ↔
          WroteJob st a migrations p db epoch id digest log ∨ ∃ e, byId migrations id' = some e ∧
            st.database e.connection = db ∧ e.epoch = epoch ∧ id' = id ∧ e.digest = digest ∧
            p (a.ends job).row = true := by
        simp only [WroteJob, List.mem_cons, Event.started.injEq]
        constructor
        · rintro ⟨job', e, ⟨rfl, rfl⟩ | hmem, he, hdb, hep, hd, hj⟩
          · exact .inr ⟨e, he, hdb, hep, rfl, hd, hj⟩
          · exact .inl ⟨job', e, hmem, he, hdb, hep, hd, hj⟩
        · rintro (⟨job', e, hmem, he, hdb, hep, hd, hj⟩ | ⟨e, he, hdb, hep, rfl, hd, hj⟩)
          · exact ⟨job', e, .inr hmem, he, hdb, hep, hd, hj⟩
          · exact ⟨job, e, .inl ⟨rfl, rfl⟩, he, hdb, hep, hd, hj⟩
      rw [Setting.write, hwrote]
      cases he : byId migrations id' with
      | none =>
        rw [start_none he, ih]
        simp
      | some e =>
        rw [hasJob_start hp hsound he (hm id' e he), ih, or_assoc]
        simp
    | notStarted id' =>
      have hsound := @write_sound st a L idOf migrations hm h log
      rw [hnot _ (by simp), Setting.write]
      cases he : byId migrations id' with
      | none => rw [start_none he, ih]
      | some e =>
        rw [hasJob_start hp hsound he (hm id' e he), ih]
        simp
    | _ =>
      rw [hnot _ (by simp)]
      exact ih

end

/-! ## Settled entries -/

section

variable {rows : Rows} {e : RepoEntry}

/-- The digest is being applied, or has been. -/
def Settled (rows : Rows) (e : RepoEntry) : Prop :=
  HasJob JobRow.running e.epoch e.specId e.digest rows ∨
    HasJob JobRow.succeeded e.epoch e.specId e.digest rows

theorem settled_congr {e' : RepoEntry}
    (h : e'.specId = e.specId ∧ e'.epoch = e.epoch ∧ e'.digest = e.digest) :
    Settled rows e' ↔ Settled rows e := by
  rw [Settled, h.1, h.2.1, h.2.2]
  rfl

theorem classify_of_settled (h : Settled rows e) :
    (classify e (appliedIndex rows)).status = .inProgress ∨
      (classify e (appliedIndex rows)).status = .applied := by
  have hsome : rowsOf e.epoch e.specId rows ≠ [] := by
    rcases h with ⟨m, hm, hep, hid, -⟩ | ⟨m, hm, hep, hid, -⟩
    all_goals exact List.ne_nil_of_mem (List.mem_filter.mpr ⟨hm, by simp [hep, hid]⟩)
  have hfind := @appliedIndex_find rows e.epoch e.specId
  rw [if_neg hsome] at hfind
  simp only [Settled, ← mem_digestsWith_rowsOf] at h
  unfold classify
  rw [hfind]
  dsimp only [appliedEntry]
  split
  · exact .inl rfl
  next hrun =>
    rw [if_pos (by simpa using h.resolve_left (by simpa using hrun))]
    exact .inr rfl

theorem classify_settled (h : Settled rows e) :
    (classify e (appliedIndex rows)).status.runnable = false := by
  rcases classify_of_settled h with hs | hs
  all_goals rw [hs]; rfl

theorem classify_modified_iff : (classify e (appliedIndex rows)).status = .modified ↔
    (∃ digest, HasJob JobRow.succeeded e.epoch e.specId digest rows) ∧ ¬ Settled rows e := by
  have hfind := @appliedIndex_find rows e.epoch e.specId
  by_cases hnone : rowsOf e.epoch e.specId rows = []
  · rw [if_pos hnone] at hfind
    constructor
    · intro h
      simp [classify, hfind] at h
    · rintro ⟨⟨digest, m, hm, hep, hid, -⟩, -⟩
      have hmem : m ∈ rowsOf e.epoch e.specId rows :=
        List.mem_filter.mpr ⟨hm, by simp [hep, hid]⟩
      rw [hnone] at hmem
      cases hmem
  · rw [if_neg hnone] at hfind
    simp only [Settled, ← mem_digestsWith_rowsOf]
    unfold classify
    rw [hfind]
    dsimp only [appliedEntry]
    split
    next hrun =>
      have hrun : e.digest ∈ digestsWith JobRow.running (rowsOf e.epoch e.specId rows) := by
        simpa using hrun
      simp [hrun]
    next hrun =>
      split
      next hsucc =>
        have hsucc : e.digest ∈ digestsWith JobRow.succeeded (rowsOf e.epoch e.specId rows) := by
          simpa using hsucc
        simp [hsucc]
      next hsucc =>
        split
        next first rest hfirst =>
          refine ⟨fun _ => ⟨⟨first, by rw [hfirst]; exact List.mem_cons_self⟩, ?_⟩, fun _ => rfl⟩
          rintro (h | h)
          · exact hrun (by simpa using h)
          · exact hsucc (by simpa using h)
        next hfirst => split <;> simp [hfirst]

/-- What the index leaves neither runnable nor modified is settled. -/
theorem settled_of_classify (hr : (classify e (appliedIndex rows)).status.runnable = false)
    (hm : (classify e (appliedIndex rows)).status ≠ .modified) : Settled rows e := by
  by_cases hnone : rowsOf e.epoch e.specId rows = []
  · have hfind := @appliedIndex_find rows e.epoch e.specId
    rw [if_pos hnone] at hfind
    simp [classify, hfind, RepoStatus.runnable] at hr
  · have hfind := @appliedIndex_find rows e.epoch e.specId
    rw [if_neg hnone] at hfind
    simp only [Settled, ← mem_digestsWith_rowsOf]
    unfold classify at hr hm
    rw [hfind] at hr hm
    dsimp only [appliedEntry] at hr hm
    split at hr
    next hrun => exact .inl (by simpa using hrun)
    next hrun =>
      rw [if_neg hrun] at hm
      split at hr
      next hsucc => exact .inr (by simpa using hsucc)
      next hsucc =>
        rw [if_neg hsucc] at hm
        split at hr
        next hfirst => simp [hfirst] at hm
        next =>
          split at hr
          all_goals cases hr

end
/-! ## A deployment again -/

section

variable {st : Setting} {a a' : Answers} {L L' : Ledgers} {idOf : String → String}
  {l l' : Listing} {e : RepoEntry}

theorem refuted_classify (e : RepoEntry) (applied : AppliedIndex) (view : View) :
    Refuted (classify e applied) view ↔ Refuted e view := by
  unfold classify
  (repeat' split) <;> exact Iff.rfl

theorem view_read (hread : ∀ c, st.unread c = none) (c : String) : st.view L c =
    { st.labels c with reachable := true, applied := appliedIndex (L (st.database c)) } := by
  rw [Setting.view, hread]

theorem refuted_view (hread : ∀ c, st.unread c = none) (c : String) :
    Refuted e (st.view L' c) ↔ Refuted e (st.view L c) := by
  rw [view_read hread, view_read hread]
  rfl

/-- An entry that is runnable or modified, and the entry of the same file in the listing before. -/
theorem listed_before (hread : ∀ c, st.unread c = none) (hl : st.listing a L = some l)
    (hp : l.problems = []) (hl' : st.listing a' L' = some l') {e' : RepoEntry}
    (he' : e' ∈ l'.migrations) (hs : e'.status.runnable = true ∨ e'.status = .modified) :
    ∃ e ∈ l.migrations, ∃ routed : RepoEntry,
      (routed.specId = e.specId ∧ routed.epoch = e.epoch ∧ routed.digest = e.digest) ∧
      e.status = (gate (classify routed (appliedIndex (L (st.database e.connection))))
        (st.view L e.connection)).status ∧
      e'.status = (gate (classify routed (appliedIndex (L' (st.database e.connection))))
        (st.view L' e.connection)).status := by
  have hscan := scan_of_listing hl
  obtain ⟨file, hfile, hof'⟩ := scan_of (scan_of_listing hl') he'
  obtain ⟨spec, hspec, hhas⟩ := hof'.known hs
  obtain ⟨e, he, hof⟩ := scan_has hscan hp hfile
  obtain ⟨hstatus', -⟩ := hof'.entry hspec hhas
  obtain ⟨hstatus, hid, hepoch, hdigest, hconn⟩ := hof.entry hspec hhas
  have hconn' : (st.repo a' L').connectionOf spec = e.connection := hconn.symm
  have hsame : (st.repo a' L').routedEntry file.1 file.2 spec =
      (st.repo a L).routedEntry file.1 file.2 spec := by
    simp only [MigrationRepository.routedEntry, Setting.repo, view_read hread]
    rfl
  have hindex : ∀ (M : Ledgers) c, (st.view M c).applied = appliedIndex (M (st.database c)) := by
    intro M c
    rw [view_read hread]
  refine ⟨e, he, (st.repo a L).routedEntry file.1 file.2 spec,
    ⟨hid.symm, hepoch.symm, hdigest.symm⟩, ?_, ?_⟩
  · rw [hstatus, ← hconn, ← hindex]
    rfl
  · rw [hstatus', hsame, hconn', ← hindex]
    rfl

/-- What the ledgers that follow have beside those of a listing is of its runnable entries. -/
def Adds (st : Setting) (l : Listing) (L L' : Ledgers) : Prop :=
  ∀ db p epoch id digest, Stable p → HasJob p epoch id digest (L' db) →
    HasJob p epoch id digest (L db) ∨ ∃ e ∈ l.migrations, e.status.runnable = true ∧
      e.specId = id ∧ e.epoch = epoch ∧ e.digest = digest ∧ st.database e.connection = db

/-- How the ledgers that follow go on from a listing: what it leaves runnable is settled, what was
settled still is, and nothing else is there. -/
structure Carried (st : Setting) (l : Listing) (L L' : Ledgers) : Prop where
  done : ∀ e ∈ l.migrations, e.status.runnable = true →
    Settled (L' (st.database e.connection)) e
  kept : ∀ e ∈ l.migrations, Settled (L (st.database e.connection)) e →
    Settled (L' (st.database e.connection)) e
  adds : Adds st l L L'

/-- The listing that follows leaves nothing to run. -/
theorem listed_quiet (hread : ∀ c, st.unread c = none) (hl : st.listing a L = some l)
    (hp : l.problems = []) (hl' : st.listing a' L' = some l') (hc : Carried st l L L') :
    ∀ e ∈ l'.migrations, e.status.runnable = false := by
  intro e' he'
  by_contra hr'
  rw [Bool.not_eq_false] at hr'
  obtain ⟨e, he, routed, hsame, hstatus, hstatus'⟩ :=
    listed_before hread hl hp hl' he' (.inl hr')
  rw [hstatus', gate_runnable_iff, refuted_classify, refuted_view hread] at hr'
  obtain ⟨hclass', hrefuted⟩ := hr'
  have hsettled : Settled (L' (st.database e.connection)) e := by
    cases hr : e.status.runnable with
    | true => exact hc.done e he hr
    | false =>
      refine hc.kept e he ((settled_congr hsame).mp ?_)
      rcases gate_cases (classify routed (appliedIndex (L (st.database e.connection))))
        (st.view L e.connection) with ⟨hgate, -⟩ | ⟨-, -, hheld⟩
      · rw [hgate] at hstatus
        exact settled_of_classify (hstatus ▸ hr)
          (hstatus ▸ scan_unmodified (scan_of_listing hl) hp he)
      · exact absurd ((refuted_classify _ _ _).mp hheld) hrefuted
  rw [classify_settled ((settled_congr hsame).mpr hsettled)] at hclass'
  cases hclass'

theorem listed_faultless (hl : st.listing a L = some l)
    (hp : l.problems = []) :
    ∀ e ∈ (readingOf (st.repo a' L') st.disk st.sources).entries, faultOf e = none := by
  intro e' he'
  have hclean := listed_clean (scan_reading (scan_of_listing hl)) hp
  obtain ⟨file, hfile, rfl⟩ := readFiles_entries (by simp) _ (List.Subset.refl _) e' he'
  have hfault := (hclean.2.1 _ (reading_has hclean.1 hfile)).1
  unfold MigrationRepository.entryOf at hfault ⊢
  split
  next h =>
    rw [h] at hfault
    exact hfault
  next spec h =>
    rw [h] at hfault
    dsimp only at hfault
    unfold MigrationRepository.newEntry at hfault ⊢
    split
    next => exact faultOf_gate (faultOf_classify _ _)
    next hhas =>
      have hhas : ¬ (st.repo a L).has ((st.repo a L).connectionOf spec) = true := hhas
      rw [if_neg hhas] at hfault
      exact hfault

theorem listed_unmodified (hread : ∀ c, st.unread c = none) (hl : st.listing a L = some l)
    (hp : l.problems = []) (hl' : st.listing a' L' = some l') (hc : Carried st l L L') :
    ∀ e ∈ l'.migrations, e.status ≠ .modified := by
  intro e' he' hs'
  obtain ⟨e, he, routed, hsame, hstatus, hstatus'⟩ :=
    listed_before hread hl hp hl' he' (.inr hs')
  have hclass' := gate_modified (hstatus'.symm.trans hs')
  rw [classify_modified_iff, settled_congr hsame, hsame.1, hsame.2.1] at hclass'
  obtain ⟨⟨digest, hjob⟩, hunsettled⟩ := hclass'
  rcases hc.adds _ _ _ _ _ stable_succeeded hjob with hjob | ⟨e₁, he₁, hr, hid, -, -, -⟩
  · have hclass : (classify routed (appliedIndex (L (st.database e.connection)))).status =
        .modified := by
      rw [classify_modified_iff, settled_congr hsame, hsame.1, hsame.2.1]
      exact ⟨⟨digest, hjob⟩, fun h => hunsettled (hc.kept e he h)⟩
    rw [modified_gate hclass, hclass] at hstatus
    exact scan_unmodified (scan_of_listing hl) hp he hstatus
  · have hk := MigrationRepository.scan_keyed (scan_of_listing hl)
    have hne := hk.named e₁ he₁ hr
    have hone : some e₁ = some e := by
      rw [← hk.byId_eq he₁ hne, hid, hk.byId_eq he (hid ▸ hne)]
    cases hone
    exact hunsettled (hc.done e he hr)

theorem listed_silent (hread : ∀ c, st.unread c = none) (hl : st.listing a L = some l)
    (hp : l.problems = []) (hf : Adds st l L L') :
    ∀ cv ∈ viewsRead (st.repo a' L') (readingOf (st.repo a' L') st.disk st.sources),
      ∀ text, Sum.inl text ∉ remarks st.complete
        (onDisk (readingOf (st.repo a' L') st.disk st.sources).entries)
        (epochsClaimed (readingOf (st.repo a' L') st.disk st.sources).entries) cv := by
  intro cv hcv text htext
  have hlisted := scan_reading (scan_of_listing hl)
  obtain ⟨hproblems, -, hsilent⟩ := listed_clean hlisted hp
  have halike : Alike (readingOf (st.repo a L) st.disk st.sources)
      (readingOf (st.repo a' L') st.disk st.sources) := reading_alike rfl fun _ => rfl
  rw [halike.onDisk, halike.epochsClaimed] at htext
  obtain ⟨epoch, records, id, record, hrecords, hrecord, hclaimed, hlive, hdisk, happlied⟩ :=
    remarks_said htext
  obtain ⟨hview, hseen⟩ := @viewsRead_before (st.repo a L) (st.repo a' L') st.disk st.sources rfl
    rfl (fun _ => rfl) hproblems cv hcv
  rw [hview, show (st.repo a' L').view = st.view L' from rfl, view_read hread] at hrecords hlive
  cases mem_appliedIndex hrecords hrecord
  have hnew : ∀ p, Stable p → digestsWith p (rowsOf epoch id (L' (st.database cv.1))) ≠ [] →
      digestsWith p (rowsOf epoch id (L (st.database cv.1))) ≠ [] ∧
        (appliedIndex (L (st.database cv.1))).find epoch id =
          some (appliedEntry (rowsOf epoch id (L (st.database cv.1)))) := by
    intro p hstable hne
    obtain ⟨digest, hjob⟩ := hasJob_of_ne_nil hne
    rcases hf _ p epoch id digest hstable hjob with hjob | ⟨e, he, hr, rfl, rfl, -⟩
    · exact ⟨hjob.found.2, hjob.found.1⟩
    · have hne := (MigrationRepository.scan_keyed (scan_of_listing hl)).named e he hr
      exact absurd (listed_onDisk hlisted he hne) hdisk
  obtain ⟨hfound, happlied⟩ : (appliedIndex (L (st.database cv.1))).find epoch id =
      some (appliedEntry (rowsOf epoch id (L (st.database cv.1)))) ∧
      ((appliedEntry (rowsOf epoch id (L (st.database cv.1)))).succeeded ≠ [] ∨
        (appliedEntry (rowsOf epoch id (L (st.database cv.1)))).running ≠ []) := by
    rcases happlied with h | h
    · exact ⟨(hnew _ stable_succeeded h).2, .inl (hnew _ stable_succeeded h).1⟩
    · exact ⟨(hnew _ stable_running h).2, .inr (hnew _ stable_running h).1⟩
  have hview' : (st.repo a L).view cv.1 = { st.labels cv.1 with
      reachable := true, applied := appliedIndex (L (st.database cv.1)) } := view_read hread _
  rw [hview'] at hseen
  obtain ⟨text', htext'⟩ := @remark_missing st.complete _ _ (cv.1, { st.labels cv.1 with
    reachable := true, applied := appliedIndex (L (st.database cv.1)) }) epoch id _ hfound happlied
    hlive hclaimed hdisk
  exact hsilent _ hseen text' htext'

/-- Where nothing is runnable, a deployment is over at once. -/
theorem run_quiet (hq : ∀ e ∈ l.migrations, e.status.runnable = false)
    (hl : st.listing a L = some l) : (st.run a L).2.log = [] ∧ (l.problems = [] → st.opts.statusOnly = false →
      (st.run a L).1 = .ok .ok) := by
  have hcount : ∀ status : RepoStatus, status.runnable = true →
      countStatus l.migrations status = 0 := by
    intro status hs
    rw [countStatus, List.countP_eq_zero]
    intro e he heq
    rw [← of_decide_eq_true heq, hq e he] at hs
    cases hs
  unfold Setting.run Deploy.run
  rw [hl]
  dsimp only
  rw [hcount .pending rfl, hcount .failed rfl]
  split
  next hproblems =>
    refine ⟨rfl, fun hp => ?_⟩
    rw [hp] at hproblems
    cases hproblems
  next =>
    split
    next hstatus => exact ⟨rfl, fun _ hs => absurd (hs.symm.trans hstatus) (by simp)⟩
    next => exact ⟨rfl, fun _ _ => rfl⟩

/-- A deployment that ends well was of a listing without problems. -/
theorem listing_of_ok (hok : (st.run a L).1 = .ok .ok) :
    ∃ l, st.listing a L = some l ∧ l.problems = [] := by
  unfold Setting.run Deploy.run at hok
  cases hl : st.listing a L with
  | none =>
    rw [hl] at hok
    cases hok
  | some l =>
    rw [hl] at hok
    refine ⟨l, rfl, ?_⟩
    by_contra hp
    dsimp only at hok
    rw [if_pos (by simpa using hp)] at hok
    cases hok

theorem mem_startedIds {id job : String} {log : List Event} (h : Event.started id job ∈ log) :
    id ∈ startedIds log := by
  induction log with
  | nil => cases h
  | cons event log ih =>
    rcases List.mem_cons.mp h with rfl | hmem
    · exact List.mem_append_right _ (List.mem_singleton_self id)
    · have hid := ih hmem
      cases event with
      | started id' job' => exact List.mem_append_left _ hid
      | _ => exact hid

theorem write_none (h : ∀ id, byId l.migrations id = none) (log : List Event) :
    st.write a L l.migrations log = L := by
  induction log with
  | nil => rfl
  | cons event log ih =>
    cases event with
    | started id job => rw [Setting.write, start_none (h id), ih]
    | notStarted id => rw [Setting.write, start_none (h id), ih]
    | _ => exact ih

/-- The ledgers of a listing without ids stay as they are. -/
theorem after_empty (hl : st.listing a L = some l)
    (hdisk : onDisk (readingOf (st.repo a L) st.disk st.sources).entries = []) :
    st.after a L = L := by
  rw [after_some hl, write_none]
  intro id
  cases he : byId l.migrations id with
  | none => rfl
  | some e =>
    obtain ⟨hmem, hid, hne⟩ := byId_some he
    have hspelled := listed_onDisk (scan_reading (scan_of_listing hl)) hmem (hid ▸ hne)
    rw [hdisk] at hspelled
    cases hspelled

theorem listed_again (hl : st.listing a L = some l) : ∃ l', st.listing a' L' = some l' := by
  obtain ⟨l', hl'⟩ : ∃ l', (st.repo a' L').scan st.disk st.sources st.deriveRelations
      st.complete = .ok (some l') := scan_again (scan_of_listing hl)
  exact ⟨l', by rw [Setting.listing, hl']⟩

/-- The listing that follows has no problems either. -/
theorem listed_clear (hread : ∀ c, st.unread c = none) (hl : st.listing a L = some l)
    (hp : l.problems = []) (hl' : st.listing a' L' = some l') (hc : Carried st l L L')
    (hsame : onDisk (readingOf (st.repo a L) st.disk st.sources).entries = [] → L' = L) :
    l'.problems = [] := by
  have hlisted := scan_reading (scan_of_listing hl)
  have hproblems := (listed_clean hlisted hp).1
  have halike : Alike (readingOf (st.repo a L) st.disk st.sources)
      (readingOf (st.repo a' L') st.disk st.sources) := reading_alike rfl fun _ => rfl
  refine listed_problems (scan_reading (scan_of_listing hl'))
    (listed_quiet hread hl hp hl' hc) (listed_unmodified hread hl hp hl' hc)
    (halike.problems.trans hproblems) (listed_faultless hl hp) (fun hdisk cv hcv => ?_)
    (listed_silent hread hl hp hc.adds)
  rw [halike.onDisk] at hdisk
  obtain ⟨hview, hseen⟩ := @viewsRead_before (st.repo a L) (st.repo a' L') st.disk st.sources rfl
    rfl (fun _ => rfl) hproblems cv hcv
  rw [hview, ← listed_empty hlisted hp hdisk _ hseen, hsame hdisk]
  rfl

/-- A deployment that has seen everything runnable succeed, where its jobs are left so. -/
theorem after_carried (hL : L.Sound idOf) (hnamed : st.Named idOf) (hl : st.listing a L = some l)
    (hlost : a.lost = 0)
    (hall : ∀ id ∈ runnableIds l.migrations, ∃ job, SucceededIn id job (st.run a L).2.log)
    (hends : ∀ id job, Event.seen id job (some .succeeded) ∈ (st.run a L).2.log →
      a.ends job = .finished .succeeded) : Carried st l L (st.after a L) := by
  have hk := MigrationRepository.scan_keyed (scan_of_listing hl)
  have hlog : st.log a L = (st.run a L).2.log := by rw [Setting.log, hlost, List.drop_zero]
  have hwrite : ∀ p, Stable p → ∀ db epoch id digest,
      HasJob p epoch id digest (st.after a L db) ↔ HasJob p epoch id digest (L db) ∨
        WroteJob st a l.migrations p db epoch id digest (st.run a L).2.log := by
    intro p hstable db epoch id digest
    rw [after_some hl, hlog]
    exact hasJob_write hstable (listed_named hnamed hl) hL _
  refine ⟨fun e he hr => ?_, fun e _ hs => ?_, fun db p epoch id digest hstable hjob => ?_⟩
  · obtain ⟨job, later, earlier, hat, hstarted⟩ :=
      hall e.specId (List.mem_map_of_mem (List.mem_filter.mpr ⟨he, hr⟩))
    have hseen : Event.seen e.specId job (some .succeeded) ∈ (st.run a L).2.log := by simp [hat]
    have hrow : (a.ends job).row.succeeded = true := by
      rw [hends _ job hseen]
      rfl
    refine .inr ((hwrite _ stable_succeeded _ _ _ _).mpr (.inr ⟨job, e, ?_,
      hk.byId_eq he (hk.named e he hr), rfl, rfl, rfl, hrow⟩))
    rw [hat]
    exact List.mem_append_right _ (List.mem_cons_of_mem _ hstarted)
  · rcases hs with hrun | hsucc
    · exact .inl ((hwrite _ stable_running _ _ _ _).mpr (.inl hrun))
    · exact .inr ((hwrite _ stable_succeeded _ _ _ _).mpr (.inl hsucc))
  · refine ((hwrite p hstable _ _ _ _).mp hjob).imp_right ?_
    rintro ⟨job, e, hstarted, hb, hdb, hepoch, hdigest, -⟩
    have hid : id ∈ startedIds (st.log a L) := by
      rw [hlog]
      exact mem_startedIds hstarted
    obtain ⟨e₁, he₁, hb₁, hr⟩ := (listed_started hl).2 id hid
    cases hb.symm.trans hb₁
    exact ⟨e, he₁, hr, (byId_some hb).2.1, hepoch, hdigest, hdb⟩

end

/-- A deployment that says `ok`, and whose jobs are left as it saw them, has nothing left to do:
another one of the same files, to the same configuration, says `ok`, starts nothing and writes
nothing. -/
theorem redeploy_nothing (idOf : String → String) (st : Setting) (a a' : Answers) (L : Ledgers)
    (hL : L.Sound idOf) (hnamed : st.Named idOf) (hread : ∀ c, st.unread c = none)
    (hdry : st.opts.dryRun = false) (hchain : st.opts.chain = false)
    (hstatus : st.opts.statusOnly = false) (hlost : a.lost = 0)
    (hok : (st.run a L).1 = .ok .ok)
    (hends : ∀ id job, Event.seen id job (some .succeeded) ∈ (st.run a L).2.log →
      a.ends job = .finished .succeeded) :
    (st.run a' (st.after a L)).1 = .ok .ok ∧ st.log a' (st.after a L) = [] ∧
      st.after a' (st.after a L) = st.after a L := by
  obtain ⟨l, hl, hp⟩ := listing_of_ok hok
  obtain ⟨-, hall⟩ := (listed_starts hl).all hok hdry hchain hstatus
  have hcarried := after_carried hL hnamed hl hlost hall hends
  obtain ⟨l', hl'⟩ := @listed_again st a a' L (st.after a L) l hl
  have hclear := listed_clear hread hl hp hl' hcarried (after_empty hl)
  obtain ⟨hnothing, hres⟩ := run_quiet (listed_quiet hread hl hp hl' hcarried) hl'
  have hnone : st.log a' (st.after a L) = [] := by rw [Setting.log, hnothing, List.drop_nil]
  refine ⟨hres hclear hstatus, hnone, ?_⟩
  rw [after_some hl', hnone]
  rfl

/-- The file of `oneFile`, applied, and deployed again. -/
theorem redeploy_nothing_oneFile :
    let L := oneFile.after (answering .succeeded) fun _ => []
    successes "default" "0001" (L "app") = 1 ∧
      (oneFile.run (answering .failed) L).1 = .ok .ok ∧ oneFile.log (answering .failed) L = [] ∧
      oneFile.after (answering .failed) L = L := by
  refine ⟨by decide +kernel, redeploy_nothing (fun _ => "0001") oneFile (answering .succeeded)
    (answering .failed) (fun _ => []) (fun _ => sound_nil) ?_ (fun _ => rfl) rfl rfl rfl rfl
    (by decide +kernel) (fun _ _ _ => rfl)⟩
  intro path spec hread
  cases hread
  rfl

end History
end Laswell
