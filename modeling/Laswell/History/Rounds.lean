import Laswell.Deploy.Starts
import Laswell.Repository.Scan
import Laswell.History.Rows

/-!
# Laswell.History.Rounds

Deployments one after another, each of a listing of the ledgers that the ones before it left.

* `Setting`, `Answers`: what is deployed where, and what it is told on the way.
* `Setting.after`: the ledgers once a deployment is over, or its process is gone.
* `scan_entry`: what an entry of a listing has of its file and its ledger.
* `history_once`: over any number of deployments an id of an epoch succeeds in a database at most
  once.
-/

namespace Laswell
namespace History

open Base Repository Deploy
open Jobs (JobState)
open Ledger (Lifecycle)

/-! ## A deployment -/

/-- The ledger of each database. -/
abbrev Ledgers := String → Rows

/-- What is deployed, and where: the repository, the configuration, and what the databases are
labelled with beside their ledgers. -/
structure Setting where
  disk : Disk
  sources : List Source
  complete : Bool := false
  deriveRelations : Bool := true
  has : String → Bool
  defaultConnection : String
  /-- the database a connection leads to -/
  database : String → String
  labels : String → View
  /-- what `view_for` catches of a connection that is not read -/
  unread : String → Option String := fun _ => none
  opts : DeployOptions := {}

/-- How a job has left its row. `interrupted`: its session went away, and a later start of the same
deployment reconciled it. -/
inductive JobEnd where
  | finished (state : JobState)
  | interrupted
  | died

def JobEnd.row : JobEnd → JobRow
  | .finished state => { state := .of state, finished := true, alive := false }
  | .interrupted => { state := .interrupted, finished := true, alive := false }
  | .died => { state := .of .running, finished := false, alive := false }

/-- What a deployment is told, and what becomes of its jobs. -/
structure Answers where
  world : World
  fuel : Nat
  /-- how many events at the end never were: the process was killed before them -/
  lost : Nat := 0
  ends : String → JobEnd
  /-- whether a start that was not accepted had recorded the migration -/
  recorded : String → Bool := fun _ => false
  /-- whether a start could set the ledger right about dead jobs -/
  reconciles : String → Bool := fun _ => true
  relations : RepoEntry → RelationSet := fun _ => {}

namespace Setting

variable (st : Setting) (a : Answers) (L : Ledgers)

/-- `view_for`, and `applied_index` of the database it comes to. -/
def view (c : String) : View :=
  match st.unread c with
  | some error => { error := error }
  | none => { st.labels c with reachable := true, applied := appliedIndex (L (st.database c)) }

def repo : MigrationRepository where
  has := st.has
  defaultConnection := st.defaultConnection
  view := st.view L
  relations := a.relations

/-- `list_migrations` -/
def listing : Option Listing :=
  match (st.repo a L).scan st.disk st.sources st.deriveRelations st.complete with
  | .ok l => l
  | .error _ => none

def run : Outcome Unit DeployResult × Run :=
  Deploy.run a.world st.opts a.fuel (st.listing a L) {}

/-- What has happened of the deployment. -/
def log : List Event := (st.run a L).2.log.drop a.lost

/-- What `start_migration` writes for an entry. -/
def startRows (e : RepoEntry) (recorded : Bool) (job : Option JobRow) (rows : Rows) : Rows :=
  let rows := if a.reconciles e.specId then reconcile rows else rows
  if recorded then recordMigration e.epoch e.digest e.specId job rows else rows

/-- In the ledger of the entry's connection. -/
def start (migrations : List RepoEntry) (id : String) (recorded : Bool) (job : Option JobRow) :
    Ledgers :=
  match byId migrations id with
  | none => L
  | some e => fun db =>
    if db = st.database e.connection then startRows a e recorded job (L db) else L db

def write (migrations : List RepoEntry) : List Event → Ledgers
  | [] => L
  | .started id job :: log =>
    st.start a (write migrations log) migrations id true (some (a.ends job).row)
  | .notStarted id :: log => st.start a (write migrations log) migrations id (a.recorded id) none
  | _ :: log => write migrations log

def after : Ledgers :=
  match st.listing a L with
  | none => L
  | some l => st.write a L l.migrations (st.log a L)

end Setting

/-- The ledgers after deployments, the first one first. -/
def ledgersAfter (rounds : List (Setting × Answers)) (L : Ledgers) : Ledgers :=
  rounds.foldl (fun L r => r.1.after r.2 L) L

/-! ## The entries of a listing -/

section

variable {repo : MigrationRepository} {disk : Disk} {sources : List Source}
  {deriveRelations complete : Bool} {l : Listing} {e : RepoEntry}

theorem gate_routed (e : RepoEntry) (view : View) : (gate e view).connection = e.connection := by
  unfold gate RepoEntry.hold
  (repeat' split) <;> rfl

theorem classify_routed (e : RepoEntry) (applied : AppliedIndex) :
    (classify e applied).digest = e.digest ∧ (classify e applied).connection = e.connection := by
  unfold classify
  (repeat' split) <;> exact ⟨rfl, rfl⟩

/-- An entry is that of a file, but for its relations. -/
structure FileEntry (repo : MigrationRepository) (spec : SpecFile) (e : RepoEntry) : Prop where
  specId : e.specId = spec.id
  epoch : e.epoch = spec.epoch
  digest : e.digest = spec.digest
  connection : e.connection = repo.connectionOf spec
  known : repo.has (repo.connectionOf spec) = true → ∃ routed : RepoEntry,
    routed.specId = spec.id ∧ routed.epoch = spec.epoch ∧ routed.digest = spec.digest ∧
    e.status = (gate (classify routed (repo.view (repo.connectionOf spec)).applied)
      (repo.view (repo.connectionOf spec))).status
  unknown : repo.has (repo.connectionOf spec) = false → e.status = .unknownConnection

theorem newEntry_fileEntry (repo : MigrationRepository) (source path : String) (spec : SpecFile) :
    FileEntry repo spec (repo.newEntry source path spec) := by
  obtain ⟨hid, hepoch⟩ := repo.newEntry_keeps source path spec
  unfold MigrationRepository.newEntry at hid hepoch ⊢
  split
  next hhas =>
    rw [if_pos hhas] at hid hepoch
    have hroute := classify_routed (repo.routedEntry source path spec)
      (repo.view (repo.connectionOf spec)).applied
    refine ⟨hid, hepoch, ?_, ?_, fun _ => ?_, by simp [hhas]⟩
    · rw [(gate_keeps _ _).2.2.1, hroute.1]
      rfl
    · rw [gate_routed, hroute.2]
      rfl
    · exact ⟨repo.routedEntry source path spec, rfl, rfl, rfl, rfl⟩
  next hhas => exact ⟨rfl, rfl, rfl, rfl, by simp [hhas], fun _ => rfl⟩

/-- An entry is of a file that does not parse, or of a specification. -/
def FromFile (repo : MigrationRepository) (disk : Disk) (e : RepoEntry) : Prop :=
  e.specId = "" ∨ ∃ path spec, disk.read path = .ok spec ∧ FileEntry repo spec e

theorem readFiles_from {files : List (String × String)} : ∀ {st : Reading},
    (∀ e ∈ st.entries, FromFile repo disk e) →
      ∀ e ∈ (repo.readFiles disk st files).entries, FromFile repo disk e := by
  induction files with
  | nil => exact fun h => h
  | cons file files ih =>
    intro st h
    refine @ih (repo.readFile disk st file) fun e he => ?_
    unfold MigrationRepository.readFile at he
    split at he
    · rcases List.mem_append.mp he with he | he
      · exact h e he
      · rw [List.mem_singleton.mp he]
        exact .inl rfl
    next spec hread =>
      split at he
      · exact h e he
      · rcases List.mem_append.mp he with he | he
        · exact h e he
        · rw [List.mem_singleton.mp he]
          exact .inr ⟨file.2, spec, hread, newEntry_fileEntry repo _ _ _⟩

theorem FromFile.derived (h : FromFile repo disk e) : FromFile repo disk (repo.derived e) := by
  have hkeeps := repo.derived_keeps e
  rcases h with h | ⟨path, spec, hread, h⟩
  · exact .inl (hkeeps.2.trans h)
  · refine .inr ⟨path, spec, hread, ?_⟩
    have hrest : (repo.derived e).epoch = e.epoch ∧ (repo.derived e).digest = e.digest ∧
        (repo.derived e).connection = e.connection := by
      unfold MigrationRepository.derived
      split <;> exact ⟨rfl, rfl, rfl⟩
    refine ⟨hkeeps.2.trans h.specId, hrest.1.trans h.epoch, hrest.2.1.trans h.digest,
      hrest.2.2.trans h.connection, fun hhas => ?_, fun hhas => hkeeps.1.trans (h.unknown hhas)⟩
    rw [hkeeps.1]
    exact h.known hhas

theorem scan_entry (h : repo.scan disk sources deriveRelations complete = .ok (some l))
    (he : e ∈ l.migrations) : FromFile repo disk e := by
  unfold MigrationRepository.scan at h
  split at h
  · cases h
  · dsimp only at h
    split at h
    · cases h
    · have hl := Except.ok.inj h
      rw [MigrationRepository.listed, assemble, Option.map_eq_some_iff] at hl
      obtain ⟨r, -, rfl⟩ := hl
      have hfrom : ∀ problems files, ∀ e ∈ (repo.readFiles disk { problems := problems }
          files).entries, FromFile repo disk e := fun _ _ => readFiles_from (by simp)
      rw [listingOf] at he
      dsimp only at he
      split at he
      · obtain ⟨e', he', rfl⟩ := List.mem_map.mp he
        exact (hfrom _ _ e' he').derived
      · exact hfrom _ _ e he

end

/-! ## What a deployment writes -/

section

variable {st : Setting} {a : Answers} {L : Ledgers} {idOf : String → String}
  {migrations : List RepoEntry} {e : RepoEntry} {rows : Rows} {recorded : Bool}
  {job : Option JobRow} {db epoch id : String}

/-- The digest of a specification, which covers its id, is not that of another id. -/
def Setting.Named (idOf : String → String) (st : Setting) : Prop :=
  ∀ path spec, st.disk.read path = .ok spec → idOf spec.digest = spec.id

abbrev Ledgers.Sound (idOf : String → String) (L : Ledgers) : Prop :=
  ∀ db, History.Sound idOf (L db)

theorem JobEnd.row_unfinished (end_ : JobEnd) (h : end_.row.finished = false) :
    end_.row.state = .of .running := by
  cases end_ with
  | finished state => cases h
  | interrupted => cases h
  | died => rfl

theorem startRows_sound (h : Sound idOf rows) (hid : idOf e.digest = e.specId)
    (hjob : ∀ j ∈ job, j.finished = false → j.state = .of .running) :
    Sound idOf (Setting.startRows a e recorded job rows) := by
  have hrows : Sound idOf (if a.reconciles e.specId then reconcile rows else rows) := by
    split
    · exact h.reconcile
    · exact h
  unfold Setting.startRows
  dsimp only
  split
  · exact hrows.recordMigration hid hjob
  · exact hrows

theorem successes_startRows (h : Sound idOf rows) (hid : idOf e.digest = e.specId) :
    successes epoch id (Setting.startRows a e recorded job rows) = successes epoch id rows +
      if e.epoch = epoch ∧ e.specId = id ∧ recorded then job.toList.countP JobRow.succeeded
      else 0 := by
  have hrows : Sound idOf (if a.reconciles e.specId then reconcile rows else rows) := by
    split
    · exact h.reconcile
    · exact h
  have hsame : successes epoch id (if a.reconciles e.specId then reconcile rows else rows) =
      successes epoch id rows := by
    split
    · exact successes_reconcile h
    · rfl
  unfold Setting.startRows
  dsimp only
  cases recorded with
  | false => simp [hsame]
  | true =>
    rw [if_pos rfl, successes_recordMigration hrows hid, hsame]
    simp

/-- The id is listed in that epoch, on a connection to that database. -/
def Setting.lists (st : Setting) (migrations : List RepoEntry) (db epoch id : String) : Bool :=
  (byId migrations id).any fun e => st.database e.connection = db && e.epoch = epoch

variable (hm : ∀ id e, byId migrations id = some e → idOf e.digest = e.specId)

omit hm in
theorem start_none (h : byId migrations id = none) :
    st.start a L migrations id recorded job = L := by
  rw [Setting.start, h]

omit hm in
theorem start_some (h : byId migrations id = some e) (db : String) :
    st.start a L migrations id recorded job db =
      if db = st.database e.connection then Setting.startRows a e recorded job (L db) else L db := by
  rw [Setting.start, h]

include hm in
theorem start_sound (h : L.Sound idOf)
    (hjob : ∀ j ∈ job, j.finished = false → j.state = .of .running) :
    (st.start a L migrations id recorded job).Sound idOf := by
  intro db
  cases he : byId migrations id with
  | none =>
    rw [start_none he]
    exact h db
  | some e =>
    rw [start_some he]
    split
    · exact startRows_sound (h db) (hm id e he) hjob
    · exact h db

include hm in
theorem successes_start (h : L.Sound idOf) (id' : String) :
    successes epoch id (st.start a L migrations id' recorded job db) = successes epoch id (L db) +
      if st.lists migrations db epoch id ∧ id' = id ∧ recorded then
        job.toList.countP JobRow.succeeded
      else 0 := by
  cases he : byId migrations id' with
  | none =>
    rw [start_none he, if_neg]
    · rfl
    · rintro ⟨hl, rfl, -⟩
      simp [Setting.lists, he] at hl
  | some e =>
    obtain ⟨-, hid, -⟩ := byId_some he
    have hlists : (st.lists migrations db epoch id ∧ id' = id ∧ recorded) ↔
        db = st.database e.connection ∧ e.epoch = epoch ∧ e.specId = id ∧ recorded := by
      constructor
      · rintro ⟨hl, rfl, hr⟩
        simp only [Setting.lists, he, Option.any_some, Bool.and_eq_true, decide_eq_true_eq] at hl
        exact ⟨hl.1.symm, hl.2, hid, hr⟩
      · rintro ⟨hdb, hep, hspec, hr⟩
        obtain rfl := hid.symm.trans hspec
        exact ⟨by simp [Setting.lists, he, hdb, hep], rfl, hr⟩
    rw [start_some he, if_congr hlists rfl rfl]
    split
    next hdb =>
      rw [successes_startRows (h db) (hm id' e he)]
      simp [hdb]
    next hdb => simp [hdb]

include hm in
theorem write_sound (h : L.Sound idOf) (log : List Event) :
    (st.write a L migrations log).Sound idOf := by
  induction log with
  | nil => exact h
  | cons event log ih =>
    cases event with
    | started id job =>
      refine start_sound hm ih fun j hj => ?_
      obtain rfl := Option.mem_some.mp hj
      exact (a.ends job).row_unfinished
    | notStarted id => exact start_sound hm ih (by simp)
    | _ => exact ih

include hm in
/-- A deployment adds to the successes of an id no more jobs than it starts for it. -/
theorem successes_write (h : L.Sound idOf) (log : List Event) :
    successes epoch id (st.write a L migrations log db) ≤ successes epoch id (L db) +
      if st.lists migrations db epoch id then (startedIds log).count id else 0 := by
  induction log with
  | nil => exact Nat.le_add_right _ _
  | cons event log ih =>
    cases event with
    | started id' job =>
      rw [Setting.write, successes_start hm (write_sound hm h log), startedIds, List.count_append,
        List.count_singleton]
      have hone := List.countP_le_length (p := JobRow.succeeded)
        (l := (some (a.ends job).row).toList)
      simp only [Option.toList_some, List.length_singleton] at hone ⊢
      split <;> split at ih
      all_goals simp_all
      all_goals omega
    | notStarted id' =>
      rw [Setting.write, successes_start hm (write_sound hm h log)]
      simpa [startedIds] using ih
    | _ => exact ih

end

/-! ## Over any number of deployments -/

section

variable {st : Setting} {a : Answers} {L : Ledgers} {idOf : String → String} {l : Listing}

theorem scan_of_listing (h : st.listing a L = some l) :
    (st.repo a L).scan st.disk st.sources st.deriveRelations st.complete = .ok (some l) := by
  unfold Setting.listing at h
  split at h
  next hscan => rw [hscan, h]
  · cases h

theorem listed_named (hnamed : st.Named idOf) (h : st.listing a L = some l) (id : String)
    (e : RepoEntry) (he : byId l.migrations id = some e) : idOf e.digest = e.specId := by
  obtain ⟨hmem, hid, hne⟩ := byId_some he
  rcases scan_entry (scan_of_listing h) hmem with hnone | ⟨path, spec, hread, hfile⟩
  · exact absurd (hid.symm.trans hnone) hne
  · rw [hfile.digest, hfile.specId]
    exact hnamed path spec hread

/-- What a listing leaves runnable has not succeeded in the database it is for. -/
theorem listed_runnable (hread : ∀ c, st.unread c = none) (h : st.listing a L = some l)
    {e : RepoEntry} (he : e ∈ l.migrations) (hr : e.status.runnable = true) :
    successes e.epoch e.specId (L (st.database e.connection)) = 0 := by
  have hscan := scan_of_listing h
  rcases scan_entry hscan he with hnone | ⟨path, spec, -, hfile⟩
  · exact absurd hnone ((MigrationRepository.scan_keyed hscan).named e he hr)
  · cases hhas : (st.repo a L).has ((st.repo a L).connectionOf spec) with
    | false =>
      rw [hfile.unknown hhas] at hr
      cases hr
    | true =>
      obtain ⟨routed, hid, hepoch, -, hstatus⟩ := hfile.known hhas
      rw [hstatus] at hr
      have hclass := ((gate_runnable_iff _ _).mp hr).1
      have happlied : ((st.repo a L).view ((st.repo a L).connectionOf spec)).applied =
          appliedIndex (L (st.database e.connection)) := by
        rw [hfile.connection]
        simp only [Setting.repo, Setting.view, hread]
      rw [happlied] at hclass
      rw [hfile.epoch, hfile.specId, ← hid, ← hepoch]
      exact classify_runnable hclass

theorem startedIds_drop (k : Nat) : ∀ log : List Event,
    startedIds (log.drop k) <+: startedIds log := by
  induction k with
  | zero => exact fun log => List.prefix_rfl
  | succ k ih =>
    intro log
    cases log with
    | nil => exact List.prefix_rfl
    | cons e log =>
      refine (ih log).trans ?_
      cases e with
      | started id job => exact List.prefix_append _ _
      | _ => exact List.prefix_rfl

theorem listed_starts (h : st.listing a L = some l) :
    StartsOf st.opts l (st.run a L).1 (st.run a L).2 := by
  have hscan := scan_of_listing h
  unfold Setting.run
  rw [h]
  exact run_starts a.world st.opts a.fuel (MigrationRepository.scan_keyed hscan)
    fun hp => MigrationRepository.scan_inOrder hscan hp

/-- What is started of a listing: each id once, and only what it leaves runnable. -/
theorem listed_started (h : st.listing a L = some l) :
    (startedIds (st.log a L)).Nodup ∧
      ∀ id ∈ startedIds (st.log a L), ∃ e ∈ l.migrations, byId l.migrations id = some e ∧
        e.status.runnable = true := by
  have hscan := scan_of_listing h
  have hk := MigrationRepository.scan_keyed hscan
  have hstarts := listed_starts h
  have hlog : startedIds (st.log a L) <+: startedIds (st.run a L).2.log := startedIds_drop _ _
  refine ⟨hstarts.once.sublist hlog.sublist, fun id hid => ?_⟩
  have hid := hlog.subset hid
  have hp : l.problems = [] := by
    by_contra hp
    rw [hstarts.none (.inl hp)] at hid
    cases hid
  obtain ⟨views, hinorder⟩ := MigrationRepository.scan_inOrder hscan hp
  obtain ⟨e, he, -, hr, hb⟩ := hk.byId_runnable (hinorder.perm.subset (hstarts.inOrder.subset hid))
  exact ⟨e, he, hb, hr⟩

theorem after_none (h : st.listing a L = none) : st.after a L = L := by
  rw [Setting.after, h]

theorem after_some (h : st.listing a L = some l) :
    st.after a L = st.write a L l.migrations (st.log a L) := by
  rw [Setting.after, h]

theorem after_sound (hnamed : st.Named idOf) (hL : L.Sound idOf) : (st.after a L).Sound idOf := by
  cases hl : st.listing a L with
  | none =>
    rw [after_none hl]
    exact hL
  | some l =>
    rw [after_some hl]
    exact write_sound (listed_named hnamed hl) hL _

/-- One deployment: what has succeeded is not started again, and the rest once. -/
theorem after_once (hnamed : st.Named idOf) (hread : ∀ c, st.unread c = none) (hL : L.Sound idOf)
    {db epoch id : String} (honce : successes epoch id (L db) ≤ 1) :
    successes epoch id (st.after a L db) ≤ 1 := by
  cases hl : st.listing a L with
  | none =>
    rw [after_none hl]
    exact honce
  | some l =>
    rw [after_some hl]
    have hwrite := @successes_write st a L idOf l.migrations db epoch id (listed_named hnamed hl)
      hL (st.log a L)
    obtain ⟨hnodup, hstarted⟩ := listed_started hl
    by_cases hlists : st.lists l.migrations db epoch id = true
    · by_cases hid : id ∈ startedIds (st.log a L)
      · obtain ⟨e, he, hb, hr⟩ := hstarted id hid
        obtain ⟨-, rfl, -⟩ := byId_some hb
        simp only [Setting.lists, hb, Option.any_some, Bool.and_eq_true, decide_eq_true_eq]
          at hlists
        obtain ⟨rfl, rfl⟩ := hlists
        have hzero := listed_runnable hread hl he hr
        have hone := List.nodup_iff_count_le_one.mp hnodup e.specId
        split at hwrite <;> omega
      · rw [List.count_eq_zero.mpr hid, ite_self] at hwrite
        exact hwrite.trans honce
    · rw [if_neg hlists] at hwrite
      exact hwrite.trans honce

end

/-- Over any number of deployments, of whatever repositories and whatever their jobs come to, an id
of an epoch succeeds in a database at most once, where each deployment reads the ledgers and starts
once the processes of those before it are gone. -/
theorem history_once (idOf : String → String) (rounds : List (Setting × Answers)) (L : Ledgers)
    (hL : L.Sound idOf) (honce : ∀ db epoch id, successes epoch id (L db) ≤ 1)
    (hnamed : ∀ r ∈ rounds, r.1.Named idOf) (hread : ∀ r ∈ rounds, ∀ c, r.1.unread c = none)
    (db epoch id : String) : successes epoch id (ledgersAfter rounds L db) ≤ 1 := by
  induction rounds generalizing L with
  | nil => exact honce db epoch id
  | cons r rounds ih =>
    obtain ⟨hn, hnamed⟩ := List.forall_mem_cons.mp hnamed
    obtain ⟨hr, hread⟩ := List.forall_mem_cons.mp hread
    exact ih _ (after_sound hn hL) (fun db epoch id => after_once hn hr hL (honce db epoch id))
      hnamed hread

/-! ## One file -/

theorem initId_ne : "0001" ≠ "" := by decide

def initSpec : SpecFile := { id := "0001", id_ne := initId_ne, digest := "d1" }

def oneFile : Setting where
  disk :=
    { isDirectory := fun dir => dir = "specs"
      canonical := some
      specFiles := fun _ => ["specs/0001.json"]
      read := fun _ => .ok initSpec }
  sources := [{ name := "specs", dir := "specs" }]
  has := fun c => c = "main"
  defaultConnection := "main"
  database := fun _ => "app"
  labels := fun _ => { database := "app", epochsLive := ["default"] }

/-- Every start is accepted, and its job is found ended so. -/
def answering (state : JobState) : Answers where
  world :=
    { signal := none
      readable := fun _ _ => true
      planned := fun _ _ => some true
      started := fun _ _ => some (.accepted "job")
      rehearsed := fun _ _ => some .rehearsed
      state := fun _ _ => some state }
  fuel := 3
  ends := fun _ => .finished state

/-- A deployment whose job fails, one whose job succeeds, and one more. -/
theorem history_once_retried :
    let rounds := [(oneFile, answering .failed), (oneFile, answering .succeeded),
      (oneFile, answering .succeeded)]
    successes "default" "0001" (ledgersAfter rounds (fun _ => []) "app") = 1 ∧
      successes "default" "0001" (ledgersAfter rounds (fun _ => []) "app") ≤ 1 := by
  intro rounds
  have hnamed : ∀ r ∈ rounds, r.1.Named fun _ => "0001" := by
    intro r hr path spec hread
    simp only [rounds, List.mem_cons, List.not_mem_nil, or_false] at hr
    rcases hr with rfl | rfl | rfl
    all_goals
      cases hread
      rfl
  have hread : ∀ r ∈ rounds, ∀ c, r.1.unread c = none := by
    intro r hr c
    simp only [rounds, List.mem_cons, List.not_mem_nil, or_false] at hr
    rcases hr with rfl | rfl | rfl
    all_goals rfl
  exact ⟨by decide +kernel, history_once (fun _ => "0001") rounds (fun _ => [])
    (fun _ => sound_nil) (fun _ _ _ => Nat.zero_le 1) hnamed hread "app" "default" "0001"⟩

/-- A ledger that is not read leaves what it records pending: nothing is known to be applied, and no
epoch to be live. -/
theorem unread_twice :
    let unread := { oneFile with unread := fun _ => some "timeout expired" }
    let rounds := [(oneFile, answering .succeeded), (unread, answering .succeeded)]
    successes "default" "0001" (ledgersAfter rounds (fun _ => []) "app") = 2 := by
  decide +kernel

end History
end Laswell
