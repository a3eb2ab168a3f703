import Laswell.Repository.Drift
import Laswell.History.Rounds

/-!
# Laswell.History.Reread

Two readings of the same files, beside different ledgers.

* `EntryOf`: an entry is that of a file, but for its relations. `scan_of`, `scan_has`: those of a
  listing are those of its files.
* `Alike`: what the readings have in common, and `reading_alike`.
* `listed_problems`: when a listing has no problems and nothing to run.
-/

namespace Laswell
namespace History

open Repository

/-! ## The entries of the same files -/

section

variable {repo : MigrationRepository} {disk : Disk} {sources : List Source}
  {deriveRelations complete : Bool} {l : Listing} {e : RepoEntry}

/-- The files that a scan reads, in its order. -/
def filesRead (disk : Disk) (sources : List Source) : List (String × String) :=
  filesOf disk (collect disk {} (sources.insertionSort Source.le)).unique

theorem readFiles_entries {files : List (String × String)} : ∀ {st : Reading},
    (∀ e ∈ st.entries, ∃ file ∈ files, e = repo.entryOf disk file) →
    ∀ rest ⊆ files, ∀ e ∈ (repo.readFiles disk st rest).entries,
      ∃ file ∈ files, e = repo.entryOf disk file := by
  intro st h rest hrest
  induction rest generalizing st with
  | nil => exact h
  | cons file rest ih =>
    refine @ih (repo.readFile disk st file) (fun e he => ?_)
      (List.subset_of_cons_subset hrest)
    have hfile : file ∈ files := hrest List.mem_cons_self
    unfold MigrationRepository.readFile at he
    split at he
    next hread =>
      rcases List.mem_append.mp he with he | he
      · exact h e he
      · refine ⟨file, hfile, ?_⟩
        rw [List.mem_singleton.mp he, MigrationRepository.entryOf, hread]
    next hread =>
      split at he
      · exact h e he
      · rcases List.mem_append.mp he with he | he
        · exact h e he
        · refine ⟨file, hfile, ?_⟩
          rw [List.mem_singleton.mp he, MigrationRepository.entryOf, hread]

/-- An entry is that of a file, but for its relations. -/
def EntryOf (repo : MigrationRepository) (disk : Disk) (file : String × String) (e : RepoEntry) :
    Prop :=
  e = repo.entryOf disk file ∨ e = repo.derived (repo.entryOf disk file)

/-- What is read of them. -/
def readingOf (repo : MigrationRepository) (disk : Disk) (sources : List Source) : Reading :=
  repo.readFiles disk { problems := (collect disk {} (sources.insertionSort Source.le)).problems }
    (filesRead disk sources)

theorem scan_reading (h : repo.scan disk sources deriveRelations complete = .ok (some l)) :
    repo.listed (readingOf repo disk sources) deriveRelations complete = some l := by
  unfold MigrationRepository.scan at h
  split at h
  · cases h
  · dsimp only at h
    split at h
    · cases h
    · exact Except.ok.inj h

/-- Whether a listing is made says nothing of the ledgers. -/
theorem scan_again {repo' : MigrationRepository}
    (h : repo.scan disk sources deriveRelations complete = .ok (some l)) :
    ∃ l', repo'.scan disk sources deriveRelations complete = .ok (some l') := by
  cases hs : repo'.scan disk sources deriveRelations complete with
  | error refusal =>
    unfold MigrationRepository.scan at h hs
    split at h
    · cases h
    next hempty =>
      rw [if_neg hempty] at hs
      dsimp only at h hs
      split at h
      · cases h
      next hfind =>
        rw [hfind] at hs
        cases hs
  | ok made =>
    cases made with
    | none => exact absurd hs (repo'.scan_total disk sources deriveRelations complete)
    | some l' => exact ⟨l', rfl⟩

theorem listed_migrations {st : Reading}
    (h : repo.listed st deriveRelations complete = some l) :
    l.migrations = if deriveRelations then st.entries.map repo.derived else st.entries := by
  rw [MigrationRepository.listed, assemble, Option.map_eq_some_iff] at h
  obtain ⟨r, -, rfl⟩ := h
  rfl

theorem scan_of (h : repo.scan disk sources deriveRelations complete = .ok (some l))
    (he : e ∈ l.migrations) : ∃ file ∈ filesRead disk sources, EntryOf repo disk file e := by
  have hfrom : ∀ e ∈ (readingOf repo disk sources).entries,
      ∃ file ∈ filesRead disk sources, e = repo.entryOf disk file :=
    readFiles_entries (by simp) _ (List.Subset.refl _)
  rw [listed_migrations (scan_reading h)] at he
  split at he
  · obtain ⟨e', he', rfl⟩ := List.mem_map.mp he
    obtain ⟨file, hfile, rfl⟩ := hfrom _ he'
    exact ⟨file, hfile, .inr rfl⟩
  · obtain ⟨file, hfile, rfl⟩ := hfrom _ he
    exact ⟨file, hfile, .inl rfl⟩

/-- A reading without problems has an entry of every file. -/
theorem reading_has (hp : (readingOf repo disk sources).problems = []) {file : String × String}
    (hfile : file ∈ filesRead disk sources) :
    repo.entryOf disk file ∈ (readingOf repo disk sources).entries := by
  have hclean := MigrationRepository.readFiles_clean repo hp
  rw [readingOf, hclean.entries, List.nil_append]
  exact List.mem_map_of_mem hfile

theorem scan_has (h : repo.scan disk sources deriveRelations complete = .ok (some l))
    (hp : l.problems = []) {file : String × String} (hfile : file ∈ filesRead disk sources) :
    ∃ e ∈ l.migrations, EntryOf repo disk file e := by
  have hl := scan_reading h
  have hmem := reading_has (listed_clean hl hp).1 hfile
  rw [listed_migrations hl]
  split
  · exact ⟨_, List.mem_map_of_mem hmem, .inr rfl⟩
  · exact ⟨_, hmem, .inl rfl⟩

theorem scan_unmodified (h : repo.scan disk sources deriveRelations complete = .ok (some l))
    (hp : l.problems = []) (he : e ∈ l.migrations) : e.status ≠ .modified := by
  have hl := scan_reading h
  rw [listed_migrations hl] at he
  rw [MigrationRepository.listed] at hl
  exact (assemble_problems hl hp).2 e he

theorem EntryOf.keeps {file : String × String} (h : EntryOf repo disk file e) :
    e.status = (repo.entryOf disk file).status ∧ e.specId = (repo.entryOf disk file).specId ∧
      e.epoch = (repo.entryOf disk file).epoch ∧ e.digest = (repo.entryOf disk file).digest ∧
      e.connection = (repo.entryOf disk file).connection := by
  rcases h with rfl | rfl
  · exact ⟨rfl, rfl, rfl, rfl, rfl⟩
  · unfold MigrationRepository.derived
    split <;> exact ⟨rfl, rfl, rfl, rfl, rfl⟩

/-- What is runnable or modified is of a specification for a connection that is known. -/
theorem EntryOf.known {file : String × String} (h : EntryOf repo disk file e)
    (hs : e.status.runnable = true ∨ e.status = .modified) : ∃ spec, disk.read file.2 = .ok spec ∧
      repo.has (repo.connectionOf spec) = true := by
  rw [h.keeps.1, MigrationRepository.entryOf] at hs
  split at hs
  · rcases hs with hs | hs <;> cases hs
  next spec hread =>
    refine ⟨spec, hread, ?_⟩
    unfold MigrationRepository.newEntry at hs
    split at hs
    next hhas => exact hhas
    next => rcases hs with hs | hs <;> cases hs

theorem EntryOf.entry {file : String × String} {spec : SpecFile} (h : EntryOf repo disk file e)
    (hread : disk.read file.2 = .ok spec) (hhas : repo.has (repo.connectionOf spec) = true) :
    e.status = (gate (classify (repo.routedEntry file.1 file.2 spec)
      (repo.view (repo.connectionOf spec)).applied) (repo.view (repo.connectionOf spec))).status ∧
      e.specId = spec.id ∧ e.epoch = spec.epoch ∧ e.digest = spec.digest ∧
      e.connection = repo.connectionOf spec := by
  have hentry : repo.entryOf disk file = repo.newEntry file.1 file.2 spec := by
    rw [MigrationRepository.entryOf, hread]
  obtain ⟨hs, hid, hep, hd, hc⟩ := h.keeps
  have hfile := newEntry_fileEntry repo file.1 file.2 spec
  rw [hentry] at hs hid hep hd hc
  refine ⟨?_, hid.trans hfile.specId, hep.trans hfile.epoch, hd.trans hfile.digest,
    hc.trans hfile.connection⟩
  rw [hs, MigrationRepository.newEntry, if_pos hhas]

end

theorem gate_modified {view : View} (h : (gate e view).status = .modified) :
    e.status = .modified := by
  unfold gate RepoEntry.hold at h
  (repeat' split at h) <;> first | exact h | cases h

theorem modified_gate {view : View} (h : e.status = .modified) : gate e view = e := by
  rw [gate, h]
  rfl

theorem faultOf_gate {view : View} (h : faultOf e = none) : faultOf (gate e view) = none := by
  unfold gate RepoEntry.hold
  (repeat' split) <;> first | exact h | rfl

theorem faultOf_classify (e : RepoEntry) (applied : AppliedIndex) :
    faultOf (classify e applied) = none := by
  unfold classify
  (repeat' split) <;> rfl

/-! ## Reading the same files again -/

section

variable {repo repo' : MigrationRepository} {disk : Disk} {sources : List Source}
  {views views' : List (String × View)}

/-- Two readings of the same files, beside different ledgers. -/
structure Alike (st st' : Reading) : Prop where
  problems : st'.problems = st.problems
  claimed : st'.claimed = st.claimed
  named : st'.entries.map (fun e => (e.specId, e.epoch)) =
    st.entries.map fun e => (e.specId, e.epoch)
  views : st'.views.map Prod.fst = st.views.map Prod.fst

theorem viewFor_names (c : String) : (repo.viewFor views c).map Prod.fst =
    if c ∈ views.map Prod.fst then views.map Prod.fst
    else (views.map Prod.fst).orderedInsert (· ≤ ·) c := by
  unfold MigrationRepository.viewFor
  cases hc : views.lookup c with
  | some v =>
    obtain ⟨l₁, l₂, hl, -⟩ := List.lookup_eq_some_iff.mp hc
    rw [if_pos (by simp [hl])]
  | none =>
    have hnot : c ∉ views.map Prod.fst := by
      intro hmem
      obtain ⟨p, hp, rfl⟩ := List.mem_map.mp hmem
      simpa using List.lookup_eq_none_iff.mp hc p hp
    rw [if_neg hnot]
    exact List.map_orderedInsert _ _ Prod.fst views (c, repo.view c) (fun _ _ => Iff.rfl)
      fun _ _ => Iff.rfl

theorem readFile_alike (hhas : repo'.has = repo.has)
    (hconn : ∀ spec, repo'.connectionOf spec = repo.connectionOf spec) {st st' : Reading}
    (h : Alike st st') (file : String × String) :
    Alike (repo.readFile disk st file) (repo'.readFile disk st' file) := by
  unfold MigrationRepository.readFile
  rw [h.claimed]
  cases disk.read file.2 with
  | error e => exact ⟨h.problems, rfl, by simp [h.named], h.views⟩
  | ok spec =>
    dsimp only
    cases st.claimed.lookup spec.id with
    | some prior => exact ⟨by simp [h.problems], rfl, h.named, h.views⟩
    | none =>
      have hnew := repo.newEntry_keeps file.1 file.2 spec
      have hnew' := repo'.newEntry_keeps file.1 file.2 spec
      refine ⟨h.problems, rfl, by simp [h.named, hnew, hnew'], ?_⟩
      dsimp only
      rw [hhas, hconn]
      split
      · rw [viewFor_names, viewFor_names, h.views]
      · exact h.views

theorem reading_alike (hhas : repo'.has = repo.has)
    (hconn : ∀ spec, repo'.connectionOf spec = repo.connectionOf spec) :
    Alike (readingOf repo disk sources) (readingOf repo' disk sources) := by
  have hfiles : ∀ (files : List (String × String)) (st st' : Reading), Alike st st' →
      Alike (repo.readFiles disk st files) (repo'.readFiles disk st' files) := by
    intro files
    induction files with
    | nil => exact fun _ _ h => h
    | cons file files ih => exact fun _ _ h => ih _ _ (readFile_alike hhas hconn h file)
  exact hfiles _ _ _ ⟨rfl, rfl, rfl, rfl⟩

theorem Alike.onDisk {st st' : Reading} (h : Alike st st') :
    onDisk st'.entries = onDisk st.entries := by
  have hnames : ∀ entries : List RepoEntry, Repository.onDisk entries =
      ((entries.map fun e => (e.specId, e.epoch)).filter fun p => p.1 ≠ "").map
        fun p => spelled p.2 p.1 := by
    intro entries
    rw [List.filter_map, List.map_map]
    rfl
  rw [hnames, hnames, h.named]

theorem Alike.epochsClaimed {st st' : Reading} (h : Alike st st') :
    epochsClaimed st'.entries = epochsClaimed st.entries := by
  have hnames : ∀ entries : List RepoEntry, Repository.epochsClaimed entries =
      ((entries.map fun e => (e.specId, e.epoch)).filter fun p => p.1 ≠ "").map Prod.snd := by
    intro entries
    rw [List.filter_map, List.map_map]
    rfl
  rw [hnames, hnames, h.named]

/-- The views that a listing is made with. -/
abbrev viewsRead (repo : MigrationRepository) (st : Reading) : List (String × View) :=
  if repo.has repo.defaultConnection then repo.viewFor st.views repo.defaultConnection
  else st.views

theorem Alike.viewsRead (hhas : repo'.has = repo.has)
    (hdefault : repo'.defaultConnection = repo.defaultConnection) {st st' : Reading}
    (h : Alike st st') :
    (viewsRead repo' st').map Prod.fst = (viewsRead repo st).map Prod.fst := by
  unfold History.viewsRead
  rw [hhas, hdefault]
  split
  · rw [viewFor_names, viewFor_names, h.views]
  · exact h.views

theorem viewsRead_faithful (hp : (readingOf repo disk sources).problems = []) :
    repo.Faithful (viewsRead repo (readingOf repo disk sources)) := by
  have hclean := MigrationRepository.readFiles_clean repo hp
  have hfaithful : repo.Faithful (readingOf repo disk sources).views :=
    hclean.faithful fun cv h => absurd h List.not_mem_nil
  unfold viewsRead
  split
  · exact MigrationRepository.viewFor_faithful hfaithful _
  · exact hfaithful

/-- The connections read are the same, each with the view that it has now. -/
theorem viewsRead_before (hhas : repo'.has = repo.has)
    (hdefault : repo'.defaultConnection = repo.defaultConnection)
    (hconn : ∀ spec, repo'.connectionOf spec = repo.connectionOf spec)
    (hp : (readingOf repo disk sources).problems = []) {cv : String × View}
    (hcv : cv ∈ viewsRead repo' (readingOf repo' disk sources)) :
    cv.2 = repo'.view cv.1 ∧
      (cv.1, repo.view cv.1) ∈ viewsRead repo (readingOf repo disk sources) := by
  have halike : Alike (readingOf repo disk sources) (readingOf repo' disk sources) :=
    reading_alike hhas hconn
  have hname : cv.1 ∈ (viewsRead repo (readingOf repo disk sources)).map Prod.fst := by
    rw [← halike.viewsRead hhas hdefault]
    exact List.mem_map_of_mem hcv
  obtain ⟨cv', hcv', hfst⟩ := List.mem_map.mp hname
  refine ⟨viewsRead_faithful (halike.problems.trans hp) cv hcv, ?_⟩
  rw [← hfst, ← viewsRead_faithful hp cv' hcv']
  exact hcv'

/-! ## What makes a problem -/

variable {st : Reading} {deriveRelations complete : Bool} {l : Listing} {e : RepoEntry}

theorem remarks_said {claimed ids : List String} {cv : String × View} {text : String}
    (h : Sum.inl text ∈ remarks complete ids claimed cv) :
    ∃ epoch records id a, (epoch, records) ∈ cv.2.applied ∧ (id, a) ∈ records ∧
      (complete = true ∨ epoch ∈ claimed) ∧ epoch ∉ cv.2.epochsRetired ∧
      spelled epoch id ∉ ids ∧ (a.succeeded ≠ [] ∨ a.running ≠ []) := by
  obtain ⟨⟨epoch, records⟩, hrecords, hsaid⟩ := List.mem_flatMap.mp h
  split at hsaid
  · cases hsaid
  next hscope =>
    split at hsaid
    · cases hsaid
    next hlive =>
      obtain ⟨⟨id, a⟩, ha, hremark⟩ := List.mem_filterMap.mp hsaid
      unfold remark at hremark
      split at hremark
      · cases hremark
      next hdisk =>
        split at hremark
        · cases hremark
        next happlied =>
          refine ⟨epoch, records, id, a, hrecords, ha, ?_, hlive, hdisk, ?_⟩
          · rw [not_and_or, Bool.not_eq_false, not_not] at hscope
            exact hscope
          · rw [Bool.and_eq_true, List.isEmpty_iff, List.isEmpty_iff, not_and_or] at happlied
            exact happlied

theorem listed_onDisk (h : repo.listed st deriveRelations complete = some l)
    (he : e ∈ l.migrations) (hne : e.specId ≠ "") :
    spelled e.epoch e.specId ∈ onDisk st.entries := by
  have hmem : ∀ e ∈ st.entries, e.specId ≠ "" → spelled e.epoch e.specId ∈ onDisk st.entries :=
    fun e he hne => List.mem_map.mpr ⟨e, List.mem_filter.mpr ⟨he, decide_eq_true hne⟩, rfl⟩
  rw [listed_migrations h] at he
  split at he
  · obtain ⟨e', he', rfl⟩ := List.mem_map.mp he
    have hkeeps : (repo.derived e').specId = e'.specId ∧ (repo.derived e').epoch = e'.epoch := by
      unfold MigrationRepository.derived
      split <;> exact ⟨rfl, rfl⟩
    rw [hkeeps.1] at hne
    rw [hkeeps.1, hkeeps.2]
    exact hmem e' he' hne
  · exact hmem e he hne

theorem listed_empty (h : repo.listed st deriveRelations complete = some l)
    (hp : l.problems = []) (hdisk : onDisk st.entries = []) :
    ∀ cv ∈ viewsRead repo st, cv.2.applied = [] := by
  rw [MigrationRepository.listed] at h
  have hbase := (assemble_problems h hp).1
  simp only [List.append_eq_nil_iff] at hbase
  have hviews := hbase.1.2
  rw [hdisk, if_pos List.isEmpty_nil, List.filterMap_eq_nil_iff] at hviews
  intro cv hcv
  have hnone := hviews cv hcv
  unfold emptyProblem at hnone
  split at hnone
  next happlied => exact List.isEmpty_iff.mp happlied
  next => cases hnone

/-- A reading without faults, of ledgers with nothing to remark, and with nothing to order. -/
theorem listed_problems (h : repo.listed st deriveRelations complete = some l)
    (hq : ∀ e ∈ l.migrations, e.status.runnable = false)
    (hm : ∀ e ∈ l.migrations, e.status ≠ .modified) (hproblems : st.problems = [])
    (hfaults : ∀ e ∈ st.entries, faultOf e = none)
    (hempty : onDisk st.entries = [] → ∀ cv ∈ viewsRead repo st, cv.2.applied = [])
    (hsaid : ∀ cv ∈ viewsRead repo st, ∀ text, Sum.inl text ∉
      remarks complete (onDisk st.entries) (epochsClaimed st.entries) cv) : l.problems = [] := by
  have hmigrations := listed_migrations h
  rw [hmigrations] at hq hm
  rw [MigrationRepository.listed, assemble, Option.map_eq_some_iff] at h
  obtain ⟨r, hr, rfl⟩ := h
  have hnone : runnableIds (if deriveRelations then st.entries.map repo.derived
      else st.entries) = [] := by
    rw [runnableIds, List.map_eq_nil_iff, List.filter_eq_nil_iff]
    intro e he
    simp [hq e he]
  have hrest : r.2 = [] := by
    rw [hnone] at hr
    unfold orderLoop at hr
    cases hr
    rfl
  simp only [listingOf, List.append_eq_nil_iff]
  refine ⟨⟨⟨⟨⟨⟨hproblems, ?_⟩, ?_⟩, ?_⟩, ?_⟩, ?_⟩, hrest⟩
  · rw [List.filterMap_eq_nil_iff]
    exact hfaults
  · split
    next hdisk =>
      rw [List.filterMap_eq_nil_iff]
      intro cv hcv
      rw [emptyProblem, hempty (List.isEmpty_iff.mp hdisk) cv hcv]
      rfl
    next => rfl
  · rw [List.filterMap_eq_nil_iff]
    rintro (text | note) hx
    · obtain ⟨cv, hcv, htext⟩ := List.mem_flatMap.mp hx
      exact absurd htext (hsaid cv hcv text)
    · rfl
  · rw [modifiedProblems, List.map_eq_nil_iff, List.filter_eq_nil_iff]
    intro e he
    simpa using hm e he
  · rw [missingProblems, hnone]
    rfl

end

end History
end Laswell
