import Laswell.Repository.Gate
import Laswell.Repository.Assemble
import Mathlib

/-!
# Laswell.Repository.Scan

A listing of the source directories (`MigrationRepository::scan`): which directories are read, each
file classified by the ledger of the connection it is routed to, and what the ledgers that were read
record and no file has. The file system, the parser and the databases are what they answer.

* `addSource`, `readFile`, `remark`: one source, one file, one record of a ledger.
* `readFile_cases`: what one file does to the listing. `readFiles_clean` is all of them, where none
  is a duplicate.
* `collect_clean`: all sources, where none is missing and none is there twice.
* `scan_total`: the listing is made.
* `scan_keyed`, `scan_inOrder`: what the ordering assumes of the entries, and what it then promises.
-/

namespace Laswell
namespace Repository

structure Source where
  name : String
  dir : String
  deriving DecidableEq

/-- What the listing takes of a document that `parse_spec` accepts; it accepts none without an
id. -/
structure SpecFile where
  id : String
  id_ne : id ≠ ""
  digest : String
  dependsOn : List String := []
  targetConnection : String := ""
  targetDatabase : String := ""
  targetEnvironment : String := ""
  targetEpoch : String := ""
  release : String := ""
  deriving DecidableEq

def SpecFile.epoch (s : SpecFile) : String := if s.targetEpoch = "" then "default" else s.targetEpoch

/-- What is thrown at a file, and returned for a listing that is not made. -/
structure Refusal where
  error : String
  hint : String := ""
  deriving DecidableEq

/-- `canonical` is `weakly_canonical`, none for its error code; `specFiles` are the regular files
that end in `.json`, as the file system lists them. -/
structure Disk where
  isDirectory : String → Bool
  canonical : String → Option String
  specFiles : String → List String
  read : String → Except Refusal SpecFile

/-- `view` is what `view_for` reads of a connection, once for a listing, and `relations` what
`derive` finds for an entry. -/
structure MigrationRepository where
  has : String → Bool
  defaultConnection : String
  view : String → View
  relations : RepoEntry → RelationSet := fun _ => {}

/-! ## Sources and files -/

/-- The order of the sources: by name, then by directory. -/
def Source.le (a b : Source) : Prop := if a.name = b.name then a.dir ≤ b.dir else a.name ≤ b.name

instance : DecidableRel Source.le := fun a b =>
  inferInstanceAs (Decidable (if a.name = b.name then a.dir ≤ b.dir else a.name ≤ b.name))

structure Sources where
  unique : List Source := []
  seenDirs : List (String × String) := []
  problems : List String := []

/-- What two spellings of one directory have in common. -/
def Disk.key (disk : Disk) (dir : String) : String := (disk.canonical dir).getD dir

def addSource (disk : Disk) (st : Sources) (src : Source) : Sources :=
  if disk.isDirectory src.dir then
    match st.seenDirs.lookup (disk.key src.dir) with
    | some prior =>
      { st with problems := st.problems ++ ["the directory " ++ src.dir ++
          " is listed twice (as \"" ++ prior ++ "\" and \"" ++ src.name ++
          "\"), so every id in it would collide with itself"] }
    | none =>
      { st with
        unique := st.unique ++ [src]
        seenDirs := st.seenDirs ++ [(disk.key src.dir, src.name)] }
  else
    { st with problems := st.problems ++ ["not a directory: " ++ src.dir ++
        ". Every source must exist, or the listing is missing migrations without knowing it."] }

def collect (disk : Disk) (st : Sources) (srcs : List Source) : Sources :=
  srcs.foldl (addSource disk) st

/-- Where nothing is said of the sources, all of them are read. -/
theorem collect_clean {disk : Disk} {srcs : List Source} : ∀ {st : Sources},
    (collect disk st srcs).problems = [] →
      st.problems = [] ∧ (collect disk st srcs).unique = st.unique ++ srcs := by
  induction srcs with
  | nil => exact fun h => ⟨h, (List.append_nil _).symm⟩
  | cons src srcs ih =>
    intro st h
    obtain ⟨hfirst, hrest⟩ := @ih (addSource disk st src) h
    have hunique : st.problems = [] ∧ (addSource disk st src).unique = st.unique ++ [src] := by
      unfold addSource at hfirst ⊢
      split at hfirst
      · split at hfirst
        · exact absurd hfirst (by simp)
        · rename_i hdir _ _
          rw [if_pos hdir]
          exact ⟨hfirst, rfl⟩
      · exact absurd hfirst (by simp)
    refine ⟨hunique.1, ?_⟩
    rw [collect, List.foldl_cons, ← collect, hrest, hunique.2, List.append_assoc]
    rfl

/-- The files of the sources: the source's name, and the path. -/
def filesOf (disk : Disk) (unique : List Source) : List (String × String) :=
  unique.flatMap fun src =>
    ((disk.specFiles src.dir).insertionSort (· ≤ ·)).map fun path => (src.name, path)

/-! ## One file -/

/-- The first file that claimed an id. -/
structure FirstSeen where
  path : String
  digest : String
  source : String

structure Reading where
  entries : List RepoEntry := []
  problems : List String := []
  claimed : List (String × FirstSeen) := []
  views : List (String × View) := []

def duplicateProblem (spec : SpecFile) (path : String) (prior : FirstSeen) : String :=
  if prior.digest = spec.digest then
    "\"" ++ spec.id ++ "\" is claimed by two files with identical content: " ++ prior.path ++
      " and " ++ path ++ ". One of them is a copy; delete it."
  else
    "\"" ++ spec.id ++ "\" is claimed by two DIFFERENT specifications: " ++ prior.path ++ " (" ++
      (prior.digest.take 12).toString ++ "…) and " ++ path ++ " (" ++
      (spec.digest.take 12).toString ++ "…). An id is what depends_on refers to and what the " ++
      "ledger records, so it cannot mean two things. Rename one."

namespace MigrationRepository

variable (repo : MigrationRepository)

/-- The connection whose ledger says whether the specification has been applied. -/
def connectionOf (spec : SpecFile) : String :=
  if spec.targetConnection = "" then repo.defaultConnection else spec.targetConnection

/-- `view_for`: the connection's view is among the views from now on, which are kept in the order
of the names. -/
def viewFor (views : List (String × View)) (connection : String) : List (String × View) :=
  match views.lookup connection with
  | some _ => views
  | none => views.orderedInsert (fun a b => a.1 ≤ b.1) (connection, repo.view connection)

def specEntry (source path : String) (spec : SpecFile) : RepoEntry where
  path := path
  source := source
  specId := spec.id
  digest := spec.digest
  dependsOn := spec.dependsOn
  database := spec.targetDatabase
  environment := spec.targetEnvironment
  release := spec.release
  epoch := spec.epoch
  connection := repo.connectionOf spec

/-- With what the database says it is. -/
def routedEntry (source path : String) (spec : SpecFile) : RepoEntry :=
  { repo.specEntry source path spec with
    databaseName := (repo.view (repo.connectionOf spec)).database
    databaseIdentity := (repo.view (repo.connectionOf spec)).databaseIdentity }

def unknownEntry (source path : String) (spec : SpecFile) : RepoEntry :=
  { repo.specEntry source path spec with
    status := .unknownConnection
    error := "\"" ++ spec.id ++ "\" targets connection \"" ++ repo.connectionOf spec ++
      "\", which this configuration does not define"
    hint := "Add a [" ++ repo.connectionOf spec ++ "] section naming its host, port, dbname and " ++
      "user, or correct target.connection. A specification cannot be classified at all until " ++
      "it is known which database's ledger to ask." }

/-- The entry of a specification that no earlier file has claimed. -/
def newEntry (source path : String) (spec : SpecFile) : RepoEntry :=
  if repo.has (repo.connectionOf spec) then
    let view := repo.view (repo.connectionOf spec)
    gate (classify (repo.routedEntry source path spec) view.applied) view
  else repo.unknownEntry source path spec

def unreadable (source path : String) (e : Refusal) : RepoEntry where
  path := path
  source := source
  status := .unreadable
  error := e.error
  hint := e.hint

def readFile (disk : Disk) (st : Reading) (file : String × String) : Reading :=
  match disk.read file.2 with
  | .error e => { st with entries := st.entries ++ [unreadable file.1 file.2 e] }
  | .ok spec =>
    match st.claimed.lookup spec.id with
    | some prior => { st with problems := st.problems ++ [duplicateProblem spec file.2 prior] }
    | none =>
      { st with
        entries := st.entries ++ [repo.newEntry file.1 file.2 spec]
        claimed := st.claimed ++ [(spec.id, ⟨file.2, spec.digest, file.1⟩)]
        views := if repo.has (repo.connectionOf spec) then
            repo.viewFor st.views (repo.connectionOf spec) else st.views }

def readFiles (disk : Disk) (st : Reading) (files : List (String × String)) : Reading :=
  files.foldl (repo.readFile disk) st

/-- The entry of a file that is no duplicate. -/
def entryOf (disk : Disk) (file : String × String) : RepoEntry :=
  match disk.read file.2 with
  | .error e => unreadable file.1 file.2 e
  | .ok spec => repo.newEntry file.1 file.2 spec

theorem newEntry_keeps (source path : String) (spec : SpecFile) :
    (repo.newEntry source path spec).specId = spec.id ∧
      (repo.newEntry source path spec).epoch = spec.epoch := by
  unfold newEntry
  split
  · obtain ⟨hid, -, -, hepoch, -⟩ := gate_keeps (classify (repo.routedEntry source path spec)
      (repo.view (repo.connectionOf spec)).applied) (repo.view (repo.connectionOf spec))
    rw [hid, hepoch]
    exact classify_keeps _ _
  · exact ⟨rfl, rfl⟩

/-- The views are those of their connections. -/
def Faithful (views : List (String × View)) : Prop := ∀ cv ∈ views, cv.2 = repo.view cv.1

section Views

variable {repo} {views : List (String × View)}

theorem viewFor_subset (c : String) : views ⊆ repo.viewFor views c := by
  intro cv h
  unfold viewFor
  split
  · exact h
  · rw [List.mem_orderedInsert]
    exact .inr h

theorem viewFor_faithful (h : repo.Faithful views) (c : String) :
    repo.Faithful (repo.viewFor views c) := by
  intro cv hcv
  unfold viewFor at hcv
  split at hcv
  · exact h cv hcv
  · rcases (List.mem_orderedInsert _).mp hcv with rfl | hcv
    · rfl
    · exact h cv hcv

theorem viewFor_mem (h : repo.Faithful views) (c : String) :
    (c, repo.view c) ∈ repo.viewFor views c := by
  unfold viewFor
  split
  · rename_i v hv
    obtain ⟨l₁, l₂, hl, -⟩ := List.lookup_eq_some_iff.mp hv
    have hmem : (c, v) ∈ views := by
      rw [hl]
      exact List.mem_append_right _ List.mem_cons_self
    rwa [← h (c, v) hmem]
  · rw [List.mem_orderedInsert]
    exact .inl rfl

end Views

/-- A file is unreadable, or the first with its id, or a duplicate that is a problem. -/
theorem readFile_cases (disk : Disk) (st : Reading) (file : String × String) :
    (∃ e, disk.read file.2 = .error e ∧ repo.readFile disk st file =
      { st with entries := st.entries ++ [repo.entryOf disk file] }) ∨
    (∃ spec, disk.read file.2 = .ok spec ∧ spec.id ∉ st.claimed.map Prod.fst ∧
      repo.readFile disk st file =
        { st with
          entries := st.entries ++ [repo.entryOf disk file]
          claimed := st.claimed ++ [(spec.id, ⟨file.2, spec.digest, file.1⟩)]
          views := if repo.has (repo.connectionOf spec) then
              repo.viewFor st.views (repo.connectionOf spec) else st.views }) ∨
    (repo.readFile disk st file).problems ≠ [] := by
  cases hread : disk.read file.2 with
  | error e =>
    refine .inl ⟨e, rfl, ?_⟩
    simp only [readFile, entryOf, hread]
  | ok spec =>
    cases hprior : st.claimed.lookup spec.id with
    | some prior =>
      refine .inr (.inr ?_)
      simp [readFile, hread, hprior]
    | none =>
      refine .inr (.inl ⟨spec, rfl, fun hmem => ?_, ?_⟩)
      · obtain ⟨p, hp, hid⟩ := List.mem_map.mp hmem
        simpa [hid] using List.lookup_eq_none_iff.mp hprior p hp
      · simp only [readFile, entryOf, hread, hprior]

/-- The specifications of the files that parse. -/
def specsOf (disk : Disk) (files : List (String × String)) : List SpecFile :=
  files.filterMap fun f => (disk.read f.2).toOption

/-- What is read of files none of which is a duplicate: an entry for each, ids that differ, and the
views of the connections they are routed to. -/
structure Clean (disk : Disk) (st : Reading) (files : List (String × String)) (r : Reading) :
    Prop where
  before : st.problems = []
  entries : r.entries = st.entries ++ files.map (repo.entryOf disk)
  claimed : r.claimed.map Prod.fst = st.claimed.map Prod.fst ++ (specsOf disk files).map SpecFile.id
  distinct : (st.claimed.map Prod.fst).Nodup → (r.claimed.map Prod.fst).Nodup
  faithful : repo.Faithful st.views → repo.Faithful r.views
  kept : st.views ⊆ r.views
  routed : repo.Faithful st.views → ∀ spec ∈ specsOf disk files,
    repo.has (repo.connectionOf spec) = true →
      (repo.connectionOf spec, repo.view (repo.connectionOf spec)) ∈ r.views

theorem readFiles_clean {disk : Disk} {files : List (String × String)} : ∀ {st : Reading},
    (repo.readFiles disk st files).problems = [] →
      Clean repo disk st files (repo.readFiles disk st files) := by
  induction files with
  | nil =>
    intro st h
    exact ⟨h, (List.append_nil _).symm, (List.append_nil _).symm, id, id, List.Subset.refl _,
      fun _ spec hspec => absurd hspec List.not_mem_nil⟩
  | cons file files ih =>
    intro st h
    obtain ⟨hbefore, hentries, hclaimed, hdistinct, hfaithful, hkept, hrouted⟩ :=
      @ih (repo.readFile disk st file) h
    have hall : repo.readFiles disk st (file :: files) =
        repo.readFiles disk (repo.readFile disk st file) files := rfl
    rw [hall]
    rcases repo.readFile_cases disk st file with ⟨e, hread, hst⟩ | ⟨spec, hread, hnew, hst⟩ | hbad
    · have hspecs : specsOf disk (file :: files) = specsOf disk files := by
        simp [specsOf, hread, Except.toOption]
      rw [hst] at hbefore hentries hclaimed hdistinct hfaithful hkept hrouted ⊢
      refine ⟨hbefore, ?_, ?_, hdistinct, hfaithful, hkept, ?_⟩
      · rw [hentries, List.append_assoc]
        rfl
      · rw [hclaimed, hspecs]
      · rw [hspecs]
        exact hrouted
    · have hspecs : specsOf disk (file :: files) = spec :: specsOf disk files := by
        simp [specsOf, hread, Except.toOption]
      rw [hst] at hbefore hentries hclaimed hdistinct hfaithful hkept hrouted ⊢
      have hsub : st.views ⊆ if repo.has (repo.connectionOf spec) then
          repo.viewFor st.views (repo.connectionOf spec) else st.views := by
        split
        · exact viewFor_subset _
        · exact List.Subset.refl _
      have hviews : repo.Faithful st.views → repo.Faithful
          (if repo.has (repo.connectionOf spec) then
            repo.viewFor st.views (repo.connectionOf spec) else st.views) := by
        intro hf
        split
        · exact viewFor_faithful hf _
        · exact hf
      refine ⟨hbefore, ?_, ?_, fun hnd => hdistinct ?_, fun hf => hfaithful (hviews hf),
        List.Subset.trans hsub hkept, fun hf s hs hhas => ?_⟩
      · rw [hentries, List.append_assoc]
        rfl
      · rw [hclaimed, hspecs, List.map_append, List.append_assoc]
        rfl
      · rw [List.map_append, List.nodup_append]
        refine ⟨hnd, List.nodup_singleton _, fun a ha b hb hab => ?_⟩
        rw [List.mem_singleton.mp hb] at hab
        have hid : a = spec.id := hab
        exact hnew (hid ▸ ha)
      · rw [hspecs] at hs
        rcases List.mem_cons.mp hs with rfl | hs
        · refine hkept ?_
          rw [if_pos hhas]
          exact viewFor_mem hf _
        · exact hrouted (hviews hf) s hs hhas
    · exact absurd hbefore hbad

/-- The ids of the entries are those that were claimed, each once. -/
structure Claims (st : Reading) : Prop where
  ids : (st.entries.map RepoEntry.specId).filter (fun id => id ≠ "") = st.claimed.map Prod.fst
  distinct : (st.claimed.map Prod.fst).Nodup
  named : ∀ e ∈ st.entries, e.status.runnable = true → e.specId ≠ ""

theorem Claims.readFile {disk : Disk} {st : Reading} (h : Claims st) (file : String × String) :
    Claims (repo.readFile disk st file) := by
  unfold MigrationRepository.readFile
  split
  · refine ⟨?_, h.distinct, fun e' he' hr => ?_⟩
    · simp [← h.ids, unreadable]
    · rcases List.mem_append.mp he' with he' | he'
      · exact h.named e' he' hr
      · rw [List.mem_singleton.mp he'] at hr
        cases hr
  · rename_i spec _
    split
    · exact ⟨h.ids, h.distinct, h.named⟩
    · rename_i hprior
      have hid : (repo.newEntry file.1 file.2 spec).specId = spec.id :=
        (repo.newEntry_keeps _ _ _).1
      have hnew : spec.id ∉ st.claimed.map Prod.fst := by
        intro hmem
        obtain ⟨p, hp, heq⟩ := List.mem_map.mp hmem
        simpa [heq] using List.lookup_eq_none_iff.mp hprior p hp
      refine ⟨?_, ?_, fun e' he' hr => ?_⟩
      · simp [← h.ids, hid, spec.id_ne]
      · rw [List.map_append, List.nodup_append]
        refine ⟨h.distinct, List.nodup_singleton _, fun a ha b hb hab => ?_⟩
        rw [List.mem_singleton.mp hb] at hab
        have heq : a = spec.id := hab
        exact hnew (heq ▸ ha)
      · rcases List.mem_append.mp he' with he' | he'
        · exact h.named e' he' hr
        · rw [List.mem_singleton.mp he', hid]
          exact spec.id_ne

theorem Claims.readFiles {disk : Disk} {files : List (String × String)} : ∀ {st : Reading},
    Claims st → Claims (repo.readFiles disk st files) := by
  induction files with
  | nil => exact fun h => h
  | cons file files ih => exact fun h => ih (h.readFile repo file)

end MigrationRepository

/-- A fault of the repository that an entry stands for. -/
def faultOf (e : RepoEntry) : Option String :=
  match e.status with
  | .unknownConnection => some (e.error ++ ". " ++ e.hint)
  | .unreadable =>
    some (e.path ++ " does not parse, so what it changes and where it belongs in the order are " ++
      "both unknown: " ++ if e.error = "" then "no detail" else e.error)
  | _ => none

/-! ## The ledgers -/

/-- How an id in an epoch is spelled in `on_disk`. -/
def spelled (epoch id : String) : String := epoch ++ "\x1f" ++ id

def onDisk (entries : List RepoEntry) : List String :=
  (entries.filter fun e => e.specId ≠ "").map fun e => spelled e.epoch e.specId

def epochsClaimed (entries : List RepoEntry) : List String :=
  (entries.filter fun e => e.specId ≠ "").map RepoEntry.epoch

/-- A ledger that records something, against a repository that describes nothing. -/
def emptyProblem (cv : String × View) : Option String :=
  if cv.2.applied.isEmpty then none
  else some ("this repository describes no migrations at all, and the ledger of \"" ++ cv.1 ++
    "\" records " ++ toString (cv.2.applied.map fun ep => ep.2.length).sum ++
    ". Nothing can be checked against nothing: either the path is wrong, or every " ++
    "specification was deleted.")

/-- What is said of one record: nothing where a file has its id and epoch, a note where it was
never applied, and a problem else. -/
def remark (complete : Bool) (disk claimed : List String) (conn epoch : String)
    (record : String × AppliedEntry) : Option (String ⊕ String) :=
  if spelled epoch record.1 ∈ disk then none
  else if record.2.succeeded.isEmpty && record.2.running.isEmpty then
    some (.inr ("the ledger of \"" ++ conn ++ "\" records \"" ++ record.1 ++ "\" in epoch \"" ++
      epoch ++ "\" as started and never applied, and no file in this repository has that id. " ++
      "Nothing is held against it. A job that failed may have committed some of its steps; " ++
      "laswell.step says which."))
  else
    some (.inl ("the ledger of \"" ++ conn ++ "\" records \"" ++ record.1 ++
      "\" as applied in epoch \"" ++ epoch ++ "\", and no file in this repository has that id " ++
      "in that epoch. It was applied from somewhere else, or the file was deleted." ++
      if complete = true ∧ epoch ∉ claimed then
        " This manifest declares itself complete, so it answers for that epoch too."
      else ""))

/-- The records of a view that the listing answers for: those of the epochs that it claims, or of
all where it is complete, and that the database has not retired. -/
def remarks (complete : Bool) (disk claimed : List String) (cv : String × View) :
    List (String ⊕ String) :=
  cv.2.applied.flatMap fun ep =>
    if complete = false ∧ ep.1 ∉ claimed then []
    else if ep.1 ∈ cv.2.epochsRetired then []
    else ep.2.filterMap (remark complete disk claimed cv.1 ep.1)

/-! ## The listing -/

namespace MigrationRepository

variable (repo : MigrationRepository)

def derived (e : RepoEntry) : RepoEntry :=
  match e.status with
  | .unreadable => e
  | .applied => e
  | .unknownConnection => e
  | _ => { e with relations := repo.relations e }

theorem derived_keeps (e : RepoEntry) :
    (repo.derived e).status = e.status ∧ (repo.derived e).specId = e.specId := by
  unfold derived
  split <;> exact ⟨rfl, rfl⟩

/-- The listing of what was read. -/
def listed (st : Reading) (deriveRelations complete : Bool) : Option Listing :=
  let views := if repo.has repo.defaultConnection then repo.viewFor st.views repo.defaultConnection
    else st.views
  let disk := onDisk st.entries
  let said := views.flatMap (remarks complete disk (epochsClaimed st.entries))
  assemble st.entries.length views
    (if deriveRelations then st.entries.map repo.derived else st.entries)
    (st.problems ++ st.entries.filterMap faultOf ++
      (if disk.isEmpty then views.filterMap emptyProblem else []) ++
      said.filterMap Sum.getLeft?)
    (said.filterMap Sum.getRight?)

def scan (disk : Disk) (sources : List Source) (deriveRelations complete : Bool) :
    Except Refusal (Option Listing) :=
  if sources.isEmpty then
    .error ⟨"no source directory given",
      "Point `directory` at the folder holding the migration specs, or `directories` at several."⟩
  else
    let ordered := sources.insertionSort Source.le
    match ordered.find? fun src => !disk.isDirectory src.dir && ordered.length == 1 with
    | some src =>
      .error ⟨"not a directory: " ++ src.dir,
        "Point `directory` at the folder holding the migration specs."⟩
    | none =>
      let found := collect disk {} ordered
      .ok (repo.listed (repo.readFiles disk { problems := found.problems }
        (filesOf disk found.unique)) deriveRelations complete)

/-- A listing is made, whatever was read. -/
theorem scan_total (disk : Disk) (sources : List Source) (deriveRelations complete : Bool) :
    repo.scan disk sources deriveRelations complete ≠ .ok none := by
  have hlisted : ∀ st : Reading, repo.listed st deriveRelations complete ≠ none := by
    intro st h
    rw [listed, assemble, Option.map_eq_none_iff] at h
    have hlen : (runnableIds (if deriveRelations then st.entries.map repo.derived
        else st.entries)).length ≤ st.entries.length := by
      rw [runnableIds, List.length_map]
      refine (List.length_filter_le _ _).trans ?_
      split
      · rw [List.length_map]
      · exact Nat.le_refl _
    obtain ⟨r, hr⟩ := orderLoop_total _ _ _ [] [] hlen
    rw [hr] at h
    cases h
  intro h
  unfold MigrationRepository.scan at h
  split at h
  · cases h
  · dsimp only at h
    split at h
    · cases h
    · exact hlisted _ (Except.ok.inj h)

/-- An id is that of one entry of a listing, and whatever could run has one. -/
theorem scan_keyed {repo : MigrationRepository} {disk : Disk} {sources : List Source}
    {deriveRelations complete : Bool} {l : Listing}
    (h : repo.scan disk sources deriveRelations complete = .ok (some l)) :
    Keyed l.migrations := by
  have hkeyed : ∀ st : Reading, Claims st →
      Keyed (if deriveRelations then st.entries.map repo.derived else st.entries) := by
    intro st hst
    have hentries : Keyed st.entries := ⟨by rw [hst.ids]; exact hst.distinct, hst.named⟩
    split
    · refine ⟨?_, fun e he hr => ?_⟩
      · have hids : (st.entries.map repo.derived).map RepoEntry.specId =
            st.entries.map RepoEntry.specId := by
          rw [List.map_map]
          exact List.map_congr_left fun e _ => (repo.derived_keeps e).2
        rw [hids]
        exact hentries.unique
      · obtain ⟨e', he', rfl⟩ := List.mem_map.mp he
        rw [(repo.derived_keeps e').1] at hr
        rw [(repo.derived_keeps e').2]
        exact hentries.named e' he' hr
    · exact hentries
  unfold MigrationRepository.scan at h
  split at h
  · cases h
  · dsimp only at h
    split at h
    · cases h
    · have hl := Except.ok.inj h
      rw [listed, assemble, Option.map_eq_some_iff] at hl
      obtain ⟨r, -, rfl⟩ := hl
      refine hkeyed _ (Claims.readFiles repo ⟨rfl, List.nodup_nil, ?_⟩)
      exact fun e he => absurd he List.not_mem_nil

theorem scan_inOrder {repo : MigrationRepository} {disk : Disk} {sources : List Source}
    {deriveRelations complete : Bool} {l : Listing}
    (h : repo.scan disk sources deriveRelations complete = .ok (some l)) (hp : l.problems = []) :
    ∃ views, l.InOrder views := by
  have hkeyed := scan_keyed h
  unfold MigrationRepository.scan at h
  split at h
  · cases h
  · dsimp only at h
    split at h
    · cases h
    · have hl := Except.ok.inj h
      rw [listed, assemble, Option.map_eq_some_iff] at hl
      obtain ⟨r, hr, rfl⟩ := hl
      exact ⟨_, listingOf_inOrder hkeyed hr hp⟩

end MigrationRepository

end Repository
end Laswell
