import Laswell.Repository.Scan

/-!
# Laswell.Repository.Drift

What a listing without problems says of the ledgers it read. The comparison has two halves: a file
is classified by the one ledger it is routed to, and a record of any ledger is looked for among the
ids and epochs of all files.

* `LedgersAccounted`: each record in question has exactly one file, with a digest that is recorded.
* `scan_listed`: what follows from there being no problems.
* `scan_accounts_iff`: the records are accounted for exactly where none of them falls between the
  two halves.
-/

namespace Laswell
namespace Repository

open MigrationRepository

/-- The ledger has the digest as applied, or being applied. -/
def AppliedEntry.Has (a : AppliedEntry) (digest : String) : Prop :=
  digest ∈ a.succeeded ∨ digest ∈ a.running

instance (a : AppliedEntry) (digest : String) : Decidable (a.Has digest) :=
  inferInstanceAs (Decidable (_ ∨ _))

/-- The files of the directories that parse. -/
def readable (disk : Disk) (sources : List Source) : List SpecFile :=
  (sources.flatMap fun src => disk.specFiles src.dir).filterMap fun path =>
    (disk.read path).toOption

/-- The connections whose ledgers a listing reads. -/
def MigrationRepository.Reads (repo : MigrationRepository) (files : List SpecFile)
    (c : String) : Prop :=
  repo.has c = true ∧ (c = repo.defaultConnection ∨ ∃ f ∈ files, repo.connectionOf f = c)

/-- What the ledger of `c` has of an id in an epoch that the listing answers for. -/
structure Recorded (repo : MigrationRepository) (files : List SpecFile) (complete : Bool)
    (c epoch id : String) (a : AppliedEntry) : Prop where
  reads : repo.Reads files c
  found : (repo.view c).applied.find epoch id = some a
  applied : a.succeeded ≠ [] ∨ a.running ≠ []
  live : epoch ∉ (repo.view c).epochsRetired
  claimed : complete = true ∨ ∃ f ∈ files, f.epoch = epoch

/-- The files with an id in an epoch. -/
def filesFor (files : List SpecFile) (epoch id : String) : List SpecFile :=
  files.filter fun f => f.id = id ∧ f.epoch = epoch

/-- Each record has exactly one file, with a digest that the ledger has. -/
def LedgersAccounted (repo : MigrationRepository) (files : List SpecFile) (complete : Bool) : Prop :=
  ∀ c epoch id a, Recorded repo files complete c epoch id a →
    ∃ f, filesFor files epoch id = [f] ∧ a.Has f.digest

/-- Where a file's epoch and id, run together, are those of a record, some file has that epoch and
id; and a file with the epoch and id of a record that is routed to another connection, or that the
ledger has only as being applied, has a digest that the ledger has. -/
def Traceable (repo : MigrationRepository) (files : List SpecFile) (complete : Bool) : Prop :=
  ∀ c epoch id a, Recorded repo files complete c epoch id a →
    ((∃ f ∈ files, spelled f.epoch f.id = spelled epoch id) →
      ∃ f ∈ files, f.id = id ∧ f.epoch = epoch) ∧
    ∀ f ∈ files, f.id = id → f.epoch = epoch →
      repo.connectionOf f ≠ c ∨ a.succeeded = [] → a.Has f.digest

/-! ## A listing without problems -/

theorem assemble_problems {fuel : Nat} {views : List (String × View)} {entries : List RepoEntry}
    {problems notes : List String} {l : Listing}
    (h : assemble fuel views entries problems notes = some l) (hp : l.problems = []) :
    problems = [] ∧ ∀ e ∈ entries, e.status ≠ .modified := by
  rw [assemble, Option.map_eq_some_iff] at h
  obtain ⟨r, -, rfl⟩ := h
  simp only [listingOf, List.append_eq_nil_iff] at hp
  refine ⟨hp.1.1.1, fun e he hs => ?_⟩
  have hmodified := hp.1.1.2
  rw [modifiedProblems, List.map_eq_nil_iff, List.filter_eq_nil_iff] at hmodified
  exact hmodified e he (by simpa using hs)

section Listed

variable {repo : MigrationRepository} {st : Reading} {deriveRelations complete : Bool}
  {l : Listing}

/-- What was read has no faults and nothing modified, and nothing is said of the ledgers. -/
theorem listed_clean (h : repo.listed st deriveRelations complete = some l)
    (hp : l.problems = []) :
    st.problems = [] ∧ (∀ e ∈ st.entries, faultOf e = none ∧ e.status ≠ .modified) ∧
      ∀ cv ∈ (if repo.has repo.defaultConnection then
          repo.viewFor st.views repo.defaultConnection else st.views),
        ∀ text, Sum.inl text ∉
          remarks complete (onDisk st.entries) (epochsClaimed st.entries) cv := by
  obtain ⟨hbase, hmodified⟩ := assemble_problems h hp
  simp only [List.append_eq_nil_iff, List.filterMap_eq_nil_iff] at hbase
  obtain ⟨⟨⟨hproblems, hfaults⟩, -⟩, hsaid⟩ := hbase
  refine ⟨hproblems, fun e he => ⟨hfaults e he, ?_⟩, fun cv hcv text htext => ?_⟩
  · split at hmodified
    · rw [← (repo.derived_keeps e).1]
      exact hmodified _ (List.mem_map_of_mem he)
    · exact hmodified e he
  · have hnone := hsaid (.inl text) (List.mem_flatMap.mpr ⟨cv, hcv, htext⟩)
    cases hnone

end Listed

/-- A record that no file is spelled as is a problem, where the listing answers for it. -/
theorem remark_missing {complete : Bool} {disk claimed : List String} {cv : String × View}
    {epoch id : String} {a : AppliedEntry} (hfound : cv.2.applied.find epoch id = some a)
    (happlied : a.succeeded ≠ [] ∨ a.running ≠ []) (hlive : epoch ∉ cv.2.epochsRetired)
    (hclaimed : complete = true ∨ epoch ∈ claimed) (hdisk : spelled epoch id ∉ disk) :
    ∃ text, Sum.inl text ∈ remarks complete disk claimed cv := by
  obtain ⟨ids, hids, ha⟩ := Option.bind_eq_some_iff.mp hfound
  obtain ⟨l₁, l₂, hepoch, -⟩ := List.lookup_eq_some_iff.mp hids
  obtain ⟨m₁, m₂, hid, -⟩ := List.lookup_eq_some_iff.mp ha
  have hscope : ¬ (complete = false ∧ epoch ∉ claimed) := by
    rintro ⟨hc, hn⟩
    rcases hclaimed with h | h
    · rw [hc] at h
      cases h
    · exact hn h
  have hrun : (a.succeeded.isEmpty && a.running.isEmpty) = false := by
    rw [Bool.and_eq_false_iff, List.isEmpty_eq_false_iff, List.isEmpty_eq_false_iff]
    exact happlied
  obtain ⟨text, htext⟩ :
      ∃ text, remark complete disk claimed cv.1 epoch (id, a) = some (.inl text) :=
    ⟨_, by rw [remark, if_neg hdisk, hrun, if_neg Bool.false_ne_true]⟩
  refine ⟨text, List.mem_flatMap.mpr ⟨(epoch, ids), ?_, ?_⟩⟩
  · rw [hepoch]
    exact List.mem_append_right _ List.mem_cons_self
  · rw [if_neg hscope, if_neg hlive]
    refine List.mem_filterMap.mpr ⟨(id, a), ?_, htext⟩
    rw [hid]
    exact List.mem_append_right _ List.mem_cons_self

section Entries

variable {repo : MigrationRepository} {source path : String} {spec : SpecFile}

/-- A file is taken as modified where its own ledger has another digest as applied, and not its. -/
theorem newEntry_modified {a : AppliedEntry} (hhas : repo.has (repo.connectionOf spec) = true)
    (hfound : (repo.view (repo.connectionOf spec)).applied.find spec.epoch spec.id = some a)
    (hs : a.succeeded ≠ []) (hd : ¬ a.Has spec.digest) :
    (repo.newEntry source path spec).status = .modified := by
  obtain ⟨hsucceeded, hrunning⟩ := not_or.mp hd
  have hstatus : (classify (repo.routedEntry source path spec)
      (repo.view (repo.connectionOf spec)).applied).status = .modified := by
    have hfind : (repo.view (repo.connectionOf spec)).applied.find
        (repo.routedEntry source path spec).epoch (repo.routedEntry source path spec).specId =
          some a := hfound
    have hdigest : (repo.routedEntry source path spec).digest = spec.digest := rfl
    unfold classify
    rw [hfind]
    dsimp only
    rw [hdigest, if_neg (by simpa using hrunning), if_neg (by simpa using hsucceeded)]
    cases hc : a.succeeded with
    | nil => exact absurd hc hs
    | cons first rest => rfl
  rw [newEntry, if_pos hhas]
  -- `gate` is asked of pending and failed entries only
  rcases gate_cases (classify (repo.routedEntry source path spec)
    (repo.view (repo.connectionOf spec)).applied) (repo.view (repo.connectionOf spec))
    with ⟨hsame, -⟩ | ⟨-, hr, -⟩
  · rw [hsame]
    exact hstatus
  · rw [hstatus] at hr
    cases hr

end Entries

/-- What follows from a listing without problems: ids differ, a file has a digest that its own
ledger has where that has one as applied, and each record is spelled as a file. -/
structure Listed (repo : MigrationRepository) (files : List SpecFile) (complete : Bool) : Prop where
  distinct : (files.map SpecFile.id).Nodup
  same : ∀ f ∈ files, ∀ a,
    (repo.view (repo.connectionOf f)).applied.find f.epoch f.id = some a → a.succeeded ≠ [] →
      a.Has f.digest
  spelled : ∀ c epoch id a, Recorded repo files complete c epoch id a →
    ∃ f ∈ files, spelled f.epoch f.id = spelled epoch id

/-- The specifications read are those of the directories, in another order. -/
theorem specsOf_perm (disk : Disk) (sources : List Source) :
    (specsOf disk (filesOf disk (sources.insertionSort Source.le))).Perm
      (readable disk sources) := by
  have hread : ∀ srcs : List Source, specsOf disk (filesOf disk srcs) =
      (srcs.flatMap fun src => (disk.specFiles src.dir).insertionSort (· ≤ ·)).filterMap
        fun path => (disk.read path).toOption := by
    intro srcs
    rw [specsOf, filesOf, List.filterMap_flatMap, List.filterMap_flatMap]
    simp only [List.filterMap_map]
    rfl
  rw [hread, readable]
  refine List.Perm.filterMap _ ?_
  refine ((List.perm_insertionSort Source.le sources).flatMap_right _).trans ?_
  exact List.Perm.flatMap_left _ fun src _ => List.perm_insertionSort _ _

theorem Listed.perm {repo : MigrationRepository} {files files' : List SpecFile} {complete : Bool}
    (h : Listed repo files complete) (hperm : files.Perm files') : Listed repo files' complete := by
  have hmem : ∀ f, f ∈ files ↔ f ∈ files' := fun f => hperm.mem_iff
  refine ⟨(hperm.map SpecFile.id).nodup_iff.mp h.distinct,
    fun f hf => h.same f ((hmem f).mpr hf), ?_⟩
  rintro c epoch id a ⟨⟨hhas, hreads⟩, hfound, happlied, hlive, hclaimed⟩
  simp only [← hmem] at hreads hclaimed ⊢
  exact h.spelled c epoch id a ⟨⟨hhas, hreads⟩, hfound, happlied, hlive, hclaimed⟩

/-- The entries are those of the files, all of which parse and go to connections that are there. -/
theorem listed_of_clean {repo : MigrationRepository} {disk : Disk} {complete : Bool}
    {problems : List String} {files : List (String × String)} {st : Reading}
    (hclean : Clean repo disk { problems := problems } files st)
    (hentries : ∀ e ∈ st.entries, faultOf e = none ∧ e.status ≠ .modified)
    (hviews : ∀ cv ∈ (if repo.has repo.defaultConnection then
        repo.viewFor st.views repo.defaultConnection else st.views),
      ∀ text, Sum.inl text ∉
        remarks complete (onDisk st.entries) (epochsClaimed st.entries) cv) :
    Listed repo (specsOf disk files) complete := by
  have hall : st.entries = files.map (repo.entryOf disk) := hclean.entries
  rw [hall] at hentries hviews
  have hparsed : ∀ file ∈ files, ∃ spec ∈ specsOf disk files, disk.read file.2 = .ok spec ∧
      repo.entryOf disk file = repo.newEntry file.1 file.2 spec ∧
      repo.has (repo.connectionOf spec) = true := by
    intro file hfile
    have hfault := (hentries _ (List.mem_map_of_mem hfile)).1
    unfold entryOf at hfault
    cases hread : disk.read file.2 with
    | error e =>
      rw [hread] at hfault
      cases hfault
    | ok spec =>
      rw [hread] at hfault
      have hmem : spec ∈ specsOf disk files :=
        List.mem_filterMap.mpr ⟨file, hfile, by rw [hread]; rfl⟩
      refine ⟨spec, hmem, rfl, by rw [entryOf, hread], ?_⟩
      by_contra hhas
      simp only [newEntry, if_neg hhas] at hfault
      cases hfault
  have hfile : ∀ spec ∈ specsOf disk files, ∃ file ∈ files, disk.read file.2 = .ok spec := by
    intro spec hspec
    obtain ⟨file, hfile, hok⟩ := List.mem_filterMap.mp hspec
    refine ⟨file, hfile, ?_⟩
    cases hread : disk.read file.2 with
    | error e =>
      rw [hread] at hok
      cases hok
    | ok s =>
      rw [hread] at hok
      cases hok
      rfl
  have hfaithful : repo.Faithful st.views := hclean.faithful fun cv h => absurd h List.not_mem_nil
  refine ⟨?_, fun spec hspec a hfound hs => ?_, fun c epoch id a hrec => ?_⟩
  · have hids : st.claimed.map Prod.fst = (specsOf disk files).map SpecFile.id := hclean.claimed
    rw [← hids]
    exact hclean.distinct List.nodup_nil
  · by_contra hd
    obtain ⟨file, hmem, hread⟩ := hfile spec hspec
    obtain ⟨spec', -, hread', hentry, hhas⟩ := hparsed file hmem
    cases hread.symm.trans hread'
    refine (hentries _ (List.mem_map_of_mem hmem)).2 ?_
    rw [hentry]
    exact newEntry_modified hhas hfound hs hd
  · have hview : (c, repo.view c) ∈ (if repo.has repo.defaultConnection then
        repo.viewFor st.views repo.defaultConnection else st.views) := by
      obtain ⟨hhas, hc⟩ := hrec.reads
      rcases hc with rfl | ⟨spec, hspec, rfl⟩
      · rw [if_pos hhas]
        exact viewFor_mem hfaithful _
      · have hrouted := hclean.routed (fun cv h => absurd h List.not_mem_nil) spec hspec hhas
        split
        · exact viewFor_subset _ hrouted
        · exact hrouted
    have hclaimed : complete = true ∨ epoch ∈ epochsClaimed (files.map (repo.entryOf disk)) := by
      refine hrec.claimed.imp_right ?_
      rintro ⟨spec, hspec, rfl⟩
      obtain ⟨file, hmem, hread⟩ := hfile spec hspec
      obtain ⟨spec', -, hread', hentry, -⟩ := hparsed file hmem
      cases hread.symm.trans hread'
      have hkeeps := repo.newEntry_keeps file.1 file.2 spec
      rw [← hentry] at hkeeps
      refine List.mem_map.mpr ⟨_, List.mem_filter.mpr ⟨List.mem_map_of_mem hmem, ?_⟩, hkeeps.2⟩
      rw [hkeeps.1]
      exact decide_eq_true spec.id_ne
    have hdisk : spelled epoch id ∈ onDisk (files.map (repo.entryOf disk)) := by
      by_contra hdisk
      obtain ⟨text, htext⟩ := @remark_missing complete _ _ (c, repo.view c) epoch id a hrec.found
        hrec.applied hrec.live hclaimed hdisk
      exact hviews _ hview text htext
    obtain ⟨e, he, hspelled⟩ := List.mem_map.mp hdisk
    obtain ⟨file, hmem, rfl⟩ := List.mem_map.mp (List.mem_filter.mp he).1
    obtain ⟨spec, hspec, -, hentry, -⟩ := hparsed file hmem
    rw [hentry, (repo.newEntry_keeps _ _ _).1, (repo.newEntry_keeps _ _ _).2] at hspelled
    exact ⟨spec, hspec, hspelled⟩

theorem scan_listed {repo : MigrationRepository} {disk : Disk} {sources : List Source}
    {deriveRelations complete : Bool} {l : Listing}
    (h : repo.scan disk sources deriveRelations complete = .ok (some l)) (hp : l.problems = []) :
    Listed repo (readable disk sources) complete := by
  unfold MigrationRepository.scan at h
  split at h
  · cases h
  · dsimp only at h
    split at h
    · cases h
    · obtain ⟨hproblems, hentries, hviews⟩ := listed_clean (Except.ok.inj h) hp
      have hclean := readFiles_clean repo hproblems
      obtain ⟨-, hunique⟩ := collect_clean hclean.before
      rw [hunique] at hclean hentries hviews
      exact (listed_of_clean hclean hentries hviews).perm (specsOf_perm disk sources)

/-! ## The records -/

theorem filesFor_eq {files : List SpecFile} (hd : (files.map SpecFile.id).Nodup) {f : SpecFile}
    (hf : f ∈ files) : filesFor files f.epoch f.id = [f] := by
  have hmem : f ∈ filesFor files f.epoch f.id := List.mem_filter.mpr ⟨hf, by simp⟩
  have hsame : ∀ g ∈ filesFor files f.epoch f.id, g = f := by
    intro g hg
    obtain ⟨hg, hid⟩ := List.mem_filter.mp hg
    exact List.inj_on_of_nodup_map hd hg hf (of_decide_eq_true hid).1
  have hnodup : (filesFor files f.epoch f.id).Nodup := (List.Nodup.of_map _ hd).filter _
  rw [List.eq_replicate_of_mem hsame] at hmem hnodup ⊢
  have hone := List.nodup_replicate.mp hnodup
  have hpos := List.length_pos_of_mem hmem
  rw [List.length_replicate] at hpos
  rw [Nat.le_antisymm hone hpos]
  rfl

/-- A listing without problems accounts for what its ledgers record exactly where no record falls
between the two halves of the comparison. -/
theorem scan_accounts_iff {repo : MigrationRepository} {disk : Disk} {sources : List Source}
    {deriveRelations complete : Bool} {l : Listing}
    (h : repo.scan disk sources deriveRelations complete = .ok (some l)) (hp : l.problems = []) :
    LedgersAccounted repo (readable disk sources) complete ↔
      Traceable repo (readable disk sources) complete := by
  obtain ⟨hdistinct, hsame, hspelled⟩ := scan_listed h hp
  constructor
  · intro hacc c epoch id a hrec
    obtain ⟨f, hfor, hhas⟩ := hacc c epoch id a hrec
    have hf : f ∈ filesFor (readable disk sources) epoch id := by
      rw [hfor]
      exact List.mem_cons_self
    obtain ⟨hmem, hat⟩ := List.mem_filter.mp hf
    refine ⟨fun _ => ⟨f, hmem, of_decide_eq_true hat⟩, fun g hg hid hepoch _ => ?_⟩
    have hgfor : g ∈ filesFor (readable disk sources) epoch id :=
      List.mem_filter.mpr ⟨hg, decide_eq_true ⟨hid, hepoch⟩⟩
    rw [hfor, List.mem_singleton] at hgfor
    rwa [hgfor]
  · intro htrace c epoch id a hrec
    obtain ⟨hexact, hdigest⟩ := htrace c epoch id a hrec
    obtain ⟨f, hf, rfl, rfl⟩ := hexact (hspelled c epoch id a hrec)
    refine ⟨f, filesFor_eq hdistinct hf, ?_⟩
    by_cases hfar : repo.connectionOf f ≠ c ∨ a.succeeded = []
    · exact hdigest f hf rfl rfl hfar
    · obtain ⟨hc, hs⟩ := not_or.mp hfar
      have hfound := hrec.found
      rw [← not_not.mp hc] at hfound
      exact hsame f hf a hfound hs

/-- One directory with one file. -/
def oneFile (spec : SpecFile) : Disk where
  isDirectory _ := true
  canonical dir := some dir
  specFiles _ := ["specs/0001.json"]
  read _ := .ok spec

/-- Two connections. What the first one's ledger has of "0001" is given, the other has nothing. -/
def twoLedgers (a : AppliedEntry) : MigrationRepository where
  has c := c == "main" || c == "other"
  defaultConnection := "main"
  view c := if c = "main" then { reachable := true, applied := [("default", [("0001", a)])] }
    else { reachable := true }

def specsDir : List Source := [⟨"specs", "specs"⟩]

def applied0001 : SpecFile := { id := "0001", id_ne := by decide, digest := "d1" }

/-- What a scan has made, when something is known of it. -/
theorem scan_made {β : Type} {f : Listing → β} {b : β} {repo : MigrationRepository} {disk : Disk}
    {sources : List Source} {deriveRelations complete : Bool}
    (h : (repo.scan disk sources deriveRelations complete).toOption.join.map f = some b) :
    ∃ l : Listing, repo.scan disk sources deriveRelations complete = .ok (some l) ∧ f l = b := by
  obtain ⟨l, hl, hf⟩ := Option.map_eq_some_iff.mp h
  cases hs : repo.scan disk sources deriveRelations complete with
  | error e =>
    rw [hs] at hl
    cases hl
  | ok made =>
    rw [hs] at hl
    cases made with
    | none => cases hl
    | some l' =>
      cases hl
      exact ⟨l, rfl, hf⟩

theorem scan_silent {repo : MigrationRepository} {disk : Disk} {sources : List Source}
    {deriveRelations complete : Bool}
    (h : (repo.scan disk sources deriveRelations complete).toOption.join.map Listing.problems =
      some []) :
    ∃ l : Listing, repo.scan disk sources deriveRelations complete = .ok (some l) ∧
      l.problems = [] :=
  scan_made h

theorem scan_accounts_applied : ∃ l : Listing,
    (twoLedgers { succeeded := ["d1"] }).scan (oneFile applied0001) specsDir false false =
      .ok (some l) ∧ l.problems = [] ∧
    (LedgersAccounted (twoLedgers { succeeded := ["d1"] }) (readable (oneFile applied0001) specsDir)
        false ↔
      Traceable (twoLedgers { succeeded := ["d1"] }) (readable (oneFile applied0001) specsDir)
        false) := by
  obtain ⟨l, hl, hp⟩ := @scan_silent (twoLedgers { succeeded := ["d1"] }) (oneFile applied0001)
    specsDir false false (by decide +kernel)
  exact ⟨l, hl, hp, scan_accounts_iff hl hp⟩

/-- An applied file is edited and routed elsewhere, or edited while its job runs: nothing is said. -/
theorem scan_edit_unseen :
    let moved : SpecFile := { applied0001 with digest := "d2", targetConnection := "other" }
    let edited : SpecFile := { applied0001 with digest := "d2" }
    (∃ l : Listing, (twoLedgers { succeeded := ["d1"] }).scan (oneFile moved) specsDir false false =
        .ok (some l) ∧ l.problems = [] ∧
      ¬ LedgersAccounted (twoLedgers { succeeded := ["d1"] })
        (readable (oneFile moved) specsDir) false) ∧
    ∃ l : Listing, (twoLedgers { running := ["d1"] }).scan (oneFile edited) specsDir false false =
        .ok (some l) ∧ l.problems = [] ∧
      ¬ LedgersAccounted (twoLedgers { running := ["d1"] })
        (readable (oneFile edited) specsDir) false := by
  intro moved edited
  obtain ⟨l, hl, hp⟩ := @scan_silent (twoLedgers { succeeded := ["d1"] }) (oneFile moved)
    specsDir false false (by decide +kernel)
  obtain ⟨l', hl', hp'⟩ := @scan_silent (twoLedgers { running := ["d1"] }) (oneFile edited)
    specsDir false false (by decide +kernel)
  refine ⟨⟨l, hl, hp, fun h => ?_⟩, ⟨l', hl', hp', fun h => ?_⟩⟩
  · obtain ⟨f, hf, hhas⟩ := h "main" "default" "0001" { succeeded := ["d1"] }
      ⟨⟨rfl, .inl rfl⟩, rfl, by decide, by decide, .inr ⟨moved, List.mem_cons_self, rfl⟩⟩
    cases (show [moved] = [f] from hf)
    exact absurd hhas (by decide)
  · obtain ⟨f, hf, hhas⟩ := h "main" "default" "0001" { running := ["d1"] }
      ⟨⟨rfl, .inl rfl⟩, rfl, by decide, by decide, .inr ⟨edited, List.mem_cons_self, rfl⟩⟩
    cases (show [edited] = [f] from hf)
    exact absurd hhas (by decide)

end Repository
end Laswell
