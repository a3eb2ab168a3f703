import Laswell.Repository.Entry

/-!
# Laswell.Repository.Gate

Applicability of a specification, as the listing decides it: `gate` is asked only of an entry
that would otherwise run, and answers from what the database says of itself.

* `gate_runnable_iff`: exactly which entries and views `gate` leaves runnable.
* `Satisfied`: what the gate is for, that every constraint the specification declares is
  positively met by the view.
* `gate_satisfied_iff`: leaving an entry runnable means `Satisfied` exactly where the view can
  answer what is asked, or another constraint already holds the entry.
-/

namespace Laswell
namespace Repository

/-- A SQL literal: the text between apostrophes, its own apostrophes doubled. -/
def quoteSqlLiteral (v : String) : String :=
  "'" ++ String.ofList (v.toList.flatMap fun c => if c = '\'' then ['\'', c] else [c]) ++ "'"

def RepoEntry.hold (e : RepoEntry) (status : RepoStatus) (error hint : String) : RepoEntry :=
  { e with status := status, error := error, hint := hint }

def gate (e : RepoEntry) (view : View) : RepoEntry :=
  if !e.status.runnable then e
  else if e.database ≠ "" ∧ view.database ≠ "" ∧ e.database ≠ view.database then
    e.hold .wrongDatabase
      ("\"" ++ e.specId ++ "\" targets database \"" ++ e.database ++ "\" and this is \"" ++
        view.database ++ "\"")
      ("Nothing is wrong: this specification names another database by name, so it will never " ++
        "be applied to this one. A database name proves less than an environment label -- a " ++
        "dump restored elsewhere keeps neither -- so target.environment is the stronger " ++
        "statement if what you mean is \"production only\".")
  else if e.environment ≠ "" ∧ view.environment = "" then
    e.hold .wrongEnvironment
      ("\"" ++ e.specId ++ "\" targets environment \"" ++ e.environment ++
        "\" and this database is not labelled")
      ("Label it as the owner of the laswell schema: INSERT INTO laswell.environment(name) " ++
        "VALUES ('...') ON CONFLICT (only_one) DO UPDATE SET name = EXCLUDED.name, " ++
        "set_at = now(), set_by = current_user;")
  else if e.environment ≠ "" ∧ e.environment ≠ view.environment then
    e.hold .wrongEnvironment
      ("\"" ++ e.specId ++ "\" targets environment \"" ++ e.environment ++
        "\" and this database is \"" ++ view.environment ++ "\"")
      ("Nothing is wrong: this specification is for another database. It will stay listed " ++
        "here and will never be applied to this one.")
  else if e.epoch ∈ view.epochsRetired then
    e.hold .retiredEpoch
      ("\"" ++ e.specId ++ "\" belongs to epoch \"" ++ e.epoch ++
        "\", which this database retired")
      ("Nothing is wrong: that lineage was abandoned deliberately, and what it already applied " ++
        "stays applied. To track this change, put it in a live epoch. To revive the lineage, " ++
        "as the owner of the laswell schema: UPDATE laswell.epoch SET retired_at = NULL, " ++
        "retired_by = NULL WHERE name = " ++ quoteSqlLiteral e.epoch ++ ";")
  else if e.epoch ≠ "" ∧ e.epoch ∉ view.epochsLive ∧ view.epochsLive ≠ [] then
    e.hold .heldForEpoch
      ("\"" ++ e.specId ++ "\" belongs to epoch \"" ++ e.epoch ++
        "\", which this database has not opened")
      ("Open it as the owner of the laswell schema: INSERT INTO laswell.epoch(name, note) " ++
        "VALUES (" ++ quoteSqlLiteral e.epoch ++ ", '...'); An epoch scopes the check that " ++
        "catches drift, so opening one is a decision the deploying role must not be able to " ++
        "make for itself.")
  else if e.release ≠ "" ∧ e.release ∉ view.releasesReady then
    e.hold .heldForRelease
      ("\"" ++ e.specId ++ "\" is held: release \"" ++ e.release ++
        "\" is not marked ready in this database")
      ("Approve it as the owner of the laswell schema: INSERT INTO laswell.release(tag, ready, " ++
        "marked_ready_at, marked_by, note) VALUES (" ++ quoteSqlLiteral e.release ++
        ", true, now(), current_user, '...') ON CONFLICT (tag) DO UPDATE SET " ++
        "ready = EXCLUDED.ready, marked_ready_at = EXCLUDED.marked_ready_at, " ++
        "marked_by = EXCLUDED.marked_by, note = EXCLUDED.note;")
  else e

/-- The constraints of `e` that `gate` finds violated on positive evidence of the view. -/
def Refuted (e : RepoEntry) (view : View) : Prop :=
  (e.database ≠ "" ∧ view.database ≠ "" ∧ e.database ≠ view.database) ∨
  (e.environment ≠ "" ∧ e.environment ≠ view.environment) ∨
  e.epoch ∈ view.epochsRetired ∨
  (e.epoch ≠ "" ∧ e.epoch ∉ view.epochsLive ∧ view.epochsLive ≠ []) ∨
  (e.release ≠ "" ∧ e.release ∉ view.releasesReady)

/-- Every constraint the specification declares is positively met by the view. -/
def Satisfied (e : RepoEntry) (view : View) : Prop :=
  (e.database = "" ∨ e.database = view.database) ∧
  (e.environment = "" ∨ (view.environment ≠ "" ∧ e.environment = view.environment)) ∧
  (e.epoch ∈ view.epochsLive ∧ e.epoch ∉ view.epochsRetired) ∧
  (e.release = "" ∨ e.release ∈ view.releasesReady)

instance (e : RepoEntry) (view : View) : Decidable (Refuted e view) :=
  inferInstanceAs (Decidable (_ ∨ _))

instance (e : RepoEntry) (view : View) : Decidable (Satisfied e view) :=
  inferInstanceAs (Decidable (_ ∧ _))

@[simp] theorem RepoEntry.hold_status (e : RepoEntry) (s : RepoStatus) (error hint : String) :
    (e.hold s error hint).status = s := rfl

/-- What one call of `gate` can do: leave the entry as it is, or hold it, and then it is no
longer runnable. -/
theorem gate_cases (e : RepoEntry) (view : View) :
    (gate e view = e ∧ (e.status.runnable = true → ¬ Refuted e view)) ∨
    ((gate e view).status.runnable = false ∧ e.status.runnable = true ∧ Refuted e view) := by
  unfold gate Refuted
  split
  · left; simp_all
  · split
    · right; simp_all [RepoStatus.runnable]
    · split
      · right; simp_all [RepoStatus.runnable]
      · split
        · right; simp_all [RepoStatus.runnable]
        · split
          · right; simp_all [RepoStatus.runnable]
          · split
            · right; simp_all [RepoStatus.runnable]
            · split
              · right; simp_all [RepoStatus.runnable]
              · left; simp_all; tauto

theorem gate_runnable_iff (e : RepoEntry) (view : View) :
    (gate e view).status.runnable = true ↔ e.status.runnable = true ∧ ¬ Refuted e view := by
  rcases gate_cases e view with ⟨h, hr⟩ | ⟨h, hs, hr⟩
  · rw [h]
    exact ⟨fun hs => ⟨hs, hr hs⟩, fun hs => hs.1⟩
  · rw [h]
    exact ⟨fun hs => (by cases hs), fun hs => absurd hr hs.2⟩

/-- A held entry keeps everything but its status and the two texts that explain it. -/
theorem gate_keeps (e : RepoEntry) (view : View) :
    (gate e view).specId = e.specId ∧ (gate e view).dependsOn = e.dependsOn ∧
      (gate e view).digest = e.digest ∧ (gate e view).epoch = e.epoch ∧
      (gate e view).relations = e.relations := by
  unfold gate RepoEntry.hold
  (repeat' split) <;> exact ⟨rfl, rfl, rfl, rfl, rfl⟩

/-- What the view must be able to answer: its own name where the entry names a database, and the
entry's epoch among the live ones. -/
def Answers (e : RepoEntry) (view : View) : Prop :=
  (e.database = "" ∨ view.database ≠ "") ∧ e.epoch ∈ view.epochsLive

/-- `gate` leaves an entry runnable only on a satisfied view, exactly where the view answers what
the entry asks, or the entry was not runnable or is refuted already. -/
theorem gate_satisfied_iff (e : RepoEntry) (view : View) :
    ((gate e view).status.runnable = true → Satisfied e view) ↔
      (e.status.runnable = false ∨ Refuted e view ∨ Answers e view) := by
  rw [gate_runnable_iff]
  constructor
  · intro h
    by_cases hs : e.status.runnable = true
    · by_cases hr : Refuted e view
      · exact .inr (.inl hr)
      · obtain ⟨hdb, -, hep, -⟩ := h ⟨hs, hr⟩
        refine .inr (.inr ⟨?_, hep.1⟩)
        rcases hdb with hdb | hdb
        · exact .inl hdb
        · by_cases he : e.database = ""
          · exact .inl he
          · exact .inr (hdb ▸ he)
    · exact .inl (by simpa using hs)
  · rintro (hs | hr | ⟨hdb, hep⟩) ⟨hs', hr'⟩
    · rw [hs] at hs'; cases hs'
    · exact absurd hr hr'
    · simp only [Refuted, not_or, not_and, not_not] at hr'
      obtain ⟨h1, h2, h3, -, h5⟩ := hr'
      refine ⟨?_, ?_, ⟨hep, h3⟩, ?_⟩
      · by_cases he : e.database = ""
        · exact .inl he
        · exact .inr (h1 he (hdb.resolve_left he))
      · by_cases he : e.environment = ""
        · exact .inl he
        · exact .inr ⟨h2 he ▸ he, h2 he⟩
      · by_cases he : e.release = ""
        · exact .inl he
        · exact .inr (h5 he)

/-- A specification for database "prod" is left pending by a view that could not be read, and
one of an epoch nobody opened is left pending once the last live epoch is retired. -/
theorem gate_passes_unanswered :
    let unread : View := { error := "could not connect" }
    let forProd : RepoEntry := { specId := "0001", database := "prod", epoch := "default" }
    let retired : View :=
      { reachable := true, database := "app", epochsRetired := ["default"] }
    let unopened : RepoEntry := { specId := "0002", epoch := "v2" }
    ((gate forProd unread).status = .pending ∧ ¬ Satisfied forProd unread) ∧
      ((gate unopened retired).status = .pending ∧ ¬ Satisfied unopened retired) := by
  decide

end Repository
end Laswell
