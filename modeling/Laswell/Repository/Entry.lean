import Mathlib.Data.List.Basic
import Mathlib.Data.List.Nodup

/-!
# Laswell.Repository.Entry

The data of a repository listing: one `RepoEntry` per specification file, and one `View` per
database the listing read. Both follow `repository.h` field by field; a `std::set<std::string>`
is a list of strings, of which only membership and emptiness are ever asked.

`classify` decides what the ledger already knows of an entry, in the entry's own epoch.
-/

namespace Laswell
namespace Repository

/-- What a migration touches, and why the list may be incomplete. -/
structure RelationSet where
  relations : List String := []
  opaqueWhy : List String := []
  deriving DecidableEq, Repr

def RelationSet.complete (r : RelationSet) : Bool := r.opaqueWhy.isEmpty

inductive RepoStatus where
  | pending
  | applied
  | modified
  | inProgress
  | failed
  | unreadable
  | wrongEnvironment
  | wrongDatabase
  | heldForRelease
  | heldForEpoch
  | retiredEpoch
  | unknownConnection
  deriving DecidableEq, Repr

def RepoStatus.toString : RepoStatus → String
  | .pending => "pending"
  | .applied => "applied"
  | .modified => "modified_after_apply"
  | .inProgress => "in_progress"
  | .failed => "failed"
  | .unreadable => "unreadable"
  | .wrongEnvironment => "wrong_environment"
  | .wrongDatabase => "wrong_database"
  | .heldForRelease => "held_for_release"
  | .heldForEpoch => "held_for_epoch"
  | .retiredEpoch => "retired_epoch"
  | .unknownConnection => "unknown_connection"

/-- The two states a deployment acts on. -/
def RepoStatus.runnable : RepoStatus → Bool
  | .pending => true
  | .failed => true
  | _ => false

structure RepoEntry where
  path : String := ""
  source : String := ""
  specId : String := ""
  digest : String := ""
  status : RepoStatus := .pending
  dependsOn : List String := []
  relations : RelationSet := {}
  error : String := ""
  hint : String := ""
  appliedDigest : String := ""
  connection : String := ""
  databaseName : String := ""
  databaseIdentity : String := ""
  database : String := ""
  environment : String := ""
  release : String := ""
  epoch : String := ""
  deriving DecidableEq, Repr

/-- What one ledger records of one spec id: the digests by the state of their jobs. -/
structure AppliedEntry where
  digests : List String := []
  succeeded : List String := []
  running : List String := []
  failed : List String := []
  deriving DecidableEq, Repr

/-- epoch -> spec id -> what the ledger records of it. -/
abbrev AppliedIndex := List (String × List (String × AppliedEntry))

/-- The record of `specId` in lineage `epoch`, if the ledger has one. -/
def AppliedIndex.find (a : AppliedIndex) (epoch specId : String) : Option AppliedEntry :=
  (a.lookup epoch).bind fun ids => ids.lookup specId

/-- Everything one database says about itself, read once per listing. -/
structure View where
  reachable : Bool := false
  error : String := ""
  database : String := ""
  databaseIdentity : String := ""
  environment : String := ""
  releasesReady : List String := []
  epochsLive : List String := []
  epochsRetired : List String := []
  applied : AppliedIndex := []
  deriving Repr

/-- Has any database this listing read recorded `specId` as succeeded? Every epoch counts,
retired ones included: retirement does not unsay that a migration ran. -/
def appliedSomewhere (views : List (String × View)) (specId : String) : Bool :=
  views.any fun cv =>
    cv.2.applied.any fun ep =>
      match ep.2.lookup specId with
      | none => false
      | some a => !a.succeeded.isEmpty

def classify (e : RepoEntry) (applied : AppliedIndex) : RepoEntry :=
  match applied.find e.epoch e.specId with
  | none => { e with status := .pending }
  | some a =>
    if a.running.contains e.digest then { e with status := .inProgress }
    else if a.succeeded.contains e.digest then { e with status := .applied }
    else
      match a.succeeded with
      | first :: _ =>
        { e with
          status := .modified
          appliedDigest := first
          error := "\"" ++ e.specId ++ "\" was applied here as " ++
            (first.take 12).toString ++ "…, and this file is " ++
            (e.digest.take 12).toString ++ "…"
          hint := "An applied migration was edited. The database does not match this file. " ++
            "Do not re-apply it: write a NEW spec for the difference. The bytes that were " ++
            "applied are in laswell.migration.canonical_bytes if you need to see what changed." }
      | [] =>
        if a.failed.contains e.digest then
          { e with
            status := .failed
            hint := "A prior job for this exact spec failed. Re-running resumes from " ++
              "the committed cursor if there is one." }
        else { e with status := .pending }

/-- Only the status and what explains it are written. -/
theorem classify_keeps (e : RepoEntry) (applied : AppliedIndex) :
    (classify e applied).specId = e.specId ∧ (classify e applied).epoch = e.epoch := by
  unfold classify
  (repeat' split) <;> exact ⟨rfl, rfl⟩

/-- An id applied under another digest only is never classed as runnable. -/
theorem classify_modified {e : RepoEntry} {applied : AppliedIndex} {a : AppliedEntry}
    (ha : applied.find e.epoch e.specId = some a) (hs : a.succeeded ≠ [])
    (hd : e.digest ∉ a.succeeded) : (classify e applied).status.runnable = false := by
  unfold classify
  rw [ha]
  dsimp only
  split
  · rfl
  · rw [if_neg (by simpa using hd)]
    cases hc : a.succeeded with
    | nil => exact absurd hc hs
    | cons first rest => rfl

end Repository
end Laswell
