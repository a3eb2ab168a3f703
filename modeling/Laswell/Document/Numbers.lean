import Laswell.Document.ParseSpec
import Laswell.Jobs.Config

/-!
# Laswell.Document.Numbers

The integers a document and a configuration carry, and those the program acts on. A document's
integers are read by `get<int>()`, which keeps their low 32 bits; a configuration's are checked
before they are an `int`, but one of them is multiplied later.

* `intOf_eq_iff`: an integer of a document is read as itself exactly if an `int` holds it.
* `idleTimeout`: the product of `WriteSession::begin`.
* `numbers_kept_iff`: when the program acts on the value that was written.
-/

namespace Laswell
namespace Document

open Base Canonical Jobs

/-! ## Documents -/

/-- The integer that is written. -/
def written (j : Json) : Option Int :=
  match j with
  | .numberInteger n => some n.toInt
  | .numberUnsigned n => some n.toNat
  | _ => none

/-- An `int` holds it. -/
def FitsInt (n : Int) : Prop := -2147483648 ≤ n ∧ n ≤ 2147483647

instance (n : Int) : Decidable (FitsInt n) := inferInstanceAs (Decidable (_ ∧ _))

theorem toInt_ofInt_eq_iff (n : Int) : (BitVec.ofInt 32 n).toInt = n ↔ FitsInt n := by
  have hcut : (BitVec.ofInt 32 n).toInt = n.bmod (2 ^ 32) := BitVec.toInt_ofInt n
  rw [hcut, FitsInt, Int.bmod_eq_iff (by decide)]
  omega

theorem intOf_eq_iff {j : Json} {n : Int} (h : written j = some n) : intOf j = n ↔ FitsInt n := by
  cases j with
  | numberInteger m =>
    obtain rfl : m.toInt = n := by simpa [written] using h
    exact toInt_ofInt_eq_iff _
  | numberUnsigned m =>
    obtain rfl : (m.toNat : Int) = n := by simpa [written] using h
    rw [← toInt_ofInt_eq_iff, BitVec.ofInt_natCast]
    rfl
  | _ => simp [written] at h

/-- The version the parser compares is the one that is written. -/
def KeepsVersion (doc : Json) : Prop :=
  ∀ n, written (at_ doc "laswell_spec_version") = some n → n = specVersion

/-- The minimum the plan is refused below is the one that is written. -/
def KeepsMinimum (doc : Json) (s : Spec) : Prop :=
  ∀ n, written (at_ (at_ doc "target") "min_server_version") = some n →
    s.target.minServerVersion = n

/-- An `int` holds the integer that is written, if one is. -/
def WrittenFits (j : Json) : Prop := ∀ n, written j = some n → FitsInt n

section Accepted

variable {enabled : List Vendor} {sha256 : Bytes → Option Bytes} {doc : Json} {s : Spec}

theorem accepted_version (h : (parseSpec enabled sha256 doc).run = .ok s) :
    intOf (at_ doc "laswell_spec_version") = specVersion := by
  have hholds := (Checking.run_ok_iff.1 h).1
  have hversion := hholds ⟨.specError ("spec version " ++
    intDigits (intOf (at_ doc "laswell_spec_version")) ++ " is not supported by this binary"),
    !decide (intOf (at_ doc "laswell_spec_version") ≠ specVersion)⟩
    (by simp [parseSpec, parseVersion, refuse, Checking.require])
  simpa using hversion

theorem at_of_not_has {j : Json} {key : String} (h : ¬ has j key = true) : at_ j key = .null := by
  have hnone : member? j key = none := by simpa [has] using h
  rw [at_, hnone, Option.getD_none]

theorem value_parseMinServerVersion (target : Json) :
    (parseMinServerVersion target).value = intOf (at_ target "min_server_version") := by
  unfold parseMinServerVersion
  split
  · rfl
  · rename_i hmissing
    rw [at_of_not_has hmissing]
    rfl

/-- The minimum is zero where none is written. -/
theorem accepted_minimum (h : (parseSpec enabled sha256 doc).run = .ok s) :
    s.target.minServerVersion = intOf (at_ (at_ doc "target") "min_server_version") := by
  obtain rfl := (Checking.run_ok_iff.1 h).2
  change (parseTarget doc).value.minServerVersion = _
  unfold parseTarget
  split
  · exact value_parseMinServerVersion _
  · rename_i hmissing
    rw [at_of_not_has hmissing]
    rfl

theorem accepted_keepsVersion_iff (h : (parseSpec enabled sha256 doc).run = .ok s) :
    KeepsVersion doc ↔ WrittenFits (at_ doc "laswell_spec_version") := by
  refine forall₂_congr fun n hn => ?_
  rw [← intOf_eq_iff hn, accepted_version h]
  exact eq_comm

theorem accepted_keepsMinimum_iff (h : (parseSpec enabled sha256 doc).run = .ok s) :
    KeepsMinimum doc s ↔ WrittenFits (at_ (at_ doc "target") "min_server_version") := by
  refine forall₂_congr fun n hn => ?_
  rw [← intOf_eq_iff hn, accepted_minimum h]

end Accepted

/-! ## Configurations -/

/-- The product of two `int`s, where an `int` holds it; where none does, it is undefined. -/
def mulInt (a b : Int) : Option Int := if FitsInt (a * b) then some (a * b) else none

/-- `const int idle_timeout = cfg_.executor.commit_interval_ms * 3;` -/
def idleTimeout (e : ExecutorSettings) : Option Int := mulInt e.commitIntervalMs 3

theorem idleTimeout_iff {e : ExecutorSettings} (h : Accepted e) :
    idleTimeout e = some (e.commitIntervalMs * 3) ↔ e.commitIntervalMs ≤ 715827882 := by
  have hpos := h.configured.commitInterval_pos
  have hfits : FitsInt (e.commitIntervalMs * 3) ↔ e.commitIntervalMs ≤ 715827882 := by
    unfold FitsInt
    omega
  rw [← hfits, idleTimeout, mulInt]
  split
  · rename_i hin
    exact iff_of_true rfl hin
  · rename_i hout
    exact iff_of_false (by simp) hout

/-! ## Both -/

/-- A specification to drop a table, for servers from some version on. -/
def dropTable (version minServerVersion : UInt64) : Json :=
  .object [(ascii "description", .string "d"), (ascii "id", .string "s"),
    (ascii "intents", .array [.object [(ascii "kind", .string "drop_table"),
      (ascii "schema", .string "s"), (ascii "table", .string "t")]]),
    (ascii "laswell_spec_version", .numberUnsigned version),
    (ascii "target", .object [(ascii "min_server_version", .numberUnsigned minServerVersion)])]

/-- What the parser makes of it. -/
def dropTableSpec (version minServerVersion : UInt64) : Spec :=
  (parseSpec [] (fun _ => some []) (dropTable version minServerVersion)).value

theorem dropTable_accepted :
    (parseSpec [] (fun _ => some []) (dropTable 1 150000)).run = .ok (dropTableSpec 1 150000) :=
  Checking.run_ok_iff.2 ⟨by decide +kernel, rfl⟩

/-- The version 2³² + 1, and the server version 2³² + 150000. -/
theorem dropTable_reduced :
    (parseSpec [] (fun _ => some []) (dropTable 4294967297 4295117296)).run =
      .ok (dropTableSpec 4294967297 4295117296) :=
  Checking.run_ok_iff.2 ⟨by decide +kernel, rfl⟩

def longInterval : ExecutorSettings := { commitIntervalMs := 715827883 }

theorem longInterval_read :
    applyExecutorKey {} "commit_interval_ms" "715827883" "" = .ok (some longInterval) := rfl

theorem longInterval_accepted : Accepted longInterval where
  configured := .key .defaults longInterval_read
  valid := ⟨"", rfl⟩

end Document
end Laswell
