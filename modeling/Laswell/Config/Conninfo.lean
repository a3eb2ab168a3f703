import Laswell.Base.Keywords
import Laswell.Config.Ini
import Laswell.Jobs.Config

/-!
# Laswell.Config.Conninfo

Connection strings: `quote_conninfo`, which writes a value in the keyword form, `with_dbname`, and
what libpq reads. A character is a byte here, and white space is what `isspace` says it is.

* `marks`: the characters with a meaning in a connection string.
* `Libpq`: the names libpq knows, and its reading of a URI.
* `needsQuotes_asks`: the writer quotes as `Marks.spell` does, so the rules of `Base.Keywords` apply.
* `Legible`: a parameter libpq reads as it was meant.
* `reads_joined_iff`: libpq reads a string as the parameters it was made of, exactly when each is
  legible and of a name it knows.
-/

namespace Laswell
namespace Config

open Base

/-- `needs` of `quote_conninfo` -/
def needsQuotes (v : Text) : Bool :=
  v.isEmpty || v.any fun c => c = ' ' || c = '\t' || c = '\'' || c = '\\'

def quoteConninfo (v : Text) : Text :=
  if needsQuotes v then
    '\'' :: (v.flatMap (fun c => if c = '\'' ∨ c = '\\' then ['\\', c] else [c]) ++ ['\''])
  else v

/-- What libpq reads a connection string by: blanks around parameters, quotes and escapes. -/
def marks : Marks Char where
  blank := Jobs.isSpace
  equals := '='
  quote := '\''
  escape := '\\'
  blank_equals := by decide
  blank_quote := by decide
  blank_escape := by decide
  equals_ne_quote := by decide
  equals_ne_escape := by decide
  quote_ne_escape := by decide

/-- Values without quotes hold nothing libpq would take for something else, blanks aside. -/
theorem needsQuotes_asks : marks.Asks needsQuotes := by
  intro v hv
  simp only [needsQuotes, Bool.or_eq_false_iff, List.any_eq_false, decide_eq_true_eq,
    Bool.or_eq_true, not_or, List.isEmpty_eq_false_iff] at hv
  exact ⟨hv.1, fun h => (hv.2 _ h).1.2 rfl, fun h => (hv.2 _ h).2 rfl⟩

/-- A parameter that libpq reads as it was meant: no white space in its name, and none in a value
that is written without quotes, which leaves the vertical tab, the form feed and the carriage
return out. -/
abbrev Legible (p : Text × Text) : Prop := marks.Legible needsQuotes p

/-- `k + "=" + quote_conninfo(v)` -/
def parameter (p : Text × Text) : Text := p.1 ++ '=' :: quoteConninfo p.2

/-- The parts of a connection string, with a blank between them. -/
def joined (parts : List Text) : Text := [' '].intercalate parts

theorem params_joined_iff {ps : List (Text × Text)} (he : ∀ p ∈ ps, '=' ∉ p.1) :
    marks.params (joined (ps.map parameter)) = some ps ↔ ∀ p ∈ ps, Legible p :=
  Marks.params_intercalate_iff (m := marks) needsQuotes_asks (by decide) he

/-! ## The two spellings -/

def uriPrefixes : List Text := ["postgresql://".toList, "postgres://".toList]

def isConninfoUri (url : Text) : Bool := uriPrefixes.any (·.isPrefixOf url)

def isUnreserved (c : Char) : Bool :=
  ('A' ≤ c && c ≤ 'Z') || ('a' ≤ c && c ≤ 'z') || ('0' ≤ c && c ≤ '9') ||
    c = '-' || c = '.' || c = '_' || c = '~'

def hexDigit (n : Nat) : Char := "0123456789ABCDEF".toList.getD n '0'

def percentEncode (v : Text) : Text :=
  v.flatMap fun c =>
    if isUnreserved c then [c] else ['%', hexDigit (c.toNat / 16), hexDigit (c.toNat % 16)]

def withDbname (conninfo dbname : Text) : Text :=
  if isConninfoUri conninfo then
    conninfo ++ (if '?' ∈ conninfo then '&' else '?') :: ("dbname=".toList ++ percentEncode dbname)
  else conninfo ++ " dbname=".toList ++ quoteConninfo dbname

/-- What is taken of libpq beside its reading of the keyword form: the names it has, which are plain
words, and its reading of the URI form, which makes nothing but parameters of these names. -/
structure Libpq where
  keyword : Text → Bool
  uri : Text → Option (List (Text × Text))
  keyword_plain : ∀ k, keyword k = true → ':' ∉ k
  uri_keyword : ∀ s ps, uri s = some ps → ∀ p ∈ ps, keyword p.1 = true

/-- The parameters of a connection string, in the order in which they are taken (a later one of a
name over an earlier one). A string with a name libpq does not know is refused as a whole. -/
def Libpq.reads (l : Libpq) (s : Text) : Option (List (Text × Text)) :=
  if isConninfoUri s then l.uri s
  else (marks.params s).bind fun ps => if ps.all fun p => l.keyword p.1 then some ps else none

/-- A word before the equals sign has the whole of a prefix that has none. -/
theorem prefix_name {pre n t : Text} (h : pre <+: n ++ '=' :: t) (he : '=' ∉ pre) : pre <+: n := by
  rcases Nat.le_total pre.length n.length with hle | hle
  · exact List.prefix_of_prefix_length_le h (List.prefix_append _ _) hle
  · have hn : n <+: pre := List.prefix_of_prefix_length_le (List.prefix_append _ _) h hle
    obtain ⟨rest, rfl⟩ := hn
    cases rest with
    | nil => simp
    | cons c rest =>
      rw [List.prefix_append_right_inj, List.cons_prefix_cons] at h
      exact absurd (h.1 ▸ List.mem_append_right n List.mem_cons_self) he

/-- Parameters that are taken for a URI begin with a name that holds a colon. -/
theorem uri_colon {p : Text × Text} {ps : List (Text × Text)}
    (h : isConninfoUri (joined ((p :: ps).map parameter)) = true) : ':' ∈ p.1 := by
  obtain ⟨pre, hpre, hprefix⟩ := List.any_eq_true.mp h
  have hmarks : '=' ∉ pre ∧ ':' ∈ pre := by
    rcases List.mem_cons.mp hpre with rfl | hpre
    · decide
    · obtain rfl := List.mem_singleton.mp hpre
      decide
  rw [List.isPrefixOf_iff_prefix, List.map_cons, joined, Marks.intercalate_cons, parameter,
    List.append_assoc, List.cons_append] at hprefix
  exact (prefix_name hprefix hmarks.1).subset hmarks.2

theorem reads_joined_iff (l : Libpq) {ps : List (Text × Text)} (he : ∀ p ∈ ps, '=' ∉ p.1) :
    l.reads (joined (ps.map parameter)) = some ps ↔
      ∀ p ∈ ps, Legible p ∧ l.keyword p.1 = true := by
  unfold Libpq.reads
  split
  · next huri =>
    cases ps with
    | nil => exact absurd huri (by decide)
    | cons p ps =>
      have hcolon : ':' ∈ p.1 := uri_colon huri
      constructor
      · intro h
        exact absurd hcolon (l.keyword_plain _ (l.uri_keyword _ _ h p List.mem_cons_self))
      · intro h
        exact absurd hcolon (l.keyword_plain _ (h p List.mem_cons_self).2)
  · rw [forall₂_and, ← params_joined_iff he, Option.bind_eq_some_iff]
    constructor
    · rintro ⟨ps', hread, hknown⟩
      split at hknown
      · next hall =>
        cases hknown
        exact ⟨hread, fun p hp => List.all_eq_true.mp hall p hp⟩
      · cases hknown
    · rintro ⟨hread, hknown⟩
      exact ⟨ps, hread, if_pos (List.all_eq_true.mpr hknown)⟩

/-- The string for another database has one parameter more, unless it is taken for a URI. -/
theorem withDbname_joined {ps : List (Text × Text)} (hne : ps ≠ []) (dbname : Text)
    (huri : isConninfoUri (joined (ps.map parameter)) = false) :
    withDbname (joined (ps.map parameter)) dbname =
      joined ((ps ++ [("dbname".toList, dbname)]).map parameter) := by
  unfold withDbname
  rw [huri]
  clear huri
  induction ps with
  | nil => exact absurd rfl hne
  | cons p ps ih =>
    cases ps with
    | nil => simp [joined, parameter, List.intercalate]
    | cons q ps =>
      have hrest := ih (by simp)
      simp only [Bool.false_eq_true, if_false, joined, List.map_cons, List.cons_append] at hrest ⊢
      rw [Marks.intercalate_cons, Marks.intercalate_cons]
      simp only [Marks.behind, List.map_append, List.map_cons, List.append_assoc, List.cons_append,
        List.map_nil] at hrest ⊢
      rw [hrest]

theorem noEquals_dbname : '=' ∉ "dbname".toList := by decide

/-- What libpq reads from the string for another database. -/
theorem reads_withDbname_iff (l : Libpq) {ps : List (Text × Text)} (hne : ps ≠ [])
    (he : ∀ p ∈ ps, '=' ∉ p.1) (dbname : Text) :
    l.reads (withDbname (joined (ps.map parameter)) dbname) =
        some (ps ++ [("dbname".toList, dbname)]) ↔
      ∀ p ∈ ps ++ [("dbname".toList, dbname)], Legible p ∧ l.keyword p.1 = true := by
  cases huri : isConninfoUri (joined (ps.map parameter)) with
  | false =>
    rw [withDbname_joined hne dbname huri]
    refine reads_joined_iff l fun p hp => ?_
    rcases List.mem_append.mp hp with hp | hp
    · exact he p hp
    · obtain rfl := List.mem_singleton.mp hp
      exact noEquals_dbname
  | true =>
    obtain ⟨p, ps, rfl⟩ := List.exists_cons_of_ne_nil hne
    have hcolon : ':' ∈ p.1 := uri_colon huri
    have hnot : l.keyword p.1 ≠ true := fun hk => l.keyword_plain _ hk hcolon
    have hlonger : isConninfoUri (withDbname (joined ((p :: ps).map parameter)) dbname) = true := by
      obtain ⟨pre, hpre, hprefix⟩ := List.any_eq_true.mp huri
      rw [List.isPrefixOf_iff_prefix] at hprefix
      refine List.any_eq_true.mpr ⟨pre, hpre, List.isPrefixOf_iff_prefix.mpr ?_⟩
      rw [withDbname, if_pos huri]
      exact hprefix.trans (List.prefix_append _ _)
    constructor
    · intro h
      rw [Libpq.reads, if_pos hlonger] at h
      exact absurd (l.uri_keyword _ _ h p List.mem_cons_self) hnot
    · intro h
      exact absurd (h p List.mem_cons_self).2 hnot

end Config
end Laswell
