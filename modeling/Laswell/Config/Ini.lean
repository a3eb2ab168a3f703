import Mathlib
import Laswell.Base.Lines

/-!
# Laswell.Config.Ini

The configuration file as text: sections of `key = value` lines (`Registry::from_ini`, up to where
the sections get their meaning).

* `readLine`, `readIni`: one line, and the file. The first line that cannot be read is reported.
* `Section.Valid`: what a section that was read looks like.
* `readIni_valid`: what is read is valid, and says under each header what the lines below it say,
  none of them left out.
* `readIni_printIni`: every list of valid sections is what its own text says.
-/

namespace Laswell
namespace Config

open Base

abbrev Text := List Char

def isBlank (c : Char) : Bool := c = ' ' || c = '\t' || c = '\r' || c = '\n'

/-- `trim` -/
def trim (s : Text) : Text := (s.dropWhile isBlank).rdropWhile isBlank

/-- `strip_comment` -/
def stripComment (s : Text) : Text := s.takeWhile fun c => c ≠ ';' && c ≠ '#'

structure Section where
  name : Text
  keys : List (Text × Text) := []
  deriving DecidableEq

/-- `sections[section][key] = value`, in the order of `std::map`. -/
def insertKey (kv : Text × Text) (kvs : List (Text × Text)) : List (Text × Text) :=
  kvs.orderedInsert (fun a b => a.1 ≤ b.1) kv

/-- `path:lineno: what` -/
def reported {α : Type} (path : String) (lineno : Nat) (what : String) : Except String α :=
  .error (path ++ ":" ++ toString lineno ++ ": " ++ what)

/-- One line; the section it belongs to is the first one. -/
def readLine (path : String) (lineno : Nat) (line : Text) (sections : List Section) :
    Except String (List Section) :=
  let text := trim (stripComment line)
  match text with
  | [] => .ok sections
  | c :: rest =>
    if c = '[' then
      if text.getLast? ≠ some ']' then reported path lineno "unterminated section header"
      else
        let name := trim rest.dropLast
        if name = [] then reported path lineno "empty section name"
        else if sections.any fun s => s.name = name then
          reported path lineno ("duplicate section [" ++ String.ofList name ++ "]")
        else .ok ({ name } :: sections)
    else
      match sections with
      | [] => reported path lineno "key outside any section"
      | current :: earlier =>
        if '=' ∉ text then reported path lineno "expected key = value"
        else
          let key := trim (text.takeWhile (· ≠ '='))
          let value := trim ((text.dropWhile (· ≠ '=')).drop 1)
          if key = [] then reported path lineno "empty key"
          else if current.keys.any fun kv => kv.1 = key then
            reported path lineno ("duplicate key " ++ String.ofList key ++ " in [" ++
              String.ofList current.name ++ "]")
          else .ok ({ current with keys := insertKey (key, value) current.keys } :: earlier)

def readLines (path : String) : Nat → List Text → List Section → Except String (List Section)
  | _, [], sections => .ok sections
  | lineno, line :: lines, sections => do
    let sections ← readLine path lineno line sections
    readLines path (lineno + 1) lines sections

/-- The sections of a file, in order. -/
def readIni (path : String) (content : Text) : Except String (List Section) :=
  (readLines path 1 (getlines '\n' content) []).map List.reverse

/-! ## Trimmed text -/

theorem trim_head {s : Text} {c : Char} (h : c ∈ (trim s).head?) : isBlank c = false := by
  have hd : c ∈ (s.dropWhile isBlank).head? := by
    obtain ⟨t, ht⟩ := List.rdropWhile_prefix isBlank (s.dropWhile isBlank)
    rw [← ht]
    unfold trim at h
    cases hr : (s.dropWhile isBlank).rdropWhile isBlank with
    | nil => simp [hr] at h
    | cons d r => simpa [hr] using h
  have hnot := List.head?_dropWhile_not isBlank s
  rw [Option.mem_def.mp hd] at hnot
  simpa using hnot

theorem trim_last {s : Text} {c : Char} (h : c ∈ (trim s).getLast?) : isBlank c = false := by
  unfold trim at h
  have hne : (s.dropWhile isBlank).rdropWhile isBlank ≠ [] := by
    intro hnil
    simp [hnil] at h
  have hlast := List.rdropWhile_last_not isBlank (s.dropWhile isBlank) hne
  rw [Option.mem_def, List.getLast?_eq_getLast_of_ne_nil hne, Option.some.injEq] at h
  rw [h] at hlast
  simpa using hlast

theorem trim_of_ends {s : Text} (hh : ∀ c ∈ s.head?, isBlank c = false)
    (hl : ∀ c ∈ s.getLast?, isBlank c = false) : trim s = s := by
  have hd : s.dropWhile isBlank = s := by
    cases s with
    | nil => rfl
    | cons c s => simp [hh c rfl]
  rw [trim, hd, List.rdropWhile_eq_self_iff]
  intro hne
  simp [hl _ (List.getLast?_eq_getLast_of_ne_nil hne)]

theorem trim_cons {c : Char} (h : isBlank c = false) (s : Text) :
    (trim (c :: s)).head? = some c := by
  rw [trim, List.dropWhile_cons_of_neg (by simp [h])]
  obtain ⟨t, ht⟩ := List.rdropWhile_prefix isBlank (c :: s)
  cases hr : (c :: s).rdropWhile isBlank with
  | nil =>
    have hall := List.rdropWhile_eq_nil_iff.mp hr c (by simp)
    simp [h] at hall
  | cons d r =>
    rw [hr] at ht
    simp only [List.cons_append, List.cons.injEq] at ht
    simp [ht.1]

theorem trim_trim (s : Text) : trim (trim s) = trim s :=
  trim_of_ends (fun _ h => trim_head h) fun _ h => trim_last h

theorem trim_subset {s : Text} {c : Char} (h : c ∈ trim s) : c ∈ s :=
  (List.dropWhile_sublist isBlank).subset
    ((List.rdropWhile_prefix isBlank _).sublist.subset h)

/-! ## What a line says -/

inductive Statement where
  | header (name : Text)
  | pair (key value : Text)

/-- What a line says, if it says anything. -/
def statementOf (line : Text) : Option Statement :=
  match trim (stripComment line) with
  | [] => none
  | c :: rest =>
    if c = '[' then some (.header (trim rest.dropLast))
    else some (.pair (trim ((c :: rest).takeWhile (· ≠ '=')))
      (trim (((c :: rest).dropWhile (· ≠ '=')).drop 1)))

/-- The section a line belongs to, where `current` is the one before it. -/
def Statement.under (current : Option Text) : Statement → Option Text
  | .header name => some name
  | .pair _ _ => current

/-- What the lines say, each with its section. -/
def statementsUnder : Option Text → List Text → List (Option Text × Statement)
  | _, [] => []
  | current, line :: lines =>
    match statementOf line with
    | none => statementsUnder current lines
    | some said => (said.under current, said) :: statementsUnder (said.under current) lines

def Section.statements (s : Section) : List (Option Text × Statement) :=
  (some s.name, .header s.name) :: s.keys.map fun kv => (some s.name, .pair kv.1 kv.2)

/-- The section that is being read. -/
def currentOf (sections : List Section) : Option Text := sections.head?.map Section.name

/-- Text as it stands in a line that was read. -/
structure Clean (s : Text) : Prop where
  trimmed : trim s = s
  plain : ∀ c ∈ s, c ≠ ';' ∧ c ≠ '#' ∧ c ≠ '\n'

structure ValidKey (kv : Text × Text) : Prop where
  key_ne : kv.1 ≠ []
  key : Clean kv.1
  noEquals : '=' ∉ kv.1
  noHeader : kv.1.head? ≠ some '['
  value : Clean kv.2

structure Section.Valid (s : Section) : Prop where
  name_ne : s.name ≠ []
  name : Clean s.name
  keys : ∀ kv ∈ s.keys, ValidKey kv
  sorted : s.keys.Pairwise fun a b => a.1 < b.1

structure Valid (sections : List Section) : Prop where
  each : ∀ s ∈ sections, s.Valid
  names : (sections.map Section.name).Nodup

/-- The characters of what a line says stand in the line. -/
theorem plain_of_line {line s : Text} (hline : '\n' ∉ line)
    (h : ∀ c ∈ s, c ∈ trim (stripComment line)) : ∀ c ∈ s, c ≠ ';' ∧ c ≠ '#' ∧ c ≠ '\n' := by
  intro c hc
  have hstrip := trim_subset (h c hc)
  have hcomment := List.mem_takeWhile_imp hstrip
  simp only [Bool.and_eq_true, decide_eq_true_eq] at hcomment
  refine ⟨hcomment.1, hcomment.2, ?_⟩
  rintro rfl
  exact hline ((List.takeWhile_sublist _).subset hstrip)

theorem clean_trim {line s : Text} (hline : '\n' ∉ line)
    (h : ∀ c ∈ s, c ∈ trim (stripComment line)) : Clean (trim s) :=
  ⟨trim_trim s, plain_of_line hline fun c hc => h c (trim_subset hc)⟩

/-- What a line that is accepted does: nothing, a section more, or a key more in the last one. -/
theorem readLine_ok {path : String} {lineno : Nat} {line : Text} {sections sections' : List Section}
    (hline : '\n' ∉ line) (h : readLine path lineno line sections = .ok sections') :
    (statementOf line = none ∧ sections' = sections) ∨
    (∃ name, statementOf line = some (.header name) ∧ name ≠ [] ∧ Clean name ∧
      (∀ s ∈ sections, s.name ≠ name) ∧ sections' = { name } :: sections) ∨
    ∃ current earlier kv, statementOf line = some (.pair kv.1 kv.2) ∧ ValidKey kv ∧
      sections = current :: earlier ∧ (∀ x ∈ current.keys, x.1 ≠ kv.1) ∧
      sections' = { current with keys := insertKey kv current.keys } :: earlier := by
  have hclean {s : Text} := @clean_trim line s hline
  unfold readLine at h
  unfold statementOf
  dsimp only at h
  cases htext : trim (stripComment line) with
  | nil =>
    rw [htext] at h
    cases h
    exact .inl ⟨rfl, rfl⟩
  | cons c rest =>
    rw [htext] at h hclean
    dsimp only at h ⊢
    split at h
    · next hc =>
      rw [if_pos hc]
      split at h
      · cases h
      · split at h
        · cases h
        · next hname =>
          split at h
          · cases h
          · next hdup =>
            cases h
            refine .inr (.inl ⟨_, rfl, hname, hclean fun d hd => ?_, ?_, rfl⟩)
            · exact List.mem_cons_of_mem _ (List.dropLast_subset _ hd)
            · simpa using hdup
    · next hc =>
      rw [if_neg hc]
      cases sections with
      | nil => cases h
      | cons current earlier =>
        dsimp only at h
        split at h
        · cases h
        · split at h
          · cases h
          · next hkey =>
            split at h
            · cases h
            · next hdup =>
              cases h
              refine .inr (.inr ⟨current, earlier, (trim ((c :: rest).takeWhile (· ≠ '=')),
                trim (((c :: rest).dropWhile (· ≠ '=')).drop 1)), rfl, ?_, rfl, ?_, rfl⟩)
              · refine ⟨hkey, hclean fun d hd => (List.takeWhile_sublist _).subset hd, ?_, ?_,
                  hclean fun d hd => (List.dropWhile_sublist _).subset (List.mem_of_mem_drop hd)⟩
                · intro hmem
                  have := List.mem_takeWhile_imp (trim_subset hmem)
                  simp at this
                · -- the text is trimmed, so its first character begins the key
                  have hblank : isBlank c = false :=
                    @trim_head (stripComment line) c (by rw [htext]; rfl)
                  have hne : c ≠ '=' := by
                    rintro rfl
                    simp [trim] at hkey
                  rw [List.takeWhile_cons_of_pos (by simpa using hne), trim_cons hblank]
                  simpa using hc
              · intro x hx
                have := hdup
                simp only [List.any_eq_true, decide_eq_true_eq, not_exists, not_and] at this
                exact this x hx

/-! ## What a file says -/

theorem insertKey_perm (kv : Text × Text) (kvs : List (Text × Text)) :
    (insertKey kv kvs).Perm (kv :: kvs) :=
  List.perm_orderedInsert _ kv kvs

theorem insertKey_sorted {kv : Text × Text} {kvs : List (Text × Text)}
    (hs : kvs.Pairwise fun a b => a.1 < b.1) (hn : ∀ x ∈ kvs, x.1 ≠ kv.1) :
    (insertKey kv kvs).Pairwise fun a b => a.1 < b.1 := by
  induction kvs with
  | nil => simp [insertKey]
  | cons x kvs ih =>
    obtain ⟨hx, hkvs⟩ := List.pairwise_cons.mp hs
    obtain ⟨hne, hnkvs⟩ := List.forall_mem_cons.mp hn
    rw [insertKey, List.orderedInsert]
    split
    · next hle =>
      have hlt : kv.1 < x.1 := lt_of_le_of_ne hle (Ne.symm hne)
      refine List.pairwise_cons.mpr ⟨fun y hy => ?_, hs⟩
      rcases List.mem_cons.mp hy with rfl | hy
      · exact hlt
      · exact hlt.trans (hx y hy)
    · next hle =>
      have hlt : x.1 < kv.1 := lt_of_not_ge hle
      refine List.pairwise_cons.mpr ⟨fun y hy => ?_, ih hkvs hnkvs⟩
      rcases List.mem_cons.mp ((insertKey_perm kv kvs).subset hy) with rfl | hy
      · exact hlt
      · exact hx y hy

/-- One line: the sections stay valid, and say what the line says as well. -/
theorem readLine_valid {path : String} {lineno : Nat} {line : Text}
    {sections sections' : List Section} (hline : '\n' ∉ line) (hv : Valid sections)
    (h : readLine path lineno line sections = .ok sections') :
    Valid sections' ∧ ∀ lines, (sections'.reverse.flatMap Section.statements ++
        statementsUnder (currentOf sections') lines).Perm
      (sections.reverse.flatMap Section.statements ++
        statementsUnder (currentOf sections) (line :: lines)) := by
  rcases readLine_ok hline h with ⟨hsaid, rfl⟩ | ⟨name, hsaid, hne, hclean, hnew, rfl⟩ |
    ⟨current, earlier, kv, hsaid, hkey, rfl, hnew, rfl⟩
  · refine ⟨hv, fun lines => ?_⟩
    rw [statementsUnder, hsaid]
  · refine ⟨⟨List.forall_mem_cons.mpr ⟨⟨hne, hclean, by simp, .nil⟩, hv.each⟩, ?_⟩,
      fun lines => ?_⟩
    · rw [List.map_cons, List.nodup_cons]
      exact ⟨by simpa using hnew, hv.names⟩
    · rw [statementsUnder, hsaid]
      simp [Section.statements, Statement.under, currentOf]
  · obtain ⟨hcurrent, hearlier⟩ := List.forall_mem_cons.mp hv.each
    refine ⟨⟨List.forall_mem_cons.mpr ⟨⟨hcurrent.name_ne, hcurrent.name, ?_, ?_⟩, hearlier⟩,
      hv.names⟩, fun lines => ?_⟩
    · intro x hx
      rcases List.mem_cons.mp ((insertKey_perm kv current.keys).subset hx) with rfl | hx
      · exact hkey
      · exact hcurrent.keys x hx
    · exact insertKey_sorted hcurrent.sorted hnew
    · have hstatements : (Section.statements { current with
            keys := insertKey kv current.keys }).Perm
          (Section.statements current ++ [(some current.name, .pair kv.1 kv.2)]) := by
        refine (List.Perm.cons _ ((insertKey_perm kv current.keys).map _)).trans ?_
        rw [Section.statements, List.cons_append]
        exact List.Perm.cons _ (List.perm_append_singleton _ _).symm
      rw [statementsUnder, hsaid]
      simp only [List.reverse_cons, List.flatMap_append, List.flatMap_cons, List.flatMap_nil,
        List.append_nil, List.append_assoc]
      refine List.Perm.append_left _ ((hstatements.append_right _).trans ?_)
      rw [List.append_assoc]
      rfl

theorem readLines_valid {path : String} {lines : List Text} (hlines : ∀ line ∈ lines, '\n' ∉ line) :
    ∀ {lineno : Nat} {sections out : List Section}, Valid sections →
      readLines path lineno lines sections = .ok out →
      Valid out ∧ (out.reverse.flatMap Section.statements).Perm
        (sections.reverse.flatMap Section.statements ++
          statementsUnder (currentOf sections) lines) := by
  induction lines with
  | nil =>
    intro lineno sections out hv h
    cases h
    exact ⟨hv, by simp [statementsUnder]⟩
  | cons line lines ih =>
    intro lineno sections out hv h
    obtain ⟨hline, hrest⟩ := List.forall_mem_cons.mp hlines
    rw [readLines] at h
    cases hone : readLine path lineno line sections with
    | error what =>
      rw [hone] at h
      cases h
    | ok sections' =>
      rw [hone] at h
      obtain ⟨hv', hsaid⟩ := readLine_valid hline hv hone
      obtain ⟨hout, hperm⟩ := ih hrest hv' h
      exact ⟨hout, hperm.trans (hsaid lines)⟩

/-- A file that is read: its sections are valid, and each says what the lines below its header say,
no line left out. -/
theorem readIni_valid {path : String} {content : Text} {sections : List Section}
    (h : readIni path content = .ok sections) :
    Valid sections ∧ (sections.flatMap Section.statements).Perm
      (statementsUnder none (getlines '\n' content)) := by
  unfold readIni at h
  cases hread : readLines path 1 (getlines '\n' content) [] with
  | error what =>
    rw [hread] at h
    cases h
  | ok out =>
    rw [hread] at h
    cases h
    obtain ⟨hv, hperm⟩ := readLines_valid (fun line hl => not_mem_getlines hl)
      (⟨by simp, by simp⟩ : Valid []) hread
    refine ⟨⟨fun s hs => hv.each s (List.mem_reverse.mp hs), ?_⟩, hperm⟩
    rw [List.map_reverse]
    exact List.nodup_reverse.mpr hv.names

/-! ## Writing a file -/

def printKey (kv : Text × Text) : Text := kv.1 ++ ' ' :: '=' :: ' ' :: kv.2

def printSection (s : Section) : List Text := ('[' :: (s.name ++ [']'])) :: s.keys.map printKey

def printIni (sections : List Section) : Text := unlines '\n' (sections.flatMap printSection)

theorem stripComment_of {s : Text} (h : ∀ c ∈ s, c ≠ ';' ∧ c ≠ '#') : stripComment s = s := by
  rw [stripComment, List.takeWhile_eq_self_iff]
  intro c hc
  simpa using h c hc

theorem trim_blank_cons {c : Char} (h : isBlank c = true) (s : Text) : trim (c :: s) = trim s := by
  rw [trim, trim, List.dropWhile_cons_of_pos h]

theorem Clean.head {s : Text} (h : Clean s) : ∀ c ∈ s.head?, isBlank c = false := by
  intro c hc
  rw [← h.trimmed] at hc
  exact trim_head hc

theorem Clean.last {s : Text} (h : Clean s) : ∀ c ∈ s.getLast?, isBlank c = false := by
  intro c hc
  rw [← h.trimmed] at hc
  exact trim_last hc

theorem Clean.dropWhile_append {s : Text} (h : Clean s) (hne : s ≠ []) (t : Text) :
    (s ++ t).dropWhile isBlank = s ++ t := by
  cases s with
  | nil => exact absurd rfl hne
  | cons c s => simp [h.head c rfl]

/-- A blank behind a trimmed text is trimmed away. -/
theorem Clean.trim_append_blank {s : Text} (h : Clean s) (hne : s ≠ []) {c : Char}
    (hc : isBlank c = true) : trim (s ++ [c]) = s := by
  rw [trim, h.dropWhile_append hne, List.rdropWhile_concat_pos isBlank s c hc,
    List.rdropWhile_eq_self_iff]
  intro hne'
  simp [h.last _ (List.getLast?_eq_getLast_of_ne_nil hne')]

theorem readLine_header {path : String} {lineno : Nat} {name : Text} {sections : List Section}
    (hne : name ≠ []) (hname : Clean name) (hnew : ∀ s ∈ sections, s.name ≠ name) :
    readLine path lineno ('[' :: (name ++ [']'])) sections = .ok ({ name } :: sections) := by
  have hstrip : stripComment ('[' :: (name ++ [']'])) = '[' :: (name ++ [']']) := by
    refine stripComment_of fun c hc => ?_
    simp only [List.mem_cons, List.mem_append, List.not_mem_nil, or_false] at hc
    rcases hc with rfl | hc | rfl
    · decide
    · exact ⟨(hname.plain c hc).1, (hname.plain c hc).2.1⟩
    · decide
  have hlast : ('[' :: (name ++ [']'])).getLast? = some ']' := by
    rw [← List.cons_append, List.getLast?_append]
    rfl
  have htrim : trim ('[' :: (name ++ [']'])) = '[' :: (name ++ [']']) := by
    refine trim_of_ends (by rintro c ⟨⟩; decide) fun c hc => ?_
    rw [hlast] at hc
    obtain rfl : ']' = c := by simpa using hc
    decide
  have hany : (sections.any fun s => decide (s.name = name)) = false := by
    simpa using hnew
  simp only [readLine, hstrip, htrim]
  rw [if_pos trivial, if_neg (by simp [hlast]), List.dropLast_concat, hname.trimmed, if_neg hne,
    hany]
  rfl

/-- The text of a key's line, which has no blank behind an empty value. -/
theorem trim_printKey {kv : Text × Text} (h : ValidKey kv) :
    trim (stripComment (printKey kv)) =
      kv.1 ++ ' ' :: '=' :: (if kv.2 = [] then [] else ' ' :: kv.2) := by
  have hstrip : stripComment (printKey kv) = printKey kv := by
    refine stripComment_of fun c hc => ?_
    simp only [printKey, List.mem_append, List.mem_cons] at hc
    rcases hc with hc | rfl | rfl | rfl | hc
    · exact ⟨(h.key.plain c hc).1, (h.key.plain c hc).2.1⟩
    · decide
    · decide
    · decide
    · exact ⟨(h.value.plain c hc).1, (h.value.plain c hc).2.1⟩
  rw [hstrip, trim, printKey, h.key.dropWhile_append h.key_ne]
  split
  · next hnil =>
    have hsplit : kv.1 ++ ' ' :: '=' :: ' ' :: kv.2 = (kv.1 ++ [' ', '=']) ++ [' '] := by
      simp [hnil]
    rw [hsplit, List.rdropWhile_concat_pos isBlank _ ' ' (by decide),
      List.rdropWhile_eq_self_iff]
    intro hne
    simp [isBlank]
  · next hne =>
    rw [List.rdropWhile_eq_self_iff]
    intro hne'
    have hlast : (kv.1 ++ ' ' :: '=' :: ' ' :: kv.2).getLast hne' = kv.2.getLast hne := by
      simp [hne]
    rw [hlast]
    simp [h.value.last _ (List.getLast?_eq_getLast_of_ne_nil hne)]

theorem readLine_key {path : String} {lineno : Nat} {kv : Text × Text} {current : Section}
    {earlier : List Section} (h : ValidKey kv) (hnew : ∀ x ∈ current.keys, x.1 ≠ kv.1) :
    readLine path lineno (printKey kv) (current :: earlier) =
      .ok ({ current with keys := insertKey kv current.keys } :: earlier) := by
  have htext := trim_printKey h
  set tail : Text := if kv.2 = [] then [] else ' ' :: kv.2 with htail
  have hkeyPart : (kv.1 ++ ' ' :: '=' :: tail).takeWhile (· ≠ '=') = kv.1 ++ [' '] := by
    have hall : ∀ c ∈ kv.1 ++ [' '], decide (c ≠ '=') = true := by
      intro c hc
      rcases List.mem_append.mp hc with hc | hc
      · have : c ≠ '=' := fun he => h.noEquals (he ▸ hc)
        simpa using this
      · obtain rfl := List.mem_singleton.mp hc
        decide
    have hsplit : kv.1 ++ ' ' :: '=' :: tail = (kv.1 ++ [' ']) ++ '=' :: tail := by simp
    rw [hsplit, List.takeWhile_append_of_pos hall, List.takeWhile_cons_of_neg (by decide),
      List.append_nil]
  have hvaluePart : ((kv.1 ++ ' ' :: '=' :: tail).dropWhile (· ≠ '=')).drop 1 = tail := by
    have hdrop := List.takeWhile_append_dropWhile (p := fun c => decide (c ≠ '='))
      (l := kv.1 ++ ' ' :: '=' :: tail)
    rw [hkeyPart] at hdrop
    have hsplit : kv.1 ++ ' ' :: '=' :: tail = (kv.1 ++ [' ']) ++ '=' :: tail := by simp
    rw [hsplit] at hdrop ⊢
    rw [List.append_cancel_left hdrop]
    rfl
  have hvalue : trim tail = kv.2 := by
    rw [htail]
    split
    · next hnil => simp [hnil, trim]
    · rw [trim_blank_cons (by decide), h.value.trimmed]
  have hany : (current.keys.any fun x => decide (x.1 = kv.1)) = false := by
    simp only [List.any_eq_false, decide_eq_true_eq]
    exact hnew
  obtain ⟨c, rest, hcons⟩ : ∃ c rest, kv.1 ++ ' ' :: '=' :: tail = c :: rest := by
    cases hk : kv.1 with
    | nil => exact absurd hk h.key_ne
    | cons c k => exact ⟨c, _, rfl⟩
  have hc : c ≠ '[' := by
    have hhead := h.noHeader
    cases hk : kv.1 with
    | nil => exact absurd hk h.key_ne
    | cons d k =>
      rw [hk] at hhead hcons
      simp only [List.cons_append, List.cons.injEq] at hcons
      rw [← hcons.1]
      simpa using hhead
  have hmem : '=' ∈ c :: rest := by
    rw [← hcons]
    simp
  unfold readLine
  dsimp only
  rw [htext, hcons]
  dsimp only
  rw [if_neg hc, if_neg (not_not.mpr hmem), ← hcons, hkeyPart, hvaluePart, hvalue,
    h.key.trim_append_blank h.key_ne (by decide), if_neg h.key_ne, hany]
  rfl

theorem insertKey_last {kv : Text × Text} {kvs : List (Text × Text)}
    (h : ∀ x ∈ kvs, x.1 < kv.1) : insertKey kv kvs = kvs ++ [kv] := by
  induction kvs with
  | nil => rfl
  | cons x kvs ih =>
    obtain ⟨hx, hkvs⟩ := List.forall_mem_cons.mp h
    rw [insertKey, List.orderedInsert, if_neg (not_le_of_gt hx), List.cons_append]
    exact congrArg _ (ih hkvs)

theorem readLines_keys {path : String} {name : Text} {earlier : List Section}
    {kvs : List (Text × Text)} (hkvs : ∀ kv ∈ kvs, ValidKey kv) (rest : List Text) :
    ∀ {lineno : Nat} {done : List (Text × Text)},
      (done ++ kvs).Pairwise (fun a b => a.1 < b.1) →
      ∃ lineno', readLines path lineno (kvs.map printKey ++ rest) (⟨name, done⟩ :: earlier) =
        readLines path lineno' rest (⟨name, done ++ kvs⟩ :: earlier) := by
  induction kvs with
  | nil => exact fun {lineno done} _ => ⟨lineno, by simp⟩
  | cons kv kvs ih =>
    intro lineno done hsorted
    obtain ⟨hkv, hrest⟩ := List.forall_mem_cons.mp hkvs
    have hbelow : ∀ x ∈ done, x.1 < kv.1 := fun x hx =>
      (List.pairwise_append.mp hsorted).2.2 x hx kv (by simp)
    have hone := @readLine_key path lineno kv ⟨name, done⟩ earlier hkv
      fun x hx => ne_of_lt (hbelow x hx)
    obtain ⟨lineno', hread⟩ := @ih hrest (lineno + 1) (done ++ [kv])
      (by simpa using hsorted)
    refine ⟨lineno', ?_⟩
    rw [List.map_cons, List.cons_append, readLines, hone]
    simp only [insertKey_last hbelow]
    rw [show done ++ kv :: kvs = done ++ [kv] ++ kvs by simp]
    exact hread

theorem readLines_sections {path : String} {sections : List Section}
    (hv : ∀ s ∈ sections, s.Valid) :
    ∀ {lineno : Nat} {done : List Section},
      ((sections ++ done).map Section.name).Nodup →
      readLines path lineno (sections.flatMap printSection) done =
        .ok (sections.reverse ++ done) := by
  induction sections with
  | nil => exact fun _ => rfl
  | cons s sections ih =>
    intro lineno done hnames
    obtain ⟨hs, hrest⟩ := List.forall_mem_cons.mp hv
    rw [List.cons_append, List.map_cons, List.nodup_cons, List.map_append, List.mem_append,
      not_or] at hnames
    obtain ⟨⟨hnotin, hnew⟩, hnodup⟩ := hnames
    have hheader := @readLine_header path lineno s.name done hs.name_ne hs.name
      fun t ht he => hnew (he ▸ List.mem_map_of_mem ht)
    obtain ⟨lineno', hkeys⟩ := @readLines_keys path s.name done s.keys hs.keys
      (sections.flatMap printSection) (lineno + 1) [] (by simpa using hs.sorted)
    rw [List.flatMap_cons, printSection, List.cons_append, readLines, hheader]
    refine (show _ = _ from hkeys).trans ?_
    rw [List.nil_append, @ih hrest _ (s :: done)]
    · simp
    · rw [List.map_append, List.map_cons]
      refine (List.nodup_middle).mpr ?_
      rw [← List.map_append, List.nodup_cons, List.map_append, List.mem_append, not_or]
      exact ⟨⟨hnotin, hnew⟩, hnodup⟩

/-- The text of valid sections says these sections. -/
theorem readIni_printIni {path : String} {sections : List Section} (hv : Valid sections) :
    readIni path (printIni sections) = .ok sections := by
  have hplain : ∀ line ∈ sections.flatMap printSection, '\n' ∉ line := by
    intro line hline
    obtain ⟨s, hs, hin⟩ := List.mem_flatMap.mp hline
    have hvalid := hv.each s hs
    rcases List.mem_cons.mp hin with rfl | hin
    · have hname : '\n' ∉ s.name := fun hc => (hvalid.name.plain _ hc).2.2 rfl
      simpa using hname
    · obtain ⟨kv, hkv, rfl⟩ := List.mem_map.mp hin
      have hkey : '\n' ∉ kv.1 := fun hc => ((hvalid.keys kv hkv).key.plain _ hc).2.2 rfl
      have hvalue : '\n' ∉ kv.2 := fun hc => ((hvalid.keys kv hkv).value.plain _ hc).2.2 rfl
      simp [printKey, hkey, hvalue]
  rw [readIni, printIni, getlines_unlines hplain,
    readLines_sections hv.each (by simpa using hv.names)]
  simp [Except.map]

/-- Every file that is read says valid sections, each line that is not blank is one of their headers
or one of the keys of the section it stands in, and nothing else is; and every list of valid
sections is read from a file. -/
theorem readIni_accepts (path : String) :
    (∀ content sections, readIni path content = .ok sections →
      Valid sections ∧ (sections.flatMap Section.statements).Perm
        (statementsUnder none (getlines '\n' content))) ∧
    ∀ sections, Valid sections → readIni path (printIni sections) = .ok sections :=
  ⟨fun _ _ h => readIni_valid h, fun _ h => readIni_printIni h⟩

def twoLines : Text := "# all\n[a]\n port = 5432 ; local\nhost=db".toList

def oneSection : List Section := [⟨"a".toList, [("host".toList, "db".toList),
  ("port".toList, "5432".toList)]⟩]

theorem readIni_twoLines : readIni "laswell.conf" twoLines = .ok oneSection := by decide +kernel

theorem readIni_accepts_twoLines :
    (Valid oneSection ∧ (oneSection.flatMap Section.statements).Perm
      (statementsUnder none (getlines '\n' twoLines))) ∧
    readIni "laswell.conf" (printIni oneSection) = .ok oneSection :=
  ⟨(readIni_accepts "laswell.conf").1 _ _ readIni_twoLines,
    (readIni_accepts "laswell.conf").2 _
      ((readIni_accepts "laswell.conf").1 _ _ readIni_twoLines).1⟩

end Config
end Laswell
