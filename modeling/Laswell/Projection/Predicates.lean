import Laswell.Projection.Plans

/-!
# Laswell.Projection.Predicates

When `plan_create_index` takes an index that is there for the one asked for, it has compared their
predicates as texts, after `normalize`. The loop of that is four simplifications, one after the
other: casts are dropped, case is folded, blanks are merged, and outer parentheses are taken off.

* `normalizeLoop_eq`: the loop as the first three of them.
* `normalize_simplified`: a text and its simplifications are normalised alike.
* `adopts_same_iff`: an index is taken for another only with the same condition exactly when no
  simplification changes a condition.
-/

namespace Laswell
namespace Projection

/-! ## The simplifications -/

/-- Whether the text behind a character is within a literal, for `inString`. -/
def passQuote (inString : Bool) (c : Char) : Bool := if c = '\'' then !inString else inString

theorem afterCast_length (p : List Char) : (afterCast p).length ≤ p.length := by
  have hdrop := (List.dropWhile_suffix castChar (l := p)).length_le
  unfold afterCast
  split
  · rename_i rest h
    have hrest := (List.dropWhile_suffix (· ≠ ')') (l := rest)).length_le
    simp only [h, List.length_cons] at hdrop
    rw [List.length_tail]
    omega
  · rename_i rest h
    simp only [h, List.length_cons] at hdrop
    omega
  · exact hdrop

/-- Outside of literals, `::`, a type's name, and one `(..)` or `[]` behind it. -/
def dropCasts (inString : Bool) : List Char → List Char
  | [] => []
  | c :: rest =>
    if inString = false ∧ c = ':' ∧ rest.head? = some ':' then
      dropCasts false (afterCast rest.tail)
    else c :: dropCasts (passQuote inString c) rest
termination_by l => l.length
decreasing_by
  · have hcast := afterCast_length rest.tail
    rw [List.length_tail] at hcast
    rw [List.length_cons]
    omega
  · simp

@[simp] theorem dropCasts_nil (inString : Bool) : dropCasts inString [] = [] := by rw [dropCasts]

theorem dropCasts_cons (inString : Bool) (c : Char) (rest : List Char) :
    dropCasts inString (c :: rest) =
      if inString = false ∧ c = ':' ∧ rest.head? = some ':' then
        dropCasts false (afterCast rest.tail)
      else c :: dropCasts (passQuote inString c) rest := by rw [dropCasts]

/-- Outside of literals, quoted names included. -/
def foldCase (inString : Bool) : List Char → List Char
  | [] => []
  | c :: rest =>
    (if inString then c else c.toLower) :: foldCase (passQuote inString c) rest

theorem foldCase_cons (inString : Bool) (c : Char) (rest : List Char) :
    foldCase inString (c :: rest) =
      (if inString then c else c.toLower) :: foldCase (passQuote inString c) rest := rfl

def isBlank (c : Char) : Bool := c == ' ' || c == '\n' || c == '\t'

/-- Outside of literals, blanks to one space, and none where `gap` says that there is one before or
nothing at all. -/
def squeeze (inString gap : Bool) : List Char → List Char
  | [] => []
  | c :: rest =>
    if inString = false ∧ isBlank c = true then
      if gap then squeeze inString true rest else ' ' :: squeeze inString true rest
    else c :: squeeze (passQuote inString c) (c == ' ') rest

theorem squeeze_cons (inString gap : Bool) (c : Char) (rest : List Char) :
    squeeze inString gap (c :: rest) =
      if inString = false ∧ isBlank c = true then
        if gap then squeeze inString true rest else ' ' :: squeeze inString true rest
      else c :: squeeze (passQuote inString c) (c == ' ') rest := rfl

theorem passQuote_of_ne {c : Char} (hq : c ≠ '\'') (inString : Bool) :
    passQuote inString c = inString := if_neg hq

theorem passQuote_blank {c : Char} (hblank : isBlank c = true) (inString : Bool) :
    passQuote inString c = inString := by
  refine passQuote_of_ne (fun hc => ?_) inString
  rw [hc] at hblank
  exact absurd hblank (by decide)

/-- The spaces around a text, and every pair of parentheses around what is left. -/
def bare (v : List Char) : List Char := unwrap (trim v).length (trim v)

/-! ## The loop as simplifications -/

theorem toLower_upper {c : Char} (h : c.toLower ≠ c) :
    65 ≤ c.toNat ∧ c.toNat ≤ 90 ∧ c.toLower.toNat = c.toNat + 32 := by
  unfold Char.toLower at h ⊢
  split at h
  · rename_i hupper
    have hlow : 65 ≤ c.val.toNat := UInt32.le_iff_toNat_le.1 hupper.1
    have hhigh : c.val.toNat ≤ 90 := UInt32.le_iff_toNat_le.1 hupper.2
    rw [dif_pos hupper]
    refine ⟨hlow, hhigh, ?_⟩
    show (c.val + ('a'.val - 'A'.val)).toNat = c.val.toNat + 32
    rw [UInt32.toNat_add]
    have hdiff : ('a'.val - 'A'.val).toNat = 32 := by decide
    omega
  · exact absurd rfl h

theorem toLower_toLower (c : Char) : c.toLower.toLower = c.toLower := by
  by_contra h
  obtain ⟨hlow, hhigh, -⟩ := toLower_upper h
  by_cases hc : c.toLower = c
  · rw [hc] at h
    exact h hc
  · obtain ⟨hlow', _, hsum⟩ := toLower_upper hc
    omega

/-- Folding neither makes nor loses a character that is no letter. -/
theorem toLower_eq_iff {c d : Char} (hd : ¬ (97 ≤ d.toNat ∧ d.toNat ≤ 122)) (hlow : d.toLower = d) :
    c.toLower = d ↔ c = d := by
  constructor
  · intro h
    by_contra hne
    have hc : c.toLower ≠ c := fun hc => hne (hc.symm.trans h)
    obtain ⟨hl, hh, hsum⟩ := toLower_upper hc
    rw [h] at hsum
    exact hd ⟨by omega, by omega⟩
  · rintro rfl
    exact hlow

theorem toLower_quote {c : Char} : c.toLower = '\'' ↔ c = '\'' :=
  toLower_eq_iff (by decide) (by decide)

theorem toLower_colon {c : Char} : c.toLower = ':' ↔ c = ':' :=
  toLower_eq_iff (by decide) (by decide)

theorem toLower_space {c : Char} : c.toLower = ' ' ↔ c = ' ' :=
  toLower_eq_iff (by decide) (by decide)

theorem isBlank_toLower (c : Char) : isBlank c.toLower = isBlank c := by
  have hnewline : c.toLower = '\n' ↔ c = '\n' := toLower_eq_iff (by decide) (by decide)
  have htab : c.toLower = '\t' ↔ c = '\t' := toLower_eq_iff (by decide) (by decide)
  rw [Bool.eq_iff_iff]
  simp [isBlank, toLower_space, hnewline, htab]

theorem passQuote_toLower (inString : Bool) (c : Char) :
    passQuote inString c.toLower = passQuote inString c := by
  simp [passQuote, toLower_quote]

/-- What the loop knows of the text it has written. -/
def gapAfter (out : List Char) : Bool := out.isEmpty || out.head? == some ' '

/-- One round of the loop: a quote, a character of a literal, a cast, a blank, or anything else. -/
theorem normalizeLoop_cons (fuel : Nat) (inString : Bool) (out rest : List Char) (c : Char) :
    normalizeLoop (fuel + 1) inString out (c :: rest) =
      if c = '\'' then normalizeLoop fuel (!inString) (c :: out) rest
      else if inString = true then normalizeLoop fuel true (c :: out) rest
      else if c = ':' ∧ rest.head? = some ':' then normalizeLoop fuel false out (afterCast rest.tail)
      else if isBlank c then normalizeLoop fuel false (if gapAfter out then out else ' ' :: out) rest
      else normalizeLoop fuel false (c.toLower :: out) rest := by
  by_cases hquote : c = '\''
  · rw [if_pos hquote, hquote, normalizeLoop]
  · rw [if_neg hquote]
    cases inString with
    | true =>
      rw [if_pos rfl, normalizeLoop]
      exact hquote
    | false =>
      rw [if_neg Bool.false_ne_true]
      by_cases hcast : c = ':' ∧ rest.head? = some ':'
      · obtain ⟨rfl, hhead⟩ := hcast
        cases rest with
        | nil => cases hhead
        | cons d rest =>
          obtain rfl : d = ':' := by simpa using hhead
          rw [if_pos ⟨rfl, rfl⟩, normalizeLoop]
          rfl
      · rw [if_neg hcast, normalizeLoop]
        · rfl
        · exact hquote
        · intro rest' h hrest
          exact hcast ⟨h, by rw [hrest]; rfl⟩

theorem normalizeLoop_eq : ∀ (fuel : Nat) (inString : Bool) (out l : List Char),
    l.length < fuel → normalizeLoop fuel inString out l = out.reverse ++
      squeeze inString (gapAfter out) (foldCase inString (dropCasts inString l)) := by
  intro fuel
  induction fuel with
  | zero =>
    intro inString out l h
    exact absurd h (Nat.not_lt_zero _)
  | succ fuel ih =>
    intro inString out l h
    cases l with
    | nil =>
      rw [dropCasts_nil]
      exact (List.append_nil _).symm
    | cons c rest =>
      have hrest : rest.length < fuel := by simpa using h
      rw [normalizeLoop_cons, dropCasts_cons]
      by_cases hquote : c = '\''
      · subst hquote
        rw [if_pos rfl, ih _ _ _ hrest, if_neg (by simp), foldCase_cons]
        simp [squeeze_cons, isBlank, passQuote, gapAfter]
      · have hpass : passQuote inString c = inString := passQuote_of_ne hquote inString
        rw [if_neg hquote]
        cases inString with
        | true =>
          rw [if_pos rfl, ih _ _ _ hrest, if_neg (by simp), hpass, foldCase_cons, hpass,
            if_pos rfl, squeeze_cons, if_neg (by simp), hpass]
          simp [gapAfter]
        | false =>
          rw [if_neg Bool.false_ne_true]
          by_cases hcast : c = ':' ∧ rest.head? = some ':'
          · have hlength := afterCast_length rest.tail
            rw [List.length_tail] at hlength
            rw [if_pos hcast, if_pos ⟨rfl, hcast⟩, ih _ _ _ (by omega)]
          · have hkept : ¬ (false = false ∧ c = ':' ∧ rest.head? = some ':') :=
              fun hall => hcast hall.2
            rw [if_neg hcast, if_neg hkept, hpass, foldCase_cons, hpass,
              if_neg Bool.false_ne_true, squeeze_cons, isBlank_toLower, passQuote_toLower, hpass]
            by_cases hblank : isBlank c = true
            · have hgone : false = false ∧ isBlank c = true := ⟨rfl, hblank⟩
              rw [if_pos hblank, if_pos hgone, ih _ _ _ hrest]
              cases hgap : gapAfter out with
              | true => simp [hgap]
              | false => simp [gapAfter]
            · have hchar : ¬ (false = false ∧ isBlank c = true) := fun hall => hblank hall.2
              rw [if_neg hblank, if_neg hchar, ih _ _ _ hrest]
              simp [gapAfter]

/-- The text after the first three simplifications. -/
def simplify (p : List Char) : List Char :=
  squeeze false true (foldCase false (dropCasts false p))

theorem normalizePredicate_eq (p : String) :
    normalizePredicate p = String.ofList (bare (simplify p.toList)) := by
  unfold normalizePredicate bare simplify
  rw [normalizeLoop_eq _ _ _ _ (by simp [String.length_toList])]
  rfl

/-! ## Texts that are simple already -/

/-- What is asked of each character outside of literals, of the one before it, and of the next. -/
def AtEach (P : Option Char → Char → Option Char → Prop) :
    Bool → Option Char → List Char → Prop
  | _, _, [] => True
  | inString, before, c :: rest =>
    (inString = false → c ≠ '\'' → P before c rest.head?) ∧
      AtEach P (passQuote inString c) (some c) rest

/-- No cast begins here. -/
def NoCast (_ : Option Char) (c : Char) (next : Option Char) : Prop :=
  ¬ (c = ':' ∧ next = some ':')

def Folded (_ : Option Char) (c : Char) (_ : Option Char) : Prop := c.toLower = c

/-- A blank is a space behind something else. -/
def OneBlank (before : Option Char) (c : Char) (_ : Option Char) : Prop :=
  isBlank c = true → c = ' ' ∧ before ≠ none ∧ before ≠ some ' '

def gapBehind (before : Option Char) : Bool := before.isNone || before == some ' '

section AtEach

variable {P : Option Char → Char → Option Char → Prop}

/-- A part of a text asks for no more, as long as it does not begin within a literal. -/
theorem AtEach.prefix_of (hnext : ∀ b c n, P b c n → P b c none) {t : List Char} :
    ∀ (l : List Char) (inString : Bool) (before : Option Char),
      AtEach P inString before (l ++ t) → AtEach P inString before l := by
  intro l
  induction l with
  | nil => exact fun _ _ _ => trivial
  | cons c rest ih =>
    intro inString before h
    refine ⟨fun hs hq => ?_, ih _ _ h.2⟩
    have hc := h.1 hs hq
    cases rest with
    | nil => exact hnext _ _ _ hc
    | cons d rest => exact hc

theorem AtEach.tail_of {a : List Char} (ha : '\'' ∉ a) :
    ∀ (l : List Char) (before : Option Char), AtEach P false before (a ++ l) →
      ∃ before', AtEach P false before' l := by
  induction a with
  | nil => exact fun l before h => ⟨before, h⟩
  | cons c a ih =>
    intro l before h
    have hc : c ≠ '\'' := fun hc => ha (hc ▸ List.mem_cons_self)
    have hpass : passQuote false c = false := passQuote_of_ne hc false
    have hrest := h.2
    rw [hpass] at hrest
    exact ih (fun hmem => ha (List.mem_cons_of_mem _ hmem)) l _ hrest

end AtEach

theorem dropCasts_noCast (inString : Bool) (before : Option Char) (l : List Char) :
    AtEach NoCast inString before (dropCasts inString l) := by
  -- a character that is no colon and is kept comes first in what is left
  have hhead : ∀ m : List Char, m.head? ≠ some ':' →
      (dropCasts false m).head? ≠ some ':' := by
    intro m hm
    cases m with
    | nil => simp
    | cons d m =>
      have hd : d ≠ ':' := fun hd => hm (by rw [hd]; rfl)
      rw [dropCasts_cons, if_neg (by simp [hd])]
      simpa using hd
  induction inString, l using dropCasts.induct generalizing before with
  | case1 inString =>
    rw [dropCasts_nil]
    trivial
  | case2 inString c rest hcast ih =>
    obtain ⟨rfl, rfl, hrest⟩ := hcast
    rw [dropCasts_cons, if_pos ⟨rfl, rfl, hrest⟩]
    exact ih before
  | case3 inString c rest hkept ih =>
    rw [dropCasts_cons, if_neg hkept]
    refine ⟨fun hs hq hboth => ?_, ih _⟩
    have hpass : passQuote inString c = false := (passQuote_of_ne hq inString).trans hs
    rw [hpass] at hboth
    exact hhead rest (fun hrest => hkept ⟨hs, hboth.1, hrest⟩) hboth.2

theorem dropCasts_self {inString : Bool} {before : Option Char} {l : List Char}
    (h : AtEach NoCast inString before l) : dropCasts inString l = l := by
  induction l generalizing inString before with
  | nil => rw [dropCasts_nil]
  | cons c rest ih =>
    have hkept : ¬ (inString = false ∧ c = ':' ∧ rest.head? = some ':') := by
      rintro ⟨hs, rfl, hrest⟩
      exact h.1 hs (by decide) ⟨rfl, hrest⟩
    rw [dropCasts_cons, if_neg hkept, ih h.2]

theorem foldCase_head (inString : Bool) (l : List Char) :
    (foldCase inString l).head? = some ':' ↔ l.head? = some ':' := by
  cases l with
  | nil => rfl
  | cons c rest => cases inString <;> simp [foldCase_cons, toLower_colon]

theorem foldCase_noCast {inString : Bool} {before before' : Option Char} {l : List Char}
    (h : AtEach NoCast inString before l) :
    AtEach NoCast inString before' (foldCase inString l) := by
  induction l generalizing inString before before' with
  | nil => trivial
  | cons c rest ih =>
    cases inString with
    | true => exact ⟨fun hs => absurd hs (by decide), ih h.2⟩
    | false =>
      rw [foldCase_cons, if_neg Bool.false_ne_true]
      refine ⟨fun hs hq hboth => ?_, ?_⟩
      · rw [foldCase_head, toLower_colon] at hboth
        exact h.1 hs (fun hc => hq (toLower_quote.2 hc)) hboth
      · rw [passQuote_toLower]
        exact ih h.2

theorem foldCase_folded (inString : Bool) (before : Option Char) (l : List Char) :
    AtEach Folded inString before (foldCase inString l) := by
  induction l generalizing inString before with
  | nil => trivial
  | cons c rest ih =>
    cases inString with
    | true => exact ⟨fun hs => absurd hs (by decide), ih _ _⟩
    | false =>
      rw [foldCase_cons, if_neg Bool.false_ne_true]
      refine ⟨fun _ _ => toLower_toLower c, ?_⟩
      rw [passQuote_toLower]
      exact ih _ _

theorem foldCase_self {inString : Bool} {before : Option Char} {l : List Char}
    (h : AtEach Folded inString before l) : foldCase inString l = l := by
  induction l generalizing inString before with
  | nil => rfl
  | cons c rest ih =>
    rw [foldCase_cons, ih h.2]
    cases inString with
    | true => rfl
    | false =>
      by_cases hq : c = '\''
      · rw [hq]
        rfl
      · rw [if_neg Bool.false_ne_true, h.1 rfl hq]

theorem squeeze_head {inString : Bool} {l : List Char} :
    (squeeze inString false l).head? = some ':' → l.head? = some ':' := by
  cases l with
  | nil => exact id
  | cons c rest =>
    rw [squeeze_cons]
    split
    · intro h
      simp at h
    · exact id

theorem squeeze_noCast {inString gap : Bool} {before before' : Option Char} {l : List Char}
    (h : AtEach NoCast inString before l) :
    AtEach NoCast inString before' (squeeze inString gap l) := by
  induction l generalizing inString gap before before' with
  | nil => trivial
  | cons c rest ih =>
    rw [squeeze_cons]
    split
    · rename_i hblank
      have hrest := h.2
      rw [passQuote_blank hblank.2] at hrest
      split
      · exact ih hrest
      · exact ⟨fun _ _ hboth => absurd hboth.1 (by decide), ih hrest⟩
    · refine ⟨fun hs hq hboth => ?_, ih h.2⟩
      obtain ⟨rfl, hnext⟩ := hboth
      exact h.1 hs hq ⟨rfl, squeeze_head hnext⟩

theorem squeeze_folded {inString gap : Bool} {before before' : Option Char} {l : List Char}
    (h : AtEach Folded inString before l) :
    AtEach Folded inString before' (squeeze inString gap l) := by
  induction l generalizing inString gap before before' with
  | nil => trivial
  | cons c rest ih =>
    rw [squeeze_cons]
    split
    · rename_i hblank
      have hrest := h.2
      rw [passQuote_blank hblank.2] at hrest
      split
      · exact ih hrest
      · exact ⟨fun _ _ => (by decide : ' '.toLower = ' '), ih hrest⟩
    · exact ⟨h.1, ih h.2⟩

theorem squeeze_oneBlank (inString : Bool) (before : Option Char) (l : List Char) :
    AtEach OneBlank inString before (squeeze inString (gapBehind before) l) := by
  induction l generalizing inString before with
  | nil => trivial
  | cons c rest ih =>
    rw [squeeze_cons]
    split
    · rename_i hblank
      split
      · rename_i hgap
        have hrest := ih inString before
        rwa [hgap] at hrest
      · rename_i hgap
        simp only [gapBehind, Bool.or_eq_true, not_or, Option.isNone_iff_eq_none,
          beq_iff_eq] at hgap
        exact ⟨fun _ _ _ => ⟨rfl, hgap.1, hgap.2⟩, ih inString (some ' ')⟩
    · rename_i hkept
      have hgap : gapBehind (some c) = (c == ' ') := by simp [gapBehind]
      refine ⟨fun hs _ hblank => absurd ⟨hs, hblank⟩ hkept, ?_⟩
      rw [← hgap]
      exact ih _ _

theorem squeeze_self {inString : Bool} {before : Option Char} {l : List Char}
    (h : AtEach OneBlank inString before l) :
    squeeze inString (gapBehind before) l = l := by
  induction l generalizing inString before with
  | nil => rfl
  | cons c rest ih =>
    have hrest := ih h.2
    rw [squeeze_cons]
    split
    · rename_i hblank
      have hq : c ≠ '\'' := by
        rintro rfl
        exact absurd hblank.2 (by decide)
      obtain ⟨rfl, hne, hsp⟩ := h.1 hblank.1 hq hblank.2
      have hgap : gapBehind before = false := by
        simp [gapBehind, Option.isSome_iff_ne_none, hne, hsp]
      rw [hgap, if_neg Bool.false_ne_true]
      exact congrArg (' ' :: ·) hrest
    · have hgap : gapBehind (some c) = (c == ' ') := by simp [gapBehind]
      rw [← hgap, hrest]

/-- Before a character that is no blank it does not matter what was before. -/
theorem squeeze_gap {inString gap gap' : Bool} {l : List Char}
    (h : ∀ c, l.head? = some c → isBlank c = false) :
    squeeze inString gap l = squeeze inString gap' l := by
  cases l with
  | nil => rfl
  | cons c rest =>
    have hc := h c rfl
    rw [squeeze_cons, squeeze_cons, if_neg (by simp [hc]), if_neg (by simp [hc])]

/-! ## Outer parentheses -/

theorem trim_head (v : List Char) : (trim v).head? ≠ some ' ' := by
  intro h
  have hprefix : trim v <+: v.dropWhile (· == ' ') := by
    have hsuffix := List.dropWhile_suffix (· == ' ') (l := (v.dropWhile (· == ' ')).reverse)
    simpa [trim] using List.reverse_prefix.2 hsuffix
  obtain ⟨t, ht⟩ := hprefix
  have hdrop : (v.dropWhile (· == ' ')).head? = some ' ' := by
    rw [← ht, List.head?_append, h]
    rfl
  have hnot := List.head?_dropWhile_not (· == ' ') v
  rw [hdrop] at hnot
  exact absurd hnot (by decide)

theorem trim_last (v : List Char) : (trim v).getLast? ≠ some ' ' := by
  intro h
  rw [trim, List.getLast?_reverse] at h
  have hnot := List.head?_dropWhile_not (· == ' ') (v.dropWhile (· == ' ')).reverse
  rw [h] at hnot
  exact absurd hnot (by decide)

theorem dropWhile_space_self {v : List Char} (h : v.head? ≠ some ' ') :
    v.dropWhile (· == ' ') = v := by
  cases v with
  | nil => rfl
  | cons c rest =>
    have hc : c ≠ ' ' := fun hc => h (by rw [hc]; rfl)
    rw [List.dropWhile_cons, if_neg (by simpa using hc)]

theorem trim_self {v : List Char} (hhead : v.head? ≠ some ' ') (hlast : v.getLast? ≠ some ' ') :
    trim v = v := by
  rw [trim, dropWhile_space_self hhead, dropWhile_space_self (by rwa [List.head?_reverse]),
    List.reverse_reverse]

theorem trim_trim (v : List Char) : trim (trim v) = trim v :=
  trim_self (trim_head v) (trim_last v)

theorem trim_length (v : List Char) : (trim v).length ≤ v.length := by
  have h1 := (List.dropWhile_suffix (· == ' ') (l := (v.dropWhile (· == ' ')).reverse)).length_le
  have h2 := (List.dropWhile_suffix (· == ' ') (l := v)).length_le
  rw [List.length_reverse] at h1
  rw [trim, List.length_reverse]
  omega

/-- What is trimmed is in between spaces. -/
theorem trim_infix (v : List Char) : ∃ a z, v = a ++ (trim v ++ z) ∧ ∀ c ∈ a, c = ' ' := by
  refine ⟨v.takeWhile (· == ' '),
    ((v.dropWhile (· == ' ')).reverse.takeWhile (· == ' ')).reverse, ?_, ?_⟩
  · have hback : trim v ++ ((v.dropWhile (· == ' ')).reverse.takeWhile (· == ' ')).reverse =
        v.dropWhile (· == ' ') := by
      rw [trim, ← List.reverse_append, List.takeWhile_append_dropWhile, List.reverse_reverse]
    rw [hback, List.takeWhile_append_dropWhile]
  · intro c hc
    simpa using List.mem_takeWhile_imp hc

/-- The condition of the loop that takes parentheses off. -/
def Wrapped (v : List Char) : Prop :=
  (decide (1 < v.length) && v.head? == some '(' && v.getLast? == some ')' && wraps 0 v) = true

instance (v : List Char) : Decidable (Wrapped v) :=
  inferInstanceAs (Decidable ((_ : Bool) = true))

theorem unwrap_succ (fuel : Nat) (v : List Char) :
    unwrap (fuel + 1) v = if Wrapped v then unwrap fuel (trim v.tail.dropLast) else v := rfl

theorem unwrap_not_wrapped {v : List Char} (h : ¬ Wrapped v) (fuel : Nat) : unwrap fuel v = v := by
  cases fuel with
  | zero => rfl
  | succ fuel => rw [unwrap_succ, if_neg h]

/-- The loop ends with a trimmed text that has no parentheses around it. -/
theorem unwrap_end : ∀ (fuel : Nat) (v : List Char), v.length ≤ fuel → trim v = v →
    trim (unwrap fuel v) = unwrap fuel v ∧ ¬ Wrapped (unwrap fuel v) := by
  intro fuel
  induction fuel with
  | zero =>
    intro v hlength htrim
    obtain rfl := List.length_eq_zero_iff.1 (Nat.le_zero.1 hlength)
    exact ⟨htrim, by decide⟩
  | succ fuel ih =>
    intro v hlength htrim
    rw [unwrap_succ]
    split
    · refine ih _ ?_ (trim_trim _)
      have hinner := trim_length v.tail.dropLast
      rw [List.length_dropLast, List.length_tail] at hinner
      omega
    · rename_i h
      exact ⟨htrim, h⟩

theorem bare_bare (v : List Char) : bare (bare v) = bare v := by
  obtain ⟨htrim, hdone⟩ := unwrap_end _ (trim v) (Nat.le_refl _) (trim_trim v)
  show unwrap _ (trim (bare v)) = bare v
  rw [show trim (bare v) = bare v from htrim]
  exact unwrap_not_wrapped hdone _

theorem bare_head (v : List Char) : (bare v).head? ≠ some ' ' := by
  have htrim := (unwrap_end _ (trim v) (Nat.le_refl _) (trim_trim v)).1
  rw [bare, ← htrim]
  exact trim_head _

/-- Asked of a text outside of literals, wherever it stands. -/
def Kept (P : Option Char → Char → Option Char → Prop) (v : List Char) : Prop :=
  ∃ before, AtEach P false before v

section Kept

variable {P : Option Char → Char → Option Char → Prop}

theorem Kept.inner (hnext : ∀ b c n, P b c n → P b c none) {a v z : List Char}
    (ha : '\'' ∉ a) (h : Kept P (a ++ (v ++ z))) : Kept P v := by
  obtain ⟨before, hall⟩ := h
  obtain ⟨before', hrest⟩ := AtEach.tail_of ha _ _ hall
  exact ⟨before', AtEach.prefix_of hnext v _ _ hrest⟩

theorem Kept.trim (hnext : ∀ b c n, P b c n → P b c none) {v : List Char} (h : Kept P v) :
    Kept P (trim v) := by
  obtain ⟨a, z, hv, ha⟩ := trim_infix v
  rw [hv] at h
  exact h.inner hnext fun hmem => absurd (ha _ hmem) (by decide)

theorem Kept.unwrap (hnext : ∀ b c n, P b c n → P b c none) (fuel : Nat) :
    ∀ v, Kept P v → Kept P (unwrap fuel v) := by
  induction fuel with
  | zero => exact fun _ h => h
  | succ fuel ih =>
    intro v h
    rw [unwrap_succ]
    split
    · rename_i hw
      refine ih _ (Kept.trim hnext ?_)
      cases v with
      | nil => exact h
      | cons c rest =>
        have hc : c = '(' := by
          simp only [Wrapped, Bool.and_eq_true, beq_iff_eq] at hw
          simpa using hw.1.1.2
        have hrest : rest.dropLast ++ rest.getLast?.toList = rest := by
          cases rest with
          | nil => rfl
          | cons d rest => simp [List.getLast?_eq_some_getLast, List.dropLast_append_getLast]
        have hsplit : Kept P ([c] ++ (rest.dropLast ++ rest.getLast?.toList)) := by
          rw [hrest]
          exact h
        exact hsplit.inner hnext (by rw [hc]; decide)
    · exact h

theorem Kept.bare (hnext : ∀ b c n, P b c n → P b c none) {v : List Char} (h : Kept P v) :
    Kept P (bare v) :=
  Kept.unwrap hnext _ _ (h.trim hnext)

end Kept

/-! ## A text and its simplifications -/

theorem simplify_self {p : List Char} (hcast : Kept NoCast p) (hfold : Kept Folded p)
    (hblank : Kept OneBlank p) (hhead : p.head? ≠ some ' ') : simplify p = p := by
  obtain ⟨b1, hcast⟩ := hcast
  obtain ⟨b2, hfold⟩ := hfold
  obtain ⟨b3, hblank⟩ := hblank
  rw [simplify, dropCasts_self hcast, foldCase_self hfold]
  have hfirst : ∀ c, p.head? = some c → isBlank c = false := by
    intro c hc
    rw [Bool.eq_false_iff]
    intro hb
    cases p with
    | nil => cases hc
    | cons d rest =>
      cases hc
      have hq : c ≠ '\'' := by
        rintro rfl
        exact absurd hb (by decide)
      exact hhead (by rw [(hblank.1 rfl hq hb).1]; rfl)
  rw [squeeze_gap hfirst, squeeze_self hblank]

theorem folded_noCast (p : List Char) :
    AtEach NoCast false none (foldCase false (dropCasts false p)) :=
  foldCase_noCast (dropCasts_noCast false none p)

theorem simplify_noCast (p : List Char) : AtEach NoCast false none (simplify p) :=
  squeeze_noCast (folded_noCast p)

theorem simplify_folded (p : List Char) : AtEach Folded false none (simplify p) :=
  squeeze_folded (foldCase_folded false none _)

theorem simplify_oneBlank (p : List Char) : AtEach OneBlank false none (simplify p) :=
  squeeze_oneBlank false none _

theorem simplify_simplify (p : List Char) : simplify (simplify p) = simplify p := by
  have h := squeeze_self (simplify_oneBlank p)
  rw [simplify, dropCasts_self (simplify_noCast p), foldCase_self (simplify_folded p)]
  exact h

theorem bare_noCast (p : List Char) : Kept NoCast (bare (simplify p)) :=
  Kept.bare (fun _ _ _ _ h => by cases h.2) ⟨none, simplify_noCast p⟩

theorem bare_folded (p : List Char) : Kept Folded (bare (simplify p)) :=
  Kept.bare (fun _ _ _ h => h) ⟨none, simplify_folded p⟩

theorem simplify_bare (p : List Char) : simplify (bare (simplify p)) = bare (simplify p) :=
  simplify_self (bare_noCast p) (bare_folded p)
    (Kept.bare (fun _ _ _ h => h) ⟨none, simplify_oneBlank p⟩) (bare_head _)

/-- A text, and what is left of it after each of the simplifications. -/
def simplifications (p : String) : List String :=
  [p, String.ofList (dropCasts false p.toList),
    String.ofList (foldCase false (dropCasts false p.toList)), String.ofList (simplify p.toList),
    String.ofList (bare (simplify p.toList))]

theorem normalize_simplified {p q : String} (h : q ∈ simplifications p) :
    normalizePredicate q = normalizePredicate p := by
  rw [normalizePredicate_eq, normalizePredicate_eq p]
  simp only [simplifications, List.mem_cons, List.not_mem_nil, or_false] at h
  rcases h with rfl | rfl | rfl | rfl | rfl
  · rfl
  · rw [String.toList_ofList, simplify, dropCasts_self (dropCasts_noCast false none _)]
    rfl
  · rw [String.toList_ofList, simplify, dropCasts_self (folded_noCast _),
      foldCase_self (foldCase_folded false none _)]
    rfl
  · rw [String.toList_ofList, simplify_simplify]
  · rw [String.toList_ofList, simplify_bare, bare_bare]

/-- Simplifying again gives nothing new. -/
theorem simplifications_simplified {p q r : String} (hq : q ∈ simplifications p)
    (hr : r ∈ simplifications q) : r ∈ simplifications p := by
  simp only [simplifications, List.mem_cons, List.not_mem_nil, or_false] at hq
  rcases hq with rfl | rfl | rfl | rfl | rfl
  · exact hr
  · have hsame := dropCasts_self (dropCasts_noCast false none p.toList)
    simp only [simplifications, simplify, String.toList_ofList, hsame] at hr ⊢
    simp_all
  · have hcasts := dropCasts_self (folded_noCast p.toList)
    have hfolded := foldCase_self (foldCase_folded false none (dropCasts false p.toList))
    simp only [simplifications, simplify, String.toList_ofList, hcasts, hfolded] at hr ⊢
    simp_all
  · have hcasts := dropCasts_self (simplify_noCast p.toList)
    have hfolded := foldCase_self (simplify_folded p.toList)
    simp only [simplifications, String.toList_ofList, hcasts, hfolded, simplify_simplify] at hr ⊢
    simp_all
  · obtain ⟨_, hcast⟩ := bare_noCast p.toList
    obtain ⟨_, hfold⟩ := bare_folded p.toList
    have hcasts := dropCasts_self hcast
    have hfolded := foldCase_self hfold
    simp only [simplifications, String.toList_ofList, hcasts, hfolded, simplify_bare,
      bare_bare] at hr ⊢
    simp_all

/-! ## The index that is taken -/

section Adopts

variable {C : Type}

/-- `reading` is the condition on rows that a text denotes. The index that `plan_create_index`
adopts or renames has the condition that was asked for, where both texts are among these. -/
def AdoptsSame (reading : String → C) (texts : Set String) : Prop :=
  ∀ (t : TableObs) (d : CreateIndex) (other : String) (ex : IndexObs), d.predicate ∈ texts →
    ex.predicate ∈ texts → firstEquivalent t d = some (other, ex) →
    ex.constraintBacked = false → d.onEquivalent ≠ .refuse →
    reading ex.predicate = reading d.predicate

/-- No simplification of a text changes its condition. -/
def SimplifiesSame (reading : String → C) (p : String) : Prop :=
  (simplifications p).IsChain fun a b => reading a = reading b

end Adopts

/-- An index on no columns, which is all that is looked at here. -/
def indexWhere (predicate : String) : IndexObs where
  isValid := true
  isUnique := false
  columns := []
  keyColumnCount := 0
  columnOrder := []
  columnOpclasses := []
  method := "btree"
  predicate := predicate
  hasExpressions := false

def tableWhere (predicate : String) : TableObs where
  present := true
  indexes := (∅ : Object IndexObs).insert "there" (indexWhere predicate)

def wantedWhere (predicate : String) : CreateIndex where
  name := "wanted"
  columns := []
  predicate := predicate

theorem firstEquivalent_only {p q : String} (h : normalizePredicate p = normalizePredicate q) :
    firstEquivalent (tableWhere p) (wantedWhere q) = some ("there", indexWhere p) := by
  have hlist : (tableWhere p).indexes.toList = [("there", indexWhere p)] := by rfl
  have hsame : equivalent (wantedWhere q) (indexWhere p) = true := by
    simp [equivalent, indexWhere, wantedWhere, IndexObs.keyColumns, IndexObs.includeColumns,
      CreateIndex.names, CreateIndex.hasExpressionKey, catalogIndexOptions, h]
  rw [firstEquivalent, hlist, List.find?_cons_of_pos]
  show ("there" != "wanted" && equivalent (wantedWhere q) (indexWhere p)) = true
  rw [hsame]
  decide

theorem firstEquivalent_same {t : TableObs} {d : CreateIndex} {other : String} {ex : IndexObs}
    (h : firstEquivalent t d = some (other, ex)) :
    normalizePredicate ex.predicate = normalizePredicate d.predicate := by
  have hfound := List.find?_some h
  simp only [equivalent, Bool.and_eq_true, beq_iff_eq] at hfound
  exact hfound.2.2

/-- Where no simplification of two texts changes a condition, none is taken for another. -/
theorem adoptsSame_of_simplifies {C : Type} {reading : String → C} {texts : Set String}
    (h : ∀ p ∈ texts, SimplifiesSame reading p) : AdoptsSame reading texts := by
  intro t d other ex hd hex hfound _ _
  have hend : ∀ p ∈ texts, reading p = reading (normalizePredicate p) := by
    intro p hp
    obtain ⟨h1, h2, h3, h4⟩ : _ ∧ _ ∧ _ ∧ _ := by
      simpa [SimplifiesSame, simplifications] using h p hp
    rw [normalizePredicate_eq, h1, h2, h3, h4]
  rw [hend _ hex, hend _ hd, firstEquivalent_same hfound]

/-- For texts of which each simplification is among them: the index taken has the condition asked
for, whatever the table and the intent, exactly when no simplification changes a condition. -/
theorem adopts_same_iff {C : Type} (reading : String → C) (texts : Set String)
    (hclosed : ∀ p ∈ texts, ∀ q ∈ simplifications p, q ∈ texts) :
    AdoptsSame reading texts ↔ ∀ p ∈ texts, SimplifiesSame reading p := by
  refine ⟨fun h p hp => ?_, adoptsSame_of_simplifies⟩
  refine List.isChain_iff_forall_rel_of_append_cons_cons.2 ?_
  intro a b before after hsplit
  have ha : a ∈ simplifications p := by simp [hsplit]
  have hb : b ∈ simplifications p := by simp [hsplit]
  have hsame : normalizePredicate a = normalizePredicate b := by
    rw [normalize_simplified ha, normalize_simplified hb]
  exact h (tableWhere a) (wantedWhere b) "there" (indexWhere a) (hclosed p hp b hb)
    (hclosed p hp a ha) (firstEquivalent_only hsame) rfl OnEquivalent.noConfusion

/-- What `amount = 1` and its cast to an integer say of an amount in tenths. -/
def amountReading (p : String) (tenths : Nat) : Bool :=
  if Planner.contains p "::integer" then (tenths + 5) / 10 == 1 else tenths == 10

/-- Two spellings of `amount = 1`, and what is left of them. -/
def amounts : Set String :=
  {p | p ∈ simplifications "((Amount)  = 1)" ∨ p ∈ simplifications "(amount) = 1"}

theorem adopts_same_amounts : AdoptsSame amountReading amounts ∧
    firstEquivalent (tableWhere "((Amount)  = 1)") (wantedWhere "(amount) = 1") =
      some ("there", indexWhere "((Amount)  = 1)") := by
  have hclosed : ∀ p ∈ amounts, ∀ q ∈ simplifications p, q ∈ amounts := fun p hp q hq =>
    hp.imp (simplifications_simplified · hq) (simplifications_simplified · hq)
  have huncast : ∀ p ∈ amounts, Planner.contains p "::integer" = false := by
    have hboth : ∀ p ∈ simplifications "((Amount)  = 1)" ++ simplifications "(amount) = 1",
        Planner.contains p "::integer" = false := by decide +kernel
    exact fun p hp => hboth p (List.mem_append.2 hp)
  refine ⟨(adopts_same_iff amountReading amounts hclosed).2 fun p hp => ?_,
    firstEquivalent_only (by decide +kernel)⟩
  refine List.isChain_iff_forall_rel_of_append_cons_cons.2 fun {a b before after} hsplit => ?_
  have ha := huncast a (hclosed p hp a (by simp [hsplit]))
  have hb := huncast b (hclosed p hp b (by simp [hsplit]))
  funext tenths
  rw [amountReading, amountReading, ha, hb]

/-! ## Two that are taken for another -/

/-- The name in quotes is of a column that holds 1. -/
def quotedReading (p : String) (row : String → Nat) : Bool :=
  row (String.ofList ((p.toList.dropWhile (· ≠ '"')).tail.takeWhile (· ≠ '"'))) == 1

/-- An index for the amounts that round to 1 is taken for one of those that are 1; and an index by
one column is taken for that by another, whose name differs in case. -/
theorem cast_adopted :
    (firstEquivalent (tableWhere "((amount)::integer = 1)") (wantedWhere "(amount) = 1") =
        some ("there", indexWhere "((amount)::integer = 1)") ∧
      amountReading "((amount)::integer = 1)" ≠ amountReading "(amount) = 1") ∧
    firstEquivalent (tableWhere "(\"order\" = 1)") (wantedWhere "\"Order\" = 1") =
        some ("there", indexWhere "(\"order\" = 1)") ∧
      quotedReading "(\"order\" = 1)" ≠ quotedReading "\"Order\" = 1" := by
  refine ⟨⟨firstEquivalent_only (by decide +kernel), fun h => ?_⟩,
    firstEquivalent_only (by decide +kernel), fun h => ?_⟩
  · exact absurd (congrFun h 14) (by decide +kernel)
  · exact absurd (congrFun h fun c => if c = "order" then 1 else 0) (by decide +kernel)

end Projection
end Laswell
