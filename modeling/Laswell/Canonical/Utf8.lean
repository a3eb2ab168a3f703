import Mathlib
import Laswell.Base.Readable

/-!
# Laswell.Canonical.Utf8

Strings of the canonical form: the UTF-8 decoder `utf8Next`, the UTF-16 code units member names
are sorted by, and the string escaper `escapeInto`. A `std::string` is a list of bytes.

`WellFormed` is the syntax of UTF-8 (RFC 3629): what the JSON parser lets through, and what its
`dump` checks (`utf8`). On well-formed strings the escaper works byte by byte
(`escapeInto_wellFormed`), which makes it uniquely readable (`escapeBytes_reads`).
-/

namespace Laswell
namespace Canonical

abbrev Bytes := List UInt8

/-- A literal of the source: its characters are all ASCII. -/
def ascii (s : String) : Bytes := s.toList.map fun c => c.toNat.toUInt8

inductive CanonError where
  | truncatedUtf8
  | malformedContinuation
  | invalidLeadByte
  | floatNotAllowed (pointer : Bytes)
  | integerOutOfRange (pointer : Bytes)
  | unrepresentable (pointer : Bytes)
  deriving DecidableEq

def CanonError.what : CanonError → Bytes
  | .truncatedUtf8 => ascii "canonical: truncated UTF-8"
  | .malformedContinuation => ascii "canonical: malformed UTF-8 continuation"
  | .invalidLeadByte => ascii "canonical: invalid UTF-8 lead byte"
  | .floatNotAllowed pointer =>
    ascii "canonical: floating-point values are not allowed in a spec (at " ++
      (if pointer = [] then ascii "/" else pointer) ++
      ascii "). Use an integer, or a string if the value is not a number."
  | .integerOutOfRange pointer =>
    ascii "canonical: integer out of safe range at " ++ pointer ++
      ascii "; values beyond 2^53 must be strings"
  | .unrepresentable pointer => ascii "canonical: unrepresentable value at " ++ pointer

/-- `(byte & 0xC0) == 0x80` -/
def isContinuation (b : UInt8) : Bool := b &&& 0xC0 == 0x80

/-- The continuation bytes a lead byte asks for: enough of them, and each one well marked. -/
def need (n : Nat) (rest : Bytes) : Except CanonError Unit :=
  if rest.length < n then .error .truncatedUtf8
  else if (rest.take n).all isContinuation then .ok ()
  else .error .malformedContinuation

/-- The payload of a continuation byte. -/
def tailBits (b : UInt8) : Nat := (b &&& 0x3F).toNat

/-- One code point from its lead byte and what follows, with the number of bytes it takes after
the lead byte. -/
def utf8Next (c0 : UInt8) (rest : Bytes) : Except CanonError (Nat × Nat) :=
  if c0 < 0x80 then .ok (c0.toNat, 0)
  else if c0 &&& 0xE0 == 0xC0 then
    (need 1 rest).map fun _ =>
      (((c0 &&& 0x1F).toNat <<< 6) ||| tailBits (rest.getD 0 0), 1)
  else if c0 &&& 0xF0 == 0xE0 then
    (need 2 rest).map fun _ =>
      (((c0 &&& 0x0F).toNat <<< 12) ||| (tailBits (rest.getD 0 0) <<< 6) |||
        tailBits (rest.getD 1 0), 2)
  else if c0 &&& 0xF8 == 0xF0 then
    (need 3 rest).map fun _ =>
      (((c0 &&& 0x07).toNat <<< 18) ||| (tailBits (rest.getD 0 0) <<< 12) |||
        (tailBits (rest.getD 1 0) <<< 6) ||| tailBits (rest.getD 2 0), 3)
  else .error .invalidLeadByte

/-- Every code point of a string with the bytes it was read from. A byte at least is taken each
round, so the length of the string is fuel enough. -/
def decodeLoop : Nat → Bytes → Except CanonError (List (Nat × Bytes))
  | _, [] => .ok []
  | 0, _ :: _ => .ok []
  | fuel + 1, c0 :: rest =>
    match utf8Next c0 rest with
    | .error e => .error e
    | .ok (cp, n) =>
      (decodeLoop fuel (rest.drop n)).map fun cs => (cp, c0 :: rest.take n) :: cs

def decode (s : Bytes) : Except CanonError (List (Nat × Bytes)) := decodeLoop s.length s

/-- A code point in UTF-8. -/
def utf8Bytes (cp : Nat) : Bytes :=
  if cp < 0x80 then [cp.toUInt8]
  else if cp < 0x800 then [(0xC0 + cp / 64).toUInt8, (0x80 + cp % 64).toUInt8]
  else if cp < 0x10000 then
    [(0xE0 + cp / 4096).toUInt8, (0x80 + cp / 64 % 64).toUInt8, (0x80 + cp % 64).toUInt8]
  else
    [(0xF0 + cp / 262144).toUInt8, (0x80 + cp / 4096 % 64).toUInt8, (0x80 + cp / 64 % 64).toUInt8,
      (0x80 + cp % 64).toUInt8]

def utf16OfCodePoint (cp : Nat) : List UInt16 :=
  if cp ≤ 0xFFFF then [cp.toUInt16]
  else
    let v := cp - 0x10000
    [(0xD800 + (v >>> 10)).toUInt16, (0xDC00 + (v &&& 0x3FF)).toUInt16]

def utf16Units (s : Bytes) : Except CanonError (List UInt16) :=
  (decode s).map fun cs => cs.flatMap fun c => utf16OfCodePoint c.1

/-- The order of member names. Only asked of names whose code units could be read. -/
def utf16Less (a b : Bytes) : Bool :=
  match utf16Units a, utf16Units b with
  | .ok ua, .ok ub => decide (ua < ub)
  | _, _ => false

def hexDigit (n : Nat) : UInt8 := (ascii "0123456789abcdef").getD n 0

/-- What one code point becomes: its escape, or the bytes it was read from. -/
def escapeCodePoint (cp : Nat) (bytes : Bytes) : Bytes :=
  if cp = 0x22 then ascii "\\\""
  else if cp = 0x5C then ascii "\\\\"
  else if cp = 0x08 then ascii "\\b"
  else if cp = 0x0C then ascii "\\f"
  else if cp = 0x0A then ascii "\\n"
  else if cp = 0x0D then ascii "\\r"
  else if cp = 0x09 then ascii "\\t"
  else if cp < 0x20 then
    ascii "\\u00" ++ [hexDigit ((cp >>> 4) &&& 0xF), hexDigit (cp &&& 0xF)]
  else bytes

def escapeInto (s : Bytes) : Except CanonError Bytes :=
  (decode s).map fun cs => 0x22 :: (cs.flatMap fun c => escapeCodePoint c.1 c.2) ++ [0x22]

/-! ## Well-formed UTF-8 -/

/-- Lead and second byte of a three-byte form: no overlong form, no surrogate. -/
def lead3 (b0 b1 : UInt8) : Bool :=
  (b0 == 0xE0 && 0xA0 ≤ b1 && b1 ≤ 0xBF) || (0xE1 ≤ b0 && b0 ≤ 0xEC && 0x80 ≤ b1 && b1 ≤ 0xBF) ||
  (b0 == 0xED && 0x80 ≤ b1 && b1 ≤ 0x9F) || (0xEE ≤ b0 && b0 ≤ 0xEF && 0x80 ≤ b1 && b1 ≤ 0xBF)

/-- Lead and second byte of a four-byte form: no overlong form, nothing above U+10FFFF. -/
def lead4 (b0 b1 : UInt8) : Bool :=
  (b0 == 0xF0 && 0x90 ≤ b1 && b1 ≤ 0xBF) || (0xF1 ≤ b0 && b0 ≤ 0xF3 && 0x80 ≤ b1 && b1 ≤ 0xBF) ||
  (b0 == 0xF4 && 0x80 ≤ b1 && b1 ≤ 0x8F)

def isTail (b : UInt8) : Bool := 0x80 ≤ b && b ≤ 0xBF

/-- `UTF8-octets`, RFC 3629. -/
inductive WellFormed : Bytes → Prop where
  | nil : WellFormed []
  | one {b s} : b < 0x80 → WellFormed s → WellFormed (b :: s)
  | two {b0 b1 s} : 0xC2 ≤ b0 → b0 ≤ 0xDF → isTail b1 = true → WellFormed s →
      WellFormed (b0 :: b1 :: s)
  | three {b0 b1 b2 s} : lead3 b0 b1 = true → isTail b2 = true → WellFormed s →
      WellFormed (b0 :: b1 :: b2 :: s)
  | four {b0 b1 b2 b3 s} : lead4 b0 b1 = true → isTail b2 = true → isTail b3 = true →
      WellFormed s → WellFormed (b0 :: b1 :: b2 :: b3 :: s)

/-- A fact about every byte, from its 256 cases. -/
theorem forall_byte {P : UInt8 → Prop} (h : ∀ n < 256, P (UInt8.ofNat n)) : ∀ b, P b := by
  intro b
  have := h b.toNat b.toNat_lt
  rwa [UInt8.ofNat_toNat] at this

/-- What the decoder reads off each of the 256 bytes. -/
theorem byte_forms (b : UInt8) : (isTail b = true → isContinuation b = true) ∧
    (0xC2 ≤ b → b ≤ 0xDF →
      ¬ b < 0x80 ∧ (b &&& 0xE0 == 0xC0) = true ∧ 2 ≤ (b &&& 0x1F).toNat) ∧
    (0xE0 ≤ b → b ≤ 0xEF →
      ¬ b < 0x80 ∧ (b &&& 0xE0 == 0xC0) = false ∧ (b &&& 0xF0 == 0xE0) = true ∧
        (b = 0xE0 ∨ 1 ≤ (b &&& 0x0F).toNat)) ∧
    (0xF0 ≤ b → b ≤ 0xF4 →
      ¬ b < 0x80 ∧ (b &&& 0xE0 == 0xC0) = false ∧ (b &&& 0xF0 == 0xE0) = false ∧
        (b &&& 0xF8 == 0xF0) = true ∧ (b = 0xF0 ∨ 1 ≤ (b &&& 0x07).toNat)) ∧
    (0x80 ≤ b → b ≤ 0xBF → isTail b = true ∧ (0x90 ≤ b → 16 ≤ tailBits b)) := by
  refine ⟨?_, ?_, ?_, ?_, ?_⟩
  all_goals
    revert b
    exact forall_byte (by decide +kernel)

theorem isContinuation_of_isTail (b : UInt8) : isTail b = true → isContinuation b = true :=
  (byte_forms b).1

theorem two_lead (b0 : UInt8) : 0xC2 ≤ b0 → b0 ≤ 0xDF →
    ¬ b0 < 0x80 ∧ (b0 &&& 0xE0 == 0xC0) = true ∧ 2 ≤ (b0 &&& 0x1F).toNat :=
  (byte_forms b0).2.1

theorem three_lead (b0 : UInt8) : 0xE0 ≤ b0 → b0 ≤ 0xEF →
    ¬ b0 < 0x80 ∧ (b0 &&& 0xE0 == 0xC0) = false ∧ (b0 &&& 0xF0 == 0xE0) = true ∧
      (b0 = 0xE0 ∨ 1 ≤ (b0 &&& 0x0F).toNat) :=
  (byte_forms b0).2.2.1

theorem four_lead (b0 : UInt8) : 0xF0 ≤ b0 → b0 ≤ 0xF4 →
    ¬ b0 < 0x80 ∧ (b0 &&& 0xE0 == 0xC0) = false ∧ (b0 &&& 0xF0 == 0xE0) = false ∧
      (b0 &&& 0xF8 == 0xF0) = true ∧ (b0 = 0xF0 ∨ 1 ≤ (b0 &&& 0x07).toNat) :=
  (byte_forms b0).2.2.2.1

theorem second_byte (b1 : UInt8) : 0x80 ≤ b1 → b1 ≤ 0xBF →
    isTail b1 = true ∧ (0x90 ≤ b1 → 16 ≤ tailBits b1) :=
  (byte_forms b1).2.2.2.2

theorem byte_le_trans {a b c : UInt8} (h : a ≤ b) (h' : b ≤ c) : a ≤ c := UInt8.le_trans h h'

theorem lead3_cases {b0 b1 : UInt8} (h : lead3 b0 b1 = true) :
    0xE0 ≤ b0 ∧ b0 ≤ 0xEF ∧ 0x80 ≤ b1 ∧ b1 ≤ 0xBF ∧ (b0 = 0xE0 → 0x90 ≤ b1) := by
  simp only [lead3, Bool.or_eq_true, Bool.and_eq_true, beq_iff_eq, decide_eq_true_eq] at h
  rcases h with ((⟨⟨rfl, h1⟩, h2⟩ | ⟨⟨⟨h3, h4⟩, h1⟩, h2⟩) | ⟨⟨rfl, h1⟩, h2⟩) |
    ⟨⟨⟨h3, h4⟩, h1⟩, h2⟩
  · exact ⟨by decide, by decide, byte_le_trans (by decide) h1, h2,
      fun _ => byte_le_trans (by decide) h1⟩
  · refine ⟨byte_le_trans (by decide) h3, byte_le_trans h4 (by decide), h1, h2, ?_⟩
    rintro rfl; exact absurd h3 (by decide)
  · exact ⟨by decide, by decide, h1, byte_le_trans h2 (by decide), fun h => absurd h (by decide)⟩
  · refine ⟨byte_le_trans (by decide) h3, h4, h1, h2, ?_⟩
    rintro rfl; exact absurd h3 (by decide)

theorem lead4_cases {b0 b1 : UInt8} (h : lead4 b0 b1 = true) :
    0xF0 ≤ b0 ∧ b0 ≤ 0xF4 ∧ 0x80 ≤ b1 ∧ b1 ≤ 0xBF ∧ (b0 = 0xF0 → 0x90 ≤ b1) := by
  simp only [lead4, Bool.or_eq_true, Bool.and_eq_true, beq_iff_eq, decide_eq_true_eq] at h
  rcases h with (⟨⟨rfl, h1⟩, h2⟩ | ⟨⟨⟨h3, h4⟩, h1⟩, h2⟩) | ⟨⟨rfl, h1⟩, h2⟩
  · exact ⟨by decide, by decide, byte_le_trans (by decide) h1, h2, fun _ => h1⟩
  · refine ⟨byte_le_trans (by decide) h3, byte_le_trans h4 (by decide), h1, h2, ?_⟩
    rintro rfl; exact absurd h3 (by decide)
  · exact ⟨by decide, by decide, h1, byte_le_trans h2 (by decide), fun h => absurd h (by decide)⟩

/-- Continuation bytes that are there are not asked for in vain. -/
theorem need_tails {tails s : Bytes} (h : ∀ b ∈ tails, isTail b = true) :
    need tails.length (tails ++ s) = .ok () := by
  have hall : ∀ b ∈ tails, isContinuation b = true := fun b hb =>
    isContinuation_of_isTail b (h b hb)
  simp only [need, List.length_append, List.take_left, List.all_eq_true.mpr hall, if_true]
  rw [if_neg (by omega)]

/-- A payload shifted into place stands above what is smaller than the shift. -/
theorem or_shift {a b i : Nat} (h : b < 2 ^ i) : (a <<< i) ||| b = a * 2 ^ i + b := by
  rw [← Nat.shiftLeft_add_eq_or_of_lt h, Nat.shiftLeft_eq]

/-- A payload shifted into place is no larger than the code point it is part of. -/
theorem shift_le {x k m : Nat} (hx : 1 ≤ x) (hk : m ≤ 1 <<< k) : m ≤ x <<< k := by
  rw [Nat.shiftLeft_eq] at *
  exact Nat.le_trans hk (Nat.mul_le_mul_right _ hx)

/-- The first character of a well-formed string, as the decoder reads it: its own byte, or a code
point no escape is made of. -/
theorem utf8Next_two {b0 b1 : UInt8} {s : Bytes} (h0 : 0xC2 ≤ b0) (h0' : b0 ≤ 0xDF)
    (h1 : isTail b1 = true) : ∃ cp, utf8Next b0 (b1 :: s) = .ok (cp, 1) ∧ 0x80 ≤ cp := by
  obtain ⟨hn, hl, hp⟩ := two_lead b0 h0 h0'
  refine ⟨((b0 &&& 0x1F).toNat <<< 6) ||| tailBits b1, by
    have := @need_tails [b1] s (by simp [h1])
    simp_all [utf8Next, Except.map], ?_⟩
  refine Nat.le_trans ?_ Nat.left_le_or
  rw [Nat.shiftLeft_eq]
  omega

theorem utf8Next_three {b0 b1 b2 : UInt8} {s : Bytes} (h0 : lead3 b0 b1 = true)
    (h2 : isTail b2 = true) : ∃ cp, utf8Next b0 (b1 :: b2 :: s) = .ok (cp, 2) ∧ 0x80 ≤ cp := by
  obtain ⟨ha, hb, hc, hd, he⟩ := lead3_cases h0
  obtain ⟨hn, hl, hl', hp⟩ := three_lead b0 ha hb
  obtain ⟨h1, hq⟩ := second_byte b1 hc hd
  refine ⟨((b0 &&& 0x0F).toNat <<< 12) ||| (tailBits b1 <<< 6) ||| tailBits b2, by
    have := @need_tails [b1, b2] s (by simp [h1, h2])
    simp_all [utf8Next, Except.map], ?_⟩
  refine Nat.le_trans ?_ Nat.left_le_or
  rcases hp with hp | hp
  · refine Nat.le_trans ?_ Nat.right_le_or
    have := hq (he hp)
    rw [Nat.shiftLeft_eq]; omega
  · refine Nat.le_trans ?_ Nat.left_le_or
    exact shift_le hp (by decide)

theorem utf8Next_four {b0 b1 b2 b3 : UInt8} {s : Bytes} (h0 : lead4 b0 b1 = true)
    (h2 : isTail b2 = true) (h3 : isTail b3 = true) :
    ∃ cp, utf8Next b0 (b1 :: b2 :: b3 :: s) = .ok (cp, 3) ∧ 0x80 ≤ cp := by
  obtain ⟨ha, hb, hc, hd, he⟩ := lead4_cases h0
  obtain ⟨hn, hl, hl', hl'', hp⟩ := four_lead b0 ha hb
  obtain ⟨h1, hq⟩ := second_byte b1 hc hd
  refine ⟨((b0 &&& 0x07).toNat <<< 18) ||| (tailBits b1 <<< 12) ||| (tailBits b2 <<< 6) |||
      tailBits b3, by
    have := @need_tails [b1, b2, b3] s (by simp [h1, h2, h3])
    simp_all [utf8Next, Except.map], ?_⟩
  refine Nat.le_trans ?_ Nat.left_le_or
  refine Nat.le_trans ?_ Nat.left_le_or
  rcases hp with hp | hp
  · refine Nat.le_trans ?_ Nat.right_le_or
    have := hq (he hp)
    rw [Nat.shiftLeft_eq]; omega
  · refine Nat.le_trans ?_ Nat.left_le_or
    exact shift_le hp (by decide)

/-! ## A check of well-formed strings -/

/-- Whether a string is UTF-8. -/
def utf8 : Bytes → Bool
  | [] => true
  | b0 :: s =>
    if b0 < 0x80 then utf8 s
    else
      match s with
      | b1 :: b2 :: b3 :: s =>
        if 0xC2 ≤ b0 && b0 ≤ 0xDF && isTail b1 then utf8 (b2 :: b3 :: s)
        else if lead3 b0 b1 && isTail b2 then utf8 (b3 :: s)
        else lead4 b0 b1 && isTail b2 && isTail b3 && utf8 s
      | [b1, b2] =>
        if 0xC2 ≤ b0 && b0 ≤ 0xDF && isTail b1 then utf8 [b2]
        else lead3 b0 b1 && isTail b2
      | [b1] => 0xC2 ≤ b0 && b0 ≤ 0xDF && isTail b1
      | [] => false

theorem wellFormed_of_utf8 (s : Bytes) (h : utf8 s = true) : WellFormed s := by
  fun_induction utf8 s with
  | case1 => exact .nil
  | case2 b0 s hb ih => exact .one hb (ih h)
  | case3 b0 hb b1 b2 b3 s hc ih =>
    simp only [Bool.and_eq_true, decide_eq_true_eq] at hc
    exact .two hc.1.1 hc.1.2 hc.2 (ih h)
  | case4 b0 hb b1 b2 b3 s _ hc ih =>
    simp only [Bool.and_eq_true] at hc
    exact .three hc.1 hc.2 (ih h)
  | case5 b0 hb b1 b2 b3 s _ _ ih =>
    simp only [Bool.and_eq_true] at h
    exact .four h.1.1.1 h.1.1.2 h.1.2 (ih h.2)
  | case6 b0 hb b1 b2 hc ih =>
    simp only [Bool.and_eq_true, decide_eq_true_eq] at hc
    exact .two hc.1.1 hc.1.2 hc.2 (ih h)
  | case7 b0 hb b1 b2 _ =>
    simp only [Bool.and_eq_true] at h
    exact .three h.1 h.2 .nil
  | case8 b0 hb b1 =>
    simp only [Bool.and_eq_true, decide_eq_true_eq] at h
    exact .two h.1.1 h.1.2 h.2 .nil
  | case9 b0 hb => cases h

theorem not_low {b c : UInt8} (h : c ≤ b) (hc : 0x80 ≤ c) : ¬ b < 0x80 :=
  UInt8.not_lt.mpr (byte_le_trans hc h)

theorem utf8_of_wellFormed {s : Bytes} (h : WellFormed s) : utf8 s = true := by
  induction h with
  | nil => rfl
  | one hb _ ih =>
    rw [utf8.eq_def]
    dsimp only
    rwa [if_pos hb]
  | @two b0 b1 s h h' h1 _ ih =>
    have hc : (0xC2 ≤ b0 && b0 ≤ 0xDF && isTail b1) = true := by simp [h, h', h1]
    rw [utf8.eq_def]
    dsimp only
    rw [if_neg (not_low h (by decide))]
    match s, ih with
    | [], _ => exact hc
    | [b2], ih => exact (if_pos hc).trans ih
    | b2 :: b3 :: s, ih => exact (if_pos hc).trans ih
  | @three b0 b1 b2 s h h2 _ ih =>
    obtain ⟨hlow, -, -⟩ := lead3_cases h
    have htwo : (0xC2 ≤ b0 && b0 ≤ 0xDF && isTail b1) ≠ true := by
      have : ¬ b0 ≤ 0xDF := fun hle => absurd (byte_le_trans hlow hle) (by decide)
      simp [this]
    have hc : (lead3 b0 b1 && isTail b2) = true := by simp [h, h2]
    rw [utf8.eq_def]
    dsimp only
    rw [if_neg (not_low hlow (by decide))]
    match s, ih with
    | [], _ => exact (if_neg htwo).trans hc
    | b3 :: s, ih => exact (if_neg htwo).trans ((if_pos hc).trans ih)
  | @four b0 b1 b2 b3 s h h2 h3 _ ih =>
    obtain ⟨hlow, -, -⟩ := lead4_cases h
    have hhigh : ∀ c : UInt8, c < 0xF0 → ¬ b0 ≤ c := fun c hc hle =>
      UInt8.not_le.mpr hc (byte_le_trans hlow hle)
    have htwo : (0xC2 ≤ b0 && b0 ≤ 0xDF && isTail b1) ≠ true := by
      simp [hhigh 0xDF (by decide)]
    have hthree : (lead3 b0 b1 && isTail b2) ≠ true := by
      intro hc
      rw [Bool.and_eq_true] at hc
      exact hhigh 0xEF (by decide) (lead3_cases hc.1).2.1
    rw [utf8.eq_def]
    dsimp only
    rw [if_neg (not_low hlow (by decide))]
    refine (if_neg htwo).trans ((if_neg hthree).trans ?_)
    simp [h, h2, h3, ih]

theorem utf8_iff {s : Bytes} : utf8 s = true ↔ WellFormed s :=
  ⟨wellFormed_of_utf8 s, utf8_of_wellFormed⟩

/-! ## The escaper, byte by byte -/

/-- The escape of one byte of a well-formed string. -/
def escapeByte (b : UInt8) : Bytes := escapeCodePoint b.toNat [b]

def escapeBytes (s : Bytes) : Bytes := s.flatMap escapeByte

theorem escapeCodePoint_high {cp : Nat} (h : 0x80 ≤ cp) (bytes : Bytes) :
    escapeCodePoint cp bytes = bytes := by
  unfold escapeCodePoint
  (repeat rw [if_neg (by omega)])

theorem escapeByte_high : ∀ b : UInt8, 0x80 ≤ b → escapeByte b = [b] := by
  intro b hb
  exact escapeCodePoint_high (by simpa [UInt8.le_iff_toNat_le] using hb) [b]

theorem decodeLoop_wellFormed {s : Bytes} (h : WellFormed s) :
    ∀ fuel, s.length ≤ fuel → ∃ cs, decodeLoop fuel s = .ok cs ∧
      (cs.flatMap fun c => escapeCodePoint c.1 c.2) = escapeBytes s := by
  induction h with
  | nil => intro fuel _; exact ⟨[], by cases fuel <;> rfl, rfl⟩
  | @one b s hb _ ih =>
    intro fuel hf
    obtain ⟨fuel, rfl⟩ : ∃ f, fuel = f + 1 := ⟨fuel - 1, by simp at hf; omega⟩
    obtain ⟨cs, hc, he⟩ := ih fuel (by simpa using hf)
    refine ⟨_, by simp [decodeLoop, utf8Next, hb, hc, Except.map]; rfl, ?_⟩
    simp [he, escapeBytes, escapeByte]
  | @two b0 b1 s h0 h0' h1 _ ih =>
    intro fuel hf
    obtain ⟨fuel, rfl⟩ : ∃ f, fuel = f + 1 := ⟨fuel - 1, by simp at hf; omega⟩
    obtain ⟨cs, hc, he⟩ := ih fuel (by simp at hf; omega)
    obtain ⟨cp, hn, hcp⟩ := utf8Next_two (s := s) h0 h0' h1
    refine ⟨_, by simp [decodeLoop, hn, hc, Except.map]; rfl, ?_⟩
    simp only [isTail, Bool.and_eq_true, decide_eq_true_eq] at h1
    simp [he, escapeBytes, escapeCodePoint_high hcp, escapeByte_high b1 h1.1,
      escapeByte_high b0 (byte_le_trans (by decide) h0)]
  | @three b0 b1 b2 s h0 h2 _ ih =>
    intro fuel hf
    obtain ⟨fuel, rfl⟩ : ∃ f, fuel = f + 1 := ⟨fuel - 1, by simp at hf; omega⟩
    obtain ⟨cs, hc, he⟩ := ih fuel (by simp at hf; omega)
    obtain ⟨cp, hn, hcp⟩ := utf8Next_three (s := s) h0 h2
    obtain ⟨ha, -, hb, -⟩ := lead3_cases h0
    refine ⟨_, by simp [decodeLoop, hn, hc, Except.map]; rfl, ?_⟩
    simp only [isTail, Bool.and_eq_true, decide_eq_true_eq] at h2
    simp [he, escapeBytes, escapeCodePoint_high hcp, escapeByte_high b1 hb,
      escapeByte_high b2 h2.1, escapeByte_high b0 (byte_le_trans (by decide) ha)]
  | @four b0 b1 b2 b3 s h0 h2 h3 _ ih =>
    intro fuel hf
    obtain ⟨fuel, rfl⟩ : ∃ f, fuel = f + 1 := ⟨fuel - 1, by simp at hf; omega⟩
    obtain ⟨cs, hc, he⟩ := ih fuel (by simp at hf; omega)
    obtain ⟨cp, hn, hcp⟩ := utf8Next_four (s := s) h0 h2 h3
    obtain ⟨ha, -, hb, -⟩ := lead4_cases h0
    refine ⟨_, by simp [decodeLoop, hn, hc, Except.map]; rfl, ?_⟩
    simp only [isTail, Bool.and_eq_true, decide_eq_true_eq] at h2 h3
    simp [he, escapeBytes, escapeCodePoint_high hcp, escapeByte_high b1 hb,
      escapeByte_high b2 h2.1, escapeByte_high b3 h3.1,
      escapeByte_high b0 (byte_le_trans (by decide) ha)]

theorem decode_wellFormed {s : Bytes} (h : WellFormed s) :
    ∃ cs, decode s = .ok cs ∧
      (cs.flatMap fun c => escapeCodePoint c.1 c.2) = escapeBytes s :=
  decodeLoop_wellFormed h s.length (Nat.le_refl _)

theorem escapeInto_wellFormed {s : Bytes} (h : WellFormed s) :
    escapeInto s = .ok (0x22 :: escapeBytes s ++ [0x22]) := by
  obtain ⟨cs, hc, he⟩ := decode_wellFormed h
  simp [escapeInto, hc, he, Except.map]

/-- The code words: a raw byte that is neither quotation mark nor backslash, a two-byte escape, or
the six bytes of `\u00XX`. -/
def isCodeWord : Bytes → Bool
  | [b] => b ≠ 0x22 && b ≠ 0x5C
  | [a, c] => a = 0x5C && c ≠ 0x75
  | [a, c, _, _, _, _] => a = 0x5C && c = 0x75
  | _ => false

/-- The byte a code word stands for. -/
def unescape : Bytes → UInt8
  | [b] => b
  | [_, c] =>
    if c = 0x62 then 0x08 else if c = 0x66 then 0x0C else if c = 0x6E then 0x0A
    else if c = 0x72 then 0x0D else if c = 0x74 then 0x09 else c
  | [_, _, _, _, h, l] => UInt8.ofNat (16 * (if h = 0x30 then 0 else 1) +
      (if l < 0x3A then l.toNat - 0x30 else l.toNat - 0x57))
  | _ => 0

theorem escapeByte_isCodeWord : ∀ b, isCodeWord (escapeByte b) = true :=
  forall_byte (by decide +kernel)

theorem unescape_escapeByte : ∀ b, unescape (escapeByte b) = b :=
  forall_byte (by decide +kernel)

theorem isCodeWord_cases {w : Bytes} (h : isCodeWord w = true) :
    (∃ b, w = [b] ∧ b ≠ 0x22 ∧ b ≠ 0x5C) ∨ (∃ c, w = [0x5C, c] ∧ c ≠ 0x75) ∨
      ∃ x y z u, w = [0x5C, 0x75, x, y, z, u] := by
  unfold isCodeWord at h
  split at h
  · rename_i b
    exact .inl ⟨b, rfl, by simpa using h⟩
  · rename_i a c
    simp only [Bool.and_eq_true, decide_eq_true_eq] at h
    exact .inr (.inl ⟨c, by rw [h.1], h.2⟩)
  · rename_i a c x y z u
    simp only [Bool.and_eq_true, decide_eq_true_eq] at h
    exact .inr (.inr ⟨x, y, z, u, by rw [h.1, h.2]⟩)
  · cases h

/-- No code word begins another one, whatever follows. -/
theorem isCodeWord_append {v w l l' : Bytes} (hv : isCodeWord v = true) (hw : isCodeWord w = true)
    (h : v ++ l = w ++ l') : v = w ∧ l = l' := by
  rcases isCodeWord_cases hv with ⟨b, rfl, -, hb⟩ | ⟨c, rfl, hc⟩ | ⟨x, y, z, u, rfl⟩ <;>
    rcases isCodeWord_cases hw with ⟨b', rfl, -, hb'⟩ | ⟨c', rfl, hc'⟩ | ⟨x', y', z', u', rfl⟩ <;>
    simp_all

theorem escapeByte_append (x y : UInt8) (l l' : Bytes)
    (h : escapeByte x ++ l = escapeByte y ++ l') : x = y ∧ l = l' := by
  obtain ⟨he, hl⟩ := isCodeWord_append (escapeByte_isCodeWord x) (escapeByte_isCodeWord y) h
  exact ⟨by rw [← unescape_escapeByte x, he, unescape_escapeByte], hl⟩

theorem escapeByte_head (b : UInt8) : ∃ h t, escapeByte b = h :: t ∧ h ≠ 0x22 := by
  rcases isCodeWord_cases (escapeByte_isCodeWord b) with ⟨c, h, hc, -⟩ | ⟨c, h, -⟩ | ⟨x, y, z, u, h⟩
  · exact ⟨_, _, h, hc⟩
  · exact ⟨_, _, h, by decide⟩
  · exact ⟨_, _, h, by decide⟩

/-- An escaped string, up to its closing quotation mark, is read in one way. -/
theorem escapeBytes_reads {s t r r' : Bytes}
    (h : escapeBytes s ++ 0x22 :: r = escapeBytes t ++ 0x22 :: r') : s = t ∧ r = r' :=
  Base.flatMap_terminated escapeByte_append escapeByte_head s t r r' h

end Canonical
end Laswell
