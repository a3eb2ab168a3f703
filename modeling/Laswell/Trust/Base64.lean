import Laswell.Canonical.Utf8
import Mathlib.Data.Nat.Bitwise

/-!
# Laswell.Trust.Base64

The base64 of keys and signatures, `base64_encode` and `base64_decode` of `config.h`.

The decoder looks at four characters at a time. Within these it refuses what is out of place, but
it does not know which four are the last, and it drops low bits without a look at them.

* `quantum_roundTrips_iff`: four characters are read back unless bits were dropped.
* `base64_strict_iff`: an accepted text is the encoding of its bytes exactly when it is padded at
  its end only and no bits were dropped.
-/

namespace Laswell
namespace Trust

open Canonical

/-! ## Encoding -/

def alphabet : Bytes := ascii "ABCDEFGHIJKLMNOPQRSTUVWXYZabcdefghijklmnopqrstuvwxyz0123456789+/"

/-- `kAlpha[n]` -/
def letter (n : Nat) : UInt8 := alphabet.getD n 0

def pad : UInt8 := '='.toUInt8

/-- Three bytes, or what is left of them, as four characters. -/
def encodeQuantum (b0 : UInt8) (b1 b2 : Option UInt8) : Bytes :=
  let t := (b0.toNat <<< 16) ||| ((b1.getD 0).toNat <<< 8) ||| (b2.getD 0).toNat
  [letter ((t >>> 18) &&& 0x3F),
   letter ((t >>> 12) &&& 0x3F),
   if b1.isSome then letter ((t >>> 6) &&& 0x3F) else pad,
   if b2.isSome then letter (t &&& 0x3F) else pad]

def base64Encode : Bytes → Bytes
  | [] => []
  | [b0] => encodeQuantum b0 none none
  | [b0, b1] => encodeQuantum b0 (some b1) none
  | b0 :: b1 :: b2 :: rest => encodeQuantum b0 (some b1) (some b2) ++ base64Encode rest

/-! ## Decoding -/

inductive Base64Error where
  | length
  | misplacedPadding
  | invalidCharacter (c : UInt8)
  | dataAfterPadding
  deriving DecidableEq

def Base64Error.what : Base64Error → Bytes
  | .length => ascii "base64: length is not a multiple of 4"
  | .misplacedPadding => ascii "base64: misplaced padding"
  | .invalidCharacter c => ascii "base64: invalid character '" ++ [c] ++ ascii "'"
  | .dataAfterPadding => ascii "base64: data after padding"

/-- `none` where the source has -1. -/
def value (c : UInt8) : Option Nat :=
  if 'A'.toUInt8 ≤ c ∧ c ≤ 'Z'.toUInt8 then some (c.toNat - 'A'.toNat)
  else if 'a'.toUInt8 ≤ c ∧ c ≤ 'z'.toUInt8 then some (c.toNat - 'a'.toNat + 26)
  else if '0'.toUInt8 ≤ c ∧ c ≤ '9'.toUInt8 then some (c.toNat - '0'.toNat + 52)
  else if c = '+'.toUInt8 then some 62
  else if c = '/'.toUInt8 then some 63
  else none

def isSpace (c : UInt8) : Bool :=
  c == ' '.toUInt8 || c == '\n'.toUInt8 || c == '\r'.toUInt8 || c == '\t'.toUInt8

def withoutSpace (s : Bytes) : Bytes := s.filter fun c => !isSpace c

/-- The values of the characters from position `j` on, and how many of the four are padding. -/
def sextets : Nat → Nat → Bytes → Except Base64Error (List Nat × Nat)
  | _, padding, [] => .ok ([], padding)
  | j, padding, c :: cs =>
    if c = pad then
      if j < 2 then .error .misplacedPadding
      else (sextets (j + 1) (padding + 1) cs).map fun r => (0 :: r.1, r.2)
    else
      match value c with
      | none => .error (.invalidCharacter c)
      | some n =>
        if 0 < padding then .error .dataAfterPadding
        else (sextets (j + 1) padding cs).map fun r => (n :: r.1, r.2)

/-- The bytes of four values: three, less one for each character of padding. -/
def quantumBytes (n : List Nat) (padding : Nat) : Bytes :=
  let triple := (n.getD 0 0 <<< 18) ||| (n.getD 1 0 <<< 12) ||| (n.getD 2 0 <<< 6) ||| n.getD 3 0
  [((triple >>> 16) &&& 0xFF).toUInt8] ++
    (if padding < 2 then [((triple >>> 8) &&& 0xFF).toUInt8] else []) ++
    (if padding < 1 then [(triple &&& 0xFF).toUInt8] else [])

def decodeQuantum (q : Bytes) : Except Base64Error Bytes :=
  (sextets 0 0 q).map fun r => quantumBytes r.1 r.2

/-- The length is a multiple of four here. -/
def decodeQuanta : Bytes → Except Base64Error Bytes
  | a :: b :: c :: d :: rest => do
    let bytes ← decodeQuantum [a, b, c, d]
    let more ← decodeQuanta rest
    pure (bytes ++ more)
  | _ => .ok []

def base64Decode (s : Bytes) : Except Base64Error Bytes :=
  if (withoutSpace s).length % 4 ≠ 0 then .error .length else decodeQuanta (withoutSpace s)

/-! ## Characters -/

theorem value_spec : ∀ c : UInt8, ∀ n ∈ value c, n < 64 ∧ letter n = c ∧ c ≠ pad :=
  forall_byte (by decide +kernel)

theorem letter_ne_pad : ∀ n < 64, letter n ≠ pad := by decide +kernel

theorem value_letter : ∀ n < 64, value (letter n) = some n := by decide +kernel

theorem letter_inj {m n : Nat} (hm : m < 64) (hn : n < 64) : letter m = letter n ↔ m = n := by
  refine ⟨fun h => ?_, fun h => h ▸ rfl⟩
  have hv := value_letter m hm
  rw [h, value_letter n hn] at hv
  exact (Option.some.inj hv).symm

/-! ## Bits -/

theorem low_bits (t i : Nat) : t &&& (2 ^ i - 1) = t % 2 ^ i := Nat.and_two_pow_sub_one_eq_mod t i

/-- Four values, put together. -/
theorem triple_eq {n0 n1 n2 n3 : Nat} (h1 : n1 < 64) (h2 : n2 < 64) (h3 : n3 < 64) :
    (n0 <<< 18) ||| (n1 <<< 12) ||| (n2 <<< 6) ||| n3 =
      n0 * 2 ^ 18 + n1 * 2 ^ 12 + n2 * 2 ^ 6 + n3 := by
  have hlow : (n2 <<< 6) ||| n3 = n2 * 2 ^ 6 + n3 := or_shift h3
  have hmid : (n1 <<< 12) ||| (n2 * 2 ^ 6 + n3) = n1 * 2 ^ 12 + (n2 * 2 ^ 6 + n3) :=
    or_shift (by omega)
  rw [Nat.or_assoc, Nat.or_assoc, ← Nat.or_assoc (n1 <<< 12), Nat.or_assoc (n1 <<< 12), hlow, hmid,
    or_shift (by omega)]
  omega

/-- Three bytes, put together. -/
theorem bytes_eq {b0 b1 b2 : Nat} (h1 : b1 < 256) (h2 : b2 < 256) :
    (b0 <<< 16) ||| (b1 <<< 8) ||| b2 = b0 * 2 ^ 16 + b1 * 2 ^ 8 + b2 := by
  have hlow : (b1 <<< 8) ||| b2 = b1 * 2 ^ 8 + b2 := or_shift h2
  rw [Nat.or_assoc, hlow, or_shift (by omega)]
  omega

theorem encodeQuantum_eq (b0 : UInt8) (b1 b2 : Option UInt8) :
    encodeQuantum b0 b1 b2 =
      [letter (b0.toNat / 4),
       letter (b0.toNat % 4 * 16 + (b1.getD 0).toNat / 16),
       if b1.isSome then letter ((b1.getD 0).toNat % 16 * 4 + (b2.getD 0).toNat / 64)
         else pad,
       if b2.isSome then letter ((b2.getD 0).toNat % 64) else pad] := by
  have h0 := b0.toNat_lt
  have h1 := (b1.getD 0).toNat_lt
  have h2 := (b2.getD 0).toNat_lt
  have hsix : ∀ t : Nat, t &&& 0x3F = t % 64 := fun t => low_bits t 6
  unfold encodeQuantum
  simp only [bytes_eq h1 h2, hsix, Nat.shiftRight_eq_div_pow]
  have e0 : (b0.toNat * 2 ^ 16 + (b1.getD 0).toNat * 2 ^ 8 + (b2.getD 0).toNat) / 2 ^ 18 % 64 =
      b0.toNat / 4 := by omega
  have e1 : (b0.toNat * 2 ^ 16 + (b1.getD 0).toNat * 2 ^ 8 + (b2.getD 0).toNat) / 2 ^ 12 % 64 =
      b0.toNat % 4 * 16 + (b1.getD 0).toNat / 16 := by omega
  have e2 : (b0.toNat * 2 ^ 16 + (b1.getD 0).toNat * 2 ^ 8 + (b2.getD 0).toNat) / 2 ^ 6 % 64 =
      (b1.getD 0).toNat % 16 * 4 + (b2.getD 0).toNat / 64 := by omega
  have e3 : (b0.toNat * 2 ^ 16 + (b1.getD 0).toNat * 2 ^ 8 + (b2.getD 0).toNat) % 64 =
      (b2.getD 0).toNat % 64 := by omega
  rw [e0, e1, e2, e3]

theorem quantumBytes_eq {n0 n1 n2 n3 : Nat} (h0 : n0 < 64) (h1 : n1 < 64) (h2 : n2 < 64)
    (h3 : n3 < 64) (padding : Nat) :
    quantumBytes [n0, n1, n2, n3] padding =
      [(n0 * 4 + n1 / 16).toUInt8] ++
        (if padding < 2 then [(n1 % 16 * 16 + n2 / 4).toUInt8] else []) ++
        (if padding < 1 then [(n2 % 4 * 64 + n3).toUInt8] else []) := by
  have height : ∀ t : Nat, t &&& 0xFF = t % 256 := fun t => low_bits t 8
  unfold quantumBytes
  simp only [List.getD_cons_zero, List.getD_cons_succ, triple_eq h1 h2 h3, height,
    Nat.shiftRight_eq_div_pow]
  have e0 : (n0 * 2 ^ 18 + n1 * 2 ^ 12 + n2 * 2 ^ 6 + n3) / 2 ^ 16 % 256 = n0 * 4 + n1 / 16 := by
    omega
  have e1 : (n0 * 2 ^ 18 + n1 * 2 ^ 12 + n2 * 2 ^ 6 + n3) / 2 ^ 8 % 256 =
      n1 % 16 * 16 + n2 / 4 := by omega
  have e2 : (n0 * 2 ^ 18 + n1 * 2 ^ 12 + n2 * 2 ^ 6 + n3) % 256 = n2 % 4 * 64 + n3 := by omega
  rw [e0, e1, e2]

/-! ## Four characters -/

theorem sextets_cons {j padding : Nat} {c : UInt8} {cs : Bytes} {r : List Nat × Nat}
    (h : sextets j padding (c :: cs) = .ok r) :
    (c = pad ∧ 2 ≤ j ∧ ∃ r', sextets (j + 1) (padding + 1) cs = .ok r' ∧ r = (0 :: r'.1, r'.2)) ∨
    (∃ n, value c = some n ∧ padding = 0 ∧
      ∃ r', sextets (j + 1) padding cs = .ok r' ∧ r = (n :: r'.1, r'.2)) := by
  rw [sextets] at h
  split at h
  · rename_i hc
    split at h
    · cases h
    · rename_i hj
      cases hs : sextets (j + 1) (padding + 1) cs with
      | error e => rw [hs] at h; cases h
      | ok r' =>
        rw [hs] at h
        cases h
        exact .inl ⟨hc, by omega, r', rfl, rfl⟩
  · split at h
    · cases h
    · rename_i n hn
      split at h
      · cases h
      · rename_i hp
        cases hs : sextets (j + 1) padding cs with
        | error e => rw [hs] at h; cases h
        | ok r' =>
          rw [hs] at h
          cases h
          exact .inr ⟨n, hn, by omega, r', rfl, rfl⟩

/-- The characters of an accepted quantum: four values, or three and one of padding, or two and
two of padding. -/
theorem decodeQuantum_cases {a b c d : UInt8} {out : Bytes}
    (h : decodeQuantum [a, b, c, d] = .ok out) :
    ∃ n0 n1, value a = some n0 ∧ value b = some n1 ∧
      ((∃ n2 n3, value c = some n2 ∧ value d = some n3 ∧ out = quantumBytes [n0, n1, n2, n3] 0) ∨
       (∃ n2, value c = some n2 ∧ d = pad ∧ out = quantumBytes [n0, n1, n2, 0] 1) ∨
       (c = pad ∧ d = pad ∧ out = quantumBytes [n0, n1, 0, 0] 2)) := by
  rw [decodeQuantum] at h
  cases hs : sextets 0 0 [a, b, c, d] with
  | error e => rw [hs] at h; cases h
  | ok r =>
    rw [hs] at h
    cases h
    obtain ⟨-, hj, -⟩ | ⟨n0, ha, -, r0, h0, rfl⟩ := sextets_cons hs
    · omega
    obtain ⟨-, hj, -⟩ | ⟨n1, hb, -, r1, h1, rfl⟩ := sextets_cons h0
    · omega
    refine ⟨n0, n1, ha, hb, ?_⟩
    obtain ⟨hc, -, r2, h2, rfl⟩ | ⟨n2, hc, -, r2, h2, rfl⟩ := sextets_cons h1
    · obtain ⟨hd, -, r3, h3, rfl⟩ | ⟨n3, -, hp, -⟩ := sextets_cons h2
      · cases h3
        exact .inr (.inr ⟨hc, hd, rfl⟩)
      · omega
    · obtain ⟨hd, -, r3, h3, rfl⟩ | ⟨n3, hd, -, r3, h3, rfl⟩ := sextets_cons h2
      · cases h3
        exact .inr (.inl ⟨n2, hc, hd, rfl⟩)
      · cases h3
        exact .inl ⟨n2, n3, hc, hd, rfl⟩

section Quantum

variable {n0 n1 n2 n3 : Nat}

theorem toNat_toUInt8 {n : Nat} (h : n < 256) : n.toUInt8.toNat = n := UInt8.toNat_ofNat_of_lt' h

/-- One byte is encoded without the low bits of the second value. -/
theorem encode_one (h0 : n0 < 64) (h1 : n1 < 64) :
    base64Encode (quantumBytes [n0, n1, 0, 0] 2) =
      [letter n0, letter (n1 / 16 * 16), pad, pad] := by
  have hb := toNat_toUInt8 (show n0 * 4 + n1 / 16 < 256 by omega)
  have hbytes : quantumBytes [n0, n1, 0, 0] 2 = [(n0 * 4 + n1 / 16).toUInt8] := by
    rw [quantumBytes_eq h0 h1 (by omega) (by omega)]
    rfl
  rw [hbytes, base64Encode, encodeQuantum_eq, hb]
  have e0 : (n0 * 4 + n1 / 16) / 4 = n0 := by omega
  have e1 : (n0 * 4 + n1 / 16) % 4 * 16 + 0 / 16 = n1 / 16 * 16 := by omega
  rw [e0]
  change [_, letter (_ + 0 / 16), pad, pad] = _
  rw [e1]

/-- Two bytes are encoded without the low bits of the third value. -/
theorem encode_two (h0 : n0 < 64) (h1 : n1 < 64) (h2 : n2 < 64) :
    base64Encode (quantumBytes [n0, n1, n2, 0] 1) =
      [letter n0, letter n1, letter (n2 / 4 * 4), pad] := by
  have hb := toNat_toUInt8 (show n0 * 4 + n1 / 16 < 256 by omega)
  have hb' := toNat_toUInt8 (show n1 % 16 * 16 + n2 / 4 < 256 by omega)
  have hbytes : quantumBytes [n0, n1, n2, 0] 1 =
      [(n0 * 4 + n1 / 16).toUInt8, (n1 % 16 * 16 + n2 / 4).toUInt8] := by
    rw [quantumBytes_eq h0 h1 h2 (by omega)]
    rfl
  rw [hbytes, base64Encode, encodeQuantum_eq, Option.getD_some, hb, hb']
  have e0 : (n0 * 4 + n1 / 16) / 4 = n0 := by omega
  have e1 : (n0 * 4 + n1 / 16) % 4 * 16 + (n1 % 16 * 16 + n2 / 4) / 16 = n1 := by omega
  have e2 : (n1 % 16 * 16 + n2 / 4) % 16 * 4 + 0 / 64 = n2 / 4 * 4 := by omega
  rw [e0, e1]
  change [_, _, letter (_ + 0 / 64), pad] = _
  rw [e2]

theorem encode_three (h0 : n0 < 64) (h1 : n1 < 64) (h2 : n2 < 64) (h3 : n3 < 64) (more : Bytes) :
    base64Encode (quantumBytes [n0, n1, n2, n3] 0 ++ more) =
      [letter n0, letter n1, letter n2, letter n3] ++ base64Encode more := by
  have hb := toNat_toUInt8 (show n0 * 4 + n1 / 16 < 256 by omega)
  have hb' := toNat_toUInt8 (show n1 % 16 * 16 + n2 / 4 < 256 by omega)
  have hb'' := toNat_toUInt8 (show n2 % 4 * 64 + n3 < 256 by omega)
  have hbytes : quantumBytes [n0, n1, n2, n3] 0 =
      [(n0 * 4 + n1 / 16).toUInt8, (n1 % 16 * 16 + n2 / 4).toUInt8,
        (n2 % 4 * 64 + n3).toUInt8] := quantumBytes_eq h0 h1 h2 h3 0
  rw [hbytes]
  change base64Encode (_ :: _ :: _ :: more) = _
  rw [base64Encode, encodeQuantum_eq, Option.getD_some, Option.getD_some, hb, hb', hb'']
  have e0 : (n0 * 4 + n1 / 16) / 4 = n0 := by omega
  have e1 : (n0 * 4 + n1 / 16) % 4 * 16 + (n1 % 16 * 16 + n2 / 4) / 16 = n1 := by omega
  have e2 : (n1 % 16 * 16 + n2 / 4) % 16 * 4 + (n2 % 4 * 64 + n3) / 64 = n2 := by omega
  have e3 : (n2 % 4 * 64 + n3) % 64 = n3 := by omega
  rw [e0, e1, e2, e3]
  rfl

end Quantum

/-- The bits of the last value that go into no byte are 0. -/
def NoStrayBits (b c d : UInt8) : Prop :=
  (c = pad → (value b).getD 0 % 16 = 0) ∧ (c ≠ pad → d = pad → (value c).getD 0 % 4 = 0)

/-- Accepted characters are the encoding of their bytes unless bits were dropped. -/
theorem quantum_roundTrips_iff {a b c d : UInt8} {out : Bytes}
    (h : decodeQuantum [a, b, c, d] = .ok out) :
    base64Encode out = [a, b, c, d] ↔ NoStrayBits b c d := by
  obtain ⟨n0, n1, ha, hb, hcases⟩ := decodeQuantum_cases h
  obtain ⟨h0, rfl, -⟩ := value_spec a n0 ha
  obtain ⟨h1, rfl, -⟩ := value_spec b n1 hb
  obtain ⟨n2, n3, hc, hd, rfl⟩ | ⟨n2, hc, rfl, rfl⟩ | ⟨rfl, rfl, rfl⟩ := hcases
  · obtain ⟨h2, rfl, hc'⟩ := value_spec c n2 hc
    obtain ⟨h3, rfl, hd'⟩ := value_spec d n3 hd
    have henc := encode_three h0 h1 h2 h3 []
    rw [List.append_nil] at henc
    simp [henc, base64Encode, NoStrayBits, hc', hd']
  · obtain ⟨h2, rfl, hc'⟩ := value_spec c n2 hc
    rw [encode_two h0 h1 h2]
    have hlow : n2 / 4 * 4 = n2 ↔ n2 % 4 = 0 := by omega
    simp [NoStrayBits, hc', hc, letter_inj (show n2 / 4 * 4 < 64 by omega) h2, hlow]
  · rw [encode_one h0 h1]
    have hlow : n1 / 16 * 16 = n1 ↔ n1 % 16 = 0 := by omega
    simp [NoStrayBits, hb, letter_inj (show n1 / 16 * 16 < 64 by omega) h1, hlow]

/-- More bytes follow an unpadded quantum: it is read back as it was. -/
theorem encode_quantum_append {a b c d : UInt8} {out : Bytes}
    (h : decodeQuantum [a, b, c, d] = .ok out) (hd : d ≠ pad) (more : Bytes) :
    base64Encode (out ++ more) = [a, b, c, d] ++ base64Encode more := by
  obtain ⟨n0, n1, ha, hb, hcases⟩ := decodeQuantum_cases h
  obtain ⟨h0, rfl, -⟩ := value_spec a n0 ha
  obtain ⟨h1, rfl, -⟩ := value_spec b n1 hb
  obtain ⟨n2, n3, hc, hd', rfl⟩ | ⟨n2, -, rfl, -⟩ | ⟨-, rfl, -⟩ := hcases
  · obtain ⟨h2, rfl, -⟩ := value_spec c n2 hc
    obtain ⟨h3, rfl, -⟩ := value_spec d n3 hd'
    exact encode_three h0 h1 h2 h3 more
  · exact absurd rfl hd
  · exact absurd rfl hd

/-! ## Whole texts -/

theorem encode_length : ∀ bytes : Bytes, (base64Encode bytes).length = (bytes.length + 2) / 3 * 4
  | [] => rfl
  | [b0] => by simp [base64Encode, encodeQuantum]
  | [b0, b1] => by simp [base64Encode, encodeQuantum]
  | b0 :: b1 :: b2 :: rest => by
    rw [base64Encode, List.length_append, encode_length rest]
    simp only [encodeQuantum, List.length_cons, List.length_nil]
    omega

/-- Padding is in the last four characters of an encoding only. -/
theorem encode_fourth {bytes : Bytes} (h : 3 ≤ bytes.length) :
    (base64Encode bytes).getD 3 0 ≠ pad := by
  match bytes, h with
  | b0 :: b1 :: b2 :: rest, _ =>
    have hb : b2.toNat % 64 < 64 := Nat.mod_lt _ (by decide)
    rw [base64Encode, encodeQuantum_eq]
    simpa using letter_ne_pad _ hb

/-- Padded at the end only, where no bits are left over. -/
def Strict : Bytes → Prop
  | a :: b :: c :: d :: rest =>
    if rest = [] then NoStrayBits b c d else pad ∉ [a, b, c, d] ∧ Strict rest
  | _ => True

/-- What is padded before its end is not the encoding of any bytes. -/
theorem encode_ne_of_padded {a b c : UInt8} {rest bytes : Bytes} (hr : rest ≠ []) :
    base64Encode bytes ≠ a :: b :: c :: pad :: rest := by
  intro h
  by_cases hlen : 3 ≤ bytes.length
  · exact encode_fourth hlen (by rw [h]; rfl)
  · have hl := congrArg List.length h
    rw [encode_length] at hl
    simp only [List.length_cons] at hl
    have := List.length_pos_of_ne_nil hr
    omega

theorem decodeQuanta_cons {a b c d : UInt8} {rest out : Bytes}
    (h : decodeQuanta (a :: b :: c :: d :: rest) = .ok out) :
    ∃ bytes more, decodeQuantum [a, b, c, d] = .ok bytes ∧ decodeQuanta rest = .ok more ∧
      out = bytes ++ more := by
  rw [decodeQuanta] at h
  cases hq : decodeQuantum [a, b, c, d] with
  | error e => rw [hq] at h; cases h
  | ok bytes =>
    cases hr : decodeQuanta rest with
    | error e => rw [hq, hr] at h; cases h
    | ok more =>
      rw [hq, hr] at h
      cases h
      exact ⟨bytes, more, rfl, rfl, rfl⟩

theorem decodeQuantum_pad {a b c d : UInt8} {out : Bytes}
    (h : decodeQuantum [a, b, c, d] = .ok out) : pad ∉ [a, b, c, d] ↔ d ≠ pad := by
  obtain ⟨n0, n1, ha, hb, hcases⟩ := decodeQuantum_cases h
  obtain ⟨-, -, ha'⟩ := value_spec a n0 ha
  obtain ⟨-, -, hb'⟩ := value_spec b n1 hb
  obtain ⟨n2, n3, hc, hd, -⟩ | ⟨n2, hc, rfl, -⟩ | ⟨rfl, rfl, -⟩ := hcases
  · obtain ⟨-, -, hc'⟩ := value_spec c n2 hc
    simp [ha'.symm, hb'.symm, hc'.symm, eq_comm]
  · simp
  · simp

/-- The induction is on the quanta: all but the last have to be encoded apart from what follows. -/
theorem quanta_roundTrips_iff : ∀ {s out : Bytes}, s.length % 4 = 0 → decodeQuanta s = .ok out →
    (base64Encode out = s ↔ Strict s)
  | [], out, _, h => by
    cases h
    simp [base64Encode, Strict]
  | [_], _, hl, _ | [_, _], _, hl, _ | [_, _, _], _, hl, _ => by simp at hl
  | a :: b :: c :: d :: rest, out, hl, h => by
    obtain ⟨bytes, more, hq, hr, rfl⟩ := decodeQuanta_cons h
    rw [Strict]
    by_cases hrest : rest = []
    · subst hrest
      cases hr
      rw [if_pos rfl, List.append_nil, quantum_roundTrips_iff hq]
    · rw [if_neg hrest, decodeQuantum_pad hq]
      have ih := quanta_roundTrips_iff (by simp only [List.length_cons] at hl; omega) hr
      by_cases hd : d = pad
      · subst hd
        simp [encode_ne_of_padded hrest]
      · rw [encode_quantum_append hq hd]
        simp [hd, ih]

theorem base64Decode_ok {s out : Bytes} (h : base64Decode s = .ok out) :
    (withoutSpace s).length % 4 = 0 ∧ decodeQuanta (withoutSpace s) = .ok out := by
  rw [base64Decode] at h
  split at h
  · cases h
  · rename_i hl
    exact ⟨by omega, h⟩

/-- An accepted text is the encoding of its bytes, and the only text of theirs but for white space,
exactly when it is strict. -/
theorem base64_strict_iff {s t out out' : Bytes} (hs : base64Decode s = .ok out)
    (ht : base64Decode t = .ok out') :
    (base64Encode out = withoutSpace s ∧ base64Encode out' = withoutSpace t ∧
      (out = out' → withoutSpace s = withoutSpace t)) ↔
    Strict (withoutSpace s) ∧ Strict (withoutSpace t) := by
  obtain ⟨hl, hq⟩ := base64Decode_ok hs
  obtain ⟨hl', hq'⟩ := base64Decode_ok ht
  rw [← quanta_roundTrips_iff hl hq, ← quanta_roundTrips_iff hl' hq']
  constructor
  · rintro ⟨h, h', -⟩
    exact ⟨h, h'⟩
  · rintro ⟨h, h'⟩
    exact ⟨h, h', fun hout => by rw [← h, ← h', hout]⟩

theorem base64_strict_aGVsbG8 :
    (base64Encode (ascii "hello") = withoutSpace (ascii "aGVs bG8=\n") ∧
      base64Encode (ascii "hi") = withoutSpace (ascii "aGk=") ∧
      (ascii "hello" = ascii "hi" →
        withoutSpace (ascii "aGVs bG8=\n") = withoutSpace (ascii "aGk="))) ↔
    Strict (withoutSpace (ascii "aGVs bG8=\n")) ∧ Strict (withoutSpace (ascii "aGk=")) :=
  base64_strict_iff (by decide +kernel) (by decide +kernel)

/-- Two texts of the byte 0, one with bits left over, and a text made of two texts. -/
theorem base64Decode_lenient :
    base64Decode (ascii "AA==") = .ok [0] ∧ base64Decode (ascii "AB==") = .ok [0] ∧
    base64Decode (ascii "AA==AA==") = .ok [0, 0] ∧
    base64Encode [0, 0] ≠ withoutSpace (ascii "AA==AA==") := by
  decide +kernel

end Trust
end Laswell
