import Laswell.Canonical.Text

/-!
# Laswell.Canonical.Reader

A reader of JSON text by the grammar of the format, whoever wrote the text: white space between
tokens, all the escapes of a string, surrogate pairs among them, and numbers without a leading
zero. A number with a fraction or an exponent is not read.

* `readJson`: the reader. Its fuel is the length of the text.
* `readJson_text`: what it reads in the text of a value is the value.
* `Spells.readsAs_iff`: so a text that spells a value is read as that value, up to the order of
  members, and as no other.
-/

namespace Laswell
namespace Canonical

/-! ## Strings -/

def hexValue (b : UInt8) : Option Nat :=
  if 0x30 ≤ b ∧ b ≤ 0x39 then some (b.toNat - 0x30)
  else if 0x61 ≤ b ∧ b ≤ 0x66 then some (b.toNat - 0x57)
  else if 0x41 ≤ b ∧ b ≤ 0x46 then some (b.toNat - 0x37)
  else none

/-- The code unit of four hexadecimal digits. -/
def readUnit : Bytes → Option (Nat × Bytes)
  | a :: b :: c :: d :: rest => do
    let a ← hexValue a
    let b ← hexValue b
    let c ← hexValue c
    let d ← hexValue d
    return (0x1000 * a + 0x100 * b + 0x10 * c + d, rest)
  | _ => none

def isHighSurrogate (u : Nat) : Bool := decide (0xD800 ≤ u) && decide (u < 0xDC00)

def isLowSurrogate (u : Nat) : Bool := decide (0xDC00 ≤ u) && decide (u < 0xE000)

/-- The low surrogate that has to follow a high one. -/
def readLowSurrogate : Bytes → Option (Nat × Bytes)
  | b :: u :: rest =>
    if b = 0x5C ∧ u = 0x75 then (readUnit rest).filter fun r => isLowSurrogate r.1 else none
  | _ => none

/-- What a `\u` stands for. -/
def readCodePoint (text : Bytes) : Option (Bytes × Bytes) := do
  let (unit, rest) ← readUnit text
  if isHighSurrogate unit then
    let (low, rest) ← readLowSurrogate rest
    return (utf8Bytes (0x10000 + 0x400 * (unit - 0xD800) + (low - 0xDC00)), rest)
  else if isLowSurrogate unit then none
  else return (utf8Bytes unit, rest)

def shortEscape (e : UInt8) : Option UInt8 :=
  if e = 0x22 ∨ e = 0x5C ∨ e = 0x2F then some e
  else if e = 0x62 then some 0x08
  else if e = 0x66 then some 0x0C
  else if e = 0x6E then some 0x0A
  else if e = 0x72 then some 0x0D
  else if e = 0x74 then some 0x09
  else none

/-- What stands behind a backslash. -/
def readEscape : Bytes → Option (Bytes × Bytes)
  | [] => none
  | e :: rest =>
    if e = 0x75 then readCodePoint rest else (shortEscape e).map fun b => ([b], rest)

/-- The characters of a string, up to its closing quotation mark. -/
def readChars : Nat → Bytes → Option (Bytes × Bytes)
  | fuel + 1, c :: rest =>
    if c = 0x22 then some ([], rest)
    else if c = 0x5C then do
      let (bytes, rest) ← readEscape rest
      let (s, rest) ← readChars fuel rest
      return (bytes ++ s, rest)
    else if c < 0x20 then none
    else do
      let (s, rest) ← readChars fuel rest
      return (c :: s, rest)
  | _, _ => none

/-! ## Numbers -/

def decimal (ds : Bytes) : Nat := ds.foldl (fun n b => 10 * n + (b.toNat - 0x30)) 0

/-- A fraction or an exponent begins here. -/
def goesOn (text : Bytes) : Bool := (ascii ".eE").any fun b => text.head? == some b

def readDigits (text : Bytes) : Option (Nat × Bytes) :=
  let ds := text.takeWhile isDigitByte
  let rest := text.dropWhile isDigitByte
  if ds = [] ∨ (ds.head? = some 0x30 ∧ ds ≠ [0x30]) ∨ goesOn rest then none
  else some (decimal ds, rest)

def readNumber : Bytes → Option (Int × Bytes)
  | [] => none
  | c :: rest =>
    if c = 0x2D then (readDigits rest).map fun r => (-(r.1 : Int), r.2)
    else (readDigits (c :: rest)).map fun r => ((r.1 : Int), r.2)

/-! ## Values -/

def isSpaceByte (b : UInt8) : Bool := b == 0x20 || b == 0x09 || b == 0x0A || b == 0x0D

def skipSpace (text : Bytes) : Bytes := text.dropWhile isSpaceByte

def readString (text : Bytes) : Option (Bytes × Bytes) := readChars text.length text

/-- The name of a member, with its colon. -/
def readName (text : Bytes) : Option (Bytes × Bytes) :=
  match skipSpace text with
  | [] => none
  | c :: rest =>
    if c = 0x22 then do
      let (name, rest) ← readString rest
      match skipSpace rest with
      | [] => none
      | d :: rest => if d = 0x3A then return (name, rest) else none
    else none

/-- `null`, `true` or `false`. -/
def readWord (text : Bytes) : Option (Value × Bytes) :=
  if (ascii "null").isPrefixOf text then some (.null, text.drop 4)
  else if (ascii "true").isPrefixOf text then some (.boolean true, text.drop 4)
  else if (ascii "false").isPrefixOf text then some (.boolean false, text.drop 5)
  else none

mutual

def readValue : Nat → Bytes → Option (Value × Bytes)
  | 0, _ => none
  | fuel + 1, text =>
    match skipSpace text with
    | [] => none
    | c :: rest =>
      if c = 0x22 then (readString rest).map fun r => (.string r.1, r.2)
      else if c = 0x5B then
        if (skipSpace rest).head? = some 0x5D then some (.array [], (skipSpace rest).tail)
        else (readElements fuel rest).map fun r => (.array r.1, r.2)
      else if c = 0x7B then
        if (skipSpace rest).head? = some 0x7D then some (.object [], (skipSpace rest).tail)
        else (readMembers fuel rest).map fun r => (.object r.1, r.2)
      else if c = 0x2D ∨ isDigitByte c then
        (readNumber (c :: rest)).map fun r => (.number r.1, r.2)
      else readWord (c :: rest)

def readElements : Nat → Bytes → Option (List Value × Bytes)
  | 0, _ => none
  | fuel + 1, text =>
    match readValue fuel text with
    | none => none
    | some (v, rest) =>
      match skipSpace rest with
      | [] => none
      | c :: rest =>
        if c = 0x5D then some ([v], rest)
        else if c = 0x2C then (readElements fuel rest).map fun r => (v :: r.1, r.2)
        else none

def readMembers : Nat → Bytes → Option (List (Bytes × Value) × Bytes)
  | 0, _ => none
  | fuel + 1, text =>
    match readName text with
    | none => none
    | some (name, rest) =>
      match readValue fuel rest with
      | none => none
      | some (v, rest) =>
        match skipSpace rest with
        | [] => none
        | c :: rest =>
          if c = 0x7D then some ([(name, v)], rest)
          else if c = 0x2C then (readMembers fuel rest).map fun r => ((name, v) :: r.1, r.2)
          else none

end

/-- A text is one value, with nothing but white space behind it. -/
def readJson (text : Bytes) : Option Value :=
  ((readValue (text.length + 1) text).filter fun r => skipSpace r.2 = []).map Prod.fst

/-! ## Reading a string back -/

/-- The escape of a byte, as the reader comes upon it. -/
inductive EscapeOf (b : UInt8) : Bytes → Prop where
  | raw (quote : b ≠ 0x22) (backslash : b ≠ 0x5C) (control : ¬ b < 0x20) : EscapeOf b [b]
  | short (e : UInt8) (unit : e ≠ 0x75) (reads : shortEscape e = some b) : EscapeOf b [0x5C, e]
  | unit (x y z w : UInt8) (low : b < 0x20)
      (reads : ∀ r, readUnit (x :: y :: z :: w :: r) = some (b.toNat, r)) :
      EscapeOf b [0x5C, 0x75, x, y, z, w]

def readsBack (b : UInt8) : Bool :=
  match escapeByte b with
  | [c] => c == b && c != 0x22 && c != 0x5C && !decide (c < 0x20)
  | [c, e] => c == 0x5C && e != 0x75 && shortEscape e == some b
  | [c, u, x, y, z, w] => c == 0x5C && u == 0x75 && decide (b < 0x20) && x == 0x30 && y == 0x30 &&
      hexValue z == some (b.toNat / 16) && hexValue w == some (b.toNat % 16)
  | _ => false

theorem readsBack_all : ∀ b, readsBack b = true := forall_byte (by decide +kernel)

theorem escapeByte_escapeOf (b : UInt8) : EscapeOf b (escapeByte b) := by
  have h := readsBack_all b
  unfold readsBack at h
  split at h
  · rename_i c hc
    simp only [Bool.and_eq_true, beq_iff_eq, bne_iff_ne, Bool.not_eq_true', decide_eq_false_iff_not]
      at h
    obtain ⟨⟨⟨rfl, hquote⟩, hback⟩, hcontrol⟩ := h
    rw [hc]
    exact .raw hquote hback hcontrol
  · rename_i c e hc
    simp only [Bool.and_eq_true, beq_iff_eq, bne_iff_ne] at h
    obtain ⟨⟨rfl, hunit⟩, hreads⟩ := h
    rw [hc]
    exact .short e hunit hreads
  · rename_i c u x y z w hc
    simp only [Bool.and_eq_true, beq_iff_eq, decide_eq_true_eq] at h
    obtain ⟨⟨⟨⟨⟨⟨rfl, rfl⟩, hlow⟩, rfl⟩, rfl⟩, hz⟩, hw⟩ := h
    rw [hc]
    refine .unit _ _ _ _ hlow fun r => ?_
    have hzero : hexValue 0x30 = some 0 := by decide
    have hvalue : 0x1000 * 0 + 0x100 * 0 + 0x10 * (b.toNat / 16) + b.toNat % 16 = b.toNat := by
      omega
    simp only [readUnit, hzero, hz, hw, Option.bind_eq_bind, Option.bind_some, Option.pure_def,
      hvalue]
  · cases h

theorem utf8Bytes_low {b : UInt8} (h : b < 0x20) : utf8Bytes b.toNat = [b] := by
  have hlow : b.toNat < 0x80 := by
    have := UInt8.lt_iff_toNat_lt.1 h
    simp only [UInt8.reduceToNat] at this
    omega
  rw [utf8Bytes, if_pos hlow]
  exact congrArg (fun c => [c]) UInt8.ofNat_toNat

theorem bind_chars (read : Option (Bytes × Bytes)) (bytes : Bytes) :
    (do let (s, rest) ← read; return (bytes ++ s, rest) : Option (Bytes × Bytes)) =
      read.map fun r => (bytes ++ r.1, r.2) := by
  cases read <;> rfl

/-- One byte of a string: the reader takes its escape, and goes on behind it. -/
theorem readChars_escapeByte (b : UInt8) (fuel : Nat) (rest : Bytes) :
    readChars (fuel + 1) (escapeByte b ++ rest) =
      (readChars fuel rest).map fun r => (b :: r.1, r.2) := by
  have hescape := escapeByte_escapeOf b
  generalize escapeByte b = word at hescape ⊢
  cases hescape with
  | raw quote backslash control =>
    rw [List.singleton_append, readChars, if_neg quote, if_neg backslash, if_neg control]
    exact bind_chars _ [b]
  | short e unit reads =>
    have hread : readEscape (e :: rest) = some ([b], rest) := by
      rw [readEscape, if_neg unit, reads]
      rfl
    rw [List.cons_append, List.singleton_append, readChars, if_neg (by decide), if_pos rfl, hread]
    exact bind_chars _ [b]
  | unit x y z w low reads =>
    have hread : readEscape (0x75 :: x :: y :: z :: w :: rest) = some ([b], rest) := by
      have hsmall : b.toNat < 0x20 := UInt8.lt_iff_toNat_lt.1 low
      have hhigh : isHighSurrogate b.toNat = false := by
        rw [isHighSurrogate, decide_eq_false (by omega), Bool.false_and]
      have hlow : isLowSurrogate b.toNat = false := by
        rw [isLowSurrogate, decide_eq_false (by omega), Bool.false_and]
      rw [readEscape, if_pos rfl, readCodePoint, reads rest]
      simp only [Option.bind_eq_bind, Option.bind_some, hhigh, hlow, Bool.false_eq_true, if_false,
        utf8Bytes_low low, Option.pure_def]
    simp only [List.cons_append, List.nil_append]
    rw [readChars, if_neg (by decide), if_pos rfl, hread]
    exact bind_chars _ [b]

theorem readChars_escapeBytes (s r : Bytes) : ∀ fuel, s.length < fuel →
    readChars fuel (escapeBytes s ++ 0x22 :: r) = some (s, r) := by
  induction s with
  | nil =>
    intro fuel hfuel
    obtain ⟨fuel, rfl⟩ : ∃ n, fuel = n + 1 := ⟨fuel - 1, by simp at hfuel; omega⟩
    exact if_pos rfl
  | cons b s ih =>
    intro fuel hfuel
    obtain ⟨fuel, rfl⟩ : ∃ n, fuel = n + 1 := ⟨fuel - 1, by simp at hfuel; omega⟩
    have htail := ih fuel (by simpa using hfuel)
    rw [escapeBytes, List.flatMap_cons, List.append_assoc, readChars_escapeByte]
    change (readChars fuel (escapeBytes s ++ 0x22 :: r)).map _ = _
    rw [htail]
    rfl

theorem escapeBytes_length (s : Bytes) : s.length ≤ (escapeBytes s).length := by
  induction s with
  | nil => exact Nat.le_refl 0
  | cons b s ih =>
    obtain ⟨c, t, hword, -⟩ := escapeByte_head b
    rw [escapeBytes, List.flatMap_cons, List.length_append, hword, List.length_cons,
      List.length_cons]
    change s.length + 1 ≤ t.length + 1 + (escapeBytes s).length
    omega

theorem readString_quoted (s r : Bytes) :
    readString (escapeBytes s ++ 0x22 :: r) = some (s, r) := by
  refine readChars_escapeBytes s r _ ?_
  have hlength := escapeBytes_length s
  rw [List.length_append, List.length_cons]
  omega

/-! ## Reading a number back -/

theorem decimal_natDigits (n : Nat) : decimal (natDigits n) = n := by
  have hfold : ∀ (cs : List Char) (k : Nat), (∀ c ∈ cs, c.isDigit = true) →
      (cs.map fun c => c.toNat.toUInt8).foldl (fun n b => 10 * n + (b.toNat - 0x30)) k =
        Nat.ofDigitChars 10 cs k := by
    intro cs
    induction cs with
    | nil => exact fun _ _ => rfl
    | cons c cs ih =>
      intro k hdigits
      obtain ⟨hc, hcs⟩ := List.forall_mem_cons.mp hdigits
      rw [List.map_cons, List.foldl_cons, ih _ hcs, digit_toNat hc]
      rfl
  rw [decimal, natDigits, hfold _ _ fun c hc =>
    Nat.isDigit_of_mem_toDigits (by decide) (by decide) hc, Nat.ofDigitChars_ten_toDigits]

/-- No number begins with a zero but zero. -/
theorem natDigits_zero_head (n : Nat) (h : (natDigits n).head? = some 0x30) : n = 0 := by
  induction n using Nat.strong_induction_on with
  | _ n ih =>
    by_cases hlt : n < 10
    · have hone : natDigits n = [n.digitChar.toNat.toUInt8] := by
        rw [natDigits, Nat.toDigits_of_lt_base hlt]
        rfl
      have hzero : ∀ d < 10, d.digitChar.toNat.toUInt8 = 0x30 → d = 0 := by decide
      rw [hone, List.head?_cons, Option.some_inj] at h
      exact hzero n hlt h
    · have hle : 10 ≤ n := Nat.le_of_not_lt hlt
      have hmore : natDigits n = natDigits (n / 10) ++ [(n % 10).digitChar.toNat.toUInt8] := by
        rw [natDigits, Nat.toDigits_of_base_le (by decide) hle, List.map_append]
        rfl
      obtain ⟨b, t, hb, -⟩ := natDigits_head (n / 10)
      have hhead : (natDigits (n / 10)).head? = some 0x30 := by
        rw [hmore, hb] at h
        rw [hb]
        exact h
      have hzero := ih (n / 10) (Nat.div_lt_self (by omega) (by decide)) hhead
      omega

/-- What may follow a value: nothing, or what ends an element or a list. -/
def Follows (r : Bytes) : Prop := ∀ b ∈ r.head?, b = 0x2C ∨ b = 0x5D ∨ b = 0x7D

theorem follows_comma (r : Bytes) : Follows (0x2C :: r) := by
  intro b hb
  cases hb
  exact .inl rfl

theorem follows_bracket (r : Bytes) : Follows (0x5D :: r) := by
  intro b hb
  cases hb
  exact .inr (.inl rfl)

theorem follows_brace (r : Bytes) : Follows (0x7D :: r) := by
  intro b hb
  cases hb
  exact .inr (.inr rfl)

theorem Follows.stopsNumber {r : Bytes} (h : Follows r) : stopsNumber r := by
  intro b hb
  rcases h b hb with rfl | rfl | rfl <;> rfl

theorem Follows.goesOn {r : Bytes} (h : Follows r) : goesOn r = false := by
  cases r with
  | nil => rfl
  | cons b r => rcases h b rfl with rfl | rfl | rfl <;> rfl

theorem readDigits_natDigits (n : Nat) {r : Bytes} (hr : Follows r) :
    readDigits (natDigits n ++ r) = some (n, r) := by
  have hdigits : ∀ b ∈ natDigits n, isDigitByte b = true := natDigits_isDigit
  have hspan : r.takeWhile isDigitByte = [] ∧ r.dropWhile isDigitByte = r := by
    cases r with
    | nil => exact ⟨rfl, rfl⟩
    | cons b r =>
      have hb : isDigitByte b = false := hr.stopsNumber b rfl
      simp [hb]
  have htake : (natDigits n ++ r).takeWhile isDigitByte = natDigits n := by
    rw [List.takeWhile_append_of_pos hdigits, hspan.1, List.append_nil]
  have hdrop : (natDigits n ++ r).dropWhile isDigitByte = r := by
    rw [List.dropWhile_append_of_pos hdigits, hspan.2]
  obtain ⟨b, t, hb, -⟩ := natDigits_head n
  have hplain : ¬ (natDigits n = [] ∨ ((natDigits n).head? = some 0x30 ∧ natDigits n ≠ [0x30]) ∨
      Canonical.goesOn r = true) := by
    rintro (hnil | ⟨hzero, hne⟩ | hgoes)
    · rw [hb] at hnil
      cases hnil
    · rw [natDigits_zero_head n hzero] at hne
      exact hne rfl
    · rw [hr.goesOn] at hgoes
      cases hgoes
  unfold readDigits
  simp only [htake, hdrop]
  rw [if_neg hplain, decimal_natDigits]

theorem readNumber_intDigits (n : Int) {r : Bytes} (hr : Follows r) :
    readNumber (intDigits n ++ r) = some (n, r) := by
  unfold intDigits
  split
  · rename_i hneg
    rw [List.cons_append, readNumber, if_pos rfl, readDigits_natDigits _ hr, Option.map_some]
    congr 2
    omega
  · rename_i hpos
    obtain ⟨b, t, hb, hdigit⟩ := natDigits_head n.natAbs
    have hsign : b ≠ 0x2D := by
      rintro rfl
      cases hdigit
    have hread := readDigits_natDigits n.natAbs hr
    rw [hb, List.cons_append] at hread ⊢
    rw [readNumber, if_neg hsign, hread, Option.map_some]
    congr 2
    omega

theorem intDigits_head (n : Int) :
    ∃ c t, intDigits n = c :: t ∧ (c = 0x2D ∨ isDigitByte c = true) := by
  unfold intDigits
  split
  · exact ⟨_, _, rfl, .inl rfl⟩
  · obtain ⟨b, t, hb, hdigit⟩ := natDigits_head n.natAbs
    exact ⟨b, t, hb, .inr hdigit⟩

/-! ## Reading a value back -/

theorem skipSpace_text {v : Value} (hv : v.Plain) (r : Bytes) :
    skipSpace (v.text ++ r) = v.text ++ r := by
  obtain ⟨b, t, hb, hk⟩ := text_head v hv
  have hspace : isSpaceByte b = false := by
    rw [Bool.eq_false_iff]
    intro hspace
    have hnone : ∀ c : UInt8, isSpaceByte c = true → kindOf c = none := forall_byte (by decide +kernel)
    rw [hnone b hspace] at hk
    exact kind_ne_none hv hk.symm
  rw [hb, List.cons_append, skipSpace, List.dropWhile_cons_of_neg (by simp [hspace])]

/-- The reader takes the text of `v`, whatever may follow a value. -/
def ReadBack (v : Value) : Prop :=
  ∀ fuel r, v.text.length < fuel → Follows r → readValue fuel (v.text ++ r) = some (v, r)

theorem readElements_texts (e : Value) (es : List Value) :
    (∀ x ∈ e :: es, ReadBack x) → ∀ fuel r,
      (Base.sepList Value.text 0x2C 0x5D (e :: es)).length < fuel →
      readElements fuel (Base.sepList Value.text 0x2C 0x5D (e :: es) ++ r) = some (e :: es, r) := by
  induction es generalizing e with
  | nil =>
    intro hread fuel r hfuel
    obtain ⟨fuel, rfl⟩ : ∃ n, fuel = n + 1 := ⟨fuel - 1, by omega⟩
    have hfirst : readValue fuel (e.text ++ 0x5D :: r) = some (e, 0x5D :: r) := by
      refine hread e List.mem_cons_self fuel _ ?_ (follows_bracket r)
      simp only [Base.sepList, Base.sepTail, List.length_append, List.length_singleton] at hfuel
      omega
    simp only [Base.sepList, Base.sepTail, List.append_assoc, List.singleton_append]
    rw [readElements, hfirst]
    rfl
  | cons f es ih =>
    intro hread fuel r hfuel
    obtain ⟨fuel, rfl⟩ : ∃ n, fuel = n + 1 := ⟨fuel - 1, by omega⟩
    have hrest : readElements fuel (Base.sepList Value.text 0x2C 0x5D (f :: es) ++ r) =
        some (f :: es, r) := by
      refine ih f (fun x hx => hread x (List.mem_cons_of_mem e hx)) fuel r ?_
      simp only [Base.sepList, Base.sepTail, List.length_append, List.length_cons] at hfuel ⊢
      omega
    have hfirst : readValue fuel (e.text ++ 0x2C :: (Base.sepList Value.text 0x2C 0x5D (f :: es) ++
        r)) = some (e, 0x2C :: (Base.sepList Value.text 0x2C 0x5D (f :: es) ++ r)) := by
      refine hread e List.mem_cons_self fuel _ ?_ (follows_comma _)
      simp only [Base.sepList, Base.sepTail, List.length_append, List.length_cons] at hfuel
      omega
    change readElements (fuel + 1) (e.text ++ 0x2C ::
      Base.sepList Value.text 0x2C 0x5D (f :: es) ++ r) = _
    rw [List.append_assoc, List.cons_append, readElements, hfirst]
    change (readElements fuel _).map _ = _
    rw [hrest]
    rfl

theorem readName_quoted (name r : Bytes) :
    readName (quoted name ++ 0x3A :: r) = some (name, r) := by
  have hread := readString_quoted name (0x3A :: r)
  have hquote : skipSpace (0x22 :: (escapeBytes name ++ 0x22 :: 0x3A :: r)) =
    0x22 :: (escapeBytes name ++ 0x22 :: 0x3A :: r) := rfl
  have hcolon : skipSpace (0x3A :: r) = 0x3A :: r := rfl
  unfold readName
  simp [quoted_append, hquote, hread, hcolon]

def memberBytes (m : Bytes × Value) : Bytes := memberOf m.1 m.2.text

theorem memberBytes_append (m : Bytes × Value) (r : Bytes) :
    memberBytes m ++ r = quoted m.1 ++ 0x3A :: (m.2.text ++ r) := by
  simp [memberBytes, memberOf]

theorem memberBytes_length (m : Bytes × Value) : m.2.text.length < (memberBytes m).length := by
  simp only [memberBytes, memberOf, List.length_append, List.length_cons]
  omega

theorem readMembers_texts (m : Bytes × Value) (ms : List (Bytes × Value)) :
    (∀ x ∈ m :: ms, ReadBack x.2) → ∀ fuel r,
      (Base.sepList memberBytes 0x2C 0x7D (m :: ms)).length < fuel →
      readMembers fuel (Base.sepList memberBytes 0x2C 0x7D (m :: ms) ++ r) = some (m :: ms, r) := by
  induction ms generalizing m with
  | nil =>
    intro hread fuel r hfuel
    obtain ⟨fuel, rfl⟩ : ∃ n, fuel = n + 1 := ⟨fuel - 1, by omega⟩
    have hlength := memberBytes_length m
    have hvalue : readValue fuel (m.2.text ++ 0x7D :: r) = some (m.2, 0x7D :: r) := by
      refine hread m List.mem_cons_self fuel _ ?_ (follows_brace r)
      simp only [Base.sepList, Base.sepTail, List.length_append, List.length_singleton] at hfuel
      omega
    simp only [Base.sepList, Base.sepTail, List.append_assoc, List.singleton_append]
    rw [memberBytes_append, readMembers, readName_quoted]
    dsimp only
    rw [hvalue]
    rfl
  | cons n ms ih =>
    intro hread fuel r hfuel
    obtain ⟨fuel, rfl⟩ : ∃ n, fuel = n + 1 := ⟨fuel - 1, by omega⟩
    have hlength := memberBytes_length m
    have hrest : readMembers fuel (Base.sepList memberBytes 0x2C 0x7D (n :: ms) ++ r) =
        some (n :: ms, r) := by
      refine ih n (fun x hx => hread x (List.mem_cons_of_mem m hx)) fuel r ?_
      simp only [Base.sepList, Base.sepTail, List.length_append, List.length_cons] at hfuel ⊢
      omega
    have hvalue : readValue fuel (m.2.text ++ 0x2C :: (Base.sepList memberBytes 0x2C 0x7D
        (n :: ms) ++ r)) = some (m.2, 0x2C :: (Base.sepList memberBytes 0x2C 0x7D (n :: ms) ++
        r)) := by
      refine hread m List.mem_cons_self fuel _ ?_ (follows_comma _)
      simp only [Base.sepList, Base.sepTail, List.length_append, List.length_cons] at hfuel
      omega
    change readMembers (fuel + 1) (memberBytes m ++ 0x2C ::
      Base.sepList memberBytes 0x2C 0x7D (n :: ms) ++ r) = _
    rw [List.append_assoc, List.cons_append, memberBytes_append, readMembers, readName_quoted]
    dsimp only
    rw [hvalue]
    change (readMembers fuel _).map _ = _
    rw [hrest]
    rfl

/-- By induction on the value, one case for each kind. -/
theorem text_readBack : ∀ v : Value, v.Plain → ReadBack v := by
  intro v
  induction v using Value.induction with
  | null =>
    intro hv fuel r hfuel hr
    obtain ⟨fuel, rfl⟩ : ∃ n, fuel = n + 1 := ⟨fuel - 1, by omega⟩
    rfl
  | boolean b =>
    intro hv fuel r hfuel hr
    obtain ⟨fuel, rfl⟩ : ∃ n, fuel = n + 1 := ⟨fuel - 1, by omega⟩
    cases b <;> rfl
  | number n =>
    intro hv fuel r hfuel hr
    obtain ⟨fuel, rfl⟩ : ∃ n, fuel = n + 1 := ⟨fuel - 1, by omega⟩
    obtain ⟨c, t, hc, hfirst⟩ := intDigits_head n
    have htext : (Value.number n).text ++ r = c :: (t ++ r) := congrArg (· ++ r) hc
    have hread : readNumber (c :: (t ++ r)) = some (n, r) := htext ▸ readNumber_intDigits n hr
    have hother : c ≠ 0x22 ∧ c ≠ 0x5B ∧ c ≠ 0x7B := by
      refine ⟨?_, ?_, ?_⟩ <;> rintro rfl <;> rcases hfirst with h | h <;> cases h
    rw [readValue, skipSpace_text hv, htext]
    dsimp only
    rw [if_neg hother.1, if_neg hother.2.1, if_neg hother.2.2, if_pos hfirst, hread]
    rfl
  | string s =>
    intro hv fuel r hfuel hr
    obtain ⟨fuel, rfl⟩ : ∃ n, fuel = n + 1 := ⟨fuel - 1, by omega⟩
    change readValue (fuel + 1) (quoted s ++ r) = _
    rw [quoted_append]
    change (readString (escapeBytes s ++ 0x22 :: r)).map _ = _
    rw [readString_quoted]
    rfl
  | array es ih =>
    intro hv fuel r hfuel hr
    obtain ⟨fuel, rfl⟩ : ∃ n, fuel = n + 1 := ⟨fuel - 1, by omega⟩
    simp only [Value.Plain, plainElements_iff] at hv
    simp only [Value.text, elementTexts_eq_map, sepList_texts] at hfuel ⊢
    cases es with
    | nil => rfl
    | cons e es =>
      have hes : ∀ x ∈ e :: es, ReadBack x := fun x hx => ih x hx (hv x hx)
      have hlist := readElements_texts e es hes fuel r (by
        rw [List.length_cons] at hfuel
        omega)
      obtain ⟨b, t, hb, hne⟩ := text_not_bracket e (hv e List.mem_cons_self)
      have hskip := skipSpace_text (hv e List.mem_cons_self)
        (Base.sepTail Value.text 0x2C 0x5D es ++ r)
      rw [← List.append_assoc] at hskip
      change (if (skipSpace (Base.sepList Value.text 0x2C 0x5D (e :: es) ++ r)).head? = some 0x5D
        then _ else (readElements fuel (Base.sepList Value.text 0x2C 0x5D (e :: es) ++ r)).map _) =
          _
      rw [hlist, Base.sepList, hskip, hb, if_neg]
      · rfl
      · simpa using hne
  | object ms ih =>
    intro hv fuel r hfuel hr
    obtain ⟨fuel, rfl⟩ : ∃ n, fuel = n + 1 := ⟨fuel - 1, by omega⟩
    simp only [Value.Plain, plainMembers_iff] at hv
    simp only [Value.text, memberTexts_eq_map, sepList_texts] at hfuel ⊢
    cases ms with
    | nil => rfl
    | cons m ms =>
      have hms : ∀ x ∈ m :: ms, ReadBack x.2 := fun x hx => ih x hx (hv x hx)
      have hlist := readMembers_texts m ms hms fuel r (by
        rw [List.length_cons] at hfuel
        change (Base.sepList memberBytes 0x2C 0x7D (m :: ms)).length + 1 < fuel + 1 at hfuel
        omega)
      change (readMembers fuel (Base.sepList memberBytes 0x2C 0x7D (m :: ms) ++ r)).map _ = _
      rw [hlist]
      rfl
  | float bits => exact fun hv => absurd hv (by simp [Value.Plain])
  | binary bytes => exact fun hv => absurd hv (by simp [Value.Plain])
  | discarded => exact fun hv => absurd hv (by simp [Value.Plain])

/-- What is read in the text of a value is the value. -/
theorem readJson_text {v : Value} (hv : v.Plain) : readJson v.text = some v := by
  have hnil : Follows [] := by
    intro b hb
    cases hb
  have hread := text_readBack v hv (v.text.length + 1) [] (Nat.lt_succ_self _) hnil
  rw [List.append_nil] at hread
  rw [readJson, hread]
  rfl

/-- A text is read as the value, up to the order of the members of its objects. -/
def ReadsAs (text : Bytes) (v : Value) : Prop :=
  ∃ w, readJson text = some w ∧ w.reorder byteLe = v.reorder byteLe

/-- Of a text that spells a value, the reader reads what it spells. -/
theorem Spells.readsAs_iff {text : Bytes} {u v : Value} (h : Spells text u) :
    ReadsAs text v ↔ Spells text v := by
  obtain ⟨w, hw, rfl, -⟩ := h
  constructor
  · rintro ⟨w', hread, hsame⟩
    rw [readJson_text hw] at hread
    cases hread
    exact ⟨w, hw, rfl, hsame⟩
  · rintro ⟨w', hw', htext, hsame⟩
    obtain rfl := text_injective hw' hw htext
    exact ⟨w', readJson_text hw, hsame⟩

end Canonical
end Laswell
