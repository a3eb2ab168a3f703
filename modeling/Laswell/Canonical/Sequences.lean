import Laswell.Canonical.Injective

/-!
# Laswell.Canonical.Sequences

Which byte strings the decoder accepts. It looks at the high bits of a byte, so it takes any lead
byte with as many continuation bytes as those bits ask for (`Sequence`), whatever code point comes
of it; UTF-8 has fewer (`Proper`): none that is longer than needed, no surrogate, nothing above
U+10FFFF.

* `decode_ok_iff`: the accepted strings are those made of sequences, in one way.
* `utf16Units_inj`: strings of proper sequences with the same code units are the same.
* `canonicalize_pieces`: a canonical document is proper where the strings of its source are.
* `escapeInto_strict_iff`: what follows for escaping, comparing and whole documents.
-/

namespace Laswell
namespace Canonical

/-! ## Sequences -/

/-- How many bytes a lead byte begins, by its high bits. -/
def sequenceLength (b : UInt8) : Option Nat :=
  if b < 0x80 then some 1
  else if b &&& 0xE0 == 0xC0 then some 2
  else if b &&& 0xF0 == 0xE0 then some 3
  else if b &&& 0xF8 == 0xF0 then some 4
  else none

/-- A lead byte and the continuation bytes it asks for. -/
def Sequence : Bytes → Prop
  | [] => False
  | b :: tail => sequenceLength b = some (tail.length + 1) ∧ ∀ c ∈ tail, isContinuation c = true

/-- A character of UTF-8: in its shortest form, no surrogate, not above U+10FFFF. -/
def Proper : Bytes → Prop
  | [b] => b < 0x80
  | [b0, b1] => 0xC2 ≤ b0 ∧ b0 ≤ 0xDF ∧ isTail b1 = true
  | [b0, b1, b2] => lead3 b0 b1 = true ∧ isTail b2 = true
  | [b0, b1, b2, b3] => lead4 b0 b1 = true ∧ isTail b2 = true ∧ isTail b3 = true
  | _ => False

/-- The bits of a sequence. -/
def codePoint : Bytes → Nat
  | [b] => b.toNat
  | [b0, b1] => ((b0 &&& 0x1F).toNat <<< 6) ||| tailBits b1
  | [b0, b1, b2] =>
    ((b0 &&& 0x0F).toNat <<< 12) ||| (tailBits b1 <<< 6) ||| tailBits b2
  | [b0, b1, b2, b3] =>
    ((b0 &&& 0x07).toNat <<< 18) ||| (tailBits b1 <<< 12) ||| (tailBits b2 <<< 6) ||| tailBits b3
  | _ => 0

/-- `s` falls into these sequences. -/
structure Pieces (s : Bytes) (qs : List Bytes) : Prop where
  joined : qs.flatten = s
  sequences : ∀ q ∈ qs, Sequence q

theorem Pieces.nil : Pieces [] [] := ⟨rfl, nofun⟩

theorem Pieces.cons {q s : Bytes} {qs : List Bytes} (hq : Sequence q) (h : Pieces s qs) :
    Pieces (q ++ s) (q :: qs) :=
  ⟨by rw [List.flatten_cons, h.joined], List.forall_mem_cons.2 ⟨hq, h.sequences⟩⟩

theorem Pieces.append {s t : Bytes} {qs rs : List Bytes} (hs : Pieces s qs) (ht : Pieces t rs) :
    Pieces (s ++ t) (qs ++ rs) :=
  ⟨by rw [List.flatten_append, hs.joined, ht.joined],
    fun q hq => (List.mem_append.1 hq).elim (hs.sequences q) (ht.sequences q)⟩

/-- The first sequence of a string is fixed by its lead byte. -/
theorem sequence_append {p q s t : Bytes} (hp : Sequence p) (hq : Sequence q)
    (h : p ++ s = q ++ t) : p = q ∧ s = t := by
  cases p with
  | nil => exact hp.elim
  | cons a p =>
    cases q with
    | nil => exact hq.elim
    | cons b q =>
      obtain ⟨rfl, hrest⟩ := List.cons_eq_cons.1 h
      have hlen : p.length = q.length := by
        have := hp.1.symm.trans hq.1
        simpa using this
      obtain ⟨rfl, ht⟩ := List.append_inj hrest hlen
      exact ⟨rfl, ht⟩

theorem Pieces.unique {s : Bytes} {qs rs : List Bytes} (hq : Pieces s qs) (hr : Pieces s rs) :
    qs = rs := by
  induction qs generalizing s rs with
  | nil =>
    cases rs with
    | nil => rfl
    | cons r rs =>
      have hnil : r = [] := by
        have := hr.joined.trans hq.joined.symm
        simp only [List.flatten_cons, List.flatten_nil, List.append_eq_nil_iff] at this
        exact this.1
      exact (hnil ▸ hr.sequences r List.mem_cons_self : Sequence []).elim
  | cons q qs ih =>
    have hqs := List.forall_mem_cons.1 hq.sequences
    cases rs with
    | nil =>
      have hnil : q = [] := by
        have := hq.joined.trans hr.joined.symm
        simp only [List.flatten_cons, List.flatten_nil, List.append_eq_nil_iff] at this
        exact this.1
      exact (hnil ▸ hqs.1 : Sequence []).elim
    | cons r rs =>
      have hrs := List.forall_mem_cons.1 hr.sequences
      obtain ⟨rfl, ht⟩ := sequence_append hqs.1 hrs.1 (hq.joined.trans hr.joined.symm)
      rw [ih ⟨rfl, hqs.2⟩ ⟨ht.symm, hrs.2⟩]

/-! ## The decoder -/

theorem need_ok_iff {n : Nat} {rest : Bytes} :
    need n rest = .ok () ↔ n ≤ rest.length ∧ ∀ c ∈ rest.take n, isContinuation c = true := by
  rw [need]
  split
  · rename_i h
    simp only [reduceCtorEq, false_iff, not_and]
    omega
  · rename_i h
    split
    · rename_i hall
      simp only [true_iff]
      exact ⟨by omega, List.all_eq_true.1 hall⟩
    · rename_i hall
      simp only [reduceCtorEq, false_iff, not_and]
      exact fun _ hc => hall (List.all_eq_true.2 hc)

/-- The continuation bytes a decoder asks for are there. -/
theorem need_tail {tail s : Bytes} (h : ∀ c ∈ tail, isContinuation c = true) :
    need tail.length (tail ++ s) = .ok () := by
  refine need_ok_iff.2 ⟨by simp, ?_⟩
  rwa [List.take_left]

theorem utf8Next_sequence {c0 : UInt8} {tail : Bytes} (h : Sequence (c0 :: tail)) (s : Bytes) :
    utf8Next c0 (tail ++ s) = .ok (codePoint (c0 :: tail), tail.length) := by
  obtain ⟨hlen, htail⟩ := h
  have hneed := need_tail (s := s) htail
  unfold sequenceLength at hlen
  unfold utf8Next
  split_ifs at hlen ⊢ with h1 h2 h3 h4
  · match tail, hlen with
    | [], _ => rfl
  · match tail, hlen, hneed with
    | [b1], _, hneed =>
      simp only [List.length_singleton] at hneed
      rw [hneed]
      rfl
  · match tail, hlen, hneed with
    | [b1, b2], _, hneed =>
      simp only [List.length_cons, List.length_nil, Nat.zero_add, Nat.reduceAdd] at hneed
      rw [hneed]
      rfl
  · match tail, hlen, hneed with
    | [b1, b2, b3], _, hneed =>
      simp only [List.length_cons, List.length_nil, Nat.zero_add, Nat.reduceAdd] at hneed
      rw [hneed]
      rfl

/-- Whatever is accepted is a sequence; its lead byte says how long. -/
theorem utf8Next_ok {c0 : UInt8} {rest : Bytes} {r : Nat × Nat} (h : utf8Next c0 rest = .ok r) :
    r.2 ≤ rest.length ∧ Sequence (c0 :: rest.take r.2) := by
  have hneeded : ∀ {n cp : Nat}, (need n rest).map (fun _ => (cp, n)) = .ok r →
      sequenceLength c0 = some (n + 1) → r.2 ≤ rest.length ∧ Sequence (c0 :: rest.take r.2) := by
    intro n cp hn hlen
    cases hneed : need n rest with
    | error e => rw [hneed] at hn; cases hn
    | ok u =>
      rw [hneed] at hn
      cases hn
      obtain ⟨hle, hall⟩ := need_ok_iff.1 hneed
      refine ⟨hle, ?_, hall⟩
      rw [List.length_take, Nat.min_eq_left hle, hlen]
  unfold utf8Next at h
  split_ifs at h with h1 h2 h3 h4
  · cases h
    refine ⟨Nat.zero_le _, ?_, nofun⟩
    simp only [sequenceLength, if_pos h1]
    rfl
  · exact hneeded h (by simp only [sequenceLength, if_neg h1, if_pos h2])
  · exact hneeded h (by simp only [sequenceLength, if_neg h1, if_neg h2, if_pos h3])
  · exact hneeded h (by simp only [sequenceLength, if_neg h1, if_neg h2, if_neg h3, if_pos h4])

theorem decodeLoop_pieces {s : Bytes} {qs : List Bytes} (h : Pieces s qs) :
    ∀ fuel, s.length ≤ fuel → decodeLoop fuel s = .ok (qs.map fun q => (codePoint q, q)) := by
  induction qs generalizing s with
  | nil =>
    obtain ⟨rfl, -⟩ := h
    intro fuel _
    cases fuel <;> rfl
  | cons q qs ih =>
    obtain ⟨rfl, hseq⟩ := h
    obtain ⟨hq, hqs⟩ := List.forall_mem_cons.1 hseq
    intro fuel hf
    match q, hq with
    | c0 :: tail, hq =>
      rw [List.flatten_cons, List.cons_append] at hf ⊢
      simp only [List.length_cons, List.length_append] at hf
      obtain ⟨fuel, rfl⟩ : ∃ f, fuel = f + 1 := ⟨fuel - 1, by omega⟩
      have hrest := ih ⟨rfl, hqs⟩ fuel (by omega)
      simp only [decodeLoop, utf8Next_sequence hq, List.drop_left, List.take_left, hrest,
        Except.map, List.map_cons]

theorem decodeLoop_ok : ∀ {fuel : Nat} {s : Bytes} {cs : List (Nat × Bytes)}, s.length ≤ fuel →
    decodeLoop fuel s = .ok cs → ∃ qs, Pieces s qs := by
  intro fuel
  induction fuel with
  | zero =>
    intro s cs hf _
    have : s = [] := List.length_eq_zero_iff.1 (by omega)
    exact ⟨[], this ▸ Pieces.nil⟩
  | succ fuel ih =>
    intro s cs hf h
    cases s with
    | nil => exact ⟨[], Pieces.nil⟩
    | cons c0 rest =>
      rw [decodeLoop] at h
      cases hn : utf8Next c0 rest with
      | error e => rw [hn] at h; cases h
      | ok r =>
        obtain ⟨cp, n⟩ := r
        simp only [hn] at h
        cases hd : decodeLoop fuel (rest.drop n) with
        | error e => rw [hd] at h; cases h
        | ok ds =>
          simp only [List.length_cons] at hf
          obtain ⟨qs, hqs⟩ := ih (by rw [List.length_drop]; omega) hd
          have hjoin := Pieces.cons (utf8Next_ok hn).2 hqs
          rw [List.cons_append, List.take_append_drop] at hjoin
          exact ⟨_, hjoin⟩

theorem decode_pieces {s : Bytes} {qs : List Bytes} (h : Pieces s qs) :
    decode s = .ok (qs.map fun q => (codePoint q, q)) := decodeLoop_pieces h _ (Nat.le_refl _)

/-- The accepted strings are those made of sequences. -/
theorem decode_ok_iff {s : Bytes} : (∃ cs, decode s = .ok cs) ↔ ∃ qs, Pieces s qs :=
  ⟨fun ⟨_, h⟩ => decodeLoop_ok (Nat.le_refl _) h, fun ⟨_, h⟩ => ⟨_, decode_pieces h⟩⟩

theorem escapeInto_ok_iff {s : Bytes} : (∃ out, escapeInto s = .ok out) ↔ ∃ qs, Pieces s qs := by
  rw [← decode_ok_iff, escapeInto]
  constructor
  · rintro ⟨out, h⟩
    cases hd : decode s with
    | error e => rw [hd] at h; cases h
    | ok cs => exact ⟨cs, rfl⟩
  · rintro ⟨cs, h⟩
    exact ⟨_, by rw [h]; rfl⟩

/-! ## Proper sequences -/

/-- What the lead and continuation bytes of UTF-8 say, checked over the 256 bytes. -/
theorem byte_lengths (b : UInt8) : (isContinuation b = true → isTail b = true) ∧
    (0xC2 ≤ b → b ≤ 0xDF → sequenceLength b = some 2 ∧ (b &&& 0x1F).toNat + 0xC0 = b.toNat ∧
      2 ≤ (b &&& 0x1F).toNat ∧ (b &&& 0x1F).toNat < 32) ∧
    (0xE0 ≤ b → b ≤ 0xEF → sequenceLength b = some 3 ∧ (b &&& 0x0F).toNat + 0xE0 = b.toNat ∧
      (b &&& 0x0F).toNat < 16) ∧
    (0xF0 ≤ b → b ≤ 0xF4 → sequenceLength b = some 4 ∧ (b &&& 0x07).toNat + 0xF0 = b.toNat ∧
      (b &&& 0x07).toNat < 5) ∧
    (isTail b = true → tailBits b + 0x80 = b.toNat ∧ tailBits b < 64) := by
  refine ⟨?_, ?_, ?_, ?_, ?_⟩
  all_goals
    revert b
    exact forall_byte (by decide +kernel)

theorem isTail_iff {b : UInt8} : isTail b = true ↔ isContinuation b = true :=
  ⟨isContinuation_of_isTail b, (byte_lengths b).1⟩

theorem sequenceLength_two (b : UInt8) (h : 0xC2 ≤ b) (h' : b ≤ 0xDF) :
    sequenceLength b = some 2 := ((byte_lengths b).2.1 h h').1

theorem sequenceLength_three (b : UInt8) (h : 0xE0 ≤ b) (h' : b ≤ 0xEF) :
    sequenceLength b = some 3 := ((byte_lengths b).2.2.1 h h').1

theorem sequenceLength_four (b : UInt8) (h : 0xF0 ≤ b) (h' : b ≤ 0xF4) :
    sequenceLength b = some 4 := ((byte_lengths b).2.2.2.1 h h').1

theorem Proper.sequence {q : Bytes} (h : Proper q) : Sequence q := by
  unfold Proper at h
  split at h
  · rename_i b
    exact ⟨by simp [sequenceLength, h], nofun⟩
  · rename_i b0 b1
    refine ⟨sequenceLength_two b0 h.1 h.2.1, ?_⟩
    simpa using isTail_iff.1 h.2.2
  · rename_i b0 b1 b2
    obtain ⟨ha, hb, hc, hd, -⟩ := lead3_cases h.1
    have h1 := isTail_iff.1 (second_byte b1 hc hd).1
    refine ⟨sequenceLength_three b0 ha hb, ?_⟩
    simpa [h1] using isTail_iff.1 h.2
  · rename_i b0 b1 b2 b3
    obtain ⟨ha, hb, hc, hd, -⟩ := lead4_cases h.1
    have h1 := isTail_iff.1 (second_byte b1 hc hd).1
    refine ⟨sequenceLength_four b0 ha hb, ?_⟩
    simpa [h1, isTail_iff.1 h.2.1] using isTail_iff.1 h.2.2
  · exact h.elim

/-- Well-formed UTF-8 is made of proper sequences. -/
theorem wellFormed_iff_proper {s : Bytes} :
    WellFormed s ↔ ∃ qs : List Bytes, qs.flatten = s ∧ ∀ q ∈ qs, Proper q := by
  constructor
  · intro h
    induction h with
    | nil => exact ⟨[], rfl, nofun⟩
    | @one b s hb _ ih =>
      obtain ⟨qs, rfl, hqs⟩ := ih
      exact ⟨[b] :: qs, rfl, List.forall_mem_cons.2 ⟨hb, hqs⟩⟩
    | @two b0 b1 s h0 h0' h1 _ ih =>
      obtain ⟨qs, rfl, hqs⟩ := ih
      exact ⟨[b0, b1] :: qs, rfl, List.forall_mem_cons.2 ⟨⟨h0, h0', h1⟩, hqs⟩⟩
    | @three b0 b1 b2 s h0 h2 _ ih =>
      obtain ⟨qs, rfl, hqs⟩ := ih
      exact ⟨[b0, b1, b2] :: qs, rfl, List.forall_mem_cons.2 ⟨⟨h0, h2⟩, hqs⟩⟩
    | @four b0 b1 b2 b3 s h0 h2 h3 _ ih =>
      obtain ⟨qs, rfl, hqs⟩ := ih
      exact ⟨[b0, b1, b2, b3] :: qs, rfl, List.forall_mem_cons.2 ⟨⟨h0, h2, h3⟩, hqs⟩⟩
  · rintro ⟨qs, rfl, h⟩
    induction qs with
    | nil => exact .nil
    | cons q qs ih =>
      obtain ⟨hq, hqs⟩ := List.forall_mem_cons.1 h
      have hrest := ih hqs
      unfold Proper at hq
      split at hq
      · exact .one hq hrest
      · exact .two hq.1 hq.2.1 hq.2.2 hrest
      · exact .three hq.1 hq.2 hrest
      · exact .four hq.1 hq.2.1 hq.2.2 hrest
      · exact hq.elim

theorem Pieces.wellFormed_iff {s : Bytes} {qs : List Bytes} (h : Pieces s qs) :
    WellFormed s ↔ ∀ q ∈ qs, Proper q := by
  rw [wellFormed_iff_proper]
  constructor
  · rintro ⟨rs, hr, hproper⟩
    have hrs : Pieces s rs := ⟨hr, fun q hq => (hproper q hq).sequence⟩
    rwa [h.unique hrs]
  · exact fun hproper => ⟨qs, h.joined, hproper⟩

/-! ## Code points -/

theorem bits_two (b : UInt8) (h : 0xC2 ≤ b) (h' : b ≤ 0xDF) :
    (b &&& 0x1F).toNat + 0xC0 = b.toNat ∧ 2 ≤ (b &&& 0x1F).toNat ∧ (b &&& 0x1F).toNat < 32 :=
  ((byte_lengths b).2.1 h h').2

theorem bits_three (b : UInt8) (h : 0xE0 ≤ b) (h' : b ≤ 0xEF) :
    (b &&& 0x0F).toNat + 0xE0 = b.toNat ∧ (b &&& 0x0F).toNat < 16 :=
  ((byte_lengths b).2.2.1 h h').2

theorem bits_four (b : UInt8) (h : 0xF0 ≤ b) (h' : b ≤ 0xF4) :
    (b &&& 0x07).toNat + 0xF0 = b.toNat ∧ (b &&& 0x07).toNat < 5 :=
  ((byte_lengths b).2.2.2.1 h h').2

theorem bits_tail (b : UInt8) : isTail b = true → tailBits b + 0x80 = b.toNat ∧ tailBits b < 64 :=
  (byte_lengths b).2.2.2.2

/-- A Unicode scalar value. -/
def Scalar (cp : Nat) : Prop := cp < 0xD800 ∨ 0xE000 ≤ cp ∧ cp ≤ 0x10FFFF

theorem toUInt8_of_eq {n : Nat} {b : UInt8} (h : n = b.toNat) : n.toUInt8 = b := by
  rw [h]
  exact UInt8.ofNat_toNat

theorem lead3_nat {b0 b1 : UInt8} (h : lead3 b0 b1 = true) :
    (b0.toNat = 0xE0 ∧ 0xA0 ≤ b1.toNat) ∨ (0xE1 ≤ b0.toNat ∧ b0.toNat ≤ 0xEC) ∨
      (b0.toNat = 0xED ∧ b1.toNat ≤ 0x9F) ∨ 0xEE ≤ b0.toNat := by
  simp only [lead3, Bool.or_eq_true, Bool.and_eq_true, beq_iff_eq, decide_eq_true_eq,
    UInt8.le_iff_toNat_le, ← UInt8.toNat_inj] at h
  simp only [UInt8.reduceToNat] at h
  omega

theorem lead4_nat {b0 b1 : UInt8} (h : lead4 b0 b1 = true) :
    (b0.toNat = 0xF0 ∧ 0x90 ≤ b1.toNat) ∨ (0xF1 ≤ b0.toNat ∧ b0.toNat ≤ 0xF3) ∨
      (b0.toNat = 0xF4 ∧ b1.toNat ≤ 0x8F) := by
  simp only [lead4, Bool.or_eq_true, Bool.and_eq_true, beq_iff_eq, decide_eq_true_eq,
    UInt8.le_iff_toNat_le, ← UInt8.toNat_inj] at h
  simp only [UInt8.reduceToNat] at h
  omega

/-- A proper sequence is what its code point, a scalar value, is written as. -/
theorem Proper.codePoint_spec {q : Bytes} (h : Proper q) :
    Scalar (codePoint q) ∧ utf8Bytes (codePoint q) = q := by
  unfold Proper at h
  split at h
  · rename_i b
    have hb : b.toNat < 0x80 := UInt8.lt_iff_toNat_lt.1 h
    have hcp : codePoint [b] = b.toNat := rfl
    rw [hcp]
    refine ⟨.inl (by omega), ?_⟩
    rw [utf8Bytes, if_pos hb, toUInt8_of_eq rfl]
  · rename_i b0 b1
    obtain ⟨e0, hlow, hhigh⟩ := bits_two b0 h.1 h.2.1
    obtain ⟨e1, h1⟩ := bits_tail b1 h.2.2
    have hcp : codePoint [b0, b1] = (b0 &&& 0x1F).toNat * 64 + tailBits b1 := or_shift h1
    rw [hcp]
    refine ⟨.inl (by omega), ?_⟩
    rw [utf8Bytes, if_neg (by omega), if_pos (by omega), toUInt8_of_eq (b := b0) (by omega),
      toUInt8_of_eq (b := b1) (by omega)]
  · rename_i b0 b1 b2
    obtain ⟨ha, hb, hc, hd, -⟩ := lead3_cases h.1
    obtain ⟨e0, hhigh⟩ := bits_three b0 ha hb
    obtain ⟨e1, h1⟩ := bits_tail b1 (second_byte b1 hc hd).1
    obtain ⟨e2, h2⟩ := bits_tail b2 h.2
    have hlead := lead3_nat h.1
    have hlow : (tailBits b1 <<< 6) ||| tailBits b2 = tailBits b1 * 64 + tailBits b2 := or_shift h2
    have hcp : codePoint [b0, b1, b2] =
        (b0 &&& 0x0F).toNat * 4096 + (tailBits b1 * 64 + tailBits b2) := by
      rw [codePoint, Nat.or_assoc, hlow]
      exact or_shift (by omega)
    rw [hcp]
    refine ⟨by unfold Scalar; omega, ?_⟩
    rw [utf8Bytes, if_neg (by omega), if_neg (by omega), if_pos (by omega),
      toUInt8_of_eq (b := b0) (by omega), toUInt8_of_eq (b := b1) (by omega),
      toUInt8_of_eq (b := b2) (by omega)]
  · rename_i b0 b1 b2 b3
    obtain ⟨ha, hb, hc, hd, -⟩ := lead4_cases h.1
    obtain ⟨e0, hhigh⟩ := bits_four b0 ha hb
    obtain ⟨e1, h1⟩ := bits_tail b1 (second_byte b1 hc hd).1
    obtain ⟨e2, h2⟩ := bits_tail b2 h.2.1
    obtain ⟨e3, h3⟩ := bits_tail b3 h.2.2
    have hlead := lead4_nat h.1
    have hlow : (tailBits b2 <<< 6) ||| tailBits b3 = tailBits b2 * 64 + tailBits b3 := or_shift h3
    have hmid : (tailBits b1 <<< 12) ||| (tailBits b2 * 64 + tailBits b3) =
        tailBits b1 * 4096 + (tailBits b2 * 64 + tailBits b3) := or_shift (by omega)
    have hcp : codePoint [b0, b1, b2, b3] = (b0 &&& 0x07).toNat * 262144 +
        (tailBits b1 * 4096 + (tailBits b2 * 64 + tailBits b3)) := by
      rw [codePoint, Nat.or_assoc, hlow, Nat.or_assoc, hmid]
      exact or_shift (by omega)
    rw [hcp]
    refine ⟨by unfold Scalar; omega, ?_⟩
    rw [utf8Bytes, if_neg (by omega), if_neg (by omega), if_neg (by omega),
      toUInt8_of_eq (b := b0) (by omega), toUInt8_of_eq (b := b1) (by omega),
      toUInt8_of_eq (b := b2) (by omega), toUInt8_of_eq (b := b3) (by omega)]
  · exact h.elim

theorem Proper.codePoint_inj {p q : Bytes} (hp : Proper p) (hq : Proper q)
    (h : codePoint p = codePoint q) : p = q := by
  rw [← hp.codePoint_spec.2, ← hq.codePoint_spec.2, h]

/-! ## UTF-16 -/

theorem toUInt16_inj {m n : Nat} (hm : m < 65536) (hn : n < 65536)
    (h : m.toUInt16 = n.toUInt16) : m = n := by
  have := congrArg UInt16.toNat h
  simpa [Nat.mod_eq_of_lt hm, Nat.mod_eq_of_lt hn] using this

/-- The code units of a scalar value: itself, or a pair of surrogates. -/
theorem utf16OfCodePoint_cases {cp : Nat} (h : Scalar cp) :
    (utf16OfCodePoint cp = [cp.toUInt16] ∧ cp < 65536 ∧ (cp < 0xD800 ∨ 0xE000 ≤ cp)) ∨
    ∃ v, cp = v + 0x10000 ∧ v < 0x100000 ∧
      utf16OfCodePoint cp = [(0xD800 + v / 1024).toUInt16, (0xDC00 + v % 1024).toUInt16] := by
  unfold utf16OfCodePoint
  split
  · rename_i hc
    refine .inl ⟨rfl, by omega, ?_⟩
    unfold Scalar at h
    omega
  · rename_i hc
    refine .inr ⟨cp - 0x10000, by omega, ?_, ?_⟩
    · unfold Scalar at h
      omega
    · have hlow : (cp - 0x10000) &&& 0x3FF = (cp - 0x10000) % 1024 :=
        Nat.and_two_pow_sub_one_eq_mod _ 10
      simp only [Nat.shiftRight_eq_div_pow, hlow, Nat.reducePow]

/-- The code units of a scalar value are read in one way, whatever follows: no scalar value is a
surrogate. -/
theorem utf16OfCodePoint_append {m n : Nat} (hm : Scalar m) (hn : Scalar n) {l l' : List UInt16}
    (h : utf16OfCodePoint m ++ l = utf16OfCodePoint n ++ l') : m = n ∧ l = l' := by
  obtain ⟨em, hm', hms⟩ | ⟨v, rfl, hv, em⟩ := utf16OfCodePoint_cases hm <;>
    obtain ⟨en, hn', hns⟩ | ⟨w, rfl, hw, en⟩ := utf16OfCodePoint_cases hn <;>
    rw [em, en] at h <;> simp only [List.cons_append, List.nil_append, List.cons.injEq] at h
  · exact ⟨toUInt16_inj hm' hn' h.1, h.2⟩
  · have := toUInt16_inj hm' (by omega) h.1
    omega
  · have := toUInt16_inj (by omega) hn' h.1
    omega
  · have h1 := toUInt16_inj (by omega) (by omega) h.1
    have h2 := toUInt16_inj (by omega) (by omega) h.2.1
    exact ⟨by omega, h.2.2⟩

theorem utf16OfCodePoint_ne_nil (cp : Nat) : utf16OfCodePoint cp ≠ [] := by
  unfold utf16OfCodePoint
  split <;> exact List.cons_ne_nil _ _

theorem units_inj {ps qs : List Bytes} (hp : ∀ p ∈ ps, Proper p) (hq : ∀ q ∈ qs, Proper q)
    (h : ps.flatMap (fun p => utf16OfCodePoint (codePoint p)) =
      qs.flatMap fun q => utf16OfCodePoint (codePoint q)) : ps = qs := by
  induction ps generalizing qs with
  | nil =>
    cases qs with
    | nil => rfl
    | cons q qs =>
      simp only [List.flatMap_nil, List.flatMap_cons] at h
      exact absurd (List.append_eq_nil_iff.1 h.symm).1 (utf16OfCodePoint_ne_nil _)
  | cons p ps ih =>
    obtain ⟨hp0, hps⟩ := List.forall_mem_cons.1 hp
    cases qs with
    | nil =>
      simp only [List.flatMap_nil, List.flatMap_cons] at h
      exact absurd (List.append_eq_nil_iff.1 h).1 (utf16OfCodePoint_ne_nil _)
    | cons q qs =>
      obtain ⟨hq0, hqs⟩ := List.forall_mem_cons.1 hq
      simp only [List.flatMap_cons] at h
      obtain ⟨hcp, hrest⟩ :=
        utf16OfCodePoint_append hp0.codePoint_spec.1 hq0.codePoint_spec.1 h
      rw [hp0.codePoint_inj hq0 hcp, ih hps hqs hrest]

theorem utf16Units_pieces {s : Bytes} {qs : List Bytes} (h : Pieces s qs) :
    utf16Units s = .ok (qs.flatMap fun q => utf16OfCodePoint (codePoint q)) := by
  rw [utf16Units, decode_pieces h, Except.map, List.flatMap_map]

/-- Well-formed names with the same code units are the same name. -/
theorem utf16Units_inj {a b : Bytes} (ha : WellFormed a) (hb : WellFormed b)
    (h : utf16Units a = utf16Units b) : a = b := by
  obtain ⟨ps, rfl, hp⟩ := wellFormed_iff_proper.1 ha
  obtain ⟨qs, rfl, hq⟩ := wellFormed_iff_proper.1 hb
  have hps : Pieces ps.flatten ps := ⟨rfl, fun p h => (hp p h).sequence⟩
  have hqs : Pieces qs.flatten qs := ⟨rfl, fun q h => (hq q h).sequence⟩
  rw [utf16Units_pieces hps, utf16Units_pieces hqs] at h
  rw [units_inj hp hq (Except.ok.inj h)]

theorem utf16Less_of_ne {a b : Bytes} (ha : WellFormed a) (hb : WellFormed b) (hne : a ≠ b) :
    utf16Less a b = true ∨ utf16Less b a = true := by
  obtain ⟨ua, hua⟩ : ∃ u, utf16Units a = .ok u := by
    obtain ⟨ps, rfl, hp⟩ := wellFormed_iff_proper.1 ha
    exact ⟨_, utf16Units_pieces ⟨rfl, fun p h => (hp p h).sequence⟩⟩
  obtain ⟨ub, hub⟩ : ∃ u, utf16Units b = .ok u := by
    obtain ⟨ps, rfl, hp⟩ := wellFormed_iff_proper.1 hb
    exact ⟨_, utf16Units_pieces ⟨rfl, fun p h => (hp p h).sequence⟩⟩
  simp only [utf16Less, hua, hub, decide_eq_true_eq]
  by_contra hnot
  obtain ⟨hab, hba⟩ := not_or.1 hnot
  have hunits : ua = ub := List.le_antisymm hba hab
  subst hunits
  exact hne (utf16Units_inj ha hb (hua.trans hub.symm))

/-! ## Documents -/

mutual

/-- Every name and every string value of a document. -/
def Json.strings : Json → List Bytes
  | .string s => [s]
  | .array es => elementStrings es
  | .object ms => memberStrings ms
  | _ => []
termination_by structural v => v

def elementStrings : List Json → List Bytes
  | [] => []
  | e :: es => e.strings ++ elementStrings es
termination_by structural es => es

def memberStrings : List (Bytes × Json) → List Bytes
  | [] => []
  | (name, v) :: ms => name :: v.strings ++ memberStrings ms
termination_by structural ms => ms

end

@[simp] theorem elementStrings_eq_flatMap : ∀ es, elementStrings es = es.flatMap Json.strings := by
  intro es
  induction es with
  | nil => rfl
  | cons e es ih => simp [elementStrings, ih]

@[simp] theorem memberStrings_eq_flatMap :
    ∀ ms, memberStrings ms = ms.flatMap fun m => m.1 :: m.2.strings := by
  intro ms
  induction ms with
  | nil => rfl
  | cons m ms ih => simp [memberStrings, ih]

/-- `s` falls into sequences, which are proper exactly if `p`. -/
def ProperIff (s : Bytes) (p : Prop) : Prop :=
  ∃ qs, Pieces s qs ∧ ((∀ q ∈ qs, Proper q) ↔ p)

namespace ProperIff

variable {s t : Bytes} {p p' : Prop}

theorem congr (h : ProperIff s p) (hp : p ↔ p') : ProperIff s p' := by
  obtain ⟨qs, hqs, hiff⟩ := h
  exact ⟨qs, hqs, hiff.trans hp⟩

theorem append (hs : ProperIff s p) (ht : ProperIff t p') : ProperIff (s ++ t) (p ∧ p') := by
  obtain ⟨qs, hqs, hq⟩ := hs
  obtain ⟨rs, hrs, hr⟩ := ht
  refine ⟨qs ++ rs, hqs.append hrs, ?_⟩
  rw [List.forall_mem_append, hq, hr]

theorem ascii (h : ∀ b ∈ s, b < 0x80) : ProperIff s True := by
  refine ⟨s.map fun b => [b], ⟨?_, ?_⟩, iff_true_intro ?_⟩
  · rw [← List.flatMap_def, List.flatMap_singleton']
  · intro q hq
    obtain ⟨b, hb, rfl⟩ := List.mem_map.1 hq
    exact Proper.sequence (q := [b]) (h b hb)
  · intro q hq
    obtain ⟨b, hb, rfl⟩ := List.mem_map.1 hq
    exact h b hb

/-- One ASCII character in front. -/
theorem cons {b : UInt8} (hb : b < 0x80) (h : ProperIff s p) : ProperIff (b :: s) p :=
  ((ascii (s := [b]) (by simpa using hb)).append h).congr (by rw [true_and])

theorem wellFormed_iff (h : ProperIff s p) : WellFormed s ↔ p := by
  obtain ⟨qs, hqs, hiff⟩ := h
  exact hqs.wellFormed_iff.trans hiff

theorem sepList {sep close : UInt8} (hsep : sep < 0x80) (hclose : close < 0x80)
    {texts : List (Bytes × Prop)} (h : ∀ t ∈ texts, ProperIff t.1 t.2) :
    ProperIff (Base.sepList id sep close (texts.map Prod.fst)) (∀ t ∈ texts, t.2) := by
  have htail : ∀ texts : List (Bytes × Prop), (∀ t ∈ texts, ProperIff t.1 t.2) →
      ProperIff (Base.sepTail id sep close (texts.map Prod.fst)) (∀ t ∈ texts, t.2) := by
    intro texts
    induction texts with
    | nil => exact fun _ => (ascii (by simpa [Base.sepTail] using hclose)).congr (by simp)
    | cons t texts ih =>
      intro h
      obtain ⟨ht, hts⟩ := List.forall_mem_cons.1 h
      exact ((ht.append (ih hts)).cons hsep).congr (by rw [List.forall_mem_cons])
  cases texts with
  | nil => exact (ascii (by simpa [Base.sepList] using hclose)).congr (by simp)
  | cons t texts =>
    obtain ⟨ht, hts⟩ := List.forall_mem_cons.1 h
    exact (ht.append (htail texts hts)).congr (by rw [List.forall_mem_cons])

end ProperIff

/-- The code points written as escapes, in ASCII. -/
def Escaped (cp : Nat) : Prop := cp = 0x22 ∨ cp = 0x5C ∨ cp < 0x20

theorem hexDigit_ascii : ∀ n < 16, hexDigit n < 0x80 := by decide

theorem escapeCodePoint_escaped {cp : Nat} (h : Escaped cp) (bytes : Bytes) :
    ∀ b ∈ escapeCodePoint cp bytes, b < 0x80 := by
  have hhigh : (cp >>> 4) &&& 0xF < 16 := Nat.lt_succ_of_le Nat.and_le_right
  have hlow : cp &&& 0xF < 16 := Nat.lt_succ_of_le Nat.and_le_right
  unfold escapeCodePoint
  unfold Escaped at h
  split_ifs
  · decide +kernel
  · decide +kernel
  · decide +kernel
  · decide +kernel
  · decide +kernel
  · decide +kernel
  · decide +kernel
  · intro b hb
    rcases List.mem_append.1 hb with hb | hb
    · have : ∀ b ∈ ascii "\\u00", b < 0x80 := by decide +kernel
      exact this b hb
    · simp only [List.mem_cons, List.not_mem_nil, or_false] at hb
      rcases hb with rfl | rfl
      · exact hexDigit_ascii _ hhigh
      · exact hexDigit_ascii _ hlow
  · omega

theorem escapeCodePoint_raw {cp : Nat} (h : ¬ Escaped cp) (bytes : Bytes) :
    escapeCodePoint cp bytes = bytes := by
  simp only [Escaped, not_or] at h
  unfold escapeCodePoint
  (repeat rw [if_neg (by omega)])

theorem properIff_escapeCodePoint {q : Bytes} (hq : Sequence q) :
    ProperIff (escapeCodePoint (codePoint q) q) (Proper q ∨ Escaped (codePoint q)) := by
  by_cases he : Escaped (codePoint q)
  · exact (ProperIff.ascii (escapeCodePoint_escaped he q)).congr (by simp [he])
  · rw [escapeCodePoint_raw he]
    exact ⟨[q], ⟨by simp, by simpa using hq⟩, by simp [he]⟩

/-- No sequence of the string is improper. -/
def WellSequenced (s : Bytes) : Prop := ∀ qs, Pieces s qs → ∀ q ∈ qs, Proper q

/-- No sequence of the string is improper once it is escaped. -/
def EscapesWell (s : Bytes) : Prop :=
  ∀ qs, Pieces s qs → ∀ q ∈ qs, Proper q ∨ Escaped (codePoint q)

theorem properIff_escapeInto {s out : Bytes} (h : escapeInto s = .ok out) :
    ProperIff out (EscapesWell s) := by
  obtain ⟨qs, hqs⟩ := escapeInto_ok_iff.1 ⟨out, h⟩
  rw [escapeInto, decode_pieces hqs] at h
  cases h
  have hbody : ∀ qs : List Bytes, (∀ q ∈ qs, Sequence q) →
      ProperIff ((qs.map fun q => (codePoint q, q)).flatMap fun c => escapeCodePoint c.1 c.2)
        (∀ q ∈ qs, Proper q ∨ Escaped (codePoint q)) := by
    intro qs
    induction qs with
    | nil => exact fun _ => (ProperIff.ascii (by simp)).congr (by simp)
    | cons q qs ih =>
      intro hseq
      obtain ⟨hq, hrest⟩ := List.forall_mem_cons.1 hseq
      rw [List.map_cons, List.flatMap_cons]
      exact ((properIff_escapeCodePoint hq).append (ih hrest)).congr
        (by rw [List.forall_mem_cons])
  have hclose : ProperIff [0x22] True := ProperIff.ascii (by decide +kernel)
  refine (((hbody qs hqs.sequences).append hclose).cons (by decide)).congr ?_
  rw [and_true]
  exact ⟨fun hall rs hrs => hrs.unique hqs ▸ hall, fun hall => hall qs hqs⟩

theorem intDigits_ascii (n : Int) : ∀ b ∈ intDigits n, b < 0x80 := by
  have hnat : ∀ k : Nat, ∀ b ∈ natDigits k, b < 0x80 := by
    intro k b hb
    have hd := natDigits_isDigit b hb
    simp only [isDigitByte, Bool.and_eq_true, decide_eq_true_eq] at hd
    exact UInt8.lt_of_le_of_lt hd.2 (by decide)
  intro b hb
  unfold intDigits at hb
  split at hb
  · rcases List.mem_cons.1 hb with rfl | hb
    · decide
    · exact hnat _ b hb
  · exact hnat _ b hb

theorem properIff_integer {n : Int64} {pointer s : Bytes}
    (h : canonicalizeInteger n pointer = .ok s) : ProperIff s True := by
  rw [← (canonicalizeInteger_ok h).2]
  exact ProperIff.ascii (intDigits_ascii _)

theorem properIff_elements {es : List Json}
    (hes : ∀ e ∈ es, ∀ pointer s, canonicalizeInto e pointer = .ok s →
      ProperIff s (∀ x ∈ e.strings, EscapesWell x)) :
    ∀ {i : Nat} {pointer : Bytes} {texts : List Bytes},
      canonicalizeElements es i pointer = .ok texts →
      ∃ ts : List (Bytes × Prop), ts.map Prod.fst = texts ∧ (∀ t ∈ ts, ProperIff t.1 t.2) ∧
        ((∀ t ∈ ts, t.2) ↔ ∀ e ∈ es, ∀ x ∈ e.strings, EscapesWell x) := by
  induction es with
  | nil =>
    intro i pointer texts h
    cases h
    exact ⟨[], rfl, nofun, by simp⟩
  | cons e es ih =>
    obtain ⟨he, hrest⟩ := List.forall_mem_cons.1 hes
    intro i pointer texts h
    rw [canonicalizeElements] at h
    obtain ⟨text, ht, h⟩ := bind_ok h
    obtain ⟨rest, hr, h⟩ := bind_ok h
    cases h
    obtain ⟨ts, rfl, hts, hiff⟩ := ih hrest hr
    refine ⟨(text, ∀ x ∈ e.strings, EscapesWell x) :: ts, rfl,
      List.forall_mem_cons.2 ⟨he _ _ ht, hts⟩, ?_⟩
    rw [List.forall_mem_cons, List.forall_mem_cons, hiff]

theorem properIff_members {ms : List (Bytes × Json)} {pointer : Bytes}
    (hms : ∀ m ∈ ms, ∀ pointer s, canonicalizeInto m.2 pointer = .ok s →
      ProperIff s (∀ x ∈ m.2.strings, EscapesWell x)) :
    ∀ {texts : List Bytes},
      (ms.map fun m => (m.1, canonicalizeInto m.2 (pointer ++ 0x2F :: m.1))).mapM memberText =
        .ok texts →
      ∃ ts : List (Bytes × Prop), ts.map Prod.fst = texts ∧ (∀ t ∈ ts, ProperIff t.1 t.2) ∧
        ((∀ t ∈ ts, t.2) ↔ ∀ m ∈ ms, ∀ x ∈ m.1 :: m.2.strings, EscapesWell x) := by
  induction ms with
  | nil =>
    intro texts h
    cases h
    exact ⟨[], rfl, nofun, by simp⟩
  | cons m ms ih =>
    obtain ⟨hm, hrest⟩ := List.forall_mem_cons.1 hms
    intro texts h
    rw [List.map_cons, List.mapM_cons] at h
    obtain ⟨text, ht, h⟩ := bind_ok h
    obtain ⟨rest, hr, h⟩ := bind_ok h
    cases h
    obtain ⟨name, hn, ht⟩ := bind_ok ht
    obtain ⟨value, hv, ht⟩ := bind_ok ht
    cases ht
    obtain ⟨ts, rfl, hts, hiff⟩ := ih hrest hr
    have hmember := (properIff_escapeInto hn).append ((hm _ _ hv).cons (b := 0x3A) (by decide))
    refine ⟨(name ++ 0x3A :: value, EscapesWell m.1 ∧ ∀ x ∈ m.2.strings, EscapesWell x) :: ts, rfl,
      List.forall_mem_cons.2 ⟨hmember, hts⟩, ?_⟩
    rw [List.forall_mem_cons, List.forall_mem_cons, hiff, List.forall_mem_cons]

/-- A canonical document, by induction on its source: improper sequences come from the strings. -/
theorem canonicalize_pieces : ∀ (v : Json) (pointer s : Bytes),
    canonicalizeInto v pointer = .ok s → ProperIff s (∀ x ∈ v.strings, EscapesWell x) := by
  intro v
  induction v using Json.induction with
  | null =>
    intro pointer s h
    cases h
    exact (ProperIff.ascii (by decide +kernel)).congr (by simp [Json.strings])
  | boolean b =>
    intro pointer s h
    cases h
    have hascii : ∀ c ∈ if b then ascii "true" else ascii "false", c < 0x80 := by
      cases b <;> decide +kernel
    exact (ProperIff.ascii hascii).congr (by simp [Json.strings])
  | numberInteger n =>
    intro pointer s h
    exact (properIff_integer h).congr (by simp [Json.strings])
  | numberUnsigned n =>
    intro pointer s h
    exact (properIff_integer h).congr (by simp [Json.strings])
  | numberFloat bits => intro pointer s h; cases h
  | binary bytes => intro pointer s h; cases h
  | discarded => intro pointer s h; cases h
  | string t =>
    intro pointer s h
    exact (properIff_escapeInto h).congr (by simp [Json.strings])
  | array es ih =>
    intro pointer s h
    rw [canonicalizeInto] at h
    obtain ⟨texts, ht, h⟩ := bind_ok h
    cases h
    obtain ⟨ts, rfl, hts, hiff⟩ := properIff_elements ih ht
    refine ((ProperIff.sepList (by decide) (by decide) hts).cons (by decide)).congr ?_
    rw [hiff, Json.strings, elementStrings_eq_flatMap]
    simp only [List.mem_flatMap, forall_exists_index, and_imp]
    exact ⟨fun h x e he hx => h e he x hx, fun h e he x hx => h x e he hx⟩
  | object ms ih =>
    intro pointer s h
    rw [canonicalizeInto, canonicalizeMembers_eq_map,
      sortMembers_map fun m => canonicalizeInto m.2 (pointer ++ 0x2F :: m.1)] at h
    obtain ⟨-, -, h⟩ := bind_ok h
    obtain ⟨texts, ht, h⟩ := bind_ok h
    cases h
    have hmem : ∀ m, m ∈ sortMembers ms ↔ m ∈ ms := fun m => List.mem_insertionSort _
    obtain ⟨ts, rfl, hts, hiff⟩ := properIff_members (fun m hm => ih m ((hmem m).1 hm)) ht
    refine ((ProperIff.sepList (by decide) (by decide) hts).cons (by decide)).congr ?_
    rw [hiff, Json.strings, memberStrings_eq_flatMap]
    simp only [List.mem_flatMap, forall_exists_index, and_imp, hmem]
    exact ⟨fun h x m hm hx => h m hm x hx, fun h m hm x hx => h x m hm hx⟩

/-! ## The claim of the escaper -/

/-- The strings `escape_into` takes. -/
def Escapes (s : Bytes) : Prop := ∃ out, escapeInto s = .ok out

theorem wellFormed_escapes {s : Bytes} (h : WellFormed s) : Escapes s :=
  ⟨_, escapeInto_wellFormed h⟩

/-- A string is taken exactly if it is well-formed, unless one of its sequences is improper. -/
theorem escapes_wellFormed_iff (s : Bytes) : (Escapes s ↔ WellFormed s) ↔ WellSequenced s := by
  constructor
  · intro h qs hqs
    exact hqs.wellFormed_iff.1 (h.1 (escapeInto_ok_iff.2 ⟨qs, hqs⟩))
  · refine fun h => ⟨fun hs => ?_, wellFormed_escapes⟩
    obtain ⟨qs, hqs⟩ := escapeInto_ok_iff.1 hs
    exact hqs.wellFormed_iff.2 (h qs hqs)

/-- Names, and a document that was canonicalised: the escaper takes well-formed UTF-8 only, tells
names apart and leaves well-formed UTF-8, exactly where no improper sequence is taken. -/
theorem escapeInto_strict_iff (a b : Bytes) {v : Json} {s : Bytes} (h : canonicalize v = .ok s) :
    ((Escapes a ↔ WellFormed a) ∧ (Escapes b ↔ WellFormed b) ∧
      (Escapes a → Escapes b → a ≠ b → utf16Less a b = true ∨ utf16Less b a = true) ∧
      WellFormed s) ↔
    WellSequenced a ∧ WellSequenced b ∧ ∀ x ∈ v.strings, EscapesWell x := by
  rw [escapes_wellFormed_iff, escapes_wellFormed_iff, (canonicalize_pieces v [] s h).wellFormed_iff]
  constructor
  · rintro ⟨ha, hb, -, hv⟩
    exact ⟨ha, hb, hv⟩
  · rintro ⟨ha, hb, hv⟩
    refine ⟨ha, hb, fun hea heb hne => ?_, hv⟩
    exact utf16Less_of_ne ((escapes_wellFormed_iff a).2 ha |>.1 hea)
      ((escapes_wellFormed_iff b).2 hb |>.1 heb) hne

theorem escapeInto_strict_euro :
    ((Escapes (ascii "id") ↔ WellFormed (ascii "id")) ∧
      (Escapes [0xE2, 0x82, 0xAC] ↔ WellFormed [0xE2, 0x82, 0xAC]) ∧
      (Escapes (ascii "id") → Escapes [0xE2, 0x82, 0xAC] → ascii "id" ≠ [0xE2, 0x82, 0xAC] →
        utf16Less (ascii "id") [0xE2, 0x82, 0xAC] = true ∨
          utf16Less [0xE2, 0x82, 0xAC] (ascii "id") = true) ∧
      WellFormed (ascii "[null]")) ↔
    WellSequenced (ascii "id") ∧ WellSequenced [0xE2, 0x82, 0xAC] ∧
      ∀ x ∈ (Json.array [.null]).strings, EscapesWell x :=
  escapeInto_strict_iff (ascii "id") [0xE2, 0x82, 0xAC] (v := .array [.null]) (by decide +kernel)

/-- NUL in two bytes, a surrogate and a code point above U+10FFFF are taken, and the two-byte NUL
is not told apart from NUL. -/
theorem escapeInto_lenient :
    (escapeInto [0xC0, 0x80]).isOk = true ∧ (escapeInto [0xED, 0xA0, 0x80]).isOk = true ∧
    (escapeInto [0xF4, 0x90, 0x80, 0x80]).isOk = true ∧ ¬ WellFormed [0xC0, 0x80] ∧
    utf16Less [0xC0, 0x80] [0] = false ∧ utf16Less [0] [0xC0, 0x80] = false := by
  refine ⟨by decide +kernel, by decide +kernel, by decide +kernel, ?_, by decide +kernel,
    by decide +kernel⟩
  intro h
  cases h with
  | one hb _ => exact absurd hb (by decide)
  | two h0 _ _ _ => exact absurd h0 (by decide)

end Canonical
end Laswell
