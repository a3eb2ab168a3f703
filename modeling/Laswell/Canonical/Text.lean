import Mathlib.Data.List.Sort
import Laswell.Canonical.Json

/-!
# Laswell.Canonical.Text

Values as JSON text, without white space: `Value.text` writes the members of an object in the
order they stand in. The text of a value is read in one way only (`text_reads`), so a text has at
most one value up to the order of members (`Spells.unique`).
-/

namespace Laswell
namespace Canonical

def quoted (s : Bytes) : Bytes := 0x22 :: escapeBytes s ++ [0x22]

def memberOf (name text : Bytes) : Bytes := quoted name ++ 0x3A :: text

mutual

def Value.text : Value → Bytes
  | .null => ascii "null"
  | .boolean b => if b then ascii "true" else ascii "false"
  | .number n => intDigits n
  | .string s => quoted s
  | .array es => 0x5B :: Base.sepList id 0x2C 0x5D (elementTexts es)
  | .object ms => 0x7B :: Base.sepList id 0x2C 0x7D (memberTexts ms)
  | .float _ => []
  | .binary _ => []
  | .discarded => []
termination_by structural v => v

def elementTexts : List Value → List Bytes
  | [] => []
  | e :: es => e.text :: elementTexts es
termination_by structural es => es

def memberTexts : List (Bytes × Value) → List Bytes
  | [] => []
  | (name, v) :: ms => memberOf name v.text :: memberTexts ms
termination_by structural ms => ms

end

mutual

/-- The values that have a text: no float, no binary, nothing discarded. -/
def Value.Plain : Value → Prop
  | .float _ => False
  | .binary _ => False
  | .discarded => False
  | .array es => PlainElements es
  | .object ms => PlainMembers ms
  | _ => True
termination_by structural v => v

def PlainElements : List Value → Prop
  | [] => True
  | e :: es => e.Plain ∧ PlainElements es
termination_by structural es => es

def PlainMembers : List (Bytes × Value) → Prop
  | [] => True
  | (_, v) :: ms => v.Plain ∧ PlainMembers ms
termination_by structural ms => ms

end

theorem elementTexts_eq_map : ∀ es, elementTexts es = es.map Value.text := by
  intro es
  induction es with
  | nil => rfl
  | cons e es ih => simp [elementTexts, ih]

theorem memberTexts_eq_map :
    ∀ ms, memberTexts ms = ms.map fun m => memberOf m.1 m.2.text := by
  intro ms
  induction ms with
  | nil => rfl
  | cons m ms ih => simp [memberTexts, ih]

theorem plainElements_iff : ∀ es, PlainElements es ↔ ∀ e ∈ es, e.Plain := by
  intro es
  induction es with
  | nil => simp [PlainElements]
  | cons e es ih => simp [PlainElements, ih]

theorem plainMembers_iff : ∀ ms, PlainMembers ms ↔ ∀ m ∈ ms, m.2.Plain := by
  intro ms
  induction ms with
  | nil => simp [PlainMembers]
  | cons m ms ih => simp [PlainMembers, ih]

/-! ## Decimal digits -/

def isDigitByte (b : UInt8) : Bool := 0x30 ≤ b && b ≤ 0x39

theorem digit_bounds {c : Char} (h : c.isDigit = true) : 48 ≤ c.toNat ∧ c.toNat ≤ 57 := by
  simpa [Char.isDigit, UInt32.le_iff_toNat_le] using h

theorem digit_toNat {c : Char} (h : c.isDigit = true) : c.toNat.toUInt8.toNat = c.toNat := by
  have hb := digit_bounds h
  simp [Nat.toUInt8, UInt8.toNat_ofNat']
  omega

theorem digit_byte {c : Char} (h : c.isDigit = true) :
    isDigitByte c.toNat.toUInt8 = true ∧ Char.ofNat c.toNat.toUInt8.toNat = c := by
  have hn := digit_toNat h
  refine ⟨?_, by rw [hn, Char.ofNat_toNat]⟩
  simp only [isDigitByte, Bool.and_eq_true, decide_eq_true_eq, UInt8.le_iff_toNat_le, hn]
  exact digit_bounds h

theorem natDigits_isDigit {n : Nat} : ∀ b ∈ natDigits n, isDigitByte b = true := by
  intro b hb
  simp only [natDigits, List.mem_map] at hb
  obtain ⟨c, hc, rfl⟩ := hb
  exact (digit_byte (Nat.isDigit_of_mem_toDigits (by decide) (by decide) hc)).1

theorem natDigits_injective {m n : Nat} (h : natDigits m = natDigits n) : m = n := by
  have back : ∀ k, (natDigits k).map (fun b => Char.ofNat b.toNat) = Nat.toDigits 10 k := by
    intro k
    rw [natDigits, List.map_map]
    conv_rhs => rw [← List.map_id (Nat.toDigits 10 k)]
    refine List.map_congr_left fun c hc => ?_
    exact (digit_byte (Nat.isDigit_of_mem_toDigits (by decide) (by decide) hc)).2
  rw [← Nat.ofDigitChars_ten_toDigits (n := m), ← back m, h, back n,
    Nat.ofDigitChars_ten_toDigits]

theorem natDigits_head (n : Nat) : ∃ b t, natDigits n = b :: t ∧ isDigitByte b = true := by
  cases h : natDigits n with
  | nil =>
    simp only [natDigits, List.map_eq_nil_iff] at h
    exact absurd h Nat.toDigits_ne_nil
  | cons b t => exact ⟨b, t, rfl, @natDigits_isDigit n b (by simp [h])⟩

/-- What may follow a value: nothing, or a byte that is no digit. -/
def stopsNumber (r : Bytes) : Prop := ∀ b ∈ r.head?, isDigitByte b = false

theorem natDigits_reads {m n : Nat} {r r' : Bytes} (hr : stopsNumber r) (hr' : stopsNumber r')
    (h : natDigits m ++ r = natDigits n ++ r') : m = n ∧ r = r' := by
  obtain ⟨hd, hrest⟩ :=
    Base.takeWhile_terminated natDigits_isDigit natDigits_isDigit hr hr' h
  exact ⟨natDigits_injective hd, hrest⟩

theorem intDigits_reads {m n : Int} {r r' : Bytes} (hr : stopsNumber r) (hr' : stopsNumber r')
    (h : intDigits m ++ r = intDigits n ++ r') : m = n ∧ r = r' := by
  have sign : ∀ {k l : Nat} {u v : Bytes},
      (0x2D : UInt8) :: natDigits k ++ u ≠ natDigits l ++ v := by
    intro k l u v h
    obtain ⟨b, t, hb, hd⟩ := natDigits_head l
    rw [hb, List.cons_append, List.cons_append, List.cons.injEq] at h
    rw [← h.1] at hd
    exact absurd hd (by decide)
  unfold intDigits at h
  split at h <;> split at h
  · rw [List.cons_append, List.cons_append, List.cons.injEq] at h
    obtain ⟨he, hrest⟩ := natDigits_reads hr hr' h.2
    exact ⟨by omega, hrest⟩
  · exact absurd h sign
  · exact absurd h.symm sign
  · obtain ⟨he, hrest⟩ := natDigits_reads hr hr' h
    exact ⟨by omega, hrest⟩

/-! ## One reading only -/

theorem stopsNumber_comma (l : Bytes) : stopsNumber (0x2C :: l) := by
  intro b hb
  cases hb
  rfl

theorem stopsNumber_bracket (l : Bytes) : stopsNumber (0x5D :: l) := by
  intro b hb
  cases hb
  rfl

theorem stopsNumber_brace (l : Bytes) : stopsNumber (0x7D :: l) := by
  intro b hb
  cases hb
  rfl

theorem quoted_append (s r : Bytes) : quoted s ++ r = 0x22 :: (escapeBytes s ++ 0x22 :: r) := by
  simp [quoted]

theorem quoted_reads {s t r r' : Bytes} (h : quoted s ++ r = quoted t ++ r') :
    s = t ∧ r = r' := by
  rw [quoted_append, quoted_append, List.cons.injEq] at h
  exact escapeBytes_reads h.2

/-- A member is read in one way when its value is. -/
theorem memberOf_reads {m : Bytes × Value}
    (hm : Base.Reads Value.text id Value.Plain stopsNumber m.2) :
    Base.Reads (fun m : Bytes × Value => memberOf m.1 m.2.text) id (fun m => m.2.Plain)
      stopsNumber m := by
  intro b r r' hb hr hr' h
  simp only [memberOf, List.append_assoc, List.cons_append] at h
  obtain ⟨hname, hrest⟩ := quoted_reads h
  rw [List.cons.injEq] at hrest
  obtain ⟨hv, hr⟩ := hm b.2 r r' hb hr hr' hrest.2
  exact ⟨Prod.ext hname hv, hr⟩

inductive Kind where
  | null | true | false | number | string | array | object
  deriving DecidableEq

def Value.kind : Value → Option Kind
  | .null => some .null
  | .boolean true => some .true
  | .boolean false => some .false
  | .number _ => some .number
  | .string _ => some .string
  | .array _ => some .array
  | .object _ => some .object
  | _ => none

/-- The kind a text's first byte announces. -/
def kindOf (b : UInt8) : Option Kind :=
  if b = 0x6E then some .null else if b = 0x74 then some .true
  else if b = 0x66 then some .false else if b = 0x22 then some .string
  else if b = 0x5B then some .array else if b = 0x7B then some .object
  else if b = 0x2D ∨ isDigitByte b then some .number else none

theorem kindOf_digit : ∀ b, isDigitByte b = true → kindOf b = some .number :=
  forall_byte (by decide +kernel)

theorem text_head : ∀ v : Value, v.Plain → ∃ b t, v.text = b :: t ∧ kindOf b = v.kind := by
  intro v hv
  cases v with
  | null => exact ⟨_, _, rfl, rfl⟩
  | boolean b => cases b <;> exact ⟨_, _, rfl, rfl⟩
  | number n =>
    simp only [Value.text, intDigits]
    split
    · exact ⟨_, _, rfl, rfl⟩
    · obtain ⟨b, t, hb, hd⟩ := natDigits_head n.natAbs
      exact ⟨b, t, hb, kindOf_digit b hd⟩
  | string s => exact ⟨_, _, rfl, rfl⟩
  | array es => exact ⟨_, _, by rw [Value.text], rfl⟩
  | object ms => exact ⟨_, _, by rw [Value.text], rfl⟩
  | float bits => exact absurd hv (by simp [Value.Plain])
  | binary bytes => exact absurd hv (by simp [Value.Plain])
  | discarded => exact absurd hv (by simp [Value.Plain])

theorem kind_ne_none {v : Value} (hv : v.Plain) : v.kind ≠ none := by
  cases v with
  | boolean b => cases b <;> simp [Value.kind]
  | float bits => exact absurd hv (by simp [Value.Plain])
  | binary bytes => exact absurd hv (by simp [Value.Plain])
  | discarded => exact absurd hv (by simp [Value.Plain])
  | _ => simp [Value.kind]

theorem text_not_bracket (v : Value) (hv : v.Plain) : ∃ b t, v.text = b :: t ∧ b ≠ 0x5D := by
  obtain ⟨b, t, hb, hk⟩ := text_head v hv
  refine ⟨b, t, hb, ?_⟩
  rintro rfl
  exact kind_ne_none hv (hk.symm.trans (by decide))

theorem memberOf_not_brace (m : Bytes × Value) :
    ∃ b t, memberOf m.1 m.2.text = b :: t ∧ b ≠ 0x7D :=
  ⟨0x22, _, rfl, by decide⟩

theorem text_kind {v w : Value} {r r' : Bytes} (hv : v.Plain) (hw : w.Plain)
    (h : v.text ++ r = w.text ++ r') : v.kind = w.kind := by
  obtain ⟨b, t, hb, hk⟩ := text_head v hv
  obtain ⟨b', t', hb', hk'⟩ := text_head w hw
  rw [hb, hb', List.cons_append, List.cons_append, List.cons.injEq] at h
  rw [← hk, ← hk', h.1]

theorem sepList_texts {α : Type} (enc : α → Bytes) (close : UInt8) (xs : List α) :
    Base.sepList id 0x2C close (xs.map enc) = Base.sepList enc 0x2C close xs := by
  have tail : ∀ ys : List α,
      Base.sepTail id 0x2C close (ys.map enc) = Base.sepTail enc 0x2C close ys := by
    intro ys
    induction ys with
    | nil => rfl
    | cons y ys ih => simp [Base.sepTail, ih]
  cases xs with
  | nil => rfl
  | cons x xs => simp [Base.sepList, tail]

/-- Arrays: the list rule at the text of values. -/
theorem array_reads {es : List Value}
    (hes : ∀ e ∈ es, Base.Reads Value.text id Value.Plain stopsNumber e)
    (hp : ∀ e ∈ es, e.Plain) {fs : List Value} {r r' : Bytes} (hfs : ∀ f ∈ fs, f.Plain)
    (h : (Value.array es).text ++ r = (Value.array fs).text ++ r') : es = fs ∧ r = r' := by
  simp only [Value.text, elementTexts_eq_map, sepList_texts, List.cons_append, List.cons.injEq,
    true_and] at h
  have := Base.Reads.sepList (by decide) stopsNumber_comma stopsNumber_bracket
    text_not_bracket hes hp hfs h
  simpa using this

/-- Objects: the list rule at the text of members. -/
theorem object_reads {ms : List (Bytes × Value)}
    (hms : ∀ m ∈ ms, Base.Reads Value.text id Value.Plain stopsNumber m.2)
    (hp : ∀ m ∈ ms, m.2.Plain) {ns : List (Bytes × Value)} {r r' : Bytes}
    (hns : ∀ n ∈ ns, n.2.Plain)
    (h : (Value.object ms).text ++ r = (Value.object ns).text ++ r') : ms = ns ∧ r = r' := by
  simp only [Value.text, memberTexts_eq_map, sepList_texts, List.cons_append, List.cons.injEq,
    true_and] at h
  have := Base.Reads.sepList (by decide) stopsNumber_comma stopsNumber_brace
    (fun m _ => memberOf_not_brace m) (fun m hm => memberOf_reads (hms m hm)) hp hns h
  simpa using this

/-- What a value of a given kind looks like. -/
def Kind.Shape (v : Value) : Kind → Prop
  | .null => v = .null
  | .true => v = .boolean Bool.true
  | .false => v = .boolean Bool.false
  | .number => ∃ n, v = .number n
  | .string => ∃ s, v = .string s
  | .array => ∃ es, v = .array es
  | .object => ∃ ms, v = .object ms

theorem kind_shape {v : Value} {k : Kind} (h : v.kind = some k) : k.Shape v := by
  cases v with
  | boolean b => cases b <;> cases h <;> rfl
  | null => cases h; rfl
  | number n => cases h; exact ⟨n, rfl⟩
  | string s => cases h; exact ⟨s, rfl⟩
  | array es => cases h; exact ⟨es, rfl⟩
  | object ms => cases h; exact ⟨ms, rfl⟩
  | _ => cases h

/-- A text is read in one way only: by induction on the value, one case for each kind. -/
theorem text_reads :
    ∀ v : Value, v.Plain → Base.Reads Value.text id Value.Plain stopsNumber v := by
  intro v
  induction v using Value.induction with
  | null =>
    intro hv w r r' hw _ _ h
    obtain rfl : w = .null := kind_shape (text_kind hv hw h).symm
    exact ⟨rfl, List.append_cancel_left h⟩
  | boolean b =>
    intro hv w r r' hw _ _ h
    have hk := (text_kind hv hw h).symm
    cases b with
    | true =>
      obtain rfl : w = .boolean true := kind_shape hk
      exact ⟨rfl, List.append_cancel_left h⟩
    | false =>
      obtain rfl : w = .boolean false := kind_shape hk
      exact ⟨rfl, List.append_cancel_left h⟩
  | number n =>
    intro hv w r r' hw hr hr' h
    obtain ⟨m, rfl⟩ : ∃ m, w = .number m := kind_shape (text_kind hv hw h).symm
    obtain ⟨rfl, hrest⟩ := intDigits_reads hr hr' h
    exact ⟨rfl, hrest⟩
  | string s =>
    intro hv w r r' hw _ _ h
    obtain ⟨t, rfl⟩ : ∃ t, w = .string t := kind_shape (text_kind hv hw h).symm
    obtain ⟨rfl, hrest⟩ := quoted_reads h
    exact ⟨rfl, hrest⟩
  | array es ih =>
    intro hv w r r' hw _ _ h
    obtain ⟨fs, rfl⟩ : ∃ fs, w = .array fs := kind_shape (text_kind hv hw h).symm
    simp only [Value.Plain, plainElements_iff] at hv hw
    obtain ⟨rfl, hrest⟩ := array_reads (fun e he => ih e he (hv e he)) hv hw h
    exact ⟨rfl, hrest⟩
  | object ms ih =>
    intro hv w r r' hw _ _ h
    obtain ⟨ns, rfl⟩ : ∃ ns, w = .object ns := kind_shape (text_kind hv hw h).symm
    simp only [Value.Plain, plainMembers_iff] at hv hw
    obtain ⟨rfl, hrest⟩ := object_reads (fun m hm => ih m hm (hv m hm)) hv hw h
    exact ⟨rfl, hrest⟩
  | float bits => exact fun hv => absurd hv (by simp [Value.Plain])
  | binary bytes => exact fun hv => absurd hv (by simp [Value.Plain])
  | discarded => exact fun hv => absurd hv (by simp [Value.Plain])

theorem text_injective {v w : Value} (hv : v.Plain) (hw : w.Plain) (h : v.text = w.text) :
    v = w := by
  have hnil : stopsNumber [] := by intro b hb; cases hb
  exact (text_reads v hv w [] [] hw hnil hnil (by rw [h])).1

/-! ## The order of members -/

mutual

/-- A value with the members of each of its objects sorted by name. -/
def Value.reorder (le : Bytes → Bytes → Bool) : Value → Value
  | .array es => .array (reorderElements le es)
  | .object ms =>
    .object ((reorderMembers le ms).insertionSort fun a b => le a.1 b.1 = true)
  | v => v
termination_by structural v => v

def reorderElements (le : Bytes → Bytes → Bool) : List Value → List Value
  | [] => []
  | e :: es => e.reorder le :: reorderElements le es
termination_by structural es => es

def reorderMembers (le : Bytes → Bytes → Bool) : List (Bytes × Value) → List (Bytes × Value)
  | [] => []
  | (name, v) :: ms => (name, v.reorder le) :: reorderMembers le ms
termination_by structural ms => ms

end

/-- The order of `std::map`. -/
def byteLe (a b : Bytes) : Bool := decide (a ≤ b)

/-- A text and the value it stands for: the members of an object may stand in any order. -/
def Spells (text : Bytes) (v : Value) : Prop :=
  ∃ w : Value, w.Plain ∧ w.text = text ∧ w.reorder byteLe = v.reorder byteLe

theorem Spells.unique {text : Bytes} {v w : Value} (hv : Spells text v) (hw : Spells text w) :
    v.reorder byteLe = w.reorder byteLe := by
  obtain ⟨v', hp, rfl, he⟩ := hv
  obtain ⟨w', hp', ht, he'⟩ := hw
  obtain rfl := text_injective hp' hp ht
  rw [← he, he']

end Canonical
end Laswell
