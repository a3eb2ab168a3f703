import Laswell.Canonical.Text
import Laswell.Server.Mcp

/-!
# Laswell.Server.Compact

What can be written as JSON, and a writer that keeps what `JsonText.Documented` asks for: the compact
text of `Value.text`, behind a check that every name and string is UTF-8.

* `Spelled`: every name and string of a document is well formed.
* `compact_documented`: the writer, with any parser that gives such documents only.
-/

namespace Laswell
namespace Server

open Base Canonical Document

/-! ## What can be written -/

theorem WellFormed.append {s t : Bytes} (hs : WellFormed s) (ht : WellFormed t) :
    WellFormed (s ++ t) := by
  induction hs with
  | nil => exact ht
  | one h _ ih => exact .one h ih
  | two h h' h1 _ ih => exact .two h h' h1 ih
  | three h h2 _ ih => exact .three h h2 ih
  | four h h2 h3 _ ih => exact .four h h2 h3 ih

theorem wellFormed_of_ascii {s : Bytes} (h : ∀ b ∈ s, b < 0x80) : WellFormed s := by
  induction s with
  | nil => exact .nil
  | cons b s ih =>
    rw [List.forall_mem_cons] at h
    exact .one h.1 (ih h.2)

/-- Every name and every string of a document can be written. -/
def Spelled (j : Json) : Prop := ∀ s ∈ j.strings, WellFormed s

/-- The names and strings the server puts into a response are ASCII. -/
def plainWord (s : String) : Bool := (ascii s).all fun b => b < 0x80

theorem wellFormed_ascii {s : String} (h : plainWord s = true) : WellFormed (ascii s) :=
  wellFormed_of_ascii (by simpa [plainWord] using h)

@[simp] theorem spelled_string {s : Bytes} : Spelled (.string s) ↔ WellFormed s := by
  simp [Spelled, Json.strings]

@[simp] theorem spelled_null : Spelled .null := by simp [Spelled, Json.strings]

@[simp] theorem spelled_boolean (b : Bool) : Spelled (.boolean b) := by
  simp [Spelled, Json.strings]

@[simp] theorem spelled_numberInteger (n : Int64) : Spelled (.numberInteger n) := by
  simp [Spelled, Json.strings]

@[simp] theorem spelled_empty : Spelled (.object []) := by simp [Spelled, Json.strings]

@[simp] theorem spelled_array {es : List Json} : Spelled (.array es) ↔ ∀ e ∈ es, Spelled e := by
  simp only [Spelled, Json.strings, elementStrings_eq_flatMap, List.mem_flatMap]
  constructor
  · exact fun h e he s hs => h s ⟨e, he, hs⟩
  · rintro h s ⟨e, he, hs⟩
    exact h e he s hs

theorem spelled_members {ms : List (Bytes × Json)} :
    Spelled (.object ms) ↔ ∀ m ∈ ms, WellFormed m.1 ∧ Spelled m.2 := by
  simp only [Spelled, Json.strings, memberStrings_eq_flatMap, List.mem_flatMap, List.mem_cons]
  constructor
  · exact fun h m hm => ⟨h m.1 ⟨m, hm, .inl rfl⟩, fun s hs => h s ⟨m, hm, .inr hs⟩⟩
  · rintro h s ⟨m, hm, rfl | hs⟩
    · exact (h m hm).1
    · exact (h m hm).2 s hs

theorem spelled_objectOf_iff {ms : List (String × Json)} :
    Spelled (objectOf ms) ↔ ∀ m ∈ ms, WellFormed (ascii m.1) ∧ Spelled m.2 := by
  rw [objectOf, spelled_members]
  simp only [List.mem_insertionSort, List.mem_map]
  constructor
  · exact fun h m hm => h _ ⟨m, hm, rfl⟩
  · rintro h _ ⟨m, hm, rfl⟩
    exact h m hm

theorem spelled_objectOf {ms : List (String × Json)}
    (h : ∀ m ∈ ms, plainWord m.1 = true ∧ Spelled m.2) : Spelled (objectOf ms) :=
  spelled_objectOf_iff.mpr fun m hm => ⟨wellFormed_ascii (h m hm).1, (h m hm).2⟩

/-- What a document holds can be written when the document can. -/
theorem spelled_at {j : Json} (h : Spelled j) (key : String) : Spelled (at_ j key) := by
  unfold at_ member?
  cases hm : (members j).find? fun m => m.1 == ascii key with
  | none => exact spelled_null
  | some m =>
    cases j with
    | object ms => exact (spelled_members.mp h m (List.mem_of_find?_eq_some hm)).2
    | _ => simp [members] at hm

theorem spelled_text {j : Json} (h : Spelled j) : WellFormed (text j) := by
  cases j with
  | string s => exact spelled_string.mp h
  | _ => exact .nil

theorem spelled_supported (p : Protocol) : WellFormed p.1 :=
  wellFormed_of_ascii (by
    have hall : (supportedProtocols.all fun p => p.all fun b => b < 0x80) = true := by decide
    simpa using List.all_eq_true.mp hall p.1 p.2)

/-! ## The writer -/

/-- UTF-8 on one line. -/
def Printable (s : Bytes) : Prop := WellFormed s ∧ 0x0A ∉ s

namespace Printable

variable {s t : Bytes}

theorem append (hs : Printable s) (ht : Printable t) : Printable (s ++ t) :=
  ⟨WellFormed.append hs.1 ht.1, by simp [hs.2, ht.2]⟩

theorem ascii (h : ∀ b ∈ s, b < 0x80 ∧ b ≠ 0x0A) : Printable s :=
  ⟨wellFormed_of_ascii fun b hb => (h b hb).1, fun hm => (h _ hm).2 rfl⟩

theorem cons {b : UInt8} (hb : b < 0x80 ∧ b ≠ 0x0A) (hs : Printable s) : Printable (b :: s) :=
  append (s := [b]) (ascii (by simpa using hb)) hs

/-- Bytes above ASCII are no line end. -/
theorem high (h : WellFormed s) (hs : ∀ b ∈ s, (0x80 : UInt8) ≤ b) : Printable s :=
  ⟨h, fun hm => absurd (hs _ hm) (by decide)⟩

theorem sepList {sep close : UInt8} (hsep : sep < 0x80 ∧ sep ≠ 0x0A)
    (hclose : close < 0x80 ∧ close ≠ 0x0A) {texts : List Bytes} (h : ∀ t ∈ texts, Printable t) :
    Printable (Base.sepList id sep close texts) := by
  have htail : ∀ texts : List Bytes, (∀ t ∈ texts, Printable t) →
      Printable (Base.sepTail id sep close texts) := by
    intro texts
    induction texts with
    | nil => exact fun _ => ascii (by simpa [Base.sepTail] using hclose)
    | cons t texts ih =>
      intro h
      obtain ⟨ht, hts⟩ := List.forall_mem_cons.mp h
      exact (ht.append (ih hts)).cons hsep
  cases texts with
  | nil => exact ascii (by simpa [Base.sepList] using hclose)
  | cons t texts =>
    obtain ⟨ht, hts⟩ := List.forall_mem_cons.mp h
    exact ht.append (htail texts hts)

end Printable

theorem escapeByte_low :
    ∀ b : UInt8, b < 0x80 → (escapeByte b).all (fun c => c < 0x80 && c != 0x0A) = true :=
  forall_byte (by decide +kernel)

theorem printable_escapeBytes {s : Bytes} (h : WellFormed s) : Printable (escapeBytes s) := by
  have htail : ∀ b, isTail b = true → (0x80 : UInt8) ≤ b := by
    intro b hb
    simp only [isTail, Bool.and_eq_true, decide_eq_true_eq] at hb
    exact hb.1
  have hhigh : ∀ bs : Bytes, (∀ b ∈ bs, (0x80 : UInt8) ≤ b) → escapeBytes bs = bs := by
    intro bs
    induction bs with
    | nil => exact fun _ => rfl
    | cons b bs ih =>
      intro h
      obtain ⟨hb, hbs⟩ := List.forall_mem_cons.mp h
      rw [escapeBytes, List.flatMap_cons, escapeByte_high b hb, ← escapeBytes, ih hbs]
      rfl
  have hraw : ∀ bs s : Bytes, WellFormed bs → (∀ b ∈ bs, (0x80 : UInt8) ≤ b) →
      Printable (escapeBytes s) → Printable (escapeBytes (bs ++ s)) := by
    intro bs s hbs hb hs
    rw [escapeBytes, List.flatMap_append, ← escapeBytes, ← escapeBytes, hhigh bs hb]
    exact (Printable.high hbs hb).append hs
  induction h with
  | nil => exact ⟨.nil, by simp [escapeBytes]⟩
  | @one b s hb _ ih =>
    rw [escapeBytes, List.flatMap_cons, ← escapeBytes]
    refine Printable.append (.ascii ?_) ih
    simpa using escapeByte_low b hb
  | @two b0 b1 s h h' h1 _ ih =>
    refine hraw [b0, b1] s (.two h h' h1 .nil) ?_ ih
    simp only [List.forall_mem_cons, List.not_mem_nil, false_implies, implies_true, and_true]
    exact ⟨byte_le_trans (by decide) h, htail b1 h1⟩
  | @three b0 b1 b2 s h h2 _ ih =>
    refine hraw [b0, b1, b2] s (.three h h2 .nil) ?_ ih
    simp only [List.forall_mem_cons, List.not_mem_nil, false_implies, implies_true, and_true]
    exact ⟨byte_le_trans (by decide) (lead3_cases h).1, (lead3_cases h).2.2.1, htail b2 h2⟩
  | @four b0 b1 b2 b3 s h h2 h3 _ ih =>
    refine hraw [b0, b1, b2, b3] s (.four h h2 h3 .nil) ?_ ih
    simp only [List.forall_mem_cons, List.not_mem_nil, false_implies, implies_true, and_true]
    exact ⟨byte_le_trans (by decide) (lead4_cases h).1, (lead4_cases h).2.2.1, htail b2 h2,
      htail b3 h3⟩

theorem printable_quoted {s : Bytes} (h : WellFormed s) : Printable (quoted s) :=
  ((printable_escapeBytes h).append (.ascii (by decide +kernel))).cons (by decide)

theorem printable_intDigits (n : Int) : Printable (intDigits n) := by
  have hnat : ∀ k : Nat, ∀ b ∈ natDigits k, b ≠ 0x0A := by
    rintro k b hb rfl
    exact absurd (natDigits_isDigit _ hb) (by decide)
  refine .ascii fun b hb => ⟨intDigits_ascii n b hb, ?_⟩
  unfold intDigits at hb
  split at hb
  · rcases List.mem_cons.mp hb with rfl | hb
    · decide
    · exact hnat _ b hb
  · exact hnat _ b hb

/-- The compact text of a document that can be written. -/
theorem printable_text (j : Json) : Spelled j → Printable j.value.text := by
  induction j using Json.induction with
  | null => exact fun _ => .ascii (by decide +kernel)
  | boolean b => cases b <;> exact fun _ => .ascii (by decide +kernel)
  | numberInteger n => exact fun _ => printable_intDigits _
  | numberUnsigned n => exact fun _ => printable_intDigits _
  | numberFloat bits => exact fun _ => .ascii (by simp [Json.value, Value.text])
  | string s => exact fun h => printable_quoted (spelled_string.mp h)
  | array es ih =>
    intro h
    simp only [Json.value, Value.text, elementValues_eq_map, elementTexts_eq_map, List.map_map]
    refine (Printable.sepList (by decide) (by decide) fun t ht => ?_).cons (by decide)
    obtain ⟨e, he, rfl⟩ := List.mem_map.mp ht
    exact ih e he (spelled_array.mp h e he)
  | object ms ih =>
    intro h
    simp only [Json.value, Value.text, memberValues_eq_map, memberTexts_eq_map, List.map_map]
    refine (Printable.sepList (by decide) (by decide) fun t ht => ?_).cons (by decide)
    obtain ⟨m, hm, rfl⟩ := List.mem_map.mp ht
    obtain ⟨hname, hvalue⟩ := spelled_members.mp h m hm
    exact (printable_quoted hname).append ((ih m hm hvalue).cons (by decide))
  | binary bytes => exact fun _ => .ascii (by simp [Json.value, Value.text])
  | discarded => exact fun _ => .ascii (by simp [Json.value, Value.text])

def invalidUtf8 : Bytes := ascii "[json.exception.type_error.316] invalid UTF-8 byte"

def notAnObject : Bytes := ascii "[json.exception.type_error.306] cannot use value()"

/-- The library, with this parser: documents are written compactly, floats aside. -/
def compact (parse : Bytes → Parsed) : JsonText where
  parse := parse
  dump j := if j.strings.all utf8 then .ok j.value.text else .error invalidUtf8
  valueWhat _ := notAnObject

theorem compact_documented {parse : Bytes → Parsed}
    (h : ∀ line j, parse line = .document j → Spelled j)
    (hwhat : ∀ line what, parse line = .exception what → WellFormed what) :
    (compact parse).Documented := by
  have hall : ∀ j : Json, j.strings.all utf8 = true ↔ Spelled j := by
    intro j
    simp only [List.all_eq_true, utf8_iff]
    rfl
  refine ⟨h, hwhat, fun j => ?_, fun j t ht => ?_, fun j what hw => ?_, fun j => ?_⟩
  · simp only [compact, hall]
    split <;> simp_all [Spelled]
  · simp only [compact, hall] at ht
    split at ht
    · next hj =>
      cases ht
      exact printable_text j ((hall j).mp hj)
    · cases ht
  · simp only [compact, hall] at hw
    split at hw
    · cases hw
    · cases hw
      exact wellFormed_ascii (by decide)
  · exact wellFormed_ascii (by decide)

end Server
end Laswell
