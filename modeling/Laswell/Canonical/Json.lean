import Mathlib.Data.List.Sort
import Laswell.Canonical.Utf8

/-!
# Laswell.Canonical.Json

The canonical form of a JSON document. `Json` follows the kinds of `nlohmann::json`, the two
integer kinds apart: a number written without a sign is parsed as a 64-bit unsigned one, a
negative one as signed. An object holds its members as `std::map` does, in the byte order of their
names.

`Value` is what a document means: integers are integers, whatever kind they were parsed as.
`canonicalizeInto_text` says which value the canonical bytes spell: the document's own, with every
integer taken through the cast to a signed 64-bit one (`wrap`).
-/

namespace Laswell
namespace Canonical

inductive Json where
  | null
  | boolean (b : Bool)
  | numberInteger (n : Int64)
  | numberUnsigned (n : UInt64)
  | numberFloat (bits : UInt64)
  | string (s : Bytes)
  | array (elements : List Json)
  | object (members : List (Bytes × Json))
  | binary (bytes : Bytes)
  | discarded

/-- `std::to_string` of a count. -/
def natDigits (n : Nat) : Bytes := (Nat.toDigits 10 n).map fun c => c.toNat.toUInt8

/-- `std::to_string` of a signed integer. -/
def intDigits (n : Int) : Bytes :=
  if n < 0 then 0x2D :: natDigits n.natAbs else natDigits n.natAbs

/-- The names of an object in canonical order. `std::sort` compares nothing in an object of one
member, so its name is not decoded here. -/
def checkNames (names : List Bytes) : Except CanonError Unit :=
  if names.length < 2 then .ok ()
  else names.forM fun name => (utf16Units name).map fun _ => ()

/-- The order of the canonical form: `b` does not come before `a`. -/
def canonicalLe (a b : Bytes) : Bool := !utf16Less b a

def sortMembers {α : Type} (members : List (Bytes × α)) : List (Bytes × α) :=
  members.insertionSort fun a b => canonicalLe a.1 b.1 = true

/-- The integer branch: `n` is the value after its cast to a signed 64-bit integer. -/
def canonicalizeInteger (n : Int64) (pointer : Bytes) : Except CanonError Bytes :=
  if 9007199254740991 < n.toInt ∨ n.toInt < -9007199254740991 then
    .error (.integerOutOfRange pointer)
  else .ok (intDigits n.toInt)

/-- One member: its escaped name, a colon, its value's text. -/
def memberText (m : Bytes × Except CanonError Bytes) : Except CanonError Bytes := do
  let name ← escapeInto m.1
  let text ← m.2
  return name ++ 0x3A :: text

mutual

/-- What `canonicalize_into` appends to `out`. -/
def canonicalizeInto : Json → Bytes → Except CanonError Bytes
  | .null, _ => .ok (ascii "null")
  | .boolean b, _ => .ok (if b then ascii "true" else ascii "false")
  | .numberFloat _, pointer => .error (.floatNotAllowed pointer)
  | .numberInteger n, pointer => canonicalizeInteger n pointer
  | .numberUnsigned n, pointer => canonicalizeInteger n.toInt64 pointer
  | .string s, _ => escapeInto s
  | .array es, pointer => do
    let texts ← canonicalizeElements es 0 pointer
    return 0x5B :: Base.sepList id 0x2C 0x5D texts
  | .object ms, pointer => do
    checkNames (ms.map Prod.fst)
    let texts ← (sortMembers (canonicalizeMembers ms pointer)).mapM memberText
    return 0x7B :: Base.sepList id 0x2C 0x7D texts
  | .binary _, pointer => .error (.unrepresentable pointer)
  | .discarded, pointer => .error (.unrepresentable pointer)
termination_by structural j => j

def canonicalizeElements : List Json → Nat → Bytes → Except CanonError (List Bytes)
  | [], _, _ => .ok []
  | e :: es, i, pointer => do
    let text ← canonicalizeInto e (pointer ++ 0x2F :: natDigits i)
    let texts ← canonicalizeElements es (i + 1) pointer
    return text :: texts
termination_by structural es => es

/-- Every member with its value's text, to be taken in the order of the sorted names. -/
def canonicalizeMembers : List (Bytes × Json) → Bytes → List (Bytes × Except CanonError Bytes)
  | [], _ => []
  | (name, v) :: ms, pointer =>
    (name, canonicalizeInto v (pointer ++ 0x2F :: name)) :: canonicalizeMembers ms pointer
termination_by structural ms => ms

end

/-- RFC 8785 canonical form. -/
def canonicalize (v : Json) : Except CanonError Bytes := canonicalizeInto v []

/-! ## Values -/

inductive Value where
  | null
  | boolean (b : Bool)
  | number (n : Int)
  | float (bits : UInt64)
  | string (s : Bytes)
  | array (elements : List Value)
  | object (members : List (Bytes × Value))
  | binary (bytes : Bytes)
  | discarded

mutual

def Json.value : Json → Value
  | .null => .null
  | .boolean b => .boolean b
  | .numberInteger n => .number n.toInt
  | .numberUnsigned n => .number n.toNat
  | .numberFloat bits => .float bits
  | .string s => .string s
  | .array es => .array (elementValues es)
  | .object ms => .object (memberValues ms)
  | .binary bytes => .binary bytes
  | .discarded => .discarded
termination_by structural j => j

def elementValues : List Json → List Value
  | [] => []
  | e :: es => e.value :: elementValues es
termination_by structural es => es

def memberValues : List (Bytes × Json) → List (Bytes × Value)
  | [] => []
  | (name, v) :: ms => (name, v.value) :: memberValues ms
termination_by structural ms => ms

end

mutual

/-- A value with `f` applied to each of its integers. -/
def Value.mapIntegers (f : Int → Int) : Value → Value
  | .number n => .number (f n)
  | .array es => .array (mapElements f es)
  | .object ms => .object (mapMembers f ms)
  | v => v
termination_by structural v => v

def mapElements (f : Int → Int) : List Value → List Value
  | [] => []
  | e :: es => e.mapIntegers f :: mapElements f es
termination_by structural es => es

def mapMembers (f : Int → Int) : List (Bytes × Value) → List (Bytes × Value)
  | [] => []
  | (name, v) :: ms => (name, v.mapIntegers f) :: mapMembers f ms
termination_by structural ms => ms

end

mutual

/-- Every integer of a value, in the order of the text. -/
def Value.integers : Value → List Int
  | .number n => [n]
  | .array es => elementIntegers es
  | .object ms => memberIntegers ms
  | _ => []
termination_by structural v => v

def elementIntegers : List Value → List Int
  | [] => []
  | e :: es => e.integers ++ elementIntegers es
termination_by structural es => es

def memberIntegers : List (Bytes × Value) → List Int
  | [] => []
  | (_, v) :: ms => v.integers ++ memberIntegers ms
termination_by structural ms => ms

end

/-- An integer taken to 64 bits and read back as a signed one: `static_cast<std::int64_t>`. -/
def wrap (n : Int) : Int := n.bmod (2 ^ 64)

/-! ## Induction over documents and values -/

/-- An array or an object has the property when everything it holds does. -/
@[elab_as_elim]
theorem Json.induction {P : Json → Prop} (null : P .null) (boolean : ∀ b, P (.boolean b))
    (numberInteger : ∀ n, P (.numberInteger n)) (numberUnsigned : ∀ n, P (.numberUnsigned n))
    (numberFloat : ∀ bits, P (.numberFloat bits)) (string : ∀ s, P (.string s))
    (array : ∀ es, (∀ e ∈ es, P e) → P (.array es))
    (object : ∀ ms : List (Bytes × Json), (∀ m ∈ ms, P m.2) → P (.object ms))
    (binary : ∀ bytes, P (.binary bytes)) (discarded : P .discarded) (v : Json) : P v := by
  refine @Json.rec P (fun es => ∀ e ∈ es, P e) (fun ms => ∀ m ∈ ms, P m.2) (fun m => P m.2)
    null boolean numberInteger numberUnsigned numberFloat string array object binary discarded
    ?_ ?_ ?_ ?_ ?_ v
  · simp
  · intro e es he hes
    simpa only [List.forall_mem_cons] using ⟨he, hes⟩
  · simp
  · intro m ms hm hms
    simpa only [List.forall_mem_cons] using ⟨hm, hms⟩
  · intro name v hv
    exact hv

@[elab_as_elim]
theorem Value.induction {P : Value → Prop} (null : P .null) (boolean : ∀ b, P (.boolean b))
    (number : ∀ n, P (.number n)) (float : ∀ bits, P (.float bits)) (string : ∀ s, P (.string s))
    (array : ∀ es, (∀ e ∈ es, P e) → P (.array es))
    (object : ∀ ms : List (Bytes × Value), (∀ m ∈ ms, P m.2) → P (.object ms))
    (binary : ∀ bytes, P (.binary bytes)) (discarded : P .discarded) (v : Value) : P v := by
  refine @Value.rec P (fun es => ∀ e ∈ es, P e) (fun ms => ∀ m ∈ ms, P m.2) (fun m => P m.2)
    null boolean number float string array object binary discarded ?_ ?_ ?_ ?_ ?_ v
  · simp
  · intro e es he hes
    simpa only [List.forall_mem_cons] using ⟨he, hes⟩
  · simp
  · intro m ms hm hms
    simpa only [List.forall_mem_cons] using ⟨hm, hms⟩
  · intro name v hv
    exact hv

@[simp] theorem elementValues_eq_map : ∀ es, elementValues es = es.map Json.value := by
  intro es
  induction es with
  | nil => rfl
  | cons e es ih => simp [elementValues, ih]

@[simp] theorem memberValues_eq_map :
    ∀ ms, memberValues ms = ms.map fun m => (m.1, m.2.value) := by
  intro ms
  induction ms with
  | nil => rfl
  | cons m ms ih => simp [memberValues, ih]

@[simp] theorem mapElements_eq_map (f : Int → Int) :
    ∀ es, mapElements f es = es.map (Value.mapIntegers f) := by
  intro es
  induction es with
  | nil => rfl
  | cons e es ih => simp [mapElements, ih]

@[simp] theorem mapMembers_eq_map (f : Int → Int) :
    ∀ ms, mapMembers f ms = ms.map fun m => (m.1, m.2.mapIntegers f) := by
  intro ms
  induction ms with
  | nil => rfl
  | cons m ms ih => simp [mapMembers, ih]

@[simp] theorem elementIntegers_eq_flatMap :
    ∀ es, elementIntegers es = es.flatMap Value.integers := by
  intro es
  induction es with
  | nil => rfl
  | cons e es ih => simp [elementIntegers, ih]

@[simp] theorem memberIntegers_eq_flatMap :
    ∀ ms, memberIntegers ms = ms.flatMap fun m => m.2.integers := by
  intro ms
  induction ms with
  | nil => rfl
  | cons m ms ih => simp [memberIntegers, ih]

theorem map_eq_self {α : Type} {f : α → α} {l : List α} : l.map f = l ↔ ∀ a ∈ l, f a = a := by
  conv_lhs => rhs; rw [← List.map_id l]
  exact List.map_inj_left

/-- A value is unchanged exactly when each of its integers is. -/
theorem mapIntegers_eq_self (f : Int → Int) :
    ∀ v : Value, v.mapIntegers f = v ↔ ∀ n ∈ v.integers, f n = n := by
  intro v
  induction v using Value.induction with
  | null => simp [Value.mapIntegers, Value.integers]
  | boolean b => simp [Value.mapIntegers, Value.integers]
  | number n => simp [Value.mapIntegers, Value.integers]
  | float bits => simp [Value.mapIntegers, Value.integers]
  | string s => simp [Value.mapIntegers, Value.integers]
  | binary bytes => simp [Value.mapIntegers, Value.integers]
  | discarded => simp [Value.mapIntegers, Value.integers]
  | array es ih =>
    simp only [Value.mapIntegers, Value.integers, mapElements_eq_map, elementIntegers_eq_flatMap,
      Value.array.injEq, List.mem_flatMap, map_eq_self]
    constructor
    · rintro h n ⟨e, he, hn⟩
      exact (ih e he).mp (h e he) n hn
    · intro h e he
      exact (ih e he).mpr fun n hn => h n ⟨e, he, hn⟩
  | object ms ih =>
    simp only [Value.mapIntegers, Value.integers, mapMembers_eq_map, memberIntegers_eq_flatMap,
      Value.object.injEq, List.mem_flatMap, map_eq_self]
    constructor
    · rintro h n ⟨m, hm, hn⟩
      exact (ih m hm).mp (congrArg Prod.snd (h m hm)) n hn
    · intro h m hm
      exact Prod.ext rfl ((ih m hm).mpr fun n hn => h n ⟨m, hm, hn⟩)

end Canonical
end Laswell
