import Mathlib.Data.List.Sort
import Laswell.Canonical.Reader

/-!
# Laswell.Canonical.Injective

Which documents share their canonical bytes.

* `canonicalizeInto_text`: the bytes are the text of the document's value, each integer wrapped to
  a signed 64-bit one, the members in canonical order.
* `canonicalize_wrapped`: so two documents share their bytes exactly when their values agree up to
  that wrapping.
* `canonicalize_faithful_iff`: when that is harmless.
-/

namespace Laswell
namespace Canonical

/-! ## What the parser builds -/

mutual

/-- Strings are UTF-8, and an object's members stand in the order of their names, each name
once. -/
def Value.Parsed : Value → Prop
  | .string s => WellFormed s
  | .array es => ParsedElements es
  | .object ms => (ms.map Prod.fst).Pairwise (· < ·) ∧ ParsedMembers ms
  | _ => True
termination_by structural v => v

def ParsedElements : List Value → Prop
  | [] => True
  | e :: es => e.Parsed ∧ ParsedElements es
termination_by structural es => es

def ParsedMembers : List (Bytes × Value) → Prop
  | [] => True
  | (name, v) :: ms => (WellFormed name ∧ v.Parsed) ∧ ParsedMembers ms
termination_by structural ms => ms

end

theorem parsedElements_iff : ∀ es, ParsedElements es ↔ ∀ e ∈ es, e.Parsed := by
  intro es
  induction es with
  | nil => simp [ParsedElements]
  | cons e es ih => simp [ParsedElements, ih]

theorem parsedMembers_iff :
    ∀ ms, ParsedMembers ms ↔ ∀ m ∈ ms, WellFormed m.1 ∧ m.2.Parsed := by
  intro ms
  induction ms with
  | nil => simp [ParsedMembers]
  | cons m ms ih => simp [ParsedMembers, ih]

@[simp] theorem parsed_array (es : List Value) :
    (Value.array es).Parsed ↔ ∀ e ∈ es, e.Parsed := by
  rw [Value.Parsed, parsedElements_iff]

@[simp] theorem parsed_object (ms : List (Bytes × Value)) :
    (Value.object ms).Parsed ↔
      (ms.map Prod.fst).Pairwise (· < ·) ∧ ∀ m ∈ ms, WellFormed m.1 ∧ m.2.Parsed := by
  rw [Value.Parsed, parsedMembers_iff]

theorem parsed_mapIntegers (f : Int → Int) :
    ∀ v : Value, v.Parsed → (v.mapIntegers f).Parsed := by
  intro v
  induction v using Value.induction with
  | array es ih =>
    intro hv
    rw [parsed_array] at hv
    simp only [Value.mapIntegers, mapElements_eq_map, parsed_array, List.forall_mem_map]
    exact fun e he => ih e he (hv e he)
  | object ms ih =>
    intro hv
    rw [parsed_object] at hv
    simp only [Value.mapIntegers, mapMembers_eq_map, parsed_object, List.forall_mem_map,
      List.map_map]
    exact ⟨hv.1, fun m hm => ⟨(hv.2 m hm).1, ih m hm (hv.2 m hm).2⟩⟩
  | string s => exact id
  | _ => intros; simp [Value.mapIntegers, Value.Parsed]

/-! ## Sorting and sorting back -/

@[simp] theorem reorderElements_eq_map (le : Bytes → Bytes → Bool) :
    ∀ es, reorderElements le es = es.map (Value.reorder le) := by
  intro es
  induction es with
  | nil => rfl
  | cons e es ih => simp [reorderElements, ih]

@[simp] theorem reorderMembers_eq_map (le : Bytes → Bytes → Bool) :
    ∀ ms, reorderMembers le ms = ms.map fun m => (m.1, m.2.reorder le) := by
  intro ms
  induction ms with
  | nil => rfl
  | cons m ms ih => simp [reorderMembers, ih]

theorem byteLe_total (α : Type) : Std.Total fun a b : Bytes × α => byteLe a.1 b.1 = true :=
  ⟨fun a b => by simpa [byteLe] using List.le_total a.1 b.1⟩

theorem byteLe_trans (α : Type) : IsTrans (Bytes × α) fun a b => byteLe a.1 b.1 = true :=
  ⟨fun a b c hab hbc => by
    simp only [byteLe, decide_eq_true_eq] at *
    exact List.le_trans hab hbc⟩

/-- Members that stood in strict order come back to it from any order. -/
theorem insertionSort_byteLe {α : Type} {ms ns : List (Bytes × α)} (h : ns.Perm ms)
    (hms : (ms.map Prod.fst).Pairwise (· < ·)) :
    (ns.insertionSort fun a b => byteLe a.1 b.1 = true) = ms := by
  have := byteLe_total α
  have := byteLe_trans α
  rw [List.pairwise_map] at hms
  have hperm := (List.perm_insertionSort (fun a b : Bytes × α => byteLe a.1 b.1 = true) ns).trans h
  refine @List.Perm.eq_of_pairwise _ (fun a b => byteLe a.1 b.1 = true) _ _ ?_
    (List.pairwise_insertionSort _ ns) ?_ hperm
  · intro a b ha hb hab hba
    simp only [byteLe, decide_eq_true_eq] at hab hba
    have hkey : a.1 = b.1 := List.le_antisymm hab hba
    -- two members of one name would be one below the other
    by_contra hne
    have := List.Pairwise.forall_of_forall_of_flip (R := fun x y => x.1 = y.1 → x = y)
      (l := ms) (fun _ _ _ => rfl)
      (hms.imp fun h he => absurd (he ▸ h) (List.lt_irrefl _))
      (hms.imp fun h he => absurd (he ▸ h) (List.lt_irrefl _))
    exact hne (this (hperm.mem_iff.mp ha) hb hkey)
  · exact hms.imp fun h => by simpa [byteLe] using List.le_of_lt h

theorem reorder_back (le : Bytes → Bytes → Bool) :
    ∀ v : Value, v.Parsed → (v.reorder le).reorder byteLe = v := by
  intro v
  induction v using Value.induction with
  | array es ih =>
    intro hv
    rw [parsed_array] at hv
    simp only [Value.reorder, reorderElements_eq_map, List.map_map, Value.array.injEq]
    exact map_eq_self.mpr fun e he => ih e he (hv e he)
  | object ms ih =>
    intro hv
    rw [parsed_object] at hv
    simp only [Value.reorder, reorderMembers_eq_map, Value.object.injEq]
    have hback : (ms.map fun m => (m.1, m.2.reorder le)).map
        (fun m => (m.1, m.2.reorder byteLe)) = ms := by
      rw [List.map_map]
      exact map_eq_self.mpr fun m hm => Prod.ext rfl (ih m hm (hv.2 m hm).2)
    refine insertionSort_byteLe ?_ hv.1
    conv_rhs => rw [← hback]
    exact (List.perm_insertionSort _ _).map _
  | _ => intros; simp [Value.reorder]

/-- Parsed values are their own sorted form. -/
theorem reorder_self {v : Value} (hv : v.Parsed) : v.reorder byteLe = v := by
  induction v using Value.induction with
  | array es ih =>
    rw [parsed_array] at hv
    simp only [Value.reorder, reorderElements_eq_map, Value.array.injEq]
    exact map_eq_self.mpr fun e he => ih e he (hv e he)
  | object ms ih =>
    rw [parsed_object] at hv
    simp only [Value.reorder, reorderMembers_eq_map, Value.object.injEq]
    have hself : (ms.map fun m => (m.1, m.2.reorder byteLe)) = ms :=
      map_eq_self.mpr fun m hm => Prod.ext rfl (ih m hm (hv.2 m hm).2)
    rw [hself]
    exact insertionSort_byteLe (List.Perm.refl _) hv.1
  | _ => simp [Value.reorder]

theorem plain_reorder (le : Bytes → Bytes → Bool) :
    ∀ v : Value, v.Plain → (v.reorder le).Plain := by
  intro v
  induction v using Value.induction with
  | array es ih =>
    intro hv
    simp only [Value.Plain, plainElements_iff] at hv
    simp only [Value.reorder, Value.Plain, plainElements_iff, reorderElements_eq_map,
      List.forall_mem_map]
    exact fun e he => ih e he (hv e he)
  | object ms ih =>
    intro hv
    simp only [Value.Plain, plainMembers_iff] at hv
    simp only [Value.reorder, Value.Plain, plainMembers_iff, reorderMembers_eq_map]
    intro m hm
    rw [List.mem_insertionSort, List.mem_map] at hm
    obtain ⟨n, hn, rfl⟩ := hm
    exact ih n hn (hv n hn)
  | _ => intro hv; simpa [Value.reorder] using hv

/-! ## What the bytes spell -/

/-- The value the canonical bytes are the text of. -/
def Json.read (v : Json) : Value := v.value.mapIntegers wrap

/-- The largest integer a double represents with all integers below it. -/
def maxSafe : Int := 9007199254740991

def Safe (n : Int) : Prop := -maxSafe ≤ n ∧ n ≤ maxSafe

/-- What a canonicalised document is known to be. -/
structure Canonicalised (v : Json) (s : Bytes) : Prop where
  plain : v.read.Plain
  text : (v.read.reorder canonicalLe).text = s
  range : ∀ n ∈ v.value.integers, Safe (wrap n)

theorem wrap_signed (n : Int64) : wrap n.toInt = n.toInt := by
  have := n.le_toInt
  have := n.toInt_lt
  exact Int.bmod_eq_of_le (by omega) (by omega)

theorem wrap_unsigned (n : UInt64) : wrap n.toNat = n.toInt64.toInt :=
  (BitVec.toInt_eq_toNat_bmod n.toBitVec).symm

theorem canonicalizeInteger_ok {n : Int64} {pointer s : Bytes}
    (h : canonicalizeInteger n pointer = .ok s) : Safe n.toInt ∧ intDigits n.toInt = s := by
  unfold canonicalizeInteger at h
  split at h
  · cases h
  · rename_i hr
    refine ⟨?_, Except.ok.inj h⟩
    simp only [Safe, maxSafe]
    omega

theorem mapM_ok {α β ε : Type} {f : α → Except ε β} {g : α → β} :
    ∀ {xs : List α} {ys : List β}, xs.mapM f = .ok ys →
      (∀ x ∈ xs, ∀ y, f x = .ok y → y = g x) → ys = xs.map g ∧ ∀ x ∈ xs, ∃ y, f x = .ok y := by
  intro xs
  induction xs with
  | nil =>
    intro ys h _
    cases h
    exact ⟨rfl, by simp⟩
  | cons x xs ih =>
    intro ys h hg
    rw [List.mapM_cons] at h
    cases hx : f x with
    | error e => rw [hx] at h; cases h
    | ok y =>
      rw [hx] at h
      cases hxs : xs.mapM f with
      | error e => rw [hxs] at h; cases h
      | ok zs =>
        rw [hxs] at h
        cases h
        obtain ⟨hzs, hall⟩ := ih hxs fun z hz => hg z (by simp [hz])
        refine ⟨by rw [List.map_cons, hzs, hg x (by simp) y hx], ?_⟩
        simp only [List.forall_mem_cons]
        exact ⟨⟨y, hx⟩, hall⟩

theorem canonicalizeMembers_eq_map (pointer : Bytes) : ∀ ms, canonicalizeMembers ms pointer =
    ms.map fun m => (m.1, canonicalizeInto m.2 (pointer ++ 0x2F :: m.1)) := by
  intro ms
  induction ms with
  | nil => rfl
  | cons m ms ih => simp [canonicalizeMembers, ih]

/-- Sorting by name commutes with anything done to the values. -/
theorem sortMembers_map {α β : Type} (f : Bytes × α → β) (ms : List (Bytes × α)) :
    sortMembers (ms.map fun m => (m.1, f m)) = (sortMembers ms).map fun m => (m.1, f m) := by
  exact (List.map_insertionSort (fun a b : Bytes × α => canonicalLe a.1 b.1 = true)
    (fun a b : Bytes × β => canonicalLe a.1 b.1 = true) (fun m => (m.1, f m)) ms
    fun a _ b _ => Iff.rfl).symm

theorem memberText_ok {name s : Bytes} {r : Except CanonError Bytes} (hn : WellFormed name)
    (h : memberText (name, r) = .ok s) : ∃ text, r = .ok text ∧ s = memberOf name text := by
  simp only [memberText, escapeInto_wellFormed hn] at h
  cases r with
  | error e => cases h
  | ok text =>
    cases h
    exact ⟨text, rfl, rfl⟩

theorem bind_ok {α β ε : Type} {x : Except ε α} {f : α → Except ε β} {b : β}
    (h : x >>= f = .ok b) : ∃ a, x = .ok a ∧ f a = .ok b := by
  cases x with
  | error e => cases h
  | ok a => exact ⟨a, rfl, h⟩

theorem canonicalizeElements_ok {es : List Json} :
    (∀ e ∈ es, ∀ pointer s, canonicalizeInto e pointer = .ok s → Canonicalised e s) →
    ∀ {i : Nat} {pointer : Bytes} {texts : List Bytes},
      canonicalizeElements es i pointer = .ok texts →
      texts = es.map (fun e => (e.read.reorder canonicalLe).text) ∧
        ∀ e ∈ es, ∃ s, Canonicalised e s := by
  induction es with
  | nil =>
    intro _ i pointer texts h
    cases h
    exact ⟨rfl, by simp⟩
  | cons e es ih =>
    intro hes i pointer texts h
    rw [canonicalizeElements] at h
    cases he : canonicalizeInto e (pointer ++ 0x2F :: natDigits i) with
    | error err => rw [he] at h; cases h
    | ok s =>
      rw [he] at h
      cases hrest : canonicalizeElements es (i + 1) pointer with
      | error err => simp only [hrest] at h; cases h
      | ok rest =>
        simp only [hrest] at h
        cases h
        have hc := hes e (by simp) _ _ he
        obtain ⟨hr, hall⟩ := ih (fun f hf => hes f (by simp [hf])) hrest
        refine ⟨by rw [List.map_cons, hr, hc.text], ?_⟩
        simp only [List.forall_mem_cons]
        exact ⟨⟨s, hc⟩, hall⟩

theorem object_read_reorder (ms : List (Bytes × Json)) :
    (Json.object ms).read.reorder canonicalLe =
      .object ((sortMembers ms).map fun m => (m.1, m.2.read.reorder canonicalLe)) := by
  rw [← sortMembers_map fun m : Bytes × Json => m.2.read.reorder canonicalLe]
  simp only [Json.read, Json.value, memberValues_eq_map, Value.mapIntegers, mapMembers_eq_map,
    Value.reorder, reorderMembers_eq_map, List.map_map, sortMembers]
  rfl

theorem canonicalised_array {es : List Json} {pointer s : Bytes}
    (hes : ∀ e ∈ es, ∀ pointer s, canonicalizeInto e pointer = .ok s → Canonicalised e s)
    (h : canonicalizeInto (.array es) pointer = .ok s) : Canonicalised (.array es) s := by
  rw [canonicalizeInto] at h
  cases ht : canonicalizeElements es 0 pointer with
  | error e => rw [ht] at h; cases h
  | ok texts =>
    rw [ht] at h
    cases h
    obtain ⟨rfl, hall⟩ := canonicalizeElements_ok hes ht
    refine ⟨?_, ?_, ?_⟩
    · simp only [Json.read, Json.value, Value.mapIntegers, elementValues_eq_map,
        mapElements_eq_map, Value.Plain, plainElements_iff, List.forall_mem_map]
      exact fun e he => (hall e he).choose_spec.plain
    · simp [Json.read, Json.value, Value.mapIntegers, Value.reorder, Value.text,
        elementTexts_eq_map, Function.comp_def]
    · simp only [Json.value, Value.integers, elementValues_eq_map, elementIntegers_eq_flatMap,
        List.mem_flatMap, List.mem_map]
      rintro n ⟨_, ⟨e, he, rfl⟩, hn⟩
      exact (hall e he).choose_spec.range n hn

/-- The members are taken in canonical order, and each is canonicalised on its own. -/
theorem canonicalised_object {ms : List (Bytes × Json)} {pointer s : Bytes}
    (hnames : ∀ m ∈ ms, WellFormed m.1)
    (hms : ∀ m ∈ ms, ∀ pointer s, canonicalizeInto m.2 pointer = .ok s → Canonicalised m.2 s)
    (h : canonicalizeInto (.object ms) pointer = .ok s) : Canonicalised (.object ms) s := by
  rw [canonicalizeInto, canonicalizeMembers_eq_map,
    sortMembers_map fun m => canonicalizeInto m.2 (pointer ++ 0x2F :: m.1)] at h
  obtain ⟨-, -, h⟩ := bind_ok h
  obtain ⟨texts, ht, h⟩ := bind_ok h
  cases h
  rw [List.mapM_map] at ht
  have hmem : ∀ m, m ∈ sortMembers ms ↔ m ∈ ms := fun m => List.mem_insertionSort _
  have hone : ∀ m ∈ sortMembers ms, ∀ text,
      memberText (m.1, canonicalizeInto m.2 (pointer ++ 0x2F :: m.1)) = .ok text →
      ∃ s, Canonicalised m.2 s ∧ text = memberOf m.1 s := by
    intro m hm text h
    have hm' := (hmem m).mp hm
    obtain ⟨s, hs, rfl⟩ := memberText_ok (hnames m hm') h
    exact ⟨s, hms m hm' _ _ hs, rfl⟩
  obtain ⟨rfl, hall⟩ := mapM_ok
    (g := fun m : Bytes × Json => memberOf m.1 (m.2.read.reorder canonicalLe).text) ht
    fun m hm text h => by
      obtain ⟨s, hs, rfl⟩ := hone m hm text h
      rw [hs.text]
  have hcanon : ∀ m ∈ ms, ∃ s, Canonicalised m.2 s := by
    intro m hm
    obtain ⟨text, h⟩ := hall m ((hmem m).mpr hm)
    obtain ⟨s, hs, -⟩ := hone m ((hmem m).mpr hm) text h
    exact ⟨s, hs⟩
  refine ⟨?_, ?_, ?_⟩
  · simp only [Json.read, Json.value, Value.mapIntegers, memberValues_eq_map,
      mapMembers_eq_map, Value.Plain, plainMembers_iff, List.forall_mem_map]
    exact fun m hm => (hcanon m hm).choose_spec.plain
  · rw [object_read_reorder, Value.text, memberTexts_eq_map, List.map_map]
    rfl
  · simp only [Json.value, Value.integers, memberValues_eq_map, memberIntegers_eq_flatMap,
      List.mem_flatMap, List.mem_map]
    rintro n ⟨_, ⟨m, hm, rfl⟩, hn⟩
    exact (hcanon m hm).choose_spec.range n hn

/-- The bytes `canonicalize_into` appends, by induction on the document. -/
theorem canonicalizeInto_text : ∀ v : Json, v.value.Parsed → ∀ pointer s,
    canonicalizeInto v pointer = .ok s → Canonicalised v s := by
  intro v
  induction v using Json.induction with
  | null =>
    intro _ pointer s h
    cases h
    exact ⟨trivial, rfl, by simp [Json.value, Value.integers]⟩
  | boolean b =>
    intro _ pointer s h
    cases h
    exact ⟨trivial, rfl, by simp [Json.value, Value.integers]⟩
  | numberInteger n =>
    intro _ pointer s h
    obtain ⟨hr, ht⟩ := canonicalizeInteger_ok h
    refine ⟨trivial, ?_, by simpa [Json.value, Value.integers, wrap_signed] using hr⟩
    simpa [Json.read, Json.value, Value.mapIntegers, Value.reorder, Value.text, wrap_signed]
      using ht
  | numberUnsigned n =>
    intro _ pointer s h
    obtain ⟨hr, ht⟩ := canonicalizeInteger_ok h
    refine ⟨trivial, ?_, by simpa [Json.value, Value.integers, wrap_unsigned] using hr⟩
    simpa [Json.read, Json.value, Value.mapIntegers, Value.reorder, Value.text, wrap_unsigned]
      using ht
  | numberFloat bits => intro _ pointer s h; cases h
  | binary bytes => intro _ pointer s h; cases h
  | discarded => intro _ pointer s h; cases h
  | string t =>
    intro hv pointer s h
    rw [canonicalizeInto, escapeInto_wellFormed hv] at h
    cases h
    exact ⟨trivial, rfl, by simp [Json.value, Value.integers]⟩
  | array es ih =>
    intro hv pointer s h
    simp only [Json.value, elementValues_eq_map, parsed_array, List.forall_mem_map] at hv
    exact canonicalised_array (fun e he => ih e he (hv e he)) h
  | object ms ih =>
    intro hv pointer s h
    simp only [Json.value, memberValues_eq_map, parsed_object, List.forall_mem_map,
      List.map_map] at hv
    exact canonicalised_object (fun m hm => (hv.2 m hm).1)
      (fun m hm => ih m hm (hv.2 m hm).2) h

theorem canonicalize_spells {a : Json} {s : Bytes} (ha : a.value.Parsed)
    (h : canonicalize a = .ok s) : Spells s a.read := by
  have hc := canonicalizeInto_text a ha [] s h
  have hr := parsed_mapIntegers wrap a.value ha
  refine ⟨a.read.reorder canonicalLe, plain_reorder _ _ hc.plain, hc.text, ?_⟩
  rw [Json.read, reorder_back canonicalLe _ hr, reorder_self hr]

/-- The bytes spell one value: the one they were written from. -/
theorem canonicalize_spells_iff {a : Json} {s : Bytes} {v : Value} (ha : a.value.Parsed)
    (h : canonicalize a = .ok s) (hv : v.Parsed) : Spells s v ↔ v = a.read := by
  have hr := parsed_mapIntegers wrap a.value ha
  constructor
  · intro hs
    have he := hs.unique (canonicalize_spells ha h)
    rwa [reorder_self hv, Json.read, reorder_self hr] at he
  · rintro rfl
    exact canonicalize_spells ha h

/-- Two documents share their bytes exactly when they read the same. -/
theorem canonicalize_wrapped {a b : Json} {s t : Bytes} (ha : a.value.Parsed)
    (hb : b.value.Parsed) (hs : canonicalize a = .ok s) (ht : canonicalize b = .ok t) :
    s = t ↔ a.read = b.read := by
  constructor
  · rintro rfl
    exact (canonicalize_spells_iff hb ht (parsed_mapIntegers wrap _ ha)).mp
      (canonicalize_spells ha hs)
  · intro h
    rw [← (canonicalizeInto_text a ha [] s hs).text, ← (canonicalizeInto_text b hb [] t ht).text,
      h]

/-! ## When the cast is harmless -/

/-- No unsigned integer so large that its cast is a negative one of the safe range. -/
def NoWrapped (a : Json) : Prop := ∀ n ∈ a.value.integers, n < 2 ^ 64 - maxSafe

instance (a : Json) : Decidable (NoWrapped a) :=
  inferInstanceAs (Decidable (∀ n ∈ a.value.integers, n < 2 ^ 64 - maxSafe))

theorem integers_bounds : ∀ a : Json, ∀ n ∈ a.value.integers, -2 ^ 63 ≤ n ∧ n < 2 ^ 64 := by
  intro a
  induction a using Json.induction with
  | numberInteger m =>
    intro n hn
    simp only [Json.value, Value.integers, List.mem_singleton] at hn
    have := m.le_toInt
    have := m.toInt_lt
    omega
  | numberUnsigned m =>
    intro n hn
    simp only [Json.value, Value.integers, List.mem_singleton] at hn
    have := m.toNat_lt
    omega
  | array es ih =>
    simp only [Json.value, Value.integers, elementValues_eq_map, elementIntegers_eq_flatMap,
      List.mem_flatMap, List.mem_map]
    rintro n ⟨_, ⟨e, he, rfl⟩, hn⟩
    exact ih e he n hn
  | object ms ih =>
    simp only [Json.value, Value.integers, memberValues_eq_map, memberIntegers_eq_flatMap,
      List.mem_flatMap, List.mem_map]
    rintro n ⟨_, ⟨m, hm, rfl⟩, hn⟩
    exact ih m hm n hn
  | _ => simp [Json.value, Value.integers]

theorem wrap_cases {n : Int} (hl : -2 ^ 63 ≤ n) (hu : n < 2 ^ 64) :
    (n < 2 ^ 63 ∧ wrap n = n) ∨ (2 ^ 63 ≤ n ∧ wrap n = n - 2 ^ 64) := by
  by_cases h : n < 2 ^ 63
  · exact .inl ⟨h, Int.bmod_eq_of_le (by omega) (by omega)⟩
  · refine .inr ⟨by omega, ?_⟩
    rw [wrap, ← Int.sub_bmod_right]
    exact Int.bmod_eq_of_le (by omega) (by omega)

theorem wrap_eq_self_iff {n : Int} (hl : -2 ^ 63 ≤ n) (hu : n < 2 ^ 64) (hs : Safe (wrap n)) :
    (wrap n = n ↔ n < 2 ^ 64 - maxSafe) ∧ (Safe n ↔ n < 2 ^ 64 - maxSafe) := by
  simp only [Safe, maxSafe] at *
  rcases wrap_cases hl hu with ⟨h, he⟩ | ⟨h, he⟩
  · rw [he] at hs ⊢
    omega
  · rw [he] at hs ⊢
    omega

/-- A pair of canonicalised documents is told apart by its bytes unless the documents differ and
become equal once their integers are cast. A single document is what its bytes spell, and has
safe integers only, exactly when no unsigned integer of it is one that wraps into the safe
range; then, and only then, it is also what a reader of JSON makes of its bytes. -/
theorem canonicalize_faithful_iff {a b : Json} {s t : Bytes} (ha : a.value.Parsed)
    (hb : b.value.Parsed) (hs : canonicalize a = .ok s) (ht : canonicalize b = .ok t) :
    ((s = t → a.value = b.value) ↔
      (a.value.mapIntegers wrap = b.value.mapIntegers wrap → a.value = b.value)) ∧
    (Spells s a.value ↔ NoWrapped a) ∧ (ReadsAs s a.value ↔ NoWrapped a) ∧
    ((∀ n ∈ a.value.integers, Safe n) ↔ NoWrapped a) := by
  have hc := canonicalizeInto_text a ha [] s hs
  have hint : ∀ n ∈ a.value.integers, (wrap n = n ↔ n < 2 ^ 64 - maxSafe) ∧
      (Safe n ↔ n < 2 ^ 64 - maxSafe) := by
    intro n hn
    obtain ⟨hl, hu⟩ := integers_bounds a n hn
    exact wrap_eq_self_iff hl hu (hc.range n hn)
  have hspells : Spells s a.value ↔ NoWrapped a := by
    rw [canonicalize_spells_iff ha hs ha, eq_comm, Json.read, mapIntegers_eq_self]
    exact forall₂_congr fun n hn => (hint n hn).1
  refine ⟨?_, hspells, (canonicalize_spells ha hs).readsAs_iff.trans hspells, ?_⟩
  · rw [canonicalize_wrapped ha hb hs ht]
    rfl
  · exact forall₂_congr fun n hn => (hint n hn).2

/-- Documents that a parser sees as different, one of them with an integer beyond the safe range,
and the bytes of both are `-1`. -/
theorem canonicalize_collides :
    ∃ a b : Json, a.value.Parsed ∧ b.value.Parsed ∧ canonicalize a = .ok (ascii "-1") ∧
      canonicalize b = .ok (ascii "-1") ∧ a.value ≠ b.value ∧
      ¬ ∀ n ∈ a.value.integers, Safe n := by
  refine ⟨.numberUnsigned 18446744073709551615, .numberInteger (-1), trivial, trivial,
    by decide, by decide, ?_, ?_⟩
  · simp only [Json.value, ne_eq, Value.number.injEq]
    decide
  · simp only [Json.value, Value.integers, List.mem_singleton, forall_eq, Safe, maxSafe]
    decide

theorem canonicalize_faithful_array :
    Spells (ascii "[1,-2]") (.array [.number 1, .number (-2)]) ∧
      ReadsAs (ascii "[1,-2]") (.array [.number 1, .number (-2)]) := by
  have hp : (Json.array [.numberUnsigned 1, .numberInteger (-2)]).value.Parsed := by
    simp [Json.value, Value.Parsed]
  have hs : canonicalize (.array [.numberUnsigned 1, .numberInteger (-2)]) =
      .ok (ascii "[1,-2]") := by decide
  obtain ⟨-, hspells, hreads, -⟩ := canonicalize_faithful_iff hp hp hs hs
  exact ⟨hspells.mpr (by decide), hreads.mpr (by decide)⟩

end Canonical
end Laswell
