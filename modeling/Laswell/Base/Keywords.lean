import Mathlib.Data.List.TakeWhile

/-!
# Laswell.Base.Keywords

Strings of the form `name=value name='a value'`: parameters between blanks, a value bare or in
quotes, and a character with a special meaning behind an escape.

* `Marks`: the characters with a meaning of their own.
* `param`, `params`: reading one parameter, and all of them.
* `spell`, `written`: writing them, with quotes where `needs` asks for them.
* `params_intercalate_iff`: what is written is read back exactly when nothing blank stands where the
  reader looks for an end.
-/

namespace Laswell
namespace Base

structure Marks (α : Type) where
  blank : α → Bool
  equals : α
  quote : α
  escape : α
  blank_equals : blank equals = false
  blank_quote : blank quote = false
  blank_escape : blank escape = false
  equals_ne_quote : equals ≠ quote
  equals_ne_escape : equals ≠ escape
  quote_ne_escape : quote ≠ escape

namespace Marks

variable {α : Type} [DecidableEq α] (m : Marks α)

/-! ## Reading -/

/-- A bare value, and what follows the blank that ends it. -/
def bare : List α → List α × List α
  | [] => ([], [])
  | c :: s =>
    if m.blank c then ([], s)
    else if c = m.escape then
      match s with
      | [] => ([], [])
      | d :: s => (d :: (bare s).1, (bare s).2)
    else (c :: (bare s).1, (bare s).2)

/-- A value up to its closing quote, and what follows. -/
def quoted : List α → Option (List α × List α)
  | [] => none
  | c :: s =>
    if c = m.escape then
      match s with
      | [] => none
      | d :: s => (quoted s).map fun r => (d :: r.1, r.2)
    else if c = m.quote then some ([], s)
    else (quoted s).map fun r => (c :: r.1, r.2)

def value : List α → Option (List α × List α)
  | [] => some ([], [])
  | c :: s => if c = m.quote then m.quoted s else some (m.bare (c :: s))

def isName (c : α) : Bool := c ≠ m.equals && !m.blank c

/-- One parameter, from the start of its name. -/
def param (s : List α) : Option ((List α × List α) × List α) :=
  match (s.dropWhile m.isName).dropWhile m.blank with
  | [] => none
  | c :: t =>
    if c = m.equals then
      (m.value (t.dropWhile m.blank)).map fun r => ((s.takeWhile m.isName, r.1), r.2)
    else none

theorem bare_length (s : List α) : (m.bare s).2.length ≤ s.length := by
  fun_induction m.bare s <;> simp <;> omega

theorem quoted_length (s : List α) {r : List α × List α} (h : m.quoted s = some r) :
    r.2.length ≤ s.length := by
  fun_induction m.quoted s generalizing r with
  | case1 => cases h
  | case2 => cases h
  | case3 d s ih =>
    obtain ⟨r', hr, rfl⟩ := Option.map_eq_some_iff.mp h
    have := ih hr
    simp
    omega
  | case4 s => cases h; simp
  | case5 c s _ _ ih =>
    obtain ⟨r', hr, rfl⟩ := Option.map_eq_some_iff.mp h
    have := ih hr
    simp
    omega

theorem value_length (s : List α) {r : List α × List α} (h : m.value s = some r) :
    r.2.length ≤ s.length := by
  cases s with
  | nil => cases h; simp
  | cons c s =>
    simp only [value] at h
    split at h
    · have := m.quoted_length s h
      simp
      omega
    · cases h
      exact m.bare_length (c :: s)

theorem param_length {s : List α} {r : (List α × List α) × List α} (h : m.param s = some r) :
    r.2.length < s.length := by
  unfold param at h
  have hdrop : ((s.dropWhile m.isName).dropWhile m.blank).length ≤ s.length :=
    ((List.dropWhile_sublist _).trans (List.dropWhile_sublist _)).length_le
  split at h
  · cases h
  · next c t ht =>
    rw [ht, List.length_cons] at hdrop
    split at h
    · obtain ⟨r', hr, rfl⟩ := Option.map_eq_some_iff.mp h
      have hvalue := m.value_length _ hr
      have htail := (List.dropWhile_sublist m.blank (l := t)).length_le
      simp only
      omega
    · cases h

/-- All parameters of a string, unless one of them cannot be read. -/
def params (s : List α) : Option (List (List α × List α)) :=
  if s.dropWhile m.blank = [] then some []
  else
    match _h : m.param (s.dropWhile m.blank) with
    | none => none
    | some r => (params r.2).map fun ps => r.1 :: ps
termination_by s.length
decreasing_by
  have hparam := m.param_length _h
  have hdrop := (List.dropWhile_sublist m.blank (l := s)).length_le
  omega

/-! ## Writing -/

def escaped (v : List α) : List α :=
  v.flatMap fun c => if c = m.quote ∨ c = m.escape then [m.escape, c] else [c]

/-- A value, in quotes where `needs` asks for them. -/
def spell (needs : List α → Bool) (v : List α) : List α :=
  if needs v then m.quote :: (m.escaped v ++ [m.quote]) else v

def written (needs : List α → Bool) (p : List α × List α) : List α :=
  p.1 ++ m.equals :: m.spell needs p.2

/-- Quotes are asked for where a bare value would not be read as it stands. -/
def Asks (needs : List α → Bool) : Prop :=
  ∀ v, needs v = false → v ≠ [] ∧ m.quote ∉ v ∧ m.escape ∉ v

/-- The name has no end inside, and neither has a value without quotes. -/
structure Legible (needs : List α → Bool) (p : List α × List α) : Prop where
  name : ∀ c ∈ p.1, m.blank c = false
  value : needs p.2 = true ∨ ∀ c ∈ p.2, m.blank c = false

/-- Where a bare value ends. -/
def Ends (s : List α) : Prop := ∀ c ∈ s.head?, m.blank c = true

section

variable {m} {needs : List α → Bool} {s v : List α} {sep : α}

theorem quoted_quote (s : List α) : m.quoted (m.quote :: s) = some ([], s) := by
  rw [quoted.eq_def]
  simp [m.quote_ne_escape]

theorem quoted_escape (d : α) (s : List α) :
    m.quoted (m.escape :: d :: s) = (m.quoted s).map fun r => (d :: r.1, r.2) := by
  rw [quoted.eq_def]
  simp

theorem quoted_plain {c : α} (hq : c ≠ m.quote) (he : c ≠ m.escape) (s : List α) :
    m.quoted (c :: s) = (m.quoted s).map fun r => (c :: r.1, r.2) := by
  rw [quoted.eq_def]
  simp [hq, he]

theorem bare_blank {b : α} (hb : m.blank b = true) (s : List α) : m.bare (b :: s) = ([], s) := by
  rw [bare.eq_def]
  simp [hb]

theorem bare_plain {c : α} (hc : m.blank c = false) (he : c ≠ m.escape) (s : List α) :
    m.bare (c :: s) = (c :: (m.bare s).1, (m.bare s).2) := by
  rw [bare.eq_def]
  simp [hc, he]

theorem quoted_escaped (v s : List α) : m.quoted (m.escaped v ++ m.quote :: s) = some (v, s) := by
  induction v with
  | nil => exact quoted_quote s
  | cons c v ih =>
    have hrest : m.escaped (c :: v) =
        (if c = m.quote ∨ c = m.escape then [m.escape, c] else [c]) ++ m.escaped v := rfl
    rw [hrest]
    split
    · simp [quoted_escape, ih]
    · next h =>
      rw [not_or] at h
      simp [quoted_plain h.1 h.2, ih]

theorem bare_append (hv : ∀ c ∈ v, m.blank c = false) (he : m.escape ∉ v) (hs : m.Ends s) :
    m.bare (v ++ s) = (v, s.tail) := by
  induction v with
  | nil =>
    cases s with
    | nil => rfl
    | cons b s => exact bare_blank (hs b rfl) s
  | cons c v ih =>
    rw [List.forall_mem_cons] at hv
    rw [List.mem_cons, not_or] at he
    rw [List.cons_append, bare_plain hv.1 (Ne.symm he.1), ih hv.2 he.2]

/-- A value of which nothing is skipped, and which is read as it stands. -/
theorem value_spell (hneeds : m.Asks needs)
    (hv : needs v = true ∨ ∀ c ∈ v, m.blank c = false) (hs : m.Ends s) :
    (m.spell needs v ++ s).dropWhile m.blank = m.spell needs v ++ s ∧
      (m.value (m.spell needs v ++ s) = some (v, s) ∨
        m.value (m.spell needs v ++ s) = some (v, s.tail)) := by
  unfold spell
  cases hn : needs v with
  | true =>
    simp only [if_true, List.cons_append, List.append_assoc, List.nil_append]
    refine ⟨by simp [m.blank_quote], .inl ?_⟩
    rw [value, if_pos rfl, quoted_escaped]
  | false =>
    have hplain : ∀ c ∈ v, m.blank c = false := hv.resolve_left (by simp [hn])
    obtain ⟨hne, hquote, hescape⟩ := hneeds v hn
    simp only [Bool.false_eq_true, if_false]
    cases v with
    | nil => exact absurd rfl hne
    | cons c v =>
      have hc : c ≠ m.quote := fun h => hquote (by simp [h])
      refine ⟨by simp [hplain c (by simp)], .inr ?_⟩
      rw [List.cons_append, value, if_neg hc, ← List.cons_append, bare_append hplain hescape hs]

theorem isName_of {k : List α} (hk : ∀ c ∈ k, m.blank c = false) (he : m.equals ∉ k) :
    ∀ c ∈ k, m.isName c = true := by
  intro c hc
  have hne : c ≠ m.equals := fun h => he (h ▸ hc)
  simp [isName, hne, hk c hc]

theorem param_name {k : List α} (hk : ∀ c ∈ k, m.isName c = true) (t : List α) :
    m.param (k ++ m.equals :: t) =
      (m.value (t.dropWhile m.blank)).map fun r => ((k, r.1), r.2) := by
  have hstop : m.isName m.equals = false := by simp [isName]
  have hdrop : (k ++ m.equals :: t).dropWhile m.isName = m.equals :: t := by
    rw [List.dropWhile_append_of_pos hk, List.dropWhile_cons_of_neg (by simp [hstop])]
  have htake : (k ++ m.equals :: t).takeWhile m.isName = k := by
    rw [List.takeWhile_append_of_pos hk, List.takeWhile_cons_of_neg (by simp [hstop]),
      List.append_nil]
  rw [param, hdrop, htake, List.dropWhile_cons_of_neg (by simp [m.blank_equals])]
  simp

/-- A name begins with no blank. -/
theorem dropWhile_name {k : List α} (hk : ∀ c ∈ k, m.isName c = true) (t : List α) :
    (k ++ m.equals :: t).dropWhile m.blank = k ++ m.equals :: t := by
  cases k with
  | nil => simp [m.blank_equals]
  | cons c k =>
    have hc := hk c (by simp)
    simp only [isName, Bool.and_eq_true, Bool.not_eq_true'] at hc
    simp [hc.2]

theorem params_eq {k : List α} (hk : ∀ c ∈ k, m.isName c = true) (t : List α) :
    m.params (k ++ m.equals :: t) =
      (m.value (t.dropWhile m.blank)).bind fun r =>
        (m.params r.2).map fun ps => (k, r.1) :: ps := by
  rw [params, dropWhile_name hk, if_neg (by simp)]
  split
  · next h =>
    rw [param_name hk] at h
    rw [Option.map_eq_none_iff.mp h]
    rfl
  · next r h =>
    rw [param_name hk] at h
    obtain ⟨r', hr, rfl⟩ := Option.map_eq_some_iff.mp h
    rw [hr]
    rfl

theorem params_blank {b : α} (hb : m.blank b = true) (s : List α) :
    m.params (b :: s) = m.params s := by
  rw [params, params, List.dropWhile_cons_of_pos hb]

theorem params_tail (hs : m.Ends s) : m.params s.tail = m.params s := by
  cases s with
  | nil => rfl
  | cons b s => exact (params_blank (hs b rfl) s).symm

theorem params_nil : m.params [] = some [] := by
  rw [params]
  simp

/-- One parameter in front of what ends it. -/
theorem params_written (hneeds : m.Asks needs) {p : List α × List α} (hp : m.Legible needs p)
    (he : m.equals ∉ p.1) (hs : m.Ends s) :
    m.params (m.written needs p ++ s) = (m.params s).map fun ps => p :: ps := by
  obtain ⟨hskip, hvalue⟩ := value_spell hneeds hp.value hs
  rw [written, List.append_assoc, List.cons_append, params_eq (isName_of hp.name he), hskip]
  rcases hvalue with h | h
  · rw [h]
    rfl
  · rw [h, Option.bind_some, params_tail hs]

/-- What stands behind a part: the others, behind the separator. -/
def behind (sep : α) : List (List α) → List α
  | [] => []
  | part :: parts => sep :: [sep].intercalate (part :: parts)

omit [DecidableEq α] in
theorem intercalate_cons (sep : α) (part : List α) (parts : List (List α)) :
    [sep].intercalate (part :: parts) = part ++ behind sep parts := by
  cases parts <;> simp [behind, List.intercalate]

omit [DecidableEq α] in
theorem ends_behind (hsep : m.blank sep = true) (parts : List (List α)) :
    m.Ends (behind sep parts) := by
  cases parts with
  | nil => exact nofun
  | cons part parts =>
    rintro c ⟨⟩
    exact hsep

theorem params_behind (hsep : m.blank sep = true) (parts : List (List α)) :
    m.params (behind sep parts) = m.params ([sep].intercalate parts) := by
  cases parts with
  | nil => rfl
  | cons part parts => exact params_blank hsep _

theorem params_intercalate (hneeds : m.Asks needs) (hsep : m.blank sep = true)
    {ps : List (List α × List α)} (hps : ∀ p ∈ ps, m.Legible needs p ∧ m.equals ∉ p.1) :
    m.params ([sep].intercalate (ps.map (m.written needs))) = some ps := by
  induction ps with
  | nil => exact params_nil
  | cons p ps ih =>
    obtain ⟨⟨hp, he⟩, hps⟩ := List.forall_mem_cons.mp hps
    rw [List.map_cons, intercalate_cons, params_written hneeds hp he (ends_behind hsep _),
      params_behind hsep, ih hps]
    rfl

/-! ## What cannot be read back -/

/-- A value that is read begins with a blank only behind a quote or an escape. -/
theorem value_blank {b : α} {v : List α} {r : List α} (hs : ∀ c ∈ s.head?, m.blank c = false)
    (hb : m.blank b = true) (h : m.value s = some (b :: v, r)) :
    (∃ t, s = m.escape :: b :: t) ∨ (∃ t, s = m.quote :: b :: t) ∨
      ∃ t, s = m.quote :: m.escape :: b :: t := by
  cases s with
  | nil => simp [value] at h
  | cons c s =>
    have hc : m.blank c = false := hs c rfl
    rw [value] at h
    split at h
    · next hq =>
      subst hq
      cases s with
      | nil => simp [quoted] at h
      | cons d s =>
        by_cases he : d = m.escape
        · subst he
          cases s with
          | nil => simp [quoted] at h
          | cons d s =>
            rw [quoted_escape] at h
            obtain ⟨r', -, hr⟩ := Option.map_eq_some_iff.mp h
            cases hr
            exact .inr (.inr ⟨s, rfl⟩)
        · by_cases hq : d = m.quote
          · subst hq
            rw [quoted_quote] at h
            cases h
          · rw [quoted_plain hq he] at h
            obtain ⟨r', -, hr⟩ := Option.map_eq_some_iff.mp h
            cases hr
            exact .inr (.inl ⟨s, rfl⟩)
    · by_cases he : c = m.escape
      · subst he
        cases s with
        | nil => simp [bare, m.blank_escape] at h
        | cons d s =>
          rw [bare.eq_def] at h
          simp only [m.blank_escape, Bool.false_eq_true, if_false, if_true, Option.some.injEq,
            Prod.mk.injEq, List.cons.injEq] at h
          obtain ⟨⟨rfl, -⟩, -⟩ := h
          exact .inl ⟨s, rfl⟩
      · rw [bare_plain hc he] at h
        cases h
        rw [hb] at hc
        cases hc

/-- The names that are read hold no blank. -/
theorem params_names {ps : List (List α × List α)} (h : m.params s = some ps) :
    ∀ p ∈ ps, ∀ c ∈ p.1, m.blank c = false := by
  fun_induction m.params s generalizing ps with
  | case1 => cases h; simp
  | case2 => cases h
  | case3 s _ r hparam ih =>
    obtain ⟨ps', hps, rfl⟩ := Option.map_eq_some_iff.mp h
    rw [List.forall_mem_cons]
    refine ⟨fun c hc => ?_, ih hps⟩
    unfold param at hparam
    split at hparam
    · cases hparam
    · split at hparam
      · obtain ⟨r', -, rfl⟩ := Option.map_eq_some_iff.mp hparam
        have hname := List.mem_takeWhile_imp hc
        simp only [isName, Bool.and_eq_true, Bool.not_eq_true'] at hname
        exact hname.2
      · cases hparam

omit [DecidableEq α] in
/-- No blank stands before the end of the first name. -/
theorem blank_behind_name {k : List α} (hk : ∀ c ∈ k, m.blank c = false) {b : α}
    (hb : m.blank b = true) (t : List α) {s : List α}
    (h : k ++ m.equals :: t = m.escape :: b :: s ∨ k ++ m.equals :: t = m.quote :: b :: s ∨
      k ++ m.equals :: t = m.quote :: m.escape :: b :: s) : False := by
  have hne : m.blank m.equals = true → False := by simp [m.blank_equals]
  rcases k with _ | ⟨k0, _ | ⟨k1, _ | ⟨k2, k⟩⟩⟩
  · rcases h with h | h | h <;> injection h with h _
    · exact m.equals_ne_escape h
    · exact m.equals_ne_quote h
    · exact m.equals_ne_quote h
  · rcases h with h | h | h <;> injection h with _ h <;> injection h with h _
    · exact hne (h ▸ hb)
    · exact hne (h ▸ hb)
    · exact m.equals_ne_escape h
  · have hk1 := hk k1 (by simp)
    rcases h with h | h | h <;> injection h with _ h <;> injection h with h h'
    · simp [← h, hk1] at hb
    · simp [← h, hk1] at hb
    · injection h' with h' _
      exact hne (h' ▸ hb)
  · have hk1 := hk k1 (by simp)
    have hk2 := hk k2 (by simp)
    rcases h with h | h | h <;> injection h with _ h <;> injection h with h h'
    · simp [← h, hk1] at hb
    · simp [← h, hk1] at hb
    · injection h' with h' _
      simp [← h', hk2] at hb

/-- A bare value with a blank in it is not read back, whatever names follow. -/
theorem value_not_read (hneeds : m.Asks needs) (hv : needs v = false)
    {b : α} (hb : b ∈ v) (hblank : m.blank b = true)
    (hnext : s.dropWhile m.blank = [] ∨ ∃ k t, (∀ c ∈ k, m.blank c = false) ∧
      s.dropWhile m.blank = k ++ m.equals :: t) {r : List α} :
    m.value ((v ++ s).dropWhile m.blank) ≠ some (v, r) := by
  intro h
  obtain ⟨-, hquote, hescape⟩ := hneeds v hv
  have hhead : ∀ c ∈ ((v ++ s).dropWhile m.blank).head?, m.blank c = false := by
    intro c hc
    have := List.head?_dropWhile_not m.blank (v ++ s)
    rw [Option.mem_def.mp hc] at this
    simpa using this
  cases v with
  | nil => cases hb
  | cons c v =>
    cases hc : m.blank c with
    | true =>
      have hcases := value_blank hhead hc h
      by_cases hall : ∀ x ∈ c :: v, m.blank x = true
      · rw [List.dropWhile_append_of_pos hall] at hcases
        rcases hnext with hnil | ⟨k, t, hk, heq⟩
        · rw [hnil] at hcases
          simp at hcases
        · rw [heq] at hcases
          rcases hcases with ⟨t', h'⟩ | ⟨t', h'⟩ | ⟨t', h'⟩
          · exact blank_behind_name hk hc t (.inl h')
          · exact blank_behind_name hk hc t (.inr (.inl h'))
          · exact blank_behind_name hk hc t (.inr (.inr h'))
      · -- the first character that is not blank is one of the value's own
        have hne : (c :: v).dropWhile m.blank ≠ [] := fun hnil =>
          hall (List.dropWhile_eq_nil_iff.mp hnil)
        have hmem : ∀ x ∈ ((c :: v ++ s).dropWhile m.blank).head?, x ∈ c :: v := by
          intro x hx
          rw [List.dropWhile_append, if_neg (by simpa using hne)] at hx
          cases hd : (c :: v).dropWhile m.blank with
          | nil => exact absurd hd hne
          | cons y w =>
            rw [hd] at hx
            cases hx
            exact (List.dropWhile_sublist m.blank).subset (by rw [hd]; simp)
        rcases hcases with ⟨t, h'⟩ | ⟨t, h'⟩ | ⟨t, h'⟩
        · exact hescape (hmem _ (by rw [h']; rfl))
        · exact hquote (hmem _ (by rw [h']; rfl))
        · exact hquote (hmem _ (by rw [h']; rfl))
    | false =>
      -- the value ends at its first blank
      have hsplit := List.takeWhile_append_dropWhile (p := fun x => !m.blank x) (l := c :: v)
      cases hd : (c :: v).dropWhile (fun x => !m.blank x) with
      | nil =>
        have := List.dropWhile_eq_nil_iff.mp hd b hb
        simp [hblank] at this
      | cons y w =>
        have hy : m.blank y = true := by
          have := List.head?_dropWhile_not (fun x => !m.blank x) (c :: v)
          rw [hd] at this
          simpa using this
        set u := (c :: v).takeWhile fun x => !m.blank x with hu
        rw [hd] at hsplit
        have hplain : ∀ x ∈ u, m.blank x = false := fun x hx => by
          simpa using List.mem_takeWhile_imp hx
        have hesc : m.escape ∉ u := fun hx => hescape ((List.takeWhile_sublist _).subset hx)
        have hread : m.bare (c :: v ++ s) = (u, w ++ s) := by
          rw [← hsplit, List.append_assoc, bare_append hplain hesc (by rintro x ⟨⟩; exact hy)]
          rfl
        have hcq : c ≠ m.quote := fun hx => hquote (by simp [hx])
        rw [List.cons_append, List.dropWhile_cons_of_neg (by simp [hc]), value, if_neg hcq,
          ← List.cons_append, hread] at h
        have hu' : u = c :: v := by simpa using congrArg (Option.map Prod.fst) h
        have := congrArg List.length hsplit
        rw [hu'] at this
        simp at this

/-- The first name behind the separator. -/
theorem behind_name (hsep : m.blank sep = true) {ps : List (List α × List α)}
    (hps : ∀ p ∈ ps, (∀ c ∈ p.1, m.blank c = false) ∧ m.equals ∉ p.1) :
    (behind sep (ps.map (m.written needs))).dropWhile m.blank = [] ∨
      ∃ k t, (∀ c ∈ k, m.blank c = false) ∧
        (behind sep (ps.map (m.written needs))).dropWhile m.blank = k ++ m.equals :: t := by
  cases ps with
  | nil => exact .inl rfl
  | cons p ps =>
    obtain ⟨hname, he⟩ := hps p (by simp)
    refine .inr ⟨p.1, m.spell needs p.2 ++ behind sep (ps.map (m.written needs)), hname, ?_⟩
    rw [List.map_cons, behind, List.dropWhile_cons_of_pos hsep, intercalate_cons, written,
      List.append_assoc, List.cons_append, dropWhile_name (isName_of hname he)]

theorem legible_of_params (hneeds : m.Asks needs) (hsep : m.blank sep = true)
    {ps : List (List α × List α)} (he : ∀ p ∈ ps, m.equals ∉ p.1)
    (h : m.params ([sep].intercalate (ps.map (m.written needs))) = some ps) :
    ∀ p ∈ ps, m.Legible needs p := by
  induction ps with
  | nil => simp
  | cons p ps ih =>
    obtain ⟨hname, hnames⟩ := List.forall_mem_cons.mp (params_names h)
    obtain ⟨hep, heps⟩ := List.forall_mem_cons.mp he
    rw [List.map_cons, intercalate_cons] at h
    have hp : m.Legible needs p := by
      refine ⟨hname, ?_⟩
      by_contra hnot
      rw [not_or] at hnot
      have hv : needs p.2 = false := by simpa using hnot.1
      obtain ⟨b, hb, hblank⟩ : ∃ b ∈ p.2, m.blank b = true := by simpa using hnot.2
      rw [written, List.append_assoc, List.cons_append, params_eq (isName_of hname hep), spell, hv,
        if_neg (by simp)] at h
      obtain ⟨r, hr, hmap⟩ := Option.bind_eq_some_iff.mp h
      obtain ⟨ps', -, heq⟩ := Option.map_eq_some_iff.mp hmap
      have hr1 : r.1 = p.2 := by
        have := (List.cons.inj heq).1
        rw [← this]
      have hnext := @behind_name α _ m needs sep hsep ps fun q hq => ⟨hnames q hq, heps q hq⟩
      have hread : m.value ((p.2 ++ behind sep (ps.map (m.written needs))).dropWhile m.blank) =
          some (p.2, r.2) := by
        rw [hr, ← hr1]
      exact value_not_read hneeds hv hb hblank hnext hread
    rw [params_written hneeds hp hep (ends_behind hsep _), params_behind hsep] at h
    obtain ⟨ps', hps', heq⟩ := Option.map_eq_some_iff.mp h
    rw [(List.cons.inj heq).2] at hps'
    exact List.forall_mem_cons.mpr ⟨hp, ih heps hps'⟩

/-- What is written is read back exactly when no name holds a blank, and no value without quotes. -/
theorem params_intercalate_iff (hneeds : m.Asks needs) (hsep : m.blank sep = true)
    {ps : List (List α × List α)} (he : ∀ p ∈ ps, m.equals ∉ p.1) :
    m.params ([sep].intercalate (ps.map (m.written needs))) = some ps ↔
      ∀ p ∈ ps, m.Legible needs p :=
  ⟨legible_of_params hneeds hsep he, fun h =>
    params_intercalate hneeds hsep fun p hp => ⟨h p hp, he p hp⟩⟩

end

end Marks

end Base
end Laswell
