import Mathlib.Data.List.Basic

/-!
# Laswell.Base.Readable

Unique readability of an encoding into lists of symbols. `Reads enc val S stop a` says that an
encoded `a`, followed by any rest that satisfies `stop`, is read in one way only: whatever
admissible `b` and rest spell the same symbols, `b` has the value of `a` and the rests agree.

* `Reads.sepList`: comma-separated, bracketed lists of readable items are readable.
* `flatMap_terminated`: a symbol-by-symbol code, ended by a terminator no code word starts with.
* `doubled_terminated`: a text with its quotes doubled, ended by a single quote.
* `takeWhile_terminated`: a run of symbols of one class, ended by a symbol outside of it.
-/

namespace Laswell
namespace Base

variable {α β γ : Type}

def Reads (enc : α → List β) (val : α → γ) (S : α → Prop) (stop : List β → Prop) (a : α) : Prop :=
  ∀ b r r', S b → stop r → stop r' → enc a ++ r = enc b ++ r' → val a = val b ∧ r = r'

/-- The items after the first one, each behind a separator, and the closing symbol. -/
def sepTail (enc : α → List β) (sep close : β) : List α → List β
  | [] => [close]
  | x :: xs => sep :: (enc x ++ sepTail enc sep close xs)

def sepList (enc : α → List β) (sep close : β) : List α → List β
  | [] => [close]
  | x :: xs => enc x ++ sepTail enc sep close xs

section Lists

variable {enc : α → List β} {val : α → γ} {S : α → Prop} {stop : List β → Prop} {sep close : β}

/-- A tail begins with the separator or with the closing symbol, so an item may stop before it. -/
theorem sepTail_stop (hs : ∀ l, stop (sep :: l)) (hc : ∀ l, stop (close :: l)) (xs : List α)
    (r : List β) : stop (sepTail enc sep close xs ++ r) := by
  cases xs with
  | nil => exact hc r
  | cons x xs => exact hs _

theorem Reads.sepTail (hne : sep ≠ close) (hs : ∀ l, stop (sep :: l))
    (hc : ∀ l, stop (close :: l)) :
    ∀ xs : List α, (∀ x ∈ xs, Reads enc val S stop x) → ∀ (ys : List α) (r r' : List β),
      (∀ y ∈ ys, S y) → sepTail enc sep close xs ++ r = sepTail enc sep close ys ++ r' →
      xs.map val = ys.map val ∧ r = r' := by
  intro xs
  induction xs with
  | nil =>
    intro _ ys r r' _ h
    cases ys with
    | nil => simpa [Base.sepTail] using h
    | cons y ys =>
      simp only [Base.sepTail, List.cons_append, List.nil_append, List.cons.injEq] at h
      exact absurd h.1.symm hne
  | cons x xs ih =>
    intro hx ys r r' hys h
    cases ys with
    | nil =>
      simp only [Base.sepTail, List.cons_append, List.nil_append, List.cons.injEq] at h
      exact absurd h.1 hne
    | cons y ys =>
      simp only [Base.sepTail, List.cons_append, List.cons.injEq, List.append_assoc,
        true_and] at h
      obtain ⟨hv, hr⟩ := hx x (by simp) y _ _ (hys y (by simp)) (sepTail_stop hs hc xs r)
        (sepTail_stop hs hc ys r') h
      obtain ⟨hvs, hr'⟩ := ih (fun z hz => hx z (by simp [hz])) ys r r'
        (fun z hz => hys z (by simp [hz])) hr
      exact ⟨by simp [hv, hvs], hr'⟩

/-- The list rule. An item never begins with the closing symbol, which tells the empty list from
a list with a first item. -/
theorem Reads.sepList (hne : sep ≠ close) (hs : ∀ l, stop (sep :: l))
    (hc : ∀ l, stop (close :: l)) (hhead : ∀ x, S x → ∃ h t, enc x = h :: t ∧ h ≠ close)
    {xs : List α} (hxs : ∀ x ∈ xs, Reads enc val S stop x) (hS : ∀ x ∈ xs, S x)
    {ys : List α} {r r' : List β} (hys : ∀ y ∈ ys, S y)
    (h : Base.sepList enc sep close xs ++ r = Base.sepList enc sep close ys ++ r') :
    xs.map val = ys.map val ∧ r = r' := by
  cases xs with
  | nil =>
    cases ys with
    | nil => simpa [Base.sepList] using h
    | cons y ys =>
      obtain ⟨b, t, hb, hbc⟩ := hhead y (hys y (by simp))
      simp only [Base.sepList, hb, List.cons_append, List.nil_append, List.cons.injEq] at h
      exact absurd h.1.symm hbc
  | cons x xs =>
    cases ys with
    | nil =>
      obtain ⟨b, t, hb, hbc⟩ := hhead x (hS x (by simp))
      simp only [Base.sepList, hb, List.cons_append, List.nil_append, List.cons.injEq] at h
      exact absurd h.1 hbc
    | cons y ys =>
      simp only [Base.sepList, List.append_assoc] at h
      obtain ⟨hv, hr⟩ := hxs x (by simp) y _ _ (hys y (by simp)) (sepTail_stop hs hc xs r)
        (sepTail_stop hs hc ys r') h
      obtain ⟨hvs, hr'⟩ := Reads.sepTail hne hs hc xs (fun z hz => hxs z (by simp [hz])) ys r r'
        (fun z hz => hys z (by simp [hz])) hr
      exact ⟨by simp [hv, hvs], hr'⟩

end Lists

/-- Symbols coded one by one, up to a terminator that begins no code word. -/
theorem flatMap_terminated {code : β → List β} {stop : β}
    (hcode : ∀ x y l l', code x ++ l = code y ++ l' → x = y ∧ l = l')
    (hstop : ∀ x, ∃ h t, code x = h :: t ∧ h ≠ stop) :
    ∀ (s t r r' : List β), s.flatMap code ++ stop :: r = t.flatMap code ++ stop :: r' →
      s = t ∧ r = r' := by
  intro s
  induction s with
  | nil =>
    intro t r r' h
    cases t with
    | nil => simpa using h
    | cons y t =>
      obtain ⟨b, u, hb, hbs⟩ := hstop y
      simp only [List.flatMap_nil, List.nil_append, List.flatMap_cons, hb, List.cons_append,
        List.cons.injEq] at h
      exact absurd h.1.symm hbs
  | cons x s ih =>
    intro t r r' h
    cases t with
    | nil =>
      obtain ⟨b, u, hb, hbs⟩ := hstop x
      simp only [List.flatMap_nil, List.nil_append, List.flatMap_cons, hb, List.cons_append,
        List.cons.injEq] at h
      exact absurd h.1 hbs
    | cons y t =>
      simp only [List.flatMap_cons, List.append_assoc] at h
      obtain ⟨hxy, hrest⟩ := hcode _ _ _ _ h
      obtain ⟨hst, hr⟩ := ih t r r' hrest
      exact ⟨by rw [hxy, hst], hr⟩

/-- A text with its quotes doubled, up to a quote that is not followed by another one. -/
theorem doubled_terminated [DecidableEq β] {quote : β} :
    ∀ (s t r r' : List β), r.head? ≠ some quote → r'.head? ≠ some quote →
      s.flatMap (fun c => if c = quote then [quote, c] else [c]) ++ quote :: r =
        t.flatMap (fun c => if c = quote then [quote, c] else [c]) ++ quote :: r' →
      s = t ∧ r = r' := by
  -- the empty text: the next symbol is the closing quote, with no second one behind it
  have closed : ∀ (y : β) (t r u : List β), r.head? ≠ some quote →
      quote :: r ≠ (if y = quote then [quote, y] else [y]) ++ (t ++ u) := by
    intro y t r u hr h
    split at h
    · rename_i hy
      simp only [List.cons_append, List.nil_append, List.cons.injEq, true_and] at h
      exact hr (by rw [h, hy, List.head?_cons])
    · rename_i hy
      simp only [List.cons_append, List.nil_append, List.cons.injEq] at h
      exact hy h.1.symm
  have code : ∀ (x y : β) (l l' : List β), (if x = quote then [quote, x] else [x]) ++ l =
      (if y = quote then [quote, y] else [y]) ++ l' → x = y ∧ l = l' := by
    intro x y l l' h
    by_cases hx : x = quote <;> by_cases hy : y = quote
    · rw [if_pos hx, if_pos hy] at h
      simpa only [List.cons_append, List.nil_append, List.cons.injEq, true_and] using h
    · rw [if_pos hx, if_neg hy] at h
      simp only [List.cons_append, List.nil_append, List.cons.injEq] at h
      exact absurd h.1.symm hy
    · rw [if_neg hx, if_pos hy] at h
      simp only [List.cons_append, List.nil_append, List.cons.injEq] at h
      exact absurd h.1 hx
    · rw [if_neg hx, if_neg hy] at h
      simpa only [List.cons_append, List.nil_append, List.cons.injEq] using h
  intro s
  induction s with
  | nil =>
    intro t r r' hr _ h
    cases t with
    | nil => simpa using h
    | cons y t =>
      rw [List.flatMap_nil, List.nil_append, List.flatMap_cons, List.append_assoc] at h
      exact absurd h (closed y _ r _ hr)
  | cons x s ih =>
    intro t r r' hr hr' h
    cases t with
    | nil =>
      rw [List.flatMap_nil, List.nil_append, List.flatMap_cons, List.append_assoc] at h
      exact absurd h.symm (closed x _ r' _ hr')
    | cons y t =>
      rw [List.flatMap_cons, List.flatMap_cons, List.append_assoc, List.append_assoc] at h
      have hxy := code x y _ _ h
      obtain ⟨hst, hrest⟩ := ih t r r' hr hr' hxy.2
      exact ⟨by rw [hxy.1, hst], hrest⟩

/-- A run of symbols of class `p`, followed by nothing or by a symbol outside of it. -/
theorem takeWhile_terminated {p : β → Bool} {s t r r' : List β} (hs : ∀ x ∈ s, p x = true)
    (ht : ∀ x ∈ t, p x = true) (hr : ∀ x ∈ r.head?, p x = false) (hr' : ∀ x ∈ r'.head?, p x = false)
    (h : s ++ r = t ++ r') : s = t ∧ r = r' := by
  have stops : ∀ {u v : List β}, (∀ x ∈ u, p x = true) → (∀ x ∈ v.head?, p x = false) →
      (u ++ v).takeWhile p = u := by
    intro u v hu hv
    rw [List.takeWhile_append_of_pos hu]
    cases v with
    | nil => simp
    | cons x v => simp [hv x (by simp)]
  have he : s = t := by rw [← stops hs hr, ← stops ht hr', h]
  subst he
  exact ⟨rfl, List.append_cancel_left h⟩

end Base
end Laswell
