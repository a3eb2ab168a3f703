import Mathlib.Data.List.Sort
import Mathlib.Order.Basic

/-!
# Laswell.Base.Keyset

Keyset walks over a linear order: a page is the first so many keys after a position, in order, and
the walk goes on after the last key of what it took from it.

* `mem_of_le_getLast`: what was taken from a page, up to its last key, is all there is.
* `page_eq_nil`: an empty page is the end.
* `next_le`: the next key is the least one.
-/

namespace Laswell
namespace Base

variable {κ : Type} [LinearOrder κ]

/-- After a position; there is one before all keys. -/
def after (p : Option κ) (k : κ) : Bool := p.all fun q => decide (q < k)

/-- Up to a bound, if there is one. -/
def within (u : Option κ) (k : κ) : Bool := u.all fun q => decide (k ≤ q)

/-- `ORDER BY`, of the keys after `p` and up to `u`. -/
def span (p u : Option κ) (ks : List κ) : List κ :=
  (ks.filter fun k => after p k && within u k).insertionSort (· ≤ ·)

def page (p u : Option κ) (limit : Nat) (ks : List κ) : List κ := (span p u ks).take limit

/-- The first key after `p`. -/
def next (p : Option κ) (ks : List κ) : Option κ := (page p none 1 ks).head?

variable {p u : Option κ} {ks taken : List κ} {limit : Nat} {k m : κ}

theorem mem_span : k ∈ span p u ks ↔ k ∈ ks ∧ after p k = true ∧ within u k = true := by
  simp [span, List.mem_insertionSort]

theorem span_sorted (p u : Option κ) (ks : List κ) : (span p u ks).Pairwise (· ≤ ·) :=
  List.pairwise_insertionSort _ _

/-- In a list in order, what stands up to a key of an initial part is in that part. -/
theorem mem_of_isPrefix_sorted {l : List κ} (hs : l.Pairwise (· ≤ ·)) (hp : taken <+: l)
    (hm : taken.getLast? = some m) (hk : k ∈ l) (hkm : k ≤ m) : k ∈ taken := by
  obtain ⟨rest, rfl⟩ := hp
  rcases List.mem_append.1 hk with hk | hk
  · exact hk
  · have hmem : m ∈ taken := List.mem_of_getLast? hm
    have hle : m ≤ k := (List.pairwise_append.1 hs).2.2 m hmem k hk
    rw [le_antisymm hkm hle]
    exact hmem

/-- The last of a list in order is its greatest. -/
theorem le_getLast_of_sorted {l : List κ} (hs : l.Pairwise (· ≤ ·)) (hm : l.getLast? = some m)
    (hk : k ∈ l) : k ≤ m := by
  obtain ⟨front, rfl⟩ := List.getLast?_eq_some_iff.1 hm
  rcases List.mem_append.1 hk with hk | hk
  · exact (List.pairwise_append.1 hs).2.2 k hk m (List.mem_singleton.2 rfl)
  · rw [List.mem_singleton.1 hk]

theorem page_isPrefix : page p u limit ks <+: span p u ks := List.take_prefix _ _

theorem mem_of_page_isPrefix (hp : taken <+: page p u limit ks) (hk : k ∈ taken) :
    k ∈ ks ∧ after p k = true ∧ within u k = true :=
  mem_span.1 ((hp.trans page_isPrefix).subset hk)

/-- Whatever initial part of a page is taken, every key after the position and up to its last one
is in it. -/
theorem mem_of_le_getLast (hp : taken <+: page p u limit ks) (hm : taken.getLast? = some m)
    (hk : k ∈ ks) (hafter : after p k = true) (hkm : k ≤ m) : k ∈ taken := by
  have hmu : within u m = true := (mem_of_page_isPrefix hp (List.mem_of_getLast? hm)).2.2
  have hku : within u k = true := by
    cases u with
    | none => rfl
    | some q =>
      have hq : m ≤ q := by simpa [within] using hmu
      simpa [within] using hkm.trans hq
  exact mem_of_isPrefix_sorted (span_sorted p u ks) (hp.trans page_isPrefix) hm
    (mem_span.2 ⟨hk, hafter, hku⟩) hkm

theorem page_eq_nil (hlimit : 0 < limit) (h : page p none limit ks = []) (hk : k ∈ ks) :
    after p k = false := by
  rcases List.take_eq_nil_iff.1 h with h | h
  · omega
  · by_contra hafter
    rw [Bool.not_eq_false] at hafter
    have hmem : k ∈ span p none ks := mem_span.2 ⟨hk, hafter, rfl⟩
    rw [h] at hmem
    cases hmem

theorem next_isPrefix (h : next p ks = some m) : [m] <+: page p none 1 ks := by
  obtain ⟨rest, hrest⟩ := List.head?_eq_some_iff.1 h
  exact ⟨rest, by rw [hrest, List.singleton_append]⟩

/-- Once an initial part of what is ahead was taken, what is ahead is the rest of it. -/
theorem span_getLast {rest : List κ} (hnodup : ks.Nodup) (hspan : span p u ks = taken ++ rest)
    (hm : taken.getLast? = some m) : span (some m) u ks = rest := by
  have hspanNodup : (span p u ks).Nodup :=
    (List.perm_insertionSort _ _).nodup_iff.2 (hnodup.filter _)
  have hsorted := span_sorted p u ks
  have hmspan : m ∈ span p u ks := by
    rw [hspan]
    exact List.mem_append_left _ (List.mem_of_getLast? hm)
  rw [hspan] at hspanNodup hsorted
  have hrest : ∀ k, k ∈ span (some m) u ks ↔ k ∈ rest := by
    intro k
    rw [mem_span]
    constructor
    · rintro ⟨hk, hafter, hin⟩
      have hlt : m < k := by simpa [after] using hafter
      have hp : after p k = true := by
        cases p with
        | none => rfl
        | some q =>
          have hq : q < m := by simpa [after] using (mem_span.1 hmspan).2.1
          simpa [after] using hq.trans hlt
      have hmem : k ∈ taken ++ rest := hspan ▸ mem_span.2 ⟨hk, hp, hin⟩
      refine (List.mem_append.1 hmem).resolve_left fun htaken => ?_
      have hle := le_getLast_of_sorted (List.pairwise_append.1 hsorted).1 hm htaken
      exact absurd hlt (not_lt.2 hle)
    · intro hk
      have hmem := mem_span.1 (hspan ▸ List.mem_append_right taken hk)
      have hle : m ≤ k :=
        (List.pairwise_append.1 hsorted).2.2 m (List.mem_of_getLast? hm) k hk
      have hne : m ≠ k := fun e => (List.nodup_append.1 hspanNodup).2.2 m
        (List.mem_of_getLast? hm) k hk e
      exact ⟨hmem.1, by simpa [after] using lt_of_le_of_ne hle hne, hmem.2.2⟩
  have hperm : (span (some m) u ks).Perm rest :=
    (List.perm_ext_iff_of_nodup ((List.perm_insertionSort _ _).nodup_iff.2 (hnodup.filter _))
      (List.nodup_append.1 hspanNodup).2.1).2 hrest
  exact hperm.eq_of_pairwise (fun a b _ _ => le_antisymm) (span_sorted _ _ _)
    (List.pairwise_append.1 hsorted).2.1

/-- No key stands between a position and the next one. -/
theorem next_le (h : next p ks = some m) (hk : k ∈ ks) (hafter : after p k = true) : m ≤ k := by
  by_contra hlt
  have hmem := mem_of_le_getLast (next_isPrefix h) rfl hk hafter (not_le.1 hlt).le
  rw [List.mem_singleton.1 hmem] at hlt
  exact hlt le_rfl

/-- With a key after the position, there is a next one, no later than it. -/
theorem exists_next (hk : k ∈ ks) (hafter : after p k = true) : ∃ m, next p ks = some m ∧ m ≤ k := by
  cases h : next p ks with
  | none =>
    have hend := page_eq_nil (by omega) (List.head?_eq_none_iff.1 h) hk
    rw [hafter] at hend
    cases hend
  | some m => exact ⟨m, rfl, next_le h hk hafter⟩

/-- Among keys without repetition, the least is what is ahead at first. -/
theorem span_least (hnodup : ks.Nodup) (hk : k ∈ ks) (hleast : ∀ k' ∈ ks, k ≤ k') :
    span none none ks = k :: span (some k) none ks := by
  have hmem : k ∈ span none none ks := mem_span.2 ⟨hk, rfl, rfl⟩
  cases hspan : span none none ks with
  | nil =>
    rw [hspan] at hmem
    cases hmem
  | cons first rest =>
    have hsorted := span_sorted none none ks
    rw [hspan] at hmem hsorted
    have hle : first ≤ k := by
      rcases List.mem_cons.1 hmem with h | h
      · exact h ▸ le_rfl
      · exact (List.pairwise_cons.1 hsorted).1 k h
    have hfirst : first ∈ ks := (mem_span.1 (hspan ▸ List.mem_cons_self)).1
    obtain rfl : first = k := le_antisymm hle (hleast first hfirst)
    have hsplit : span none none ks = [first] ++ rest := hspan
    have hrest : span (some first) none ks = rest := span_getLast hnodup hsplit rfl
    rw [hrest]

end Base
end Laswell
