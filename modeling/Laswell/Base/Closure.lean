import Mathlib.Data.List.Basic
import Mathlib.Data.List.Nodup
import Mathlib.Logic.Relation

/-!
# Laswell.Base.Closure

The nodes from which a set of seeds is reached, found by sweeps over all nodes until one sweep
adds nothing. A node that is added counts at once, for the rest of the same sweep.

* `sweep_same`, `sweep_more`: what it means that one sweep added nothing, or something.
* `mem_close_iff`: the result is what reaches a seed along the edges.
-/

namespace Laswell
namespace Base

section Closure

variable {α : Type} [DecidableEq α] (edges : α → List α)

/-- One sweep. The flag says whether it has added a node. -/
def sweep : List α → List α → Bool → List α × Bool
  | [], found, grew => (found, grew)
  | n :: ns, found, grew =>
    if n ∈ found then sweep ns found grew
    else if (edges n).any (· ∈ found) then sweep ns (found ++ [n]) true
    else sweep ns found grew

/-- The nodes a sweep has still to find. -/
def missing (nodes found : List α) : List α := nodes.filter (· ∉ found)

section Sweep

variable {edges} {ns found : List α} {grew : Bool}

theorem sweep_subset : found ⊆ (sweep edges ns found grew).1 := by
  induction ns generalizing found grew with
  | nil => exact List.Subset.refl found
  | cons n ns ih =>
    rw [sweep]
    split
    · exact ih
    · split
      · exact List.Subset.trans (List.subset_append_left found [n]) ih
      · exact ih

theorem sweep_nodup (h : found.Nodup) : (sweep edges ns found grew).1.Nodup := by
  induction ns generalizing found grew with
  | nil => exact h
  | cons n ns ih =>
    rw [sweep]
    split
    · exact ih h
    · rename_i hn
      split
      · exact ih (List.nodup_append.mpr ⟨h, List.nodup_singleton n, by
          intro a ha b hb hab
          rw [List.mem_singleton.mp hb] at hab
          exact hn (hab ▸ ha)⟩)
      · exact ih h

/-- What holds of what was found, and passes from the targets of a node to the node, holds of all
that a sweep finds. -/
theorem sweep_induction {P : α → Prop} (hfound : ∀ a ∈ found, P a)
    (hstep : ∀ n ∈ ns, ∀ d ∈ edges n, P d → P n) : ∀ a ∈ (sweep edges ns found grew).1, P a := by
  induction ns generalizing found grew with
  | nil => exact hfound
  | cons n ns ih =>
    have hrest : ∀ m ∈ ns, ∀ d ∈ edges m, P d → P m :=
      fun m hm => hstep m (List.mem_cons_of_mem n hm)
    rw [sweep]
    split
    · exact ih hfound hrest
    · split
      · rename_i hany
        obtain ⟨d, hd, hin⟩ := List.any_eq_true.mp hany
        refine ih (fun a ha => ?_) hrest
        rcases List.mem_append.mp ha with ha | ha
        · exact hfound a ha
        · rw [List.mem_singleton.mp ha]
          exact hstep n List.mem_cons_self d hd (hfound d (of_decide_eq_true hin))
      · exact ih hfound hrest

/-- A sweep that added nothing found every node with a target among what it had. -/
theorem sweep_same (h : (sweep edges ns found grew).2 = false) :
    grew = false ∧ (sweep edges ns found grew).1 = found ∧
      ∀ n ∈ ns, (∃ d ∈ edges n, d ∈ found) → n ∈ found := by
  induction ns generalizing found grew with
  | nil => exact ⟨h, rfl, fun n hn => absurd hn List.not_mem_nil⟩
  | cons n ns ih =>
    rw [sweep] at h ⊢
    by_cases hn : n ∈ found
    · rw [if_pos hn] at h ⊢
      obtain ⟨hg, hsame, hclosed⟩ := ih h
      refine ⟨hg, hsame, fun m hm hd => ?_⟩
      rcases List.mem_cons.mp hm with rfl | hm
      · exact hn
      · exact hclosed m hm hd
    · rw [if_neg hn] at h ⊢
      by_cases hany : (edges n).any (· ∈ found) = true
      · rw [if_pos hany] at h
        exact absurd (ih h).1 (by decide)
      · rw [if_neg hany] at h ⊢
        obtain ⟨hg, hsame, hclosed⟩ := ih h
        refine ⟨hg, hsame, fun m hm hd => ?_⟩
        rcases List.mem_cons.mp hm with rfl | hm
        · obtain ⟨d, hd, hin⟩ := hd
          exact absurd (List.any_eq_true.mpr ⟨d, hd, decide_eq_true hin⟩) hany
        · exact hclosed m hm hd

/-- A sweep that added a node found one of those it went over. -/
theorem sweep_more (h : (sweep edges ns found false).2 = true) :
    ∃ n ∈ ns, n ∉ found ∧ n ∈ (sweep edges ns found false).1 := by
  induction ns generalizing found with
  | nil => cases h
  | cons n ns ih =>
    rw [sweep] at h ⊢
    by_cases hn : n ∈ found
    · rw [if_pos hn] at h ⊢
      obtain ⟨m, hm, hnew⟩ := ih h
      exact ⟨m, List.mem_cons_of_mem n hm, hnew⟩
    · rw [if_neg hn] at h ⊢
      split
      · exact ⟨n, List.mem_cons_self, hn, sweep_subset (by simp)⟩
      · rename_i hany
        rw [if_neg hany] at h
        obtain ⟨m, hm, hnew⟩ := ih h
        exact ⟨m, List.mem_cons_of_mem n hm, hnew⟩

/-- So fewer are missing after it. -/
theorem missing_lt {nodes : List α} (h : (sweep edges nodes found false).2 = true) :
    (missing nodes (sweep edges nodes found false).1).length < (missing nodes found).length := by
  obtain ⟨n, hn, hnew, hfound⟩ := sweep_more h
  have hagain : missing nodes (sweep edges nodes found false).1 =
      (missing nodes found).filter (· ∉ (sweep edges nodes found false).1) := by
    rw [missing, missing, List.filter_filter]
    refine List.filter_congr fun m _ => ?_
    by_cases hm : m ∈ found
    · simp [hm, sweep_subset hm]
    · simp [hm]
  rw [hagain, List.length_filter_lt_length_iff_exists]
  exact ⟨n, List.mem_filter.mpr ⟨hn, by simpa using hnew⟩, by simpa using hfound⟩

end Sweep

/-- Sweeps over all nodes until one adds nothing. -/
def close (nodes found : List α) : List α :=
  if _h : (sweep edges nodes found false).2 = true then close nodes (sweep edges nodes found false).1
  else (sweep edges nodes found false).1
termination_by (missing nodes found).length
decreasing_by exact missing_lt _h

section Close

variable {edges} {nodes found : List α}

theorem close_subset : found ⊆ close edges nodes found := by
  induction found using close.induct edges nodes with
  | case1 found h ih =>
    rw [close, dif_pos h]
    exact List.Subset.trans sweep_subset ih
  | case2 found h =>
    rw [close, dif_neg h]
    exact sweep_subset

theorem close_nodup (hf : found.Nodup) : (close edges nodes found).Nodup := by
  induction found using close.induct edges nodes with
  | case1 found h ih =>
    rw [close, dif_pos h]
    exact ih (sweep_nodup hf)
  | case2 found h =>
    rw [close, dif_neg h]
    exact sweep_nodup hf

theorem close_induction {P : α → Prop} (hfound : ∀ a ∈ found, P a)
    (hstep : ∀ n ∈ nodes, ∀ d ∈ edges n, P d → P n) : ∀ a ∈ close edges nodes found, P a := by
  induction found using close.induct edges nodes with
  | case1 found h ih =>
    rw [close, dif_pos h]
    exact ih (sweep_induction hfound hstep)
  | case2 found h =>
    rw [close, dif_neg h]
    exact sweep_induction hfound hstep

theorem close_closed {n d : α} (hn : n ∈ nodes) (hd : d ∈ edges n)
    (hin : d ∈ close edges nodes found) : n ∈ close edges nodes found := by
  induction found using close.induct edges nodes with
  | case1 found h ih =>
    rw [close, dif_pos h] at hin ⊢
    exact ih hin
  | case2 found h =>
    rw [close, dif_neg h] at hin ⊢
    obtain ⟨-, hsame, hclosed⟩ := sweep_same (Bool.not_eq_true _ ▸ h)
    rw [hsame] at hin ⊢
    exact hclosed n hn ⟨d, hd, hin⟩

/-- The result is what reaches a seed, each node by an edge of its own. -/
theorem mem_close_iff {n : α} : n ∈ close edges nodes found ↔
    ∃ s ∈ found, Relation.ReflTransGen (fun a b => a ∈ nodes ∧ b ∈ edges a) n s := by
  constructor
  · intro hn
    have hstep : ∀ n ∈ nodes, ∀ d ∈ edges n,
        (∃ s ∈ found, Relation.ReflTransGen (fun a b => a ∈ nodes ∧ b ∈ edges a) d s) →
        ∃ s ∈ found, Relation.ReflTransGen (fun a b => a ∈ nodes ∧ b ∈ edges a) n s :=
      fun n hn d hd ⟨s, hs, hreach⟩ => ⟨s, hs, .head ⟨hn, hd⟩ hreach⟩
    exact close_induction (fun a ha => ⟨a, ha, .refl⟩) hstep n hn
  · rintro ⟨s, hs, hreach⟩
    induction hreach using Relation.ReflTransGen.head_induction_on with
    | refl => exact close_subset hs
    | head hstep _ ih => exact close_closed hstep.1 hstep.2 ih

end Close

end Closure

end Base
end Laswell
