import Laswell.Executor.Execute
import Laswell.Executor.WalkSpec

/-!
# Laswell.Executor.Records

The job's record against what the database has: `S` are the records, `K` the steps whose work is
kept, `U` those whose work is in the open transaction.

* `Records`: a step that reads succeeded has its work kept, or in the open transaction; one that
  reads rolled back has not. It holds whenever `execute` is left, also by an exception.
* `Head`: the same before the step `n`, with nothing recorded from there on. Each thing that can
  come of a step is one lemma.
-/

namespace Laswell
namespace Executor

open Base Jobs

variable {δ : Type}

/-- The steps whose record says what became of their work: those in a group, and those that run
outside of any transaction. A walk may fail with transactions committed, and a verify step with its
reading done. -/
def Step.accountable (step : Step δ) : Bool :=
  match step.txnClass, step.kind with
  | .ownTxnPerBatch _, _ => false
  | .txnForbidden, _ => true
  | .transactional, .verifyIndexValid => false
  | .transactional, _ => true

/-- A verify step that found no index to verify. -/
def NothingToVerify (plan : Plan δ) (n : Nat) : Prop :=
  ∃ step, plan.steps[n]? = some step ∧ step.accountable = false ∧ NoIndex plan.steps n ∧
    ∀ walk, step.txnClass ≠ .ownTxnPerBatch walk

/-- Not accountable: nothing follows from its work being kept. -/
def Unaccountable (plan : Plan δ) (n : Nat) : Prop :=
  ∃ step, plan.steps[n]? = some step ∧ step.accountable = false

structure Records (plan : Plan δ) (S : List StepRecord) (K U : List Nat) : Prop where
  ordered : S.Pairwise fun a b => a.ordinal < b.ordinal
  succeeded : ∀ r ∈ S, r.state = .succeeded →
    r.ordinal ∈ K ∨ r.ordinal ∈ U ∨ NothingToVerify plan r.ordinal
  rolledBack : ∀ r ∈ S, r.state = .rolledBack → r.ordinal ∉ K
  disjoint : ∀ n ∈ U, n ∉ K
  kept : ∀ n ∈ K, Unaccountable plan n ∨ ∃ r ∈ S, r.ordinal = n ∧ r.state = .succeeded

/-- Before the step `n`. `lo` is the first step of the open group. -/
structure Head (plan : Plan δ) (n lo : Nat) (S : List StepRecord) (K U : List Nat) : Prop where
  ordered : S.Pairwise fun a b => a.ordinal < b.ordinal
  below : ∀ r ∈ S, r.ordinal < n
  states : ∀ r ∈ S, r.state = .succeeded ∨ r.state = .skippedSatisfied
  succeeded : ∀ r ∈ S, r.state = .succeeded →
    r.ordinal ∈ K ∨ r.ordinal ∈ U ∨ NothingToVerify plan r.ordinal
  recorded : ∀ m, m ∈ K ∨ m ∈ U → ∃ r ∈ S, r.ordinal = m ∧ r.state = .succeeded
  kept_lt : ∀ m ∈ K, m < lo
  open_ge : ∀ m ∈ U, lo ≤ m

/-- A step that did not succeed, or was not heard of. -/
def Failing (n : Nat) (rs : List StepRecord) : Prop :=
  rs = [] ∨ ∃ state rows, (state = .failed ∨ state = .lockNotAcquired) ∧ rs = [⟨n, state, rows⟩]

section Lemmas

variable {plan : Plan δ} {n lo : Nat} {S : List StepRecord} {K U : List Nat}

theorem Head.records (h : Head plan n lo S K U) : Records plan S K U where
  ordered := h.ordered
  succeeded := h.succeeded
  rolledBack r hr hs := by
    rcases h.states r hr with h' | h' <;> rw [h'] at hs <;> cases hs
  disjoint m hu hk := by
    have := h.kept_lt m hk
    have := h.open_ge m hu
    omega
  kept m hm := .inr (h.recorded m (.inl hm))

theorem ordered_concat (h : S.Pairwise fun a b => a.ordinal < b.ordinal)
    (hlt : ∀ r ∈ S, r.ordinal < n) (state : StepState) (rows : Int) :
    (S ++ [StepRecord.mk n state rows]).Pairwise fun a b => a.ordinal < b.ordinal := by
  rw [List.pairwise_append]
  refine ⟨h, List.pairwise_singleton _ _, fun a ha b hb => ?_⟩
  rw [List.mem_singleton.1 hb]
  exact hlt a ha

/-- The step fails, and something of it may have been kept if it is not accountable. -/
theorem Head.failing (h : Head plan n lo S K U) {rs : List StepRecord} (hrs : Failing n rs)
    {K' : List Nat} (hK : ∀ m ∈ K', m ∈ K ∨ (m = n ∧ Unaccountable plan n ∧ ∀ u ∈ U, u ≠ n))
    (hsub : ∀ m ∈ K, m ∈ K') : Records plan (S ++ rs) K' U := by
  have hnew : ∀ r ∈ rs, r.state ≠ .succeeded ∧ r.state ≠ .rolledBack := by
    intro r hr
    rcases hrs with rfl | ⟨state, rows, hstate, rfl⟩
    · cases hr
    · rw [List.mem_singleton.1 hr]
      rcases hstate with rfl | rfl <;> exact ⟨by simp, by simp⟩
  refine ⟨?_, ?_, ?_, ?_, ?_⟩
  · rcases hrs with rfl | ⟨state, rows, -, rfl⟩
    · rw [List.append_nil]
      exact h.ordered
    · exact ordered_concat h.ordered h.below state rows
  · intro r hr hs
    rcases List.mem_append.1 hr with hr | hr
    · exact (h.succeeded r hr hs).imp_left (hsub _)
    · exact absurd hs (hnew r hr).1
  · intro r hr hs
    rcases List.mem_append.1 hr with hr | hr
    · exact absurd hs (by rcases h.states r hr with h' | h' <;> rw [h'] <;> simp)
    · exact absurd hs (hnew r hr).2
  · intro m hu hk
    rcases hK m hk with hk | ⟨rfl, -, hne⟩
    · exact h.records.disjoint m hu hk
    · exact hne m hu rfl
  · intro m hk
    rcases hK m hk with hk | ⟨rfl, hun, -⟩
    · obtain ⟨r, hr, hrm⟩ := h.recorded m (.inl hk)
      exact .inr ⟨r, List.mem_append_left _ hr, hrm⟩
    · exact .inl hun

/-- The step fails with nothing of it kept. -/
theorem Head.failed (h : Head plan n lo S K U) {rs : List StepRecord} (hrs : Failing n rs) :
    Records plan (S ++ rs) K U :=
  h.failing hrs (fun _ hm => .inl hm) fun _ hm => hm

theorem rollBack_ordinal (r : StepRecord) : (r.rollBack U).ordinal = r.ordinal := by
  rw [StepRecord.rollBack]
  split <;> rfl

/-- Whatever was in the open transaction reads rolled back. -/
theorem Records.rollBack (h : Records plan S K U) :
    Records plan (S.map (StepRecord.rollBack U)) K [] where
  ordered := by
    rw [List.pairwise_map]
    refine h.ordered.imp fun {a b} hab => ?_
    rw [rollBack_ordinal, rollBack_ordinal]
    exact hab
  succeeded r hr hs := by
    obtain ⟨r, hr', rfl⟩ := List.mem_map.1 hr
    rw [rollBack_ordinal]
    rw [StepRecord.rollBack] at hs
    split at hs
    · cases hs
    · rename_i hnot
      rcases h.succeeded r hr' hs with hk | hu | hv
      · exact .inl hk
      · exact absurd ⟨hs, hu⟩ hnot
      · exact .inr (.inr hv)
  rolledBack r hr hs := by
    obtain ⟨r, hr', rfl⟩ := List.mem_map.1 hr
    rw [rollBack_ordinal]
    rw [StepRecord.rollBack] at hs
    split at hs
    · rename_i hu
      exact h.disjoint _ hu.2
    · exact h.rolledBack r hr' hs
  disjoint m hm := by cases hm
  kept m hm := by
    rcases h.kept m hm with hun | ⟨r, hr, rfl, hs⟩
    · exact .inl hun
    · have hnot : ¬ (r.state = .succeeded ∧ r.ordinal ∈ U) := fun hu => h.disjoint _ hu.2 hm
      refine .inr ⟨_, List.mem_map_of_mem hr, ?_, ?_⟩
      · exact rollBack_ordinal r
      · rw [StepRecord.rollBack, if_neg hnot]
        exact hs

/-- A step that is not there, or not to be applied. -/
theorem Head.pass (h : Head plan n lo S K U) : Head plan (n + 1) lo S K U :=
  { h with below := fun r hr => Nat.lt_succ_of_lt (h.below r hr) }

theorem Head.satisfied (h : Head plan n lo S K U) (rows : Int) :
    Head plan (n + 1) lo (S ++ [⟨n, .skippedSatisfied, rows⟩]) K U where
  ordered := ordered_concat h.ordered h.below _ _
  below r hr := by
    rcases List.mem_append.1 hr with hr | hr
    · exact Nat.lt_succ_of_lt (h.below r hr)
    · rw [List.mem_singleton.1 hr]
      exact Nat.lt_succ_self n
  states r hr := by
    rcases List.mem_append.1 hr with hr | hr
    · exact h.states r hr
    · rw [List.mem_singleton.1 hr]
      exact .inr rfl
  succeeded r hr hs := by
    rcases List.mem_append.1 hr with hr | hr
    · exact h.succeeded r hr hs
    · rw [List.mem_singleton.1 hr] at hs
      cases hs
  recorded m hm := by
    obtain ⟨r, hr, hrm⟩ := h.recorded m hm
    exact ⟨r, List.mem_append_left _ hr, hrm⟩
  kept_lt := h.kept_lt
  open_ge := h.open_ge

/-- The step succeeded: its work is kept, or in the open transaction, or there was none to do. -/
theorem Head.succeeds (h : Head plan n lo S K U) (rows : Int) {lo' : Nat} {K' U' : List Nat}
    (hwork : n ∈ K' ∨ n ∈ U' ∨ NothingToVerify plan n)
    (hK : ∀ m ∈ K, m ∈ K') (hU : ∀ m ∈ U, m ∈ U')
    (hK' : ∀ m ∈ K', (m ∈ K ∨ m = n) ∧ m < lo') (hU' : ∀ m ∈ U', (m ∈ U ∨ m = n) ∧ lo' ≤ m) :
    Head plan (n + 1) lo' (S ++ [⟨n, .succeeded, rows⟩]) K' U' where
  ordered := ordered_concat h.ordered h.below _ _
  below r hr := by
    rcases List.mem_append.1 hr with hr | hr
    · exact Nat.lt_succ_of_lt (h.below r hr)
    · rw [List.mem_singleton.1 hr]
      exact Nat.lt_succ_self n
  states r hr := by
    rcases List.mem_append.1 hr with hr | hr
    · exact h.states r hr
    · rw [List.mem_singleton.1 hr]
      exact .inl rfl
  succeeded r hr hs := by
    rcases List.mem_append.1 hr with hr | hr
    · exact (h.succeeded r hr hs).imp (hK _) (Or.imp_left (hU _))
    · rw [List.mem_singleton.1 hr]
      exact hwork
  recorded m hm := by
    have hm' : (m ∈ K ∨ m ∈ U) ∨ m = n := by
      rcases hm with hm | hm
      · exact (hK' m hm).1.imp_left .inl
      · exact (hU' m hm).1.imp_left .inr
    rcases hm' with hm' | rfl
    · obtain ⟨r, hr, hrm⟩ := h.recorded m hm'
      exact ⟨r, List.mem_append_left _ hr, hrm⟩
    · exact ⟨_, List.mem_append_right _ (List.mem_singleton_self _), rfl, rfl⟩
  kept_lt m hm := (hK' m hm).2
  open_ge m hm := (hU' m hm).2

/-- The open group is committed. -/
theorem Head.commits (h : Head plan n lo S K U) : Head plan n n S (K ++ U) [] where
  ordered := h.ordered
  below := h.below
  states := h.states
  succeeded r hr hs := by
    rcases h.succeeded r hr hs with hk | hu | hv
    · exact .inl (List.mem_append_left _ hk)
    · exact .inl (List.mem_append_right _ hu)
    · exact .inr (.inr hv)
  recorded m hm := by
    rcases hm with hm | hm
    · exact h.recorded m (List.mem_append.1 hm)
    · cases hm
  kept_lt m hm := by
    obtain ⟨r, hr, rfl, -⟩ := h.recorded m (List.mem_append.1 hm)
    exact h.below r hr
  open_ge m hm := by cases hm

/-- The group is rolled back, and forgotten from its first step on. -/
theorem Head.forgets (h : Head plan n lo S K U) : Head plan lo lo
    ((S.map (StepRecord.rollBack U)).filter fun r => !decide (lo ≤ r.ordinal)) K [] := by
  -- a record before the group is not one of the open transaction
  have hsame : ∀ r ∈ S, r.ordinal < lo → r.rollBack U = r := by
    intro r hr hlt
    rw [StepRecord.rollBack, if_neg]
    rintro ⟨-, hu⟩
    have := h.open_ge _ hu
    omega
  have hmem : ∀ r, r ∈ (S.map (StepRecord.rollBack U)).filter (fun r => !decide (lo ≤ r.ordinal)) ↔
      r ∈ S ∧ r.ordinal < lo := by
    intro r
    simp only [List.mem_filter, List.mem_map, Bool.not_eq_eq_eq_not, Bool.not_true,
      decide_eq_false_iff_not, Nat.not_le]
    constructor
    · rintro ⟨⟨r, hr, rfl⟩, hlt⟩
      rw [rollBack_ordinal] at hlt
      rw [hsame r hr hlt]
      exact ⟨hr, hlt⟩
    · rintro ⟨hr, hlt⟩
      exact ⟨⟨r, hr, hsame r hr hlt⟩, hlt⟩
  refine ⟨h.records.rollBack.ordered.filter _, ?_, ?_, ?_, ?_, h.kept_lt, ?_⟩
  · intro r hr
    exact ((hmem r).1 hr).2
  · intro r hr
    exact h.states r ((hmem r).1 hr).1
  · intro r hr hs
    obtain ⟨hr, hlt⟩ := (hmem r).1 hr
    rcases h.succeeded r hr hs with hk | hu | hv
    · exact .inl hk
    · have := h.open_ge _ hu
      omega
    · exact .inr (.inr hv)
  · intro m hm
    rcases hm with hm | hm
    · obtain ⟨r, hr, rfl, hs⟩ := h.recorded m (.inl hm)
      exact ⟨r, (hmem r).2 ⟨hr, h.kept_lt _ hm⟩, rfl, hs⟩
    · cases hm
  · intro m hm
    cases hm

end Lemmas

end Executor
end Laswell
