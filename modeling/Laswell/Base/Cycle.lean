import Mathlib.Data.Fintype.Card
import Mathlib.Data.Set.Finite.List
import Mathlib.Order.WellFounded
import Mathlib.Logic.Relation

/-!
# Laswell.Base.Cycle

A relation among finitely many nodes in which every node has a successor has a cycle.

* `Cyclic`: a path of one edge or more, inside the nodes, that ends where it began.
* `cyclic_of_successors`: the pigeonhole argument.
-/

namespace Laswell
namespace Base

section Cycle

variable {α : Type} (nodes : List α) (r : α → α → Prop)

/-- An edge from one of the nodes to one of them. -/
def EdgeInside (a b : α) : Prop := a ∈ nodes ∧ b ∈ nodes ∧ r a b

def Cyclic : Prop := ∃ n ∈ nodes, Relation.TransGen (EdgeInside nodes r) n n

variable {nodes r}

/-- Going on from successor to successor, a finite list is left nowhere. -/
theorem cyclic_of_successors (hne : nodes ≠ []) (h : ∀ a ∈ nodes, ∃ b ∈ nodes, r a b) :
    Cyclic nodes r := by
  by_contra hc
  have : Finite {a // a ∈ nodes} := nodes.finite_toSet
  -- without a cycle, reachability is an order on the nodes, and a finite order has a last node
  let after : {a // a ∈ nodes} → {a // a ∈ nodes} → Prop :=
    fun a b => Relation.TransGen (EdgeInside nodes r) b.1 a.1
  have htrans : IsTrans _ after := ⟨fun _ _ _ hab hbc => hbc.trans hab⟩
  have hirrefl : Std.Irrefl after := ⟨fun a ha => hc ⟨a.1, a.2, ha⟩⟩
  have hwf : WellFounded after := Finite.wellFounded_of_trans_of_irrefl after
  obtain ⟨a, ha⟩ := List.exists_mem_of_ne_nil nodes hne
  obtain ⟨last, -, hlast⟩ := hwf.has_min Set.univ ⟨⟨a, ha⟩, trivial⟩
  obtain ⟨b, hb, hab⟩ := h last.1 last.2
  exact hlast ⟨b, hb⟩ trivial (.single ⟨last.2, hb, hab⟩)

end Cycle

end Base
end Laswell
