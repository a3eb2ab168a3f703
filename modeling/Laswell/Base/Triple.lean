import Laswell.Base.Prog

/-!
# Laswell.Base.Triple

Triples for programs: `Prog.Triple E P p Q` says that `p`, run from a state in `P`, returns only
into `Q` and throws only what `E` allows. Nothing is said of the state an exception leaves, so a
handler starts from any.
-/

namespace Laswell
namespace Base
namespace Prog

variable {σ ε α β γ : Type}

def Triple (E : ε → Prop) (P : σ → Prop) (p : Prog σ ε α) (Q : α → σ → Prop) : Prop :=
  ∀ s, P s → p.Wp (fun o s' =>
    match o with
    | .ok a => Q a s'
    | .err e => E e
    | .out => True) s

section

variable {E : ε → Prop} {P P' : σ → Prop} {Q Q' : α → σ → Prop}

theorem Triple.pre {p : Prog σ ε α} (h : Triple E P p Q) (hP : ∀ s, P' s → P s) :
    Triple E P' p Q := fun s hs => h s (hP s hs)

theorem Triple.post {p : Prog σ ε α} (h : Triple E P p Q) (hQ : ∀ a s, Q a s → Q' a s) :
    Triple E P p Q' := by
  intro s hs
  refine (h s hs).mono fun o s' ho => ?_
  cases o with
  | ok a => exact hQ a s' ho
  | err e => exact ho
  | out => trivial

theorem triple_pure {a : α} (h : ∀ s, P s → Q a s) : Triple E P (Pure.pure a : Prog σ ε α) Q := h

theorem triple_throw {e : ε} (h : E e) : Triple E P (throw e : Prog σ ε α) Q := fun _ _ => h

theorem triple_gets {f : σ → α} (h : ∀ s, P s → Q (f s) s) :
    Triple E P (gets f : Prog σ ε α) Q := h

theorem triple_modify {f : σ → σ} {Q : Unit → σ → Prop} (h : ∀ s, P s → Q () (f s)) :
    Triple E P (modify f : Prog σ ε Unit) Q := h

theorem triple_bind {p : Prog σ ε α} {f : α → Prog σ ε β} {R : α → σ → Prop}
    {Q : β → σ → Prop} (hp : Triple E P p R) (hf : ∀ a, Triple E (R a) (f a) Q) :
    Triple E P (p >>= f) Q := by
  intro s hs
  rw [wp_bind]
  refine (hp s hs).mono fun o s' ho => ?_
  cases o with
  | ok a => exact hf a s' ho
  | err e => exact ho
  | out => trivial

theorem triple_ite {c : Prop} [Decidable c] {p q : Prog σ ε α} (hp : c → Triple E P p Q)
    (hq : ¬ c → Triple E P q Q) : Triple E P (if c then p else q) Q := by
  split
  · exact hp ‹_›
  · exact hq ‹_›

theorem triple_tryCatch {p : Prog σ ε α} {h : ε → Prog σ ε α} (hp : Triple E P p Q)
    (hh : ∀ e, E e → Triple E (fun _ => True) (h e) Q) : Triple E P (tryCatch p h) Q := by
  intro s hs
  rw [wp_tryCatch]
  refine (hp s hs).mono fun o s' ho => ?_
  cases o with
  | ok a => exact ho
  | err e => exact hh e ho s' trivial
  | out => trivial

theorem triple_leaving {p : Prog σ ε α} {f : σ → σ} (hp : Triple E P p Q)
    (hf : ∀ a s, Q a s → Q' a (f s)) : Triple E P (leaving p f) Q' := by
  intro s hs
  rw [wp_leaving]
  refine (hp s hs).mono fun o s' ho => ?_
  cases o with
  | ok a => exact hf a s' ho
  | err e => exact ho
  | out => trivial

theorem triple_loop {body : β → Prog σ ε (β ⊕ γ)} {I : β → σ → Prop} {Q : γ → σ → Prop}
    (hbody : ∀ b, Triple E (I b) (body b) fun r s => r.elim (fun b' => I b' s) (Q · s))
    (fuel : Nat) (b : β) : Triple E (I b) (loop body fuel b) Q := by
  intro s hs
  refine wp_loop I (fun _ _ _ => trivial) (fun b s hb => ?_) fuel b s hs
  refine (hbody b s hb).mono fun o s' ho => ?_
  match o with
  | .ok (.inl b') => exact ho
  | .ok (.inr c) => exact ho
  | .err e => exact ho
  | .out => trivial

end

end Prog
end Base
end Laswell
