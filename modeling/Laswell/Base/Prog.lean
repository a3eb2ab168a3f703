import Mathlib.Data.List.Basic

/-!
# Laswell.Base.Prog

Programs with a state and exceptions. An exception keeps the state it was thrown in, a handler
goes on from there, and a loop runs on fuel: `out` is a run that was cut short, which no handler
catches.

* `Prog.Wp p Q s`: run from `s`, `p` ends in an outcome and a state that satisfy `Q`.
* `Prog.Keeps I p`: `p` keeps the invariant `I`, whatever its outcome.
* `Prog.Safe I p`: `p` keeps `I` and is not cut short.
* `Prog.Relates R p`: two runs of `p` from related states come to the same outcome, in related
  states.
* `Prog.Ends p Q s`: given enough fuel, `p` returns from `s`, always the same, and `Q` holds of it.

Each has a rule for each way of composing programs; the rules of `Wp` are equations and simp
lemmas, so straight-line code is run symbolically.
-/

namespace Laswell
namespace Base

inductive Outcome (ε α : Type) where
  | ok (a : α)
  | err (e : ε)
  | out
  deriving DecidableEq

def Prog (σ ε α : Type) : Type := σ → Outcome ε α × σ

namespace Prog

variable {σ ε α β γ : Type}

def pure (a : α) : Prog σ ε α := fun s => (.ok a, s)

def bind (p : Prog σ ε α) (f : α → Prog σ ε β) : Prog σ ε β := fun s =>
  match p s with
  | (.ok a, s') => f a s'
  | (.err e, s') => (.err e, s')
  | (.out, s') => (.out, s')

instance : Monad (Prog σ ε) where
  pure := pure
  bind := bind

def gets (f : σ → α) : Prog σ ε α := fun s => (.ok (f s), s)

def modify (f : σ → σ) : Prog σ ε Unit := fun s => (.ok (), f s)

def throw (e : ε) : Prog σ ε α := fun s => (.err e, s)

def stopped : Prog σ ε α := fun s => (.out, s)

def tryCatch (p : Prog σ ε α) (h : ε → Prog σ ε α) : Prog σ ε α := fun s =>
  match p s with
  | (.ok a, s') => (.ok a, s')
  | (.err e, s') => h e s'
  | (.out, s') => (.out, s')

/-- A scope guard: `f` is run when `p` returns and when it throws. -/
def leaving (p : Prog σ ε α) (f : σ → σ) : Prog σ ε α := fun s => ((p s).1, f (p s).2)

/-- `body` is run again on each `inl` it returns, and the loop ends with its first `inr`. -/
def loop (body : β → Prog σ ε (β ⊕ γ)) : Nat → β → Prog σ ε γ
  | 0, _ => stopped
  | fuel + 1, b => body b >>= fun
    | .inl b' => loop body fuel b'
    | .inr c => pure c

theorem bind_ok {p : Prog σ ε α} {f : α → Prog σ ε β} {s s' : σ} {a : α} (h : p s = (.ok a, s')) :
    (p >>= f) s = f a s' := by
  change bind p f s = _
  rw [bind, h]

theorem bind_err {p : Prog σ ε α} {f : α → Prog σ ε β} {s s' : σ} {e : ε} (h : p s = (.err e, s')) :
    (p >>= f) s = (.err e, s') := by
  change bind p f s = _
  rw [bind, h]

theorem bind_out {p : Prog σ ε α} {f : α → Prog σ ε β} {s s' : σ} (h : p s = (.out, s')) :
    (p >>= f) s = (.out, s') := by
  change bind p f s = _
  rw [bind, h]

theorem bind_gets {f : σ → α} {g : α → Prog σ ε β} {s : σ} : (gets f >>= g) s = g (f s) s := rfl

theorem bind_modify {f : σ → σ} {g : Unit → Prog σ ε β} {s : σ} :
    (modify f >>= g) s = g () (f s) := rfl

theorem bind_assoc (p : Prog σ ε α) (f : α → Prog σ ε β) (g : β → Prog σ ε γ) :
    (p >>= f) >>= g = p >>= fun a => f a >>= g := by
  funext s
  change bind (bind p f) g s = bind p (fun a => bind (f a) g) s
  rcases h : p s with ⟨o, s'⟩
  cases o <;> simp [bind, h]

/-! ## Weakest preconditions -/

def Wp (p : Prog σ ε α) (Q : Outcome ε α → σ → Prop) (s : σ) : Prop := Q (p s).1 (p s).2

/-- What has to hold after the first of two programs. -/
def andThen (f : α → Prog σ ε β) (Q : Outcome ε β → σ → Prop) : Outcome ε α → σ → Prop
  | .ok a, s => (f a).Wp Q s
  | .err e, s => Q (.err e) s
  | .out, s => Q .out s

/-- What has to hold before a handler. -/
def orCatch (h : ε → Prog σ ε α) (Q : Outcome ε α → σ → Prop) : Outcome ε α → σ → Prop
  | .ok a, s => Q (.ok a) s
  | .err e, s => (h e).Wp Q s
  | .out, s => Q .out s

section Wp

variable {Q : Outcome ε α → σ → Prop} {s : σ}

@[simp] theorem wp_pure {a : α} : (Pure.pure a : Prog σ ε α).Wp Q s ↔ Q (.ok a) s := Iff.rfl

@[simp] theorem wp_throw {e : ε} : (throw e : Prog σ ε α).Wp Q s ↔ Q (.err e) s := Iff.rfl

@[simp] theorem wp_stopped : (stopped : Prog σ ε α).Wp Q s ↔ Q .out s := Iff.rfl

@[simp] theorem wp_gets {f : σ → α} : (gets f).Wp Q s ↔ Q (.ok (f s)) s := Iff.rfl

@[simp] theorem wp_modify {f : σ → σ} {Q : Outcome ε Unit → σ → Prop} :
    (modify f).Wp Q s ↔ Q (.ok ()) (f s) := Iff.rfl

@[simp] theorem wp_bind {p : Prog σ ε α} {f : α → Prog σ ε β} {Q : Outcome ε β → σ → Prop} :
    (p >>= f).Wp Q s ↔ p.Wp (andThen f Q) s := by
  change Q (bind p f s).1 (bind p f s).2 ↔ andThen f Q (p s).1 (p s).2
  rcases h : p s with ⟨o, s'⟩
  cases o <;> simp [bind, h, andThen, Wp]

@[simp] theorem wp_tryCatch {p : Prog σ ε α} {h : ε → Prog σ ε α} :
    (tryCatch p h).Wp Q s ↔ p.Wp (orCatch h Q) s := by
  change Q (tryCatch p h s).1 (tryCatch p h s).2 ↔ orCatch h Q (p s).1 (p s).2
  rcases hp : p s with ⟨o, s'⟩
  cases o <;> simp [tryCatch, hp, orCatch, Wp]

@[simp] theorem wp_leaving {p : Prog σ ε α} {f : σ → σ} :
    (leaving p f).Wp Q s ↔ p.Wp (fun o s' => Q o (f s')) s := Iff.rfl

@[simp] theorem andThen_ok {f : α → Prog σ ε β} {Q : Outcome ε β → σ → Prop} {a : α} :
    andThen f Q (.ok a) s ↔ (f a).Wp Q s := Iff.rfl

@[simp] theorem andThen_err {f : α → Prog σ ε β} {Q : Outcome ε β → σ → Prop} {e : ε} :
    andThen f Q (.err e) s ↔ Q (.err e) s := Iff.rfl

@[simp] theorem andThen_out {f : α → Prog σ ε β} {Q : Outcome ε β → σ → Prop} :
    andThen f Q .out s ↔ Q .out s := Iff.rfl

@[simp] theorem orCatch_ok {h : ε → Prog σ ε α} {a : α} :
    orCatch h Q (.ok a) s ↔ Q (.ok a) s := Iff.rfl

@[simp] theorem orCatch_err {h : ε → Prog σ ε α} {e : ε} :
    orCatch h Q (.err e) s ↔ (h e).Wp Q s := Iff.rfl

@[simp] theorem orCatch_out {h : ε → Prog σ ε α} : orCatch h Q .out s ↔ Q .out s := Iff.rfl

/-- The rule of consequence: what a callee is known to do, put in place of its body. -/
theorem Wp.mono {p : Prog σ ε α} {Q' : Outcome ε α → σ → Prop} (h : p.Wp Q s)
    (hq : ∀ o s', Q o s' → Q' o s') : p.Wp Q' s := hq _ _ h

/-- The loop rule: `I` holds each time round, and where fuel runs out. -/
theorem wp_loop {body : β → Prog σ ε (β ⊕ γ)} {Q : Outcome ε γ → σ → Prop} (I : β → σ → Prop)
    (hout : ∀ b s, I b s → Q .out s)
    (hbody : ∀ b s, I b s → (body b).Wp (fun o s' =>
      match o with
      | .ok (.inl b') => I b' s'
      | .ok (.inr c) => Q (.ok c) s'
      | .err e => Q (.err e) s'
      | .out => Q .out s') s) :
    ∀ fuel b s, I b s → (loop body fuel b).Wp Q s := by
  intro fuel
  induction fuel with
  | zero =>
    intro b s h
    exact hout b s h
  | succ fuel ih =>
    intro b s h
    rw [loop, wp_bind]
    refine (hbody b s h).mono ?_
    intro o s' ho
    match o with
    | .ok (.inl b') => exact ih b' s' ho
    | .ok (.inr c) => exact ho
    | .err e => exact ho
    | .out => exact ho

end Wp

/-! ## Invariants -/

/-- `p` keeps `I`, whatever comes of it. -/
def Keeps (I : σ → Prop) (p : Prog σ ε α) : Prop := ∀ s, I s → I (p s).2

section Keeps

variable {I : σ → Prop}

theorem Keeps.wp {p : Prog σ ε α} (h : Keeps I p) {s : σ} (hs : I s) : p.Wp (fun _ => I) s :=
  h s hs

theorem Keeps.of_wp {p : Prog σ ε α} (h : ∀ s, I s → p.Wp (fun _ => I) s) : Keeps I p := h

theorem keeps_pure {a : α} : Keeps I (Pure.pure a : Prog σ ε α) := fun _ hs => hs

theorem keeps_gets {f : σ → α} : Keeps I (gets f : Prog σ ε α) := fun _ hs => hs

theorem keeps_throw {e : ε} : Keeps I (throw e : Prog σ ε α) := fun _ hs => hs

theorem keeps_modify {f : σ → σ} (h : ∀ s, I s → I (f s)) : Keeps I (modify f : Prog σ ε Unit) :=
  h

theorem keeps_bind {p : Prog σ ε α} {f : α → Prog σ ε β} (hp : Keeps I p)
    (hf : ∀ a, Keeps I (f a)) : Keeps I (p >>= f) := by
  refine Keeps.of_wp fun s hs => ?_
  rw [wp_bind]
  refine (hp.wp hs).mono fun o s' hs' => ?_
  cases o with
  | ok a => exact hf a s' hs'
  | err e => exact hs'
  | out => exact hs'

theorem keeps_tryCatch {p : Prog σ ε α} {h : ε → Prog σ ε α} (hp : Keeps I p)
    (hh : ∀ e, Keeps I (h e)) : Keeps I (tryCatch p h) := by
  refine Keeps.of_wp fun s hs => ?_
  rw [wp_tryCatch]
  refine (hp.wp hs).mono fun o s' hs' => ?_
  cases o with
  | ok a => exact hs'
  | err e => exact hh e s' hs'
  | out => exact hs'

theorem keeps_leaving {p : Prog σ ε α} {f : σ → σ} (hp : Keeps I p) (hf : ∀ s, I s → I (f s)) :
    Keeps I (leaving p f) := fun s hs => hf _ (hp s hs)

theorem keeps_ite {c : Prop} [Decidable c] {p q : Prog σ ε α} (hp : c → Keeps I p)
    (hq : ¬ c → Keeps I q) : Keeps I (if c then p else q) := by
  split
  · exact hp ‹_›
  · exact hq ‹_›

theorem keeps_loop {body : β → Prog σ ε (β ⊕ γ)} (hbody : ∀ b, Keeps I (body b)) (fuel : Nat)
    (b : β) : Keeps I (loop body fuel b) := by
  induction fuel generalizing b with
  | zero => exact fun _ hs => hs
  | succ fuel ih =>
    refine keeps_bind (hbody b) fun r => ?_
    cases r with
    | inl b' => exact ih b'
    | inr c => exact keeps_pure

end Keeps

/-! ## Invariants of programs that end -/

/-- `p` keeps `I`, whatever comes of it, and returns or throws. -/
def Safe (I : σ → Prop) (p : Prog σ ε α) : Prop := ∀ s, I s → (p s).1 ≠ .out ∧ I (p s).2

section Safe

variable {I : σ → Prop}

theorem Safe.wp {p : Prog σ ε α} (h : Safe I p) {s : σ} (hs : I s) :
    p.Wp (fun o s' => o ≠ .out ∧ I s') s := h s hs

theorem Safe.of_wp {p : Prog σ ε α} (h : ∀ s, I s → p.Wp (fun o s' => o ≠ .out ∧ I s') s) :
    Safe I p := h

theorem safe_pure {a : α} : Safe I (Pure.pure a : Prog σ ε α) := fun _ hs => ⟨nofun, hs⟩

theorem safe_gets {f : σ → α} : Safe I (gets f : Prog σ ε α) := fun _ hs => ⟨nofun, hs⟩

theorem safe_throw {e : ε} : Safe I (throw e : Prog σ ε α) := fun _ hs => ⟨nofun, hs⟩

theorem safe_modify {f : σ → σ} (h : ∀ s, I s → I (f s)) : Safe I (modify f : Prog σ ε Unit) :=
  fun s hs => ⟨nofun, h s hs⟩

theorem safe_bind {p : Prog σ ε α} {f : α → Prog σ ε β} (hp : Safe I p)
    (hf : ∀ a, Safe I (f a)) : Safe I (p >>= f) := by
  refine Safe.of_wp fun s hs => ?_
  rw [wp_bind]
  refine (hp.wp hs).mono fun o s' hs' => ?_
  cases o with
  | ok a => exact hf a s' hs'.2
  | err e => exact ⟨nofun, hs'.2⟩
  | out => exact absurd rfl hs'.1

theorem safe_tryCatch {p : Prog σ ε α} {h : ε → Prog σ ε α} (hp : Safe I p)
    (hh : ∀ e, Safe I (h e)) : Safe I (tryCatch p h) := by
  refine Safe.of_wp fun s hs => ?_
  rw [wp_tryCatch]
  refine (hp.wp hs).mono fun o s' hs' => ?_
  cases o with
  | ok a => exact ⟨nofun, hs'.2⟩
  | err e => exact hh e s' hs'.2
  | out => exact absurd rfl hs'.1

theorem safe_ite {c : Prop} [Decidable c] {p q : Prog σ ε α} (hp : c → Safe I p)
    (hq : ¬ c → Safe I q) : Safe I (if c then p else q) := by
  split
  · exact hp ‹_›
  · exact hq ‹_›

end Safe

/-! ## Two runs side by side -/

def Relates (R : σ → σ → Prop) (p : Prog σ ε α) : Prop :=
  ∀ s s', R s s' → (p s).1 = (p s').1 ∧ R (p s).2 (p s').2

section Relates

variable {R : σ → σ → Prop}

theorem relates_pure {a : α} : Relates R (Pure.pure a : Prog σ ε α) := fun _ _ h => ⟨rfl, h⟩

theorem relates_throw {e : ε} : Relates R (throw e : Prog σ ε α) := fun _ _ h => ⟨rfl, h⟩

theorem relates_gets {f : σ → α} (hf : ∀ s s', R s s' → f s = f s') :
    Relates R (gets f : Prog σ ε α) := fun s s' h => ⟨congrArg Outcome.ok (hf s s' h), h⟩

theorem relates_modify {f : σ → σ} (hf : ∀ s s', R s s' → R (f s) (f s')) :
    Relates R (modify f : Prog σ ε Unit) := fun s s' h => ⟨rfl, hf s s' h⟩

theorem relates_bind {p : Prog σ ε α} {f : α → Prog σ ε β} (hp : Relates R p)
    (hf : ∀ a, Relates R (f a)) : Relates R (p >>= f) := by
  intro s s' h
  obtain ⟨ho, hs⟩ := hp s s' h
  change (bind p f s).1 = (bind p f s').1 ∧ R (bind p f s).2 (bind p f s').2
  rcases hs1 : p s with ⟨o, t⟩
  rcases hs2 : p s' with ⟨o', t'⟩
  rw [hs1, hs2] at ho hs
  dsimp only at ho hs
  subst ho
  cases o with
  | ok a => simpa [bind, hs1, hs2] using hf a t t' hs
  | err e => simpa [bind, hs1, hs2] using hs
  | out => simpa [bind, hs1, hs2] using hs

theorem relates_ite {c : Prop} [Decidable c] {p q : Prog σ ε α} (hp : Relates R p)
    (hq : Relates R q) : Relates R (if c then p else q) := by
  split
  · exact hp
  · exact hq

end Relates

/-! ## Enough fuel -/

/-- `p` of all large enough amounts of fuel returns one value in one state, which satisfy `Q`. -/
def Ends (p : Nat → Prog σ ε α) (Q : α → σ → Prop) (s : σ) : Prop :=
  ∃ a s' enough, (∀ fuel, enough ≤ fuel → p fuel s = (.ok a, s')) ∧ Q a s'

section Ends

variable {Q : α → σ → Prop} {s : σ}

theorem ends_of_eq {p : Prog σ ε α} {a : α} {s' : σ} (h : p s = (.ok a, s')) (hq : Q a s') :
    Ends (fun _ => p) Q s := ⟨a, s', 0, fun _ _ => h, hq⟩

theorem ends_pure {a : α} (h : Q a s) : Ends (fun _ => (Pure.pure a : Prog σ ε α)) Q s :=
  ends_of_eq rfl h

theorem Ends.mono {p : Nat → Prog σ ε α} {Q' : α → σ → Prop} (h : Ends p Q s)
    (hq : ∀ a s', Q a s' → Q' a s') : Ends p Q' s := by
  obtain ⟨a, s', enough, hp, hs⟩ := h
  exact ⟨a, s', enough, hp, hq a s' hs⟩

theorem ends_bind {p : Nat → Prog σ ε α} {f : Nat → α → Prog σ ε β} {Q' : β → σ → Prop}
    (h : Ends p (fun a s' => Ends (fun fuel => f fuel a) Q' s') s) :
    Ends (fun fuel => p fuel >>= f fuel) Q' s := by
  obtain ⟨a, s', m, hp, b, s'', n, hf, hq⟩ := h
  refine ⟨b, s'', max m n, fun fuel hle => ?_, hq⟩
  change bind (p fuel) (f fuel) s = _
  rw [bind, hp fuel (by omega)]
  exact hf fuel (by omega)

/-- The loop rule: each time round something well-founded goes down. -/
theorem ends_loop {body : Nat → β → Prog σ ε (β ⊕ γ)} {Q : γ → σ → Prop} (I : β → σ → Prop)
    {ι : Type} {r : ι → ι → Prop} (hwf : WellFounded r) (size : β → σ → ι)
    (hbody : ∀ b s, I b s → Ends (fun fuel => body fuel b) (fun x s' =>
      x.elim (fun b' => I b' s' ∧ r (size b' s') (size b s)) (Q · s')) s) {b : β} (h : I b s) :
    Ends (fun fuel => loop (body fuel) fuel b) Q s := by
  -- the fuel of the body and that of the loop go down apart
  have hloop : ∀ i b s, size b s = i → I b s → ∃ c s' enough,
      (∀ fuel n, enough ≤ fuel → enough ≤ n → loop (body fuel) n b s = (.ok c, s')) ∧ Q c s' := by
    intro i
    induction i using hwf.induction with
    | _ i ih =>
      rintro b s rfl hb
      obtain ⟨x, s', m, hx, hq⟩ := hbody b s hb
      dsimp only at hx
      cases x with
      | inr c =>
        refine ⟨c, s', m + 1, fun fuel n hf hn => ?_, hq⟩
        obtain ⟨n, rfl⟩ : ∃ k, n = k + 1 := ⟨n - 1, by omega⟩
        change bind (body fuel b) _ s = _
        rw [bind, hx fuel (by omega)]
        rfl
      | inl b' =>
        obtain ⟨c, s'', k, hk, hq'⟩ := ih _ hq.2 b' s' rfl hq.1
        refine ⟨c, s'', max m k + 1, fun fuel n hf hn => ?_, hq'⟩
        obtain ⟨n, rfl⟩ : ∃ k, n = k + 1 := ⟨n - 1, by omega⟩
        change bind (body fuel b) _ s = _
        rw [bind, hx fuel (by omega)]
        exact hk fuel n (by omega) (by omega)
  obtain ⟨c, s', enough, hc, hq⟩ := hloop _ b s rfl h
  exact ⟨c, s', enough, fun fuel hf => hc fuel fuel hf hf, hq⟩

end Ends

end Prog

end Base
end Laswell
