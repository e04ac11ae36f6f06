import RedisDb.Lib.Program

/-!
# Programs side by side

`p.Couples I J A q` compares two programs, which may be over different states and throw different
exceptions. Whenever `I` relates the states they start from and `p` has an outcome, `p` returns a
value, `q` has an outcome too and returns a value, `A` relates the two values, and `J` relates the
states the two have reached. So what `p` does can be done by `q`, in step with it.

The rules follow the operations of a program: two programs of one shape are coupled by coupling their
parts. `Couples.bind` is the rule that carries the relation of the states from one part to the next.
-/

namespace Program

variable {σ σ' ε ε' α α' β β' : Type} {R : σ → σ → Prop} {R' : σ' → σ' → Prop}

/-- From states that `I` relates, `q` keeps step with `p`. -/
def Couples (I J : σ → σ' → Prop) (A : α → α' → Prop) (p : Program R ε α)
    (q : Program R' ε' α') : Prop :=
  ∀ s s', I s s' → ∀ r t, p.run s = some (r, t) →
    ∃ a a' t', r = .ok a ∧ q.run s' = some (.ok a', t') ∧ A a a' ∧ J t t'

variable {I J K : σ → σ' → Prop} {A : α → α' → Prop} {B : β → β' → Prop}

namespace Couples

/-- Two changes of the state: the second is defined where the first is. -/
theorem step {f : σ → Option (α × σ)} {f' : σ' → Option (α' × σ')}
    {h : ∀ s a t, f s = some (a, t) → R s t} {h' : ∀ s a t, f' s = some (a, t) → R' s t}
    (hstep : ∀ s s', I s s' → ∀ a t, f s = some (a, t) →
      ∃ a' t', f' s' = some (a', t') ∧ A a a' ∧ J t t') :
    (step f h : Program R ε α).Couples I J A (step f' h' : Program R' ε' α') := by
  intro s s' hs r t hrun
  obtain ⟨⟨a, t₁⟩, hf, heq⟩ := Option.map_eq_some_iff.mp hrun
  obtain ⟨rfl, rfl⟩ := Prod.mk.inj heq
  obtain ⟨a', t', hf', ha, ht⟩ := hstep s s' hs a t₁ hf
  exact ⟨a, a', t', rfl, by rw [run_step, hf']; rfl, ha, ht⟩

/-- The branches, in pairs, each where it is taken. -/
theorem ite {c : Prop} [Decidable c] {p₁ p₂ : Program R ε α} {q₁ q₂ : Program R' ε' α'}
    (h₁ : c → p₁.Couples I J A q₁) (h₂ : ¬c → p₂.Couples I J A q₂) :
    (if c then p₁ else p₂).Couples I J A (if c then q₁ else q₂) := by
  split
  · next hc => exact h₁ hc
  · next hc => exact h₂ hc

section Monad

variable [IsPreorder σ R] [IsPreorder σ' R']

/-- Two values that are related. -/
theorem pure {a : α} {a' : α'} (h : A a a') :
    (pure a : Program R ε α).Couples I I A (pure a' : Program R' ε' α') := by
  intro s s' hs r t hrun
  obtain ⟨rfl, rfl⟩ := Prod.mk.inj (Option.some.inj hrun)
  exact ⟨a, a', s', rfl, rfl, h, hs⟩

/-- Neither is an exception. -/
theorem ofExcept {x : Except ε α} {x' : Except ε' α'}
    (h : ∃ a a', x = .ok a ∧ x' = .ok a' ∧ A a a') :
    (ofExcept x : Program R ε α).Couples I I A (ofExcept x' : Program R' ε' α') := by
  obtain ⟨a, a', rfl, rfl, ha⟩ := h
  exact pure ha

/-- There is a second value where there is a first. -/
theorem ofOption {x : Option α} {x' : Option α'} (h : ∀ a, x = some a → ∃ a', x' = some a' ∧ A a a') :
    (ofOption x : Program R ε α).Couples I I A (ofOption x' : Program R' ε' α') := by
  intro s s' hs r t hrun
  obtain ⟨a, hx, heq⟩ := Option.map_eq_some_iff.mp hrun
  obtain ⟨rfl, rfl⟩ := Prod.mk.inj heq
  obtain ⟨a', rfl, ha⟩ := h a hx
  exact ⟨a, a', s', rfl, rfl, ha, hs⟩

/-- **One part after the other.** -/
theorem bind {p : Program R ε α} {q : Program R' ε' α'} {f : α → Program R ε β}
    {g : α' → Program R' ε' β'} (h : p.Couples I J A q)
    (hf : ∀ a a', A a a' → (f a).Couples J K B (g a')) : (p >>= f).Couples I K B (q >>= g) := by
  intro s s' hs r u hrun
  rw [run_bind] at hrun
  cases hp : p.run s with
  | none => rw [hp] at hrun; cases hrun
  | some x =>
    obtain ⟨r₁, t⟩ := x
    obtain ⟨a, a', t', rfl, hrun', ha, ht⟩ := h s s' hs r₁ t hp
    rw [hp] at hrun
    obtain ⟨b, b', u', hr, hrun'', hb, hu⟩ := hf a a' ha t t' ht r u hrun
    exact ⟨b, b', u', hr, by rw [run_bind_ok hrun', hrun''], hb, hu⟩

/-- **The loop rule**: what every turn keeps is kept by the loop. By induction on the elements. -/
theorem foldlM {γ : Type} {body : β → γ → Program R ε β} {body' : β' → γ → Program R' ε' β'}
    (xs : List γ) (hbody : ∀ x ∈ xs, ∀ b b', B b b' → (body b x).Couples I I B (body' b' x)) :
    ∀ {b b'}, B b b' → (xs.foldlM body b : Program R ε β).Couples I I B
      (xs.foldlM body' b' : Program R' ε' β') := by
  induction xs with
  | nil => exact fun hb => pure hb
  | cons x xs ih =>
    intro b b' hb
    rw [List.foldlM_cons, List.foldlM_cons]
    exact bind (hbody x List.mem_cons_self b b' hb) fun _ _ =>
      ih fun y hy => hbody y (List.mem_cons_of_mem x hy)

end Monad

end Couples

end Program
