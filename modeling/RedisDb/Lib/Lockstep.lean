import RedisDb.Lib.Program

/-!
# Programs in lockstep

`p.Lockstep I J A q` compares two programs, which may be over different states. From states that `I`
relates, either neither has an outcome, or both have: both throw the same exception, or both return, and
then `A` relates the two values. `J` relates the states that they have reached in any case. So neither
program does anything that the other does not do too, as far as the relations look.

With relations that leave something of the state out, that a program keeps step with itself says that it
does not depend on what is left out.
-/

namespace Option.Rel

variable {α α' β β' : Type} {P : α → α' → Prop} {Q : β → β' → Prop} {x : Option α} {x' : Option α'}

/-- Two computations that may be undefined, one after the other. -/
theorem bind {f : α → Option β} {f' : α' → Option β'} (h : Option.Rel P x x')
    (hf : ∀ a a', P a a' → Option.Rel Q (f a) (f' a')) : Option.Rel Q (x.bind f) (x'.bind f') := by
  cases h with
  | none => exact .none
  | some ha => exact hf _ _ ha

/-- A value, where there is one, is changed on both sides. -/
theorem map {f : α → β} {f' : α' → β'} (h : Option.Rel P x x') (hf : ∀ a a', P a a' → Q (f a) (f' a')) :
    Option.Rel Q (x.map f) (x'.map f') := by
  cases h with
  | none => exact .none
  | some ha => exact .some (hf _ _ ha)

end Option.Rel

namespace Program

variable {σ σ' ε ε' α α' β β' γ : Type} {R Q : σ → σ → Prop} {R' Q' : σ' → σ' → Prop}

/-- Two outcomes are the same, up to relations on the values and on the states. -/
inductive SameOutcome (A : α → α' → Prop) (J : σ → σ' → Prop) : Except ε α × σ → Except ε α' × σ' → Prop
  | ok {a a' t t'} : A a a' → J t t' → SameOutcome A J (.ok a, t) (.ok a', t')
  | error {e t t'} : J t t' → SameOutcome A J (.error e, t) (.error e, t')

/-- From states that `I` relates, two programs have the same outcome. -/
def Lockstep (I J : σ → σ' → Prop) (A : α → α' → Prop) (p : Program R ε α) (q : Program R' ε α') : Prop :=
  ∀ s s', I s s' → Option.Rel (SameOutcome A J) (p.run s) (q.run s')

variable {I J K : σ → σ' → Prop} {A : α → α' → Prop} {B : β → β' → Prop}

/-- Weaker relations. -/
theorem SameOutcome.mono {J' : σ → σ' → Prop} {A' : α → α' → Prop} {x : Except ε α × σ} {x' : Except ε α' × σ'}
    (h : SameOutcome A J x x') (hA : ∀ a a', A a a' → A' a a') (hJ : ∀ t t', J t t' → J' t t') :
    SameOutcome A' J' x x' := by
  cases h with
  | ok ha ht => exact .ok (hA _ _ ha) (hJ _ _ ht)
  | error ht => exact .error (hJ _ _ ht)

namespace Lockstep

/-- A stronger relation to start from, and weaker ones to end in. -/
theorem mono {I' J' : σ → σ' → Prop} {A' : α → α' → Prop} {p : Program R ε α} {q : Program R' ε α'}
    (h : p.Lockstep I J A q) (hI : ∀ s s', I' s s' → I s s') (hA : ∀ a a', A a a' → A' a a')
    (hJ : ∀ s s', J s s' → J' s s') : p.Lockstep I' J' A' q := by
  intro s s' hs
  have hsame := h s s' (hI s s' hs)
  generalize p.run s = x at hsame ⊢
  generalize q.run s' = x' at hsame ⊢
  cases hsame with
  | none => exact .none
  | some hx => exact .some (hx.mono hA hJ)

/-- Two programs that run alike are in lockstep. -/
theorem of_run_eq {p : Program R ε α} {Q : σ → σ → Prop} {q : Program Q ε α} (h : ∀ s, p.run s = q.run s) :
    p.Lockstep Eq Eq Eq q := by
  rintro s - rfl
  rw [h s]
  rcases q.run s with _ | ⟨_ | _, _⟩
  · exact .none
  · exact .some (.error rfl)
  · exact .some (.ok rfl rfl)

/-- An invariant of the first program can be carried along. -/
theorem and_keeps {P : σ → Prop} {p : Program R ε α} {q : Program R' ε α'} (h : p.Lockstep I J A q)
    (hp : p.Keeps P) : p.Lockstep (fun s s' => I s s' ∧ P s) (fun s s' => J s s' ∧ P s) A q := by
  rintro s s' ⟨hs, hP⟩
  have hkept := hp s hP
  have hsame := h s s' hs
  unfold Program.Post at hkept
  generalize p.run s = x at hkept hsame ⊢
  generalize q.run s' = x' at hsame ⊢
  cases hsame with
  | none => exact .none
  | some hx =>
    cases hx with
    | ok ha ht => exact .some (.ok ha ⟨ht, hkept _ _ rfl⟩)
    | error ht => exact .some (.error ⟨ht, hkept _ _ rfl⟩)

/-- Neither has an outcome. -/
theorem undefined : (undefined : Program R ε α).Lockstep I J A (Program.undefined : Program R' ε α') :=
  fun _ _ _ => .none

/-- Two changes of the state, which must be undefined together. -/
theorem step {f : σ → Option (α × σ)} {f' : σ' → Option (α' × σ')}
    {h : ∀ s a t, f s = some (a, t) → R s t} {h' : ∀ s a t, f' s = some (a, t) → R' s t}
    (hstep : ∀ s s', I s s' → Option.Rel (fun x x' => A x.1 x'.1 ∧ J x.2 x'.2) (f s) (f' s')) :
    (step f h : Program R ε α).Lockstep I J A (Program.step f' h' : Program R' ε α') := by
  intro s s' hs
  have hsame := hstep s s' hs
  rw [run_step, run_step]
  generalize f s = x at hsame ⊢
  generalize f' s' = x' at hsame ⊢
  cases hsame with
  | none => exact .none
  | some hx => exact .some (.ok hx.1 hx.2)

/-- Within larger relations. -/
theorem lift {hR : ∀ s t, R s t → Q s t} {hR' : ∀ s t, R' s t → Q' s t} {p : Program R ε α}
    {q : Program R' ε α'} (h : p.Lockstep I J A q) : (p.lift hR).Lockstep I J A (q.lift hR') := h

/-- The branches, in pairs. Both programs take the same. -/
theorem ite {c : Prop} [Decidable c] {p₁ p₂ : Program R ε α} {q₁ q₂ : Program R' ε α'}
    (h₁ : p₁.Lockstep I J A q₁) (h₂ : p₂.Lockstep I J A q₂) :
    (if c then p₁ else p₂).Lockstep I J A (if c then q₁ else q₂) := by
  split
  · exact h₁
  · exact h₂

/-- The handlers, where both have thrown the same. -/
theorem handle [IsTrans σ R] [IsTrans σ' R'] {p : Program R ε α} {q : Program R' ε α'}
    {f : ε → Program R ε' α} {g : ε → Program R' ε' α'} (h : p.Lockstep I J A q)
    (hJ : ∀ t t', J t t' → K t t') (hf : ∀ e, (f e).Lockstep J K A (g e)) :
    (p.handle f).Lockstep I K A (q.handle g) := by
  intro s s' hs
  have hsame := h s s' hs
  rw [run_handle, run_handle]
  generalize p.run s = x at hsame ⊢
  generalize q.run s' = x' at hsame ⊢
  cases hsame with
  | none => exact .none
  | some hx =>
    cases hx with
    | ok ha ht => exact .some (.ok ha (hJ _ _ ht))
    | error ht => exact hf _ _ _ ht

section Monad

variable [IsPreorder σ R] [IsPreorder σ' R']

/-- Two looks that show related values. -/
theorem read {f : σ → α} {f' : σ' → α'} (h : ∀ s s', I s s' → A (f s) (f' s')) :
    (read f : Program R ε α).Lockstep I I A (Program.read f' : Program R' ε α') :=
  fun s s' hs => .some (.ok (h s s' hs) hs)

/-- Two values that are related. -/
theorem pure {a : α} {a' : α'} (h : A a a') :
    (pure a : Program R ε α).Lockstep I I A (Pure.pure a' : Program R' ε α') :=
  fun _ _ hs => .some (.ok h hs)

/-- **One part after the other.** -/
theorem bind {p : Program R ε α} {q : Program R' ε α'} {f : α → Program R ε β} {g : α' → Program R' ε β'}
    (h : p.Lockstep I J A q) (hJ : ∀ t t', J t t' → K t t')
    (hf : ∀ a a', A a a' → (f a).Lockstep J K B (g a')) : (p >>= f).Lockstep I K B (q >>= g) := by
  intro s s' hs
  have hsame := h s s' hs
  rw [run_bind, run_bind]
  generalize p.run s = x at hsame ⊢
  generalize q.run s' = x' at hsame ⊢
  cases hsame with
  | none => exact .none
  | some hx =>
    cases hx with
    | ok ha ht => exact hf _ _ ha _ _ ht
    | error ht => exact .some (.error (hJ _ _ ht))

/-- One part after the other, within one relation and with equal values. -/
theorem seq {p : Program R ε γ} {q : Program R' ε γ} {f : γ → Program R ε β} {g : γ → Program R' ε β'}
    (h : p.Lockstep I I Eq q) (hf : ∀ a, (f a).Lockstep I I B (g a)) : (p >>= f).Lockstep I I B (q >>= g) :=
  h.bind (fun _ _ ht => ht) fun _ _ heq => heq ▸ hf _

/-- By induction on the elements. -/
theorem foldlM {body : β → γ → Program R ε β} {body' : β → γ → Program R' ε β}
    (hbody : ∀ b x, (body b x).Lockstep I I Eq (body' b x)) (xs : List γ) : ∀ b,
    (xs.foldlM body b : Program R ε β).Lockstep I I Eq (xs.foldlM body' b : Program R' ε β) := by
  induction xs with
  | nil => exact fun b => pure rfl
  | cons x xs ih =>
    intro b
    rw [List.foldlM_cons, List.foldlM_cons]
    exact seq (hbody b x) ih

end Monad

end Lockstep

end Program
