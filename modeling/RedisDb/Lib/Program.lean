import Mathlib.Logic.Relation
import Mathlib.Order.Defs.Unbundled
import Mathlib.Tactic

/-!
# Programs that stay within a relation

A program over a state, with exceptions: a run returns a value or throws, keeps in either case the state it has
reached, and has no outcome at all where the language defines none. It carries the proof that its runs stay within a
preorder `R` on states. What the preorder says of the states before and after therefore holds of every program written
with the operations below, without another look at the program: the choice of `R` says what a program may do, and
building the program is the proof that it does no more.

There are four judgements about a program, each with one rule for each operation.

* `Post` is the weakest liberal precondition, of values and exceptions. The equations `post_pure`, `post_bind`, …
  execute a program symbolically, and the loop rule asks for an invariant of its turns.
* `Keeps I` says that an invariant survives every outcome. Its rules need no look at the values, so a program is
  proved to keep an invariant by going through its text.
* `Yields Q` speaks of the values only, from any state.
* `Returns` and `Ends` exclude exceptions, and `Ends` undefined behaviour as well. It is the one that says that there
  is an outcome.
-/

/-- A program with results `α` and exceptions `ε`, whose runs stay within `R`. -/
structure Program {σ : Type} (R : σ → σ → Prop) (ε α : Type) where
  /-- The outcome, and the state reached; `none` where the behaviour is undefined. -/
  run : σ → Option (Except ε α × σ)
  /-- Every run that has an outcome stays within `R`. -/
  within : ∀ {s r t}, run s = some (r, t) → R s t

namespace Program

variable {σ ε ε' α β : Type} {R R' : σ → σ → Prop}

/-- Programs are equal that run alike. -/
@[ext] theorem ext {p q : Program R ε α} (h : ∀ s, p.run s = q.run s) : p = q := by
  obtain ⟨p, _⟩ := p
  obtain ⟨q, _⟩ := q
  obtain rfl : p = q := funext h
  rfl

/-! ### Operations -/

/-- The program whose behaviour is undefined. -/
def undefined : Program R ε α where
  run _ := none
  within h := nomatch h

/-- A change of the state within `R`, which may be undefined in some states. -/
def step (f : σ → Option (α × σ)) (h : ∀ s a t, f s = some (a, t) → R s t) : Program R ε α where
  run s := (f s).map fun x => (.ok x.1, x.2)
  within {s r t} hrun := by
    obtain ⟨⟨a, t'⟩, hf, heq⟩ := Option.map_eq_some_iff.mp hrun
    obtain ⟨rfl, rfl⟩ := Prod.mk.inj heq
    exact h _ _ _ hf

/-- A program within a smaller relation. -/
def lift (h : ∀ s t, R s t → R' s t) (p : Program R ε α) : Program R' ε α where
  run := p.run
  within hrun := h _ _ (p.within hrun)

/-- `try … catch`. -/
def handle (p : Program R ε α) (f : ε → Program R ε' α) [IsTrans σ R] : Program R ε' α where
  run s :=
    match p.run s with
    | none => none
    | some (.ok a, t) => some (.ok a, t)
    | some (.error e, t) => (f e).run t
  within {s r u} h := by
    split at h
    · cases h
    · next a t hp =>
      obtain ⟨-, rfl⟩ := Prod.mk.inj (Option.some.inj h)
      exact p.within hp
    · next e t hp => exact IsTrans.trans _ _ _ (p.within hp) ((f e).within h)

section Monad

variable [IsPreorder σ R]

/-- Look at the state. -/
def read (f : σ → α) : Program R ε α where
  run s := some (.ok (f s), s)
  within {s r t} h := by
    obtain ⟨-, rfl⟩ := Prod.mk.inj (Option.some.inj h)
    exact refl s

/-- A value, or an exception. -/
def ofExcept (x : Except ε α) : Program R ε α where
  run s := some (x, s)
  within {s r t} h := by
    obtain ⟨-, rfl⟩ := Prod.mk.inj (Option.some.inj h)
    exact refl s

/-- A value, or undefined behaviour. -/
def ofOption (x : Option α) : Program R ε α where
  run s := x.map fun a => (.ok a, s)
  within {s r t} h := by
    obtain ⟨a, -, heq⟩ := Option.map_eq_some_iff.mp h
    obtain ⟨-, rfl⟩ := Prod.mk.inj heq
    exact refl s

instance : Monad (Program R ε) where
  pure a := ofExcept (.ok a)
  bind p f :=
    { run := fun s =>
        match p.run s with
        | none => none
        | some (.ok a, t) => (f a).run t
        | some (.error e, t) => some (.error e, t)
      within := fun {s r u} h => by
        split at h
        · cases h
        · next a t hp => exact IsTrans.trans _ _ _ (p.within hp) ((f a).within h)
        · next e t hp =>
          obtain ⟨-, rfl⟩ := Prod.mk.inj (Option.some.inj h)
          exact p.within hp }

/-- `throw`. -/
def raise (e : ε) : Program R ε α := ofExcept (.error e)

/-- A value is returned in the same state. -/
theorem run_pure (a : α) (s : σ) : (pure a : Program R ε α).run s = some (.ok a, s) := rfl

/-- A second program runs where the first has returned. -/
theorem run_bind (p : Program R ε α) (f : α → Program R ε β) (s : σ) :
    (p >>= f).run s = match p.run s with
      | none => none
      | some (.ok a, t) => (f a).run t
      | some (.error e, t) => some (.error e, t) := rfl

/-- What comes after a program that has returned. -/
theorem run_bind_ok {p : Program R ε α} {s t : σ} {a : α} (h : p.run s = some (.ok a, t))
    (f : α → Program R ε β) : (p >>= f).run s = (f a).run t := by rw [run_bind, h]

/-- To return what a program returns is to run it. -/
theorem bind_pure_id (p : Program R ε α) : p >>= pure = p := by
  ext1 s
  rw [run_bind]
  rcases p.run s with _ | ⟨_ | _, _⟩ <;> rfl

/-- Sequence is associative. -/
theorem bind_bind (p : Program R ε α) {γ : Type} (f : α → Program R ε β) (g : β → Program R ε γ) :
    p >>= f >>= g = p >>= fun a => f a >>= g := by
  ext1 s
  simp only [run_bind]
  rcases p.run s with _ | ⟨_ | _, _⟩ <;> rfl

instance : LawfulMonad (Program R ε) :=
  .mk' _ bind_pure_id (fun _ _ => rfl) fun p f g => bind_bind p f g

end Monad

/-- A change of the state throws nothing. -/
@[simp] theorem run_step {f : σ → Option (α × σ)} {h : ∀ s a t, f s = some (a, t) → R s t} (s : σ) :
    (step f h : Program R ε α).run s = (f s).map fun x => (.ok x.1, x.2) := rfl

/-- Within a larger relation a program runs as before. -/
@[simp] theorem run_lift {h : ∀ s t, R s t → R' s t} (p : Program R ε α) :
    (p.lift h).run = p.run := rfl

/-- The handler runs in the state in which the exception was thrown. -/
theorem run_handle [IsTrans σ R] (p : Program R ε α) (f : ε → Program R ε' α) (s : σ) :
    (p.handle f).run s = match p.run s with
      | none => none
      | some (.ok a, t) => some (.ok a, t)
      | some (.error e, t) => (f e).run t := rfl

/-! ### Reasoning -/

/-- Every outcome of a run from `s` satisfies `Q`. -/
def Post (p : Program R ε α) (s : σ) (Q : Except ε α → σ → Prop) : Prop :=
  ∀ r t, p.run s = some (r, t) → Q r t

/-- A weaker postcondition. -/
theorem Post.mono {p : Program R ε α} {s : σ} {Q Q' : Except ε α → σ → Prop} (h : p.Post s Q)
    (hQ : ∀ r t, Q r t → Q' r t) : p.Post s Q' := fun r t hrun => hQ r t (h r t hrun)

/-- What follows from staying within `R`. -/
theorem post_within (p : Program R ε α) {s : σ} {Q : Except ε α → σ → Prop}
    (hQ : ∀ r t, R s t → Q r t) : p.Post s Q := fun r t hrun => hQ r t (p.within hrun)

/-- Nothing has to hold after what has no outcome. -/
@[simp] theorem post_undefined (s : σ) (Q : Except ε α → σ → Prop) :
    (undefined : Program R ε α).Post s Q ↔ True :=
  ⟨fun _ => trivial, fun _ _ _ h => nomatch h⟩

/-- A change of the state, where it is defined. -/
@[simp] theorem post_step {f : σ → Option (α × σ)} {h : ∀ s a t, f s = some (a, t) → R s t}
    (s : σ) (Q : Except ε α → σ → Prop) :
    (step f h : Program R ε α).Post s Q ↔ ∀ a t, f s = some (a, t) → Q (.ok a) t := by
  constructor
  · intro hp a t hf
    exact hp _ _ (by rw [run_step, hf]; rfl)
  · intro hQ r t hrun
    obtain ⟨⟨a, t'⟩, hf, heq⟩ := Option.map_eq_some_iff.mp hrun
    obtain ⟨rfl, rfl⟩ := Prod.mk.inj heq
    exact hQ a _ hf

/-- The relation does not matter to the outcomes. -/
@[simp] theorem post_lift {h : ∀ s t, R s t → R' s t} (p : Program R ε α) (s : σ)
    (Q : Except ε α → σ → Prop) : (p.lift h).Post s Q ↔ p.Post s Q := Iff.rfl

/-- An exception is handled, a value is passed on. -/
@[simp] theorem post_handle [IsTrans σ R] (p : Program R ε α) (f : ε → Program R ε' α) (s : σ)
    (Q : Except ε' α → σ → Prop) :
    (p.handle f).Post s Q ↔ p.Post s fun r t => match r with
      | .ok a => Q (.ok a) t
      | .error e => (f e).Post t Q := by
  constructor
  · intro h r t hrun
    cases r with
    | ok a => exact h _ _ (by rw [run_handle, hrun])
    | error e => exact fun r u hf => h _ _ (by rw [run_handle, hrun]; exact hf)
  · intro h r u hrun
    rw [run_handle] at hrun
    cases hp : p.run s with
    | none => rw [hp] at hrun; cases hrun
    | some x =>
      obtain ⟨r', t⟩ := x
      -- where the program ends, the state is the one the handler starts from
      have hmid := h r' t hp
      rw [hp] at hrun
      cases r' with
      | ok a =>
        obtain ⟨rfl, rfl⟩ := Prod.mk.inj (Option.some.inj hrun)
        exact hmid
      | error e => exact hmid r u hrun

section Monad

variable [IsPreorder σ R]

/-- A look changes nothing. -/
@[simp] theorem post_read (f : σ → α) (s : σ) (Q : Except ε α → σ → Prop) :
    (read f : Program R ε α).Post s Q ↔ Q (.ok (f s)) s := by
  constructor
  · exact fun h => h _ _ rfl
  · intro h r t hrun
    obtain ⟨rfl, rfl⟩ := Prod.mk.inj (Option.some.inj hrun)
    exact h

/-- A value or an exception, in the same state. -/
@[simp] theorem post_ofExcept (x : Except ε α) (s : σ) (Q : Except ε α → σ → Prop) :
    (ofExcept x : Program R ε α).Post s Q ↔ Q x s := by
  constructor
  · exact fun h => h _ _ rfl
  · intro h r t hrun
    obtain ⟨rfl, rfl⟩ := Prod.mk.inj (Option.some.inj hrun)
    exact h

/-- A value, where there is one. -/
@[simp] theorem post_ofOption (x : Option α) (s : σ) (Q : Except ε α → σ → Prop) :
    (ofOption x : Program R ε α).Post s Q ↔ ∀ a, x = some a → Q (.ok a) s := by
  constructor
  · rintro h a rfl
    exact h _ _ rfl
  · intro h r t hrun
    obtain ⟨a, ha, heq⟩ := Option.map_eq_some_iff.mp hrun
    obtain ⟨rfl, rfl⟩ := Prod.mk.inj heq
    exact h a ha

/-- A value, in the same state. -/
@[simp] theorem post_pure (a : α) (s : σ) (Q : Except ε α → σ → Prop) :
    (pure a : Program R ε α).Post s Q ↔ Q (.ok a) s := post_ofExcept (.ok a) s Q

/-- An exception, in the same state. -/
@[simp] theorem post_raise (e : ε) (s : σ) (Q : Except ε α → σ → Prop) :
    (raise e : Program R ε α).Post s Q ↔ Q (.error e) s := post_ofExcept (.error e) s Q

/-- **The rule of sequence.** An exception of the first program skips the second. -/
@[simp] theorem post_bind (p : Program R ε α) (f : α → Program R ε β) (s : σ)
    (Q : Except ε β → σ → Prop) :
    (p >>= f).Post s Q ↔ p.Post s fun r t => match r with
      | .ok a => (f a).Post t Q
      | .error e => Q (.error e) t := by
  constructor
  · intro h r t hrun
    cases r with
    | ok a => exact fun r u hf => h _ _ (by rw [run_bind, hrun]; exact hf)
    | error e => exact h _ _ (by rw [run_bind, hrun])
  · intro h r u hrun
    rw [run_bind] at hrun
    cases hp : p.run s with
    | none => rw [hp] at hrun; cases hrun
    | some x =>
      obtain ⟨r', t⟩ := x
      -- where the first program ends, the state is the one the second starts from
      have hmid := h r' t hp
      rw [hp] at hrun
      cases r' with
      | ok a => exact hmid r u hrun
      | error e =>
        obtain ⟨rfl, rfl⟩ := Prod.mk.inj (Option.some.inj hrun)
        exact hmid

/-- **The loop rule**: an invariant of the turns is an invariant of the loop, also where a turn
throws. By induction on the elements. -/
theorem post_forM {γ : Type} {body : γ → Program R ε PUnit} {I : σ → Prop} {E : ε → σ → Prop}
    (xs : List γ)
    (hbody : ∀ x ∈ xs, ∀ s, I s → (body x).Post s fun r t => match r with
      | .ok _ => I t
      | .error e => E e t) :
    ∀ {s : σ}, I s → (forM xs body : Program R ε PUnit).Post s fun r t => match r with
      | .ok _ => I t
      | .error e => E e t := by
  induction xs with
  | nil => intro s hs; rw [List.forM_nil, post_pure]; exact hs
  | cons x xs ih =>
    intro s hs
    rw [List.forM_cons, post_bind]
    refine (hbody x List.mem_cons_self s hs).mono fun r t hr => ?_
    cases r with
    | ok _ => exact ih (fun y hy => hbody y (List.mem_cons_of_mem _ hy)) hr
    | error e => exact hr

end Monad

/-! ### Keeping an invariant -/

/-- Every run from a state that satisfies `I` ends in such a state, also where it throws. -/
def Keeps (I : σ → Prop) (p : Program R ε α) : Prop := ∀ s, I s → p.Post s fun _ t => I t

namespace Keeps

variable {I : σ → Prop}

/-- What has no outcome breaks no invariant. -/
theorem undefined : (undefined : Program R ε α).Keeps I := fun s _ => (post_undefined s _).mpr trivial

/-- A change of the state that keeps the invariant. -/
theorem step {f : σ → Option (α × σ)} {h : ∀ s a t, f s = some (a, t) → R s t}
    (hf : ∀ s a t, f s = some (a, t) → I s → I t) : (step f h : Program R ε α).Keeps I :=
  fun s hs => (post_step s _).mpr fun a t ht => hf s a t ht hs

/-- Within a larger relation. -/
theorem lift {h : ∀ s t, R s t → R' s t} {p : Program R ε α} (hp : p.Keeps I) : (p.lift h).Keeps I :=
  fun s hs => (post_lift p s _).mpr (hp s hs)

/-- The handler starts from a state with the invariant, since the program keeps it where it throws. -/
theorem handle [IsTrans σ R] {p : Program R ε α} {f : ε → Program R ε' α} (hp : p.Keeps I)
    (hf : ∀ e, (f e).Keeps I) : (p.handle f).Keeps I := by
  intro s hs
  rw [post_handle]
  refine (hp s hs).mono fun r t ht => ?_
  cases r with
  | ok a => exact ht
  | error e => exact hf e t ht

/-- Both branches. -/
theorem ite {c : Prop} [Decidable c] {p q : Program R ε α} (hp : p.Keeps I) (hq : q.Keeps I) :
    (if c then p else q).Keeps I := by
  split
  · exact hp
  · exact hq

section Monad

variable [IsPreorder σ R]

/-- A look. -/
theorem read (f : σ → α) : (read f : Program R ε α).Keeps I := fun s hs => (post_read f s _).mpr hs

/-- A value or an exception. -/
theorem ofExcept (x : Except ε α) : (ofExcept x : Program R ε α).Keeps I :=
  fun s hs => (post_ofExcept x s _).mpr hs

/-- A value or nothing. -/
theorem ofOption (x : Option α) : (ofOption x : Program R ε α).Keeps I :=
  fun s hs => (post_ofOption x s _).mpr fun _ _ => hs

/-- A value. -/
theorem pure (a : α) : (pure a : Program R ε α).Keeps I := ofExcept (.ok a)

/-- An exception. -/
theorem raise (e : ε) : (raise e : Program R ε α).Keeps I := ofExcept (.error e)

/-- **The rule of sequence.** -/
theorem bind {p : Program R ε α} {f : α → Program R ε β} (hp : p.Keeps I) (hf : ∀ a, (f a).Keeps I) :
    (p >>= f).Keeps I := by
  intro s hs
  rw [post_bind]
  refine (hp s hs).mono fun r t ht => ?_
  cases r with
  | ok a => exact hf a t ht
  | error e => exact ht

/-- **The loop rule.** -/
theorem forM {γ : Type} {body : γ → Program R ε PUnit} (xs : List γ)
    (hbody : ∀ x ∈ xs, (body x).Keeps I) : (forM xs body : Program R ε PUnit).Keeps I := by
  intro s hs
  have hturns (x : γ) (hx : x ∈ xs) (s : σ) (hs : I s) : (body x).Post s fun r t => match r with
      | .ok _ => I t
      | .error _ => I t := (hbody x hx s hs).mono fun r t ht => by cases r <;> exact ht
  refine (post_forM xs hturns hs).mono fun r t ht => ?_
  cases r <;> exact ht

/-- By induction on the elements. -/
theorem foldlM {γ : Type} {body : β → γ → Program R ε β} (xs : List γ)
    (hbody : ∀ b, ∀ x ∈ xs, (body b x).Keeps I) :
    ∀ b, (xs.foldlM body b : Program R ε β).Keeps I := by
  induction xs with
  | nil => exact fun b => pure b
  | cons x xs ih =>
    intro b
    rw [List.foldlM_cons]
    exact bind (hbody b x List.mem_cons_self) fun b' =>
      ih (fun b y hy => hbody b y (List.mem_cons_of_mem x hy)) b'

end Monad

end Keeps

/-! ### What programs return -/

/-- Every value that a run returns satisfies `Q`, whatever state it is from. -/
def Yields (p : Program R ε α) (Q : α → Prop) : Prop := ∀ s a t, p.run s = some (.ok a, t) → Q a

namespace Yields

variable {P : α → Prop} {Q : β → Prop}

/-- What has no outcome returns no value. -/
theorem undefined : (undefined : Program R ε β).Yields Q := fun _ _ _ h => nomatch h

/-- Both branches. -/
theorem ite {c : Prop} [Decidable c] {p q : Program R ε β} (hp : p.Yields Q) (hq : q.Yields Q) :
    (if c then p else q).Yields Q := by
  split
  · exact hp
  · exact hq

variable [IsPreorder σ R]

/-- The value itself. -/
theorem pure {b : β} (h : Q b) : (pure b : Program R ε β).Yields Q := by
  intro s a t hrun
  obtain ⟨heq, -⟩ := Prod.mk.inj (Option.some.inj hrun)
  exact Except.ok.inj heq ▸ h

/-- An exception is no value. -/
theorem raise {e : ε} : (raise e : Program R ε β).Yields Q := by
  intro s a t hrun
  obtain ⟨heq, -⟩ := Prod.mk.inj (Option.some.inj hrun)
  cases heq

/-- The rule of sequence, where the second program needs to know what the first returns. -/
theorem bind_of {p : Program R ε α} {f : α → Program R ε β} (hp : p.Yields P)
    (hf : ∀ a, P a → (f a).Yields Q) : (p >>= f).Yields Q := by
  intro s b t hrun
  rw [run_bind] at hrun
  split at hrun
  · cases hrun
  · next a u hu => exact hf a (hp s a u hu) u b t hrun
  · cases hrun

/-- The rule of sequence: what is returned is what the second program returns. -/
theorem bind {p : Program R ε α} {f : α → Program R ε β} (hf : ∀ a, (f a).Yields Q) :
    (p >>= f).Yields Q :=
  bind_of (P := fun _ => True) (fun _ _ _ _ => trivial) fun a _ => hf a

end Yields

/-- What follows has to keep an invariant only where it gets a value of the kind it does get. -/
theorem Keeps.bind_of [IsPreorder σ R] {I : σ → Prop} {P : α → Prop} {p : Program R ε α}
    {f : α → Program R ε β} (hp : p.Keeps I) (hyields : p.Yields P)
    (hf : ∀ a, P a → (f a).Keeps I) : (p >>= f).Keeps I := by
  intro s hs r t hrun
  rw [run_bind] at hrun
  split at hrun
  · cases hrun
  · next a u hu => exact hf a (hyields s a u hu) u (hp s hs _ u hu) r t hrun
  · next e u hu =>
    obtain ⟨-, rfl⟩ := Prod.mk.inj (Option.some.inj hrun)
    exact hp s hs _ u hu

/-! ### Programs that throw nothing -/

/-- No outcome of a run from `s` is an exception, and every value satisfies `Q`. -/
def Returns (p : Program R ε α) (s : σ) (Q : α → σ → Prop) : Prop :=
  ∀ r t, p.run s = some (r, t) → ∃ a, r = .ok a ∧ Q a t

/-- A weaker postcondition. -/
theorem Returns.mono {p : Program R ε α} {s : σ} {Q Q' : α → σ → Prop} (h : p.Returns s Q)
    (hQ : ∀ a t, Q a t → Q' a t) : p.Returns s Q' := by
  intro r t hrun
  obtain ⟨a, ha, hq⟩ := h r t hrun
  exact ⟨a, ha, hQ a t hq⟩

/-- A change of the state throws nothing. -/
@[simp] theorem returns_step {f : σ → Option (α × σ)} {h : ∀ s a t, f s = some (a, t) → R s t}
    (s : σ) (Q : α → σ → Prop) :
    (step f h : Program R ε α).Returns s Q ↔ ∀ a t, f s = some (a, t) → Q a t := by
  refine (post_step s fun r t => ∃ a, r = .ok a ∧ Q a t).trans (forall₃_congr fun a t _ => ?_)
  simp

/-- The relation does not matter to the outcomes. -/
@[simp] theorem returns_lift {h : ∀ s t, R s t → R' s t} (p : Program R ε α) (s : σ)
    (Q : α → σ → Prop) : (p.lift h).Returns s Q ↔ p.Returns s Q := Iff.rfl

/-- A program that throws nothing needs no handler. -/
theorem Returns.handle [IsTrans σ R] {p : Program R ε α} {s : σ} {Q : α → σ → Prop}
    (h : p.Returns s Q) (f : ε → Program R ε' α) : (p.handle f).Returns s Q := by
  intro r t hrun
  rw [run_handle] at hrun
  cases hp : p.run s with
  | none => rw [hp] at hrun; cases hrun
  | some x =>
    obtain ⟨r', u⟩ := x
    obtain ⟨a, rfl, hq⟩ := h r' u hp
    rw [hp] at hrun
    obtain ⟨rfl, rfl⟩ := Prod.mk.inj (Option.some.inj hrun)
    exact ⟨a, rfl, hq⟩

section Monad

variable [IsPreorder σ R]

/-- A look throws nothing. -/
@[simp] theorem returns_read (f : σ → α) (s : σ) (Q : α → σ → Prop) :
    (read f : Program R ε α).Returns s Q ↔ Q (f s) s := by
  refine (post_read f s fun r t => ∃ a, r = .ok a ∧ Q a t).trans ?_
  simp

/-- It must be a value. -/
@[simp] theorem returns_ofExcept (x : Except ε α) (s : σ) (Q : α → σ → Prop) :
    (ofExcept x : Program R ε α).Returns s Q ↔ ∃ a, x = .ok a ∧ Q a s :=
  post_ofExcept x s fun r t => ∃ a, r = .ok a ∧ Q a t

/-- A value. -/
@[simp] theorem returns_pure (a : α) (s : σ) (Q : α → σ → Prop) :
    (pure a : Program R ε α).Returns s Q ↔ Q a s := by
  refine (post_pure a s fun r t => ∃ a, r = .ok a ∧ Q a t).trans ?_
  simp

/-- The rule of sequence: neither throws. -/
@[simp] theorem returns_bind (p : Program R ε α) (f : α → Program R ε β) (s : σ)
    (Q : β → σ → Prop) :
    (p >>= f).Returns s Q ↔ p.Returns s fun a t => (f a).Returns t Q := by
  refine (post_bind p f s fun r t => ∃ a, r = .ok a ∧ Q a t).trans
    (forall₃_congr fun r t _ => ?_)
  cases r with
  | ok a => simp [Returns, Post]
  | error e => simp

/-- **The loop rule**: an invariant of the turns is an invariant of the loop. By induction on the
elements. -/
theorem returns_forM {γ : Type} {body : γ → Program R ε PUnit} {I : σ → Prop} (xs : List γ)
    (hbody : ∀ x ∈ xs, ∀ s, I s → (body x).Returns s fun _ t => I t) :
    ∀ {s : σ}, I s → (forM xs body : Program R ε PUnit).Returns s fun _ t => I t := by
  induction xs with
  | nil => intro s hs; rw [List.forM_nil, returns_pure]; exact hs
  | cons x xs ih =>
    intro s hs
    rw [List.forM_cons, returns_bind]
    exact (hbody x List.mem_cons_self s hs).mono fun _ t ht =>
      ih (fun y hy => hbody y (List.mem_cons_of_mem _ hy)) ht

/-- **The loop rule** for a loop that has a turn: what every turn leaves behind holds at its end. -/
theorem returns_forM_of_ne_nil {γ : Type} {body : γ → Program R ε PUnit} {I J : σ → Prop}
    {xs : List γ} (hne : xs ≠ []) (hJI : ∀ s, J s → I s)
    (hbody : ∀ x ∈ xs, ∀ s, I s → (body x).Returns s fun _ t => J t) {s : σ} (hs : I s) :
    (forM xs body : Program R ε PUnit).Returns s fun _ t => J t := by
  obtain ⟨x, xs, rfl⟩ := List.exists_cons_of_ne_nil hne
  rw [List.forM_cons, returns_bind]
  exact (hbody x List.mem_cons_self s hs).mono fun _ t ht =>
    returns_forM xs (fun y hy u hu => hbody y (List.mem_cons_of_mem _ hy) u (hJI u hu)) ht

end Monad

/-! ### Programs that end -/

/-- The run from `s` has an outcome, which is a value, and the value satisfies `Q`. -/
def Ends (p : Program R ε α) (s : σ) (Q : α → σ → Prop) : Prop :=
  ∃ a t, p.run s = some (.ok a, t) ∧ Q a t

/-- A weaker postcondition. -/
theorem Ends.mono {p : Program R ε α} {s : σ} {Q Q' : α → σ → Prop} (h : p.Ends s Q)
    (hQ : ∀ a t, Q a t → Q' a t) : p.Ends s Q' := by
  obtain ⟨a, t, hrun, hq⟩ := h
  exact ⟨a, t, hrun, hQ a t hq⟩

section Monad

variable [IsPreorder σ R]

/-- A value. -/
theorem ends_pure {a : α} {s : σ} {Q : α → σ → Prop} (h : Q a s) :
    (pure a : Program R ε α).Ends s Q := ⟨a, s, rfl, h⟩

/-- A look. -/
theorem ends_read {f : σ → α} {s : σ} {Q : α → σ → Prop} (h : Q (f s) s) :
    (read f : Program R ε α).Ends s Q := ⟨f s, s, rfl, h⟩

/-- **The rule of sequence.** -/
theorem Ends.bind {p : Program R ε α} {f : α → Program R ε β} {s : σ} {Q : α → σ → Prop}
    {Q' : β → σ → Prop} (h : p.Ends s Q) (hf : ∀ a t, Q a t → (f a).Ends t Q') : (p >>= f).Ends s Q' := by
  obtain ⟨a, t, hrun, hq⟩ := h
  obtain ⟨b, u, hrun', hq'⟩ := hf a t hq
  exact ⟨b, u, (run_bind_ok hrun f).trans hrun', hq'⟩

/-- The rule of sequence, where it is known what the first program does. -/
theorem ends_bind_of_run {p : Program R ε α} {f : α → Program R ε β} {s t : σ} {a : α} {Q : β → σ → Prop}
    (h : p.run s = some (.ok a, t)) (hf : (f a).Ends t Q) : (p >>= f).Ends s Q := by
  obtain ⟨b, u, hrun, hq⟩ := hf
  exact ⟨b, u, (run_bind_ok h f).trans hrun, hq⟩

/-- What comes after a program that ends, whether it ends or not. -/
theorem Ends.post_bind {p : Program R ε α} {f : α → Program R ε β} {s : σ} {Q : α → σ → Prop}
    {Q' : Except ε β → σ → Prop} (h : p.Ends s Q) (hf : ∀ a t, Q a t → (f a).Post t Q') : (p >>= f).Post s Q' := by
  obtain ⟨a, t, hrun, hq⟩ := h
  intro r u hrun'
  rw [run_bind_ok hrun] at hrun'
  exact hf a t hq r u hrun'

/-- **The loop rule**: `I` holds of what has been accumulated and the state, from turn to turn. By induction
on the elements. -/
theorem ends_foldlM {γ : Type} {body : β → γ → Program R ε β} {I : List γ → β → σ → Prop} (xs : List γ)
    (hbody : ∀ b x rest s, I (x :: rest) b s → (body b x).Ends s (I rest)) :
    ∀ {b : β} {s : σ}, I xs b s → (xs.foldlM body b : Program R ε β).Ends s (I []) := by
  induction xs with
  | nil => exact fun h => ends_pure h
  | cons x xs ih =>
    intro b s h
    rw [List.foldlM_cons]
    exact (hbody b x xs s h).bind fun _ _ hb => ih hb

end Monad

end Program
