import Mathlib.Tactic

/-!
# Incremental decoding

A decoder reads one item off the head of a symbol list. It answers with the item and the number of
symbols it used, with `none` when it finds no item, or with an error. `drain` applies it until it
finds no further item, and `feed` drains a buffer after each of a sequence of reads.

`IsIncremental` is what makes the cut between two reads invisible: an answer other than `none` is
unchanged by any continuation of the input, and an item uses at least one symbol. Under it,
`feed_eq_drain` says that feeding the pieces of an input one after another has exactly the outcome
of draining the input at once, errors included.
-/

namespace Incremental

universe u v w

variable {α : Type u} {β : Type v} {ε : Type w}

/-- A decoder: one item off the head of the input, and the number of symbols used. -/
abbrev Decoder (α : Type u) (β : Type v) (ε : Type w) := List α → Except ε (Option (β × ℕ))

/-- The answers of an incremental decoder are stable under every continuation of the input. -/
structure IsIncremental (dec : Decoder α β ε) : Prop where
  /-- An item found stays found. -/
  item_append : ∀ {s b n}, dec s = .ok (some (b, n)) → ∀ t, dec (s ++ t) = .ok (some (b, n))
  /-- An error raised stays raised. -/
  error_append : ∀ {s e}, dec s = .error e → ∀ t, dec (s ++ t) = .error e
  /-- An item uses symbols. -/
  pos : ∀ {s b n}, dec s = .ok (some (b, n)) → 0 < n
  /-- An item uses only symbols that are there. -/
  le_length : ∀ {s b n}, dec s = .ok (some (b, n)) → n ≤ s.length

/-- Apply `dec` at most `fuel` times: the items found and the symbols left. -/
def drainFuel (dec : Decoder α β ε) : ℕ → List α → Except ε (List β × List α)
  | 0, s => .ok ([], s)
  | _ + 1, [] => .ok ([], [])
  | fuel + 1, s@(_ :: _) =>
    match dec s with
    | .error e => .error e
    | .ok none => .ok ([], s)
    | .ok (some (b, n)) =>
      match drainFuel dec fuel (s.drop n) with
      | .error e => .error e
      | .ok (bs, r) => .ok (b :: bs, r)

/-- Apply `dec` until it finds no further item. An item uses at least one symbol, so the length of
the input bounds the number of applications. -/
def drain (dec : Decoder α β ε) (s : List α) : Except ε (List β × List α) :=
  drainFuel dec s.length s

/-- Drain a buffer after each of a sequence of reads, collecting the items. -/
def feed (dec : Decoder α β ε) : List α → List (List α) → Except ε (List β × List α)
  | buf, [] => .ok ([], buf)
  | buf, piece :: pieces =>
    match drain dec (buf ++ piece) with
    | .error e => .error e
    | .ok (bs, r) =>
      match feed dec r pieces with
      | .error e => .error e
      | .ok (bs', r') => .ok (bs ++ bs', r')

variable {dec : Decoder α β ε}

@[simp] theorem drain_nil : drain dec [] = .ok ([], []) := rfl

/-- Put items in front of the outcome of a drain. -/
def prepend (bs : List β) (r : Except ε (List β × List α)) : Except ε (List β × List α) :=
  r.map fun p => (bs ++ p.1, p.2)

@[simp] theorem prepend_ok (bs bs' : List β) (r : List α) :
    prepend bs (.ok (bs', r) : Except ε (List β × List α)) = .ok (bs ++ bs', r) := rfl

@[simp] theorem prepend_error (bs : List β) (e : ε) :
    prepend bs (.error e : Except ε (List β × List α)) = .error e := rfl

@[simp] theorem prepend_nil (r : Except ε (List β × List α)) : prepend [] r = r := by
  cases r <;> rfl

theorem prepend_prepend (bs cs : List β) (r : Except ε (List β × List α)) :
    prepend bs (prepend cs r) = prepend (bs ++ cs) r := by
  cases r <;> simp [prepend, Except.map]

namespace IsIncremental

variable (h : IsIncremental dec)
include h

/-- Any fuel that covers the input gives the same outcome. -/
theorem drainFuel_eq {fuel : ℕ} : ∀ {s : List α}, s.length ≤ fuel →
    drainFuel dec fuel s = drain dec s := by
  have key : ∀ (f g : ℕ) (s : List α), s.length ≤ f → s.length ≤ g →
      drainFuel dec f s = drainFuel dec g s := by
    intro f
    induction f with
    | zero =>
      intro g s hf _
      obtain rfl : s = [] := List.length_eq_zero_iff.mp (Nat.le_zero.mp hf)
      cases g <;> rfl
    | succ f ih =>
      intro g s hf hg
      cases s with
      | nil => cases g <;> rfl
      | cons a s =>
        cases g with
        | zero => exact absurd hg (by simp)
        | succ g =>
          simp only [drainFuel]
          cases hd : dec (a :: s) with
          | error e => rfl
          | ok o =>
            cases o with
            | none => rfl
            | some p =>
              obtain ⟨b, n⟩ := p
              -- an item takes at least one letter, so the rest needs less fuel
              have hpos := h.pos hd
              have hlen : ((a :: s).drop n).length ≤ s.length := by
                rw [List.length_drop, List.length_cons]
                omega
              have hs : ∀ {k}, (a :: s).length ≤ k + 1 → s.length ≤ k := by
                intro k hk
                rw [List.length_cons] at hk
                omega
              simp only [ih g _ (hlen.trans (hs hf)) (hlen.trans (hs hg))]
  intro s hs
  exact key fuel s.length s hs le_rfl

/-- One application of the decoder, and the drain of what it leaves. -/
theorem drain_of_item {s : List α} {b : β} {n : ℕ} (hd : dec s = .ok (some (b, n))) :
    drain dec s = prepend [b] (drain dec (s.drop n)) := by
  have hpos := h.pos hd
  have hle := h.le_length hd
  cases s with
  | nil => exact absurd hle (by rw [List.length_nil]; omega)
  | cons a s =>
    have hlen : ((a :: s).drop n).length ≤ s.length := by
      rw [List.length_drop, List.length_cons]
      omega
    change drainFuel dec (s.length + 1) (a :: s) = _
    simp only [drainFuel, hd, h.drainFuel_eq hlen]
    cases drain dec ((a :: s).drop n) <;> rfl

omit h in
theorem drain_of_none {s : List α} (hd : dec s = .ok none) : drain dec s = .ok ([], s) := by
  cases s with
  | nil => rfl
  | cons a s => simp only [drain, List.length_cons, drainFuel, hd]

omit h in
theorem drain_of_error {s : List α} {e : ε} (hs : s ≠ []) (hd : dec s = .error e) :
    drain dec s = .error e := by
  cases s with
  | nil => exact absurd rfl hs
  | cons a s => simp only [drain, List.length_cons, drainFuel, hd]

/-- **Draining an extended input** continues the drain of the input: the items of `s` first, then
whatever the symbols left over from `s` yield together with `t`. By induction on the input, one item
at a time. -/
theorem drain_append (t : List α) {s : List α} :
    drain dec (s ++ t) =
      match drain dec s with
      | .error e => .error e
      | .ok (bs, r) => prepend bs (drain dec (r ++ t)) := by
  induction hk : s.length using Nat.strong_induction_on generalizing s with
  | _ k ih =>
    by_cases hs : s = []
    · subst hs; simp
    cases hd : dec s with
    | error e =>
      rw [drain_of_error hs hd]
      exact drain_of_error (by simp [hs]) (h.error_append hd t)
    | ok o =>
      cases o with
      | none => rw [drain_of_none hd]; simp
      | some p =>
        obtain ⟨b, n⟩ := p
        have hpos := h.pos hd
        have hle := h.le_length hd
        have hlt : (s.drop n).length < k := by rw [List.length_drop]; omega
        -- what is left behind the first item is shorter
        have htail := ih _ hlt rfl
        rw [h.drain_of_item hd, h.drain_of_item (h.item_append hd t),
          List.drop_append_of_le_length hle, htail]
        cases drain dec (s.drop n) with
        | error e => rfl
        | ok p => rw [prepend_prepend]; rfl

/-- Draining what a drain leaves yields nothing more. -/
theorem drain_rest {s r : List α} {bs : List β} (hd : drain dec s = .ok (bs, r)) :
    drain dec r = .ok ([], r) := by
  induction hk : s.length using Nat.strong_induction_on generalizing s bs with
  | _ k ih =>
    by_cases hs : s = []
    · subst hs
      obtain ⟨rfl, rfl⟩ := Prod.mk.inj (Except.ok.inj hd)
      rfl
    cases hdec : dec s with
    | error e => rw [drain_of_error hs hdec] at hd; exact absurd hd (by simp)
    | ok o =>
      cases o with
      | none =>
        -- no item any more, and what is left is all
        rw [drain_of_none hdec] at hd
        obtain ⟨rfl, rfl⟩ := Prod.mk.inj (Except.ok.inj hd)
        exact drain_of_none hdec
      | some p =>
        obtain ⟨b, n⟩ := p
        have hpos := h.pos hdec
        have hle := h.le_length hdec
        have hlt : (s.drop n).length < k := by rw [List.length_drop]; omega
        rw [h.drain_of_item hdec] at hd
        cases htail : drain dec (s.drop n) with
        | error e => rw [htail] at hd; exact absurd hd (by simp)
        | ok q =>
          rw [htail, prepend_ok] at hd
          obtain ⟨-, rfl⟩ := Prod.mk.inj (Except.ok.inj hd)
          exact ih _ hlt htail rfl

/-- What a drain leaves is the end of the input. -/
theorem drain_suffix {s r : List α} {bs : List β} (hd : drain dec s = .ok (bs, r)) : r <:+ s := by
  induction hk : s.length using Nat.strong_induction_on generalizing s bs with
  | _ k ih =>
    by_cases hs : s = []
    · subst hs
      obtain ⟨-, rfl⟩ := Prod.mk.inj (Except.ok.inj hd)
      exact List.suffix_rfl
    cases hdec : dec s with
    | error e => rw [drain_of_error hs hdec] at hd; exact absurd hd (by simp)
    | ok o =>
      cases o with
      | none =>
        rw [drain_of_none hdec] at hd
        obtain ⟨-, rfl⟩ := Prod.mk.inj (Except.ok.inj hd)
        exact List.suffix_rfl
      | some p =>
        obtain ⟨b, n⟩ := p
        have hpos := h.pos hdec
        have hle := h.le_length hdec
        -- the rest behind an item is shorter
        have hlt : (s.drop n).length < k := by rw [List.length_drop]; omega
        rw [h.drain_of_item hdec] at hd
        cases htail : drain dec (s.drop n) with
        | error e => rw [htail] at hd; exact absurd hd (by simp)
        | ok q =>
          rw [htail, prepend_ok] at hd
          obtain ⟨-, rfl⟩ := Prod.mk.inj (Except.ok.inj hd)
          exact (ih _ hlt htail rfl).trans (List.drop_suffix n s)

/-- **Chunking invariance**, from any buffer that is itself drained. -/
theorem feed_eq_drain_append {buf : List α} (hbuf : drain dec buf = .ok ([], buf))
    (pieces : List (List α)) :
    feed dec buf pieces = drain dec (buf ++ pieces.flatten) := by
  induction pieces generalizing buf with
  | nil => rw [List.flatten_nil, List.append_nil, hbuf]; rfl
  | cons piece pieces ih =>
    rw [List.flatten_cons, ← List.append_assoc, h.drain_append, feed]
    cases hd : drain dec (buf ++ piece) with
    | error e => rfl
    | ok p =>
      obtain ⟨bs, r⟩ := p
      simp only [ih (h.drain_rest hd)]
      cases drain dec (r ++ pieces.flatten) <;> rfl

/-- **Chunking invariance.** -/
theorem feed_eq_drain (pieces : List (List α)) :
    feed dec [] pieces = drain dec pieces.flatten := by
  rw [h.feed_eq_drain_append drain_nil, List.nil_append]

end IsIncremental

end Incremental
