import Mathlib.Tactic

/-!
# Patterns with wildcards

Patterns over any alphabet in which one letter, `star`, stands for any sequence and another, `any`, for
any single letter. `Matches` is what a pattern means.

`run` is the greedy loop for them: it reads pattern and subject from the left, and where it gets stuck
it goes back to the last star only and lets that star take one letter more. It compares letters before
it looks for a star, so a star of the pattern that faces a star of the subject is read as that letter.
`MatchesLiteral` is the language in which a star is read so, and `run_ends` says that the loop decides
this language, in at most as many rounds as `rounds` counts. The invariant is `Follows`: since the last
star the loop has read letter by letter, so whatever an earlier choice could reach, this one reaches too.
-/

namespace Glob

variable {α : Type*} {star any : α}

/-! ### What a pattern means -/

/-- The subject matches the pattern. -/
inductive Matches (star any : α) : List α → List α → Prop
  | nil : Matches star any [] []
  | star {p t : List α} (s : List α) (h : Matches star any p t) : Matches star any (star :: p) (s ++ t)
  | any {p s : List α} (c : α) (h : Matches star any p s) : Matches star any (any :: p) (c :: s)
  | letter {p s : List α} {b : α} (hstar : b ≠ star) (hany : b ≠ any) (h : Matches star any p s) :
    Matches star any (b :: p) (b :: s)

theorem matches_nil_iff {s : List α} : Matches star any [] s ↔ s = [] :=
  ⟨fun h => by cases h; rfl, by rintro rfl; exact .nil⟩

/-- A star takes some beginning of the subject. -/
theorem matches_star_iff (hne : star ≠ any) {p s : List α} :
    Matches star any (star :: p) s ↔ ∃ t, t <:+ s ∧ Matches star any p t := by
  refine ⟨fun h => ?_, ?_⟩
  · generalize hq : star :: p = q at h
    cases h with
    | nil => cases hq
    | star s h => cases hq; exact ⟨_, List.suffix_append s _, h⟩
    | any c h => cases hq; exact absurd rfl hne
    | letter hstar hany h => cases hq; exact absurd rfl hstar
  · rintro ⟨t, ⟨u, rfl⟩, h⟩
    exact .star u h

/-- Any other letter of a pattern takes one letter. -/
theorem matches_cons_iff {b : α} (hb : b ≠ star) {p s : List α} :
    Matches star any (b :: p) s ↔ ∃ c t, s = c :: t ∧ (b = any ∨ b = c) ∧ Matches star any p t := by
  refine ⟨fun h => ?_, ?_⟩
  · generalize hq : b :: p = q at h
    cases h with
    | nil => cases hq
    | star s h => cases hq; exact absurd rfl hb
    | any c h => cases hq; exact ⟨c, _, rfl, .inl rfl, h⟩
    | letter hstar hany h => cases hq; exact ⟨_, _, rfl, .inr rfl, h⟩
  · rintro ⟨c, t, rfl, hc, h⟩
    by_cases hany : b = any
    · subst hany
      exact .any c h
    · obtain rfl : b = c := hc.resolve_left hany
      exact .letter hb hany h

variable [DecidableEq α]

/-- The subject matches the pattern when a star that faces a letter equal to it stands for that letter
and nothing else. -/
def MatchesLiteral (star any : α) : List α → List α → Prop
  | [], s => s = []
  | b :: p, [] => b = star ∧ MatchesLiteral star any p []
  | b :: p, c :: s =>
    if b = any ∨ b = c then MatchesLiteral star any p s
    else b = star ∧ ∃ t, t <:+ c :: s ∧ MatchesLiteral star any p t

omit [DecidableEq α] in
/-- No star is left over: the pattern stands for the empty sequence. -/
theorem matches_nil_right_iff (hne : star ≠ any) {p : List α} :
    Matches star any p [] ↔ ∀ b ∈ p, b = star := by
  induction p with
  | nil => simp [matches_nil_iff]
  | cons b p ih =>
    rw [List.forall_mem_cons]
    by_cases hb : b = star
    · subst hb
      rw [matches_star_iff hne]
      simp [ih]
    · rw [matches_cons_iff hb]
      simp [hb]

theorem matchesLiteral_nil_right_iff {p : List α} :
    MatchesLiteral star any p [] ↔ ∀ b ∈ p, b = star := by
  induction p with
  | nil => simp [MatchesLiteral]
  | cons b p ih => rw [MatchesLiteral, ih, List.forall_mem_cons]

/-- To read a star as a letter is one way of matching. -/
theorem MatchesLiteral.matches (hne : star ≠ any) {p : List α} : ∀ {s : List α},
    MatchesLiteral star any p s → Matches star any p s := by
  induction p with
  | nil => exact fun h => matches_nil_iff.mpr h
  | cons b p ih =>
    rintro (_ | ⟨c, s⟩) h
    · exact (matches_nil_right_iff hne).mpr (matchesLiteral_nil_right_iff.mp h)
    · rw [MatchesLiteral] at h
      split at h
      · rename_i hc
        by_cases hb : b = star
        · subst hb
          exact (matches_star_iff hne).mpr ⟨s, List.suffix_cons c s, ih h⟩
        · exact (matches_cons_iff hb).mpr ⟨c, s, rfl, hc, ih h⟩
      · obtain ⟨rfl, t, ht, h⟩ := h
        exact (matches_star_iff hne).mpr ⟨t, ht, ih h⟩

/-- In a subject without stars no star can be read as a letter. -/
theorem Matches.literal (hne : star ≠ any) {p : List α} : ∀ {s : List α}, star ∉ s →
    Matches star any p s → MatchesLiteral star any p s := by
  induction p with
  | nil => exact fun _ h => matches_nil_iff.mp h
  | cons b p ih =>
    rintro (_ | ⟨c, s⟩) hs h
    · exact matchesLiteral_nil_right_iff.mpr ((matches_nil_right_iff hne).mp h)
    · rw [MatchesLiteral]
      have htail : star ∉ s := fun hmem => hs (List.mem_cons_of_mem c hmem)
      by_cases hb : b = star
      · subst hb
        -- a star in the pattern faces no star, and is read as a wildcard
        have hc : ¬ (b = any ∨ b = c) := by
          rintro (rfl | rfl)
          · exact hne rfl
          · exact hs List.mem_cons_self
        rw [if_neg hc]
        obtain ⟨t, ht, h⟩ := (matches_star_iff hne).mp h
        exact ⟨rfl, t, ht, ih (fun hmem => hs (ht.mem hmem)) h⟩
      · obtain ⟨c', s', heq, hc, h⟩ := (matches_cons_iff hb).mp h
        obtain ⟨rfl, rfl⟩ := List.cons.inj heq
        rw [if_pos hc]
        exact ih htail h

/-- What pattern and subject have in common at their beginning is read letter by letter. -/
theorem matchesLiteral_append_iff (u : List α) {p s : List α} :
    MatchesLiteral star any (u ++ p) (u ++ s) ↔ MatchesLiteral star any p s := by
  induction u with
  | nil => rfl
  | cons b u ih =>
    rw [List.cons_append, List.cons_append, MatchesLiteral, if_pos (.inr rfl)]
    exact ih

/-- Where pattern and subject differ, the letter of the pattern is a wildcard. -/
theorem matchesLiteral_cons_iff (hne : star ≠ any) {b : α} {p s : List α} (hhead : s.head? ≠ some b) :
    MatchesLiteral star any (b :: p) s ↔
      (b = any ∧ ∃ c t, s = c :: t ∧ MatchesLiteral star any p t) ∨
      b = star ∧ ∃ t, t <:+ s ∧ MatchesLiteral star any p t := by
  rcases s with _ | ⟨c, s⟩
  · simp [MatchesLiteral]
  · have hbc : b ≠ c := fun h => hhead (by rw [h]; rfl)
    rw [MatchesLiteral]
    by_cases hb : b = any
    · subst hb
      simp [hne.symm]
    · rw [if_neg (by simp [hb, hbc])]
      simp [hb]

/-- A star that ends the pattern stands for anything that does not begin with a star, and for one star. -/
theorem matchesLiteral_star_iff (hne : star ≠ any) {s : List α} :
    MatchesLiteral star any [star] s ↔ ∀ t, s = star :: t → t = [] := by
  rcases s with _ | ⟨c, s⟩
  · simp [MatchesLiteral]
  · by_cases hc : star = c
    · subst hc
      simp [MatchesLiteral]
    · have hstar : MatchesLiteral star any [star] (c :: s) := by
        rw [MatchesLiteral, if_neg (by simp [hne, hc])]
        exact ⟨rfl, [], List.nil_suffix, rfl⟩
      refine iff_of_true hstar fun t h => absurd (List.cons.inj h).1.symm hc

/-! ### The loop -/

/-- Where the loop stands: what is left of the pattern and of the subject, and the same behind the last
star at the place where that star now ends. -/
structure State (α : Type*) where
  pattern : List α
  subject : List α
  last : Option (List α × List α)

/-- Let the last star take one letter more. -/
def retry : Option (List α × List α) → State α ⊕ Bool
  | some (p, _ :: s) => .inl ⟨p, s, some (p, s)⟩
  | _ => .inr false

/-- One round of the loop, or the answer. -/
def step (star any : α) : State α → State α ⊕ Bool
  | ⟨p, [], _⟩ => .inr (p.all (· = star))
  | ⟨b :: p, c :: s, last⟩ =>
    if b = any ∨ b = c then .inl ⟨p, s, last⟩
    else if b = star then .inl ⟨p, c :: s, some (p, c :: s)⟩
    else retry last
  | ⟨[], _ :: _, last⟩ => retry last

/-- The answer, when the loop gives one in so many rounds. -/
def run (star any : α) : ℕ → State α → Option Bool
  | 0, _ => none
  | n + 1, st =>
    match step star any st with
    | .inl st => run star any n st
    | .inr b => some b

/-! ### The invariant -/

/-- From `p` and `s` one gets to `q` and `t` letter by letter, each letter of the pattern facing one of
the subject that it stands for. -/
inductive Follows (any : α) : List α → List α → List α → List α → Prop
  | refl (p s : List α) : Follows any p s p s
  | letter {p s q t : List α} {b c : α} (h : Follows any p s (b :: q) (c :: t)) (hc : b = any ∨ b = c) :
    Follows any p s q t

omit [DecidableEq α] in
theorem Follows.suffix {p s q t : List α} (h : Follows any p s q t) : t <:+ s := by
  induction h with
  | refl => exact List.suffix_rfl
  | letter _ _ ih => exact (List.suffix_cons _ _).trans ih

/-- **Earlier choices need no second look.** What a match of the whole pattern further on in the subject
leaves for the rest of the pattern lies within what is left after reading letter by letter. -/
theorem Follows.matchesLiteral {p s q t : List α} (h : Follows any p s q t) {u : List α} (hu : u <:+ s)
    (hmatch : MatchesLiteral star any p u) : ∃ v, v <:+ t ∧ MatchesLiteral star any q v := by
  induction h with
  | refl => exact ⟨u, hu, hmatch⟩
  | @letter q t b c _ hc ih =>
    obtain ⟨v, hv, hmatch⟩ := ih
    rcases v with _ | ⟨d, v⟩
    · exact ⟨[], List.nil_suffix, hmatch.2⟩
    · have htail : v <:+ t := by
        rcases List.suffix_cons_iff.mp hv with heq | hv
        · rw [(List.cons.inj heq).2]
        · exact (List.suffix_cons d v).trans hv
      rw [MatchesLiteral] at hmatch
      split at hmatch
      · exact ⟨v, htail, hmatch⟩
      · rename_i hd
        obtain ⟨-, w, hw, hmatch⟩ := hmatch
        -- the star may take nothing only when it stands further on, since here it is read as a letter
        rcases List.suffix_cons_iff.mp (hw.trans hv) with rfl | hw'
        · have heq : d :: v = c :: t := hv.eq_of_length_le hw.length_le
          rw [(List.cons.inj heq).1] at hd
          exact absurd hc hd
        · exact ⟨w, hw', hmatch⟩

/-- The loop has read letter by letter since the last star, and no pattern is longer than `m`. -/
structure Good (any : α) (m : ℕ) (st : State α) : Prop where
  follows : ∀ q u, st.last = some (q, u) → Follows any q u st.pattern st.subject
  length_le : st.pattern.length ≤ m
  last_le : ∀ q u, st.last = some (q, u) → q.length ≤ m

/-- The answer that is due: what is left matches, or the last star can take more. -/
def Holds (star any : α) (st : State α) : Prop :=
  MatchesLiteral star any st.pattern st.subject ∨
  ∃ q u, st.last = some (q, u) ∧ ∃ t, t <:+ u ∧ t ≠ u ∧ MatchesLiteral star any q t

/-- How many rounds may still come. -/
def rounds (m : ℕ) (st : State α) : ℕ :=
  (match st.last with
    | none => st.subject.length
    | some (_, u) => u.length) * (m + 1) + st.pattern.length

/-- What the answer to one round, or the state after it, has to be. -/
def StepSpec (star any : α) (m : ℕ) (st : State α) : State α ⊕ Bool → Prop
  | .inl st' => Good any m st' ∧ (Holds star any st' ↔ Holds star any st) ∧ rounds m st' < rounds m st
  | .inr b => b = true ↔ Holds star any st

omit [DecidableEq α] in
theorem suffix_ne_cons_iff {t s : List α} {c : α} : t <:+ c :: s ∧ t ≠ c :: s ↔ t <:+ s := by
  rw [List.suffix_cons_iff]
  refine ⟨fun h => h.1.resolve_left h.2, fun h => ⟨.inr h, ?_⟩⟩
  rintro rfl
  exact Nat.not_succ_le_self _ h.length_le

/-- Nothing else is left than to go back to the last star. -/
theorem retry_spec {m : ℕ} {st : State α} (hst : Good any m st)
    (hstuck : ¬ MatchesLiteral star any st.pattern st.subject) :
    StepSpec star any m st (retry st.last) := by
  obtain ⟨p, s, last⟩ := st
  have hholds : Holds star any ⟨p, s, last⟩ ↔
      ∃ q u, last = some (q, u) ∧ ∃ t, t <:+ u ∧ t ≠ u ∧ MatchesLiteral star any q t :=
    or_iff_right hstuck
  rcases last with _ | ⟨q, _ | ⟨c, u⟩⟩
  · show false = true ↔ _
    rw [hholds]
    simp
  · show false = true ↔ _
    rw [hholds]
    simp
  · have hq : q.length ≤ m := hst.last_le q _ rfl
    refine ⟨⟨?_, hq, ?_⟩, ?_, ?_⟩
    · rintro q' u' ⟨⟩
      exact .refl q u
    · rintro q' u' ⟨⟩
      exact hq
    · -- one letter more, or still more than that
      rw [hholds]
      refine ⟨?_, ?_⟩
      · rintro (h | ⟨q', u', heq, t, ht, -, h⟩)
        · exact ⟨q, c :: u, rfl, u, (suffix_ne_cons_iff.mpr List.suffix_rfl).1,
            (suffix_ne_cons_iff.mpr List.suffix_rfl).2, h⟩
        · obtain ⟨rfl, rfl⟩ := Prod.mk.inj (Option.some.inj heq)
          exact ⟨q, c :: u, rfl, t, (suffix_ne_cons_iff.mpr ht).1, (suffix_ne_cons_iff.mpr ht).2, h⟩
      · rintro ⟨q', u', heq, t, ht, hne, h⟩
        obtain ⟨rfl, rfl⟩ := Prod.mk.inj (Option.some.inj heq)
        have ht : t <:+ u := suffix_ne_cons_iff.mp ⟨ht, hne⟩
        by_cases htu : t = u
        · exact .inl (htu ▸ h)
        · exact .inr ⟨q, u, rfl, t, ht, htu, h⟩
    · have hp : q.length < m + 1 + p.length := by omega
      calc u.length * (m + 1) + q.length
          < u.length * (m + 1) + (m + 1 + p.length) := Nat.add_lt_add_left hp _
        _ = (c :: u).length * (m + 1) + p.length := by rw [List.length_cons]; ring

/-- **One round**: the invariant is kept, the answer that is due stays the same, and fewer rounds are
left. -/
theorem step_spec {m : ℕ} {st : State α} (hst : Good any m st) :
    StepSpec star any m st (step star any st) := by
  obtain ⟨p, s, last⟩ := st
  have hfollows : ∀ q u, last = some (q, u) → Follows any q u p s := hst.follows
  rcases s with _ | ⟨c, s⟩
  · -- the subject is used up: what an earlier star could still leave is nothing, too
    show p.all (· = star) = true ↔ _
    rw [List.all_eq_true]
    simp only [decide_eq_true_eq]
    rw [← @matchesLiteral_nil_right_iff α star any]
    refine ⟨.inl, ?_⟩
    rintro (h | ⟨q, u, rfl, t, ht, -, h⟩)
    · exact h
    · obtain ⟨v, hv, h⟩ := (hfollows q u rfl).matchesLiteral ht h
      exact List.suffix_nil.mp hv ▸ h
  · rcases p with _ | ⟨b, p⟩
    · exact retry_spec hst (List.cons_ne_nil c s)
    · have hp : p.length + 1 ≤ m := hst.length_le
      rw [step]
      split
      · rename_i hc
        -- one letter is read
        have hmatch : MatchesLiteral star any (b :: p) (c :: s) ↔ MatchesLiteral star any p s := by
          rw [MatchesLiteral, if_pos hc]
        refine ⟨⟨fun q u hlast => .letter (hfollows q u hlast) hc, Nat.le_of_succ_le hp, hst.last_le⟩,
          or_congr hmatch.symm Iff.rfl, ?_⟩
        rcases last with _ | ⟨q, u⟩
        · exact Nat.add_lt_add_of_le_of_lt (Nat.mul_le_mul_right _ (Nat.le_succ _)) (Nat.lt_succ_self _)
        · exact Nat.add_lt_add_left (Nat.lt_succ_self _) _
      · rename_i hc
        have hmatch : MatchesLiteral star any (b :: p) (c :: s) ↔
            b = star ∧ ∃ t, t <:+ c :: s ∧ MatchesLiteral star any p t := by
          rw [MatchesLiteral, if_neg hc]
        split
        · rename_i hb
          -- a star: from here on it is the last one
          refine ⟨⟨?_, Nat.le_of_succ_le hp, ?_⟩, ?_, ?_⟩
          · rintro q u ⟨⟩
            exact .refl p (c :: s)
          · rintro q u ⟨⟩
            exact Nat.le_of_succ_le hp
          · have hhere : Holds star any ⟨p, c :: s, some (p, c :: s)⟩ ↔
                ∃ t, t <:+ c :: s ∧ MatchesLiteral star any p t := by
              refine ⟨?_, ?_⟩
              · rintro (h | ⟨q, u, heq, t, ht, -, h⟩)
                · exact ⟨c :: s, List.suffix_rfl, h⟩
                · obtain ⟨rfl, rfl⟩ := Prod.mk.inj (Option.some.inj heq)
                  exact ⟨t, ht, h⟩
              · rintro ⟨t, ht, h⟩
                by_cases heq : t = c :: s
                · exact .inl (heq ▸ h)
                · exact .inr ⟨p, c :: s, rfl, t, ht, heq, h⟩
            rw [hhere]
            refine ⟨fun h => .inl (hmatch.mpr ⟨hb, h⟩), ?_⟩
            rintro (h | ⟨q, u, hlast, t, ht, -, h⟩)
            · exact (hmatch.mp h).2
            · -- what the star before could leave to this one, this one can take over
              obtain ⟨v, hv, h⟩ := (hfollows q u hlast).matchesLiteral ht h
              rcases v with _ | ⟨d, v⟩
              · exact ⟨[], List.nil_suffix, h.2⟩
              · rw [MatchesLiteral] at h
                split at h
                · exact ⟨v, (List.suffix_cons d v).trans hv, h⟩
                · obtain ⟨-, w, hw, h⟩ := h
                  exact ⟨w, hw.trans hv, h⟩
          · refine Nat.add_lt_add_of_le_of_lt (Nat.mul_le_mul_right _ ?_) (Nat.lt_succ_self _)
            rcases last with _ | ⟨q, u⟩
            · exact le_rfl
            · exact (hfollows q u rfl).suffix.length_le
        · rename_i hb
          exact retry_spec hst fun h => hb (hmatch.mp h).1

/-- **The loop** ends within its rounds, with the answer that is due. By induction on the rounds. -/
theorem run_ends {m n : ℕ} : ∀ {st : State α}, Good any m st → rounds m st < n →
    ∃ b, run star any n st = some b ∧ (b = true ↔ Holds star any st) := by
  induction n with
  | zero => exact fun _ hn => absurd hn (Nat.not_lt_zero _)
  | succ n ih =>
    intro st hst hn
    have hstep := @step_spec α star any _ m st hst
    rw [run]
    rcases hx : step star any st with st' | b <;> rw [hx] at hstep
    · obtain ⟨hst', hholds, hrounds⟩ := hstep
      obtain ⟨b, hrun, hb⟩ := ih hst' (hrounds.trans_le (Nat.le_of_lt_succ hn))
      exact ⟨b, hrun, hb.trans hholds⟩
    · exact ⟨b, rfl, hstep⟩

/-- **The loop from the beginning** decides the language in which a star that faces itself is a letter. -/
theorem run_start (star any : α) {p s : List α} {n : ℕ} (hn : (p.length + 1) * (s.length + 1) ≤ n) :
    ∃ b, run star any n ⟨p, s, none⟩ = some b ∧ (b = true ↔ MatchesLiteral star any p s) := by
  have hgood : Good any p.length ⟨p, s, none⟩ := ⟨nofun, le_rfl, nofun⟩
  have hrounds : rounds p.length ⟨p, s, none⟩ < n :=
    calc s.length * (p.length + 1) + p.length
        < s.length * (p.length + 1) + (p.length + 1) := Nat.add_lt_add_left (Nat.lt_succ_self _) _
      _ = (p.length + 1) * (s.length + 1) := by ring
      _ ≤ n := hn
  obtain ⟨b, hrun, hb⟩ := run_ends hgood hrounds
  exact ⟨b, hrun, hb.trans (or_iff_left (by simp))⟩

end Glob
