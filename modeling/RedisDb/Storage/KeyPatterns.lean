import RedisDb.Lib.Glob
import RedisDb.Storage.Database

/-!
# Key patterns

`globMatch` is the greedy loop of `Glob` with the bytes `*` and `?` as wildcards. It compares the bytes
of pattern and subject before it looks for a `*`, so a `*` of the pattern that faces a `*` of the subject
is read as that byte and no longer stands for a sequence: `globMatch` decides `Glob.MatchesLiteral`. A
subject that matches only when such a star stands for more, or for less, is turned away.
-/

namespace RedisDb

namespace Database

/-- The loop of `globMatch` gives the answer of the general loop, when that has one. -/
theorem globLoop_eq_run (fuel : ℕ) : ∀ (p s : Bytes) (star : Option (Bytes × Bytes)),
    globLoop fuel p s star = (Glob.run 42 63 fuel ⟨p, s, star⟩).getD false := by
  induction fuel with
  | zero =>
    intro p s star
    rw [globLoop]
    rfl
  | succ fuel ih =>
    -- both loops go back to the last star in the same way
    have hretry {star : Option (Bytes × Bytes)} {st : Glob.State UInt8}
        (hst : Glob.step 42 63 st = Glob.retry star) :
        globLoop.backtrack fuel star = (Glob.run 42 63 (fuel + 1) st).getD false := by
      rw [Glob.run, hst]
      rcases star with _ | ⟨p, _ | ⟨c, s⟩⟩
      · simp [globLoop.backtrack, Glob.retry]
      · simp [globLoop.backtrack, Glob.retry]
      · rw [globLoop.backtrack]
        exact ih p s (some (p, s))
    rintro p (_ | ⟨c, s⟩) star
    · rw [globLoop]
      cases p <;> rfl
    · rcases p with _ | ⟨b, p⟩ <;> rw [globLoop]
      · exact hretry rfl
      · -- the letter matches, it is a star, or it differs: in this order in both loops
        by_cases hc : b = 63 ∨ b = c
        · rw [if_pos hc, Glob.run, Glob.step, if_pos hc]
          exact ih p s star
        · by_cases hb : b = 42
          · rw [if_neg hc, if_pos hb, Glob.run, Glob.step, if_neg hc, if_pos hb]
            exact ih p (c :: s) (some (p, c :: s))
          · rw [if_neg hc, if_neg hb]
            exact hretry (by rw [Glob.step, if_neg hc, if_neg hb])

/-- **`globMatch` ends**, within as many rounds as there are pairs of positions, and decides the
language in which a `*` that faces a `*` is that byte. -/
theorem globMatch_spec (pattern s : Bytes) :
    Glob.run 42 63 ((pattern.length + 1) * (s.length + 1)) ⟨pattern, s, none⟩
      = some (globMatch pattern s) ∧
    (globMatch pattern s = true ↔ Glob.MatchesLiteral 42 63 pattern s) := by
  obtain ⟨b, hrun, hb⟩ := Glob.run_start (42 : UInt8) 63 (p := pattern) (s := s) le_rfl
  -- the loop of the model is given more rounds than that, and they change nothing
  obtain ⟨b', hrun', hb'⟩ := Glob.run_start (42 : UInt8) 63 (p := pattern) (s := s)
    (n := (pattern.length + 1) * (s.length + 1) * (s.length + 1) + 1)
    (Nat.le_succ_of_le (Nat.le_mul_of_pos_right _ (Nat.succ_pos _)))
  have hmatch : globMatch pattern s = b' := by
    rw [globMatch, globLoop_eq_run, hrun', Option.getD_some]
  have heq : b = b' := Bool.eq_iff_iff.mpr (hb.trans hb'.symm)
  rw [hmatch, hrun, heq]
  exact ⟨rfl, hb'⟩

/-- **When `globMatch` is right.** It ends on every pattern and subject. Its answer is the one the wildcards call for
exactly when a subject that matches also matches with every `*` that faces a `*` read as that byte; a subject without
a `*` is such a one. What the search decides is found by induction on the rounds of its loop: it takes a `*` that
faces a `*` for the byte, and is otherwise the backtracking search to the last star, which is complete. -/
theorem globMatch_correct_iff (pattern s : Bytes) :
    (∃ rounds, Glob.run 42 63 rounds ⟨pattern, s, none⟩ = some (globMatch pattern s)) ∧
    ((globMatch pattern s = true ↔ Glob.Matches 42 63 pattern s) ↔
      (Glob.Matches 42 63 pattern s → Glob.MatchesLiteral 42 63 pattern s)) ∧
    (42 ∉ s → (globMatch pattern s = true ↔ Glob.Matches 42 63 pattern s)) := by
  obtain ⟨hends, hspec⟩ := globMatch_spec pattern s
  have hne : (42 : UInt8) ≠ 63 := by decide
  refine ⟨⟨_, hends⟩, ?_, fun hs => ?_⟩
  · rw [hspec]
    exact ⟨fun h => h.mpr, fun h => ⟨fun hliteral => hliteral.matches hne, h⟩⟩
  · rw [hspec]
    exact ⟨fun h => h.matches hne, fun h => h.literal hne hs⟩

/-- The subject `*ba` ends in `a`, but the pattern `*a` is turned away: its star is spent on the star of
the subject. -/
theorem globMatch_star_faces_star :
    Glob.Matches 42 63 (str "*a") (str "*ba") ∧ globMatch (str "*a") (str "*ba") = false :=
  ⟨.star (str "*b") (.letter (by decide) (by decide) .nil), by
    rw [Bool.eq_false_iff, ne_eq, (globMatch_spec _ _).2]
    simp [Glob.MatchesLiteral, str]⟩

end Database

end RedisDb
