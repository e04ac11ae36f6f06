import RedisDb.Server.PubsubDelivery
import RedisDb.Storage.KeyPatterns

/-!
# The patterns of channels and the patterns of keys

`publishMessage` has a matcher of its own: a pattern that ends in `*` matches what begins with the rest
of it, and any other pattern matches itself (`patternMatches_iff`). `globMatch` reads `?` and every `*` as
wildcards. `matchers_agree_iff` says on which channels the two give the same answer, and
`pattern_delivery` what follows for the client of a pattern.
-/

namespace RedisDb

open RespSerializer EffectM

/-! ### The two matchers -/

theorem patternMatches_iff {pattern channel : Bytes} : patternMatches pattern channel = true ↔
    pattern = channel ∨ ∃ q r, pattern = q ++ [42] ∧ channel = q ++ r := by
  rw [patternMatches]
  split
  · next hlast =>
    -- a star at the end stands for anything, and nothing else stands for something else
    obtain ⟨q, rfl⟩ := List.getLast?_eq_some_iff.mp hlast
    rw [List.dropLast_concat, List.length_append, List.length_singleton, Nat.add_sub_cancel, decide_eq_true_iff]
    constructor
    · intro htake
      obtain ⟨r, hr⟩ := List.prefix_iff_eq_take.mpr htake.symm
      exact .inr ⟨q, r, rfl, hr.symm⟩
    · rintro (rfl | ⟨q', r, hq, rfl⟩)
      · exact List.take_left
      · obtain ⟨rfl, -⟩ := List.append_inj' hq rfl
        exact List.take_left
  · next hlast =>
    rw [decide_eq_true_iff]
    refine ⟨.inl, ?_⟩
    rintro (rfl | ⟨q, r, rfl, -⟩)
    · rfl
    · exact absurd List.getLast?_concat hlast

/-- A wildcard other than a star at the end bridges a difference: the letter `b` of the pattern faces a
letter other than itself, and with `b` standing for it, or for some of what follows, the rest matches. -/
def Bridges (b : UInt8) (pattern channel : Bytes) : Prop :=
  (b = 63 ∧ ∃ c rest, channel = c :: rest ∧ Glob.MatchesLiteral 42 63 pattern rest) ∨
  (b = 42 ∧ pattern ≠ [] ∧ ∃ rest, rest <:+ channel ∧ Glob.MatchesLiteral 42 63 pattern rest)

/-- The two matchers have nothing to disagree about: a star at the end of the pattern does not face a
star with something behind it, and where pattern and channel differ first, no `?` and no other star
bridges the difference. -/
structure NoDispute (pattern channel : Bytes) : Prop where
  trailing : ∀ q r, pattern = q ++ [42] → channel = q ++ 42 :: r → r = []
  bridge : ∀ (u : Bytes) (b : UInt8) (q r : Bytes), pattern = u ++ b :: q → channel = u ++ r → r.head? ≠ some b →
    ¬ Bridges b q r

/-- Two texts up to where they differ. -/
theorem exists_common_prefix (p s : Bytes) : ∃ u q r, p = u ++ q ∧ s = u ++ r ∧
    ∀ b q', q = b :: q' → r.head? ≠ some b := by
  induction p generalizing s with
  | nil => exact ⟨[], [], s, rfl, rfl, fun b q' h => nomatch h⟩
  | cons b p ih =>
    by_cases hb : s.head? = some b
    · obtain ⟨s, rfl⟩ := List.head?_eq_some_iff.mp hb
      obtain ⟨u, q, r, hp, hs, hdiffer⟩ := ih s
      exact ⟨b :: u, q, r, by rw [hp, List.cons_append], by rw [hs, List.cons_append], hdiffer⟩
    · refine ⟨[], b :: p, s, rfl, rfl, fun c q' h => ?_⟩
      rw [← (List.cons.inj h).1]
      exact hb

/-- **The two matchers agree** where they have nothing to disagree about, and nowhere else. Each dispute lets one
matcher accept what the other refuses. Where there is none, the first letter in which pattern and channel differ is
the star at the end. -/
theorem matchers_agree_iff (pattern channel : Bytes) :
    (patternMatches pattern channel = true ↔ Database.globMatch pattern channel = true) ↔
      NoDispute pattern channel := by
  have hne : (42 : UInt8) ≠ 63 := by decide
  rw [(Database.globMatch_spec pattern channel).2, patternMatches_iff]
  constructor
  · -- each of the two disputes would make one matcher accept and the other refuse
    intro hagree
    refine ⟨?_, ?_⟩
    · rintro q r rfl rfl
      -- the prefix test accepts, and the full matcher takes the star for the one it faces
      have hglob := hagree.mp (.inr ⟨q, 42 :: r, rfl, rfl⟩)
      rw [Glob.matchesLiteral_append_iff, Glob.matchesLiteral_star_iff hne] at hglob
      exact hglob r rfl
    · rintro u b q r rfl rfl hhead hbridges
      -- the full matcher bridges the letter, so the simple one has to match too
      have hglob : Glob.MatchesLiteral 42 63 (u ++ b :: q) (u ++ r) := by
        rw [Glob.matchesLiteral_append_iff, Glob.matchesLiteral_cons_iff hne hhead]
        exact hbridges.imp id fun h => ⟨h.1, h.2.2⟩
      rcases hagree.mpr hglob with heq | ⟨q', r', hpattern, hchannel⟩
      · exact hhead (by rw [← List.append_cancel_left heq]; rfl)
      · -- the star at the end is not the letter that differs, so that letter faces itself
        rcases List.eq_nil_or_concat q with rfl | ⟨q, d, rfl⟩
        · obtain ⟨-, hb⟩ := List.append_inj' hpattern rfl
          rcases hbridges with ⟨rfl, -⟩ | ⟨-, hnil, -⟩
          · exact hne (List.cons.inj hb).1.symm
          · exact hnil rfl
        · rw [List.concat_eq_append] at hpattern
          have hcut : (u ++ b :: q) ++ [d] = q' ++ [42] := by rw [← hpattern]; simp
          obtain ⟨rfl, -⟩ := List.append_inj' hcut rfl
          rw [List.append_assoc] at hchannel
          exact hhead (by rw [List.append_cancel_left hchannel]; rfl)
  · intro hno
    constructor
    · rintro (rfl | ⟨q, r, rfl, rfl⟩)
      · have hself : Glob.MatchesLiteral 42 63 (pattern ++ []) (pattern ++ []) :=
          (Glob.matchesLiteral_append_iff pattern).mpr rfl
        rwa [List.append_nil] at hself
      · rw [Glob.matchesLiteral_append_iff, Glob.matchesLiteral_star_iff hne]
        rintro t rfl
        exact hno.trailing q t rfl rfl
    · intro hglob
      -- the two texts up to the first letter where they differ
      obtain ⟨u, q, r, rfl, rfl, hdiffer⟩ := exists_common_prefix pattern channel
      rw [Glob.matchesLiteral_append_iff] at hglob
      cases q with
      | nil => exact .inl (by rw [show r = [] from hglob])
      | cons b q =>
        have hhead := hdiffer b q rfl
        have hbridge := hno.bridge u b q r rfl rfl hhead
        rcases (Glob.matchesLiteral_cons_iff hne hhead).mp hglob with hany | ⟨rfl, hstar⟩
        · exact absurd (.inl hany) hbridge
        · -- the star that differs can only be the one at the end
          have hq : q = [] := by
            by_contra hq
            exact hbridge (.inr ⟨rfl, hq, hstar⟩)
          exact .inr ⟨u, r, by rw [hq], rfl⟩

namespace Server

/-! ### The messages for a pattern -/

section Delivery

variable {S : Type} [Platform]

/-- `publishMessage` of a message sends a client one message for each of some of its patterns. -/
def SentFor (s : Server S) (c : ClientId) (channel message : Bytes) (chosen : Client → List Bytes → Prop) : Prop :=
  ∃ n t, (publishMessage channel message : ServerM S c ℤ).run s = some (.ok n, t) ∧
    ∀ id cl, s.clients.lookup id = some cl → ∃ patterns : List Bytes, patterns.Nodup ∧
      t.clients.lookup id = some (cl.addReply (messages cl channel message patterns)) ∧ chosen cl patterns

/-- **Pattern subscriptions and `KEYS`**: in every state that the steps of a run pass through, a client subscribed to
a pattern is sent a message for it exactly when `globMatch` accepts the channel, if the matchers have nothing to
disagree about, and not otherwise. What is sent goes by the second matcher, of which `publishMessage` asks each
pattern in turn; so it remains to compare the two matchers. -/
theorem pattern_delivery {start s : Server S} (hstart : start.Starts) (hmoves : Moves start s)
    (hnonempty : ∀ p ∈ s.pubsubPatterns, p.1 ≠ []) (c : ClientId) (channel message : Bytes) :
    s.SentFor c channel message fun cl patterns => (∀ pattern ∈ patterns, pattern ∈ cl.pubsubPatterns) ∧
      ∀ pattern ∈ cl.pubsubPatterns.keys,
        ((pattern ∈ patterns ↔ Database.globMatch pattern channel = true) ↔ NoDispute pattern channel) := by
  obtain ⟨t, hrun, -, hsent⟩ := run_publishMessage (hmoves.exact hstart.exact) c channel message hnonempty
  refine ⟨_, t, hrun, fun id cl hcl => ?_⟩
  obtain ⟨patterns, hperm, ht⟩ := hsent id cl hcl
  have hmem : ∀ pattern, pattern ∈ patterns ↔
      pattern ∈ cl.pubsubPatterns.keys ∧ patternMatches pattern channel = true := fun pattern => by
    rw [hperm.mem_iff, List.mem_filter]
  refine ⟨patterns, hperm.nodup_iff.mpr (cl.pubsubPatterns.keys_nodup.filter _), ht,
    fun pattern h => AList.mem_keys.mpr ((hmem pattern).mp h).1, fun pattern hsub => ?_⟩
  rw [hmem, and_iff_right hsub]
  exact matchers_agree_iff pattern channel

end Delivery

section Sample

open Sample

/-- A client subscribes to patterns with a wildcard. -/
def subscribed : List Turn := [.accept, sends 0 ["PSUBSCRIBE", "news.*", "h?llo"]]

theorem pattern_delivery_subscribed : ∃ s : Server Score, (∃ cl, s.clients.lookup 0 = some cl ∧
      str "news.*" ∈ cl.pubsubPatterns.keys) ∧ NoDispute (str "news.*") (str "news.a") ∧
    s.SentFor 0 (str "news.a") (str "m") fun cl patterns => (∀ pattern ∈ patterns, pattern ∈ cl.pubsubPatterns) ∧
      ∀ pattern ∈ cl.pubsubPatterns.keys, ((pattern ∈ patterns ↔
        Database.globMatch pattern (str "news.a") = true) ↔ NoDispute pattern (str "news.a")) := by
  have hran : (ran subscribed).map (fun s => (s.clients.lookup 0).map (fun cl => cl.pubsubPatterns.keys) ==
      some [str "h?llo", str "news.*"] && s.pubsubPatterns.all fun p => decide (p.1 ≠ [])) = some true := by
    decide +kernel
  obtain ⟨s, hs, hsample⟩ := Option.map_eq_some_iff.mp hran
  rw [Bool.and_eq_true, beq_iff_eq, List.all_eq_true] at hsample
  obtain ⟨cl, hcl, hkeys⟩ := Option.map_eq_some_iff.mp hsample.1
  obtain ⟨start, hstart, hmoves, -⟩ := (reachable_ran hs).moves
  have hagree : patternMatches (str "news.*") (str "news.a") = true ↔
      Database.globMatch (str "news.*") (str "news.a") = true :=
    iff_of_true (by decide +kernel) ((Database.globMatch_spec _ _).2.mpr (by simp [Glob.MatchesLiteral, str]))
  exact ⟨s, ⟨cl, hcl, by rw [hkeys]; simp⟩, (matchers_agree_iff _ _).mp hagree,
    pattern_delivery hstart hmoves (fun p hp => of_decide_eq_true (hsample.2 p hp)) 0 (str "news.a") (str "m")⟩

/-- A message to `hello` does not reach the client of `h?llo`. -/
theorem pattern_undelivered : Database.globMatch (str "h?llo") (str "hello") = true ∧
    ¬ ∀ start s : Server Score, start.Starts → Moves start s → (∀ p ∈ s.pubsubPatterns, p.1 ≠ []) →
      ∀ c channel message, s.SentFor c channel message fun cl patterns => ∀ pattern ∈ cl.pubsubPatterns.keys,
        (pattern ∈ patterns ↔ Database.globMatch pattern channel = true) := by
  have hglob : Database.globMatch (str "h?llo") (str "hello") = true :=
    (Database.globMatch_spec _ _).2.mpr (by simp [Glob.MatchesLiteral, str])
  refine ⟨hglob, fun hall => ?_⟩
  have hran : (ran subscribed).map (fun s => (s.clients.lookup 0).map (fun cl => cl.pubsubPatterns.keys) ==
      some [str "h?llo", str "news.*"] && (s.pubsubPatterns.all fun p => decide (p.1 ≠ [])) &&
      ((publishMessage (str "hello") (str "m") : ServerM Score 0 ℤ).run s).map (fun x =>
        (x.2.clients.lookup 0).map Client.outputBuffer) == some ((s.clients.lookup 0).map Client.outputBuffer))
      = some true := by
    decide +kernel
  obtain ⟨s, hs, hsample⟩ := Option.map_eq_some_iff.mp hran
  simp only [Bool.and_eq_true, beq_iff_eq, List.all_eq_true] at hsample
  obtain ⟨⟨hkeys, hnonempty⟩, hsame⟩ := hsample
  obtain ⟨cl, hcl, hkeys⟩ := Option.map_eq_some_iff.mp hkeys
  obtain ⟨start, hstart, hmoves, -⟩ := (reachable_ran hs).moves
  obtain ⟨n, t, hrun, hsent⟩ := hall start s hstart hmoves (fun p hp => of_decide_eq_true (hnonempty p hp)) 0
    (str "hello") (str "m")
  -- the pattern is among those a message is sent for, but no message has been appended
  obtain ⟨patterns, -, ht, hchosen⟩ := hsent 0 cl hcl
  have hmem := (hchosen (str "h?llo") (by rw [hkeys]; simp)).mpr hglob
  rw [hrun] at hsame
  simp only [Option.map_some, ht, hcl, Option.some.injEq, Client.addReply, List.append_right_eq_self,
    messages, List.append_eq_nil_iff, List.flatMap_eq_nil_iff] at hsame
  have hempty := hsame.2 _ hmem
  simp [bulkStringArray, arrayHeader] at hempty

end Sample

end Server

end RedisDb
