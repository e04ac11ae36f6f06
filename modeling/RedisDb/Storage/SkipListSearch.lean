import RedisDb.Storage.SkipListInv

/-!
# Searching a skip list by rank and by score

`getElementByRank` adds up spans, so it is exact as long as the spans are: where no link leads
`2^32` positions on (`Held.getElementByRank_of_fits`), as is the case below `2^32` elements. A longer
link has a span that has wrapped around, and a search then overruns its target
(`Held.getElementByRank_of_not_fits`).

`getFirstInRange` and `getLastInRange` look at scores only, and are exact in any row that is in order
(`Held.getFirstInRange`, `Held.getLastInRange`).
-/

namespace RedisDb

open Chain (IsNext IsLast gap)

variable {S : Type} [Inhabited S]

namespace SkipList

open NodeHeap

variable {t : SkipList S} {row : List (Tower S)}

/-- The links of the levels in use lead fewer than `2^32` positions on. -/
def Fits (t : SkipList S) (row : List (Tower S)) : Prop :=
  ∀ i < t.level, ∀ p q, Tall t.head row i p → IsNext (Tall t.head row i) row.length p (some q) →
    q < p + 2 ^ 32

theorem fits_of_lt (hsize : row.length < 2 ^ 32) : Fits t row := fun i _ p q _ hq => by
  have := hq.2.1
  omega

/-- The span of a link is the number of positions that it leads on, as far as 32 bits go. -/
theorem Held.toNat_span (h : Held t row) {i p q : ℕ} (hi : i < t.level)
    (hp : Tall t.head row i p) (hq : IsNext (Tall t.head row i) row.length p (some q)) :
    (t.heap.levelAt (addrAt t.head row p) i).span.toNat = (q - p) % 2 ^ 32 := by
  have hlevel := h.level.2
  obtain ⟨o, ho, -, hspan⟩ := h.linked i (by omega) p hp
  obtain rfl := ho.unique hq
  rw [hspan hi, UInt32.toNat_ofNat']
  rfl

theorem Held.toNat_span_of_lt (h : Held t row) {i p q : ℕ} (hi : i < t.level)
    (hp : Tall t.head row i p) (hq : IsNext (Tall t.head row i) row.length p (some q)) (hlt : q < p + 2 ^ 32) :
    (t.heap.levelAt (addrAt t.head row p) i).span.toNat = q - p := by
  rw [h.toNat_span hi hp hq, Nat.mod_eq_of_lt (by omega)]

/-- The descent of `getElementByRank` through the levels below `i`, from position `p` on. By
induction on the levels; at level 0 every position is reached. -/
theorem Held.getElementByRankLoop (h : Held t row) (hfits : Fits t row) (rank : ℕ) {i : ℕ} :
    ∀ {p : ℕ}, i ≤ t.level → p ≤ rank → p ≤ row.length → (∀ j < i, Tall t.head row j p) →
      t.getElementByRankLoop rank i (addrAt t.head row p, p)
        = if 0 < i ∧ rank ≤ row.length then some (addrAt t.head row rank) else none := by
  induction i with
  | zero => intro p _ _ _ _; rfl
  | succ i ih =>
    intro p hi hp hpn htall
    have hlevel := h.level.2
    -- the walk on one level stops at the last tall tower that is not behind the rank
    obtain ⟨q, hpq, hlast, hwalk⟩ := h.walk_spec (fun traversed l _ =>
      if traversed + l.span.toNat ≤ rank then some (traversed + l.span.toNat) else none) id
      (r := min rank row.length) (Nat.min_le_right _ _) (show i < maxLevel by omega)
      (fun p q hpr htp ho => by
        have hqn := ho.2.1
        simp only [h.toNat_span_of_lt (by omega) htp ho (hfits i (by omega) p q htp ho), id_eq, Nat.add_sub_cancel' ho.1.le]
        exact if_congr (by omega) rfl rfl)
      (show p ≤ min rank row.length by omega) (htall i (by omega))
    have hle := hlast.1
    simp only [id_eq] at hwalk
    simp only [SkipList.getElementByRankLoop, hwalk]
    by_cases hq : q = rank
    · rw [if_pos hq, if_pos (by omega), hq]
    · rw [if_neg hq, ih (by omega) (by omega) hlast.2.1.le fun j hj => hlast.2.1.mono (by omega)]
      refine if_congr ⟨fun hc => by omega, fun hc => ⟨?_, hc.2⟩⟩ rfl rfl
      by_contra hz
      -- on level 0 every tower is tall, so the walk has come to the rank
      obtain rfl : i = 0 := by omega
      exact hq ((isLast_zero_level h (Nat.min_le_right _ _) hlast).trans (by omega))

/-- **`getElementByRank`** is exact where the spans are. -/
theorem Held.getElementByRank_of_fits (h : Held t row) (hfits : Fits t row) (rank : ℕ) :
    t.getElementByRank rank = if rank ≤ row.length then some (addrAt t.head row rank) else none := by
  have hlevel := h.level
  have hloop := h.getElementByRankLoop hfits rank (le_refl t.level) (Nat.zero_le rank)
    (Nat.zero_le _) fun j hj => tall_zero (by omega)
  rw [addrAt_zero] at hloop
  exact hloop.trans (if_congr ⟨And.right, fun hr => ⟨hlevel.1, hr⟩⟩ rfl rfl)

/-! ### Whatever the spans are -/

/-- A walk along a level stays on towers that reach it, and moves on whenever it adds anything up. By
induction on the steps. -/
theorem Held.chase_position {α : Type} (h : Held t row) {i : ℕ} (hi : i < maxLevel)
    (go : α → SkipListLevel → SkipListNode S → Option α) (fuel : ℕ) : ∀ {p : ℕ} (acc : α),
    Tall t.head row i p → ∃ q acc', p ≤ q ∧ Tall t.head row i q ∧ (q = p → acc' = acc) ∧
      Chain.chase (t.advance go i) fuel (addrAt t.head row p, acc) = (addrAt t.head row q, acc') := by
  induction fuel with
  | zero =>
    intro p acc ht
    exact ⟨p, acc, le_rfl, ht, fun _ => rfl, rfl⟩
  | succ fuel ih =>
    intro p acc ht
    obtain ⟨o, ho, hfwd, -⟩ := h.linked i hi p ht
    -- the walk stops for want of a next node, or because `go` does
    have hstay : t.advance go i (addrAt t.head row p, acc) = none → ∃ q acc', p ≤ q ∧
        Tall t.head row i q ∧ (q = p → acc' = acc) ∧
        Chain.chase (t.advance go i) (fuel + 1) (addrAt t.head row p, acc)
          = (addrAt t.head row q, acc') := fun hnone =>
      ⟨p, acc, le_rfl, ht, fun _ => rfl, Chain.chase_of_none hnone _⟩
    cases o with
    | none => exact hstay (by simp only [advance, hfwd, Option.map_none])
    | some q =>
      have hpq := ho.1
      cases hgo : go acc (t.heap.levelAt (addrAt t.head row p) i)
          (t.heap.node (addrAt t.head row q)) with
      | none => exact hstay (by simp only [advance, hfwd, Option.map_some, hgo, Option.map_none])
      | some acc₁ =>
        obtain ⟨q', acc', hqq, htall, -, hchase⟩ := ih acc₁ ho.2.2.1
        refine ⟨q', acc', by omega, htall, fun heq => by omega, ?_⟩
        rw [Chain.chase]
        simp only [advance, hfwd, Option.map_some, hgo]
        exact hchase

/-- What `getElementByRank` finds is a node of the row, not before the one it starts from and never
the head. By induction on the levels. -/
theorem Held.getElementByRankLoop_position (h : Held t row) {rank : ℕ} (hrank : 0 < rank) {a : Addr}
    {i : ℕ} : ∀ {p traversed : ℕ}, i ≤ t.level → (∀ j < i, Tall t.head row j p) →
      (p = 0 → traversed = 0) →
      t.getElementByRankLoop rank i (addrAt t.head row p, traversed) = some a →
      ∃ q, p ≤ q ∧ 0 < q ∧ q ≤ row.length ∧ a = addrAt t.head row q := by
  induction i with
  | zero => intro p traversed _ _ _ hsome; cases hsome
  | succ i ih =>
    intro p traversed hi htall hzero hsome
    have hlevel := h.level.2
    obtain ⟨q, acc, hpq, ht, hstay, hwalk⟩ := h.chase_position (show i < maxLevel by omega)
      (fun traversed l _ => if traversed + l.span.toNat ≤ rank then some (traversed + l.span.toNat)
        else none) t.length traversed (htall i (by omega))
    have hq : q = 0 → acc = 0 := fun h0 => by
      rw [hstay (by omega)]
      exact hzero (by omega)
    simp only [SkipList.getElementByRankLoop, walk, hwalk] at hsome
    split at hsome
    · next heq =>
      -- the rank is positive, so something has been added up
      exact ⟨q, hpq, by omega, ht.le, (Option.some.inj hsome).symm⟩
    · obtain ⟨q', hqq, hrest⟩ := ih (by omega) (fun j hj => ht.mono (by omega)) hq hsome
      exact ⟨q', hpq.trans hqq, hrest⟩

theorem Held.getElementByRank_position (h : Held t row) {rank : ℕ} (hrank : 0 < rank) {a : Addr}
    (hsome : t.getElementByRank rank = some a) :
    ∃ q, q < row.length ∧ a = addrAt t.head row (q + 1) := by
  have hlevel := h.level
  obtain ⟨q, -, hq, hle, rfl⟩ := h.getElementByRankLoop_position (p := 0) (a := a) hrank (le_refl t.level)
    (fun j hj => tall_zero (by omega)) (fun _ => rfl) (by rwa [addrAt_zero])
  exact ⟨q - 1, by omega, by rw [Nat.sub_add_cancel hq]⟩

/-! ### Where a span wraps around -/

/-- The walk along a level, up to the first link that is too long: it steps over it if the wrapped span
is small enough. By induction on the steps. -/
theorem Held.chase_overrun (h : Held t row) {i p q rank : ℕ} (hi : i < t.level)
    (hp : Tall t.head row i p) (hq : IsNext (Tall t.head row i) row.length p (some q))
    (hle : p + (q - p) % 2 ^ 32 ≤ rank)
    (hshort : ∀ p' < p, ∀ q', Tall t.head row i p' →
      IsNext (Tall t.head row i) row.length p' (some q') → q' < p' + 2 ^ 32)
    (fuel : ℕ) : ∀ {p' : ℕ}, p' ≤ p → Tall t.head row i p' → p - p' < fuel →
      ∃ q' acc, q ≤ q' ∧ Tall t.head row i q' ∧
        Chain.chase (t.advance (fun traversed l _ => if traversed + l.span.toNat ≤ rank
          then some (traversed + l.span.toNat) else none) i) fuel (addrAt t.head row p', p')
          = (addrAt t.head row q', acc) := by
  have hlevel := h.level.2
  induction fuel with
  | zero => intro p' _ _ hfuel; exact absurd hfuel (Nat.not_lt_zero _)
  | succ fuel ih =>
    intro p' hpp ht hfuel
    obtain ⟨o, ho, hforward, -⟩ := h.linked i (by omega) p' ht
    rcases Nat.lt_or_eq_of_le hpp with hlt | rfl
    · -- the link leads to a position that is not behind `p`, and its span is exact
      cases o with
      | none => exact absurd hp (ho p hlt hp.le)
      | some q' =>
        have hle' : q' ≤ p := by
          by_contra hgt
          exact ho.2.2.2 p hlt (not_le.mp hgt) hp
        have hspan := h.toNat_span_of_lt hi ht ho (hshort p' hlt q' ht ho)
        have hfirst := ho.1
        have hadvance : t.advance (fun traversed l _ => if traversed + l.span.toNat ≤ rank
            then some (traversed + l.span.toNat) else none) i (addrAt t.head row p', p')
            = some (addrAt t.head row q', q') := by
          simp only [advance, hforward, Option.map_some, hspan]
          rw [if_pos (by omega), Option.map_some, Nat.add_sub_cancel' hfirst.le]
        rw [Chain.chase, hadvance]
        exact ih hle' ho.2.2.1 (by omega)
    · -- here is the link whose span has wrapped, and it is taken
      obtain rfl := ho.unique hq
      have hadvance : t.advance (fun traversed l _ => if traversed + l.span.toNat ≤ rank
          then some (traversed + l.span.toNat) else none) i (addrAt t.head row p', p')
          = some (addrAt t.head row q, p' + (q - p') % 2 ^ 32) := by
        simp only [advance, hforward, Option.map_some, h.toNat_span hi ht hq]
        rw [if_pos hle, Option.map_some]
      rw [Chain.chase, hadvance]
      obtain ⟨q', acc, hqq, htall, -, hchase⟩ := h.chase_position (show i < maxLevel by omega) _ fuel
        (p' + (q - p') % 2 ^ 32) hq.2.2.1
      exact ⟨q', acc, hqq, htall, hchase⟩

/-- A level with a link that is too long, and exact spans above it: the rank just behind the start of
the link is not found. By induction on the levels above. -/
theorem Held.getElementByRankLoop_overrun (h : Held t row) {i p q rank : ℕ}
    (hp : Tall t.head row i p) (hq : IsNext (Tall t.head row i) row.length p (some q))
    (hpr : p < rank) (hrq : rank < q) (hle : p + (q - p) % 2 ^ 32 ≤ rank)
    (hshort : ∀ p' < p, ∀ q', Tall t.head row i p' →
      IsNext (Tall t.head row i) row.length p' (some q') → q' < p' + 2 ^ 32)
    (habove : ∀ j < t.level, i < j → ∀ p' q', Tall t.head row j p' →
      IsNext (Tall t.head row j) row.length p' (some q') → q' < p' + 2 ^ 32)
    {j : ℕ} : ∀ {p' : ℕ}, j ≤ t.level → i < j → p' ≤ p → (∀ k < j, Tall t.head row k p') →
      t.getElementByRankLoop rank j (addrAt t.head row p', p') ≠ some (addrAt t.head row rank) := by
  have hlevel := h.level.2
  have hqn := hq.2.1
  induction j with
  | zero => intro p' _ hij; exact absurd hij (Nat.not_lt_zero _)
  | succ j ih =>
    intro p' hj hij hpp htall
    rcases Nat.lt_or_eq_of_le (Nat.le_of_lt_succ hij) with hlt | rfl
    · -- above the level, the descent ends on the last tower that is not behind `p`
      obtain ⟨q', -, hlast, hwalk⟩ := h.walk_spec (fun traversed l _ =>
        if traversed + l.span.toNat ≤ rank then some (traversed + l.span.toNat) else none) id
        (r := rank) (by omega) (show j < maxLevel by omega)
        (fun p q hpr htp ho => by
          have hfirst := ho.1
          simp only [h.toNat_span_of_lt (by omega) htp ho (habove j (by omega) hlt p q htp ho), id_eq,
            Nat.add_sub_cancel' hfirst.le])
        (show p' ≤ rank by omega) (htall j (by omega))
      simp only [id_eq] at hwalk
      have hbefore : q' ≤ p := by
        by_contra hgt
        exact hq.2.2.2 q' (not_le.mp hgt) (hlast.1.trans_lt hrq) (hlast.2.1.mono hlt.le)
      simp only [SkipList.getElementByRankLoop, hwalk]
      rw [if_neg (by omega)]
      exact ih (by omega) hlt hbefore fun k hk => hlast.2.1.mono (by omega)
    · -- on the level itself the walk overruns
      obtain ⟨q', acc, hqq, ht, hwalk⟩ := h.chase_overrun (show i < t.level by omega) hp hq hle hshort
        t.length hpp (htall i (by omega)) (by rw [h.length]; omega)
      simp only [SkipList.getElementByRankLoop, walk, hwalk]
      intro hfound
      -- whatever is found now stands at `q` or behind it
      have hbehind : ∃ q'', q ≤ q'' ∧ q'' ≤ row.length ∧ addrAt t.head row rank = addrAt t.head row q'' := by
        split at hfound
        · exact ⟨q', hqq, ht.le, (Option.some.inj hfound).symm⟩
        · obtain ⟨q'', hge, -, hle, heq⟩ := h.getElementByRankLoop_position (show 0 < rank by omega) (by omega)
            (fun k hk => ht.mono (by omega)) (fun hz => by omega) hfound
          exact ⟨q'', hqq.trans hge, hle, heq⟩
      obtain ⟨q'', hge, hle'', heq⟩ := hbehind
      have := h.addrAt_inj (by omega) hle'' heq
      omega

/-- **`getElementByRank`** misses an element where a link of a level in use is too long. The span of that link has
wrapped, so the walk takes it where it should not, and comes out behind the element. -/
theorem Held.getElementByRank_of_not_fits (h : Held t row) (hfits : ¬ Fits t row) :
    ∃ rank, 0 < rank ∧ rank ≤ row.length ∧ t.getElementByRank rank ≠ some (addrAt t.head row rank) := by
  classical
  -- the highest level with such a link, and the first one of it
  obtain ⟨long, hlong⟩ : ∃ long : ℕ → ℕ → Prop, long = fun i p => Tall t.head row i p ∧
    ∃ q, IsNext (Tall t.head row i) row.length p (some q) ∧ p + 2 ^ 32 ≤ q := ⟨_, rfl⟩
  obtain ⟨i₀, hi₀, hex₀⟩ : ∃ i < t.level, ∃ p, long i p := by
    by_contra hnone
    refine hfits fun i hi p q hp hq => not_le.mp fun hle => hnone ⟨i, hi, p, ?_⟩
    rw [hlong]
    exact ⟨hp, q, hq, hle⟩
  have hspec := Nat.findGreatest_spec (P := fun i => ∃ p, long i p) (Nat.le_sub_one_of_lt hi₀) hex₀
  have hgreatest := fun k => Nat.findGreatest_is_greatest (P := fun i => ∃ p, long i p) (n := t.level - 1) (k := k)
  obtain ⟨i, hi⟩ : ∃ i, i = Nat.findGreatest (fun i => ∃ p, long i p) (t.level - 1) := ⟨_, rfl⟩
  have hilt : i ≤ t.level - 1 := hi ▸ Nat.findGreatest_le _
  rw [← hi] at hspec hgreatest
  obtain ⟨p, hp⟩ : ∃ p, p = Nat.find hspec := ⟨_, rfl⟩
  have hfirst : ∀ p' < p, ¬ long i p' := fun p' hlt => Nat.find_min hspec (hp ▸ hlt)
  have hfind : long i p := hp ▸ Nat.find_spec hspec
  rw [hlong] at hfind
  obtain ⟨htall, q, hq, hle⟩ := hfind
  have hlevel := h.level
  have hqn := hq.2.1
  have hmod : (q - p) % 2 ^ 32 < 2 ^ 32 := Nat.mod_lt _ (by decide)
  -- a rank that the wrapped span allows, short of where the link leads
  obtain ⟨rank, hrank⟩ : ∃ rank, rank = p + max ((q - p) % 2 ^ 32) 1 := ⟨_, rfl⟩
  refine ⟨rank, by omega, by omega, ?_⟩
  have hloop : t.getElementByRankLoop rank t.level (addrAt t.head row 0, 0) ≠ some (addrAt t.head row rank) :=
    h.getElementByRankLoop_overrun htall hq (by omega) (by omega) (by omega)
    (fun p' hlt q' ht hn => not_le.mp fun hge => hfirst p' hlt (by rw [hlong]; exact ⟨ht, q', hn, hge⟩))
    (fun j hj hij p' q' ht hn => not_le.mp fun hge => hgreatest j hij (by omega) ⟨p', by
      rw [hlong]; exact ⟨ht, q', hn, hge⟩⟩)
    (le_refl t.level) (show i < t.level by omega) (Nat.zero_le p) fun k hk => tall_zero (by omega)
  rwa [addrAt_zero] at hloop

/-- When only the last of `2^32` nodes reaches level 1, the head's span of that level has wrapped
around to zero, and the search for the first node runs past it to the last one. -/
theorem Held.getElementByRank_wrapped (h : Held t row) (hsize : row.length = 2 ^ 32)
    (hlevel : t.level = 2)
    (htall : ∀ p, Tall t.head row 1 p ↔ p = 0 ∨ p = row.length) :
    t.getElementByRank 1 = none := by
  have hnext : IsNext (Tall t.head row 1) row.length 0 (some row.length) := by
    refine ⟨by omega, le_rfl, (htall _).mpr (Or.inr rfl), fun m h1 h2 hm => ?_⟩
    have := (htall m).mp hm
    omega
  have hend : ∀ i, Tall t.head row i row.length → i < 2 →
      (t.heap.levelAt (addrAt t.head row row.length) i).forward = none := fun i hi hlt => by
    obtain ⟨o, ho, hfwd, -⟩ := h.linked i (by unfold maxLevel; omega) _ hi
    cases o with
    | none => exact hfwd
    | some q =>
      have h1 := ho.1
      have h2 := ho.2.1
      omega
  obtain ⟨o, ho, hfwd, hspan⟩ := h.linked 1 (by decide) 0 ((htall 0).mpr (Or.inl rfl))
  obtain rfl := ho.unique hnext
  rw [addrAt_zero] at hfwd hspan
  -- its span has wrapped to 0
  have hzero : (t.heap.levelAt t.head 1).span = 0 := by
    rw [hspan (by omega)]
    show UInt32.ofNat (row.length - 0) = 0
    rw [hsize]; decide
  -- level 1 leads to the last node with nothing added up, and nothing leads on from there
  obtain ⟨go, hgo⟩ : ∃ f : ℕ → SkipListLevel → SkipListNode S → Option ℕ, f = fun traversed l _ =>
    if traversed + l.span.toNat ≤ 1 then some (traversed + l.span.toNat) else none := ⟨_, rfl⟩
  obtain ⟨k, hk⟩ : ∃ k, t.length = k + 1 := ⟨t.length - 1, by have := h.length; omega⟩
  have hnone : ∀ i, Tall t.head row i row.length → i < 2 →
      t.advance go i (addrAt t.head row row.length, 0) = none := fun i hi hlt => by
    simp only [advance, hend i hi hlt]
  have hadv : t.advance go 1 (t.head, 0) = some (addrAt t.head row row.length, 0) := by
    simp [advance, hfwd, hzero, hgo]
  have hwalk : t.walk go 1 (t.head, 0) = (addrAt t.head row row.length, 0) := by
    rw [walk, hk, Chain.chase, hadv]
    exact Chain.chase_of_none (hnone 1 ((htall _).mpr (Or.inr rfl)) (by omega)) k
  have hwalk₀ : t.walk go 0 (addrAt t.head row row.length, 0)
      = (addrAt t.head row row.length, 0) :=
    Chain.chase_of_none (hnone 0 (h.tall_zero_level le_rfl) (by omega)) _
  rw [SkipList.getElementByRank, hlevel]
  simp [SkipList.getElementByRankLoop, ← hgo, hwalk, hwalk₀]

/-! ### The rank of a pair -/

variable [LinearOrder S]

/-- A node of the row does not come after another if its position is not behind it. -/
theorem Inv.notAfter_iff (h : Inv t row) {k p q : ℕ} {e : Tower S} (he : row[k]? = some e) {i : ℕ}
    (hq : IsNext (Tall t.head row i) row.length p (some q)) :
    notAfter e.score e.member (t.heap.node (addrAt t.head row q)) = true ↔ q ≤ k + 1 := by
  obtain ⟨hpq, -, ⟨f, hf, -⟩, -⟩ := hq
  obtain ⟨hs, hm⟩ := node_eq (h.data_addrAt hf)
  obtain ⟨q, rfl⟩ : ∃ j, q = j + 1 := ⟨q - 1, by omega⟩
  have hf : row[q]? = some f := by simpa [cells] using hf
  -- what is compared is the keys, and these rise along the row
  have hkey : notAfter e.score e.member (t.heap.node (addrAt t.head row (q + 1))) = true ↔ f.key ≤ e.key := by
    rw [notAfter, hs, hm]
    simp [Tower.key, Prod.Lex.toLex_le_toLex]
  rw [hkey, Nat.add_le_add_iff_right]
  obtain ⟨hk, rfl⟩ := List.getElem?_eq_some_iff.mp he
  obtain ⟨hqlt, rfl⟩ := List.getElem?_eq_some_iff.mp hf
  have hsorted := List.pairwise_iff_getElem.mp h.sorted
  constructor
  · intro hle
    by_contra hlt
    exact absurd (hsorted k q hk hqlt (by omega)) (not_lt.mpr hle)
  · intro hle
    rcases hle.lt_or_eq with hlt | rfl
    · exact (hsorted q k hqlt hk hlt).le
    · exact le_rfl

/-- One level of the descent of `getRank`: it ends on the last tower of the level that is not behind
the pair, with its position as rank. -/
theorem Inv.walk_rank (h : Inv t row) (hfits : Fits t row) {k : ℕ} {e : Tower S}
    (he : row[k]? = some e) {i p : ℕ} (hi : i < t.level) (hp : p ≤ k + 1) (ht : Tall t.head row i p) :
    ∃ q, p ≤ q ∧ IsLast (Tall t.head row i) (k + 1) q ∧
      t.walk (fun rank l n => if notAfter e.score e.member n then some (rank + l.span.toNat) else none) i
        (addrAt t.head row p, p) = (addrAt t.head row q, q) := by
  have hk : k < row.length := (List.getElem?_eq_some_iff.mp he).1
  have hlevel := h.level.2
  refine h.walk_spec _ id (r := k + 1) hk (by omega) (fun p q _ htp ho => ?_) hp ht
  simp only [h.notAfter_iff he ho, h.toNat_span_of_lt hi htp ho (hfits i hi p q htp ho), id_eq,
    Nat.add_sub_cancel' ho.1.le]

/-- Where the descent has left the head, or the member is not that of the head, it ends on the pair. By
induction on the levels. -/
theorem Inv.getRankLoop (h : Inv t row) (hfits : Fits t row) {k : ℕ} {e : Tower S}
    (he : row[k]? = some e) (hunique : ∀ (j : ℕ) (f : Tower S), row[j]? = some f → f.member = e.member → j = k)
    {i : ℕ} : ∀ {p : ℕ}, i ≤ t.level → p ≤ k + 1 → (∀ j < i, Tall t.head row j p) → (e.member = [] → 0 < p) →
      t.getRankLoop e.score e.member i (addrAt t.head row p, p) = if 0 < i then k + 1 else 0 := by
  induction i with
  | zero => intro p _ _ _ _; rfl
  | succ i ih =>
    intro p hi hp htall hleft
    have hk : k < row.length := (List.getElem?_eq_some_iff.mp he).1
    obtain ⟨q, hpq, hlast, hwalk⟩ := h.walk_rank hfits he (by omega) hp (htall i (by omega))
    simp only [SkipList.getRankLoop, hwalk]
    rw [if_pos (Nat.succ_pos i)]
    -- the walk stands at the member's tower exactly when the members are the same
    have hmember : (t.heap.node (addrAt t.head row q)).member = e.member ↔ q = k + 1 := by
      obtain ⟨f, hf, -⟩ := hlast.2.1
      rw [(node_eq (h.data_addrAt hf)).2]
      cases q with
      | zero =>
        -- the head, whose member is empty
        obtain rfl := Option.some.inj hf
        exact iff_of_false (fun heq => absurd (hleft heq.symm) (by omega)) (by omega)
      | succ q =>
        have hf : row[q]? = some f := by simpa [cells] using hf
        refine ⟨fun heq => congrArg (· + 1) (hunique q f hf heq), fun heq => ?_⟩
        obtain rfl : q = k := Nat.succ.inj heq
        rw [Option.some.inj (hf.symm.trans he)]
    by_cases hq : q = k + 1
    · rw [if_pos (hmember.mpr hq), hq]
    · rw [if_neg (mt hmember.mp hq), ih (by omega) hlast.1 (fun j hj => hlast.2.1.mono (by omega))
        fun hnil => by have := hleft hnil; omega]
      -- the descent has not come to level 0, where every position is reached
      refine if_pos (Nat.pos_of_ne_zero ?_)
      rintro rfl
      exact hq (isLast_zero_level h.toHeld (by omega) hlast)

/-- The top level leads from the head to a node that does not come after the pair. -/
def leavesHead (t : SkipList S) (score : S) (member : Bytes) : Bool :=
  (t.heap.levelAt t.head (t.level - 1)).forward.any fun a => notAfter score member (t.heap.node a)

theorem Inv.leavesHead_iff (h : Inv t row) {k i q : ℕ} {e : Tower S} (he : row[k]? = some e)
    (hi : t.level = i + 1) (hlast : IsLast (Tall t.head row i) (k + 1) q) :
    t.leavesHead e.score e.member = true ↔ q ≠ 0 := by
  have hlevel := h.level.2
  have hk : k < row.length := (List.getElem?_eq_some_iff.mp he).1
  obtain ⟨o, ho, hforward, -⟩ := h.linked i (by omega) 0 (tall_zero (by omega))
  rw [addrAt_zero] at hforward
  rw [leavesHead, hi, Nat.add_sub_cancel, hforward]
  cases o with
  | none =>
    -- nothing on the top level: the walk stays at the head
    refine iff_of_false Bool.false_ne_true (not_not.mpr ?_)
    by_contra hq
    exact ho q (Nat.pos_of_ne_zero hq) (hlast.1.trans hk) hlast.2.1
  | some q' =>
    rw [Option.map_some, Option.any_some, h.notAfter_iff he ho]
    constructor
    · rintro hle rfl
      exact hlast.2.2 q' ho.1 hle ho.2.2.1
    · intro hq
      by_contra hlt
      exact ho.2.2.2 q (Nat.pos_of_ne_zero hq) (hlast.1.trans_lt (not_le.mp hlt)) hlast.2.1

/-- **`getRank`** counts positions from 1, where the spans are exact. The empty member is found at the head, with
rank 0, if the top level does not leave the head. -/
theorem Inv.getRank (h : Inv t row) (hfits : Fits t row) {k : ℕ} {e : Tower S}
    (he : row[k]? = some e)
    (hunique : ∀ (j : ℕ) (f : Tower S), row[j]? = some f → f.member = e.member → j = k) :
    t.getRank e.score e.member = if e.member = [] ∧ t.leavesHead e.score e.member = false then 0 else k + 1 := by
  have hlevel := h.level
  obtain ⟨i, hi⟩ : ∃ i, t.level = i + 1 := ⟨t.level - 1, by omega⟩
  have htall (j : ℕ) (hj : j < t.level) : Tall t.head row j 0 := tall_zero (by omega)
  -- the empty member is the one the head can be taken for
  by_cases hnil : e.member = []
  · obtain ⟨q, -, hlast, hwalk⟩ := h.walk_rank hfits he (p := 0) (show i < t.level by omega) (by omega)
      (htall i (by omega))
    rw [addrAt_zero] at hwalk
    by_cases hq : q = 0
    · -- the head passes for the node of the member
      have hhead : (t.heap.node t.head).member = e.member := by
        have hdata := h.data_addrAt (p := 0) rfl
        rw [addrAt_zero] at hdata
        rw [(node_eq hdata).2, hnil]
      rw [if_pos ⟨hnil, Bool.eq_false_of_not_eq_true (mt (h.leavesHead_iff he hi hlast).mp (not_not.mpr hq))⟩,
        SkipList.getRank, hi]
      simp only [SkipList.getRankLoop, hwalk, hq, addrAt_zero, hhead, if_true]
    · rw [if_neg fun hc => absurd ((h.leavesHead_iff he hi hlast).mpr hq) (by rw [hc.2]; exact Bool.false_ne_true)]
      -- from where the walk ends, the descent is the one that has left the head
      obtain ⟨q', -, hlast', hwalk'⟩ := h.walk_rank hfits he (show i < t.level by omega) hlast.1 hlast.2.1
      obtain rfl := hlast'.unique hlast
      have hloop := h.getRankLoop hfits he hunique (i := i + 1) (by omega) hlast.1
        (fun j hj => hlast.2.1.mono (by omega)) fun _ => Nat.pos_of_ne_zero hq
      rw [if_pos (Nat.succ_pos i)] at hloop
      rw [← hloop, SkipList.getRank, hi]
      simp only [SkipList.getRankLoop, hwalk, hwalk']
  · have hloop := h.getRankLoop hfits he hunique le_rfl (Nat.zero_le (k + 1)) htall fun h => absurd h hnil
    rw [addrAt_zero, if_pos (by omega)] at hloop
    rw [if_neg fun h => hnil h.1]
    exact hloop

/-! ### Ranges by score -/

omit [Inhabited S] in
theorem pairwise_score (hsorted : row.Pairwise fun e f => e.key ≤ f.key) :
    row.Pairwise fun e f => e.score ≤ f.score :=
  hsorted.imp fun hle => Prod.Lex.monotone_fst _ _ hle

omit [LinearOrder S] in
/-- A search by score alone: where what is passed comes first in the row, it ends on the last of it. -/
theorem Held.search_score (h : Held t row) (φ : S → Prop) [DecidablePred φ] {r : ℕ} (hr : r ≤ row.length)
    (hcut : ∀ (p : ℕ) (e : Tower S), row[p]? = some e → (φ e.score ↔ p < r)) :
    (t.search (fun _ _ n => if φ n.score then some () else none) t.level (t.head, ())).headD (t.head, ())
      = (addrAt t.head row r, ()) := by
  refine h.search_headD (fun _ _ n => if φ n.score then some () else none) (fun _ => ()) hr
    fun j _ p q _ _ ho => if_congr ?_ rfl rfl
  obtain ⟨hpq, -, ⟨e, he, -⟩, -⟩ := ho
  obtain ⟨q, rfl⟩ : ∃ k, q = k + 1 := ⟨q - 1, by omega⟩
  rw [(node_eq (h.data_addrAt he)).1, hcut q e (by simpa [cells] using he), Nat.succ_le_iff]

/-- **`getFirstInRange`** finds the first tower in the range. -/
theorem Held.getFirstInRange (h : Held t row) (hsorted : row.Pairwise fun e f => e.key ≤ f.key) (min max : S) :
    t.getFirstInRange min max
      = (row.find? fun e => decide (min ≤ e.score ∧ e.score ≤ max)).map Tower.addr := by
  have hscore := pairwise_score hsorted
  obtain ⟨r, hr, hcut⟩ := exists_cut (q := fun e : Tower S => e.score < min)
    (hscore.imp fun hle hlt => hle.trans_lt hlt)
  -- nothing before position `r` is in the range
  have hbefore : (row.take r).find? (fun e => decide (min ≤ e.score ∧ e.score ≤ max)) = none := by
    refine List.find?_eq_none.mpr fun e he hin => ?_
    obtain ⟨p, hp⟩ := List.getElem?_of_mem he
    have hpr := (List.getElem?_eq_some_iff.mp hp).1
    rw [List.length_take] at hpr
    rw [List.getElem?_take_of_lt (by omega)] at hp
    exact absurd ((hcut p e hp).mpr (by omega)) (not_lt.mpr (of_decide_eq_true hin).1)
  have hsplit : row.find? (fun e => decide (min ≤ e.score ∧ e.score ≤ max))
      = (row.drop r).find? fun e => decide (min ≤ e.score ∧ e.score ≤ max) := by
    conv_lhs => rw [← List.take_append_drop r row]
    rw [List.find?_append, hbefore, Option.none_or]
  unfold SkipList.getFirstInRange
  simp only [h.search_score (· < min) hr hcut, h.forward_zero hr, hsplit]
  by_cases hlt : r < row.length
  · have he := List.getElem?_eq_getElem hlt
    have hmin : min ≤ row[r].score := not_lt.mp fun hc => lt_irrefl r ((hcut r _ he).mp hc)
    have hnode := node_eq (h.data _ (List.mem_cons_of_mem _ (List.getElem_mem hlt)))
    rw [List.drop_eq_getElem_cons hlt, List.find?_cons]
    simp only [if_pos hlt, addrAt_succ he, hnode.1, hmin, true_and]
    by_cases hmax : row[r].score ≤ max
    · simp only [hmax, decide_true, if_neg (not_lt.mpr hmax), Option.map_some]
    · -- what stands behind a score over the range is over it too
      have hrest : (row.drop (r + 1)).find? (fun e => decide (min ≤ e.score ∧ e.score ≤ max)) = none := by
        refine List.find?_eq_none.mpr fun e hmem hin => hmax ?_
        have hpair := hscore.sublist (List.drop_sublist r row)
        rw [List.drop_eq_getElem_cons hlt, List.pairwise_cons] at hpair
        exact (hpair.1 e hmem).trans (of_decide_eq_true hin).2
      simp only [hmax, decide_false, if_pos (not_le.mp hmax), hrest, Option.map_none]
  · -- all scores are below the range
    rw [if_neg hlt, List.drop_eq_nil_of_le (by omega)]
    rfl

/-- **`getLastInRange`** finds the last tower in the range. -/
theorem Held.getLastInRange (h : Held t row) (hsorted : row.Pairwise fun e f => e.key ≤ f.key) (min max : S) :
    t.getLastInRange min max
      = (row.reverse.find? fun e => decide (min ≤ e.score ∧ e.score ≤ max)).map Tower.addr := by
  have hscore := pairwise_score hsorted
  obtain ⟨r, hr, hcut⟩ := exists_cut (q := fun e : Tower S => e.score ≤ max)
    (hscore.imp fun hle hlt => hle.trans hlt)
  -- nothing from position `r` on is in the range
  have hbehind : (row.drop r).reverse.find? (fun e => decide (min ≤ e.score ∧ e.score ≤ max)) = none := by
    refine List.find?_eq_none.mpr fun e he hin => ?_
    obtain ⟨p, hp⟩ := List.getElem?_of_mem (List.mem_reverse.mp he)
    rw [List.getElem?_drop] at hp
    have := (hcut _ e hp).mp (of_decide_eq_true hin).2
    omega
  have hsplit : row.reverse.find? (fun e => decide (min ≤ e.score ∧ e.score ≤ max))
      = (row.take r).reverse.find? fun e => decide (min ≤ e.score ∧ e.score ≤ max) := by
    conv_lhs => rw [← List.take_append_drop r row, List.reverse_append]
    rw [List.find?_append, hbehind, Option.none_or]
  unfold SkipList.getLastInRange
  simp only [h.search_score (· ≤ max) hr hcut, hsplit]
  cases r with
  -- all scores are over the range
  | zero => rw [if_pos (Or.inl addrAt_zero)]; rfl
  | succ r =>
    have hlt : r < row.length := hr
    have he := List.getElem?_eq_getElem hlt
    have hmax : row[r].score ≤ max := (hcut r _ he).mpr (Nat.lt_succ_self r)
    have hnode := node_eq (h.data _ (List.mem_cons_of_mem _ (List.getElem_mem hlt)))
    have hhead : addrAt t.head row (r + 1) ≠ t.head := fun heq => by
      have := h.addrAt_inj hr (Nat.zero_le _) heq
      omega
    have hadd : row.take (r + 1) = row.take r ++ [row[r]] := by
      rw [List.take_add_one, he]
      rfl
    have hfirst : (row.take (r + 1)).reverse = row[r] :: (row.take r).reverse := by
      rw [hadd, List.reverse_append]
      rfl
    rw [hfirst, List.find?_cons]
    rw [addrAt_succ he] at hhead
    simp only [addrAt_succ he, hhead, hnode.1, false_or, hmax, and_true]
    by_cases hmin : min ≤ row[r].score
    · simp only [hmin, decide_true, if_neg (not_lt.mpr hmin), Option.map_some]
    · -- what stands before a score below the range is below it too
      have hrest : (row.take r).reverse.find? (fun e => decide (min ≤ e.score ∧ e.score ≤ max)) = none := by
        refine List.find?_eq_none.mpr fun e hmem hin => hmin ?_
        have hpair := hscore.sublist (List.take_sublist (r + 1) row)
        rw [hadd, List.pairwise_append] at hpair
        exact (of_decide_eq_true hin).1.trans (hpair.2.2 e (List.mem_reverse.mp hmem) _ (List.mem_singleton_self _))
      simp only [hmin, decide_false, if_pos (not_le.mp hmin), hrest, Option.map_none]

end SkipList
end RedisDb
