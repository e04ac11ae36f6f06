import RedisDb.Storage.HashTable

/-!
# `HashTable` refines a finite map

The representation invariant has three parts. `Probing` is about the buckets: keys are unique, and from the home of an
active key to its bucket no bucket was never used, so a search for the key cannot stop short of it. `Sound` adds a
size that counts the live entries, and is all that lookups rely on. `Inv` adds the load bound: the buckets in use,
live and tombstones together, never exceed half the capacity, so every search meets a bucket that was never used.

`findSlot_of_maps` and `findSlot_of_not_maps` turn the invariant into what a search finds. A search for a live key
ends at its bucket, and one for an absent key at the first bucket from its home on that was never used. An insertion
then either overwrites or takes that bucket, and in both cases it puts a used bucket in the place of another one,
which cannot break a probe chain (`Probing.set`). A deletion does the same with a tombstone, so neither has to look at
the chains of other keys. `rehash` is a run of insertions into fresh buckets, with room for all because the new
capacity is more than twice the number of live entries.

What is said of the contents is said by `Maps`, and each operation has one lemma that gives `Maps` after it in terms
of `Maps` before. `refines` carries the operations over any sequence of them: the table answers like the map obtained
by the same sequence. The hash function is arbitrary throughout.
-/

namespace RedisDb
namespace HashTable

variable {K V : Type}

/-- The buckets map `k` to `v`. -/
def Maps (bs : List (Bucket K V)) (k : K) (v : V) : Prop :=
  ∃ (i : ℕ) (b : Bucket K V), bs[i]? = some b ∧ b.active = true ∧ b.key = k ∧ b.value = v

/-- The number of live entries. -/
def activeCount (bs : List (Bucket K V)) : ℕ := bs.countP Bucket.active

/-- The number of tombstones. -/
def tombstones (bs : List (Bucket K V)) : ℕ := bs.countP Bucket.tombstone

/-- The probe-chain invariant. -/
structure Probing (hash : K → ℕ) (bs : List (Bucket K V)) : Prop where
  /-- A key has at most one live bucket. -/
  unique : ∀ {i j : ℕ} {b c : Bucket K V}, bs[i]? = some b → bs[j]? = some c → b.active = true →
    c.active = true → b.key = c.key → i = j
  /-- Between the home of a live key and its bucket, every bucket has been used. -/
  chain : ∀ {i : ℕ} {b : Bucket K V}, bs[i]? = some b → b.active = true →
    ∃ d, d < bs.length ∧ i = (hash b.key % bs.length + d) % bs.length ∧
      ∀ j < d, ∀ c, bs[(hash b.key % bs.length + j) % bs.length]? = some c →
        c.neverUsed = false
  /-- A live bucket is not a tombstone. -/
  flags : ∀ b ∈ bs, b.active = true → b.tombstone = false

/-- An active bucket has been used. -/
theorem Bucket.neverUsed_eq_false_of_active {b : Bucket K V} (h : b.active = true) :
    b.neverUsed = false := by simp [Bucket.neverUsed, h]

/-- The first bucket never used is stopped at by every search. -/
def HasFree (bs : List (Bucket K V)) : Prop :=
  ∃ (i : ℕ) (b : Bucket K V), bs[i]? = some b ∧ b.neverUsed = true

/-- Below full load there is a bucket that was never used. -/
theorem hasFree_of_load {bs : List (Bucket K V)}
    (h : activeCount bs + tombstones bs < bs.length) : HasFree bs := by
  by_contra hc
  -- otherwise every bucket is live or a tombstone, and there are not that many of them
  have hused : ∀ b ∈ bs, b.active = true ∨ b.tombstone = true := by
    intro b hb
    obtain ⟨i, hi, rfl⟩ := List.getElem_of_mem hb
    by_contra hnot
    rw [not_or] at hnot
    exact hc ⟨i, bs[i], List.getElem?_eq_getElem hi, by simp [Bucket.neverUsed, hnot.1, hnot.2]⟩
  have hle : bs.length ≤ activeCount bs + tombstones bs := by
    clear h hc
    unfold activeCount tombstones
    induction bs with
    | nil => exact Nat.zero_le _
    | cons b bs ih =>
      have htail := ih fun c hc => hused c (List.mem_cons_of_mem _ hc)
      have hhead := hused b List.mem_cons_self
      rw [List.length_cons, List.countP_cons, List.countP_cons]
      rcases hhead with h | h <;> rw [if_pos h] <;> omega
  omega

variable [DecidableEq K] {hash : K → ℕ}

/-- A bucket holds a key if it is active with this key. -/
theorem Bucket.holds_iff {b : Bucket K V} {k : K} :
    b.holds k = true ↔ b.active = true ∧ b.key = k := by simp [Bucket.holds]

/-! ### What a search finds -/

section Search

variable {bs : List (Bucket K V)}

omit [DecidableEq K] in
/-- The home of a key is one of the buckets. -/
theorem home_lt (k : K) {i : ℕ} {b : Bucket K V} (hi : bs[i]? = some b) :
    hash k % bs.length < bs.length :=
  Nat.mod_lt _ (Nat.zero_lt_of_lt (List.getElem?_eq_some_iff.mp hi).1)

/-- A search for a live key finds its bucket. -/
theorem findSlot_of_maps (h : Probing hash bs) {i : ℕ} {b : Bucket K V} (hi : bs[i]? = some b)
    (hb : b.active = true) : findSlot hash bs b.key = some i := by
  obtain ⟨d, hd, hid, hchain⟩ := h.chain hi hb
  refine (Probe.probe_eq_some_iff (home_lt b.key hi)).mpr ⟨d, hd, hid, ?_, fun j hj => ?_⟩
  · simp [hi, Bucket.holds, hb]
  · cases hc : bs[(hash b.key % bs.length + j) % bs.length]? with
    | none => rfl
    | some c =>
      have hused := hchain j hj c hc
      have hnot : c.holds b.key = false := by
        rw [← Bool.not_eq_true, Bucket.holds_iff]
        rintro ⟨hca, hck⟩
        -- the only live bucket of the key is at distance `d`
        have heq := h.unique hc hi hca hb hck
        rw [hid] at heq
        obtain ⟨e, he⟩ : ∃ n, bs.length = n := ⟨_, rfl⟩
        have h1 := Nat.ModEq.add_left_cancel' (hash b.key % bs.length) heq
        have h2 : j % bs.length = d % bs.length := h1
        rw [Nat.mod_eq_of_lt (by omega), Nat.mod_eq_of_lt hd] at h2
        omega
      simp [hused, hnot]

/-- A search for an absent key ends at a bucket that was never used, through used ones. -/
theorem findSlot_of_not_maps (hash : K → ℕ) (hfree : HasFree bs) {k : K}
    (hk : ∀ v, ¬ Maps bs k v) :
    ∃ (i : ℕ) (b : Bucket K V), findSlot hash bs k = some i ∧ bs[i]? = some b ∧
      b.neverUsed = true ∧
      ∃ d, d < bs.length ∧ i = (hash k % bs.length + d) % bs.length ∧
        ∀ j < d, ∀ c, bs[(hash k % bs.length + j) % bs.length]? = some c →
          c.neverUsed = false := by
  obtain ⟨i₀, b₀, hi₀, hb₀⟩ := hfree
  have hhome : hash k % bs.length < bs.length := home_lt k hi₀
  cases hslot : findSlot hash bs k with
  | none =>
    refine absurd hslot (Probe.probe_ne_none hhome (List.getElem?_eq_some_iff.mp hi₀).1 ?_)
    simp [hi₀, hb₀]
  | some i =>
    obtain ⟨d, hd, hid, hstop, hbefore⟩ := (Probe.probe_eq_some_iff hhome).mp hslot
    have hilt : i < bs.length := hid ▸ Nat.mod_lt _ (Nat.zero_lt_of_lt hhome)
    refine ⟨i, bs[i], rfl, List.getElem?_eq_getElem hilt, ?_, d, hd, hid, fun j hj c hc => ?_⟩
    · rw [List.getElem?_eq_getElem hilt] at hstop
      -- the probe stops at the key or at a bucket never used, and the key is not there
      rcases (Bool.or_eq_true _ _).mp hstop with h | h
      · exact h
      · rw [Bucket.holds_iff] at h
        exact absurd ⟨i, bs[i], List.getElem?_eq_getElem hilt, h.1, h.2, rfl⟩ (hk _)
    · have := hbefore j hj
      rw [hc] at this
      exact ((Bool.or_eq_false_iff).mp this).1

/-- The index of a live key. -/
theorem findIndex_of_maps (h : Probing hash bs) {i : ℕ} {b : Bucket K V} (hi : bs[i]? = some b)
    (hb : b.active = true) : findIndex hash b.key bs = some i := by
  simp [findIndex, findSlot_of_maps h hi hb, hi, Bucket.neverUsed_eq_false_of_active hb]

/-- A search for an absent key ends at a bucket that was never used, or comes round to its start. -/
theorem findIndex_of_not_maps {k : K} (hk : ∀ v, ¬ Maps bs k v) : findIndex hash k bs = none := by
  rw [findIndex]
  cases hslot : findSlot hash bs k with
  | none => rfl
  | some i =>
    cases hi : bs[i]? with
    | none => simp [hi]
    | some b =>
      have hhome : hash k % bs.length < bs.length := home_lt k hi
      obtain ⟨-, -, -, hstop, -⟩ := (Probe.probe_eq_some_iff hhome).mp hslot
      rw [hi] at hstop
      rcases (Bool.or_eq_true _ _).mp hstop with hnever | hholds
      · simp [hi, hnever]
      · rw [Bucket.holds_iff] at hholds
        exact absurd ⟨i, b, hi, hholds.1, hholds.2, rfl⟩ (hk b.value)

/-- The probe loop never comes round to its start. -/
theorem findSlot_ne_none (h : Probing hash bs) (hfree : HasFree bs) (k : K) :
    findSlot hash bs k ≠ none := by
  by_cases hk : ∀ v, ¬ Maps bs k v
  · obtain ⟨i, b, hslot, -⟩ := findSlot_of_not_maps hash hfree hk
    rw [hslot]; simp
  · push Not at hk
    obtain ⟨v, i, b, hi, hb, rfl, -⟩ := hk
    rw [findSlot_of_maps h hi hb]; simp

end Search

/-! ### Replacing one bucket by a used one -/

section Replace

variable {bs : List (Bucket K V)} {i : ℕ} {b b' : Bucket K V}

omit [DecidableEq K] in
/-- The buckets after one has been replaced. -/
theorem getElem?_set_of_some (hi : bs[i]? = some b) (j : ℕ) :
    (bs.set i b')[j]? = if i = j then some b' else bs[j]? := by
  rw [List.getElem?_set]
  by_cases hij : i = j
  · rw [if_pos hij, if_pos hij, if_pos (List.getElem?_eq_some_iff.mp hi).1]
  · rw [if_neg hij, if_neg hij]

omit [DecidableEq K] in
/-- Putting a used bucket in the place of any bucket keeps every probe chain: used buckets stay
used. What is left to show concerns the new bucket alone. -/
theorem Probing.set (h : Probing hash bs) (hi : bs[i]? = some b) (hused : b'.neverUsed = false)
    (hflags : b'.active = true → b'.tombstone = false)
    (hunique : b'.active = true → ∀ j c, i ≠ j → bs[j]? = some c → c.active = true →
      b'.key ≠ c.key)
    (hchain : b'.active = true → ∃ d, d < bs.length ∧
      i = (hash b'.key % bs.length + d) % bs.length ∧
      ∀ j < d, ∀ c, bs[(hash b'.key % bs.length + j) % bs.length]? = some c →
        c.neverUsed = false) :
    Probing hash (bs.set i b') where
  unique := by
    intro j k c e hj hk hc he hkey
    rw [getElem?_set_of_some hi] at hj hk
    by_cases hij : i = j <;> by_cases hik : i = k
    · omega
    · -- the new bucket against an old one
      rw [if_pos hij] at hj; rw [if_neg hik] at hk
      obtain rfl := Option.some.inj hj
      exact absurd hkey (hunique hc k e hik hk he)
    · -- an old one against the new bucket
      rw [if_neg hij] at hj; rw [if_pos hik] at hk
      obtain rfl := Option.some.inj hk
      exact absurd hkey.symm (hunique he j c hij hj hc)
    · rw [if_neg hij] at hj; rw [if_neg hik] at hk
      exact h.unique hj hk hc he hkey
  chain := by
    intro j c hj hc
    -- a bucket used before is used after
    have hstill : ∀ (k : ℕ), (∀ e, bs[k]? = some e → e.neverUsed = false) →
        ∀ e, (bs.set i b')[k]? = some e → e.neverUsed = false := by
      intro k hk e he
      rw [getElem?_set_of_some hi] at he
      split at he
      · obtain rfl := Option.some.inj he; exact hused
      · exact hk e he
    rw [List.length_set]
    rw [getElem?_set_of_some hi] at hj
    by_cases hij : i = j
    · rw [if_pos hij] at hj
      obtain rfl := Option.some.inj hj
      obtain ⟨d, hd, hid, hbefore⟩ := hchain hc
      exact ⟨d, hd, hij ▸ hid, fun k hk => hstill _ (hbefore k hk)⟩
    · rw [if_neg hij] at hj
      obtain ⟨d, hd, hid, hbefore⟩ := h.chain hj hc
      exact ⟨d, hd, hid, fun k hk => hstill _ (hbefore k hk)⟩
  flags := by
    intro c hc
    rcases List.mem_or_eq_of_mem_set hc with hc | rfl
    · exact h.flags c hc
    · exact hflags

omit [DecidableEq K] in
/-- The entries after one bucket has been replaced. -/
theorem maps_set (hi : bs[i]? = some b) {k : K} {v : V} :
    Maps (bs.set i b') k v ↔
      (b'.active = true ∧ b'.key = k ∧ b'.value = v) ∨
        ∃ j c, i ≠ j ∧ bs[j]? = some c ∧ c.active = true ∧ c.key = k ∧ c.value = v := by
  constructor
  · rintro ⟨j, c, hj, hc⟩
    rw [getElem?_set_of_some hi] at hj
    split at hj
    · obtain rfl := Option.some.inj hj; exact Or.inl hc
    · next hij => exact Or.inr ⟨j, c, hij, hj, hc⟩
  · rintro (hc | ⟨j, c, hij, hj, hc⟩)
    · exact ⟨i, b', by rw [getElem?_set_of_some hi, if_pos rfl], hc⟩
    · exact ⟨j, c, by rw [getElem?_set_of_some hi, if_neg hij]; exact hj, hc⟩

omit [DecidableEq K] in
/-- What is counted after one bucket has been replaced. -/
theorem countP_set_of_some (b' : Bucket K V) (p : Bucket K V → Bool) (hi : bs[i]? = some b) :
    (bs.set i b').countP p + (if p b then 1 else 0)
      = bs.countP p + (if p b' then 1 else 0) := by
  obtain ⟨hlt, hget⟩ := List.getElem?_eq_some_iff.mp hi
  rw [List.countP_set hlt, hget]
  have hpos : p b = true → 0 < bs.countP p := fun hp =>
    List.countP_pos_iff.mpr ⟨b, List.mem_of_getElem? hi, hp⟩
  split
  · next hp => have := hpos hp; omega
  · omega

end Replace

/-! ### Insertion -/

section Insert

variable {bs : List (Bucket K V)}

/-- What an insertion of `key` leaves: the entry for `key`, the other entries as they were, and
counters that follow the buckets. -/
structure Inserted (hash : K → ℕ) (bs : List (Bucket K V)) (size : ℕ) (key : K) (value : V)
    (r : List (Bucket K V) × ℕ × Bool) : Prop where
  probing : Probing hash r.1
  length_eq : r.1.length = bs.length
  maps_iff : ∀ k v, Maps r.1 k v ↔ if k = key then v = value else Maps bs k v
  isNew_iff : r.2.2 = true ↔ ∀ v, ¬ Maps bs key v
  count_eq : activeCount r.1 = activeCount bs + if r.2.2 then 1 else 0
  size_eq : r.2.1 = size + if r.2.2 then 1 else 0
  tombstones_eq : tombstones r.1 = tombstones bs

/-- Overwriting the value of a live key. -/
theorem insertInternal_of_maps (size : ℕ) (h : Probing hash bs) {i : ℕ} {b : Bucket K V}
    (hi : bs[i]? = some b) (hb : b.active = true) (value : V) :
    Inserted hash bs size b.key value (insertInternal hash b.key value bs size) := by
  have heq : insertInternal hash b.key value bs size
      = (bs.set i { b with value := value }, size, false) := by
    simp [insertInternal, findSlot_of_maps h hi hb, hi, Bucket.neverUsed_eq_false_of_active hb]
  rw [heq]
  have hcount := fun p : Bucket K V → Bool =>
    countP_set_of_some { b with value := value } p hi
  refine ⟨?_, List.length_set, fun k v => ?_, ?_, ?_, ?_, ?_⟩
  · -- the key is not in another bucket, so writing here keeps the probing intact
    refine h.set hi ?_ ?_ ?_ ?_
    · exact Bucket.neverUsed_eq_false_of_active hb
    · exact h.flags b (List.mem_of_getElem? hi)
    · exact fun _ j c hij hj hc hkey => hij (h.unique hi hj hb hc hkey)
    · exact fun hact => h.chain (b := b) hi hact
  · -- the key maps to the new value, the others as before
    rw [maps_set hi]
    constructor
    · rintro (⟨-, rfl, rfl⟩ | ⟨j, c, hij, hj, hc, rfl, rfl⟩)
      · simp
      · rw [if_neg fun hkey => hij (h.unique hi hj hb hc hkey.symm)]
        exact ⟨j, c, hj, hc, rfl, rfl⟩
    · split
      · next hk => rintro rfl; exact Or.inl ⟨hb, hk.symm, rfl⟩
      · next hk =>
        rintro ⟨j, c, hj, hc, rfl, rfl⟩
        refine Or.inr ⟨j, c, ?_, hj, hc, rfl, rfl⟩
        rintro rfl
        rw [hi] at hj
        obtain rfl := Option.some.inj hj
        exact hk rfl
  · exact ⟨fun hf => (nomatch hf), fun hno => absurd ⟨i, b, hi, hb, rfl, rfl⟩ (hno b.value)⟩
  · have := hcount Bucket.active
    simp only [hb, if_true] at this
    simp only [activeCount, hb, Bool.false_eq_true, if_false]
    omega
  · rfl
  · have := hcount Bucket.tombstone
    unfold tombstones
    dsimp only at this ⊢
    omega

/-- A new key goes to the first bucket, from its home on, that was never used. The buckets before it, from the home of
the key on, are used, so no probe sequence is broken. -/
theorem insertInternal_of_not_maps (size : ℕ) (h : Probing hash bs) (hfree : HasFree bs) {key : K}
    (hk : ∀ v, ¬ Maps bs key v) (value : V) :
    Inserted hash bs size key value (insertInternal hash key value bs size) := by
  obtain ⟨i, b, hslot, hi, hnever, hdist⟩ := findSlot_of_not_maps hash hfree hk
  have heq : insertInternal hash key value bs size
      = (bs.set i { b with key := key, value := value, active := true }, size + 1, true) := by
    simp [insertInternal, hslot, hi, hnever]
  have hflags : b.active = false ∧ b.tombstone = false := by
    simpa [Bucket.neverUsed] using hnever
  rw [heq]
  have hcount := fun p : Bucket K V → Bool =>
    countP_set_of_some { b with key := key, value := value, active := true } p hi
  refine ⟨?_, List.length_set, fun k v => ?_, ?_, ?_, ?_, ?_⟩
  · -- the bucket was never used, and all before it on the path were
    refine h.set hi ?_ ?_ ?_ ?_
    · exact Bucket.neverUsed_eq_false_of_active rfl
    · exact fun _ => hflags.2
    · exact fun _ j c _ hj hc hkey => hk c.value ⟨j, c, hj, hc, hkey.symm, rfl⟩
    · exact fun _ => hdist
  · -- the bucket held no entry that could get lost
    rw [maps_set hi]
    constructor
    · rintro (⟨-, rfl, rfl⟩ | ⟨j, c, -, hj, hc, rfl, rfl⟩)
      · simp
      · rw [if_neg fun hkey => hk c.value ⟨j, c, hj, hc, hkey, rfl⟩]
        exact ⟨j, c, hj, hc, rfl, rfl⟩
    · split
      · next hkey => rintro rfl; exact Or.inl ⟨rfl, hkey.symm, rfl⟩
      · rintro ⟨j, c, hj, hc, hck, hcv⟩
        refine Or.inr ⟨j, c, ?_, hj, hc, hck, hcv⟩
        rintro rfl
        rw [hi] at hj
        obtain rfl := Option.some.inj hj
        rw [hflags.1] at hc
        cases hc
  · exact ⟨fun _ => hk, fun _ => rfl⟩
  · have := hcount Bucket.active
    simp only [hflags.1, if_true, Bool.false_eq_true, if_false] at this
    simp only [activeCount, if_true]
    omega
  · rfl
  · have := hcount Bucket.tombstone
    unfold tombstones
    dsimp only at this ⊢
    omega

/-- An insertion into buckets with room. -/
theorem insertInternal_spec (size : ℕ) (h : Probing hash bs) (hfree : HasFree bs) (key : K) (value : V) :
    Inserted hash bs size key value (insertInternal hash key value bs size) := by
  by_cases hk : ∀ v, ¬ Maps bs key v
  · exact insertInternal_of_not_maps size h hfree hk value
  · push Not at hk
    obtain ⟨v, i, b, hi, hb, rfl, -⟩ := hk
    exact insertInternal_of_maps size h hi hb value

end Insert

/-! ### Rehashing -/

omit [DecidableEq K] in
/-- The live buckets have distinct keys. -/
theorem Probing.pairwise_keys {bs : List (Bucket K V)} (h : Probing hash bs) :
    (bs.filter Bucket.active).Pairwise fun b c => b.key ≠ c.key := by
  rw [List.pairwise_filter, List.pairwise_iff_getElem]
  intro i j hi hj hij hb hc hkey
  have := h.unique (List.getElem?_eq_getElem hi) (List.getElem?_eq_getElem hj) hb hc hkey
  omega

section Rehash

variable [Inhabited K] [Inhabited V]

omit [DecidableEq K] in
/-- There are as many as were asked for. -/
@[simp] theorem length_freshBuckets (n : ℕ) : (freshBuckets n : List (Bucket K V)).length = n :=
  List.length_replicate

omit [DecidableEq K] in
/-- A fresh bucket was never used. -/
theorem of_mem_freshBuckets {n : ℕ} {b : Bucket K V} (h : b ∈ freshBuckets n) :
    b.active = false ∧ b.tombstone = false := by
  obtain rfl := (List.mem_replicate.mp h).2
  exact ⟨rfl, rfl⟩

omit [DecidableEq K] in
/-- None of them is live. -/
theorem activeCount_freshBuckets (n : ℕ) : activeCount (freshBuckets n : List (Bucket K V)) = 0 :=
  List.countP_eq_zero.mpr fun _ hb => by simp [(of_mem_freshBuckets hb).1]

omit [DecidableEq K] in
/-- None is a tombstone. -/
theorem tombstones_freshBuckets (n : ℕ) : tombstones (freshBuckets n : List (Bucket K V)) = 0 :=
  List.countP_eq_zero.mpr fun _ hb => by simp [(of_mem_freshBuckets hb).2]

omit [DecidableEq K] in
/-- They have no entries. -/
theorem not_maps_freshBuckets (n : ℕ) (k : K) (v : V) : ¬ Maps (freshBuckets n) k v := by
  rintro ⟨i, b, hi, hb, -⟩
  rw [(of_mem_freshBuckets (List.mem_of_getElem? hi)).1] at hb
  cases hb

omit [DecidableEq K] in
/-- There is nothing to be searched in them. -/
theorem probing_freshBuckets (n : ℕ) : Probing hash (freshBuckets n : List (Bucket K V)) where
  unique := fun hi _ hb => by
    rw [(of_mem_freshBuckets (List.mem_of_getElem? hi)).1] at hb; cases hb
  chain := fun hi hb => by
    rw [(of_mem_freshBuckets (List.mem_of_getElem? hi)).1] at hb; cases hb
  flags := fun _ hb _ => (of_mem_freshBuckets hb).2

omit [Inhabited K] [Inhabited V] in
/-- The loop of `rehash` adds the live entries of `src`, whose keys are distinct and none of them in
the new buckets yet, as long as there is room for them. By induction on the buckets to move. -/
theorem reinsert_spec : ∀ (src : List (Bucket K V)) {bs : List (Bucket K V)} {size : ℕ},
    Probing hash bs → size = activeCount bs → tombstones bs = 0 →
    activeCount bs + activeCount src < bs.length →
    (src.filter Bucket.active).Pairwise (fun b c => b.key ≠ c.key) →
    (∀ b ∈ src, b.active = true → ∀ v, ¬ Maps bs b.key v) →
    let r := reinsert hash src bs size
    Probing hash r.1 ∧ r.1.length = bs.length ∧ r.2 = activeCount r.1 ∧
      activeCount r.1 = activeCount bs + activeCount src ∧ tombstones r.1 = 0 ∧
      ∀ k v, Maps r.1 k v ↔ Maps bs k v ∨ ∃ b ∈ src, b.active = true ∧ b.key = k ∧ b.value = v := by
  intro src
  induction src with
  | nil =>
    intro bs size h hsize htomb _ _ _
    exact ⟨h, rfl, hsize, rfl, htomb, fun k v => by simp [reinsert]⟩
  | cons b src ih =>
    intro bs size h hsize htomb hroom hdistinct hnew
    -- a bucket that is not live is passed over
    cases hb : b.active with
    | false =>
      have hcount : activeCount (b :: src) = activeCount src := by
        simp [activeCount, hb]
      rw [hcount] at hroom ⊢
      rw [List.filter_cons_of_neg (by simp [hb])] at hdistinct
      have hr := ih h hsize htomb hroom hdistinct fun c hc => hnew c (List.mem_cons_of_mem _ hc)
      simp only [reinsert, hb, Bool.false_eq_true, if_false]
      refine ⟨hr.1, hr.2.1, hr.2.2.1, hr.2.2.2.1, hr.2.2.2.2.1, fun k v => ?_⟩
      rw [hr.2.2.2.2.2 k v]
      simp [hb]
    | true =>
      have hcount : activeCount (b :: src) = activeCount src + 1 := by
        simp [activeCount, hb]
      rw [hcount] at hroom ⊢
      rw [List.filter_cons_of_pos hb, List.pairwise_cons] at hdistinct
      -- the key is not in the new buckets, so it goes to one that was never used
      have hfresh := hnew b List.mem_cons_self hb
      have hfree := hasFree_of_load (show activeCount bs + tombstones bs < bs.length by omega)
      have hins := insertInternal_of_not_maps size h hfree hfresh b.value
      have hinsnew := hins.isNew_iff.mpr hfresh
      simp only [reinsert, hb, if_true]
      generalize insertInternal hash b.key b.value bs size = r at hins hinsnew ⊢
      have hactive := hins.count_eq
      have hsize' := hins.size_eq
      rw [hinsnew, if_pos rfl] at hactive hsize'
      have hr := @ih r.1 r.2.1 hins.probing (by omega) (hins.tombstones_eq.trans htomb)
        (by rw [hins.length_eq]; omega) hdistinct.2 fun c hc hact v hmaps => by
          have hne := hdistinct.1 c (List.mem_filter.mpr ⟨hc, hact⟩)
          rw [hins.maps_iff, if_neg hne.symm] at hmaps
          exact hnew c (List.mem_cons_of_mem _ hc) hact v hmaps
      -- the entries of the rest, and this one
      refine ⟨hr.1, hr.2.1.trans hins.length_eq, hr.2.2.1, by omega, hr.2.2.2.2.1, fun k v => ?_⟩
      rw [hr.2.2.2.2.2 k v, hins.maps_iff]
      constructor
      · rintro (hmaps | ⟨c, hc, hcv⟩)
        · split at hmaps
          · next hk => exact Or.inr ⟨b, List.mem_cons_self, hb, hk.symm, hmaps.symm⟩
          · exact Or.inl hmaps
        · exact Or.inr ⟨c, List.mem_cons_of_mem _ hc, hcv⟩
      · rintro (hmaps | ⟨c, hc, hact, rfl, rfl⟩)
        · left
          rw [if_neg]
          · exact hmaps
          · rintro rfl; exact hfresh v hmaps
        · rcases List.mem_cons.mp hc with rfl | hc
          · left; rw [if_pos rfl]
          · exact Or.inr ⟨c, hc, hact, rfl, rfl⟩

/-- `rehash` into enough buckets keeps the entries and drops the tombstones. -/
theorem rehash_spec {t : HashTable K V} (h : Probing hash t.buckets) {newCapacity : ℕ}
    (hroom : activeCount t.buckets < newCapacity) :
    let t' := t.rehash hash newCapacity
    Probing hash t'.buckets ∧ t'.buckets.length = newCapacity ∧
      t'.size = activeCount t'.buckets ∧ activeCount t'.buckets = activeCount t.buckets ∧
      tombstones t'.buckets = 0 ∧ ∀ k v, Maps t'.buckets k v ↔ Maps t.buckets k v := by
  -- the live entries go into new buckets, of which there are enough
  have hr := @reinsert_spec K V _ hash t.buckets (freshBuckets newCapacity) 0
    (probing_freshBuckets newCapacity) (activeCount_freshBuckets newCapacity).symm
    (tombstones_freshBuckets newCapacity)
    (by rw [activeCount_freshBuckets, length_freshBuckets]; omega) h.pairwise_keys
    (fun b _ _ v => not_maps_freshBuckets newCapacity b.key v)
  refine ⟨hr.1, hr.2.1.trans (length_freshBuckets _), hr.2.2.1, ?_, hr.2.2.2.2.1, fun k v => ?_⟩
  · exact hr.2.2.2.1.trans (by rw [activeCount_freshBuckets, Nat.zero_add])
  · rw [show Maps (t.rehash hash newCapacity).buckets k v ↔ _ from hr.2.2.2.2.2 k v]
    constructor
    · rintro (hm | ⟨b, hb, hact, hk, hv⟩)
      · exact absurd hm (not_maps_freshBuckets newCapacity k v)
      · obtain ⟨i, hi⟩ := List.getElem?_of_mem hb
        exact ⟨i, b, hi, hact, hk, hv⟩
    · rintro ⟨i, b, hi, hact, hk, hv⟩
      exact Or.inr ⟨b, List.mem_of_getElem? hi, hact, hk, hv⟩

end Rehash

/-! ### The invariant of the table -/

/-- What a lookup relies on: the probe chains, and a size that counts the live entries. The tombstones are
left open. -/
structure Sound (hash : K → ℕ) (t : HashTable K V) : Prop where
  probing : Probing hash t.buckets
  /-- `size` counts the live entries. -/
  size_eq : t.size = activeCount t.buckets
  /-- The capacity is at least the initial one, and even. -/
  capacity : 16 ≤ t.buckets.length ∧ 2 ∣ t.buckets.length
  /-- At most half the buckets are live. -/
  half : activeCount t.buckets ≤ t.buckets.length / 2

/-- The representation invariant. -/
structure Inv (hash : K → ℕ) (t : HashTable K V) : Prop extends Sound hash t where
  /-- `clear` leaves the counter of the tombstones, so it may run ahead of them. -/
  tombstones_le : tombstones t.buckets ≤ t.tombstoneCount
  /-- At most half the buckets are in use. -/
  load : activeCount t.buckets + tombstones t.buckets ≤ t.buckets.length / 2

section Lookup

variable {t : HashTable K V}

omit [DecidableEq K] in
/-- Under the load bound there is a bucket that was never used. -/
theorem Inv.hasFree (h : Inv hash t) : HasFree t.buckets :=
  hasFree_of_load (by have := h.load; have := h.capacity; omega)

namespace Sound

/-- What `findIndex` answers. -/
theorem findIndex_cases (h : Sound hash t) (k : K) :
    ((∀ v, ¬ Maps t.buckets k v) ∧ findIndex hash k t.buckets = none) ∨
      ∃ (i : ℕ) (b : Bucket K V), findIndex hash k t.buckets = some i ∧ t.buckets[i]? = some b ∧
        b.active = true ∧ b.key = k := by
  by_cases hk : ∀ v, ¬ Maps t.buckets k v
  · exact Or.inl ⟨hk, findIndex_of_not_maps hk⟩
  · push Not at hk
    obtain ⟨v, i, b, hi, hb, rfl, -⟩ := hk
    exact Or.inr ⟨i, b, findIndex_of_maps h.probing hi hb, hi, hb, rfl⟩

/-- `get` finds the entry of the key. -/
theorem get_eq_some_iff (h : Sound hash t) {k : K} {v : V} :
    t.get hash k = some v ↔ Maps t.buckets k v := by
  rcases h.findIndex_cases k with ⟨hno, hfind⟩ | ⟨i, b, hfind, hi, hb, rfl⟩
  · simp [get, hfind, hno v]
  · simp only [get, hfind, hi, Option.map_some, Option.some.injEq]
    constructor
    · rintro rfl
      exact ⟨i, b, hi, hb, rfl, rfl⟩
    · rintro ⟨j, c, hj, hc, hkey, rfl⟩
      obtain rfl := h.probing.unique hi hj hb hc hkey.symm
      rw [hi] at hj
      obtain rfl := Option.some.inj hj
      rfl

/-- `get` finds nothing where there is none. -/
theorem get_eq_none_iff (h : Sound hash t) {k : K} :
    t.get hash k = none ↔ ∀ v, ¬ Maps t.buckets k v := by
  rw [Option.eq_none_iff_forall_ne_some]
  exact forall_congr' fun v => not_congr h.get_eq_some_iff

/-- `contains` is `get` without the value. -/
theorem contains_eq (h : Sound hash t) (k : K) : t.contains hash k = (t.get hash k).isSome := by
  rcases h.findIndex_cases k with ⟨-, hfind⟩ | ⟨i, b, hfind, hi, -⟩
  · simp [contains, get, hfind]
  · simp [contains, get, hfind, hi]

end Sound

omit [DecidableEq K] in
/-- The iteration lists the entries. -/
theorem Inv.mem_toList_iff {k : K} {v : V} : (k, v) ∈ t.toList ↔ Maps t.buckets k v := by
  simp only [toList, List.mem_map, List.mem_filter, Prod.mk.injEq]
  constructor
  · rintro ⟨b, ⟨hb, hact⟩, hk, hv⟩
    obtain ⟨i, hi⟩ := List.getElem?_of_mem hb
    exact ⟨i, b, hi, hact, hk, hv⟩
  · rintro ⟨i, b, hi, hact, hk, hv⟩
    exact ⟨b, ⟨List.mem_of_getElem? hi, hact⟩, hk, hv⟩

namespace Sound

omit [DecidableEq K] in
/-- Each key is listed once. -/
theorem nodup_toList (h : Sound hash t) : (t.toList.map Prod.fst).Nodup := by
  rw [toList, List.map_map, List.nodup_iff_pairwise_ne, List.pairwise_map]
  exact h.probing.pairwise_keys

omit [DecidableEq K] in
/-- The size is the length of the list. -/
theorem size_eq_length (h : Sound hash t) : t.size = t.toList.length := by
  rw [h.size_eq, activeCount, toList, List.length_map, List.countP_eq_length_filter]

end Sound

end Lookup

/-! ### The operations keep it -/

section Steps

variable [Inhabited K] [Inhabited V] {t : HashTable K V}

omit [DecidableEq K] in
/-- A table of fresh buckets, whatever it has counted as tombstones. -/
theorem sound_fresh (n : ℕ) :
    Sound hash ({ buckets := freshBuckets 16, size := 0, tombstoneCount := n } : HashTable K V) where
  probing := probing_freshBuckets 16
  size_eq := (activeCount_freshBuckets 16).symm
  capacity := by rw [length_freshBuckets]; omega
  half := by rw [activeCount_freshBuckets]; exact Nat.zero_le _

omit [DecidableEq K] in
/-- It is under the load bound as well. -/
theorem inv_fresh (n : ℕ) :
    Inv hash ({ buckets := freshBuckets 16, size := 0, tombstoneCount := n } : HashTable K V) where
  toSound := sound_fresh n
  tombstones_le := by rw [tombstones_freshBuckets]; exact Nat.zero_le n
  load := by rw [activeCount_freshBuckets, tombstones_freshBuckets]; exact Nat.zero_le _

omit [DecidableEq K] in
/-- **The default-constructed table.** -/
theorem inv_empty : Inv hash (empty : HashTable K V) := inv_fresh 0

omit [DecidableEq K] in
/-- `clear` makes fresh buckets, and keeps the count of tombstones. -/
theorem inv_clear : Inv hash t.clear := inv_fresh t.tombstoneCount

/-- A rehash into more than twice the entries. -/
theorem Sound.rehash (h : Sound hash t) {n : ℕ} (hn : 16 ≤ n ∧ 2 ∣ n) (hroom : t.size < n / 2) :
    let t' := t.rehash hash n
    Sound hash t' ∧ activeCount t'.buckets < t'.buckets.length / 2 ∧ tombstones t'.buckets = 0 ∧
      ∀ k v, Maps t'.buckets k v ↔ Maps t.buckets k v := by
  have hsize := h.size_eq
  obtain ⟨hp, hlen, hs, hact, ht, hmaps⟩ :=
    rehash_spec h.probing (show activeCount t.buckets < n by omega)
  have hless : activeCount (t.rehash hash n).buckets < (t.rehash hash n).buckets.length / 2 := by
    rw [hact, hlen]
    omega
  exact ⟨⟨hp, hs, by rw [hlen]; exact hn, hless.le⟩, hless, ht, hmaps⟩

/-- What `checkRehash` leaves: either new buckets without tombstones, or the table as it is, where the
counters stay below half the capacity. -/
theorem Sound.checkRehash (h : Sound hash t) :
    let t' := t.checkRehash hash
    Sound hash t' ∧ (∀ k v, Maps t'.buckets k v ↔ Maps t.buckets k v) ∧
      activeCount t'.buckets < t'.buckets.length / 2 ∧
      (tombstones t'.buckets = 0 ∨ t' = t ∧ t.size + t.tombstoneCount < t.buckets.length / 2) := by
  have hcap := h.capacity
  have hsize := h.size_eq
  have hhalf := h.half
  unfold HashTable.checkRehash
  split
  · obtain ⟨hs, hless, ht, hmaps⟩ := h.rehash (n := t.buckets.length * 2) (by omega) (by omega)
    exact ⟨hs, hmaps, hless, .inl ht⟩
  · split
    · obtain ⟨hs, hless, ht, hmaps⟩ := h.rehash hcap (by omega)
      exact ⟨hs, hmaps, hless, .inl ht⟩
    · exact ⟨h, fun k v => Iff.rfl, by omega, .inr ⟨rfl, by omega⟩⟩

/-- After `checkRehash` there is room for one more entry under the load bound. -/
theorem Inv.checkRehash (h : Inv hash t) :
    let t' := t.checkRehash hash
    Inv hash t' ∧ activeCount t'.buckets + tombstones t'.buckets < t'.buckets.length / 2 ∧
      ∀ k v, Maps t'.buckets k v ↔ Maps t.buckets k v := by
  obtain ⟨hs, hmaps, hless, hzero | ⟨heq, hbelow⟩⟩ := h.toSound.checkRehash
  · exact ⟨⟨hs, by omega, by omega⟩, by omega, hmaps⟩
  · have htomb := h.tombstones_le
    have hsize := h.size_eq
    rw [heq]
    exact ⟨h, by omega, fun k v => Iff.rfl⟩

/-- `set` finds a bucket, and writes the entry there, if `checkRehash` leaves a bucket that was never
used. -/
theorem Sound.set (h : Sound hash t) (hfree : HasFree (t.checkRehash hash).buckets) (key : K) (value : V) :
    let r := t.set hash key value
    Sound hash r.1 ∧
      (∀ k v, Maps r.1.buckets k v ↔ if k = key then v = value else Maps t.buckets k v) ∧
      (r.2 = true ↔ ∀ v, ¬ Maps t.buckets key v) ∧
      tombstones r.1.buckets = tombstones (t.checkRehash hash).buckets ∧
      activeCount r.1.buckets ≤ activeCount (t.checkRehash hash).buckets + 1 ∧
      r.1.buckets.length = (t.checkRehash hash).buckets.length ∧
      r.1.tombstoneCount = (t.checkRehash hash).tombstoneCount := by
  obtain ⟨hs, hmaps, hless, -⟩ := h.checkRehash
  -- the insertion is made after the rehash, whose buckets hold the same
  have hins := insertInternal_spec (t.checkRehash hash).size hs.probing hfree key value
  have hcount : activeCount (t.set hash key value).1.buckets ≤ activeCount (t.checkRehash hash).buckets + 1 := by
    refine hins.count_eq.le.trans (Nat.add_le_add_left ?_ _)
    split <;> omega
  refine ⟨⟨hins.probing, ?_, ?_, ?_⟩, fun k v => (hins.maps_iff k v).trans ?_, ?_, hins.tombstones_eq, hcount,
    hins.length_eq, rfl⟩
  · exact hins.size_eq.trans ((congrArg (· + _) hs.size_eq).trans hins.count_eq.symm)
  · rw [show (t.set hash key value).1.buckets.length = _ from hins.length_eq]
    exact hs.capacity
  · rw [show (t.set hash key value).1.buckets.length = _ from hins.length_eq]
    omega
  · split
    · rfl
    · exact hmaps k v
  · exact hins.isNew_iff.trans (forall_congr' fun v => not_congr (hmaps key v))

/-- **`set` keeps the invariant** and overwrites the entry of the key. -/
theorem Inv.set (h : Inv hash t) (key : K) (value : V) :
    let r := t.set hash key value
    Inv hash r.1 ∧
      (∀ k v, Maps r.1.buckets k v ↔ if k = key then v = value else Maps t.buckets k v) ∧
      (r.2 = true ↔ ∀ v, ¬ Maps t.buckets key v) := by
  obtain ⟨hinv, hroom, -⟩ := h.checkRehash
  obtain ⟨hs, hmaps, hnew, htomb, hcount, hlength, htombs⟩ := h.toSound.set hinv.hasFree key value
  refine ⟨⟨hs, ?_, by omega⟩, hmaps, hnew⟩
  rw [htomb, htombs]
  exact hinv.tombstones_le

/-- `del` turns the bucket of the key into a tombstone. The bucket stays used, so that the probe sequences through it
are not broken. -/
theorem Sound.del (h : Sound hash t) (key : K) :
    let r := t.del hash key
    Sound hash r.1 ∧ (∀ k v, Maps r.1.buckets k v ↔ k ≠ key ∧ Maps t.buckets k v) ∧
      (r.2 = true ↔ ∃ v, Maps t.buckets key v) ∧ r.1.buckets.length = t.buckets.length ∧
      (r.1 = t ∨ activeCount r.1.buckets + 1 = activeCount t.buckets ∧
        tombstones r.1.buckets = tombstones t.buckets + 1 ∧ r.1.tombstoneCount = t.tombstoneCount + 1) := by
  rcases h.findIndex_cases key with ⟨hno, hfind⟩ | ⟨i, b, hfind, hi, hb, rfl⟩
  · -- a key that is not there leaves the table
    have heq : t.del hash key = (t, false) := by simp [HashTable.del, hfind]
    rw [heq]
    refine ⟨h, fun k v => ⟨fun hm => ⟨?_, hm⟩, And.right⟩, ?_, rfl, .inl rfl⟩
    · rintro rfl; exact hno v hm
    · exact ⟨fun hf => (by cases hf), fun ⟨v, hv⟩ => absurd hv (hno v)⟩
  · -- the bucket becomes a tombstone
    obtain ⟨grave, hgrave⟩ : ∃ c : Bucket K V,
        c = { key := default, value := default, active := false, tombstone := true } := ⟨_, rfl⟩
    have heq : t.del hash b.key = ({ buckets := t.buckets.set i grave, size := t.size - 1
                                     tombstoneCount := t.tombstoneCount + 1 }, true) := by
      simp [HashTable.del, hfind, hgrave]
    rw [heq]
    have hflag : b.tombstone = false := h.probing.flags b (List.mem_of_getElem? hi) hb
    have hact : grave.active = false := by rw [hgrave]
    -- one live entry less, and one tombstone more
    have hcountA := countP_set_of_some grave Bucket.active hi
    have hcountT := countP_set_of_some grave Bucket.tombstone hi
    simp only [hb, hflag, hgrave, if_true, Bool.false_eq_true, if_false] at hcountA hcountT
    rw [← hgrave] at hcountA hcountT
    have hsize := h.size_eq
    have hhalf := h.half
    simp only [activeCount] at hsize hhalf
    refine ⟨⟨?_, ?_, ?_, ?_⟩, fun k v => ?_, ?_, List.length_set, .inr ⟨hcountA, hcountT, rfl⟩⟩
    · refine h.probing.set hi (by simp [hgrave, Bucket.neverUsed]) ?_ ?_ ?_ <;>
        (rw [hact]; intro hf; cases hf)
    · simp only [activeCount]; omega
    · simp only [List.length_set]; exact h.capacity
    · simp only [activeCount, List.length_set]; omega
    · -- the entry of the key is gone, the others are where they were
      rw [maps_set hi, hact]
      constructor
      · rintro (⟨hf, -⟩ | ⟨j, c, hij, hj, hc, rfl, rfl⟩)
        · cases hf
        · exact ⟨fun hk => hij (h.probing.unique hi hj hb hc hk.symm), j, c, hj, hc, rfl, rfl⟩
      · rintro ⟨hk, j, c, hj, hc, rfl, rfl⟩
        refine Or.inr ⟨j, c, ?_, hj, hc, rfl, rfl⟩
        rintro rfl
        rw [hi] at hj
        obtain rfl := Option.some.inj hj
        exact hk rfl
    · exact ⟨fun _ => ⟨b.value, i, b, hi, hb, rfl, rfl⟩, fun _ => rfl⟩

/-- **`del` keeps the invariant** and takes out the entry of the key. -/
theorem Inv.del (h : Inv hash t) (key : K) :
    let r := t.del hash key
    Inv hash r.1 ∧ (∀ k v, Maps r.1.buckets k v ↔ k ≠ key ∧ Maps t.buckets k v) ∧
      (r.2 = true ↔ ∃ v, Maps t.buckets key v) := by
  obtain ⟨hs, hmaps, hthere, hlength, heq | ⟨hactive, htomb, htombs⟩⟩ := h.toSound.del key
  · exact ⟨by rw [heq]; exact h, hmaps, hthere⟩
  · have hle := h.tombstones_le
    have hload := h.load
    exact ⟨⟨hs, by omega, by omega⟩, hmaps, hthere⟩

end Steps

/-! ### Runs of operations -/

section Runs

variable [Inhabited K] [Inhabited V]

variable (K V) in
/-- The operations that change a table. -/
inductive Op where
  | set (key : K) (value : V)
  | del (key : K)
  | clear

/-- One operation on a table. -/
def Op.apply (hash : K → ℕ) (t : HashTable K V) : Op K V → HashTable K V
  | .set key value => (t.set hash key value).1
  | .del key => (t.del hash key).1
  | .clear => t.clear

omit [Inhabited K] [Inhabited V] in
/-- The same operation on a map. -/
def Op.applyMap (m : K → Option V) : Op K V → K → Option V
  | .set key value => Function.update m key (some value)
  | .del key => Function.update m key none
  | .clear => fun _ => none

/-- The table a run of operations builds from the default-constructed one. -/
def run (hash : K → ℕ) (ops : List (Op K V)) : HashTable K V := ops.foldl (Op.apply hash) empty

omit [Inhabited K] [Inhabited V] in
/-- The map the same run builds from the empty one. -/
def runMap (ops : List (Op K V)) : K → Option V := ops.foldl Op.applyMap fun _ => none

/-- The table stands for the map. -/
structure Represents (hash : K → ℕ) (t : HashTable K V) (m : K → Option V) : Prop where
  inv : Inv hash t
  maps_iff : ∀ k v, Maps t.buckets k v ↔ m k = some v

/-- One operation on the table and on the map. -/
theorem Represents.apply {t : HashTable K V} {m : K → Option V} (h : Represents hash t m)
    (op : Op K V) : Represents hash (op.apply hash t) (op.applyMap m) := by
  cases op with
  | set key value =>
    obtain ⟨hinv, hmaps, -⟩ := h.inv.set key value
    refine ⟨hinv, fun k v => (hmaps k v).trans ?_⟩
    simp only [Op.applyMap, Function.update_apply]
    split
    · rw [Option.some.injEq, eq_comm]
    · exact h.maps_iff k v
  | del key =>
    obtain ⟨hinv, hmaps, -⟩ := h.inv.del key
    refine ⟨hinv, fun k v => (hmaps k v).trans ?_⟩
    simp only [Op.applyMap, Function.update_apply]
    split
    · next hk => exact ⟨fun hm => absurd hk hm.1, fun hm => by cases hm⟩
    · next hk => rw [← h.maps_iff]; exact ⟨And.right, fun hm => ⟨hk, hm⟩⟩
  | clear =>
    -- after `clear` neither holds anything
    refine ⟨inv_clear, fun k v => ⟨fun hm => ?_, fun hm => by cases hm⟩⟩
    exact absurd hm (not_maps_freshBuckets 16 k v)

/-- By induction on the run, from any table. -/
theorem Represents.foldl (ops : List (Op K V)) {t : HashTable K V} {m : K → Option V}
    (h : Represents hash t m) :
    Represents hash (ops.foldl (Op.apply hash) t) (ops.foldl Op.applyMap m) := by
  induction ops generalizing t m with
  | nil => exact h
  | cons op ops ih => exact ih (h.apply op)

/-- Any run of them. -/
theorem represents_run (ops : List (Op K V)) : Represents hash (run hash ops) (runMap ops) := by
  refine Represents.foldl ops ⟨inv_empty, fun k v => ⟨fun hm => ?_, fun hm => by cases hm⟩⟩
  exact absurd hm (not_maps_freshBuckets 16 k v)

omit [Inhabited K] [Inhabited V] in
/-- A lookup is one in the map. -/
theorem Represents.get_eq {t : HashTable K V} {m : K → Option V} (h : Represents hash t m) (k : K) :
    t.get hash k = m k :=
  Option.ext fun v => h.inv.get_eq_some_iff.trans (h.maps_iff k v)

omit [Inhabited K] [Inhabited V] in
/-- The keys that are not in the table are those that are not in the map. -/
theorem Represents.forall_not_maps_iff {t : HashTable K V} {m : K → Option V}
    (h : Represents hash t m) (k : K) : (∀ v, ¬ Maps t.buckets k v) ↔ m k = none := by
  rw [← h.get_eq k, h.inv.get_eq_none_iff]

/-- **`HashTable` refines a finite map.** After any run of operations the lookups, the size, the iteration and the
answers of the next `set` and `del` are those of the map, and the next `set` inserts its entry: the search for its
bucket succeeds, and leaves a bucket that was never used. The run keeps `Represents`: the entries in use are those of
the map, every probe sequence is without a gap up to its entry, and live entries and tombstones together leave a
bucket free. Each answer is read off that. -/
theorem refines (hash : K → ℕ) (ops : List (Op K V)) :
    let t := run hash ops
    let m := runMap ops
    (∀ k, t.get hash k = m k ∧ t.contains hash k = (m k).isSome) ∧
    (∀ k v, (t.set hash k v).2 = (m k).isNone) ∧
    (∀ k, (t.del hash k).2 = (m k).isSome) ∧
    t.size = {k | (m k).isSome}.ncard ∧
    (t.toList.map Prod.fst).Nodup ∧ (∀ k v, (k, v) ∈ t.toList ↔ m k = some v) ∧
    ∀ k v, let t' := (t.set hash k v).1
      activeCount t'.buckets + tombstones t'.buckets < t'.buckets.length ∧
      findSlot hash (t.checkRehash hash).buckets k ≠ none ∧
      (∀ k', findSlot hash t'.buckets k' ≠ none) ∧
      ∀ k', t'.get hash k' = if k' = k then some v else m k' := by
  intro t m
  have h : Represents hash t m := represents_run ops
  have hmem : ∀ k v, (k, v) ∈ t.toList ↔ m k = some v := fun k v =>
    Inv.mem_toList_iff.trans (h.maps_iff k v)
  refine ⟨fun k => ⟨h.get_eq k, ?_⟩, fun k v => ?_, fun k => ?_, ?_, h.inv.nodup_toList, hmem,
    fun k v => ⟨?_, ?_, fun k' => ?_, fun k' => ?_⟩⟩
  · rw [h.inv.contains_eq, h.get_eq]
  · rw [Bool.eq_iff_iff, (h.inv.set k v).2.2, h.forall_not_maps_iff, Option.isNone_iff_eq_none]
  · rw [Bool.eq_iff_iff, (h.inv.del k).2.2, Option.isSome_iff_exists]
    exact exists_congr fun v => h.maps_iff k v
  · -- the live entries have distinct keys, so there are as many of them as the map has keys
    have hkeys : {k | (m k).isSome} = ((t.toList.map Prod.fst).toFinset : Set K) := by
      ext k
      simp only [Set.mem_ofPred_eq, List.coe_toFinset, List.mem_map, Prod.exists, exists_and_right,
        exists_eq_right, Option.isSome_iff_exists, hmem]
    rw [hkeys, Set.ncard_coe_finset, List.toFinset_card_of_nodup h.inv.nodup_toList,
      List.length_map, h.inv.size_eq_length]
  · -- after the call there is a bucket that was never used, so no probe runs in a circle
    have hinv := (h.inv.set k v).1
    have hload := hinv.load
    have hcap := hinv.capacity
    omega
  · have hinv := h.inv.checkRehash.1
    exact findSlot_ne_none hinv.probing hinv.hasFree k
  · have hinv := (h.inv.set k v).1
    exact findSlot_ne_none hinv.probing hinv.hasFree k'
  · refine ((h.apply (.set k v)).get_eq k').trans ?_
    simp only [Op.applyMap, Function.update_apply]

/-- A run that needs both kinds of rehash and a walk past a tombstone: all keys collide. -/
example :
    let t := run (fun _ => 3) ((List.range 9).map (fun k => .set k (k * k)) ++
      [Op.del 0, .del 1, .set 1 5, .del 2] : List (Op ℕ ℕ))
    t.get (fun _ => 3) 1 = some 5 ∧ t.get (fun _ => 3) 8 = some 64 ∧ t.size = 7 ∧
      t.buckets.length = 32 := by decide

end Runs

end HashTable
end RedisDb
