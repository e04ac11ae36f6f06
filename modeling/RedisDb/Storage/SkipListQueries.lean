import RedisDb.Storage.SkipListRuns
import RedisDb.Storage.SkipListSearch

/-!
# What the searches of a skip list find, over whole runs

`Built t` says that `t` is what a run of insertions and deletions leaves. Unlike in a sorted set, a
pair may be inserted again and then stands in the list twice. `searches_exact` compares each search
with a scan of the level-0 chain: the range searches always agree with it, and `getElementByRank` does
if and only if no link of a level in use leads `2^32` nodes on, where its span would wrap around.
-/

namespace RedisDb

open Chain (IsNext)

variable {S : Type}

namespace SkipList

section Built

variable [Inhabited S] [LinearOrder S]

/-- What a run of insertions and deletions leaves. -/
inductive Built : SkipList S → Prop where
  | new (rng : ℕ → Height) : Built (new rng)
  | insert {t} (score : S) (member : Bytes) : Built t → Built (t.insert score member).1
  | deleteNode {t} (score : S) (member : Bytes) : Built t → Built (t.deleteNode score member).1

variable {t : SkipList S} {row : List (Tower S)}

/-- By induction on the run: the links of a row in order are kept, equal pairs side by side. -/
theorem Built.held (h : Built t) : ∃ row, Held t row ∧ row.Pairwise fun e f => e.key ≤ f.key := by
  induction h with
  | new rng => exact ⟨[], (inv_new rng).toHeld, List.Pairwise.nil⟩
  | @insert t score member _ ih =>
    obtain ⟨row, hheld, hsorted⟩ := ih
    obtain ⟨r, hr, hrank⟩ := exists_rank (k := toLex (score, member)) hsorted
    refine ⟨_, hheld.insert rfl hr hrank, ?_⟩
    exact pairwise_insertIdx_rank hsorted hr rfl hrank (fun _ _ hlt => hlt.le) fun _ _ hle => hle
  | @deleteNode t score member _ ih =>
    obtain ⟨row, hheld, hsorted⟩ := ih
    obtain ⟨r, hr, hrank⟩ := exists_rank (k := toLex (score, member)) hsorted
    rcases hheld.deleteNode hsorted rfl hr hrank with ⟨e, -, -, -, hleft⟩ | ⟨-, heq⟩
    · exact ⟨_, hleft, hsorted.sublist (List.eraseIdx_sublist _ _)⟩
    · rw [heq]
      exact ⟨row, hheld, hsorted⟩

/-! ### The searches against a scan -/

/-- `getElementByRank` counts the nodes of the level-0 chain from 1. -/
def RanksExact (t : SkipList S) : Prop :=
  ∀ rank, 1 ≤ rank → t.getElementByRank rank = (t.chain 0)[rank - 1]?

/-- The score of a node lies in `[min, max]`. -/
def inRange (t : SkipList S) (min max : S) (a : Addr) : Bool :=
  decide (min ≤ (t.pair a).1 ∧ (t.pair a).1 ≤ max)

/-- `getFirstInRange` and `getLastInRange` are the first and the last node of the level-0 chain whose
score lies in the range. -/
def RangesExact (t : SkipList S) : Prop :=
  ∀ min max, t.getFirstInRange min max = (t.chain 0).find? (t.inRange min max) ∧
    t.getLastInRange min max = (t.chain 0).reverse.find? (t.inRange min max)

theorem Held.find?_chain (h : Held t row) (min max : S) {nodes : List (Tower S)} (hsub : ∀ e ∈ nodes, e ∈ row) :
    (nodes.map Tower.addr).find? (t.inRange min max)
      = (nodes.find? fun e => decide (min ≤ e.score ∧ e.score ≤ max)).map Tower.addr := by
  rw [List.find?_map]
  refine congrArg (Option.map Tower.addr) (List.find?_congr fun e he => ?_)
  rw [Function.comp_apply, inRange, h.pair_eq (hsub e he)]

theorem Held.rangesExact (h : Held t row) (hsorted : row.Pairwise fun e f => e.key ≤ f.key) : t.RangesExact := by
  intro min max
  rw [h.getFirstInRange hsorted, h.getLastInRange hsorted, h.chain_zero, ← List.map_reverse,
    h.find?_chain min max fun e he => he, h.find?_chain min max fun e he => List.mem_reverse.mp he]
  exact ⟨rfl, rfl⟩

omit [LinearOrder S] in
theorem Held.ranksExact_iff (h : Held t row) : t.RanksExact ↔ Fits t row := by
  -- the chain along level 0 is the row
  have hposition : ∀ {rank : ℕ}, 1 ≤ rank → (t.chain 0)[rank - 1]?
      = if rank ≤ row.length then some (addrAt t.head row rank) else none := fun {rank} hrank => by
    obtain ⟨p, rfl⟩ : ∃ p, rank = p + 1 := ⟨rank - 1, by omega⟩
    rw [h.chain_zero, List.getElem?_map, Nat.add_sub_cancel]
    split
    · next hlt =>
      have hget := List.getElem?_eq_getElem (show p < row.length from hlt)
      rw [addrAt_succ hget, hget]
      rfl
    · next hge =>
      rw [List.getElem?_eq_none (by omega)]
      rfl
  constructor
  · intro hexact
    by_contra hfits
    -- where a link is too long for its span, some rank is missed
    obtain ⟨rank, hrank, hle, hmiss⟩ := h.getElementByRank_of_not_fits hfits
    exact hmiss (by rw [hexact rank hrank, hposition hrank, if_pos hle])
  · intro hfits rank hrank
    rw [h.getElementByRank_of_fits hfits, hposition hrank]

/-- **Skip list searches are exact**: in every skip list a run leaves, the level-0 chain is in order, the range
searches find what a scan of it finds, and `getElementByRank` counts its nodes if and only if no pointer of a level in
use leads `2^32` or more nodes ahead. What a run leaves holds a sorted row of towers (`Held`). Only the ranks rest on
the spans, and a span is the length of its pointer unless it wraps. -/
theorem searches_exact (h : Built t) :
    ((t.chain 0).map fun a => toLex (t.pair a)).Pairwise (· ≤ ·) ∧ (t.chain 0).length = t.length ∧
    t.RangesExact ∧ (t.RanksExact ∧ t.RangesExact ↔ t.LinksShort) := by
  obtain ⟨row, hheld, hsorted⟩ := h.held
  have hranges := hheld.rangesExact hsorted
  refine ⟨?_, ?_, hranges, ?_⟩
  · rw [hheld.chain_zero, List.map_map, List.pairwise_map]
    refine hsorted.imp_of_mem fun {e f} he hf hle => ?_
    rw [Function.comp_apply, Function.comp_apply, hheld.pair_eq he, hheld.pair_eq hf]
    exact hle
  · rw [hheld.chain_zero, List.length_map, hheld.length]
  · rw [hheld.linksShort_iff, ← hheld.ranksExact_iff]
    exact and_iff_left hranges

end Built

/-- A list in which a pair stands twice. -/
theorem searches_exact_sample : ∃ t : SkipList ℕ, Built t ∧ t.length = 3 ∧ t.RanksExact ∧ t.RangesExact := by
  obtain ⟨t, ht⟩ : ∃ t : SkipList ℕ, t = ((((new fun n => if n = 0 then ⟨2, by decide⟩ else ⟨1, by decide⟩).insert
    5 [1]).1.insert 3 [2]).1.insert 3 [2]).1 := ⟨_, rfl⟩
  have hbuilt : Built t := ht ▸ .insert 3 [2] (.insert 3 [2] (.insert 5 [1] (.new _)))
  have hlength : t.length = 3 := by rw [ht]; rfl
  obtain ⟨-, hchain, -, hiff⟩ := searches_exact hbuilt
  exact ⟨t, hbuilt, hlength, hiff.mpr (linksShort_of_lt (by rw [hchain, hlength]; decide))⟩

/-! ### A span that wraps around -/

section Wrapped

/-- `n` pairs inserted with growing scores. -/
def growing (rng : ℕ → Height) : ℕ → SkipList ℕ
  | 0 => new rng
  | n + 1 => ((growing rng n).insert n []).1

theorem built_growing (rng : ℕ → Height) : ∀ n, Built (growing rng n)
  | 0 => .new rng
  | n + 1 => .insert n [] (built_growing rng n)

/-- By induction on the pairs: each goes to the end of the row. -/
theorem held_growing (rng : ℕ → Height) (n : ℕ) : ∃ row : List (Tower ℕ), Held (growing rng n) row ∧
    row.map (fun e => (e.score, e.height)) = (List.range n).map (fun k => (k, (rng k).val)) ∧
    (growing rng n).rng = fun k => rng (n + k) := by
  induction n with
  | zero => exact ⟨[], (inv_new rng).toHeld, rfl, funext fun k => by rw [Nat.zero_add]; rfl⟩
  | succ n ih =>
    obtain ⟨row, hheld, htowers, hrng⟩ := ih
    -- the scores so far are below the next one, so that it is inserted at the end
    have hbelow : ∀ e ∈ row, e.score < n := fun e he => by
      have hmem := List.mem_map_of_mem (f := fun e : Tower ℕ => (e.score, e.height)) he
      rw [htowers] at hmem
      obtain ⟨k, hk, heq⟩ := List.mem_map.mp hmem
      rw [← (Prod.mk.inj heq).1]
      exact List.mem_range.mp hk
    have hrank : ∀ (p : ℕ) (e : Tower ℕ), row[p]? = some e → (e.key < toLex (n, ([] : Bytes)) ↔ p < row.length) :=
      fun p e he => ⟨fun _ => (List.getElem?_eq_some_iff.mp he).1, fun _ =>
        Prod.Lex.toLex_lt_toLex.mpr (Or.inl (hbelow e (List.mem_of_getElem? he)))⟩
    have hinsert := hheld.insert rfl le_rfl hrank
    rw [List.insertIdx_length_self] at hinsert
    refine ⟨_, hinsert, ?_, ?_⟩
    · rw [List.map_append, htowers, List.range_succ, List.map_append]
      simp only [List.map_cons, List.map_nil, newTower, hrng, Nat.add_zero]
    · show (fun k => (growing rng n).rng (k + 1)) = _
      rw [hrng]
      funext k
      rw [show n + 1 + k = n + (k + 1) by omega]

/-- Of `2^32` nodes only the last reaches level 1: the head's span of that level has wrapped around. -/
theorem searches_wrapped : ¬ ∀ t : SkipList ℕ, Built t → t.RanksExact ∧ t.RangesExact := by
  intro hclaim
  obtain ⟨N, hN⟩ : ∃ N, N = 2 ^ 32 := ⟨_, rfl⟩
  obtain ⟨rng, hrng⟩ : ∃ rng : ℕ → Height,
      rng = fun k => if k + 1 = N then ⟨2, by decide⟩ else ⟨1, by decide⟩ := ⟨_, rfl⟩
  have hheight : ∀ k, (rng k).val = if k + 1 = N then 2 else 1 := fun k => by
    rw [hrng]; dsimp only; split <;> rfl
  -- a list of 2^32 towers, all of height 1 but the last, which has height 2
  obtain ⟨row, hheld, htowers, -⟩ := held_growing rng N
  have hlength : row.length = N := by simpa using congrArg List.length htowers
  have htower : ∀ {p : ℕ} {e : Tower ℕ}, row[p]? = some e → e.height = if p + 1 = N then 2 else 1 := by
    intro p e he
    have hmap := congrArg (fun l => l[p]?) htowers
    have hp := (List.getElem?_eq_some_iff.mp he).1
    simp only [List.getElem?_map, he, Option.map_some, List.getElem?_range (hlength ▸ hp)] at hmap
    rw [(Prod.mk.inj (Option.some.inj hmap)).2, hheight]
  have hlast := List.getElem?_eq_getElem (show N - 1 < row.length by omega)
  have hlevel : 2 ≤ (growing rng N).level := by
    have hle := (hheld.heights _ (List.mem_of_getElem? hlast)).2
    rwa [htower hlast, if_pos (by omega)] at hle
  -- level 1 leads from the head to the last node
  have htall : Tall (growing rng N).head row 1 N := by
    refine ⟨row[N - 1], ?_, by rw [htower hlast, if_pos (by omega)]; omega⟩
    obtain ⟨M, hM⟩ : ∃ M, N = M + 1 := ⟨N - 1, by omega⟩
    subst hM
    exact hlast
  have hnext : IsNext (Tall (growing rng N).head row 1) row.length 0 (some N) := by
    refine ⟨by omega, hlength.ge, htall, fun p hp hpn ht => ?_⟩
    obtain ⟨q, rfl⟩ : ∃ q, p = q + 1 := ⟨p - 1, by omega⟩
    obtain ⟨e, he, hlt⟩ := ht
    rw [htower (p := q) he, if_neg (by omega)] at hlt
    omega
  -- the link from the head spans 2^32 positions, more than the span can count
  have hfits := hheld.ranksExact_iff.mp (hclaim _ (built_growing rng N)).1
  have := hfits 1 hlevel 0 N (tall_zero (by decide)) hnext
  omega

end Wrapped

end SkipList
end RedisDb
