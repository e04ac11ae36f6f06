import RedisDb.Commands.Refusals

/-!
# Commands that read

A command that only looks at the data changes nothing: what it looks at goes away if it has expired, and is marked as
in use otherwise. So such a command keeps `DbState.OnlyExpires`, whatever it is given and however it ends.

The relation is reflexive and transitive, so it is enough that each method of the database has it; the commands are
made of these by the rules for programs. What a command replies makes no difference, and neither does the type of the
object that it finds: both branches of each test end without another access.
-/

namespace RedisDb

open RespSerializer

variable {S : Type}

/-! ### The methods -/

namespace DbState

variable {s : DbState S}

/-- Listing the keys takes readings of the clock, and does nothing else. By induction on the keys. -/
theorem keysLoop_eq (pattern : Bytes) (keys : List Bytes) : ∀ s : DbState S,
    ∃ n, (keysLoop pattern keys s).2 = { s with clock := fun k => s.clock (n + k) } := by
  induction keys with
  | nil =>
    intro s
    exact ⟨0, by simp only [keysLoop, Nat.zero_add]⟩
  | cons key keys ih =>
    intro s
    have hexpired : ∃ m, (s.isExpired key).2 = { s with clock := fun k => s.clock (m + k) } := by
      unfold isExpired
      cases s.db.expires.lookup key with
      | none => exact ⟨0, by simp only [Nat.zero_add]⟩
      | some deadline => exact ⟨1, by simp only [now, Nat.add_comm 1]⟩
    obtain ⟨m, hm⟩ := hexpired
    obtain ⟨n, hn⟩ := ih (s.isExpired key).2
    refine ⟨m + n, ?_⟩
    -- a key is listed or left out, from one and the same state
    have hrest : (keysLoop pattern (key :: keys) s).2 = (keysLoop pattern keys (s.isExpired key).2).2 := by
      rw [keysLoop]
      dsimp only
      split <;> rfl
    rw [hrest, hn, hm]
    simp only [Nat.add_assoc]

/-- `KEYS` takes readings of the clock. -/
theorem onlyExpires_keys (pattern : Bytes) (s : DbState S) : s.OnlyExpires (s.keys pattern).2 := by
  obtain ⟨n, hn⟩ := keysLoop_eq pattern s.db.data.keys s
  refine Sheds.of_now (n := n) ?_ ?_ ?_ ?_
  all_goals rw [keys, hn]
  rfl

variable [Platform]

/-- Looking whether a key is there. -/
theorem onlyExpires_contains (key : Bytes) (s : DbState S) : s.OnlyExpires (s.contains key).2 := by
  have hcheck : s.OnlyExpires (s.checkAndExpire key).2 := sheds_checkAndExpire key s
  unfold contains
  rcases hx : s.checkAndExpire key with ⟨expired, t⟩
  rw [hx] at hcheck
  cases expired with
  | true => exact hcheck
  | false => exact hcheck

/-- Looking of what type it is. -/
theorem onlyExpires_type (key : Bytes) (s : DbState S) : s.OnlyExpires (s.type key).2 := by
  have hcheck : s.OnlyExpires (s.checkAndExpire key).2 := sheds_checkAndExpire key s
  unfold type
  rcases hx : s.checkAndExpire key with ⟨expired, t⟩
  rw [hx] at hcheck
  cases expired with
  | true => exact hcheck
  | false =>
    dsimp only
    rw [if_neg Bool.false_ne_true]
    split
    · exact hcheck
    · exact hcheck

/-- Looking what string it holds. -/
theorem onlyExpires_get (key : Bytes) (s : DbState S) : s.OnlyExpires (s.get key).2 := by
  have hget : s.OnlyExpires (s.getObject key).2 := (sheds_getObject key s).1
  unfold get
  rcases hx : s.getObject key with ⟨obj, t⟩
  rw [hx] at hget
  dsimp only
  split
  · exact hget
  · exact hget

end DbState

/-! ### The commands -/

section Commands

open DbState

variable [Platform] {α : Type} {s₀ : DbState S}

/-- A method that changes nothing. -/
theorem onlyExpires_call {f : DbState S → α × DbState S} {h : ∀ s, DbState.Call s (f s).2}
    (hf : ∀ s : DbState S, s.OnlyExpires (f s).2) : (DbM.call f h).Keeps s₀.OnlyExpires :=
  fun s hs => (DbM.post_call s _).mpr (hs.trans (hf s))

/-- A look at an object. -/
theorem onlyExpires_getObject (key : Bytes) : (DbM.getObject key : DbM S _).Keeps s₀.OnlyExpires :=
  onlyExpires_call fun s => (sheds_getObject key s).1

/-- A look at a string. -/
theorem onlyExpires_getString (key : Bytes) : (DbM.get key : DbM S _).Keeps s₀.OnlyExpires :=
  onlyExpires_call (DbState.onlyExpires_get key)

/-- A look at a deadline. -/
theorem onlyExpires_pttl (key : Bytes) : (DbM.pttl key : DbM S _).Keeps s₀.OnlyExpires :=
  onlyExpires_call (sheds_pttl key)

/-- A look at an object, and a reply that depends on whether it is there and on what it is. -/
theorem onlyExpires_lookup (key : Bytes) {reply : Option (RedisObject S) → DbM S α}
    (hnone : (reply none).Keeps s₀.OnlyExpires) (hsome : ∀ obj, (reply (some obj)).Keeps s₀.OnlyExpires) :
    (DbM.getObject key >>= reply).Keeps s₀.OnlyExpires :=
  .bind (onlyExpires_getObject key) fun obj => by
    cases obj with
    | none => exact hnone
    | some obj => exact hsome obj

variable (args : List RespValue)

theorem onlyExpires_getCommand : (getCommand args).Keeps s₀.OnlyExpires := by
  refine .bind (keeps_argString _ _) fun key => .bind (onlyExpires_getString key) fun value => ?_
  cases value with
  | none => exact .pure _
  | some value => exact .pure _

theorem onlyExpires_strlenCommand : (strlenCommand args).Keeps s₀.OnlyExpires := by
  refine .bind (keeps_argString _ _) fun key => .bind (onlyExpires_getString key) fun value => ?_
  cases value with
  | none => exact .pure _
  | some value => exact .pure _

/-- `MGET` looks at one key after another. -/
theorem onlyExpires_mgetCommand : (mgetCommand args).Keeps s₀.OnlyExpires := by
  refine .foldlM _ (fun response arg _ => ?_) _
  refine .bind (.ofExcept _) fun key => .bind (onlyExpires_getString key) fun value => ?_
  cases value with
  | none => exact .pure _
  | some value => exact .pure _

/-- So does `EXISTS`. -/
theorem onlyExpires_existsCommand : (existsCommand args).Keeps s₀.OnlyExpires := by
  refine .bind (.foldlM _ (fun count arg _ => ?_) _) fun _ => .pure _
  exact .bind (.ofExcept _) fun key => .bind (onlyExpires_call (DbState.onlyExpires_contains key)) fun _ => .pure _

theorem onlyExpires_typeCommand : (typeCommand args).Keeps s₀.OnlyExpires :=
  .bind (keeps_argString _ _) fun key => .bind (onlyExpires_call (DbState.onlyExpires_type key)) fun _ => .pure _

theorem onlyExpires_keysCommand : (keysCommand args).Keeps s₀.OnlyExpires :=
  .bind (keeps_argString _ _) fun pattern => .bind (onlyExpires_call (DbState.onlyExpires_keys pattern)) fun _ =>
    .pure _

theorem onlyExpires_ttlCommand : (ttlCommand args).Keeps s₀.OnlyExpires :=
  .bind (keeps_argString _ _) fun key => .bind (onlyExpires_pttl key) fun _ => .pure _

theorem onlyExpires_pttlCommand : (pttlCommand args).Keeps s₀.OnlyExpires :=
  .bind (keeps_argString _ _) fun key => .bind (onlyExpires_pttl key) fun _ => .pure _

theorem onlyExpires_dbsizeCommand : (dbsizeCommand args).Keeps s₀.OnlyExpires := .bind (.read _) fun _ => .pure _

/-- `LRANGE` reads both indices first. -/
theorem onlyExpires_lrangeCommand : (lrangeCommand args).Keeps s₀.OnlyExpires := by
  refine .bind (keeps_argString _ _) fun key => .bind (keeps_argConverted _ _ _) fun start =>
    .bind (keeps_argConverted _ _ _) fun stop => ?_
  split
  · refine onlyExpires_lookup key (.pure _) fun obj => ?_
    dsimp only
    split <;> exact .pure _
  · exact .pure _

theorem onlyExpires_llenCommand : (llenCommand args).Keeps s₀.OnlyExpires := by
  refine .bind (keeps_argString _ _) fun key => onlyExpires_lookup key (.pure _) fun obj => ?_
  dsimp only
  split <;> exact .pure _

theorem onlyExpires_hgetCommand : (hgetCommand args).Keeps s₀.OnlyExpires := by
  refine .bind (keeps_argString _ _) fun key => .bind (keeps_argString _ _) fun field =>
    onlyExpires_lookup key (.pure _) fun obj => ?_
  dsimp only
  split
  · split <;> exact .pure _
  · exact .pure _

theorem onlyExpires_hgetallCommand : (hgetallCommand args).Keeps s₀.OnlyExpires := by
  refine .bind (keeps_argString _ _) fun key => onlyExpires_lookup key (.pure _) fun obj => ?_
  dsimp only
  split <;> exact .pure _

theorem onlyExpires_sismemberCommand : (sismemberCommand args).Keeps s₀.OnlyExpires := by
  refine .bind (keeps_argString _ _) fun key => .bind (keeps_argString _ _) fun member =>
    onlyExpires_lookup key (.pure _) fun obj => ?_
  dsimp only
  split <;> exact .pure _

theorem onlyExpires_smembersCommand : (smembersCommand args).Keeps s₀.OnlyExpires := by
  refine .bind (keeps_argString _ _) fun key => onlyExpires_lookup key (.pure _) fun obj => ?_
  dsimp only
  split <;> exact .pure _

/-- `ZRANGE` reads its option first, and then the indices. -/
theorem onlyExpires_zrangeCommand [Double S] [Inhabited S] : (zrangeCommand args).Keeps s₀.OnlyExpires := by
  have hoption : (withScoresOption args : DbM S _).Keeps s₀.OnlyExpires := by
    unfold withScoresOption
    split
    · exact .pure _
    · exact .bind (.ofExcept _) fun _ => .ite (.pure _) (.pure _)
  refine .bind hoption fun withScores => ?_
  cases withScores with
  | none => exact .pure _
  | some withScores =>
    refine .bind (keeps_argString _ _) fun key => .bind (keeps_argConverted _ _ _) fun start =>
      .bind (keeps_argConverted _ _ _) fun stop => ?_
    split
    · refine onlyExpires_lookup key (.pure _) fun obj => ?_
      dsimp only
      split <;> exact .pure _
    · exact .pure _

theorem onlyExpires_zrankCommand [Inhabited S] [LT S] [DecidableLT S] [BEq S] :
    (zrankCommand args).Keeps s₀.OnlyExpires := by
  refine .bind (keeps_argString _ _) fun key => .bind (keeps_argString _ _) fun member =>
    onlyExpires_lookup key (.pure _) fun obj => ?_
  dsimp only
  split
  · exact .ite (.pure _) (.pure _)
  · exact .pure _

theorem onlyExpires_zscoreCommand [Double S] : (zscoreCommand args).Keeps s₀.OnlyExpires := by
  refine .bind (keeps_argString _ _) fun key => .bind (keeps_argString _ _) fun member =>
    onlyExpires_lookup key (.pure _) fun obj => ?_
  dsimp only
  split
  · split <;> exact .pure _
  · exact .pure _

end Commands

end RedisDb
