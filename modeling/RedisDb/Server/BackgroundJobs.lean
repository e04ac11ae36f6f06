import RedisDb.Commands.ServerCommands
import RedisDb.Server.OnDatabase
import Mathlib.Logic.Relation

/-!
# Background jobs

`bgsave` and `bgrewriteaof` claim a flag with an atomic exchange, copy the databases and start a
thread, which clears the flag as the last thing it does. Here the flags and the threads are apart, and
every access of a flag is a step of its own, so that a thread may end between any two of them. The
programs of the server, which run a request as one step, are runs of this machine.
-/

namespace RedisDb

/-! ### Flags and threads -/

/-- Where the thread of the event loop is in a request. -/
inductive Stage where
  | idle
  /-- In `save`, which writes the file itself. -/
  | saving
  /-- In `bgsave`, which has claimed `bgsaveInProgress_`. -/
  | claimedSave
  /-- In `bgrewriteaof`, which has claimed `bgrewriteaofInProgress_`. -/
  | claimedRewrite
  /-- In `bgrewriteaof`, which has seen no background save. -/
  | checked
  deriving DecidableEq

/-- The threads of each kind that a request is still to start, if nothing refuses it. -/
def Stage.owesSave (stage : Stage) : ℕ := if stage = .claimedSave then 1 else 0

@[inherit_doc Stage.owesSave]
def Stage.owesRewrite (stage : Stage) : ℕ :=
  if stage = .claimedRewrite ∨ stage = .checked then 1 else 0

/-- The flags, and the threads that are outstanding. -/
structure Jobs where
  bgsaveInProgress : Bool := false
  bgrewriteaofInProgress : Bool := false
  saves : ℕ := 0
  rewrites : ℕ := 0
  stage : Stage := .idle
  /-- What the last request has returned. -/
  answer : Option Bool := none
  deriving DecidableEq

/-- A step of the event loop's thread, or the end of a background thread. -/
inductive Act where
  | save
  | saved (success : Bool)
  | bgsave
  | startSave
  | bgrewriteaof
  | check
  | startRewrite
  | endSave
  | endRewrite
  deriving DecidableEq

namespace Jobs

/-- `return`. -/
def returns (j : Jobs) (b : Bool) : Jobs := { j with stage := .idle, answer := some b }

/-- The state after a step, where the step is possible. -/
def step (j : Jobs) : Act → Option Jobs
  | .save =>
    if j.stage = .idle then
      some (if j.bgsaveInProgress then j.returns false else { j with stage := .saving })
    else none
  | .saved success => if j.stage = .saving then some (j.returns success) else none
  | .bgsave =>
    -- `exchange` leaves the flag set in either case.
    if j.stage = .idle then
      some (if j.bgsaveInProgress then j.returns false
        else { j with bgsaveInProgress := true, stage := .claimedSave })
    else none
  | .startSave =>
    if j.stage = .claimedSave then some ({ j with saves := j.saves + 1 }.returns true) else none
  | .bgrewriteaof =>
    if j.stage = .idle then
      some (if j.bgrewriteaofInProgress then j.returns false
        else { j with bgrewriteaofInProgress := true, stage := .claimedRewrite })
    else none
  | .check =>
    -- The early return does not give back the flag that the request has claimed.
    if j.stage = .claimedRewrite then
      some (if j.bgsaveInProgress then j.returns false else { j with stage := .checked })
    else none
  | .startRewrite =>
    if j.stage = .checked then some ({ j with rewrites := j.rewrites + 1 }.returns true) else none
  | .endSave =>
    if 0 < j.saves then some { j with bgsaveInProgress := false, saves := j.saves - 1 } else none
  | .endRewrite =>
    if 0 < j.rewrites then
      some { j with bgrewriteaofInProgress := false, rewrites := j.rewrites - 1 }
    else none

/-- Steps one after another. -/
def run (j : Jobs) (acts : List Act) : Option Jobs := acts.foldlM step j

/-- Each flag is set exactly while a thread is outstanding. -/
structure Exact (j : Jobs) : Prop where
  save : j.bgsaveInProgress = true ↔ 0 < j.saves
  rewrite : j.bgrewriteaofInProgress = true ↔ 0 < j.rewrites

/-- Where no thread is outstanding, no request is refused. -/
structure Serving (j : Jobs) : Prop where
  save (success : Bool) : j.saves = 0 → (j.run [.save, .saved success]).bind answer = some success
  bgsave : j.saves = 0 → (j.run [.bgsave, .startSave]).bind answer = some true
  bgrewriteaof : j.saves = 0 → j.rewrites = 0 →
    (j.run [.bgrewriteaof, .check, .startRewrite]).bind answer = some true

end Jobs

/-- Between the requests of a run the flags are exact, and nothing but a thread has a request refused. -/
def FlagsExact (acts : List Act) : Prop :=
  ∀ before j, before <+: acts → ({} : Jobs).run before = some j → j.stage = .idle →
    j.Exact ∧ j.Serving

/-- No `BGREWRITEAOF` of a run that has claimed its flag sees a background save. -/
def NoSaveAtCheck (acts : List Act) : Prop :=
  ∀ before j, before ++ [.check] <+: acts → ({} : Jobs).run before = some j →
    j.bgsaveInProgress = false

namespace Jobs

/-! ### What a step does to the flags -/

variable {i j : Jobs} {a : Act}

/-- The saves that `bgsave` has claimed the flag for: those that are outstanding, and the one it is
about to start. -/
def claimedSaves (j : Jobs) : ℕ := j.saves + j.stage.owesSave

@[inherit_doc claimedSaves]
def claimedRewrites (j : Jobs) : ℕ := j.rewrites + j.stage.owesRewrite

theorem step_saves (h : j.step a = some i) :
    (i.bgsaveInProgress = j.bgsaveInProgress ∧ i.claimedSaves = j.claimedSaves) ∨
    (j.bgsaveInProgress = false ∧ i.bgsaveInProgress = true ∧ i.claimedSaves = j.claimedSaves + 1) ∨
    (i.bgsaveInProgress = false ∧ i.claimedSaves + 1 = j.claimedSaves) := by
  unfold claimedSaves Stage.owesSave
  cases a <;> simp only [step, Option.ite_none_right_eq_some, Option.some.injEq] at h <;>
    obtain ⟨hstage, rfl⟩ := h
  case bgsave =>
    cases hflag : j.bgsaveInProgress with
    | false => exact .inr (.inl (by simp [hstage]))
    | true => exact .inl (by simp [returns, hflag, hstage])
  case endSave => exact .inr (.inr ⟨rfl, by dsimp only; omega⟩)
  case endRewrite => exact .inl ⟨rfl, rfl⟩
  case save | bgrewriteaof | check => left; split <;> simp [returns, hstage]
  case saved | startSave | startRewrite => exact .inl (by simp [returns, hstage])

/-- There is one step that drops a claim and leaves the flag. -/
theorem step_rewrites (h : j.step a = some i) :
    (i.bgrewriteaofInProgress = j.bgrewriteaofInProgress ∧ i.claimedRewrites = j.claimedRewrites) ∨
    (j.bgrewriteaofInProgress = false ∧ i.bgrewriteaofInProgress = true ∧
      i.claimedRewrites = j.claimedRewrites + 1) ∨
    (i.bgrewriteaofInProgress = false ∧ i.claimedRewrites + 1 = j.claimedRewrites) ∨
    (a = .check ∧ j.bgsaveInProgress = true ∧
      i.bgrewriteaofInProgress = j.bgrewriteaofInProgress ∧ i.claimedRewrites + 1 = j.claimedRewrites) := by
  unfold claimedRewrites Stage.owesRewrite
  cases a <;> simp only [step, Option.ite_none_right_eq_some, Option.some.injEq] at h <;>
    obtain ⟨hstage, rfl⟩ := h
  case bgrewriteaof =>
    cases hflag : j.bgrewriteaofInProgress with
    | false => exact .inr (.inl (by simp [hstage]))
    | true => exact .inl (by simp [returns, hflag, hstage])
  -- the check returns without giving the flag back
  case check =>
    cases hsave : j.bgsaveInProgress with
    | false => exact .inl (by simp [hstage])
    | true => exact .inr (.inr (.inr (by simp [returns, hstage])))
  case endSave => exact .inl ⟨rfl, rfl⟩
  case endRewrite => exact .inr (.inr (.inl ⟨rfl, by dsimp only; omega⟩))
  case save | bgsave => left; split <;> simp [returns, hstage]
  case saved | startSave | startRewrite => exact .inl (by simp [returns, hstage])

/-- The flag of a save counts its claims. -/
def SaveCounted (j : Jobs) : Prop := j.claimedSaves = j.bgsaveInProgress.toNat

@[inherit_doc SaveCounted]
def RewriteCounted (j : Jobs) : Prop := j.claimedRewrites = j.bgrewriteaofInProgress.toNat

/-- The flag of a rewrite is set, and no thread is there or about to be there to clear it. -/
def Stuck (j : Jobs) : Prop := j.bgrewriteaofInProgress = true ∧ j.claimedRewrites = 0

theorem SaveCounted.step (hj : j.SaveCounted) (h : j.step a = some i) : i.SaveCounted := by
  unfold SaveCounted at hj ⊢
  rcases step_saves h with ⟨hflag, hclaims⟩ | ⟨hoff, hon, hclaims⟩ | ⟨hoff, hclaims⟩
  · rw [hflag, hclaims, hj]
  · rw [hon, hclaims, hj, hoff]
    rfl
  · have hone : j.bgsaveInProgress.toNat ≤ 1 := Bool.toNat_le _
    rw [hoff, Bool.toNat_false]
    omega

/-- The count of rewrites is kept, or nothing is left to clear the flag. -/
theorem RewriteCounted.step (hj : j.RewriteCounted) (h : j.step a = some i) :
    i.RewriteCounted ∨ a = .check ∧ j.bgsaveInProgress = true ∧ i.Stuck := by
  unfold RewriteCounted Stuck at *
  have hone : j.bgrewriteaofInProgress.toNat ≤ 1 := Bool.toNat_le _
  rcases step_rewrites h with ⟨hflag, hclaims⟩ | ⟨hoff, hon, hclaims⟩ | ⟨hoff, hclaims⟩ |
    ⟨hcheck, hsave, hflag, hclaims⟩
  · exact .inl (by rw [hflag, hclaims, hj])
  · exact .inl (by rw [hon, hclaims, hj, hoff]; rfl)
  · exact .inl (by rw [hoff, Bool.toNat_false]; omega)
  · -- The request had the only claim, so the flag was set by it.
    have hset : j.bgrewriteaofInProgress.toNat = 1 := by omega
    exact .inr ⟨hcheck, hsave, hflag.trans (Bool.toNat_eq_one.mp hset), by omega⟩

/-- Nothing unsets a flag that no thread is there to clear. -/
theorem Stuck.step (hj : j.Stuck) (h : j.step a = some i) : i.Stuck := by
  obtain ⟨hset, hnone⟩ := hj
  rcases step_rewrites h with ⟨hflag, hclaims⟩ | ⟨hoff, -, -⟩ | ⟨-, hclaims⟩ | ⟨-, -, -, hclaims⟩
  · exact ⟨hflag.trans hset, hclaims.trans hnone⟩
  · exact absurd (hset.symm.trans hoff) nofun
  · omega
  · omega

/-- A check that sees a background save leaves the flag to nobody. -/
theorem stuck_of_check (hj : j.RewriteCounted ∨ j.Stuck) (hsave : j.bgsaveInProgress = true)
    (h : j.step .check = some i) : i.stage = .idle ∧ i.Stuck := by
  obtain ⟨hstage, rfl⟩ : j.stage = .claimedRewrite ∧ j.returns false = i := by
    simpa only [Jobs.step, hsave, Option.ite_none_right_eq_some, if_true, Option.some.injEq] using h
  have hclaims : j.claimedRewrites = j.rewrites + 1 := by
    simp [claimedRewrites, Stage.owesRewrite, hstage]
  rcases hj with hj | ⟨-, hnone⟩
  · rw [RewriteCounted, hclaims] at hj
    have hone : j.bgrewriteaofInProgress.toNat ≤ 1 := Bool.toNat_le _
    have hset : j.bgrewriteaofInProgress = true := Bool.toNat_eq_one.mp (by omega)
    have hnone : j.rewrites = 0 := by omega
    exact ⟨rfl, hset, hnone⟩
  · omega

/-! ### Runs -/

theorem run_concat (j : Jobs) (acts : List Act) (a : Act) :
    j.run (acts ++ [a]) = (j.run acts).bind fun i => i.step a := by
  rw [run, List.foldlM_append, ← run]
  rcases j.run acts with _ | i
  · rfl
  · exact bind_pure (i.step a)

/-- What the first state satisfies and every step keeps, every state of a run satisfies. By induction
on the steps. -/
theorem run_induction {I : Jobs → Prop} (hstart : I {})
    (hstep : ∀ j a i, I j → j.step a = some i → I i) :
    ∀ {acts : List Act} {j : Jobs}, ({} : Jobs).run acts = some j → I j := by
  intro acts
  induction acts using List.reverseRecOn with
  | nil => exact fun h => Option.some.inj h ▸ hstart
  | append_singleton acts a ih =>
    intro j h
    rw [run_concat] at h
    obtain ⟨i, hi, hj⟩ := Option.bind_eq_some_iff.mp h
    exact hstep i a j (ih hi) hj

theorem saveCounted_of_run {acts : List Act} : ({} : Jobs).run acts = some j → j.SaveCounted :=
  run_induction (I := SaveCounted) rfl fun _ _ _ hj h => hj.step h

theorem counted_or_stuck {acts : List Act} :
    ({} : Jobs).run acts = some j → j.RewriteCounted ∨ j.Stuck := by
  refine run_induction (I := fun j => j.RewriteCounted ∨ j.Stuck) (.inl rfl) fun j a i hj h => ?_
  rcases hj with hj | hj
  · exact (hj.step h).imp_right fun hstuck => hstuck.2.2
  · exact .inr (hj.step h)

theorem Stuck.run (acts : List Act) : ∀ {i j : Jobs}, i.Stuck → i.run acts = some j → j.Stuck := by
  induction acts with
  | nil => exact fun hi h => Option.some.inj h ▸ hi
  | cons a acts ih =>
    intro i j hi h
    obtain ⟨k, hk, hj⟩ := Option.bind_eq_some_iff.mp h
    exact ih (hi.step hk) hj

/-- By induction on the steps. -/
theorem counted_of_noSaveAtCheck {acts : List Act} (hacts : NoSaveAtCheck acts) :
    ∀ {before : List Act} {j : Jobs}, before <+: acts → ({} : Jobs).run before = some j →
      j.RewriteCounted := by
  intro before
  induction before using List.reverseRecOn with
  | nil => exact fun _ h => Option.some.inj h ▸ rfl
  | append_singleton before a ih =>
    intro j hbefore h
    rw [run_concat] at h
    obtain ⟨i, hi, hj⟩ := Option.bind_eq_some_iff.mp h
    have hcounted := ih ((List.prefix_append before [a]).trans hbefore) hi
    refine (hcounted.step hj).resolve_right ?_
    rintro ⟨rfl, hsave, -⟩
    exact absurd (hacts before i hbefore hi) (by simp [hsave])

/-- Between requests every claim is a thread. -/
theorem exact_of_counted (hstage : j.stage = .idle) (hsave : j.SaveCounted)
    (hrewrite : j.RewriteCounted) : j.Exact := by
  unfold SaveCounted claimedSaves Stage.owesSave at hsave
  unfold RewriteCounted claimedRewrites Stage.owesRewrite at hrewrite
  simp only [hstage, reduceCtorEq, or_self, if_false, add_zero] at hsave hrewrite
  exact ⟨by rw [hsave]; cases j.bgsaveInProgress <;> simp, by
    rw [hrewrite]; cases j.bgrewriteaofInProgress <;> simp⟩

theorem Exact.serving (hj : j.Exact) (hstage : j.stage = .idle) : j.Serving := by
  have hsave (hnone : j.saves = 0) : j.bgsaveInProgress = false :=
    Bool.eq_false_iff.mpr fun hset => (hj.save.mp hset).ne' hnone
  have hrewrite (hnone : j.rewrites = 0) : j.bgrewriteaofInProgress = false :=
    Bool.eq_false_iff.mpr fun hset => (hj.rewrite.mp hset).ne' hnone
  constructor
  · intro success hnone
    simp [run, step, returns, hstage, hsave hnone]
  · intro hnone
    simp [run, step, returns, hstage, hsave hnone]
  · intro hnone hnone'
    simp [run, step, returns, hstage, hsave hnone, hrewrite hnone']

end Jobs

open Jobs

/-- **The flags of the background jobs are exact** between the requests of a run, and no request is refused where no
thread is outstanding, exactly if no `BGREWRITEAOF` that has claimed its flag sees a background save. After one that
does, the flag stays set for good with no thread to clear it. While no check sees a save, the flags count the threads
and the request at hand (`SaveCounted`, `RewriteCounted`), by induction on the run; behind one that does, the flag is
stuck, and every further step leaves it so. -/
theorem flags_exact_iff {acts : List Act} {j : Jobs} (h : ({} : Jobs).run acts = some j) :
    (FlagsExact acts ↔ NoSaveAtCheck acts) ∧
    (¬ NoSaveAtCheck acts → j.bgrewriteaofInProgress = true ∧ j.rewrites = 0) := by
  -- What a check that sees a save leads to, at the check and at the end of the run.
  have hrefused {before : List Act} {i : Jobs} (hbefore : before ++ [.check] <+: acts)
      (hi : ({} : Jobs).run before = some i) (hsave : i.bgsaveInProgress = true) :
      ∃ k, ({} : Jobs).run (before ++ [.check]) = some k ∧ k.stage = .idle ∧ k.Stuck ∧ j.Stuck := by
    obtain ⟨after, rfl⟩ := hbefore
    rw [run, List.foldlM_append] at h
    obtain ⟨k, hk, hj⟩ := Option.bind_eq_some_iff.mp h
    have hcheck : i.step .check = some k := by
      have hstep := run_concat {} before .check
      rw [hi] at hstep
      exact hstep.symm.trans hk
    obtain ⟨hidle, hstuck⟩ := stuck_of_check (counted_or_stuck hi) hsave hcheck
    exact ⟨k, hk, hidle, hstuck, hstuck.run after hj⟩
  refine ⟨⟨fun hexact before i hbefore hi => ?_, fun hacts before i hbefore hi hidle => ?_⟩, ?_⟩
  · -- the refused rewrite leaves its flag set at the next idle place, where no thread stands behind it
    by_contra hsave
    obtain ⟨k, hk, hidle, ⟨hset, hnone⟩, -⟩ :=
      hrefused hbefore hi (Bool.eq_true_of_not_eq_false hsave)
    have hthread := (hexact _ k hbefore hk hidle).1.rewrite.mp hset
    unfold claimedRewrites at hnone
    omega
  · -- while no check sees a save, both flags are counted by the threads that own them
    have hi' : i.Exact := exact_of_counted hidle (saveCounted_of_run hi)
      (counted_of_noSaveAtCheck hacts hbefore hi)
    exact ⟨hi', hi'.serving hidle⟩
  · -- otherwise some check sees a save, and the flag is stuck from there to the end
    intro hsave
    unfold NoSaveAtCheck at hsave
    push Not at hsave
    obtain ⟨before, i, hbefore, hi, hset⟩ := hsave
    obtain ⟨-, -, -, -, hset, hnone⟩ := hrefused hbefore hi (Bool.eq_true_of_not_eq_false hset)
    exact ⟨hset, by unfold claimedRewrites at hnone; omega⟩

namespace Sample

/-- A rewrite after a background save. -/
def saveThenRewrite : List Act :=
  [.bgsave, .startSave, .endSave, .bgrewriteaof, .check, .startRewrite, .endRewrite]

/-- A rewrite during a background save. -/
def rewriteDuringSave : List Act :=
  [.bgsave, .startSave, .bgrewriteaof, .check, .endSave]

end Sample

theorem flags_exact_sample : FlagsExact Sample.saveThenRewrite := by
  refine (flags_exact_iff (j := { answer := some true }) (by decide)).1.mpr ?_
  rintro before i ⟨after, hbefore⟩ hi
  have hcheck : Sample.saveThenRewrite[before.length]? = some .check := by simp [← hbefore]
  have hlength : before.length = 4 := by
    have hlt : before.length < 7 := (List.getElem?_eq_some_iff.mp hcheck).1
    revert hcheck
    generalize before.length = n at hlt
    revert n
    decide
  have hfour : before = Sample.saveThenRewrite.take 4 := by simp [← hbefore, ← hlength]
  subst hfour
  exact Option.some.inj hi ▸ rfl

theorem rewrite_blocked : ¬ ∀ acts, FlagsExact acts := by
  intro h
  have hrun : ({} : Jobs).run Sample.rewriteDuringSave
      = some { bgrewriteaofInProgress := true, answer := some false } := by decide
  have hexact := (h _ _ _ List.prefix_rfl hrun rfl).1
  exact absurd (hexact.rewrite.mp rfl) (by decide)

/-! ### The programs of the server -/

variable {S : Type} [Platform] [Double S] [Inhabited S] {c : ClientId}

/-- The flags of a server between requests, and its threads. -/
def Server.jobs (answer : Option Bool) (s : Server S) : Jobs where
  bgsaveInProgress := s.bgsave.isSome
  bgrewriteaofInProgress := s.bgrewriteaofInProgress
  saves := s.bgsave.isSome.toNat
  rewrites := s.rewrite.isSome.toNat
  answer := answer

omit [Double S] [Inhabited S] in
/-- Operations on all databases start no thread and end none. -/
theorem keeps_onDatabases_jobs {α ε : Type} {k : Option RespValue} {c : Option ClientId} (j : Jobs)
    {f : List (Database S) → Env → Server S → Option (α × List (Database S) × Env)}
    {h : ∀ s : Server S, ∀ a databases env, f s.databases { s.env with flagged := [] } s
      = some (a, databases, env) →
      databases.map Database.watchedKeys = s.databases.map Database.watchedKeys ∧
        (Accounted s.databases s.env → Accounted databases env)} :
    (EffectM.onDatabases f h : EffectM S k c ε α).Keeps fun s => s.jobs none = j := by
  refine .step fun s a t hstep hs => ?_
  obtain ⟨⟨a', databases, env⟩, -, hput⟩ := Option.bind_eq_some_iff.mp hstep
  obtain ⟨t', ht, heq⟩ := Option.map_eq_some_iff.mp hput
  obtain ⟨-, rfl⟩ := Prod.mk.inj heq
  obtain ⟨clients, rfl, -⟩ := Server.flagDirty_kept _ ht
  exact hs

theorem keeps_save_jobs (j : Jobs) :
    (save : ServerM S c Bool).Keeps fun s => s.jobs none = j := by
  refine .bind (.read _) fun _ => .ite (.pure _) (.bind (.step fun s a t hstep hs => ?_) fun _ =>
    .bind (keeps_onDatabases_jobs j) fun x => ?_)
  · obtain ⟨-, rfl⟩ := Prod.mk.inj (Option.some.inj hstep)
    exact hs
  · obtain ⟨success, out⟩ := x
    refine .ite (.bind (keeps_onDatabases_jobs j) fun _ => .bind (fun s hs => ?_) fun _ => .pure _) (.pure _)
    refine (EffectM.post_call s _).mpr fun t ht => ?_
    obtain rfl := Option.some.inj ht
    exact hs

theorem run_save (answer : Option Bool) (s : Server S) :
    (save : ServerM S c Bool).Post s fun r t => ∀ b, r = .ok b →
      ∃ acts, (s.jobs answer).run acts = some (t.jobs (some b)) := by
  intro r t hrun b hr
  have hkept : t.jobs none = s.jobs none := keeps_save_jobs (s.jobs none) s rfl r t hrun
  have hjobs : t.jobs (some b) = { s.jobs none with answer := some b } := by rw [← hkept]; rfl
  rw [hjobs]
  by_cases hflag : s.bgsave.isSome = true
  · refine ⟨[.save], ?_⟩
    have hfalse : b = false := by
      rw [save, Program.run_bind_ok rfl, if_pos hflag, hr] at hrun
      exact (Except.ok.inj (congrArg Prod.fst (Option.some.inj hrun))).symm
    simp [Jobs.run, Jobs.step, Server.jobs, Jobs.returns, hflag, hfalse]
  · refine ⟨[.save, .saved b], ?_⟩
    simp [Jobs.run, Jobs.step, Server.jobs, Jobs.returns, hflag]

variable [LT S] [DecidableLT S] [BEq S]

omit [Double S] in
theorem run_bgsave (answer : Option Bool) (s : Server S) :
    (bgsave : ServerM S c Bool).Post s fun r t => ∀ b, r = .ok b →
      ∃ acts, (s.jobs answer).run acts = some (t.jobs (some b)) := by
  unfold bgsave
  simp only [Program.post_bind, Program.post_read]
  split
  · next hflag =>
    refine (Program.post_pure _ _ _).mpr ?_
    rintro b ⟨⟩
    -- a save is running already
    refine ⟨[.bgsave], ?_⟩
    simp [Jobs.run, Jobs.step, Server.jobs, Jobs.returns, hflag]
  · next hflag =>
    refine (Program.post_bind _ _ _ _).mpr ((Program.post_step s _).mpr fun copies u hu => ?_)
    obtain ⟨-, rfl⟩ := Prod.mk.inj (Option.some.inj hu)
    refine (Program.post_bind _ _ _ _).mpr ((EffectM.post_call _ _).mpr fun t ht => ?_)
    obtain rfl := Option.some.inj ht
    refine (Program.post_pure _ _ _).mpr ?_
    rintro b ⟨⟩
    -- the thread is started in the same request
    refine ⟨[.bgsave, .startSave], ?_⟩
    simp [Jobs.run, Jobs.step, Server.jobs, Jobs.returns, hflag]

omit [Double S] in
/-- A server that rewrites has the flag set, so that the thread it starts is the only one. -/
theorem run_bgrewriteaof (answer : Option Bool) {s : Server S}
    (hs : s.rewrite.isSome → s.bgrewriteaofInProgress = true) :
    (bgrewriteaof : ServerM S c Bool).Post s fun r t => ∀ b, r = .ok b →
      ∃ acts, (s.jobs answer).run acts = some (t.jobs (some b)) := by
  unfold bgrewriteaof
  simp only [Program.post_bind, Program.post_read]
  split
  · next hflag =>
    -- a rewrite is running: the command is refused, and no flag is touched
    refine (Program.post_pure _ _ _).mpr ?_
    rintro b ⟨⟩
    refine ⟨[.bgrewriteaof], ?_⟩
    simp [Jobs.run, Jobs.step, Server.jobs, Jobs.returns, hflag]
  · next hflag =>
    -- the flag was free, so no thread is at work, and the exchange claims it
    have hnone : s.rewrite = none :=
      Option.not_isSome_iff_eq_none.mp fun hsome => hflag (hs hsome)
    refine (Program.post_bind _ _ _ _).mpr ((EffectM.post_call _ _).mpr fun u hu => ?_)
    obtain rfl := Option.some.inj hu
    simp only [Program.post_bind, Program.post_read]
    split
    · next hsave =>
      -- a save is running: the command returns with the flag set
      refine (Program.post_pure _ _ _).mpr ?_
      rintro b ⟨⟩
      refine ⟨[.bgrewriteaof, .check], ?_⟩
      simp [Jobs.run, Jobs.step, Server.jobs, Jobs.returns, hflag, hsave]
    · next hsave =>
      -- the copies are taken and the thread is started
      refine (Program.post_bind _ _ _ _).mpr ((Program.post_step _ _).mpr fun copies v hv => ?_)
      obtain ⟨-, rfl⟩ := Prod.mk.inj (Option.some.inj hv)
      refine (Program.post_bind _ _ _ _).mpr ((EffectM.post_call _ _).mpr fun t ht => ?_)
      obtain rfl := Option.some.inj ht
      refine (Program.post_pure _ _ _).mpr ?_
      rintro b ⟨⟩
      refine ⟨[.bgrewriteaof, .check, .startRewrite], ?_⟩
      simp [Jobs.run, Jobs.step, Server.jobs, Jobs.returns, hflag, hsave, hnone]

/-- What the server does in one step here: a request as a whole, or what a thread does at its end. -/
inductive Serves (c : ClientId) : Server S → Server S → Prop
  | save {s t : Server S} {b : Bool} : (save : ServerM S c Bool).run s = some (.ok b, t) → Serves c s t
  | bgsave {s t : Server S} {b : Bool} : (bgsave : ServerM S c Bool).run s = some (.ok b, t) →
      Serves c s t
  | bgrewriteaof {s t : Server S} {b : Bool} :
      (bgrewriteaof : ServerM S c Bool).run s = some (.ok b, t) → Serves c s t
  | endSave {s : Server S} (time : ℤ) : s.bgsave.isSome →
      Serves c s { s with bgsave := none, lastSaveTime := time }
  | endRewrite {s : Server S} : s.rewrite.isSome →
      Serves c s { s with rewrite := none, bgrewriteaofInProgress := false }

theorem run_of_serves {s t : Server S} (answer : Option Bool) (h : Serves c s t)
    (hs : s.rewrite.isSome → s.bgrewriteaofInProgress = true) :
    ∃ acts answer', (s.jobs answer).run acts = some (t.jobs answer') := by
  cases h with
  | save hrun =>
    obtain ⟨acts, hacts⟩ := run_save answer s _ _ hrun _ rfl
    exact ⟨acts, _, hacts⟩
  | bgsave hrun =>
    obtain ⟨acts, hacts⟩ := run_bgsave answer s _ _ hrun _ rfl
    exact ⟨acts, _, hacts⟩
  | bgrewriteaof hrun =>
    obtain ⟨acts, hacts⟩ := run_bgrewriteaof answer hs _ _ hrun _ rfl
    exact ⟨acts, _, hacts⟩
  | endSave time hsave =>
    refine ⟨[.endSave], answer, ?_⟩
    simp [Jobs.run, Jobs.step, Server.jobs, hsave]
  | endRewrite hrewrite =>
    refine ⟨[.endRewrite], answer, ?_⟩
    simp [Jobs.run, Jobs.step, Server.jobs, hrewrite]

/-- **The server is a run of the machine**: whatever requests and threads have made of a server without
background jobs, its flags and threads are those after some run. By induction on the steps. -/
theorem exists_run {s t : Server S} (hs : s.jobs none = {})
    (h : Relation.ReflTransGen (Serves c) s t) :
    ∃ acts answer, ({} : Jobs).run acts = some (t.jobs answer) := by
  induction h with
  | refl => exact ⟨[], none, congrArg some hs.symm⟩
  | @tail t u _ hserves ih =>
    obtain ⟨acts, answer, hacts⟩ := ih
    -- a thread that rewrites holds the flag, since there is one flag and it is counted
    have hflag (hsome : t.rewrite.isSome) : t.bgrewriteaofInProgress = true := by
      rcases counted_or_stuck hacts with hcounted | hstuck
      · have hone : t.bgrewriteaofInProgress.toNat ≤ 1 := Bool.toNat_le _
        refine Bool.toNat_eq_one.mp (le_antisymm hone ?_)
        calc 1 = t.rewrite.isSome.toNat := by rw [hsome, Bool.toNat_true]
          _ ≤ (t.jobs answer).claimedRewrites := Nat.le_add_right _ _
          _ = t.bgrewriteaofInProgress.toNat := hcounted
      · exact hstuck.1
    obtain ⟨more, answer', hmore⟩ := run_of_serves answer hserves hflag
    refine ⟨acts ++ more, answer', ?_⟩
    rw [Jobs.run, List.foldlM_append, ← Jobs.run, hacts]
    exact hmore

end RedisDb
