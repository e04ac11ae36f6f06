import RedisDb.Server.Subscriptions

/-!
# Publish and subscribe

The four commands that change subscriptions, `SUBSCRIBE`, `PSUBSCRIBE` and their opposites, keep a flag on the client,
`CLIENT_PUBSUB`, which is to be set exactly on a client that is subscribed to something (`Client.FlagAgrees`).

The flag and the subscriptions are changed at different places. `SUBSCRIBE` sets the flag first and then subscribes,
one channel after another; `UNSUBSCRIBE` unsubscribes first, and looks at its end whether anything is left. In between
the flag of this client may disagree, and `FlagsBut c P` is what holds there: of the other clients the flags agree,
and of this one it is known what `P` says. An exception between the two places would leave it at that, and there is
none where the arguments are strings (`returns_subscriptionCommand`).
-/

namespace RedisDb

open RespSerializer EffectM

variable {S : Type}

/-! ### The flag of a subscriber -/

/-- A client is subscribed to a channel or to a pattern. -/
def Client.Subscribed (cl : Client) : Prop :=
  cl.pubsubChannels.keys ≠ [] ∨ cl.pubsubPatterns.keys ≠ []

/-- `CLIENT_PUBSUB` is set exactly on a client that is subscribed. -/
def Client.FlagAgrees (cl : Client) : Prop := cl.hasFlag .pubsub = true ↔ cl.Subscribed

/-- The commands that change subscriptions. -/
def Command.IsSubscription (cmd : Command) : Prop :=
  cmd = .subscribe ∨ cmd = .unsubscribe ∨ cmd = .psubscribe ∨ cmd = .punsubscribe

namespace Server

/-- The flags of all clients agree with their subscriptions, but that of client `c`, of which `P`
holds. -/
def FlagsBut (c : ClientId) (P : Client → Prop) (s : Server S) : Prop :=
  ∀ id cl, s.clients.lookup id = some cl → if id = c then P cl else cl.FlagAgrees

/-- The flags of all clients agree with their subscriptions. -/
def FlagsAgree (s : Server S) : Prop := ∀ id cl, s.clients.lookup id = some cl → cl.FlagAgrees

/-- The exception is none. -/
theorem flagsBut_flagAgrees {c : ClientId} {s : Server S} :
    s.FlagsBut c Client.FlagAgrees ↔ s.FlagsAgree := by
  simp only [FlagsBut, FlagsAgree, ite_self]

variable {c : ClientId} {P Q : Client → Prop} {s t : Server S}

/-- Less is known of the client. -/
theorem FlagsBut.mono (hs : s.FlagsBut c P) (h : ∀ cl, P cl → Q cl) : s.FlagsBut c Q := by
  intro i cl hcl
  have hold := hs i cl hcl
  by_cases hi : i = c
  · rw [if_pos hi] at hold ⊢
    exact h cl hold
  · rwa [if_neg hi] at hold ⊢

/-- A step changes a client as `f` does, and no other. -/
theorem FlagsBut.updateClient {f : Client → Client} (hs : s.FlagsBut c P)
    (hf : ∀ cl, P cl → Q (f cl)) (h : s.updateClient c f = some t) : t.FlagsBut c Q := by
  obtain ⟨cl, hcl, rfl⟩ := Option.map_eq_some_iff.mp h
  intro i cl₁ hcl₁
  rw [UnorderedMap.lookup_insert_eq_ite] at hcl₁
  split at hcl₁
  · next heq =>
    obtain rfl := Option.some.inj hcl₁
    rw [if_pos heq]
    have hP := hs c cl hcl
    rw [if_pos rfl] at hP
    exact hf cl hP
  · next hne =>
    have hold := hs i cl₁ hcl₁
    rw [if_neg hne] at hold ⊢
    exact hold

/-- A reply is no flag. -/
theorem FlagsBut.addReply {data : Bytes} (hs : s.FlagsBut c P)
    (hP : ∀ cl : Client, P cl → P (cl.addReply data)) (h : s.addReply c data = some t) :
    t.FlagsBut c P := by
  obtain ⟨u, hu, rfl⟩ := Option.map_eq_some_iff.mp h
  have hu := hs.updateClient hP hu
  exact hu

/-- A change of a client's subscriptions, as one of the four methods makes it. -/
structure ChangesAs (R : Client → Client → Prop) (c : ClientId) (s t : Server S) : Prop where
  client : ∃ cl cl', s.clients.lookup c = some cl ∧ R cl cl' ∧ cl'.flags = cl.flags ∧
    ∀ i, t.clients.lookup i = if i = c then some cl' else s.clients.lookup i

/-- A change of the subscriptions of the client. -/
theorem FlagsBut.changesAs {R : Client → Client → Prop} (hs : s.FlagsBut c P)
    (h : s.ChangesAs R c t) (hQ : ∀ cl cl' : Client, P cl → R cl cl' → cl'.flags = cl.flags → Q cl') :
    t.FlagsBut c Q := by
  obtain ⟨cl, cl', hcl, hR, hflags, hlookup⟩ := h.client
  intro i cl₁ hcl₁
  rw [hlookup] at hcl₁
  split at hcl₁
  · next heq =>
    obtain rfl := Option.some.inj hcl₁
    rw [if_pos heq]
    have hP := hs c cl hcl
    rw [if_pos rfl] at hP
    exact hQ cl cl' hP hR hflags
  · next hne =>
    have hold := hs i cl₁ hcl₁
    rw [if_neg hne] at hold ⊢
    exact hold

/-- The client is put back with other subscriptions. -/
theorem changesAs_insert {R : Client → Client → Prop} {cl cl' : Client}
    (hcl : s.clients.lookup c = some cl) (hclients : t.clients = s.clients.insert c cl')
    (hR : R cl cl') (hflags : cl'.flags = cl.flags) : s.ChangesAs R c t :=
  ⟨cl, cl', hcl, hR, hflags, fun i => by rw [hclients, UnorderedMap.lookup_insert_eq_ite]⟩

/-- The client is left alone, where there is nothing to change. -/
theorem changesAs_refl {R : Client → Client → Prop} {cl : Client}
    (hcl : s.clients.lookup c = some cl) (hR : R cl cl) : s.ChangesAs R c s := by
  refine ⟨cl, cl, hcl, hR, rfl, fun i => ?_⟩
  split
  · next heq => rw [heq, hcl]
  · rfl

/-- One channel is enough to be subscribed. -/
theorem subscribed_of_channel {cl : Client} {channel : Bytes} (h : channel ∈ cl.pubsubChannels) :
    cl.Subscribed := .inl (List.ne_nil_of_mem (AList.mem_keys.mp h))

/-- So is one pattern. -/
theorem subscribed_of_pattern {cl : Client} {pattern : Bytes} (h : pattern ∈ cl.pubsubPatterns) :
    cl.Subscribed := .inr (List.ne_nil_of_mem (AList.mem_keys.mp h))

/-- After a channel is subscribed to, the client is subscribed. -/
theorem changesAs_subscribeChannel {channel : Bytes} (h : s.subscribeChannel c channel = some t) :
    s.ChangesAs (fun _ cl' => cl'.Subscribed) c t := by
  obtain ⟨cl, hcl, rfl⟩ := Option.map_eq_some_iff.mp h
  split
  · next hmem => exact changesAs_refl hcl (subscribed_of_channel hmem)
  · exact changesAs_insert hcl rfl (subscribed_of_channel ((AList.mem_insert _).mpr (.inl rfl))) rfl

/-- So it is with a pattern. -/
theorem changesAs_psubscribePattern {pattern : Bytes} (h : s.psubscribePattern c pattern = some t) :
    s.ChangesAs (fun _ cl' => cl'.Subscribed) c t := by
  obtain ⟨cl, hcl, rfl⟩ := Option.map_eq_some_iff.mp h
  split
  · next hmem => exact changesAs_refl hcl (subscribed_of_pattern hmem)
  · exact changesAs_insert hcl rfl (subscribed_of_pattern ((AList.mem_insert _).mpr (.inl rfl))) rfl

/-- What has something left had something. -/
theorem keys_ne_nil_of_erase {m : UnorderedSet Bytes} {k : Bytes} (h : (m.erase k).keys ≠ []) :
    m.keys ≠ [] := by
  obtain ⟨j, hj⟩ := List.exists_mem_of_ne_nil _ h
  exact List.ne_nil_of_mem (AList.mem_keys.mp (AList.mem_erase.mp (AList.mem_keys.mpr hj)).2)

/-- A client that is subscribed after a channel goes was so before. -/
theorem changesAs_unsubscribeChannel {channel : Bytes}
    (h : s.unsubscribeChannel c channel = some t) :
    s.ChangesAs (fun cl cl' => cl'.Subscribed → cl.Subscribed) c t := by
  obtain ⟨cl, hcl, rfl⟩ := Option.map_eq_some_iff.mp h
  split
  · exact changesAs_insert hcl rfl (Or.imp_left keys_ne_nil_of_erase) rfl
  · exact changesAs_refl hcl fun hsub => hsub

/-- So it is with a pattern. -/
theorem changesAs_punsubscribePattern {pattern : Bytes}
    (h : s.punsubscribePattern c pattern = some t) :
    s.ChangesAs (fun cl cl' => cl'.Subscribed → cl.Subscribed) c t := by
  obtain ⟨cl, hcl, rfl⟩ := Option.map_eq_some_iff.mp h
  split
  · exact changesAs_insert hcl rfl (Or.imp_right keys_ne_nil_of_erase) rfl
  · exact changesAs_refl hcl fun hsub => hsub

/-! ### The handlers -/

section Handlers

variable [Platform] {word : Bytes} {R : Client → Client → Prop}
  {f : Bytes → Server S → Option (Server S)}
  {hf : ∀ channel (s t : Server S), f channel s = some t → Does none (some c) s t}

/-- A change of one subscription, with its reply. -/
theorem returns_changeSubscription (hR : ∀ channel s t, f channel s = some t → s.ChangesAs R c t)
    (hQ : ∀ cl cl' : Client, P cl → R cl cl' → cl'.flags = cl.flags → Q cl')
    (hreply : ∀ (cl : Client) data, Q cl → Q (cl.addReply data)) (channel : Bytes)
    (hs : s.FlagsBut c P) :
    (changeSubscription word (fun channel => call (f channel) (hf channel)) channel).Returns s
      fun _ t => t.FlagsBut c Q := by
  simp only [changeSubscription, Program.returns_bind, returns_call, returns_client,
    EffectM.addReply]
  intro t ht cl _ u hu
  exact (hs.changesAs (hR channel s t ht) hQ).addReply (fun cl => hreply cl _) hu

/-- The same, for an argument that is a string. -/
theorem returns_changeArgument (hR : ∀ channel s t, f channel s = some t → s.ChangesAs R c t)
    (hQ : ∀ cl cl' : Client, P cl → R cl cl' → cl'.flags = cl.flags → Q cl')
    (hreply : ∀ (cl : Client) data, Q cl → Q (cl.addReply data)) {arg : RespValue}
    (harg : arg.IsString) (hs : s.FlagsBut c P) :
    (do changeSubscription word (fun channel => call (f channel) (hf channel))
          (← .ofExcept arg.asString) : ServerM S c Unit).Returns s fun _ t => t.FlagsBut c Q := by
  obtain ⟨channel, hchannel⟩ := harg
  rw [Program.returns_bind, Program.returns_ofExcept]
  exact ⟨channel, hchannel, returns_changeSubscription hR hQ hreply channel hs⟩

/-- `SUBSCRIBE` and `PSUBSCRIBE`, of strings. -/
theorem returns_subscribeWith (hR : ∀ channel s t, f channel s = some t →
      s.ChangesAs (fun _ cl' => cl'.Subscribed) c t)
    {args : List RespValue} (hstrings : ∀ a ∈ args.drop 1, a.IsString) (hne : args.drop 1 ≠ [])
    (hs : s.FlagsAgree) :
    (subscribeWith word (fun channel => call (f channel) (hf channel)) args).Returns s
      fun _ t => t.FlagsAgree := by
  simp only [subscribeWith, Program.returns_bind, modifyClient, returns_call]
  intro t ht
  have hflag : t.FlagsBut c fun cl => cl.hasFlag .pubsub = true :=
    (flagsBut_flagAgrees.mpr hs).updateClient (fun cl _ => by
      rw [Client.hasFlag_setFlag, if_pos rfl]) ht
  -- every turn leaves the client subscribed, and there is a turn
  refine (Program.returns_forM_of_ne_nil (I := fun s => s.FlagsBut c fun cl => cl.hasFlag .pubsub = true)
    (J := fun s => s.FlagsBut c fun cl => cl.hasFlag .pubsub = true ∧ cl.Subscribed) hne
    (fun u hu => hu.mono fun _ h => h.1) (fun arg harg u hu => ?_) hflag).mono fun _ u hu => ?_
  · exact returns_changeArgument hR
      (fun cl cl' hflag hsub hsame => ⟨by rwa [Client.hasFlag, hsame], hsub⟩) (fun _ _ h => h)
      (hstrings arg harg) hu
  · exact flagsBut_flagAgrees.mp (hu.mono fun _ h => iff_of_true h.1 h.2)

/-- The end of `UNSUBSCRIBE` and `PUNSUBSCRIBE`: the flag of a client that is left without
subscriptions is cleared. -/
theorem returns_clearUnsubscribed
    (hs : s.FlagsBut c fun cl => cl.Subscribed → cl.hasFlag .pubsub = true) :
    (do
      let cl ← client c
      if cl.pubsubChannels.keys = [] ∧ cl.pubsubPatterns.keys = [] then
        modifyClient c (·.clearFlag .pubsub) fun cl =>
          cl.sameTables_clearFlag (by decide) (by decide) (by decide) : ServerM S c Unit).Returns s
      fun _ t => t.FlagsAgree := by
  simp only [Program.returns_bind, returns_client]
  intro cl hcl
  have hown := hs c cl hcl
  rw [if_pos rfl] at hown
  split
  · next hnone =>
    -- no subscription is left, so the flag is cleared
    simp only [modifyClient, returns_call]
    intro t ht
    obtain ⟨cl₁, hcl₁, rfl⟩ := Option.map_eq_some_iff.mp ht
    obtain rfl := Option.some.inj (hcl.symm.trans hcl₁)
    intro i cl₂ hcl₂
    rw [UnorderedMap.lookup_insert_eq_ite] at hcl₂
    split at hcl₂
    · obtain rfl := Option.some.inj hcl₂
      refine iff_of_false ?_ fun hsub => ?_
      · simp
      · exact hsub.elim (fun h => h hnone.1) fun h => h hnone.2
    · next hne =>
      have hold := hs i cl₂ hcl₂
      rwa [if_neg hne] at hold
  · next hsome =>
    -- one is left, and the flag is set already
    rw [Program.returns_pure]
    have hsub : cl.Subscribed := by
      by_contra hno
      exact hsome ⟨not_not.mp fun h => hno (.inl h), not_not.mp fun h => hno (.inr h)⟩
    intro i cl₂ hcl₂
    by_cases hi : i = c
    · rw [hi, hcl] at hcl₂
      obtain rfl := Option.some.inj hcl₂
      exact iff_of_true (hown hsub) hsub
    · have hold := hs i cl₂ hcl₂
      rwa [if_neg hi] at hold

/-- `UNSUBSCRIBE` and `PUNSUBSCRIBE`, of strings. -/
theorem returns_unsubscribeWith (hR : ∀ channel s t, f channel s = some t →
      s.ChangesAs (fun cl cl' => cl'.Subscribed → cl.Subscribed) c t)
    {all : Client → UnorderedSet Bytes} {args : List RespValue}
    (hstrings : ∀ a ∈ args.drop 1, a.IsString) (hs : s.FlagsAgree) :
    (unsubscribeWith word (fun channel => call (f channel) (hf channel)) all args).Returns s
      fun _ t => t.FlagsAgree := by
  have hstart : s.FlagsBut c fun cl => cl.Subscribed → cl.hasFlag .pubsub = true :=
    (flagsBut_flagAgrees.mpr hs).mono fun cl h => h.mpr
  -- to be subscribed less keeps the flag right, which is cleared at the end
  have hQ (cl cl' : Client) (h : cl.Subscribed → cl.hasFlag .pubsub = true)
      (hsub : cl'.Subscribed → cl.Subscribed) (hsame : cl'.flags = cl.flags) :
      cl'.Subscribed → cl'.hasFlag .pubsub = true := by
    intro hsub'
    rw [Client.hasFlag, hsame]
    exact h (hsub hsub')
  unfold unsubscribeWith
  split
  · rw [Program.returns_bind, returns_client]
    intro cl _
    rw [Program.returns_bind]
    refine (Program.returns_forM _ (fun channel _ u hu => ?_) hstart).mono fun _ u hu =>
      returns_clearUnsubscribed hu
    exact returns_changeSubscription hR hQ (fun _ _ h => h) channel hu
  · rw [Program.returns_bind]
    refine (Program.returns_forM _ (fun arg harg u hu => ?_) hstart).mono fun _ u hu =>
      returns_clearUnsubscribed hu
    exact returns_changeArgument hR hQ (fun _ _ h => h) (hstrings arg harg) hu

end Handlers

/-! ### Commands -/

/-- A change of a client that keeps its flag in agreement. -/
theorem FlagsAgree.updateClient {f : Client → Client} (hs : s.FlagsAgree)
    (hf : ∀ cl : Client, cl.FlagAgrees → (f cl).FlagAgrees) (h : s.updateClient c f = some t) :
    t.FlagsAgree :=
  flagsBut_flagAgrees.mp ((flagsBut_flagAgrees.mpr hs).updateClient hf h)

/-- A reply. -/
theorem FlagsAgree.addReply {data : Bytes} (hs : s.FlagsAgree) (h : s.addReply c data = some t) :
    t.FlagsAgree :=
  flagsBut_flagAgrees.mp ((flagsBut_flagAgrees.mpr hs).addReply (fun _ h => h) h)

section Commands

variable [Platform] [Double S] [Inhabited S] [LT S] [DecidableLT S] [BEq S]
  {callbacks : Callbacks S} {cmd : Command} {name : RespValue} {args : List RespValue}

/-- The handler of one of the four commands, of strings. -/
theorem returns_subscriptionHandler (hcmd : cmd.IsSubscription) (hstrings : ∀ a ∈ args, a.IsString)
    (haccepts : cmd.accepts (asInt (args.length + 1)) = true) (hs : s.FlagsAgree) :
    (cmd.handler callbacks c (name :: args)).Returns s fun _ t => t.FlagsAgree := by
  rcases hcmd with rfl | rfl | rfl | rfl
  · refine returns_subscribeWith (fun _ _ _ => changesAs_subscribeChannel) hstrings ?_ hs
    rintro rfl
    exact absurd haccepts (by decide)
  · exact returns_unsubscribeWith (fun _ _ _ => changesAs_unsubscribeChannel) hstrings hs
  · refine returns_subscribeWith (fun _ _ _ => changesAs_psubscribePattern) hstrings ?_ hs
    rintro rfl
    exact absurd haccepts (by decide)
  · exact returns_unsubscribeWith (fun _ _ _ => changesAs_punsubscribePattern) hstrings hs

/-- **One of the four commands, of strings, keeps the flags**: no exception comes between the flag and
the subscriptions. -/
theorem returns_subscriptionCommand {cmdName : Bytes} (hname : name.asString = .ok cmdName)
    (hlookup : Command.lookup cmdName = some cmd) (hcmd : cmd.IsSubscription)
    (hstrings : ∀ a ∈ args, a.IsString) (hs : s.FlagsAgree) :
    (executeNamed (c := c) callbacks hname args).Returns s fun _ t => t.FlagsAgree := by
  have hwrite : .write ∉ cmd.flags := by
    rcases hcmd with rfl | rfl | rfl | rfl <;> decide
  simp only [executeNamed, hlookup, outOfMemory, Program.returns_bind, Program.returns_read, hwrite,
    not_false_eq_true, true_or, if_true, Program.returns_pure, Bool.false_eq_true, if_false]
  split
  · -- a wrong number of arguments is refused
    rw [EffectM.addReply, returns_call]
    exact fun t => hs.addReply
  · next haccepts =>
    rw [Program.returns_bind, returns_client]
    intro cl _
    split
    · -- in a transaction the command is queued
      simp only [Program.returns_bind, modifyClient, EffectM.addReply, returns_call]
      intro t ht u hu
      refine (hs.updateClient ?_ ht).addReply hu
      exact fun _ h => h
    · -- the handler runs to its end, or its exception becomes an error reply
      refine Program.Returns.handle ?_ _
      rw [Program.returns_bind, Program.returns_lift]
      refine (returns_subscriptionHandler hcmd hstrings (by simpa using haccepts) hs).mono
        fun _ t ht => ?_
      simp only [incrementCommandsProcessed, EffectM.modify, Program.returns_bind, returns_call,
        Option.some.injEq, hwrite, decide_false]
      rintro u rfl r v hv
      obtain ⟨rfl, rfl⟩ := Prod.mk.inj (Option.some.inj hv)
      exact ⟨(), rfl, ht⟩

end Commands

end Server

end RedisDb
