import ForwardingRelayer.Proofs.Network

/-!
# Where a submission comes from

A forward is built from a request of the live list, the live list from what a tick keeps of the list
it was given, and that list is the backend's table at some time. So the request of every forward
under way was created by a `POST`, and its fields derive to the address the forward is for.
-/

namespace ForwardingRelayer

open RelayerState

/-- Each address has a request of its own, one that satisfies `P`. -/
def LiveSet.Carries (P : ForwardingRequest → Prop) (live : LiveSet) : Prop :=
  ∀ a r, live.lookup a = some r → r.forwardAddr = a ∧ P r

variable {P : ForwardingRequest → Prop}

theorem LiveSet.carries_empty : LiveSet.Carries P ∅ := fun a r h => by
  rw [AList.lookup_empty] at h
  cases h

theorem Decision.carries_keep {toRetire : List (ForwardingRequest × RetireReason)}
    {requests : List ForwardingRequest} (h : ∀ r ∈ requests, P r) :
    LiveSet.Carries P (keep toRetire requests) := by
  intro a r hr
  rcases AList.of_lookup_foldl_insert _ hr with hr | ⟨hr, ha⟩
  · rw [AList.lookup_empty] at hr
    cases hr
  · exact ⟨ha, h r (List.mem_of_mem_filter hr)⟩

/-- The requests a tick has been given, or has decided to keep. -/
def Tick.Carries (P : ForwardingRequest → Prop) : Tick → Prop
  | .fetched requests | .snapshot _ requests => ∀ r ∈ requests, P r
  | t => ∀ d, t.decision = some d → d.kept.Carries P

theorem Tick.carries_step {env : RelayerEnv} {now : ℕ} {s s' : RelayerState} {t t' : Tick}
    {act : Act} (h : Steps env now s t act s' t') (ht : t.Carries P) (hlive : s.live.Carries P)
    (hfetch : ∀ requests, act = .fetch (some requests) → ∀ r ∈ requests, P r) :
    t'.Carries P ∧ s'.live.Carries P := by
  cases h with
  | fetch => exact ⟨hfetch _ rfl, hlive⟩
  | readTime => exact ⟨ht, hlive⟩
  | decide =>
    refine ⟨fun d hd => ?_, hlive⟩
    obtain rfl := Option.some.inj hd
    exact Decision.carries_keep ht
  | clear => exact ⟨ht, by rwa [Relayer.runOp_live]⟩
  | compare | retireNext | delete | deleted | retired | pruneRetry | pruneActivity
    | pruneStore => exact ⟨ht, hlive⟩
  | swap => exact ⟨fun d hd => (by cases hd), ht _ rfl⟩
  | _ => exact ⟨fun d hd => (by cases hd), hlive⟩

/-- The request a call has resolved, and the message it is built into. -/
def Call.Serves (P : ForwardingRequest → Prop) (env : RelayerEnv) (addr : String) : Call → Prop
  | .backoff r | .compare r _ | .query r | .record r _ | .fee r | .quote r =>
    r.forwardAddr = addr ∧ P r
  | .submit r msg => (r.forwardAddr = addr ∧ P r)
    ∧ ∃ quoted, forwardCall env addr r quoted = .submit r msg
  | .resolve | .close _ _ | .done _ => True

theorem Call.serves_step {env : RelayerEnv} {now : ℕ} {addr : String} {s s' : RelayerState}
    {call call' : Call} {input : Input} (h : Steps env now addr s call input s' call')
    (hcall : call.Serves P env addr) (hlive : s.live.Carries P) : call'.Serves P env addr := by
  cases h with
  | resolve hl => exact hlive _ _ hl
  | hasBackoff | noBackoff | due | funded | record | recorded | uncached => exact hcall
  | cached => exact ⟨hcall, _, rfl⟩
  | quoted => exact ⟨hcall, _, rfl⟩
  | _ => trivial

namespace Relayer

/-- What a relayer works with satisfies `P`. -/
structure Carries (P : ForwardingRequest → Prop) (env : RelayerEnv) (s : Relayer) : Prop where
  tick : s.tick.Carries P
  live : s.shared.live.Carries P
  calls : ∀ a, ∀ call ∈ s.calls a, call.Serves P env a

theorem carries_new {env : RelayerEnv} {now : ℕ} {store : RetryStore} {height : Option ℤ}
    {r a : Bool} : Carries P env (new env now store height r a) where
  tick := fun d hd => by cases hd
  live := LiveSet.carries_empty
  calls := fun a call hcall => by simp [calls, new, Dispatcher.start] at hcall

theorem Carries.mono {Q : ForwardingRequest → Prop} {env : RelayerEnv} {s : Relayer}
    (h : Carries P env s) (hPQ : ∀ r, P r → Q r) : Carries Q env s where
  tick := by
    have htick := h.tick
    unfold Tick.Carries at htick ⊢
    split at htick
    · exact fun r hr => hPQ r (htick r hr)
    · exact fun r hr => hPQ r (htick r hr)
    · exact fun d hd a r hr => (htick d hd a r hr).imp_right (hPQ r)
  live := fun a r hr => (h.live a r hr).imp_right (hPQ r)
  calls := by
    intro a call hmem
    have hcall := h.calls a call hmem
    unfold Call.Serves at hcall ⊢
    split at hcall
    case h_7 => exact ⟨hcall.1.imp_right (hPQ _), hcall.2⟩
    case h_8 | h_9 | h_10 => trivial
    all_goals exact hcall.imp_right (hPQ _)

theorem carries_step {env : RelayerEnv} {s s' : Relayer} {act : Act}
    (hr : (relayer env).Reachable s) (h : Steps env s act s') (hs : Carries P env s)
    (hfetch : ∀ requests, act = .tick (.fetch (some requests)) → ∀ r ∈ requests, P r) :
    Carries P env s' := by
  have hrest : s'.tick.Carries P ∧ s'.shared.live.Carries P := by
    rcases tick_cases h with ⟨tact, rfl, ht⟩ | ⟨ht, hl, -⟩ | ⟨ht, hl, -⟩
    · exact Tick.carries_step ht hs.tick hs.live fun requests hact => hfetch requests (by rw [hact])
    · exact ⟨ht ▸ hs.tick, hl ▸ hs.live⟩
    · rw [ht, hl]
      exact ⟨fun d hd => (by cases hd), LiveSet.carries_empty⟩
  refine ⟨hrest.1, hrest.2, fun a => ?_⟩
  cases seen_of_steps hr h a with
  | call _ _ hcalls hcalls' hcall =>
    rw [hcalls', List.forall_mem_singleton]
    exact Call.serves_step hcall (hs.calls a _ (hcalls ▸ List.mem_singleton_self _)) hs.live
  | start _ _ hcalls' =>
    rw [hcalls', List.forall_mem_singleton]
    trivial
  | finish _ _ _ hcalls' =>
    rw [hcalls']
    exact List.forall_mem_nil _
  | tick _ _ hcalls => exact hcalls ▸ hs.calls a
  | other _ _ _ _ hcalls => exact hcalls ▸ hs.calls a
  | crash _ hnew => exact hnew ▸ carries_new.calls a

end Relayer

section Message

variable {C : Crypto} {cfg : RelayerConfig} {signer fee : String} {r : ForwardingRequest}

/-- The message of a derived row derives to its address if the row names its hook or the configured
one is none. -/
theorem derive_forwardMessage (hr : r.deriveArgs.derive C = .ok r.forwardAddr)
    (h : r.customHookId.isSome ∨ decodeHook cfg.customIgpHook = .ok none) :
    (forwardMessage cfg signer r.forwardAddr fee r).deriveArgs.derive C = .ok r.forwardAddr := by
  obtain ⟨c, hc, haddr⟩ := DeriveArgs.derive_eq_ok_iff.1 hr
  obtain ⟨h1, h2, h3, h4, h5⟩ := DeriveArgs.decode_eq_ok_iff.1 hc
  refine DeriveArgs.derive_eq_ok_iff.2
    ⟨c, forwardMessage_decode_eq_ok_iff.2 ⟨h1, h2, h3, ?_, h5⟩, haddr⟩
  simp only [ForwardingRequest.deriveArgs] at h4
  rcases hh : r.customHookId with _ | hook
  · rw [hh, Option.isSome_none] at h
    rw [hh] at h4
    rw [Option.none_or, h.resolve_left (by simp), ← h4]
    rfl
  · rw [hh] at h4
    exact h4

/-- A whole amount of `utia` reads as that amount of that coin. -/
theorem parseMaxIgpFee_utia (n : UInt64) :
    CelestiaClient.parseMaxIgpFee (toString n ++ "utia") = ⟨"utia", toString n⟩ := by
  have hdigits : ∀ c ∈ (toString n).toList.reverse, c.isDigit = true := fun c hc => by
    have hc' : c ∈ n.toNat.repr.toList := List.mem_reverse.1 hc
    rw [Nat.toList_repr] at hc'
    exact Nat.isDigit_of_mem_toDigits (by decide) (by decide) hc'
  have hends : Text.endsWith "utia".toList ((toString n).toList ++ "utia".toList) = true := by
    rw [Text.endsWith, List.isSuffixOf_iff_suffix]
    exact List.suffix_append _ _
  have hutia : Text.trimEndMatches "utia".toList ((toString n).toList ++ "utia".toList)
      = (toString n).toList := by
    have hpat : "utia".toList.reverse = ['a', 'i', 't', 'u'] := rfl
    rw [Text.trimEndMatches, List.reverse_append, hpat, Text.trimStartMatches_append (by simp),
      Text.trimStartMatches_eq_self fun h => by simpa using hdigits _ h, List.reverse_reverse]
  have hutoken : Text.trimEndMatches "utoken".toList (toString n).toList
      = (toString n).toList := by
    have hpat : "utoken".toList.reverse = ['n', 'e', 'k', 'o', 't', 'u'] := rfl
    rw [Text.trimEndMatches, hpat,
      Text.trimStartMatches_eq_self fun h => by simpa using hdigits _ h, List.reverse_reverse]
  unfold CelestiaClient.parseMaxIgpFee
  rw [String.toList_append, if_pos hends, hutia, hutoken, String.ofList_toList]

end Message

namespace Network

variable {ι : Type} [DecidableEq ι] {C : Crypto} {env : ι → RelayerEnv} {log : List (Step ι)}
  {s s' : Network ι} {act : Act ι}

/-- Some `POST` of the run has created the row. -/
def Created (C : Crypto) (log : List (Step ι)) (r : ForwardingRequest) : Prop :=
  ∃ e ∈ log, created C e = some r

omit [DecidableEq ι] in
theorem derive_of_created {e : Step ι} {r : ForwardingRequest} (h : created C e = some r) :
    r.deriveArgs.derive C = .ok r.forwardAddr := by
  unfold created at h
  split at h
  · rename_i createdAt req _
    rcases createRequest_cases C createdAt e.pre.backend req with
      ⟨-, h1, -⟩ | ⟨-, _, -, -, h1⟩ | ⟨hvalid, -, db', -, h1⟩
    · split at h
      · rename_i hans
        rw [hans] at h1
        cases h1
      · cases h
    · rw [h1] at h
      cases h
    · rw [h1] at h
      obtain rfl := Option.some.inj h
      exact hvalid
  · cases h

/-- Everything that is stored, listed or worked with was created by a `POST`. -/
structure Genuine (C : Crypto) (env : ι → RelayerEnv) (log : List (Step ι)) (s : Network ι) :
    Prop where
  rows : ∀ r ∈ s.backend.rows, Created C log r
  listing : ∀ i L, s.listing i = some L → ∀ r ∈ L.requests, Created C log r
  relayers : ∀ i, (s.relayers i).Carries (Created C log) (env i)

theorem rows_step (h : Steps C env s act s') {r : ForwardingRequest} (hr : r ∈ s'.backend.rows) :
    r ∈ s.backend.rows ∨ created C ⟨s, act, s'⟩ = some r := by
  cases h with
  | @post createdAt req =>
    rcases createRequest_cases C createdAt s.backend req with
      ⟨-, -, -, h1⟩ | ⟨-, _, -, -, h1⟩ | ⟨-, -, db', h1, h2⟩
    · exact .inl (h1 ▸ hr)
    · simp only [h1] at hr
      exact .inl hr
    · simp only [h2, h1, List.mem_append, List.mem_singleton] at hr
      refine hr.imp_right fun hr => ?_
      simp [created, h2, hr]
  | @deliver n m hm =>
    rcases completeRequest_cases s.backend m.addr with ⟨x, -, -, db', h1, h2⟩ | ⟨-, h1⟩
    · simp only [h1] at hr
      exact .inl ((h2 r).1 hr).1
    · simp only [h1] at hr
      exact .inl hr
  | serve | relayer => exact .inl hr

theorem genuine_step (hr : (network C env).Run log s) (h : Steps C env s act s')
    (hg : Genuine C env log s) : Genuine C env (⟨s, act, s'⟩ :: log) s' := by
  have hmono : ∀ r, Created C log r → Created C (⟨s, act, s'⟩ :: log) r := by
    rintro r ⟨e, he, hc⟩
    exact ⟨e, List.mem_cons_of_mem _ he, hc⟩
  refine ⟨fun r hrow => ?_, fun i L hL r hrL => ?_, fun i => ?_⟩
  · rcases rows_step h hrow with hrow | hc
    · exact hmono r (hg.rows r hrow)
    · exact ⟨_, List.mem_cons_self, hc⟩
  · cases seen_of_steps h i with
    | serve _ _ _ _ hl =>
      rw [hl, Option.some.injEq] at hL
      subst hL
      exact hmono r (hg.rows r (BackendStorage.mem_listRequests.1 hrL))
    | relayer _ _ _ hl =>
      rw [hl] at hL
      exact hmono r (hg.listing i L (listing_of_after hL) r hrL)
    | other _ _ _ hl => exact hmono r (hg.listing i L (hl ▸ hL) r hrL)
  · refine Relayer.Carries.mono ?_ hmono
    cases seen_of_steps h i with
    | serve _ _ _ hrel => exact hrel ▸ hg.relayers i
    | relayer _ hans hsteps =>
      refine Relayer.carries_step (relayer_run hr i).reachable hsteps (hg.relayers i) ?_
      rintro requests rfl
      obtain ⟨L, hL, heq⟩ := (Option.any_eq_true _ _).1 hans
      exact eq_of_beq heq ▸ hg.listing i L hL
    | other _ _ hrel => exact hrel ▸ hg.relayers i

theorem genuine_of_run (h : (network C env).Run log s) : Genuine C env log s := by
  refine h.invariant (I := Genuine C env) ?_ fun _ _ _ _ hr hg hs =>
    genuine_step hr (steps_of_step hs) hg
  rintro s ⟨hb, hinit, hl, -⟩
  refine ⟨fun r hr => ?_, fun i L hL => ?_, fun i => ?_⟩
  · rw [hb] at hr
    exact absurd hr List.not_mem_nil
  · rw [hl] at hL
    cases hL
  · obtain ⟨_, _, _, _, _, hs⟩ := hinit i
    exact hs ▸ Relayer.carries_new

/-- Whatever is submitted by a relayer of the network is the message of a request that a `POST` has
created, for the address the request's fields derive to: it names the request's destination and
metadata, a whole amount of `utia`, and unless a configured hook takes the place of a missing one,
its own fields derive to the address. -/
theorem submissions_authentic {ι : Type} [DecidableEq ι] {C : Crypto} {env : ι → RelayerEnv}
    {log : List (Step ι)} {s : Network ι} (h : (network C env).Run log s) {i : ι} {a : String}
    {r : ForwardingRequest} {msg : MsgForward} (hcall : .submit r msg ∈ (s.relayers i).calls a) :
    (∃ e ∈ log, created C e = some r)
      ∧ r.deriveArgs.derive C = .ok a ∧ msg.forwardAddr = a
      ∧ msg.signer = (env i).signerAddress ∧ msg.destDomain = r.destDomain
      ∧ msg.destRecipient = r.destRecipient ∧ msg.tokenId = r.tokenId
      ∧ msg.customHookMetadata = r.customHookMetadata.getD ""
      ∧ (∃ fee : UInt64, msg.maxIgpFee = some ⟨"utia", toString fee⟩)
      ∧ (r.customHookId.isSome ∨ decodeHook (env i).config.customIgpHook = .ok none →
          msg.deriveArgs.derive C = .ok a) := by
  obtain ⟨⟨rfl, hcreated⟩, quoted, hmsg⟩ := ((genuine_of_run h).relayers i).calls a _ hcall
  obtain ⟨e, he, hc⟩ := hcreated
  have hderive := derive_of_created hc
  cases hmsg
  exact ⟨⟨e, he, hc⟩, hderive, rfl, rfl, rfl, rfl, rfl, rfl,
    ⟨_, congrArg some (parseMaxIgpFee_utia _)⟩, derive_forwardMessage hderive⟩

/-- The request that is being submitted for an address. -/
def submitting (s : Relayer) (a : String) : Option ForwardingRequest :=
  match s.calls a with
  | [.submit r _] => some r
  | _ => none

/-- The call finds a balance, records it and is given a quote. -/
def quotedCall : List Call.Input :=
  [.go true, .go true, .balances (some [⟨"utia", "1"⟩]), .go true, .go true, .go true, .go true,
    .go true, .quoted (.ok ⟨none⟩)]

/-- The posted row is listed, and its address probed. -/
def postedThenQuoted : List (Act Unit) :=
  postPlain :: .serve () :: (Relayer.listingTick [postedRow] [postedRow.forwardAddr]
    ++ Relayer.Act.tick .probe :: Relayer.startCall
    ++ quotedCall.map (Relayer.Act.forward 0)).map (Act.relayer ())

theorem submissions_authentic_posted : ∃ log s msg,
    (network .standard fun _ : Unit => networkEnv).Run log s
      ∧ .submit postedRow msg ∈ (s.relayers ()).calls postedRow.forwardAddr
      ∧ (∃ e ∈ log, created .standard e = some postedRow)
      ∧ msg.deriveArgs.derive .standard = .ok postedRow.forwardAddr := by
  obtain ⟨log, s, hrun, h⟩ := exists_run_of_posts postedThenQuoted (1735689600 * 10 ^ 9)
    (fun _ s => submitting (s.relayers ()) postedRow.forwardAddr == some postedRow)
    rfl (by decide +kernel)
  rw [beq_iff_eq] at h
  unfold submitting at h
  split at h
  · rename_i r msg hcalls
    obtain rfl := Option.some.inj h
    have hmem : .submit postedRow msg ∈ (s.relayers ()).calls postedRow.forwardAddr := by
      rw [hcalls]
      exact List.mem_singleton_self _
    have hall := submissions_authentic hrun hmem
    exact ⟨log, s, msg, hrun, hmem, hall.1, hall.2.2.2.2.2.2.2.2.2 (.inr rfl)⟩
  · cases h

end Network

end ForwardingRelayer
