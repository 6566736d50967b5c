import ForwardingRelayer.Proofs.Retirement

/-!
# What a tick makes of the watch state

Up to its swap a tick takes from the maps what is not in its new list, first address by address and
then map by map. So each map agrees with what it was before on the addresses that are kept, and
once it has been pruned it has no others. While no call runs, the maps are the tick's alone.
-/

namespace ForwardingRelayer

open RelayerState

/-- The listed requests have the address, and none of those for it is to be retired. -/
def Kept (env : RelayerEnv) (s : RelayerState) (now : ℤ) (requests : List ForwardingRequest)
    (a : String) : Prop :=
  (∃ req ∈ requests, req.forwardAddr = a)
    ∧ ∀ req ∈ requests, req.forwardAddr = a →
      retirementReason env.chrono.parseFromRfc3339 req.createdAt
        ((s.lastActivity.lookup a).map UtcTime.ofNanos) (.ofNanos now)
        env.config.maxRequestAgeSeconds env.config.maxAddressInactivitySeconds = none

theorem Decision.mem_kept_iff {env : RelayerEnv} {s : RelayerState} {now : ℤ}
    {requests : List ForwardingRequest} {a : String} :
    a ∈ (make env s.lastActivity now requests).kept ↔ Kept env s now requests a := by
  simp only [make, mem_keep, retire, Kept, List.mem_map, List.mem_filterMap,
    Option.map_eq_some_iff]
  refine and_congr_right fun _ => ⟨fun h req hreq haddr => ?_, ?_⟩
  · by_contra hne
    obtain ⟨reason, hreason⟩ := Option.ne_none_iff_exists'.1 hne
    exact h ⟨(req, reason), ⟨req, hreq, reason, haddr ▸ hreason, rfl⟩, haddr⟩
  · rintro h ⟨p, ⟨req, hreq, reason, hreason, rfl⟩, haddr⟩
    rw [show retirementReason _ _ _ _ _ _ = none from haddr ▸ h req hreq haddr] at hreason
    cases hreason

theorem Decision.of_lookup_keep {toRetire : List (ForwardingRequest × RetireReason)}
    {requests : List ForwardingRequest} {a : String} {req : ForwardingRequest}
    (h : (keep toRetire requests).lookup a = some req) : req ∈ requests ∧ req.forwardAddr = a := by
  rcases AList.of_lookup_foldl_insert ForwardingRequest.forwardAddr h with h | ⟨hreq, haddr⟩
  · rw [AList.lookup_empty] at h
    cases h
  · exact ⟨List.mem_of_mem_filter hreq, haddr⟩

theorem Decision.nodup_newlyAdded (d : Decision) (live : LiveSet) : (d.newlyAdded live).Nodup :=
  d.kept.keys_nodup.filter _

theorem Decision.mem_newlyAdded {d : Decision} {live : LiveSet} {a : String} :
    a ∈ d.newlyAdded live ↔ a ∈ d.kept ∧ a ∉ live := by
  rw [newlyAdded, List.mem_filter, decide_eq_true_eq, ← AList.mem_keys]

theorem nodup_dueAddrs {retryState : AList fun _ : String => RetryState} {now : ℤ} :
    (dueAddrs retryState now).Nodup :=
  List.Nodup.sublist (List.filter_sublist.map Sigma.fst) retryState.keys_nodup

theorem mem_dueAddrs {retryState : AList fun _ : String => RetryState} {now : ℤ} {a : String} :
    a ∈ dueAddrs retryState now
      ↔ ∃ state, retryState.lookup a = some state ∧ state.nextAttempt ≤ now := by
  simp only [dueAddrs, List.mem_map, List.mem_filter, decide_eq_true_eq]
  constructor
  · rintro ⟨⟨addr, state⟩, ⟨hmem, hdue⟩, rfl⟩
    exact ⟨state, AList.mem_lookup_iff.2 hmem, hdue⟩
  · rintro ⟨state, hstate, hdue⟩
    exact ⟨⟨a, state⟩, ⟨AList.mem_lookup_iff.1 hstate, hdue⟩, rfl⟩

section Restricts

variable {β : Type} {kept : LiveSet} {m₀ m : AList fun _ : String => β} {done : Bool}

/-- `m` is `m₀` on the addresses that are kept, and when it is done it has no others. -/
def Restricts (kept : LiveSet) (m₀ : AList fun _ : String => β) (done : Bool)
    (m : AList fun _ : String => β) : Prop :=
  ∀ a, (a ∈ kept → m.lookup a = m₀.lookup a) ∧ (done → a ∉ kept → m.lookup a = none)

theorem Restricts.refl : Restricts kept m₀ false m₀ := fun _ => ⟨fun _ => rfl, nofun⟩

theorem Restricts.erase {addr : String} (h : Restricts kept m₀ done m) (haddr : addr ∉ kept) :
    Restricts kept m₀ done (m.erase addr) := by
  intro a
  by_cases ha : a = addr
  · rw [ha]
    exact ⟨fun hk => absurd hk haddr, fun _ _ => AList.lookup_erase addr m⟩
  · rw [AList.lookup_erase_ne ha]
    exact h a

theorem Restricts.retain (h : Restricts kept m₀ done m) :
    Restricts kept m₀ true (m.retain (· ∈ kept)) := by
  intro a
  rw [AList.lookup_retain]
  by_cases ha : a ∈ kept
  · rw [if_pos (by simpa using ha)]
    exact ⟨(h a).1, fun _ hn => absurd ha hn⟩
  · rw [if_neg (by simpa using ha)]
    exact ⟨fun hk => absurd hk ha, fun _ _ => rfl⟩

/-- A pruning statement that leaves no row of another address behind. -/
theorem Restricts.retain_left (h : Restricts kept m₀ done m) :
    Restricts kept m₀ true
      (m.retain fun a => decide (a ∈ kept) || ([] : List String).contains a) := by
  simp only [List.contains_nil, Bool.or_false]
  exact h.retain

theorem Restricts.lookup (h : Restricts kept m₀ true m) (a : String) :
    m.lookup a = if a ∈ kept then m₀.lookup a else none := by
  split
  · exact (h a).1 ‹_›
  · exact (h a).2 rfl ‹_›

end Restricts

/-- The maps in the middle of a tick, with those that have been pruned. -/
structure Sweeping (s₀ : RelayerState) (kept : LiveSet) (retry activity stored : Bool)
    (s : RelayerState) : Prop where
  feeCache : s.feeCache = s₀.feeCache
  retryState : Restricts kept s₀.retryState retry s.retryState
  lastActivity : Restricts kept s₀.lastActivity activity s.lastActivity
  storedRetry : Restricts kept s₀.store.retryState stored s.store.retryState
  storedActivity : Restricts kept s₀.store.addressActivity stored s.store.addressActivity

theorem Sweeping.refl {s₀ : RelayerState} {kept : LiveSet} :
    Sweeping s₀ kept false false false s₀ := ⟨rfl, .refl, .refl, .refl, .refl⟩

/-- Clearing an address that is not kept. -/
theorem Sweeping.clear {s₀ s : RelayerState} {kept : LiveSet} {retry activity stored : Bool}
    {now : ℤ} {addr : String} {op : Op} (h : Sweeping s₀ kept retry activity stored s)
    (haddr : addr ∉ kept) (hop : op ∈ clearRetryState ++ clearActivity) :
    Sweeping s₀ kept retry activity stored (s.runOp now true addr op).1 := by
  simp only [clearRetryState, clearActivity, List.cons_append, List.nil_append, List.mem_cons,
    List.not_mem_nil, or_false] at hop
  rcases hop with rfl | rfl | rfl | rfl
  · exact { h with retryState := h.retryState.erase haddr }
  · exact { h with storedRetry := h.storedRetry.erase haddr }
  · exact { h with lastActivity := h.lastActivity.erase haddr }
  · exact { h with storedActivity := h.storedActivity.erase haddr }

namespace Tick

variable {env : RelayerEnv} {now : ℕ} {s₀ s s' : RelayerState} {d : Decision}
  {newly sent : List String} {t t' : Tick} {act : Act}

/-- Every statement of the store goes through, and the tick is the only one. -/
def Act.Sound : Act → Prop
  | .clear stored => stored = true
  | .pruneStore leftRetry leftActivity => leftRetry = [] ∧ leftActivity = []
  | .wake => False
  | _ => True

/-- A tick that works off what it has decided. -/
inductive Clears (s₀ : RelayerState) (d : Decision) (newly : List String) :
    RelayerState → Tick → Prop
  | retire {s : RelayerState} {rest : List (ForwardingRequest × RetireReason)} :
      Sweeping s₀ d.kept false false false s → (∀ p ∈ rest, p.1.forwardAddr ∉ d.kept) →
      Clears s₀ d newly s (.retire d newly rest)
  | clear {s : RelayerState} {addr : String} {ops : List Op}
      {rest : List (ForwardingRequest × RetireReason)} :
      Sweeping s₀ d.kept false false false s → addr ∉ d.kept →
      ops <:+ clearRetryState ++ clearActivity → (∀ p ∈ rest, p.1.forwardAddr ∉ d.kept) →
      Clears s₀ d newly s (.clear d newly addr ops rest)
  | deleting {s : RelayerState} {rest : List (ForwardingRequest × RetireReason)} :
      Sweeping s₀ d.kept false false false s → (∀ p ∈ rest, p.1.forwardAddr ∉ d.kept) →
      Clears s₀ d newly s (.deleting d newly rest)
  | pruneRetry {s : RelayerState} : Sweeping s₀ d.kept false false false s →
      Clears s₀ d newly s (.pruneRetry d newly)
  | pruneActivity {s : RelayerState} : Sweeping s₀ d.kept true false false s →
      Clears s₀ d newly s (.pruneActivity d newly)
  | pruneStore {s : RelayerState} : Sweeping s₀ d.kept true true false s →
      Clears s₀ d newly s (.pruneStore d newly)
  | swap {s : RelayerState} : Sweeping s₀ d.kept true true true s →
      Clears s₀ d newly s (.swap d newly)

/-- A tick that has swapped, with what it has sent. -/
inductive Sends (s₀ : RelayerState) (d : Decision) (newly : List String) :
    List String → RelayerState → Tick → Prop
  | probe {s : RelayerState} {taken rest : List String} :
      Sweeping s₀ d.kept true true true s → s.live = d.kept → taken ++ rest = newly →
      Sends s₀ d newly taken s (.probe d.now rest)
  | collect {s : RelayerState} : Sweeping s₀ d.kept true true true s → s.live = d.kept →
      Sends s₀ d newly newly s (.collect d.now)
  | sendDue {s : RelayerState} {taken rest : List String} :
      Sweeping s₀ d.kept true true true s → s.live = d.kept →
      (taken ++ rest).Perm (dueAddrs s.retryState d.now) →
      Sends s₀ d newly (newly ++ taken) s (.sendDue rest)
  | asleep {s : RelayerState} {due : List String} :
      Sweeping s₀ d.kept true true true s → s.live = d.kept →
      due.Perm (dueAddrs s.retryState d.now) → Sends s₀ d newly (newly ++ due) s .asleep

/-- One step towards the swap. -/
theorem Clears.step (h : Clears s₀ d newly s t) (hs : Steps env now s t act s' t')
    (hact : act.Sound) :
    Clears s₀ d newly s' t' ∨ Sends s₀ d newly [] s' t' := by
  cases h with
  | retire hsw hrest =>
    cases hs with
    | retireNext =>
      rw [List.forall_mem_cons] at hrest
      exact .inl (.clear hsw hrest.1 (List.suffix_refl _) hrest.2)
    | retired => exact .inl (.pruneRetry hsw)
  | clear hsw haddr hops hrest =>
    cases hs with
    | @clear _ _ _ op ops _ stored =>
      obtain rfl : stored = true := hact
      have hop := hops.subset List.mem_cons_self
      rw [runOp_clearing hop, List.nil_append]
      exact .inl (.clear (hsw.clear haddr hop) haddr ((List.suffix_cons op ops).trans hops) hrest)
    | delete => exact .inl (.deleting hsw hrest)
  | deleting hsw hrest =>
    cases hs with
    | deleted => exact .inl (.retire hsw hrest)
  | pruneRetry hsw =>
    cases hs with
    | pruneRetry => exact .inl (.pruneActivity { hsw with retryState := hsw.retryState.retain })
  | pruneActivity hsw =>
    cases hs with
    | pruneActivity =>
      exact .inl (.pruneStore { hsw with lastActivity := hsw.lastActivity.retain })
  | pruneStore hsw =>
    cases hs with
    | pruneStore =>
      obtain ⟨rfl, rfl⟩ := hact
      exact .inl (.swap { hsw with
        storedRetry := hsw.storedRetry.retain_left
        storedActivity := hsw.storedActivity.retain_left })
  | swap hsw =>
    cases hs with
    | swap => exact .inr (.probe { hsw with } rfl rfl)

theorem Sends.step (h : Sends s₀ d newly sent s t) (hs : Steps env now s t act s' t')
    (hact : act.Sound) : Sends s₀ d newly (sent ++ (t.sends act).toList) s' t' := by
  cases h with
  | probe hsw hlive hnewly =>
    cases hs with
    | @probe _ addr addrs =>
      have hnext : (sent ++ [addr]) ++ addrs = newly := by
        rw [← hnewly, List.append_assoc, List.singleton_append]
      exact .probe hsw hlive hnext
    | probed =>
      rw [List.append_nil] at hnewly
      subst hnewly
      rw [show (Tick.probe d.now []).sends .probed = none from rfl, Option.toList_none,
        List.append_nil]
      exact .collect hsw hlive
  | collect hsw hlive =>
    cases hs with
    | collect hperm => exact .sendDue hsw hlive hperm
  | @sendDue _ taken rest hsw hlive hperm =>
    cases hs with
    | @sendDue addr addrs =>
      have hnext : ((taken ++ [addr]) ++ addrs).Perm (dueAddrs s.retryState d.now) := by
        rwa [List.append_assoc, List.singleton_append]
      rw [List.append_assoc]
      exact .sendDue hsw hlive hnext
    | finish =>
      rw [List.append_nil] at hperm
      rw [show (Tick.sendDue []).sends .finish = none from rfl, Option.toList_none,
        List.append_nil]
      exact .asleep hsw hlive hperm
  | asleep =>
    cases hs
    exact hact.elim

/-- How far a tick has come from `s₀`: the answer to its fetch, its reading of the clock, what it
has sent, and the state with where it is. -/
inductive Progress (env : RelayerEnv) (s₀ : RelayerState) :
    List (Option (List ForwardingRequest)) → List ℤ → List String → RelayerState → Tick → Prop
  | start : Progress env s₀ [] [] [] s₀ .start
  | failed : Progress env s₀ [none] [] [] s₀ .asleep
  | fetched {requests : List ForwardingRequest} :
      Progress env s₀ [some requests] [] [] s₀ (.fetched requests)
  | snapshot {requests : List ForwardingRequest} {t : ℤ} :
      Progress env s₀ [some requests] [t] [] s₀ (.snapshot t requests)
  | compare {requests : List ForwardingRequest} {t : ℤ} :
      Progress env s₀ [some requests] [t] [] s₀ (.compare (.make env s₀.lastActivity t requests))
  | clears {requests : List ForwardingRequest} {t : ℤ} {d : Decision} {newly : List String}
      {s : RelayerState} {tick : Tick} : d = .make env s₀.lastActivity t requests →
      newly.Perm (d.newlyAdded s₀.live) → Clears s₀ d newly s tick →
      Progress env s₀ [some requests] [t] [] s tick
  | sends {requests : List ForwardingRequest} {t : ℤ} {d : Decision} {newly sent : List String}
      {s : RelayerState} {tick : Tick} : d = .make env s₀.lastActivity t requests →
      newly.Perm (d.newlyAdded s₀.live) → Sends s₀ d newly sent s tick →
      Progress env s₀ [some requests] [t] sent s tick

def Act.answer : Act → Option (Option (List ForwardingRequest))
  | .fetch result => some result
  | _ => none

def Act.reading (now : ℤ) : Act → Option ℤ
  | .readTime => some now
  | _ => none

theorem not_mem_kept_of_toRetire {requests : List ForwardingRequest}
    {lastActivity : AList fun _ : String => ℤ} {time : ℤ}
    (h : d = .make env lastActivity time requests) :
    ∀ p ∈ d.toRetire, p.1.forwardAddr ∉ d.kept := by
  intro p hp hk
  subst h
  exact (Decision.mem_keep.1 hk).2 (List.mem_map_of_mem hp)

theorem Clears.silent (h : Clears s₀ d newly s t) (hs : Steps env now s t act s' t') :
    act.answer = none ∧ act.reading now = none ∧ t.sends act = none := by
  cases h <;> cases hs <;> exact ⟨rfl, rfl, rfl⟩

theorem Sends.silent (h : Sends s₀ d newly sent s t) (hs : Steps env now s t act s' t') :
    act.answer = none ∧ act.reading now = none := by
  cases h <;> cases hs <;> exact ⟨rfl, rfl⟩

theorem Progress.step {answers : List (Option (List ForwardingRequest))} {readings : List ℤ}
    (h : Progress env s₀ answers readings sent s t) (hs : Steps env now s t act s' t')
    (hact : act.Sound) :
    Progress env s₀ (answers ++ act.answer.toList) (readings ++ (act.reading now).toList)
      (sent ++ (t.sends act).toList) s' t' := by
  cases h with
  | start =>
    cases hs with
    | fetchFailed => exact .failed
    | fetch => exact .fetched
  | failed =>
    cases hs
    exact hact.elim
  | fetched =>
    cases hs
    exact .snapshot
  | snapshot =>
    cases hs
    exact .compare
  | compare =>
    cases hs with
    | compare hperm => exact .clears rfl hperm (.retire .refl (not_mem_kept_of_toRetire rfl))
  | clears hd hperm hclears =>
    obtain ⟨hanswer, hreading, hsend⟩ := hclears.silent hs
    simp only [hanswer, hreading, hsend, Option.toList_none, List.append_nil]
    rcases hclears.step hs hact with h | h
    · exact .clears hd hperm h
    · exact .sends hd hperm h
  | sends hd hperm hsends =>
    obtain ⟨hanswer, hreading⟩ := hsends.silent hs
    simp only [hanswer, hreading, Option.toList_none, List.append_nil]
    exact .sends hd hperm (hsends.step hs hact)

/-- The tick's own steps, with room in the channel, bring it to its end. -/
inductive Ends (env : RelayerEnv) (now : ℕ) : RelayerState → Tick → Prop
  | asleep {s : RelayerState} : Ends env now s .asleep
  | step {s s' : RelayerState} {t t' : Tick} (act : Act) :
      Tick.step env now s t act = some (s', t') → act.Sound → Ends env now s' t' →
      Ends env now s t

section Ends

theorem ends_sendDue : ∀ addrs, Ends env now s (.sendDue addrs)
  | [] => .step .finish rfl trivial .asleep
  | _ :: addrs => .step .sendDue rfl trivial (ends_sendDue addrs)

theorem ends_collect {time : ℤ} : Ends env now s (.collect time) := by
  have hs : Tick.step env now s (.collect time) (.collect (dueAddrs s.retryState time))
      = some (s, .sendDue (dueAddrs s.retryState time)) :=
    if_pos (List.isPerm_iff.2 (List.Perm.refl _))
  exact .step _ hs trivial (ends_sendDue _)

theorem ends_probe {time : ℤ} : ∀ addrs, Ends env now s (.probe time addrs)
  | [] => .step .probed rfl trivial ends_collect
  | _ :: addrs => .step .probe rfl trivial (ends_probe addrs)

theorem ends_swap : Ends env now s (.swap d newly) :=
  .step .swap rfl trivial (ends_probe newly)

theorem ends_pruneStore : Ends env now s (.pruneStore d newly) :=
  .step (.pruneStore [] []) rfl ⟨rfl, rfl⟩ ends_swap

theorem ends_pruneActivity : Ends env now s (.pruneActivity d newly) :=
  .step .pruneActivity rfl trivial ends_pruneStore

theorem ends_pruneRetry : Ends env now s (.pruneRetry d newly) :=
  .step .pruneRetry rfl trivial ends_pruneActivity

variable {rest : List (ForwardingRequest × RetireReason)} {addr : String}

theorem ends_deleting (h : ∀ s, Ends env now s (.retire d newly rest)) :
    Ends env now s (.deleting d newly rest) := .step .deleted rfl trivial (h s)

theorem ends_clear (h : ∀ s, Ends env now s (.retire d newly rest)) : ∀ {ops : List Op},
    ops <:+ clearRetryState ++ clearActivity → ∀ s, Ends env now s (.clear d newly addr ops rest)
  | [], _, _ => .step .delete rfl trivial (ends_deleting h)
  | op :: ops, hops, s => by
    have hs : Tick.step env now s (.clear d newly addr (op :: ops) rest) (.clear true)
        = some ((s.runOp now true addr op).1,
          .clear d newly addr ((s.runOp now true addr op).2 ++ ops) rest) := rfl
    rw [runOp_clearing (hops.subset List.mem_cons_self), List.nil_append] at hs
    exact .step _ hs rfl (ends_clear h ((List.suffix_cons op ops).trans hops) _)

theorem ends_retire : ∀ (rest : List (ForwardingRequest × RetireReason)) (s : RelayerState),
    Ends env now s (.retire d newly rest)
  | [], _ => .step .retired rfl trivial ends_pruneRetry
  | _ :: rest, s =>
    .step .retireNext rfl trivial (ends_clear (ends_retire rest) (List.suffix_refl _) s)

theorem ends_compare : Ends env now s (.compare d) := by
  have hs : Tick.step env now s (.compare d) (.compare (d.newlyAdded s.live))
      = some (s, .retire d (d.newlyAdded s.live) d.toRetire) :=
    if_pos (List.isPerm_iff.2 (List.Perm.refl _))
  exact .step _ hs trivial (ends_retire _ s)

theorem Clears.ends (h : Clears s₀ d newly s t) : Ends env now s t := by
  cases h with
  | retire => exact ends_retire _ s
  | clear _ _ hops => exact ends_clear (ends_retire _) hops s
  | deleting => exact ends_deleting (ends_retire _)
  | pruneRetry => exact ends_pruneRetry
  | pruneActivity => exact ends_pruneActivity
  | pruneStore => exact ends_pruneStore
  | swap => exact ends_swap

theorem Sends.ends (h : Sends s₀ d newly sent s t) : Ends env now s t := by
  cases h with
  | probe => exact ends_probe _
  | collect => exact ends_collect
  | sendDue => exact ends_sendDue _
  | asleep => exact .asleep

theorem Progress.ends {answers : List (Option (List ForwardingRequest))} {readings : List ℤ}
    (h : Progress env s₀ answers readings sent s t) : Ends env now s t := by
  cases h with
  | start => exact .step (.fetch none) rfl trivial .asleep
  | failed => exact .asleep
  | fetched =>
    exact .step .readTime rfl trivial (.step .decide rfl trivial ends_compare)
  | snapshot => exact .step .decide rfl trivial ends_compare
  | compare => exact ends_compare
  | clears _ _ h => exact h.ends
  | sends _ _ h => exact h.ends

end Ends

end Tick

/-- What is left of `s` when a tick has fetched `requests` and read the clock at `now`, and what it
has sent. -/
structure Swept (env : RelayerEnv) (s : RelayerState) (now : ℤ) (requests : List ForwardingRequest)
    (s' : RelayerState) (sent : List String) : Prop where
  live : ∀ a, a ∈ s'.live ↔ Kept env s now requests a
  listed : ∀ a req, s'.live.lookup a = some req → req ∈ requests ∧ req.forwardAddr = a
  retryState : ∀ a, s'.retryState.lookup a = if a ∈ s'.live then s.retryState.lookup a else none
  lastActivity : ∀ a,
    s'.lastActivity.lookup a = if a ∈ s'.live then s.lastActivity.lookup a else none
  storedRetry : ∀ a,
    s'.store.retryState.lookup a = if a ∈ s'.live then s.store.retryState.lookup a else none
  storedActivity : ∀ a, s'.store.addressActivity.lookup a
    = if a ∈ s'.live then s.store.addressActivity.lookup a else none
  feeCache : s'.feeCache = s.feeCache
  sent : ∃ newly due, sent = newly ++ due
    ∧ newly.Nodup ∧ (∀ a, a ∈ newly ↔ a ∈ s'.live ∧ a ∉ s.live)
    ∧ due.Nodup
    ∧ ∀ a, a ∈ due ↔ ∃ state, s'.retryState.lookup a = some state ∧ state.nextAttempt ≤ now

theorem Tick.Sends.swept {env : RelayerEnv} {s₀ s : RelayerState} {now : ℤ}
    {requests : List ForwardingRequest} {d : Decision} {newly sent : List String}
    (h : Sends s₀ d newly sent s .asleep) (hd : d = .make env s₀.lastActivity now requests)
    (hnewly : newly.Perm (d.newlyAdded s₀.live)) : Swept env s₀ now requests s sent := by
  subst hd
  cases h with
  | @asleep _ due hsw hlive hdue =>
    exact {
      live := fun a => by rw [hlive, Decision.mem_kept_iff]
      listed := fun a req h => Decision.of_lookup_keep (by rwa [hlive] at h)
      retryState := by rw [hlive]; exact hsw.retryState.lookup
      lastActivity := by rw [hlive]; exact hsw.lastActivity.lookup
      storedRetry := by rw [hlive]; exact hsw.storedRetry.lookup
      storedActivity := by rw [hlive]; exact hsw.storedActivity.lookup
      feeCache := hsw.feeCache
      sent := by
        refine ⟨newly, due, rfl, hnewly.nodup_iff.2 (Decision.nodup_newlyAdded _ _), fun a => ?_,
          hdue.nodup_iff.2 nodup_dueAddrs, fun a => ?_⟩
        · rw [hnewly.mem_iff, Decision.mem_newlyAdded, hlive]
        · exact hdue.mem_iff.trans mem_dueAddrs }

namespace Relayer

/-- An act outside the calls, with what a sound tick does. -/
def Undisturbed : Act → Prop
  | .tick act => act.Sound
  | .forward _ _ | .crash _ _ => False
  | _ => True

/-- The answer to a tick's fetch. -/
def tickAnswer (e : Step) : Option (Option (List ForwardingRequest)) :=
  match e.act with
  | .tick act => act.answer
  | _ => none

def tickReading (e : Step) : Option ℤ :=
  match e.act with
  | .tick act => act.reading e.pre.now
  | _ => none

theorem silent_of_ne_tick {e : Step} (h : ∀ tact, e.act ≠ .tick tact) :
    tickAnswer e = none ∧ tickReading e = none ∧ tickSent e = none := by
  unfold tickAnswer tickReading tickSent
  cases hact : e.act with
  | tick tact => exact absurd hact (h tact)
  | _ => exact ⟨rfl, rfl, rfl⟩

section Exec

variable {env : RelayerEnv} {s s' : Relayer} {act : Act} {acts : List Act} {log : List Step}

/-- What a step outside the calls does to the watch state is the tick's. -/
theorem undisturbed_cases (h : Steps env s act s') (hact : Undisturbed act) :
    (∃ tact, act = .tick tact ∧ tact.Sound
        ∧ Tick.Steps env s.now s.shared s.tick tact s'.shared s'.tick)
      ∨ ((∀ tact, act ≠ .tick tact) ∧ s'.shared = s.shared ∧ s'.tick = s.tick) := by
  cases h with
  | tick ht => exact .inl ⟨_, rfl, hact, ht⟩
  | forward => exact hact.elim
  | crash => exact hact.elim
  | _ => exact .inr ⟨nofun, rfl, rfl⟩

theorem progress_of_exec (h : (relayer env).exec acts [] s = some (log, s'))
    (hstart : s.tick = .start) (hacts : ∀ act ∈ acts, Undisturbed act) :
    Tick.Progress env s.shared (Machine.trace tickAnswer log) (Machine.trace tickReading log)
      (Machine.trace tickSent log) s'.shared s'.tick := by
  refine Machine.exec_invariant (I := fun log s' => Tick.Progress env s.shared
    (Machine.trace tickAnswer log) (Machine.trace tickReading log) (Machine.trace tickSent log)
    s'.shared s'.tick) ?_ ?_ h
  · intro act hmem log s₁ s₂ ih hs
    simp only [Machine.trace_cons]
    rcases undisturbed_cases (steps_of_step hs) (hacts act hmem) with
      ⟨tact, rfl, hsound, ht⟩ | ⟨hact, hshared, htick⟩
    · exact ih.step ht hsound
    · obtain ⟨hanswer, hreading, hsent⟩ := silent_of_ne_tick (e := ⟨s₁, act, s₂⟩) hact
      rw [hanswer, hreading, hsent, Option.toList_none, Option.toList_none, Option.toList_none,
        List.append_nil, List.append_nil, List.append_nil, hshared, htick]
      exact ih
  · rw [hstart]
    exact .start

end Exec

/-- The time of this start is a minute and a second after the requests were created. One address
has been active since; both it and an address that is no longer listed have an entry. -/
def staleStart : Relayer :=
  { exampleStart (exampleEnv 60 60) with
    now := 1735689661 * 10 ^ 9
    shared :=
      { live := ∅
        retryState := (AList.singleton "celestia1c" ⟨2, 0⟩).insert "celestia1a" ⟨1, 0⟩
        lastActivity := AList.singleton "celestia1a" (1735689660 * 10 ^ 9)
        feeCache := ∅
        store := ⟨AList.singleton "celestia1c" ⟨2, some 0⟩, ∅⟩ } }

def staleTick : List Act :=
  [.tick (.fetch (some [listed "celestia1a", listed "celestia1b", listed "celestia1a"])),
    .tick .readTime, .elapse 5, .tick .decide, .tick (.compare ["celestia1a"]), .tick .retireNext,
    .tick (.clear true), .tick (.clear true), .tick (.clear true), .tick (.clear true),
    .tick .delete, .tick .deleted, .tick .retired, .tick .pruneRetry, .tick .pruneActivity,
    .tick (.pruneStore [] []), .tick .swap, .tick .probe, .tick .probed,
    .tick (.collect ["celestia1a"]), .tick .sendDue, .tick .finish]

end Relayer

end ForwardingRelayer
