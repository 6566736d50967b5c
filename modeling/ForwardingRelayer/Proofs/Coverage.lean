import ForwardingRelayer.Proofs.System

/-!
# No deposit is missed around a registration

The scanner passes over a deposit to an address that is not live, and never goes back. Such an
address enters the list by a later swap, and the tick that swaps probes it: what enters the list was
not in it when the tick compared, and the list has not changed since. So a deposit's address is
live only with a send behind the later of the two, or one that the scanner or the tick still owes.
-/

namespace ForwardingRelayer

namespace Tick

/-- What a tick is about to swap in, and the addresses it will probe then. -/
def swapping : Tick → Option (LiveSet × List String)
  | .retire d newly _ | .clear d newly _ _ _ | .deleting d newly _ | .pruneRetry d newly
  | .pruneActivity d newly | .pruneStore d newly | .swap d newly => some (d.kept, newly)
  | _ => none

/-- Every address a swap would add will be probed. -/
def ProbesNew (t : Tick) (live : LiveSet) : Prop :=
  ∀ kept newly, t.swapping = some (kept, newly) → ∀ a ∈ kept, a ∉ live → a ∈ newly

section Step

variable {env : RelayerEnv} {now : ℕ} {s s' : RelayerState} {t t' : Tick} {act : Act}

theorem probesNew_step (h : Steps env now s t act s' t') (ht : t.ProbesNew s.live) :
    t'.ProbesNew s'.live := by
  intro kept newly hk a ha hn
  cases h with
  | @compare d order hp =>
    obtain ⟨rfl, rfl⟩ := Prod.mk.inj (Option.some.inj hk)
    rw [hp.mem_iff, Decision.newlyAdded, List.mem_filter]
    exact ⟨AList.mem_keys.2 ha, by simpa using hn⟩
  | clear => exact ht kept newly hk a ha (Relayer.runOp_live ▸ hn)
  | retireNext | delete | deleted | retired | pruneRetry | pruneActivity | pruneStore =>
    exact ht kept newly hk a ha hn
  | _ => simp [swapping] at hk

end Step

end Tick

namespace Relayer

def fetched (e : Step) : Option BlockResults :=
  match e.act, e.post.scanner.phase with
  | .scan (.fetch _), .fetched _ results => some results
  | _, _ => none

/-- A block in hand is matched, or lost with the process. -/
def putsDown (e : Step) : Bool :=
  match e.act with
  | .scanMatch | .crash _ _ => true
  | _ => false

section Runs

variable {env : RelayerEnv} {log : List Step} {s s' : Relayer} {act : Act}

theorem probesNew_of_run (h : (relayer env).Run log s) : s.tick.ProbesNew s.shared.live := by
  refine h.reachable.invariant (I := fun s => s.tick.ProbesNew s.shared.live) ?_ ?_
  · rintro _ ⟨now, store, height, r, a, rfl⟩ kept newly hk
    cases hk
  · intro s act s' ih hs
    rcases tick_cases (steps_of_step hs) with ⟨_, -, ht⟩ | ⟨ht, hlive, -⟩ | ⟨ht, -⟩
    · exact Tick.probesNew_step ht ih
    · rw [ht, hlive]
      exact ih
    · intro kept newly hk
      rw [ht] at hk
      cases hk

theorem outstanding_of_enters (h : Steps env s act s') (hp : s.tick.ProbesNew s.shared.live)
    {a : String} (he : enters a ⟨s, act, s'⟩) : a ∈ s'.tick.outstanding := by
  obtain ⟨hn, ha⟩ := he
  simp only [] at hn ha
  rcases tick_cases h with ⟨_, -, ht⟩ | ⟨-, hlive, -⟩ | ⟨-, hlive, -⟩
  · generalize s'.tick = t' at ht ⊢
    generalize s.tick = t at hp ht
    generalize s'.shared = r' at ha ht
    cases ht with
    | swap => exact hp _ _ rfl a ha hn
    | clear => exact absurd (runOp_live ▸ ha) hn
    | _ => exact absurd ha hn
  · exact absurd (hlive ▸ ha) hn
  · simp [hlive] at ha

/-- The send that a deposit's address is owed, or the block it is in. -/
def Covered (a : String) (results : BlockResults) (l : List Step) (s : Relayer) : Prop :=
  Since (fun e => sent e = some a) (enters a) l ∨ a ∈ s.tick.outstanding
    ∨ a ∈ s.scanner.outstanding
    ∨ (∃ target, s.scanner.phase = .fetched target results) ∧ ∀ e ∈ l, ¬ putsDown e

theorem covered_step (h : Steps env s act s') {a : String} {results : BlockResults}
    {l : List Step} (ha : a ∈ s.shared.live) (ha' : a ∈ s'.shared.live)
    (hd : a ∈ (extractDeposits results).map Deposit.recipient) (hc : Covered a results l s) :
    Covered a results (⟨s, act, s'⟩ :: l) s' := by
  have hnot : ¬ enters a ⟨s, act, s'⟩ := fun he => he.1 ha
  have hcrash : ∀ r b, act ≠ .crash r b := by
    rintro r b rfl
    cases h
    simp [new, RelayerState.new] at ha'
  rcases hc with hc | hc | hc | ⟨⟨target, hp⟩, hl⟩
  · exact .inl (.inr ⟨hnot, hc⟩)
  · rcases tick_cases h with ⟨tact, rfl, ht⟩ | ⟨ht, -⟩ | ⟨-, -, r, b, hr⟩
    · rcases Tick.outstanding_step ht hc with hs | hs
      · exact .inl (.inl hs)
      · exact .inr (.inl hs)
    · exact .inr (.inl (ht ▸ hc))
    · exact absurd hr (hcrash r b)
  · cases h with
    | scan hne _ hs =>
      rcases Scanner.outstanding_step hs hne hc with hs | hs
      · exact .inl (.inl hs)
      · exact .inr (.inr (.inl hs))
    | scanMatch hs =>
      cases hs with
      | matchLive hp => simp [Scanner.outstanding, hp] at hc
    | crash => exact absurd rfl (hcrash _ _)
    | _ => exact .inr (.inr (.inl hc))
  · cases h with
    | scan hne hm hs =>
      cases hs with
      | matchLive => exact absurd rfl (hm _)
      | crash => exact absurd rfl hne
      | _ => simp_all
    | scanMatch hs =>
      cases hs with
      | matchLive hp' =>
        -- the block in hand is matched while its address is live
        obtain ⟨-, rfl⟩ := Scanner.Phase.fetched.inj (hp.symm.trans hp')
        refine .inr (.inr (.inl ?_))
        obtain ⟨d, hmem, rfl⟩ := List.mem_map.1 hd
        exact List.mem_map.2 ⟨d, List.mem_filter.2 ⟨hmem, by simpa using ha⟩, rfl⟩
    | crash => exact absurd rfl (hcrash _ _)
    | _ =>
      refine .inr (.inr (.inr ⟨⟨target, hp⟩, ?_⟩))
      simp only [List.mem_cons, forall_eq_or_imp]
      exact ⟨by simp [putsDown], hl⟩

/-- A block, once fetched, covers each live address it has a deposit for. -/
theorem covered_of_run {l₁ l₂ : List Step} {f : Step} {results : BlockResults} {a : String}
    (h : (relayer env).Run (l₁ ++ f :: l₂) s) (hf : fetched f = some results)
    (hd : a ∈ (extractDeposits results).map Deposit.recipient) :
    a ∈ s.shared.live → Covered a results l₁ s := by
  refine h.after (I := fun l s => a ∈ s.shared.live → Covered a results l s) ?_ ?_
  · intro _
    refine .inr (.inr (.inr ⟨?_, by simp⟩))
    simp only [fetched] at hf
    split at hf
    · rename_i hp
      exact ⟨_, Option.some.inj hf ▸ hp⟩
    · cases hf
  · intro l s act s' hr ih hs ha
    have hstep := steps_of_step hs
    by_cases he : enters a ⟨s, act, s'⟩
    · exact .inr (.inl (outstanding_of_enters hstep (probesNew_of_run hr) he))
    · have hpre : a ∈ s.shared.live := by
        by_contra hn
        exact he ⟨hn, ha⟩
      exact covered_step hstep hpre ha hd (ih hpre)

end Runs

def depositTo (addr : String) : BlockResults where
  txsResults := some [[⟨"transfer", [⟨some "recipient", some addr⟩]⟩]]
  finalizeBlockEvents := []
  beginBlockEvents := none
  endBlockEvents := none

/-- A block is scanned before its address is listed, the process restarts, and the first tick lists
the address. -/
def listedLate : List Act :=
  [.scan (.load true), .scan (.bootStore true), .scan (.connect true),
    .scan (.tip (some Scanner.exampleTip)), .scan (.fetch (some (depositTo "celestia1a"))),
    .scanMatch, .scan (.advance true), .crash true true]
    ++ listingTick [listed "celestia1a"] ["celestia1a"] ++ [.tick .probe]

end Relayer

end ForwardingRelayer
