import Mathlib.Data.List.Infix
import ForwardingRelayer.Proofs.Activity
import ForwardingRelayer.Proofs.Mirror
import ForwardingRelayer.Proofs.Network

/-!
# An active address and the age limit

The age limit is for addresses without activity. A record of activity leaves an entry and a row,
which calls and restarts keep, so the entry goes only with a tick that takes it: one that retires
the address, before its `DELETE` is sent, or that prunes without it. The next list has the row
again if the `DELETE` has not removed it by then, and the tick finds the address never active.
-/

namespace ForwardingRelayer

open RelayerState

/-- The activity of an address is known, and stored so that it loads. -/
structure Active (a : String) (s : RelayerState) : Prop where
  entry : a ∈ s.lastActivity
  row : ∃ ts, s.store.addressActivity.lookup a = some (some ts)

def RetireReason.isUnfunded : RetireReason → Bool
  | .unfunded _ => true
  | .inactive _ => false

section Steps

variable {env : RelayerEnv} {now : ℕ} {a : String} {s s' : RelayerState}

theorem Active.of_same (h : Active a s) (hsame : SameFor a s s') : Active a s' := by
  obtain ⟨ts, hts⟩ := h.row
  refine ⟨?_, ts, hsame.activityStored.trans hts⟩
  rw [← AList.lookup_isSome, hsame.lastActivity, AList.lookup_isSome]
  exact h.entry

theorem Active.runOp (h : Active a s) {op : Op} (hop : op.takesActivity = false) {now : ℤ} :
    Active a (s.runOp now true a op).1 := by
  obtain ⟨ts, hts⟩ := h.row
  cases op with
  | storeActivity ts' => exact ⟨h.entry, ts', AList.lookup_insert _⟩
  | insertActivity ts' => exact ⟨(AList.mem_insert _).2 (.inl rfl), ts, hts⟩
  | removeActivity | deleteActivity => cases hop
  | _ => exact ⟨h.entry, ts, hts⟩

theorem Active.call (h : Active a s) {call call' : Call} {input : Call.Input}
    (hcall : Call.Steps env now a s call input s' call') (hth : input ≠ .go false)
    (hn : ∀ op ∈ call.ops, op.takesActivity = false) : Active a s' := by
  cases hcall with
  | @record _ op ops stored | @close _ op ops stored =>
    obtain rfl : stored = true := by simpa using hth
    exact h.runOp (hn op List.mem_cons_self)
  | quoted => exact h.of_same ⟨rfl, rfl, rfl, rfl, rfl⟩
  | _ => exact h

/-- The step takes the activity of `a` from the map, or from the table. -/
def Tick.takesActivity (a : String) : Tick → Tick.Act → Bool
  | .clear _ _ addr (op :: _) _, .clear _ => addr == a && op.takesActivity
  | .pruneActivity d _, .pruneActivity => decide (a ∉ d.kept)
  | .pruneStore d _, .pruneStore _ _ => decide (a ∉ d.kept)
  | _, _ => false

theorem Active.tick (h : Active a s) {t t' : Tick} {act : Tick.Act}
    (ht : Tick.Steps env now s t act s' t') (hth : act.through = true)
    (hn : t.takesActivity a act = false) : Active a s' := by
  obtain ⟨ts, hts⟩ := h.row
  cases ht with
  | @clear d newly addr op ops rest stored =>
    obtain rfl : stored = true := hth
    by_cases ha : addr = a
    · subst ha
      exact h.runOp (by simpa [Tick.takesActivity] using hn)
    · exact h.of_same (.runOp (Ne.symm ha))
  | @pruneActivity d newly =>
    have hk : a ∈ d.kept := by simpa [Tick.takesActivity] using hn
    refine ⟨?_, ts, hts⟩
    rw [← AList.lookup_isSome, AList.lookup_retain, if_pos (decide_eq_true hk),
      AList.lookup_isSome]
    exact h.entry
  | @pruneStore d newly leftRetry leftActivity =>
    have hk : a ∈ d.kept := by simpa [Tick.takesActivity] using hn
    refine ⟨h.entry, ts, ?_⟩
    simp [RetryStore.retain, AList.lookup_retain, hk, hts]
  | _ => exact ⟨h.entry, ts, hts⟩

/-- Where a tick finds an address unfunded, its snapshot has no activity of it. -/
theorem lookup_of_unfunded {lastActivity : AList fun _ : String => ℤ} {t : ℤ}
    {requests : List ForwardingRequest} {p : ForwardingRequest × RetireReason}
    (hp : p ∈ Decision.retire env lastActivity t requests) (hr : p.2.isUnfunded = true) :
    p.1 ∈ requests ∧ lastActivity.lookup p.1.forwardAddr = none := by
  obtain ⟨req, hreq, hmap⟩ := List.mem_filterMap.1 hp
  obtain ⟨reason, hreason, rfl⟩ := Option.map_eq_some_iff.1 hmap
  refine ⟨hreq, ?_⟩
  unfold retirementReason at hreason
  split at hreason
  · exact Option.map_eq_none_iff.1 ‹_›
  · rw [Option.ite_none_right_eq_some, Option.some.injEq] at hreason
    obtain ⟨-, rfl⟩ := hreason
    cases hr

end Steps

namespace Relayer

def takesActivity (a : String) (e : Step) : Bool :=
  match e.act with
  | .tick act => e.pre.tick.takesActivity a act
  | _ => false

/-- A process starts without the activity of the last one. -/
def startsInactive (e : Step) : Bool :=
  match e.act with
  | .crash _ activityLoaded => !activityLoaded
  | _ => false

/-- A record that completes finds the row it has written. -/
def RecordsStored (a : String) (e : Step) : Prop :=
  ∀ ts, recordsAt a e = some ts →
    e.pre.shared.store.addressActivity.lookup a = some (some ts)

section Step

variable {env : RelayerEnv} {log : List Step} {s s' : Relayer} {act : Act} {a : String}

theorem active_of_recordsAt (hr : (relayer env).Run log s) (h : Steps env s act s') {ts : ℤ}
    (hts : recordsAt a ⟨s, act, s'⟩ = some ts) (hstored : RecordsStored a ⟨s, act, s'⟩) :
    Active a s'.shared := by
  have hrow := hstored ts hts
  obtain ⟨hentry, -⟩ := lookup_of_recordsAt hr h hts
  refine ⟨AList.lookup_isSome.1 (by rw [hentry]; rfl), ts, ?_⟩
  obtain ⟨i, stored, call, hact, hat, hnext⟩ := recordsAt_cases hts
  simp only [] at hact hat
  rw [hact] at h
  obtain ⟨call', -, hcall, -⟩ := call_of_callAt hr.reachable h hat
  generalize s'.shared = shared' at hcall ⊢
  cases hcall with
  | record | close =>
    obtain rfl := Option.some.inj hnext
    exact hrow
  | _ => cases hnext

theorem active_step (hr : (relayer env).Run log s) (h : Steps env s act s')
    (hth : writesThrough ⟨s, act, s'⟩ = true) (hl : startsInactive ⟨s, act, s'⟩ = false)
    (hn : takesActivity a ⟨s, act, s'⟩ = false) (hs : Active a s.shared) :
    Active a s'.shared := by
  cases seen_of_steps hr.reachable h a with
  | @call i call call' input hact hat hcalls hcalls' hcall htick _ =>
    have hgo : input ≠ .go false := by
      rintro rfl
      simp [writesThrough, hact] at hth
    exact hs.call hcall hgo (takesActivity_calls hr call (by rw [hcalls]; exact List.mem_cons_self))
  | start _ _ _ hshared => exact hshared ▸ hs
  | finish _ _ _ _ hshared => exact hshared ▸ hs
  | @tick tact hact ht hcalls _ =>
    have hthrough : tact.through = true := through_of_writesThrough (hact ▸ hth)
    have hkeep : s.tick.takesActivity a tact = false := by simpa [takesActivity, hact] using hn
    exact hs.tick ht hthrough hkeep
  | other _ _ _ hsame => exact hs.of_same hsame
  | @crash r b hact hs' =>
    obtain rfl : b = true := by simpa [startsInactive, hact] using hl
    obtain ⟨ts, hts⟩ := hs.row
    subst hs'
    refine ⟨AList.lookup_isSome.1 ?_, ts, hts⟩
    simp [new, RelayerState.new, RetryStore.loadActivity, hts]

end Step

end Relayer

namespace Network

section Events

variable {ι : Type} [DecidableEq ι] (i : ι) (a : String) (e : Step ι)

/-- A relayer completes `record_activity(a)`. -/
def records : Bool := (relayerStep i e).any fun c => (Relayer.recordsAt a c).isSome

def takesActivity : Bool := (relayerStep i e).any (Relayer.takesActivity a)

/-- The backend removes `a`'s row. -/
def removesRow : Bool := (removed e).any fun r => r.forwardAddr == a

/-- The backend answers a relayer's `GET`, with `a` in the list. -/
def listsRow : Bool :=
  match e.act with
  | .serve j => decide (j = i) && e.pre.backend.rows.any fun r => r.forwardAddr == a
  | _ => false

/-- A relayer's tick finds `a` past the age limit of an address without activity. -/
def judgesUnfunded : Bool :=
  (relayerStep i e).any fun c => (Relayer.decided c).any fun d =>
    d.toRetire.any fun p => p.1.forwardAddr == a && p.2.isUnfunded

end Events

/-- Once a record of `a`'s activity has completed, `a` is not found unfunded, until its row is
removed. -/
def StaysActive {ι : Type} [DecidableEq ι] (i : ι) (a : String) (log : List (Step ι)) : Prop :=
  ∀ l₁ x l₂, log = l₁ ++ x :: l₂ → judgesUnfunded i a x = true →
    ¬ Since (fun e => records i a e) (fun e => removesRow a e) l₂

/-- Where a relayer is answered with `a`'s row, no tick of it has taken activity recorded for the
row, with none recorded since. -/
def RemovedBeforeListed {ι : Type} [DecidableEq ι] (i : ι) (a : String) (log : List (Step ι)) :
    Prop :=
  ∀ l₁ g l₂, log = l₁ ++ g :: l₂ → listsRow i a g = true →
    ¬ Undone (fun e => records i a e) (fun e => removesRow a e) (fun e => takesActivity i a e) l₂

section Runs

variable {ι : Type} [DecidableEq ι] {C : Crypto} {env : ι → RelayerEnv} {s s' : Network ι}
  {act : Act ι} {log : List (Step ι)} {i : ι} {a : String}

theorem active_of_run (h : (network C env).Run log s)
    (hth : ∀ e ∈ log, ∀ c ∈ relayerStep i e, Relayer.writesThrough c = true)
    (hl : ∀ e ∈ log, ∀ c ∈ relayerStep i e, Relayer.startsInactive c = false)
    (hstored : ∀ e ∈ log, ∀ c ∈ relayerStep i e, Relayer.RecordsStored a c)
    (hsince : Since (fun e => records i a e) (fun e => takesActivity i a e) log) :
    Active a (s.relayers i).shared := by
  refine h.since (I := fun log s =>
    (∀ e ∈ log, ∀ c ∈ relayerStep i e, Relayer.writesThrough c = true) →
    (∀ e ∈ log, ∀ c ∈ relayerStep i e, Relayer.startsInactive c = false) →
    (∀ e ∈ log, ∀ c ∈ relayerStep i e, Relayer.RecordsStored a c) →
    Active a (s.relayers i).shared) ?_ ?_ hsince hth hl hstored
  · intro log s act s' hr hs hrec _ _ hstored
    rw [List.forall_mem_cons] at hstored
    obtain ⟨c, hc, hrec⟩ := (Option.any_eq_true _ _).1 hrec
    obtain ⟨ts, hts⟩ := Option.isSome_iff_exists.1 hrec
    rcases relayerStep_of_steps (steps_of_step hs) i with ⟨ract, hstep, hsteps⟩ | ⟨hnone, -⟩
    · obtain rfl := Option.some.inj (hstep.symm.trans hc)
      exact Relayer.active_of_recordsAt (relayer_run hr i) hsteps hts (hstored.1 _ hc)
    · rw [hnone] at hc
      cases hc
  · intro log s act s' hr ih hs hn hth hl hstored
    rw [List.forall_mem_cons] at hth hl hstored
    have hactive := ih hth.2 hl.2 hstored.2
    rcases relayerStep_of_steps (steps_of_step hs) i with ⟨ract, hstep, hsteps⟩ | ⟨-, heq⟩
    · have hkeep : Relayer.takesActivity a ⟨s.relayers i, ract, s'.relayers i⟩ = false := by
        simpa [takesActivity, hstep] using hn
      exact Relayer.active_step (relayer_run hr i) hsteps (hth.1 _ hstep) (hl.1 _ hstep) hkeep
        hactive
    · rwa [heq]

/-- The list a tick has just been given, or is to be, has `a` on it. -/
def HasListed (a : String) (l : Option Listing) (t : Tick) : Prop :=
  (∃ L, l = some L ∧ a ∈ L.requests.map ForwardingRequest.forwardAddr)
    ∧ (t = .start ∨ (∃ requests, t = .fetched requests)
      ∨ ∃ now requests, t = .snapshot now requests)

theorem hasListed_of_steps {renv : RelayerEnv} {r r' : Relayer} {l : Option Listing}
    {ract : Relayer.Act} (h : Relayer.Steps renv r ract r')
    (hs : HasListed a (listingAfter l ract) r'.tick) :
    HasListed a l r.tick ∧ Relayer.takesActivity a ⟨r, ract, r'⟩ = false := by
  obtain ⟨⟨L, hL, ha⟩, ht⟩ := hs
  have hl : ∃ L, l = some L ∧ a ∈ L.requests.map ForwardingRequest.forwardAddr :=
    ⟨L, listing_of_after hL, ha⟩
  rcases Relayer.tick_cases h with ⟨tact, rfl, hstep⟩ | ⟨heq, -, h1, -⟩ | ⟨-, -, b, c, rfl⟩
  · simp only [Relayer.takesActivity]
    generalize r.tick = t, r'.tick = t', r'.shared = shared' at hstep ht ⊢
    cases hstep with
    | fetch => exact ⟨⟨hl, .inl rfl⟩, rfl⟩
    | readTime => exact ⟨⟨hl, .inr (.inl ⟨_, rfl⟩)⟩, rfl⟩
    | wake => cases hL
    | _ => simp at ht
  · refine ⟨⟨hl, heq ▸ ht⟩, ?_⟩
    cases ract with
    | tick tact => exact absurd rfl (h1 tact)
    | _ => rfl
  · cases hL

/-- Between an answer and the decision no activity is taken. -/
theorem listed_of_run (h : (network C env).Run log s)
    (hs : HasListed a (s.listing i) (s.relayers i).tick) :
    Since (fun e => listsRow i a e) (fun e => takesActivity i a e) log := by
  refine h.since_of (I := fun s => HasListed a (s.listing i) (s.relayers i).tick) ?_ ?_ hs
  · rintro s ⟨-, -, hl, -⟩ ⟨⟨L, hL, -⟩, -⟩
    rw [hl] at hL
    cases hL
  · intro log s act s' hr hs hlisted
    cases seen_of_steps (steps_of_step hs) i with
    | serve hact _ _ _ hl =>
      obtain ⟨⟨L, hL, ha⟩, -⟩ := hlisted
      rw [hl, Option.some.injEq] at hL
      subst hL
      obtain ⟨r, hr, hra⟩ := List.mem_map.1 ha
      refine .inl ?_
      simp only [listsRow, hact, decide_true, Bool.true_and, List.any_eq_true, beq_iff_eq]
      exact ⟨r, BackendStorage.mem_listRequests.1 hr, hra⟩
    | @relayer ract hact _ hsteps hl =>
      rw [hl] at hlisted
      obtain ⟨hpre, hkeep⟩ := hasListed_of_steps hsteps hlisted
      refine .inr ⟨?_, hpre⟩
      simp [takesActivity, relayerStep, Machine.follow, relayerAct, hact, hkeep]
    | other _ hne hrel hl =>
      rw [hrel, hl] at hlisted
      refine .inr ⟨?_, hlisted⟩
      simp [takesActivity, relayerStep_eq_none hne]

/-- A tick finds `a` unfunded by a list that has it, and by a snapshot without its activity. -/
theorem listed_of_judges (h : (network C env).Run log s) (hs : s.step C env act = some s')
    (hj : judgesUnfunded i a ⟨s, act, s'⟩ = true) :
    HasListed a (s.listing i) (s.relayers i).tick
      ∧ a ∉ (s.relayers i).shared.lastActivity := by
  obtain ⟨c, hc, hj⟩ := (Option.any_eq_true _ _).1 hj
  obtain ⟨d, hd, hj⟩ := (Option.any_eq_true _ _).1 hj
  obtain ⟨p, hp, hj⟩ := List.any_eq_true.1 hj
  rw [Bool.and_eq_true, beq_iff_eq] at hj
  obtain ⟨rfl, hreason⟩ := hj
  rcases relayerStep_of_steps (steps_of_step hs) i with ⟨ract, hstep, hsteps⟩ | ⟨hnone, -⟩
  · obtain rfl := Option.some.inj (hstep.symm.trans hc)
    unfold Relayer.decided at hd
    split at hd
    · rename_i hact ht
      simp only [] at hact ht
      obtain rfl := Option.some.inj hd
      subst hact
      have htick := Relayer.tick_steps hsteps
      have hfrom := (known_of_run h).tick i
      rw [ht] at htick
      generalize (s.relayers i).tick = t, (s'.relayers i).shared = shared' at htick hfrom ⊢
      cases htick with
      | @decide now requests =>
        obtain ⟨hmem, hnone⟩ := lookup_of_unfunded hp hreason
        obtain ⟨L, hL, rfl⟩ := hfrom
        refine ⟨⟨⟨L, hL, List.mem_map.2 ⟨_, hmem, rfl⟩⟩, .inr (.inr ⟨_, _, rfl⟩)⟩, ?_⟩
        exact AList.lookup_eq_none.1 hnone
    · cases hd
  · rw [hnone] at hc
    cases hc

theorem takesActivity_of_listsRow {e : Step ι} (h : listsRow i a e = true) :
    ¬ takesActivity i a e = true := by
  unfold listsRow at h
  split at h
  · rename_i hact
    simp [takesActivity, relayerStep, Machine.follow, relayerAct, hact]
  · cases h

end Runs

/-- Where the writes of a relayer go through, its restarts load the activity, and its records of
activity find their row when they complete: if the backend has removed `a`'s row by the time it
answers the next `GET`, whenever a tick has taken `a`'s activity, an active address is not found
unfunded. -/
theorem stays_active {ι : Type} [DecidableEq ι] {C : Crypto} {env : ι → RelayerEnv}
    {log : List (Step ι)} {s : Network ι} {i : ι} {a : String}
    (h : (network C env).Run log s)
    (hth : ∀ e ∈ log, ∀ c ∈ relayerStep i e, Relayer.writesThrough c = true)
    (hl : ∀ e ∈ log, ∀ c ∈ relayerStep i e, Relayer.startsInactive c = false)
    (hstored : ∀ e ∈ log, ∀ c ∈ relayerStep i e, Relayer.RecordsStored a c)
    (hremoved : RemovedBeforeListed i a log) : StaysActive i a log := by
  intro l₁ x l₂ hlog hj hactive
  obtain ⟨hrun, hstep⟩ := h.of_mem hlog
  obtain ⟨hlisted, hnone⟩ := listed_of_judges hrun hstep hj
  obtain ⟨k₁, g, k₂, rfl, hg, hk⟩ := Since.iff_split.1 (listed_of_run hrun hlisted)
  have hmem : ∀ e ∈ k₁ ++ g :: k₂, e ∈ log := fun e he => by
    rw [hlog]
    exact List.mem_append_right _ (List.mem_cons_of_mem _ he)
  refine hnone (active_of_run hrun (fun e he => hth e (hmem e he)) (fun e he => hl e (hmem e he))
    (fun e he => hstored e (hmem e he)) (Undone.since (fun hu => ?_) hactive)).entry
  have hgk : ∀ y ∈ k₁ ++ [g], ¬ takesActivity i a y = true := by
    intro y hy
    rcases List.mem_append.1 hy with hy | hy
    · exact hk y hy
    · rw [List.mem_singleton.1 hy]
      exact takesActivity_of_listsRow hg
  refine hremoved (l₁ ++ x :: k₁) g k₂ (by simp [hlog]) hg (Undone.of_append hgk ?_)
  simpa using hu

section Example

def relays : List Relayer.Act → List (Act Unit) := List.map (.relayer ())

/-- The call finds a balance, records it and forwards it. -/
def fundedCall : List Call.Input :=
  [.go true, .go true, .balances (some [⟨"utia", "1"⟩]), .go true, .go true, .go true, .go true,
    .go true, .quoted (.ok ⟨none⟩), .submitted true, .go true, .go true, .go true, .go true,
    .go true, .go true]

def fundedTick : List Relayer.Act :=
  Relayer.listingTick [postedRow] [postedRow.forwardAddr] ++ .tick .probe :: Relayer.startCall
    ++ fundedCall.map (.forward 0)

/-- The posted row is listed and its address funded; after a minute it is retired for inactivity,
and its `DELETE` is sent. -/
def fundedThenRetired : List (Act Unit) :=
  postPlain :: .serve () :: relays fundedTick
    ++ relays [.finish 0, .dispatch (.remove 0), .dispatch (.release 0), .tick .probed,
      .tick (.collect []), .tick .finish, .elapse (61 * 10 ^ 9), .tick .wake]
    ++ retiringTick ()

/-- The rest of that tick, and the next one up to its decision. -/
def listedAgain : List (Act Unit) :=
  relays [.tick .deleted, .tick .retired, .tick .pruneRetry, .tick .pruneActivity,
      .tick (.pruneStore [] []), .tick .swap, .tick .probed, .tick (.collect []), .tick .finish,
      .tick .wake]
    ++ .serve () :: relays [.tick (.fetch (some [postedRow])), .tick .readTime, .tick .decide]

/-- Its writes go through, its process is not lost, and its records find their row. -/
def proceeds (a : String) (e : Step Unit) : Bool :=
  (relayerStep () e).all fun c => Relayer.writesThrough c && !Relayer.crashes c
    && (Relayer.recordsAt a c).all fun ts =>
      c.pre.shared.store.addressActivity.lookup a == some (some ts)

theorem proceeds_iff {a : String} {e : Step Unit} : proceeds a e = true ↔
    ∀ c ∈ relayerStep () e, Relayer.writesThrough c = true ∧ Relayer.crashes c = false
      ∧ Relayer.RecordsStored a c := by
  simp [proceeds, Option.all_eq_true, Relayer.RecordsStored, and_assoc]

theorem startsInactive_of_not_crashes {e : Relayer.Step} (h : Relayer.crashes e = false) :
    Relayer.startsInactive e = false := by
  unfold Relayer.startsInactive
  split
  · rename_i hact
    simp [Relayer.crashes, hact] at h
  · rfl

/-- The `DELETE` arrives, and the address is posted again before the next list. -/
theorem stays_active_removed : ∃ log s, (network .standard fun _ : Unit => networkEnv).Run log s
    ∧ (∃ e ∈ log, records () postedRow.forwardAddr e = true)
    ∧ (∃ e ∈ log, judgesUnfunded () postedRow.forwardAddr e = true)
    ∧ StaysActive () postedRow.forwardAddr log := by
  obtain ⟨log, s, hrun, h⟩ := exists_run_of_posts
    (fundedThenRetired ++ [.deliver 0, postPlain] ++ listedAgain) (1735689600 * 10 ^ 9)
    (fun log _ => log.all (proceeds postedRow.forwardAddr)
      && log.any (records () postedRow.forwardAddr)
      && log.any (judgesUnfunded () postedRow.forwardAddr)
      && log.tails.all fun l => match l with
        | g :: l => !listsRow () postedRow.forwardAddr g
          || !decide (Undone (fun e => records () postedRow.forwardAddr e)
            (fun e => removesRow postedRow.forwardAddr e)
            (fun e => takesActivity () postedRow.forwardAddr e) l)
        | [] => true)
    rfl (by decide +kernel)
  simp only [Bool.and_eq_true, List.all_eq_true, List.any_eq_true] at h
  obtain ⟨⟨⟨hall, hrec⟩, hjudge⟩, htails⟩ := h
  have hproceeds := fun e he => proceeds_iff.1 (hall e he)
  refine ⟨log, s, hrun, hrec, hjudge, stays_active hrun (fun e he c hc => (hproceeds e he c hc).1)
    (fun e he c hc => startsInactive_of_not_crashes (hproceeds e he c hc).2.1)
    (fun e he c hc => (hproceeds e he c hc).2.2) ?_⟩
  intro l₁ g l₂ hlog hg
  have hsuffix := htails (g :: l₂) ((List.mem_tails _ _).2 ⟨l₁, hlog.symm⟩)
  simpa [hg] using hsuffix

/-- The last step finds the posted row's address unfunded, though a forward of it is recorded and no
step has removed the row since. -/
def foundUnfunded : List (Step Unit) → Bool
  | e :: log => judgesUnfunded () postedRow.forwardAddr e
    && decide (Since (fun e => records () postedRow.forwardAddr e)
      (fun e => removesRow postedRow.forwardAddr e) log)
  | [] => false

/-- The `DELETE` does not arrive. The address is listed again, and is found unfunded, a deposit
having been forwarded for it. -/
theorem funded_found_unfunded : ∃ log s, (network .standard fun _ : Unit => networkEnv).Run log s
    ∧ (∀ e ∈ log, ∀ c ∈ relayerStep () e, Relayer.writesThrough c = true
      ∧ Relayer.crashes c = false ∧ Relayer.RecordsStored postedRow.forwardAddr c)
    ∧ ¬ StaysActive () postedRow.forwardAddr log := by
  obtain ⟨log, s, hrun, h⟩ := exists_run_of_posts (fundedThenRetired ++ listedAgain)
    (1735689600 * 10 ^ 9)
    (fun log _ => log.all (proceeds postedRow.forwardAddr) && foundUnfunded log)
    rfl (by decide +kernel)
  rw [Bool.and_eq_true, List.all_eq_true] at h
  refine ⟨log, s, hrun, fun e he => proceeds_iff.1 (h.1 e he), fun hstays => ?_⟩
  obtain ⟨-, h⟩ := h
  cases log with
  | nil => cases h
  | cons e log =>
    rw [foundUnfunded, Bool.and_eq_true, decide_eq_true_eq] at h
    exact hstays [] e log rfl h.1 h.2

end Example

end Network

end ForwardingRelayer
