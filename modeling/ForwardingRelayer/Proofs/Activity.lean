import ForwardingRelayer.Proofs.Chrono
import ForwardingRelayer.Proofs.Retirement

/-!
# Retirement and the newest activity

A tick that takes its snapshot after `record_activity` has completed sees the new timestamp, or a
later one, and keeps the address within the limit. One that has already decided to retire the
address goes through with it. Idle time counts in whole seconds from the clock reading at the start
of `record_activity`, which is why that reading may be up to a second old.
-/

namespace ForwardingRelayer

open RelayerState

section Call

variable {env : RelayerEnv} {now : ℕ} {a : String} {s s' : RelayerState} {call call' : Call}
  {input : Call.Input}

/-- The ops that take the activity of an address away. -/
def RelayerState.Op.takesActivity : Op → Bool
  | .removeActivity | .deleteActivity => true
  | _ => false

def Call.ops : Call → List Op
  | .record _ ops | .close _ ops => ops
  | _ => []

theorem takesActivity_runOp {now : ℤ} {stored : Bool} {op : Op} {addr : String} :
    ∀ op' ∈ (s.runOp now stored addr op).2, op'.takesActivity = false := by
  cases op <;> simp [runOp, Op.takesActivity]

theorem Call.ops_step (h : Call.Steps env now a s call input s' call')
    (hn : ∀ op ∈ call.ops, op.takesActivity = false) :
    ∀ op ∈ call'.ops, op.takesActivity = false := by
  cases h with
  | record | close =>
    intro op hop
    rcases List.mem_append.1 hop with hop | hop
    · exact takesActivity_runOp op hop
    · exact hn op (List.mem_cons_of_mem _ hop)
  | queryFailed | empty | funded | feeFailed | submitted | submitFailed =>
    simp [ops, noteFailure, clearRetryState, recordActivity, Op.takesActivity]
  | _ => simp [ops, forwardCall]

/-- A call leaves the activity of its address, or records it. -/
theorem Call.activity_step (h : Call.Steps env now a s call input s' call')
    (hn : ∀ op ∈ call.ops, op.takesActivity = false) :
    s'.lastActivity.lookup a = s.lastActivity.lookup a
      ∨ ∃ stored ts, input = .go stored ∧ call.nextOp = some (.insertActivity ts)
        ∧ s'.lastActivity.lookup a = some ts := by
  cases h with
  | @record _ op _ stored | @close _ op _ stored =>
    cases op with
    | insertActivity ts => exact .inr ⟨stored, ts, rfl, rfl, AList.lookup_insert _⟩
    | removeActivity => exact absurd (hn .removeActivity List.mem_cons_self) (by decide)
    | storeActivity | deleteActivity | storeRetry | deleteRetry =>
      cases stored <;> exact .inl rfl
    | _ => exact .inl rfl
  | _ => exact .inl rfl

end Call

section Decide

variable {env : RelayerEnv} {a : String} {lastActivity : AList fun _ : String => ℤ} {now : ℤ}
  {requests : List ForwardingRequest}

theorem secondsSince_le {t now : ℤ} {n : ℕ} (h : now < t + (n + 1) * 10 ^ 9) :
    secondsSince (.ofNanos t) (.ofNanos now) ≤ n := by
  rw [secondsSince_ofNanos]
  by_cases hpos : 0 ≤ now - t
  · rw [Int.tdiv_eq_ediv_of_nonneg hpos]
    omega
  · have hflip : now - t = -(t - now) := by omega
    rw [hflip, Int.neg_tdiv, Int.tdiv_eq_ediv_of_nonneg (by omega)]
    omega

theorem toInt_toInt64 {x : UInt64} (h : x.toNat < 2 ^ 63) : x.toInt64.toInt = x.toNat := by
  have hlt : 2 * x.toBitVec.toNat < 2 ^ 64 := by
    rw [UInt64.toNat_toBitVec]
    omega
  exact BitVec.toInt_eq_toNat_of_lt hlt

/-- A tick does not retire an address that has been active within the limit. -/
theorem not_retired_of_recent (hmax : env.config.maxAddressInactivitySeconds.toNat < 2 ^ 63)
    {last : ℤ} (hl : lastActivity.lookup a = some last)
    (hrecent : now < last + (env.config.maxAddressInactivitySeconds.toNat + 1) * 10 ^ 9) :
    a ∉ (Decision.make env lastActivity now requests).retired := by
  intro ha
  obtain ⟨p, hp, rfl⟩ := List.mem_map.1 ha
  obtain ⟨req, -, hmap⟩ := List.mem_filterMap.1 hp
  obtain ⟨reason, hreason, rfl⟩ := Option.map_eq_some_iff.1 hmap
  have hle := secondsSince_le hrecent
  rw [hl] at hreason
  simp only [Option.map_some, retirementReason, Option.ite_none_right_eq_some] at hreason
  rw [toInt_toInt64 hmax] at hreason
  omega

end Decide

/-- The list a tick works from has `a` on it, and the tick has not decided to retire it. -/
def Tick.Spares (a : String) : Tick → Prop
  | .fetched requests | .snapshot _ requests =>
    a ∈ requests.map ForwardingRequest.forwardAddr
  | t => ∀ d, t.decision = some d → a ∈ d.kept ∧ a ∉ d.retired

theorem Tick.spares_step {env : RelayerEnv} {now : ℕ} {a : String} {s s' : RelayerState}
    {t t' : Tick} {act : Tick.Act} (h : Tick.Steps env now s t act s' t') (ht : t.Spares a)
    (hcond : ∀ d, t.decision = some d → ∀ b ∈ t.condemned, b ∈ d.retired)
    (hfetch : ∀ requests, act = .fetch (some requests) →
      a ∈ requests.map ForwardingRequest.forwardAddr)
    (hdecide : ∀ time requests, t = .snapshot time requests →
      a ∉ (Decision.make env s.lastActivity time requests).retired) :
    t'.Spares a ∧ s'.lastActivity.lookup a = s.lastActivity.lookup a := by
  cases h with
  | fetch => exact ⟨hfetch _ rfl, rfl⟩
  | readTime => exact ⟨ht, rfl⟩
  | @decide time requests =>
    have hnot := hdecide time requests rfl
    refine ⟨fun d hd => ?_, rfl⟩
    obtain rfl := Option.some.inj hd
    exact ⟨Decision.mem_keep.2 ⟨ht, hnot⟩, hnot⟩
  | compare | retireNext | delete | deleted | retired | pruneRetry | pruneStore => exact ⟨ht, rfl⟩
  | @clear d newly addr op ops rest stored =>
    have hne : a ≠ addr := by
      rintro rfl
      exact (ht d rfl).2 (hcond d rfl a List.mem_cons_self)
    exact ⟨ht, (SameFor.runOp hne).lastActivity⟩
  | @pruneActivity d newly =>
    refine ⟨ht, ?_⟩
    rw [AList.lookup_retain, if_pos (decide_eq_true (ht d rfl).1)]
  | _ => exact ⟨fun d hd => (by cases hd), rfl⟩

namespace Relayer

/-- The timestamp with which `record_activity(a)` completes. -/
def recordsAt (a : String) (e : Step) : Option ℤ :=
  match e.act with
  | .forward i (.go _) =>
    match (e.pre.callAt a i).bind Call.nextOp with
    | some (.insertActivity ts) => some ts
    | _ => none
  | _ => none

def listFetched (e : Step) : Option (List ForwardingRequest) :=
  match e.act with
  | .tick (.fetch result) => result
  | _ => none

/-- The list of the tick in progress has `a` on it. -/
def Lists (a : String) : Tick → Prop
  | .fetched requests | .snapshot _ requests =>
    a ∈ requests.map ForwardingRequest.forwardAddr
  | t => ∀ d, t.decision = some d → a ∈ d.kept ∨ a ∈ d.retired

/-- For as long after a record of activity as the limit, the lists having `a` on them, no tick
sends the `DELETE` for it or takes it off the live list. -/
def RespectsActivity (env : RelayerEnv) (a : String) (log : List Step) : Prop :=
  ∀ l₁ r l₂ ts, log = l₁ ++ r :: l₂ → recordsAt a r = some ts →
    (∀ e ∈ l₁, ¬ crashes e) → Lists a r.pre.tick →
    (∀ e ∈ l₁, ∀ requests, listFetched e = some requests →
      a ∈ requests.map ForwardingRequest.forwardAddr) →
    ∀ x ∈ l₁, x.pre.now ≤ r.pre.now + env.config.maxAddressInactivitySeconds.toNat * 10 ^ 9 →
      retires x ≠ some a
        ∧ ¬ (x.act = .tick .swap ∧ a ∈ x.pre.shared.live ∧ a ∉ x.post.shared.live)

/-- If the step completes `record_activity(a)`, its clock reading is less than a second old and no
tick has decided to retire `a`. -/
def RecordsInTime (a : String) (e : Step) : Prop :=
  ∀ ts, recordsAt a e = some ts →
    e.pre.now < ts + 10 ^ 9 ∧ ∀ d, e.pre.tick.decision = some d → a ∉ d.retired

/-- What holds of `a` while its record at `t` is within the limit. -/
structure Fresh (a : String) (t : ℕ) (s : Relayer) : Prop where
  last : ∃ last, s.shared.lastActivity.lookup a = some last ∧ t < last + 10 ^ 9
  tick : s.tick.Spares a

section Runs

variable {env : RelayerEnv} {log : List Step} {s s' : Relayer} {act : Act} {a : String}

theorem now_le_of_steps (h : Steps env s act s') : s.now ≤ s'.now := by
  cases h with
  | elapse => exact Nat.le_add_right _ _
  | _ => exact le_rfl

/-- The `now` of a tick is in the past. -/
theorem snapshot_le_now (h : (relayer env).Run log s) :
    ∀ time requests, s.tick = .snapshot time requests → time ≤ s.now := by
  refine h.reachable.invariant (I := fun s => ∀ time requests, s.tick = .snapshot time requests →
    time ≤ s.now) ?_ ?_
  · rintro _ ⟨_, _, _, _, _, rfl⟩ time requests ht
    cases ht
  · intro s act s' ih hs time requests hsnap
    have hnow := now_le_of_steps (steps_of_step hs)
    rcases tick_cases (steps_of_step hs) with ⟨tact, -, ht⟩ | ⟨ht, -⟩ | ⟨ht, -⟩
    · rw [hsnap] at ht
      generalize s.tick = t, s'.shared = shared' at ht
      cases ht
      omega
    · have := ih time requests (ht ▸ hsnap)
      omega
    · rw [ht] at hsnap
      cases hsnap

/-- Only ticks take it away. -/
theorem takesActivity_calls (h : (relayer env).Run log s) :
    ∀ call ∈ s.calls a, ∀ op ∈ call.ops, op.takesActivity = false := by
  refine h.invariant (I := fun _ s => ∀ call ∈ s.calls a, ∀ op ∈ call.ops,
    op.takesActivity = false) ?_ ?_
  · rintro _ ⟨_, _, _, _, _, rfl⟩ call hc
    simp [calls, new, Dispatcher.start] at hc
  · intro log s act s' hr ih hs call hc
    cases seen_of_steps hr.reachable (steps_of_step hs) a with
    | call _ _ hcalls hcalls' hcall =>
      rw [hcalls', List.mem_singleton] at hc
      rw [hc]
      exact Call.ops_step hcall (ih _ (by simp [hcalls]))
    | start _ _ hcalls' =>
      rw [hcalls', List.mem_singleton] at hc
      rw [hc]
      exact fun op hop => absurd hop List.not_mem_nil
    | finish _ _ _ hcalls' => simp [hcalls'] at hc
    | tick _ _ hcalls => exact ih call (hcalls ▸ hc)
    | other _ _ _ _ hcalls => exact ih call (hcalls ▸ hc)
    | crash _ hs' =>
      rw [hs'] at hc
      simp [calls, new, Dispatcher.start] at hc

theorem recordsAt_cases {e : Step} {ts : ℤ} (h : recordsAt a e = some ts) :
    ∃ i stored call, e.act = .forward i (.go stored) ∧ e.pre.callAt a i = some call
      ∧ call.nextOp = some (.insertActivity ts) := by
  unfold recordsAt at h
  split at h
  · rename_i i stored hact
    split at h
    · rename_i ts' hop
      obtain rfl := Option.some.inj h
      obtain ⟨call, hat, hnext⟩ := Option.bind_eq_some_iff.1 hop
      exact ⟨i, stored, call, hact, hat, hnext⟩
    · cases h
  · cases h

theorem lookup_of_recordsAt (hr : (relayer env).Run log s) (h : Steps env s act s') {ts : ℤ}
    (hts : recordsAt a ⟨s, act, s'⟩ = some ts) :
    s'.shared.lastActivity.lookup a = some ts ∧ s'.tick = s.tick := by
  obtain ⟨i, stored, call, hact, hat, hnext⟩ := recordsAt_cases hts
  simp only [] at hact hat
  rw [hact] at h
  obtain ⟨call', -, hcall, htick⟩ := call_of_callAt hr.reachable h hat
  refine ⟨?_, htick⟩
  generalize s'.shared = shared' at hcall ⊢
  cases hcall with
  | record | close =>
    obtain rfl := Option.some.inj hnext
    exact AList.lookup_insert _
  | _ => cases hnext

theorem fresh_step (hmax : env.config.maxAddressInactivitySeconds.toNat < 2 ^ 63) {t : ℕ}
    (hr : (relayer env).Run log s) (h : Steps env s act s') (hcrash : ¬ crashes ⟨s, act, s'⟩)
    (hin : RecordsInTime a ⟨s, act, s'⟩)
    (hfetch : ∀ requests, listFetched ⟨s, act, s'⟩ = some requests →
      a ∈ requests.map ForwardingRequest.forwardAddr)
    (ht : t ≤ s.now) (hnow : s.now ≤ t + env.config.maxAddressInactivitySeconds.toNat * 10 ^ 9)
    (hf : Fresh a t s) : Fresh a t s' := by
  obtain ⟨last, hlast, hlt⟩ := hf.last
  cases seen_of_steps hr.reachable h a with
  | @call i call call' input hact hat hcalls hcalls' hcall htick _ =>
    refine ⟨?_, htick ▸ hf.tick⟩
    have hnot := takesActivity_calls hr call (by rw [hcalls]; exact List.mem_cons_self)
    rcases Call.activity_step hcall hnot with heq | ⟨stored, ts, rfl, hop, hts⟩
    · exact ⟨last, heq.trans hlast, hlt⟩
    · have hrec : recordsAt a ⟨s, act, s'⟩ = some ts := by simp [recordsAt, hact, hat, hop]
      have hlate := (hin ts hrec).1
      simp only [] at hlate
      exact ⟨ts, hts, by omega⟩
  | start _ _ _ hshared htick => exact ⟨⟨last, hshared ▸ hlast, hlt⟩, htick ▸ hf.tick⟩
  | finish _ _ _ _ hshared htick => exact ⟨⟨last, hshared ▸ hlast, hlt⟩, htick ▸ hf.tick⟩
  | @tick tact hact htick _ _ =>
    have hlist : ∀ requests, tact = .fetch (some requests) →
        a ∈ requests.map ForwardingRequest.forwardAddr := by
      rintro requests rfl
      exact hfetch requests (by simp [listFetched, hact])
    have hkeep : ∀ time requests, s.tick = .snapshot time requests →
        a ∉ (Decision.make env s.shared.lastActivity time requests).retired := by
      intro time requests hsnap
      have htime := snapshot_le_now hr time requests hsnap
      exact not_retired_of_recent hmax hlast (by omega)
    obtain ⟨hspares, heq⟩ :=
      Tick.spares_step htick hf.tick (retired_of_condemned hr.reachable) hlist hkeep
    exact ⟨⟨last, heq.trans hlast, hlt⟩, hspares⟩
  | other _ _ _ hsame _ htick _ =>
    exact ⟨⟨last, hsame.lastActivity.trans hlast, hlt⟩, htick ▸ hf.tick⟩
  | crash hact => simp [crashes, hact] at hcrash

theorem spares_of_lists {t : Tick} (h : Lists a t)
    (hnot : ∀ d, t.decision = some d → a ∉ d.retired) : t.Spares a := by
  cases t with
  | fetched | snapshot => exact h
  | _ => exact fun d hd => ⟨(h d hd).resolve_right (hnot d hd), hnot d hd⟩

theorem fresh_of_run (hmax : env.config.maxAddressInactivitySeconds.toNat < 2 ^ 63)
    {l₁ l₂ : List Step} {r : Step} {ts : ℤ} (h : (relayer env).Run (l₁ ++ r :: l₂) s)
    (hin : ∀ e ∈ l₁ ++ r :: l₂, RecordsInTime a e) (hrec : recordsAt a r = some ts)
    (hcrash : ∀ e ∈ l₁, ¬ crashes e) (hlists : Lists a r.pre.tick)
    (hfetch : ∀ e ∈ l₁, ∀ requests, listFetched e = some requests →
      a ∈ requests.map ForwardingRequest.forwardAddr) :
    r.pre.now ≤ s.now
      ∧ (s.now ≤ r.pre.now + env.config.maxAddressInactivitySeconds.toNat * 10 ^ 9 →
        Fresh a r.pre.now s) := by
  obtain ⟨hrunr, hsr⟩ := h.of_mem rfl
  have hin₁ : ∀ e ∈ l₁, RecordsInTime a e := fun e he => hin e (List.mem_append_left _ he)
  refine h.after (I := fun l s => (∀ e ∈ l, RecordsInTime a e) → (∀ e ∈ l, ¬ crashes e) →
    (∀ e ∈ l, ∀ requests, listFetched e = some requests →
      a ∈ requests.map ForwardingRequest.forwardAddr) →
    r.pre.now ≤ s.now
      ∧ (s.now ≤ r.pre.now + env.config.maxAddressInactivitySeconds.toNat * 10 ^ 9 →
        Fresh a r.pre.now s)) ?_ ?_ hin₁ hcrash hfetch
  · intro _ _ _
    obtain ⟨hts, htick⟩ := lookup_of_recordsAt hrunr (steps_of_step hsr) hrec
    obtain ⟨hlt, hnot⟩ := hin r (by simp) ts hrec
    exact ⟨now_le_of_steps (steps_of_step hsr),
      fun _ => ⟨⟨ts, hts, hlt⟩, htick ▸ spares_of_lists hlists hnot⟩⟩
  · intro l s act s' hr ih hs hin hcrash hfetch
    rw [List.forall_mem_cons] at hin hcrash hfetch
    have hstep := steps_of_step hs
    have hle := now_le_of_steps hstep
    obtain ⟨ht, hf⟩ := ih hin.2 hcrash.2 hfetch.2
    refine ⟨ht.trans hle, fun hnow => ?_⟩
    have hnow' := hle.trans hnow
    exact fresh_step hmax hr hstep hcrash.1 hin.1 hfetch.1 ht hnow' (hf hnow')

end Runs

/-- Of a run in which `a`'s records of activity complete in time, and not under a tick that has
decided to retire it, the limit fitting in an `i64`. -/
theorem activity_respected {env : RelayerEnv} {log : List Step} {s : Relayer} {a : String}
    (hmax : env.config.maxAddressInactivitySeconds.toNat < 2 ^ 63)
    (h : (relayer env).Run log s) (hin : ∀ e ∈ log, RecordsInTime a e) :
    RespectsActivity env a log := by
  intro l₁ r l₂ ts hlog hrec hcrash hlists hfetch x hx hnow
  obtain ⟨l₃, l₄, rfl⟩ := List.append_of_mem hx
  have hsplit : log = l₃ ++ x :: (l₄ ++ r :: l₂) := by simp [hlog]
  obtain ⟨hrun, hs⟩ := h.of_mem hsplit
  have hin' : ∀ e ∈ l₄ ++ r :: l₂, RecordsInTime a e := fun e he =>
    hin e (by rw [hsplit]; exact List.mem_append_right _ (List.mem_cons_of_mem _ he))
  have hf := (fresh_of_run hmax hrun hin' hrec (fun e he => hcrash e (by simp [he])) hlists
    (fun e he => hfetch e (by simp [he]))).2 hnow
  have hspares := hf.tick
  constructor
  · intro hret
    obtain ⟨d, newly, rest, -, ht⟩ := retires_cases hret
    have hmem := retired_of_condemned hrun.reachable d (by rw [ht]; rfl) a
      (by rw [ht]; exact List.mem_cons_self)
    rw [ht] at hspares
    exact (hspares d rfl).2 hmem
  · rintro ⟨hact, -, hgone⟩
    rw [hact] at hs
    have hstep := tick_steps (steps_of_step hs)
    generalize x.pre.tick = t, x.post.tick = t', x.post.shared = shared' at hstep hspares hgone
    cases hstep
    exact hgone (hspares _ rfl).1

/-- The first call for the address gets to its balance query, and 61 seconds pass. -/
def queriedLate : List Act :=
  listingTick [listed "celestia1a"] ["celestia1a"] ++ [.tick .probe] ++ startCall
    ++ [.forward 0 (.go true), .forward 0 (.go true), .tick .probed, .tick (.collect []),
      .tick .finish, .elapse (61 * 10 ^ 9), .tick .wake]

def recordFunds : List Act :=
  [.forward 0 (.balances (some [⟨"utia", "1"⟩])), .forward 0 (.go true), .forward 0 (.go true),
    .forward 0 (.go true)]

theorem activity_respected_kept : ∃ log s,
    (relayer (exampleEnv 60 60)).exec
        (queriedLate ++ recordFunds ++ listingTick [listed "celestia1a"] []) []
        (exampleStart (exampleEnv 60 60)) = some (log, s)
      ∧ (∃ r ∈ log, (recordsAt "celestia1a" r).isSome)
      ∧ RespectsActivity (exampleEnv 60 60) "celestia1a" log := by
  obtain ⟨log, s, hrun, hexec, h⟩ := Machine.exists_run_of_exec (relayer (exampleEnv 60 60))
    (queriedLate ++ recordFunds ++ listingTick [listed "celestia1a"] [])
    (exampleStart (exampleEnv 60 60))
    (fun log _ => (log.any fun r => (recordsAt "celestia1a" r).isSome)
      && log.all fun e => (recordsAt "celestia1a" e).all fun ts =>
        decide ((e.pre.now : ℤ) < ts + 10 ^ 9)
          && e.pre.tick.decision.all fun d => !d.retired.contains "celestia1a")
    (exampleStart_init _) (by decide +kernel)
  simp only [Bool.and_eq_true, List.any_eq_true, List.all_eq_true, Option.all_eq_true,
    decide_eq_true_eq, Bool.not_eq_true', List.contains_eq_mem, decide_eq_false_iff_not] at h
  exact ⟨log, s, hexec, h.1, activity_respected (by decide) hrun fun e he ts hts => h.2 e he ts hts⟩

/-- The tick has decided to retire the address, unfunded for 61 seconds, when its balance is found
and its activity recorded; the `DELETE` is sent all the same. -/
theorem recorded_activity_ignored : ∃ log s, (relayer (exampleEnv 60 60)).Run log s
    ∧ ¬ RespectsActivity (exampleEnv 60 60) "celestia1a" log := by
  obtain ⟨log, s, hrun, -, h⟩ := Machine.exists_run_of_exec (relayer (exampleEnv 60 60))
    (queriedLate ++ [.tick (.fetch (some [listed "celestia1a"])), .tick .readTime, .tick .decide,
        .tick (.compare [])] ++ recordFunds
      ++ [.tick .retireNext, .tick (.clear true), .tick (.clear true), .tick (.clear true),
        .tick (.clear true), .tick .delete])
    (exampleStart (exampleEnv 60 60))
    (fun log _ => (log.take 6).all (fun e => !crashes e && (listFetched e).isNone)
      && (log[6]?).any fun r => (recordsAt "celestia1a" r).isSome
        && (match r.pre.tick with
          | .retire d _ _ => d.retired.contains "celestia1a"
          | _ => false)
        && (log.take 6).any fun x => retires x == some "celestia1a"
          && decide (x.pre.now ≤ r.pre.now + 60 * 10 ^ 9))
    (exampleStart_init _) (by decide +kernel)
  simp only [Bool.and_eq_true, Option.any_eq_true, Bool.not_eq_true', List.all_eq_true,
    List.any_eq_true, beq_iff_eq, decide_eq_true_eq] at h
  obtain ⟨hquiet, r, hr, ⟨hrec, htick⟩, x, hx, hret, hnow⟩ := h
  obtain ⟨ts, hts⟩ := Option.isSome_iff_exists.1 hrec
  have hlists : Lists "celestia1a" r.pre.tick := by
    split at htick
    · rename_i d newly rest ht
      rw [ht]
      intro d' hd'
      obtain rfl := Option.some.inj hd'
      exact .inr (by simpa using htick)
    · cases htick
  refine ⟨log, s, hrun, fun hresp => ?_⟩
  refine (hresp _ r _ ts (List.take_append_cons_drop hr).symm hts (fun e he => ?_) hlists
    (fun e he requests hf => ?_) x hx hnow).1 hret
  · simp [(hquiet e he).1]
  · have hnone := (hquiet e he).2
    rw [hf] at hnone
    cases hnone

end Relayer

end ForwardingRelayer
