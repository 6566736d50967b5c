import ForwardingRelayer.Proofs.Coverage
import ForwardingRelayer.Proofs.Rest
import ForwardingRelayer.Proofs.Retirement
import ForwardingRelayer.Proofs.Retry

/-!
# At rest every live address is tended

A trigger for a live address is pending until a call starts for it, and a call that does not
observe an empty balance or submit leaves an entry in the retry state. Nothing but such a call
takes the entry away while the address is live: a tick that drops it has also decided to take the
address from the list. So once the tasks are at rest, each request for attention, be it a deposit,
the address's entry to the list or a poll, has been attended to, or an entry is there to be retried.
-/

namespace ForwardingRelayer

open RelayerState

section Call

variable {env : RelayerEnv} {now : ℕ} {a : String} {s s' : RelayerState} {call call' : Call}
  {input : Call.Input}

/-- What is left of `note_failure`, whatever becomes of its write to the store. -/
inductive NotesFailure : List Op → Prop
  | count : NotesFailure [.countFailure]
  | readTime {failures : UInt32} : NotesFailure [.readFailureTime failures]
  | store {state : RetryState} : NotesFailure [.storeRetry state, .insertRetry state]
  | insert {state : RetryState} : NotesFailure [.insertRetry state]

theorem NotesFailure.runOp {op : Op} {ops : List Op} {stored : Bool}
    (h : NotesFailure (op :: ops)) :
    NotesFailure ((s.runOp now stored a op).2 ++ ops)
      ∨ (s.runOp now stored a op).2 ++ ops = [] ∧ a ∈ (s.runOp now stored a op).1.retryState := by
  cases h with
  | count => exact .inl .readTime
  | readTime => exact .inl .store
  | store => exact .inl .insert
  | insert => exact .inr ⟨rfl, (AList.mem_insert _).2 (.inl rfl)⟩

/-- A call that has not settled the address will leave an entry for it, or has. -/
def Call.Tends (a : String) (s : RelayerState) : Call → Prop
  | .compare _ _ => a ∈ s.retryState
  | .close _ ops => NotesFailure ops ∨ ops = [] ∧ a ∈ s.retryState
  | .done _ => a ∈ s.retryState
  | _ => True

theorem Call.tends_step (h : Call.Steps env now a s call input s' call') (hlive : a ∈ s.live)
    (hempty : input ≠ .balances (some [])) (hsubmit : input ≠ .submitted true)
    (ht : call.Tends a s) : call'.Tends a s' := by
  cases h with
  | notLive hl => exact absurd hlive (AList.lookup_eq_none.1 hl)
  | hasBackoff hb => exact AList.lookup_isSome.1 (by rw [hb]; rfl)
  | wait => exact ht
  | queryFailed | feeFailed | submitFailed => exact .inl .count
  | empty => exact absurd rfl hempty
  | submitted => exact absurd rfl hsubmit
  | close =>
    rcases ht with ht | ⟨ht, -⟩
    · exact ht.runOp
    · cases ht
  | closed =>
    rcases ht with ht | ⟨-, ht⟩
    · cases ht
    · exact ht
  | _ => trivial

theorem Call.tends_of_same (hs : s'.retryState.lookup a = s.retryState.lookup a)
    (h : call.Tends a s) : call.Tends a s' := by
  have hmem : a ∈ s'.retryState ↔ a ∈ s.retryState := by
    rw [← AList.lookup_isSome, ← AList.lookup_isSome, hs]
  cases call with
  | compare | close | done => simpa only [Call.Tends, hmem] using h
  | _ => exact h

end Call

namespace Tick

/-- The address leaves the list with the tick's swap. -/
def Drops (a : String) (t : Tick) : Prop := ∃ d, t.decision = some d ∧ a ∉ d.kept

variable {env : RelayerEnv} {now : ℕ} {a : String} {s s' : RelayerState} {t t' : Tick} {act : Act}

theorem drops_step (h : Steps env now s t act s' t') (hlive : a ∈ s'.live) (hd : t.Drops a) :
    t'.Drops a := by
  obtain ⟨d, hd, ha⟩ := hd
  refine ⟨d, decision_keep h ?_ hd, ha⟩
  rintro rfl
  cases h
  cases hd
  exact ha hlive

/-- A tick that keeps a live address leaves its backoff alone, unless it has just decided to drop
it. -/
theorem keeps_or_drops_step (h : Steps env now s t act s' t') (hk : t.Keeps a s.live) :
    t'.Keeps a s'.live ∧ s'.retryState.lookup a = s.retryState.lookup a ∨ t'.Drops a := by
  by_cases hdecide : act = .decide → ∀ d, t' = .compare d → a ∈ d.kept
  · obtain ⟨h1, -, h2, -⟩ := keeps_step h hk hdecide
    exact .inl ⟨h1, h2⟩
  · simp only [not_forall] at hdecide
    obtain ⟨-, d, rfl, ha⟩ := hdecide
    exact .inr ⟨d, rfl, ha⟩

end Tick

namespace Poll

variable {s : RelayerState} {poll poll' : Poll} {act : Act} {a : String}

theorem outstanding_step (h : Poll.step s poll act = some poll') (ha : a ∈ poll.outstanding) :
    poll.sends act = some a ∨ a ∈ poll'.outstanding := by
  unfold Poll.step at h
  split at h
  · simp [outstanding] at ha
  · obtain rfl := Option.some.inj h
    rcases List.mem_cons.1 ha with rfl | ha
    · exact .inl rfl
    · exact .inr ha
  · simp [outstanding] at ha
  · cases h

theorem mem_outstanding_of_snapshot {order : List String}
    (h : Poll.step s poll (.snapshot order) = some poll') (ha : a ∈ s.live) :
    a ∈ poll'.outstanding := by
  cases poll with
  | asleep =>
    simp only [Poll.step, Option.ite_none_right_eq_some, Option.some.injEq] at h
    obtain ⟨hp, rfl⟩ := h
    exact (List.isPerm_iff.1 hp).mem_iff.2 (AList.mem_keys.1 ha)
  | sending addrs => rcases addrs with _ | ⟨addr, addrs⟩ <;> cases h

end Poll

namespace Relayer

/-- A call for the address is due or under way, an entry is there, or the address is leaving. -/
inductive Tended (a : String) (s : Relayer) : Prop
  | pending : 0 < s.dispatcher.pending a → Tended a s
  | drops : s.tick.Drops a → Tended a s
  | entry : s.calls a = [] → a ∈ s.shared.retryState → Tended a s
  | call {call : Call} : s.calls a = [call] → call.Tends a s.shared → Tended a s

section Step

variable {env : RelayerEnv} {s s' : Relayer} {act : Act} {a : String}

theorem keeps_or_drops (h : (relayer env).Reachable s) (ha : a ∈ s.shared.live) :
    s.tick.Keeps a s.shared.live ∨ s.tick.Drops a := by
  refine h.invariant (I := fun s => a ∈ s.shared.live →
    s.tick.Keeps a s.shared.live ∨ s.tick.Drops a) ?_ ?_ ha
  · rintro _ ⟨_, _, _, _, _, rfl⟩ -
    exact .inl trivial
  · intro s act s' ih hs ha
    rcases tick_cases (steps_of_step hs) with ⟨_, -, ht⟩ | ⟨ht, hlive, -⟩ | ⟨ht, -⟩
    · by_cases hpre : a ∈ s.shared.live
      · rcases ih hpre with hk | hd
        · exact (Tick.keeps_or_drops_step ht hk).imp_left And.left
        · exact .inr (Tick.drops_step ht ha hd)
      · left
        generalize s'.tick = t' at ht ⊢
        generalize s.tick = t at ht
        generalize s'.shared = r' at ha ht
        cases ht with
        | swap => exact ha
        | clear => exact absurd (runOp_live ▸ ha) hpre
        | _ => exact absurd ha hpre
    · rw [ht, hlive]
      exact ih (hlive ▸ ha)
    · rw [ht]
      exact .inl trivial

theorem pending_of_sendTo {d d' : Dispatcher Call} {o : Option String} (h : SendTo d o d')
    (hpos : 0 < d.pending a ∨ o = some a) : 0 < d'.pending a := by
  rcases o with _ | b
  · rw [h]
    exact hpos.resolve_right nofun
  · obtain ⟨hroom, rfl⟩ := h
    rcases hpos with hpos | hb
    · exact (Dispatcher.pending_step (.send hroom) a).2 nofun hpos
    · cases hb
      refine Nat.add_pos_right _ (List.count_pos_iff.2 ?_)
      exact List.mem_append_right _ (List.mem_singleton_self a)

theorem pending_of_sent (h : Steps env s act s') (hs : sent ⟨s, act, s'⟩ = some a) :
    0 < s'.dispatcher.pending a := by
  cases h with
  | scan _ _ _ hd | tick _ hd | poll _ hd => exact pending_of_sendTo hd (.inr hs)
  | _ => cases hs

/-- What is pending stays so until a call for it starts. -/
theorem pending_pos_step (hr : (relayer env).Reachable s) (h : Steps env s act s')
    (hcrash : ∀ r b, act ≠ .crash r b) (hpos : 0 < s.dispatcher.pending a) :
    0 < s'.dispatcher.pending a ∨ s'.calls a = [.resolve] := by
  cases h with
  | elapse | scanMatch => exact .inl hpos
  | scan _ _ _ hd | tick _ hd | poll _ hd => exact .inl (pending_of_sendTo hd (.inl hpos))
  | @dispatch dact d _ hcall hd =>
    refine .inl ((Dispatcher.pending_step hd a).2 ?_ hpos)
    cases dact with
    | start i call => exact absurd rfl (hcall i call).1
    | _ => simp [Dispatcher.started]
  | @start i d hd =>
    by_cases hstarted : Dispatcher.started ⟨s.dispatcher, .start i .resolve, d⟩ = some a
    · right
      cases hd with
      | @start i b call l₁ l₂ hi hl =>
        obtain rfl : b = a := by simpa [Dispatcher.started, hi] using hstarted
        obtain ⟨h1, h2⟩ := calls_nil_of_split hr hl rfl
        rw [calls, Task.filterMap_callOf, h1, h2]
        simp [Task.callOf]
    · exact .inl ((Dispatcher.pending_step hd a).2 hstarted hpos)
  | @forward i addr call call' input shared l₁ l₂ hi hl =>
    have hd := @Dispatcher.Steps.advance _ forwardQueueCapacity s.dispatcher i addr call call' l₁ l₂
      hi hl
    exact .inl ((Dispatcher.pending_step hd a).2 (by simp [Dispatcher.started]) hpos)
  | finish hi hl =>
    have hd := @Dispatcher.Steps.finish _ forwardQueueCapacity s.dispatcher _ _ _ _ _ hi hl
    exact .inl ((Dispatcher.pending_step hd a).2 (by simp [Dispatcher.started]) hpos)
  | crash => exact absurd rfl (hcrash _ _)

theorem ne_crash_of_live (h : Steps env s act s') (hlive : a ∈ s'.shared.live) :
    ∀ r b, act ≠ .crash r b := by
  rintro r b rfl
  cases h
  exact absurd hlive (AList.notMem_empty a)

theorem tended_step (hr : (relayer env).Reachable s) (h : Steps env s act s')
    (hlive : a ∈ s.shared.live) (hlive' : a ∈ s'.shared.live)
    (ho : observes a ⟨s, act, s'⟩ = false) (ht : Tended a s) : Tended a s' := by
  have hcrash := ne_crash_of_live h hlive'
  have htick : s.tick.Drops a → Tended a s' := by
    intro hd
    rcases tick_cases h with ⟨_, -, hs⟩ | ⟨hs, -⟩ | ⟨-, -, r, b, hs⟩
    · exact .drops (Tick.drops_step hs hlive' hd)
    · exact .drops (hs ▸ hd)
    · exact absurd hs (hcrash r b)
  rcases keeps_or_drops hr hlive with hk | hd
  case inr => exact htick hd
  cases ht with
  | pending hpos =>
    rcases pending_pos_step hr h hcrash hpos with hpos | hcalls
    · exact .pending hpos
    · exact .call hcalls trivial
  | drops hd => exact htick hd
  | entry hcalls hentry =>
    cases seen_of_steps hr h a with
    | call _ _ hcalls' | finish _ _ hcalls' => simp [hcalls] at hcalls'
    | start _ _ hcalls' => exact .call hcalls' trivial
    | tick _ hs hcalls' =>
      rcases Tick.keeps_or_drops_step hs hk with ⟨-, hsame⟩ | hd
      · refine .entry (hcalls'.trans hcalls) ?_
        rwa [← AList.lookup_isSome, hsame, AList.lookup_isSome]
      · exact .drops hd
    | other _ _ _ hsame hcalls' =>
      refine .entry (hcalls'.trans hcalls) ?_
      rwa [← AList.lookup_isSome, hsame.retryState, AList.lookup_isSome]
    | crash hact => exact absurd hact (hcrash _ _)
  | @call call hcalls hcall =>
    cases seen_of_steps hr h a with
    | @call i c call' input hact hat hcalls₀ hcalls' hstep =>
      obtain rfl : c = call := by simpa [hcalls] using hcalls₀.symm
      have hempty : input ≠ .balances (some []) := by
        rintro rfl
        simp [observes, hact, hat] at ho
      have hsubmit : input ≠ .submitted true := by
        rintro rfl
        simp [observes, hact, hat] at ho
      exact .call hcalls' (Call.tends_step hstep hlive hempty hsubmit hcall)
    | start _ hcalls₀ => simp [hcalls] at hcalls₀
    | @finish i status _ _ hcalls₀ hcalls' hshared =>
      obtain rfl : Call.done status = call := by simpa [hcalls] using hcalls₀.symm
      exact .entry hcalls' (hshared ▸ hcall)
    | tick _ hs hcalls' =>
      rcases Tick.keeps_or_drops_step hs hk with ⟨-, hsame⟩ | hd
      · exact .call (hcalls'.trans hcalls) (Call.tends_of_same hsame hcall)
      · exact .drops hd
    | other _ _ _ hsame hcalls' =>
      exact .call (hcalls'.trans hcalls) (Call.tends_of_same hsame.retryState hcall)
    | crash hact => exact absurd hact (hcrash _ _)

end Step

section Runs

variable {env : RelayerEnv} {log l₁ l₂ : List Step} {s : Relayer} {f : Step} {a : String}

/-- A poll begins with the address in the list. -/
def polls (a : String) (e : Step) : Prop :=
  (∃ order, e.act = .poll (.snapshot order)) ∧ a ∈ e.pre.shared.live

/-- The address enters the list, is polled, or is one of a deposit in a block that is fetched. -/
def Asks (a : String) (e : Step) : Prop :=
  enters a e ∨ polls a e
    ∨ ∃ results, fetched e = some results
      ∧ a ∈ (extractDeposits results).map Deposit.recipient

/-- A tick or a poll that has an address to send has sent it since, or has it yet. -/
theorem sent_or_outstanding (h : (relayer env).Run (l₁ ++ f :: l₂) s)
    (hf : a ∈ f.post.tick.outstanding ∨ a ∈ f.post.poll.outstanding) :
    a ∈ s.shared.live → Since (fun e => sent e = some a) (enters a) l₁
      ∨ a ∈ s.tick.outstanding ∨ a ∈ s.poll.outstanding := by
  refine h.after (I := fun l s => a ∈ s.shared.live → Since (fun e => sent e = some a) (enters a) l
    ∨ a ∈ s.tick.outstanding ∨ a ∈ s.poll.outstanding) (fun _ => .inr hf) ?_
  intro l s act s' hr ih hs hlive'
  have hstep := steps_of_step hs
  by_cases he : enters a ⟨s, act, s'⟩
  · exact .inr (.inl (outstanding_of_enters hstep (probesNew_of_run hr) he))
  have hlive : a ∈ s.shared.live := by
    by_contra hn
    exact he ⟨hn, hlive'⟩
  have hcrash := ne_crash_of_live hstep hlive'
  rcases ih hlive with hsince | hout | hout
  · exact .inl (.inr ⟨he, hsince⟩)
  · rcases tick_cases hstep with ⟨tact, rfl, ht⟩ | ⟨ht, -⟩ | ⟨-, -, r, b, hact⟩
    · rcases Tick.outstanding_step ht hout with hsent | hout
      · exact .inl (.inl hsent)
      · exact .inr (.inl hout)
    · exact .inr (.inl (ht ▸ hout))
    · exact absurd hact (hcrash r b)
  · cases hstep with
    | poll hp hd =>
      rcases Poll.outstanding_step hp hout with hsent | hout
      · exact .inl (.inl hsent)
      · exact .inr (.inr hout)
    | crash => exact absurd rfl (hcrash _ _)
    | _ => exact .inr (.inr hout)

theorem sent_of_asks (h : (relayer env).Run (l₁ ++ f :: l₂) s) (hrest : s.AtRest)
    (ha : a ∈ s.shared.live) (hf : Asks a f) :
    Since (fun e => sent e = some a) (enters a) l₁ := by
  have htick : s.tick.outstanding = [] := by
    rcases hrest.tick with ht | ht <;> rw [ht] <;> rfl
  have hpoll : s.poll.outstanding = [] := by
    rw [hrest.poll]
    rfl
  have hevent : (relayer env).Run l₂ f.pre ∧ Steps env f.pre f.act f.post :=
    (h.of_mem rfl).imp_right steps_of_step
  have hqueued : a ∈ f.post.tick.outstanding ∨ a ∈ f.post.poll.outstanding →
      Since (fun e => sent e = some a) (enters a) l₁ := by
    intro hout
    rcases sent_or_outstanding h hout ha with hsince | hout | hout
    · exact hsince
    · simp [htick] at hout
    · simp [hpoll] at hout
  rcases hf with he | ⟨⟨order, hact⟩, hlive⟩ | ⟨results, hfetched, hd⟩
  · exact hqueued (.inl (outstanding_of_enters hevent.2 (probesNew_of_run hevent.1) he))
  · refine hqueued (.inr ?_)
    obtain ⟨-, hstep⟩ := hevent
    rw [hact] at hstep
    generalize f.post = s' at hstep ⊢
    cases hstep with
    | poll hp =>
      exact Poll.mem_outstanding_of_snapshot hp hlive
  · rcases covered_of_run h hfetched hd ha with hsince | hout | hout | ⟨⟨target, hphase⟩, -⟩
    · exact hsince
    · simp [htick] at hout
    · have hscan := hrest.scanner
      unfold Scanner.awaits at hscan
      unfold Scanner.outstanding at hout
      split at hout
      · simp_all
      · cases hout
    · have hscan := hrest.scanner
      simp [Scanner.awaits, hphase] at hscan

/-- Since an address that is still live was sent, its call has settled it, or it is tended. -/
theorem tended_of_sent (h : (relayer env).Run (l₁ ++ f :: l₂) s) :
    Since (fun e => sent e = some a) (enters a) l₁ → a ∈ s.shared.live →
      (∃ e ∈ l₁, observes a e) ∨ Tended a s := by
  refine h.after (I := fun l s => Since (fun e => sent e = some a) (enters a) l →
    a ∈ s.shared.live → (∃ e ∈ l, observes a e) ∨ Tended a s) (fun h => h.elim) ?_
  intro l s act s' hr ih hs hsince hlive'
  have hstep := steps_of_step hs
  rcases hsince with hsent | ⟨he, hsince⟩
  · exact .inr (.pending (pending_of_sent hstep hsent))
  have hlive : a ∈ s.shared.live := by
    by_contra hn
    exact he ⟨hn, hlive'⟩
  rcases ih hsince hlive with ⟨e, hmem, ho⟩ | ht
  · exact .inl ⟨e, List.mem_cons_of_mem _ hmem, ho⟩
  · rcases ho : observes a ⟨s, act, s'⟩ with _ | _
    · exact .inr (tended_step hr.reachable hstep hlive hlive' ho ht)
    · exact .inl ⟨_, List.mem_cons_self, ho⟩

theorem exists_enters (h : (relayer env).Run log s) :
    a ∈ s.shared.live → ∃ f ∈ log, enters a f := by
  refine h.invariant (I := fun log s => a ∈ s.shared.live → ∃ f ∈ log, enters a f) ?_ ?_
  · rintro _ ⟨_, _, _, _, _, rfl⟩ ha
    exact absurd ha (AList.notMem_empty a)
  · intro log s act s' _ ih _ ha
    by_cases hpre : a ∈ s.shared.live
    · obtain ⟨f, hf, he⟩ := ih hpre
      exact ⟨f, List.mem_cons_of_mem _ hf, he⟩
    · exact ⟨_, List.mem_cons_self, hpre, ha⟩

theorem entry_of_tended (h : (relayer env).Reachable s) (hrest : s.AtRest) (ht : Tended a s) :
    a ∈ s.shared.retryState := by
  have hcalls : s.calls a = [] := by rw [calls, hrest.tasks]; rfl
  cases ht with
  | pending hpos =>
    have hlookup : s.dispatcher.inFlight.lookup a = none :=
      AList.lookup_eq_none.2 ((free_of_atRest h hrest).2 a)
    simp [Dispatcher.pending, Dispatcher.inHand, Dispatcher.atLoop, Dispatcher.tasksOf,
      Dispatcher.dirty, hrest.loop, hrest.tasks, hrest.queue, hlookup] at hpos
  | drops hd =>
    obtain ⟨d, hd, -⟩ := hd
    rcases hrest.tick with ht | ht <;> rw [ht] at hd <;> cases hd
  | entry _ hentry => exact hentry
  | call hcall => simp [hcalls] at hcall

/-- Once the tasks are at rest, each time a live address has asked for attention, by a deposit in a
fetched block, by its entry to the list or in a poll, whatever process was running then, a call has
since found its balance empty or has submitted its forward, or it is in the retry state, from which
each tick sends what is due. -/
theorem tended_at_rest (h : (relayer env).Run log s) (hrest : s.AtRest)
    (ha : a ∈ s.shared.live) :
    (∃ f ∈ log, enters a f) ∧ ∀ l₁ f l₂, log = l₁ ++ f :: l₂ → Asks a f →
      (∃ e ∈ l₁, observes a e) ∨ a ∈ s.shared.retryState := by
  refine ⟨exists_enters h ha, ?_⟩
  rintro l₁ f l₂ rfl hf
  exact (tended_of_sent h (sent_of_asks h hrest ha hf) ha).imp_right
    (entry_of_tended h.reachable hrest)

/-- A deposit is scanned before its address is listed, the process restarts, the first call for it
fails to query the balance, and all tasks are done. -/
def restedLate : List Act :=
  listedLate ++ startCall
    ++ [.forward 0 (.go true), .forward 0 (.go true), .forward 0 (.balances none),
      .forward 0 (.go true), .forward 0 (.go true), .forward 0 (.go true), .forward 0 (.go true),
      .forward 0 (.go true), .finish 0, .dispatch (.remove 0), .dispatch (.release 0),
      .tick .probed, .tick (.collect []), .tick .finish, .scan (.load true),
      .scan (.bootStore true)]

theorem tended_at_rest_late : ∃ l₁ f l₂ s, (relayer (exampleEnv 60 60)).Run (l₁ ++ f :: l₂) s
    ∧ Asks "celestia1a" f ∧ "celestia1a" ∈ s.shared.live
    ∧ ((∃ e ∈ l₁, observes "celestia1a" e) ∨ "celestia1a" ∈ s.shared.retryState) := by
  obtain ⟨log, s, hrun, -, h⟩ := Machine.exists_run_of_exec (relayer (exampleEnv 60 60))
    restedLate (exampleStart (exampleEnv 60 60))
    (fun log s => s.rests && decide ("celestia1a" ∈ s.shared.live)
      && ((log[34]?).bind fetched).any fun results =>
        ((extractDeposits results).map Deposit.recipient).contains "celestia1a")
    (exampleStart_init _) (by decide +kernel)
  simp only [Bool.and_eq_true, decide_eq_true_eq, Option.any_eq_true, Option.bind_eq_some_iff,
    List.contains_iff_mem] at h
  obtain ⟨⟨hrest, hlive⟩, results, ⟨f, hf, hresults⟩, hd⟩ := h
  have hlog := List.take_append_cons_drop hf
  have hasks : Asks "celestia1a" f := .inr (.inr ⟨results, hresults, hd⟩)
  obtain ⟨-, htended⟩ := tended_at_rest hrun (atRest_of_rests hrest) hlive
  exact ⟨log.take 34, f, log.drop 35, s, hlog.symm ▸ hrun, hasks, hlive,
    htended _ _ _ hlog.symm hasks⟩

end Runs

end Relayer

end ForwardingRelayer
