import ForwardingRelayer.Proofs.Calls

/-!
# A failed forward keeps its backoff

A call that fails has put an entry in the retry state by the time it returns, and one that backs
off has seen one. Only a call that has observed an empty balance, or has submitted, takes the
entry away, as long as every tick keeps the address; and a row of the store that parses is behind
the entry, so a restart loads it again. A tick that finds the entry due sends the address.
-/

namespace ForwardingRelayer

open RelayerState

/-- An empty balance has been observed, or a forward submitted. -/
def ForwardStatus.settled : ForwardStatus → Bool
  | emptyBalance | submitted => true
  | _ => false

/-- The ops that have nothing to do with the retry state. -/
def RelayerState.Op.ofActivity : Op → Bool
  | .readActivityTime | .storeActivity _ | .insertActivity _ | .removeActivity
  | .deleteActivity => true
  | _ => false

section Call

variable {env : RelayerEnv} {now : ℕ} {a : String} {s s' : RelayerState} {call call' : Call}
  {input : Call.Input}

/-- A row that a load of the retry state takes over. -/
def Stored (a : String) (s : RelayerState) : Prop :=
  ∃ row nextAttempt, s.store.retryState.lookup a = some row ∧ row.nextAttempt = some nextAttempt

/-- What is left of `note_failure`. -/
inductive Notes (a : String) (s : RelayerState) : List Op → Prop
  | count : Notes a s [.countFailure]
  | readTime {failures : UInt32} : Notes a s [.readFailureTime failures]
  | store {state : RetryState} : Notes a s [.storeRetry state, .insertRetry state]
  | insert {state : RetryState} : Stored a s → Notes a s [.insertRetry state]
  | done : a ∈ s.retryState → Notes a s []

/-- What is left of `clear_retry_state`, and of the activity's record after it. -/
inductive Clears (a : String) (s : RelayerState) : List Op → Prop
  | remove {ops : List Op} : ops.all Op.ofActivity →
      Clears a s (.removeRetry :: .deleteRetry :: ops)
  | delete {ops : List Op} : a ∉ s.retryState → ops.all Op.ofActivity →
      Clears a s (.deleteRetry :: ops)
  | rest {ops : List Op} : ops.all Op.ofActivity → Clears a s ops

/-- What holds at each point of a call for a live address. -/
def Call.Ok (a : String) (s : RelayerState) : Call → Prop
  | .resolve => a ∈ s.live
  | .compare _ _ => a ∈ s.retryState
  | .record _ ops => ops.all Op.ofActivity
  | .close status ops => if status.settled then Clears a s ops else Notes a s ops
  | .done status => status.settled ∨ a ∈ s.retryState
  | _ => True

theorem runOp_ofActivity {op : Op} (h : op.ofActivity) (now : ℤ) (stored : Bool) (a : String)
    (s : RelayerState) :
    (s.runOp now stored a op).1.retryState = s.retryState
      ∧ (s.runOp now stored a op).1.store.retryState = s.store.retryState
      ∧ ((s.runOp now stored a op).2.all Op.ofActivity) := by
  cases op with
  | readActivityTime | insertActivity | removeActivity => exact ⟨rfl, rfl, rfl⟩
  | storeActivity | deleteActivity => cases stored <;> exact ⟨rfl, rfl, rfl⟩
  | _ => simp [Op.ofActivity] at h

theorem stored_iff_of_store_eq (h : s'.store.retryState.lookup a = s.store.retryState.lookup a) :
    Stored a s' ↔ Stored a s := by
  unfold Stored
  rw [h]

theorem ofActivity_runOp {op : Op} {ops : List Op} (hop : op.ofActivity)
    (hops : ops.all Op.ofActivity) (now : ℤ) (stored : Bool) :
    ((s.runOp now stored a op).2 ++ ops).all Op.ofActivity := by
  rw [List.all_append, (runOp_ofActivity hop now stored a s).2.2, hops]
  rfl

theorem held_runOp {op : Op} {ops : List Op} {now : ℤ} {stored : Bool} (h : Notes a s (op :: ops))
    (hs : a ∈ s.retryState) : a ∈ (s.runOp now stored a op).1.retryState := by
  cases h with
  | count | readTime => exact hs
  | store => cases stored <;> exact hs
  | insert => exact (AList.mem_insert _).2 (.inl rfl)

/-- The row is written before the entry. -/
theorem notes_runOp {op : Op} {ops : List Op} {now : ℤ} {stored : Bool}
    (hstored : ∀ state, op = .storeRetry state → stored = true)
    (hs : a ∈ s.retryState → Stored a s) (h : Notes a s (op :: ops)) :
    (a ∈ (s.runOp now stored a op).1.retryState → Stored a (s.runOp now stored a op).1)
      ∧ Notes a (s.runOp now stored a op).1 ((s.runOp now stored a op).2 ++ ops) := by
  cases h with
  | count => exact ⟨hs, .readTime⟩
  | readTime => exact ⟨hs, .store⟩
  | @store state =>
    rw [hstored state rfl]
    have hrow : Stored a (s.runOp now true a (.storeRetry state)).1 :=
      ⟨_, _, AList.lookup_insert _, rfl⟩
    exact ⟨fun _ => hrow, .insert hrow⟩
  | insert hrow => exact ⟨fun _ => hrow, .done ((AList.mem_insert _).2 (.inl rfl))⟩

theorem clears_runOp {op : Op} {ops : List Op} {now : ℤ} {stored : Bool}
    (hs : a ∈ s.retryState → Stored a s) (h : Clears a s (op :: ops)) :
    (a ∈ (s.runOp now stored a op).1.retryState → Stored a (s.runOp now stored a op).1)
      ∧ Clears a (s.runOp now stored a op).1 ((s.runOp now stored a op).2 ++ ops) := by
  cases h with
  | remove hops =>
    have hgone : a ∉ (s.retryState.erase a) := fun hm => (AList.mem_erase.1 hm).1 rfl
    exact ⟨fun hm => absurd hm hgone, .delete hgone hops⟩
  | delete hgone hops =>
    rcases stored with _ | _ <;> exact ⟨fun hm => absurd hm hgone, .rest hops⟩
  | rest hall =>
    rw [List.all_cons, Bool.and_eq_true] at hall
    obtain ⟨h1, h2, -⟩ := runOp_ofActivity hall.1 now stored a s
    refine ⟨fun hm => (stored_iff_of_store_eq (by rw [h2])).2 (hs (h1 ▸ hm)), ?_⟩
    exact .rest (ofActivity_runOp hall.1 hall.2 now stored)

theorem Call.ok_step (h : Call.Steps env now a s call input s' call')
    (hstored : ∀ status state ops, call = .close status (.storeRetry state :: ops) →
      input ≠ .go false)
    (hs : a ∈ s.retryState → Stored a s) (hok : call.Ok a s) :
    (a ∈ s'.retryState → Stored a s') ∧ call'.Ok a s' := by
  cases h with
  | resolve | noBackoff | due | recorded | uncached | cached => exact ⟨hs, trivial⟩
  | notLive hl => exact absurd hok (AList.lookup_eq_none.1 hl)
  | hasBackoff hb => exact ⟨hs, AList.lookup_isSome.1 (by rw [hb]; rfl)⟩
  | wait => exact ⟨hs, .inr hok⟩
  | queryFailed | feeFailed | submitFailed => exact ⟨hs, .count⟩
  | empty | submitted => exact ⟨hs, .remove rfl⟩
  | funded => exact ⟨hs, rfl⟩
  | quoted => exact ⟨hs, trivial⟩
  | @record _ op ops stored =>
    simp only [Call.Ok, List.all_cons, Bool.and_eq_true] at hok
    obtain ⟨h1, h2, -⟩ := runOp_ofActivity hok.1 now stored a s
    refine ⟨fun hm => (stored_iff_of_store_eq (by rw [h2])).2 (hs (h1 ▸ hm)), ?_⟩
    exact ofActivity_runOp hok.1 hok.2 now stored
  | @close status op ops stored =>
    simp only [Call.Ok] at hok ⊢
    split at hok
    · rename_i hst
      rw [if_pos hst]
      exact clears_runOp hs hok
    · rename_i hst
      rw [if_neg hst]
      have hrow : ∀ state, op = .storeRetry state → stored = true := by
        rintro state rfl
        simpa using hstored status state ops rfl
      exact notes_runOp hrow hs hok
  | @closed status stored =>
    refine ⟨hs, ?_⟩
    simp only [Call.Ok] at hok ⊢
    split at hok
    · exact .inl ‹_›
    · cases hok with
      | done hs => exact .inr hs

def Call.clearing : Call → Bool
  | .close status _ => status.settled
  | _ => false

/-- Only a call that is clearing takes the entry away, and it gets there by what it observes. -/
theorem Call.held_step (h : Call.Steps env now a s call input s' call') (hok : call.Ok a s)
    (hempty : input ≠ .balances (some [])) (hsubmit : input ≠ .submitted true)
    (hc : call.clearing = false) (hs : a ∈ s.retryState) :
    a ∈ s'.retryState ∧ call'.clearing = false := by
  cases h with
  | empty => exact absurd rfl hempty
  | submitted => exact absurd rfl hsubmit
  | record =>
    simp only [Call.Ok, List.all_cons, Bool.and_eq_true] at hok
    exact ⟨by rwa [(runOp_ofActivity hok.1 _ _ _ _).1], rfl⟩
  | @close status op ops stored =>
    simp only [clearing] at hc
    simp only [Call.Ok, hc, Bool.false_eq_true, if_false] at hok
    exact ⟨held_runOp hok hs, hc⟩
  | _ => exact ⟨hs, rfl⟩

end Call

section Tick

variable {env : RelayerEnv} {now : ℕ} {a : String} {s s' : RelayerState} {t t' : Tick}
  {act : Tick.Act}

/-- A tick that keeps the address, and has it in the list once it has swapped. -/
def Tick.Keeps (a : String) (live : LiveSet) : Tick → Prop
  | .compare d => a ∈ d.kept ∧ ∀ p ∈ d.toRetire, p.1.forwardAddr ≠ a
  | .retire d _ rest | .deleting d _ rest => a ∈ d.kept ∧ ∀ p ∈ rest, p.1.forwardAddr ≠ a
  | .clear d _ addr _ rest => a ∈ d.kept ∧ addr ≠ a ∧ ∀ p ∈ rest, p.1.forwardAddr ≠ a
  | .pruneRetry d _ | .pruneActivity d _ | .pruneStore d _ | .swap d _ => a ∈ d.kept
  | .probe _ _ | .collect _ | .sendDue _ => a ∈ live
  | _ => True

theorem Tick.keeps_step (h : Tick.Steps env now s t act s' t') (hk : t.Keeps a s.live)
    (hdecide : act = .decide → ∀ d, t' = .compare d → a ∈ d.kept) :
    t'.Keeps a s'.live ∧ (a ∈ s.live → a ∈ s'.live)
      ∧ s'.retryState.lookup a = s.retryState.lookup a
      ∧ s'.store.retryState.lookup a = s.store.retryState.lookup a := by
  cases h with
  | decide =>
    have hmem := hdecide rfl _ rfl
    exact ⟨⟨hmem, fun p hp he => (Decision.mem_keep.1 hmem).2 (List.mem_map.2 ⟨p, hp, he⟩)⟩, id,
      rfl, rfl⟩
  | compare => exact ⟨hk, id, rfl, rfl⟩
  | retireNext =>
    obtain ⟨h1, h2⟩ := hk
    exact ⟨⟨h1, h2 _ List.mem_cons_self, fun p hp => h2 p (List.mem_cons_of_mem _ hp)⟩, id, rfl,
      rfl⟩
  | @clear d newly addr op ops rest stored =>
    have hsame : SameFor a s (s.runOp now stored addr op).1 := .runOp (Ne.symm hk.2.1)
    exact ⟨hk, fun hl => hsame.live ▸ hl, hsame.retryState, hsame.stored⟩
  | delete => exact ⟨⟨hk.1, hk.2.2⟩, id, rfl, rfl⟩
  | deleted => exact ⟨hk, id, rfl, rfl⟩
  | retired => exact ⟨hk.1, id, rfl, rfl⟩
  | @pruneRetry d newly =>
    have hmem : a ∈ d.kept := hk
    exact ⟨hk, id, by simp [AList.lookup_retain, hmem], rfl⟩
  | pruneActivity => exact ⟨hk, id, rfl, rfl⟩
  | @pruneStore d newly leftRetry leftActivity =>
    have hmem : a ∈ d.kept := hk
    exact ⟨hk, id, rfl, by simp [RetryStore.retain, AList.lookup_retain, hmem]⟩
  | swap => exact ⟨hk, fun _ => hk, rfl, rfl⟩
  | probe | probed | collect | sendDue => exact ⟨hk, id, rfl, rfl⟩
  | _ => exact ⟨trivial, id, rfl, rfl⟩

end Tick

def Loop.addr : Loop → Option String
  | .recv => none
  | .received addr | .acquiring addr | .spawning addr => some addr

/-- The dispatcher has a trigger for `a`, or a task. -/
def Dispatcher.Has {σ : Type} (d : Dispatcher σ) (a : String) : Prop :=
  a ∈ d.queue ∨ d.loop.addr = some a ∨ a ∈ d.tasks.map Task.addr

theorem Dispatcher.has_step {σ : Type} {capacity : ℕ} {d d' : Dispatcher σ}
    {act : Dispatcher.Act σ} {a : String} (h : Dispatcher.Steps capacity d act d')
    (ha : d'.Has a) : d.Has a ∨ act = .send a := by
  unfold Has at ha ⊢
  cases h with
  | send =>
    simp only [List.mem_append, List.mem_singleton] at ha
    rcases ha with (ha | rfl) | ha
    · exact .inl (.inl ha)
    · exact .inr rfl
    · exact .inl (.inr ha)
  | recv h1 h2 | mark h1 | insert h1 | acquire h1 =>
    simp only [*, Loop.addr, List.mem_cons, Option.some.injEq, reduceCtorEq] at ha ⊢
    tauto
  | spawn h1 =>
    simp only [h1, Loop.addr, List.map_append, List.map_cons, List.map_nil, List.mem_append,
      List.mem_singleton, Option.some.injEq, reduceCtorEq] at ha ⊢
    tauto
  | start _ hl | advance _ hl | finish _ hl | remove _ hl | release _ hl | requeue _ hl
    | resend _ hl =>
    simp only [hl, List.map_append, List.map_cons, List.mem_append, List.mem_cons,
      List.not_mem_nil, or_false] at ha ⊢
    tauto

section Producers

variable {a : String}

theorem Scanner.mem_of_sends {s : Scanner} {act : Scanner.Act} (h : s.sends act = some a) :
    a ∈ s.outstanding := by
  unfold sends at h
  split at h
  · rename_i target r recipients hp
    obtain rfl := Option.some.inj h
    simp [outstanding, hp]
  · cases h

theorem Scanner.mem_outstanding {cfg : ScannerConfig} {s s' : Scanner} {act : Scanner.Act}
    (h : Scanner.Steps cfg s act s') (ha : a ∈ s'.outstanding) :
    a ∈ s.outstanding ∨ ∃ live, act = .matchLive live ∧ a ∈ live := by
  cases h with
  | @matchLive live target results hp =>
    refine .inr ⟨live, rfl, ?_⟩
    obtain ⟨deposit, hd, rfl⟩ := List.mem_map.1 ha
    simpa using (List.mem_filter.1 hd).2
  | send hp =>
    simp only [outstanding] at ha
    exact .inl (by simp [outstanding, hp, ha])
  | otherEvent => exact .inl ha
  | _ => simp [outstanding, start, Scanner.recover] at ha

theorem Tick.mem_of_sends {t : Tick} {act : Tick.Act} (h : t.sends act = some a) :
    a ∈ t.outstanding := by
  unfold sends at h
  split at h
  · obtain rfl := Option.some.inj h
    exact List.mem_cons_self
  · obtain rfl := Option.some.inj h
    exact List.mem_cons_self
  · cases h

theorem Poll.mem_of_sends {poll : Poll} {act : Poll.Act} (h : poll.sends act = some a) :
    a ∈ poll.outstanding := by
  unfold sends at h
  split at h
  · obtain rfl := Option.some.inj h
    exact List.mem_cons_self
  · cases h

theorem Poll.mem_outstanding {s : RelayerState} {poll poll' : Poll} {act : Poll.Act}
    (h : Poll.step s poll act = some poll') (ha : a ∈ poll'.outstanding) :
    a ∈ poll.outstanding ∨ a ∈ s.live := by
  unfold Poll.step at h
  split at h
  · rw [Option.ite_none_right_eq_some, Option.some.injEq] at h
    obtain ⟨hp, rfl⟩ := h
    exact .inr (AList.mem_keys.2 ((List.isPerm_iff.1 hp).mem_iff.1 ha))
  · obtain rfl := Option.some.inj h
    exact .inl (List.mem_cons_of_mem _ ha)
  · obtain rfl := Option.some.inj h
    simp [outstanding] at ha
  · cases h

end Producers

namespace Relayer

/-- A trigger for `a` is on its way to a call, or in one. -/
def Triggered (s : Relayer) (a : String) : Prop :=
  a ∈ s.scanner.outstanding ∨ a ∈ s.tick.outstanding ∨ a ∈ s.poll.outstanding
    ∨ s.dispatcher.Has a

section Step

variable {env : RelayerEnv} {s s' : Relayer} {act : Act} {a : String}

theorem has_of_mem_calls {call : Call} (h : call ∈ s.calls a) : s.Triggered a := by
  obtain ⟨⟨addr, stage⟩, ht, hc⟩ := List.mem_filterMap.1 h
  cases stage <;> simp [Task.callOf] at hc
  exact .inr (.inr (.inr (.inr (.inr (List.mem_map.2 ⟨_, ht, hc.1⟩)))))

theorem has_of_sendTo {d : Dispatcher Call} {o : Option String} (h : SendTo s.dispatcher o d)
    (ha : d.Has a) : s.dispatcher.Has a ∨ o = some a := by
  rcases o with _ | addr
  · exact .inl (h ▸ ha)
  · obtain ⟨hroom, rfl⟩ := h
    rcases Dispatcher.has_step (.send hroom) ha with ha | ha
    · exact .inl ha
    · cases ha
      exact .inr rfl

/-- Triggers come from the live list, but for a tick's. -/
theorem triggered_step (h : Steps env s act s') (ht : s'.Triggered a) :
    s.Triggered a ∨ a ∈ s.shared.live ∨ a ∈ s'.tick.outstanding := by
  have hkeep : ∀ {dact : Dispatcher.Act Call} {d : Dispatcher Call},
      (∀ addr, dact ≠ .send addr) →
      Dispatcher.Steps forwardQueueCapacity s.dispatcher dact d → d.Has a →
      s.dispatcher.Has a :=
    fun hne hd ha => (Dispatcher.has_step hd ha).resolve_right (hne a)
  unfold Triggered at ht ⊢
  cases h with
  | elapse => exact .inl ht
  | scan _ hm hs hd =>
    rcases ht with ht | ht | ht | ht
    · rcases Scanner.mem_outstanding hs ht with h | ⟨live, rfl, -⟩
      · exact .inl (.inl h)
      · exact absurd rfl (hm live)
    · exact .inl (.inr (.inl ht))
    · exact .inl (.inr (.inr (.inl ht)))
    · rcases has_of_sendTo hd ht with ht | ht
      · exact .inl (.inr (.inr (.inr ht)))
      · exact .inl (.inl (Scanner.mem_of_sends ht))
  | scanMatch hs =>
    rcases ht with ht | ht
    · rcases Scanner.mem_outstanding hs ht with h | ⟨live, hl, h⟩
      · exact .inl (.inl h)
      · cases hl
        exact .inr (.inl h)
    · exact .inl (.inr ht)
  | tick _ hd =>
    rcases ht with ht | ht | ht | ht
    · exact .inl (.inl ht)
    · exact .inr (.inr ht)
    · exact .inl (.inr (.inr (.inl ht)))
    · rcases has_of_sendTo hd ht with ht | ht
      · exact .inl (.inr (.inr (.inr ht)))
      · exact .inl (.inr (.inl (Tick.mem_of_sends ht)))
  | poll hp hd =>
    rcases ht with ht | ht | ht | ht
    · exact .inl (.inl ht)
    · exact .inl (.inr (.inl ht))
    · rcases Poll.mem_outstanding hp ht with h | h
      · exact .inl (.inr (.inr (.inl h)))
      · exact .inr (.inl h)
    · rcases has_of_sendTo hd ht with ht | ht
      · exact .inl (.inr (.inr (.inr ht)))
      · exact .inl (.inr (.inr (.inl (Poll.mem_of_sends ht))))
  | crash => simp [new, Scanner.outstanding, Scanner.start, Tick.outstanding, Poll.outstanding,
      Dispatcher.start, Dispatcher.Has, Loop.addr] at ht
  | dispatch hne _ hd =>
    exact .inl (ht.imp_right (Or.imp_right (Or.imp_right (hkeep hne hd))))
  | start hd => exact .inl (ht.imp_right (Or.imp_right (Or.imp_right (hkeep (by simp) hd))))
  | forward hi hl =>
    exact .inl (ht.imp_right (Or.imp_right (Or.imp_right (hkeep (by simp) (.advance hi hl)))))
  | finish hi hl =>
    exact .inl (ht.imp_right (Or.imp_right (Or.imp_right (hkeep (by simp) (.finish hi hl)))))

end Step

def decided (e : Step) : Option Decision :=
  match e.act, e.post.tick with
  | .tick .decide, .compare d => some d
  | _, _ => none

/-- `a`'s backoff is not written to the store. -/
def losesBackoff (a : String) (e : Step) : Bool :=
  match e.act with
  | .forward i (.go false) =>
    match e.pre.callAt a i with
    | some (.close _ (.storeRetry _ :: _)) => true
    | _ => false
  | _ => false

/-- A process starts without the retry state of the last one. -/
def startsFresh (e : Step) : Bool :=
  match e.act with
  | .crash retryLoaded _ => !retryLoaded
  | _ => false

/-- `forward_address(a)` returns, having observed no empty balance and submitted nothing. -/
def unsettled (a : String) (e : Step) : Bool :=
  match e.act with
  | .finish i =>
    match e.pre.callAt a i with
    | some (.done status) => !status.settled
    | _ => false
  | _ => false

/-- `forward_address(a)` observes an empty balance, or that its forward went through. -/
def observes (a : String) (e : Step) : Bool :=
  match e.act with
  | .forward i (.balances (some [])) | .forward i (.submitted true) => (e.pre.callAt a i).isSome
  | _ => false

/-- What holds in every state while the ticks keep `a`. -/
structure Backed (a : String) (s : Relayer) : Prop where
  live : s.Triggered a → a ∈ s.shared.live
  tick : s.tick.Keeps a s.shared.live
  stored : a ∈ s.shared.retryState → Stored a s.shared
  calls : ∀ call ∈ s.calls a, call.Ok a s.shared

section Runs

variable {env : RelayerEnv} {log : List Step} {s s' : Relayer} {act : Act} {a : String}

theorem ok_of_same {s s' : RelayerState} {call : Call} (hl : a ∈ s.live → a ∈ s'.live)
    (hr : s'.retryState.lookup a = s.retryState.lookup a)
    (hs : s'.store.retryState.lookup a = s.store.retryState.lookup a) (h : call.Ok a s) :
    call.Ok a s' := by
  have hmem : a ∈ s'.retryState ↔ a ∈ s.retryState := by
    rw [← AList.lookup_isSome, ← AList.lookup_isSome, hr]
  have hrow : Stored a s' ↔ Stored a s := stored_iff_of_store_eq hs
  cases call with
  | resolve => exact hl h
  | close status ops =>
    simp only [Call.Ok] at h ⊢
    split at h
    · rw [if_pos ‹_›]
      cases h with
      | remove hops => exact .remove hops
      | delete hgone hops => exact .delete (hmem.not.2 hgone) hops
      | rest hops => exact .rest hops
    · rw [if_neg ‹_›]
      cases h with
      | count => exact .count
      | readTime => exact .readTime
      | store => exact .store
      | insert hs => exact .insert (hrow.2 hs)
      | done hs => exact .done (hmem.2 hs)
  | compare | done => simpa only [Call.Ok, hmem] using h
  | _ => exact h

theorem mem_load (a : String) (store : RetryStore) : a ∈ store.load
    ↔ ∃ row nextAttempt, store.retryState.lookup a = some row
      ∧ row.nextAttempt = some nextAttempt := by
  rw [← AList.lookup_isSome, RetryStore.load, AList.lookup_filterMap]
  rcases store.retryState.lookup a with _ | ⟨failures, _ | nextAttempt⟩ <;> simp

theorem backed_new {now : ℕ} {store : RetryStore} {height : Option ℤ} {r b : Bool} :
    Backed a (new env now store height r b) where
  live ht := by
    simp [Triggered, new, Scanner.outstanding, Scanner.start, Tick.outstanding, Poll.outstanding,
      Dispatcher.start, Dispatcher.Has, Loop.addr] at ht
  tick := trivial
  stored ha := by
    rcases r with _ | _
    · simp [new, RelayerState.new] at ha
    · exact (mem_load a store).1 ha
  calls call hc := by simp [calls, new, Dispatcher.start] at hc

theorem live_of_outstanding {t : Tick} {live : LiveSet} (h : t.Keeps a live)
    (ha : a ∈ t.outstanding) : a ∈ live := by
  cases t with
  | probe | sendDue => exact h
  | _ => simp [Tick.outstanding] at ha

theorem backed_step (hr : (relayer env).Reachable s) (h : Steps env s act s')
    (hkept : ∀ d ∈ decided ⟨s, act, s'⟩, a ∈ d.kept)
    (hstored : losesBackoff a ⟨s, act, s'⟩ = false) (hb : Backed a s) : Backed a s' := by
  have hlive : (a ∈ s.shared.live → a ∈ s'.shared.live) → s'.tick.Keeps a s'.shared.live →
      s'.Triggered a → a ∈ s'.shared.live := by
    intro hmono hk ht
    rcases triggered_step h ht with ht | ht | ht
    · exact hmono (hb.live ht)
    · exact hmono ht
    · exact live_of_outstanding hk ht
  cases seen_of_steps hr h a with
  | @call i call call' input hact hat hcalls hcalls' hcall htick _ =>
    have hl := live_of_call hcall
    have hwrite : ∀ status state ops, call = .close status (.storeRetry state :: ops) →
        input ≠ .go false := by
      rintro status state ops rfl rfl
      simp [losesBackoff, hact, hat] at hstored
    obtain ⟨h1, h2⟩ := Call.ok_step hcall hwrite hb.stored (hb.calls call (by simp [hcalls]))
    have hk : s'.tick.Keeps a s'.shared.live := by rw [htick, hl]; exact hb.tick
    exact ⟨hlive (by rw [hl]; exact id) hk, hk, h1, by simpa [hcalls'] using h2⟩
  | start hact hcalls hcalls' hshared htick _ =>
    have hk : s'.tick.Keeps a s'.shared.live := by rw [htick, hshared]; exact hb.tick
    have hl := hlive (by rw [hshared]; exact id) hk
    refine ⟨hl, hk, by rw [hshared]; exact hb.stored, ?_⟩
    rw [hcalls']
    simp only [List.mem_singleton, forall_eq]
    exact hl (has_of_mem_calls (by rw [hcalls']; exact List.mem_singleton_self _))
  | finish hact hat hcalls hcalls' hshared htick _ =>
    have hk : s'.tick.Keeps a s'.shared.live := by rw [htick, hshared]; exact hb.tick
    exact ⟨hlive (by rw [hshared]; exact id) hk, hk, by rw [hshared]; exact hb.stored,
      by simp [hcalls']⟩
  | @tick tact hact ht hcalls _ =>
    have hdecide : tact = .decide → ∀ d, s'.tick = .compare d → a ∈ d.kept := by
      rintro rfl d hd
      exact hkept d (by simp [decided, hact, hd])
    obtain ⟨hk, hmono, h1, h2⟩ := Tick.keeps_step ht hb.tick hdecide
    refine ⟨hlive hmono hk, hk, ?_, fun call hc => ?_⟩
    · rw [← AList.lookup_isSome, h1, AList.lookup_isSome, stored_iff_of_store_eq h2]
      exact hb.stored
    · exact ok_of_same hmono h1 h2 (hb.calls call (hcalls ▸ hc))
  | other _ _ _ hsame hcalls htick _ =>
    have hk : s'.tick.Keeps a s'.shared.live := by rw [htick, hsame.live]; exact hb.tick
    refine ⟨hlive (by rw [hsame.live]; exact id) hk, hk, ?_, fun call hc => ?_⟩
    · rw [← AList.lookup_isSome, hsame.retryState, AList.lookup_isSome,
        stored_iff_of_store_eq hsame.stored]
      exact hb.stored
    · exact ok_of_same (by rw [hsame.live]; exact id) hsame.retryState hsame.stored
        (hb.calls call (hcalls ▸ hc))
  | crash hact hs' =>
    rw [hs']
    exact backed_new

theorem backed_of_run (h : (relayer env).Run log s)
    (hkept : ∀ e ∈ log, ∀ d ∈ decided e, a ∈ d.kept)
    (hstored : ∀ e ∈ log, losesBackoff a e = false) : Backed a s := by
  revert hkept hstored
  refine h.invariant (I := fun log s => (∀ e ∈ log, ∀ d ∈ decided e, a ∈ d.kept) →
    (∀ e ∈ log, losesBackoff a e = false) → Backed a s) ?_ ?_
  · rintro _ ⟨_, _, _, _, _, rfl⟩ - -
    exact backed_new
  · intro log s act s' hr ih hs hkept hstored
    rw [List.forall_mem_cons] at hkept hstored
    exact backed_step hr.reachable (steps_of_step hs) hkept.1 hstored.1 (ih hkept.2 hstored.2)

/-- The entry is there, and no call is about to take it away. -/
def Holds (a : String) (s : Relayer) : Prop :=
  a ∈ s.shared.retryState ∧ ∀ call ∈ s.calls a, call.clearing = false

theorem holds_of_unsettled (hr : (relayer env).Reachable s) (h : Steps env s act s')
    (hb : Backed a s) (hu : unsettled a ⟨s, act, s'⟩) : Holds a s' := by
  simp only [unsettled] at hu
  cases seen_of_steps hr h a with
  | @finish i status hact hat hcalls hcalls' hshared _ _ =>
    have hok := hb.calls (.done status) (by simp [hcalls])
    simp only [hact, hat, Bool.not_eq_true'] at hu
    simp only [Call.Ok, hu, Bool.false_eq_true, false_or] at hok
    exact ⟨hshared ▸ hok, by simp [hcalls']⟩
  | other hown =>
    cases act with
    | finish i => simp [hown i (.inr rfl)] at hu
    | _ => cases hu
  | call hact | start hact | tick hact | crash hact => simp [hact] at hu

theorem holds_step (hr : (relayer env).Reachable s) (h : Steps env s act s')
    (hkept : ∀ d ∈ decided ⟨s, act, s'⟩, a ∈ d.kept)
    (hloaded : startsFresh ⟨s, act, s'⟩ = false) (hb : Backed a s)
    (ho : observes a ⟨s, act, s'⟩ = false) (hs : Holds a s) : Holds a s' := by
  cases seen_of_steps hr h a with
  | @call i call call' input hact hat hcalls hcalls' hcall _ _ =>
    have hc := hs.2 call (by simp [hcalls])
    have hempty : input ≠ .balances (some []) := by
      rintro rfl
      simp [observes, hact, hat] at ho
    have hsubmit : input ≠ .submitted true := by
      rintro rfl
      simp [observes, hact, hat] at ho
    have hok := hb.calls call (by simp [hcalls])
    obtain ⟨h1, h2⟩ := Call.held_step hcall hok hempty hsubmit hc hs.1
    exact ⟨h1, by simpa [hcalls'] using h2⟩
  | start _ _ hcalls' hshared => exact ⟨hshared ▸ hs.1, by simp [hcalls', Call.clearing]⟩
  | finish _ _ _ hcalls' hshared => exact ⟨hshared ▸ hs.1, by simp [hcalls']⟩
  | @tick tact hact ht hcalls _ =>
    have hdecide : tact = .decide → ∀ d, s'.tick = .compare d → a ∈ d.kept := by
      rintro rfl d hd
      exact hkept d (by simp [decided, hact, hd])
    obtain ⟨-, -, h1, -⟩ := Tick.keeps_step ht hb.tick hdecide
    refine ⟨?_, hcalls ▸ hs.2⟩
    rw [← AList.lookup_isSome, h1, AList.lookup_isSome]
    exact hs.1
  | other _ _ _ hsame hcalls _ _ =>
    refine ⟨?_, hcalls ▸ hs.2⟩
    rw [← AList.lookup_isSome, hsame.retryState, AList.lookup_isSome]
    exact hs.1
  | @crash r b hact hs' =>
    have hload : r = true := by simpa [startsFresh, hact] using hloaded
    subst hs' hload
    exact ⟨(mem_load a s.shared.store).2 (hb.stored hs.1), by simp [calls, new, Dispatcher.start]⟩

theorem holds_of_run (h : (relayer env).Run log s)
    (hkept : ∀ e ∈ log, ∀ d ∈ decided e, a ∈ d.kept)
    (hstored : ∀ e ∈ log, losesBackoff a e = false)
    (hloaded : ∀ e ∈ log, startsFresh e = false)
    (hsince : Since (fun e => unsettled a e) (fun e => observes a e) log) : Holds a s := by
  refine h.since (I := fun log s => (∀ e ∈ log, ∀ d ∈ decided e, a ∈ d.kept) →
    (∀ e ∈ log, losesBackoff a e = false) → (∀ e ∈ log, startsFresh e = false) → Holds a s)
    ?_ ?_ hsince hkept hstored hloaded
  · intro log s act s' hr hs hu hkept hstored _
    rw [List.forall_mem_cons] at hkept hstored
    exact holds_of_unsettled hr.reachable (steps_of_step hs)
      (backed_of_run hr hkept.2 hstored.2) hu
  · intro log s act s' hr ih hs ho hkept hstored hloaded
    rw [List.forall_mem_cons] at hkept hstored hloaded
    exact holds_step hr.reachable (steps_of_step hs) hkept.1 hloaded.1
      (backed_of_run hr hkept.2 hstored.2) (by simpa using ho)
      (ih hkept.2 hstored.2 hloaded.2)

end Runs

/-- A tick looks for the backoffs that are over by its `now`, and `a`'s is one. -/
def findsDue (a : String) (e : Step) : Bool :=
  match e.act, e.pre.tick with
  | .tick (.collect _), .collect now =>
    (e.pre.shared.retryState.lookup a).any fun state => state.nextAttempt ≤ now
  | _, _ => false

def collects (e : Step) : Bool :=
  match e.act with
  | .tick (.collect _) => true
  | _ => false

/-- A tick is completed, or lost with the process. -/
def endsTick (e : Step) : Bool :=
  match e.act with
  | .tick .finish | .crash _ _ => true
  | _ => false

section Runs

variable {env : RelayerEnv} {log : List Step} {s s' : Relayer} {act : Act} {a : String}

theorem outstanding_of_findsDue (h : Steps env s act s') (hf : findsDue a ⟨s, act, s'⟩) :
    a ∈ s'.tick.outstanding := by
  unfold findsDue at hf
  split at hf
  · rename_i order now hact ht
    simp only [] at hact ht hf
    rw [hact] at h
    have hstep := tick_steps h
    rw [ht] at hstep
    generalize s'.tick = t', s'.shared = shared' at hstep ⊢
    cases hstep with
    | collect hp =>
      obtain ⟨state, hs, hle⟩ := (Option.any_eq_true _ _).1 hf
      refine hp.mem_iff.2 (List.mem_map.2 ⟨⟨a, state⟩, List.mem_filter.2 ⟨?_, hle⟩, rfl⟩)
      exact AList.mem_lookup_iff.1 hs
  · cases hf

theorem sent_of_run {l₁ l₂ : List Step} {f : Step} (h : (relayer env).Run (l₁ ++ f :: l₂) s)
    (hf : findsDue a f) : (∀ e ∈ l₁, ¬ endsTick e) →
      a ∈ s.tick.outstanding ∨ ∃ e ∈ l₁, tickSent e = some a := by
  refine h.after (I := fun l s => (∀ e ∈ l, ¬ endsTick e) →
    a ∈ s.tick.outstanding ∨ ∃ e ∈ l, tickSent e = some a) ?_ ?_
  · intro _
    exact .inl (outstanding_of_findsDue (steps_of_step (h.of_mem rfl).2) hf)
  · intro l s act s' _ ih hs hend
    rw [List.forall_mem_cons] at hend
    rcases ih hend.2 with ha | ⟨e, he, hsent⟩
    · rcases tick_cases (steps_of_step hs) with ⟨tact, rfl, ht⟩ | ⟨ht, -⟩ | ⟨-, -, r, b, rfl⟩
      · rcases Tick.outstanding_step ht ha with hsent | ha
        · exact .inr ⟨_, List.mem_cons_self, hsent⟩
        · exact .inl ha
      · exact .inl (ht ▸ ha)
      · simp [endsTick] at hend
    · exact .inr ⟨e, List.mem_cons_of_mem _ he, hsent⟩

theorem collected_of_run (h : (relayer env).Run log s) :
    (∃ addrs, s.tick = .sendDue addrs) →
      Since (fun e => collects e) (fun e => endsTick e) log := by
  have hends : ∀ e : Step, endsTick e →
      (∃ tact, e.act = .tick tact) ∨ ∃ r a, e.act = .crash r a := by
    intro e he
    unfold endsTick at he
    split at he
    · exact .inl ⟨_, ‹_›⟩
    · exact .inr ⟨_, _, ‹_›⟩
    · cases he
  refine tick_since_of (I := fun t => ∃ addrs, t = .sendDue addrs) (by simp) hends ?_ h
  rintro s s' tact ht ⟨addrs, haddrs⟩
  rw [haddrs] at ht
  generalize s.tick = t, s'.shared = shared' at ht ⊢
  cases ht with
  | collect => exact .inl rfl
  | sendDue => exact .inr ⟨by simp [endsTick], _, rfl⟩

theorem sendDue_of_finish (h : Steps env s (.tick .finish) s') : s.tick = .sendDue [] := by
  have hstep := tick_steps h
  generalize s.tick = t, s'.tick = t', s'.shared = shared' at hstep ⊢
  cases hstep
  rfl

end Runs

/-- What a run keeps of a failed forward for `a`. -/
structure BackoffKept (a : String) (log : List Step) (s : Relayer) : Prop where
  /-- From a return with nothing observed there is an entry, up to an observation. -/
  held : Since (fun e => unsettled a e) (fun e => observes a e) log → a ∈ s.shared.retryState
  /-- A completed tick has looked for what is due, and has sent `a` since if its entry was. -/
  resent : ∀ l₁ g l₂, log = l₁ ++ g :: l₂ → g.act = .tick .finish →
    ∃ l₃ f l₄, l₂ = l₃ ++ f :: l₄ ∧ collects f ∧ (∀ e ∈ l₃, ¬ endsTick e)
      ∧ (findsDue a f → ∃ e ∈ l₃, tickSent e = some a)

/-- Where every tick keeps the address, its backoff is written whenever it is set and loaded at
every restart, a failed forward is not forgotten. -/
theorem failed_forward_kept {env : RelayerEnv} {log : List Step} {s : Relayer} {a : String}
    (h : (relayer env).Run log s) (hkept : ∀ e ∈ log, ∀ d ∈ decided e, a ∈ d.kept)
    (hstored : ∀ e ∈ log, losesBackoff a e = false)
    (hloaded : ∀ e ∈ log, startsFresh e = false) : BackoffKept a log s := by
  refine ⟨fun hsince => (holds_of_run h hkept hstored hloaded hsince).1, ?_⟩
  intro l₁ g l₂ hlog hg
  obtain ⟨hrun, hs⟩ := h.of_mem hlog
  rw [hg] at hs
  have ht : g.pre.tick = .sendDue [] := sendDue_of_finish (steps_of_step hs)
  obtain ⟨l₃, f, l₄, rfl, hf, hend⟩ := Since.iff_split.1 (collected_of_run hrun ⟨[], ht⟩)
  refine ⟨l₃, f, l₄, rfl, hf, hend, fun hdue => ?_⟩
  rcases sent_of_run hrun hdue hend with ha | ha
  · simp [ht, Tick.outstanding] at ha
  · exact ha

/-- The balance query of the first call fails, and the process restarts. -/
def failedThenRestarted (retryLoaded : Bool) : List Act :=
  listingTick [listed "celestia1a"] ["celestia1a"] ++ [.tick .probe] ++ startCall
    ++ [.forward 0 (.go true), .forward 0 (.go true), .forward 0 (.balances none),
      .forward 0 (.go true), .forward 0 (.go true), .forward 0 (.go true), .forward 0 (.go true),
      .forward 0 (.go true), .finish 0, .crash retryLoaded true]

def resendingTick : List Act :=
  [.elapse (30 * 10 ^ 9)] ++ listingTick [listed "celestia1a"] ["celestia1a"]
    ++ [.tick .probe, .tick .probed, .tick (.collect ["celestia1a"]), .tick .sendDue,
      .tick .finish]

theorem failed_forward_kept_restarted : ∃ log s,
    (relayer (exampleEnv 3600 3600)).exec (failedThenRestarted true ++ resendingTick) []
        (exampleStart (exampleEnv 3600 3600)) = some (log, s)
      ∧ Since (fun e => unsettled "celestia1a" e) (fun e => observes "celestia1a" e) log
      ∧ (∃ e ∈ log, findsDue "celestia1a" e)
      ∧ BackoffKept "celestia1a" log s := by
  obtain ⟨log, s, hrun, hexec, h⟩ := Machine.exists_run_of_exec
    (relayer (exampleEnv 3600 3600)) (failedThenRestarted true ++ resendingTick)
    (exampleStart (exampleEnv 3600 3600))
    (fun log _ => decide (Since (fun e => unsettled "celestia1a" e)
        (fun e => observes "celestia1a" e) log)
      && log.any (findsDue "celestia1a")
      && log.all fun e => (decided e).all (fun d : Decision => decide ("celestia1a" ∈ d.kept))
        && !losesBackoff "celestia1a" e && !startsFresh e)
    (exampleStart_init _) (by decide +kernel)
  simp only [Bool.and_eq_true, decide_eq_true_eq, List.any_eq_true, List.all_eq_true,
    Option.all_eq_true, Bool.not_eq_true'] at h
  obtain ⟨⟨h1, h2⟩, h3⟩ := h
  exact ⟨log, s, hexec, h1, h2, failed_forward_kept hrun (fun e he => (h3 e he).1.1)
    (fun e he => (h3 e he).1.2) fun e he => (h3 e he).2⟩

/-- Every write a step makes to the store goes through. -/
def writesThrough (e : Step) : Bool :=
  match e.act with
  | .scan (.bootStore stored) | .scan (.advance stored) | .scan (.evidence _ stored)
  | .tick (.clear stored) | .forward _ (.go stored) => stored
  | .tick (.pruneStore leftRetry leftActivity) => leftRetry.isEmpty && leftActivity.isEmpty
  | _ => true

/-- A decision keeps `a`, and what is written goes through. -/
def keepsThrough (a : String) (e : Step) : Bool :=
  (decided e).all (fun d : Decision => decide (a ∈ d.kept)) && writesThrough e

theorem keepsThrough_iff {a : String} {e : Step} :
    keepsThrough a e = true ↔ (∀ d ∈ decided e, a ∈ d.kept) ∧ writesThrough e = true := by
  simp [keepsThrough, Option.all_eq_true]

/-- A load that fails at the restart leaves the failed forward without its entry, though every
tick has kept the address and every write has gone through. -/
theorem failed_load_forgets : ∃ log s, (relayer (exampleEnv 3600 3600)).Run log s
    ∧ (∀ e ∈ log, ∀ d ∈ decided e, "celestia1a" ∈ d.kept) ∧ (∀ e ∈ log, writesThrough e)
    ∧ Since (fun e => unsettled "celestia1a" e) (fun e => observes "celestia1a" e) log
    ∧ "celestia1a" ∉ s.shared.retryState := by
  obtain ⟨log, s, hrun, -, h⟩ := Machine.exists_run_of_exec
    (relayer (exampleEnv 3600 3600)) (failedThenRestarted false)
    (exampleStart (exampleEnv 3600 3600))
    (fun log s => decide (Since (fun e => unsettled "celestia1a" e)
        (fun e => observes "celestia1a" e) log)
      && decide ("celestia1a" ∉ s.shared.retryState)
      && log.all (keepsThrough "celestia1a"))
    (exampleStart_init _) (by decide +kernel)
  simp only [Bool.and_eq_true, decide_eq_true_eq, List.all_eq_true, keepsThrough_iff] at h
  obtain ⟨⟨h1, h2⟩, h3⟩ := h
  exact ⟨log, s, hrun, fun e he => (h3 e he).1, fun e he => (h3 e he).2, h1, h2⟩

end Relayer

end ForwardingRelayer
