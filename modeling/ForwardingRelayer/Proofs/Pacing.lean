import ForwardingRelayer.Proofs.Mirror

/-!
# The spacing of the attempts

While every tick keeps an address, only its calls touch its backoff. So the row counts the
failures `note_failure` has written since `clear_retry_state` last deleted it, and it is what
every call for the address meets, whoever has triggered it and whichever process runs it: no call
asks for anything before the backoff of the last failure is over.
-/

namespace ForwardingRelayer

open RelayerState

/-- The failures written since the row was last deleted. -/
structure Failures where
  count : ℕ
  /-- What `note_failure` read from the clock for the last one written. -/
  recordedAt : ℕ
  /-- What it last read. -/
  readAt : ℕ

namespace Failures

def next (f : Failures) (now : ℕ) : Op → Failures
  | .readFailureTime _ => { f with readAt := now }
  | .storeRetry _ => { f with count := f.count + 1, recordedAt := f.readAt }
  | .deleteRetry => { f with count := 0 }
  | _ => f

def backoff (f : Failures) : Option RetryState :=
  if f.count = 0 then none
  else some ⟨.ofNat f.count, f.recordedAt + retryDelay (.ofNat f.count) * 10 ^ 9⟩

def Due (f : Failures) (now : ℕ) : Prop := ∀ state ∈ f.backoff, state.nextAttempt ≤ now

/-- From the fifth failure on they are an hour apart, so the clock bounds their number. -/
def Spaced (f : Failures) (now : ℕ) : Prop :=
  now ≤ maxUtc → f.count < 2 ^ 32 ∧ 3600 * 10 ^ 9 * (f.count - 5) ≤ f.recordedAt

variable {f : Failures} {now now' : ℕ} {op : Op}

@[simp] theorem next_countFailure : f.next now .countFailure = f := rfl

@[simp] theorem next_readFailureTime {failures : UInt32} :
    f.next now (.readFailureTime failures) = { f with readAt := now } := rfl

@[simp] theorem next_storeRetry {state : RetryState} :
    f.next now (.storeRetry state) = { f with count := f.count + 1, recordedAt := f.readAt } := rfl

@[simp] theorem next_deleteRetry : f.next now .deleteRetry = { f with count := 0 } := rfl

theorem next_ofActivity (h : op.ofActivity) : f.next now op = f := by
  cases op <;> first | rfl | simp [Op.ofActivity] at h

theorem Due.mono (h : f.Due now) (hle : now ≤ now') : f.Due now' := by
  intro state hstate
  have := h state hstate
  omega

theorem Spaced.mono (h : f.Spaced now) (hle : now ≤ now') : f.Spaced now' :=
  fun hmax => h (hle.trans hmax)

theorem readAt_next (h : f.readAt ≤ now) : (f.next now op).readAt ≤ now := by
  cases op <;> first | exact h | exact le_rfl

theorem retryDelay_saturated {k : ℕ} (h5 : 5 ≤ k) (h : k < 2 ^ 32) :
    retryDelay (.ofNat k) = 3600 := by
  have hk : (UInt32.ofNat k).toNat = k := UInt32.toNat_ofNat_of_lt' h
  have hmin : min (k - 1) 4 = 4 := by omega
  simp [retryDelay, retryBackoffScheduleSeconds, hk, hmin]

theorem spaced_succ (hdue : f.Due f.readAt) (hread : f.readAt ≤ now) (h : f.Spaced now) :
    Spaced { f with count := f.count + 1, recordedAt := f.readAt } now := by
  intro hmax
  obtain ⟨hlt, hle⟩ := h hmax
  have hnext : 3600 * 10 ^ 9 * (f.count + 1 - 5) ≤ f.readAt := by
    by_cases h5 : f.count < 5
    · have hzero : f.count + 1 - 5 = 0 := by omega
      simp [hzero]
    · have hover := hdue ⟨.ofNat f.count, f.recordedAt + retryDelay (.ofNat f.count) * 10 ^ 9⟩
        (by simp [backoff]; omega)
      simp only [retryDelay_saturated (by omega) hlt] at hover
      omega
  refine ⟨?_, hnext⟩
  unfold maxUtc at hmax
  change f.count + 1 < 2 ^ 32
  omega

end Failures

/-- What is left of `note_failure`. -/
inductive Noting (f : Failures) (now : ℕ) (entry : Option RetryState) : List Op → Prop
  | count : entry = f.backoff → f.Due now → Noting f now entry [.countFailure]
  | readTime {failures : UInt32} : failures = .ofNat (f.count + 1) → f.Due now →
      Noting f now entry [.readFailureTime failures]
  | store {state : RetryState} : (f.next now (.storeRetry state)).backoff = some state →
      f.Due f.readAt → Noting f now entry [.storeRetry state, .insertRetry state]
  | insert {state : RetryState} : f.backoff = some state →
      Noting f now entry [.insertRetry state]
  | done : entry = f.backoff → Noting f now entry []

/-- What is left of `clear_retry_state`, and of the activity's record after it. -/
inductive Clearing (f : Failures) (entry : Option RetryState) : List Op → Prop
  | remove {ops : List Op} : ops.all Op.ofActivity →
      Clearing f entry (.removeRetry :: .deleteRetry :: ops)
  | delete {ops : List Op} : entry = none → ops.all Op.ofActivity →
      Clearing f entry (.deleteRetry :: ops)
  | rest {ops : List Op} : entry = f.backoff → ops.all Op.ofActivity → Clearing f entry ops

/-- What a call knows of the backoff at each point. -/
def Call.Paced (f : Failures) (now : ℕ) (entry : Option RetryState) : Call → Prop
  | .resolve | .backoff _ | .done _ => entry = f.backoff
  | .compare _ nextAttempt =>
    entry = f.backoff ∧ ∃ state ∈ f.backoff, state.nextAttempt = nextAttempt
  | .query _ | .fee _ | .quote _ | .submit _ _ => entry = f.backoff ∧ f.Due now
  | .record _ ops => entry = f.backoff ∧ f.Due now ∧ ops.all Op.ofActivity
  | .close status ops =>
    if status.settled then Clearing f entry ops else Noting f now entry ops

/-- A request of the call is sent, and its answer awaited. -/
def Call.requests : Call → Bool
  | .query _ | .quote _ | .submit _ _ => true
  | _ => false

section Step

variable {env : RelayerEnv} {now now' : ℕ} {a : String} {s s' : RelayerState} {f : Failures}
  {call call' : Call} {input : Call.Input} {op : Op} {ops : List Op}
  {entry : Option RetryState}

/-- The row is the failures'. -/
def Failures.RowOf (f : Failures) (a : String) (s : RelayerState) : Prop :=
  s.store.retryState.lookup a = f.backoff.map .of

theorem Noting.mono (h : Noting f now entry ops) (hle : now ≤ now') :
    Noting f now' entry ops := by
  cases h with
  | count he hd => exact .count he (hd.mono hle)
  | readTime hf hd => exact .readTime hf (hd.mono hle)
  | store hs hd => exact .store hs hd
  | insert hs => exact .insert hs
  | done he => exact .done he

theorem Call.Paced.mono (h : call.Paced f now entry) (hle : now ≤ now') :
    call.Paced f now' entry := by
  cases call with
  | query | fee | quote | submit => exact ⟨h.1, h.2.mono hle⟩
  | record => exact ⟨h.1, h.2.1.mono hle, h.2.2⟩
  | close status ops =>
    simp only [Call.Paced] at h ⊢
    split at h
    · rwa [if_pos ‹_›]
    · rw [if_neg ‹_›]
      exact h.mono hle
  | _ => exact h

theorem noting_runOp (h : Noting f now (s.retryState.lookup a) (op :: ops))
    (hrow : f.RowOf a s) :
    (f.next now op).RowOf a (s.runOp now true a op).1
      ∧ Noting (f.next now op) now ((s.runOp now true a op).1.retryState.lookup a)
        ((s.runOp now true a op).2 ++ ops) := by
  cases h with
  | count he hd =>
    refine ⟨hrow, .readTime ?_ hd⟩
    rw [he, Failures.backoff]
    split
    · rename_i hzero
      simp [hzero]
    · simp [UInt32.ofNat_add]
  | readTime hf hd =>
    refine ⟨hrow, .store ?_ hd⟩
    simp [Failures.backoff, hf]
  | @store state hs hd =>
    refine ⟨?_, .insert hs⟩
    unfold Failures.RowOf
    rw [hs]
    exact AList.lookup_insert _
  | insert hs => exact ⟨hrow, .done ((AList.lookup_insert _).trans hs.symm)⟩

theorem clearing_runOp (h : Clearing f (s.retryState.lookup a) (op :: ops))
    (hrow : f.RowOf a s) :
    (f.next now op).RowOf a (s.runOp now true a op).1
      ∧ Clearing (f.next now op) ((s.runOp now true a op).1.retryState.lookup a)
        ((s.runOp now true a op).2 ++ ops) := by
  cases h with
  | remove hops => exact ⟨hrow, .delete (AList.lookup_erase _ _) hops⟩
  | delete he hops => exact ⟨AList.lookup_erase _ _, .rest he hops⟩
  | rest he hall =>
    rw [List.all_cons, Bool.and_eq_true] at hall
    obtain ⟨h1, h2, -⟩ := runOp_ofActivity hall.1 now true a s
    rw [Failures.next_ofActivity hall.1]
    unfold Failures.RowOf
    rw [h1, h2]
    exact ⟨hrow, .rest he (ofActivity_runOp hall.1 hall.2 now true)⟩

/-- The failures after a call's next step. -/
def Failures.after (f : Failures) (now : ℕ) (op : Option Op) : Failures := op.elim f (f.next now)

theorem Call.paced_step (h : Call.Steps env now a s call input s' call')
    (hth : input ≠ .go false) (hrow : f.RowOf a s)
    (hp : call.Paced f now (s.retryState.lookup a)) :
    (f.after now call.ops.head?).RowOf a s'
      ∧ call'.Paced (f.after now call.ops.head?) now (s'.retryState.lookup a) := by
  cases h with
  | resolve | notLive | cached | uncached | quoted => exact ⟨hrow, hp⟩
  | wait => exact ⟨hrow, hp.1⟩
  | recorded => exact ⟨hrow, hp.1, hp.2.1⟩
  | hasBackoff hb => exact ⟨hrow, hp, _, hp ▸ hb, rfl⟩
  | noBackoff hb =>
    have hnone : f.backoff = none := hp.symm.trans hb
    have hdue : f.Due now := by simp [Failures.Due, hnone]
    exact ⟨hrow, hp, hdue⟩
  | due hle =>
    obtain ⟨he, state, hstate, rfl⟩ := hp
    refine ⟨hrow, he, fun state' hstate' => ?_⟩
    obtain rfl := Option.some.inj (hstate.symm.trans hstate')
    exact hle
  | queryFailed | feeFailed | submitFailed => exact ⟨hrow, .count hp.1 hp.2⟩
  | empty | submitted => exact ⟨hrow, .remove rfl⟩
  | funded => exact ⟨hrow, hp.1, hp.2, rfl⟩
  | @record _ op ops stored =>
    obtain ⟨he, hd, hall⟩ := hp
    rw [List.all_cons, Bool.and_eq_true] at hall
    obtain ⟨h1, h2, -⟩ := runOp_ofActivity hall.1 now stored a s
    change (f.next now op).RowOf _ _ ∧ Call.Paced (f.next now op) _ _ _
    rw [Failures.next_ofActivity hall.1]
    unfold Failures.RowOf
    rw [h1, h2]
    exact ⟨hrow, he, hd, ofActivity_runOp hall.1 hall.2 now stored⟩
  | @close status op ops stored =>
    obtain rfl : stored = true := by simpa using hth
    simp only [Call.Paced] at hp ⊢
    split at hp
    · rw [if_pos ‹_›]
      exact clearing_runOp hp hrow
    · rw [if_neg ‹_›]
      exact noting_runOp hp hrow
  | closed =>
    simp only [Call.Paced] at hp
    split at hp
    · cases hp with
      | rest he => exact ⟨hrow, he⟩
    · cases hp with
      | done he => exact ⟨hrow, he⟩

theorem Call.due_of_storeRetry {state : RetryState}
    (hp : call.Paced f now entry) (hop : call.ops.head? = some (.storeRetry state)) :
    f.Due f.readAt := by
  cases call with
  | record _ ops =>
    rcases ops with _ | ⟨op, ops⟩ <;> simp only [Call.ops, List.head?_cons, List.head?_nil,
      Option.some.injEq, reduceCtorEq] at hop
    simp [Call.Paced, hop, Op.ofActivity] at hp
  | close status ops =>
    rcases ops with _ | ⟨op, ops⟩ <;> simp only [Call.ops, List.head?_cons, List.head?_nil,
      Option.some.injEq, reduceCtorEq] at hop
    subst hop
    simp only [Call.Paced] at hp
    split at hp
    · cases hp with
      | rest _ hall => simp [Op.ofActivity] at hall
    · cases hp with
      | store _ hd => exact hd
  | _ => simp [Call.ops] at hop

theorem Failures.spaced_after (hp : call.Paced f now entry) (hread : f.readAt ≤ now)
    (h : f.Spaced now) : (f.after now call.ops.head?).Spaced now := by
  rcases hop : call.ops.head? with _ | op
  · exact h
  · cases op with
    | storeRetry state => exact spaced_succ (Call.due_of_storeRetry hp hop) hread h
    | deleteRetry => exact fun hmax => ⟨by simp [after], by simp [after]⟩
    | _ => exact h

end Step

namespace Relayer

/-- What the call for `a` does next, at one of its steps. -/
def opAt (a : String) (e : Step) : Option Op :=
  match e.act with
  | .forward i _ => (e.pre.callAt a i).bind fun call => call.ops.head?
  | _ => none

def failures (a : String) : List Step → Failures
  | [] => ⟨0, 0, 0⟩
  | e :: log => (failures a log).after e.pre.now (opAt a e)

structure Paced (a : String) (f : Failures) (s : Relayer) : Prop where
  row : f.RowOf a s.shared
  idle : s.calls a = [] → s.shared.retryState.lookup a = f.backoff
  calls : ∀ call ∈ s.calls a, call.Paced f s.now (s.shared.retryState.lookup a)
  readAt : f.readAt ≤ s.now
  spaced : f.Spaced s.now

section Runs

variable {env : RelayerEnv} {log : List Step} {s s' : Relayer} {act : Act} {a : String}
  {f : Failures}

theorem load_of_rowOf {store : RetryStore} {f : Failures}
    (h : store.retryState.lookup a = f.backoff.map .of) :
    store.load.lookup a = f.backoff := by
  rw [RetryStore.load, AList.lookup_filterMap, h]
  rcases f.backoff with _ | state <;> simp [RetryRow.of]

theorem Paced.of_same (hp : Paced a f s)
    (h1 : s'.shared.retryState.lookup a = s.shared.retryState.lookup a)
    (h2 : s'.shared.store.retryState.lookup a = s.shared.store.retryState.lookup a)
    (hcalls : s'.calls a = s.calls a) (hnow : s.now ≤ s'.now) : Paced a f s' where
  row := h2.trans hp.row
  idle hnil := h1.trans (hp.idle (hcalls ▸ hnil))
  calls call hc := h1 ▸ (hp.calls call (hcalls ▸ hc)).mono hnow
  readAt := hp.readAt.trans hnow
  spaced := hp.spaced.mono hnow

theorem paced_step (hr : (relayer env).Reachable s) (h : Steps env s act s')
    (hkept : ∀ d ∈ decided ⟨s, act, s'⟩, a ∈ d.kept) (hb : Backed a s)
    (hth : writesThrough ⟨s, act, s'⟩ = true) (hloaded : startsFresh ⟨s, act, s'⟩ = false)
    (hp : Paced a f s) : Paced a (f.after s.now (opAt a ⟨s, act, s'⟩)) s' := by
  cases seen_of_steps hr h a with
  | @call i call call' input hact hat hcalls hcalls' hcall htick hnow =>
    have hgo : input ≠ .go false := by
      rintro rfl
      simp [writesThrough, hact] at hth
    have hop : opAt a ⟨s, act, s'⟩ = call.ops.head? := by simp [opAt, hact, hat]
    have hcp := hp.calls call (by simp [hcalls])
    obtain ⟨h1, h2⟩ := Call.paced_step hcall hgo hp.row hcp
    rw [hop]
    refine ⟨h1, by simp [hcalls'], by simpa [hcalls', hnow] using h2, ?_, ?_⟩
    · rw [hnow]
      rcases call.ops.head? with _ | op
      · exact hp.readAt
      · exact Failures.readAt_next hp.readAt
    · rw [hnow]
      exact Failures.spaced_after hcp hp.readAt hp.spaced
  | start hact hcalls hcalls' hshared _ hnow =>
    have hop : opAt a ⟨s, act, s'⟩ = none := by simp [opAt, hact]
    rw [hop]
    refine ⟨hshared ▸ hp.row, by simp [hcalls'], ?_, hnow ▸ hp.readAt, hnow ▸ hp.spaced⟩
    rw [hcalls']
    simp only [List.mem_singleton, forall_eq]
    exact hshared ▸ hp.idle hcalls
  | @finish i status hact hat hcalls hcalls' hshared _ hnow =>
    have hop : opAt a ⟨s, act, s'⟩ = none := by simp [opAt, hact]
    rw [hop]
    have hentry := hp.calls (.done status) (by simp [hcalls])
    exact ⟨hshared ▸ hp.row, fun _ => hshared ▸ hentry, by simp [hcalls'], hnow ▸ hp.readAt,
      hnow ▸ hp.spaced⟩
  | @tick tact hact ht hcalls hnow =>
    have hop : opAt a ⟨s, act, s'⟩ = none := by simp [opAt, hact]
    have hdecide : tact = .decide → ∀ d, s'.tick = .compare d → a ∈ d.kept := by
      rintro rfl d hd
      exact hkept d (by simp [decided, hact, hd])
    obtain ⟨-, -, h1, h2⟩ := Tick.keeps_step ht hb.tick hdecide
    rw [hop]
    exact hp.of_same h1 h2 hcalls hnow.ge
  | other hown _ _ hsame hcalls _ hnow =>
    have hop : opAt a ⟨s, act, s'⟩ = none := by
      cases act with
      | forward i input => simp [opAt, hown i (.inl ⟨input, rfl⟩)]
      | _ => rfl
    rw [hop]
    exact hp.of_same hsame.retryState hsame.stored hcalls hnow
  | @crash r b hact hs' =>
    have hop : opAt a ⟨s, act, s'⟩ = none := by simp [opAt, hact]
    have hload : r = true := by simpa [startsFresh, hact] using hloaded
    subst hs' hload
    rw [hop]
    exact ⟨hp.row, fun _ => load_of_rowOf hp.row, by simp [calls, new, Dispatcher.start],
      hp.readAt, hp.spaced⟩

end Runs

end Relayer

/-- The relayer, first started over a store without a backoff for `a`. -/
def relayerWithout (env : RelayerEnv) (a : String) : Machine Relayer Relayer.Act where
  init s := ∃ now store height r b, store.retryState.lookup a = none
    ∧ s = .new env now store height r b
  step := Relayer.step env

namespace Relayer

section Runs

variable {env : RelayerEnv} {log : List Step} {s : Relayer} {a : String}

theorem run_of_without (h : (relayerWithout env a).Run log s) : (relayer env).Run log s := by
  refine h.mono ?_ fun _ _ => rfl
  rintro _ ⟨now, store, height, r, b, -, rfl⟩
  exact ⟨_, _, _, _, _, rfl⟩

theorem losesBackoff_of_through {e : Step} (h : writesThrough e = true) :
    losesBackoff a e = false := by
  unfold losesBackoff
  split
  · simp [writesThrough, *] at h
  · rfl

theorem paced_of_run (h : (relayerWithout env a).Run log s)
    (hkept : ∀ e ∈ log, ∀ d ∈ decided e, a ∈ d.kept)
    (hth : ∀ e ∈ log, writesThrough e = true) (hloaded : ∀ e ∈ log, startsFresh e = false) :
    Paced a (failures a log) s := by
  revert hkept hth hloaded
  refine h.invariant (I := fun log s => (∀ e ∈ log, ∀ d ∈ decided e, a ∈ d.kept) →
    (∀ e ∈ log, writesThrough e = true) → (∀ e ∈ log, startsFresh e = false) →
    Paced a (failures a log) s) ?_ ?_
  · rintro _ ⟨now, store, height, r, b, hrow, rfl⟩ - - -
    refine ⟨hrow, fun _ => ?_, by simp [calls, new, Dispatcher.start], Nat.zero_le _,
      fun _ => ⟨by simp [failures], by simp [failures]⟩⟩
    rcases r with _ | _
    · rfl
    · exact load_of_rowOf hrow
  · intro log s act s' hr ih hs hkept hth hloaded
    rw [List.forall_mem_cons] at hkept hth hloaded
    have hb : Backed a s := backed_of_run (run_of_without hr) hkept.2
      fun e he => losesBackoff_of_through (hth.2 e he)
    exact paced_step (run_of_without hr).reachable (steps_of_step hs) hkept.1 hb hth.1 hloaded.1
      (ih hkept.2 hth.2 hloaded.2)

end Runs

/-- Where every tick keeps the address, the writes go through and every restart loads the backoffs,
the row counts the failures written since it was last deleted, and no call asks for anything before
the delay of the last one is over. -/
theorem backoff_honoured {env : RelayerEnv} {log : List Step} {s : Relayer} {a : String}
    (h : (relayerWithout env a).Run log s) (hkept : ∀ e ∈ log, ∀ d ∈ decided e, a ∈ d.kept)
    (hth : ∀ e ∈ log, writesThrough e = true) (hloaded : ∀ e ∈ log, startsFresh e = false)
    (hcount : 0 < (failures a log).count) :
    ∃ state : RetryState, s.shared.store.retryState.lookup a = some (.of state)
      ∧ (s.now ≤ maxUtc → state.failures.toNat = (failures a log).count)
      ∧ state.nextAttempt = (failures a log).recordedAt + retryDelay state.failures * 10 ^ 9
      ∧ ∀ call ∈ s.calls a, call.requests = true → state.nextAttempt ≤ s.now := by
  have hp := paced_of_run h hkept hth hloaded
  have hback : (failures a log).backoff = some ⟨.ofNat (failures a log).count,
      (failures a log).recordedAt + retryDelay (.ofNat (failures a log).count) * 10 ^ 9⟩ :=
    if_neg (by omega)
  have hrow := hp.row
  unfold Failures.RowOf at hrow
  rw [hback] at hrow
  refine ⟨_, hrow, fun hmax => ?_, rfl, fun call hc hreq => ?_⟩
  · exact UInt32.toNat_ofNat_of_lt' (hp.spaced hmax).1
  · have hcall := hp.calls call hc
    cases call with
    | query | quote | submit => exact hcall.2 _ hback
    | _ => simp [Call.requests] at hreq

section Example

/-- A tick that keeps the address, and a call for it. -/
def attempt (inputs : List Call.Input) : List Act :=
  listingTick [listed "celestia1a"] ["celestia1a"] ++ [.tick .probe] ++ startCall
    ++ inputs.map (.forward 0)

theorem exampleStart_without (env : RelayerEnv) (a : String) :
    (relayerWithout env a).init (exampleStart env) := ⟨_, ⟨∅, ∅⟩, _, _, _, rfl, rfl⟩

theorem backoff_honoured_restarted : ∃ log s,
    (relayerWithout (exampleEnv 3600 3600) "celestia1a").Run log s
      ∧ (∃ call ∈ s.calls "celestia1a", call.requests = true)
      ∧ ∃ state : RetryState, s.shared.store.retryState.lookup "celestia1a" = some (.of state)
        ∧ (s.now ≤ maxUtc → state.failures.toNat = (failures "celestia1a" log).count)
        ∧ state.nextAttempt
          = (failures "celestia1a" log).recordedAt + retryDelay state.failures * 10 ^ 9
        ∧ ∀ call ∈ s.calls "celestia1a", call.requests = true → state.nextAttempt ≤ s.now := by
  obtain ⟨log, s, hrun, -, h⟩ := Machine.exists_run_of_exec
    (relayerWithout (exampleEnv 3600 3600) "celestia1a")
    (failedThenRestarted true ++ .elapse (30 * 10 ^ 9) :: attempt [.go true, .go true, .go true])
    (exampleStart (exampleEnv 3600 3600))
    (fun log s => (s.calls "celestia1a").any Call.requests
      && decide (0 < (failures "celestia1a" log).count)
      && log.all fun e => keepsThrough "celestia1a" e && !startsFresh e)
    (exampleStart_without _ _) (by decide +kernel)
  simp only [Bool.and_eq_true, decide_eq_true_eq, List.any_eq_true, List.all_eq_true,
    keepsThrough_iff, Bool.not_eq_true'] at h
  obtain ⟨⟨h1, h2⟩, h3⟩ := h
  exact ⟨log, s, hrun, h1, backoff_honoured hrun (fun e he => (h3 e he).1.1)
    (fun e he => (h3 e he).1.2) (fun e he => (h3 e he).2) h2⟩

/-- The calls for `a` that have returned with a failure since the last event of `Q`. -/
def failedSince (a : String) (Q : Step → Bool) : List Step → ℕ
  | [] => 0
  | e :: log =>
    if Q e then 0
    else failedSince a Q log + match e.act with
      | .finish i =>
        match e.pre.callAt a i with
        | some (.done .queryFailed) | some (.done .feeFailed) | some (.done .submitFailed) => 1
        | _ => 0
      | _ => 0

/-- `forward_address(a)` returns, having observed an empty balance or submitted. -/
def settles (a : String) (e : Step) : Bool :=
  match e.act with
  | .finish i =>
    match e.pre.callAt a i with
    | some (.done status) => status.settled
    | _ => false
  | _ => false

/-- Its balance query fails, and then it returns or does not get to. -/
def failing (steps : ℕ) : List Call.Input := .balances none :: List.replicate steps (.go true)

/-- The process is lost once between an empty balance and the deletion of the row, and once after
the row of a failure is written. -/
def lostMidway : List Act :=
  failedThenRestarted true ++ .elapse (30 * 10 ^ 9)
      :: attempt [.go true, .go true, .go true, .balances (some [])]
    ++ .crash true true :: attempt ([.go true, .go true, .go true] ++ failing 3)
    ++ .crash true true :: .elapse (60 * 10 ^ 9)
      :: attempt ([.go true, .go true, .go true] ++ failing 5) ++ [.finish 0]

/-- One call has returned with a failure since the last empty balance was observed, and two since
one returned with it, but the row counts three; and where a restart does not load the backoffs, a
call asks for its balance before the delay is over. -/
theorem failures_miscounted_or_forgotten :
    (∃ log s, (relayerWithout (exampleEnv 3600 3600) "celestia1a").Run log s
      ∧ (∀ e ∈ log, ∀ d ∈ decided e, "celestia1a" ∈ d.kept)
      ∧ (∀ e ∈ log, writesThrough e = true) ∧ (∀ e ∈ log, startsFresh e = false)
      ∧ failedSince "celestia1a" (observes "celestia1a") log = 1
      ∧ failedSince "celestia1a" (settles "celestia1a") log = 2
      ∧ (s.shared.store.retryState.lookup "celestia1a").map RetryRow.failures = some 3)
    ∧ ∃ log s, (relayerWithout (exampleEnv 3600 3600) "celestia1a").Run log s
      ∧ (∀ e ∈ log, ∀ d ∈ decided e, "celestia1a" ∈ d.kept)
      ∧ (∀ e ∈ log, writesThrough e = true)
      ∧ failedSince "celestia1a" (observes "celestia1a") log = 1
      ∧ (∃ call ∈ s.calls "celestia1a", call.requests = true)
      ∧ s.now < (failures "celestia1a" log).recordedAt + retryDelay 1 * 10 ^ 9 := by
  constructor
  · obtain ⟨log, s, hrun, -, h⟩ := Machine.exists_run_of_exec
      (relayerWithout (exampleEnv 3600 3600) "celestia1a") lostMidway
      (exampleStart (exampleEnv 3600 3600))
      (fun log s => failedSince "celestia1a" (observes "celestia1a") log == 1
        && failedSince "celestia1a" (settles "celestia1a") log == 2
        && (s.shared.store.retryState.lookup "celestia1a").map RetryRow.failures == some 3
        && log.all fun e => keepsThrough "celestia1a" e && !startsFresh e)
      (exampleStart_without _ _) (by decide +kernel)
    simp only [Bool.and_eq_true, List.all_eq_true, keepsThrough_iff, Bool.not_eq_true',
      beq_iff_eq] at h
    obtain ⟨⟨⟨h1, h2⟩, h3⟩, h4⟩ := h
    exact ⟨log, s, hrun, fun e he => (h4 e he).1.1, fun e he => (h4 e he).1.2,
      fun e he => (h4 e he).2, h1, h2, h3⟩
  · obtain ⟨log, s, hrun, -, h⟩ := Machine.exists_run_of_exec
      (relayerWithout (exampleEnv 3600 3600) "celestia1a")
      (failedThenRestarted false ++ attempt [.go true, .go true])
      (exampleStart (exampleEnv 3600 3600))
      (fun log s => failedSince "celestia1a" (observes "celestia1a") log == 1
        && (s.calls "celestia1a").any Call.requests
        && decide (s.now < (failures "celestia1a" log).recordedAt + retryDelay 1 * 10 ^ 9)
        && log.all (keepsThrough "celestia1a"))
      (exampleStart_without _ _) (by decide +kernel)
    simp only [Bool.and_eq_true, decide_eq_true_eq, List.any_eq_true, List.all_eq_true,
      keepsThrough_iff, beq_iff_eq] at h
    obtain ⟨⟨⟨h1, h2⟩, h3⟩, h4⟩ := h
    exact ⟨log, s, hrun, fun e he => (h4 e he).1, fun e he => (h4 e he).2, h1, h2, h3⟩

end Example

end Relayer

end ForwardingRelayer
