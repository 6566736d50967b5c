import ForwardingRelayer.Proofs.Dispatcher
import ForwardingRelayer.Proofs.Scanner
import ForwardingRelayer.System

/-!
# What a step of the relayer does

One case a task, each with what the task's own step says. The dispatcher inside the relayer takes
the dispatcher's steps, so what holds of every run of the dispatcher holds of it.
-/

namespace ForwardingRelayer

open RelayerState

theorem Decision.mem_keep {toRetire : List (ForwardingRequest × RetireReason)}
    {requests : List ForwardingRequest} {a : String} :
    a ∈ keep toRetire requests
      ↔ a ∈ requests.map ForwardingRequest.forwardAddr
        ∧ a ∉ toRetire.map fun p => p.1.forwardAddr := by
  rw [keep, AList.mem_foldl_insert]
  simp only [AList.notMem_empty, false_or, List.mem_map, List.mem_filter, Bool.not_eq_true',
    List.contains_eq_mem, decide_eq_false_iff_not]
  constructor
  · rintro ⟨r, ⟨hr, hn⟩, rfl⟩
    exact ⟨⟨r, hr, rfl⟩, hn⟩
  · rintro ⟨⟨r, hr, rfl⟩, hn⟩
    exact ⟨r, ⟨hr, hn⟩, rfl⟩

namespace Tick

inductive Steps (env : RelayerEnv) (now : ℕ) (s : RelayerState) :
    Tick → Act → RelayerState → Tick → Prop
  | fetchFailed : Steps env now s .start (.fetch none) s .asleep
  | fetch {requests : List ForwardingRequest} :
      Steps env now s .start (.fetch (some requests)) s (.fetched requests)
  | readTime {requests : List ForwardingRequest} :
      Steps env now s (.fetched requests) .readTime s (.snapshot now requests)
  | decide {t : ℤ} {requests : List ForwardingRequest} :
      Steps env now s (.snapshot t requests) .decide s
        (.compare (.make env s.lastActivity t requests))
  | compare {d : Decision} {order : List String} : order.Perm (d.newlyAdded s.live) →
      Steps env now s (.compare d) (.compare order) s (.retire d order d.toRetire)
  | retireNext {d : Decision} {newly : List String} {p : ForwardingRequest × RetireReason}
      {rest : List (ForwardingRequest × RetireReason)} :
      Steps env now s (.retire d newly (p :: rest)) .retireNext s
        (.clear d newly p.1.forwardAddr (clearRetryState ++ clearActivity) rest)
  | clear {d : Decision} {newly : List String} {addr : String} {op : Op} {ops : List Op}
      {rest : List (ForwardingRequest × RetireReason)} {stored : Bool} :
      Steps env now s (.clear d newly addr (op :: ops) rest) (.clear stored)
        (s.runOp now stored addr op).1
        (.clear d newly addr ((s.runOp now stored addr op).2 ++ ops) rest)
  | delete {d : Decision} {newly : List String} {addr : String}
      {rest : List (ForwardingRequest × RetireReason)} :
      Steps env now s (.clear d newly addr [] rest) .delete s (.deleting d newly rest)
  | deleted {d : Decision} {newly : List String}
      {rest : List (ForwardingRequest × RetireReason)} :
      Steps env now s (.deleting d newly rest) .deleted s (.retire d newly rest)
  | retired {d : Decision} {newly : List String} :
      Steps env now s (.retire d newly []) .retired s (.pruneRetry d newly)
  | pruneRetry {d : Decision} {newly : List String} :
      Steps env now s (.pruneRetry d newly) .pruneRetry
        { s with retryState := s.retryState.retain (· ∈ d.kept) } (.pruneActivity d newly)
  | pruneActivity {d : Decision} {newly : List String} :
      Steps env now s (.pruneActivity d newly) .pruneActivity
        { s with lastActivity := s.lastActivity.retain (· ∈ d.kept) } (.pruneStore d newly)
  | pruneStore {d : Decision} {newly leftRetry leftActivity : List String} :
      Steps env now s (.pruneStore d newly) (.pruneStore leftRetry leftActivity)
        { s with store := s.store.retain (· ∈ d.kept) leftRetry leftActivity } (.swap d newly)
  | swap {d : Decision} {newly : List String} :
      Steps env now s (.swap d newly) .swap { s with live := d.kept } (.probe d.now newly)
  | probe {t : ℤ} {addr : String} {addrs : List String} :
      Steps env now s (.probe t (addr :: addrs)) .probe s (.probe t addrs)
  | probed {t : ℤ} : Steps env now s (.probe t []) .probed s (.collect t)
  | collect {t : ℤ} {order : List String} : order.Perm (dueAddrs s.retryState t) →
      Steps env now s (.collect t) (.collect order) s (.sendDue order)
  | sendDue {addr : String} {addrs : List String} :
      Steps env now s (.sendDue (addr :: addrs)) .sendDue s (.sendDue addrs)
  | finish : Steps env now s (.sendDue []) .finish s .asleep
  | wake : Steps env now s .asleep .wake s .start

theorem steps_of_step {env : RelayerEnv} {now : ℕ} {s s' : RelayerState} {t t' : Tick} {act : Act}
    (h : Tick.step env now s t act = some (s', t')) : Steps env now s t act s' t' := by
  unfold Tick.step at h
  split at h
  case h_5 =>
    rw [Option.ite_none_right_eq_some, Option.some.injEq, Prod.mk.injEq] at h
    obtain ⟨hp, rfl, rfl⟩ := h
    exact .compare (List.isPerm_iff.1 hp)
  case h_17 =>
    rw [Option.ite_none_right_eq_some, Option.some.injEq, Prod.mk.injEq] at h
    obtain ⟨hp, rfl, rfl⟩ := h
    exact .collect (List.isPerm_iff.1 hp)
  all_goals cases h
  all_goals constructor

def outstanding : Tick → List String
  | .probe _ addrs | .sendDue addrs => addrs
  | _ => []

theorem outstanding_step {env : RelayerEnv} {now : ℕ} {s s' : RelayerState} {t t' : Tick}
    {act : Act} (h : Steps env now s t act s' t') {a : String} (ha : a ∈ t.outstanding) :
    t.sends act = some a ∨ a ∈ t'.outstanding := by
  cases h with
  | probe | sendDue =>
    rcases List.mem_cons.1 ha with rfl | ha
    · exact .inl rfl
    · exact .inr ha
  | _ => simp [outstanding] at ha

end Tick

def Scanner.outstanding (s : Scanner) : List String :=
  match s.phase with
  | .sending _ recipients => recipients
  | _ => []

theorem Scanner.outstanding_step {cfg : ScannerConfig} {s s' : Scanner} {act : Scanner.Act}
    (h : Scanner.Steps cfg s act s') (hc : act ≠ .crash) {a : String} (ha : a ∈ s.outstanding) :
    s.sends act = some a ∨ a ∈ s'.outstanding := by
  cases h with
  | send hp =>
    simp only [outstanding, hp, List.mem_cons] at ha
    rcases ha with rfl | ha
    · exact .inl (by simp [sends, hp])
    · exact .inr ha
  | advance hp => simp [outstanding, hp] at ha
  | crash => exact absurd rfl hc
  | _ =>
    simp only [outstanding, *] at ha
    simp at ha

def Poll.outstanding : Poll → List String
  | .sending addrs => addrs
  | .asleep => []

namespace Call

inductive Steps (env : RelayerEnv) (now : ℕ) (addr : String) (s : RelayerState) :
    Call → Input → RelayerState → Call → Prop
  | resolve {request : ForwardingRequest} {stored : Bool} : s.live.lookup addr = some request →
      Steps env now addr s .resolve (.go stored) s (.backoff request)
  | notLive {stored : Bool} : s.live.lookup addr = none →
      Steps env now addr s .resolve (.go stored) s (.done .notLive)
  | hasBackoff {request : ForwardingRequest} {stored : Bool} {state : RetryState} :
      s.retryState.lookup addr = some state →
      Steps env now addr s (.backoff request) (.go stored) s (.compare request state.nextAttempt)
  | noBackoff {request : ForwardingRequest} {stored : Bool} : s.retryState.lookup addr = none →
      Steps env now addr s (.backoff request) (.go stored) s (.query request)
  | wait {request : ForwardingRequest} {nextAttempt : ℤ} {stored : Bool} :
      now < nextAttempt →
      Steps env now addr s (.compare request nextAttempt) (.go stored) s (.done .backoff)
  | due {request : ForwardingRequest} {nextAttempt : ℤ} {stored : Bool} :
      nextAttempt ≤ now →
      Steps env now addr s (.compare request nextAttempt) (.go stored) s (.query request)
  | queryFailed {request : ForwardingRequest} :
      Steps env now addr s (.query request) (.balances none) s (.close .queryFailed noteFailure)
  | empty {request : ForwardingRequest} :
      Steps env now addr s (.query request) (.balances (some [])) s
        (.close .emptyBalance clearRetryState)
  | funded {request : ForwardingRequest} {b : Balance} {balances : List Balance} :
      Steps env now addr s (.query request) (.balances (some (b :: balances))) s
        (.record request recordActivity)
  | record {request : ForwardingRequest} {op : Op} {ops : List Op} {stored : Bool} :
      Steps env now addr s (.record request (op :: ops)) (.go stored)
        (s.runOp now stored addr op).1 (.record request ((s.runOp now stored addr op).2 ++ ops))
  | recorded {request : ForwardingRequest} {stored : Bool} :
      Steps env now addr s (.record request []) (.go stored) s (.fee request)
  | cached {request : ForwardingRequest} {stored : Bool} {quoted : Float} :
      s.feeCache.cached (feeKey request) now = some quoted →
      Steps env now addr s (.fee request) (.go stored) s (forwardCall env addr request quoted)
  | uncached {request : ForwardingRequest} {stored : Bool} :
      s.feeCache.cached (feeKey request) now = none →
      Steps env now addr s (.fee request) (.go stored) s (.quote request)
  | quoted {request : ForwardingRequest} {quoted : Float}
      {result : Except String QueryQuoteForwardingFeeResponse} : quotedFee result = some quoted →
      Steps env now addr s (.quote request) (.quoted result)
        { s with feeCache := s.feeCache.fill (feeKey request) now result }
        (forwardCall env addr request quoted)
  | feeFailed {request : ForwardingRequest}
      {result : Except String QueryQuoteForwardingFeeResponse} : quotedFee result = none →
      Steps env now addr s (.quote request) (.quoted result) s (.close .feeFailed noteFailure)
  | submitted {request : ForwardingRequest} {msg : MsgForward} :
      Steps env now addr s (.submit request msg) (.submitted true) s
        (.close .submitted (clearRetryState ++ recordActivity))
  | submitFailed {request : ForwardingRequest} {msg : MsgForward} :
      Steps env now addr s (.submit request msg) (.submitted false) s
        (.close .submitFailed noteFailure)
  | close {status : ForwardStatus} {op : Op} {ops : List Op} {stored : Bool} :
      Steps env now addr s (.close status (op :: ops)) (.go stored)
        (s.runOp now stored addr op).1 (.close status ((s.runOp now stored addr op).2 ++ ops))
  | closed {status : ForwardStatus} {stored : Bool} :
      Steps env now addr s (.close status []) (.go stored) s (.done status)

theorem steps_of_step {env : RelayerEnv} {now : ℕ} {addr : String} {s s' : RelayerState}
    {call call' : Call} {input : Input}
    (h : Call.step env now addr s call input = some (s', call')) :
    Steps env now addr s call input s' call' := by
  unfold Call.step at h
  split at h
  case h_1 | h_2 | h_9 | h_10 =>
    split at h <;> cases h <;> constructor <;> assumption
  case h_3 =>
    split at h <;> cases h
    · exact .wait ‹_›
    · exact .due (by omega)
  all_goals cases h
  all_goals constructor

end Call

namespace Relayer

def SendTo (d : Dispatcher Call) : Option String → Dispatcher Call → Prop
  | none, d' => d' = d
  | some addr, d' =>
    d.queue.length < forwardQueueCapacity ∧ d' = { d with queue := d.queue ++ [addr] }

inductive Steps (env : RelayerEnv) (s : Relayer) : Act → Relayer → Prop
  | elapse {d : ℕ} : Steps env s (.elapse d) { s with now := s.now + d }
  | scan {act : Scanner.Act} {scanner : Scanner} {d : Dispatcher Call} : act ≠ .crash →
      (∀ live, act ≠ .matchLive live) → Scanner.Steps env.scanner s.scanner act scanner →
      SendTo s.dispatcher (s.scanner.sends act) d →
      Steps env s (.scan act) { s with scanner := scanner, dispatcher := d }
  | scanMatch {scanner : Scanner} :
      Scanner.Steps env.scanner s.scanner (.matchLive s.shared.live) scanner →
      Steps env s .scanMatch { s with scanner := scanner }
  | tick {act : Tick.Act} {shared : RelayerState} {tick : Tick} {d : Dispatcher Call} :
      Tick.Steps env s.now s.shared s.tick act shared tick →
      SendTo s.dispatcher (s.tick.sends act) d →
      Steps env s (.tick act) { s with shared := shared, tick := tick, dispatcher := d }
  | poll {act : Poll.Act} {poll : Poll} {d : Dispatcher Call} :
      Poll.step s.shared s.poll act = some poll → SendTo s.dispatcher (s.poll.sends act) d →
      Steps env s (.poll act) { s with poll := poll, dispatcher := d }
  | dispatch {act : Dispatcher.Act Call} {d : Dispatcher Call} : (∀ addr, act ≠ .send addr) →
      (∀ i call, act ≠ .start i call ∧ act ≠ .advance i call ∧ act ≠ .finish i) →
      Dispatcher.Steps forwardQueueCapacity s.dispatcher act d →
      Steps env s (.dispatch act) { s with dispatcher := d }
  | start {i : ℕ} {d : Dispatcher Call} :
      Dispatcher.Steps forwardQueueCapacity s.dispatcher (.start i .resolve) d →
      Steps env s (.start i) { s with dispatcher := d }
  | forward {i : ℕ} {addr : String} {call call' : Call} {input : Call.Input}
      {shared : RelayerState} {l₁ l₂ : List (Task Call)} :
      s.dispatcher.tasks[i]? = some ⟨addr, .running call⟩ →
      s.dispatcher.tasks = l₁ ++ ⟨addr, .running call⟩ :: l₂ →
      Call.Steps env s.now addr s.shared call input shared call' →
      Steps env s (.forward i input)
        { s with
          shared := shared
          dispatcher := { s.dispatcher with tasks := l₁ ++ ⟨addr, .running call'⟩ :: l₂ } }
  | finish {i : ℕ} {addr : String} {status : ForwardStatus} {l₁ l₂ : List (Task Call)} :
      s.dispatcher.tasks[i]? = some ⟨addr, .running (.done status)⟩ →
      s.dispatcher.tasks = l₁ ++ ⟨addr, .running (.done status)⟩ :: l₂ →
      Steps env s (.finish i)
        { s with
          dispatcher := { s.dispatcher with tasks := l₁ ++ ⟨addr, .returned⟩ :: l₂ } }
  | crash {retryLoaded activityLoaded : Bool} :
      Steps env s (.crash retryLoaded activityLoaded)
        (new env s.now s.shared.store s.scanner.persisted retryLoaded activityLoaded)

abbrev Step := Event Relayer Act

def sent (e : Step) : Option String :=
  match e.act with
  | .scan act => e.pre.scanner.sends act
  | .tick act => e.pre.tick.sends act
  | .poll act => e.pre.poll.sends act
  | _ => none

def tickSent (e : Step) : Option String :=
  match e.act with
  | .tick act => e.pre.tick.sends act
  | _ => none

def enters (a : String) (e : Step) : Prop := a ∉ e.pre.shared.live ∧ a ∈ e.post.shared.live

instance (a : String) (e : Step) : Decidable (enters a e) :=
  inferInstanceAs (Decidable (_ ∧ _))

theorem sendTo_of_send {s s' : Relayer} {o : Option String} (h : s.send o = some s') :
    ∃ d, SendTo s.dispatcher o d ∧ s' = { s with dispatcher := d } := by
  rcases o with _ | addr
  · exact ⟨s.dispatcher, rfl, (Option.some.inj h).symm⟩
  · simp only [send, Dispatcher.send, Option.map_eq_some_iff, Option.ite_none_right_eq_some,
      Option.some.injEq] at h
    obtain ⟨d, ⟨hroom, rfl⟩, rfl⟩ := h
    exact ⟨_, ⟨hroom, rfl⟩, rfl⟩

theorem steps_of_step {env : RelayerEnv} {s s' : Relayer} {act : Act}
    (h : s.step env act = some s') : Steps env s act s' := by
  cases act with
  | elapse d =>
    simp only [step, Option.some.injEq] at h
    exact h ▸ .elapse
  | scan act =>
    have hc : act ≠ .crash := by
      rintro rfl
      simp [step] at h
    have hm : ∀ live, act ≠ .matchLive live := by
      rintro live rfl
      simp [step] at h
    rw [step] at h
    · split at h
      · obtain ⟨d, hd, rfl⟩ := sendTo_of_send h
        exact .scan hc hm (Scanner.steps_of_step ‹_›) hd
      · cases h
    · exact hm
    · exact hc
  | scanMatch =>
    simp only [step, Option.map_eq_some_iff] at h
    obtain ⟨scanner, hs, rfl⟩ := h
    exact .scanMatch (Scanner.steps_of_step hs)
  | tick act =>
    simp only [step] at h
    split at h
    · obtain ⟨d, hd, rfl⟩ := sendTo_of_send h
      exact .tick (Tick.steps_of_step ‹_›) hd
    · cases h
  | poll act =>
    simp only [step] at h
    split at h
    · obtain ⟨d, hd, rfl⟩ := sendTo_of_send h
      exact .poll ‹_› hd
    · cases h
  | dispatch act =>
    simp only [step, dispatch] at h
    split at h
    all_goals first
      | cases h
      | (obtain ⟨d, hd, rfl⟩ := Option.map_eq_some_iff.1 h
         refine .dispatch ?_ ?_ (Dispatcher.steps_of_step hd))
    all_goals simp_all
  | start i =>
    simp only [step, Option.map_eq_some_iff] at h
    obtain ⟨d, hd, rfl⟩ := h
    exact .start (Dispatcher.steps_of_step hd)
  | forward i input =>
    simp only [step, forward] at h
    split at h
    · rename_i addr call hi
      split at h
      · rename_i shared call' hcall
        obtain ⟨d, hd, rfl⟩ := Option.map_eq_some_iff.1 h
        cases Dispatcher.steps_of_step hd with
        | advance hi' hl =>
          obtain ⟨rfl, hs⟩ := Task.mk.inj (Option.some.inj (hi.symm.trans hi'))
          obtain rfl := Stage.running.inj hs
          exact .forward hi hl (Call.steps_of_step hcall)
      · cases h
    · cases h
  | finish i =>
    simp only [step] at h
    split at h
    · rename_i addr status hi
      obtain ⟨d, hd, rfl⟩ := Option.map_eq_some_iff.1 h
      cases Dispatcher.steps_of_step hd with
      | finish hi' hl =>
        obtain ⟨rfl, hs⟩ := Task.mk.inj (Option.some.inj (hi.symm.trans hi'))
        obtain rfl := Stage.running.inj hs
        exact .finish hi hl
    · cases h
  | crash retryLoaded activityLoaded =>
    simp only [step, Option.some.injEq] at h
    exact h ▸ .crash

section Frame

variable {env : RelayerEnv} {now : ℕ} {addr : String} {s s' : RelayerState}

theorem runOp_live {now : ℤ} {stored : Bool} {op : Op} :
    (s.runOp now stored addr op).1.live = s.live := by
  cases op <;> simp only [runOp] <;> split <;> rfl

theorem live_of_call {call call' : Call} {input : Call.Input}
    (h : Call.Steps env now addr s call input s' call') : s'.live = s.live := by
  cases h <;> first | rfl | exact runOp_live

end Frame

/-- The live list and the tick move with the tick's own steps only, but for a crash. -/
theorem tick_cases {env : RelayerEnv} {s s' : Relayer} {act : Act} (h : Steps env s act s') :
    (∃ tact, act = .tick tact ∧ Tick.Steps env s.now s.shared s.tick tact s'.shared s'.tick)
      ∨ (s'.tick = s.tick ∧ s'.shared.live = s.shared.live ∧ (∀ tact, act ≠ .tick tact)
        ∧ ∀ r a, act ≠ .crash r a)
      ∨ (s'.tick = .start ∧ s'.shared.live = ∅ ∧ ∃ r a, act = .crash r a) := by
  cases h with
  | tick ht => exact .inl ⟨_, rfl, ht⟩
  | forward _ _ hcall => exact .inr (.inl ⟨rfl, live_of_call hcall, by simp, by simp⟩)
  | crash => exact .inr (.inr ⟨rfl, rfl, _, _, rfl⟩)
  | _ => exact .inr (.inl ⟨rfl, rfl, by simp, by simp⟩)

theorem tick_steps {env : RelayerEnv} {s s' : Relayer} {tact : Tick.Act}
    (h : Steps env s (.tick tact) s') :
    Tick.Steps env s.now s.shared s.tick tact s'.shared s'.tick := by
  cases h
  assumption

section TickRuns

variable {env : RelayerEnv} {log : List Step} {s : Relayer}

/-- What holds of a tick as a process starts, and is kept by the tick's own steps. -/
theorem tick_invariant {I : Tick → Prop} (hstart : I .start)
    (hstep : ∀ s s' : Relayer, ∀ tact,
      Tick.Steps env s.now s.shared s.tick tact s'.shared s'.tick → I s.tick → I s'.tick)
    (h : (relayer env).Reachable s) : I s.tick := by
  refine h.invariant (I := fun s => I s.tick) ?_ ?_
  · rintro _ ⟨_, _, _, _, _, rfl⟩
    exact hstart
  · intro s act s' hI hs
    rcases tick_cases (steps_of_step hs) with ⟨tact, -, ht⟩ | ⟨ht, -⟩ | ⟨ht, -⟩
    · exact hstep s s' tact ht hI
    · rwa [ht]
    · rwa [ht]

/-- The same of what only an event of `P` brings about, for a `Q` that is a step of the tick or a
crash. -/
theorem tick_since_of {I : Tick → Prop} {P Q : Step → Prop} (hstart : ¬ I .start)
    (hQ : ∀ e, Q e → (∃ tact, e.act = .tick tact) ∨ ∃ r a, e.act = .crash r a)
    (hstep : ∀ s s' : Relayer, ∀ tact,
      Tick.Steps env s.now s.shared s.tick tact s'.shared s'.tick → I s'.tick →
        P ⟨s, .tick tact, s'⟩ ∨ (¬ Q ⟨s, .tick tact, s'⟩ ∧ I s.tick))
    (h : (relayer env).Run log s) : I s.tick → Since P Q log := by
  refine h.since_of (I := fun s => I s.tick) ?_ ?_
  · rintro _ ⟨_, _, _, _, _, rfl⟩
    exact hstart
  · intro log s act s' _ hs hI
    rcases tick_cases (steps_of_step hs) with ⟨tact, rfl, ht⟩ | ⟨ht, -, h1, h2⟩ | ⟨ht, -⟩
    · exact hstep s s' tact ht hI
    · refine .inr ⟨fun hq => ?_, ht ▸ hI⟩
      rcases hQ _ hq with ⟨tact, hact⟩ | ⟨r, a, hact⟩
      · exact h1 tact hact
      · exact h2 r a hact
    · rw [ht] at hI
      exact absurd hI hstart

end TickRuns

section Example

/-- Exact for the time the year begins. -/
def exampleChrono : Chrono where
  toRfc3339 t := if t = .ofNanos (1735689600 * 10 ^ 9) then "2025-01-01T00:00:00+00:00" else ""
  parseFromRfc3339 s :=
    if s = "2025-01-01T00:00:00Z" ∨ s = "2025-01-01T00:00:00+00:00" then
      some (.ofNanos (1735689600 * 10 ^ 9))
    else none

def exampleEnv (maxRequestAgeSeconds maxAddressInactivitySeconds : UInt64) : RelayerEnv where
  config :=
    { customIgpHook := none
      forwardConcurrency := 4
      igpFeeBuffer := 1.1
      maxRequestAgeSeconds := maxRequestAgeSeconds
      maxAddressInactivitySeconds := maxAddressInactivitySeconds }
  scanner := { endpoints := 1, startHeight := some 5, confirmationDepth := 2, timeout := 0 }
  signerAddress := "celestia1signer"
  chrono := exampleChrono

def listed (addr : String) : ForwardingRequest where
  forwardAddr := addr
  destDomain := 42161
  destRecipient := ""
  tokenId := ""
  customHookId := none
  customHookMetadata := none
  createdAt := "2025-01-01T00:00:00Z"

/-- The first process, over an empty store, at the time the request was created. -/
def exampleStart (env : RelayerEnv) : Relayer :=
  new env (1735689600 * 10 ^ 9) ⟨∅, ∅⟩ none true true

theorem exampleStart_init (env : RelayerEnv) : (relayer env).init (exampleStart env) :=
  ⟨_, _, _, _, _, rfl⟩

/-- A tick that is given these requests and keeps them, up to its swap. -/
def listingTick (requests : List ForwardingRequest) (newly : List String) : List Act :=
  [.tick (.fetch (some requests)), .tick .readTime, .tick .decide, .tick (.compare newly),
    .tick .retired, .tick .pruneRetry, .tick .pruneActivity, .tick (.pruneStore [] []),
    .tick .swap]

def startCall : List Act :=
  [.dispatch .recv, .dispatch .lock, .dispatch .acquire, .dispatch .spawn, .start 0]

end Example

end Relayer

end ForwardingRelayer
