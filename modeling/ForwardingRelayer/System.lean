import ForwardingRelayer.Dispatcher
import ForwardingRelayer.Forward
import ForwardingRelayer.Maintenance

/-!
# The relayer

The tasks `Relayer::run` spawns, over the state they share: the scanner, the maintenance ticker and
the balance poll, which send to the dispatcher's channel, and the dispatcher with its forwards. Any
of them may take the next step. A crash is followed by `Relayer::new` over the store it leaves.
-/

namespace ForwardingRelayer

structure Relayer where
  /-- The time, in nanoseconds since the epoch. -/
  now : ℕ
  shared : RelayerState
  scanner : Scanner
  tick : Tick
  poll : Poll
  dispatcher : Dispatcher Call

namespace Relayer

inductive Act
  /-- Time goes on. The wall clock is not set back. -/
  | elapse (d : ℕ)
  | scan (act : Scanner.Act)
  | scanMatch
  | tick (act : Tick.Act)
  | poll (act : Poll.Act)
  | dispatch (act : Dispatcher.Act Call)
  /-- A spawned task calls `forward_address`. -/
  | start (i : ℕ)
  | forward (i : ℕ) (input : Call.Input)
  | finish (i : ℕ)
  | crash (retryLoaded activityLoaded : Bool)

def new (env : RelayerEnv) (now : ℕ) (store : RetryStore) (height : Option ℤ)
    (retryLoaded activityLoaded : Bool) : Relayer where
  now := now
  shared := .new store retryLoaded activityLoaded
  scanner := .start height
  tick := .start
  poll := .asleep
  dispatcher := .start env.config.forwardConcurrency

/-- A producer's send, if its step makes one. -/
def send (s : Relayer) : Option String → Option Relayer
  | none => some s
  | some addr =>
    (s.dispatcher.send forwardQueueCapacity addr).map fun d => { s with dispatcher := d }

/-- The steps of the dispatcher and of its tasks outside `forward_address`. -/
def dispatch (s : Relayer) : Dispatcher.Act Call → Option Relayer
  | .send _ | .start _ _ | .advance _ _ | .finish _ => none
  | act => (s.dispatcher.step forwardQueueCapacity act).map fun d => { s with dispatcher := d }

def forward (env : RelayerEnv) (s : Relayer) (i : ℕ) (input : Call.Input) : Option Relayer :=
  match s.dispatcher.tasks[i]? with
  | some ⟨addr, .running call⟩ =>
    match Call.step env s.now addr s.shared call input with
    | some (shared, call') =>
      (s.dispatcher.step forwardQueueCapacity (.advance i call')).map fun d =>
        { s with shared := shared, dispatcher := d }
    | none => none
  | _ => none

def step (env : RelayerEnv) (s : Relayer) : Act → Option Relayer
  | .elapse d => some { s with now := s.now + d }
  | .scan (.matchLive _) | .scan .crash => none
  | .scan act =>
    match s.scanner.step env.scanner act with
    | some scanner => ({ s with scanner := scanner } : Relayer).send (s.scanner.sends act)
    | none => none
  | .scanMatch =>
    (s.scanner.step env.scanner (.matchLive s.shared.live)).map fun scanner =>
      { s with scanner := scanner }
  | .tick act =>
    match Tick.step env s.now s.shared s.tick act with
    | some (shared, tick) =>
      ({ s with shared := shared, tick := tick } : Relayer).send (s.tick.sends act)
    | none => none
  | .poll act =>
    match Poll.step s.shared s.poll act with
    | some poll => ({ s with poll := poll } : Relayer).send (s.poll.sends act)
    | none => none
  | .dispatch act => s.dispatch act
  | .start i =>
    (s.dispatcher.step forwardQueueCapacity (.start i .resolve)).map fun d =>
      { s with dispatcher := d }
  | .forward i input => s.forward env i input
  | .finish i =>
    match s.dispatcher.tasks[i]? with
    | some ⟨_, .running (.done _)⟩ =>
      (s.dispatcher.step forwardQueueCapacity (.finish i)).map fun d => { s with dispatcher := d }
    | _ => none
  | .crash retryLoaded activityLoaded =>
    some (new env s.now s.shared.store s.scanner.persisted retryLoaded activityLoaded)

end Relayer

def relayer (env : RelayerEnv) : Machine Relayer Relayer.Act where
  init s := ∃ now store height retryLoaded activityLoaded,
    s = .new env now store height retryLoaded activityLoaded
  step := Relayer.step env

end ForwardingRelayer
