import ForwardingRelayer.Relayer

/-!
# The maintenance tick

`maintenance_tick` as the states between its lock sections, clock readings and awaits, with
`retirement_reason`. A `HashMap`'s iteration order comes with the step that iterates.
-/

namespace ForwardingRelayer

open RelayerState

/-- In seconds. -/
inductive RetireReason
  | unfunded (age : ℤ)
  | inactive (idle : ℤ)
  deriving DecidableEq

/-- The limits are compared as `i64`s. -/
def retirementReason (parseRfc3339 : String → Option UtcTime) (createdAt : String)
    (lastActivity : Option UtcTime) (now : UtcTime)
    (maxRequestAgeSeconds maxAddressInactivitySeconds : UInt64) : Option RetireReason :=
  match lastActivity with
  | none =>
    match parseRfc3339 createdAt with
    | none => none
    | some created =>
      if secondsSince created now > maxRequestAgeSeconds.toInt64.toInt then
        some (.unfunded (secondsSince created now))
      else none
  | some last =>
    if secondsSince last now > maxAddressInactivitySeconds.toInt64.toInt then
      some (.inactive (secondsSince last now))
    else none

structure Decision where
  now : ℤ
  toRetire : List (ForwardingRequest × RetireReason)
  kept : LiveSet

namespace Decision

/-- The listed requests to retire, by one snapshot of the activity. -/
def retire (env : RelayerEnv) (lastActivity : AList fun _ : String => ℤ) (now : ℤ)
    (requests : List ForwardingRequest) : List (ForwardingRequest × RetireReason) :=
  requests.filterMap fun req =>
    (retirementReason env.chrono.parseFromRfc3339 req.createdAt
      ((lastActivity.lookup req.forwardAddr).map UtcTime.ofNanos) (.ofNanos now)
      env.config.maxRequestAgeSeconds env.config.maxAddressInactivitySeconds).map (req, ·)

/-- The other ones by address; of a repeated address the last. -/
def keep (toRetire : List (ForwardingRequest × RetireReason)) (requests : List ForwardingRequest) :
    LiveSet :=
  (requests.filter fun req =>
      !(toRetire.map fun p => p.1.forwardAddr).contains req.forwardAddr).foldl
    (fun kept req => kept.insert req.forwardAddr req) ∅

def make (env : RelayerEnv) (lastActivity : AList fun _ : String => ℤ) (now : ℤ)
    (requests : List ForwardingRequest) : Decision where
  now := now
  toRetire := retire env lastActivity now requests
  kept := keep (retire env lastActivity now requests) requests

def newlyAdded (d : Decision) (live : LiveSet) : List String :=
  d.kept.keys.filter (· ∉ live)

end Decision

def dueAddrs (retryState : AList fun _ : String => RetryState) (now : ℤ) : List String :=
  (retryState.entries.filter fun e => e.2.nextAttempt ≤ now).map Sigma.fst

inductive Tick
  /-- The list is to be fetched, or is awaited. -/
  | start
  | fetched (requests : List ForwardingRequest)
  | snapshot (now : ℤ) (requests : List ForwardingRequest)
  | compare (d : Decision)
  /-- The head of the loop over the addresses to retire. -/
  | retire (d : Decision) (newly : List String) (rest : List (ForwardingRequest × RetireReason))
  /-- An address's local state is cleared; its `DELETE` is sent next. -/
  | clear (d : Decision) (newly : List String) (addr : String) (ops : List Op)
    (rest : List (ForwardingRequest × RetireReason))
  /-- The answer to a `DELETE` is awaited. -/
  | deleting (d : Decision) (newly : List String) (rest : List (ForwardingRequest × RetireReason))
  | pruneRetry (d : Decision) (newly : List String)
  | pruneActivity (d : Decision) (newly : List String)
  | pruneStore (d : Decision) (newly : List String)
  | swap (d : Decision) (newly : List String)
  | probe (now : ℤ) (addrs : List String)
  | collect (now : ℤ)
  | sendDue (addrs : List String)
  | asleep

namespace Tick

inductive Act
  | fetch (result : Option (List ForwardingRequest))
  | readTime
  | decide
  | compare (order : List String)
  | retireNext
  | clear (stored : Bool)
  | delete
  | deleted
  | retired
  | pruneRetry
  | pruneActivity
  | pruneStore (leftRetry leftActivity : List String)
  | swap
  | probe
  | probed
  | collect (order : List String)
  | sendDue
  | finish
  | wake

def step (env : RelayerEnv) (now : ℕ) (s : RelayerState) : Tick → Act → Option (RelayerState × Tick)
  | .start, .fetch none => some (s, .asleep)
  | .start, .fetch (some requests) => some (s, .fetched requests)
  | .fetched requests, .readTime => some (s, .snapshot now requests)
  | .snapshot now requests, .decide =>
    some (s, .compare (.make env s.lastActivity now requests))
  | .compare d, .compare order =>
    if order.isPerm (d.newlyAdded s.live) then some (s, .retire d order d.toRetire) else none
  | .retire d newly ((req, _) :: rest), .retireNext =>
    some (s, .clear d newly req.forwardAddr (clearRetryState ++ clearActivity) rest)
  | .clear d newly addr (op :: ops) rest, .clear stored =>
    let (s', next) := s.runOp now stored addr op
    some (s', .clear d newly addr (next ++ ops) rest)
  | .clear d newly _ [] rest, .delete => some (s, .deleting d newly rest)
  | .deleting d newly rest, .deleted => some (s, .retire d newly rest)
  | .retire d newly [], .retired => some (s, .pruneRetry d newly)
  | .pruneRetry d newly, .pruneRetry =>
    some ({ s with retryState := s.retryState.retain (· ∈ d.kept) }, .pruneActivity d newly)
  | .pruneActivity d newly, .pruneActivity =>
    some ({ s with lastActivity := s.lastActivity.retain (· ∈ d.kept) }, .pruneStore d newly)
  | .pruneStore d newly, .pruneStore leftRetry leftActivity =>
    some ({ s with store := s.store.retain (· ∈ d.kept) leftRetry leftActivity }, .swap d newly)
  | .swap d newly, .swap => some ({ s with live := d.kept }, .probe d.now newly)
  | .probe now (_ :: addrs), .probe => some (s, .probe now addrs)
  | .probe now [], .probed => some (s, .collect now)
  | .collect now, .collect order =>
    if order.isPerm (dueAddrs s.retryState now) then some (s, .sendDue order) else none
  | .sendDue (_ :: addrs), .sendDue => some (s, .sendDue addrs)
  | .sendDue [], .finish => some (s, .asleep)
  | .asleep, .wake => some (s, .start)
  | _, _ => none

/-- The address a step sends to the dispatcher. -/
def sends : Tick → Act → Option String
  | .probe _ (addr :: _), .probe => some addr
  | .sendDue (addr :: _), .sendDue => some addr
  | _, _ => none

end Tick

inductive Poll
  | asleep
  | sending (addrs : List String)

namespace Poll

inductive Act
  | snapshot (order : List String)
  | send
  | finish

def step (s : RelayerState) : Poll → Act → Option Poll
  | .asleep, .snapshot order => if order.isPerm s.live.keys then some (.sending order) else none
  | .sending (_ :: addrs), .send => some (.sending addrs)
  | .sending [], .finish => some .asleep
  | _, _ => none

def sends : Poll → Act → Option String
  | .sending (addr :: _), .send => some addr
  | _, _ => none

end Poll

end ForwardingRelayer
