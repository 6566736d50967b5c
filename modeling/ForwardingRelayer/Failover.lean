import Mathlib.Data.Int.Notation
import Mathlib.Data.List.Basic
import ForwardingRelayer.Lib.Machine

/-!
# The endpoint preference

`CelestiaClient`'s `current` under any number of `with_failover` and `submit_forward` calls. A call
loads the preference, awaits one endpoint or more, and may store a preference of its own; each of
these is a step, and other calls may take theirs in between.
-/

namespace ForwardingRelayer

/-- What `with_failover` returns when every endpoint has failed, over its last attempt's error. -/
structure FailoverError where
  context : String
  source : String
  deriving DecidableEq

/-- Where a call is. `T` is what the operation of `with_failover` returns. -/
inductive ClientCall (T : Type)
  /-- `with_failover` awaits its operation on the endpoint `i` places after `start`. -/
  | attempt (what : String) (start i : ℕ)
  /-- The operation succeeded on another endpoint than `start`, which is stored next. -/
  | prefer (start idx : ℕ) (value : T)
  | answered (result : Except FailoverError T)
  | panicked
  /-- `submit_forward` awaits its submission. -/
  | submit (idx : ℕ)
  /-- The submission failed; the endpoint after `idx` is stored next. -/
  | rotate (idx : ℕ) (error : String)
  | submitted (result : Except String String)

/-- The head of `with_failover`'s loop. -/
def ClientCall.next {T : Type} (count : ℕ) (what : String) (start i : ℕ)
    (lastErr : Option String) : ClientCall T :=
  if i < count then .attempt what start i
  else
    match lastErr with
    | some e => .answered (.error ⟨what ++ " failed on all gRPC endpoints", e⟩)
    | none => .panicked

structure CelestiaClient (T : Type) where
  /-- The index of the preferred endpoint. -/
  current : ℕ
  calls : List (ClientCall T)

namespace CelestiaClient

variable {T : Type}

inductive Act (T : Type)
  /-- `with_failover` is called, and loads the preference. -/
  | withFailover (what : String)
  | submitForward
  | answer (k : ℕ) (result : Except String T)
  | submission (k : ℕ) (result : Except String String)
  | store (k : ℕ)

def step (count : ℕ) (s : CelestiaClient T) : Act T → Option (CelestiaClient T)
  | .withFailover what =>
    some { s with calls := s.calls ++ [.next count what s.current 0 none] }
  | .submitForward => some { s with calls := s.calls ++ [.submit s.current] }
  | .answer k result =>
    match s.calls[k]?, result with
    | some (.attempt _ start i), .ok value =>
      let idx := (start + i) % count
      some { s with
        calls := s.calls.set k (if idx = start then .answered (.ok value)
          else .prefer start idx value) }
    | some (.attempt what start i), .error e =>
      some { s with calls := s.calls.set k (.next count what start (i + 1) (some e)) }
    | _, _ => none
  | .submission k result =>
    match s.calls[k]?, result with
    | some (.submit _), .ok txHash =>
      some { s with calls := s.calls.set k (.submitted (.ok txHash)) }
    | some (.submit idx), .error e =>
      some { s with
        calls := s.calls.set k (if count > 1 then .rotate idx e else .submitted (.error e)) }
    | _, _ => none
  | .store k =>
    match s.calls[k]? with
    | some (.prefer _ idx value) =>
      some { current := idx, calls := s.calls.set k (.answered (.ok value)) }
    | some (.rotate idx e) =>
      some { current := (idx + 1) % count, calls := s.calls.set k (.submitted (.error e)) }
    | _ => none

end CelestiaClient

def celestiaClient (T : Type) (count : ℕ) : Machine (CelestiaClient T) (CelestiaClient.Act T) where
  init s := s = ⟨0, []⟩
  step := CelestiaClient.step count

end ForwardingRelayer
