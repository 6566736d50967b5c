import ForwardingRelayer.Relayer

/-!
# A forward attempt

`forward_address` as the states between its lock sections, clock readings and awaits. What a
remote call gives, and whether a write to the store goes through, comes with the step.
-/

namespace ForwardingRelayer

open RelayerState

/-- The `status` a run of `forward_address` is counted under; `notLive` is not counted. -/
inductive ForwardStatus
  | notLive
  | backoff
  | queryFailed
  | emptyBalance
  | feeFailed
  | submitted
  | submitFailed
  deriving DecidableEq

/-- Where a run of `forward_address` is. -/
inductive Call
  | resolve
  | backoff (request : ForwardingRequest)
  /-- The address has a backoff; the clock is read next. -/
  | compare (request : ForwardingRequest) (nextAttempt : ℤ)
  | query (request : ForwardingRequest)
  /-- The balance is not empty; once its activity is recorded, the fee is resolved. -/
  | record (request : ForwardingRequest) (ops : List Op)
  | fee (request : ForwardingRequest)
  | quote (request : ForwardingRequest)
  | submit (request : ForwardingRequest) (msg : MsgForward)
  /-- What is left to do before it returns. -/
  | close (status : ForwardStatus) (ops : List Op)
  | done (status : ForwardStatus)

/-- What a step gets from outside. -/
inductive Call.Input
  | go (stored : Bool)
  | balances (result : Option (List Balance))
  | quoted (result : Except String QueryQuoteForwardingFeeResponse)
  | submitted (ok : Bool)

def forwardCall (env : RelayerEnv) (addr : String) (request : ForwardingRequest) (quoted : Float) :
    Call :=
  .submit request
    (forwardMessage env.config env.signerAddress addr (maxIgpFee env.config quoted) request)

def Call.step (env : RelayerEnv) (now : ℕ) (addr : String) (s : RelayerState) :
    Call → Call.Input → Option (RelayerState × Call)
  | .resolve, .go _ =>
    match s.live.lookup addr with
    | some request => some (s, .backoff request)
    | none => some (s, .done .notLive)
  | .backoff request, .go _ =>
    match s.retryState.lookup addr with
    | some state => some (s, .compare request state.nextAttempt)
    | none => some (s, .query request)
  | .compare request nextAttempt, .go _ =>
    if now < nextAttempt then some (s, .done .backoff) else some (s, .query request)
  | .query _, .balances none => some (s, .close .queryFailed noteFailure)
  | .query _, .balances (some []) => some (s, .close .emptyBalance clearRetryState)
  | .query request, .balances (some (_ :: _)) => some (s, .record request recordActivity)
  | .record request (op :: ops), .go stored =>
    let (s', next) := s.runOp now stored addr op
    some (s', .record request (next ++ ops))
  | .record request [], .go _ => some (s, .fee request)
  | .fee request, .go _ =>
    match s.feeCache.cached (feeKey request) now with
    | some quoted => some (s, forwardCall env addr request quoted)
    | none => some (s, .quote request)
  | .quote request, .quoted result =>
    match quotedFee result with
    | some quoted =>
      some ({ s with feeCache := s.feeCache.fill (feeKey request) now result },
        forwardCall env addr request quoted)
    | none => some (s, .close .feeFailed noteFailure)
  | .submit _ _, .submitted true => some (s, .close .submitted (clearRetryState ++ recordActivity))
  | .submit _ _, .submitted false => some (s, .close .submitFailed noteFailure)
  | .close status (op :: ops), .go stored =>
    let (s', next) := s.runOp now stored addr op
    some (s', .close status (next ++ ops))
  | .close status [], .go _ => some (s, .done status)
  | _, _ => none

end ForwardingRelayer
