import Mathlib.Data.List.AList
import ForwardingRelayer.Lib.Decimal
import ForwardingRelayer.Lib.Machine
import ForwardingRelayer.Config

/-!
# Fee quotes

`resolve_max_igp_fee` runs in two stretches, before and after its query is awaited. The first
answers from `fee_cache`, or sends the query; the second takes the query's result and fills the
cache. `feeCalls` is the cache under any number of calls, their stretches in any order.
-/

namespace ForwardingRelayer

/-- `FEE_CACHE_TTL` in nanoseconds; an `Instant` is their number since some fixed one. -/
def feeCacheTtl : ℕ := 60 * 10 ^ 9

abbrev FeeKey := UInt32 × String

def feeKey (request : ForwardingRequest) : FeeKey := (request.destDomain, request.tokenId)

abbrev FeeCache := AList fun _ : FeeKey => Float × ℕ

/-- The quote under a key, if it is fresh. -/
def FeeCache.cached (cache : FeeCache) (key : FeeKey) (now : ℕ) : Option Float :=
  match cache.lookup key with
  | some (fee, at_) => if now - at_ < feeCacheTtl then some fee else none
  | none => none

/-- The query a call sends when no fresh quote is cached. -/
def feeQuery (config : RelayerConfig) (request : ForwardingRequest) :
    QueryQuoteForwardingFeeRequest :=
  CelestiaClient.quoteRequest request.destDomain request.tokenId (hookBinding request config)

def quotedFee (result : Except String QueryQuoteForwardingFeeResponse) : Option Float :=
  match CelestiaClient.queryIgpFee result with
  | .ok fee => (Decimal.parse fee.toList).map Decimal.toFloat
  | .error _ => none

def FeeCache.fill (cache : FeeCache) (key : FeeKey) (now : ℕ)
    (result : Except String QueryQuoteForwardingFeeResponse) : FeeCache :=
  match quotedFee result with
  | some fee => cache.insert key (fee, now)
  | none => cache

def maxIgpFee (config : RelayerConfig) (quoted : Float) : String :=
  toString (quoted * config.igpFeeBuffer).toUInt64 ++ "utia"

structure FeeCalls where
  cache : FeeCache
  now : ℕ
  /-- The calls whose query is awaited, each with the query it sent. -/
  quoting : List (ForwardingRequest × QueryQuoteForwardingFeeRequest)

inductive FeeCalls.Act
  | elapse (d : ℕ)
  | call (request : ForwardingRequest)
  | reply (i : ℕ) (result : Except String QueryQuoteForwardingFeeResponse)

def feeCalls (config : RelayerConfig) : Machine FeeCalls FeeCalls.Act where
  init s := s.cache = ∅ ∧ s.quoting = []
  step s
    | .elapse d => some { s with now := s.now + d }
    | .call request =>
      match s.cache.cached (feeKey request) s.now with
      | some _ => some s
      | none => some { s with quoting := s.quoting ++ [(request, feeQuery config request)] }
    | .reply i result =>
      match s.quoting[i]? with
      | none => none
      | some (request, _) =>
        some { s with
          cache := s.cache.fill (feeKey request) s.now result
          quoting := s.quoting.eraseIdx i }

namespace FeeCalls

abbrev Step := Event FeeCalls Act

/-- The call a step ends with a fee, and the quote that fee is computed from. -/
def quoteUsed (e : Step) : Option (ForwardingRequest × Float) :=
  match e.act with
  | .elapse _ => none
  | .call request => (e.pre.cache.cached (feeKey request) e.pre.now).map (request, ·)
  | .reply i result =>
    match e.pre.quoting[i]?, quotedFee result with
    | some (request, _), some fee => some (request, fee)
    | _, _ => none

/-- The query the chain answers at a step, with its answer. -/
def chainAnswer (e : Step) :
    Option (QueryQuoteForwardingFeeRequest × QueryQuoteForwardingFeeResponse) :=
  match e.act with
  | .reply i (.ok response) => (e.pre.quoting[i]?).map (·.2, response)
  | _ => none

/-- The entry a step fills. -/
def filled (e : Step) : Option FeeKey :=
  match e.act with
  | .reply _ _ => (quoteUsed e).map fun used => feeKey used.1
  | _ => none

end FeeCalls

end ForwardingRelayer
