import ForwardingRelayer.Lib.Text
import ForwardingRelayer.Request

/-!
# The Celestia client

The messages the client builds. A hook binding travels as a pair; a part that is absent is sent as
the empty string.
-/

namespace ForwardingRelayer

structure HookBinding where
  hookId : Option String
  metadata : Option String
  deriving DecidableEq

structure Coin where
  denom : String
  amount : String
  deriving DecidableEq

structure MsgForward where
  signer : String
  forwardAddr : String
  destDomain : UInt32
  destRecipient : String
  tokenId : String
  maxIgpFee : Option Coin
  customHookId : String
  customHookMetadata : String
  deriving DecidableEq

structure QueryQuoteForwardingFeeRequest where
  destDomain : UInt32
  tokenId : String
  customHookId : String
  customHookMetadata : String
  deriving DecidableEq

structure QueryQuoteForwardingFeeResponse where
  fee : Option Coin
  deriving DecidableEq

namespace CelestiaClient

/-- The coin a fee such as `1100utia` is parsed into. -/
def parseMaxIgpFee (maxIgpFee : String) : Coin where
  denom := if Text.endsWith "utia".toList maxIgpFee.toList then "utia" else "utoken"
  amount := String.ofList <| Text.trimEndMatches "utoken".toList <|
    Text.trimEndMatches "utia".toList maxIgpFee.toList

def msgForward (signerAddress forwardAddr : String) (destDomain : UInt32)
    (destRecipient tokenId maxIgpFee : String) (hook : HookBinding) : MsgForward where
  signer := signerAddress
  forwardAddr := forwardAddr
  destDomain := destDomain
  destRecipient := destRecipient
  tokenId := tokenId
  maxIgpFee := some (parseMaxIgpFee maxIgpFee)
  customHookId := hook.hookId.getD ""
  customHookMetadata := hook.metadata.getD ""

def quoteRequest (destDomain : UInt32) (tokenId : String) (hook : HookBinding) :
    QueryQuoteForwardingFeeRequest where
  destDomain := destDomain
  tokenId := tokenId
  customHookId := hook.hookId.getD ""
  customHookMetadata := hook.metadata.getD ""

def quotedAmount (response : QueryQuoteForwardingFeeResponse) : String :=
  match response.fee with
  | some fee => fee.amount
  | none => "0"

/-- What `query_igp_fee` returns, from what trying the endpoints gave. A failure on all of them
comes back as a fee of zero. -/
def queryIgpFee (result : Except String QueryQuoteForwardingFeeResponse) :
    Except String String :=
  match result with
  | .ok response => .ok (quotedAmount response)
  | .error _ => .ok "0"

end CelestiaClient

end ForwardingRelayer
