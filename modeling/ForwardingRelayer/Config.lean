import ForwardingRelayer.Client

/-!
# The relayer's configuration
-/

namespace ForwardingRelayer

structure RelayerConfig where
  customIgpHook : Option String
  forwardConcurrency : ℕ
  igpFeeBuffer : Float
  maxRequestAgeSeconds : UInt64
  maxAddressInactivitySeconds : UInt64

/-- The address commits to the request's own pair, so it wins; `CUSTOM_IGP_HOOK` stands in for a
hook the request does not name. -/
def hookBinding (request : ForwardingRequest) (config : RelayerConfig) : HookBinding where
  hookId := request.customHookId.or config.customIgpHook
  metadata := request.customHookMetadata

def forwardMessage (config : RelayerConfig) (signerAddress forwardAddr maxIgpFee : String)
    (request : ForwardingRequest) : MsgForward :=
  CelestiaClient.msgForward signerAddress forwardAddr request.destDomain request.destRecipient
    request.tokenId maxIgpFee (hookBinding request config)

end ForwardingRelayer
