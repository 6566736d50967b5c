import ForwardingRelayer.Lib.Text
import ForwardingRelayer.Lib.Hex
import ForwardingRelayer.Lib.Sha256
import ForwardingRelayer.Lib.Bech32

/-!
# Address derivation

`deriveForwardingAddress` decodes its five arguments into a `Commitment`, what the address
commits to, and hashes the commitment's bytes. The two third-party functions it calls, SHA-256
and the bech32 encoding, are the fields of a `Crypto`; `Crypto.standard` has the real ones.
-/

namespace ForwardingRelayer

structure Crypto where
  sha256 : List UInt8 → List UInt8
  /-- `bech32::encode` under the `celestia` prefix. Twenty bytes are within the length it
  encodes, so it does not fail here. -/
  bech32 : List UInt8 → String

def Crypto.standard : Crypto where
  sha256 := Sha256.digest
  bech32 := Bech32.encode "celestia".toList

abbrev Bytes32 := {bytes : List UInt8 // bytes.length = 32}

/-- A hook that is not the mailbox default. -/
abbrev Hook := {bytes : Bytes32 // bytes.1.all (· == 0) = false}

abbrev Metadata := {bytes : List UInt8 // bytes ≠ []}

/-- What an address commits to: the arguments' decoded meaning. -/
structure Commitment where
  destDomain : UInt32
  recipient : Bytes32
  tokenId : List UInt8
  hook : Option Hook
  metadata : Option Metadata
  deriving DecidableEq

/-- The text with its leading `0x` taken off. -/
def hexOf (s : String) : List Char := Text.trimStartMatches ['0', 'x'] s.toList

def decodeRecipient (destRecipient : String) : Except String Bytes32 :=
  match Hex.decode (hexOf destRecipient) with
  | none => .error "Failed to decode dest_recipient as hex"
  | some bytes =>
    if h : bytes.length = 32 then .ok ⟨bytes, h⟩
    else .error ("dest_recipient must be exactly 32 bytes, got " ++ toString bytes.length)

def decodeTokenId (tokenId : String) : Except String (List UInt8) :=
  match Hex.decode (hexOf tokenId) with
  | none => .error "Failed to decode token_id as hex"
  | some bytes => .ok bytes

/-- Absent, empty and all-zero mean the mailbox default hook. -/
def decodeHook : Option String → Except String (Option Hook)
  | none => .ok none
  | some hook =>
    if hexOf hook = [] then .ok none
    else
      match Hex.decode (hexOf hook) with
      | none => .error "Failed to decode custom_hook_id as hex"
      | some bytes =>
        if h : bytes.length = 32 then
          if hz : bytes.all (· == 0) = false then .ok (some ⟨⟨bytes, h⟩, hz⟩)
          else .ok none
        else .error ("custom_hook_id must be exactly 32 bytes, got " ++ toString bytes.length)

def decodeMetadata : Option String → Except String (Option Metadata)
  | none => .ok none
  | some metadata =>
    if hm : hexOf metadata = [] then .ok none
    else
      match h : Hex.decode (hexOf metadata) with
      | none => .error "Failed to decode custom_hook_metadata as hex"
      | some bytes => .ok (some ⟨bytes, fun hb => hm (Hex.eq_nil_of_decode (hb ▸ h))⟩)

/-- The decoding half of `derive_forwarding_address`, in the order it checks its arguments. -/
def decodeArgs (destDomain : UInt32) (destRecipient tokenId : String)
    (customHookId customHookMetadata : Option String) : Except String Commitment := do
  let recipient ← decodeRecipient destRecipient
  let tokenId ← decodeTokenId tokenId
  let hook ← decodeHook customHookId
  let metadata ← decodeMetadata customHookMetadata
  return { destDomain, recipient, tokenId, hook, metadata }

/-- `dest_domain` right-aligned in 32 big-endian bytes. -/
def domainBytes (d : UInt32) : List UInt8 :=
  List.replicate 28 (0 : UInt8)
    ++ [(d >>> 24).toUInt8, (d >>> 16).toUInt8, (d >>> 8).toUInt8, d.toUInt8]

namespace Commitment

def bound (c : Commitment) : Bool := c.hook.isSome || c.metadata.isSome

/-- The hook in its fixed width, zeroes when absent. -/
def hookBytes (c : Commitment) : List UInt8 :=
  match c.hook with
  | some hook => hook.1.1
  | none => List.replicate 32 0

def metadataBytes (c : Commitment) : List UInt8 :=
  match c.metadata with
  | some metadata => metadata.1
  | none => []

def tail (c : Commitment) : List UInt8 :=
  if c.bound then c.hookBytes ++ c.metadataBytes else []

/-- The bytes fed to the `callDigest` hash. -/
def callPreimage (c : Commitment) : List UInt8 :=
  domainBytes c.destDomain ++ c.recipient.1 ++ c.tokenId ++ c.tail

end Commitment

def forwardVersion : UInt8 := 1

/-- The address over a `callDigest` preimage: `address.Module("forwarding", salt)[:20]` in
bech32. -/
def Crypto.moduleAddress (C : Crypto) (preimage : List UInt8) : String :=
  let callDigest := C.sha256 preimage
  let salt := C.sha256 ([forwardVersion] ++ callDigest)
  let th := C.sha256 [0x6d, 0x6f, 0x64, 0x75, 0x6c, 0x65]
  let forwarding := [0x66, 0x6f, 0x72, 0x77, 0x61, 0x72, 0x64, 0x69, 0x6e, 0x67]
  let addrHash := C.sha256 (th ++ forwarding ++ [0x00] ++ salt)
  C.bech32 (addrHash.take 20)

def deriveForwardingAddress (C : Crypto) (destDomain : UInt32) (destRecipient tokenId : String)
    (customHookId customHookMetadata : Option String) : Except String String := do
  let c ← decodeArgs destDomain destRecipient tokenId customHookId customHookMetadata
  return C.moduleAddress c.callPreimage

set_option maxRecDepth 4000 in
example : deriveForwardingAddress .standard 42161
    "0x0000000000000000000000001234567890abcdef1234567890abcdef12345678"
    "0x726f757465725f61707000000000000000000000000000010000000000000001" none none
    = .ok "celestia1x8dplhx74cdnguq3sxdhgmw8mp30s3z57qnade" := by
  decide +kernel

end ForwardingRelayer
