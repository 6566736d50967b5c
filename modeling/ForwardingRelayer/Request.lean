import Mathlib.Algebra.Group.Int.Defs
import Mathlib.Data.String.Basic
import ForwardingRelayer.Lib.Sort

/-!
# Forwarding requests

The records the backend and the relayer exchange.
-/

namespace ForwardingRelayer

/-- Forwarding request from the backend API. -/
structure ForwardingRequest where
  forwardAddr : String
  destDomain : UInt32
  destRecipient : String
  tokenId : String
  /-- Post-dispatch hook the address is bound to. -/
  customHookId : Option String
  customHookMetadata : Option String
  createdAt : String
  deriving DecidableEq, Repr

/-- Request body for creating a forwarding request. -/
structure CreateForwardingRequest where
  forwardAddr : String
  destDomain : UInt32
  destRecipient : String
  tokenId : String
  customHookId : Option String
  customHookMetadata : Option String
  deriving DecidableEq, Repr

structure Balance where
  denom : String
  amount : String
  deriving DecidableEq, Repr

/-- The coins are sorted by their denomination alone. -/
def balancesEqual (a b : List Balance) : Bool :=
  if a.length ≠ b.length then false
  else
    let a := a.map fun c => (c.denom, c.amount)
    let b := b.map fun c => (c.denom, c.amount)
    a.sortByKey Prod.fst == b.sortByKey Prod.fst

end ForwardingRelayer
