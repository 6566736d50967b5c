import Mathlib.Logic.Function.Basic
import ForwardingRelayer.Backend
import ForwardingRelayer.System

/-!
# Relayers at one backend

Any number of relayers, and clients, call one backend. A `GET` is answered at some time before its
tick is given the list, or after the tick has given up. A `DELETE` is on its way from when the tick
sends it; it is delivered at any time, in any order, whether the tick still waits for the answer,
has timed out or is lost with its process, or never.
-/

namespace ForwardingRelayer

/-- What a `GET` is answered with. The serial number, which is not sent, tells it from others. -/
structure Listing where
  serial : ℕ
  requests : List ForwardingRequest

/-- A `DELETE` on its way. Only the address is sent; the rest is where it comes from. -/
structure Deletion (ι : Type) where
  relayer : ι
  addr : String
  listing : Option Listing

structure Network (ι : Type) where
  backend : BackendStorage
  /-- The number of `GET`s answered. -/
  served : ℕ
  relayers : ι → Relayer
  /-- The answer to the `GET` of a relayer's tick. -/
  listing : ι → Option Listing
  deletions : List (Deletion ι)

namespace Network

inductive Act (ι : Type)
  | post (createdAt : String) (req : CreateForwardingRequest)
  | serve (i : ι)
  | deliver (n : ℕ)
  | relayer (i : ι) (act : Relayer.Act)

variable {ι : Type}

/-- A tick is given the list its `GET` was answered with. -/
def answered (s : Network ι) (i : ι) : Relayer.Act → Bool
  | .tick (.fetch (some requests)) => (s.listing i).any fun l => l.requests == requests
  | _ => true

/-- The `GET` of a new tick, or of a new process, is yet to be answered. -/
def listingAfter (l : Option Listing) : Relayer.Act → Option Listing
  | .tick .wake | .crash _ _ => none
  | _ => l

def sent (s : Network ι) (i : ι) : Relayer.Act → List (Deletion ι)
  | .tick .delete =>
    match (s.relayers i).tick with
    | .clear _ _ addr [] _ => [⟨i, addr, s.listing i⟩]
    | _ => []
  | _ => []

variable [DecidableEq ι]

def step (C : Crypto) (env : ι → RelayerEnv) (s : Network ι) : Act ι → Option (Network ι)
  | .post createdAt req =>
    some { s with backend := (Backend.createRequest C createdAt s.backend req).2 }
  | .serve i =>
    match (s.relayers i).tick, s.listing i with
    | .start, none =>
      some { s with
        served := s.served + 1
        listing := Function.update s.listing i (some ⟨s.served, s.backend.listRequests⟩) }
    | _, _ => none
  | .deliver n =>
    (s.deletions[n]?).map fun m =>
      { s with
        backend := (Backend.completeRequest s.backend m.addr).2
        deletions := s.deletions.eraseIdx n }
  | .relayer i act =>
    if s.answered i act then
      ((s.relayers i).step (env i) act).map fun r =>
        { s with
          relayers := Function.update s.relayers i r
          listing := Function.update s.listing i (listingAfter (s.listing i) act)
          deletions := s.deletions ++ s.sent i act }
    else none

end Network

/-- The backend starts with no rows, and each relayer over any store. -/
def network {ι : Type} [DecidableEq ι] (C : Crypto) (env : ι → RelayerEnv) :
    Machine (Network ι) (Network.Act ι) where
  init s := s.backend = .empty ∧ (∀ i, (relayer (env i)).init (s.relayers i))
    ∧ (∀ i, s.listing i = none) ∧ s.deletions = []
  step := Network.step C env

end ForwardingRelayer
