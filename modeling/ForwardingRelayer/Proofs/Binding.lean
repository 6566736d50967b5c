import ForwardingRelayer.Config
import ForwardingRelayer.Proofs.Backend

/-!
# The pair a forward carries

A row the backend holds was derived with its own hook and metadata. The message the relayer builds
from it sends the metadata on as it is, and the hook too, unless the row names none and the
configured one is sent in its place: that changes what the message's fields derive to, if the
configured hook is one.
-/

namespace ForwardingRelayer

/-- The arguments a message's fields stand for. -/
def MsgForward.deriveArgs (m : MsgForward) : DeriveArgs :=
  ⟨m.destDomain, m.destRecipient, m.tokenId, some m.customHookId, some m.customHookMetadata⟩

theorem decodeHook_getD (hook : Option String) :
    decodeHook (some (hook.getD "")) = decodeHook hook := by
  rcases hook with _ | h
  · rfl
  · rfl

theorem decodeMetadata_getD (metadata : Option String) :
    decodeMetadata (some (metadata.getD "")) = decodeMetadata metadata := by
  rcases metadata with _ | m
  · rfl
  · rfl

namespace Commitment

/-- Giving an unhooked commitment a hook changes what is hashed. -/
theorem callPreimage_ne_of_hook {c : Commitment} (hc : c.hook = none) (hook : Hook) :
    { c with hook := some hook }.callPreimage ≠ c.callPreimage := by
  intro h
  rcases eq_or_overlaps h with heq | ho | ho
  · rw [← heq] at hc
    simp at hc
  · exact not_overlaps_of_length_eq (by rfl) ho
  · exact not_overlaps_of_length_eq (by rfl) ho

end Commitment

section Message

variable {C : Crypto} {cfg : RelayerConfig} {signer fee : String} {r : ForwardingRequest}

theorem forwardMessage_decode_eq_ok_iff {c : Commitment} :
    (forwardMessage cfg signer r.forwardAddr fee r).deriveArgs.decode = .ok c ↔
      r.destDomain = c.destDomain ∧ decodeRecipient r.destRecipient = .ok c.recipient
        ∧ decodeTokenId r.tokenId = .ok c.tokenId
        ∧ decodeHook (r.customHookId.or cfg.customIgpHook) = .ok c.hook
        ∧ decodeMetadata r.customHookMetadata = .ok c.metadata := by
  rw [DeriveArgs.decode_eq_ok_iff, ← decodeHook_getD (r.customHookId.or _),
    ← decodeMetadata_getD r.customHookMetadata]
  rfl

/-- A message built from a derived row derives to the row's address just when the row names its
hook or the configured one is none. -/
theorem forwardMessage_derive_iff (hr : r.deriveArgs.derive C = .ok r.forwardAddr)
    (hC : C.CollisionFreeOn (r.deriveArgs.preimages
      ∪ (forwardMessage cfg signer r.forwardAddr fee r).deriveArgs.preimages)) :
    (forwardMessage cfg signer r.forwardAddr fee r).deriveArgs.derive C = .ok r.forwardAddr ↔
      r.customHookId.isSome ∨ decodeHook cfg.customIgpHook = .ok none := by
  obtain ⟨c, hc, haddr⟩ := DeriveArgs.derive_eq_ok_iff.1 hr
  obtain ⟨h1, h2, h3, h4, h5⟩ := DeriveArgs.decode_eq_ok_iff.1 hc
  simp only [ForwardingRequest.deriveArgs] at h1 h2 h3 h4 h5
  have hkept : decodeHook (r.customHookId.or cfg.customIgpHook) = .ok c.hook →
      (forwardMessage cfg signer r.forwardAddr fee r).deriveArgs.derive C = .ok r.forwardAddr :=
    fun h => DeriveArgs.derive_eq_ok_iff.2
      ⟨c, forwardMessage_decode_eq_ok_iff.2 ⟨h1, h2, h3, h, h5⟩, haddr⟩
  rcases hh : r.customHookId with _ | hook <;>
    simp only [hh, Option.none_or, Option.some_or, Option.isSome_some, Option.isSome_none,
      Bool.false_eq_true, false_or, true_or, iff_true] at h4 hkept ⊢
  · have hnone : c.hook = none := by
      simpa [decodeHook] using h4.symm
    constructor
    · intro h
      obtain ⟨d, hd, haddr'⟩ := DeriveArgs.derive_eq_ok_iff.1 h
      obtain ⟨g1, g2, g3, g4, g5⟩ := forwardMessage_decode_eq_ok_iff.1 hd
      simp only [hh, Option.none_or] at g4
      rcases hdh : d.hook with _ | hook
      · rw [g4, hdh]
      · have hpre : d.callPreimage = c.callPreimage :=
          hC (.inr ⟨d, hd, rfl⟩) (.inl ⟨c, hc, rfl⟩) (haddr'.symm.trans haddr)
        have hdc : d = { c with hook := some hook } := by
          rw [h1] at g1
          rw [h2, Except.ok.injEq] at g2
          rw [h3, Except.ok.injEq] at g3
          rw [h5, Except.ok.injEq] at g5
          cases d
          cases c
          simp_all
        exact absurd (hdc ▸ hpre) (Commitment.callPreimage_ne_of_hook hnone hook)
    · intro h
      exact hkept (by rw [h, hnone])
  · exact hkept h4

end Message

/-- The forward of an address whose `POST` was accepted carries the pair the address was derived
with just when the stored request names its hook or the configured hook is none. -/
theorem forward_carries_pair_iff {C : Crypto} (cfg : RelayerConfig) (signer fee createdAt : String)
    {db : BackendStorage} (hdb : (backend C).Reachable db) {req : CreateForwardingRequest}
    {row r : ForwardingRequest}
    (hpost : (Backend.createRequest C createdAt db req).1.accepted = some row)
    (hlist : r ∈ (Backend.createRequest C createdAt db req).2.listRequests)
    (haddr : r.forwardAddr = req.forwardAddr)
    (hC : C.CollisionFreeOn (r.deriveArgs.preimages
      ∪ (forwardMessage cfg signer r.forwardAddr fee r).deriveArgs.preimages)) :
    r = row
      ∧ ((forwardMessage cfg signer r.forwardAddr fee r).deriveArgs.derive C
          = .ok (forwardMessage cfg signer r.forwardAddr fee r).forwardAddr
        ↔ r.customHookId.isSome ∨ decodeHook cfg.customIgpHook = .ok none) := by
  have hstep : (backend C).step db (.post createdAt req)
      = some (Backend.createRequest C createdAt db req).2 := rfl
  have hder := derived_of_reachable C (hdb.step hstep)
  rw [BackendStorage.mem_listRequests] at hlist
  obtain ⟨hrow, hrowa⟩ := mem_of_accepted C hpost
  refine ⟨BackendStorage.eq_of_forwardAddr_eq _ hlist hrow (haddr.trans hrowa.symm), ?_⟩
  exact forwardMessage_derive_iff (hder r hlist) hC

def plainRequest : CreateForwardingRequest where
  forwardAddr := "celestia1ylsv278jc3x73hwshdv8sgrfkeg9fwv8cx5zxa"
  destDomain := plainArgs.destDomain
  destRecipient := plainArgs.destRecipient
  tokenId := plainArgs.tokenId
  customHookId := none
  customHookMetadata := none

def plainRow : ForwardingRequest :=
  BackendStorage.rowOf "2024-01-15T10:30:00+00:00" plainRequest

/-- The default configuration, with `CUSTOM_IGP_HOOK` set or not. -/
def configWithHook (hook : Option String) : RelayerConfig where
  customIgpHook := hook
  forwardConcurrency := 64
  igpFeeBuffer := 1.1
  maxRequestAgeSeconds := 86400
  maxAddressInactivitySeconds := 604800

/-- A request with its derived address is stored in the empty table. -/
theorem createRequest_empty {createdAt : String} {req : CreateForwardingRequest}
    (h : deriveForwardingAddress .standard req.destDomain req.destRecipient req.tokenId
      req.customHookId req.customHookMetadata = .ok req.forwardAddr) :
    (Backend.createRequest .standard createdAt .empty req).1
        = .created (BackendStorage.rowOf createdAt req)
      ∧ (Backend.createRequest .standard createdAt .empty req).2.rows
        = [BackendStorage.rowOf createdAt req] := by
  unfold Backend.createRequest
  rw [h]
  simp only [if_true]
  exact ⟨rfl, rfl⟩

theorem plainRequest_created :
    (Backend.createRequest .standard "2024-01-15T10:30:00+00:00" .empty plainRequest).1
        = .created plainRow
      ∧ (Backend.createRequest .standard "2024-01-15T10:30:00+00:00" .empty plainRequest).2.rows
        = [plainRow] :=
  createRequest_empty plainArgs_derive

def boundRequest : CreateForwardingRequest :=
  { plainRequest with
    forwardAddr := "celestia17g3ur44aaf29eh8qknnt0cwhtgyrjdk8havgln"
    customHookId := boundArgs.customHookId }

def boundRow : ForwardingRequest :=
  BackendStorage.rowOf "2024-01-15T10:30:00+00:00" boundRequest

/-- A request's own hook is kept where another one is configured. A configured hook in place of none
takes the forward to another address, and no collision stands between the two. -/
theorem forward_carries_pair_iff_hooked :
    (forwardMessage (configWithHook (some plainArgs.tokenId)) "celestia1signer"
        boundRow.forwardAddr "1100utia" boundRow).deriveArgs.derive .standard
      = .ok boundRow.forwardAddr
    ∧ (forwardMessage (configWithHook boundArgs.customHookId) "celestia1signer"
        plainRow.forwardAddr "1100utia" plainRow).deriveArgs.derive .standard
      ≠ .ok plainRow.forwardAddr := by
  constructor
  · have hpost := @createRequest_empty "2024-01-15T10:30:00+00:00" boundRequest boundArgs_derive
    refine (@forward_carries_pair_iff .standard (configWithHook (some plainArgs.tokenId))
      "celestia1signer" "1100utia" "2024-01-15T10:30:00+00:00" .empty ⟨[], .init rfl⟩ boundRequest
      boundRow boundRow (by rw [hpost.1]; rfl)
      (by rw [BackendStorage.mem_listRequests, hpost.2]; exact List.mem_singleton_self _)
      rfl ?_).2.2 (.inl rfl)
    have heq : (forwardMessage (configWithHook (some plainArgs.tokenId)) "celestia1signer"
        boundRow.forwardAddr "1100utia" boundRow).deriveArgs.decode
        = boundRow.deriveArgs.decode := rfl
    rintro p hp q hq -
    simp only [DeriveArgs.preimages, heq, Set.union_self, Set.mem_ofPred_eq] at hp hq
    obtain ⟨c, hc, rfl⟩ := hp
    obtain ⟨d, hd, rfl⟩ := hq
    rw [hc, Except.ok.injEq] at hd
    rw [hd]
  · have hpost := plainRequest_created
    have hcarried : (forwardMessage (configWithHook boundArgs.customHookId) "celestia1signer"
        plainRow.forwardAddr "1100utia" plainRow).deriveArgs.derive .standard
        = .ok boundRow.forwardAddr := boundArgs_derive
    intro h
    have hkept := (@forward_carries_pair_iff .standard (configWithHook boundArgs.customHookId)
      "celestia1signer" "1100utia" "2024-01-15T10:30:00+00:00" .empty ⟨[], .init rfl⟩ plainRequest
      plainRow plainRow (by rw [hpost.1]; rfl)
      (by rw [BackendStorage.mem_listRequests, hpost.2]; exact List.mem_singleton_self _) rfl
      (Crypto.collisionFreeOn_of_ne plainArgs_derive hcarried (by decide))).2.1 h
    exact absurd hkept (by decide)

/-- The plain request is accepted and listed; with a hook configured the forward built from it
carries that hook, and its fields derive to another address. -/
theorem configured_hook_replaces_none :
    (Backend.createRequest .standard "2024-01-15T10:30:00+00:00" .empty plainRequest).1
        = .created plainRow
      ∧ plainRow ∈ (Backend.createRequest .standard "2024-01-15T10:30:00+00:00" .empty
        plainRequest).2.listRequests
      ∧ (forwardMessage (configWithHook boundArgs.customHookId) "celestia1signer"
          plainRow.forwardAddr "1100utia" plainRow).deriveArgs.derive .standard
        ≠ .ok plainRow.forwardAddr := by
  refine ⟨plainRequest_created.1, ?_, ?_⟩
  · rw [BackendStorage.mem_listRequests, plainRequest_created.2]
    simp
  · have h : (forwardMessage (configWithHook boundArgs.customHookId) "celestia1signer"
        plainRow.forwardAddr "1100utia" plainRow).deriveArgs.decode = boundArgs.decode := rfl
    obtain ⟨d, hd, hy⟩ := DeriveArgs.derive_eq_ok_iff.1 boundArgs_derive
    rw [DeriveArgs.derive_eq_ok_iff.2 ⟨d, h.trans hd, hy⟩]
    decide

end ForwardingRelayer
