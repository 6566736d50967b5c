import Mathlib.Data.Set.Function
import ForwardingRelayer.Address
import ForwardingRelayer.Lib.Fallible

/-!
# What an address commits to

Up to the token id the hashed bytes have fixed widths, so two commitments that agree there differ
only in how the rest is cut: a token id of any length, then the hook in 32 bytes and the metadata,
or nothing. The cut is recovered when the token ids have one length. When they do not, the longer
token id can take in what the other commits to after its own (`Overlaps`).
-/

namespace ForwardingRelayer

structure DeriveArgs where
  destDomain : UInt32
  destRecipient : String
  tokenId : String
  customHookId : Option String
  customHookMetadata : Option String

namespace DeriveArgs

def decode (a : DeriveArgs) : Except String Commitment :=
  decodeArgs a.destDomain a.destRecipient a.tokenId a.customHookId a.customHookMetadata

def derive (a : DeriveArgs) (C : Crypto) : Except String String :=
  deriveForwardingAddress C a.destDomain a.destRecipient a.tokenId a.customHookId
    a.customHookMetadata

theorem decode_eq_ok_iff {a : DeriveArgs} {c : Commitment} :
    a.decode = .ok c ↔
      a.destDomain = c.destDomain ∧ decodeRecipient a.destRecipient = .ok c.recipient
        ∧ decodeTokenId a.tokenId = .ok c.tokenId ∧ decodeHook a.customHookId = .ok c.hook
        ∧ decodeMetadata a.customHookMetadata = .ok c.metadata := by
  unfold decode decodeArgs
  simp only [Except.bind_eq_ok_iff, Except.pure_eq_ok_iff]
  constructor
  · rintro ⟨recipient, h1, tokenId, h2, hook, h3, metadata, h4, rfl⟩
    exact ⟨rfl, h1, h2, h3, h4⟩
  · rintro ⟨hdomain, h1, h2, h3, h4⟩
    exact ⟨_, h1, _, h2, _, h3, _, h4, by rw [hdomain]⟩

theorem derive_eq_ok_iff {a : DeriveArgs} {C : Crypto} {addr : String} :
    a.derive C = .ok addr ↔
      ∃ c, a.decode = .ok c ∧ addr = C.moduleAddress c.callPreimage := by
  unfold derive deriveForwardingAddress decode
  rw [Except.bind_eq_ok_iff]
  simp only [Except.pure_eq_ok_iff, eq_comm (a := addr)]

/-- The bytes hashed for these arguments, if they decode. -/
def preimages (a : DeriveArgs) : Set (List UInt8) :=
  {p | ∃ c, a.decode = .ok c ∧ p = c.callPreimage}

end DeriveArgs

/-- No two of the preimages in `S` get one address. -/
def Crypto.CollisionFreeOn (C : Crypto) (S : Set (List UInt8)) : Prop :=
  Set.InjOn C.moduleAddress S

theorem domainBytes_injective {d e : UInt32} (h : domainBytes d = domainBytes e) : d = e := by
  unfold domainBytes at h
  have hb := List.append_cancel_left h
  simp only [List.cons.injEq, and_true, ← UInt8.toNat_inj, UInt32.toNat_toUInt8,
    UInt32.toNat_shiftRight, Nat.shiftRight_eq_div_pow, UInt32.reduceToNat, Nat.reduceMod,
    Nat.reducePow] at hb
  obtain ⟨h3, h2, h1, h0⟩ := hb
  rw [← UInt32.toNat_inj]
  have hd := d.toNat_lt
  have he := e.toNat_lt
  omega

namespace Commitment

theorem hookBytes_length (c : Commitment) : c.hookBytes.length = 32 := by
  unfold hookBytes
  split
  · rename_i hook _
    exact hook.1.2
  · simp

theorem hook_eq_of_hookBytes {c d : Commitment} (h : c.hookBytes = d.hookBytes) :
    c.hook = d.hook := by
  have hz : ∀ hook : Hook, hook.1.1 ≠ List.replicate 32 0 := by
    intro hook hh
    have := hook.2
    rw [hh] at this
    simp at this
  unfold hookBytes at h
  rcases hc : c.hook with _ | x <;> rcases hd : d.hook with _ | y <;>
    simp only [hc, hd] at h ⊢
  · exact absurd h.symm (hz y)
  · exact absurd h (hz x)
  · exact congrArg some (Subtype.ext (Subtype.ext h))

theorem metadata_eq_of_metadataBytes {c d : Commitment} (h : c.metadataBytes = d.metadataBytes) :
    c.metadata = d.metadata := by
  unfold metadataBytes at h
  rcases hc : c.metadata with _ | x <;> rcases hd : d.metadata with _ | y <;>
    simp only [hc, hd] at h ⊢
  · exact absurd h.symm y.2
  · exact absurd h x.2
  · exact congrArg some (Subtype.ext h)

theorem tail_length_of_bound {c : Commitment} (h : c.bound = true) : 32 ≤ c.tail.length := by
  simp [tail, h, hookBytes_length]

theorem tail_of_not_bound {c : Commitment} (h : c.bound = false) : c.tail = [] := by
  simp [tail, h]

/-- What follows the token id fixes the hook and the metadata. -/
theorem eq_of_tail_eq {c d : Commitment} (h : c.tail = d.tail) :
    c.hook = d.hook ∧ c.metadata = d.metadata := by
  rcases hc : c.bound with _ | _ <;> rcases hd : d.bound with _ | _
  · simp only [bound, Bool.or_eq_false_iff, Option.isSome_eq_false_iff,
      Option.isNone_iff_eq_none] at hc hd
    simp [hc, hd]
  · have := tail_length_of_bound hd
    rw [← h, tail_of_not_bound hc] at this
    simp at this
  · have := tail_length_of_bound hc
    rw [h, tail_of_not_bound hd] at this
    simp at this
  · simp only [tail, hc, hd, if_true] at h
    obtain ⟨h1, h2⟩ := List.append_inj h (by simp [hookBytes_length])
    exact ⟨hook_eq_of_hookBytes h1, metadata_eq_of_metadataBytes h2⟩

theorem callPreimage_eq_iff {c d : Commitment} :
    c.callPreimage = d.callPreimage ↔
      c.destDomain = d.destDomain ∧ c.recipient = d.recipient
        ∧ c.tokenId ++ c.tail = d.tokenId ++ d.tail := by
  constructor
  · intro h
    simp only [callPreimage, List.append_assoc] at h
    obtain ⟨h1, h⟩ := List.append_inj h rfl
    obtain ⟨h2, h3⟩ := List.append_inj h (c.recipient.2.trans d.recipient.2.symm)
    exact ⟨domainBytes_injective h1, Subtype.ext h2, h3⟩
  · rintro ⟨h1, h2, h3⟩
    simp only [callPreimage, List.append_assoc, h1, h2, h3]

/-- `d`'s token id is `c`'s and, after it, the start of what `c` commits to next; the rest of
that is what `d` commits to next. -/
def Overlaps (c d : Commitment) : Prop :=
  c.destDomain = d.destDomain ∧ c.recipient = d.recipient
    ∧ ∃ x, x ≠ [] ∧ d.tokenId = c.tokenId ++ x ∧ c.tail = x ++ d.tail

theorem Overlaps.callPreimage_eq {c d : Commitment} (h : c.Overlaps d) :
    c.callPreimage = d.callPreimage := by
  obtain ⟨h1, h2, x, -, h3, h4⟩ := h
  rw [callPreimage_eq_iff]
  exact ⟨h1, h2, by rw [h3, h4, List.append_assoc]⟩

theorem Overlaps.ne {c d : Commitment} (h : c.Overlaps d) : c ≠ d := by
  rintro rfl
  obtain ⟨-, -, x, hx, h3, -⟩ := h
  exact hx (List.append_cancel_left ((List.append_nil _).trans h3)).symm

theorem not_overlaps_of_length_eq {c d : Commitment} (h : c.tokenId.length = d.tokenId.length) :
    ¬ c.Overlaps d := by
  rintro ⟨-, -, x, hx, h3, -⟩
  have := congrArg List.length h3
  rw [List.length_append, h] at this
  exact hx (List.length_eq_zero_iff.1 (by omega))

/-- One preimage has one commitment, unless the token id of one takes in the other's tail. -/
theorem eq_or_overlaps {c d : Commitment} (h : c.callPreimage = d.callPreimage) :
    c = d ∨ c.Overlaps d ∨ d.Overlaps c := by
  obtain ⟨h1, h2, h3⟩ := callPreimage_eq_iff.1 h
  rcases List.append_eq_append_iff.1 h3 with ⟨x, hx1, hx2⟩ | ⟨x, hx1, hx2⟩
  · rcases eq_or_ne x [] with rfl | hx
    · obtain ⟨h4, h5⟩ := eq_of_tail_eq (c := c) (d := d) (by simpa using hx2)
      refine .inl ?_
      rw [List.append_nil] at hx1
      cases c
      cases d
      simp_all
    · exact .inr (.inl ⟨h1, h2, x, hx, hx1, hx2⟩)
  · rcases eq_or_ne x [] with rfl | hx
    · obtain ⟨h4, h5⟩ := eq_of_tail_eq (c := c) (d := d) (by simpa using hx2.symm)
      refine .inl ?_
      rw [List.append_nil] at hx1
      cases c
      cases d
      simp_all
    · exact .inr (.inr ⟨h1.symm, h2.symm, x, hx, hx1, hx2⟩)

theorem callPreimage_separates_iff (c d : Commitment) :
    (c ≠ d → c.callPreimage ≠ d.callPreimage) ↔ ¬ c.Overlaps d ∧ ¬ d.Overlaps c := by
  constructor
  · intro h
    exact ⟨fun ho => h ho.ne ho.callPreimage_eq,
      fun ho => h ho.ne.symm ho.callPreimage_eq.symm⟩
  · rintro ⟨h1, h2⟩ hne heq
    rcases eq_or_overlaps heq with h | h | h
    · exact hne h
    · exact h1 h
    · exact h2 h

end Commitment

/-- Two accepted tuples with different meanings hash different bytes just when neither token id
runs into what the other tuple commits to after its own. Where the address function has no
collision between the two preimages, this is also when one address means one commitment. -/
theorem derivation_unambiguous_iff (C : Crypto) {a b : DeriveArgs} {x y : String}
    (ha : a.derive C = .ok x) (hb : b.derive C = .ok y) :
    ∃ c d, a.decode = .ok c ∧ b.decode = .ok d
      ∧ ((c ≠ d → c.callPreimage ≠ d.callPreimage) ↔ ¬ c.Overlaps d ∧ ¬ d.Overlaps c)
      ∧ (C.CollisionFreeOn (a.preimages ∪ b.preimages) →
          ((x = y → c = d) ↔ ¬ c.Overlaps d ∧ ¬ d.Overlaps c)) := by
  obtain ⟨c, hc, rfl⟩ := DeriveArgs.derive_eq_ok_iff.1 ha
  obtain ⟨d, hd, rfl⟩ := DeriveArgs.derive_eq_ok_iff.1 hb
  refine ⟨c, d, hc, hd, Commitment.callPreimage_separates_iff c d, fun hC => ?_⟩
  have hinj : C.moduleAddress c.callPreimage = C.moduleAddress d.callPreimage ↔
      c.callPreimage = d.callPreimage := hC.eq_iff (.inl ⟨c, hc, rfl⟩) (.inr ⟨d, hd, rfl⟩)
  rw [← Commitment.callPreimage_separates_iff, hinj]
  exact not_imp_not.symm

/-- Tuples with addresses of their own have no collision between them. -/
theorem Crypto.collisionFreeOn_of_ne {C : Crypto} {a b : DeriveArgs} {x y : String}
    (ha : a.derive C = .ok x) (hb : b.derive C = .ok y) (hxy : x ≠ y) :
    C.CollisionFreeOn (a.preimages ∪ b.preimages) := by
  obtain ⟨c, hc, rfl⟩ := DeriveArgs.derive_eq_ok_iff.1 ha
  obtain ⟨d, hd, rfl⟩ := DeriveArgs.derive_eq_ok_iff.1 hb
  rintro p (⟨e, he, rfl⟩ | ⟨e, he, rfl⟩) q (⟨f, hf, rfl⟩ | ⟨f, hf, rfl⟩) hpq
  · rw [he, Except.ok.injEq] at hf
    rw [hf]
  · rw [hc, Except.ok.injEq] at he
    rw [hd, Except.ok.injEq] at hf
    subst he hf
    exact absurd hpq hxy
  · rw [hd, Except.ok.injEq] at he
    rw [hc, Except.ok.injEq] at hf
    subst he hf
    exact absurd hpq.symm hxy
  · rw [he, Except.ok.injEq] at hf
    rw [hf]

/-- The vectors of `test_derive_forwarding_address_hook_matches_go`, without and with the hook. -/
def plainArgs : DeriveArgs where
  destDomain := 42161
  destRecipient := "0x00000000000000000000000042d35cc6634c0532925a3b844bc9e7595f0beb00"
  tokenId := "0x726f757465725f61707000000000000000000000000000010000000000000000"
  customHookId := none
  customHookMetadata := none

def boundArgs : DeriveArgs :=
  { plainArgs with
    customHookId := some "0x726f757465725f706f73745f6469737061746368000000040000000000000009" }

/-- The hook's bytes at the end of the token id instead. -/
def unboundArgs : DeriveArgs :=
  { plainArgs with
    tokenId := "0x726f757465725f61707000000000000000000000000000010000000000000000"
      ++ "726f757465725f706f73745f6469737061746368000000040000000000000009" }

theorem plainArgs_derive :
    plainArgs.derive .standard = .ok "celestia1ylsv278jc3x73hwshdv8sgrfkeg9fwv8cx5zxa" := by
  decide +kernel

theorem boundArgs_derive :
    boundArgs.derive .standard = .ok "celestia17g3ur44aaf29eh8qknnt0cwhtgyrjdk8havgln" := by
  decide +kernel

/-- The hook keeps the two vectors' addresses apart. -/
theorem derivation_unambiguous_iff_hook :
    ∃ c d, plainArgs.decode = .ok c ∧ boundArgs.decode = .ok d
      ∧ ((c ≠ d → c.callPreimage ≠ d.callPreimage) ↔ ¬ c.Overlaps d ∧ ¬ d.Overlaps c)
      ∧ (("celestia1ylsv278jc3x73hwshdv8sgrfkeg9fwv8cx5zxa"
          = "celestia17g3ur44aaf29eh8qknnt0cwhtgyrjdk8havgln" → c = d)
        ↔ ¬ c.Overlaps d ∧ ¬ d.Overlaps c) := by
  obtain ⟨c, d, hc, hd, h1, h2⟩ :=
    derivation_unambiguous_iff .standard plainArgs_derive boundArgs_derive
  exact ⟨c, d, hc, hd, h1,
    h2 (Crypto.collisionFreeOn_of_ne plainArgs_derive boundArgs_derive (by decide))⟩

/-- Both tuples are accepted, mean different things and hash the same bytes. -/
theorem bound_unbound_share_preimage :
    ∃ c d, boundArgs.decode = .ok c ∧ unboundArgs.decode = .ok d
      ∧ c.bound = true ∧ d.bound = false ∧ c ≠ d ∧ c.callPreimage = d.callPreimage
      ∧ boundArgs.derive .standard = unboundArgs.derive .standard := by
  have h : (match boundArgs.decode, unboundArgs.decode with
      | .ok c, .ok d => c.bound && !d.bound && c.callPreimage == d.callPreimage
      | _, _ => false) = true := by
    decide +kernel
  split at h
  · rename_i c d hc hd
    simp only [Bool.and_eq_true, Bool.not_eq_true', beq_iff_eq] at h
    obtain ⟨⟨h1, h2⟩, h3⟩ := h
    refine ⟨c, d, hc, hd, h1, h2, fun h => by simp [h, h2] at h1, h3, ?_⟩
    rw [DeriveArgs.derive_eq_ok_iff.2 ⟨c, hc, rfl⟩, DeriveArgs.derive_eq_ok_iff.2 ⟨d, hd, rfl⟩, h3]
  · simp at h

end ForwardingRelayer
