import ForwardingRelayer.Proofs.Address

/-!
# Spellings of one argument

The texts an address is derived from enter it only as the bytes they decode to, and a hook or
metadata that says nothing as what nothing means: the hook of zeroes, and no bytes.
-/

namespace ForwardingRelayer

/-- The bytes a text decodes to, with or without `0x` in front. -/
def textBytes (s : String) : Option (List UInt8) := Hex.decode (hexOf s)

def defaultHook : List UInt8 := List.replicate 32 0

/-- Absent, or nothing but `0x`. -/
def Blank (text : Option String) : Prop := ∀ s ∈ text, hexOf s = []

/-- The hook a text normalises to. -/
def hookMeaning (hook : Option String) : Option (List UInt8) :=
  if hexOf (hook.getD "") = [] then some defaultHook else textBytes (hook.getD "")

def metadataMeaning (metadata : Option String) : Option (List UInt8) :=
  textBytes (metadata.getD "")

section Spelling

variable {s t : String}

/-- The case of the digits does not matter. -/
theorem textBytes_eq_of_toLower (h : (hexOf s).map Char.toLower = (hexOf t).map Char.toLower) :
    textBytes s = textBytes t := by
  unfold textBytes
  rw [← Hex.decode_map_toLower (hexOf s), h, Hex.decode_map_toLower]

/-- `s` with `0x` in front, `n` times. -/
def prefixed (n : ℕ) (s : String) : String :=
  match n with
  | 0 => s
  | n + 1 => "0x" ++ prefixed n s

theorem hexOf_prefixed : ∀ n : ℕ, hexOf (prefixed n s) = hexOf s
  | 0 => rfl
  | n + 1 => by
    rw [← hexOf_prefixed n]
    unfold hexOf
    rw [prefixed, String.toList_append]
    exact Text.trimStartMatches_append (by decide) _

theorem textBytes_prefixed (n : ℕ) : textBytes (prefixed n s) = textBytes s := by
  unfold textBytes
  rw [hexOf_prefixed]

theorem blank_iff {text : Option String} : Blank text ↔ hexOf (text.getD "") = [] := by
  rcases text with _ | s
  · exact ⟨fun _ => rfl, fun _ s hs => by cases hs⟩
  · simp [Blank]

theorem hookMeaning_of_blank {hook : Option String} (h : Blank hook) :
    hookMeaning hook = some defaultHook := if_pos (blank_iff.1 h)

theorem metadataMeaning_of_blank {metadata : Option String} (h : Blank metadata) :
    metadataMeaning metadata = some [] := by
  unfold metadataMeaning textBytes
  rw [blank_iff.1 h]
  rfl

/-- The hook that is spelled out in zeroes is the default one as well. -/
theorem hookMeaning_of_zeroes {hook : String} (h : textBytes hook = some defaultHook) :
    hookMeaning (some hook) = some defaultHook := by
  unfold hookMeaning
  split
  · rfl
  · exact h

end Spelling

section Decode

variable {s : String}

theorem decodeRecipient_eq_ok_iff {r : Bytes32} :
    decodeRecipient s = .ok r ↔ textBytes s = some r.1 := by
  unfold decodeRecipient textBytes
  rcases Hex.decode (hexOf s) with _ | bytes
  · simp
  · simp only [Option.some.injEq]
    split
    · simp [Subtype.ext_iff]
    · rename_i h
      exact ⟨fun h' => by simp at h', fun h' => absurd (h' ▸ r.2) h⟩

theorem decodeTokenId_eq_ok_iff {bytes : List UInt8} :
    decodeTokenId s = .ok bytes ↔ textBytes s = some bytes := by
  unfold decodeTokenId textBytes
  rcases Hex.decode (hexOf s) with _ | bytes'
  · simp
  · simp

theorem all_zero_iff {bytes : List UInt8} (h : bytes.length = 32) :
    bytes.all (· == 0) = true ↔ bytes = defaultHook := by
  unfold defaultHook
  rw [List.eq_replicate_iff]
  simp [h]

theorem ne_defaultHook {bytes : List UInt8} (h : bytes.length = 32)
    (hz : bytes.all (· == 0) = false) : bytes ≠ defaultHook := by
  intro heq
  rw [(all_zero_iff h).2 heq] at hz
  cases hz

theorem decodeHook_eq_ok_iff {hook : Option String} {v : Option Hook} :
    decodeHook hook = .ok v ↔ hookMeaning hook = some (v.elim defaultHook (·.1.1)) := by
  have hnone : (.ok none = (.ok v : Except String (Option Hook)))
      ↔ some defaultHook = some (v.elim defaultHook (·.1.1)) := by
    rcases v with _ | h
    · simp
    · simp [Ne.symm (ne_defaultHook h.1.2 h.2)]
  rcases hook with _ | hook
  · exact hnone
  · unfold decodeHook hookMeaning textBytes
    simp only [Option.getD_some]
    by_cases hblank : hexOf hook = []
    · rw [if_pos hblank, if_pos hblank]
      exact hnone
    · rw [if_neg hblank, if_neg hblank]
      rcases Hex.decode (hexOf hook) with _ | bytes
      · simp
      · simp only [Option.some.injEq]
        split
        · rename_i hlen
          split
          · rename_i hz
            rcases v with _ | h
            · simp [ne_defaultHook hlen hz]
            · simp [Subtype.ext_iff]
          · rename_i hz
            rw [(all_zero_iff hlen).1 (by simpa using hz)]
            exact hnone.trans Option.some_inj
        · rename_i hlen
          refine ⟨fun h => by simp at h, fun h => absurd ?_ hlen⟩
          rw [h]
          rcases v with _ | w
          · rfl
          · exact w.1.2

theorem decodeMetadata_eq_ok_iff {metadata : Option String} {v : Option Metadata} :
    decodeMetadata metadata = .ok v
      ↔ metadataMeaning metadata = some (v.elim [] (·.1)) := by
  have hnone : (.ok none = (.ok v : Except String (Option Metadata)))
      ↔ some ([] : List UInt8) = some (v.elim [] (·.1)) := by
    rcases v with _ | m
    · simp
    · simp [Ne.symm m.2]
  rcases metadata with _ | metadata
  · exact hnone
  · unfold decodeMetadata metadataMeaning textBytes
    simp only [Option.getD_some]
    split
    · rename_i hblank
      rw [hblank]
      exact hnone
    · rename_i hblank
      split
      · rename_i h
        simp [h]
      · rename_i bytes h
        have hbytes : bytes ≠ [] := fun hb => hblank (Hex.eq_nil_of_decode (hb ▸ h))
        rcases v with _ | m
        · simp [h, hbytes]
        · simp [h, Subtype.ext_iff]

end Decode

namespace DeriveArgs

/-- The five arguments mean the same. -/
structure SameMeaning (a b : DeriveArgs) : Prop where
  destDomain : a.destDomain = b.destDomain
  recipient : textBytes a.destRecipient = textBytes b.destRecipient
  tokenId : textBytes a.tokenId = textBytes b.tokenId
  hook : hookMeaning a.customHookId = hookMeaning b.customHookId
  metadata : metadataMeaning a.customHookMetadata = metadataMeaning b.customHookMetadata

theorem SameMeaning.decode_iff {a b : DeriveArgs} (h : a.SameMeaning b) (c : Commitment) :
    a.decode = .ok c ↔ b.decode = .ok c := by
  rw [decode_eq_ok_iff, decode_eq_ok_iff, decodeRecipient_eq_ok_iff, decodeRecipient_eq_ok_iff,
    decodeTokenId_eq_ok_iff, decodeTokenId_eq_ok_iff, decodeHook_eq_ok_iff, decodeHook_eq_ok_iff,
    decodeMetadata_eq_ok_iff, decodeMetadata_eq_ok_iff, h.destDomain, h.recipient, h.tokenId,
    h.hook, h.metadata]

/-- Every part of the arguments decodes, the recipient and a hook to 32 bytes. -/
structure Decodes (a : DeriveArgs) : Prop where
  recipient : ∃ bytes, textBytes a.destRecipient = some bytes ∧ bytes.length = 32
  tokenId : ∃ bytes, textBytes a.tokenId = some bytes
  hook : Blank a.customHookId ∨ ∃ hook bytes, a.customHookId = some hook
    ∧ textBytes hook = some bytes ∧ bytes.length = 32
  metadata : Blank a.customHookMetadata ∨ ∃ metadata bytes,
    a.customHookMetadata = some metadata ∧ textBytes metadata = some bytes

theorem exists_decodeHook_iff {hook : Option String} :
    (∃ v, decodeHook hook = .ok v) ↔ Blank hook ∨ ∃ text bytes, hook = some text
      ∧ textBytes text = some bytes ∧ bytes.length = 32 := by
  simp only [decodeHook_eq_ok_iff]
  by_cases hblank : Blank hook
  · exact ⟨fun _ => .inl hblank, fun _ => ⟨none, hookMeaning_of_blank hblank⟩⟩
  · have hmeans : hookMeaning hook = textBytes (hook.getD "") :=
      if_neg fun h => hblank (blank_iff.2 h)
    rcases hook with _ | text
    · exact absurd (fun s hs => by cases hs) hblank
    · rw [hmeans, Option.getD_some]
      constructor
      · rintro ⟨v, hv⟩
        refine .inr ⟨text, _, rfl, hv, ?_⟩
        rcases v with _ | h
        · rfl
        · exact h.1.2
      · rintro (h | ⟨text', bytes, htext, hbytes, hlen⟩)
        · exact absurd h hblank
        · obtain rfl := Option.some.inj htext
          by_cases hz : bytes = defaultHook
          · exact ⟨none, hz ▸ hbytes⟩
          · have hall : bytes.all (· == 0) = false := by
              rw [← Bool.not_eq_true, all_zero_iff hlen]
              exact hz
            exact ⟨some ⟨⟨bytes, hlen⟩, hall⟩, hbytes⟩

theorem exists_decodeMetadata_iff {metadata : Option String} :
    (∃ v, decodeMetadata metadata = .ok v) ↔ Blank metadata ∨ ∃ text bytes,
      metadata = some text ∧ textBytes text = some bytes := by
  simp only [decodeMetadata_eq_ok_iff]
  constructor
  · rintro ⟨v, hv⟩
    rcases metadata with _ | text
    · exact .inl fun s hs => by cases hs
    · exact .inr ⟨text, _, rfl, hv⟩
  · rintro (h | ⟨text, bytes, rfl, hbytes⟩)
    · exact ⟨none, metadataMeaning_of_blank h⟩
    · by_cases hnil : bytes = []
      · exact ⟨none, hnil ▸ hbytes⟩
      · exact ⟨some ⟨bytes, hnil⟩, hbytes⟩

theorem exists_derive_iff {a : DeriveArgs} (C : Crypto) :
    (∃ addr, a.derive C = .ok addr) ↔ a.Decodes := by
  constructor
  · rintro ⟨addr, h⟩
    obtain ⟨c, hc, -⟩ := derive_eq_ok_iff.1 h
    obtain ⟨-, h1, h2, h3, h4⟩ := decode_eq_ok_iff.1 hc
    exact ⟨⟨_, decodeRecipient_eq_ok_iff.1 h1, c.recipient.2⟩, ⟨_, decodeTokenId_eq_ok_iff.1 h2⟩,
      exists_decodeHook_iff.1 ⟨_, h3⟩, exists_decodeMetadata_iff.1 ⟨_, h4⟩⟩
  · rintro ⟨⟨recipient, h1, hlen⟩, ⟨tokenId, h2⟩, h3, h4⟩
    obtain ⟨hook, h3⟩ := exists_decodeHook_iff.2 h3
    obtain ⟨metadata, h4⟩ := exists_decodeMetadata_iff.2 h4
    refine ⟨_, derive_eq_ok_iff.2
      ⟨⟨a.destDomain, ⟨recipient, hlen⟩, tokenId, hook, metadata⟩, ?_, rfl⟩⟩
    exact decode_eq_ok_iff.2 ⟨rfl, decodeRecipient_eq_ok_iff.2 h1, decodeTokenId_eq_ok_iff.2 h2,
      h3, h4⟩

end DeriveArgs

/-- Arguments that mean the same derive the same address or none; they derive one just when they
decode; and which spellings mean the same. -/
theorem derivation_by_meaning (C : Crypto) :
    (∀ a b : DeriveArgs, a.SameMeaning b →
        (∃ e e', a.derive C = .error e ∧ b.derive C = .error e')
          ∨ ∃ addr, a.derive C = .ok addr ∧ b.derive C = .ok addr)
      ∧ (∀ a : DeriveArgs, (∃ addr, a.derive C = .ok addr) ↔ a.Decodes)
      ∧ (∀ s t, (hexOf s).map Char.toLower = (hexOf t).map Char.toLower → textBytes s = textBytes t)
      ∧ (∀ n s, textBytes (prefixed n s) = textBytes s)
      ∧ (∀ hook, (Blank hook ∨ ∃ text, hook = some text ∧ textBytes text = some defaultHook) →
        hookMeaning hook = hookMeaning none)
      ∧ ∀ metadata, Blank metadata → metadataMeaning metadata = metadataMeaning none := by
  refine ⟨fun a b h => ?_, fun a => DeriveArgs.exists_derive_iff C,
    fun s t => textBytes_eq_of_toLower, fun n s => textBytes_prefixed n, ?_, fun _ h => ?_⟩
  · have hok : ∀ {x y : DeriveArgs}, x.SameMeaning y → ∀ addr, x.derive C = .ok addr →
        y.derive C = .ok addr := by
      intro x y hxy addr hx
      obtain ⟨c, hc, haddr⟩ := DeriveArgs.derive_eq_ok_iff.1 hx
      exact DeriveArgs.derive_eq_ok_iff.2 ⟨c, (hxy.decode_iff c).1 hc, haddr⟩
    rcases ha : a.derive C with e | addr
    · rcases hb : b.derive C with e' | addr
      · exact .inl ⟨e, e', rfl, rfl⟩
      · have hsymm : b.SameMeaning a :=
          ⟨h.destDomain.symm, h.recipient.symm, h.tokenId.symm, h.hook.symm, h.metadata.symm⟩
        rw [hok hsymm addr hb] at ha
        cases ha
    · exact .inr ⟨addr, rfl, hok h addr ha⟩
  · rintro hook (h | ⟨text, rfl, h⟩)
    · exact hookMeaning_of_blank h
    · exact hookMeaning_of_zeroes h
  · exact metadataMeaning_of_blank h

/-- The vector without a hook, in capitals and with the absent parts spelled out. -/
def spelledArgs : DeriveArgs where
  destDomain := 42161
  destRecipient := "0x0x00000000000000000000000042D35CC6634C0532925A3B844BC9E7595F0BEB00"
  tokenId := "726F757465725F61707000000000000000000000000000010000000000000000"
  customHookId := some "0x0000000000000000000000000000000000000000000000000000000000000000"
  customHookMetadata := some "0x"

theorem derivation_by_meaning_spelled :
    spelledArgs.derive .standard = .ok "celestia1ylsv278jc3x73hwshdv8sgrfkeg9fwv8cx5zxa" := by
  have hsame : plainArgs.SameMeaning spelledArgs :=
    ⟨rfl, by decide +kernel, by decide +kernel, by decide +kernel, by decide +kernel⟩
  rcases (derivation_by_meaning .standard).1 plainArgs spelledArgs hsame with
    ⟨e, -, he, -⟩ | ⟨addr, ha, hb⟩
  · rw [plainArgs_derive] at he
    cases he
  · rw [hb, ← ha, plainArgs_derive]

end ForwardingRelayer
