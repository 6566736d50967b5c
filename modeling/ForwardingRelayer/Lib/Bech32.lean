import Mathlib.Algebra.Group.Nat.Defs
import Mathlib.Data.List.Basic
import Mathlib.Data.List.GetD

/-!
# Bech32

The checksummed base-32 encoding of BIP 173. The bytes are regrouped five bits at a time, the
last group filled with zero bits. Behind the prefix and a `1`, each group and each of the six values
of the checksum is a character of the alphabet.
-/

namespace Bech32

def charset : List Char := "qpzry9x8gf2tvdw0s3jn54khce6mua7l".toList

def generator : List ℕ := [0x3b6a57b2, 0x26508e6d, 0x1ea119fa, 0x3d4233dd, 0x2a1462b3]

def polymodStep (chk v : ℕ) : ℕ :=
  let top := chk >>> 25
  let chk := ((chk &&& 0x1ffffff) <<< 5) ^^^ v
  generator.zipIdx.foldl (fun c g => if (top >>> g.2) % 2 = 1 then c ^^^ g.1 else c) chk

def polymod (values : List ℕ) : ℕ := values.foldl polymodStep 1

def expandHrp (hrp : List Char) : List ℕ :=
  hrp.map (fun c => c.toNat >>> 5) ++ [0] ++ hrp.map (fun c => c.toNat % 32)

def checksum (hrp : List Char) (data : List ℕ) : List ℕ :=
  let p := polymod (expandHrp hrp ++ data ++ [0, 0, 0, 0, 0, 0]) ^^^ 1
  [25, 20, 15, 10, 5, 0].map fun i => (p >>> i) % 32

/-- `acc` holds `bits` bits not yet given out, fewer than five. -/
def regroup : ℕ → ℕ → List UInt8 → List ℕ
  | acc, bits, [] => if bits = 0 then [] else [(acc <<< (5 - bits)) % 32]
  | acc, bits, b :: bs =>
    let acc := acc * 256 + b.toNat
    let bits := bits + 8
    if 10 ≤ bits then
      (acc >>> (bits - 5)) % 32 :: (acc >>> (bits - 10)) % 32
        :: regroup (acc % 2 ^ (bits - 10)) (bits - 10) bs
    else (acc >>> (bits - 5)) % 32 :: regroup (acc % 2 ^ (bits - 5)) (bits - 5) bs

def encode (hrp : List Char) (bytes : List UInt8) : String :=
  let data := regroup 0 0 bytes
  String.ofList (hrp ++ ['1'] ++ (data ++ checksum hrp data).map fun v => charset.getD v 'q')

section Encode

variable {hrp : List Char}

theorem regroup_lt : ∀ {bs : List UInt8} {acc bits : ℕ}, ∀ v ∈ regroup acc bits bs, v < 32
  | [], acc, bits, v, hv => by
    rw [regroup] at hv
    split at hv
    · cases hv
    · rw [List.mem_singleton.1 hv]
      exact Nat.mod_lt _ (by decide)
  | b :: bs, acc, bits, v, hv => by
    rw [regroup] at hv
    split at hv
    · rcases List.mem_cons.1 hv with rfl | hv
      · exact Nat.mod_lt _ (by decide)
      rcases List.mem_cons.1 hv with rfl | hv
      · exact Nat.mod_lt _ (by decide)
      · exact regroup_lt v hv
    · rcases List.mem_cons.1 hv with rfl | hv
      · exact Nat.mod_lt _ (by decide)
      · exact regroup_lt v hv

/-- The groups are as many as it takes. -/
theorem length_regroup : ∀ (bs : List UInt8) {acc bits : ℕ}, bits < 5 →
    bits + 8 * bs.length ≤ 5 * (regroup acc bits bs).length
      ∧ 5 * (regroup acc bits bs).length ≤ bits + 8 * bs.length + 4
  | [], acc, bits, hbits => by
    rw [regroup]
    split
    · simp only [List.length_nil]
      omega
    · simp only [List.length_nil, List.length_singleton]
      omega
  | b :: bs, acc, bits, hbits => by
    rw [regroup]
    split
    · have ih := @length_regroup bs ((acc * 256 + b.toNat) % 2 ^ (bits + 8 - 10)) (bits + 8 - 10)
        (by omega)
      simp only [List.length_cons]
      omega
    · have ih := @length_regroup bs ((acc * 256 + b.toNat) % 2 ^ (bits + 8 - 5)) (bits + 8 - 5)
        (by omega)
      simp only [List.length_cons]
      omega

theorem checksum_lt {data : List ℕ} : ∀ v ∈ checksum hrp data, v < 32 := by
  intro v hv
  obtain ⟨i, -, rfl⟩ := List.mem_map.1 hv
  exact Nat.mod_lt _ (by decide)

theorem exists_encode_eq (hrp : List Char) (bytes : List UInt8) : ∃ chars : List Char,
    (encode hrp bytes).toList = hrp ++ ['1'] ++ chars
      ∧ chars.length = (regroup 0 0 bytes).length + 6 ∧ ∀ c ∈ chars, c ∈ charset := by
  refine ⟨_, String.toList_ofList, ?_, fun c hc => ?_⟩
  · have hsix : (checksum hrp (regroup 0 0 bytes)).length = 6 := rfl
    rw [List.length_map, List.length_append, hsix]
  · obtain ⟨v, hv, rfl⟩ := List.mem_map.1 hc
    have hlt : v < charset.length := by
      rcases List.mem_append.1 hv with hv | hv
      · exact regroup_lt v hv
      · exact checksum_lt v hv
    rw [List.getD_eq_getElem _ _ hlt]
    exact List.getElem_mem hlt

end Encode

end Bech32
