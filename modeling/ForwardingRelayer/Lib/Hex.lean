import Mathlib.Data.List.Basic

/-!
# Hexadecimal

`decode` reads two digits a byte, of either case. It fails on an odd number of digits and on any
character that is not one.
-/

namespace Hex

def digitVal (c : Char) : Option UInt8 :=
  if '0' ≤ c ∧ c ≤ '9' then some (UInt8.ofNat (c.toNat - '0'.toNat))
  else if 'a' ≤ c ∧ c ≤ 'f' then some (UInt8.ofNat (c.toNat - 'a'.toNat + 10))
  else if 'A' ≤ c ∧ c ≤ 'F' then some (UInt8.ofNat (c.toNat - 'A'.toNat + 10))
  else none

def decode : List Char → Option (List UInt8)
  | [] => some []
  | [_] => none
  | c :: d :: rest => do
    let hi ← digitVal c
    let lo ← digitVal d
    let bytes ← decode rest
    some ((hi * 16 + lo) :: bytes)

theorem decode_cons_eq_some {c d : Char} {rest : List Char} {bytes : List UInt8} :
    decode (c :: d :: rest) = some bytes ↔
      ∃ hi lo tail, digitVal c = some hi ∧ digitVal d = some lo ∧ decode rest = some tail
        ∧ bytes = (hi * 16 + lo) :: tail := by
  simp only [decode, Option.bind_eq_bind, Option.bind_eq_some_iff, Option.some.injEq]
  constructor
  · rintro ⟨hi, h1, lo, h2, tail, h3, rfl⟩
    exact ⟨hi, lo, tail, h1, h2, h3, rfl⟩
  · rintro ⟨hi, lo, tail, h1, h2, h3, rfl⟩
    exact ⟨hi, h1, lo, h2, tail, h3, rfl⟩

theorem eq_nil_of_decode : ∀ {s : List Char}, decode s = some [] → s = []
  | [], _ => rfl
  | [_], h => by simp [decode] at h
  | c :: d :: rest, h => by
    obtain ⟨hi, lo, tail, -, -, -, hb⟩ := decode_cons_eq_some.1 h
    simp at hb

theorem digitVal_toLower (c : Char) : digitVal c.toLower = digitVal c := by
  by_cases h : c.val ≥ 'A'.val ∧ c.val ≤ 'Z'.val
  · have hupper : ∀ n ∈ List.range 26, digitVal (Char.ofNat (65 + n)).toLower
        = digitVal (Char.ofNat (65 + n)) := by decide
    have hrange : 65 ≤ c.toNat ∧ c.toNat ≤ 90 := h
    have hc := hupper (c.toNat - 65) (List.mem_range.2 (by omega))
    rwa [Nat.add_sub_cancel' hrange.1, Char.ofNat_toNat] at hc
  · unfold Char.toLower
    rw [dif_neg h]

theorem decode_map_toLower : ∀ s : List Char, decode (s.map Char.toLower) = decode s
  | [] | [_] => rfl
  | c :: d :: rest => by
    simp only [List.map_cons, decode, digitVal_toLower, decode_map_toLower rest]

end Hex
