import Mathlib.Data.List.Basic

/-!
# SHA-256

The hash of FIPS 180-4 over byte lists. The message schedule is kept as a window of its last
sixteen words, so a round reads the window's head and pushes the next word at its end.
-/

namespace Sha256

def rotr (x n : UInt32) : UInt32 := (x >>> n) ||| (x <<< (32 - n))

def roundConstants : List UInt32 := [
  0x428a2f98, 0x71374491, 0xb5c0fbcf, 0xe9b5dba5, 0x3956c25b, 0x59f111f1, 0x923f82a4, 0xab1c5ed5,
  0xd807aa98, 0x12835b01, 0x243185be, 0x550c7dc3, 0x72be5d74, 0x80deb1fe, 0x9bdc06a7, 0xc19bf174,
  0xe49b69c1, 0xefbe4786, 0x0fc19dc6, 0x240ca1cc, 0x2de92c6f, 0x4a7484aa, 0x5cb0a9dc, 0x76f988da,
  0x983e5152, 0xa831c66d, 0xb00327c8, 0xbf597fc7, 0xc6e00bf3, 0xd5a79147, 0x06ca6351, 0x14292967,
  0x27b70a85, 0x2e1b2138, 0x4d2c6dfc, 0x53380d13, 0x650a7354, 0x766a0abb, 0x81c2c92e, 0x92722c85,
  0xa2bfe8a1, 0xa81a664b, 0xc24b8b70, 0xc76c51a3, 0xd192e819, 0xd6990624, 0xf40e3585, 0x106aa070,
  0x19a4c116, 0x1e376c08, 0x2748774c, 0x34b0bcb5, 0x391c0cb3, 0x4ed8aa4a, 0x5b9cca4f, 0x682e6ff3,
  0x748f82ee, 0x78a5636f, 0x84c87814, 0x8cc70208, 0x90befffa, 0xa4506ceb, 0xbef9a3f7, 0xc67178f2]

structure Working where
  (a b c d e f g h : UInt32)

def initial : Working :=
  ⟨0x6a09e667, 0xbb67ae85, 0x3c6ef372, 0xa54ff53a, 0x510e527f, 0x9b05688c, 0x1f83d9ab, 0x5be0cd19⟩

def round (s : Working) (kw : UInt32) : Working :=
  let s1 := rotr s.e 6 ^^^ rotr s.e 11 ^^^ rotr s.e 25
  let ch := (s.e &&& s.f) ^^^ (~~~ s.e &&& s.g)
  let t1 := s.h + s1 + ch + kw
  let s0 := rotr s.a 2 ^^^ rotr s.a 13 ^^^ rotr s.a 22
  let maj := (s.a &&& s.b) ^^^ (s.a &&& s.c) ^^^ (s.b &&& s.c)
  ⟨t1 + (s0 + maj), s.a, s.b, s.c, s.d + t1, s.e, s.f, s.g⟩

def rounds : List UInt32 → List UInt32 → Working → Working
  | k :: ks, w0 :: w1 :: window, s =>
    let w9 := window.getD 7 0
    let w14 := window.getD 12 0
    let next := (rotr w14 17 ^^^ rotr w14 19 ^^^ (w14 >>> 10)) + w9
      + (rotr w1 7 ^^^ rotr w1 18 ^^^ (w1 >>> 3)) + w0
    rounds ks (w1 :: window ++ [next]) (round s (k + w0))
  | _, _, s => s

def compress (s : Working) (block : List UInt32) : Working :=
  let t := rounds roundConstants block s
  ⟨s.a + t.a, s.b + t.b, s.c + t.c, s.d + t.d, s.e + t.e, s.f + t.f, s.g + t.g, s.h + t.h⟩

/-- The `w` low bytes of `n`, the highest first. -/
def bigEndian (n : ℕ) : ℕ → List UInt8
  | 0 => []
  | w + 1 => UInt8.ofNat (n / 256 ^ w) :: bigEndian n w

def pad (message : List UInt8) : List UInt8 :=
  message ++ [0x80] ++ List.replicate ((119 - message.length % 64) % 64) 0
    ++ bigEndian (8 * message.length) 8

def words : List UInt8 → List UInt32
  | b0 :: b1 :: b2 :: b3 :: rest =>
    (b0.toUInt32 <<< 24 ||| b1.toUInt32 <<< 16 ||| b2.toUInt32 <<< 8 ||| b3.toUInt32) :: words rest
  | _ => []

def blocks : ℕ → List UInt32 → Working → Working
  | 0, _, s => s
  | n + 1, ws, s => blocks n (ws.drop 16) (compress s (ws.take 16))

def digest (message : List UInt8) : List UInt8 :=
  let ws := words (pad message)
  let s := blocks (ws.length / 16) ws initial
  [s.a, s.b, s.c, s.d, s.e, s.f, s.g, s.h].flatMap fun w => bigEndian w.toNat 4

theorem length_digest (message : List UInt8) : (digest message).length = 32 := rfl

end Sha256
