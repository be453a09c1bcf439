import Bitcrab.Lib.Bytes
import Mathlib.Data.Vector.Basic

/-!
# SHA-256

The hash function of FIPS 180-4, over byte strings. Words are natural numbers below `2 ^ 32`, so
that digests of concrete messages are computed by the kernel's arithmetic.
-/

namespace Sha256

open Bytes

/-- Round constants: fractional parts of the cube roots of the first 64 primes. -/
def roundConstants : List Nat :=
  [0x428a2f98, 0x71374491, 0xb5c0fbcf, 0xe9b5dba5, 0x3956c25b, 0x59f111f1, 0x923f82a4, 0xab1c5ed5,
   0xd807aa98, 0x12835b01, 0x243185be, 0x550c7dc3, 0x72be5d74, 0x80deb1fe, 0x9bdc06a7, 0xc19bf174,
   0xe49b69c1, 0xefbe4786, 0x0fc19dc6, 0x240ca1cc, 0x2de92c6f, 0x4a7484aa, 0x5cb0a9dc, 0x76f988da,
   0x983e5152, 0xa831c66d, 0xb00327c8, 0xbf597fc7, 0xc6e00bf3, 0xd5a79147, 0x06ca6351, 0x14292967,
   0x27b70a85, 0x2e1b2138, 0x4d2c6dfc, 0x53380d13, 0x650a7354, 0x766a0abb, 0x81c2c92e, 0x92722c85,
   0xa2bfe8a1, 0xa81a664b, 0xc24b8b70, 0xc76c51a3, 0xd192e819, 0xd6990624, 0xf40e3585, 0x106aa070,
   0x19a4c116, 0x1e376c08, 0x2748774c, 0x34b0bcb5, 0x391c0cb3, 0x4ed8aa4a, 0x5b9cca4f, 0x682e6ff3,
   0x748f82ee, 0x78a5636f, 0x84c87814, 0x8cc70208, 0x90befffa, 0xa4506ceb, 0xbef9a3f7, 0xc67178f2]

/-- Size of the word space. -/
def modulus : Nat := 4294967296

/-- Rotation of a word to the right. -/
def rotr (x n : Nat) : Nat := ((x >>> n) ||| (x <<< (32 - n))) % modulus

/-- `Ch`: choose `f` where `e` is set and `g` elsewhere. -/
def ch (e f g : Nat) : Nat := (e &&& f) ^^^ ((4294967295 ^^^ e) &&& g)

/-- `Maj`: the majority bit. -/
def maj (a b c : Nat) : Nat := (a &&& b) ^^^ (a &&& c) ^^^ (b &&& c)

/-- `Σ₀`. -/
def bigSigma0 (x : Nat) : Nat := rotr x 2 ^^^ rotr x 13 ^^^ rotr x 22

/-- `Σ₁`. -/
def bigSigma1 (x : Nat) : Nat := rotr x 6 ^^^ rotr x 11 ^^^ rotr x 25

/-- `σ₀`. -/
def smallSigma0 (x : Nat) : Nat := rotr x 7 ^^^ rotr x 18 ^^^ (x >>> 3)

/-- `σ₁`. -/
def smallSigma1 (x : Nat) : Nat := rotr x 17 ^^^ rotr x 19 ^^^ (x >>> 10)

/-- The eight working variables. -/
structure State where
  a : Nat
  b : Nat
  c : Nat
  d : Nat
  e : Nat
  f : Nat
  g : Nat
  h : Nat

/-- The initial hash value. -/
def initial : State :=
  ⟨0x6a09e667, 0xbb67ae85, 0x3c6ef372, 0xa54ff53a, 0x510e527f, 0x9b05688c, 0x1f83d9ab, 0x5be0cd19⟩

/-- One round, with round constant `k` and schedule word `w`. -/
def State.round (s : State) (k w : Nat) : State :=
  let t₁ := s.h + bigSigma1 s.e + ch s.e s.f s.g + k + w
  let t₂ := bigSigma0 s.a + maj s.a s.b s.c
  ⟨(t₁ + t₂) % modulus, s.a, s.b, s.c, (s.d + t₁) % modulus, s.e, s.f, s.g⟩

/-- The rounds for the remaining constants; the list holds the next sixteen schedule words. -/
def rounds : List Nat → List Nat → State → State
  | k :: ks, [w₀, w₁, w₂, w₃, w₄, w₅, w₆, w₇, w₈, w₉, w₁₀, w₁₁, w₁₂, w₁₃, w₁₄, w₁₅], s =>
    rounds ks [w₁, w₂, w₃, w₄, w₅, w₆, w₇, w₈, w₉, w₁₀, w₁₁, w₁₂, w₁₃, w₁₄, w₁₅,
      (smallSigma1 w₁₄ + w₉ + smallSigma0 w₁ + w₀) % modulus] (s.round k w₀)
  | _, _, s => s

/-- Wordwise addition of the chaining value. -/
def State.add (s t : State) : State :=
  ⟨(s.a + t.a) % modulus, (s.b + t.b) % modulus, (s.c + t.c) % modulus, (s.d + t.d) % modulus,
   (s.e + t.e) % modulus, (s.f + t.f) % modulus, (s.g + t.g) % modulus, (s.h + t.h) % modulus⟩

/-- The big-endian words of a byte string. -/
def words : List UInt8 → List Nat
  | a :: b :: c :: d :: rest =>
    (a.toNat * 16777216 + b.toNat * 65536 + c.toNat * 256 + d.toNat) :: words rest
  | _ => []

/-- Absorb `n` blocks of 64 bytes. -/
def absorb : Nat → State → List UInt8 → State
  | 0, s, _ => s
  | n + 1, s, bs => absorb n (s.add (rounds roundConstants (words (bs.take 64)) s)) (bs.drop 64)

/-- The padded message. -/
def pad (m : List UInt8) : List UInt8 :=
  m ++ 0x80 :: List.replicate ((119 - m.length % 64) % 64) 0 ++ beBytes 8 (8 * m.length)

/-- The digest bytes of a final state. -/
def State.digest (s : State) : List UInt8 :=
  beBytes 4 s.a ++ beBytes 4 s.b ++ beBytes 4 s.c ++ beBytes 4 s.d ++
    beBytes 4 s.e ++ beBytes 4 s.f ++ beBytes 4 s.g ++ beBytes 4 s.h

/-- The SHA-256 digest of a message. -/
def sha256 (m : List UInt8) : List.Vector UInt8 32 :=
  ⟨(absorb ((pad m).length / 64) initial (pad m)).digest, by simp [State.digest]⟩

set_option maxRecDepth 20000 in
/-- The digest of the three-byte message of FIPS 180-4's example. -/
example : (sha256 [0x61, 0x62, 0x63]).toList.take 4 = [0xba, 0x78, 0x16, 0xbf] := by
  decide +kernel

end Sha256
