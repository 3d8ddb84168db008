import ComponentPages.Bytes
import ComponentPages.Text.Quoted

/-!
The SHA-256 digest of bytes. The message is padded to blocks of 64 bytes with its length in bits at the end, and
each block stirs eight words of state in 64 rounds.
-/
namespace ComponentPages

namespace Digest

/-- The first 32 bits of the fractional parts of the cube roots of the first 64 primes. -/
def roundConstants : List UInt32 := [
  0x428a2f98, 0x71374491, 0xb5c0fbcf, 0xe9b5dba5, 0x3956c25b, 0x59f111f1, 0x923f82a4, 0xab1c5ed5,
  0xd807aa98, 0x12835b01, 0x243185be, 0x550c7dc3, 0x72be5d74, 0x80deb1fe, 0x9bdc06a7, 0xc19bf174,
  0xe49b69c1, 0xefbe4786, 0x0fc19dc6, 0x240ca1cc, 0x2de92c6f, 0x4a7484aa, 0x5cb0a9dc, 0x76f988da,
  0x983e5152, 0xa831c66d, 0xb00327c8, 0xbf597fc7, 0xc6e00bf3, 0xd5a79147, 0x06ca6351, 0x14292967,
  0x27b70a85, 0x2e1b2138, 0x4d2c6dfc, 0x53380d13, 0x650a7354, 0x766a0abb, 0x81c2c92e, 0x92722c85,
  0xa2bfe8a1, 0xa81a664b, 0xc24b8b70, 0xc76c51a3, 0xd192e819, 0xd6990624, 0xf40e3585, 0x106aa070,
  0x19a4c116, 0x1e376c08, 0x2748774c, 0x34b0bcb5, 0x391c0cb3, 0x4ed8aa4a, 0x5b9cca4f, 0x682e6ff3,
  0x748f82ee, 0x78a5636f, 0x84c87814, 0x8cc70208, 0x90befffa, 0xa4506ceb, 0xbef9a3f7, 0xc67178f2]

structure State where
  a : UInt32
  b : UInt32
  c : UInt32
  d : UInt32
  e : UInt32
  f : UInt32
  g : UInt32
  h : UInt32

/-- The first 32 bits of the fractional parts of the square roots of the first eight primes. -/
def initial : State :=
  ⟨0x6a09e667, 0xbb67ae85, 0x3c6ef372, 0xa54ff53a, 0x510e527f, 0x9b05688c, 0x1f83d9ab, 0x5be0cd19⟩

namespace State

def words (state : State) : List UInt32 :=
  [state.a, state.b, state.c, state.d, state.e, state.f, state.g, state.h]

def add (state other : State) : State :=
  ⟨state.a + other.a, state.b + other.b, state.c + other.c, state.d + other.d,
    state.e + other.e, state.f + other.f, state.g + other.g, state.h + other.h⟩

end State

def rotate (word count : UInt32) : UInt32 := (word >>> count) ||| (word <<< (32 - count))

/-- One round, given its constant and its word of the schedule. -/
def round (state : State) (input : UInt32 × UInt32) : State :=
  let mixed := rotate state.e 6 ^^^ rotate state.e 11 ^^^ rotate state.e 25
  let chosen := (state.e &&& state.f) ^^^ (~~~state.e &&& state.g)
  let first := state.h + mixed + chosen + input.1 + input.2
  let spread := rotate state.a 2 ^^^ rotate state.a 13 ^^^ rotate state.a 22
  let majority := (state.a &&& state.b) ^^^ (state.a &&& state.c) ^^^ (state.b &&& state.c)
  ⟨first + (spread + majority), state.a, state.b, state.c, state.d + first, state.e, state.f, state.g⟩

/-- Extends a window of sixteen words by as many words as asked for. -/
def extend (window : List UInt32) : Nat → List UInt32
  | 0 => window
  | count + 1 =>
    match window with
    | w0 :: w1 :: rest =>
      let late := rest.getD 12 0
      let small := rotate w1 7 ^^^ rotate w1 18 ^^^ (w1 >>> 3)
      let great := rotate late 17 ^^^ rotate late 19 ^^^ (late >>> 10)
      w0 :: extend (w1 :: rest ++ [w0 + small + rest.getD 7 0 + great]) count
    | short => short

/-- The words of a block, each of four bytes, the highest first. -/
def blockWords : Bytes → List UInt32
  | a :: b :: c :: d :: rest =>
    ((a.toUInt32 <<< 24) ||| (b.toUInt32 <<< 16) ||| (c.toUInt32 <<< 8) ||| d.toUInt32) :: blockWords rest
  | _ => []

def stir (state : State) (block : Bytes) : State :=
  state.add ((roundConstants.zip (extend (blockWords block) 48)).foldl round state)

/-- A number in a count of bytes, the highest first. -/
def bigEndian : (count : Nat) → (number : Nat) → Bytes
  | 0, _ => []
  | count + 1, number => bigEndian count (number / 256) ++ [(number % 256).toUInt8]

/-- The message with a set bit, zeros and its length in bits behind it. -/
def pad (bytes : Bytes) : Bytes :=
  bytes ++ 0x80 :: List.replicate ((119 - bytes.length % 64) % 64) 0 ++ bigEndian 8 (8 * bytes.length)

/-- Stirs in all blocks of 64 bytes. -/
def stirAll (state : State) (bytes : Bytes) : State :=
  if _long : 64 ≤ bytes.length then stirAll (stir state (bytes.take 64)) (bytes.drop 64) else state
termination_by bytes.length
decreasing_by simp only [List.length_drop]; omega

/-- The digest in hexadecimal digits. -/
def sha256 (bytes : Bytes) : Text :=
  (stirAll initial (pad bytes)).words.flatMap fun word => Text.hex 8 word.toNat

end Digest

end ComponentPages
