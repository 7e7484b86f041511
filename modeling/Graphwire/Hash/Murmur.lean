/-!
# MurmurHash3

The 32-bit and the 128-bit variant over byte lists. Whole blocks are mixed into the state one
after the other, the bytes that are left once more, and the length and a final avalanche close the
hash.
-/

namespace Graphwire.Murmur

set_option autoImplicit false

/-- A 32-bit word from its bytes, lowest first. -/
def word32 (bytes : List UInt8) : UInt32 :=
  bytes.foldr (fun b w => w <<< 8 ||| b.toUInt32) 0

/-- A 64-bit word from its bytes, lowest first. -/
def word64 (bytes : List UInt8) : UInt64 :=
  bytes.foldr (fun b w => w <<< 8 ||| b.toUInt64) 0

/-- A 32-bit word turned to the left. -/
def rotate32 (w : UInt32) (n : UInt32) : UInt32 := w <<< n ||| w >>> (32 - n)

/-- A 64-bit word turned to the left. -/
def rotate64 (w : UInt64) (n : UInt64) : UInt64 := w <<< n ||| w >>> (64 - n)

/-- Spreads every bit of a 32-bit word over all bits. -/
def avalanche32 (h : UInt32) : UInt32 :=
  let h := (h ^^^ h >>> 16) * 0x85ebca6b
  let h := (h ^^^ h >>> 13) * 0xc2b2ae35
  h ^^^ h >>> 16

/-- Spreads every bit of a 64-bit word over all bits. -/
def avalanche64 (h : UInt64) : UInt64 :=
  let h := (h ^^^ h >>> 33) * 0xff51afd7ed558ccd
  let h := (h ^^^ h >>> 33) * 0xc4ceb9fe1a85ec53
  h ^^^ h >>> 33

/-- A scrambled word of the 32-bit variant. -/
def scramble32 (k : UInt32) : UInt32 := rotate32 (k * 0xcc9e2d51) 15 * 0x1b873593

/-- Mixes the whole four-byte blocks and then the tail into the state. -/
def mix32 : Nat → List UInt8 → UInt32 → UInt32
  | 0, tail, h => h ^^^ scramble32 (word32 tail)
  | blocks + 1, bytes, h =>
    let h := h ^^^ scramble32 (word32 (bytes.take 4))
    mix32 blocks (bytes.drop 4) (rotate32 h 13 * 5 + 0xe6546b64)

/-- The 32-bit hash of the bytes. -/
def hash32 (bytes : List UInt8) (seed : UInt32) : UInt32 :=
  avalanche32 (mix32 (bytes.length / 4) bytes seed ^^^ bytes.length.toUInt32)

/-- The first multiplier of the 128-bit variant. -/
def c1 : UInt64 := 0x87c37b91114253d5

/-- The second multiplier of the 128-bit variant. -/
def c2 : UInt64 := 0x4cf5ad432745937f

/-- A scrambled word for the first half of the state. -/
def scrambleFirst (k : UInt64) : UInt64 := rotate64 (k * c1) 31 * c2

/-- A scrambled word for the second half of the state. -/
def scrambleSecond (k : UInt64) : UInt64 := rotate64 (k * c2) 33 * c1

/-- Mixes the whole sixteen-byte blocks and then the tail into the state. -/
def mix128 : Nat → List UInt8 → UInt64 × UInt64 → UInt64 × UInt64
  | 0, tail, (h1, h2) =>
    (h1 ^^^ scrambleFirst (word64 (tail.take 8)), h2 ^^^ scrambleSecond (word64 (tail.drop 8)))
  | blocks + 1, bytes, (h1, h2) =>
    let h1 := h1 ^^^ scrambleFirst (word64 (bytes.take 8))
    let h1 := (rotate64 h1 27 + h2) * 5 + 0x52dce729
    let h2 := h2 ^^^ scrambleSecond (word64 ((bytes.drop 8).take 8))
    let h2 := (rotate64 h2 31 + h1) * 5 + 0x38495ab5
    mix128 blocks (bytes.drop 16) (h1, h2)

/-- The two halves of the 128-bit hash of the bytes. -/
def hash128 (bytes : List UInt8) (seed : UInt64) : UInt64 × UInt64 :=
  let (h1, h2) := mix128 (bytes.length / 16) bytes (seed, seed)
  let h1 := h1 ^^^ bytes.length.toUInt64
  let h2 := h2 ^^^ bytes.length.toUInt64
  let h1 := h1 + h2
  let h2 := h2 + h1
  let h1 := avalanche64 h1
  let h2 := avalanche64 h2
  let h1 := h1 + h2
  (h1, h2 + h1)

end Graphwire.Murmur
