import Marginalia.Digest.Words

/-!
# A digest of 128 bits

`digest` mixes a sequence of bytes into a number of 128 bits.  It serves to make identifiers that
differ when their inputs do, not to keep secrets: the key that is mixed in, `salt`, is fixed.

Short inputs are mixed in one go by a formula for their length.  From 17 bytes on pairs of sixteen
bytes are taken from both ends towards the middle, and inputs of more than 240 bytes are mixed in
stripes of 64 bytes into eight lanes, which are stirred after every block of sixteen stripes.
-/

set_option autoImplicit false
namespace Marginalia
namespace Digest

/-! ## Constants -/

/-- The key that is mixed with the input. -/
def salt : ByteArray := ⟨#[
  0xb8, 0xfe, 0x6c, 0x39, 0x23, 0xa4, 0x4b, 0xbe, 0x7c, 0x01, 0x81, 0x2c,
  0xf7, 0x21, 0xad, 0x1c, 0xde, 0xd4, 0x6d, 0xe9, 0x83, 0x90, 0x97, 0xdb,
  0x72, 0x40, 0xa4, 0xa4, 0xb7, 0xb3, 0x67, 0x1f, 0xcb, 0x79, 0xe6, 0x4e,
  0xcc, 0xc0, 0xe5, 0x78, 0x82, 0x5a, 0xd0, 0x7d, 0xcc, 0xff, 0x72, 0x21,
  0xb8, 0x08, 0x46, 0x74, 0xf7, 0x43, 0x24, 0x8e, 0xe0, 0x35, 0x90, 0xe6,
  0x81, 0x3a, 0x26, 0x4c, 0x3c, 0x28, 0x52, 0xbb, 0x91, 0xc3, 0x00, 0xcb,
  0x88, 0xd0, 0x65, 0x8b, 0x1b, 0x53, 0x2e, 0xa3, 0x71, 0x64, 0x48, 0x97,
  0xa2, 0x0d, 0xf9, 0x4e, 0x38, 0x19, 0xef, 0x46, 0xa9, 0xde, 0xac, 0xd8,
  0xa8, 0xfa, 0x76, 0x3f, 0xe3, 0x9c, 0x34, 0x3f, 0xf9, 0xdc, 0xbb, 0xc7,
  0xc7, 0x0b, 0x4f, 0x1d, 0x8a, 0x51, 0xe0, 0x4b, 0xcd, 0xb4, 0x59, 0x31,
  0xc8, 0x9f, 0x7e, 0xc9, 0xd9, 0x78, 0x73, 0x64, 0xea, 0xc5, 0xac, 0x83,
  0x34, 0xd3, 0xeb, 0xc3, 0xc5, 0x81, 0xa0, 0xff, 0xfa, 0x13, 0x63, 0xeb,
  0x17, 0x0d, 0xdd, 0x51, 0xb7, 0xf0, 0xda, 0x49, 0xd3, 0x16, 0x55, 0x26,
  0x29, 0xd4, 0x68, 0x9e, 0x2b, 0x16, 0xbe, 0x58, 0x7d, 0x47, 0xa1, 0xfc,
  0x8f, 0xf8, 0xb8, 0xd1, 0x7a, 0xd0, 0x31, 0xce, 0x45, 0xcb, 0x3a, 0x8f,
  0x95, 0x16, 0x04, 0x28, 0xaf, 0xd7, 0xfb, 0xca, 0xbb, 0x4b, 0x40, 0x7e]⟩

def primeA : UInt64 := 0x9E3779B185EBCA87
def primeB : UInt64 := 0xC2B2AE3D27D4EB4F
def primeC : UInt64 := 0x165667B19E3779F9
def primeD : UInt64 := 0x85EBCA77C2B2AE63
def primeE : UInt64 := 0x27D4EB2F165667C5
def halfPrimeA : UInt64 := 0x9E3779B1
def halfPrimeB : UInt64 := 0x85EBCA77
def halfPrimeC : UInt64 := 0xC2B2AE3D
def mixerA : UInt64 := 0x165667919E3779F9
def mixerB : UInt64 := 0x9FB21C651E98DF25

/-- The word of the key at a place. -/
def salt64 (i : Nat) : UInt64 := word64 salt i

/-! ## Finishing -/

/-- Spreads every bit of a word over all of it. -/
def settled (w : UInt64) : UInt64 :=
  let a := (w ^^^ w >>> 37) * mixerA
  a ^^^ a >>> 32

/-- Spreads every bit of a word over all of it, in three rounds. -/
def wellSettled (w : UInt64) : UInt64 :=
  let a := (w ^^^ w >>> 33) * primeB
  let b := (a ^^^ a >>> 29) * primeC
  b ^^^ b >>> 32

/-! ## Up to sixteen bytes -/

/-- The digest of no bytes. -/
def ofNone : Wide :=
  ⟨wellSettled (salt64 64 ^^^ salt64 72), wellSettled (salt64 80 ^^^ salt64 88)⟩

/-- The digest of one to three bytes. -/
def ofFew (b : ByteArray) : Wide :=
  let n := b.size
  let mixed : UInt32 :=
    (byteAt b 0).toUInt32 <<< 16 ||| (byteAt b (n / 2)).toUInt32 <<< 24 |||
      (byteAt b (n - 1)).toUInt32 ||| n.toUInt32 <<< 8
  let turned := swapped32 mixed
  let rolled := turned <<< 13 ||| turned >>> 19
  let keyLow := (word32 salt 0 ^^^ word32 salt 4).toUInt64
  let keyHigh := (word32 salt 8 ^^^ word32 salt 12).toUInt64
  ⟨wellSettled (mixed.toUInt64 ^^^ keyLow), wellSettled (rolled.toUInt64 ^^^ keyHigh)⟩

/-- The digest of four to eight bytes. -/
def ofEight (b : ByteArray) : Wide :=
  let n := b.size
  let input := (word32 b 0).toUInt64 ||| (word32 b (n - 4)).toUInt64 <<< 32
  let p := product (input ^^^ salt64 16 ^^^ salt64 24) (primeA + n.toUInt64 <<< 2)
  let high := p.high + p.low <<< 1
  let a := p.low ^^^ high >>> 3
  let b' := (a ^^^ a >>> 35) * mixerB
  ⟨b' ^^^ b' >>> 28, settled high⟩

/-- The digest of nine to sixteen bytes. -/
def ofSixteen (b : ByteArray) : Wide :=
  let n := b.size
  let first := word64 b 0
  let last := word64 b (n - 8)
  let p := product (first ^^^ last ^^^ salt64 32 ^^^ salt64 40) primeA
  let low := p.low + (n - 1).toUInt64 <<< 54
  let keyed := last ^^^ salt64 48 ^^^ salt64 56
  let high := p.high + keyed + keyed.toUInt32.toUInt64 * (halfPrimeB - 1)
  let q := product (low ^^^ swapped64 high) primeB
  ⟨settled q.low, settled (q.high + high * primeB)⟩

/-! ## Up to 240 bytes -/

/-- Sixteen bytes of the input mixed with sixteen of the key. -/
def mixed16 (b : ByteArray) (i key : Nat) : UInt64 :=
  folded (word64 b i ^^^ salt64 key) (word64 b (i + 8) ^^^ salt64 (key + 8))

/-- One sixteen bytes of the input mixed into either half of an accumulator. -/
def mixPair (b : ByteArray) (acc : Wide) (pair : Nat × Nat × Nat) : Wide :=
  let (i, j, key) := pair
  ⟨(acc.low + mixed16 b i key) ^^^ (word64 b j + word64 b (j + 8)),
    (acc.high + mixed16 b j (key + 16)) ^^^ (word64 b i + word64 b (i + 8))⟩

/-- The digest that an accumulator ends as. -/
def finished (n : Nat) (acc : Wide) : Wide :=
  let mixed := acc.low * primeA + acc.high * primeD + n.toUInt64 * primeB
  ⟨settled (acc.low + acc.high), 0 - settled mixed⟩

/-- The digest of 17 to 128 bytes: pairs from both ends, the innermost first. -/
def ofMiddling (b : ByteArray) : Wide :=
  let n := b.size
  let pairs := (List.range ((n - 1) / 32 + 1)).reverse.map fun k =>
    (16 * k, n - 16 * (k + 1), 32 * k)
  finished n (pairs.foldl (mixPair b) ⟨n.toUInt64 * primeA, 0⟩)

/-- The digest of 129 to 240 bytes: neighbours in order, settled once on the way, and the last
thirty-two bytes again. -/
def ofMany (b : ByteArray) : Wide :=
  let n := b.size
  let head := (List.range 4).map fun k => (32 * k, 32 * k + 16, 32 * k)
  let tail := (List.range (n / 32 - 4)).map fun k =>
    (32 * (k + 4), 32 * (k + 4) + 16, 32 * k + 3)
  let acc := head.foldl (mixPair b) ⟨n.toUInt64 * primeA, 0⟩
  let acc := tail.foldl (mixPair b) ⟨settled acc.low, settled acc.high⟩
  finished n (mixPair b acc (n - 16, n - 32, 103))

/-! ## More than 240 bytes -/

/-- Eight words that are mixed side by side. -/
abbrev Lanes := Vector UInt64 8

/-- The lanes at the beginning. -/
def initialLanes : Lanes :=
  #v[halfPrimeC, primeA, primeB, primeC, primeD, halfPrimeB, primeE, halfPrimeA]

/-- The lane beside one: lanes stand in pairs. -/
def beside (i : Fin 8) : Fin 8 := if i.val % 2 = 0 then i + 1 else i - 1

/-- A stripe of 64 bytes mixed into the lanes. -/
def mixStripe (b : ByteArray) (lanes : Lanes) (stripe key : Nat) : Lanes :=
  Vector.ofFn fun i =>
    let keyed := word64 b (stripe + 8 * i.val) ^^^ salt64 (key + 8 * i.val)
    lanes[i] + word64 b (stripe + 8 * (beside i).val) +
      keyed.toUInt32.toUInt64 * (keyed >>> 32)

/-- The lanes stirred, after a block. -/
def stirred (lanes : Lanes) : Lanes :=
  Vector.ofFn fun i =>
    (lanes[i] ^^^ lanes[i] >>> 47 ^^^ salt64 (128 + 8 * i.val)) * halfPrimeA

/-- Some stripes of a block mixed into the lanes. -/
def mixStripes (b : ByteArray) (block count : Nat) (lanes : Lanes) : Lanes :=
  (List.range count).foldl (fun acc k => mixStripe b acc (block + 64 * k) (8 * k)) lanes

/-- The lanes folded into one word. -/
def merged (lanes : Lanes) (key : Nat) (start : UInt64) : UInt64 :=
  let pairs : List (Fin 8 × Fin 8 × Nat) := [(0, 1, 0), (2, 3, 16), (4, 5, 32), (6, 7, 48)]
  settled <| pairs.foldl (fun acc (i, j, k) =>
    acc + folded (lanes[i] ^^^ salt64 (key + k)) (lanes[j] ^^^ salt64 (key + k + 8))) start

/-- The digest of more than 240 bytes. -/
def ofLong (b : ByteArray) : Wide :=
  let n := b.size
  let blocks := (n - 1) / 1024
  let lanes := (List.range blocks).foldl
    (fun acc k => stirred (mixStripes b (1024 * k) 16 acc)) initialLanes
  let lanes := mixStripes b (1024 * blocks) ((n - 1 - 1024 * blocks) / 64) lanes
  let lanes := mixStripe b lanes (n - 64) 121
  ⟨merged lanes 11 (n.toUInt64 * primeA), merged lanes 117 (~~~(n.toUInt64 * primeB))⟩

/-! ## All lengths -/

/-- The digest of a sequence of bytes. -/
def ofBytes (b : ByteArray) : Wide :=
  let n := b.size
  if n = 0 then ofNone
  else if n ≤ 3 then ofFew b
  else if n ≤ 8 then ofEight b
  else if n ≤ 16 then ofSixteen b
  else if n ≤ 128 then ofMiddling b
  else if n ≤ 240 then ofMany b
  else ofLong b

/-- The digest of several sequences of bytes, one after another. -/
def digest (parts : List ByteArray) : Nat := (ofBytes (parts.foldl (· ++ ·) .empty)).toNat

end Digest
end Marginalia
