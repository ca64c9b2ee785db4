/-!
# Words of bytes

The digest reads its input as words of four and eight bytes, the lowest byte first, and mixes words
by multiplying them to twice their width.  A place behind the end reads as zero.
-/

set_option autoImplicit false
namespace Marginalia
namespace Digest

/-- The byte at a place. -/
def byteAt (bytes : ByteArray) (i : Nat) : UInt8 := if h : i < bytes.size then bytes[i] else 0

/-- The word of four bytes at a place. -/
def word32 (bytes : ByteArray) (i : Nat) : UInt32 :=
  (byteAt bytes i).toUInt32 ||| (byteAt bytes (i + 1)).toUInt32 <<< 8 |||
    (byteAt bytes (i + 2)).toUInt32 <<< 16 ||| (byteAt bytes (i + 3)).toUInt32 <<< 24

/-- The word of eight bytes at a place. -/
def word64 (bytes : ByteArray) (i : Nat) : UInt64 :=
  (word32 bytes i).toUInt64 ||| (word32 bytes (i + 4)).toUInt64 <<< 32

/-- A word with its four bytes in the opposite order. -/
def swapped32 (w : UInt32) : UInt32 :=
  (w <<< 24) ||| ((w &&& (0xff00 : UInt32)) <<< 8) ||| ((w >>> 8) &&& (0xff00 : UInt32)) |||
    (w >>> 24)

/-- A word with its eight bytes in the opposite order. -/
def swapped64 (w : UInt64) : UInt64 :=
  (swapped32 w.toUInt32).toUInt64 <<< 32 ||| (swapped32 (w >>> 32).toUInt32).toUInt64

/-- Two words that make up a number of twice the width. -/
structure Wide where
  low : UInt64
  high : UInt64
  deriving DecidableEq, Repr

/-- The number that two words make up. -/
def Wide.toNat (w : Wide) : Nat := w.high.toNat * UInt64.size + w.low.toNat

/-- The full product of two words. -/
def product (a b : UInt64) : Wide :=
  let n := a.toNat * b.toNat
  ⟨n.toUInt64, (n / UInt64.size).toUInt64⟩

/-- No bit of a product is lost. -/
theorem toNat_product (a b : UInt64) : (product a b).toNat = a.toNat * b.toNat := by
  have h : a.toNat * b.toNat < UInt64.size * UInt64.size :=
    Nat.mul_lt_mul'' a.toNat_lt_size b.toNat_lt_size
  have hq : a.toNat * b.toNat / UInt64.size < UInt64.size := Nat.div_lt_of_lt_mul h
  simp only [Wide.toNat, product, UInt64.toNat_ofNat', Nat.toUInt64_eq]
  simp only [UInt64.size] at hq ⊢
  omega

/-- The two halves of a product, folded into one word. -/
def folded (a b : UInt64) : UInt64 :=
  let p := product a b
  p.low ^^^ p.high

end Digest
end Marginalia
