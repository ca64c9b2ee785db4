import Marginalia.Digest.Basic
import Marginalia.Source.Addressed

/-!
# Identifiers

An identifier is the digest of a position, a time and some noise, in 32 hexadecimal digits.  The
digits are all of the same case and hold no quotation mark, so an identifier can stand in an
attribute as it is.
-/

set_option autoImplicit false
namespace Marginalia

namespace Digest

/-- The last digits of a number, in base sixteen. -/
def hexDigits : Nat → Nat → Text
  | 0, _ => []
  | count + 1, n => hexDigits count (n / 16) ++ [Nat.digitChar (n % 16)]

/-- A digest in hexadecimal digits. -/
def hex (n : Nat) : Text := hexDigits 32 n

@[simp] theorem length_hexDigits (count n : Nat) : (hexDigits count n).length = count := by
  induction count generalizing n with
  | zero => rfl
  | succ k ih => simp [hexDigits, ih]

theorem length_hex (n : Nat) : (hex n).length = 32 := length_hexDigits 32 n

/-- The lowest bytes of a number, lowest first. -/
def littleEndian (count n : Nat) : ByteArray :=
  ⟨((List.range count).map fun k => (n / Nat.pow 256 k).toUInt8).toArray⟩

end Digest

/-- What tells one identifier from another made at the same position. -/
structure Entropy where
  /-- The time in nanoseconds. -/
  nanoseconds : Nat
  /-- A random word for each identifier of a run. -/
  noise : Nat → Nat

open Digest in
/-- Identifiers made from positions, a time and noise; `drawn` of them were made before. -/
def Entropy.mint (e : Entropy) (drawn : Nat) : Mint := fun k position =>
  hex (digest [littleEndian 8 position, littleEndian 16 e.nanoseconds,
    littleEndian 8 (e.noise (drawn + k))])

/-- The entropy for one of several sources: the noise is dealt out along the diagonals of a table,
so no two sources share a word of it. -/
def Entropy.part (e : Entropy) (place : Nat) : Entropy :=
  { e with noise := fun k => e.noise ((place + k) * (place + k + 1) / 2 + k) }

end Marginalia
