import Mathlib.Algebra.Group.Nat.Defs
import Mathlib.Algebra.Order.Group.Unbundled.Int
import Mathlib.Algebra.Order.Group.Abs

/-! Fixed-width big-endian integers as bytes, and why fields of known length do
not run into each other. -/
namespace NixHomeServer.Library.Encoding

def beBytes : Nat → Nat → List UInt8
  | 0, _ => []
  | width + 1, n => beBytes width (n / 256) ++ [UInt8.ofNat (n % 256)]

/-- Two's complement: the bytes of a signed integer of `width` bytes. -/
def beSigned (width : Nat) (n : Int) : List UInt8 :=
  beBytes width (n % (256 ^ width : Nat)).toNat

end NixHomeServer.Library.Encoding
