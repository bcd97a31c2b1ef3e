/-
# Little-endian numbers

A natural number as so many bytes, the least significant one first.
-/

import Suggest.Text.Utf8

namespace Suggest
namespace LittleEndian

/-- The lowest `width` bytes of a number. -/
def encode : Nat → Nat → Bytes
  | 0, _ => []
  | width + 1, n => UInt8.ofNat (n % 256) :: encode width (n / 256)

/-- The number that bytes stand for. -/
def decode : Bytes → Nat
  | [] => 0
  | b :: rest => b.toNat + 256 * decode rest

@[simp] theorem length_encode (width n : Nat) : (encode width n).length = width := by
  induction width generalizing n with
  | zero => rfl
  | succ width ih => simp [encode, ih]

/-- A number that fits the bytes is read back. -/
theorem decode_encode {width n : Nat} (h : n < 1 <<< (8 * width)) : decode (encode width n) = n := by
  induction width generalizing n with
  | zero => simp only [encode, decode]; omega
  | succ width ih =>
    have hpow : 1 <<< (8 * (width + 1)) = 256 * 1 <<< (8 * width) := by
      rw [Nat.mul_succ, Nat.shiftLeft_add, Nat.shiftLeft_eq _ 8]; omega
    rw [encode, decode, ih (by omega)]
    simp only [UInt8.toNat_ofNat']
    omega

end LittleEndian
end Suggest
