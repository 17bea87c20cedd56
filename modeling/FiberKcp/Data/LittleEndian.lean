import Mathlib.Algebra.Ring.Nat
import Mathlib.Algebra.Ring.Int.Defs

namespace FiberKcp.Data

/-! Little-endian bytes of 16- and 32-bit words. -/

def bytes16 (word : UInt16) : List UInt8 :=
  [word.toUInt8, (word >>> 8).toUInt8]

def bytes32 (word : UInt32) : List UInt8 :=
  [word.toUInt8, (word >>> 8).toUInt8, (word >>> 16).toUInt8, (word >>> 24).toUInt8]

/-- The word in the first two bytes; bytes past the end read as zero. -/
def word16 (bytes : List UInt8) : UInt16 :=
  (bytes.getD 0 0).toUInt16 + ((bytes.getD 1 0).toUInt16 <<< 8)

/-- The word in the first four bytes; bytes past the end read as zero. -/
def word32 (bytes : List UInt8) : UInt32 :=
  (bytes.getD 0 0).toUInt32 + (((bytes.getD 1 0).toUInt32 + (((bytes.getD 2 0).toUInt32 +
    ((bytes.getD 3 0).toUInt32 <<< 8)) <<< 8)) <<< 8)

@[simp] theorem length_bytes16 (word : UInt16) : (bytes16 word).length = 2 := rfl

@[simp] theorem length_bytes32 (word : UInt32) : (bytes32 word).length = 4 := rfl

theorem word16_bytes16 (word : UInt16) (rest : List UInt8) : word16 (bytes16 word ++ rest) = word := by
  apply UInt16.toNat_inj.mp
  have bound := word.toNat_lt
  simp only [word16, bytes16, List.cons_append, List.getD_cons_zero, List.getD_cons_succ,
    UInt16.toNat_add, UInt16.toNat_shiftLeft, UInt16.toNat_shiftRight, UInt8.toNat_toUInt16,
    UInt16.toNat_toUInt8, UInt16.reduceToNat, Nat.shiftLeft_eq, Nat.shiftRight_eq_div_pow,
    Nat.reduceMod, Nat.reducePow] at *
  omega

theorem word32_bytes32 (word : UInt32) (rest : List UInt8) : word32 (bytes32 word ++ rest) = word := by
  apply UInt32.toNat_inj.mp
  have bound := word.toNat_lt
  simp only [word32, bytes32, List.cons_append, List.getD_cons_zero, List.getD_cons_succ,
    UInt32.toNat_add, UInt32.toNat_shiftLeft, UInt32.toNat_shiftRight, UInt8.toNat_toUInt32,
    UInt32.toNat_toUInt8, UInt32.reduceToNat, Nat.shiftLeft_eq, Nat.shiftRight_eq_div_pow,
    Nat.reduceMod, Nat.reducePow] at *
  omega

end FiberKcp.Data
