import Mathlib.Algebra.Ring.Nat
import Mathlib.Algebra.Ring.Int.Defs

namespace FiberKcp.Data

/-! Serial numbers: 32-bit counters compared by the sign of their difference. -/

/-- The difference of two serial numbers, read as a signed 32-bit number. -/
def serialDiff (later earlier : UInt32) : Int := (later - earlier).toInt32.toInt

theorem serialDiff_cases (later earlier : UInt32) :
    serialDiff later earlier =
      if (later - earlier).toNat < 2 ^ 31 then ((later - earlier).toNat : Int)
      else (later - earlier).toNat - 2 ^ 32 := by
  change (later - earlier).toBitVec.toInt = _
  rw [BitVec.toInt_eq_toNat_cond]
  simp only [UInt32.toNat_toBitVec]
  split <;> split <;> omega

/-- Serial numbers less than half the range apart compare as numbers do. -/
theorem serialDiff_eq {later earlier : UInt32}
    (lower : earlier.toNat ≤ later.toNat + 2 ^ 31) (upper : later.toNat < earlier.toNat + 2 ^ 31) :
    serialDiff later earlier = (later.toNat : Int) - earlier.toNat := by
  have laterBound := later.toNat_lt
  have earlierBound := earlier.toNat_lt
  rw [serialDiff_cases, UInt32.toNat_sub]
  split <;> omega

end FiberKcp.Data
