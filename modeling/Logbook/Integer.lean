/-!
# Integers of machine width

Documents and queries spell integers of any size.  Each reader keeps those that
fit a width and says itself what becomes of the others.
-/

namespace Logbook

namespace Integer

/-- The least integer above every 64-bit signed one. -/
def int64Bound : Int := 0x8000000000000000

/-- The 64-bit signed integer that equals a number, if there is one. -/
def int64? (number : Int) : Option Int64 :=
  if -int64Bound ≤ number && number < int64Bound then some (Int64.ofInt number) else none

/-- Whether a number is an integer of 64 bits, signed or unsigned. -/
def fits64 (number : Int) : Bool :=
  -0x8000000000000000 ≤ number && number < 0x10000000000000000

/-- Whether a number is an integer of 128 bits, signed or unsigned. -/
def fits128 (number : Int) : Bool :=
  -0x80000000000000000000000000000000 ≤ number
    && number < 0x100000000000000000000000000000000

@[simp] theorem int64?_toInt (integer : Int64) : int64? integer.toInt = some integer := by
  have hlt : integer.toInt < int64Bound := integer.toInt_lt
  have hle : -int64Bound ≤ integer.toInt := integer.le_toInt
  rw [int64?, if_pos (by simp [hlt, hle]), Int64.ofInt_toInt]

theorem fits64_toInt (integer : Int64) : fits64 integer.toInt = true := by
  have hlt := integer.toInt_lt
  have hle := integer.le_toInt
  simp only [fits64, Bool.and_eq_true, decide_eq_true_eq]
  omega

end Integer

end Logbook
