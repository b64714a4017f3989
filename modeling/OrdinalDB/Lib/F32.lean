import Mathlib

/-!
# Single-precision floats by their bits

Classification and comparison of `f32` values on the IEEE-754 bit pattern.
Magnitudes compare as their bit patterns, so no arithmetic is needed.
-/

namespace Float32Bits

/-- An `f32` by its bit pattern. -/
structure F32 where
  bits : UInt32
deriving DecidableEq, Repr

namespace F32

def isFinite (v : F32) : Bool := (v.bits >>> 23) &&& 0xff != 0xff

/-- The bit pattern of `abs()`. -/
def abs (v : F32) : UInt32 := v.bits &&& 0x7fffffff

def isNaN (v : F32) : Bool := v.abs > 0x7f800000

/-- The signed magnitude: on numbers its order is the order of the values. -/
def key (v : F32) : Int :=
  if v.bits &&& 0x80000000 = 0 then v.abs.toNat else -v.abs.toNat

def lt (a b : F32) : Bool := !a.isNaN && !b.isNaN && a.key < b.key

def le (a b : F32) : Bool := !a.isNaN && !b.isNaN && a.key ≤ b.key

/-- The key of `total_cmp`: every bit pattern has its place. -/
def totalKey (v : F32) : Int :=
  if v.bits &&& 0x80000000 = 0 then v.abs.toNat else -1 - v.abs.toNat

/-- The value of a finite pattern. -/
def toRat (v : F32) : ℚ :=
  let exponent := (v.abs >>> 23).toNat
  let fraction := (v.abs &&& 0x7fffff).toNat
  let magnitude : ℚ :=
    if exponent = 0 then fraction / 2 ^ 149 else (2 ^ 23 + fraction) * 2 ^ exponent / 2 ^ 150
  if v.bits &&& 0x80000000 = 0 then magnitude else -magnitude

def zero : F32 := ⟨0⟩

def one : F32 := ⟨0x3f800000⟩

theorem sign_clear_iff (v : F32) : v.bits &&& 0x80000000 = 0 ↔ v.bits.toNat < 2 ^ 31 := by
  have hlt := v.bits.toNat_lt
  rw [← UInt32.toNat_inj, UInt32.toNat_and]
  show v.bits.toNat &&& 2 ^ 31 = 0 ↔ _
  rw [Nat.and_two_pow, Nat.testBit_eq_decide_div_mod_eq]
  cases hbit : decide (v.bits.toNat / 2 ^ 31 % 2 = 1) with
  | true =>
    have := of_decide_eq_true hbit
    exact iff_of_false (by simp) (by omega)
  | false =>
    have := of_decide_eq_false hbit
    exact iff_of_true (by simp) (by omega)

theorem abs_toNat (v : F32) : v.abs.toNat = v.bits.toNat % 2 ^ 31 := by
  rw [abs, UInt32.toNat_and]
  exact Nat.and_two_pow_sub_one_eq_mod v.bits.toNat 31

theorem totalKey_injective : Function.Injective totalKey := by
  intro a b h
  have ha := a.bits.toNat_lt
  have hb := b.bits.toNat_lt
  have hbits : a.bits.toNat = b.bits.toNat := by
    unfold totalKey at h
    rw [abs_toNat, abs_toNat, if_congr (sign_clear_iff a) rfl rfl,
      if_congr (sign_clear_iff b) rfl rfl] at h
    split at h <;> split at h <;> omega
  cases a
  cases b
  exact congrArg F32.mk (UInt32.toNat_inj.mp hbits)

end F32

end Float32Bits
