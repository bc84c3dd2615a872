import Mathlib.Algebra.Order.Ring.Int

/-!
# Bytes and big-endian numbers

Fixed-width numbers as the bytes `PutUint16` and `PutUint32` write, and what
reading them back gives.
-/

namespace Simorgh.Lib

/-- A string of bytes. -/
abbrev Bytes := List UInt8

/-- The two bytes of a uint16, high byte first. -/
def putUint16 (v : Nat) : Bytes := [UInt8.ofNat (v / 2 ^ 8), UInt8.ofNat v]

/-- Two bytes, the higher first. -/
def uint16 (b0 b1 : UInt8) : Nat := b0.toNat * 2 ^ 8 + b1.toNat

/-- The four bytes of a uint32, high byte first. -/
def putUint32 (v : UInt32) : Bytes :=
  [UInt8.ofNat (v.toNat / 2 ^ 24), UInt8.ofNat (v.toNat / 2 ^ 16), UInt8.ofNat (v.toNat / 2 ^ 8),
    UInt8.ofNat v.toNat]

/-- Four bytes, the highest first. -/
def uint32 (b0 b1 b2 b3 : UInt8) : UInt32 :=
  UInt32.ofNat (b0.toNat * 2 ^ 24 + b1.toNat * 2 ^ 16 + b2.toNat * 2 ^ 8 + b3.toNat)

theorem uint16_put {v : Nat} (hv : v < 2 ^ 16) :
    uint16 (UInt8.ofNat (v / 2 ^ 8)) (UInt8.ofNat v) = v := by
  simp only [uint16, UInt8.toNat_ofNat']
  omega

/-- The bytes of a uint32 read back as that number. -/
theorem putUint32_eq (v : UInt32) :
    ∃ b0 b1 b2 b3, putUint32 v = [b0, b1, b2, b3] ∧ uint32 b0 b1 b2 b3 = v := by
  have hv := v.toNat_lt
  refine ⟨_, _, _, _, rfl, ?_⟩
  apply UInt32.toNat_inj.1
  simp only [uint32, UInt8.toNat_ofNat', UInt32.toNat_ofNat']
  omega

end Simorgh.Lib
