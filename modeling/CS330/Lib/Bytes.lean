import Mathlib.Data.Int.Init
import Mathlib.Tactic.NormNum

/-! Machine integers as little-endian bytes.

A 32-bit signed integer is an `Int`; `int32` is what storing a value in one
leaves. `byteOf` takes a value apart into its bytes and `le32`, `le16` put bytes
back together, so a record laid out byte by byte is read back field by field
(`le32_byteOf`, `le16_byteOf`). -/
namespace CS330.Bytes

/-- What a 32-bit signed integer holds after `x` is stored in it. -/
def int32 (x : Int) : Int := x.bmod 4294967296

theorem int32_eq {x : Int} (hl : -2147483648 ≤ x) (hu : x < 2147483648) : int32 x = x :=
  Int.bmod_eq_of_le (by omega) (by omega)

theorem int32_congr {x y : Int} (h : x % 4294967296 = y % 4294967296) : int32 x = int32 y := by
  unfold int32 Int.bmod
  rw [show ((4294967296 : Nat) : Int) = 4294967296 from rfl, h]

theorem int32_emod (x : Int) : int32 x % 4294967296 = x % 4294967296 :=
  Int.bmod_emod

theorem int32_range (x : Int) : -2147483648 ≤ int32 x ∧ int32 x < 2147483648 := by
  unfold int32
  exact ⟨Int.le_bmod (by decide), Int.bmod_lt (by decide)⟩

/-- Byte `k` of `x`, the least significant first. -/
def byteOf (x : Int) (k : Nat) : UInt8 := UInt8.ofNat (x / 256 ^ k % 256).toNat

/-- Four bytes as a signed integer. -/
def le32 (b₀ b₁ b₂ b₃ : UInt8) : Int :=
  int32 (b₀.toNat + 256 * b₁.toNat + 65536 * b₂.toNat + 16777216 * b₃.toNat)

/-- Two bytes as an unsigned integer. -/
def le16 (b₀ b₁ : UInt8) : Nat := b₀.toNat + 256 * b₁.toNat

theorem byteOf_toNat (x : Int) (k : Nat) : ((byteOf x k).toNat : Int) = x / 256 ^ k % 256 := by
  have hl : 0 ≤ x / 256 ^ k % 256 := Int.emod_nonneg _ (by decide)
  have hu : x / 256 ^ k % 256 < 256 := Int.emod_lt_of_pos _ (by decide)
  rw [byteOf, UInt8.toNat_ofNat_of_lt' (by show _ < 256; omega)]
  exact Int.toNat_of_nonneg hl

theorem le32_byteOf (x : Int) :
    le32 (byteOf x 0) (byteOf x 1) (byteOf x 2) (byteOf x 3) = int32 x := by
  have hmod : (x / 256 ^ 0 % 256 + 256 * (x / 256 ^ 1 % 256) + 65536 * (x / 256 ^ 2 % 256) +
      16777216 * (x / 256 ^ 3 % 256) : Int) = x % 4294967296 := by
    norm_num
    omega
  simp only [le32, byteOf_toNat, int32, hmod]
  exact Int.emod_bmod x 4294967296

theorem le16_byteOf {x : Nat} (h : x < 65536) : le16 (byteOf x 0) (byteOf x 1) = x := by
  have h₀ := byteOf_toNat x 0
  have h₁ := byteOf_toNat x 1
  norm_num at h₀ h₁
  unfold le16
  omega

theorem le32_range (b₀ b₁ b₂ b₃ : UInt8) :
    -2147483648 ≤ le32 b₀ b₁ b₂ b₃ ∧ le32 b₀ b₁ b₂ b₃ < 2147483648 :=
  int32_range _

end CS330.Bytes
