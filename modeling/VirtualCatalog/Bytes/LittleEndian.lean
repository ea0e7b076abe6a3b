import Mathlib.Data.Int.Basic
import Mathlib.Data.Nat.Bitwise
import Mathlib.Algebra.Order.Ring.Int
import Mathlib.Tactic.Ring

/-!
# Integers in a buffer

Fixed-width two's complement integers, the lowest byte first, one after the other in a buffer of
bytes, and bits in a bitmap.

* `bytesOf w z` : the `w` bytes of an integer; `signed w bs` : the integer of `w` bytes.
* `signed_bytesOf` : an integer that fits is read back.
* `element w b i` : the `i`-th group of `w` bytes of a buffer.
* `wrap w z` : an integer cut to `w` bytes, as the arithmetic of a machine does.
-/

namespace VirtualCatalog

namespace LittleEndian

/-- The natural number of some bytes. -/
def value : List UInt8 → Nat
  | [] => 0
  | b :: bs => b.toNat + 256 * value bs

/-- The lowest `w` bytes of an integer. -/
def bytesOf : Nat → Int → List UInt8
  | 0, _ => []
  | w + 1, z => UInt8.ofNat (z % 256).toNat :: bytesOf w (z / 256)

/-- The integer `z` fits in `w` bytes. -/
def Fits (w : Nat) (z : Int) : Prop := -2 ^ (8 * w) ≤ z * 2 ∧ z * 2 < 2 ^ (8 * w)

instance (w : Nat) (z : Int) : Decidable (Fits w z) := inferInstanceAs (Decidable (_ ∧ _))

/-- The integer of `w` bytes that agrees with `z` in them. -/
def wrap (w : Nat) (z : Int) : Int := z.bmod (2 ^ (8 * w))

/-- The integer of `w` bytes. -/
def signed (w : Nat) (bs : List UInt8) : Int := wrap w (value bs)

/-- The `n` bytes of a buffer from the `i`-th on. -/
def slice (b : List UInt8) (i n : Nat) : List UInt8 := (b.drop i).take n

/-- The `i`-th group of `w` bytes. -/
def element (w : Nat) (b : List UInt8) (i : Nat) : List UInt8 := slice b (i * w) w

/-- The `i`-th bit of a bitmap, the lowest bit of a byte first. -/
def bit (b : List UInt8) (i : Nat) : Bool := (b.getD (i / 8) 0).toNat &&& (1 <<< (i % 8)) != 0

@[simp] theorem length_bytesOf (w : Nat) (z : Int) : (bytesOf w z).length = w := by
  induction w generalizing z with
  | zero => rfl
  | succ w ih => rw [bytesOf, List.length_cons, ih]

/-- A residue by a product: of the lower part, and of the rest. -/
theorem emod_add_mul_ediv_emod {M : Int} (hM : 0 < M) (z : Int) :
    z % 256 + 256 * (z / 256 % M) = z % (256 * M) := by
  have hlow := Int.emod_nonneg z (show (256 : Int) ≠ 0 by decide)
  have hlow' := Int.emod_lt_of_pos z (show (0 : Int) < 256 by decide)
  have hhigh := Int.emod_nonneg (z / 256) (ne_of_gt hM)
  have hhigh' := Int.emod_lt_of_pos (z / 256) hM
  have hz : z = (z % 256 + 256 * (z / 256 % M)) + 256 * M * (z / 256 / M) := by
    have h₁ := Int.emod_add_mul_ediv z 256
    have h₂ := Int.emod_add_mul_ediv (z / 256) M
    calc z = z % 256 + 256 * (z / 256) := h₁.symm
      _ = z % 256 + 256 * (z / 256 % M + M * (z / 256 / M)) := by rw [h₂]
      _ = _ := by ring
  conv_rhs => rw [hz, Int.add_mul_emod_self_left]
  refine (Int.emod_eq_of_lt ?_ ?_).symm
  · omega
  · generalize z / 256 % M = high at hhigh'
    omega

/-- The bytes of an integer are its residue. -/
theorem value_bytesOf (w : Nat) (z : Int) : (value (bytesOf w z) : Int) = z % 2 ^ (8 * w) := by
  induction w generalizing z with
  | zero =>
    rw [Nat.mul_zero, pow_zero, Int.emod_one]
    rfl
  | succ w ih =>
    have hbyte : ((UInt8.ofNat (z % 256).toNat).toNat : Int) = z % 256 := by
      have hlt : (z % 256).toNat < 256 := by omega
      rw [UInt8.toNat_ofNat', Nat.mod_eq_of_lt hlt]
      omega
    have hpow : (2 : Int) ^ (8 * (w + 1)) = 256 * 2 ^ (8 * w) := by
      rw [show 8 * (w + 1) = 8 * w + 8 by omega, pow_add]
      ring
    rw [bytesOf, value, Nat.cast_add, Nat.cast_mul, hbyte, ih, hpow]
    exact emod_add_mul_ediv_emod (pow_pos (by decide) _) z

theorem wrap_of_fits {w : Nat} {z : Int} (h : Fits w z) : wrap w z = z := by
  refine Int.bmod_eq_of_le_mul_two ?_ ?_
  · simpa using h.1
  · simpa using h.2

theorem Fits.mono {w w' : Nat} {z : Int} (h : Fits w z) (hw : w ≤ w') : Fits w' z := by
  have hpow : (2 : Int) ^ (8 * w) ≤ 2 ^ (8 * w') :=
    pow_le_pow_right₀ (by decide) (Nat.mul_le_mul_left 8 hw)
  have := h.1
  have := h.2
  constructor <;> omega

/-- What is cut to `w` bytes fits in them. -/
theorem fits_wrap {w : Nat} (hw : 0 < w) (z : Int) : Fits w (wrap w z) := by
  have heven : (2 : Int) ^ (8 * w) = 2 * 2 ^ (8 * w - 1) := by
    rw [← pow_succ']
    congr 1
    omega
  have hpos : 0 < 2 ^ (8 * w) := Nat.two_pow_pos _
  have hle := Int.le_bmod (x := z) hpos
  have hlt := Int.bmod_lt (x := z) hpos
  push_cast at hle hlt
  rw [Fits, wrap, heven]
  rw [heven] at hle hlt
  omega

/-- Cutting an integer gives it back exactly if it fits. -/
theorem wrap_eq_self_iff {w : Nat} {z : Int} (hw : 0 < w) : wrap w z = z ↔ Fits w z :=
  ⟨fun h => h ▸ fits_wrap hw z, wrap_of_fits⟩

/-- An integer that fits is read back. -/
theorem signed_bytesOf {w : Nat} {z : Int} (h : Fits w z) : signed w (bytesOf w z) = z := by
  rw [signed, wrap, value_bytesOf]
  have hcast : (2 : Int) ^ (8 * w) = ((2 ^ (8 * w) : Nat) : Int) := by norm_num
  rw [hcast, Int.emod_bmod]
  exact wrap_of_fits h

end LittleEndian

end VirtualCatalog
