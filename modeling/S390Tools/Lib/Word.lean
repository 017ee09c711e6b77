import Mathlib

/-!
# Machine words

Values of fixed-width unsigned C types are natural numbers; a store into such
a type reduces the mathematical result modulo `2 ^ w`. Signed values are integers.
-/

namespace Word

def u8 (x : Int) : Nat := (x % 256).toNat
def u16 (x : Int) : Nat := (x % 65536).toNat
def u32 (x : Int) : Nat := (x % 4294967296).toNat
def u64 (x : Int) : Nat := (x % 18446744073709551616).toNat

def i32 (x : Int) : Int := (x + 2147483648) % 4294967296 - 2147483648

/-! ## Stores into a type of `m` values -/

section
variable {m : Nat} {x : Int}

theorem toNat_emod_lt (hm : 0 < m) (x : Int) : (x % m).toNat < m := by
  have hlow := Int.emod_nonneg x (Int.natCast_ne_zero.mpr hm.ne')
  have hhigh := Int.emod_lt_of_pos x (Int.natCast_pos.mpr hm)
  omega

theorem toNat_emod_of_lt (h₀ : 0 ≤ x) (h : x < m) : (x % m).toNat = x.toNat := by
  rw [Int.emod_eq_of_lt h₀ h]

theorem toNat_emod_eq {n : Nat} (h : x = n) (hn : n < m) : (x % m).toNat = n := by
  rw [h, toNat_emod_of_lt (Int.natCast_nonneg n) (Int.ofNat_lt.mpr hn), Int.toNat_natCast]

end

/-! ## The widths of C -/

section
variable {x : Int} {n : Nat}

theorem u8_lt (x : Int) : u8 x < 256 := toNat_emod_lt (by decide) x
theorem u16_lt (x : Int) : u16 x < 65536 := toNat_emod_lt (by decide) x
theorem u32_lt (x : Int) : u32 x < 4294967296 := toNat_emod_lt (by decide) x
theorem u64_lt (x : Int) : u64 x < 18446744073709551616 := toNat_emod_lt (by decide) x

theorem u16_of_lt (h₀ : 0 ≤ x) (h : x < 65536) : u16 x = x.toNat := toNat_emod_of_lt h₀ h
theorem u32_of_lt (h₀ : 0 ≤ x) (h : x < 4294967296) : u32 x = x.toNat := toNat_emod_of_lt h₀ h
theorem u64_of_lt (h₀ : 0 ≤ x) (h : x < 18446744073709551616) : u64 x = x.toNat := toNat_emod_of_lt h₀ h

theorem u8_eq (h : x = n) (hn : n < 256) : u8 x = n := toNat_emod_eq h hn
theorem u16_eq (h : x = n) (hn : n < 65536) : u16 x = n := toNat_emod_eq h hn
theorem u32_eq (h : x = n) (hn : n < 4294967296) : u32 x = n := toNat_emod_eq h hn
theorem u64_eq (h : x = n) (hn : n < 18446744073709551616) : u64 x = n := toNat_emod_eq h hn

end

theorem u64_u64 (x y : Int) : u64 (u64 x + y) = u64 (x + y) := by
  unfold u64
  rw [Int.toNat_of_nonneg (Int.emod_nonneg _ (by decide)), Int.emod_add_emod]

theorem i32_of_lt {n : Nat} (h : n < 2147483648) : i32 n = n := by unfold i32; omega

end Word
