import Mathlib

/-!
# Trees with a fixed fan-out

A tree over `n` leaves with fan-out `p` has `perLevel p k n` nodes on level `k`.
`levels p n` is the height found by dividing with rounding down as long as the
quotient by `p + 1` is not zero; it falls short of the leaves just above a power.
-/

namespace FanOut

def perLevel (p : Nat) : Nat → Nat → Nat
  | 0, n => n
  | k + 1, n => perLevel p k (n ⌈/⌉ p)

/-- The loop of `levels`; `fuel` bounds its rounds. -/
def levelsLoop (p : Nat) : Nat → Nat → Nat → Nat
  | 0, l, _ => l
  | fuel + 1, l, n => if n / (p + 1) = 0 then l else levelsLoop p fuel (l + 1) (n / p)

def levels (p n : Nat) : Nat := if n < 2 then 0 else levelsLoop p n 1 n

/-- The leaf counts just above a power of the fan-out. -/
def Overfull (p n : Nat) : Prop := ∃ k, 2 ≤ k ∧ p ^ k < n ∧ n < p ^ k + p ^ (k - 1)

section
variable {p : Nat} (hp : 2 ≤ p)

include hp in
theorem lt_ceilDiv {i n : Nat} : i < n ⌈/⌉ p ↔ i * p < n := by
  rw [← not_le, ← not_le, ceilDiv_le_iff_le_mul (by omega), Nat.mul_comm]

include hp in
theorem lt_perLevel {i : Nat} : ∀ {k n : Nat}, i < perLevel p k n ↔ i * p ^ k < n
  | 0, n => by simp [perLevel]
  | k + 1, n => by
    rw [perLevel, lt_perLevel, lt_ceilDiv hp, pow_succ, Nat.mul_assoc]

theorem levelsLoop_spec (hp : 2 ≤ p) : ∀ {fuel l n : Nat}, n ≤ fuel → 1 ≤ n →
    ∃ r, levelsLoop p fuel l n = l + r ∧ n < (p + 1) * p ^ r ∧ (1 ≤ r → (p + 1) * p ^ (r - 1) ≤ n)
  | 0, l, n, h, h₁ => by omega
  | fuel + 1, l, n, h, h₁ => by
    rw [levelsLoop]
    by_cases hz : n / (p + 1) = 0
    · rw [if_pos hz]
      have hlt : n < p + 1 := by
        rcases Nat.div_eq_zero_iff.mp hz with h | h
        · omega
        · exact h
      exact ⟨0, rfl, by simpa using hlt, by omega⟩
    · rw [if_neg hz]
      have hle : p + 1 ≤ n := by
        by_contra hlt
        exact hz (Nat.div_eq_of_lt (by omega))
      have hpos : 1 ≤ n / p := Nat.div_pos (by omega) (by omega)
      have hdec : n / p < n := Nat.div_lt_self (by omega) (by omega)
      obtain ⟨r, hr, hub, hlb⟩ := @levelsLoop_spec hp fuel (l + 1) (n / p) (by omega) hpos
      refine ⟨r + 1, by rw [hr]; omega, ?_, fun _ => ?_⟩
      · have : n < (p + 1) * p ^ r * p := (Nat.div_lt_iff_lt_mul (by omega)).mp hub
        rwa [Nat.mul_assoc, ← pow_succ] at this
      · cases r with
        | zero => simpa using hle
        | succ r =>
          have := (Nat.le_div_iff_mul_le (by omega : 0 < p)).mp (hlb (by omega))
          simpa [pow_succ, Nat.mul_assoc] using this

include hp in
theorem levels_spec {n : Nat} (hn : 2 ≤ n) :
    ∃ r, levels p n = r + 1 ∧ n < (p + 1) * p ^ r ∧ (1 ≤ r → (p + 1) * p ^ (r - 1) ≤ n) := by
  obtain ⟨r, hr, h₁, h₂⟩ := @levelsLoop_spec p hp n 1 n (Nat.le_refl n) (by omega)
  exact ⟨r, by rw [levels, if_neg (by omega), hr, Nat.add_comm], h₁, h₂⟩

include hp in
theorem le_pow_levels {n : Nat} (hn : 2 ≤ n) : n ≤ p ^ levels p n ↔ ¬ Overfull p n := by
  obtain ⟨r, hr, hub, hlb⟩ := levels_spec hp hn
  rw [hr]
  have hexp : (p + 1) * p ^ r = p ^ (r + 1) + p ^ r := by rw [Nat.add_mul, pow_succ, Nat.mul_comm p]; omega
  rw [hexp] at hub
  constructor
  · rintro hle ⟨k, hk, hlo, hhi⟩
    obtain ⟨k, rfl⟩ : ∃ j, k = j + 2 := ⟨k - 2, by omega⟩
    rw [show k + 2 - 1 = k + 1 by omega] at hhi
    rcases Nat.lt_trichotomy r (k + 1) with h | h | h
    · have h₁ : p ^ (r + 1) ≤ p ^ (k + 1) := Nat.pow_le_pow_right (by omega) (by omega)
      have h₂ : p ^ r ≤ p ^ k := Nat.pow_le_pow_right (by omega) (by omega)
      have h₃ : p ^ (k + 1) + p ^ k ≤ p ^ (k + 2) := by
        have : p ^ k ≤ p ^ (k + 1) := Nat.pow_le_pow_right (by omega) (by omega)
        have h₄ : p ^ (k + 2) = p * p ^ (k + 1) := by rw [pow_succ, Nat.mul_comm]
        nlinarith
      omega
    · subst h
      have : p ^ (k + 1 + 1) = p ^ (k + 2) := rfl
      omega
    · have h₁ := hlb (by omega)
      have h₂ : (p + 1) * p ^ (k + 1) ≤ (p + 1) * p ^ (r - 1) :=
        Nat.mul_le_mul_left _ (Nat.pow_le_pow_right (by omega) (by omega))
      have h₃ : (p + 1) * p ^ (k + 1) = p ^ (k + 2) + p ^ (k + 1) := by
        rw [Nat.add_mul, pow_succ p (k + 1), Nat.mul_comm p]; omega
      omega
  · intro hno
    by_contra hlt
    apply hno
    cases r with
    | zero => simp at hub hlt; omega
    | succ r => exact ⟨r + 2, by omega, Nat.lt_of_not_le hlt, by rw [← hexp] at hub; exact hexp ▸ hub⟩

end

end FanOut
