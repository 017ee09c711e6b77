import Mathlib

/-!
# Boundaries

Where the positions with a property form a prefix, a binary search looks for
the first position without it.
-/

/-- Below `n`, exactly the positions below `b` have the property. -/
structure Boundary (p : Nat → Prop) (n b : Nat) : Prop where
  le : b ≤ n
  iff : ∀ i < n, p i ↔ i < b

namespace Boundary

variable {p : Nat → Prop} {n b : Nat}

theorem of_prefix (hp : ∀ i j, i ≤ j → j < n → p j → p i) : ∃ b, Boundary p n b := by
  induction n with
  | zero => exact ⟨0, Nat.le_refl 0, fun i hi => absurd hi (Nat.not_lt_zero i)⟩
  | succ n ih =>
    obtain ⟨b, hb⟩ := ih fun i j hij hj => hp i j hij (Nat.lt_succ_of_lt hj)
    by_cases hn : p n
    · refine ⟨n + 1, Nat.le_refl _, fun i hi => iff_of_true ?_ hi⟩
      exact hp i n (Nat.le_of_lt_succ hi) (Nat.lt_succ_self n) hn
    · refine ⟨b, Nat.le_succ_of_le hb.le, fun i hi => ?_⟩
      rcases Nat.lt_succ_iff_lt_or_eq.mp hi with hlt | rfl
      · exact hb.iff i hlt
      · exact iff_of_false hn (Nat.not_lt_of_le hb.le)

theorem last (hb : Boundary p n b) (hpos : 0 < b) : b - 1 < n ∧ p (b - 1) ∧ ∀ j < n, p j → j ≤ b - 1 := by
  have hlt : b - 1 < n := by
    have hle := hb.le
    omega
  refine ⟨hlt, (hb.iff _ hlt).mpr (Nat.sub_lt hpos Nat.one_pos), fun j hj h => ?_⟩
  exact Nat.le_sub_one_of_lt ((hb.iff j hj).mp h)

end Boundary
