import S390Tools.Lib.Ranges

/-!
# The runs of a set of numbers

`runs g n` are the maximal ranges below `n` on which `g` holds, in ascending order.
-/

namespace Runs

open Ranges

def extend (n : Nat) (rs : List (Nat × Nat)) : List (Nat × Nat) :=
  match rs.getLast? with
  | some (lo, hi) => if hi = n then rs.dropLast ++ [(lo, n + 1)] else rs ++ [(n, n + 1)]
  | none => [(n, n + 1)]

def runs (g : Nat → Bool) : Nat → List (Nat × Nat)
  | 0 => []
  | n + 1 => if g n then extend n (runs g n) else runs g n

section
variable {g : Nat → Bool} {n : Nat}

theorem extend_append {rs : List (Nat × Nat)} {lo : Nat} : extend n (rs ++ [(lo, n)]) = rs ++ [(lo, n + 1)] := by
  rw [extend, List.getLast?_concat]
  dsimp only
  rw [if_pos rfl, List.dropLast_concat]

theorem extend_apart {rs : List (Nat × Nat)} (h : ∀ r ∈ rs, r.2 < n) : extend n rs = rs ++ [(n, n + 1)] := by
  rw [extend]
  cases hl : rs.getLast? with
  | none => rw [List.getLast?_eq_none_iff.mp hl, List.nil_append]
  | some r => exact if_neg (Nat.ne_of_lt (h r (List.mem_of_getLast? hl)))

/-- Below `n` there is either a run that ends there, or none. -/
theorem runs_cases (g : Nat → Bool) : ∀ n, Canonical (runs g n) ∧ (∀ t, Covers (runs g n) t ↔ t < n ∧ g t = true) ∧
    ((∀ r ∈ runs g n, r.2 < n) ∨ ∃ rs lo, runs g n = rs ++ [(lo, n)])
  | 0 => by
    refine ⟨canonical_nil, fun t => ?_, .inl fun r hr => by cases hr⟩
    exact ⟨fun h => absurd h (covers_nil t), fun h => absurd h.1 (Nat.not_lt_zero t)⟩
  | n + 1 => by
    obtain ⟨hcan, hcov, hend⟩ := runs_cases g n
    have hbelow : ∀ r ∈ runs g n, r.2 ≤ n := fun r hr => by
      rcases hend with hend | ⟨rs, lo, heq⟩
      · exact Nat.le_of_lt (hend r hr)
      · have hasc := hcan.ascending
        have hne := hcan.nonempty (lo, n) (by rw [heq]; simp)
        rw [heq] at hr hasc
        rcases List.mem_append.mp hr with hr | hr
        · have := (List.pairwise_append.mp hasc).2.2 r hr (lo, n) (List.mem_singleton_self _)
          dsimp only at this hne
          omega
        · rw [List.mem_singleton.mp hr]
    rw [runs]
    by_cases hg : g n = true
    · rw [if_pos hg]
      rcases hend with hend | ⟨rs, lo, heq⟩
      · rw [extend_apart hend]
        refine ⟨⟨fun r hr => ?_, ?_⟩, fun t => ?_, .inr ⟨_, n, rfl⟩⟩
        · rcases List.mem_append.mp hr with hr | hr
          · exact hcan.nonempty r hr
          · rw [List.mem_singleton.mp hr]
            exact Nat.lt_succ_self n
        · refine List.pairwise_append.mpr ⟨hcan.ascending, List.pairwise_singleton _ _, fun r hr s hs => ?_⟩
          rw [List.mem_singleton.mp hs]
          exact hend r hr
        · rw [covers_append, hcov, covers_cons, In]
          constructor
          · rintro (h | h | h)
            · exact ⟨Nat.lt_succ_of_lt h.1, h.2⟩
            · have : t = n := by omega
              exact ⟨by omega, this ▸ hg⟩
            · exact absurd h (covers_nil t)
          · intro h
            rcases Nat.lt_or_ge t n with ht | ht
            · exact .inl ⟨ht, h.2⟩
            · exact .inr (.inl ⟨ht, by omega⟩)
      · rw [heq, extend_append]
        rw [heq] at hcan hcov
        have hlo := hcan.nonempty (lo, n) (by simp)
        have hasc := List.pairwise_append.mp hcan.ascending
        refine ⟨⟨fun r hr => ?_, ?_⟩, fun t => ?_, .inr ⟨rs, lo, rfl⟩⟩
        · rcases List.mem_append.mp hr with hr | hr
          · exact hcan.nonempty r (List.mem_append_left _ hr)
          · rw [List.mem_singleton.mp hr]
            exact Nat.lt_succ_of_lt hlo
        · refine List.pairwise_append.mpr ⟨hasc.1, List.pairwise_singleton _ _, fun r hr s hs => ?_⟩
          rw [List.mem_singleton.mp hs]
          exact hasc.2.2 r hr (lo, n) (List.mem_singleton_self _)
        · have hcov := hcov t
          rw [covers_append, covers_cons, In] at hcov
          rw [covers_append, covers_cons, In]
          dsimp only at hcov hlo ⊢
          constructor
          · rintro (h | h | h)
            · have := hcov.mp (.inl h)
              exact ⟨by omega, this.2⟩
            · rcases Nat.lt_or_ge t n with ht | ht
              · have := hcov.mp (.inr (.inl ⟨h.1, ht⟩))
                exact ⟨by omega, this.2⟩
              · have : t = n := by omega
                exact ⟨by omega, this ▸ hg⟩
            · exact absurd h (covers_nil t)
          · intro h
            rcases Nat.lt_or_ge t n with ht | ht
            · rcases hcov.mpr ⟨ht, h.2⟩ with h | h | h
              · exact .inl h
              · exact .inr (.inl ⟨h.1, by omega⟩)
              · exact .inr (.inr h)
            · exact .inr (.inl ⟨by omega, by omega⟩)
    · rw [if_neg hg]
      refine ⟨hcan, fun t => ?_, .inl fun r hr => Nat.lt_succ_of_le (hbelow r hr)⟩
      rw [hcov]
      constructor
      · exact fun h => ⟨by omega, h.2⟩
      · intro h
        have : t ≠ n := fun e => hg (e ▸ h.2)
        exact ⟨by omega, h.2⟩

theorem runs_canonical (g : Nat → Bool) (n : Nat) : Canonical (runs g n) := (runs_cases g n).1

theorem covers_runs {t : Nat} : Covers (runs g n) t ↔ t < n ∧ g t = true := (runs_cases g n).2.1 t

theorem runs_le {r : Nat × Nat} (h : r ∈ runs g n) : r.2 ≤ n := by
  have hne := (runs_canonical g n).nonempty r h
  have hlast := (covers_runs (g := g) (n := n) (t := r.2 - 1)).mp ⟨r, h, by rw [In]; omega⟩
  omega

theorem runs_nil (h : ∀ t, g t = false) : runs g n = [] := by
  rw [(runs_canonical g n).eq_nil_iff]
  intro t ht
  rw [covers_runs, h] at ht
  exact Bool.false_ne_true ht.2

end

end Runs
