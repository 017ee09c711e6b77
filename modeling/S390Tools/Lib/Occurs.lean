import S390Tools.Lib.CString

/-!
# Where a string occurs first

`find` gives the first position at which the needle is a prefix of the rest.
-/

namespace CString

theorem find_some {n : List UInt8} : ∀ {s : List UInt8} {k : Nat}, find n s = some k →
    n <+: s.drop k ∧ ∀ j < k, ¬ n <+: s.drop j
  | [], k, h => by
    by_cases hn : n = []
    · rw [find, if_pos hn] at h
      obtain rfl := Option.some.inj h
      exact ⟨hn ▸ List.nil_prefix, fun j hj => absurd hj (Nat.not_lt_zero j)⟩
    · rw [find, if_neg hn] at h
      cases h
  | c :: s, k, h => by
    rw [find] at h
    by_cases hp : n.isPrefixOf (c :: s) = true
    · rw [if_pos hp] at h
      obtain rfl := Option.some.inj h
      exact ⟨List.isPrefixOf_iff_prefix.mp hp, fun j hj => absurd hj (Nat.not_lt_zero j)⟩
    · rw [if_neg hp] at h
      obtain ⟨k', hk', rfl⟩ := Option.map_eq_some_iff.mp h
      obtain ⟨hat, hfirst⟩ := find_some hk'
      refine ⟨hat, fun j hj => ?_⟩
      cases j with
      | zero => exact fun hn => hp (List.isPrefixOf_iff_prefix.mpr hn)
      | succ j => exact hfirst j (Nat.lt_of_succ_lt_succ hj)

theorem find_none {n : List UInt8} : ∀ {s : List UInt8}, find n s = none → ∀ j, ¬ n <+: s.drop j
  | [], h, j => by
    have hn : n ≠ [] := fun hn => by
      rw [find, if_pos hn] at h
      cases h
    rw [List.drop_nil]
    exact fun hp => hn (List.prefix_nil.mp hp)
  | c :: s, h, j => by
    rw [find] at h
    by_cases hp : n.isPrefixOf (c :: s) = true
    · rw [if_pos hp] at h
      cases h
    · rw [if_neg hp] at h
      cases j with
      | zero => exact fun hn => hp (List.isPrefixOf_iff_prefix.mpr hn)
      | succ j => exact find_none (Option.map_eq_none_iff.mp h) j

end CString
