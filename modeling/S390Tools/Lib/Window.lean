import Mathlib

/-!
# Windows into a partial byte string

`window f a n` are the values of `f` from `a` on, at most `n` of them, up to the
first place where `f` has none.
-/

namespace Window

variable {α : Type*}

@[grind =] def window (f : Nat → Option α) : Nat → Nat → List α
  | _, 0 => []
  | a, n + 1 =>
    match f a with
    | none => []
    | some x => x :: window f (a + 1) n

section
variable {f : Nat → Option α} {a n k : Nat}

theorem window_none (h : f a = none) (n : Nat) : window f a n = [] := by
  cases n with
  | zero => rfl
  | succ n => rw [window, h]

theorem window_length_le : ∀ (n a : Nat), (window f a n).length ≤ n
  | 0, _ => Nat.le_refl 0
  | n + 1, a => by
    rw [window]
    cases f a with
    | none => exact Nat.zero_le _
    | some x => exact Nat.succ_le_succ (window_length_le n (a + 1))

theorem get_window : ∀ {n a i : Nat} (h : i < (window f a n).length), f (a + i) = some (window f a n)[i]
  | 0, _, _, h => absurd h (Nat.not_lt_zero _)
  | n + 1, a, i, h => by
    cases hf : f a with
    | none =>
      simp only [window_none hf, List.length_nil] at h
      exact absurd h (Nat.not_lt_zero _)
    | some x =>
      have hw : window f a (n + 1) = x :: window f (a + 1) n := by rw [window, hf]
      simp only [hw] at h ⊢
      cases i with
      | zero => exact hf
      | succ i =>
        rw [show a + (i + 1) = a + 1 + i by omega, List.getElem_cons_succ]
        exact get_window (Nat.lt_of_succ_lt_succ h)

theorem window_stop : ∀ {n a : Nat}, (window f a n).length < n → f (a + (window f a n).length) = none
  | 0, _, h => absurd h (Nat.not_lt_zero _)
  | n + 1, a, h => by
    cases hf : f a with
    | none =>
      rw [window_none hf]
      exact hf
    | some x =>
      have hw : window f a (n + 1) = x :: window f (a + 1) n := by rw [window, hf]
      rw [hw, List.length_cons] at h ⊢
      rw [show a + ((window f (a + 1) n).length + 1) = a + 1 + (window f (a + 1) n).length by omega]
      exact window_stop (Nat.lt_of_succ_lt_succ h)

theorem window_append {g : Nat → α} : ∀ {k a n : Nat}, k ≤ n → (∀ i < k, f (a + i) = some (g i)) →
    window f a n = (List.range k).map g ++ window f (a + k) (n - k)
  | 0, a, n, _, _ => by simp
  | k + 1, a, 0, h, _ => absurd h (Nat.not_succ_le_zero k)
  | k + 1, a, n + 1, h, hf => by
    have h₀ := hf 0 (Nat.succ_pos k)
    rw [Nat.add_zero] at h₀
    have hrec := window_append (g := fun i => g (i + 1)) (k := k) (a := a + 1) (n := n) (Nat.le_of_succ_le_succ h)
      fun i hi => by
        rw [show a + 1 + i = a + (i + 1) by omega]
        exact hf (i + 1) (Nat.succ_lt_succ hi)
    rw [window, h₀, List.range_succ_eq_map, List.map_cons, List.map_map, Nat.succ_sub_succ,
      show a + (k + 1) = a + 1 + k by omega]
    simp only [hrec]
    rfl

theorem window_split (k : Nat) (h : (window f a k).length = k) :
    window f a (k + n) = window f a k ++ window f (a + k) n := by
  induction k generalizing a with
  | zero => rw [Nat.zero_add, Nat.add_zero]; rfl
  | succ k ih =>
    cases hf : f a with
    | none =>
      rw [window_none hf] at h
      cases h
    | some x =>
      have hw : ∀ m, window f a (m + 1) = x :: window f (a + 1) m := fun m => by rw [window, hf]
      rw [hw, List.length_cons] at h
      rw [show k + 1 + n = k + n + 1 by omega, hw, hw, ih (by omega), List.cons_append,
        show a + 1 + k = a + (k + 1) by omega]

theorem window_full (h : ∀ i < n, f (a + i) ≠ none) : (window f a n).length = n := by
  rcases Nat.lt_or_ge (window f a n).length n with hlt | hge
  · exact absurd (window_stop hlt) (h _ hlt)
  · exact Nat.le_antisymm (window_length_le n a) hge

end

end Window
