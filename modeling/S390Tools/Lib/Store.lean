import Mathlib

/-!
# Bytes in memory

A memory with a record of the bytes that were written, and strings in it that end at a
null byte.
-/

namespace Bytes

structure Store where
  mem : Nat → UInt8
  wrote : Nat → Bool

def fresh (mem : Nat → UInt8) : Store := { mem, wrote := fun _ => false }

def set (s : Store) (a : Nat) (v : UInt8) : Store :=
  { mem := fun b => if b = a then v else s.mem b, wrote := fun b => b = a || s.wrote b }

@[grind =] def memcpy (s : Store) (dst src : Nat) : Nat → Store
  | 0 => s
  | n + 1 =>
    let s := memcpy s dst src n
    set s (dst + n) (s.mem (src + n))

/-- A string without null bytes, and the null byte behind it. -/
def CStr (m : Nat → UInt8) (a : Nat) (s : List UInt8) : Prop := 0 ∉ s ∧ ∀ i ≤ s.length, m (a + i) = s.getD i 0

section
variable {s : Store} {a b v n dst src i : Nat}

theorem set_same {v : UInt8} : (set s a v).mem a = v := if_pos rfl

theorem set_other {v : UInt8} (h : b ≠ a) : (set s a v).mem b = s.mem b := if_neg h

theorem set_wrote_same {v : UInt8} : (set s a v).wrote a = true := by
  exact Bool.or_eq_true_iff.mpr (Or.inl (decide_eq_true rfl))

theorem set_wrote {v : UInt8} (h : (set s a v).wrote b = true) : b = a ∨ s.wrote b = true := by
  rcases Bool.or_eq_true_iff.mp h with h | h
  · exact Or.inl (of_decide_eq_true h)
  · exact Or.inr h

theorem memcpy_out (h : b < dst ∨ dst + n ≤ b) : (memcpy s dst src n).mem b = s.mem b := by
  induction n with
  | zero => rfl
  | succ n ih =>
    rw [memcpy, set_other (by omega), ih (by omega)]

theorem memcpy_smear : ∀ {n i : Nat}, i < n → (memcpy s dst src n).mem (dst + i) = s.mem (src + i % (dst - src))
  | n + 1, i, h => by
    rw [memcpy]
    by_cases hi : i = n
    · rw [hi, set_same]
      by_cases hover : src < dst ∧ dst ≤ src + n
      · have hread : src + n = dst + (n - (dst - src)) := by omega
        rw [hread, memcpy_smear (by omega), ← Nat.mod_eq_sub_mod (by omega)]
      · rw [memcpy_out (by omega)]
        by_cases hsrc : dst ≤ src
        · rw [Nat.sub_eq_zero_of_le hsrc, Nat.mod_zero]
        · rw [Nat.mod_eq_of_lt (by omega)]
    · rw [set_other (by omega), memcpy_smear (by omega)]

theorem memcpy_in (h : i < n) (hapart : dst ≤ src ∨ src + n ≤ dst) :
    (memcpy s dst src n).mem (dst + i) = s.mem (src + i) := by
  rw [memcpy_smear h]
  by_cases hsrc : dst ≤ src
  · rw [Nat.sub_eq_zero_of_le hsrc, Nat.mod_zero]
  · rw [Nat.mod_eq_of_lt (by omega)]

theorem memcpy_wrote (h : (memcpy s dst src n).wrote b = true) : (dst ≤ b ∧ b < dst + n) ∨ s.wrote b = true := by
  induction n with
  | zero => exact Or.inr h
  | succ n ih =>
    rcases set_wrote h with rfl | h
    · exact Or.inl ⟨Nat.le_add_right _ _, by omega⟩
    · rcases ih h with h | h
      · exact Or.inl ⟨h.1, by omega⟩
      · exact Or.inr h

end

section
variable {m m' : Nat → UInt8} {a : Nat} {s t : List UInt8}

theorem CStr.nil_iff (h : CStr m a s) : m a = 0 ↔ s = [] := by
  have h0 := h.2 0 (Nat.zero_le _)
  rw [Nat.add_zero] at h0
  cases s with
  | nil => exact iff_of_true h0 rfl
  | cons c s =>
    refine iff_of_false (fun hz => h.1 ?_) (List.cons_ne_nil c s)
    rw [h0] at hz
    rw [← hz]
    exact List.mem_cons_self

theorem getD_ne_zero {i : Nat} (h : 0 ∉ s) (hi : i < s.length) : s.getD i 0 ≠ 0 := by
  rw [List.getD_eq_getElem s 0 hi]
  exact fun heq => h (heq ▸ List.getElem_mem hi)

theorem getD_end {i : Nat} (hi : s.length ≤ i) : s.getD i 0 = 0 := List.getD_eq_default s 0 hi

theorem CStr.length_le (h : CStr m a s) (h' : CStr m a t) : s.length ≤ t.length := by
  by_contra hlt
  refine getD_ne_zero h.1 (Nat.not_le.mp hlt) ?_
  rw [← h.2 _ (by omega), h'.2 _ (Nat.le_refl _), getD_end (Nat.le_refl _)]

theorem CStr.unique (h : CStr m a s) (h' : CStr m a t) : s = t := by
  refine List.ext_getElem (Nat.le_antisymm (h.length_le h') (h'.length_le h)) fun i hi hi' => ?_
  rw [← List.getD_eq_getElem s 0 hi, ← List.getD_eq_getElem t 0 hi', ← h.2 i hi.le, ← h'.2 i hi'.le]

end

/-! ## Counting loops -/

def count_while (p : Nat → Bool) : Nat → Nat → Nat
  | 0, i => i
  | n + 1, i => if p i then count_while p n (i + 1) else i

theorem count_while_eq {p : Nat → Bool} {k : Nat} (hstop : p k = false) : ∀ {n i : Nat}, i ≤ k → k - i ≤ n →
    (∀ j, i ≤ j → j < k → p j = true) → count_while p n i = k
  | 0, i, hi, hn, _ => by
    rw [count_while]
    omega
  | n + 1, i, hi, hn, hp => by
    rw [count_while]
    by_cases hik : i = k
    · rw [hik, hstop, if_neg Bool.false_ne_true]
    · rw [hp i (Nat.le_refl i) (by omega), if_pos rfl]
      exact count_while_eq hstop (by omega) (by omega) fun j hj hjk => hp j (by omega) hjk

end Bytes
