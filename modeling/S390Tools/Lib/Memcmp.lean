import S390Tools.Lib.Stdio

/-!
# Comparing memory

`memcmp` compares byte by byte, which for areas of one length is the order of the
numbers that they are with the highest byte first.
-/

namespace Memcmp

open Stdio

def memcmp : List UInt8 → List UInt8 → Int
  | a :: as, b :: bs => if a < b then -1 else if b < a then 1 else memcmp as bs
  | _, _ => 0

theorem unbe_cons (a : UInt8) (as : List UInt8) : unbe (a :: as) = a.toNat * 256 ^ as.length + unbe as := by
  induction as using List.reverseRecOn with
  | nil => simp [unbe, Fields.value]
  | append_singleton as b ih =>
    have hsnoc : ∀ l : List UInt8, unbe (l ++ [b]) = 256 * unbe l + b.toNat := fun l => by
      rw [unbe, List.map_append, List.map_singleton, Fields.value_append]
      rfl
    rw [← List.cons_append, hsnoc, hsnoc, ih, List.length_append, List.length_singleton, Nat.pow_succ]
    ring

theorem unbe_lt (as : List UInt8) : unbe as < 256 ^ as.length := by
  induction as with
  | nil => decide
  | cons a as ih =>
    have ha := a.toNat_lt
    rw [unbe_cons, List.length_cons, Nat.pow_succ]
    nlinarith

theorem unbe_lt_of_lt {a b : UInt8} {as bs : List UInt8} (h : as.length = bs.length) (hab : a < b) :
    unbe (a :: as) < unbe (b :: bs) := by
  have has := unbe_lt as
  have hab : a.toNat + 1 ≤ b.toNat := UInt8.lt_iff_toNat_lt.mp hab
  rw [unbe_cons, unbe_cons, h] at *
  nlinarith

theorem memcmp_cases : ∀ {as bs : List UInt8}, as.length = bs.length →
    (memcmp as bs = -1 ∧ unbe as < unbe bs) ∨ (memcmp as bs = 1 ∧ unbe bs < unbe as) ∨ (memcmp as bs = 0 ∧ as = bs)
  | [], [], _ => .inr (.inr ⟨rfl, rfl⟩)
  | a :: as, b :: bs, h => by
    have htail : as.length = bs.length := Nat.succ.inj h
    rw [memcmp]
    by_cases hab : a < b
    · rw [if_pos hab]
      exact .inl ⟨rfl, unbe_lt_of_lt htail hab⟩
    rw [if_neg hab]
    by_cases hba : b < a
    · rw [if_pos hba]
      exact .inr (.inl ⟨rfl, unbe_lt_of_lt htail.symm hba⟩)
    rw [if_neg hba]
    have heq : a = b := UInt8.toNat_inj.mp (by rw [UInt8.lt_iff_toNat_lt] at hab hba; omega)
    subst heq
    rw [unbe_cons, unbe_cons, htail]
    rcases memcmp_cases htail with ⟨hc, hlt⟩ | ⟨hc, hlt⟩ | ⟨hc, rfl⟩
    · exact .inl ⟨hc, by omega⟩
    · exact .inr (.inl ⟨hc, by omega⟩)
    · exact .inr (.inr ⟨hc, rfl⟩)

section
variable {as bs : List UInt8}

theorem memcmp_lt (h : as.length = bs.length) : memcmp as bs < 0 ↔ unbe as < unbe bs := by
  rcases memcmp_cases h with ⟨hc, hlt⟩ | ⟨hc, hlt⟩ | ⟨hc, rfl⟩ <;> omega

theorem memcmp_gt (h : as.length = bs.length) : 0 < memcmp as bs ↔ unbe bs < unbe as := by
  rcases memcmp_cases h with ⟨hc, hlt⟩ | ⟨hc, hlt⟩ | ⟨hc, rfl⟩ <;> omega

theorem memcmp_eq (h : as.length = bs.length) : memcmp as bs = 0 ↔ as = bs := by
  rcases memcmp_cases h with ⟨hc, hlt⟩ | ⟨hc, hlt⟩ | ⟨hc, rfl⟩
  · exact ⟨fun h0 => by omega, fun h0 => by rw [h0] at hlt; omega⟩
  · exact ⟨fun h0 => by omega, fun h0 => by rw [h0] at hlt; omega⟩
  · exact ⟨fun _ => rfl, fun _ => hc⟩

end

end Memcmp
