import Mathlib.Data.List.Basic
import Mathlib.Tactic.Ring

/-!
# Blocks written one behind the other

A memory is a function from addresses, a block a function from offsets. `write`
puts one block of `n` cells at an address, `writeAll` a list of them.
-/

namespace Blocks

variable {β : Type} (n : Nat)

def write (f : Nat → β) (a : Nat) (mem : Nat → β) : Nat → β :=
  fun x => if a ≤ x ∧ x < a + n then f (x - a) else mem x

@[grind =] def writeAll : List (Nat → β) → Nat → (Nat → β) → Nat → β
  | [], _, mem => mem
  | f :: fs, a, mem => writeAll fs (a + n) (write n f a mem)

theorem write_of_lt {f : Nat → β} {a i : Nat} (mem : Nat → β) (h : i < n) : write n f a mem (a + i) = f i := by
  rw [write, if_pos ⟨Nat.le_add_right a i, Nat.add_lt_add_left h a⟩, Nat.add_sub_cancel_left]

theorem write_outside {f : Nat → β} {a x : Nat} (mem : Nat → β) (h : x < a ∨ a + n ≤ x) :
    write n f a mem x = mem x := by
  rw [write, if_neg fun hx => ?_]
  rcases h with h | h
  · exact absurd hx.1 (Nat.not_le.mpr h)
  · exact absurd hx.2 (Nat.not_lt.mpr h)

theorem writeAll_append : ∀ (fs gs : List (Nat → β)) (a : Nat) (mem : Nat → β),
    writeAll n (fs ++ gs) a mem = writeAll n gs (a + n * fs.length) (writeAll n fs a mem)
  | [], _, _, _ => rfl
  | f :: fs, gs, a, mem => by
    rw [List.cons_append, writeAll, writeAll_append fs gs, writeAll, List.length_cons]
    congr 1
    ring

theorem writeAll_outside : ∀ {fs : List (Nat → β)} {a x : Nat} {mem : Nat → β},
    x < a ∨ a + n * fs.length ≤ x → writeAll n fs a mem x = mem x
  | [], _, _, _, _ => rfl
  | f :: fs, a, x, mem, h => by
    rw [List.length_cons, Nat.mul_succ] at h
    rw [writeAll, writeAll_outside (by omega), write_outside n mem (by omega)]

theorem writeAll_at : ∀ {fs : List (Nat → β)} {a j i : Nat} {f : Nat → β} {mem : Nat → β}, fs[j]? = some f → i < n →
    writeAll n fs a mem (a + n * j + i) = f i
  | g :: fs, a, 0, i, f, mem, hj, hi => by
    cases hj
    rw [writeAll, Nat.mul_zero, Nat.add_zero, writeAll_outside n (by omega), write_of_lt n mem hi]
  | g :: fs, a, j + 1, i, f, mem, hj, hi => by
    rw [List.getElem?_cons_succ] at hj
    rw [writeAll, ← writeAll_at hj hi]
    congr 1
    ring

end Blocks
