import Mathlib.Data.List.Basic

/-!
# Writing into a byte buffer

A buffer is a list of fixed length. `splice` writes a piece over it, `slice`
reads a piece back.
-/

namespace Splice

def splice (d : List α) (o : Nat) (r : List α) : List α := d.take o ++ r ++ d.drop (o + r.length)

def slice (d : List α) (o n : Nat) : List α := (d.drop o).take n

section
variable {d r : List α} {o : Nat}

theorem length_splice (h : o + r.length ≤ d.length) : (splice d o r).length = d.length := by
  simp only [splice, List.length_append, List.length_take, List.length_drop]
  omega

theorem getElem?_splice (h : o ≤ d.length) (i : Nat) :
    (splice d o r)[i]? = if o ≤ i ∧ i < o + r.length then r[i - o]? else d[i]? := by
  have ho : (d.take o).length = o := by rw [List.length_take, Nat.min_eq_left h]
  rcases Nat.lt_or_ge i o with hi | hi
  · rw [splice, List.append_assoc, List.getElem?_append_left (by omega),
      List.getElem?_take_of_lt hi, if_neg (by omega)]
  · rw [splice, List.append_assoc, List.getElem?_append_right (by omega), ho]
    rcases Nat.lt_or_ge i (o + r.length) with hi' | hi'
    · rw [List.getElem?_append_left (by omega), if_pos ⟨hi, hi'⟩]
    · rw [List.getElem?_append_right (by omega), List.getElem?_drop, if_neg (by omega)]
      congr 1
      omega

theorem getElem?_slice {n i : Nat} : (slice d o n)[i]? = if i < n then d[o + i]? else none := by
  rw [slice, List.getElem?_take]
  split
  · rw [List.getElem?_drop]
  · rfl

theorem slice_splice_self (h : o ≤ d.length) : slice (splice d o r) o r.length = r := by
  apply List.ext_getElem?
  intro i
  rw [getElem?_slice]
  rcases Nat.lt_or_ge i r.length with hi | hi
  · rw [if_pos hi, getElem?_splice h, if_pos (by omega), Nat.add_sub_cancel_left]
  · rw [if_neg (by omega), List.getElem?_eq_none hi]

theorem slice_splice_apart (h : o ≤ d.length) {k n : Nat} (hk : k + n ≤ o ∨ o + r.length ≤ k) :
    slice (splice d o r) k n = slice d k n := by
  apply List.ext_getElem?
  intro i
  rw [getElem?_slice, getElem?_slice]
  rcases Nat.lt_or_ge i n with hi | hi
  · rw [if_pos hi, if_pos hi, getElem?_splice h, if_neg (by omega)]
  · rw [if_neg (by omega), if_neg (by omega)]

end

end Splice
