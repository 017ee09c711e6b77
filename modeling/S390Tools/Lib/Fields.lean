import Mathlib

/-!
# Records of fixed width

A record is the concatenation of fields of given widths. A number field holds the
last digits of a number in some base, the highest first; a text field holds a
text that is cut or filled up with a padding symbol.
-/

namespace Fields

section
variable {α : Type*}

def split : List Nat → List α → List (List α)
  | [], _ => []
  | w :: ws, l => l.take w :: split ws (l.drop w)

theorem split_flatten : ∀ {fs : List (List α)} (rest : List α), split (fs.map List.length) (fs.flatten ++ rest) = fs
  | [], _ => rfl
  | f :: fs, rest => by
    rw [List.map_cons, split, List.flatten_cons, List.append_assoc, List.take_left, List.drop_left,
      split_flatten rest]

def text (pad : α) (n : Nat) (s : List α) : List α := s.take n ++ List.replicate (n - s.length) pad

theorem text_length (pad : α) (n : Nat) (s : List α) : (text pad n s).length = n := by
  rw [text, List.length_append, List.length_take, List.length_replicate]
  omega

theorem takeWhile_append_of_all {p : α → Bool} : ∀ {s : List α}, (∀ x ∈ s, p x = true) → ∀ t,
    (s ++ t).takeWhile p = s ++ t.takeWhile p
  | [], _, _ => rfl
  | x :: s, h, t => by
    rw [List.cons_append, List.takeWhile_cons_of_pos (h x (List.mem_cons_self ..)),
      takeWhile_append_of_all fun y hy => h y (List.mem_cons_of_mem _ hy), List.cons_append]

theorem takeWhile_text {pad : α} {p : α → Bool} (hpad : p pad = false) {s : List α}
    (hs : ∀ x ∈ s, p x = true) (n : Nat) :
    (text pad n s).takeWhile p = s.take n := by
  have hrep : (List.replicate (n - s.length) pad).takeWhile p = [] := by
    cases n - s.length with
    | zero => rfl
    | succ k => rw [List.replicate_succ, List.takeWhile_cons_of_neg (by simp [hpad])]
  rw [text, takeWhile_append_of_all (fun x hx => hs x (List.mem_of_mem_take hx)), hrep, List.append_nil]

end

/-! ## Digits -/

/-- The last `n` digits of `v`, the highest first; negative numbers have the digits of their complement. -/
@[grind =] def digits (b : Nat) : Nat → Int → List Nat
  | 0, _ => []
  | n + 1, v => digits b n (v / b) ++ [(v % b).toNat]

def value (b : Nat) (ds : List Nat) : Nat := ds.foldl (fun v d => b * v + d) 0

theorem digits_length (b : Nat) : ∀ (n : Nat) (v : Int), (digits b n v).length = n
  | 0, _ => rfl
  | n + 1, v => by rw [digits, List.length_append, digits_length b n]; rfl

theorem digits_lt {b : Nat} (hb : 0 < b) : ∀ (n : Nat) (v : Int), ∀ d ∈ digits b n v, d < b
  | 0, _, _, h => absurd h List.not_mem_nil
  | n + 1, v, d, h => by
    rcases List.mem_append.mp h with h | h
    · exact digits_lt hb n _ d h
    · rw [List.mem_singleton.mp h]
      have h₁ := Int.emod_lt_of_pos v (show (0 : Int) < b by omega)
      have h₂ := Int.emod_nonneg v (show (b : Int) ≠ 0 by omega)
      omega

theorem value_append (b : Nat) (ds : List Nat) (d : Nat) : value b (ds ++ [d]) = b * value b ds + d := by
  rw [value, List.foldl_append]
  rfl

theorem value_digits {b : Nat} (hb : 0 < b) : ∀ (n : Nat) (v : Int),
    (value b (digits b n v) : Int) = v % (b : Int) ^ n
  | 0, v => by
    rw [pow_zero, Int.emod_one]
    rfl
  | n + 1, v => by
    have hb' : (0 : Int) < b := by omega
    have hm : (0 : Int) < (b : Int) ^ n := pow_pos hb' n
    rw [digits, value_append, Nat.cast_add, Nat.cast_mul, value_digits hb n,
      Int.toNat_of_nonneg (Int.emod_nonneg v (by omega)), pow_succ']
    refine ((Int.ediv_emod_unique (q := v / b / (b : Int) ^ n) (mul_pos hb' hm)).mpr ⟨?_, ?_, ?_⟩).2.symm
    · have h₁ := Int.mul_ediv_add_emod (v / b) ((b : Int) ^ n)
      have h₂ := Int.mul_ediv_add_emod v b
      calc (b : Int) * (v / b % (b : Int) ^ n) + v % b + b * (b : Int) ^ n * (v / b / (b : Int) ^ n)
          = b * ((b : Int) ^ n * (v / b / (b : Int) ^ n) + v / b % (b : Int) ^ n) + v % b := by ring
        _ = v := by rw [h₁, h₂]
    · have h₁ := Int.emod_nonneg (v / b) (ne_of_gt hm)
      have h₂ := Int.emod_nonneg v (ne_of_gt hb')
      exact add_nonneg (mul_nonneg hb'.le h₁) h₂
    · have h₁ := Int.emod_lt_of_pos (v / b) hm
      have h₂ := Int.emod_lt_of_pos v hb'
      calc (b : Int) * (v / b % (b : Int) ^ n) + v % b < b * (v / b % (b : Int) ^ n) + b := by omega
        _ = b * (v / b % (b : Int) ^ n + 1) := by ring
        _ ≤ b * (b : Int) ^ n := mul_le_mul_of_nonneg_left (by omega) hb'.le

theorem digits_cons {b : Nat} (hb : 0 < b) : ∀ (n : Nat) (v : Int),
    digits b (n + 1) v = (v / (b : Int) ^ n % b).toNat :: digits b n v
  | 0, v => by rw [digits, digits, digits, pow_zero, Int.ediv_one]; rfl
  | n + 1, v => by
    rw [digits, digits_cons hb n (v / b), List.cons_append, Int.ediv_ediv_of_nonneg (by omega), ← pow_succ']
    rfl

end Fields
