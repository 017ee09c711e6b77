import Mathlib

/-!
# Lists with insertions and without repetitions

`insertBefore` puts an element in front of the one with a given number,
`keepFirst` takes out every element that repeats an earlier one that is kept.
What stands before what is said by sublists of two elements.
-/

namespace Arrange

section
variable {α ι : Type*} [DecidableEq ι]

def insertBefore (b : ι) (x : α × ι) : List (α × ι) → List (α × ι)
  | [] => []
  | y :: ys => if y.2 = b then x :: y :: ys else y :: insertBefore b x ys

theorem insertBefore_eq {b : ι} {x y : α × ι} {post : List (α × ι)} (hy : y.2 = b) : ∀ {pre : List (α × ι)},
    (∀ z ∈ pre, z.2 ≠ b) → insertBefore b x (pre ++ y :: post) = pre ++ x :: y :: post
  | [], _ => if_pos hy
  | z :: pre, h => by
    rw [List.cons_append, insertBefore, if_neg (h z (List.mem_cons_self ..)),
      insertBefore_eq hy fun w hw => h w (List.mem_cons_of_mem _ hw), List.cons_append]

end

section
variable {α : Type*} (dup : α → α → Bool)

def keepFirst : Nat → List α → List α
  | 0, l => l
  | _ + 1, [] => []
  | n + 1, x :: l => x :: keepFirst n (l.filter fun y => !dup x y)

variable {dup}

theorem keepFirst_sublist : ∀ (n : Nat) (l : List α), (keepFirst dup n l).Sublist l
  | 0, _ => List.Sublist.refl _
  | _ + 1, [] => List.Sublist.refl _
  | n + 1, _ :: _ => ((keepFirst_sublist n _).trans List.filter_sublist).cons_cons _

theorem length_filter_lt {n : Nat} {x : α} {l : List α} (h : (x :: l).length ≤ n + 1) :
    (l.filter fun y => !dup x y).length ≤ n :=
  Nat.le_trans (List.length_filter_le ..) (Nat.le_of_succ_le_succ h)

theorem keepFirst_pairwise : ∀ {n : Nat} {l : List α}, l.length ≤ n →
    (keepFirst dup n l).Pairwise fun x y => dup x y = false
  | 0, l, h => by
    rw [List.length_eq_zero_iff.mp (Nat.le_zero.mp h)]
    exact List.Pairwise.nil
  | _ + 1, [], _ => List.Pairwise.nil
  | n + 1, x :: l, h => by
    refine List.Pairwise.cons ?_ (keepFirst_pairwise (length_filter_lt h))
    intro y hy
    have hmem := (keepFirst_sublist n _).subset hy
    simpa using (List.mem_filter.mp hmem).2

theorem exists_kept (hrefl : ∀ x, dup x x = true) : ∀ {n : Nat} {l : List α} {x : α}, l.length ≤ n → x ∈ l →
    ∃ y ∈ keepFirst dup n l, dup y x = true
  | 0, l, x, h, hx => by
    rw [List.length_eq_zero_iff.mp (Nat.le_zero.mp h)] at hx
    cases hx
  | n + 1, z :: l, x, h, hx => by
    by_cases hz : dup z x = true
    · exact ⟨z, List.mem_cons_self .., hz⟩
    · have hmem : x ∈ l.filter fun y => !dup z y := by
        refine List.mem_filter.mpr ⟨?_, by simpa using hz⟩
        rcases List.mem_cons.mp hx with he | hl
        · rw [he] at hz
          exact absurd (hrefl z) hz
        · exact hl
      obtain ⟨y, hy, hd⟩ := exists_kept hrefl (length_filter_lt h) hmem
      exact ⟨y, List.mem_cons_of_mem _ hy, hd⟩

theorem mem_kept {n : Nat} {l : List α} {x : α} (hrefl : ∀ x, dup x x = true) (h : l.length ≤ n) (hx : x ∈ l)
    (hone : ∀ y ∈ l, dup y x = true → y = x) : x ∈ keepFirst dup n l := by
  obtain ⟨y, hy, hd⟩ := exists_kept hrefl h hx
  exact hone y ((keepFirst_sublist n l).subset hy) hd ▸ hy

theorem kept_before (hrefl : ∀ x, dup x x = true) {y : α} : ∀ {n : Nat} {l : List α} {x : α},
    l.length ≤ n → l.Nodup →
    (∀ z ∈ l, dup z y = true → z = y) → [x, y].Sublist l → ∃ x', dup x' x = true ∧
      [x', y].Sublist (keepFirst dup n l)
  | 0, l, x, h, _, _, hs => by
    rw [List.length_eq_zero_iff.mp (Nat.le_zero.mp h)] at hs
    cases hs
  | n + 1, z :: l, x, h, hnd, hone, hs => by
    have hnd' := List.nodup_cons.mp hnd
    have hy : y ∈ l := by
      cases hs with
      | cons _ hs => exact hs.subset (by simp)
      | cons_cons _ hs => exact hs.subset (by simp)
    have hzy : dup z y = false := by
      cases hd : dup z y with
      | false => rfl
      | true => exact absurd (hone z (List.mem_cons_self ..) hd ▸ hy) hnd'.1
    have hyf : y ∈ l.filter fun w => !dup z w := List.mem_filter.mpr ⟨hy, by simp [hzy]⟩
    have hone' : ∀ w ∈ l.filter (fun w => !dup z w), dup w y = true → w = y :=
      fun w hw => hone w (List.mem_cons_of_mem _ (List.mem_filter.mp hw).1)
    by_cases hzx : dup z x = true
    · refine ⟨z, hzx, List.Sublist.cons_cons _ ?_⟩
      exact List.singleton_sublist.mpr (mem_kept hrefl (length_filter_lt h) hyf hone')
    · have hs' : [x, y].Sublist l := by
        cases hs with
        | cons _ hs => exact hs
        | cons_cons _ hs => exact absurd (hrefl z) hzx
      have hf : [x, y].Sublist (l.filter fun w => !dup z w) := by
        have := hs'.filter fun w => !dup z w
        rwa [List.filter_cons_of_pos (by simpa using hzx), List.filter_cons_of_pos (by simp [hzy]),
          List.filter_nil] at this
      obtain ⟨x', hd, hb⟩ := kept_before hrefl (length_filter_lt h) (hnd'.2.filter _) hone' hf
      exact ⟨x', hd, hb.cons _⟩

theorem keepFirst_filter {p : α → Bool} : ∀ {n : Nat} {l : List α}, l.length ≤ n → l.Nodup →
    (∀ y ∈ l, p y = true → ∀ z ∈ l, dup z y = true → z = y) → (keepFirst dup n l).filter p = l.filter p
  | 0, _, _, _, _ => rfl
  | _ + 1, [], _, _, _ => rfl
  | n + 1, x :: l, h, hnd, hone => by
    have hnd' := List.nodup_cons.mp hnd
    have hrest := keepFirst_filter (p := p) (length_filter_lt h)
      (hnd'.2.filter fun y => !dup x y) fun y hy hp z hz =>
      hone y (List.mem_cons_of_mem _ (List.mem_filter.mp hy).1)
        hp z (List.mem_cons_of_mem _ (List.mem_filter.mp hz).1)
    have hsame : (l.filter fun y => !dup x y).filter p = l.filter p := by
      rw [List.filter_filter]
      refine List.filter_congr fun y hy => ?_
      cases hp : p y with
      | false => rfl
      | true =>
        have hxy : dup x y = false := by
          cases hd : dup x y with
          | false => rfl
          | true =>
            have he := hone y (List.mem_cons_of_mem _ hy) hp x (List.mem_cons_self ..) hd
            exact absurd (he ▸ hy) hnd'.1
        rw [hxy]
        rfl
    rw [keepFirst, List.filter_cons, List.filter_cons, hrest, hsame]

end

end Arrange
