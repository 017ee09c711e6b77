import Mathlib

/-!
# Compaction of a list in place

One pass over a list merges each element into the last one kept or keeps it as
well. `inPlace` runs over an array and overwrites its front; `pass` is the same on
lists. Whatever relation the merges keep holds of all elements that remain.
-/

namespace Compact

variable {α β : Type*}

/-- The list `p :: qs` where `p` takes in the elements that can be merged with it. -/
@[grind =] def pass (can : α → α → Bool) (merge : α → α → α) (p : α) : List α → List α
  | [] => [p]
  | q :: qs => if can p q then pass can merge (merge p q) qs else p :: pass can merge q qs

/-- The pass over `n` more elements from index `i` on; `last` is the index of the last element kept.
The result is the array with the new number of elements. -/
@[grind =] def inPlace (can : α → α → Bool) (merge : α → α → α) : Nat → Nat → Nat → (Nat → α) → (Nat → α) × Nat
  | 0, _, last, l => (l, last + 1)
  | n + 1, i, last, l =>
    if can (l last) (l i) then inPlace can merge n (i + 1) last (Function.update l last (merge (l last) (l i)))
    else inPlace can merge n (i + 1) (last + 1) (Function.update l (last + 1) (l i))

def front (l : Nat → α) (n : Nat) : List α := (List.range n).map l

theorem front_succ (l : Nat → α) (n : Nat) : front l (n + 1) = front l n ++ [l n] := by
  simp [front, List.range_succ]

theorem front_congr {l l' : Nat → α} {n : Nat} (h : ∀ i < n, l i = l' i) : front l n = front l' n :=
  List.map_congr_left fun i hi => h i (List.mem_range.mp hi)

section
variable {can : α → α → Bool} {merge : α → α → α}

theorem inPlace_count : ∀ (n i last : Nat) (l : Nat → α), (inPlace can merge n i last l).2 ≤ last + 1 + n
  | 0, _, _, _ => le_refl _
  | n + 1, i, last, l => by
    rw [inPlace]
    split
    · exact le_trans (inPlace_count n _ _ _) (by omega)
    · exact le_trans (inPlace_count n _ _ _) (by omega)

theorem inPlace_front : ∀ (n i last : Nat) (l : Nat → α), last < i →
    front (inPlace can merge n i last l).1 (inPlace can merge n i last l).2 =
      front l last ++ pass can merge (l last) ((List.range n).map fun k => l (i + k))
  | 0, i, last, l, _ => by
    simp only [inPlace, List.range_zero, List.map_nil, pass]
    exact front_succ l last
  | n + 1, i, last, l, h => by
    have hrange : (List.range (n + 1)).map (fun k => l (i + k)) = l i :: (List.range n).map fun k =>
      l (i + 1 + k) := by
      rw [List.range_succ_eq_map, List.map_cons, List.map_map]
      congr 1
      exact List.map_congr_left fun k _ => by simp only [Function.comp_apply]; congr 1; omega
    rw [hrange, inPlace, pass]
    by_cases hc : can (l last) (l i)
    · rw [if_pos hc, if_pos hc, inPlace_front n (i + 1) last _ (by omega), Function.update_self]
      congr 1
      · exact front_congr fun k hk => Function.update_of_ne (by omega) ..
      · congr 1
        exact List.map_congr_left fun k _ => Function.update_of_ne (by omega) ..
    · rw [if_neg hc, if_neg hc, inPlace_front n (i + 1) (last + 1) _ (by omega), Function.update_self, front_succ,
        Function.update_of_ne (by omega), List.append_assoc, List.singleton_append]
      congr 1
      · exact front_congr fun k hk => Function.update_of_ne (by omega) ..
      · congr 2
        exact List.map_congr_left fun k _ => Function.update_of_ne (by omega) ..

theorem pass_runs {R : α → List β → Prop} {S : α → β → Prop} (hone : ∀ q b, S q b → R q [b])
    (hmerge : ∀ p q xs b, R p xs → S q b → can p q = true → R (merge p q) (xs ++ [b])) :
    ∀ {qs : List α} {bs : List β} {p : α} {xs : List β}, R p xs → List.Forall₂ S qs bs →
      ∃ xss, List.Forall₂ R (pass can merge p qs) xss ∧ xss.flatten = xs ++ bs
  | [], _, p, xs, hp, h => by
    cases h
    exact ⟨[xs], .cons hp .nil, by simp⟩
  | q :: qs, _, p, xs, hp, h => by
    cases h with
    | cons hq h =>
      rw [pass]
      split
      · rename_i hc
        obtain ⟨xss, hR, hflat⟩ := pass_runs hone hmerge (hmerge p q xs _ hp hq hc) h
        exact ⟨xss, hR, by simpa using hflat⟩
      · obtain ⟨xss, hR, hflat⟩ := pass_runs hone hmerge (hone q _ hq) h
        exact ⟨xs :: xss, .cons hp hR, by rw [List.flatten_cons, hflat]; simp⟩

end

end Compact
