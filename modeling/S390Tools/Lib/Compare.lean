import Mathlib

/-!
# Elements ordered by a comparison

`cmp a b` is negative, zero or positive. `Orders` says on which elements it is an order.
-/

namespace Compare

section
variable {α : Type} (cmp : α → α → Int) (S : α → Prop)

/-- Zero for equal elements only, and positive one way is negative the other way. -/
structure Faithful : Prop where
  zero : ∀ a b, cmp a b = 0 ↔ a = b
  flip : ∀ a b, 0 < cmp a b → cmp b a < 0

structure Orders : Prop where
  flip : ∀ a b, S a → S b → cmp b a < 0 → 0 < cmp a b
  trans : ∀ a b c, S a → S b → S c → cmp a b < 0 → cmp b c < 0 → cmp a c < 0

theorem orders_or (h : Faithful cmp) : Orders cmp S ∨
    (∃ a b, S a ∧ S b ∧ cmp a b < 0 ∧ cmp b a < 0) ∨
      ∃ a b c, S a ∧ S b ∧ S c ∧ 0 < cmp b a ∧ cmp b c < 0 ∧ cmp c a < 0 := by
  by_cases htwo : ∃ a b, S a ∧ S b ∧ cmp a b < 0 ∧ cmp b a < 0
  · exact Or.inr (Or.inl htwo)
  · have hflip : ∀ a b, S a → S b → cmp b a < 0 → 0 < cmp a b := by
      intro a b ha hb hba
      rcases lt_trichotomy (cmp a b) 0 with hlt | heq | hgt
      · exact absurd ⟨a, b, ha, hb, hlt, hba⟩ htwo
      · rw [(h.zero a b).mp heq, (h.zero b b).mpr rfl] at hba
        omega
      · exact hgt
    by_cases hthree : ∃ a b c, S a ∧ S b ∧ S c ∧ 0 < cmp b a ∧ cmp b c < 0 ∧ cmp c a < 0
    · exact Or.inr (Or.inr hthree)
    · refine Or.inl ⟨hflip, fun a b c ha hb hc hab hbc => ?_⟩
      rcases lt_trichotomy (cmp a c) 0 with hlt | heq | hgt
      · exact hlt
      · rw [(h.zero a c).mp heq] at hab
        exact absurd ⟨c, b, hc, hb, hab, hbc⟩ htwo
      · exact absurd ⟨a, b, c, ha, hb, hc, hflip b a hb ha hab, hbc, h.flip a c hgt⟩ hthree

end

/-- No more than `n` elements. -/
def AtMost {α : Type} (n : Nat) (S : α → Prop) : Prop := ∀ l : List α, l.Nodup → (∀ x ∈ l, S x) → l.length ≤ n

section
variable {α : Type} [DecidableEq α]

@[grind =] def grow (l : List α) : List α → List α
  | [] => l
  | x :: xs => grow (if x ∈ l then l else l ++ [x]) xs

def firsts (xs : List α) : List α := grow [] xs

theorem grow_prefix : ∀ (xs l : List α), ∃ t, grow l xs = l ++ t
  | [], l => ⟨[], (List.append_nil l).symm⟩
  | x :: xs, l => by
    obtain ⟨t, ht⟩ := grow_prefix xs (if x ∈ l then l else l ++ [x])
    rw [grow, ht]
    by_cases hx : x ∈ l
    · rw [if_pos hx]
      exact ⟨t, rfl⟩
    · rw [if_neg hx, List.append_assoc]
      exact ⟨_, rfl⟩

theorem idxOf_grow {l : List α} {x : α} (hx : x ∈ l) (xs : List α) : (grow l xs).idxOf x = l.idxOf x := by
  obtain ⟨t, ht⟩ := grow_prefix xs l
  rw [ht, List.idxOf_append_of_mem hx]

theorem grow_nodup : ∀ (xs : List α) {l : List α}, l.Nodup → (grow l xs).Nodup
  | [], _, h => h
  | x :: xs, l, h => by
    rw [grow]
    refine grow_nodup xs ?_
    by_cases hx : x ∈ l
    · rw [if_pos hx]
      exact h
    · rw [if_neg hx]
      exact List.nodup_append.mpr ⟨h, List.nodup_singleton x, fun a ha b hb heq => hx (by
        rw [List.mem_singleton] at hb
        rw [← hb, ← heq]
        exact ha)⟩

theorem mem_grow : ∀ {xs l : List α} {x : α}, x ∈ grow l xs ↔ x ∈ l ∨ x ∈ xs
  | [], l, x => by simp [grow]
  | y :: xs, l, x => by
    rw [grow, mem_grow, List.mem_cons]
    by_cases hy : y ∈ l
    · rw [if_pos hy]
      constructor
      · rintro (h | h)
        · exact Or.inl h
        · exact Or.inr (Or.inr h)
      · rintro (h | rfl | h)
        · exact Or.inl h
        · exact Or.inl hy
        · exact Or.inr h
    · rw [if_neg hy, List.mem_append, List.mem_singleton, or_assoc]

theorem grow_new : ∀ {xs l : List α}, xs.Nodup → (∀ x ∈ xs, x ∉ l) → grow l xs = l ++ xs
  | [], l, _, _ => (List.append_nil l).symm
  | x :: xs, l, h, hl => by
    obtain ⟨hx, hxs⟩ := List.nodup_cons.mp h
    rw [grow, if_neg (hl x List.mem_cons_self), grow_new hxs, List.append_assoc]
    · rfl
    · intro y hy hmem
      rcases List.mem_append.mp hmem with hm | hm
      · exact hl y (List.mem_cons_of_mem _ hy) hm
      · rw [List.mem_singleton.mp hm] at hy
        exact hx hy

end

end Compare
