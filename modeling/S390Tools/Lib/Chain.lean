import Mathlib

/-!
# Singly linked lists

`Seg next a l b`: following `next` from `a` runs through the elements `l` and ends
at `b`. A list ends at `none`.
-/

namespace Chain

variable {α : Type*}

def Seg (next : α → Option α) : Option α → List α → Option α → Prop
  | a, [], b => a = b
  | a, x :: l, b => a = some x ∧ Seg next (next x) l b

section
variable {next next' : α → Option α} {a b c : Option α} {l k : List α}

theorem Seg.congr (h : Seg next a l b) (heq : ∀ x ∈ l, next' x = next x) : Seg next' a l b := by
  induction l generalizing a with
  | nil => exact h
  | cons x l ih =>
    refine ⟨h.1, ?_⟩
    rw [heq x (List.mem_cons_self ..)]
    exact ih h.2 fun y hy => heq y (List.mem_cons_of_mem _ hy)

theorem Seg.append (h : Seg next a l b) (h' : Seg next b k c) : Seg next a (l ++ k) c := by
  induction l generalizing a with
  | nil =>
    cases h
    exact h'
  | cons x l ih => exact ⟨h.1, ih h.2⟩

theorem Seg.split (h : Seg next a (l ++ k) c) : ∃ b, Seg next a l b ∧ Seg next b k c := by
  induction l generalizing a with
  | nil => exact ⟨a, rfl, h⟩
  | cons x l ih =>
    obtain ⟨b, h₁, h₂⟩ := ih h.2
    exact ⟨b, ⟨h.1, h₁⟩, h₂⟩

theorem Seg.head (h : Seg next a l none) : a = l.head? := by
  cases l with
  | nil => exact h
  | cons x l => exact h.1

theorem Seg.unique (h : Seg next a l none) (h' : Seg next a k none) : l = k := by
  induction l generalizing a k with
  | nil =>
    cases h
    cases k with
    | nil => rfl
    | cons y k => cases h'.1
  | cons x l ih =>
    obtain ⟨rfl, h⟩ := h
    cases k with
    | nil => cases h'
    | cons y k =>
      obtain ⟨hy, h'⟩ := h'
      cases hy
      rw [ih h h']

theorem Seg.relink [DecidableEq α] {x : α} (h : Seg next a (l ++ [x]) b) (hx : x ∉ l) (c : Option α) :
    Seg (Function.update next x c) a (l ++ [x]) c := by
  obtain ⟨m, h₁, h₂⟩ := h.split
  refine (h₁.congr fun y hy => ?_).append ⟨h₂.1, ?_⟩
  · refine Function.update_of_ne ?_ ..
    intro heq
    subst heq
    exact hx hy
  · exact Function.update_self ..

end

end Chain
