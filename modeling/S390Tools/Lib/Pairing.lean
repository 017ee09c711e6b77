import Mathlib

/-!
# Pairs of neighbours in an ascending list

Pairs of elements with `next` between them and no element in common are as many as can be
if they are taken from the front on, each as soon as its two elements are next to each other.
-/

namespace Pairing

section
variable {α : Type} (next : α → α → Prop) [DecidableRel next]

def greedy : List α → Nat
  | a :: b :: l => if next a b then greedy l + 1 else greedy (b :: l)
  | _ => 0

def Apart (p q : α × α) : Prop := p.1 ≠ q.1 ∧ p.1 ≠ q.2 ∧ p.2 ≠ q.1 ∧ p.2 ≠ q.2

structure Pairs (l : List α) (ps : List (α × α)) : Prop where
  left : ∀ p ∈ ps, p.1 ∈ l
  right : ∀ p ∈ ps, p.2 ∈ l
  next : ∀ p ∈ ps, next p.1 p.2
  apart : ps.Pairwise Apart

end

section
variable {α : Type} {next : α → α → Prop} [DecidableRel next]

theorem greedy_cons {a b : α} (l : List α) (h : next a b) : greedy next (a :: b :: l) = greedy next l + 1 := by
  rw [greedy, if_pos h]

theorem greedy_skip {a b : α} (l : List α) (h : ¬ next a b) : greedy next (a :: b :: l) = greedy next (b :: l) := by
  rw [greedy, if_neg h]

theorem greedy_short (l : List α) (h : l.length < 2) : greedy next l = 0 := by
  rcases l with _ | ⟨a, _ | ⟨b, l⟩⟩
  · rfl
  · rfl
  · rw [List.length_cons, List.length_cons] at h
    omega

end

section
variable {α : Type} {next : α → α → Prop}

theorem length_le_one {b : α} : ∀ {ps : List (α × α)}, ps.Pairwise Apart →
    (∀ p ∈ ps, p.1 = b ∨ p.2 = b) → ps.length ≤ 1
  | [], _, _ => Nat.zero_le 1
  | [_], _, _ => Nat.le_refl 1
  | p :: q :: ps, hapart, hall => by
    have hpq := (List.pairwise_cons.mp hapart).1 q List.mem_cons_self
    have hp := hall p List.mem_cons_self
    have hq := hall q (List.mem_cons_of_mem _ List.mem_cons_self)
    obtain ⟨h₁, h₂, h₃, h₄⟩ := hpq
    rcases hp with hp | hp
    · rcases hq with hq | hq
      · exact absurd (hp.trans hq.symm) h₁
      · exact absurd (hp.trans hq.symm) h₂
    · rcases hq with hq | hq
      · exact absurd (hp.trans hq.symm) h₃
      · exact absurd (hp.trans hq.symm) h₄

variable {key : α → Nat} (hnext : ∀ a b, next a b → key b = key a + 1)
include hnext

theorem Pairs.skip {a b : α} {l : List α} {ps : List (α × α)}
    (hasc : (a :: b :: l).Pairwise fun x y => key x < key y)
    (hno : ¬ next a b) (h : Pairs next (a :: b :: l) ps) : Pairs next (b :: l) ps := by
  obtain ⟨ha, hb⟩ := List.pairwise_cons.mp hasc
  have hbl := (List.pairwise_cons.mp hb).1
  have hleft : ∀ p ∈ ps, p.1 ∈ b :: l := by
    intro p hp
    rcases List.mem_cons.mp (h.left p hp) with heq | hmem
    · have hn := h.next p hp
      rw [heq] at hn
      have hkey := hnext _ _ hn
      rcases List.mem_cons.mp (h.right p hp) with heq₂ | hmem₂
      · rw [heq₂] at hkey
        omega
      · rcases List.mem_cons.mp hmem₂ with heq₂ | hmem₂
        · rw [heq₂] at hn
          exact absurd hn hno
        · have h₁ := ha b List.mem_cons_self
          have h₂ := hbl _ hmem₂
          omega
    · exact hmem
  refine ⟨hleft, fun p hp => ?_, h.next, h.apart⟩
  rcases List.mem_cons.mp (h.right p hp) with heq | hmem
  · have hkey := hnext _ _ (h.next p hp)
    rw [heq] at hkey
    have := ha _ (hleft p hp)
    omega
  · exact hmem

theorem Pairs.rest {a b : α} {l : List α} {ps : List (α × α)}
    (hasc : (a :: b :: l).Pairwise fun x y => key x < key y)
    (hab : next a b) (h : Pairs next (a :: b :: l) ps) : ∃ qs, Pairs next l qs ∧ ps.length ≤ qs.length + 1 := by
  classical
  obtain ⟨ha, hb⟩ := List.pairwise_cons.mp hasc
  have hbl := (List.pairwise_cons.mp hb).1
  have hkab := hnext a b hab
  let uses : α × α → Bool := fun p => decide (p.1 = b ∨ p.2 = b)
  refine ⟨ps.filter fun p => !uses p, ⟨?_, ?_, ?_, h.apart.filter _⟩, ?_⟩
  · intro p hp
    obtain ⟨hp, hno⟩ := List.mem_filter.mp hp
    have hno : ¬ (p.1 = b ∨ p.2 = b) := by simpa [uses] using hno
    rcases List.mem_cons.mp (h.left p hp) with heq | hmem
    · have hkey := hnext _ _ (h.next p hp)
      rw [heq] at hkey
      rcases List.mem_cons.mp (h.right p hp) with heq₂ | hmem₂
      · rw [heq₂] at hkey
        omega
      · rcases List.mem_cons.mp hmem₂ with heq₂ | hmem₂
        · exact absurd (Or.inr heq₂) hno
        · have := hbl _ hmem₂
          omega
    · rcases List.mem_cons.mp hmem with heq | hmem
      · exact absurd (Or.inl heq) hno
      · exact hmem
  · intro p hp
    obtain ⟨hp, hno⟩ := List.mem_filter.mp hp
    have hno : ¬ (p.1 = b ∨ p.2 = b) := by simpa [uses] using hno
    rcases List.mem_cons.mp (h.right p hp) with heq | hmem
    · have hkey := hnext _ _ (h.next p hp)
      rw [heq] at hkey
      rcases List.mem_cons.mp (h.left p hp) with heq₂ | hmem₂
      · rw [heq₂] at hkey
        omega
      · have := ha _ hmem₂
        omega
    · rcases List.mem_cons.mp hmem with heq | hmem
      · exact absurd (Or.inr heq) hno
      · exact hmem
  · exact fun p hp => h.next p (List.mem_filter.mp hp).1
  · have hone : (ps.filter uses).length ≤ 1 := by
      refine @length_le_one _ b _ (h.apart.filter _) fun p hp => ?_
      simpa [uses] using (List.mem_filter.mp hp).2
    have hsum := List.length_eq_length_filter_add (l := ps) uses
    omega

theorem greedy_max [DecidableRel next] : ∀ {l : List α} {ps : List (α × α)},
    (l.Pairwise fun x y => key x < key y) → Pairs next l ps →
    ps.length ≤ greedy next l
  | [], ps, _, h => by
    rcases ps with _ | ⟨p, ps⟩
    · exact Nat.zero_le _
    · exact absurd (h.left p List.mem_cons_self) List.not_mem_nil
  | [a], ps, _, h => by
    rcases ps with _ | ⟨p, ps⟩
    · exact Nat.zero_le _
    · have h₁ := List.mem_singleton.mp (h.left p List.mem_cons_self)
      have h₂ := List.mem_singleton.mp (h.right p List.mem_cons_self)
      have hkey := hnext _ _ (h.next p List.mem_cons_self)
      rw [h₁, h₂] at hkey
      omega
  | a :: b :: l, ps, hasc, h => by
    have htail := (List.pairwise_cons.mp hasc).2
    by_cases hab : next a b
    · obtain ⟨qs, hqs, hlen⟩ := h.rest hnext hasc hab
      have := greedy_max (List.pairwise_cons.mp htail).2 hqs
      rw [greedy_cons l hab]
      omega
    · rw [greedy_skip l hab]
      exact greedy_max htail (h.skip hnext hasc hab)

end

end Pairing
