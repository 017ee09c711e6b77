import Mathlib

/-!
# Walks along a partial function

`walk next n a` follows `next` for `n` steps. A walk that stays in a finite set
comes to an end exactly if it never comes back to an element.
-/

namespace Walk

variable {α : Type*}

@[grind =] def walk (next : α → Option α) : Nat → Option α → Option α
  | 0, a => a
  | n + 1, a => walk next n (a.bind next)

/-- The walk from `a` comes to `x`. -/
def Reaches (next : α → Option α) (a : Option α) (x : α) : Prop := ∃ n, walk next n a = some x

/-- The walk from `a` comes to an element twice. -/
def Cyclic (next : α → Option α) (a : Option α) : Prop := ∃ x, Reaches next a x ∧ Reaches next (next x) x

section
variable {next : α → Option α}

theorem walk_none : ∀ n, walk next n none = none
  | 0 => rfl
  | n + 1 => walk_none n

theorem walk_add (m : Nat) : ∀ (n : Nat) (a : Option α), walk next (n + m) a = walk next m (walk next n a)
  | 0, a => by rw [Nat.zero_add, walk]
  | n + 1, a => by rw [Nat.succ_add, walk, walk, walk_add m n]

theorem walk_succ (n : Nat) (a : Option α) : walk next (n + 1) a = (walk next n a).bind next := by
  rw [walk_add 1 n, walk, walk]

theorem Reaches.head (x : α) : Reaches next (some x) x := ⟨0, rfl⟩

theorem walk_ended {a : Option α} {m n : Nat} (h : walk next m a = none) (hle : m ≤ n) : walk next n a = none := by
  obtain ⟨k, rfl⟩ := Nat.exists_eq_add_of_le hle
  rw [walk_add, h, walk_none]

theorem walk_cycle {x : α} (h : Reaches next (next x) x) (n : Nat) : walk next n (some x) ≠ none := by
  obtain ⟨k, hk⟩ := h
  have hround : ∀ i, walk next (i * (k + 1)) (some x) = some x := by
    intro i
    induction i with
    | zero => rw [Nat.zero_mul, walk]
    | succ i ih => rw [Nat.succ_mul, walk_add, ih, walk, Option.bind_some, hk]
  intro hnone
  have hlast := walk_ended hnone (Nat.le_mul_of_pos_right n (Nat.succ_pos k))
  rw [hround] at hlast
  exact nomatch hlast

theorem ends_iff {a : Option α} (s : Finset α) (hs : ∀ x, Reaches next a x → x ∈ s) :
    (∃ n, walk next n a = none) ↔ ¬Cyclic next a := by
  constructor
  · rintro ⟨n, hn⟩ ⟨x, ⟨m, hm⟩, hx⟩
    apply walk_cycle hx n
    rw [← hm, ← walk_add]
    exact walk_ended hn (Nat.le_add_left n m)
  · intro hcyclic
    by_contra hgoes
    have hsome : ∀ n, ∃ x, walk next n a = some x := fun n =>
      Option.ne_none_iff_exists'.mp fun h => hgoes ⟨n, h⟩
    choose f hf using hsome
    have hmaps : Set.MapsTo f Set.univ (s : Set α) := fun n _ => hs _ ⟨n, hf n⟩
    obtain ⟨i, -, j, -, hne, heq⟩ := Set.infinite_univ.exists_ne_map_eq_of_mapsTo hmaps s.finite_toSet
    have hback : ∀ i j, i < j → f i = f j → False := by
      intro i j hlt heq
      obtain ⟨k, rfl⟩ := Nat.exists_eq_add_of_lt hlt
      refine hcyclic ⟨f i, ⟨i, hf i⟩, k, ?_⟩
      have hlast := hf (i + k + 1)
      rw [Nat.add_assoc, walk_add, hf i, walk, Option.bind_some] at hlast
      rw [hlast, heq, Nat.add_assoc]
    rcases Nat.lt_or_gt_of_ne hne with hlt | hlt
    · exact hback i j hlt heq
    · exact hback j i hlt heq.symm

end

end Walk
