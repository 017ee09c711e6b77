import Mathlib

/-!
# Bubble sort on lists

A pass with `k` comparisons moves the largest of the first `k + 1` elements behind
the others; the passes get shorter by one. `stays x y` says that `x` may stay in front
of `y`; it agrees with a total preorder, and may say anything of equal elements.
-/

namespace BubbleSort

section
variable {α : Type*} (stays : α → α → Bool)

@[grind =] def passBy : Nat → List α → List α
  | k + 1, x :: y :: l => if stays x y then x :: passBy k (y :: l) else y :: passBy k (x :: l)
  | _, l => l

@[grind =] def passesBy : Nat → List α → List α
  | 0, l => l
  | n + 1, l => passesBy n (passBy stays (n + 1) l)

def sortBy (l : List α) : List α := passesBy stays (l.length - 1) l

theorem passBy_zero (l : List α) : passBy stays 0 l = l := by
  cases l with
  | nil => rfl
  | cons x l => cases l <;> rfl

theorem passBy_perm : ∀ (k : Nat) (l : List α), (passBy stays k l).Perm l
  | 0, l => by rw [passBy_zero]
  | k + 1, [] => List.Perm.refl _
  | k + 1, [x] => List.Perm.refl _
  | k + 1, x :: y :: l => by
    rw [passBy]
    split
    · exact (passBy_perm k (y :: l)).cons x
    · exact ((passBy_perm k (x :: l)).cons y).trans (List.Perm.swap x y l)

theorem passesBy_perm : ∀ (n : Nat) (l : List α), (passesBy stays n l).Perm l
  | 0, l => List.Perm.refl l
  | n + 1, l => (passesBy_perm n _).trans (passBy_perm stays (n + 1) l)

theorem sortBy_perm (l : List α) : (sortBy stays l).Perm l := passesBy_perm stays _ l

theorem passBy_append : ∀ {k : Nat} {l : List α}, k < l.length → ∀ t, passBy stays k (l ++ t) =
    passBy stays k l ++ t
  | 0, l, _, t => by rw [passBy_zero, passBy_zero]
  | k + 1, [x], h, _ => absurd h (by simp)
  | k + 1, x :: y :: l, h, t => by
    have hk : k < (y :: l).length := Nat.lt_of_succ_lt_succ h
    rw [List.cons_append, List.cons_append, passBy, passBy]
    split
    · rw [List.cons_append, ← passBy_append (l := y :: l) hk t, List.cons_append]
    · rw [List.cons_append, ← passBy_append (l := x :: l) hk t, List.cons_append]

theorem passesBy_append : ∀ {n : Nat} {l : List α}, n < l.length → ∀ t,
    passesBy stays n (l ++ t) = passesBy stays n l ++ t
  | 0, _, _, _ => rfl
  | n + 1, l, h, t => by
    have hlen := (passBy_perm stays (n + 1) l).length_eq
    rw [passesBy, passesBy, passBy_append stays h, passesBy_append (by omega)]

theorem passBy_map {β : Type*} {f : β → α} : ∀ (k : Nat) (l : List β),
    passBy stays k (l.map f) = (passBy (fun x y => stays (f x) (f y)) k l).map f
  | 0, l => by rw [passBy_zero, passBy_zero]
  | k + 1, [] => rfl
  | k + 1, [x] => rfl
  | k + 1, x :: y :: l => by
    rw [List.map_cons, List.map_cons, passBy, passBy]
    split
    · rw [List.map_cons, ← passBy_map k (y :: l), List.map_cons]
    · rw [List.map_cons, ← passBy_map k (x :: l), List.map_cons]

theorem passesBy_map {β : Type*} {f : β → α} : ∀ (n : Nat) (l : List β),
    passesBy stays n (l.map f) = (passesBy (fun x y => stays (f x) (f y)) n l).map f
  | 0, _ => rfl
  | n + 1, l => by rw [passesBy, passesBy, passBy_map, passesBy_map n]

/-! ## Order -/

section
variable {le : α → α → Prop} (htrans : ∀ x y z, le x y → le y z → le x z) (htotal : ∀ x y, le x y ∨ le y x)
  (hstays : ∀ x y, stays x y = true → le x y) (hmoves : ∀ x y, stays x y = false → le y x)
include htrans htotal hstays hmoves

theorem passBy_last : ∀ {k : Nat} {l : List α}, l.length = k + 1 →
    ∃ (front : List α) (m : α), passBy stays k l = front ++ [m] ∧ front.length = k ∧ ∀ z ∈ l, le z m
  | 0, [x], _ => ⟨[], x, rfl, rfl, fun z hz => by
      rw [List.mem_singleton.mp hz]
      exact (htotal x x).elim id id⟩
  | k + 1, x :: y :: l, h => by
    have hk : (y :: l).length = k + 1 := Nat.succ.inj h
    rw [passBy]
    by_cases hxy : stays x y = true
    · obtain ⟨front, m, he, hl, hm⟩ := passBy_last hk
      refine ⟨x :: front, m, by rw [if_pos hxy, he]; rfl, by rw [List.length_cons, hl], fun z hz => ?_⟩
      rcases List.mem_cons.mp hz with rfl | hz
      · exact htrans _ _ _ (hstays z y hxy) (hm y List.mem_cons_self)
      · exact hm z hz
    · obtain ⟨front, m, he, hl, hm⟩ := passBy_last (l := x :: l) hk
      have hx := hm x List.mem_cons_self
      refine ⟨y :: front, m, by rw [if_neg hxy, he]; rfl, by rw [List.length_cons, hl], fun z hz => ?_⟩
      rcases List.mem_cons.mp hz with rfl | hz
      · exact hx
      · rcases List.mem_cons.mp hz with rfl | hz
        · exact htrans _ _ _ (hmoves x z (by simpa using hxy)) hx
        · exact hm z (List.mem_cons_of_mem _ hz)

theorem passesBy_sorted : ∀ {n : Nat} {l : List α}, l.length = n + 1 → (passesBy stays n l).Pairwise le
  | 0, [x], _ => List.pairwise_singleton ..
  | n + 1, l, h => by
    obtain ⟨front, m, he, hl, hm⟩ := passBy_last stays htrans htotal hstays hmoves h
    rw [passesBy, he, passesBy_append stays (by omega), List.pairwise_append]
    refine ⟨passesBy_sorted hl, List.pairwise_singleton .., fun a ha b hb => ?_⟩
    rw [List.mem_singleton.mp hb]
    refine hm a ((passBy_perm stays (n + 1) l).mem_iff.mp ?_)
    rw [he]
    exact List.mem_append_left _ ((passesBy_perm stays n front).mem_iff.mp ha)

theorem sortBy_sorted (l : List α) : (sortBy stays l).Pairwise le := by
  cases l with
  | nil => exact List.Pairwise.nil
  | cons x l => exact passesBy_sorted stays htrans htotal hstays hmoves rfl

end

/-! ## Elements that keep their places -/

section
variable {stays}

theorem passBy_keeps {x y : α} (hxy : stays x y = true) : ∀ (k : Nat) {l : List α}, [x, y].Sublist l →
    [x, y].Sublist (passBy stays k l)
  | 0, l, h => by rwa [passBy_zero]
  | k + 1, [], h => h
  | k + 1, [_], h => h
  | k + 1, a :: b :: l, h => by
    have hmem : ∀ {c : α} {l' : List α}, y ∈ l' → y ∈ passBy stays k (c :: l') := fun hy =>
      (passBy_perm stays k _).mem_iff.mpr (List.mem_cons_of_mem _ hy)
    rw [passBy]
    by_cases hab : stays a b = true
    · rw [if_pos hab]
      cases h with
      | cons _ h => exact (passBy_keeps hxy k h).cons a
      | cons_cons _ h =>
        refine List.Sublist.cons_cons x (List.singleton_sublist.mpr ?_)
        exact (passBy_perm stays k _).mem_iff.mpr (List.singleton_sublist.mp h)
    · rw [if_neg hab]
      cases h with
      | cons _ h =>
        cases h with
        | cons _ h => exact (passBy_keeps hxy k (h.cons a)).cons b
        | cons_cons _ h =>
          exact List.Sublist.cons_cons x (List.singleton_sublist.mpr (hmem (List.singleton_sublist.mp h)))
      | cons_cons _ h =>
        rcases List.mem_cons.mp (List.singleton_sublist.mp h) with rfl | hy
        · exact absurd hxy hab
        · exact (passBy_keeps hxy k (List.Sublist.cons_cons x (List.singleton_sublist.mpr hy))).cons b

theorem passesBy_keeps {x y : α} (hxy : stays x y = true) : ∀ (n : Nat) {l : List α}, [x, y].Sublist l →
    [x, y].Sublist (passesBy stays n l)
  | 0, _, h => h
  | n + 1, _, h => passesBy_keeps hxy n (passBy_keeps hxy (n + 1) h)

end

end

/-! ## By a key -/

variable {α β : Type*} [LinearOrder β] (key : α → β)

def pass : Nat → List α → List α
  | k + 1, x :: y :: l => if key x < key y then x :: pass k (y :: l) else y :: pass k (x :: l)
  | _, l => l

/-- The passes with `n`, `n - 1`, … comparisons. -/
def passes : Nat → List α → List α
  | 0, l => l
  | n + 1, l => passes n (pass key (n + 1) l)

def sort (l : List α) : List α := passes key (l.length - 1) l

theorem pass_eq : ∀ (k : Nat) (l : List α), pass key k l = passBy (fun x y => decide (key x < key y)) k l
  | 0, [] => rfl
  | 0, [_] => rfl
  | 0, _ :: _ :: _ => rfl
  | k + 1, [] => rfl
  | k + 1, [x] => rfl
  | k + 1, x :: y :: l => by simp only [pass, passBy, pass_eq k, decide_eq_true_eq]

theorem passes_eq : ∀ (n : Nat) (l : List α), passes key n l = passesBy (fun x y => decide (key x < key y)) n l
  | 0, _ => rfl
  | n + 1, l => by rw [passes, passesBy, pass_eq, passes_eq n]

theorem sort_perm (l : List α) : (sort key l).Perm l := by
  rw [sort, passes_eq]
  exact passesBy_perm _ _ l

theorem sort_sorted (l : List α) : (sort key l).Pairwise fun a b => key a ≤ key b := by
  rw [sort, passes_eq]
  refine sortBy_sorted _ (fun x y z (hxy : key x ≤ key y) (hyz : key y ≤ key z) => hxy.trans hyz)
    (fun x y => le_total (key x) (key y)) (fun x y h => ?_) (fun x y h => ?_) l
  · exact (of_decide_eq_true h).le
  · exact not_lt.mp (of_decide_eq_false h)

end BubbleSort
