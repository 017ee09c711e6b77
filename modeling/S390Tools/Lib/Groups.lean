import Mathlib.Data.List.Basic

/-!
# Cutting a list into groups

An element that satisfies `cont` goes on with the next one, any other ends its
group. Cutting a text behind each newline, and joining lines that go on, are both
of this kind.
-/

namespace Groups

variable {α : Type} (cont : α → Bool)

@[grind =] def groups : List α → List (List α)
  | [] => []
  | x :: l =>
    if cont x then
      match groups l with
      | [] => [[x]]
      | g :: gs => (x :: g) :: gs
    else [x] :: groups l

def Closed (g : List α) : Prop :=
  ∃ s x, g = s ++ [x] ∧ (∀ y ∈ s, cont y = true) ∧ cont x = false

variable {cont}

theorem Closed.ne_nil {g : List α} (h : Closed cont g) : g ≠ [] := by
  obtain ⟨s, x, rfl, -, -⟩ := h
  exact List.append_ne_nil_of_right_ne_nil _ (List.cons_ne_nil _ _)

theorem groups_open_append : ∀ {s : List α} {x : α} (l : List α), (∀ y ∈ s, cont y = true) → cont x = false →
    groups cont (s ++ x :: l) = (s ++ [x]) :: groups cont l
  | [], x, l, _, hx => by
    rw [List.nil_append, groups, hx]
    rfl
  | y :: s, x, l, hs, hx => by
    have ih := groups_open_append l (fun z hz => hs z (List.mem_cons_of_mem _ hz)) hx
    rw [List.cons_append, groups, if_pos (hs y (List.mem_cons_self ..)), ih]
    rfl

theorem groups_append {g : List α} (h : Closed cont g) (l : List α) : groups cont (g ++ l) =
    g :: groups cont l := by
  obtain ⟨s, x, rfl, hs, hx⟩ := h
  rw [List.append_assoc]
  exact groups_open_append l hs hx

theorem groups_flatten_append : ∀ {gs : List (List α)} (l : List α), (∀ g ∈ gs, Closed cont g) →
    groups cont (gs.flatten ++ l) = gs ++ groups cont l
  | [], _, _ => rfl
  | g :: gs, l, h => by
    rw [List.flatten_cons, List.append_assoc, groups_append (h g (List.mem_cons_self ..)),
      groups_flatten_append l fun g' hg' => h g' (List.mem_cons_of_mem _ hg')]
    rfl

theorem groups_open : ∀ {l : List α}, (∀ y ∈ l, cont y = true) → l ≠ [] → groups cont l = [l]
  | [], _, h => absurd rfl h
  | [x], hl, _ => by
    rw [groups, if_pos (hl x (List.mem_cons_self ..))]
    rfl
  | x :: y :: l, hl, _ => by
    rw [groups, if_pos (hl x (List.mem_cons_self ..)),
      groups_open (fun z hz => hl z (List.mem_cons_of_mem _ hz)) (List.cons_ne_nil _ _)]

theorem exists_groups : ∀ l : List α, ∃ gs s, (∀ g ∈ gs, Closed cont g) ∧ (∀ y ∈ s, cont y = true) ∧
    l = gs.flatten ++ s ∧ groups cont l = gs ++ if s = [] then [] else [s]
  | [] => ⟨[], [], fun _ h => absurd h List.not_mem_nil, fun _ h => absurd h List.not_mem_nil, rfl, rfl⟩
  | x :: l => by
    obtain ⟨gs, s, hgs, hs, hl, hg⟩ := exists_groups l
    by_cases hx : cont x = true
    · cases gs with
      | nil =>
        have hall : ∀ y ∈ x :: s, cont y = true := by
          intro y hy
          rcases List.mem_cons.mp hy with rfl | hy'
          · exact hx
          · exact hs y hy'
        rw [List.flatten_nil, List.nil_append] at hl
        subst hl
        refine ⟨[], x :: l, fun _ h => absurd h List.not_mem_nil, hall, rfl, ?_⟩
        rw [groups_open hall (List.cons_ne_nil _ _), if_neg (List.cons_ne_nil _ _)]
        rfl
      | cons g gs =>
        obtain ⟨t, z, rfl, ht, hz⟩ := hgs g (List.mem_cons_self ..)
        refine ⟨(x :: t ++ [z]) :: gs, s, ?_, hs, ?_, ?_⟩
        · intro g' hg'
          rcases List.mem_cons.mp hg' with rfl | hg''
          · refine ⟨x :: t, z, rfl, fun y hy => ?_, hz⟩
            rcases List.mem_cons.mp hy with rfl | hy'
            · exact hx
            · exact ht y hy'
          · exact hgs g' (List.mem_cons_of_mem _ hg'')
        · rw [hl]
          rfl
        · rw [groups, if_pos hx, hg]
          rfl
    · refine ⟨[x] :: gs, s, ?_, hs, ?_, ?_⟩
      · intro g' hg'
        rcases List.mem_cons.mp hg' with rfl | hg''
        · exact ⟨[], x, rfl, fun _ h => absurd h List.not_mem_nil, Bool.not_eq_true _ ▸ hx⟩
        · exact hgs g' hg''
      · rw [hl]
        rfl
      · rw [groups, if_neg hx, hg]
        rfl

end Groups
