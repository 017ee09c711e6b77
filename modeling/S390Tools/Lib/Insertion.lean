import Mathlib

/-!
# Insertion by a partial order

Elements are inserted one by one in front of the first that `before` says they precede.
`lt` is the order that the result has to respect. All permutations of a list come out
right iff `before` never leads past an element that has to come first.
-/

namespace Insertion

variable {α : Type*} (lt before : α → α → Prop)

/-- Nothing stands behind an element that it has to precede. -/
def Legal (l : List α) : Prop := l.Pairwise fun a b => ¬lt b a

/-- `before` may relate more than `lt`, in both directions then. -/
structure Compatible (l : List α) : Prop where
  le : ∀ a ∈ l, ∀ b ∈ l, lt a b → before a b
  strict : ∀ a ∈ l, ∀ b ∈ l, lt a b → ¬before b a
  only : ∀ a ∈ l, ∀ b ∈ l, before a b → lt a b ∨ before b a

/-- What precedes an element also precedes what that is inserted in front of. -/
def Passes (l : List α) : Prop := ∀ a ∈ l, ∀ b ∈ l, ∀ c ∈ l, lt a b → before b c → lt a c

section
variable [DecidableRel before]

def insertAll (l : List α) : List α := l.foldl (fun result x => result.orderedInsert before x) []

variable {lt before}

theorem foldl_perm : ∀ (l r : List α), (l.foldl (fun result x => result.orderedInsert before x) r).Perm (l ++ r)
  | [], r => .refl r
  | x :: l, r =>
    calc l.foldl (fun result x => result.orderedInsert before x) (r.orderedInsert before x)
      _ |>.Perm (l ++ r.orderedInsert before x) := foldl_perm l _
      _ |>.Perm (l ++ x :: r) := (List.perm_orderedInsert before x r).append_left l
      _ |>.Perm (x :: l ++ r) := List.perm_middle

theorem foldl_sublist : ∀ (l r : List α), r.Sublist (l.foldl (fun result x => result.orderedInsert before x) r)
  | [], r => .refl r
  | x :: l, r => (List.sublist_orderedInsert x r).trans (foldl_sublist l _)

theorem insertAll_perm (l : List α) : (insertAll before l).Perm l := by
  have h : (insertAll before l).Perm (l ++ []) := foldl_perm l []
  rwa [List.append_nil] at h

/-! ## Enough -/

theorem insert_legal {x : α} {l r : List α} (hl : Compatible lt before l) (hpass : Passes lt before l)
    (hx : x ∈ l) (hr : ∀ y ∈ r, y ∈ l) (h : Legal lt r) : Legal lt (r.orderedInsert before x) := by
  induction r with
  | nil => exact List.pairwise_singleton _ _
  | cons y r ih =>
    have hy := hr y List.mem_cons_self
    obtain ⟨hfirst, hrest⟩ := List.pairwise_cons.mp h
    rw [List.orderedInsert_cons]
    by_cases hxy : before x y
    · rw [if_pos hxy]
      refine List.pairwise_cons.mpr ⟨fun z hz hzx => ?_, h⟩
      rcases List.mem_cons.mp hz with rfl | hz'
      · exact hl.strict z hy x hx hzx hxy
      · -- what has to precede `x` has to precede `y` too, and stands behind it
        exact hfirst z hz' (hpass z (hr z hz) x hx y hy hzx hxy)
    · rw [if_neg hxy]
      refine List.pairwise_cons.mpr ⟨fun z hz => ?_, ih (fun z hz => hr z (List.mem_cons_of_mem y hz)) hrest⟩
      rcases (List.mem_orderedInsert before).mp hz with rfl | hz
      · exact fun hzy => hxy (hl.le z hx y hy hzy)
      · exact hfirst z hz

theorem foldl_legal {l : List α} (hl : Compatible lt before l) (hpass : Passes lt before l) : ∀ {k r : List α},
    (∀ y ∈ k, y ∈ l) → (∀ y ∈ r, y ∈ l) → Legal lt r →
      Legal lt (k.foldl (fun result x => result.orderedInsert before x) r)
  | [], r, _, _, h => h
  | x :: k, r, hk, hr, h => by
    have hx := hk x List.mem_cons_self
    refine foldl_legal hl hpass (k := k) (r := r.orderedInsert before x)
      (fun y hy => hk y (List.mem_cons_of_mem x hy)) (fun y hy => ?_)
      (insert_legal hl hpass hx hr h)
    rcases (List.mem_orderedInsert before).mp hy with rfl | hy
    · exact hx
    · exact hr y hy

/-! ## Required -/

theorem perm_cons_of_mem {x : α} {l : List α} (h : x ∈ l) : ∃ k, l.Perm (x :: k) := by
  obtain ⟨s, t, rfl⟩ := List.append_of_mem h
  exact ⟨s ++ t, List.perm_middle⟩

theorem foldl_three {x y z : α} {l : List α} (hfirst : [x].orderedInsert before y = [x, y] ∨
    [y].orderedInsert before x = [x, y])
    (hzx : before z x) (h : ∀ k : List α, k.Perm (x :: y :: z :: l) → Legal lt (insertAll before k)) : ¬lt y z := by
  have hsub : ∀ k, k.foldl (fun result x => result.orderedInsert before x) [] = [x, y] →
      (insertAll before (k ++ z :: l)).Pairwise (fun a b => ¬lt b a) → ¬lt y z := fun k hk hlegal => by
    have hins : [x, y].orderedInsert before z = [z, x, y] := if_pos hzx
    rw [insertAll, List.foldl_append, hk, List.foldl_cons, hins] at hlegal
    have hle := hlegal.sublist (foldl_sublist l [z, x, y])
    exact (List.pairwise_cons.mp hle).1 y (by simp)
  rcases hfirst with hfirst | hfirst
  · exact hsub [x, y] hfirst (h _ (.refl _))
  · exact hsub [y, x] hfirst (h _ (.swap x y _))

theorem passes_of_legal {l : List α} (hl : Compatible lt before l) (hirr : ∀ a ∈ l, ¬lt a a)
    (h : ∀ k : List α, k.Perm l → Legal lt (insertAll before k)) : Passes lt before l := by
  intro a ha b hb c hc hab hbc
  by_contra hac
  have hba := hl.strict a ha b hb hab
  have hne₁ : b ≠ a := fun e => hirr a ha (e ▸ hab)
  have hne₂ : c ≠ a := fun e => hba (e ▸ hbc)
  have hne₃ : b ≠ c := fun e => hac (e ▸ hab)
  -- both can be made to stand in the wrong order before `b` comes
  have hfirst : [c].orderedInsert before a = [c, a] ∨ [a].orderedInsert before c = [c, a] := by
    by_cases hb' : before a c
    · exact .inr (if_pos ((hl.only a ha c hc hb').resolve_left hac))
    · exact .inl (if_neg hb')
  obtain ⟨l₁, h₁⟩ := perm_cons_of_mem hc
  obtain ⟨l₂, h₂⟩ := perm_cons_of_mem ((List.mem_cons.mp (h₁.mem_iff.mp ha)).resolve_left hne₂.symm)
  have hb' : b ∈ c :: a :: l₂ := (h₁.trans (h₂.cons c)).mem_iff.mp hb
  obtain ⟨l₃, h₃⟩ :=
    perm_cons_of_mem ((List.mem_cons.mp ((List.mem_cons.mp hb').resolve_left hne₃)).resolve_left hne₁)
  have hall : (c :: a :: b :: l₃).Perm l := (h₁.trans ((h₂.trans (h₃.cons a)).cons c)).symm
  exact foldl_three hfirst hbc (fun k hk => h k (hk.trans hall)) hab

theorem legal_iff_passes {l : List α} (hl : Compatible lt before l) (hirr : ∀ a ∈ l, ¬lt a a) :
    (∀ k : List α, k.Perm l → Legal lt (insertAll before k)) ↔ Passes lt before l := by
  refine ⟨passes_of_legal hl hirr, fun hpass k hk => ?_⟩
  exact foldl_legal hl hpass (fun y hy => hk.mem_iff.mp hy) (fun y hy => by cases hy) List.Pairwise.nil

end

end Insertion
