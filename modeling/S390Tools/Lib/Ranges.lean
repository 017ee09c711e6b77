import Mathlib

/-!
# Sets of points as lists of half-open ranges

A range `(a, b)` holds the points `a ≤ t < b`. `Canonical` lists are ascending,
their ranges are non-empty and no two of them touch; every set of points has at
most one canonical list (`Canonical.ext`). `gaps lo hi rs` is the canonical list
of what the ascending ranges `rs` leave of `[lo, hi)`.
-/

namespace Ranges

variable {α : Type*} [LinearOrder α]

/-- The point `t` lies in the range `r`. -/
def In (t : α) (r : α × α) : Prop := r.1 ≤ t ∧ t < r.2

/-- The point `t` lies in one of the ranges. -/
def Covers (rs : List (α × α)) (t : α) : Prop := ∃ r ∈ rs, In t r

def Apart (r s : α × α) : Prop := r.2 < s.1 ∨ s.2 < r.1

def Disj (r s : α × α) : Prop := r.2 ≤ s.1 ∨ s.2 ≤ r.1

structure Canonical (rs : List (α × α)) : Prop where
  nonempty : ∀ r ∈ rs, r.1 < r.2
  ascending : rs.Pairwise fun r s => r.2 < s.1

structure Sorted (rs : List (α × α)) : Prop where
  nonempty : ∀ r ∈ rs, r.1 < r.2
  ascending : rs.Pairwise fun r s => r.2 ≤ s.1

theorem Disj.symm {r s : α × α} (h : Disj r s) : Disj s r := Or.symm h

theorem Apart.symm {r s : α × α} (h : Apart r s) : Apart s r := Or.symm h

theorem Disj.not_in {r s : α × α} (h : Disj r s) {t : α} (hr : In t r) : ¬ In t s := by
  rintro ⟨h₁, h₂⟩
  rcases h with h | h
  · exact absurd (lt_of_lt_of_le hr.2 (le_trans h h₁)) (lt_irrefl _)
  · exact absurd (lt_of_lt_of_le h₂ (le_trans h hr.1)) (lt_irrefl _)

theorem disj_of_not_in {r s : α × α} (hr : r.1 < r.2) (hs : s.1 < s.2)
    (h : ∀ t, In t r → ¬ In t s) : Disj r s := by
  by_contra hd
  simp only [Disj, not_or, not_le] at hd
  rcases le_total r.1 s.1 with h₁ | h₁
  · exact h s.1 ⟨h₁, hd.1⟩ ⟨le_refl _, hs⟩
  · exact h r.1 ⟨le_refl _, hr⟩ ⟨h₁, hd.2⟩

@[simp] theorem covers_nil (t : α) : ¬ Covers [] t := by simp [Covers]

@[simp] theorem covers_cons (r : α × α) (rs : List (α × α)) (t : α) :
    Covers (r :: rs) t ↔ In t r ∨ Covers rs t := by
  simp [Covers]

@[simp] theorem covers_append (rs ss : List (α × α)) (t : α) :
    Covers (rs ++ ss) t ↔ Covers rs t ∨ Covers ss t := by
  simp [Covers, or_and_right, exists_or]

theorem covers_of_perm {rs ss : List (α × α)} (h : rs.Perm ss) (t : α) : Covers rs t ↔ Covers ss t := by
  simp [Covers, h.mem_iff]

@[simp] theorem canonical_nil : Canonical ([] : List (α × α)) := ⟨by simp, List.Pairwise.nil⟩

theorem canonical_cons {r : α × α} {rs : List (α × α)} :
    Canonical (r :: rs) ↔ r.1 < r.2 ∧ (∀ s ∈ rs, r.2 < s.1) ∧ Canonical rs := by
  constructor
  · intro h
    have hp := List.pairwise_cons.mp h.ascending
    exact ⟨h.nonempty r (List.mem_cons_self ..), hp.1,
      fun s hs => h.nonempty s (List.mem_cons_of_mem _ hs), hp.2⟩
  · rintro ⟨h₁, h₂, h₃⟩
    exact ⟨List.forall_mem_cons.mpr ⟨h₁, h₃.nonempty⟩, List.pairwise_cons.mpr ⟨h₂, h₃.ascending⟩⟩

theorem sorted_cons {r : α × α} {rs : List (α × α)} :
    Sorted (r :: rs) ↔ r.1 < r.2 ∧ (∀ s ∈ rs, r.2 ≤ s.1) ∧ Sorted rs := by
  constructor
  · intro h
    have hp := List.pairwise_cons.mp h.ascending
    exact ⟨h.nonempty r (List.mem_cons_self ..), hp.1,
      fun s hs => h.nonempty s (List.mem_cons_of_mem _ hs), hp.2⟩
  · rintro ⟨h₁, h₂, h₃⟩
    exact ⟨List.forall_mem_cons.mpr ⟨h₁, h₃.nonempty⟩, List.pairwise_cons.mpr ⟨h₂, h₃.ascending⟩⟩

@[simp] theorem sorted_nil : Sorted ([] : List (α × α)) := ⟨by simp, List.Pairwise.nil⟩

theorem Canonical.not_covers_tail {r : α × α} {rs : List (α × α)} (h : Canonical (r :: rs)) {t : α}
    (ht : t ≤ r.2) : ¬ Covers rs t := by
  rintro ⟨s, hs, h₁, -⟩
  have := (canonical_cons.1 h).2.1 s hs
  exact absurd (lt_of_lt_of_le this (le_trans h₁ ht)) (lt_irrefl _)

theorem Canonical.head_le {r : α × α} {rs : List (α × α)} (h : Canonical (r :: rs)) {t : α}
    (ht : Covers (r :: rs) t) : r.1 ≤ t := by
  rcases (covers_cons r rs t).mp ht with ht | ⟨s, hs, h₁, -⟩
  · exact ht.1
  · have h' := canonical_cons.1 h
    exact le_trans (le_of_lt h'.1) (le_trans (le_of_lt (h'.2.1 s hs)) h₁)

theorem Canonical.head_eq {r s : α × α} {rs ss : List (α × α)} (hr : Canonical (r :: rs))
    (hs : Canonical (s :: ss)) (h : ∀ t, Covers (r :: rs) t ↔ Covers (s :: ss) t) : r = s := by
  have hr₀ := (canonical_cons.1 hr).1
  have hs₀ := (canonical_cons.1 hs).1
  have h₁ : r.1 = s.1 := le_antisymm
    (hr.head_le ((h s.1).mpr (by simp [In, hs₀])))
    (hs.head_le ((h r.1).mp (by simp [In, hr₀])))
  -- the end of the shorter head would be covered by the longer one only
  have key : ∀ {a b : α × α} {as bs : List (α × α)}, Canonical (a :: as) → Canonical (b :: bs) →
      (∀ t, Covers (b :: bs) t → Covers (a :: as) t) → a.1 = b.1 → b.2 ≤ a.2 := by
    intro a b as bs ha hb hab hst
    refine le_of_not_gt fun hlt => ?_
    have hc : Covers (b :: bs) a.2 := by
      have := (canonical_cons.1 ha).1
      exact (covers_cons ..).mpr (Or.inl ⟨hst ▸ le_of_lt this, hlt⟩)
    rcases (covers_cons ..).mp (hab _ hc) with hin | hin
    · exact absurd hin.2 (lt_irrefl _)
    · exact ha.not_covers_tail (le_refl _) hin
  have h₂ : r.2 = s.2 := le_antisymm (key hs hr (fun t => (h t).mp) h₁.symm) (key hr hs (fun t => (h t).mpr) h₁)
  exact Prod.ext h₁ h₂

theorem Canonical.ext : ∀ {rs ss : List (α × α)}, Canonical rs → Canonical ss →
    (∀ t, Covers rs t ↔ Covers ss t) → rs = ss
  | [], [], _, _, _ => rfl
  | [], s :: ss, _, hs, h => by
    have := (canonical_cons.1 hs).1
    exact absurd ((h s.1).mpr (by simp [In, this])) (by simp)
  | r :: rs, [], hr, _, h => by
    have := (canonical_cons.1 hr).1
    exact absurd ((h r.1).mp (by simp [In, this])) (by simp)
  | r :: rs, s :: ss, hr, hs, h => by
    have he := hr.head_eq hs h
    subst he
    congr 1
    refine Canonical.ext (canonical_cons.1 hr).2.2 (canonical_cons.1 hs).2.2 fun t => ?_
    have ht := h t
    simp only [covers_cons] at ht
    by_cases hin : In t r
    · have := le_of_lt hin.2
      simp [hr.not_covers_tail this, hs.not_covers_tail this]
    · simpa [hin] using ht

theorem Canonical.eq_nil_iff {rs : List (α × α)} (h : Canonical rs) : rs = [] ↔ ∀ t, ¬ Covers rs t := by
  constructor
  · intro hn t
    rw [hn]
    exact covers_nil t
  · intro hn
    cases rs with
    | nil => rfl
    | cons r rs => exact absurd ⟨r, List.mem_cons_self .., le_refl _, (canonical_cons.1 h).1⟩ (hn r.1)

/-! ## Gaps -/

/-- What the ascending ranges `rs` leave of `[lo, hi)`. -/
@[grind =] def gaps (lo hi : α) : List (α × α) → List (α × α)
  | [] => if lo < hi then [(lo, hi)] else []
  | r :: rs => (if lo < r.1 then [(lo, r.1)] else []) ++ gaps r.2 hi rs

theorem le_of_mem_gaps {lo hi : α} {rs : List (α × α)} (hs : Sorted rs) (hlo : ∀ r ∈ rs, lo ≤ r.1)
    {g : α × α} (hg : g ∈ gaps lo hi rs) : lo ≤ g.1 := by
  induction rs generalizing lo with
  | nil =>
    simp only [gaps] at hg
    split at hg
    · simp only [List.mem_singleton] at hg; subst hg; exact le_refl _
    · cases hg
  | cons r rs ih =>
    obtain ⟨h₁, h₂, h₃⟩ := sorted_cons.1 hs
    rcases List.mem_append.mp hg with hg | hg
    · split at hg
      · simp only [List.mem_singleton] at hg; subst hg; exact le_refl _
      · cases hg
    · exact le_trans (hlo r (List.mem_cons_self ..)) (le_trans (le_of_lt h₁) (ih h₃ h₂ hg))

theorem gaps_canonical {lo hi : α} {rs : List (α × α)} (hs : Sorted rs) (hlo : ∀ r ∈ rs, lo ≤ r.1) :
    Canonical (gaps lo hi rs) := by
  induction rs generalizing lo with
  | nil =>
    simp only [gaps]
    split
    · rename_i h; exact canonical_cons.2 ⟨h, by simp, canonical_nil⟩
    · exact canonical_nil
  | cons r rs ih =>
    obtain ⟨h₁, h₂, h₃⟩ := sorted_cons.1 hs
    simp only [gaps]
    split
    · rename_i h
      refine canonical_cons.2 ⟨h, fun g hg => ?_, ih h₃ h₂⟩
      exact lt_of_lt_of_le h₁ (le_of_mem_gaps h₃ h₂ hg)
    · exact ih h₃ h₂

/-- The gaps cover exactly the points of `[lo, hi)` outside the ranges. -/
theorem covers_gaps {lo hi : α} {rs : List (α × α)} (hs : Sorted rs) (hlo : ∀ r ∈ rs, lo ≤ r.1)
    (hhi : ∀ r ∈ rs, r.2 ≤ hi) (t : α) :
    Covers (gaps lo hi rs) t ↔ (lo ≤ t ∧ t < hi) ∧ ¬ Covers rs t := by
  induction rs generalizing lo with
  | nil =>
    simp only [gaps]
    split
    · simp [In]
    · rename_i h
      simp only [covers_nil, not_false_iff, and_true, false_iff]
      exact fun ⟨h₁, h₂⟩ => h (lt_of_le_of_lt h₁ h₂)
  | cons r rs ih =>
    obtain ⟨h₁, h₂, h₃⟩ := sorted_cons.1 hs
    have hr := hlo r (List.mem_cons_self ..)
    have hr' := hhi r (List.mem_cons_self ..)
    rw [gaps, covers_append, ih h₃ h₂ (fun s hs => hhi s (List.mem_cons_of_mem _ hs)), covers_cons]
    have hd : Covers rs t → r.2 ≤ t := fun ⟨s, hs, hin⟩ => le_trans (h₂ s hs) hin.1
    have hif : Covers (if lo < r.1 then [(lo, r.1)] else []) t ↔ lo ≤ t ∧ t < r.1 := by
      split
      · simp [In]
      · rename_i h
        simp only [covers_nil, false_iff]
        exact fun ⟨h₁, h₂⟩ => h (lt_of_le_of_lt h₁ h₂)
    rw [hif]
    unfold In
    constructor
    · rintro (⟨a, b⟩ | ⟨⟨a, b⟩, c⟩)
      · refine ⟨⟨a, lt_of_lt_of_le b (le_trans (le_of_lt h₁) hr')⟩, ?_⟩
        rintro (⟨c, -⟩ | c)
        · exact absurd (lt_of_lt_of_le b c) (lt_irrefl _)
        · exact absurd (lt_of_lt_of_le b (le_trans (le_of_lt h₁) (hd c))) (lt_irrefl _)
      · refine ⟨⟨le_trans hr (le_trans (le_of_lt h₁) a), b⟩, ?_⟩
        rintro (⟨-, d⟩ | d)
        · exact absurd (lt_of_lt_of_le d a) (lt_irrefl _)
        · exact c d
    · rintro ⟨⟨a, b⟩, c⟩
      simp only [not_or, not_and, not_lt] at c
      rcases lt_or_ge t r.1 with hlt | hge
      · exact Or.inl ⟨a, hlt⟩
      · exact Or.inr ⟨⟨c.1 hge, b⟩, c.2⟩

/-! ## Inserting into an ascending list -/

theorem sorted_append {rs ss : List (α × α)} :
    Sorted (rs ++ ss) ↔ Sorted rs ∧ Sorted ss ∧ ∀ r ∈ rs, ∀ s ∈ ss, r.2 ≤ s.1 := by
  constructor
  · intro h
    have hp := List.pairwise_append.mp h.ascending
    exact ⟨⟨fun r hr => h.nonempty r (List.mem_append_left _ hr), hp.1⟩,
      ⟨fun r hr => h.nonempty r (List.mem_append_right _ hr), hp.2.1⟩, hp.2.2⟩
  · rintro ⟨h₁, h₂, h₃⟩
    exact ⟨List.forall_mem_append.mpr ⟨h₁.nonempty, h₂.nonempty⟩,
      List.pairwise_append.mpr ⟨h₁.ascending, h₂.ascending, h₃⟩⟩

theorem Sorted.erase {rs ss : List (α × α)} {r : α × α} (h : Sorted (rs ++ r :: ss)) : Sorted (rs ++ ss) := by
  obtain ⟨h₁, h₂, h₃⟩ := sorted_append.1 h
  exact sorted_append.2 ⟨h₁, (sorted_cons.1 h₂).2.2, fun a ha b hb => h₃ a ha b (List.mem_cons_of_mem _ hb)⟩

theorem Sorted.insert {rs ss : List (α × α)} {r : α × α} (h : Sorted (rs ++ ss)) (hr : r.1 < r.2)
    (h₁ : ∀ a ∈ rs, a.2 ≤ r.1) (h₂ : ∀ b ∈ ss, r.2 ≤ b.1) : Sorted (rs ++ r :: ss) := by
  obtain ⟨h₃, h₄, h₅⟩ := sorted_append.1 h
  refine sorted_append.2 ⟨h₃, sorted_cons.2 ⟨hr, h₂, h₄⟩, fun a ha b hb => ?_⟩
  rcases List.mem_cons.mp hb with rfl | hb
  · exact h₁ a ha
  · exact h₅ a ha b hb

theorem Sorted.disj {rs ss : List (α × α)} {r : α × α} (h : Sorted (rs ++ r :: ss)) {s : α × α}
    (hs : s ∈ rs ++ ss) : Disj r s := by
  obtain ⟨-, h₂, h₃⟩ := sorted_append.1 h
  rcases List.mem_append.mp hs with hs | hs
  · exact Or.inr (h₃ s hs r (List.mem_cons_self ..))
  · exact Or.inl ((sorted_cons.1 h₂).2.1 s hs)

theorem Sorted.between {rs ss : List (α × α)} {r : α × α} (h : Sorted (rs ++ ss)) (hr : r.1 < r.2)
    (hd : ∀ s ∈ rs ++ ss, Disj s r) (h₁ : ∀ a ∈ rs, a.1 ≤ r.1) (h₂ : ∀ b, ss.head? = some b → r.1 < b.1) :
    (∀ a ∈ rs, a.2 ≤ r.1) ∧ ∀ b ∈ ss, r.2 ≤ b.1 := by
  obtain ⟨h₃, h₄, -⟩ := sorted_append.1 h
  constructor
  · intro a ha
    rcases hd a (List.mem_append_left _ ha) with hd | hd
    · exact hd
    · exact absurd (lt_of_lt_of_le hr (le_trans hd (h₁ a ha))) (lt_irrefl _)
  · intro b hb
    cases ss with
    | nil => cases hb
    | cons s ss =>
      have hs := h₂ s rfl
      have hs' : r.2 ≤ s.1 := by
        rcases hd s (by simp) with hd | hd
        · have := h₄.nonempty s (List.mem_cons_self ..)
          exact absurd (lt_of_lt_of_le (lt_trans hs this) hd) (lt_irrefl _)
        · exact hd
      rcases List.mem_cons.mp hb with rfl | hb
      · exact hs'
      · have := (sorted_cons.1 h₄).2.1 b hb
        have := h₄.nonempty s (List.mem_cons_self ..)
        exact le_trans hs' (le_trans this.le ‹s.2 ≤ b.1›)

/-! ## Distances to the next range -/

/-- Where the first range starts, or `hi`. -/
def nextStart (hi : α) : List (α × α) → α
  | [] => hi
  | r :: _ => r.1

omit [LinearOrder α] in
theorem nextStart_append (hi : α) (rs ss : List (α × α)) :
    nextStart hi (rs ++ ss) = nextStart (nextStart hi ss) rs := by
  cases rs <;> rfl

/-- For each range the number of points up to the next one, for the last one up to `hi`. -/
def afters (hi : Nat) : List (Nat × Nat) → List Nat
  | [] => []
  | r :: rs => (nextStart hi rs - r.2) :: afters hi rs

theorem afters_append (hi : Nat) (rs ss : List (Nat × Nat)) :
    afters hi (rs ++ ss) = afters (nextStart hi ss) rs ++ afters hi ss := by
  induction rs with
  | nil => rfl
  | cons r rs ih =>
    simp only [List.cons_append, afters, ih, nextStart_append]

theorem afters_length (hi : Nat) (rs : List (Nat × Nat)) : (afters hi rs).length = rs.length := by
  induction rs with
  | nil => rfl
  | cons r rs ih => simp [afters, ih]

theorem afters_getElem? {hi : Nat} : ∀ (rs : List (Nat × Nat)) (i : Nat),
    (afters hi rs)[i]? = rs[i]?.map fun r => nextStart hi (rs.drop (i + 1)) - r.2
  | [], _ => rfl
  | _ :: _, 0 => rfl
  | _ :: rs, i + 1 => afters_getElem? rs i

omit [LinearOrder α] in
theorem nextStart_drop (hi : α) : ∀ (rs : List (α × α)) (i : Nat), nextStart hi (rs.drop i) =
    (rs[i]?.map (·.1)).getD hi
  | [], i => by simp [nextStart]
  | _ :: _, 0 => rfl
  | _ :: rs, i + 1 => nextStart_drop hi rs i

theorem le_nextStart {hi a : α} {rs : List (α × α)} (h : a ≤ hi) (hr : ∀ r ∈ rs, a ≤ r.1) :
    a ≤ nextStart hi rs := by
  cases rs with
  | nil => exact h
  | cons r rs => exact hr r (List.mem_cons_self ..)

theorem gaps_length_le (lo hi : α) (rs : List (α × α)) : (gaps lo hi rs).length ≤ rs.length + 1 := by
  induction rs generalizing lo with
  | nil => simp only [gaps]; split <;> simp
  | cons r rs ih =>
    have := ih r.2
    simp only [gaps, List.length_append, List.length_cons]
    split
    · simp only [List.length_cons, List.length_nil]; omega
    · simp only [List.length_nil]; omega

end Ranges
