import Mathlib

/-!
# Scanners of lines

A scanner takes a value off the front of a text. On a text whose first line is complete, a scanner that is `Inline`
leaves the end of the line and one that `Ends` the line takes it; neither looks behind the line. A loop of scanners
that end their lines reads two texts one behind the other as it reads them alone.
-/

namespace Lines

abbrev Scanner (ε σ α : Type) := StateT (List σ) (Except ε) α

variable {ε σ α β : Type}

theorem bind_apply (f : Scanner ε σ α) (g : α → Scanner ε σ β) (s : List σ) :
    (f >>= g) s = match f s with
      | .error e => .error e
      | .ok (a, rest) => g a rest := by
  show (f s >>= fun p => g p.1 p.2) = _
  cases f s <;> rfl

theorem bind_ok {f : Scanner ε σ α} {g : α → Scanner ε σ β} {s rest : List σ} {b : β}
    (h : (f >>= g) s = .ok (b, rest)) : ∃ a s₁, f s = .ok (a, s₁) ∧ g a s₁ = .ok (b, rest) := by
  rw [bind_apply] at h
  cases hf : f s with
  | error e =>
    rw [hf] at h
    cases h
  | ok p =>
    rw [hf] at h
    exact ⟨p.1, p.2, rfl, h⟩

/-! ## Lines -/

section
variable (nl : σ)

/-- Where what is left of the line meets `pre`, the scanner gives a value and leaves a part of the line that meet
`post`, whatever stands behind the line. -/
def Inline (pre : List σ → Prop) (f : Scanner ε σ α) (post : α → List σ → Prop) : Prop :=
  ∀ l, nl ∉ l → pre l → ∃ out : Except ε (α × List σ), (∀ a l', out = .ok (a, l') → nl ∉ l' ∧ post a l') ∧
    ∀ B, f (l ++ nl :: B) = out.map fun r => (r.1, r.2 ++ nl :: B)

/-- Where what is left of the line meets `pre`, the scanner takes the line with its end. -/
def Ends (pre : List σ → Prop) (f : Scanner ε σ α) : Prop :=
  ∀ l, nl ∉ l → pre l → ∃ out : Except ε α, ∀ B, f (l ++ nl :: B) = out.map fun a => (a, B)

end

/-- A computation that neither reads nor takes anything. -/
def Silent (f : Scanner ε σ α) : Prop := ∃ out : Except ε α, ∀ s, f s = out.map fun a => (a, s)

section
variable {nl : σ} {pre : List σ → Prop} {mid : α → List σ → Prop} {post : β → List σ → Prop} {f : Scanner ε σ α}
  {g : α → Scanner ε σ β}

theorem Silent.pure (a : α) : Silent (pure a : Scanner ε σ α) := ⟨.ok a, fun _ => rfl⟩

theorem Silent.error (e : ε) : Silent (throw e : Scanner ε σ α) := ⟨.error e, fun _ => rfl⟩

theorem Inline.pure {a : α} (h : ∀ l, pre l → mid a l) : Inline nl pre (pure a : Scanner ε σ α) mid := by
  intro l hl hpre
  refine ⟨.ok (a, l), fun a' l' heq => ?_, fun _ => rfl⟩
  cases heq
  exact ⟨hl, h l hpre⟩

theorem Inline.error (e : ε) : Inline nl pre (throw e : Scanner ε σ α) mid :=
  fun _ _ _ => ⟨.error e, (fun _ _ heq => by cases heq), fun _ => rfl⟩

theorem Inline.bind (hf : Inline nl pre f mid) (hg : ∀ a, Inline nl (mid a) (g a) post) :
    Inline nl pre (f >>= g) post := by
  intro l hl hpre
  obtain ⟨out, hrest, hout⟩ := hf l hl hpre
  cases out with
  | error e => exact ⟨.error e, (fun _ _ heq => by cases heq), fun B => by rw [bind_apply, hout]; rfl⟩
  | ok r =>
    have hmid := hrest _ _ rfl
    obtain ⟨out', hrest', hout'⟩ := hg r.1 r.2 hmid.1 hmid.2
    exact ⟨out', hrest', fun B => by rw [bind_apply, hout]; exact hout' B⟩

theorem Inline.ends (hf : Inline nl pre f mid) (hg : ∀ a, Ends nl (mid a) (g a)) : Ends nl pre (f >>= g) := by
  intro l hl hpre
  obtain ⟨out, hrest, hout⟩ := hf l hl hpre
  cases out with
  | error e => exact ⟨.error e, fun B => by rw [bind_apply, hout]; rfl⟩
  | ok r =>
    have hmid := hrest _ _ rfl
    obtain ⟨out', hout'⟩ := hg r.1 r.2 hmid.1 hmid.2
    exact ⟨out', fun B => by rw [bind_apply, hout]; exact hout' B⟩

theorem Ends.silent (hf : Ends nl pre f) (hg : ∀ a, Silent (g a)) : Ends nl pre (f >>= g) := by
  intro l hl hpre
  obtain ⟨out, hout⟩ := hf l hl hpre
  cases out with
  | error e => exact ⟨.error e, fun B => by rw [bind_apply, hout]; rfl⟩
  | ok a =>
    obtain ⟨out', hout'⟩ := hg a
    exact ⟨out', fun B => by rw [bind_apply, hout]; exact hout' B⟩

theorem Ends.map {β : Type} (φ : α → β) (hf : Ends nl pre f) : Ends nl pre (φ <$> f) := by
  rw [map_eq_pure_bind]
  exact hf.silent fun a => .pure (φ a)

theorem Ends.error (e : ε) : Ends nl pre (throw e : Scanner ε σ α) := fun _ _ _ => ⟨.error e, fun _ => rfl⟩

end

/-! ## Values and lengths -/

/-- `f'` gives the image of what `f` gives. -/
def Relabels (φ : α → β) (f : Scanner ε σ α) (f' : Scanner ε σ β) : Prop :=
  ∀ s a rest, f s = .ok (a, rest) → f' s = .ok (φ a, rest)

/-- At least `n` characters are taken. -/
def Takes (n : Nat) (f : Scanner ε σ α) : Prop := ∀ s a rest, f s = .ok (a, rest) → rest.length + n ≤ s.length

/-- `P` holds of every value. -/
def Gives (P : α → Prop) (f : Scanner ε σ α) : Prop := ∀ s a rest, f s = .ok (a, rest) → P a

section
variable {γ δ : Type} {φ : α → γ} {ψ : β → δ} {f : Scanner ε σ α} {g : α → Scanner ε σ β} {f' : Scanner ε σ γ}
  {g' : γ → Scanner ε σ δ}

theorem Relabels.pure (a : α) : Relabels φ (pure a : Scanner ε σ α) (pure (φ a)) := fun _ _ _ h => by
  cases h
  rfl

theorem Relabels.error (e : ε) : Relabels φ (throw e : Scanner ε σ α) f' := fun _ _ _ h => by cases h

theorem Relabels.refl (f : Scanner ε σ α) : Relabels id f f := fun _ _ _ h => h

theorem Relabels.bind (hf : Relabels φ f f') (hg : ∀ a, Relabels ψ (g a) (g' (φ a))) :
    Relabels ψ (f >>= g) (f' >>= g') := by
  intro s b rest h
  obtain ⟨a, s₁, hfs, hgs⟩ := bind_ok h
  rw [bind_apply, hf s a s₁ hfs]
  exact hg a s₁ b rest hgs

theorem Takes.pure (a : α) : Takes 0 (pure a : Scanner ε σ α) := fun _ _ _ h => by
  cases h
  exact Nat.le_refl _

theorem Takes.error {n : Nat} (e : ε) : Takes n (throw e : Scanner ε σ α) := fun _ _ _ h => by cases h

theorem Takes.bind {n : Nat} (hf : Takes n f) (hg : ∀ a, Takes 0 (g a)) : Takes n (f >>= g) := by
  intro s b rest h
  obtain ⟨a, s₁, hfs, hgs⟩ := bind_ok h
  exact Nat.le_trans (Nat.add_le_add_right (hg a s₁ b rest hgs) n) (hf s a s₁ hfs)

theorem Gives.pure {P : α → Prop} {a : α} (h : P a) : Gives P (pure a : Scanner ε σ α) := fun _ _ _ heq => by
  cases heq
  exact h

theorem Gives.error {P : α → Prop} (e : ε) : Gives P (throw e : Scanner ε σ α) := fun _ _ _ h => by cases h

theorem Gives.bind {P : β → Prop} (hg : ∀ a, Gives P (g a)) : Gives P (f >>= g) := by
  intro s b rest h
  obtain ⟨a, s₁, -, hgs⟩ := bind_ok h
  exact hg a s₁ b rest hgs

theorem Gives.map {P : α → Prop} {Q : β → Prop} {k : α → β} (hf : Gives P f) (h : ∀ a, P a → Q (k a)) :
    Gives Q (k <$> f) := by
  rw [map_eq_pure_bind]
  intro s b rest heq
  obtain ⟨a, s₁, hfs, hpure⟩ := bind_ok heq
  cases hpure
  exact h a (hf s a rest hfs)

end

/-! ## A loop over the lines -/

section
variable {τ : Type} (step : τ → Scanner ε σ τ)

/-- Scan until the text is empty; `none` where `n` rounds are not enough. -/
def loop : Nat → τ → List σ → Option (Except ε τ)
  | 0, _, _ => none
  | _ + 1, t, [] => some (.ok t)
  | n + 1, t, c :: s =>
    match step t (c :: s) with
    | .error e => some (.error e)
    | .ok (t', rest) => loop n t' rest

inductive Reached (t : τ) (s : List σ) : τ → List σ → Prop
  | start : Reached t s t s
  | next {t₁ t₂ : τ} {c : σ} {s₁ s₂ : List σ} : Reached t s t₁ (c :: s₁) → step t₁ (c :: s₁) = .ok (t₂, s₂) →
    Reached t s t₂ s₂

def Shrinks : Prop := ∀ t c s t' rest, step t (c :: s) = .ok (t', rest) → rest.length ≤ s.length

end

section
variable {τ : Type} {step : τ → Scanner ε σ τ}

theorem loop_error {t : τ} {s : List σ} {e : ε} (hs : s ≠ []) (h : step t s = .error e) (n : Nat) :
    loop step (n + 1) t s = some (.error e) := by
  cases s with
  | nil => exact absurd rfl hs
  | cons c s => rw [loop, h]

theorem loop_ok {t t' : τ} {s rest : List σ} (hs : s ≠ []) (h : step t s = .ok (t', rest)) (n : Nat) :
    loop step (n + 1) t s = loop step n t' rest := by
  cases s with
  | nil => exact absurd rfl hs
  | cons c s => rw [loop, h]

theorem loop_succ : ∀ {n : Nat} {t : τ} {s : List σ} {r : Except ε τ}, loop step n t s = some r →
    loop step (n + 1) t s = some r
  | 0, _, _, _, h => by cases h
  | n + 1, t, [], r, h => h
  | n + 1, t, c :: s, r, h => by
    cases hstep : step t (c :: s) with
    | error e =>
      rw [loop_error (List.cons_ne_nil c s) hstep] at h ⊢
      exact h
    | ok p =>
      rw [loop_ok (List.cons_ne_nil c s) hstep] at h ⊢
      exact loop_succ h

theorem loop_le {n m : Nat} {t : τ} {s : List σ} {r : Except ε τ} (h : loop step n t s = some r) (hle : n ≤ m) :
    loop step m t s = some r := by
  induction hle with
  | refl => exact h
  | step _ ih => exact loop_succ ih

theorem loop_unique {n m : Nat} {t : τ} {s : List σ} {r r' : Except ε τ} (h : loop step n t s = some r)
    (h' : loop step m t s = some r') : r = r' := by
  have hmax := loop_le h (Nat.le_max_left n m)
  rw [loop_le h' (Nat.le_max_right n m)] at hmax
  exact Option.some.inj hmax.symm

theorem loop_terminates (hshrink : Shrinks step) : ∀ {n : Nat} {t : τ} {s : List σ}, s.length < n →
    ∃ r, loop step n t s = some r
  | 0, _, _, h => absurd h (Nat.not_lt_zero _)
  | n + 1, t, [], _ => ⟨.ok t, rfl⟩
  | n + 1, t, c :: s, h => by
    cases hstep : step t (c :: s) with
    | error e => exact ⟨.error e, loop_error (List.cons_ne_nil c s) hstep n⟩
    | ok p =>
      have hrest := hshrink t c s p.1 p.2 hstep
      rw [List.length_cons] at h
      rw [loop_ok (List.cons_ne_nil c s) hstep]
      exact loop_terminates hshrink (Nat.lt_of_le_of_lt hrest (Nat.lt_of_succ_lt_succ h))

theorem Reached.inv {Inv : τ → Prop} (hstep : ∀ t s t' rest, Inv t → step t s = .ok (t', rest) → Inv t')
    {t t' : τ} {s s' : List σ} (hr : Reached step t s t' s') (h : Inv t) : Inv t' := by
  induction hr with
  | start => exact h
  | next _ hs ih => exact hstep _ _ _ _ ih hs

theorem loop_reached : ∀ {n : Nat} {t t' : τ} {s : List σ}, loop step n t s = some (.ok t') →
    ∀ {t₀ : τ} {s₀ : List σ}, Reached step t₀ s₀ t s → Reached step t₀ s₀ t' []
  | 0, _, _, _, h, _, _, _ => by cases h
  | n + 1, t, t', [], h, _, _, hr => by
    cases h
    exact hr
  | n + 1, t, t', c :: s, h, _, _, hr => by
    cases hstep : step t (c :: s) with
    | error e =>
      rw [loop_error (List.cons_ne_nil c s) hstep] at h
      cases h
    | ok p =>
      rw [loop_ok (List.cons_ne_nil c s) hstep] at h
      exact loop_reached h (.next hr hstep)

/-! ## Complete lines -/

inductive Complete (nl : σ) : Nat → List σ → Prop
  | nil : Complete nl 0 []
  | line {k : Nat} {l A : List σ} : nl ∉ l → Complete nl k A → Complete nl (k + 1) (l ++ nl :: A)

theorem Complete.cons {nl c : σ} (hc : c ≠ nl) {k : Nat} {A : List σ} (hne : A ≠ []) (h : Complete nl k A) :
    Complete nl k (c :: A) := by
  cases h with
  | nil => exact absurd rfl hne
  | @line k l A hl hA =>
    rw [← List.cons_append]
    exact .line (fun hmem => (List.mem_cons.mp hmem).elim (fun h => hc h.symm) hl) hA

theorem complete_of_last [DecidableEq σ] {nl : σ} : ∀ {A : List σ}, A = [] ∨ A.getLast? = some nl →
    Complete nl (A.count nl) A
  | [], _ => .nil
  | [c], h => by
    have hlast : some c = some nl := h.resolve_left (List.cons_ne_nil c [])
    have hone : Complete nl (0 + 1) ([] ++ nl :: []) := .line List.not_mem_nil .nil
    rw [Option.some.inj hlast, List.count_singleton_self]
    exact hone
  | c :: d :: A, h => by
    have hlast := h.resolve_left (List.cons_ne_nil c (d :: A))
    rw [List.getLast?_cons_cons] at hlast
    have ih := complete_of_last (.inr hlast)
    by_cases hc : c = nl
    · have hline := Complete.line (List.not_mem_nil (a := nl)) ih
      rw [hc, List.count_cons_self]
      exact hline
    · rw [List.count_cons_of_ne hc]
      exact ih.cons hc (List.cons_ne_nil d A)

section
variable {nl : σ} (hends : ∀ t, Ends nl (fun _ => True) (step t))
include hends

theorem loop_append_ok {k : Nat} {A : List σ} (hA : Complete nl k A) : ∀ {n : Nat} {t t' : τ},
    loop step n t A = some (.ok t') → ∀ {m : Nat} {B : List σ} {r : Except ε τ}, loop step m t' B = some r →
      ∃ n', loop step n' t (A ++ B) = some r := by
  induction hA with
  | nil =>
    intro n t t' h m B r hB
    cases n with
    | zero => cases h
    | succ n =>
      cases h
      exact ⟨m, hB⟩
  | @line k l A hl _ ih =>
    intro n t t' h m B r hB
    obtain ⟨out, hout⟩ := hends t l hl trivial
    have hne : ∀ rest, l ++ nl :: rest ≠ [] := fun rest =>
      List.append_ne_nil_of_right_ne_nil l (List.cons_ne_nil nl rest)
    cases n with
    | zero => cases h
    | succ n =>
      cases out with
      | error e =>
        rw [loop_error (hne A) (hout A)] at h
        cases h
      | ok t₁ =>
        rw [loop_ok (hne A) (hout A)] at h
        obtain ⟨n', hn'⟩ := ih h hB
        refine ⟨n' + 1, ?_⟩
        rw [List.append_assoc, List.cons_append, loop_ok (hne (A ++ B)) (hout (A ++ B))]
        exact hn'

theorem loop_append_error {k : Nat} {A : List σ} (hA : Complete nl k A) : ∀ {n : Nat} {t : τ} {e : ε},
    loop step n t A = some (.error e) → ∀ B, loop step n t (A ++ B) = some (.error e) := by
  induction hA with
  | nil =>
    intro n t e h
    cases n with
    | zero => cases h
    | succ n => cases h
  | @line k l A hl _ ih =>
    intro n t e h B
    obtain ⟨out, hout⟩ := hends t l hl trivial
    have hne : ∀ rest, l ++ nl :: rest ≠ [] := fun rest =>
      List.append_ne_nil_of_right_ne_nil l (List.cons_ne_nil nl rest)
    rw [List.append_assoc, List.cons_append]
    cases n with
    | zero => cases h
    | succ n =>
      cases out with
      | error e' =>
        rw [loop_error (hne A) (hout A)] at h
        rw [loop_error (hne (A ++ B)) (hout (A ++ B))]
        exact h
      | ok t₁ =>
        rw [loop_ok (hne A) (hout A)] at h
        rw [loop_ok (hne (A ++ B)) (hout (A ++ B))]
        exact ih h B

theorem loop_count {line : τ → Nat} (hline : ∀ t s t' rest, step t s = .ok (t', rest) →
    line t' = line t + 1) {k : Nat}
    {A : List σ} (hA : Complete nl k A) : ∀ {n : Nat} {t t' : τ}, loop step n t A = some (.ok t') →
      line t' = line t + k := by
  induction hA with
  | nil =>
    intro n t t' h
    cases n with
    | zero => cases h
    | succ n =>
      cases h
      rfl
  | @line k l A hl _ ih =>
    intro n t t' h
    obtain ⟨out, hout⟩ := hends t l hl trivial
    have hne : l ++ nl :: A ≠ [] := List.append_ne_nil_of_right_ne_nil l (List.cons_ne_nil nl A)
    cases n with
    | zero => cases h
    | succ n =>
      cases out with
      | error e =>
        rw [loop_error hne (hout A)] at h
        cases h
      | ok t₁ =>
        rw [loop_ok hne (hout A)] at h
        rw [ih h, hline _ _ _ _ (hout A), Nat.add_assoc, Nat.add_comm 1]

end

theorem loop_simulates {R : τ → τ → Prop} (hR : ∀ t u s t' rest, R t u → step t s = .ok (t', rest) →
    ∃ u', step u s = .ok (u', rest) ∧ R t' u') : ∀ {n : Nat} {t u t' : τ} {s : List σ}, R t u →
      loop step n t s = some (.ok t') → ∃ u', loop step n u s = some (.ok u') ∧ R t' u'
  | 0, _, _, _, _, _, h => by cases h
  | n + 1, t, u, t', [], hr, h => by
    cases h
    exact ⟨u, rfl, hr⟩
  | n + 1, t, u, t', c :: s, hr, h => by
    cases hstep : step t (c :: s) with
    | error e =>
      rw [loop_error (List.cons_ne_nil c s) hstep] at h
      cases h
    | ok p =>
      rw [loop_ok (List.cons_ne_nil c s) hstep] at h
      obtain ⟨u₁, hu, hr₁⟩ := hR t u (c :: s) p.1 p.2 hr hstep
      rw [loop_ok (List.cons_ne_nil c s) hu]
      exact loop_simulates hR hr₁ h

end

end Lines
