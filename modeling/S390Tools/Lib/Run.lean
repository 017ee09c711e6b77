import Mathlib

/-!
# Runs of a partial step function

`exec step s as` feeds the actions `as` to `step` one after the other; a step
that stops the program is `none`. `Admissible` says that each action meets its
contract in the state it is taken in. An invariant that admissible steps keep
(and under which they do not stop) holds after every admissible run.
-/

namespace Run

theorem bind_eq_ok {ε α β : Type} {x : Except ε α} {f : α → Except ε β} {b : β} (h : (x >>= f) = .ok b) :
    ∃ a, x = .ok a ∧ f a = .ok b := by
  cases x with
  | error e => cases h
  | ok a => exact ⟨a, rfl, h⟩

variable {σ α : Type*}

@[grind =] def exec (step : σ → α → Option σ) : σ → List α → Option σ
  | s, [] => some s
  | s, a :: as => (step s a).bind fun s' => exec step s' as

/-- Every action of the list meets its contract when it is taken. -/
def Admissible (step : σ → α → Option σ) (ok : σ → α → Prop) : σ → List α → Prop
  | _, [] => True
  | s, a :: as => ok s a ∧ ∀ s', step s a = some s' → Admissible step ok s' as

instance decidableAdmissible (step : σ → α → Option σ) (ok : σ → α → Prop) [∀ s a, Decidable (ok s a)] :
    ∀ (s : σ) (as : List α), Decidable (Admissible step ok s as)
  | _, [] => isTrue trivial
  | s, a :: as =>
    have : Decidable (∀ s', step s a = some s' → Admissible step ok s' as) :=
      match step s a with
      | none => isTrue fun _ h => absurd h (by simp)
      | some s₁ =>
        match decidableAdmissible step ok s₁ as with
        | isTrue h => isTrue fun s' hs => Option.some.inj hs ▸ h
        | isFalse h => isFalse fun h' => h (h' s₁ rfl)
    inferInstanceAs (Decidable (_ ∧ _))

/-- `P` holds in every state of the run. -/
def Always (step : σ → α → Option σ) (P : σ → Prop) : σ → List α → Prop
  | s, [] => P s
  | s, a :: as => P s ∧ ∀ s', step s a = some s' → Always step P s' as

section
variable {step : σ → α → Option σ} {ok : σ → α → Prop}

@[simp] theorem exec_nil (s : σ) : exec step s [] = some s := rfl

theorem exec_cons {s s' : σ} {a : α} (h : step s a = some s') (as : List α) :
    exec step s (a :: as) = exec step s' as := by
  simp [exec, h]

theorem exec_inv (Inv : σ → Prop) (hstep : ∀ s a, Inv s → ok s a → ∃ s', step s a = some s' ∧ Inv s') :
    ∀ (as : List α) (s : σ), Inv s → Admissible step ok s as → ∃ s', exec step s as = some s' ∧ Inv s'
  | [], s, hs, _ => ⟨s, rfl, hs⟩
  | a :: as, s, hs, hadm => by
    obtain ⟨s₁, h₁, hs₁⟩ := hstep s a hs hadm.1
    obtain ⟨s₂, h₂, hs₂⟩ := exec_inv Inv hstep as s₁ hs₁ (hadm.2 s₁ h₁)
    exact ⟨s₂, by rw [exec_cons h₁, h₂], hs₂⟩

theorem exec_keeps (Inv : σ → Prop) (hstep : ∀ s a s', Inv s → ok s a → step s a = some s' → Inv s') :
    ∀ (as : List α) (s s' : σ), Inv s → Admissible step ok s as → exec step s as = some s' → Inv s'
  | [], s, s', hs, _, h => by cases h; exact hs
  | a :: as, s, s', hs, hadm, h => by
    simp only [exec, Option.bind_eq_some_iff] at h
    obtain ⟨s₁, h₁, h⟩ := h
    exact exec_keeps Inv hstep as s₁ s' (hstep s a s₁ hs hadm.1 h₁) (hadm.2 s₁ h₁) h

theorem always_iff (P : σ → Prop) (hstep : ∀ s a s', P s → step s a = some s' → (P s' ↔ ok s a)) :
    ∀ (as : List α) (s s' : σ), P s → exec step s as = some s' → (Always step P s as ↔ Admissible step ok s as)
  | [], s, s', hs, _ => ⟨fun _ => trivial, fun _ => hs⟩
  | a :: as, s, s', hs, h => by
    simp only [exec, Option.bind_eq_some_iff] at h
    obtain ⟨s₁, h₁, h⟩ := h
    have hiff := hstep s a s₁ hs h₁
    constructor
    · rintro ⟨-, hall⟩
      have h₂ := hall s₁ h₁
      have hP : P s₁ := by
        cases as with
        | nil => exact h₂
        | cons b bs => exact h₂.1
      refine ⟨hiff.mp hP, fun t ht => ?_⟩
      cases h₁.symm.trans ht
      exact (always_iff P hstep as s₁ s' hP h).mp h₂
    · rintro ⟨hok, hadm⟩
      refine ⟨hs, fun t ht => ?_⟩
      cases h₁.symm.trans ht
      exact (always_iff P hstep as s₁ s' (hiff.mpr hok) h).mpr (hadm s₁ h₁)

theorem always_iff_of_pre (P : σ → Prop) (pre : σ → α → Prop)
    (hstep : ∀ s a, P s → pre s a → ∃ s', step s a = some s' ∧ (P s' ↔ ok s a)) :
    ∀ (as : List α) (s : σ), P s → Admissible step pre s as →
      (Always step P s as ↔ Admissible step ok s as) ∧
        (Admissible step ok s as → ∃ s', exec step s as = some s' ∧ P s')
  | [], s, hs, _ => ⟨⟨fun _ => trivial, fun _ => hs⟩, fun _ => ⟨s, rfl, hs⟩⟩
  | a :: as, s, hs, hpre => by
    obtain ⟨s₁, h₁, hiff⟩ := hstep s a hs hpre.1
    have hrest := fun hP : P s₁ => always_iff_of_pre P pre hstep as s₁ hP (hpre.2 s₁ h₁)
    refine ⟨⟨fun ⟨_, hall⟩ => ?_, fun ⟨hok, hadm⟩ => ?_⟩, fun ⟨hok, hadm⟩ => ?_⟩
    · have h₂ := hall s₁ h₁
      have hP : P s₁ := by
        cases as with
        | nil => exact h₂
        | cons b bs => exact h₂.1
      refine ⟨hiff.mp hP, fun t ht => ?_⟩
      cases h₁.symm.trans ht
      exact (hrest hP).1.mp h₂
    · refine ⟨hs, fun t ht => ?_⟩
      cases h₁.symm.trans ht
      exact (hrest (hiff.mpr hok)).1.mpr (hadm s₁ h₁)
    · obtain ⟨s', h', hs'⟩ := (hrest (hiff.mpr hok)).2 (hadm s₁ h₁)
      exact ⟨s', by rw [exec_cons h₁, h'], hs'⟩

end

end Run
