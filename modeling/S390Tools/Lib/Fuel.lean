import Mathlib

/-!
# Computations bounded by fuel

A recursion with fuel is a chain of computations with state and errors; `out` is the
error of a run that has no fuel left. An ascending chain agrees in each state with
its limit from some number on, and the limit runs out exactly where all of the chain
does.
-/

namespace Fuel

open Filter

variable {σ ε α β : Type}

theorem bind_apply (x : StateT σ (Except ε) α) (f : α → StateT σ (Except ε) β) (s : σ) :
    (x >>= f) s = match x s with
      | .error e => .error e
      | .ok (a, s') => f a s' := by
  show (x s >>= fun p => f p.1 p.2) = _
  cases x s <;> rfl

theorem bind_ok {x : StateT σ (Except ε) α} {f : α → StateT σ (Except ε) β} {s s' : σ} {b : β}
    (h : (x >>= f) s = .ok (b, s')) : ∃ a s₁, x s = .ok (a, s₁) ∧ f a s₁ = .ok (b, s') := by
  rw [bind_apply] at h
  cases hx : x s with
  | error e =>
    rw [hx] at h
    cases h
  | ok p =>
    rw [hx] at h
    exact ⟨p.1, p.2, rfl, h⟩

/-! ## Chains -/

section
variable (out : ε)

/-- `x` agrees with `y` where it does not run out. -/
def Below (x y : StateT σ (Except ε) α) : Prop := ∀ s, x s = .error out ∨ x s = y s

def Ascending (X : Nat → StateT σ (Except ε) α) : Prop := ∀ n, Below out (X n) (X (n + 1))

open Classical in
noncomputable def limit (X : Nat → StateT σ (Except ε) α) : StateT σ (Except ε) α := fun s =>
  if h : ∃ n, X n s ≠ .error out then X h.choose s else .error out

end

/-- In each state the chain becomes `x`. -/
def Tends (X : Nat → StateT σ (Except ε) α) (x : StateT σ (Except ε) α) : Prop := ∀ s, ∀ᶠ n in atTop, X n s = x s

section
variable {out : ε} {x y z : StateT σ (Except ε) α} {X Y : Nat → StateT σ (Except ε) α}

theorem Below.refl (x : StateT σ (Except ε) α) : Below out x x := fun _ => .inr rfl

theorem Below.trans (h : Below out x y) (h' : Below out y z) : Below out x z := fun s => by
  rcases h s with h | h
  · exact .inl h
  · rw [h]
    exact h' s

theorem Below.error : Below out (fun _ => .error out) x := fun _ => .inl rfl

theorem Below.bind {f g : α → StateT σ (Except ε) β} (h : Below out x y) (hf : ∀ a, Below out (f a) (g a)) :
    Below out (x >>= f) (y >>= g) := fun s => by
  rw [bind_apply, bind_apply]
  rcases h s with h | h
  · rw [h]
    exact .inl rfl
  · rw [h]
    cases y s with
    | error e => exact .inr rfl
    | ok p => exact hf p.1 p.2

theorem Below.eq (h : Below out x y) {s : σ} (hs : x s ≠ .error out) : x s = y s := (h s).resolve_left hs

theorem Ascending.le (h : Ascending out X) {m n : Nat} (hmn : m ≤ n) : Below out (X m) (X n) := by
  induction hmn with
  | refl => exact .refl _
  | step _ ih => exact ih.trans (h _)

theorem Ascending.below_limit (h : Ascending out X) (n : Nat) : Below out (X n) (limit out X) := fun s => by
  by_cases hn : X n s = .error out
  · exact .inl hn
  right
  have hex : ∃ n, X n s ≠ .error out := ⟨n, hn⟩
  rw [limit, dif_pos hex]
  rcases Nat.le_total n hex.choose with hle | hle
  · exact (h.le hle).eq hn
  · exact ((h.le hle).eq hex.choose_spec).symm

theorem Ascending.tends (h : Ascending out X) : Tends X (limit out X) := fun s => by
  by_cases hex : ∃ n, X n s ≠ .error out
  · obtain ⟨n, hn⟩ := hex
    refine eventually_atTop.mpr ⟨n, fun m hm => ?_⟩
    have hm : X m s ≠ .error out := by
      rw [← (h.le hm).eq hn]
      exact hn
    exact (h.below_limit m).eq hm
  · refine .of_forall fun n => ?_
    rw [limit, dif_neg hex]
    by_contra hn
    exact hex ⟨n, hn⟩

theorem limit_eq_error {s : σ} : limit out X s = .error out ↔ ∀ n, X n s = .error out := by
  rw [limit]
  by_cases hex : ∃ n, X n s ≠ .error out
  · rw [dif_pos hex]
    exact ⟨fun h => absurd h hex.choose_spec, fun h => absurd (h _) hex.choose_spec⟩
  · rw [dif_neg hex]
    exact ⟨fun _ n => by_contra fun hn => hex ⟨n, hn⟩, fun _ => rfl⟩

theorem Tends.const (x : StateT σ (Except ε) α) : Tends (fun _ => x) x := fun _ => .of_forall fun _ => rfl

theorem Tends.bind {F : Nat → α → StateT σ (Except ε) β} {f : α → StateT σ (Except ε) β} (h : Tends X x)
    (hf : ∀ a, Tends (fun n => F n a) (f a)) : Tends (fun n => X n >>= F n) (x >>= f) := fun s => by
  cases hx : x s with
  | error e =>
    filter_upwards [h s] with n hn
    rw [bind_apply, bind_apply, hn, hx]
  | ok p =>
    filter_upwards [h s, hf p.1 p.2] with n hn hfn
    rw [bind_apply, bind_apply, hn, hx]
    exact hfn

theorem Tends.unique (h : Tends X x) (h' : Tends X y) : x = y := by
  funext s
  obtain ⟨n, hn, hn'⟩ := ((h s).and (h' s)).exists
  exact hn.symm.trans hn'

theorem Tends.shift (h : Tends X x) : Tends (fun n => X (n + 1)) x := fun s =>
  (tendsto_add_atTop_nat 1).eventually (h s)

theorem Tends.between (h : Tends X x) (hl : ∀ n, Below out (X n) (Y n)) (hu : ∀ n, Below out (Y n) (X (n + 1))) :
    Tends Y x := fun s => by
  filter_upwards [h s, h.shift s] with n hn hn'
  rcases hl n s with h₁ | h₁
  · rcases hu n s with h₂ | h₂
    · rw [h₂, ← hn, h₁]
    · rw [h₂, hn']
  · rw [← h₁, hn]

end

end Fuel
