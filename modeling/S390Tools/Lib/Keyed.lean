import Mathlib.Data.List.Basic
import Mathlib.Data.List.Nodup

/-!
# Lists of records found by a key

`get` returns the first record with a key, `modify` changes the first record with
a key in place and `obtain` appends a record unless its key is there. Changes that
leave the key alone can be looked at key by key.
-/

namespace Keyed

variable {α β κ : Type} [DecidableEq κ] (key : α → κ)

def get (k : κ) (l : List α) : Option α :=
  l.find? fun a => key a = k

@[grind =] def modify (k : κ) (f : α → α) : List α → List α
  | [] => []
  | a :: l => if key a = k then f a :: l else a :: modify k f l

def obtain (a : α) (l : List α) : List α :=
  if (get key (key a) l).isSome then l else l ++ [a]

/-! ## Finding a record -/

@[simp] theorem get_nil (k : κ) : get key k [] = none := rfl

theorem get_cons_self (a : α) (l : List α) : get key (key a) (a :: l) = some a := by
  simp [get]

theorem get_cons_of_ne {k : κ} {a : α} (h : key a ≠ k) (l : List α) : get key k (a :: l) = get key k l := by
  simp [get, h]

theorem key_of_get {k : κ} {l : List α} {a : α} (h : get key k l = some a) : key a = k := by
  simpa using List.find?_some h

theorem mem_of_get {k : κ} {l : List α} {a : α} (h : get key k l = some a) : a ∈ l :=
  List.mem_of_find?_eq_some h

theorem get_isSome (k : κ) (l : List α) : (get key k l).isSome ↔ k ∈ l.map key := by
  simp [get, List.find?_isSome]

theorem get_eq_none (k : κ) (l : List α) : get key k l = none ↔ k ∉ l.map key := by
  rw [← get_isSome key, Option.not_isSome_iff_eq_none]

theorem get_of_mem : ∀ {l : List α}, (l.map key).Nodup → ∀ {a}, a ∈ l → get key (key a) l = some a
  | b :: l, hn, a, ha => by
    rw [List.map_cons, List.nodup_cons] at hn
    rcases List.mem_cons.mp ha with rfl | ha
    · exact get_cons_self key a l
    · have hne : key b ≠ key a := fun e => hn.1 (e ▸ List.mem_map_of_mem ha)
      rw [get_cons_of_ne key hne]
      exact get_of_mem hn.2 ha

/-! ## Changing and adding records -/

section
variable {k : κ} {f : α → α} (hf : ∀ a, key (f a) = key a)

include hf in
theorem keys_modify : ∀ l : List α, (modify key k f l).map key = l.map key
  | [] => rfl
  | a :: l => by
    by_cases h : key a = k
    · simp [modify, h, hf]
    · simp [modify, h, keys_modify l]

include hf in
theorem get_modify_self : ∀ l : List α, get key k (modify key k f l) = (get key k l).map f
  | [] => rfl
  | a :: l => by
    by_cases h : key a = k
    · simp [modify, h, get, hf]
    · rw [modify, if_neg h, get_cons_of_ne key h, get_cons_of_ne key h]
      exact get_modify_self l

include hf in
theorem get_modify_of_ne {k' : κ} (hk : k ≠ k') : ∀ l : List α, get key k' (modify key k f l) = get key k' l
  | [] => rfl
  | a :: l => by
    by_cases h : key a = k
    · have ha : key a ≠ k' := h ▸ hk
      rw [modify, if_pos h, get_cons_of_ne key ha, get_cons_of_ne key ((hf a).trans_ne ha)]
    · rw [modify, if_neg h]
      by_cases ha : key a = k'
      · simp [get, ha]
      · rw [get_cons_of_ne key ha, get_cons_of_ne key ha]
        exact get_modify_of_ne hk l

end

theorem get_append_singleton (k : κ) (l : List α) (a : α) :
    get key k (l ++ [a]) = (get key k l).or (if key a = k then some a else none) := by
  rw [get, List.find?_append]
  by_cases h : key a = k <;> simp [get, h]

theorem keys_obtain (a : α) (l : List α) :
    (obtain key a l).map key = if key a ∈ l.map key then l.map key else l.map key ++ [key a] := by
  by_cases h : key a ∈ l.map key
  · rw [obtain, if_pos ((get_isSome key _ _).mpr h), if_pos h]
  · rw [obtain, if_neg (by rwa [get_isSome]), if_neg h, List.map_append]
    rfl

theorem get_obtain_self (a : α) (l : List α) : get key (key a) (obtain key a l) =
    some ((get key (key a) l).getD a) := by
  rw [obtain]
  cases h : get key (key a) l with
  | some b => simp [h]
  | none => simp [h, get_append_singleton]

theorem get_obtain_of_ne {k : κ} {a : α} (h : key a ≠ k) (l : List α) : get key k (obtain key a l) =
    get key k l := by
  rw [obtain]
  split
  · rfl
  · rw [get_append_singleton, if_neg h, Option.or_none]

/-! ## All records at once -/

theorem get_map {f : α → α} (hf : ∀ a, key (f a) = key a) (k : κ) (l : List α) :
    get key k (l.map f) = (get key k l).map f := by
  simp only [get, List.find?_map, Function.comp_def, hf]

theorem get_filter (p : α → Bool) (k : κ) : ∀ {l : List α}, (l.map key).Nodup →
    get key k (l.filter p) = (get key k l).filter p
  | [], _ => rfl
  | a :: l, hn => by
    rw [List.map_cons, List.nodup_cons] at hn
    have ih := get_filter p k hn.2
    by_cases h : key a = k
    · subst h
      have hl : get key (key a) l = none := (get_eq_none key _ _).mpr hn.1
      rw [get_cons_self, Option.filter_some]
      by_cases hp : p a = true
      · rw [List.filter_cons_of_pos hp, get_cons_self, if_pos hp]
      · rw [List.filter_cons_of_neg hp, ih, hl, if_neg hp]
        rfl
    · rw [get_cons_of_ne key h, ← ih]
      by_cases hp : p a = true
      · rw [List.filter_cons_of_pos hp, get_cons_of_ne key h]
      · rw [List.filter_cons_of_neg hp]

theorem forall_mem_iff {l : List α} (hn : (l.map key).Nodup) (P : α → Prop) :
    (∀ a ∈ l, P a) ↔ ∀ k a, get key k l = some a → P a := by
  constructor
  · intro h k a ha
    exact h a (mem_of_get key ha)
  · intro h a ha
    exact h (key a) a (get_of_mem key hn ha)

/-! ## Changing the record of a key or adding one -/

def upsert (k : κ) (new : α) (f : α → Option α) : List α → Option (List α)
  | [] => some [new]
  | a :: l => if key a = k then (f a).map (· :: l) else (upsert k new f l).map (a :: ·)

/-- Where `r` has a value for the record of `k`, `op` makes it the record of `k` and leaves the
records of other keys. -/
def At (k : κ) (r : Option α → Option α) (op : List α → Option (List α)) : Prop :=
  ∀ l, (l.map key).Nodup → ∀ a, r (get key k l) = some a → ∃ l', op l = some l' ∧ (l'.map key).Nodup ∧
    get key k l' = some a ∧ ∀ k', k' ≠ k → get key k' l' = get key k' l

theorem mem_keys_of_get_eq {l l' : List α} {k : κ} (h : get key k l' = get key k l) :
    k ∈ l'.map key ↔ k ∈ l.map key := by
  rw [← get_isSome, ← get_isSome, h]

theorem upsert_at {k : κ} {new : α} {f : α → Option α} (hnew : key new = k)
    (hf : ∀ a b, f a = some b → key b = key a) :
    At key k (fun o => o.elim (some new) f) (upsert key k new f) := by
  intro l
  induction l with
  | nil =>
    intro _ a ha
    cases ha
    refine ⟨[new], rfl, List.nodup_singleton _, hnew ▸ get_cons_self key new [], fun k' hk' => ?_⟩
    exact get_cons_of_ne key (by rw [hnew]; exact hk'.symm) []
  | cons b l ih =>
    intro hn a ha
    rw [List.map_cons, List.nodup_cons] at hn
    by_cases hb : key b = k
    · have hget : get key k (b :: l) = some b := hb ▸ get_cons_self key b l
      rw [hget] at ha
      have hka : key a = key b := hf b a ha
      refine ⟨a :: l, by rw [upsert, if_pos hb, show f b = some a from ha]; rfl, ?_, ?_, fun k' hk' => ?_⟩
      · rw [List.map_cons, hka]
        exact List.nodup_cons.mpr hn
      · exact (hka.trans hb) ▸ get_cons_self key a l
      · have hbk : key b ≠ k' := fun e => hk' (e.symm.trans hb)
        rw [get_cons_of_ne key hbk, get_cons_of_ne key (hka.trans_ne hbk)]
    · rw [get_cons_of_ne key hb] at ha
      obtain ⟨l', hl', hn', hself, hother⟩ := ih hn.2 a ha
      refine ⟨b :: l', by rw [upsert, if_neg hb, hl']; rfl, ?_, ?_, fun k' hk' => ?_⟩
      · rw [List.map_cons, List.nodup_cons]
        exact ⟨fun hmem => hn.1 ((mem_keys_of_get_eq key (hother _ hb)).mp hmem), hn'⟩
      · rw [get_cons_of_ne key hb, hself]
      · by_cases hbk : key b = k'
        · subst hbk
          rw [get_cons_self, get_cons_self]
        · rw [get_cons_of_ne key hbk, get_cons_of_ne key hbk, hother k' hk']

theorem isSome_of_upsert {k : κ} {new : α} {f : α → Option α} : ∀ {l l' : List α}, upsert key k new f l = some l' →
    ((get key k l).elim (some new) f).isSome
  | [], _, _ => rfl
  | a :: l, l', h => by
    rw [upsert] at h
    by_cases ha : key a = k
    · rw [if_pos ha] at h
      obtain ⟨b, hb, -⟩ := Option.map_eq_some_iff.mp h
      rw [← ha, get_cons_self, Option.elim_some, hb]
      rfl
    · rw [if_neg ha] at h
      obtain ⟨l₁, h₁, -⟩ := Option.map_eq_some_iff.mp h
      rw [get_cons_of_ne key ha]
      exact isSome_of_upsert h₁

theorem nodup_upsert {k : κ} {new : α} {f : α → Option α} (hnew : key new = k)
    (hf : ∀ a b, f a = some b → key b = key a) {l l' : List α} (hn : (l.map key).Nodup)
    (h : upsert key k new f l = some l') : (l'.map key).Nodup := by
  obtain ⟨a, ha⟩ := Option.isSome_iff_exists.mp (isSome_of_upsert key h)
  obtain ⟨l₁, h₁, hn₁, -⟩ := upsert_at key hnew hf l hn a ha
  cases h₁.symm.trans h
  exact hn₁

theorem foldlM_at {β : Type} {op : List α → β → Option (List α)} {kb : β → κ} {r : β → Option α → Option α} :
    ∀ {bs : List β}, (bs.map kb).Nodup → (∀ b ∈ bs, At key (kb b) (r b) (op · b)) →
      ∀ {l : List α}, (l.map key).Nodup → (∀ b ∈ bs, (r b (get key (kb b) l)).isSome) →
        ∃ l', bs.foldlM op l = some l' ∧ (l'.map key).Nodup ∧
          (∀ b ∈ bs, get key (kb b) l' = r b (get key (kb b) l)) ∧
          ∀ k, k ∉ bs.map kb → get key k l' = get key k l
  | [], _, _, l, hn, _ => ⟨l, rfl, hn, fun _ hb => absurd hb List.not_mem_nil, fun _ _ => rfl⟩
  | b :: bs, hbs, hat, l, hn, hr => by
    rw [List.map_cons, List.nodup_cons] at hbs
    obtain ⟨a, ha⟩ := Option.isSome_iff_exists.mp (hr b List.mem_cons_self)
    obtain ⟨l₁, h₁, hn₁, hself, hother⟩ := hat b List.mem_cons_self l hn a ha
    have hne : ∀ c ∈ bs, kb c ≠ kb b := fun c hc e => hbs.1 (e ▸ List.mem_map_of_mem hc)
    obtain ⟨l', h', hn', hall, hrest⟩ := foldlM_at hbs.2 (fun c hc => hat c (List.mem_cons_of_mem _ hc)) hn₁
      (fun c hc => by
        rw [hother _ (hne c hc)]
        exact hr c (List.mem_cons_of_mem _ hc))
    refine ⟨l', by rw [List.foldlM_cons, show op l b = some l₁ from h₁]; exact h', hn',
      fun c hc => ?_, fun k hk => ?_⟩
    · rcases List.mem_cons.mp hc with rfl | hc
      · rw [hrest _ hbs.1, hself, ha]
      · rw [hall c hc, hother _ (hne c hc)]
    · rw [List.map_cons, List.mem_cons, not_or] at hk
      rw [hrest k hk.2, hother k hk.1]

end Keyed
