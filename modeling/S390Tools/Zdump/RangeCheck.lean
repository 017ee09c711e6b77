import S390Tools.Zdump.MemoryRun

/-!
# The range check

`dfi_mem_range_valid` ends where the address and the length added wrap around to,
and every round takes the whole length again. What it answers for every range of
64-bit address and length, and when a read that it lets through stays in the
mapped memory.
-/

namespace Zdump.Memory

open Word

/-! ## Mapped addresses -/

section
variable (s : State)

def Mapped (a : Nat) : Prop := ∃ c ∈ s.mem_virt.chunk_list, mem_chunk_has_addr c a

instance (a : Nat) : Decidable (Mapped s a) := inferInstanceAs (Decidable (∃ c ∈ _, _))

def AllMapped (addr stop : Nat) : Prop := ∀ y, addr ≤ y → y < stop → Mapped s y

def Wrapped (addr len : Nat) : Prop := ∀ i < len, Mapped s (u64 (addr + i : Nat))

/-- The chunk that ends at the last address of all starts at `t`. -/
def Top (t : Nat) : Prop := ∃ c ∈ s.mem_virt.chunk_list, c.start = t ∧ c.stop = U64_MAX

instance (t : Nat) : Decidable (Top s t) := inferInstanceAs (Decidable (∃ c ∈ _, _))

def TopAt (addr : Nat) : Prop := ∃ t, Top s t ∧ t ≤ addr

def Overshoots (addr stop len : Nat) : Prop := ∃ t, Top s t ∧ addr ≤ t ∧ t < stop ∧ U64_MAX < t + len

def beyond (addr len : Nat) : Nat := addr + len - (U64_MAX + 1)

/-- What `dfi_mem_range_valid` is for. -/
def RangeMapped (addr len : Nat) : Prop := (len = 0 ∧ Mapped s addr) ∨ (0 < len ∧ AllMapped s addr (addr + len))

/-- The ranges for which `dfi_mem_range_valid` returns 1. -/
def Passes (addr len : Nat) : Prop :=
  Mapped s addr ∧
    if addr + len ≤ U64_MAX then AllMapped s addr (addr + len) ∧ ¬ Overshoots s addr (addr + len) len
    else addr + len = U64_MAX + 1 ∨ ¬ TopAt s addr ∨
      (AllMapped s 0 (beyond addr len) ∧ ¬ Overshoots s 0 (beyond addr len) len)

def Rejects (addr len : Nat) : Prop :=
  ¬ Mapped s addr ∨ (addr + len ≤ U64_MAX ∧ ¬ AllMapped s addr (addr + len)) ∨
    (U64_MAX + 1 < addr + len ∧ TopAt s addr ∧ ¬ AllMapped s 0 (beyond addr len))

def RangeRight (addr len : Nat) : Prop :=
  ¬ Mapped s addr ∨
    (addr + len ≤ U64_MAX ∧ ¬ (AllMapped s addr (addr + len) ∧ Overshoots s addr (addr + len) len)) ∨
    (addr + len = U64_MAX + 1 ∧ AllMapped s addr (addr + len)) ∨
    (U64_MAX + 1 < addr + len ∧ TopAt s addr ∧ ¬ AllMapped s 0 (beyond addr len))

/-- The ranges that it does not let through, or of which all that a read looks up is mapped. -/
def RcSafe (addr len : Nat) : Prop :=
  addr + len ≤ U64_MAX ∨ ¬ Mapped s addr ∨ TopAt s addr ∨ Wrapped s addr len

end

section
variable {s s' : State} {addr len stop : Nat}

theorem mapped_iff_shows {a : Nat} : Mapped s a ↔ ∃ p, Shows s a p :=
  ⟨fun ⟨c, hc, ha⟩ => ⟨_, c, hc, ha, rfl⟩, fun ⟨_, c, hc, ha, _⟩ => ⟨c, hc, ha⟩⟩

theorem Touched.mapped (h : Touched s s') {a : Nat} : Mapped s' a ↔ Mapped s a := by
  unfold Mapped
  rw [h.virt]

theorem Touched.allMapped (h : Touched s s') : AllMapped s' addr stop ↔ AllMapped s addr stop := by
  unfold AllMapped
  simp only [h.mapped]

theorem Touched.wrapped (h : Touched s s') : Wrapped s' addr len ↔ Wrapped s addr len := by
  unfold Wrapped
  simp only [h.mapped]

theorem Touched.top (h : Touched s s') {t : Nat} : Top s' t ↔ Top s t := by
  unfold Top
  rw [h.virt]

theorem Touched.topAt (h : Touched s s') : TopAt s' addr ↔ TopAt s addr := by
  unfold TopAt
  simp only [h.top]

theorem Touched.overshoots (h : Touched s s') : Overshoots s' addr stop len ↔ Overshoots s addr stop len := by
  unfold Overshoots
  simp only [h.top]

theorem Touched.passes (h : Touched s s') : Passes s' addr len ↔ Passes s addr len := by
  unfold Passes
  simp only [h.mapped, h.allMapped, h.overshoots, h.topAt]

theorem Touched.rcSafe (h : Touched s s') : RcSafe s' addr len ↔ RcSafe s addr len := by
  unfold RcSafe
  simp only [h.mapped, h.wrapped, h.topAt]

theorem Mapped.le (h : Inv s) {a : Nat} (ha : Mapped s a) : a ≤ U64_MAX := by
  obtain ⟨c, hc, hca⟩ := ha
  exact Nat.le_trans hca.2 (h.wf.virt_ok c hc).1.fits

theorem Top.allMapped (ht : Top s addr) : AllMapped s addr (U64_MAX + 1) := by
  intro y h₁ h₂
  obtain ⟨c, hc, rfl, hstop⟩ := ht
  exact ⟨c, hc, h₁, by omega⟩

theorem TopAt.allMapped (h : TopAt s addr) : AllMapped s addr (U64_MAX + 1) := by
  intro y h₁ h₂
  obtain ⟨t, ht, hle⟩ := h
  exact ht.allMapped y (Nat.le_trans hle h₁) h₂

theorem Top.cases (h : Inv s) {t a : Nat} (ht : Top s t) {c : Chunk} (hc : c ∈ s.mem_virt.chunk_list)
    (ha : mem_chunk_has_addr c a) : (c.start = t ∧ c.stop = U64_MAX) ∨ (c.stop < t ∧ a < t) := by
  obtain ⟨d, hd, rfl, hstop⟩ := ht
  by_cases hle : d.start ≤ c.stop
  · have hok := (h.wf.virt_ok c hc).1
    have h₁ := hok.fits
    rw [unique_of_disjoint h.wf.virt_disjoint hc hd ⟨Nat.le_trans ha.1 ha.2, Nat.le_refl _⟩ ⟨hle, by omega⟩]
    exact Or.inl ⟨rfl, hstop⟩
  · exact Or.inr ⟨by omega, by have := ha.2; omega⟩

/-! ## The rounds -/

section
variable {c : Chunk} {a : Nat}

theorem next_round (ha : mem_chunk_has_addr c a) (h : c.stop < U64_MAX ∨ a + len ≤ U64_MAX) :
    u64 ((a + min len (c.stop - a + 1) : Nat) : Int) = a + min len (c.stop - a + 1) := by
  have h₁ := ha.2
  unfold U64_MAX at h
  rw [u64_of_lt (by omega) (by omega)]
  rfl

theorem next_round_top (ha : mem_chunk_has_addr c a) (hstop : c.stop = U64_MAX) (h : U64_MAX < a + len) :
    u64 ((a + min len (c.stop - a + 1) : Nat) : Int) = 0 := by
  have h₁ := ha.2
  have h₂ : a + min len (c.stop - a + 1) = U64_MAX + 1 := by omega
  rw [h₂]
  rfl

end

theorem find_mapped_eq (h : Inv s) (hm : Mapped s addr) :
    ∃ c ∈ s.mem_virt.chunk_list, mem_chunk_has_addr c addr ∧
      ∃ s', dfi_mem_chunk_find addr s = .ok (some c, s') ∧ Touched s s' := by
  obtain ⟨c, s', heq, ht, hsome, hnone⟩ := chunk_find_eq h addr
  cases c with
  | none =>
    obtain ⟨p, hp⟩ := mapped_iff_shows.1 hm
    exact absurd hp (hnone rfl p)
  | some c =>
    obtain ⟨hc, ha⟩ := hsome c rfl
    exact ⟨c, hc, ha, s', heq, ht⟩

theorem find_unmapped_eq (h : Inv s) (hm : ¬ Mapped s addr) :
    ∃ s', dfi_mem_chunk_find addr s = .ok (none, s') ∧ Touched s s' := by
  obtain ⟨c, s', heq, ht, hsome, -⟩ := chunk_find_eq h addr
  cases c with
  | none => exact ⟨s', heq, ht⟩
  | some c =>
    obtain ⟨hc, ha⟩ := hsome c rfl
    exact absurd ⟨c, hc, ha⟩ hm

theorem round_eq (len stop : Nat) (h : Inv s) (hm : Mapped s addr) (fuel : Nat) :
    ∃ c ∈ s.mem_virt.chunk_list, mem_chunk_has_addr c addr ∧ ∃ s', Touched s s' ∧
      range_valid_loop len stop (fuel + 1) addr s =
        if u64 ((addr + min len (c.stop - addr + 1) : Nat) : Int) < stop then
          range_valid_loop len stop fuel (u64 ((addr + min len (c.stop - addr + 1) : Nat) : Int)) s'
        else .ok (true, s') := by
  obtain ⟨c, hc, ha, s', heq, ht⟩ := find_mapped_eq h hm
  refine ⟨c, hc, ha, s', ht, ?_⟩
  rw [range_valid_loop, heq]
  simp only [piece_size (h.wf.virt_ok c hc).1 ha]

theorem round_unmapped (len stop : Nat) (h : Inv s) (hm : ¬ Mapped s addr) (fuel : Nat) :
    ∃ s', range_valid_loop len stop (fuel + 1) addr s = .ok (false, s') ∧ Touched s s' := by
  obtain ⟨s', heq, ht⟩ := find_unmapped_eq h hm
  refine ⟨s', ?_, ht⟩
  rw [range_valid_loop, heq]

theorem loop_rejects (hlen : 0 < len) {y : Nat} (hy : y < stop) : ∀ (fuel addr : Nat) (s : State),
    Inv s → ¬ Mapped s y →
    y ≤ U64_MAX → addr ≤ y → y - addr < fuel →
    ∃ s', range_valid_loop len stop fuel addr s = .ok (false, s') ∧ Touched s s' := by
  intro fuel
  induction fuel with
  | zero => intro addr s _ _ _ _ hf; omega
  | succ fuel ih =>
    intro addr s h hno hmax hle hf
    by_cases hm : Mapped s addr
    · obtain ⟨c, hc, ha, s₁, ht, heq⟩ := round_eq len stop h hm fuel
      have hbelow : c.stop < y := by
        by_contra hge
        exact hno ⟨c, hc, Nat.le_trans ha.1 hle, by omega⟩
      have h₁ := ha.2
      rw [heq, next_round ha (Or.inl (by omega)), if_pos (by omega)]
      obtain ⟨s₂, heq₂, ht₂⟩ := ih (addr + min len (c.stop - addr + 1)) s₁ ht.inv (fun hn => hno (ht.mapped.mp hn))
        hmax (by omega) (by omega)
      exact ⟨s₂, heq₂, ht.trans ht₂⟩
    · exact round_unmapped len stop h hm fuel

theorem loop_passes (hmax : stop ≤ U64_MAX) : ∀ (fuel addr : Nat) (s : State), Inv s → addr < stop →
    stop ≤ addr + len →
    AllMapped s addr stop → (∀ t, Top s t → t < stop → max addr t + len ≤ U64_MAX) → stop - addr < fuel →
    ∃ s', range_valid_loop len stop fuel addr s = .ok (true, s') ∧ Touched s s' := by
  intro fuel
  induction fuel with
  | zero => intro addr s _ _ _ _ _ hf; omega
  | succ fuel ih =>
    intro addr s h hlt hlen hall htop hf
    obtain ⟨c, hc, ha, s₁, ht, heq⟩ := round_eq len stop h (hall addr (Nat.le_refl _) hlt) fuel
    have h₁ := ha.1
    have h₂ := ha.2
    have hfits := (h.wf.virt_ok c hc).1.fits
    have hnext : c.stop < U64_MAX ∨ addr + len ≤ U64_MAX := by
      by_contra hn
      have := htop c.start ⟨c, hc, rfl, by omega⟩ (by omega)
      omega
    rw [heq, next_round ha hnext]
    by_cases hmore : addr + min len (c.stop - addr + 1) < stop
    · rw [if_pos hmore]
      have hn : addr + min len (c.stop - addr + 1) = c.stop + 1 := by omega
      rw [hn] at hmore ⊢
      obtain ⟨s₂, heq₂, ht₂⟩ := ih (c.stop + 1) s₁ ht.inv hmore (by omega)
        (ht.allMapped.mpr fun y hy₁ hy₂ => hall y (by omega) hy₂)
        (fun t hmt hts => by
          rw [ht.top] at hmt
          have := htop t hmt hts
          rcases hmt.cases h hc ha with ⟨rfl, hstop⟩ | ⟨hlt', -⟩
          · omega
          · omega) (by omega)
      exact ⟨s₂, heq₂, ht.trans ht₂⟩
    · rw [if_neg hmore]
      exact ⟨s₁, rfl, ht⟩

theorem loop_overshoots {t : Nat} (hts : t < stop) (hlen : U64_MAX < t + len) : ∀ (fuel addr : Nat)
    (s : State), Inv s →
    Top s t → addr ≤ t → ∀ s', range_valid_loop len stop fuel addr s ≠ .ok (true, s') := by
  intro fuel
  induction fuel with
  | zero => intro addr s _ _ _ s' heq; cases heq
  | succ fuel ih =>
    intro addr s h htop hle s' heq
    by_cases hm : Mapped s addr
    · obtain ⟨c, hc, ha, s₁, ht, hround⟩ := round_eq len stop h hm fuel
      have h₁ := ha.1
      have h₂ := ha.2
      rw [hround] at heq
      rcases htop.cases h hc ha with ⟨hstart, hstop⟩ | ⟨hstop, -⟩
      · rw [next_round_top ha hstop (by omega), if_pos (by omega)] at heq
        exact ih 0 s₁ ht.inv (ht.top.mpr htop) (Nat.zero_le t) s' heq
      · have hlast : t ≤ U64_MAX := by
          obtain ⟨d, hd, rfl, hd'⟩ := htop
          have := (h.wf.virt_ok d hd).1.stop
          have := (h.wf.virt_ok d hd).1.pos
          omega
        rw [next_round ha (Or.inl (by omega)), if_pos (by omega)] at heq
        exact ih _ s₁ ht.inv (ht.top.mpr htop) (by omega) s' heq
    · obtain ⟨s₁, hround, -⟩ := round_unmapped len stop h hm fuel
      rw [hround] at heq
      cases heq

theorem loop_not_rejects : ∀ (fuel addr : Nat) (s : State), Inv s → AllMapped s 0 stop → addr < stop →
    ∀ s', range_valid_loop len stop fuel addr s ≠ .ok (false, s') := by
  intro fuel
  induction fuel with
  | zero => intro addr s _ _ _ s' heq; cases heq
  | succ fuel ih =>
    intro addr s h hall hlt s' heq
    obtain ⟨c, -, -, s₁, ht, hround⟩ := round_eq len stop h (hall addr (Nat.zero_le addr) hlt) fuel
    rw [hround] at heq
    by_cases hmore : u64 ((addr + min len (c.stop - addr + 1) : Nat) : Int) < stop
    · rw [if_pos hmore] at heq
      exact ih _ s₁ ht.inv (ht.allMapped.mpr hall) hmore s' heq
    · rw [if_neg hmore] at heq
      cases heq

theorem loop_outcome (len stop : Nat) : ∀ (fuel addr : Nat) (s : State), Inv s →
    range_valid_loop len stop fuel addr s = .error .endless ∨
      ∃ b s', range_valid_loop len stop fuel addr s = .ok (b, s') ∧ Touched s s' := by
  intro fuel
  induction fuel with
  | zero => intro addr s _; exact Or.inl rfl
  | succ fuel ih =>
    intro addr s h
    by_cases hm : Mapped s addr
    · obtain ⟨c, -, -, s₁, ht, hround⟩ := round_eq len stop h hm fuel
      rw [hround]
      by_cases hmore : u64 ((addr + min len (c.stop - addr + 1) : Nat) : Int) < stop
      · rw [if_pos hmore]
        rcases ih (u64 ((addr + min len (c.stop - addr + 1) : Nat) : Int)) s₁ ht.inv with hend | ⟨b, s₂, heq, ht₂⟩
        · exact Or.inl hend
        · exact Or.inr ⟨b, s₂, heq, ht.trans ht₂⟩
      · rw [if_neg hmore]
        exact Or.inr ⟨true, s₁, rfl, ht⟩
    · obtain ⟨s₁, hround, ht⟩ := round_unmapped len stop h hm fuel
      exact Or.inr ⟨false, s₁, hround, ht⟩

/-! ## The answer -/

theorem RangeMapped.all (h : RangeMapped s addr len) : AllMapped s addr (addr + len) := by
  rcases h with ⟨h0, -⟩ | ⟨-, hall⟩
  · intro y h₁ h₂
    omega
  · exact hall

theorem AllMapped.range (hm : Mapped s addr) (hall : AllMapped s addr (addr + len)) : RangeMapped s addr len := by
  by_cases h0 : len = 0
  · exact Or.inl ⟨h0, hm⟩
  · exact Or.inr ⟨Nat.pos_of_ne_zero h0, hall⟩

theorem RangeMapped.mapped (h : RangeMapped s addr len) : Mapped s addr := by
  rcases h with ⟨-, hm⟩ | ⟨hpos, hall⟩
  · exact hm
  · exact hall addr (Nat.le_refl _) (by omega)

theorem u64_wrapped (h : U64_MAX < addr + len) (ha : addr ≤ U64_MAX) (hl : len ≤ U64_MAX) :
    u64 ((addr + len : Nat) : Int) = beyond addr len := by
  unfold beyond
  unfold U64_MAX at *
  unfold u64
  omega

theorem u64_not_wrapped (h : addr + len ≤ U64_MAX) : u64 ((addr + len : Nat) : Int) = addr + len := by
  unfold U64_MAX at h
  rw [u64_of_lt (by omega) (by omega)]
  rfl

theorem wrapped_of_all (h : Inv s) (hall : AllMapped s addr (addr + len)) : Wrapped s addr len := by
  intro i hi
  have hm := hall (addr + i) (by omega) (by omega)
  rw [u64_not_wrapped (hm.le h)]
  exact hm

theorem wrapped_of_beyond (ha : addr ≤ U64_MAX) (hlen : len ≤ U64_MAX) (htop : TopAt s addr)
    (hall : AllMapped s 0 (beyond addr len)) : Wrapped s addr len := by
  intro i hi
  by_cases hle : addr + i ≤ U64_MAX
  · rw [u64_not_wrapped hle]
    exact htop.allMapped (addr + i) (by omega) (by omega)
  · rw [u64_wrapped (by omega) ha (by omega)]
    exact hall _ (Nat.zero_le _) (by unfold beyond; omega)

section
variable (h : Inv s) (hm : Mapped s addr) (hl : len ≤ U64_MAX) (hw : U64_MAX < addr + len)
include h hm hl hw

theorem first_round_below (hno : ¬ TopAt s addr) :
    ∃ s', dfi_mem_range_valid addr len s = .ok (true, s') ∧ Touched s s' := by
  obtain ⟨c, hc, ha, s', ht, heq⟩ := round_eq len (beyond addr len) h hm (2 * U64_MAX + 1)
  have h₁ := ha.1
  have h₂ := ha.2
  have hfits := (h.wf.virt_ok c hc).1.fits
  have hstop : c.stop < U64_MAX := by
    by_contra hge
    exact hno ⟨c.start, ⟨c, hc, rfl, by omega⟩, h₁⟩
  refine ⟨s', ?_, ht⟩
  unfold dfi_mem_range_valid
  rw [u64_wrapped hw (hm.le h) hl, heq, next_round ha (Or.inl hstop), if_neg (by unfold beyond; omega)]

theorem first_round_top (htop : TopAt s addr) :
    ∃ s', Touched s s' ∧ dfi_mem_range_valid addr len s =
      if 0 < beyond addr len then range_valid_loop len (beyond addr len)
        (2 * U64_MAX + 1) 0 s' else .ok (true, s') := by
  obtain ⟨c, hc, ha, s', ht, heq⟩ := round_eq len (beyond addr len) h hm (2 * U64_MAX + 1)
  obtain ⟨t, htt, hle⟩ := htop
  have hstop : c.stop = U64_MAX := by
    rcases htt.cases h hc ha with ⟨-, hstop⟩ | ⟨-, hlt⟩
    · exact hstop
    · omega
  refine ⟨s', ht, ?_⟩
  unfold dfi_mem_range_valid
  rw [u64_wrapped hw (hm.le h) hl, heq, next_round_top ha hstop hw]

end

section
variable (h : Inv s) (hl : len ≤ U64_MAX)
include h hl

theorem beyond_lt (hm : Mapped s addr) (hw : U64_MAX + 1 < addr + len) :
    0 < beyond addr len ∧ beyond addr len ≤ U64_MAX ∧ beyond addr len < len ∧ beyond addr len ≤ addr := by
  have hle := hm.le h
  unfold beyond
  omega

theorem rejects_eq (hr : Rejects s addr len) : ∃ s', dfi_mem_range_valid addr len s =
    .ok (false, s') ∧ Touched s s' := by
  by_cases hm : Mapped s addr
  · rcases hr with hno | ⟨hfit, hno⟩ | ⟨hw, htop, hno⟩
    · exact absurd hm hno
    · unfold AllMapped at hno
      push Not at hno
      obtain ⟨y, h₁, h₂, hy⟩ := hno
      unfold dfi_mem_range_valid
      rw [u64_not_wrapped hfit]
      exact loop_rejects (by omega) h₂ _ addr s h hy (by omega) h₁ (by omega)
    · unfold AllMapped at hno
      push Not at hno
      obtain ⟨y, -, h₂, hy⟩ := hno
      obtain ⟨hpos, hmax, hlen, -⟩ := beyond_lt h hl hm hw
      obtain ⟨s₁, ht, heq⟩ := first_round_top h hm hl (by omega) htop
      obtain ⟨s₂, heq₂, ht₂⟩ := @loop_rejects len (beyond addr len) (by omega) y h₂ (2 * U64_MAX + 1) 0 s₁ ht.inv
        (fun hn => hy (ht.mapped.mp hn)) (by omega) (Nat.zero_le y) (by omega)
      rw [heq, if_pos hpos]
      exact ⟨s₂, heq₂, ht.trans ht₂⟩
  · exact round_unmapped len (u64 ((addr + len : Nat) : Int)) h hm (2 * U64_MAX + 1)

theorem passes_eq (hp : Passes s addr len) : ∃ s', dfi_mem_range_valid addr len s = .ok (true, s') ∧
    Touched s s' := by
  obtain ⟨hm, hp⟩ := hp
  by_cases hfit : addr + len ≤ U64_MAX
  · rw [if_pos hfit] at hp
    obtain ⟨hall, hno⟩ := hp
    unfold dfi_mem_range_valid
    rw [u64_not_wrapped hfit]
    by_cases h0 : len = 0
    · -- the only round stays where it is
      obtain ⟨c, hc, ha, s', ht, heq⟩ := round_eq len (addr + len) h hm (2 * U64_MAX + 1)
      refine ⟨s', ?_, ht⟩
      rw [heq, next_round ha (Or.inr hfit), if_neg (by omega)]
    · refine loop_passes hfit _ addr s h (by omega) (Nat.le_refl _) hall (fun t ht hts => ?_) (by omega)
      by_contra hover
      exact hno ⟨t, ht, by omega, hts, by omega⟩
  · rw [if_neg hfit] at hp
    by_cases htop : TopAt s addr
    · obtain ⟨s₁, ht, heq⟩ := first_round_top h hm hl (by omega) htop
      by_cases hend : addr + len = U64_MAX + 1
      · have hb : beyond addr len = 0 := by unfold beyond; omega
        rw [heq, if_neg (by omega)]
        exact ⟨s₁, rfl, ht⟩
      · obtain ⟨hall, hno⟩ := (hp.resolve_left hend).resolve_left fun hn => hn htop
        obtain ⟨hpos, hmax, hlen, -⟩ := beyond_lt h hl hm (by omega)
        rw [heq, if_pos hpos]
        obtain ⟨s₂, heq₂, ht₂⟩ := @loop_passes len (beyond addr len) hmax (2 * U64_MAX + 1)
          0 s₁ ht.inv hpos (by omega) (ht.allMapped.mpr hall)
          (fun t htt hts => by
            by_contra hover
            exact hno ⟨t, ht.top.mp htt, Nat.zero_le t, hts, by omega⟩) (by omega)
        exact ⟨s₂, heq₂, ht.trans ht₂⟩
    · exact first_round_below h hm hl (by omega) htop

theorem not_passes (hp : ¬ Passes s addr len) : ∀ s', dfi_mem_range_valid addr len s ≠ .ok (true, s') := by
  intro s' heq
  by_cases hr : Rejects s addr len
  · obtain ⟨s₁, heq₁, -⟩ := rejects_eq h hl hr
    rw [heq] at heq₁
    cases heq₁
  · unfold Rejects at hr
    push Not at hr
    obtain ⟨hm, hfit, hwrap⟩ := hr
    unfold Passes at hp
    by_cases hle : addr + len ≤ U64_MAX
    · rw [if_pos hle] at hp
      have hover : Overshoots s addr (addr + len) len := by
        by_contra hno
        exact hp ⟨hm, hfit hle, hno⟩
      obtain ⟨t, htop, h₁, h₂, h₃⟩ := hover
      unfold dfi_mem_range_valid at heq
      rw [u64_not_wrapped hle] at heq
      exact loop_overshoots h₂ h₃ _ addr s h htop h₁ s' heq
    · rw [if_neg hle] at hp
      push Not at hp
      obtain ⟨hend, htop, hover⟩ := hp hm
      obtain ⟨hpos, -⟩ := beyond_lt h hl hm (by omega)
      obtain ⟨t, ht, h₁, h₂, h₃⟩ := hover (hwrap (by omega) htop)
      obtain ⟨s₁, htou, hround⟩ := first_round_top h hm hl (by omega) htop
      rw [hround, if_pos hpos] at heq
      exact loop_overshoots h₂ h₃ _ 0 s₁ htou.inv (htou.top.mpr ht) h₁ s' heq

theorem range_right_iff :
    (∃ b s', dfi_mem_range_valid addr len s = .ok (b, s') ∧ (b = true ↔ RangeMapped s addr len)) ↔
      RangeRight s addr len := by
  constructor
  · rintro ⟨b, s', heq, hb⟩
    by_cases hm : Mapped s addr
    · by_cases hp : Passes s addr len
      · -- it returns 1
        obtain ⟨s₁, heq₁, -⟩ := passes_eq h hl hp
        rw [heq] at heq₁
        cases heq₁
        have hall := (hb.mp rfl).all
        by_cases hfit : addr + len ≤ U64_MAX
        · have hno := hp.2
          rw [if_pos hfit] at hno
          exact Or.inr (Or.inl ⟨hfit, fun hover => hno.2 hover.2⟩)
        · refine Or.inr (Or.inr (Or.inl ⟨?_, hall⟩))
          have := (hall (addr + len - 1) (by have := hm.le h; omega) (by omega)).le h
          omega
      · -- it returns 0
        have hfalse : b = false := by
          cases b with
          | false => rfl
          | true => exact absurd heq (not_passes h hl hp s')
        rw [hfalse] at heq hb
        by_cases hfit : addr + len ≤ U64_MAX
        · exact Or.inr (Or.inl ⟨hfit, fun hover => Bool.false_ne_true (hb.mpr (hover.1.range hm))⟩)
        · unfold Passes at hp
          rw [if_neg hfit] at hp
          push Not at hp
          obtain ⟨hend, htop, -⟩ := hp hm
          refine Or.inr (Or.inr (Or.inr ⟨by omega, htop, fun hall => ?_⟩))
          obtain ⟨hpos, -⟩ := beyond_lt h hl hm (by omega)
          obtain ⟨s₁, ht, hround⟩ := first_round_top h hm hl (by omega) htop
          rw [hround, if_pos hpos] at heq
          exact loop_not_rejects _ 0 s₁ ht.inv (ht.allMapped.mpr hall) hpos s' heq
    · exact Or.inl hm
  · intro hr
    have hrejects : Rejects s addr len → ¬ RangeMapped s addr len →
        ∃ b s', dfi_mem_range_valid addr len s = .ok (b, s') ∧ (b = true ↔ RangeMapped s addr len) := by
      intro hrej hno
      obtain ⟨s', heq, -⟩ := rejects_eq h hl hrej
      exact ⟨false, s', heq, iff_of_false Bool.false_ne_true hno⟩
    have hpasses : Passes s addr len → RangeMapped s addr len →
        ∃ b s', dfi_mem_range_valid addr len s = .ok (b, s') ∧ (b = true ↔ RangeMapped s addr len) := by
      intro hp hyes
      obtain ⟨s', heq, -⟩ := passes_eq h hl hp
      exact ⟨true, s', heq, iff_of_true rfl hyes⟩
    by_cases hm : Mapped s addr
    · have hle := hm.le h
      rcases hr with hno | ⟨hfit, hno⟩ | ⟨hend, hall⟩ | ⟨hw, htop, hno⟩
      · exact absurd hm hno
      · by_cases hall : AllMapped s addr (addr + len)
        · refine hpasses ⟨hm, ?_⟩ (hall.range hm)
          rw [if_pos hfit]
          exact ⟨hall, fun hover => hno ⟨hall, hover⟩⟩
        · exact hrejects (Or.inr (Or.inl ⟨hfit, hall⟩)) fun hyes => hall hyes.all
      · refine hpasses ⟨hm, ?_⟩ (hall.range hm)
        rw [if_neg (by omega)]
        exact Or.inl hend
      · refine hrejects (Or.inr (Or.inr ⟨hw, htop, hno⟩)) fun hyes => ?_
        have := (hyes.all (addr + len - 1) (by omega) (by omega)).le h
        omega
    · exact hrejects (Or.inl hm) fun hyes => hm hyes.mapped

theorem rcSafe_iff : RcSafe s addr len ↔ (Passes s addr len → Wrapped s addr len) := by
  constructor
  · rintro hsafe ⟨hm, hp⟩
    have hle := hm.le h
    by_cases hfit : addr + len ≤ U64_MAX
    · rw [if_pos hfit] at hp
      exact wrapped_of_all h hp.1
    · rw [if_neg hfit] at hp
      rcases hsafe with hn | hn | htop | hw
      · exact absurd hn hfit
      · exact absurd hm hn
      · refine wrapped_of_beyond hle hl htop ?_
        rcases hp with hend | hno | ⟨hall, -⟩
        · intro y _ hy
          unfold beyond at hy
          omega
        · exact absurd htop hno
        · exact hall
      · exact hw
  · intro himp
    by_cases hfit : addr + len ≤ U64_MAX
    · exact Or.inl hfit
    · by_cases hm : Mapped s addr
      · by_cases htop : TopAt s addr
        · exact Or.inr (Or.inr (Or.inl htop))
        · refine Or.inr (Or.inr (Or.inr (himp ⟨hm, ?_⟩)))
          rw [if_neg hfit]
          exact Or.inr (Or.inl htop)
      · exact Or.inr (Or.inl hm)

end

end

end Zdump.Memory
