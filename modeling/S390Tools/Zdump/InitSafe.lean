import S390Tools.Zdump.InitReads

/-!
# Which dumps are initialised without a read outside of them

For each function of the initialisation, the exact condition on the memory map and
the contents of the dump under which it looks up no address that is not mapped.
-/

namespace Zdump.Memory

open Word

/-! ## The reads of the os_info block -/

section
variable (s : State)

def word_at (addr : Nat) : Nat := word (bytes s addr 8)

def OsInfoSafe : Prop :=
  Wrapped s LC_OS_INFO 8 ∧ (word_at s LC_OS_INFO % 0x1000 = 0 → RcSafe s (word_at s LC_OS_INFO) 4096)

/-- The block that `os_info_get` finds. -/
def OsInfo ( zg_csum_partial : List UInt8 → Nat) (b : List UInt8) : Prop :=
  word_at s LC_OS_INFO % 0x1000 = 0 ∧ Passes s (word_at s LC_OS_INFO) 4096 ∧
    b = bytes s (word_at s LC_OS_INFO) 4096 ∧
    os_info_ok zg_csum_partial b = true

/-- The reads for the note at `addr`, of which each but the last finds out where the next one goes. -/
def NoteSafe (addr : Nat) : Prop :=
  RcSafe s addr 12 ∧ (Passes s addr 12 →
    RcSafe s (u64 (addr + 12 : Nat)) (field (bytes s addr 12) 0 4) ∧
      (Passes s (u64 (addr + 12 : Nat)) (field (bytes s addr 12) 0 4) →
        is_vmcoreinfo (bytes s (u64 (addr + 12 : Nat)) (field (bytes s addr 12) 0 4)) = true →
          RcSafe s (u64 (addr + 24 : Nat)) (field (bytes s addr 12) 4 4)))

def VmcoreinfoSafe ( zg_csum_partial : List UInt8 → Nat) : Prop :=
  OsInfoSafe s ∧
    (∀ b, OsInfo s zg_csum_partial b → ∀ r, vmcoreinfo_range b = some r → RcSafe s r.1 r.2) ∧
    ((∀ b, OsInfo s zg_csum_partial b → vmcoreinfo_range b = none) →
      Wrapped s LC_VMCORE_INFO 8 ∧ (word_at s LC_VMCORE_INFO ≠ 0 → NoteSafe s (word_at s LC_VMCORE_INFO)))

/-- The reads for a CPU whose registers are taken from the lowcore. -/
def LcSafe (arch : DfiArch) (lc_addr : UInt32) : Prop :=
  if arch = .arch_32 then Wrapped s lc_addr.toNat 0x1000
  else Wrapped s lc_addr.toNat 0x2000 ∧
    (has_vx_sa (field (bytes s lc_addr.toNat 0x2000) 0x11b0 8) = true →
      Wrapped s (field (bytes s lc_addr.toNat 0x2000) 0x11b0 8) DFI_VX_SA_SIZE)

end

theorem word_append (b : List UInt8) (x : UInt8) : word (b ++ [x]) = 256 * word b + x.toNat := by
  unfold word
  rw [List.foldl_append]
  rfl

theorem word_lt_pow (b : List UInt8) : word b < 256 ^ b.length := by
  induction b using List.reverseRecOn with
  | nil => decide
  | append_singleton b x ih =>
    have hx := x.toNat_lt
    rw [word_append, List.length_append, List.length_singleton, Nat.pow_succ]
    omega

theorem word_at_le (s : State) (addr : Nat) : word_at s addr ≤ U64_MAX := by
  have h := word_lt_pow (bytes s addr 8)
  have hlen : (bytes s addr 8).length = 8 := by
    unfold bytes
    rw [List.length_map, List.length_range]
  rw [hlen] at h
  unfold word_at U64_MAX
  omega

theorem field_le (b : List UInt8) (off : Nat) {size : Nat} (h : size ≤ 8) : field b off size ≤ U64_MAX := by
  have hw := word_lt_pow ((b.drop off).take size)
  have hlen : ((b.drop off).take size).length ≤ 8 := Nat.le_trans (List.length_take_le ..) h
  have hpow := Nat.pow_le_pow_right (show 256 > 0 by decide) hlen
  unfold field U64_MAX
  omega

theorem page_rejects {s : State} {addr : Nat} (ha : addr ≤ U64_MAX) (hpage : addr % 0x1000 = 0)
    (hp : ¬ Passes s addr 4096) :
    Rejects s addr 4096 := by
  by_cases hm : Mapped s addr
  · unfold Passes at hp
    by_cases hfit : addr + 4096 ≤ U64_MAX
    · rw [if_pos hfit] at hp
      refine Or.inr (Or.inl ⟨hfit, fun hall => hp ⟨hm, hall, ?_⟩⟩)
      rintro ⟨t, -, -, h₂, h₃⟩
      unfold U64_MAX at *
      omega
    · rw [if_neg hfit] at hp
      exact absurd ⟨hm, Or.inl (by unfold U64_MAX at *; omega)⟩ hp
  · exact Or.inl hm

section
variable {s : State} (h : Inv s)
include h

theorem read_rc_rejects {addr cnt : Nat} (hl : cnt ≤ U64_MAX) (hr : Rejects s addr cnt) :
    ∃ s', dfi_mem_read_rc addr cnt s = .ok (none, s') ∧ Touched s s' := by
  obtain ⟨s', heq, ht⟩ := rejects_eq h hl hr
  refine ⟨s', ?_, ht⟩
  unfold dfi_mem_read_rc
  rw [heq]
  rfl

variable ( zg_csum_partial : List UInt8 → Nat)

theorem os_info_get_fails (hno : ¬ OsInfoSafe s) : os_info_get zg_csum_partial s = .error .null_chunk := by
  unfold os_info_get
  by_cases hw : Wrapped s LC_OS_INFO 8
  · obtain ⟨s₁, heq, ht⟩ := mem_read_wrapped h (by decide) hw
    have hnot : ¬ (word_at s LC_OS_INFO % 0x1000 = 0 →
      RcSafe s (word_at s LC_OS_INFO) 4096) := fun hn => hno ⟨hw, hn⟩
    push Not at hnot
    obtain ⟨hpage, hrc⟩ := hnot
    rw [heq]
    simp only [bind, Except.bind]
    change (if word_at s LC_OS_INFO % 0x1000 ≠ 0 then _ else _) = _
    rw [if_neg (fun hn => hn hpage)]
    change Except.bind (dfi_mem_read_rc (word_at s LC_OS_INFO) 4096 s₁) _ = _
    rw [read_rc_faults ht.inv (by decide) fun hn => hrc (ht.rcSafe.mp hn)]
    rfl
  · rw [mem_read_unmapped h (by decide) hw]
    rfl

theorem os_info_get_safe (hsafe : OsInfoSafe s) :
    ∃ o s', os_info_get zg_csum_partial s = .ok (o, s') ∧ Touched s s' ∧ ∀ b, o = some b ↔
      OsInfo s zg_csum_partial b := by
  obtain ⟨hw, hrc⟩ := hsafe
  obtain ⟨s₁, heq, ht⟩ := mem_read_wrapped h (by decide) hw
  unfold os_info_get
  rw [heq]
  simp only [bind, Except.bind]
  change ∃ o s', (if word_at s LC_OS_INFO % 0x1000 ≠ 0 then _ else _) = _ ∧ _
  by_cases hpage : word_at s LC_OS_INFO % 0x1000 = 0
  · rw [if_neg (fun hn => hn hpage)]
    change ∃ o s', Except.bind (dfi_mem_read_rc (word_at s LC_OS_INFO) 4096 s₁) _ = _ ∧ _
    by_cases hp : Passes s (word_at s LC_OS_INFO) 4096
    · obtain ⟨s₂, heq₂, ht₂⟩ := read_rc_passes ht.inv (by decide) (ht.rcSafe.mpr (hrc hpage)) (ht.passes.mpr hp)
      rw [heq₂, ht.bytes]
      refine ⟨_, s₂, rfl, ht.trans ht₂, fun b => ?_⟩
      rw [Option.filter_eq_some_iff, Option.some.injEq]
      exact ⟨fun ⟨hb, hok⟩ => ⟨hpage, hp, hb.symm, hok⟩, fun ⟨_, _, hb, hok⟩ => ⟨hb.symm, hok⟩⟩
    · obtain ⟨s₂, heq₂, ht₂⟩ := read_rc_rejects ht.inv (by decide)
        (page_rejects (word_at_le s _) hpage fun hn => hp (ht.passes.mp hn))
      rw [heq₂]
      exact ⟨_, s₂, rfl, ht.trans ht₂, fun b => ⟨fun hb => (by cases hb), fun hb => absurd hb.2.1 hp⟩⟩
  · rw [if_pos hpage]
    exact ⟨none, s₁, rfl, ht, fun b => ⟨fun hb => (by cases hb), fun hb => absurd hb.1 hpage⟩⟩

end

/-! ## The reads of each function -/

/-- The program does not look up an address that is not mapped. -/
def Safe {α : Type} (x : Except Fault α) : Prop := x ≠ .error .null_chunk

theorem safe_ok {α : Type} (x : α) : Safe (Except.ok x) := fun h => by cases h

section
variable {s : State} (h : Inv s) {α : Type} {addr cnt : Nat} {P : Prop}
include h

theorem safe_read (ha : addr ≤ U64_MAX) {f : List UInt8 × State → Except Fault α}
    (hf : ∀ s', Touched s s' → (Safe (f (bytes s addr cnt, s')) ↔ P)) :
    Safe ((dfi_mem_read addr cnt s).bind f) ↔ Wrapped s addr cnt ∧ P := by
  by_cases hw : Wrapped s addr cnt
  · obtain ⟨s', heq, ht⟩ := mem_read_wrapped h ha hw
    rw [heq, Except.bind, hf s' ht]
    exact ⟨fun hp => ⟨hw, hp⟩, And.right⟩
  · rw [mem_read_unmapped h ha hw]
    exact iff_of_false (fun hs => hs rfl) fun hn => hw hn.1

theorem safe_read_rc (hl : cnt ≤ U64_MAX) {f : Option (List UInt8) × State → Except Fault α}
    (hnone : ∀ s', Safe (f (none, s'))) (hf : ∀ s', Touched s s' → (Safe (f (some (bytes s addr cnt), s')) ↔ P)) :
    Safe ((dfi_mem_read_rc addr cnt s).bind f) ↔ RcSafe s addr cnt ∧ (Passes s addr cnt → P) := by
  by_cases hsafe : RcSafe s addr cnt
  · by_cases hp : Passes s addr cnt
    · obtain ⟨s', heq, ht⟩ := read_rc_passes h hl hsafe hp
      rw [heq, Except.bind, hf s' ht]
      exact ⟨fun hP => ⟨hsafe, fun _ => hP⟩, fun hP => hP.2 hp⟩
    · refine iff_of_true ?_ ⟨hsafe, fun hn => absurd hn hp⟩
      rcases read_rc_fails h hl hp with hend | ⟨s', heq, -⟩
      · rw [hend]
        exact fun hn => by cases hn
      · rw [heq]
        exact hnone s'
  · rw [read_rc_faults h hl hsafe]
    exact iff_of_false (fun hs => hs rfl) fun hn => hsafe hn.1

omit h in
theorem safe_rc_last (h : Inv s) (hl : cnt ≤ U64_MAX) : Safe (dfi_mem_read_rc addr cnt s) ↔ RcSafe s addr cnt := by
  have hbind := @safe_read_rc s h _ addr cnt True hl (fun r => .ok r) (fun s' => safe_ok _) fun s' _ =>
    iff_of_true (safe_ok _) trivial
  have heq : (dfi_mem_read_rc addr cnt s).bind (fun r => .ok r) = dfi_mem_read_rc addr cnt s := by
    cases dfi_mem_read_rc addr cnt s with
    | error e => rfl
    | ok r => rfl
  rw [heq] at hbind
  exact hbind.trans ⟨And.left, fun hs => ⟨hs, fun _ => trivial⟩⟩

omit h in
theorem Touched.word_at {s' : State} (h : Touched s s') (a : Nat) : word_at s' a = word_at s a := by
  unfold Memory.word_at
  rw [h.bytes]

omit h in
theorem Touched.noteSafe {s' : State} (h : Touched s s') : NoteSafe s' addr ↔ NoteSafe s addr := by
  unfold NoteSafe
  simp only [h.rcSafe, h.passes, h.bytes]

omit h in
theorem range_size_le {b : List UInt8} {r : Nat × Nat} (hr : vmcoreinfo_range b = some r) : r.2 ≤ U64_MAX := by
  unfold vmcoreinfo_range at hr
  by_cases h0 : field b 40 8 = 0
  · rw [if_pos h0] at hr
    cases hr
  · rw [if_neg h0] at hr
    cases hr
    exact field_le _ _ (by decide)

theorem note_safe_iff :
    Safe (vmcoreinfo_note s) ↔
      Wrapped s LC_VMCORE_INFO 8 ∧ (word_at s LC_VMCORE_INFO ≠ 0 → NoteSafe s (word_at s LC_VMCORE_INFO)) := by
  unfold vmcoreinfo_note
  refine safe_read h (by decide) fun s₁ ht₁ => ?_
  change Safe (if word_at s LC_VMCORE_INFO = 0 then _ else _) ↔ _
  by_cases h0 : word_at s LC_VMCORE_INFO = 0
  · rw [if_pos h0]
    exact iff_of_true (safe_ok _) fun hn => absurd h0 hn
  · rw [if_neg h0]
    refine Iff.trans ?_ ⟨fun hn _ => hn, fun hn => hn h0⟩
    unfold NoteSafe
    rw [← ht₁.rcSafe, ← ht₁.passes]
    refine safe_read_rc ht₁.inv (by decide) (fun s' => safe_ok _) fun s₂ ht₂ => ?_
    have ht := ht₁.trans ht₂
    rw [ht₁.bytes, ← ht.rcSafe, ← ht.passes]
    refine safe_read_rc ht.inv (field_le _ _ (by decide)) (fun s' => safe_ok _) fun s₃ ht₃ => ?_
    have htt := ht.trans ht₃
    rw [ht.bytes, ← htt.rcSafe]
    by_cases hname : is_vmcoreinfo
        (bytes s (u64 (word_at s LC_VMCORE_INFO + 12 : Nat))
          (field (bytes s (word_at s LC_VMCORE_INFO) 12) 0 4)) = true
    · change Safe (if is_vmcoreinfo (bytes s (u64 (word_at s LC_VMCORE_INFO + 12 : Nat))
        (field (bytes s (word_at s LC_VMCORE_INFO) 12) 0 4)) = true then _ else _) ↔ _
      rw [if_pos hname]
      have hlen : field (bytes s (word_at s LC_VMCORE_INFO) 12) 4 4 ≤ U64_MAX := field_le _ _ (by decide)
      exact (safe_rc_last htt.inv hlen).trans ⟨fun hn _ => hn, fun hn => hn hname⟩
    · change Safe (if is_vmcoreinfo (bytes s (u64 (word_at s LC_VMCORE_INFO + 12 : Nat))
        (field (bytes s (word_at s LC_VMCORE_INFO) 12) 0 4)) = true then _ else _) ↔ _
      rw [if_neg hname]
      exact iff_of_true (safe_ok _) fun hn => absurd hn hname

theorem os_info_safe_iff ( zg_csum_partial : List UInt8 → Nat) :
    Safe (os_info_get zg_csum_partial s) ↔ OsInfoSafe s := by
  by_cases hsafe : OsInfoSafe s
  · obtain ⟨o, s', heq, -, -⟩ := os_info_get_safe h zg_csum_partial hsafe
    rw [heq]
    exact iff_of_true (safe_ok _) hsafe
  · rw [os_info_get_fails h zg_csum_partial hsafe]
    exact iff_of_false (fun hn => hn rfl) hsafe

theorem vmcoreinfo_safe_iff ( zg_csum_partial : List UInt8 → Nat) :
    Safe (dfi_vmcoreinfo_init zg_csum_partial s) ↔ VmcoreinfoSafe s zg_csum_partial := by
  unfold dfi_vmcoreinfo_init VmcoreinfoSafe
  by_cases hsafe : OsInfoSafe s
  · obtain ⟨o, s₁, heq, ht, ho⟩ := os_info_get_safe h zg_csum_partial hsafe
    rw [heq]
    simp only [bind, Except.bind]
    obtain hnone | ⟨r, hr⟩ := Option.eq_none_or_eq_some (o.bind vmcoreinfo_range)
    · rw [hnone]
      refine (note_safe_iff ht.inv).trans ?_
      have hno : ∀ b, OsInfo s zg_csum_partial b → vmcoreinfo_range b = none := by
        intro b hb
        rw [(ho b).mpr hb] at hnone
        exact hnone
      simp only [ht.wrapped, ht.word_at, ht.noteSafe]
      refine ⟨fun hn => ⟨hsafe, fun b hb r hr => ?_, fun _ => hn⟩, fun hn => hn.2.2 hno⟩
      rw [hno b hb] at hr
      cases hr
    · rw [hr]
      obtain ⟨b, hb, hbr⟩ := Option.bind_eq_some_iff.mp hr
      have hinfo := (ho b).mp hb
      have hlen := range_size_le hbr
      refine (safe_rc_last ht.inv hlen).trans ?_
      rw [ht.rcSafe]
      refine ⟨fun hn => ⟨hsafe, fun b' hb' r' hr' => ?_, fun hno => ?_⟩, fun hn => hn.2.1 b hinfo r hbr⟩
      · have hsame := (ho b').mpr hb'
        rw [hb, Option.some.injEq] at hsame
        rw [← hsame, hbr, Option.some.injEq] at hr'
        rw [← hr']
        exact hn
      · rw [hno b hinfo] at hbr
        cases hbr
  · rw [os_info_get_fails h zg_csum_partial hsafe]
    exact iff_of_false (fun hn => hn rfl) fun hn => hsafe hn.1

omit h in
theorem bind_map {β γ : Type} (x : Except Fault β) (g : β → γ) (f : γ → Except Fault α) :
    (x.map g).bind f = x.bind fun r => f (g r) := by
  cases x with
  | error e => rfl
  | ok r => rfl

omit h in
theorem lc2cpu_64_eq (lc : List UInt8) :
    lc2cpu_64 lc s =
      if has_vx_sa (field lc 0x11b0 8) = true then
        (dfi_mem_read (field lc 0x11b0 8) DFI_VX_SA_SIZE s).map fun r => (some r.1, r.2)
      else .ok (none, s) := by
  unfold lc2cpu_64
  by_cases hvx : has_vx_sa (field lc 0x11b0 8) = true
  · rw [if_pos hvx]
    simp only [hvx, Bool.not_true, Bool.false_eq_true, if_false]
    generalize dfi_mem_read (field lc 0x11b0 8) DFI_VX_SA_SIZE s = x
    cases x with
    | error e => rfl
    | ok r => rfl
  · rw [if_neg hvx]
    simp only [hvx, Bool.not_false, if_true]
    rfl

theorem vx_safe_iff (lc : List UInt8) {f : Option (List UInt8) × State → Except Fault α} (hf : ∀ r, Safe (f r)) :
    Safe ((lc2cpu_64 lc s).bind f) ↔ (has_vx_sa (field lc 0x11b0 8) = true →
      Wrapped s (field lc 0x11b0 8) DFI_VX_SA_SIZE) := by
  rw [lc2cpu_64_eq]
  by_cases hvx : has_vx_sa (field lc 0x11b0 8) = true
  · rw [if_pos hvx, bind_map, safe_read h (field_le lc 0x11b0 (by decide)) (P := True) fun s' _ =>
      iff_of_true (hf _) trivial]
    exact ⟨fun hn _ => hn.1, fun hn => ⟨hn hvx, trivial⟩⟩
  · rw [if_neg hvx]
    exact iff_of_true (hf _) fun hn => absurd hn hvx

theorem lc_safe_iff (arch : DfiArch) (lc_addr : UInt32) :
    Safe (dfi_cpu_add_from_lc arch .all lc_addr s) ↔ LcSafe s arch lc_addr := by
  have hlc : lc_addr.toNat ≤ U64_MAX := by
    have := lc_addr.toNat_lt
    unfold U64_MAX
    omega
  unfold dfi_cpu_add_from_lc LcSafe
  by_cases harch : arch = .arch_32
  · simp only [if_pos harch]
    refine Iff.trans (safe_read h hlc (P := True) fun s' _ => ?_) ⟨And.left, fun hn => ⟨hn, trivial⟩⟩
    exact iff_of_true (safe_ok _) trivial
  · simp only [if_neg harch]
    refine safe_read h hlc fun s₁ ht₁ => ?_
    dsimp only [bind, pure, Except.pure]
    rw [vx_safe_iff ht₁.inv _ fun r => safe_ok _, ht₁.wrapped]

theorem cpu_safe_iff (arch : DfiArch) {cpu_content : DfiCpuContent} (lc_addr : UInt32) :
    Safe (dfi_cpu_add_from_lc arch cpu_content lc_addr s) ↔ (cpu_content = .all → LcSafe s arch lc_addr) := by
  cases cpu_content with
  | none => exact iff_of_true (fun hn => by cases hn) fun hn => by cases hn
  | lc => exact iff_of_true (safe_ok _) fun hn => by cases hn
  | all => exact (lc_safe_iff h arch lc_addr).trans ⟨fun hn _ => hn, fun hn => hn rfl⟩

theorem cpu_added (arch : DfiArch) {lc_addr : UInt32} (hsafe : LcSafe s arch lc_addr) :
    ∃ cpu s', dfi_cpu_add_from_lc arch .all lc_addr s = .ok (cpu, s') ∧ Touched s s' := by
  have hlc : lc_addr.toNat ≤ U64_MAX := by
    have := lc_addr.toNat_lt
    unfold U64_MAX
    omega
  unfold LcSafe at hsafe
  unfold dfi_cpu_add_from_lc
  by_cases harch : arch = .arch_32
  · rw [if_pos harch] at hsafe
    obtain ⟨s₁, heq, ht⟩ := mem_read_wrapped h hlc hsafe
    simp only [if_pos harch, heq]
    exact ⟨_, s₁, rfl, ht⟩
  · rw [if_neg harch] at hsafe
    obtain ⟨hw, hvx⟩ := hsafe
    obtain ⟨s₁, heq, ht⟩ := mem_read_wrapped h hlc hw
    simp only [if_neg harch, heq, lc2cpu_64_eq, bind, Except.bind]
    by_cases hhas : has_vx_sa (field (bytes s lc_addr.toNat 0x2000) 0x11b0 8) = true
    · obtain ⟨s₂, heq₂, ht₂⟩ := mem_read_wrapped ht.inv (field_le _ _ (by decide)) (ht.wrapped.mpr (hvx hhas))
      simp only [if_pos hhas, heq₂]
      exact ⟨_, s₂, rfl, ht.trans ht₂⟩
    · simp only [if_neg hhas]
      exact ⟨_, s₁, rfl, ht⟩

end

theorem Touched.lcSafe {s s' : State} (h : Touched s s') {arch : DfiArch} {lc_addr : UInt32} :
    LcSafe s' arch lc_addr ↔ LcSafe s arch lc_addr := by
  unfold LcSafe
  simp only [h.wrapped, h.bytes]

section
variable (arch : DfiArch)

theorem cpus_safe_all : ∀ (lc_addrs : List UInt32) (s : State), Inv s →
    (Safe (add_cpus arch .all lc_addrs s) ↔ ∀ lc_addr ∈ lc_addrs, LcSafe s arch lc_addr)
  | [], s, _ => iff_of_true (safe_ok _) fun _ hm => absurd hm List.not_mem_nil
  | lc_addr :: lc_addrs, s, h => by
    rw [List.forall_mem_cons, add_cpus]
    by_cases hsafe : LcSafe s arch lc_addr
    · obtain ⟨cpu, s₁, heq, ht⟩ := cpu_added h arch hsafe
      have hrest := cpus_safe_all lc_addrs s₁ ht.inv
      simp only [ht.lcSafe] at hrest
      simp only [heq, bind, Except.bind]
      rw [← hrest]
      refine Iff.trans ?_ ⟨fun hn => ⟨hsafe, hn⟩, And.right⟩
      generalize add_cpus arch .all lc_addrs s₁ = x
      cases x with
      | error e => exact Iff.rfl
      | ok r => exact iff_of_true (safe_ok _) (safe_ok _)
    · have hno := (lc_safe_iff h arch lc_addr).not.mpr hsafe
      unfold Safe at hno
      push Not at hno
      rw [hno]
      exact iff_of_false (fun hn => hn rfl) fun hn => hsafe hn.1

theorem cpus_safe_other {cpu_content : DfiCpuContent} (hother : cpu_content ≠ .all) :
    ∀ (lc_addrs : List UInt32) (s : State),
    Safe (add_cpus arch cpu_content lc_addrs s)
  | [], s => safe_ok _
  | lc_addr :: lc_addrs, s => by
    rw [add_cpus]
    cases cpu_content with
    | none => exact fun hn => by cases hn
    | lc =>
      have hrest := cpus_safe_other hother lc_addrs s
      simp only [dfi_cpu_add_from_lc, bind, Except.bind]
      generalize add_cpus arch .lc lc_addrs s = x at hrest ⊢
      cases x with
      | error e => exact hrest
      | ok r => exact safe_ok _
    | all => exact absurd rfl hother

end

theorem s390_safe_iff {s : State} (h : Inv s) (hdr : DfS390Hdr) (addr_max : Nat) :
    Safe (df_s390_cpu_info_add hdr addr_max s) ↔
      (¬ hdr.version < 5 → check_addr_max hdr addr_max = true →
        ∀ i < hdr.cpu_cnt.toNat, LcSafe s (df_s390_to_dfi_arch hdr.arch) (hdr.lc_vec i)) := by
  unfold df_s390_cpu_info_add cpu_content_of
  by_cases hv : hdr.version < 5
  · rw [if_pos hv, if_pos hv]
    exact iff_of_true (safe_ok _) fun hn => absurd hv hn
  · rw [if_neg hv, if_neg hv]
    by_cases hmax : check_addr_max hdr addr_max = true
    · rw [if_pos hmax, cpus_safe_all _ _ s h]
      simp only [List.forall_mem_map, List.mem_range]
      exact ⟨fun hn _ _ => hn, fun hn => hn hv hmax⟩
    · rw [if_neg hmax]
      exact iff_of_true (cpus_safe_other _ (by decide) _ s) fun _ hn => absurd hn hmax

/-! ## The kdump area -/

theorem phys_read_null {freed : List Ptr} (fuel : Nat) : ∀ (m : Mem) (left addr : Nat), Lookup freed m →
    (∀ p ∈ m.chunk_list, (∃ f, p.read_fn = .fmt f) ∧ ∀ d ∈ p.data, d ∉ freed) → left ≤ fuel →
    addr + left ≤ U64_MAX + 1 → (∃ i < left, ∀ p ∈ m.chunk_list, ¬ mem_chunk_has_addr p (addr + i)) →
    phys_read_loop freed fuel left addr m = .error .null_chunk := by
  induction fuel with
  | zero =>
    rintro m left addr h _ hl _ ⟨i, hi, -⟩
    omega
  | succ fuel ih =>
    rintro m left addr h hall hl hfit ⟨i, hi, hno⟩
    rw [phys_read_loop, if_neg (by omega)]
    by_cases hm : ∃ c ∈ m.chunk_list, mem_chunk_has_addr c addr
    · obtain ⟨c, hc, ha⟩ := hm
      obtain ⟨⟨f, hf⟩, hdata⟩ := hall c hc
      have h₁ := ha.1
      have h₂ := ha.2
      have hbehind : c.stop < addr + i := by
        by_contra hge
        exact hno c hc ⟨by omega, by omega⟩
      have hlive : ¬ (c.data.any fun p => p ∈ freed) = true := by
        intro hany
        obtain ⟨d, hd, hdf⟩ := (Option.any_eq_true ..).mp hany
        exact hdata d hd (of_decide_eq_true hdf)
      simp only [h.find_eq hc ha, piece_size (h.ok c hc) ha, hf, fmt_read, if_neg hlive]
      rw [next_addr (by omega) hfit, ih { m with chunk_cache := some c.num } (left - min left (c.stop - addr + 1))
        (addr + min left (c.stop - addr + 1)) (h.touch hc) hall (by omega) (by omega)
        ⟨i - (c.stop - addr + 1), by omega, fun p hp => by
          rw [show addr + min left (c.stop - addr + 1) + (i - (c.stop - addr + 1)) = addr + i by omega]
          exact hno p hp⟩]
    · have hfind := h.find_none fun c hc hca => hm ⟨c, hc, hca⟩
      simp only [hfind]

theorem safe_phys_read {s : State} (h : Inv s) {α : Type} {addr cnt : Nat} {P : Prop}
    (hfit : addr + cnt ≤ U64_MAX + 1)
    {f : List UInt8 × State → Except Fault α} (hf : ∀ b s', Touched s s' → (Safe (f (b, s')) ↔ P)) :
    Safe ((dfi_mem_phys_read addr cnt s).bind f) ↔ (∀ i < cnt, PhysMapped s (addr + i)) ∧ P := by
  by_cases hm : ∀ i < cnt, PhysMapped s (addr + i)
  · obtain ⟨s', heq, ht⟩ := phys_read_eq h hm hfit
    rw [heq, Except.bind, hf _ s' ht]
    exact ⟨fun hp => ⟨hm, hp⟩, And.right⟩
  · have hnull : dfi_mem_phys_read addr cnt s = .error .null_chunk := by
      push Not at hm
      obtain ⟨i, hi, hno⟩ := hm
      unfold dfi_mem_phys_read
      rw [phys_read_null cnt s.mem_phys cnt addr h.phys_lookup (fun p hp =>
        ⟨(h.wf.phys_ok p hp).2.1, h.shared p hp⟩)
        (Nat.le_refl cnt) hfit ⟨i, hi, fun p hp hpa => hno ⟨p, hp, hpa⟩⟩]
    rw [hnull]
    exact iff_of_false (fun hn => hn rfl) fun hn => hm hn.1

theorem select_safe (select : Select) (base size : Nat) (s : State) : Safe (kdump_select select base size s) := by
  have hmap : ∀ s', Safe (mem_map 0 size base s') := by
    intro s' hn
    unfold mem_map at hn
    by_cases hr : mem_range_mapped 0 size s' = true
    · rw [if_pos hr] at hn
      cases hn
    · rw [if_neg hr] at hn
      cases hn
  cases select with
  | prod => exact hmap _
  | unspecified => exact safe_ok _
  | kdump => exact safe_ok _
  | all => exact safe_ok _

theorem kdump_safe_iff {s : State} (h : Inv s) (select : Select) :
    Safe (kdump_init select s) ↔
      (∀ i < 8, PhysMapped s (0x10418 + i)) ∧ ∀ i < 8, PhysMapped s (0x10420 + i) := by
  unfold kdump_init
  refine safe_phys_read h (by decide) fun b s₁ ht₁ => ?_
  refine Iff.trans (safe_phys_read ht₁.inv (by decide) (P := True) fun b' s₂ ht₂ => ?_) ?_
  · refine iff_of_true ?_ trivial
    change Safe (if word b = 0 ∨ word b' = 0 ∨ word b % MIB ≠ 0 ∨ word b' % MIB ≠ 0 then _ else _)
    by_cases hnot : word b = 0 ∨ word b' = 0 ∨ word b % MIB ≠ 0 ∨ word b' % MIB ≠ 0
    · rw [if_pos hnot]
      exact safe_ok _
    · rw [if_neg hnot]
      change Safe ((dfi_mem_range_valid (word b) (word b') s₂).bind fun r =>
        if (!r.1) = true then .ok r.2 else kdump_select select (word b) (word b') r.2)
      unfold dfi_mem_range_valid
      rcases loop_outcome (word b') (u64 ((word b + word b' : Nat) : Int)) (2 * U64_MAX + 2) (word b) s₂ ht₂.inv
        with hend | ⟨v, s₃, heq, -⟩
      · rw [hend]
        exact fun hn => by cases hn
      · rw [heq]
        cases v with
        | false => exact safe_ok _
        | true => exact select_safe select _ _ s₃
  · simp only [ht₁.physMapped, and_true]

/-! ## The check, and the reads of the initialisation -/

theorem range_valid_empty {s : State} (hc : s.mem_virt.chunk_cache = none) (addr len : Nat) :
    dfi_mem_range_valid addr len s = .error .null_chunk := by
  have hcached : cached s.freed s.mem_virt = .error .null_chunk := by
    unfold cached
    rw [hc]
  have hfind : dfi_mem_chunk_find addr s = .error .null_chunk := by
    unfold dfi_mem_chunk_find mem_chunk_find
    rw [hcached]
  unfold dfi_mem_range_valid
  rw [range_valid_loop, hfind]

theorem init_reads_iff (s : State) :
    (Inv s →
      (∀ addr len, len ≤ U64_MAX →
        ((∃ b s', dfi_mem_range_valid addr len s = .ok (b, s') ∧ (b = true ↔ RangeMapped s addr len)) ↔
          RangeRight s addr len) ∧
        (Safe (dfi_mem_read_rc addr len s) ↔ RcSafe s addr len)) ∧
      (∀ select, Safe (kdump_init select s) ↔
        (∀ i < 8, PhysMapped s (0x10418 + i)) ∧ ∀ i < 8, PhysMapped s (0x10420 + i)) ∧
      (∀ zg_csum_partial,
        (Safe (os_info_get zg_csum_partial s) ↔ OsInfoSafe s) ∧
        (Safe (dfi_vmcoreinfo_init zg_csum_partial s) ↔ VmcoreinfoSafe s zg_csum_partial)) ∧
      (∀ arch cpu_content lc_addr,
        Safe (dfi_cpu_add_from_lc arch cpu_content lc_addr s) ↔ (cpu_content = .all → LcSafe s arch lc_addr)) ∧
      ∀ hdr addr_max, Safe (df_s390_cpu_info_add hdr addr_max s) ↔
        (¬ hdr.version < 5 → check_addr_max hdr addr_max = true →
          ∀ i < hdr.cpu_cnt.toNat, LcSafe s (df_s390_to_dfi_arch hdr.arch) (hdr.lc_vec i))) ∧
    (s.mem_virt.chunk_cache = none → ∀ addr len, ¬ Safe (dfi_mem_range_valid addr len s)) := by
  refine ⟨fun h => ⟨fun _ _ hl => ⟨range_right_iff h hl, safe_rc_last h hl⟩, kdump_safe_iff h,
    fun zg_csum_partial => ⟨os_info_safe_iff h zg_csum_partial, vmcoreinfo_safe_iff h zg_csum_partial⟩,
    fun arch _ lc_addr => cpu_safe_iff h arch lc_addr, s390_safe_iff h⟩, fun hc addr len => ?_⟩
  rw [range_valid_empty hc]
  exact fun hn => hn rfl

def cksm : Nat → List UInt8 → Nat
  | acc, a :: b :: c :: d :: buf =>
    let sum := acc + word [a, b, c, d]
    cksm (if 2 ^ 32 ≤ sum then sum - 2 ^ 32 + 1 else sum) buf
  | acc, _ => acc

def os_info_block : List UInt8 :=
  [0x4f, 0x53, 0x49, 0x4e, 0x46, 0x4f, 0x53, 0x5a] ++ [0, 0, 0x30, 0x1d] ++ List.replicate 20 0 ++
    [0, 0, 0, 0, 0, 0, 0x30, 0] ++ [0, 0, 0, 0, 0, 0, 0, 0x1d]

def one_mib : List Add :=
  [{ start := 0, size := 0x100000, data := none, free_fn := false,
     read := fun i => if i = 0xe1e then 0x20 else if i = 0x111b5 then 2
       else if 0x2000 ≤ i ∧ i < 0x2030 then os_info_block.getD (i - 0x2000) 0 else 0 }]

theorem cksm_zeros {acc : Nat} (h : acc < 2 ^ 32) : ∀ n : Nat, cksm acc (List.replicate (4 * n) 0) = acc
  | 0 => by rw [Nat.mul_zero, List.replicate_zero, cksm]; simp
  | n + 1 => by
    have hstep : List.replicate (4 * (n + 1)) (0 : UInt8) = 0 :: 0 :: 0 :: 0 :: List.replicate (4 * n) 0 := rfl
    have hsum : acc + word [0, 0, 0, 0] = acc := rfl
    rw [hstep, cksm]
    simp only [hsum]
    rw [if_neg (Nat.not_le.mpr h), cksm_zeros h n]

theorem block_checked (n : Nat) : os_info_ok (cksm 0) (os_info_block ++ List.replicate (4 * n) 0) = true := by
  have hsum : ∀ tail, cksm 0 ((os_info_block ++ tail).drop 12) = cksm 0x301d tail := fun _ => rfl
  have hmagic : ∀ tail, field (os_info_block ++ tail) 0 8 = OS_INFO_MAGIC := fun _ => rfl
  have hfield : ∀ tail, field (os_info_block ++ tail) 8 4 = 0x301d := fun _ => rfl
  unfold os_info_ok
  rw [hsum, hmagic, hfield, cksm_zeros (by decide)]
  rfl

theorem one_mib_proper : ∀ a ∈ one_mib, a.Proper := by
  intro a ha
  cases List.mem_singleton.mp ha
  exact ⟨by decide, by decide, by decide⟩

theorem one_mib_inv : Inv (add_chunks one_mib) :=
  (initial_good (show one_mib ≠ [] by decide) one_mib_proper (List.pairwise_singleton ..)).inv

theorem one_mib_mapped {a : Nat} (h : a < 0x100000) : Mapped (add_chunks one_mib) a :=
  ⟨_, List.mem_singleton_self _, Nat.zero_le _, show a ≤ 0xfffff by omega⟩

theorem one_mib_wrapped {addr len : Nat} (h : addr + len ≤ 0x100000) : Wrapped (add_chunks one_mib) addr len := by
  intro i hi
  have hu : u64 (addr + i : Nat) = addr + i := u64_eq rfl (by omega)
  rw [hu]
  exact one_mib_mapped (by omega)

theorem one_mib_block : bytes (add_chunks one_mib) 0x2000 4096 = os_info_block ++ List.replicate (4 * 1012) 0 := by
  have hbyte : ∀ i < 4096, virt_byte (add_chunks one_mib) (u64 (0x2000 + i : Nat)) =
      if i < 48 then os_info_block.getD i 0 else 0 := by
    intro i hi
    have hu : u64 (0x2000 + i : Nat) = 0x2000 + i := u64_eq rfl (by omega)
    have hphys : phys_byte (add_chunks one_mib).mem_phys.chunk_list (0x2000 + i) = mem_byte one_mib (0x2000 + i) :=
      phys_byte_add (added one_mib one_mib_proper (List.pairwise_singleton ..)).phys _
    have hmem : mem_byte one_mib (0x2000 + i) = if i < 48 then os_info_block.getD i 0 else 0 := by
      have hhas : one_mib.find? (fun a => a.Has (0x2000 + i)) = some (one_mib.head (by decide)) :=
        List.find?_cons_of_pos (decide_eq_true ⟨Nat.zero_le _, show 0x2000 + i ≤ 0xfffff by omega⟩)
      unfold mem_byte
      rw [hhas]
      show (if 0x2000 + i - 0 = 0xe1e then (0x20 : UInt8) else if 0x2000 + i - 0 = 0x111b5 then 2
        else if 0x2000 ≤ 0x2000 + i - 0 ∧ 0x2000 + i - 0 < 0x2030 then
          os_info_block.getD (0x2000 + i - 0 - 0x2000) 0 else 0) = _
      rw [Nat.sub_zero, if_neg (by omega), if_neg (by omega), Nat.add_sub_cancel_left]
      by_cases hlt : i < 48
      · rw [if_pos hlt, if_pos ⟨by omega, by omega⟩]
      · rw [if_neg hlt, if_neg (by omega)]
    rw [hu, virt_byte_eq one_mib_inv (List.mem_singleton_self _)
      ⟨Nat.zero_le _, show 0x2000 + i ≤ 0xfffff by omega⟩, ← hmem, ← hphys]
    congr 1
    show 0 + (0x2000 + i - 0) = _
    omega
  refine List.ext_getElem ?_ fun i h₁ h₂ => ?_
  · rw [bytes, List.length_map, List.length_range, List.length_append, List.length_replicate]
    rfl
  · have hi : i < 4096 := by simpa [bytes] using h₁
    simp only [bytes, List.getElem_map, List.getElem_range]
    rw [hbyte i hi]
    by_cases hlt : i < 48
    · rw [if_pos hlt, List.getElem_append_left hlt, List.getD_eq_getElem?_getD, List.getElem?_eq_getElem hlt]
      rfl
    · rw [if_neg hlt, List.getElem_append_right (Nat.not_lt.mp hlt), List.getElem_replicate]

theorem one_mib_word : word_at (add_chunks one_mib) LC_OS_INFO = 0x2000 := by decide

theorem one_mib_range :
    vmcoreinfo_range (bytes (add_chunks one_mib) (word_at (add_chunks one_mib) LC_OS_INFO) 4096) =
      some (0x3000, 29) := by
  rw [one_mib_word, one_mib_block]
  rfl

theorem one_mib_os_info_safe : OsInfoSafe (add_chunks one_mib) :=
  ⟨one_mib_wrapped (by decide), fun _ => .inl (by rw [one_mib_word]; decide)⟩

theorem one_mib_vmcoreinfo_safe : VmcoreinfoSafe (add_chunks one_mib) (cksm 0) := by
  refine ⟨one_mib_os_info_safe, fun b hb r hr => ?_, fun _ => ⟨one_mib_wrapped (by decide), fun h0 => ?_⟩⟩
  · rw [hb.2.2.1, one_mib_range, Option.some.injEq] at hr
    rw [← hr]
    exact .inl (by decide)
  · exact absurd (by decide) h0

theorem one_mib_lc_safe : LcSafe (add_chunks one_mib) .arch_64 0x10000 := by
  have hfield : field (bytes (add_chunks one_mib) 0x10000 0x2000) 0x11b0 8 = 0x20000 := by decide +kernel
  refine ⟨one_mib_wrapped (by decide), fun _ => ?_⟩
  exact hfield ▸ one_mib_wrapped (by decide)

theorem one_mib_below : ∀ c ∈ (add_chunks one_mib).mem_virt.chunk_list, c.stop ≠ U64_MAX := by decide

theorem one_mib_passes {addr len : Nat} (h : addr + len ≤ 0x100000) (hpos : addr < 0x100000) :
    Passes (add_chunks one_mib) addr len := by
  refine ⟨one_mib_mapped hpos, ?_⟩
  rw [if_pos (Nat.le_trans h (by decide))]
  refine ⟨fun y _ hy => one_mib_mapped (by omega), fun hover => ?_⟩
  obtain ⟨t, ⟨c, hc, -, hstop⟩, -⟩ := hover
  exact one_mib_below c hc hstop

theorem init_reads_one_mib :
    (∃ b s', dfi_mem_range_valid 0x1000 0x200000 (add_chunks one_mib) = .ok (b, s') ∧
      (b = true ↔ RangeMapped (add_chunks one_mib) 0x1000 0x200000)) ∧
    Safe (kdump_init .unspecified (add_chunks one_mib)) ∧ Safe (dfi_vmcoreinfo_init (cksm 0) (add_chunks one_mib)) ∧
    Safe (dfi_cpu_add_from_lc .arch_64 .all 0x10000 (add_chunks one_mib)) := by
  obtain ⟨hrange, hkdump, hinit, hcpu, -⟩ := (init_reads_iff (add_chunks one_mib)).1 one_mib_inv
  refine ⟨(hrange 0x1000 0x200000 (by decide)).1.mpr (.inr (.inl ⟨by decide, fun h => ?_⟩)),
    (hkdump .unspecified).mpr ⟨by decide, by decide⟩, (hinit (cksm 0)).2.mpr one_mib_vmcoreinfo_safe,
    (hcpu .arch_64 .all 0x10000).mpr fun _ => one_mib_lc_safe⟩
  -- no chunk ends at the last address
  obtain ⟨t, ⟨c, hc, -, hstop⟩, -⟩ := h.2
  exact one_mib_below c hc hstop

def four_bytes : List Add := [{ start := 0, size := 4, data := none, read := fun _ => 0, free_fn := false }]

theorem four_bytes_inv : Inv (add_chunks four_bytes) := by
  refine (initial_good (show four_bytes ≠ [] by decide) (fun a ha => ?_) (List.pairwise_singleton ..)).inv
  cases List.mem_singleton.mp ha
  exact ⟨by decide, by decide, by decide⟩

/-- The check passes a range that is longer than the address space behind it; in a small dump there
is no kdump area to look for. -/
theorem long_range_passes :
    (¬ ∀ s, Inv s → ∀ addr len, addr ≤ U64_MAX → len ≤ U64_MAX →
      ∃ b s', dfi_mem_range_valid addr len s = .ok (b, s') ∧ (b = true ↔ RangeMapped s addr len)) ∧
    ¬ ∀ s, Inv s → Safe (kdump_init .unspecified s) := by
  refine ⟨fun hall => ?_, fun hall => ?_⟩
  · have hright := (range_right_iff one_mib_inv (by decide)).mp
      (hall _ one_mib_inv 0x1000 U64_MAX (by decide) (by decide))
    have hmapped : Mapped (add_chunks one_mib) 0x1000 := by decide
    rcases hright with hno | ⟨hfit, -⟩ | ⟨hend, -⟩ | ⟨-, ⟨t, ⟨c, hc, -, hstop⟩, -⟩, -⟩
    · exact hno hmapped
    · exact absurd hfit (by decide)
    · exact absurd hend (by decide)
    · exact one_mib_below c hc hstop
  · have hmapped := ((kdump_safe_iff four_bytes_inv .unspecified).mp (hall _ four_bytes_inv)).1 0 (by decide)
    revert hmapped
    decide

end Zdump.Memory
