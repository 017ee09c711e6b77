import S390Tools.Zipl.Kdump3Run

/-!
# Which sizes fit (zipl/boot/kdump3.c)

Memory is preserved for every crashed system exactly if the sizes of the crash
kernel's memory and of the HSA fit.
-/

namespace Zipl.Kdump

open Word

/-! ## From a fitting size to preserved memory -/

theorem get_size_some {blk_cnt hsa_size : Nat} (h : sclp_hsa_get_size blk_cnt = some hsa_size) :
    PAGE_SIZE ∣ hsa_size ∧ hsa_size < 2 ^ 32 := by
  unfold sclp_hsa_get_size at h
  by_cases hzero : blk_cnt ≠ 0
  · rw [if_pos hzero] at h
    obtain rfl := Option.some.inj h
    have hpage : PAGE_SIZE = 4096 := rfl
    refine ⟨Nat.dvd_of_mod_eq_zero ?_, u32_lt _⟩
    rw [hpage]
    unfold u32
    omega
  · rw [if_neg hzero] at h
    cases h

section
variable {stage3 : Stage3} {machine : Machine} {blk_cnt hsa_size crash_base crash_size : Nat} {orig mem : Mem}
variable (hblk : sclp_hsa_get_size blk_cnt = some hsa_size)
variable (hpos : 0 < crash_size) (hle : crash_size ≤ crash_base)

include hblk in
theorem scsi_eq {s : State} {os_info : Nat} (hfind : find_os_info stage3 machine hsa_size mem = .ok (s, os_info))
    (hcheck : os_info_check stage3 machine s.mem os_info = .ok ()) (hb : word s.mem (os_info + 16) 8 = crash_base)
    (hs : word s.mem (os_info + 24) 8 = crash_size) : kdump_stage3_scsi stage3 machine blk_cnt mem =
      (restore stage3 machine hsa_size crash_base crash_size s).map fun s => (crash_base, crash_size, s) := by
  unfold kdump_stage3_scsi
  rw [hblk]
  simp only [hfind, ok_bind]
  rw [hcheck, ok_bind, hb, hs]
  cases restore stage3 machine hsa_size crash_base crash_size s <;> rfl

theorem page_read {m m' : Mem} {a : Nat} (h : ∀ i < PAGE_SIZE, m (a + i) = m' (a + i)) :
    os_info_check stage3 machine m a = os_info_check stage3 machine m' a ∧ word m (a + 16) 8 = word m' (a + 16) 8 ∧
      word m (a + 24) 8 = word m' (a + 24) 8 := by
  have hpage : PAGE_SIZE = 4096 := rfl
  refine ⟨os_info_check_congr h, word_congr fun i hi => ?_, word_congr fun i hi => ?_⟩
  · rw [Nat.add_assoc]
    exact h _ (by omega)
  · rw [Nat.add_assoc]
    exact h _ (by omega)

include hblk in
theorem crashed_found (hc : Crashed stage3 machine hsa_size crash_base crash_size orig mem)
    (hread : word machine.hsa LC_OS_INFO 8 < hsa_size ∨ word machine.hsa LC_OS_INFO 8 + PAGE_SIZE ≤ hsa_page ∨
      stage3.program_end ≤ word machine.hsa LC_OS_INFO 8) :
    ∃ s os_info, Found stage3 machine hsa_size mem s os_info ∧ kdump_stage3_scsi stage3 machine blk_cnt mem =
      (restore stage3 machine hsa_size crash_base crash_size s).map fun s => (crash_base, crash_size, s) := by
  obtain ⟨hpages, hlt⟩ := get_size_some hblk
  obtain ⟨s, hfind, hf⟩ := find_os_info_eq hpages hlt mem hread
  have hat : (os_info_at machine hsa_size mem).1 = (os_info_at machine hsa_size orig).1 ∧
      ∀ i, (os_info_at machine hsa_size mem).2 ((os_info_at machine hsa_size mem).1 + i) =
        (os_info_at machine hsa_size orig).2 ((os_info_at machine hsa_size mem).1 + i) := by
    unfold os_info_at
    by_cases hin : word machine.hsa LC_OS_INFO 8 < hsa_size
    · simp only [if_pos hin]
      exact ⟨trivial, fun _ => trivial⟩
    · simp only [if_neg hin]
      exact ⟨trivial, fun i => hc.in_memory _ (by omega)⟩
  have hpage : ∀ i < PAGE_SIZE, s.mem ((os_info_at machine hsa_size mem).1 + i) =
      (os_info_at machine hsa_size orig).2 ((os_info_at machine hsa_size mem).1 + i) := fun i hi =>
    (hf.page i hi).trans (hat.2 i)
  obtain ⟨hcheck, hb, hs⟩ := @page_read stage3 machine _ _ _ hpage
  rw [hat.1] at hcheck hb hs hf hfind
  exact ⟨s, _, hf, scsi_eq hblk hfind (hcheck.trans hc.valid) (hb.trans hc.base) (hs.trans hc.size)⟩

variable (hbase : PAGE_SIZE ∣ crash_base) (hsize : PAGE_SIZE ∣ crash_size)

include hblk hpos hle hbase hsize in
theorem preserved_of_fits (hf : Fits stage3 hsa_size crash_base crash_size)
    (hc : Crashed stage3 machine hsa_size crash_base crash_size orig mem) :
    ∃ s, kdump_stage3_scsi stage3 machine blk_cnt mem = .ok (crash_base, crash_size, s) ∧
      Preserved hsa_size crash_base crash_size orig s := by
  obtain ⟨hpages, hlt⟩ := get_size_some hblk
  have hown := hf.own_hsa
  have hge := stage3.program_end_ge
  have hpage : PAGE_SIZE = 4096 := rfl
  obtain ⟨s, os_info, hfound, heq⟩ := crashed_found hblk hc (by omega)
  have hreal : ∀ a, hsa_size ≤ a → s.mem a = orig a := fun a ha =>
    (hfound.other a (Or.inr (Nat.le_trans hown ha))).trans (hc.in_memory a ha)
  have hreq : ∀ r ∈ s.requests, Allowed hsa_size crash_size r := by
    intro r hr
    obtain ⟨hdst, hcnt, hsrc⟩ := hfound.requests r hr
    refine ⟨?_, ?_, Or.inr ⟨hdst, hcnt⟩⟩
    · rw [hcnt]
      exact Int.natCast_nonneg _
    · rw [hcnt]
      omega
  obtain ⟨s', hs', hp⟩ : ∃ s', restore stage3 machine hsa_size crash_base crash_size s = .ok s' ∧
      Preserved hsa_size crash_base crash_size orig s' := by
    rcases Nat.lt_or_ge hsa_size crash_size with hlong | hshort
    · exact restore_long hpages hle hlt hf hlong hc.in_hsa hreal hreq
    · exact restore_short hbase hsize hpages hpos hle hlt hf hshort hc.in_hsa hreal hreq
  exact ⟨s', by rw [heq, hs']; rfl, hp⟩

end

/-! ## A crashed system for all sizes -/

def digit (v n i : Nat) : UInt8 := UInt8.ofNat (v / 256 ^ (n - 1 - i))

theorem word_digits {m : Mem} {a v n : Nat} (hv : v < 256 ^ n)
    (h : ∀ i < n, m (a + i) = digit v n i) : word m a n = v := by
  have hpart : ∀ k ≤ n, word m a k = v / 256 ^ (n - k) := by
    intro k
    induction k with
    | zero =>
      intro _
      rw [word, Nat.sub_zero, Nat.div_eq_of_lt hv]
    | succ k ih =>
      intro hk
      rw [word, ih (Nat.le_of_succ_le hk), h k hk, digit, show n - k = (n - 1 - k) + 1 by omega,
        show n - (k + 1) = n - 1 - k by omega, Nat.pow_succ, ← Nat.div_div_eq_div_mul, UInt8.toNat_ofNat']
      exact Nat.div_add_mod' _ _
  rw [hpart n (Nat.le_refl n), Nat.sub_self, Nat.pow_zero, Nat.div_one]

section
variable (stage3 : Stage3) (crash_base crash_size : Nat)

def os_info_tail (i : Nat) : UInt8 :=
  if i < 4 then 0 else if i < 12 then digit crash_base 8 (i - 4)
    else if i < 20 then digit crash_size 8 (i - 12) else 0

def os_info_csum : Nat :=
  (stage3.csum_partial ((List.range OS_INF0_CSUM_SIZE).map (os_info_tail crash_base crash_size))).toNat

def os_info_page (i : Nat) : UInt8 :=
  if i < 8 then digit OS_INFO_MAGIC 8 i
  else if i < 12 then digit (os_info_csum stage3 crash_base crash_size) 4 (i - 8)
  else os_info_tail crash_base crash_size (i - 12)

def crashed_memory (a : Nat) : UInt8 :=
  if a < PAGE_SIZE then digit PAGE_SIZE 8 (a - LC_OS_INFO)
    else os_info_page stage3 crash_base crash_size (a - PAGE_SIZE)

variable {stage3 crash_base crash_size}

theorem page_valid {machine : Machine} {m : Mem} {a : Nat} (hbase : crash_base < 2 ^ 64)
    (hsize : crash_size < 2 ^ 64)
    (hne : crash_base ≠ 0) (ha : a ≠ 0) (halign : a % PAGE_SIZE = 0) (hvalid : machine.page_is_valid a = true)
    (h : ∀ i < PAGE_SIZE, m (a + i) = os_info_page stage3 crash_base crash_size i) :
    os_info_check stage3 machine m a = .ok () ∧ word m (a + 16) 8 = crash_base ∧ word m (a + 24) 8 =
      crash_size := by
  have hpage : PAGE_SIZE = 4096 := rfl
  have hmagic : word m a 8 = OS_INFO_MAGIC := word_digits (by decide) fun i hi => by
    rw [h i (by omega), os_info_page, if_pos hi]
  have hcsum : word m (a + 8) 4 = os_info_csum stage3 crash_base crash_size :=
    word_digits (UInt32.toNat_lt _) fun i hi => by
      rw [Nat.add_assoc, h _ (by omega), os_info_page, if_neg (by omega), if_pos (by omega),
        Nat.add_sub_cancel_left]
  have htail : ∀ i < OS_INF0_CSUM_SIZE, m (a + 12 + i) = os_info_tail crash_base crash_size i := by
    intro i hi
    have hi : i < 4084 := hi
    rw [Nat.add_assoc, h _ (by omega), os_info_page, if_neg (by omega), if_neg (by omega), Nat.add_sub_cancel_left]
  have hbytes : (List.range OS_INF0_CSUM_SIZE).map (fun i => m (a + 12 + i)) =
      (List.range OS_INF0_CSUM_SIZE).map (os_info_tail crash_base crash_size) :=
    List.map_congr_left fun i hi => htail i (List.mem_range.mp hi)
  have hversion : word m (a + 12) 2 = 0 := word_digits (by decide) fun i hi => by
    rw [htail i (Nat.lt_trans hi (by decide)), os_info_tail, if_pos (by omega), digit, Nat.zero_div]
    rfl
  have hb : word m (a + 16) 8 = crash_base := word_digits hbase fun i hi => by
    rw [show a + 16 + i = a + 12 + (4 + i) by omega, htail _ (show 4 + i < 4084 by omega),
      os_info_tail, if_neg (by omega),
      if_pos (by omega), Nat.add_sub_cancel_left]
  have hs : word m (a + 24) 8 = crash_size := word_digits hsize fun i hi => by
    rw [show a + 24 + i = a + 12 + (12 + i) by omega, htail _ (show 12 + i < 4084 by omega),
      os_info_tail, if_neg (by omega),
      if_neg (by omega), if_pos (by omega), Nat.add_sub_cancel_left]
  refine ⟨?_, hb, hs⟩
  unfold os_info_check
  rw [if_neg ha, if_neg (not_not_intro halign), hvalid, hmagic, hbytes, hcsum, hversion, hb]
  simp [os_info_csum, hne]

def crashed_machine (stage3 : Stage3) (crash_base crash_size : Nat) (v : Mem) : Machine where
  hsa := crashed_memory stage3 crash_base crash_size
  page_is_valid := fun _ => true
  own := fun _ => v

theorem crashed_memory_word : word (crashed_memory stage3 crash_base crash_size) LC_OS_INFO 8 = PAGE_SIZE :=
  word_digits (by decide) fun i hi => by
    have hlc : LC_OS_INFO = 0xe18 := rfl
    have hpage : PAGE_SIZE = 4096 := rfl
    rw [crashed_memory, if_pos (by omega), Nat.add_sub_cancel_left]

theorem crashed_memory_page {i : Nat} :
    crashed_memory stage3 crash_base crash_size (PAGE_SIZE + i) = os_info_page stage3 crash_base crash_size i := by
  rw [crashed_memory, if_neg (by omega), Nat.add_sub_cancel_left]

theorem crashed_machine_hsa (v : Mem) :
    (crashed_machine stage3 crash_base crash_size v).hsa = crashed_memory stage3 crash_base crash_size := rfl

theorem crashed_machine_at (hsa_size : Nat) (v : Mem) : ∃ a m,
    os_info_at (crashed_machine stage3 crash_base crash_size v)
      hsa_size (crashed_memory stage3 crash_base crash_size) = (a, m) ∧
      a ≠ 0 ∧ a % PAGE_SIZE = 0 ∧ ∀ i < PAGE_SIZE, m (a + i) = os_info_page stage3 crash_base crash_size i := by
  have haddr : word (crashed_machine stage3 crash_base crash_size v).hsa LC_OS_INFO 8 = PAGE_SIZE :=
    crashed_memory_word
  unfold os_info_at
  rw [haddr, crashed_machine_hsa]
  by_cases hin : PAGE_SIZE < hsa_size
  · have haddr : ∀ i, PAGE_SIZE / PAGE_SIZE * PAGE_SIZE + (hsa_page + i - hsa_page) = PAGE_SIZE + i := fun i => by
      rw [Nat.add_sub_cancel_left, Nat.div_self (by decide), Nat.one_mul]
    refine ⟨hsa_page, _, if_pos hin, by decide, by decide, fun i _ => ?_⟩
    exact (congrArg (crashed_memory stage3 crash_base crash_size) (haddr i)).trans crashed_memory_page
  · exact ⟨PAGE_SIZE, _, if_neg hin, by decide, by decide, fun i _ => crashed_memory_page⟩

theorem crashed_machine_crashed (hsa_size : Nat) (v : Mem) (hbase : crash_base < 2 ^ 64)
    (hsize : crash_size < 2 ^ 64)
    (hne : crash_base ≠ 0) : Crashed stage3 (crashed_machine stage3 crash_base crash_size v)
      hsa_size crash_base crash_size
      (crashed_memory stage3 crash_base crash_size) (crashed_memory stage3 crash_base crash_size) := by
  obtain ⟨a, m, hat, ha, halign, hpage⟩ := @crashed_machine_at stage3 crash_base crash_size hsa_size v
  obtain ⟨hcheck, hb, hs⟩ :=
    @page_valid stage3 crash_base crash_size (crashed_machine stage3 crash_base crash_size v) m a hbase
    hsize hne ha halign rfl hpage
  refine ⟨fun _ _ => rfl, fun _ _ => rfl, ?_, ?_, ?_⟩ <;> rw [hat]
  · exact hcheck
  · exact hb
  · exact hs

end

theorem exists_other (x y : UInt8) : ∃ c : UInt8, c ≠ x ∧ c ≠ y := by
  by_cases h₀ : (0 : UInt8) ≠ x ∧ (0 : UInt8) ≠ y
  · exact ⟨0, h₀⟩
  by_cases h₁ : (1 : UInt8) ≠ x ∧ (1 : UInt8) ≠ y
  · exact ⟨1, h₁⟩
  refine ⟨2, ?_, ?_⟩
  · rintro rfl
    rw [not_and_or, not_not, not_not] at h₀ h₁
    have h := h₀.resolve_left (by decide)
    exact absurd (h.trans (h₁.resolve_left (by decide)).symm) (by decide)
  · rintro rfl
    rw [not_and_or, not_not, not_not] at h₀ h₁
    have h := h₀.resolve_right (by decide)
    exact absurd (h.trans (h₁.resolve_right (by decide)).symm) (by decide)

/-! ## Exactly the sizes that fit -/

section
variable {stage3 : Stage3} {blk_cnt hsa_size crash_base crash_size : Nat}

theorem fits_of_every_run (hblk : sclp_hsa_get_size blk_cnt = some hsa_size) (hpos : 0 < crash_size)
    (hle : crash_size ≤ crash_base) (hend : crash_base + crash_size ≤ 2 ^ 64)
    (h : ∀ (machine : Machine) (mem orig : Mem), Crashed stage3 machine hsa_size crash_base crash_size orig mem →
      ∃ s, kdump_stage3_scsi stage3 machine blk_cnt mem = .ok (crash_base, crash_size, s) ∧
        Preserved hsa_size crash_base crash_size orig s) : Fits stage3 hsa_size crash_base crash_size := by
  choose v hv using fun a => exists_other (crashed_memory stage3 crash_base crash_size a)
    (crashed_memory stage3 crash_base crash_size (a - crash_base))
  have hc := @crashed_machine_crashed stage3 crash_base crash_size hsa_size v (by omega) (by omega) (by omega)
  obtain ⟨s, os_info, hfound, heq⟩ := crashed_found hblk hc (Or.inr (Or.inl (by
    rw [show word (crashed_machine stage3 crash_base crash_size v).hsa LC_OS_INFO 8 =
      PAGE_SIZE from crashed_memory_word]
    decide)))
  obtain ⟨s', hrun, hp⟩ := h _ _ _ hc
  rw [heq] at hrun
  have hrestore : restore stage3 (crashed_machine stage3 crash_base crash_size v)
    hsa_size crash_base crash_size s = .ok s' := by
    cases hr : restore stage3 (crashed_machine stage3 crash_base crash_size v) hsa_size crash_base crash_size s with
    | error e =>
      rw [hr] at hrun
      cases hrun
    | ok s₁ =>
      rw [hr] at hrun
      have hpair := Except.ok.inj hrun
      exact congrArg Except.ok (Prod.mk.inj (Prod.mk.inj hpair).2).2
  exact fits_of_preserved hpos hle (get_size_some hblk).2 (fun _ => rfl) hend (fun a =>
    ⟨(hv a).1, fun _ _ => (hv a).2⟩)
    (fun a ha => (hfound.owned a ha).choose_spec) hrestore hp

/-- After the copies the memory of every crashed system is preserved, just if the sizes fit. -/
theorem kdump_exact_iff (hblk : sclp_hsa_get_size blk_cnt = some hsa_size) (hbase : PAGE_SIZE ∣ crash_base)
    (hsize : PAGE_SIZE ∣ crash_size) (hpos : 0 < crash_size) (hle : crash_size ≤ crash_base)
    (hend : crash_base + crash_size ≤ 2 ^ 64) :
    (∀ (machine : Machine) (mem orig : Mem), Crashed stage3 machine hsa_size crash_base crash_size orig mem →
      ∃ s, kdump_stage3_scsi stage3 machine blk_cnt mem = .ok (crash_base, crash_size, s) ∧
        Preserved hsa_size crash_base crash_size orig s) ↔ Fits stage3 hsa_size crash_base crash_size :=
  ⟨fits_of_every_run hblk hpos hle hend, fun hf _ _ _ hc => preserved_of_fits hblk hpos hle hbase hsize hf hc⟩

end

def loader : Stage3 where
  csum_partial := fun _ => 0
  program_end := 0x10000
  program_end_ge := by decide
  program_end_le := by decide

/-- 128 MiB for the crash kernel at 256 MiB, and 32 MiB in the HSA. -/
theorem kdump_exact_small : Fits loader 0x2000000 0x10000000 0x8000000 ∧
    ∀ (machine : Machine) (mem orig : Mem), Crashed loader machine 0x2000000 0x10000000 0x8000000 orig mem →
      ∃ s, kdump_stage3_scsi loader machine 8193 mem = .ok (0x10000000, 0x8000000, s) ∧
        Preserved 0x2000000 0x10000000 0x8000000 orig s := by
  have hf : Fits loader 0x2000000 0x10000000 0x8000000 :=
    ⟨by decide, by decide, by decide, by decide, by decide, by decide⟩
  exact ⟨hf, (kdump_exact_iff (by decide) (by decide) (by decide) (by decide) (by decide) (by decide)).mpr hf⟩

/-- With 2 GiB in the HSA the length of the first copy is a negative `int`. -/
theorem long_copy_negative : ¬ ∀ (blk_cnt hsa_size crash_base crash_size : Nat),
    sclp_hsa_get_size blk_cnt = some hsa_size →
    PAGE_SIZE ∣ crash_base → PAGE_SIZE ∣ crash_size → 0 < crash_size → crash_size ≤ crash_base →
    crash_base + crash_size ≤ 2 ^ 64 →
    ∀ (machine : Machine) (mem orig : Mem), Crashed loader machine hsa_size crash_base crash_size orig mem →
      ∃ s, kdump_stage3_scsi loader machine blk_cnt mem = .ok (crash_base, crash_size, s) ∧
        Preserved hsa_size crash_base crash_size orig s := by
  intro h
  have hf := fits_of_every_run (by decide) (by decide) (by decide) (by decide)
    (h 0x80001 0x80000000 0x80000000 0x80000000 (by decide) (by decide) (by decide) (by decide)
      (by decide) (by decide))
  exact absurd hf.first (by decide)

end Zipl.Kdump
