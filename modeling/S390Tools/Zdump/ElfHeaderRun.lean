import S390Tools.Zdump.ElfHeader

/-!
# The estimated size of an ELF header

The notes of a CPU with vector registers take four bytes more than the estimate has for
them. The estimate holds as long as the base size makes up for that.
-/

namespace Zdump.Elf

open Stdio Word

/-! ## Sizes -/

@[simp] theorem length_zeros (n : Nat) : (zeros n).length = n := List.length_replicate

@[simp] theorem length_be64 (v : UInt64) : (be64 v).length = 8 := length_be 8 _

@[simp] theorem length_be32 (v : UInt32) : (be32 v).length = 4 := length_be 4 _

theorem length_flatMap_const {α : Type} {f : α → Bytes} {k : Nat} (hf : ∀ a, (f a).length = k) (l : List α) :
    (l.flatMap f).length = k * l.length := by
  rw [List.length_flatMap, List.map_congr_left fun a _ => hf a, List.map_const', List.sum_replicate,
    smul_eq_mul, mul_comm]

@[simp] theorem length_regs64 {n : Nat} (v : Vector UInt64 n) : (regs64 v).length = 8 * n := by
  rw [regs64, length_flatMap_const length_be64, Vector.length_toList]

@[simp] theorem length_regs32 {n : Nat} (v : Vector UInt32 n) : (regs32 v).length = 4 * n := by
  rw [regs32, length_flatMap_const length_be32, Vector.length_toList]

@[simp] theorem length_vxrs {n : Nat} (v : Vector DfiVxrs n) : (vxrs v).length = 16 * n := by
  rw [vxrs, length_flatMap_const (k := 16) (fun x => by rw [List.length_append, length_be64, length_be64]),
    Vector.length_toList]

theorem length_names : (chars "CORE").length = 4 ∧ (chars "LINUX").length = 5 ∧ (chars "VMCOREINFO").length = 10 ∧
    (chars "vmlinux").length = 7 := by
  decide +kernel

@[simp] theorem length_CORE : (chars "CORE").length = 4 := length_names.1

@[simp] theorem length_LINUX : (chars "LINUX").length = 5 := length_names.2.1

@[simp] theorem length_VMCOREINFO : (chars "VMCOREINFO").length = 10 := length_names.2.2.1

@[simp] theorem length_prstatus (pr_pid : Nat) (cpu : DfiCpu) : (prstatus pr_pid cpu).length = 336 := by
  simp [prstatus]

@[simp] theorem length_fpregset (cpu : DfiCpu) : (fpregset cpu).length = 136 := by simp [fpregset]

@[simp] theorem length_prpsinfo : prpsinfo.length = 136 := by simp [prpsinfo, length_names.2.2.2]

@[simp] theorem length_ehdr (phnum : Nat) : (ehdr phnum).length = 64 := by simp [ehdr]

@[simp] theorem length_phdr (type flags offset addr filesz memsz align : Nat) :
    (phdr type flags offset addr filesz memsz align).length = 56 := by simp [phdr]

/-! ## Notes -/

def Write.stop (w : Write) : Nat := w.off + w.bytes.length

/-- The writes end before the next place, and the last one less than four bytes before it. -/
structure Tight (o : Out) : Prop where
  aligned : 4 ∣ o.ptr
  inside : ∀ w ∈ o.writes, w.stop ≤ o.ptr
  last : ∃ w ∈ o.writes, w.bytes ≠ [] ∧ o.ptr ≤ w.stop + 3

def note_size (name desc : Nat) : Nat := ROUNDUP (ROUNDUP (13 + name) 4 + desc) 4

theorem le_roundup (x : Nat) : x ≤ ROUNDUP x 4 ∧ ROUNDUP x 4 ≤ x + 3 ∧ 4 ∣ ROUNDUP x 4 := by
  unfold ROUNDUP
  omega

theorem nt_init_ptr (type : Nat) (desc name : Bytes) (o : Out) :
    (nt_init type desc name o).ptr = o.ptr + note_size name.length desc.length := by
  have hname : 12 + (name.length + 1) = 13 + name.length := by omega
  rw [note_size, ← hname]
  rfl

theorem nt_init_tight {o : Out} (haligned : 4 ∣ o.ptr) (hinside : ∀ w ∈ o.writes, w.stop ≤ o.ptr) (type : Nat)
    (desc name : Bytes) : Tight (nt_init type desc name o) := by
  have hptr := nt_init_ptr type desc name o
  obtain ⟨hname, hname', hname4⟩ := le_roundup (13 + name.length)
  obtain ⟨hdesc, hdesc', hdesc4⟩ := le_roundup (ROUNDUP (13 + name.length) 4 + desc.length)
  have hoff : ROUNDUP (12 + (name.length + 1)) 4 = ROUNDUP (13 + name.length) 4 := by
    congr 1
    omega
  rw [note_size] at hptr
  refine ⟨?_, fun w hw => ?_, ?_⟩
  · rw [hptr]
    exact Nat.dvd_add haligned hdesc4
  · rw [hptr]
    rcases List.mem_append.mp hw with hw | hw
    · exact (hinside w hw).trans (Nat.le_add_right _ _)
    · simp only [List.mem_cons, List.not_mem_nil, or_false] at hw
      rcases hw with rfl | rfl | rfl
      · simp only [Write.stop, List.length_append, length_be]
        omega
      · simp only [Write.stop, List.length_append, List.length_singleton]
        omega
      · simp only [Write.stop, hoff]
        omega
  · rw [hptr]
    by_cases hnil : desc = []
    · refine ⟨⟨o.ptr + 12, name ++ [0]⟩, List.mem_append_right _ (by simp), by simp, ?_⟩
      rw [hnil, List.length_nil] at hdesc'
      have hzero : ROUNDUP (ROUNDUP (13 + name.length) 4 + 0) 4 = ROUNDUP (13 + name.length) 4 := by
        unfold ROUNDUP
        omega
      rw [hnil, List.length_nil, hzero]
      simp only [Write.stop, List.length_append, List.length_singleton]
      omega
    · refine ⟨⟨o.ptr + ROUNDUP (12 + (name.length + 1)) 4, desc⟩, List.mem_append_right _ (by simp), hnil, ?_⟩
      simp only [Write.stop, hoff]
      omega

theorem Tight.note {o : Out} (h : Tight o) (type : Nat) (desc name : Bytes) : Tight (nt_init type desc name o) :=
  nt_init_tight h.aligned h.inside type desc name

section
variable (cpu : DfiCpu) (o : Out)

@[simp] theorem nt_prstatus_ptr (cpu_nr : Nat) : (nt_prstatus cpu_nr cpu o).ptr = o.ptr + 356 := by
  rw [nt_prstatus, nt_init_ptr, length_CORE, length_prstatus]
  rfl

@[simp] theorem nt_fpregset_ptr : (nt_fpregset cpu o).ptr = o.ptr + 156 := by
  rw [nt_fpregset, nt_init_ptr, length_CORE, length_fpregset]
  rfl

@[simp] theorem nt_s390_timer_ptr : (nt_s390_timer cpu o).ptr = o.ptr + 28 := by
  rw [nt_s390_timer, nt_init_ptr, length_LINUX, length_be64]
  rfl

@[simp] theorem nt_s390_tod_cmp_ptr : (nt_s390_tod_cmp cpu o).ptr = o.ptr + 28 := by
  rw [nt_s390_tod_cmp, nt_init_ptr, length_LINUX, length_be64]
  rfl

@[simp] theorem nt_s390_tod_preg_ptr : (nt_s390_tod_preg cpu o).ptr = o.ptr + 24 := by
  rw [nt_s390_tod_preg, nt_init_ptr, length_LINUX, length_be32]
  rfl

@[simp] theorem nt_s390_ctrs_ptr : (nt_s390_ctrs cpu o).ptr = o.ptr + 148 := by
  rw [nt_s390_ctrs, nt_init_ptr, length_LINUX, length_regs64]
  rfl

@[simp] theorem nt_s390_prefix_ptr : (o |> nt_s390_prefix cpu).ptr = o.ptr + 24 := by
  unfold nt_s390_prefix
  rw [nt_init_ptr, length_LINUX, length_be32]
  rfl

@[simp] theorem nt_s390_vxrs_low_ptr : (nt_s390_vxrs_low cpu o).ptr = o.ptr + 148 := by
  rw [nt_s390_vxrs_low, nt_init_ptr, length_LINUX, length_regs64]
  rfl

@[simp] theorem nt_s390_vxrs_high_ptr : (nt_s390_vxrs_high cpu o).ptr = o.ptr + 276 := by
  rw [nt_s390_vxrs_high, nt_init_ptr, length_LINUX, length_vxrs]
  rfl

@[simp] theorem nt_prpsinfo_ptr : (nt_prpsinfo o).ptr = o.ptr + 156 := by
  rw [nt_prpsinfo, nt_init_ptr, length_CORE, length_prpsinfo]
  rfl

end

def cpu_size (fac_vx : Bool) : Nat := if fac_vx then 1188 else 764

def vmcoreinfo_size : Option Bytes → Nat
  | none => 0
  | some text => 24 + ROUNDUP text.length 4

theorem cpu_notes_ptr (fac_vx : Bool) : ∀ (cpus : List DfiCpu) (cpu_nr : Nat) (o : Out),
    (cpu_notes fac_vx cpu_nr cpus o).ptr = o.ptr + cpus.length * cpu_size fac_vx
  | [], _, o => by rw [cpu_notes, List.length_nil, Nat.zero_mul, Nat.add_zero]
  | cpu :: cpus, cpu_nr, o => by
    rw [cpu_notes, cpu_notes_ptr fac_vx cpus, List.length_cons, Nat.add_mul]
    cases fac_vx with
    | false =>
      simp only [Bool.false_eq_true, if_false, nt_s390_prefix_ptr, nt_s390_ctrs_ptr, nt_s390_tod_preg_ptr,
        nt_s390_tod_cmp_ptr, nt_s390_timer_ptr, nt_fpregset_ptr, nt_prstatus_ptr, cpu_size]
      omega
    | true =>
      simp only [if_true, nt_s390_vxrs_high_ptr, nt_s390_vxrs_low_ptr, nt_s390_prefix_ptr, nt_s390_ctrs_ptr,
        nt_s390_tod_preg_ptr, nt_s390_tod_cmp_ptr, nt_s390_timer_ptr, nt_fpregset_ptr, nt_prstatus_ptr, cpu_size]
      omega

theorem Tight.cpu_notes {fac_vx : Bool} : ∀ {cpus : List DfiCpu} {cpu_nr : Nat} {o : Out}, Tight o →
    Tight (cpu_notes fac_vx cpu_nr cpus o)
  | [], _, _, h => h
  | cpu :: cpus, cpu_nr, o, h => by
    rw [Elf.cpu_notes]
    refine Tight.cpu_notes ?_
    have hprstatus : Tight (nt_prstatus cpu_nr cpu o) := h.note _ _ _
    have hfpregset : Tight (nt_fpregset cpu (nt_prstatus cpu_nr cpu o)) := hprstatus.note _ _ _
    have htimers : Tight (nt_s390_tod_preg cpu (nt_s390_tod_cmp cpu (nt_s390_timer cpu (nt_fpregset cpu
        (nt_prstatus cpu_nr cpu o))))) := ((hfpregset.note _ _ _).note _ _ _).note _ _ _
    have hregs : Tight <| nt_s390_prefix cpu (nt_s390_ctrs cpu (nt_s390_tod_preg cpu (nt_s390_tod_cmp cpu
        (nt_s390_timer cpu (nt_fpregset cpu (nt_prstatus cpu_nr cpu o)))))) := (htimers.note _ _ _).note _ _ _
    cases fac_vx with
    | false => exact hregs
    | true => exact (hregs.note _ _ _).note _ _ _

theorem vmcoreinfo_ptr (vmcoreinfo : Option Bytes) (o : Out) :
    (nt_vmcoreinfo vmcoreinfo o).ptr = o.ptr + vmcoreinfo_size vmcoreinfo := by
  cases vmcoreinfo with
  | none => rfl
  | some text =>
    have hround : ROUNDUP (ROUNDUP (13 + 10) 4 + text.length) 4 = 24 + ROUNDUP text.length 4 := by
      unfold ROUNDUP
      omega
    rw [nt_vmcoreinfo, nt_init_ptr, length_VMCOREINFO, note_size, hround]
    rfl

def notes_size (m : Dfi) : Nat :=
  156 + (if m.content = .all then m.cpus.length * cpu_size m.fac_vx else 0) + vmcoreinfo_size m.vmcoreinfo

theorem notes_ptr (m : Dfi) (o : Out) : (notes m o).ptr = o.ptr + notes_size m := by
  rw [notes, vmcoreinfo_ptr, notes_size]
  by_cases hall : m.content = .all
  · rw [if_pos hall, if_pos hall, cpu_notes_ptr, nt_prpsinfo_ptr]
    omega
  · rw [if_neg hall, if_neg hall, nt_prpsinfo_ptr]
    omega

theorem notes_tight {o : Out} (haligned : 4 ∣ o.ptr) (hinside : ∀ w ∈ o.writes, w.stop ≤ o.ptr) (m : Dfi) :
    Tight (notes m o) := by
  have hfirst : Tight (nt_prpsinfo o) := nt_init_tight haligned hinside _ _ _
  have hcpus : Tight (if m.content = .all then cpu_notes m.fac_vx 1 m.cpus (nt_prpsinfo o) else nt_prpsinfo o) := by
    by_cases hall : m.content = .all
    · rw [if_pos hall]
      exact hfirst.cpu_notes
    · rw [if_neg hall]
      exact hfirst
  rw [notes]
  cases m.vmcoreinfo with
  | none => exact hcpus
  | some text => exact hcpus.note _ _ _

/-! ## The header -/

/-- All bytes are inside of the memory, whose size does not wrap, and the check finds nothing. -/
structure Fits (m : Dfi) : Prop where
  size : (elf_header m).alloc_size = estimate m
  writes : ∀ w ∈ (elf_header m).writes, ∀ i < w.bytes.length, w.off + i < (elf_header m).alloc_size
  check : (dfo_elf_init m).isSome

/-- What the base size has left for the notes of CPUs with vector registers. -/
def Enough (m : Dfi) : Prop :=
  estimate m < 2 ^ 32 ∧
    (m.content = .all → m.fac_vx = true →
      4 * m.cpus.length + vmcoreinfo_size m.vmcoreinfo ≤ 7916 + 200 * m.chunks.length)

def header_end (m : Dfi) : Nat := 120 + 56 * m.chunks.length + notes_size m

theorem enough_iff {m : Dfi} (hinfo : ∀ text ∈ m.vmcoreinfo, text.length ≤ 4096) :
    Enough m ↔ estimate m < 2 ^ 32 ∧ header_end m ≤ estimate m := by
  have hsize : vmcoreinfo_size m.vmcoreinfo ≤ 4120 := by
    cases hv : m.vmcoreinfo with
    | none => exact Nat.zero_le _
    | some text =>
      have hlen := hinfo text hv
      have hround := le_roundup text.length
      simp only [vmcoreinfo_size, ROUNDUP] at hround ⊢
      omega
  rw [Enough, header_end, notes_size, estimate, HDR_BASE_SIZE, HDR_PER_CPU_SIZE, HDR_PER_MEMC_SIZE]
  refine and_congr_right fun _ => ?_
  by_cases hall : m.content = .all
  · rw [if_pos hall]
    cases hvx : m.fac_vx with
    | false =>
      simp only [cpu_size, Bool.false_eq_true, if_false]
      exact ⟨fun _ => by omega, fun _ _ h => (by cases h)⟩
    | true =>
      simp only [cpu_size, if_true, hall, true_implies]
      omega
  · rw [if_neg hall]
    exact ⟨fun _ => by omega, fun _ h => absurd h hall⟩

theorem loads_stop : ∀ (cs : List DfiMemChunk) (loads_offset phdr_loads : Nat),
    ∀ w ∈ loads_init loads_offset phdr_loads cs, w.stop ≤ phdr_loads + 56 * cs.length
  | [], _, _, w, hw => (List.not_mem_nil hw).elim
  | c :: cs, loads_offset, phdr_loads, w, hw => by
    rw [List.length_cons]
    rcases List.mem_cons.mp hw with rfl | hw
    · simp only [Write.stop, length_phdr]
      omega
    · have := loads_stop cs _ _ w hw
      omega

theorem header_writes (m : Dfi) :
    4 ∣ header_end m ∧ (∀ w ∈ (elf_header m).writes, w.stop ≤ header_end m) ∧
      ∃ w ∈ (elf_header m).writes, w.bytes ≠ [] ∧ header_end m ≤ w.stop + 3 := by
  have htight : Tight (notes m ⟨120 + 56 * m.chunks.length, [⟨0, ehdr (m.chunks.length + 1)⟩]⟩) := by
    refine notes_tight ?_ (fun w hw => ?_) m
    · dsimp only
      omega
    · obtain rfl := List.mem_singleton.mp hw
      simp only [Write.stop, length_ehdr]
      omega
  have hptr := notes_ptr m ⟨120 + 56 * m.chunks.length, [⟨0, ehdr (m.chunks.length + 1)⟩]⟩
  have hend : (notes m ⟨120 + 56 * m.chunks.length, [⟨0, ehdr (m.chunks.length + 1)⟩]⟩).ptr = header_end m := hptr
  have hle : 120 + 56 * m.chunks.length ≤ header_end m := Nat.le_add_right _ _
  simp only [elf_header, notes_init]
  refine ⟨hend ▸ htight.aligned, fun w hw => ?_, ?_⟩
  · rcases List.mem_append.mp hw with hw | hw
    · rcases List.mem_append.mp hw with hw | hw
      · exact hend ▸ htight.inside w hw
      · obtain rfl := List.mem_singleton.mp hw
        simp only [Write.stop, length_phdr]
        omega
    · exact (loads_stop m.chunks _ _ w hw).trans hle
  · obtain ⟨w, hw, hne, hlast⟩ := htight.last
    exact ⟨w, List.mem_append_left _ (List.mem_append_left _ hw), hne, hend ▸ hlast⟩

theorem header_size (m : Dfi) : (elf_header m).hdr_size = u32 (header_end m : Nat) := by
  have hptr := notes_ptr m ⟨120 + 56 * m.chunks.length, [⟨0, ehdr (m.chunks.length + 1)⟩]⟩
  simp only [elf_header, notes_init]
  rw [hptr]
  rfl

theorem estimate_aligned (m : Dfi) : 4 ∣ estimate m := by
  rw [estimate, HDR_BASE_SIZE, HDR_PER_CPU_SIZE, HDR_PER_MEMC_SIZE]
  omega

theorem fits_iff (m : Dfi) : Fits m ↔ estimate m < 2 ^ 32 ∧ header_end m ≤ estimate m := by
  obtain ⟨haligned, hinside, w, hw, hne, hlast⟩ := header_writes m
  have halloc : (elf_header m).alloc_size = u32 (estimate m : Nat) := rfl
  constructor
  · intro ⟨hsize, hwrites, _⟩
    have hlt : estimate m < 2 ^ 32 := by
      rw [halloc, u32] at hsize
      omega
    have hpos := List.length_pos_iff.mpr hne
    have hbyte := hwrites w hw (w.bytes.length - 1) (by omega)
    have haligned' := estimate_aligned m
    rw [hsize] at hbyte
    rw [Write.stop] at hlast
    exact ⟨hlt, by omega⟩
  · intro ⟨hlt, hle⟩
    have hsize : (elf_header m).alloc_size = estimate m := by
      rw [halloc, u32]
      omega
    refine ⟨hsize, fun w hw i hi => ?_, ?_⟩
    · have hstop := hinside w hw
      rw [Write.stop] at hstop
      omega
    · have hhdr : ¬(elf_header m).hdr_size > (elf_header m).alloc_size := by
        rw [hsize, header_size, u32]
        omega
      rw [dfo_elf_init, if_neg hhdr]
      rfl

/-- Where the estimate is large enough. -/
theorem estimate_enough {m : Dfi} (hinfo : ∀ text ∈ m.vmcoreinfo, text.length ≤ 4096) : Fits m ↔ Enough m :=
  (fits_iff m).trans (enough_iff hinfo).symm

def cpu_zero : DfiCpu where
  gprs := .replicate 16 0
  ctrs := .replicate 16 0
  acrs := .replicate 16 0
  fprs := .replicate 16 0
  fpc := 0
  psw := .replicate 2 0
  prefixreg := 0
  timer := 0
  todcmp := 0
  todpreg := 0
  vxrs_low := .replicate 16 0
  vxrs_high := .replicate 16 ⟨0, 0⟩

def vector_dump (cpu_cnt : Nat) : Dfi where
  content := .all
  fac_vx := true
  cpus := List.replicate cpu_cnt cpu_zero
  chunks := [⟨0, 0xfffff⟩]
  vmcoreinfo := none

theorem length_vector_dump (n : Nat) : (vector_dump n).cpus.length = n := List.length_replicate

theorem vector_dump_not_enough : ¬Enough (vector_dump 2048) := fun h => by
  have hle := h.2 rfl rfl
  rw [length_vector_dump] at hle
  exact absurd hle (by decide)

theorem estimate_enough_two :
    Fits { vector_dump 2 with vmcoreinfo := some (.replicate 100 0x41) } ∧ ¬Fits (vector_dump 2048) := by
  refine ⟨(estimate_enough fun text h => ?_).mpr ⟨by decide, fun _ _ => by decide⟩, fun h => ?_⟩
  · obtain rfl := Option.mem_some.mp h
    decide
  · exact vector_dump_not_enough ((estimate_enough fun text h => by cases h).mp h)

/-- The notes of 2048 CPUs do not fit. -/
theorem notes_overflow :
    ¬∀ m : Dfi, (∀ text ∈ m.vmcoreinfo, text.length ≤ 4096) → estimate m < 2 ^ 32 → Fits m := by
  intro h
  have hlt : estimate (vector_dump 2048) < 2 ^ 32 := by
    rw [estimate, length_vector_dump]
    decide
  have hfits := h (vector_dump 2048) (fun text htext => by cases htext) hlt
  exact vector_dump_not_enough ((enough_iff fun text htext => by cases htext).mpr ((fits_iff _).mp hfits))

end Zdump.Elf
