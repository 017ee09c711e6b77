import S390Tools.Zdump.Layout
import S390Tools.Zdump.MemoryMap
import S390Tools.Zdump.RangeCheck

/-!
# Reads during the initialisation

What zgetdump reads from a dump before it does anything with it: where the kdump
area is, the os_info block, vmcoreinfo, the lowcores and vector save areas of the
CPUs. The addresses come from the dump; a read of an address that is not mapped
ends the program.
-/

namespace Zdump.Memory

open Word

/-! ## Reads and the check in front of them -/

def dfi_mem_read_rc (addr cnt : Nat) (s : State) : Except Fault (Option (List UInt8) × State) := do
  let (valid, s) ← dfi_mem_range_valid addr cnt s
  if !valid then return (none, s)
  let (b, s) ← dfi_mem_read addr cnt s
  return (some b, s)

/-! ## The os_info block and vmcoreinfo -/

def LC_OS_INFO : Nat := 0xe18
def LC_VMCORE_INFO : Nat := 0xe0c
def OS_INFO_MAGIC : Nat := 0x4f53494e464f535a

def field (b : List UInt8) (off size : Nat) : Nat := word ((b.drop off).take size)

section
variable ( zg_csum_partial : List UInt8 → Nat)

def os_info_ok (os_info : List UInt8) : Bool :=
  field os_info 0 8 = OS_INFO_MAGIC && field os_info 8 4 = zg_csum_partial (os_info.drop 12)

def os_info_get (s : State) : Except Fault (Option (List UInt8) × State) := do
  let (b, s) ← dfi_mem_read LC_OS_INFO 8 s
  let addr := word b
  if addr % 0x1000 ≠ 0 then return (none, s)
  let (os_info, s) ← dfi_mem_read_rc addr 4096 s
  return (os_info.filter (os_info_ok zg_csum_partial), s)

def vmcoreinfo_range (os_info : List UInt8) : Option (Nat × Nat) :=
  if field os_info 40 8 = 0 then none else some (field os_info 32 8, field os_info 40 8)

/-- `str` has 128 bytes, set to zero; the comparison is of the name with its NUL. -/
def is_vmcoreinfo (str : List UInt8) : Bool :=
  (str ++ List.replicate 128 0).take 11 = [0x56, 0x4d, 0x43, 0x4f, 0x52, 0x45, 0x49, 0x4e, 0x46, 0x4f, 0]

def vmcoreinfo_note (s : State) : Except Fault (Option (List UInt8) × State) := do
  let (b, s) ← dfi_mem_read LC_VMCORE_INFO 8 s
  let addr := word b
  if addr = 0 then return (none, s)
  let (note, s) ← dfi_mem_read_rc addr 12 s
  match note with
  | none => return (none, s)
  | some note =>
    let (str, s) ← dfi_mem_read_rc (u64 (addr + 12 : Nat)) (field note 0 4) s
    match str with
    | none => return (none, s)
    | some str =>
      if is_vmcoreinfo str then dfi_mem_read_rc (u64 (addr + 24 : Nat)) (field note 4 4) s
      else return (none, s)

def dfi_vmcoreinfo_init (s : State) : Except Fault (Option (List UInt8) × State) := do
  let (os_info, s) ← os_info_get zg_csum_partial s
  match os_info.bind vmcoreinfo_range with
  | some (addr, size) => dfi_mem_read_rc addr size s
  | none => vmcoreinfo_note s

end

/-! ## The CPUs -/

/-- What is read for a CPU; the registers are copied from it. -/
structure CpuAreas where
  prefixreg : Nat
  lc : Option (List UInt8)
  vx_sa : Option (List UInt8)

def DFI_VX_SA_SIZE : Nat := 512

/-- `dfi_cpu_lc_has_vx_sa` for an address in a 64-bit lowcore. -/
def has_vx_sa (addr : Nat) : Bool := addr ≠ 0 && addr % 1024 = 0

def lc2cpu_64 (lc : List UInt8) (s : State) : Except Fault (Option (List UInt8) × State) := do
  let addr := field lc 0x11b0 8
  if !has_vx_sa addr then return (none, s)
  let (b, s) ← dfi_mem_read addr DFI_VX_SA_SIZE s
  return (some b, s)

def dfi_cpu_add_from_lc (arch : DfiArch) (cpu_content : DfiCpuContent) (lc_addr : UInt32) (s : State) :
    Except Fault (CpuAreas × State) :=
  match cpu_content with
  | .lc => .ok ({ prefixreg := lc_addr.toNat, lc := none, vx_sa := none }, s)
  | .all =>
    if arch = .arch_32 then do
      let (lc, s) ← dfi_mem_read lc_addr.toNat 0x1000 s
      return ({ prefixreg := field lc 0x108 4, lc := some lc, vx_sa := none }, s)
    else do
      let (lc, s) ← dfi_mem_read lc_addr.toNat 0x2000 s
      let (vx_sa, s) ← lc2cpu_64 lc s
      return ({ prefixreg := field lc 0x1318 4, lc := some lc, vx_sa }, s)
  | .none => .error .content_none

/-- The members of the dump header that tell about the CPUs; the vector is followed by other memory. -/
structure DfS390Hdr where
  version : UInt32
  arch : UInt32
  cpu_cnt : UInt16
  lc_vec : Nat → UInt32

def df_s390_to_dfi_arch (arch : UInt32) : DfiArch := if arch = 2 then .arch_64 else .arch_32

def check_addr_max (hdr : DfS390Hdr) (addr_max : Nat) : Bool :=
  (List.range hdr.cpu_cnt.toNat).all fun i =>
    u32 ((hdr.lc_vec i).toNat + dfi_lc_size (df_s390_to_dfi_arch hdr.arch) : Nat) ≤ addr_max

def add_cpus (arch : DfiArch) (cpu_content : DfiCpuContent) : List UInt32 → State →
    Except Fault (List CpuAreas × State)
  | [], s => .ok ([], s)
  | lc_addr :: lc_addrs, s => do
    let (cpu, s) ← dfi_cpu_add_from_lc arch cpu_content lc_addr s
    let (cpus, s) ← add_cpus arch cpu_content lc_addrs s
    return (cpu :: cpus, s)

def cpu_content_of (hdr : DfS390Hdr) (addr_max : Nat) : DfiCpuContent :=
  if hdr.version < 5 then .none else if check_addr_max hdr addr_max then .all else .lc

def df_s390_cpu_info_add (hdr : DfS390Hdr) (addr_max : Nat) (s : State) : Except Fault (List CpuAreas × State) :=
  let cpu_cnt := if hdr.version < 5 then 0 else hdr.cpu_cnt.toNat
  add_cpus (df_s390_to_dfi_arch hdr.arch) (cpu_content_of hdr addr_max) ((List.range cpu_cnt).map hdr.lc_vec) s

/-! ## What a read returns -/

def virt_byte (s : State) (a : Nat) : UInt8 :=
  match s.mem_virt.chunk_list.find? fun c => mem_chunk_has_addr c a with
  | none => 0
  | some c => phys_byte s.mem_phys.chunk_list (mem_chunk_start_phys c + (a - c.start))

def bytes (s : State) (addr n : Nat) : List UInt8 := (List.range n).map fun i => virt_byte s (u64 (addr + i : Nat))

section
variable {s s' : State} {addr cnt : Nat}

theorem Touched.virt_byte (h : Touched s s') (a : Nat) : virt_byte s' a = virt_byte s a := by
  unfold Memory.virt_byte
  rw [h.virt, h.phys]

theorem Touched.bytes (h : Touched s s') (addr n : Nat) : bytes s' addr n = bytes s addr n := by
  unfold Memory.bytes
  simp only [h.virt_byte]

theorem virt_byte_eq (h : Inv s) {c : Chunk} (hc : c ∈ s.mem_virt.chunk_list) {a : Nat}
    (ha : mem_chunk_has_addr c a) :
    virt_byte s a = phys_byte s.mem_phys.chunk_list (mem_chunk_start_phys c + (a - c.start)) := by
  unfold virt_byte
  rw [find_addr h.wf.virt_disjoint hc ha]

theorem u64_small {a : Nat} (ha : a ≤ U64_MAX) : u64 (a : Int) = a := by
  unfold U64_MAX at ha
  rw [u64_of_lt (by omega) (by omega)]
  rfl

theorem u64_u64_add (a k i : Nat) : u64 ((u64 ((a + k : Nat) : Int) + i : Nat) : Int) =
    u64 ((a + (k + i) : Nat) : Int) := by
  rw [Nat.cast_add, u64_u64, ← Nat.cast_add, Nat.add_assoc]

theorem read_round (h : Inv s) {left : Nat} (hpos : left ≠ 0) (hm : Mapped s addr) (fuel : Nat) :
    ∃ k s₁, 1 ≤ k ∧ k ≤ left ∧ Touched s s₁ ∧ (∀ i < k, Mapped s (u64 (addr + i : Nat))) ∧
      virt_read_loop (fuel + 1) left addr s =
        (virt_read_loop fuel (left - k) (u64 ((addr + k : Nat) : Int)) s₁).map fun r =>
          (bytes s addr k ++ r.1, r.2) := by
  obtain ⟨c, hc, ha⟩ := hm
  have hok := (h.wf.virt_ok c hc).1
  have h₁ := ha.1
  have h₂ := ha.2
  have h₃ := hok.fits
  have ht := h.touch_virt hc
  obtain ⟨s₁, hread, ht₁⟩ :=
    @chunk_read_eq _ ht.inv c hc addr (min left (c.stop - addr + 1)) ha.1 (by omega) (by omega)
  have htt := ht.trans ht₁
  have hin : ∀ i < min left (c.stop - addr + 1), mem_chunk_has_addr c (u64 ((addr + i : Nat) : Int)) := by
    intro i hi
    rw [u64_small (by omega)]
    exact ⟨by omega, by omega⟩
  refine ⟨min left (c.stop - addr + 1), s₁, by omega, by omega, htt, fun i hi => ⟨c, hc, hin i hi⟩, ?_⟩
  have hbytes : ((List.range (min left (c.stop - addr + 1))).map fun i =>
      phys_byte s.mem_phys.chunk_list (mem_chunk_start_phys c + (addr + i - c.start))) =
      bytes s addr (min left (c.stop - addr + 1)) := by
    refine List.map_congr_left fun i hi => ?_
    have hlt := List.mem_range.mp hi
    rw [virt_byte_eq h hc (hin i hlt), u64_small (by omega)]
  rw [virt_read_loop, if_neg hpos]
  simp only [h.virt_lookup.find_eq hc ha, piece_size hok ha]
  have hread' := hread.trans (congrArg (fun b => Except.ok (b, s₁)) hbytes)
  simp only [hread']
  cases virt_read_loop fuel (left - min left (c.stop - addr + 1))
    (u64 ((addr + min left (c.stop - addr + 1) : Nat) : Int)) s₁ with
  | error e => rfl
  | ok r => rfl

theorem bytes_split (s : State) (addr : Nat) {k n : Nat} (h : k ≤ n) :
    bytes s addr n = bytes s addr k ++ bytes s (u64 ((addr + k : Nat) : Int)) (n - k) := by
  unfold bytes
  rw [range_split _ h]
  simp only [u64_u64_add]

theorem read_loop_wrapped : ∀ (fuel left addr : Nat) (s : State), Inv s → left ≤ fuel →
    addr ≤ U64_MAX → Wrapped s addr left →
    ∃ s', virt_read_loop fuel left addr s = .ok (bytes s addr left, s') ∧ Touched s s' := by
  intro fuel
  induction fuel with
  | zero =>
    intro left addr s h hl _ _
    rw [Nat.le_zero.mp hl]
    exact ⟨s, rfl, h.refl⟩
  | succ fuel ih =>
    intro left addr s h hl ha hw
    by_cases h0 : left = 0
    · rw [h0, virt_read_loop, if_pos rfl]
      exact ⟨s, rfl, h.refl⟩
    · have hm : Mapped s addr := by
        have := hw 0 (Nat.pos_of_ne_zero h0)
        rwa [Nat.add_zero, u64_small ha] at this
      obtain ⟨k, s₁, h₁, h₂, ht, -, heq⟩ := read_round h h0 hm fuel
      obtain ⟨s₂, heq₂, ht₂⟩ := ih (left - k) (u64 ((addr + k : Nat) : Int)) s₁ ht.inv (by omega)
        (Nat.le_of_lt_succ (u64_lt _)) fun i hi => by
          rw [u64_u64_add, ht.mapped]
          exact hw (k + i) (by omega)
      refine ⟨s₂, ?_, ht.trans ht₂⟩
      rw [heq, heq₂, bytes_split s addr h₂, ht.bytes]
      rfl

theorem read_loop_unmapped : ∀ (fuel left addr : Nat) (s : State), Inv s → left ≤ fuel → addr ≤ U64_MAX →
    ¬ Wrapped s addr left → virt_read_loop fuel left addr s = .error .null_chunk := by
  intro fuel
  induction fuel with
  | zero =>
    intro left addr s h hl _ hno
    rw [Nat.le_zero.mp hl] at hno
    exact absurd (fun i hi => absurd hi (Nat.not_lt_zero i)) hno
  | succ fuel ih =>
    intro left addr s h hl ha hno
    have h0 : left ≠ 0 := by
      rintro rfl
      exact hno fun i hi => absurd hi (Nat.not_lt_zero i)
    by_cases hm : Mapped s addr
    · obtain ⟨k, s₁, h₁, h₂, ht, hk, heq⟩ := read_round h h0 hm fuel
      rw [heq, ih (left - k) (u64 ((addr + k : Nat) : Int)) s₁ ht.inv (by omega) (Nat.le_of_lt_succ (u64_lt _))]
      · rfl
      · intro hw
        refine hno fun i hi => ?_
        by_cases hik : i < k
        · exact hk i hik
        · have := hw (i - k) (by omega)
          rw [u64_u64_add, ht.mapped, Nat.add_sub_cancel' (by omega)] at this
          exact this
    · rw [virt_read_loop, if_neg h0]
      have hfind := h.virt_lookup.find_none (a := addr) fun c hc hca => hm ⟨c, hc, hca⟩
      simp only [hfind]

theorem mem_read_wrapped (h : Inv s) (ha : addr ≤ U64_MAX) (hw : Wrapped s addr cnt) :
    ∃ s', dfi_mem_read addr cnt s = .ok (bytes s addr cnt, s') ∧ Touched s s' :=
  read_loop_wrapped cnt cnt addr s h (Nat.le_refl _) ha hw

theorem mem_read_unmapped (h : Inv s) (ha : addr ≤ U64_MAX) (hno : ¬ Wrapped s addr cnt) :
    dfi_mem_read addr cnt s = .error .null_chunk :=
  read_loop_unmapped cnt cnt addr s h (Nat.le_refl _) ha hno

section
variable (h : Inv s) (hl : cnt ≤ U64_MAX)
include h hl

theorem read_rc_passes (hsafe : RcSafe s addr cnt) (hp : Passes s addr cnt) :
    ∃ s', dfi_mem_read_rc addr cnt s = .ok (some (bytes s addr cnt), s') ∧ Touched s s' := by
  obtain ⟨s₁, heq₁, ht₁⟩ := passes_eq h hl hp
  obtain ⟨s₂, heq₂, ht₂⟩ := mem_read_wrapped ht₁.inv (hp.1.le h) (ht₁.wrapped.mpr ((rcSafe_iff h hl).mp hsafe hp))
  refine ⟨s₂, ?_, ht₁.trans ht₂⟩
  unfold dfi_mem_read_rc
  rw [heq₁]
  simp only [bind, Except.bind, heq₂, ht₁.bytes]
  rfl

theorem read_rc_fails (hp : ¬ Passes s addr cnt) :
    dfi_mem_read_rc addr cnt s = .error .endless ∨ ∃ s', dfi_mem_read_rc addr cnt s =
      .ok (none, s') ∧ Touched s s' := by
  unfold dfi_mem_read_rc
  rcases loop_outcome cnt (u64 ((addr + cnt : Nat) : Int)) (2 * U64_MAX + 2) addr s h with hend | ⟨b, s₁, heq, ht⟩
  · left
    unfold dfi_mem_range_valid
    rw [hend]
    rfl
  · right
    cases b with
    | false =>
      refine ⟨s₁, ?_, ht⟩
      unfold dfi_mem_range_valid
      rw [heq]
      rfl
    | true => exact absurd heq (not_passes h hl hp s₁)

theorem read_rc_faults (hno : ¬ RcSafe s addr cnt) : dfi_mem_read_rc addr cnt s = .error .null_chunk := by
  rw [rcSafe_iff h hl] at hno
  push Not at hno
  obtain ⟨hp, hw⟩ := hno
  obtain ⟨s₁, heq₁, ht₁⟩ := passes_eq h hl hp
  unfold dfi_mem_read_rc
  rw [heq₁]
  simp only [bind, Except.bind]
  rw [mem_read_unmapped ht₁.inv (hp.1.le h) fun hn => hw (ht₁.wrapped.mp hn)]
  rfl

end

end

end Zdump.Memory
