import S390Tools.Zdump.Output

/-!
# The layouts of the s390 and the ELF dump

Both formats register chunks for the memory of the source dump. The s390 format
keeps the addresses, behind a header, and lays the registers of the CPUs and an
end marker over them; the ELF format puts the memory chunks back to back.
-/

namespace Zdump

open Word Window

def DF_S390_HDR_SIZE : Nat := 4096
def DF_S390_EM_SIZE : Nat := 16
def DF_S390_CPU_MAX : Nat := 512
def DFI_VX_SA_SIZE : Nat := 512

/-! ## The memory map -/

/-- A memory chunk is not empty and lies in the 64-bit address space. -/
structure MemChunk where
  start : Nat
  size : Nat
  read : Nat → UInt8
  pos : 1 ≤ size
  fits : start + size ≤ U64_MAX + 1

def MemChunk.stop (c : MemChunk) : Nat := c.start + c.size - 1

def mem_chunk_has_addr (c : MemChunk) (addr : Nat) : Prop := addr ≥ c.start ∧ addr ≤ c.stop

instance (c : MemChunk) (addr : Nat) : Decidable (mem_chunk_has_addr c addr) :=
  inferInstanceAs (Decidable (_ ∧ _))

def dfi_mem_chunk_find (addr : Nat) (cs : List MemChunk) : Option MemChunk :=
  cs.find? fun c => decide (mem_chunk_has_addr c addr)

def start_addr (cs : List MemChunk) : Nat := cs.foldl (fun a c => min a c.start) U64_MAX
def end_addr (cs : List MemChunk) : Nat := cs.foldl (fun a c => max a c.stop) 0

def dfi_mem_range (cs : List MemChunk) : Nat :=
  if start_addr cs = U64_MAX then 0 else u64 ((end_addr cs : Int) - start_addr cs + 1)

/-- The loop of `dfi_mem_range_valid`; every round but the last stays below `addr_end`. -/
def mem_range_valid_loop (cs : List MemChunk) (len addr_end : Nat) : (fuel addr : Nat) → Bool
  | 0, _ => false
  | fuel + 1, addr =>
    match dfi_mem_chunk_find addr cs with
    | none => false
    | some c =>
      let addr := u64 (addr + min len (u64 ((c.stop : Int) - addr + 1)) : Nat)
      if addr < addr_end then mem_range_valid_loop cs len addr_end fuel addr else true

def dfi_mem_range_valid (cs : List MemChunk) (addr len : Nat) : Bool :=
  mem_range_valid_loop cs len (u64 (addr + len : Nat)) len addr

def dfi_mem_byte (cs : List MemChunk) (addr : Nat) : UInt8 :=
  match dfi_mem_chunk_find addr cs with
  | none => 0
  | some c => c.read (addr - c.start)

/-! ## The source dump -/

inductive DfiArch
  | arch_32
  | arch_64
  | unknown
  deriving DecidableEq

inductive DfiCpuContent
  | none
  | lc
  | all
  deriving DecidableEq

/-- A CPU: its prefix register, the lowcore bytes its registers are copied to, its vector save area. -/
structure DfiCpu where
  prefixreg : UInt32
  save_area : Nat → Option UInt8
  vx_regs : Nat → UInt8

structure Dfi where
  arch : DfiArch
  content : DfiCpuContent
  fac_vx : Bool
  chunks : List MemChunk
  cpus : List DfiCpu

def dfi_lc_size (arch : DfiArch) : Nat := if arch = .arch_64 then 0x2000 else 0x1000

def word (f : Nat → UInt8) (addr : Nat) : Nat :=
  (List.range 8).foldl (fun n i => 256 * n + (f (addr + i)).toNat) 0

def vector_save_area_addr (m : Dfi) (cpu : DfiCpu) : Nat :=
  word (dfi_mem_byte m.chunks) (cpu.prefixreg.toNat + 0x11b0)

def dfi_cpu_lc_has_vx_sa (m : Dfi) (cpu : DfiCpu) : Bool :=
  m.arch ≠ .arch_32 && vector_save_area_addr m cpu ≠ 0 && vector_save_area_addr m cpu % 1024 = 0

/-! ## The s390 format -/

def add_mem_chunk_to_dfo (prev : Option MemChunk) (c : MemChunk) (d : Dump) : Dump :=
  let d := match prev with
    | none => d
    | some p =>
      if p.stop + 1 ≠ c.start then
        dfo_chunk_add (u64 (p.stop + 1 + DF_S390_HDR_SIZE : Nat))
          (u64 ((c.start : Int) - p.stop - 1)) (fun _ => 0) d
      else d
  dfo_chunk_add (u64 (c.start + DF_S390_HDR_SIZE : Nat)) c.size c.read d

def add_mem_chunks : Option MemChunk → List MemChunk → Dump → Dump
  | _, [], d => d
  | prev, c :: cs, d => add_mem_chunks (some c) cs (add_mem_chunk_to_dfo prev c d)

def dfo_s390_dump_chunk_lc_fn (m : Dfi) (cpu : DfiCpu) (off : Nat) : UInt8 :=
  (cpu.save_area off).getD (dfi_mem_byte m.chunks (cpu.prefixreg.toNat + off))

def uses_vx (m : Dfi) (cpu : DfiCpu) : Bool :=
  m.arch = .arch_64 && m.fac_vx && dfi_cpu_lc_has_vx_sa m cpu

def add_cpu_to_dfo (m : Dfi) (cpu : DfiCpu) (d : Dump) : Dump :=
  if m.content ≠ .all then d
  else if !dfi_mem_range_valid m.chunks cpu.prefixreg.toNat (dfi_lc_size m.arch) then d
  else
    -- the prefix register is an `u32`, and so is the sum
    let d := dfo_chunk_add (u32 (cpu.prefixreg.toNat + DF_S390_HDR_SIZE : Nat)) (dfi_lc_size m.arch)
      (dfo_s390_dump_chunk_lc_fn m cpu) d
    if uses_vx m cpu then
      dfo_chunk_add (u64 (vector_save_area_addr m cpu + DF_S390_HDR_SIZE : Nat)) DFI_VX_SA_SIZE cpu.vx_regs d
    else d

def add_cpus (m : Dfi) : List DfiCpu → Dump → Dump
  | [], d => d
  | cpu :: cpus, d => add_cpus m cpus (add_cpu_to_dfo m cpu d)

/-- `dump_chunks_init` of the s390 format, with the bytes of its header and of its end marker. -/
def s390_chunks_init (hdr em : Nat → UInt8) (m : Dfi) : Dump :=
  let d := dfo_chunk_add 0 DF_S390_HDR_SIZE hdr Dump.empty
  let d := add_mem_chunks none m.chunks d
  let d := add_cpus m m.cpus d
  dfo_chunk_add (u64 (dfi_mem_range m.chunks + DF_S390_HDR_SIZE : Nat)) DF_S390_EM_SIZE em d

/-- `none` stands for the exit of the program. -/
def df_s390_dump_init (hdr em : Nat → UInt8) (m : Dfi) : Option Dump :=
  if m.cpus.length > DF_S390_CPU_MAX then none else some (s390_chunks_init hdr em m)

/-! ## The ELF format -/

def elf_mem_chunks : List MemChunk → Nat → Dump → Dump
  | [], _, d => d
  | c :: cs, off, d => elf_mem_chunks cs (u64 (off + c.size : Nat)) (dfo_chunk_add off c.size c.read d)

def elf_chunks_init (hdr : List UInt8) (m : Dfi) : Dump :=
  elf_mem_chunks m.chunks hdr.length (dfo_chunk_add 0 hdr.length (fun i => hdr.getD i 0) Dump.empty)

def dfo_elf_init (hdr : List UInt8) (m : Dfi) : Option Dump :=
  if m.arch ≠ .arch_64 then none else some (elf_chunks_init hdr m)

/-! ## What the chunks of a dump cover -/

/-- The chunks of a dump cover the offsets of `P` and its size is just behind the last of them. -/
structure Laid (d : Dump) (P : Nat → Prop) : Prop where
  ok : d.Ok
  off : d.off = 0
  has : ∀ x, content d.chunk_list x ≠ none ↔ P x
  top : ∀ n, (∀ x, P x → x < n) → d.size ≤ n

theorem Laid.congr {d : Dump} {P Q : Nat → Prop} (h : Laid d P) (hpq : ∀ x, P x ↔ Q x) : Laid d Q := by
  have hq : P = Q := funext fun x => propext (hpq x)
  rw [← hq]
  exact h

theorem Laid.gapless_iff {d : Dump} {P : Nat → Prop} (h : Laid d P) :
    d.Gapless ↔ ∀ y, P y → ∀ x ≤ y, P x := by
  constructor
  · intro hg y hy x hxy
    have hlt := h.ok.size y ((h.has y).mpr hy)
    exact (h.has x).mp (hg x (Nat.lt_of_le_of_lt hxy hlt))
  · intro hdown x hx
    rw [h.has]
    by_contra hn
    have := h.top x fun y hy => by
      rcases Nat.lt_or_ge y x with hlt | hge
      · exact hlt
      · exact absurd (hdown y hy x hge) hn
    exact absurd hx (Nat.not_lt.mpr this)

theorem Laid.empty : Laid Dump.empty fun _ => False where
  ok := ⟨fun _ hc => absurd hc (List.not_mem_nil), Nat.zero_le _, fun _ hx => absurd rfl hx⟩
  off := rfl
  has _ := iff_of_false (fun h => h rfl) id
  top _ _ := Nat.zero_le _

theorem Laid.add {d : Dump} {P : Nat → Prop} (h : Laid d P) {start size : Nat} (hs : 1 ≤ size)
    (hf : start + size ≤ U64_MAX) (read : Nat → UInt8) :
    Laid (dfo_chunk_add start size read d) fun x => P x ∨ (start ≤ x ∧ x < start + size) := by
  refine ⟨chunk_add_ok h.ok hs hf read, h.off, fun x => ?_, fun n hn => ?_⟩
  · simp only [chunk_add_content hs hf]
    by_cases hx : start ≤ x ∧ x < start + size
    · rw [if_pos hx]
      exact iff_of_true (fun hn => by cases hn) (Or.inr hx)
    · rw [if_neg hx, h.has]
      exact ⟨Or.inl, fun ho => ho.resolve_right hx⟩
  · have hsize : (dfo_chunk_add start size read d).size = max d.size (start + size) := by
      rw [chunk_add_size, (chunk_add_stop hs hf).1, (chunk_add_stop hs hf).2]
    have h₁ := h.top n fun x hx => hn x (Or.inl hx)
    have h₂ := hn (start + size - 1) (Or.inr (by omega))
    rw [hsize]
    omega

/-! ## The memory chunks -/

/-- Behind the chunk there is room for the header and the end marker. -/
def MemChunk.Fits (c : MemChunk) : Prop := c.stop + DF_S390_HDR_SIZE + DF_S390_EM_SIZE < U64_MAX

def Mapped (cs : List MemChunk) (a : Nat) : Prop := ∃ c ∈ cs, mem_chunk_has_addr c a

/-- The addresses that are skipped by a chunk and the one that follows it in the list. -/
def Skipped : Option MemChunk → List MemChunk → Nat → Prop
  | _, [], _ => False
  | prev, c :: cs, a => (∃ p ∈ prev, p.stop < a ∧ a < c.start) ∨ Skipped (some c) cs a

theorem MemChunk.start_le (c : MemChunk) : c.start ≤ c.stop ∧ c.stop + 1 = c.start + c.size := by
  have := c.pos
  unfold MemChunk.stop
  omega

theorem filler_stop {p c : MemChunk} (hp : p.Fits) (hc : c.Fits) :
    u64 ((p.stop + 1 + DF_S390_HDR_SIZE : Nat) : Int) = p.stop + 1 + DF_S390_HDR_SIZE ∧
      u64 (((p.stop + 1 + DF_S390_HDR_SIZE : Nat) : Int) + u64 ((c.start : Int) - p.stop - 1) - 1) =
        c.start + DF_S390_HDR_SIZE - 1 := by
  have := c.start_le
  unfold MemChunk.Fits DF_S390_HDR_SIZE DF_S390_EM_SIZE U64_MAX at *
  unfold u64
  omega

theorem Laid.mem_chunk {d : Dump} {P : Nat → Prop} (h : Laid d P) {c : MemChunk} (hc : c.Fits)
    {prev : Option MemChunk} (hp : ∀ p ∈ prev, p.Fits) :
    Laid (add_mem_chunk_to_dfo prev c d) fun x => P x ∨ ∃ a, x = a + DF_S390_HDR_SIZE ∧
      (mem_chunk_has_addr c a ∨ ∃ p ∈ prev, p.stop < a ∧ a < c.start) := by
  obtain ⟨h₁, h₂⟩ := c.start_le
  have hpos := c.pos
  have hfit : c.start + DF_S390_HDR_SIZE + c.size ≤ U64_MAX := by
    unfold MemChunk.Fits at hc
    omega
  have hstart : u64 ((c.start + DF_S390_HDR_SIZE : Nat) : Int) = c.start + DF_S390_HDR_SIZE := by
    unfold U64_MAX at hfit
    rw [u64_of_lt (by omega) (by omega)]
    rfl
  have hmem : ∀ x, (c.start + DF_S390_HDR_SIZE ≤ x ∧ x < c.start + DF_S390_HDR_SIZE + c.size) ↔
      ∃ a, x = a + DF_S390_HDR_SIZE ∧ mem_chunk_has_addr c a := by
    intro x
    constructor
    · intro hx
      exact ⟨x - DF_S390_HDR_SIZE, by omega, by omega, by omega⟩
    · rintro ⟨a, rfl, ha⟩
      have := ha.1
      have := ha.2
      omega
  -- without a filler only the chunk is added
  have hplain : (∀ a, ¬ ∃ p ∈ prev, p.stop < a ∧ a < c.start) →
      Laid (dfo_chunk_add (c.start + DF_S390_HDR_SIZE) c.size c.read d) fun x => P x ∨ ∃ a, x =
        a + DF_S390_HDR_SIZE ∧
        (mem_chunk_has_addr c a ∨ ∃ p ∈ prev, p.stop < a ∧ a < c.start) := by
    intro hno
    refine (h.add hpos hfit c.read).congr fun x => ?_
    rw [hmem]
    simp only [hno, or_false]
  unfold add_mem_chunk_to_dfo
  simp only [hstart]
  cases prev with
  | none => exact hplain fun a ⟨p, hp, _⟩ => by cases hp
  | some p =>
    simp only
    by_cases hadj : p.stop + 1 ≠ c.start
    · rw [if_pos hadj]
      obtain ⟨hf₁, hf₂⟩ := filler_stop (hp p rfl) hc
      have hps := (hp p rfl)
      unfold MemChunk.Fits at hps
      rw [hf₁]
      have hok := @chunk_add_ok_of_stop _ h.ok (p.stop + 1 + DF_S390_HDR_SIZE)
        (u64 ((c.start : Int) - p.stop - 1)) (by unfold DF_S390_EM_SIZE at hps; omega)
        (by rw [hf₂]; omega) fun _ => 0
      refine ⟨chunk_add_ok hok hpos hfit c.read, h.off, fun x => ?_, fun n hn => ?_⟩
      · have hfill : content (dfo_chunk_add (p.stop + 1 + DF_S390_HDR_SIZE) (u64 ((c.start : Int) - p.stop - 1))
            (fun _ => 0) d).chunk_list x ≠ none ↔
            P x ∨ (p.stop + 1 + DF_S390_HDR_SIZE ≤ x ∧ x ≤ c.start + DF_S390_HDR_SIZE - 1) := by
          rw [chunk_add_covers, hf₂]
          by_cases hx : p.stop + 1 + DF_S390_HDR_SIZE ≤ x ∧ x ≤ c.start + DF_S390_HDR_SIZE - 1
          · rw [if_pos hx]
            exact iff_of_true (fun hn => by cases hn) (Or.inr hx)
          · rw [if_neg hx, h.has]
            exact ⟨Or.inl, fun ho => ho.resolve_right hx⟩
        simp only [chunk_add_content hpos hfit]
        by_cases hx : c.start + DF_S390_HDR_SIZE ≤ x ∧ x < c.start + DF_S390_HDR_SIZE + c.size
        · rw [if_pos hx]
          obtain ⟨a, ha, hca⟩ := (hmem x).mp hx
          exact iff_of_true (fun hn => by cases hn) (Or.inr ⟨a, ha, Or.inl hca⟩)
        · rw [if_neg hx, hfill]
          refine or_congr_right ⟨fun hr => ?_, fun ⟨a, ha, hor⟩ => ?_⟩
          · exact ⟨x - DF_S390_HDR_SIZE, by omega, Or.inr ⟨p, rfl, by omega, by omega⟩⟩
          · rcases hor with hca | ⟨q, hq, hlt⟩
            · exact absurd ((hmem x).mpr ⟨a, ha, hca⟩) hx
            · cases hq
              omega
      · have h₃ := h.top n fun x hx => hn x (Or.inl hx)
        have h₄ := hn (c.stop + DF_S390_HDR_SIZE) (Or.inr ⟨c.stop, rfl, Or.inl ⟨h₁, Nat.le_refl _⟩⟩)
        rw [chunk_add_size, (chunk_add_stop hpos hfit).1, (chunk_add_stop hpos hfit).2, chunk_add_size, hf₂]
        have hc' := hc
        unfold MemChunk.Fits U64_MAX at hc'
        rw [u64_of_lt (x := ((c.start + DF_S390_HDR_SIZE - 1 : Nat) : Int) + 1) (by omega) (by omega)]
        unfold DF_S390_HDR_SIZE at *
        omega
    · rw [if_neg hadj]
      refine hplain fun a ⟨q, hq, hlt⟩ => ?_
      cases hq
      omega

theorem Laid.mem_chunks : ∀ {cs : List MemChunk} {prev : Option MemChunk} {d : Dump} {P : Nat → Prop}, Laid d P →
    (∀ p ∈ prev, p.Fits) → (∀ c ∈ cs, c.Fits) → Laid (add_mem_chunks prev cs d) fun x =>
      P x ∨ ∃ a, x = a + DF_S390_HDR_SIZE ∧ (Mapped cs a ∨ Skipped prev cs a)
  | [], prev, d, P, h, _, _ => by
    refine h.congr fun x => ⟨Or.inl, fun ho => ho.resolve_right ?_⟩
    rintro ⟨a, -, ⟨c, hc, -⟩ | hs⟩
    · cases hc
    · exact hs
  | c :: cs, prev, d, P, h, hp, hc => by
    have hfits := hc c (List.mem_cons_self ..)
    have hrest := @Laid.mem_chunks cs (some c) _ _ (h.mem_chunk hfits hp) (fun q hq => by cases hq; exact hfits)
      fun b hb => hc b (List.mem_cons_of_mem _ hb)
    refine hrest.congr fun x => ?_
    rw [or_assoc, ← exists_or]
    refine or_congr_right (exists_congr fun a => ?_)
    rw [← and_or_left]
    refine and_congr_right fun _ => ?_
    have hcons : Mapped (c :: cs) a ↔ mem_chunk_has_addr c a ∨ Mapped cs a := List.exists_mem_cons_iff ..
    rw [hcons, Skipped]
    exact or_or_or_comm

theorem mapped_or_skipped : ∀ {cs : List MemChunk} {prev : Option MemChunk} {c : MemChunk} {a : Nat}, c.start ≤ a →
    (∃ e ∈ c :: cs, a ≤ e.stop) → Mapped (c :: cs) a ∨ Skipped prev (c :: cs) a
  | cs, prev, c, a, hstart, ⟨e, he, hle⟩ => by
    by_cases hc : a ≤ c.stop
    · exact Or.inl ⟨c, List.mem_cons_self .., hstart, hc⟩
    · have he' : e ∈ cs := by
        rcases List.mem_cons.mp he with rfl | he
        · exact absurd hle hc
        · exact he
      match cs, he' with
      | b :: cs, he' =>
        by_cases hb : b.start ≤ a
        · rcases @mapped_or_skipped cs (some c) b _ hb ⟨e, he', hle⟩ with ⟨f, hf, hfa⟩ | hs
          · exact Or.inl ⟨f, List.mem_cons_of_mem _ hf, hfa⟩
          · exact Or.inr (Or.inr hs)
        · exact Or.inr (Or.inr (Or.inl ⟨c, rfl, Nat.lt_of_not_le hc, Nat.lt_of_not_le hb⟩))

theorem Skipped.lt : ∀ {cs : List MemChunk} {prev : Option MemChunk} {a : Nat}, Skipped prev cs a →
    (∃ p : MemChunk, p.stop < a) ∧ ∃ c ∈ cs, a < c.start
  | [], _, _, h => h.elim
  | c :: cs, prev, a, h => by
    rcases h with ⟨p, -, hp, hc⟩ | h
    · exact ⟨⟨p, hp⟩, c, List.mem_cons_self .., hc⟩
    · obtain ⟨h₁, b, hb, hlt⟩ := Skipped.lt h
      exact ⟨h₁, b, List.mem_cons_of_mem _ hb, hlt⟩

theorem find_mapped {cs : List MemChunk} {a : Nat} {c : MemChunk} (h : dfi_mem_chunk_find a cs = some c) :
    c ∈ cs ∧ mem_chunk_has_addr c a := by
  have hp := List.find?_some h
  exact ⟨List.mem_of_find?_eq_some h, of_decide_eq_true hp⟩

theorem mapped_of_valid_loop {cs : List MemChunk} (hc : ∀ c ∈ cs, c.Fits) {len addr_end : Nat} :
    ∀ {fuel addr : Nat}, mem_range_valid_loop cs len addr_end fuel addr = true →
      ∀ y, addr ≤ y → y < addr_end → Mapped cs y
  | 0, _, h, _, _, _ => by cases h
  | fuel + 1, addr, h, y, hy, hlt => by
    rw [mem_range_valid_loop] at h
    cases hf : dfi_mem_chunk_find addr cs with
    | none =>
      rw [hf] at h
      cases h
    | some c =>
      obtain ⟨hmem, ha, hb⟩ := find_mapped hf
      have hfits := hc c hmem
      unfold MemChunk.Fits U64_MAX DF_S390_HDR_SIZE DF_S390_EM_SIZE at hfits
      have h₁ : u64 ((c.stop : Int) - addr + 1) = c.stop - addr + 1 := by
        rw [u64_of_lt (by omega) (by omega)]
        omega
      have h₂ : u64 ((addr + min len (c.stop - addr + 1) : Nat) : Int) = addr + min len (c.stop - addr + 1) := by
        rw [u64_of_lt (by omega) (by omega)]
        rfl
      rw [hf] at h
      simp only [h₁, h₂] at h
      by_cases hyc : y ≤ c.stop
      · exact ⟨c, hmem, Nat.le_trans ha hy, hyc⟩
      · split at h
        · exact mapped_of_valid_loop hc h y (by omega) hlt
        · omega

theorem mapped_of_valid {m : Dfi} (hc : ∀ c ∈ m.chunks, c.Fits) {cpu : DfiCpu}
    (h : dfi_mem_range_valid m.chunks cpu.prefixreg.toNat (dfi_lc_size m.arch) = true) (y : Nat)
    (hy : cpu.prefixreg.toNat ≤ y) (hlt : y < cpu.prefixreg.toNat + dfi_lc_size m.arch) : Mapped m.chunks y := by
  have hp := cpu.prefixreg.toNat_lt
  have hl : dfi_lc_size m.arch ≤ 0x2000 := by
    unfold dfi_lc_size
    split <;> omega
  refine mapped_of_valid_loop hc h y hy ?_
  rw [u64_of_lt (by omega) (by omega)]
  exact hlt

/-! ## The registers of the CPUs -/

/-- The registers of the CPU are added: they are in the dump and its prefix page is in memory. -/
def Added (m : Dfi) (cpu : DfiCpu) : Prop :=
  m.content = .all ∧ dfi_mem_range_valid m.chunks cpu.prefixreg.toNat (dfi_lc_size m.arch) = true

def lc_start (cpu : DfiCpu) : Nat := u32 (cpu.prefixreg.toNat + DF_S390_HDR_SIZE : Nat)
def vx_start (m : Dfi) (cpu : DfiCpu) : Nat := u64 (vector_save_area_addr m cpu + DF_S390_HDR_SIZE : Nat)

def LcArea (m : Dfi) (cpu : DfiCpu) (x : Nat) : Prop :=
  Added m cpu ∧ lc_start cpu ≤ x ∧ x < lc_start cpu + dfi_lc_size m.arch

def VxArea (m : Dfi) (cpu : DfiCpu) (x : Nat) : Prop :=
  Added m cpu ∧ uses_vx m cpu = true ∧ vx_start m cpu ≤ x ∧ x < vx_start m cpu + DFI_VX_SA_SIZE

theorem word_lt (f : Nat → UInt8) (a : Nat) : word f a < 18446744073709551616 := by
  have hlt : ∀ k, (List.range k).foldl (fun n i => 256 * n + (f (a + i)).toNat) 0 < 256 ^ k := by
    intro k
    induction k with
    | zero => exact Nat.one_pos
    | succ k ih =>
      rw [List.range_succ, List.foldl_append, Nat.pow_succ]
      have := (f (a + k)).toNat_lt
      show 256 * _ + (f (a + k)).toNat < _
      omega
  exact hlt 8

theorem vx_start_aligned {m : Dfi} {cpu : DfiCpu} (h : uses_vx m cpu = true) :
    vx_start m cpu % 1024 = 0 ∧ vx_start m cpu ≠ DF_S390_HDR_SIZE ∧ vx_start m cpu + DFI_VX_SA_SIZE ≤ U64_MAX := by
  unfold uses_vx dfi_cpu_lc_has_vx_sa at h
  simp only [Bool.and_eq_true, decide_eq_true_eq] at h
  have hlt := word_lt (dfi_mem_byte m.chunks) (cpu.prefixreg.toNat + 0x11b0)
  change vector_save_area_addr m cpu < _ at hlt
  unfold vx_start DF_S390_HDR_SIZE DFI_VX_SA_SIZE U64_MAX u64
  omega

theorem Laid.cpu {d : Dump} {P : Nat → Prop} (h : Laid d P) (m : Dfi) (cpu : DfiCpu) :
    Laid (add_cpu_to_dfo m cpu d) fun x => P x ∨ LcArea m cpu x ∨ VxArea m cpu x := by
  have hno : ¬ Added m cpu → Laid d fun x => P x ∨ LcArea m cpu x ∨ VxArea m cpu x := fun hn =>
    h.congr fun x => ⟨Or.inl, fun ho => ho.resolve_right fun hr => hn (hr.elim And.left And.left)⟩
  unfold add_cpu_to_dfo
  by_cases hall : m.content ≠ .all
  · rw [if_pos hall]
    exact hno fun ha => hall ha.1
  · rw [if_neg hall]
    cases hv : dfi_mem_range_valid m.chunks cpu.prefixreg.toNat (dfi_lc_size m.arch) with
    | false => exact hno fun ha => by rw [ha.2] at hv; cases hv
    | true =>
      have hadd : Added m cpu := ⟨not_not.mp hall, hv⟩
      have hl : 1 ≤ dfi_lc_size m.arch ∧ dfi_lc_size m.arch ≤ 0x2000 := by
        unfold dfi_lc_size
        split <;> omega
      have hlc := @Laid.add _ _ h (lc_start cpu) _ hl.1
        (by have := u32_lt (cpu.prefixreg.toNat + DF_S390_HDR_SIZE : Nat); unfold lc_start U64_MAX; omega)
        (dfo_s390_dump_chunk_lc_fn m cpu)
      simp only [Bool.not_true, Bool.false_eq_true, if_false]
      cases hvx : uses_vx m cpu with
      | false =>
        refine hlc.congr fun x => or_congr_right ?_
        refine ⟨fun hx => Or.inl ⟨hadd, hx⟩, fun hx => hx.elim And.right fun hvxa => ?_⟩
        exact absurd hvxa.2.1 (by rw [hvx]; decide)
      | true =>
        refine (hlc.add (by decide) (vx_start_aligned hvx).2.2 cpu.vx_regs).congr fun x => ?_
        rw [or_assoc]
        refine or_congr_right (or_congr ?_ ?_)
        · exact ⟨fun hx => ⟨hadd, hx⟩, And.right⟩
        · exact ⟨fun hx => ⟨hadd, hvx, hx⟩, fun hx => hx.2.2⟩

theorem Laid.cpus (m : Dfi) : ∀ {cpus : List DfiCpu} {d : Dump} {P : Nat → Prop}, Laid d P →
    Laid (add_cpus m cpus d) fun x => P x ∨ ∃ cpu ∈ cpus, LcArea m cpu x ∨ VxArea m cpu x
  | [], d, P, h => h.congr fun x => ⟨Or.inl, fun ho => ho.resolve_right fun ⟨_, hc, _⟩ => by cases hc⟩
  | cpu :: cpus, d, P, h => by
    refine (Laid.cpus m (h.cpu m cpu)).congr fun x => ?_
    rw [or_assoc, List.exists_mem_cons_iff]

/-! ## The whole layout -/

theorem foldl_max {α : Type*} (g : α → Nat) : ∀ (l : List α) (b : Nat),
    b ≤ l.foldl (fun a c => max a (g c)) b ∧ (∀ c ∈ l, g c ≤ l.foldl (fun a c => max a (g c)) b) ∧
      (l.foldl (fun a c => max a (g c)) b = b ∨ ∃ c ∈ l, l.foldl (fun a c => max a (g c)) b = g c)
  | [], b => ⟨Nat.le_refl b, fun _ hc => absurd hc List.not_mem_nil, Or.inl rfl⟩
  | c :: l, b => by
    obtain ⟨h₁, h₂, h₃⟩ := foldl_max g l (max b (g c))
    rw [List.foldl_cons]
    refine ⟨by omega, fun e he => ?_, ?_⟩
    · rcases List.mem_cons.mp he with rfl | he
      · omega
      · exact h₂ e he
    · rcases h₃ with h₃ | ⟨e, he, h₃⟩
      · rcases Nat.le_total b (g c) with hle | hle
        · exact Or.inr ⟨c, List.mem_cons_self .., by rw [h₃]; exact max_eq_right hle⟩
        · exact Or.inl (by rw [h₃]; exact max_eq_left hle)
      · exact Or.inr ⟨e, List.mem_cons_of_mem _ he, h₃⟩

theorem foldl_min {α : Type*} (g : α → Nat) : ∀ (l : List α) (b : Nat),
    l.foldl (fun a c => min a (g c)) b ≤ b ∧ (∀ c ∈ l, l.foldl (fun a c => min a (g c)) b ≤ g c) ∧
      (l.foldl (fun a c => min a (g c)) b = b ∨ ∃ c ∈ l, l.foldl (fun a c => min a (g c)) b = g c)
  | [], b => ⟨Nat.le_refl b, fun _ hc => absurd hc List.not_mem_nil, Or.inl rfl⟩
  | c :: l, b => by
    obtain ⟨h₁, h₂, h₃⟩ := foldl_min g l (min b (g c))
    rw [List.foldl_cons]
    refine ⟨by omega, fun e he => ?_, ?_⟩
    · rcases List.mem_cons.mp he with rfl | he
      · omega
      · exact h₂ e he
    · rcases h₃ with h₃ | ⟨e, he, h₃⟩
      · rcases Nat.le_total b (g c) with hle | hle
        · exact Or.inl (by rw [h₃]; exact min_eq_left hle)
        · exact Or.inr ⟨c, List.mem_cons_self .., by rw [h₃]; exact min_eq_right hle⟩
      · exact Or.inr ⟨e, List.mem_cons_of_mem _ he, h₃⟩

section
variable {cs : List MemChunk}

theorem start_addr_le {c : MemChunk} (hc : c ∈ cs) : start_addr cs ≤ c.start :=
  (foldl_min MemChunk.start cs U64_MAX).2.1 c hc

theorem le_end_addr {c : MemChunk} (hc : c ∈ cs) : c.stop ≤ end_addr cs :=
  (foldl_max MemChunk.stop cs 0).2.1 c hc

theorem end_addr_mem (hne : cs ≠ []) : ∃ c ∈ cs, end_addr cs = c.stop := by
  rcases (foldl_max MemChunk.stop cs 0).2.2 with h0 | h
  · obtain ⟨c, cs, rfl⟩ := List.exists_cons_of_ne_nil hne
    have := le_end_addr (List.mem_cons_self (a := c) (l := cs))
    refine ⟨c, List.mem_cons_self .., Nat.le_antisymm ?_ this⟩
    rw [end_addr, h0]
    exact Nat.zero_le _
  · exact h

theorem range_eq (hne : cs ≠ []) (hc : ∀ c ∈ cs, c.Fits) :
    dfi_mem_range cs = end_addr cs - start_addr cs + 1 ∧ start_addr cs ≤ end_addr cs ∧
      end_addr cs + DF_S390_HDR_SIZE + DF_S390_EM_SIZE < U64_MAX := by
  obtain ⟨c, hmem, he⟩ := end_addr_mem hne
  have h₁ := start_addr_le hmem
  have h₂ := c.start_le
  have h₃ := hc c hmem
  unfold MemChunk.Fits at h₃
  refine ⟨?_, by omega, by omega⟩
  unfold dfi_mem_range
  rw [if_neg (by omega)]
  unfold U64_MAX at h₃
  rw [u64_of_lt (by omega) (by omega)]
  omega

end

def S390Covers (m : Dfi) (x : Nat) : Prop :=
  x < DF_S390_HDR_SIZE ∨
  (∃ a, x = a + DF_S390_HDR_SIZE ∧ (Mapped m.chunks a ∨ Skipped none m.chunks a)) ∨
  (∃ cpu ∈ m.cpus, LcArea m cpu x ∨ VxArea m cpu x) ∨
  (dfi_mem_range m.chunks + DF_S390_HDR_SIZE ≤ x ∧ x < dfi_mem_range m.chunks + DF_S390_HDR_SIZE + DF_S390_EM_SIZE)

theorem s390_laid {m : Dfi} (hne : m.chunks ≠ []) (hc : ∀ c ∈ m.chunks, c.Fits) (hdr em : Nat → UInt8) :
    Laid (s390_chunks_init hdr em m) (S390Covers m) := by
  obtain ⟨hr, h₁, h₂⟩ := range_eq hne hc
  have hrange : u64 ((dfi_mem_range m.chunks + DF_S390_HDR_SIZE : Nat) : Int) =
    dfi_mem_range m.chunks + DF_S390_HDR_SIZE := by
    unfold U64_MAX at h₂
    rw [u64_of_lt (by omega) (by omega)]
    rfl
  have hhdr := @Laid.add _ _ Laid.empty 0 DF_S390_HDR_SIZE (by decide) (by decide) hdr
  have hmem := @Laid.mem_chunks _ none _ _ hhdr (fun p hp => by cases hp) hc
  have hcpus := @Laid.cpus m m.cpus _ _ hmem
  have hall := @Laid.add _ _ hcpus (dfi_mem_range m.chunks + DF_S390_HDR_SIZE) DF_S390_EM_SIZE (by decide)
    (by omega) em
  unfold s390_chunks_init
  simp only [hrange]
  refine hall.congr fun x => ?_
  unfold S390Covers
  rw [or_assoc, or_assoc]
  refine or_congr_left ?_
  rw [Nat.zero_add, false_or]
  exact ⟨And.right, fun h => ⟨Nat.zero_le x, h⟩⟩

/-- Below the first chunk of the list every address is in a chunk, skipped, or in a vector area. -/
def Filled (m : Dfi) : Prop :=
  ∀ c ∈ m.chunks.head?, ∀ a < c.start,
    Mapped m.chunks a ∨ Skipped none m.chunks a ∨ ∃ cpu ∈ m.cpus, VxArea m cpu (a + DF_S390_HDR_SIZE)

def VxInside (m : Dfi) : Prop :=
  ∀ cpu ∈ m.cpus, Added m cpu → uses_vx m cpu = true →
    vx_start m cpu ≤ dfi_mem_range m.chunks + DF_S390_HDR_SIZE + DF_S390_EM_SIZE

theorem s390_gapless {m : Dfi} (hne : m.chunks ≠ []) (hc : ∀ c ∈ m.chunks, c.Fits) (hfill : Filled m)
    (hvx : VxInside m) : ∀ y, S390Covers m y → ∀ x ≤ y, S390Covers m x := by
  obtain ⟨hr, h₁, h₂⟩ := range_eq hne hc
  obtain ⟨last, hlast, he⟩ := end_addr_mem hne
  -- up to the end of memory and of the end marker everything is covered
  have hbelow : ∀ x, x ≤ end_addr m.chunks + DF_S390_HDR_SIZE ∨
      x < dfi_mem_range m.chunks + DF_S390_HDR_SIZE + DF_S390_EM_SIZE → S390Covers m x := by
    intro x hx
    by_cases hhdr : x < DF_S390_HDR_SIZE
    · exact Or.inl hhdr
    · obtain ⟨a, rfl⟩ := Nat.exists_eq_add_of_le' (Nat.le_of_not_lt hhdr)
      by_cases hend : a ≤ end_addr m.chunks
      · obtain ⟨c, cs, hcs⟩ := List.exists_cons_of_ne_nil hne
        by_cases hfirst : a < c.start
        · rcases hfill c (by rw [hcs]; rfl) a hfirst with hm | hs | ⟨cpu, hcpu, hv⟩
          · exact Or.inr (Or.inl ⟨a, rfl, Or.inl hm⟩)
          · exact Or.inr (Or.inl ⟨a, rfl, Or.inr hs⟩)
          · exact Or.inr (Or.inr (Or.inl ⟨cpu, hcpu, Or.inr hv⟩))
        · refine Or.inr (Or.inl ⟨a, rfl, ?_⟩)
          rw [hcs] at hlast ⊢
          exact mapped_or_skipped (Nat.le_of_not_lt hfirst) ⟨last, hlast, by omega⟩
      · exact Or.inr (Or.inr (Or.inr ⟨by omega, by omega⟩))
  intro y hy x hxy
  rcases hy with hy | ⟨a, rfl, hy⟩ | ⟨cpu, hcpu, hy⟩ | hy
  · exact Or.inl (Nat.lt_of_le_of_lt hxy hy)
  · refine hbelow x (Or.inl ?_)
    rcases hy with ⟨c, hmem, ha⟩ | hs
    · have := le_end_addr hmem
      have := ha.2
      omega
    · obtain ⟨-, c, hmem, ha⟩ := hs.lt
      have := le_end_addr hmem
      have := c.start_le
      omega
  · rcases hy with ⟨hadd, hlo, hhi⟩ | ⟨hadd, huse, hlo, hhi⟩
    · by_cases hx : lc_start cpu ≤ x
      · exact Or.inr (Or.inr (Or.inl ⟨cpu, hcpu, Or.inl ⟨hadd, hx, by omega⟩⟩))
      · -- the prefix page is in memory, the sum may only wrap around to the front
        have hle : lc_start cpu ≤ cpu.prefixreg.toNat + DF_S390_HDR_SIZE := by
          unfold lc_start u32
          omega
        have hpos : 1 ≤ dfi_lc_size m.arch := by
          unfold dfi_lc_size
          split <;> omega
        obtain ⟨c, hmem, -, ha⟩ := mapped_of_valid hc hadd.2 cpu.prefixreg.toNat (Nat.le_refl _) (by omega)
        have := le_end_addr hmem
        exact hbelow x (Or.inl (by omega))
    · by_cases hx : vx_start m cpu ≤ x
      · exact Or.inr (Or.inr (Or.inl ⟨cpu, hcpu, Or.inr ⟨hadd, huse, hx, by omega⟩⟩))
      · have := hvx cpu hcpu hadd huse
        exact hbelow x (Or.inr (by omega))
  · exact hbelow x (Or.inr (by omega))

theorem LcArea.mapped {m : Dfi} (hc : ∀ c ∈ m.chunks, c.Fits) {cpu : DfiCpu}
    (hp : cpu.prefixreg.toNat + DF_S390_HDR_SIZE < 4294967296) {a : Nat} (h : LcArea m cpu (a + DF_S390_HDR_SIZE)) :
    Mapped m.chunks a := by
  obtain ⟨hadd, hlo, hhi⟩ := h
  have hlc : lc_start cpu = cpu.prefixreg.toNat + DF_S390_HDR_SIZE := by
    unfold lc_start
    rw [u32_of_lt (by omega) (by omega)]
    rfl
  exact mapped_of_valid hc hadd.2 a (by omega) (by omega)

theorem s390_gap {m : Dfi} (hne : m.chunks ≠ []) (hc : ∀ c ∈ m.chunks, c.Fits)
    (hp : ∀ cpu ∈ m.cpus, cpu.prefixreg.toNat + DF_S390_HDR_SIZE < 4294967296)
    (hdown : ∀ y, S390Covers m y → ∀ x ≤ y, S390Covers m x) : Filled m ∧ VxInside m := by
  obtain ⟨hr, h₁, h₂⟩ := range_eq hne hc
  -- memory starts at 0, so the end marker stands behind all chunks
  have hzero : start_addr m.chunks = 0 := by
    obtain ⟨c, cs, hcs⟩ := List.exists_cons_of_ne_nil hne
    have hcm : c ∈ m.chunks := by rw [hcs]; exact List.mem_cons_self ..
    have hcov := hdown (c.start + DF_S390_HDR_SIZE) (Or.inr (Or.inl ⟨c.start, rfl, Or.inl ⟨c, hcm, Nat.le_refl _,
      c.start_le.1⟩⟩)) DF_S390_HDR_SIZE (Nat.le_add_left ..)
    have hmap : Mapped m.chunks 0 := by
      rcases hcov with h | ⟨a, ha, hm | hs⟩ | ⟨cpu, hcpu, hl | hv⟩ | he
      · exact absurd h (Nat.lt_irrefl _)
      · rw [show a = 0 by omega] at hm
        exact hm
      · obtain ⟨⟨p, hlt⟩, -⟩ := hs.lt
        omega
      · rw [← Nat.zero_add DF_S390_HDR_SIZE] at hl
        exact hl.mapped hc (hp cpu hcpu)
      · obtain ⟨-, huse, hlo, hhi⟩ := hv
        have := vx_start_aligned huse
        unfold DF_S390_HDR_SIZE DFI_VX_SA_SIZE at *
        omega
      · omega
    obtain ⟨b, hb, ha⟩ := hmap
    have := start_addr_le hb
    have := ha.1
    omega
  have hend : ∀ a, Mapped m.chunks a ∨ Skipped none m.chunks a → a ≤ end_addr m.chunks := by
    intro a ha
    rcases ha with ⟨c, hmem, ha⟩ | hs
    · have := le_end_addr hmem
      have := ha.2
      omega
    · obtain ⟨-, c, hmem, ha⟩ := hs.lt
      have := le_end_addr hmem
      have := c.start_le
      omega
  refine ⟨fun c hhead a ha => ?_, fun cpu hcpu hadd huse => ?_⟩
  · have hcm := List.mem_of_mem_head? hhead
    have hcov := hdown (c.start + DF_S390_HDR_SIZE) (Or.inr (Or.inl ⟨c.start, rfl, Or.inl ⟨c, hcm, Nat.le_refl _,
      c.start_le.1⟩⟩)) (a + DF_S390_HDR_SIZE) (by omega)
    rcases hcov with h | ⟨b, hb, hm⟩ | ⟨cpu, hcpu, hl | hv⟩ | he
    · omega
    · rw [show a = b by omega]
      exact hm.imp_right Or.inl
    · exact Or.inl (hl.mapped hc (hp cpu hcpu))
    · exact Or.inr (Or.inr ⟨cpu, hcpu, hv⟩)
    · have := le_end_addr hcm
      have := c.start_le
      omega
  · by_contra hn
    obtain ⟨hmod, hneq, -⟩ := vx_start_aligned huse
    have hcov := hdown (vx_start m cpu) (Or.inr (Or.inr (Or.inl ⟨cpu, hcpu, Or.inr ⟨hadd, huse, Nat.le_refl _,
      Nat.lt_add_of_pos_right (by decide)⟩⟩))) (vx_start m cpu - 1) (Nat.sub_le _ _)
    rcases hcov with h | ⟨b, hb, hm⟩ | ⟨cpu', hcpu', hl | hv⟩ | he
    · omega
    · have := hend b hm
      omega
    · obtain ⟨a, ha⟩ := Nat.exists_eq_add_of_le' (show DF_S390_HDR_SIZE ≤ vx_start m cpu - 1 by omega)
      rw [ha] at hl
      have := hend a (Or.inl (hl.mapped hc (hp cpu' hcpu')))
      omega
    · -- two vector areas do not touch
      obtain ⟨-, huse', hlo, hhi⟩ := hv
      have := (vx_start_aligned huse').1
      unfold DFI_VX_SA_SIZE at hhi
      omega
    · omega

theorem filled_iff {m : Dfi} (hasc : m.chunks.Pairwise fun a b => a.stop < b.start) :
    Filled m ↔ ∀ c ∈ m.chunks.head?, c.start = 0 := by
  constructor
  · intro hfill c hhead
    by_contra hn
    obtain ⟨cs, hcs⟩ := List.head?_eq_some_iff.mp hhead
    have hmin : ∀ b ∈ m.chunks, c.start ≤ b.start := by
      intro b hb
      rw [hcs] at hb hasc
      rcases List.mem_cons.mp hb with rfl | hb
      · exact Nat.le_refl _
      · have := List.rel_of_pairwise_cons hasc hb
        have := c.start_le
        omega
    rcases hfill c hhead 0 (Nat.pos_of_ne_zero hn) with ⟨b, hb, ha⟩ | hs | ⟨cpu, -, -, huse, hlo, hhi⟩
    · have := hmin b hb
      have := ha.1
      omega
    · obtain ⟨⟨p, hlt⟩, -⟩ := hs.lt
      omega
    · have := vx_start_aligned huse
      unfold DF_S390_HDR_SIZE DFI_VX_SA_SIZE at *
      omega
  · intro h c hhead a ha
    rw [h c hhead] at ha
    exact absurd ha (Nat.not_lt_zero a)

/-! ## The ELF layout -/

theorem Laid.elf_mem_chunks : ∀ {cs : List MemChunk} {off : Nat} {d : Dump}, Laid d (fun x => x < off) →
    off + (cs.map MemChunk.size).sum ≤ U64_MAX →
    Laid (elf_mem_chunks cs off d) fun x => x < off + (cs.map MemChunk.size).sum
  | [], _, _, h, _ => h
  | c :: cs, off, d, h, hsum => by
    rw [List.map_cons, List.sum_cons] at hsum
    have hoff : u64 ((off + c.size : Nat) : Int) = off + c.size := by
      unfold U64_MAX at hsum
      rw [u64_of_lt (by omega) (by omega)]
      rfl
    have hadd : Laid (dfo_chunk_add off c.size c.read d) fun x => x < off + c.size :=
      (h.add c.pos (by omega) c.read).congr fun x => by omega
    rw [Zdump.elf_mem_chunks, hoff]
    refine (Laid.elf_mem_chunks hadd (by omega)).congr fun x => ?_
    rw [List.map_cons, List.sum_cons, Nat.add_assoc]

theorem elf_laid {hdr : List UInt8} (hhdr : hdr ≠ []) {m : Dfi}
    (hsum : hdr.length + (m.chunks.map MemChunk.size).sum ≤ U64_MAX) :
    Laid (elf_chunks_init hdr m) fun x => x < hdr.length + (m.chunks.map MemChunk.size).sum := by
  refine Laid.elf_mem_chunks ?_ hsum
  refine (Laid.empty.add (List.length_pos_iff.mpr hhdr) (by omega) _).congr fun x => ?_
  simp only [false_or, Nat.zero_le, true_and, Nat.zero_add]

/-! ## Writing the dump -/

/-- Every offset of the dump is covered, and copying it ends with as many bytes, those that reads return. -/
def Whole (d : Dump) : Prop :=
  d.Gapless ∧ ∃ fuel out, stdout_write_dump fuel d = some out ∧ out.length = d.size ∧
    ∀ size offset, offset ≤ U64_MAX → zfuse_read size offset d = (out.drop offset).take size

theorem Laid.whole_iff {d : Dump} {P : Nat → Prop} (h : Laid d P) : Whole d ↔ ∀ y, P y → ∀ x ≤ y, P x := by
  rw [← h.gapless_iff]
  refine ⟨And.left, fun hg => ⟨hg, ?_⟩⟩
  obtain ⟨fuel, out, hout⟩ := (stdout_write_dump_iff h.ok h.off).mpr hg
  exact ⟨fuel, out, hout, stdout_write_dump_eq h.ok h.off hout⟩

theorem output_dump (m : Dfi) :
    (∀ ops, (∀ op ∈ ops, op.Proper) → run Dump.empty ops = reads (fun _ => none) 0 ops) ∧
    (∀ hdr d, hdr ≠ [] → hdr.length + (m.chunks.map MemChunk.size).sum ≤ U64_MAX → dfo_elf_init hdr m = some d →
      Whole d) ∧
    (∀ hdr em d, m.chunks ≠ [] → (∀ c ∈ m.chunks, c.Fits) → df_s390_dump_init hdr em m = some d →
      (Filled m ∧ VxInside m → Whole d) ∧
      ((∀ cpu ∈ m.cpus, cpu.prefixreg.toNat + DF_S390_HDR_SIZE < 4294967296) → Whole d → Filled m ∧ VxInside m) ∧
      ((m.chunks.Pairwise fun a b => a.stop < b.start) → (Filled m ↔ ∀ c ∈ m.chunks.head?, c.start = 0))) := by
  refine ⟨fun ops hops => ?_, fun hdr d hhdr hsum hd => ?_, fun hdr em d hne hc hd => ?_⟩
  · exact run_eq_reads Laid.empty.ok hops
  · unfold dfo_elf_init at hd
    split at hd
    · cases hd
    · cases hd
      exact (elf_laid hhdr hsum).whole_iff.mpr fun y hy x hxy => Nat.lt_of_le_of_lt hxy hy
  · unfold df_s390_dump_init at hd
    split at hd
    · cases hd
    · cases hd
      have hwhole := (s390_laid hne hc hdr em).whole_iff
      refine ⟨fun ⟨hfill, hvx⟩ => ?_, fun hp hw => ?_, filled_iff⟩
      · exact hwhole.mpr (s390_gapless hne hc hfill hvx)
      · exact s390_gap hne hc hp (hwhole.mp hw)

/-! ## A dump of high memory -/

def high_chunk : MemChunk :=
    { start := 0x1000, size := 0x1f000, read := fun _ => 7, pos := by decide, fits := by decide }

def high_memory : Dfi := { arch := .arch_64, content := .none, fac_vx := false, chunks := [high_chunk], cpus := [] }

def low_chunk : MemChunk := { start := 0, size := 4096, read := fun _ => 7, pos := by decide, fits := by decide }

def low_memory : Dfi := { high_memory with chunks := [low_chunk] }

theorem output_dump_low_memory :
    run Dump.empty [.chunk_add 0 4 fun _ => 1, .chunk_add 2 4 fun _ => 2, .seek 1, .read 8] = [[1, 2, 2, 2, 2]] ∧
    (∃ d, dfo_elf_init [0x7f, 0x45, 0x4c, 0x46] low_memory = some d ∧ Whole d) ∧
    ∃ d, df_s390_dump_init (fun _ => 1) (fun _ => 2) low_memory = some d ∧ Whole d := by
  refine ⟨?_, ⟨_, rfl, (output_dump low_memory).2.1 _ _ (by decide) (by decide) rfl⟩,
    _, rfl, ((output_dump low_memory).2.2 (fun _ => 1) (fun _ => 2) _ (by decide) ?_ rfl).1 ⟨?_, ?_⟩⟩
  · rw [(output_dump low_memory).1]
    · decide
    · intro op hop
      rcases List.mem_cons.mp hop with rfl | hop
      · exact ⟨by decide, by decide⟩
      · rcases List.mem_cons.mp hop with rfl | hop
        · exact ⟨by decide, by decide⟩
        · rcases List.mem_cons.mp hop with rfl | hop
          · exact (by decide : 1 ≤ U64_MAX)
          · cases List.mem_singleton.mp hop
            trivial
  · intro c hc
    cases List.mem_singleton.mp hc
    exact (by decide : 4095 + DF_S390_HDR_SIZE + DF_S390_EM_SIZE < U64_MAX)
  · intro c hc a ha
    cases hc
    exact absurd ha (Nat.not_lt_zero a)
  · intro cpu hcpu
    cases hcpu

/-- The hole below the chunk is never written, and copying the dump does not end. -/
theorem high_memory_never_written : ∃ d, df_s390_dump_init (fun _ => 1) (fun _ => 2) high_memory = some d ∧
    content d.chunk_list 4096 = none ∧ 4096 < d.size ∧ ¬ ∃ fuel out, stdout_write_dump fuel d = some out := by
  refine ⟨_, rfl, by decide, by decide, fun hw => ?_⟩
  have hfits : ∀ c ∈ high_memory.chunks, c.Fits := by
    intro c hc
    cases List.mem_singleton.mp hc
    exact (by decide : 0x1ffff + DF_S390_HDR_SIZE + DF_S390_EM_SIZE < U64_MAX)
  have hlaid := s390_laid (m := high_memory) (by decide) hfits (fun _ => 1) (fun _ => 2)
  have hgap := (stdout_write_dump_iff hlaid.ok hlaid.off).mp hw
  exact hgap 4096 (by decide) (by decide)

end Zdump
