import S390Tools.Lib.Stdio
import S390Tools.Lib.Word

/-!
# The header of an ELF dump (zdump/dfo_elf.c)

The header is written into memory of an estimated size. A write is the place of its first
byte and its bytes; structures are their bytes on a machine with the highest byte first.
-/

namespace Zdump.Elf

open Stdio Word

def HDR_PER_CPU_SIZE : Nat := 0x4a0
def HDR_PER_MEMC_SIZE : Nat := 0x100
def HDR_BASE_SIZE : Nat := 0x2000
def PAGE_SIZE : Nat := 4096

def NT_PRSTATUS : Nat := 1
def NT_FPREGSET : Nat := 2
def NT_PRPSINFO : Nat := 3
def NT_S390_TIMER : Nat := 0x301
def NT_S390_TODCMP : Nat := 0x302
def NT_S390_TODPREG : Nat := 0x303
def NT_S390_CTRS : Nat := 0x304
def NT_S390_PREFIX : Nat := 0x305
def NT_S390_VXRS_LOW : Nat := 0x309
def NT_S390_VXRS_HIGH : Nat := 0x30a

def ROUNDUP (x y : Nat) : Nat := (x + (y - 1)) / y * y

/-! ## The dump -/

structure DfiVxrs where
  low : UInt64
  high : UInt64

structure DfiCpu where
  gprs : Vector UInt64 16
  ctrs : Vector UInt64 16
  acrs : Vector UInt32 16
  fprs : Vector UInt64 16
  fpc : UInt32
  psw : Vector UInt64 2
  prefixreg : UInt32
  timer : UInt64
  todcmp : UInt64
  todpreg : UInt32
  vxrs_low : Vector UInt64 16
  vxrs_high : Vector DfiVxrs 16

inductive DfiCpuContent
  | none | lc | all
  deriving DecidableEq

structure DfiMemChunk where
  start : UInt64
  stop : UInt64

structure Dfi where
  content : DfiCpuContent
  fac_vx : Bool
  cpus : List DfiCpu
  chunks : List DfiMemChunk
  vmcoreinfo : Option Bytes

/-! ## Structures -/

def zeros (n : Nat) : Bytes := List.replicate n 0

def be64 (v : UInt64) : Bytes := be 8 v.toNat

def be32 (v : UInt32) : Bytes := be 4 v.toNat

def regs64 {n : Nat} (v : Vector UInt64 n) : Bytes := v.toList.flatMap be64

def regs32 {n : Nat} (v : Vector UInt32 n) : Bytes := v.toList.flatMap be32

def vxrs {n : Nat} (v : Vector DfiVxrs n) : Bytes := v.toList.flatMap fun x => be64 x.low ++ be64 x.high

def chars (s : String) : Bytes := s.toUTF8.toList

def prstatus (pr_pid : Nat) (cpu : DfiCpu) : Bytes :=
  zeros 32 ++ be 4 pr_pid ++ zeros 76 ++ regs64 cpu.psw ++ regs64 cpu.gprs ++ regs32 cpu.acrs ++
    zeros 8 ++ zeros 4 ++ zeros 4

def fpregset (cpu : DfiCpu) : Bytes := be32 cpu.fpc ++ zeros 4 ++ regs64 cpu.fprs

/-- `struct nt_prpsinfo_64`, where the flags are aligned. -/
def prpsinfo : Bytes := zeros 1 ++ [0x52] ++ zeros 2 ++ zeros 4 ++ zeros 8 ++ zeros 24 ++
    (chars "vmlinux" ++ zeros 9) ++ zeros 80

def ehdr (phnum : Nat) : Bytes :=
  [0x7f, 0x45, 0x4c, 0x46] ++ [2, 2, 1, 0, 0] ++ zeros 7 ++ be 2 4 ++ be 2 22 ++ be 4 1 ++ be 8 0 ++
    be 8 64 ++ be 8 0 ++
    be 4 0 ++ be 2 64 ++ be 2 56 ++ be 2 phnum ++ be 2 0 ++ be 2 0 ++ be 2 0

def phdr (type flags offset addr filesz memsz align : Nat) : Bytes :=
  be 4 type ++ be 4 flags ++ be 8 offset ++ be 8 addr ++ be 8 addr ++ be 8 filesz ++ be 8 memsz ++ be 8 align

/-! ## Notes -/

structure Write where
  off : Nat
  bytes : Bytes

/-- The next place in the header and what was written so far. -/
structure Out where
  ptr : Nat
  writes : List Write

def nt_init (type : Nat) (desc name : Bytes) (o : Out) : Out :=
  let namesz := name.length + 1
  let desc_off := ROUNDUP (12 + namesz) 4
  { ptr := o.ptr + ROUNDUP (desc_off + desc.length) 4
    writes := o.writes ++
      [⟨o.ptr, be 4 namesz ++ be 4 desc.length ++ be 4 type⟩, ⟨o.ptr + 12, name ++ [0]⟩, ⟨o.ptr + desc_off, desc⟩] }

def nt_prstatus (cpu_nr : Nat) (cpu : DfiCpu) : Out → Out :=
    nt_init NT_PRSTATUS (prstatus cpu_nr cpu) (chars "CORE")

def nt_fpregset (cpu : DfiCpu) : Out → Out := nt_init NT_FPREGSET (fpregset cpu) (chars "CORE")

def nt_s390_timer (cpu : DfiCpu) : Out → Out := nt_init NT_S390_TIMER (be64 cpu.timer) (chars "LINUX")

def nt_s390_tod_cmp (cpu : DfiCpu) : Out → Out := nt_init NT_S390_TODCMP (be64 cpu.todcmp) (chars "LINUX")

def nt_s390_tod_preg (cpu : DfiCpu) : Out → Out := nt_init NT_S390_TODPREG (be32 cpu.todpreg) (chars "LINUX")

def nt_s390_ctrs (cpu : DfiCpu) : Out → Out := nt_init NT_S390_CTRS (regs64 cpu.ctrs) (chars "LINUX")

def nt_s390_prefix (cpu : DfiCpu) : Out → Out := nt_init NT_S390_PREFIX (be32 cpu.prefixreg) (chars "LINUX")

def nt_s390_vxrs_low (cpu : DfiCpu) : Out → Out := nt_init NT_S390_VXRS_LOW (regs64 cpu.vxrs_low) (chars "LINUX")

def nt_s390_vxrs_high (cpu : DfiCpu) : Out → Out := nt_init NT_S390_VXRS_HIGH (vxrs cpu.vxrs_high) (chars "LINUX")

def nt_prpsinfo : Out → Out := nt_init NT_PRPSINFO prpsinfo (chars "CORE")

def nt_vmcoreinfo (vmcoreinfo : Option Bytes) (o : Out) : Out :=
  match vmcoreinfo with
  | none => o
  | some text => nt_init 0 text (chars "VMCOREINFO") o

def cpu_notes (fac_vx : Bool) : (cpu_nr : Nat) → List DfiCpu → Out → Out
  | _, [], o => o
  | cpu_nr, cpu :: cpus, o =>
    let o := nt_prstatus cpu_nr cpu o
    let o := nt_fpregset cpu o
    let o := nt_s390_timer cpu o
    let o := nt_s390_tod_cmp cpu o
    let o := nt_s390_tod_preg cpu o
    let o := nt_s390_ctrs cpu o
    let o := nt_s390_prefix cpu o
    let o := if fac_vx then nt_s390_vxrs_high cpu (nt_s390_vxrs_low cpu o) else o
    cpu_notes fac_vx (cpu_nr + 1) cpus o

def notes (m : Dfi) (o : Out) : Out :=
  let o := nt_prpsinfo o
  let o := if m.content = .all then cpu_notes m.fac_vx 1 m.cpus o else o
  nt_vmcoreinfo m.vmcoreinfo o

def notes_init (phdr_notes notes_offset : Nat) (m : Dfi) (o : Out) : Out :=
  let o' := notes m o
  { o' with writes := o'.writes ++ [⟨phdr_notes, phdr 4 0 notes_offset 0 (o'.ptr - o.ptr) 0 0⟩] }

def loads_init (loads_offset phdr_loads : Nat) : List DfiMemChunk → List Write
  | [] => []
  | c :: cs =>
    let filesz := u64 ((c.stop.toNat : Int) - c.start.toNat + 1)
    ⟨phdr_loads, phdr 1 7 loads_offset c.start.toNat filesz filesz PAGE_SIZE⟩ ::
      loads_init (u64 (loads_offset + filesz : Nat)) (phdr_loads + 56) cs

/-! ## The header -/

def estimate (m : Dfi) : Nat :=
    HDR_BASE_SIZE + m.cpus.length * HDR_PER_CPU_SIZE + m.chunks.length * HDR_PER_MEMC_SIZE

structure Header where
  alloc_size : Nat
  hdr_size : Nat
  writes : List Write

def elf_header (m : Dfi) : Header :=
  let chunk_cnt := m.chunks.length
  let o := notes_init 64 (120 + 56 * chunk_cnt) m ⟨120 + 56 * chunk_cnt, [⟨0, ehdr (chunk_cnt + 1)⟩]⟩
  { alloc_size := u32 (estimate m : Nat)
    hdr_size := u32 (o.ptr : Nat)
    writes := o.writes ++ loads_init o.ptr 120 m.chunks }

/-- `none` is the abort. -/
def dfo_elf_init (m : Dfi) : Option Header :=
  if (elf_header m).hdr_size > (elf_header m).alloc_size then none else some (elf_header m)

end Zdump.Elf
