import S390Tools.Lib.Word

/-!
# Restoring memory for kdump (zipl/boot/kdump3.c)

The loader lies in low memory of the crashed system. What was there before is in
the HSA. Stage 3 copies it to the crash kernel's memory and back to its place.
-/

namespace Zipl.Kdump

open Word

abbrev Mem := Nat → UInt8

def PAGE_SIZE : Nat := 4096

/-- `MEM_ALLOC_START`: the first page that `get_zeroed_page` gives. -/
def hsa_page : Nat := 0x7000

def LC_OS_INFO : Nat := 0x0e18
def OS_INFO_MAGIC : Nat := 0x4f53494e464f535a
def OS_INFO_VERSION_MAJOR_SUPPORTED : Nat := 1
def OS_INF0_CSUM_SIZE : Nat := 4084

/-! ## The loader and its machine -/

structure Stage3 where
  csum_partial : List UInt8 → UInt32
  /-- the end of the loader in memory, behind its heap and in front of the kernel -/
  program_end : Nat
  program_end_ge : 0xa000 ≤ program_end
  program_end_le : program_end ≤ 0x10000

structure Machine where
  hsa : Mem
  page_is_valid : Nat → Bool
  /-- what the loader has in its own memory after so many copies -/
  own : Nat → Mem

inductive Reason where
  | EHSA_COPY_FAILED
  | EOS_INFO_MISSING
  | EOS_INFO_CSUM_FAILED
  | EOS_INFO_VERSION
  | EOS_INFO_NOCRASHKERNEL
  deriving DecidableEq

inductive Stop where
  | kdump_failed (reason : Reason)
  /-- the loader is overwritten -/
  | destroyed
  deriving DecidableEq

structure Request where
  dst : Nat
  src : Nat
  cnt : Int
  deriving DecidableEq

structure State where
  mem : Mem
  requests : List Request

section
variable (stage3 : Stage3) (machine : Machine)

/-- The loader's memory behind the work page: the page for requests, its text, data and stack. -/
def Stage3.Owned (a : Nat) : Prop := hsa_page + PAGE_SIZE ≤ a ∧ a < stage3.program_end

instance (a : Nat) : Decidable (stage3.Owned a) := inferInstanceAs (Decidable (_ ∧ _))

def Stage3.overlaps (dst n : Nat) : Bool := dst < stage3.program_end && hsa_page + PAGE_SIZE < dst + n

def copied (s : State) (dst src n : Nat) (cnt : Int) : State where
  mem := fun a =>
    if stage3.Owned a then machine.own s.requests.length a
    else if dst ≤ a ∧ a < dst + n then machine.hsa (src + (a - dst)) else s.mem a
  requests := s.requests ++ [⟨dst, src, cnt⟩]

/-- A copy of `nr_blocks` blocks; the first two blocks of the HSA are not memory. -/
def sclp_hsa_copy (s : State) (dst first_block nr_blocks : Nat) (cnt : Int) : Except Stop State :=
  if stage3.overlaps dst (nr_blocks * PAGE_SIZE) then .error .destroyed
  else .ok (copied stage3 machine s dst ((first_block - 2) * PAGE_SIZE) (nr_blocks * PAGE_SIZE) cnt)

def copy_from_hsa (s : State) (dst src : Nat) (cnt : Int) : Except Stop State :=
  if cnt = 0 then .ok s
  else sclp_hsa_copy stage3 machine s dst (u32 (2 + src / PAGE_SIZE : Nat)) (u32 (cnt.tdiv PAGE_SIZE)) cnt

def memcpy (s : State) (dst src n : Nat) : Except Stop State :=
  if stage3.overlaps dst n then .error .destroyed
  else .ok { s with mem := fun a => if dst ≤ a ∧ a < dst + n then s.mem (src + (a - dst)) else s.mem a }

def sclp_hsa_get_size (blk_cnt : Nat) : Option Nat :=
  if blk_cnt ≠ 0 then some (u32 (((blk_cnt : Int) - 1) * PAGE_SIZE)) else none

/-! ## The OS info -/

def word (m : Mem) (a : Nat) : Nat → Nat
  | 0 => 0
  | n + 1 => word m a n * 256 + (m (a + n)).toNat

def os_info_check (m : Mem) (os_info : Nat) : Except Stop Unit :=
  if os_info = 0 then .error (.kdump_failed .EOS_INFO_MISSING)
  else if os_info % PAGE_SIZE ≠ 0 then .error (.kdump_failed .EOS_INFO_MISSING)
  else if !machine.page_is_valid os_info then .error (.kdump_failed .EOS_INFO_MISSING)
  else if word m os_info 8 ≠ OS_INFO_MAGIC then .error (.kdump_failed .EOS_INFO_MISSING)
  else if (stage3.csum_partial ((List.range OS_INF0_CSUM_SIZE).map fun i =>
    m (os_info + 12 + i))).toNat ≠ word m (os_info + 8) 4 then
    .error (.kdump_failed .EOS_INFO_CSUM_FAILED)
  else if word m (os_info + 12) 2 > OS_INFO_VERSION_MAJOR_SUPPORTED then .error (.kdump_failed .EOS_INFO_VERSION)
  else if word m (os_info + 16) 8 = 0 then .error (.kdump_failed .EOS_INFO_NOCRASHKERNEL)
  else .ok ()

/-- The first part of `kdump_stage3_scsi`, up to the check: the address of the OS info. -/
def find_os_info (hsa_size : Nat) (mem : Mem) : Except Stop (State × Nat) := do
  let s : State := { mem := fun a => if hsa_page ≤ a ∧ a < hsa_page + PAGE_SIZE then 0 else mem a, requests := [] }
  -- sclp_hsa_copy_init
  let s ← sclp_hsa_copy stage3 machine s hsa_page 2 1 PAGE_SIZE
  let s ← copy_from_hsa stage3 machine s hsa_page 0 PAGE_SIZE
  let os_info_addr := word s.mem (hsa_page + LC_OS_INFO) 8
  if os_info_addr < hsa_size then
    let s ← copy_from_hsa stage3 machine s hsa_page os_info_addr PAGE_SIZE
    return (s, hsa_page)
  else return (s, os_info_addr)

/-! ## Copying -/

def restore_above (hsa_size crash_base crash_size : Nat) (s : State) : Except Stop State :=
  if crash_size > hsa_size then memcpy stage3 s (u64 (crash_base + hsa_size : Nat)) hsa_size (crash_size - hsa_size)
  else
    copy_from_hsa stage3 machine s crash_size crash_size (i32 (u64 ((min hsa_size crash_base : Nat) - crash_size)))

def restore_behind (hsa_size crash_end : Nat) (s : State) : Except Stop State :=
  if crash_end < hsa_size then copy_from_hsa stage3 machine s crash_end crash_end (i32 (hsa_size - crash_end : Nat))
  else .ok s

def restore (hsa_size crash_base crash_size : Nat) (s : State) : Except Stop State := do
  let s ← copy_from_hsa stage3 machine s crash_base 0 (i32 (min crash_size hsa_size : Nat))
  let s ← restore_above stage3 machine hsa_size crash_base crash_size s
  restore_behind stage3 machine hsa_size (u64 (crash_base + crash_size : Nat)) s

def kdump_stage3_scsi (blk_cnt : Nat) (mem : Mem) : Except Stop (Nat × Nat × State) :=
  match sclp_hsa_get_size blk_cnt with
  | none => .error (.kdump_failed .EHSA_COPY_FAILED)
  | some hsa_size => do
    let (s, os_info) ← find_os_info stage3 machine hsa_size mem
    os_info_check stage3 machine s.mem os_info
    let crash_base := word s.mem (os_info + 16) 8
    let crash_size := word s.mem (os_info + 24) 8
    let s ← restore stage3 machine hsa_size crash_base crash_size s
    return (crash_base, crash_size, s)

end

/-! ## What is preserved -/

section
variable (stage3 : Stage3) (machine : Machine) (hsa_size crash_base crash_size : Nat) (orig : Mem)

def os_info_at : Nat × Mem :=
  let os_info_addr := word machine.hsa LC_OS_INFO 8
  if os_info_addr < hsa_size then
    (hsa_page, fun a => machine.hsa (os_info_addr / PAGE_SIZE * PAGE_SIZE + (a - hsa_page)))
  else (os_info_addr, orig)

/-- The crashed system had a valid OS info, and its memory is in the HSA and behind `hsa_size`. -/
structure Crashed (mem : Mem) : Prop where
  in_hsa : ∀ a < hsa_size, machine.hsa a = orig a
  in_memory : ∀ a, hsa_size ≤ a → mem a = orig a
  valid : os_info_check stage3 machine (os_info_at machine hsa_size orig).2
    (os_info_at machine hsa_size orig).1 = .ok ()
  base : word (os_info_at machine hsa_size orig).2 ((os_info_at machine hsa_size orig).1 + 16) 8 = crash_base
  size : word (os_info_at machine hsa_size orig).2 ((os_info_at machine hsa_size orig).1 + 24) 8 = crash_size

structure Preserved (s : State) : Prop where
  copied : ∀ a, crash_base ≤ a → a < crash_base + crash_size → s.mem a = orig (a - crash_base)
  kept : ∀ a, crash_size ≤ a → ¬ (crash_base ≤ a ∧ a < crash_base + crash_size) → s.mem a = orig a
  requests : ∀ r ∈ s.requests, 0 ≤ r.cnt ∧ r.src + r.cnt ≤ hsa_size ∧
    (crash_size ≤ r.dst ∨ r.dst = hsa_page ∧ r.cnt = PAGE_SIZE)

/-- The loader lies in memory that is in the HSA and is not restored, the lengths of the copies are no
negative `int` and the crash kernel's memory does not reach to the end of the address space. -/
structure Fits : Prop where
  own_size : stage3.program_end ≤ crash_size
  own_hsa : stage3.program_end ≤ hsa_size
  end_lt : crash_base + crash_size < 2 ^ 64
  first : min crash_size hsa_size < 2 ^ 31
  above : min hsa_size crash_base - crash_size < 2 ^ 31
  behind : hsa_size - (crash_base + crash_size) < 2 ^ 31

end

end Zipl.Kdump
