import S390Tools.Lib.CString
import S390Tools.Lib.Splice
import S390Tools.Lib.Stdio
import S390Tools.Zipl.Disk

/-!
# The boot menu (zipl/src/boot.c, zipl/boot/menu.c, zipl/boot/kdump2.c, zipl/boot/libc.c)

`store_stage2_menu` lays the parameters of the loader and the texts of the menu
out in one buffer. The loader reads the same bytes with its own declaration of
`struct boot_stage2_params`.
-/

namespace Zipl.Menu

open Stdio Splice Word

def ascii (s : String) : Bytes := s.toList.map fun c => UInt8.ofNat c.toNat

def ascebc : List UInt8 := [
  0x00, 0x01, 0x02, 0x03, 0x37, 0x2D, 0x2E, 0x2F, 0x16, 0x05, 0x15, 0x0B, 0x0C, 0x0D, 0x0E, 0x0F,
  0x10, 0x11, 0x12, 0x13, 0x3C, 0x3D, 0x32, 0x26, 0x18, 0x19, 0x3F, 0x27, 0x22, 0x1D, 0x1E, 0x1F,
  0x40, 0x5A, 0x7F, 0x7B, 0x5B, 0x6C, 0x50, 0x7D, 0x4D, 0x5D, 0x5C, 0x4E, 0x6B, 0x60, 0x4B, 0x61,
  0xF0, 0xF1, 0xF2, 0xF3, 0xF4, 0xF5, 0xF6, 0xF7, 0xF8, 0xF9, 0x7A, 0x5E, 0x4C, 0x7E, 0x6E, 0x6F,
  0x7C, 0xC1, 0xC2, 0xC3, 0xC4, 0xC5, 0xC6, 0xC7, 0xC8, 0xC9, 0xD1, 0xD2, 0xD3, 0xD4, 0xD5, 0xD6,
  0xD7, 0xD8, 0xD9, 0xE2, 0xE3, 0xE4, 0xE5, 0xE6, 0xE7, 0xE8, 0xE9, 0xBA, 0xE0, 0xBB, 0xB0, 0x6D,
  0x79, 0x81, 0x82, 0x83, 0x84, 0x85, 0x86, 0x87, 0x88, 0x89, 0x91, 0x92, 0x93, 0x94, 0x95, 0x96,
  0x97, 0x98, 0x99, 0xA2, 0xA3, 0xA4, 0xA5, 0xA6, 0xA7, 0xA8, 0xA9, 0xC0, 0x4F, 0xD0, 0xA1, 0x07,
  0x3F, 0x3F, 0x3F, 0x3F, 0x3F, 0x3F, 0x3F, 0x3F, 0x3F, 0x3F, 0x3F, 0x3F, 0x3F, 0x3F, 0x3F, 0x3F,
  0x3F, 0x3F, 0x3F, 0x3F, 0x3F, 0x3F, 0x3F, 0x3F, 0x3F, 0x3F, 0x3F, 0x3F, 0x3F, 0x3F, 0x3F, 0x3F,
  0x3F, 0x3F, 0x3F, 0x3F, 0x3F, 0x3F, 0x3F, 0x3F, 0x3F, 0x3F, 0x3F, 0x3F, 0x3F, 0x3F, 0x3F, 0x3F,
  0x3F, 0x3F, 0x3F, 0x3F, 0x3F, 0x3F, 0x3F, 0x3F, 0x3F, 0x3F, 0x3F, 0x3F, 0x3F, 0x3F, 0x3F, 0x3F,
  0x3F, 0x3F, 0x3F, 0x3F, 0x3F, 0x3F, 0x3F, 0x3F, 0x3F, 0x3F, 0x3F, 0x3F, 0x3F, 0x3F, 0x3F, 0x3F,
  0x3F, 0x3F, 0x3F, 0x3F, 0x3F, 0x3F, 0x3F, 0x3F, 0x3F, 0x3F, 0x3F, 0x3F, 0x3F, 0x3F, 0x3F, 0x3F,
  0x3F, 0x59, 0x3F, 0x3F, 0x3F, 0x3F, 0x3F, 0x3F, 0x3F, 0x3F, 0x3F, 0x3F, 0x3F, 0x3F, 0x3F, 0x3F,
  0x3F, 0x3F, 0x3F, 0x3F, 0x3F, 0x3F, 0x3F, 0x3F, 0x90, 0x3F, 0x3F, 0x3F, 0x3F, 0xEA, 0x3F, 0xFF]

def to_ebcdic (c : UInt8) : UInt8 := ascebc.getD c.toNat 0

def misc_ascii_to_ebcdic (s : Bytes) : Bytes := s.map to_ebcdic

/-! ## The job -/

inductive JobId
  | job_print_usage
  | job_print_version
  | job_ipl
  | job_segment
  | job_dump_partition
  | job_menu
  | job_ipl_tape
  | job_mvdump
  deriving DecidableEq

structure Name where
  text : Bytes
  no_nul : ∀ c ∈ text, c ≠ 0

structure JobMenuEntry where
  pos : Nat
  name : Name
  id : JobId
  is_kdump : Bool

structure JobMenuData where
  default_pos : Nat
  prompt : Int
  timeout : Int
  entry : List JobMenuEntry

structure JobData where
  id : JobId
  name : Option Name
  is_kdump : Bool
  menu : JobMenuData

def PROGRAM_TABLE_BLOCK_SIZE : Nat := 512

def get_program_table_size (info : DiskInfo) : Nat := PROGRAM_TABLE_BLOCK_SIZE / get_blockptr_size info - 1

def check_menu_positions (menu : JobMenuData) (info : DiskInfo) : Bool :=
  menu.entry.all fun e => !decide (get_program_table_size info ≤ e.pos)

/-! ## The buffer -/

structure MenuBuffer where
  start : Bytes
  off : Nat

def MenuBuffer.size (buffer : MenuBuffer) : Nat := buffer.start.length

def mb_init (size : Nat) : MenuBuffer := ⟨List.replicate size 0, 0⟩

def mb_alloc (buffer : MenuBuffer) (len : Nat) : Option (Nat × MenuBuffer) :=
  if buffer.off + len > buffer.size then none
  else some (buffer.off, { buffer with off := buffer.off + len })

def mb_sprintf (buffer : MenuBuffer) (s : Bytes) : Option (Nat × MenuBuffer) :=
  if s.length ≥ buffer.size - buffer.off then none
  else
    mb_alloc { buffer with start := splice buffer.start buffer.off (misc_ascii_to_ebcdic s ++ [0]) } (s.length + 1)

def decimal (n : Nat) : Bytes := (Nat.toDigits 10 n).map fun c => UInt8.ofNat c.toNat

def decimal2 (n : Nat) : Bytes := List.replicate (2 - (decimal n).length) 0x20 ++ decimal n

/-- `0x1 << n` is an `int`, extended to the 64 bits of the mask. -/
def int_bit (n : Nat) : BitVec 64 := ((1#32) <<< n).signExtend 64

/-! ## The parameters as zipl declares them (zipl/include/boot.h) -/

def STAGE2_MAX_SIZE : Nat := 0x3000

namespace Boot

def BOOT_MENU_ENTRIES : Nat := 62

def config_offset (p : Nat) : Nat := 6 + 2 * p

def config_kdump_offset : Nat := config_offset (BOOT_MENU_ENTRIES + 1)

def params_size : Nat := config_kdump_offset + 8

end Boot

def MenuBuffer.store (mb : MenuBuffer) (o : Nat) (bs : Bytes) : MenuBuffer :=
    { mb with start := splice mb.start o bs }

def scan_entries (default_pos : Nat) : Nat → List JobMenuEntry → BitVec 64 × Bytes → BitVec 64 × Bytes
  | _, [], s => s
  | i, e :: es, (config_kdump, name) =>
    let is_kdump := e.id == .job_ipl && e.is_kdump
    -- we start with 2nd bit
    let config_kdump := if is_kdump then config_kdump ||| int_bit (i + 1) else config_kdump
    scan_entries default_pos (i + 1) es
      (if e.pos = default_pos then (if is_kdump then config_kdump ||| int_bit 0 else config_kdump, e.name.text)
      else (config_kdump, name))

def kdump_str (e : JobMenuEntry) : Bytes := if e.is_kdump then ascii " (kdump)" else []

def entry_text (e : JobMenuEntry) : Bytes := decimal2 e.pos ++ ascii ". " ++ e.name.text ++ kdump_str e

def store_entries : List JobMenuEntry → MenuBuffer → Option MenuBuffer
  | [], mb => some mb
  | e :: es, mb =>
    match mb_sprintf mb (entry_text e) with
    | none => none
    | some (str, mb) => store_entries es (mb.store (Boot.config_offset e.pos) (be 2 (u16 str)))

def default_text (name : Option Bytes) : Bytes :=
  match name with
  | some name => ascii " 0. default (" ++ name ++ ascii ")"
  | none => ascii " 0. default"

def banner_text (release : Name) : Bytes := ascii "zIPL v" ++ release.text ++ ascii " interactive boot menu\n "

def store_stage2_menu (release : Name) (size : Nat) (job : JobData) : Option Bytes := do
  let (config_kdump, name, flag, timeout) : BitVec 64 × Option Bytes × Nat × Int :=
    if job.id = .job_menu then
      let (config_kdump, name) := scan_entries job.menu.default_pos 0 job.menu.entry (0, ascii "-")
      (config_kdump, some name, if job.menu.prompt ≠ 0 then 1 else 0, job.menu.timeout)
    else (if job.id == .job_ipl && job.is_kdump then int_bit 0 else 0, job.name.map Name.text, 0, 0)
  let (_, mb) ← mb_alloc (mb_init size) Boot.params_size
  let mb := mb.store 0 (be 2 (u16 flag))
  let mb := mb.store Boot.config_kdump_offset (be 8 config_kdump.toNat)
  let mb := mb.store 2 (be 2 (u16 timeout))
  let (str, mb) ← mb_sprintf mb (banner_text release)
  let mb := mb.store 4 (be 2 (u16 str))
  let (str, mb) ← mb_sprintf mb (default_text name)
  let mb := mb.store (Boot.config_offset 0) (be 2 (u16 str))
  if job.id ≠ .job_menu then some mb.start
  else
    let mb ← store_entries job.menu.entry mb
    some mb.start

/-! ## The parameters as the loader declares them (zipl/boot/menu.h) -/

def BOOT_MENU_ENTRIES : Nat := 63
def TEXT_OFFSET : Nat := 4

def config (params : Bytes) (p : Nat) : Nat := unbe (slice params (6 + 2 * p) 2)
def config_kdump (params : Bytes) : BitVec 64 := BitVec.ofNat 64 (unbe (slice params (6 + 2 * BOOT_MENU_ENTRIES) 8))

def string_at (params : Bytes) (o : Nat) : Bytes := CString.str (params.drop o)

/-- The condition under which `kdump_stage2` copies the crash kernel. -/
def kdump_stage2 (params : Bytes) (config_nr : Nat) : Bool := config_kdump params &&& int_bit config_nr != 0

/-! ## Messages (zipl/boot/libc.c) -/

def lit (s : String) : Bytes := misc_ascii_to_ebcdic (ascii s)

inductive Arg
  | str (s : Bytes)
  | num (val : Nat)

def num_to_str (base val : Nat) (zero : Bool) (count : Nat) : Bytes :=
  let digits := (Nat.toDigits base val).map fun c => to_ebcdic (UInt8.ofNat c.toNat)
  List.replicate (count - digits.length) (to_ebcdic (if zero then 0x30 else 0x20)) ++ digits

def str_to_str (str : Bytes) (count : Nat) : Bytes := List.replicate (count - str.length) (to_ebcdic 0x20) ++ str

/-- `libc_stop` for an unknown conversion. -/
def sprintf_fmt (type : UInt8) (val : Arg) (zero : Bool) (count : Nat) : Option Bytes :=
  match val with
  | .str s => if type = to_ebcdic 0x73 then some (str_to_str s count) else none
  | .num n =>
    if type = to_ebcdic 0x78 then some (num_to_str 16 n zero count)
    else if type = to_ebcdic 0x75 then some (num_to_str 10 n zero count) else none

def isdigit (c : UInt8) : Bool := to_ebcdic 0x30 ≤ c && c ≤ to_ebcdic 0x39

def strtoul (nptr : Bytes) : Nat × Bytes :=
  ((nptr.takeWhile isdigit).foldl (fun val c => val * 10 + (c.toNat - (to_ebcdic 0x30).toNat)) 0,
    nptr.dropWhile isdigit)

def skip (c : UInt8) (fmt : Bytes) : Bytes := if fmt.head? = some (to_ebcdic c) then fmt.tail else fmt

/-- `n` bounds the length of the format. -/
def vsprintf : Nat → Bytes → List Arg → Option Bytes
  | 0, _, _ => some []
  | _ + 1, [], _ => some []
  | n + 1, c :: fmt, va =>
    if c = to_ebcdic 0x25 then
      let zero := fmt.head? = some (to_ebcdic 0x30)
      let (count, fmt) := strtoul (skip 0x30 fmt)
      match skip 0x6c fmt, va with
      | type :: fmt, val :: va => do
        let s ← sprintf_fmt type val zero count
        let str ← vsprintf n fmt va
        some (s ++ str)
      | _, _ => none
    else (vsprintf n fmt va).map (c :: ·)

/-- What `printf` writes into its buffer, without the terminating zero. -/
def printf (fmt : Bytes) (va : List Arg) : Bytes := (vsprintf fmt.length fmt va).getD []

def PRINTF_BUFFER : Nat := 81

/-! ## The menu -/

def menu_entry (params : Bytes) (i : Nat) : Bytes := printf (lit "%s\n") [.str (string_at params (config params i))]

def booting (params : Bytes) (value : Nat) : Bytes :=
  printf (lit "Booting %s\n") [.str (string_at params (config params value + TEXT_OFFSET))]

end Zipl.Menu
