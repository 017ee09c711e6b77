import S390Tools.Cmsfs.File
import S390Tools.Lib.Run

/-!
# Scanning a fixed file (cmsfs-fuse/cmsfs-fuse.c)

The scan walks over the data blocks of a file below its pointer blocks and builds
the list of the records with their pieces. After an append it starts again at the
last record.
-/

namespace Cmsfs

/-- The part of a fixed file that the scan depends on. -/
structure FixedFile where
  record_len : Nat
  linefeed : Bool
  nr_records : Nat
  nr_blocks : Nat

inductive RecordScanState
  | HEADER_COMPLETE
  | DATA_BLOCK_STARTED
  | DATA_BLOCK_EXT
  deriving DecidableEq

/-- The records that were found, the number of the last one being `*record`, and the counters of the scan. -/
structure FixedScan where
  rlist : List Record
  block : Nat
  total : Nat
  null_ctr : Nat
  record_scan_state : RecordScanState

inductive ScanStop
  | BUG
  | DIE
  | negative
  deriving DecidableEq

def FixedScan.init : FixedScan := ⟨[], 0, 0, 0, .DATA_BLOCK_STARTED⟩

section
variable (c : Device) (f : FixedFile)

def FixedScan.record (st : FixedScan) : Int := (st.rlist.length : Int) - 1

def FixedScan.in_data (st : FixedScan) : Bool :=
  st.record_scan_state = .DATA_BLOCK_STARTED || st.record_scan_state = .DATA_BLOCK_EXT

/-! ## Records -/

def set_record_len (len : Nat) (st : FixedScan) : Except ScanStop FixedScan :=
  if f.nr_records ≠ 0 ∧ f.nr_records = st.rlist.length then .error .DIE
  else if st.in_data = false then .error .DIE
  else .ok { st with rlist := st.rlist ++ [⟨len, 0, 0, 0, false, [], 0⟩], record_scan_state := .HEADER_COMPLETE }

def null_ctr_after (addr len : Nat) (st : FixedScan) : Nat := if addr = NULL_BLOCK then st.null_ctr + len else 0

def null_started (addr : Nat) (st : FixedScan) : Bool := addr = NULL_BLOCK && st.null_ctr % c.blksize = 0

def set_record (addr len : Nat) (st : FixedScan) : Except ScanStop FixedScan :=
  if st.record_scan_state ≠ .HEADER_COMPLETE then .error .DIE
  else
    match st.rlist.getLast? with
    | none => .error .BUG
    | some r =>
      let total := if f.linefeed && st.record ≠ 0 then st.total + 1 else st.total
      .ok { st with
        rlist := st.rlist.dropLast ++ [{ r with
          first_block_len := len
          disk_start := addr
          block_nr := st.block
          null_block_started := null_started c addr st
          file_start := total }]
        null_ctr := null_ctr_after addr len st
        total := total + r.total_len
        record_scan_state := .DATA_BLOCK_STARTED }

def set_record_extension (addr len : Nat) (st : FixedScan) : Except ScanStop FixedScan :=
  if st.in_data = false then .error .DIE
  else if st.record ≥ f.nr_records then .error .BUG
  else
    match st.rlist.getLast? with
    | none => .error .BUG
    | some r =>
      .ok { st with
        rlist := st.rlist.dropLast ++ [{ r with ext := r.ext ++ [⟨addr, len, null_started c addr st, st.block⟩] }]
        null_ctr := null_ctr_after addr len st
        record_scan_state := .DATA_BLOCK_EXT }

def end_of_file (st : FixedScan) : Bool := st.record = f.nr_records - 1

/-! ## Data blocks -/

def block_addr (addr n : Nat) : Nat := if addr ≠ NULL_BLOCK then addr + n else addr

def new_record (addr len : Nat) (st : FixedScan) : Except ScanStop FixedScan := do
  let st ← set_record_len f f.record_len st
  set_record c f addr len st

def record_part : Nat := if f.record_len > c.blksize then c.blksize else f.record_len

def place_records : Nat → Nat → Nat → FixedScan → Except ScanStop FixedScan
  | 0, _, _, st => .ok st
  | steps + 1, addr, left, st =>
    if record_part c f ≤ left then
      if end_of_file f st then .ok st
      else do
        let st ← new_record c f addr (record_part c f) st
        place_records steps (block_addr addr (record_part c f)) (left - record_part c f) st
    else if 0 < left then
      if end_of_file f st then .ok st else new_record c f addr left st
    else .ok st

def first_len (offset : Nat) : Int :=
  if offset % f.record_len ≠ 0 then
    if (f.record_len : Int) - offset ≥ c.blksize then c.blksize
    else (f.record_len % c.blksize : Nat) - (offset % record_part c f : Nat)
  else 0

def walk_fixed_data_block (addr disp : Nat) (st : FixedScan) : Except ScanStop FixedScan :=
  let first := first_len c f (st.block * c.blksize + disp)
  let left := c.blksize - disp
  if first < 0 then .error .negative
  else if first = 0 then place_records c f (left + 1) addr left st
  else if first > left then .error .BUG
  else do
    let st ← set_record_extension c f addr first.toNat st
    place_records c f (left + 1) (block_addr addr first.toNat) (left - first.toNat) st

def FixedScan.done (st : FixedScan) : Prop := st.block ≥ f.nr_blocks ∨ st.record ≥ f.nr_records

instance (st : FixedScan) : Decidable (st.done f) := inferInstanceAs (Decidable (_ ∨ _))

def cache_fixed_data_block (addr disp : Nat) (st : FixedScan) : Except ScanStop FixedScan :=
  if st.done f then .ok st
  else do
    let st ← walk_fixed_data_block c f addr disp st
    pure { st with block := st.block + 1 }

/-! ## The walk over the pointer blocks -/

variable (m : Mem)

def scan_entries (child : Nat → FixedScan → Except ScanStop FixedScan) : Nat → Nat → FixedScan →
    Except ScanStop FixedScan
  | 0, _, st => .ok st
  | left + 1, addr, st =>
    match get_fixed_pointer c m addr with
    | .error .Eio => .ok st
    | .error _ => .error .DIE
    | .ok ptr =>
      if st.done f then .ok st
      else do
        let st ← child ptr st
        scan_entries child left (if addr = 0 then 0 else addr + PTR_SIZE) st

def scan_file : Nat → Nat → FixedScan → Except ScanStop FixedScan
  | 0, addr, st => cache_fixed_data_block c f addr 0 st
  | level + 1, addr, st => scan_entries c f m (scan_file level) c.fixed_ptrs_per_block addr st

/-- The address of the data block number `i` below a pointer block. -/
def leaf : Nat → Nat → Nat → Option Nat
  | 0, addr, _ => some addr
  | level + 1, addr, i =>
    match get_fixed_pointer c m (if addr =
      0 then 0 else addr + PTR_SIZE * (i / c.fixed_ptrs_per_block ^ level)) with
    | .error _ => none
    | .ok ptr => leaf level ptr (i % c.fixed_ptrs_per_block ^ level)

/-! ## The scan after an append -/

variable (data : Nat → Nat)

def scan_blocks : Nat → Nat → Nat → FixedScan → Except ScanStop FixedScan
  | 0, _, _, st => .ok st
  | left + 1, i, skip, st => do
    let st ← cache_fixed_data_block c f (data i + skip) skip st
    scan_blocks left (i + 1) 0 st

/-- `f` is the file with the new numbers of records and blocks, `data` the addresses in its block list. -/
def update_records (st : FixedScan) : Except ScanStop FixedScan :=
  match st.rlist.getLast? with
  | none =>
    scan_blocks c f data f.nr_blocks 0 0 { st with
      block := 0, total := 0, record_scan_state := .DATA_BLOCK_STARTED }
  | some r =>
    let total := if f.linefeed && r.file_start ≠ 0 then r.file_start - 1 else r.file_start
    scan_blocks c f data (f.nr_blocks - r.block_nr) r.block_nr (r.disk_start % c.blksize) { st with
      rlist := st.rlist.dropLast
      block := r.block_nr
      total := total
      record_scan_state := .DATA_BLOCK_STARTED }

/-! ## The records of the file -/

/-- The address of the byte number `x` of the concatenated data blocks. -/
def place (x : Nat) : Nat := if data (x / c.blksize) =
    NULL_BLOCK then NULL_BLOCK else data (x / c.blksize) + x % c.blksize

/-- The pieces of the next `n` bytes from the start of block `b` on. -/
def pieces_from : Nat → Nat → Nat → List RecordExt
  | 0, _, _ => []
  | steps + 1, n, b =>
    if n = 0 then []
    else ⟨data b, min n c.blksize, data b = NULL_BLOCK, b⟩ :: pieces_from steps (n - min n c.blksize) (b + 1)

def first_piece (x : Nat) : Nat := min f.record_len (c.blksize - x % c.blksize)

/-- The record number `i`: the bytes from `i * record_len` on, cut at the ends of the blocks. -/
def fixed_record (i : Nat) : Record :=
  let x := i * f.record_len
  { total_len := f.record_len
    disk_start := place c data x
    first_block_len := first_piece c f x
    file_start := x + if f.linefeed then i else 0
    null_block_started := data (x / c.blksize) = NULL_BLOCK && x % c.blksize = 0
    ext := pieces_from c data f.record_len (f.record_len - first_piece c f x) (x / c.blksize + 1)
    block_nr := x / c.blksize }

def fixed_records : List Record := (List.range f.nr_records).map (fixed_record c f data)

/-- A fixed file on the disk: its blocks hold its records, and the pointer blocks lead to the data blocks. -/
structure FixedFile.OnDisk (level addr : Nat) : Prop where
  blksize : 0 < c.blksize
  ptrs : 0 < c.fixed_ptrs_per_block
  record_len : 1 ≤ f.record_len ∧ f.record_len ≤ 65535
  blocks : ∀ b, b < f.nr_blocks ↔ b * c.blksize < f.nr_records * f.record_len
  root : addr % c.blksize = 0
  aligned : ∀ b < f.nr_blocks, data b % c.blksize = 0
  levels : f.nr_blocks ≤ c.fixed_ptrs_per_block ^ level
  leaves : ∀ b < f.nr_blocks, leaf c m level addr b = some (data b)

def FixedFile.before (n : Nat) : FixedFile :=
  { f with nr_records := n, nr_blocks := (n * f.record_len + c.blksize - 1) / c.blksize }

/-- The full scan gives the records of the file, and so does the scan that starts again after the
first `n` records. -/
def ScansRight (level addr n : Nat) : Prop :=
  (∃ st, scan_file c f m level addr FixedScan.init = .ok st ∧ st.rlist = fixed_records c f data) ∧
    ∀ st, scan_blocks c (f.before c n) data (f.before c n).nr_blocks 0 0 FixedScan.init = .ok st →
      ∃ st', update_records c f data st = .ok st' ∧ st'.rlist = fixed_records c f data

/-- The record that the scan starts again with is not in a null block, or it starts the block and the null
bytes counted up to the end of the old file are whole blocks, or all records from it on are inside the
block. -/
def RestartFits (n : Nat) : Prop :=
  n = 0 ∨ data ((n - 1) * f.record_len / c.blksize) ≠ NULL_BLOCK ∨
    ((n - 1) * f.record_len % c.blksize = 0 ∧
      (data ((n * f.record_len - 1) / c.blksize) ≠ NULL_BLOCK ∨ n * f.record_len % c.blksize = 0)) ∨
    ((n - 1) * f.record_len % c.blksize ≠ 0 ∧ f.record_len ∣ (n - 1) * f.record_len % c.blksize ∧
      (n - 1) * f.record_len % c.blksize + (f.nr_records - (n - 1)) * f.record_len < c.blksize)

end

end Cmsfs
