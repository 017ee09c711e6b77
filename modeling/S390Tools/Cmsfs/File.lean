import S390Tools.Lib.FanOut
import S390Tools.Cmsfs.Disk

/-!
# Files and their pointer blocks

The data blocks of a file with more than one block hang below a tree of pointer
blocks. A fixed file has pointers of one word, a variable file has pointers that
also carry the highest record number and the displacement, and the offset of the
last pointer at the end of the block.
-/

namespace Cmsfs

open FanOut

def NULL_BLOCK : Nat := 0
def VAR_FILE_END : Nat := 1

inductive RecordFormat
  | fixed | var
  deriving DecidableEq

structure Block where
  disk_addr : Nat
  disp : Nat
  hi_record_nr : Nat
  deriving DecidableEq, Inhabited

structure RecordExt where
  disk_start : Nat
  len : Nat
  null_block_started : Bool
  block_nr : Nat
  deriving DecidableEq, Inhabited

structure Record where
  total_len : Nat
  disk_start : Nat
  first_block_len : Nat
  file_start : Nat
  null_block_started : Bool
  ext : List RecordExt
  block_nr : Nat
  deriving DecidableEq, Inhabited

/-- The part of a file object, with the entry `fst` of its file, that pointer blocks depend on. -/
structure File where
  record_format : RecordFormat
  fop : Nat
  levels : Nat
  nr_blocks : Nat
  nr_records : Nat
  blist : List Block
  rlist : List Record

structure VarPtr where
  next : Nat
  hi_record_nr : Nat
  disp : Nat
  deriving DecidableEq

section
variable (c : Device) (f : File)

def File.ptr_per_block : Nat :=
  match f.record_format with
  | .fixed => c.fixed_ptrs_per_block
  | .var => c.var_ptrs_per_block

def update_levels : File := { f with levels := levels (f.ptr_per_block c) f.nr_blocks }

/-! ## Writing pointer blocks -/

structure PtrLayout where
  ptr_per_block : Nat
  /-- words of a pointer -/
  width : Nat
  nr_blocks : Nat
  leaf : Nat → Nat
  /-- the pointer at an entry of a level -/
  ptr : Nat → Nat → Nat → List Nat
  /-- whether the offset of the last pointer is stored -/
  back : Bool

/-- A block pointer to `addr`, null for a null block. -/
def block_ptr (addr : Nat) : Nat := if addr = 0 then 0 else c.REL addr

def store_back_pointer (dst entries : Nat) (d : Disk) : Except Fail Disk :=
  writeWords c d ((dst / c.blksize + 1) * c.blksize - PTR_SIZE) [(entries - 1) * VPTR_SIZE]

variable (L : PtrLayout) (alloc : Disk → Except Fail (Nat × Disk))

def entry_block (level i : Nat) (d : Disk) : Except Fail (Nat × Disk) :=
  if level = 0 then .ok (L.leaf i, d) else alloc d

/-- Store the pointer number `i` of a block at `level + 1` and rewrite what it points to. -/
def rewrite_entry (child : Nat → Nat → Disk → Except Fail Disk) (level i dst : Nat) (d : Disk) :
    Except Fail Disk := do
  let (addr, d) ← entry_block L alloc level i d
  let d ← writeWords c d dst (L.ptr (level + 1) i (block_ptr c addr))
  child addr (i * L.ptr_per_block) d

def rewrite_entries (child : Nat → Nat → Disk → Except Fail Disk) (level : Nat) :
    (left i dst : Nat) → Disk → Except Fail Disk
  | 0, _, _, d => .ok d
  | left + 1, i, dst, d => do
    let d ← rewrite_entry c L alloc child level i dst d
    rewrite_entries child level left (i + 1) (dst + 4 * L.width) d

def rewrite_pointer_block : (level dst start : Nat) → Disk → Except Fail Disk
  | 0, _, _, d => .ok d
  | level + 1, dst, start, d => do
    let stop := min (start + L.ptr_per_block) (perLevel L.ptr_per_block level L.nr_blocks)
    if start > stop then .error .BUG
    else
      let d ← rewrite_entries c L alloc (rewrite_pointer_block level) level (stop - start) start dst d
      if L.back then store_back_pointer c (dst + 4 * L.width * (stop - start)) (stop - start) d else .ok d

def get_first_block_nr (level entry : Nat) : Nat := entry * c.var_ptrs_per_block ^ (level - 1)

def get_last_block_nr (level entry nr_blocks : Nat) : Nat :=
  min (entry * c.var_ptrs_per_block ^ (level - 1) - 1) (nr_blocks - 1)

def File.block (i : Nat) : Block := f.blist.getD i default

def File.layout : PtrLayout :=
  match f.record_format with
  | .fixed =>
    { ptr_per_block := c.fixed_ptrs_per_block, width := 1, nr_blocks := f.nr_blocks
      leaf := fun i => (f.block i).disk_addr
      ptr := fun _ _ next => [next], back := false }
  | .var =>
    { ptr_per_block := c.var_ptrs_per_block, width := 3, nr_blocks := f.nr_blocks
      leaf := fun i => (f.block i).disk_addr
      ptr := fun level i next =>
        [next, (f.block (get_last_block_nr c level (i + 1) f.nr_blocks)).hi_record_nr,
         (f.block (get_first_block_nr c level i)).disp]
      back := true }

def write_pointers (level dst start : Nat) (d : Disk) : Except Fail Disk :=
  rewrite_pointer_block c (f.layout c) (get_reserved_block c) level dst start d

def rewrite_pointers (d : Disk) : Except Fail (File × Disk) :=
  if f.nr_blocks = 0 then .ok ({ f with fop := 0 }, d)
  else if f.nr_blocks = 1 then
    match f.rlist with
    | [] => .error .BUG
    | rec :: _ => .ok ({ f with fop := block_ptr c rec.disk_start }, d)
  else do
    let (dst, d) ← get_reserved_block c d
    let d ← write_pointers c f f.levels dst 0 d
    pure ({ f with fop := c.REL dst }, d)

/-! ## Reading pointer blocks -/

/-- A walk ends the program, or it gives a result with the error code that its caller sees. -/
abbrev Walk (σ : Type) := Except Fail (σ × Option Fail)

def get_fixed_pointer (m : Mem) (addr : Nat) : Except Fail Nat :=
  if addr = 0 then .ok NULL_BLOCK
  else do
    let ptr ← readWords c m addr 1
    let next := ptr.getD 0 0
    .ok (if next = 0 then NULL_BLOCK else c.ABS next)

def readVarPtr (m : Mem) (addr : Nat) : Except Fail VarPtr := do
  let vptr ← readWords c m addr 3
  pure { next := vptr.getD 0 0, hi_record_nr := vptr.getD 1 0, disp := vptr.getD 2 0 }

def get_var_pointer (m : Mem) (addr : Nat) : Except Fail (Nat × Nat) :=
  if addr = 0 then .error .BUG
  else do
    let vptr ← readVarPtr c m addr
    let ptr :=
      if vptr.next = 0 then if vptr.hi_record_nr ≠ 0 then NULL_BLOCK else VAR_FILE_END
      else c.ABS vptr.next
    pure (ptr, vptr.disp)

/-- The block list that is read and the number of the last record seen. -/
structure Cache where
  blist : List Block
  record : Int

/-- `*block >= nr_blocks || *record >= nr_records`. -/
def Cache.done (s : Cache) : Prop := f.nr_blocks ≤ s.blist.length ∨ (f.nr_records : Int) ≤ s.record

instance (s : Cache) : Decidable (s.done f) := inferInstanceAs (Decidable (_ ∨ _))

/-- The scan of a data block for records: from block number, address, displacement and last record to
the last record in the block. -/
abbrev Scan := Nat → Nat → Nat → Int → Int

variable (scan : Scan)

def cache_data_block (addr disp : Nat) (s : Cache) : Cache :=
  if s.done f then s
  else
    let record := scan s.blist.length addr disp s.record
    { blist := s.blist ++ [{ disk_addr := addr / c.blksize * c.blksize, disp, hi_record_nr := (record + 1).toNat }]
      record }

def cache_entries_fixed (m : Mem) (child : Nat → Cache → Walk Cache) : (left addr : Nat) → Cache → Walk Cache
  | 0, _, s => .ok (s, none)
  | left + 1, addr, s =>
    match get_fixed_pointer c m addr with
    | .error .Eio => .ok (s, some .Eio)
    | .error e => .error e
    | .ok ptr =>
      if s.done f then .ok (s, none)
      else
        match child ptr s with
        | .error e => .error e
        | .ok (s, _) => cache_entries_fixed m child left (if addr = 0 then 0 else addr + PTR_SIZE) s

def cache_file_fixed (m : Mem) : (level addr : Nat) → Cache → Walk Cache
  | 0, addr, s => .ok (cache_data_block c f scan addr 0 s, none)
  | level + 1, addr, s => cache_entries_fixed c f m (cache_file_fixed m level) (f.ptr_per_block c) addr s

def cache_entries_variable (m : Mem) (child : Nat → Nat → Cache → Walk Cache) :
    (left addr : Nat) → Cache → Walk Cache
  | 0, _, s => .ok (s, none)
  | left + 1, addr, s =>
    match get_var_pointer c m addr with
    | .error .Eio => .ok (s, some .Eio)
    | .error e => .error e
    | .ok (ptr, disp) =>
      if ptr = VAR_FILE_END then .ok (s, none)
      else
        match child ptr disp s with
        | .error e => .error e
        | .ok (s, _) => cache_entries_variable m child left (addr + VPTR_SIZE) s

def cache_file_variable (m : Mem) : (level addr disp : Nat) → Cache → Walk Cache
  | 0, addr, disp, s => .ok (cache_data_block c f scan addr disp s, none)
  | level + 1, addr, _, s => cache_entries_variable c m (cache_file_variable m level) (f.ptr_per_block c) addr s

def cache_file (m : Mem) : Walk Cache :=
  match f.record_format with
  | .fixed => cache_file_fixed c f scan m f.levels (c.ABS f.fop) { blist := [], record := -1 }
  | .var => cache_file_variable c f scan m f.levels (c.ABS f.fop) 0 { blist := [], record := -1 }

def locate_last_data_vptr (m : Mem) : (level addr : Nat) → VarPtr → Except Fail VarPtr
  | 0, _, vptr => .ok vptr
  | level + 1, addr, _ => do
    let last ← readWords c m (addr + c.blksize - PTR_SIZE) 1
    let last := last.getD 0 0
    if last % VPTR_SIZE ≠ 0 ∨ c.blksize < last then .error .Eio
    else
      let vptr ← readVarPtr c m (addr + last)
      if vptr.hi_record_nr ≠ f.nr_records then .error .Eio
      else if level = 0 ∨ vptr.next = NULL_BLOCK then .ok vptr
      else locate_last_data_vptr m level (c.ABS vptr.next) vptr

end

end Cmsfs
