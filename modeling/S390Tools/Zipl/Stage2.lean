import S390Tools.Lib.Blocks
import S390Tools.Zipl.SegmentTable

/-!
# The stage 2 boot loader (zipl/boot/stage2.c, zipl/boot/fba2.c, zipl/boot/eckd2.c)

The loader builds channel programs that read the blocks of a pointer, and follows
the segment tables with one page that holds the current table. The structures of
zipl/boot/stage2.h have the fields of zipl/include/boot.h in the same order.
-/

namespace Zipl

open Word

def DESCR_PER_BLOCK : Nat := 16
def MAX_BLOCKCT : Nat := 128

inductive Dasd
  | fba
  | eckd
  deriving DecidableEq

/-- What a block of the disk holds: a segment table or a block of a component. -/
inductive BlockData
  | table (t : Table)
  | data (bytes : Nat → UInt8)

abbrev Disk := Addr → Option BlockData

/-- The component entry, the page for tables and the rest of the storage. -/
structure Store where
  descr : StoredPtr
  page : Nat → StoredPtr
  mem : Nat → UInt8

inductive Loc
  | descr
  | slot (k : Nat)

/-- Where a channel program puts a block: at an offset in the page or at an address. -/
inductive Dest
  | page (off : Nat)
  | mem (addr : Nat)

def Dest.add : Dest → Nat → Dest
  | page off, n => page (off + n)
  | mem addr, n => mem (addr + n)

def Store.ptr (m : Store) : Loc → StoredPtr
  | .descr => m.descr
  | .slot k => m.page k

def Store.setPtr (m : Store) (p : StoredPtr) : Loc → Store
  | .descr => { m with descr := p }
  | .slot k => { m with page := Function.update m.page k p }

/-! ## Channel programs -/

inductive Cmd
  | define_extent (blk_size ext_loc ext_end : Nat)
  | locate (blk_ct blk_nr : Nat)
  | read (count : Nat) (cda : Dest)
  | seek (cyl head : Nat)
  | search (cyl head record : Nat)
  | tic
  | read_mt (count : Nat) (cda : Dest)

structure Ccw where
  cmd : Cmd
  cc : Bool

structure Position where
  extent : Option (Nat × Nat) := none
  track : Option (Nat × Nat) := none
  next : Option Addr := none

def transfer (count : Nat) (b : BlockData) (dest : Dest) (m : Store) : Option Store :=
  match b, dest with
  | .table t, .page off =>
    some { m with page := fun k => if off / 16 ≤ k ∧ k < (off + count) / 16 then t (k - off / 16) else m.page k }
  | .data f, .mem addr => some { m with mem := Blocks.write count f addr m.mem }
  | _, _ => none

def read_next (disk : Disk) (count : Nat) (cda : Dest) (pos : Position) (m : Store) : Option (Addr × Store) :=
  match pos.next with
  | none => none
  | some a => ((disk a).bind fun b => transfer count b cda m).map fun m' => (a, m')

def Cmd.exec (disk : Disk) (pos : Position) (m : Store) : Cmd → Option (Position × Store × Bool)
  | define_extent _ ext_loc ext_end => some ({ pos with extent := some (ext_loc, ext_end) }, m, false)
  | locate _ blk_nr =>
    match pos.extent with
    | some (ext_loc, ext_end) =>
      if blk_nr ≤ ext_end then some ({ pos with next := some (.linear (ext_loc + blk_nr)) }, m, false) else none
    | none => none
  | read count cda => (read_next disk count cda pos m).map fun r => ({ pos with next := none }, r.2, false)
  | seek cyl head => some ({ pos with track := some (cyl, head) }, m, false)
  | search cyl head record =>
    if pos.track = some (cyl, head) then some ({ pos with next := some (.eckd cyl head record) }, m, true) else none
  | tic => some (pos, m, false)
  -- a pointer does not run past the end of its track
  | read_mt count cda =>
    (read_next disk count cda pos m).map fun r => ({ pos with next := some (r.1.add 1) }, r.2, false)

/-- `start_io`: the program runs until a command without chaining. -/
@[grind =] def start_io (disk : Disk) : List Ccw → Bool → Position → Store → Option Store
  | [], _, _, _ => none
  | _ :: ccws, true, pos, m => start_io disk ccws false pos m
  | ccw :: ccws, false, pos, m =>
    match ccw.cmd.exec disk pos m with
    | none => none
    | some (pos', m', skip) => if ccw.cc then start_io disk ccws skip pos' m' else some m'

/-! ## Pointers -/

def StoredPtr.size : StoredPtr → Nat
  | linear _ size _ => size
  | eckd _ _ _ size _ => size

def extract_length (p : StoredPtr) : Nat :=
  p.size * (p.blockct + 1)

def is_zero_block : StoredPtr → Bool
  | .linear blockno _ _ => u32 blockno ≠ 0
  | .eckd cyl head sec _ _ => cyl ≠ 0 ∨ head ≠ 0 ∨ sec ≠ 0

/-! ## FBA -/

/-- The LOCATE and READ commands of one program, with `record_number` more blocks behind the next one. -/
def fba_reads (record_size : Nat) : Nat → Nat → Dest → List Ccw
  | 0, lo_counter, load_addr => [⟨.locate 1 lo_counter, true⟩, ⟨.read record_size load_addr, false⟩]
  | record_number + 1, lo_counter, load_addr =>
    ⟨.locate 1 lo_counter, true⟩ :: ⟨.read record_size load_addr, true⟩ ::
      fba_reads record_size record_number (lo_counter + 1) (load_addr.add record_size)

def fba_ccws (size blockno record_number : Nat) (load_addr : Dest) : List Ccw :=
  ⟨.define_extent size (u32 blockno) record_number, true⟩ :: fba_reads size record_number 0 load_addr

def load_direct_fba (disk : Disk) (loc : Loc) : Nat → Dest → Store → Option (Store × Dest)
  | 0, _, _ => none
  | batches + 1, load_addr, m =>
    match m.ptr loc with
    | .eckd .. => none
    | .linear blockno size blockct =>
      let record_number := if blockct ≥ MAX_BLOCKCT then MAX_BLOCKCT - 1 else blockct
      let blockct' := if blockct ≥ MAX_BLOCKCT then blockct - MAX_BLOCKCT else blockct - record_number
      let m := m.setPtr (.linear (u64 (blockno + (record_number + 1) : Nat)) size blockct') loc
      match start_io disk (fba_ccws size blockno record_number load_addr) false {} m with
      | none => none
      | some m =>
        let load_addr := load_addr.add ((record_number + 1) * size)
        if (m.ptr loc).blockct > 0 then load_direct_fba disk loc batches load_addr m else some (m, load_addr)

/-! ## ECKD -/

def eckd_reads (record_size : Nat) : Nat → Dest → List Ccw
  | 0, load_addr => [⟨.read_mt record_size load_addr, false⟩]
  | record_number + 1, load_addr =>
    ⟨.read_mt record_size load_addr, true⟩ :: eckd_reads record_size record_number (load_addr.add record_size)

def eckd_ccws (cyl head sec size blockct : Nat) (load_addr : Dest) : List Ccw :=
  ⟨.seek cyl head, true⟩ :: ⟨.search cyl head sec, true⟩ :: ⟨.tic, false⟩ :: eckd_reads size blockct load_addr

def load_direct_eckd (disk : Disk) (loc : Loc) (load_addr : Dest) (m : Store) : Option (Store × Dest) :=
  match m.ptr loc with
  | .linear .. => none
  | .eckd cyl head sec size blockct =>
    (start_io disk (eckd_ccws cyl head sec size blockct load_addr) false {} m).map fun m =>
      (m, load_addr.add ((blockct + 1) * size))

/-! ## Block lists -/

section
variable (dasd : Dasd) (disk : Disk) (batches : Nat)

def load_direct (loc : Loc) (load_addr : Dest) (m : Store) : Option (Store × Dest) :=
  match dasd with
  | .fba => load_direct_fba disk loc batches load_addr m
  | .eckd => load_direct_eckd disk loc load_addr m

/-- Load what the pointer in the slot `k` stands for. -/
def load_slot (k load_address : Nat) (m : Store) : Option (Store × Nat) :=
  if !is_zero_block (m.page k) then
    let length := extract_length (m.page k)
    some ({ m with mem := Blocks.write length (fun _ => 0) load_address m.mem }, load_address + length)
  else
    match load_direct dasd disk batches (.slot k) (.mem load_address) m with
    | some (m, .mem load_address) => some (m, load_address)
    | _ => none

def load_table : Nat → Nat → Nat → Store → Option (Store × Nat × Option Nat)
  | 0, k, load_address, m => some (m, load_address, some k)
  | nr_descr + 1, k, load_address, m =>
    if is_null_descriptor (m.page k) then some (m, load_address, none)
    else
      match load_slot dasd disk batches k load_address m with
      | none => none
      | some (m, load_address) => load_table nr_descr (k + 1) load_address m

def load_tables : Nat → Loc → Nat → Store → Option (Store × Nat)
  | 0, _, _, _ => none
  | tables + 1, start_addr, load_address, m =>
    let nr_descr := extract_length (m.ptr start_addr) / DESCR_PER_BLOCK - 1
    match load_direct dasd disk batches start_addr (.page 0) m with
    | none => none
    | some (m, _) =>
      match load_table dasd disk batches nr_descr 0 load_address m with
      | none => none
      | some (m, load_address, none) => some (m, load_address)
      | some (m, load_address, some k) =>
        if is_null_descriptor (m.page k) then some (m, load_address)
          else load_tables tables (.slot k) load_address m

def load_blocklist (tables load_address : Nat) (m : Store) : Option (Store × Nat) :=
  load_tables dasd disk batches tables .descr load_address { m with page := fun _ => .linear 0 0 0 }

end

end Zipl
