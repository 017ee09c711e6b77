import S390Tools.Lib.Stdio
import S390Tools.Lib.Word

/-!
# LKCD dumps (zdump/dfi_lkcd.c)

Behind the header of the dump stands one record for each stored page, and an end
marker. `mem_init_flex` reads the headers of all records once; it adds the memory
chunks and keeps the position of the first record of each 64 KiB.
-/

namespace Zdump.Lkcd

open Stdio Word

def PAGE_SIZE : Nat := 4096
def DF_LKCD_HDR_SIZE : Nat := 65536
def PG_HDR_SIZE : Nat := 16
def DF_LKCD_UCP_SIZE : Nat := PAGE_SIZE + PG_HDR_SIZE
def DF_LKCD_DH_RAW : Nat := 1
def DF_LKCD_DH_COMPRESSED : Nat := 2
def DF_LKCD_DH_END : Nat := 4
def MEM_HOLE_SIZE_MIN : Nat := 1024 * 1024
def IDX_KIB : Nat := 64
def U64_MAX : Nat := 18446744073709551615

def IDX_TO_ADDR (idx : Nat) : Nat := u64 (idx * IDX_KIB * 1024)
def ADDR_TO_IDX (addr : Nat) : Nat := addr / (1024 * IDX_KIB)

/-- `struct df_lkcd_pg_hdr`. -/
structure PgHdr where
  addr : Nat
  size : Nat
  flags : Nat
  deriving DecidableEq

def pg_hdr (d : Bytes) : PgHdr := ⟨unbe (d.take 8), unbe ((d.drop 8).take 4), unbe ((d.drop 12).take 4)⟩

inductive Fault
  | incomplete
  | index_bounds
  | index_broken
  | end_of_file
  | page_size
  | page_flags
  | endless
  deriving DecidableEq

/-- `pg_hdr_idx`, an array of `size` entries. -/
structure PageIndex where
  size : Nat
  entry : Nat → Nat

/-- The dump file and `page_last`; `reach` is where the last of all bytes read so far ends. -/
structure State where
  file : File
  page_last : Nat
  reach : Nat

def zg_read (cnt : Nat) (s : State) : Except Fault (Bytes × State) :=
  match s.file.read cnt with
  | (none, _) => .error .end_of_file
  | (some d, f) => .ok (d, { s with file := f, reach := max s.reach f.pos })

def zg_seek (off : Nat) (s : State) : State := { s with file := s.file.seek off }

def zg_seek_cur (off : Nat) (s : State) : State := { s with file := s.file.seekBy off }

section
variable (uncompress : Bytes → Bytes)

def read_page_buf (h : PgHdr) (buf : Bytes) (s : State) : Except Fault (Bytes × State) :=
  if h.flags = DF_LKCD_DH_RAW then
    match zg_read h.size s with
    | .error e => .error e
    | .ok (d, s) => .ok (d ++ buf.drop d.length, s)
  else if h.flags = DF_LKCD_DH_COMPRESSED then
    match zg_read h.size s with
    | .error e => .error e
    | .ok (cbuf, s) => if (uncompress cbuf).length ≠ PAGE_SIZE then .error .page_size else .ok (uncompress cbuf, s)
  else .error .page_flags

def read_next_page (addr : Nat) (buf : Bytes) (s : State) : Except Fault (Bool × Bytes × State) :=
  match zg_read PG_HDR_SIZE s with
  | .error e => .error e
  | .ok (d, s) =>
    let h := pg_hdr d
    let s := { s with page_last := h.addr / PAGE_SIZE }
    if h.addr = addr then
      match read_page_buf uncompress h buf s with
      | .error e => .error e
      | .ok (buf, s) => .ok (true, buf, s)
    else if h.addr > addr then .ok (true, List.replicate PAGE_SIZE 0, zg_seek_cur h.size s)
    else .ok (false, buf, zg_seek_cur h.size s)

def find_page (addr : Nat) : Nat → Bytes → State → Except Fault (Bytes × State)
  | 0, _, _ => .error .endless
  | steps + 1, buf, s =>
    match read_next_page uncompress addr buf s with
    | .error e => .error e
    | .ok (true, buf, s) => .ok (buf, s)
    | .ok (false, buf, s) => find_page addr steps buf s

def read_page_flex (pg_hdr_idx : PageIndex) (pg_num : Nat) (buf : Bytes) (s : State) :
    Except Fault (Bytes × State) :=
  let addr := u64 (pg_num * PAGE_SIZE)
  if pg_hdr_idx.size ≤ ADDR_TO_IDX addr then .error .index_bounds
  else if pg_hdr_idx.entry (ADDR_TO_IDX addr) = 0 then .error .index_broken
  else if s.page_last = u64 ((pg_num : Int) - 1) then
    match read_next_page uncompress addr buf s with
    | .error e => .error e
    | .ok (_, buf, s) => .ok (buf, s)
  else find_page uncompress addr (s.file.content.length + 1) buf (zg_seek (pg_hdr_idx.entry (ADDR_TO_IDX addr)) s)

def read_page_full (pg_num : Nat) (s : State) : Except Fault (Bytes × State) :=
  zg_read PAGE_SIZE (zg_seek (DF_LKCD_HDR_SIZE + pg_num * DF_LKCD_UCP_SIZE + PG_HDR_SIZE) s)

/-- The loop of `dfi_lkcd_mem_chunk_read_fn`, with `left` bytes from `addr` on to copy. -/
def copy_pages (pg_hdr_idx : PageIndex) : Nat → Nat → Nat → Bytes → State → Except Fault (Bytes × State)
  | 0, _, _, _, _ => .error .endless
  | steps + 1, addr, left, buf, s =>
    if left = 0 then .ok ([], s)
    else
      let size := min left (PAGE_SIZE - addr % PAGE_SIZE)
      match read_page_flex uncompress pg_hdr_idx (addr / PAGE_SIZE) buf s with
      | .error e => .error e
      | .ok (buf, s) =>
        match copy_pages pg_hdr_idx steps (addr + size) (left - size) buf s with
        | .error e => .error e
        | .ok (rest, s) => .ok ((buf.drop (addr % PAGE_SIZE)).take size ++ rest, s)

end

/-! ## Memory chunks -/

structure MemChunk where
  start : Nat
  size : Nat
  deriving DecidableEq

/-- `dfi_lkcd_mem_chunk_read_fn` for a flexible dump; `pg_buf` is what stands in the page buffer at first. -/
def dfi_lkcd_mem_chunk_read_fn (uncompress : Bytes → Bytes) (pg_hdr_idx : PageIndex) (pg_buf : Bytes) (c : MemChunk)
    (off cnt : Nat) (s : State) : Except Fault (Bytes × State) :=
  copy_pages uncompress pg_hdr_idx (cnt + 1) (u64 (off + c.start)) cnt pg_buf s

def dump_end (addr : Nat) (h : PgHdr) : Bool :=
  addr = h.addr || (h.addr = 0 && h.size = 4 && h.flags = 0) || h.flags = DF_LKCD_DH_END

/-- The local variables of `mem_init_flex`, the chunks added and the page index. -/
structure Scan where
  addr : Nat
  idx : Nat
  mem_chunk_start : Nat
  chunks : List MemChunk
  pg_hdr_idx : Nat → Nat

/-- The record is the first one behind the part of the memory that has its index entries. -/
def Scan.Entry (sc : Scan) (h : PgHdr) : Prop := h.addr ≥ IDX_TO_ADDR sc.idx

instance (sc : Scan) (h : PgHdr) : Decidable (sc.Entry h) := inferInstanceAs (Decidable (_ ≥ _))

def Scan.record (pos : Nat) (h : PgHdr) (sc : Scan) : Scan :=
  let hole := u64 ((h.addr : Int) - sc.addr) > MEM_HOLE_SIZE_MIN
  { addr := h.addr
    idx := if sc.Entry h then ADDR_TO_IDX h.addr + 1 else sc.idx
    mem_chunk_start := if hole then h.addr else sc.mem_chunk_start
    chunks :=
      if hole then sc.chunks ++ [⟨sc.mem_chunk_start, u64 ((sc.addr : Int) + PAGE_SIZE - sc.mem_chunk_start)⟩]
      else sc.chunks
    pg_hdr_idx := if sc.Entry h then Function.update sc.pg_hdr_idx (ADDR_TO_IDX h.addr) pos else sc.pg_hdr_idx }

def scan_records (size : Nat) : Nat → File → Scan → Except Fault (Scan × File)
  | 0, _, _ => .error .endless
  | steps + 1, f, sc =>
    match f.read PG_HDR_SIZE with
    | (none, _) => .error .incomplete
    | (some d, f') =>
      if dump_end sc.addr (pg_hdr d) then .ok (sc, f')
      else if sc.Entry (pg_hdr d) ∧ size ≤ ADDR_TO_IDX (pg_hdr d).addr then .error .index_bounds
      else scan_records size steps (f'.seekBy (pg_hdr d).size) (sc.record (f'.pos - PG_HDR_SIZE) (pg_hdr d))

def last_chunk (mem_end : Nat) (sc : Scan) : List MemChunk :=
  if sc.addr ≠ sc.mem_chunk_start then [⟨sc.mem_chunk_start, u64 ((mem_end : Int) - sc.mem_chunk_start)⟩] else []

/-- The entries of the index; `zg_alloc` takes the size as an `unsigned int`. -/
def idx_size (mem_end : Nat) : Nat := u32 (8 * (ADDR_TO_IDX mem_end + 1)) / 8

def mem_init_flex (mem_end : Nat) (content : Bytes) : Except Fault (List MemChunk × PageIndex × File) :=
  match scan_records (idx_size mem_end) (content.length + 1) ⟨content, DF_LKCD_HDR_SIZE⟩ ⟨U64_MAX,
    0, 0, [], fun _ => 0⟩ with
  | .error e => .error e
  | .ok (sc, f) => .ok (sc.chunks ++ last_chunk mem_end sc, ⟨idx_size mem_end, sc.pg_hdr_idx⟩, f)

end Zdump.Lkcd
