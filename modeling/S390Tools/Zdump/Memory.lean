import S390Tools.Lib.Run
import S390Tools.Lib.BubbleSort
import S390Tools.Zdump.Output

/-!
# The memory map of the source dump

The input format adds every chunk to the physical and to the virtual memory, with
the same data. Requests unmap and map parts of the virtual memory; a chunk that
is hit is replaced by mappings of what remains of it and then freed. Every
allocation has a number, and what was freed is recorded.
-/

namespace Zdump.Memory

open Word

def MIB : Nat := 1048576

/-- An allocation: a chunk, data of the input format, the data of a mapping. -/
inductive Ptr
  | chunk (n : Nat)
  | ext (n : Nat)
  | own (n : Nat)
  deriving DecidableEq

/-- The read function of the input format, or `mem_chunk_map_read_fn` with the physical start it
finds in the data. -/
inductive ReadFn
  | fmt (read : Nat → UInt8)
  | map (start : Nat)

structure Chunk where
  num : Nat
  start : Nat
  stop : Nat
  size : Nat
  data : Option Ptr
  read_fn : ReadFn
  free_fn : Bool

/-- The cache is a pointer: it may be left to a chunk that was freed. -/
structure Mem where
  start_addr : Nat
  end_addr : Nat
  chunk_list : List Chunk
  chunk_cache : Option Nat
  chunk_cnt : Nat

def mem_init : Mem :=
  { start_addr := U64_MAX, end_addr := 0, chunk_list := [], chunk_cache := none, chunk_cnt := 0 }

structure State where
  mem_phys : Mem
  mem_virt : Mem
  next : Nat
  freed : List Ptr

def State.init : State := { mem_phys := mem_init, mem_virt := mem_init, next := 0, freed := [] }

inductive Fault
  | use_after_free
  | null_chunk
  | already_mapped
  | endless
  | content_none
  deriving DecidableEq

/-! ## Adding chunks -/

def chunk_create (num start size : Nat) (data : Option Ptr) (read_fn : ReadFn) (free_fn : Bool) : Chunk :=
  { num, start, stop := u64 ((start : Int) + size - 1), size, data, read_fn, free_fn }

def mem_add_chunk (c : Chunk) (m : Mem) : Mem :=
  { start_addr := min m.start_addr c.start
    end_addr := max m.end_addr c.stop
    chunk_list := m.chunk_list ++ [c]
    chunk_cache := some c.num
    chunk_cnt := m.chunk_cnt + 1 }

def dfi_mem_chunk_virt_add (start size : Nat) (data : Option Ptr) (read_fn : ReadFn)
    (free_fn : Bool) (s : State) : State :=
  { s with
    mem_virt := mem_add_chunk (chunk_create s.next start size data read_fn free_fn) s.mem_virt, next := s.next + 1 }

def mem_chunk_phys_add (start size : Nat) (data : Option Ptr) (read_fn : ReadFn) (free_fn : Bool)
    (s : State) : State :=
  { s with
    mem_phys := mem_add_chunk (chunk_create s.next start size data read_fn free_fn) s.mem_phys, next := s.next + 1 }

def dfi_mem_chunk_add (start size : Nat) (data : Option Ptr) (read_fn : ReadFn) (free_fn : Bool)
    (s : State) : State :=
  dfi_mem_chunk_virt_add start size data read_fn free_fn (mem_chunk_phys_add start size data read_fn free_fn s)

def mem_chunk_map_add (start size start_p : Nat) (s : State) : State :=
  dfi_mem_chunk_virt_add start size (some (.own s.next)) (.map start_p) true s

/-! ## Looking up and reading -/

def mem_chunk_has_addr (c : Chunk) (addr : Nat) : Prop := addr ≥ c.start ∧ addr ≤ c.stop

instance (c : Chunk) (addr : Nat) : Decidable (mem_chunk_has_addr c addr) := inferInstanceAs (Decidable (_ ∧ _))

def cached (freed : List Ptr) (m : Mem) : Except Fault Chunk :=
  match m.chunk_cache with
  | none => .error .null_chunk
  | some n =>
    if .chunk n ∈ freed then .error .use_after_free
    else
      match m.chunk_list.find? fun c => c.num = n with
      | none => .error .null_chunk
      | some c => .ok c

def mem_chunk_find (freed : List Ptr) (addr : Nat) (m : Mem) : Except Fault (Option Chunk × Mem) :=
  match cached freed m with
  | .error e => .error e
  | .ok c =>
    if mem_chunk_has_addr c addr then .ok (some c, m)
    else
      match m.chunk_list.find? fun c => mem_chunk_has_addr c addr with
      | none => .ok (none, m)
      | some c => .ok (some c, { m with chunk_cache := some c.num })

def fmt_read (freed : List Ptr) (c : Chunk) (read : Nat → UInt8) (off cnt : Nat) : Except Fault (List UInt8) :=
  if c.data.any fun p => p ∈ freed then .error .use_after_free
  else .ok ((List.range cnt).map fun i => read (off + i))

/-- The loop of `mem_read` on the physical memory, `left` bytes to go; there are no mappings in it. -/
def phys_read_loop (freed : List Ptr) : (fuel left addr : Nat) → Mem → Except Fault (List UInt8 × Mem)
  | 0, _, _, m => .ok ([], m)
  | fuel + 1, left, addr, m =>
    if left = 0 then .ok ([], m)
    else
      match mem_chunk_find freed addr m with
      | .error e => .error e
      | .ok (none, _) => .error .null_chunk
      | .ok (some c, m) =>
        let size := min left (u64 ((c.stop : Int) - addr + 1))
        match c.read_fn with
        | .map _ => .error .null_chunk
        | .fmt read =>
          match fmt_read freed c read (addr - c.start) size, phys_read_loop freed fuel (left - size)
            (u64 (addr + size : Nat)) m with
          | .error e, _ => .error e
          | _, .error e => .error e
          | .ok b, .ok (bs, m) => .ok (b ++ bs, m)

def dfi_mem_phys_read (addr cnt : Nat) (s : State) : Except Fault (List UInt8 × State) :=
  match phys_read_loop s.freed cnt cnt addr s.mem_phys with
  | .error e => .error e
  | .ok (b, m) => .ok (b, { s with mem_phys := m })

def chunk_read (c : Chunk) (off cnt : Nat) (s : State) : Except Fault (List UInt8 × State) :=
  match c.read_fn with
  | .fmt read =>
    match fmt_read s.freed c read off cnt with
    | .error e => .error e
    | .ok b => .ok (b, s)
  | .map start =>
    if c.data.any fun p => p ∈ s.freed then .error .use_after_free
    else dfi_mem_phys_read (u64 (start + off : Nat)) cnt s

def virt_read_loop : (fuel left addr : Nat) → State → Except Fault (List UInt8 × State)
  | 0, _, _, s => .ok ([], s)
  | fuel + 1, left, addr, s =>
    if left = 0 then .ok ([], s)
    else
      match mem_chunk_find s.freed addr s.mem_virt with
      | .error e => .error e
      | .ok (none, _) => .error .null_chunk
      | .ok (some c, m) =>
        let size := min left (u64 ((c.stop : Int) - addr + 1))
        match chunk_read c (addr - c.start) size { s with mem_virt := m } with
        | .error e => .error e
        | .ok (b, s) =>
          match virt_read_loop fuel (left - size) (u64 (addr + size : Nat)) s with
          | .error e => .error e
          | .ok (bs, s) => .ok (b ++ bs, s)

def dfi_mem_read (addr cnt : Nat) (s : State) : Except Fault (List UInt8 × State) := virt_read_loop cnt cnt addr s

def dfi_mem_chunk_find (addr : Nat) (s : State) : Except Fault (Option Chunk × State) :=
  match mem_chunk_find s.freed addr s.mem_virt with
  | .error e => .error e
  | .ok (c, m) => .ok (c, { s with mem_virt := m })

def range_valid_loop (len addr_end : Nat) : (fuel addr : Nat) → State → Except Fault (Bool × State)
  | 0, _, _ => .error .endless
  | fuel + 1, addr, s =>
    match dfi_mem_chunk_find addr s with
    | .error e => .error e
    | .ok (none, s) => .ok (false, s)
    | .ok (some c, s) =>
      let addr := u64 (addr + min len (u64 ((c.stop : Int) - addr + 1)) : Nat)
      if addr < addr_end then range_valid_loop len addr_end fuel addr s else .ok (true, s)

def dfi_mem_range_valid (addr len : Nat) (s : State) : Except Fault (Bool × State) :=
  range_valid_loop len (u64 (addr + len : Nat)) (2 * U64_MAX + 2) addr s

/-! ## Unmapping and mapping -/

def mem_chunk_start_phys (c : Chunk) : Nat :=
  match c.read_fn with
  | .map start => start
  | .fmt _ => c.start

def chunk_free (c : Chunk) (s : State) : State :=
  { s with
    mem_virt := { s.mem_virt with
      chunk_list := s.mem_virt.chunk_list.filter fun b => b.num ≠ c.num
      chunk_cnt := s.mem_virt.chunk_cnt - 1 }
    freed := .chunk c.num :: ((if c.free_fn then c.data.toList else []) ++ s.freed) }

def unmap_chunk (start size : Nat) (c : Chunk) (s : State) : State :=
  let stop := u64 ((start : Int) + size - 1)
  if c.start ≥ u64 (start + size : Nat) then s
  else if c.stop < start then s
  else if c.start ≥ start ∧ c.stop ≤ stop then chunk_free c s
  else
    let start_phys := mem_chunk_start_phys c
    let end_phys := u64 ((start_phys : Int) + c.size - 1)
    let size_virt := u64 ((c.stop : Int) - stop)
    let s := if c.stop > stop then
      mem_chunk_map_add (u64 (stop + 1 : Nat)) size_virt (u64 ((end_phys : Int) - size_virt + 1)) s else s
    let s := if c.start < start then mem_chunk_map_add c.start (u64 ((start : Int) - c.start)) start_phys s else s
    chunk_free c s

def util_list_next (c : Chunk) : List Chunk → Option Chunk
  | [] => none
  | b :: bs => if b.num = c.num then bs.head? else util_list_next c bs

/-- `util_list_iterate_safe`: the next chunk is fetched before the round, so that it sees chunks added earlier. -/
def unmap_loop (start size : Nat) : (fuel : Nat) → Option Chunk → State → State
  | 0, _, s => s
  | _, none, s => s
  | fuel + 1, some c, s =>
    unmap_loop start size fuel (util_list_next c s.mem_virt.chunk_list) (unmap_chunk start size c s)

def mem_update (m : Mem) : Mem :=
  let cs := BubbleSort.sort Chunk.start m.chunk_list
  { m with
    chunk_list := cs
    start_addr := cs.foldl (fun a c => min a c.start) U64_MAX
    end_addr := cs.foldl (fun a c => max a c.stop) 0 }

def mem_unmap (start size : Nat) (s : State) : State :=
  let cs := s.mem_virt.chunk_list
  let s := unmap_loop start size (3 * cs.length) cs.head? s
  { s with mem_virt := mem_update s.mem_virt }

def mem_range_mapped (start size : Nat) (s : State) : Bool :=
  let stop := u64 ((start : Int) + size - 1)
  s.mem_virt.chunk_list.any fun c => decide (¬ c.start > stop ∧ ¬ c.stop < start)

def mem_map (start size start_phys : Nat) (s : State) : Except Fault State :=
  if mem_range_mapped start size s then .error .already_mapped
  else
    let s := mem_chunk_map_add start size start_phys s
    .ok { s with mem_virt := mem_update s.mem_virt }

inductive Select
  | unspecified
  | prod
  | kdump
  | all
  deriving DecidableEq

def word (b : List UInt8) : Nat := b.foldl (fun n x => 256 * n + x.toNat) 0

def kdump_select (select : Select) (base size : Nat) (s : State) : Except Fault State :=
  match select with
  | .prod => mem_map 0 size base (mem_unmap base size (mem_unmap 0 size s))
  | .kdump => .ok (mem_unmap size (U64_MAX - size) s)
  | _ => .ok s

def kdump_init (select : Select) (s : State) : Except Fault State := do
  let (b, s) ← dfi_mem_phys_read 0x10418 8 s
  let (b', s) ← dfi_mem_phys_read 0x10420 8 s
  let base := word b
  let size := word b'
  if base = 0 ∨ size = 0 ∨ base % MIB ≠ 0 ∨ size % MIB ≠ 0 then return s
  let (valid, s) ← dfi_mem_range_valid base size s
  if !valid then return s
  kdump_select select base size s

end Zdump.Memory
