import S390Tools.Lib.Splice
import S390Tools.Lib.Stdio

/-!
# The data buffer of dump2tar

`buffer.c` keeps the content of one archive entry in memory, with a temporary file for
the part that does not fit; `read_fd` of `dump.c` fills it. The temporary file is a byte
array, its calls do not fail. A request for memory fails beyond `PTRDIFF_MAX` and ends
the process; fresh memory holds whatever `junk` says.
-/

namespace Dump2tar

open Stdio Splice

def EXIT_OK : Int := 0
def EXIT_RUNTIME : Int := 1

def PTRDIFF_MAX : Nat := 2 ^ 63 - 1

def ssize (n : Nat) : Int := if n ≤ PTRDIFF_MAX then n else n - 2 ^ 64

inductive Stop
  | oom
  | endless
  deriving DecidableEq

/-- `file` is there when `fd_open` is set. -/
structure Buffer where
  total : Nat
  off : Nat
  size : Nat
  addr : List UInt8
  file : Option File

section
variable (junk : Nat → UInt8)

def mrealloc (addr : List UInt8) (size : Nat) : Except Stop (List UInt8) :=
  if size ≤ PTRDIFF_MAX then .ok (addr.take size ++ (List.range (size - addr.length)).map junk) else .error .oom

def buffer_init (size : Nat) : Except Stop Buffer := do
  let addr ← mrealloc junk [] size
  return { total := 0, off := 0, size, addr, file := none }

def buffer_reset (buffer : Buffer) : Buffer :=
  { buffer with total := 0, off := 0, file := buffer.file.map fun f => (f.truncate 0).seek 0 }

def buffer_open (buffer : Buffer) : File := buffer.file.getD ⟨[], 0⟩

def buffer_flush (buffer : Buffer) : Buffer :=
  if buffer.off = 0 then buffer
  else { buffer with off := 0, file := some ((buffer_open buffer).write (buffer.addr.take buffer.off)) }

def enlarge (buffer : Buffer) (size needsize : Nat) : Except Stop (Int × Buffer) := do
  let addr ← mrealloc junk buffer.addr needsize
  return (ssize size, { buffer with size := needsize, addr })

def cap_size (size : Nat) (usefile : Bool) (max_buffer_size : Nat) : Nat :=
  if max_buffer_size < size ∧ usefile then max_buffer_size else size

def buffer_make_room (buffer : Buffer) (size : Nat) (usefile : Bool) (max_buffer_size : Nat) :
    Except Stop (Int × Buffer) :=
  let size := cap_size size usefile max_buffer_size
  let needsize := (buffer.off + size) % 2 ^ 64
  if needsize ≤ buffer.size then .ok (ssize size, buffer)
  else if max_buffer_size < needsize ∧ usefile then
    if size ≤ (buffer_flush buffer).size then .ok (ssize size, buffer_flush buffer)
    else enlarge junk (buffer_flush buffer) size size
  else enlarge junk buffer size needsize

def Buffer.put (buffer : Buffer) (d : List UInt8) : Buffer :=
  { buffer with
    total := buffer.total + d.length
    off := buffer.off + d.length
    addr := splice buffer.addr buffer.off d }

/-! ## Input -/

/-- An open file: what is still to be read, and how the next calls end, with an error or
with no more than so many bytes after the first. -/
structure Fd where
  data : List UInt8
  answers : List (Option Nat)

def Fd.read (n : Nat) (fd : Fd) : Option (List UInt8) × Fd :=
  match fd.answers with
  | [] => (some (fd.data.take n), { fd with data := fd.data.drop n })
  | none :: answers => (none, { fd with answers })
  | some k :: answers => (some (fd.data.take (min n (k + 1))), { data := fd.data.drop (min n (k + 1)), answers })

def buffer_read_fd (buffer : Buffer) (fd : Fd) (chunk : Nat) (usefile : Bool) (max_buffer_size : Nat) :
    Except Stop (Int × Fd × Buffer) := do
  let (c, buffer) ← buffer_make_room junk buffer chunk usefile max_buffer_size
  if c < 0 then return (c, fd, buffer)
  match fd.read c.toNat with
  | (none, fd) => return (-1, fd, buffer)
  | (some d, fd) => return (d.length, fd, if 0 < d.length then buffer.put d else buffer)

/-- `some` data at an address, or `none` for so many zeroes. -/
def piece (addr : Option (List UInt8)) (c : Nat) : List UInt8 :=
  match addr with
  | some d => d.take c
  | none => List.replicate c 0

/-- Each round of the loop stores a byte, or the loop is `endless`. -/
def buffer_add_loop (usefile : Bool) (max_buffer_size : Nat) : (fuel : Nat) → Buffer →
    Option (List UInt8) → (len : Nat) →
    Except Stop (Int × Buffer)
  | _, buffer, _, 0 => .ok (EXIT_OK, buffer)
  | 0, _, _, _ + 1 => .error .endless
  | fuel + 1, buffer, addr, len + 1 => do
    let (c, buffer) ← buffer_make_room junk buffer (len + 1) usefile max_buffer_size
    if c < 0 then return (EXIT_RUNTIME, buffer)
    buffer_add_loop usefile max_buffer_size fuel (buffer.put (piece addr c.toNat)) (addr.map (·.drop c.toNat))
      (len + 1 - c.toNat)

def buffer_add_data (buffer : Buffer) (addr : Option (List UInt8)) (len : Nat) (usefile : Bool)
    (max_buffer_size : Nat) :
    Except Stop (Int × Buffer) :=
  buffer_add_loop junk usefile max_buffer_size len buffer addr len

def buffer_truncate (buffer : Buffer) (len : Nat) : Buffer :=
  if buffer.total ≤ len then buffer
  else match buffer.file with
    | some f =>
      if buffer.off < buffer.total - len then
        { buffer with total := len, off := 0, file := some ((f.truncate len).seek len) }
      else { buffer with total := len, off := buffer.off - (buffer.total - len) }
    | none => { buffer with total := len, off := buffer.off - (buffer.total - len) }

/-! ## Iteration -/

section
variable {σ : Type} (cb : σ → List UInt8 → Int × σ)

def copy_file (size : Nat) (f : File) (data : σ) : Int × σ × File :=
  if _hd : (f.readSome size).1 = [] then (EXIT_OK, data, (f.readSome size).2)
  else
    match cb data (f.readSome size).1 with
    | (rc, data) => if rc ≠ 0 then (rc, data, (f.readSome size).2) else copy_file size (f.readSome size).2 data
termination_by f.content.length - f.pos
decreasing_by
  have hlen := List.length_pos_iff.mpr _hd
  simp only [File.readSome, List.length_take, List.length_drop] at hlen ⊢
  omega

def buffer_iterate (buffer : Buffer) (data : σ) : Int × σ × Buffer :=
  if buffer.total = 0 then (EXIT_OK, data, buffer)
  else match buffer.file with
    | none =>
      let (rc, data) := cb data (buffer.addr.take buffer.off)
      (rc, data, buffer)
    | some _ =>
      let buffer := buffer_flush buffer
      let (rc, data, f) := copy_file cb buffer.size ((buffer_open buffer).seek 0) data
      (rc, data, { buffer with file := some f })

end

/-! ## Reading a file -/

structure Opts where
  read_chunk_size : Nat
  max_buffer_size : Nat
  file_max_size : Nat

/-- The flag is set before the question of number `abort_at`, if ever, and stays set. -/
def is_aborted (abort_at : Option Nat) (i : Nat) : Bool :=
  match abort_at with
  | none => false
  | some k => k ≤ i

/-- `i` counts the questions whether the task is aborted; each round that goes on reads a byte. -/
def read_fd_loop (opts : Opts) (abort_at : Option Nat) : (fuel : Nat) → (i : Nat) → (c : Nat) →
    (rc : Int) → Fd → Buffer →
    Except Stop (Int × Nat × Fd × Buffer)
  | 0, _, _, _, _, _ => .error .endless
  | fuel + 1, i, c, rc, fd, buffer => do
    if is_aborted abort_at i then return (rc, i + 1, fd, buffer)
    let (rc, fd, buffer) ← buffer_read_fd junk buffer fd c true opts.max_buffer_size
    if rc ≤ 0 then return (rc, i + 1, fd, buffer)
    if 0 < opts.file_max_size ∧ opts.file_max_size ≤ buffer.total then
      return (0, i + 1, fd, buffer_truncate buffer opts.file_max_size)
    let c :=
      if 0 < buffer.size - buffer.off then buffer.size - buffer.off
      else if (buffer.size + opts.read_chunk_size) % 2 ^ 64 < opts.max_buffer_size then opts.read_chunk_size
      else opts.max_buffer_size
    read_fd_loop opts abort_at fuel (i + 1) c rc fd buffer

def read_fd (opts : Opts) (abort_at : Option Nat) (fd : Fd) (buffer : Buffer) :
    Except Stop (Int × Fd × Buffer) := do
  let c := if buffer.size ≠ 0 then buffer.size else opts.read_chunk_size
  let (rc, i, fd, buffer) ← read_fd_loop junk opts abort_at (fd.data.length + 1) 0 c 0 fd buffer
  return (if is_aborted abort_at i ∨ rc ≠ 0 then EXIT_RUNTIME else EXIT_OK, fd, buffer)

end

end Dump2tar
