import S390Tools.Hmcdrvfs.Cache

/-!
# Reading a directory (hmcdrvfs/hmcdrvfs.c)

The listing comes in chunks. A line that could not be parsed at the end of a
chunk is moved to the front of the buffer, and the next chunk is read behind it.
-/

namespace Hmcdrvfs

open CString

def HMCDRV_FUSE_DIRBUF_SIZE : Nat := 64 * 1024
def HMCDRV_FUSE_DIRBUF_LEN : Nat := HMCDRV_FUSE_DIRBUF_SIZE - 1

/-- Arguments of `hmcdrv_cache_refresh`, with the target it keeps. -/
structure Stored where
  path : Bytes
  st : Stat
  symlnk : Option Bytes
  deriving DecidableEq

/-- State of `hmcdrv_cache_dir`: the entries stored in the cache and passed to the filler, and whether the filler
still takes entries. -/
structure Scan where
  b : Buffers
  stored : List Stored
  passed : List (Bytes × Stat)
  filler : Bool

def Scan.cached (s : Scan) (timeout : Int) (cache : Cache) : Cache :=
  s.stored.foldl (fun cache e => hmcdrv_cache_refresh timeout e.path e.st e.symlnk cache) cache

def hmcdrv_path_copy (src dest : Bytes) : Option (Nat × Bytes) := do
  let src := src.take (HMCDRV_FUSE_MAXPATH - 1)
  let dest ← put dest 0 src
  if src ≠ [] ∧ src.getLast? ≠ some 0x2f then
    let dest ← put dest src.length [0x2f]
    let dest ← put dest (src.length + 1) [0]
    some (src.length + 1, dest)
  else
    let dest ← put dest src.length [0]
    some (src.length, dest)

section
variable (ctx : Context)

/-- `refuses k` tells that the filler does not take more entries after `k` others and this one. -/
def handle_entry (refuses : Nat → Bool) (fname : Bytes) (st : Stat) (s : Scan) : Scan where
  b := s.b
  stored := s.stored ++ [⟨str s.b.path, st, hmcdrv_cache_symlink s.b.symlink⟩]
  passed := if s.filler then s.passed ++ [(fname, st)] else s.passed
  filler := s.filler && !refuses s.passed.length

/-- All lines of a chunk, from `line` on; the result is the fragment. `n` bounds the number of lines. -/
def scan_chunk (refuses : Nat → Bool) (fname len : Nat) : Nat → Bytes → Scan → Option (Bytes × Scan)
  | 0, line, s => some (line, s)
  | n + 1, line, s => do
    let (next, st, b) ← hmcdrv_parse_line ctx line s.b fname len
    let name := str (b.path.drop fname)
    let s := if name ≠ [] then handle_entry refuses name st { s with b } else { s with b }
    if next ≠ [] then scan_chunk refuses fname len n next s
    else some (if name = [] then line else [], s)

/-- What the device returns for a read of `len` characters from `offset` on; it may return fewer, but at least
one where there is one. -/
def ftp_dir (text : Bytes) (wish len offset : Nat) : Bytes := (text.drop offset).take (min len (wish + 1))

/-- The chunks from number `k` on. `n` bounds their number. -/
def read_chunks (refuses : Nat → Bool) (fname len : Nat) (text : Bytes) (wishes : Nat → Nat) :
    Nat → Nat → Bytes → Nat → Scan → Option Scan
  | 0, _, _, _, s => some s
  | n + 1, k, frag, offset, s => do
    let chunk := ftp_dir text (wishes k) (HMCDRV_FUSE_DIRBUF_LEN - frag.length) offset
    if chunk = [] then some s
    else if HMCDRV_FUSE_DIRBUF_SIZE ≤ frag.length + chunk.length then none
    else
      let next := frag ++ chunk
      let (frag, s) ← scan_chunk ctx refuses fname len next.length next s
      read_chunks refuses fname len text wishes n (k + 1) frag (offset + chunk.length) s

/-- `dir` is the path of the directory in the cache, `b` the buffers as they are found, `text` the listing. -/
def hmcdrv_cache_dir (refuses : Nat → Bool) (filler : Bool) (b : Buffers) (dir text : Bytes) (wishes : Nat → Nat) :
    Option Scan := do
  let (len, path) ← hmcdrv_path_copy dir b.path
  read_chunks ctx refuses len (HMCDRV_FUSE_MAXPATH - len) text wishes (text.length + 1) 0 [] 0
    ⟨{ b with path }, [], [], filler⟩

end

end Hmcdrvfs
