import S390Tools.Hmcdrvfs.DirRun
import S390Tools.Hmcdrvfs.Ftp

/-!
# The file system operations (hmcdrvfs/hmcdrvfs.c)

An operation looks its path up in the cache. A path that is not there is searched
in the listing of its directory, whose path is looked up before.
-/

namespace Hmcdrvfs

open CString

def HMCDRV_FUSE_GARBAGE_MAX : Nat := 128

def root : Bytes := [0x2f]

/-- The results of the time, of the calls of the device and of the stack: `reply` and `stack` are those of the
transfers in their order. `output` is what the medium holds for each command, `ctx.now` the date of the mount. -/
structure Env where
  ctx : Context
  gmtime : Int → Tm
  ctmo : Int
  output : Bytes → Bytes
  reply : Nat → Reply
  stack : Nat → Buffers
  path_length : ∀ k, (stack k).path.length = HMCDRV_FUSE_MAXPATH
  symlink_length : ∀ k, (stack k).symlink.length = HMCDRV_FUSE_MAXPATH

/-- The lines of a listing that is read at the time `now` have the date of then as their default. -/
def Env.during (env : Env) (now : Int) : Env := { env with ctx := { env.ctx with now := env.gmtime now } }

/-- `index` is the next line of the table for the aging; `calls` and `errors` count the transfers
and the failed ones. -/
structure Fs where
  cache : Cache
  ftp : Ftp
  index : Nat
  calls : Nat
  errors : Nat

/-! ## Cache -/

def restart_list (timeout : Int) (path : Bytes) : List CacheFile → List CacheFile
  | [] => []
  | fp :: next => if fp.path = path then { fp with timeout } :: next else fp :: restart_list timeout path next

def hmcdrv_cache_find (timeout : Int) (path : Bytes) (cache : Cache) : Option CacheFile × Cache :=
  match lookup cache path with
  | none => (none, cache)
  | some fp =>
    (some { fp with timeout },
      Function.update cache (hmcdrv_hash_path path) (restart_list timeout path (cache (hmcdrv_hash_path path))))

def hmcdrv_cache_expire (now : Int) (cache : Cache) (index : Nat) : Cache :=
  Function.update cache index ((cache index).filter fun fp => !(decide (fp.timeout ≤ now) && fp.path != root))

def aging_lines (now : Int) : Nat → Cache → Nat → Cache × Nat
  | 0, cache, index => (cache, index)
  | n + 1, cache, index =>
    aging_lines now n (hmcdrv_cache_expire now cache index)
      (if index + 1 = HMCDRV_FUSE_CACHE_SIZE then 0 else index + 1)

section
variable (env : Env)

def hmcdrv_cache_aging (now : Int) (s : Fs) : Fs :=
  let (cache, index) := aging_lines now HMCDRV_FUSE_GARBAGE_MAX s.cache s.index
  { s with cache, index }

/-! ## Directories -/

def hmcdrv_ftp_cmd (path : Bytes) (cmd : CmdId) (len offset : Nat) (s : Fs) : Option Bytes × Fs :=
  match hmcdrv_ftp_transfer env.output (env.reply s.calls) (hmcdrv_ftp_str cmd ++ path) len offset s.ftp with
  | (some buf, ftp) => (some buf, { s with ftp, calls := s.calls + 1 })
  | (none, ftp) => (none, { s with ftp, calls := s.calls + 1, errors := s.errors + 1 })

/-- The chunks of the listing of `dir`, `frag` in front of the next one; the result tells whether the listing
came to its end. `n` bounds their number. -/
def dir_chunks (refuses : Nat → Bool) (dir : Bytes) (fname len : Nat) :
    Nat → Bytes → Nat → Scan → Fs → Option (Bool × Scan × Fs)
  | 0, _, _, _, _ => none
  | n + 1, frag, offset, scan, s =>
    match hmcdrv_ftp_cmd env dir .dir (HMCDRV_FUSE_DIRBUF_LEN - frag.length) offset s with
    | (none, s) => some (false, scan, s)
    | (some chunk, s) =>
      if chunk = [] then some (true, scan, s)
      else if HMCDRV_FUSE_DIRBUF_SIZE ≤ frag.length + chunk.length then none
      else
        match scan_chunk env.ctx refuses fname len (frag ++ chunk).length (frag ++ chunk) scan with
        | none => none
        | some (frag, scan) => dir_chunks refuses dir fname len n frag (offset + chunk.length) scan s

/-- `hmcdrv_cache_dir` behind the search of the directory. -/
def cache_listing (timeout : Int) (refuses : Nat → Bool) (filler : Bool) (dir : Bytes) (s : Fs) :
    Option (Bool × Scan × Fs) :=
  match hmcdrv_path_copy dir (env.stack s.calls).path with
  | none => none
  | some (len, path) =>
    match dir_chunks env refuses dir len (HMCDRV_FUSE_MAXPATH - len)
      ((env.output (hmcdrv_ftp_str .dir ++ dir)).length + 1) [] 0
      ⟨{ env.stack s.calls with path }, [], [], filler⟩ s with
    | none => none
    | some (ended, scan, s) => some (ended, scan, { s with cache := scan.cached timeout s.cache })

def dirname (path : Bytes) : Bytes :=
  let dir := ((path.rdropWhile (· == 0x2f)).rdropWhile (· != 0x2f)).rdropWhile (· == 0x2f)
  if dir ≠ [] then dir else if path.head? = some 0x2f then root else bytes "."

/-- `file_get` is `hmcdrv_file_get`. -/
def hmcdrv_cache_parent (file_get : Bytes → Fs → Option (Option CacheFile × Fs)) (timeout : Int)
    (dir : Bytes) (s : Fs) :
    Option (Bool × Fs) :=
  if dir = root then some (false, s)
  else
    match file_get (dirname dir) s with
    | none => none
    | some (none, s) => some (true, s)
    | some (some fp, s) =>
      match cache_listing env timeout (fun _ => false) false fp.path s with
      | none => none
      | some (_, _, s) => some (true, s)

def search_again (timeout : Int) (path : Bytes) (r : Bool × Fs) : Option CacheFile × Fs :=
  if r.1 then
    ((hmcdrv_cache_find timeout path r.2.cache).1,
      { r.2 with cache := (hmcdrv_cache_find timeout path r.2.cache).2 })
  else (none, r.2)

/-- The directories of the path are looked up as long as they are missing; `n` bounds their number. -/
def hmcdrv_file_get (timeout : Int) : Nat → Bytes → Fs → Option (Option CacheFile × Fs)
  | 0, _, _ => none
  | n + 1, path, s =>
    match hmcdrv_cache_find timeout path s.cache with
    | (some fp, cache) => some (some fp, { s with cache })
    | (none, _) =>
      (hmcdrv_cache_parent env (hmcdrv_file_get timeout n) timeout path s).map (search_again timeout path)

/-! ## Operations -/

inductive Errno
  | ENOENT
  | ENOMEM
  | EINVAL
  | device
  deriving DecidableEq

/-- A path of the file system, without slashes in its names, the last one first. -/
structure Path where
  names : List Bytes
  named : ∀ c ∈ names, c ≠ [] ∧ ∀ x ∈ c, x ≠ 0x2f ∧ x ≠ 0

def path_of : List Bytes → Bytes
  | [] => root
  | c :: cs => dir_path (path_of cs) ++ c

inductive Op
  | getattr (path : Path)
  | readlink (path : Path) (size : Nat)
  | readdir (path : Path) (refuses : Nat → Bool)
  | read (path : Path) (size offset : Nat)
  | aging

inductive Answer
  | attr (st : Except Errno Stat)
  | target (buf : Except Errno Bytes)
  | entries (passed : List (Bytes × Option Stat)) (error : Option Errno)
  | data (buf : Except Errno Bytes)
  | aged

def file_get (timeout : Int) (path : Path) (s : Fs) : Option (Option CacheFile × Fs) :=
  hmcdrv_file_get env timeout ((path_of path.names).length + 1) (path_of path.names) s

def hmcdrv_fuse_getattr (timeout : Int) (path : Path) (s : Fs) : Option (Answer × Fs) :=
  match file_get env timeout path s with
  | none => none
  | some (none, s) => some (.attr (.error .ENOENT), s)
  | some (some fp, s) => some (.attr (.ok fp.st), s)

def hmcdrv_fuse_readlink (timeout : Int) (path : Path) (size : Nat) (s : Fs) : Option (Answer × Fs) :=
  match file_get env timeout path s with
  | none => none
  | some (none, s) => some (.target (.error .ENOENT), s)
  | some (some fp, s) =>
    match fp.symlnk with
    | none => some (.target (.error .ENOMEM), s)
    | some symlnk =>
      if S_ISLNK fp.st.st_mode then some (.target (.ok (symlnk.take (size - 1))), s)
      else some (.target (.error .EINVAL), s)

def dots : List (Bytes × Option Stat) := [(bytes ".", none), (bytes "..", none)]

def hmcdrv_fuse_readdir (timeout : Int) (path : Path) (refuses : Nat → Bool) (s : Fs) : Option (Answer × Fs) :=
  match file_get env timeout path s with
  | none => none
  | some (none, s) => some (.entries dots (some .ENOENT), s)
  | some (some fp, s) =>
    match cache_listing env timeout refuses true fp.path s with
    | none => none
    | some (ended, scan, s) =>
      some (.entries (dots ++ scan.passed.map fun e => (e.1, some e.2)) (if ended then none else some .device), s)

def hmcdrv_fuse_read (timeout : Int) (path : Path) (size offset : Nat) (s : Fs) : Option (Answer × Fs) :=
  match file_get env timeout path s with
  | none => none
  | some (none, s) => some (.data (.error .ENOENT), s)
  | some (some fp, s) =>
    match hmcdrv_ftp_cmd env fp.path .get size offset s with
    | (none, s) => some (.data (.error .device), s)
    | (some buf, s) => some (.data (.ok buf), s)

def operation (op : Op) (now : Int) (s : Fs) : Option (Answer × Fs) :=
  match op with
  | .getattr path => hmcdrv_fuse_getattr env (now + env.ctmo) path s
  | .readlink path size => hmcdrv_fuse_readlink env (now + env.ctmo) path size s
  | .readdir path refuses => hmcdrv_fuse_readdir env (now + env.ctmo) path refuses s
  | .read path size offset => hmcdrv_fuse_read env (now + env.ctmo) path size offset s
  | .aging => some (.aged, hmcdrv_cache_aging now s)

def step (op : Op) (now : Int) (s : Fs) : Option (Answer × Fs) := operation (env.during now) op now s

def run : List (Op × Int) → Fs → Option Fs
  | [], s => some s
  | (op, now) :: ops, s =>
    match step env op now s with
    | none => none
    | some (_, s) => run ops s

def fuse_init (now : Int) (dev : Device) : Fs where
  cache := hmcdrv_cache_refresh (now + env.ctmo) root env.ctx.st none fun _ => []
  ftp := ⟨0, [], dev⟩
  index := 0
  calls := 0
  errors := 0

end

end Hmcdrvfs
