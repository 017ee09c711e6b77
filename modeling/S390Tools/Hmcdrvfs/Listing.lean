import S390Tools.Lib.CString
import S390Tools.Lib.Splice
import S390Tools.Lib.Word

/-!
# Directory listings of the HMC drive (hmcdrvfs/hmcdrvfs.c)

A listing has one line for a file, in the form of `ls -l`. A conversion reads its
token in the text up to the end of the line; only on a line that ends with the
token could it read further, and such a line has no file name.
-/

namespace Hmcdrvfs

open CString Splice Word

abbrev Bytes := List UInt8

def bytes (s : String) : Bytes := s.toList.map fun c => UInt8.ofNat c.toNat

def HMCDRV_FUSE_MAXPATH : Nat := 192

/-- `struct stat`; the times of access and change are that of modification. -/
structure Stat where
  st_mode : Nat
  st_nlink : Nat
  st_uid : Nat
  st_gid : Nat
  st_size : Int
  st_mtime : Int
  st_blksize : Nat
  st_blocks : Int
  deriving DecidableEq

/-- `struct tm` -/
structure Tm where
  tm_min : Int
  tm_hour : Int
  tm_mday : Int
  tm_mon : Int
  tm_year : Int
  deriving DecidableEq

/-- `now` is the broken-down time of the call, `mktime` that of the time zone of the HMC. -/
structure Context where
  st : Stat
  abmon : List Bytes
  now : Tm
  mktime : Tm → Int

/-! ## Numbers -/

def number (s : Bytes) : Option (Bool × Nat × Bytes) :=
  let s := s.dropWhile isspace
  let (neg, s) := match s with
    | 0x2d :: s => (true, s)
    | 0x2b :: s => (false, s)
    | s => (false, s)
  if s.takeWhile isdigit = [] then none else some (neg, digits s, s.dropWhile isdigit)

/-- Value and rest; `none` is ERANGE. -/
def strtol (s : Bytes) : Option Int × Bytes :=
  match number s with
  | none => (some 0, s)
  | some (neg, n, rest) =>
    let v : Int := if neg then -n else n
    (if -9223372036854775808 ≤ v ∧ v < 9223372036854775808 then some v else none, rest)

def strtoul (s : Bytes) : Option Nat :=
  match number s with
  | none => some 0
  | some (neg, n, _) => if 18446744073709551616 ≤ n then none else some (if neg then u64 (-n) else n)

def hmcdrv_parse_uint (s : Bytes) : Option Nat := (strtoul s).map fun v => u32 v

def hmcdrv_parse_int (s : Bytes) (vmin vmax : Int) : Option Int :=
  match (strtol s).1 with
  | none => none
  | some v => if vmin ≤ i32 v ∧ i32 v ≤ vmax then some (i32 v) else none

def hmcdrv_parse_month (ctx : Context) (s : Bytes) : Int :=
  match ctx.abmon.findIdx? fun m => (m.map tolower).isPrefixOf (s.map tolower) with
  | some i => i
  | none => -1

def S_IFMT : Nat := 0o170000
def S_IFIFO : Nat := 0o010000
def S_IFCHR : Nat := 0o020000
def S_IFDIR : Nat := 0o040000
def S_IFBLK : Nat := 0o060000
def S_IFREG : Nat := 0o100000
def S_IFLNK : Nat := 0o120000
def S_IFSOCK : Nat := 0o140000

def file_type (c : UInt8) : Option Nat :=
  if c = 0x64 then some S_IFDIR
  else if c = 0x62 then some S_IFBLK
  else if c = 0x63 then some S_IFCHR
  else if c = 0x6c then some S_IFLNK
  else if c = 0x70 then some S_IFIFO
  else if c = 0x73 then some S_IFSOCK
  else if c = 0x2d then some S_IFREG else none

def permissions : Nat → Nat → Bytes → Option Nat
  | 0, mode, _ => some mode
  | _ + 1, _, [] => none
  | n + 1, mode, c :: s =>
    if c = 0x72 ∨ c = 0x77 ∨ c = 0x78 then permissions n (2 * mode + 1) s
    else if c = 0x2d then permissions n (2 * mode) s else none

def hmcdrv_parse_mode (s : Bytes) : Nat :=
  match s with
  | [] => 0
  | c :: s =>
    match file_type c, permissions 9 0 s with
    | some type, some mode => (mode &&& (0o777 - 0o222)) ||| type
    | _, _ => 0

def hmcdrv_parse_time (s : Bytes) (t : Tm) : Option Tm :=
  match number s, strtol s with
  | some _, (some hour, 0x3a :: s') =>
    match number s', (strtol s').1 with
    | some _, some minute =>
      if 0 ≤ i32 hour ∧ i32 hour < 24 ∧ 0 ≤ i32 minute ∧ i32 minute < 60 then
        some { t with tm_hour := i32 hour, tm_min := i32 minute }
      else none
    | _, _ => none
  | _, _ => none

/-! ## Lines -/

/-- `struct hmcdrv_fuse_attr` with the attributes it points to. -/
structure Attr where
  st : Stat
  ftm : Tm
  fname : Option Bytes

/-- `none` stops the line. -/
def hmcdrv_parse_ntoken (ctx : Context) (field : Nat) (token : Bytes) (attr : Attr) : Option Attr :=
  match field with
  | 0 => if hmcdrv_parse_mode token = 0 then none
    else some { attr with st := { attr.st with st_mode := hmcdrv_parse_mode token } }
  | 1 => (strtoul token).map fun v => { attr with st := { attr.st with st_nlink := v } }
  | 2 => some { attr with st := { attr.st with st_uid := (hmcdrv_parse_uint token).getD ctx.st.st_uid } }
  | 3 => some { attr with st := { attr.st with st_gid := (hmcdrv_parse_uint token).getD ctx.st.st_gid } }
  | 4 => (strtol token).1.map fun v => { attr with st := { attr.st with st_size := v } }
  | 5 => some { attr with ftm := { attr.ftm with tm_mon := hmcdrv_parse_month ctx token } }
  | 6 => (hmcdrv_parse_int token 1 31).map fun v => { attr with ftm :=
      -- a month of another language becomes YYYY-01-01
      if attr.ftm.tm_mon < 0 then { attr.ftm with tm_mday := 1, tm_mon := 0 } else { attr.ftm with tm_mday := v } }
  | 7 =>
    match hmcdrv_parse_time token attr.ftm with
    | some t => some { attr with ftm := t }
    | none => (hmcdrv_parse_int token 1900 2147483647).map fun v =>
        { attr with ftm := { attr.ftm with tm_year := v - 1900 } }
  | 8 => some { attr with fname := some token }
  | _ => some attr

/-- The fields of a line from number `field` on; `n` is the number of fields left. -/
def parse_fields (ctx : Context) : Nat → Nat → Bytes → Attr → Attr
  | 0, _, _, attr => attr
  | n + 1, field, line, attr =>
    let line := line.dropWhile isspace
    if line = [] then attr
    else
      match hmcdrv_parse_ntoken ctx field line attr with
      | none => attr
      | some attr => parse_fields ctx n (field + 1) (line.dropWhile fun c => !isspace c) attr

def zeroStat : Stat := ⟨0, 0, 0, 0, 0, 0, 0, 0⟩

def no_attr (ctx : Context) : Attr := ⟨zeroStat, { ctx.now with tm_hour := 0, tm_min := 0 }, none⟩

def S_ISLNK (mode : Nat) : Bool := mode &&& S_IFMT == S_IFLNK

/-- Name, attributes and target of the link on a line. -/
structure Entry where
  name : Bytes
  st : Stat
  target : Option Bytes
  deriving DecidableEq

def finish_stat (ctx : Context) (st : Stat) (ftm : Tm) : Stat :=
  { st with
    st_mtime := if ctx.mktime ftm = -1 then 0 else ctx.mktime ftm
    st_blksize := 2048
    st_blocks := Int.tdiv (st.st_size + 511) 512 }

def line_entry (ctx : Context) (l : Bytes) : Option Entry :=
  let attr := parse_fields ctx 9 0 l (no_attr ctx)
  match attr.fname with
  | none => none
  | some fname =>
    let arrow := if S_ISLNK attr.st.st_mode then find (bytes " -> ") fname else none
    some ⟨(arrow.map fname.take).getD fname, finish_stat ctx attr.st attr.ftm, arrow.map fun a =>
      fname.drop (a + 4)⟩

/-! ## Buffers -/

/-- Writing past the end of a buffer is `none`. -/
def put (b : Bytes) (i : Nat) (s : Bytes) : Option Bytes :=
    if i + s.length ≤ b.length then some (splice b i s) else none

/-- The buffers `path` and `symlink` of `hmcdrv_cache_dir`. -/
structure Buffers where
  path : Bytes
  symlink : Bytes

def put_target (symlink : Bytes) : Option Bytes → Option Bytes
  | none => put symlink 0 [0]
  | some target => put symlink 0 (ncopy target HMCDRV_FUSE_MAXPATH)

/-- One line from the start of `line`: the next line, the attributes (those of an entry without name do not
matter) and the buffers, with the name at position `namebuf` of the path. -/
def hmcdrv_parse_line (ctx : Context) (line : Bytes) (b : Buffers) (namebuf bufsize : Nat) :
    Option (Bytes × Stat × Buffers) := do
  let path ← put b.path namebuf [0]
  let line := line.dropWhile isspace
  let l := line.takeWhile (· != 0x0a)
  let rest := line.dropWhile (· != 0x0a)
  let next := rest.dropWhile isspace
  match line_entry ctx l with
  | none => some (next, zeroStat, { b with path })
  | some e =>
    -- without the end of the line this is a fragment
    if rest = [] then some (next, zeroStat, { b with path })
    else
      let path ← put path namebuf (ncopy e.name bufsize)
      let path ← put path (namebuf + bufsize - 1) [0]
      let symlink ← put_target b.symlink e.target
      some (next, e.st, ⟨path, symlink⟩)

end Hmcdrvfs
