import S390Tools.Lib.Fields

/-!
# Tar entries

What `tar_emit_file_from_buffer` and `tar_emit_file_from_data` write, as a byte
string, and a reader of GNU tar archives. Strings have no terminating zero byte;
text fields of the header are filled up with zeros.
-/

namespace Dump2tar.Tar

open Fields

def LONGLINK : List UInt8 := "././@LongLink".toUTF8.toList
def TYPE_LONGLINK : UInt8 := 0x4b
def TYPE_LONGNAME : UInt8 := 0x4c
def BLOCKSIZE : Nat := 512

/-! ## The writer -/

structure Stat where
  st_mode : UInt32
  st_uid : UInt32
  st_gid : UInt32
  st_mtime : Int64

/-- The names that `uid_to_name` and `gid_to_name` find, empty if there is none. -/
structure Names where
  uid_to_name : Nat → List UInt8
  gid_to_name : Nat → List UInt8
  uid_str : ∀ n, 0 ∉ uid_to_name n
  gid_str : ∀ n, 0 ∉ gid_to_name n

def octal (n value : Nat) : List UInt8 := (digits 8 n value).map fun d => .ofNat (0x30 + d)

def set_octal (len value : Nat) : List UInt8 := octal (len - 1) value ++ [0]

def set_time (len : Nat) (value : Int) : List UInt8 :=
  if value ≥ 0 ∧ value ≤ 2 ^ (3 * (len - 1)) - 1 then set_octal len value.toNat
  else
    match (digits 256 len value).map UInt8.ofNat with
    | [] => []
    | b :: bs => (b ||| 0x80) :: bs

def sum (l : List UInt8) : Nat := (l.map UInt8.toNat).sum

def header_fields (names : Names) (filename : List UInt8) (link : Option (List UInt8)) (len : Nat)
    (stat : Option Stat)
    (type : UInt8) (chksum : List UInt8) : List (List UInt8) :=
  let mode := match stat with | some st => st.st_mode.toNat % 0o10000 | none => 0o644
  let uid := match stat with | some st => st.st_uid.toNat | none => 0
  let gid := match stat with | some st => st.st_gid.toNat | none => 0
  let mtime := match stat with | some st => st.st_mtime.toInt | none => 0
  [text 0 100 filename, set_octal 8 mode, set_octal 8 uid, set_octal 8 gid, set_octal 12 len,
    set_time 12 mtime, chksum,
    [type], text 0 100 (link.getD []), [0x75, 0x73, 0x74, 0x61, 0x72, 0x20], [0x20, 0],
    text 0 32 (names.uid_to_name uid), text 0 32 (names.gid_to_name gid), List.replicate 8 0, List.replicate 8 0,
    List.replicate 155 0]

def init_header (names : Names) (filename : List UInt8) (link : Option (List UInt8)) (len : Nat)
    (stat : Option Stat)
    (type : UInt8) : List UInt8 :=
  let checksum := sum (header_fields names filename link len stat type (List.replicate 8 0x20)).flatten
  (header_fields names filename link len stat type (octal 6 checksum ++ [0, 0x20])).flatten

def emit_padding (len : Nat) : List UInt8 :=
  if len % BLOCKSIZE > 0 then List.replicate (BLOCKSIZE - len % BLOCKSIZE) 0 else []

def emit_data (addr : List UInt8) (len : Nat) : List UInt8 :=
  if len = 0 then [] else addr.take len ++ emit_padding len

/-- A header for a long name or link has a short name itself, so that `depth` 1 is enough. -/
def emit_header (names : Names) : (depth : Nat) → (filename : List UInt8) →
    (link : Option (List UInt8)) → (len : Nat) →
    (stat : Option Stat) → (type : UInt8) → List UInt8
  | 0, filename, link, len, stat, type => emit_data (init_header names filename link len stat type) 500
  | depth + 1, filename, link, len, stat, type =>
    let link := link.map fun l => if l = [] then [0x20] else l
    let linkdata := link.getD []
    (if linkdata.length > 100 then
      emit_header names depth LONGLINK none (linkdata.length + 1) none TYPE_LONGLINK ++
        emit_data (linkdata ++ [0]) (linkdata.length + 1)
    else []) ++
    (if filename.length > 100 then
      emit_header names depth LONGLINK none (filename.length + 1) none TYPE_LONGNAME ++
        emit_data (filename ++ [0]) (filename.length + 1)
    else []) ++
    emit_data (init_header names filename link len stat type) 500

/-- A buffer, by the pieces that `buffer_iterate` passes on. -/
structure Buffer where
  chunks : List (List UInt8)
  total : Nat
  total_eq : chunks.flatten.length = total

/-- The calls of `emit_content_cb`; a piece that takes the rest of `len` is the last one. -/
def emit_chunks : List (List UInt8) → Nat → List UInt8
  | [], _ => []
  | c :: cs, len =>
    let n := min c.length len
    c.take n ++ if len - n = 0 then [] else emit_chunks cs (len - n)

def emit_content (buffer : Buffer) (len : Nat) : List UInt8 := emit_chunks buffer.chunks len ++
    emit_padding buffer.total

def tar_emit_file_from_buffer (names : Names) (filename : List UInt8) (link : Option (List UInt8))
    (len : Nat) (stat : Stat)
    (type : UInt8) (content : Option Buffer) : List UInt8 :=
  emit_header names 1 filename link len (some stat) type ++
    match content with
    | some b => emit_content b len
    | none => []

def tar_emit_file_from_data (names : Names) (filename : List UInt8) (link : Option (List UInt8))
    (len : Nat) (stat : Stat)
    (type : UInt8) (addr : Option (List UInt8)) : List UInt8 :=
  emit_header names 1 filename link len (some stat) type ++
    match addr with
    | some a => emit_data a len
    | none => []

/-! ## Calls -/

inductive Content
  | none
  | buffer (b : Buffer)
  | data (addr : List UInt8)

def Content.bytes : Content → List UInt8
  | .none => []
  | .buffer b => b.chunks.flatten
  | .data a => a

structure Call where
  filename : List UInt8
  link : Option (List UInt8)
  len : Nat
  stat : Stat
  type : UInt8
  content : Content

def Call.emit (names : Names) (c : Call) : List UInt8 :=
  match c.content with
  | .none => tar_emit_file_from_buffer names c.filename c.link c.len c.stat c.type none
  | .buffer b => tar_emit_file_from_buffer names c.filename c.link c.len c.stat c.type (some b)
  | .data a => tar_emit_file_from_data names c.filename c.link c.len c.stat c.type (some a)

def emit (names : Names) (calls : List Call) : List UInt8 := (calls.map (Call.emit names)).flatten

/-- Names are strings, the length is that of the content, and the type is not one of those for long names. -/
structure Call.Proper (c : Call) : Prop where
  filename : 0 ∉ c.filename
  link : ∀ l ∈ c.link, 0 ∉ l
  len : c.len = c.content.bytes.length
  type : c.type ≠ TYPE_LONGLINK ∧ c.type ≠ TYPE_LONGNAME

/-! ## A reader of GNU tar archives -/

def field_widths : List Nat := [100, 8, 8, 8, 12, 12, 8, 1, 100, 6, 2, 32, 32, 8, 8, 155]

def is_octal (b : UInt8) : Bool := 0x30 ≤ b && b ≤ 0x37

def from_octal (f : List UInt8) : Option Int :=
  let f := f.dropWhile (· = 0x20)
  let ds := f.takeWhile is_octal
  match ds, f.dropWhile is_octal with
  | [], _ => none
  | _, [] => some (value 8 (ds.map fun d => d.toNat - 0x30))
  | _, b :: _ => if b = 0 ∨ b = 0x20 then some (value 8 (ds.map fun d => d.toNat - 0x30)) else none

def from_header (f : List UInt8) : Option Int :=
  match f with
  | 0x80 :: bs => some (value 256 (bs.map UInt8.toNat))
  | 0xff :: bs => some (value 256 (bs.map UInt8.toNat) - 256 ^ bs.length)
  | f => from_octal f

def c_str (f : List UInt8) : List UInt8 := f.takeWhile (· ≠ 0)

structure Header where
  name : List UInt8
  mode : Nat
  uid : Nat
  gid : Nat
  size : Nat
  mtime : Int
  type : UInt8
  linkname : List UInt8
  uname : List UInt8
  gname : List UInt8

def parse_header (block : List UInt8) : Option Header :=
  match split field_widths block with
  | [name, mode, uid, gid, size, mtime, chksum, type, linkname, _, _, uname, gname, _, _, _] => do
    let check ← from_header chksum
    let mode ← from_header mode
    let uid ← from_header uid
    let gid ← from_header gid
    let size ← from_header size
    let mtime ← from_header mtime
    if check = (sum block : Int) - sum chksum + 8 * 0x20 then
      some
        { name := c_str name, mode := mode.toNat, uid := uid.toNat, gid := gid.toNat, size := size.toNat, mtime,
          type := type.headD 0, linkname := c_str linkname, uname := c_str uname, gname := c_str gname }
    else none
  | _ => none

structure Entry where
  name : List UInt8
  link : List UInt8
  type : UInt8
  size : Nat
  mode : Nat
  uid : Nat
  gid : Nat
  mtime : Int
  uname : List UInt8
  gname : List UInt8
  content : List UInt8
  deriving DecidableEq

def round_up (size : Nat) : Nat := (size + 511) / 512 * 512

def read_records : (fuel : Nat) → (name link : Option (List UInt8)) → List UInt8 → Option (List Entry)
  | 0, _, _, _ => none
  | _ + 1, none, none, [] => some []
  | fuel + 1, name, link, stream =>
    if stream.length < 512 then none
    else if stream.take 512 = List.replicate 512 0 then some []
    else
      match parse_header (stream.take 512) with
      | none => none
      | some h =>
        let data := stream.drop 512
        if data.length < round_up h.size then none
        else
          let content := data.take h.size
          let rest := data.drop (round_up h.size)
          if h.type = TYPE_LONGNAME then read_records fuel (some (c_str content)) link rest
          else if h.type = TYPE_LONGLINK then read_records fuel name (some (c_str content)) rest
          else
            match read_records fuel none none rest with
            | none => none
            | some es =>
              some ({ name := name.getD h.name, link := link.getD h.linkname, type := h.type,
                      size := h.size, mode := h.mode,
                      uid := h.uid, gid := h.gid, mtime := h.mtime, uname := h.uname, gname :=
                        h.gname, content } :: es)

def read_archive (stream : List UInt8) : Option (List Entry) :=
    read_records (stream.length / 512 + 1) none none stream

end Dump2tar.Tar
