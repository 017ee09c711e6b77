import S390Tools.Lib.Stdio
import S390Tools.Lib.Word

/-!
# The data files of ziomon (ziomon/ziomon_dacc.c)

A log file is a header and a ring of entries. An entry has a length and a type of
four bytes each and its data; entries of the type `ZIOMON_DACC_GARBAGE_MSG` are
skipped. Numbers are stored in big endian order.
-/

namespace Ziomon

open Stdio Word

def ZIOMON_DACC_GARBAGE_MSG : UInt32 := 0xffffffff
def DATA_MGR_MAGIC : UInt32 := 0x64616d67
def DATA_MGR_V2 : UInt32 := 2
def DATA_MGR_V3 : UInt32 := 3
def IS_NO_BLKIOMON_MSG : UInt32 := 0xfffffffe
def IS_BLKIOMON_MSG : UInt32 := 0xffffffff

/-- `struct message`; its `length` is the length of `data`. -/
structure Message where
  type : UInt32
  data : Bytes
  deriving DecidableEq

def get_total_msg_size (msg : Message) : Nat := u32 (msg.data.length + 8)

/-- `struct message_preview`. -/
structure MessagePreview where
  length : UInt32
  type : UInt32
  timestamp : UInt64
  is_blkiomon_v2 : Bool
  pos : Nat

/-- `struct file_header`; `begin_time` is not written to the file. -/
structure FileHeader where
  magic : UInt32
  version : UInt32
  size_limit : UInt64
  end_time : UInt64
  first_msg_offset : UInt64
  interval_length : UInt32
  msgid_utilization : UInt32
  msgid_ioerr : UInt32
  msgid_blkiomon : UInt32
  msgid_zfcpdd : UInt32
  begin_time : UInt64

def HEADER_LEN : Nat := 52

/-- The result of a function that returns 0, a positive value at the end of the file, or a negative one. -/
inductive Rc (α : Type)
  | ok (x : α)
  | eof
  | error

/-! ## Messages -/

def stat_hist_len : Nat := 8 + 4 * 16 + 4 * 25
def stat_minmax_len : Nat := 6 * 40 + 8

/-- The size of `struct blkiomon_stat` and of `struct blkiomon_stat_v2`. -/
def stat_len : Nat := stat_hist_len + 4 + stat_minmax_len

def conv_blkiomon_v2_to_v3 (d : Bytes) : Bytes :=
  d.take stat_hist_len ++ (d.drop (stat_hist_len + stat_minmax_len)).take 4 ++
    (d.drop stat_hist_len).take stat_minmax_len
    ++ d.drop stat_len

def message_bytes (msg : Message) : Bytes :=
  be 4 msg.data.length ++ be 4 msg.type.toNat ++ msg.data

def write_message (msg : Message) (f : File) : Option File :=
  if msg.data = [] then none else some (f.write (message_bytes msg))

def write_garbage_message (length : Int) (f : File) : File :=
  f.write (be 4 (u32 (length - 8)) ++ be 4 ZIOMON_DACC_GARBAGE_MSG.toNat)

def read_message_header (f : File) : Rc (Nat × UInt32) × File :=
  match f.read 4 with
  | (none, f) => (.eof, f)
  | (some length, f) =>
    match f.read 4 with
    | (none, f) => (.error, f)
    | (some type, f) => (.ok (unbe length, UInt32.ofNat (unbe type)), f)

def as_read (ver msgid_blkiomon : UInt32) (msg : Message) : Message :=
  if ver = DATA_MGR_V2 ∧ msgid_blkiomon ≠ IS_NO_BLKIOMON_MSG ∧
    (msg.type = IS_BLKIOMON_MSG ∨ msg.type = msgid_blkiomon) then
    { msg with data := conv_blkiomon_v2_to_v3 msg.data }
  else msg

def read_message (ver msgid_blkiomon : UInt32) (f : File) : Rc (Option Message) × File :=
  match read_message_header f with
  | (.eof, f) => (.eof, f)
  | (.error, f) => (.error, f)
  | (.ok (length, type), f) =>
    if type = ZIOMON_DACC_GARBAGE_MSG then (.ok none, f.seekBy length)
    else
      match f.read length with
      | (none, f) => (.error, f)
      | (some data, f) => (.ok (some (as_read ver msgid_blkiomon ⟨type, data⟩)), f)

def read_message_preview (f_hdr : FileHeader) (f : File) : Rc (Option MessagePreview) × File :=
  match read_message_header f with
  | (.eof, f) => (.eof, f)
  | (.error, f) => (.error, f)
  | (.ok (length, type), f₁) =>
    if type = ZIOMON_DACC_GARBAGE_MSG then (.ok none, f₁.seekBy length)
    else
      match f₁.read 8 with
      | (none, f) => (.error, f)
      | (some timestamp, f₂) =>
        (.ok (some {
          length := UInt32.ofNat length
          type := type
          timestamp := UInt64.ofNat (unbe timestamp)
          is_blkiomon_v2 := f_hdr.version = DATA_MGR_V2 ∧ type = f_hdr.msgid_blkiomon
          pos := f.pos }), f₂.seekBy ((length : Int) - 8))

/-! ## The header -/

def header_fields (h : FileHeader) : List Bytes :=
  [be 4 h.magic.toNat, be 4 h.version.toNat, be 8 h.size_limit.toNat, be 8 h.end_time.toNat,
    be 8 h.first_msg_offset.toNat, be 4 h.interval_length.toNat, be 4 h.msgid_utilization.toNat,
    be 4 h.msgid_ioerr.toNat, be 4 h.msgid_blkiomon.toNat, be 4 h.msgid_zfcpdd.toNat]

def header_bytes (h : FileHeader) : Bytes := (header_fields h).flatten

def write_f_header (h : FileHeader) (f : File) : File := (f.seek 0).write (header_bytes h)

def position_at_first_msg (f : File) : File := f.seek HEADER_LEN

def header_widths : List Nat := [4, 4, 8, 8, 8, 4, 4, 4, 4, 4]

def parse_header : List Bytes → Option FileHeader
  | [magic, version, size_limit, end_time, first_msg_offset, interval_length, utilization, ioerr,
      blkiomon, zfcpdd] => some {
      magic := .ofNat (unbe magic)
      version := .ofNat (unbe version)
      size_limit := .ofNat (unbe size_limit)
      end_time := .ofNat (unbe end_time)
      first_msg_offset := .ofNat (unbe first_msg_offset)
      interval_length := .ofNat (unbe interval_length)
      msgid_utilization := .ofNat (unbe utilization)
      msgid_ioerr := .ofNat (unbe ioerr)
      msgid_blkiomon := .ofNat (unbe blkiomon)
      msgid_zfcpdd := .ofNat (unbe zfcpdd)
      begin_time := 0 }
  | _ => none

def get_header (f : File) : Option (FileHeader × File) :=
  match (f.seek 0).read HEADER_LEN with
  | (none, _) => none
  | (some d, f) =>
    match parse_header (Fields.split header_widths d) with
    | none => none
    | some h =>
      if h.magic ≠ DATA_MGR_MAGIC then none
      else if h.version ≠ DATA_MGR_V2 ∧ h.version ≠ DATA_MGR_V3 then none
      else some (h, f)

def init_file (h : FileHeader) (version : Int) : Option (File × FileHeader) :=
  match (if version = 2 then some DATA_MGR_V2 else if version = 3 then some DATA_MGR_V3 else none) with
  | none => none
  | some v =>
    let h := { h with magic := DATA_MGR_MAGIC, version := v, first_msg_offset := 0, end_time := 0, begin_time := 0 }
    some (write_f_header h ⟨[], 0⟩, h)

/-! ## Adding a message -/

/-- The size of the next message with its header, as an `int`. -/
def get_next_msg_size (f : File) : Option Int × File :=
  match f.read 4 with
  | (none, f) => (none, f)
  | (some length, f) => (some (i32 (i32 (unbe length) + 8)), f.seekBy (-4))

section
variable (h : FileHeader)

def aggregate_message (f : File) : Option (List Message) :=
  match read_message h.version h.msgid_blkiomon f with
  | (.ok (some msg), _) => some [msg]
  | (.ok none, _) => some []
  | _ => none

/-- The loop that collects the messages a new one of size `total` overwrites. -/
def make_room (total : Nat) : Nat → Int → File → List Message → Option (Int × File × List Message)
  | 0, _, _, _ => none
  | steps + 1, cum_size, f, del_msg =>
    if cum_size < total then
      match get_next_msg_size f with
      | (none, f) => some (total, f, del_msg)
      | (some next_msg_length, f) =>
        match aggregate_message h f with
        | none => none
        | some msgs =>
          make_room total steps (cum_size + next_msg_length) (f.seekBy next_msg_length) (del_msg ++ msgs)
    else some (cum_size, f, del_msg)

def garbage_size (total : Nat) (cum_size : Int) (f : File) (del_msg : List Message) : Option (Int × List Message) :=
  if cum_size - total > 0 ∧ cum_size - total < 8 then
    match get_next_msg_size f with
    | (none, _) => some (i32 (cum_size + 8 - total), del_msg)
    | (some next_msg_length, f) =>
      match aggregate_message h f with
      | none => none
      | some msgs => some (i32 (cum_size + next_msg_length - total), del_msg ++ msgs)
  else some (i32 (cum_size - total), del_msg)

def overwrite (total : Nat) (f : File) (del_msg : List Message) : Option (Int × File × List Message) :=
  match make_room h total (f.content.length + 1) 0 f del_msg with
  | none => none
  | some (cum_size, f', del_msg) =>
    match garbage_size h total cum_size f' del_msg with
    | none => none
    | some (rc, del_msg) => some (rc, f, del_msg)

def wrap_around (total : Nat) (f : File) : Option (File × List Message) :=
  if f.pos + total > h.size_limit.toNat then
    match get_next_msg_size f with
    | (none, _) => none
    | (some next_msg_length, f) =>
      match aggregate_message h f with
      | none => none
      | some msgs => some (position_at_first_msg (write_garbage_message next_msg_length f), msgs)
  else some (f, [])

def position_in_file (msg : Message) (f : File) : Option (Int × File × List Message) :=
  let total := get_total_msg_size msg
  match get_next_msg_size f with
  | (none, f) =>
    if f.pos + total > h.size_limit.toNat then
      match wrap_around h total (position_at_first_msg f) with
      | none => none
      | some (f, del_msg) => overwrite h total f del_msg
    else some (0, f, [])
  | (some _, f) =>
    match wrap_around h total f with
    | none => none
    | some (f, del_msg) => overwrite h total f del_msg

def add_msg (msg : Message) (f : File) : Option (File × FileHeader × List Message) :=
  let old_pos := f.pos
  match position_in_file h msg f with
  | none => none
  | some (add_garbage, f, del_msg) =>
    if add_garbage < 0 then none
    else
      match write_message msg f with
      | none => none
      | some f =>
        let cur_pos := f.pos
        let f := if add_garbage > 0 then (write_garbage_message add_garbage f).seek cur_pos else f
        let h := { h with
          end_time := .ofNat (unbe (msg.data.take 8))
          first_msg_offset :=
            if h.first_msg_offset ≠ 0 ∨ cur_pos < old_pos then .ofNat cur_pos else h.first_msg_offset }
        some ((write_f_header h f).seek cur_pos, h, del_msg)

end

/-! ## Reading the log -/

/-- An open log file; `wrapped` is the static variable of that name. -/
structure Reader where
  file : File
  wrapped : Bool

def seek_initial_file_pos (f_hdr : FileHeader) (f : File) : Reader :=
  if f_hdr.first_msg_offset ≠ 0 then ⟨f.seek f_hdr.first_msg_offset.toNat, false⟩ else ⟨f.seek HEADER_LEN, true⟩

section
variable {α : Type} (read : File → Rc (Option α) × File) (f_hdr : FileHeader)

/-- The loop of `get_next_msg` and `get_next_msg_preview`, with at most the given number of entries to skip. -/
def next_entry : Nat → Reader → Rc α × Reader
  | 0, r => (.error, r)
  | steps + 1, ⟨f, wrapped⟩ =>
    if f_hdr.first_msg_offset ≠ 0 ∧ wrapped ∧ f.pos ≥ f_hdr.first_msg_offset.toNat then (.eof, ⟨f, wrapped⟩)
    else
      match read f with
      | (.ok (some x), f) => (.ok x, ⟨f, wrapped⟩)
      | (.ok none, f) => next_entry steps ⟨f, wrapped⟩
      | (.error, f) => (.error, ⟨f, wrapped⟩)
      | (.eof, f) =>
        if wrapped then (.eof, ⟨f, wrapped⟩)
        else
          match read (position_at_first_msg f) with
          | (.ok (some x), f) => (.ok x, ⟨f, true⟩)
          | (.ok none, f) => next_entry steps ⟨f, true⟩
          | (.error, f) => (.error, ⟨f, true⟩)
          | (.eof, f) => (.eof, ⟨f, true⟩)

end

def get_next_msg (f_hdr : FileHeader) (steps : Nat) (r : Reader) : Rc Message × Reader :=
  next_entry (read_message f_hdr.version f_hdr.msgid_blkiomon) f_hdr steps r

def get_next_msg_preview (f_hdr : FileHeader) (steps : Nat) (r : Reader) : Rc MessagePreview × Reader :=
  next_entry (read_message_preview f_hdr) f_hdr steps r

def rewind_to (msg : MessagePreview) (r : Reader) : Reader := { r with file := r.file.seek msg.pos }

def open_log_file (steps : Nat) (content : Bytes) : Rc (FileHeader × Reader) :=
  match get_header ⟨content, 0⟩ with
  | none => .error
  | some (h, f) =>
    match get_next_msg_preview h steps (seek_initial_file_pos h f) with
    | (.ok prev, r) => .ok ({ h with begin_time := prev.timestamp }, rewind_to prev r)
    | (.eof, _) => .eof
    | (.error, _) => .error

def deliver (f_hdr : FileHeader) (steps : Nat) : Nat → Reader → Option (List Message)
  | 0, _ => none
  | n + 1, r =>
    match get_next_msg f_hdr steps r with
    | (.ok msg, r) => (deliver f_hdr steps n r).map (msg :: ·)
    | (.eof, _) => some []
    | (.error, _) => none

def logged (steps : Nat) (content : Bytes) : Option (List Message) :=
  match open_log_file steps content with
  | .ok (h, r) => deliver h steps steps r
  | .eof => some []
  | .error => none

end Ziomon
