import S390Tools.Ziomon.Entries

/-!
# Frames of a log file (ziomon/ziorep_framer.cpp, ziorep_filters.cpp)

A report takes the messages of a log frame by frame. `get_next_frameset` reads up
to the first message behind the frame and sets the reader back in front of it. A
frameset is kept here as the data that is added to it, in this order.
-/

namespace Ziomon

open Stdio Word

/-! ## Filters -/

/-- `struct hctl_ident`. -/
structure HctlIdent where
  host : Nat
  channel : Nat
  target : Nat
  lun : Nat
  deriving DecidableEq

def compare_hctl_idents (src tgt : HctlIdent) : Int :=
  if src.host = tgt.host then
    if src.channel = tgt.channel then
      if src.target = tgt.target then i32 (src.lun - tgt.lun) else i32 (src.target - tgt.target)
    else i32 (src.channel - tgt.channel)
  else i32 (src.host - tgt.host)

structure DeviceFilter where
  m_devices : List Nat
  m_host_ids : List Nat
  m_idents : List HctlIdent

def is_eligible_mm (f : DeviceFilter) (mm : Nat) : Bool := (f.m_devices.takeWhile (· ≤ mm)).contains mm

def is_eligible_host_id (f : DeviceFilter) (host : Nat) : Bool := (f.m_host_ids.takeWhile (· ≤ host)).contains host

def search_ident (ident : HctlIdent) : List HctlIdent → Bool
  | [] => false
  | i :: is =>
    if compare_hctl_idents ident i = 0 then true
    else if compare_hctl_idents ident i < 0 then false
    else search_ident ident is

def is_eligible_ident (f : DeviceFilter) (ident : HctlIdent) : Bool := search_ident ident f.m_idents

inductive MsgTypes
  | utilization
  | ioerr
  | blkiomon
  | zfcpdd
  deriving DecidableEq

def msgid (h : FileHeader) : MsgTypes → UInt32
  | .utilization => h.msgid_utilization
  | .ioerr => h.msgid_ioerr
  | .blkiomon => h.msgid_blkiomon
  | .zfcpdd => h.msgid_zfcpdd

/-- `MsgTypeFilter::is_eligible`; a filter that is not set takes all types. -/
def type_eligible (m_type_filter : Option (List UInt32)) (type : UInt32) : Bool :=
  match m_type_filter with
  | none => true
  | some types => types.contains type

def time_eligible (m_begin m_end timestamp : Nat) : Bool := m_begin ≤ timestamp && timestamp ≤ m_end

/-! ## Framesets -/

/-- What is added to a frameset: `struct adapter_utilization`, `ioerr_cnt`, `blkiomon_stat` or `zfcpdd_dstat`. -/
inductive Datum
  | utilization (res : Bytes)
  | ioerr (cnt : Bytes)
  | blkiomon (stat : Bytes)
  | zfcpdd (stat : Bytes)
  deriving DecidableEq

structure Frameset where
  m_start_time : Nat
  m_end_time : Nat
  m_timestamp : Nat
  data : List Datum

def field (d : Bytes) (off n : Nat) : Nat := unbe ((d.drop off).take n)

def adapter_utilization_len : Nat := 130
def ioerr_cnt_len : Nat := 20

def adapter_no (res : Bytes) : Nat := field res 124 4

def identifier (cnt : Bytes) : HctlIdent := ⟨field cnt 0 4, field cnt 4 4, field cnt 8 4, field cnt 12 4⟩

def blkiomon_device (stat : Bytes) : Nat := field stat stat_hist_len 4

def zfcpdd_device (stat : Bytes) : Nat := field stat (8 + 4 * 20 + 4 * 25 + 3 * 32 + 8) 4

def array_entry (d : Bytes) (off size i : Nat) : Bytes := (d.drop (off + i * size)).take size

def eligible (m_device_filter : Option DeviceFilter) (is_eligible : DeviceFilter → Bool) : Bool :=
  match m_device_filter with
  | none => true
  | some f => is_eligible f

section
variable (m_fhdr : FileHeader) (m_device_filter : Option DeviceFilter)

/-- The data that is added for a message, all types but the first three being `zfcpdd`. -/
def handle_msg (msg : Message) : List Datum :=
  if msg.type = m_fhdr.msgid_utilization then
    (((List.range (field msg.data 8 2)).map (array_entry msg.data 10 adapter_utilization_len)).filter fun a_res =>
      eligible m_device_filter (is_eligible_host_id · (adapter_no a_res))).map .utilization
  else if msg.type = m_fhdr.msgid_ioerr then
    (((List.range (field msg.data 8 8)).map (array_entry msg.data 16 ioerr_cnt_len)).filter fun cnt =>
      eligible m_device_filter (is_eligible_ident · (identifier cnt))).map .ioerr
  else if msg.type = m_fhdr.msgid_blkiomon then
    if eligible m_device_filter (is_eligible_mm · (blkiomon_device msg.data)) then [.blkiomon msg.data] else []
  else if eligible m_device_filter (is_eligible_mm · (zfcpdd_device msg.data)) then [.zfcpdd msg.data]
  else []

end

/-! ## The framer -/

/-- `m_begin` and `m_end` are numbers of 64 bits; there is no aggregated data. -/
structure Framer where
  m_begin : Nat
  m_end : Nat
  m_interval_length : UInt32
  m_type_filter : Option (List UInt32)
  m_device_filter : Option DeviceFilter
  m_fhdr : FileHeader
  reader : Reader

def new_framer (m_begin m_end : Nat) (interval_length : UInt32) (filter_types : Option (List MsgTypes))
    (devFilter : Option DeviceFilter) (steps : Nat) (content : Bytes) : Option Framer :=
  match open_log_file steps content with
  | .ok (m_fhdr, reader) => some {
      m_begin := m_begin
      m_end := m_end
      m_interval_length := interval_length
      m_type_filter := filter_types.map (·.map (msgid m_fhdr))
      m_device_filter := devFilter
      m_fhdr := m_fhdr
      reader := reader }
  | _ => none

def get_complete_msg (msg_prev : MessagePreview) (f : File) : Rc (Option Message) :=
  (read_message (if msg_prev.is_blkiomon_v2 then DATA_MGR_V2 else DATA_MGR_V3)
    msg_prev.type (f.seek msg_prev.pos)).1

/-- The loop of `get_next_frameset`: the return code, `msgs_read`, and the data added. -/
def read_msgs (fr : Framer) (steps begin_time end_time : Nat) :
    Nat → Nat → Reader → List Datum → Rc Unit × Nat × Reader × List Datum
  | 0, msgs_read, r, data => (.error, msgs_read, r, data)
  | n + 1, msgs_read, r, data =>
    match get_next_msg_preview fr.m_fhdr steps r with
    | (.error, r) => (.error, msgs_read, r, data)
    | (.eof, r) => (.eof, msgs_read, r, data)
    | (.ok msg_preview, r) =>
      if msg_preview.timestamp.toNat > end_time then (.ok (), msgs_read + 1, rewind_to msg_preview r, data)
      else if ¬time_eligible begin_time end_time msg_preview.timestamp.toNat then
        read_msgs fr steps begin_time end_time n (msgs_read + 1) r data
      else if ¬type_eligible fr.m_type_filter msg_preview.type then
        read_msgs fr steps begin_time end_time n (msgs_read + 1) r data
      else
        match get_complete_msg msg_preview r.file with
        | .ok (some msg) =>
          read_msgs fr steps begin_time end_time n (msgs_read + 1) r (data ++
            handle_msg fr.m_fhdr fr.m_device_filter msg)
        | _ => (.error, msgs_read + 1, r, data)

def shifted_begin (fr : Framer) : Nat := u64 ((fr.m_begin : Int) - (fr.m_fhdr.interval_length.toNat / 2 : Nat))

def shifted_end (fr : Framer) : Nat :=
  let shifted := u64 ((shifted_begin fr : Int) + fr.m_interval_length.toNat)
  if fr.m_interval_length = 0 ∨
    shifted > fr.m_end then u64 ((fr.m_end : Int) + (fr.m_fhdr.interval_length.toNat / 2 : Nat))
  else shifted

def get_next_frameset (steps : Nat) (fr : Framer) : Rc Frameset × Framer :=
  if fr.m_begin > fr.m_end then (.eof, fr)
  else
    match read_msgs fr steps (shifted_begin fr) (shifted_end fr) steps 0 fr.reader [] with
    | (.error, _, r, _) => (.error, { fr with reader := r })
    | (.eof, 0, r, _) => (.eof, { fr with reader := r })
    | (_, _, r, data) =>
      (.ok {
        m_start_time := shifted_begin fr
        m_end_time := shifted_end fr
        m_timestamp := u64 ((shifted_end fr : Int) - (fr.m_fhdr.interval_length.toNat / 2 : Nat))
        data := data },
      { fr with
        m_begin := if fr.m_interval_length = 0 then u64 ((fr.m_end : Int) + 1)
          else u64 ((fr.m_begin : Int) + fr.m_interval_length.toNat)
        reader := r })

@[grind =] def framesets (steps : Nat) : Nat → Framer → Option (List Frameset)
  | 0, _ => none
  | n + 1, fr =>
    match get_next_frameset steps fr with
    | (.ok fs, fr) => (framesets steps n fr).map (fs :: ·)
    | (.eof, _) => some []
    | (.error, _) => none

end Ziomon
