import Mathlib.Data.List.Basic

/-!
# Punching and printing files (vmur/vmur.cpp)

`ur_write` reads a file or a pipe in portions of at most 511 records and writes
each portion to the device. A text or blocked file is read byte by byte, one
record for each line.
-/

namespace Vmur

abbrev Bytes := List UInt8

def VMUR_REC_COUNT : Nat := 511

/-- What the input supplies, divided as `read` finds it: a pipe may give less than it is asked for. -/
abbrev Stream := List Bytes

def read (len : Nat) : Stream → Bytes × Stream
  | [] => ([], [])
  | c :: s => if c.length ≤ len then (c, s) else (c.take len, c.drop len :: s)

/-- The fields of `struct vmur` that say how a file is written. -/
structure Info where
  ur_reclen : Nat
  text_specified : Bool
  blocked_specified : Bool
  blocked_separator : UInt8
  blocked_padding : UInt8
  /-- The code page conversion of a whole buffer; it may fail. -/
  iconv : Bytes → Option Bytes

/-! ## Lines -/

/-- The result of `read_line`: a line, `-ENODATA` or `-EINVAL`. -/
inductive Line
  | found (line : Bytes)
  | nodata
  | inval

def Line.cons (b : UInt8) : Line → Line
  | found line => found (b :: line)
  | nodata => nodata
  | inval => inval

def read_line (lf : UInt8) : Nat → Stream → Line × Stream
  | 0, s => (.inval, s)
  | len + 1, s =>
    match read 1 s with
    | ([], s) => (.nodata, s)
    | (b :: _, s) =>
      if b = lf then (.found [], s)
      else
        match read_line lf len s with
        | (line, s) => (line.cons b, s)

/-- The loop of `read_text_file` and `read_blocked_file` for at most `count` records. -/
def read_records (sep : UInt8) (record : Bytes → Option Bytes) (reclen : Nat) : Nat → Stream →
    Option (Bytes × Stream)
  | 0, s => some ([], s)
  | count + 1, s =>
    match read_line sep (reclen + 1) s with
    | (.nodata, s) => some ([], s)
    | (.inval, _) => none
    | (.found line, s) =>
      match record line with
      | none => none
      | some rec =>
        match read_records sep record reclen count s with
        | none => none
        | some (out, s) => some (rec ++ out, s)

section
variable (info : Info)

def pad_line (pad : UInt8) (line : Bytes) : Bytes :=
  line ++ List.replicate (info.ur_reclen - line.length) pad

def text_record (line : Bytes) : Option Bytes :=
  match info.iconv (pad_line info 0x20 line) with
  | none => none
  | some out => if out.length = info.ur_reclen then some out else none

def blocked_record (line : Bytes) : Option Bytes :=
  some (pad_line info info.blocked_padding line)

def read_text_file (s : Stream) : Option (Bytes × Stream) :=
  read_records 0x0a (text_record info) info.ur_reclen VMUR_REC_COUNT s

def read_blocked_file (s : Stream) : Option (Bytes × Stream) :=
  read_records info.blocked_separator (blocked_record info) info.ur_reclen VMUR_REC_COUNT s

def read_input_file (s : Stream) : Option (Bytes × Stream) :=
  if info.text_specified then read_text_file info s
  else if info.blocked_specified then read_blocked_file info s
  else some (read (info.ur_reclen * VMUR_REC_COUNT) s)

/-! ## The device -/

/-- The data sent to the device; after a failure the device is closed with `PURGE`. -/
inductive Outcome
  | sent (data : Bytes)
  | failed
  | running
  deriving DecidableEq

def Outcome.cons (d : Bytes) : Outcome → Outcome
  | sent data => sent (d ++ data)
  | failed => failed
  | running => running

def residual (reclen count : Nat) : Nat :=
  (reclen - count % reclen) % reclen

def ur_write : Nat → Stream → Outcome
  | 0, _ => .running
  | portions + 1, s =>
    match read_input_file info s with
    | none => .failed
    | some ([], _) => .sent []
    | some (b :: d, s) =>
      (ur_write portions s).cons (b :: d ++ List.replicate (residual info.ur_reclen (b :: d).length) 0)

end

/-! ## What `read` leaves -/

/-- No portion is empty: only the end of the input reads as nothing. -/
def Ready (s : Stream) : Prop := ∀ c ∈ s, c ≠ []

theorem read_ready {len : Nat} {s : Stream} (h : Ready s) : Ready (read len s).2 := by
  cases s with
  | nil => exact h
  | cons c s =>
    rw [read]
    split
    · exact fun d hd => h d (List.mem_cons_of_mem c hd)
    · rename_i hlen
      intro d hd
      rcases List.mem_cons.mp hd with rfl | hd
      · exact fun hnil => hlen (List.drop_eq_nil_iff.mp hnil)
      · exact h d (List.mem_cons_of_mem c hd)

theorem read_one {s : Stream} (h : Ready s) : match s.flatten with
    | [] => read 1 s = ([], [])
    | b :: l => (read 1 s).1 = [b] ∧ (read 1 s).2.flatten = l := by
  cases s with
  | nil => rfl
  | cons c s =>
    cases c with
    | nil => exact absurd rfl (h [] List.mem_cons_self)
    | cons b c =>
      rw [List.flatten_cons, List.cons_append]
      cases c with
      | nil => exact ⟨rfl, rfl⟩
      | cons b' c => exact ⟨rfl, rfl⟩

end Vmur
