import S390Tools.Lib.Stdio
import S390Tools.Lib.Word

/-!
# Raw tracks (libzds/libzds.c)

A raw track image holds the records one behind the other, each with its count
field, key and data, and the pseudo record `ENDTOKEN` behind the last one. A read
outside the buffer stops the model.
-/

namespace Libzds

open Stdio

inductive Errno
  | ENOENT
  | EINVAL
  | ERANGE
  | EPROTO
  deriving DecidableEq

inductive Stop
  | error (rc : Errno)
  | outside
  | endless
  deriving DecidableEq

/-- The bytes of the memory from the start of a buffer on. -/
abbrev Mem := Nat → UInt8

def RAWTRACKSIZE : Nat := 65536
def ENDTOKEN : Nat := 18446744073709551615

def bytes (m : Mem) (o n : Nat) : Bytes := (List.range n).map fun i => m (o + i)

/-- The number in the `n` bytes at `o`. -/
def word (m : Mem) (o n : Nat) : Nat := unbe (bytes m o n)

/-- An access to `n` bytes of a buffer of `size` bytes. -/
def access (size o n : Nat) : Except Stop Unit := if o + n ≤ size then .ok () else .error .outside

/-! ## Records -/

def sizeofCount : Nat := 8

def kl (m : Mem) (record : Nat) : Nat := word m (record + 5) 1
def dl (m : Mem) (record : Nat) : Nat := word m (record + 6) 2

def record_end (m : Mem) (record : Nat) : Nat := record + (sizeofCount + kl m record + dl m record)

@[grind =] def next_record (m : Mem) (size : Nat) : Nat → Nat → Except Stop (Option Nat)
  | 0, _ => .error .endless
  | steps + 1, data =>
    if size ≤ data then .ok none
    else do
      access size data 8
      if word m data 8 = ENDTOKEN then next_record m size steps (data / RAWTRACKSIZE * RAWTRACKSIZE + RAWTRACKSIZE)
      else .ok (some data)

/-- The record behind `record`, or the first one; `none` at the end of the buffer. -/
def buffer_get_next_record (m : Mem) (size : Nat) : Option Nat → Except Stop (Option Nat)
  | none => .ok (some 0)
  | some record => do
    access size (record + 5) 3
    next_record m size (size + 1) (record_end m record)

section
variable {m : Mem} {size : Nat}

@[simp] theorem length_bytes (o n : Nat) : (bytes m o n).length = n := by
  rw [bytes, List.length_map, List.length_range]

theorem access_ok {o n : Nat} (h : o + n ≤ size) : access size o n = .ok () := if_pos h

theorem access_outside {o n : Nat} (h : size < o + n) : access size o n = .error .outside :=
  if_neg (Nat.not_le_of_lt h)

theorem access_eq_ok {o n : Nat} {u : Unit} (h : access size o n = .ok u) : o + n ≤ size := by
  rw [access] at h
  split at h
  · assumption
  · cases h

end

end Libzds
