import Mathlib.Data.List.Basic

/-!
# Text helpers (zdev/src/misc.c)

A C string is the list of its characters, without the final NUL.
-/

namespace Zdev

abbrev Text := List Char

inductive Fault
  | bounds
  deriving DecidableEq

def isspace (c : Char) : Bool :=
  c = ' ' || c = '\t' || c = '\n' || c = '\x0b' || c = '\x0c' || c = '\r'

def isalnum (c : Char) : Bool :=
  ('0' ≤ c && c ≤ '9') || ('A' ≤ c && c ≤ 'Z') || ('a' ≤ c && c ≤ 'z')

def isdelim (c : Char) : Bool :=
  c = ' ' || c = '\t' || c = '\n'

/-- `strtok_r` over blanks, tabs and newlines. -/
def line_split (line : Text) : List Text :=
  (line.splitOnP isdelim).filter (· ≠ [])

/-- The pieces `strsep` returns, empty ones only on request. -/
def strlist_add_multi (list : List Text) (str : Text) (delim : Char) (allow_empty : Bool) : List Text :=
  list ++ (str.splitOn delim).filter fun curr => allow_empty || !curr.isEmpty

def strlist_find (list : List Text) (str : Text) : Bool :=
  list.contains str

end Zdev
