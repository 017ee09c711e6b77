import S390Tools.Lib.CString
import S390Tools.Lib.Lines
import S390Tools.Vtoc.Ebcdic

/-!
# The scanner for zipl.conf (zipl/src/scan.c)

The file buffer is the text behind the current position; where it is empty,
`misc_get_char` returns `EOF`. A string ends at its first null byte.
-/

namespace Zipl.Scan

open CString Lines Vtoc Word

/-! ## Tokens -/

/-- `enum scan_keyword_id`. -/
inductive Keyword
  | default | dumpto | dumptofs | image | parameters | parmfile | ramdisk | segment | target | prompt | timeout
  | defaultmenu | tape | mvdump | targetbase | targettype | targetgeometry | targetblocksize | targetoffset
  | defaultauto | kdump
  deriving DecidableEq

def keyword_list : List (List UInt8 × Keyword) := [
  (bytes "defaultmenu", .defaultmenu),
  (bytes "default", .default),
  (bytes "dumptofs", .dumptofs),
  (bytes "dumpto", .dumpto),
  (bytes "image", .image),
  (bytes "mvdump", .mvdump),
  (bytes "parameters", .parameters),
  (bytes "parmfile", .parmfile),
  (bytes "ramdisk", .ramdisk),
  (bytes "segment", .segment),
  (bytes "targetbase", .targetbase),
  (bytes "targettype", .targettype),
  (bytes "targetgeometry", .targetgeometry),
  (bytes "targetblocksize", .targetblocksize),
  (bytes "targetoffset", .targetoffset),
  (bytes "target", .target),
  (bytes "prompt", .prompt),
  (bytes "timeout", .timeout),
  (bytes "tape", .tape),
  (bytes "kdump", .kdump)]

def keyword_only_list : List (List UInt8 × Keyword) := [(bytes "defaultauto", .defaultauto)]

/-- `struct scan_token`; `empty` has the identifier 0. -/
inductive Token
  | empty
  | section_heading (line : Nat) (name : List UInt8)
  | menu_heading (line : Nat) (name : List UInt8)
  | keyword_assignment (line : Nat) (keyword : Keyword) (value : List UInt8)
  | number_assignment (line : Nat) (number : Int) (value : List UInt8)
  | keyword_only (line : Nat) (keyword : Keyword)
  deriving DecidableEq

/-- A message of `error_reason` behind `Line %d: `. -/
structure Reason where
  line : Nat
  text : List UInt8
  deriving DecidableEq

abbrev FileScan := Scanner Reason UInt8

def error_reason {α : Type} (line : Nat) (text : String) : FileScan α := throw ⟨line, bytes text⟩

/-! ## Characters -/

def isblank (c : UInt8) : Bool := c == 0x20 || c == 0x09

def ispunct (c : UInt8) : Bool := 0x21 ≤ c && c ≤ 0x7e && !isalnum c

def newline : UInt8 := 0x0a

def misc_get_char : FileScan (Option UInt8) := fun s => .ok (s.head?, s)

def advance (n : Nat) : FileScan Unit := fun s => .ok ((), s.drop n)

def skip_blanks : FileScan Bool := fun s => .ok (!(s.takeWhile isblank).isEmpty, s.dropWhile isblank)

def skip_line : FileScan Unit := fun s => .ok ((), (s.dropWhile (· != newline)).drop 1)

def skip_trailing_blanks : FileScan Bool := fun s => .ok (trailing s)
where
  trailing : List UInt8 → Bool × List UInt8
    | [] => (false, [])
    | c :: s => if c = newline then (false, s) else if isblank c then trailing s else (true, c :: s)

/-- The characters in front of the first that does not satisfy `p`. -/
def span (p : UInt8 → Bool) : FileScan (List UInt8) := fun s => .ok (s.takeWhile p, s.dropWhile p)

/-! ## Headings -/

def section_name (line : Nat) : FileScan (List UInt8)
  | [] => .error ⟨line, bytes "unterminated section heading"⟩
  | c :: s =>
    if c = 0x5d then .ok ([], c :: s)
    else if c = newline then .error ⟨line, bytes "unterminated section heading"⟩
    else if isalnum c || ispunct c then (section_name line s).map fun r => (c :: r.1, r.2)
    else .error ⟨line, bytes "invalid character in section name"⟩

def scan_section_heading (line : Nat) : FileScan Token := do
  let name ← section_name line
  if name = [] then error_reason line "empty section name"
  else
    advance 1
    if ← skip_trailing_blanks then error_reason line "unexpected characters after section name"
    else return .section_heading line name

def menu_name (line : Nat) : FileScan (List UInt8)
  | [] => .ok ([], [])
  | c :: s =>
    if c = newline || isblank c then .ok ([], c :: s)
    else if isalnum c then (menu_name line s).map fun r => (c :: r.1, r.2)
    else .error ⟨line, bytes "invalid character in menu name "⟩

def scan_menu_heading (line : Nat) : FileScan Token := do
  let name ← menu_name line
  if ← skip_trailing_blanks then error_reason line "blanks not allowed in menu name"
  else if name = [] then error_reason line "empty menu name"
  else return .menu_heading line name

/-! ## Assignments -/

def scan_digits (line : Nat) (old_number : Int) : FileScan Int
  | [] => .ok (old_number, [])
  | c :: s =>
    if isdigit c then
      let new_number := i32 (old_number * 10 + c.toNat - 0x30)
      if new_number < old_number then .error ⟨line, bytes "number too large"⟩ else scan_digits line new_number s
    else .ok (old_number, c :: s)

def scan_number (line : Nat) : FileScan Int := do
  let current ← misc_get_char
  let number ← scan_digits line 0
  if current.any isdigit then return number else error_reason line "number expected"

def strip_trailing (s : List UInt8) : List UInt8 :=
  if s.all isblank then s else (s.reverse.dropWhile isblank).reverse

def scan_value_string (line : Nat) : FileScan (List UInt8) := do
  let current ← misc_get_char
  if current = some 0x22 ∨ current = some 0x27 then
    advance 1
    let string ← span fun c => c != newline && some c != current
    if (← misc_get_char) = current then
      advance 1
      return str string
    else error_reason line "unterminated quotes"
  else
    let string ← span (· != newline)
    return str (strip_trailing string)

/-- What `=` and a value stand behind. -/
def scan_assignment (line : Nat) (unexpected : String) (token : List UInt8 → Token) : FileScan Token := do
  let _ ← skip_blanks
  if (← misc_get_char) = some 0x3d then
    advance 1
    let _ ← skip_blanks
    let value ← scan_value_string line
    if ← skip_trailing_blanks then error_reason line "unexpected characters at end of line"
    else return token value
  else error_reason line unexpected

def scan_number_assignment (line : Nat) : FileScan Token := do
  let number ← scan_number line
  scan_assignment line "number expected as keyword" (.number_assignment line number)

def scan_keyword_in (list : List (List UInt8 × Keyword)) (line : Nat) : FileScan Keyword := fun s =>
  match list.find? fun entry => entry.1.isPrefixOf s with
  | some entry => .ok (entry.2, s.drop entry.1.length)
  | none => .error ⟨line, bytes "unknown keyword"⟩

def scan_keyword (line : Nat) : FileScan Keyword := scan_keyword_in keyword_list line

def scan_keyword_assignment (line : Nat) : FileScan Token := do
  let keyword ← scan_keyword line
  scan_assignment line "unexpected characters after keyword" (.keyword_assignment line keyword)

def scan_keyword_only (line : Nat) : FileScan Keyword := scan_keyword_in keyword_only_list line

def scan_keyword_only_statement (line : Nat) : FileScan Token := do
  let keyword ← scan_keyword_only line
  if ← skip_trailing_blanks then error_reason line "unexpected characters at end of line"
  else return .keyword_only line keyword

def search_line_for (search : UInt8) : FileScan Bool := fun s =>
    .ok ((s.takeWhile (· != newline)).contains search, s)

/-! ## The file -/

def scan_line (line : Nat) : FileScan (Option Token) := do
  let _ ← skip_blanks
  let current ← misc_get_char
  if current = some 0x5b then
    advance 1
    some <$> scan_section_heading line
  else if current = some 0x3a then
    advance 1
    some <$> scan_menu_heading line
  else if current = some 0x23 then
    advance 1
    skip_line
    return none
  else if current = some newline then
    advance 1
    return none
  else if current = none then return none
  else if ← search_line_for 0x3d then
    if current.any isdigit then some <$> scan_number_assignment line else some <$> scan_keyword_assignment line
  else some <$> scan_keyword_only_statement line

def INITIAL_ARRAY_LENGTH : Nat := 40

/-- The array of tokens, whose length is `size`. -/
structure State where
  array : List Token
  pos : Nat
  line : Nat
  deriving DecidableEq

namespace State

def initial : State := { array := List.replicate INITIAL_ARRAY_LENGTH .empty, pos := 0, line := 1 }

def store (st : State) (token : Token) : State :=
  { st with array := st.array.set st.pos token, pos := st.pos + 1 }

def enlarge (st : State) : State :=
  if st.pos + 1 ≥ st.array.length then
    { st with array := st.array.take st.pos ++ List.replicate (st.array.length * 2 - st.pos) .empty }
  else st

def next (st : State) (token : Option Token) : State :=
  let st := (token.map st.store).getD st
  { st with line := st.line + 1 }.enlarge

end State

def scan_step (st : State) : FileScan State := do
  let token ← scan_line st.line
  return st.next token

/-- `none` where `fuel` rounds are not enough. -/
def scan_file (fuel : Nat) (buffer : List UInt8) : Option (Except Reason (List Token)) :=
  (loop scan_step fuel State.initial buffer).map fun r => r.map State.array

end Zipl.Scan
