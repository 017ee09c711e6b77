import S390Tools.Zdev.Misc

/-!
# Udev rule files (zdev/src/udev.c)

A file is a text without NUL. A line that cannot be parsed is left out.
-/

namespace Zdev

structure UdevEntry where
  key : Text
  op : Text
  value : Text
  deriving DecidableEq

structure UdevLine where
  line : Text
  entries : List UdevEntry
  deriving DecidableEq

def skip_whitespace (s : Text) : Text := s.dropWhile isspace

def isword (c : Char) : Bool := isalnum c || c = '_'

/-- A key that starts with the word `w`, and what follows it. -/
def key_end (w r : Text) : Text × Text :=
  if r.head? = some '{' then
    match r.dropWhile (· ≠ '}') with
    | [] => (w ++ r, [])
    | c :: rest => (w ++ r.takeWhile (· ≠ '}') ++ [c], rest)
  else (w, r)

def parse_key (s : Text) : Option (Text × Text) :=
  let k := key_end (s.takeWhile isword) (s.dropWhile isword)
  if k.1 = [] then none else some k

def ops : List Text := [['=', '='], ['!', '='], ['='], ['+', '='], [':', '=']]

def parse_op (s : Text) : Option (Text × Text) :=
  (ops.find? (·.isPrefixOf s)).map fun op => (op, s.drop op.length)

def strip_end (s : Text) : Text := (s.reverse.dropWhile isspace).reverse

def parse_value (s : Text) : Except Fault Text :=
  let v := strip_end (skip_whitespace s)
  if (v.head? = some '"' ∧ v.getLast? = some '"') ∨ (v.head? = some '\'' ∧ v.getLast? = some '\'') then
    if v.length = 1 then .error .bounds else .ok (v.drop 1).dropLast
  else .ok v

def parse_udev_entry (entry : Text) : Except Fault (Option UdevEntry) :=
  match parse_key (skip_whitespace entry) with
  | none => .ok none
  | some (key, rest) =>
    match parse_op (skip_whitespace rest) with
    | none => .ok none
    | some (op, rest) => do
      let value ← parse_value (skip_whitespace rest)
      return some ⟨key, op, value⟩

/-- `replace_unquoted`, inside the quotes that started with `quoted`, if any. -/
@[grind =] def replace_unquoted (source target : Char) : Option Char → Text → Text
  | _, [] => []
  | some q, c :: s => c :: replace_unquoted source target (if c = q then none else some q) s
  | none, c :: s =>
    if c = '"' ∨ c = '\'' then c :: replace_unquoted source target (some c) s
    else (if c = source then target else c) :: replace_unquoted source target none s

def parse_entries : List Text → Except Fault (Option (List UdevEntry))
  | [] => .ok (some [])
  | curr :: next => do
    match ← parse_udev_entry curr with
    | none => return none
    | some e => return (← parse_entries next).map (e :: ·)

def parse_udev_line (line : Text) : Except Fault (Option UdevLine) :=
  match (skip_whitespace line).head? with
  | none => .ok (some ⟨line, []⟩)
  | some c =>
    if c = '#' then .ok (some ⟨line, []⟩)
    else do
      let entries ← parse_entries ((replace_unquoted ',' '\x01' none line).splitOn '\x01')
      return entries.map fun es => ⟨line, es⟩

def udev_read_file (text : Text) : Except Fault (List UdevLine) := do
  let lines ← (text.splitOn '\n').mapM parse_udev_line
  return lines.filterMap id

end Zdev
