import S390Tools.Cpuplugd.Terms

/-!
# The configuration file

The lines of a file are read in turn. A line names a rule, a limit or else a
variable; variables are collected in the text `varinfo`, one line each.
-/

namespace Cpuplugd

open CString Vtoc

/-! ## State -/

inductive TermField
  | hotplug | hotunplug | memplug | memunplug | cmm_inc | cmm_dec
  deriving DecidableEq

inductive ValueField
  | update | cpu_min | cpu_max | cmm_min | cmm_max
  deriving DecidableEq

/-- The members of `struct config`. -/
inductive Field
  | term (t : TermField)
  | value (v : ValueField)
  deriving DecidableEq

def Field.Val (D : Type) : Field → Type
  | .term _ => Option (Term D)
  | .value _ => Int

abbrev Config (D : Type) := (f : Field) → f.Val D

/-- `varinfo` is the string in the buffer; behind it there are null bytes only. -/
structure State (D : Type) where
  cfg : Config D
  varinfo : List UInt8
  history_max : Nat

def Field.symbol : Field → List UInt8
  | .term .hotplug => bytes "hotplug"
  | .term .hotunplug => bytes "hotunplug"
  | .term .memplug => bytes "memplug"
  | .term .memunplug => bytes "memunplug"
  | .term .cmm_inc => bytes "cmm_inc"
  | .term .cmm_dec => bytes "cmm_dec"
  | .value .update => bytes "update"
  | .value .cpu_min => bytes "cpu_min"
  | .value .cpu_max => bytes "cpu_max"
  | .value .cmm_min => bytes "cmm_min"
  | .value .cmm_max => bytes "cmm_max"

/-- The members in the order in which `parse_configline` tries them. -/
def fields : List Field :=
  [.term .hotplug, .term .hotunplug, .term .memplug, .term .memunplug, .term .cmm_inc, .term .cmm_dec,
   .value .update, .value .cpu_min, .value .cpu_max, .value .cmm_min, .value .cmm_max]

/-- `strncasecmp(name, symbol, strlen(symbol)) == 0`. -/
def names (symbol name : List UInt8) : Bool := (symbol.map tolower).isPrefixOf (name.map tolower)

def config_field (name : List UInt8) : Option Field := fields.find? fun f => names f.symbol name

def Config.initial {D : Type} : Config D
  | .term _ => (none : Option (Term D))
  | .value _ => (-1 : Int)

/-! ## Lines -/

def isblank (c : UInt8) : Bool := c == 0x20 || c == 0x09

/-- Remove the double quotes: `len` is the distance of the last quote from the first. -/
def unquote (rvalue : List UInt8) : Option (List UInt8) :=
  match rvalue.findIdx? (· == 0x22), rvalue.reverse.findIdx? (· == 0x22) with
  | some start, some back =>
    let stop := rvalue.length - 1 - back
    let len := stop - start
    if len > 0 then some ((rvalue.take len).drop 1) else none
  | _, _ => none

def split_configline (line : List UInt8) : Except Stop (Option (List UInt8 × List UInt8)) :=
  if char line = 0x23 then .ok none
  else
    let temp := line.filter fun c => !isblank c && !isspace c
    let name := temp.takeWhile (· != 0x3d)
    match temp.dropWhile (· != 0x3d) with
    | [] => .ok none
    | _ :: rvalue =>
      match unquote rvalue with
      | some rvalue => .ok (some (name, rvalue))
      | none => .error (.cpuplugd_exit
          (bytes "the configuration file has syntax errors at " ++ name ++ bytes ", position: " ++
            rvalue ++ [0x0a]))

def parse_positive_value (s : List UInt8) : Int :=
  if s.all isdigit then min (digits s : Int) 9223372036854775807 else -1

section
variable {D : Type} (scanf : Scanf D) (get_numcpus : Int)

def check_term (fuel : Nat) (t : TermField) (rvalue : List UInt8) (get : List UInt8 → Option (List UInt8)) :
    Parse (Option (Term D)) := do
  let fn ← parse_term scanf get fuel .NONE rvalue
  let rest := match fn with
    | none => rvalue
    | some (_, rest) => rest
  if rest ≠ [] then
    exit (bytes "parsing error at " ++ (Field.term t).symbol ++ bytes ", position: " ++ rest ++ [0x0a])
  pure (fn.map (·.1))

def check_limit (v : ValueField) (value : Int) : Parse Int :=
  match v with
  | .update => if value > 0 then pure value else exit (bytes "update must be > 0\n")
  | .cpu_min => if value > 0 then pure value else exit (bytes "cpu_min must be > 0\n")
  | .cpu_max => pure (if value = 0 then get_numcpus else value)
  | .cmm_min | .cmm_max => pure value

def check_value (v : ValueField) (rvalue : List UInt8) : Parse Int := do
  let value := parse_positive_value rvalue
  if value < 0 then exit (bytes "parsing error at update\n")
  check_limit get_numcpus v value

def check_field (fuel : Nat) (rvalue : List UInt8) (get : List UInt8 → Option (List UInt8)) :
    (f : Field) → Parse (f.Val D)
  | .term t => check_term scanf fuel t rvalue get
  | .value v => check_value get_numcpus v rvalue

def State.set (s : State D) (f : Field) (x : f.Val D) (history_max : Nat) : State D :=
  { s with cfg := Function.update s.cfg f x, history_max }

def entry (name rvalue : List UInt8) : List UInt8 := name ++ 0x3d :: rvalue ++ [0x0a]

def add_var (name rvalue : List UInt8) (s : State D) : Except Stop (State D) :=
  let size := s.varinfo.length + name.length + rvalue.length + 3
  if (get_var_rvalue s.varinfo name).isSome then
    .error (.cpuplugd_exit (bytes "Variable defined twice: " ++ name ++ [0x0a]))
  else if name ∈ sym_names.map (·.1) then
    .error (.cpuplugd_exit (bytes "Cannot use (pre-defined) variable name: " ++ name ++ [0x0a]))
  else if size > VARINFO_SIZE then
    .error (.cpuplugd_exit (bytes "buffer for variables too small: need " ++ decimal size ++ bytes ", have " ++
      decimal VARINFO_SIZE ++ bytes " (bytes)\n"))
  else .ok { s with varinfo := s.varinfo ++ entry name rvalue }

def parse_configline (fuel : Nat) (line : List UInt8) (s : State D) : Except Stop (State D) := do
  match ← split_configline line with
  | none => pure s
  | some (name, rvalue) =>
    match config_field name with
    | some f =>
      let (x, history_max) ← (check_field scanf get_numcpus fuel rvalue (get_var_rvalue s.varinfo)
        f).run s.history_max
      pure (s.set f x history_max)
    | none =>
      if name.length > MAX_VARNAME then
        .error (.cpuplugd_exit (bytes "Variable name too long (max. length is " ++ decimal MAX_VARNAME ++
          bytes " chars): " ++ name ++ [0x0a]))
      else add_var name rvalue s

/-! ## Files -/

/-- The strings that `fgets` reads one after the other into a buffer of `MAX_LINESIZE + 2` bytes. -/
def fgets : List UInt8 → List UInt8 → List (List UInt8)
  | [], [] => []
  | linebuffer, [] => [linebuffer]
  | linebuffer, c :: filp =>
    if c = 0x0a ∨ linebuffer.length = MAX_LINESIZE then (linebuffer ++ [c]) :: fgets [] filp
    else fgets (linebuffer ++ [c]) filp

def configfile_line (fuel : Nat) (s : State D) (linebuffer : List UInt8) : Except Stop (State D) :=
  if 0x0a ∈ str linebuffer then parse_configline scanf get_numcpus fuel (str linebuffer) s
  else .error (.cpuplugd_exit (bytes "Line is too long (max. length is " ++ decimal MAX_LINESIZE ++
    bytes " characters): " ++ str linebuffer ++ [0x0a]))

def parse_configfile (fuel : Nat) (file : List UInt8) (s : State D) : Except Stop (State D) :=
  (fgets [] file).foldlM (configfile_line scanf get_numcpus fuel) s

def check_history (s : State D) : Except Stop (State D) :=
  if s.history_max > MAX_HISTORY then
    .error (.cpuplugd_exit (bytes "History depth " ++ decimal s.history_max ++ bytes " exceeded maximum (" ++
      decimal MAX_HISTORY ++ bytes ")\n"))
  else .ok s

/-- The part of `main` that reads the configuration; the exits of `check_config` behind it are left out. -/
def main (fuel : Nat) (configfile : List UInt8) : Except Stop (State D) := do
  -- the text of the variables starts with a newline for `get_var_rvalue`
  let s : State D := { cfg := Config.initial, varinfo := [0x0a], history_max := 1 }
  check_history (← parse_configfile scanf get_numcpus fuel configfile s)

/-- A reload: the buffer is cleared to null bytes, `cfg` is left as it is. `check_config` is left
out as in `main`. -/
def reload_daemon (fuel : Nat) (configfile : List UInt8) (s : State D) : Except Stop (State D) := do
  let s : State D := { s with varinfo := [], history_max := 1 }
  check_history (← parse_configfile scanf get_numcpus fuel configfile s)

end

end Cpuplugd
