import S390Tools.Lib.CString
import S390Tools.Vtoc.Ebcdic

/-!
# Rules of the hotplug daemon

A rule is parsed by recursive descent over a character string; names of variables
are looked up in the text that the configuration file left behind, and the value of
a variable is parsed where its name stands. `scanf` of a floating point number is a
parameter, the recursion is bounded by fuel: a variable may name itself.
-/

namespace Cpuplugd

open CString Vtoc

def MAX_HISTORY : Nat := 100
def VARINFO_SIZE : Nat := 4096
def MAX_VARNAME : Nat := 128
def MAX_LINESIZE : Nat := 2048

inductive Stop
  | cpuplugd_exit (message : List UInt8)
  | fuel
  deriving DecidableEq

inductive OpPrio
  | NONE | OR | AND | CMP | ADD | MULT
  deriving DecidableEq

inductive Symop
  | LOADAVG | RUNABLE | CPUS | USER | NICE | SYSTEM | IDLE | IOWAIT | IRQ | SOFTIRQ | STEAL | GUEST | GUEST_NICE
  | APCR | SWAPRATE | FREEMEM | MEMINFO | VMSTAT | CPUSTAT | TIME
  deriving DecidableEq

inductive Binop
  | AND | OR | GREATER | LESSER | PLUS | MINUS | MULT | DIV
  deriving DecidableEq

/-- A term; `D` are the values of the type `double`. An index that the text does not give is not stored. -/
inductive Term (D : Type)
  | symbol (op : Symop) (proc_name : Option (List UInt8)) (index : Option Nat)
  | const (value : D)
  | neg (left : Term D)
  | not (left : Term D)
  | binary (op : Binop) (left right : Term D)
  deriving DecidableEq

def sym_names : List (List UInt8 × Symop) :=
  [(bytes "loadavg", .LOADAVG), (bytes "runnable_proc", .RUNABLE), (bytes "onumcpus", .CPUS), (bytes "user", .USER),
   (bytes "nice", .NICE), (bytes "system", .SYSTEM), (bytes "idle", .IDLE), (bytes "iowait", .IOWAIT),
   (bytes "irq", .IRQ), (bytes "softirq", .SOFTIRQ), (bytes "steal", .STEAL), (bytes "guest_nice", .GUEST_NICE),
   (bytes "guest", .GUEST), (bytes "swaprate", .SWAPRATE), (bytes "apcr", .APCR), (bytes "freemem", .FREEMEM),
   (bytes "meminfo.", .MEMINFO), (bytes "vmstat.", .VMSTAT), (bytes "cpustat.", .CPUSTAT), (bytes "time", .TIME)]

def op_prio_table : Binop → OpPrio
  | .GREATER | .LESSER => .CMP
  | .PLUS | .MINUS => .ADD
  | .MULT | .DIV => .MULT
  | .AND => .AND
  | .OR => .OR

def binop (c : UInt8) : Option Binop :=
  if c = 0x3e then some .GREATER
  else if c = 0x3c then some .LESSER
  else if c = 0x2b then some .PLUS
  else if c = 0x2d then some .MINUS
  else if c = 0x2a then some .MULT
  else if c = 0x2f then some .DIV
  else if c = 0x7c then some .OR
  else if c = 0x26 then some .AND
  else none

def decimal (n : Nat) : List UInt8 := bytes (toString n)

def char (s : List UInt8) : UInt8 := s.headD 0

/-- The definition that starts a line of the text `varinfo`: what follows its name and `=`. -/
def get_var_rvalue (varinfo var_name : List UInt8) : Option (List UInt8) :=
  let tmp_name := 0x0a :: var_name.take (MAX_VARNAME + 1) ++ [0x3d]
  (find tmp_name varinfo).map fun i => varinfo.drop (i + tmp_name.length)

/-- What the C library makes of `"%lf%n"` at a digit, and the negation of a `double`. -/
structure Scanf (D : Type) where
  lf : List UInt8 → D × Nat
  neg : D → D

/-- Parsing changes `history_max` and may end the daemon. -/
abbrev Parse := StateT Nat (Except Stop)

def exit {α : Type} (message : List UInt8) : Parse α := throw (.cpuplugd_exit message)

/-! ## Terms -/

section
variable {D : Type} (scanf : Scanf D) (get : List UInt8 → Option (List UInt8))

/-- The parser for what follows: a term and the rest of the text, or a null pointer. -/
abbrev TermParser (D : Type) := OpPrio → List UInt8 → Parse (Option (Term D × List UInt8))

def parse_var_term (parse_term : TermParser D) (p : List UInt8) : Parse (Option (Term D) × List UInt8) := do
  let var_name := p.takeWhile fun c => isalnum c || c == 0x5f
  if var_name.length > MAX_VARNAME then
    exit (bytes "Variable name too long (max. length is " ++ decimal MAX_VARNAME ++
      bytes " chars): " ++ p ++ [0x0a])
  match get var_name with
  | none => pure (none, p)
  | some var_rvalue =>
    let (fn, var_rvalue) :=
      match ← parse_term .NONE var_rvalue with
      | none => (none, var_rvalue)
      | some (fn, rest) => (some fn, rest)
    if char var_rvalue ≠ 0x0a then
      exit (bytes "parsing error at " ++ var_name ++ bytes ", position: " ++ var_rvalue ++ [0x0a])
    pure (fn, p.drop var_name.length)

def has_proc_name (op : Symop) : Bool := op = .MEMINFO || op = .VMSTAT || op = .CPUSTAT

def parse_symbol (s : List UInt8) : Parse (Option (Term D × List UInt8)) := do
  match sym_names.find? fun name => name.1.isPrefixOf s with
  | none => pure none
  | some (name, op) =>
    let s := s.drop name.length
    let proc_name := if has_proc_name op then some (s.takeWhile fun c => isalpha c || c == 0x5f) else none
    let s := s.drop (proc_name.getD []).length
    if (has_proc_name op || op = .TIME) && char s = 0x5b then
      let s := s.tail
      if !isdigit (char s) then return none
      let index := Word.u32 (min (digits s) 9223372036854775807)
      let s := s.dropWhile isdigit
      if char s ≠ 0x5d then return none
      modify fun history_max => max history_max index
      pure (some (.symbol op proc_name (some index), s.tail))
    else
      pure (some (.symbol op proc_name none, s))

def parse_const (s : List UInt8) : D × List UInt8 := ((scanf.lf s).1, s.drop (scanf.lf s).2)

def parse_operand (parse_term : TermParser D) (prio : OpPrio) (s : List UInt8) :
    Parse (Option (Term D × List UInt8)) := do
  if char s = 0x2d then
    if isdigit (char s.tail) then
      let (value, s) := parse_const scanf s.tail
      pure (some (.const (scanf.neg value), s))
    else
      pure ((← parse_term prio s.tail).map fun (left, s) => (.neg left, s))
  else if char s = 0x21 then
    pure ((← parse_term prio s.tail).map fun (left, s) => (.not left, s))
  else if isdigit (char s) then
    let (value, s) := parse_const scanf s
    pure (some (.const value, s))
  else if char s = 0x28 then
    match ← parse_term .NONE s.tail with
    | none => pure none
    | some (fn, s) => if char s ≠ 0x29 then pure none else pure (some (fn, s.tail))
  else
    match ← parse_var_term get parse_term s with
    | (some fn, s) => pure (some (fn, s))
    | (none, s) => parse_symbol s

/-- The loop over the operators that bind more tightly than `prio`. -/
def parse_operators (parse_term : TermParser D) (prio : OpPrio) : Nat → Term D → List UInt8 →
    Parse (Option (Term D × List UInt8))
  | 0, _, _ => throw .fuel
  | n + 1, fn, s =>
    match binop (char s) with
    | none => pure (some (fn, s))
    | some op =>
      if (op_prio_table op).ctorIdx ≤ prio.ctorIdx then pure (some (fn, s))
      else do
        match ← parse_term (op_prio_table op) s.tail with
        | none => pure none
        | some (right, s) => parse_operators parse_term prio n (.binary op fn right) s

def parse_term : Nat → TermParser D
  | 0, _, _ => throw .fuel
  | fuel + 1, prio, s => do
    match ← parse_operand scanf get (parse_term fuel) prio s with
    | none => pure none
    | some (fn, s) => parse_operators (parse_term fuel) prio fuel fn s

end

end Cpuplugd
