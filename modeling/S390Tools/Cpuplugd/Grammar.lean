import S390Tools.Cpuplugd.Parsing

/-!
# The grammar of rules

An expression is a text with its structure: unary operators bind more tightly than
binary ones, binary operators of one level associate to the left. A variable stands
with the expression that its definition spells. The parser hands the rest of an
operand to a unary operator, so that its tree has the leading unary operators of an
expression above the binary ones.
-/

namespace Cpuplugd

open CString Vtoc Fuel

/-! ## Expressions -/

/-- `num` is the text of a constant, an index the digits between brackets. -/
inductive Expr
  | num (text : List UInt8)
  | sym (op : Symop) (proc_name : List UInt8) (index : Option (List UInt8))
  | var (name : List UInt8) (value : Expr)
  | paren (e : Expr)
  | neg (e : Expr)
  | not (e : Expr)
  | bin (op : Binop) (left right : Expr)

def sym_text : Symop → List UInt8
  | .LOADAVG => bytes "loadavg"
  | .RUNABLE => bytes "runnable_proc"
  | .CPUS => bytes "onumcpus"
  | .USER => bytes "user"
  | .NICE => bytes "nice"
  | .SYSTEM => bytes "system"
  | .IDLE => bytes "idle"
  | .IOWAIT => bytes "iowait"
  | .IRQ => bytes "irq"
  | .SOFTIRQ => bytes "softirq"
  | .STEAL => bytes "steal"
  | .GUEST => bytes "guest"
  | .GUEST_NICE => bytes "guest_nice"
  | .APCR => bytes "apcr"
  | .SWAPRATE => bytes "swaprate"
  | .FREEMEM => bytes "freemem"
  | .MEMINFO => bytes "meminfo."
  | .VMSTAT => bytes "vmstat."
  | .CPUSTAT => bytes "cpustat."
  | .TIME => bytes "time"

def op_char : Binop → UInt8
  | .GREATER => 0x3e
  | .LESSER => 0x3c
  | .PLUS => 0x2b
  | .MINUS => 0x2d
  | .MULT => 0x2a
  | .DIV => 0x2f
  | .OR => 0x7c
  | .AND => 0x26

def index_text : Option (List UInt8) → List UInt8
  | none => []
  | some index => 0x5b :: index ++ [0x5d]

def Expr.textWith (name_text : List UInt8 → List UInt8) : Expr → List UInt8
  | .num c => c
  | .sym op proc_name index => sym_text op ++ proc_name ++ index_text index
  | .var name _ => name_text name
  | .paren e => 0x28 :: e.textWith name_text ++ [0x29]
  | .neg e => 0x2d :: e.textWith name_text
  | .not e => 0x21 :: e.textWith name_text
  | .bin op l r => l.textWith name_text ++ op_char op :: r.textWith name_text

def Expr.text (e : Expr) : List UInt8 := e.textWith id

def rank (op : Binop) : Nat := (op_prio_table op).ctorIdx

def Expr.level : Expr → Nat
  | .bin op _ _ => rank op
  | .neg _ | .not _ => 6
  | _ => 7

def Expr.endsEmpty : Expr → Bool
  | .var name _ => name = []
  | .neg e | .not e => e.endsEmpty
  | .bin _ _ r => r.endsEmpty
  | _ => false

def has_index (op : Symop) : Bool := has_proc_name op || op = .TIME

section
variable {D : Type} (scanf : Scanf D) (get : List UInt8 → Option (List UInt8))

/-- A text that starts with a digit and that `%lf` takes as a whole. -/
def Constant (c : List UInt8) : Prop := isdigit (char c) = true ∧ (scanf.lf c).2 = c.length

structure IsSymbol (op : Symop) (proc_name : List UInt8) (index : Option (List UInt8)) : Prop where
  plain : has_proc_name op = false → proc_name = []
  chars : ∀ c ∈ proc_name, (isalpha c || c == 0x5f) = true
  digits : ∀ ds, index = some ds → has_index op = true ∧ ds ≠ [] ∧ ∀ c ∈ ds, isdigit c = true
  visible : get ((sym_text op).takeWhile isname) = none

structure IsVariable (name value : List UInt8) : Prop where
  length : name.length ≤ MAX_VARNAME
  chars : ∀ c ∈ name, isname c = true
  first : isdigit (char name) = false
  value : ∃ rest, get name = some (value ++ 0x0a :: rest)

def Expr.Wf : Expr → Prop
  | .num c => Constant scanf c
  | .sym op proc_name index => IsSymbol get op proc_name index
  | .var name value => IsVariable get name value.text ∧ value.Wf
  | .paren e => e.Wf
  | .neg e | .not e => e.Wf ∧ 6 ≤ e.level
  | .bin op l r => l.Wf ∧ r.Wf ∧ rank op ≤ l.level ∧ rank op < r.level ∧ (op = .MINUS → l.endsEmpty = false)

end

/-! ## Trees -/

inductive Unary
  | neg | not
  deriving DecidableEq

section
variable {D : Type} (scanf : Scanf D)

def Unary.term : Unary → Term D → Term D
  | .neg => .neg
  | .not => .not

def wrap (us : List Unary) (t : Term D) : Term D := us.foldr Unary.term t

def stored (ds : List UInt8) : Nat := Word.u32 (min (digits ds) 9223372036854775807)

def symbol_term (op : Symop) (proc_name : List UInt8) (index : Option Nat) : Term D :=
  .symbol op (if has_proc_name op then some proc_name else none) index

def Expr.parts : Expr → List Unary × Term D
  | .num c => ([], .const (scanf.lf c).1)
  | .sym op proc_name index => ([], symbol_term op proc_name (index.map stored))
  | .var _ value => ([], wrap value.parts.1 value.parts.2)
  | .paren e => ([], wrap e.parts.1 e.parts.2)
  | .neg (.num c) => ([], .const (scanf.neg (scanf.lf c).1))
  | .neg e => (.neg :: e.parts.1, e.parts.2)
  | .not e => (.not :: e.parts.1, e.parts.2)
  | .bin op l r => (l.parts.1, .binary op l.parts.2 (wrap r.parts.1 r.parts.2))

def Expr.code (e : Expr) : Term D := wrap (e.parts scanf).1 (e.parts scanf).2

/-- `history_max` after the indices of the expression. -/
def Expr.history : Expr → Nat → Nat
  | .num _, h => h
  | .sym _ _ index, h => index.elim h fun ds => max h (stored ds)
  | .var _ value, h => value.history h
  | .paren e, h => e.history h
  | .neg e, h => e.history h
  | .not e, h => e.history h
  | .bin _ l r, h => r.history (l.history h)

end

end Cpuplugd
