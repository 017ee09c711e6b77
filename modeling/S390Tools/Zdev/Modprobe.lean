import S390Tools.Zdev.Setting
import S390Tools.Lib.Run

/-!
# Module parameters in modprobe.conf files (zdev/src/modprobe.c)

A file is a text without NUL, `none` if it does not exist; opening, writing and
removing a file succeed. What the line buffer held before is a parameter.
-/

namespace Zdev.Modprobe

structure ModprobeLine where
  /-- the original text, none for a new line -/
  line : Option Text
  argv : List Text
  deriving DecidableEq

def remove_linecont : Text → Text
  | '\\' :: '\n' :: t => ' ' :: '\n' :: remove_linecont t
  | c :: t => c :: remove_linecont t
  | [] => []

def line_argv (line : Text) : List Text :=
  match (line.dropWhile isspace).head? with
  | none => [[]]
  | some c => if c = '#' then [['#']] else line_split (remove_linecont line)

def modprobe_line_new (line : Text) : ModprobeLine :=
  ⟨some line, line_argv line⟩

/-! ## Reading -/

def MODPROBE_MAX_LINE : Nat := 2048

/-- At most `n` characters, up to a newline, and what is left of the text. -/
def fgets : Nat → Text → Text × Text
  | _, [] => ([], [])
  | 0, t => ([], t)
  | n + 1, c :: t => if c = '\n' then ([c], t) else (c :: (fgets n t).1, (fgets n t).2)

def fgets_all : Nat → Text → List Text
  | 0, _ => []
  | fuel + 1, t => if t = [] then [] else (fgets (MODPROBE_MAX_LINE - 1) t).1 ::
      fgets_all fuel (fgets (MODPROBE_MAX_LINE - 1) t).2

/-- The line buffer after `fgets` stored `p` and a NUL there. -/
def fgets_store (line : Nat → Char) (p : Text) (i : Nat) : Char :=
  if i < p.length then p.getD i '\x00' else if i = p.length then '\x00' else line i

def line_at (line : Nat → Char) (i : Nat) : Except Fault Char :=
  if i < MODPROBE_MAX_LINE then .ok (line i) else .error .bounds

/-- `len > 2 && line[len - 1] == '\n' && line[len - 2] == '\\'` -/
def is_continued (line : Nat → Char) (len : Nat) : Except Fault Bool :=
  if 2 < len then do
    let a ← line_at line (len - 1)
    if a = '\n' then do
      let b ← line_at line (len - 2)
      return b = '\\'
    else return false
  else return false

structure Reader where
  line : Nat → Char
  last : Option Text
  lines : List ModprobeLine

/-- The body of the loop of `modprobe_read`, for the string `fgets` returned. -/
def read_line (r : Reader) (p : Text) : Except Fault Reader := do
  let line := fgets_store r.line p
  let l := r.last.getD [] ++ p
  if ← is_continued line l.length then
    return { r with line, last := some l }
  else
    return ⟨line, none, r.lines ++ [modprobe_line_new l]⟩

def modprobe_read (line : Nat → Char) (text : Text) : Except Fault (List ModprobeLine) := do
  let r ← (fgets_all text.length text).foldlM read_line ⟨line, none, []⟩
  return r.lines ++ (r.last.map modprobe_line_new).toList

/-! ## Writing -/

/-- `argv[0]` is read first, which a line without words does not have. -/
def find_chzdev_comment : List ModprobeLine → Except Fault Bool
  | [] => .ok false
  | l :: ls =>
    match l.line with
    | none => .ok false
    | some line =>
      match l.argv with
      | [] => .error .bounds
      | arg :: _ =>
        if arg = [] then find_chzdev_comment ls
        else if arg ≠ ['#'] then .ok false
        else if "chzdev".toList <:+: line then .ok true
        else find_chzdev_comment ls

def GENERATED : Text := "# Generated by chzdev\n".toList

def line_text (l : ModprobeLine) : Text :=
  match l.line with
  | some line => line
  | none => [' '].intercalate l.argv ++ ['\n']

def modprobe_write (ls : List ModprobeLine) : Except Fault Text := do
  return (if ← find_chzdev_comment ls then [] else GENERATED) ++ ls.flatMap line_text

/-! ## Settings -/

def arg_to_setting (attribs : List Attrib) (arg : Text) : Setting :=
  let key := arg.takeWhile (· ≠ '=')
  let val := match arg.dropWhile (· ≠ '=') with
    | [] => ['1']
    | _ :: val => val
  setting_new (attrib_find attribs key) key val

def is_module (mod : Text) : List Text → Bool
  | arg₀ :: arg₁ :: _ => arg₀ = "options".toList && arg₁ = mod
  | _ => false

def modprobe_get_settings (ls : List ModprobeLine) (mod : Text) (attribs : List Attrib) : List Setting :=
  ls.flatMap fun l =>
    if 3 ≤ l.argv.length ∧ is_module mod l.argv then (l.argv.drop 2).map (arg_to_setting attribs) else []

def setting_arg (s : Setting) : Text :=
  s.name ++ '=' :: s.value

def modprobe_apply_settings (ls : List ModprobeLine) (mod : Text) (sl : List Setting) : List ModprobeLine :=
  let kept := ls.filter fun l => !is_module mod l.argv
  let set := sl.filter setting_is_set
  if set.length = 0 then kept
  else kept ++ [⟨none, "options".toList :: mod :: set.map setting_arg⟩]

def modprobe_read_settings (line : Nat → Char) (file : Option Text) (mod : Text) (attribs : List Attrib) :
    Except Fault (Option (List Setting)) :=
  match file with
  | none => .ok none
  | some text => do
    let ls ← modprobe_read line text
    return some (modprobe_get_settings ls mod attribs)

def modprobe_lines (line : Nat → Char) : Option Text → Except Fault (List ModprobeLine)
  | none => .ok []
  | some text => modprobe_read line text

def counts_as_empty (ls : List ModprobeLine) : Except Fault Bool :=
  if ls.length = 0 then .ok true else if ls.length = 1 then find_chzdev_comment ls else .ok false

def modprobe_store (ls : List ModprobeLine) : Except Fault (Option Text) := do
  if ← counts_as_empty ls then return none
  else return some (← modprobe_write ls)

def modprobe_write_settings (line : Nat → Char) (file : Option Text) (mod : Text) (settings : List Setting) :
    Except Fault (Option Text) := do
  let old ← modprobe_lines line file
  modprobe_store (modprobe_apply_settings old mod settings)

end Zdev.Modprobe
