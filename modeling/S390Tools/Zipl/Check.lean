import S390Tools.Zipl.Scan

/-!
# The rules for zipl.conf (zipl/src/scan.c)

An array of tokens with an index into it is the list of the tokens from there on; the array ends with the list or at
an empty token. A keyword that was not specified is `none`.
-/

namespace Zipl.Scan

open CString Vtoc Word

def BOOT_MENU_ENTRIES : Nat := 62
def DEFAULTBOOT_SECTION : List UInt8 := bytes "defaultboot"
def SCAN_AUTOMENU_NAME : List UInt8 := bytes "zipl-automatic-menu"

abbrev Check := Except (List UInt8)

def decimal (n : Nat) : List UInt8 := bytes (toString n)

def at_line (line : Nat) (text : List UInt8) : List UInt8 := bytes "Line " ++ decimal line ++ bytes ": " ++ text

/-! ## Keywords of section types -/

inductive SectionType
  | default_auto | default_menu | default_section | ipl | segment | dump | dumpfs | ipl_tape | mvdump
  deriving DecidableEq

inductive KeyState
  | req | opt | inv
  deriving DecidableEq

def Keyword.all : List Keyword := [
  .default, .dumpto, .dumptofs, .image, .parameters, .parmfile, .ramdisk, .segment, .target, .prompt, .timeout,
  .defaultmenu, .tape, .mvdump, .targetbase, .targettype, .targetgeometry, .targetblocksize, .targetoffset,
  .defaultauto, .kdump]

section
open KeyState

def scan_key_table : SectionType → List KeyState
  | .default_auto => [opt, inv, inv, inv, inv, inv, inv, inv, req, opt, opt, inv, inv, inv,
      opt, opt, opt, opt, opt, opt, inv]
  | .default_menu => [inv, inv, inv, inv, inv, inv, inv, inv, inv, inv, inv, req, inv, inv,
      inv, inv, inv, inv, inv, inv, inv]
  | .default_section => [req, inv, inv, inv, inv, inv, inv, inv, inv, inv, inv, inv, inv, inv,
      inv, inv, inv, inv, inv, inv, inv]
  | .ipl => [inv, inv, inv, req, opt, opt, opt, inv, req, inv, inv, inv, inv, inv,
      opt, opt, opt, opt, opt, inv, opt]
  | .segment => [inv, inv, inv, inv, inv, inv, inv, req, req, inv, inv, inv, inv, inv,
      inv, inv, inv, inv, inv, inv, inv]
  | .dump => [inv, req, inv, inv, inv, inv, inv, inv, opt, inv, inv, inv, inv, inv,
      inv, inv, inv, inv, inv, inv, inv]
  | .dumpfs => [inv, inv, req, inv, opt, opt, inv, inv, req, inv, inv, inv, inv, inv,
      inv, inv, inv, inv, inv, inv, inv]
  | .ipl_tape => [inv, inv, inv, req, opt, opt, opt, inv, inv, inv, inv, inv, req, inv,
      inv, inv, inv, inv, inv, inv, inv]
  | .mvdump => [inv, inv, inv, inv, inv, inv, inv, inv, inv, inv, inv, inv, inv, req,
      inv, inv, inv, inv, inv, inv, inv]

def scan_menu_key_table : List KeyState := [
  opt, inv, inv, inv, inv, inv, inv, inv, req, opt, opt, inv, inv, inv,
  opt, opt, opt, opt, opt, inv, inv]

end

def key_state (row : List KeyState) (key : Keyword) : KeyState := row.getD (Keyword.all.idxOf key) .inv

def scan_keyword_name (id : Keyword) : List UInt8 :=
  match (keyword_list ++ keyword_only_list).find? fun entry => entry.2 = id with
  | some entry => entry.1
  | none => bytes "<unknown>"

/-! ## The data of a section -/

abbrev Keywords := Keyword → Option (List UInt8)

def scan_is_delimiter : Token → Bool
  | .empty | .section_heading _ _ | .menu_heading _ _ => true
  | _ => false

inductive Heading
  | section_heading | menu_heading
  deriving DecidableEq

def scan_find_section (name : List UInt8) (type : Heading) : List Token → Option (Nat × List Token)
  | [] => none
  | .empty :: _ => none
  | .section_heading line name' :: ts =>
    if type = .section_heading ∧ name' = name then some (line, ts) else scan_find_section name type ts
  | .menu_heading line name' :: ts =>
    if type = .menu_heading ∧ name' = name then some (line, ts) else scan_find_section name type ts
  | _ :: ts => scan_find_section name type ts

/-- What `scan_get_section_keywords` stores. -/
structure SectionData where
  keyword : Keywords
  keyword_line : Keyword → Nat
  num : Nat → Option (List UInt8)
  num_line : Nat → Nat

def SectionData.initial : SectionData :=
  { keyword := fun _ => none, keyword_line := fun _ => 0, num := fun _ => none, num_line := fun _ => 0 }

def store_keyword (d : SectionData) (line : Nat) (key : Keyword) (value : List UInt8) : Check SectionData :=
  if d.keyword key ≠ none then
    throw (at_line line (bytes "keyword '" ++ scan_keyword_name key ++ bytes "' already specified"))
  else pure { d with
    keyword := Function.update d.keyword key (some value)
    keyword_line := Function.update d.keyword_line key line }

def store_number (name : List UInt8) (num : Bool) (d : SectionData) (line : Nat) (number : Int)
    (value : List UInt8) :
    Check SectionData :=
  if num = false then
    throw (at_line line (bytes "number assignment not allowed in section '" ++ name ++ bytes "'"))
  else if number ≤ 0 then throw (at_line line (bytes "position must be greater than zero"))
  else if number > BOOT_MENU_ENTRIES then
    throw (at_line line (bytes "position must not exceed " ++ decimal BOOT_MENU_ENTRIES))
  else if d.num (number.toNat - 1) ≠ none then
    throw (at_line line (bytes "position " ++ decimal number.toNat ++ bytes " already specified"))
  else pure { d with
    num := Function.update d.num (number.toNat - 1) (some value)
    num_line := Function.update d.num_line (number.toNat - 1) line }

def store_token (name : List UInt8) (num : Bool) (d : SectionData) : Token → Check SectionData
  | .number_assignment line number value => store_number name num d line number value
  | .keyword_assignment line key value => store_keyword d line key value
  | .keyword_only line key => store_keyword d line key []
  | _ => pure d

/-- From the tokens behind the heading: the data and the tokens behind the section. `num` is whether numbers are
expected. -/
def scan_get_section_keywords (name : List UInt8) (num : Bool) (d : SectionData) :
    List Token → Check (SectionData × List Token)
  | [] => pure (d, [])
  | t :: ts =>
    if scan_is_delimiter t then pure (d, t :: ts)
    else do
      let d' ← store_token name num d t
      scan_get_section_keywords name num d' ts

/-! ## Conversions -/

/-- A number for `%d`: leading space, a sign and digits; the value is cut off like a `long` and
stored in an `int`. -/
def scan_int (s : List UInt8) : Option (Int × List UInt8) :=
  let s := s.dropWhile isspace
  let sign := s.head?.filter fun c => c == 0x2d || c == 0x2b
  let s := if sign.isSome then s.tail else s
  if s.head?.any isdigit then
    let n : Int := if sign = some 0x2d then -digits s else digits s
    some (i32 (max (-9223372036854775808) (min 9223372036854775807 n)), s.dropWhile isdigit)
  else none

/-- `sscanf(value, "%d %c", &number, &dummy) == 1`. -/
def sscanf_number (value : List UInt8) : Option Int :=
  (scan_int value).bind fun r => if r.2.all isspace then some r.1 else none

def scan_comma (s : List UInt8) : Option (List UInt8) := if s.head? = some 0x2c then some s.tail else none

/-- `sscanf(value, "%d,%d,%d %c", &cylinders, &heads, &sectors, &dummy) == 3`. -/
def sscanf_geometry (value : List UInt8) : Option (Int × Int × Int) := do
  let (cylinders, s) ← scan_int value
  let (heads, s) ← scan_int (← scan_comma s)
  let sectors ← sscanf_number (← scan_comma s)
  return (cylinders, heads, sectors)

def isxdigit (c : UInt8) : Bool := isdigit c || (0x41 ≤ c && c ≤ 0x46) || (0x61 ≤ c && c ≤ 0x66)

/-- `sscanf(s, "%llx", &result) == 1`. -/
def sscanf_hex (s : List UInt8) : Bool :=
  let s := s.dropWhile isspace
  let s := if s.head?.any fun c => c == 0x2d || c == 0x2b then s.tail else s
  if s.head? = some 0x30 ∧ (s.tail.head?.any fun c => c == 0x78 || c == 0x58) then (s.drop 2).head?.any isxdigit
  else s.head?.any isxdigit

def contains_address (string : List UInt8) : Bool :=
  if 0x2c ∈ string then sscanf_hex (string.reverse.takeWhile (· != 0x2c)).reverse else false

/-! ## Checks of sections -/

inductive TargetType
  | scsi | fba | ldl | cdl
  deriving DecidableEq

def strcasecmp (a b : List UInt8) : Bool := a.map tolower == b.map tolower

def scan_get_target_type (type : List UInt8) : Option TargetType :=
  if strcasecmp type (bytes "SCSI") then some .scsi
  else if strcasecmp type (bytes "FBA") then some .fba
  else if strcasecmp type (bytes "LDL") then some .ldl
  else if strcasecmp type (bytes "CDL") then some .cdl
  else none

def scan_get_section_type (keyword : Keywords) : Option SectionType :=
  if keyword .tape ≠ none then some .ipl_tape
  else if keyword .image ≠ none then some .ipl
  else if keyword .segment ≠ none then some .segment
  else if keyword .dumpto ≠ none then some .dump
  else if keyword .dumptofs ≠ none then some .dumpfs
  else if keyword .mvdump ≠ none then some .mvdump
  else none

def find_section_type (keyword : Keywords) (name : List UInt8) (section_line : Nat) :
    Option SectionType → Check (SectionType × List UInt8)
  | some type => pure (type, [])
  | none =>
    if keyword .tape ≠ none then pure (.ipl_tape, scan_keyword_name .tape)
    else if keyword .image ≠ none then pure (.ipl, scan_keyword_name .image)
    else if keyword .segment ≠ none then pure (.segment, scan_keyword_name .segment)
    else if keyword .dumpto ≠ none then pure (.dump, scan_keyword_name .dumpto)
    else if keyword .dumptofs ≠ none then throw (bytes "Option dumptofs is deprecated, use dumpto instead")
    else if keyword .mvdump ≠ none then pure (.mvdump, scan_keyword_name .mvdump)
    else
      throw (at_line section_line (bytes "section '" ++ name ++ bytes ("' must contain either one of keywords " ++
      "'image', 'segment', 'dumpto', 'dumptofs', 'mvdump' or 'tape'")))

/-- The check of one keyword; `line` is `none` for data of the command line. -/
def check_keyword (keyword : Keywords) (line : Option (Keyword → Nat)) (name : List UInt8) (section_line : Nat)
    (type : SectionType) (main_keyword : List UInt8) (key : Keyword) : Check Unit :=
  match key_state (scan_key_table type) key with
  | .req =>
    if keyword key = none then
      throw (match line with
        | some _ =>
          at_line section_line (bytes "missing keyword '" ++ scan_keyword_name key ++ bytes "' in section '" ++
            name ++ bytes "'")
        | none =>
          bytes "Option '" ++ scan_keyword_name key ++ bytes "' required when specifying '" ++ main_keyword ++
            bytes "'")
    else pure ()
  | .inv =>
    if keyword key ≠ none then
      throw (match line with
        | some line => at_line (line key) (bytes "keyword '" ++ scan_keyword_name key ++
            bytes "' not allowed in section '" ++ name ++ bytes "'")
        | none => bytes "Only one of options '" ++ main_keyword ++ bytes "' and '" ++ scan_keyword_name key ++
            bytes "' allowed")
    else pure ()
  | .opt => pure ()

def scan_check_section_data (keyword : Keywords) (line : Option (Keyword → Nat)) (name : List UInt8)
    (section_line : Nat) (type : Option SectionType) : Check SectionType := do
  let (type, main_keyword) ← find_section_type keyword name section_line type
  Keyword.all.forM (check_keyword keyword line name section_line type main_keyword)
  if (keyword .segment).any fun value => !contains_address value then
    throw (match line with
      | some line => at_line (line .segment) (bytes "keyword 'segment' requires load address")
      | none => bytes "Option 'segment' requires load address")
  return type

def check_blocksize (size : Int) : Bool := size = 512 || size = 1024 || size = 2048 || size = 4096

def target_keywords : List Keyword :=
  [.target, .targetbase, .targettype, .targetgeometry, .targetblocksize, .targetoffset]

def scan_count_target_keywords (keyword : Keywords) : Nat := target_keywords.countP fun key => keyword key ≠ none

inductive TargetError
  | targetbase_required (errid : Keyword)
  | targettype_required
  | geometry_required
  | geometry_not_allowed
  | unrecognized_type
  | invalid_geometry
  | blocksize_required
  | invalid_blocksize
  | offset_required
  | invalid_offset

def target_error (keyword : Keywords) : Option TargetError :=
  if keyword .targetbase = none then
    if keyword .targettype ≠ none then some (.targetbase_required .targettype)
    else if keyword .targetgeometry ≠ none then some (.targetbase_required .targetgeometry)
    else if keyword .targetblocksize ≠ none then some (.targetbase_required .targetblocksize)
    else if keyword .targetoffset ≠ none then some (.targetbase_required .targetoffset)
    else none
  else if keyword .targettype = none then some .targettype_required
  else
    let type := scan_get_target_type ((keyword .targettype).getD [])
    if (type = some .cdl ∨ type = some .ldl) ∧ keyword .targetgeometry = none then some .geometry_required
    else if (type = some .scsi ∨ type = some .fba) ∧ keyword .targetgeometry ≠ none then some .geometry_not_allowed
    else if type = none then some .unrecognized_type
    else if (keyword .targetgeometry).any fun value =>
        !(sscanf_geometry value).any fun g => 0 < g.1 && 0 < g.2.1 && 0 < g.2.2 then some .invalid_geometry
    else if keyword .targetblocksize = none then some .blocksize_required
    else if (keyword .targetblocksize).any fun value => !(sscanf_number value).any check_blocksize then
      some .invalid_blocksize
    else if keyword .targetoffset = none then some .offset_required
    else if (keyword .targetoffset).any fun value => (sscanf_number value).isNone then some .invalid_offset
    else none

def TargetError.text (keyword : Keywords) : Option (Keyword → Nat) → TargetError → List UInt8
  | some line, .targetbase_required errid => at_line (line errid)
      (bytes "keyword 'targetbase' required when specifying '" ++ scan_keyword_name errid ++ bytes "'")
  | none, .targetbase_required errid =>
      bytes "Option 'targetbase' required when specifying '" ++ scan_keyword_name errid ++ bytes "'"
  | some line, .targettype_required => at_line (line .targetbase)
      (bytes "keyword 'targettype' required when specifying 'targetbase'")
  | none, .targettype_required => bytes "Option 'targettype' required when specifying 'targetbase'"
  | some line, .geometry_required => at_line (line .targettype)
      (bytes "keyword 'targetgeometry' required when specifying 'targettype' " ++ (keyword .targettype).getD [])
  | none, .geometry_required =>
      bytes "Option 'targetgeometry' required when specifying 'targettype' " ++ (keyword .targettype).getD []
  | some line, .geometry_not_allowed => at_line (line .targetgeometry)
      (bytes "keyword 'targetgeometry' not allowed for 'targettype' " ++ (keyword .targettype).getD [])
  | none, .geometry_not_allowed =>
      bytes "Keyword 'targetgeometry' not allowed for 'targettype' " ++ (keyword .targettype).getD []
  | some line, .unrecognized_type => at_line (line .targettype)
      (bytes "Unrecognized 'targettype' value '" ++ (keyword .targettype).getD [] ++ bytes "'")
  | none, .unrecognized_type =>
      bytes "Unrecognized 'targettype' value '" ++ (keyword .targettype).getD [] ++ bytes "'"
  | some line, .invalid_geometry => at_line (line .targetgeometry)
      (bytes "Invalid target geometry '" ++ (keyword .targetgeometry).getD [] ++ bytes "'")
  | none, .invalid_geometry => bytes "Invalid target geometry '" ++ (keyword .targetgeometry).getD [] ++ bytes "'"
  | some line, .blocksize_required => at_line (line .targetbase)
      (bytes "Keyword 'targetblocksize' required when specifying 'targetbase'")
  | none, .blocksize_required => bytes "Option 'targetblocksize' required when specifying 'targetbase'"
  | some line, .invalid_blocksize => at_line (line .targetblocksize)
      (bytes "Invalid target blocksize '" ++ (keyword .targetblocksize).getD [] ++ bytes "'")
  | none, .invalid_blocksize =>
    bytes "Invalid target blocksize '" ++ (keyword .targetblocksize).getD [] ++ bytes "'"
  | some line, .offset_required => at_line (line .targetbase)
      (bytes "Keyword 'targetoffset' required when specifying 'targetbase'")
  | none, .offset_required => bytes "Option 'targetoffset' required when specifying 'targetbase'"
  | some line, .invalid_offset => at_line (line .targetoffset)
      (bytes "Invalid target offset '" ++ (keyword .targetoffset).getD [] ++ bytes "'")
  | none, .invalid_offset => bytes "Invalid target offset '" ++ (keyword .targetoffset).getD [] ++ bytes "'"

def scan_check_target_data (keyword : Keywords) (line : Option (Keyword → Nat)) : Check Unit :=
  match target_error keyword with
  | some e => throw (e.text keyword line)
  | none => pure ()

def check_section (line : Nat) (name : List UInt8) (ts : List Token) : Check (List Token) :=
  match scan_find_section name .section_heading ts with
  | some (line', _) =>
    throw (at_line line' (bytes "section name '" ++ name ++ bytes "' already specified"))
  | none => do
    let (d, rest) ← scan_get_section_keywords name false .initial ts
    if name = DEFAULTBOOT_SECTION then return rest
    let _ ← scan_check_section_data d.keyword (some d.keyword_line) name line none
    scan_check_target_data d.keyword (some d.keyword_line)
    return rest

/-! ## Checks of menus -/

def check_menu_keyword (keyword : Keywords) (line : Keyword → Nat) (name : List UInt8) (section_line : Nat)
    (key : Keyword) : Check Unit :=
  match key_state scan_menu_key_table key with
  | .inv =>
    if keyword key = none then pure ()
    else
      throw (at_line (line key) (bytes "keyword '" ++ scan_keyword_name key ++
        bytes "' not allowed in menu section '" ++
      name ++ bytes "'"))
  | .req =>
    if keyword key = none then
      throw (at_line section_line (bytes "missing keyword '" ++ scan_keyword_name key ++
        bytes "' in menu section '" ++
        name ++ bytes "'"))
    else pure ()
  | .opt => pure ()

def check_menu_keyword_data (keyword : Keywords) (line : Keyword → Nat) (name : List UInt8) (section_line : Nat) :
    Check Unit :=
  Keyword.all.forM (check_menu_keyword keyword line name section_line)

def check_default (d : SectionData) : Check Unit :=
  match d.keyword .default with
  | none => pure ()
  | some value =>
    match sscanf_number value with
    | none => throw (at_line (d.keyword_line .default) (bytes "default position must be a number"))
    | some number =>
      if number < 1 then
        throw (at_line (d.keyword_line .default) (bytes "default position must be greater than zero"))
      else if number > BOOT_MENU_ENTRIES then
        throw (at_line (d.keyword_line .default) (bytes "default position too large"))
      else if d.num (number.toNat - 1) = none then
        throw (at_line (d.keyword_line .default)
          (bytes "menu position " ++ decimal number.toNat ++ bytes " not defined"))
      else pure ()

def check_prompt (d : SectionData) : Check Unit :=
  match d.keyword .prompt with
  | none => pure ()
  | some value =>
    match sscanf_number value with
    | none => throw (at_line (d.keyword_line .prompt) (bytes "prompt value must be a number"))
    | some number =>
      if number ≠ 0 ∧ number ≠ 1 then
        throw (at_line (d.keyword_line .prompt) (bytes "prompt value is out of range (must be 0 or 1)"))
      else pure ()

def check_timeout (d : SectionData) : Check Unit :=
  match d.keyword .timeout with
  | none => pure ()
  | some value =>
    match sscanf_number value with
    | none => throw (at_line (d.keyword_line .timeout) (bytes "timeout value must be a number"))
    | some number =>
      if number < 0 then throw (at_line (d.keyword_line .timeout)
        (bytes "timeout value is out of range")) else pure ()

/-- The section of the number assignment `i` exists. -/
def check_number (scan : List Token) (d : SectionData) (i : Nat) : Check Unit :=
  match d.num i with
  | none => pure ()
  | some name =>
    if scan_find_section name .section_heading scan = none then
      throw (at_line (d.num_line i) (bytes "section '" ++ name ++ bytes "' not found"))
    else pure ()

def check_menu (scan : List Token) (menu_line : Nat) (menu_name : List UInt8) (ts : List Token) :
    Check (List Token) :=
  match scan_find_section menu_name .menu_heading ts with
  | some (line, _) => throw (at_line line (bytes "menu name '" ++ menu_name ++ bytes "' already specified"))
  | none => do
    let (d, rest) ← scan_get_section_keywords menu_name true .initial ts
    check_menu_keyword_data d.keyword d.keyword_line menu_name menu_line
    check_default d
    check_prompt d
    check_timeout d
    (List.range BOOT_MENU_ENTRIES).forM (check_number scan d)
    if (List.range BOOT_MENU_ENTRIES).countP (fun i => d.num i ≠ none) = 0 then
      throw (at_line menu_line (bytes "no boot configuration specified in menu '" ++ menu_name ++ bytes "'"))
    scan_check_target_data d.keyword (some d.keyword_line)
    return rest

/-! ## The file -/

def section_end (ts : List Token) : List Token := ts.dropWhile fun t => !scan_is_delimiter t

theorem section_end_length (ts : List Token) : (section_end ts).length ≤ ts.length :=
  (List.dropWhile_suffix _).length_le

def outside (t : Token) : List UInt8 :=
  match t with
  | .keyword_assignment line _ _ => at_line line (bytes "keyword assignment not allowed outside of section")
  | .number_assignment line _ _ => at_line line (bytes "number assignment not allowed outside of section")
  | .keyword_only line _ => at_line line (bytes "keyword not allowed outside of section")
  | .section_heading line _ => at_line line (bytes "section heading not allowed outside of section")
  | .menu_heading line _ => at_line line (bytes "menu heading not allowed outside of section")
  | .empty => at_line 0 (bytes "none not allowed outside of section")

/-- `check_section` and `check_menu` advance the index to the end of the section. -/
def scan_check_from (scan : List Token) : List Token → Check Unit
  | [] => pure ()
  | .empty :: _ => pure ()
  | .section_heading line name :: ts => do
    let _ ← check_section line name ts
    scan_check_from scan (section_end ts)
  | .menu_heading line name :: ts => do
    let _ ← check_menu scan line name ts
    scan_check_from scan (section_end ts)
  | t :: _ => throw (outside t)
termination_by ts => ts.length
decreasing_by
  all_goals exact Nat.lt_succ_of_le (section_end_length ts)

def scan_check (scan : List Token) : Check Unit := scan_check_from scan scan

/-! ## The section defaultboot -/

def scan_get_defaultboot_type (keyword : Keywords) (line : Keyword → Nat) (section_line : Nat) :
    Check SectionType :=
  let too_much := fun (key1 key2 : Keyword) => at_line (max (line key1) (line key2))
    (bytes "Only one of keywords 'default', 'defaultmenu' and 'defaultauto' allowed in section '" ++
      DEFAULTBOOT_SECTION ++ bytes "'")
  if keyword .defaultauto ≠ none then
    if keyword .defaultmenu ≠ none then throw (too_much .defaultauto .defaultmenu)
    else if keyword .target = none then
      throw (at_line section_line (bytes "Keyword 'target' required in section '" ++ DEFAULTBOOT_SECTION ++
        bytes "' when specifying 'defaultauto'"))
    else pure .default_auto
  else if keyword .target ≠ none then
    if keyword .defaultmenu ≠ none then
      throw (at_line (max (line .target) (line .defaultmenu))
        (bytes "Only one of keywords 'default', 'defaultmenu' and 'target' allowed in section '" ++
          DEFAULTBOOT_SECTION ++ bytes "'"))
    else pure .default_auto
  else if keyword .defaultmenu ≠ none then
    if keyword .default ≠ none then throw (too_much .defaultmenu .default) else pure .default_menu
  else if keyword .default ≠ none then pure .default_section
  else
    throw (at_line section_line (bytes "Section '" ++ DEFAULTBOOT_SECTION ++ bytes ("' requires one of keywords " ++
    "'default', 'defaultmenu', 'defaultauto' or 'target'")))

def scan_check_defaultboot (scan : List Token) : Check Bool :=
  match scan_find_section DEFAULTBOOT_SECTION .section_heading scan with
  | none => throw (bytes "No '" ++ DEFAULTBOOT_SECTION ++
      bytes "' section found and no section specified on command line")
  | some (defaultboot_line, ts) =>
    match scan_find_section DEFAULTBOOT_SECTION .section_heading ts with
    | some (line, _) =>
      throw (at_line line (bytes "section name '" ++ DEFAULTBOOT_SECTION ++ bytes "' already specified"))
    | none => do
      let (d, _) ← scan_get_section_keywords DEFAULTBOOT_SECTION false .initial ts
      if (d.keyword .default).any fun name => (scan_find_section name .section_heading scan).isNone then
        throw (at_line (d.keyword_line .default)
          (bytes "no such section '" ++ (d.keyword .default).getD [] ++ bytes "'"))
      let type ← scan_get_defaultboot_type d.keyword d.keyword_line defaultboot_line
      if type = .default_auto ∧ scan_count_target_keywords d.keyword > 0 then
        scan_check_target_data d.keyword (some d.keyword_line)
      let _ ← scan_check_section_data d.keyword (some d.keyword_line)
        DEFAULTBOOT_SECTION defaultboot_line (some type)
      return type = .default_auto

end Zipl.Scan
