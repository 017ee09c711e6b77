import S390Tools.Zipl.Check

/-!
# The automatic menu (zipl/src/scan.c)

The new array starts out empty and tokens are appended; `automenu_size` is the number of entries that were allocated
for it, its empty token included.
-/

namespace Zipl.Scan

open CString Vtoc

def section_body (ts : List Token) : List Token := ts.takeWhile fun t => !scan_is_delimiter t

def scan_append_target_keywords (keyword : Keywords) : List Token :=
  target_keywords.filterMap fun id => (keyword id).map (.keyword_assignment 0 id)

def scan_append_keyword (keyword : Keywords) (id : Keyword) : List Token :=
  ((keyword id).map (.keyword_assignment 0 id)).toList

/-- The variables of the loop; an entry that does not exist is -1 in the source. -/
structure Automenu where
  new_scan : List Token
  entry : List (List UInt8)
  default_entry : Option Nat

/-- A section other than `defaultboot` with the keywords `sec_keyword`. -/
def automenu_section (db_keyword : Keywords) (st : Automenu) (heading : Token) (name : List UInt8)
    (sec_keyword : Keywords) (body : List Token) : Check Automenu :=
  let new_scan := st.new_scan ++ heading :: body
  if scan_get_section_type sec_keyword ≠ some .ipl then pure { st with new_scan }
  else if st.entry.length = BOOT_MENU_ENTRIES then
    throw (bytes "Cannot build automenu: too many IPL sections defined (max " ++
      decimal BOOT_MENU_ENTRIES ++ bytes ")")
  else pure {
    new_scan := new_scan ++
      if scan_count_target_keywords sec_keyword > 0 then [] else scan_append_target_keywords db_keyword
    entry := st.entry ++ [name]
    default_entry := if db_keyword .default = some name then some st.entry.length else st.default_entry }

@[grind =] def automenu_loop (db_keyword : Keywords) (st : Automenu) : List Token → Check Automenu
  | [] => pure st
  | .empty :: _ => pure st
  | .menu_heading line name :: ts =>
    if name = SCAN_AUTOMENU_NAME then
      throw (bytes "Cannot build automenu: menu name '" ++ SCAN_AUTOMENU_NAME ++ bytes "' already used")
    else automenu_loop db_keyword { st with new_scan := st.new_scan ++ .menu_heading line name :: section_body ts }
      (section_end ts)
  | .section_heading line name :: ts =>
    if name = DEFAULTBOOT_SECTION then automenu_loop db_keyword st (section_end ts)
    else do
      let (d, _) ← scan_get_section_keywords name false .initial ts
      let st ← automenu_section db_keyword st (.section_heading line name) name d.keyword (section_body ts)
      automenu_loop db_keyword st (section_end ts)
  | t :: _ => throw (outside t)
termination_by ts => ts.length
decreasing_by
  all_goals exact Nat.lt_succ_of_le (section_end_length ts)

def scan_append_entries (entry : List (List UInt8)) : List Token :=
  entry.mapIdx fun i name => .number_assignment 0 (i + 1) name

def automenu_tail (db_keyword : Keywords) (st : Automenu) : List Token :=
  [Token.section_heading 0 DEFAULTBOOT_SECTION, .keyword_assignment 0 .defaultmenu SCAN_AUTOMENU_NAME,
    .menu_heading 0 SCAN_AUTOMENU_NAME] ++
  (st.default_entry.map fun i => Token.keyword_assignment 0 .default (decimal (i + 1))).toList ++
  scan_append_keyword db_keyword .prompt ++ scan_append_keyword db_keyword .timeout ++
  scan_append_target_keywords db_keyword ++ scan_append_entries st.entry

def live (scan : List Token) : List Token := scan.takeWhile (· ≠ .empty)

def Token.is_section : Token → Bool
  | .section_heading _ _ => true
  | _ => false

def num_sections (scan : List Token) : Nat := (live scan).countP Token.is_section

def automenu_size (scan : List Token) (db_keyword : Keywords) : Nat :=
  (live scan).length + 1 + 1 + 1 + 1 + 3 + scan_count_target_keywords db_keyword +
    num_sections scan * scan_count_target_keywords db_keyword + num_sections scan

def scan_get_defaultboot_keywords (scan : List Token) : Check Keywords := do
  let ts := ((scan_find_section DEFAULTBOOT_SECTION .section_heading scan).map (·.2)).getD scan
  let (d, _) ← scan_get_section_keywords DEFAULTBOOT_SECTION false .initial ts
  return d.keyword

def scan_build_automenu (scan : List Token) : Check (List Token) := do
  let db_keyword ← scan_get_defaultboot_keywords scan
  let st ← automenu_loop db_keyword { new_scan := [], entry := [], default_entry := none } scan
  if st.entry = [] then throw (bytes "Cannot build automenu: no IPL entries available")
  return st.new_scan ++ automenu_tail db_keyword st

end Zipl.Scan
