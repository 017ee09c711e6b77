import S390Tools.Zdev.Misc

/-!
# Attributes and settings (zdev/src/attrib.c, zdev/src/setting.c)

The order of settings is in `SettingOrder`. `vasprintf` stands for what printing a
string as a format without arguments gives, `none` if that does not return.
-/

namespace Zdev

structure Attrib where
  name : Text
  multi : Bool := false
  rewrite : Bool := false
  mandatory : Bool := false
  defval : Option Text := none
  map : Option (List (Text × Text)) := none

structure Setting where
  attrib : Option Attrib
  name : Text
  value : Text
  values : Option (List Text)
  actual_value : Option Text := none
  actual_values : Option (List Text) := none
  modified : Bool := false
  specified : Bool := false
  removed : Bool := false
  derived : Bool := false

def attrib_find (attribs : List Attrib) (name : Text) : Option Attrib :=
  attribs.find? fun a => a.name = name

def is_multi (attrib : Option Attrib) : Bool :=
  attrib.any (·.multi)

def setting_new (attrib : Option Attrib) (name val : Text) : Setting :=
  { attrib, name, value := val,
    values := if is_multi attrib then some (strlist_add_multi [] val '\n' false) else none }

def setting_is_set (s : Setting) : Bool :=
  if s.removed then false else if s.modified then true else !s.derived

/-- Whether `setting_mod_value` takes the value for one that is there already. -/
def is_rewrite (s : Setting) (value : Text) : Bool :=
  !s.derived && s.attrib.any (fun a => !a.rewrite) &&
    match s.values with
    | some values => strlist_find values value
    | none => s.value == value

def setting_set_actual (s : Setting) (value : Text) : Setting :=
  { s with actual_value := some value,
           actual_values := if is_multi s.attrib then some (strlist_add_multi [] value '\n' false)
             else s.actual_values }

def setting_list_find (list : List Setting) (name : Text) : Option Setting :=
  list.find? fun s => s.name = name

def attrib_map_value (attrib : Attrib) (value : Text) : Option Text :=
  attrib.map.bind fun map => (map.find? fun m => m.1 = value).map (·.2)

def map_value (s : Setting) : Setting :=
  match s.attrib.bind (attrib_map_value · s.value) with
  | none => s
  | some value => { s with value }

def setting_list_map_values (list : List Setting) : List Setting :=
  list.map map_value

def setting_list_remove_derived (list : List Setting) : List Setting :=
  list.filter fun s => !s.derived

/-! ## Values that are used as formats -/

section
variable (vasprintf : Text → Option Text)

/-- `strlist_add` with a format and no arguments. -/
def strlist_add (list : List Text) (fmt : Text) : Option (List Text) :=
  (vasprintf fmt).map fun str => list ++ [str]

def setting_mod_value (s : Setting) (value : Text) : Option Setting :=
  if is_rewrite s value then some s
  else
    match s.values with
    | some values =>
      (strlist_add vasprintf values value).map fun values =>
        { s with value := s.value ++ (if s.value = [] then [] else ['\n']) ++ value, values := some values,
                 modified := true, removed := false }
    | none => some { s with value, modified := true, removed := false }

def add_setting (attrib : Option Attrib) (name value : Text) (new_modified : Bool) (touch : Setting → Setting) :
    List Setting → Option (List Setting)
  | [] => some [touch { setting_new attrib name value with modified := new_modified }]
  | s :: list =>
    if s.name = name then (setting_mod_value vasprintf s value).map fun s => touch s :: list
    else (add_setting attrib name value new_modified touch list).map (s :: ·)

def setting_list_apply (list : List Setting) (attrib : Option Attrib) (name value : Text) : Option (List Setting) :=
  add_setting vasprintf attrib name value true id list

def setting_list_apply_specified (list : List Setting) (attrib : Option Attrib) (name value : Text) :
    Option (List Setting) :=
  add_setting vasprintf attrib name value true (fun s => { s with specified := true }) list

def setting_list_apply_actual (list : List Setting) (attrib : Option Attrib) (name value : Text) :
    Option (List Setting) :=
  add_setting vasprintf attrib name value false (setting_set_actual · value) list

def apply_default (mand_only : Bool) (list : List Setting) (a : Attrib) : Option (List Setting) :=
  match a.defval with
  | none => some list
  | some defval =>
    if mand_only && !a.mandatory then some list
    else if (setting_list_find list a.name).isSome then some list
    else
      add_setting vasprintf (some a) a.name defval false
        (fun s => { setting_set_actual s defval with derived := true }) list

def setting_list_apply_defaults (list : List Setting) (attribs : List Attrib) (mand_only : Bool) :
    Option (List Setting) :=
  attribs.foldlM (apply_default vasprintf mand_only) list

/-- What `setting_list_merge` copies to a setting after its value. -/
def copy_flags (specified modified : Bool) (s n : Setting) : Setting :=
  let n := if specified then { n with specified := s.specified } else n
  if modified then { n with modified := n.modified } else n

def setting_list_merge (to_list from_list : List Setting) (specified modified : Bool) : Option (List Setting) :=
  from_list.foldlM
    (fun list s => add_setting vasprintf s.attrib s.name s.value true
      (copy_flags specified modified s) list) to_list

end

end Zdev
