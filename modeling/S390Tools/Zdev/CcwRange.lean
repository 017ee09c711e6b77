import S390Tools.Zdev.Ccw

/-!
# Ranges of CCW and CCWGROUP devices (zdev/src/ccw.c, zdev/src/ccwgroup.c)

Both kinds of IDs have ranges with single device IDs as their ends. A range is counted,
iterated over, tested for an ID, and looked up in `/proc/cio_ignore`.
-/

namespace Zdev.Ccw

open CString

/-! ## CCWGROUP device IDs -/

def CCWGROUP_MAX_DEVIDS : Nat := 3

/-- `strsep` at a character; the string is gone after its last piece. -/
def strsep (delim : UInt8) : Option (List UInt8) → Option (List UInt8 × Option (List UInt8))
  | none => none
  | some s =>
    some (s.takeWhile (· != delim), match s.dropWhile (· != delim) with
      | [] => none
      | _ :: rest => some rest)

/-- The device IDs, in number at most `CCWGROUP_MAX_DEVIDS`. -/
abbrev CcwgroupDevid := List CcwDevid

section
variable (bare : Bool)

def parse_devids : Nat → Option (List UInt8) → Except String (List CcwDevid × Option (List UInt8))
  | 0, next => .ok ([], next)
  | n + 1, next =>
    match strsep 0x3a next with
    | none => .ok ([], next)
    | some (curr, next) => do
      let d ← ccw_parse_devid bare curr
      let (ds, next) ← parse_devids n next
      return (d :: ds, next)

def has_duplicate : List CcwDevid → Bool
  | [] => false
  | d :: ds => ds.any (fun e => ccw_cmp_parsed_ids d e == 0) || has_duplicate ds

def ccwgroup_parse_devid (id : List UInt8) : Except String CcwgroupDevid := do
  let (ds, next) ← parse_devids bare CCWGROUP_MAX_DEVIDS (some id)
  if ds.length = 0 then throw "No CCW device ID specified\n"
  else if next.any (· ≠ []) then throw "Too many CCW device IDs specified\n"
  else if has_duplicate ds then throw "Duplicate CCW device ID specified"
  else return ds

def ccwgroup_parse_devid_simple (id : List UInt8) : Option CcwgroupDevid := (ccwgroup_parse_devid bare id).toOption

end

def ccwgroup_devid_to_str : CcwgroupDevid → List UInt8
  | [] => []
  | d :: ds => ds.foldl (fun last d => last ++ 0x3a :: ccw_devid_to_str d) (ccw_devid_to_str d)

def ccwgroup_normalize_id (bare : Bool) (id : List UInt8) : Option (List UInt8) :=
  (ccwgroup_parse_devid_simple bare id).map ccwgroup_devid_to_str

section
variable (bare : Bool)

def ccwgroup_parse_devid_range (range : List UInt8) : Except String (CcwgroupDevid × CcwgroupDevid) :=
  match range.dropWhile (· != 0x2d) with
  | [] => .error "Missing hyphen"
  | _ :: to_str => do
    let f ← ccwgroup_parse_devid bare (range.takeWhile (· != 0x2d))
    let t ← ccwgroup_parse_devid bare to_str
    if f.length ≠ 1 ∨ t.length ≠ 1 then throw "Ranges only supported on single CCW device IDs"
    else return (f, t)

def ccwgroup_parse_devid_range_simple (range : List UInt8) : Option (CcwgroupDevid × CcwgroupDevid) :=
  (ccwgroup_parse_devid_range bare range).toOption

end

/-! ## Counting -/

def num_ids (f t : CcwDevid) : Nat :=
  if f.cssid ≠ t.cssid ∨ f.ssid ≠ t.ssid then 0
  else if t.devno < f.devno then 0
  else t.devno.toNat - f.devno.toNat + 1

def first (d : CcwgroupDevid) : CcwDevid := d.headD { cssid := 0, ssid := 0, devno := 0 }

section
variable (bare : Bool)

def ccw_num_ids_in_range (range : List UInt8) : Nat :=
  match ccw_parse_devid_range_simple bare range with
  | none => 0
  | some (f, t) => num_ids f t

def ccwgroup_num_ids_in_range (range : List UInt8) : Nat :=
  match ccwgroup_parse_devid_range_simple bare range with
  | none => 0
  | some (f, t) => num_ids (first f) (first t)

/-! ## Iterating -/

/-- `devid` are the current and the last one. -/
structure NsRangeIterator (α : Type) where
  devid : Option (α × α)
  id : Option (List UInt8)

def range_start {α : Type} (to_str : α → List UInt8) (ends : Option (α × α)) : NsRangeIterator α :=
  { devid := ends, id := ends.map fun (f, _) => to_str f }

def range_next {α : Type} (to_str : α → List UInt8) (devno : α → UInt16) (up : α → α) (it : NsRangeIterator α) :
    NsRangeIterator α :=
  match it.id, it.devid with
  | some _, some (curr, last) =>
    if devno curr < devno last then { devid := some (up curr, last), id := some (to_str (up curr)) }
    else { it with id := none }
  | _, _ => it

def CcwDevid.up (d : CcwDevid) : CcwDevid := { d with devno := d.devno + 1 }

def ccw_range_start (range : List UInt8) : NsRangeIterator CcwDevid :=
  range_start ccw_devid_to_str (ccw_parse_devid_range_simple bare range)

def ccw_range_next (it : NsRangeIterator CcwDevid) : NsRangeIterator CcwDevid :=
  range_next ccw_devid_to_str (·.devno) CcwDevid.up it

def ccwgroup_range_start (range : List UInt8) : NsRangeIterator CcwgroupDevid :=
  range_start ccwgroup_devid_to_str (ccwgroup_parse_devid_range_simple bare range)

def ccwgroup_range_next (it : NsRangeIterator CcwgroupDevid) : NsRangeIterator CcwgroupDevid :=
  range_next ccwgroup_devid_to_str (fun d => (first d).devno) (fun d => (first d).up :: d.tail) it

def produced {α : Type} (next : NsRangeIterator α → NsRangeIterator α) : Nat → NsRangeIterator α →
    Option (List (List UInt8))
  | 0, _ => none
  | n + 1, it =>
    match it.id with
    | none => some []
    | some id => (produced next n (next it)).map (id :: ·)

/-! ## Membership -/

def ccw_devid_in_range (id f t : CcwDevid) : Bool :=
  if ccw_cmp_parsed_ids id f < 0 ∨ ccw_cmp_parsed_ids id t > 0 then false else true

def ccw_is_id_in_range (id range : List UInt8) : Bool :=
  match ccw_parse_devid_range_simple bare range with
  | none => false
  | some (f, t) =>
    match ccw_parse_devid_simple bare id with
    | none => false
    | some devid => ccw_devid_in_range devid f t

def ccwgroup_is_id_in_range (id range : List UInt8) : Bool :=
  match ccwgroup_parse_devid_simple bare id with
  | none => false
  | some devid =>
    match ccwgroup_parse_devid_range_simple bare range with
    | none => false
    | some (f, t) => ccw_devid_in_range (first devid) (first f) (first t)

/-! ## The blacklist -/

def lines (content : List UInt8) : List (List UInt8) := (content.splitOn 0x0a).takeWhile (· ≠ [])

/-- A line of the blacklist has something of `id` to `id2` in it. -/
def line_ignores (id id2 : CcwDevid) (is_range : Bool) (curr : List UInt8) : Bool :=
  match ccw_parse_devid_simple bare curr with
  | some f => if is_range then ccw_devid_in_range f id id2 else ccw_cmp_parsed_ids id f == 0
  | none =>
    match ccw_parse_devid_range_simple bare curr with
    | none => false
    | some (f, t) =>
      if is_range then !(ccw_cmp_parsed_ids t id < 0 || ccw_cmp_parsed_ids f id2 > 0) else ccw_devid_in_range id f t

/-- `proc_cio_ignore` is the text of the file, if it could be read. -/
def is_ignored (proc_cio_ignore : Option (List UInt8)) (str : List UInt8) (is_range : Bool) : Bool :=
  match if is_range then ccw_parse_devid_range_simple bare str
    else (ccw_parse_devid_simple bare str).map fun d => (d, d) with
  | none => false
  | some (id, id2) =>
    match proc_cio_ignore with
    | none => false
    | some content => (lines content).any (line_ignores bare id id2 is_range)

def ccw_is_id_blacklisted (proc_cio_ignore : Option (List UInt8)) (id : List UInt8) : Bool :=
  is_ignored bare proc_cio_ignore id false

def ccw_is_id_range_blacklisted (proc_cio_ignore : Option (List UInt8)) (range : List UInt8) : Bool :=
  is_ignored bare proc_cio_ignore range true

end

end Zdev.Ccw
