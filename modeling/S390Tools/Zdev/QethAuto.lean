import S390Tools.Zdev.CcwRange

/-!
# Automatic grouping of qeth devices (zdev/src/qeth_auto.c)

A group is a read device, the write device right after it, and any data device. The
infos of devices that can be in one group stand together in the sorted list. A node of
the list is the rest of the list from there on.
-/

namespace Zdev.Qeth

open Ccw Memcmp

def CCW_CHPID_NUM : Nat := 8
def QETH_NUM_DEVS : Nat := 3
def INT_MAX : Int := 2 ^ 31 - 1

/-- `chpids` are the bytes of the channel path IDs, two for each. -/
structure CcwDevinfo where
  devid : CcwDevid
  chpids : List UInt8
  cutype : UInt16
  devtype : UInt16
  cumodel : UInt8
  devmodel : UInt8
  pim : UInt8
  chpids_length : chpids.length = 2 * CCW_CHPID_NUM

/-! ## Order -/

def ccw_devinfo_chpids_cmp (a b : CcwDevinfo) : Int :=
  if a.pim > b.pim then 1 else if a.pim < b.pim then -1 else memcmp a.chpids b.chpids

def ccw_devinfo_cutype_cmp (a b : CcwDevinfo) : Int :=
  if a.cutype > b.cutype then 1 else if a.cutype < b.cutype then -1
  else if a.cumodel > b.cumodel then 1 else if a.cumodel < b.cumodel then -1
  else 0

def ccw_devinfo_devtype_cmp (a b : CcwDevinfo) : Int :=
  if a.devtype > b.devtype then 1 else if a.devtype < b.devtype then -1
  else if a.devmodel > b.devmodel then 1 else if a.devmodel < b.devmodel then -1
  else 0

def ccw_cmp_devids (a b : CcwDevid) : Int := ccw_cmp_parsed_ids a b

def info_cmp (a b : CcwDevinfo) : Int :=
  if ccw_devinfo_chpids_cmp a b ≠ 0 then ccw_devinfo_chpids_cmp a b
  else if ccw_devinfo_cutype_cmp a b ≠ 0 then ccw_devinfo_cutype_cmp a b
  else if ccw_devinfo_devtype_cmp a b ≠ 0 then ccw_devinfo_devtype_cmp a b
  else ccw_cmp_devids a.devid b.devid

def is_compatible (a b : CcwDevinfo) : Bool :=
  ccw_devinfo_chpids_cmp a b == 0 && ccw_devinfo_cutype_cmp a b == 0 && ccw_devinfo_devtype_cmp a b == 0

def ccw_devid_distance (a b : CcwDevid) : Int :=
  if a.cssid ≠ b.cssid then INT_MAX
  else if a.ssid ≠ b.ssid then INT_MAX
  else (b.devno.toNat : Int) - a.devno.toNat

structure DevInfos where
  infos : List CcwDevinfo
  sorted : infos.Pairwise fun a b => info_cmp a b ≤ 0
  distinct : (infos.map CcwDevinfo.devid).Nodup

/-! ## Groups of compatible devices -/

def count_compatible (start : CcwDevinfo) : List CcwDevinfo → Nat
  | [] => 0
  | curr :: infos => if is_compatible start curr then count_compatible start infos + 1 else 0

def check_seq (read write : Option CcwDevinfo) : List CcwDevinfo → Bool
  | [] => true
  | curr :: infos =>
    match read, write with
    | _, some _ => check_seq none none infos
    | some r, none =>
      if ccw_devid_distance r.devid curr.devid ≠ 1 then false else check_seq (some r) (some curr) infos
    | none, none => check_seq (some curr) none infos

def ccwgroup_devid (read write data : CcwDevinfo) : CcwgroupDevid := [read.devid, write.devid, data.devid]

def add_seq (read write : Option CcwDevinfo) : List CcwDevinfo → List CcwgroupDevid
  | [] => []
  | curr :: infos =>
    match read, write with
    | some r, some w => ccwgroup_devid r w curr :: add_seq none none infos
    | none, some _ => add_seq none none infos
    | some r, none => add_seq (some r) (some curr) infos
    | none, none => add_seq (some curr) none infos

/-- Pairs move from the list to the other one. The list is `kept`, `read`, and then the rest. -/
def move_pairs (max_pairs : Nat) (kept : List CcwDevinfo) (read : Option CcwDevinfo) (num_pairs : Nat) :
    List CcwDevinfo → List CcwDevinfo × List CcwDevinfo
  | [] => ([], kept ++ read.toList)
  | curr :: next =>
    match read with
    | none => move_pairs max_pairs kept (some curr) num_pairs next
    | some r =>
      if ccw_devid_distance r.devid curr.devid = 1 then
        if num_pairs + 1 ≥ max_pairs then ([r, curr], kept ++ next)
        else
          let (pairs, all) := move_pairs max_pairs kept none (num_pairs + 1) next
          (r :: curr :: pairs, all)
      else move_pairs max_pairs (kept ++ [r]) (some curr) num_pairs next

def full_groups (read : Option CcwDevinfo) : List CcwDevinfo → List CcwDevinfo → List CcwgroupDevid
  | [], _ => []
  | curr :: pairs, all =>
    match read with
    | none => full_groups (some curr) pairs all
    | some r =>
      match all with
      | [] => []
      | data :: all => ccwgroup_devid r curr data :: full_groups none pairs all

def add_pairs_first (all : List CcwDevinfo) : List CcwgroupDevid :=
  let (pairs, all) := move_pairs (all.length / QETH_NUM_DEVS) [] none 0 all
  full_groups none pairs all

def add_groups (infos : List CcwDevinfo) (num : Nat) : List CcwgroupDevid :=
  if check_seq none none (infos.take num) then add_seq none none (infos.take num)
  else add_pairs_first (infos.take num)

theorem is_compatible_refl (a : CcwDevinfo) : is_compatible a a = true := by
  have hmem : memcmp a.chpids a.chpids = 0 := (memcmp_eq rfl).mpr rfl
  simp only [is_compatible, ccw_devinfo_chpids_cmp, ccw_devinfo_cutype_cmp, ccw_devinfo_devtype_cmp,
    hmem, gt_iff_lt,
    UInt8.lt_irrefl, UInt16.lt_irrefl, if_false, beq_self_eq_true, Bool.and_self]

theorem count_pos (start : CcwDevinfo) (infos : List CcwDevinfo) : 0 < count_compatible start (start :: infos) := by
  rw [count_compatible, if_pos (is_compatible_refl start)]
  exact Nat.succ_pos _

def add_groupable_devids : List CcwDevinfo → List CcwgroupDevid
  | [] => []
  | start :: infos =>
    let num := count_compatible start (start :: infos)
    add_groups (start :: infos) num ++ add_groupable_devids ((start :: infos).drop num)
termination_by infos => infos.length
decreasing_by
  have hpos := count_pos start infos
  rw [List.length_drop, List.length_cons]
  omega

/-! ## The group of a read device -/

inductive ExitCode
  | group_not_found
  | group_invalid
  deriving DecidableEq

def find_read (ccw_devid : CcwDevid) (prev : Option CcwDevinfo) : List CcwDevinfo →
    Option (Option CcwDevinfo × CcwDevinfo × List CcwDevinfo)
  | [] => none
  | read :: next =>
    if ccw_cmp_devids read.devid ccw_devid = 0 then some (prev, read, next)
      else find_read ccw_devid (some read) next

def data_device (prev : Option CcwDevinfo) (r : CcwDevinfo) (next : List CcwDevinfo) : Option CcwDevinfo :=
  match next with
  | [] => prev
  | d :: _ => if is_compatible r d then some d else prev

def make_group (prev : Option CcwDevinfo) (r : CcwDevinfo) (next : List CcwDevinfo) :
    Except (ExitCode × String) CcwgroupDevid :=
  match next with
  | [] => .error (.group_not_found, "Write CCW device not found\n")
  | w :: next =>
    if ¬ is_compatible r w then .error (.group_invalid, "No compatible write CCW device found\n")
    else if ccw_devid_distance r.devid w.devid ≠ 1 then
      .error (.group_invalid, "Write CCW device ID must be read plus one\n")
    else
      match data_device prev r next with
      | none => .error (.group_not_found, "Data CCW device not found\n")
      | some d =>
        if ¬ is_compatible r d then .error (.group_invalid, "No compatible data CCW device found\n")
        else .ok (ccwgroup_devid r w d)

def qeth_auto_get_devid (infos : List CcwDevinfo) (ccw_devid : CcwDevid) :
    Except (ExitCode × String) CcwgroupDevid :=
  match (add_groupable_devids infos).find? fun devid => ccw_cmp_devids ccw_devid (first devid) == 0 with
  | some devid => .ok devid
  | none =>
    match find_read ccw_devid none infos with
    | none => .error (.group_not_found, "Read CCW device not found\n")
    | some (prev, r, next) => make_group prev r next

end Zdev.Qeth
