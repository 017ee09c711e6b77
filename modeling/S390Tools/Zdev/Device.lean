import S390Tools.Zdev.Ccw
import S390Tools.Zdev.Hash

/-!
# Device lists (zdev/src/device.c, zdev/src/export.c)

Devices of an arbitrary set of subtypes, each with the ID functions of its namespace. The
settings of a device are left out.
-/

namespace Zdev.Devices

/-- The ID functions of a namespace, and what all of them keep. -/
structure Namespace (Id : Type) where
  normalize_id : List UInt8 → Option (List UInt8)
  parse_id : List UInt8 → Option Id
  cmp_parsed_ids : Id → Id → Int
  hash_buckets : Nat
  hash_parsed_id : Option (Id → Nat)
  normalize_parse : ∀ id, (normalize_id id).isSome = (parse_id id).isSome
  cmp_eq : ∀ a b, cmp_parsed_ids a b = 0 ↔ a = b
  hashed : hash_parsed_id.isSome ↔ 0 < hash_buckets
  inside : ∀ f ∈ hash_parsed_id, ∀ id, f id < hash_buckets

structure Device (S Id : Type) where
  subtype : S
  id : List UInt8
  devid : Id
  deriving DecidableEq

abbrev DeviceList (S Id : Type) := Hash (Device S Id) Id

section
variable {S Id : Type} (ns : S → Namespace Id)

def device_new (st : S) (id : List UInt8) : Option (Device S Id) := do
  return { subtype := st, id := ← (ns st).normalize_id id, devid := ← (ns st).parse_id id }

def device_list_new (st : S) : DeviceList S Id :=
  hash_init (ns st).hash_buckets (·.devid) (ns st).cmp_parsed_ids (ns st).hash_parsed_id

def device_list_add (list : DeviceList S Id) (device : Device S Id) : Option (DeviceList S Id) :=
    hash_add list device

/-! ## Lists -/

def list_of (st : S) (devices : List (Device S Id)) : Option (DeviceList S Id) :=
  devices.foldlM device_list_add (device_list_new ns st)

structure Holds (st : S) (devices : List (Device S Id)) (list : DeviceList S Id) : Prop where
  filed : list.Filed
  devices : list.list = devices
  get_id : list.get_id = (·.devid)
  cmp_id : list.cmp_id = (ns st).cmp_parsed_ids
  get_hash : list.get_hash = (ns st).hash_parsed_id

structure Distinct (st : S) (devices : List (Device S Id)) : Prop where
  subtype : ∀ d ∈ devices, d.subtype = st
  ids : devices.Pairwise fun a b => a.devid ≠ b.devid

variable {ns} {st : S} {devices : List (Device S Id)} {list : DeviceList S Id}

theorem new_holds : Holds ns st [] (device_list_new ns st) where
  filed := hash_init_filed (ns st).hashed (ns st).inside
  devices := rfl
  get_id := rfl
  cmp_id := rfl
  get_hash := rfl

theorem Holds.add (h : Holds ns st devices list) (dev : Device S Id) :
    ∃ list', device_list_add list dev = some list' ∧ Holds ns st (devices ++ [dev]) list' := by
  obtain ⟨list', hadd, hfiled, hlist'⟩ := h.filed.add dev
  refine ⟨list', hadd, hfiled, ?_, ?_, ?_, ?_⟩
  · rw [hlist', ← h.devices]
  · rw [hlist']
    exact h.get_id
  · rw [hlist']
    exact h.cmp_id
  · rw [hlist']
    exact h.get_hash

theorem Holds.foldl : ∀ {before added : List (Device S Id)} {list : DeviceList S Id}, Holds ns st before list →
    ∃ list', added.foldlM device_list_add list = some list' ∧ Holds ns st (before ++ added) list'
  | before, [], list, h => ⟨list, rfl, by rwa [List.append_nil]⟩
  | before, dev :: added, list, h => by
    obtain ⟨list', hadd, h'⟩ := h.add dev
    obtain ⟨list'', hrest, h''⟩ := @Holds.foldl _ added _ h'
    refine ⟨list'', ?_, ?_⟩
    · rw [List.foldlM_cons, hadd]
      exact hrest
    · rwa [List.append_assoc] at h''

variable (ns st) in
theorem list_of_holds (devices : List (Device S Id)) : ∃ list, list_of ns st devices = some list ∧
    Holds ns st devices list :=
  new_holds.foldl

theorem holds_of_list_of (h : list_of ns st devices = some list) : Holds ns st devices list := by
  obtain ⟨list', hof, hholds⟩ := list_of_holds ns st devices
  obtain rfl := Option.some.inj (hof.symm.trans h)
  exact hholds

theorem list_of_append {dev : Device S Id} {list' : DeviceList S Id} (hlist : list_of ns st devices = some list)
    (hadd : device_list_add list dev = some list') : list_of ns st (devices ++ [dev]) = some list' := by
  rw [list_of, List.foldlM_append, ← list_of, hlist]
  simp only [List.foldlM_cons, List.foldlM_nil, Option.bind_eq_bind, Option.bind_some, hadd]
  rfl

theorem Distinct.add (hdist : Distinct st devices) {dev : Device S Id} (hst : dev.subtype = st)
    (hnew : ∀ d ∈ devices, d.devid ≠ dev.devid) : Distinct st (devices ++ [dev]) where
  subtype d hd := by
    rcases List.mem_append.mp hd with hd | hd
    · exact hdist.subtype d hd
    · rw [List.mem_singleton.mp hd, hst]
  ids := List.pairwise_append.mpr ⟨hdist.ids, List.pairwise_singleton _ _, fun d hd e he => by
    rw [List.mem_singleton.mp he]
    exact hnew d hd⟩

theorem device_new_eq {id : List UInt8} {devid : Id} (hid : (ns st).parse_id id = some devid) :
    ∃ dev, device_new ns st id = some dev ∧ dev.subtype = st ∧ dev.devid = devid := by
  have hnorm : ((ns st).normalize_id id).isSome := by rw [(ns st).normalize_parse, hid, Option.isSome_some]
  obtain ⟨text, hnorm⟩ := Option.isSome_iff_exists.mp hnorm
  refine ⟨{ subtype := st, id := text, devid }, ?_, rfl, rfl⟩
  rw [device_new, hnorm, hid]
  rfl

/-! ## Searching -/

section
variable [DecidableEq S] [DecidableEq Id] (ns)

def device_list_find (list : DeviceList S Id) (id : List UInt8) (start : Option (Device S Id)) :
    Option (Option (Device S Id)) :=
  match start.or list.list.head? with
  | none => some none
  | some dev =>
    match (ns dev.subtype).parse_id id with
    | none => some (some dev)
    | some devid =>
      if start.isNone && list.get_hash.isSome then hash_find_by_id list devid
      else some ((list.list.dropWhile (· ≠ dev)).find? fun d => (ns dev.subtype).cmp_parsed_ids d.devid devid = 0)

def handle_device_header (list : DeviceList S Id) (st : S) (id : List UInt8) :
    Option (Option (Device S Id) × DeviceList S Id) := do
  match ← device_list_find ns list id none with
  | some dev => return (some dev, list)
  | none =>
    match device_new ns st id with
    | none => return (none, list)
    | some dev => return (some dev, ← device_list_add list dev)

end

variable [DecidableEq Id]

def lookup (devices : List (Device S Id)) (devid : Id) : Option (Device S Id) :=
    devices.find? fun d => d.devid = devid

theorem lookup_eq_some (hdist : Distinct st devices) {devid : Id} {d : Device S Id} :
    lookup devices devid = some d ↔ d ∈ devices ∧ d.devid = devid := by
  obtain ⟨_, hids⟩ := hdist
  unfold lookup
  induction devices with
  | nil => simp
  | cons e devices ih =>
    obtain ⟨hfirst, hrest⟩ := List.pairwise_cons.mp hids
    by_cases he : e.devid = devid
    · rw [List.find?_cons_of_pos (by simpa using he)]
      constructor
      · intro h
        obtain rfl := Option.some.inj h
        exact ⟨List.mem_cons_self, he⟩
      · intro ⟨hd, hdevid⟩
        rcases List.mem_cons.mp hd with rfl | hd
        · rfl
        · exact absurd (he.trans hdevid.symm) (hfirst d hd)
    · rw [List.find?_cons_of_neg (by simpa using he), ih (fun d hd => by simp_all) hrest]
      constructor
      · intro ⟨hd, hdevid⟩
        exact ⟨List.mem_cons_of_mem e hd, hdevid⟩
      · intro ⟨hd, hdevid⟩
        rcases List.mem_cons.mp hd with rfl | hd
        · exact absurd hdevid he
        · exact ⟨hd, hdevid⟩

theorem cmp_lookup (devid : Id) :
    devices.find? (fun d => (ns st).cmp_parsed_ids d.devid devid = 0) = lookup devices devid := by
  unfold lookup
  congr 1
  funext d
  exact decide_eq_decide.mpr ((ns st).cmp_eq _ _)

variable [DecidableEq S]

theorem Holds.find_empty (h : Holds ns st [] list) (id : List UInt8) :
    device_list_find ns list id none = some none := by
  rw [device_list_find, h.devices]
  rfl

theorem Holds.find_invalid {dev : Device S Id} {rest : List (Device S Id)} (h : Holds ns st (dev :: rest) list)
    (hst : dev.subtype = st) {id : List UInt8} (hid : (ns st).parse_id id = none) :
    device_list_find ns list id none = some (some dev) := by
  rw [device_list_find, h.devices]
  dsimp only [List.head?_cons, Option.none_or]
  rw [hst, hid]

theorem Holds.find_valid {dev : Device S Id} {rest : List (Device S Id)} (h : Holds ns st (dev :: rest) list)
    (hst : dev.subtype = st) {id : List UInt8} {devid : Id} (hid : (ns st).parse_id id = some devid) :
    device_list_find ns list id none = some (lookup (dev :: rest) devid) := by
  rw [device_list_find, h.devices]
  dsimp only [List.head?_cons, Option.none_or]
  rw [hst, hid]
  dsimp only
  by_cases hhash : list.get_hash.isSome = true
  · rw [if_pos (by rw [hhash]; rfl), h.filed.find (fun a b => ?_) hhash, h.devices, h.get_id, h.cmp_id, cmp_lookup]
    rw [h.cmp_id]
    exact ((ns st).cmp_eq a b).mp
  · rw [if_neg (by simpa using hhash), List.dropWhile_cons_of_neg (by simp), cmp_lookup]

theorem Holds.find_from {dev : Device S Id} {rest : List (Device S Id)} (h : Holds ns st (dev :: rest) list)
    (hst : dev.subtype = st) (id : List UInt8) :
    device_list_find ns list id (some dev) = device_list_find ns list id none := by
  cases hid : (ns st).parse_id id with
  | none =>
    rw [h.find_invalid hst hid, device_list_find]
    dsimp only [Option.some_or]
    rw [hst, hid]
  | some devid =>
    rw [h.find_valid hst hid, device_list_find]
    dsimp only [Option.some_or]
    rw [hst, hid]
    dsimp only
    rw [if_neg (by simp), h.devices, List.dropWhile_cons_of_neg (by simp), cmp_lookup]

/-! ## Exactness -/

/-- The device with the ID if there is one, from the buckets and from the list. -/
def Exact (ns : S → Namespace Id) (st : S) (devices : List (Device S Id)) (list : DeviceList S Id)
    (id : List UInt8) :
    Prop :=
  ∃ found, device_list_find ns list id none = some found ∧
    (∀ d, found = some d ↔ d ∈ devices ∧ (ns st).parse_id id = some d.devid) ∧
    ∀ first ∈ devices.head?, device_list_find ns list id (some first) = some found

theorem Holds.exact_empty (h : Holds ns st [] list) (id : List UInt8) : Exact ns st [] list id := by
  refine ⟨none, h.find_empty id, fun d => ⟨fun hd => ?_, fun hd => ?_⟩, fun first hfirst => ?_⟩
  · cases hd
  · cases hd.1
  · cases hfirst

theorem Holds.exact_valid {dev : Device S Id} {rest : List (Device S Id)} (h : Holds ns st (dev :: rest) list)
    (hdist : Distinct st (dev :: rest)) {id : List UInt8} {devid : Id} (hid : (ns st).parse_id id = some devid) :
    Exact ns st (dev :: rest) list id := by
  have hst := hdist.subtype dev List.mem_cons_self
  refine ⟨lookup (dev :: rest) devid, h.find_valid hst hid, fun d => ?_, fun first hfirst => ?_⟩
  · rw [lookup_eq_some hdist, hid, Option.some.injEq]
    exact and_congr_right' eq_comm
  · obtain rfl := Option.some.inj hfirst
    rw [h.find_from hst, h.find_valid hst hid]

theorem Holds.not_exact {dev : Device S Id} {rest : List (Device S Id)} (h : Holds ns st (dev :: rest) list)
    (hst : dev.subtype = st) {id : List UInt8} (hid : (ns st).parse_id id = none) :
    ¬Exact ns st (dev :: rest) list id := by
  intro ⟨found, hfind, hfound, _⟩
  rw [h.find_invalid hst hid] at hfind
  have hparsed := ((hfound dev).mp (Option.some.inj hfind).symm).2
  rw [hid] at hparsed
  cases hparsed

/-- An ID that does not parse finds the first device. -/
theorem device_list_find_exact (ns : S → Namespace Id) {st : S} {devices : List (Device S Id)}
    (hdist : Distinct st devices) (id : List UInt8) :
    ∃ list, list_of ns st devices = some list ∧
      (Exact ns st devices list id ↔ devices = [] ∨ ((ns st).parse_id id).isSome) := by
  obtain ⟨list, hof, h⟩ := list_of_holds ns st devices
  refine ⟨list, hof, ?_⟩
  cases devices with
  | nil => exact ⟨fun _ => .inl rfl, fun _ => h.exact_empty id⟩
  | cons dev rest =>
    cases hid : (ns st).parse_id id with
    | none =>
      refine ⟨fun hexact => absurd hexact (h.not_exact (hdist.subtype dev List.mem_cons_self) hid), fun hcond => ?_⟩
      rcases hcond with hcond | hcond
      · cases hcond
      · cases hcond
    | some devid => exact ⟨fun _ => .inr rfl, fun _ => h.exact_valid hdist hid⟩

/-! ## Registering -/

theorem header_registers (hof : list_of ns st devices = some list) (hdist : Distinct st devices) {id : List UInt8}
    {devid : Id} (hid : (ns st).parse_id id = some devid) :
    ∃ dev devices' list', handle_device_header ns list st id = some (some dev, list') ∧ dev.devid = devid ∧
      dev ∈ devices' ∧ devices <+: devices' ∧ Distinct st devices' ∧ list_of ns st devices' = some list' := by
  have h := holds_of_list_of hof
  have hfind : device_list_find ns list id none = some (lookup devices devid) := by
    cases devices with
    | nil => exact h.find_empty id
    | cons dev rest => exact h.find_valid (hdist.subtype dev List.mem_cons_self) hid
  cases hlookup : lookup devices devid with
  | some dev =>
    obtain ⟨hmem, hdevid⟩ := (lookup_eq_some hdist).mp hlookup
    refine ⟨dev, devices, list, ?_, hdevid, hmem, List.prefix_rfl, hdist, hof⟩
    rw [handle_device_header, hfind, hlookup]
    rfl
  | none =>
    obtain ⟨dev, hnew, hst, hdevid⟩ := device_new_eq hid
    obtain ⟨list', hadd, _⟩ := h.add dev
    refine ⟨dev, devices ++ [dev], list', ?_, hdevid, List.mem_append_right _ List.mem_cons_self,
      List.prefix_append _ _, hdist.add hst fun d hd hd' => ?_, list_of_append hof hadd⟩
    · rw [handle_device_header, hfind, hlookup]
      simp only [Option.bind_eq_bind, Option.bind_some, hnew, hadd]
      rfl
    · have hfound := (lookup_eq_some hdist).mpr ⟨hd, hd'.trans hdevid⟩
      rw [hlookup] at hfound
      cases hfound

end

/-! ## CCW devices -/

open Ccw

def ccw_hash_by_parsed_id (devid : CcwDevid) : Nat := (devid.devno &&& 0xff).toNat

def ccw_namespace (bare : Bool) : Namespace CcwDevid where
  normalize_id := ccw_normalize_id bare
  parse_id := ccw_parse_devid_simple bare
  cmp_parsed_ids := ccw_cmp_parsed_ids
  hash_buckets := 256
  hash_parsed_id := some ccw_hash_by_parsed_id
  normalize_parse id := by rw [ccw_normalize_id, Option.isSome_map]
  cmp_eq _ _ := cmp_eq
  hashed := by decide
  inside f hf id := by
    obtain rfl := Option.some.inj hf
    rw [ccw_hash_by_parsed_id, UInt16.toNat_and]
    exact Nat.lt_succ_of_le Nat.and_le_right

def ccw_device (devno : UInt16) : Device Unit CcwDevid :=
  { subtype := (), id := ccw_devid_to_str ⟨0, 0, devno⟩, devid := ⟨0, 0, devno⟩ }

def two_devices : List (Device Unit CcwDevid) := [ccw_device 0x1234, ccw_device 0x5634]

theorem two_devices_distinct : Distinct () two_devices :=
  ⟨by simp [two_devices, ccw_device], by decide⟩

theorem device_list_find_exact_ccw : ∃ list, list_of (fun _ => ccw_namespace false) () two_devices = some list ∧
    Exact (fun _ => ccw_namespace false) () two_devices list (chars "0.0.5634") := by
  obtain ⟨list, hof, hexact⟩ :=
    device_list_find_exact (fun _ => ccw_namespace false) two_devices_distinct (chars "0.0.5634")
  exact ⟨list, hof, hexact.mpr (.inr (by decide +kernel))⟩

/-- A third device for the same bucket. -/
theorem header_registers_ccw : ∃ list dev devices' list',
    list_of (fun _ => ccw_namespace false) () two_devices = some list ∧
      handle_device_header (fun _ => ccw_namespace false) list () (chars "0.0.9a34") = some (some dev, list') ∧
        dev.devid = ⟨0, 0, 0x9a34⟩ ∧ dev ∈ devices' ∧ two_devices <+: devices' ∧ Distinct () devices' ∧
          list_of (fun _ => ccw_namespace false) () devices' = some list' := by
  obtain ⟨list, hof, -⟩ := list_of_holds (fun _ => ccw_namespace false) () two_devices
  obtain ⟨dev, devices', list', h⟩ :=
    header_registers hof two_devices_distinct (show (ccw_namespace false).parse_id (chars "0.0.9a34") =
    some ⟨0, 0, 0x9a34⟩ by decide +kernel)
  exact ⟨list, dev, devices', list', hof, h⟩

/-- No ID, and the device that is found for it. -/
theorem invalid_id_found :
    ¬∀ (devices : List (Device Unit CcwDevid)) (list : DeviceList Unit CcwDevid) (id : List UInt8),
      Distinct () devices →
      list_of (fun _ => ccw_namespace false) () devices = some list →
        Exact (fun _ => ccw_namespace false) () devices list id := by
  intro h
  obtain ⟨list, hof, hholds⟩ := list_of_holds (fun _ => ccw_namespace false) () [ccw_device 0x1234]
  exact hholds.not_exact rfl (by decide +kernel)
    (h [ccw_device 0x1234] list (chars "foo") ⟨by simp [ccw_device], List.pairwise_singleton _ _⟩ hof)

end Zdev.Devices
