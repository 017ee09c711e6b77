import S390Tools.Lib.Arrange

/-!
# Selecting devices by their IDs

A device that matches some specification becomes a node of the result. The
specification notes its first node and hands it to all others that the device
matches; those without a node in the end get a node of their own with an error.
-/

namespace Zdev.Select

open Arrange

/-! ## Devices -/

structure Namespace where
  is_id_valid : String → Bool
  is_id_range_valid : String → Bool
  is_id_in_range : String → String → Bool
  cmp_ids : String → String → Int
  normalize_id : String → Option String

structure Device where
  id : String
  active_exists : Bool
  active_definable : Bool
  persistent_exists : Bool
  online : Int
  errors : Bool

inductive Config
  | active
  | persistent
  | all
  deriving DecidableEq

def EXIT_OK : Nat := 0
def EXIT_DEVICE_NOT_FOUND : Nat := 3
def EXIT_INCOMPLETE_TYPE : Nat := 14

/-- The device types with their subtypes, and what is known about a subtype. -/
structure System (DT ST : Type) where
  devtypes : List (DT × List ST)
  ns : ST → Namespace
  support_definable : ST → Bool
  /-- The devices in the order of `subtype_for_each_id`. -/
  devices : ST → Config → List Device

structure SelectOpts (DT ST : Type) where
  devids : List String
  devtype : Option DT
  subtype : Option ST
  all : Bool
  existing : Bool
  configured : Bool
  online : Bool
  offline : Bool
  failed : Bool

structure SelectedDevNode (DT ST : Type) where
  dt : Option DT
  st : Option ST
  id : String
  param : Option String
  rc : Nat
  deriving DecidableEq

/-- The nodes with their numbers, in the order of the list. -/
structure SelectedDevList (DT ST : Type) where
  nodes : List (SelectedDevNode DT ST × Nat)
  next : Nat

structure DevidSpec where
  spec : String
  /-- The number of the node. -/
  node : Option Nat
  exists_hint : Bool

section
variable {DT ST : Type} [DecidableEq DT] [DecidableEq ST] (sys : System DT ST) (opts : SelectOpts DT ST)

def nodeId (st : Option ST) (id : String) : String := (st.bind fun st => (sys.ns st).normalize_id id).getD id

def selected_dev_node_new (dt : Option DT) (st : Option ST) (id : String) (param : Option String) (rc : Nat) :
    SelectedDevNode DT ST := ⟨dt, st, nodeId sys st id, param, rc⟩

def selected_dev_list_add (selected : SelectedDevList DT ST) (node : SelectedDevNode DT ST) :
    SelectedDevList DT ST :=
  ⟨selected.nodes ++ [(node, selected.next)], selected.next + 1⟩

/-! ## Matching -/

def select_match_state (dev : Device) : Bool :=
  let active := dev.active_exists || dev.active_definable
  let configured := dev.persistent_exists
  !(opts.all && !(active || configured)) && !(opts.existing && !active) && !(opts.configured && !configured) &&
    !(opts.online && dev.online ≠ 1) && !(opts.offline && dev.online = 1) && !(opts.failed && !dev.errors)

def idMatches (ns : Namespace) (id spec : String) : Bool :=
  if ns.is_id_range_valid spec then ns.is_id_in_range id spec else ns.cmp_ids id spec = 0

def match_id (ns : Namespace) (id : String) (specs : List DevidSpec) : Option Nat :=
  specs.findIdx? fun s => idMatches ns id s.spec

def set_match (ns : Namespace) (id : String) (specs : List DevidSpec) (node : Nat) : List DevidSpec :=
  specs.map fun s => if s.node.isSome then s else if idMatches ns id s.spec then { s with node := some node } else s

abbrev Selection (DT ST : Type) := SelectedDevList DT ST × List DevidSpec

/-- `match_state_and_add` and what follows it, for a device that matches the `i`-th specification. -/
def addMatched (dt : DT) (st : ST) (dev : Device) (s : Selection DT ST) (i : Nat)
    (spec : DevidSpec) : Selection DT ST :=
  let specs := s.2.modify i fun x => { x with exists_hint := true }
  if !select_match_state opts dev then (s.1, specs)
  else
    let node := s.1.next
    let selected := selected_dev_list_add s.1
      (selected_dev_node_new sys (some dt) (some st) dev.id (some spec.spec) EXIT_OK)
    if spec.node.isSome then (selected, specs)
    else (selected, set_match (sys.ns st) dev.id (specs.modify i fun x => { x with node := some node }) node)

/-- `given` tells whether there are specifications at all. -/
def select_cb (given : Bool) (s : Selection DT ST) (x : DT × ST × Device) : Selection DT ST :=
  let (dt, st, dev) := x
  if !given then
    if !select_match_state opts dev then s
    else (selected_dev_list_add s.1 (selected_dev_node_new sys (some dt) (some st) dev.id none EXIT_OK), s.2)
  else
    match match_id (sys.ns st) dev.id s.2 with
    | none => s
    | some i =>
      match s.2[i]? with
      | none => s
      | some spec => addMatched sys opts dt st dev s i spec

def get_config (active persistent : Bool) : Config :=
  if active = persistent then .all else if active then .active else .persistent

def SCOPE_ACTIVE (config : Config) : Bool := config ≠ .persistent
def SCOPE_PERSISTENT (config : Config) : Bool := config ≠ .active

def idConfig (config : Config) : Config :=
  get_config (opts.existing || opts.all || opts.offline || opts.online || SCOPE_ACTIVE config)
    (opts.configured || opts.all || SCOPE_PERSISTENT config)

def found (config : Config) : List (DT × ST × Device) :=
  (sys.devtypes.filter fun d => opts.devtype.all (d.1 = ·)).flatMap fun d =>
    (d.2.filter fun st => opts.subtype.all (st = ·)).flatMap fun st =>
      (sys.devices st (idConfig opts config)).map fun dev => (d.1, st, dev)

def select_nocreate (quiet : Bool) (config : Config) (s : Selection DT ST) : Selection DT ST :=
  if !quiet && (found sys opts config).length = 0 then s
  else (found sys opts config).foldl (select_cb sys opts !s.2.isEmpty) s

/-! ## Specifications without a node -/

def derive_st (spec : String) : Option ST :=
  let sts := (sys.devtypes.flatMap (·.2)).filter fun st =>
    (sys.ns st).is_id_valid spec || (sys.ns st).is_id_range_valid spec
  match sts with
  | [st] => some st
  | _ => none

/-- Only definable devices are created; `create` stands for doing so. -/
def select_remaining (create : ST → DevidSpec → Selection DT ST → Selection DT ST) (s : Selection DT ST) :
    Selection DT ST :=
  s.2.foldl (fun s spec =>
    if spec.node.isSome then s
    else
      match opts.subtype.or (derive_st sys spec.spec) with
      | none => s
      | some st => if !sys.support_definable st then s else create st spec s) s

def failedNode (spec : DevidSpec) : SelectedDevNode DT ST :=
  selected_dev_node_new sys opts.devtype opts.subtype spec.spec (some spec.spec)
    (if opts.subtype.isSome || spec.exists_hint then EXIT_DEVICE_NOT_FOUND else EXIT_INCOMPLETE_TYPE)

def add_failed_devid_spec (selected : SelectedDevList DT ST) (spec : DevidSpec) (before : Option Nat) :
    SelectedDevList DT ST :=
  let node := (failedNode sys opts spec, selected.next)
  match before with
  | none => ⟨selected.nodes ++ [node], selected.next + 1⟩
  | some b => ⟨insertBefore b node selected.nodes, selected.next + 1⟩

def handle_unmatched_specs : List DevidSpec → SelectedDevList DT ST → SelectedDevList DT ST × Option Nat
  | [], selected => (selected, none)
  | spec :: specs, selected =>
    let r := handle_unmatched_specs specs selected
    match spec.node with
    | some node => (r.1, some node)
    | none => (add_failed_devid_spec sys opts r.1 spec r.2, some r.1.next)

def isDuplicate (sel s : SelectedDevNode DT ST × Nat) : Bool :=
  sel.1.dt = s.1.dt && sel.1.st = s.1.st && sel.1.id = s.1.id

def remove_duplicates (selected : SelectedDevList DT ST) : List (SelectedDevNode DT ST) :=
  (keepFirst isDuplicate selected.nodes.length selected.nodes).map Prod.fst

def select_devices (quiet : Bool) (create : ST → DevidSpec → Selection DT ST → Selection DT ST) (config : Config) :
    List (SelectedDevNode DT ST) :=
  let specs := opts.devids.map fun s => ⟨s, none, false⟩
  let s := select_nocreate sys opts quiet config (⟨[], 0⟩, specs)
  let s := select_remaining sys opts create s
  remove_duplicates (handle_unmatched_specs sys opts s.2 s.1).1

end

end Zdev.Select
