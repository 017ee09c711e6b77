import S390Tools.Lib.CString
import S390Tools.Vtoc.Ebcdic

/-!
# Load addresses (zipl/src/job.c)

The components of a job are sorted by the addresses that the user gave, checked, and
the others are put into the first gap that is large enough. An entry of the array
holds the address that its pointer leads to.
-/

namespace Zipl.Job

open Word Vtoc

def MINIMUM_ADDRESS : Nat := 0x10000
def ADDRESS_LIMIT : Nat := 0x80000000
def ADDRESS_LIMIT_KDUMP : Nat := 0x2000000
def UNSPECIFIED_ADDRESS : Nat := 0xffffffffffffffff
def MAXIMUM_PARMLINE_SIZE : Nat := 0x380
def MAXIMUM_PHYSICAL_BLOCKSIZE : Nat := 0x1000

/-- `ALIGN`, for a power of two. -/
def ALIGN (x : Int) (a : Nat) : Int := (x + (a - 1)) / a * a

inductive Component
  | image | parmline | ramdisk
  deriving DecidableEq

def Component.text : Component → List UInt8
  | .image => bytes "kernel image"
  | .parmline => bytes "parmline"
  | .ramdisk => bytes "initial ramdisk"

structure ComponentLoc where
  name : Component
  addr : Nat
  size : Nat
  align : Nat
  deriving DecidableEq

inductive AddressError
  | no_information
  | exceeds (name : Component) (address_limit : Nat)
  | falls_below (name : Component)
  | overlap (name name' : Component)
  | could_not_fit (name : Component)
  deriving DecidableEq

def hex8 (n : Nat) : List UInt8 := List.replicate (8 - (CString.hex n).length) 0x30 ++ CString.hex n

def AddressError.text : AddressError → List UInt8
  | .no_information => bytes "Could not get information for file"
  | .exceeds name address_limit => bytes "Component '" ++ name.text ++
      bytes "' exceeds available address space (limit is 0x" ++ hex8 address_limit ++ bytes ")"
  | .falls_below name => bytes "Component '" ++ name.text ++
      bytes "' falls below available address space (limit is 0x" ++ hex8 MINIMUM_ADDRESS ++ bytes ")"
  | .overlap name name' => bytes "Components '" ++ name.text ++ bytes "' and '" ++ name'.text ++ bytes "' overlap"
  | .could_not_fit name => bytes "Could not fit component '" ++ name.text ++ bytes "' into available address space"

/-- What `stat` says of a file. -/
structure Stat where
  st_size : Nat
  fits : st_size < 2 ^ 63

/-! ## Components -/

def set_cl_size (name : Component) (addr : Nat) (size align : Nat) : ComponentLoc :=
  ⟨name, addr, u64 (ALIGN size MAXIMUM_PHYSICAL_BLOCKSIZE), align⟩

/-- `set_cl_element` with a file, of which `off` bytes are skipped. -/
def set_cl_file (name : Component) (stats : Option Stat) (addr : Nat) (off align : Nat) :
    Except AddressError ComponentLoc :=
  match stats with
  | none => .error .no_information
  | some stats => .ok ⟨name, addr, u64 (ALIGN ((stats.st_size : Int) - off) MAXIMUM_PHYSICAL_BLOCKSIZE), align⟩

def set_cl_image (stats : Option Stat) (addr : Nat) : Except AddressError ComponentLoc :=
  set_cl_file .image stats addr 0x10000 MAXIMUM_PHYSICAL_BLOCKSIZE

def set_cl_parmline (addr : Nat) : ComponentLoc :=
  set_cl_size .parmline addr MAXIMUM_PARMLINE_SIZE MAXIMUM_PHYSICAL_BLOCKSIZE

def set_cl_ramdisk (stats : Option Stat) (addr : Nat) : Except AddressError ComponentLoc :=
  set_cl_file .ramdisk stats addr 0 0x10000

structure Addresses where
  image_addr : UInt64
  parm_addr : UInt64
  ramdisk_addr : UInt64

structure JobIplData where
  image : Option Stat
  parmline : Bool
  ramdisk : Option (Option Stat)
  addr : Addresses
  is_kdump : Bool

structure JobDumpData where
  image : Option Stat
  ramdisk : Option (Option Stat)
  addr : Addresses

structure JobIplTapeData where
  image : Option Stat
  parmline : Bool
  ramdisk : Option (Option Stat)
  addr : Addresses

def get_others (parmline : Bool) (ramdisk : Option (Option Stat)) (addr : Addresses) :
    Except AddressError (List ComponentLoc) := do
  let parm := if parmline then [set_cl_parmline addr.parm_addr.toNat] else []
  match ramdisk with
  | none => return parm
  | some stats => return parm ++ [← set_cl_ramdisk stats addr.ramdisk_addr.toNat]

def get_ipl_components (ipl : JobIplData) : Except AddressError (List ComponentLoc) := do
  return (← set_cl_image ipl.image ipl.addr.image_addr.toNat) :: (← get_others ipl.parmline ipl.ramdisk ipl.addr)

def get_dump_components (dump : JobDumpData) : Except AddressError (List ComponentLoc) := do
  return (← set_cl_image dump.image dump.addr.image_addr.toNat) :: (← get_others true dump.ramdisk dump.addr)

def get_ipl_tape_components (ipl_tape : JobIplTapeData) : Except AddressError (List ComponentLoc) := do
  let image ← set_cl_image ipl_tape.image ipl_tape.addr.image_addr.toNat
  let image := { image with size := u64 (ALIGN (u64 (image.size + 0x100)) MAXIMUM_PHYSICAL_BLOCKSIZE) }
  return image :: (← get_others ipl_tape.parmline ipl_tape.ramdisk ipl_tape.addr)

/-! ## Sorting -/

def lower (c min : ComponentLoc) : Bool :=
  c.addr ≠ UNSPECIFIED_ADDRESS && (min.addr = UNSPECIFIED_ADDRESS || c.addr < min.addr)

def select (before : List ComponentLoc) (min : ComponentLoc) (after : List ComponentLoc) :
    List ComponentLoc → ComponentLoc × List ComponentLoc
  | [] => (min, before ++ after)
  | c :: cl =>
    if lower c min then select (before ++ min :: after) c [] cl
    else select before min (after ++ [c]) cl

def sort_elements : Nat → List ComponentLoc → List ComponentLoc
  | 0, cl => cl
  | _ + 1, [] => []
  | n + 1, c :: cl =>
    let (min, rest) := select [] c [] cl
    min :: sort_elements n rest

def sort_cl_array (cl : List ComponentLoc) : List ComponentLoc := sort_elements cl.length cl

/-! ## Checks and placement -/

def check_limits (address_limit : Nat) : List ComponentLoc → Except AddressError Unit
  | [] => .ok ()
  | c :: cl =>
    if c.addr = UNSPECIFIED_ADDRESS then check_limits address_limit cl
    else if u64 (c.addr + c.size) > address_limit then .error (.exceeds c.name address_limit)
    else if c.addr < MINIMUM_ADDRESS then .error (.falls_below c.name)
    else check_limits address_limit cl

def check_overlap : List ComponentLoc → Except AddressError Unit
  | c :: c' :: cl =>
    if c.addr = UNSPECIFIED_ADDRESS ∨ c'.addr = UNSPECIFIED_ADDRESS then check_overlap (c' :: cl)
    else if u64 (c.addr + c.size) > c'.addr then .error (.overlap c.name c'.name)
    else check_overlap (c' :: cl)
  | _ => .ok ()

def check_component_address_data (cl : List ComponentLoc) (address_limit : Nat) : Except AddressError Unit := do
  check_limits address_limit cl
  check_overlap cl

/-- The first address to try behind component `j`, or before all. -/
def candidate (j : Option ComponentLoc) : Nat :=
  match j with
  | none => MINIMUM_ADDRESS
  | some c => max (u64 (c.addr + c.size)) MINIMUM_ADDRESS

/-- The loop over the components placed so far: `c` is put between `before` and `after`. -/
def place (address_limit : Nat) (c : ComponentLoc) (j : Option ComponentLoc) (before : List ComponentLoc) :
    List ComponentLoc → Option (List ComponentLoc)
  | [] =>
    let addr := u64 (ALIGN (candidate j) c.align)
    if u64 (addr + c.size) > address_limit then none else some (before ++ [{ c with addr := addr }])
  | c' :: after =>
    let addr := u64 (ALIGN (candidate j) c.align)
    if u64 (addr + c.size) > address_limit then none
    else if c'.addr ≠ UNSPECIFIED_ADDRESS ∧ u64 (addr + c.size) > c'.addr then
      place address_limit c (some c') (before ++ [c']) after
    else some (before ++ { c with addr := addr } :: c' :: after)

def place_all (address_limit : Nat) (placed : List ComponentLoc) : List ComponentLoc →
    Except AddressError Unit × List ComponentLoc
  | [] => (.ok (), placed)
  | c :: cl =>
    if c.addr ≠ UNSPECIFIED_ADDRESS then place_all address_limit (placed ++ [c]) cl
    else
      match place address_limit c none [] placed with
      | none => (.error (.could_not_fit c.name), placed ++ c :: cl)
      | some placed => place_all address_limit placed cl

def finalize_component_address_data (cl : List ComponentLoc) (address_limit : Nat) :
    Except AddressError Unit × List ComponentLoc :=
  place_all address_limit [] cl

def sort_components (components : Except AddressError (List ComponentLoc)) (address_limit : Nat) :
    Except AddressError (List ComponentLoc) := do
  let cl := sort_cl_array (← components)
  check_component_address_data cl address_limit
  return cl

def address (cl : List ComponentLoc) (name : Component) (addr : UInt64) : UInt64 :=
  match cl.find? (·.name = name) with
  | none => addr
  | some c => UInt64.ofNat c.addr

def Addresses.store (a : Addresses) (cl : List ComponentLoc) : Addresses where
  image_addr := address cl .image a.image_addr
  parm_addr := address cl .parmline a.parm_addr
  ramdisk_addr := address cl .ramdisk a.ramdisk_addr

def finalize_ipl_address_data (ipl : JobIplData) : Except AddressError Unit × JobIplData :=
  let address_limit := if ipl.is_kdump then ADDRESS_LIMIT_KDUMP else ADDRESS_LIMIT
  match sort_components (get_ipl_components ipl) address_limit with
  | .error e => (.error e, ipl)
  | .ok cl =>
    let (rc, cl) := finalize_component_address_data cl address_limit
    (rc, { ipl with addr := ipl.addr.store cl })

def finalize_dump_address_data (dump : JobDumpData) : Except AddressError Unit × JobDumpData :=
  match sort_components (get_dump_components dump) ADDRESS_LIMIT with
  | .error e => (.error e, dump)
  | .ok cl =>
    let (rc, cl) := finalize_component_address_data cl ADDRESS_LIMIT
    (rc, { dump with addr := dump.addr.store cl })

def ramdisk_behind_image (cl : List ComponentLoc) (a : Addresses) : Addresses :=
  if a.ramdisk_addr = 0 then
    cl.foldl (fun a c =>
      if c.addr = a.image_addr.toNat then { a with ramdisk_addr := UInt64.ofNat (u64 (c.addr + c.size)) } else a) a
  else a

def finalize_ipl_tape_address_data (ipl_tape : JobIplTapeData) : Except AddressError Unit × JobIplTapeData :=
  match sort_components (get_ipl_tape_components ipl_tape) ADDRESS_LIMIT with
  | .error e => (.error e, ipl_tape)
  | .ok cl =>
    let (rc, cl) := finalize_component_address_data cl ADDRESS_LIMIT
    (rc, { ipl_tape with addr := ramdisk_behind_image cl (ipl_tape.addr.store cl) })

end Zipl.Job
