import S390Tools.Lib.Word
import S390Tools.Lib.Compact

/-!
# Block pointers

zipl describes files by lists of pointers to disk blocks. Pointers to adjacent
blocks are merged into one pointer with a block count.
-/

namespace Zipl

open Word

inductive DiskType
  | scsi | fba | diag | eckd_ldl | eckd_cdl
  deriving DecidableEq

structure HdGeometry where
  heads : UInt8
  sectors : UInt8

structure DiskInfo where
  type : DiskType
  phy_block_size : Nat
  geo : HdGeometry

structure DiskBlockptrChs where
  cyl : Int
  head : Int
  sec : Int
  size : Int
  blockct : Int
  deriving DecidableEq

structure DiskBlockptrLinear where
  block : Nat
  size : Int
  blockct : Int
  deriving DecidableEq

/-- A union in the source: the type of the disk decides which member is used. -/
@[ext]
structure DiskBlockptr where
  chs : DiskBlockptrChs
  linear : DiskBlockptrLinear
  deriving DecidableEq

def DiskBlockptr.zero : DiskBlockptr := ⟨⟨0, 0, 0, 0, 0⟩, ⟨0, 0, 0⟩⟩

/-! ## Pointers from block numbers -/

def disk_cyl_from_blocknum (blocknum : Nat) (info : DiskInfo) : Int :=
  i32 (blocknum / (info.geo.heads.toNat * info.geo.sectors.toNat) : Nat)

def disk_head_from_blocknum (blocknum : Nat) (info : DiskInfo) : Int :=
  i32 (blocknum / info.geo.sectors.toNat % info.geo.heads.toNat : Nat)

def disk_sec_from_blocknum (blocknum : Nat) (info : DiskInfo) : Int :=
  i32 (blocknum % info.geo.sectors.toNat + 1 : Nat)

def disk_blockptr_from_blocknum (ptr : DiskBlockptr) (blocknum : Nat) (info : DiskInfo) : DiskBlockptr :=
  match info.type with
  | .scsi | .fba | .diag => { ptr with linear := ⟨blocknum, info.phy_block_size, 0⟩ }
  | .eckd_ldl | .eckd_cdl =>
    if blocknum = 0 then { ptr with chs := ⟨0, 0, 0, info.phy_block_size, 0⟩ }
    else
      { ptr with
        chs := ⟨disk_cyl_from_blocknum blocknum info, disk_head_from_blocknum blocknum info,
          disk_sec_from_blocknum blocknum info, info.phy_block_size, 0⟩ }

def disk_is_zero_block (block : DiskBlockptr) (info : DiskInfo) : Bool :=
  match info.type with
  | .scsi | .fba => block.linear.block = 0
  | .eckd_ldl | .eckd_cdl => block.chs.cyl = 0 ∧ block.chs.head = 0 ∧ block.chs.sec = 0
  | .diag => false

/-! ## Compaction -/

def DASD_MAX_LINK_COUNT : Nat := 255
def SCSI_MAX_LINK_COUNT : Nat := 65535

def maxLinkCount (info : DiskInfo) : Nat := if info.type = .scsi then SCSI_MAX_LINK_COUNT else DASD_MAX_LINK_COUNT

def can_merge_blocks (info : DiskInfo) (first second : DiskBlockptr) : Bool :=
  if disk_is_zero_block first info ∨ disk_is_zero_block second info then false
  else
    match info.type with
    | .scsi | .fba =>
      if first.linear.blockct + second.linear.blockct + 1 > maxLinkCount info then false
      else u64 (first.linear.block + first.linear.blockct + 1) = second.linear.block
    | .eckd_ldl | .eckd_cdl =>
      if first.chs.blockct + second.chs.blockct + 1 > maxLinkCount info then false
      else first.chs.cyl = second.chs.cyl ∧ first.chs.head = second.chs.head ∧
        first.chs.sec + first.chs.blockct + 1 = second.chs.sec
    | .diag => false

def merge_blocks (info : DiskInfo) (first second : DiskBlockptr) : DiskBlockptr :=
  match info.type with
  | .scsi | .fba =>
    { first with linear := { first.linear with blockct := first.linear.blockct + (second.linear.blockct + 1) } }
  | .eckd_ldl | .eckd_cdl =>
    { first with chs := { first.chs with blockct := first.chs.blockct + (second.chs.blockct + 1) } }
  | .diag => first

def disk_compact_blocklist (list : Nat → DiskBlockptr) (count : Nat) (info : DiskInfo) :
    (Nat → DiskBlockptr) × Nat :=
  if count < 2 then (list, count)
  else Compact.inPlace (can_merge_blocks info) (merge_blocks info) (count - 1) 1 0 list

/-! ## Pointers on the disk -/

/-- `struct linear_blockptr` and `struct eckd_blockptr`. -/
inductive StoredPtr
  | linear (blockno size blockct : Nat)
  | eckd (cyl head sec size blockct : Nat)
  deriving DecidableEq

def get_blockptr_size (info : DiskInfo) : Nat :=
  match info.type with
  | .scsi | .fba => 16
  | .eckd_ldl | .eckd_cdl => 16
  | .diag => 0

def zeroPtr (info : DiskInfo) : StoredPtr :=
  match info.type with
  | .scsi | .fba | .diag => .linear 0 0 0
  | .eckd_ldl | .eckd_cdl => .eckd 0 0 0 0 0

def bootmap_store_blockptr (ptr : Option DiskBlockptr) (info : DiskInfo) : StoredPtr :=
  match ptr with
  | none => zeroPtr info
  | some ptr =>
    match info.type with
    | .scsi | .fba => .linear ptr.linear.block (u16 ptr.linear.size) (u16 ptr.linear.blockct)
    | .eckd_ldl | .eckd_cdl =>
      -- the head shares its field with bits 16 to 27 of the cylinder
      .eckd (u16 ptr.chs.cyl) (u16 (u32 ptr.chs.head ||| ((u32 ptr.chs.cyl >>> 12) &&& 0xfff0) :
        Nat)) (u8 ptr.chs.sec)
        (u16 ptr.chs.size) (u8 ptr.chs.blockct)
    | .diag => zeroPtr info

/-! ## Reading pointers -/

/-- What a pointer says about the place of its first block. -/
inductive Addr
  | linear (blockno : Nat)
  | eckd (cyl head sec : Nat)
  deriving DecidableEq

def Addr.add : Addr → Nat → Addr
  | .linear blockno, i => .linear (blockno + i)
  | .eckd cyl head sec, i => .eckd cyl head (sec + i)

def StoredPtr.addr : StoredPtr → Addr
  | .linear blockno _ _ => .linear blockno
  | .eckd cyl head sec _ _ => .eckd cyl head sec

def StoredPtr.blockct : StoredPtr → Nat
  | .linear _ _ blockct => blockct
  | .eckd _ _ _ _ blockct => blockct

def StoredPtr.blocks (p : StoredPtr) : List Addr := (List.range (p.blockct + 1)).map p.addr.add

def is_null_descriptor : StoredPtr → Bool
  | .linear blockno _ _ => blockno = 0
  | .eckd cyl head sec size blockct => cyl = 0 ∧ head = 0 ∧ sec = 0 ∧ size = 0 ∧ blockct = 0

def blockAddr (info : DiskInfo) (blocknum : Nat) : Addr :=
  (bootmap_store_blockptr (some (disk_blockptr_from_blocknum .zero blocknum info)) info).addr

end Zipl
