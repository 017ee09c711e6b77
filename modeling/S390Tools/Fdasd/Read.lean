import S390Tools.Fdasd.Write

/-!
# Reading the table of contents

`fdasd_process_valid_vtoc` fills the partition structures from the data set
labels in the order they have on the disk, takes the data set numbers from the
names and derives the partitions from the extents.
-/

namespace Fdasd

open Word Vtoc CString

structure ReadState where
  anc : FdasdAnchor
  part_info : Option Node
  f1_counter : Nat
  f5_counter : Nat
  f7_counter : Nat

/-- The number behind the first `PART` of a name, counted from 0; -1 if there is none. -/
def partNumber (dsname : List UInt8) : Int :=
  match strstr dsname (bytes "PART") with
  | none => -1
  | some part_pos => atoi (ncopy (dsname.drop (part_pos + 4)) 4) - 1

def recode (f1 : Format1Label) : Format1Label :=
  { f1 with DS1DSNAM := vtoc_ebcdic_enc (vtoc_ebcdic_dec f1.DS1DSNAM) }

theorem toNat_lt_usable {part_no : Int} (h : 0 ≤ part_no ∧ part_no < USABLE_PARTITIONS) :
    part_no.toNat < USABLE_PARTITIONS := by
  omega

def setNumber (anc : FdasdAnchor) (part_no : Int) (pos : Nat) : FdasdAnchor :=
  if h : 0 ≤ part_no ∧ part_no < USABLE_PARTITIONS then setpos anc ⟨part_no.toNat, toNat_lt_usable h⟩ pos else anc

def readDataset (s : ReadState) (f1 : Format1Label) : ReadState :=
  match s.part_info with
  | none => s
  | some n =>
    let part_no := partNumber (vtoc_ebcdic_dec f1.DS1DSNAM ++ behindName f1)
    { s with
      anc := setNumber (s.anc.upd n fun p => { p with f1 := recode f1 }) part_no s.f1_counter
      part_info := s.anc.links.next n
      f1_counter := s.f1_counter + 1 }

def readLabel (s : ReadState) : Dscb → ReadState
  | .dataset f1 => if f1.DS1FMTID = 0xf1 ∨ f1.DS1FMTID = 0xf8 then readDataset s f1 else s
  | .fmt5 f5 =>
    if f5.DS5FMTID = 0xf5 then { s with anc := { s.anc with f5 := f5 }, f5_counter := s.f5_counter + 1 } else s
  | .fmt7 f7 =>
    if f7.DS7FMTID = 0xf7 then
      { s with
        anc := if s.f7_counter = 0 then { s.anc with f7 := f7 } else s.anc
        f7_counter := s.f7_counter + 1 }
    else s
  | .fmt4 _ => s
  | .fmt9 _ => s

/-- One pass of `fdasd_reorganize_FMT1s`: `j` neighbours from `part_info` on. -/
@[grind =] def reorganizePass : Nat → FdasdAnchor → Option Node → Except Stop FdasdAnchor
  | 0, anc, _ => .ok anc
  | j + 1, anc, part_info =>
    match deref part_info with
    | .error e => .error e
    | .ok p =>
      match deref (anc.links.next p) with
      | .error e => .error e
      | .ok q =>
        let f := (anc.info p).f1
        let g := (anc.info q).f1
        let anc :=
          if f.DS1FMTID < g.DS1FMTID then
            (anc.upd p fun i => { i with f1 := g }).upd q fun i => { i with f1 := f }
          else anc
        reorganizePass j anc (some q)

def fdasd_reorganize_FMT1s (anc : FdasdAnchor) : Except Stop FdasdAnchor :=
  (List.range' 1 (USABLE_PARTITIONS - 1)).foldlM
    (fun anc i => reorganizePass (USABLE_PARTITIONS - i) anc anc.first) anc

def isDataset (f1 : Format1Label) : Prop := f1.DS1FMTID = 0xf1 ∨ f1.DS1FMTID = 0xf8

instance (f1 : Format1Label) : Decidable (isDataset f1) := inferInstanceAs (Decidable (_ ∨ _))

def partitionOf (geo : HdGeometry) (p : PartitionInfo) : PartitionInfo :=
  let start_trk := cchh2trk p.f1.DS1EXT1.llimit geo
  let end_trk := cchh2trk p.f1.DS1EXT1.ulimit geo
  { p with
    used := 0x01, start_trk := start_trk, end_trk := end_trk, len_trk := u64 ((end_trk : Int) - start_trk + 1) }

/-- One round of `fdasd_update_partition_info`; there is no previous structure in the first one. -/
def updatePartition (geo : HdGeometry) (max : Nat) (last : Bool) (anc : FdasdAnchor) (prev_part_info : Option Node)
    (part_info : Node) : FdasdAnchor :=
  let anc := anc.upd part_info (partitionOf geo)
  let start_trk := (anc.info part_info).start_trk
  match prev_part_info with
  | none => { anc with fspace_trk := u64 ((start_trk : Int) - FIRST_USABLE_TRK) }
  | some q =>
    let anc := if last then anc.setGap part_info (u64 ((max : Int) - (anc.info part_info).end_trk)) else anc
    anc.setGap q (u64 ((start_trk : Int) - (anc.info q).end_trk - 1))

def updatePartitions (geo : HdGeometry) (max : Nat) :
    Nat → FdasdAnchor → Option Node → Option Node → Except Stop FdasdAnchor
  | 0, anc, _, _ => .ok anc
  | i + 1, anc, prev_part_info, part_info =>
    match deref part_info with
    | .error e => .error e
    | .ok p =>
      if ¬ isDataset (anc.info p).f1 then
        match prev_part_info with
        | none => .ok { anc with fspace_trk := u64 ((max : Int) - FIRST_USABLE_TRK + 1) }
        | some q => .ok (anc.setGap q (u64 ((max : Int) - (anc.info q).end_trk)))
      else
        updatePartitions geo max i (updatePartition geo max (i == 0) anc prev_part_info p) (some p)
          (anc.links.next p)

def fdasd_update_partition_info (geo : HdGeometry) (anc : FdasdAnchor) : Except Stop FdasdAnchor :=
  let anc := { anc with used_partitions := u32 ((geo.sectors : Int) - 2 - anc.f4.DS4DSREC) }
  updatePartitions geo (u32 ((anc.formatted_cylinders * geo.heads : Nat) - 1)) USABLE_PARTITIONS anc none anc.first

def formattedCylinders (f4 : Format4Label) : Nat :=
  if f4.DS4DEVCT.DS4DSCYL = LV_COMPAT_CYL ∧ f4.DS4DCYL > f4.DS4DEVCT.DS4DSCYL then f4.DS4DCYL
  else f4.DS4DEVCT.DS4DSCYL

def readLabels (geo : HdGeometry) (anc : FdasdAnchor) (vol : Volume) (blk : Nat) : ReadState :=
  (List.range' 1 (geo.sectors - 1)).foldl (fun s i => readLabel s (vol (blk + i * anc.blksize)))
    ⟨anc, anc.first, 0, 0, 0⟩

def setFormatted (geo : HdGeometry) (anc : FdasdAnchor) : FdasdAnchor :=
  { anc with
    formatted_cylinders := formattedCylinders anc.f4
    fspace_trk := u32 ((formattedCylinders anc.f4 * geo.heads : Nat) - FIRST_USABLE_TRK) }

def initMissing (s : ReadState) : FdasdAnchor :=
  let anc :=
    if s.f5_counter = 0 ∨ s.anc.big_disk ≠ 0 then { s.anc with f5 := vtoc_init_format5_label } else s.anc
  if s.f7_counter = 0 then { anc with f7 := vtoc_init_format7_label } else anc

def fdasd_process_valid_vtoc (geo : HdGeometry) (anc : FdasdAnchor) (vol : Volume) (blk : Nat) :
    Except Stop FdasdAnchor := do
  let anc ← fdasd_reorganize_FMT1s (initMissing (readLabels geo (setFormatted geo anc) vol blk))
  fdasd_update_partition_info geo anc

/-- `fdasd_valid_vtoc_pointer` where the pointer leads to a format 4 label. -/
def readVtoc (geo : HdGeometry) (anc : FdasdAnchor) (vol : Volume) : Option (Except Stop FdasdAnchor) :=
  let blk := vtocStart geo anc
  match vol blk with
  | .fmt4 f4 =>
    if f4.DS4IDFMT = 0xf4 then some (fdasd_process_valid_vtoc geo { anc with f4 := f4 } vol blk) else none
  | _ => none

end Fdasd
