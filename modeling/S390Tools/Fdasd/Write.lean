import S390Tools.Lib.CString
import S390Tools.Fdasd.Commands

/-!
# Writing the table of contents

`fdasd_write_vtoc_labels` gives every used partition its data set name and
stores the labels behind the position the volume label points to. The position
of a partition in the list and the number in its data set name are connected by
`partno`.
-/

namespace Fdasd

open Word Vtoc CString

/-- A record of the table of contents; each label carries its own format identifier. -/
inductive Dscb
  | dataset (f1 : Format1Label)
  | fmt4 (f4 : Format4Label)
  | fmt5 (f5 : Format5Label)
  | fmt7 (f7 : Format7Label)
  | fmt9 (f9 : Format9Label)

abbrev Volume := Nat → Dscb

def vtoc_write_label (vol : Volume) (position : Nat) (label : Dscb) : Volume := Function.update vol position label

/-! ## Data set names -/

def partition_types : List (List UInt8 × Nat) :=
  [(bytes "NEW", 1), (bytes "NATIVE", 1), (bytes "SWAP", 2), (bytes "RAID", 3), (bytes "LVM", 4), (bytes "GPFS", 5)]

def PARTITION_NATIVE : Nat := 1

def get_part_type_by_dsname (dsname : List UInt8) : Option Nat :=
  (partition_types.find? fun t => (strstr dsname t.1).isSome).map (·.2)

def get_part_dsname_by_type (type : Nat) : Option (List UInt8) :=
  (partition_types[if type = 0 then PARTITION_NATIVE else type]?).map (·.1)

def be16 (n : Nat) : List UInt8 := [UInt8.ofNat (n / 256), UInt8.ofNat n]

def dateBytes (d : Labeldate) : List UInt8 := UInt8.ofNat d.year :: be16 d.day

def behindName (f1 : Format1Label) : List UInt8 :=
  UInt8.ofNat f1.DS1FMTID :: f1.DS1DSSN ++ be16 f1.DS1VOLSQ ++ dateBytes f1.DS1CREDT ++ dateBytes f1.DS1EXPDT ++
    [UInt8.ofNat f1.DS1NOEPV, UInt8.ofNat f1.DS1NOBDB, UInt8.ofNat f1.DS1FLAG1] ++ f1.DS1SYSCD

def within {α : Type} : Option α → Except Stop α
  | none => .error .crash
  | some a => .ok a

def decodedVolser (volid : List UInt8) : List UInt8 := vtoc_ebcdic_dec (ncopy volid VOLSER_LENGTH)

/-- The existing name `ch` with the current volume serial; `behind` are the bytes behind the name. -/
def reuseName (volid ch behind : List UInt8) : Except Stop (List UInt8) :=
  match strchr (ch.drop 7 ++ behind) 0x2e with
  | none => .error (.error .dsname_corrupted "")
  | some c2 => do
    let s2 := ncopy (ch.drop 7 ++ behind |>.drop c2) 31
    let ch ← within (strncpy ch 7 (decodedVolser volid ++ [0x20]) (VOLSER_LENGTH + 1))
    let c1 ← within (strchr (ch ++ behind) 0x20)
    within (strncpy ch c1 s2 31)

def createName (volid : List UInt8) (k : Nat) (type : Nat) (behind : List UInt8) : Except Stop (List UInt8) := do
  let ch := ncopy (bytes "LINUX.V               " ++ bytes "                      ") 44
  let ch ← within (strncpy ch 7 (decodedVolser volid) VOLSER_LENGTH)
  let c1 ← within (strchr (ch ++ behind) 0x20)
  let ch ← within (strncpy ch c1 (bytes ".PART") 5)
  let ch ← within (strncpy ch (c1 + 5) (decimal4 (k + 1) ++ [0x2e]) 5)
  let dsname ← within (get_part_dsname_by_type type)
  within (strncpy ch (c1 + 10) dsname dsname.length)

/-! ## Writing the labels -/

/-- The loop variables of `fdasd_write_vtoc_labels`. -/
structure WriteState where
  anc : FdasdAnchor
  vol : Volume
  blk : Nat
  i : Nat
  k : Nat

def freeDsn (anc : FdasdAnchor) (k : Nat) : Except Stop Node :=
  within (((List.finRange USABLE_PARTITIONS).drop k).find? fun d => ¬ anc.partno d > -1)

/-- The label of the partition `n` at position `i` gets its serial and its name. -/
def namePartition (s : WriteState) (n : Node) : Except Stop WriteState :=
  let p := s.anc.info n
  let f1 := { p.f1 with DS1DSSN := ncopy s.anc.vlabel.volid VOLSER_LENGTH }
  let ch := vtoc_ebcdic_dec f1.DS1DSNAM
  if (getdsn s.anc s.i).isSome then do
    let ch ← reuseName s.anc.vlabel.volid ch (behindName f1)
    .ok { s with anc := s.anc.upd n fun p => { p with f1 := { f1 with DS1DSNAM := vtoc_ebcdic_enc ch } } }
  else do
    let type := (get_part_type_by_dsname (ch ++ behindName f1)).getD PARTITION_NATIVE
    let k ← freeDsn s.anc s.k
    let ch ← createName s.anc.vlabel.volid k type (behindName f1)
    .ok { s with
      anc := (setpos s.anc k s.i).upd n fun p =>
        { p with f1 := { f1 with DS1DSNAM := vtoc_ebcdic_enc ch }, type := type }
      k := k }

def storePartition (geo : HdGeometry) (s : WriteState) (n : Node) : WriteState :=
  let f1 := (s.anc.info n).f1
  let blksize := s.anc.blksize
  if f1.DS1FMTID = 0xf8 then
    let f9addr := vtoc_set_cchhb VTOC_START_CC VTOC_START_HH (u8 (s.blk / blksize % geo.sectors + 2 : Nat))
    let f8 := vtoc_update_format8_label f9addr f1
    { s with
      anc := s.anc.upd n fun p => { p with f1 := f8 }
      vol := vtoc_write_label (vtoc_write_label s.vol s.blk (.dataset f8)) (s.blk + blksize) (.fmt9 s.anc.f9)
      blk := s.blk + blksize + blksize }
  else
    { s with
      vol := vtoc_write_label s.vol s.blk (.dataset f1)
      blk := s.blk + blksize }

def writePartition (geo : HdGeometry) (s : WriteState) (n : Node) : Except Stop WriteState :=
  if (s.anc.info n).used ≠ 0x01 then .ok s
  else do
    let s ← namePartition s n
    let s := storePartition geo s n
    .ok { s with i := s.i + 1 }

def writeEmpty (blksize : Nat) (vol : Volume) (blk maxblk : Nat) : Nat → Volume
  | 0 => vol
  | fuel + 1 =>
    if blk < maxblk then
      writeEmpty blksize (vtoc_write_label vol blk (.dataset .zero)) (blk + blksize) maxblk fuel
    else vol

def vtocStart (geo : HdGeometry) (anc : FdasdAnchor) : Nat :=
  u64 ((u64 ((cchhb2blk anc.vlabel.vtoc geo : Int) - 1) * anc.blksize : Nat))

def writeHeader (anc : FdasdAnchor) (vol : Volume) (blk : Nat) : Volume × Nat :=
  let vol := vtoc_write_label vol blk (.fmt4 anc.f4)
  let vol := vtoc_write_label vol (blk + anc.blksize) (.fmt5 anc.f5)
  if anc.big_disk ≠ 0 then
    (vtoc_write_label vol (blk + anc.blksize + anc.blksize) (.fmt7 anc.f7),
      blk + anc.blksize + anc.blksize + anc.blksize)
  else (vol, blk + anc.blksize + anc.blksize)

def fdasd_write_vtoc_labels (geo : HdGeometry) (anc : FdasdAnchor) (vol : Volume) :
    Except Stop (FdasdAnchor × Volume) :=
  let blk := vtocStart geo anc
  if blk = 0 then .error (.error .vlabel_corrupted "")
  else do
    let h := writeHeader anc vol blk
    let s ← forNodes (fun s => s.anc.links.next) (writePartition geo) USABLE_PARTITIONS ⟨anc, h.1,
      h.2, 0, 0⟩ anc.first
    .ok (s.anc, writeEmpty anc.blksize s.vol s.blk (blk + anc.blksize * 9) 9)

end Fdasd
