import S390Tools.Fdasd.Queue

/-!
# Commands of fdasd

The commands that change the partition table in memory. What a user types is
resolved before: an added partition comes with its first and last track, the
prompts that confirm a command are answered with yes.
-/

namespace Fdasd

open Word Vtoc DList

/-! ## Recreate and reuse -/

def lastTrack (geo : HdGeometry) (anc : FdasdAnchor) : Nat :=
  u32 ((anc.formatted_cylinders * geo.heads : Nat) - 1)

def initFormat4 (geo : HdGeometry) (anc : FdasdAnchor) : Format4Label :=
  vtoc_init_format4_label geo.cylinders anc.formatted_cylinders geo.heads geo.sectors anc.blksize anc.dev_type

def recreatePartition (anc : FdasdAnchor) (n : Node) : Except Stop FdasdAnchor :=
  let anc := anc.upd n fun p => { p with f1 := .zero }
  if (anc.info n).used = 0x01 then
    .ok (anc.upd n fun p =>
      { p with used := 0x00, start_trk := 0, end_trk := 0, len_trk := 0, fspace_trk := 0 })
  else .ok anc

def fdasd_recreate_vtoc_unconditional (geo : HdGeometry) (anc : FdasdAnchor) : Except Stop FdasdAnchor := do
  let l ← freespace ⟨initFormat4 geo anc, vtoc_init_format5_label, vtoc_init_format7_label⟩ '+' FIRST_USABLE_TRK
    (lastTrack geo anc) anc.formatted_cylinders geo.heads
  let anc := { anc with toFreeLabels := l }
  let anc ← forNodes (fun anc => anc.links.next) recreatePartition USABLE_PARTITIONS anc anc.first
  .ok { anc with
    used_partitions := 0
    fspace_trk := u32 ((anc.formatted_cylinders * geo.heads : Nat) - FIRST_USABLE_TRK)
    partno := fun _ => -1
    vtoc_changed := anc.vtoc_changed + 1 }

def FdasdAnchor.withLabels (anc : FdasdAnchor) (l : FreeLabels) : FdasdAnchor :=
  { anc with toFreeLabels := l, vtoc_changed := anc.vtoc_changed + 1 }

def reuseLabel (anc : FdasdAnchor) (today : Labeldate) (f1 : Format1Label) : Format1Label :=
  let init :=
    if anc.formatted_cylinders > LV_COMPAT_CYL then vtoc_init_format8_label today anc.blksize f1.DS1EXT1
    else vtoc_init_format1_label today anc.blksize f1.DS1EXT1
  { init with DS1DSNAM := f1.DS1DSNAM, DS1DSSN := f1.DS1DSSN, DS1CREDT := f1.DS1CREDT }

def reusePartition (geo : HdGeometry) (today : Labeldate) (s : FdasdAnchor × FreeLabels) (n : Node) :
    Except Stop (FdasdAnchor × FreeLabels) :=
  let p := s.1.info n
  if p.used ≠ 0x01 then .ok s
  else
    let anc := s.1.upd n fun p => { p with f1 := reuseLabel s.1 today p.f1 }
    if p.fspace_trk > 0 then
      match freespace s.2 '+' (u32 (p.end_trk + 1 : Nat)) (u32 (p.end_trk + p.fspace_trk : Nat))
          anc.formatted_cylinders geo.heads with
      | .error e => .error e
      | .ok l => .ok (anc, l)
    else .ok (anc, s.2)

def reuseFirst (geo : HdGeometry) (anc : FdasdAnchor) (l : FreeLabels) : Except Stop FreeLabels :=
  if anc.fspace_trk > 0 then
    freespace l '+' FIRST_USABLE_TRK (u32 (FIRST_USABLE_TRK + anc.fspace_trk - 1 : Nat)) anc.formatted_cylinders
      geo.heads
  else .ok l

def fdasd_reuse_vtoc (geo : HdGeometry) (today : Labeldate) (anc : FdasdAnchor) : Except Stop FdasdAnchor := do
  let f4 := { initFormat4 geo anc with DS4HPCHR := anc.f4.DS4HPCHR, DS4DSREC := anc.f4.DS4DSREC }
  let l ← reuseFirst geo anc ⟨f4, vtoc_init_format5_label, vtoc_init_format7_label⟩
  let (anc, l) ← forNodes (fun s => s.1.links.next) (reusePartition geo today) USABLE_PARTITIONS (anc, l) anc.first
  .ok (anc.withLabels l)

/-! ## Add and remove -/

def fdasd_get_empty_f1_label (anc : FdasdAnchor) : Option Node :=
  if anc.used_partitions < USABLE_PARTITIONS then anc.last else none

/-- The limit of an extent at track `trk`, as the interactive code computes it. -/
def trackLimit (geo : HdGeometry) (trk : Nat) : Cchh :=
  let cc := u32 (trk / geo.heads : Nat)
  vtoc_set_cchh cc (u16 ((trk : Int) - u32 (cc * geo.heads : Nat)))

def partitionExtent (geo : HdGeometry) (start stop : Nat) : Extent :=
  let hh := u16 ((start : Int) - u32 (u32 (start / geo.heads : Nat) * geo.heads : Nat))
  vtoc_set_extent (if hh = 0 then 0x81 else 0x01) 0x00 (trackLimit geo start) (trackLimit geo stop)

/-- The end of `fdasd_get_partition_data`: the chosen tracks go into the partition. -/
def setPartitionRange (start stop : Nat) (p : PartitionInfo) : PartitionInfo :=
  { p with len_trk := u64 ((stop : Int) - start + 1), start_trk := start, end_trk := stop }

def initPartitionLabel (anc : FdasdAnchor) (today : Labeldate) (ext : Extent) : Format1Label :=
  if anc.formatted_cylinders > LV_COMPAT_CYL then vtoc_init_format8_label today anc.blksize ext
  else vtoc_init_format1_label today anc.blksize ext

def updateLabels (geo : HdGeometry) (anc : FdasdAnchor) (f4 : Format4Label) (ch : Char) (start stop : Nat) :
    Except Stop FdasdAnchor :=
  match freespace ⟨f4, anc.f5, anc.f7⟩ ch start stop anc.formatted_cylinders geo.heads with
  | .error e => .error e
  | .ok l => .ok (anc.withLabels l)

def addedFormat4 (anc : FdasdAnchor) : Format4Label :=
  vtoc_update_format4_label anc.f4 (get_addr_of_highest_f1_f8_label anc) ((anc.f4.DS4DSREC : Int) - 1)

def removedFormat4 (anc : FdasdAnchor) : Format4Label :=
  let hf1 := if anc.used_partitions ≠ 0 then get_addr_of_highest_f1_f8_label anc else .zero
  vtoc_update_format4_label anc.f4 hf1 ((anc.f4.DS4DSREC : Int) + 1)

def newPartition (geo : HdGeometry) (today : Labeldate) (anc : FdasdAnchor) (start stop : Nat) (p : PartitionInfo) :
    PartitionInfo :=
  { setPartitionRange start stop p with f1 := initPartitionLabel anc today (partitionExtent geo start stop) }

/-- `fdasd_add_partition` after the user chose the tracks of the new partition. -/
def addPartition (geo : HdGeometry) (today : Labeldate) (anc : FdasdAnchor) (part_info : Node) (start stop : Nat) :
    Except Stop FdasdAnchor := do
  let ext := partitionExtent geo start stop
  let anc ← fdasd_enqueue_new_partition (anc.upd part_info (newPartition geo today anc start stop))
  let anc := { anc with used_partitions := u32 (anc.used_partitions + 1 : Nat) }
  updateLabels geo anc (addedFormat4 anc) '-' (cchh2trk ext.llimit geo) (cchh2trk ext.ulimit geo)

/-- `choice` is what the prompts of `fdasd_get_partition_data` yield: the first and last track, or
nothing if no track is free. -/
def fdasd_add_partition (geo : HdGeometry) (today : Labeldate)
    (choice : FdasdAnchor → Except Stop (Option (Nat × Nat))) (anc : FdasdAnchor) : Except Stop FdasdAnchor :=
  match fdasd_get_empty_f1_label anc with
  | none => .ok anc
  | some part_info =>
    match choice anc with
    | .error e => .error e
    | .ok none => .ok anc
    | .ok (some r) => addPartition geo today anc part_info r.1 r.2

def nodeAt (anc : FdasdAnchor) : Nat → Option Node → Except Stop Node
  | 0, p => deref p
  | n + 1, p =>
    match deref p with
    | .error e => .error e
    | .ok q => nodeAt anc n (anc.links.next q)

/-- `part_id` is the answer to the prompt: a single digit. -/
def fdasd_remove_partition (geo : HdGeometry) (anc : FdasdAnchor) (part_id : Nat) : Except Stop FdasdAnchor :=
  if part_id = 0 ∨ part_id > anc.used_partitions then .ok anc
  else if h : part_id - 1 < USABLE_PARTITIONS then do
    let anc := setpos anc ⟨part_id - 1, h⟩ (-1)
    let part_info ← nodeAt anc (part_id - 1) anc.first
    let start := cchh2trk (anc.info part_info).f1.DS1EXT1.llimit geo
    let stop := cchh2trk (anc.info part_info).f1.DS1EXT1.ulimit geo
    let anc ← fdasd_dequeue_old_partition anc part_info (part_id - 1)
    let anc := { anc with used_partitions := u32 ((anc.used_partitions : Int) - 1) }
    updateLabels geo anc (removedFormat4 anc) '+' start stop
  else .error .crash

end Fdasd
