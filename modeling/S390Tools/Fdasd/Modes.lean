import S390Tools.Fdasd.Write

/-!
# The ways of partitioning

Partitions come from prompts, from a configuration file, or one partition takes
the whole disk. The last two build the labels on their own and end with writing
them; the states here are those in front of the writing.
-/

namespace Fdasd

open Word Vtoc CString

/-! ## Interactive -/

def fdasd_read_int (low high : Nat) (answers : List Nat) : Except Stop Nat :=
  match answers.find? fun trk => decide (low ≤ trk ∧ trk ≤ high) with
  | none => .error .endless
  | some trk => .ok trk

def partitionLimit (anc : FdasdAnchor) : Nat :=
  u32 ((anc.f4.DS4DEVCT.DS4DSTRK * get_usable_cylinders anc : Nat) - 1)

def inPartition (p : PartitionInfo) (trk : Nat) : Prop := trk ≥ p.start_trk ∧ trk ≤ p.end_trk

instance (p : PartitionInfo) (trk : Nat) : Decidable (inPartition p trk) := inferInstanceAs (Decidable (_ ∧ _))

def defaultStart (anc : FdasdAnchor) : Nat → Option Node → Nat → Except Stop Nat
  | 0, _, _ => .error .endless
  | fuel + 1, part_tmp, start =>
    match deref part_tmp with
    | .error e => .error e
    | .ok p =>
      match anc.links.next p with
      | none => .ok start
      | some q =>
        defaultStart anc fuel (some q)
          (if inPartition (anc.info p) start then u64 ((anc.info p).end_trk + 1 : Nat) else start)

def checkStart (anc : FdasdAnchor) : Nat → Option Node → Nat → Nat → Except Stop (Nat × Nat)
  | 0, _, _, _ => .error .endless
  | fuel + 1, part_tmp, start, limit =>
    match deref part_tmp with
    | .error e => .error e
    | .ok p =>
      if anc.links.next p = none then .ok (start, limit)
      else
        let inside := inPartition (anc.info p) start
        let start' := if inside then u64 ((anc.info p).end_trk + 1 : Nat) else start
        -- behind the limit the search starts again
        let wrapped := inside ∧ start' > limit
        let start' := if wrapped then FIRST_USABLE_TRK else start'
        match deref (if wrapped then anc.first else some p) with
        | .error e => .error e
        | .ok p =>
          if start' < (anc.info p).start_trk then .ok (start', u64 ((anc.info p).start_trk - 1 : Int))
          else checkStart anc fuel (anc.links.next p) start' limit

/-- The choice of the tracks; `firsts` and `lasts` are the answers to the two prompts. -/
def fdasd_get_partition_data (firsts lasts : List Nat) (anc : FdasdAnchor) : Except Stop (Option (Nat × Nat)) := do
  let limit := partitionLimit anc
  let start ← defaultStart anc (USABLE_PARTITIONS + 1) anc.first FIRST_USABLE_TRK
  if start > limit then .ok none
  else do
    let start ← fdasd_read_int start limit firsts
    -- a node and a candidate for `start` that come again never end
    let (start, limit) ← checkStart anc (USABLE_PARTITIONS * (USABLE_PARTITIONS + 3)) anc.first start limit
    let stop ← if start = limit then .ok start else fdasd_read_int start limit lasts
    .ok (some (start, stop))

/-! ## Configuration file -/

/-- The limits of the `i`-th entry; `conffile` is the name of the file. -/
def checkConfdata (geo : HdGeometry) (conffile : String) (anc : FdasdAnchor) (i : Node) : Except Stop Unit :=
  let start := (anc.confdata i).start
  let stop := (anc.confdata i).stop
  let first_trk := FIRST_USABLE_TRK
  let last_trk := lastTrack geo anc
  let overlap := "Partitions overlap or are not in ascending order!\n"
  if start < first_trk ∨ start > last_trk then
    .error (.error .config_syntax_error ("One of the lower partition limits (" ++ toString start ++
      ") is not within the range of\navailable tracks on disk (" ++ toString first_trk ++ "-" ++
        toString last_trk ++
      ")!\n"))
  else if stop < first_trk ∨ stop > last_trk then
    .error (.error .config_syntax_error ("One of the upper partition limits (" ++ toString stop ++
      ") is not within the range of\n available tracks on disk (" ++ toString first_trk ++ "-" ++
        toString last_trk ++
      ")!\n"))
  else if start ≥ stop then
    .error (.error .config_syntax_error ("Lower partition limit (" ++ toString start ++
      ") is not less than upper partition\nlimit (" ++ toString stop ++ ") in config file " ++ conffile ++ "!\n"))
  else if 0 < i.val ∧ start ≤ (anc.confdata ⟨i.val - 1, by omega⟩).stop then
    .error (.error .config_syntax_error overlap)
  else if h : i.val + 1 < USABLE_PARTITIONS then
    if (anc.confdata ⟨i.val + 1, h⟩).start > 0 ∧ stop ≥ (anc.confdata ⟨i.val + 1, h⟩).start then
      .error (.error .config_syntax_error overlap)
    else .ok ()
  else .ok ()

def confGap (geo : HdGeometry) (anc : FdasdAnchor) (i : Node) : Nat :=
  if h : i.val + 1 < USABLE_PARTITIONS then
    if (anc.confdata ⟨i.val + 1, h⟩).start ≠ 0 then
      u64 (((anc.confdata ⟨i.val + 1, h⟩).start : Int) - (anc.confdata i).stop - 1)
    else u64 ((lastTrack geo anc : Int) - (anc.confdata i).stop)
  else u64 ((lastTrack geo anc : Int) - (anc.confdata i).stop)

def confPartitionInfo (geo : HdGeometry) (anc : FdasdAnchor) (i : Node) (p : PartitionInfo) : PartitionInfo :=
  { p with
    used := 0x01
    start_trk := (anc.confdata i).start
    end_trk := (anc.confdata i).stop
    len_trk := u64 (((anc.confdata i).stop : Int) - (anc.confdata i).start + 1)
    type := (anc.confdata i).type
    fspace_trk := confGap geo anc i }

def confEntries (geo : HdGeometry) (conffile : String) : List Node → FdasdAnchor → Option Node →
    Except Stop FdasdAnchor
  | [], anc, _ => .ok anc
  | i :: is, anc, part_info =>
    if (anc.confdata i).start = 0 ∨ (anc.confdata i).stop = 0 then .ok anc
    else
      match checkConfdata geo conffile anc i, deref part_info with
      | .error e, _ => .error e
      | .ok _, .error e => .error e
      | .ok _, .ok n =>
        let anc := anc.upd n (confPartitionInfo geo anc i)
        let anc :=
          if i.val = 0 then { anc with
            fspace_trk := u64 (((anc.confdata i).start : Int) - FIRST_USABLE_TRK) } else anc
        confEntries geo conffile is anc (anc.links.next n)

def fdasd_check_conffile_input (geo : HdGeometry) (conffile : String) (anc : FdasdAnchor) :
    Except Stop FdasdAnchor :=
  confEntries geo conffile (List.finRange USABLE_PARTITIONS) anc anc.first

/-- The volume label with the serial `volser`, which the command line or the device number give. -/
def fdasd_init_volume_label (anc : FdasdAnchor) (volid : List UInt8) : FdasdAnchor :=
  { anc with
    vlabel :=
      { volkey := vtoc_ebcdic_enc (bytes "VOL1")
        vollbl := vtoc_ebcdic_enc (bytes "VOL1")
        volid := volid
        vtoc := vtoc_set_cchhb VTOC_START_CC VTOC_START_HH 0x01 }
    vlabel_changed := anc.vlabel_changed + 1 }

def initLabels (geo : HdGeometry) (anc : FdasdAnchor) : FdasdAnchor :=
  { anc with f4 := initFormat4 geo anc, f5 := vtoc_init_format5_label, f7 := vtoc_init_format7_label }

def announcePartition (anc : FdasdAnchor) : FdasdAnchor :=
  { anc with f4 := addedFormat4 anc }

def typeName (f1 : Format1Label) (type : Nat) : Except Stop Format1Label := do
  let ch := vtoc_ebcdic_dec f1.DS1DSNAM
  let pos ← within (strstr (ch ++ behindName f1) (bytes ".NEW"))
  let dsname ← within (get_part_dsname_by_type type)
  let ch ← within (strncpy ch pos (bytes "." ++ dsname) (dsname.length + 2))
  .ok { f1 with DS1DSNAM := vtoc_ebcdic_enc ch }

def addFree (geo : HdGeometry) (anc : FdasdAnchor) (start len : Nat) : Except Stop FdasdAnchor :=
  if len ≠ 0 then
    match freespace anc.toFreeLabels '+' (u32 start)
      (u32 (start + len - 1 : Nat)) anc.formatted_cylinders geo.heads with
    | .error e => .error e
    | .ok l => .ok { anc with toFreeLabels := l }
  else .ok anc

def confPartition (geo : HdGeometry) (today : Labeldate) (anc : FdasdAnchor) (n : Node) : Except Stop FdasdAnchor :=
  let p := anc.info n
  if p.used ≠ 0x01 then .ok anc
  else do
    let ext := partitionExtent geo p.start_trk p.end_trk
    let anc := anc.upd n fun p => { p with f1 := initPartitionLabel anc today ext }
    let anc := announcePartition { anc with used_partitions := u32 (anc.used_partitions + 1 : Nat) }
    let anc ← addFree geo anc (p.end_trk + 1) p.fspace_trk
    let f1 ← typeName (anc.info n).f1 p.type
    .ok (anc.upd n fun p => { p with f1 := f1 })

def fdasd_auto_partition_conffile (geo : HdGeometry) (today : Labeldate) (volid : List UInt8) (anc : FdasdAnchor) :
    Except Stop FdasdAnchor := do
  let anc := initLabels geo (fdasd_init_volume_label anc volid)
  let anc ← addFree geo anc FIRST_USABLE_TRK anc.fspace_trk
  let anc ← forNodes (fun anc => anc.links.next) (confPartition geo today) USABLE_PARTITIONS anc anc.first
  .ok { anc with vtoc_changed := anc.vtoc_changed + 1 }

def partitionFromFile (geo : HdGeometry) (today : Labeldate) (volid : List UInt8) (conffile : String)
    (confdata : Node → ConfigData) (anc : FdasdAnchor) : Except Stop FdasdAnchor := do
  let anc ← fdasd_recreate_vtoc_unconditional geo anc
  let anc ← fdasd_check_conffile_input geo conffile { anc with confdata := confdata }
  fdasd_auto_partition_conffile geo today volid anc

/-! ## One partition for the whole disk -/

def fdasd_auto_partition (geo : HdGeometry) (today : Labeldate) (volid : List UInt8) (anc : FdasdAnchor) :
    Except Stop FdasdAnchor :=
  match deref anc.first with
  | .error e => .error e
  | .ok n =>
    let anc := initLabels geo (fdasd_init_volume_label anc volid)
    let cyl := get_usable_cylinders anc
    let head := anc.f4.DS4DEVCT.DS4DSTRK
    let ext := vtoc_set_extent 0x01 0x00 (vtoc_set_cchh 0 FIRST_USABLE_TRK)
      (vtoc_set_cchh (u32 ((cyl : Int) - 1)) (u16 ((head : Int) - 1)))
    let anc := anc.upd n fun p =>
      { p with
        used := 0x01
        fspace_trk := 0
        len_trk := u32 ((head * cyl : Nat) - FIRST_USABLE_TRK)
        start_trk := FIRST_USABLE_TRK
        end_trk := u32 ((head * cyl : Nat) - 1)
        f1 := initPartitionLabel anc today ext }
    let anc := announcePartition { anc with fspace_trk := 0, used_partitions := 1 }
    .ok { anc with vtoc_changed := anc.vtoc_changed + 1 }

end Fdasd
