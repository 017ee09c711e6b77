import S390Tools.Fdasd.TableRun
import S390Tools.Fdasd.Sizes

/-!
# The ways of partitioning agree

Adding partitions by hand takes them out of the free space, the way from a file
adds the gaps between them to empty labels. Both end with the same labels unless
the disk is big and completely used: nothing announces the format 7 label then.
-/

namespace Fdasd

open Word Vtoc CString DList Ranges

def tableLabels (anc : FdasdAnchor) :
    Format4Label × Format5Label × Format7Label × List (Except Stop (Nat × Extent)) :=
  (anc.f4, anc.f5, anc.f7, (List.range anc.used_partitions).map fun i =>
    (nodeAt anc i anc.first).map fun n => ((anc.info n).f1.DS1FMTID, (anc.info n).f1.DS1EXT1))

def partitionByHand (geo : HdGeometry) (today : Labeldate) (rs : List (Nat × Nat)) (anc : FdasdAnchor) :
    Except Stop FdasdAnchor := do
  let anc ← fdasd_recreate_vtoc_unconditional geo anc
  rs.foldlM (fun anc r => fdasd_add_partition geo today (fdasd_get_partition_data [r.1] [r.2]) anc) anc

def partitionWhole (geo : HdGeometry) (today : Labeldate) (volid : List UInt8) (anc : FdasdAnchor) :
    Except Stop FdasdAnchor := do
  let anc ← fdasd_recreate_vtoc_unconditional geo anc
  fdasd_auto_partition geo today volid anc

/-- At most three partitions on the tracks `rs` of a disk of `T` tracks, in ascending order. -/
structure Partitioning (T : Nat) (rs : List (Nat × Nat)) : Prop where
  length : rs.length ≤ USABLE_PARTITIONS
  range : ∀ r ∈ rs, FIRST_USABLE_TRK ≤ r.1 ∧ r.1 < r.2 ∧ r.2 < T
  ascending : rs.Pairwise fun r s => r.2 < s.1

/-- Some usable track belongs to none of the partitions. -/
def LeavesGap (T : Nat) (rs : List (Nat × Nat)) : Prop :=
  ∃ t, FIRST_USABLE_TRK ≤ t ∧ t < T ∧ ∀ r ∈ rs, t < r.1 ∨ r.2 < t

/-- A whole disk, of which the device shows at most `LV_COMPAT_CYL` cylinders in its geometry. -/
structure WholeDisk (geo : HdGeometry) (anc : FdasdAnchor) (xs : List Node) : Prop extends
    Disk geo anc.formatted_cylinders, WellLinked anc xs where
  cylinders : geo.cylinders = min anc.formatted_cylinders LV_COMPAT_CYL

def spans (rs : List (Nat × Nat)) : List (Nat × Nat) := rs.map fun r => (r.1, r.2 + 1)

theorem Partitioning.sorted {T : Nat} {rs : List (Nat × Nat)} (hp : Partitioning T rs) : Sorted (spans rs) where
  nonempty := fun s hs => by
    obtain ⟨r, hr, rfl⟩ := List.mem_map.mp hs
    have := (hp.range r hr).2.1
    simp only
    omega
  ascending := List.pairwise_map.mpr (hp.ascending.imp fun h => h)

theorem Partitioning.within {T : Nat} {rs : List (Nat × Nat)} (hp : Partitioning T rs)
    {s : Nat × Nat} (hs : s ∈ spans rs) :
    FIRST_USABLE_TRK ≤ s.1 ∧ s.2 ≤ T := by
  obtain ⟨r, hr, rfl⟩ := List.mem_map.mp hs
  exact ⟨(hp.range r hr).1, (hp.range r hr).2.2⟩

/-- Format and extent of a partition on the tracks `r`. -/
def rangeLabel (geo : HdGeometry) (anc : FdasdAnchor) (r : Nat × Nat) : Nat × Extent :=
  (if anc.formatted_cylinders > LV_COMPAT_CYL then 0xf8 else 0xf1, partitionExtent geo r.1 r.2)

/-- The format 4 label after `k` partitions were announced in a new one. -/
def plainF4 (geo : HdGeometry) (anc : FdasdAnchor) : Nat → Format4Label
  | 0 => initFormat4 geo anc
  | k + 1 =>
    vtoc_update_format4_label (plainF4 geo anc k) (get_addr_of_highest_f1_f8_label { anc with
      used_partitions := k + 1 })
      (((plainF4 geo anc k).DS4DSREC : Int) - 1)

structure SameBase (a b : FdasdAnchor) : Prop where
  formatted : b.formatted_cylinders = a.formatted_cylinders
  big_disk : b.big_disk = a.big_disk
  blksize : b.blksize = a.blksize
  dev_type : b.dev_type = a.dev_type

theorem SameBase.refl (a : FdasdAnchor) : SameBase a a := ⟨rfl, rfl, rfl, rfl⟩

theorem SameBase.trans {a b c : FdasdAnchor} (h : SameBase a b) (h' : SameBase b c) : SameBase a c :=
  ⟨h'.formatted.trans h.formatted, h'.big_disk.trans h.big_disk, h'.blksize.trans h.blksize,
    h'.dev_type.trans h.dev_type⟩

theorem SameBase.highest {a b : FdasdAnchor} (h : SameBase a b) {k : Nat} (hk : b.used_partitions = k) :
    get_addr_of_highest_f1_f8_label b = get_addr_of_highest_f1_f8_label { a with used_partitions := k } := by
  unfold get_addr_of_highest_f1_f8_label
  rw [h.formatted, h.big_disk, hk]

theorem SameBase.rangeLabel {geo : HdGeometry} {a b : FdasdAnchor} (h : SameBase a b) (r : Nat × Nat) :
    rangeLabel geo b r = rangeLabel geo a r := by
  unfold Fdasd.rangeLabel
  rw [h.formatted]

theorem SameBase.plainF4 {geo : HdGeometry} {a b : FdasdAnchor} (h : SameBase a b) : ∀ k,
    plainF4 geo b k = plainF4 geo a k
  | 0 => by
    unfold Fdasd.plainF4 initFormat4
    rw [h.formatted, h.blksize, h.dev_type]
  | k + 1 => by
    rw [Fdasd.plainF4, Fdasd.plainF4, h.plainF4 k]
    unfold get_addr_of_highest_f1_f8_label
    simp only [h.formatted, h.big_disk]

theorem freespace_f4_update (cyl trk : Nat) (f4 : Format4Label) (addr : Cchhb) (n : Int) :
    freespace_f4 cyl trk (vtoc_update_format4_label f4 addr n) =
      vtoc_update_format4_label (freespace_f4 cyl trk f4) addr n := by
  unfold freespace_f4
  split <;> rfl

theorem freespace_f4_DSREC (cyl trk : Nat) (f4 : Format4Label) :
    (freespace_f4 cyl trk f4).DS4DSREC = f4.DS4DSREC := by
  unfold freespace_f4
  split <;> rfl

theorem freespace_f4_idem (cyl trk : Nat) (f4 : Format4Label) :
    freespace_f4 cyl trk (freespace_f4 cyl trk f4) = freespace_f4 cyl trk f4 := by
  unfold freespace_f4
  split <;> rfl

theorem freespace_f4_size (cyl trk : Nat) (f4 : Format4Label) : SameSize f4 (freespace_f4 cyl trk f4) := by
  unfold freespace_f4
  split <;> exact ⟨rfl, rfl, rfl⟩

theorem plainF4_size (geo : HdGeometry) (anc : FdasdAnchor) : ∀ k, SameSize (initFormat4 geo anc)
    (plainF4 geo anc k)
  | 0 => ⟨rfl, rfl, rfl⟩
  | k + 1 => (plainF4_size geo anc k).trans ⟨rfl, rfl, rfl⟩

theorem plainF4_VTOCI (geo : HdGeometry) (anc : FdasdAnchor) : ∀ k, (plainF4 geo anc k).DS4VTOCI = 0
  | 0 => rfl
  | k + 1 => plainF4_VTOCI geo anc k

theorem freespace_f4_plain {geo : HdGeometry} {anc : FdasdAnchor} {k cyl trk : Nat} :
    freespace_f4 cyl trk (plainF4 geo anc k) = plainF4 geo anc k ↔ cyl * trk ≤ BIG_DISK_SIZE := by
  unfold freespace_f4
  by_cases hb : cyl * trk > BIG_DISK_SIZE
  · rw [if_pos hb]
    constructor
    · intro h
      have hv : (0xa0 : Nat) = (plainF4 geo anc k).DS4VTOCI := congrArg Format4Label.DS4VTOCI h
      rw [plainF4_VTOCI] at hv
      cases hv
    · intro h
      omega
  · rw [if_neg hb]
    exact ⟨fun _ => not_lt.mp hb, fun _ => rfl⟩

theorem initPartitionLabel_format (geo : HdGeometry) (anc : FdasdAnchor) (today : Labeldate) (r : Nat × Nat) :
    ((initPartitionLabel anc today (partitionExtent geo r.1 r.2)).DS1FMTID,
      (initPartitionLabel anc today (partitionExtent geo r.1 r.2)).DS1EXT1) = rangeLabel geo anc r := by
  unfold initPartitionLabel rangeLabel
  split <;> rfl

section
variable {geo : HdGeometry} {anc : FdasdAnchor} {xs : List Node}

theorem WholeDisk.matches (W : WholeDisk geo anc xs) : Matches geo anc.formatted_cylinders := by
  have h := W.cylinders
  have hl : LV_COMPAT_CYL = 65534 := rfl
  unfold Matches
  rw [h]
  by_cases hc : anc.formatted_cylinders ≤ LV_COMPAT_CYL
  · left
    rw [min_eq_left hc]
    unfold u16; omega
  · right
    rw [min_eq_right (by omega)]
    exact ⟨rfl, by omega⟩

theorem tableLabels_eq {us fs : List Node} (hl : IsList anc.links anc.first anc.last (us ++ fs))
    (hu : anc.used_partitions = us.length) : tableLabels anc = (anc.f4, anc.f5, anc.f7, us.map fun n =>
      .ok ((anc.info n).f1.DS1FMTID, (anc.info n).f1.DS1EXT1)) := by
  unfold tableLabels
  rw [hu]
  congr 3
  refine List.ext_getElem? fun i => ?_
  by_cases hi : i < us.length
  · have hx : us[i]? = some us[i] := List.getElem?_eq_getElem hi
    have hx' : (us ++ fs)[i]? = some us[i] := by rw [List.getElem?_append_left hi]; exact hx
    rw [List.getElem?_map, List.getElem?_map, List.getElem?_range hi, hx, hl.first_eq]
    simp only [Option.map_some, nodeAt_eq hl.seg hx', Except.map]
  · rw [List.getElem?_eq_none (by simpa using hi), List.getElem?_eq_none (by simpa using hi)]

/-! ## By hand -/

/-- The state after the partitions `done` were added. -/
structure ByHand (geo : HdGeometry) (anc a : FdasdAnchor) (us fs : List Node) (done : List (Nat × Nat)) : Prop where
  table : Table geo a us fs
  base : SameBase anc a
  ranges : us.map (fun n => (a.info n).rng) = spans done
  labels : us.map (fun n => ((a.info n).f1.DS1FMTID, (a.info n).f1.DS1EXT1)) = done.map (rangeLabel geo anc)
  f4 : a.f4 = freespace_f4 anc.formatted_cylinders geo.heads (plainF4 geo anc us.length)

theorem ByHand.length {a : FdasdAnchor} {us fs : List Node} {done : List (Nat × Nat)}
    (h : ByHand geo anc a us fs done) :
    us.length = done.length := by
  have := congrArg List.length h.ranges
  simpa [spans] using this

theorem ByHand.front {a : FdasdAnchor} {us fs : List Node} {done : List (Nat × Nat)}
    (h : ByHand geo anc a us fs done)
    {s : Nat} (hs : FIRST_USABLE_TRK ≤ s) (hd : ∀ r ∈ done, r.1 < r.2 ∧ r.2 < s) (n : Node) :
    (a.info n).start_trk < s ∧ (a.info n).end_trk < s := by
  simp only [FIRST_USABLE_TRK] at hs
  rcases List.mem_append.mp (h.table.mem n) with hn | hn
  · have hm : (a.info n).rng ∈ spans done := by
      rw [← h.ranges]; exact List.mem_map.mpr ⟨n, hn, rfl⟩
    obtain ⟨r, hr, he⟩ := List.mem_map.mp hm
    have h₁ := hd r hr
    simp only [PartitionInfo.rng, Prod.mk.injEq] at he
    omega
  · have hf := h.table.free n hn
    rw [hf.start_trk, hf.end_trk]
    omega

theorem defaultStart_eq {a : FdasdAnchor} {s : Nat} (hs : s < 18446744073709551616)
    (hb : ∀ n, (a.info n).start_trk < s ∧ (a.info n).end_trk < s) : ∀ {zs : List Node} (fuel : Nat)
      {p : Option Node}
    {d : Nat}, Seg a.links p zs none → zs ≠ [] → zs.length ≤ fuel → d ≤ s →
    ∃ d', defaultStart a fuel zs.head? d = .ok d' ∧ d' ≤ s
  | [], _, _, _, _, hne, _, _ => absurd rfl hne
  | z :: zs, 0, _, _, _, _, hlen, _ => absurd hlen (by simp)
  | z :: zs, fuel + 1, p, d, hseg, _, hlen, hd => by
    obtain ⟨-, hn, hseg⟩ := hseg
    rw [Option.or_none] at hn
    simp only [List.head?_cons, defaultStart, deref, hn]
    cases zs with
    | nil => exact ⟨d, rfl, hd⟩
    | cons y ys =>
      refine defaultStart_eq hs hb fuel hseg (by simp) (by simpa using hlen) ?_
      have := (hb z).2
      split
      · unfold u64; omega
      · exact hd

theorem checkStart_eq {a : FdasdAnchor} {s limit : Nat} (hb : ∀ n, (a.info n).start_trk < s ∧
    (a.info n).end_trk < s) :
    ∀ {zs : List Node} (fuel : Nat) {p : Option Node}, Seg a.links p zs none → zs ≠ [] → zs.length ≤ fuel →
    checkStart a fuel zs.head? s limit = .ok (s, limit)
  | [], _, _, _, hne, _ => absurd rfl hne
  | z :: zs, 0, _, _, _, hlen => absurd hlen (by simp)
  | z :: zs, fuel + 1, p, hseg, _, hlen => by
    obtain ⟨-, hn, hseg⟩ := hseg
    rw [Option.or_none] at hn
    have h := hb z
    have hin : ¬ inPartition (a.info z) s := fun hi => by have := hi.2; omega
    have hlt : ¬ s < (a.info z).start_trk := by omega
    simp only [List.head?_cons, checkStart, deref, hn, hin, false_and, if_false, hlt]
    cases zs with
    | nil => rw [if_pos (by rfl)]
    | cons y ys =>
      rw [if_neg (by simp)]
      exact checkStart_eq hb fuel hseg (by simp) (by simpa using hlen)

theorem read_int_one {low high trk : Nat} (h₁ : low ≤ trk) (h₂ : trk ≤ high) :
    fdasd_read_int low high [trk] = .ok trk := by
  have hf : [trk].find? (fun t => decide (low ≤ t ∧ t ≤ high)) = some trk := by
    rw [List.find?_cons_of_pos (by simpa using ⟨h₁, h₂⟩)]
  unfold fdasd_read_int
  rw [hf]

theorem ByHand.limit (W : WholeDisk geo anc xs) {a : FdasdAnchor} {us fs : List Node} {done : List (Nat × Nat)}
    (h : ByHand geo anc a us fs done) : partitionLimit a = tracks geo anc - 1 := by
  have h3 := W.three_le
  have htr := W.tracks_le
  have hh := W.heads_le
  have hsize : SameSize (initFormat4 geo anc) a.f4 := by
    rw [h.f4]
    exact (plainF4_size geo anc _).trans (freespace_f4_size _ _ _)
  have hu : get_usable_cylinders a = anc.formatted_cylinders := by
    have hs : get_usable_cylinders a = get_usable_cylinders { anc with
      f4 := initFormat4 geo anc } := SameSize.usable hsize
    rw [hs]
    exact initFormat4_usable.2 W.matches
  have hheads : a.f4.DS4DEVCT.DS4DSTRK = geo.heads := by
    rw [hsize.1]
    show u16 (geo.heads : Int) = geo.heads
    unfold u16; omega
  unfold partitionLimit tracks
  rw [hu, hheads, Nat.mul_comm]
  generalize anc.formatted_cylinders * geo.heads = T at *
  unfold u32; omega

theorem ByHand.choice (W : WholeDisk geo anc xs) {a : FdasdAnchor} {us fs : List Node} {done : List (Nat × Nat)}
    (h : ByHand geo anc a us fs done) {r : Nat × Nat} (hr : FIRST_USABLE_TRK ≤ r.1 ∧ r.1 < r.2 ∧
      r.2 < tracks geo anc)
    (hd : ∀ s ∈ done, s.1 < s.2 ∧ s.2 < r.1) : fdasd_get_partition_data [r.1] [r.2] a = .ok (some r) := by
  have hlim := h.limit W
  have htr := W.tracks_le
  have hb := h.front hr.1 hd
  have hne : us ++ fs ≠ [] := by
    intro hnil
    have := h.table.all
    rw [hnil] at this
    cases this
  unfold tracks at hr hlim
  obtain ⟨d, hdef, hdr⟩ := defaultStart_eq (show r.1 < 18446744073709551616 by omega) hb (USABLE_PARTITIONS + 1)
    h.table.list.seg hne (by rw [h.table.all]; decide) hr.1
  have hcheck : checkStart a (USABLE_PARTITIONS * (USABLE_PARTITIONS + 3)) (us ++ fs).head? r.1 (partitionLimit a) =
      .ok (r.1, partitionLimit a) :=
    checkStart_eq hb _ h.table.list.seg hne (by rw [h.table.all]; decide)
  rw [← h.table.list.first_eq] at hdef hcheck
  unfold fdasd_get_partition_data
  simp only
  rw [bind_ok hdef, if_neg (by rw [hlim]; omega), bind_ok (read_int_one hdr (by rw [hlim]; omega)), bind_ok hcheck]
  simp only
  rw [if_neg (by rw [hlim]; omega), bind_ok (read_int_one (by omega) (by rw [hlim]; omega))]

theorem ByHand.step (W : WholeDisk geo anc xs) (today : Labeldate) {a : FdasdAnchor} {us fs : List Node}
    {done : List (Nat × Nat)} (h : ByHand geo anc a us fs done) {r : Nat × Nat}
    (hr : FIRST_USABLE_TRK ≤ r.1 ∧ r.1 < r.2 ∧ r.2 < tracks geo anc) (hd : ∀ s ∈ done, s.1 < s.2 ∧ s.2 < r.1)
    (hlt : done.length < USABLE_PARTITIONS) :
    ∃ a' us' fs', fdasd_add_partition geo today (fdasd_get_partition_data [r.1] [r.2]) a = .ok a' ∧
      ByHand geo anc a' us' fs' (done ++ [r]) := by
  have hlen := h.length
  have hb := h.front hr.1 hd
  have ht := h.table
  have htr : tracks geo a = tracks geo anc := by unfold tracks; rw [h.base.formatted]
  obtain ⟨fs', x, rfl⟩ := (List.eq_nil_or_concat' fs).resolve_left (ht.fs_ne_nil (by omega))
  have hfree : FreeRange geo a r.1 r.2 := by
    refine ⟨hr.1, hr.2.1.le, by rw [htr]; exact hr.2.2, fun n _ => Or.inl ?_⟩
    have := (hb n).2
    simp only [PartitionInfo.rng]
    omega
  have hf : Fits geo a us [] fs' x r.1 r.2 :=
    ⟨by rw [List.append_nil]; exact ht, hfree, fun n _ => (hb n).1.le, fun n hn => by cases hn⟩
  obtain ⟨L, l, hadd, ht', hf4⟩ := hf.add (by rw [h.base.formatted]; exact W.toDisk) today
  have hlast : a.last = some x := by rw [ht.list.last_eq]; simp
  have hnx : ∀ n ∈ us, n ≠ x := fun n hn => hf.ne_x (by simp [hn])
  have hbase : SameBase anc ((added geo today a L us ([] ++ fs') x r.1 r.2).withLabels l) :=
    ⟨h.base.formatted, h.base.big_disk, h.base.blksize, h.base.dev_type⟩
  refine ⟨_, _, _, ?_, ht', hbase, ?_, ?_, ?_⟩
  · unfold fdasd_add_partition fdasd_get_empty_f1_label
    rw [if_pos (by rw [ht.count]; omega), hlast]
    simp only [h.choice W hr hd, hadd]
  · refine (hf.map_rng today).trans ?_
    rw [h.ranges]
    simp [spans]
  · rw [List.map_append, List.map_append, ← h.labels, List.map_singleton, List.map_singleton]
    congr 1
    · refine List.map_congr_left fun n hn => ?_
      show ((addedInfo geo today a us x r.1 r.2 n).f1.DS1FMTID,
        (addedInfo geo today a us x r.1 r.2 n).f1.DS1EXT1) = _
      unfold addedInfo
      rw [if_neg (hnx n hn)]
      split <;> rfl
    · show [((addedInfo geo today a us x r.1 r.2 x).f1.DS1FMTID,
        (addedInfo geo today a us x r.1 r.2 x).f1.DS1EXT1)] = _
      unfold addedInfo
      rw [if_pos rfl, ← h.base.rangeLabel, ← initPartitionLabel_format geo a today r]
      rfl
  · have hcount : u32 ((a.used_partitions + 1 : Nat) : Int) = us.length + 1 := by
      rw [ht.count]
      simp only [USABLE_PARTITIONS, DASD_PARTN_BITS, Nat.reduceShiftLeft, Nat.reduceSub] at hlt
      unfold u32; omega
    have hbase' : SameBase anc (added geo today a L us ([] ++ fs') x r.1 r.2) :=
      ⟨h.base.formatted, h.base.big_disk, h.base.blksize, h.base.dev_type⟩
    have haddr := hbase'.highest (k := us.length + 1) hcount
    show l.f4 = _
    rw [hf4, List.length_append, List.length_singleton, plainF4, ← haddr, h.base.formatted]
    unfold addedFormat4
    rw [show (added geo today a L us ([] ++ fs') x r.1 r.2).f4 = a.f4 from rfl, h.f4, freespace_f4_DSREC,
      freespace_f4_update, freespace_f4_idem, freespace_f4_update]

theorem ByHand.run (W : WholeDisk geo anc xs) (today : Labeldate) : ∀ (rs : List (Nat × Nat)) {a : FdasdAnchor}
    {us fs : List Node} {done : List (Nat × Nat)}, ByHand geo anc a us fs done →
    Partitioning (tracks geo anc) (done ++ rs) →
    ∃ a' us' fs', rs.foldlM (fun anc r =>
      fdasd_add_partition geo today (fdasd_get_partition_data [r.1] [r.2]) anc) a =
        .ok a' ∧ ByHand geo anc a' us' fs' (done ++ rs)
  | [], a, us, fs, done, h, _ => ⟨a, us, fs, rfl, by rw [List.append_nil]; exact h⟩
  | r :: rs, a, us, fs, done, h, hp => by
    have hlen := hp.length
    have hasc := List.pairwise_append.mp hp.ascending
    simp only [List.length_append, List.length_cons] at hlen
    obtain ⟨a₁, us₁, fs₁, h₁, hb₁⟩ := h.step W today (hp.range r (by simp))
      (fun s hs => ⟨(hp.range s (by simp [hs])).2.1, hasc.2.2 s hs r (by simp)⟩) (by omega)
    obtain ⟨a', us', fs', h', hb'⟩ := ByHand.run W today rs hb₁ (by simpa using hp)
    refine ⟨a', us', fs', ?_, by simpa using hb'⟩
    rw [List.foldlM_cons, bind_ok h₁, h']

theorem partitionByHand_eq (W : WholeDisk geo anc xs) (today : Labeldate) {rs : List (Nat × Nat)}
    (hp : Partitioning (tracks geo anc) rs) :
    ∃ a us fs, partitionByHand geo today rs anc = .ok a ∧ ByHand geo anc a us fs rs := by
  obtain ⟨l, heq, hf4, ht⟩ := recreate_table W.toDisk W.toWellLinked
  have h₀ : ByHand geo anc (recreated geo anc l) [] xs [] := ⟨ht, ⟨rfl, rfl, rfl, rfl⟩, rfl, rfl, hf4⟩
  obtain ⟨a, us, fs, hrun, hb⟩ := h₀.run W today rs (by simpa using hp)
  refine ⟨a, us, fs, ?_, hb⟩
  unfold partitionByHand
  rw [bind_ok heq, hrun]

end

end Fdasd
