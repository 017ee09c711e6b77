import S390Tools.Fdasd.ConfigFile

/-!
# When the ways agree

The three ways end with the same labels exactly if the disk is not big or the
partitions leave some track of it free.
-/

namespace Fdasd

open Word Vtoc CString DList Ranges

section
variable {geo : HdGeometry} {anc : FdasdAnchor} {xs : List Node}

/-! ## One partition for the whole disk -/

theorem wholeExtent_eq (D : Disk geo anc.formatted_cylinders) :
    vtoc_set_extent 0x01 0x00 (vtoc_set_cchh 0 FIRST_USABLE_TRK)
        (vtoc_set_cchh (u32 ((anc.formatted_cylinders : Int) - 1)) (u16 ((geo.heads : Int) - 1))) =
      partitionExtent geo FIRST_USABLE_TRK (tracks geo anc - 1) := by
  have h3 := D.three_le
  have hh := D.heads_pos
  have hh' := D.heads_le
  have hc := D.cyl_pos
  have hc' := D.cyl_le
  have hsmall : FIRST_USABLE_TRK / geo.heads = 0 ∧ FIRST_USABLE_TRK % geo.heads = FIRST_USABLE_TRK :=
    ⟨Nat.div_eq_of_lt hh, Nat.mod_eq_of_lt hh⟩
  obtain ⟨hlow, -⟩ := D.trackLimit (show FIRST_USABLE_TRK < anc.formatted_cylinders * geo.heads by
    simp only [FIRST_USABLE_TRK]; omega)
  obtain ⟨hhigh, -⟩ := D.trackLimit (show tracks geo anc - 1 < anc.formatted_cylinders * geo.heads by
    unfold tracks; omega)
  have hlast : tracks geo anc - 1 = geo.heads * (anc.formatted_cylinders - 1) + (geo.heads - 1) := by
    unfold tracks
    obtain ⟨c, hc⟩ : ∃ c, anc.formatted_cylinders = c + 1 := ⟨anc.formatted_cylinders - 1, by omega⟩
    rw [hc, Nat.add_sub_cancel, Nat.add_mul, Nat.one_mul, Nat.mul_comm]
    omega
  have hdiv : (tracks geo anc - 1) / geo.heads = anc.formatted_cylinders - 1 := by
    rw [hlast, Nat.mul_add_div (by omega), Nat.div_eq_of_lt (by omega), Nat.add_zero]
  have hmod : (tracks geo anc - 1) % geo.heads = geo.heads - 1 := by
    rw [hlast, Nat.mul_add_mod, Nat.mod_eq_of_lt (by omega)]
  have hu₁ : u32 ((anc.formatted_cylinders : Int) - 1) = anc.formatted_cylinders - 1 := by apply u32_eq <;> omega
  have hu₂ : u16 ((geo.heads : Int) - 1) = geo.heads - 1 := by apply u16_eq <;> omega
  have hstart : u16 ((FIRST_USABLE_TRK : Int) - u32
    (u32 (FIRST_USABLE_TRK / geo.heads : Nat) * geo.heads : Nat)) = 2 := by
    rw [hsmall.1]
    have : u32 ((0 : Nat) : Int) = 0 := rfl
    rw [this, Nat.zero_mul, this]
    rfl
  unfold partitionExtent
  simp only [hlow, hhigh, hsmall.1, hsmall.2, hdiv, hmod, hu₁, hu₂]
  rw [hsmall.1] at hstart
  rw [hstart, if_neg (by decide)]

theorem partitionWhole_eq (W : WholeDisk geo anc xs) (today : Labeldate) (volid : List UInt8) :
    ∃ c, partitionWhole geo today volid anc = .ok c ∧ tableLabels c = (plainF4 geo anc 1, vtoc_init_format5_label,
      vtoc_init_format7_label, [.ok (rangeLabel geo anc (FIRST_USABLE_TRK, tracks geo anc - 1))]) := by
  have hh := W.heads_le
  obtain ⟨l, heq, -, ht⟩ := recreate_table W.toDisk W.toWellLinked
  have hlist : IsList (recreated geo anc l).links (recreated geo anc l).first
    (recreated geo anc l).last xs := ht.list
  cases hxs : xs with
  | nil => exact absurd W.all (by rw [hxs]; decide)
  | cons x xs' =>
    rw [hxs] at hlist
    let a := initLabels geo (fdasd_init_volume_label (recreated geo anc l) volid)
    have hbase : SameBase anc a := ⟨rfl, rfl, rfl, rfl⟩
    have husable : get_usable_cylinders a = anc.formatted_cylinders := by
      have hs : get_usable_cylinders a = get_usable_cylinders { anc with f4 := initFormat4 geo anc } :=
        SameSize.usable ⟨rfl, rfl, rfl⟩
      rw [hs]
      exact initFormat4_usable.2 W.matches
    have hheads : a.f4.DS4DEVCT.DS4DSTRK = geo.heads := by
      show u16 (geo.heads : Int) = geo.heads
      unfold u16; omega
    have hfirst : deref (recreated geo anc l).first = .ok x := by
      rw [hlist.first_eq]; rfl
    let f : PartitionInfo → PartitionInfo := fun p =>
      { p with
        used := 0x01
        fspace_trk := 0
        len_trk := u32 ((a.f4.DS4DEVCT.DS4DSTRK * get_usable_cylinders a : Nat) - FIRST_USABLE_TRK)
        start_trk := FIRST_USABLE_TRK
        end_trk := u32 ((a.f4.DS4DEVCT.DS4DSTRK * get_usable_cylinders a : Nat) - 1)
        f1 := initPartitionLabel a today (vtoc_set_extent 0x01 0x00 (vtoc_set_cchh 0 FIRST_USABLE_TRK)
          (vtoc_set_cchh (u32 ((get_usable_cylinders a : Int) - 1)) (u16 ((a.f4.DS4DEVCT.DS4DSTRK : Int) - 1)))) }
    let c := announcePartition { a.upd x f with fspace_trk := 0, used_partitions := 1 }
    have hc : partitionWhole geo today volid anc = .ok { c with vtoc_changed := c.vtoc_changed + 1 } := by
      unfold partitionWhole
      refine (bind_ok heq _).trans ?_
      unfold fdasd_auto_partition
      rw [hfirst]
    have hl := @tableLabels_eq { c with vtoc_changed := c.vtoc_changed + 1 } [x] xs' hlist rfl
    have hf4 : c.f4 = plainF4 geo anc 1 := by
      have haddr := SameBase.highest (k := 1) (b := { a.upd x f with fspace_trk := 0, used_partitions := 1 })
        ⟨hbase.formatted, hbase.big_disk, hbase.blksize, hbase.dev_type⟩ rfl
      show vtoc_update_format4_label a.f4 _ ((a.f4.DS4DSREC : Int) - 1) = _
      rw [haddr]
      rfl
    have hlabel : ((f (a.info x)).f1.DS1FMTID, (f (a.info x)).f1.DS1EXT1) =
        rangeLabel geo anc (FIRST_USABLE_TRK, tracks geo anc - 1) := by
      rw [← hbase.rangeLabel, ← initPartitionLabel_format geo a today, ← wholeExtent_eq W.toDisk]
      simp only [f, husable, hheads]
    refine ⟨_, hc, hl.trans ?_⟩
    have hx : (c.info x) = f (a.info x) := by
      show (a.upd x f).info x = _
      rw [upd_info, if_pos rfl]
    simp only [List.map_cons, List.map_nil, hf4, hx, hlabel]
    rfl

/-! ## The ways agree -/

theorem ByHand.tableLabels {a : FdasdAnchor} {us fs : List Node} {rs : List (Nat × Nat)}
    (h : ByHand geo anc a us fs rs) :
    tableLabels a = (freespace_f4 anc.formatted_cylinders geo.heads (plainF4 geo anc rs.length), a.f5, a.f7,
      rs.map fun r => .ok (rangeLabel geo anc r)) := by
  rw [tableLabels_eq h.table.list h.table.count, h.f4, h.length]
  have hm := congrArg (List.map fun l => (Except.ok l : Except Stop (Nat × Extent))) h.labels
  rw [List.map_map, List.map_map] at hm
  rw [show us.map (fun n => (Except.ok ((a.info n).f1.DS1FMTID,
    (a.info n).f1.DS1EXT1) : Except Stop _)) = _ from hm]
  rfl

theorem leavesGap_iff {T : Nat} {rs : List (Nat × Nat)} (hp : Partitioning T rs) :
    LeavesGap T rs ↔ gaps FIRST_USABLE_TRK T (spans rs) ≠ [] := by
  have hc : Canonical (gaps FIRST_USABLE_TRK T (spans rs)) := gaps_canonical hp.sorted fun s hs => (hp.within hs).1
  have hcov := Ranges.covers_gaps hp.sorted (fun s hs => (hp.within hs).1) fun s hs => (hp.within hs).2
  rw [ne_eq, hc.eq_nil_iff]
  simp only [hcov, not_forall, not_not, LeavesGap]
  refine exists_congr fun t => ?_
  rw [← and_assoc]
  refine and_congr_right fun _ => ?_
  simp only [Covers, spans, List.mem_map, In, not_exists, not_and]
  constructor
  · rintro h s ⟨r, hr, rfl⟩ h₁ h₂
    rcases h r hr with h | h <;> simp only at h₁ h₂ <;> omega
  · intro h r hr
    by_contra hn
    exact h _ ⟨r, hr, rfl⟩ (by simp only; omega) (by simp only; omega)

end

def waysConf : List ConfigData := [⟨2, 100, 1⟩, ⟨200, 300, 2⟩]

theorem smallDisk_whole : WholeDisk smallGeo smallDisk (List.finRange USABLE_PARTITIONS) where
  heads_pos := by decide
  heads_le := by decide
  cyl_pos := by decide
  cyl_le := by decide
  tracks_le := by decide
  toWellLinked := smallDisk_wellLinked
  cylinders := by decide

def bigGeo : HdGeometry := ⟨15, 12, 5000⟩
def bigDisk : FdasdAnchor := { fdasd_initialize_anchor with formatted_cylinders := 5000 }
def bigConf : List ConfigData := [⟨2, 74999, 1⟩]

theorem bigDisk_labels :
    (partitionByHand bigGeo ⟨0, 1⟩ (limits bigConf) bigDisk).map (fun a => a.f4.DS4VTOCI) = .ok 0xa0 ∧
    (partitionFromFile bigGeo ⟨0, 1⟩ [] "fdasd.conf" (confFile bigConf) bigDisk).map (fun a =>
      a.f4.DS4VTOCI) = .ok 0 ∧
    (partitionWhole bigGeo ⟨0, 1⟩ [] bigDisk).map (fun a => a.f4.DS4VTOCI) = .ok 0 := by
  decide +kernel

end Fdasd
