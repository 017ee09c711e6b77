import S390Tools.Lib.Run
import S390Tools.Fdasd.Modes
import S390Tools.Fdasd.Reread
import S390Tools.Fdasd.Rebuild

/-!
# The size of the disk

The format 4 label and the anchor both hold the number of cylinders. A new format
4 label takes it from the geometry of the device, which is the formatted size only
if `Matches` holds; from then on all limits agree with the formatted size.
-/

namespace Fdasd

open Word Vtoc DList

/-- A format 4 label for this geometry shows `cyl` cylinders. -/
def Matches (geo : HdGeometry) (cyl : Nat) : Prop :=
  u16 geo.cylinders = cyl ∨ u16 geo.cylinders = LV_COMPAT_CYL ∧ cyl > LV_COMPAT_CYL

instance (geo : HdGeometry) (cyl : Nat) : Decidable (Matches geo cyl) := inferInstanceAs (Decidable (_ ∨ _))

/-- The cylinders in a label are those that reading takes for formatted. -/
def NoAlternates (f4 : Format4Label) : Prop :=
  (f4.DS4DEVCT.DS4DSCYL = LV_COMPAT_CYL ∧ f4.DS4DCYL > f4.DS4DEVCT.DS4DSCYL) ∨
    f4.DS4DEVCT.DS4DEVFG &&& ALTERNATE_CYLINDERS_USED = 0 ∨ f4.DS4DEVAC = 0

instance (f4 : Format4Label) : Decidable (NoAlternates f4) := inferInstanceAs (Decidable (_ ∨ _ ∨ _))

/-- The places that hold the size of the disk agree, and no partition goes beyond it. -/
structure SizesAgree (geo : HdGeometry) (anc : FdasdAnchor) : Prop where
  usable : get_usable_cylinders anc = anc.formatted_cylinders
  limit : partitionLimit anc = lastTrack geo anc
  within : ∀ n, (anc.info n).used = 0x01 → (anc.info n).end_trk < tracks geo anc

inductive SizeAction
  | recreate
  | reuse (today : Labeldate)
  | add (today : Labeldate) (firsts lasts : List Nat)
  | remove (part_id : Nat)
  | auto (today : Labeldate) (volid : List UInt8)

def sizeStep (geo : HdGeometry) (anc : FdasdAnchor) : SizeAction → Option FdasdAnchor
  | .recreate => (fdasd_recreate_vtoc_unconditional geo anc).toOption
  | .reuse today => (fdasd_reuse_vtoc geo today anc).toOption
  | .add today firsts lasts => (fdasd_add_partition geo today (fdasd_get_partition_data firsts lasts) anc).toOption
  | .remove part_id => (fdasd_remove_partition geo anc part_id).toOption
  | .auto today volid =>
    (fdasd_recreate_vtoc_unconditional geo anc).toOption.bind fun anc =>
      (fdasd_auto_partition geo today volid anc).toOption

/-- The format 4 label is built anew only if the geometry of the device shows the formatted size. -/
def Sound (geo : HdGeometry) (anc : FdasdAnchor) : SizeAction → Prop
  | .recreate | .reuse _ | .auto _ _ => Matches geo anc.formatted_cylinders
  | .add _ _ _ | .remove _ => True

instance (geo : HdGeometry) (anc : FdasdAnchor) : ∀ a, Decidable (Sound geo anc a)
  | .recreate | .reuse _ | .auto _ _ => inferInstanceAs (Decidable (Matches _ _))
  | .add _ _ _ | .remove _ => isTrue trivial

/-! ## Usable cylinders -/

/-- The fields of a format 4 label that show the size of the disk. -/
def SameSize (f g : Format4Label) : Prop :=
  g.DS4DEVCT = f.DS4DEVCT ∧ g.DS4DCYL = f.DS4DCYL ∧ g.DS4DEVAC = f.DS4DEVAC

theorem SameSize.trans {f g h : Format4Label} (h₁ : SameSize f g) (h₂ : SameSize g h) : SameSize f h :=
  ⟨h₂.1.trans h₁.1, h₂.2.1.trans h₁.2.1, h₂.2.2.trans h₁.2.2⟩

theorem SameSize.usable {a b : FdasdAnchor} (h : SameSize a.f4 b.f4) : get_usable_cylinders b =
    get_usable_cylinders a := by
  unfold get_usable_cylinders
  rw [h.1, h.2.1, h.2.2]

section
variable {geo : HdGeometry} {anc : FdasdAnchor}

theorem initFormat4_usable : get_usable_cylinders { anc with f4 := initFormat4 geo anc } = anc.formatted_cylinders ↔
    Matches geo anc.formatted_cylinders := by
  have hu := u16_lt geo.cylinders
  have hflag : (0x30 : Nat) &&& ALTERNATE_CYLINDERS_USED ≠ 0 := by decide
  have hc : u32 ((u16 (geo.cylinders : Int) : Int) - (0 : Nat)) = u16 geo.cylinders := by
    generalize u16 (geo.cylinders : Int) = c at *
    unfold u32; omega
  have hnew : get_usable_cylinders { anc with f4 := initFormat4 geo anc } =
      if u16 (geo.cylinders : Int) = LV_COMPAT_CYL ∧ anc.formatted_cylinders > u16 (geo.cylinders : Int) then
        anc.formatted_cylinders
      else if 0x30 &&& ALTERNATE_CYLINDERS_USED ≠ 0 then u32 ((u16 (geo.cylinders : Int) : Int) - (0 : Nat))
      else u16 (geo.cylinders : Int) := rfl
  rw [hnew]
  unfold Matches
  by_cases h : u16 (geo.cylinders : Int) = LV_COMPAT_CYL ∧ anc.formatted_cylinders > u16 (geo.cylinders : Int)
  · rw [if_pos h]
    exact ⟨fun _ => Or.inr ⟨h.1, h.1 ▸ h.2⟩, fun _ => rfl⟩
  · rw [if_neg h, if_pos hflag, hc]
    constructor
    · exact Or.inl
    · rintro (h' | ⟨h₁, h₂⟩)
      · exact h'
      · exact absurd ⟨h₁, h₁ ▸ h₂⟩ h

theorem read_usable (h : NoAlternates anc.f4) (hw : anc.f4.DS4DEVCT.DS4DSCYL < 65536)
    (hfc : anc.formatted_cylinders = formattedCylinders anc.f4) :
    get_usable_cylinders anc = anc.formatted_cylinders := by
  rw [hfc]
  unfold get_usable_cylinders formattedCylinders
  by_cases hl : anc.f4.DS4DEVCT.DS4DSCYL = LV_COMPAT_CYL ∧ anc.f4.DS4DCYL > anc.f4.DS4DEVCT.DS4DSCYL
  · rw [if_pos hl, if_pos hl]
  · rw [if_neg hl, if_neg hl]
    by_cases hf : anc.f4.DS4DEVCT.DS4DEVFG &&& ALTERNATE_CYLINDERS_USED = 0
    · rw [if_neg (not_not.mpr hf)]
    · have h0 := (h.resolve_left hl).resolve_left hf
      rw [if_pos hf, h0]
      unfold u32; omega

theorem set_freespace_size {l l' : FreeLabels} {ch : Char} {start stop cyl trk : Nat}
    (h : vtoc_set_freespace l ch start stop cyl trk = .ok l') : SameSize l.f4 l'.f4 := by
  unfold vtoc_set_freespace at h
  simp only at h
  split at h
  · split at h
    · cases h
    · cases h; exact ⟨rfl, rfl, rfl⟩
  · split at h
    · cases h
    · cases h; exact ⟨rfl, rfl, rfl⟩

theorem freespace_size {l l' : FreeLabels} {ch : Char} {start stop cyl trk : Nat}
    (h : freespace l ch start stop cyl trk = .ok l') : SameSize l.f4 l'.f4 := by
  unfold freespace at h
  cases hs : vtoc_set_freespace l ch start stop cyl trk with
  | error b => rw [hs] at h; cases h
  | ok l₁ => rw [hs] at h; cases h; exact set_freespace_size hs

/-! ## Steps -/

/-- All structures lie in the first `T` tracks, and no limit is beyond them. -/
structure Bounded (geo : HdGeometry) (C : Nat) (anc : FdasdAnchor) : Prop where
  formatted : anc.formatted_cylinders = C
  usable : get_usable_cylinders anc = C
  heads : anc.f4.DS4DEVCT.DS4DSTRK = geo.heads
  range : ∀ n, (anc.info n).start_trk ≤ C * geo.heads ∧ (anc.info n).end_trk < C * geo.heads

/-- A step that keeps the size in the format 4 label and the ranges of the partitions. -/
structure SameRanges (a b : FdasdAnchor) : Prop where
  formatted : b.formatted_cylinders = a.formatted_cylinders
  size : SameSize a.f4 b.f4
  range : ∀ n, (b.info n).start_trk = (a.info n).start_trk ∧ (b.info n).end_trk = (a.info n).end_trk

theorem SameRanges.trans {a b c : FdasdAnchor} (h : SameRanges a b) (h' : SameRanges b c) : SameRanges a c :=
  ⟨h'.formatted.trans h.formatted, h.size.trans h'.size, fun n =>
    ⟨(h'.range n).1.trans (h.range n).1, (h'.range n).2.trans (h.range n).2⟩⟩

theorem SameRanges.bounded {C : Nat} {a b : FdasdAnchor} (h : SameRanges a b)
    (hb : Bounded geo C a) : Bounded geo C b :=
  ⟨h.formatted.trans hb.formatted, (SameSize.usable h.size).trans hb.usable, by rw [h.size.1]; exact hb.heads,
    fun n => by rw [(h.range n).1, (h.range n).2]; exact hb.range n⟩

theorem Bounded.upd {C : Nat} (h : Bounded geo C anc) {n : Node} {f : PartitionInfo → PartitionInfo}
    (hf : (f (anc.info n)).start_trk ≤ C * geo.heads ∧ (f (anc.info n)).end_trk < C * geo.heads) :
    Bounded geo C (anc.upd n f) := by
  refine ⟨h.formatted, h.usable, h.heads, fun m => ?_⟩
  rw [upd_info]
  by_cases hm : m = n
  · rw [if_pos hm]; exact hf
  · rw [if_neg hm]; exact h.range m

theorem SameRanges.upd {n : Node} {f : PartitionInfo → PartitionInfo}
    (hf : (f (anc.info n)).start_trk = (anc.info n).start_trk ∧ (f (anc.info n)).end_trk = (anc.info n).end_trk) :
    SameRanges anc (anc.upd n f) := by
  refine ⟨rfl, ⟨rfl, rfl, rfl⟩, fun m => ?_⟩
  rw [upd_info]
  by_cases hm : m = n
  · rw [if_pos hm, hm]; exact hf
  · rw [if_neg hm]; exact ⟨rfl, rfl⟩

theorem SameRanges.refl (anc : FdasdAnchor) : SameRanges anc anc := ⟨rfl, ⟨rfl, rfl, rfl⟩, fun _ => ⟨rfl, rfl⟩⟩

theorem enqueueCounters_ranges {n : Node} {anc' : FdasdAnchor} (h : enqueueCounters anc n = .ok anc') :
    SameRanges anc anc' := by
  have hgap : ∀ (a : FdasdAnchor) m g, SameRanges a (a.setGap m g) := fun a m g => .upd ⟨rfl, rfl⟩
  unfold enqueueCounters at h
  simp only at h
  split at h
  · split at h
    · cases h
      exact (hgap _ _ _).trans ⟨rfl, ⟨rfl, rfl, rfl⟩, fun _ => ⟨rfl, rfl⟩⟩
    · cases h
      exact (hgap _ _ _).trans ⟨rfl, ⟨rfl, rfl, rfl⟩, fun _ => ⟨rfl, rfl⟩⟩
  · split at h
    · cases h
    · split at h
      · cases h; exact (hgap _ _ _).trans (hgap _ _ _)
      · cases h; exact (hgap _ _ _).trans (hgap _ _ _)

theorem moveBefore_ranges {n m : Node} {anc' : FdasdAnchor} (h : moveBefore anc n m = .ok anc') :
    SameRanges anc anc' := by
  unfold moveBefore at h
  split at h
  · cases h
  · cases h; exact ⟨rfl, ⟨rfl, rfl, rfl⟩, fun _ => ⟨rfl, rfl⟩⟩

theorem enqueue_ranges {anc' : FdasdAnchor} (h : fdasd_enqueue_new_partition anc = .ok anc') :
    SameRanges anc anc' := by
  obtain ⟨first, -, h⟩ := bind_eq_ok h
  obtain ⟨part_info, -, h⟩ := bind_eq_ok h
  obtain ⟨⟨part_tmp, k⟩, -, h⟩ := bind_eq_ok h
  have h₀ : SameRanges anc (enqueueFirst anc part_info part_tmp) := by
    unfold enqueueFirst
    split <;> exact ⟨rfl, ⟨rfl, rfl, rfl⟩, fun _ => ⟨rfl, rfl⟩⟩
  have hrest : ∀ {a : FdasdAnchor}, enqueueCounters (mapPos (a.upd part_info fun p => { p with used := 0x01 })
      fun j => if j ≥ k then j + 1 else j) part_info = .ok anc' → SameRanges a anc' := fun {a} h => by
    have h₁ : SameRanges a (a.upd part_info fun p => { p with used := 0x01 }) := .upd ⟨rfl, rfl⟩
    have h₂ : ∀ a f, SameRanges a (mapPos a f) := fun a f => ⟨rfl, ⟨rfl, rfl, rfl⟩, fun _ => ⟨rfl, rfl⟩⟩
    exact h₁.trans ((h₂ _ _).trans (enqueueCounters_ranges h))
  simp only at h
  split at h
  · exact h₀.trans (hrest h)
  · obtain ⟨a, hmove, h⟩ := bind_eq_ok h
    exact h₀.trans ((moveBefore_ranges hmove).trans (hrest h))

theorem dequeue_bounded {C : Nat} (hC : 0 < C * geo.heads) (hb : Bounded geo C anc) {n : Node}
    {k : Nat} {anc' : FdasdAnchor}
    (h : fdasd_dequeue_old_partition anc n k = .ok anc') : Bounded geo C anc' := by
  have hlink : ∀ {a b : FdasdAnchor}, unlinkInner a n = .ok b → SameRanges a b := fun {a b} h => by
    unfold unlinkInner at h
    split at h
    · split at h
      · cases h; exact ⟨rfl, ⟨rfl, rfl, rfl⟩, fun _ => ⟨rfl, rfl⟩⟩
      · cases h
    · cases h; exact .refl _
  have hcnt : ∀ {a b : FdasdAnchor}, dequeueCounters a n = .ok b → SameRanges a b := fun {a b} h => by
    unfold dequeueCounters at h
    simp only at h
    split at h
    · split at h
      · cases h
      · cases h; exact ⟨rfl, ⟨rfl, rfl, rfl⟩, fun _ => ⟨rfl, rfl⟩⟩
    · split at h
      · cases h
      · cases h; exact .upd ⟨rfl, rfl⟩
  have hend : ∀ {a b : FdasdAnchor}, moveToEnd a n = .ok b → SameRanges a b := fun {a b} h => by
    unfold moveToEnd at h
    split at h
    · split at h
      · cases h
      · cases h; exact ⟨rfl, ⟨rfl, rfl, rfl⟩, fun _ => ⟨rfl, rfl⟩⟩
    · cases h; exact .refl _
  obtain ⟨a₁, h₁, h⟩ := bind_eq_ok h
  obtain ⟨a₂, h₂, h⟩ := bind_eq_ok h
  obtain ⟨a₃, h₃, h⟩ := bind_eq_ok h
  cases h
  have hb₃ := (hend h₃).bounded ((hcnt h₂).bounded ((hlink h₁).bounded hb))
  have hmap : Bounded geo C (mapPos a₃ fun j => if j ≥ k then j - 1 else j) :=
    ⟨hb₃.formatted, hb₃.usable, hb₃.heads, hb₃.range⟩
  exact hmap.upd ⟨Nat.zero_le _, hC⟩

theorem updateLabels_bounded {C : Nat} (hb : Bounded geo C anc) {f4 : Format4Label}
    (hf : SameSize anc.f4 f4) {ch : Char}
    {start stop : Nat} {anc' : FdasdAnchor} (h : updateLabels geo anc f4 ch start stop = .ok anc') :
      Bounded geo C anc' := by
  unfold updateLabels at h
  cases hl : freespace ⟨f4, anc.f5, anc.f7⟩ ch start stop anc.formatted_cylinders geo.heads with
  | error e => rw [hl] at h; cases h
  | ok l =>
    rw [hl] at h
    cases h
    have hs := freespace_size hl
    exact (show SameRanges anc (anc.withLabels l) from ⟨rfl, hf.trans hs, fun _ => ⟨rfl, rfl⟩⟩).bounded hb

/-! ## The choice of the tracks -/

theorem read_int_range {low high : Nat} {answers : List Nat} {trk : Nat}
    (h : fdasd_read_int low high answers = .ok trk) :
    low ≤ trk ∧ trk ≤ high := by
  unfold fdasd_read_int at h
  split at h
  · cases h
  · rename_i t ht
    cases h
    have := List.find?_some ht
    exact of_decide_eq_true this

theorem checkStart_limit {T : Nat} (hT : ∀ n, (anc.info n).start_trk ≤ T) : ∀ (fuel : Nat) (p : Option Node)
    (start limit start' limit' : Nat), limit < T → checkStart anc fuel p start limit =
      .ok (start', limit') → limit' < T
  | 0, _, _, _, _, _, _, h => by cases h
  | fuel + 1, p, start, limit, start', limit', hl, h => by
    have key : ∀ (q : Node) (s : Nat),
      (if s < (anc.info q).start_trk then .ok (s, u64 ((anc.info q).start_trk - 1 : Int))
        else checkStart anc fuel (anc.links.next q) s limit) = Except.ok (start', limit') → limit' < T := by
      intro q s h
      have hq := hT q
      by_cases hlt : s < (anc.info q).start_trk
      · rw [if_pos hlt] at h
        cases h
        unfold u64; omega
      · rw [if_neg hlt] at h
        exact checkStart_limit hT fuel _ _ _ _ _ hl h
    unfold checkStart at h
    split at h
    · cases h
    · split at h
      · cases h; exact hl
      · simp only at h
        split at h
        · cases h
        · exact key _ _ h

theorem partition_data_range {T : Nat} (hT : ∀ n, (anc.info n).start_trk ≤ T) (hl : partitionLimit anc < T)
    {firsts lasts : List Nat} {r : Nat × Nat} (h : fdasd_get_partition_data firsts lasts anc = .ok (some r)) :
    r.1 ≤ r.2 ∧ r.2 < T := by
  obtain ⟨dflt, -, h⟩ := bind_eq_ok h
  simp only at h
  split at h
  · cases h
  · obtain ⟨first, -, h⟩ := bind_eq_ok h
    obtain ⟨⟨start, limit⟩, hcheck, h⟩ := bind_eq_ok h
    have hlim := checkStart_limit hT _ _ _ _ _ _ hl hcheck
    simp only at h
    split at h
    · rename_i he
      obtain ⟨stop, hs, h⟩ := bind_eq_ok h
      cases hs
      cases h
      exact ⟨le_refl _, he ▸ hlim⟩
    · obtain ⟨stop, hs, h⟩ := bind_eq_ok h
      cases h
      have := read_int_range hs
      exact ⟨this.1, by omega⟩

/-! ## All commands -/

theorem Bounded.limit {C : Nat} (h : Bounded geo C anc) : partitionLimit anc = lastTrack geo anc := by
  unfold partitionLimit lastTrack
  rw [h.usable, h.heads, h.formatted, Nat.mul_comm]

theorem Bounded.limit_lt {C : Nat} (h : Bounded geo C anc) (hC : 0 < C * geo.heads) :
    partitionLimit anc < C * geo.heads := by
  rw [h.limit, lastTrack, h.formatted]
  generalize C * geo.heads = T at *
  unfold u32; omega

theorem Bounded.agree {C : Nat} (h : Bounded geo C anc) : SizesAgree geo anc :=
  ⟨h.usable.trans h.formatted.symm, h.limit, fun n _ => by rw [tracks, h.formatted]; exact (h.range n).2⟩

theorem init_bounded {C : Nat} (hC : anc.formatted_cylinders = C) (hh : geo.heads ≤ 255) (hm : Matches geo C)
    {b : FdasdAnchor} (hf : SameSize (initFormat4 geo anc) b.f4) (hfc : b.formatted_cylinders = C)
    (hr : ∀ n, (b.info n).start_trk ≤ C * geo.heads ∧ (b.info n).end_trk < C * geo.heads) : Bounded geo C b := by
  have hu : get_usable_cylinders { anc with f4 := initFormat4 geo anc } = anc.formatted_cylinders :=
    initFormat4_usable.2 (by rw [hC]; exact hm)
  have hheads : (initFormat4 geo anc).DS4DEVCT.DS4DSTRK = geo.heads := by
    show u16 (geo.heads : Int) = geo.heads
    unfold u16; omega
  refine ⟨hfc, ?_, ?_, hr⟩
  · have hb : get_usable_cylinders b = get_usable_cylinders { anc with
      f4 := initFormat4 geo anc } := SameSize.usable hf
    rw [hb, hu, hC]
  · rw [hf.1, hheads]

theorem recreate_bounded {C : Nat} (hh : geo.heads ≤ 255) (hC : 0 < C * geo.heads) (h : Bounded geo C anc)
    (hm : Matches geo C) {anc' : FdasdAnchor} (hr : fdasd_recreate_vtoc_unconditional geo anc = .ok anc') :
    Bounded geo C anc' := by
  obtain ⟨l, hl, hr⟩ := bind_eq_ok hr
  obtain ⟨a, ha, hr⟩ := bind_eq_ok hr
  cases hr
  have h₀ : Bounded geo C { anc with toFreeLabels := l } :=
    init_bounded h.formatted hh hm (freespace_size hl) h.formatted h.range
  have h₁ := forNodes_keeps (Bounded geo C) (fun s n s' hs hb => by
    rw [recreatePartition_eq] at hb
    cases hb
    refine hs.upd ?_
    unfold recreatedInfo
    split
    · exact ⟨Nat.zero_le _, hC⟩
    · exact hs.range n) _ _ _ _ h₀ ha
  exact ⟨h₁.formatted, h₁.usable, h₁.heads, h₁.range⟩

theorem reuse_bounded {C : Nat} (hh : geo.heads ≤ 255) (h : Bounded geo C anc) (hm : Matches geo C)
    {today : Labeldate}
    {anc' : FdasdAnchor} (hr : fdasd_reuse_vtoc geo today anc = .ok anc') : Bounded geo C anc' := by
  obtain ⟨l, hl, hr⟩ := bind_eq_ok hr
  obtain ⟨⟨a, l'⟩, ha, hr⟩ := bind_eq_ok hr
  cases hr
  have hfirst : SameSize (initFormat4 geo anc) l.f4 := by
    unfold reuseFirst at hl
    split at hl
    · exact freespace_size hl
    · cases hl; exact ⟨rfl, rfl, rfl⟩
  have hloop := forNodes_keeps (fun s : FdasdAnchor × FreeLabels => Bounded geo C s.1 ∧
    SameSize (initFormat4 geo anc) s.2.f4)
    (fun s n s' ⟨h₁, h₂⟩ hb => by
      have hlab : ∀ f : Format1Label → Format1Label, Bounded geo C (s.1.upd n fun p => { p with f1 := f p.f1 }) :=
        fun f => h₁.upd (h₁.range n)
      unfold reusePartition at hb
      simp only at hb
      split at hb
      · cases hb; exact ⟨h₁, h₂⟩
      · split at hb
        · split at hb
          · cases hb
          · rename_i hfree
            cases hb
            exact ⟨hlab _, h₂.trans (freespace_size hfree)⟩
        · cases hb
          exact ⟨hlab _, h₂⟩) _ _ _ _ ⟨h, hfirst⟩ ha
  obtain ⟨hb, hsize⟩ := hloop
  exact init_bounded (b := a.withLabels l') h.formatted hh hm hsize hb.formatted hb.range

theorem add_bounded {C : Nat} (hC : 0 < C * geo.heads) (h : Bounded geo C anc) {today : Labeldate}
    {firsts lasts : List Nat}
    {anc' : FdasdAnchor}
    (hr : fdasd_add_partition geo today (fdasd_get_partition_data firsts lasts) anc = .ok anc') :
      Bounded geo C anc' := by
  unfold fdasd_add_partition at hr
  split at hr
  · cases hr; exact h
  · rename_i part_info _
    split at hr
    · cases hr
    · cases hr; exact h
    · rename_i r hchoice
      obtain ⟨hle, hlt⟩ := partition_data_range (fun n => (h.range n).1) (h.limit_lt hC) hchoice
      obtain ⟨a, ha, hr⟩ := bind_eq_ok hr
      have h₀ : Bounded geo C (anc.upd part_info (newPartition geo today anc r.1 r.2)) :=
        h.upd ⟨by show r.1 ≤ _; omega, hlt⟩
      have h₁ := (enqueue_ranges ha).bounded h₀
      have h₂ : Bounded geo C { a with used_partitions := u32 (a.used_partitions + 1 : Nat) } :=
        ⟨h₁.formatted, h₁.usable, h₁.heads, h₁.range⟩
      have hf : SameSize a.f4 (addedFormat4 { a with used_partitions := u32 (a.used_partitions + 1 : Nat) }) :=
        ⟨rfl, rfl, rfl⟩
      exact updateLabels_bounded h₂ hf hr

theorem remove_bounded {C : Nat} (hC : 0 < C * geo.heads) (h : Bounded geo C anc) {part_id : Nat}
    {anc' : FdasdAnchor}
    (hr : fdasd_remove_partition geo anc part_id = .ok anc') : Bounded geo C anc' := by
  unfold fdasd_remove_partition at hr
  split at hr
  · cases hr; exact h
  · split at hr
    · rename_i hid
      obtain ⟨n, -, hr⟩ := bind_eq_ok hr
      obtain ⟨a, ha, hr⟩ := bind_eq_ok hr
      have h₀ : Bounded geo C (setpos anc ⟨part_id - 1, hid⟩ (-1)) := ⟨h.formatted, h.usable, h.heads, h.range⟩
      have h₁ := dequeue_bounded hC h₀ ha
      have h₂ : Bounded geo C { a with used_partitions := u32 ((a.used_partitions : Int) - 1) } :=
        ⟨h₁.formatted, h₁.usable, h₁.heads, h₁.range⟩
      have hf : SameSize a.f4 (removedFormat4 { a with used_partitions := u32 ((a.used_partitions : Int) - 1) }) :=
        ⟨rfl, rfl, rfl⟩
      exact updateLabels_bounded h₂ hf hr
    · cases hr

theorem auto_bounded {C : Nat} (hh : geo.heads ≤ 255) (hC : FIRST_USABLE_TRK < C * geo.heads)
    (h : Bounded geo C anc)
    (hm : Matches geo C) {today : Labeldate} {volid : List UInt8} {anc' : FdasdAnchor}
    (hr : fdasd_auto_partition geo today volid anc = .ok anc') : Bounded geo C anc' := by
  unfold fdasd_auto_partition at hr
  split at hr
  · cases hr
  · rename_i n _
    have h₀ : Bounded geo C (initLabels geo (fdasd_init_volume_label anc volid)) :=
      init_bounded h.formatted hh hm ⟨rfl, rfl, rfl⟩ h.formatted h.range
    simp only at hr
    cases hr
    have hend : u32 (((initLabels geo (fdasd_init_volume_label anc volid)).f4.DS4DEVCT.DS4DSTRK *
        get_usable_cylinders (initLabels geo (fdasd_init_volume_label anc volid)) : Nat) - 1) < C * geo.heads :=
      h₀.limit_lt (by omega)
    have h₁ := h₀.upd (n := n) (f := fun p =>
      { p with
        used := 0x01
        fspace_trk := 0
        len_trk := u32 (((initLabels geo (fdasd_init_volume_label anc volid)).f4.DS4DEVCT.DS4DSTRK *
          get_usable_cylinders (initLabels geo (fdasd_init_volume_label anc volid)) : Nat) - FIRST_USABLE_TRK)
        start_trk := FIRST_USABLE_TRK
        end_trk := u32 (((initLabels geo (fdasd_init_volume_label anc volid)).f4.DS4DEVCT.DS4DSTRK *
          get_usable_cylinders (initLabels geo (fdasd_init_volume_label anc volid)) : Nat) - 1)
        f1 := initPartitionLabel (initLabels geo (fdasd_init_volume_label anc volid)) today
          (vtoc_set_extent 0x01 0x00 (vtoc_set_cchh 0 FIRST_USABLE_TRK)
            (vtoc_set_cchh (u32 ((get_usable_cylinders
              (initLabels geo (fdasd_init_volume_label anc volid)) : Int) - 1))
              (u16 (((initLabels geo (fdasd_init_volume_label anc volid)).f4.DS4DEVCT.DS4DSTRK : Int) - 1)))) })
      ⟨le_of_lt hC, hend⟩
    exact ⟨h₁.formatted, h₁.usable, h₁.heads, h₁.range⟩

theorem step_bounded {C : Nat} (hh : geo.heads ≤ 255) (hC : FIRST_USABLE_TRK < C * geo.heads)
    (h : Bounded geo C anc)
    {a : SizeAction} (hs : Sound geo anc a) {anc' : FdasdAnchor} (hr : sizeStep geo anc a = some anc') :
    Bounded geo C anc' := by
  have hok : ∀ {x : Except Stop FdasdAnchor} {b : FdasdAnchor}, x.toOption = some b →
    x = .ok b := fun {x b} hx => by
    cases x with
    | error e => cases hx
    | ok c => exact congrArg Except.ok (Option.some.inj hx)
  cases a with
  | recreate => exact recreate_bounded hh (by omega) h (h.formatted ▸ hs) (hok hr)
  | reuse today => exact reuse_bounded hh h (h.formatted ▸ hs) (hok hr)
  | add today firsts lasts => exact add_bounded (by omega) h (hok hr)
  | remove part_id => exact remove_bounded (by omega) h (hok hr)
  | auto today volid =>
    obtain ⟨b, hb, hr⟩ := Option.bind_eq_some_iff.mp hr
    have hm : Matches geo C := h.formatted ▸ hs
    exact auto_bounded hh hC (recreate_bounded hh (by omega) h hm (hok hb)) hm (hok hr)

end

/-! ## Reading -/

/-- The labels of a table of contents for this geometry: every partition lies in the formatted part. -/
structure ValidSize (geo : HdGeometry) (f4 : Format4Label) (ls : List Format1Label) : Prop where
  length : ls.length ≤ USABLE_PARTITIONS
  cylinders : f4.DS4DEVCT.DS4DSCYL < 65536
  heads : f4.DS4DEVCT.DS4DSTRK = geo.heads
  tracks : FIRST_USABLE_TRK < formattedCylinders f4 * geo.heads
  within : ∀ l ∈ ls, cchh2trk l.DS1EXT1.llimit geo ≤ formattedCylinders f4 * geo.heads ∧
    cchh2trk l.DS1EXT1.ulimit geo < formattedCylinders f4 * geo.heads

section
variable {geo : HdGeometry} {anc anc₀ : FdasdAnchor} {xs : List Node} {vol : Volume}

theorem Reread.bounded {ls : List Format1Label} (hc : Clear anc xs) (hr : Reread geo anc anc₀ xs ls)
    (hv : ValidSize geo anc.f4 ls) (ha : NoAlternates anc.f4) : Bounded geo (formattedCylinders anc.f4) anc₀ := by
  have hf := hr.frame
  have hf4 : anc₀.f4 = anc.f4 := by rw [hf]
  have hfc : anc₀.formatted_cylinders = formattedCylinders anc.f4 := by rw [hf]
  have hpos := hv.tracks
  have hle : ls.length ≤ xs.length := by rw [hc.all]; exact hv.length
  refine ⟨hfc, ?_, by rw [hf4]; exact hv.heads, fun n => ?_⟩
  · rw [← hfc]
    exact read_usable (by rw [hf4]; exact ha) (by rw [hf4]; exact hv.cylinders) (by rw [hfc, hf4])
  · have hn : n ∈ xs := by
      have hcard : xs.toFinset.card = Fintype.card Node := by
        rw [List.toFinset_card_of_nodup hc.list.nodup, hc.all, Fintype.card_fin]
      have hm : n ∈ xs.toFinset := by rw [Finset.eq_univ_of_card _ hcard]; exact Finset.mem_univ n
      exact List.mem_toFinset.mp hm
    obtain ⟨j, hj⟩ := List.mem_iff_getElem?.mp hn
    have hjl := (List.getElem?_eq_some_iff.mp hj).1
    have hsl : (sortLabels (ls.map recode)).length = ls.length := by rw [sortLabels_length, List.length_map]
    by_cases hlt : j < ls.length
    · obtain ⟨l, hl⟩ : ∃ l, (sortLabels (ls.map recode))[j]? = some l := ⟨_, List.getElem?_eq_getElem (by omega)⟩
      obtain ⟨l₀, hl₀, rfl⟩ := List.mem_map.mp ((sortLabels_perm _).mem_iff.mp (List.mem_of_getElem? hl))
      rw [hr.read j n _ hj hl]
      exact hv.within l₀ hl₀
    · have hd : n ∈ xs.drop ls.length :=
        List.mem_iff_getElem?.mpr ⟨j - ls.length,
          by rw [List.getElem?_drop, Nat.add_sub_cancel' (by omega)]; exact hj⟩
      rw [hr.others n hd]
      exact ⟨Nat.zero_le _, by show 0 < _; omega⟩

theorem readVtoc_eq (hread : readVtoc geo anc vol = some (.ok anc₀)) :
    ∃ f4, fdasd_process_valid_vtoc geo { anc with f4 := f4 } vol (vtocStart geo anc) = .ok anc₀ := by
  unfold readVtoc at hread
  simp only at hread
  split at hread
  · rename_i f4 _
    split at hread
    · exact ⟨f4, Option.some.inj hread⟩
    · cases hread
  · cases hread

/-- Where no label is built anew for another size, all limits agree in every session. -/
theorem size_run (hh : geo.heads ≤ 255) (hc : Clear anc xs) (hread : readVtoc geo anc vol = some (.ok anc₀))
    (hv : ValidSize geo anc₀.f4 (datasets (recordsBehind geo anc vol (vtocStart geo anc))))
    (ha : NoAlternates anc₀.f4) (as : List SizeAction) (hadm : Run.Admissible (sizeStep geo) (Sound geo) anc₀ as)
    {anc' : FdasdAnchor} (hex : Run.exec (sizeStep geo) anc₀ as = some anc') : SizesAgree geo anc' := by
  obtain ⟨f4, hok⟩ := readVtoc_eq hread
  have hc' : Clear { anc with f4 := f4 } xs := ⟨hc.list, hc.all, hc.info, hc.partno⟩
  obtain ⟨a, hproc, hr⟩ : ∃ a, fdasd_process_valid_vtoc geo { anc with f4 := f4 } vol (vtocStart geo anc) = .ok a ∧
      Reread geo { anc with f4 := f4 } a xs
        (datasets (recordsBehind geo { anc with f4 := f4 } vol (vtocStart geo anc))) :=
    process_valid_vtoc_eq hc' vol (vtocStart geo anc) hv.length
  obtain rfl : a = anc₀ := Except.ok.inj (hproc.symm.trans hok)
  have hf4 : a.f4 = f4 := by rw [hr.frame]
  rw [hf4] at hv ha
  have hb := hr.bounded hc' hv ha
  have hfin := Run.exec_keeps (Bounded geo (formattedCylinders f4))
    (fun s act s' hs hsound hstep => step_bounded hh hv.tracks hs hsound hstep) as _ anc' hb hadm hex
  exact hfin.agree

end

/-! ## A disk of which only a part is formatted -/

def partGeo (cyl : Nat) : HdGeometry := ⟨15, 12, cyl⟩

def partDisk : FdasdAnchor :=
  { fdasd_initialize_anchor with
    blksize := 4096
    hw_cylinders := 100
    vlabel := ⟨vtoc_ebcdic_enc (bytes "VOL1"), vtoc_ebcdic_enc (bytes "VOL1"),
      vtoc_ebcdic_enc (bytes "0X0150"), ⟨0, 1, 1⟩⟩ }

def partVolume : Volume := fun blk =>
  if blk = 49152 then .fmt4 (vtoc_init_format4_label 50 50 15 12 4096 DASD_3390_TYPE) else .dataset .zero

def partActions : List SizeAction :=
  [.recreate, .add ⟨0, 1⟩ [2] [100], .add ⟨0, 1⟩ [101] [749], .reuse ⟨0, 1⟩, .remove 1,
    .auto ⟨0, 1⟩ (bytes "0X0150")]

theorem partDisk_clear : Clear partDisk (List.finRange USABLE_PARTITIONS) :=
  ⟨initialize_wellLinked.list, rfl, fun _ => rfl, rfl⟩

theorem part_validSize {f4 : Format4Label}
    (h : f4 = vtoc_init_format4_label 50 50 15 12 4096 DASD_3390_TYPE) (cyl : Nat) :
    ValidSize (partGeo cyl) f4 (datasets (recordsBehind (partGeo cyl) partDisk partVolume 49152)) := by
  have hls : datasets (recordsBehind (partGeo cyl) partDisk partVolume 49152) = [] := rfl
  rw [hls, h]
  exact ⟨Nat.zero_le _, by decide, rfl, by show FIRST_USABLE_TRK < 50 * 15; decide, fun l hl => by cases hl⟩

def partCheck (cyl : Nat) (f : FdasdAnchor → Bool) : Bool :=
  match readVtoc (partGeo cyl) partDisk partVolume with
  | some (.ok anc₀) => anc₀.f4 == vtoc_init_format4_label 50 50 15 12 4096 DASD_3390_TYPE && f anc₀
  | _ => false

theorem partCheck_eq {cyl : Nat} {f : FdasdAnchor → Bool} (h : partCheck cyl f = true) :
    ∃ anc₀, readVtoc (partGeo cyl) partDisk partVolume = some (.ok anc₀) ∧
      anc₀.f4 = vtoc_init_format4_label 50 50 15 12 4096 DASD_3390_TYPE ∧ f anc₀ = true := by
  unfold partCheck at h
  split at h
  · rename_i anc₀ hread
    rw [Bool.and_eq_true, beq_iff_eq] at h
    exact ⟨anc₀, hread, h.1, h.2⟩
  · cases h

theorem partDisk_run : ∃ anc₀ anc', readVtoc (partGeo 50) partDisk partVolume = some (.ok anc₀) ∧
    Run.exec (sizeStep (partGeo 50)) anc₀ partActions = some anc' ∧ SizesAgree (partGeo 50) anc' := by
  have hcheck : partCheck 50 (fun anc₀ =>
      decide (Run.Admissible (sizeStep (partGeo 50)) (Sound (partGeo 50)) anc₀ partActions) &&
        (Run.exec (sizeStep (partGeo 50)) anc₀ partActions).isSome) = true := by
    decide
  obtain ⟨anc₀, hread, h4, h⟩ := partCheck_eq hcheck
  rw [Bool.and_eq_true, decide_eq_true_eq, Option.isSome_iff_exists] at h
  obtain ⟨hadm, anc', hex⟩ := h
  exact ⟨anc₀, anc', hread, hex, size_run (by decide) partDisk_clear hread (part_validSize h4 50)
    (h4 ▸ Or.inr (Or.inr rfl)) _ hadm hex⟩

/-- The device has 100 cylinders: after recreating, all of them are taken for usable. -/
theorem partDisk_beyond : ∃ anc₀ anc', Clear partDisk (List.finRange USABLE_PARTITIONS) ∧
    readVtoc (partGeo 100) partDisk partVolume = some (.ok anc₀) ∧
    ValidSize (partGeo 100) anc₀.f4
      (datasets (recordsBehind (partGeo 100) partDisk partVolume (vtocStart (partGeo 100) partDisk))) ∧
    Run.exec (sizeStep (partGeo 100)) anc₀ [.recreate] = some anc' ∧ ¬ SizesAgree (partGeo 100) anc' := by
  have hcheck : partCheck 100 (fun anc₀ => (Run.exec (sizeStep (partGeo 100)) anc₀ [.recreate]).any fun a =>
      get_usable_cylinders a == 100 && a.formatted_cylinders == 50) = true := by
    decide
  obtain ⟨anc₀, hread, h4, h⟩ := partCheck_eq hcheck
  obtain ⟨anc', hex, h⟩ := (Option.any_eq_true ..).mp h
  rw [Bool.and_eq_true, beq_iff_eq, beq_iff_eq] at h
  refine ⟨anc₀, anc', partDisk_clear, hread, part_validSize h4 100, hex, fun ha => ?_⟩
  have := ha.usable
  omega

end Fdasd
