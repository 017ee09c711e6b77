import S390Tools.Zipl.SegmentTable

/-!
# Components of the boot map

The block list of a component is compacted and written as segment tables. Reading
the tables and expanding the pointers gives the blocks of the list again, with the
empty block in place of holes.
-/

namespace Zipl

open Word

/-- The count fits into its field, and on a disk with tracks the blocks end with the track. -/
structure InBounds (info : DiskInfo) (p : DiskBlockptr) : Prop where
  linear : info.type = .scsi ∨ info.type = .fba → 0 ≤ p.linear.blockct ∧ p.linear.blockct ≤ maxLinkCount info
  chs : info.type = .eckd_ldl ∨ info.type = .eckd_cdl → 0 ≤ p.chs.blockct ∧ p.chs.blockct ≤ maxLinkCount info ∧
    p.chs.sec + p.chs.blockct ≤ info.geo.sectors.toNat

/-- The address of the block has 4 bits for the head and 28 bits for the cylinder. -/
structure Addressable (info : DiskInfo) (b : Nat) : Prop where
  heads : info.type = .eckd_ldl ∨ info.type = .eckd_cdl → 0 < info.geo.heads.toNat ∧ info.geo.heads.toNat ≤ 16
  cyl : info.type = .eckd_ldl ∨ info.type = .eckd_cdl →
    b / (info.geo.heads.toNat * info.geo.sectors.toNat) < 268435456

section
variable {info : DiskInfo}

/-! ## Addresses -/

theorem head_field {cyl head : Nat} (hc : cyl < 268435456) (hh : head < 16) :
    u16 ((u32 head ||| ((u32 cyl >>> 12) &&& 0xfff0) : Nat) : Int) = 16 * (cyl / 65536) + head := by
  have h₁ : u32 (head : Int) = head := by apply u32_eq <;> omega
  have h₂ : u32 (cyl : Int) = cyl := by apply u32_eq <;> omega
  have h₃ : cyl >>> 12 = cyl / 4096 := Nat.shiftRight_eq_div_pow ..
  have h₄ : 16 * (cyl / 4096 / 16) = (cyl / 65536) <<< 4 := by rw [Nat.shiftLeft_eq]; omega
  rw [h₁, h₂, h₃, Vtoc.and_fff0 _ (by omega), h₄, Nat.or_comm,
    ← Nat.shiftLeft_add_eq_or_of_lt (by omega), Nat.shiftLeft_eq]
  unfold u16; omega

theorem cyl_head_eq {q q' r r' : Nat} (hq : q < 268435456) (hq' : q' < 268435456) (hr : r < 16) (hr' : r' < 16)
    (h₁ : u16 (i32 q) = u16 (i32 q'))
    (h₂ : u16 ((u32 (i32 r) ||| ((u32 (i32 q) >>> 12) &&& 0xfff0) : Nat) : Int) =
      u16 ((u32 (i32 r') ||| ((u32 (i32 q') >>> 12) &&& 0xfff0) : Nat) : Int)) : q = q' ∧ r = r' := by
  have e₁ : i32 q = q := i32_of_lt (by omega)
  have e₂ : i32 q' = q' := i32_of_lt (by omega)
  have e₃ : i32 r = r := i32_of_lt (by omega)
  have e₄ : i32 r' = r' := i32_of_lt (by omega)
  simp only [e₁, e₂, e₃, e₄] at h₁ h₂
  have h := (head_field hq hr).symm.trans (h₂.trans (head_field hq' hr'))
  clear h₂
  unfold u16 at h₁
  omega

theorem sec_eq {s s' : Nat} (hs : s < 256) (hs' : s' < 256)
    (h : i32 (s + 1 : Nat) = i32 (s' + 1 : Nat)) : s = s' := by
  rw [i32_of_lt (by omega), i32_of_lt (by omega)] at h
  omega

theorem block_eq {heads sectors b c : Nat} (hq : b / (heads * sectors) = c / (heads * sectors))
    (hr : b / sectors % heads = c / sectors % heads) (hs : b % sectors = c % sectors) : b = c := by
  rw [Nat.mul_comm, ← Nat.div_div_eq_div_mul, ← Nat.div_div_eq_div_mul] at hq
  have hd : b / sectors = c / sectors := by
    rw [← Nat.div_add_mod (b / sectors) heads, hq, hr, Nat.div_add_mod]
  rw [← Nat.div_add_mod b sectors, hd, hs, Nat.div_add_mod]

theorem Addressable.injective (hi : Supported info) {b c : Nat} (hb : Addressable info b) (hc : Addressable info c)
    (h : blockAddr info b = blockAddr info c) : b = c := by
  rw [blockAddr_eq, blockAddr_eq] at h
  have hsb := fun ht => single_sec hi ht b
  have hsc := fun ht => single_sec hi ht c
  have hlt := info.geo.sectors.toNat_lt
  cases ht : info.type with
  | diag => exact absurd ht hi.type
  | scsi | fba => simpa [ht] using h
  | eckd_ldl | eckd_cdl =>
    have hg := hi.geo (by simp [ht])
    have hsb := hsb (by simp [ht])
    have hsc := hsc (by simp [ht])
    obtain ⟨hh, hh'⟩ := hb.heads (by simp [ht])
    have hcb := hb.cyl (by simp [ht])
    have hcc := hc.cyl (by simp [ht])
    simp only [ht, Addr.eckd.injEq] at h
    obtain ⟨h₁, h₂, h₃⟩ := h
    have h₃ : (single info b).chs.sec = (single info c).chs.sec := by unfold u8 at h₃; omega
    by_cases hb0 : b = 0
    · have : ¬ c ≠ 0 := fun hc0 => by
        have := hsc.2.2 hc0
        rw [← h₃, hb0] at this
        simp [single, disk_blockptr_from_blocknum, ht] at this
      omega
    · have hc0 : c ≠ 0 := fun hc0 => by
        have := hsb.2.2 hb0
        rw [h₃, hc0] at this
        simp [single, disk_blockptr_from_blocknum, ht] at this
      simp only [single, disk_blockptr_from_blocknum, ht, hb0, hc0, if_false, disk_cyl_from_blocknum,
        disk_head_from_blocknum, disk_sec_from_blocknum] at h₁ h₂ h₃
      have hmb := Nat.mod_lt (b / info.geo.sectors.toNat) hh
      have hmc := Nat.mod_lt (c / info.geo.sectors.toNat) hh
      have hsb' := Nat.mod_lt b hg
      have hsc' := Nat.mod_lt c hg
      obtain ⟨hq, hr⟩ := cyl_head_eq hcb hcc (lt_of_lt_of_le hmb hh') (lt_of_lt_of_le hmc hh') h₁ h₂
      have hs := sec_eq (lt_trans hsb' hlt) (lt_trans hsc' hlt) h₃
      exact block_eq hq hr hs

/-! ## Components -/

theorem Run.entry (hi : Supported info) {p : DiskBlockptr} {bs : List Nat} (h : Run info p bs)
    {e : Nat} (he0 : e ≠ 0)
    (he : e < 18446744073709551616) : is_null_descriptor (entry info (single info e) p) = false ∧
      (entry info (single info e) p).blocks = bs.map fun b => blockAddr info (if b = 0 then e else b) := by
  unfold Zipl.entry
  by_cases hz : bs = [0]
  · obtain ⟨h₁, -, h₂⟩ := stored_single hi he0 he
    rw [if_pos ((h.zero_block_iff hi).mpr hz), hz]
    exact ⟨h₁, h₂⟩
  · obtain ⟨h₁, h₂⟩ := h.stored hi hz
    rw [if_neg (fun hn => hz ((h.zero_block_iff hi).mp hn))]
    refine ⟨h₁, h₂.trans (List.map_congr_left fun b hb => ?_)⟩
    have hb0 : b ≠ 0 := fun hb0 => hz (h.hole (hb0 ▸ hb))
    rw [if_neg hb0]

theorem entries_blocks (hi : Supported info) {e : Nat} (he0 : e ≠ 0) (he : e < 18446744073709551616) :
    ∀ {ps : List DiskBlockptr} {xss : List (List Nat)}, List.Forall₂ (Run info) ps xss →
      (ps.map (entry info (single info e))).flatMap StoredPtr.blocks =
        xss.flatten.map fun b => blockAddr info (if b = 0 then e else b)
  | [], _, h => by cases h; rfl
  | p :: ps, _, h => by
    cases h with
    | cons hp h =>
      rw [List.map_cons, List.flatMap_cons, (hp.entry hi he0 he).2, entries_blocks hi he0 he h, List.flatten_cons,
        List.map_append]

theorem exists_run : ∀ {ps : List DiskBlockptr} {xss : List (List Nat)}, List.Forall₂ (Run info) ps xss →
    ∀ p ∈ ps, ∃ xs, Run info p xs
  | [], _, _, p, hp => by cases hp
  | q :: ps, _, h, p, hp => by
    cases h with
    | cons hq h =>
      rcases List.mem_cons.mp hp with rfl | hp
      · exact ⟨_, hq⟩
      · exact exists_run h p hp

theorem compact_count (list : Nat → DiskBlockptr) (count : Nat) :
    (disk_compact_blocklist list count info).2 ≤ count := by
  unfold disk_compact_blocklist
  split
  · exact le_refl count
  · exact le_trans (Compact.inPlace_count _ _ _ _) (by omega)

/-- Following the segment tables of a component gives the blocks it was built from. -/
theorem component_blocks (hi : Supported info) (hsize : 2 * get_blockptr_size info ≤ info.phy_block_size)
    {phys : Nat → Option Nat} {file : BootmapFile} {bs : List Nat} (hne : bs ≠ [])
    (hlt : ∀ b ∈ bs, b < 18446744073709551616) {e : Nat} (he0 : e ≠ 0) (he : e < 18446744073709551616)
    (hp : Mapped info phys file (file.pos + bs.length)) {list : Nat → DiskBlockptr} {count : Nat}
    (hcompact : disk_compact_blocklist (fun i => single info (bs.getD i 0)) bs.length info = (list, count)) :
    (∃ seg file' es, add_segment_table info phys (single info e) list count file = some (seg, file') ∧
      (∀ fuel ≥ bs.length, readChain info file'.tables fuel (bootmap_store_blockptr (some seg) info) = some es) ∧
      es.flatMap StoredPtr.blocks = bs.map fun b => blockAddr info (if b = 0 then e else b)) ∧
    (∀ i < count, InBounds info (list i)) ∧
    (∀ b c, Addressable info b → Addressable info c → blockAddr info b = blockAddr info c → b = c) := by
  have hM : 0 < max_offset info := by
    have h16 : 0 < get_blockptr_size info := by
      unfold get_blockptr_size
      cases ht : info.type with
      | diag => exact absurd ht hi.type
      | scsi | fba | eckd_ldl | eckd_cdl => decide
    have := (Nat.le_div_iff_mul_le h16).mpr hsize
    unfold max_offset
    omega
  obtain ⟨xss, hruns, hflat⟩ := compact_runs hi hne hlt
  have hcount := @compact_count info (fun i => single info (bs.getD i 0)) bs.length
  rw [hcompact] at hruns hcount
  have hat : ∀ i < count, ∃ xs, Run info (list i) xs := by
    intro i hi'
    have hget : (Compact.front list count)[i]? = some (list i) := by
      rw [Compact.front, List.getElem?_map, List.getElem?_range hi', Option.map_some]
    exact exists_run hruns _ (List.mem_of_getElem? hget)
  refine ⟨?_, fun i hi' => ?_, fun b c hb hc h => hb.injective hi hc h⟩
  · obtain ⟨seg, file', hadd, hread⟩ := @add_segment_table_eq info hi hM phys (single info e) list count file
      (hp.mono (by omega)) fun i hi' => by
        obtain ⟨xs, hR⟩ := hat i hi'
        exact (hR.entry hi he0 he).1
    exact ⟨seg, file', _, hadd, fun fuel hf => hread fuel (by omega), by rw [entries_blocks hi he0 he hruns, hflat]⟩
  · obtain ⟨xs, hR⟩ := hat i hi'
    obtain ⟨h₁, h₂⟩ := hR.limits hi
    exact ⟨h₁, h₂⟩

end

/-! ## A small component -/

def cdlDisk : DiskInfo := ⟨.eckd_cdl, 4096, ⟨15, 12⟩⟩

def cdlPhys (k : Nat) : Option Nat := some (100 + k)

theorem cdl_mapped : Mapped cdlDisk cdlPhys ⟨1, fun _ => none⟩ 5 where
  block := fun k _ hk => ⟨100 + k, rfl, by omega, by omega⟩
  different := by
    intro j k b c hj hjk hk hb hc
    cases hb
    cases hc
    interval_cases k <;> interval_cases j <;> decide
  fresh := fun _ _ _ _ _ => rfl

theorem cdl_component : ∃ seg file' es, add_segment_table cdlDisk cdlPhys (single cdlDisk 30)
      (disk_compact_blocklist (fun i => single cdlDisk ([24, 25, 0, 40].getD i 0)) 4 cdlDisk).1
      (disk_compact_blocklist (fun i => single cdlDisk ([24, 25, 0, 40].getD i 0)) 4 cdlDisk).2 ⟨1, fun _ => none⟩ =
        some (seg, file') ∧
    (∀ fuel ≥ 4, readChain cdlDisk file'.tables fuel (bootmap_store_blockptr (some seg) cdlDisk) = some es) ∧
    es.flatMap StoredPtr.blocks = [24, 25, 30, 40].map (blockAddr cdlDisk) :=
  (@component_blocks cdlDisk ⟨by decide, by decide⟩ (by decide) cdlPhys ⟨1, fun _ => none⟩ [24, 25,
    0, 40] (by decide)
    (by decide) 30 (by decide) (by decide) cdl_mapped _ _ rfl).1

end Zipl
