import S390Tools.Zipl.Stage2Run

/-!
# Block lists from zipl to the loader

The list of a component is compacted and written by zipl and loaded by stage 2. The
loader stores exactly the blocks of the list unless an FBA disk has a run of 129
blocks, which is written with the count 128.
-/

namespace Zipl

open Word

def dasdOf : DiskType → Option Dasd
  | .fba => some .fba
  | .eckd_ldl | .eckd_cdl => some .eckd
  | .scsi | .diag => none

/-- The block number fits, on an FBA disk into the 32 bits of an extent. -/
def InReach (info : DiskInfo) (b : Nat) : Prop :=
  b < 18446744073709551616 ∧ (info.type = .fba → b < 4294967296)

section
variable {info : DiskInfo} {dasd : Dasd} (hd : dasdOf info.type = some dasd) (hsize : info.phy_block_size < 65536)

theorem linked_zero : Linked dasd info.phy_block_size (bootmap_store_blockptr (some .zero) info) := by
  have hzero : bootmap_store_blockptr (some .zero) info = zeroPtr info := by
    unfold bootmap_store_blockptr zeroPtr
    cases info.type <;> rfl
  have hnull : is_null_descriptor (zeroPtr info) = true := by
    unfold zeroPtr is_null_descriptor
    cases info.type <;> rfl
  rw [hzero]
  refine ⟨?_, fun h => absurd h (by rw [hnull]; decide)⟩
  unfold zeroPtr
  cases info.type <;> rfl

include hd hsize in
theorem linked_from_blocknum {b : Nat} (hb : InReach info b) (ptr : DiskBlockptr) :
    Linked dasd info.phy_block_size
      (bootmap_store_blockptr (some (disk_blockptr_from_blocknum ptr b info)) info) := by
  have hs : u16 (info.phy_block_size : Int) = info.phy_block_size := by apply u16_eq <;> omega
  have hst := @store_counted info b 0
  rw [counted_zero] at hst
  rw [store_from_blocknum, hst]
  cases ht : info.type with
  | scsi | diag =>
    rw [ht] at hd
    cases hd
  | fba =>
    rw [ht] at hd
    cases hd
    exact ⟨rfl, fun _ => ⟨rfl, hb.2 ht, hs, rfl⟩⟩
  | eckd_ldl | eckd_cdl =>
    rw [ht] at hd
    cases hd
    refine ⟨rfl, fun _ => ⟨rfl, ?_, rfl⟩⟩
    have hchs : (single info b).chs.size = info.phy_block_size := by
      simp only [single, disk_blockptr_from_blocknum, ht]
      split <;> rfl
    rw [hchs, hs]

/-! ## The tables that are written -/

structure Extends (s₁ s₂ : SegmentState) : Prop where
  buffer : s₁.buffer = s₂.buffer
  next : s₁.next = s₂.next
  pos : s₁.file.pos = s₂.file.pos
  tables : ∀ a t, s₁.file.tables a = some t → s₂.file.tables a = some t

include hd hsize in
theorem segmentLoop_tables {phys : Nat → Option Nat} {empty_block : DiskBlockptr} {list : Nat → DiskBlockptr} :
    ∀ (count : Nat) {offset : Nat} {s r s' : SegmentState},
    (∀ k b, s.file.pos ≤ k → k < s.file.pos + count → phys k = some b → InReach info b) → Extends s r →
    (∀ a t, s.file.tables a = some t → Linked dasd info.phy_block_size (t (max_offset info))) →
    Linked dasd info.phy_block_size (bootmap_store_blockptr (some s.next) info) →
    segmentLoop info phys empty_block list count offset s = some s' →
    ∃ r', segmentLoop info phys empty_block list count offset r = some r' ∧ Extends s' r' ∧
      (∀ a t, s'.file.tables a = some t → Linked dasd info.phy_block_size (t (max_offset info))) ∧
      Linked dasd info.phy_block_size (bootmap_store_blockptr (some s'.next) info)
  | 0, offset, s₁, s₂, s', _, he, hl, hn, h => by
    cases h
    exact ⟨s₂, rfl, he, hl, hn⟩
  | count + 1, offset, ⟨buffer, next, pos, tables⟩, ⟨buffer₂, next₂, pos₂, tables₂⟩, s', hphys,
      ⟨hbuffer, hnext, hpos, ht⟩,
      hl, hn, h => by
    dsimp only at hbuffer hnext hpos ht hl hn hphys
    subst hbuffer hnext hpos
    rw [segmentLoop] at h ⊢
    dsimp only at h ⊢
    generalize Function.update buffer offset (bootmap_store_blockptr
      (some (if disk_is_zero_block (list count) info then empty_block else list count)) info) = buffer' at h ⊢
    by_cases ho : offset > 0
    · rw [if_pos ho] at h ⊢
      exact segmentLoop_tables count (s := ⟨buffer', next, pos, tables⟩)
        (fun k b h₁ h₂ => hphys k b h₁ (Nat.lt_succ_of_lt h₂))
        ⟨rfl, rfl, rfl, ht⟩ hl hn h
    · rw [if_neg ho] at h ⊢
      generalize hfull : Function.update buffer' (max_offset info)
        (bootmap_store_blockptr (some next) info) = t at h ⊢
      cases hb : phys pos with
      | none =>
        simp only [disk_write_block_aligned, hb] at h
        cases h
      | some b =>
        simp only [disk_write_block_aligned, hb] at h ⊢
        refine segmentLoop_tables count (s := ⟨t, disk_blockptr_from_blocknum next b info, pos + 1,
          Function.update tables (blockAddr info b) (some t)⟩)
            (fun k c h₁ h₂ => hphys k c (Nat.le_of_succ_le h₁) ?_)
          ⟨rfl, rfl, rfl, ?_⟩ ?_ (linked_from_blocknum hd hsize (hphys pos b (le_refl _) (by omega) hb) _) h
        · dsimp only at h₂
          omega
        · intro a t' ha
          dsimp only at ha ⊢
          by_cases hab : a = blockAddr info b
          · rw [hab, Function.update_self] at ha ⊢
            exact ha
          · rw [Function.update_of_ne hab] at ha ⊢
            exact ht a t' ha
        · intro a t' ha
          dsimp only at ha
          by_cases hab : a = blockAddr info b
          · rw [hab, Function.update_self, Option.some.injEq] at ha
            rw [← ha, ← hfull, Function.update_self]
            exact hn
          · rw [Function.update_of_ne hab] at ha
            exact hl a t' ha

/-! ## The entries of the tables -/

include hd hsize in
theorem loadable_stored (hi : Supported info) {disk : Disk} {content : Addr → Nat → UInt8} {b n : Nat} (hb : b ≠ 0)
    (hn : n ≤ 255) (hreach : info.type = .fba → b + n < 4294967296)
    (hdata : ∀ x ∈ (bootmap_store_blockptr (some (counted info (single info b) n)) info).blocks,
      disk x = some (.data (content x))) {batches : Nat} (hbat : 2 ≤ batches) :
    Loadable dasd disk batches info.phy_block_size content
      (bootmap_store_blockptr (some (counted info (single info b) n)) info) := by
  have hs : u16 (info.phy_block_size : Int) = info.phy_block_size := by apply u16_eq <;> omega
  refine ⟨?_, ?_, hdata, ?_⟩ <;> rw [store_counted] <;> clear hdata
  · cases ht : info.type with
    | scsi | diag =>
      rw [ht] at hd
      cases hd
    | fba => exact hs
    | eckd_ldl | eckd_cdl =>
      have hchs : (single info b).chs.size = info.phy_block_size := by
        simp only [single, disk_blockptr_from_blocknum, ht]
        split <;> rfl
      simp only [StoredPtr.size, hchs, hs]
  · cases ht : info.type with
    | scsi | diag =>
      rw [ht] at hd
      cases hd
    | fba =>
      have := hreach ht
      simp only [is_zero_block, decide_eq_true_eq]
      unfold u32
      omega
    | eckd_ldl | eckd_cdl =>
      have hsec := (single_sec hi (by simp [ht]) b)
      have hpos := hsec.2.2 hb
      have hlt := info.geo.sectors.toNat_lt
      have : u8 (single info b).chs.sec ≠ 0 := by unfold u8; omega
      simp [is_zero_block, this]
  · have hct : u16 (n : Int) = n := by apply u16_eq <;> omega
    cases ht : info.type with
    | scsi | diag =>
      rw [ht] at hd
      cases hd
    | fba =>
      rw [ht] at hd
      cases hd
      refine ⟨rfl, ?_, ?_⟩
      · rw [hct]
        exact hreach ht
      · rw [hct, MAX_BLOCKCT]
        omega
    | eckd_ldl | eckd_cdl =>
      rw [ht] at hd
      cases hd
      rfl

theorem loaded_eq_run (p : StoredPtr) : ∃ k ≤ p.blockct + 1, p.loaded = p.addr.run k := by
  cases p with
  | linear b size c =>
    refine ⟨fba_count c, ?_, rfl⟩
    rw [StoredPtr.blockct]
    unfold fba_count
    split <;> omega
  | eckd cyl head sec size c => exact ⟨c + 1, le_refl _, rfl⟩

theorem loaded_length_le (p : StoredPtr) : p.loaded.length ≤ p.blocks.length := by
  obtain ⟨k, hk, h⟩ := loaded_eq_run p
  rw [h, Addr.length_run]
  simpa [StoredPtr.blocks] using hk

theorem loaded_eq_blocks {p : StoredPtr} (h : p.loaded.length = p.blocks.length) : p.loaded = p.blocks := by
  obtain ⟨k, hk, hrun⟩ := loaded_eq_run p
  rw [hrun, Addr.length_run] at h
  rw [hrun, h]
  simp [StoredPtr.blocks, Addr.run]

theorem loadedLength_le : ∀ es : List StoredPtr, loadedLength es ≤ (es.flatMap StoredPtr.blocks).length
  | [] => le_refl 0
  | p :: es => by
    have := loaded_length_le p
    have := loadedLength_le es
    simp only [loadedLength, List.flatMap_cons, List.length_append] at *
    omega

theorem loaded_length_of_total : ∀ {es : List StoredPtr}, loadedLength es = (es.flatMap StoredPtr.blocks).length →
    ∀ p ∈ es, p.loaded.length = p.blocks.length
  | q :: es, h, p, hp => by
    have h₁ := loaded_length_le q
    have h₂ := loadedLength_le es
    simp only [loadedLength, List.flatMap_cons, List.length_append] at h h₂
    rcases List.mem_cons.mp hp with rfl | hp
    · omega
    · exact loaded_length_of_total (by rw [loadedLength]; omega) p hp

theorem loaded_of_each : ∀ {es : List StoredPtr}, (∀ p ∈ es, p.loaded.length = p.blocks.length) →
    es.flatMap StoredPtr.loaded = es.flatMap StoredPtr.blocks
  | [], _ => rfl
  | p :: es, h => by
    rw [List.flatMap_cons, List.flatMap_cons, loaded_eq_blocks (h p List.mem_cons_self),
      loaded_of_each fun q hq => h q (List.mem_cons_of_mem _ hq)]

include hd in
theorem loaded_stored {b n : Nat} (hn : n ≤ 255) :
    (bootmap_store_blockptr (some (counted info (single info b) n)) info).loaded.length =
      (bootmap_store_blockptr (some (counted info (single info b) n)) info).blocks.length ↔
    (info.type = .fba → n ≠ 128) := by
  rw [store_counted]
  have hct : u16 (n : Int) = n := by apply u16_eq <;> omega
  cases ht : info.type with
  | scsi | diag =>
    rw [ht] at hd
    cases hd
  | fba =>
    simp only [StoredPtr.loaded, Addr.length_run, StoredPtr.blocks, List.length_map,
      List.length_range, StoredPtr.blockct,
      hct, fba_count, MAX_BLOCKCT, forall_const]
    split <;> omega
  | eckd_ldl | eckd_cdl => simp [StoredPtr.loaded, Addr.length_run, StoredPtr.blocks, StoredPtr.blockct]

/-! ## From the list to the storage -/

include hd in
theorem Run.entry_counted (hi : Supported info) {p : DiskBlockptr} {bs : List Nat}
    (h : Run info p bs) {e : Nat} (he0 : e ≠ 0)
    (he : InReach info e) (hbs : ∀ b ∈ bs, InReach info b) : ∃ b n, b ≠ 0 ∧ n ≤ 255 ∧
      Zipl.entry info (single info e) p = bootmap_store_blockptr (some (counted info (single info b) n)) info ∧
      (info.type = .fba → b + n < 4294967296 ∧ p.linear.blockct = n) := by
  have hz := h.zero_block_iff hi
  obtain ⟨⟨b, rest, rfl, rfl, hf⟩, hcount, -, hhole⟩ := h
  unfold Zipl.entry
  by_cases hzero : b :: rest = [0]
  · obtain ⟨rfl, rfl⟩ := List.cons.inj hzero
    refine ⟨e, 0, he0, by omega, ?_, fun ht => ⟨he.2 ht, ?_⟩⟩
    · rw [if_pos (hz.mpr rfl), counted_zero]
    · simp [counted, ht]
  · have hb0 : b ≠ 0 := fun hb => hzero (hhole (by simp [hb]))
    have hn : rest.length ≤ 255 := by
      have hscsi : info.type ≠ .scsi := fun ht => by
        rw [ht] at hd
        cases hd
      rw [maxLinkCount, if_neg hscsi, DASD_MAX_LINK_COUNT, List.length_cons] at hcount
      omega
    refine ⟨b, rest.length, hb0, hn, ?_, fun ht => ⟨?_, ?_⟩⟩
    · rw [if_neg fun hp => hzero (hz.mp hp)]
    · obtain ⟨c, hc⟩ : ∃ c, (b :: rest)[rest.length]? = some c := ⟨_, List.getElem?_eq_getElem (by simp)⟩
      have hlast := hf _ c hc
      simp only [Follows, ht] at hlast
      have := (hbs c (List.mem_of_getElem? hc)).2 ht
      omega
    · simp [counted, ht]

/-- The blocks `bs` stand in the storage from `a` on, and nothing else has changed there. -/
def Stored (info : DiskInfo) (data : Nat → Nat → UInt8) (e : Nat) (bs : List Nat) (a : Nat) (m : Store)
    (r : Option (Store × Nat)) : Prop :=
  ∃ m', r = some (m', a + info.phy_block_size * bs.length) ∧
    (∀ j b, bs[j]? = some b → ∀ i < info.phy_block_size,
      m'.mem (a + info.phy_block_size * j + i) = data (if b = 0 then e else b) i) ∧
    ∀ x, x < a ∨ a + info.phy_block_size * bs.length ≤ x → m'.mem x = m.mem x

def contentOf (disk : Disk) (a : Addr) : Nat → UInt8 :=
  match disk a with
  | some (.data bytes) => bytes
  | _ => fun _ => 0

include hd in
theorem stored_iff (hi : Supported info) {disk : Disk} {data : Nat → Nat → UInt8} {e : Nat}
    {bs : List Nat} {a : Nat}
    {m m' : Store} (hpos : 0 < info.phy_block_size) {ps : List DiskBlockptr} {xss : List (List Nat)}
    (hruns : List.Forall₂ (Run info) ps xss) (hflat : xss.flatten = bs) (he0 : e ≠ 0) (he : InReach info e)
    (hbs : ∀ b ∈ bs, InReach info b)
    (hdata : ∀ b ∈ bs, disk (blockAddr info (if b = 0 then e else b)) =
      some (.data (data (if b = 0 then e else b))))
    (hmem : m'.mem = loads info.phy_block_size (contentOf disk) (ps.map (entry info (single info e))) a m.mem) :
    Stored info data e bs a m (some (m',
      a + info.phy_block_size * loadedLength (ps.map (entry info (single info e))))) ↔
      ∀ p ∈ ps, info.type = .fba → p.linear.blockct ≠ 128 := by
  have hblocks := entries_blocks hi he0 he.1 hruns
  rw [hflat] at hblocks
  have hlen : ((ps.map (entry info (single info e))).flatMap StoredPtr.blocks).length = bs.length := by
    rw [hblocks, List.length_map]
  have hgood : ∀ p ∈ ps, ((entry info (single info e) p).loaded.length =
    (entry info (single info e) p).blocks.length ↔
      (info.type = .fba → p.linear.blockct ≠ 128)) := by
    intro p hp
    obtain ⟨xs, hxs, hR⟩ : ∃ xs ∈ xss, Run info p xs := by
      obtain ⟨k, hk⟩ := List.mem_iff_getElem?.mp hp
      have hget := List.forall₂_iff_get.mp hruns
      obtain ⟨hk', hpk⟩ := List.getElem?_eq_some_iff.mp hk
      exact ⟨xss.get ⟨k, hget.1 ▸ hk'⟩, List.getElem_mem _, hpk ▸ hget.2 k hk' (hget.1 ▸ hk')⟩
    have hxs' : ∀ b ∈ xs, InReach info b := fun b hb => hbs b (hflat ▸ List.mem_flatten.mpr ⟨xs, hxs, hb⟩)
    obtain ⟨b, n, -, hn, hentry, hct⟩ := hR.entry_counted hd hi he0 he hxs'
    rw [hentry, loaded_stored hd hn]
    refine forall_congr' fun ht => ?_
    rw [(hct ht).2]
    omega
  constructor
  · rintro ⟨m'', hr, -, -⟩ p hp
    have htotal : loadedLength (ps.map (entry info (single info e))) = bs.length := by
      have := (Prod.mk.inj (Option.some.inj hr)).2
      exact Nat.eq_of_mul_eq_mul_left hpos (Nat.add_left_cancel this)
    exact (hgood p hp).mp (loaded_length_of_total (htotal.trans hlen.symm) _ (List.mem_map_of_mem hp))
  · intro h
    have hloaded : (ps.map (entry info (single info e))).flatMap StoredPtr.loaded =
        bs.map fun b => blockAddr info (if b = 0 then e else b) := by
      rw [← hblocks]
      refine loaded_of_each fun q hq => ?_
      obtain ⟨p, hp, rfl⟩ := List.mem_map.mp hq
      exact (hgood p hp).mpr (h p hp)
    rw [loads, hloaded, List.map_map] at hmem
    refine ⟨m', ?_, fun j b hj i hi' => ?_, fun x hx => ?_⟩
    · rw [loadedLength, hloaded, List.length_map]
    · rw [hmem]
      refine Blocks.writeAll_at info.phy_block_size ?_ hi'
      rw [List.getElem?_map, hj, Option.map_some, Function.comp_apply, contentOf, hdata b (List.mem_of_getElem? hj)]
    · rw [hmem, Blocks.writeAll_outside]
      rwa [List.length_map]

include hd hsize in
theorem Run.loadable (hi : Supported info) {p : DiskBlockptr} {bs : List Nat} (h : Run info p bs) {disk : Disk}
    {data : Nat → Nat → UInt8} {e batches : Nat} (he0 : e ≠ 0) (he : InReach info e)
      (hbs : ∀ b ∈ bs, InReach info b)
    (hdata : ∀ b ∈ bs, disk (blockAddr info (if b = 0 then e else b)) =
      some (.data (data (if b = 0 then e else b))))
    (hbat : 2 ≤ batches) :
    Loadable dasd disk batches info.phy_block_size (contentOf disk) (Zipl.entry info (single info e) p) := by
  obtain ⟨b, n, hb0, hn, hentry, hct⟩ := h.entry_counted hd hi he0 he hbs
  have hblocks := (h.entry hi he0 he.1).2
  rw [hentry] at hblocks ⊢
  refine loadable_stored hd hsize hi hb0 hn (fun ht => (hct ht).1) (fun x hx => ?_) hbat
  rw [hblocks] at hx
  obtain ⟨c, hc, rfl⟩ := List.mem_map.mp hx
  rw [contentOf, hdata c hc]

include hd in
/-- zipl writes the list, and stage 2 stores its blocks in order, exactly when no pointer on an FBA
disk counts 129 blocks. -/
theorem load_blocklist_stored (hi : Supported info) (hmin : 32 ≤ info.phy_block_size)
    (hmax : info.phy_block_size ≤ 4096)
    {phys : Nat → Option Nat} {file : BootmapFile} {bs : List Nat} (hne : bs ≠ []) (hbs : ∀ b ∈ bs, InReach info b)
    {e : Nat} (he0 : e ≠ 0) (he : InReach info e) (hp : Mapped info phys file (file.pos + bs.length))
    (hphys : ∀ k b, file.pos ≤ k → k < file.pos + bs.length → phys k = some b → InReach info b)
    {list : Nat → DiskBlockptr} {count : Nat}
    (hcompact : disk_compact_blocklist (fun i => single info (bs.getD i 0)) bs.length info = (list, count)) :
    ∃ seg file', add_segment_table info phys (single info e) list count file = some (seg, file') ∧
      ∀ (disk : Disk) (data : Nat → Nat → UInt8), (∀ a t, file'.tables a = some t → disk a = some (.table t)) →
        (∀ b ∈ bs, disk (blockAddr info (if b = 0 then e else b)) = some (.data (data (if b = 0 then e else b)))) →
        ∀ m : Store, m.descr = bootmap_store_blockptr (some seg) info →
        ∀ batches tables a : Nat, 2 ≤ batches → bs.length ≤ tables →
          (Stored info data e bs a m (load_blocklist dasd disk batches tables a m) ↔
            ∀ i < count, info.type = .fba → (list i).linear.blockct ≠ 128) := by
  have hsize : info.phy_block_size < 65536 := by omega
  have h16 : get_blockptr_size info = 16 := by
    unfold get_blockptr_size
    cases ht : info.type with
    | diag => exact absurd ht hi.type
    | scsi | fba | eckd_ldl | eckd_cdl => rfl
  have hM : info.phy_block_size / 16 - 1 = max_offset info := by rw [max_offset, h16]
  have hM0 : 0 < max_offset info := by omega
  obtain ⟨xss, hruns, hflat⟩ := compact_runs hi hne fun b hb => (hbs b hb).1
  have hcount := @compact_count info (fun i => single info (bs.getD i 0)) bs.length
  rw [hcompact] at hruns hcount
  dsimp only at hruns hcount
  have hrun : ∀ p ∈ Compact.front list count, ∃ xs, Run info p xs ∧ ∀ b ∈ xs, b ∈ bs := by
    intro p hp'
    obtain ⟨k, hk⟩ := List.mem_iff_getElem?.mp hp'
    have hget := List.forall₂_iff_get.mp hruns
    obtain ⟨hk', hpk⟩ := List.getElem?_eq_some_iff.mp hk
    refine ⟨xss.get ⟨k, hget.1 ▸ hk'⟩, hpk ▸ hget.2 k hk' (hget.1 ▸ hk'), fun b hb => ?_⟩
    rw [← hflat]
    exact List.mem_flatten.mpr ⟨_, List.get_mem _ _, hb⟩
  -- the tables are written in the same way into a file without tables
  have hp₀ : Mapped info phys ⟨file.pos, fun _ => none⟩ (file.pos + count) :=
    ⟨fun k h₁ h₂ => hp.block k h₁ (by omega), fun j k b c h₁ h₂ h₃ => hp.different j k b c h₁ h₂ (by omega),
      fun _ _ _ _ _ => rfl⟩
  obtain ⟨seg, file₀, hadd₀, hread⟩ := @add_segment_table_eq info hi hM0 phys (single info e) list count
    ⟨file.pos, fun _ => none⟩ hp₀ fun i hi' => by
      obtain ⟨xs, hR, -⟩ := hrun (list i) (List.mem_map.mpr ⟨i, List.mem_range.mpr hi', rfl⟩)
      exact (hR.entry hi he0 he.1).1
  unfold add_segment_table at hadd₀
  obtain ⟨s₀, hs₀, hs₀'⟩ := Option.map_eq_some_iff.mp hadd₀
  obtain ⟨rfl, rfl⟩ := Prod.mk.inj hs₀'
  obtain ⟨s, hs, hext, hlink, hseg⟩ := segmentLoop_tables hd hsize count
    (s := ⟨fun _ => zeroPtr info, .zero, file.pos, fun _ => none⟩) (r := ⟨fun _ => zeroPtr info, .zero, file⟩)
    (fun k b h₁ h₂ => hphys k b h₁ (by dsimp only at h₂; omega)) ⟨rfl, rfl, rfl, fun _ _ ha =>
      by cases ha⟩ (fun _ _ ha => by cases ha) linked_zero hs₀
  refine ⟨s₀.next, s.file, ?_, fun disk data htables hdata m hm batches tables a hbat htab => ?_⟩
  · unfold add_segment_table
    rw [hs, hext.next]
    rfl
  have hchain := hread tables (le_trans hcount htab)
  have hload : ∀ q ∈ (Compact.front list count).map (entry info (single info e)),
      Loadable dasd disk batches info.phy_block_size (contentOf disk) q := by
    intro q hq
    obtain ⟨p, hp', rfl⟩ := List.mem_map.mp hq
    obtain ⟨xs, hR, hxs⟩ := hrun p hp'
    exact hR.loadable hd hsize hi he0 he (fun b hb => hbs b (hxs b hb)) (fun b hb => hdata b (hxs b hb)) hbat
  have hnull : is_null_descriptor (bootmap_store_blockptr (some s₀.next) info) = false := by
    by_contra hn
    have hn : is_null_descriptor (bootmap_store_blockptr (some s₀.next) info) = true := by simpa using hn
    have hnil : (Compact.front list count).map (entry info (single info e)) = [] := by
      cases tables <;> (rw [readChain, if_pos hn] at hchain; exact (Option.some.inj hchain).symm)
    rw [List.map_eq_nil_iff.mp hnil] at hruns
    cases hruns
    exact hne hflat.symm
  obtain ⟨batches, rfl⟩ : ∃ k, batches = k + 1 := ⟨batches - 1, by omega⟩
  obtain ⟨m', hres, hmem⟩ := load_tables_eq (a := a) (m := { m with page := fun _ => .linear 0 0 0 }) hM hM0
    (fun x t hx => htables x t (hext.tables x t hx)) hlink (.inl (@rfl _ Loc.descr))
      (by rw [Store.ptr, hm]; exact hseg.2 hnull)
    (by rw [Store.ptr, hm, hnull]) (by rw [Store.ptr, hm]; exact hchain) hload
  rw [load_blocklist, hres, stored_iff (m := m) hd hi (by omega) hruns hflat he0 he hbs hdata hmem]
  constructor
  · intro h i hi'
    exact h _ (List.mem_map.mpr ⟨i, List.mem_range.mpr hi', rfl⟩)
  · intro h p hp'
    obtain ⟨i, hi', rfl⟩ := List.mem_map.mp hp'
    exact h i (List.mem_range.mp hi')

end

/-! ## Samples -/

theorem load_blocklist_stored_cdl : ∃ seg file', add_segment_table cdlDisk cdlPhys (single cdlDisk 30)
      (disk_compact_blocklist (fun i => single cdlDisk ([24, 25, 0, 40].getD i 0)) 4 cdlDisk).1
      (disk_compact_blocklist (fun i => single cdlDisk ([24, 25, 0, 40].getD i 0)) 4 cdlDisk).2 ⟨1, fun _ => none⟩ =
        some (seg, file') ∧
    ∀ (disk : Disk) (data : Nat → Nat → UInt8), (∀ a t, file'.tables a = some t → disk a = some (.table t)) →
      (∀ b ∈ [24, 25, 0, 40], disk (blockAddr cdlDisk (if b = 0 then 30 else b)) =
        some (.data (data (if b = 0 then 30 else b)))) →
      ∀ m : Store, m.descr = bootmap_store_blockptr (some seg) cdlDisk → ∀ batches tables a : Nat,
        2 ≤ batches → 4 ≤ tables →
        (Stored cdlDisk data 30 [24, 25, 0, 40] a m (load_blocklist .eckd disk batches tables a m) ↔
          ∀ i < (disk_compact_blocklist (fun i => single cdlDisk ([24, 25, 0, 40].getD i 0)) 4 cdlDisk).2,
            cdlDisk.type = .fba →
              ((disk_compact_blocklist (fun i => single cdlDisk ([24, 25, 0, 40].getD i 0))
                4 cdlDisk).1 i).linear.blockct ≠
                128) :=
  @load_blocklist_stored cdlDisk .eckd rfl ⟨by decide, by decide⟩ (by decide) (by decide) cdlPhys ⟨1, fun _ => none⟩
    [24, 25, 0, 40] (by decide) (fun b hb => ⟨by revert b; decide, fun h => by cases h⟩) 30 (by decide)
    ⟨by decide, fun h => by cases h⟩ cdl_mapped
    (fun k b _ hk h => by
      cases h
      exact ⟨by simp at hk; omega, fun h => by cases h⟩) _ _ rfl

def fbaDisk : DiskInfo := ⟨.fba, 512, ⟨0, 0⟩⟩

def longRun : List Nat := (List.range 129).map (· + 100)

def longRunFile : Option (DiskBlockptr × BootmapFile) :=
  let c := disk_compact_blocklist (fun i => single fbaDisk (longRun.getD i 0)) 129 fbaDisk
  add_segment_table fbaDisk (fun k => some (10 + k)) (single fbaDisk 30) c.1 c.2 ⟨1, fun _ => none⟩

def diskOf (file : BootmapFile) : Disk :=
  fun a => match file.tables a with
    | some t => some (.table t)
    | none => some (.data fun _ => 0)

/-- The last block of the run is not loaded: the returned address lies 128 blocks behind the first one. -/
theorem long_run_truncated : ∃ seg file', longRunFile = some (seg, file') ∧
    (∀ b ∈ longRun, diskOf file' (blockAddr fbaDisk b) = some (.data fun _ => 0)) ∧
    ¬Stored fbaDisk (fun _ _ => 0) 30 longRun 65536 ⟨bootmap_store_blockptr (some seg)
      fbaDisk, fun _ => .linear 0 0 0, fun _ => 0⟩
      (load_blocklist .fba (diskOf file') 2 129 65536
        ⟨bootmap_store_blockptr (some seg) fbaDisk, fun _ => .linear 0 0 0, fun _ => 0⟩) := by
  have h : (longRunFile.bind fun r => (load_blocklist .fba (diskOf r.2) 2 129 65536
      ⟨bootmap_store_blockptr (some r.1) fbaDisk, fun _ => .linear 0 0 0, fun _ => 0⟩).map fun l =>
        (l.2, longRun.all fun b => (r.2.tables (blockAddr fbaDisk b)).isNone)) =
          some (65536 + 512 * 128, true) := by
    decide +kernel
  obtain ⟨⟨seg, file'⟩, hfile, hload⟩ := Option.bind_eq_some_iff.mp h
  obtain ⟨⟨m, a⟩, hl, hpair⟩ := Option.map_eq_some_iff.mp hload
  obtain ⟨rfl, hdata⟩ := Prod.mk.inj hpair
  refine ⟨seg, file', hfile, fun b hb => ?_, fun ⟨m', hr, _, _⟩ => ?_⟩
  · have hnone := List.all_eq_true.mp hdata b hb
    rw [diskOf, Option.isNone_iff_eq_none.mp hnone]
  · have ha := (Prod.mk.inj (Option.some.inj (hl.symm.trans hr))).2
    have hlen : 65536 + fbaDisk.phy_block_size * longRun.length ≠ 65536 + 512 * 128 := by simp [fbaDisk, longRun]
    exact hlen ha.symm

end Zipl
