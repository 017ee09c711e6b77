import S390Tools.Zipl.Disk

/-!
# Compacted block lists

Each pointer of a compacted list stands for a run of blocks of the original list:
the blocks follow each other on the disk, on the same track where the disk has
tracks, and there are not more of them than the count can say.
-/

namespace Zipl

open Word

/-- A disk with block pointers whose geometry, where it is used, is not empty. -/
structure Supported (info : DiskInfo) : Prop where
  type : info.type ≠ .diag
  geo : info.type = .eckd_ldl ∨ info.type = .eckd_cdl → 0 < info.geo.sectors.toNat

def single (info : DiskInfo) (b : Nat) : DiskBlockptr := disk_blockptr_from_blocknum .zero b info

def counted (info : DiskInfo) (ptr : DiskBlockptr) (n : Nat) : DiskBlockptr :=
  match info.type with
  | .scsi | .fba | .diag => { ptr with linear := { ptr.linear with blockct := n } }
  | .eckd_ldl | .eckd_cdl => { ptr with chs := { ptr.chs with blockct := n } }

/-- The block `c` comes `i` blocks behind the block `b`. -/
def Follows (info : DiskInfo) (b i c : Nat) : Prop :=
  match info.type with
  | .scsi | .fba | .diag => c = b + i
  | .eckd_ldl | .eckd_cdl => (single info c).chs.cyl = (single info b).chs.cyl ∧
      (single info c).chs.head = (single info b).chs.head ∧ (single info c).chs.sec = (single info b).chs.sec + i

/-- The pointer `p` stands for the blocks `bs`; a hole stands alone. -/
structure Run (info : DiskInfo) (p : DiskBlockptr) (bs : List Nat) : Prop where
  ptr : ∃ b rest, bs = b :: rest ∧ p = counted info (single info b) rest.length ∧
    ∀ i c, bs[i]? = some c → Follows info b i c
  count : bs.length ≤ maxLinkCount info + 1
  blocks : ∀ c ∈ bs, c < 18446744073709551616
  hole : 0 ∈ bs → bs = [0]

section
variable {info : DiskInfo}

theorem counted_zero (b : Nat) : counted info (single info b) 0 = single info b := by
  unfold counted single disk_blockptr_from_blocknum
  cases info.type with
  | scsi | fba | diag => rfl
  | eckd_ldl | eckd_cdl =>
    simp only
    split <;> rfl

theorem follows_zero (b : Nat) : Follows info b 0 b := by
  unfold Follows
  cases info.type with
  | scsi | fba | diag => rfl
  | eckd_ldl | eckd_cdl => simp

theorem zero_block_iff (hi : Supported info) (b n : Nat) :
    disk_is_zero_block (counted info (single info b) n) info = true ↔ b = 0 := by
  have ht := hi.type
  have hg := hi.geo
  unfold disk_is_zero_block counted single disk_blockptr_from_blocknum
  cases h : info.type with
  | scsi | fba => simp
  | diag => exact absurd h ht
  | eckd_ldl | eckd_cdl =>
    rw [h] at hg
    by_cases hb : b = 0
    · simp [hb]
    · have hsec : disk_sec_from_blocknum b info ≠ 0 := by
        have := Nat.mod_lt b (hg (by simp))
        have := info.geo.sectors.toNat_lt
        unfold disk_sec_from_blocknum i32
        omega
      simp [hb, hsec]

theorem run_single {b : Nat} (hb : b < 18446744073709551616) : Run info (single info b) [b] where
  ptr := by
    refine ⟨b, [], rfl, (counted_zero b).symm, fun i c h => ?_⟩
    cases i with
    | zero =>
      obtain rfl : b = c := by simpa using h
      exact follows_zero b
    | succ i => cases h
  count := by simp
  blocks := by simpa using hb
  hole := fun h => by simpa [eq_comm] using h

theorem merge_counted (b c n : Nat) : merge_blocks info (counted info (single info b) n)
    (counted info (single info c) 0) =
    if info.type = .diag then counted info (single info b) n else counted info (single info b) (n + 1) := by
  unfold merge_blocks counted
  cases info.type with
  | scsi | fba | diag => simp
  | eckd_ldl | eckd_cdl => simp

/-- What the test for merging says about a run of `n + 1` blocks from `b` on and the block `c`. -/
theorem can_merge_spec (hi : Supported info) {b c n : Nat} (hb : b + n < 18446744073709551616 ∨
    info.type ≠ .scsi ∧ info.type ≠ .fba)
    (hc : can_merge_blocks info (counted info (single info b) n) (counted info (single info c) 0) = true) :
    b ≠ 0 ∧ c ≠ 0 ∧ n + 1 ≤ maxLinkCount info ∧ Follows info b (n + 1) c := by
  have ht := hi.type
  have hzb := zero_block_iff hi b n
  have hzc := zero_block_iff hi c 0
  unfold can_merge_blocks at hc
  split at hc
  · cases hc
  · rename_i hz
    simp only [hzb, hzc, not_or] at hz
    refine ⟨hz.1, hz.2, ?_⟩
    clear hzb hzc
    unfold Follows
    unfold counted at hc
    cases h : info.type with
    | scsi | fba =>
      simp only [h, single, disk_blockptr_from_blocknum] at hc ⊢
      split at hc
      · cases hc
      · rename_i hm
        have hu := of_decide_eq_true hc
        simp only [h, ne_eq, not_true_eq_false, and_false, false_and, or_false] at hb
        unfold u64 at hu
        constructor <;> omega
    | diag => exact absurd h ht
    | eckd_ldl | eckd_cdl =>
      simp only [h] at hc ⊢
      split at hc
      · cases hc
      · rename_i hm
        have hu := of_decide_eq_true hc
        refine ⟨by omega, hu.1.symm, hu.2.1.symm, ?_⟩
        rw [← hu.2.2]
        push_cast
        omega

theorem run_merge (hi : Supported info) {p q : DiskBlockptr} {bs : List Nat} {c : Nat} (h : Run info p bs)
    (hq : q = single info c ∧ c < 18446744073709551616) (hc : can_merge_blocks info p q = true) :
    Run info (merge_blocks info p q) (bs ++ [c]) := by
  obtain ⟨⟨b, rest, rfl, rfl, hf⟩, hcount, hblocks, hhole⟩ := h
  obtain ⟨rfl, hlt⟩ := hq
  rw [← counted_zero c] at hc ⊢
  have hlast : b + rest.length < 18446744073709551616 ∨ info.type ≠ .scsi ∧ info.type ≠ .fba := by
    by_cases ht : info.type ≠ .scsi ∧ info.type ≠ .fba
    · exact Or.inr ht
    · left
      obtain ⟨d, hd⟩ : ∃ d, (b :: rest)[rest.length]? = some d := ⟨_, List.getElem?_eq_getElem (by simp)⟩
      have hfd := hf _ _ hd
      have hdl := hblocks d (List.mem_of_getElem? hd)
      unfold Follows at hfd
      cases h : info.type with
      | scsi | fba | diag => rw [h] at hfd; simp only at hfd; omega
      | eckd_ldl | eckd_cdl => rw [h] at ht; exact absurd ⟨by decide, by decide⟩ ht
  obtain ⟨hb0, hc0, hmax, hfollow⟩ := can_merge_spec hi hlast hc
  refine ⟨⟨b, rest ++ [c], rfl, ?_, ?_⟩, ?_, ?_, ?_⟩
  · rw [merge_counted, if_neg hi.type, List.length_append, List.length_singleton]
  · intro i d hd
    by_cases hi' : i < (b :: rest).length
    · rw [List.getElem?_append_left hi'] at hd
      exact hf i d hd
    · rw [List.getElem?_append_right (by omega)] at hd
      have hz : i - (b :: rest).length = 0 := by
        by_contra hne
        rw [List.getElem?_eq_none (by simp only [List.length_singleton]; omega)] at hd
        cases hd
      rw [hz] at hd
      obtain rfl : c = d := by simpa using hd
      have : i = rest.length + 1 := by simp only [List.length_cons] at hi' hz; omega
      rw [this]
      exact hfollow
  · simp only [List.length_append, List.length_cons, List.length_nil]
    omega
  · intro d hd
    rcases List.mem_append.mp hd with hd | hd
    · exact hblocks d hd
    · rw [List.mem_singleton.mp hd]; exact hlt
  · intro h0
    rcases List.mem_append.mp h0 with h0 | h0
    · have := hhole h0
      simp only [List.cons.injEq] at this
      exact absurd this.1 hb0
    · exact absurd (List.mem_singleton.mp h0).symm hc0

theorem compact_runs (hi : Supported info) {bs : List Nat} (hne : bs ≠ [])
    (hlt : ∀ b ∈ bs, b < 18446744073709551616) :
    ∃ xss, List.Forall₂ (Run info) (Compact.front
        (disk_compact_blocklist (fun i => single info (bs.getD i 0)) bs.length info).1
        (disk_compact_blocklist (fun i => single info (bs.getD i 0)) bs.length info).2) xss ∧ xss.flatten = bs := by
  cases bs with
  | nil => exact absurd rfl hne
  | cons b bs =>
    have hone : ∀ q c, (q = single info c ∧ c < 18446744073709551616) → Run info q [c] := by
      rintro q c ⟨rfl, hc⟩
      exact run_single hc
    unfold disk_compact_blocklist
    by_cases hlen : (b :: bs).length < 2
    · obtain rfl : bs = [] := by
        cases bs with
        | nil => rfl
        | cons c bs => simp at hlen
      rw [if_pos hlen]
      exact ⟨[[b]], .cons (run_single (hlt b (by simp))) .nil, rfl⟩
    · rw [if_neg hlen, Compact.inPlace_front _ _ _ _ (by decide)]
      have hmap : (List.range ((b :: bs).length - 1)).map (fun k => single info ((b :: bs).getD (1 + k) 0)) =
          bs.map (single info) := by
        refine List.ext_getElem? fun i => ?_
        simp only [List.length_cons, Nat.add_sub_cancel, List.getElem?_map]
        by_cases hi : i < bs.length
        · rw [List.getElem?_range hi, List.getElem?_eq_getElem hi, Option.map_some, Option.map_some,
            Nat.add_comm 1 i]
          simp [hi]
        · rw [List.getElem?_eq_none (by simpa using hi), List.getElem?_eq_none (by simpa using hi)]
          rfl
      have hall : List.Forall₂ (fun q c => q = single info c ∧ c < 18446744073709551616)
        (bs.map (single info)) bs := by
        rw [List.forall₂_map_left_iff, List.forall₂_same]
        exact fun c hc => ⟨rfl, hlt c (List.mem_cons_of_mem _ hc)⟩
      obtain ⟨xss, hR, hflat⟩ := Compact.pass_runs hone (fun p q xs c hp hq hc => run_merge hi hp hq hc)
        (run_single (hlt b (by simp))) hall
      refine ⟨xss, ?_, by simpa using hflat⟩
      rw [hmap]
      exact hR

/-! ## What a pointer of the list says -/

theorem Run.zero_block_iff (hi : Supported info) {p : DiskBlockptr} {bs : List Nat} (h : Run info p bs) :
    disk_is_zero_block p info = true ↔ bs = [0] := by
  obtain ⟨⟨b, rest, rfl, rfl, -⟩, -, -, hhole⟩ := h
  rw [Zipl.zero_block_iff hi]
  constructor
  · intro hb
    exact hhole (by simp [hb])
  · intro hb
    exact (List.cons.inj hb).1

theorem single_sec (hi : Supported info) (ht : info.type = .eckd_ldl ∨ info.type = .eckd_cdl) (b : Nat) :
    0 ≤ (single info b).chs.sec ∧ (single info b).chs.sec ≤ info.geo.sectors.toNat ∧
      (b ≠ 0 → 0 < (single info b).chs.sec) := by
  have hg := hi.geo ht
  have hlt := info.geo.sectors.toNat_lt
  have hm := Nat.mod_lt b hg
  unfold single disk_blockptr_from_blocknum
  rcases ht with ht | ht <;> rw [ht] <;> simp only
  all_goals
    split
    · exact ⟨le_refl _, Int.natCast_nonneg _, fun h => absurd ‹b = 0› h⟩
    · simp only [disk_sec_from_blocknum, i32]
      refine ⟨?_, ?_, fun _ => ?_⟩ <;> omega

theorem store_counted (b n : Nat) :
    bootmap_store_blockptr (some (counted info (single info b) n)) info =
      match info.type with
      | .scsi | .fba => .linear b (u16 info.phy_block_size) (u16 n)
      | .eckd_ldl | .eckd_cdl => .eckd (u16 (single info b).chs.cyl)
          (u16 (u32 (single info b).chs.head ||| ((u32 (single info b).chs.cyl >>> 12) &&& 0xfff0) : Nat))
          (u8 (single info b).chs.sec) (u16 (single info b).chs.size) (u8 n)
      | .diag => zeroPtr info := by
  unfold bootmap_store_blockptr counted
  cases h : info.type with
  | scsi | fba => simp only [single, disk_blockptr_from_blocknum, h]
  | diag => rfl
  | eckd_ldl | eckd_cdl => rfl

theorem blockAddr_eq (b : Nat) : blockAddr info b = match info.type with
    | .scsi | .fba => .linear b
    | .eckd_ldl | .eckd_cdl => .eckd (u16 (single info b).chs.cyl)
        (u16 (u32 (single info b).chs.head ||| ((u32 (single info b).chs.cyl >>> 12) &&& 0xfff0) : Nat))
        (u8 (single info b).chs.sec)
    | .diag => (zeroPtr info).addr := by
  have h := @store_counted info b 0
  rw [counted_zero] at h
  unfold blockAddr
  rw [show disk_blockptr_from_blocknum .zero b info = single info b from rfl, h]
  cases info.type <;> rfl

theorem Run.stored (hi : Supported info) {p : DiskBlockptr} {bs : List Nat} (h : Run info p bs) (h0 : bs ≠ [0]) :
    is_null_descriptor (bootmap_store_blockptr (some p) info) = false ∧
      (bootmap_store_blockptr (some p) info).blocks = bs.map (blockAddr info) := by
  obtain ⟨⟨b, rest, rfl, rfl, hf⟩, hcount, -, hhole⟩ := h
  have hb : b ≠ 0 := fun hb => h0 (hhole (by simp [hb]))
  have hn : rest.length ≤ maxLinkCount info := by simpa using hcount
  have hget : ∀ i c, (b :: rest)[i]? = some c → i < rest.length + 1 := fun i c hc => by
    have := (List.getElem?_eq_some_iff.mp hc).1
    simpa using this
  have hmap : ∀ a : Addr, (∀ i c, (b :: rest)[i]? = some c → a.add i = blockAddr info c) →
      (List.range (rest.length + 1)).map a.add = (b :: rest).map (blockAddr info) := by
    intro a ha
    refine List.ext_getElem? fun i => ?_
    rw [List.getElem?_map, List.getElem?_map]
    cases hc : (b :: rest)[i]? with
    | none =>
      rw [List.getElem?_eq_none_iff] at hc
      rw [List.getElem?_eq_none (by simpa using hc)]
      rfl
    | some c =>
      rw [List.getElem?_range (hget i c hc), Option.map_some, Option.map_some, ha i c hc]
  have hst := @store_counted info b rest.length
  unfold Follows at hf
  unfold maxLinkCount SCSI_MAX_LINK_COUNT DASD_MAX_LINK_COUNT at hn
  have haddr := @blockAddr_eq info
  have hsec := single_sec hi
  cases ht : info.type with
  | diag => exact absurd ht hi.type
  | scsi | fba =>
    simp only [ht] at hst hf hn haddr
    have hct : u16 (rest.length : Int) = rest.length := by
      simp only [if_true, reduceCtorEq, if_false] at hn
      unfold u16; omega
    rw [hst, hct]
    refine ⟨by simpa [is_null_descriptor] using hb, hmap _ fun i c hc => ?_⟩
    rw [haddr, hf i c hc]
    rfl
  | eckd_ldl | eckd_cdl =>
    simp only [ht] at hst hf hn haddr
    have hct : u8 (rest.length : Int) = rest.length := by
      simp only [reduceCtorEq, if_false] at hn
      unfold u8; omega
    have hlt := info.geo.sectors.toNat_lt
    have hsb := hsec (by simp [ht]) b
    have hpos := hsb.2.2 hb
    rw [hst, hct]
    constructor
    · have : u8 (single info b).chs.sec ≠ 0 := by unfold u8; omega
      simp [is_null_descriptor, this]
    · refine hmap _ fun i c hc => ?_
      obtain ⟨h₁, h₂, h₃⟩ := hf i c hc
      have hsc := hsec (by simp [ht]) c
      rw [haddr, h₁, h₂, h₃]
      simp only [StoredPtr.addr, Addr.add, Addr.eckd.injEq, true_and]
      unfold u8; omega

theorem Run.limits (hi : Supported info) {p : DiskBlockptr} {bs : List Nat} (h : Run info p bs) :
    (info.type = .scsi ∨ info.type = .fba → 0 ≤ p.linear.blockct ∧ p.linear.blockct ≤ maxLinkCount info) ∧
      (info.type = .eckd_ldl ∨ info.type = .eckd_cdl → 0 ≤ p.chs.blockct ∧ p.chs.blockct ≤ maxLinkCount info ∧
        p.chs.sec + p.chs.blockct ≤ info.geo.sectors.toNat) := by
  obtain ⟨⟨b, rest, rfl, rfl, hf⟩, hcount, -, hhole⟩ := h
  have hn : rest.length ≤ maxLinkCount info := by simpa using hcount
  obtain ⟨c, hc⟩ : ∃ c, (b :: rest)[rest.length]? = some c := ⟨_, List.getElem?_eq_getElem (by simp)⟩
  have hfc := hf _ c hc
  have hsec := fun ht => single_sec hi ht c
  unfold Follows at hfc
  unfold counted
  constructor
  · rintro (ht | ht) <;> simp only [ht] <;> omega
  · intro ht
    have hs := (hsec ht).2.1
    rcases ht with ht | ht <;> simp only [ht] at hfc hn ⊢ <;> omega

end

end Zipl
