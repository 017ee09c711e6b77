import S390Tools.Cmsfs.PointerTree

/-!
# Reading pointer trees back

A walk over a tree that was written for the block list of a file sees the blocks
of the list in order, as far as the tree reaches. The tree reaches all of them
unless their number is just above a power of the pointers in a block.
-/

namespace Cmsfs

open FanOut Run

variable {c : Device} {f : File} {scan : Scan}

/-! ## Open files -/

/-- The last record on block `i`, when the blocks are scanned from the first one. -/
def File.scanned (f : File) (scan : Scan) : Nat → Int
  | 0 => scan 0 (f.block 0).disk_addr (f.block 0).disp (-1)
  | i + 1 => scan (i + 1) (f.block (i + 1)).disk_addr (f.block (i + 1)).disp (f.scanned scan i)

/-- The last record in front of block `i`. -/
def File.record_before (f : File) (scan : Scan) (i : Nat) : Int := if i = 0 then -1 else f.scanned scan (i - 1)

/-- A file object over data blocks that hold the records of the file. -/
structure File.Open (c : Device) (f : File) (scan : Scan) : Prop where
  length : f.blist.length = f.nr_blocks
  addr : ∀ b ∈ f.blist, b.disk_addr % c.blksize = 0 ∧ b.disk_addr / c.blksize < c.total_blocks
  hi : ∀ b ∈ f.blist, 1 ≤ b.hi_record_nr ∧ b.hi_record_nr < 4294967296
  disp : ∀ b ∈ f.blist, b.disp < 4294967296 ∧ (f.record_format = .fixed → b.disp = 0)
  records : ∀ i < f.nr_blocks, 0 ≤ f.scanned scan i ∧ f.scanned scan i < f.nr_records
  last : 0 < f.nr_blocks → f.scanned scan (f.nr_blocks - 1) = f.nr_records - 1

/-- The record numbers in the block list are those of the data blocks. -/
def File.UpToDate (f : File) (scan : Scan) : Prop :=
  ∀ i < f.nr_blocks, ((f.block i).hi_record_nr : Int) = f.scanned scan i + 1

def File.rescanned (f : File) (scan : Scan) : List Block :=
  f.blist.mapIdx fun i b => { b with hi_record_nr := (f.scanned scan i + 1).toNat }

def File.cached (f : File) (scan : Scan) (n : Nat) : Cache :=
  { blist := (f.rescanned scan).take n, record := f.record_before scan n }

theorem scan_before {n : Nat} :
    scan n (f.block n).disk_addr (f.block n).disp (f.record_before scan n) = f.scanned scan n := by
  cases n with
  | zero => rfl
  | succ n => rfl

theorem scanned_congr {g : File} (hb : g.blist = f.blist) : ∀ i, g.scanned scan i = f.scanned scan i
  | 0 => by rw [File.scanned, File.scanned, File.block, File.block, hb]
  | i + 1 => by rw [File.scanned, File.scanned, scanned_congr hb i, File.block, File.block, hb]

section
variable (h : f.Open c scan)

include h

theorem File.Open.block_mem {i : Nat} (hi : i < f.nr_blocks) : f.block i ∈ f.blist := by
  rw [File.block, List.getD_eq_getElem _ _ (by rw [h.length]; exact hi)]
  exact List.getElem_mem _

theorem File.Open.rescanned_length : (f.rescanned scan).length = f.nr_blocks := by
  rw [File.rescanned, List.length_mapIdx, h.length]

theorem File.Open.not_done {n : Nat} (hn : n < f.nr_blocks) : ¬ (f.cached scan n).done f := by
  have hlen := h.rescanned_length
  simp only [Cache.done, File.cached, File.record_before, List.length_take, not_or, not_le]
  refine ⟨by omega, ?_⟩
  have h₀ := h.records n hn
  split
  · omega
  · exact (h.records (n - 1) (by omega)).2

theorem File.Open.done : (f.cached scan f.nr_blocks).done f := by
  left
  rw [File.cached, ← h.rescanned_length, List.take_length]

theorem File.Open.visit {n : Nat} (hn : n < f.nr_blocks) :
    cache_data_block c f scan (f.block n).disk_addr (f.block n).disp (f.cached scan n) = f.cached scan (n + 1) := by
  have hlen := h.rescanned_length
  have hal := (h.addr _ (h.block_mem hn)).1
  have htake : ((f.rescanned scan).take n).length = n := by rw [List.length_take]; omega
  unfold cache_data_block
  rw [if_neg (h.not_done hn)]
  simp only [File.cached, htake, scan_before]
  have hrec : f.record_before scan (n + 1) = f.scanned scan n := by simp [File.record_before]
  rw [hrec, Nat.div_mul_cancel (Nat.dvd_of_mod_eq_zero hal), List.take_succ_eq_append_getElem (by omega)]
  congr 3
  simp only [File.rescanned, List.getElem_mapIdx, File.block]
  rw [List.getD_eq_getElem _ _ (by rw [h.length]; exact hn)]

theorem File.Open.upToDate_iff : f.rescanned scan = f.blist ↔ f.UpToDate scan := by
  have hlen := h.length
  have hb : ∀ i (hi : i < f.blist.length), f.block i = f.blist[i] := fun i hi => List.getD_eq_getElem _ _ hi
  constructor
  · intro heq i hi
    have hr : i < (f.rescanned scan).length := by rw [h.rescanned_length]; exact hi
    have hl : i < f.blist.length := by omega
    have h₁ : (f.rescanned scan)[i] = f.blist[i] := List.getElem_of_eq heq _
    simp only [File.rescanned, List.getElem_mapIdx] at h₁
    have h₂ := (h.records i hi).1
    rw [hb i hl, ← h₁]
    show ((f.scanned scan i + 1).toNat : Int) = _
    omega
  · intro hup
    apply List.ext_getElem
    · rw [h.rescanned_length, h.length]
    · intro i h₁ h₂
      have h₃ := hup i (by omega)
      rw [hb i h₂] at h₃
      simp only [File.rescanned, List.getElem_mapIdx]
      rw [← h₃, Int.toNat_natCast]

end

/-! ## Layouts -/

theorem Device.Supported.pos (hc : c.Supported) : 0 < c.blksize := by
  rcases hc.blksize with h | h | h | h <;> omega

theorem layout_ok (hc : c.Supported) (h : f.Open c scan) : (f.layout c).Ok c := by
  have hblk := hc.blksize
  have hblock : ∀ i, (f.block i).hi_record_nr < 4294967296 ∧ (f.block i).disp < 4294967296 := by
    intro i
    by_cases hi : i < f.nr_blocks
    · exact ⟨(h.hi _ (h.block_mem hi)).2, (h.disp _ (h.block_mem hi)).1⟩
    · rw [File.block, List.getD_eq_default _ _ (by rw [h.length]; omega)]
      exact ⟨by decide, by decide⟩
  unfold File.layout
  cases f.record_format with
  | fixed =>
    refine ⟨?_, Nat.one_pos, ?_, ?_, ?_, fun _ _ _ => rfl, ?_⟩
    · simp only [Device.fixed_ptrs_per_block, PTR_SIZE]; omega
    · simp only [Device.fixed_ptrs_per_block, PtrLayout.room, PTR_SIZE, Bool.false_eq_true, if_false]; omega
    · simp only [PTR_SIZE]; omega
    · omega
    · intro _ _ next hn v hv
      rw [List.mem_singleton.mp hv]
      exact hn
  | var =>
    refine ⟨?_, Nat.succ_pos 2, ?_, ?_, ?_, fun _ _ _ => rfl, ?_⟩
    · simp only [Device.var_ptrs_per_block, VPTR_SIZE]; omega
    · simp only [Device.var_ptrs_per_block, PtrLayout.room, PTR_SIZE, VPTR_SIZE, if_true]; omega
    · simp only [PTR_SIZE]; omega
    · omega
    · intro level i next hn v hv
      simp only [List.mem_cons, List.not_mem_nil, or_false] at hv
      rcases hv with rfl | rfl | rfl
      · exact hn
      · exact (hblock _).1
      · exact (hblock _).2

/-! ## Access to blocks of a tree -/

def Inside (c : Device) (bs : List Nat) : Prop := ∀ b ∈ bs, b < c.total_blocks ∧ c.label ≤ b * c.blksize

theorem access_inside (hblk : 0 < c.blksize) {dst o n : Nat} (hal : dst % c.blksize = 0)
    (hin : dst / c.blksize < c.total_blocks ∧ c.label ≤ dst / c.blksize * c.blksize) (hn : 0 < n)
    (ho : o + n ≤ c.blksize) : access c n (dst + o) = .ok () := by
  have h₁ : (dst + o + n - 1) / c.blksize = dst / c.blksize := (div_eq_iff_block hblk hal).mpr ⟨by omega, by omega⟩
  have h₂ : (dst + o) / c.blksize = dst / c.blksize := (div_eq_iff_block hblk hal).mpr ⟨by omega, by omega⟩
  have hd : dst / c.blksize * c.blksize = dst := Nat.div_mul_cancel (Nat.dvd_of_mod_eq_zero hal)
  have h₃ : (dst / c.blksize + 1) * c.blksize ≤ c.total_blocks * c.blksize := Nat.mul_le_mul_right _ hin.1
  rw [Nat.add_mul, hd, Nat.one_mul] at h₃
  have h₄ := hin.2
  rw [hd] at h₄
  unfold access
  rw [h₁, h₂, if_neg (by omega), if_neg (by unfold Device.size; omega)]

theorem ABS_REL (hc : c.Supported) {addr : Nat} (hal : addr % c.blksize = 0)
    (hin : addr / c.blksize < c.total_blocks) :
    c.ABS (c.REL addr) = addr := by
  have ht := hc.total
  unfold Device.ABS Device.REL
  rw [Nat.mod_eq_of_lt (by omega), Nat.add_sub_cancel]
  exact Nat.div_mul_cancel (Nat.dvd_of_mod_eq_zero hal)

theorem REL_ne_zero (hc : c.Supported) {addr : Nat} (hin : addr / c.blksize < c.total_blocks) : c.REL addr ≠ 0 := by
  have ht := hc.total
  unfold Device.REL
  rw [Nat.mod_eq_of_lt (by omega)]
  exact Nat.succ_ne_zero _

theorem block_ptr_back (hc : c.Supported) {addr : Nat} (hal : addr % c.blksize = 0)
    (hin : addr / c.blksize < c.total_blocks) :
    (if block_ptr c addr = 0 then NULL_BLOCK else c.ABS (block_ptr c addr)) = addr := by
  unfold block_ptr
  by_cases h : addr = 0
  · rw [if_pos h, if_pos rfl, h]
    rfl
  · rw [if_neg h, if_neg (REL_ne_zero hc hin), ABS_REL hc hal hin]

theorem wordAt_zero {m : Mem} {a i : Nat} (h : ∀ x, a + 4 * i ≤ x → x < a + 4 * i + 4 → m x = 0) :
    wordAt m a i = 0 := by
  unfold wordAt word
  rw [h _ (by omega) (by omega), h _ (by omega) (by omega), h _ (by omega) (by omega), h _ (by omega) (by omega)]
  rfl

/-! ## Walks -/

def File.upto (f : File) (p level i : Nat) : Nat := min (i * p ^ level) f.nr_blocks

theorem upto_zero {p i : Nat} (hi : i ≤ f.nr_blocks) : f.upto p 0 i = i := by
  rw [File.upto, pow_zero, Nat.mul_one, Nat.min_eq_left hi]

theorem upto_succ (p level i : Nat) : f.upto p level (i * p + p) = f.upto p (level + 1) (i + 1) := by
  rw [File.upto, File.upto, pow_succ, Nat.mul_comm (p ^ level) p, ← Nat.mul_assoc, Nat.succ_mul]

theorem upto_level (p level i : Nat) : f.upto p (level + 1) i = f.upto p level (i * p) := by
  rw [File.upto, File.upto, pow_succ, Nat.mul_comm (p ^ level), ← Nat.mul_assoc]

theorem upto_of_lt {p level i : Nat} (hi : i * p ^ level < f.nr_blocks) : f.upto p level i = i * p ^ level :=
  Nat.min_eq_left (Nat.le_of_lt hi)

theorem layout_fixed (hf : f.record_format = .fixed) :
    (f.layout c).ptr_per_block = c.fixed_ptrs_per_block ∧ (f.layout c).width = 1 ∧
      (f.layout c).nr_blocks = f.nr_blocks ∧ (∀ i, (f.layout c).leaf i = (f.block i).disk_addr) ∧
      (∀ level i next, (f.layout c).ptr level i next = [next]) ∧ (f.layout c).back = false := by
  simp [File.layout, hf]

theorem layout_var (hf : f.record_format = .var) :
    (f.layout c).ptr_per_block = c.var_ptrs_per_block ∧ (f.layout c).width = 3 ∧
      (f.layout c).nr_blocks = f.nr_blocks ∧ (∀ i, (f.layout c).leaf i = (f.block i).disk_addr) ∧
      (∀ level i next, (f.layout c).ptr level i next =
        [next, (f.block (get_last_block_nr c level (i + 1) f.nr_blocks)).hi_record_nr,
         (f.block (get_first_block_nr c level i)).disp]) ∧ (f.layout c).back = true := by
  simp [File.layout, hf]

theorem Tree.inside {L : PtrLayout} {m : Mem} {level dst start : Nat} {bs : List Nat}
    (h : Tree c L m (level + 1) dst start bs) (hin : Inside c bs) :
    dst / c.blksize < c.total_blocks ∧ c.label ≤ dst / c.blksize * c.blksize := by
  obtain ⟨-, -, kids, -, -, -, -, rfl⟩ := h
  exact hin _ (List.mem_cons_self ..)

theorem Tree.addr {L : PtrLayout} {m : Mem} {level addr start : Nat} {bs : List Nat}
    (h : Tree c L m level addr start bs) (hin : Inside c bs)
    (hleaf : level = 0 → addr % c.blksize = 0 ∧ addr / c.blksize < c.total_blocks) :
    addr % c.blksize = 0 ∧ addr / c.blksize < c.total_blocks := by
  cases level with
  | zero => exact hleaf rfl
  | succ level => exact ⟨h.1, (h.inside hin).1⟩

theorem get_fixed_pointer_eq {m : Mem} {addr : Nat} (h0 : addr ≠ 0) (hacc : access c 4 addr = .ok ()) :
    get_fixed_pointer c m addr =
      .ok (if wordAt m addr 0 = 0 then NULL_BLOCK else c.ABS (wordAt m addr 0)) := by
  unfold get_fixed_pointer readWords
  rw [if_neg h0, hacc]
  rfl

theorem lt_stop {L : PtrLayout} (hp : 2 ≤ L.ptr_per_block) {level start j : Nat}
    (hj : j < L.stop level start - start) :
    (start + j) * L.ptr_per_block ^ level < L.nr_blocks := by
  rw [← lt_perLevel hp]
  unfold PtrLayout.stop at hj
  omega

theorem stop_le {L : PtrLayout} (hp : 2 ≤ L.ptr_per_block) {level start j : Nat}
    (hj : L.stop level start ≤ start + j)
    (hlt : j < L.ptr_per_block) : L.nr_blocks ≤ (start + j) * L.ptr_per_block ^ level := by
  rw [← not_lt, ← lt_perLevel hp]
  unfold PtrLayout.stop at hj
  omega

section
variable (hc : c.Supported) (h : f.Open c scan)

include hc h in
theorem cache_file_fixed_eq (hf : f.record_format = .fixed) {m : Mem} :
    ∀ {level addr i : Nat} {bs : List Nat}, Tree c (f.layout c) m level addr (i * c.fixed_ptrs_per_block) bs →
      Inside c bs → i * c.fixed_ptrs_per_block ^ level < f.nr_blocks → (level = 0 → addr = (f.block i).disk_addr) →
      cache_file_fixed c f scan m level addr (f.cached scan (f.upto c.fixed_ptrs_per_block level i)) =
        .ok (f.cached scan (f.upto c.fixed_ptrs_per_block level (i + 1)), none)
  | 0, addr, i, bs, _, _, hi, haddr => by
    rw [pow_zero, Nat.mul_one] at hi
    rw [cache_file_fixed, haddr rfl, upto_zero (Nat.le_of_lt hi), upto_zero hi]
    have hvisit := h.visit hi
    rw [(h.disp _ (h.block_mem hi)).2 hf] at hvisit
    rw [hvisit]
  | level + 1, dst, i, bs, htree, hin, hi, _ => by
    obtain ⟨hP, hw, hn, hleaf, hptr, hback⟩ := layout_fixed (c := c) hf
    have hL := layout_ok hc h
    have hfan := hL.fan
    have hdst := htree.inside hin
    obtain ⟨hal, h0, kids, hlen, hkids, hzero, -, rfl⟩ := htree
    rw [hP] at hfan hkids
    rw [hw] at hkids hzero
    have hroom : (f.layout c).room c = c.blksize := by simp [PtrLayout.room, hback]
    have hfits := hL.fits
    rw [hw, hP, hroom] at hfits
    have hblk := hc.pos
    -- the loop, from the entry `j` on
    have loop : ∀ left j, j + left = c.fixed_ptrs_per_block →
        cache_entries_fixed c f m (cache_file_fixed c f scan m level) left (dst + 4 * 1 * j)
          (f.cached scan (f.upto c.fixed_ptrs_per_block level (i * c.fixed_ptrs_per_block + j))) =
        .ok (f.cached scan (f.upto c.fixed_ptrs_per_block level
          (i * c.fixed_ptrs_per_block + c.fixed_ptrs_per_block)),
          none) := by
      intro left
      induction left with
      | zero =>
        intro j hj
        rw [cache_entries_fixed, ← hj, Nat.add_zero]
      | succ left ih =>
        intro j hj
        have hacc : access c 4 (dst + 4 * 1 * j) = .ok () :=
          access_inside hblk hal hdst (by decide) (by omega)
        rw [cache_entries_fixed, get_fixed_pointer_eq (by omega) hacc]
        by_cases hjk : j < kids.length
        · obtain ⟨hhold, hkid, hkleaf⟩ := hkids j hjk
          rw [hptr] at hhold
          have hword : wordAt m (dst + 4 * 1 * j) 0 = block_ptr c kids[j].1 := hhold 0 (by simp)
          have hlt := lt_stop (L := f.layout c) (by rw [hP]; exact hfan) (hlen ▸ hjk)
          rw [hP, hn] at hlt
          have hkin : Inside c kids[j].2 := fun b hb =>
            hin b (List.mem_cons_of_mem _ (List.mem_flatMap.mpr ⟨kids[j], List.getElem_mem hjk, hb⟩))
          have haddr := hkid.addr hkin fun hl => by
            subst hl
            rw [hkleaf rfl, hleaf]
            rw [pow_zero, Nat.mul_one] at hlt
            exact h.addr _ (h.block_mem hlt)
          have hstep := cache_file_fixed_eq hf hkid hkin hlt fun hl => by rw [hkleaf hl, hleaf]
          have hnd : ¬ (f.cached scan (f.upto c.fixed_ptrs_per_block level
            (i * c.fixed_ptrs_per_block + j))).done f := by
            rw [upto_of_lt hlt]
            exact h.not_done hlt
          rw [hword, block_ptr_back hc haddr.1 haddr.2]
          simp only [if_neg hnd, hstep, if_neg (show dst + 4 * 1 * j ≠ 0 by omega)]
          exact ih (j + 1) (by omega)
        · have hge := @stop_le (f.layout c) (by rw [hP]; exact hfan) level (i * c.fixed_ptrs_per_block) j
            (by omega) (by rw [hP]; omega)
          rw [hP, hn] at hge
          have hall : ∀ k, j ≤ k → f.upto c.fixed_ptrs_per_block level
            (i * c.fixed_ptrs_per_block + k) = f.nr_blocks := by
            intro k hk
            refine Nat.min_eq_right (Nat.le_trans hge ?_)
            exact Nat.mul_le_mul_right _ (by omega)
          have hz : wordAt m (dst + 4 * 1 * j) 0 = 0 := by
            refine wordAt_zero fun x h₁ h₂ => hzero x (by omega) ?_
            rw [hroom]
            omega
          rw [hz, hall j (Nat.le_refl j), hall _ (by omega)]
          simp only [if_true, if_pos h.done]
    have := loop c.fixed_ptrs_per_block 0 (by omega)
    rw [Nat.mul_zero, Nat.add_zero, Nat.add_zero] at this
    rw [upto_succ] at this
    rw [cache_file_fixed, File.ptr_per_block, hf]
    rw [upto_level]
    exact this

theorem get_var_pointer_eq {m : Mem} {addr : Nat} (h0 : addr ≠ 0) (hacc : access c 12 addr = .ok ()) :
    get_var_pointer c m addr =
      .ok (if wordAt m addr 0 = 0 then if wordAt m addr 1 ≠ 0 then NULL_BLOCK else VAR_FILE_END
           else c.ABS (wordAt m addr 0), wordAt m addr 2) := by
  unfold get_var_pointer readVarPtr readWords
  rw [if_neg h0, show 4 * 3 = 12 from rfl, hacc]
  rfl

include hc h in
theorem get_var_pointer_entry (hf : f.record_format = .var) {m : Mem} {a level i addr : Nat}
    (hhold : Holds m a ((f.layout c).ptr (level + 1) i (block_ptr c addr))) (h0 : a ≠ 0)
    (hacc : access c 12 a = .ok ()) (hi : i * c.var_ptrs_per_block ^ level < f.nr_blocks)
    (haddr : addr % c.blksize = 0 ∧ addr / c.blksize < c.total_blocks) :
    get_var_pointer c m a = .ok (addr, (f.block (i * c.var_ptrs_per_block ^ level)).disp) := by
  obtain ⟨-, -, -, -, hptr, -⟩ := layout_var (c := c) hf
  rw [hptr] at hhold
  have h₀ : wordAt m a 0 = block_ptr c addr := hhold 0 (by simp)
  have h₁ : wordAt m a 1 = (f.block (get_last_block_nr c (level + 1) (i + 1) f.nr_blocks)).hi_record_nr :=
    hhold 1 (by simp)
  have h₂ : wordAt m a 2 = (f.block (get_first_block_nr c (level + 1) i)).disp := hhold 2 (by simp)
  have hhi := (h.hi _ (h.block_mem (i := get_last_block_nr c (level + 1) (i + 1) f.nr_blocks)
    (by unfold get_last_block_nr; omega))).1
  have hback := block_ptr_back hc haddr.1 haddr.2
  rw [get_var_pointer_eq h0 hacc, h₀, h₁, h₂, if_pos (show _ ≠ 0 by omega), hback]
  rfl

include hc h in
theorem cache_file_var_eq (hf : f.record_format = .var) {m : Mem} :
    ∀ {level addr i disp : Nat} {bs : List Nat}, Tree c (f.layout c) m level addr (i * c.var_ptrs_per_block) bs →
      Inside c bs → i * c.var_ptrs_per_block ^ level < f.nr_blocks →
      (level = 0 → addr = (f.block i).disk_addr ∧ disp = (f.block i).disp) →
      cache_file_variable c f scan m level addr disp (f.cached scan (f.upto c.var_ptrs_per_block level i)) =
        .ok (f.cached scan (f.upto c.var_ptrs_per_block level (i + 1)), none)
  | 0, addr, i, disp, bs, _, _, hi, haddr => by
    rw [pow_zero, Nat.mul_one] at hi
    obtain ⟨rfl, rfl⟩ := haddr rfl
    rw [cache_file_variable, upto_zero (Nat.le_of_lt hi), upto_zero hi, h.visit hi]
  | level + 1, dst, i, disp, bs, htree, hin, hi, _ => by
    obtain ⟨hP, hw, hn, hleaf, -, hback⟩ := layout_var (c := c) hf
    have hL := layout_ok hc h
    have hfan := hL.fan
    have hdst := htree.inside hin
    obtain ⟨hal, h0, kids, hlen, hkids, hzero, -, rfl⟩ := htree
    rw [hP] at hfan hkids
    rw [hw] at hkids hzero
    have hroom : (f.layout c).room c = c.blksize - PTR_SIZE := by simp [PtrLayout.room, hback]
    have hfits := hL.fits
    rw [hw, hP, hroom] at hfits
    have hblk := hc.pos
    have hpts : PTR_SIZE = 4 := rfl
    have loop : ∀ left j, j + left = c.var_ptrs_per_block →
        cache_entries_variable c m (cache_file_variable c f scan m level) left (dst + 4 * 3 * j)
          (f.cached scan (f.upto c.var_ptrs_per_block level (i * c.var_ptrs_per_block + j))) =
        .ok (f.cached scan (f.upto c.var_ptrs_per_block level
          (i * c.var_ptrs_per_block + c.var_ptrs_per_block)), none) := by
      intro left
      induction left with
      | zero =>
        intro j hj
        rw [cache_entries_variable, ← hj, Nat.add_zero]
      | succ left ih =>
        intro j hj
        have hacc : access c 12 (dst + 4 * 3 * j) = .ok () :=
          access_inside hblk hal hdst (by decide) (by omega)
        rw [cache_entries_variable]
        by_cases hjk : j < kids.length
        · obtain ⟨hhold, hkid, hkleaf⟩ := hkids j hjk
          have hlt := lt_stop (L := f.layout c) (by rw [hP]; exact hfan) (hlen ▸ hjk)
          rw [hP, hn] at hlt
          have hkin : Inside c kids[j].2 := fun b hb =>
            hin b (List.mem_cons_of_mem _ (List.mem_flatMap.mpr ⟨kids[j], List.getElem_mem hjk, hb⟩))
          have haddr := hkid.addr hkin fun hl => by
            subst hl
            rw [hkleaf rfl, hleaf]
            rw [pow_zero, Nat.mul_one] at hlt
            exact h.addr _ (h.block_mem hlt)
          have hne : kids[j].1 ≠ VAR_FILE_END := by
            intro heq
            have := haddr.1
            rw [heq, VAR_FILE_END, Nat.mod_eq_of_lt (by rcases hc.blksize with h | h | h | h <;> omega)] at this
            cases this
          have hstep := @cache_file_var_eq hf m level _ _ (f.block ((i * c.var_ptrs_per_block + j) *
              c.var_ptrs_per_block ^ level)).disp _ hkid hkin hlt fun hl => by
            subst hl
            rw [hkleaf rfl, hleaf, pow_zero, Nat.mul_one]
            exact ⟨rfl, rfl⟩
          rw [get_var_pointer_entry hc h hf hhold (by omega) hacc hlt haddr]
          simp only [if_neg hne, hstep]
          exact ih (j + 1) (by omega)
        · have hge := @stop_le (f.layout c) (by rw [hP]; exact hfan) level (i * c.var_ptrs_per_block) j
            (by omega) (by rw [hP]; omega)
          rw [hP, hn] at hge
          have hall : ∀ k, j ≤ k → f.upto c.var_ptrs_per_block level
            (i * c.var_ptrs_per_block + k) = f.nr_blocks := by
            intro k hk
            refine Nat.min_eq_right (Nat.le_trans hge ?_)
            exact Nat.mul_le_mul_right _ (by omega)
          have hz : ∀ k, k < 3 → wordAt m (dst + 4 * 3 * j) k = 0 := by
            intro k hk
            refine wordAt_zero fun x h₁ h₂ => hzero x (by omega) ?_
            rw [hroom]
            omega
          rw [get_var_pointer_eq (by omega) hacc, hz 0 (by decide), hz 1 (by decide),
            hall j (Nat.le_refl j), hall _ (by omega)]
          rfl
    have := loop c.var_ptrs_per_block 0 (by omega)
    rw [Nat.mul_zero, Nat.add_zero, Nat.add_zero] at this
    rw [upto_succ] at this
    rw [cache_file_variable, File.ptr_per_block, hf, upto_level]
    exact this

end

/-! ## The last pointer -/

theorem le_stop_mul {L : PtrLayout} (hp : 2 ≤ L.ptr_per_block) {level start : Nat}
    (h : L.nr_blocks ≤ (start + L.ptr_per_block) * L.ptr_per_block ^ level) :
    L.nr_blocks ≤ L.stop level start * L.ptr_per_block ^ level := by
  rcases Nat.le_total (start + L.ptr_per_block) (perLevel L.ptr_per_block level L.nr_blocks) with hle | hle
  · rw [PtrLayout.stop, Nat.min_eq_left hle]
    exact h
  · rw [PtrLayout.stop, Nat.min_eq_right hle, ← not_lt, ← lt_perLevel hp]
    exact lt_irrefl _

theorem readVarPtr_eq {m : Mem} {addr : Nat} (hacc : access c 12 addr = .ok ()) :
    readVarPtr c m addr =
      .ok { next := wordAt m addr 0, hi_record_nr := wordAt m addr 1, disp := wordAt m addr 2 } := by
  unfold readVarPtr readWords
  rw [show 4 * 3 = 12 from rfl, hacc]
  rfl

def File.last_vptr (c : Device) (f : File) : VarPtr :=
  let last := f.block (f.nr_blocks - 1)
  { next := block_ptr c last.disk_addr, hi_record_nr := last.hi_record_nr, disp := last.disp }

theorem locate_read {m : Mem} {dst k : Nat} (level : Nat) (v : VarPtr)
    (hword : readWords c m (dst + c.blksize - PTR_SIZE) 1 = .ok [k * VPTR_SIZE]) (hk : k * 12 ≤ c.blksize)
    (hacc : access c 12 (dst + 4 * 3 * k) = .ok ()) (hrec : wordAt m (dst + 4 * 3 * k) 1 = f.nr_records) :
    locate_last_data_vptr c f m (level + 1) dst v =
      if level = 0 ∨ wordAt m (dst + 4 * 3 * k) 0 = NULL_BLOCK then
        .ok ⟨wordAt m (dst + 4 * 3 * k) 0, wordAt m (dst + 4 * 3 * k) 1, wordAt m (dst + 4 * 3 * k) 2⟩
      else
        locate_last_data_vptr c f m level (c.ABS (wordAt m (dst + 4 * 3 * k) 0))
          ⟨wordAt m (dst + 4 * 3 * k) 0, wordAt m (dst + 4 * 3 * k) 1, wordAt m (dst + 4 * 3 * k) 2⟩ := by
  have hoff : k * VPTR_SIZE = 4 * 3 * k := Nat.mul_comm ..
  rw [locate_last_data_vptr, hword]
  show (if k * VPTR_SIZE % VPTR_SIZE ≠ 0 ∨ c.blksize < k * VPTR_SIZE then Except.error Fail.Eio else
    readVarPtr c m (dst + k * VPTR_SIZE) >>= fun vptr => _) = _
  rw [if_neg (by rw [Nat.mul_mod_left, hoff]; omega), hoff, readVarPtr_eq hacc]
  show (if wordAt m (dst + 4 * 3 * k) 1 ≠ f.nr_records then _ else _) = _
  rw [if_neg (not_not.mpr hrec)]

theorem locate_step (hc : c.Supported) (h : f.Open c scan) (hf : f.record_format = .var) {m : Mem}
    (hrec : (f.block (f.nr_blocks - 1)).hi_record_nr = f.nr_records) {level dst i : Nat}
      {bs : List Nat} (v : VarPtr)
    (htree : Tree c (f.layout c) m (level + 1) dst (i * c.var_ptrs_per_block) bs) (hin : Inside c bs)
    (hi : i * c.var_ptrs_per_block ^ (level + 1) < f.nr_blocks)
    (hlast : f.nr_blocks ≤ (i + 1) * c.var_ptrs_per_block ^ (level + 1)) :
    (level = 0 ∧ locate_last_data_vptr c f m (level + 1) dst v = .ok (f.last_vptr c)) ∨
      ∃ level' addr j bs' w, level = level' + 1 ∧
        Tree c (f.layout c) m level addr (j * c.var_ptrs_per_block) bs' ∧ Inside c bs' ∧
        j * c.var_ptrs_per_block ^ level < f.nr_blocks ∧ f.nr_blocks ≤ (j + 1) * c.var_ptrs_per_block ^ level ∧
        locate_last_data_vptr c f m (level + 1) dst v = locate_last_data_vptr c f m level addr w := by
  obtain ⟨hP, hw, hn, hleaf, hptr, hback⟩ := layout_var (c := c) hf
  have hL := layout_ok hc h
  have hfan := hL.fan
  have hdst := htree.inside hin
  obtain ⟨hal, h0, kids, hlen, hkids, -, hb, rfl⟩ := htree
  have hb := hb hback
  have hstop := @le_stop_mul (f.layout c) hfan level (i * c.var_ptrs_per_block) (by
    rw [hP, hn]
    refine Nat.le_trans hlast (Nat.le_of_eq ?_)
    rw [pow_succ, Nat.mul_comm (_ ^ level), ← Nat.mul_assoc, Nat.succ_mul])
  have hfits := hL.fits
  have hroom : (f.layout c).room c = c.blksize - PTR_SIZE := by simp [PtrLayout.room, hback]
  rw [hP] at hfan hkids hstop
  rw [hw] at hkids
  rw [hw, hP, hroom] at hfits
  rw [hn] at hstop
  have hblk := hc.pos
  have hpts : PTR_SIZE = 4 := rfl
  have hvpts : VPTR_SIZE = 12 := rfl
  -- there is a last entry, and the last data block is below it
  have hpos : 0 < kids.length := by
    rw [hlen, Nat.sub_pos_iff_lt]
    by_contra hle
    have h₁ := Nat.mul_le_mul_right (c.var_ptrs_per_block ^ level) (Nat.le_of_not_lt hle)
    rw [Nat.mul_assoc, Nat.mul_comm c.var_ptrs_per_block, ← pow_succ] at h₁
    omega
  obtain ⟨k, hk⟩ : ∃ k, kids.length = k + 1 := ⟨kids.length - 1, by omega⟩
  have hsum : (f.layout c).stop level (i * c.var_ptrs_per_block) = i * c.var_ptrs_per_block + k + 1 := by omega
  rw [hsum] at hstop
  have hkP : k + 1 ≤ c.var_ptrs_per_block := by
    unfold PtrLayout.stop at hsum
    rw [hP] at hsum
    omega
  obtain ⟨hhold, hkid, hkleaf⟩ := hkids k (by omega)
  have hlt := @lt_stop (f.layout c) (by rw [hP]; exact hfan) level (i * c.var_ptrs_per_block) k (by omega)
  rw [hP, hn] at hlt
  have hkin : Inside c kids[k].2 := fun b hb =>
    hin b (List.mem_cons_of_mem _ (List.mem_flatMap.mpr ⟨kids[k], List.getElem_mem (by omega), hb⟩))
  have haddr := hkid.addr hkin fun hl => by
    subst hl
    rw [hkleaf rfl, hleaf]
    rw [pow_zero, Nat.mul_one] at hlt
    exact h.addr _ (h.block_mem hlt)
  rw [hptr] at hhold
  have h₀ : wordAt m (dst + 4 * 3 * k) 0 = block_ptr c kids[k].1 := hhold 0 (by simp)
  have h₁ : wordAt m (dst + 4 * 3 * k) 1 = f.nr_records := by
    rw [← hrec]
    refine (hhold 1 (by simp)).trans (congrArg (fun b => (f.block b).hi_record_nr) ?_)
    unfold get_last_block_nr
    rw [Nat.add_sub_cancel]
    exact Nat.min_eq_right (by omega)
  have h₂ : wordAt m (dst + 4 * 3 * k) 2 =
    (f.block ((i * c.var_ptrs_per_block + k) * c.var_ptrs_per_block ^ level)).disp :=
    hhold 2 (by simp)
  have hend : access c 4 (dst + c.blksize - PTR_SIZE) = .ok () := by
    have := access_inside (c := c) hblk (o := c.blksize - PTR_SIZE) (n := 4) hal hdst (by decide) (by omega)
    rw [show dst + c.blksize - PTR_SIZE = dst + (c.blksize - PTR_SIZE) by omega]
    exact this
  have hacc : access c 12 (dst + 4 * 3 * k) = .ok () := access_inside hblk hal hdst (by decide) (by omega)
  have hword : readWords c m (dst + c.blksize - PTR_SIZE) 1 = .ok [k * VPTR_SIZE] := by
    unfold readWords
    rw [show 4 * 1 = 4 from rfl, hend]
    show Except.ok [wordAt m (dst + c.blksize - PTR_SIZE) 0] = _
    rw [hb, hk, Nat.add_sub_cancel]
  have hloc := locate_read level v hword (by omega) hacc h₁
  cases level with
  | zero =>
    rw [pow_zero, Nat.mul_one] at hstop hlt h₂
    have hidx : i * c.var_ptrs_per_block + k = f.nr_blocks - 1 := by omega
    rw [if_pos (.inl rfl), h₀, h₁, h₂, hkleaf rfl, hleaf, hidx, ← hrec] at hloc
    exact .inl ⟨rfl, hloc⟩
  | succ level =>
    have hne : kids[k].1 ≠ 0 := hkid.2.1
    have hnext : block_ptr c kids[k].1 = c.REL kids[k].1 := if_neg hne
    have hnz : ¬ (level + 1 = 0 ∨ wordAt m (dst + 4 * 3 * k) 0 = NULL_BLOCK) := by
      rw [h₀, hnext]
      rintro (h | h)
      · cases h
      · exact REL_ne_zero hc haddr.2 h
    rw [if_neg hnz, h₀, hnext, ABS_REL hc haddr.1 haddr.2] at hloc
    exact .inr ⟨level, _, _, _, _, rfl, hkid, hkin, hlt, hstop, hloc⟩

theorem locate_last_eq (hc : c.Supported) (h : f.Open c scan) (hf : f.record_format = .var) {m : Mem}
    (hrec : (f.block (f.nr_blocks - 1)).hi_record_nr = f.nr_records) :
    ∀ {level dst i : Nat} {bs : List Nat} (v : VarPtr),
      Tree c (f.layout c) m (level + 1) dst (i * c.var_ptrs_per_block) bs → Inside c bs →
      i * c.var_ptrs_per_block ^ (level + 1) < f.nr_blocks →
      f.nr_blocks ≤ (i + 1) * c.var_ptrs_per_block ^ (level + 1) →
      locate_last_data_vptr c f m (level + 1) dst v = .ok (f.last_vptr c)
  | level, dst, i, bs, v, htree, hin, hi, hlast => by
    rcases locate_step hc h hf hrec v htree hin hi hlast with ⟨-, hok⟩ |
      ⟨level', addr, j, bs', w, rfl, htree', hin', hj, hlast', heq⟩
    · exact hok
    · rw [heq]
      exact locate_last_eq hc h hf hrec w htree' hin' hj hlast'

/-! ## Write and read back -/

/-- The walk over the pointer tree sees the block list, and the last pointers lead to the last data block. -/
def File.ReadsBack (c : Device) (f : File) (scan : Scan) (m : Mem) : Prop :=
  (∃ r, cache_file c f scan m = .ok ({ blist := f.blist, record := r }, none)) ∧
    (f.record_format = .var →
      ∀ v, locate_last_data_vptr c f m f.levels (c.ABS f.fop) v = .ok (f.last_vptr c))

theorem root_tree (hc : c.Supported) (h : f.Open c scan) (h2 : 2 ≤ f.nr_blocks) {d d' : Disk} {f' : File}
    (hw : rewrite_pointers c f d = .ok (f', d')) (hl : f.levels ≠ 0) :
    ∃ dst bs, f' = { f with fop := c.REL dst } ∧ Tree c (f.layout c) d'.mem f.levels dst 0 bs ∧
      Taken c true d d' bs ∧ dst % c.blksize = 0 ∧ dst / c.blksize < c.total_blocks ∧
      ∀ x, x / c.blksize ∉ bs → d'.mem x = d.mem x := by
  have hblk := hc.pos
  unfold rewrite_pointers at hw
  rw [if_neg (by omega), if_neg (by omega)] at hw
  obtain ⟨⟨dst, d₁⟩, h₁, hw⟩ := bind_eq_ok hw
  obtain ⟨d₂, h₂, hw⟩ := bind_eq_ok hw
  cases hw
  obtain ⟨b, rfl, htake, hmem⟩ := take_block_ok (r := true) h₁
  have hdiv : b * c.blksize / c.blksize = b := Nat.mul_div_cancel b hblk
  have hmod : b * c.blksize % c.blksize = 0 := Nat.mul_mod_left ..
  have hb : b ∈ [b] := List.mem_singleton.mpr rfl
  obtain ⟨bs, htree, hhead, htail, hsame⟩ := rewrites (layout_ok hc h) true f.levels _ _ _ _ h₂ fun _ =>
    ⟨hmod, Nat.mul_ne_zero (htake.free b hb).2 (by omega), by rw [hdiv]; exact (htake.amap b).mpr (.inr hb),
      fun x hx => by rw [hmem, zero, if_pos ((div_eq_iff_block hblk hmod).mp hx)]⟩
  have hhead := hhead hl
  rw [hdiv] at hhead
  obtain ⟨bs', rfl⟩ : ∃ bs', bs = b :: bs' := by
    cases bs with
    | nil => cases hhead
    | cons a bs => cases hhead; exact ⟨bs, rfl⟩
  refine ⟨b * c.blksize, b :: bs', rfl, htree, htake.trans htail, hmod,
    by rw [hdiv]; exact (htake.inside b hb).1, ?_⟩
  intro x hx
  rw [hsame x hx, hmem, zero, if_neg]
  intro hin
  have := (div_eq_iff_block hblk hmod).mpr hin
  rw [hdiv] at this
  exact hx (this ▸ List.mem_cons_self ..)

theorem cached_all (h : f.Open c scan) :
    f.cached scan f.nr_blocks = { blist := f.rescanned scan, record := f.record_before scan f.nr_blocks } := by
  rw [File.cached, ← h.rescanned_length, List.take_length]

theorem cached_eq_iff (h : f.Open c scan) {n : Nat} (hn : n ≤ f.nr_blocks) :
    (f.cached scan n).blist = f.blist ↔ n = f.nr_blocks ∧ f.UpToDate scan := by
  constructor
  · intro heq
    have hlen := congrArg List.length heq
    simp only [File.cached, List.length_take, h.rescanned_length, h.length] at hlen
    have hall : n = f.nr_blocks := by omega
    subst hall
    rw [cached_all h] at heq
    exact ⟨rfl, h.upToDate_iff.mp heq⟩
  · rintro ⟨rfl, hup⟩
    rw [cached_all h]
    exact h.upToDate_iff.mpr hup

theorem cache_file_eq (hc : c.Supported) (h : f.Open c scan) (h2 : 2 ≤ f.nr_blocks) {m : Mem} {dst : Nat}
    {bs : List Nat} (htree : Tree c (f.layout c) m f.levels dst 0 bs) (hin : Inside c bs) (hfop : c.ABS f.fop = dst)
    (hl : f.levels ≠ 0) :
    cache_file c f scan m = .ok (f.cached scan (f.upto (f.ptr_per_block c) f.levels 1), none) := by
  have hstart : ∀ p, f.cached scan (f.upto p f.levels 0) = { blist := [], record := -1 } := by
    intro p
    have : f.upto p f.levels 0 = 0 := by rw [File.upto, Nat.zero_mul, Nat.zero_min]
    rw [this]
    rfl
  unfold cache_file
  cases hf : f.record_format with
  | fixed =>
    have htree' : Tree c (f.layout c) m f.levels dst (0 * c.fixed_ptrs_per_block) bs :=
      by rw [Nat.zero_mul]; exact htree
    have := cache_file_fixed_eq hc h hf htree' hin (by rw [Nat.zero_mul]; omega) fun h => absurd h hl
    rw [hstart] at this
    rw [hfop, this, File.ptr_per_block, hf]
  | var =>
    have htree' : Tree c (f.layout c) m f.levels dst (0 * c.var_ptrs_per_block) bs :=
      by rw [Nat.zero_mul]; exact htree
    have := @cache_file_var_eq c f scan hc h hf m _ _ _ 0 _ htree' hin
      (by rw [Nat.zero_mul]; omega) fun h => absurd h hl
    rw [hstart] at this
    rw [hfop, this, File.ptr_per_block, hf]

theorem fan_le (hc : c.Supported) (f : File) : 2 ≤ f.ptr_per_block c := by
  have hblk := hc.blksize
  unfold File.ptr_per_block
  cases f.record_format with
  | fixed => simp only [Device.fixed_ptrs_per_block, PTR_SIZE]; omega
  | var => simp only [Device.var_ptrs_per_block, VPTR_SIZE]; omega

theorem reads_back_iff (hc : c.Supported) (h : f.Open c scan) (h2 : 2 ≤ f.nr_blocks) {d d' : Disk} {f' : File}
    (hw : rewrite_pointers c (update_levels c f) d = .ok (f', d')) :
    f'.ReadsBack c scan d'.mem ↔ ¬ Overfull (f.ptr_per_block c) f.nr_blocks ∧ f.UpToDate scan := by
  have hfan := fan_le hc f
  obtain ⟨l, hl, -, -⟩ := levels_spec hfan h2
  have hscan : ∀ l x i, File.scanned { f with levels := l, fop := x } scan i = f.scanned scan i :=
    fun _ _ => scanned_congr rfl
  have hopen : ∀ l x, File.Open c { f with levels := l, fop := x } scan := fun l x =>
    ⟨h.length, h.addr, h.hi, h.disp, fun i hi => by rw [hscan]; exact h.records i hi,
      fun hn => (hscan l x _).trans (h.last hn)⟩
  have hne : (update_levels c f).levels ≠ 0 := by
    show levels _ _ ≠ 0
    omega
  obtain ⟨dst, bs, rfl, htree, htake, hal, hlt, -⟩ := root_tree hc (f := update_levels c f)
    (hopen _ f.fop) h2 hw hne
  have hin : Inside c bs := htake.inside
  have hg := hopen (update_levels c f).levels (c.REL dst)
  have hwalk := cache_file_eq hc hg h2 htree hin (ABS_REL hc hal hlt) hne
  have hup : File.UpToDate { update_levels c f with fop := c.REL dst } scan ↔ f.UpToDate scan := by
    unfold File.UpToDate
    refine forall_congr' fun i => imp_congr_right fun _ => ?_
    rw [show File.scanned { update_levels c f with fop := c.REL dst } scan i = f.scanned scan i from hscan _ _ i]
    rfl
  have hseen := cached_eq_iff hg (n := File.upto { update_levels c f with fop := c.REL dst } (f.ptr_per_block c)
    (levels (f.ptr_per_block c) f.nr_blocks) 1) (Nat.min_le_right ..)
  have hfits : File.upto { update_levels c f with fop := c.REL dst } (f.ptr_per_block c)
      (levels (f.ptr_per_block c) f.nr_blocks) 1 = f.nr_blocks ↔ ¬ Overfull (f.ptr_per_block c) f.nr_blocks := by
    rw [← le_pow_levels hfan h2, File.upto, Nat.one_mul]
    exact min_eq_right_iff
  constructor
  · rintro ⟨⟨r, hr⟩, -⟩
    obtain ⟨hall, hnr⟩ := hseen.mp (congrArg Cache.blist (Prod.mk.inj (Except.ok.inj (hwalk.symm.trans hr))).1)
    exact ⟨hfits.mp hall, hup.mp hnr⟩
  · rintro ⟨hover, hnr⟩
    have hblist := hseen.mpr ⟨hfits.mpr hover, hup.mpr hnr⟩
    refine ⟨⟨_, hwalk.trans (congrArg (fun b => Except.ok (Cache.mk b _, none)) hblist)⟩, fun hf v => ?_⟩
    have hp : f.ptr_per_block c = c.var_ptrs_per_block := by
      rw [File.ptr_per_block, show f.record_format = .var from hf]
    have hfit := (le_pow_levels hfan h2).mpr hover
    rw [hl, hp] at hfit
    have hrec : ((f.block (f.nr_blocks - 1)).hi_record_nr : Int) = f.nr_records := by
      rw [hnr _ (by omega), h.last (by omega)]
      omega
    have hlev : (update_levels c f).levels = l + 1 := hl
    rw [hlev] at htree
    have htree' : Tree c (f.layout c) d'.mem (l + 1) dst (0 * c.var_ptrs_per_block) bs := by
      rw [Nat.zero_mul]
      exact htree
    have hloc := locate_last_eq hc hg hf (Int.ofNat.inj hrec) v htree' hin
      (by rw [Nat.zero_mul]; exact Nat.lt_of_lt_of_le Nat.two_pos h2)
        (by rw [Nat.zero_add, Nat.one_mul]; exact hfit)
    show locate_last_data_vptr c _ d'.mem (update_levels c f).levels (c.ABS (c.REL dst)) v = _
    rw [ABS_REL hc hal hlt]
    exact (congrArg (fun k => locate_last_data_vptr c _ d'.mem k dst v) hlev).trans hloc

def Device.sample : Device := { blksize := 512, label := 1024, total_blocks := 4000 }

/-- A file of `n` blocks that lie behind the first 100, each with one record. -/
def File.sample (format : RecordFormat) (n : Nat) : File :=
  { record_format := format, fop := 0, levels := 0, nr_blocks := n, nr_records := n
    blist := (List.range n).map fun i => { disk_addr := (i + 100) * 512, disp := 0, hi_record_nr := i + 1 }
    rlist := [] }

def Disk.sample (n : Nat) : Disk :=
  { mem := fun _ => 0, amap := fun b => decide (b < 4 ∨ 100 ≤ b ∧ b < 100 + n), used_blocks := 4 + n
    reserved_blocks := 0 }

def Scan.sample : Scan := fun _ _ _ record => record + 1

theorem supported_sample : Device.sample.Supported := ⟨.inl rfl, by decide⟩

theorem scanned_sample (format : RecordFormat) (n : Nat) : ∀ i, (File.sample format n).scanned .sample i = i
  | 0 => rfl
  | i + 1 => congrArg (· + 1) (scanned_sample format n i)

theorem open_sample (format : RecordFormat) {n : Nat} (hn : n ≤ 3900) :
    (File.sample format n).Open .sample .sample := by
  have hblock : ∀ b ∈ (File.sample format n).blist, ∃ i < n, b = Block.mk ((i + 100) * 512) 0 (i + 1) := by
    intro b hb
    obtain ⟨i, hi, rfl⟩ := List.mem_map.mp hb
    exact ⟨i, List.mem_range.mp hi, rfl⟩
  refine ⟨?_, ?_, ?_, ?_, ?_, ?_⟩
  · show (List.map _ _).length = n
    rw [List.length_map, List.length_range]
  · intro b hb
    obtain ⟨i, hi, rfl⟩ := hblock b hb
    show (i + 100) * 512 % 512 = 0 ∧ (i + 100) * 512 / 512 < 4000
    omega
  · intro b hb
    obtain ⟨i, hi, rfl⟩ := hblock b hb
    show 1 ≤ i + 1 ∧ i + 1 < 4294967296
    omega
  · intro b hb
    obtain ⟨i, hi, rfl⟩ := hblock b hb
    exact ⟨Nat.two_pow_pos 32, fun _ => rfl⟩
  · intro i hi
    have hi : i < n := hi
    rw [scanned_sample]
    show (0 : Int) ≤ i ∧ (i : Int) < n
    omega
  · intro hn
    have hn : 0 < n := hn
    rw [scanned_sample]
    show ((n - 1 : Nat) : Int) = n - 1
    omega

theorem upToDate_sample (format : RecordFormat) (n : Nat) : (File.sample format n).UpToDate .sample := by
  intro i hi
  have hlen : i < (List.range n).length := by rw [List.length_range]; exact hi
  rw [scanned_sample, File.block, File.sample, List.getD_eq_getElem _ _ (by rw [List.length_map]; exact hlen),
    List.getElem_map, List.getElem_range]
  push_cast
  rfl

theorem exists_rewritten {c : Device} {f : File} {d : Disk} (h : (rewrite_pointers c f d).toBool = true) :
    ∃ f' d', rewrite_pointers c f d = .ok (f', d') := by
  cases hr : rewrite_pointers c f d with
  | error e =>
    rw [hr] at h
    cases h
  | ok r => exact ⟨r.1, r.2, rfl⟩

end Cmsfs
