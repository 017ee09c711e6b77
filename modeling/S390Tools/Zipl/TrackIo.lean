import S390Tools.Lib.Word

/-!
# Track I/O of the ECKD dumper

`io_block` of `eckd2dump.c` in the mode with track I/O. The channel program is
one data CCW for each track that is touched, and the address words of all of
them one behind the other. CCWs and words are listed in the order in which they
are written, so that the number of elements is the number of array elements in
use. A null pointer is the address zero.
-/

namespace Zipl.Eckd2dump

open Word

/-! ## The device -/

structure EckdDevice where
  blk_end : Nat
  blk_size : Nat
  num_heads : Nat
  bpt : Nat
  blk_end_lt : blk_end < 2 ^ 32
  heads_pos : 1 ≤ num_heads
  heads_lt : num_heads < 256
  bpt_pos : 1 ≤ bpt
  bpt_lt : bpt < 256

inductive Cmd
  | write_kd_mt
  | read_kd_mt
  | write_track_data
  | read_track_data
  deriving DecidableEq

structure Ch where
  cyl : Nat
  head : Nat
  deriving DecidableEq

def set_ch_t (cyl head : Nat) : Ch := ⟨u16 cyl, u16 ((cyl / 65536 * 16 : Nat) : Int) ||| u8 head⟩

def Ch.named (c : Ch) : Nat × Nat := (c.head / 16 * 65536 + c.cyl, c.head % 16)

/-- `struct LRE_eckd_data` -/
structure LRE where
  operation : Nat
  length_valid : Bool
  count : Nat
  seek_addr : Ch
  search_arg : Ch
  record : Nat
  sector : Nat
  length : Nat
  extended_operation : Nat
  deriving DecidableEq

/-- `struct DE_eckd_data` -/
structure DE where
  perm : Nat
  blk_size : Nat
  mode : Nat
  ga_extended : Nat
  beg_ext : Ch
  end_ext : Ch
  deriving DecidableEq

section
variable (dev : EckdDevice)

def fill_LRE_data (trk rec_on_trk count : Nat) (cmd : Cmd) (reclen tlf : Nat) : LRE where
  operation := match cmd with
    | .write_kd_mt => 0x1
    | .read_kd_mt => 0x6
    | .write_track_data => 0x3f
    | .read_track_data => 0xc
  length_valid := true
  count := u8 count
  seek_addr := set_ch_t (trk / dev.num_heads) (trk % dev.num_heads)
  search_arg := set_ch_t (trk / dev.num_heads) (trk % dev.num_heads)
  record := u8 rec_on_trk
  sector := 0xff
  length := u16 (if cmd = .read_track_data then tlf else reclen)
  extended_operation := if cmd = .write_track_data then 0x23 else 0

def fill_DE_data (trk totrk : Nat) (cmd : Cmd) : DE where
  perm := match cmd with
    | .read_kd_mt | .read_track_data => 0x1
    | .write_kd_mt | .write_track_data => 0x2
  blk_size := if cmd = .write_track_data then dev.blk_size else 0
  mode := 0x3
  ga_extended := 0x40
  beg_ext := set_ch_t (trk / dev.num_heads) (trk % dev.num_heads)
  end_ext := set_ch_t (totrk / dev.num_heads) (totrk % dev.num_heads)

end

/-! ## Address words -/

def PAGE_SIZE : Nat := 4096

section
variable (page_is_valid : Nat → Bool) (zero_page : Nat)

def idal_word (paddr : Nat) : Nat :=
  if zero_page ≠ 0 then if page_is_valid paddr then paddr else zero_page else paddr

def idal_loop : Nat → Nat → List Nat
  | 0, _ => []
  | cidaw + 1, paddr =>
    let paddr := u64 ((paddr + PAGE_SIZE : Nat) : Int)
    idal_word page_is_valid zero_page paddr :: idal_loop cidaw paddr

def idal_create_words (paddr length : Nat) : List Nat :=
  let cidaw := u32 (((paddr % PAGE_SIZE + length + (PAGE_SIZE - 1)) / PAGE_SIZE : Nat) : Int)
  idal_word page_is_valid zero_page paddr ::
    idal_loop page_is_valid zero_page (u32 (cidaw - 1)) (paddr - paddr % PAGE_SIZE)

end

/-! ## The program -/

def ECKD_BLK_PER_TRK : Nat := 12
def ECKD_BLK_PER_IO_TRK : Nat := 128
def ECKD_CCW_MAX_COUNT_TRK : Nat := 12

/-- `cda` is the number of address words in front of the one that it points to. -/
structure Ccw where
  cmd_code : Cmd
  count : Nat
  cda : Nat
  ida : Bool
  cc : Bool
  deriving DecidableEq

/-- `ccw[-1].flags |= CCW_FLAG_CC`: in front of the first data CCW stands the locate record CCW,
which has the flag. -/
def chain_last (ccws : List Ccw) : List Ccw := ccws.modify (ccws.length - 1) fun c => { c with cc := true }

structure TrkIo where
  seg_len : Nat
  recid : Nat
  len_to_track_end : Nat
  new_track : Bool
  dst : Nat
  idaw_dst : Nat
  idaw_len : Nat
  ccws : List Ccw
  idaws : List Nat
  deriving DecidableEq

section
variable (dev : EckdDevice) (page_is_valid : Nat → Bool) (zero_page : Nat) (cmd : Cmd) (last_rec : Nat)

def begin_track (s : TrkIo) : TrkIo :=
  let recoffs := s.recid % dev.bpt
  let count_to_trk_end := dev.bpt - recoffs
  let left := u64 ((last_rec : Int) - s.recid + 1)
  let count := u32 ((if left < count_to_trk_end then left else count_to_trk_end : Nat) : Int)
  let len_to_track_end := u32 ((count * dev.blk_size : Nat) : Int)
  { s with
    len_to_track_end
    ccws := chain_last s.ccws ++ [⟨cmd, u16 len_to_track_end, s.idaws.length, true, false⟩]
    recid := u32 ((s.recid + count : Nat) : Int)
    new_track := false }

def trk_step (s : TrkIo) : TrkIo :=
  let s := if s.new_track then begin_track dev cmd last_rec s else s
  let idaw_dst := if s.idaw_dst = 0 then s.dst else s.idaw_dst
  let part_len := min s.seg_len s.len_to_track_end
  let idaw_len := u32 ((s.idaw_len + part_len : Nat) : Int)
  let len_to_track_end := s.len_to_track_end - part_len
  let end_idaw := (idaw_dst + idaw_len) % PAGE_SIZE = 0 ∨ len_to_track_end = 0
  { s with
    seg_len := s.seg_len - part_len
    dst := u64 ((s.dst + part_len : Nat) : Int)
    len_to_track_end
    new_track := s.new_track || len_to_track_end = 0
    idaw_dst := if end_idaw then 0 else idaw_dst
    idaw_len := if end_idaw then 0 else idaw_len
    idaws := if end_idaw then s.idaws ++ idal_create_words page_is_valid zero_page idaw_dst idaw_len else s.idaws }

/-- `while (seg_len)`; `none` when `steps` rounds are not enough. -/
@[grind =] def trk_loop : Nat → TrkIo → Option TrkIo
  | 0, s => if s.seg_len = 0 then some s else none
  | steps + 1, s =>
    if s.seg_len = 0 then some s else trk_loop steps (trk_step dev page_is_valid zero_page cmd last_rec s)

end

structure Program where
  de : DE
  lre : LRE
  ccws : List Ccw
  idaws : List Nat
  deriving DecidableEq

inductive Panic
  | device_too_small
  deriving DecidableEq

section
variable (dev : EckdDevice) (page_is_valid : Nat → Bool) (zero_page : Nat) (cmd : Cmd)

def trk_start (addr first_rec last_rec : Nat) : TrkIo where
  seg_len := u32 ((u32 ((last_rec : Int) - first_rec + 1) * dev.blk_size : Nat) : Int)
  recid := u32 first_rec
  len_to_track_end := 0
  new_track := true
  dst := addr
  idaw_dst := 0
  idaw_len := 0
  ccws := []
  idaws := []

def io_block_trk (steps addr first_rec last_rec first_trk last_trk first_offs last_offs : Nat) : Option Program :=
  let trk_count := u32 ((last_trk : Int) - first_trk + 1)
  let tlf := if first_trk = last_trk then u32 ((dev.blk_size : Int) * (last_offs - first_offs + 1))
    else u32 ((dev.blk_size : Int) * (last_offs + 1))
  let de := fill_DE_data dev (u32 first_trk) (u32 last_trk) cmd
  let lre := fill_LRE_data dev (u32 first_trk) (first_offs + 1) trk_count cmd dev.blk_size tlf
  (trk_loop dev page_is_valid zero_page cmd last_rec steps (trk_start dev addr first_rec last_rec)).map fun s =>
    ⟨de, lre, s.ccws, s.idaws⟩

def io_block (steps first_blk addr blk_count : Nat) : Option (Except Panic Program) :=
  let last_rec := u64 ((first_blk : Int) + blk_count - 1)
  if last_rec > dev.blk_end then some (.error .device_too_small)
  else
    (io_block_trk dev page_is_valid zero_page cmd steps addr first_blk last_rec (first_blk / dev.bpt)
      (last_rec / dev.bpt) (first_blk % dev.bpt) (last_rec % dev.bpt)).map .ok

end

/-! ## What the program has to be -/

section
variable (dev : EckdDevice) (first count : Nat)

def tracks : Nat := (first + count - 1) / dev.bpt - first / dev.bpt + 1

/-- The number of requested blocks in front of the `i`th of these tracks. -/
def before (i : Nat) : Nat := min (first + count) (max first ((first / dev.bpt + i) * dev.bpt)) - first

def blocks_on (i : Nat) : Nat := before dev first count (i + 1) - before dev first count i

variable (page_is_valid : Nat → Bool) (zero_page addr : Nat) (cmd : Cmd)

structure Exact (p : Program) : Prop where
  ccws_fit : p.ccws.length ≤ ECKD_CCW_MAX_COUNT_TRK
  idaws_fit : p.idaws.length ≤ ECKD_CCW_MAX_COUNT_TRK * ECKD_BLK_PER_TRK
  ccws : p.ccws = (List.range (tracks dev first count)).map fun i =>
    ⟨cmd, blocks_on dev first count i * dev.blk_size, before dev first count i, true,
      decide (i + 1 ≠ tracks dev first count)⟩
  adds_up : (p.ccws.map Ccw.count).sum = count * dev.blk_size
  idaws : p.idaws = (List.range count).map fun k =>
    idal_word page_is_valid zero_page (u64 ((addr + k * PAGE_SIZE : Nat) : Int))
  seek_addr : p.lre.seek_addr.named = (first / dev.bpt / dev.num_heads, first / dev.bpt % dev.num_heads)
  search_arg : p.lre.search_arg.named = (first / dev.bpt / dev.num_heads, first / dev.bpt % dev.num_heads)
  record : p.lre.record = first % dev.bpt + 1
  count : p.lre.count = tracks dev first count

/-- The device is too small, or the program is written and exact. -/
def Served : Prop :=
  (∃ steps, io_block dev page_is_valid zero_page cmd steps first addr count = some (.error .device_too_small)) ∨
    ∃ steps p, io_block dev page_is_valid zero_page cmd steps first addr count = some (.ok p) ∧
      Exact dev first count page_is_valid zero_page addr cmd p

/-- At most twelve tracks with at most fifteen requested blocks each, the first one with an address. -/
structure Fits : Prop where
  tracks_le : tracks dev first count ≤ 12
  blocks_lt : ∀ i < tracks dev first count, blocks_on dev first count i < 16
  cyl_lt : first / dev.bpt / dev.num_heads < 2 ^ 28
  head_lt : first / dev.bpt % dev.num_heads < 16

end

/-! ## Address words -/

section
variable {page_is_valid : Nat → Bool} {zero_page : Nat}

theorem u64_add (x y : Nat) : u64 ((u64 (x : Int) + y : Nat) : Int) = u64 ((x + y : Nat) : Int) := by
  rw [Nat.cast_add, u64_u64, ← Nat.cast_add]

theorem idal_loop_eq : ∀ (n x : Nat), idal_loop page_is_valid zero_page n (u64 x) =
    (List.range n).map fun j => idal_word page_is_valid zero_page (u64 ((x + (j + 1) * PAGE_SIZE : Nat) : Int))
  | 0, _ => rfl
  | n + 1, x => by
    have hnext : ∀ j, x + PAGE_SIZE + (j + 1) * PAGE_SIZE = x + (j + 1 + 1) * PAGE_SIZE := fun j => by
      rw [Nat.succ_mul (j + 1)]
      omega
    rw [idal_loop, u64_add, idal_loop_eq n (x + PAGE_SIZE), List.range_succ_eq_map, List.map_cons,
      List.map_map, Nat.zero_add,
      Nat.one_mul]
    simp only [hnext]
    rfl

theorem idal_create_words_eq {x c : Nat} (hx : x % 4096 = 0) (hc : 1 ≤ c) (hlt : c ≤ 128) :
    idal_create_words page_is_valid zero_page (u64 x) (c * 4096) =
      (List.range c).map fun j => idal_word page_is_valid zero_page (u64 ((x + j * PAGE_SIZE : Nat) : Int)) := by
  obtain ⟨n, rfl⟩ := Nat.exists_eq_add_of_le' hc
  have halign : u64 x % PAGE_SIZE = 0 := by
    unfold u64 PAGE_SIZE
    omega
  have hwords : u32 (((u64 x % PAGE_SIZE + (n + 1) * 4096 + (PAGE_SIZE - 1)) / PAGE_SIZE : Nat) : Int) = n + 1 := by
    rw [halign]
    unfold u32 PAGE_SIZE
    omega
  have hleft : u32 (((n + 1 : Nat) : Int) - 1) = n := by
    apply u32_eq <;> omega
  rw [idal_create_words, hwords]
  simp only [hleft, halign, Nat.sub_zero]
  rw [idal_loop_eq, List.range_succ_eq_map, List.map_cons, List.map_map, Nat.zero_mul, Nat.add_zero]
  rfl

end

/-! ## The tracks -/

section
variable {dev : EckdDevice} {first count i : Nat}

theorem before_zero : before dev first count 0 = 0 := by
  have := Nat.div_mul_le_self first dev.bpt
  rw [before, Nat.add_zero, Nat.max_eq_left this]
  omega

theorem before_tracks (hcount : 1 ≤ count) : before dev first count (tracks dev first count) = count := by
  have hle : first / dev.bpt ≤ (first + count - 1) / dev.bpt := Nat.div_le_div_right (by omega)
  have hlast := Nat.lt_div_mul_add (a := first + count - 1) (b := dev.bpt) dev.bpt_pos
  have htrack : first / dev.bpt + tracks dev first count = (first + count - 1) / dev.bpt + 1 := by
    unfold tracks
    omega
  rw [before, htrack, Nat.succ_mul]
  omega

theorem before_spec (hi : i < tracks dev first count) (hcount : 1 ≤ count) :
    (first / dev.bpt + i) * dev.bpt ≤ first + before dev first count i ∧
      first + before dev first count i < (first / dev.bpt + i) * dev.bpt + dev.bpt ∧
        before dev first count i < count := by
  have hfirst := Nat.div_mul_le_self first dev.bpt
  have hnext := Nat.lt_div_mul_add (a := first) (b := dev.bpt) dev.bpt_pos
  have hlast := Nat.div_mul_le_self (first + count - 1) dev.bpt
  have htrack : (first / dev.bpt + i) * dev.bpt ≤ (first + count - 1) / dev.bpt * dev.bpt := by
    have hmono : first / dev.bpt ≤ (first + count - 1) / dev.bpt := Nat.div_le_div_right (by omega)
    refine Nat.mul_le_mul_right _ ?_
    unfold tracks at hi
    omega
  have hle : first / dev.bpt * dev.bpt ≤ (first / dev.bpt + i) * dev.bpt :=
    Nat.mul_le_mul_right _ (Nat.le_add_right ..)
  unfold before
  omega

theorem before_succ (hi : i < tracks dev first count) (hcount : 1 ≤ count) :
    min (count - before dev first count i) (dev.bpt - (first + before dev first count i) % dev.bpt) =
      blocks_on dev first count i ∧ before dev first count (i + 1) =
        before dev first count i + blocks_on dev first count i ∧
      1 ≤ blocks_on dev first count i := by
  obtain ⟨hle, hlt, hleft⟩ := before_spec hi hcount
  have hmod : (first + before dev first count i) % dev.bpt =
    first + before dev first count i - (first / dev.bpt + i) * dev.bpt := by
    obtain ⟨r, hr⟩ := Nat.exists_eq_add_of_le hle
    rw [hr, Nat.add_sub_cancel_left, Nat.add_comm, Nat.add_mul_mod_self_right, Nat.mod_eq_of_lt (by omega)]
  have hsucc : before dev first count (i + 1) =
      min (first + count) ((first / dev.bpt + i) * dev.bpt + dev.bpt) - first := by
    rw [before, ← Nat.add_assoc, Nat.succ_mul, Nat.max_eq_right (by omega)]
  rw [hmod, blocks_on, hsucc]
  omega

theorem before_le (i : Nat) : before dev first count i ≤ count := by
  unfold before
  omega

variable (dev first count) in
theorem sum_blocks : ∀ n ≤ tracks dev first count, 1 ≤ count →
    ((List.range n).map fun i => blocks_on dev first count i * 4096).sum = before dev first count n * 4096
  | 0, _, _ => by rw [before_zero]; rfl
  | n + 1, hn, hcount => by
    rw [List.range_succ, List.map_append, List.sum_append, sum_blocks n (Nat.le_of_succ_le hn) hcount,
      (before_succ hn hcount).2.1, Nat.add_mul]
    simp

end

/-! ## One round -/

section
variable (dev : EckdDevice) (first count : Nat) (page_is_valid : Nat → Bool) (zero_page addr : Nat) (cmd : Cmd)

def ccws_upto (i : Nat) : List Ccw := (List.range i).map fun k =>
  ⟨cmd, u16 ((blocks_on dev first count k * 4096 : Nat) : Int), before dev first count k, true, decide (k + 1 ≠ i)⟩

def idaws_upto (n : Nat) : List Nat :=
  (List.range n).map fun k => idal_word page_is_valid zero_page (u64 ((addr + k * PAGE_SIZE : Nat) : Int))

def at_track (i : Nat) : TrkIo where
  seg_len := (count - before dev first count i) * 4096
  recid := u32 ((first + before dev first count i : Nat) : Int)
  len_to_track_end := 0
  new_track := true
  dst := u64 ((addr + before dev first count i * 4096 : Nat) : Int)
  idaw_dst := 0
  idaw_len := 0
  ccws := ccws_upto dev first count cmd i
  idaws := idaws_upto page_is_valid zero_page addr (before dev first count i)

end

section
variable {dev : EckdDevice} {first count : Nat} {page_is_valid : Nat → Bool} {zero_page addr : Nat} {cmd : Cmd}

theorem ccws_upto_succ (i : Nat) : chain_last (ccws_upto dev first count cmd i) ++
    [⟨cmd, u16 ((blocks_on dev first count i * 4096 : Nat) : Int), before dev first count i, true, false⟩] =
    ccws_upto dev first count cmd (i + 1) := by
  have hchained : chain_last (ccws_upto dev first count cmd i) = (List.range i).map fun k =>
      ⟨cmd, u16 ((blocks_on dev first count k * 4096 : Nat) : Int), before dev first count k, true,
        decide (k + 1 ≠ i + 1)⟩ := by
    refine List.ext_getElem (by simp [chain_last, ccws_upto]) fun k hk hk' => ?_
    have hki : k < i := by simpa using hk'
    have hne : k + 1 ≠ i + 1 := by omega
    simp only [chain_last, ccws_upto, List.getElem_modify, List.length_map, List.length_range, List.getElem_map,
      List.getElem_range, hne, ne_eq, not_false_eq_true, decide_true]
    by_cases hlast : i - 1 = k
    · rw [if_pos hlast]
    · rw [if_neg hlast]
      have : k + 1 ≠ i := by omega
      simp [this]
  rw [hchained, ccws_upto, List.range_succ, List.map_append, List.map_singleton]
  simp

theorem length_idaws_upto (n : Nat) : (idaws_upto page_is_valid zero_page addr n).length = n := by
  rw [idaws_upto, List.length_map, List.length_range]

variable (page_is_valid zero_page) in
theorem idaws_upto_add {n c : Nat} (haddr : addr % 4096 = 0) (hc : 1 ≤ c) (hlt : c ≤ 128) :
    idaws_upto page_is_valid zero_page addr n ++
      idal_create_words page_is_valid zero_page (u64 ((addr + n * 4096 : Nat) : Int)) (c * 4096) =
      idaws_upto page_is_valid zero_page addr (n + c) := by
  rw [idal_create_words_eq (by omega) hc hlt, idaws_upto, idaws_upto, List.range_add, List.map_append, List.map_map]
  congr 1
  refine List.map_congr_left fun j _ => ?_
  rw [Function.comp_apply, Nat.add_mul, ← Nat.add_assoc]
  rfl

end

section
variable {dev : EckdDevice} {first count : Nat} {page_is_valid : Nat → Bool} {zero_page addr : Nat} {cmd : Cmd}
variable (hsize : dev.blk_size = 4096) (hcount : 1 ≤ count) (hmax : count ≤ 128) (haddr : addr % 4096 = 0)
  (hend : first + count ≤ 2 ^ 32)
include hsize hcount hmax hend

theorem begin_track_eq {i : Nat} (hi : i < tracks dev first count) :
    begin_track dev cmd (first + count - 1) (at_track dev first count page_is_valid zero_page addr cmd i) =
      { at_track dev first count page_is_valid zero_page addr cmd (i + 1) with
        seg_len := (count - before dev first count i) * 4096
        len_to_track_end := blocks_on dev first count i * 4096
        new_track := false
        dst := u64 ((addr + before dev first count i * 4096 : Nat) : Int)
        idaws := idaws_upto page_is_valid zero_page addr (before dev first count i) } := by
  obtain ⟨hblocks, hsucc, hpos⟩ := before_succ hi hcount
  obtain ⟨-, -, hleft⟩ := before_spec hi hcount
  have hle : before dev first count (i + 1) ≤ count := before_le (i + 1)
  have hrecid : u32 ((first + before dev first count i : Nat) : Int) = first + before dev first count i := by
    apply u32_eq <;> omega
  have htodo : u64 (((first + count - 1 : Nat) : Int) - ((first + before dev first count i : Nat) : Int) + 1) =
      count - before dev first count i := by
    apply u64_eq <;> omega
  have hmin : (if count - before dev first count i < dev.bpt - (first + before dev first count i) % dev.bpt then
      count - before dev first count i else dev.bpt - (first + before dev first count i) % dev.bpt) =
      blocks_on dev first count i := by
    rw [← hblocks]
    split <;> omega
  have hnum : u32 ((blocks_on dev first count i : Nat) : Int) = blocks_on dev first count i := by
    apply u32_eq <;> omega
  have hlen : u32 ((blocks_on dev first count i * 4096 : Nat) : Int) = blocks_on dev first count i * 4096 := by
    apply u32_eq <;> omega
  unfold begin_track at_track
  simp only [hrecid, htodo, hmin, hnum, hsize, hlen, length_idaws_upto, ccws_upto_succ, hsucc, Nat.add_assoc]

include haddr in
theorem trk_step_eq {i : Nat} (hi : i < tracks dev first count) :
    trk_step dev page_is_valid zero_page cmd (first + count - 1)
      (at_track dev first count page_is_valid zero_page addr cmd i) =
      at_track dev first count page_is_valid zero_page addr cmd (i + 1) := by
  obtain ⟨-, hsucc, hpos⟩ := before_succ hi hcount
  have hle : before dev first count (i + 1) ≤ count := before_le (i + 1)
  have hpart : min ((count - before dev first count i) * 4096) (blocks_on dev first count i * 4096) =
      blocks_on dev first count i * 4096 := by omega
  have hlen : u32 ((0 + blocks_on dev first count i * 4096 : Nat) : Int) = blocks_on dev first count i * 4096 := by
    apply u32_eq <;> omega
  have hseg : (count - before dev first count i) * 4096 - blocks_on dev first count i * 4096 =
      (count - before dev first count (i + 1)) * 4096 := by omega
  have hdst : u64 ((u64 ((addr + before dev first count i * 4096 : Nat) : Int) + blocks_on dev first
    count i * 4096 : Nat) : Int) =
      u64 ((addr + before dev first count (i + 1) * 4096 : Nat) : Int) := by
    rw [u64_add, hsucc, Nat.add_mul, Nat.add_assoc]
  have hidaws := idaws_upto_add page_is_valid zero_page (n := before dev first count i)
    haddr hpos (by omega : blocks_on dev first count i ≤ 128)
  rw [trk_step, if_pos (show (at_track dev first count page_is_valid zero_page addr cmd
    i).new_track = true from rfl),
    begin_track_eq hsize hcount hmax hend hi]
  simp only [at_track, hpart, hlen, hseg, hdst, Nat.sub_self, or_true, if_true, decide_true,
    Bool.or_true, hidaws, hsucc]

/-! ## The loop -/

include haddr in
variable (page_is_valid zero_page cmd) in
theorem trk_loop_eq : ∀ (n i : Nat), i + n = tracks dev first count →
    trk_loop dev page_is_valid zero_page cmd (first + count - 1)
      n (at_track dev first count page_is_valid zero_page addr cmd i) =
      some (at_track dev first count page_is_valid zero_page addr cmd (tracks dev first count))
  | 0, i, hi => by
    obtain rfl : i = tracks dev first count := hi
    have hdone : (at_track dev first count page_is_valid zero_page addr cmd
      (tracks dev first count)).seg_len = 0 := by
      show (count - before dev first count (tracks dev first count)) * 4096 = 0
      rw [before_tracks hcount]
      omega
    rw [trk_loop, if_pos hdone]
  | n + 1, i, hi => by
    have hlt : i < tracks dev first count := by omega
    have hmore : (at_track dev first count page_is_valid zero_page addr cmd i).seg_len ≠ 0 := by
      have := (before_spec hlt hcount).2.2
      show (count - before dev first count i) * 4096 ≠ 0
      omega
    rw [trk_loop, if_neg hmore, trk_step_eq hsize hcount hmax haddr hend hlt]
    exact trk_loop_eq n (i + 1) (by omega)

omit hend in
variable (page_is_valid zero_page cmd) in
theorem trk_start_eq (hlt : addr < 2 ^ 64) : trk_start dev addr first (first + count - 1) =
    at_track dev first count page_is_valid zero_page addr cmd 0 := by
  have hcounted : u32 (((first + count - 1 : Nat) : Int) - first + 1) = count := by
    apply u32_eq <;> omega
  have hseg : u32 ((count * 4096 : Nat) : Int) = count * 4096 := by
    apply u32_eq <;> omega
  have hdst : u64 ((addr + 0 * 4096 : Nat) : Int) = addr := by
    apply u64_eq <;> omega
  rw [trk_start, at_track, hcounted, hsize, hseg, before_zero, hdst]
  rfl

end

section
variable {dev : EckdDevice} {page_is_valid : Nat → Bool} {zero_page : Nat} {cmd : Cmd} {last_rec : Nat}

theorem trk_loop_unique : ∀ {n n' : Nat} {s r r' : TrkIo},
    trk_loop dev page_is_valid zero_page cmd last_rec n s = some r →
    trk_loop dev page_is_valid zero_page cmd last_rec n' s = some r' → r = r'
  | n, n', s, r, r', h, h' => by
    by_cases hdone : s.seg_len = 0
    · have hstop : ∀ m, trk_loop dev page_is_valid zero_page cmd last_rec m s = some s := fun m => by
        cases m <;> rw [trk_loop, if_pos hdone]
      rw [hstop] at h h'
      exact Option.some.inj (h.symm.trans h')
    · cases n with
      | zero =>
        rw [trk_loop, if_neg hdone] at h
        cases h
      | succ n =>
        cases n' with
        | zero =>
          rw [trk_loop, if_neg hdone] at h'
          cases h'
        | succ n' =>
          rw [trk_loop, if_neg hdone] at h h'
          exact trk_loop_unique h h'

end

/-! ## Addresses of tracks -/

theorem head_field_lt (cyl head : Nat) : (set_ch_t cyl head).head < 65536 :=
  Nat.or_lt_two_pow (n := 16) (u16_lt _) (Nat.lt_trans (u8_lt _) (by decide))

theorem named_cyl_lt (cyl head : Nat) : (set_ch_t cyl head).named.1 < 2 ^ 28 := by
  have hhead := head_field_lt cyl head
  have hcyl : (set_ch_t cyl head).cyl < 65536 := u16_lt cyl
  rw [Ch.named]
  omega

theorem set_ch_named_iff {cyl head : Nat} (hhead : head < 256) :
    (set_ch_t cyl head).named = (cyl, head) ↔ cyl < 2 ^ 28 ∧ head < 16 := by
  constructor
  · intro h
    have hcyl := named_cyl_lt cyl head
    rw [h] at hcyl
    have hmod : (set_ch_t cyl head).head % 16 = head := congrArg Prod.snd h
    exact ⟨hcyl, by omega⟩
  · rintro ⟨hcyl, hlt⟩
    have hupper : u16 ((cyl / 65536 * 16 : Nat) : Int) = 2 ^ 4 * (cyl / 65536) := by
      apply u16_eq <;> omega
    have hlower : u8 (head : Int) = head := by
      apply u8_eq <;> omega
    have hfield : (set_ch_t cyl head).head = 2 ^ 4 * (cyl / 65536) + head := by
      rw [set_ch_t, hupper, hlower, Nat.two_pow_add_eq_or_of_lt hlt]
    have hcyl' : (set_ch_t cyl head).cyl = cyl % 65536 := by
      show u16 cyl = cyl % 65536
      unfold u16
      omega
    rw [Ch.named, hfield, hcyl', Prod.mk.injEq]
    omega

/-! ## The program of one call -/

section
variable (dev : EckdDevice) (first count : Nat) (page_is_valid : Nat → Bool) (zero_page addr : Nat) (cmd : Cmd)

def program : Program where
  de := fill_DE_data dev (u32 ((first / dev.bpt : Nat) : Int))
    (u32 (((first + count - 1) / dev.bpt : Nat) : Int)) cmd
  lre := fill_LRE_data dev (u32 ((first / dev.bpt : Nat) : Int)) (first % dev.bpt + 1)
    (u32 ((((first + count - 1) / dev.bpt : Nat) : Int) - ((first / dev.bpt : Nat) : Int) + 1)) cmd dev.blk_size
    (if first / dev.bpt = (first + count - 1) / dev.bpt then
      u32 ((dev.blk_size : Int) * (((first + count - 1) % dev.bpt : Nat) - ((first % dev.bpt : Nat) : Int) + 1))
    else u32 ((dev.blk_size : Int) * (((first + count - 1) % dev.bpt : Nat) + 1)))
  ccws := ccws_upto dev first count cmd (tracks dev first count)
  idaws := idaws_upto page_is_valid zero_page addr count

end

section
variable {dev : EckdDevice} {first count : Nat} {page_is_valid : Nat → Bool} {zero_page addr : Nat} {cmd : Cmd}

theorem panic_iff : (∃ steps, io_block dev page_is_valid zero_page cmd steps first addr count =
    some (.error .device_too_small)) ↔
    dev.blk_end < u64 ((first : Int) + count - 1) := by
  constructor
  · rintro ⟨steps, h⟩
    by_contra hfits
    rw [io_block, if_neg hfits] at h
    obtain ⟨p, -, hp⟩ := Option.map_eq_some_iff.mp h
    cases hp
  · intro h
    exact ⟨0, by rw [io_block, if_pos h]⟩

theorem not_exact_of_wrapped (hfirst : 2 ^ 56 ≤ first / dev.bpt) {steps : Nat} {p : Program}
    (h : io_block dev page_is_valid zero_page cmd steps first addr count = some (.ok p)) :
    ¬ Exact dev first count page_is_valid zero_page addr cmd p := by
  intro hexact
  have hnot : ¬ u64 ((first : Int) + count - 1) > dev.blk_end := fun hlarge => by
    rw [io_block, if_pos hlarge] at h
    cases h
  rw [io_block, if_neg hnot] at h
  obtain ⟨q, hq, hp⟩ := Option.map_eq_some_iff.mp h
  obtain rfl : q = p := Except.ok.inj hp
  obtain ⟨s, -, rfl⟩ := Option.map_eq_some_iff.mp hq
  have hlt := named_cyl_lt (u32 ((first / dev.bpt : Nat) : Int) / dev.num_heads)
    (u32 ((first / dev.bpt : Nat) : Int) % dev.num_heads)
  have hcyl : (set_ch_t (u32 ((first / dev.bpt : Nat) : Int) / dev.num_heads)
      (u32 ((first / dev.bpt : Nat) : Int) % dev.num_heads)).named.1 = first / dev.bpt / dev.num_heads :=
    congrArg Prod.fst hexact.seek_addr
  have hle : 2 ^ 48 ≤ first / dev.bpt / dev.num_heads := by
    rw [Nat.le_div_iff_mul_le dev.heads_pos]
    have := dev.heads_lt
    omega
  omega

end

section
variable {dev : EckdDevice} {first count : Nat} {page_is_valid : Nat → Bool} {zero_page addr : Nat} {cmd : Cmd}
variable (hsize : dev.blk_size = 4096) (hcount : 1 ≤ count) (hmax : count ≤ 128)
include hcount

theorem tracks_le_count : tracks dev first count ≤ count := by
  have hlast := Nat.lt_div_mul_add (a := first) (b := dev.bpt) dev.bpt_pos
  have hdiv : (first + count - 1) / dev.bpt < first / dev.bpt + count := by
    have hmul : count + dev.bpt ≤ count * dev.bpt + 1 := by
      obtain ⟨b, hb⟩ := Nat.exists_eq_add_of_le' dev.bpt_pos
      obtain ⟨c, hc⟩ := Nat.exists_eq_add_of_le' hcount
      rw [hb, hc, Nat.add_mul, Nat.mul_add]
      omega
    rw [Nat.div_lt_iff_lt_mul dev.bpt_pos, Nat.add_mul]
    omega
  unfold tracks
  omega

include hsize hmax

theorem io_block_eq {steps : Nat} {p : Program} (haddr : addr % 4096 = 0) (hlt : addr < 2 ^ 64)
    (hend : first + count ≤ 2 ^ 32)
    (hnot : ¬ dev.blk_end < u64 ((first : Int) + count - 1))
    (h : io_block dev page_is_valid zero_page cmd steps first addr count = some (.ok p)) :
    p = program dev first count page_is_valid zero_page addr cmd := by
  have hlast : u64 ((first : Int) + count - 1) = first + count - 1 := by
    apply u64_eq <;> omega
  rw [io_block, if_neg hnot, hlast] at h
  obtain ⟨q, hq, hp⟩ := Option.map_eq_some_iff.mp h
  obtain rfl : q = p := Except.ok.inj hp
  obtain ⟨s, hs, rfl⟩ := Option.map_eq_some_iff.mp hq
  rw [trk_start_eq page_is_valid zero_page cmd hsize hcount hmax hlt] at hs
  have hdone := trk_loop_eq page_is_valid zero_page cmd hsize hcount hmax haddr hend
    (tracks dev first count) 0 (Nat.zero_add _)
  rw [trk_loop_unique hs hdone, program, at_track, before_tracks hcount]

variable (page_is_valid zero_page cmd) in
theorem io_block_ends (haddr : addr % 4096 = 0) (hlt : addr < 2 ^ 64) (hend : first + count ≤ 2 ^ 32)
    (hnot : ¬ dev.blk_end < u64 ((first : Int) + count - 1)) :
    ∃ steps p, io_block dev page_is_valid zero_page cmd steps first addr count = some (.ok p) := by
  have hlast : u64 ((first : Int) + count - 1) = first + count - 1 := by
    apply u64_eq <;> omega
  have hdone := trk_loop_eq page_is_valid zero_page cmd hsize hcount hmax haddr hend
    (tracks dev first count) 0 (Nat.zero_add _)
  rw [← trk_start_eq page_is_valid zero_page cmd hsize hcount hmax hlt] at hdone
  obtain ⟨p, hp⟩ := Option.isSome_iff_exists.mp
    (show (io_block_trk dev page_is_valid zero_page cmd (tracks dev first count) addr
      first (first + count - 1) (first / dev.bpt) ((first + count - 1) / dev.bpt) (first % dev.bpt)
      ((first + count - 1) % dev.bpt)).isSome = true by rw [io_block_trk, hdone]; rfl)
  exact ⟨tracks dev first count, p, by rw [io_block, if_neg hnot, hlast, hp]; rfl⟩

variable (page_is_valid zero_page addr cmd) in
theorem program_exact_iff (hend : first + count ≤ 2 ^ 32) :
    Exact dev first count page_is_valid zero_page addr cmd (program dev first count page_is_valid
      zero_page addr cmd) ↔
      Fits dev first count := by
  have hbpt := dev.bpt_lt
  have hheads := dev.heads_lt
  have hmod : first % dev.bpt < dev.bpt := Nat.mod_lt _ dev.bpt_pos
  have hhead : first / dev.bpt % dev.num_heads < 256 := Nat.lt_trans (Nat.mod_lt _ dev.heads_pos) hheads
  have htrack : u32 ((first / dev.bpt : Nat) : Int) = first / dev.bpt := by
    have hle := Nat.div_le_self first dev.bpt
    generalize first / dev.bpt = t at hle ⊢
    unfold u32
    omega
  have hseek : (program dev first count page_is_valid zero_page addr cmd).lre.seek_addr =
      set_ch_t (first / dev.bpt / dev.num_heads) (first / dev.bpt % dev.num_heads) := by
    show set_ch_t (u32 ((first / dev.bpt : Nat) : Int) / _) (u32 ((first / dev.bpt : Nat) : Int) % _) = _
    rw [htrack]
  have htracks : tracks dev first count ≤ count := tracks_le_count hcount
  constructor
  · intro h
    obtain ⟨hcyl, hlow⟩ := (set_ch_named_iff hhead).mp (hseek ▸ h.seek_addr)
    refine ⟨?_, fun i hi => ?_, hcyl, hlow⟩
    · have hfit := h.ccws_fit
      rwa [program, ccws_upto, List.length_map, List.length_range] at hfit
    · have hccw := congrArg (·[i]?) h.ccws
      simp only [program, ccws_upto, List.getElem?_map, List.getElem?_range hi, Option.map_some, Option.some.injEq,
        Ccw.mk.injEq, hsize] at hccw
      have hlen := hccw.2.1
      have := u16_lt ((blocks_on dev first count i * 4096 : Nat) : Int)
      omega
  · intro h
    have hnamed := (set_ch_named_iff hhead).mpr ⟨h.cyl_lt, h.head_lt⟩
    have hccws : ccws_upto dev first count cmd (tracks dev first count) =
      (List.range (tracks dev first count)).map fun i =>
        ⟨cmd, blocks_on dev first count i * dev.blk_size, before dev first count i, true,
          decide (i + 1 ≠ tracks dev first count)⟩ := by
      refine List.map_congr_left fun i hi => ?_
      have hlt := h.blocks_lt i (List.mem_range.mp hi)
      have hlen : u16 ((blocks_on dev first count i * 4096 : Nat) : Int) = blocks_on dev first count i * 4096 := by
        apply u16_eq <;> omega
      rw [hlen, hsize]
    rw [← hseek] at hnamed
    refine ⟨?_, ?_, hccws, ?_, rfl, hnamed, hnamed, ?_, ?_⟩
    · rw [program, ccws_upto, List.length_map, List.length_range]
      exact h.tracks_le
    · rw [program, length_idaws_upto, ECKD_CCW_MAX_COUNT_TRK, ECKD_BLK_PER_TRK]
      omega
    · show ((ccws_upto dev first count cmd (tracks dev first count)).map Ccw.count).sum = _
      have hsum := sum_blocks dev first count _ (Nat.le_refl _) hcount
      rw [before_tracks hcount] at hsum
      rw [hccws, List.map_map, hsize, ← hsum]
      rfl
    · show u8 ((first % dev.bpt + 1 : Nat) : Int) = _
      unfold u8
      omega
    · show u8 ((u32 ((((first + count - 1) / dev.bpt : Nat) : Int) - ((first / dev.bpt : Nat) :
        Int) + 1) : Nat) : Int) = _
      have hle : first / dev.bpt ≤ (first + count - 1) / dev.bpt := Nat.div_le_div_right (by omega)
      have hnum : u32 ((((first + count - 1) / dev.bpt : Nat) : Int) - ((first / dev.bpt : Nat) : Int) + 1) =
          tracks dev first count := by
        have hsmall : tracks dev first count ≤ 128 := Nat.le_trans htracks hmax
        unfold tracks at hsmall ⊢
        unfold u32
        omega
      rw [hnum]
      unfold u8
      omega

end

/-! ## The condition -/

/-- The program for a request is exact exactly if the request touches at most twelve tracks, at most fifteen
blocks of each, and the first track has an address of 28 and four bits. -/
theorem track_io_exact_iff {dev : EckdDevice} {first count : Nat} {page_is_valid : Nat → Bool}
    {zero_page addr : Nat} {cmd : Cmd}
    (hsize : dev.blk_size = 4096) (hcount : 1 ≤ count) (hmax : count ≤ ECKD_BLK_PER_IO_TRK)
      (hfirst : first < 2 ^ 64)
    (haddr : addr % PAGE_SIZE = 0) (hlt : addr < 2 ^ 64) :
    Served dev first count page_is_valid zero_page addr cmd ↔
      dev.blk_end < u64 ((first : Int) + count - 1) ∨ Fits dev first count := by
  rw [ECKD_BLK_PER_IO_TRK] at hmax
  rw [PAGE_SIZE] at haddr
  rw [Served, panic_iff]
  refine or_congr_right' fun hnot => ?_
  have hblk := dev.blk_end_lt
  rcases Nat.lt_or_ge (2 ^ 64) (first + count) with hwrapped | hinside
  · -- the check sees a small number, and the first track is far outside
    have hfar : 2 ^ 56 ≤ first / dev.bpt := by
      rw [Nat.le_div_iff_mul_le dev.bpt_pos]
      have := dev.bpt_lt
      omega
    have hle : 2 ^ 48 ≤ first / dev.bpt / dev.num_heads := by
      rw [Nat.le_div_iff_mul_le dev.heads_pos]
      have := dev.heads_lt
      omega
    constructor
    · rintro ⟨steps, p, h, hexact⟩
      exact absurd hexact (not_exact_of_wrapped hfar h)
    · intro h
      have := h.cyl_lt
      omega
  · have hend : first + count ≤ 2 ^ 32 := by
      unfold u64 at hnot
      omega
    rw [← program_exact_iff page_is_valid zero_page addr cmd hsize hcount
      hmax hend]
    constructor
    · rintro ⟨steps, p, h, hexact⟩
      rwa [io_block_eq hsize hcount hmax haddr hlt hend hnot h] at hexact
    · intro hexact
      obtain ⟨steps, p, h⟩ := io_block_ends page_is_valid zero_page cmd hsize hcount hmax
        haddr hlt hend hnot
      obtain rfl := io_block_eq hsize hcount hmax haddr hlt hend hnot h
      exact ⟨steps, _, h, hexact⟩

def wide_device : EckdDevice where
  blk_end := 1000000
  blk_size := 4096
  num_heads := 15
  bpt := 12
  blk_end_lt := by decide
  heads_pos := by decide
  heads_lt := by decide
  bpt_pos := by decide
  bpt_lt := by decide

theorem wide_fits : Fits wide_device 131 128 :=
  ⟨by decide, by decide, by decide, by decide⟩

theorem track_io_exact_wide : Served wide_device 131 128 (fun _ => true) 0 65536 .write_track_data :=
  (track_io_exact_iff rfl (by decide) (by decide) (by decide) rfl (by decide)).mpr (Or.inr wide_fits)

def narrow_device : EckdDevice := { wide_device with bpt := 10, bpt_pos := by decide, bpt_lt := by decide }

/-- Thirteen data CCWs, the last one over the first address word. -/
theorem thirteen_tracks : ¬ ∀ (dev : EckdDevice) (first count : Nat) (page_is_valid : Nat → Bool)
    (zero_page addr : Nat) (cmd : Cmd),
    dev.blk_size = 4096 → 1 ≤ count → count ≤ ECKD_BLK_PER_IO_TRK → first < 2 ^ 64 →
      addr % PAGE_SIZE = 0 → addr < 2 ^ 64 →
    Served dev first count page_is_valid zero_page addr cmd := by
  intro h
  have hlt : ¬ narrow_device.blk_end < u64 ((0 : Int) + 128 - 1) := by decide
  rcases h narrow_device 0 128 (fun _ => true) 0 65536 .write_track_data rfl (by decide) (by decide)
    (by decide) rfl (by decide)
    with hpanic | ⟨steps, p, hrun, hexact⟩
  · exact hlt (panic_iff.mp hpanic)
  · obtain rfl := io_block_eq rfl (by decide) (by decide) rfl (by decide) (by decide) hlt hrun
    have hfits := (program_exact_iff _ _ _ _ rfl (by decide) (by decide) (by decide)).mp hexact
    exact absurd hfits.tracks_le (by decide)

end Zipl.Eckd2dump
