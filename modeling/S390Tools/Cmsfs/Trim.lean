import S390Tools.Cmsfs.Read
import S390Tools.Lib.Run

/-!
# Trimming the last record (cmsfs-fuse/cmsfs-fuse.c)

A truncated file ends in a record that is cut behind an offset. The rest of the
block of the last kept byte is wiped, and the extensions behind it are freed.
-/

namespace Cmsfs

open Word

/-- The part of the disk and the file that a cut changes, with the ranges that `_zero` was called for. -/
structure TrimState where
  disk : Disk
  nr_blocks : Int
  nr_null_blocks : Int
  blist : List Block
  zeroed : List (Nat × Int)

/-- `crash` is a `memset` with a negative length, taken as a size. -/
inductive TrimStop
  | endless
  | crash
  | wipe (e : Fail)
  | free (e : Fail)
  | offset
  deriving DecidableEq

def VAR_RECORD_SPANNED : Nat := 4294967295

section
variable (c : Device) (format : RecordFormat)

/-- `_zero`, whose length is an `int` that is passed as a size. -/
def zero_range (addr : Nat) (len : Int) (st : TrimState) : Except TrimStop TrimState :=
  let st := { st with zeroed := st.zeroed ++ [(addr, len)] }
  if ((addr : Int) + len - 1) / c.blksize > (addr : Int) / c.blksize then .error (.wipe .DIE)
  else if addr < c.label ∨ c.size < addr then .error (.wipe .BUG)
  else if len < 0 then .error .crash
  else .ok { st with disk := { st.disk with mem := zero st.disk.mem addr len.toNat } }

def adjust_displacement (bnr disp : Nat) (st : TrimState) : TrimState :=
  { st with
    blist := st.blist.modify bnr fun b => if b.disp = VAR_RECORD_SPANNED then { b with disp := disp } else b }

/-- The wipe of the block behind the first `wipe_off` bytes of a piece. -/
def wipe_piece (disk_start wipe_off : Nat) (wipe_len : Int) (block_nr : Nat) (st : TrimState) :
    Except TrimStop TrimState := do
  let st ← if disk_start ≠ NULL_BLOCK then zero_range c (disk_start + wipe_off) wipe_len st else pure st
  pure <| match format with
    | .var => adjust_displacement block_nr ((disk_start + wipe_off) % c.blksize) st
    | .fixed => st

def free_extension (rext : RecordExt) (st : TrimState) : Except TrimStop TrimState :=
  match free_block c rext.disk_start st.disk with
  | .error e => .error (.free e)
  | .ok disk =>
    .ok { st with
      disk := disk
      nr_blocks := st.nr_blocks - 1
      nr_null_blocks :=
        if rext.disk_start = NULL_BLOCK ∧ format = .fixed then st.nr_null_blocks - 1 else st.nr_null_blocks }

def wipe_len (rec : Record) (wipe_off : Nat) : Int :=
    (c.blksize : Int) - ((rec.disk_start % c.blksize : Nat) + wipe_off)

/-- The loop over the extensions; `continue` leaves the extension where it is. -/
@[grind =]
def trim_extensions (rec : Record) (offset : Nat) : Nat → List RecordExt → Nat → Bool → TrimState →
    Except TrimStop TrimState
  | _, [], _, _, st => .ok st
  | 0, _ :: _, _, _, _ => .error .endless
  | steps + 1, rext :: exts, file_start, free, st =>
    if free then do
      let st ← free_extension c format rext st
      trim_extensions rec offset steps exts (file_start + rext.len) free st
    else if file_start ≤ offset ∧ offset < file_start + rext.len then
      let wipe_off := offset + 1 - file_start
      if wipe_len c rec wipe_off = 0 then trim_extensions rec offset steps (rext :: exts) file_start free st
      else do
        let st ← wipe_piece c format rext.disk_start wipe_off (wipe_len c rec wipe_off) rext.block_nr st
        trim_extensions rec offset steps exts (file_start + rext.len) true st
    else trim_extensions rec offset steps exts (file_start + rext.len) free st

/-- `trim_record` up to the update of the header. -/
def trim_pieces (rec : Record) (offset steps : Nat) (st : TrimState) : Except TrimStop TrimState :=
  if offset_in_record offset rec = false then .error .offset
  else if rec.file_start ≤ offset ∧ offset < rec.file_start + rec.first_block_len then
    let wipe_off := offset + 1 - rec.file_start
    if wipe_len c rec wipe_off = 0 then
      trim_extensions c format rec offset steps rec.ext (rec.file_start + rec.first_block_len) false st
    else do
      let st ← wipe_piece c format rec.disk_start wipe_off (wipe_len c rec wipe_off) rec.block_nr st
      trim_extensions c format rec offset steps rec.ext (rec.file_start + rec.first_block_len) true st
  else trim_extensions c format rec offset steps rec.ext (rec.file_start + rec.first_block_len) false st

def setByte (m : Mem) (a : Nat) (b : UInt8) : Mem := fun x => if x = a then b else m x

def writeBytes (addr : Nat) (bs : List UInt8) (d : Disk) : Except Fail Disk := do
  access c bs.length addr
  pure { d with mem := (List.range bs.length).foldl (fun m i => setByte m (addr + i) (bs.getD i 0)) d.mem }

def update_var_header_len (blist : List Block) (header : Nat) (rec : Record) (d : Disk) : Except Fail Disk :=
  let high := UInt8.ofNat (header / 256)
  let low := UInt8.ofNat header
  let split := if rec.disk_start % c.blksize = 0 then 2 else if rec.disk_start % c.blksize = 1 then 1 else 0
  if split = 0 then writeBytes c (rec.disk_start - 2) [high, low] d
  else if rec.block_nr = 0 then .error .BUG
  else
    let prev_block_end := ((blist.getD (rec.block_nr - 1) default).disk_addr / c.blksize + 1) * c.blksize - 1
    if split = 1 then do
      let d ← writeBytes c (rec.disk_start - 1) [low] d
      writeBytes c prev_block_end [high] d
    else writeBytes c (prev_block_end - 1) [high, low] d

def trim_record (rec : Record) (offset steps : Nat) (st : TrimState) :
    Except TrimStop (TrimState × Except Fail Record) := do
  let st ← trim_pieces c format rec offset steps st
  match format with
  | .fixed => pure (st, .ok rec)
  | .var =>
    let header := u16 ((offset : Int) + 1 - rec.file_start)
    match update_var_header_len c st.blist header rec st.disk with
    | .error e => pure (st, .error e)
    | .ok disk => pure ({ st with disk := disk }, .ok { rec with total_len := header })

/-! ## Cuts -/

def locate : List (Nat × Nat) → Nat → Option (Nat × Nat)
  | [], _ => none
  | p :: ps, off => if off < p.2 then some (p.1, off) else locate ps (off - p.2)

/-- A record of the file: its pieces lie in blocks of the disk, those of the extensions are in use and different. -/
structure Record.Placed (d : Disk) (rec : Record) : Prop where
  blksize : 0 < c.blksize
  total_len : rec.total_len = (rec.pieces.map Prod.snd).sum
  inside : ∀ p ∈ rec.pieces, p.1 ≠ NULL_BLOCK → 0 < p.2 →
    c.label ≤ p.1 ∧ p.1 + p.2 ≤ c.size ∧ p.1 % c.blksize + p.2 ≤ c.blksize
  used : ∀ e ∈ rec.ext, e.disk_start ≠ NULL_BLOCK → d.amap (e.disk_start / c.blksize) = true
  nodup : ((rec.ext.filter fun e => e.disk_start ≠ NULL_BLOCK).map fun e => e.disk_start / c.blksize).Nodup

/-- The ranges wipe what is behind the byte number `i` of a piece at `s`, up to the end of its block. -/
def WipedBehind (s i : Nat) (zeroed : List (Nat × Int)) : Prop :=
  (∀ z ∈ zeroed, s ≠ NULL_BLOCK ∧ z.1 = s + i + 1 ∧ 0 < z.2 ∧ (z.1 : Int) + z.2 =
    ((s + i) / c.blksize + 1 : Nat) * c.blksize) ∧
    (s ≠ NULL_BLOCK → (s + i + 1) % c.blksize ≠ 0 → zeroed ≠ [])

/-- The extensions, from the file offset `file_start` on, that start behind the byte at `offset`. -/
@[grind =]
def exts_behind (offset : Nat) : List RecordExt → Nat → List RecordExt
  | [], _ => []
  | rext :: exts, file_start =>
    if offset < file_start then rext :: exts else exts_behind offset exts (file_start + rext.len)

/-- The blocks of the extensions, and no others, are free and no longer counted. -/
def Freed (exts : List RecordExt) (st st' : TrimState) : Prop :=
  st'.nr_blocks = st.nr_blocks - exts.length ∧ ∀ b, st'.disk.amap b = true ↔
    st.disk.amap b = true ∧ ∀ e ∈ exts, e.disk_start ≠ NULL_BLOCK → e.disk_start / c.blksize ≠ b

/-- The walk over the extensions ends, it wipes the block of the last kept byte behind this byte, and it frees the
extensions behind it. -/
def TrimsInBounds (rec : Record) (offset : Nat) (st : TrimState) : Prop :=
  ∃ steps r s i, trim_record c format rec offset steps { st with zeroed := [] } = .ok r ∧
    locate rec.pieces (offset - rec.file_start) = some (s, i) ∧ WipedBehind c s i r.1.zeroed ∧
      Freed c (exts_behind offset rec.ext (rec.file_start + rec.first_block_len)) st r.1

/-- The cut is in the first piece, and not at the end of its block if there are extensions; or it is in an
extension that is a null block or starts at the same place of its block as the record, and the byte behind the
cut is not the end of a block that starts as the first one does. -/
def CutFits (rec : Record) (offset : Nat) : Prop :=
  (offset < rec.file_start + rec.first_block_len ∧
      (rec.disk_start % c.blksize + (offset - rec.file_start) + 1 = c.blksize → rec.ext = [])) ∨
    ∀ s i, locate rec.pieces (offset - rec.file_start) = some (s, i) →
      rec.disk_start % c.blksize + i + 1 ≠ c.blksize ∧
        (s = NULL_BLOCK ∨ s % c.blksize = rec.disk_start % c.blksize)

/-! ## Wiping -/

variable {c} {format}

theorem zero_range_effect {addr : Nat} {len : Int} {st st' : TrimState} (h : zero_range c addr len st = .ok st') :
    st'.zeroed = st.zeroed ++ [(addr, len)] ∧ st'.nr_blocks = st.nr_blocks ∧ st'.disk.amap = st.disk.amap := by
  unfold zero_range at h
  dsimp only at h
  split at h
  · cases h
  · split at h
    · cases h
    · split at h
      · cases h
      · obtain rfl := Except.ok.inj h
        exact ⟨rfl, rfl, rfl⟩

theorem zero_range_ok {s off : Nat} {len : Int} (st : TrimState) (hblk : 0 < c.blksize) (hlen : 0 < len)
    (hend : ((s % c.blksize + off : Nat) : Int) + len = c.blksize) (hlabel : c.label ≤ s)
      (hsize : s + off ≤ c.size) :
    ∃ st', zero_range c (s + off) len st = .ok st' := by
  have hlt : s % c.blksize + off < c.blksize := by omega
  have hdm := Nat.div_add_mod s c.blksize
  have hstart : ((s + off : Nat) : Int) / c.blksize = (s / c.blksize : Nat) := by
    have : (s + off) / c.blksize = s / c.blksize := by
      rw [← hdm, Nat.add_assoc, Nat.mul_add_div hblk, Nat.div_eq_of_lt hlt, Nat.add_zero, Nat.mul_add_div hblk,
        Nat.div_eq_of_lt (Nat.mod_lt _ hblk), Nat.add_zero]
    exact_mod_cast this
  have hstop : (((s + off : Nat) : Int) + len - 1) / c.blksize = (s / c.blksize : Nat) := by
    have he : ((s + off : Nat) : Int) + len - 1 =
      ((c.blksize * (s / c.blksize) + (c.blksize - 1) : Nat) : Int) := by
      have hcast : ((c.blksize * (s / c.blksize) + s % c.blksize : Nat) : Int) = (s : Nat) := by rw [hdm]
      push_cast at hcast hend ⊢
      omega
    have hd : (c.blksize * (s / c.blksize) + (c.blksize - 1)) / c.blksize = s / c.blksize := by
      rw [Nat.mul_add_div hblk, Nat.div_eq_of_lt (Nat.sub_lt hblk Nat.one_pos), Nat.add_zero]
    rw [he]
    exact_mod_cast hd
  unfold zero_range
  dsimp only
  rw [if_neg (by rw [hstart, hstop]; exact lt_irrefl _), if_neg (by omega), if_neg (by omega)]
  exact ⟨_, rfl⟩

theorem wipe_piece_effect {s off bnr : Nat} {len : Int} {st st' : TrimState}
    (h : wipe_piece c format s off len bnr st = .ok st') :
    st'.zeroed = st.zeroed ++ (if s ≠ NULL_BLOCK then [(s + off, len)] else []) ∧
      st'.nr_blocks = st.nr_blocks ∧ st'.disk.amap = st.disk.amap := by
  unfold wipe_piece at h
  by_cases h0 : s ≠ NULL_BLOCK
  · rw [if_pos h0] at h ⊢
    obtain ⟨st₁, hz, h⟩ := Run.bind_eq_ok h
    have hz' := zero_range_effect hz
    obtain rfl := Except.ok.inj h
    cases format with
    | fixed => exact hz'
    | var => exact hz'
  · rw [if_neg h0] at h ⊢
    obtain rfl := Except.ok.inj h
    rw [List.append_nil]
    cases format with
    | fixed => exact ⟨rfl, rfl, rfl⟩
    | var => exact ⟨rfl, rfl, rfl⟩

theorem wipe_piece_ok {s off : Nat} {len : Int} (bnr : Nat) (st : TrimState) (hblk : 0 < c.blksize)
    (hin : s ≠ NULL_BLOCK → 0 < len ∧ ((s % c.blksize + off : Nat) : Int) + len = c.blksize ∧ c.label ≤ s ∧
      s + off ≤ c.size) :
    ∃ st', wipe_piece c format s off len bnr st = .ok st' := by
  unfold wipe_piece
  by_cases h0 : s ≠ NULL_BLOCK
  · obtain ⟨hlen, hend, hlabel, hsize⟩ := hin h0
    obtain ⟨st₁, hz⟩ := zero_range_ok st hblk hlen hend hlabel hsize
    rw [if_pos h0, hz]
    exact ⟨_, rfl⟩
  · rw [if_neg h0]
    exact ⟨_, rfl⟩

/-! ## The walk over the extensions -/

variable {rec : Record} {offset : Nat}

theorem Freed.refl (st : TrimState) : Freed c [] st st :=
  ⟨(Int.sub_zero _).symm, fun _ => ⟨fun h => ⟨h, fun _ he => absurd he List.not_mem_nil⟩, And.left⟩⟩

theorem Freed.cons {rext : RecordExt} {exts : List RecordExt} {st st₁ st' : TrimState}
    (h : free_extension c format rext st = .ok st₁) (hrest : Freed c exts st₁ st') :
      Freed c (rext :: exts) st st' := by
  have hone : st₁.nr_blocks = st.nr_blocks - 1 ∧ ∀ b, st₁.disk.amap b = true ↔
      st.disk.amap b = true ∧ (rext.disk_start ≠ NULL_BLOCK → rext.disk_start / c.blksize ≠ b) := by
    unfold free_extension at h
    cases hfree : free_block c rext.disk_start st.disk with
    | error e =>
      rw [hfree] at h
      cases h
    | ok disk =>
      rw [hfree] at h
      obtain rfl := Except.ok.inj h
      refine ⟨rfl, fun b => ?_⟩
      unfold free_block at hfree
      by_cases h0 : rext.disk_start = 0
      · rw [if_pos h0] at hfree
        obtain rfl := Except.ok.inj hfree
        exact ⟨fun hb => ⟨hb, fun hne => absurd h0 hne⟩, And.left⟩
      · rw [if_neg h0] at hfree
        split at hfree
        · obtain rfl := Except.ok.inj hfree
          show Function.update st.disk.amap (rext.disk_start / c.blksize) false b = true ↔ _
          by_cases hb : b = rext.disk_start / c.blksize
          · rw [hb, Function.update_self]
            exact iff_of_false Bool.false_ne_true fun hh => hh.2 h0 rfl
          · rw [Function.update_of_ne hb]
            exact ⟨fun hh => ⟨hh, fun _ he => hb he.symm⟩, And.left⟩
        · cases hfree
  obtain ⟨hcount, hamap⟩ := hone
  refine ⟨?_, fun b => ?_⟩
  · rw [hrest.1, hcount, List.length_cons]
    omega
  · rw [hrest.2, hamap, List.forall_mem_cons, and_assoc]

theorem Freed.of_eq {exts : List RecordExt} {st st₁ st' : TrimState} (h : Freed c exts st₁ st')
    (heq : st₁.nr_blocks = st.nr_blocks ∧ st₁.disk.amap = st.disk.amap) : Freed c exts st st' := by
  unfold Freed at h ⊢
  rw [← heq.1, ← heq.2]
  exact h

theorem exts_behind_first {exts : List RecordExt} {file_start : Nat} (h : offset < file_start) :
    exts_behind offset exts file_start = exts := by
  cases exts with
  | nil => rw [exts_behind]
  | cons e exts => rw [exts_behind, if_pos h]

theorem trim_free_freed : ∀ (steps : Nat) (exts : List RecordExt) (file_start : Nat) {st st' : TrimState},
    trim_extensions c format rec offset steps exts file_start true st = .ok st' → Freed c exts st st'
  | _, [], _, _, _, h => by
    rw [trim_extensions] at h
    obtain rfl := Except.ok.inj h
    exact .refl _
  | 0, _ :: _, _, _, _, h => by cases h
  | steps + 1, rext :: exts, file_start, st, st', h => by
    rw [trim_extensions, if_pos rfl] at h
    obtain ⟨st₁, hf, hrest⟩ := Run.bind_eq_ok h
    exact .cons hf (trim_free_freed steps exts _ hrest)

theorem trim_extensions_freed : ∀ (steps : Nat) (exts : List RecordExt) {file_start : Nat} {st st' : TrimState},
    trim_extensions c format rec offset steps exts file_start false st = .ok st' → file_start ≤ offset →
    Freed c (exts_behind offset exts file_start) st st'
  | _, [], _, _, _, h, _ => by
    rw [trim_extensions] at h
    obtain rfl := Except.ok.inj h
    rw [exts_behind]
    exact .refl _
  | 0, _ :: _, _, _, _, h, _ => by cases h
  | steps + 1, rext :: exts, file_start, st, st', h, hle => by
    rw [trim_extensions, if_neg (by decide)] at h
    by_cases hin : file_start ≤ offset ∧ offset < file_start + rext.len
    · rw [if_pos hin] at h
      dsimp only at h
      by_cases hz : wipe_len c rec (offset + 1 - file_start) = 0
      · rw [if_pos hz] at h
        exact trim_extensions_freed steps (rext :: exts) h hle
      · rw [if_neg hz] at h
        obtain ⟨st₁, hw, hrest⟩ := Run.bind_eq_ok h
        rw [exts_behind, if_neg (by omega), exts_behind_first hin.2]
        exact (trim_free_freed steps exts _ hrest).of_eq (wipe_piece_effect hw).2
    · rw [if_neg hin] at h
      rw [exts_behind, if_neg (by omega)]
      exact trim_extensions_freed steps exts h (by omega)

theorem trim_unfreed : ∀ (steps : Nat) (exts : List RecordExt) {file_start : Nat} {st st' : TrimState},
    trim_extensions c format rec offset steps exts file_start false st = .ok st' → offset < file_start → st' = st
  | _, [], _, _, _, h, _ => by
    rw [trim_extensions] at h
    exact (Except.ok.inj h).symm
  | 0, _ :: _, _, _, _, h, _ => by cases h
  | steps + 1, rext :: exts, file_start, st, st', h, hlt => by
    rw [trim_extensions, if_neg (by decide), if_neg (by omega)] at h
    exact trim_unfreed steps exts h (by omega)

theorem free_extension_zeroed {rext : RecordExt} {st st' : TrimState}
    (h : free_extension c format rext st = .ok st') :
    st'.zeroed = st.zeroed := by
  unfold free_extension at h
  split at h
  · cases h
  · obtain rfl := Except.ok.inj h
    rfl

theorem trim_free_zeroed : ∀ (steps : Nat) (exts : List RecordExt) (file_start : Nat) {st st' : TrimState},
    trim_extensions c format rec offset steps exts file_start true st = .ok st' → st'.zeroed = st.zeroed
  | _, [], _, _, _, h => by
    rw [trim_extensions] at h
    obtain rfl := Except.ok.inj h
    rfl
  | 0, _ :: _, _, _, _, h => by cases h
  | steps + 1, rext :: exts, file_start, st, st', h => by
    rw [trim_extensions, if_pos rfl] at h
    obtain ⟨st₁, hf, hrest⟩ := Run.bind_eq_ok h
    exact (trim_free_zeroed steps exts _ hrest).trans (free_extension_zeroed hf)

theorem trim_free_ok : ∀ (steps : Nat) (exts : List RecordExt) (file_start : Nat) (st : TrimState),
    exts.length ≤ steps →
    (∀ e ∈ exts, e.disk_start ≠ NULL_BLOCK → st.disk.amap (e.disk_start / c.blksize) = true) →
    ((exts.filter fun e => e.disk_start ≠ NULL_BLOCK).map fun e => e.disk_start / c.blksize).Nodup →
    ∃ st', trim_extensions c format rec offset steps exts file_start true st = .ok st'
  | _, [], _, st, _, _, _ => ⟨st, by rw [trim_extensions]⟩
  | 0, _ :: _, _, _, h, _, _ => absurd h (Nat.not_succ_le_zero _)
  | steps + 1, rext :: exts, file_start, st, h, hused, hnodup => by
    rw [trim_extensions, if_pos rfl]
    by_cases h0 : rext.disk_start = NULL_BLOCK
    · have hfree : ∃ st₁, free_extension c format rext st = .ok st₁ ∧ st₁.disk.amap = st.disk.amap := by
        unfold free_extension free_block
        rw [if_pos (show rext.disk_start = 0 from h0)]
        exact ⟨_, rfl, rfl⟩
      obtain ⟨st₁, hf, hmap⟩ := hfree
      rw [List.filter_cons_of_neg (by simpa using h0)] at hnodup
      rw [hf]
      exact trim_free_ok steps exts _ st₁ (Nat.le_of_succ_le_succ h)
        (fun e he => by rw [hmap]; exact hused e (.tail _ he)) hnodup
    · have hfree : ∃ st₁, free_extension c format rext st = .ok st₁ ∧
          st₁.disk.amap = Function.update st.disk.amap (rext.disk_start / c.blksize) false := by
        unfold free_extension free_block
        rw [if_neg (show ¬ rext.disk_start = 0 from h0), if_pos (hused rext (.head _) h0)]
        exact ⟨_, rfl, rfl⟩
      obtain ⟨st₁, hf, hmap⟩ := hfree
      rw [List.filter_cons_of_pos (by simpa using h0), List.map_cons, List.nodup_cons] at hnodup
      rw [hf]
      refine trim_free_ok steps exts _ st₁ (Nat.le_of_succ_le_succ h) (fun e he hne => ?_) hnodup.2
      rw [hmap, Function.update_of_ne]
      · exact hused e (.tail _ he) hne
      · intro heq
        exact hnodup.1 (heq ▸ List.mem_map.mpr ⟨e, List.mem_filter.mpr ⟨he, by simpa using hne⟩, rfl⟩)

theorem trim_behind : ∀ (steps : Nat) (exts : List RecordExt) {file_start : Nat} (st : TrimState),
    exts.length ≤ steps →
    offset < file_start → trim_extensions c format rec offset steps exts file_start false st = .ok st
  | _, [], _, _, _, _ => by rw [trim_extensions]
  | 0, _ :: _, _, _, h, _ => absurd h (Nat.not_succ_le_zero _)
  | steps + 1, rext :: exts, file_start, st, h, hlt => by
    rw [trim_extensions, if_neg (by decide), if_neg (by omega)]
    exact trim_behind steps exts st (Nat.le_of_succ_le_succ h) (by omega)

def ext_pieces (exts : List RecordExt) : List (Nat × Nat) := exts.map fun e => (e.disk_start, e.len)

theorem trim_extensions_zeroed : ∀ (steps : Nat) (exts : List RecordExt) {file_start s i : Nat}
    {st st' : TrimState},
    trim_extensions c format rec offset steps exts file_start false st = .ok st' → file_start ≤ offset →
    locate (ext_pieces exts) (offset - file_start) = some (s, i) →
    wipe_len c rec (i + 1) ≠ 0 ∧
      st'.zeroed = st.zeroed ++ (if s ≠ NULL_BLOCK then [(s + (i + 1), wipe_len c rec (i + 1))] else [])
  | _, [], _, _, _, _, _, _, _, h => by cases h
  | 0, _ :: _, _, _, _, _, _, h, _, _ => by cases h
  | steps + 1, rext :: exts, file_start, s, i, st, st', h, hle, hloc => by
    rw [trim_extensions, if_neg (by decide)] at h
    by_cases hin : file_start ≤ offset ∧ offset < file_start + rext.len
    · rw [if_pos hin] at h
      rw [ext_pieces, List.map_cons, locate, if_pos (by dsimp only; omega)] at hloc
      obtain ⟨rfl, rfl⟩ := Prod.mk.inj (Option.some.inj hloc)
      have hoff : offset + 1 - file_start = offset - file_start + 1 := by omega
      dsimp only at h
      rw [hoff] at h
      by_cases hz : wipe_len c rec (offset - file_start + 1) = 0
      · rw [if_pos hz] at h
        have := trim_extensions_zeroed steps (rext :: exts) (s := rext.disk_start) (i := offset - file_start) h hle
          (by rw [ext_pieces, List.map_cons, locate, if_pos (by dsimp only; omega)])
        exact absurd hz this.1
      · rw [if_neg hz] at h
        obtain ⟨st₁, hw, hrest⟩ := Run.bind_eq_ok h
        exact ⟨hz, (trim_free_zeroed steps exts _ hrest).trans (wipe_piece_effect hw).1⟩
    · rw [if_neg hin] at h
      have hge : rext.len ≤ offset - file_start := by omega
      rw [ext_pieces, List.map_cons, locate, if_neg (by dsimp only; omega)] at hloc
      have hsub : offset - (file_start + rext.len) = offset - file_start - rext.len := by omega
      exact trim_extensions_zeroed steps exts h (by omega) (by rw [hsub]; exact hloc)

theorem trim_extensions_ok (hblk : 0 < c.blksize) : ∀ (exts : List RecordExt) {file_start s i : Nat}
    (st : TrimState),
    (∀ p ∈ ext_pieces exts, p.1 ≠ NULL_BLOCK → 0 < p.2 →
      c.label ≤ p.1 ∧ p.1 + p.2 ≤ c.size ∧ p.1 % c.blksize + p.2 ≤ c.blksize) →
    (∀ e ∈ exts, e.disk_start ≠ NULL_BLOCK → st.disk.amap (e.disk_start / c.blksize) = true) →
    ((exts.filter fun e => e.disk_start ≠ NULL_BLOCK).map fun e => e.disk_start / c.blksize).Nodup →
    file_start ≤ offset → locate (ext_pieces exts) (offset - file_start) = some (s, i) →
    rec.disk_start % c.blksize + i + 1 ≠ c.blksize →
    (s = NULL_BLOCK ∨ s % c.blksize = rec.disk_start % c.blksize) →
    ∃ st', trim_extensions c format rec offset exts.length exts file_start false st = .ok st'
  | [], _, _, _, _, _, _, _, _, h, _, _ => by cases h
  | rext :: exts, file_start, s, i, st, hin, hused, hnodup, hle, hloc, hne, hsame => by
    have hrest : ((exts.filter fun e => e.disk_start ≠ NULL_BLOCK).map fun e => e.disk_start / c.blksize).Nodup :=
      hnodup.sublist (List.Sublist.map _ (List.Sublist.filter _ (List.sublist_cons_self _ _)))
    rw [List.length_cons, trim_extensions, if_neg (by decide)]
    by_cases hcut : file_start ≤ offset ∧ offset < file_start + rext.len
    · rw [if_pos hcut]
      rw [ext_pieces, List.map_cons, locate, if_pos (by dsimp only; omega)] at hloc
      obtain ⟨rfl, rfl⟩ := Prod.mk.inj (Option.some.inj hloc)
      have hoff : offset + 1 - file_start = offset - file_start + 1 := by omega
      dsimp only at hsame hne ⊢
      rw [hoff]
      have hz : wipe_len c rec (offset - file_start + 1) ≠ 0 := by
        unfold wipe_len
        omega
      rw [if_neg hz]
      obtain ⟨st₁, hw⟩ : ∃ st₁, wipe_piece c format rext.disk_start (offset - file_start + 1)
          (wipe_len c rec (offset - file_start + 1)) rext.block_nr st = .ok st₁ := by
        refine wipe_piece_ok rext.block_nr st hblk fun h0 => ?_
        obtain ⟨hlabel, hsize, hblock⟩ := hin (rext.disk_start, rext.len) (.head _) h0 (by dsimp only; omega)
        dsimp only at hlabel hsize hblock
        have hmod := hsame.resolve_left h0
        unfold wipe_len
        exact ⟨by omega, by omega, hlabel, by omega⟩
      rw [hw]
      refine trim_free_ok exts.length exts _ st₁ (Nat.le_refl _) (fun e he => ?_) hrest
      rw [(wipe_piece_effect hw).2.2]
      exact hused e (.tail _ he)
    · rw [if_neg hcut]
      have hge : rext.len ≤ offset - file_start := by omega
      rw [ext_pieces, List.map_cons, locate, if_neg (by dsimp only; omega)] at hloc
      have hsub : offset - (file_start + rext.len) = offset - file_start - rext.len := by omega
      exact trim_extensions_ok hblk exts st (fun p hp => hin p (.tail _ hp))
        (fun e he => hused e (.tail _ he)) hrest
        (by omega) (by rw [hsub]; exact hloc) hne hsame

/-! ## The cut -/

theorem block_of_byte (hblk : 0 < c.blksize) {s i : Nat} (h : s % c.blksize + i < c.blksize) :
    (s + i) / c.blksize = s / c.blksize ∧ (s + i) % c.blksize = s % c.blksize + i := by
  have hdm := Nat.div_add_mod s c.blksize
  have he : s + i = c.blksize * (s / c.blksize) + (s % c.blksize + i) := by omega
  constructor
  · rw [he, Nat.mul_add_div hblk, Nat.div_eq_of_lt h, Nat.add_zero]
  · rw [he, Nat.mul_add_mod, Nat.mod_eq_of_lt h]

theorem wiped_nil (hblk : 0 < c.blksize) {s i : Nat} (hin : s ≠ NULL_BLOCK → s % c.blksize + i < c.blksize) :
    WipedBehind c s i [] ↔ s = NULL_BLOCK ∨ s % c.blksize + i + 1 = c.blksize := by
  by_cases h0 : s = NULL_BLOCK
  · exact iff_of_true ⟨fun _ hz => absurd hz List.not_mem_nil, fun hne => absurd h0 hne⟩ (.inl h0)
  have h := hin h0
  have hb := block_of_byte hblk h
  have hnext : (s + i + 1) % c.blksize = 0 ↔ s % c.blksize + i + 1 = c.blksize := by
    rw [Nat.add_mod, hb.2]
    constructor
    · intro hz
      by_contra hne
      have hone : 1 % c.blksize = 1 := Nat.mod_eq_of_lt (by omega)
      rw [hone, Nat.mod_eq_of_lt (by omega)] at hz
      omega
    · intro he
      by_cases h1 : c.blksize = 1
      · rw [h1, Nat.mod_one]
      · rw [Nat.mod_eq_of_lt (by omega : 1 < c.blksize), he, Nat.mod_self]
  rw [or_iff_right h0]
  constructor
  · rintro ⟨-, hwipe⟩
    refine hnext.mp ?_
    by_contra hne
    exact hwipe h0 hne rfl
  · intro he
    exact ⟨fun _ hz => absurd hz List.not_mem_nil, fun _ hne => absurd (hnext.mpr he) hne⟩

theorem wiped_singleton (hblk : 0 < c.blksize) {s i : Nat} (h : s % c.blksize + i < c.blksize) (h0 : s ≠ NULL_BLOCK)
    (len : Int) :
    WipedBehind c s i [(s + (i + 1), len)] ↔ 0 < len ∧ len = c.blksize - (s % c.blksize + i + 1 : Nat) := by
  have hdm := Nat.div_add_mod s c.blksize
  have hend : (((s + i) / c.blksize + 1 : Nat) : Int) * c.blksize = s - (s % c.blksize : Nat) + c.blksize := by
    have he : ((s / c.blksize + 1) * c.blksize : Nat) = s - s % c.blksize + c.blksize := by
      rw [Nat.succ_mul, Nat.mul_comm]
      omega
    have hmod := Nat.mod_le s c.blksize
    rw [(block_of_byte hblk h).1]
    have : (((s / c.blksize + 1) * c.blksize : Nat) : Int) = (s - s % c.blksize + c.blksize : Nat) := by rw [he]
    push_cast [Nat.cast_sub hmod] at this ⊢
    exact this
  constructor
  · rintro ⟨hall, -⟩
    obtain ⟨-, -, hlen, hsum⟩ := hall _ (.head _)
    rw [hend] at hsum
    dsimp only at hlen hsum
    exact ⟨hlen, by push_cast at hsum ⊢; omega⟩
  · rintro ⟨hlen, he⟩
    refine ⟨fun z hz => ?_, fun _ _ => List.cons_ne_nil _ _⟩
    obtain rfl := List.mem_singleton.mp hz
    refine ⟨h0, rfl, hlen, ?_⟩
    rw [hend]
    dsimp only
    push_cast at he ⊢
    omega

theorem wiped_piece (hblk : 0 < c.blksize) {s i : Nat} (hin : s ≠ NULL_BLOCK → s % c.blksize + i < c.blksize)
    (len : Int) :
    WipedBehind c s i (if s ≠ NULL_BLOCK then [(s + (i + 1), len)] else []) ↔
      s = NULL_BLOCK ∨ 0 < len ∧ len = c.blksize - (s % c.blksize + i + 1 : Nat) := by
  by_cases h0 : s = NULL_BLOCK
  · rw [if_neg (not_not.mpr h0)]
    exact iff_of_true ⟨fun _ hz => absurd hz List.not_mem_nil, fun hne => absurd h0 hne⟩ (.inl h0)
  · rw [if_pos h0, wiped_singleton hblk (hin h0) h0, or_iff_right h0]

theorem writeBytes_amap {addr : Nat} {bs : List UInt8} {d d' : Disk} (h : writeBytes c addr bs d = .ok d') :
    d'.amap = d.amap := by
  unfold writeBytes at h
  obtain ⟨_, -, h⟩ := Run.bind_eq_ok h
  obtain rfl := Except.ok.inj h
  rfl

theorem var_header_amap {blist : List Block} {header : Nat} {d d' : Disk}
    (h : update_var_header_len c blist header rec d = .ok d') : d'.amap = d.amap := by
  unfold update_var_header_len at h
  dsimp only at h
  generalize (if rec.disk_start % c.blksize = 0 then 2 else if rec.disk_start % c.blksize =
    1 then 1 else 0) = parts at h
  by_cases h0 : parts = 0
  · rw [if_pos h0] at h
    exact writeBytes_amap h
  · rw [if_neg h0] at h
    by_cases hb : rec.block_nr = 0
    · rw [if_pos hb] at h
      cases h
    · rw [if_neg hb] at h
      by_cases h1 : parts = 1
      · rw [if_pos h1] at h
        obtain ⟨d₁, h₁, h₂⟩ := Run.bind_eq_ok h
        exact (writeBytes_amap h₂).trans (writeBytes_amap h₁)
      · rw [if_neg h1] at h
        exact writeBytes_amap h

structure SameWalk (st st' : TrimState) : Prop where
  zeroed : st'.zeroed = st.zeroed
  nr_blocks : st'.nr_blocks = st.nr_blocks
  amap : st'.disk.amap = st.disk.amap

theorem SameWalk.freed {exts : List RecordExt} {st st₁ st₂ : TrimState} (h : SameWalk st₁ st₂) :
    Freed c exts st st₂ ↔ Freed c exts st st₁ := by
  unfold Freed
  rw [h.nr_blocks, h.amap]

theorem trim_record_of_pieces {steps : Nat} {st st' : TrimState}
    (h : trim_pieces c format rec offset steps st = .ok st') :
    ∃ r, trim_record c format rec offset steps st = .ok r ∧ SameWalk st' r.1 := by
  unfold trim_record
  rw [h]
  cases format with
  | fixed => exact ⟨_, rfl, rfl, rfl, rfl⟩
  | var =>
    dsimp only [bind, Except.bind]
    cases hu : update_var_header_len c st'.blist (u16 ((offset : Int) + 1 - rec.file_start)) rec st'.disk with
    | error e => exact ⟨_, rfl, rfl, rfl, rfl⟩
    | ok disk => exact ⟨_, rfl, rfl, rfl, var_header_amap hu⟩

theorem pieces_of_trim_record {steps : Nat} {st : TrimState} {r : TrimState × Except Fail Record}
    (h : trim_record c format rec offset steps st = .ok r) :
    ∃ st', trim_pieces c format rec offset steps st = .ok st' ∧ SameWalk st' r.1 := by
  unfold trim_record at h
  obtain ⟨st', hp, h⟩ := Run.bind_eq_ok h
  refine ⟨st', hp, ?_⟩
  cases format with
  | fixed =>
    obtain rfl := Except.ok.inj h
    exact ⟨rfl, rfl, rfl⟩
  | var =>
    dsimp only at h
    cases hu : update_var_header_len c st'.blist (u16 ((offset : Int) + 1 - rec.file_start)) rec st'.disk with
    | error e =>
      rw [hu] at h
      obtain rfl := Except.ok.inj h
      exact ⟨rfl, rfl, rfl⟩
    | ok disk =>
      rw [hu] at h
      obtain rfl := Except.ok.inj h
      exact ⟨rfl, rfl, var_header_amap hu⟩

theorem locate_mem : ∀ {ps : List (Nat × Nat)} {off s i : Nat}, locate ps off = some (s, i) →
    ∃ l, (s, l) ∈ ps ∧ i < l
  | [], _, _, _, h => by cases h
  | p :: ps, off, s, i, h => by
    rw [locate] at h
    split at h
    · rename_i hlt
      obtain ⟨rfl, rfl⟩ := Prod.mk.inj (Option.some.inj h)
      exact ⟨p.2, .head _, hlt⟩
    · obtain ⟨l, hm, hi⟩ := locate_mem h
      exact ⟨l, .tail _ hm, hi⟩

theorem locate_isSome : ∀ {ps : List (Nat × Nat)} {off : Nat}, off < (ps.map Prod.snd).sum →
    ∃ s i, locate ps off = some (s, i)
  | [], _, h => absurd h (Nat.not_lt_zero _)
  | p :: ps, off, h => by
    rw [List.map_cons, List.sum_cons] at h
    rw [locate]
    split
    · exact ⟨_, _, rfl⟩
    · exact locate_isSome (by omega)

theorem Record.Placed.located {d : Disk} (hp : rec.Placed c d) {off s i : Nat}
    (hloc : locate rec.pieces off = some (s, i)) (h0 : s ≠ NULL_BLOCK) :
    c.label ≤ s ∧ s + i + 1 ≤ c.size ∧ s % c.blksize + i < c.blksize := by
  obtain ⟨l, hm, hi⟩ := locate_mem hloc
  obtain ⟨hlabel, hsize, hb⟩ := hp.inside _ hm h0 (by dsimp only; omega)
  dsimp only at hsize hb
  exact ⟨hlabel, by omega, by omega⟩

section
variable (hin : offset_in_record offset rec = true) (hfirst : offset < rec.file_start + rec.first_block_len)
include hin hfirst

theorem locate_first : locate rec.pieces (offset - rec.file_start) =
    some (rec.disk_start, offset - rec.file_start) := by
  have hrec := offset_in_record_iff.mp hin
  rw [Record.pieces, locate, if_pos (by dsimp only; omega)]

theorem cut_fits_first :
    CutFits c rec offset ↔ (wipe_len c rec (offset - rec.file_start + 1) = 0 → rec.ext = []) := by
  have hat : wipe_len c rec (offset - rec.file_start + 1) = 0 ↔
      rec.disk_start % c.blksize + (offset - rec.file_start) + 1 = c.blksize := by
    unfold wipe_len
    omega
  constructor
  · rintro (hcut | hcut) hz
    · exact hcut.2 (hat.mp hz)
    · exact absurd (hat.mp hz) (hcut _ _ (locate_first hin hfirst)).1
  · exact fun hcut => .inl ⟨hfirst, fun he => hcut (hat.mpr he)⟩

theorem trim_pieces_first (steps : Nat) (st : TrimState) : trim_pieces c format rec offset steps st =
    if wipe_len c rec (offset - rec.file_start + 1) = 0 then
      trim_extensions c format rec offset steps rec.ext (rec.file_start + rec.first_block_len) false st
    else wipe_piece c format rec.disk_start (offset - rec.file_start + 1)
        (wipe_len c rec (offset - rec.file_start + 1)) rec.block_nr st >>= fun st =>
      trim_extensions c format rec offset steps rec.ext (rec.file_start + rec.first_block_len) true st := by
  have hrec := offset_in_record_iff.mp hin
  have hrel : offset + 1 - rec.file_start = offset - rec.file_start + 1 := by omega
  unfold trim_pieces
  rw [if_neg (by rw [hin]; decide), if_pos ⟨hrec.1, hfirst⟩]
  dsimp only
  rw [hrel]

/-- Where nothing has to be wiped, the extensions are taken for what lies in front of the cut. -/
theorem first_unfreed {st : TrimState} (h : TrimsInBounds c format rec offset st)
    (hz : wipe_len c rec (offset - rec.file_start + 1) = 0) : rec.ext = [] := by
  obtain ⟨steps, r, s, i, hr, -, -, hfreed⟩ := h
  obtain ⟨st', ht, hsame⟩ := pieces_of_trim_record hr
  rw [trim_pieces_first hin hfirst, if_pos hz] at ht
  obtain rfl := trim_unfreed steps rec.ext ht hfirst
  have hcount := (hsame.freed.mp hfreed).1
  rw [exts_behind_first hfirst] at hcount
  exact List.eq_nil_of_length_eq_zero (by dsimp only at hcount; omega)

theorem first_trimmed {st : TrimState} (hp : rec.Placed c st.disk)
    (hcut : wipe_len c rec (offset - rec.file_start + 1) = 0 → rec.ext = []) :
    ∃ st', trim_pieces c format rec offset rec.ext.length { st with zeroed := [] } = .ok st' ∧
      WipedBehind c rec.disk_start (offset - rec.file_start) st'.zeroed ∧ Freed c rec.ext st st' := by
  have hinside := fun h0 => (hp.located (locate_first hin hfirst) h0).2.2
  rw [trim_pieces_first hin hfirst]
  by_cases hz : wipe_len c rec (offset - rec.file_start + 1) = 0
  · rw [if_pos hz]
    refine ⟨_, trim_behind _ rec.ext _ (Nat.le_refl _) hfirst, (wiped_nil hp.blksize hinside).mpr (.inr ?_), ?_⟩
    · unfold wipe_len at hz
      omega
    · rw [hcut hz]
      exact .refl st
  · rw [if_neg hz]
    obtain ⟨st₁, hw⟩ : ∃ st₁, wipe_piece c format rec.disk_start (offset - rec.file_start + 1)
        (wipe_len c rec (offset - rec.file_start + 1)) rec.block_nr { st with zeroed := [] } = .ok st₁ := by
      refine wipe_piece_ok _ _ hp.blksize fun h0 => ?_
      obtain ⟨hlabel, hsize, hb⟩ := hp.located (locate_first hin hfirst) h0
      unfold wipe_len at hz ⊢
      exact ⟨by omega, by omega, hlabel, by omega⟩
    obtain ⟨hwiped, hkept⟩ := wipe_piece_effect hw
    obtain ⟨st', hfree⟩ : ∃ st', trim_extensions c format rec offset rec.ext.length rec.ext
        (rec.file_start + rec.first_block_len) true st₁ = .ok st' :=
      trim_free_ok _ rec.ext _ st₁ (Nat.le_refl _) (fun e he => by rw [hkept.2]; exact hp.used e he) hp.nodup
    rw [hw]
    refine ⟨st', hfree, ?_, (trim_free_freed _ _ _ hfree).of_eq hkept⟩
    rw [trim_free_zeroed _ _ _ hfree, hwiped, List.nil_append, wiped_piece hp.blksize hinside]
    by_cases h0 : rec.disk_start = NULL_BLOCK
    · exact .inl h0
    · have hb := hinside h0
      unfold wipe_len at hz ⊢
      exact .inr ⟨by omega, by omega⟩

theorem trims_first_iff {st : TrimState} (hp : rec.Placed c st.disk) :
    TrimsInBounds c format rec offset st ↔ CutFits c rec offset := by
  rw [cut_fits_first hin hfirst]
  constructor
  · exact first_unfreed hin hfirst
  · intro hcut
    obtain ⟨st', ht, hwiped, hfreed⟩ := first_trimmed hin hfirst hp hcut
    obtain ⟨r, hr, hsame⟩ := trim_record_of_pieces ht
    refine ⟨_, r, _, _, hr, locate_first hin hfirst, by rw [hsame.zeroed]; exact hwiped, hsame.freed.mpr ?_⟩
    rw [exts_behind_first hfirst]
    exact hfreed

end

theorem trims_behind_iff {st : TrimState} (hp : rec.Placed c st.disk)
    (hin : offset_in_record offset rec = true) (hle : rec.file_start + rec.first_block_len ≤ offset) :
    TrimsInBounds c format rec offset st ↔ CutFits c rec offset := by
  have hrec := offset_in_record_iff.mp hin
  have hlocate : locate rec.pieces (offset - rec.file_start) =
      locate (ext_pieces rec.ext) (offset - (rec.file_start + rec.first_block_len)) := by
    rw [Record.pieces, locate, if_neg (by dsimp only; omega)]
    dsimp only
    rw [Nat.sub_sub]
    rfl
  have hpieces : ∀ (steps : Nat) (st₀ : TrimState), trim_pieces c format rec offset steps st₀ =
      trim_extensions c format rec offset steps rec.ext (rec.file_start + rec.first_block_len) false st₀ := by
    intro steps st₀
    unfold trim_pieces
    rw [if_neg (by rw [hin]; decide), if_neg (by omega)]
  constructor
  · rintro ⟨steps, r, s, i, hr, hloc, hwiped, -⟩
    refine .inr fun s' i' hloc' => ?_
    obtain ⟨rfl, rfl⟩ := Prod.mk.inj (Option.some.inj (hloc.symm.trans hloc'))
    obtain ⟨st', ht, hsame⟩ := pieces_of_trim_record hr
    rw [hpieces] at ht
    obtain ⟨hne, hz⟩ := trim_extensions_zeroed steps rec.ext ht hle (hlocate ▸ hloc)
    rw [hsame.zeroed, hz, List.nil_append, wiped_piece hp.blksize fun h0 => (hp.located hloc h0).2.2] at hwiped
    unfold wipe_len at hne hwiped
    exact ⟨by omega, hwiped.imp_right fun hlen => by omega⟩
  · rintro (hcut | hcut)
    · omega
    · obtain ⟨s, i, hloc⟩ : ∃ s i, locate rec.pieces (offset - rec.file_start) = some (s, i) :=
        locate_isSome (by rw [← hp.total_len]; omega)
      obtain ⟨hne, hsame⟩ := hcut s i hloc
      obtain ⟨st', ht⟩ : ∃ st', trim_extensions c format rec offset rec.ext.length rec.ext
          (rec.file_start + rec.first_block_len) false { st with zeroed := [] } = .ok st' :=
        trim_extensions_ok hp.blksize rec.ext _ (fun p hm => hp.inside p (.tail _ hm))
          hp.used hp.nodup hle (hlocate ▸ hloc) hne hsame
      obtain ⟨r, hr, hwalk⟩ := trim_record_of_pieces ((hpieces _ _).trans ht)
      refine ⟨_, r, s, i, hr, hloc, ?_, hwalk.freed.mpr ((trim_extensions_freed _ rec.ext ht hle).of_eq ⟨rfl, rfl⟩)⟩
      obtain ⟨hz0, hz⟩ := trim_extensions_zeroed _ rec.ext ht hle (hlocate ▸ hloc)
      rw [hwalk.zeroed, hz, List.nil_append, wiped_piece hp.blksize fun h0 => (hp.located hloc h0).2.2]
      by_cases h0 : s = NULL_BLOCK
      · exact .inl h0
      · have hb := (hp.located hloc h0).2.2
        have hmod := hsame.resolve_left h0
        unfold wipe_len
        exact .inr ⟨by omega, by omega⟩

/-- The walk ends, wipes in bounds and frees what is behind exactly when the cut is in the first piece in
front of the end of its block or of the record, or the extension of the cut is a null block or starts at the
place in its block at which the record starts, and the cut is not at the end that the start of the record
gives. -/
theorem trims_in_bounds_iff {st : TrimState} (hp : rec.Placed c st.disk)
    (hin : offset_in_record offset rec = true) :
    TrimsInBounds c format rec offset st ↔ CutFits c rec offset := by
  by_cases hfirst : offset < rec.file_start + rec.first_block_len
  · exact trims_first_iff hin hfirst hp
  · exact trims_behind_iff hp hin (Nat.not_lt.mp hfirst)

theorem trim_extensions_endless {rext : RecordExt} (exts : List RecordExt) {file_start : Nat} (st : TrimState)
    (hle : file_start ≤ offset) (hlt : offset < file_start + rext.len)
      (hz : wipe_len c rec (offset + 1 - file_start) = 0)
    (steps : Nat) : trim_extensions c format rec offset steps (rext :: exts) file_start false st =
      .error .endless := by
  induction steps with
  | zero => rfl
  | succ steps ih =>
    rw [trim_extensions, if_neg (by decide), if_pos ⟨hle, hlt⟩]
    dsimp only
    rw [if_pos hz]
    exact ih

end

/-! ## A record that starts in the middle of a block -/

def trimSample : Record := ⟨912, 1124, 412, 0, false, [⟨1536, 500, false, 1⟩], 0⟩

def trimSampleState : TrimState where
  disk := { mem := fun _ => 1, amap := fun b => b = 2 || b = 3, used_blocks := 2, reserved_blocks := 0 }
  nr_blocks := 2
  nr_null_blocks := 0
  blist := []
  zeroed := []

theorem trimSample_placed : trimSample.Placed readDevice trimSampleState.disk := by
  refine ⟨by decide, rfl, ?_, ?_, by decide⟩
  · intro p hp _ _
    simp only [trimSample, Record.pieces, List.map_cons, List.map_nil, List.mem_cons,
      List.not_mem_nil, or_false] at hp
    rcases hp with rfl | rfl
    · decide
    · decide
  · intro e he _
    obtain rfl := List.mem_singleton.mp he
    decide

theorem trims_in_bounds_sample : TrimsInBounds readDevice .var trimSample 300 trimSampleState :=
  (trims_in_bounds_iff trimSample_placed (by decide)).mpr (.inl ⟨by decide, by decide⟩)

/-- A cut behind byte 412 of the extension never ends: 412 and the 100 bytes in front of the record are a block. -/
theorem trim_loop_endless :
    ∃ (c : Device) (rec : Record) (offset : Nat) (st : TrimState), rec.Placed c st.disk ∧
      offset_in_record offset rec = true ∧ (∀ steps, trim_record c .var rec offset steps st = .error .endless) ∧
      ¬ TrimsInBounds c .var rec offset st := by
  have hloop : ∀ (st : TrimState) (steps : Nat),
      trim_record readDevice .var trimSample 823 steps st = .error .endless := by
    intro st steps
    have hext : trim_extensions readDevice .var trimSample 823 steps [⟨1536, 500, false, 1⟩] 412 false st =
        .error .endless :=
      trim_extensions_endless [] st (by decide) (by decide) (by decide) steps
    have hpieces : trim_pieces readDevice .var trimSample 823 steps st =
        trim_extensions readDevice .var trimSample 823 steps [⟨1536, 500, false, 1⟩] 412 false st := by
      unfold trim_pieces
      rw [if_neg (by decide), if_neg (by decide)]
      rfl
    unfold trim_record
    rw [hpieces, hext]
    rfl
  refine ⟨readDevice, trimSample, 823, trimSampleState, trimSample_placed, by decide, hloop _, ?_⟩
  rintro ⟨steps, r, s, i, hr, -⟩
  cases (hloop _ steps).symm.trans hr

end Cmsfs
