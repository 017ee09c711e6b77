import S390Tools.Cmsfs.File
import S390Tools.Lib.Word

/-!
# Reading (cmsfs-fuse/cmsfs-fuse.c)

A read walks over the records of the file. The record of an offset is looked up
with the hint that the last read left, and from a guess otherwise.
-/

namespace Cmsfs

open Word

/-- The part of a file object that reading depends on. -/
structure OpenFile where
  nr_records : Nat
  record_len : Nat
  rlist : List Record
  linefeed : Bool
  translate : Bool
  session_size : Nat

inductive ReadStop
  | outside
  | division
  | BUG
  | DIE
  | endless
  deriving DecidableEq

/-- What `find_record` returns: a record with its number, `LINEFEED_OFFSET` or `NULL`. -/
inductive Found
  | record (nr : Nat) (rec : Record)
  | linefeed
  | null
  deriving DecidableEq

def LINEFEED_ASCII : UInt8 := 0xa
def LINEFEED_EBCDIC : UInt8 := 0x25
def EIO : Int := 5
def EINVAL : Int := 22

section
variable (f : OpenFile)

def record_at (i : Int) : Except ReadStop Record :=
  if i < 0 then .error .outside
  else
    match f.rlist[i.toNat]? with
    | none => .error .outside
    | some rec => .ok rec

def OpenFile.guess_len : Nat := if f.linefeed then f.record_len + 1 else f.record_len

def guess_record_number (offset : Nat) : Except ReadStop Int :=
  if f.guess_len = 0 then .error .division
  else
    let nr := i32 (offset / f.guess_len : Nat)
    .ok (if nr ≥ f.nr_records then f.nr_records - 1 else nr)

def offset_is_linefeed (offset : Nat) (prev next : Int) : Except ReadStop Bool := do
  let next ← record_at f next
  if offset < next.file_start then
    let prev ← record_at f prev
    pure (offset ≥ prev.file_start + prev.total_len)
  else pure false

def offset_in_record (offset : Nat) (rec : Record) : Bool :=
  offset ≥ rec.file_start && offset < rec.file_start + rec.total_len

def set_hint (hint : Int) : Int := if hint ≥ f.nr_records then f.nr_records - 1 else hint

def scan_records (offset : Nat) (step hint : Int) : Nat → Int → Except ReadStop (Found × Int)
  | 0, _ => .ok (.null, hint)
  | steps + 1, i =>
    if i < 0 ∨ i ≥ f.nr_records then .ok (.null, hint)
    else do
      let rec ← record_at f i
      if offset_in_record offset rec then pure (.record i.toNat rec, set_hint f (i + 1))
      else if i = f.nr_records - 1 then
        if f.linefeed && offset = rec.file_start + rec.total_len then pure (.linefeed, hint) else pure (.null, hint)
      else
        let between ← if step = 1 then offset_is_linefeed f offset i (i + 1)
          else offset_is_linefeed f offset (i - 1) i
        if between then pure (.linefeed, hint) else scan_records offset step hint steps (i + step)

def search_record (offset : Nat) (hint : Int) : Except ReadStop (Found × Int) := do
  let start ← guess_record_number f offset
  let rec ← record_at f start
  scan_records f offset (if offset < rec.file_start then -1 else 1) hint f.nr_records start

def find_record (hint : Int) (offset : Nat) : Except ReadStop (Found × Int) := do
  let rec ← record_at f hint
  if offset_in_record offset rec then pure (.record hint.toNat rec, set_hint f (hint + 1))
  else
    let before ← if f.linefeed && hint > 0 then offset_is_linefeed f offset (hint - 1) hint else pure false
    if before then pure (.linefeed, hint) else search_record f offset hint

/-! ## Reading bytes -/

/-- The address and the length that are left of a piece behind its first `record_off` bytes. -/
def block_data (disk_start len record_off : Nat) : Nat × Nat :=
  (if disk_start = NULL_BLOCK then NULL_BLOCK else disk_start + record_off, len - record_off)

def find_extension : List RecordExt → Nat → Except ReadStop (Nat × Nat)
  | [], _ => .error .BUG
  | rext :: exts, record_off =>
    if record_off ≥ rext.len then find_extension exts (record_off - rext.len)
    else .ok (block_data rext.disk_start rext.len record_off)

def get_block_data_from_record (rec : Record) (offset : Nat) : Except ReadStop (Nat × Nat) :=
  let record_off := offset - rec.file_start
  if record_off ≥ rec.first_block_len then find_extension rec.ext (record_off - rec.first_block_len)
  else .ok (block_data rec.disk_start rec.first_block_len record_off)

variable (c : Device) (m : Mem) (iconv : List UInt8 → Option (List UInt8))

def readBytes (addr n : Nat) : List UInt8 := (List.range n).map fun i => m (addr + i)

def read_chunk (addr chunk : Nat) : Except Fail (List UInt8) :=
  if addr = NULL_BLOCK then .ok (List.replicate chunk 0)
  else do
    access c chunk addr
    pure (readBytes m addr chunk)

def convert_text (buf : List UInt8) : Option (List UInt8) := if f.translate then iconv buf else some buf

def linefeed_byte : UInt8 := if f.translate then LINEFEED_ASCII else LINEFEED_EBCDIC

/-- The loop of `cmsfs_read`: the result, the bytes that are in the buffer and the hint. -/
def read_records : Nat → Int → Nat → Nat → List UInt8 → Except ReadStop (Int × List UInt8 × Int)
  | steps, hint, offset, size, buf =>
    if size = 0 then .ok (i32 buf.length, buf, hint)
    else
      match steps with
      | 0 => .error .endless
      | steps + 1 =>
        match find_record f hint offset with
        | .error e => .error e
        | .ok (.null, hint) => .ok (- EINVAL, buf, hint)
        | .ok (.linefeed, hint) =>
          if f.linefeed then read_records steps hint (offset + 1) (size - 1)
            (buf ++ [linefeed_byte f]) else .error .BUG
        | .ok (.record _ rec, hint) =>
          match get_block_data_from_record rec offset with
          | .error e => .error e
          | .ok (addr, chunk) =>
            if chunk = 0 then .error .DIE
            else
              let chunk := if size < chunk then size else chunk
              match read_chunk c m addr chunk with
              | .error .DIE => .error .DIE
              | .error _ => .ok (- EIO, buf, hint)
              | .ok bs =>
                match convert_text f iconv bs with
                | none => .ok (- EIO, buf, hint)
                | some bs => read_records steps hint (offset + chunk) (size - chunk) (buf ++ bs)

/-- `offset` and `size` are the values as 64 bit numbers. -/
def cmsfs_read (hint : Int) (size offset : Nat) : Except ReadStop (Int × List UInt8 × Int) :=
  if offset ≥ f.session_size then .ok (0, [], hint)
  else
    let size := if u64 (offset + size : Nat) > f.session_size then f.session_size - offset else size
    read_records f c m iconv size hint offset size []

/-! ## The logical content -/

def Record.pieces (rec : Record) : List (Nat × Nat) :=
  (rec.disk_start, rec.first_block_len) :: rec.ext.map fun e => (e.disk_start, e.len)

def piece_bytes (p : Nat × Nat) : List UInt8 :=
    if p.1 = NULL_BLOCK then List.replicate p.2 0 else readBytes m p.1 p.2

def linefeeds : Nat := if f.linefeed then 1 else 0

variable (g : UInt8 → UInt8)

def record_bytes (rec : Record) : List UInt8 :=
  (rec.pieces.flatMap (piece_bytes m)).map (if f.translate then g else id)

def record_content (rec : Record) : List UInt8 := record_bytes f m g rec ++
    List.replicate (linefeeds f) (linefeed_byte f)

def content : List UInt8 := f.rlist.flatMap (record_content f m g)

/-- The record list describes the file: the lengths add up, the records follow each other, each
piece is in one block. -/
structure OpenFile.Correct : Prop where
  nr_records : f.rlist.length = f.nr_records
  nr_lt : f.nr_records < 2147483648
  total_len : ∀ rec ∈ f.rlist, rec.total_len = (rec.pieces.map Prod.snd).sum
  record_len : ∀ rec ∈ f.rlist, rec.total_len ≤ f.record_len
  file_start : ∀ k (h : k < f.rlist.length),
    f.rlist[k].file_start = ((f.rlist.take k).map fun rec => rec.total_len + linefeeds f).sum
  session_size : f.session_size = (f.rlist.map fun rec => rec.total_len + linefeeds f).sum
  session_lt : f.session_size < 9223372036854775808
  inside : ∀ rec ∈ f.rlist, ∀ p ∈ rec.pieces, p.1 ≠ NULL_BLOCK → 0 < p.2 →
    c.label ≤ p.1 ∧ p.1 + p.2 ≤ c.size ∧ (p.1 + p.2 - 1) / c.blksize = p.1 / c.blksize

/-- The call returns the number of bytes that are there and puts them into the buffer. -/
def ReadsSlice (size offset : Nat) (r : Except ReadStop (Int × List UInt8 × Int)) : Prop :=
  ∃ hint, r = .ok ((min size (f.session_size - offset) : Nat), ((content f m g).drop offset).take size, hint)

/-! ## The bytes of a chunk -/

@[simp] theorem length_readBytes (addr n : Nat) : (readBytes m addr n).length = n := by
  unfold readBytes
  rw [List.length_map, List.length_range]

@[simp] theorem length_piece_bytes (p : Nat × Nat) : (piece_bytes m p).length = p.2 := by
  unfold piece_bytes
  split
  · exact List.length_replicate
  · exact length_readBytes m _ _

theorem length_pieces (ps : List (Nat × Nat)) : (ps.flatMap (piece_bytes m)).length = (ps.map Prod.snd).sum := by
  rw [List.length_flatMap]
  simp only [length_piece_bytes]

@[simp] theorem getElem_readBytes {addr n i : Nat} (h : i < (readBytes m addr n).length) :
    (readBytes m addr n)[i] = m (addr + i) := by
  simp [readBytes]

theorem drop_readBytes (addr n off : Nat) : (readBytes m addr n).drop off = readBytes m (addr + off) (n - off) := by
  refine List.ext_getElem (by simp) fun i h₁ h₂ => ?_
  simp only [List.getElem_drop, getElem_readBytes, Nat.add_assoc]

theorem take_readBytes {addr n k : Nat} (h : k ≤ n) : (readBytes m addr n).take k = readBytes m addr k := by
  refine List.ext_getElem (by simp [h]) fun i h₁ h₂ => ?_
  simp only [List.getElem_take, getElem_readBytes]

/-- A chunk that can be read: it is not empty and lies in one block of the disk. -/
structure Chunk (addr chunk : Nat) : Prop where
  pos : 0 < chunk
  inside : addr ≠ NULL_BLOCK →
    c.label ≤ addr ∧ addr + chunk ≤ c.size ∧ (addr + chunk - 1) / c.blksize = addr / c.blksize

theorem Chunk.read {addr chunk n : Nat} (h : Chunk c addr chunk) (hn : 0 < n) (hle : n ≤ chunk) :
    read_chunk c m addr n = .ok ((piece_bytes m (addr, chunk)).take n) := by
  unfold read_chunk piece_bytes
  by_cases h0 : addr = NULL_BLOCK
  · simp only [if_pos h0, List.take_replicate, Nat.min_eq_left hle]
  · obtain ⟨hl, hs, hb⟩ := h.inside h0
    have hcross : ¬ (addr + n - 1) / c.blksize > addr / c.blksize := by
      rw [Nat.not_lt, ← hb]
      exact Nat.div_le_div_right (by omega)
    have ha : access c n addr = .ok () := by
      unfold access
      rw [if_neg hcross, if_neg (by omega)]
    simp only [if_neg h0, ha, take_readBytes m hle]
    rfl

theorem block_data_eq {p : Nat × Nat} {off : Nat} (hoff : off < p.2)
    (hin : p.1 ≠ NULL_BLOCK → 0 < p.2 → c.label ≤ p.1 ∧ p.1 + p.2 ≤ c.size ∧
      (p.1 + p.2 - 1) / c.blksize = p.1 / c.blksize) :
    Chunk c (block_data p.1 p.2 off).1 (block_data p.1 p.2 off).2 ∧
      (piece_bytes m p).drop off = piece_bytes m (block_data p.1 p.2 off) := by
  obtain ⟨s, l⟩ := p
  dsimp only at hoff hin ⊢
  unfold block_data piece_bytes
  by_cases h0 : s = NULL_BLOCK
  · subst h0
    simp only [if_true, List.drop_replicate]
    exact ⟨⟨by omega, fun h => absurd rfl h⟩, trivial⟩
  · obtain ⟨hl, hs, hb⟩ := hin h0 (by omega)
    have hne : s + off ≠ NULL_BLOCK := by unfold NULL_BLOCK at *; omega
    simp only [if_neg h0, if_neg hne, drop_readBytes]
    refine ⟨⟨by omega, fun _ => ⟨by omega, by omega, ?_⟩⟩, trivial⟩
    have h1 : s / c.blksize ≤ (s + off) / c.blksize := Nat.div_le_div_right (by omega)
    have h2 : (s + off) / c.blksize ≤ (s + off + (l - off) - 1) / c.blksize := Nat.div_le_div_right (by omega)
    have h3 : s + off + (l - off) - 1 = s + l - 1 := by omega
    rw [h3] at h2 ⊢
    omega

theorem find_extension_eq : ∀ (es : List RecordExt) (off : Nat),
    (∀ e ∈ es, e.disk_start ≠ NULL_BLOCK → 0 < e.len → c.label ≤ e.disk_start ∧ e.disk_start + e.len ≤ c.size ∧
      (e.disk_start + e.len - 1) / c.blksize = e.disk_start / c.blksize) →
    off < ((es.map fun e => (e.disk_start, e.len)).map Prod.snd).sum →
    ∃ a n rest, find_extension es off = .ok (a, n) ∧ Chunk c a n ∧
      ((es.map fun e => (e.disk_start, e.len)).flatMap (piece_bytes m)).drop off = piece_bytes m (a, n) ++ rest
  | [], off, _, h => absurd h (Nat.not_lt_zero _)
  | e :: es, off, hin, h => by
    rw [List.map_cons, List.map_cons, List.sum_cons] at h
    dsimp only at h
    rw [find_extension, List.map_cons, List.flatMap_cons]
    by_cases hge : off ≥ e.len
    · obtain ⟨a, n, rest, hf, hc, hd⟩ := find_extension_eq es (off - e.len)
        (fun e' he => hin e' (.tail _ he)) (by omega)
      refine ⟨a, n, rest, (if_pos hge).trans hf, hc, ?_⟩
      rw [List.drop_append, length_piece_bytes, List.drop_eq_nil_of_le (by rw [length_piece_bytes]; exact hge), hd]
      rfl
    · obtain ⟨hc, hd⟩ := block_data_eq c m (p := (e.disk_start, e.len)) (Nat.not_le.mp hge) (hin e (.head _))
      refine ⟨_, _, _, if_neg hge, hc, (List.drop_append_of_le_length ?_).trans (congrArg (· ++ _) hd)⟩
      rw [length_piece_bytes]
      exact Nat.le_of_lt (Nat.not_le.mp hge)

variable {f} {c}

theorem get_block_data_eq (hf : f.Correct c) {rec : Record} (hrec : rec ∈ f.rlist) {offset : Nat}
    (hle : rec.file_start ≤ offset) (hlt : offset < rec.file_start + rec.total_len) :
    ∃ a n rest, get_block_data_from_record rec offset = .ok (a, n) ∧ Chunk c a n ∧
      (rec.pieces.flatMap (piece_bytes m)).drop (offset - rec.file_start) = piece_bytes m (a, n) ++ rest := by
  have hin := hf.inside rec hrec
  have hsum := hf.total_len rec hrec
  unfold Record.pieces at hin hsum ⊢
  rw [List.map_cons, List.sum_cons] at hsum
  dsimp only at hsum
  unfold get_block_data_from_record
  rw [List.flatMap_cons]
  dsimp only
  by_cases hge : offset - rec.file_start ≥ rec.first_block_len
  · obtain ⟨a, n, rest, hfe, hc, hd⟩ :=
      find_extension_eq c m rec.ext (offset - rec.file_start - rec.first_block_len)
      (fun e he => hin (e.disk_start, e.len) (.tail _ (List.mem_map.mpr ⟨e, he, rfl⟩))) (by omega)
    refine ⟨a, n, rest, (if_pos hge).trans hfe, hc, ?_⟩
    rw [List.drop_append, length_piece_bytes, List.drop_eq_nil_of_le (by rw [length_piece_bytes]; exact hge), hd]
    rfl
  · obtain ⟨hc, hd⟩ := block_data_eq c m (p := (rec.disk_start, rec.first_block_len)) (Nat.not_le.mp hge)
      (hin _ (.head _))
    refine ⟨_, _, _, if_neg hge, hc, (List.drop_append_of_le_length ?_).trans (congrArg (· ++ _) hd)⟩
    rw [length_piece_bytes]
    exact Nat.le_of_lt (Nat.not_le.mp hge)

/-! ## Finding the record -/

variable (f) in
def start_of (k : Nat) : Nat := ((f.rlist.take k).map fun rec => rec.total_len + linefeeds f).sum

theorem start_of_succ {k : Nat} (h : k < f.rlist.length) :
    start_of f (k + 1) = start_of f k + (f.rlist[k].total_len + linefeeds f) := by
  unfold start_of
  rw [← List.take_concat_get' _ _ h, List.map_append, List.sum_append]
  rfl

theorem start_of_le {j k : Nat} (h : j ≤ k) : start_of f j ≤ start_of f k := by
  induction k with
  | zero => rw [Nat.le_zero.mp h]
  | succ k ih =>
    rcases Nat.eq_or_lt_of_le h with rfl | hlt
    · exact Nat.le_refl _
    · refine (ih (Nat.le_of_lt_succ hlt)).trans ?_
      by_cases hk : k < f.rlist.length
      · rw [start_of_succ hk]
        exact Nat.le_add_right _ _
      · unfold start_of
        rw [List.take_of_length_le (Nat.not_lt.mp hk), List.take_of_length_le (by omega)]

theorem start_of_length (hf : f.Correct c) : start_of f f.rlist.length = f.session_size := by
  unfold start_of
  rw [List.take_length, hf.session_size]

theorem start_of_guess (hf : f.Correct c) : ∀ k ≤ f.rlist.length, start_of f k ≤ k * f.guess_len
  | 0, _ => Nat.zero_le _
  | k + 1, h => by
    have hrec := hf.record_len _ (List.getElem_mem (Nat.lt_of_succ_le h))
    have ih := start_of_guess hf k (by omega)
    have hone : f.rlist[k].total_len + linefeeds f ≤ f.guess_len := by
      unfold linefeeds OpenFile.guess_len
      split
      · omega
      · omega
    rw [start_of_succ (Nat.lt_of_succ_le h), Nat.succ_mul]
    exact Nat.add_le_add ih hone

theorem exists_record (hf : f.Correct c) {offset : Nat} (h : offset < f.session_size) :
    ∃ k, k < f.rlist.length ∧ start_of f k ≤ offset ∧ offset < start_of f (k + 1) := by
  have hend : ∃ k, offset < start_of f k := ⟨f.rlist.length, by rw [start_of_length hf]; exact h⟩
  have hfind := Nat.find_spec hend
  cases hk : Nat.find hend with
  | zero =>
    rw [hk] at hfind
    exact absurd hfind (Nat.not_lt_zero _)
  | succ k =>
    rw [hk] at hfind
    have hmin : ¬ offset < start_of f k := Nat.find_min hend (by omega)
    refine ⟨k, ?_, Nat.not_lt.mp hmin, hfind⟩
    by_contra hge
    have h1 := start_of_le (f := f) (Nat.not_lt.mp hge)
    rw [start_of_length hf] at h1
    omega

variable (f) in
def Found.At (offset : Nat) : Found → Prop
  | .record nr rec => f.rlist[nr]? = some rec ∧ rec.file_start ≤ offset ∧ offset < rec.file_start + rec.total_len
  | .linefeed => f.linefeed = true ∧ ∃ k, ∃ h : k < f.rlist.length, offset = start_of f k + f.rlist[k].total_len
  | .null => f.session_size ≤ offset

variable (f) in
def HintOk (hint : Int) : Prop := 0 ≤ hint ∧ hint < f.nr_records

theorem set_hint_ok {i : Int} (h : HintOk f i) : HintOk f (set_hint f (i + 1)) := by
  unfold HintOk set_hint at *
  split
  · omega
  · omega

theorem record_at_eq {k : Nat} (h : k < f.rlist.length) : record_at f (k : Int) = .ok f.rlist[k] := by
  unfold record_at
  rw [if_neg (by omega), Int.toNat_natCast, List.getElem?_eq_getElem h]

theorem offset_is_linefeed_eq (hf : f.Correct c) {k : Nat} (h : k + 1 < f.rlist.length) (offset : Nat) :
    offset_is_linefeed f offset k (k + 1 : Nat) =
      .ok (decide (f.linefeed = true ∧ offset = start_of f k + f.rlist[k].total_len)) := by
  have hk : k < f.rlist.length := Nat.lt_of_succ_lt h
  have hs : f.rlist[k + 1].file_start = start_of f (k + 1) := hf.file_start (k + 1) h
  have hs' : f.rlist[k].file_start = start_of f k := hf.file_start k hk
  have hsucc := start_of_succ hk
  unfold linefeeds at hsucc
  simp only [offset_is_linefeed, record_at_eq h, record_at_eq hk, bind, Except.bind, pure, Except.pure, hs, hs']
  split
  · rename_i hlt
    refine congrArg Except.ok (decide_eq_decide.mpr ?_)
    split at hsucc
    · rename_i hl
      exact ⟨fun hge => ⟨hl, by omega⟩, fun h => by omega⟩
    · rename_i hl
      exact ⟨fun hge => by omega, fun h => absurd h.1 hl⟩
  · rename_i hge
    refine congrArg Except.ok (Eq.symm (decide_eq_false ?_))
    rintro ⟨hl, he⟩
    rw [if_pos hl] at hsucc
    omega

theorem offset_in_record_iff {offset : Nat} {rec : Record} : offset_in_record offset rec = true ↔
    rec.file_start ≤ offset ∧ offset < rec.file_start + rec.total_len := by
  unfold offset_in_record
  rw [Bool.and_eq_true, decide_eq_true_eq, decide_eq_true_eq]

theorem scan_records_eq (hf : f.Correct c) {offset : Nat} {hint : Int} (hh : HintOk f hint) :
    ∀ (steps k : Nat), k < f.rlist.length → f.rlist.length ≤ k + steps → start_of f k ≤ offset →
      ∃ r, scan_records f offset 1 hint steps k = .ok r ∧ r.1.At f offset ∧ HintOk f r.2
  | 0, k, hk, hs, _ => by omega
  | steps + 1, k, hk, hs, hle => by
    have hnr := hf.nr_records
    have hstart : f.rlist[k].file_start = start_of f k := hf.file_start k hk
    have hsucc := start_of_succ hk
    unfold linefeeds at hsucc
    rw [scan_records, if_neg (by omega), record_at_eq hk]
    simp only [bind, Except.bind, pure, Except.pure]
    by_cases hin : offset_in_record offset f.rlist[k] = true
    · rw [if_pos hin]
      refine ⟨_, rfl, ?_, set_hint_ok ⟨by omega, by omega⟩⟩
      exact ⟨by rw [Int.toNat_natCast]; exact List.getElem?_eq_getElem hk, offset_in_record_iff.mp hin⟩
    · rw [if_neg hin]
      have hout : start_of f k + f.rlist[k].total_len ≤ offset := by
        rw [offset_in_record_iff, not_and, hstart] at hin
        omega
      by_cases hlast : (k : Int) = f.nr_records - 1
      · have hend : start_of f (k + 1) = f.session_size := by
          rw [← start_of_length hf]
          congr 1
          omega
        rw [if_pos hlast, hstart]
        by_cases hl : f.linefeed = true ∧ offset = start_of f k + f.rlist[k].total_len
        · rw [if_pos (by simpa using hl)]
          exact ⟨_, rfl, ⟨hl.1, k, hk, hl.2⟩, hh⟩
        · rw [if_neg (by simpa using hl)]
          refine ⟨_, rfl, ?_, hh⟩
          show f.session_size ≤ offset
          rw [← hend]
          split at hsucc
          · rename_i hlf
            have : offset ≠ start_of f k + f.rlist[k].total_len := fun he => hl ⟨hlf, he⟩
            omega
          · omega
      · have hk1 : k + 1 < f.rlist.length := by omega
        have hcast : (k : Int) + 1 = (k + 1 : Nat) := by omega
        rw [if_neg hlast, if_pos trivial, hcast, offset_is_linefeed_eq hf hk1]
        dsimp only
        by_cases hl : f.linefeed = true ∧ offset = start_of f k + f.rlist[k].total_len
        · rw [if_pos (decide_eq_true hl)]
          exact ⟨_, rfl, ⟨hl.1, k, hk, hl.2⟩, hh⟩
        · rw [if_neg (by simpa using hl)]
          refine scan_records_eq hf hh steps (k + 1) hk1 (by omega) ?_
          split at hsucc
          · rename_i hlf
            have : offset ≠ start_of f k + f.rlist[k].total_len := fun he => hl ⟨hlf, he⟩
            omega
          · omega

theorem guess_record_number_eq (hf : f.Correct c) (hpos : 0 < f.session_size) {offset : Nat}
    (h : offset ≤ f.session_size) :
    ∃ k, k < f.rlist.length ∧ guess_record_number f offset = .ok (k : Int) ∧ start_of f k ≤ offset := by
  have hnr := hf.nr_records
  have hlt := hf.nr_lt
  have hall := start_of_guess hf _ (Nat.le_refl _)
  rw [start_of_length hf] at hall
  have hg : f.guess_len ≠ 0 := by
    intro h0
    rw [h0, Nat.mul_zero] at hall
    omega
  have hn : 0 < f.rlist.length := by
    rcases Nat.eq_zero_or_pos f.rlist.length with h0 | h0
    · rw [h0, Nat.zero_mul] at hall
      omega
    · exact h0
  have hq : offset / f.guess_len ≤ f.rlist.length := by
    rw [Nat.div_le_iff_le_mul_add_pred (Nat.pos_of_ne_zero hg), Nat.mul_comm]
    omega
  have hcast : i32 (offset / f.guess_len : Nat) = (offset / f.guess_len : Nat) :=
    i32_of_lt (Nat.lt_of_le_of_lt (hq.trans_eq hnr) hlt)
  have hdm := Nat.div_mul_le_self offset f.guess_len
  unfold guess_record_number
  rw [if_neg hg, hcast]
  dsimp only
  by_cases hge : ((offset / f.guess_len : Nat) : Int) ≥ f.nr_records
  · rw [if_pos hge]
    refine ⟨f.rlist.length - 1, by omega, congrArg Except.ok (by omega), ?_⟩
    refine (start_of_guess hf _ (by omega)).trans (le_trans ?_ hdm)
    exact Nat.mul_le_mul_right _ (by omega)
  · rw [if_neg hge]
    exact ⟨_, by omega, rfl, (start_of_guess hf _ (by omega)).trans hdm⟩

theorem search_record_eq (hf : f.Correct c) (hpos : 0 < f.session_size) {offset : Nat} (h : offset ≤ f.session_size)
    {hint : Int} (hh : HintOk f hint) :
    ∃ r, search_record f offset hint = .ok r ∧ r.1.At f offset ∧ HintOk f r.2 := by
  obtain ⟨k, hk, hguess, hle⟩ := guess_record_number_eq hf hpos h
  have hstart : f.rlist[k].file_start = start_of f k := hf.file_start k hk
  unfold search_record
  simp only [hguess, record_at_eq hk, bind, Except.bind]
  rw [if_neg (by omega), ← hf.nr_records]
  exact scan_records_eq hf hh _ k hk (by omega) hle

theorem find_record_eq (hf : f.Correct c) (hpos : 0 < f.session_size) {offset : Nat} (h : offset ≤ f.session_size)
    {hint : Int} (hh : HintOk f hint) :
    ∃ r, find_record f hint offset = .ok r ∧ r.1.At f offset ∧ HintOk f r.2 := by
  obtain ⟨k, rfl⟩ := Int.eq_ofNat_of_zero_le hh.1
  have hk : k < f.rlist.length := by rw [hf.nr_records]; have := hh.2; omega
  unfold find_record
  simp only [record_at_eq hk, bind, Except.bind, pure, Except.pure]
  by_cases hin : offset_in_record offset f.rlist[k] = true
  · rw [if_pos hin]
    refine ⟨_, rfl, ?_, set_hint_ok hh⟩
    exact ⟨by rw [Int.toNat_natCast]; exact List.getElem?_eq_getElem hk, offset_in_record_iff.mp hin⟩
  · rw [if_neg hin]
    by_cases hb : f.linefeed = true ∧ 0 < k
    · obtain ⟨j, rfl⟩ : ∃ j, k = j + 1 := ⟨k - 1, by omega⟩
      have hcast : ((j + 1 : Nat) : Int) - 1 = j := by omega
      rw [if_pos (by simpa using hb.1), hcast, offset_is_linefeed_eq hf hk]
      dsimp only
      by_cases hl : f.linefeed = true ∧ offset = start_of f j + f.rlist[j].total_len
      · rw [if_pos (decide_eq_true hl)]
        exact ⟨_, rfl, ⟨hl.1, j, Nat.lt_of_succ_lt hk, hl.2⟩, hh⟩
      · rw [if_neg (by simpa using hl)]
        exact search_record_eq hf hpos h hh
    · rw [if_neg (by simpa using hb)]
      exact search_record_eq hf hpos h hh

/-! ## The slice of the content -/

variable {m} {g : UInt8 → UInt8}

theorem length_record_content (hf : f.Correct c) {rec : Record} (h : rec ∈ f.rlist) :
    (record_content f m g rec).length = rec.total_len + linefeeds f := by
  unfold record_content record_bytes
  rw [List.length_append, List.length_map, List.length_replicate, length_pieces, ← hf.total_len rec h]

theorem length_content (hf : f.Correct c) : (content f m g).length = f.session_size := by
  unfold content
  rw [List.length_flatMap, hf.session_size]
  exact congrArg List.sum (List.map_congr_left fun rec h => length_record_content hf h)

theorem content_drop_start (hf : f.Correct c) {k : Nat} (h : k < f.rlist.length) :
    (content f m g).drop (start_of f k) =
      record_content f m g f.rlist[k] ++ (f.rlist.drop (k + 1)).flatMap (record_content f m g) := by
  have hsplit : content f m g = (f.rlist.take k).flatMap (record_content f m g) ++
      (f.rlist.drop k).flatMap (record_content f m g) := by
    unfold content
    rw [← List.flatMap_append, List.take_append_drop]
  have hlen : ((f.rlist.take k).flatMap (record_content f m g)).length = start_of f k := by
    rw [List.length_flatMap]
    exact congrArg List.sum (List.map_congr_left fun rec hr => length_record_content hf (List.mem_of_mem_take hr))
  rw [hsplit, ← hlen, List.drop_left, List.drop_eq_getElem_cons h, List.flatMap_cons]

theorem content_drop_linefeed (hf : f.Correct c) (hl : f.linefeed = true) {k : Nat} (h : k < f.rlist.length) :
    ∃ rest, (content f m g).drop (start_of f k + f.rlist[k].total_len) = linefeed_byte f :: rest := by
  have hrec := List.getElem_mem h
  have hlen : (record_bytes f m g f.rlist[k]).length = f.rlist[k].total_len := by
    unfold record_bytes
    rw [List.length_map, length_pieces, ← hf.total_len _ hrec]
  refine ⟨(f.rlist.drop (k + 1)).flatMap (record_content f m g), ?_⟩
  rw [← List.drop_drop, content_drop_start hf h]
  unfold record_content linefeeds
  rw [if_pos hl, List.append_assoc, ← hlen, List.drop_left]
  rfl

theorem content_drop_record (hf : f.Correct c) {k offset : Nat} (h : k < f.rlist.length)
    (hle : f.rlist[k].file_start ≤ offset) (hlt : offset < f.rlist[k].file_start + f.rlist[k].total_len) :
    ∃ a n rest, get_block_data_from_record f.rlist[k] offset = .ok (a, n) ∧ Chunk c a n ∧
      (content f m g).drop offset = (piece_bytes m (a, n)).map (if f.translate then g else id) ++ rest := by
  have hrec := List.getElem_mem h
  have hstart : f.rlist[k].file_start = start_of f k := hf.file_start k h
  obtain ⟨a, n, rest, hget, hc, hd⟩ := get_block_data_eq m hf hrec hle hlt
  have hoff : offset = start_of f k + (offset - f.rlist[k].file_start) := by omega
  have hlen : (record_bytes f m g f.rlist[k]).length = f.rlist[k].total_len := by
    unfold record_bytes
    rw [List.length_map, length_pieces, ← hf.total_len _ hrec]
  have hbytes : (record_bytes f m g f.rlist[k]).drop (offset - f.rlist[k].file_start) =
      (piece_bytes m (a, n)).map (if f.translate then g else id) ++ rest.map (if f.translate then g else id) := by
    unfold record_bytes
    rw [← List.map_drop, hd, List.map_append]
  have hcontent := content_drop_start (m := m) (g := g) hf h
  unfold record_content at hcontent
  refine ⟨a, n, rest.map (if f.translate then g else id) ++ (List.replicate (linefeeds f) (linefeed_byte f) ++
    (f.rlist.drop (k + 1)).flatMap (record_content f m g)), hget, hc, ?_⟩
  rw [hoff, ← List.drop_drop, hcontent, List.append_assoc,
    List.drop_append_of_le_length (by rw [hlen]; omega), hbytes,
    List.append_assoc]
  rfl

variable {iconv : List UInt8 → Option (List UInt8)}

theorem convert_text_eq (hconv : ∀ bs, iconv bs = some (bs.map g)) (bs : List UInt8) :
    convert_text f iconv bs = some (bs.map (if f.translate then g else id)) := by
  unfold convert_text
  split
  · exact hconv bs
  · rw [List.map_id]

theorem read_records_eq (hf : f.Correct c) (hconv : ∀ bs, iconv bs = some (bs.map g)) (hpos : 0 < f.session_size) :
    ∀ (steps : Nat) {hint : Int} {offset : Nat} (size : Nat) (buf : List UInt8), HintOk f hint → size ≤ steps →
      offset ≤ f.session_size →
      ∃ r, read_records f c m iconv steps hint offset size buf = .ok r ∧ HintOk f r.2.2 ∧
        (offset + size ≤ f.session_size →
          r.1 = i32 (buf.length + size : Nat) ∧ r.2.1 = buf ++ ((content f m g).drop offset).take size) := by
  intro steps
  induction steps with
  | zero =>
    intro hint offset size buf hh hs ho
    obtain rfl := Nat.le_zero.mp hs
    rw [read_records]
    exact ⟨_, if_pos rfl, hh, fun _ => ⟨rfl, by rw [List.take_zero, List.append_nil]⟩⟩
  | succ steps ih =>
    intro hint offset size buf hh hs ho
    rw [read_records]
    by_cases h0 : size = 0
    · subst h0
      exact ⟨_, if_pos rfl, hh, fun _ => ⟨rfl, by rw [List.take_zero, List.append_nil]⟩⟩
    · rw [if_neg h0]
      dsimp only
      obtain ⟨⟨found, hint'⟩, hfind, hat, hh'⟩ := find_record_eq hf hpos ho hh
      rw [hfind]
      cases found with
      | null =>
        have hend : f.session_size ≤ offset := hat
        exact ⟨_, rfl, hh', fun h => by omega⟩
      | linefeed =>
        obtain ⟨hl, k, hk, hoff⟩ := hat
        obtain ⟨rest, hd⟩ := content_drop_linefeed (m := m) (g := g) hf hl hk
        have hnext : offset + 1 ≤ f.session_size := by
          have hlf : linefeeds f = 1 := if_pos hl
          have hsucc := start_of_succ hk
          have hle : start_of f (k + 1) ≤ start_of f f.rlist.length := start_of_le hk
          rw [start_of_length hf] at hle
          omega
        rw [← hoff] at hd
        obtain ⟨r, hr, hhr, hin⟩ := ih (size - 1) (buf ++ [linefeed_byte f]) hh' (by omega) hnext
        refine ⟨r, (if_pos hl).trans hr, hhr, fun hle => ?_⟩
        obtain ⟨hret, hbuf⟩ := hin (by omega)
        refine ⟨?_, ?_⟩
        · rw [hret, List.length_append, List.length_singleton]
          exact congrArg (fun n : Nat => i32 n) (by omega)
        · obtain ⟨size', rfl⟩ : ∃ s, size = s + 1 := ⟨size - 1, by omega⟩
          rw [hbuf, ← List.drop_drop, hd, List.append_assoc]
          rfl
      | record nr rec =>
        obtain ⟨hrec, hle, hlt⟩ := hat
        obtain ⟨hk, rfl⟩ := List.getElem?_eq_some_iff.mp hrec
        obtain ⟨a, n, rest, hget, hc, hd⟩ := content_drop_record (m := m) (g := g) hf hk hle hlt
        have hpiece : (piece_bytes m (a, n)).length = n := length_piece_bytes m (a, n)
        have hlen := congrArg List.length hd
        rw [List.length_drop, length_content hf, List.length_append, List.length_map, hpiece] at hlen
        have hchunk : (if size < n then size else n) = min size n := by
          split
          · omega
          · omega
        dsimp only
        rw [hget]
        dsimp only
        rw [if_neg (Nat.ne_of_gt hc.pos), hchunk]
        rw [hc.read c m (by have := hc.pos; omega) (Nat.min_le_right _ _)]
        dsimp only
        rw [convert_text_eq hconv]
        dsimp only
        have hpos' := hc.pos
        have hends : offset + min size n ≤ f.session_size := by
          have := hpos
          omega
        obtain ⟨r, hr, hhr, hin⟩ := ih (size - min size n)
          (buf ++ ((piece_bytes m (a, n)).take (min size n)).map (if f.translate then g else id))
            hh' (by omega) hends
        refine ⟨r, hr, hhr, fun hfit => ?_⟩
        obtain ⟨hret, hbuf⟩ := hin (by omega)
        refine ⟨?_, ?_⟩
        · rw [hret, List.length_append, List.length_map, List.length_take, hpiece]
          exact congrArg (fun n : Nat => i32 n) (by omega)
        · have htake : ((content f m g).drop offset).take (min size n) =
              ((piece_bytes m (a, n)).take (min size n)).map (if f.translate then g else id) := by
            rw [hd, List.take_append_of_le_length
              (by rw [List.length_map, hpiece]; exact Nat.min_le_right _ _), List.map_take]
          rw [hbuf, List.append_assoc, ← htake, ← List.drop_drop]
          refine congrArg (buf ++ ·) ?_
          have hsize : size = min size n + (size - min size n) := by omega
          conv => rhs; rw [hsize]
          rw [List.take_add]

/-! ## Sequences of reads -/

variable (f c m iconv) in
def hint_after : Int → List (Nat × Nat) → Except ReadStop Int
  | hint, [] => .ok hint
  | hint, (size, offset) :: calls =>
    match cmsfs_read f c m iconv hint size offset with
    | .error e => .error e
    | .ok (_, _, hint) => hint_after hint calls

theorem cmsfs_read_hint (hf : f.Correct c) (hconv : ∀ bs, iconv bs = some (bs.map g)) {hint : Int}
    (hh : 0 < f.session_size → HintOk f hint) (size offset : Nat) :
    ∃ r, cmsfs_read f c m iconv hint size offset = .ok r ∧ (0 < f.session_size → HintOk f r.2.2) := by
  unfold cmsfs_read
  by_cases hge : offset ≥ f.session_size
  · exact ⟨_, if_pos hge, hh⟩
  · rw [if_neg hge]
    have hpos : 0 < f.session_size := by omega
    obtain ⟨r, hr, hhr, _⟩ := read_records_eq (m := m) hf hconv hpos
      (if u64 (offset + size : Nat) > f.session_size then f.session_size - offset else size) _ []
        (hh hpos) (Nat.le_refl _)
      (Nat.le_of_lt (Nat.not_le.mp hge))
    exact ⟨r, hr, fun _ => hhr⟩

theorem hint_after_ok (hf : f.Correct c) (hconv : ∀ bs, iconv bs = some (bs.map g)) (calls : List (Nat × Nat)) :
    ∀ {hint : Int}, (0 < f.session_size → HintOk f hint) →
      ∃ hint', hint_after f c m iconv hint calls = .ok hint' ∧ (0 < f.session_size → HintOk f hint') := by
  induction calls with
  | nil => exact fun hh => ⟨_, rfl, hh⟩
  | cons call calls ih =>
    intro hint hh
    obtain ⟨size, offset⟩ := call
    obtain ⟨⟨ret, buf, hint'⟩, hr, hhr⟩ := cmsfs_read_hint (m := m) hf hconv hh size offset
    rw [hint_after, hr]
    exact ih hhr

theorem hint_zero_ok (hf : f.Correct c) (hpos : 0 < f.session_size) : HintOk f 0 := by
  obtain ⟨k, hk, -⟩ := exists_record hf hpos
  have := hf.nr_records
  exact ⟨Int.le_refl _, by omega⟩

theorem cmsfs_read_slice (hf : f.Correct c) (hconv : ∀ bs, iconv bs = some (bs.map g)) {hint : Int}
    (hh : HintOk f hint)
    {size offset : Nat} (hoff : offset < f.session_size) (hsum : offset + size < 18446744073709551616) :
    ∃ hint', cmsfs_read f c m iconv hint size offset =
      .ok (i32 (min size (f.session_size - offset) : Nat), ((content f m g).drop offset).take size, hint') := by
  have hu : u64 (offset + size : Nat) = offset + size := by
    apply u64_eq <;> omega
  have hclip : (if u64 (offset + size : Nat) > f.session_size then f.session_size - offset else size) =
      min size (f.session_size - offset) := by
    rw [hu]
    split
    · omega
    · omega
  obtain ⟨⟨ret, buf, hint'⟩, hr, -, hin⟩ := read_records_eq (m := m) hf hconv (Nat.zero_lt_of_lt hoff)
    (min size (f.session_size - offset)) _ [] hh (Nat.le_refl _) (Nat.le_of_lt hoff)
  obtain ⟨hret, hbuf⟩ := hin (by omega)
  dsimp only at hret hbuf
  rw [List.length_nil, Nat.zero_add] at hret
  have hlen : ((content f m g).drop offset).length = f.session_size - offset := by
    rw [List.length_drop, length_content hf]
  have htake : ((content f m g).drop offset).take (min size (f.session_size - offset)) =
      ((content f m g).drop offset).take size := by
    rw [← hlen, List.take_eq_take_iff]
    omega
  rw [List.nil_append, htake] at hbuf
  unfold cmsfs_read
  rw [if_neg (Nat.not_le.mpr hoff)]
  dsimp only
  rw [hclip, hr, hret, hbuf]
  exact ⟨hint', rfl⟩

/-- The size of a read request: the kernel passes 32 bits, not more than `max_read`, and reads at most
0x7ffff000 bytes in one call. -/
def FuseSize (size : Nat) : Prop :=
  size < 2147483648

end

/-! ## A file with two records -/

def readDevice : Device := { blksize := 512, label := 1024, total_blocks := 10 }

def readFile : OpenFile where
  nr_records := 2
  record_len := 5
  rlist := [⟨5, 0, 3, 0, true, [⟨1024, 2, false, 1⟩], 0⟩, ⟨4, 1026, 4, 6, false, [], 1⟩]
  linefeed := true
  translate := false
  session_size := 11

theorem readFile_correct : readFile.Correct readDevice := by
  refine ⟨rfl, by decide, by decide, by decide, ?_, rfl, by decide, by decide⟩
  intro k h
  have : k = 0 ∨ k = 1 := by
    simp only [readFile, List.length_cons, List.length_nil] at h
    omega
  rcases this with rfl | rfl
  · rfl
  · rfl

end Cmsfs
