import S390Tools.Libzds.Track
import S390Tools.Lib.Run

/-!
# Records of a data set (libzds/libzds.c)

A fixed record is copied as it is. A record of a data set with variable records
holds a block: a block descriptor and segments, each with its own descriptor.
`target` is the position in a data buffer of `databufmax` bytes.
-/

namespace Libzds

open Stdio

def sizeofSegment : Nat := 4

def seg_length (m : Mem) (seghead : Nat) : Nat := word m seghead 2 % 32768
def nullsegment (m : Mem) (seghead : Nat) : Nat := word m seghead 2 / 32768

section
variable (m : Mem) (size databufmax : Nat)

def copy (target data n : Nat) : Except Stop Bytes :=
  if n = 0 then .ok []
  else do
    access size data n
    access databufmax target n
    .ok (bytes m data n)

def parse_fixed_record (rec target : Nat) : Except Stop Bytes := do
  access size (rec + 5) 3
  if target + dl m rec > databufmax then .error (.error .EPROTO)
  else copy m size databufmax target (rec + sizeofCount + kl m rec) (dl m rec)

@[grind =] def parse_segments (keepRDW : Bool) : Nat → Nat → Nat → Nat → Except Stop Bytes
  | 0, _, _, _ => .error .endless
  | steps + 1, data, residual, target =>
    if residual = 0 then .ok []
    else do
      access size data 2
      let segmentlength := seg_length m data
      if nullsegment m data ≠ 0 ∨ segmentlength = 0 then .ok []
      else if residual < segmentlength ∨ segmentlength < sizeofSegment then .error (.error .EPROTO)
      else
        let skip := if keepRDW then 0 else sizeofSegment
        if target + (segmentlength - skip) > databufmax then .error (.error .EPROTO)
        else do
          let copied ← copy m size databufmax target (data + skip) (segmentlength - skip)
          let rest ← parse_segments keepRDW steps (data + segmentlength) (residual - segmentlength)
            (target + (segmentlength - skip))
          .ok (copied ++ rest)

def parse_variable_record (rec target : Nat) (keepRDW : Bool) : Except Stop Bytes := do
  access size (rec + 5) 3
  if dl m rec = 0 then .ok []
  else if dl m rec < sizeofSegment then .error (.error .EPROTO)
  else do
    let data := rec + sizeofCount + kl m rec
    access size data 2
    let blocklength := seg_length m data
    if blocklength = 0 then .ok []
    else if blocklength < sizeofSegment ∨ blocklength > dl m rec then .error (.error .EPROTO)
    else
      parse_segments m size databufmax keepRDW (blocklength + 1) (data + sizeofSegment)
        (blocklength - sizeofSegment) target

end

/-! ## Blocks -/

/-- A segment: what stands behind the length in its descriptor, and its data. -/
structure Segment where
  control : UInt8 × UInt8
  payload : Bytes
  limit : payload.length + sizeofSegment < 32768

def Segment.bytes (s : Segment) : Bytes :=
  be 2 (s.payload.length + sizeofSegment : Nat) ++ [s.control.1, s.control.2] ++ s.payload

def extracted (keepRDW : Bool) (segs : List Segment) : Bytes :=
  segs.flatMap fun s => if keepRDW then s.bytes else s.payload

/-- What stands behind the last segment: nothing, or a null segment and any bytes. -/
def Terminates (tail : Bytes) : Prop :=
  tail = [] ∨ 2 ≤ tail.length ∧ (unbe (tail.take 2) / 32768 ≠ 0 ∨ unbe (tail.take 2) % 32768 = 0)

structure HoldsBlock (m : Mem) (rec : Nat) (segs : List Segment) (tail : Bytes) : Prop where
  terminates : Terminates tail
  length : seg_length m (rec + sizeofCount + kl m rec) = sizeofSegment + (segs.flatMap Segment.bytes ++ tail).length
  fits : sizeofSegment + (segs.flatMap Segment.bytes ++ tail).length ≤ dl m rec
  content : bytes m (rec + sizeofCount + kl m rec + sizeofSegment) (segs.flatMap Segment.bytes ++ tail).length =
    segs.flatMap Segment.bytes ++ tail

/-- From `data` on stand segments up to one that is shorter than its descriptor or longer than what is left. -/
inductive Inconsistent (m : Mem) : Nat → Nat → Prop
  | here {data residual : Nat} : residual ≠ 0 → nullsegment m data = 0 → seg_length m data ≠ 0 →
      residual < seg_length m data ∨ seg_length m data < sizeofSegment → Inconsistent m data residual
  | later {data residual : Nat} : nullsegment m data = 0 → sizeofSegment ≤ seg_length m data →
      seg_length m data ≤ residual →
      Inconsistent m (data + seg_length m data) (residual - seg_length m data) → Inconsistent m data residual

/-- The lengths of the block or of its segments do not fit. -/
inductive InconsistentRecord (m : Mem) (rec : Nat) : Prop
  | record : dl m rec ≠ 0 → dl m rec < sizeofSegment → InconsistentRecord m rec
  | block : sizeofSegment ≤ dl m rec → seg_length m (rec + sizeofCount + kl m rec) ≠ 0 →
      seg_length m (rec + sizeofCount + kl m rec) < sizeofSegment ∨
        dl m rec < seg_length m (rec + sizeofCount + kl m rec) →
      InconsistentRecord m rec
  | segment : sizeofSegment ≤ seg_length m (rec + sizeofCount + kl m rec) →
      seg_length m (rec + sizeofCount + kl m rec) ≤ dl m rec →
      Inconsistent m (rec + sizeofCount + kl m rec + sizeofSegment)
        (seg_length m (rec + sizeofCount + kl m rec) - sizeofSegment) → InconsistentRecord m rec

def strip : Nat → Bytes → Bytes
  | 0, _ => []
  | steps + 1, d =>
    if d = [] then []
    else (d.take (unbe (d.take 2) % 32768)).drop sizeofSegment ++ strip steps (d.drop (unbe (d.take 2) % 32768))

section
variable {m : Mem}

theorem bytes_add (o a b : Nat) : bytes m o (a + b) = bytes m o a ++ bytes m (o + a) b := by
  rw [bytes, bytes, bytes, List.range_add, List.map_append, List.map_map]
  congr 1
  exact List.map_congr_left fun i _ => congrArg m (Nat.add_assoc o a i).symm

theorem take_bytes {o n k : Nat} (h : k ≤ n) : (bytes m o n).take k = bytes m o k := by
  obtain ⟨j, rfl⟩ := Nat.exists_eq_add_of_le h
  rw [bytes_add, List.take_left' (length_bytes o k)]

theorem drop_bytes {o n k : Nat} (h : k ≤ n) : (bytes m o n).drop k = bytes m (o + k) (n - k) := by
  obtain ⟨j, rfl⟩ := Nat.exists_eq_add_of_le h
  rw [bytes_add, List.drop_left' (length_bytes o k), Nat.add_sub_cancel_left]

theorem bytes_append {o : Nat} {d e : Bytes} (h : bytes m o (d ++ e).length = d ++ e) :
    bytes m o d.length = d ∧ bytes m (o + d.length) e.length = e := by
  rw [List.length_append, bytes_add] at h
  exact List.append_inj h (length_bytes o d.length)

theorem Segment.length_bytes (s : Segment) : s.bytes.length = s.payload.length + sizeofSegment := by
  rw [Segment.bytes, List.length_append, List.length_append, length_be, sizeofSegment]
  exact Nat.add_comm _ _

theorem Segment.word_bytes (s : Segment) {data : Nat} (h : Libzds.bytes m data s.bytes.length = s.bytes) :
    word m data 2 = s.payload.length + sizeofSegment := by
  have hle : 2 ≤ s.bytes.length := by
    rw [s.length_bytes, sizeofSegment]
    omega
  have htake := take_bytes (m := m) (o := data) hle
  rw [h] at htake
  have hlimit := s.limit
  rw [word, ← htake, Segment.bytes, List.append_assoc, List.take_left' (length_be 2 _), unbe_be]
  exact Nat.mod_eq_of_lt (by omega)

theorem Segment.payload_bytes (s : Segment) {data : Nat} (h : Libzds.bytes m data s.bytes.length = s.bytes) :
    Libzds.bytes m (data + sizeofSegment) s.payload.length = s.payload := by
  have hle : sizeofSegment ≤ s.bytes.length := by
    rw [s.length_bytes]
    exact Nat.le_add_left _ _
  have hdrop := drop_bytes (m := m) (o := data) hle
  rw [h, s.length_bytes, Nat.add_sub_cancel] at hdrop
  rw [← hdrop, Segment.bytes, List.drop_left']
  rw [List.length_append, length_be, sizeofSegment]
  rfl

end

section
variable {m : Mem} {size databufmax : Nat}

theorem copy_ok {target data n : Nat} (hread : data + n ≤ size) (hwrite : target + n ≤ databufmax) :
    copy m size databufmax target data n = .ok (bytes m data n) := by
  rw [copy]
  split
  · rename_i h0
    rw [h0]
    rfl
  · rw [access_ok hread, access_ok hwrite]
    rfl

theorem parse_segments_eq {tail : Bytes} (htail : Terminates tail) {keepRDW : Bool} :
    ∀ {segs : List Segment} {steps data target : Nat},
      bytes m data (segs.flatMap Segment.bytes ++ tail).length = segs.flatMap Segment.bytes ++ tail →
      (segs.flatMap Segment.bytes ++ tail).length < steps →
        data + (segs.flatMap Segment.bytes ++ tail).length < size →
      target ≤ databufmax →
      parse_segments m size databufmax keepRDW steps data (segs.flatMap Segment.bytes ++ tail).length target =
        if target + (extracted keepRDW segs).length ≤ databufmax then .ok (extracted keepRDW segs)
          else .error (.error .EPROTO)
  | _, 0, _, _, _, h, _, _ => absurd h (Nat.not_lt_zero _)
  | [], steps + 1, data, target, hmem, _, hsize, htarget => by
    rw [List.flatMap_nil, List.nil_append] at hmem hsize ⊢
    rw [if_pos (show target + (extracted keepRDW []).length ≤ databufmax from htarget), parse_segments]
    rcases htail with rfl | ⟨hlen, hnull⟩
    · rfl
    · have htake := take_bytes (m := m) (o := data) hlen
      rw [hmem] at htake
      rw [if_neg (by omega), access_ok (by omega)]
      show (if _ then _ else _) = _
      rw [if_pos]
      · rfl
      · rw [nullsegment, seg_length, word, ← htake]
        exact hnull
  | s :: segs, steps + 1, data, target, hmem, hsteps, hsize, htarget => by
    rw [List.flatMap_cons, List.append_assoc] at hmem hsteps hsize ⊢
    obtain ⟨hs, hrest⟩ := bytes_append hmem
    have hword := s.word_bytes hs
    have hlimit := s.limit
    have hlen : seg_length m data = s.bytes.length := by
      rw [seg_length, hword, s.length_bytes]
      exact Nat.mod_eq_of_lt hlimit
    have hnull : nullsegment m data = 0 := by
      rw [nullsegment, hword]
      exact Nat.div_eq_of_lt hlimit
    have hpos : sizeofSegment ≤ s.bytes.length := by
      rw [s.length_bytes]
      exact Nat.le_add_left _ _
    rw [List.length_append] at hsteps hsize ⊢
    rw [sizeofSegment] at hpos
    have hskip : (if keepRDW then 0 else sizeofSegment) ≤ s.bytes.length := by
      rw [sizeofSegment]
      split
      · exact Nat.zero_le _
      · exact hpos
    have hcopied : bytes m (data + if keepRDW then 0 else sizeofSegment)
      (s.bytes.length - if keepRDW then 0 else sizeofSegment) =
        if keepRDW then s.bytes else s.payload := by
      cases keepRDW with
      | true => exact hs
      | false =>
        have hpayload := s.payload_bytes hs
        rw [if_neg Bool.false_ne_true, if_neg Bool.false_ne_true, s.length_bytes, Nat.add_sub_cancel]
        exact hpayload
    have hclen : (if keepRDW then s.bytes else s.payload).length =
        s.bytes.length - if keepRDW then 0 else sizeofSegment := by
      rw [← hcopied, Libzds.length_bytes]
    have hext : (extracted keepRDW (s :: segs)) = (if keepRDW then s.bytes else s.payload) ++
      extracted keepRDW segs :=
      List.flatMap_cons
    rw [parse_segments, if_neg (by omega), access_ok (by omega)]
    show (if _ then _ else _) = _
    rw [hlen, hnull, if_neg (by omega), if_neg (by rw [sizeofSegment]; omega)]
    dsimp only
    rw [hext, @List.length_append _ (if keepRDW then s.bytes else s.payload), hclen]
    by_cases hroom : target + (s.bytes.length - if keepRDW then 0 else sizeofSegment) ≤ databufmax
    · have ih := @parse_segments_eq tail htail keepRDW segs steps (data + s.bytes.length)
        (target + (s.bytes.length - if keepRDW then 0 else sizeofSegment)) hrest (by omega) (by omega) hroom
      rw [if_neg (Nat.not_lt_of_le hroom), copy_ok (by omega) hroom, Nat.add_sub_cancel_left, hcopied]
      show (parse_segments _ _ _ _ _ _ _ _ >>= _) = _
      rw [ih, ← Nat.add_assoc]
      by_cases hfit : target + (s.bytes.length - if keepRDW then 0 else sizeofSegment) +
          (extracted keepRDW segs).length ≤ databufmax
      · rw [if_pos hfit, if_pos hfit]
        rfl
      · rw [if_neg hfit, if_neg hfit]
        rfl
    · rw [if_pos (Nat.lt_of_not_le hroom), if_neg (by omega)]

theorem parse_segments_inconsistent {keepRDW : Bool} {data residual : Nat} (h : Inconsistent m data residual) :
    ∀ {steps target : Nat}, residual < steps → data + residual < size →
      parse_segments m size databufmax keepRDW steps data residual target = .error (.error .EPROTO) := by
  induction h with
  | @here data residual hres hnull hlen hbad =>
    intro steps target hsteps hsize
    obtain ⟨steps, rfl⟩ := Nat.exists_eq_add_of_lt (Nat.zero_lt_of_lt hsteps)
    rw [Nat.zero_add, parse_segments, if_neg hres, access_ok (by omega)]
    show (if _ then _ else _) = _
    rw [if_neg (by omega), if_pos hbad]
  | @later data residual hnull hmin hmax _ ih =>
    intro steps target hsteps hsize
    obtain ⟨steps, rfl⟩ := Nat.exists_eq_add_of_lt (Nat.zero_lt_of_lt hsteps)
    rw [sizeofSegment] at hmin
    rw [Nat.zero_add, parse_segments, if_neg (by omega), access_ok (by omega)]
    show (if _ then _ else _) = _
    rw [if_neg (by omega), if_neg (by rw [sizeofSegment]; omega)]
    dsimp only
    have hskip : (if keepRDW then 0 else sizeofSegment) ≤ 4 := by
      split
      · exact Nat.zero_le _
      · exact Nat.le_refl _
    by_cases hroom : target + (seg_length m data - if keepRDW then 0 else sizeofSegment) ≤ databufmax
    · rw [if_neg (Nat.not_lt_of_le hroom), copy_ok (by omega) hroom]
      show (parse_segments _ _ _ _ _ _ _ _ >>= _) = _
      rw [ih (by omega) (by omega)]
      rfl
    · rw [if_pos (Nat.lt_of_not_le hroom)]

theorem parse_segments_strip : ∀ {steps fuel data residual target target' : Nat} {d : Bytes},
    target' ≤ target → d.length < fuel →
    parse_segments m size databufmax true steps data residual target = .ok d →
    parse_segments m size databufmax false steps data residual target' = .ok (strip fuel d)
  | 0, _, _, _, _, _, _, _, _, h => by cases h
  | _, 0, _, _, _, _, _, _, h, _ => absurd h (Nat.not_lt_zero _)
  | steps + 1, fuel + 1, data, residual, target, target', d, hle, hfuel, h => by
    rw [parse_segments] at h ⊢
    by_cases h0 : residual = 0
    · rw [if_pos h0] at h ⊢
      cases h
      rfl
    · rw [if_neg h0] at h ⊢
      obtain ⟨_, hread, h⟩ := Run.bind_eq_ok h
      rw [hread]
      show (if _ then _ else _) = _
      by_cases hnull : nullsegment m data ≠ 0 ∨ seg_length m data = 0
      · rw [if_pos hnull] at h ⊢
        cases h
        rfl
      · rw [if_neg hnull] at h ⊢
        by_cases hbad : residual < seg_length m data ∨ seg_length m data < sizeofSegment
        · rw [if_pos hbad] at h
          cases h
        · rw [if_neg hbad] at h ⊢
          dsimp only at h ⊢
          rw [if_pos rfl, Nat.sub_zero, Nat.add_zero] at h
          rw [if_neg Bool.false_ne_true]
          split at h
          · cases h
          · rename_i hroom
            obtain ⟨copied, hcopy, h⟩ := Run.bind_eq_ok h
            obtain ⟨rest, hrest, h⟩ := Run.bind_eq_ok h
            cases h
            rw [sizeofSegment] at hbad ⊢
            rw [copy, if_neg (by omega)] at hcopy
            obtain ⟨_, hin, hcopy⟩ := Run.bind_eq_ok hcopy
            obtain ⟨_, -, hcopy⟩ := Run.bind_eq_ok hcopy
            cases hcopy
            have hin := access_eq_ok hin
            rw [List.length_append, length_bytes] at hfuel
            have ih := @parse_segments_strip steps fuel (data + seg_length m data) (residual - seg_length m data)
              (target + seg_length m data) (target' + (seg_length m data - 4)) rest (by omega) (by omega) hrest
            have hlen : unbe ((bytes m data (seg_length m data) ++ rest).take 2) % 32768 = seg_length m data := by
              rw [List.take_append_of_le_length (by rw [length_bytes]; omega), take_bytes (by omega)]
              rfl
            have hne : bytes m data (seg_length m data) ++ rest ≠ [] :=
              List.ne_nil_of_length_pos (by rw [List.length_append, length_bytes]; omega)
            rw [if_neg (by omega), copy_ok (by omega) (by omega)]
            show (parse_segments _ _ _ _ _ _ _ _ >>= _) = _
            rw [ih, strip, if_neg hne, hlen, List.take_left' (length_bytes _ _),
              List.drop_left' (length_bytes _ _), sizeofSegment,
              drop_bytes (by omega)]
            rfl

/-! ## Decoding a record -/

theorem variable_record_decoding {rec target : Nat} (hsize : record_end m rec < size)
    (htarget : target ≤ databufmax) :
    (∀ segs tail keepRDW, HoldsBlock m rec segs tail →
      parse_variable_record m size databufmax rec target keepRDW =
        if target + (extracted keepRDW segs).length ≤ databufmax then .ok (extracted keepRDW segs)
          else .error (.error .EPROTO)) ∧
    (∀ d, parse_variable_record m size databufmax rec target true = .ok d →
      parse_variable_record m size databufmax rec target false = .ok (strip (d.length + 1) d)) ∧
    (∀ keepRDW, InconsistentRecord m rec →
      parse_variable_record m size databufmax rec target keepRDW = .error (.error .EPROTO)) ∧
    (∀ keepRDW, dl m rec = 0 ∨ sizeofSegment ≤ dl m rec ∧ seg_length m (rec + sizeofCount + kl m rec) = 0 →
      parse_variable_record m size databufmax rec target keepRDW = .ok []) := by
  have hcount : access size (rec + 5) 3 = .ok () := access_ok (by rw [record_end, sizeofCount] at hsize; omega)
  have hhead : sizeofSegment ≤ dl m rec → access size (rec + sizeofCount + kl m rec) 2 = .ok () := fun h =>
    access_ok (by rw [record_end] at hsize; rw [sizeofSegment] at h; omega)
  refine ⟨?_, ?_, ?_, ?_⟩
  · intro segs tail keepRDW hblock
    have hfits := hblock.fits
    have hmin : sizeofSegment ≤ dl m rec := by omega
    rw [parse_variable_record, hcount]
    show (if _ then _ else _) = _
    rw [sizeofSegment] at hmin
    rw [if_neg (by omega), if_neg (by rw [sizeofSegment]; omega)]
    dsimp only
    rw [hhead hmin]
    show (if _ then _ else _) = _
    rw [hblock.length, if_neg (by rw [sizeofSegment]; omega), if_neg (by omega), Nat.add_sub_cancel_left]
    refine parse_segments_eq hblock.terminates hblock.content (by omega) ?_ htarget
    rw [record_end] at hsize
    omega
  · intro d h
    rw [parse_variable_record, hcount] at h ⊢
    change (if _ then _ else _) = _ at h
    show (if _ then _ else _) = _
    by_cases h0 : dl m rec = 0
    · rw [if_pos h0] at h ⊢
      cases h
      rfl
    · rw [if_neg h0] at h ⊢
      by_cases hmin : dl m rec < sizeofSegment
      · rw [if_pos hmin] at h
        cases h
      · rw [if_neg hmin] at h ⊢
        dsimp only at h ⊢
        rw [hhead (Nat.le_of_not_lt hmin)] at h ⊢
        change (if _ then _ else _) = _ at h
        show (if _ then _ else _) = _
        by_cases hzero : seg_length m (rec + sizeofCount + kl m rec) = 0
        · rw [if_pos hzero] at h ⊢
          cases h
          rfl
        · rw [if_neg hzero] at h ⊢
          by_cases hbad : seg_length m (rec + sizeofCount + kl m rec) < sizeofSegment ∨
              seg_length m (rec + sizeofCount + kl m rec) > dl m rec
          · rw [if_pos hbad] at h
            cases h
          · rw [if_neg hbad] at h ⊢
            exact parse_segments_strip (Nat.le_refl _) (Nat.lt_succ_self _) h
  · intro keepRDW hbad
    rw [parse_variable_record, hcount]
    show (if _ then _ else _) = _
    rcases hbad with ⟨h0, hmin⟩ | ⟨hmin, hzero, hbad⟩ | ⟨hmin, hmax, hbad⟩
    · rw [if_neg h0, if_pos hmin]
    · have hhead := hhead hmin
      rw [sizeofSegment] at hmin
      rw [if_neg (by omega), if_neg (by rw [sizeofSegment]; omega)]
      dsimp only
      rw [hhead]
      show (if _ then _ else _) = _
      rw [if_neg hzero, if_pos hbad]
    · have hhead := hhead (Nat.le_trans hmin hmax)
      rw [sizeofSegment] at hmin
      rw [if_neg (by omega), if_neg (by rw [sizeofSegment]; omega)]
      dsimp only
      rw [hhead]
      show (if _ then _ else _) = _
      rw [if_neg (by omega), if_neg (by rw [sizeofSegment]; omega)]
      refine parse_segments_inconsistent hbad (by omega) ?_
      rw [record_end] at hsize
      rw [sizeofSegment]
      omega
  · intro keepRDW h
    rw [parse_variable_record, hcount]
    show (if _ then _ else _) = _
    rcases h with h0 | ⟨hmin, hzero⟩
    · rw [if_pos h0]
    · have hhead := hhead hmin
      rw [sizeofSegment] at hmin
      rw [if_neg (by omega), if_neg (by rw [sizeofSegment]; omega)]
      dsimp only
      rw [hhead]
      show (if _ then _ else _) = _
      rw [if_pos hzero]

end

/-- Two segments and a null segment; `n` is the length in the second descriptor. -/
def sampleRecord (n : UInt8) : Mem := fun i =>
  ([0, 0, 0, 0, 1, 0, 0, 22] ++ [0, 20, 0, 0] ++ [0, 6, 1, 0, 0xc1, 0xc2] ++ [0, n, 2, 0, 0xc3, 0xc4, 0xc5] ++
    [0x80, 0, 0xff] ++ List.replicate 10 0xff).getD i 0

def sampleSegments : List Segment := [⟨(1, 0), [0xc1, 0xc2], by decide⟩, ⟨(2, 0), [0xc3, 0xc4, 0xc5], by decide⟩]

theorem sampleRecord_block : HoldsBlock (sampleRecord 7) 0 sampleSegments [0x80, 0, 0xff] where
  terminates := .inr ⟨by decide, .inl (by decide)⟩
  length := by decide
  fits := by decide
  content := by decide

theorem sampleRecord_inconsistent : InconsistentRecord (sampleRecord 200) 0 :=
  .segment (by decide) (by decide) (.later (by decide) (by decide) (by decide)
    (.here (by decide) (by decide) (by decide) (.inl (by decide))))

theorem variable_record_decoding_segments :
    parse_variable_record (sampleRecord 7) 40 100 0 0 false = .ok [0xc1, 0xc2, 0xc3, 0xc4, 0xc5] ∧
      parse_variable_record (sampleRecord 7) 40 100 0 0 true =
        .ok [0, 6, 1, 0, 0xc1, 0xc2, 0, 7, 2, 0, 0xc3, 0xc4, 0xc5] ∧
      parse_variable_record (sampleRecord 200) 40 100 0 0 true = .error (.error .EPROTO) := by
  have hdecode := (@variable_record_decoding (sampleRecord 7) 40 100 0 0 (by decide) (by decide)).1
    sampleSegments [0x80, 0, 0xff]
  have hrefuse := (@variable_record_decoding (sampleRecord 200) 40 100 0 0 (by decide) (by decide)).2.2.1
  exact ⟨hdecode false sampleRecord_block, hdecode true sampleRecord_block, hrefuse true sampleRecord_inconsistent⟩

/-- A block descriptor with the length 0 is tolerated. -/
theorem zero_block_accepted : ¬∀ (m : Mem) (size databufmax rec target : Nat) (keepRDW : Bool),
    record_end m rec < size →
    target ≤ databufmax → sizeofSegment ≤ dl m rec →
    seg_length m (rec + sizeofCount + kl m rec) < sizeofSegment ∨
      dl m rec < seg_length m (rec + sizeofCount + kl m rec) →
    parse_variable_record m size databufmax rec target keepRDW = .error (.error .EPROTO) := by
  intro h
  have hbad := h (fun i => if i = 7 then 4 else 0) 64 100 0 0 false (by decide) (by decide)
    (by decide) (.inl (by decide))
  have hok : parse_variable_record (fun i => if i = 7 then 4 else 0) 64 100 0 0 false = .ok [] := rfl
  rw [hok] at hbad
  cases hbad

end Libzds
