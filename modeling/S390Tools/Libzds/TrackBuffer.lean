import S390Tools.Libzds.Records
import S390Tools.Vtoc.Ebcdic

/-!
# The track buffer (libzds/libzds.c)

The extraction walks over the records of each track of the raw buffer and collects
their data. The analysis of a directory does the same for its entries. A read
outside the raw buffer and a write outside the data buffer stop the model.
-/

namespace Libzds

open Stdio

theorem lt_record_end (m : Mem) (record : Nat) : record < record_end m record := by
  unfold record_end sizeofCount
  omega

/-- Everything that is read and written is inside of the buffers: there is a result, or the data is refused. -/
def Contained {α : Type} (x : Except Stop α) : Prop := (∃ a, x = .ok a) ∨ x = .error (.error .EPROTO)

theorem Contained.ok {α : Type} (a : α) : Contained (.ok a) := .inl ⟨a, rfl⟩

theorem Contained.refused {α : Type} : Contained (.error (.error .EPROTO) : Except Stop α) := .inr rfl

theorem not_contained {α : Type} : ¬ Contained (.error .outside : Except Stop α) := by
  rintro (⟨a, h⟩ | h) <;> cases h

/-! ## Extraction -/

/-- What the extraction changes: `data` is the data buffer up to `databufsize`. -/
structure Extraction where
  startrecord : Nat
  eof_reached : Bool
  data : Bytes

section
variable (m : Mem) (size databufmax DS1RECFM : Nat) (keepRDW : Bool)

def parse_record (rec target : Nat) : Except Stop Bytes :=
  if DS1RECFM / 128 % 2 = 1 then parse_fixed_record m size databufmax rec target
  else if DS1RECFM / 64 % 2 = 1 then parse_variable_record m size databufmax rec target keepRDW
  else .ok []

def extract_record (record rawdata : Nat) (st : Extraction) : Except Stop Extraction := do
  let data ← if st.startrecord ≤ record then parse_record m size databufmax DS1RECFM keepRDW rawdata st.data.length
    else .ok []
  access size (rawdata + 5) 3
  .ok { st with
    data := st.data ++ data
    eof_reached := st.eof_reached || (st.startrecord ≤ record && kl m rawdata = 0 && dl m rawdata = 0) }

@[grind =] def extract_track (track record rawdata : Nat) (st : Extraction) : Except Stop Extraction :=
  if st.eof_reached then .ok st
  else do
    let st ← extract_record m size databufmax DS1RECFM keepRDW record rawdata st
    access size (record_end m rawdata) 8
    if word m (record_end m rawdata) 8 = ENDTOKEN then .ok st
    else if h : track + RAWTRACKSIZE ≤ record_end m rawdata then .error (.error .EPROTO)
    else extract_track track (record + 1) (record_end m rawdata) st
termination_by track + RAWTRACKSIZE - rawdata
decreasing_by
  have := lt_record_end m rawdata
  omega

@[grind =] def extract_tracks : Nat → Nat → Extraction → Except Stop Extraction
  | 0, _, st => .ok st
  | left + 1, track, st =>
    if st.eof_reached then .ok st
    else do
      let st ← extract_track m size databufmax DS1RECFM keepRDW track 0 track st
      extract_tracks left (track + RAWTRACKSIZE) { st with startrecord := 1 }

def Extraction.start (st : Extraction) : Extraction :=
  { st with startrecord := if st.startrecord = 0 then 1 else st.startrecord, data := [] }

/-- `size` is `rawbufsize`. -/
def dshandle_extract_data_from_trackbuffer (st : Extraction) : Except Stop Extraction :=
  extract_tracks m size databufmax DS1RECFM keepRDW (size / RAWTRACKSIZE) 0 st.start

/-! ## Directories -/

structure PdsMember where
  name : Bytes
  track : Nat
  record : Nat
  is_alias : Bool

def sizeofMember : Nat := 12
def PDS_DIR_KL : Nat := 8
def PDS_DIR_DL : Nat := 256

def blank : UInt8 := 0x20

/-- `dataset_add_member`: the name ends at its first NUL, and after decoding at its first blank. -/
def dataset_add_member (data : Nat) : PdsMember where
  name := ((Vtoc.vtoc_ebcdic_dec ((bytes m data 8).takeWhile (· ≠ 0))).takeWhile (· ≠ 0)).takeWhile (· ≠ blank)
  track := word m (data + 8) 2
  record := word m (data + 10) 1
  is_alias := word m (data + 11) 1 / 128 = 1

def user_data_size (data : Nat) : Nat := 2 * (word m (data + 11) 1 % 32)

def directory_entries (data : Nat) (residual : Int) : Except Stop (List PdsMember × Bool) :=
  if _h : residual > 0 then do
    access size data 8
    if word m data 8 = ENDTOKEN then .ok ([], true)
    else do
      access size data sizeofMember
      let (members, dirend) ← directory_entries (data + sizeofMember + user_data_size m data)
        (residual - (sizeofMember + user_data_size m data : Nat))
      .ok (dataset_add_member m data :: members, dirend)
  else .ok ([], false)
termination_by residual.toNat
decreasing_by
  unfold sizeofMember
  omega

def directory_record (record : Nat) : Except Stop (List PdsMember × Bool) := do
  access size (record + 5) 3
  if kl m record ≠ PDS_DIR_KL ∨ dl m record ≠ PDS_DIR_DL then .error (.error .EPROTO)
  else do
    access size (record + sizeofCount) 8
    let data := record + sizeofCount + PDS_DIR_KL
    access size data 2
    let (members, dirend) ← directory_entries m size (data + 2) ((word m data 2 : Nat) - (2 : Nat) : Int)
    .ok (members, word m (record + sizeofCount) 8 = ENDTOKEN || dirend)

def directory_visit (r record : Nat) : Except Stop (List PdsMember × Bool) :=
  if r = 0 then .ok ([], false) else directory_record m size record

end

section
variable {m : Mem} {size : Nat}

theorem next_record_some : ∀ {steps data next : Nat}, next_record m size steps data = .ok (some next) →
    data ≤ next ∧ next + 8 ≤ size
  | 0, _, _, h => by cases h
  | steps + 1, data, next, h => by
    rw [next_record] at h
    by_cases hend : size ≤ data
    · rw [if_pos hend] at h
      cases h
    · rw [if_neg hend] at h
      obtain ⟨_, hin, h⟩ := Run.bind_eq_ok h
      split at h
      · obtain ⟨hle, hnext⟩ := next_record_some h
        have := Nat.lt_div_mul_add (a := data) (b := RAWTRACKSIZE) (by decide)
        exact ⟨by omega, hnext⟩
      · cases h
        exact ⟨Nat.le_refl _, access_eq_ok hin⟩

theorem get_next_record_lt {record next : Nat} (h : buffer_get_next_record m size (some record) = .ok (some next)) :
    record < next ∧ next + 8 ≤ size := by
  obtain ⟨_, -, h⟩ := Run.bind_eq_ok h
  obtain ⟨hle, hnext⟩ := next_record_some h
  exact ⟨Nat.lt_of_lt_of_le (lt_record_end m record) hle, hnext⟩

end

def directory_records (m : Mem) (r record : Nat) : Except Stop (List PdsMember × Bool) := do
  let (found, dirend) ← directory_visit m RAWTRACKSIZE r record
  if dirend then .ok (found, true)
  else
    match _h : buffer_get_next_record m RAWTRACKSIZE (some record) with
    | .error e => .error e
    | .ok none => .ok (found, false)
    | .ok (some next) => do
      let (members, dirend) ← directory_records m (r + 1) next
      .ok (found ++ members, dirend)
termination_by RAWTRACKSIZE - record
decreasing_by
  have := get_next_record_lt ‹_›
  omega

/-- The members that are added to the data set, and `*dirend`. -/
def extract_members_from_track (m : Mem) : Except Stop (List PdsMember × Bool) := do
  match ← buffer_get_next_record m RAWTRACKSIZE none with
  | none => .ok ([], false)
  | some record => directory_records m 0 record

/-! ## Records that are refused -/

section
variable (m : Mem) (size databufmax : Nat) (keepRDW : Bool)

def skipped : Nat := if keepRDW then 0 else sizeofSegment

/-- From `data` on stand segments that are copied up to one that the parser does not accept, with its
descriptor inside the buffer. -/
inductive SegmentsRefused : Nat → Nat → Nat → Prop
  | length {data residual target : Nat} : residual ≠ 0 → data + 2 ≤ size → nullsegment m data = 0 →
      seg_length m data ≠ 0 →
      residual < seg_length m data ∨ seg_length m data < sizeofSegment → SegmentsRefused data residual target
  | room {data residual target : Nat} : data + 2 ≤ size → nullsegment m data = 0 →
      sizeofSegment ≤ seg_length m data →
      seg_length m data ≤ residual → databufmax < target + (seg_length m data - skipped keepRDW) →
      SegmentsRefused data residual target
  | later {data residual target : Nat} : nullsegment m data = 0 → sizeofSegment ≤ seg_length m data →
      seg_length m data ≤ residual → target + (seg_length m data - skipped keepRDW) ≤ databufmax →
      SegmentsRefused (data + seg_length m data) (residual - seg_length m data)
        (target + (seg_length m data - skipped keepRDW)) → SegmentsRefused data residual target

/-- The parser does not accept the block of a variable record. -/
inductive VariableRefused (rec target : Nat) : Prop
  | record : dl m rec ≠ 0 → dl m rec < sizeofSegment → VariableRefused rec target
  | block : sizeofSegment ≤ dl m rec → rec + sizeofCount + kl m rec + 2 ≤ size →
      seg_length m (rec + sizeofCount + kl m rec) ≠ 0 →
        seg_length m (rec + sizeofCount + kl m rec) < sizeofSegment ∨
        dl m rec < seg_length m (rec + sizeofCount + kl m rec) → VariableRefused rec target
  | segment : rec + sizeofCount + kl m rec + 2 ≤ size →
      sizeofSegment ≤ seg_length m (rec + sizeofCount + kl m rec) →
      seg_length m (rec + sizeofCount + kl m rec) ≤ dl m rec →
      SegmentsRefused m size databufmax keepRDW (rec + sizeofCount + kl m rec + sizeofSegment)
        (seg_length m (rec + sizeofCount + kl m rec) - sizeofSegment) target → VariableRefused rec target

/-- The record is longer than the rest of the data buffer, or its block is not accepted. -/
def RecordRefused (DS1RECFM rec target : Nat) : Prop :=
  if DS1RECFM / 128 % 2 = 1 then databufmax < target + dl m rec
  else if DS1RECFM / 64 % 2 = 1 then VariableRefused m size databufmax keepRDW rec target
  else False

end

section
variable {m : Mem} {size databufmax : Nat} {keepRDW : Bool}

theorem skipped_le (keepRDW : Bool) : skipped keepRDW ≤ sizeofSegment := by
  unfold skipped
  split
  · exact Nat.zero_le _
  · exact Nat.le_refl _

theorem SegmentsRefused.inside {data residual target : Nat}
    (h : SegmentsRefused m size databufmax keepRDW data residual target) :
    data + 2 ≤ size ∧ residual ≠ 0 := by
  induction h with
  | length h0 hin _ _ _ => exact ⟨hin, h0⟩
  | room hin _ hmin hmax _ =>
    rw [sizeofSegment] at hmin
    exact ⟨hin, by omega⟩
  | later _ hmin hmax _ _ ih =>
    rw [sizeofSegment] at hmin
    omega

theorem copy_cases {target data n : Nat} (hroom : target + n ≤ databufmax) :
    copy m size databufmax target data n = .ok (bytes m data n) ∨
      (copy m size databufmax target data n = .error .outside ∧ size < data + n) := by
  by_cases h0 : n = 0
  · left
    rw [copy, if_pos h0, h0]
    rfl
  · rcases Nat.lt_or_ge size (data + n) with hout | hin
    · right
      rw [copy, if_neg h0, access_outside hout]
      exact ⟨rfl, hout⟩
    · exact .inl (copy_ok hin hroom)

theorem parse_segments_step {steps data residual target : Nat} (h0 : residual ≠ 0) (hin : data + 2 ≤ size) :
    parse_segments m size databufmax keepRDW (steps + 1) data residual target =
      if nullsegment m data ≠ 0 ∨ seg_length m data = 0 then .ok []
      else if residual < seg_length m data ∨ seg_length m data < sizeofSegment then .error (.error .EPROTO)
      else if target + (seg_length m data - skipped keepRDW) > databufmax then .error (.error .EPROTO)
      else
        copy m size databufmax target (data + skipped keepRDW)
          (seg_length m data - skipped keepRDW) >>= fun copied =>
        parse_segments m size databufmax keepRDW steps (data + seg_length m data) (residual - seg_length m data)
          (target + (seg_length m data - skipped keepRDW)) >>= fun rest => .ok (copied ++ rest) := by
  rw [parse_segments, if_neg h0, access_ok hin]
  rfl

theorem parse_segments_outcome : ∀ {steps data residual target : Nat}, residual < steps → target ≤ databufmax →
    (∃ d, parse_segments m size databufmax keepRDW steps data residual target = .ok d ∧
      target + d.length ≤ databufmax) ∨
    (parse_segments m size databufmax keepRDW steps data residual target = .error (.error .EPROTO) ∧
      SegmentsRefused m size databufmax keepRDW data residual target) ∨
    (parse_segments m size databufmax keepRDW steps data residual target = .error .outside ∧
      size < data + residual + 2)
  | 0, _, _, _, h, _ => absurd h (Nat.not_lt_zero _)
  | steps + 1, data, residual, target, hsteps, htarget => by
    by_cases h0 : residual = 0
    · rw [parse_segments, if_pos h0]
      exact .inl ⟨[], rfl, htarget⟩
    · rcases Nat.lt_or_ge size (data + 2) with hout | hin
      · rw [parse_segments, if_neg h0, access_outside hout]
        exact .inr (.inr ⟨rfl, by omega⟩)
      · rw [parse_segments_step h0 hin]
        by_cases hnull : nullsegment m data ≠ 0 ∨ seg_length m data = 0
        · rw [if_pos hnull]
          exact .inl ⟨[], rfl, htarget⟩
        · rw [if_neg hnull]
          push Not at hnull
          by_cases hbad : residual < seg_length m data ∨ seg_length m data < sizeofSegment
          · rw [if_pos hbad]
            exact .inr (.inl ⟨rfl, .length h0 hin hnull.1 hnull.2 hbad⟩)
          · rw [if_neg hbad]
            have hpos : 0 < sizeofSegment := by decide
            have hmin : sizeofSegment ≤ seg_length m data := by omega
            have hskip := skipped_le keepRDW
            by_cases hroom : target + (seg_length m data - skipped keepRDW) > databufmax
            · rw [if_pos hroom]
              exact .inr (.inl ⟨rfl, .room hin hnull.1 hmin (by omega) hroom⟩)
            · rw [if_neg hroom]
              have hfits : target + (seg_length m data - skipped keepRDW) ≤ databufmax := Nat.le_of_not_lt hroom
              rcases @copy_cases m size databufmax target (data + skipped keepRDW)
                (seg_length m data - skipped keepRDW) hfits
                with hcopy | ⟨hcopy, hout⟩
              · rw [hcopy]
                rcases @parse_segments_outcome steps (data + seg_length m data) (residual - seg_length m data)
                  (target + (seg_length m data - skipped keepRDW)) (by omega) hfits
                  with ⟨d, hd, hlen⟩ | ⟨herr, hrefused⟩ | ⟨herr, hsize⟩
                · rw [hd]
                  refine .inl ⟨_, rfl, ?_⟩
                  rw [List.length_append, length_bytes, ← Nat.add_assoc]
                  exact hlen
                · rw [herr]
                  exact .inr (.inl ⟨rfl, .later hnull.1 hmin (by omega) hfits hrefused⟩)
                · rw [herr]
                  exact .inr (.inr ⟨rfl, by omega⟩)
              · rw [hcopy]
                exact .inr (.inr ⟨rfl, by omega⟩)

theorem parse_segments_refused {data residual target : Nat}
    (h : SegmentsRefused m size databufmax keepRDW data residual target) : ∀ {steps : Nat}, residual < steps →
    parse_segments m size databufmax keepRDW steps data residual target = .error (.error .EPROTO) := by
  have hpos : 0 < sizeofSegment := by decide
  induction h with
  | length h0 hin hnull hlen hbad =>
    intro steps hsteps
    cases steps with
    | zero => cases hsteps
    | succ steps => rw [parse_segments_step h0 hin, if_neg (by omega), if_pos hbad]
  | room hin hnull hmin hmax hroom =>
    intro steps hsteps
    cases steps with
    | zero => cases hsteps
    | succ steps => rw [parse_segments_step (by omega) hin, if_neg (by omega), if_neg (by omega), if_pos hroom]
  | @later data residual target hnull hmin hmax hroom hrest ih =>
    intro steps hsteps
    cases steps with
    | zero => cases hsteps
    | succ steps =>
      have hin := hrest.inside.1
      have hskip := skipped_le keepRDW
      have hih := @ih steps (by omega)
      rw [parse_segments_step (by omega) (by omega), if_neg (by omega), if_neg (by omega), if_neg (by omega),
        copy_ok (by omega) hroom]
      show (parse_segments _ _ _ _ _ _ _ _ >>= _) = _
      rw [hih]
      rfl

/-! ## Records -/

theorem parse_fixed_outcome {rec target : Nat} (hin : rec + 8 ≤ size) :
    (∃ d, parse_fixed_record m size databufmax rec target = .ok d ∧ target + d.length ≤ databufmax) ∨
    (parse_fixed_record m size databufmax rec target = .error (.error .EPROTO) ∧ databufmax < target + dl m rec) ∨
    (parse_fixed_record m size databufmax rec target = .error .outside ∧ size < record_end m rec) := by
  have hstep : parse_fixed_record m size databufmax rec target =
      if target + dl m rec > databufmax then .error (.error .EPROTO)
      else copy m size databufmax target (rec + sizeofCount + kl m rec) (dl m rec) := by
    rw [parse_fixed_record, access_ok (by omega)]
    rfl
  rw [hstep]
  by_cases hroom : target + dl m rec > databufmax
  · rw [if_pos hroom]
    exact .inr (.inl ⟨rfl, hroom⟩)
  · rw [if_neg hroom]
    have hfits := Nat.le_of_not_lt hroom
    rcases @copy_cases m size databufmax target (rec + sizeofCount + kl m rec)
      (dl m rec) hfits with hcopy | ⟨hcopy, hout⟩
    · rw [hcopy]
      exact .inl ⟨_, rfl, by rw [length_bytes]; exact hfits⟩
    · rw [hcopy]
      exact .inr (.inr ⟨rfl, by rw [record_end]; omega⟩)

theorem parse_variable_step {rec target : Nat} (hin : rec + 8 ≤ size) (h0 : dl m rec ≠ 0)
    (hmin : sizeofSegment ≤ dl m rec)
    (hhead : rec + sizeofCount + kl m rec + 2 ≤ size) : parse_variable_record m size databufmax rec target keepRDW =
      if seg_length m (rec + sizeofCount + kl m rec) = 0 then .ok []
      else if seg_length m (rec + sizeofCount + kl m rec) < sizeofSegment ∨
          seg_length m (rec + sizeofCount + kl m rec) > dl m rec then .error (.error .EPROTO)
      else parse_segments m size databufmax keepRDW (seg_length m (rec + sizeofCount + kl m rec) + 1)
        (rec + sizeofCount + kl m rec + sizeofSegment)
          (seg_length m (rec + sizeofCount + kl m rec) - sizeofSegment) target := by
  have hcount : access size (rec + 5) 3 = .ok () := access_ok (by omega)
  rw [parse_variable_record, hcount]
  simp only [bind, Except.bind, if_neg h0, if_neg (Nat.not_lt_of_le hmin), access_ok hhead]

theorem parse_variable_outcome {rec target : Nat} (hin : rec + 8 ≤ size) (htarget : target ≤ databufmax) :
    (∃ d, parse_variable_record m size databufmax rec target keepRDW = .ok d ∧ target + d.length ≤ databufmax) ∨
    (parse_variable_record m size databufmax rec target keepRDW = .error (.error .EPROTO) ∧
      VariableRefused m size databufmax keepRDW rec target) ∨
    (parse_variable_record m size databufmax rec target keepRDW = .error .outside ∧
      size < record_end m rec + 8) := by
  have hcount : access size (rec + 5) 3 = .ok () := access_ok (by omega)
  by_cases h0 : dl m rec = 0
  · have hok : parse_variable_record m size databufmax rec target keepRDW = .ok [] := by
      rw [parse_variable_record, hcount]
      simp only [bind, Except.bind, if_pos h0]
    exact .inl ⟨[], hok, htarget⟩
  · by_cases hmin : dl m rec < sizeofSegment
    · have herr : parse_variable_record m size databufmax rec target keepRDW = .error (.error .EPROTO) := by
        rw [parse_variable_record, hcount]
        simp only [bind, Except.bind, if_neg h0, if_pos hmin]
      exact .inr (.inl ⟨herr, .record h0 hmin⟩)
    · have hmin' := Nat.le_of_not_lt hmin
      rcases Nat.lt_or_ge size (rec + sizeofCount + kl m rec + 2) with hout | hhead
      · have herr : parse_variable_record m size databufmax rec target keepRDW = .error .outside := by
          rw [parse_variable_record, hcount]
          simp only [bind, Except.bind, if_neg h0, if_neg hmin, access_outside hout]
        exact .inr (.inr ⟨herr, by rw [record_end]; omega⟩)
      · rw [parse_variable_step hin h0 hmin' hhead]
        by_cases hzero : seg_length m (rec + sizeofCount + kl m rec) = 0
        · rw [if_pos hzero]
          exact .inl ⟨[], rfl, htarget⟩
        · rw [if_neg hzero]
          by_cases hbad : seg_length m (rec + sizeofCount + kl m rec) < sizeofSegment ∨
              seg_length m (rec + sizeofCount + kl m rec) > dl m rec
          · rw [if_pos hbad]
            exact .inr (.inl ⟨rfl, .block hmin' hhead hzero hbad⟩)
          · rw [if_neg hbad]
            rcases @parse_segments_outcome m size databufmax keepRDW
              (seg_length m (rec + sizeofCount + kl m rec) + 1)
              (rec + sizeofCount + kl m rec + sizeofSegment)
                (seg_length m (rec + sizeofCount + kl m rec) - sizeofSegment)
              target (by omega) htarget with hok | ⟨herr, hrefused⟩ | ⟨herr, hsize⟩
            · exact .inl hok
            · exact .inr (.inl ⟨herr, .segment hhead (by omega) (by omega) hrefused⟩)
            · exact .inr (.inr ⟨herr, by rw [record_end]; omega⟩)

theorem parse_variable_refused {rec target : Nat} (hin : rec + 8 ≤ size)
    (h : VariableRefused m size databufmax keepRDW rec target) :
    parse_variable_record m size databufmax rec target keepRDW = .error (.error .EPROTO) := by
  have hcount : access size (rec + 5) 3 = .ok () := access_ok (by omega)
  have hpos : 0 < sizeofSegment := by decide
  rcases h with ⟨h0, hmin⟩ | ⟨hmin, hhead, hzero, hbad⟩ | ⟨hhead, hmin, hmax, hrefused⟩
  · rw [parse_variable_record, hcount]
    simp only [bind, Except.bind, if_neg h0, if_pos hmin]
  · rw [parse_variable_step hin (by omega) hmin hhead, if_neg hzero, if_pos hbad]
  · rw [parse_variable_step hin (by omega) (by omega) hhead, if_neg (by omega), if_neg (by omega)]
    exact parse_segments_refused hrefused (by omega)

variable {DS1RECFM : Nat}

theorem parse_record_outcome {rec target : Nat} (hin : rec + 8 ≤ size) (htarget : target ≤ databufmax) :
    (∃ d, parse_record m size databufmax DS1RECFM keepRDW rec target = .ok d ∧ target + d.length ≤ databufmax) ∨
    (parse_record m size databufmax DS1RECFM keepRDW rec target = .error (.error .EPROTO) ∧
      RecordRefused m size databufmax keepRDW DS1RECFM rec target) ∨
    (parse_record m size databufmax DS1RECFM keepRDW rec target = .error .outside ∧
      size < record_end m rec + 8) := by
  unfold parse_record RecordRefused
  by_cases hfixed : DS1RECFM / 128 % 2 = 1
  · rw [if_pos hfixed, if_pos hfixed]
    rcases @parse_fixed_outcome m size databufmax rec target hin with hok | hrefused | ⟨herr, hsize⟩
    · exact .inl hok
    · exact .inr (.inl hrefused)
    · exact .inr (.inr ⟨herr, by omega⟩)
  · rw [if_neg hfixed, if_neg hfixed]
    by_cases hvar : DS1RECFM / 64 % 2 = 1
    · rw [if_pos hvar, if_pos hvar]
      exact parse_variable_outcome hin htarget
    · rw [if_neg hvar]
      exact .inl ⟨[], rfl, htarget⟩

theorem parse_record_refused {rec target : Nat} (hin : rec + 8 ≤ size)
    (h : RecordRefused m size databufmax keepRDW DS1RECFM rec target) :
    parse_record m size databufmax DS1RECFM keepRDW rec target = .error (.error .EPROTO) := by
  unfold RecordRefused at h
  unfold parse_record
  by_cases hfixed : DS1RECFM / 128 % 2 = 1
  · rw [if_pos hfixed] at h ⊢
    rw [parse_fixed_record, access_ok (by omega)]
    simp only [bind, Except.bind]
    exact if_pos h
  · rw [if_neg hfixed] at h ⊢
    by_cases hvar : DS1RECFM / 64 % 2 = 1
    · rw [if_pos hvar] at h ⊢
      exact parse_variable_refused hin h
    · rw [if_neg hvar] at h
      exact h.elim

theorem extract_record_outcome {record rawdata : Nat} {st : Extraction} (hin : rawdata + 8 ≤ size)
    (hdata : st.data.length ≤ databufmax) :
    (∃ st', extract_record m size databufmax DS1RECFM keepRDW record rawdata st = .ok st' ∧
      st'.data.length ≤ databufmax) ∨
    (extract_record m size databufmax DS1RECFM keepRDW record rawdata st = .error (.error .EPROTO) ∧
      st.startrecord ≤ record ∧ RecordRefused m size databufmax keepRDW DS1RECFM rawdata st.data.length) ∨
    (extract_record m size databufmax DS1RECFM keepRDW record rawdata st = .error .outside ∧
      size < record_end m rawdata + 8) := by
  have hcount : access size (rawdata + 5) 3 = .ok () := access_ok (by omega)
  unfold extract_record
  by_cases hstart : st.startrecord ≤ record
  · rw [if_pos hstart]
    rcases @parse_record_outcome m size databufmax keepRDW DS1RECFM rawdata st.data.length hin hdata
      with ⟨d, hd, hlen⟩ | ⟨herr, hrefused⟩ | ⟨herr, hsize⟩
    · rw [hd, hcount]
      exact .inl ⟨_, rfl, by rw [List.length_append]; exact hlen⟩
    · rw [herr]
      exact .inr (.inl ⟨rfl, hstart, hrefused⟩)
    · rw [herr]
      exact .inr (.inr ⟨rfl, hsize⟩)
  · rw [if_neg hstart, hcount]
    exact .inl ⟨_, rfl, by rw [List.append_nil]; exact hdata⟩

theorem extract_record_data {record rawdata : Nat} {st st' : Extraction} (hin : rawdata + 8 ≤ size)
    (hdata : st.data.length ≤ databufmax)
    (h : extract_record m size databufmax DS1RECFM keepRDW record rawdata st = .ok st') :
      st'.data.length ≤ databufmax := by
  have hcases := @extract_record_outcome m size databufmax keepRDW DS1RECFM record rawdata st hin hdata
  rw [h] at hcases
  rcases hcases with ⟨st₁, h₁, hlen⟩ | ⟨h₁, -⟩ | ⟨h₁, -⟩
  · rwa [← Except.ok.inj h₁] at hlen
  · cases h₁
  · cases h₁

theorem extract_record_refused {record rawdata : Nat} {st : Extraction} (hin : rawdata + 8 ≤ size)
    (hstart : st.startrecord ≤ record)
    (h : RecordRefused m size databufmax keepRDW DS1RECFM rawdata st.data.length) :
    extract_record m size databufmax DS1RECFM keepRDW record rawdata st = .error (.error .EPROTO) := by
  unfold extract_record
  rw [if_pos hstart, parse_record_refused hin h]
  rfl

theorem extract_track_step {track record rawdata : Nat} {st : Extraction} (heof : st.eof_reached = false) :
    extract_track m size databufmax DS1RECFM keepRDW track record rawdata st =
      extract_record m size databufmax DS1RECFM keepRDW record rawdata st >>= fun st =>
        access size (record_end m rawdata) 8 >>= fun _ =>
          if word m (record_end m rawdata) 8 = ENDTOKEN then .ok st
          else if track + RAWTRACKSIZE ≤ record_end m rawdata then .error (.error .EPROTO)
          else extract_track m size databufmax DS1RECFM keepRDW track (record + 1) (record_end m rawdata) st := by
  rw [extract_track, heof, if_neg Bool.false_ne_true]
  simp only [dite_eq_ite]

theorem extract_track_eof {track record rawdata : Nat} {st : Extraction} (heof : st.eof_reached = true) :
    extract_track m size databufmax DS1RECFM keepRDW track record rawdata st = .ok st := by
  rw [extract_track, if_pos heof]

theorem extract_tracks_eof {left track : Nat} {st : Extraction} (heof : st.eof_reached = true) :
    extract_tracks m size databufmax DS1RECFM keepRDW left track st = .ok st := by
  cases left with
  | zero => rfl
  | succ left => rw [extract_tracks, if_pos heof]

end

/-! ## The records that the extraction reaches -/

section
variable (m : Mem) (size databufmax DS1RECFM : Nat) (keepRDW : Bool) (st₀ : Extraction)

/-- The loops reach record `record` of track `i` at `rawdata` in the state `st`. -/
inductive Reached : Nat → Nat → Nat → Extraction → Prop
  | first : 0 < size / RAWTRACKSIZE → st₀.eof_reached = false → Reached 0 0 0 st₀.start
  | next_record {i record rawdata : Nat} {st st' : Extraction} : Reached i record rawdata st →
      extract_record m size databufmax DS1RECFM keepRDW record rawdata st = .ok st' → st'.eof_reached = false →
      record_end m rawdata + 8 ≤ size → word m (record_end m rawdata) 8 ≠ ENDTOKEN →
      record_end m rawdata < i * RAWTRACKSIZE + RAWTRACKSIZE → Reached i (record + 1) (record_end m rawdata) st'
  | next_track {i record rawdata : Nat} {st st' : Extraction} : Reached i record rawdata st →
      extract_record m size databufmax DS1RECFM keepRDW record rawdata st = .ok st' → st'.eof_reached = false →
      record_end m rawdata + 8 ≤ size → word m (record_end m rawdata) 8 = ENDTOKEN → i + 1 < size / RAWTRACKSIZE →
      Reached (i + 1) 0 ((i + 1) * RAWTRACKSIZE) { st' with startrecord := 1 }

/-- The record leaves room for the end token behind it, or it is refused. -/
def RecordInside (record rawdata : Nat) (st : Extraction) : Prop :=
  record_end m rawdata + 8 ≤ size ∨
    (st.startrecord ≤ record ∧ RecordRefused m size databufmax keepRDW DS1RECFM rawdata st.data.length)

def RecordsInside : Prop := ∀ i record rawdata st,
    Reached m size databufmax DS1RECFM keepRDW st₀ i record rawdata st →
  RecordInside m size databufmax DS1RECFM keepRDW record rawdata st

def remaining (i record rawdata : Nat) (st : Extraction) : Except Stop Extraction :=
  extract_track m size databufmax DS1RECFM keepRDW (i * RAWTRACKSIZE) record rawdata st >>= fun st =>
    extract_tracks m size databufmax DS1RECFM keepRDW (size / RAWTRACKSIZE - (i + 1)) ((i + 1) * RAWTRACKSIZE)
      { st with startrecord := 1 }

end

section
variable {m : Mem} {size databufmax DS1RECFM : Nat} {keepRDW : Bool} {st₀ : Extraction}

theorem Reached.spec {i record rawdata : Nat} {st : Extraction}
    (h : Reached m size databufmax DS1RECFM keepRDW st₀ i record rawdata st) :
    rawdata + 8 ≤ size ∧ st.data.length ≤ databufmax ∧ st.eof_reached = false ∧ i < size / RAWTRACKSIZE ∧
      rawdata < (i + 1) * RAWTRACKSIZE := by
  have hdiv := Nat.div_mul_le_self size RAWTRACKSIZE
  induction h with
  | first hpos heof =>
    rw [RAWTRACKSIZE] at hpos hdiv ⊢
    exact ⟨by omega, Nat.zero_le _, heof, by omega, by omega⟩
  | next_record _ hrec heof hin _ hlt ih =>
    exact ⟨hin, extract_record_data ih.1 ih.2.1 hrec, heof, ih.2.2.2.1, by rw [Nat.add_mul, Nat.one_mul]; exact hlt⟩
  | @next_track i record rawdata st st' _ hrec heof hin _ hlt ih =>
    have hle : (i + 1 + 1) * RAWTRACKSIZE ≤ size / RAWTRACKSIZE * RAWTRACKSIZE := Nat.mul_le_mul_right _ hlt
    rw [Nat.add_mul (i + 1), Nat.one_mul] at hle
    have h8 : 8 ≤ RAWTRACKSIZE := by decide
    have hdata : st'.data.length ≤ databufmax := extract_record_data ih.1 ih.2.1 hrec
    exact ⟨by omega, hdata, heof, hlt, by rw [Nat.add_mul (i + 1), Nat.one_mul]; omega⟩

theorem remaining_first (hpos : 0 < size / RAWTRACKSIZE) (heof : st₀.eof_reached = false) :
    dshandle_extract_data_from_trackbuffer m size databufmax DS1RECFM keepRDW st₀ =
      remaining m size databufmax DS1RECFM keepRDW 0 0 0 st₀.start := by
  obtain ⟨n, hn⟩ := Nat.exists_eq_succ_of_ne_zero (Nat.ne_of_gt hpos)
  have hstart : st₀.start.eof_reached = false := heof
  rw [dshandle_extract_data_from_trackbuffer, remaining, hn, extract_tracks, hstart,
    if_neg Bool.false_ne_true, Nat.zero_mul,
    Nat.zero_add, Nat.succ_sub_one, Nat.one_mul]

theorem remaining_record {i record rawdata : Nat} {st st' : Extraction} (heof : st.eof_reached = false)
    (hrec : extract_record m size databufmax DS1RECFM keepRDW record rawdata st = .ok st')
    (hin : record_end m rawdata + 8 ≤ size) (htoken : word m (record_end m rawdata) 8 ≠ ENDTOKEN)
    (hlt : record_end m rawdata < i * RAWTRACKSIZE + RAWTRACKSIZE) :
    remaining m size databufmax DS1RECFM keepRDW i record rawdata st =
      remaining m size databufmax DS1RECFM keepRDW i (record + 1) (record_end m rawdata) st' := by
  have hnext : extract_track m size databufmax DS1RECFM keepRDW (i * RAWTRACKSIZE) record rawdata st =
      extract_track m size databufmax DS1RECFM keepRDW (i * RAWTRACKSIZE) (record + 1)
        (record_end m rawdata) st' := by
    rw [extract_track_step heof, hrec]
    simp only [bind, Except.bind, access_ok hin, if_neg htoken, if_neg (Nat.not_le_of_lt hlt)]
  rw [remaining, hnext, remaining]

theorem remaining_track {i record rawdata : Nat} {st st' : Extraction} (heof : st.eof_reached = false)
    (hrec : extract_record m size databufmax DS1RECFM keepRDW record rawdata st = .ok st')
      (heof' : st'.eof_reached = false)
    (hin : record_end m rawdata + 8 ≤ size) (htoken : word m (record_end m rawdata) 8 = ENDTOKEN)
    (hlt : i + 1 < size / RAWTRACKSIZE) : remaining m size databufmax DS1RECFM keepRDW i record rawdata st =
      remaining m size databufmax DS1RECFM keepRDW (i + 1) 0 ((i + 1) * RAWTRACKSIZE)
        { st' with startrecord := 1 } := by
  have hleft : size / RAWTRACKSIZE - (i + 1) = size / RAWTRACKSIZE - (i + 1 + 1) + 1 := by omega
  have hlast : extract_track m size databufmax DS1RECFM keepRDW (i * RAWTRACKSIZE) record rawdata st = .ok st' := by
    rw [extract_track_step heof, hrec]
    simp only [bind, Except.bind, access_ok hin, if_pos htoken]
  have hmore : extract_tracks m size databufmax DS1RECFM keepRDW (size / RAWTRACKSIZE - (i + 1))
    ((i + 1) * RAWTRACKSIZE)
      { st' with startrecord := 1 } =
      remaining m size databufmax DS1RECFM keepRDW (i + 1) 0 ((i + 1) * RAWTRACKSIZE)
        { st' with startrecord := 1 } := by
    rw [hleft, extract_tracks, if_neg (by rw [heof']; exact Bool.false_ne_true), ← Nat.succ_mul, remaining]
  rw [remaining, hlast, ← hmore]
  rfl

theorem reached_remaining {i record rawdata : Nat} {st : Extraction}
    (h : Reached m size databufmax DS1RECFM keepRDW st₀ i record rawdata st) :
    dshandle_extract_data_from_trackbuffer m size databufmax DS1RECFM keepRDW st₀ =
      remaining m size databufmax DS1RECFM keepRDW i record rawdata st := by
  induction h with
  | first hpos heof => exact remaining_first hpos heof
  | next_record hreached hrec _ hin htoken hlt ih =>
    rw [ih]
    exact remaining_record hreached.spec.2.2.1 hrec hin htoken hlt
  | next_track hreached hrec heof hin htoken hlt ih =>
    rw [ih]
    exact remaining_track hreached.spec.2.2.1 hrec heof hin htoken hlt

theorem remaining_outside {i record rawdata : Nat} {st : Extraction}
    (h : Reached m size databufmax DS1RECFM keepRDW st₀ i record rawdata st)
    (hout : ¬ RecordInside m size databufmax DS1RECFM keepRDW record rawdata st) :
    remaining m size databufmax DS1RECFM keepRDW i record rawdata st = .error .outside := by
  obtain ⟨hin, hdata, heof, -, -⟩ := h.spec
  unfold RecordInside at hout
  push Not at hout
  rw [remaining, extract_track_step heof]
  rcases extract_record_outcome hin hdata with ⟨st', hok, -⟩ | ⟨-, hstart, hrefused⟩ | ⟨herr, -⟩
  · rw [hok]
    simp only [bind, Except.bind, access_outside hout.1]
  · exact absurd hrefused (hout.2 hstart)
  · rw [herr]
    rfl

theorem remaining_inside (hall : RecordsInside m size databufmax DS1RECFM keepRDW st₀) :
    ∀ {n i record rawdata : Nat}
    {st : Extraction}, size - rawdata < n → Reached m size databufmax DS1RECFM keepRDW st₀ i record rawdata st →
    Contained (remaining m size databufmax DS1RECFM keepRDW i record rawdata st)
  | 0, _, _, _, _, hn, _ => absurd hn (Nat.not_lt_zero _)
  | n + 1, i, record, rawdata, st, hn, h => by
    obtain ⟨hin, hdata, heof, hi, hlt⟩ := h.spec
    have hnext := lt_record_end m rawdata
    rcases @extract_record_outcome m size databufmax keepRDW DS1RECFM record rawdata st hin hdata
      with ⟨st', hok, -⟩ | ⟨herr, -⟩ | ⟨herr, hsize⟩
    · have hend : record_end m rawdata + 8 ≤ size := by
        refine (hall i record rawdata st h).resolve_right fun hrefused => ?_
        rw [extract_record_refused hin hrefused.1 hrefused.2] at hok
        cases hok
      by_cases htoken : word m (record_end m rawdata) 8 = ENDTOKEN
      · have hdone : remaining m size databufmax DS1RECFM keepRDW i record rawdata st =
            extract_tracks m size databufmax DS1RECFM keepRDW (size / RAWTRACKSIZE - (i + 1))
              ((i + 1) * RAWTRACKSIZE)
              { st' with startrecord := 1 } := by
          rw [remaining, extract_track_step heof, hok]
          simp only [bind, Except.bind, access_ok hend, if_pos htoken]
        cases heof' : st'.eof_reached with
        | true =>
          have hstop : ({ st' with startrecord := 1 } : Extraction).eof_reached = true := heof'
          rw [hdone, extract_tracks_eof hstop]
          exact .ok _
        | false =>
          by_cases hmore : i + 1 < size / RAWTRACKSIZE
          · rw [remaining_track heof hok heof' hend htoken hmore]
            have hless : size - (i + 1) * RAWTRACKSIZE < n := by omega
            exact remaining_inside hall hless (.next_track h hok heof' hend htoken hmore)
          · rw [hdone, Nat.sub_eq_zero_of_le (by omega)]
            exact .ok _
      · rcases Nat.lt_or_ge (record_end m rawdata) (i * RAWTRACKSIZE + RAWTRACKSIZE) with hin' | hover
        · cases heof' : st'.eof_reached with
          | true =>
            have hstop : ({ st' with startrecord := 1 } : Extraction).eof_reached = true := heof'
            rw [remaining_record heof hok hend htoken hin', remaining, extract_track_eof heof']
            show Contained (extract_tracks _ _ _ _ _ _ _ _)
            rw [extract_tracks_eof hstop]
            exact .ok _
          | false =>
            rw [remaining_record heof hok hend htoken hin']
            have hless : size - record_end m rawdata < n := by omega
            exact remaining_inside hall hless (.next_record h hok heof' hend htoken hin')
        · rw [remaining, extract_track_step heof, hok]
          simp only [bind, Except.bind, access_ok hend, if_neg htoken, if_pos hover]
          exact .refused
    · rw [remaining, extract_track_step heof, herr]
      exact .refused
    · have hrefused := (hall i record rawdata st h).resolve_left (by omega)
      rw [extract_record_refused hin hrefused.1 hrefused.2] at herr
      cases herr

theorem extraction_inside_iff :
    Contained (dshandle_extract_data_from_trackbuffer m size databufmax DS1RECFM keepRDW st₀) ↔
      RecordsInside m size databufmax DS1RECFM keepRDW st₀ := by
  constructor
  · intro hrun i record rawdata st h
    by_contra hout
    rw [reached_remaining h, remaining_outside h hout] at hrun
    exact not_contained hrun
  · intro hall
    cases heof : st₀.eof_reached with
    | true =>
      have hstart : st₀.start.eof_reached = true := heof
      rw [dshandle_extract_data_from_trackbuffer, extract_tracks_eof hstart]
      exact .ok _
    | false =>
      by_cases hpos : 0 < size / RAWTRACKSIZE
      · rw [remaining_first hpos heof]
        exact remaining_inside hall (Nat.lt_succ_self _) (.first hpos heof)
      · rw [dshandle_extract_data_from_trackbuffer, Nat.eq_zero_of_not_pos hpos]
        exact .ok _

end

/-! ## The records of a buffer -/

section
variable (m : Mem) (size : Nat)

/-- The records that the iteration over a buffer gets to. -/
inductive RecordReached : Option Nat → Prop
  | start : RecordReached none
  | next {r : Option Nat} {next : Nat} : RecordReached r → buffer_get_next_record m size r = .ok (some next) →
      RecordReached (some next)

end

section
variable {m : Mem}

theorem RecordReached.inside {size : Nat} (hsize : 8 ≤ size) {r : Option Nat} (h : RecordReached m size r) :
    ∀ record, r = some record → record + 8 ≤ size := by
  cases h with
  | start => exact fun record h => by cases h
  | @next r next _ hnext =>
    intro record heq
    cases heq
    cases r with
    | none =>
      cases hnext
      omega
    | some record' => exact (get_next_record_lt hnext).2

theorem next_record_track : ∀ {steps i k : Nat}, k ≤ steps + i →
    ∃ r, next_record m (k * RAWTRACKSIZE) (steps + 1) (i * RAWTRACKSIZE) = .ok r
  | 0, i, k, h => by
    rw [next_record, if_pos (Nat.mul_le_mul_right _ (by omega))]
    exact ⟨_, rfl⟩
  | steps + 1, i, k, h => by
    rw [next_record]
    by_cases hend : k * RAWTRACKSIZE ≤ i * RAWTRACKSIZE
    · rw [if_pos hend]
      exact ⟨_, rfl⟩
    · have hlt : i < k := Nat.lt_of_mul_lt_mul_right (Nat.lt_of_not_le hend)
      have hle : (i + 1) * RAWTRACKSIZE ≤ k * RAWTRACKSIZE := Nat.mul_le_mul_right _ hlt
      rw [Nat.add_mul, Nat.one_mul] at hle
      have h8 : 8 ≤ RAWTRACKSIZE := by decide
      rw [if_neg hend, access_ok (by omega)]
      simp only [bind, Except.bind]
      split
      · rw [Nat.mul_div_cancel _ (by decide), ← Nat.succ_mul]
        exact next_record_track (by omega)
      · exact ⟨_, rfl⟩

theorem next_record_cases {steps data k : Nat} (hsteps : k ≤ steps) :
    ((∃ r, next_record m (k * RAWTRACKSIZE) (steps + 1 + 1) data = .ok r) ∧
      (k * RAWTRACKSIZE ≤ data ∨ data + 8 ≤ k * RAWTRACKSIZE)) ∨
    (next_record m (k * RAWTRACKSIZE) (steps + 1 + 1) data = .error .outside ∧ data < k * RAWTRACKSIZE ∧
      k * RAWTRACKSIZE < data + 8) := by
  rw [next_record]
  by_cases hend : k * RAWTRACKSIZE ≤ data
  · rw [if_pos hend]
    exact .inl ⟨⟨_, rfl⟩, .inl hend⟩
  · rw [if_neg hend]
    rcases Nat.lt_or_ge (k * RAWTRACKSIZE) (data + 8) with hout | hin
    · rw [access_outside hout]
      exact .inr ⟨rfl, by omega, hout⟩
    · rw [access_ok hin]
      simp only [bind, Except.bind]
      refine .inl ⟨?_, .inr hin⟩
      split
      · rw [← Nat.succ_mul]
        exact next_record_track (Nat.le_trans hsteps (Nat.le_add_right _ _))
      · exact ⟨_, rfl⟩

theorem get_next_record_eq {record : Nat} (hin : record + 8 ≤ size) :
    buffer_get_next_record m size (some record) = next_record m size (size + 1) (record_end m record) := by
  rw [buffer_get_next_record, access_ok (by omega)]
  rfl

theorem get_next_record_cases {k record : Nat} (hin : record + 8 ≤ k * RAWTRACKSIZE) :
    ((∃ r, buffer_get_next_record m (k * RAWTRACKSIZE) (some record) = .ok r) ∧
      (k * RAWTRACKSIZE ≤ record_end m record ∨ record_end m record + 8 ≤ k * RAWTRACKSIZE)) ∨
    (buffer_get_next_record m (k * RAWTRACKSIZE) (some record) = .error .outside ∧
      record_end m record < k * RAWTRACKSIZE ∧ k * RAWTRACKSIZE < record_end m record + 8) := by
  obtain ⟨steps, hsteps⟩ : ∃ steps, k * RAWTRACKSIZE = steps + 1 := Nat.exists_eq_add_one.mpr (by omega)
  have hk : k ≤ steps := by
    rw [RAWTRACKSIZE] at hin hsteps
    omega
  rw [get_next_record_eq hin, congrArg (· + 1) hsteps]
  exact next_record_cases hk

theorem get_next_record_contained_iff {k : Nat} (hk : 0 < k) {r : Option Nat}
    (h : RecordReached m (k * RAWTRACKSIZE) r) : Contained (buffer_get_next_record m (k * RAWTRACKSIZE) r) ↔
      ∀ record, r = some record → k * RAWTRACKSIZE ≤ record_end m record ∨
        record_end m record + 8 ≤ k * RAWTRACKSIZE := by
  cases r with
  | none => exact ⟨fun _ _ h => absurd h (by simp), fun _ => .ok _⟩
  | some record =>
    have h8 : 8 ≤ k * RAWTRACKSIZE := by
      rw [RAWTRACKSIZE]
      omega
    rcases get_next_record_cases (h.inside h8 record rfl) with ⟨⟨next, hnext⟩, hend⟩ | ⟨herr, hlt, hout⟩
    · rw [hnext]
      refine ⟨fun _ record' heq => ?_, fun _ => .ok _⟩
      cases heq
      exact hend
    · rw [herr]
      exact ⟨fun h => absurd h not_contained, fun h => by have := h record rfl; omega⟩

/-! ## Directories -/

/-- The entries of a directory record lie inside the buffer, up to the last one or the end token. -/
inductive EntriesInside (m : Mem) (size : Nat) : Nat → Int → Prop
  | done {data : Nat} {residual : Int} : residual ≤ 0 → EntriesInside m size data residual
  | token {data : Nat} {residual : Int} : data + 8 ≤ size → word m data 8 = ENDTOKEN →
      EntriesInside m size data residual
  | entry {data : Nat} {residual : Int} : data + sizeofMember ≤ size →
      EntriesInside m size (data + sizeofMember + user_data_size m data)
        (residual - (sizeofMember + user_data_size m data : Nat)) → EntriesInside m size data residual

/-- The directory record and its entries lie inside the buffer. -/
def DirectoryInside (m : Mem) (size record : Nat) : Prop :=
  record + sizeofCount + PDS_DIR_KL + 2 ≤ size ∧ EntriesInside m size (record + sizeofCount + PDS_DIR_KL + 2)
    ((word m (record + sizeofCount + PDS_DIR_KL) 2 : Nat) - (2 : Nat) : Int)

theorem directory_entries_outcome {size : Nat} : ∀ {n data : Nat} {residual : Int}, residual.toNat < n →
    ((∃ r, directory_entries m size data residual = .ok r) ∧ EntriesInside m size data residual) ∨
    (directory_entries m size data residual = .error .outside ∧ ¬ EntriesInside m size data residual)
  | 0, _, _, h => absurd h (Nat.not_lt_zero _)
  | n + 1, data, residual, hn => by
    have h12 : sizeofMember = 12 := rfl
    rw [directory_entries]
    by_cases hpos : residual > 0
    · rw [dif_pos hpos]
      rcases Nat.lt_or_ge size (data + 8) with hout | hin
      · rw [access_outside hout]
        refine .inr ⟨rfl, fun h => ?_⟩
        cases h with
        | done h => omega
        | token h _ => omega
        | entry h _ => omega
      · rw [access_ok hin]
        simp only [bind, Except.bind]
        by_cases htoken : word m data 8 = ENDTOKEN
        · rw [if_pos htoken]
          exact .inl ⟨⟨_, rfl⟩, .token hin htoken⟩
        · rw [if_neg htoken]
          rcases Nat.lt_or_ge size (data + sizeofMember) with hout | hin'
          · rw [access_outside hout]
            refine .inr ⟨rfl, fun h => ?_⟩
            cases h with
            | done h => omega
            | token _ h => exact htoken h
            | entry h _ => omega
          · rw [access_ok hin']
            dsimp only
            rcases @directory_entries_outcome size n (data + sizeofMember + user_data_size m data)
              (residual - (sizeofMember + user_data_size m data : Nat)) (by omega) with ⟨⟨r, hr⟩,
                hins⟩ | ⟨herr, hnot⟩
            · rw [hr]
              exact .inl ⟨⟨_, rfl⟩, .entry hin' hins⟩
            · rw [herr]
              refine .inr ⟨rfl, fun h => ?_⟩
              cases h with
              | done h => omega
              | token _ h => exact htoken h
              | entry _ h => exact hnot h
    · rw [dif_neg hpos]
      exact .inl ⟨⟨_, rfl⟩, .done (by omega)⟩

theorem directory_record_outcome {size record : Nat} (hin : record + 8 ≤ size) :
    ((kl m record ≠ PDS_DIR_KL ∨ dl m record ≠ PDS_DIR_DL) ∧
      directory_record m size record = .error (.error .EPROTO)) ∨
    (kl m record = PDS_DIR_KL ∧ dl m record = PDS_DIR_DL ∧
      (((∃ r, directory_record m size record = .ok r) ∧ DirectoryInside m size record) ∨
        (directory_record m size record = .error .outside ∧ ¬ DirectoryInside m size record))) := by
  have hcount : access size (record + 5) 3 = .ok () := access_ok (by omega)
  have h8 : sizeofCount = 8 := rfl
  have h8' : PDS_DIR_KL = 8 := rfl
  unfold directory_record
  rw [hcount]
  simp only [bind, Except.bind]
  by_cases hlayout : kl m record ≠ PDS_DIR_KL ∨ dl m record ≠ PDS_DIR_DL
  · rw [if_pos hlayout]
    exact .inl ⟨hlayout, rfl⟩
  · rw [if_neg hlayout]
    push Not at hlayout
    refine .inr ⟨hlayout.1, hlayout.2, ?_⟩
    rcases Nat.lt_or_ge size (record + sizeofCount + PDS_DIR_KL + 2) with hout | hin'
    · right
      refine ⟨?_, fun h => by have := h.1; omega⟩
      rcases Nat.lt_or_ge size (record + sizeofCount + 8) with hout' | hin''
      · rw [access_outside hout']
      · rw [access_ok hin'', access_outside hout]
    · rw [access_ok (show record + sizeofCount + 8 ≤ size by omega), access_ok hin']
      dsimp only
      rcases @directory_entries_outcome m size _ (record + sizeofCount + PDS_DIR_KL + 2)
        ((word m (record + sizeofCount + PDS_DIR_KL) 2 : Nat) - (2 : Nat) : Int) (Nat.lt_succ_self _)
        with ⟨⟨r, hr⟩, hins⟩ | ⟨herr, hnot⟩
      · rw [hr]
        exact .inl ⟨⟨_, rfl⟩, hin', hins⟩
      · rw [herr]
        exact .inr ⟨rfl, fun h => hnot h.2⟩

theorem directory_records_step (r record : Nat) : directory_records m r record =
    directory_visit m RAWTRACKSIZE r record >>= fun x =>
      if x.2 then .ok (x.1, true)
      else buffer_get_next_record m RAWTRACKSIZE (some record) >>= fun next =>
        next.elim (.ok (x.1, false)) fun next =>
          directory_records m (r + 1) next >>= fun y => .ok (x.1 ++ y.1, y.2) := by
  rw [directory_records]
  congr 1
  funext x
  obtain ⟨found, dirend⟩ := x
  cases dirend with
  | true => rfl
  | false =>
    dsimp only
    rw [if_neg Bool.false_ne_true, if_neg Bool.false_ne_true]
    split
    · next h => rw [h]; rfl
    · next h => rw [h]; rfl
    · next h => rw [h]; rfl

end

section
variable (m : Mem)

/-- The loop over the records of a directory track reaches record `r` at `record`. -/
inductive DirectoryReached : Nat → Nat → Prop
  | first : DirectoryReached 0 0
  | next {r record next : Nat} {found : List PdsMember} : DirectoryReached r record →
      directory_visit m RAWTRACKSIZE r record = .ok (found, false) →
      buffer_get_next_record m RAWTRACKSIZE (some record) = .ok (some next) → DirectoryReached (r + 1) next

/-- A record with the layout of a directory record lies inside the track with its entries, and a record that
is not the last one of the directory ends behind the track or leaves room for the end token. -/
def DirectoryRecordInside (r record : Nat) : Prop :=
  (r ≠ 0 → kl m record = PDS_DIR_KL → dl m record = PDS_DIR_DL → DirectoryInside m RAWTRACKSIZE record) ∧
    ∀ found, directory_visit m RAWTRACKSIZE r record = .ok (found, false) →
      RAWTRACKSIZE ≤ record_end m record ∨ record_end m record + 8 ≤ RAWTRACKSIZE

def DirectoryRecordsInside : Prop := ∀ r record, DirectoryReached m r record → DirectoryRecordInside m r record

end

section
variable {m : Mem}

theorem DirectoryReached.inside {r record : Nat} (h : DirectoryReached m r record) : record + 8 ≤ RAWTRACKSIZE := by
  cases h with
  | first => decide
  | next _ _ hnext => exact (get_next_record_lt hnext).2

theorem directory_visit_outcome {r record : Nat} (hin : record + 8 ≤ RAWTRACKSIZE) :
    ((∃ x, directory_visit m RAWTRACKSIZE r record = .ok x) ∧
      (r ≠ 0 → kl m record = PDS_DIR_KL → dl m record = PDS_DIR_DL → DirectoryInside m RAWTRACKSIZE record)) ∨
    (directory_visit m RAWTRACKSIZE r record = .error (.error .EPROTO) ∧
      (r ≠ 0 → kl m record = PDS_DIR_KL → dl m record = PDS_DIR_DL → DirectoryInside m RAWTRACKSIZE record)) ∨
    (directory_visit m RAWTRACKSIZE r record = .error .outside ∧
      ¬ (r ≠ 0 → kl m record = PDS_DIR_KL → dl m record = PDS_DIR_DL → DirectoryInside m RAWTRACKSIZE record)) := by
  unfold directory_visit
  by_cases h0 : r = 0
  · rw [if_pos h0]
    exact .inl ⟨⟨_, rfl⟩, fun h => absurd h0 h⟩
  · rw [if_neg h0]
    rcases @directory_record_outcome m RAWTRACKSIZE record hin with ⟨hlayout, herr⟩ | ⟨hkl, hdl,
      ⟨hok, hins⟩ | ⟨herr, hnot⟩⟩
    · exact .inr (.inl ⟨herr, fun _ hkl hdl => absurd hdl (hlayout.resolve_left fun h => h hkl)⟩)
    · exact .inl ⟨hok, fun _ _ _ => hins⟩
    · exact .inr (.inr ⟨herr, fun h => hnot (h h0 hkl hdl)⟩)

theorem get_next_record_track {record : Nat} (hin : record + 8 ≤ RAWTRACKSIZE) :
    ((∃ r, buffer_get_next_record m RAWTRACKSIZE (some record) = .ok r) ∧
      (RAWTRACKSIZE ≤ record_end m record ∨ record_end m record + 8 ≤ RAWTRACKSIZE)) ∨
    (buffer_get_next_record m RAWTRACKSIZE (some record) = .error .outside ∧
      ¬ (RAWTRACKSIZE ≤ record_end m record ∨ record_end m record + 8 ≤ RAWTRACKSIZE)) := by
  have h := @get_next_record_cases m 1 record
  rw [Nat.one_mul] at h
  rcases h hin with h | ⟨herr, hlt, hout⟩
  · exact .inl h
  · exact .inr ⟨herr, by omega⟩

theorem directory_outside {r record : Nat} (h : DirectoryReached m r record)
    (hout : directory_records m r record = .error .outside) : extract_members_from_track m = .error .outside := by
  induction h with
  | first => exact hout
  | @next r record next found _ hvisit hnext ih =>
    refine ih ?_
    rw [directory_records_step, hvisit]
    simp only [bind, Except.bind, Bool.false_eq_true, if_false, hnext, Option.elim, hout]

theorem directory_contained (hall : DirectoryRecordsInside m) : ∀ {n r record : Nat}, RAWTRACKSIZE - record < n →
    DirectoryReached m r record → Contained (directory_records m r record)
  | 0, _, _, hn, _ => absurd hn (Nat.not_lt_zero _)
  | n + 1, r, record, hn, h => by
    have hin := h.inside
    rw [directory_records_step]
    rcases @directory_visit_outcome m r record hin with ⟨⟨⟨found, dirend⟩, hvisit⟩, -⟩ | ⟨herr, -⟩ | ⟨-, hnot⟩
    · rw [hvisit]
      cases dirend with
      | true => exact .ok _
      | false =>
        simp only [bind, Except.bind, Bool.false_eq_true, if_false]
        rcases get_next_record_track hin with ⟨⟨next, hnext⟩, -⟩ | ⟨-, hnot⟩
        · rw [hnext]
          cases next with
          | none => exact .ok _
          | some next =>
            have hlt := (get_next_record_lt hnext).1
            have hless : RAWTRACKSIZE - next < n := by omega
            rcases directory_contained hall hless (.next h hvisit hnext) with ⟨x, hx⟩ | herr
            · simp only [Option.elim, hx]
              exact .ok _
            · simp only [Option.elim, herr]
              exact .refused
        · exact absurd ((hall r record h).2 found hvisit) hnot
    · rw [herr]
      exact .refused
    · exact absurd (hall r record h).1 hnot

theorem directory_contained_iff : Contained (extract_members_from_track m) ↔ DirectoryRecordsInside m := by
  constructor
  · intro hrun r record h
    have hin := h.inside
    have hnot : directory_records m r record ≠ .error .outside := fun hout => by
      rw [directory_outside h hout] at hrun
      exact not_contained hrun
    rw [directory_records_step] at hnot
    constructor
    · rcases @directory_visit_outcome m r record hin with ⟨-, hins⟩ | ⟨-, hins⟩ | ⟨herr, -⟩
      · exact hins
      · exact hins
      · rw [herr] at hnot
        exact absurd rfl hnot
    · intro found hvisit
      rw [hvisit] at hnot
      simp only [bind, Except.bind, Bool.false_eq_true, if_false] at hnot
      rcases get_next_record_track hin with ⟨-, hins⟩ | ⟨herr, -⟩
      · exact hins
      · rw [herr] at hnot
        exact absurd rfl hnot
  · intro hall
    exact directory_contained hall (Nat.lt_succ_self _) .first

/-! ## All of them -/

/-- The extraction, the iteration over a buffer and the analysis of a directory track stay inside the buffers
exactly if each record that they get to leaves room for the end token behind it. -/
theorem track_buffer_contained_iff (m : Mem) :
    (∀ (size databufmax DS1RECFM : Nat) (keepRDW : Bool) (st : Extraction),
      Contained (dshandle_extract_data_from_trackbuffer m size databufmax DS1RECFM keepRDW st) ↔
        RecordsInside m size databufmax DS1RECFM keepRDW st) ∧
    (∀ (k : Nat) (r : Option Nat), 0 < k → RecordReached m (k * RAWTRACKSIZE) r →
      (Contained (buffer_get_next_record m (k * RAWTRACKSIZE) r) ↔
        ∀ record, r = some record → k * RAWTRACKSIZE ≤ record_end m record ∨
          record_end m record + 8 ≤ k * RAWTRACKSIZE)) ∧
    (Contained (extract_members_from_track m) ↔ DirectoryRecordsInside m) :=
  ⟨fun _ _ _ _ _ => extraction_inside_iff, fun _ _ hk h => get_next_record_contained_iff hk h,
    directory_contained_iff⟩

def directoryTrack : Mem := fun i =>
  if i = 7 ∨ i = 21 then 8 else if i = 22 then 1 else if i = 33 then 26
  else if 34 ≤ i ∧ i < 42 then 0xc1 else if 46 ≤ i ∧ i < 54 then 0xff else 0

theorem directoryTrack_entries :
    directory_entries directoryTrack RAWTRACKSIZE 34 24 = .ok ([dataset_add_member directoryTrack 34], true) := by
  have htoken : directory_entries directoryTrack RAWTRACKSIZE 46 12 = .ok ([], true) := by
    rw [directory_entries, dif_pos (show (12 : Int) > 0 by decide), access_ok (by decide)]
    dsimp only [bind, Except.bind]
    rw [if_pos (by decide)]
  rw [directory_entries, dif_pos (show (24 : Int) > 0 by decide), access_ok (by decide)]
  dsimp only [bind, Except.bind]
  rw [if_neg (by decide), access_ok (by decide)]
  exact congrArg (Except.map fun x : List PdsMember × Bool =>
    (dataset_add_member directoryTrack 34 :: x.1, x.2)) htoken

theorem directoryTrack_visit : directory_visit directoryTrack RAWTRACKSIZE 1 16 =
    .ok ([dataset_add_member directoryTrack 34], true) := by
  rw [directory_visit, if_neg (by decide), directory_record, access_ok (by decide)]
  dsimp only [bind, Except.bind]
  rw [if_neg (by decide), access_ok (by decide)]
  dsimp only
  rw [access_ok (by decide)]
  exact congrArg (Except.map fun x : List PdsMember × Bool => (x.1, _ || x.2)) directoryTrack_entries

theorem directoryTrack_reached {r record : Nat} (h : DirectoryReached directoryTrack r record) :
    (r = 0 ∧ record = 0) ∨ (r = 1 ∧ record = 16) := by
  induction h with
  | first => exact .inl ⟨rfl, rfl⟩
  | next _ hvisit hnext ih =>
    rcases ih with ⟨rfl, rfl⟩ | ⟨rfl, rfl⟩
    · have h16 : buffer_get_next_record directoryTrack RAWTRACKSIZE (some 0) = .ok (some 16) := rfl
      rw [h16] at hnext
      cases hnext
      exact .inr ⟨rfl, rfl⟩
    · rw [directoryTrack_visit] at hvisit
      cases hvisit

theorem directoryTrack_inside : DirectoryRecordsInside directoryTrack := by
  intro r record h
  rcases directoryTrack_reached h with ⟨rfl, rfl⟩ | ⟨rfl, rfl⟩
  · exact ⟨fun h0 => absurd rfl h0, fun _ _ => .inr (by decide)⟩
  · have htoken : EntriesInside directoryTrack RAWTRACKSIZE 46 12 := .token (by decide) (by decide)
    have hentry : EntriesInside directoryTrack RAWTRACKSIZE 34 24 := .entry (by decide) htoken
    exact ⟨fun _ _ _ => ⟨by decide, hentry⟩, fun _ _ => .inr (by decide)⟩

theorem track_buffer_contained_directory :
    Contained (buffer_get_next_record directoryTrack (1 * RAWTRACKSIZE) (some 16)) ∧
      Contained (extract_members_from_track directoryTrack) := by
  have h := track_buffer_contained_iff directoryTrack
  refine ⟨(h.2.1 1 (some 16) (by decide) (.next (.next .start rfl) rfl)).mpr fun record heq => ?_,
    h.2.2.mpr directoryTrack_inside⟩
  cases heq
  exact .inr (by decide)

def shortTrack : Mem := fun i => if i = 6 then 0xff else if i = 7 then 0xf5 else 0

theorem end_token_outside : ¬ ∀ (m : Mem) (size databufmax DS1RECFM : Nat) (keepRDW : Bool) (st : Extraction),
    Contained (dshandle_extract_data_from_trackbuffer m size databufmax DS1RECFM keepRDW st) := by
  intro h
  have hrun := h shortTrack 65536 65536 128 false ⟨1, false, []⟩
  have hout : dshandle_extract_data_from_trackbuffer shortTrack 65536 65536 128 false ⟨1, false,
    []⟩ = .error .outside := by
    rw [remaining_first (by decide) rfl]
    refine remaining_outside (.first (by decide) rfl) fun hin => ?_
    rcases hin with hin | ⟨hstart, -⟩
    · revert hin
      decide
    · exact absurd hstart (by decide)
  rw [hout] at hrun
  exact not_contained hrun

end

end Libzds
