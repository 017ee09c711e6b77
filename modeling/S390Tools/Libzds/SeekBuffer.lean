import S390Tools.Libzds.VtocScan
import S390Tools.Libzds.Merge

/-!
# The seek buffer (libzds/libzds.c)

A data set is read in frames of some tracks. While it is read, each frame whose
number is a multiple of `skip` is stored in the seek buffer.
-/

namespace Libzds

open Word

/-! ## The data set -/

structure Part where
  dasd : Dasd
  ext : Nat → Extent

structure Parts where
  dsp : List Part
  dspcount_le : dsp.length ≤ MAXVOLUMESPERDS

def Parts.dspcount (ds : Parts) : Nat := ds.dsp.length

def extent_contains_userdata (ext : Extent) : Bool := ext.typeind = 0x01 || ext.typeind = 0x81

def get_extent_size_in_tracks (ext : Extent) (dasd : Dasd) : Nat :=
  if extent_contains_userdata ext then
    u32 ((lzds_dasd_cchh2trk dasd ext.ulimit : Int) - lzds_dasd_cchh2trk dasd ext.llimit + 1)
  else 0

def lzds_dataset_get_size_in_tracks (ds : Parts) : Nat :=
  (ds.dsp.map fun p => ((List.range MAXEXTENTS).map fun j => get_extent_size_in_tracks (p.ext j) p.dasd).sum).sum

/-- `struct pdsmember`: the member starts in one of the tracks of the data set. -/
structure Member (ds : Parts) where
  track : Nat
  inside : track < lzds_dataset_get_size_in_tracks ds

/-! ## The handle -/

structure SeekElement where
  dsp_no : Nat
  ext_seq_no : Int
  bufstarttrk : Nat
  databufoffset : Nat
  deriving DecidableEq

def sizeofSeekelement : Nat := 16

/-- `struct dshandle`; the elements of `seekbuf` are the `seek_current` stored ones. -/
structure Dshandle where
  tracks_per_frame : Nat
  dsp_no : Nat
  ext_seq_no : Int
  extstarttrk : Nat
  extendtrk : Nat
  bufstarttrk : Nat
  bufendtrk : Nat
  frameno : Int
  databufoffset : Nat
  databufsize : Nat
  eof_reached : Bool
  seekbuf : List SeekElement
  seek_count : Nat
  skip : Nat
  deriving DecidableEq

def Dshandle.rawbufmax (h : Dshandle) : Nat := u32 (h.tracks_per_frame * RAWTRACKSIZE : Nat)

section
variable (ds : Parts)

def extents : Nat :=
  (ds.dsp.map fun p => ((List.range MAXEXTENTS).filter fun j => (p.ext j).typeind ≠ 0).length).sum

def lzds_dshandle_set_seekbuffer (h : Dshandle) (seek_buffer_size : Nat) : Option Dshandle :=
  let h := { h with seekbuf := [], seek_count := 0, skip := 0 }
  if seek_buffer_size = 0 then some h
  else
    let entries := seek_buffer_size / sizeofSeekelement
    let frames := lzds_dataset_get_size_in_tracks ds / h.tracks_per_frame + 1 + extents ds
    if entries = 0 then none
    else
      let skip := u32 (frames / entries + 1 : Nat)
      if skip = 0 then none
      else some { h with seek_count := frames / skip + 1, skip := skip }

/-! ## Positions -/

def next_extent : Nat → Nat → Int → Option (Nat × Nat)
  | 0, _, _ => none
  | steps + 1, dsp_no, ext_seq_no =>
    let ext_seq_no := ext_seq_no + 1
    let p : Nat × Nat := if ext_seq_no ≥ MAXEXTENTS then (dsp_no + 1, 0) else (dsp_no, ext_seq_no.toNat)
    match ds.dsp[p.1]? with
    | none => none
    | some part => if extent_contains_userdata (part.ext p.2) then some p else next_extent steps p.1 p.2

def Dshandle.next_frame (h : Dshandle) (bufstarttrk : Nat) : Dshandle :=
  { h with
    bufstarttrk := bufstarttrk
    bufendtrk := min (u32 (bufstarttrk + (h.rawbufmax / RAWTRACKSIZE : Nat) - 1)) h.extendtrk
    databufoffset := h.databufoffset + h.databufsize
    databufsize := 0
    frameno := h.frameno + 1 }

def dshandle_prepare_for_next_read_tracks (h : Dshandle) : Option Dshandle :=
  if h.bufendtrk < h.extendtrk then some (h.next_frame (u32 (h.bufendtrk + 1)))
  else
    match next_extent ds (MAXEXTENTS * (ds.dspcount + 1)) h.dsp_no h.ext_seq_no with
    | none => none
    | some (dsp_no, ext_seq_no) =>
      match ds.dsp[dsp_no]? with
      | none => none
      | some part =>
        let start := lzds_dasd_cchh2trk part.dasd (part.ext ext_seq_no).llimit
        let h := { h with
          ext_seq_no := ext_seq_no
          dsp_no := dsp_no
          extstarttrk := start
          extendtrk := lzds_dasd_cchh2trk part.dasd (part.ext ext_seq_no).ulimit }
        some (h.next_frame start)

/-- The loop over the extents `j` that searches the start of a member. -/
def find_member (part : Part) (track : Nat) : List Nat → Nat → Dshandle → Dshandle
  | [], _, h => h
  | j :: js, tracksum, h =>
    if extent_contains_userdata (part.ext j) = false then find_member part track js tracksum h
    else
      let starttrck := lzds_dasd_cchh2trk part.dasd (part.ext j).llimit
      let endtrck := lzds_dasd_cchh2trk part.dasd (part.ext j).ulimit
      let extentsize := u32 ((endtrck : Int) - starttrck + 1)
      if track = tracksum then { h with ext_seq_no := (j : Int) - 1, bufendtrk := 0, extendtrk := 0 }
      else if track < tracksum + extentsize then
        { h with
          ext_seq_no := j
          extstarttrk := starttrck
          extendtrk := endtrck
          bufstarttrk := starttrck
          bufendtrk := u32 ((starttrck : Int) + (track - tracksum) - 1) }
      else find_member part track js (tracksum + extentsize) h

def initialize_buffer_positions_for_first_read (member : Option (Member ds)) (h : Dshandle) :
    Except Errno Dshandle :=
  let h := { h with databufsize := 0, databufoffset := 0, eof_reached := false, frameno := -1, dsp_no := 0 }
  match member with
  | none => .ok { h with ext_seq_no := -1, bufstarttrk := 0, bufendtrk := 0, extstarttrk := 0, extendtrk := 0 }
  | some m =>
    match ds.dsp with
    | [part] => .ok (find_member part m.track (List.range MAXEXTENTS) 0 h)
    | _ => .error .EPROTO

/-! ## Reading -/

def dshandle_store_trackframe (h : Dshandle) : Except Errno Dshandle :=
  if h.skip = 0 then .ok h
  else if h.frameno.toNat % h.skip ≠ 0 then .ok h
  else if h.seekbuf.length ≥ h.seek_count then .error .ERANGE
  else
    let index := h.frameno.toNat / h.skip
    let element : SeekElement := ⟨h.dsp_no, h.ext_seq_no, h.bufstarttrk, h.databufoffset⟩
    if index > h.seekbuf.length then .error .EPROTO
    else
      match h.seekbuf[index]? with
      | some visited => if visited ≠ element then .error .EINVAL else .ok h
      | none => .ok { h with seekbuf := h.seekbuf ++ [element] }

inductive Outcome
  | io_error
  | malformed
  | data (databufsize : Nat) (eof : Bool)

inductive Failure
  | read
  | extract
  | store (rc : Errno)
  | outside
  deriving DecidableEq

def extract_and_store (h : Dshandle) : Outcome → Dshandle × Option Failure
  | .io_error => (h, some .read)
  | .malformed => (h, some .extract)
  | .data size eof =>
    let h := { h with databufsize := size, eof_reached := eof }
    match dshandle_store_trackframe h with
    | .error rc => (h, some (.store rc))
    | .ok h => (h, none)

/-- The body of the loop of `lzds_dshandle_read`, for a prepared frame. -/
def read_frame (h : Dshandle) (o : Outcome) : Dshandle × Option Failure :=
  match ds.dsp[h.dsp_no]? with
  | none => (h, some .outside)
  | some part =>
    if h.bufstarttrk > h.bufendtrk ∨ h.bufendtrk ≥ u32 (part.dasd.cylinders * part.dasd.heads : Nat) then
      (h, some .read)
    else if h.rawbufmax < (h.bufendtrk - h.bufstarttrk + 1) * RAWTRACKSIZE then (h, some .outside)
    else extract_and_store h o

/-- The frames of `lzds_dshandle_read`, up to the end of the data or the first error. -/
def read_frames : List Outcome → Dshandle → Dshandle × Option Failure
  | [], h => (h, none)
  | o :: os, h =>
    if h.eof_reached then (h, none)
    else
      match dshandle_prepare_for_next_read_tracks ds h with
      | none => (h, none)
      | some h =>
        match read_frame ds h o with
        | (h, some e) => (h, some e)
        | (h, none) => read_frames os h

variable {ds} (member : Option (Member ds))

def reading (h : Dshandle) (os : List Outcome) : Dshandle × Option Failure :=
  match initialize_buffer_positions_for_first_read ds member h with
  | .error _ => (h, none)
  | .ok h => read_frames ds os h

def readings (h : Dshandle) (rs : List (List Outcome)) : Dshandle :=
    rs.foldl (fun h os => (reading member h os).1) h

/-! ## Frames -/

structure Tracks where
  first : Nat
  last : Nat
  volume : Nat
  deriving DecidableEq

def Tracks.count (p : Tracks) : Nat := u32 ((p.last : Int) - p.first + 1)

def Part.tracks (part : Part) (j : Nat) : Tracks :=
  ⟨lzds_dasd_cchh2trk part.dasd (part.ext j).llimit, lzds_dasd_cchh2trk part.dasd (part.ext j).ulimit,
    u32 (part.dasd.cylinders * part.dasd.heads : Nat)⟩

def user_extent (ds : Parts) (p : Nat) : Option Tracks :=
  ds.dsp[p / MAXEXTENTS]?.bind fun part =>
    if extent_contains_userdata (part.ext (p % MAXEXTENTS)) then some (part.tracks (p % MAXEXTENTS)) else none

def user_extents (ds : Parts) (p : Nat) : List Tracks :=
  (List.range' p (MAXEXTENTS * ds.dspcount - p)).filterMap (user_extent ds)

def skip_tracks : Nat → List Tracks → List Tracks
  | _, [] => []
  | track, p :: ps =>
    if track = 0 then p :: ps
    else if track < p.count then
      let before := u32 ((p.first : Int) + track - 1)
      (if before < p.last then [⟨before + 1, p.last, p.volume⟩] else []) ++ ps
    else skip_tracks (track - p.count) ps

def tracks_to_read : List Tracks :=
  match member with
  | none => user_extents ds 0
  | some m => if ds.dspcount = 1 then skip_tracks m.track (user_extents ds 0) else []

def frames (n : Nat) (p : Tracks) : List Tracks :=
  (List.range ((p.last - p.first) / n + 1)).map fun j =>
    ⟨p.first + j * n, min (p.first + j * n + n - 1) p.last, p.volume⟩

/-- The frame has tracks, all of them on the volume, and its size does not overflow the track number. -/
def Readable (n : Nat) (f : Tracks) : Prop :=
  0 < n ∧ f.first ≤ f.last ∧ f.last < f.volume ∧ f.first + n ≤ 4294967296

instance (n : Nat) (f : Tracks) : Decidable (Readable n f) := inferInstanceAs (Decidable (_ ∧ _))

def readable_frames (n : Nat) (ps : List Tracks) : Nat := ((ps.flatMap (frames n)).takeWhile (Readable n ·)).length

theorem frames_eq {n : Nat} (hn : 0 < n) (p : Tracks) :
    frames n p = ⟨p.first, min (p.first + n - 1) p.last, p.volume⟩ ::
      if min (p.first + n - 1) p.last < p.last then
        frames n ⟨min (p.first + n - 1) p.last + 1, p.last, p.volume⟩
      else [] := by
  unfold frames
  rw [List.range_succ_eq_map, List.map_cons, List.map_map, Nat.zero_mul, Nat.add_zero]
  refine congrArg _ ?_
  split
  · rename_i h
    have hm : min (p.first + n - 1) p.last + 1 = p.first + n := by omega
    have hd : (p.last - p.first) / n = (p.last - (p.first + n)) / n + 1 := by
      have : p.last - p.first = p.last - (p.first + n) + n := by omega
      rw [this, Nat.add_div_right _ hn]
    simp only [hm, hd]
    refine List.map_congr_left fun j _ => ?_
    have : p.first + (j + 1) * n = p.first + n + j * n := by rw [Nat.succ_mul]; omega
    simp only [Function.comp_apply, Nat.succ_eq_add_one, this]
  · rename_i h
    rw [Nat.div_eq_of_lt (by omega)]
    rfl

theorem frames_head (n : Nat) (p : Tracks) :
    ∃ t, frames n p = ⟨p.first, min (p.first + n - 1) p.last, p.volume⟩ :: t := by
  unfold frames
  rw [List.range_succ_eq_map, List.map_cons, Nat.zero_mul, Nat.add_zero]
  exact ⟨_, rfl⟩

/-! ## The next frame -/

theorem user_extents_eq (p : Nat) :
    user_extents ds p =
      if p < MAXEXTENTS * ds.dspcount then (user_extent ds p).toList ++ user_extents ds (p + 1) else [] := by
  unfold user_extents
  split
  · rename_i h
    have : MAXEXTENTS * ds.dspcount - p = MAXEXTENTS * ds.dspcount - (p + 1) + 1 := by omega
    rw [this, List.range'_succ, List.filterMap_cons]
    cases user_extent ds p <;> rfl
  · rename_i h
    have : MAXEXTENTS * ds.dspcount - p = 0 := by omega
    rw [this]
    rfl

def position (dsp_no : Nat) (ext_seq_no : Int) : Nat := (MAXEXTENTS * dsp_no + ext_seq_no + 1).toNat

theorem next_extent_eq : ∀ (steps dsp_no : Nat) (ext_seq_no : Int), -1 ≤ ext_seq_no → ext_seq_no < MAXEXTENTS →
    MAXEXTENTS * ds.dspcount < position dsp_no ext_seq_no + steps →
    (user_extents ds (position dsp_no ext_seq_no) = [] ∧ next_extent ds steps dsp_no ext_seq_no = none) ∨
    ∃ d e part, next_extent ds steps dsp_no ext_seq_no = some (d, e) ∧ e < MAXEXTENTS ∧ ds.dsp[d]? = some part ∧
      user_extents ds (position dsp_no ext_seq_no) = part.tracks e :: user_extents ds (position d e)
  | 0, dsp_no, ext_seq_no, _, _, hs => by
    refine .inl ⟨?_, rfl⟩
    rw [user_extents_eq, if_neg (by omega)]
  | steps + 1, dsp_no, ext_seq_no, h0, h1, hs => by
    obtain ⟨d, e, he, hp, hpos⟩ : ∃ d e : Nat, e < MAXEXTENTS ∧ position dsp_no ext_seq_no = MAXEXTENTS * d + e ∧
        (if ext_seq_no + 1 ≥ MAXEXTENTS then (dsp_no + 1, 0) else (dsp_no, (ext_seq_no + 1).toNat)) = (d, e) := by
      unfold position
      by_cases hc : ext_seq_no + 1 ≥ MAXEXTENTS
      · exact ⟨dsp_no + 1, 0, by decide, by simp only [MAXEXTENTS] at *; omega, if_pos hc⟩
      · exact ⟨dsp_no, (ext_seq_no + 1).toNat, by omega, by omega, if_neg hc⟩
    have hdiv : (MAXEXTENTS * d + e) / MAXEXTENTS = d := by simp only [MAXEXTENTS] at *; omega
    have hmod : (MAXEXTENTS * d + e) % MAXEXTENTS = e := by simp only [MAXEXTENTS] at *; omega
    have hnext : position d e = MAXEXTENTS * d + e + 1 := by unfold position; omega
    have hu : user_extent ds (MAXEXTENTS * d + e) = ds.dsp[d]?.bind fun part =>
        if extent_contains_userdata (part.ext e) then some (part.tracks e) else none := by
      unfold user_extent
      rw [hdiv, hmod]
    have hl : next_extent ds (steps + 1) dsp_no ext_seq_no =
        match ds.dsp[d]? with
        | none => none
        | some part => if extent_contains_userdata (part.ext e) then some (d, e) else next_extent ds steps d e := by
      simp only [next_extent, hpos]
    rw [hl, hp]
    cases hd : ds.dsp[d]? with
    | none =>
      refine .inl ⟨?_, rfl⟩
      rw [user_extents_eq, if_neg]
      have hge := List.getElem?_eq_none_iff.mp hd
      have : MAXEXTENTS * ds.dspcount ≤ MAXEXTENTS * d := Nat.mul_le_mul_left _ hge
      omega
    | some part =>
      have hlt : d < ds.dspcount := List.getElem?_eq_some_iff.mp hd |>.1
      have hin : MAXEXTENTS * d + e < MAXEXTENTS * ds.dspcount := by
        have : MAXEXTENTS * (d + 1) ≤ MAXEXTENTS * ds.dspcount := Nat.mul_le_mul_left _ hlt
        rw [Nat.mul_succ] at this
        omega
      rw [user_extents_eq, if_pos hin, hu, hd]
      simp only [Option.bind_some, ← hnext]
      by_cases hud : extent_contains_userdata (part.ext e) = true
      · simp only [if_pos hud, Option.toList_some, List.singleton_append]
        exact .inr ⟨d, e, part, rfl, he, hd, rfl⟩
      · simp only [if_neg hud, Option.toList_none, List.nil_append]
        refine next_extent_eq steps d e (by omega) (by omega) ?_
        omega

structure Dshandle.Placed (ds : Parts) (h : Dshandle) : Prop where
  ext_ge : -1 ≤ h.ext_seq_no
  ext_lt : h.ext_seq_no < MAXEXTENTS
  extend_lt : h.extendtrk < 4294967296
  part : h.bufendtrk < h.extendtrk → h.dsp_no < ds.dspcount

def Dshandle.rest (ds : Parts) (h : Dshandle) : List Tracks :=
  (if h.bufendtrk < h.extendtrk then
    [⟨h.bufendtrk + 1, h.extendtrk, (ds.dsp[h.dsp_no]?.map fun p =>
      u32 (p.dasd.cylinders * p.dasd.heads : Nat)).getD 0⟩]
  else []) ++ user_extents ds (position h.dsp_no h.ext_seq_no)

def Dshandle.frame_size (h : Dshandle) : Nat := h.rawbufmax / RAWTRACKSIZE

theorem frame_size_eq (h : Dshandle) : h.frame_size = h.tracks_per_frame % RAWTRACKSIZE := by
  unfold Dshandle.frame_size Dshandle.rawbufmax u32 RAWTRACKSIZE
  omega

theorem rawbufmax_eq (h : Dshandle) : h.rawbufmax = h.frame_size * RAWTRACKSIZE := by
  unfold Dshandle.frame_size Dshandle.rawbufmax u32 RAWTRACKSIZE
  omega

theorem frame_size_lt (h : Dshandle) : h.frame_size < RAWTRACKSIZE := by
  rw [frame_size_eq]
  exact Nat.mod_lt _ (by decide)

def Dshandle.todo (ds : Parts) (h : Dshandle) : List Tracks := (h.rest ds).flatMap (frames h.frame_size)

/-- The handle `h'` is prepared for the first frame of the tracks `p`. -/
structure Prepared (ds : Parts) (h h' : Dshandle) (p : Tracks) (ps : List Tracks) : Prop where
  frameno : h'.frameno = h.frameno + 1
  tracks_per_frame : h'.tracks_per_frame = h.tracks_per_frame
  seekbuf : h'.seekbuf = h.seekbuf
  seek_count : h'.seek_count = h.seek_count
  skip : h'.skip = h.skip
  eof_reached : h'.eof_reached = h.eof_reached
  first : h'.bufstarttrk = p.first
  last : h'.extendtrk = p.last
  bufendtrk : h'.bufendtrk = min (u32 (p.first + (h.frame_size : Nat) - 1)) p.last
  part : ∃ part, ds.dsp[h'.dsp_no]? = some part ∧ u32 (part.dasd.cylinders * part.dasd.heads : Nat) = p.volume
  first_lt : p.first < 4294967296
  placed : h'.Placed ds
  rest : user_extents ds (position h'.dsp_no h'.ext_seq_no) = ps

theorem trk_lt (dasd : Dasd) (p : Nat × Nat) : lzds_dasd_cchh2trk dasd p < 4294967296 := u32_lt _

theorem prepare_eq {h : Dshandle} (hp : h.Placed ds) :
    (h.rest ds = [] ∧ dshandle_prepare_for_next_read_tracks ds h = none) ∨
    ∃ p ps h', h.rest ds = p :: ps ∧ dshandle_prepare_for_next_read_tracks ds h = some h' ∧
      Prepared ds h h' p ps := by
  unfold Dshandle.rest dshandle_prepare_for_next_read_tracks
  by_cases hlt : h.bufendtrk < h.extendtrk
  · have hx := hp.extend_lt
    have hs : u32 (h.bufendtrk + 1) = h.bufendtrk + 1 := by rw [u32_of_lt (by omega) (by omega)]; omega
    have hd := List.getElem?_eq_getElem (hp.part hlt)
    simp only [if_pos hlt, hs, List.singleton_append]
    refine .inr ⟨_, _, _, rfl, rfl, rfl, rfl, rfl, rfl, rfl, rfl, rfl, rfl, rfl, ⟨_, hd, ?_⟩, ?_, ?_, rfl⟩
    · simp only [hd, Option.map_some, Option.getD_some]
    · dsimp only
      omega
    · exact ⟨hp.ext_ge, hp.ext_lt, hp.extend_lt, fun _ => hp.part hlt⟩
  · simp only [if_neg hlt, List.nil_append]
    have hn : MAXEXTENTS * ds.dspcount < position h.dsp_no h.ext_seq_no + MAXEXTENTS * (ds.dspcount + 1) := by
      rw [Nat.mul_succ]
      simp only [MAXEXTENTS]
      omega
    rcases next_extent_eq _ _ _ hp.ext_ge hp.ext_lt hn with ⟨hr, hnone⟩ | ⟨d, e, part, hsome, he, hd, hr⟩
    · exact .inl ⟨hr, by rw [hnone]⟩
    · simp only [hsome, hd]
      refine .inr ⟨_, _, _, hr, rfl, rfl, rfl, rfl, rfl, rfl, rfl, rfl, rfl, rfl, ⟨_, hd, rfl⟩, trk_lt _ _, ?_, rfl⟩
      refine ⟨?_, ?_, trk_lt _ _, fun _ => (List.getElem?_eq_some_iff.mp hd).1⟩
      · simp only [Dshandle.next_frame]
        omega
      · simp only [Dshandle.next_frame]
        omega

theorem Prepared.frame_size {ds : Parts} {h h' : Dshandle} {p : Tracks} {ps : List Tracks}
    (hp : Prepared ds h h' p ps) :
    h'.frame_size = h.frame_size := by
  rw [frame_size_eq, frame_size_eq, hp.tracks_per_frame]

def first_frame (n : Nat) (p : Tracks) : Tracks := ⟨p.first, min (p.first + n - 1) p.last, p.volume⟩

theorem readable_first_frame {n : Nat} {p : Tracks} : Readable n (first_frame n p) ↔
    0 < n ∧ p.first ≤ min (p.first + n - 1) p.last ∧ min (p.first + n - 1) p.last < p.volume ∧
      p.first + n ≤ 4294967296 := Iff.rfl

theorem read_frame_eq {h : Dshandle} {part : Part} {v : Nat} (hd : ds.dsp[h.dsp_no]? = some part)
    (hvol : u32 (part.dasd.cylinders * part.dasd.heads : Nat) = v) (o : Outcome) :
    read_frame ds h o =
      if h.bufstarttrk > h.bufendtrk ∨ h.bufendtrk ≥ v then (h, some .read)
      else if h.rawbufmax < (h.bufendtrk - h.bufstarttrk + 1) * RAWTRACKSIZE then (h, some .outside)
      else extract_and_store h o := by
  unfold read_frame
  simp only [hd, hvol]

theorem Prepared.readable {ds : Parts} {h h' : Dshandle} {p : Tracks} {ps : List Tracks}
    (hp : Prepared ds h h' p ps)
    (hr : Readable h.frame_size (first_frame h.frame_size p)) (o : Outcome) :
    read_frame ds h' o = extract_and_store h' o ∧
      (p :: ps).flatMap (frames h.frame_size) = first_frame h.frame_size p :: h'.todo ds := by
  obtain ⟨hn, hle, hv, hb⟩ := readable_first_frame.1 hr
  obtain ⟨part, hd, hvol⟩ := hp.part
  have hend : h'.bufendtrk = min (p.first + h.frame_size - 1) p.last := by
    rw [hp.bufendtrk, u32_of_lt (by omega) (by omega)]
    omega
  constructor
  · rw [read_frame_eq hd hvol, if_neg, if_neg]
    · rw [rawbufmax_eq, hp.frame_size, Nat.not_lt]
      refine Nat.mul_le_mul_right _ ?_
      rw [hend, hp.first]
      omega
    · rw [hend, hp.first]
      omega
  · unfold Dshandle.todo Dshandle.rest
    rw [hp.frame_size, hp.rest, List.flatMap_cons, frames_eq hn, List.cons_append,
      List.flatMap_append, hend, hp.last, hd,
      Option.map_some, Option.getD_some, hvol]
    refine congrArg _ (congrArg (· ++ _) ?_)
    split
    · rw [List.flatMap_singleton]
    · rfl

theorem frame_fits {first n last : Nat} (hn : 0 < n) (hsize : n < RAWTRACKSIZE) (hfirst : first < 4294967296)
    (h : first ≤ min (u32 (first + (n : Nat) - 1)) last) :
    u32 (first + (n : Nat) - 1) = first + n - 1 ∧ first + n ≤ 4294967296 := by
  have hraw : RAWTRACKSIZE = 65536 := rfl
  have hle : first ≤ u32 (first + (n : Nat) - 1) := Nat.le_trans h (Nat.min_le_left ..)
  by_cases hfit : first + n ≤ 4294967296
  · refine ⟨?_, hfit⟩
    rw [u32_of_lt (by omega) (by omega)]
    omega
  · have hwrap : u32 (first + (n : Nat) - 1) = first + n - 1 - 4294967296 := by
      unfold u32
      omega
    omega

theorem Prepared.unreadable {ds : Parts} {h h' : Dshandle} {p : Tracks} {ps : List Tracks}
    (hp : Prepared ds h h' p ps)
    (hr : ¬ Readable h.frame_size (first_frame h.frame_size p)) (o : Outcome) :
    ∃ e, read_frame ds h' o = (h', some e) ∧ (e = .read ∨ e = .outside) := by
  obtain ⟨part, hd, hvol⟩ := hp.part
  rw [read_frame_eq hd hvol]
  by_cases hbad : h'.bufstarttrk > h'.bufendtrk ∨ h'.bufendtrk ≥ p.volume
  · exact ⟨_, if_pos hbad, .inl rfl⟩
  · rw [if_neg hbad]
    refine ⟨_, if_pos ?_, .inr rfl⟩
    rw [hp.first, hp.bufendtrk, not_or, Nat.not_lt, Nat.not_le] at hbad
    have h0 : h.frame_size = 0 := by
      by_contra hne
      have hpos := Nat.pos_of_ne_zero hne
      obtain ⟨hlast, hle⟩ := frame_fits hpos (frame_size_lt h) hp.first_lt hbad.1
      rw [hlast] at hbad
      exact hr (readable_first_frame.2 ⟨hpos, hbad.1, hbad.2, hle⟩)
    rw [rawbufmax_eq, hp.frame_size, h0, Nat.zero_mul]
    exact Nat.mul_pos (Nat.succ_pos _) (by decide)

/-! ## The start of a reading -/

theorem user_extent_one {part : Part} (hds : ds.dsp = [part]) {j : Nat} (hj : j < MAXEXTENTS) :
    user_extent ds j = if extent_contains_userdata (part.ext j) then some (part.tracks j) else none := by
  unfold user_extent
  rw [Nat.div_eq_of_lt hj, Nat.mod_eq_of_lt hj, hds]
  rfl

theorem user_extents_one {part : Part} (hds : ds.dsp = [part]) {j : Nat} (hj : j < MAXEXTENTS) :
    user_extents ds j =
      (if extent_contains_userdata (part.ext j) then [part.tracks j] else []) ++ user_extents ds (j + 1) := by
  have hc : ds.dspcount = 1 := by unfold Parts.dspcount; rw [hds]; rfl
  rw [user_extents_eq, if_pos (by rw [hc]; omega), user_extent_one hds hj]
  split <;> rfl

theorem get_extent_size_eq {part : Part} {j : Nat} (hu : extent_contains_userdata (part.ext j) = true) :
    get_extent_size_in_tracks (part.ext j) part.dasd = (part.tracks j).count := if_pos hu

theorem find_member_eq {part : Part} (hds : ds.dsp = [part]) (track : Nat) {h : Dshandle} (hd : h.dsp_no = 0) :
    ∀ (k j tracksum : Nat), j + k = MAXEXTENTS → tracksum ≤ track →
      track < tracksum + ((List.range' j k).map fun i => get_extent_size_in_tracks (part.ext i) part.dasd).sum →
      ∃ h', find_member part track (List.range' j k) tracksum h = h' ∧ h'.Placed ds ∧
        h'.rest ds = skip_tracks (track - tracksum) (user_extents ds j) ∧ h'.dsp_no = 0 ∧
        h' = { h with
          ext_seq_no := h'.ext_seq_no, bufendtrk := h'.bufendtrk, extendtrk := h'.extendtrk,
          extstarttrk := h'.extstarttrk, bufstarttrk := h'.bufstarttrk }
  | 0, j, tracksum, _, hle, hlt => by
    simp only [List.range'_zero, List.map_nil, List.sum_nil, Nat.add_zero] at hlt
    omega
  | k + 1, j, tracksum, hj, hle, hlt => by
    have hj16 : j < MAXEXTENTS := by omega
    have hpos : position 0 ((j : Int) - 1) = j := by unfold position; omega
    have hpos' : position 0 (j : Int) = j + 1 := by unfold position; omega
    rw [List.range'_succ, List.map_cons, List.sum_cons] at hlt
    rw [List.range'_succ, find_member]
    by_cases hu : extent_contains_userdata (part.ext j) = true
    · rw [get_extent_size_eq hu] at hlt
      have hue : user_extents ds j = part.tracks j :: user_extents ds (j + 1) := by
        rw [user_extents_one hds hj16, if_pos hu, List.singleton_append]
      rw [if_neg (by rw [hu]; decide)]
      dsimp only
      by_cases he : track = tracksum
      · rw [if_pos he]
        refine ⟨_, rfl, ⟨by dsimp only; omega, by dsimp only; omega, by dsimp only; decide,
          fun hl => absurd hl (Nat.lt_irrefl 0)⟩, ?_, hd, rfl⟩
        unfold Dshandle.rest
        dsimp only
        rw [if_neg (Nat.lt_irrefl 0), List.nil_append, hd, hpos, he, Nat.sub_self, hue, skip_tracks, if_pos rfl]
      · rw [if_neg he]
        have hsub : ((track - tracksum : Nat) : Int) = (track : Int) - tracksum := by omega
        have hst : skip_tracks (track - tracksum) (user_extents ds j) =
            if track - tracksum < (part.tracks j).count then
              (if u32 ((part.tracks j).first + (track - tracksum : Nat) - 1) < (part.tracks j).last then
                [⟨u32 ((part.tracks j).first + (track - tracksum : Nat) - 1) + 1, (part.tracks j).last,
                  (part.tracks j).volume⟩] else []) ++ user_extents ds (j + 1)
            else skip_tracks (track - tracksum - (part.tracks j).count) (user_extents ds (j + 1)) := by
          rw [hue, skip_tracks, if_neg (by omega)]
        by_cases hin : track < tracksum + (part.tracks j).count
        · refine ⟨_, if_pos hin, ⟨by dsimp only; omega, by dsimp only; omega, trk_lt _ _, fun _ => ?_⟩, ?_, hd, rfl⟩
          · dsimp only
            unfold Parts.dspcount
            rw [hd, hds]
            exact Nat.one_pos
          · rw [hst, if_pos (by omega)]
            unfold Dshandle.rest
            dsimp only
            rw [hd, hpos', hds, hsub]
            rfl
        · have hsub' : track - tracksum - (part.tracks j).count =
            track - (tracksum + (part.tracks j).count) := by omega
          obtain ⟨h', he, hp, hr, hrest⟩ := find_member_eq hds track hd k (j + 1) (tracksum + (part.tracks j).count)
            (by omega) (by omega) (by omega)
          refine ⟨h', (if_neg hin).trans he, hp, ?_, hrest⟩
          rw [hst, if_neg (by omega), hsub', hr]
    · have hu' : extent_contains_userdata (part.ext j) = false := by simpa using hu
      have hz : get_extent_size_in_tracks (part.ext j) part.dasd = 0 := if_neg hu
      rw [hz] at hlt
      rw [if_pos hu', user_extents_one hds hj16, if_neg hu, List.nil_append]
      exact find_member_eq hds track hd k (j + 1) tracksum (by omega) hle (by omega)

structure Started (h h' : Dshandle) : Prop where
  frameno : h'.frameno = -1
  tracks_per_frame : h'.tracks_per_frame = h.tracks_per_frame
  seekbuf : h'.seekbuf = h.seekbuf
  seek_count : h'.seek_count = h.seek_count
  skip : h'.skip = h.skip
  eof_reached : h'.eof_reached = false
  placed : h'.Placed ds
  rest : h'.rest ds = tracks_to_read member

theorem initialize_eq (h : Dshandle) :
    (∃ h', initialize_buffer_positions_for_first_read ds member h = .ok h' ∧ Started member h h') ∨
    (tracks_to_read member = [] ∧ initialize_buffer_positions_for_first_read ds member h = .error .EPROTO) := by
  unfold initialize_buffer_positions_for_first_read
  cases member with
  | none =>
    exact .inl ⟨_, rfl, rfl, rfl, rfl, rfl, rfl, rfl,
      ⟨Int.le_refl _, by dsimp only; decide, by dsimp only; decide, fun hl => absurd hl (Nat.lt_irrefl 0)⟩, rfl⟩
  | some m =>
    unfold tracks_to_read
    dsimp only
    rcases hds : ds.dsp with _ | ⟨part, _ | ⟨q, qs⟩⟩
    · exact .inr ⟨if_neg (by unfold Parts.dspcount; rw [hds]; decide), rfl⟩
    · refine .inl ?_
      have hc : ds.dspcount = 1 := by unfold Parts.dspcount; rw [hds]; rfl
      have hin := m.inside
      simp only [lzds_dataset_get_size_in_tracks, hds, List.map_cons, List.map_nil, List.sum_cons,
        List.sum_nil, Nat.add_zero,
        List.range_eq_range'] at hin
      obtain ⟨h', he, hp, hr, hd, hf⟩ := find_member_eq hds m.track
        (h := { h with databufsize := 0, databufoffset := 0, eof_reached := false, frameno := -1, dsp_no := 0 }) rfl
        MAXEXTENTS 0 0 rfl (Nat.zero_le _) (by rw [Nat.zero_add]; exact hin)
      refine ⟨h', ?_, ?_, ?_, ?_, ?_, ?_, ?_, hp, hr.trans (if_pos hc).symm⟩
      · rw [List.range_eq_range']
        exact congrArg Except.ok he
      all_goals rw [hf]
    · exact .inr ⟨if_neg (by unfold Parts.dspcount; rw [hds]; simp), rfl⟩

/-! ## Storing frames -/

theorem store_safe {h : Dshandle} {n : Nat} (hskip : 0 < h.skip) (hn : h.frameno = n)
    (hfits : n < (h.seek_count - 1) * h.skip) (hdense : n ≤ h.seekbuf.length * h.skip)
    (hroom : h.seekbuf.length < h.seek_count) :
    dshandle_store_trackframe h = .error .EINVAL ∨
    ∃ buf, dshandle_store_trackframe h = .ok { h with seekbuf := buf } ∧ buf.length < h.seek_count ∧
      n + 1 ≤ buf.length * h.skip := by
  have hnat : h.frameno.toNat = n := by omega
  have hdm := Nat.div_add_mod n h.skip
  have hlt := Nat.mod_lt n hskip
  unfold dshandle_store_trackframe
  rw [if_neg (Nat.ne_of_gt hskip), hnat]
  by_cases hz : n % h.skip = 0
  · rw [if_neg (not_not.mpr hz), if_neg (Nat.not_le.mpr hroom)]
    have hle : n / h.skip ≤ h.seekbuf.length := by
      rw [Nat.div_le_iff_le_mul_add_pred hskip]
      rw [Nat.mul_comm] at hdense
      omega
    dsimp only
    rw [if_neg (Nat.not_lt.mpr hle)]
    cases hb : h.seekbuf[n / h.skip]? with
    | some visited =>
      have hin := (List.getElem?_eq_some_iff.mp hb).1
      dsimp only
      split
      · exact .inl rfl
      · refine .inr ⟨h.seekbuf, rfl, hroom, ?_⟩
        have := Nat.mul_le_mul_right h.skip (Nat.succ_le_of_lt hin)
        rw [Nat.succ_mul, Nat.mul_comm] at this
        omega
    | none =>
      have hout := List.getElem?_eq_none_iff.mp hb
      have heq : h.seekbuf.length = n / h.skip := Nat.le_antisymm hout hle
      refine .inr ⟨_, rfl, ?_, ?_⟩
      · rw [List.length_append, List.length_singleton, heq]
        have := (Nat.div_lt_iff_lt_mul hskip).mpr hfits
        omega
      · rw [List.length_append, List.length_singleton, heq, Nat.succ_mul, Nat.mul_comm]
        omega
  · rw [if_pos hz]
    refine .inr ⟨h.seekbuf, rfl, hroom, ?_⟩
    rcases Nat.lt_or_eq_of_le hdense with hl | he
    · exact hl
    · exact absurd (by rw [he, Nat.mul_mod_left]) hz

theorem store_next {h : Dshandle} {n : Nat} (hskip : 0 < h.skip) (hn : h.frameno = n)
    (hfits : n ≤ (h.seek_count - 1) * h.skip) (hcount : 0 < h.seek_count)
    (hdense : n ≤ h.seekbuf.length * h.skip) (htight : h.seekbuf.length * h.skip < n + h.skip) :
    ∃ buf, dshandle_store_trackframe h = .ok { h with seekbuf := buf } ∧ n + 1 ≤ buf.length * h.skip ∧
      buf.length * h.skip < n + 1 + h.skip := by
  have hnat : h.frameno.toNat = n := by omega
  unfold dshandle_store_trackframe
  rw [if_neg (Nat.ne_of_gt hskip), hnat]
  by_cases hz : n % h.skip = 0
  · have hd : n / h.skip * h.skip = n := Nat.div_mul_cancel (Nat.dvd_of_mod_eq_zero hz)
    have heq : h.seekbuf.length = n / h.skip := by
      rw [← hd, ← Nat.succ_mul] at htight
      rw [← hd] at hdense
      have := Nat.lt_of_mul_lt_mul_right htight
      have := Nat.le_of_mul_le_mul_right hdense hskip
      omega
    have hroom : h.seekbuf.length < h.seek_count := by
      rw [heq]
      have := (Nat.div_le_div_right hfits).trans_eq (Nat.mul_div_cancel _ hskip)
      omega
    rw [if_neg (not_not.mpr hz), if_neg (Nat.not_le.mpr hroom)]
    dsimp only
    rw [if_neg (by rw [heq]; exact Nat.lt_irrefl _), List.getElem?_eq_none_iff.mpr (Nat.le_of_eq heq)]
    refine ⟨_, rfl, ?_, ?_⟩
    · rw [List.length_append, List.length_singleton, heq, Nat.succ_mul, hd]
      omega
    · rw [List.length_append, List.length_singleton, heq, Nat.succ_mul, hd]
      omega
  · rw [if_pos hz]
    refine ⟨h.seekbuf, rfl, ?_, by omega⟩
    rcases Nat.lt_or_eq_of_le hdense with hl | he
    · exact hl
    · exact absurd (by rw [he, Nat.mul_mod_left]) hz

structure Advanced (ds : Parts) (h h' : Dshandle) : Prop where
  frameno : h'.frameno = h.frameno + 1
  tracks_per_frame : h'.tracks_per_frame = h.tracks_per_frame
  seekbuf : h'.seekbuf = h.seekbuf
  seek_count : h'.seek_count = h.seek_count
  skip : h'.skip = h.skip
  eof_reached : h'.eof_reached = h.eof_reached
  placed : h'.Placed ds

theorem prepare_cases {h : Dshandle} (hp : h.Placed ds) :
    (h.todo ds = [] ∧ dshandle_prepare_for_next_read_tracks ds h = none) ∨
    ∃ f t h', h.todo ds = f :: t ∧ dshandle_prepare_for_next_read_tracks ds h = some h' ∧ Advanced ds h h' ∧
      (Readable h.frame_size f → h'.todo ds = t ∧ ∀ o, read_frame ds h' o = extract_and_store h' o) ∧
      (¬ Readable h.frame_size f → ∀ o, ∃ e, read_frame ds h' o = (h', some e) ∧ (e = .read ∨ e = .outside)) := by
  rcases prepare_eq hp with ⟨hr, hn⟩ | ⟨p, ps, h', hr, hs, hpr⟩
  · exact .inl ⟨by rw [Dshandle.todo, hr, List.flatMap_nil], hn⟩
  · obtain ⟨t, ht⟩ := frames_head h.frame_size p
    refine .inr ⟨first_frame h.frame_size p, t ++ ps.flatMap (frames h.frame_size), h', ?_, hs,
      ⟨hpr.frameno, hpr.tracks_per_frame, hpr.seekbuf, hpr.seek_count, hpr.skip, hpr.eof_reached,
        hpr.placed⟩, ?_, hpr.unreadable⟩
    · rw [Dshandle.todo, hr, List.flatMap_cons, ht, List.cons_append]
      rfl
    · intro hread
      refine ⟨?_, fun o => (hpr.readable hread o).1⟩
      have he := (hpr.readable hread .io_error).2
      rw [List.flatMap_cons, ht, List.cons_append] at he
      exact (List.cons.inj he).2.symm

/-! ## Runs -/

def Dshandle.readable_left (ds : Parts) (h : Dshandle) : Nat :=
  ((h.todo ds).takeWhile (Readable h.frame_size ·)).length

theorem frame_size_congr {h h' : Dshandle} (he : h'.tracks_per_frame = h.tracks_per_frame) :
    h'.frame_size = h.frame_size := by
  rw [frame_size_eq, frame_size_eq, he]

/-- What a reading does to a handle whose buffer is large enough. -/
structure Harmless (h : Dshandle) (r : Dshandle × Option Failure) : Prop where
  not_ERANGE : r.2 ≠ some (.store .ERANGE)
  not_EPROTO : r.2 ≠ some (.store .EPROTO)
  stored : r.1.seekbuf.length < h.seek_count
  seek_count : r.1.seek_count = h.seek_count
  skip : r.1.skip = h.skip
  tracks_per_frame : r.1.tracks_per_frame = h.tracks_per_frame

/-- The stored elements reach up to the current frame and the frames that are left fit. -/
structure Roomy (ds : Parts) (h : Dshandle) (n : Nat) : Prop where
  placed : h.Placed ds
  skip : 0 < h.skip
  frameno : h.frameno + 1 = n
  dense : n ≤ h.seekbuf.length * h.skip
  room : h.seekbuf.length < h.seek_count
  fits : n + h.readable_left ds ≤ (h.seek_count - 1) * h.skip

theorem Harmless.of_stop {h h' : Dshandle} {e : Option Failure} (hb : h'.seekbuf = h.seekbuf)
    (hroom : h.seekbuf.length < h.seek_count) (hc : h'.seek_count = h.seek_count) (hs : h'.skip = h.skip)
    (ht : h'.tracks_per_frame = h.tracks_per_frame) (he : e ≠ some (.store .ERANGE) ∧ e ≠ some (.store .EPROTO)) :
    Harmless h (h', e) :=
  ⟨he.1, he.2, by rw [hb]; exact hroom, hc, hs, ht⟩

theorem read_frames_safe (ds : Parts) (os : List Outcome) : ∀ {h : Dshandle} {n : Nat}, Roomy ds h n →
    Harmless h (read_frames ds os h) := by
  induction os with
  | nil => exact fun hr => .of_stop rfl hr.room rfl rfl rfl (by decide)
  | cons o os ih =>
    intro h n hr
    rw [read_frames]
    by_cases heof : h.eof_reached = true
    · rw [if_pos heof]
      exact .of_stop rfl hr.room rfl rfl rfl (by decide)
    · rw [if_neg heof]
      rcases prepare_cases hr.placed with ⟨-, hn⟩ | ⟨f, t, h', htodo, hs, ha, hgood, hbad⟩
      · rw [hn]
        exact .of_stop rfl hr.room rfl rfl rfl (by decide)
      · rw [hs]
        by_cases hread : Readable h.frame_size f
        · obtain ⟨ht, hframe⟩ := hgood hread
          have hleft : h.readable_left ds = h'.readable_left ds + 1 := by
            unfold Dshandle.readable_left
            rw [htodo, List.takeWhile_cons_of_pos (by simpa using hread), List.length_cons, ht,
              frame_size_congr ha.tracks_per_frame]
          have hfits := hr.fits
          dsimp only
          rw [hframe]
          cases o with
          | io_error => exact .of_stop ha.seekbuf hr.room ha.seek_count ha.skip ha.tracks_per_frame (by simp)
          | malformed => exact .of_stop ha.seekbuf hr.room ha.seek_count ha.skip ha.tracks_per_frame (by simp)
          | data size eof =>
            have hfr := hr.frameno
            have hfr' := ha.frameno
            have hstore := store_safe (h := { h' with databufsize := size, eof_reached := eof }) (n := n)
              (by dsimp only; rw [ha.skip]; exact hr.skip) (by dsimp only; omega)
              (by dsimp only; rw [ha.skip, ha.seek_count]; omega)
                (by dsimp only; rw [ha.skip, ha.seekbuf]; exact hr.dense)
              (by dsimp only; rw [ha.seekbuf, ha.seek_count]; exact hr.room)
            rcases hstore with herr | ⟨buf, hok, hlen, hnext⟩
            · simp only [extract_and_store, herr]
              exact .of_stop ha.seekbuf hr.room ha.seek_count ha.skip ha.tracks_per_frame (by simp)
            · simp only [extract_and_store, hok]
              dsimp only at hlen hnext
              have hroomy : Roomy ds { h' with
                databufsize := size, eof_reached := eof, seekbuf := buf } (n + 1) := by
                refine ⟨⟨ha.placed.1, ha.placed.2, ha.placed.3, ha.placed.4⟩, ?_, ?_, hnext, hlen, ?_⟩
                · dsimp only
                  rw [ha.skip]
                  exact hr.skip
                · dsimp only
                  omega
                · have : Dshandle.readable_left ds { h' with
                    databufsize := size, eof_reached := eof, seekbuf := buf } =
                      h'.readable_left ds := rfl
                  rw [this]
                  dsimp only
                  rw [ha.skip, ha.seek_count]
                  omega
              have hrec := ih hroomy
              exact ⟨hrec.not_ERANGE, hrec.not_EPROTO, hrec.stored.trans_eq ha.seek_count,
                hrec.seek_count.trans ha.seek_count,
                hrec.skip.trans ha.skip, hrec.tracks_per_frame.trans ha.tracks_per_frame⟩
        · obtain ⟨e, he, hcause⟩ := hbad hread o
          dsimp only
          rw [he]
          refine .of_stop ha.seekbuf hr.room ha.seek_count ha.skip ha.tracks_per_frame ?_
          rcases hcause with rfl | rfl
          · simp
          · simp

/-- A reading without errors stores an element for each multiple of `skip`. -/
theorem read_frames_full (ds : Parts) (k : Nat) : ∀ {h : Dshandle} {n : Nat}, h.Placed ds → 0 < h.skip →
    0 < h.seek_count → h.frameno + 1 = n → h.eof_reached = false → k ≤ h.readable_left ds →
    n + k ≤ (h.seek_count - 1) * h.skip + 1 → n ≤ h.seekbuf.length * h.skip →
      h.seekbuf.length * h.skip < n + h.skip →
    ∃ h', read_frames ds (List.replicate k (.data 0 false)) h = (h', none) ∧ n + k ≤ h'.seekbuf.length * h.skip ∧
      h'.seek_count = h.seek_count ∧ h'.skip = h.skip ∧ h'.tracks_per_frame = h.tracks_per_frame := by
  induction k with
  | zero => exact fun _ _ _ _ _ _ _ hdense _ => ⟨_, rfl, hdense, rfl, rfl, rfl⟩
  | succ k ih =>
    intro h n hp hskip hcount hn heof hleft hfits hdense htight
    rw [List.replicate_succ, read_frames, if_neg (by rw [heof]; decide)]
    rcases prepare_cases hp with ⟨htodo, -⟩ | ⟨f, t, h', htodo, hs, ha, hgood, -⟩
    · rw [Dshandle.readable_left, htodo, List.takeWhile_nil, List.length_nil] at hleft
      omega
    · have hread : Readable h.frame_size f := by
        by_contra hbad
        rw [Dshandle.readable_left, htodo, List.takeWhile_cons_of_neg (by simpa using hbad),
          List.length_nil] at hleft
        omega
      obtain ⟨ht, hframe⟩ := hgood hread
      rw [Dshandle.readable_left, htodo, List.takeWhile_cons_of_pos (by simpa using hread),
        List.length_cons] at hleft
      have hfr := ha.frameno
      obtain ⟨buf, hok, hdense', htight'⟩ :=
        store_next (h := { h' with databufsize := 0, eof_reached := false }) (n := n)
        (by dsimp only; rw [ha.skip]; exact hskip) (by dsimp only; omega)
        (by dsimp only; rw [ha.skip, ha.seek_count]; omega) (by dsimp only; rw [ha.seek_count]; exact hcount)
        (by dsimp only; rw [ha.skip, ha.seekbuf]; exact hdense)
          (by dsimp only; rw [ha.skip, ha.seekbuf]; exact htight)
      rw [hs]
      dsimp only
      rw [hframe]
      simp only [extract_and_store, hok]
      dsimp only at hdense' htight'
      rw [ha.skip] at hdense' htight'
      obtain ⟨h'', hrun, hlen, hc, hsk, htpf⟩ :=
        ih (h := { h' with databufsize := 0, eof_reached := false, seekbuf := buf }) (n := n + 1)
          ⟨ha.placed.1, ha.placed.2, ha.placed.3, ha.placed.4⟩ (by dsimp only; rw [ha.skip]; exact hskip)
          (by dsimp only; rw [ha.seek_count]; exact hcount) (by dsimp only; omega) rfl
          (by
            have he : Dshandle.readable_left ds { h' with databufsize := 0, eof_reached := false, seekbuf := buf } =
                h'.readable_left ds := rfl
            rw [he, Dshandle.readable_left, ht, frame_size_congr ha.tracks_per_frame]
            omega)
          (by dsimp only; rw [ha.skip, ha.seek_count]; omega) (by dsimp only; rw [ha.skip]; exact hdense')
          (by dsimp only; rw [ha.skip]; omega)
      refine ⟨h'', hrun, ?_, hc.trans ha.seek_count, hsk.trans ha.skip, htpf.trans ha.tracks_per_frame⟩
      dsimp only at hlen
      rw [ha.skip] at hlen
      omega

/-! ## The size of the buffer -/

def frame_bound (ds : Parts) (tracks_per_frame : Nat) : Nat :=
  lzds_dataset_get_size_in_tracks ds / tracks_per_frame + 1 + extents ds

def stride (ds : Parts) (tracks_per_frame seek_buffer_size : Nat) : Nat :=
  frame_bound ds tracks_per_frame / (seek_buffer_size / sizeofSeekelement) + 1

/-- There is no division by zero, the buffer has the asked size and no reading finds it inconsistent. -/
def SeekBufferSafe (h : Dshandle) (seek_buffer_size : Nat) : Prop :=
  ∃ h', lzds_dshandle_set_seekbuffer ds h seek_buffer_size = some h' ∧
    h'.seek_count * sizeofSeekelement ≤ max seek_buffer_size sizeofSeekelement ∧
    ∀ rs os, (reading member (readings member h' rs) os).1.seekbuf.length ≤ h'.seek_count ∧
      (reading member (readings member h' rs) os).2 ≠ some (.store .ERANGE) ∧
      (reading member (readings member h' rs) os).2 ≠ some (.store .EPROTO)

/-- One element fits, the distance fits into 32 bits, and a whole reading does not fill the buffer. -/
def SeekBufferFits (tracks_per_frame seek_buffer_size : Nat) : Prop :=
  sizeofSeekelement ≤ seek_buffer_size ∧ stride ds tracks_per_frame seek_buffer_size < 4294967296 ∧
    readable_frames (tracks_per_frame % RAWTRACKSIZE) (tracks_to_read member) ≤
      frame_bound ds tracks_per_frame / stride ds tracks_per_frame seek_buffer_size *
        stride ds tracks_per_frame seek_buffer_size

def Dshandle.sized (ds : Parts) (h : Dshandle) (seek_buffer_size : Nat) : Dshandle :=
  { h with
    seekbuf := []
    seek_count := frame_bound ds h.tracks_per_frame / stride ds h.tracks_per_frame seek_buffer_size + 1
    skip := stride ds h.tracks_per_frame seek_buffer_size }

theorem set_seekbuffer_eq (h : Dshandle) {size : Nat} (hsize : sizeofSeekelement ≤ size)
    (hstride : stride ds h.tracks_per_frame size < 4294967296) :
    lzds_dshandle_set_seekbuffer ds h size = some (h.sized ds size) := by
  have hentries : size / sizeofSeekelement ≠ 0 := Nat.ne_of_gt (Nat.div_pos hsize (by decide))
  have hskip : u32 (frame_bound ds h.tracks_per_frame / (size / sizeofSeekelement) + 1 : Nat) =
      stride ds h.tracks_per_frame size := by
    unfold stride at hstride ⊢
    rw [u32_of_lt (Int.natCast_nonneg _) (by exact_mod_cast hstride), Int.toNat_natCast]
  unfold lzds_dshandle_set_seekbuffer
  unfold frame_bound at hskip
  dsimp only
  rw [if_neg (Nat.ne_of_gt (Nat.lt_of_lt_of_le (by decide) hsize)), if_neg hentries, hskip]
  exact if_neg (Nat.succ_ne_zero _)

theorem seek_count_le (tracks_per_frame : Nat) {size : Nat} (hsize : sizeofSeekelement ≤ size) :
    frame_bound ds tracks_per_frame / stride ds tracks_per_frame size + 1 ≤ size / sizeofSeekelement := by
  have hentries : 0 < size / sizeofSeekelement := Nat.div_pos hsize (by decide)
  refine Nat.succ_le_of_lt ((Nat.div_lt_iff_lt_mul (Nat.succ_pos _)).mpr ?_)
  have := Nat.lt_mul_div_succ (frame_bound ds tracks_per_frame) hentries
  exact this

theorem stride_lt_of_safe {h h' : Dshandle} {size : Nat} (hsize : sizeofSeekelement ≤ size)
    (hset : lzds_dshandle_set_seekbuffer ds h size = some h')
    (hmem : h'.seek_count * sizeofSeekelement ≤ max size sizeofSeekelement) :
    stride ds h.tracks_per_frame size < 4294967296 := by
  by_contra hge
  have hentries : 0 < size / sizeofSeekelement := Nat.div_pos hsize (by decide)
  unfold lzds_dshandle_set_seekbuffer at hset
  dsimp only at hset
  rw [if_neg (Nat.ne_of_gt (Nat.lt_of_lt_of_le (by decide) hsize)), if_neg (Nat.ne_of_gt hentries)] at hset
  split at hset
  · cases hset
  · rename_i hskip
    obtain rfl := Option.some.inj hset
    dsimp only at hmem
    change u32 (stride ds h.tracks_per_frame size : Nat) ≠ 0 at hskip
    change (frame_bound ds h.tracks_per_frame / u32 (stride ds h.tracks_per_frame size : Nat) + 1) *
      sizeofSeekelement ≤ _ at hmem
    have hlt := u32_lt (stride ds h.tracks_per_frame size : Nat)
    have hq : u32 (stride ds h.tracks_per_frame size : Nat) ≤
        frame_bound ds h.tracks_per_frame / (size / sizeofSeekelement) := by
      unfold stride at hge hlt ⊢
      omega
    have hle : size / sizeofSeekelement ≤ frame_bound ds h.tracks_per_frame / u32
      (stride ds h.tracks_per_frame size : Nat) := by
      rw [Nat.le_div_iff_mul_le (Nat.pos_of_ne_zero hskip), Nat.mul_comm]
      exact (Nat.le_div_iff_mul_le hentries).mp hq
    unfold sizeofSeekelement at *
    omega

structure Filled (h : Dshandle) (h' : Dshandle) : Prop where
  stored : h'.seekbuf.length < h.seek_count
  seek_count : h'.seek_count = h.seek_count
  skip : h'.skip = h.skip
  tracks_per_frame : h'.tracks_per_frame = h.tracks_per_frame

theorem Started.readable_left {h h' : Dshandle} (hs : Started member h h') :
    h'.readable_left ds = readable_frames (h.tracks_per_frame % RAWTRACKSIZE) (tracks_to_read member) := by
  unfold Dshandle.readable_left Dshandle.todo readable_frames
  rw [hs.rest, frame_size_eq, hs.tracks_per_frame]

theorem reading_safe {h h' : Dshandle} (hskip : 0 < h.skip)
    (hfits : readable_frames (h.tracks_per_frame % RAWTRACKSIZE)
      (tracks_to_read member) ≤ (h.seek_count - 1) * h.skip)
    (hf : Filled h h') (os : List Outcome) :
    Filled h (reading member h' os).1 ∧ (reading member h' os).2 ≠ some (.store .ERANGE) ∧
      (reading member h' os).2 ≠ some (.store .EPROTO) := by
  unfold reading
  rcases initialize_eq member h' with ⟨h₁, hi, hs⟩ | ⟨-, hi⟩
  · rw [hi]
    dsimp only
    have hroomy : Roomy ds h₁ 0 := by
      refine ⟨hs.placed, ?_, ?_, Nat.zero_le _, ?_, ?_⟩
      · rw [hs.skip, hf.skip]
        exact hskip
      · rw [hs.frameno]
        rfl
      · rw [hs.seekbuf, hs.seek_count, hf.seek_count]
        exact hf.stored
      · rw [Nat.zero_add, hs.readable_left, hs.seek_count, hs.skip, hf.seek_count, hf.skip, hf.tracks_per_frame]
        exact hfits
    have hr := read_frames_safe ds os hroomy
    exact ⟨⟨hr.stored.trans_eq (hs.seek_count.trans hf.seek_count),
      hr.seek_count.trans (hs.seek_count.trans hf.seek_count),
      hr.skip.trans (hs.skip.trans hf.skip),
        hr.tracks_per_frame.trans (hs.tracks_per_frame.trans hf.tracks_per_frame)⟩,
      hr.not_ERANGE, hr.not_EPROTO⟩
  · rw [hi]
    exact ⟨hf, by simp, by simp⟩

theorem readings_filled {h : Dshandle} (hskip : 0 < h.skip)
    (hfits : readable_frames (h.tracks_per_frame % RAWTRACKSIZE)
      (tracks_to_read member) ≤ (h.seek_count - 1) * h.skip)
    (rs : List (List Outcome)) : ∀ {h' : Dshandle}, Filled h h' → Filled h (readings member h' rs) := by
  induction rs with
  | nil => exact fun hf => hf
  | cons os rs ih => exact fun hf => ih (reading_safe member hskip hfits hf os).1

theorem second_reading_fails {h : Dshandle} (hskip : 0 < h.skip) (hcount : 0 < h.seek_count)
    (hempty : h.seekbuf = [])
    (hmore : (h.seek_count - 1) * h.skip < readable_frames (h.tracks_per_frame % RAWTRACKSIZE)
      (tracks_to_read member)) :
    ∃ os, (reading member (reading member h os).1 [.data 0 false]).2 = some (.store .ERANGE) := by
  have hsome : ∀ h₀ : Dshandle, h₀.tracks_per_frame = h.tracks_per_frame →
      ∃ h₁, initialize_buffer_positions_for_first_read ds member h₀ = .ok h₁ ∧ Started member h₀ h₁ ∧
        (h.seek_count - 1) * h.skip < h₁.readable_left ds := by
    intro h₀ ht
    rcases initialize_eq member h₀ with ⟨h₁, hi, hs⟩ | ⟨hnil, -⟩
    · exact ⟨h₁, hi, hs, by rw [hs.readable_left, ht]; exact hmore⟩
    · rw [hnil] at hmore
      exact absurd hmore (Nat.not_lt_zero _)
  obtain ⟨h₁, hi, hs, hleft⟩ := hsome h rfl
  obtain ⟨h₂, hrun, hlen, hc, hsk, htpf⟩ := read_frames_full ds ((h.seek_count - 1) * h.skip + 1) (h := h₁) (n := 0)
    hs.placed (by rw [hs.skip]; exact hskip) (by rw [hs.seek_count]; exact hcount)
      (by rw [hs.frameno]; rfl) hs.eof_reached
    hleft (by rw [hs.skip, hs.seek_count, Nat.zero_add]) (Nat.zero_le _)
    (by rw [hs.seekbuf, hempty, hs.skip, List.length_nil]; omega)
  obtain ⟨h₃, hi₃, hs₃, hleft₃⟩ := hsome h₂ (htpf.trans hs.tracks_per_frame)
  have hfull : h.seek_count ≤ h₂.seekbuf.length := by
    rw [hs.skip, Nat.zero_add] at hlen
    have := Nat.lt_of_mul_lt_mul_right (Nat.lt_of_succ_le hlen)
    omega
  refine ⟨List.replicate ((h.seek_count - 1) * h.skip + 1) (.data 0 false), ?_⟩
  unfold reading
  rw [hi]
  dsimp only
  rw [hrun]
  dsimp only
  rw [hi₃]
  dsimp only
  rw [read_frames, if_neg (by rw [hs₃.eof_reached]; decide)]
  rcases prepare_cases hs₃.placed with ⟨htodo, -⟩ | ⟨f, t, h₄, htodo, hp, ha, hgood, -⟩
  · rw [Dshandle.readable_left, htodo, List.takeWhile_nil, List.length_nil] at hleft₃
    omega
  · have hread : Readable h₃.frame_size f := by
      by_contra hbad
      rw [Dshandle.readable_left, htodo, List.takeWhile_cons_of_neg (by simpa using hbad),
        List.length_nil] at hleft₃
      omega
    rw [hp]
    dsimp only
    rw [(hgood hread).2]
    have hstore : dshandle_store_trackframe { h₄ with databufsize := 0, eof_reached := false } =
      .error .ERANGE := by
      have hskip₄ : h₄.skip ≠ 0 := by
        rw [ha.skip, hs₃.skip, hsk, hs.skip]
        exact Nat.ne_of_gt hskip
      have hzero : h₄.frameno.toNat = 0 := by
        rw [ha.frameno, hs₃.frameno]
        rfl
      unfold dshandle_store_trackframe
      dsimp only
      rw [if_neg hskip₄, hzero, Nat.zero_mod, if_neg (not_not.mpr rfl), if_pos]
      rw [ha.seekbuf, ha.seek_count, hs₃.seekbuf, hs₃.seek_count, hc, hs.seek_count]
      exact hfull
    simp only [extract_and_store, hstore]

/-- The seek buffer is safe exactly when one element fits, the distance of the stored frames fits into 32 bits and
a whole reading leaves an element of the buffer free. -/
theorem seek_buffer_safe_iff (h : Dshandle) (seek_buffer_size : Nat) (hsize : seek_buffer_size ≠ 0) :
    SeekBufferSafe member h seek_buffer_size ↔ SeekBufferFits member h.tracks_per_frame seek_buffer_size := by
  constructor
  · rintro ⟨h', hset, hmem, hreads⟩
    have hone : sizeofSeekelement ≤ seek_buffer_size := by
      by_contra hlt
      have hz : seek_buffer_size / sizeofSeekelement = 0 := Nat.div_eq_of_lt (Nat.not_le.mp hlt)
      simp only [lzds_dshandle_set_seekbuffer, if_neg hsize, hz, if_true] at hset
      cases hset
    have hstride := stride_lt_of_safe hone hset hmem
    refine ⟨hone, hstride, Nat.not_lt.mp fun hmore => ?_⟩
    rw [set_seekbuffer_eq h hone hstride] at hset
    obtain rfl := Option.some.inj hset
    obtain ⟨os, hos⟩ := second_reading_fails member (h := h.sized ds seek_buffer_size)
      (Nat.succ_pos _) (Nat.succ_pos _) rfl
      hmore
    exact (hreads [os] [.data 0 false]).2.1 hos
  · rintro ⟨hone, hstride, hfits⟩
    refine ⟨_, set_seekbuffer_eq h hone hstride, ?_, fun rs os => ?_⟩
    · refine (Nat.mul_le_mul_right _ (seek_count_le h.tracks_per_frame hone)).trans ?_
      exact (Nat.div_mul_le_self _ _).trans (Nat.le_max_left _ _)
    · have hstart : Filled (h.sized ds seek_buffer_size) (h.sized ds seek_buffer_size) :=
        ⟨Nat.succ_pos _, rfl, rfl, rfl⟩
      have hfilled := readings_filled member (Nat.succ_pos _) hfits rs hstart
      have hr := reading_safe member (Nat.succ_pos _) hfits hfilled os
      exact ⟨Nat.le_of_lt hr.1.stored, hr.2⟩

/-! ## A small seek buffer -/

def sampleParts : Parts where
  dsp := [⟨⟨1, 15, fun _ => 0, none⟩, fun j => if j = 0 then ⟨0x01, 0, (0, 1), (0, 4)⟩ else ⟨0, 0, (0, 0), (0, 0)⟩⟩]
  dspcount_le := by decide

def sampleDshandle : Dshandle where
  tracks_per_frame := 2
  dsp_no := 0
  ext_seq_no := 0
  extstarttrk := 0
  extendtrk := 0
  bufstarttrk := 0
  bufendtrk := 0
  frameno := 0
  databufoffset := 0
  databufsize := 0
  eof_reached := false
  seekbuf := []
  seek_count := 0
  skip := 0

def sampleMember : Option (Member sampleParts) := none

/-- Of the four frames of the data set the two elements of the buffer hold the first one. -/
theorem seek_buffer_safe_sample : SeekBufferFits sampleMember 1 32 ∧
    SeekBufferSafe sampleMember { sampleDshandle with tracks_per_frame := 1 } 32 :=
  have h : SeekBufferFits sampleMember 1 32 := ⟨by decide, by decide +kernel, by decide +kernel⟩
  ⟨h, (seek_buffer_safe_iff sampleMember { sampleDshandle with tracks_per_frame := 1 } 32 (by decide)).mpr h⟩

/-- With a seek buffer of one element the second reading of the data set fails. -/
theorem second_reading_inconsistent :
    ∃ (ds : Parts) (member : Option (Member ds)) (h h' : Dshandle), 1 ≤ h.tracks_per_frame ∧
      lzds_dshandle_set_seekbuffer ds h 16 = some h' ∧
      (reading member (reading member h' [.data 0 false]).1 [.data 0 false]).2 = some (.store .ERANGE) ∧
      ¬ SeekBufferSafe member h 16 := by
  have hset : lzds_dshandle_set_seekbuffer sampleParts sampleDshandle 16 =
    some (sampleDshandle.sized sampleParts 16) := by
    decide +kernel
  have hread : (reading sampleMember (reading sampleMember (sampleDshandle.sized sampleParts 16) [.data 0 false]).1
      [.data 0 false]).2 = some (.store .ERANGE) := by
    decide +kernel
  refine ⟨sampleParts, sampleMember, sampleDshandle, _, by decide, hset, hread, ?_⟩
  rintro ⟨h', hset', -, hreads⟩
  obtain rfl := Option.some.inj (hset.symm.trans hset')
  exact (hreads [[.data 0 false]] [.data 0 false]).2.1 hread

end

end Libzds
