import S390Tools.Libzds.Vtoc
import S390Tools.Lib.Run

/-!
# Reading the VTOC (libzds/libzds.c)

The scan of the raw VTOC tracks puts all records, with the record zero of each
track, into the index one behind the other. When each track holds the same number
of records, the position that is computed from an address is the one the scan has
given to the record.
-/

namespace Libzds

open Stdio Word

structure VolumeLabel where
  volkey : Bytes
  vollbl : Bytes
  vtoc : Cchhb

/-- The DASD: its geometry, its raw data and the label that was read before. -/
structure Dasd where
  cylinders : Nat
  heads : Nat
  disk : Nat → UInt8
  vlabel : Option VolumeLabel

def vtoc_get_cyl_from_cchh (p : Nat × Nat) : Nat := p.2 / 16 * 65536 + p.1
def vtoc_get_head_from_cchh (p : Nat × Nat) : Nat := p.2 % 16

section
variable (dasd : Dasd)

def lzds_dasd_cchh2trk (p : Nat × Nat) : Nat :=
  u32 (vtoc_get_cyl_from_cchh p * dasd.heads + vtoc_get_head_from_cchh p : Nat)

def dasd_read_tracks (starttrck endtrck : Nat) : Except Stop Mem :=
  if starttrck > endtrck ∨ endtrck ≥ u32 (dasd.cylinders * dasd.heads) then .error (.error .EINVAL)
  else .ok fun i => dasd.disk (starttrck * RAWTRACKSIZE + i)

def vol1 : Bytes := [0xe5, 0xd6, 0xd3, 0xf1]

def find_record (m : Mem) (size vtocrecno : Nat) : Nat → Nat → Option Nat → Except Stop (Option Nat)
  | 0, _, _ => .error .endless
  | steps + 1, i, record =>
    match buffer_get_next_record m size record with
    | .error e => .error e
    | .ok none => .ok none
    | .ok (some record) =>
      if i = vtocrecno then .ok (some record) else find_record m size vtocrecno steps (i + 1) (some record)

def index_records (m : Mem) (size vtocindexsize : Nat) : Nat → List Nat → Option Nat → Except Stop (List Nat)
  | 0, _, _ => .error .endless
  | steps + 1, index, record =>
    match buffer_get_next_record m size record with
    | .error e => .error e
    | .ok none => .ok index
    | .ok (some record) =>
      if index.length ≥ vtocindexsize then .error (.error .EPROTO)
      else index_records m size vtocindexsize steps (index ++ [record]) (some record)

def DS4DEVDT (m : Mem) (f4 : Nat) : Nat := word m (f4 + 74) 1
def DS4VTOCE (m : Mem) (f4 : Nat) : Extent := extent m (f4 + 105)

def is_format4 (m : Mem) (record : Nat) : Bool :=
  kl m record = 44 && dl m record = 96 && word m (record + 8) 1 = 0x04 && word m (record + 8 + 43) 1 = 0x04 &&
    fmtid m (record + 8) = 0xf4

def find_format4 (vtoc : Cchhb) : Except Stop (Mem × Nat) := do
  let vtoctrckno := u32 (vtoc_get_cyl_from_cchhb vtoc * dasd.heads + vtoc_get_head_from_cchhb vtoc : Nat)
  let trackdata ← dasd_read_tracks dasd vtoctrckno vtoctrckno
  match ← find_record trackdata RAWTRACKSIZE vtoc.b (RAWTRACKSIZE + 1) 0 none with
  | none => .error (.error .EPROTO)
  | some record =>
    access RAWTRACKSIZE (record + 8) 140
    if is_format4 trackdata record then .ok (trackdata, record + 8) else .error (.error .EPROTO)

def lzds_dasd_read_rawvtoc : Except Stop RawVtoc :=
  match dasd.vlabel with
  | none => .error (.error .EINVAL)
  | some vlabel =>
    if vlabel.volkey.take 4 ≠ vol1 ∨ vlabel.vollbl.take 4 ≠ vol1 then .error (.error .EINVAL)
    else do
      let (m, f4) ← find_format4 dasd vlabel.vtoc
      let vtoctrack_start := lzds_dasd_cchh2trk dasd (DS4VTOCE m f4).llimit
      let vtoctrack_end := lzds_dasd_cchh2trk dasd (DS4VTOCE m f4).ulimit
      let vtoc_rec_per_track := DS4DEVDT m f4 + 1
      let vtocindexsize := u32 (((vtoctrack_end : Int) - vtoctrack_start + 1) * vtoc_rec_per_track)
      let rawvtocsize := u64 (((vtoctrack_end : Int) - vtoctrack_start + 1) * RAWTRACKSIZE)
      let trackdata ← dasd_read_tracks dasd vtoctrack_start vtoctrack_end
      let index ← index_records trackdata rawvtocsize vtocindexsize (rawvtocsize + 1) [] none
      .ok
        { rawdata := trackdata
          rawdatasize := rawvtocsize
          vtocindex := index.map some ++ List.replicate (vtocindexsize - index.length) none
          vtoc_rec_per_track := vtoc_rec_per_track
          vtoctrackoffset := vtoctrack_start
          vtocrecno := vlabel.vtoc.b
          heads := dasd.heads }

end

/-! ## Tracks -/

/-- From `o` on stand the records `rs`, up to the pseudo record or the end of the track at `stop`. -/
def Records (m : Mem) (stop : Nat) : Nat → List Nat → Prop
  | o, [] => o = stop ∨ o + 8 ≤ stop ∧ word m o 8 = ENDTOKEN
  | o, r :: rs => r = o ∧ o + 8 ≤ stop ∧ word m o 8 ≠ ENDTOKEN ∧ Records m stop (record_end m o) rs

instance decidableRecords (m : Mem) (stop : Nat) : ∀ (o : Nat) (rs : List Nat), Decidable (Records m stop o rs)
  | _, [] => inferInstanceAs (Decidable (_ ∨ _))
  | o, _ :: rs =>
    have := decidableRecords m stop (record_end m o) rs
    inferInstanceAs (Decidable (_ ∧ _))

/-- The records of the track `t` of the buffer. -/
def TrackRecords (m : Mem) (t : Nat) (rs : List Nat) : Prop := Records m ((t + 1) * RAWTRACKSIZE)
    (t * RAWTRACKSIZE) rs

/-- The scan finds the records `rs` behind `record`. -/
def Follows (m : Mem) (size : Nat) : Option Nat → List Nat → Prop
  | record, [] => buffer_get_next_record m size record = .ok none
  | record, r :: rs => buffer_get_next_record m size record = .ok (some r) ∧ Follows m size (some r) rs

section
variable {m : Mem} {size : Nat}

theorem Records.le_stop {stop : Nat} : ∀ {rs : List Nat} {o : Nat}, Records m stop o rs → o ≤ stop
  | [], _, h => by
    rcases h with rfl | ⟨h, -⟩
    · exact Nat.le_refl _
    · omega
  | r :: rs, o, ⟨_, h, _⟩ => by omega

theorem next_record_here {steps data : Nat} (hin : data + 8 ≤ size) (h : word m data 8 ≠ ENDTOKEN) :
    next_record m size (steps + 1) data = .ok (some data) := by
  rw [next_record, if_neg (by omega), access_ok hin]
  exact if_neg h

theorem next_record_stop {t steps o : Nat} (hsize : (t + 1) * RAWTRACKSIZE ≤ size) (ho : t * RAWTRACKSIZE ≤ o)
    (h : Records m ((t + 1) * RAWTRACKSIZE) o []) :
    ∃ k, next_record m size (steps + 2) o = next_record m size (steps + 1 + k) ((t + 1) * RAWTRACKSIZE) := by
  rcases h with rfl | ⟨hin, htoken⟩
  · exact ⟨1, rfl⟩
  · have hstart : o / RAWTRACKSIZE * RAWTRACKSIZE + RAWTRACKSIZE = (t + 1) * RAWTRACKSIZE := by
      have hdiv : o / RAWTRACKSIZE = t := by
        rw [Nat.succ_mul] at hin
        refine Nat.div_eq_of_lt_le ho ?_
        rw [Nat.succ_mul]
        omega
      rw [hdiv, Nat.succ_mul]
    refine ⟨0, ?_⟩
    rw [next_record, if_neg (by omega), access_ok (by omega)]
    show (if _ then _ else _) = _
    rw [if_pos htoken, hstart]

theorem next_record_end {steps : Nat} : next_record m size (steps + 1) size = .ok none := by
  rw [next_record, if_pos (Nat.le_refl _)]

/-! ## The scan -/

variable {n : Nat} {tracks : Nat → List Nat}

theorem follows_in_track {t : Nat} {rest : List Nat} (htop : (t + 1) * RAWTRACKSIZE ≤ size)
    (hlast : ∀ r, t * RAWTRACKSIZE ≤ r → r + 8 ≤ (t + 1) * RAWTRACKSIZE →
      Records m ((t + 1) * RAWTRACKSIZE) (record_end m r) [] → Follows m size (some r) rest) (rs : List Nat) :
    ∀ r, t * RAWTRACKSIZE ≤ r → r + 8 ≤ (t + 1) * RAWTRACKSIZE → Records m ((t + 1) * RAWTRACKSIZE)
      (record_end m r) rs →
      Follows m size (some r) (rs ++ rest) := by
  induction rs with
  | nil => exact hlast
  | cons r' rs ih =>
    rintro r hlow hr ⟨heq, hle, htoken, hrs⟩
    have hstep : buffer_get_next_record m size (some r) = .ok (some r') := by
      rw [buffer_get_next_record, access_ok (by omega), heq]
      exact next_record_here (by omega) htoken
    have hend : r ≤ record_end m r := Nat.le_add_right _ _
    refine ⟨hstep, ih r' (by omega) (by omega) ?_⟩
    rw [heq]
    exact hrs

theorem follows_records (hsize : size = n * RAWTRACKSIZE)
    (htracks : ∀ t < n, TrackRecords m t (tracks t) ∧ tracks t ≠ [])
    (k : Nat) : ∀ (t : Nat), t + 1 + k = n → ∀ (rs : List Nat) (r : Nat), t * RAWTRACKSIZE ≤ r →
      r + 8 ≤ (t + 1) * RAWTRACKSIZE → Records m ((t + 1) * RAWTRACKSIZE) (record_end m r) rs →
      Follows m size (some r) (rs ++ (List.range' (t + 1) k).flatMap tracks) := by
  induction k with
  | zero =>
    intro t hk rs
    have htop : (t + 1) * RAWTRACKSIZE = size := by rw [hsize, ← hk, Nat.add_zero]
    refine follows_in_track (Nat.le_of_eq htop) (fun r hlow hr hlast => ?_) rs
    have hend : r ≤ record_end m r := Nat.le_add_right _ _
    obtain ⟨j, hj⟩ := @next_record_stop _ _ _ (size - 1) _ (Nat.le_of_eq htop) (Nat.le_trans hlow hend) hlast
    have hsteps : size + 1 = size - 1 + 2 := by omega
    show buffer_get_next_record m size (some r) = .ok none
    rw [buffer_get_next_record, access_ok (by omega)]
    show next_record m size (size + 1) _ = _
    rw [hsteps, hj, htop, Nat.add_right_comm]
    exact next_record_end
  | succ k ih =>
    intro t hk rs
    have htop : (t + 1 + 1) * RAWTRACKSIZE ≤ size := by
      rw [hsize]
      exact Nat.mul_le_mul_right _ (by omega)
    have htop' : (t + 1) * RAWTRACKSIZE ≤ size := by
      rw [Nat.succ_mul] at htop
      omega
    refine follows_in_track htop' (fun r hlow hr hlast => ?_) rs
    have hend : r ≤ record_end m r := Nat.le_add_right _ _
    obtain ⟨j, hj⟩ := @next_record_stop _ _ _ (size - 1) _ htop' (Nat.le_trans hlow hend) hlast
    have hsteps : size + 1 = size - 1 + 2 := by omega
    obtain ⟨hfirst, hne⟩ := htracks (t + 1) (by omega)
    obtain ⟨r', rs', hrs⟩ := List.exists_cons_of_ne_nil hne
    rw [hrs] at hfirst
    obtain ⟨heq, hle, htoken, hrest⟩ := hfirst
    have hstep : buffer_get_next_record m size (some r) = .ok (some r') := by
      rw [buffer_get_next_record, access_ok (by omega)]
      show next_record m size (size + 1) _ = _
      rw [hsteps, hj, heq, Nat.add_right_comm]
      exact next_record_here (by omega) htoken
    rw [List.range'_succ, List.flatMap_cons, hrs, List.cons_append]
    refine ⟨hstep, ih (t + 1) (by omega) rs' r' (Nat.le_of_eq heq.symm) (by omega) ?_⟩
    rw [heq]
    exact hrest

theorem follows_tracks (hsize : size = n * RAWTRACKSIZE) (hn : 0 < n)
    (htracks : ∀ t < n, TrackRecords m t (tracks t) ∧ tracks t ≠ []) :
    Follows m size none ((List.range n).flatMap tracks) := by
  obtain ⟨hfirst, hne⟩ := htracks 0 hn
  obtain ⟨r, rs, hrs⟩ := List.exists_cons_of_ne_nil hne
  rw [hrs] at hfirst
  obtain ⟨heq, hle, -, hrest⟩ := hfirst
  obtain ⟨k, rfl⟩ := Nat.exists_eq_add_of_lt hn
  rw [List.range_eq_range', Nat.zero_add, List.range'_succ, List.flatMap_cons, hrs, List.cons_append]
  rw [Nat.zero_mul] at heq
  subst heq
  refine ⟨rfl, follows_records hsize htracks k 0 (by omega) rs 0 (by omega) (by omega) ?_⟩
  rw [Nat.zero_mul] at hrest
  exact hrest

theorem index_records_eq {vtocindexsize : Nat} : ∀ {rs : List Nat} {steps : Nat} {index : List Nat}
    {record : Option Nat},
    Follows m size record rs → rs.length < steps →
    index_records m size vtocindexsize steps index record =
      if index.length + rs.length ≤ vtocindexsize ∨ rs = [] then .ok (index ++ rs) else .error (.error .EPROTO)
  | _, 0, _, _, _, h => absurd h (Nat.not_lt_zero _)
  | [], steps + 1, index, record, hf, _ => by
    rw [index_records, show buffer_get_next_record m size record = .ok none from hf,
      if_pos (.inr rfl), List.append_nil]
  | r :: rs, steps + 1, index, record, ⟨hr, hrs⟩, hsteps => by
    rw [index_records, hr]
    dsimp only
    by_cases hfull : index.length ≥ vtocindexsize
    · rw [if_pos hfull, if_neg]
      rintro (hle | hnil)
      · rw [List.length_cons] at hle
        omega
      · cases hnil
    · rw [if_neg hfull, index_records_eq hrs (Nat.lt_of_succ_lt_succ hsteps), List.length_append,
        List.length_singleton,
        List.append_assoc, List.singleton_append, List.length_cons]
      refine if_congr ?_ rfl rfl
      constructor
      · rintro (hle | rfl)
        · exact .inl (by omega)
        · exact .inl (by rw [List.length_nil]; omega)
      · rintro (hle | hnil)
        · exact .inl (by omega)
        · cases hnil

theorem Records.length_le {stop : Nat} : ∀ {rs : List Nat} {o : Nat}, Records m stop o rs → o + rs.length ≤ stop
  | [], _, h => h.le_stop
  | r :: rs, o, ⟨_, _, _, hrs⟩ => by
    have ih := hrs.length_le
    rw [record_end, sizeofCount] at ih
    rw [List.length_cons]
    omega

/-! ## Records of all tracks -/

section
variable {c : Nat}

theorem length_tracks (hlen : ∀ t < n, (tracks t).length = c) : ((List.range n).flatMap tracks).length = n * c := by
  induction n with
  | zero => rw [Nat.zero_mul, List.range_zero, List.flatMap_nil, List.length_nil]
  | succ n ih =>
    rw [List.range_succ, List.flatMap_append, List.length_append, ih fun t ht => hlen t (Nat.lt_succ_of_lt ht),
      List.flatMap_singleton, hlen n (Nat.lt_succ_self n), Nat.succ_mul]

theorem getElem?_tracks {t b : Nat} (hlen : ∀ t < n, (tracks t).length = c) (ht : t < n) (hb : b < c) :
    ((List.range n).flatMap tracks)[t * c + b]? = (tracks t)[b]? := by
  induction n with
  | zero => exact absurd ht (Nat.not_lt_zero t)
  | succ n ih =>
    have hlen' := fun t ht => hlen t (Nat.lt_succ_of_lt ht)
    rw [List.range_succ, List.flatMap_append, List.flatMap_singleton]
    rcases Nat.lt_or_eq_of_le (Nat.le_of_lt_succ ht) with hlt | rfl
    · have hbelow : t * c + b < n * c := by
        have hle := Nat.mul_le_mul_right c (Nat.succ_le_of_lt hlt)
        rw [Nat.succ_mul] at hle
        omega
      rw [List.getElem?_append_left (by rw [length_tracks hlen']; exact hbelow), ih hlen' hlt]
    · rw [List.getElem?_append_right (by rw [length_tracks hlen']; exact Nat.le_add_right _ _), length_tracks hlen',
        Nat.add_sub_cancel_left]

end

end

/-! ## Addresses -/

def RawVtoc.vtoctracks (rv : RawVtoc) : Nat := rv.rawdatasize / RAWTRACKSIZE

/-- Each track of the VTOC holds as many records as the format 4 DSCB says, and record zero. -/
def RawVtoc.Formatted (rv : RawVtoc) (tracks : Nat → List Nat) : Prop :=
  ∀ t < rv.vtoctracks, TrackRecords rv.rawdata t (tracks t) ∧ (tracks t).length = rv.vtoc_rec_per_track

def RawVtoc.track (rv : RawVtoc) (p : Cchhb) : Nat :=
    vtoc_get_cyl_from_cchhb p * rv.heads + vtoc_get_head_from_cchhb p

structure RawVtoc.Indexed (rv : RawVtoc) : Prop where
  tracks_pos : 0 < rv.vtoctracks
  size : rv.rawdatasize = rv.vtoctracks * RAWTRACKSIZE
  rec_pos : 0 < rv.vtoc_rec_per_track
  index : ∃ index, index_records rv.rawdata rv.rawdatasize rv.vtocindexcount (rv.rawdatasize + 1)
    [] none = .ok index ∧
    rv.vtocindex = index.map some ++ List.replicate (rv.vtocindexcount - index.length) none
  count : rv.vtocindexcount ≤ rv.vtoctracks * rv.vtoc_rec_per_track

theorem index_length_le {m : Mem} {size vtocindexsize : Nat} : ∀ {steps : Nat} {index : List Nat}
    {record : Option Nat} {rs : List Nat},
    index_records m size vtocindexsize steps index record = .ok rs → index.length ≤ vtocindexsize →
      rs.length ≤ vtocindexsize
  | 0, _, _, _, h, _ => by cases h
  | steps + 1, index, record, rs, h, hle => by
    rw [index_records] at h
    split at h
    · cases h
    · cases h
      exact hle
    · split at h
      · cases h
      · refine index_length_le h ?_
        rw [List.length_append, List.length_singleton]
        omega

theorem indexed_of_read {dasd : Dasd} {rv : RawVtoc} (h : lzds_dasd_read_rawvtoc dasd = .ok rv) : rv.Indexed := by
  rw [lzds_dasd_read_rawvtoc] at h
  split at h
  · cases h
  · split at h
    · cases h
    · obtain ⟨⟨m, f4⟩, -, h⟩ := Run.bind_eq_ok h
      obtain ⟨trackdata, htracks, h⟩ := Run.bind_eq_ok h
      obtain ⟨index, hindex, h⟩ := Run.bind_eq_ok h
      cases h
      rw [dasd_read_tracks] at htracks
      split at htracks
      · cases htracks
      · rename_i hrange
        have hstart : lzds_dasd_cchh2trk dasd (DS4VTOCE m f4).llimit < 4294967296 := u32_lt _
        have hend : lzds_dasd_cchh2trk dasd (DS4VTOCE m f4).ulimit < 4294967296 := u32_lt _
        generalize lzds_dasd_cchh2trk dasd (DS4VTOCE m f4).llimit = first at *
        generalize lzds_dasd_cchh2trk dasd (DS4VTOCE m f4).ulimit = last at *
        have hle : first ≤ last := Nat.le_of_not_lt fun h => hrange (.inl h)
        have hsize : u64 (((last : Int) - first + 1) * RAWTRACKSIZE) = (last - first + 1) * RAWTRACKSIZE := by
          rw [RAWTRACKSIZE, u64]
          omega
        have hcount : u32 (((last : Int) - first + 1) * (DS4DEVDT m f4 + 1 :
          Nat)) ≤ (last - first + 1) * (DS4DEVDT m f4 + 1) := by
          have hcast : ((last : Int) - first + 1) * (DS4DEVDT m f4 + 1 : Nat) =
            ((last - first + 1) * (DS4DEVDT m f4 + 1) : Nat) := by
            push_cast [hle]
            ring
          rw [hcast, u32]
          omega
        have hlen := index_length_le hindex (Nat.zero_le _)
        have hindexcount : (index.map some ++ List.replicate
            (u32 (((last : Int) - first + 1) * (DS4DEVDT m f4 + 1 : Nat)) - index.length)
              (none : Option Nat)).length =
            u32 (((last : Int) - first + 1) * (DS4DEVDT m f4 + 1 : Nat)) := by
          rw [List.length_append, List.length_map, List.length_replicate]
          omega
        have htracks : (last - first + 1) * RAWTRACKSIZE / RAWTRACKSIZE = last - first + 1 :=
          Nat.mul_div_cancel _ (by decide)
        refine ⟨?_, ?_, Nat.succ_pos _, ⟨index, ?_, ?_⟩, ?_⟩
        · rw [RawVtoc.vtoctracks]
          dsimp only
          rw [hsize, htracks]
          exact Nat.succ_pos _
        · rw [RawVtoc.vtoctracks]
          dsimp only
          rw [hsize, htracks]
        · rw [RawVtoc.vtocindexcount]
          dsimp only
          rw [hindexcount]
          exact hindex
        · rw [RawVtoc.vtocindexcount]
          dsimp only
          rw [hindexcount]
        · rw [RawVtoc.vtoctracks, RawVtoc.vtocindexcount]
          dsimp only
          rw [hindexcount, hsize, htracks]
          exact hcount

theorem RawVtoc.Indexed.formatted {rv : RawVtoc} (hi : rv.Indexed) {tracks : Nat → List Nat}
    (hf : rv.Formatted tracks) :
    rv.vtocindex = ((List.range rv.vtoctracks).flatMap tracks).map some := by
  obtain ⟨index, hindex, heq⟩ := hi.index
  have hne : ∀ t < rv.vtoctracks, TrackRecords rv.rawdata t (tracks t) ∧ tracks t ≠ [] := fun t ht =>
    ⟨(hf t ht).1, List.ne_nil_of_length_pos (by rw [(hf t ht).2]; exact hi.rec_pos)⟩
  have hfollows := follows_tracks hi.size hi.tracks_pos hne
  have hlen : ((List.range rv.vtoctracks).flatMap tracks).length = rv.vtoctracks * rv.vtoc_rec_per_track :=
    length_tracks fun t ht => (hf t ht).2
  have hrec : rv.vtoc_rec_per_track ≤ RAWTRACKSIZE := by
    have hle := (hf 0 hi.tracks_pos).1.length_le
    rw [(hf 0 hi.tracks_pos).2] at hle
    omega
  have hsteps : ((List.range rv.vtoctracks).flatMap tracks).length < rv.rawdatasize + 1 := by
    rw [hlen, hi.size]
    exact Nat.lt_succ_of_le (Nat.mul_le_mul_left _ hrec)
  rw [index_records_eq hfollows hsteps] at hindex
  split at hindex
  · rename_i hfits
    cases hindex
    rw [List.nil_append] at heq
    have hcount : rv.vtocindexcount - ((List.range rv.vtoctracks).flatMap tracks).length = 0 := by
      have hle := hi.count
      omega
    rw [heq, hcount, List.replicate_zero, List.append_nil]
  · cases hindex

theorem dscb_address_lookup {dasd : Dasd} {rv : RawVtoc} {tracks : Nat → List Nat}
    (hread : lzds_dasd_read_rawvtoc dasd = .ok rv)
    (hf : rv.Formatted tracks) (hstart : rv.vtoctrackoffset * rv.vtoc_rec_per_track < 4294967296) {p : Cchhb}
    (hb : p.b < rv.vtoc_rec_per_track) :
    lzds_raw_vtoc_get_dscb_from_cchhb rv p =
      if p = ⟨0, 0, 0⟩ then .ok none
      else if p.b = 0 then .error .EINVAL
      else if rv.vtoctrackoffset ≤ rv.track p ∧ rv.track p < rv.vtoctrackoffset + rv.vtoctracks ∧
          rv.vtocrecno ≤ (rv.track p - rv.vtoctrackoffset) * rv.vtoc_rec_per_track + p.b then
        .ok (some ((tracks (rv.track p - rv.vtoctrackoffset)).getD p.b 0 + sizeofCount))
      else .error .ERANGE := by
  have hi := indexed_of_read hread
  have hindex := hi.formatted hf
  have hlen : ∀ t < rv.vtoctracks, (tracks t).length = rv.vtoc_rec_per_track := fun t ht => (hf t ht).2
  have hcount : rv.vtocindexcount = rv.vtoctracks * rv.vtoc_rec_per_track := by
    rw [RawVtoc.vtocindexcount, hindex, List.length_map, length_tracks hlen]
  have hpos : vtocindex_from_cchhb rv p =
      (rv.track p * rv.vtoc_rec_per_track + p.b : Nat) - (rv.vtoctrackoffset * rv.vtoc_rec_per_track : Nat) := by
    rw [vtocindex_from_cchhb, RawVtoc.track, Nat.add_mul, u32_of_lt (by positivity) (by exact_mod_cast hstart)]
    rfl
  have hzero : (p.cc = 0 ∧ p.hh = 0 ∧ p.b = 0) ↔ p = ⟨0, 0, 0⟩ := by
    cases p
    simp
  rw [lzds_raw_vtoc_get_dscb_from_cchhb, hcount]
  refine if_congr hzero rfl (if_congr Iff.rfl rfl ?_)
  by_cases hlow : rv.vtoctrackoffset ≤ rv.track p
  · obtain ⟨t, ht⟩ := Nat.exists_eq_add_of_le hlow
    have hindexed : vtocindex_from_cchhb rv p = (t * rv.vtoc_rec_per_track + p.b : Nat) := by
      rw [hpos, ht, Nat.add_mul]
      omega
    rw [hindexed, ht, Nat.add_sub_cancel_left, Int.toNat_natCast]
    by_cases hhigh : t < rv.vtoctracks
    · have hbelow : t * rv.vtoc_rec_per_track + p.b < rv.vtoctracks * rv.vtoc_rec_per_track := by
        have hle := Nat.mul_le_mul_right rv.vtoc_rec_per_track (Nat.succ_le_of_lt hhigh)
        rw [Nat.succ_mul] at hle
        omega
      have hget : rv.vtocindex.getD (t * rv.vtoc_rec_per_track + p.b) none = some ((tracks t).getD p.b 0) := by
        have hb' : p.b < (tracks t).length := by rw [hlen t hhigh]; exact hb
        rw [List.getD_eq_getElem?_getD, hindex, List.getElem?_map, getElem?_tracks hlen hhigh hb,
          List.getElem?_eq_getElem hb',
          List.getD_eq_getElem _ _ hb']
        rfl
      by_cases hrec : rv.vtocrecno ≤ t * rv.vtoc_rec_per_track + p.b
      · rw [if_neg (by omega), if_pos ⟨Nat.le_add_right _ _, by omega, hrec⟩, hget]
      · rw [if_pos (.inl (by omega)), if_neg fun h => hrec h.2.2]
    · have habove : rv.vtoctracks * rv.vtoc_rec_per_track ≤ t * rv.vtoc_rec_per_track :=
        Nat.mul_le_mul_right _ (Nat.le_of_not_lt hhigh)
      rw [if_pos (.inr (by push_cast; omega)), if_neg fun h => hhigh (by omega)]
  · have hneg : vtocindex_from_cchhb rv p < 0 := by
      have hle := Nat.mul_le_mul_right rv.vtoc_rec_per_track (Nat.succ_le_of_lt (Nat.lt_of_not_le hlow))
      rw [Nat.succ_mul] at hle
      rw [hpos]
      omega
    rw [if_pos (.inl (by omega)), if_neg fun h => hlow h.1]

/-! ## A VTOC of two tracks -/

/-- Record zero and two DSCBs that begin with `first` and an identifier, on track `t`. -/
def dscbTrack (t : UInt8) (first : Bytes) : Bytes :=
  [0, 0, 0, t, 0, 0, 0, 8] ++ List.replicate 8 0 ++ [0, 0, 0, t, 1, 44, 0, 96] ++ first ++
    [0, 0, 0, t, 2, 44, 0, 96] ++ List.replicate 140 0 ++ List.replicate 8 0xff

def sampleFormat4 : Bytes :=
  List.replicate 44 4 ++ [0xf4] ++ List.replicate 29 0 ++ [2] ++ List.replicate 30 0 ++
    [1, 0, 0, 0, 0, 1, 0, 0, 0, 2] ++ List.replicate 25 0

def sampleDasd : Dasd where
  cylinders := 1
  heads := 15
  disk := fun i =>
    if i < 2 * RAWTRACKSIZE then (dscbTrack 1 sampleFormat4).getD (i - RAWTRACKSIZE) 0
    else (dscbTrack 2 (List.replicate 140 0)).getD (i - 2 * RAWTRACKSIZE) 0
  vlabel := some ⟨vol1, vol1, ⟨0, 1, 1⟩⟩

def sampleRecords (t : Nat) : List Nat := [t * RAWTRACKSIZE, t * RAWTRACKSIZE + 16, t * RAWTRACKSIZE + 164]

def isSampleVtoc (rv : RawVtoc) : Bool :=
  rv.rawdatasize = 2 * RAWTRACKSIZE && rv.vtocindex = (sampleRecords 0 ++ sampleRecords 1).map some &&
    rv.vtoc_rec_per_track = 3 && rv.vtoctrackoffset = 1 && rv.vtocrecno = 1 && rv.heads = 15 &&
    decide (∀ t < 2, Records rv.rawdata ((t + 1) * RAWTRACKSIZE) (t * RAWTRACKSIZE) (sampleRecords t))

theorem read_sampleDasd : (lzds_dasd_read_rawvtoc sampleDasd).toOption.any isSampleVtoc = true := by
  decide +kernel

theorem exists_sampleVtoc : ∃ rv, lzds_dasd_read_rawvtoc sampleDasd = .ok rv ∧ rv.Formatted sampleRecords ∧
    rv.vtocindex = (sampleRecords 0 ++ sampleRecords 1).map some ∧ rv.vtoc_rec_per_track = 3 ∧
      rv.vtoctrackoffset = 1 ∧
    rv.vtocrecno = 1 ∧ rv.heads = 15 ∧ rv.vtoctracks = 2 := by
  have hread := read_sampleDasd
  cases h : lzds_dasd_read_rawvtoc sampleDasd with
  | error e =>
    rw [h] at hread
    cases hread
  | ok rv =>
    rw [h] at hread
    have hfields : isSampleVtoc rv = true := hread
    simp only [isSampleVtoc, Bool.and_eq_true, decide_eq_true_eq] at hfields
    obtain ⟨⟨⟨⟨⟨⟨hsize, hindex⟩, hrec⟩, hoffset⟩, hrecno⟩, hheads⟩, hrecords⟩ := hfields
    have htracks : rv.vtoctracks = 2 := by
      rw [RawVtoc.vtoctracks, hsize]
      exact Nat.mul_div_cancel 2 (by decide)
    refine ⟨rv, rfl, fun t ht => ⟨hrecords t (htracks ▸ ht), hrec.symm⟩, hindex, hrec, hoffset,
      hrecno, hheads, htracks⟩

/-- The last DSCB of the second track, and a track behind the VTOC. -/
theorem dscb_address_lookup_sample : ∃ rv, lzds_dasd_read_rawvtoc sampleDasd = .ok rv ∧
    lzds_raw_vtoc_get_dscb_from_cchhb rv ⟨0, 2, 2⟩ = .ok (some (RAWTRACKSIZE + 172)) ∧
    lzds_raw_vtoc_get_dscb_from_cchhb rv ⟨0, 3, 1⟩ = .error .ERANGE := by
  obtain ⟨rv, hread, hf, -, hrec, hoffset, hrecno, hheads, htracks⟩ := exists_sampleVtoc
  have hstart : rv.vtoctrackoffset * rv.vtoc_rec_per_track < 4294967296 := by rw [hrec, hoffset]; decide
  have hlast := @dscb_address_lookup sampleDasd rv _ hread hf hstart ⟨0, 2, 2⟩ (by rw [hrec]; decide)
  have hbehind := @dscb_address_lookup sampleDasd rv _ hread hf hstart ⟨0, 3, 1⟩ (by rw [hrec]; decide)
  refine ⟨rv, hread, ?_, ?_⟩
  · rw [hlast, RawVtoc.track, hrec, hoffset, hrecno, hheads, htracks]
    rfl
  · rw [hbehind, RawVtoc.track, hrec, hoffset, hrecno, hheads, htracks]
    rfl

/-- Each record of the VTOC is found by its address, and all other addresses are refused. -/
def RawVtoc.AddressesAgree (rv : RawVtoc) (tracks : Nat → List Nat) : Prop :=
  ∀ p : Cchhb,
    (0 < p.b → p.b < rv.vtoc_rec_per_track → rv.vtoctrackoffset ≤ rv.track p →
      rv.track p < rv.vtoctrackoffset + rv.vtoctracks →
      lzds_raw_vtoc_get_dscb_from_cchhb rv p =
        .ok (some ((tracks (rv.track p - rv.vtoctrackoffset)).getD p.b 0 + sizeofCount))) ∧
    (p.b = 0 ∨ rv.vtoc_rec_per_track ≤ p.b ∨ rv.track p < rv.vtoctrackoffset ∨
      rv.vtoctrackoffset + rv.vtoctracks ≤ rv.track p →
      ∃ rc, lzds_raw_vtoc_get_dscb_from_cchhb rv p = .error rc)

/-- The address zero is no error, and a record number that no track has leads into the next track. -/
theorem addresses_disagree : ∃ rv, lzds_dasd_read_rawvtoc sampleDasd = .ok rv ∧ rv.Formatted sampleRecords ∧
    lzds_raw_vtoc_get_dscb_from_cchhb rv ⟨0, 0, 0⟩ = .ok none ∧
    lzds_raw_vtoc_get_dscb_from_cchhb rv ⟨0, 1, 4⟩ = .ok (some (RAWTRACKSIZE + 24)) ∧
      ¬rv.AddressesAgree sampleRecords := by
  obtain ⟨rv, hread, hf, hindex, hrec, hoffset, hrecno, hheads, htracks⟩ := exists_sampleVtoc
  have hzero : lzds_raw_vtoc_get_dscb_from_cchhb rv ⟨0, 0, 0⟩ = .ok none := if_pos ⟨rfl, rfl, rfl⟩
  refine ⟨rv, hread, hf, hzero, ?_, fun hagree => ?_⟩
  · rw [lzds_raw_vtoc_get_dscb_from_cchhb, vtocindex_from_cchhb, RawVtoc.vtocindexcount, hindex,
      hrec, hoffset, hrecno, hheads]
    rfl
  · obtain ⟨rc, hrc⟩ := (hagree ⟨0, 0, 0⟩).2 (.inl rfl)
    rw [hzero] at hrc
    cases hrc

end Libzds
