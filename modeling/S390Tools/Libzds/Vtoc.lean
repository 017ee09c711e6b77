import S390Tools.Libzds.Track
import S390Tools.Lib.Walk

/-!
# The raw VTOC and its DSCB chains (libzds/libzds.c)

The pointers of the DSCBs are addresses of cylinder, head and record. They are
turned into positions of the index that was built when the VTOC was read.
-/

namespace Libzds

open Word

structure Cchhb where
  cc : Nat
  hh : Nat
  b : Nat
  deriving DecidableEq

def vtoc_get_cyl_from_cchhb (p : Cchhb) : Nat := p.hh / 16 * 65536 + p.cc
def vtoc_get_head_from_cchhb (p : Cchhb) : Nat := p.hh % 16

/-- `struct raw_vtoc`: `rawdata` is the memory from the raw tracks on, `vtocindex` holds the
positions of records in it. -/
structure RawVtoc where
  rawdata : Mem
  rawdatasize : Nat
  vtocindex : List (Option Nat)
  vtoc_rec_per_track : Nat
  vtoctrackoffset : Nat
  vtocrecno : Nat
  heads : Nat

section
variable (rv : RawVtoc)

def RawVtoc.vtocindexcount : Nat := rv.vtocindex.length

def vtocindex_from_cchhb (p : Cchhb) : Int :=
  (vtoc_get_cyl_from_cchhb p * rv.heads * rv.vtoc_rec_per_track + vtoc_get_head_from_cchhb
    p * rv.vtoc_rec_per_track + p.b : Nat) -
    u32 (rv.vtoctrackoffset * rv.vtoc_rec_per_track)

/-- The position of the DSCB, `none` for the address zero. -/
def lzds_raw_vtoc_get_dscb_from_cchhb (p : Cchhb) : Except Errno (Option Nat) :=
  if p.cc = 0 ∧ p.hh = 0 ∧ p.b = 0 then .ok none
  else if p.b = 0 then .error .EINVAL
  else if vtocindex_from_cchhb rv p < rv.vtocrecno ∨
    vtocindex_from_cchhb rv p ≥ rv.vtocindexcount then .error .ERANGE
  else
    match rv.vtocindex.getD (vtocindex_from_cchhb rv p).toNat none with
    | none => .error .EINVAL
    | some record => .ok (some (record + sizeofCount))

end

/-! ## DSCBs -/

def cchhb (m : Mem) (o : Nat) : Cchhb := ⟨word m o 2, word m (o + 2) 2, word m (o + 4) 1⟩

def fmtid (m : Mem) (dscb : Nat) : Nat := word m (dscb + 44) 1

def MAXEXTENTS : Nat := 16

/-- `extent_t`: the limits are given as cylinder and head. -/
structure Extent where
  typeind : Nat
  seqno : Nat
  llimit : Nat × Nat
  ulimit : Nat × Nat
  deriving DecidableEq

def extent (m : Mem) (o : Nat) : Extent :=
  ⟨word m o 1, word m (o + 1) 1, (word m (o + 2) 2, word m (o + 4) 2), (word m (o + 6) 2, word m (o + 8) 2)⟩

def sizeofExtent : Nat := 10

def DS1EXT (f1 : Nat) : List Nat := (List.range 3).map fun j => f1 + 105 + sizeofExtent * j
/-- `DS1PTRDS`, `DS3PTRDS` and `DS9PTRDS`, which stand at the same place. -/
def PTRDS (dscb : Nat) : Nat := dscb + 135
def DS3EXTNT (f3 : Nat) : List Nat := (List.range 4).map fun j => f3 + 4 + sizeofExtent * j
def DS3ADEXT (f3 : Nat) : List Nat := (List.range 9).map fun j => f3 + 45 + sizeofExtent * j

/-- The array `ext` of `struct datasetpart`. -/
abbrev Extents := Nat → Option Extent

def copy_extent_to_datasetpart (e : Extent) (ext : Extents) : Except Errno Extents :=
  if e.typeind ≠ 0 ∧ e.seqno ≥ MAXEXTENTS then .error .EPROTO
  else .ok (if e.typeind ≠ 0 then Function.update ext e.seqno (some e) else ext)

@[grind =] def copy_extents (m : Mem) : List Nat → Extents → Except Errno Extents
  | [], ext => .ok ext
  | o :: os, ext =>
    match copy_extent_to_datasetpart (extent m o) ext with
    | .error rc => .error rc
    | .ok ext => copy_extents m os ext

section
variable (rv : RawVtoc)

@[grind =] def pass_format9 : Nat → Except Errno (Option Nat) → Option (Except Errno (Option Nat))
  | 0, _ => none
  | _ + 1, .error rc => some (.error rc)
  | _ + 1, .ok none => some (.ok none)
  | steps + 1, .ok (some dscb) =>
    if fmtid rv.rawdata dscb = 0xf9 then
      pass_format9 steps (lzds_raw_vtoc_get_dscb_from_cchhb rv (cchhb rv.rawdata (PTRDS dscb)))
    else some (.ok (some dscb))

@[grind =] def follow_format3 : Nat → Option Nat → Extents → Option (Except Errno Extents)
  | 0, _, _ => none
  | _ + 1, none, ext => some (.ok ext)
  | steps + 1, some f3, ext =>
    if fmtid rv.rawdata f3 ≠ 0xf3 then some (.error .EPROTO)
    else
      match copy_extents rv.rawdata (DS3EXTNT f3 ++ DS3ADEXT f3) ext with
      | .error _ => some (.error .EPROTO)
      | .ok ext =>
        match lzds_raw_vtoc_get_dscb_from_cchhb rv (cchhb rv.rawdata (PTRDS f3)) with
        | .error _ => some (.error .EPROTO)
        | .ok next => follow_format3 steps next ext

/-- The extents of the data set part; `none` if `steps` rounds of the loops do not suffice. -/
def raw_vtoc_get_datasetpart_from_dscb (steps f1 : Nat) : Option (Except Errno Extents) :=
  match pass_format9 rv steps (lzds_raw_vtoc_get_dscb_from_cchhb rv (cchhb rv.rawdata (PTRDS f1))) with
  | none => none
  | some (.error _) => some (.error .EPROTO)
  | some (.ok dscb) =>
    match copy_extents rv.rawdata (DS1EXT f1) (fun _ => none) with
    | .error _ => some (.error .EPROTO)
    | .ok ext => follow_format3 rv steps (dscb.filter fun d => fmtid rv.rawdata d = 0xf3) ext

/-! ## Chains -/

def pointed (dscb : Nat) : Option Nat :=
  match lzds_raw_vtoc_get_dscb_from_cchhb rv (cchhb rv.rawdata (PTRDS dscb)) with
  | .error _ => none
  | .ok next => next

def ValidExtents (m : Mem) (os : List Nat) : Prop :=
  ∀ o ∈ os, (extent m o).typeind = 0 ∨ (extent m o).seqno < MAXEXTENTS

instance (m : Mem) (os : List Nat) : Decidable (ValidExtents m os) := inferInstanceAs (Decidable (∀ o ∈ os, _))

def next9 (dscb : Nat) : Option Nat := if fmtid rv.rawdata dscb = 0xf9 then pointed rv dscb else none

def next3 (dscb : Nat) : Option Nat :=
  if fmtid rv.rawdata dscb = 0xf3 ∧
    ValidExtents rv.rawdata (DS3EXTNT dscb ++ DS3ADEXT dscb) then pointed rv dscb else none

/-- The format 9 DSCBs behind the format 1 DSCB are no cycle, and, if its extents are valid, the format 3
DSCBs behind them are none. -/
def ChainsEnd (f1 : Nat) : Prop :=
  ¬Walk.Cyclic (next9 rv) (pointed rv f1) ∧
    (ValidExtents rv.rawdata (DS1EXT f1) → ∀ d, Walk.Reaches (next9 rv) (pointed rv f1) d →
      fmtid rv.rawdata d = 0xf3 →
      ¬Walk.Cyclic (next3 rv) (some d))

end

section
variable {rv : RawVtoc}

theorem copy_extents_ok {m : Mem} : ∀ {os : List Nat} (ext : Extents), ValidExtents m os →
    ∃ ext', copy_extents m os ext = .ok ext'
  | [], ext, _ => ⟨ext, rfl⟩
  | o :: os, ext, h => by
    obtain ⟨ho, hos⟩ := List.forall_mem_cons.mp h
    have hcopy : ¬((extent m o).typeind ≠ 0 ∧ (extent m o).seqno ≥ MAXEXTENTS) := by
      rintro ⟨h1, h2⟩
      rcases ho with ho | ho
      · exact h1 ho
      · exact Nat.not_lt_of_le h2 ho
    rw [copy_extents, copy_extent_to_datasetpart, if_neg hcopy]
    exact copy_extents_ok _ hos

theorem copy_extents_error {m : Mem} : ∀ {os : List Nat} (ext : Extents), ¬ValidExtents m os →
    ∃ rc, copy_extents m os ext = .error rc
  | [], _, h => absurd (fun _ ho => absurd ho List.not_mem_nil) h
  | o :: os, ext, h => by
    rw [copy_extents, copy_extent_to_datasetpart]
    by_cases hcopy : (extent m o).typeind ≠ 0 ∧ (extent m o).seqno ≥ MAXEXTENTS
    · rw [if_pos hcopy]
      exact ⟨_, rfl⟩
    · rw [if_neg hcopy]
      apply copy_extents_error
      intro hos
      refine h (List.forall_mem_cons.mpr ⟨?_, hos⟩)
      by_cases h0 : (extent m o).typeind = 0
      · exact .inl h0
      · exact .inr (Nat.lt_of_not_le fun h1 => hcopy ⟨h0, h1⟩)

theorem pointed_mem {dscb d : Nat} (h : pointed rv dscb = some d) :
    d ∈ (rv.vtocindex.filterMap fun r => r.map (· + sizeofCount)).toFinset := by
  rw [pointed, lzds_raw_vtoc_get_dscb_from_cchhb] at h
  split at h
  · cases h
  · rename_i next hnext
    split at hnext
    · cases hnext
      cases h
    · split at hnext
      · cases hnext
      · split at hnext
        · cases hnext
        · split at hnext
          · cases hnext
          · rename_i record hrecord
            cases hnext
            cases h
            rw [List.mem_toFinset, List.mem_filterMap]
            refine ⟨some record, ?_, rfl⟩
            rw [← hrecord]
            by_cases hlt : (vtocindex_from_cchhb rv (cchhb rv.rawdata (PTRDS dscb))).toNat < rv.vtocindex.length
            · rw [List.getD_eq_getElem _ _ hlt]
              exact List.getElem_mem hlt
            · rw [List.getD_eq_default _ _ (Nat.le_of_not_lt hlt)] at hrecord
              cases hrecord

theorem reaches_mem {next : Nat → Option Nat} (hnext : ∀ x y, next x = some y → pointed rv x = some y) {f1 : Nat} :
    ∀ x, Walk.Reaches next (pointed rv f1) x →
      x ∈ (rv.vtocindex.filterMap fun r => r.map (· + sizeofCount)).toFinset := by
  rintro x ⟨n, hn⟩
  cases n with
  | zero => exact pointed_mem hn
  | succ n =>
    rw [Walk.walk_succ] at hn
    obtain ⟨y, -, hy⟩ := Option.bind_eq_some_iff.mp hn
    exact pointed_mem (hnext y x hy)

theorem next9_pointed {x y : Nat} (h : next9 rv x = some y) : pointed rv x = some y := by
  rw [next9] at h
  split at h
  · exact h
  · cases h

theorem next3_pointed {x y : Nat} (h : next3 rv x = some y) : pointed rv x = some y := by
  rw [next3] at h
  split at h
  · exact h
  · cases h

/-! ## The loops end with the walks -/

theorem reaches_next9 {dscb d : Nat} (h9 : fmtid rv.rawdata dscb = 0xf9) (hd : fmtid rv.rawdata d ≠ 0xf9) :
    Walk.Reaches (next9 rv) (some dscb) d ↔ Walk.Reaches (next9 rv) (pointed rv dscb) d := by
  have hnext : next9 rv dscb = pointed rv dscb := if_pos h9
  constructor
  · rintro ⟨n, hn⟩
    cases n with
    | zero =>
      cases hn
      exact absurd h9 hd
    | succ n =>
      rw [Walk.walk, Option.bind_some, hnext] at hn
      exact ⟨n, hn⟩
  · rintro ⟨n, hn⟩
    refine ⟨n + 1, ?_⟩
    rw [Walk.walk, Option.bind_some, hnext]
    exact hn

theorem not_reaches_none {next : Nat → Option Nat} {d : Nat} : ¬Walk.Reaches next none d := by
  rintro ⟨n, hn⟩
  rw [Walk.walk_none] at hn
  cases hn

theorem pass_format9_ends : ∀ (steps : Nat) (start : Option Nat), Walk.walk (next9 rv) steps start = none →
    ∃ r, pass_format9 rv (steps + 1) (.ok start) = some r ∧
      ∀ d, r = .ok (some d) ↔ Walk.Reaches (next9 rv) start d ∧ fmtid rv.rawdata d ≠ 0xf9
  | _, none, _ => ⟨_, rfl, fun _ => iff_of_false (fun h => by cases h) fun h => not_reaches_none h.1⟩
  | 0, some dscb, h => by cases h
  | steps + 1, some dscb, h => by
    rw [Walk.walk, Option.bind_some] at h
    rw [pass_format9]
    by_cases h9 : fmtid rv.rawdata dscb = 0xf9
    · rw [if_pos h9]
      rw [next9, if_pos h9] at h
      have hpointed : pointed rv dscb = pointed rv dscb := rfl
      rw [pointed] at h
      nth_rewrite 2 [pointed] at hpointed
      cases hget : lzds_raw_vtoc_get_dscb_from_cchhb rv (cchhb rv.rawdata (PTRDS dscb)) with
      | error rc =>
        rw [hget] at hpointed
        refine ⟨_, rfl, fun d => iff_of_false (fun h => by cases h) ?_⟩
        rintro ⟨hreach, hd⟩
        rw [reaches_next9 h9 hd, hpointed] at hreach
        exact not_reaches_none hreach
      | ok next =>
        rw [hget] at h hpointed
        obtain ⟨r, hr, hlast⟩ := pass_format9_ends steps next h
        refine ⟨r, hr, fun d => (hlast d).trans ?_⟩
        refine and_congr_left fun hd => ?_
        rw [reaches_next9 h9 hd, hpointed]
    · rw [if_neg h9]
      refine ⟨_, rfl, fun d => ?_⟩
      constructor
      · rintro hd
        cases hd
        exact ⟨.head _, h9⟩
      · rintro ⟨⟨n, hn⟩, -⟩
        cases n with
        | zero =>
          cases hn
          rfl
        | succ n =>
          rw [Walk.walk, Option.bind_some, next9, if_neg h9, Walk.walk_none] at hn
          cases hn

theorem pass_format9_walk : ∀ (steps : Nat) (start : Option Nat) {r : Except Errno (Option Nat)},
    pass_format9 rv steps (.ok start) = some r → Walk.walk (next9 rv) steps start = none
  | 0, _, _, h => by cases h
  | steps + 1, none, _, _ => Walk.walk_none _
  | steps + 1, some dscb, r, h => by
    rw [pass_format9] at h
    rw [Walk.walk, Option.bind_some, next9]
    split at h
    · rename_i h9
      rw [if_pos h9, pointed]
      cases hget : lzds_raw_vtoc_get_dscb_from_cchhb rv (cchhb rv.rawdata (PTRDS dscb)) with
      | error rc => exact Walk.walk_none _
      | ok next =>
        rw [hget] at h
        exact pass_format9_walk steps next h
    · rename_i h9
      rw [if_neg h9]
      exact Walk.walk_none _

theorem pass_format9_more (k : Nat) : ∀ (steps : Nat) (start : Except Errno (Option Nat))
    {r : Except Errno (Option Nat)},
    pass_format9 rv steps start = some r → pass_format9 rv (steps + k) start = some r
  | 0, _, _, h => by cases h
  | steps + 1, .error rc, _, h => by
    rw [Nat.succ_add]
    exact h
  | steps + 1, .ok none, _, h => by
    rw [Nat.succ_add]
    exact h
  | steps + 1, .ok (some dscb), r, h => by
    rw [pass_format9] at h
    rw [Nat.succ_add, pass_format9]
    by_cases h9 : fmtid rv.rawdata dscb = 0xf9
    · rw [if_pos h9] at h ⊢
      exact pass_format9_more k steps _ h
    · rw [if_neg h9] at h ⊢
      exact h

theorem follow_format3_ends : ∀ (steps : Nat) (start : Option Nat) (ext : Extents),
    Walk.walk (next3 rv) steps start = none →
    ∃ r, follow_format3 rv (steps + 1) start ext = some r
  | _, none, _, _ => ⟨_, rfl⟩
  | 0, some f3, _, h => by cases h
  | steps + 1, some f3, ext, h => by
    rw [Walk.walk, Option.bind_some, next3] at h
    rw [follow_format3]
    by_cases h3 : fmtid rv.rawdata f3 = 0xf3
    · rw [if_neg (fun hne => hne h3)]
      by_cases hext : ValidExtents rv.rawdata (DS3EXTNT f3 ++ DS3ADEXT f3)
      · rw [if_pos ⟨h3, hext⟩, pointed] at h
        obtain ⟨ext', hcopy⟩ := copy_extents_ok ext hext
        rw [hcopy]
        dsimp only
        cases hget : lzds_raw_vtoc_get_dscb_from_cchhb rv (cchhb rv.rawdata (PTRDS f3)) with
        | error rc => exact ⟨_, rfl⟩
        | ok next =>
          rw [hget] at h
          exact follow_format3_ends steps next ext' h
      · obtain ⟨rc, hcopy⟩ := copy_extents_error ext hext
        rw [hcopy]
        exact ⟨_, rfl⟩
    · rw [if_pos h3]
      exact ⟨_, rfl⟩

theorem follow_format3_walk : ∀ (steps : Nat) (start : Option Nat) (ext : Extents) {r : Except Errno Extents},
    follow_format3 rv steps start ext = some r → Walk.walk (next3 rv) steps start = none
  | 0, _, _, _, h => by cases h
  | steps + 1, none, _, _, _ => Walk.walk_none _
  | steps + 1, some f3, ext, r, h => by
    rw [follow_format3] at h
    rw [Walk.walk, Option.bind_some, next3]
    by_cases hgo : fmtid rv.rawdata f3 = 0xf3 ∧ ValidExtents rv.rawdata (DS3EXTNT f3 ++ DS3ADEXT f3)
    · obtain ⟨ext', hcopy⟩ := copy_extents_ok ext hgo.2
      rw [if_pos hgo, pointed]
      rw [if_neg (fun hne => hne hgo.1), hcopy] at h
      dsimp only at h
      cases hget : lzds_raw_vtoc_get_dscb_from_cchhb rv (cchhb rv.rawdata (PTRDS f3)) with
      | error rc => exact Walk.walk_none _
      | ok next =>
        rw [hget] at h
        exact follow_format3_walk steps next ext' h
    · rw [if_neg hgo]
      exact Walk.walk_none _

/-! ## Termination -/

theorem reaches_next3 {f1 d : Nat} (hd : Walk.Reaches (next9 rv) (pointed rv f1) d) :
    ∀ x, Walk.Reaches (next3 rv) (some d) x →
      x ∈ (rv.vtocindex.filterMap fun r => r.map (· + sizeofCount)).toFinset := by
  rintro x ⟨n, hn⟩
  cases n with
  | zero =>
    cases hn
    exact reaches_mem (fun _ _ => next9_pointed) _ hd
  | succ n =>
    rw [Walk.walk_succ] at hn
    obtain ⟨y, -, hy⟩ := Option.bind_eq_some_iff.mp hn
    exact pointed_mem (next3_pointed hy)

/-- The format 3 loop from the DSCB behind the format 9 chain ends. -/
def Format3Ends (rv : RawVtoc) (f1 : Nat) : Prop :=
  ValidExtents rv.rawdata (DS1EXT f1) → ∀ d, Walk.Reaches (next9 rv) (pointed rv f1) d → fmtid rv.rawdata d = 0xf3 →
    ∃ n, Walk.walk (next3 rv) n (some d) = none

theorem chainsEnd_iff (f1 : Nat) :
    ChainsEnd rv f1 ↔ (∃ n, Walk.walk (next9 rv) n (pointed rv f1) = none) ∧ Format3Ends rv f1 := by
  rw [ChainsEnd, Format3Ends, Walk.ends_iff _ (reaches_mem fun _ _ => next9_pointed)]
  refine and_congr_right fun _ => forall_congr' fun _ => forall_congr' fun d =>
    forall_congr' fun hd => forall_congr' fun _ => ?_
  rw [Walk.ends_iff _ (reaches_next3 hd)]

theorem pass_format9_pointed {n f1 : Nat} (h : Walk.walk (next9 rv) n (pointed rv f1) = none) :
    ∃ r, pass_format9 rv (n + 1) (lzds_raw_vtoc_get_dscb_from_cchhb rv (cchhb rv.rawdata (PTRDS f1))) = some r ∧
      ∀ d, r = .ok (some d) ↔ Walk.Reaches (next9 rv) (pointed rv f1) d ∧ fmtid rv.rawdata d ≠ 0xf9 := by
  have hpointed : pointed rv f1 = pointed rv f1 := rfl
  nth_rewrite 2 [pointed] at hpointed
  cases hget : lzds_raw_vtoc_get_dscb_from_cchhb rv (cchhb rv.rawdata (PTRDS f1)) with
  | error rc =>
    rw [hget] at hpointed
    rw [hpointed]
    exact ⟨_, rfl, fun _ => iff_of_false (fun h => by cases h) fun h => not_reaches_none h.1⟩
  | ok next =>
    rw [hget] at hpointed
    rw [hpointed] at h ⊢
    exact pass_format9_ends n next h

theorem datasetpart_ends {f1 : Nat} (h9 : ∃ n, Walk.walk (next9 rv) n (pointed rv f1) = none)
    (h3 : Format3Ends rv f1) :
    ∃ steps r, raw_vtoc_get_datasetpart_from_dscb rv steps f1 = some r := by
  obtain ⟨n, hn⟩ := h9
  obtain ⟨r, hr, hlast⟩ := pass_format9_pointed hn
  have hfirst : ∃ m, n ≤ m ∧ ∀ d, r = .ok (some d) → fmtid rv.rawdata d = 0xf3 →
    ValidExtents rv.rawdata (DS1EXT f1) →
      Walk.walk (next3 rv) m (some d) = none := by
    by_cases hd : ∃ d, r = .ok (some d) ∧ fmtid rv.rawdata d = 0xf3 ∧ ValidExtents rv.rawdata (DS1EXT f1)
    · obtain ⟨d, hd, hd3, hext⟩ := hd
      obtain ⟨m, hm⟩ := h3 hext d ((hlast d).mp hd).1 hd3
      refine ⟨max n m, Nat.le_max_left n m, fun d' hd' _ _ => ?_⟩
      cases hd.symm.trans hd'
      exact Walk.walk_ended hm (Nat.le_max_right n m)
    · exact ⟨n, Nat.le_refl n, fun d h1 h2 h3 => absurd ⟨d, h1, h2, h3⟩ hd⟩
  obtain ⟨m, hnm, hm⟩ := hfirst
  obtain ⟨r', hr', hlast'⟩ := pass_format9_pointed (Walk.walk_ended hn hnm)
  refine ⟨m + 1, ?_⟩
  rw [raw_vtoc_get_datasetpart_from_dscb, hr']
  cases r' with
  | error rc => exact ⟨_, rfl⟩
  | ok dscb =>
    dsimp only
    by_cases hext : ValidExtents rv.rawdata (DS1EXT f1)
    · obtain ⟨ext, hcopy⟩ := copy_extents_ok (fun _ => none) hext
      rw [hcopy]
      apply follow_format3_ends
      cases dscb with
      | none => exact Walk.walk_none m
      | some d =>
        rw [Option.filter_some]
        split
        · rename_i hd3
          exact hm d ((hlast d).mpr ((hlast' d).mp rfl)) (of_decide_eq_true hd3) hext
        · exact Walk.walk_none m
    · obtain ⟨rc, hcopy⟩ := copy_extents_error (fun _ => none) hext
      rw [hcopy]
      exact ⟨_, rfl⟩

theorem ends_of_datasetpart {f1 steps : Nat} {r : Except Errno Extents}
    (h : raw_vtoc_get_datasetpart_from_dscb rv steps f1 = some r) :
    (∃ n, Walk.walk (next9 rv) n (pointed rv f1) = none) ∧ Format3Ends rv f1 := by
  rw [raw_vtoc_get_datasetpart_from_dscb] at h
  cases hpass : pass_format9 rv steps (lzds_raw_vtoc_get_dscb_from_cchhb rv (cchhb rv.rawdata (PTRDS f1))) with
  | none =>
    rw [hpass] at h
    cases h
  | some r₁ =>
    have h9 : ∃ n, Walk.walk (next9 rv) n (pointed rv f1) = none := by
      rw [pointed]
      cases hget : lzds_raw_vtoc_get_dscb_from_cchhb rv (cchhb rv.rawdata (PTRDS f1)) with
      | error rc => exact ⟨0, rfl⟩
      | ok next =>
        rw [hget] at hpass
        exact ⟨steps, pass_format9_walk steps next hpass⟩
    refine ⟨h9, fun hext d hd hd3 => ?_⟩
    have hlast : r₁ = .ok (some d) := by
      obtain ⟨n, hn⟩ := h9
      obtain ⟨r', hr', hlast⟩ := pass_format9_pointed hn
      have hmore := pass_format9_more (n + 1) steps _ hpass
      rw [Nat.add_comm, pass_format9_more steps (n + 1) _ hr'] at hmore
      cases hmore
      refine (hlast d).mpr ⟨hd, ?_⟩
      rw [hd3]
      decide
    subst hlast
    obtain ⟨ext, hcopy⟩ := copy_extents_ok (fun _ => none) hext
    rw [hpass, hcopy] at h
    dsimp only at h
    rw [Option.filter_some, if_pos (by simpa using hd3)] at h
    exact ⟨steps, follow_format3_walk steps (some d) ext h⟩

end

theorem chains_end_iff (rv : RawVtoc) (f1 : Nat) :
    (∃ steps r, raw_vtoc_get_datasetpart_from_dscb rv steps f1 = some r) ↔ ChainsEnd rv f1 := by
  rw [chainsEnd_iff]
  constructor
  · rintro ⟨steps, r, h⟩
    exact ends_of_datasetpart h
  · rintro ⟨h9, h3⟩
    exact datasetpart_ends h9 h3

def loopedVtoc : RawVtoc where
  rawdata := fun i =>
    if i = 8 + 5 ∨ i = 156 + 5 then 44 else if i = 8 + 7 ∨ i = 156 + 7 then 96 else if i = 16 + 44 then 0xf8
    else if i = 164 + 44 then 0xf9 else if i = 16 + 139 ∨ i = 164 + 139 then 2 else 0
  rawdatasize := RAWTRACKSIZE
  vtocindex := [some 0, some 8, some 156]
  vtoc_rec_per_track := 3
  vtoctrackoffset := 0
  vtocrecno := 1
  heads := 15

theorem format9_loop_endless : ¬∀ (rv : RawVtoc) (f1 : Nat), fmtid rv.rawdata f1 = 0xf1 ∨
    fmtid rv.rawdata f1 = 0xf8 →
    (∃ record, some record ∈ rv.vtocindex ∧ f1 = record + sizeofCount) →
    ∃ steps r, raw_vtoc_get_datasetpart_from_dscb rv steps f1 = some r := by
  intro h
  obtain ⟨steps, r, hr⟩ := h loopedVtoc 16 (.inr (by decide)) ⟨8, by decide, rfl⟩
  obtain ⟨⟨n, hn⟩, -⟩ := ends_of_datasetpart hr
  have hstart : pointed loopedVtoc 16 = some 164 := by decide
  have hloop : next9 loopedVtoc 164 = some 164 := by decide
  rw [hstart] at hn
  refine Walk.walk_cycle (x := 164) ?_ n hn
  rw [hloop]
  exact .head 164

end Libzds
