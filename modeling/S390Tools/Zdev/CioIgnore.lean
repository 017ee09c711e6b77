import S390Tools.Zdev.Ccw

/-!
# The persistent exemption from the CIO blacklist (zdev/src/ccw.c)

The IDs of all configured devices are collected in a bitmap, from which
`cio_ignore_get_ranges` makes the list for `/proc/cio_ignore`. `none` stands for an
access outside of an array.
-/

namespace Zdev.Ccw

open CString

/-! ## The bitmap -/

def BITS_PER_CHAR : Nat := 8

/-- For each channel subsystem its subchannel sets, for each of these its bits. -/
abbrev IdBitmap := List (Option (List (Option (List UInt8))))

def id_bitmap_new : IdBitmap := List.replicate CSSID_MAX none

def bit (devno : Nat) : UInt8 := 1 <<< UInt8.ofNat (devno % BITS_PER_CHAR)

def id_bitmap_set (id_bitmap : IdBitmap) (cssid ssid devno : Nat) : Option IdBitmap := do
  let sets := (← id_bitmap[cssid]?).getD (List.replicate (SSID_MAX + 1) none)
  let bits := (← sets[ssid]?).getD (List.replicate ((DEVNO_MAX + 1) / BITS_PER_CHAR) 0)
  let c ← bits[devno / BITS_PER_CHAR]?
  return id_bitmap.set cssid (some (sets.set ssid (some (bits.set (devno / BITS_PER_CHAR) (c ||| bit devno)))))

def id_bitmap_get (id_bitmap : IdBitmap) (cssid ssid devno : Nat) : Option Bool := do
  match ← id_bitmap[cssid]? with
  | none => return false
  | some sets =>
    match ← sets[ssid]? with
    | none => return false
    | some bits =>
      let c ← bits[devno / BITS_PER_CHAR]?
      return c &&& bit devno != 0

def id_bitmap_free (id_bitmap : IdBitmap) : Option Unit :=
  (List.range CSSID_MAX).forM fun cssid => do
    match ← id_bitmap[cssid]? with
    | none => return ()
    | some sets => (List.range SSID_MAX).forM fun ssid => sets[ssid]?.map fun _ => ()

section
variable (bare : Bool)

def collect_cb (id_bitmap : IdBitmap) (id : List UInt8) : Option IdBitmap :=
  match ccw_parse_devid_simple bare id with
  | some devid => id_bitmap_set id_bitmap devid.cssid.toNat devid.ssid.toNat devid.devno.toNat
  | none => some id_bitmap

/-- `ids` are the configured IDs in the order of `subtype_for_each_id`. -/
def id_bitmap_collect (ids : List (List UInt8)) : Option IdBitmap := ids.foldlM (collect_cb bare) id_bitmap_new

end

/-! ## Ranges -/

def range_str (d : CcwDevid) : List UInt8 :=
  if d.cssid = 0 ∧ d.ssid = 0 then (ccw_devid_to_str d).drop 4 else ccw_devid_to_str d

def range_add (list : List (List UInt8)) (f : CcwDevid) (t : Option CcwDevid) : List (List UInt8) :=
  match t with
  | some t => list ++ [range_str f ++ 0x2d :: range_str t]
  | none => list ++ [range_str f]

structure Scan where
  first : Option CcwDevid
  last : Option CcwDevid
  ranges : List (List UInt8)

def devid (cssid ssid devno : Nat) : CcwDevid :=
    { cssid := .ofNat cssid, ssid := .ofNat ssid, devno := .ofNat devno }

def flush_range (s : Scan) : Scan :=
  match s.first with
  | some first => { first := none, last := none, ranges := range_add s.ranges first s.last }
  | none => s

def scan_devno (id_bitmap : IdBitmap) (cssid ssid : Nat) (s : Scan) (devno : Nat) : Option Scan := do
  if !(← id_bitmap_get id_bitmap cssid ssid devno) then return flush_range s
  else if s.first.isSome then return { s with last := some (devid cssid ssid devno) }
  else return { s with first := some (devid cssid ssid devno) }

def scan_devnos (id_bitmap : IdBitmap) (cssid ssid : Nat) (ranges : List (List UInt8)) :
    Option (List (List UInt8)) := do
  let s ← (List.range DEVNO_MAX).foldlM (scan_devno id_bitmap cssid ssid) { first := none, last := none, ranges }
  return (flush_range s).ranges

def scan_ssid (id_bitmap : IdBitmap) (cssid : Nat) (sets : List (Option (List UInt8))) (ranges : List (List UInt8))
    (ssid : Nat) : Option (List (List UInt8)) := do
  match ← sets[ssid]? with
  | none => return ranges
  | some _ => scan_devnos id_bitmap cssid ssid ranges

def scan_cssid (id_bitmap : IdBitmap) (ranges : List (List UInt8)) (cssid : Nat) : Option (List (List UInt8)) := do
  match ← id_bitmap[cssid]? with
  | none => return ranges
  | some sets => (List.range SSID_MAX).foldlM (scan_ssid id_bitmap cssid sets) ranges

def cio_ignore_get_ranges (bare : Bool) (ids : List (List UInt8)) : Option (List (List UInt8)) := do
  let id_bitmap ← id_bitmap_collect bare ids
  let ranges ← (List.range CSSID_MAX).foldlM (scan_cssid id_bitmap) []
  id_bitmap_free id_bitmap
  return ranges

/-! ## Accesses -/

def sets_at (b : IdBitmap) (cssid : Nat) : Option (List (Option (List UInt8))) :=
  b[cssid]?.map (·.getD (List.replicate (SSID_MAX + 1) none))

def bits_at (sets : List (Option (List UInt8))) (ssid : Nat) : Option (List UInt8) :=
  sets[ssid]?.map (·.getD (List.replicate ((DEVNO_MAX + 1) / BITS_PER_CHAR) 0))

structure Shaped (b : IdBitmap) : Prop where
  length : b.length = CSSID_MAX
  sets : ∀ (cssid : Nat) (sets : List (Option (List UInt8))), sets_at b cssid = some sets →
    sets.length = SSID_MAX + 1
  bits : ∀ (cssid ssid : Nat) (sets : List (Option (List UInt8))) (bits : List UInt8), sets_at b cssid = some sets →
    bits_at sets ssid = some bits → bits.length = (DEVNO_MAX + 1) / BITS_PER_CHAR

theorem bits_unused (ssid : Nat) {bits : List UInt8}
    (h : bits_at (List.replicate (SSID_MAX + 1) none) ssid = some bits) :
    bits = List.replicate ((DEVNO_MAX + 1) / BITS_PER_CHAR) 0 := by
  obtain ⟨row, hrow, rfl⟩ := Option.map_eq_some_iff.mp h
  rw [List.getElem?_replicate] at hrow
  split at hrow
  · cases hrow
    rfl
  · cases hrow

theorem new_shaped : Shaped id_bitmap_new := by
  have hsets : ∀ (cssid : Nat) (sets : List (Option (List UInt8))), sets_at id_bitmap_new cssid = some sets →
      sets = List.replicate (SSID_MAX + 1) none := fun cssid sets h => by
    obtain ⟨row, hrow, rfl⟩ := Option.map_eq_some_iff.mp h
    rw [id_bitmap_new, List.getElem?_replicate] at hrow
    split at hrow
    · cases hrow
      rfl
    · cases hrow
  refine ⟨List.length_replicate, fun c sets h => ?_, fun c i sets bits h hbits => ?_⟩
  · rw [hsets c sets h, List.length_replicate]
  · rw [hsets c sets h] at hbits
    rw [bits_unused i hbits, List.length_replicate]

theorem bit_and (d d' : Nat) : bit d &&& bit d' = 0 ↔ d % 8 ≠ d' % 8 := by
  have h : ∀ i j : Fin 8, ((1 : UInt8) <<< UInt8.ofNat i.val) &&& (1 <<< UInt8.ofNat j.val) = 0 ↔
    i.val ≠ j.val := by
    decide +kernel
  exact h ⟨d % 8, Nat.mod_lt d (by decide)⟩ ⟨d' % 8, Nat.mod_lt d' (by decide)⟩

theorem bit_or (c : UInt8) (d d' : Nat) :
    ((c ||| bit d) &&& bit d' != 0) = (decide (d % 8 = d' % 8) || (c &&& bit d' != 0)) := by
  have hdistrib : (c ||| bit d) &&& bit d' = (c &&& bit d') ||| (bit d &&& bit d') := by
    apply UInt8.toNat_inj.mp
    rw [UInt8.toNat_and, UInt8.toNat_or, UInt8.toNat_or, UInt8.toNat_and, UInt8.toNat_and, Nat.and_or_distrib_right]
  have hbit := bit_and d d'
  rw [hdistrib, Bool.eq_iff_iff, Bool.or_eq_true, bne_iff_ne, bne_iff_ne, decide_eq_true_iff, Ne,
    UInt8.or_eq_zero_iff]
  tauto

section
variable {b : IdBitmap} {cssid ssid devno : Nat}

theorem Shaped.sets_some (h : Shaped b) (hc : cssid < CSSID_MAX) :
    ∃ sets, sets_at b cssid = some sets ∧ sets.length = SSID_MAX + 1 := by
  have hsome : sets_at b cssid = some _ :=
    congrArg (Option.map _) (List.getElem?_eq_getElem (by rw [h.length]; exact hc))
  exact ⟨_, hsome, h.sets cssid _ hsome⟩

theorem Shaped.bits_some (h : Shaped b) {sets : List (Option (List UInt8))} (hsets : sets_at b cssid = some sets)
    (hs : ssid ≤ SSID_MAX) : ∃ bits, bits_at sets ssid = some bits ∧
      bits.length = (DEVNO_MAX + 1) / BITS_PER_CHAR := by
  have hlen := h.sets cssid sets hsets
  have hsome : bits_at sets ssid = some _ :=
    congrArg (Option.map _) (List.getElem?_eq_getElem (by rw [hlen]; omega))
  exact ⟨_, hsome, h.bits cssid ssid sets _ hsets hsome⟩

theorem get_eq {sets : List (Option (List UInt8))} {bits : List UInt8} {c : UInt8}
    (hsets : sets_at b cssid = some sets)
    (hbits : bits_at sets ssid = some bits) (hc : bits[devno / BITS_PER_CHAR]? = some c) :
    id_bitmap_get b cssid ssid devno = some (c &&& bit devno != 0) := by
  have hzero : bits = List.replicate ((DEVNO_MAX + 1) / BITS_PER_CHAR) 0 → (c &&& bit devno != 0) =
    false := fun h => by
    rw [h, List.getElem?_replicate] at hc
    split at hc
    · cases hc
      simp
    · cases hc
  obtain ⟨row, hrow, rfl⟩ := Option.map_eq_some_iff.mp hsets
  rw [id_bitmap_get, hrow]
  cases row with
  | none =>
    rw [hzero (bits_unused ssid hbits)]
    rfl
  | some sets =>
    obtain ⟨row, hrow, rfl⟩ := Option.map_eq_some_iff.mp hbits
    rw [Option.getD_some] at hrow
    show (sets[ssid]? >>= _) = _
    rw [hrow]
    cases row with
    | none =>
      rw [hzero rfl]
      rfl
    | some bits =>
      rw [Option.getD_some] at hc
      show (bits[devno / BITS_PER_CHAR]? >>= _) = _
      rw [hc]
      rfl

theorem set_eq {sets : List (Option (List UInt8))} {bits : List UInt8} {c : UInt8}
    (hsets : sets_at b cssid = some sets)
    (hbits : bits_at sets ssid = some bits) (hc : bits[devno / BITS_PER_CHAR]? = some c) :
    id_bitmap_set b cssid ssid devno = some (b.set cssid (some (sets.set ssid
      (some (bits.set (devno / BITS_PER_CHAR) (c ||| bit devno)))))) := by
  obtain ⟨row, hrow, rfl⟩ := Option.map_eq_some_iff.mp hsets
  obtain ⟨row', hrow', rfl⟩ := Option.map_eq_some_iff.mp hbits
  rw [id_bitmap_set, hrow]
  show ((row.getD _)[ssid]? >>= _) = _
  rw [hrow']
  show ((row'.getD _)[devno / BITS_PER_CHAR]? >>= _) = _
  rw [hc]
  rfl

theorem index_lt {n : Nat} (h : devno ≤ DEVNO_MAX) (hn : n = (DEVNO_MAX + 1) / BITS_PER_CHAR) :
    devno / BITS_PER_CHAR < n := by
  rw [hn, DEVNO_MAX, BITS_PER_CHAR] at *
  omega

theorem sets_at_set (sets : List (Option (List UInt8))) (hc : cssid < b.length) (c : Nat) :
    sets_at (b.set cssid (some sets)) c = if c = cssid then some sets else sets_at b c := by
  rw [sets_at, sets_at, List.getElem?_set]
  by_cases h : c = cssid
  · subst h
    rw [if_pos rfl, if_pos rfl, if_pos hc]
    rfl
  · rw [if_neg fun e => h e.symm, if_neg h]

theorem bits_at_set {sets : List (Option (List UInt8))} (bits : List UInt8) (hs : ssid < sets.length) (s : Nat) :
    bits_at (sets.set ssid (some bits)) s = if s = ssid then some bits else bits_at sets s := by
  rw [bits_at, bits_at, List.getElem?_set]
  by_cases h : s = ssid
  · subst h
    rw [if_pos rfl, if_pos rfl, if_pos hs]
    rfl
  · rw [if_neg fun e => h e.symm, if_neg h]

theorem get_some (h : Shaped b) (hc : cssid < CSSID_MAX) (hs : ssid ≤ SSID_MAX) (hd : devno ≤ DEVNO_MAX) :
    ∃ v, id_bitmap_get b cssid ssid devno = some v := by
  obtain ⟨sets, hsets, -⟩ := h.sets_some hc
  obtain ⟨bits, hbits, hlen⟩ := h.bits_some hsets hs
  exact ⟨_, get_eq hsets hbits (List.getElem?_eq_getElem (index_lt hd hlen))⟩

theorem set_some (h : Shaped b) (hc : cssid < CSSID_MAX) (hs : ssid ≤ SSID_MAX) (hd : devno ≤ DEVNO_MAX) :
    ∃ b', id_bitmap_set b cssid ssid devno = some b' ∧ Shaped b' ∧ ∀ c s d, c < CSSID_MAX →
      s ≤ SSID_MAX → d ≤ DEVNO_MAX →
      (id_bitmap_get b' c s d = some true ↔
        (c = cssid ∧ s = ssid ∧ d = devno) ∨ id_bitmap_get b c s d = some true) := by
  obtain ⟨sets, hsets, hlen⟩ := h.sets_some hc
  obtain ⟨bits, hbits, hlen'⟩ := h.bits_some hsets hs
  have hidx := index_lt hd hlen'
  have hlt : cssid < b.length := by rw [h.length]; exact hc
  have hlt' : ssid < sets.length := by omega
  refine ⟨_, set_eq hsets hbits (List.getElem?_eq_getElem hidx), ⟨?_, ?_, ?_⟩, ?_⟩
  · rw [List.length_set, h.length]
  · intro c sets' hsets'
    rw [sets_at_set _ hlt] at hsets'
    split at hsets'
    · cases hsets'
      rw [List.length_set, hlen]
    · exact h.sets c sets' hsets'
  · intro c s sets' bits' hsets' hbits'
    rw [sets_at_set _ hlt] at hsets'
    split at hsets'
    · cases hsets'
      rw [bits_at_set _ hlt'] at hbits'
      split at hbits'
      · cases hbits'
        rw [List.length_set, hlen']
      · exact h.bits cssid s sets bits' hsets hbits'
    · exact h.bits c s sets' bits' hsets' hbits'
  · intro c s d hc' hs' hd'
    obtain ⟨sets₀, hsets₀, -⟩ := h.sets_some hc'
    obtain ⟨bits₀, hbits₀, hlen₀⟩ := h.bits_some hsets₀ hs'
    have hbyte := List.getElem?_eq_getElem (index_lt hd' hlen₀)
    rw [get_eq hsets₀ hbits₀ hbyte]
    have hsets' := sets_at_set (sets.set ssid (some (bits.set (devno / BITS_PER_CHAR)
      (bits[devno / BITS_PER_CHAR] ||| bit devno)))) hlt c
    have hbits' := bits_at_set (bits.set (devno / BITS_PER_CHAR) (bits[devno / BITS_PER_CHAR] ||| bit devno)) hlt' s
    by_cases hcc : c = cssid
    · subst hcc
      rw [if_pos rfl] at hsets'
      cases hsets.symm.trans hsets₀
      by_cases hss : s = ssid
      · subst hss
        rw [if_pos rfl] at hbits'
        cases hbits.symm.trans hbits₀
        by_cases hdd : devno / BITS_PER_CHAR = d / BITS_PER_CHAR
        · have hnew : (bits.set (devno / BITS_PER_CHAR)
            (bits[devno / BITS_PER_CHAR] ||| bit devno))[d / BITS_PER_CHAR]? =
              some (bits[d / BITS_PER_CHAR] ||| bit devno) := by
            simp only [hdd]
            exact List.getElem?_set_self (index_lt hd' hlen₀)
          rw [get_eq hsets' hbits' hnew, bit_or, Option.some_inj, Option.some_inj, Bool.or_eq_true,
            decide_eq_true_iff]
          rw [BITS_PER_CHAR] at hdd
          constructor
          · rintro (heq | heq)
            · exact .inl ⟨rfl, rfl, by omega⟩
            · exact .inr heq
          · rintro (⟨-, -, rfl⟩ | heq)
            · exact .inl rfl
            · exact .inr heq
        · have hnew : (bits.set (devno / BITS_PER_CHAR)
            (bits[devno / BITS_PER_CHAR] ||| bit devno))[d / BITS_PER_CHAR]? =
              _ := (List.getElem?_set_ne hdd).trans hbyte
          rw [get_eq hsets' hbits' hnew]
          exact ⟨.inr, fun h => h.resolve_left fun h => hdd (by rw [h.2.2])⟩
      · rw [if_neg hss] at hbits'
        rw [get_eq hsets' (hbits'.trans hbits₀) hbyte]
        exact ⟨.inr, fun h => h.resolve_left fun h => hss h.2.1⟩
    · rw [if_neg hcc] at hsets'
      rw [get_eq (hsets'.trans hsets₀) hbits₀ hbyte]
      exact ⟨.inr, fun h => h.resolve_left fun h => hcc h.1⟩

theorem get_new (hc : cssid < CSSID_MAX) : id_bitmap_get id_bitmap_new cssid ssid devno = some false := by
  rw [id_bitmap_get, id_bitmap_new, List.getElem?_replicate, if_pos hc]
  rfl

/-! ## Collecting -/

theorem set_outside (h : Shaped b) (hc : CSSID_MAX ≤ cssid) : id_bitmap_set b cssid ssid devno = none := by
  rw [id_bitmap_set, List.getElem?_eq_none (by rw [h.length]; exact hc)]
  rfl

variable (bare : Bool)

def Configured (ids : List (List UInt8)) (d : CcwDevid) : Prop :=
    ∃ id ∈ ids, ccw_parse_devid_simple bare id = some d

theorem configured_cons {id : List UInt8} {ids : List (List UInt8)} {d : CcwDevid} :
    Configured bare (id :: ids) d ↔ ccw_parse_devid_simple bare id = some d ∨ Configured bare ids d := by
  constructor
  · rintro ⟨id', hid', hparse⟩
    rcases List.mem_cons.mp hid' with rfl | hid'
    · exact .inl hparse
    · exact .inr ⟨id', hid', hparse⟩
  · rintro (hparse | ⟨id', hid', hparse⟩)
    · exact ⟨id, List.mem_cons_self, hparse⟩
    · exact ⟨id', List.mem_cons_of_mem id hid', hparse⟩

theorem devid_eq {c s n : Nat} {d : CcwDevid} (hc : c < CSSID_MAX) (hs : s ≤ SSID_MAX) (hn : n ≤ DEVNO_MAX) :
    d = devid c s n ↔ c = d.cssid.toNat ∧ s = d.ssid.toNat ∧ n = d.devno.toNat := by
  obtain ⟨dc, ds, dn⟩ := d
  rw [CSSID_MAX] at hc
  rw [SSID_MAX] at hs
  rw [DEVNO_MAX] at hn
  rw [devid, CcwDevid.mk.injEq, ← UInt8.toNat_inj, ← UInt8.toNat_inj, ← UInt16.toNat_inj, UInt8.toNat_ofNat',
    UInt8.toNat_ofNat', UInt16.toNat_ofNat', Nat.mod_eq_of_lt (by omega), Nat.mod_eq_of_lt (by omega),
    Nat.mod_eq_of_lt (by omega)]
  exact ⟨fun h => ⟨h.1.symm, h.2.1.symm, h.2.2.symm⟩, fun h => ⟨h.1.symm, h.2.1.symm, h.2.2.symm⟩⟩

theorem collect_none : ∀ {ids : List (List UInt8)} {b : IdBitmap} {d : CcwDevid}, Shaped b → Configured bare ids d →
    CSSID_MAX ≤ d.cssid.toNat → ids.foldlM (collect_cb bare) b = none
  | [], _, _, _, h, _ => by
    obtain ⟨id, hid, -⟩ := h
    cases hid
  | id :: ids, b, d, hb, h, hd => by
    rw [List.foldlM_cons, collect_cb]
    cases hp : ccw_parse_devid_simple bare id with
    | none =>
      exact collect_none hb (((configured_cons bare).mp h).resolve_left fun h => (by rw [hp] at h; cases h)) hd
    | some d' =>
      dsimp only
      rcases Nat.lt_or_ge d'.cssid.toNat CSSID_MAX with hc | hc
      · have hssid := parse_ssid bare ((simple_eq bare).mp hp)
        have hdevno := d'.devno.toNat_lt
        obtain ⟨b', hb', hshape, -⟩ :=
          set_some hb hc hssid (show d'.devno.toNat ≤ DEVNO_MAX by rw [DEVNO_MAX]; omega)
        rw [hb']
        rcases (configured_cons bare).mp h with h | h
        · rw [hp] at h
          cases h
          omega
        · exact collect_none hshape h hd
      · rw [set_outside hb hc]
        rfl

theorem collect_some : ∀ {ids : List (List UInt8)} {b : IdBitmap}, Shaped b →
    (∀ d, Configured bare ids d → d.cssid.toNat < CSSID_MAX) →
    ∃ b', ids.foldlM (collect_cb bare) b = some b' ∧ Shaped b' ∧ ∀ c s d, c < CSSID_MAX →
      s ≤ SSID_MAX → d ≤ DEVNO_MAX →
      (id_bitmap_get b' c s d = some true ↔ Configured bare ids (devid c s d) ∨ id_bitmap_get b c s d = some true)
  | [], b, hb, _ => by
    refine ⟨b, rfl, hb, fun c s d _ _ _ => ⟨.inr, fun h => h.resolve_left fun h => ?_⟩⟩
    obtain ⟨id, hid, -⟩ := h
    cases hid
  | id :: ids, b, hb, h => by
    have htail : ∀ d, Configured bare ids d → d.cssid.toNat < CSSID_MAX := fun d hd =>
      h d ((configured_cons bare).mpr (.inr hd))
    rw [List.foldlM_cons, collect_cb]
    cases hp : ccw_parse_devid_simple bare id with
    | none =>
      obtain ⟨b', hb', hshape, hget⟩ := collect_some hb htail
      refine ⟨b', hb', hshape, fun c s d hc hs hd => (hget c s d hc hs hd).trans ?_⟩
      rw [configured_cons, hp]
      simp
    | some d' =>
      have hc := h d' ⟨id, List.mem_cons_self, hp⟩
      have hssid := parse_ssid bare ((simple_eq bare).mp hp)
      have hdevno := d'.devno.toNat_lt
      obtain ⟨b₁, hb₁, hshape₁, hget₁⟩ :=
        set_some hb hc hssid (show d'.devno.toNat ≤ DEVNO_MAX by rw [DEVNO_MAX]; omega)
      obtain ⟨b', hb', hshape, hget⟩ := collect_some hshape₁ htail
      dsimp only
      rw [hb₁]
      refine ⟨b', hb', hshape, fun c s d hc hs hd => (hget c s d hc hs hd).trans ?_⟩
      rw [hget₁ c s d hc hs hd, configured_cons, hp, Option.some_inj, devid_eq hc hs hd]
      tauto

end

end Zdev.Ccw
