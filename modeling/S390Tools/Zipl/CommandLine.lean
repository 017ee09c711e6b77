import S390Tools.Lib.Store

/-!
# The kernel command line (zipl/boot/stage3.c)

The stored line is copied to its place. An extra line in EBCDIC is converted where it
stands, and then replaces the stored line or is appended to it.
-/

namespace Zipl.Stage3

open Bytes

def COMMAND_LINE : Nat := 0x10480
def COMMAND_LINE_SIZE : Nat := 896
def COMMAND_LINE_EXTRA : Nat := 0xA000 - 0x400
def UNSPECIFIED_ADDRESS : UInt64 := 0xffffffffffffffff

def ebc_037 : List UInt8 :=
  [0x00, 0x01, 0x02, 0x03, 0x07, 0x09, 0x07, 0x7f, 0x07, 0x07, 0x07, 0x0b, 0x0c, 0x0d, 0x0e, 0x0f,
   0x10, 0x11, 0x12, 0x13, 0x07, 0x0a, 0x08, 0x07, 0x18, 0x19, 0x07, 0x07, 0x07, 0x07, 0x07, 0x07,
   0x07, 0x07, 0x1c, 0x07, 0x07, 0x0a, 0x17, 0x1b, 0x07, 0x07, 0x07, 0x07, 0x07, 0x05, 0x06, 0x07,
   0x07, 0x07, 0x16, 0x07, 0x07, 0x07, 0x07, 0x04, 0x07, 0x07, 0x07, 0x07, 0x14, 0x15, 0x07, 0x1a,
   0x20, 0xff, 0x83, 0x84, 0x85, 0xa0, 0x07, 0x86, 0x87, 0xa4, 0x9b, 0x2e, 0x3c, 0x28, 0x2b, 0x7c,
   0x26, 0x82, 0x88, 0x89, 0x8a, 0xa1, 0x8c, 0x07, 0x8d, 0xe1, 0x21, 0x24, 0x2a, 0x29, 0x3b, 0xaa,
   0x2d, 0x2f, 0x07, 0x8e, 0x07, 0x07, 0x07, 0x8f, 0x80, 0xa5, 0x07, 0x2c, 0x25, 0x5f, 0x3e, 0x3f,
   0x07, 0x90, 0x07, 0x07, 0x07, 0x07, 0x07, 0x07, 0x70, 0x60, 0x3a, 0x23, 0x40, 0x27, 0x3d, 0x22,
   0x07, 0x61, 0x62, 0x63, 0x64, 0x65, 0x66, 0x67, 0x68, 0x69, 0xae, 0xaf, 0x07, 0x07, 0x07, 0xf1,
   0xf8, 0x6a, 0x6b, 0x6c, 0x6d, 0x6e, 0x6f, 0x70, 0x71, 0x72, 0xa6, 0xa7, 0x91, 0x07, 0x92, 0x07,
   0xe6, 0x7e, 0x73, 0x74, 0x75, 0x76, 0x77, 0x78, 0x79, 0x7a, 0xad, 0xab, 0x07, 0x07, 0x07, 0x07,
   0x5e, 0x9c, 0x9d, 0xfa, 0x07, 0x07, 0x07, 0xac, 0xab, 0x07, 0x5b, 0x5d, 0x07, 0x07, 0x07, 0x07,
   0x7b, 0x41, 0x42, 0x43, 0x44, 0x45, 0x46, 0x47, 0x48, 0x49, 0x07, 0x93, 0x94, 0x95, 0xa2, 0x07,
   0x7d, 0x4a, 0x4b, 0x4c, 0x4d, 0x4e, 0x4f, 0x50, 0x51, 0x52, 0x07, 0x96, 0x81, 0x97, 0xa3, 0x98,
   0x5c, 0xf6, 0x53, 0x54, 0x55, 0x56, 0x57, 0x58, 0x59, 0x5a, 0xfd, 0x07, 0x99, 0x07, 0x07, 0x07,
   0x30, 0x31, 0x32, 0x33, 0x34, 0x35, 0x36, 0x37, 0x38, 0x39, 0x07, 0x07, 0x9a, 0x07, 0x07, 0x07]

def ebc_500 : List UInt8 :=
  [0x00, 0x01, 0x02, 0x03, 0x07, 0x09, 0x07, 0x7f, 0x07, 0x07, 0x07, 0x0b, 0x0c, 0x0d, 0x0e, 0x0f,
   0x10, 0x11, 0x12, 0x13, 0x07, 0x0a, 0x08, 0x07, 0x18, 0x19, 0x07, 0x07, 0x07, 0x07, 0x07, 0x07,
   0x07, 0x07, 0x1c, 0x07, 0x07, 0x0a, 0x17, 0x1b, 0x07, 0x07, 0x07, 0x07, 0x07, 0x05, 0x06, 0x07,
   0x07, 0x07, 0x16, 0x07, 0x07, 0x07, 0x07, 0x04, 0x07, 0x07, 0x07, 0x07, 0x14, 0x15, 0x07, 0x1a,
   0x20, 0xff, 0x83, 0x84, 0x85, 0xa0, 0x07, 0x86, 0x87, 0xa4, 0x9b, 0x2e, 0x3c, 0x28, 0x2b, 0x7c,
   0x26, 0x82, 0x88, 0x89, 0x8a, 0xa1, 0x8c, 0x07, 0x8d, 0xe1, 0x21, 0x24, 0x2a, 0x29, 0x3b, 0xaa,
   0x2d, 0x2f, 0x07, 0x8e, 0x07, 0x07, 0x07, 0x8f, 0x80, 0xa5, 0x07, 0x2c, 0x25, 0x5f, 0x3e, 0x3f,
   0x07, 0x90, 0x07, 0x07, 0x07, 0x07, 0x07, 0x07, 0x70, 0x60, 0x3a, 0x23, 0x40, 0x27, 0x3d, 0x22,
   0x07, 0x61, 0x62, 0x63, 0x64, 0x65, 0x66, 0x67, 0x68, 0x69, 0xae, 0xaf, 0x07, 0x07, 0x07, 0xf1,
   0xf8, 0x6a, 0x6b, 0x6c, 0x6d, 0x6e, 0x6f, 0x70, 0x71, 0x72, 0xa6, 0xa7, 0x91, 0x07, 0x92, 0x07,
   0xe6, 0x7e, 0x73, 0x74, 0x75, 0x76, 0x77, 0x78, 0x79, 0x7a, 0xad, 0xab, 0x07, 0x07, 0x07, 0x07,
   0x5e, 0x9c, 0x9d, 0xfa, 0x07, 0x07, 0x07, 0xac, 0xab, 0x07, 0x5b, 0x5d, 0x07, 0x07, 0x07, 0x07,
   0x7b, 0x41, 0x42, 0x43, 0x44, 0x45, 0x46, 0x47, 0x48, 0x49, 0x07, 0x93, 0x94, 0x95, 0xa2, 0x07,
   0x7d, 0x4a, 0x4b, 0x4c, 0x4d, 0x4e, 0x4f, 0x50, 0x51, 0x52, 0x07, 0x96, 0x81, 0x97, 0xa3, 0x98,
   0x5c, 0xf6, 0x53, 0x54, 0x55, 0x56, 0x57, 0x58, 0x59, 0x5a, 0xfd, 0x07, 0x99, 0x07, 0x07, 0x07,
   0x30, 0x31, 0x32, 0x33, 0x34, 0x35, 0x36, 0x37, 0x38, 0x39, 0x07, 0x07, 0x9a, 0x07, 0x07, 0x07]

def ebc (is_zvm : Bool) (c : UInt8) : UInt8 := (if is_zvm then ebc_037 else ebc_500).getD c.toNat 0

@[grind =] def ebcdic_to_ascii (is_zvm : Bool) (target source : Nat) : Nat → Store → Store
  | 0, s => s
  | l + 1, s =>
    let s := ebcdic_to_ascii is_zvm target source l s
    set s (target + l) (ebc is_zvm (s.mem (source + l)))

/-- The end of the line at `COMMAND_LINE`, if so many steps reach it. -/
def find_end (m : Nat → UInt8) : Nat → Nat → Option Nat
  | 0, _ => none
  | n + 1, i => if m (COMMAND_LINE + i) ≠ 0 then find_end m n (i + 1) else some i

def start_command_line (steps : Nat) (is_zvm : Bool) (_parm_addr _extra_parm : UInt64) (s : Store) : Option Store :=
  let s :=
    if _parm_addr ≠ UNSPECIFIED_ADDRESS then
      set (memcpy s COMMAND_LINE _parm_addr.toNat COMMAND_LINE_SIZE) (COMMAND_LINE + COMMAND_LINE_SIZE - 1) 0
    else s
  if _extra_parm = 0 ∨ s.mem COMMAND_LINE_EXTRA = 0 then some s
  else
    let s := ebcdic_to_ascii is_zvm COMMAND_LINE_EXTRA COMMAND_LINE_EXTRA COMMAND_LINE_SIZE s
    let start := count_while (fun i => s.mem (COMMAND_LINE_EXTRA + i) == 0x20) (COMMAND_LINE_SIZE + 1) 0
    let length := count_while (fun i => s.mem (COMMAND_LINE_EXTRA + i) != 0) (COMMAND_LINE_SIZE + 1) 0
    match find_end s.mem steps 0 with
    | none => none
    | some stop =>
      if s.mem (COMMAND_LINE_EXTRA + start) = 0x3d then
        some (memcpy s COMMAND_LINE (COMMAND_LINE_EXTRA + start) length)
      else
        -- unsigned
        let length :=
          if stop + 1 + length ≤ COMMAND_LINE_SIZE then length else (2 ^ 32 + COMMAND_LINE_SIZE - stop - 1) % 2 ^ 32
        let s := set s (COMMAND_LINE + stop) 0x20
        let stop := stop + 1
        let s := memcpy s (COMMAND_LINE + stop) (COMMAND_LINE_EXTRA + start) length
        some (set s (COMMAND_LINE + (stop + length)) 0)

/-! ## What the line should be -/

def extra (is_zvm : Bool) (e : List UInt8) : List UInt8 := (e.map (ebc is_zvm)).dropWhile (· == 0x20)

def line (is_zvm : Bool) (p e : List UInt8) : List UInt8 :=
  if e = [] then p
  else if (extra is_zvm e).head? = some 0x3d then extra is_zvm e
  else (p ++ 0x20 :: extra is_zvm e).take (COMMAND_LINE_SIZE - 1)

/-- The line stands at its place, and besides the extra line nothing outside was written. -/
structure Assembled (is_zvm : Bool) (p e : List UInt8) (s : Store) : Prop where
  line : CStr s.mem COMMAND_LINE (line is_zvm p e)
  inside : ∀ a, s.wrote a = true → (COMMAND_LINE ≤ a ∧ a < COMMAND_LINE + COMMAND_LINE_SIZE) ∨
    (COMMAND_LINE_EXTRA ≤ a ∧ a < COMMAND_LINE_EXTRA + COMMAND_LINE_SIZE)

/-- The stored line ends before `COMMAND_LINE` or stands behind it. A line that reaches to `COMMAND_LINE` is
copied over itself, and comes again and again from there on. -/
def Kept (parm_addr : Nat) (p : List UInt8) : Prop :=
  (COMMAND_LINE ≤ parm_addr ∨ parm_addr + p.length < COMMAND_LINE) ∨
    p.length = COMMAND_LINE_SIZE - 1 ∧
      ∀ i < COMMAND_LINE_SIZE - 1, p.getD i 0 = p.getD (i % (COMMAND_LINE - parm_addr)) 0

/-- Appended lines leave room for two more characters, and what replaces a line is ended by what it is copied
over or copied from. -/
def Fits (is_zvm : Bool) (m : Nat → UInt8) (parm_addr : Nat) (p e : List UInt8) : Prop :=
  if e = [] then Kept parm_addr p
  else if (extra is_zvm e).head? = some 0x3d then
    e.head? = some 0x40 ∨ m (parm_addr + e.length % (COMMAND_LINE - parm_addr)) = 0 ∨
      e.length = COMMAND_LINE_SIZE - 1
  else Kept parm_addr p ∧ p.length + 1 + e.length < COMMAND_LINE_SIZE

/-! ## The converted line -/

section
variable {is_zvm : Bool}

theorem getD_eq_iff {t : List UInt8} {v d : UInt8} {i n : Nat} (h : ∀ p ∈ t.zipIdx, p.1 = v ↔ p.2 = i)
    (hn : n < t.length) : t.getD n d = v ↔ n = i := by
  rw [List.getD_eq_getElem _ _ hn]
  exact h _ (List.mk_mem_zipIdx_iff_getElem?.mpr (List.getElem?_eq_getElem hn))

theorem ebc_tables : ∀ t ∈ [ebc_037, ebc_500], t.length = 256 ∧ (∀ p ∈ t.zipIdx, p.1 = 0 ↔ p.2 = 0) ∧
    ∀ p ∈ t.zipIdx, p.1 = 0x20 ↔ p.2 = 0x40 := by
  decide +kernel

theorem ebc_table (is_zvm : Bool) : (if is_zvm then ebc_037 else ebc_500) ∈ [ebc_037, ebc_500] := by
  cases is_zvm
  · exact List.mem_cons_of_mem _ List.mem_cons_self
  · exact List.mem_cons_self

theorem ebc_zero {c : UInt8} : ebc is_zvm c = 0 ↔ c = 0 := by
  obtain ⟨hlen, hzero, -⟩ := ebc_tables _ (ebc_table is_zvm)
  rw [ebc, getD_eq_iff hzero (by rw [hlen]; exact c.toNat_lt), ← UInt8.toNat_inj]
  rfl

theorem ebc_blank {c : UInt8} : ebc is_zvm c = 0x20 ↔ c = 0x40 := by
  obtain ⟨hlen, -, hblank⟩ := ebc_tables _ (ebc_table is_zvm)
  rw [ebc, getD_eq_iff hblank (by rw [hlen]; exact c.toNat_lt), ← UInt8.toNat_inj]
  rfl

theorem ebcdic_to_ascii_mem {t : Nat} (s : Store) : ∀ l a, (ebcdic_to_ascii is_zvm t t l s).mem a =
    if t ≤ a ∧ a < t + l then ebc is_zvm (s.mem a) else s.mem a
  | 0, a => by
    rw [if_neg (by omega)]
    rfl
  | l + 1, a => by
    rw [ebcdic_to_ascii]
    by_cases ha : a = t + l
    · rw [ha, set_same, ebcdic_to_ascii_mem s l, if_neg (by omega), if_pos (by omega)]
    · rw [set_other ha, ebcdic_to_ascii_mem s l]
      by_cases hin : t ≤ a ∧ a < t + l
      · rw [if_pos hin, if_pos (by omega)]
      · rw [if_neg hin, if_neg (by omega)]

theorem ebcdic_to_ascii_wrote {t : Nat} (s : Store) : ∀ l a, (ebcdic_to_ascii is_zvm t t l s).wrote a = true →
    (t ≤ a ∧ a < t + l) ∨ s.wrote a = true
  | 0, _, h => Or.inr h
  | l + 1, a, h => by
    rw [ebcdic_to_ascii] at h
    rcases set_wrote h with rfl | h
    · exact Or.inl ⟨by omega, by omega⟩
    · rcases ebcdic_to_ascii_wrote s l a h with h | h
      · exact Or.inl ⟨h.1, by omega⟩
      · exact Or.inr h

theorem converted {m : Nat → UInt8} {a : Nat} {e : List UInt8} (h : CStr m a e) :
    0 ∉ e.map (ebc is_zvm) ∧ ∀ i ≤ e.length, ebc is_zvm (m (a + i)) = (e.map (ebc is_zvm)).getD i 0 := by
  refine ⟨fun hmem => ?_, fun i hi => ?_⟩
  · obtain ⟨c, hc, h0⟩ := List.mem_map.mp hmem
    rw [ebc_zero.1 h0] at hc
    exact h.1 hc
  · rw [h.2 i hi, List.getD_eq_getElem?_getD, List.getD_eq_getElem?_getD, List.getElem?_map]
    cases e[i]? with
    | none => exact ebc_zero.2 rfl
    | some c => rfl

end

/-! ## Assembling -/

section
variable {is_zvm : Bool} {m : Nat → UInt8} {parm_addr : Nat} {p e : List UInt8}

/-- Memory with the stored line in place and the extra line converted. -/
structure Ready (m : Nat → UInt8) (parm_addr : Nat) (p : List UInt8) (x : List UInt8) (s : Store) : Prop where
  parm : ∀ i < COMMAND_LINE_SIZE, s.mem (COMMAND_LINE + i) =
    if i = COMMAND_LINE_SIZE - 1 then 0 else m (parm_addr + i % (COMMAND_LINE - parm_addr))
  stored : CStr s.mem COMMAND_LINE p
  extra : CStr s.mem COMMAND_LINE_EXTRA x
  inside : ∀ a, s.wrote a = true → (COMMAND_LINE ≤ a ∧ a < COMMAND_LINE + COMMAND_LINE_SIZE) ∨
    (COMMAND_LINE_EXTRA ≤ a ∧ a < COMMAND_LINE_EXTRA + COMMAND_LINE_SIZE)

/-- The line `q` at its place is the stored line `p`, or so long that nothing can be appended. -/
structure Copied (m : Nat → UInt8) (parm_addr : Nat) (p q : List UInt8) : Prop where
  nonzero : 0 ∉ q
  bytes : ∀ i ≤ q.length,
    (if i = COMMAND_LINE_SIZE - 1 then 0 else m (parm_addr + i % (COMMAND_LINE - parm_addr))) = q.getD i 0
  same : q = p ∨ q.length = COMMAND_LINE_SIZE - 1
  kept : Kept parm_addr p ↔ q = p

theorem Copied.length_lt {q : List UInt8} (h : Copied m parm_addr p q) (hplen : p.length < COMMAND_LINE_SIZE) :
    q.length < COMMAND_LINE_SIZE := by
  rcases h.same with rfl | hq
  · exact hplen
  · rw [hq]
    decide

theorem stored_line (hp : CStr m parm_addr p) (hplen : p.length < COMMAND_LINE_SIZE) :
    ∃ q, Copied m parm_addr p q := by
  by_cases hclear : COMMAND_LINE ≤ parm_addr ∨ parm_addr + p.length < COMMAND_LINE
  · refine ⟨p, hp.1, fun i hi => ?_, Or.inl rfl, iff_of_true (Or.inl hclear) rfl⟩
    have hmod : i % (COMMAND_LINE - parm_addr) = i := by
      rcases hclear with hle | hlt
      · rw [Nat.sub_eq_zero_of_le hle, Nat.mod_zero]
      · exact Nat.mod_eq_of_lt (by omega)
    rw [hmod]
    by_cases hlast : i = COMMAND_LINE_SIZE - 1
    · rw [if_pos hlast, getD_end (by omega)]
    · rw [if_neg hlast, hp.2 i hi]
  · have hmod : ∀ i, i % (COMMAND_LINE - parm_addr) < p.length := fun i =>
      Nat.lt_of_lt_of_le (Nat.mod_lt i (by omega)) (by omega)
    let q := (List.range (COMMAND_LINE_SIZE - 1)).map fun i => p.getD (i % (COMMAND_LINE - parm_addr)) 0
    have hqlen : q.length = COMMAND_LINE_SIZE - 1 := by rw [List.length_map, List.length_range]
    have hq : ∀ i < COMMAND_LINE_SIZE - 1, q.getD i 0 = p.getD (i % (COMMAND_LINE - parm_addr)) 0 := fun i hi => by
      rw [List.getD_eq_getElem q 0 (by omega), List.getElem_map, List.getElem_range]
    refine ⟨q, fun hmem => ?_, fun i hi => ?_, Or.inr hqlen, ?_⟩
    · obtain ⟨i, -, hi⟩ := List.mem_map.mp hmem
      exact getD_ne_zero hp.1 (hmod i) hi
    · by_cases hlast : i = COMMAND_LINE_SIZE - 1
      · rw [if_pos hlast, getD_end (by omega)]
      · rw [if_neg hlast, hq i (by omega), hp.2 _ (hmod i).le]
    · unfold Kept
      rw [or_iff_right hclear]
      constructor
      · rintro ⟨hlen, hsame⟩
        refine List.ext_getElem (hqlen.trans hlen.symm) fun i hi hi' => ?_
        rw [← List.getD_eq_getElem q 0 hi, ← List.getD_eq_getElem p 0 hi', hq i (by omega), hsame i (by omega)]
      · intro heq
        rw [heq] at hqlen hq
        exact ⟨hqlen, hq⟩

variable {q : List UInt8}

theorem copied (hq : Copied m parm_addr p q) (hplen : p.length < COMMAND_LINE_SIZE)
    (he : CStr m COMMAND_LINE_EXTRA e)
    (helen : e.length < COMMAND_LINE_SIZE) : Ready m parm_addr q e
      (set (memcpy (fresh m) COMMAND_LINE parm_addr COMMAND_LINE_SIZE)
        (COMMAND_LINE + COMMAND_LINE_SIZE - 1) 0) := by
  have hqlen := hq.length_lt hplen
  unfold COMMAND_LINE_SIZE at hqlen helen
  have hparm : ∀ i < COMMAND_LINE_SIZE,
      (set (memcpy (fresh m) COMMAND_LINE parm_addr COMMAND_LINE_SIZE) (COMMAND_LINE + COMMAND_LINE_SIZE - 1) 0).mem
        (COMMAND_LINE + i) =
          if i = COMMAND_LINE_SIZE - 1 then 0 else m (parm_addr + i % (COMMAND_LINE - parm_addr)) := by
    intro i hi
    by_cases hlast : i = COMMAND_LINE_SIZE - 1
    · rw [if_pos hlast, hlast, ← Nat.add_sub_assoc (by decide), set_same]
    · rw [if_neg hlast, set_other (by unfold COMMAND_LINE_SIZE COMMAND_LINE at *; omega), memcpy_smear hi]
      rfl
  refine ⟨hparm, ⟨hq.nonzero, fun i hi => ?_⟩, ⟨he.1, fun i hi => ?_⟩, fun a ha => ?_⟩
  · rw [hparm i (by unfold COMMAND_LINE_SIZE; omega), hq.bytes i hi]
  · rw [← he.2 i hi, set_other (by unfold COMMAND_LINE_SIZE COMMAND_LINE COMMAND_LINE_EXTRA; omega),
      memcpy_out (by unfold COMMAND_LINE COMMAND_LINE_EXTRA; omega)]
    rfl
  · rcases set_wrote ha with rfl | ha
    · exact Or.inl ⟨by unfold COMMAND_LINE_SIZE; omega, by unfold COMMAND_LINE_SIZE; omega⟩
    · rcases memcpy_wrote ha with ha | ha
      · exact Or.inl ha
      · cases ha

theorem Ready.convert {s : Store} (h : Ready m parm_addr p e s) (helen : e.length < COMMAND_LINE_SIZE) :
    Ready m parm_addr p (e.map (ebc is_zvm))
      (ebcdic_to_ascii is_zvm COMMAND_LINE_EXTRA COMMAND_LINE_EXTRA COMMAND_LINE_SIZE s) := by
  have hline : ∀ i, (ebcdic_to_ascii is_zvm COMMAND_LINE_EXTRA COMMAND_LINE_EXTRA COMMAND_LINE_SIZE
    s).mem (COMMAND_LINE + i) =
      s.mem (COMMAND_LINE + i) := fun i => by
    rw [ebcdic_to_ascii_mem, if_neg (by unfold COMMAND_LINE COMMAND_LINE_EXTRA COMMAND_LINE_SIZE; omega)]
  obtain ⟨hno, hconv⟩ := @converted is_zvm _ _ _ h.extra
  refine ⟨fun i hi => ?_, ⟨h.stored.1, fun i hi => ?_⟩, ⟨hno, fun i hi => ?_⟩, fun a ha => ?_⟩
  · rw [hline, h.parm i hi]
  · rw [hline, h.stored.2 i hi]
  · rw [List.length_map] at hi
    rw [ebcdic_to_ascii_mem, if_pos (by omega), hconv i hi]
  · rcases ebcdic_to_ascii_wrote s _ a ha with ha | ha
    · exact Or.inr ha
    · exact h.inside a ha

variable {x : List UInt8} {s : Store}

theorem find_end_eq {k : Nat} (hstop : s.mem (COMMAND_LINE + k) = 0) : ∀ {n i : Nat}, i ≤ k → k - i < n →
    (∀ j, i ≤ j → j < k → s.mem (COMMAND_LINE + j) ≠ 0) → find_end s.mem n i = some k
  | 0, i, _, hn, _ => absurd hn (Nat.not_lt_zero _)
  | n + 1, i, hi, hn, hne => by
    rw [find_end]
    by_cases hik : i = k
    · rw [hik, if_neg fun hn => hn hstop]
    · rw [if_pos (hne i (Nat.le_refl i) (by omega))]
      exact find_end_eq hstop (by omega) (by omega) fun j hj hjk => hne j (by omega) hjk

theorem Ready.stop (h : Ready m parm_addr p x s) {steps : Nat} (hsteps : p.length < steps) :
    find_end s.mem steps 0 = some p.length := by
  refine find_end_eq ?_ (Nat.zero_le _) (by omega) fun j _ hj => ?_
  · rw [h.stored.2 _ (Nat.le_refl _), getD_end (Nat.le_refl _)]
  · rw [h.stored.2 j hj.le]
    exact getD_ne_zero h.stored.1 hj

theorem Ready.length (h : Ready m parm_addr p x s) (hx : x.length < COMMAND_LINE_SIZE) :
    count_while (fun i => s.mem (COMMAND_LINE_EXTRA + i) != 0) (COMMAND_LINE_SIZE + 1) 0 = x.length := by
  refine count_while_eq ?_ (Nat.zero_le _) (by omega) fun j _ hj => ?_
  · rw [h.extra.2 _ (Nat.le_refl _), getD_end (Nat.le_refl _)]
    rfl
  · rw [h.extra.2 j hj.le, bne_iff_ne]
    exact getD_ne_zero h.extra.1 hj

theorem blanks (x : List UInt8) : ∃ k, k ≤ x.length ∧ x.dropWhile (· == 0x20) = x.drop k ∧ x.getD k 0 ≠ 0x20 ∧
    (∀ j < k, x.getD j 0 = 0x20) ∧ (k = 0 ↔ x.head? ≠ some 0x20) := by
  induction x with
  | nil =>
    exact ⟨0, Nat.le_refl _, rfl, by decide, fun j hj => absurd hj (Nat.not_lt_zero _), iff_of_true rfl (by simp)⟩
  | cons c x ih =>
    by_cases hc : c = 0x20
    · obtain ⟨k, hk, hdrop, hne, hall, -⟩ := ih
      refine ⟨k + 1, Nat.succ_le_succ hk, ?_, hne, fun j hj => ?_, iff_of_false (Nat.succ_ne_zero k) ?_⟩
      · have hb : (c == 0x20) = true := beq_iff_eq.mpr hc
        rw [List.dropWhile_cons, if_pos hb, hdrop, List.drop_succ_cons]
      · cases j with
        | zero => exact hc
        | succ j => exact hall j (by omega)
      · rw [List.head?_cons, hc]
        exact fun hn => hn rfl
    · refine ⟨0, Nat.zero_le _, ?_, hc, fun j hj => absurd hj (Nat.not_lt_zero _), iff_of_true rfl ?_⟩
      · have hb : ¬ (c == 0x20) = true := fun hn => hc (beq_iff_eq.mp hn)
        rw [List.dropWhile_cons, if_neg hb, List.drop_zero]
      · rw [List.head?_cons]
        exact fun hn => hc (Option.some.inj hn)

theorem Ready.start (h : Ready m parm_addr p x s) (hx : x.length < COMMAND_LINE_SIZE) {k : Nat} (hk : k ≤ x.length)
    (hne : x.getD k 0 ≠ 0x20) (hall : ∀ j < k, x.getD j 0 = 0x20) :
    count_while (fun i => s.mem (COMMAND_LINE_EXTRA + i) == 0x20) (COMMAND_LINE_SIZE + 1) 0 = k := by
  refine count_while_eq ?_ (Nat.zero_le _) (by omega) fun j _ hj => ?_
  · rw [h.extra.2 k hk]
    exact beq_false_of_ne hne
  · rw [h.extra.2 j (by omega), hall j hj]
    rfl

theorem getD_drop (x : List UInt8) (k i : Nat) : (x.drop k).getD i 0 = x.getD (k + i) 0 := by
  rw [List.getD_eq_getElem?_getD, List.getElem?_drop, List.getD_eq_getElem?_getD]

theorem Ready.replace (h : Ready m parm_addr p x s) (hx : x.length < COMMAND_LINE_SIZE) {k : Nat}
    (hk : k ≤ x.length) :
    (CStr (memcpy s COMMAND_LINE (COMMAND_LINE_EXTRA + k) x.length).mem COMMAND_LINE (x.drop k) ↔
        0 < k ∨ m (parm_addr + x.length % (COMMAND_LINE - parm_addr)) = 0 ∨ x.length = COMMAND_LINE_SIZE - 1) ∧
      ∀ a, (memcpy s COMMAND_LINE (COMMAND_LINE_EXTRA + k) x.length).wrote a = true →
        (COMMAND_LINE ≤ a ∧ a < COMMAND_LINE + COMMAND_LINE_SIZE) ∨
          (COMMAND_LINE_EXTRA ≤ a ∧ a < COMMAND_LINE_EXTRA + COMMAND_LINE_SIZE) := by
  have hno : 0 ∉ x.drop k := fun hmem => h.extra.1 (List.mem_of_mem_drop hmem)
  have extra_apart : COMMAND_LINE ≤ COMMAND_LINE_EXTRA + k ∨ COMMAND_LINE_EXTRA + k + x.length ≤ COMMAND_LINE := by
    unfold COMMAND_LINE COMMAND_LINE_EXTRA
    unfold COMMAND_LINE_SIZE at hx
    omega
  have hin : ∀ i < x.length - k, (memcpy s COMMAND_LINE (COMMAND_LINE_EXTRA + k) x.length).mem (COMMAND_LINE + i) =
      (x.drop k).getD i 0 := by
    intro i hi
    rw [memcpy_in (by omega) extra_apart, Nat.add_assoc, h.extra.2 (k + i) (by omega), getD_drop]
  refine ⟨?_, fun a ha => ?_⟩
  · by_cases h0 : 0 < k
    · refine iff_of_true ⟨hno, fun i hi => ?_⟩ (Or.inl h0)
      rw [List.length_drop] at hi
      rw [memcpy_in (by omega) extra_apart, Nat.add_assoc, h.extra.2 (k + i) (by omega), getD_drop]
    · obtain rfl : k = 0 := by omega
      have hend : (memcpy s COMMAND_LINE (COMMAND_LINE_EXTRA + 0) x.length).mem (COMMAND_LINE + x.length) =
          if x.length = COMMAND_LINE_SIZE - 1 then 0
          else m (parm_addr + x.length % (COMMAND_LINE - parm_addr)) := by
        rw [memcpy_out (by omega), h.parm _ hx]
      rw [or_iff_right h0]
      constructor
      · intro hstr
        have hlast := hstr.2 x.length (Nat.le_refl _)
        rw [hend, List.drop_zero, getD_end (Nat.le_refl _)] at hlast
        by_cases hfull : x.length = COMMAND_LINE_SIZE - 1
        · exact Or.inr hfull
        · rw [if_neg hfull] at hlast
          exact Or.inl hlast
      · intro hcond
        refine ⟨hno, fun i hi => ?_⟩
        rw [List.drop_zero] at hi
        by_cases hi' : i = x.length
        · rw [hi', hend, List.drop_zero, getD_end (Nat.le_refl _)]
          rcases hcond with hz | hfull
          · rw [hz, ite_self]
          · rw [if_pos hfull]
        · exact hin i (by omega)
  · rcases memcpy_wrote ha with ha | ha
    · exact Or.inl ⟨ha.1, by omega⟩
    · exact h.inside a ha

theorem Ready.append (h : Ready m parm_addr p x s) {k : Nat} (hk : k ≤ x.length)
    (hfit : p.length + 1 + x.length < COMMAND_LINE_SIZE) :
    CStr (set (memcpy (set s (COMMAND_LINE + p.length) 0x20) (COMMAND_LINE + (p.length + 1))
      (COMMAND_LINE_EXTRA + k) x.length)
        (COMMAND_LINE + (p.length + 1 + x.length)) 0).mem COMMAND_LINE (p ++ 0x20 :: x.drop k) ∧
      ∀ a, (set (memcpy (set s (COMMAND_LINE + p.length) 0x20) (COMMAND_LINE + (p.length + 1))
        (COMMAND_LINE_EXTRA + k) x.length)
        (COMMAND_LINE + (p.length + 1 + x.length)) 0).wrote a = true →
        (COMMAND_LINE ≤ a ∧ a < COMMAND_LINE + COMMAND_LINE_SIZE) ∨
          (COMMAND_LINE_EXTRA ≤ a ∧ a < COMMAND_LINE_EXTRA + COMMAND_LINE_SIZE) := by
  refine ⟨⟨fun hmem => ?_, fun i hi => ?_⟩, fun a ha => ?_⟩
  · rcases List.mem_append.mp hmem with hm | hm
    · exact h.stored.1 hm
    · rcases List.mem_cons.mp hm with hm | hm
      · cases hm
      · exact h.extra.1 (List.mem_of_mem_drop hm)
  · rw [List.length_append, List.length_cons, List.length_drop] at hi
    rcases lt_trichotomy i p.length with hlt | rfl | hgt
    · rw [set_other (by omega), memcpy_out (by omega), set_other (by omega), h.stored.2 i hlt.le,
        List.getD_append p _ 0 i hlt]
    · rw [set_other (by omega), memcpy_out (by omega), set_same,
        List.getD_append_right p _ 0 _ (Nat.le_refl _), Nat.sub_self]
      rfl
    · obtain ⟨j, rfl⟩ : ∃ j, i = p.length + 1 + j := ⟨i - (p.length + 1), by omega⟩
      have hget : (p ++ 0x20 :: x.drop k).getD (p.length + 1 + j) 0 = x.getD (k + j) 0 := by
        rw [List.getD_append_right p _ 0 _ (by omega), show p.length + 1 + j - p.length =
          j + 1 by omega, List.getD_cons_succ,
          getD_drop]
      rw [hget]
      by_cases hj : j = x.length
      · rw [hj, set_same, getD_end (by omega)]
      · rw [set_other (by omega), ← Nat.add_assoc COMMAND_LINE (p.length + 1) j, memcpy_in (by omega)
            (by unfold COMMAND_LINE COMMAND_LINE_EXTRA; unfold COMMAND_LINE_SIZE at hfit; omega),
          set_other (by
            unfold COMMAND_LINE COMMAND_LINE_EXTRA
            unfold COMMAND_LINE_SIZE at hfit
            omega), Nat.add_assoc,
          h.extra.2 (k + j) (by omega)]
  · rcases set_wrote ha with rfl | ha
    · exact Or.inl ⟨by omega, by omega⟩
    · rcases memcpy_wrote ha with ha | ha
      · exact Or.inl ⟨by omega, by omega⟩
      · rcases set_wrote ha with rfl | ha
        · exact Or.inl ⟨by omega, by omega⟩
        · exact h.inside a ha

theorem set_outside (t : Store) : ¬∀ a, (set t (COMMAND_LINE + COMMAND_LINE_SIZE) 0).wrote a = true →
    (COMMAND_LINE ≤ a ∧ a < COMMAND_LINE + COMMAND_LINE_SIZE) ∨
      (COMMAND_LINE_EXTRA ≤ a ∧ a < COMMAND_LINE_EXTRA + COMMAND_LINE_SIZE) := by
  intro hall
  rcases hall _ set_wrote_same with h | h
  · exact absurd h.2 (lt_irrefl _)
  · have hlt := h.2
    unfold COMMAND_LINE COMMAND_LINE_EXTRA COMMAND_LINE_SIZE at hlt
    omega

end

theorem head_drop {x : List UInt8} {k : Nat} : (x.drop k).head? = some 0x3d ↔ x.getD k 0 = 0x3d := by
  rw [List.head?_drop, List.getD_eq_getElem?_getD]
  cases x[k]? with
  | none => exact iff_of_false (by simp) (by decide)
  | some c => exact Option.some_inj

/-- The line is about to be assembled from the converted extra line behind its `k` blanks. -/
structure Started (is_zvm : Bool) (m : Nat → UInt8) (parm_addr : Nat) (p e : List UInt8) (s : Store) (k : Nat)
    (result : Option Store) : Prop where
  ready : Ready m parm_addr p (e.map (ebc is_zvm)) s
  le : k ≤ (e.map (ebc is_zvm)).length
  extra : extra is_zvm e = (e.map (ebc is_zvm)).drop k
  zero : k = 0 ↔ (e.map (ebc is_zvm)).head? ≠ some 0x20
  result : result =
    if (e.map (ebc is_zvm)).getD k 0 = 0x3d then
      some (memcpy s COMMAND_LINE (COMMAND_LINE_EXTRA + k) (e.map (ebc is_zvm)).length)
    else
      let length := if p.length + 1 + (e.map (ebc is_zvm)).length ≤ COMMAND_LINE_SIZE then (e.map
        (ebc is_zvm)).length
        else (2 ^ 32 + COMMAND_LINE_SIZE - p.length - 1) % 2 ^ 32
      some (set (memcpy (set s (COMMAND_LINE + p.length) 0x20) (COMMAND_LINE + (p.length + 1))
        (COMMAND_LINE_EXTRA + k) length)
        (COMMAND_LINE + (p.length + 1 + length)) 0)

section
variable {steps : Nat} {is_zvm : Bool} {_parm_addr _extra_parm : UInt64} {m : Nat → UInt8} {p q e : List UInt8}
  (hsteps : COMMAND_LINE_SIZE ≤ steps) (hparm : _parm_addr ≠ UNSPECIFIED_ADDRESS) (hextra : _extra_parm ≠ 0)
  (hq : Copied m _parm_addr.toNat p q) (hplen : p.length < COMMAND_LINE_SIZE)
  (he : CStr m COMMAND_LINE_EXTRA e) (helen : e.length < COMMAND_LINE_SIZE)
include hsteps hparm hextra hq hplen he helen

theorem started (hnil : e ≠ []) : ∃ s k, Started is_zvm m _parm_addr.toNat q e s k
    (start_command_line steps is_zvm _parm_addr _extra_parm (fresh m)) := by
  have hcopied := copied hq hplen he helen
  have hqlen := hq.length_lt hplen
  unfold start_command_line
  rw [if_pos hparm]
  generalize set (memcpy (fresh m) COMMAND_LINE _parm_addr.toNat COMMAND_LINE_SIZE)
    (COMMAND_LINE + COMMAND_LINE_SIZE - 1) 0 = s₀ at hcopied
  dsimp only
  rw [if_neg fun hn => hn.elim hextra fun hz => hnil (hcopied.extra.nil_iff.mp hz)]
  have hready := @Ready.convert is_zvm _ _ _ _ _ hcopied helen
  generalize ebcdic_to_ascii is_zvm COMMAND_LINE_EXTRA COMMAND_LINE_EXTRA COMMAND_LINE_SIZE s₀ = s at hready
  have hx : (e.map (ebc is_zvm)).length < COMMAND_LINE_SIZE := by rwa [List.length_map]
  obtain ⟨k, hk, hdrop, hne, hall, hzero⟩ := blanks (e.map (ebc is_zvm))
  refine ⟨s, k, hready, hk, hdrop, hzero, ?_⟩
  rw [hready.start hx hk hne hall, hready.length hx, hready.stop (by omega), hready.extra.2 k hk]

omit hsteps hextra in
theorem empty_extra (hnil : e = []) : ∃ s,
    start_command_line steps is_zvm _parm_addr _extra_parm (fresh m) = some s ∧
    (Assembled is_zvm p e s ↔ Kept _parm_addr.toNat p) := by
  have hcopied := copied hq hplen he helen
  unfold start_command_line
  rw [if_pos hparm]
  dsimp only
  rw [if_pos (Or.inr (hcopied.extra.nil_iff.mpr hnil))]
  refine ⟨_, rfl, Iff.trans ⟨fun h => ?_, fun heq => ⟨?_, hcopied.inside⟩⟩ hq.kept.symm⟩
  · have hline := h.line
    rw [line, if_pos hnil] at hline
    exact hcopied.stored.unique hline
  · rw [line, if_pos hnil, ← heq]
    exact hcopied.stored

end

section
variable {is_zvm : Bool} {m : Nat → UInt8} {parm_addr : Nat} {p q e : List UInt8} {s : Store} {k : Nat}
  {result : Option Store} (h : Started is_zvm m parm_addr q e s k result) (hnil : e ≠ [])
  (helen : e.length < COMMAND_LINE_SIZE)
include h hnil helen

theorem Started.replaced (hrep : (Stage3.extra is_zvm e).head? = some 0x3d) : ∃ t, result = some t ∧
    (Assembled is_zvm p e t ↔ e.head? = some 0x40 ∨
      m (parm_addr + e.length % (COMMAND_LINE - parm_addr)) = 0 ∨ e.length = COMMAND_LINE_SIZE - 1) := by
  have hx : (e.map (ebc is_zvm)).length < COMMAND_LINE_SIZE := by rwa [List.length_map]
  have hline : line is_zvm p e = (e.map (ebc is_zvm)).drop k := by
    rw [line, if_neg hnil, if_pos hrep, h.extra]
  rw [h.extra] at hrep
  obtain ⟨hstr, hinside⟩ := h.ready.replace hx h.le
  refine ⟨_, h.result.trans (if_pos (head_drop.1 hrep)), ?_⟩
  have hblank : 0 < k ↔ e.head? = some 0x40 := by
    rw [Nat.pos_iff_ne_zero, Ne, h.zero, Ne, not_not, List.head?_map]
    cases e.head? with
    | none => exact iff_of_false (by simp) (by simp)
    | some c =>
      rw [Option.map_some, Option.some_inj, Option.some_inj]
      exact ebc_blank
  rw [List.length_map, hblank] at hstr
  refine Iff.trans ⟨fun ha => ?_, fun ha => ⟨?_, hinside⟩⟩ hstr
  · have hright := ha.line
    rw [hline] at hright
    rwa [List.length_map] at hright
  · rw [hline, List.length_map]
    exact ha

omit helen in
theorem Started.appended (hq : Copied m parm_addr p q) (hplen : p.length < COMMAND_LINE_SIZE)
    (hrep : ¬ (Stage3.extra is_zvm e).head? = some 0x3d) : ∃ t, result = some t ∧
    (Assembled is_zvm p e t ↔ Kept parm_addr p ∧ p.length + 1 + e.length < COMMAND_LINE_SIZE) := by
  have hno := hrep
  have hqlen := hq.length_lt hplen
  rw [h.extra] at hno
  refine ⟨_, h.result.trans (if_neg fun hn => hno (head_drop.2 hn)), ?_⟩
  by_cases hfit : q.length + 1 + e.length < COMMAND_LINE_SIZE
  · have hfit' : q.length + 1 + (e.map (ebc is_zvm)).length < COMMAND_LINE_SIZE := by rwa [List.length_map]
    obtain ⟨hstr, hinside⟩ := h.ready.append h.le hfit'
    obtain rfl : q = p := hq.same.resolve_right (by omega)
    rw [if_pos hfit'.le]
    refine iff_of_true ⟨?_, hinside⟩ ⟨hq.kept.2 rfl, hfit⟩
    have hline : line is_zvm q e = q ++ 0x20 :: (e.map (ebc is_zvm)).drop k := by
      rw [line, if_neg hnil, if_neg hrep, h.extra]
      refine List.take_of_length_le ?_
      rw [List.length_append, List.length_cons, List.length_drop]
      omega
    rw [hline]
    exact hstr
  · refine iff_of_false (fun hassembled => ?_) fun hright => hfit (hq.kept.1 hright.1 ▸ hright.2)
    have hlen : q.length + 1 + (if q.length + 1 + (e.map (ebc is_zvm)).length ≤ COMMAND_LINE_SIZE then
        (e.map (ebc is_zvm)).length else (2 ^ 32 + COMMAND_LINE_SIZE - q.length - 1) % 2 ^ 32) =
          COMMAND_LINE_SIZE := by
      rw [List.length_map]
      unfold COMMAND_LINE_SIZE at *
      split
      · omega
      · rw [show 2 ^ 32 + 896 - q.length - 1 = 896 - q.length - 1 + 2 ^ 32 by omega, Nat.add_mod_right,
          Nat.mod_eq_of_lt (by omega)]
        omega
    rw [hlen] at hassembled
    exact set_outside _ hassembled.inside

end

theorem command_line_iff (steps : Nat) (is_zvm : Bool) (_parm_addr _extra_parm : UInt64)
    (m : Nat → UInt8) (p e : List UInt8)
    (hsteps : COMMAND_LINE_SIZE ≤ steps) (hparm : _parm_addr ≠ UNSPECIFIED_ADDRESS) (hextra : _extra_parm ≠ 0)
    (hp : CStr m _parm_addr.toNat p) (hplen : p.length < COMMAND_LINE_SIZE)
    (he : CStr m COMMAND_LINE_EXTRA e) (helen : e.length < COMMAND_LINE_SIZE) :
    ∃ s, start_command_line steps is_zvm _parm_addr _extra_parm (fresh m) = some s ∧
      (Assembled is_zvm p e s ↔ Fits is_zvm m _parm_addr.toNat p e) := by
  obtain ⟨q, hq⟩ := stored_line hp hplen
  unfold Fits
  by_cases hnil : e = []
  · rw [if_pos hnil]
    exact empty_extra hparm hq hplen he helen hnil
  · obtain ⟨s, k, hstart⟩ := @started steps is_zvm _ _ m p q e hsteps hparm hextra hq hplen he helen hnil
    rw [if_neg hnil]
    by_cases hrep : (extra is_zvm e).head? = some 0x3d
    · rw [if_pos hrep]
      exact hstart.replaced hnil helen hrep
    · rw [if_neg hrep]
      exact hstart.appended hnil hq hplen hrep

/-! ## Fixed lines -/

def two_lines (p e : List UInt8) (a : Nat) : UInt8 :=
  if COMMAND_LINE_EXTRA ≤ a then e.getD (a - COMMAND_LINE_EXTRA) 0 else p.getD a 0

theorem two_lines_cstr {p e : List UInt8} (hp : 0 ∉ p) (he : 0 ∉ e) (hplen : p.length < COMMAND_LINE_SIZE) :
    CStr (two_lines p e) 0 p ∧ CStr (two_lines p e) COMMAND_LINE_EXTRA e := by
  refine ⟨⟨hp, fun i hi => ?_⟩, ⟨he, fun i _ => ?_⟩⟩
  · rw [two_lines, if_neg (by unfold COMMAND_LINE_EXTRA; unfold COMMAND_LINE_SIZE at hplen; omega), Nat.zero_add]
  · rw [two_lines, if_pos (Nat.le_add_right _ _), Nat.add_sub_cancel_left]

/-- ` BOOT_IMAGE=1`, which the menu appends to what is typed. -/
def boot_image : List UInt8 := [0x40, 0xc2, 0xd6, 0xd6, 0xe3, 0x6d, 0xc9, 0xd4, 0xc1, 0xc7, 0xc5, 0x7e, 0xf1]

/-- `ab` and a typed `a`. -/
theorem command_line_appended :
    ∃ s, start_command_line 896 false 0 1 (fresh (two_lines [0x61, 0x62] (0x81 :: boot_image))) = some s ∧
      Assembled false [0x61, 0x62] (0x81 :: boot_image) s := by
  have hlines : CStr (two_lines [0x61, 0x62] (0x81 :: boot_image)) 0 [0x61, 0x62] ∧
      CStr (two_lines [0x61, 0x62] (0x81 :: boot_image)) COMMAND_LINE_EXTRA (0x81 :: boot_image) :=
    two_lines_cstr (by decide) (by decide) (by decide)
  obtain ⟨s, hs, hiff⟩ := command_line_iff 896 false 0 1 _ _ _ (by decide) (by decide)
    (by decide) hlines.1 (by decide)
    hlines.2 (by decide)
  refine ⟨s, hs, hiff.mpr ?_⟩
  rw [Fits, if_neg (List.cons_ne_nil _ _), if_neg (by decide)]
  exact ⟨Or.inl (Or.inr (by decide)), by decide⟩

/-- Of a line of 20 characters the last six are left behind a typed `=`. -/
theorem rest_left : ¬∀ (m : Nat → UInt8) (p e : List UInt8), CStr m 0 p → p.length < COMMAND_LINE_SIZE →
    CStr m COMMAND_LINE_EXTRA e → e.length < COMMAND_LINE_SIZE →
      ∃ s, start_command_line 896 false 0 1 (fresh m) = some s ∧ Assembled false p e s := by
  intro hall
  have hlines : CStr (two_lines (List.replicate 20 0x61) (0x7e :: boot_image)) 0 (List.replicate 20 0x61) ∧
      CStr (two_lines (List.replicate 20 0x61) (0x7e :: boot_image)) COMMAND_LINE_EXTRA (0x7e :: boot_image) :=
    two_lines_cstr (by decide) (by decide) (by decide)
  obtain ⟨q, hq⟩ := stored_line hlines.1 (by decide)
  obtain ⟨s, k, hstart⟩ := @started 896 false 0 1 _ _ _ _ (by decide) (by decide)
    (by decide) hq (by decide) hlines.2
    (by decide) (List.cons_ne_nil _ _)
  obtain ⟨t, ht, hiff⟩ := hstart.replaced (List.cons_ne_nil _ _) (by decide) (by decide)
  obtain ⟨t', ht', hassembled⟩ := hall _ _ _ hlines.1 (by decide) hlines.2 (by decide)
  rw [ht, Option.some.injEq] at ht'
  rw [← ht'] at hassembled
  rcases hiff.mp hassembled with h | h | h
  · cases h
  · cases h
  · cases h

end Zipl.Stage3
