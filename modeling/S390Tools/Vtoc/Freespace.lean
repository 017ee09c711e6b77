import S390Tools.Lib.SlotTable
import S390Tools.Vtoc.Labels

/-!
# Free space labels

The format 5 label lists free extents as a first track, whole cylinders and
remaining tracks, the format 7 label as a first and a last track. Both are slot
tables with the same loops; `fmt5` and `fmt7` are their tests and joins and
`cut5`, `cut7` what removing a range does to one extent.
-/

namespace Vtoc

open Word Ranges SlotTable

/-! ## Format 5 -/

/-- The end of an extent, in the `int` arithmetic of the comparisons. -/
def Ds5ext.stop (trk : Nat) (e : Ds5ext) : Nat := e.t + e.fc * trk + e.ft

def fmt5 (trk : Nat) : Kind Ds5ext where
  zero := .zero
  isEmpty := fun ext => ext.t + ext.fc + ext.ft == 0
  overlaps := fun new ext =>
    (decide (new.t < ext.t) && decide (new.stop trk > ext.t)) ||
    (decide (new.t > ext.t) && decide (ext.stop trk > new.t))
  precedes := fun ext tmp => ext.stop trk == tmp.t
  succeeds := fun ext tmp => tmp.stop trk == ext.t
  joinPred := fun ext tmp =>
    ⟨ext.t, u16 (ext.fc + (tmp.fc + (tmp.ft + ext.ft) / trk) : Nat), u8 ((tmp.ft + ext.ft) % trk : Nat)⟩
  joinSucc := fun ext tmp =>
    ⟨tmp.t, u16 (ext.fc + (tmp.fc + (tmp.ft + ext.ft) / trk) : Nat), u8 ((tmp.ft + ext.ft) % trk : Nat)⟩
  key := fun ext => ext.t

/-- `fc` and `ft` of `ext` after a piece of `b` cylinders and `c` tracks is gone. -/
def Ds5ext.less (ext : Ds5ext) (trk b c : Nat) : Nat × Nat :=
  if c > ext.ft then (u16 ((ext.fc : Int) - (b + 1)), u8 ((ext.ft : Int) - (c - trk)))
  else (u16 ((ext.fc : Int) - b), u8 ((ext.ft : Int) - c))

def cut5 (trk a b c : Nat) (ext : Ds5ext) : Cut Ds5ext :=
  if a = ext.t ∧ b = ext.fc ∧ c = ext.ft then .whole
  else if a = ext.t ∧ (b < ext.fc ∨ c < ext.ft) then
    .shrink ⟨u16 (ext.t + b * trk + c : Nat), (ext.less trk b c).1, (ext.less trk b c).2⟩
  else if ext.t < a ∧ ext.stop trk = a + b * trk + c then
    .shrink ⟨ext.t, (ext.less trk b c).1, (ext.less trk b c).2⟩
  else if a > ext.t ∧ ext.stop trk > a + b * trk + c then
    let x := u16 (a + b * trk + c : Nat)
    let w := u16 ((ext.stop trk : Int) - (a + b * trk + c : Nat))
    .split ⟨ext.t, u16 ((a - ext.t) / trk : Nat), u8 ((a - ext.t) % trk : Nat)⟩ ⟨x, w / trk, u8 (w % trk : Nat)⟩
  else if a < ext.t ∧ a + b * trk + c > ext.t ∧ a + b * trk + c < ext.stop trk then .fault .mismatch
  else if a > ext.t ∧ a < ext.stop trk ∧ a + b * trk + c > ext.stop trk then .fault .mismatchBehind
  else .miss

/-! ## Format 7 -/

def fmt7 : Kind Ds7ext where
  zero := .zero
  isEmpty := fun ext => u32 (ext.a + ext.b : Nat) == 0
  overlaps := fun new ext =>
    (decide (new.a < ext.a) && decide (new.b > ext.a) && decide (new.b < ext.b)) ||
    (decide (new.a > ext.a) && decide (new.a < ext.b) && decide (new.b > ext.b))
  precedes := fun ext tmp => ext.b == tmp.a
  succeeds := fun ext tmp => ext.a == tmp.b
  joinPred := fun ext tmp => ⟨ext.a, tmp.b⟩
  joinSucc := fun ext tmp => ⟨tmp.a, ext.b⟩
  key := fun ext => ext.a

def cut7 (a b : Nat) (ext : Ds7ext) : Cut Ds7ext :=
  if a = ext.a ∧ b = ext.b then .whole
  else if a = ext.a ∧ b < ext.b then .shrink ⟨b, ext.b⟩
  else if a > ext.a ∧ b = ext.b then .shrink ⟨ext.a, a⟩
  else if a > ext.a ∧ b < ext.b then .split ⟨ext.a, a⟩ ⟨b, ext.b⟩
  else if (a < ext.a ∧ b > ext.a) ∨ (a < ext.b ∧ b > ext.b) then .fault .mismatch
  else .miss

/-! ## Updates of the labels -/

inductive Bug
  | fmt5 (f : Fault)
  | fmt7 (f : Fault)
  deriving DecidableEq

def Bug.text : Bug → String
  | .fmt5 .overlapping => "BUG: overlapping free space extents in FMT5 DSCB!\nexiting...\n"
  | .fmt5 .noFree => "BUG: no free FMT5 DSCB extent found!\nexiting...\n"
  | .fmt5 .mismatch =>
    "BUG: corresponding free space extent doesn't match free space currently shown in FMT5 DSCB!\nexiting...\n"
  | .fmt5 .mismatchBehind => "BUG: specified free space extent for deleting doesn't match free space " ++
      "currently shown in FMT5 DSCB!\nexiting...\n"
  | .fmt5 .notFound => "BUG: specified free space extent for deleting not found in FMT5 DSCB!\nexiting...\n"
  | .fmt7 .overlapping => "BUG: overlapping free space extents in FMT7 DSCB!\nexiting...\n"
  | .fmt7 .noFree => "BUG: no free FMT7 DSCB extent found!\nexiting...\n"
  | .fmt7 .notFound => "BUG: specified free space extent for deleting not found in FMT7 DSCB!\nexiting...\n"
  | .fmt7 _ => "BUG: specified free space extent for deleting doesn't match free space " ++
      "currently shown in FMT7 DSCB!\nexiting...\n"

def vtoc_update_format5_label_add (f5 : Format5Label) (trk a b c : Nat) : Except Bug Format5Label :=
  match add (fmt5 trk) f5.exts ⟨a, b, c⟩ with
  | .error f => .error (.fmt5 f)
  | .ok exts => .ok { f5 with exts }

def vtoc_update_format5_label_del (f5 : Format5Label) (trk a b c : Nat) : Except Bug Format5Label :=
  match del (fmt5 trk) false (cut5 trk a b c) f5.exts with
  | .error f => .error (.fmt5 f)
  | .ok exts => .ok { f5 with exts }

def vtoc_reorganize_FMT5_extents (trk : Nat) (f5 : Format5Label) : Format5Label :=
  { f5 with exts := reorganize (fmt5 trk) f5.exts }

def vtoc_update_format7_label_add (f7 : Format7Label) (a b : Nat) : Except Bug Format7Label :=
  match add fmt7 f7.exts ⟨a, b⟩ with
  | .error f => .error (.fmt7 f)
  | .ok exts => .ok { f7 with exts }

def vtoc_update_format7_label_del (f7 : Format7Label) (a b : Nat) : Except Bug Format7Label :=
  match del fmt7 true (cut7 a b) f7.exts with
  | .error f => .error (.fmt7 f)
  | .ok exts => .ok { f7 with exts }

def vtoc_reorganize_FMT7_extents (f7 : Format7Label) : Format7Label :=
  { f7 with exts := reorganize fmt7 f7.exts }

structure FreeLabels where
  f4 : Format4Label
  f5 : Format5Label
  f7 : Format7Label

def announce (f4 : Format4Label) : Format4Label :=
  { f4 with DS4VTOCI := 0xa0, DS4EFLVL := 0x07, DS4EFPTR := vtoc_set_cchhb 0x0000 0x0001 0x03 }

def vtoc_set_freespace (l : FreeLabels) (ch : Char) (start stop cyl trk : Nat) : Except Bug FreeLabels :=
  if u32 (cyl * trk : Nat) > BIG_DISK_SIZE then
    let f7 :=
      if ch = '+' then vtoc_update_format7_label_add l.f7 start (u32 (stop + 1 : Nat))
      else if ch = '-' then vtoc_update_format7_label_del l.f7 start (u32 (stop + 1 : Nat))
      else .ok l.f7
    match f7 with
    | .error b => .error b
    | .ok f7 => .ok { l with f4 := announce l.f4, f7 := vtoc_reorganize_FMT7_extents f7 }
  else
    let len := u32 ((stop : Int) - start + 1)
    let x := u16 start
    let y := u16 (len / trk : Nat)
    let z := u8 (len % trk : Nat)
    let f5 :=
      if ch = '+' then vtoc_update_format5_label_add l.f5 trk x y z
      else if ch = '-' then vtoc_update_format5_label_del l.f5 trk x y z
      else .ok l.f5
    match f5 with
    | .error b => .error b
    | .ok f5 => .ok { l with f5 := vtoc_reorganize_FMT5_extents trk f5 }

/-! ## The extents as ranges of tracks -/

def Ds5ext.span (trk : Nat) (e : Ds5ext) : Nat × Nat := (e.t, e.stop trk)

/-- An extent behind the first track whose remaining tracks are no whole cylinder. -/
structure Ds5ext.Ok (trk : Nat) (e : Ds5ext) : Prop where
  pos : 0 < e.t
  rest : e.ft < trk
  lt : e.t < e.stop trk
  le : e.stop trk ≤ BIG_DISK_SIZE

def Ds7ext.span (e : Ds7ext) : Nat × Nat := (e.a, e.b)

/-- Up to half of the 32-bit track numbers, the sum of the limits cannot wrap to zero. -/
structure Ds7ext.Ok (e : Ds7ext) : Prop where
  pos : 0 < e.a
  lt : e.a < e.b
  le : e.b ≤ 2147483648

/-- The extent of format 5 that holds the tracks from `a` up to, not including, `b`. -/
def ext5 (trk a b : Nat) : Ds5ext := ⟨a, (b - a) / trk, (b - a) % trk⟩

theorem ext5_stop {trk a b : Nat} (hab : a < b) : (ext5 trk a b).stop trk = b := by
  have := Nat.div_add_mod' (b - a) trk
  simp only [ext5, Ds5ext.stop]
  omega

theorem ext5_span {trk a b : Nat} (hab : a < b) : (ext5 trk a b).span trk = (a, b) := by
  rw [Ds5ext.span, ext5_stop hab]; rfl

theorem ext5_ok {trk a b : Nat} (ht : 0 < trk) (ha : 0 < a) (hab : a < b) (hb : b ≤ BIG_DISK_SIZE) :
    (ext5 trk a b).Ok trk := by
  have hs : (ext5 trk a b).stop trk = b := ext5_stop hab
  exact ⟨ha, Nat.mod_lt _ ht, by rw [hs]; exact hab, by rw [hs]; exact hb⟩

theorem Ds5ext.Ok.eq_ext5 {trk : Nat} {e : Ds5ext} (h : e.Ok trk) : e = ext5 trk e.t (e.stop trk) := by
  have hr := h.rest
  have h₁ : e.stop trk - e.t = e.ft + trk * e.fc := by
    simp only [Ds5ext.stop]; rw [Nat.mul_comm trk]; omega
  have h₂ : (e.ft + trk * e.fc) / trk = e.fc := by
    rw [Nat.add_mul_div_left _ _ (by omega), Nat.div_eq_of_lt hr, Nat.zero_add]
  have h₃ : (e.ft + trk * e.fc) % trk = e.ft := by
    rw [Nat.add_mul_mod_self_left, Nat.mod_eq_of_lt hr]
  cases e
  simp only [ext5, h₁]
  simp only at h₂ h₃
  rw [h₂, h₃]

theorem Ds5ext.Ok.span_inj {trk : Nat} {e e' : Ds5ext} (h : e.Ok trk) (h' : e'.Ok trk)
    (hs : e.span trk = e'.span trk) : e = e' := by
  rw [h.eq_ext5, h'.eq_ext5]
  simp only [Ds5ext.span, Prod.mk.injEq] at hs
  rw [hs.1, hs.2]

theorem Ds7ext.span_inj {e e' : Ds7ext} (hs : e.span = e'.span) : e = e' := by
  cases e; cases e'
  simpa [Ds7ext.span] using hs

theorem join5_ok {trk t : Nat} {e e' : Ds5ext} (ht : 0 < trk) (ht' : trk ≤ 255) (htpos : 0 < t)
    (he : e.Ok trk) (he' : e'.Ok trk) (hle : t + (e.stop trk - e.t) + (e'.stop trk - e'.t) ≤ BIG_DISK_SIZE) :
    (⟨t, u16 (e.fc + (e'.fc + (e'.ft + e.ft) / trk) : Nat), u8 ((e'.ft + e.ft) % trk : Nat)⟩ : Ds5ext).Ok trk ∧
      (⟨t, u16 (e.fc + (e'.fc + (e'.ft + e.ft) / trk) : Nat), u8 ((e'.ft + e.ft) % trk : Nat)⟩ : Ds5ext).span trk =
        (t, t + (e.stop trk - e.t) + (e'.stop trk - e'.t)) := by
  have h₁ := he.lt
  have h₂ := he'.lt
  simp only [Ds5ext.stop, BIG_DISK_SIZE] at h₁ h₂ hle
  have hdm := Nat.div_add_mod' (e'.ft + e.ft) trk
  have hmod := Nat.mod_lt (e'.ft + e.ft) ht
  have hdiv : (e'.ft + e.ft) / trk ≤ e'.ft + e.ft := Nat.div_le_self _ _
  have hfc := Nat.le_mul_of_pos_right e.fc ht
  have hfc' := Nat.le_mul_of_pos_right e'.fc ht
  generalize (e'.ft + e.ft) / trk = q at *
  generalize (e'.ft + e.ft) % trk = m at *
  have hu : u16 ((e.fc + (e'.fc + q) : Nat) : Int) = e.fc + (e'.fc + q) := by apply u16_eq <;> omega
  have hv : u8 ((m : Nat) : Int) = m := by apply u8_eq <;> omega
  have hmul : (e.fc + (e'.fc + q)) * trk = e.fc * trk + (e'.fc * trk + q * trk) := by ring
  rw [hu, hv]
  refine ⟨⟨htpos, hmod, ?_, ?_⟩, ?_⟩
  · simp only [Ds5ext.stop, hmul]; omega
  · simp only [Ds5ext.stop, BIG_DISK_SIZE, hmul]; omega
  · simp only [Ds5ext.span, Ds5ext.stop, hmul, Prod.mk.injEq, true_and]; omega

section
variable {trk : Nat} (ht : 0 < trk) (ht' : trk ≤ 255)

include ht ht' in
theorem fmt5_lawful : Lawful (fmt5 trk) (Ds5ext.Ok trk) (Ds5ext.span trk) where
  zero_empty := rfl
  ok_nonempty := fun e h => by
    have := h.pos
    simp only [fmt5, beq_eq_false_iff_ne]
    omega
  span_lt := fun e h => h.lt
  overlaps_zero := fun new h => by
    simp [fmt5, Ds5ext.zero, Ds5ext.stop]
  overlaps_disj := fun new ext hn he hd => by
    simp only [Disj, Ds5ext.span] at hd
    have := hn.lt
    have := he.lt
    simp only [fmt5, Bool.or_eq_false_iff, Bool.and_eq_false_iff, decide_eq_false_iff_not]
    omega
  precedes_iff := fun ext tmp _ _ => by simp [fmt5, Ds5ext.span]
  succeeds_iff := fun ext tmp _ _ => by simp [fmt5, Ds5ext.span]
  joinPred_ok := fun ext tmp he htmp h => by
    have h₁ := he.lt
    have h₂ := htmp.lt
    have h₃ := htmp.le
    simp only [Ds5ext.span] at h ⊢
    obtain ⟨hok, hspan⟩ := join5_ok ht ht' he.pos he htmp (by omega)
    exact ⟨hok, hspan.trans (by rw [Prod.mk.injEq]; omega)⟩
  joinSucc_ok := fun ext tmp he htmp h => by
    have h₁ := he.lt
    have h₂ := htmp.lt
    have h₃ := he.le
    simp only [Ds5ext.span] at h ⊢
    obtain ⟨hok, hspan⟩ := join5_ok ht ht' htmp.pos he htmp (by omega)
    exact ⟨hok, hspan.trans (by rw [Prod.mk.injEq]; omega)⟩
  key_zero := rfl
  key_ok := fun e h => ⟨rfl, h.pos⟩

end

theorem fmt7_lawful : Lawful fmt7 Ds7ext.Ok Ds7ext.span where
  zero_empty := rfl
  ok_nonempty := fun e h => by
    have h₁ := h.pos
    have h₂ := h.lt
    have h₃ := h.le
    simp only [fmt7, beq_eq_false_iff_ne]
    unfold u32
    omega
  span_lt := fun e h => h.lt
  overlaps_zero := fun new h => by simp [fmt7, Ds7ext.zero]
  overlaps_disj := fun new ext hn he hd => by
    simp only [Disj, Ds7ext.span] at hd
    have := hn.lt
    have := he.lt
    simp only [fmt7, Bool.or_eq_false_iff, Bool.and_eq_false_iff, decide_eq_false_iff_not]
    omega
  precedes_iff := fun ext tmp _ _ => by simp [fmt7, Ds7ext.span]
  succeeds_iff := fun ext tmp _ _ => by
    simp only [fmt7, Ds7ext.span, beq_iff_eq]
    exact eq_comm
  joinPred_ok := fun ext tmp he htmp h => by
    simp only [Ds7ext.span] at h
    have h₁ := he.lt
    have h₂ := htmp.lt
    exact ⟨⟨he.pos, by simp only [fmt7]; omega, htmp.le⟩, rfl⟩
  joinSucc_ok := fun ext tmp he htmp h => by
    simp only [Ds7ext.span] at h
    have h₁ := he.lt
    have h₂ := htmp.lt
    exact ⟨⟨htmp.pos, by simp only [fmt7]; omega, he.le⟩, rfl⟩
  key_zero := rfl
  key_ok := fun e h => ⟨rfl, h.pos⟩

/-! ## Removing a range from one extent -/

theorem less_eq {trk b c : Nat} {e : Ds5ext} (ht : 0 < trk) (ht' : trk ≤ 255) (he : e.Ok trk) (hc : c < trk)
    (hlt : b * trk + c < e.fc * trk + e.ft) (t : Nat) (htpos : 0 < t)
    (hle : t + (e.stop trk - e.t) - (b * trk + c) ≤ BIG_DISK_SIZE) :
    (⟨t, (e.less trk b c).1, (e.less trk b c).2⟩ : Ds5ext).Ok trk ∧
      (⟨t, (e.less trk b c).1, (e.less trk b c).2⟩ : Ds5ext).span trk =
        (t, t + (e.stop trk - e.t) - (b * trk + c)) := by
  have h₁ := he.lt
  have h₂ := he.rest
  have h₃ := he.le
  have h₀ := he.pos
  have hfc := Nat.le_mul_of_pos_right e.fc ht
  have hbc := Nat.le_mul_of_pos_right b ht
  simp only [Ds5ext.stop, BIG_DISK_SIZE] at h₁ h₃ hle
  have hbf : b ≤ e.fc := by
    by_contra hn
    have : (e.fc + 1) * trk ≤ b * trk := Nat.mul_le_mul_right _ (by omega)
    rw [Nat.add_mul] at this
    omega
  simp only [Ds5ext.less]
  split
  · -- the tracks borrow a cylinder
    rename_i hgt
    have hbf' : b < e.fc := lt_of_le_of_ne hbf (by rintro rfl; omega)
    have hu : u16 ((e.fc : Int) - (b + 1)) = e.fc - (b + 1) := by apply u16_eq <;> omega
    have hv : u8 ((e.ft : Int) - (c - trk)) = e.ft + trk - c := by apply u8_eq <;> omega
    have hmul : (e.fc - (b + 1)) * trk = e.fc * trk - (b * trk + trk) := by
      rw [Nat.sub_mul, Nat.add_mul, Nat.one_mul]
    have hle' : (b + 1) * trk ≤ e.fc * trk := Nat.mul_le_mul_right _ hbf'
    rw [Nat.add_mul, Nat.one_mul] at hle'
    simp only [hu, hv]
    refine ⟨⟨htpos, ?_, ?_, ?_⟩, ?_⟩
    · simp only; omega
    · simp only [Ds5ext.stop, hmul]; omega
    · simp only [Ds5ext.stop, BIG_DISK_SIZE, hmul]; omega
    · simp only [Ds5ext.span, Ds5ext.stop, hmul, Prod.mk.injEq, true_and]; omega
  · rename_i hgt
    have hu : u16 ((e.fc : Int) - b) = e.fc - b := by apply u16_eq <;> omega
    have hv : u8 ((e.ft : Int) - c) = e.ft - c := by apply u8_eq <;> omega
    have hmul : (e.fc - b) * trk = e.fc * trk - b * trk := Nat.sub_mul ..
    have hle' : b * trk ≤ e.fc * trk := Nat.mul_le_mul_right _ hbf
    simp only [hu, hv]
    refine ⟨⟨htpos, ?_, ?_, ?_⟩, ?_⟩
    · simp only; omega
    · simp only [Ds5ext.stop, hmul]; omega
    · simp only [Ds5ext.stop, BIG_DISK_SIZE, hmul]; omega
    · simp only [Ds5ext.span, Ds5ext.stop, hmul, Prod.mk.injEq, true_and]; omega

theorem ext5_word {trk n : Nat} (ht : 0 < trk) (ht' : trk ≤ 255) (hn : n ≤ 65535) :
    u16 ((n / trk : Nat) : Int) = n / trk ∧ u8 ((n % trk : Nat) : Int) = n % trk := by
  have := Nat.div_le_self n trk
  have := Nat.mod_lt n ht
  generalize n / trk = q at *
  generalize n % trk = m at *
  unfold u16 u8
  omega

theorem cut5_miss {trk a b c : Nat} {e : Ds5ext} (hpos : 0 < b * trk + c)
    (h : e.t < a ∧ e.stop trk ≤ a ∨ a + b * trk + c ≤ e.t) : cut5 trk a b c e = .miss := by
  rw [cut5, if_neg (by omega), if_neg (by omega), if_neg (by omega), if_neg (by omega), if_neg (by omega),
    if_neg (by omega)]

theorem cut5_cuts {trk a b c : Nat} (ht : 0 < trk) (ht' : trk ≤ 255) (ha : 0 < a) (hc : c < trk)
    (hpos : 0 < b * trk + c) :
    Cuts (fmt5 trk) (Ds5ext.Ok trk) (Ds5ext.span trk) (cut5 trk a b c) (a, a + b * trk + c) where
  zero := cut5_miss hpos (Or.inl ⟨ha, by simp [fmt5, Ds5ext.zero, Ds5ext.stop]⟩)
  miss := fun e he hd => by
    have := he.lt
    simp only [Disj, Ds5ext.span] at hd
    exact cut5_miss hpos (by omega)
  hit := fun e he h₁ h₂ => by
    have hlt := he.lt
    have hle := he.le
    have hrest := he.rest
    simp only [Ds5ext.span] at h₁ h₂
    have hstop : e.stop trk = e.t + e.fc * trk + e.ft := rfl
    have hw : a = e.t ∧ a + b * trk + c = e.stop trk → b = e.fc ∧ c = e.ft := by
      rintro ⟨rfl, h⟩
      have he' := he.eq_ext5
      rw [← h] at he'
      have h₄ : e.t + b * trk + c - e.t = c + trk * b := by rw [Nat.mul_comm trk]; omega
      simp only [ext5, h₄] at he'
      rw [he']
      simp only
      rw [Nat.add_mul_div_left _ _ ht, Nat.div_eq_of_lt hc, Nat.add_mul_mod_self_left, Nat.mod_eq_of_lt hc,
        Nat.zero_add]
      exact ⟨rfl, rfl⟩
    unfold cut5
    by_cases hl : a = e.t
    · by_cases hr : a + b * trk + c = e.stop trk
      · obtain ⟨hb, hc'⟩ := hw ⟨hl, hr⟩
        rw [if_pos ⟨hl, hb, hc'⟩]
        exact Pieces.whole (by rw [Ds5ext.span, ← hl, ← hr])
      · have hx : b < e.fc ∨ c < e.ft := by
          by_contra hn
          have := Nat.mul_le_mul_right trk (show e.fc ≤ b by omega)
          omega
        rw [if_neg (by rintro ⟨-, rfl, rfl⟩; omega), if_pos ⟨hl, hx⟩]
        have hu : u16 ((e.t + b * trk + c : Nat) : Int) = e.t + b * trk + c := by
          unfold u16; simp only [BIG_DISK_SIZE] at hle; omega
        rw [hu]
        obtain ⟨hok, hspan⟩ := less_eq (b := b) ht ht' he hc (by omega) (e.t + b * trk + c) (by omega) (by omega)
        refine Pieces.behind _ hok (by rw [Ds5ext.span, hl]) (hspan.trans ?_)
        simp only [Ds5ext.span, Prod.mk.injEq]
        omega
    · rw [if_neg (fun h => hl h.1), if_neg (fun h => hl h.1)]
      by_cases hr : a + b * trk + c = e.stop trk
      · rw [if_pos ⟨by omega, hr.symm⟩]
        obtain ⟨hok, hspan⟩ := less_eq (b := b) ht ht' he hc (by omega) e.t he.pos (by omega)
        refine Pieces.front _ hok hr (hspan.trans ?_)
        have : e.t + (e.stop trk - e.t) - (b * trk + c) = a := by omega
        rw [this]
        rfl
      · rw [if_neg (fun h => hr h.2.symm), if_pos ⟨by omega, by omega⟩]
        simp only [BIG_DISK_SIZE] at hle
        have hx : u16 ((a + b * trk + c : Nat) : Int) = a + b * trk + c := by apply u16_eq <;> omega
        have hwd : u16 ((e.stop trk : Int) - (a + b * trk + c : Nat)) = e.stop trk - (a + b * trk + c) := by
          apply u16_eq <;> omega
        obtain ⟨hl₁, hl₂⟩ := ext5_word (n := a - e.t) ht ht' (by omega)
        obtain ⟨-, hr₂⟩ := ext5_word (n := e.stop trk - (a + b * trk + c)) ht ht' (by omega)
        simp only [hx, hwd, hl₁, hl₂, hr₂]
        have hleft : (⟨e.t, (a - e.t) / trk, (a - e.t) % trk⟩ : Ds5ext) = ext5 trk e.t a := rfl
        have hright : (⟨a + b * trk + c, (e.stop trk - (a + b * trk + c)) / trk,
            (e.stop trk - (a + b * trk + c)) % trk⟩ : Ds5ext) = ext5 trk (a + b * trk + c) (e.stop trk) := rfl
        rw [hleft, hright]
        refine Pieces.split _ _ (ext5_ok ht he.pos (by omega) ?_) (ext5_ok ht (by omega) (by omega) ?_)
          (ext5_span (by omega)) (ext5_span (by omega))
        · simp only [BIG_DISK_SIZE]; omega
        · simp only [BIG_DISK_SIZE]; omega

theorem cut7_miss {a b : Nat} {e : Ds7ext} (hab : a < b) (h : e.a < a ∧ e.b ≤ a ∨ b ≤ e.a ∧ e.a < e.b) :
    cut7 a b e = .miss := by
  rw [cut7, if_neg (by omega), if_neg (by omega), if_neg (by omega), if_neg (by omega), if_neg (by omega)]

theorem cut7_cuts {a b : Nat} (ha : 0 < a) (hab : a < b) :
    Cuts fmt7 Ds7ext.Ok Ds7ext.span (cut7 a b) (a, b) where
  zero := cut7_miss hab (Or.inl ⟨ha, Nat.zero_le a⟩)
  miss := fun e he hd => by
    have := he.lt
    simp only [Disj, Ds7ext.span] at hd
    exact cut7_miss hab (by omega)
  hit := fun e he h₁ h₂ => by
    have hlt := he.lt
    have hle := he.le
    have hpos := he.pos
    simp only [Ds7ext.span] at h₁ h₂
    unfold cut7
    by_cases hl : a = e.a
    · by_cases hr : b = e.b
      · rw [if_pos ⟨hl, hr⟩]
        exact Pieces.whole (by rw [Ds7ext.span, hl, hr])
      · rw [if_neg (fun h => hr h.2), if_pos ⟨hl, by omega⟩]
        exact Pieces.behind _ ⟨by simp only; omega, by simp only; omega, hle⟩ (by rw [Ds7ext.span, hl]) rfl
    · rw [if_neg (fun h => hl h.1), if_neg (fun h => hl h.1)]
      by_cases hr : b = e.b
      · rw [if_pos ⟨by omega, hr⟩]
        exact Pieces.front _ ⟨hpos, by simp only; omega, by simp only; omega⟩ (by rw [Ds7ext.span, hr]) rfl
      · rw [if_neg (fun h => hr h.2), if_pos ⟨by omega, by omega⟩]
        exact Pieces.split _ _ ⟨hpos, by simp only; omega, by simp only; omega⟩
          ⟨by simp only; omega, by simp only; omega, hle⟩ rfl rfl

/-! ## What the labels describe -/

/-- On a disk of `tot` tracks the labels list the free ranges `gs`: in the format 7 label
if the disk is big and in the format 5 label otherwise, and the other label is empty. -/
structure Describes (trk tot : Nat) (l : FreeLabels) (gs : List (Nat × Nat)) : Prop where
  f5 : l.f5 = { vtoc_init_format5_label with exts := l.f5.exts }
  f7 : l.f7 = { vtoc_init_format7_label with exts := l.f7.exts }
  len5 : l.f5.exts.length = 26
  len7 : l.f7.exts.length = 16
  big : tot > BIG_DISK_SIZE → Lists fmt7 Ds7ext.Ok Ds7ext.span l.f7.exts gs ∧ l.f5 = vtoc_init_format5_label
  small : ¬ tot > BIG_DISK_SIZE →
    Lists (fmt5 trk) (Ds5ext.Ok trk) (Ds5ext.span trk) l.f5.exts gs ∧ l.f7 = vtoc_init_format7_label

theorem Describes.unique {trk tot : Nat} {l l' : FreeLabels} {gs : List (Nat × Nat)}
    (h : Describes trk tot l gs) (h' : Describes trk tot l' gs) : l.f5 = l'.f5 ∧ l.f7 = l'.f7 := by
  by_cases hb : tot > BIG_DISK_SIZE
  · obtain ⟨h₁, h₂⟩ := h.big hb
    obtain ⟨h₁', h₂'⟩ := h'.big hb
    have he := h₁.slots_eq (fun e e' _ _ hs => Ds7ext.span_inj hs) h₁' (h.len7.trans h'.len7.symm)
    exact ⟨h₂.trans h₂'.symm, by rw [h.f7, h'.f7, he]⟩
  · obtain ⟨h₁, h₂⟩ := h.small hb
    obtain ⟨h₁', h₂'⟩ := h'.small hb
    have he := h₁.slots_eq (fun e e' he he' hs => he.span_inj he' hs) h₁' (h.len5.trans h'.len5.symm)
    exact ⟨by rw [h.f5, h'.f5, he], h₂.trans h₂'.symm⟩

theorem describes_init (trk tot : Nat) (f4 : Format4Label) :
    Describes trk tot ⟨f4, vtoc_init_format5_label, vtoc_init_format7_label⟩ [] where
  f5 := rfl
  f7 := rfl
  len5 := rfl
  len7 := rfl
  big := fun _ => ⟨lists_replicate 16, rfl⟩
  small := fun _ => ⟨lists_replicate 26, rfl⟩

section
variable {trk cyl : Nat} (ht : 0 < trk) (ht' : trk ≤ 255) (htot : cyl * trk ≤ 2147483648)

def freespace_f4 (cyl trk : Nat) (f4 : Format4Label) : Format4Label :=
  if cyl * trk > BIG_DISK_SIZE then announce f4 else f4

theorem freespace_args {start stop : Nat} (h₁ : start ≤ stop) (h₂ : stop < cyl * trk)
    (hb : ¬ cyl * trk > BIG_DISK_SIZE) (h₀ : 0 < start) (ht : 0 < trk) (ht' : trk ≤ 255) :
    u16 (start : Int) = start ∧
    u16 ((u32 ((stop : Int) - start + 1) / trk : Nat) : Int) = (stop + 1 - start) / trk ∧
    u8 ((u32 ((stop : Int) - start + 1) % trk : Nat) : Int) = (stop + 1 - start) % trk := by
  simp only [BIG_DISK_SIZE] at hb
  have hlen : u32 ((stop : Int) - start + 1) = stop + 1 - start := by apply u32_eq <;> omega
  obtain ⟨h₃, h₄⟩ := ext5_word (n := stop + 1 - start) ht ht' (by omega)
  rw [hlen]
  refine ⟨?_, h₃, h₄⟩
  unfold u16; omega

variable (trk cyl)
include ht ht' htot

theorem set_freespace_add {l : FreeLabels} {gs : List (Nat × Nat)} (h : Describes trk (cyl * trk) l gs)
    (hc : Canonical gs) (hlen : gs.length < 16) (start stop : Nat) (h₀ : 0 < start) (h₁ : start ≤ stop)
    (h₂ : stop < cyl * trk) (hd : ∀ r ∈ gs, Disj r (start, stop + 1)) :
    ∃ l' gs', vtoc_set_freespace l '+' start stop cyl trk = .ok l' ∧ Canonical gs' ∧
      Describes trk (cyl * trk) l' gs' ∧ l'.f4 = freespace_f4 cyl trk l.f4 ∧
      ∀ t, Covers gs' t ↔ Covers gs t ∨ In t (start, stop + 1) := by
  have hu : u32 ((cyl * trk : Nat) : Int) = cyl * trk := by apply u32_eq <;> omega
  unfold vtoc_set_freespace
  rw [hu]
  by_cases hb : cyl * trk > BIG_DISK_SIZE
  · obtain ⟨hl, hf5⟩ := h.big hb
    have hstop : u32 ((stop + 1 : Nat) : Int) = stop + 1 := by apply u32_eq <;> omega
    obtain ⟨slots, gs', hadd, hc', hl', hlen', hcov⟩ := add_lists fmt7_lawful hl hc
      ⟨start, stop + 1⟩ ⟨h₀, by simp only; omega, by simp only; omega⟩ hd (by rw [h.len7]; omega)
    rw [if_pos hb, hstop]
    simp only [if_true, vtoc_update_format7_label_add, hadd]
    refine ⟨_, gs', rfl, hc', ?_, by simp [freespace_f4, hb], hcov⟩
    exact ⟨h.f5, by simp only [vtoc_reorganize_FMT7_extents]; rw [h.f7], h.len5, by rw [← h.len7, ← hlen']; rfl,
      fun _ => ⟨hl', hf5⟩, fun hn => absurd hb hn⟩
  · obtain ⟨hl, hf7⟩ := h.small hb
    obtain ⟨hx, hy, hz⟩ := freespace_args h₁ h₂ hb h₀ ht ht'
    have hspan : (ext5 trk start (stop + 1)).span trk = (start, stop + 1) := ext5_span (by omega)
    obtain ⟨slots, gs', hadd, hc', hl', hlen', hcov⟩ := add_lists (fmt5_lawful ht ht') hl hc
      (ext5 trk start (stop + 1)) (ext5_ok ht h₀ (by omega) (by omega)) (by rwa [hspan])
      (by rw [h.len5]; omega)
    rw [hspan] at hcov
    rw [if_neg hb]
    simp only [hx, hy, hz, if_true, vtoc_update_format5_label_add]
    rw [show (⟨start, (stop + 1 - start) / trk, (stop + 1 - start) % trk⟩ : Ds5ext) =
      ext5 trk start (stop + 1) from rfl,
      hadd]
    refine ⟨_, gs', rfl, hc', ?_, by simp [freespace_f4, hb], hcov⟩
    exact ⟨by simp only [vtoc_reorganize_FMT5_extents]; rw [h.f5], h.f7, by rw [← h.len5, ← hlen']; rfl, h.len7,
      fun hn => absurd hn hb, fun _ => ⟨hl', hf7⟩⟩

theorem set_freespace_del {l : FreeLabels} {gs : List (Nat × Nat)} (h : Describes trk (cyl * trk) l gs)
    (hc : Canonical gs) (hlen : gs.length < 16) (start stop : Nat) (h₀ : 0 < start) (h₁ : start ≤ stop)
    (h₂ : stop < cyl * trk) {g : Nat × Nat} (hg : g ∈ gs) (hg₁ : g.1 ≤ start) (hg₂ : stop < g.2) :
    ∃ l' gs', vtoc_set_freespace l '-' start stop cyl trk = .ok l' ∧ Canonical gs' ∧
      Describes trk (cyl * trk) l' gs' ∧ l'.f4 = freespace_f4 cyl trk l.f4 ∧
      ∀ t, Covers gs' t ↔ Covers gs t ∧ ¬ In t (start, stop + 1) := by
  have hu : u32 ((cyl * trk : Nat) : Int) = cyl * trk := by apply u32_eq <;> omega
  unfold vtoc_set_freespace
  rw [hu]
  by_cases hb : cyl * trk > BIG_DISK_SIZE
  · obtain ⟨hl, hf5⟩ := h.big hb
    have hstop : u32 ((stop + 1 : Nat) : Int) = stop + 1 := by apply u32_eq <;> omega
    obtain ⟨slots, gs', hdel, hc', hl', hlen', hcov⟩ := del_lists fmt7_lawful hl hc
      (r := (start, stop + 1)) (by simp only; omega) (cut7_cuts h₀ (by omega)) hg hg₁ hg₂ (by rw [h.len7]; omega)
      true fun _ new ext hn he h₁ h₂ => by
        simp only [Ds7ext.span] at h₁ h₂
        simp only [fmt7, Bool.or_eq_false_iff, Bool.and_eq_false_iff, decide_eq_false_iff_not]
        omega
    rw [if_pos hb, hstop]
    simp only [if_true, vtoc_update_format7_label_del, hdel, show ('-' = '+') = False by decide, if_false]
    refine ⟨_, gs', rfl, hc', ?_, by simp [freespace_f4, hb], hcov⟩
    exact ⟨h.f5, by simp only [vtoc_reorganize_FMT7_extents]; rw [h.f7], h.len5, by rw [← h.len7, ← hlen']; rfl,
      fun _ => ⟨hl', hf5⟩, fun hn => absurd hb hn⟩
  · obtain ⟨hl, hf7⟩ := h.small hb
    obtain ⟨hx, hy, hz⟩ := freespace_args h₁ h₂ hb h₀ ht ht'
    have hend : start + (stop + 1 - start) / trk * trk + (stop + 1 - start) % trk = stop + 1 := by
      have := Nat.div_add_mod' (stop + 1 - start) trk
      omega
    have hcuts := cut5_cuts (a := start) (b := (stop + 1 - start) / trk) ht ht' h₀
      (Nat.mod_lt (stop + 1 - start) ht) (by omega)
    rw [hend] at hcuts
    obtain ⟨slots, gs', hdel, hc', hl', hlen', hcov⟩ := del_lists (fmt5_lawful ht ht') hl hc
      (r := (start, stop + 1)) (by simp only; omega) hcuts hg hg₁ hg₂ (by rw [h.len5]; omega) false (by simp)
    rw [if_neg hb]
    simp only [hx, hy, hz, show ('-' = '+') = False by decide, if_false, if_true,
      vtoc_update_format5_label_del, hdel]
    refine ⟨_, gs', rfl, hc', ?_, by simp [freespace_f4, hb], hcov⟩
    exact ⟨by simp only [vtoc_reorganize_FMT5_extents]; rw [h.f5], h.f7, by rw [← h.len5, ← hlen']; rfl, h.len7,
      fun hn => absurd hn hb, fun _ => ⟨hl', hf7⟩⟩

end

end Vtoc
