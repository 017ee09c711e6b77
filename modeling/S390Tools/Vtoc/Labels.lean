import S390Tools.Lib.Word

/-!
# VTOC labels

The records of a volume table of contents as `libvtoc` lays them out, their
disk addresses and the functions that initialise them. Character fields are
lists of bytes of the field's length.
-/

namespace Vtoc

open Word

/-! ## Constants -/

def VTOC_START_CC : Nat := 0x0
def VTOC_START_HH : Nat := 0x1
def FIRST_USABLE_TRK : Nat := 2

def DASD_3380_TYPE : Nat := 13184
def DASD_3390_TYPE : Nat := 13200
def DASD_9345_TYPE : Nat := 37701

def DASD_3380_VALUE : Nat := 0xbb60
def DASD_3390_VALUE : Nat := 0xe5a2
def DASD_9345_VALUE : Nat := 0xbc98

def VOLSER_LENGTH : Nat := 6
def BIG_DISK_SIZE : Nat := 0x10000
def LV_COMPAT_CYL : Nat := 0xFFFE

structure HdGeometry where
  heads : Nat
  sectors : Nat
  cylinders : Nat
  deriving DecidableEq

/-! ## Addresses -/

structure Ttr where
  tt : Nat
  r : Nat
  deriving DecidableEq

structure Cchhb where
  cc : Nat
  hh : Nat
  b : Nat
  deriving DecidableEq

structure Cchh where
  cc : Nat
  hh : Nat
  deriving DecidableEq

structure Labeldate where
  year : Nat
  day : Nat
  deriving DecidableEq

structure Extent where
  typeind : Nat
  seqno : Nat
  llimit : Cchh
  ulimit : Cchh
  deriving DecidableEq

def hhField (cc hh : Nat) : Nat := u16 (((u16 (cc >>> 16 : Nat)) <<< 4 : Nat)) ||| hh

def vtoc_set_cchh (cc hh : Nat) : Cchh := ⟨u16 cc, hhField cc hh⟩

def vtoc_set_cchhb (cc hh b : Nat) : Cchhb := ⟨u16 cc, hhField cc hh, b⟩

def vtoc_get_cyl_from_cchh (addr : Cchh) : Nat := u32 (((addr.hh &&& 0xFFF0) <<< 12 : Nat)) ||| addr.cc

def vtoc_get_head_from_cchh (addr : Cchh) : Nat := addr.hh &&& 0x000F

def vtoc_get_cyl_from_cchhb (addr : Cchhb) : Nat := vtoc_get_cyl_from_cchh ⟨addr.cc, addr.hh⟩

def vtoc_get_head_from_cchhb (addr : Cchhb) : Nat := vtoc_get_head_from_cchh ⟨addr.cc, addr.hh⟩

def cchhb2blk (p : Cchhb) (geo : HdGeometry) : Nat :=
  u64 (vtoc_get_cyl_from_cchhb p * geo.heads * geo.sectors + vtoc_get_head_from_cchhb p * geo.sectors + p.b : Nat)

def cchh2trk (p : Cchh) (geo : HdGeometry) : Nat :=
  u32 (vtoc_get_cyl_from_cchh p * geo.heads + vtoc_get_head_from_cchh p : Nat)

def vtoc_set_extent (typeind seqno : Nat) (lower upper : Cchh) : Extent := ⟨typeind, seqno, lower, upper⟩

def Cchh.zero : Cchh := ⟨0, 0⟩
def Cchhb.zero : Cchhb := ⟨0, 0, 0⟩
def Extent.zero : Extent := ⟨0, 0, .zero, .zero⟩

/-! ## Labels -/

/-- The label of a data set; format 1 and format 8 labels have the same layout. -/
structure Format1Label where
  DS1DSNAM : List UInt8
  DS1FMTID : Nat
  DS1DSSN : List UInt8
  DS1VOLSQ : Nat
  DS1CREDT : Labeldate
  DS1EXPDT : Labeldate
  DS1NOEPV : Nat
  DS1NOBDB : Nat
  DS1FLAG1 : Nat
  DS1SYSCD : List UInt8
  DS1REFD : Labeldate
  DS1SMSFG : Nat
  DS1SCXTF : Nat
  DS1SCXTV : Nat
  DS1DSRG1 : Nat
  DS1DSRG2 : Nat
  DS1RECFM : Nat
  DS1OPTCD : Nat
  DS1BLKL : Nat
  DS1LRECL : Nat
  DS1KEYL : Nat
  DS1RKP : Nat
  DS1DSIND : Nat
  DS1SCAL1 : Nat
  DS1SCAL3 : List UInt8
  DS1LSTAR : Ttr
  DS1TRBAL : Nat
  DS1EXT1 : Extent
  DS1EXT2 : Extent
  DS1EXT3 : Extent
  DS1PTRDS : Cchhb
  deriving DecidableEq

def Format1Label.zero : Format1Label where
  DS1DSNAM := List.replicate 44 0
  DS1FMTID := 0
  DS1DSSN := List.replicate 6 0
  DS1VOLSQ := 0
  DS1CREDT := ⟨0, 0⟩
  DS1EXPDT := ⟨0, 0⟩
  DS1NOEPV := 0
  DS1NOBDB := 0
  DS1FLAG1 := 0
  DS1SYSCD := List.replicate 13 0
  DS1REFD := ⟨0, 0⟩
  DS1SMSFG := 0
  DS1SCXTF := 0
  DS1SCXTV := 0
  DS1DSRG1 := 0
  DS1DSRG2 := 0
  DS1RECFM := 0
  DS1OPTCD := 0
  DS1BLKL := 0
  DS1LRECL := 0
  DS1KEYL := 0
  DS1RKP := 0
  DS1DSIND := 0
  DS1SCAL1 := 0
  DS1SCAL3 := List.replicate 3 0
  DS1LSTAR := ⟨0, 0⟩
  DS1TRBAL := 0
  DS1EXT1 := .zero
  DS1EXT2 := .zero
  DS1EXT3 := .zero
  DS1PTRDS := .zero

structure DevConst where
  DS4DSCYL : Nat
  DS4DSTRK : Nat
  DS4DEVTK : Nat
  DS4DEVI : Nat
  DS4DEVL : Nat
  DS4DEVK : Nat
  DS4DEVFG : Nat
  DS4DEVTL : Nat
  DS4DEVDT : Nat
  DS4DEVDB : Nat
  deriving DecidableEq

structure Format4Label where
  DS4KEYCD : List UInt8
  DS4IDFMT : Nat
  DS4HPCHR : Cchhb
  DS4DSREC : Nat
  DS4HCCHH : Cchh
  DS4NOATK : Nat
  DS4VTOCI : Nat
  DS4NOEXT : Nat
  DS4SMSFG : Nat
  DS4DEVAC : Nat
  DS4DEVCT : DevConst
  DS4AMTIM : List UInt8
  DS4AMCAT : List UInt8
  DS4R2TIM : List UInt8
  DS4F6PTR : List UInt8
  DS4VTOCE : Extent
  DS4EFLVL : Nat
  DS4EFPTR : Cchhb
  DS4DCYL : Nat
  DS4DEVF2 : Nat
  deriving DecidableEq

/-- A free extent: its first track, whole cylinders and remaining tracks. -/
structure Ds5ext where
  t : Nat
  fc : Nat
  ft : Nat
  deriving DecidableEq

/-- `exts` are `DS5AVEXT`, `DS5EXTAV` and `DS5MAVET` in this order: 26 extents. -/
structure Format5Label where
  DS5KEYID : List UInt8
  DS5FMTID : Nat
  exts : List Ds5ext
  DS5PTRDS : Cchhb
  deriving DecidableEq

/-- A free extent from track `a` up to, not including, track `b`. -/
structure Ds7ext where
  a : Nat
  b : Nat
  deriving DecidableEq

/-- `exts` are `DS7EXTNT` and `DS7ADEXT` in this order: 16 extents. -/
structure Format7Label where
  DS7KEYID : List UInt8
  DS7FMTID : Nat
  exts : List Ds7ext
  DS7PTRDS : Cchhb
  deriving DecidableEq

structure Format9Label where
  DS9KEYID : Nat
  DS9SUBTY : Nat
  DS9NUMF9 : Nat
  DS9FMTID : Nat
  deriving DecidableEq

def Ds5ext.zero : Ds5ext := ⟨0, 0, 0⟩
def Ds7ext.zero : Ds7ext := ⟨0, 0⟩

def Format4Label.zero : Format4Label where
  DS4KEYCD := List.replicate 44 0
  DS4IDFMT := 0
  DS4HPCHR := .zero
  DS4DSREC := 0
  DS4HCCHH := .zero
  DS4NOATK := 0
  DS4VTOCI := 0
  DS4NOEXT := 0
  DS4SMSFG := 0
  DS4DEVAC := 0
  DS4DEVCT := ⟨0, 0, 0, 0, 0, 0, 0, 0, 0, 0⟩
  DS4AMTIM := List.replicate 8 0
  DS4AMCAT := List.replicate 3 0
  DS4R2TIM := List.replicate 8 0
  DS4F6PTR := List.replicate 5 0
  DS4VTOCE := .zero
  DS4EFLVL := 0
  DS4EFPTR := .zero
  DS4DCYL := 0
  DS4DEVF2 := 0

def Format5Label.zero : Format5Label := ⟨List.replicate 4 0, 0, List.replicate 26 .zero, .zero⟩
def Format7Label.zero : Format7Label := ⟨List.replicate 4 0, 0, List.replicate 16 .zero, .zero⟩

/-! ## Initialisation -/

def vtoc_init_format4_label (compat_cylinders real_cylinders tracks blocks blksize dev_type : Nat) :
    Format4Label where
  DS4KEYCD := List.replicate 44 0x04
  DS4IDFMT := 0xf4
  DS4HPCHR := vtoc_set_cchhb 0x0000 0x0000 0x00
  DS4DSREC := u16 ((blocks : Int) - 2)
  DS4HCCHH := vtoc_set_cchh 0x0000 0x0000
  DS4NOATK := 0x0000
  DS4VTOCI := 0x00
  DS4NOEXT := 0x01
  DS4SMSFG := 0x00
  DS4DEVAC := 0x00
  DS4DEVCT := {
    DS4DSCYL := u16 compat_cylinders
    DS4DSTRK := u16 tracks
    DS4DEVTK :=
      if dev_type = DASD_3380_TYPE then DASD_3380_VALUE
      else if dev_type = DASD_3390_TYPE then DASD_3390_VALUE
      else if dev_type = DASD_9345_TYPE then DASD_9345_VALUE
      else u16 (blocks * blksize : Nat)
    DS4DEVI := 0x00
    DS4DEVL := 0x00
    DS4DEVK := 0x00
    DS4DEVFG := 0x30
    DS4DEVTL := 0x0000
    DS4DEVDT := u8 blocks
    DS4DEVDB := 0x00 }
  DS4AMTIM := List.replicate 8 0
  DS4AMCAT := List.replicate 3 0
  DS4R2TIM := List.replicate 8 0
  DS4F6PTR := List.replicate 5 0
  DS4VTOCE := vtoc_set_extent 0x01 0x00 ⟨VTOC_START_CC, VTOC_START_HH⟩ ⟨VTOC_START_CC, VTOC_START_HH⟩
  DS4EFLVL := 0x00
  DS4EFPTR := .zero
  DS4DCYL := real_cylinders
  DS4DEVF2 := 0x40

def vtoc_init_format5_label : Format5Label :=
  ⟨List.replicate 4 0x05, 0xf5, List.replicate 26 .zero, .zero⟩

def vtoc_init_format7_label : Format7Label :=
  ⟨List.replicate 4 0x07, 0xf7, List.replicate 16 .zero, .zero⟩

def vtoc_init_format9_label : Format9Label := ⟨0x09, 0x01, 1, 0xf9⟩

def vtoc_update_format8_label (associated_f9 : Cchhb) (f8 : Format1Label) : Format1Label :=
  { f8 with DS1PTRDS := associated_f9 }

def vtoc_update_format4_label (f4 : Format4Label) (highest_f1 : Cchhb) (unused_update : Int) : Format4Label :=
  { f4 with DS4HPCHR := highest_f1, DS4DSREC := u16 unused_update }

/-! ## Address arithmetic -/

theorem hhField_eq {cc hh : Nat} (hc : cc < 268435456) (hh' : hh < 16) :
    hhField cc hh = 16 * (cc / 65536) + hh := by
  have h₁ : u16 ((cc >>> 16 : Nat) : Int) = cc / 65536 := by
    rw [Nat.shiftRight_eq_div_pow]; unfold u16; omega
  have h₂ : u16 (((cc / 65536) <<< 4 : Nat) : Int) = (cc / 65536) <<< 4 := by
    rw [Nat.shiftLeft_eq]; unfold u16; omega
  unfold hhField
  rw [h₁, h₂, ← Nat.shiftLeft_add_eq_or_of_lt (by omega), Nat.shiftLeft_eq]
  omega

theorem and_fff0 (x : Nat) (hx : x < 65536) : x &&& 0xFFF0 = 16 * (x / 16) := by
  have h₁ : x = (x / 16) <<< 4 ||| x % 16 := by
    rw [← Nat.shiftLeft_add_eq_or_of_lt (by omega), Nat.shiftLeft_eq]; omega
  have h₂ : x % 16 &&& 0xFFF0 = 0 := by
    have : x % 16 < 16 := by omega
    interval_cases x % 16 <;> decide
  have h₃ : (x / 16) <<< 4 &&& 0xFFF0 = ((x / 16) &&& 0xFFF) <<< 4 := by
    rw [Nat.shiftLeft_and_distrib]; rfl
  have h₄ : (x / 16) &&& 0xFFF = x / 16 := by
    have := Nat.and_two_pow_sub_one_eq_mod (x / 16) 12
    rw [show (2 : Nat) ^ 12 - 1 = 0xFFF from rfl] at this
    omega
  conv_lhs => rw [h₁]
  rw [Nat.and_or_distrib_right, h₂, h₃, h₄, Nat.or_zero, Nat.shiftLeft_eq]
  omega

theorem and_f (x : Nat) : x &&& 0x000F = x % 16 := Nat.and_two_pow_sub_one_eq_mod x 4

theorem get_head_set_cchh {cc hh : Nat} (hc : cc < 268435456) (hh' : hh < 16) :
    vtoc_get_head_from_cchh (vtoc_set_cchh cc hh) = hh := by
  simp only [vtoc_get_head_from_cchh, vtoc_set_cchh, hhField_eq hc hh', and_f]
  omega

theorem get_cyl_set_cchh {cc hh : Nat} (hc : cc < 268435456) (hh' : hh < 16) :
    vtoc_get_cyl_from_cchh (vtoc_set_cchh cc hh) = cc := by
  simp only [vtoc_get_cyl_from_cchh, vtoc_set_cchh, hhField_eq hc hh']
  rw [and_fff0 _ (by omega)]
  have h₁ : 16 * ((16 * (cc / 65536) + hh) / 16) = 16 * (cc / 65536) := by omega
  have h₂ : u32 (((16 * (cc / 65536)) <<< 12 : Nat) : Int) = (cc / 65536) <<< 16 := by
    rw [Nat.shiftLeft_eq, Nat.shiftLeft_eq]; unfold u32; omega
  have h₃ : u16 (cc : Int) = cc % 65536 := by unfold u16; omega
  rw [h₁, h₂, h₃, ← Nat.shiftLeft_add_eq_or_of_lt (by omega), Nat.shiftLeft_eq]
  omega

theorem cchh2trk_set_cchh {geo : HdGeometry} {trk : Nat} (h₀ : 0 < geo.heads) (h₁ : geo.heads ≤ 16)
    (hc : trk / geo.heads < 268435456) (ht : trk < 4294967296) :
    cchh2trk (vtoc_set_cchh (trk / geo.heads) (trk % geo.heads)) geo = trk := by
  have hm : trk % geo.heads < 16 := lt_of_lt_of_le (Nat.mod_lt _ h₀) h₁
  have hd : trk / geo.heads * geo.heads + trk % geo.heads = trk := by
    rw [Nat.mul_comm]; exact Nat.div_add_mod trk geo.heads
  rw [cchh2trk, get_cyl_set_cchh hc hm, get_head_set_cchh hc hm, hd]
  unfold u32; omega

end Vtoc
