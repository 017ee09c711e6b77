import S390Tools.Vtoc.Labels

/-!
# Character fields

Strings of the program are lists of bytes. The translation tables are those of
`libvtoc`; the data set labels are initialised here because their names and
system codes are EBCDIC.
-/

namespace Vtoc

open Word

def bytes (s : String) : List UInt8 := s.toList.map fun c => UInt8.ofNat c.toNat

def EBCtoASC : Array UInt8 := #[
  0x00, 0x01, 0x02, 0x03, 0x07, 0x09, 0x07, 0x7F, 0x07, 0x07, 0x07, 0x0B, 0x0C, 0x0D, 0x0E, 0x0F,
  0x10, 0x11, 0x12, 0x13, 0x07, 0x0A, 0x08, 0x07, 0x18, 0x19, 0x07, 0x07, 0x07, 0x07, 0x07, 0x07,
  0x07, 0x07, 0x1C, 0x07, 0x07, 0x0A, 0x17, 0x1B, 0x07, 0x07, 0x07, 0x07, 0x07, 0x05, 0x06, 0x07,
  0x07, 0x07, 0x16, 0x07, 0x07, 0x07, 0x07, 0x04, 0x07, 0x07, 0x07, 0x07, 0x14, 0x15, 0x07, 0x1A,
  0x20, 0xFF, 0x83, 0x84, 0x85, 0xA0, 0x07, 0x86, 0x87, 0xA4, 0x9B, 0x2E, 0x3C, 0x28, 0x2B, 0x7C,
  0x26, 0x82, 0x88, 0x89, 0x8A, 0xA1, 0x8C, 0x07, 0x8D, 0xE1, 0x21, 0x24, 0x2A, 0x29, 0x3B, 0xAA,
  0x2D, 0x2F, 0x07, 0x8E, 0x07, 0x07, 0x07, 0x8F, 0x80, 0xA5, 0x07, 0x2C, 0x25, 0x5F, 0x3E, 0x3F,
  0x07, 0x90, 0x07, 0x07, 0x07, 0x07, 0x07, 0x07, 0x70, 0x60, 0x3A, 0x23, 0x40, 0x27, 0x3D, 0x22,
  0x07, 0x61, 0x62, 0x63, 0x64, 0x65, 0x66, 0x67, 0x68, 0x69, 0xAE, 0xAF, 0x07, 0x07, 0x07, 0xF1,
  0xF8, 0x6A, 0x6B, 0x6C, 0x6D, 0x6E, 0x6F, 0x70, 0x71, 0x72, 0xA6, 0xA7, 0x91, 0x07, 0x92, 0x07,
  0xE6, 0x7E, 0x73, 0x74, 0x75, 0x76, 0x77, 0x78, 0x79, 0x7A, 0xAD, 0xAB, 0x07, 0x07, 0x07, 0x07,
  0x5E, 0x9C, 0x9D, 0xFA, 0x07, 0x07, 0x07, 0xAC, 0xAB, 0x07, 0x5B, 0x5D, 0x07, 0x07, 0x07, 0x07,
  0x7B, 0x41, 0x42, 0x43, 0x44, 0x45, 0x46, 0x47, 0x48, 0x49, 0x07, 0x93, 0x94, 0x95, 0xA2, 0x07,
  0x7D, 0x4A, 0x4B, 0x4C, 0x4D, 0x4E, 0x4F, 0x50, 0x51, 0x52, 0x07, 0x96, 0x81, 0x97, 0xA3, 0x98,
  0x5C, 0xF6, 0x53, 0x54, 0x55, 0x56, 0x57, 0x58, 0x59, 0x5A, 0xFD, 0x07, 0x99, 0x07, 0x07, 0x07,
  0x30, 0x31, 0x32, 0x33, 0x34, 0x35, 0x36, 0x37, 0x38, 0x39, 0x07, 0x07, 0x9A, 0x07, 0x07, 0x07]

def ASCtoEBC : Array UInt8 := #[
  0x00, 0x01, 0x02, 0x03, 0x37, 0x2D, 0x2E, 0x2F, 0x16, 0x05, 0x15, 0x0B, 0x0C, 0x0D, 0x0E, 0x0F,
  0x10, 0x11, 0x12, 0x13, 0x3C, 0x15, 0x32, 0x26, 0x18, 0x19, 0x3F, 0x27, 0x1C, 0x1D, 0x1E, 0x1F,
  0x40, 0x5A, 0x7F, 0x7B, 0x5B, 0x6C, 0x50, 0x7D, 0x4D, 0x5D, 0x5C, 0x4E, 0x6B, 0x60, 0x4B, 0x61,
  0xF0, 0xF1, 0xF2, 0xF3, 0xF4, 0xF5, 0xF6, 0xF7, 0xF8, 0xF9, 0x7A, 0x5E, 0x4C, 0x7E, 0x6E, 0x6F,
  0x7C, 0xC1, 0xC2, 0xC3, 0xC4, 0xC5, 0xC6, 0xC7, 0xC8, 0xC9, 0xD1, 0xD2, 0xD3, 0xD4, 0xD5, 0xD6,
  0xD7, 0xD8, 0xD9, 0xE2, 0xE3, 0xE4, 0xE5, 0xE6, 0xE7, 0xE8, 0xE9, 0xAD, 0xE0, 0xBD, 0x5F, 0x6D,
  0x79, 0x81, 0x82, 0x83, 0x84, 0x85, 0x86, 0x87, 0x88, 0x89, 0x91, 0x92, 0x93, 0x94, 0x95, 0x96,
  0x97, 0x98, 0x99, 0xA2, 0xA3, 0xA4, 0xA5, 0xA6, 0xA7, 0xA8, 0xA9, 0xC0, 0x4F, 0xD0, 0xA1, 0x07,
  0x3F, 0x3F, 0x3F, 0x3F, 0x3F, 0x3F, 0x3F, 0x3F, 0x3F, 0x3F, 0x3F, 0x3F, 0x3F, 0x3F, 0x3F, 0x3F,
  0x3F, 0x3F, 0x3F, 0x3F, 0x3F, 0x3F, 0x3F, 0x3F, 0x3F, 0x3F, 0x3F, 0x3F, 0x3F, 0x3F, 0x3F, 0x3F,
  0x3F, 0x3F, 0x3F, 0x3F, 0x3F, 0x3F, 0x3F, 0x3F, 0x3F, 0x3F, 0x3F, 0x3F, 0x3F, 0x3F, 0x3F, 0x3F,
  0x3F, 0x3F, 0x3F, 0x3F, 0x3F, 0x3F, 0x3F, 0x3F, 0x3F, 0x3F, 0x3F, 0x3F, 0x3F, 0x3F, 0x3F, 0x3F,
  0x3F, 0x3F, 0x3F, 0x3F, 0x3F, 0x3F, 0x3F, 0x3F, 0x3F, 0x3F, 0x3F, 0x3F, 0x3F, 0x3F, 0x3F, 0x3F,
  0x3F, 0x3F, 0x3F, 0x3F, 0x3F, 0x3F, 0x3F, 0x3F, 0x3F, 0x3F, 0x3F, 0x3F, 0x3F, 0x3F, 0x3F, 0x3F,
  0x3F, 0x3F, 0x3F, 0x3F, 0x3F, 0x3F, 0x3F, 0x3F, 0x3F, 0x3F, 0x3F, 0x3F, 0x3F, 0x3F, 0x3F, 0x3F,
  0x3F, 0x3F, 0x3F, 0x3F, 0x3F, 0x3F, 0x3F, 0x3F, 0x3F, 0x3F, 0x3F, 0x3F, 0x3F, 0x3F, 0x3F, 0xFF]

def vtoc_ebcdic_enc (source : List UInt8) : List UInt8 := source.map fun c => ASCtoEBC.getD c.toNat 0

def vtoc_ebcdic_dec (source : List UInt8) : List UInt8 := source.map fun c => EBCtoASC.getD c.toNat 0

@[simp] theorem enc_length (s : List UInt8) : (vtoc_ebcdic_enc s).length = s.length := List.length_map ..

@[simp] theorem dec_length (s : List UInt8) : (vtoc_ebcdic_dec s).length = s.length := List.length_map ..

/-! ## Data set labels -/

def vtoc_init_format_1_8_label (today : Labeldate) (blksize : Nat) (part_extent : Extent) (fmtid : Nat) :
    Format1Label where
  DS1DSNAM := vtoc_ebcdic_enc (bytes "PART    .NEW                                ")
  DS1FMTID := fmtid
  DS1DSSN := bytes "      "
  DS1VOLSQ := 0x0001
  DS1CREDT := today
  DS1EXPDT := ⟨0x63, 0x016D⟩
  DS1NOEPV := 0x01
  DS1NOBDB := 0x00
  DS1FLAG1 := 0x00
  DS1SYSCD := vtoc_ebcdic_enc (bytes "IBM LINUX    ")
  DS1REFD := today
  DS1SMSFG := 0x00
  DS1SCXTF := 0x00
  DS1SCXTV := 0x0000
  DS1DSRG1 := 0x00
  DS1DSRG2 := 0x00
  DS1RECFM := 0x88
  DS1OPTCD := 0x00
  DS1BLKL := u16 blksize
  DS1LRECL := u16 blksize
  DS1KEYL := 0x00
  DS1RKP := 0x0000
  DS1DSIND := 0x80
  DS1SCAL1 := 0x80
  DS1SCAL3 := List.replicate 3 0
  DS1LSTAR := ⟨0x0000, 0x00⟩
  DS1TRBAL := 0x00
  DS1EXT1 := part_extent
  DS1EXT2 := .zero
  DS1EXT3 := .zero
  DS1PTRDS := vtoc_set_cchhb 0x0000 0x0000 0x00

def vtoc_init_format1_label (today : Labeldate) (blksize : Nat) (part_extent : Extent) : Format1Label :=
  vtoc_init_format_1_8_label today blksize part_extent 0xf1

def vtoc_init_format8_label (today : Labeldate) (blksize : Nat) (part_extent : Extent) : Format1Label :=
  vtoc_init_format_1_8_label today blksize part_extent 0xf8

end Vtoc
