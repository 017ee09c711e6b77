import S390Tools.Lib.Scanf
import S390Tools.Lib.Memcmp

/-!
# CCW device IDs (zdev/src/ccw.c)

An ID is read with `sscanf` and compared with `memcmp`, on a machine with the highest
byte first. A string is the list of its characters, without the final null byte.
-/

namespace Zdev.Ccw

open CString Scanf Memcmp

def CSSID_MAX : Nat := 0xff
def SSID_MAX : Nat := 0xf
def DEVNO_MAX : Nat := 0xffff

def chars (s : String) : List UInt8 := s.toUTF8.toList

structure CcwDevid where
  cssid : UInt8
  ssid : UInt8
  devno : UInt16
  deriving DecidableEq

section
variable (bare : Bool)

/-- `sscanf(id, "%8x %c", &devno, &d) == 1`. -/
def sscanf_devno (id : List UInt8) : Option Nat := do
  let (devno, s) ← scan_ux bare 32 8 id
  if at_end s then some devno else none

def scan_dot : List UInt8 → Option (List UInt8)
  | c :: s => if c = 0x2e then some s else none
  | [] => none

/-- `sscanf(id, "%8x.%8x.%8x %c", &cssid, &ssid, &devno, &d) == 3`. -/
def sscanf_devid (id : List UInt8) : Option (Nat × Nat × Nat) := do
  let (cssid, s) ← scan_ux bare 32 8 id
  let (ssid, s) ← scan_ux bare 32 8 (← scan_dot s)
  let (devno, s) ← scan_ux bare 32 8 (← scan_dot s)
  if at_end s then some (cssid, ssid, devno) else none

def strcasecmp (a b : List UInt8) : Bool := a.map tolower == b.map tolower

def check_bounds (cssid ssid devno : Nat) : Except String CcwDevid :=
  if cssid > CSSID_MAX then .error "CSSID out of bounds"
  else if ssid > SSID_MAX then .error "SSID out of bounds"
  else if devno > DEVNO_MAX then .error "DEVNO out of bounds"
  else .ok { cssid := .ofNat cssid, ssid := .ofNat ssid, devno := .ofNat devno }

def ccw_parse_devid (id : List UInt8) : Except String CcwDevid :=
  match sscanf_devno bare id with
  | some devno =>
    if strcasecmp id (chars "0x") then .error "Incomplete hexadecimal number"
    else check_bounds 0 0 devno
  | none =>
    match sscanf_devid bare id with
    | none => .error "Invalid format"
    | some (cssid, ssid, devno) => check_bounds cssid ssid devno

def ccw_parse_devid_simple (id : List UInt8) : Option CcwDevid := (ccw_parse_devid bare id).toOption

def ccw_devid_to_str (devid : CcwDevid) : List UInt8 :=
  hex devid.cssid.toNat ++ 0x2e :: (hex devid.ssid.toNat ++ 0x2e :: hex4 devid.devno.toNat)

def ccw_normalize_id (id : List UInt8) : Option (List UInt8) :=
    (ccw_parse_devid_simple bare id).map ccw_devid_to_str

/-! ## Order -/

def CcwDevid.bytes (d : CcwDevid) : List UInt8 := [d.cssid, d.ssid, (d.devno >>> 8).toUInt8, d.devno.toUInt8]

def ccw_cmp_parsed_ids (a b : CcwDevid) : Int := memcmp a.bytes b.bytes

def CcwDevid.key (d : CcwDevid) : Nat := d.cssid.toNat * 2 ^ 24 + d.ssid.toNat * 2 ^ 16 + d.devno.toNat

def SameSet (a b : CcwDevid) : Prop := a.cssid = b.cssid ∧ a.ssid = b.ssid

/-! ## Ranges -/

def ccw_parse_devid_range (range : List UInt8) : Except String (CcwDevid × CcwDevid) :=
  match range.dropWhile (· != 0x2d) with
  | [] => .error "Missing hyphen"
  | _ :: to_str => do
    let f ← ccw_parse_devid bare (range.takeWhile (· != 0x2d))
    let t ← ccw_parse_devid bare to_str
    return (f, t)

def ccw_parse_devid_range_simple (range : List UInt8) : Option (CcwDevid × CcwDevid) :=
  (ccw_parse_devid_range bare range).toOption

end

/-! ## Bytes and order -/

theorem unbe_bytes (d : CcwDevid) : Stdio.unbe d.bytes = d.key := by
  have hdev : (d.devno >>> 8).toUInt8.toNat * 256 + d.devno.toUInt8.toNat = d.devno.toNat := by
    have h := d.devno.toNat_lt
    have hshift : (d.devno >>> 8).toNat = d.devno.toNat / 256 := by
      rw [UInt16.toNat_shiftRight, Nat.shiftRight_eq_div_pow]
      rfl
    rw [UInt16.toNat_toUInt8, UInt16.toNat_toUInt8, hshift]
    omega
  rw [CcwDevid.bytes, unbe_cons, unbe_cons, unbe_cons, unbe_cons, CcwDevid.key, ← hdev]
  simp only [List.length_cons, List.length_nil, Stdio.unbe, List.map_nil, Fields.value, List.foldl_nil]
  ring

theorem key_inj {a b : CcwDevid} (h : a.key = b.key) : a = b := by
  obtain ⟨ac, as, ad⟩ := a
  obtain ⟨bc, bs, bd⟩ := b
  have h₁ := ac.toNat_lt
  have h₂ := as.toNat_lt
  have h₃ := ad.toNat_lt
  have h₄ := bc.toNat_lt
  have h₅ := bs.toNat_lt
  have h₆ := bd.toNat_lt
  simp only [CcwDevid.key] at h
  have hc : ac = bc := UInt8.toNat_inj.mp (by omega)
  have hs : as = bs := UInt8.toNat_inj.mp (by omega)
  have hd : ad = bd := UInt16.toNat_inj.mp (by omega)
  rw [hc, hs, hd]

theorem cmp_lt {a b : CcwDevid} : ccw_cmp_parsed_ids a b < 0 ↔ a.key < b.key := by
  rw [ccw_cmp_parsed_ids, memcmp_lt (by rfl), unbe_bytes, unbe_bytes]

theorem cmp_gt {a b : CcwDevid} : 0 < ccw_cmp_parsed_ids a b ↔ b.key < a.key := by
  rw [ccw_cmp_parsed_ids, memcmp_gt (by rfl), unbe_bytes, unbe_bytes]

theorem cmp_eq {a b : CcwDevid} : ccw_cmp_parsed_ids a b = 0 ↔ a = b := by
  rw [ccw_cmp_parsed_ids, memcmp_eq (by rfl)]
  constructor
  · intro h
    exact key_inj (by rw [← unbe_bytes, ← unbe_bytes, h])
  · intro h
    rw [h]

/-! ## Reading what was printed -/

theorem hex4_xdigit (n : Nat) : ∀ c ∈ hex4 n, isxdigit c = true := fun c hc => by
  rcases List.mem_append.mp hc with hc | hc
  · rw [List.eq_of_mem_replicate hc]
    decide
  · exact hex_xdigit n c hc

theorem xnum_hex4 (n : Nat) : xnum (hex4 n) = n := by rw [hex4, xnum_zeros, xnum_hex]

theorem length_hex4 {n : Nat} (h : n < 2 ^ 16) : (hex4 n).length = 4 := by
  have := length_hex (k := 4) (by decide) (show n < 16 ^ 4 by omega)
  rw [hex4, List.length_append, List.length_replicate]
  omega

section
variable (bare : Bool)

theorem scan_ux_word (ds rest : List UInt8) (hne : ds ≠ []) (hds : ∀ c ∈ ds, isxdigit c = true)
    (hlen : ds.length ≤ 8)
    (hrest : ∀ c ∈ rest.head?, c = 0x2e ∨ c = 0x2d) : scan_ux bare 32 8 (ds ++ rest) = some (xnum ds, rest) := by
  have hsmall : xnum ds < 2 ^ 32 :=
    calc xnum ds < 16 ^ ds.length := xnum_lt hds
      _ ≤ 16 ^ 8 := Nat.pow_le_pow_right (by decide) hlen
      _ = 2 ^ 32 := by decide
  have hstop : ∀ c ∈ rest.head?, isxdigit c = false ∧ c ≠ 0x78 ∧ c ≠ 0x58 := fun c hc => by
    rcases hrest c hc with rfl | rfl <;> decide
  rw [scan_ux, scan_x_word bare hne hds hlen hstop]
  show some (xnum ds % 2 ^ 32, rest) = _
  rw [Nat.mod_eq_of_lt hsmall]

def Stop (rest : List UInt8) : Prop := ∀ c ∈ rest.head?, c = 0x2d

theorem hex4_ne_nil {n : Nat} (h : n < 2 ^ 16) : hex4 n ≠ [] := fun hnil => by
  have hlen := length_hex4 h
  rw [hnil] at hlen
  cases hlen

theorem scan_hex4 (devno : UInt16) {rest : List UInt8} (hrest : Stop rest) :
    scan_ux bare 32 8 (hex4 devno.toNat ++ rest) = some (devno.toNat, rest) := by
  have hlen := length_hex4 devno.toNat_lt
  rw [scan_ux_word bare _ _ (hex4_ne_nil devno.toNat_lt) (hex4_xdigit _) (by omega) fun c hc =>
    .inr (hrest c hc), xnum_hex4]

theorem scan_hex8 (n : UInt8) (rest : List UInt8) :
    scan_ux bare 32 8 (hex n.toNat ++ 0x2e :: rest) = some (n.toNat, 0x2e :: rest) := by
  have hlt := n.toNat_lt
  have hlen := length_hex (k := 8) (by decide) (show n.toNat < 16 ^ 8 by omega)
  rw [scan_ux_word bare _ _ (hex_ne_nil _) (hex_xdigit _) hlen fun c hc => by cases hc; exact .inl rfl, xnum_hex]

theorem sscanf_devno_hex4 (devno : UInt16) (rest : List UInt8) (hrest : Stop rest) :
    sscanf_devno bare (hex4 devno.toNat ++ rest) = if at_end rest then some devno.toNat else none := by
  rw [sscanf_devno, scan_hex4 bare devno hrest]
  rfl

theorem sscanf_devno_str (d : CcwDevid) (rest : List UInt8) :
    sscanf_devno bare (ccw_devid_to_str d ++ rest) = none := by
  rw [sscanf_devno, ccw_devid_to_str, List.append_assoc, List.cons_append, scan_hex8]
  rfl

theorem sscanf_devid_str (d : CcwDevid) (rest : List UInt8) (hrest : Stop rest) :
    sscanf_devid bare (ccw_devid_to_str d ++ rest) =
      if at_end rest then some (d.cssid.toNat, d.ssid.toNat, d.devno.toNat) else none := by
  rw [sscanf_devid, ccw_devid_to_str, List.append_assoc, List.cons_append, List.append_assoc,
    List.cons_append, scan_hex8]
  show (scan_ux bare 32 8 (hex d.ssid.toNat ++ 0x2e :: (hex4 d.devno.toNat ++ rest)) >>= _) = _
  rw [scan_hex8]
  show (scan_ux bare 32 8 (hex4 d.devno.toNat ++ rest) >>= _) = _
  rw [scan_hex4 bare d.devno hrest]
  rfl

theorem check_bounds_ok {d : CcwDevid} (h : d.ssid.toNat ≤ SSID_MAX) :
    check_bounds d.cssid.toNat d.ssid.toNat d.devno.toNat = .ok d := by
  have hc := d.cssid.toNat_lt
  have hn := d.devno.toNat_lt
  rw [check_bounds, if_neg (by rw [CSSID_MAX]; omega), if_neg (by omega), if_neg (by rw [DEVNO_MAX]; omega),
    UInt8.ofNat_toNat, UInt8.ofNat_toNat, UInt16.ofNat_toNat]

theorem parse_hex4 (devno : UInt16) : ccw_parse_devid bare (hex4 devno.toNat) =
    .ok { cssid := 0, ssid := 0, devno } := by
  have hlen := length_hex4 devno.toNat_lt
  have hscan := sscanf_devno_hex4 bare devno [] fun c hc => by cases hc
  have hcase : strcasecmp (hex4 devno.toNat) (chars "0x") = false := by
    rw [strcasecmp, beq_eq_false_iff_ne]
    intro h
    have := congrArg List.length h
    rw [List.length_map, hlen] at this
    exact absurd this (by decide +kernel)
  rw [List.append_nil] at hscan
  rw [ccw_parse_devid, hscan]
  show (if strcasecmp (hex4 devno.toNat) (chars "0x") = true then _ else check_bounds 0 0 devno.toNat) = _
  rw [if_neg (by rw [hcase]; exact Bool.false_ne_true)]
  exact check_bounds_ok (d := { cssid := 0, ssid := 0, devno }) (Nat.zero_le _)

theorem parse_to_str {d : CcwDevid} (h : d.ssid.toNat ≤ SSID_MAX) :
    ccw_parse_devid bare (ccw_devid_to_str d) = .ok d := by
  have hone := sscanf_devno_str bare d []
  have hthree := sscanf_devid_str bare d [] fun c hc => by cases hc
  rw [List.append_nil] at hone hthree
  rw [ccw_parse_devid, hone, hthree]
  exact check_bounds_ok h

theorem parse_hyphen (d : CcwDevid) (rest : List UInt8) :
    ccw_parse_devid bare (ccw_devid_to_str d ++ 0x2d :: rest) = .error "Invalid format" ∧
      ccw_parse_devid bare (hex4 d.devno.toNat ++ 0x2d :: rest) = .error "Invalid format" := by
  have hstop : Stop (0x2d :: rest) := fun c hc => by cases hc; rfl
  have hend : at_end (0x2d :: rest) = false := rfl
  have hdevid : sscanf_devid bare (hex4 d.devno.toNat ++ 0x2d :: rest) = none := by
    rw [sscanf_devid, scan_hex4 bare d.devno hstop]
    rfl
  rw [ccw_parse_devid, sscanf_devno_str, sscanf_devid_str bare d _ hstop, ccw_parse_devid,
    sscanf_devno_hex4 bare d.devno _ hstop, hdevid, hend]
  exact ⟨rfl, rfl⟩

theorem simple_eq {id : List UInt8} {d : CcwDevid} :
    ccw_parse_devid_simple bare id = some d ↔ ccw_parse_devid bare id = .ok d := by
  rw [ccw_parse_devid_simple]
  cases ccw_parse_devid bare id with
  | error e => exact ⟨fun h => (by cases h), fun h => (by cases h)⟩
  | ok d' => exact ⟨fun h => (by cases h; rfl), fun h => (by cases h; rfl)⟩

theorem parse_ssid {id : List UInt8} {d : CcwDevid} (h : ccw_parse_devid bare id = .ok d) :
    d.ssid.toNat ≤ SSID_MAX := by
  have hbounds : ∀ {c s n}, check_bounds c s n = .ok d → d.ssid.toNat ≤ SSID_MAX := fun {c s n} h => by
    rw [check_bounds] at h
    split at h
    · cases h
    split at h
    · cases h
    split at h
    · cases h
    cases h
    dsimp only
    rw [UInt8.toNat_ofNat', SSID_MAX] at *
    omega
  rw [ccw_parse_devid] at h
  split at h
  · split at h
    · cases h
    · exact hbounds h
  · split at h
    · cases h
    · exact hbounds h

end

end Zdev.Ccw
