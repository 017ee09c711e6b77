import S390Tools.Lib.CString

/-!
# Hexadecimal numbers, read and printed

`scan_x` is the conversion `%x` of `scanf` with a field width: blanks, a sign and the
prefix `0x` may stand before the digits. Whether a prefix without digits counts as zero
is up to the library (`bare`). `%x` of `printf` prints what `scan_x` reads back.
-/

namespace Scanf

open CString

def isxdigit (c : UInt8) : Bool := isdigit c || (0x41 ≤ c && c ≤ 0x46) || (0x61 ≤ c && c ≤ 0x66)

def xval (c : UInt8) : Nat := if isdigit c then c.toNat - 0x30 else (tolower c).toNat - 0x57

def xnum (ds : List UInt8) : Nat := ds.foldl (fun n c => 16 * n + xval c) 0

def scan_digits (width : Nat) (s : List UInt8) : Option (Nat × List UInt8) :=
  if (s.take width).takeWhile isxdigit = [] then none
  else some (xnum ((s.take width).takeWhile isxdigit), s.drop ((s.take width).takeWhile isxdigit).length)

def is_prefix : List UInt8 → Bool
  | c :: x :: _ => c == 0x30 && (x == 0x78 || x == 0x58)
  | _ => false

def is_sign : List UInt8 → Bool
  | c :: _ => c == 0x2d || c == 0x2b
  | [] => false

section
variable (bare : Bool)

def scan_unsigned (width : Nat) (s : List UInt8) : Option (Nat × List UInt8) :=
  if 2 ≤ width ∧ is_prefix s then (scan_digits (width - 2) (s.drop 2)).or (if bare then some (0,
    s.drop 2) else none)
  else scan_digits width s

def scan_x (width : Nat) (s : List UInt8) : Option (Bool × Nat × List UInt8) :=
  let s := s.dropWhile isspace
  if is_sign s then (scan_unsigned bare (width - 1) s.tail).map fun p => (s.head? == some 0x2d, p)
  else (scan_unsigned bare width s).map fun p => (false, p)

def unsigned (bits : Nat) (neg : Bool) (n : Nat) : Nat :=
  if neg then (2 ^ bits - n % 2 ^ bits) % 2 ^ bits else n % 2 ^ bits

def scan_ux (bits width : Nat) (s : List UInt8) : Option (Nat × List UInt8) :=
  (scan_x bare width s).map fun (neg, n, s) => (unsigned bits neg n, s)

end

/-- A final ` %c` finds nothing. -/
def at_end (s : List UInt8) : Bool := s.dropWhile isspace = []

/-! ## Characters -/

theorem isxdigit_char (c : UInt8) : isxdigit c = true →
    isspace c = false ∧ (c == 0x2d || c == 0x2b) = false ∧ (c == 0x78 || c == 0x58) = false ∧ xval c < 16 := by
  revert c
  decide +kernel

theorem isxdigit_not_space {c : UInt8} (h : isxdigit c = true) : isspace c = false := (isxdigit_char c h).1

theorem isxdigit_not_sign {c : UInt8} (h : isxdigit c = true) : (c == 0x2d || c == 0x2b) = false :=
  (isxdigit_char c h).2.1

theorem xval_lt {c : UInt8} (h : isxdigit c = true) : xval c < 16 := (isxdigit_char c h).2.2.2

theorem hexDigit_xdigit {n : Nat} (h : n < 16) : isxdigit (hexDigit n) = true ∧ xval (hexDigit n) = n := by
  revert h n
  decide

/-! ## Printing -/

theorem xnum_foldl : ∀ (ds : List UInt8) (n : Nat), ds.foldl (fun n c => 16 * n + xval c) n =
    16 ^ ds.length * n + xnum ds
  | [], n => by simp [xnum]
  | c :: ds, n => by
    have hcons : xnum (c :: ds) = 16 ^ ds.length * xval c + xnum ds := by
      rw [xnum, List.foldl_cons, xnum_foldl, Nat.mul_zero, Nat.zero_add]
    rw [List.foldl_cons, xnum_foldl, hcons, List.length_cons, Nat.pow_succ]
    ring

theorem xnum_append (a b : List UInt8) : xnum (a ++ b) = 16 ^ b.length * xnum a + xnum b := by
  rw [xnum, List.foldl_append, xnum_foldl]
  rfl

theorem xnum_lt {ds : List UInt8} (h : ∀ c ∈ ds, isxdigit c = true) : xnum ds < 16 ^ ds.length := by
  induction ds with
  | nil => decide
  | cons c ds ih =>
    have hc := xval_lt (h c List.mem_cons_self)
    have hds := ih fun x hx => h x (List.mem_cons_of_mem c hx)
    rw [← List.singleton_append, xnum_append, List.length_append, List.length_singleton, Nat.pow_add, Nat.pow_one]
    have hone : xnum [c] = xval c := by simp [xnum]
    rw [hone]
    nlinarith

theorem hex_digits (n : Nat) : ∀ c ∈ hex n, ∃ d, d < 16 ∧ c = hexDigit d := by
  induction n using Nat.strongRecOn with
  | _ n ih =>
    intro c hc
    rw [hex] at hc
    split at hc
    · rename_i hn
      exact ⟨n, hn, List.mem_singleton.mp hc⟩
    · rcases List.mem_append.mp hc with hc | hc
      · exact ih (n / 16) (by omega) c hc
      · exact ⟨n % 16, Nat.mod_lt _ (by decide), List.mem_singleton.mp hc⟩

theorem hex_xdigit (n : Nat) : ∀ c ∈ hex n, isxdigit c = true := fun c hc => by
  obtain ⟨d, hd, rfl⟩ := hex_digits n c hc
  exact (hexDigit_xdigit hd).1

theorem xnum_hex (n : Nat) : xnum (hex n) = n := by
  induction n using Nat.strongRecOn with
  | _ n ih =>
    rw [hex]
    split
    · rename_i hn
      rw [xnum, List.foldl_cons, List.foldl_nil, (hexDigit_xdigit hn).2]
      omega
    · rw [xnum_append, ih (n / 16) (by omega), xnum, List.foldl_cons, List.foldl_nil,
        (hexDigit_xdigit (Nat.mod_lt n (by decide))).2, List.length_singleton]
      omega

theorem length_hex {n k : Nat} (hk : 1 ≤ k) (hn : n < 16 ^ k) : (hex n).length ≤ k := by
  induction k generalizing n with
  | zero => omega
  | succ k ih =>
    rw [hex]
    split
    · exact hk
    · rw [List.length_append, List.length_singleton]
      rename_i hbig
      rw [Nat.pow_succ] at hn
      have hk' : 1 ≤ k := by
        rcases Nat.eq_zero_or_pos k with rfl | hk'
        · omega
        · exact hk'
      have := ih hk' (show n / 16 < 16 ^ k by omega)
      omega

theorem hex_ne_nil (n : Nat) : hex n ≠ [] := by
  rw [hex]
  split
  · exact List.cons_ne_nil _ _
  · exact List.append_ne_nil_of_right_ne_nil _ (List.cons_ne_nil _ _)

theorem xnum_zeros (k : Nat) (ds : List UInt8) : xnum (List.replicate k 0x30 ++ ds) = xnum ds := by
  have h : xnum (List.replicate k 0x30) = 0 := by
    induction k with
    | zero => rfl
    | succ k ih =>
      rw [List.replicate_succ', xnum_append, ih]
      decide
  rw [xnum_append, h]
  omega

/-! ## Reading what was printed -/

theorem scan_digits_word {width : Nat} {ds rest : List UInt8} (hne : ds ≠ []) (hds : ∀ c ∈ ds, isxdigit c = true)
    (hlen : ds.length ≤ width) (hrest : ds.length = width ∨ ∀ c ∈ rest.head?, isxdigit c = false) :
    scan_digits width (ds ++ rest) = some (xnum ds, rest) := by
  have htake : ((ds ++ rest).take width).takeWhile isxdigit = ds := by
    rw [List.take_append, List.take_of_length_le hlen, List.takeWhile_append_of_pos hds]
    rcases hrest with hrest | hrest
    · rw [hrest, Nat.sub_self, List.take_zero, List.takeWhile_nil, List.append_nil]
    · cases rest with
      | nil => simp
      | cons c rest =>
        have hc := hrest c rfl
        cases hw : width - ds.length with
        | zero => simp
        | succ k => rw [List.take_succ_cons, List.takeWhile_cons_of_neg (by simp [hc]), List.append_nil]
  rw [scan_digits, htake, if_neg hne, List.drop_left]

theorem is_prefix_word {ds rest : List UInt8} (hds : ∀ c ∈ ds, isxdigit c = true) (hne : ds ≠ [])
    (hx : ∀ c ∈ rest.head?, c ≠ 0x78 ∧ c ≠ 0x58) : is_prefix (ds ++ rest) = false := by
  have hno : ∀ c, isxdigit c = true → (c == 0x78 || c == 0x58) = false := fun c h => (isxdigit_char c h).2.2.1
  match ds, rest with
  | [], _ => exact absurd rfl hne
  | [c], [] => rfl
  | [c], d :: rest =>
    have hd := hx d rfl
    simp [hd.1, hd.2, is_prefix]
  | c :: d :: ds, rest =>
    have hd := hno d (hds d (List.mem_cons_of_mem c List.mem_cons_self))
    rw [List.cons_append, List.cons_append, is_prefix, hd, Bool.and_false]

theorem scan_x_word (bare : Bool) {width : Nat} {ds rest : List UInt8} (hne : ds ≠ [])
    (hds : ∀ c ∈ ds, isxdigit c = true) (hlen : ds.length ≤ width)
    (hrest : ∀ c ∈ rest.head?, isxdigit c = false ∧ c ≠ 0x78 ∧ c ≠ 0x58) :
    scan_x bare width (ds ++ rest) = some (false, xnum ds, rest) := by
  have hprefix := is_prefix_word hds hne fun c hc => (hrest c hc).2
  have hword : scan_digits width (ds ++ rest) = _ := scan_digits_word hne hds hlen (.inr fun c hc => (hrest c hc).1)
  cases ds with
  | nil => exact absurd rfl hne
  | cons c ds =>
    have hc := hds c List.mem_cons_self
    have hspace : ((c :: ds) ++ rest).dropWhile isspace = (c :: ds) ++ rest := by
      rw [List.cons_append, List.dropWhile_cons_of_neg (by rw [isxdigit_not_space hc]; decide)]
    have hsign : is_sign ((c :: ds) ++ rest) = false := isxdigit_not_sign hc
    rw [scan_x, hspace, hsign, if_neg Bool.false_ne_true, scan_unsigned, hprefix, if_neg fun h =>
      Bool.false_ne_true h.2, hword]
    rfl

end Scanf
