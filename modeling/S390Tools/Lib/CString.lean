import Mathlib

/-!
# Strings in character arrays

A character array is the list of its bytes; the string in it ends at the first
null byte. Searches return positions, copies into an array fail where they would
leave it.
-/

namespace CString

def str (s : List UInt8) : List UInt8 := s.takeWhile (· != 0)

def strchr (s : List UInt8) (c : UInt8) : Option Nat := (str s).findIdx? (· == c)

@[grind =] def find (needle : List UInt8) : List UInt8 → Option Nat
  | [] => if needle = [] then some 0 else none
  | c :: s => if needle.isPrefixOf (c :: s) then some 0 else (find needle s).map (· + 1)

def strstr (haystack needle : List UInt8) : Option Nat := find needle (str haystack)

def ncopy (src : List UInt8) (n : Nat) : List UInt8 :=
  (str src).take n ++ List.replicate (n - ((str src).take n).length) 0

def strncpy (dest : List UInt8) (i : Nat) (src : List UInt8) (n : Nat) : Option (List UInt8) :=
  if i + n ≤ dest.length then some (dest.take i ++ ncopy src n ++ dest.drop (i + n)) else none

def isspace (c : UInt8) : Bool := c == 0x20 || (0x09 ≤ c && c ≤ 0x0d)

def isdigit (c : UInt8) : Bool := 0x30 ≤ c && c ≤ 0x39

def isalpha (c : UInt8) : Bool := (0x41 ≤ c && c ≤ 0x5a) || (0x61 ≤ c && c ≤ 0x7a)

def isalnum (c : UInt8) : Bool := isalpha c || isdigit c

def tolower (c : UInt8) : UInt8 := if 0x41 ≤ c && c ≤ 0x5a then c + 0x20 else c

def toupper (c : UInt8) : UInt8 := if 0x61 ≤ c && c ≤ 0x7a then c - 0x20 else c

def digits (s : List UInt8) : Nat :=
  (s.takeWhile isdigit).foldl (fun n c => 10 * n + (c.toNat - 0x30)) 0

def atoi (s : List UInt8) : Int :=
  match (str s).dropWhile isspace with
  | 0x2d :: s => -digits s
  | 0x2b :: s => digits s
  | s => digits s

/-- `%d` for numbers without sign. -/
def decimal (n : Nat) : List UInt8 := (Nat.toDigits 10 n).map fun c => UInt8.ofNat c.toNat

/-- `%04d` for numbers below 10000. -/
def decimal4 (n : Nat) : List UInt8 :=
  [n / 1000 % 10, n / 100 % 10, n / 10 % 10, n % 10].map fun d => UInt8.ofNat (0x30 + d)

def hexDigit (n : Nat) : UInt8 := UInt8.ofNat (if n < 10 then 0x30 + n else 0x57 + n)

@[grind =] def hex (n : Nat) : List UInt8 :=
  if n < 16 then [hexDigit n] else hex (n / 16) ++ [hexDigit (n % 16)]

def hex4 (n : Nat) : List UInt8 := List.replicate (4 - (hex n).length) 0x30 ++ hex n

/-! ## Strings -/

theorem str_append {a b : List UInt8} (ha : ∀ c ∈ a, c ≠ 0) : str (a ++ b) = a ++ str b := by
  unfold str
  rw [List.takeWhile_append_of_pos fun c hc => by simpa using ha c hc]

theorem str_eq_self {a : List UInt8} (ha : ∀ c ∈ a, c ≠ 0) : str a = a := by
  have := str_append (b := []) ha
  simpa [str] using this

theorem strchr_append {a b : List UInt8} {c : UInt8} (ha : ∀ x ∈ a, x ≠ 0 ∧ x ≠ c) (hc : c ≠ 0) :
    strchr (a ++ c :: b) c = some a.length := by
  unfold strchr
  rw [str_append fun x hx => (ha x hx).1]
  have hcb : str (c :: b) = c :: str b := by simp [str, hc]
  rw [hcb, List.findIdx?_append, List.findIdx?_eq_none_iff.mpr fun x hx => by simpa using (ha x hx).2]
  simp [List.findIdx?_cons]

/-! ## Search -/

theorem find_nil (s : List UInt8) : find [] s = some 0 := by
  cases s <;> simp [find]

theorem prefix_of_append {n a b : List UInt8} {x : UInt8} (hx : x ∉ n) :
    n.isPrefixOf (a ++ x :: b) = n.isPrefixOf a := by
  induction n generalizing a with
  | nil => simp
  | cons c n ih =>
    have hcx : x ≠ c := fun h => hx (h ▸ List.mem_cons_self ..)
    have hxn : x ∉ n := fun h => hx (List.mem_cons_of_mem _ h)
    cases a with
    | nil => simp [List.isPrefixOf, hcx.symm]
    | cons d a => simp [List.isPrefixOf, ih hxn]

theorem find_append {n : List UInt8} (hn : n ≠ []) {x : UInt8} (hx : x ∉ n) (b : List UInt8) : ∀ a : List UInt8,
    find n (a ++ x :: b) = (find n a).or ((find n b).map (· + (a.length + 1)))
  | [] => by
    have h : n.isPrefixOf (x :: b) = false := by
      have := prefix_of_append (a := []) (b := b) hx
      rw [List.nil_append] at this
      rw [this]
      cases n with
      | nil => exact absurd rfl hn
      | cons c n => rfl
    simp [find, h, hn]
  | c :: a => by
    have hp : n.isPrefixOf (c :: a ++ x :: b) = n.isPrefixOf (c :: a) := prefix_of_append hx
    rw [List.cons_append] at hp ⊢
    simp only [find, hp]
    by_cases h : n.isPrefixOf (c :: a) = true
    · rw [if_pos h, if_pos h, Option.some_or]
    · rw [if_neg h, if_neg h, find_append hn hx b a]
      cases find n a with
      | some i => rfl
      | none =>
        cases find n b with
        | none => rfl
        | some j => simp; omega

theorem find_self (n b : List UInt8) : find n (n ++ b) = some 0 := by
  cases n with
  | nil => exact find_nil b
  | cons c n =>
    have h : (c :: n).isPrefixOf (c :: n ++ b) = true := by
      rw [List.isPrefixOf_iff_prefix]; exact List.prefix_append ..
    rw [List.cons_append] at h ⊢
    simp only [find]
    rw [if_pos h]

theorem find_append_ne_none {n a : List UInt8} (b : List UInt8) (h : find n a ≠ none) : find n (a ++ b) ≠ none := by
  induction a with
  | nil =>
    have hn : n = [] := by
      by_contra hn
      exact h (by simp [find, hn])
    rw [hn, find_nil]
    simp
  | cons c a ih =>
    rw [List.cons_append]
    simp only [find] at h ⊢
    by_cases hp : n.isPrefixOf (c :: (a ++ b)) = true
    · rw [if_pos hp]; simp
    · rw [if_neg hp]
      rw [if_neg] at h
      · simpa using ih (by simpa using h)
      · intro hp'
        rw [List.isPrefixOf_iff_prefix] at hp hp'
        exact hp (hp'.trans (List.prefix_append (c :: a) b))

theorem find_line {x : UInt8} {m a : List UInt8} (ha : x ∉ a) (b : List UInt8) :
    find (x :: m) (a ++ x :: b) =
      if m.isPrefixOf b then some a.length else (find (x :: m) b).map (· + (a.length + 1)) := by
  induction a with
  | nil => simp [find, List.isPrefixOf]
  | cons c a ih =>
    have hc : (x == c) = false := by simpa using (List.mem_cons.not.mp ha |> not_or.mp).1
    have ha' : x ∉ a := fun h => ha (List.mem_cons_of_mem _ h)
    simp only [List.cons_append, find, List.isPrefixOf, hc, Bool.false_and, Bool.false_eq_true, if_false, ih ha']
    split
    · simp
    · cases find (x :: m) b with
      | none => rfl
      | some i => simp [Nat.add_assoc]

/-! ## Copies -/

@[simp] theorem ncopy_length (src : List UInt8) (n : Nat) : (ncopy src n).length = n := by
  simp only [ncopy, List.length_append, List.length_replicate, List.length_take]
  omega

theorem ncopy_append {a b : List UInt8} (ha : ∀ c ∈ a, c ≠ 0) : ncopy (a ++ b) a.length = a := by
  simp [ncopy, str_append ha]

theorem ncopy_eq_self {a : List UInt8} (ha : ∀ c ∈ a, c ≠ 0) : ncopy a a.length = a := by
  have := ncopy_append (b := []) ha
  rwa [List.append_nil] at this

theorem ncopy_append_add {a b : List UInt8} (ha : ∀ c ∈ a, c ≠ 0) (n : Nat) :
    ncopy (a ++ b) (a.length + n) = a ++ ncopy b n := by
  have h₁ : ((str b).take n).length ≤ n := by simp
  simp only [ncopy, str_append ha, List.take_length_add_append, List.length_append, List.append_assoc]
  congr 3
  omega

theorem strncpy_at {a r : List UInt8} {i n : Nat} (src : List UInt8) (hi : i = a.length) (hn : n ≤ r.length) :
    strncpy (a ++ r) i src n = some (a ++ (ncopy src n ++ r.drop n)) := by
  subst hi
  unfold strncpy
  rw [if_pos (by rw [List.length_append]; omega), List.take_left, List.drop_length_add_append, List.append_assoc]

theorem strncpy_length {dest src t : List UInt8} {i n : Nat} (h : strncpy dest i src n = some t) :
    t.length = dest.length := by
  unfold strncpy at h
  split at h
  · cases h
    simp only [List.length_append, List.length_take, ncopy_length, List.length_drop]
    omega
  · cases h

/-! ## Decimal numbers -/

theorem digit_char {c : Char} (h : c.isDigit = true) :
    isdigit (UInt8.ofNat c.toNat) = true ∧ (UInt8.ofNat c.toNat).toNat - 0x30 = c.toNat - '0'.toNat := by
  have hrange : 0x30 ≤ c.toNat ∧ c.toNat ≤ 0x39 := by
    rw [Char.isDigit_iff_toNat] at h
    exact h
  have hsize : UInt8.size = 256 := rfl
  have hnat : (UInt8.ofNat c.toNat).toNat = c.toNat := UInt8.toNat_ofNat_of_lt' (by omega)
  constructor
  · simp only [isdigit, Bool.and_eq_true, decide_eq_true_eq, UInt8.le_iff_toNat_le, hnat]
    exact hrange
  · rw [hnat]
    rfl

theorem decimal_digits (n : Nat) : ∀ c ∈ decimal n, isdigit c = true := by
  intro c hc
  obtain ⟨d, hd, rfl⟩ := List.mem_map.mp hc
  exact (digit_char (Nat.isDigit_of_mem_toDigits (by decide) (by decide) hd)).1

theorem decimal_ne_nil (n : Nat) : decimal n ≠ [] :=
  fun h => Nat.toDigits_ne_nil (List.map_eq_nil_iff.mp h)

theorem digits_append {ds rest : List UInt8} (hds : ∀ c ∈ ds, isdigit c = true)
    (hrest : ∀ c ∈ rest.head?, isdigit c = false) : digits (ds ++ rest) = digits ds := by
  have hnil : rest.takeWhile isdigit = [] := by
    cases rest with
    | nil => rfl
    | cons c rest => rw [List.takeWhile_cons_of_neg (by rw [hrest c rfl]; exact Bool.false_ne_true)]
  rw [digits, digits, List.takeWhile_append_of_pos hds, hnil, List.append_nil, List.takeWhile_eq_self_iff.mpr hds]

theorem digits_decimal (n : Nat) : digits (decimal n) = n := by
  have hall : (decimal n).takeWhile isdigit = decimal n := List.takeWhile_eq_self_iff.mpr (decimal_digits n)
  have hfold : ∀ (l : List Char) (init : Nat), (∀ c ∈ l, c.isDigit = true) →
      (l.map fun c => UInt8.ofNat c.toNat).foldl (fun n c => 10 * n + (c.toNat - 0x30)) init =
        Nat.ofDigitChars 10 l init := by
    intro l
    induction l with
    | nil => exact fun init _ => Nat.ofDigitChars_nil.symm
    | cons c l ih =>
      intro init hl
      rw [List.map_cons, List.foldl_cons, Nat.ofDigitChars_cons, (digit_char (hl c List.mem_cons_self)).2]
      exact ih _ fun d hd => hl d (List.mem_cons_of_mem c hd)
  rw [digits, hall, decimal, hfold _ _ fun c hc => Nat.isDigit_of_mem_toDigits (by decide) (by decide) hc]
  exact Nat.ofDigitChars_toDigits (by decide) (by decide)

end CString
