import S390Tools.Lib.Occurs

/-!
# Lookups in vmcoreinfo

The functions of `dfi_vmcoreinfo.c` that look up an item. The text is a
NUL-terminated string. A result has, besides the value, the place in the text
from which it was copied.
-/

namespace Zdump.Vmcoreinfo

open CString

abbrev Bytes := List UInt8

/-! ## strtoul -/

def ULONG_MAX : Nat := 18446744073709551615

def digit_value (c : UInt8) : Nat :=
  if isdigit c then c.toNat - 0x30
  else if isalpha c then (tolower c).toNat - 0x61 + 10
  else 36

def digits_value (base : Nat) (s : Bytes) : Nat :=
  (s.takeWhile fun c => digit_value c < base).foldl (fun n c => base * n + digit_value c) 0

def skip_sign (s : Bytes) : Bool × Bytes :=
  match s with
  | 0x2d :: s => (true, s)
  | 0x2b :: s => (false, s)
  | s => (false, s)

/-- In base 16 a number may have the prefix `0x`. -/
def skip_0x (base : Nat) (s : Bytes) : Bytes :=
  match s with
  | 0x30 :: x :: c :: s => if base = 16 ∧ tolower x = 0x78 ∧ digit_value c < 16 then c :: s else 0x30 :: x :: c :: s
  | s => s

def strtoul (s : Bytes) (base : Nat) : Nat :=
  let (negative, s) := skip_sign ((str s).dropWhile isspace)
  let n := digits_value base (skip_0x base s)
  if n > ULONG_MAX then ULONG_MAX
  else if negative then (ULONG_MAX + 1 - n) % (ULONG_MAX + 1) else n

/-! ## The lookups -/

/-- A write behind the end of a buffer, or a copy of a string without an end. -/
inductive Fault
  | outside
  deriving DecidableEq

structure Found (α : Type) where
  pos : Nat
  value : α
  deriving DecidableEq

def Found.map {α β : Type} (f : α → β) (x : Found α) : Found β := ⟨x.pos, f x.value⟩

def nl : UInt8 := 0x0a

def equals : UInt8 := 0x3d

def item_key (fmt : Option Bytes) (sym : Bytes) : Bytes :=
  match fmt with
  | some fmt => fmt ++ 0x28 :: sym ++ [0x29]
  | none => sym

section
variable (vmcoreinfo : Option Bytes)

def vmcoreinfo_item (len : Nat) (fmt : Option Bytes) (sym : Bytes) : Except Fault (Option (Found Bytes)) :=
  match vmcoreinfo with
  | none => .ok none
  | some vmcoreinfo =>
    let s := (item_key fmt sym ++ [equals]).take 1023
    match strstr vmcoreinfo s with
    | none => .ok none
    | some pos =>
      let item := ((str vmcoreinfo).drop (pos + s.length)).takeWhile (· != nl)
      -- a copy of 1024 bytes leaves no NUL in the array
      if 1024 ≤ item.length then .error .outside
      else if len ≤ item.length then .error .outside
      else .ok (some ⟨pos + s.length, item⟩)

def vmcoreinfo_item_ulong (fmt : Option Bytes) (sym : Bytes) (base : Nat) : Except Fault (Option (Found Nat)) :=
  (vmcoreinfo_item vmcoreinfo 1024 fmt sym).map (Option.map (Found.map fun s => strtoul s base))

def SYMBOL : Bytes := [0x53, 0x59, 0x4d, 0x42, 0x4f, 0x4c]
def OFFSET : Bytes := [0x4f, 0x46, 0x46, 0x53, 0x45, 0x54]
def SIZE : Bytes := [0x53, 0x49, 0x5a, 0x45]
def LENGTH : Bytes := [0x4c, 0x45, 0x4e, 0x47, 0x54, 0x48]

def dfi_vmcoreinfo_tag (len : Nat) (sym : Bytes) : Except Fault (Option (Found Bytes)) :=
  vmcoreinfo_item vmcoreinfo len none sym

def dfi_vmcoreinfo_symbol (sym : Bytes) : Except Fault (Option (Found Nat)) :=
  vmcoreinfo_item_ulong vmcoreinfo (some SYMBOL) sym 16

def dfi_vmcoreinfo_offset (sym : Bytes) : Except Fault (Option (Found Nat)) :=
  vmcoreinfo_item_ulong vmcoreinfo (some OFFSET) sym 10

def dfi_vmcoreinfo_size (sym : Bytes) : Except Fault (Option (Found Nat)) :=
  vmcoreinfo_item_ulong vmcoreinfo (some SIZE) sym 10

def dfi_vmcoreinfo_length (sym : Bytes) : Except Fault (Option (Found Nat)) :=
  vmcoreinfo_item_ulong vmcoreinfo (some LENGTH) sym 10

def dfi_vmcoreinfo_val (sym : Bytes) : Except Fault (Option (Found Nat)) :=
  vmcoreinfo_item_ulong vmcoreinfo none sym 10

end

/-! ## Texts of lines -/

structure Line where
  key : Bytes
  value : Bytes
  key_chars : ∀ c ∈ key, c ≠ 0 ∧ c ≠ nl ∧ c ≠ equals
  value_chars : ∀ c ∈ value, c ≠ 0 ∧ c ≠ nl

def Line.bytes (l : Line) : Bytes := l.key ++ equals :: l.value

/-- Every line ends with a newline, the last one if `closed`. -/
def text (closed : Bool) : List Line → Bytes
  | [] => []
  | [l] => l.bytes ++ if closed then [nl] else []
  | l :: ls => l.bytes ++ nl :: text closed ls

/-- The value of the first line with the key, in a text that starts at `pos`. -/
def first_line (key : Bytes) : Nat → List Line → Option (Found Bytes)
  | _, [] => none
  | pos, l :: ls =>
    if l.key = key then some ⟨pos + key.length + 1, l.value⟩ else first_line key (pos + l.bytes.length + 1) ls

def width (ls : List Line) : Nat := (ls.flatMap fun l => l.bytes ++ [nl]).length

/-- If the key with its equals sign occurs, then first at the start of a line with this key, and the value of
the line with the NUL fits into the arrays. -/
def Fits (closed : Bool) (lines : List Line) (len : Nat) (key : Bytes) : Prop :=
  find (key ++ [equals]) (text closed lines) = none ∨
    ∃ (pre : List Line) (l : Line) (post : List Line), lines = pre ++ l :: post ∧
      find (key ++ [equals]) (text closed lines) = some (width pre) ∧ l.key = key ∧
      l.value.length < 1024 ∧ l.value.length < len

section
variable {closed : Bool} {key : Bytes}

theorem width_cons (l : Line) (ls : List Line) : width (l :: ls) = l.bytes.length + 1 + width ls := by
  rw [width, List.flatMap_cons, List.length_append, List.length_append]
  rfl

variable (closed) in
theorem text_split (l : Line) (post : List Line) : ∀ pre : List Line, ∃ rest, (rest = [] ∨ ∃ t, rest = nl :: t) ∧
    text closed (pre ++ l :: post) = (pre.flatMap fun l => l.bytes ++ [nl]) ++ (l.bytes ++ rest)
  | [] => by
    cases post with
    | nil =>
      refine ⟨if closed then [nl] else [], ?_, rfl⟩
      cases closed
      · exact Or.inl rfl
      · exact Or.inr ⟨[], rfl⟩
    | cons l' post => exact ⟨nl :: text closed (l' :: post), Or.inr ⟨_, rfl⟩, rfl⟩
  | p :: pre => by
    obtain ⟨rest, hrest, htext⟩ := text_split l post pre
    refine ⟨rest, hrest, ?_⟩
    have hcons : text closed (p :: (pre ++ l :: post)) = p.bytes ++ nl :: text closed (pre ++ l :: post) := by
      cases pre <;> rfl
    rw [List.cons_append, hcons, htext, List.flatMap_cons, List.append_assoc, List.append_assoc,
      List.singleton_append]

theorem line_chars (l : Line) : ∀ c ∈ l.bytes, c ≠ 0 := by
  intro c hc
  rcases List.mem_append.mp hc with hc | hc
  · exact (l.key_chars c hc).1
  · rcases List.mem_cons.mp hc with rfl | hc
    · decide
    · exact (l.value_chars c hc).1

theorem text_chars : ∀ (lines : List Line), ∀ c ∈ text closed lines, c ≠ 0
  | [], c, hc => absurd hc List.not_mem_nil
  | [l], c, hc => by
    rcases List.mem_append.mp hc with hc | hc
    · exact line_chars l c hc
    · cases closed with
      | false => exact absurd hc List.not_mem_nil
      | true =>
        rw [List.mem_singleton.mp hc]
        decide
  | l :: l' :: ls, c, hc => by
    rcases List.mem_append.mp hc with hc | hc
    · exact line_chars l c hc
    · rcases List.mem_cons.mp hc with rfl | hc
      · decide
      · exact text_chars (l' :: ls) c hc

theorem str_text (lines : List Line) : str (text closed lines ++ [0]) = text closed lines := by
  rw [str_append (text_chars lines)]
  exact List.append_nil _

/-! ## Lines with a key -/

theorem first_line_some {f : Found Bytes} : ∀ {lines : List Line} {pos : Nat}, first_line key pos lines = some f →
    ∃ (pre : List Line) (l : Line) (post : List Line), lines = pre ++ l :: post ∧ l.key = key ∧
      f = ⟨pos + width pre + key.length + 1, l.value⟩
  | [], _, h => by cases h
  | l :: ls, pos, h => by
    rw [first_line] at h
    by_cases hk : l.key = key
    · rw [if_pos hk] at h
      exact ⟨[], l, ls, rfl, hk, (Option.some.inj h).symm⟩
    · rw [if_neg hk] at h
      obtain ⟨pre, l', post, rfl, hk', rfl⟩ := first_line_some h
      refine ⟨l :: pre, l', post, rfl, hk', ?_⟩
      rw [width_cons, Found.mk.injEq]
      exact ⟨by omega, rfl⟩

theorem first_line_split {l : Line} {post : List Line} (hk : l.key = key) : ∀ {pre : List Line} {pos : Nat},
    (∀ p ∈ pre, p.key ≠ key) → first_line key pos (pre ++ l :: post) =
      some ⟨pos + width pre + key.length + 1, l.value⟩
  | [], pos, _ => by
    rw [List.nil_append, first_line, if_pos hk]
    rfl
  | p :: pre, pos, hpre => by
    rw [List.cons_append, first_line, if_neg (hpre p List.mem_cons_self),
      first_line_split hk fun q hq => hpre q (List.mem_cons_of_mem p hq), width_cons,
        Option.some.injEq, Found.mk.injEq]
    exact ⟨by omega, rfl⟩

variable (closed) in
theorem text_drop {lines pre post : List Line} {l : Line} (hsplit : lines = pre ++ l :: post) (hk : l.key = key) :
    ∃ rest, (rest = [] ∨ ∃ t, rest = nl :: t) ∧
      (text closed lines).drop (width pre) = (key ++ [equals]) ++ (l.value ++ rest) := by
  obtain ⟨rest, hrest, htext⟩ := text_split closed l post pre
  refine ⟨rest, hrest, ?_⟩
  rw [hsplit, htext, width, List.drop_left, Line.bytes, hk, List.append_assoc, List.append_assoc]
  rfl

theorem occurs {lines pre post : List Line} {l : Line} (hsplit : lines = pre ++ l :: post) (hk : l.key = key) :
    (key ++ [equals]) <+: (text closed lines).drop (width pre) := by
  obtain ⟨rest, -, hdrop⟩ := text_drop closed hsplit hk
  rw [hdrop]
  exact List.prefix_append ..

theorem value_at {lines pre post : List Line} {l : Line} (hsplit : lines = pre ++ l :: post) (hk : l.key = key) :
    ((text closed lines).drop (width pre + (key ++ [equals]).length)).takeWhile (· != nl) = l.value := by
  obtain ⟨rest, hrest, hdrop⟩ := text_drop closed hsplit hk
  rw [← List.drop_drop, hdrop, List.drop_left]
  have hvalue : ∀ c ∈ l.value, (c != nl) = true := fun c hc => bne_iff_ne.mpr (l.value_chars c hc).2
  rcases hrest with rfl | ⟨t, rfl⟩
  · rw [List.append_nil, List.takeWhile_eq_self_iff.mpr hvalue]
  · rw [List.takeWhile_append_of_pos hvalue, List.takeWhile_cons_of_neg (by decide), List.append_nil]

end

/-! ## One item -/

section
variable {closed : Bool} {lines : List Line} {len : Nat} {fmt : Option Bytes} {sym : Bytes}
variable (hkey : (item_key fmt sym).length < 1023)
include hkey

theorem item_not_found (hnone : find (item_key fmt sym ++ [equals]) (text closed lines) = none) :
    vmcoreinfo_item (some (text closed lines ++ [0])) len fmt sym = .ok none := by
  have hs : (item_key fmt sym ++ [equals]).take 1023 = item_key fmt sym ++ [equals] :=
    List.take_of_length_le (by rw [List.length_append, List.length_singleton]; omega)
  simp only [vmcoreinfo_item, hs, strstr, str_text, hnone]

theorem item_found {pos : Nat} (hpos : find (item_key fmt sym ++ [equals]) (text closed lines) =
    some pos) {item : Bytes}
    (hitem : ((text closed lines).drop (pos + (item_key fmt sym ++ [equals]).length)).takeWhile (· != nl) = item) :
    vmcoreinfo_item (some (text closed lines ++ [0])) len fmt sym =
      if item.length < 1024 ∧ item.length < len then .ok (some ⟨pos + (item_key fmt sym ++ [equals]).length, item⟩)
      else .error .outside := by
  have hs : (item_key fmt sym ++ [equals]).take 1023 = item_key fmt sym ++ [equals] :=
    List.take_of_length_le (by rw [List.length_append, List.length_singleton]; omega)
  simp only [vmcoreinfo_item, hs, strstr, str_text, hpos, hitem]
  by_cases hlong : 1024 ≤ item.length
  · rw [if_pos hlong, if_neg (by omega)]
  · rw [if_neg hlong]
    by_cases hsmall : len ≤ item.length
    · rw [if_pos hsmall, if_neg (by omega)]
    · rw [if_neg hsmall, if_pos (by omega)]

variable (closed lines len) in
theorem item_iff {α : Type} (g : Bytes → α) :
    (vmcoreinfo_item (some (text closed lines ++ [0])) len fmt sym).map (Option.map (Found.map g)) =
      .ok ((first_line (item_key fmt sym) 0 lines).map (Found.map g)) ↔
        Fits closed lines len (item_key fmt sym) := by
  have hlen : (item_key fmt sym ++ [equals]).length = (item_key fmt sym).length + 1 := List.length_append
  obtain hnone | ⟨pos, hpos⟩ := Option.eq_none_or_eq_some (find (item_key fmt sym ++ [equals]) (text closed lines))
  · have hno : first_line (item_key fmt sym) 0 lines = none := by
      rw [Option.eq_none_iff_forall_ne_some]
      intro f hf
      obtain ⟨pre, l, post, hsplit, hk, -⟩ := first_line_some hf
      exact CString.find_none hnone _ (occurs hsplit hk)
    rw [item_not_found hkey hnone, hno]
    exact iff_of_true rfl (Or.inl hnone)
  · rw [item_found hkey hpos rfl]
    constructor
    · intro h
      by_cases hroom : (((text closed lines).drop (pos + (item_key fmt sym ++
        [equals]).length)).takeWhile (· != nl)).length < 1024 ∧
          (((text closed lines).drop (pos + (item_key fmt sym ++ [equals]).length)).takeWhile (· !=
            nl)).length < len
      · rw [if_pos hroom] at h
        have hsome := Except.ok.inj h
        obtain ⟨f, hf, hfound⟩ := Option.map_eq_some_iff.mp hsome.symm
        obtain ⟨pre, l, post, hsplit, hk, rfl⟩ := first_line_some hf
        have hplace : 0 + width pre + (item_key fmt sym).length + 1 = pos + (item_key fmt sym ++ [equals]).length :=
          congrArg Found.pos hfound
        obtain rfl : pos = width pre := by omega
        rw [value_at hsplit hk] at hroom
        exact Or.inr ⟨pre, l, post, hsplit, hpos, hk, hroom⟩
      · rw [if_neg hroom] at h
        cases h
    · rintro (hnone | ⟨pre, l, post, hsplit, hat, hk, hroom⟩)
      · rw [hnone] at hpos
        cases hpos
      · obtain rfl := Option.some.inj (hpos.symm.trans hat)
        have hfirst : ∀ p ∈ pre, p.key ≠ item_key fmt sym := by
          intro p hp hkp
          obtain ⟨pre', post', rfl⟩ := List.append_of_mem hp
          have hearly : lines = pre' ++ p :: (post' ++ l :: post) := by
            rw [hsplit, List.append_assoc, List.cons_append]
          refine (CString.find_some hat).2 (width pre') ?_ (occurs hearly hkp)
          rw [width, width, List.flatMap_append, List.length_append, List.flatMap_cons,
            List.length_append, List.length_append,
            List.length_singleton]
          omega
        rw [value_at hsplit hk, if_pos hroom, hsplit, first_line_split hk hfirst, hlen, Nat.zero_add]
        rfl

end

/-! ## All lookups -/

section
variable (closed : Bool) (lines : List Line) (len : Nat) (sym : Bytes)

def number_of (key : Bytes) (base : Nat) : Option (Found Nat) :=
  (first_line key 0 lines).map (Found.map fun s => strtoul s base)

/-- The lookups answer with the first line that has exactly the key; `len` is the size of the
caller's array for the tag. -/
structure LookupsExact : Prop where
  symbol : dfi_vmcoreinfo_symbol (some (text closed lines ++ [0])) sym =
    .ok (number_of lines (SYMBOL ++ 0x28 :: sym ++ [0x29]) 16)
  offset : dfi_vmcoreinfo_offset (some (text closed lines ++ [0])) sym =
    .ok (number_of lines (OFFSET ++ 0x28 :: sym ++ [0x29]) 10)
  size : dfi_vmcoreinfo_size (some (text closed lines ++ [0])) sym =
    .ok (number_of lines (SIZE ++ 0x28 :: sym ++ [0x29]) 10)
  length : dfi_vmcoreinfo_length (some (text closed lines ++ [0])) sym =
    .ok (number_of lines (LENGTH ++ 0x28 :: sym ++ [0x29]) 10)
  val : dfi_vmcoreinfo_val (some (text closed lines ++ [0])) sym = .ok (number_of lines sym 10)
  tag : dfi_vmcoreinfo_tag (some (text closed lines ++ [0])) len sym = .ok (first_line sym 0 lines)

structure LookupsFit : Prop where
  symbol : Fits closed lines 1024 (SYMBOL ++ 0x28 :: sym ++ [0x29])
  offset : Fits closed lines 1024 (OFFSET ++ 0x28 :: sym ++ [0x29])
  size : Fits closed lines 1024 (SIZE ++ 0x28 :: sym ++ [0x29])
  length : Fits closed lines 1024 (LENGTH ++ 0x28 :: sym ++ [0x29])
  val : Fits closed lines 1024 sym
  tag : Fits closed lines len sym

variable {closed lines len sym}

variable (closed lines) in
theorem ulong_iff {fmt : Option Bytes} (hkey : (item_key fmt sym).length < 1023) (base : Nat) :
    vmcoreinfo_item_ulong (some (text closed lines ++ [0])) fmt sym base =
      .ok (number_of lines (item_key fmt sym) base) ↔
      Fits closed lines 1024 (item_key fmt sym) :=
  item_iff closed lines 1024 hkey _

variable (closed lines len) in
theorem tag_iff (hkey : (item_key none sym).length < 1023) :
    dfi_vmcoreinfo_tag (some (text closed lines ++ [0])) len sym = .ok (first_line sym 0 lines) ↔
      Fits closed lines len sym := by
  have hitem := item_iff closed lines len hkey id
  have hid : (Option.map (Found.map id) : Option (Found Bytes) → Option (Found Bytes)) = id := by
    funext f
    cases f <;> rfl
  have hmap : (vmcoreinfo_item (some (text closed lines ++ [0])) len none sym).map id =
      dfi_vmcoreinfo_tag (some (text closed lines ++ [0])) len sym := by
    unfold dfi_vmcoreinfo_tag
    cases vmcoreinfo_item (some (text closed lines ++ [0])) len none sym <;> rfl
  rw [hid, hmap] at hitem
  exact hitem

theorem lookups_iff (hsym : sym.length ≤ 64) : LookupsExact closed lines len sym ↔
    LookupsFit closed lines len sym := by
  have hfmt : ∀ fmt : Bytes, fmt.length ≤ 6 → (item_key (some fmt) sym).length < 1023 := by
    intro fmt hf
    rw [item_key, List.length_append, List.length_append, List.length_cons, List.length_singleton]
    omega
  have hnone : (item_key none sym).length < 1023 := by
    rw [item_key]
    omega
  have hsymbol := ulong_iff closed lines (hfmt SYMBOL (by decide)) 16
  have hoffset := ulong_iff closed lines (hfmt OFFSET (by decide)) 10
  have hsize := ulong_iff closed lines (hfmt SIZE (by decide)) 10
  have hlength := ulong_iff closed lines (hfmt LENGTH (by decide)) 10
  have hval := ulong_iff closed lines hnone 10
  have htag := tag_iff closed lines len hnone
  exact ⟨fun h => ⟨hsymbol.mp h.symbol, hoffset.mp h.offset, hsize.mp h.size, hlength.mp h.length,
    hval.mp h.val, htag.mp h.tag⟩,
    fun h => ⟨hsymbol.mpr h.symbol, hoffset.mpr h.offset, hsize.mpr h.size, hlength.mpr h.length, hval.mpr h.val,
      htag.mpr h.tag⟩⟩

end

end Zdump.Vmcoreinfo
