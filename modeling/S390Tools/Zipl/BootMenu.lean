import Mathlib

/-!
# The boot menu (zipl/boot/menu.c, zipl/boot/libc.c)

Characters are EBCDIC. `sclp_setup` and `sclp_param` succeed; `stack` is what lies behind the eight bytes of the
loadparm. An input is what `sclp_read` delivers, `none` for a timeout or an error. The page of the inputs is zero
behind what was written.
-/

namespace Zipl.BootMenu

def BOOT_MENU_ENTRIES : Nat := 63

def LINE_LENGTH : Nat := 80

def PARAM_SIZE : Nat := 8

def COMMAND_LINE_SIZE : Nat := 896

def ebc_isdigit (c : UInt8) : Bool := 0xf0 ≤ c && c ≤ 0xf9

def ebc_isspace (c : UInt8) : Bool :=
  c == 0x40 || c == 0x05 || c == 0x15 || c == 0x25 || c == 0x0b || c == 0x0c || c == 0x0d

def ebc_isupper (c : UInt8) : Bool :=
  (0xc1 ≤ c && c ≤ 0xc9) || (0xd1 ≤ c && c ≤ 0xd9) || (0xe2 ≤ c && c ≤ 0xe9)

def ebc_tolower (c : UInt8) : UInt8 := if ebc_isupper c then c - 0x40 else c

def ebcstrtoul_loop : Nat → Nat → List UInt8 → Nat × Nat
  | val, n, [] => (val, n)
  | val, n, c :: s =>
    if ebc_isdigit c then
      ebcstrtoul_loop (((if val ≠ 0 then val * 10 % 2 ^ 64 else val) + (c.toNat - 0xf0)) % 2 ^ 64) (n + 1) s
    else (val, n)

def ebcstrtoul (nptr : List UInt8) : Nat × Nat := ebcstrtoul_loop 0 0 nptr

structure Stage2Params where
  flag : Nat
  config : List Nat
  entries : config.length = BOOT_MENU_ENTRIES

/-- The end of a run: it is out of bounds of the configurations, stops, goes on to wait, or boots. -/
inductive Outcome
  | fault
  | panic
  | waiting
  | booted (value : Nat) (cmd_line_extra : List UInt8)
  deriving DecidableEq

/-! ## Reading -/

def toInt (v : Nat) : Int := Int.bmod v (2 ^ 32)

def lowered (is_zvm : Bool) (s : List UInt8) : List UInt8 := if is_zvm then s.map ebc_tolower else s

/-- The page after an input, with its first `count` characters in lower case under z/VM. -/
def received (is_zvm : Bool) (temp_area input : List UInt8) (count : Nat) : List UInt8 :=
  let area := input ++ temp_area.drop input.length
  lowered is_zvm (area.take count) ++ area.drop count

inductive Read
  | fault (rest : List (Option (List UInt8)))
  | waiting
  | value (value : Nat) (extra : List UInt8) (rest : List (Option (List UInt8)))
  deriving DecidableEq

def menu_read (is_zvm : Bool) (configs : List Nat) : List UInt8 → List (Option (List UInt8)) → Read
  | _, [] => .waiting
  | _, none :: rest => .value 0 [] rest
  | temp_area, some input :: rest =>
    if input.length = 0 then menu_read is_zvm configs temp_area rest
    else
      let count := min input.length LINE_LENGTH
      let area := received is_zvm temp_area input count
      let value := toInt (ebcstrtoul area).1
      let endptr := (ebcstrtoul area).2
      if endptr ≠ 0 ∧ value < BOOT_MENU_ENTRIES - 1 then
        if value < 0 then .fault rest
        else if configs.getD value.toNat 0 ≠ 0 then .value value.toNat ((area.take count).drop endptr) rest
        else menu_read is_zvm configs area rest
      else menu_read is_zvm configs area rest

/-! ## The menu -/

def PROMPT : List UInt8 := [0xd7, 0xd9, 0xd6, 0xd4, 0xd7, 0xe3]

def BOOT_IMAGE : List UInt8 := [0x40, 0xc2, 0xd6, 0xd6, 0xe3, 0x6d, 0xc9, 0xd4, 0xc1, 0xc7, 0xc5, 0x7e]

inductive Param
  | NUMBER_FOUND (value : Nat)
  | PRINT_PROMPT
  | NOTHING_FOUND

def menu_param (loadparm stack : List UInt8) : Param :=
  if (ebcstrtoul (loadparm ++ stack)).2 ≠ 0 then .NUMBER_FOUND (ebcstrtoul (loadparm ++ stack)).1
  else if PROMPT.isPrefixOf (loadparm.dropWhile ebc_isspace ++ stack) then .PRINT_PROMPT
  else .NOTHING_FOUND

def decimal (v : Nat) : List UInt8 := (Nat.toDigits 10 v).map fun c => UInt8.ofNat (c.toNat + 0xc0)

def endstring (value : Nat) : List UInt8 := BOOT_IMAGE ++ decimal (value % 2 ^ 32)

/-- The jump to `boot`, with what is in the extra command line up to the end of its area. -/
def boot (configs : List Nat) (value : Nat) (cmd_line_extra : List UInt8) : Outcome :=
  if configs.length ≤ value then .fault
  else if configs.getD value 0 = 0 then .panic
  else
    let line := cmd_line_extra.takeWhile (· ≠ 0)
    if line.length + (endstring value).length < COMMAND_LINE_SIZE then .booted value (line ++ endstring value)
    else .booted value line

/-- What `menu` does with the end of `menu_read`; the inputs that are left are not read. -/
def chosen (configs : List Nat) : Read → Outcome × List (Option (List UInt8))
  | .fault rest => (.fault, rest)
  | .waiting => (.waiting, [])
  | .value value extra rest =>
    if value > BOOT_MENU_ENTRIES then (.panic, rest) else (boot configs value extra, rest)

def menu (params : Stage2Params) (is_zvm : Bool) (loadparm stack : List UInt8)
    (inputs : List (Option (List UInt8))) :
    Outcome × List (Option (List UInt8)) :=
  match menu_param loadparm stack with
  | .NUMBER_FOUND value => (boot params.config value [], inputs)
  | .PRINT_PROMPT => chosen params.config (menu_read is_zvm params.config [] inputs)
  | .NOTHING_FOUND =>
    if params.flag = 0 then (boot params.config 0 [], inputs)
    else chosen params.config (menu_read is_zvm params.config [] inputs)

/-! ## Numbers -/

def number (s : List UInt8) : Nat := (s.takeWhile ebc_isdigit).foldl (fun v c => v * 10 + (c.toNat - 0xf0)) 0

def digits (s : List UInt8) : Nat := (s.takeWhile ebc_isdigit).length

theorem ebcstrtoul_loop_eq : ∀ (s : List UInt8) (val n : Nat), ebcstrtoul_loop (val % 2 ^ 64) n s =
    ((s.takeWhile ebc_isdigit).foldl (fun v c => v * 10 + (c.toNat - 0xf0)) val % 2 ^ 64, n + digits s)
  | [], val, n => by simp [ebcstrtoul_loop, digits]
  | c :: s, val, n => by
    by_cases hc : ebc_isdigit c
    · have hval : ((if val % 2 ^ 64 ≠ 0 then val % 2 ^ 64 * 10 % 2 ^ 64
        else val % 2 ^ 64) + (c.toNat - 0xf0)) % 2 ^ 64 =
          (val * 10 + (c.toNat - 0xf0)) % 2 ^ 64 := by
        split <;> omega
      rw [ebcstrtoul_loop, if_pos hc, hval, ebcstrtoul_loop_eq s, digits, digits, List.takeWhile_cons_of_pos hc,
        List.foldl_cons, List.length_cons, Nat.add_assoc, Nat.add_comm 1]
    · rw [ebcstrtoul_loop, if_neg hc, digits, List.takeWhile_cons_of_neg hc]
      rfl

theorem ebcstrtoul_eq (s : List UInt8) : ebcstrtoul s = (number s % 2 ^ 64, digits s) := by
  have h := ebcstrtoul_loop_eq s 0 0
  rwa [Nat.zero_add] at h

/-- What follows a text does not continue its number, unless it is all digits and a digit follows. -/
def Ends (s behind : List UInt8) : Prop :=
  (∀ c ∈ s, ebc_isdigit c = true) → ∀ c ∈ behind.head?, ebc_isdigit c = false

theorem takeWhile_of_ends {s behind : List UInt8} (h : Ends s behind) :
    (s ++ behind).takeWhile ebc_isdigit = s.takeWhile ebc_isdigit := by
  by_cases hall : ∀ c ∈ s, ebc_isdigit c = true
  · rw [List.takeWhile_append_of_pos hall, List.takeWhile_eq_self_iff.mpr hall]
    have hnil : behind.takeWhile ebc_isdigit = [] := by
      cases behind with
      | nil => rfl
      | cons c behind => exact List.takeWhile_cons_of_neg (by simp [h hall c rfl])
    rw [hnil, List.append_nil]
  · rw [List.takeWhile_append, if_neg]
    intro hlen
    exact hall (List.takeWhile_eq_self_iff.mp ((List.takeWhile_prefix _).eq_of_length hlen))

theorem number_append {s behind : List UInt8} (h : Ends s behind) : number (s ++ behind) = number s := by
  rw [number, takeWhile_of_ends h, number]

theorem digits_append {s behind : List UInt8} (h : Ends s behind) : digits (s ++ behind) = digits s := by
  rw [digits, takeWhile_of_ends h, digits]

/-! ## The page of the inputs -/

theorem isdigit_iff {c : UInt8} : ebc_isdigit c = true ↔ 0xf0 ≤ c.toNat ∧ c.toNat ≤ 0xf9 := by
  simp [ebc_isdigit, UInt8.le_iff_toNat_le]

theorem isupper_range {c : UInt8} (h : ebc_isupper c = true) : 0xc1 ≤ c.toNat ∧ c.toNat ≤ 0xe9 := by
  simp only [ebc_isupper, Bool.or_eq_true, Bool.and_eq_true, decide_eq_true_eq, UInt8.le_iff_toNat_le] at h
  change ((193 ≤ c.toNat ∧ c.toNat ≤ 201) ∨ 209 ≤ c.toNat ∧ c.toNat ≤ 217) ∨ 226 ≤ c.toNat ∧ c.toNat ≤ 233 at h
  omega

theorem tolower_cases (c : UInt8) :
    ebc_tolower c = c ∨ (ebc_isdigit c = false ∧ ebc_isdigit (ebc_tolower c) = false) := by
  rw [ebc_tolower]
  split
  case isTrue h =>
    have hrange := isupper_range h
    have hsub : (c - 0x40).toNat = c.toNat - 0x40 :=
      UInt8.toNat_sub_of_le _ _ (UInt8.le_iff_toNat_le.mpr (by change 64 ≤ c.toNat; omega))
    refine .inr ⟨?_, ?_⟩ <;> rw [← Bool.not_eq_true, isdigit_iff]
    · omega
    · rw [hsub]
      omega
  case isFalse h => exact .inl rfl

def overlay (page input : List UInt8) : List UInt8 := input ++ page.drop input.length

def page : List (Option (List UInt8)) → List UInt8 := List.foldl (fun page input => overlay page (input.getD [])) []

def mask (s : List UInt8) : List UInt8 := s.map fun c => if ebc_isdigit c then c else 0

theorem mask_append (s t : List UInt8) : mask (s ++ t) = mask s ++ mask t := List.map_append

theorem mask_drop (n : Nat) (s : List UInt8) : mask (s.drop n) = (mask s).drop n := List.map_drop

theorem takeWhile_mask : ∀ s : List UInt8, (mask s).takeWhile ebc_isdigit = s.takeWhile ebc_isdigit
  | [] => rfl
  | c :: s => by
    rw [mask, List.map_cons]
    by_cases hc : ebc_isdigit c = true
    · rw [if_pos hc, List.takeWhile_cons_of_pos hc, List.takeWhile_cons_of_pos hc, ← mask, takeWhile_mask s]
    · rw [if_neg hc, List.takeWhile_cons_of_neg hc, List.takeWhile_cons_of_neg (by decide)]

theorem mask_lowered (is_zvm : Bool) (s : List UInt8) : mask (lowered is_zvm s) = mask s := by
  cases is_zvm with
  | false => rfl
  | true =>
    rw [lowered, if_pos rfl, mask, List.map_map]
    refine List.map_congr_left fun c _ => ?_
    rcases tolower_cases c with h | ⟨h, h'⟩
    · rw [Function.comp, h]
    · rw [Function.comp, if_neg (by simp [h']), if_neg (by simp [h])]

theorem mask_received (is_zvm : Bool) {temp_area s : List UInt8} (h : mask temp_area = mask s) (input : List UInt8)
    (count : Nat) : mask (received is_zvm temp_area input count) = mask (overlay s input) := by
  rw [received, mask_append, mask_lowered, ← mask_append, List.take_append_drop, overlay, mask_append, mask_append,
    mask_drop, mask_drop, h]

theorem ebcstrtoul_received (is_zvm : Bool) {temp_area s input : List UInt8}
    (h : mask temp_area = mask s) (count : Nat)
    (hends : Ends input (s.drop input.length)) :
    ebcstrtoul (received is_zvm temp_area input count) = (number input % 2 ^ 64, digits input) := by
  have htake : (received is_zvm temp_area input count).takeWhile ebc_isdigit =
      (overlay s input).takeWhile ebc_isdigit := by
    rw [← takeWhile_mask, mask_received is_zvm h, takeWhile_mask]
  rw [ebcstrtoul_eq, number, digits, htake, overlay, takeWhile_of_ends hends, number, digits]

/-! ## Reading a choice -/

/-- The number of an input fits, and what earlier inputs left behind does not continue it. -/
def Readable (earlier : List (Option (List UInt8))) (input : List UInt8) : Prop :=
  number input < 2 ^ 31 ∧ Ends input ((page earlier).drop input.length)

def following (is_zvm : Bool) (input : List UInt8) : List UInt8 :=
  (lowered is_zvm (input.take LINE_LENGTH)).drop (digits input)

theorem length_lowered (is_zvm : Bool) (s : List UInt8) : (lowered is_zvm s).length = s.length := by
  cases is_zvm <;> simp [lowered]

theorem take_received (is_zvm : Bool) (temp_area input : List UInt8) :
    (received is_zvm temp_area input (min input.length LINE_LENGTH)).take (min input.length LINE_LENGTH) =
      lowered is_zvm (input.take LINE_LENGTH) := by
  have htake : (input ++ temp_area.drop input.length).take (min input.length LINE_LENGTH) =
    input.take LINE_LENGTH := by
    rw [List.take_append_of_le_length (Nat.min_le_left ..), List.take_eq_take_iff]
    omega
  have hlen : (lowered is_zvm (input.take LINE_LENGTH)).length = min input.length LINE_LENGTH := by
    rw [length_lowered, List.length_take, Nat.min_comm]
  rw [received, htake, ← hlen, List.take_left]

theorem page_append (earlier : List (Option (List UInt8))) (input : Option (List UInt8)) :
    page (earlier ++ [input]) = overlay (page earlier) (input.getD []) := by
  rw [page, List.foldl_append, ← page]
  rfl

theorem toInt_eq {v : Nat} (h : v < 2 ^ 31) : toInt v = v := by
  refine Int.bmod_eq_of_le_mul_two ?_ ?_ <;> norm_num <;> omega

/-- A readable input is accepted with its number, its configuration and the text behind it. -/
structure Accepted (is_zvm : Bool) (configs : List Nat) (input : List UInt8) (v : Nat)
    (extra : List UInt8) : Prop where
  value : v = number input
  config : configs.getD v 0 ≠ 0
  bound : v < BOOT_MENU_ENTRIES
  extra : extra = following is_zvm input

def Ending (is_zvm : Bool) (configs : List Nat) (earlier : List (Option (List UInt8))) :
    Option (List UInt8) → Read → List (Option (List UInt8)) → Prop
  | none, r, rest => r = .value 0 [] rest
  | some input, r, rest =>
    (r = .fault rest ∧ ¬ Readable earlier input) ∨
      ∃ v extra, r = .value v extra rest ∧ (Readable earlier input → Accepted is_zvm configs input v extra)

theorem menu_read_cases (is_zvm : Bool) (configs : List Nat) :
    ∀ (inputs : List (Option (List UInt8))) (temp_area : List UInt8) (earlier : List (Option (List UInt8))),
      mask temp_area = mask (page earlier) →
      menu_read is_zvm configs temp_area inputs = .waiting ∨
        ∃ used input rest, inputs = used ++ input :: rest ∧
          Ending is_zvm configs (earlier ++ used) input (menu_read is_zvm configs temp_area inputs) rest
  | [], _, _, _ => .inl rfl
  | none :: rest, _, _, _ => .inr ⟨[], none, rest, rfl, rfl⟩
  | some input :: rest, temp_area, earlier, h => by
    have hnext : ∀ area, mask area = mask (page (earlier ++ [some input])) →
        menu_read is_zvm configs area rest = .waiting ∨
          ∃ used last rest', some input :: rest = used ++ last :: rest' ∧
            Ending is_zvm configs (earlier ++ used) last (menu_read is_zvm configs area rest) rest' := by
      intro area harea
      rcases menu_read_cases is_zvm configs rest area (earlier ++ [some input])
        harea with hw | ⟨used, last, rest', hrest, hend⟩
      · exact .inl hw
      · exact .inr ⟨some input :: used, last, rest', by rw [hrest, List.cons_append], by
          rwa [List.append_assoc, List.singleton_append] at hend⟩
    rw [menu_read]
    split
    case isTrue hnil =>
      refine hnext _ ?_
      rw [page_append, Option.getD_some, overlay, List.length_eq_zero_iff.mp hnil]
      exact h
    case isFalse hnil =>
      have hmask := mask_received is_zvm h input (min input.length LINE_LENGTH)
      have hread : Readable earlier input →
        ebcstrtoul (received is_zvm temp_area input (min input.length LINE_LENGTH)) =
          (number input, digits input) := fun hr => by
        rw [ebcstrtoul_received is_zvm h _ hr.2, Nat.mod_eq_of_lt (Nat.lt_trans hr.1 (by decide))]
      have harea : mask (received is_zvm temp_area input (min input.length LINE_LENGTH)) =
          mask (page (earlier ++ [some input])) := by
        rw [hmask, page_append, Option.getD_some]
      dsimp only
      split
      case isFalse => exact hnext _ harea
      case isTrue hgood =>
        split
        case isTrue hneg =>
          refine .inr ⟨[], some input, rest, rfl, .inl ⟨rfl, fun hr => ?_⟩⟩
          rw [List.append_nil] at hr
          rw [hread hr, toInt_eq hr.1] at hneg
          omega
        case isFalse hneg =>
          split
          case isFalse => exact hnext _ harea
          case isTrue hconf =>
            refine .inr ⟨[], some input, rest, rfl, .inr ⟨_, _, rfl, fun hr => ?_⟩⟩
            rw [List.append_nil] at hr
            rw [hread hr, toInt_eq hr.1] at hconf hgood
            rw [hread hr, toInt_eq hr.1, take_received]
            exact ⟨rfl, hconf, by have := hgood.2; simp only [BOOT_MENU_ENTRIES] at this ⊢; omega, rfl⟩

/-! ## Booting -/

theorem length_endstring {v : Nat} (h : v < BOOT_MENU_ENTRIES) : (endstring v).length ≤ 14 := by
  rw [endstring, List.length_append, decimal, List.length_map, Nat.mod_eq_of_lt (Nat.lt_trans h (by decide))]
  exact Nat.add_le_add_left 
    ((Nat.length_toDigits_le_iff (k := 2) (by decide : 1 < 10) (by decide)).mpr (Nat.lt_trans h (by decide))) 12

theorem length_following (is_zvm : Bool) (input : List UInt8) : (following is_zvm input).length ≤ LINE_LENGTH := by
  rw [following, List.length_drop, length_lowered, List.length_take]
  omega

theorem boot_eq {configs : List Nat} (hlen : configs.length = BOOT_MENU_ENTRIES) {v : Nat}
    (hv : v < BOOT_MENU_ENTRIES)
    {extra : List UInt8} (hextra : extra.length ≤ LINE_LENGTH) :
    boot configs v extra =
      if configs.getD v 0 = 0 then .panic else .booted v (extra.takeWhile (· ≠ 0) ++ endstring v) := by
  have hline : (extra.takeWhile (· ≠ 0)).length ≤ LINE_LENGTH := (List.takeWhile_prefix _).length_le.trans hextra
  have hend := length_endstring hv
  rw [boot, if_neg (by omega),
    if_pos (show _ < COMMAND_LINE_SIZE by simp only [LINE_LENGTH, COMMAND_LINE_SIZE] at *; omega)]

/-! ## The menu -/

def Prompted (params : Stage2Params) (loadparm : List UInt8) : Prop :=
  digits loadparm = 0 ∧ (PROMPT <+: loadparm.dropWhile ebc_isspace ∨ params.flag ≠ 0)

def selected (is_zvm : Bool) (loadparm : List UInt8) (used : List (Option (List UInt8))) : Nat × List UInt8 :=
  if digits loadparm ≠ 0 then (number loadparm, [])
  else
    match used.getLast? with
    | some (some input) => (number input, following is_zvm input)
    | _ => (0, [])

theorem selected_input {loadparm : List UInt8} (hd : digits loadparm = 0) (is_zvm : Bool)
    (earlier : List (Option (List UInt8))) (input : List UInt8) :
    selected is_zvm loadparm (earlier ++ [some input]) = (number input, following is_zvm input) := by
  rw [selected, if_neg (by simp [hd]), List.getLast?_concat]

theorem selected_default {loadparm : List UInt8} (hd : digits loadparm = 0) (is_zvm : Bool)
    {used : List (Option (List UInt8))} (h : used = [] ∨ ∃ earlier, used = earlier ++ [none]) :
    selected is_zvm loadparm used = (0, []) := by
  rw [selected, if_neg (by simp [hd])]
  rcases h with rfl | ⟨earlier, rfl⟩
  · rfl
  · rw [List.getLast?_concat]

/-- The numbers are small, and nothing behind the loadparm or the last input is taken for a part of it. -/
structure Plain (loadparm stack : List UInt8) (used : List (Option (List UInt8))) : Prop where
  ends : Ends loadparm stack
  bound : number loadparm < BOOT_MENU_ENTRIES
  prompt : PROMPT <+: loadparm.dropWhile ebc_isspace ++ stack → PROMPT <+: loadparm.dropWhile ebc_isspace
  last : ∀ earlier input, used = earlier ++ [some input] → Readable earlier input

variable {params : Stage2Params} {is_zvm : Bool} {loadparm stack : List UInt8}

theorem menu_number {used : List (Option (List UInt8))} (hplain : Plain loadparm stack used)
    (hd : digits loadparm ≠ 0)
    (inputs : List (Option (List UInt8))) :
    menu params is_zvm loadparm stack inputs = (boot params.config (number loadparm) [], inputs) := by
  have hparm : menu_param loadparm stack = .NUMBER_FOUND (number loadparm) := by
    rw [menu_param, ebcstrtoul_eq, digits_append hplain.ends, number_append hplain.ends, if_pos hd,
      Nat.mod_eq_of_lt (Nat.lt_trans hplain.bound (by decide))]
  rw [menu, hparm]

theorem menu_no_number {used : List (Option (List UInt8))} (hplain : Plain loadparm stack used)
    (hd : digits loadparm = 0)
    (inputs : List (Option (List UInt8))) :
    (Prompted params loadparm ∧ menu params is_zvm loadparm stack inputs =
      chosen params.config (menu_read is_zvm params.config [] inputs)) ∨
    (¬ Prompted params loadparm ∧ menu params is_zvm loadparm stack inputs =
      (boot params.config 0 [], inputs)) := by
  have hparm : menu_param loadparm stack =
      if PROMPT.isPrefixOf (loadparm.dropWhile ebc_isspace ++ stack) then .PRINT_PROMPT else .NOTHING_FOUND := by
    rw [menu_param, ebcstrtoul_eq, digits_append hplain.ends, if_neg (by simp [hd])]
  rw [menu, hparm]
  by_cases hprompt : PROMPT.isPrefixOf (loadparm.dropWhile ebc_isspace ++ stack) = true
  · rw [if_pos hprompt]
    exact .inl ⟨⟨hd, .inl (hplain.prompt (List.isPrefixOf_iff_prefix.mp hprompt))⟩, rfl⟩
  · rw [if_neg hprompt]
    by_cases hflag : params.flag = 0
    · refine .inr ⟨fun hp => hp.2.elim (fun hpre => hprompt ?_) fun hne => hne hflag, if_pos hflag⟩
      exact List.isPrefixOf_iff_prefix.mpr (hpre.trans (List.prefix_append _ _))
    · exact .inl ⟨⟨hd, .inr hflag⟩, if_neg hflag⟩

/-- What a run does is what the loadparm and the last input ask for. -/
def Exact (params : Stage2Params) (is_zvm : Bool) (loadparm : List UInt8) (used : List (Option (List UInt8))) :
    Outcome → Prop
  | .fault => False
  | .panic => True
  | .waiting => Prompted params loadparm
  | .booted v extra =>
    v = (selected is_zvm loadparm used).1 ∧ v < BOOT_MENU_ENTRIES ∧ params.config.getD v 0 ≠ 0 ∧
      extra = (selected is_zvm loadparm used).2.takeWhile (· ≠ 0) ++ endstring v

theorem exact_boot {used : List (Option (List UInt8))} {v : Nat} {extra : List UInt8}
    (hsel : selected is_zvm loadparm used = (v, extra)) (hv : v < BOOT_MENU_ENTRIES)
      (hextra : extra.length ≤ LINE_LENGTH) :
    Exact params is_zvm loadparm used (boot params.config v extra) := by
  rw [boot_eq params.entries hv hextra]
  split
  case isTrue => trivial
  case isFalse hconf => exact ⟨by rw [hsel], hv, hconf, by rw [hsel]⟩

theorem exact_chosen {first used rest rest' : List (Option (List UInt8))} {input : Option (List UInt8)} {r : Read}
    {outcome : Outcome} (hp : Prompted params loadparm) (hplain : Plain loadparm stack used)
    (hend : Ending is_zvm params.config first input r rest') (heq : used ++ rest = first ++ input :: rest')
    (hrun : chosen params.config r = (outcome, rest)) : Exact params is_zvm loadparm used outcome := by
  have hused : rest' = rest → used = first ++ [input] := fun h => by
    rw [h, List.append_cons] at heq
    exact List.append_cancel_right heq
  cases input with
  | none =>
    obtain rfl : r = .value 0 [] rest' := hend
    rw [chosen, if_neg (by decide), Prod.mk.injEq] at hrun
    rw [← hrun.1]
    exact exact_boot (selected_default hp.1 is_zvm (.inr ⟨_, hused hrun.2⟩)) (by decide) (Nat.zero_le _)
  | some input =>
    rcases hend with ⟨rfl, hbad⟩ | ⟨v, extra, rfl, hacc⟩
    · exact absurd (hplain.last _ _ (hused (Prod.mk.inj hrun).2)) hbad
    · rw [chosen] at hrun
      have hrest : rest' = rest := by split at hrun <;> exact (Prod.mk.inj hrun).2
      obtain ⟨rfl, hconf, hv, rfl⟩ := hacc (hplain.last _ _ (hused hrest))
      rw [if_neg (by omega), Prod.mk.injEq] at hrun
      rw [← hrun.1, hused hrest]
      exact exact_boot (selected_input hp.1 is_zvm first input) hv (length_following is_zvm input)

/-- No input is read unless the operator is asked, and each run that does not panic boots what was asked for. -/
theorem menu_exact {used rest : List (Option (List UInt8))} {outcome : Outcome} (hplain : Plain loadparm stack used)
    (hrun : menu params is_zvm loadparm stack (used ++ rest) = (outcome, rest)) :
    (used ≠ [] → Prompted params loadparm) ∧ Exact params is_zvm loadparm used outcome := by
  by_cases hd : digits loadparm = 0
  · rcases @menu_no_number params is_zvm loadparm stack used hplain hd (used ++ rest) with ⟨hp, hmenu⟩ | ⟨hp, hmenu⟩
    · refine ⟨fun _ => hp, ?_⟩
      rw [hmenu] at hrun
      rcases menu_read_cases is_zvm params.config (used ++ rest) [] [] rfl with hw | ⟨first, input,
        rest', heq, hend⟩
      · rw [hw, chosen, Prod.mk.injEq] at hrun
        rw [← hrun.1]
        exact hp
      · exact exact_chosen hp hplain hend heq hrun
    · rw [hmenu, Prod.mk.injEq] at hrun
      obtain ⟨rfl, hused⟩ := hrun
      obtain rfl := List.append_left_eq_self.mp hused
      exact ⟨fun h => absurd rfl h, exact_boot (selected_default hd is_zvm (.inl rfl)) (by decide) (Nat.zero_le _)⟩
  · rw [menu_number hplain hd, Prod.mk.injEq] at hrun
    obtain ⟨rfl, hused⟩ := hrun
    obtain rfl := List.append_left_eq_self.mp hused
    exact ⟨fun h => absurd rfl h, exact_boot (if_pos hd) hplain.bound (Nat.zero_le _)⟩

def two_entries : Stage2Params := ⟨0, 1 :: 2 :: List.replicate 61 0, rfl⟩

def prompt_loadparm : List UInt8 := PROMPT ++ [0x40, 0x40]

def two_inputs : List (Option (List UInt8)) := [some [0xf1, 0xf2], some [], some [0xf1, 0x40, 0xc1]]

theorem menu_read_two : menu_read true two_entries.config [] two_inputs = .value 1 [0x40, 0x81] [] := by
  have htwelve : menu_read true two_entries.config [] two_inputs =
      menu_read true two_entries.config [0xf1, 0xf2] [some [], some [0xf1, 0x40, 0xc1]] := by
    rw [two_inputs, menu_read, if_neg (by decide)]
    dsimp only
    rw [if_pos (by decide), if_neg (by decide), if_neg (by decide)]
    rfl
  rw [htwelve, menu_read, if_pos List.length_nil, menu_read, if_neg (by decide)]
  dsimp only
  rw [if_pos (by decide), if_neg (by decide), if_pos (by decide)]
  refine congrArg₂ (Read.value · · []) ?_ ?_ <;> decide

theorem menu_two : menu two_entries true prompt_loadparm [] two_inputs =
    (.booted 1 ([0x40, 0x81] ++ endstring 1), []) := by
  have hboot : boot two_entries.config 1 [0x40, 0x81] = .booted 1 ([0x40, 0x81] ++ endstring 1) := by decide
  rw [menu, show menu_param prompt_loadparm [] = .PRINT_PROMPT from rfl]
  dsimp only
  rw [menu_read_two, chosen, if_neg (by decide), hboot]

theorem two_readable {earlier : List (Option (List UInt8))} {input : List UInt8}
    (h : two_inputs = earlier ++ [some input]) :
    Readable earlier input := by
  have hsplit : [some [0xf1, 0xf2], some []] ++ [some [0xf1, 0x40, 0xc1]] = earlier ++ [some input] := h
  obtain ⟨h₁, h₂⟩ := List.append_inj' hsplit rfl
  obtain rfl := h₁
  obtain rfl := Option.some.inj (List.cons.inj h₂).1
  exact ⟨by decide, fun hall => absurd (hall 0x40 (by decide)) (by decide)⟩

theorem menu_exact_prompt :
    Exact two_entries true prompt_loadparm two_inputs (.booted 1 ([0x40, 0x81] ++ endstring 1)) :=
  (@menu_exact two_entries true prompt_loadparm [] two_inputs [] _
    ⟨fun _ _ h => by simp at h, by decide, fun h => by simpa using h, fun _ _ => two_readable⟩ menu_two).2

end Zipl.BootMenu
