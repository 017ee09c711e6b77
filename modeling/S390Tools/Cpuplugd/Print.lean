import S390Tools.Cpuplugd.Precedence

/-!
# Printed terms

`print_term` writes each operand of an operator in parentheses, so that the parser
reads back the tree that was printed.
-/

namespace Cpuplugd

open CString Vtoc Fuel

variable {D : Type} {scanf : Scanf D} {get : List UInt8 → Option (List UInt8)}

/-! ## Printing -/

section
variable (printf_f : D → List UInt8) (unset : Nat)

def print_symbol (op : Symop) (proc_name : Option (List UInt8)) (index : Option Nat) : List UInt8 :=
  let name := proc_name.getD []
  let number := decimal (index.getD unset)
  match op with
  | .LOADAVG => bytes "loadavg"
  | .RUNABLE => bytes "runnable_proc"
  | .CPUS => bytes "onumcpus"
  | .USER => bytes "user"
  | .NICE => bytes "nice"
  | .SYSTEM => bytes "system"
  | .IDLE => bytes "idle"
  | .IOWAIT => bytes "iowait"
  | .IRQ => bytes "irq"
  | .SOFTIRQ => bytes "softirq"
  | .STEAL => bytes "steal"
  | .GUEST => bytes "guest"
  | .GUEST_NICE => bytes "guest_nice"
  | .SWAPRATE => bytes "swaprate"
  | .FREEMEM => bytes "freemem"
  | .APCR => bytes "apcr"
  | .MEMINFO => bytes "meminfo." ++ name ++ bytes "[" ++ number ++ bytes "]"
  | .VMSTAT => bytes "vmstat." ++ name ++ bytes "[" ++ number ++ bytes "]"
  | .CPUSTAT => bytes "cpustat." ++ name ++ bytes "[" ++ number ++ bytes "]"
  | .TIME => bytes "time[" ++ number ++ bytes "]"

def print_op : Binop → List UInt8
  | .AND => bytes ") & ("
  | .OR => bytes ") | ("
  | .GREATER => bytes ") > ("
  | .LESSER => bytes ") < ("
  | .PLUS => bytes ") + ("
  | .MINUS => bytes ") - ("
  | .MULT => bytes ") * ("
  | .DIV => bytes ") / ("

/-- `printf_f` is `"%f"`. -/
def print_term : Term D → List UInt8
  | .symbol op proc_name index => print_symbol unset op proc_name index
  | .const value => printf_f value
  | .neg left => bytes "-(" ++ print_term left ++ bytes ")"
  | .not left => bytes "!(" ++ print_term left ++ bytes ")"
  | .binary op left right => bytes "(" ++ print_term left ++ print_op op ++ print_term right ++ bytes ")"

end

/-! ## Terms of the parser -/

structure SymbolShape (op : Symop) (proc_name : Option (List UInt8)) (index : Option Nat) : Prop where
  name : ∃ name, proc_name = (if has_proc_name op then some name else none) ∧
    ∀ c ∈ name, (isalpha c || c == 0x5f) = true
  index : ∀ n, index = some n → has_index op = true ∧ n < 2 ^ 32

def Term.Shape : Term D → Prop
  | .symbol op proc_name index => SymbolShape op proc_name index
  | .const _ => True
  | .neg t | .not t => t.Shape
  | .binary _ l r => l.Shape ∧ r.Shape

def Term.Indexed : Term D → Prop
  | .symbol op _ index => has_index op = true → index ≠ none
  | .const _ => True
  | .neg t | .not t => t.Indexed
  | .binary _ l r => l.Indexed ∧ r.Indexed

def Term.Constants (P : D → Prop) : Term D → Prop
  | .symbol _ _ _ => True
  | .const d => P d
  | .neg t | .not t => t.Constants P
  | .binary _ l r => l.Constants P ∧ r.Constants P

def Shaped (p : TermParser D) : Prop :=
  ∀ {prio : OpPrio} {s : List UInt8} {h h' : Nat} {r : Term D × List UInt8}, p prio s h =
    .ok (some r, h') → r.1.Shape

section
variable {p : TermParser D} {prio : OpPrio} {s : List UInt8} {h h' : Nat} {r : Term D × List UInt8}

theorem stored_lt (ds : List UInt8) : stored ds < 2 ^ 32 := by
  rw [stored, Word.u32]
  omega

theorem proc_part_chars (op : Symop) (s : List UInt8) : ∀ c ∈ proc_part op s, (isalpha c || c == 0x5f) = true := by
  intro c hc
  rw [proc_part] at hc
  split at hc
  · exact List.mem_takeWhile_imp (p := fun c => isalpha c || c == 0x5f) hc
  · cases hc

theorem parse_symbol_shape (hrun : parse_symbol s h = .ok (some r, h')) : r.1.Shape := by
  rw [parse_symbol_eq] at hrun
  cases hfind : sym_names.find? (fun name => name.1.isPrefixOf s) with
  | none =>
    rw [hfind] at hrun
    cases hrun
  | some found =>
    rw [hfind] at hrun
    obtain ⟨index, -, hindex, hterm⟩ := parse_index_ok hrun
    rw [hterm]
    refine ⟨⟨_, rfl, proc_part_chars _ _⟩, fun n hn => ?_⟩
    obtain ⟨ds, hds, rfl⟩ := Option.map_eq_some_iff.mp hn
    exact ⟨(hindex ds hds).1, stored_lt ds⟩

theorem parse_operand_shape (hp : Shaped p) (hrun : parse_operand scanf get p prio s h = .ok (some r, h')) :
    r.1.Shape := by
  rw [parse_operand_eq] at hrun
  split at hrun
  · split at hrun
    · cases hrun
      trivial
    · obtain ⟨t, h₁, ht, hr⟩ := bind_ok hrun
      cases t with
      | none => cases hr
      | some t =>
        cases hr
        have hshape := hp ht
        exact hshape
  split at hrun
  · obtain ⟨t, h₁, ht, hr⟩ := bind_ok hrun
    cases t with
    | none => cases hr
    | some t =>
      cases hr
      have hshape := hp ht
      exact hshape
  split at hrun
  · cases hrun
    trivial
  split at hrun
  · obtain ⟨t, h₁, ht, hr⟩ := bind_ok hrun
    cases t with
    | none => cases hr
    | some t =>
      rw [Option.bind_some] at hr
      split at hr
      · cases hr
      · cases hr
        have hshape := hp ht
        exact hshape
  obtain ⟨q, h₁, hvar, hr⟩ := bind_ok hrun
  obtain ⟨fn, rest⟩ := q
  cases fn with
  | none => exact parse_symbol_shape hr
  | some fn =>
    cases hr
    rw [parse_var_term_eq] at hvar
    split at hvar
    · cases hvar
    cases hget : get (s.takeWhile isname) with
    | none =>
      rw [hget] at hvar
      cases hvar
    | some value =>
      rw [hget] at hvar
      obtain ⟨t, h₂, ht, hafter⟩ := bind_ok hvar
      rw [after_value] at hafter
      split at hafter
      · cases hafter
      cases t with
      | none => cases hafter
      | some t =>
        cases hafter
        have hshape := hp ht
        exact hshape

theorem parse_operators_shape (hp : Shaped p) : ∀ {n : Nat} {fn : Term D} {s : List UInt8} {h h' : Nat}
    {r : Term D × List UInt8}, fn.Shape → parse_operators p prio n fn s h = .ok (some r, h') → r.1.Shape
  | 0, _, _, _, _, _, _, hrun => by cases hrun
  | n + 1, fn, s, h, h', r, hfn, hrun => by
    rw [parse_operators_succ] at hrun
    split at hrun
    · cases hrun
      exact hfn
    split at hrun
    · cases hrun
      exact hfn
    obtain ⟨t, h₁, ht, hr⟩ := bind_ok hrun
    cases t with
    | none => cases hr
    | some t => exact parse_operators_shape hp (show Term.Shape (.binary _ fn t.1) from ⟨hfn, hp ht⟩) hr

theorem parse_term_shape : ∀ n, Shaped (parse_term scanf get n)
  | 0 => fun hrun => by cases hrun
  | n + 1 => fun hrun => by
    rw [parse_term_succ] at hrun
    obtain ⟨t, h₁, ht, hr⟩ := bind_ok hrun
    cases t with
    | none => cases hr
    | some t => exact parse_operators_shape (parse_term_shape n) (parse_operand_shape (parse_term_shape n) ht) hr

end

/-! ## Numbers -/

section

theorem decimal_eq (n : Nat) : decimal n = CString.decimal n := by
  rw [decimal, bytes]
  exact congrArg _ Nat.toList_repr

theorem decimal_digits (n : Nat) : ∀ c ∈ decimal n, isdigit c = true := by
  rw [decimal_eq]
  exact CString.decimal_digits n

theorem decimal_ne_nil (n : Nat) : decimal n ≠ [] := by
  rw [decimal_eq]
  exact CString.decimal_ne_nil n

theorem digits_decimal (n : Nat) : digits (decimal n) = n := by
  rw [decimal_eq]
  exact CString.digits_decimal n

theorem stored_decimal {n : Nat} (h : n < 2 ^ 32) : stored (decimal n) = n := by
  rw [stored, digits_decimal, Word.u32]
  omega

def digits6 (k : Nat) : List UInt8 :=
  [k / 100000 % 10, k / 10000 % 10, k / 1000 % 10, k / 100 % 10, k / 10 % 10, k % 10].map fun d =>
    UInt8.ofNat (0x30 + d)

def fixed6 (m : Nat) : List UInt8 := decimal (m / 1000000) ++ 0x2e :: digits6 (m % 1000000)

/-- `%f` and `%lf` for multiples of a millionth: `double m` is the value of `m` millionths. Where it is
`exact`, it is printed with these digits. -/
structure SixDecimals (scanf : Scanf D) (printf_f : D → List UInt8) (double : Nat → D)
    (exact : Nat → Prop) : Prop where
  prints : ∀ m, exact m → printf_f (double m) = fixed6 m ∧ printf_f (scanf.neg (double m)) = 0x2d :: fixed6 m
  reads : ∀ m, exact m → scanf.lf (fixed6 m) = (double m, (fixed6 m).length)

def Millionths (scanf : Scanf D) (double : Nat → D) (exact : Nat → Prop) (d : D) : Prop :=
  ∃ m, exact m ∧ (d = double m ∨ d = scanf.neg (double m))

theorem digits6_isdigit (k : Nat) : ∀ c ∈ digits6 k, isdigit c = true := by
  have hdigit : ∀ d < 10, isdigit (UInt8.ofNat (0x30 + d)) = true := by decide
  intro c hc
  obtain ⟨d, hd, rfl⟩ := List.mem_map.mp hc
  simp only [List.mem_cons, List.not_mem_nil, or_false] at hd
  exact hdigit d (by omega)

theorem fixed6_first (m : Nat) : isdigit (char (fixed6 m)) = true := by
  rw [fixed6, char_append (decimal_ne_nil _)]
  cases hd : decimal (m / 1000000) with
  | nil => exact absurd hd (decimal_ne_nil _)
  | cons c cs =>
    refine decimal_digits (m / 1000000) c ?_
    rw [hd]
    exact List.mem_cons_self

end

/-! ## Blanks -/

theorem strip_append (a b : List UInt8) : strip (a ++ b) = strip a ++ strip b := List.filter_append ..

theorem strip_self {a : List UInt8} (h : ∀ c ∈ a, isblank c = false ∧ isspace c = false) : strip a = a :=
  List.filter_eq_self.mpr fun c hc => by rw [(h c hc).1, (h c hc).2]; rfl

theorem digit_blank : ∀ c : UInt8, isdigit c = true → isblank c = false ∧ isspace c = false := by
  intro c h
  simp [isdigit, isblank, isspace, UInt8.ext_iff, UInt8.le_iff_toNat_le] at h ⊢
  omega

theorem alpha_blank : ∀ c : UInt8, (isalpha c || c == 0x5f) = true → isblank c = false ∧ isspace c = false := by
  intro c h
  simp [isalpha, isblank, isspace, UInt8.ext_iff, UInt8.le_iff_toNat_le] at h ⊢
  omega

theorem strip_decimal (n : Nat) : strip (decimal n) = decimal n :=
  strip_self fun c hc => digit_blank c (decimal_digits n c hc)

theorem strip_fixed6 (m : Nat) : strip (fixed6 m) = fixed6 m := by
  refine strip_self fun c hc => ?_
  rcases List.mem_append.mp hc with hc | hc
  · exact digit_blank c (decimal_digits _ c hc)
  · rcases List.mem_cons.mp hc with rfl | hc
    · decide
    · exact digit_blank c (digits6_isdigit _ c hc)

theorem strip_sym (op : Symop) : strip (sym_text op) = sym_text op := by cases op <;> rfl

theorem print_symbol_eq {op : Symop} {name : List UInt8} {index : Option Nat} (unset : Nat)
    (hindexed : has_index op = true → index ≠ none) (hnone : has_index op = false → index = none) :
    print_symbol unset op (if has_proc_name op then some name else none) index =
      sym_text op ++ (if has_proc_name op then name else []) ++ index_text (index.map decimal) := by
  by_cases hhas : has_index op = true
  · cases index with
    | none => exact absurd rfl (hindexed hhas)
    | some n =>
      have hop : op = .MEMINFO ∨ op = .VMSTAT ∨ op = .CPUSTAT ∨ op = .TIME := by
        revert hhas
        cases op <;> decide
      have hindex : bytes "[" ++ decimal n ++ bytes "]" = index_text ((some n).map decimal) := rfl
      rcases hop with rfl | rfl | rfl | rfl
      · show bytes "meminfo." ++ name ++ bytes "[" ++ decimal n ++ bytes "]" = _
        rw [← hindex, List.append_assoc (_ ++ _), List.append_assoc (_ ++ _), ← List.append_assoc (bytes "[")]
        rfl
      · show bytes "vmstat." ++ name ++ bytes "[" ++ decimal n ++ bytes "]" = _
        rw [← hindex, List.append_assoc (_ ++ _), List.append_assoc (_ ++ _), ← List.append_assoc (bytes "[")]
        rfl
      · show bytes "cpustat." ++ name ++ bytes "[" ++ decimal n ++ bytes "]" = _
        rw [← hindex, List.append_assoc (_ ++ _), List.append_assoc (_ ++ _), ← List.append_assoc (bytes "[")]
        rfl
      · rfl
  · have hindex := hnone (by simpa using hhas)
    subst hindex
    cases op <;> first
      | rfl
      | exact absurd rfl hhas

section
variable {printf_f : D → List UInt8} {double : Nat → D} {exact : Nat → Prop} {unset : Nat}

theorem print_expr (hd : SixDecimals scanf printf_f double exact) : ∀ {t : Term D}, t.Shape → t.Indexed →
    t.Constants (Millionths scanf double exact) →
    ∃ e : Expr, e.Wf scanf no_variable ∧ e.text = strip (print_term printf_f unset t) ∧ e.code scanf = t := by
  intro t
  induction t with
  | symbol op proc_name index =>
    rintro ⟨⟨name, rfl, hname⟩, hindex⟩ hindexed _
    have hnone : has_index op = false → index = none := fun hno => by
      cases index with
      | none => rfl
      | some n => rw [(hindex n rfl).1] at hno; cases hno
    refine ⟨.sym op (if has_proc_name op then name else []) (index.map decimal), ⟨fun hno => ?_, fun c hc => ?_,
      fun ds hds => ?_, rfl⟩, ?_, ?_⟩
    · rw [hno]
      rfl
    · split at hc
      · exact hname c hc
      · cases hc
    · obtain ⟨n, hn, rfl⟩ := Option.map_eq_some_iff.mp hds
      exact ⟨(hindex n hn).1, decimal_ne_nil n, decimal_digits n⟩
    · rw [print_term, print_symbol_eq unset hindexed hnone, strip_append, strip_append, strip_sym]
      have hproc : strip (if has_proc_name op then name else []) = if has_proc_name op then name else [] := by
        split
        · exact strip_self fun c hc => alpha_blank c (hname c hc)
        · rfl
      have htext : strip (index_text (index.map decimal)) = index_text (index.map decimal) := by
        cases index with
        | none => rfl
        | some n =>
          show strip ([0x5b] ++ decimal n ++ [0x5d]) = _
          rw [strip_append, strip_append, strip_decimal]
          rfl
      rw [hproc, htext]
      rfl
    · show symbol_term op (if has_proc_name op then name else []) ((index.map decimal).map stored) = _
      have hstored : (index.map decimal).map stored = index := by
        cases index with
        | none => rfl
        | some n => exact congrArg some (stored_decimal (hindex n rfl).2)
      rw [symbol_term, hstored]
      split <;> rfl
  | const d =>
    rintro - - ⟨m, hm, hvalue⟩
    have hconst : Constant scanf (fixed6 m) := ⟨fixed6_first m, by rw [hd.reads m hm]⟩
    have hvalue' : (scanf.lf (fixed6 m)).1 = double m := by rw [hd.reads m hm]
    rcases hvalue with rfl | rfl
    · refine ⟨.num (fixed6 m), hconst, ?_, congrArg Term.const hvalue'⟩
      rw [print_term, (hd.prints m hm).1, strip_fixed6]
      rfl
    · refine ⟨.neg (.num (fixed6 m)), ⟨hconst, Nat.le_succ 6⟩, ?_, ?_⟩
      · rw [print_term, (hd.prints m hm).2]
        show 0x2d :: fixed6 m = strip ([0x2d] ++ fixed6 m)
        rw [strip_append, strip_fixed6]
        rfl
      · show Term.const (scanf.neg (scanf.lf (fixed6 m)).1) = _
        rw [hvalue']
  | neg t ih =>
    intro hs hi hc
    obtain ⟨e, hwf, htext, hcode⟩ := ih hs hi hc
    refine ⟨.neg (.paren e), ⟨hwf, Nat.le_succ 6⟩, ?_, congrArg Term.neg hcode⟩
    rw [print_term, strip_append, strip_append, ← htext]
    rfl
  | not t ih =>
    intro hs hi hc
    obtain ⟨e, hwf, htext, hcode⟩ := ih hs hi hc
    refine ⟨.not (.paren e), ⟨hwf, Nat.le_succ 6⟩, ?_, congrArg Term.not hcode⟩
    rw [print_term, strip_append, strip_append, ← htext]
    rfl
  | binary op l r ihl ihr =>
    rintro ⟨hsl, hsr⟩ ⟨hil, hir⟩ ⟨hcl, hcr⟩
    obtain ⟨el, hwl, htl, hcodel⟩ := ihl hsl hil hcl
    obtain ⟨er, hwr, htr, hcoder⟩ := ihr hsr hir hcr
    have hrank : rank op < 7 := Nat.lt_succ_of_lt (rank_pos op).2
    refine ⟨.bin op (.paren el) (.paren er), ⟨hwl, hwr, Nat.le_of_lt hrank, hrank, fun _ => rfl⟩, ?_, ?_⟩
    · have hop : strip (print_op op) = [0x29, op_char op, 0x28] := by cases op <;> rfl
      rw [print_term, strip_append, strip_append, strip_append, strip_append, ← htl, ← htr, hop,
        text_bin, text_paren,
        text_paren]
      show 0x28 :: el.text ++ [0x29] ++ op_char op :: (0x28 :: er.text ++ [0x29]) =
        [0x28] ++ el.text ++ [0x29, op_char op, 0x28] ++ er.text ++ [0x29]
      simp
    · show Term.binary op (el.code scanf) (er.code scanf) = _
      rw [hcodel, hcoder]

/-- A term that the parser returned is read back from its printed text. -/
theorem print_parse (hl : scanf.Local) (hd : SixDecimals scanf printf_f double exact) {n h h' : Nat} {prio : OpPrio}
    {s rest : List UInt8} {t : Term D} (hparse : parse_term scanf get n prio s h = .ok (some (t, rest), h'))
    (hindexed : t.Indexed) (hconst : t.Constants (Millionths scanf double exact)) (k : Nat) :
    ∃ m k', parse_term scanf no_variable m .NONE (strip (print_term printf_f unset t)) k =
      .ok (some (t, []), k') := by
  obtain ⟨e, hwf, htext, hcode⟩ :=
    @print_expr D scanf printf_f double exact unset hd t (parse_term_shape n hparse) hindexed hconst
  obtain ⟨m, hm⟩ := @eventually_parse D scanf no_variable .NONE e.text k
  refine ⟨m, e.history k, ?_⟩
  rw [← htext, hm m (Nat.le_refl m), parse_rule hl hwf, hcode]

end

/-! ## A constant with decimal places -/

/-- `%lf` for numbers with at most six decimal places: the sign and the millionths. -/
def scanFixed : Scanf (Bool × Nat) where
  lf s :=
    let whole := s.takeWhile isdigit
    let places := ((s.dropWhile isdigit).drop 1).takeWhile isdigit
    if char (s.dropWhile isdigit) = 0x2e then
      ((false, digits whole * 1000000 + digits ((places ++ bytes "000000").take 6)),
        whole.length + 1 + places.length)
    else ((false, digits whole * 1000000), whole.length)
  neg d := (!d.1, d.2)

def printFixed (d : Bool × Nat) : List UInt8 := (if d.1 then [0x2d] else []) ++ fixed6 d.2

section
variable {whole places rest : List UInt8}

theorem scanFixed_whole (hwhole : ∀ c ∈ whole, isdigit c = true) (hrest : isdigit (char rest) = false)
    (hpoint : char rest ≠ 0x2e) : scanFixed.lf (whole ++ rest) = ((false, digits whole * 1000000),
      whole.length) := by
  simp only [scanFixed, takeWhile_stop hwhole hrest, dropWhile_stop hwhole hrest, if_neg hpoint]

theorem scanFixed_point (hwhole : ∀ c ∈ whole, isdigit c = true) (hplaces : ∀ c ∈ places, isdigit c = true)
    (hrest : isdigit (char rest) = false) : scanFixed.lf (whole ++ 0x2e :: (places ++ rest)) =
      ((false, digits whole * 1000000 + digits ((places ++ bytes "000000").take 6)),
        whole.length + 1 + places.length) := by
  have hdot : isdigit (char (0x2e :: (places ++ rest))) = false := rfl
  simp only [scanFixed, takeWhile_stop hwhole hdot, dropWhile_stop hwhole hdot, List.drop_succ_cons, List.drop_zero,
    takeWhile_stop hplaces hrest]
  rfl

end

theorem char_dropWhile {p : UInt8 → Bool} (h0 : p 0 = false) (s : List UInt8) :
    p (char (s.dropWhile p)) = false := by
  induction s with
  | nil => exact h0
  | cons c s ih =>
    rw [List.dropWhile_cons]
    split
    · exact ih
    · rename_i hc
      exact Bool.eq_false_iff.mpr hc

theorem scanFixed_shape (s : List UInt8) : ∃ whole rest, s = whole ++ rest ∧ (∀ c ∈ whole, isdigit c = true) ∧
    isdigit (char rest) = false ∧ (char rest ≠ 0x2e ∨ ∃ places after, rest = 0x2e :: (places ++ after) ∧
      (∀ c ∈ places, isdigit c = true) ∧ isdigit (char after) = false) := by
  refine ⟨s.takeWhile isdigit, s.dropWhile isdigit, List.takeWhile_append_dropWhile.symm,
    (fun c hc => List.mem_takeWhile_imp hc), char_dropWhile rfl s, ?_⟩
  by_cases hpoint : char (s.dropWhile isdigit) = 0x2e
  · right
    cases hrest : s.dropWhile isdigit with
    | nil =>
      rw [hrest] at hpoint
      exact absurd hpoint (by decide)
    | cons c rest =>
      rw [hrest] at hpoint
      have hc : c = 0x2e := hpoint
      rw [hc]
      exact ⟨rest.takeWhile isdigit, rest.dropWhile isdigit, by rw [List.takeWhile_append_dropWhile],
        (fun d hd => List.mem_takeWhile_imp hd), char_dropWhile rfl rest⟩
  · exact .inl hpoint

theorem scanFixed_local : scanFixed.Local := by
  refine ⟨fun s _ => ?_, fun s _ _ => ?_, fun s _ hpos => ?_, fun c rest hc hlen _ hend => ?_, fun s _ c hc => ?_⟩
  · obtain ⟨whole, rest, rfl, hwhole, hrest, hpoint | ⟨places, after, rfl, hplaces, hafter⟩⟩ := scanFixed_shape s
    · rw [scanFixed_whole hwhole hrest hpoint, List.length_append]
      exact Nat.le_add_right _ _
    · rw [scanFixed_point hwhole hplaces hafter]
      simp only [List.length_append, List.length_cons]
      omega
  · obtain ⟨whole, rest, rfl, hwhole, hrest, hpoint | ⟨places, after, rfl, hplaces, hafter⟩⟩ := scanFixed_shape s
    · have halone := @scanFixed_whole whole [] hwhole rfl (by decide)
      rw [List.append_nil] at halone
      rw [scanFixed_whole hwhole hrest hpoint, List.take_left, halone]
    · have halone := @scanFixed_point whole places [] hwhole hplaces rfl
      rw [List.append_nil] at halone
      have htake : (whole ++ 0x2e :: (places ++ after)).take (whole.length + 1 + places.length) =
        whole ++ 0x2e :: places := by
        rw [show whole ++ 0x2e :: (places ++ after) = (whole ++ 0x2e :: places) ++ after by simp]
        exact List.take_left' (by simp only [List.length_append, List.length_cons]; omega)
      rw [scanFixed_point hwhole hplaces hafter, htake, halone]
  · obtain ⟨whole, rest, rfl, hwhole, hrest, hpoint | ⟨places, after, rfl, hplaces, hafter⟩⟩ := scanFixed_shape s
    · rw [scanFixed_whole hwhole hrest hpoint] at hpos ⊢
      rw [List.take_left]
      exact ended_of_chars (List.length_pos_iff.mp hpos) fun x hx => .inl (hwhole x hx)
    · rw [scanFixed_point hwhole hplaces hafter,
        show whole ++ 0x2e :: (places ++ after) = (whole ++ 0x2e :: places) ++ after by simp,
        List.take_left' (by simp only [List.length_append, List.length_cons]; omega)]
      refine ended_of_chars (by simp) fun x hx => ?_
      rcases List.mem_append.mp hx with hx | hx
      · exact .inl (hwhole x hx)
      · rcases List.mem_cons.mp hx with rfl | hx
        · exact .inr rfl
        · exact .inl (hplaces x hx)
  · have hendchar := isend_char _ hend
    obtain ⟨whole, tail, rfl, hwhole, htail, hpoint | ⟨places, after, rfl, hplaces, hafter⟩⟩ := scanFixed_shape c
    · rw [scanFixed_whole hwhole htail hpoint] at hlen ⊢
      have hnil : tail = [] := List.length_eq_zero_iff.mp
        (by rw [List.length_append] at hlen; exact Nat.left_eq_add.mp hlen)
      have hdot : char rest ≠ 0x2e := fun hdot => by rw [hdot] at hend; exact absurd hend (by decide)
      rw [hnil, List.append_nil, scanFixed_whole hwhole hendchar.2.1 hdot]
    · rw [scanFixed_point hwhole hplaces hafter] at hlen ⊢
      have hnil : after = [] := List.length_eq_zero_iff.mp (by
        simp only [List.length_append, List.length_cons] at hlen
        omega)
      rw [hnil, List.append_nil, List.append_assoc, List.cons_append,
        scanFixed_point hwhole hplaces hendchar.2.1]
  · have halnum : ∀ c, isdigit c = true → (isalnum c || c == 0x2e || c == 0x2b || c == 0x2d) =
      true := fun c hdigit => by
      simp only [isalnum, hdigit, Bool.or_true, Bool.true_or]
    obtain ⟨whole, rest, rfl, hwhole, hrest, hpoint | ⟨places, after, rfl, hplaces, hafter⟩⟩ := scanFixed_shape s
    · rw [scanFixed_whole hwhole hrest hpoint, List.take_left] at hc
      exact halnum c (hwhole c hc)
    · rw [scanFixed_point hwhole hplaces hafter,
        show whole ++ 0x2e :: (places ++ after) = (whole ++ 0x2e :: places) ++ after by simp,
        List.take_left' (by simp only [List.length_append, List.length_cons]; omega)] at hc
      rcases List.mem_append.mp hc with hc | hc
      · exact halnum c (hwhole c hc)
      · rcases List.mem_cons.mp hc with rfl | hc
        · rfl
        · exact halnum c (hplaces c hc)

theorem digits_digits6 {k : Nat} (h : k < 1000000) : digits (digits6 k) = k := by
  have hall : (digits6 k).takeWhile isdigit = digits6 k := List.takeWhile_eq_self_iff.mpr (digits6_isdigit k)
  have hdigit : ∀ d < 10, (UInt8.ofNat (0x30 + d)).toNat - 0x30 = d := by decide
  rw [digits, hall]
  simp only [digits6, List.map_cons, List.map_nil, List.foldl_cons, List.foldl_nil,
    hdigit _ (Nat.mod_lt _ (Nat.succ_pos 9))]
  omega

theorem scanFixed_six : SixDecimals scanFixed printFixed (fun m => (false, m)) fun _ => True := by
  refine ⟨fun m _ => ⟨rfl, rfl⟩, fun m _ => ?_⟩
  have hpoint := @scanFixed_point (decimal (m / 1000000)) (digits6 (m % 1000000)) []
    (decimal_digits _) (digits6_isdigit _) rfl
  rw [List.append_nil] at hpoint
  have htake : (digits6 (m % 1000000) ++ bytes "000000").take 6 = digits6 (m % 1000000) := List.take_left' rfl
  rw [fixed6, hpoint, htake, digits_decimal, digits_digits6 (Nat.mod_lt _ (by decide)),
    List.length_append, List.length_cons,
    Nat.add_assoc, Nat.add_comm 1, Nat.div_add_mod' m 1000000]

def scaledTime : Term (Bool × Nat) := .binary .MULT (.symbol .TIME none (some 2)) (.const (true, 1500000))

theorem print_parse_scaled : ∃ m k', parse_term scanFixed no_variable m .NONE
    (strip (print_term printFixed 0 scaledTime)) 0 = .ok (some (scaledTime, []), k') := by
  have hparse : parse_term scanFixed no_variable 5 .NONE (bytes "time[2]*-1.5") 0 =
    .ok (some (scaledTime, []), 2) := by
    decide +kernel
  have hindexed : scaledTime.Indexed := ⟨fun _ => by decide, trivial⟩
  have hconst : scaledTime.Constants (Millionths scanFixed (fun m => (false, m)) fun _ => True) :=
    ⟨trivial, 1500000, trivial, .inr rfl⟩
  exact print_parse scanFixed_local scanFixed_six hparse hindexed hconst 0

end Cpuplugd
