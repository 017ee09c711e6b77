import S390Tools.Cpuplugd.Grammar

/-!
# Expressions are parsed

The parser reads the text of an expression up to a character that ends it, and goes on
with the operators behind it below the leading unary operators.
-/

namespace Cpuplugd

open CString Vtoc Fuel

variable {D : Type} {scanf : Scanf D} {get : List UInt8 → Option (List UInt8)}

/-! ## Characters -/

def isend (c : UInt8) : Bool := (binop c).isSome || c == 0 || c == 0x29 || c == 0x0a

/-- The text ends in a digit, in a point or, as a hexadecimal number, in one of its letters: no
exponent is begun. -/
def ended (c : List UInt8) : Prop :=
  isdigit (c.getLastD 0) = true ∨ c.getLastD 0 = 0x2e ∨
    tolower (c.getD 1 0) = 0x78 ∧ 0x61 ≤ tolower (c.getLastD 0) ∧ tolower (c.getLastD 0) ≤ 0x66

theorem ended_of_chars {c : List UInt8} (hne : c ≠ []) (h : ∀ x ∈ c, isdigit x = true ∨ x = 0x2e) : ended c := by
  have hlast : c.getLastD 0 = c.getLast hne :=
    by rw [List.getLastD_eq_getLast?, List.getLast?_eq_getLast_of_ne_nil hne]; rfl
  rw [ended, hlast]
  exact (h _ (List.getLast_mem hne)).imp_right .inl

/-- `%lf` at a digit: the item is read alone or in front of an end as it is read within the text; it has no exponent
without digits, and consists of letters, digits, points and signs. -/
structure Scanf.Local (scanf : Scanf D) : Prop where
  le : ∀ s, isdigit (char s) = true → (scanf.lf s).2 ≤ s.length
  item : ∀ s, isdigit (char s) = true → 0 < (scanf.lf s).2 → scanf.lf (s.take (scanf.lf s).2) = scanf.lf s
  item_ended : ∀ s, isdigit (char s) = true → 0 < (scanf.lf s).2 → ended (s.take (scanf.lf s).2)
  ends : ∀ c rest, isdigit (char c) = true → (scanf.lf c).2 = c.length → ended c → isend (char rest) = true →
    scanf.lf (c ++ rest) = scanf.lf c
  chars : ∀ s, isdigit (char s) = true → ∀ c ∈ s.take (scanf.lf s).2,
    (isalnum c || c == 0x2e || c == 0x2b || c == 0x2d) = true

theorem isend_char : ∀ c : UInt8, isend c = true →
    isname c = false ∧ isdigit c = false ∧ c ≠ 0x5b ∧ c ≠ 0x21 ∧ c ≠ 0x28 ∧ (isalpha c || c == 0x5f) = false := by
  decide +kernel

theorem name_char : ∀ c : UInt8, isname c = true → c ≠ 0x2d ∧ c ≠ 0x21 ∧ c ≠ 0x28 ∧ c ≠ 0x0a ∧ c ≠ 0 := by
  intro c h
  refine ⟨?_, ?_, ?_, ?_, ?_⟩ <;> rintro rfl <;> exact absurd h (by decide)

@[simp] theorem binop_op_char (op : Binop) : binop (op_char op) = some op := by cases op <;> rfl

theorem binop_eq : ∀ (c : UInt8) (op : Binop), binop c = some op → c = op_char op := by
  intro c op h
  unfold binop at h
  repeat' split at h
  all_goals
    cases h
    try assumption

theorem isend_op_char (op : Binop) : isend (op_char op) = true := by cases op <;> rfl

def Stops (level : Nat) (tail : List UInt8) : Prop :=
  isend (char tail) = true ∧ ∀ op, binop (char tail) = some op → rank op ≤ level

theorem Stops.mono {m n : Nat} {tail : List UInt8} (h : Stops m tail) (hmn : m ≤ n) : Stops n tail :=
  ⟨h.1, fun op hop => Nat.le_trans (h.2 op hop) hmn⟩

theorem stops_op {n : Nat} {op : Binop} (h : rank op ≤ n) (s : List UInt8) : Stops n (op_char op :: s) := by
  refine ⟨isend_op_char op, fun op' hop => ?_⟩
  have hop : binop (op_char op) = some op' := hop
  rw [binop_op_char] at hop
  cases hop
  exact h

theorem stops_close (n : Nat) (s : List UInt8) : Stops n (0x29 :: s) := ⟨rfl, fun _ h => by cases h⟩

theorem stops_newline (n : Nat) (s : List UInt8) : Stops n (0x0a :: s) := ⟨rfl, fun _ h => by cases h⟩

theorem stops_nil (n : Nat) : Stops n [] := ⟨rfl, fun _ h => by cases h⟩

theorem rank_pos (op : Binop) : 0 < rank op ∧ rank op < 6 := by cases op <;> decide

theorem level_pos (e : Expr) : 0 < e.level := by
  cases e with
  | bin op _ _ => exact (rank_pos op).1
  | _ => exact Nat.succ_pos _

theorem char_append {a : List UInt8} (ha : a ≠ []) (b : List UInt8) : char (a ++ b) = char a := by
  cases a with
  | nil => exact absurd rfl ha
  | cons c a => rfl

theorem takeWhile_stop {p : UInt8 → Bool} {v tail : List UInt8} (hv : ∀ c ∈ v, p c = true)
    (ht : p (char tail) = false) :
    (v ++ tail).takeWhile p = v := by
  rw [List.takeWhile_append_of_pos hv]
  cases tail with
  | nil => rw [List.takeWhile_nil, List.append_nil]
  | cons c tail =>
    have hc : ¬p c = true := fun h => Bool.noConfusion (ht.symm.trans h)
    rw [List.takeWhile_cons_of_neg hc, List.append_nil]

theorem dropWhile_stop {p : UInt8 → Bool} {v tail : List UInt8} (hv : ∀ c ∈ v, p c = true)
    (ht : p (char tail) = false) :
    (v ++ tail).dropWhile p = tail := by
  rw [List.dropWhile_append_of_pos hv]
  cases tail with
  | nil => rfl
  | cons c tail =>
    have hc : ¬p c = true := fun h => Bool.noConfusion (ht.symm.trans h)
    rw [List.dropWhile_cons_of_neg hc]

/-! ## Operators -/

section
variable {prio : OpPrio} {tail : List UInt8}

theorem operators_of_rest {fn : Term D} (h : ∀ op, binop (char tail) = some op → rank op ≤ prio.ctorIdx) :
    operators scanf get prio fn tail = pure (some (fn, tail)) := by
  rw [operators_eq]
  cases hop : binop (char tail) with
  | none => rfl
  | some op => exact if_pos (h op hop)

theorem operators_stop (h : Stops prio.ctorIdx tail) (fn : Term D) :
    operators scanf get prio fn tail = pure (some (fn, tail)) := operators_of_rest h.2

theorem operators_op {op : Binop} (h : prio.ctorIdx < rank op) (fn : Term D) (s : List UInt8) :
    operators scanf get prio fn (op_char op :: s) = parse scanf get (op_prio_table op) s >>= fun r => match r with
      | none => pure none
      | some r => operators scanf get prio (.binary op fn r.1) r.2 := by
  have hop : binop (char (op_char op :: s)) = some op := binop_op_char op
  rw [operators_eq, hop]
  exact if_neg (Nat.not_le.mpr h)

theorem parse_operators_op {p : TermParser D} {op : Binop} (h : prio.ctorIdx < rank op) (n : Nat) (fn : Term D)
    (s : List UInt8) :
    parse_operators p prio (n + 1) fn (op_char op :: s) = p (op_prio_table op) s >>= fun r => match r with
      | none => pure none
      | some r => parse_operators p prio n (.binary op fn r.1) r.2 := by
  have hop : binop (char (op_char op :: s)) = some op := binop_op_char op
  rw [parse_operators_succ, hop]
  exact if_neg (Nat.not_le.mpr h)

theorem parse_operators_rest {p : TermParser D} : ∀ {n : Nat} {fn : Term D} {s : List UInt8} {h h' : Nat}
    {r : Term D × List UInt8}, parse_operators p prio n fn s h = .ok (some r, h') →
    ∀ op, binop (char r.2) = some op → rank op ≤ prio.ctorIdx
  | 0, _, _, _, _, _, hrun => by cases hrun
  | n + 1, fn, s, h, h', r, hrun => by
    rw [parse_operators_succ] at hrun
    intro op hop
    cases hs : binop (char s) with
    | none =>
      rw [hs] at hrun
      cases hrun
      rw [hs] at hop
      cases hop
    | some op' =>
      rw [hs] at hrun
      simp only at hrun
      by_cases hle : (op_prio_table op').ctorIdx ≤ prio.ctorIdx
      · rw [if_pos hle] at hrun
        cases hrun
        rw [hs] at hop
        cases hop
        exact hle
      · rw [if_neg hle, bind_apply] at hrun
        cases hp : p (op_prio_table op') s.tail h with
        | error e =>
          rw [hp] at hrun
          cases hrun
        | ok q =>
          rw [hp] at hrun
          obtain ⟨q, h₁⟩ := q
          cases q with
          | none => cases hrun
          | some q => exact parse_operators_rest hrun op hop

theorem operators_rest {fn : Term D} {s : List UInt8} {h h' : Nat} {r : Term D × List UInt8}
    (hrun : operators scanf get prio fn s h = .ok (some r, h')) (op : Binop) (hop : binop (char r.2) = some op) :
    rank op ≤ prio.ctorIdx := by
  obtain ⟨n, hn⟩ := (operators_tends prio fn s h).exists
  exact parse_operators_rest (hn.trans hrun) op hop

end

/-! ## Operands -/

def lead (us : List Unary) (r : Option (Term D × List UInt8)) : Option (Term D × List UInt8) :=
  r.map fun r => (wrap us r.1, r.2)

section
variable {prio : OpPrio} {tail : List UInt8} {h : Nat}

theorem parse_of_operand {fn : Term D} {s : List UInt8} {h' : Nat}
    (hop : parse_operand scanf get (parse scanf get) prio s h = .ok (some (fn, tail), h')) :
    parse scanf get prio s h = operators scanf get prio fn tail h' := by
  rw [parse_eq, bind_apply, hop]

theorem constant_append (hl : scanf.Local) {c : List UInt8} (hc : Constant scanf c)
    (ht : isend (char tail) = true) :
    isdigit (char (c ++ tail)) = true ∧ scanf.lf (c ++ tail) = scanf.lf c ∧
      (c ++ tail).drop (scanf.lf c).2 = tail := by
  have hne : c ≠ [] := fun h => by
    have hd := hc.1
    rw [h] at hd
    exact absurd hd (by decide)
  have hended := hl.item_ended c hc.1 (hc.2 ▸ List.length_pos_iff.mpr hne)
  rw [hc.2, List.take_length] at hended
  refine ⟨by rw [char_append hne]; exact hc.1, hl.ends c tail hc.1 hc.2 hended ht, ?_⟩
  rw [hc.2, List.drop_left]

theorem guest_not_nice {s : List UInt8} (hs : isname (char s) = false) :
    (bytes "guest_nice").isPrefixOf (sym_text .GUEST ++ s) = false := by
  have hnice : bytes "guest_nice" = [0x67, 0x75, 0x65, 0x73, 0x74, 0x5f, 0x6e, 0x69, 0x63, 0x65] := rfl
  have hguest : sym_text .GUEST = [0x67, 0x75, 0x65, 0x73, 0x74] := rfl
  rw [hnice, hguest]
  cases s with
  | nil => rfl
  | cons c s =>
    have hc : (0x5f == c) = false := by
      by_contra hc
      have hc : c = 0x5f := (beq_iff_eq.mp (by simpa using hc)).symm
      subst hc
      have hs : isname 0x5f = false := hs
      exact absurd hs (by decide)
    simp [List.isPrefixOf, hc]

theorem find_symbol (op : Symop) {s : List UInt8} (hs : has_proc_name op = false → isname (char s) = false) :
    sym_names.find? (fun name => name.1.isPrefixOf (sym_text op ++ s)) = some (sym_text op, op) := by
  by_cases hop : op = .GUEST
  · subst hop
    have hsplit : sym_names = sym_names.take 11 ++ (bytes "guest_nice", .GUEST_NICE) :: sym_names.drop 12 := rfl
    have hfront : (sym_names.take 11).find? (fun name => name.1.isPrefixOf (sym_text .GUEST ++ s)) = none := rfl
    have hnice : ¬(bytes "guest_nice").isPrefixOf (sym_text .GUEST ++ s) = true := by
      rw [guest_not_nice (hs rfl)]
      exact Bool.false_ne_true
    have hrest := List.find?_cons_of_neg (p := fun name : List UInt8 × Symop =>
      name.1.isPrefixOf (sym_text .GUEST ++ s))
      (a := (bytes "guest_nice", .GUEST_NICE)) (l := sym_names.drop 12) hnice
    rw [hsplit, List.find?_append, hfront, Option.none_or, hrest]
    rfl
  · cases op <;> try rfl
    exact absurd rfl hop

theorem digits_stop {ds tail : List UInt8} (hds : ∀ c ∈ ds, isdigit c = true) (ht : isdigit (char tail) = false) :
    digits (ds ++ tail) = digits ds := by
  have hall : ds.takeWhile isdigit = ds := List.takeWhile_eq_self_iff.mpr hds
  rw [digits, digits, takeWhile_stop hds ht, hall]

/-- What `parse_symbol` does behind the name of a symbol. -/
def parse_index (op : Symop) (s : List UInt8) : Parse (Option (Term D × List UInt8)) :=
  let proc_name := if has_proc_name op then s.takeWhile fun c => isalpha c || c == 0x5f else []
  let s := s.drop proc_name.length
  if has_index op && char s = 0x5b then
    if !isdigit (char s.tail) then pure none
    else if char (s.tail.dropWhile isdigit) ≠ 0x5d then pure none
    else fun h => .ok (some (symbol_term op proc_name (some (stored s.tail)), (s.tail.dropWhile isdigit).tail),
      max h (stored s.tail))
  else pure (some (symbol_term op proc_name none, s))

theorem parse_symbol_eq (s : List UInt8) :
    parse_symbol (D := D) s = match sym_names.find? fun name => name.1.isPrefixOf s with
      | none => pure none
      | some (name, op) => parse_index op (s.drop name.length) := by
  rw [parse_symbol]
  cases sym_names.find? fun name => name.1.isPrefixOf s with
  | none => rfl
  | some found =>
    obtain ⟨name, op⟩ := found
    simp only
    have hproc : ((if has_proc_name op then some ((s.drop name.length).takeWhile fun c => isalpha c || c == 0x5f)
        else
          none).getD []) = if has_proc_name op then (s.drop name.length).takeWhile fun c => isalpha c || c == 0x5f
        else [] := by split <;> rfl
    have hname : (if has_proc_name op then some ((s.drop name.length).takeWhile fun c => isalpha c || c == 0x5f)
        else none) = if has_proc_name op then some (if has_proc_name op then
          (s.drop name.length).takeWhile fun c => isalpha c || c == 0x5f else []) else none := by split <;> rfl
    rw [hproc, parse_index]
    simp only [symbol_term, has_index]
    rw [← hname]
    generalize (if has_proc_name op then some ((s.drop name.length).takeWhile fun c => isalpha c || c == 0x5f)
      else none) = proc_name
    split_ifs <;> rfl

theorem parse_symbol_text {op : Symop} {proc_name : List UInt8} {index : Option (List UInt8)}
    (hsym : IsSymbol get op proc_name index) (ht : isend (char tail) = true) :
    parse_symbol (D := D) (sym_text op ++ proc_name ++ index_text index ++ tail) h =
      .ok (some (symbol_term op proc_name (index.map stored), tail), (Expr.sym op proc_name index).history h) := by
  obtain ⟨hname, hdigit, hopen, -, -, halpha⟩ := isend_char _ ht
  have hbehind : ∀ p : UInt8 → Bool, p 0x5b = false → p (char tail) = false →
    p (char (index_text index ++ tail)) = false :=
    fun p h₁ h₂ => by cases index <;> assumption
  have hfind := @find_symbol op (proc_name ++ (index_text index ++ tail)) fun hno => by
    rw [hsym.plain hno, List.nil_append]
    exact hbehind isname (by decide) hname
  have hproc : (if has_proc_name op then (proc_name ++
    (index_text index ++ tail)).takeWhile fun c => isalpha c || c == 0x5f
      else []) = proc_name := by
    by_cases hhas : has_proc_name op = true
    · rw [if_pos hhas]
      exact takeWhile_stop hsym.chars (hbehind (fun c => isalpha c || c == 0x5f) (by decide) halpha)
    · rw [if_neg hhas, hsym.plain (by simpa using hhas)]
  rw [List.append_assoc, List.append_assoc, parse_symbol_eq, hfind]
  simp only [List.drop_left, parse_index]
  rw [hproc, List.drop_left]
  cases index with
  | none =>
    have hno : ¬(has_index op && decide (char (index_text none ++ tail) = 0x5b)) = true := by
      have hopen : ¬char (index_text none ++ tail) = 0x5b := hopen
      simpa using fun _ => hopen
    rw [if_neg hno]
    rfl
  | some ds =>
    obtain ⟨hhas, hne, hds⟩ := hsym.digits ds rfl
    have hyes : (has_index op && decide (char (index_text (some ds) ++ tail) = 0x5b)) = true := by
      rw [hhas]
      rfl
    have htail : (index_text (some ds) ++ tail).tail = ds ++ 0x5d :: tail := by
      simp [index_text]
    have hfirst : isdigit (char (ds ++ 0x5d :: tail)) = true := by
      rw [char_append hne]
      cases ds with
      | nil => exact absurd rfl hne
      | cons c ds => exact hds c List.mem_cons_self
    have hclose : isdigit (char (0x5d :: tail)) = false := rfl
    have hdrop : (ds ++ 0x5d :: tail).dropWhile isdigit = 0x5d :: tail := dropWhile_stop hds hclose
    have hstored : stored (ds ++ 0x5d :: tail) = stored ds := by rw [stored, stored, digits_stop hds hclose]
    rw [if_pos hyes, htail, hfirst, hdrop, hstored]
    rfl

theorem parse_unary {u : Unary} {us : List Unary} {s s' : List UInt8} {fn : Term D} {h' : Nat}
    (hop : parse_operand scanf get (parse scanf get) prio s =
      parse scanf get prio s' >>= fun r => pure (r.map fun r => (u.term r.1, r.2)))
    (hs : parse scanf get prio s' h = (operators scanf get prio fn tail >>= fun r => pure (lead us r)) h') :
    parse scanf get prio s h = (operators scanf get prio fn tail >>= fun r => pure (lead (u :: us) r)) h' := by
  rw [parse_eq, hop, bind_apply, bind_apply, hs, bind_apply, bind_apply]
  cases hrun : operators scanf get prio fn tail h' with
  | error e => rfl
  | ok p =>
    obtain ⟨r, h₂⟩ := p
    cases r with
    | none => rfl
    | some r => exact congrFun (operators_of_rest (operators_rest hrun)) h₂

end

/-! ## Expressions -/

section
variable {e : Expr} {tail : List UInt8}

theorem text_neg (e : Expr) : (Expr.neg e).text = 0x2d :: e.text := rfl

theorem text_not (e : Expr) : (Expr.not e).text = 0x21 :: e.text := rfl

theorem text_paren (e : Expr) : (Expr.paren e).text = 0x28 :: e.text ++ [0x29] := rfl

theorem text_bin (op : Binop) (l r : Expr) : (Expr.bin op l r).text = l.text ++ op_char op :: r.text := rfl

theorem parts_neg (h : ∀ c, e ≠ .num c) :
    (Expr.neg e).parts scanf = (.neg :: (e.parts scanf).1, (e.parts scanf).2) := by
  cases e with
  | num c => exact absurd rfl (h c)
  | _ => rfl

theorem sym_char (op : Symop) (s : List UInt8) : isname (char (sym_text op ++ s)) = true ∧
    isdigit (char (sym_text op ++ s)) = false := by
  cases op <;> exact ⟨rfl, rfl⟩

theorem not_digit (hwf : e.Wf scanf get) (hlevel : 6 ≤ e.level) (hnum : ∀ c, e ≠ .num c)
    (ht : isend (char tail) = true) :
    isdigit (char (e.text ++ tail)) = false := by
  cases e with
  | num c => exact absurd rfl (hnum c)
  | sym op proc_name index =>
    show isdigit (char (sym_text op ++ proc_name ++ index_text index ++ tail)) = false
    rw [List.append_assoc, List.append_assoc]
    exact (sym_char op _).2
  | var name value =>
    show isdigit (char (name ++ tail)) = false
    by_cases hname : name = []
    · subst hname
      exact (isend_char _ ht).2.1
    · rw [char_append hname]
      exact hwf.1.first
  | paren e => exact rfl
  | neg e => exact rfl
  | not e => exact rfl
  | bin op l r => exact absurd hlevel (Nat.not_le.mpr (rank_pos op).2)

theorem sym_visible (op : Symop) {s : List UInt8} (hs : has_proc_name op = false → isname (char s) = false) :
    (sym_text op ++ s).takeWhile isname = (sym_text op).takeWhile isname ∧
      ((sym_text op).takeWhile isname).length ≤ 13 := by
  have hnames : has_proc_name op = true ∨
      (has_proc_name op = false ∧ (sym_text op).all isname = true ∧ (sym_text op).takeWhile isname =
        sym_text op) := by
    cases op <;> decide
  have hshort : ((sym_text op).takeWhile isname).length ≤ 13 := by
    cases op <;> decide
  refine ⟨?_, hshort⟩
  rcases hnames with hhas | ⟨hhas, hall, hself⟩
  · cases op <;> first | rfl | cases hhas
  · rw [hself]
    exact takeWhile_stop (List.all_eq_true.mp hall) (hs hhas)

theorem parse_operand_name {prio : OpPrio} {p : TermParser D} {s : List UInt8} (hdigit : isdigit (char s) = false)
    (hminus : char s ≠ 0x2d) (hnot : char s ≠ 0x21) (hopen : char s ≠ 0x28) :
    parse_operand scanf get p prio s = parse_var_term get p s >>= fun r => match r.1 with
      | some fn => pure (some (fn, r.2))
      | none => parse_symbol r.2 := by
  have hdigit : ¬isdigit (char s) = true := fun h => Bool.noConfusion (hdigit.symm.trans h)
  rewrite [parse_operand_eq, if_neg hminus, if_neg hnot, if_neg hdigit, if_neg hopen]
  rfl

section
variable {prio : OpPrio} {p : TermParser D} {h h' : Nat} {t : Term D}

theorem operand_num (hl : scanf.Local) {c : List UInt8} (hc : Constant scanf c) (ht : isend (char tail) = true) :
    parse_operand scanf get p prio (c ++ tail) = pure (some (.const (scanf.lf c).1, tail)) := by
  obtain ⟨hdigit, hlf, hdrop⟩ := constant_append hl hc ht
  have hchar : char (c ++ tail) ≠ 0x2d ∧ char (c ++ tail) ≠ 0x21 := by
    constructor <;>
    · intro hc
      rw [hc] at hdigit
      exact absurd hdigit (by decide)
  rw [parse_operand_eq, if_neg hchar.1, if_neg hchar.2, if_pos hdigit, hlf, hdrop]

theorem operand_neg_num (hl : scanf.Local) {c : List UInt8} (hc : Constant scanf c)
    (ht : isend (char tail) = true) :
    parse_operand scanf get p prio (0x2d :: (c ++ tail)) =
      pure (some (.const (scanf.neg (scanf.lf c).1), tail)) := by
  obtain ⟨hdigit, hlf, hdrop⟩ := constant_append hl hc ht
  have hminus : char (0x2d :: (c ++ tail)) = 0x2d := rfl
  rw [parse_operand_eq, if_pos hminus, List.tail_cons, if_pos hdigit, hlf, hdrop]

theorem operand_sym {op : Symop} {proc_name : List UInt8} {index : Option (List UInt8)}
    (hsym : IsSymbol get op proc_name index) (ht : isend (char tail) = true) :
    parse_operand scanf get p prio ((Expr.sym op proc_name index).text ++ tail) h =
      .ok (some (symbol_term op proc_name (index.map stored), tail), (Expr.sym op proc_name index).history h) := by
  have hsplit : (Expr.sym op proc_name index).text ++ tail =
      sym_text op ++ (proc_name ++ (index_text index ++ tail)) := by
    show sym_text op ++ proc_name ++ index_text index ++ tail = _
    simp
  have hfirst := sym_char op (proc_name ++ (index_text index ++ tail))
  have hchars := name_char _ hfirst.1
  have hvisible := @sym_visible op (proc_name ++ (index_text index ++ tail)) fun hno => by
    rw [hsym.plain hno, List.nil_append]
    cases index with
    | none => exact (isend_char _ ht).1
    | some ds => exact rfl
  have hshort : ¬((sym_text op ++ (proc_name ++ (index_text index ++ tail))).takeWhile
    isname).length > MAX_VARNAME := by
    rw [hvisible.1]
    exact Nat.not_lt.mpr (Nat.le_trans hvisible.2 (by decide))
  have hvar : parse_var_term get p (sym_text op ++ (proc_name ++ (index_text index ++ tail))) =
      pure (none, sym_text op ++ (proc_name ++ (index_text index ++ tail))) := by
    rw [parse_var_term_eq, if_neg hshort, hvisible.1, hsym.visible]
  rw [hsplit, parse_operand_name hfirst.2 hchars.1 hchars.2.1 hchars.2.2.1, hvar, ← hsplit]
  exact parse_symbol_text hsym ht

theorem var_first {name value : List UInt8} (hvar : IsVariable get name value) (ht : isend (char tail) = true)
    (hempty : char tail = 0x2d → name ≠ []) :
    isdigit (char (name ++ tail)) = false ∧ char (name ++ tail) ≠ 0x2d ∧ char (name ++ tail) ≠ 0x21 ∧
      char (name ++ tail) ≠ 0x28 := by
  have hend := isend_char _ ht
  cases name with
  | nil => exact ⟨hend.2.1, fun hminus => hempty hminus rfl, hend.2.2.2.1, hend.2.2.2.2.1⟩
  | cons c name =>
    have hc := name_char c (hvar.chars c List.mem_cons_self)
    exact ⟨hvar.first, hc.1, hc.2.1, hc.2.2.1⟩

theorem operand_var {name value rest : List UInt8} (hvar : IsVariable get name value)
    (hget : get name = some (value ++ 0x0a :: rest)) (ht : isend (char tail) = true)
    (hempty : char tail = 0x2d → name ≠ [])
    (hvalue : p .NONE (value ++ 0x0a :: rest) h = .ok (some (t, 0x0a :: rest), h')) :
    parse_operand scanf get p prio (name ++ tail) h = .ok (some (t, tail), h') := by
  obtain ⟨hdigit, hminus, hnot, hopen⟩ := var_first hvar ht hempty
  have hrun : (name ++ tail).takeWhile isname = name := takeWhile_stop hvar.chars (isend_char _ ht).1
  have hafter : after_value name (value ++ 0x0a :: rest) (name ++ tail) (some (t, 0x0a :: rest)) =
    pure (some t, tail) := by
    rw [after_value]
    simp only [Option.map_some, Option.getD_some, List.drop_left]
    exact if_neg (not_not.mpr rfl)
  rw [parse_operand_name hdigit hminus hnot hopen, parse_var_term_eq, hrun,
    if_neg (Nat.not_lt.mpr hvar.length), hget]
  simp only
  rw [bind_apply, bind_apply, hvalue]
  simp only [hafter]
  rfl

theorem operand_paren {s : List UInt8} (hvalue : p .NONE (s ++ 0x29 :: tail) h = .ok (some (t, 0x29 :: tail), h')) :
    parse_operand scanf get p prio (0x28 :: s ++ 0x29 :: tail) h = .ok (some (t, tail), h') := by
  have hop : parse_operand scanf get p prio (0x28 :: s ++ 0x29 :: tail) =
      p .NONE (s ++ 0x29 :: tail) >>= fun r => pure (r.bind fun r =>
        if char r.2 ≠ 0x29 then none else some (r.1, r.2.tail)) := by
    rw [parse_operand_eq]
    rfl
  rw [hop, bind_apply, hvalue]
  rfl

end

def Expr.primary : Expr → Bool
  | .num _ | .sym _ _ _ | .var _ _ | .paren _ | .neg (.num _) => true
  | _ => false

theorem empty_name {name : List UInt8} {value : Expr} (h : (Expr.var name value).endsEmpty = false) : name ≠ [] :=
  of_decide_eq_false h

section
variable {prio : OpPrio} {h : Nat}

/-- What `parse_text` says of an expression. -/
structure Accepted (scanf : Scanf D) (get : List UInt8 → Option (List UInt8)) (e : Expr) : Prop where
  parsed : ∀ {prio : OpPrio} {tail : List UInt8} {h : Nat}, prio.ctorIdx < e.level →
    Stops e.level tail → (char tail = 0x2d → e.endsEmpty = false) →
    parse scanf get prio (e.text ++ tail) h =
      (operators scanf get prio (e.parts scanf).2 tail >>= fun r => pure (lead (e.parts scanf).1 r)) (e.history h)

theorem Accepted.stopped (hacc : Accepted scanf get e) (hp : prio.ctorIdx < e.level) (ht : Stops prio.ctorIdx tail)
    (hempty : char tail = 0x2d → e.endsEmpty = false) :
    parse scanf get prio (e.text ++ tail) h = .ok (some (e.code scanf, tail), e.history h) := by
  rw [hacc.parsed hp (ht.mono (Nat.le_of_lt hp)) hempty, operators_stop ht]
  rfl

theorem primary_text (hl : scanf.Local) (hwf : e.Wf scanf get) (hprim : e.primary = true)
    (hsub : ∀ e', e'.Wf scanf get → (e = .paren e' ∨ ∃ name, e = .var name e') → Accepted scanf get e')
    (ht : isend (char tail) = true) (hempty : char tail = 0x2d → e.endsEmpty = false) :
    parse_operand scanf get (parse scanf get) prio (e.text ++ tail) h =
      .ok (some (e.code scanf, tail), e.history h) := by
  cases e with
  | num c => exact congrFun (operand_num hl hwf ht) h
  | sym op proc_name index => exact operand_sym hwf ht
  | var name value =>
    obtain ⟨hvar, hvalue⟩ := hwf
    obtain ⟨rest, hget⟩ := hvar.value
    have hacc := hsub value hvalue (.inr ⟨name, rfl⟩)
    exact operand_var hvar hget ht (fun hminus => empty_name (hempty hminus))
      (hacc.stopped (level_pos value) (stops_newline _ _) fun h => by cases h)
  | paren e =>
    have htext : (Expr.paren e).text ++ tail = 0x28 :: e.text ++ 0x29 :: tail := by
      rw [text_paren]
      simp
    rw [htext]
    exact operand_paren ((hsub e hwf (.inl rfl)).stopped (level_pos e) (stops_close _ _) fun h => by cases h)
  | neg e =>
    cases e with
    | num c => exact congrFun (operand_neg_num hl hwf.1 ht) h
    | _ => cases hprim
  | _ => cases hprim

theorem primary_parts (hprim : e.primary = true) : (e.parts scanf).1 = [] ∧ 6 ≤ e.level := by
  cases e with
  | neg e =>
    cases e with
    | num c => exact ⟨rfl, Nat.le_refl 6⟩
    | _ => cases hprim
  | not e => cases hprim
  | bin op l r => cases hprim
  | _ => exact ⟨rfl, Nat.le_succ 6⟩

theorem primary_of_parts (hlevel : 6 ≤ e.level) (hus : (e.parts scanf).1 = []) : e.primary = true := by
  cases e with
  | neg e =>
    cases e with
    | num c => rfl
    | _ => cases hus
  | not e => cases hus
  | bin op l r => exact absurd hlevel (Nat.not_le.mpr (rank_pos op).2)
  | _ => rfl

theorem Accepted.primary (hl : scanf.Local) (hwf : e.Wf scanf get) (hprim : e.primary = true)
    (hsub : ∀ e', e'.Wf scanf get → (e = .paren e' ∨ ∃ name, e = .var name e') → Accepted scanf get e') :
    Accepted scanf get e := by
  refine ⟨fun {prio tail h} _ ht hempty => ?_⟩
  have hus : (e.parts scanf).1 = [] := (primary_parts hprim).1
  have hcode : e.code scanf = (e.parts scanf).2 := by
    rw [Expr.code, hus]
    rfl
  have hlead : (fun r => pure (lead (e.parts scanf).1 r) : _ → Parse (Option (Term D × List UInt8))) = pure := by
    funext r
    rw [hus]
    cases r <;> rfl
  rw [parse_of_operand (primary_text hl hwf hprim hsub ht.1 hempty), hcode, hlead, bind_pure]

theorem Accepted.neg (hl : scanf.Local) (hwf : (Expr.neg e).Wf scanf get) (hacc : Accepted scanf get e) :
    Accepted scanf get (.neg e) := by
  by_cases hnum : ∃ c, e = .num c
  · obtain ⟨c, rfl⟩ := hnum
    exact .primary hl hwf rfl fun e' _ h => by rcases h with h | ⟨_, h⟩ <;> cases h
  refine ⟨fun {prio tail h} hp ht hempty => ?_⟩
  have hlevel : 6 ≤ e.level := hwf.2
  have hnum : ∀ c, e ≠ .num c := fun c hc => hnum ⟨c, hc⟩
  have hdigit : ¬isdigit (char (e.text ++ tail)) = true := fun h =>
    Bool.noConfusion ((not_digit hwf.1 hlevel hnum ht.1).symm.trans h)
  have hminus : char (0x2d :: (e.text ++ tail)) = 0x2d := rfl
  have hop : parse_operand scanf get (parse scanf get) prio (0x2d :: (e.text ++ tail)) =
      parse scanf get prio (e.text ++ tail) >>= fun r => pure (r.map fun r => (Unary.term .neg r.1, r.2)) := by
    rw [parse_operand_eq, if_pos hminus, List.tail_cons, if_neg hdigit]
    rfl
  rw [parts_neg hnum]
  exact parse_unary hop (hacc.parsed (Nat.lt_of_lt_of_le hp hlevel) (ht.mono hlevel) hempty)

theorem Accepted.not (hwf : (Expr.not e).Wf scanf get) (hacc : Accepted scanf get e) :
    Accepted scanf get (.not e) := by
  refine ⟨fun {prio tail h} hp ht hempty => ?_⟩
  have hop : parse_operand scanf get (parse scanf get) prio (0x21 :: (e.text ++ tail)) =
      parse scanf get prio (e.text ++ tail) >>= fun r => pure (r.map fun r => (Unary.term .not r.1, r.2)) := by
    rw [parse_operand_eq]
    rfl
  exact parse_unary hop (hacc.parsed (Nat.lt_of_lt_of_le hp hwf.2) (ht.mono hwf.2) hempty)

theorem Accepted.bin {op : Binop} {l r : Expr} (hwf : (Expr.bin op l r).Wf scanf get) (hleft : Accepted scanf get l)
    (hright : Accepted scanf get r) : Accepted scanf get (.bin op l r) := by
  refine ⟨fun {prio tail h} hp ht hempty => ?_⟩
  obtain ⟨-, -, hll, hlr, hminus⟩ := hwf
  have hp : prio.ctorIdx < rank op := hp
  have htext : (Expr.bin op l r).text ++ tail = l.text ++ op_char op :: (r.text ++ tail) := by
    rw [text_bin]
    simp
  have hempty' : char (op_char op :: (r.text ++ tail)) = 0x2d → l.endsEmpty = false := fun hc =>
    hminus (by cases op <;> first | rfl | cases hc)
  rw [htext, hleft.parsed (Nat.lt_of_lt_of_le hp hll) (stops_op hll _) hempty', operators_op hp,
    bind_apply, bind_apply,
    bind_apply, hright.stopped hlr ht hempty]
  rfl

theorem parse_text (hl : scanf.Local) (e : Expr) (hwf : e.Wf scanf get) : Accepted scanf get e := by
  induction e with
  | num c => exact .primary hl hwf rfl fun e' _ h => by rcases h with h | ⟨_, h⟩ <;> cases h
  | sym op proc_name index => exact .primary hl hwf rfl fun e' _ h => by rcases h with h | ⟨_, h⟩ <;> cases h
  | var name value ih =>
    refine .primary hl hwf rfl fun e' hwf' h => ?_
    rcases h with h | ⟨_, h⟩ <;> cases h
    exact ih hwf'
  | paren e ih =>
    refine .primary hl hwf rfl fun e' hwf' h => ?_
    rcases h with h | ⟨_, h⟩ <;> cases h
    exact ih hwf'
  | neg e ih => exact .neg hl hwf (ih hwf.1)
  | not e ih => exact .not hwf (ih hwf.1)
  | bin op l r ihl ihr => exact .bin hwf (ihl hwf.1) (ihr hwf.2.1)

theorem parse_rule (hl : scanf.Local) (hwf : e.Wf scanf get) :
    parse scanf get .NONE e.text h = .ok (some (e.code scanf, []), e.history h) := by
  have hrun := @Accepted.stopped D scanf get e [] .NONE h (parse_text hl e hwf) (level_pos e) (stops_nil _)
    fun h => by cases h
  rwa [List.append_nil] at hrun

end

end

end Cpuplugd
