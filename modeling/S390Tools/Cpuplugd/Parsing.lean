import S390Tools.Lib.Fuel
import S390Tools.Cpuplugd.Terms

/-!
# The parser of terms without fuel

With more fuel the parser says the same or more. Its limit meets the equations of the
functions of the source, a run that does not end being the error `.fuel`.
-/

namespace Cpuplugd

open CString Vtoc Fuel Filter

variable {D : Type} {scanf : Scanf D} {get : List UInt8 → Option (List UInt8)}

/-! ## One call -/

section
variable {parse parse' : TermParser D}

def isname (c : UInt8) : Bool := isalnum c || c == 0x5f

def after_value (var_name var_rvalue p : List UInt8) (r : Option (Term D × List UInt8)) :
    Parse (Option (Term D) × List UInt8) :=
  let fn := r.map (·.1)
  let var_rvalue := (r.map (·.2)).getD var_rvalue
  if char var_rvalue ≠ 0x0a then
    exit (bytes "parsing error at " ++ var_name ++ bytes ", position: " ++ var_rvalue ++ [0x0a])
  else pure (fn, p.drop var_name.length)

theorem parse_var_term_eq (parse : TermParser D) (p : List UInt8) : parse_var_term get parse p =
    if (p.takeWhile isname).length > MAX_VARNAME then
      exit (bytes "Variable name too long (max. length is " ++ decimal MAX_VARNAME ++
        bytes " chars): " ++ p ++ [0x0a])
    else match get (p.takeWhile isname) with
      | none => pure (none, p)
      | some var_rvalue => parse .NONE var_rvalue >>= after_value (p.takeWhile isname) var_rvalue p := by
  have hname : (fun c => isalnum c || c == 0x5f) = isname := rfl
  rw [parse_var_term, hname]
  by_cases hlen : (p.takeWhile isname).length > MAX_VARNAME
  · rw [if_pos hlen, if_pos hlen]
    rfl
  rw [if_neg hlen, if_neg hlen]
  cases get (p.takeWhile isname) with
  | none => rfl
  | some var_rvalue =>
    simp only
    congr 1
    funext r
    cases r with
    | none =>
      simp only [after_value, Option.map_none, Option.getD_none]
      by_cases h : char var_rvalue ≠ 0x0a
      · rw [if_pos h, if_pos h]
        rfl
      · rw [if_neg h, if_neg h]
    | some r =>
      simp only [after_value, Option.map_some, Option.getD_some]
      by_cases h : char r.2 ≠ 0x0a
      · rw [if_pos h, if_pos h]
        rfl
      · rw [if_neg h, if_neg h]

/-- The operand in front of which `parse_operand` calls the parser again, and what it makes of the result. -/
theorem parse_operand_eq (parse : TermParser D) (prio : OpPrio) (s : List UInt8) :
    parse_operand scanf get parse prio s =
      if char s = 0x2d then
        if isdigit (char s.tail) then pure (some (.const (scanf.neg (scanf.lf s.tail).1),
          s.tail.drop (scanf.lf s.tail).2))
        else parse prio s.tail >>= fun r => pure (r.map fun r => (.neg r.1, r.2))
      else if char s = 0x21 then parse prio s.tail >>= fun r => pure (r.map fun r => (.not r.1, r.2))
      else if isdigit (char s) then pure (some (.const (scanf.lf s).1, s.drop (scanf.lf s).2))
      else if char s = 0x28 then parse .NONE s.tail >>= fun r => pure (r.bind fun r =>
        if char r.2 ≠ 0x29 then none else some (r.1, r.2.tail))
      else parse_var_term get parse s >>= fun r => match r.1 with
        | some fn => pure (some (fn, r.2))
        | none => parse_symbol r.2 := by
  rw [parse_operand]
  by_cases h₁ : char s = 0x2d
  · rw [if_pos h₁, if_pos h₁]
    rfl
  rw [if_neg h₁, if_neg h₁]
  by_cases h₂ : char s = 0x21
  · rw [if_pos h₂, if_pos h₂]
  rw [if_neg h₂, if_neg h₂]
  by_cases h₃ : isdigit (char s) = true
  · rw [if_pos h₃, if_pos h₃]
    rfl
  rw [if_neg h₃, if_neg h₃]
  by_cases h₄ : char s = 0x28
  · rw [if_pos h₄, if_pos h₄]
    congr 1
    funext r
    cases r with
    | none => rfl
    | some r =>
      simp only [Option.bind_some]
      split <;> rfl
  rw [if_neg h₄, if_neg h₄]
  congr 1
  funext r
  obtain ⟨fn, s⟩ := r
  cases fn <;> rfl

end

/-! ## More fuel -/

section
variable {parse parse' : TermParser D}

theorem parse_var_term_below (h : ∀ prio s, Below Stop.fuel (parse prio s) (parse' prio s)) (s : List UInt8) :
    Below Stop.fuel (parse_var_term get parse s) (parse_var_term get parse' s) := by
  rw [parse_var_term_eq, parse_var_term_eq]
  split
  · exact .refl _
  · cases get (s.takeWhile isname) with
    | none => exact .refl _
    | some var_rvalue => exact (h _ _).bind fun _ => .refl _

theorem parse_operand_below (h : ∀ prio s, Below Stop.fuel (parse prio s) (parse' prio s)) (prio : OpPrio)
    (s : List UInt8) :
    Below Stop.fuel (parse_operand scanf get parse prio s) (parse_operand scanf get parse' prio s) := by
  rw [parse_operand_eq, parse_operand_eq]
  split
  · split
    · exact .refl _
    · exact (h _ _).bind fun _ => .refl _
  · split
    · exact (h _ _).bind fun _ => .refl _
    · split
      · exact .refl _
      · split
        · exact (h _ _).bind fun _ => .refl _
        · exact (parse_var_term_below h s).bind fun _ => .refl _

theorem parse_operators_succ (parse : TermParser D) (prio : OpPrio) (n : Nat) (fn : Term D) (s : List UInt8) :
    parse_operators parse prio (n + 1) fn s =
      match binop (char s) with
      | none => pure (some (fn, s))
      | some op =>
        if (op_prio_table op).ctorIdx ≤ prio.ctorIdx then pure (some (fn, s))
        else parse (op_prio_table op) s.tail >>= fun r => match r with
          | none => pure none
          | some r => parse_operators parse prio n (.binary op fn r.1) r.2 := by
  rw [parse_operators]
  cases binop (char s) with
  | none => rfl
  | some op =>
    simp only
    congr 1
    congr 1
    funext r
    cases r <;> rfl

theorem parse_operators_below (h : ∀ prio s, Below Stop.fuel (parse prio s) (parse' prio s)) (prio : OpPrio) :
    ∀ {m n : Nat}, m ≤ n → ∀ (fn : Term D) (s : List UInt8),
      Below Stop.fuel (parse_operators parse prio m fn s) (parse_operators parse' prio n fn s)
  | 0, n, _, fn, s => .error
  | m + 1, n + 1, hmn, fn, s => by
    rw [parse_operators_succ, parse_operators_succ]
    split
    · exact .refl _
    · split
      · exact .refl _
      · refine (h _ _).bind fun r => ?_
        cases r with
        | none => exact .refl _
        | some r => exact parse_operators_below h prio (Nat.le_of_succ_le_succ hmn) _ _

theorem parse_term_succ (n : Nat) (prio : OpPrio) (s : List UInt8) :
    parse_term scanf get (n + 1) prio s = parse_operand scanf get (parse_term scanf get n) prio s >>= fun r =>
      match r with
      | none => pure none
      | some r => parse_operators (parse_term scanf get n) prio n r.1 r.2 := by
  rw [parse_term]
  congr 1
  funext r
  cases r <;> rfl

theorem parse_term_below : ∀ (n : Nat) (prio : OpPrio) (s : List UInt8),
    Below Stop.fuel (parse_term scanf get n prio s) (parse_term scanf get (n + 1) prio s)
  | 0, _, _ => .error
  | n + 1, prio, s => by
    rw [parse_term_succ, parse_term_succ]
    refine (parse_operand_below (parse_term_below n) prio s).bind fun r => ?_
    cases r with
    | none => exact .refl _
    | some r => exact parse_operators_below (parse_term_below n) prio (Nat.le_succ n) _ _

end

/-! ## The limit -/

variable (scanf get) in
/-- `parse_term` with as much fuel as it needs. -/
noncomputable def parse : TermParser D := fun prio s => limit Stop.fuel fun n => parse_term scanf get n prio s

variable (scanf get) in
noncomputable def operators (prio : OpPrio) (fn : Term D) (s : List UInt8) : Parse (Option (Term D × List UInt8)) :=
  limit Stop.fuel fun n => parse_operators (parse_term scanf get n) prio n fn s

theorem parse_term_ascending (prio : OpPrio) (s : List UInt8) :
    Ascending Stop.fuel fun n => parse_term scanf get n prio s := fun n => parse_term_below n prio s

theorem parse_tends (prio : OpPrio) (s : List UInt8) :
    Tends (fun n => parse_term scanf get n prio s) (parse scanf get prio s) := (parse_term_ascending prio s).tends

theorem operators_tends (prio : OpPrio) (fn : Term D) (s : List UInt8) :
    Tends (fun n => parse_operators (parse_term scanf get n) prio n fn s) (operators scanf get prio fn s) :=
  Ascending.tends fun n => parse_operators_below (parse_term_below n) prio (Nat.le_succ n) fn s

theorem parse_var_term_tends (s : List UInt8) :
    Tends (fun n => parse_var_term get (parse_term scanf get n) s) (parse_var_term get (parse scanf get) s) := by
  simp only [parse_var_term_eq]
  split
  · exact .const _
  · cases get (s.takeWhile isname) with
    | none => exact .const _
    | some var_rvalue => exact (parse_tends _ _).bind fun _ => .const _

theorem parse_operand_tends (prio : OpPrio) (s : List UInt8) :
    Tends (fun n => parse_operand scanf get (parse_term scanf get n) prio s)
      (parse_operand scanf get (parse scanf get) prio s) := by
  simp only [parse_operand_eq]
  split
  · split
    · exact .const _
    · exact (parse_tends _ _).bind fun _ => .const _
  · split
    · exact (parse_tends _ _).bind fun _ => .const _
    · split
      · exact .const _
      · split
        · exact (parse_tends _ _).bind fun _ => .const _
        · exact (parse_var_term_tends s).bind fun _ => .const _

theorem parse_eq (prio : OpPrio) (s : List UInt8) :
    parse scanf get prio s = parse_operand scanf get (parse scanf get) prio s >>= fun r =>
      match r with
      | none => pure none
      | some r => operators scanf get prio r.1 r.2 := by
  refine (parse_tends prio s).shift.unique ?_
  simp only [parse_term_succ]
  refine (parse_operand_tends prio s).bind fun r => ?_
  cases r with
  | none => exact .const _
  | some r => exact operators_tends prio _ _

theorem operators_eq (prio : OpPrio) (fn : Term D) (s : List UInt8) :
    operators scanf get prio fn s = match binop (char s) with
      | none => pure (some (fn, s))
      | some op =>
        if (op_prio_table op).ctorIdx ≤ prio.ctorIdx then pure (some (fn, s))
        else parse scanf get (op_prio_table op) s.tail >>= fun r => match r with
          | none => pure none
          | some r => operators scanf get prio (.binary op fn r.1) r.2 := by
  refine (operators_tends prio fn s).shift.unique ?_
  simp only [parse_operators_succ]
  split
  · exact .const _
  · split
    · exact .const _
    · refine (parse_tends _ _).shift.bind fun r => ?_
      cases r with
      | none => exact .const _
      | some r =>
        exact (operators_tends prio _ _).between (fun n =>
          parse_operators_below (parse_term_below n) prio (Nat.le_refl n) _ _)
          fun n => parse_operators_below (fun _ _ => .refl _) prio (Nat.le_succ n) _ _

theorem parse_of_term {n : Nat} {prio : OpPrio} {s : List UInt8} {h : Nat}
    (hn : parse_term scanf get n prio s h ≠ .error .fuel) : parse scanf get prio s h =
      parse_term scanf get n prio s h :=
  (((parse_term_ascending prio s).below_limit n).eq hn).symm

theorem eventually_parse (prio : OpPrio) (s : List UInt8) (h : Nat) :
    ∃ n, ∀ m, n ≤ m → parse_term scanf get m prio s h = parse scanf get prio s h :=
  eventually_atTop.mp (parse_tends prio s h)

end Cpuplugd
