import S390Tools.Cpuplugd.Spelling
import S390Tools.Cpuplugd.Variables

/-!
# Expansion of variables

The parser enters the definition of a variable where it comes to its name. It ends
with a rule exactly when no chain of definitions entered one from the other goes on
for ever.
-/

namespace Cpuplugd

open CString Vtoc Fuel

variable {D : Type} {scanf : Scanf D} {get : List UInt8 → Option (List UInt8)}

/-! ## Definitions entered -/

/-- Where the parser stands: in front of an operand or of an operator. -/
inductive Place
  | operand | operators

variable (scanf get) in
/-- The parser comes to a variable with the definition `value`; operands in front of it are expressions. -/
inductive Enters : Place → OpPrio → List UInt8 → List UInt8 → Prop
  | here {prio : OpPrio} {s value : List UInt8} : isdigit (char s) = false → char s ≠ 0x2d → char s ≠ 0x21 →
      char s ≠ 0x28 → (s.takeWhile isname).length ≤ MAX_VARNAME → get (s.takeWhile isname) = some value →
      Enters .operand prio s value
  | unary {prio : OpPrio} {u : Unary} {s value : List UInt8} : (u = .neg → isdigit (char s) = false) →
      Enters .operand prio s value → Enters .operand prio (u.char :: s) value
  | paren {prio : OpPrio} {s value : List UInt8} : Enters .operand .NONE s value →
      Enters .operand prio (0x28 :: s) value
  | behind {prio : OpPrio} {e : Expr} {s value : List UInt8} : e.Wf scanf get → e.primary = true →
      isend (char s) = true → (char s = 0x2d → e.endsEmpty = false) → Enters .operators prio s value →
      Enters .operand prio (e.text ++ s) value
  | right {prio : OpPrio} {op : Binop} {s value : List UInt8} : prio.ctorIdx < rank op →
      Enters .operand (op_prio_table op) s value → Enters .operators prio (op_char op :: s) value
  | next {prio : OpPrio} {op : Binop} {e : Expr} {s value : List UInt8} : prio.ctorIdx < rank op → e.Wf scanf get →
      rank op < e.level → Stops (rank op) s → (char s = 0x2d → e.endsEmpty = false) →
        Enters .operators prio s value →
      Enters .operators prio (op_char op :: (e.text ++ s)) value

variable (scanf get) in
/-- The text `value` is the definition of a variable that a rule or definition `s` uses. -/
def Expands (value s : List UInt8) : Prop := Enters scanf get .operand .NONE s value

/-! ## A run that ends -/

section
variable {prio : OpPrio} {s value : List UInt8} {n h : Nat}

def Runs (scanf : Scanf D) (get : List UInt8 → Option (List UInt8)) (n h : Nat) (prio : OpPrio) (s : List UInt8) :
    Place → Prop
  | .operand => parse_term scanf get (n + 1) prio s h ≠ .error .fuel
  | .operators => ∃ k fn, parse_operators (parse_term scanf get n) prio k fn s h ≠ .error .fuel

theorem bind_ne_fuel {α β : Type} {x : Parse α} {f : α → Parse β} (hrun : (x >>= f) h ≠ .error .fuel) :
    x h ≠ .error .fuel := fun hx => by
  rw [bind_apply, hx] at hrun
  exact hrun rfl

theorem runs_succ (hrun : parse_term scanf get n prio s h ≠ .error .fuel) :
    ∃ m < n, Runs scanf get m h prio s .operand := by
  cases n with
  | zero => exact absurd rfl hrun
  | succ n => exact ⟨n, Nat.lt_succ_self n, hrun⟩

theorem Enters.runs (hl : scanf.Local) {place : Place}
    (henters : Enters scanf get place prio s value) : ∀ {n h : Nat},
    Runs scanf get n h prio s place → ∃ m ≤ n, ∃ h', parse_term scanf get m .NONE value h' ≠ .error .fuel := by
  have hbelow : ∀ {n : Nat} {prio : OpPrio} {s : List UInt8} {h : Nat},
    parse_term scanf get n prio s h ≠ .error .fuel →
      parse_term scanf get n prio s h = parse scanf get prio s h := fun hrun => (parse_of_term hrun).symm
  induction henters with
  | here hdigit hminus hnot hopen hlen hget =>
    intro n h hrun
    have hrun : parse_term scanf get (n + 1) _ _ h ≠ _ := hrun
    rw [parse_term_succ, parse_operand_name hdigit hminus hnot hopen, parse_var_term_eq,
      if_neg (Nat.not_lt.mpr hlen),
      hget] at hrun
    exact ⟨n, Nat.le_refl n, h, bind_ne_fuel (bind_ne_fuel (bind_ne_fuel hrun))⟩
  | @unary prio u s value hdigit _ ih =>
    intro n h hrun
    have hrun : parse_term scanf get (n + 1) _ _ h ≠ _ := hrun
    have hop : parse_operand scanf get (parse_term scanf get n) prio (u.char :: s) =
        parse_term scanf get n prio s >>= fun r => pure (r.map fun r => (u.term r.1, r.2)) := by
      rw [parse_operand_eq]
      cases u with
      | neg =>
        have hchar : char (Unary.neg.char :: s) = 0x2d := rfl
        have hdigit : ¬isdigit (char s) = true := fun h => Bool.noConfusion ((hdigit rfl).symm.trans h)
        rw [if_pos hchar, List.tail_cons, if_neg hdigit]
        rfl
      | not => rfl
    rw [parse_term_succ, hop] at hrun
    obtain ⟨m, hm, hruns⟩ := runs_succ (bind_ne_fuel (bind_ne_fuel hrun))
    obtain ⟨k, hk, hvalue⟩ := ih hruns
    exact ⟨k, Nat.le_trans hk (Nat.le_of_lt hm), hvalue⟩
  | @paren prio s value _ ih =>
    intro n h hrun
    have hrun : parse_term scanf get (n + 1) _ _ h ≠ _ := hrun
    have hop : parse_operand scanf get (parse_term scanf get n) prio (0x28 :: s) =
        parse_term scanf get n .NONE s >>= fun r => pure (r.bind fun r =>
          if char r.2 ≠ 0x29 then none else some (r.1, r.2.tail)) := by
      rw [parse_operand_eq]
      rfl
    rw [parse_term_succ, hop] at hrun
    obtain ⟨m, hm, hruns⟩ := runs_succ (bind_ne_fuel (bind_ne_fuel hrun))
    obtain ⟨k, hk, hvalue⟩ := ih hruns
    exact ⟨k, Nat.le_trans hk (Nat.le_of_lt hm), hvalue⟩
  | @behind prio e s value hwf hprim hend hempty _ ih =>
    intro n h hrun
    have hrun : parse_term scanf get (n + 1) prio (e.text ++ s) h ≠ _ := hrun
    rw [parse_term_succ] at hrun
    have htext := @primary_text D scanf get e s prio h hl hwf hprim (fun e' hwf' _ =>
      parse_text hl e' hwf') hend hempty
    have hop : parse_operand scanf get (parse_term scanf get n) prio (e.text ++ s) h =
        .ok (some (e.code scanf, s), e.history h) :=
      ((parse_operand_below (fun prio s => (parse_term_ascending prio s).below_limit n) prio (e.text ++ s)).eq
        (bind_ne_fuel hrun)).trans htext
    rw [bind_apply, hop] at hrun
    exact ih ⟨n, _, hrun⟩
  | @right prio op s value hp _ ih =>
    rintro n h ⟨k, fn, hrun⟩
    cases k with
    | zero => exact absurd rfl hrun
    | succ k =>
      rw [parse_operators_op hp] at hrun
      obtain ⟨m, hm, hruns⟩ := runs_succ (bind_ne_fuel hrun)
      obtain ⟨j, hj, hvalue⟩ := ih hruns
      exact ⟨j, Nat.le_trans hj (Nat.le_of_lt hm), hvalue⟩
  | @next prio op e s value hp hwf hlevel hstops hempty _ ih =>
    rintro n h ⟨k, fn, hrun⟩
    cases k with
    | zero => exact absurd rfl hrun
    | succ k =>
      rw [parse_operators_op hp] at hrun
      have htext : parse scanf get (op_prio_table op) (e.text ++ s) h = .ok (some (e.code scanf, s), e.history h) :=
        (parse_text hl e hwf).stopped hlevel hstops hempty
      have hright := (hbelow (bind_ne_fuel hrun)).trans htext
      rw [bind_apply, hright] at hrun
      exact ih ⟨k, _, hrun⟩

/-! ## A run that does not end -/

theorem parse_var_term_fuel {p : TermParser D} (hrun : parse_var_term get p s h = .error .fuel) :
    (s.takeWhile isname).length ≤ MAX_VARNAME ∧
      ∃ value, get (s.takeWhile isname) = some value ∧ p .NONE value h = .error .fuel := by
  rw [parse_var_term_eq] at hrun
  by_cases hlen : (s.takeWhile isname).length > MAX_VARNAME
  · rw [if_pos hlen] at hrun
    cases hrun
  rw [if_neg hlen] at hrun
  refine ⟨Nat.le_of_not_lt hlen, ?_⟩
  cases hget : get (s.takeWhile isname) with
  | none =>
    rw [hget] at hrun
    cases hrun
  | some value =>
    rw [hget] at hrun
    simp only at hrun
    refine ⟨value, rfl, ?_⟩
    rw [bind_apply] at hrun
    cases hvalue : p .NONE value h with
    | error e =>
      rw [hvalue] at hrun
      cases hrun
      rfl
    | ok r =>
      rw [hvalue] at hrun
      simp only [after_value] at hrun
      split at hrun
      · cases hrun
      · cases hrun

theorem parse_symbol_fuel : parse_symbol (D := D) s h ≠ .error .fuel := by
  rw [parse_symbol_eq]
  cases sym_names.find? (fun name => name.1.isPrefixOf s) with
  | none => exact fun hrun => by cases hrun
  | some found =>
    simp only [parse_index]
    split_ifs <;> exact fun hrun => by cases hrun

variable (scanf get) in
/-- From this place the parser comes to a definition that is not parsed. -/
def Stuck (place : Place) (prio : OpPrio) (s : List UInt8) : Prop :=
  ∃ value h, Enters scanf get place prio s value ∧ parse scanf get .NONE value h = .error .fuel

theorem bind_fuel {α β : Type} {x : Parse α} {f : α → Parse β} (hrun : (x >>= f) h = .error .fuel) :
    x h = .error .fuel ∨ ∃ a h', x h = .ok (a, h') ∧ f a h' = .error .fuel := by
  rw [bind_apply] at hrun
  cases hx : x h with
  | error e =>
    rw [hx] at hrun
    cases hrun
    exact .inl rfl
  | ok r =>
    rw [hx] at hrun
    exact .inr ⟨r.1, r.2, rfl, hrun⟩

theorem operators_stuck (hl : scanf.Local) {k : Nat}
    (hshort : ∀ {prio : OpPrio} {s : List UInt8} {h : Nat}, s.length < k →
    parse scanf get prio s h = .error .fuel → Stuck scanf get .operand prio s) : ∀ (n : Nat)
      {s : List UInt8} {fn : Term D}
    {h : Nat}, s.length ≤ n → n ≤ k → operators scanf get prio fn s h = .error .fuel →
      Stuck scanf get .operators prio s := by
  intro n
  induction n with
  | zero =>
    intro s fn h hlen _ hrun
    have hnil := List.eq_nil_of_length_eq_zero (Nat.le_zero.mp hlen)
    subst hnil
    rw [operators_stop (stops_nil _)] at hrun
    cases hrun
  | succ n ih =>
    intro s fn h hlen hk hrun
    cases hop : binop (char s) with
    | none =>
      rw [operators_of_rest fun op h => by rw [hop] at h; cases h] at hrun
      cases hrun
    | some op =>
      have hs := cons_of_char (by cases op <;> decide) (binop_eq _ _ hop)
      have htail : s.tail.length ≤ n := by
        rw [List.length_tail]
        omega
      by_cases hp : prio.ctorIdx < rank op
      · rw [hs, operators_op hp] at hrun
        rw [hs]
        rcases bind_fuel hrun with hright | ⟨r, h', hright, hloop⟩
        · obtain ⟨value, hv, henters, hvalue⟩ := hshort (Nat.lt_of_le_of_lt htail hk) hright
          exact ⟨value, hv, .right hp henters, hvalue⟩
        · cases r with
          | none => cases hloop
          | some r =>
            obtain ⟨right, rest⟩ := r
            have hparsed := parse_sound hl hright
            obtain ⟨value, hv, henters, hvalue⟩ := ih (Nat.le_trans hparsed.length htail)
              (Nat.le_of_succ_le hk) hloop
            have hend : isend (char rest) = true := by
              by_contra hend
              have hnone : binop (char rest) = none := by
                cases hb : binop (char rest) with
                | none => rfl
                | some op' =>
                  rw [binop_eq _ _ hb] at hend
                  exact absurd (isend_op_char op') hend
              have hloop : operators scanf get prio _ rest h' = .error .fuel := hloop
              rw [operators_of_rest fun op h => by rw [hnone] at h; cases h] at hloop
              cases hloop
            obtain ⟨e, he⟩ := hparsed.spells hend
            refine ⟨value, hv, ?_, hvalue⟩
            rw [he.text]
            exact .next hp he.wf he.level ⟨hend, hparsed.rest⟩ he.ends henters
      · rw [operators_of_rest fun op' h => by rw [hop] at h; cases h; exact Nat.le_of_not_lt hp] at hrun
        cases hrun

theorem operand_stuck (hshort : ∀ {prio : OpPrio} {s' : List UInt8} {h : Nat}, s'.length < s.length →
    parse scanf get prio s' h = .error .fuel → Stuck scanf get .operand prio s')
    (hrun : parse_operand scanf get (parse scanf get) prio s h = .error .fuel) :
      Stuck scanf get .operand prio s := by
  have hpure : ∀ {α β : Type} {x : Parse α} {f : α → β} {h : Nat}, (x >>= fun r => pure (f r)) h = .error .fuel →
      x h = .error .fuel := fun hrun => by
    rcases bind_fuel hrun with hx | ⟨r, h', -, hf⟩
    · exact hx
    · cases hf
  have htail : ∀ {c : UInt8}, s = c :: s.tail → s.tail.length < s.length := fun hs => by
    have hlen := congrArg List.length hs
    rw [List.length_cons] at hlen
    omega
  have hunary : ∀ u : Unary, char s = u.char → (u = .neg → isdigit (char s.tail) = false) →
      parse scanf get prio s.tail h = .error .fuel → Stuck scanf get .operand prio s := by
    intro u hu hdigit hsub
    have hs := cons_of_char (by cases u <;> decide) hu
    obtain ⟨value, hv, henters, hvalue⟩ := hshort (htail hs) hsub
    refine ⟨value, hv, ?_, hvalue⟩
    rw [hs]
    exact .unary hdigit henters
  rw [parse_operand_eq] at hrun
  by_cases h₁ : char s = 0x2d
  · rw [if_pos h₁] at hrun
    by_cases hdigit : isdigit (char s.tail) = true
    · rw [if_pos hdigit] at hrun
      cases hrun
    · rw [if_neg hdigit] at hrun
      exact hunary .neg h₁ (fun _ => by simpa using hdigit) (hpure hrun)
  rw [if_neg h₁] at hrun
  by_cases h₂ : char s = 0x21
  · rw [if_pos h₂] at hrun
    exact hunary .not h₂ (fun hu => by cases hu) (hpure hrun)
  rw [if_neg h₂] at hrun
  by_cases h₃ : isdigit (char s) = true
  · rw [if_pos h₃] at hrun
    cases hrun
  rw [if_neg h₃] at hrun
  by_cases h₄ : char s = 0x28
  · rw [if_pos h₄] at hrun
    have hs := cons_of_char (by decide) h₄
    obtain ⟨value, hv, henters, hvalue⟩ := hshort (htail hs) (hpure hrun)
    refine ⟨value, hv, ?_, hvalue⟩
    rw [hs]
    exact .paren henters
  rw [if_neg h₄] at hrun
  rcases bind_fuel hrun with hvar | ⟨r, h', -, hsym⟩
  · obtain ⟨hlen, value, hget, hvalue⟩ := parse_var_term_fuel hvar
    exact ⟨value, h, .here (by simpa using h₃) h₁ h₂ h₄ hlen hget, hvalue⟩
  · obtain ⟨fn, rest⟩ := r
    cases fn with
    | none => exact absurd hsym parse_symbol_fuel
    | some fn => cases hsym

theorem parse_stuck (hl : scanf.Local) : ∀ (n : Nat) {prio : OpPrio} {s : List UInt8} {h : Nat}, s.length = n →
    parse scanf get prio s h = .error .fuel → Stuck scanf get .operand prio s := by
  intro n
  induction n using Nat.strong_induction_on with
  | _ n ih =>
    intro prio s h hlen hrun
    subst hlen
    have hshort : ∀ {prio : OpPrio} {s' : List UInt8} {h : Nat}, s'.length < s.length →
        parse scanf get prio s' h = .error .fuel → Stuck scanf get .operand prio s' := fun hlt => ih _ hlt rfl
    rw [parse_eq] at hrun
    rcases bind_fuel hrun with hop | ⟨r, h', hop, hloop⟩
    · exact operand_stuck hshort hop
    cases r with
    | none => cases hloop
    | some r =>
      obtain ⟨fn, rest⟩ := r
      have hoperand := parse_operand_sound hl (parse_sound hl) hop
      obtain ⟨value, hv, henters, hvalue⟩ :=
        operators_stuck hl hshort s.length hoperand.length (Nat.le_refl _) hloop
      have hgo : ∃ op, binop (char rest) = some op ∧ prio.ctorIdx < rank op := by
        by_contra hnone
        have hloop : operators scanf get prio fn rest h' = .error .fuel := hloop
        rw [operators_of_rest fun op hop => Nat.le_of_not_lt fun hp => hnone ⟨op, hop, hp⟩] at hloop
        cases hloop
      obtain ⟨op, hop, hp⟩ := hgo
      have hend : isend (char rest) = true := by
        rw [binop_eq _ _ hop]
        exact isend_op_char op
      obtain ⟨e, he, hcase⟩ := hoperand.spells hend
      rcases hcase with ⟨hlevel, hus⟩ | hstop
      · refine ⟨value, hv, ?_, hvalue⟩
        rw [he.text]
        exact .behind he.wf (primary_of_parts hlevel hus) hend he.ends henters
      · exact absurd (hstop op hop) (Nat.not_le.mpr hp)

/-! ## Termination -/

theorem ends_iff (hl : scanf.Local) (rule : List UInt8) (h : Nat) :
    (∃ n, parse_term scanf get n .NONE rule h ≠ .error .fuel) ↔ Acc (Expands scanf get) rule := by
  constructor
  · rintro ⟨n, hn⟩
    induction n using Nat.strong_induction_on generalizing rule h with
    | _ n ih =>
      refine .intro _ fun value hexp => ?_
      obtain ⟨m, hm, hruns⟩ := runs_succ hn
      obtain ⟨k, hk, h', hvalue⟩ := Enters.runs hl hexp hruns
      exact ih k (Nat.lt_of_le_of_lt hk hm) value h' hvalue
  · intro hacc
    induction hacc generalizing h with
    | intro rule _ ih =>
      by_contra hnone
      have hfuel : parse scanf get .NONE rule h = .error .fuel :=
        limit_eq_error.2 fun n => by_contra fun hn => hnone ⟨n, hn⟩
      obtain ⟨value, hv, henters, hvalue⟩ := parse_stuck hl _ rfl hfuel
      obtain ⟨n, hn⟩ := ih value henters hv
      exact hn (limit_eq_error.1 hvalue n)

end

/-! ## A variable replaced -/

def rhs (get : List UInt8 → Option (List UInt8)) (v : List UInt8) : List UInt8 :=
  ((get v).getD []).takeWhile (· != 0x0a)

def replace (get : List UInt8 → Option (List UInt8)) (v name : List UInt8) : List UInt8 :=
  if name = v then 0x28 :: rhs get v ++ [0x29] else name

@[grind =] def Expr.expand (v : List UInt8) : Expr → Expr
  | .num c => .num c
  | .sym op proc_name index => .sym op proc_name index
  | .var name value => if name = v then .paren value else .var name value
  | .paren e => .paren (e.expand v)
  | .neg e => .neg (e.expand v)
  | .not e => .not (e.expand v)
  | .bin op l r => .bin op (l.expand v) (r.expand v)

section
variable {e : Expr}

theorem no_newline_text (hl : scanf.Local) (hwf : e.Wf scanf get) : 0x0a ∉ e.text := by
  induction e with
  | num c =>
    intro h
    have hall : c.take (scanf.lf c).2 = c := by rw [hwf.2, List.take_length]
    have hc := hl.chars c hwf.1 0x0a (by rw [hall]; exact h)
    exact absurd hc (by decide)
  | sym op proc_name index =>
    have hname : 0x0a ∉ sym_text op := by cases op <;> decide
    have hproc : 0x0a ∉ proc_name := fun h => absurd (hwf.chars _ h) (by decide)
    have hindex : 0x0a ∉ index_text index := by
      cases index with
      | none => exact List.not_mem_nil
      | some ds =>
        have hds : 0x0a ∉ ds := fun h => absurd ((hwf.digits ds rfl).2.2 _ h) (by decide)
        simp [index_text, hds]
    show 0x0a ∉ sym_text op ++ proc_name ++ index_text index
    simp [hname, hproc, hindex]
  | var name value _ => exact fun h => absurd (hwf.1.chars _ h) (by decide)
  | paren e ih =>
    rw [text_paren]
    simp [ih hwf]
  | neg e ih =>
    rw [text_neg]
    simp [ih hwf.1]
  | not e ih =>
    rw [text_not]
    simp [ih hwf.1]
  | bin op l r ihl ihr =>
    have hop : 0x0a ≠ op_char op := by cases op <;> decide
    rw [text_bin]
    simp [ihl hwf.1, ihr hwf.2.1, hop]

theorem rhs_text (hl : scanf.Local) {name : List UInt8} {value : Expr} (hwf : (Expr.var name value).Wf scanf get) :
    rhs get name = value.text := by
  obtain ⟨rest, hget⟩ := hwf.1.value
  have hno := no_newline_text hl hwf.2
  rw [rhs, hget, Option.getD_some]
  refine takeWhile_stop (p := (· != 0x0a)) (fun c hc => ?_) rfl
  have hne : c ≠ 0x0a := fun h => hno (h ▸ hc)
  simpa using hne

theorem expand_text (hl : scanf.Local) (v : List UInt8) (hwf : e.Wf scanf get) :
    e.textWith (replace get v) = (e.expand v).text := by
  induction e with
  | num c => rfl
  | sym op proc_name index => rfl
  | var name value _ =>
    rw [Expr.textWith, replace, Expr.expand]
    by_cases hname : name = v
    · rw [if_pos hname, if_pos hname, ← hname, rhs_text hl hwf, text_paren]
    · rw [if_neg hname, if_neg hname]
      rfl
  | paren e ih => rw [Expr.textWith, ih hwf, Expr.expand, text_paren]
  | neg e ih => rw [Expr.textWith, ih hwf.1, Expr.expand, text_neg]
  | not e ih => rw [Expr.textWith, ih hwf.1, Expr.expand, text_not]
  | bin op l r ihl ihr => rw [Expr.textWith, ihl hwf.1, ihr hwf.2.1, Expr.expand, text_bin]

theorem expand_level (v : List UInt8) (e : Expr) : (e.expand v).level = e.level := by
  cases e with
  | var name value =>
    rw [Expr.expand]
    split <;> rfl
  | _ => rfl

theorem expand_ends (v : List UInt8) (h : e.endsEmpty = false) : (e.expand v).endsEmpty = false := by
  induction e with
  | var name value _ =>
    rw [Expr.expand]
    split
    · rfl
    · exact h
  | neg e ih => exact ih h
  | not e ih => exact ih h
  | bin op l r _ ihr => exact ihr h
  | _ => rfl

theorem expand_wf (v : List UInt8) (hwf : e.Wf scanf get) : (e.expand v).Wf scanf get := by
  induction e with
  | num c => exact hwf
  | sym op proc_name index => exact hwf
  | var name value _ =>
    rw [Expr.expand]
    split
    · exact hwf.2
    · exact hwf
  | paren e ih => exact ih hwf
  | neg e ih => exact ⟨ih hwf.1, by rw [expand_level]; exact hwf.2⟩
  | not e ih => exact ⟨ih hwf.1, by rw [expand_level]; exact hwf.2⟩
  | bin op l r ihl ihr =>
    obtain ⟨hwl, hwr, hll, hlr, hminus⟩ := hwf
    refine ⟨ihl hwl, ihr hwr, ?_, ?_, fun hop => expand_ends v (hminus hop)⟩
    · rw [expand_level]
      exact hll
    · rw [expand_level]
      exact hlr

theorem expand_parts (v : List UInt8) (e : Expr) : (e.expand v).parts scanf = e.parts scanf := by
  induction e with
  | num c => rfl
  | sym op proc_name index => rfl
  | var name value _ =>
    rw [Expr.expand]
    split <;> rfl
  | paren e ih => rw [Expr.expand, Expr.parts, ih, Expr.parts]
  | neg e ih =>
    by_cases hnum : ∃ c, e = .num c
    · obtain ⟨c, rfl⟩ := hnum
      rfl
    · have hnum : ∀ c, e ≠ .num c := fun c hc => hnum ⟨c, hc⟩
      have hexp : ∀ c, e.expand v ≠ .num c := fun c hc => by
        cases e with
        | num c => exact hnum c rfl
        | var name value =>
          rw [Expr.expand] at hc
          split at hc <;> cases hc
        | _ => cases hc
      rw [Expr.expand, parts_neg hexp, parts_neg hnum, ih]
  | not e ih => rw [Expr.expand, Expr.parts, ih, Expr.parts]
  | bin op l r ihl ihr => rw [Expr.expand, Expr.parts, ihl, ihr, Expr.parts]

theorem expand_history (v : List UInt8) (e : Expr) : ∀ h, (e.expand v).history h = e.history h := by
  induction e with
  | num c => exact fun _ => rfl
  | sym op proc_name index => exact fun _ => rfl
  | var name value _ =>
    intro h
    rw [Expr.expand]
    split <;> rfl
  | paren e ih => exact ih
  | neg e ih => exact ih
  | not e ih => exact ih
  | bin op l r ihl ihr =>
    intro h
    rw [Expr.expand, Expr.history, Expr.history, ihl, ihr]

end

/-! ## Rules with variables -/

variable (scanf get) in
/-- The rule is consumed completely and gives this tree and this `history_max`. -/
def Yields (rule : List UInt8) (h : Nat) (t : Term D) (h' : Nat) : Prop :=
  ∃ n, parse_term scanf get n .NONE rule h = .ok (some (t, []), h')

variable (scanf get) in
/-- A rule with a tree is an expression, and each variable may be replaced in it. -/
structure Compositional (rule : List UInt8) : Prop where
  expression : ∀ h t h', Yields scanf get rule h t h' → ∃ e : Expr, e.Wf scanf get ∧ e.text = rule
  replaced : ∀ h t h', Yields scanf get rule h t h' → ∀ e : Expr, e.Wf scanf get → e.text = rule →
    ∀ v, Yields scanf get (e.textWith (replace get v)) h t h'

theorem yields_iff {rule : List UInt8} {h h' : Nat} {t : Term D} :
    Yields scanf get rule h t h' ↔ parse scanf get .NONE rule h = .ok (some (t, []), h') := by
  constructor
  · rintro ⟨n, hn⟩
    rw [parse_of_term (by rw [hn]; exact fun h => by cases h), hn]
  · intro hrun
    obtain ⟨n, hn⟩ := @eventually_parse D scanf get .NONE rule h
    exact ⟨n, (hn n (Nat.le_refl n)).trans hrun⟩

theorem compositional (hl : scanf.Local) (rule : List UInt8) : Compositional scanf get rule := by
  refine ⟨fun h t h' hy => ?_, fun h t h' hy e hwf htext v => ?_⟩
  · obtain ⟨e, he⟩ := (parse_sound hl (yields_iff.1 hy)).spells rfl
    exact ⟨e, he.wf, (List.append_nil _).symm.trans he.text.symm⟩
  · have hrun := yields_iff.1 hy
    rw [← htext, parse_rule hl hwf] at hrun
    rw [yields_iff, expand_text hl v hwf, parse_rule hl (expand_wf v hwf), expand_history, Expr.code, expand_parts]
    exact hrun

/-- The parser ends with every rule and expands variables as if they stood in parentheses, except for the rules from
which a chain of definitions goes on for ever. -/
theorem expansion_iff (hl : scanf.Local) (varinfo rule : List UInt8) :
    ((∀ h, ∃ n, parse_term scanf (get_var_rvalue varinfo) n .NONE rule h ≠ .error .fuel) ∧
      Compositional scanf (get_var_rvalue varinfo) rule) ↔ Acc (Expands scanf (get_var_rvalue varinfo)) rule :=
  ⟨fun h => (ends_iff hl rule 0).mp (h.1 0), fun h => ⟨fun h' => (ends_iff hl rule h').mpr h,
    compositional hl rule⟩⟩

/-! ## A variable that names itself -/

theorem scanInt_local : scanInt.Local := by
  have hitem : ∀ s : List UInt8, s.take (s.takeWhile isdigit).length = s.takeWhile isdigit := fun s =>
    (List.prefix_iff_eq_take.mp (List.takeWhile_prefix isdigit)).symm
  have hself : ∀ s : List UInt8, (s.takeWhile isdigit).takeWhile isdigit = s.takeWhile isdigit := fun s =>
    List.takeWhile_eq_self_iff.mpr fun c hc => List.mem_takeWhile_imp hc
  refine ⟨fun s _ => (List.takeWhile_prefix isdigit).length_le, fun s _ _ => ?_, fun s _ hpos => ?_,
    fun c rest _ hlen _ hend => ?_, fun s _ c hc => ?_⟩
  · simp only [scanInt, hitem, hself, digits]
  · rw [show s.take (scanInt.lf s).2 = s.takeWhile isdigit from hitem s]
    exact ended_of_chars (List.length_pos_iff.mp hpos) fun x hx => .inl (List.mem_takeWhile_imp hx)
  · have hall : ∀ x ∈ c, isdigit x = true := by
      have hlen : (c.takeWhile isdigit).length = c.length := hlen
      have hc : c.takeWhile isdigit = c := (List.takeWhile_prefix isdigit).eq_of_length hlen
      rw [← hc]
      exact fun x hx => List.mem_takeWhile_imp hx
    have hrest : isdigit (char rest) = false := (isend_char _ hend).2.1
    have hc : c.takeWhile isdigit = c := List.takeWhile_eq_self_iff.mpr hall
    simp only [scanInt, digits_stop hall hrest, takeWhile_stop hall hrest, hc]
  · have hc : c ∈ s.takeWhile isdigit := by
      rw [← hitem]
      exact hc
    have hdigit := List.mem_takeWhile_imp hc
    simp only [isalnum, hdigit, Bool.or_true, Bool.true_or]

def limitText : List UInt8 := bytes "\nlimit=2\n"

theorem expansion_limit : ((∀ h, ∃ n,
    parse_term scanInt (get_var_rvalue limitText) n .NONE (bytes "loadavg>limit") h ≠
    .error .fuel) ∧ Compositional scanInt (get_var_rvalue limitText) (bytes "loadavg>limit")) ↔
    Acc (Expands scanInt (get_var_rvalue limitText)) (bytes "loadavg>limit") :=
  expansion_iff scanInt_local limitText (bytes "loadavg>limit")

theorem acc_not_self {α : Type} {r : α → α → Prop} {x : α} (h : Acc r x) : ¬r x x := by
  induction h with
  | intro x _ ih => exact fun hxx => ih x hxx hxx

def selfText : List UInt8 := bytes "\nv=v\n"

theorem variable_names_itself : ¬∀ (varinfo rule : List UInt8),
    (∀ h, ∃ n, parse_term scanInt (get_var_rvalue varinfo) n .NONE rule h ≠ .error .fuel) ∧
      Compositional scanInt (get_var_rvalue varinfo) rule := by
  intro h
  have hacc := (ends_iff scanInt_local (bytes "v") 0).mp ((h selfText (bytes "v")).1 0)
  have hrule : Expands scanInt (get_var_rvalue selfText) (bytes "v\n") (bytes "v") :=
    .here (by decide) (by decide) (by decide) (by decide) (by decide) (by decide +kernel)
  have hself : Expands scanInt (get_var_rvalue selfText) (bytes "v\n") (bytes "v\n") :=
    .here (by decide) (by decide) (by decide) (by decide) (by decide) (by decide +kernel)
  exact acc_not_self (hacc.inv hrule) hself

end Cpuplugd
