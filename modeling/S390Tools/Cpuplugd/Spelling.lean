import S390Tools.Cpuplugd.Accepts

/-!
# What is parsed is an expression

A text that the parser reads up to an end is the text of an expression. A unary
operator in front of an operand and what follows it is, in the expression, the
operator in front of the first operand.
-/

namespace Cpuplugd

open CString Vtoc Fuel

variable {D : Type} {scanf : Scanf D} {get : List UInt8 → Option (List UInt8)}

/-! ## A unary operator in front of an expression -/

def Unary.expr : Unary → Expr → Expr
  | .neg => .neg
  | .not => .not

def Unary.char : Unary → UInt8
  | .neg => 0x2d
  | .not => 0x21

def Expr.push (u : Unary) : Expr → Expr
  | .bin op l r => .bin op (l.push u) r
  | e => u.expr e

def Expr.startsNum : Expr → Bool
  | .bin _ l _ => l.startsNum
  | .num _ => true
  | _ => false

section
variable {u : Unary} {e : Expr}

theorem unary_text (u : Unary) (e : Expr) : (u.expr e).text = u.char :: e.text := by cases u <;> rfl

theorem unary_level (u : Unary) (e : Expr) : (u.expr e).level = 6 := by cases u <;> rfl

theorem unary_ends (u : Unary) (e : Expr) : (u.expr e).endsEmpty = e.endsEmpty := by cases u <;> rfl

theorem unary_wf (hwf : e.Wf scanf get) (hl : 6 ≤ e.level) : (u.expr e).Wf scanf get :=
    by cases u <;> exact ⟨hwf, hl⟩

theorem unary_parts (h : u = .neg → e.startsNum = false) :
    (u.expr e).parts scanf = (u :: (e.parts scanf).1, (e.parts scanf).2) := by
  cases u with
  | neg =>
    refine parts_neg fun c hc => ?_
    subst hc
    exact Bool.noConfusion (h rfl)
  | not => rfl

theorem push_bin (u : Unary) (op : Binop) (l r : Expr) : (Expr.bin op l r).push u = .bin op (l.push u) r := rfl

theorem push_other (u : Unary) (h : 6 ≤ e.level) : e.push u = u.expr e := by
  cases e with
  | bin op l r => exact absurd h (Nat.not_le.mpr (rank_pos op).2)
  | _ => rfl

theorem level_cases (e : Expr) : 6 ≤ e.level ∨ ∃ op l r, e = .bin op l r := by
  cases e with
  | bin op l r => exact .inr ⟨op, l, r, rfl⟩
  | neg e => exact .inl (Nat.le_refl 6)
  | not e => exact .inl (Nat.le_refl 6)
  | _ => exact .inl (Nat.le_succ 6)

theorem push_text (u : Unary) (e : Expr) : (e.push u).text = u.char :: e.text := by
  induction e with
  | bin op l r ihl _ => rw [push_bin, text_bin, text_bin, ihl, List.cons_append]
  | neg e _ => exact unary_text u _
  | not e _ => exact unary_text u _
  | _ => exact unary_text u _

theorem push_ends (u : Unary) (e : Expr) : (e.push u).endsEmpty = e.endsEmpty := by
  cases e with
  | bin op l r => rfl
  | _ => exact unary_ends u _

theorem push_level (u : Unary) (e : Expr) : (e.push u).level = min e.level 6 := by
  rcases level_cases e with h | ⟨op, l, r, rfl⟩
  · rw [push_other u h, unary_level, Nat.min_eq_right h]
  · exact (Nat.min_eq_left (Nat.le_of_lt (rank_pos op).2)).symm

theorem push_wf (hwf : e.Wf scanf get) : (e.push u).Wf scanf get := by
  induction e with
  | bin op l r ihl _ =>
    obtain ⟨hwl, hwr, hll, hlr, hminus⟩ := hwf
    refine ⟨ihl hwl, hwr, ?_, hlr, fun hop => ?_⟩
    · rw [push_level]
      exact Nat.le_min.mpr ⟨hll, Nat.le_of_lt (rank_pos op).2⟩
    · rw [push_ends]
      exact hminus hop
  | neg e _ => exact unary_wf hwf (Nat.le_refl 6)
  | not e _ => exact unary_wf hwf (Nat.le_refl 6)
  | _ => exact unary_wf hwf (Nat.le_succ 6)

theorem push_parts (h : u = .neg → e.startsNum = false) :
    (e.push u).parts scanf = (u :: (e.parts scanf).1, (e.parts scanf).2) := by
  induction e with
  | bin op l r ihl _ =>
    rw [push_bin, Expr.parts, ihl h]
    rfl
  | neg e _ => exact unary_parts h
  | not e _ => exact unary_parts h
  | _ => exact unary_parts h

theorem push_code (h : u = .neg → e.startsNum = false) : (e.push u).code scanf = u.term (e.code scanf) := by
  rw [Expr.code, push_parts h]
  rfl

theorem startsNum_char (hwf : e.Wf scanf get) (h : e.startsNum = true) (tail : List UInt8) :
    isdigit (char (e.text ++ tail)) = true := by
  induction e generalizing tail with
  | num c =>
    have hne : c ≠ [] := fun hc => by
      rw [hc] at hwf
      exact absurd hwf.1 (by decide)
    show isdigit (char (c ++ tail)) = true
    rw [char_append hne]
    exact hwf.1
  | bin op l r ihl _ =>
    rw [text_bin, List.append_assoc]
    exact ihl hwf.1 h _
  | _ => cases h

end

/-! ## Results of the parser -/

variable (scanf get) in
/-- The expression that stands in front of `rest`. -/
structure Spells (prio : OpPrio) (s rest : List UInt8) (t : Term D) (e : Expr) : Prop where
  wf : e.Wf scanf get
  level : prio.ctorIdx < e.level
  text : s = e.text ++ rest
  code : e.code scanf = t
  ends : char rest = 0x2d → e.endsEmpty = false

variable (scanf get) in
/-- A result of the parser: no operator that it takes follows. -/
structure Parsed (prio : OpPrio) (s : List UInt8) (r : Term D × List UInt8) : Prop where
  length : r.2.length ≤ s.length
  rest : ∀ op, binop (char r.2) = some op → rank op ≤ prio.ctorIdx
  spells : isend (char r.2) = true → ∃ e, Spells scanf get prio s r.2 r.1 e

variable (scanf get) in
/-- A result of `parse_operand`: behind leading unary operators no operator that the loop takes follows. -/
structure Operand (prio : OpPrio) (s : List UInt8) (r : Term D × List UInt8) : Prop where
  length : r.2.length ≤ s.length
  spells : isend (char r.2) = true → ∃ e, Spells scanf get prio s r.2 r.1 e ∧
    ((6 ≤ e.level ∧ (e.parts scanf).1 = []) ∨ ∀ op, binop (char r.2) = some op → rank op ≤ prio.ctorIdx)

variable (scanf get) in
def Sound (p : TermParser D) : Prop :=
  ∀ {prio : OpPrio} {s : List UInt8} {h h' : Nat} {r : Term D × List UInt8}, p prio s h = .ok (some r, h') →
    Parsed scanf get prio s r

section
variable {p : TermParser D} {prio : OpPrio} {s : List UInt8} {h h' : Nat} {r : Term D × List UInt8}

theorem lt_level (prio : OpPrio) : prio.ctorIdx < 6 := by cases prio <;> decide

theorem Parsed.unary {u : Unary} {s' : List UInt8} {t : Term D} {rest : List UInt8} (hs : s = u.char :: s')
    (hparsed : Parsed scanf get prio s' (t, rest)) (hdigit : u = .neg → isdigit (char s') = false) :
    Operand scanf get prio s (u.term t, rest) := by
  refine ⟨?_, fun hend => ?_⟩
  · rw [hs]
    exact Nat.le_succ_of_le hparsed.length
  obtain ⟨e, hwf, hlevel, htext, hcode, hempty⟩ := hparsed.spells hend
  have hstart : u = .neg → e.startsNum = false := fun hu => by
    by_contra hnum
    have hchar := startsNum_char hwf (by simpa using hnum) rest
    rw [← htext, hdigit hu] at hchar
    cases hchar
  refine ⟨e.push u, ⟨push_wf hwf, ?_, ?_, ?_, ?_⟩, .inr hparsed.rest⟩
  · rw [push_level]
    exact Nat.lt_min.mpr ⟨hlevel, lt_level prio⟩
  · rw [hs, push_text, htext, List.cons_append]
  · rw [push_code hstart, hcode]
  · rw [push_ends]
    exact hempty

theorem number (hl : scanf.Local) (hdigit : isdigit (char s) = true)
    (hend : isend (char (s.drop (scanf.lf s).2)) = true) :
    ∃ c, Constant scanf c ∧ s = c ++ s.drop (scanf.lf s).2 ∧ (scanf.lf c).1 = (scanf.lf s).1 := by
  have hpos : 0 < (scanf.lf s).2 := by
    by_contra hzero
    rw [Nat.eq_zero_of_not_pos hzero, List.drop_zero] at hend
    rw [(isend_char _ hend).2.1] at hdigit
    cases hdigit
  have hitem := hl.item s hdigit hpos
  have hlen : (s.take (scanf.lf s).2).length = (scanf.lf s).2 := by
    rw [List.length_take, Nat.min_eq_left (hl.le s hdigit)]
  refine ⟨s.take (scanf.lf s).2, ⟨?_, ?_⟩, (List.take_append_drop _ _).symm, by rw [hitem]⟩
  · cases s with
    | nil => exact absurd hdigit (by decide)
    | cons c s =>
      obtain ⟨n, hn⟩ := Nat.exists_eq_succ_of_ne_zero (Nat.ne_of_gt hpos)
      rw [hn]
      exact hdigit
  · rw [hitem, hlen]

theorem sym_names_text {name : List UInt8} {op : Symop} (h : (name, op) ∈ sym_names) : name = sym_text op := by
  have hall : ∀ e ∈ sym_names, e.1 = sym_text e.2 := by decide +kernel
  exact hall _ h

theorem find_prefix {s name : List UInt8} {op : Symop}
    (hfind : sym_names.find? (fun name => name.1.isPrefixOf s) = some (name, op)) :
    name = sym_text op ∧ s = sym_text op ++ s.drop name.length := by
  have hname := sym_names_text (List.mem_of_find?_eq_some hfind)
  have hprefix := List.find?_some hfind
  rw [List.isPrefixOf_iff_prefix] at hprefix
  refine ⟨hname, ?_⟩
  have hsplit := List.prefix_iff_eq_append.mp hprefix
  rw [hname] at hsplit ⊢
  exact hsplit.symm

theorem takeWhile_split (f : UInt8 → Bool) (s : List UInt8) : s.takeWhile f ++ s.drop (s.takeWhile f).length = s :=
  List.prefix_iff_eq_append.mp (List.takeWhile_prefix f)

theorem cons_of_char {c : UInt8} (hc : c ≠ 0) (hs : char s = c) : s = c :: s.tail := by
  cases s with
  | nil => exact absurd hs.symm hc
  | cons d s =>
    have hs : d = c := hs
    rw [hs, List.tail_cons]

/-- The name behind a symbol like `meminfo.`. -/
def proc_part (op : Symop) (s : List UInt8) : List UInt8 :=
  if has_proc_name op then s.takeWhile fun c => isalpha c || c == 0x5f else []

theorem proc_part_split (op : Symop) (s : List UInt8) : proc_part op s ++ s.drop (proc_part op s).length = s := by
  rw [proc_part]
  split
  · exact takeWhile_split _ s
  · rfl

theorem parse_index_ok {op : Symop} (hrun : parse_index op s h = .ok (some r, h')) :
    ∃ index, s = proc_part op s ++ (index_text index ++ r.2) ∧
      (∀ ds, index = some ds → has_index op = true ∧ ds ≠ [] ∧ ∀ c ∈ ds, isdigit c = true) ∧
      r.1 = symbol_term op (proc_part op s) (index.map stored) := by
  have hsplit := proc_part_split op s
  rw [parse_index, ← proc_part] at hrun
  generalize s.drop (proc_part op s).length = rest at hsplit hrun
  by_cases hopen : (has_index op && decide (char rest = 0x5b)) = true
  · rw [if_pos hopen] at hrun
    obtain ⟨hhas, hbracket⟩ : has_index op = true ∧ char rest = 0x5b := by simpa using hopen
    have hrest := cons_of_char (by decide) hbracket
    by_cases hfirst : (!isdigit (char rest.tail)) = true
    · rw [if_pos hfirst] at hrun
      cases hrun
    rw [if_neg hfirst] at hrun
    by_cases hclose : char (rest.tail.dropWhile isdigit) ≠ 0x5d
    · rw [if_pos hclose] at hrun
      cases hrun
    rw [if_neg hclose] at hrun
    cases hrun
    have hbehind := cons_of_char (by decide) (not_not.mp hclose)
    have hdigits : stored rest.tail = stored (rest.tail.takeWhile isdigit) := by
      have hself : (rest.tail.takeWhile isdigit).takeWhile isdigit = rest.tail.takeWhile isdigit :=
        List.takeWhile_eq_self_iff.mpr fun c hc => List.mem_takeWhile_imp hc
      rw [stored, stored, digits, digits, hself]
    refine ⟨some (rest.tail.takeWhile isdigit), ?_, fun ds hds => ?_, ?_⟩
    · have htext : index_text (some (rest.tail.takeWhile isdigit)) ++
        (rest.tail.dropWhile isdigit).tail = rest := by
        rw [index_text, List.cons_append, List.cons_append, List.append_assoc, List.singleton_append, ← hbehind,
          List.takeWhile_append_dropWhile]
        exact hrest.symm
      rw [htext, hsplit]
    · cases hds
      refine ⟨hhas, fun hnil => ?_, fun c hc => List.mem_takeWhile_imp hc⟩
      cases htail : rest.tail with
      | nil =>
        rw [htail] at hfirst
        exact hfirst rfl
      | cons c cs =>
        rw [htail] at hnil hfirst
        have hc : isdigit (char (c :: cs)) = true := by simpa using hfirst
        rw [List.takeWhile_cons_of_pos (show isdigit c = true from hc)] at hnil
        cases hnil
    · rw [Option.map_some, ← hdigits]
  · rw [if_neg hopen] at hrun
    cases hrun
    exact ⟨none, hsplit.symm, (fun ds hds => by cases hds), rfl⟩

theorem parse_symbol_sound (hget : get (s.takeWhile isname) = none) (hrun : parse_symbol s h = .ok (some r, h')) :
    Operand scanf get prio s r := by
  rw [parse_symbol_eq] at hrun
  cases hfind : sym_names.find? (fun name => name.1.isPrefixOf s) with
  | none =>
    rw [hfind] at hrun
    cases hrun
  | some found =>
    obtain ⟨name, op⟩ := found
    rw [hfind] at hrun
    obtain ⟨-, hs⟩ := find_prefix hfind
    obtain ⟨index, hsplit, hindex, hterm⟩ := parse_index_ok hrun
    have hwhole : s = (Expr.sym op (proc_part op (s.drop name.length)) index).text ++ r.2 := by
      show s = sym_text op ++ _ ++ index_text index ++ r.2
      rw [List.append_assoc, List.append_assoc, ← hsplit]
      exact hs
    refine ⟨?_, fun hend => ⟨.sym op (proc_part op (s.drop name.length)) index,
      ⟨⟨?_, ?_, hindex, ?_⟩, ?_, hwhole, ?_, ?_⟩,
      .inl ⟨Nat.le_succ 6, rfl⟩⟩⟩
    · have hlen := congrArg List.length hwhole
      rw [List.length_append] at hlen
      omega
    · intro hno
      rw [proc_part, hno]
      rfl
    · intro c hc
      rw [proc_part] at hc
      split at hc
      · exact List.mem_takeWhile_imp (p := fun c => isalpha c || c == 0x5f) hc
      · cases hc
    · have hvisible := @sym_visible op (s.drop name.length) fun hno => by
        rw [hsplit, proc_part, hno]
        cases index with
        | none => exact (isend_char _ hend).1
        | some ds => exact rfl
      rw [← hs] at hvisible
      rw [← hvisible.1]
      exact hget
    · exact Nat.lt_succ_of_lt (lt_level prio)
    · exact hterm.symm
    · exact fun _ => rfl

theorem char_behind_name : ∀ s : List UInt8, isname (char (s.drop (s.takeWhile isname).length)) = false
  | [] => rfl
  | c :: s => by
    by_cases hc : isname c = true
    · rw [List.takeWhile_cons_of_pos hc]
      exact char_behind_name s
    · rw [List.takeWhile_cons_of_neg hc]
      exact Bool.eq_false_iff.mpr hc

theorem no_symbol (hname : isname (char s) = false) : parse_symbol (D := D) s = pure none := by
  rw [parse_symbol_eq]
  cases hfind : sym_names.find? (fun name => name.1.isPrefixOf s) with
  | none => rfl
  | some found =>
    obtain ⟨name, op⟩ := found
    obtain ⟨-, hs⟩ := find_prefix hfind
    rw [hs, (sym_char op _).1] at hname
    cases hname

theorem parse_var_term_sound (hp : Sound scanf get p) {fn : Term D} {rest : List UInt8}
    (hdigit : isdigit (char s) = false) (hminus : char s ≠ 0x2d)
    (hrun : parse_var_term get p s h = .ok ((some fn, rest), h')) : Operand scanf get prio s (fn, rest) := by
  rw [parse_var_term_eq] at hrun
  by_cases hlen : (s.takeWhile isname).length > MAX_VARNAME
  · rw [if_pos hlen] at hrun
    cases hrun
  rw [if_neg hlen] at hrun
  cases hget : get (s.takeWhile isname) with
  | none =>
    rw [hget] at hrun
    cases hrun
  | some var_rvalue =>
    rw [hget] at hrun
    obtain ⟨r, h₁, hvalue, hafter⟩ := bind_ok hrun
    rw [after_value] at hafter
    split at hafter
    · cases hafter
    rename_i hnewline
    cases r with
    | none => cases hafter
    | some r =>
      cases hafter
      have hnewline : char r.2 = 0x0a := not_not.mp hnewline
      obtain ⟨e, hwf, -, htext, hcode, -⟩ := (hp hvalue).spells (by rw [hnewline]; rfl)
      have hsplit := takeWhile_split isname s
      have hfirst : isdigit (char (s.takeWhile isname)) = false := by
        cases s with
        | nil => exact hdigit
        | cons c s =>
          rw [List.takeWhile_cons]
          split
          · exact hdigit
          · rfl
      refine ⟨?_, fun hend => ⟨.var (s.takeWhile isname) e,
        ⟨⟨⟨Nat.le_of_not_lt hlen, fun c hc => List.mem_takeWhile_imp hc,
        hfirst, r.2.tail, ?_⟩, hwf⟩, ?_, hsplit.symm, hcode, fun hrest => ?_⟩,
        .inl ⟨Nat.le_succ 6, rfl⟩⟩⟩
      · rw [List.length_drop]
        exact Nat.sub_le _ _
      · rw [← cons_of_char (by decide) hnewline, hget, htext]
      · exact Nat.lt_succ_of_lt (lt_level prio)
      · refine decide_eq_false fun hnil => hminus ?_
        rw [hnil] at hrest
        exact hrest

theorem parse_operand_sound (hl : scanf.Local) (hp : Sound scanf get p)
    (hrun : parse_operand scanf get p prio s h = .ok (some r, h')) : Operand scanf get prio s r := by
  have hunary : ∀ u : Unary, char s = u.char → (u = .neg → isdigit (char s.tail) = false) →
      (p prio s.tail >>= fun r => pure (r.map fun r => (u.term r.1, r.2))) h = .ok (some r, h') →
      Operand scanf get prio s r := by
    intro u hu hdigit hrun
    obtain ⟨t, h₁, hparse, hterm⟩ := bind_ok hrun
    cases t with
    | none => cases hterm
    | some t =>
      cases hterm
      exact (hp hparse).unary (cons_of_char (by cases u <;> decide) hu) hdigit
  rw [parse_operand_eq] at hrun
  by_cases h₁ : char s = 0x2d
  · have hs := cons_of_char (by decide) h₁
    rw [if_pos h₁] at hrun
    by_cases hdigit : isdigit (char s.tail) = true
    · rw [if_pos hdigit] at hrun
      cases hrun
      refine ⟨?_, fun hend => ?_⟩
      · rw [List.length_drop, List.length_tail]
        omega
      · obtain ⟨c, hconst, htext, hvalue⟩ := number hl hdigit hend
        refine ⟨.neg (.num c), ⟨⟨hconst, Nat.le_succ 6⟩, lt_level prio, ?_, ?_, fun _ => rfl⟩,
          .inl ⟨Nat.le_refl 6, rfl⟩⟩
        · rw [text_neg, List.cons_append]
          exact hs.trans (congrArg _ htext)
        · show Term.const (scanf.neg (scanf.lf c).1) = _
          rw [hvalue]
    · rw [if_neg hdigit] at hrun
      exact hunary .neg h₁ (fun _ => by simpa using hdigit) hrun
  rw [if_neg h₁] at hrun
  by_cases h₂ : char s = 0x21
  · rw [if_pos h₂] at hrun
    exact hunary .not h₂ (fun hu => by cases hu) hrun
  rw [if_neg h₂] at hrun
  by_cases h₃ : isdigit (char s) = true
  · rw [if_pos h₃] at hrun
    cases hrun
    refine ⟨?_, fun hend => ?_⟩
    · rw [List.length_drop]
      exact Nat.sub_le _ _
    · obtain ⟨c, hconst, htext, hvalue⟩ := number hl h₃ hend
      refine ⟨.num c, ⟨hconst, Nat.lt_succ_of_lt (lt_level prio), htext, ?_, fun _ => rfl⟩,
        .inl ⟨Nat.le_succ 6, rfl⟩⟩
      show Term.const (scanf.lf c).1 = _
      rw [hvalue]
  rw [if_neg h₃] at hrun
  by_cases h₄ : char s = 0x28
  · rw [if_pos h₄] at hrun
    obtain ⟨t, h₁, hparse, hclose⟩ := bind_ok hrun
    cases t with
    | none => cases hclose
    | some t =>
      by_cases hparen : char t.2 ≠ 0x29
      · rw [Option.bind_some, if_pos hparen] at hclose
        cases hclose
      · rw [Option.bind_some, if_neg hparen] at hclose
        cases hclose
        have hparen := not_not.mp hparen
        have hparsed := hp hparse
        have hs := cons_of_char (by decide) h₄
        obtain ⟨e, hwf, -, htext, hcode, -⟩ := hparsed.spells (by rw [hparen]; rfl)
        refine ⟨?_, fun _ => ⟨.paren e, ⟨hwf, Nat.lt_succ_of_lt (lt_level prio), ?_, hcode, fun _ => rfl⟩,
          .inl ⟨Nat.le_succ 6, rfl⟩⟩⟩
        · have hlen := hparsed.length
          rw [List.length_tail] at hlen ⊢
          omega
        · show s = 0x28 :: (e.text ++ [0x29]) ++ t.2.tail
          rw [List.cons_append, List.append_assoc, List.singleton_append,
            ← cons_of_char (by decide) hparen, ← htext]
          exact hs
  rw [if_neg h₄] at hrun
  obtain ⟨q, h₁', hvar, hsym⟩ := bind_ok hrun
  obtain ⟨fn, rest⟩ := q
  cases fn with
  | some fn =>
    cases hsym
    exact parse_var_term_sound hp (by simpa using h₃) h₁ hvar
  | none =>
    rw [parse_var_term_eq] at hvar
    by_cases hlen : (s.takeWhile isname).length > MAX_VARNAME
    · rw [if_pos hlen] at hvar
      cases hvar
    rw [if_neg hlen] at hvar
    cases hget : get (s.takeWhile isname) with
    | none =>
      rw [hget] at hvar
      cases hvar
      exact parse_symbol_sound hget hsym
    | some var_rvalue =>
      -- an empty definition: no symbol stands behind the name
      rw [hget] at hvar
      obtain ⟨t, h₂, -, hafter⟩ := bind_ok hvar
      have hrest : rest = s.drop (s.takeWhile isname).length := by
        rw [after_value] at hafter
        split at hafter
        · cases hafter
        · exact (Prod.mk.inj (Prod.mk.inj (Except.ok.inj hafter)).1).2.symm
      rw [no_symbol (hrest ▸ char_behind_name s)] at hsym
      cases hsym

/-! ## Operators -/

theorem parse_operators_sound (hp : Sound scanf get p) {s₀ : List UInt8} : ∀ {n : Nat} {fn : Term D}
    {s : List UInt8}
    {h h' : Nat} {r : Term D × List UInt8}, s.length ≤ s₀.length →
    (isend (char s) = true → ∃ e, Spells scanf get prio s₀ s fn e ∧
      (((e.parts scanf).1 = [] ∧ ∀ op, binop (char s) = some op → rank op ≤ e.level) ∨
        ∀ op, binop (char s) = some op → rank op ≤ prio.ctorIdx)) →
    parse_operators p prio n fn s h = .ok (some r, h') → Parsed scanf get prio s₀ r
  | 0, _, _, _, _, _, _, _, hrun => by cases hrun
  | n + 1, fn, s, h, h', r, hlen, hspells, hrun => by
    rw [parse_operators_succ] at hrun
    have hstop : (∀ op, binop (char s) = some op → rank op ≤ prio.ctorIdx) → Parsed scanf get prio s₀ (fn, s) :=
      fun hrest => ⟨hlen, hrest, fun hend => by
        obtain ⟨e, he, -⟩ := hspells hend
        exact ⟨e, he⟩⟩
    cases hop : binop (char s) with
    | none =>
      rw [hop] at hrun
      cases hrun
      exact hstop fun op h => by rw [hop] at h; cases h
    | some op =>
      rw [hop] at hrun
      simp only at hrun
      by_cases hle : (op_prio_table op).ctorIdx ≤ prio.ctorIdx
      · rw [if_pos hle] at hrun
        cases hrun
        exact hstop fun op' h => by rw [hop] at h; cases h; exact hle
      rw [if_neg hle] at hrun
      obtain ⟨t, h₁, hright, hloop⟩ := bind_ok hrun
      have hs := cons_of_char (by cases op <;> decide) (binop_eq _ _ hop)
      cases t with
      | none => cases hloop
      | some t =>
        obtain ⟨right, rest⟩ := t
        have hparsed := hp hright
        refine parse_operators_sound hp ?_ (fun hend => ?_) hloop
        · have hshort := hparsed.length
          rw [List.length_tail] at hshort
          exact Nat.le_trans (Nat.le_trans hshort (Nat.sub_le _ _)) hlen
        obtain ⟨e, he, hcase⟩ := hspells (by rw [binop_eq _ _ hop]; exact isend_op_char op)
        obtain ⟨er, hwr, hlr, htext, hcode, hempty⟩ := hparsed.spells hend
        rcases hcase with ⟨hus, hassoc⟩ | hcase
        · refine ⟨.bin op e er, ⟨⟨he.wf, hwr, hassoc op hop, hlr, fun hminus => ?_⟩,
            Nat.lt_of_not_le hle, ?_, ?_, hempty⟩,
            .inl ⟨hus, hparsed.rest⟩⟩
          · refine he.ends ?_
            rw [binop_eq _ _ hop, hminus]
            rfl
          · rw [text_bin, List.append_assoc, List.cons_append, ← htext, he.text]
            exact congrArg _ hs
          · show wrap (e.parts scanf).1 (.binary op (e.parts scanf).2 (er.code scanf)) = .binary op fn right
            rw [hcode, ← he.code, Expr.code, hus]
            rfl
        · exact absurd (hcase op hop) hle

theorem parse_term_sound (hl : scanf.Local) : ∀ n, Sound scanf get (parse_term scanf get n)
  | 0 => fun hrun => by cases hrun
  | n + 1 => fun hrun => by
    rw [parse_term_succ] at hrun
    obtain ⟨t, h₁, hop, hloop⟩ := bind_ok hrun
    cases t with
    | none => cases hloop
    | some t =>
      have hoperand := parse_operand_sound hl (parse_term_sound hl n) hop
      refine parse_operators_sound (parse_term_sound hl n) hoperand.length (fun hend => ?_) hloop
      obtain ⟨e, he, hcase⟩ := hoperand.spells hend
      refine ⟨e, he, hcase.imp (fun h => ⟨h.2, fun op _ => ?_⟩) id⟩
      exact Nat.le_trans (Nat.le_of_lt (rank_pos op).2) h.1

theorem parse_sound (hl : scanf.Local) : Sound scanf get (parse scanf get) := by
  intro prio s h h' r hrun
  obtain ⟨n, hn⟩ := @eventually_parse D scanf get prio s h
  exact parse_term_sound hl n ((hn n (Nat.le_refl n)).trans hrun)

end

end Cpuplugd
