import S390Tools.Cpuplugd.Expansion

/-!
# Precedence

The tree of an expression in which unary operators bind more tightly than binary
ones, against the tree that the parser builds. Both have the same size; what stands
below unary operators grows with each one that leads the left operand of a binary
operator.
-/

namespace Cpuplugd

open CString Vtoc Fuel

variable {D : Type} {scanf : Scanf D}

/-! ## The tree of the grammar -/

section
variable (scanf)

@[grind =] def Expr.tree : Expr → Term D
  | .num c => .const (scanf.lf c).1
  | .sym op proc_name index => symbol_term op proc_name (index.map digits)
  | .var _ value => value.tree
  | .paren e => e.tree
  | .neg (.num c) => .const (scanf.neg (scanf.lf c).1)
  | .neg e => .neg e.tree
  | .not e => .not e.tree
  | .bin op l r => .binary op l.tree r.tree

end

def Expr.leads : Expr → Bool
  | .neg (.num _) => false
  | .neg _ | .not _ => true
  | .bin _ l _ => l.leads
  | _ => false

/-- No left operand of a binary operator starts with a unary operator. -/
def Expr.Plain : Expr → Prop
  | .num _ | .sym _ _ _ => True
  | .var _ e | .paren e | .neg e | .not e => e.Plain
  | .bin _ l r => l.leads = false ∧ l.Plain ∧ r.Plain

/-- Each index is a value of the type `unsigned int`. -/
def Expr.IndexFits : Expr → Prop
  | .num _ => True
  | .sym _ _ index => ∀ ds, index = some ds → digits ds < 2 ^ 32
  | .var _ e | .paren e | .neg e | .not e => e.IndexFits
  | .bin _ l r => l.IndexFits ∧ r.IndexFits

/-! ## Sizes -/

def Term.size : Term D → Nat
  | .symbol _ _ _ | .const _ => 1
  | .neg t | .not t => t.size + 1
  | .binary _ l r => l.size + r.size + 1

def Term.weight : Term D → Nat
  | .symbol _ _ _ | .const _ => 0
  | .neg t | .not t => t.size + t.weight
  | .binary _ l r => l.weight + r.weight

section
variable {e : Expr} {us : List Unary} {op : Binop}

theorem unary_size (u : Unary) (t : Term D) : (u.term t).size = t.size + 1 := by cases u <;> rfl

theorem unary_weight (u : Unary) (t : Term D) : (u.term t).weight = t.size + t.weight := by cases u <;> rfl

theorem wrap_size (us : List Unary) (t : Term D) : (wrap us t).size = us.length + t.size := by
  induction us with
  | nil => exact (Nat.zero_add _).symm
  | cons u us ih =>
    show (u.term (wrap us t)).size = _
    rw [unary_size, ih, List.length_cons]
    omega

theorem wrap_weight (us : List Unary) (op : Binop) (l r : Term D) :
    (wrap us (.binary op l r)).weight = (wrap us l).weight + r.weight + us.length * (r.size + 1) := by
  induction us with
  | nil => rw [List.length_nil, Nat.zero_mul]; rfl
  | cons u us ih =>
    show (u.term (wrap us (.binary op l r))).weight = (u.term (wrap us l)).weight + _ + _
    have hsize : (Term.binary op l r).size = l.size + r.size + 1 := rfl
    rw [unary_weight, unary_weight, ih, wrap_size, wrap_size, hsize, List.length_cons, Nat.succ_mul]
    omega

theorem code_bin (op : Binop) (l r : Expr) : (Expr.bin op l r).code scanf =
    wrap (l.parts scanf).1 (.binary op (l.parts scanf).2 (r.code scanf)) := rfl

theorem code_neg (h : ∀ c, e ≠ .num c) : (Expr.neg e).code scanf = .neg (e.code scanf) := by
  rw [Expr.code, parts_neg h]
  rfl

theorem tree_neg (h : ∀ c, e ≠ .num c) : (Expr.neg e).tree scanf = .neg (e.tree scanf) := by
  cases e with
  | num c => exact absurd rfl (h c)
  | _ => rfl

theorem leads_iff (scanf : Scanf D) (e : Expr) : e.leads = false ↔ (e.parts scanf).1 = [] := by
  induction e with
  | neg e _ =>
    cases e with
    | num c => exact ⟨fun _ => rfl, fun _ => rfl⟩
    | _ => exact ⟨(fun h => by cases h), (fun h => by cases h)⟩
  | not e _ => exact ⟨(fun h => by cases h), (fun h => by cases h)⟩
  | bin op l r ihl _ => exact ihl
  | _ => exact ⟨fun _ => rfl, fun _ => rfl⟩

theorem code_size (scanf : Scanf D) (e : Expr) : (e.code scanf).size = (e.tree scanf).size := by
  induction e with
  | num c => rfl
  | sym op proc_name index => rfl
  | var name value ih => exact ih
  | paren e ih => exact ih
  | neg e ih =>
    by_cases hnum : ∃ c, e = .num c
    · obtain ⟨c, rfl⟩ := hnum
      rfl
    · have hnum : ∀ c, e ≠ .num c := fun c hc => hnum ⟨c, hc⟩
      rw [code_neg hnum, tree_neg hnum, Term.size, Term.size, ih]
  | not e ih =>
    show (e.code scanf).size + 1 = (e.tree scanf).size + 1
    rw [ih]
  | bin op l r ihl ihr =>
    have hl : (l.code scanf).size = (l.parts scanf).1.length + (l.parts scanf).2.size := wrap_size _ _
    rw [code_bin, wrap_size, Expr.tree, Term.size, Term.size, ← ihl, ← ihr, hl]
    omega

theorem code_weight (scanf : Scanf D) (e : Expr) : (e.tree scanf).weight ≤ (e.code scanf).weight ∧
    ((e.code scanf).weight = (e.tree scanf).weight ↔ e.Plain) := by
  induction e with
  | num c => exact ⟨Nat.le_refl _, fun _ => trivial, fun _ => rfl⟩
  | sym op proc_name index => exact ⟨Nat.le_refl _, fun _ => trivial, fun _ => rfl⟩
  | var name value ih => exact ih
  | paren e ih => exact ih
  | neg e ih =>
    by_cases hnum : ∃ c, e = .num c
    · obtain ⟨c, rfl⟩ := hnum
      exact ⟨Nat.le_refl _, fun _ => trivial, fun _ => rfl⟩
    · have hnum : ∀ c, e ≠ .num c := fun c hc => hnum ⟨c, hc⟩
      have hplain : (Expr.neg e).Plain ↔ e.Plain := Iff.rfl
      rw [code_neg hnum, tree_neg hnum, Term.weight, Term.weight, code_size, hplain, ← ih.2]
      omega
  | not e ih =>
    have hcode : (Expr.not e).code scanf = .not (e.code scanf) := rfl
    have hplain : (Expr.not e).Plain ↔ e.Plain := Iff.rfl
    rw [hcode, Expr.tree, Term.weight, Term.weight, code_size, hplain, ← ih.2]
    omega
  | bin op l r ihl ihr =>
    have hplain : (Expr.bin op l r).Plain ↔ l.leads = false ∧ l.Plain ∧ r.Plain := Iff.rfl
    have hl : (wrap (l.parts scanf).1 (l.parts scanf).2).weight = (l.code scanf).weight := rfl
    rw [code_bin, wrap_weight, Expr.tree, Term.weight, hplain, hl, leads_iff scanf, ← ihl.2, ← ihr.2]
    obtain ⟨hle, -⟩ := ihl
    obtain ⟨hle', -⟩ := ihr
    cases hus : (l.parts scanf).1 with
    | nil =>
      rw [List.length_nil, Nat.zero_mul]
      exact ⟨by omega, (fun h => ⟨rfl, by omega, by omega⟩), (fun ⟨_, h, h'⟩ => by omega)⟩
    | cons u us =>
      have hpos : 0 < (u :: us).length * ((r.code scanf).size + 1) :=
        Nat.mul_pos (Nat.succ_pos _) (Nat.succ_pos _)
      exact ⟨by omega, (fun h => by omega), (fun ⟨h, _⟩ => by cases h)⟩

theorem stored_eq (ds : List UInt8) : stored ds = digits ds ↔ digits ds < 2 ^ 32 := by
  rw [stored, Word.u32]
  omega

theorem code_eq_tree (scanf : Scanf D) (e : Expr) : e.code scanf = e.tree scanf ↔ e.Plain ∧ e.IndexFits := by
  have hfits : e.Plain → (e.code scanf = e.tree scanf ↔ e.IndexFits) := by
    induction e with
    | num c => exact fun _ => ⟨fun _ => trivial, fun _ => rfl⟩
    | sym op proc_name index =>
      intro _
      show Term.symbol op _ (index.map stored) = Term.symbol op _ (index.map digits) ↔ _
      cases index with
      | none => exact ⟨(fun _ ds hds => by cases hds), fun _ => rfl⟩
      | some ds =>
        constructor
        · intro h ds' hds
          cases hds
          injection h with _ _ h
          exact (stored_eq ds).mp (Option.some.inj h)
        · intro h
          rw [Option.map_some, Option.map_some, (stored_eq ds).mpr (h ds rfl)]
    | var name value ih => exact ih
    | paren e ih => exact ih
    | neg e ih =>
      intro hplain
      by_cases hnum : ∃ c, e = .num c
      · obtain ⟨c, rfl⟩ := hnum
        exact ⟨fun _ => trivial, fun _ => rfl⟩
      · have hnum : ∀ c, e ≠ .num c := fun c hc => hnum ⟨c, hc⟩
        rw [code_neg hnum, tree_neg hnum]
        exact ⟨fun h => (ih hplain).mp (Term.neg.inj h), fun h => congrArg _ ((ih hplain).mpr h)⟩
    | not e ih =>
      intro hplain
      show Term.not (e.code scanf) = Term.not (e.tree scanf) ↔ _
      exact ⟨fun h => (ih hplain).mp (Term.not.inj h), fun h => congrArg _ ((ih hplain).mpr h)⟩
    | bin op l r ihl ihr =>
      rintro ⟨hlead, hpl, hpr⟩
      have hus := (leads_iff scanf l).mp hlead
      have hl : l.code scanf = (l.parts scanf).2 := by
        rw [Expr.code, hus]
        rfl
      have hcode : (Expr.bin op l r).code scanf = .binary op (l.code scanf) (r.code scanf) := by
        rw [code_bin, hus, hl]
        rfl
      rw [hcode, Expr.tree]
      constructor
      · intro h
        obtain ⟨-, hl, hr⟩ := Term.binary.inj h
        exact ⟨(ihl hpl).mp hl, (ihr hpr).mp hr⟩
      · rintro ⟨hl, hr⟩
        rw [(ihl hpl).mpr hl, (ihr hpr).mpr hr]
  constructor
  · intro h
    have hplain := (code_weight scanf e).2.mp (congrArg Term.weight h)
    exact ⟨hplain, (hfits hplain).mp h⟩
  · rintro ⟨hplain, h⟩
    exact (hfits hplain).mpr h

end

/-! ## Rules without variables -/

def no_variable : List UInt8 → Option (List UInt8) := fun _ => none

variable (scanf) in
def Generated (s : List UInt8) : Prop := ∃ e : Expr, e.Wf scanf no_variable ∧ e.text = s

variable (scanf) in
/-- A text that is generated gives its tree, each other text is rejected. -/
structure Follows (s : List UInt8) : Prop where
  generated : ∀ e : Expr, e.Wf scanf no_variable → e.text = s → ∀ h, ∃ n h',
    parse_term scanf no_variable n .NONE s h = .ok (some (e.tree scanf, []), h')
  other : ¬Generated scanf s → ∀ h n t h', parse_term scanf no_variable n .NONE s h ≠ .ok (some (t, []), h')
  rejected : ¬Generated scanf s → ∀ t h, ∃ n message,
    check_term scanf n t s no_variable h = .error (.cpuplugd_exit message)

section
variable {e : Expr}

theorem text_ne_nil (hwf : e.Wf scanf no_variable) : e.text ≠ [] := by
  cases e with
  | num c =>
    intro hnil
    have hdigit : isdigit (char c) = true := hwf.1
    rw [show c = [] from hnil] at hdigit
    cases hdigit
  | sym op proc_name index =>
    intro hnil
    have hchar := (sym_char op (proc_name ++ index_text index)).1
    rw [← List.append_assoc, show sym_text op ++ proc_name ++ index_text index = [] from hnil] at hchar
    cases hchar
  | var name value =>
    obtain ⟨rest, hget⟩ := hwf.1.value
    cases hget
  | bin op l r =>
    rw [text_bin]
    exact List.append_ne_nil_of_right_ne_nil _ (List.cons_ne_nil _ _)
  | _ => exact List.cons_ne_nil _ _

theorem enters_none {place : Place} {prio : OpPrio} {s value : List UInt8} :
    ¬Enters scanf no_variable place prio s value := by
  intro h
  induction h with
  | here _ _ _ _ _ hget => cases hget
  | unary _ _ ih => exact ih
  | paren _ ih => exact ih
  | behind _ _ _ _ _ ih => exact ih
  | right _ _ ih => exact ih
  | next _ _ _ _ _ _ ih => exact ih

theorem parse_ends (hl : scanf.Local) (s : List UInt8) (h : Nat) :
    ∃ n, parse_term scanf no_variable n .NONE s h ≠ .error .fuel :=
  (ends_iff hl s h).mpr (.intro _ fun _ hexp => absurd hexp enters_none)

theorem parse_nil (n h : Nat) : parse_term scanf no_variable (n + 1) .NONE [] h = .ok (none, h) := rfl

theorem check_term_eq {n : Nat} {t : TermField} {s : List UInt8} {h h' : Nat} {r : Option (Term D × List UInt8)}
    (hrun : parse_term scanf no_variable n .NONE s h = .ok (r, h')) :
    check_term scanf n t s no_variable h =
      if (r.map (·.2)).getD s ≠ [] then .error (.cpuplugd_exit (bytes "parsing error at " ++
        (Field.term t).symbol ++
        bytes ", position: " ++ (r.map (·.2)).getD s ++ [0x0a]))
      else .ok (r.map (·.1), h') := by
  rw [check_term, bind_apply, hrun]
  cases r with
  | none =>
    simp only [Option.map_none, Option.getD_none]
    split <;> rfl
  | some r =>
    simp only [Option.map_some, Option.getD_some]
    split <;> rfl

theorem run_code (hl : scanf.Local) (hwf : e.Wf scanf no_variable) {n h h' : Nat} {t : Term D}
    (hrun : parse_term scanf no_variable n .NONE e.text h = .ok (some (t, []), h')) : e.code scanf = t := by
  have hparse := parse_of_term (show parse_term scanf no_variable n .NONE e.text h ≠ .error .fuel by
    rw [hrun]
    exact fun h => by cases h)
  rw [hrun, parse_rule hl hwf] at hparse
  injection hparse with hparse
  injection hparse with hparse _
  injection hparse with hparse
  injection hparse with hcode _

/-- The parser follows the grammar exactly where no unary operator leads the left operand of a binary one, and
indices are not too large; the empty text is not rejected. -/
theorem precedence_iff (hl : scanf.Local) (s : List UInt8) :
    Follows scanf s ↔ s ≠ [] ∧ ∀ e : Expr, e.Wf scanf no_variable → e.text = s → e.Plain ∧ e.IndexFits := by
  constructor
  · intro hfollows
    refine ⟨fun hnil => ?_, fun e hwf htext => ?_⟩
    · subst hnil
      have hother : ¬Generated scanf [] := fun ⟨e, hwf, htext⟩ => text_ne_nil hwf htext
      obtain ⟨n, message, hexit⟩ := hfollows.rejected hother .hotplug 0
      cases n with
      | zero => cases hexit
      | succ n =>
        rw [check_term_eq (parse_nil n 0)] at hexit
        cases hexit
    · obtain ⟨n, h', hrun⟩ := hfollows.generated e hwf htext 0
      rw [← htext] at hrun
      exact (code_eq_tree scanf e).mp (run_code hl hwf hrun)
  · rintro ⟨hne, hplain⟩
    have hno : ¬Generated scanf s →
      ∀ h n t h', parse_term scanf no_variable n .NONE s h ≠ .ok (some (t, []), h') := by
      intro hother h n t h' hrun
      obtain ⟨e, he⟩ := (parse_term_sound hl n hrun).spells rfl
      exact hother ⟨e, he.wf, (List.append_nil _).symm.trans he.text.symm⟩
    refine ⟨fun e hwf htext h => ?_, hno, fun hother t h => ?_⟩
    · obtain ⟨n, hn⟩ := @eventually_parse D scanf no_variable .NONE s h
      refine ⟨n, e.history h, ?_⟩
      rw [hn n (Nat.le_refl n), ← htext, parse_rule hl hwf, (code_eq_tree scanf e).mpr (hplain e hwf htext)]
    · obtain ⟨n, hn⟩ := parse_ends hl s h
      cases hrun : parse_term scanf no_variable n .NONE s h with
      | error stop =>
        cases stop with
        | fuel => exact absurd hrun hn
        | cpuplugd_exit message =>
          refine ⟨n, message, ?_⟩
          rw [check_term, bind_apply, hrun]
      | ok r =>
        obtain ⟨r, h'⟩ := r
        have hrest : (r.map (·.2)).getD s ≠ [] := by
          cases r with
          | none => exact hne
          | some r =>
            obtain ⟨t, rest⟩ := r
            intro hnil
            have hnil : rest = [] := hnil
            subst hnil
            exact hno hother h n t h' hrun
        exact ⟨n, _, (check_term_eq hrun).trans (if_pos hrest)⟩

end

/-! ## A sum with a negative first operand -/

theorem follows_sum : Follows scanInt (bytes "loadavg+1*2") ↔ bytes "loadavg+1*2" ≠ [] ∧
    ∀ e : Expr, e.Wf scanInt no_variable → e.text = bytes "loadavg+1*2" → e.Plain ∧ e.IndexFits :=
  precedence_iff scanInt_local (bytes "loadavg+1*2")

def negativeSum : Expr := .bin .PLUS (.neg (.sym .USER [] none)) (.sym .NICE [] none)

/-- The parser takes `-user+nice` for the negative of the sum. -/
theorem negative_sum : ¬∀ s : List UInt8, Follows scanInt s := by
  intro h
  have hwf : negativeSum.Wf scanInt no_variable := by
    have hsym : ∀ op, has_proc_name op = false → IsSymbol no_variable op [] none := fun op _ =>
      ⟨fun _ => rfl, (fun c hc => by cases hc), (fun ds hds => by cases hds), rfl⟩
    exact ⟨⟨hsym _ rfl, by decide⟩, hsym _ rfl, by decide, by decide, fun h => by cases h⟩
  obtain ⟨n, h', hrun⟩ := (h negativeSum.text).generated _ hwf rfl 0
  have hplain := ((code_eq_tree scanInt negativeSum).mp (run_code scanInt_local hwf hrun)).1
  exact absurd hplain.1 (by decide)

end Cpuplugd
