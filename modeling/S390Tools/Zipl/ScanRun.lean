import S390Tools.Zipl.Scan

/-!
# The scanner reads line by line

Each scanner of a token takes the line with its end and looks no further, so that a file is scanned like its parts.
-/

namespace Zipl.Scan

open CString Lines Vtoc Word

/-! ## Characters of a line -/

section
variable {pre : List UInt8 → Prop}

/-- What `misc_get_char` says of what is left of a complete line. -/
def Current (current : Option UInt8) (l : List UInt8) : Prop := current = some (l.head?.getD newline)

theorem Current.ne_nil {current : Option UInt8} {l : List UInt8} {c : UInt8} (h : Current current l)
    (hc : current = some c) (hne : c ≠ newline) : l ≠ [] := by
  intro hnil
  rw [Current, hc, hnil] at h
  exact hne (Option.some.inj h)

theorem takeWhile_line {p : UInt8 → Bool} (hp : p newline = false) (l B : List UInt8) :
    (l ++ newline :: B).takeWhile p = l.takeWhile p := by
  induction l with
  | nil => rw [List.nil_append, List.takeWhile_cons, hp]; rfl
  | cons c l ih => rw [List.cons_append, List.takeWhile_cons, List.takeWhile_cons, ih]

theorem dropWhile_line {p : UInt8 → Bool} (hp : p newline = false) (l B : List UInt8) :
    (l ++ newline :: B).dropWhile p = l.dropWhile p ++ newline :: B := by
  induction l with
  | nil => rw [List.nil_append, List.dropWhile_cons, hp]; rfl
  | cons c l ih =>
    rw [List.cons_append, List.dropWhile_cons, List.dropWhile_cons, ih]
    split <;> rfl

theorem span_line (p : UInt8 → Bool) (l : List UInt8) (h : newline ∉ l) : newline ∉ l.dropWhile p :=
  fun hmem => h ((List.dropWhile_suffix p).subset hmem)

theorem misc_get_char_inline : Inline newline pre misc_get_char fun current l => Current current l ∧ pre l := by
  intro l hl hpre
  refine ⟨.ok (some (l.head?.getD newline), l), fun a l' h => ?_, fun B => ?_⟩
  · cases h
    exact ⟨hl, rfl, hpre⟩
  · cases l <;> rfl

theorem advance_inline (h : ∀ l, pre l → l ≠ []) : Inline newline pre (advance 1) fun _ _ => True := by
  intro l hl hpre
  cases l with
  | nil => exact absurd rfl (h [] hpre)
  | cons c l =>
    refine ⟨.ok ((), l), fun a l' h => ?_, fun B => rfl⟩
    cases h
    exact ⟨fun hmem => hl (List.mem_cons_of_mem c hmem), trivial⟩

theorem skip_blanks_inline : Inline newline pre skip_blanks fun _ _ => True := by
  intro l hl _
  refine ⟨.ok (!(l.takeWhile isblank).isEmpty, l.dropWhile isblank), fun a l' h => ?_, fun B => ?_⟩
  · cases h
    exact ⟨span_line isblank l hl, trivial⟩
  · rw [skip_blanks, takeWhile_line rfl, dropWhile_line rfl]
    rfl

theorem scan_span_inline {p : UInt8 → Bool} (hp : p newline = false) :
    Inline newline pre (span p) fun _ _ => True := by
  intro l hl _
  refine ⟨.ok (l.takeWhile p, l.dropWhile p), fun a l' h => ?_, fun B => ?_⟩
  · cases h
    exact ⟨span_line p l hl, trivial⟩
  · rw [span, takeWhile_line hp, dropWhile_line hp]
    rfl

theorem skip_line_ends : Ends newline pre skip_line := by
  intro l hl _
  refine ⟨.ok (), fun B => ?_⟩
  have hall : l.dropWhile (· != newline) = [] := List.dropWhile_eq_nil_iff.mpr fun c hc =>
    bne_iff_ne.mpr fun h => hl (h ▸ hc)
  rw [skip_line, dropWhile_line (by decide), hall]
  rfl

theorem trailing_ends {α : Type} (line : Nat) (text : String) {token : FileScan α} (htoken : Silent token) :
    Ends newline pre (skip_trailing_blanks >>= fun rc => if rc = true then error_reason line text else token) := by
  intro l hl hpre
  clear hpre
  obtain ⟨out, hout⟩ := htoken
  induction l with
  | nil => exact ⟨out, fun B => by rw [bind_apply]; exact hout B⟩
  | cons c l ih =>
    have hc : c ≠ newline := fun h => hl (h ▸ List.mem_cons_self)
    have hrec : ∀ B, skip_trailing_blanks.trailing (c :: l ++ newline :: B) = if isblank c then
        skip_trailing_blanks.trailing (l ++ newline :: B) else (true, c :: (l ++ newline :: B)) := fun B => by
      rw [List.cons_append, skip_trailing_blanks.trailing, if_neg hc]
    by_cases hblank : isblank c = true
    · obtain ⟨out', hout'⟩ := ih fun hmem => hl (List.mem_cons_of_mem c hmem)
      refine ⟨out', fun B => ?_⟩
      rw [← hout' B, bind_apply, bind_apply, skip_trailing_blanks, skip_trailing_blanks, hrec, if_pos hblank]
    · refine ⟨.error ⟨line, bytes text⟩, fun B => ?_⟩
      rw [bind_apply, skip_trailing_blanks, hrec, if_neg hblank]
      rfl

end

/-! ## Tokens -/

section
variable {pre : List UInt8 → Prop}

theorem section_name_inline (line : Nat) : Inline newline pre (section_name line) fun _ l => l ≠ [] := by
  intro l hl hpre
  clear hpre
  induction l with
  | nil => exact ⟨.error ⟨line, bytes "unterminated section heading"⟩, (fun _ _ h => by cases h), fun B => rfl⟩
  | cons c l ih =>
    have hc : c ≠ newline := fun h => hl (h ▸ List.mem_cons_self)
    by_cases hend : c = 0x5d
    · refine ⟨.ok ([], c :: l), fun a l' h => ?_, fun B => ?_⟩
      · cases h
        exact ⟨hl, List.cons_ne_nil c l⟩
      · rw [List.cons_append, section_name, if_pos hend]
        rfl
    · by_cases hname : (isalnum c || ispunct c) = true
      · obtain ⟨out, hrest, hout⟩ := ih fun hmem => hl (List.mem_cons_of_mem c hmem)
        refine ⟨out.map fun r => (c :: r.1, r.2), fun a l' h => ?_, fun B => ?_⟩
        · cases out with
          | error e => cases h
          | ok r =>
            cases h
            exact hrest _ _ rfl
        · rw [List.cons_append, section_name, if_neg hend, if_neg hc, if_pos hname, hout]
          cases out <;> rfl
      · refine ⟨.error ⟨line, bytes "invalid character in section name"⟩, (fun _ _ h => by cases h), fun B => ?_⟩
        rw [List.cons_append, section_name, if_neg hend, if_neg hc, if_neg hname]
        rfl

theorem menu_name_inline (line : Nat) : Inline newline pre (menu_name line) fun _ _ => True := by
  intro l hl hpre
  clear hpre
  induction l with
  | nil =>
    refine ⟨.ok ([], []), fun a l' h => ?_, fun B => rfl⟩
    cases h
    exact ⟨hl, trivial⟩
  | cons c l ih =>
    have hne : c ≠ newline := fun h => hl (h ▸ List.mem_cons_self)
    have hc : (decide (c = newline) || isblank c) = isblank c := by rw [decide_eq_false hne, Bool.false_or]
    by_cases hblank : isblank c = true
    · refine ⟨.ok ([], c :: l), fun a l' h => ?_, fun B => ?_⟩
      · cases h
        exact ⟨hl, trivial⟩
      · rw [List.cons_append, menu_name, hc, if_pos hblank]
        rfl
    · by_cases hname : isalnum c = true
      · obtain ⟨out, hrest, hout⟩ := ih fun hmem => hl (List.mem_cons_of_mem c hmem)
        refine ⟨out.map fun r => (c :: r.1, r.2), fun a l' h => ?_, fun B => ?_⟩
        · cases out with
          | error e => cases h
          | ok r =>
            cases h
            exact hrest _ _ rfl
        · rw [List.cons_append, menu_name, hc, if_neg hblank, if_pos hname, hout]
          cases out <;> rfl
      · refine ⟨.error ⟨line, bytes "invalid character in menu name "⟩, (fun _ _ h => by cases h), fun B => ?_⟩
        rw [List.cons_append, menu_name, hc, if_neg hblank, if_neg hname]
        rfl

theorem scan_section_heading_ends (line : Nat) : Ends newline pre (scan_section_heading line) := by
  refine (section_name_inline line).ends fun name => ?_
  split
  · exact .error _
  · exact (advance_inline fun l h => h).ends fun _ => trailing_ends line _ (.pure _)

theorem scan_menu_heading_ends (line : Nat) : Ends newline pre (scan_menu_heading line) := by
  refine (menu_name_inline line).ends fun name => trailing_ends line _ ?_
  split
  · exact .error _
  · exact .pure _

theorem scan_digits_inline (line : Nat) (old_number : Int) :
    Inline newline pre (scan_digits line old_number) fun _ _ => True := by
  intro l hl hpre
  clear hpre
  induction l generalizing old_number with
  | nil =>
    refine ⟨.ok (old_number, []), fun a l' h => ?_, fun B => rfl⟩
    cases h
    exact ⟨hl, trivial⟩
  | cons c l ih =>
    have hstep : ∀ B, scan_digits line old_number (c :: l ++ newline :: B) = if isdigit c then
        if i32 (old_number * 10 + c.toNat - 0x30) < old_number then .error ⟨line, bytes "number too large"⟩
        else scan_digits line (i32 (old_number * 10 + c.toNat - 0x30)) (l ++ newline :: B)
        else .ok (old_number, c :: l ++ newline :: B) := fun B => rfl
    by_cases hdigit : isdigit c = true
    · by_cases hlarge : i32 (old_number * 10 + c.toNat - 0x30) < old_number
      · refine ⟨.error ⟨line, bytes "number too large"⟩, (fun _ _ h => by cases h), fun B => ?_⟩
        rw [hstep, if_pos hdigit, if_pos hlarge]
        rfl
      · obtain ⟨out, hrest, hout⟩ := ih (i32 (old_number * 10 + c.toNat - 0x30))
          fun hmem => hl (List.mem_cons_of_mem c hmem)
        refine ⟨out, hrest, fun B => ?_⟩
        rw [hstep, if_pos hdigit, if_neg hlarge, hout]
    · refine ⟨.ok (old_number, c :: l), fun a l' h => ?_, fun B => ?_⟩
      · cases h
        exact ⟨hl, trivial⟩
      · rw [hstep, if_neg hdigit]
        rfl

theorem scan_number_inline (line : Nat) : Inline newline pre (scan_number line) fun _ _ => True := by
  refine misc_get_char_inline.bind fun current => (scan_digits_inline line 0).bind fun number => ?_
  split
  · exact .pure fun l h => h
  · exact .error _

theorem scan_value_string_inline (line : Nat) : Inline newline pre (scan_value_string line) fun _ _ => True := by
  refine misc_get_char_inline.bind fun current => ?_
  split
  · rename_i hquote
    have hne : ∀ l, Current current l → l ≠ [] := fun l h => by
      rcases hquote with hquote | hquote
      · exact h.ne_nil hquote (by decide)
      · exact h.ne_nil hquote (by decide)
    refine (advance_inline fun l h => hne l h.1).bind fun _ => (scan_span_inline rfl).bind fun string =>
      misc_get_char_inline.bind fun close => ?_
    split
    · rename_i hclose
      refine (advance_inline fun l h => ?_).bind fun _ => .pure fun l h => h
      exact hne l (hclose ▸ h.1)
    · exact .error _
  · exact (scan_span_inline (by decide)).bind fun string => .pure fun l h => h

theorem scan_assignment_ends (line : Nat) (unexpected : String) (token : List UInt8 → Token) :
    Ends newline pre (scan_assignment line unexpected token) := by
  refine skip_blanks_inline.ends fun _ => misc_get_char_inline.ends fun current => ?_
  split
  · rename_i hcurrent
    exact (advance_inline fun l h => h.1.ne_nil hcurrent (by decide)).ends fun _ => skip_blanks_inline.ends fun _ =>
      (scan_value_string_inline line).ends fun value => trailing_ends line _ (.pure _)
  · exact .error _

theorem scan_number_assignment_ends (line : Nat) : Ends newline pre (scan_number_assignment line) :=
  (scan_number_inline line).ends fun _ => scan_assignment_ends line _ _

theorem isPrefixOf_line {name : List UInt8} (h : newline ∉ name) (l B : List UInt8) :
    name.isPrefixOf (l ++ newline :: B) = name.isPrefixOf l := by
  induction name generalizing l with
  | nil => cases l <;> rfl
  | cons c name ih =>
    have hc : c ≠ newline := fun heq => h (heq ▸ List.mem_cons_self)
    cases l with
    | nil =>
      rw [List.nil_append, List.isPrefixOf_cons_cons, beq_eq_false_iff_ne.mpr hc, Bool.false_and]
      rfl
    | cons d l =>
      rw [List.cons_append, List.isPrefixOf_cons_cons, List.isPrefixOf_cons_cons, ih fun hmem =>
        h (List.mem_cons_of_mem c hmem)]

theorem scan_keyword_in_inline {list : List (List UInt8 × Keyword)} (hlist : ∀ entry ∈ list, newline ∉ entry.1)
    (line : Nat) : Inline newline pre (scan_keyword_in list line) fun _ _ => True := by
  intro l hl _
  have hfind : ∀ B, (list.find? fun entry => entry.1.isPrefixOf (l ++ newline :: B)) =
      list.find? fun entry => entry.1.isPrefixOf l := fun B =>
    List.find?_congr fun entry hentry => isPrefixOf_line (hlist entry hentry) l B
  cases hfound : list.find? fun entry => entry.1.isPrefixOf l with
  | none =>
    refine ⟨.error ⟨line, bytes "unknown keyword"⟩, (fun _ _ h => by cases h), fun B => ?_⟩
    rw [scan_keyword_in, hfind, hfound]
    rfl
  | some entry =>
    refine ⟨.ok (entry.2, l.drop entry.1.length), fun a l' h => ?_, fun B => ?_⟩
    · cases h
      exact ⟨fun hmem => hl (List.mem_of_mem_drop hmem), trivial⟩
    · have hprefix : entry.1 <+: l := by
        have hmatch := List.find?_some (p := fun entry : List UInt8 × Keyword => entry.1.isPrefixOf l) hfound
        exact List.isPrefixOf_iff_prefix.mp hmatch
      rw [scan_keyword_in, hfind, hfound]
      show Except.ok (entry.2, (l ++ newline :: B).drop entry.1.length) = _
      rw [List.drop_append_of_le_length hprefix.length_le]
      rfl

theorem scan_keyword_assignment_ends (line : Nat) : Ends newline pre (scan_keyword_assignment line) :=
  (scan_keyword_in_inline (by decide) line).ends fun _ => scan_assignment_ends line _ _

theorem scan_keyword_only_statement_ends (line : Nat) : Ends newline pre (scan_keyword_only_statement line) :=
  (scan_keyword_in_inline (by decide) line).ends fun _ => trailing_ends line _ (.pure _)

theorem search_line_for_inline (search : UInt8) : Inline newline pre (search_line_for search) fun _ _ => True := by
  intro l hl _
  refine ⟨.ok ((l.takeWhile (· != newline)).contains search, l), fun a l' h => ?_, fun B => ?_⟩
  · cases h
    exact ⟨hl, trivial⟩
  · rw [search_line_for, takeWhile_line (by decide)]
    rfl

theorem advance_ends (h : ∀ l, newline ∉ l → pre l → l = []) : Ends newline pre (advance 1) := by
  intro l hl hpre
  cases h l hl hpre
  exact ⟨.ok (), fun B => rfl⟩

theorem scan_line_ends (line : Nat) : Ends newline pre (scan_line line) := by
  refine skip_blanks_inline.ends fun _ => misc_get_char_inline.ends fun current => ?_
  split
  · rename_i hcurrent
    exact (advance_inline fun l h => h.1.ne_nil hcurrent (by decide)).ends fun _ =>
      (scan_section_heading_ends line).map some
  split
  · rename_i hcurrent
    exact (advance_inline fun l h => h.1.ne_nil hcurrent (by decide)).ends fun _ =>
      (scan_menu_heading_ends line).map some
  split
  · rename_i hcurrent
    exact (advance_inline fun l h => h.1.ne_nil hcurrent (by decide)).ends fun _ =>
      skip_line_ends.silent fun _ => .pure none
  split
  · rename_i hcurrent
    refine (advance_ends fun l hl h => ?_).silent fun _ => .pure none
    cases l with
    | nil => rfl
    | cons c l =>
      have hc : some newline = some c := hcurrent.symm.trans h.1
      exact absurd (Option.some.inj hc ▸ List.mem_cons_self) hl
  split
  · rename_i hcurrent
    intro l _ h
    cases hcurrent.symm.trans h.1
  refine (search_line_for_inline 0x3d).ends fun found => ?_
  split
  · split
    · exact (scan_number_assignment_ends line).map some
    · exact (scan_keyword_assignment_ends line).map some
  · exact (scan_keyword_only_statement_ends line).map some

end

theorem scan_step_ends (st : State) : Ends newline (fun _ => True) (scan_step st) :=
  (scan_line_ends st.line).silent fun token => .pure (st.next token)

/-! ## Line numbers -/

section
variable (k line : Nat)

def Token.shift : Token → Token
  | .empty => .empty
  | .section_heading line name => .section_heading (line + k) name
  | .menu_heading line name => .menu_heading (line + k) name
  | .keyword_assignment line keyword value => .keyword_assignment (line + k) keyword value
  | .number_assignment line number value => .number_assignment (line + k) number value
  | .keyword_only line keyword => .keyword_only (line + k) keyword

theorem section_name_relabels : Relabels id (section_name line) (section_name (line + k)) := by
  intro s
  induction s with
  | nil => exact fun _ _ h => by cases h
  | cons c s ih =>
    intro name rest h
    rw [section_name] at h ⊢
    by_cases hend : c = 0x5d
    · rw [if_pos hend] at h ⊢
      exact h
    rw [if_neg hend] at h ⊢
    by_cases hline : c = newline
    · rw [if_pos hline] at h
      cases h
    rw [if_neg hline] at h ⊢
    by_cases hchar : (isalnum c || ispunct c) = true
    · rw [if_pos hchar] at h ⊢
      cases hname : section_name line s with
      | error e =>
        rw [hname] at h
        cases h
      | ok r =>
        rw [hname] at h
        rw [ih r.1 r.2 hname]
        exact h
    · rw [if_neg hchar] at h
      cases h

theorem menu_name_relabels : Relabels id (menu_name line) (menu_name (line + k)) := by
  intro s
  induction s with
  | nil => exact fun _ _ h => h
  | cons c s ih =>
    intro name rest h
    rw [menu_name] at h ⊢
    by_cases hend : (decide (c = newline) || isblank c) = true
    · rw [if_pos hend] at h ⊢
      exact h
    rw [if_neg hend] at h ⊢
    by_cases hchar : isalnum c = true
    · rw [if_pos hchar] at h ⊢
      cases hname : menu_name line s with
      | error e =>
        rw [hname] at h
        cases h
      | ok r =>
        rw [hname] at h
        rw [ih r.1 r.2 hname]
        exact h
    · rw [if_neg hchar] at h
      cases h

theorem scan_digits_relabels (old_number : Int) :
    Relabels id (scan_digits line old_number) (scan_digits (line + k) old_number) := by
  intro s
  induction s generalizing old_number with
  | nil => exact fun _ _ h => h
  | cons c s ih =>
    intro number rest h
    rw [scan_digits] at h ⊢
    by_cases hdigit : isdigit c = true
    · rw [if_pos hdigit] at h ⊢
      dsimp only at h ⊢
      by_cases hlarge : i32 (old_number * 10 + c.toNat - 0x30) < old_number
      · rw [if_pos hlarge] at h
        cases h
      · rw [if_neg hlarge] at h ⊢
        exact ih _ number rest h
    · rw [if_neg hdigit] at h ⊢
      exact h

theorem trailing_relabels {α β : Type} {φ : α → β} (text : String) {token : FileScan α} {token' : FileScan β}
    (htoken : Relabels φ token token') :
    Relabels φ (skip_trailing_blanks >>= fun rc => if rc = true then error_reason line text else token)
      (skip_trailing_blanks >>= fun rc => if rc = true then error_reason (line + k) text else token') := by
  refine (Relabels.refl _).bind fun rc => ?_
  cases rc with
  | true => exact .error _
  | false => exact htoken

theorem scan_section_heading_relabels :
    Relabels (Token.shift k) (scan_section_heading line) (scan_section_heading (line + k)) := by
  refine (section_name_relabels k line).bind fun name => ?_
  split
  · exact .error _
  · rename_i hname
    rw [id, if_neg hname]
    exact (Relabels.refl _).bind fun _ => trailing_relabels k line _ (.pure _)

theorem scan_menu_heading_relabels : Relabels (Token.shift k) (scan_menu_heading line)
    (scan_menu_heading (line + k)) := by
  refine (menu_name_relabels k line).bind fun name => trailing_relabels k line _ ?_
  split
  · exact .error _
  · rename_i hname
    rw [id, if_neg hname]
    exact .pure _

theorem scan_number_relabels : Relabels id (scan_number line) (scan_number (line + k)) := by
  refine (Relabels.refl _).bind fun current => (scan_digits_relabels k line 0).bind fun number => ?_
  split
  · rename_i hcurrent
    rw [id, if_pos hcurrent]
    exact .pure _
  · exact .error _

theorem scan_value_string_relabels : Relabels id (scan_value_string line) (scan_value_string (line + k)) := by
  refine (Relabels.refl _).bind fun current => ?_
  split
  · rename_i hquote
    rw [id, if_pos hquote]
    refine (Relabels.refl _).bind fun _ => (Relabels.refl _).bind fun string =>
      (Relabels.refl _).bind fun close => ?_
    split
    · rename_i hclose
      rw [id, if_pos hclose]
      exact .refl _
    · exact .error _
  · rename_i hquote
    rw [id, if_neg hquote]
    exact .refl _

theorem scan_assignment_relabels (unexpected : String) {token token' : List UInt8 → Token}
    (htoken : ∀ value, token' value = (token value).shift k) :
    Relabels (Token.shift k) (scan_assignment line unexpected token)
      (scan_assignment (line + k) unexpected token') := by
  refine (Relabels.refl _).bind fun _ => (Relabels.refl _).bind fun current => ?_
  split
  · rename_i hcurrent
    rw [id, if_pos hcurrent]
    refine (Relabels.refl _).bind fun _ => (Relabels.refl _).bind fun _ =>
      (scan_value_string_relabels k line).bind fun value => trailing_relabels k line _ ?_
    rw [htoken]
    exact .pure _
  · exact .error _

theorem scan_number_assignment_relabels :
    Relabels (Token.shift k) (scan_number_assignment line) (scan_number_assignment (line + k)) :=
  (scan_number_relabels k line).bind fun _ => scan_assignment_relabels k line _ fun _ => rfl

theorem scan_keyword_in_relabels (list : List (List UInt8 × Keyword)) :
    Relabels id (scan_keyword_in list line) (scan_keyword_in list (line + k)) := by
  intro s keyword rest h
  rw [scan_keyword_in] at h ⊢
  cases hfound : list.find? fun entry => entry.1.isPrefixOf s with
  | none =>
    rw [hfound] at h
    cases h
  | some entry =>
    rw [hfound] at h
    exact h

theorem scan_keyword_assignment_relabels :
    Relabels (Token.shift k) (scan_keyword_assignment line) (scan_keyword_assignment (line + k)) :=
  (scan_keyword_in_relabels k line _).bind fun _ => scan_assignment_relabels k line _ fun _ => rfl

theorem scan_keyword_only_statement_relabels :
    Relabels (Token.shift k) (scan_keyword_only_statement line) (scan_keyword_only_statement (line + k)) :=
  (scan_keyword_in_relabels k line _).bind fun _ => trailing_relabels k line _ (.pure _)

theorem some_relabels {f f' : FileScan Token} (h : Relabels (Token.shift k) f f') :
    Relabels (Option.map (Token.shift k)) (some <$> f) (some <$> f') := by
  rw [map_eq_pure_bind, map_eq_pure_bind]
  exact h.bind fun token => .pure _

theorem scan_line_relabels : Relabels (Option.map (Token.shift k)) (scan_line line) (scan_line (line + k)) := by
  refine (Relabels.refl _).bind fun _ => (Relabels.refl _).bind fun current => ?_
  rw [id]
  split
  · exact (Relabels.refl _).bind fun _ => some_relabels k (scan_section_heading_relabels k line)
  split
  · exact (Relabels.refl _).bind fun _ => some_relabels k (scan_menu_heading_relabels k line)
  split
  · exact (Relabels.refl _).bind fun _ => (Relabels.refl _).bind fun _ => .pure none
  split
  · exact (Relabels.refl _).bind fun _ => .pure none
  split
  · exact .pure none
  refine (Relabels.refl _).bind fun found => ?_
  rw [id]
  split
  · split
    · exact some_relabels k (scan_number_assignment_relabels k line)
    · exact some_relabels k (scan_keyword_assignment_relabels k line)
  · exact some_relabels k (scan_keyword_only_statement_relabels k line)

end

/-! ## Progress -/

section
variable (line : Nat)

theorem misc_get_char_takes : Takes 0 misc_get_char := fun _ _ _ h => by
  cases h
  exact Nat.le_refl _

theorem advance_takes (n : Nat) : Takes 0 (advance n) := fun s _ _ h => by
  cases h
  exact (List.drop_suffix n s).length_le

theorem skip_blanks_takes : Takes 0 skip_blanks := fun _ _ _ h => by
  cases h
  exact (List.dropWhile_suffix isblank).length_le

theorem skip_line_takes : Takes 0 skip_line := fun _ _ _ h => by
  cases h
  exact ((List.drop_suffix 1 _).trans (List.dropWhile_suffix _)).length_le

theorem span_takes (p : UInt8 → Bool) : Takes 0 (span p) := fun _ _ _ h => by
  cases h
  exact (List.dropWhile_suffix p).length_le

theorem trailing_suffix : ∀ s : List UInt8, (skip_trailing_blanks.trailing s).2 <:+ s
  | [] => List.suffix_refl []
  | c :: s => by
    rw [skip_trailing_blanks.trailing]
    split
    · exact List.suffix_cons c s
    split
    · exact (trailing_suffix s).trans (List.suffix_cons c s)
    · exact List.suffix_refl _

theorem trailing_takes {α : Type} (text : String) {token : FileScan α} (htoken : Takes 0 token) :
    Takes 0 (skip_trailing_blanks >>= fun rc => if rc = true then error_reason line text else token) := by
  refine Takes.bind (fun s rc rest h => ?_) fun rc => ?_
  · have hrest : (skip_trailing_blanks.trailing s).2 = rest := congrArg Prod.snd (Except.ok.inj h)
    rw [← hrest]
    exact (trailing_suffix s).length_le
  · split
    · exact .error _
    · exact htoken

theorem section_name_takes : Takes 0 (section_name line) := by
  intro s
  induction s with
  | nil => exact fun _ _ h => by cases h
  | cons c s ih =>
    intro name rest h
    rw [section_name] at h
    split at h
    · cases h
      exact Nat.le_refl _
    split at h
    · cases h
    split at h
    · cases hname : section_name line s with
      | error e =>
        rw [hname] at h
        cases h
      | ok r =>
        rw [hname] at h
        cases h
        exact Nat.le_succ_of_le (ih r.1 r.2 hname)
    · cases h

theorem menu_name_takes : Takes 0 (menu_name line) := by
  intro s
  induction s with
  | nil => exact fun _ _ h => by cases h; exact Nat.le_refl _
  | cons c s ih =>
    intro name rest h
    rw [menu_name] at h
    split at h
    · cases h
      exact Nat.le_refl _
    split at h
    · cases hname : menu_name line s with
      | error e =>
        rw [hname] at h
        cases h
      | ok r =>
        rw [hname] at h
        cases h
        exact Nat.le_succ_of_le (ih r.1 r.2 hname)
    · cases h

theorem scan_digits_takes (old_number : Int) : Takes 0 (scan_digits line old_number) := by
  intro s
  induction s generalizing old_number with
  | nil => exact fun _ _ h => by cases h; exact Nat.le_refl _
  | cons c s ih =>
    intro number rest h
    rw [scan_digits] at h
    split at h
    · dsimp only at h
      split at h
      · cases h
      · exact Nat.le_succ_of_le (ih _ number rest h)
    · cases h
      exact Nat.le_refl _

theorem scan_section_heading_takes : Takes 0 (scan_section_heading line) := by
  refine (section_name_takes line).bind fun name => ?_
  split
  · exact .error _
  · exact (advance_takes 1).bind fun _ => trailing_takes line _ (.pure _)

theorem scan_menu_heading_takes : Takes 0 (scan_menu_heading line) := by
  refine (menu_name_takes line).bind fun name => trailing_takes line _ ?_
  split
  · exact .error _
  · exact .pure _

theorem scan_value_string_takes : Takes 0 (scan_value_string line) := by
  refine misc_get_char_takes.bind fun current => ?_
  split
  · refine (advance_takes 1).bind fun _ => (span_takes _).bind fun string =>
      misc_get_char_takes.bind fun close => ?_
    split
    · exact (advance_takes 1).bind fun _ => .pure _
    · exact .error _
  · exact (span_takes _).bind fun string => .pure _

theorem scan_assignment_takes (unexpected : String) (token : List UInt8 → Token) :
    Takes 0 (scan_assignment line unexpected token) := by
  refine skip_blanks_takes.bind fun _ => misc_get_char_takes.bind fun current => ?_
  split
  · exact (advance_takes 1).bind fun _ => skip_blanks_takes.bind fun _ =>
      (scan_value_string_takes line).bind fun value => trailing_takes line _ (.pure _)
  · exact .error _

theorem scan_number_takes : Takes 1 (scan_number line) := by
  intro s number rest h
  obtain ⟨current, s₁, hcurrent, h⟩ := bind_ok h
  cases hcurrent
  obtain ⟨value, s₂, hdigits, h⟩ := bind_ok h
  cases s with
  | nil => cases h
  | cons c s =>
    by_cases hdigit : isdigit c = true
    · rw [List.head?_cons, Option.any_some, if_pos hdigit] at h
      cases h
      rw [scan_digits, if_pos hdigit] at hdigits
      dsimp only at hdigits
      split at hdigits
      · cases hdigits
      · exact Nat.succ_le_succ (scan_digits_takes line _ s _ _ hdigits)
    · rw [List.head?_cons, Option.any_some, if_neg hdigit] at h
      cases h

theorem scan_keyword_in_takes {list : List (List UInt8 × Keyword)} (hlist : ∀ entry ∈ list, entry.1 ≠ []) :
    Takes 1 (scan_keyword_in list line) := by
  intro s keyword rest h
  rw [scan_keyword_in] at h
  cases hfound : list.find? fun entry => entry.1.isPrefixOf s with
  | none =>
    rw [hfound] at h
    cases h
  | some entry =>
    rw [hfound] at h
    cases h
    have hmatch := List.find?_some (p := fun entry : List UInt8 × Keyword => entry.1.isPrefixOf s) hfound
    have hle := (List.isPrefixOf_iff_prefix.mp hmatch).length_le
    have hpos := List.length_pos_iff.mpr (hlist entry (List.mem_of_find?_eq_some hfound))
    rw [List.length_drop]
    omega

theorem map_takes {α β : Type} {n : Nat} {f : FileScan α} (g : α → β) (h : Takes n f) : Takes n (g <$> f) := by
  rw [map_eq_pure_bind]
  exact h.bind fun a => .pure (g a)

theorem scan_step_shrinks : Shrinks scan_step := by
  intro st c s st' rest h
  obtain ⟨token, rest', hline, hnext⟩ := bind_ok h
  cases hnext
  obtain ⟨_, s₁, hblanks, hline⟩ := bind_ok hline
  have hle := skip_blanks_takes _ _ _ hblanks
  obtain ⟨current, s₂, hcurrent, hline⟩ := bind_ok hline
  cases hcurrent
  cases s₁ with
  | nil =>
    cases hline
    exact Nat.zero_le _
  | cons d s₁ =>
    have hless : s₁.length ≤ s.length := Nat.le_of_succ_le_succ hle
    have hshort : ∀ {f : FileScan (Option Token)}, Takes 1 f → f (d :: s₁) = .ok (token, rest) →
      rest.length ≤ s.length :=
      fun hf hrun => Nat.le_trans (Nat.le_of_succ_le_succ (hf _ _ _ hrun)) hless
    have hrest : ∀ {f : FileScan (Option Token)}, Takes 0 f → f s₁ = .ok (token, rest) → rest.length ≤ s.length :=
      fun hf hrun => Nat.le_trans (hf _ _ _ hrun) hless
    split at hline
    · exact hrest (map_takes some (scan_section_heading_takes _)) hline
    split at hline
    · exact hrest (map_takes some (scan_menu_heading_takes _)) hline
    split at hline
    · exact hrest (skip_line_takes.bind fun _ => .pure none) hline
    split at hline
    · exact hrest (.pure none) hline
    split at hline
    · rename_i hnone
      cases hnone
    obtain ⟨found, s₂, hfound, hline⟩ := bind_ok hline
    cases hfound
    split at hline
    · split at hline
      · exact hshort (map_takes some ((scan_number_takes _).bind fun _ => scan_assignment_takes _ _ _)) hline
      · exact hshort (map_takes some ((scan_keyword_in_takes _ (by decide)).bind fun _ =>
          scan_assignment_takes _ _ _)) hline
    · exact hshort (map_takes some ((scan_keyword_in_takes _ (by decide)).bind fun _ =>
        trailing_takes _ _ (.pure _))) hline

end

/-! ## The array -/

section
variable (line : Nat)

theorem trailing_gives {P : Token → Prop} (text : String) {token : Token} (h : P token) :
    Gives P (skip_trailing_blanks >>= fun rc => if rc =
      true then error_reason line text else (pure token : FileScan Token)) := by
  refine .bind fun rc => ?_
  split
  · exact .error _
  · exact .pure h

theorem scan_assignment_gives {P : Token → Prop} (unexpected : String) {token : List UInt8 → Token}
    (h : ∀ value, P (token value)) : Gives P (scan_assignment line unexpected token) := by
  refine .bind fun _ => .bind fun current => ?_
  split
  · exact .bind fun _ => .bind fun _ => .bind fun value => trailing_gives line _ (h value)
  · exact .error _

theorem scan_line_gives : Gives (fun token => ∀ t ∈ token, t ≠ .empty) (scan_line line) := by
  have hsome : ∀ t : Token, t ≠ .empty → ∀ t' ∈ some t, t' ≠ .empty := fun t h t' h' => by
    cases h'
    exact h
  have hnone : ∀ t ∈ (none : Option Token), t ≠ .empty := fun t h => by cases h
  refine .bind fun _ => .bind fun current => ?_
  split
  · refine .bind fun _ => Gives.map (.bind fun name => ?_) hsome
    split
    · exact .error _
    · exact .bind fun _ => trailing_gives line _ Token.noConfusion
  split
  · refine .bind fun _ => Gives.map (.bind fun name => .bind fun rc => ?_) hsome
    split
    · exact .error _
    split
    · exact .error _
    · exact .pure Token.noConfusion
  split
  · exact .bind fun _ => .bind fun _ => .pure hnone
  split
  · exact .bind fun _ => .pure hnone
  split
  · exact .pure hnone
  refine .bind fun found => ?_
  split
  · split
    · exact Gives.map (.bind fun _ => scan_assignment_gives line _ fun _ => Token.noConfusion) hsome
    · exact Gives.map (.bind fun _ => scan_assignment_gives line _ fun _ => Token.noConfusion) hsome
  · exact Gives.map (.bind fun _ => trailing_gives line _ Token.noConfusion) hsome

end

namespace State

def scanned (st : State) : List Token := st.array.take st.pos

/-- The array ends with empty tokens, one of them for the token of the next line. -/
structure Terminated (st : State) : Prop where
  tokens : ∀ t ∈ st.scanned, t ≠ .empty
  empty : ∃ k, st.array = st.scanned ++ List.replicate (k + 2) Token.empty
  length : st.scanned.length = st.pos

theorem terminated_initial : initial.Terminated := ⟨(fun t ht => by cases ht), ⟨38, rfl⟩, rfl⟩

section
variable {st : State}

theorem Terminated.takeWhile_eq (h : st.Terminated) : st.array.takeWhile (· ≠ .empty) = st.scanned := by
  obtain ⟨k, hk⟩ := h.empty
  have hall : ∀ t ∈ st.scanned, decide (t ≠ .empty) = true := fun t ht => decide_eq_true (h.tokens t ht)
  rw [hk, List.takeWhile_append_of_pos hall, List.replicate_succ,
    List.takeWhile_cons_of_neg (by decide), List.append_nil]

theorem enlarge_spec {ts : List Token} {k : Nat}
    (harray : st.array = ts ++ List.replicate (k + 1) Token.empty) (hpos : ts.length = st.pos) (hts : ∀ t ∈ ts, t ≠ .empty) :
    st.enlarge.Terminated ∧ st.enlarge.scanned = ts := by
  have htake : st.array.take st.pos = ts := by rw [harray, ← hpos, List.take_left]
  have hlength : st.array.length = st.pos + k + 1 := by
    rw [harray, List.length_append, List.length_replicate, hpos, Nat.add_assoc]
  rw [enlarge, hlength, htake]
  split
  · rename_i hfull
    have hroom : (st.pos + k + 1) * 2 - st.pos = st.pos + 2 * k + 2 := by omega
    have hscanned : (ts ++ List.replicate (st.pos + 2 * k + 2) Token.empty).take st.pos = ts := by
      rw [← hpos, List.take_left]
    rw [hroom]
    refine ⟨⟨?_, ⟨st.pos + 2 * k, ?_⟩, ?_⟩, hscanned⟩
    · show ∀ t ∈ (ts ++ List.replicate (st.pos + 2 * k + 2) Token.empty).take st.pos, t ≠ .empty
      rw [hscanned]
      exact hts
    · show ts ++ _ = (ts ++ List.replicate (st.pos + 2 * k + 2) Token.empty).take st.pos ++ _
      rw [hscanned]
    · show ((ts ++ List.replicate (st.pos + 2 * k + 2) Token.empty).take st.pos).length = st.pos
      rw [hscanned, hpos]
  · rename_i hroom
    obtain ⟨j, rfl⟩ : ∃ j, k = j + 1 := Nat.exists_eq_add_one_of_ne_zero (by omega)
    refine ⟨⟨?_, ⟨j, ?_⟩, ?_⟩, htake⟩
    · rw [scanned, htake]
      exact hts
    · rw [scanned, htake, harray]
    · rw [scanned, htake, hpos]

theorem enlarge_line (st : State) : st.enlarge.line = st.line := by
  rw [enlarge]
  split <;> rfl

theorem next_line (st : State) (token : Option Token) : (st.next token).line = st.line + 1 := by
  rw [next, enlarge_line]
  cases token <;> rfl

theorem Terminated.next (h : st.Terminated) {token : Option Token} (htoken : ∀ t ∈ token, t ≠ .empty) :
    (st.next token).Terminated ∧ (st.next token).scanned = st.scanned ++ token.toList := by
  obtain ⟨k, hk⟩ := h.empty
  cases token with
  | none =>
    rw [Option.toList_none, List.append_nil]
    exact @enlarge_spec { st with line := st.line + 1 } st.scanned (k + 1) hk h.length h.tokens
  | some t =>
    have harray : st.array.set st.pos t = (st.scanned ++ [t]) ++ List.replicate (k + 1) .empty := by
      rw [hk, ← h.length, List.set_append_right _ _ (Nat.le_refl _), Nat.sub_self, List.append_assoc]
      rfl
    have hlength : (st.scanned ++ [t]).length = st.pos + 1 := by
      rw [List.length_append, h.length]
      rfl
    refine @enlarge_spec { st.store t with line := st.line + 1 } _ k harray hlength fun t' ht' => ?_
    rcases List.mem_append.mp ht' with ht' | ht'
    · exact h.tokens t' ht'
    · rw [List.mem_singleton.mp ht']
      exact htoken t rfl

end

end State

theorem scan_step_ok {st st' : State} {s rest : List UInt8} (h : scan_step st s = .ok (st', rest)) :
    ∃ token, scan_line st.line s = .ok (token, rest) ∧ st' = st.next token := by
  obtain ⟨token, s₁, hline, hnext⟩ := bind_ok h
  cases hnext
  exact ⟨token, hline, rfl⟩

theorem scan_step_terminated {st st' : State} {s rest : List UInt8} (hst : st.Terminated)
    (h : scan_step st s = .ok (st', rest)) : st'.Terminated := by
  obtain ⟨token, hline, rfl⟩ := scan_step_ok h
  exact (hst.next (scan_line_gives _ _ _ _ hline)).1

/-! ## Files -/

/-- Scanning the buffer ends with `r`. -/
def Scans (buffer : List UInt8) (r : Except Reason (List Token)) : Prop := ∃ fuel, scan_file fuel buffer = some r

def tokens (array : List Token) : List Token := array.takeWhile (· ≠ .empty)

section
variable {buffer A B : List UInt8}

theorem scans_iff {r : Except Reason (List Token)} : Scans buffer r ↔
    ∃ fuel r', loop scan_step fuel State.initial buffer = some r' ∧ r'.map State.array = r := by
  constructor
  · rintro ⟨fuel, h⟩
    obtain ⟨r', hr', hmap⟩ := Option.map_eq_some_iff.mp h
    exact ⟨fuel, r', hr', hmap⟩
  · rintro ⟨fuel, r', hr', hmap⟩
    exact ⟨fuel, Option.map_eq_some_iff.mpr ⟨r', hr', hmap⟩⟩

theorem scans_ok {array : List Token} (h : Scans buffer (.ok array)) : ∃ fuel st,
    loop scan_step fuel State.initial buffer = some (.ok st) ∧ st.array = array ∧ st.Terminated := by
  obtain ⟨fuel, r, hr, hmap⟩ := scans_iff.1 h
  cases r with
  | error e => cases hmap
  | ok st =>
    refine ⟨fuel, st, hr, Except.ok.inj hmap, ?_⟩
    exact (loop_reached hr .start).inv (fun _ _ _ _ hst hs => scan_step_terminated hst hs) State.terminated_initial

theorem scans_error {e : Reason} (h : Scans buffer (.error e)) :
    ∃ fuel, loop scan_step fuel State.initial buffer = some (.error e) := by
  obtain ⟨fuel, r, hr, hmap⟩ := scans_iff.1 h
  cases r with
  | error e' =>
    cases hmap
    exact ⟨fuel, hr⟩
  | ok st => cases hmap

/-- `u` is the state further down in a file, behind the tokens `front` and `k` lines. -/
structure Shifted (front : List Token) (k : Nat) (t u : State) : Prop where
  line : u.line = t.line + k
  scanned : u.scanned = front ++ t.scanned.map (Token.shift k)
  terminated : t.Terminated ∧ u.Terminated

theorem scan_step_shifted {front : List Token} {k : Nat} {t u t' : State} {s rest : List UInt8}
    (h : Shifted front k t u) (hstep : scan_step t s = .ok (t', rest)) :
    ∃ u', scan_step u s = .ok (u', rest) ∧ Shifted front k t' u' := by
  obtain ⟨token, hline, rfl⟩ := scan_step_ok hstep
  have hline' := scan_line_relabels k t.line s token rest hline
  rw [← h.line] at hline'
  obtain ⟨ht, hts⟩ := h.terminated.1.next (scan_line_gives _ _ _ _ hline)
  obtain ⟨hu, hus⟩ := h.terminated.2.next (scan_line_gives _ _ _ _ hline')
  refine ⟨u.next (token.map (Token.shift k)), ?_, ?_, ?_, ht, hu⟩
  · rw [scan_step, Lines.bind_apply, hline']
    rfl
  · rw [State.next_line, State.next_line, h.line, Nat.add_right_comm]
  · rw [hus, hts, h.scanned, List.map_append, List.append_assoc]
    cases token <;> rfl

/-- The scanner ends on every buffer and keeps an empty token at the end of the array. Complete lines are scanned
as they are alone, and what follows as it is alone but for the line numbers. -/
theorem scan_file_append (A B : List UInt8) :
    (∃ r, Scans A r ∧ ∀ r', Scans A r' → r' = r) ∧
      (∀ st rest, Reached scan_step State.initial A st rest → st.Terminated) ∧
      (∀ array, Scans A (.ok array) → ∃ k, array = tokens array ++ List.replicate (k + 1) Token.empty) ∧
      (A = [] ∨ A.getLast? = some newline →
        (∀ a b, Scans A (.ok a) → Scans B (.ok b) → ∃ ab, Scans (A ++ B) (.ok ab) ∧
          tokens ab = tokens a ++ (tokens b).map (Token.shift (A.count newline))) ∧
        ∀ e, Scans A (.error e) → Scans (A ++ B) (.error e)) := by
  refine ⟨?_, fun st rest h => ?_, fun array h => ?_, fun hA => ⟨fun a b ha hb => ?_, fun e he => ?_⟩⟩
  · obtain ⟨r, hr⟩ := loop_terminates scan_step_shrinks (Nat.lt_succ_self A.length) (t := State.initial)
    refine ⟨r.map State.array, scans_iff.mpr ⟨_, r, hr, rfl⟩, fun r' hr' => ?_⟩
    obtain ⟨fuel, r₁, hr₁, rfl⟩ := scans_iff.mp hr'
    rw [loop_unique hr₁ hr]
  · exact h.inv (fun _ _ _ _ hst hs => scan_step_terminated hst hs) State.terminated_initial
  · obtain ⟨fuel, st, -, rfl, hst⟩ := scans_ok h
    obtain ⟨k, hk⟩ := hst.empty
    refine ⟨k + 1, ?_⟩
    rw [tokens, hst.takeWhile_eq]
    exact hk
  · obtain ⟨fuel, st, hrun, rfl, hst⟩ := scans_ok ha
    obtain ⟨fuel', st', hrun', rfl, hst'⟩ := scans_ok hb
    have hlines := complete_of_last hA
    have hcount : st.line = 1 + A.count newline := by
      refine loop_count scan_step_ends (fun t s t' rest hs => ?_) hlines hrun
      obtain ⟨token, -, rfl⟩ := scan_step_ok hs
      exact State.next_line t token
    have hshift : Shifted st.scanned (A.count newline) State.initial st :=
      ⟨hcount, (List.append_nil _).symm, State.terminated_initial, hst⟩
    have hsteps : ∀ (t u : State) s t' rest, Shifted st.scanned (A.count newline) t u →
      scan_step t s = .ok (t', rest) →
        ∃ u', scan_step u s = .ok (u', rest) ∧ Shifted st.scanned (A.count newline) t' u' :=
      fun _ _ _ _ _ hr hs => scan_step_shifted hr hs
    obtain ⟨u, hu, hshift'⟩ := loop_simulates hsteps hshift hrun'
    obtain ⟨n, hn⟩ := loop_append_ok scan_step_ends hlines hrun hu
    refine ⟨u.array, scans_iff.mpr ⟨n, .ok u, hn, rfl⟩, ?_⟩
    rw [tokens, tokens, tokens, hshift'.terminated.2.takeWhile_eq, hst.takeWhile_eq, hst'.takeWhile_eq]
    exact hshift'.scanned
  · obtain ⟨fuel, hrun⟩ := scans_error he
    exact scans_iff.mpr ⟨fuel, .error e, loop_append_error scan_step_ends (complete_of_last hA) hrun B, rfl⟩

theorem scan_file_append_small : ∃ ab, Scans (bytes "[a]\n" ++ bytes "image=x") (.ok ab) ∧
    tokens ab = [.section_heading 1 (bytes "a"), .keyword_assignment 2 .image (bytes "x")] := by
  have ha : Scans (bytes "[a]\n") (.ok (.section_heading 1 (bytes "a") :: List.replicate 39 .empty)) :=
    ⟨2, by decide⟩
  have hb : Scans (bytes "image=x") (.ok (.keyword_assignment 1 .image (bytes "x") :: List.replicate 39 .empty)) :=
    ⟨2, by decide⟩
  have hlines : bytes "[a]\n" = [] ∨ (bytes "[a]\n").getLast? = some newline := .inr (by decide)
  obtain ⟨ab, hab, htokens⟩ := ((scan_file_append (bytes "[a]\n") (bytes "image=x")).2.2.2 hlines).1 _ _ ha hb
  refine ⟨ab, hab, htokens.trans ?_⟩
  decide

end

end Zipl.Scan
