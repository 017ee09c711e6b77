import S390Tools.Cpuplugd.Reload

/-!
# Names on configuration lines

The text of the variables is searched for a newline, the name and `=`. Names and
values have no newline and names no `=`, so that the search finds the definition of
exactly that name.
-/

namespace Cpuplugd

open CString Run

/-! ## Looking up a variable -/

def lookup (name : List UInt8) : List (List UInt8 × List UInt8) → Option (List UInt8)
  | [] => none
  | e :: es => if e.1 = name then some (e.2 ++ 0x0a :: varlines es) else lookup name es

/-- Entries as lines of the text: no `=` in a name, and no newline. -/
def Entries (es : List (List UInt8 × List UInt8)) : Prop := ∀ e ∈ es, 0x3d ∉ e.1 ∧ 0x0a ∉ e.1 ∧ 0x0a ∉ e.2

section
variable {es : List (List UInt8 × List UInt8)} {name value : List UInt8}

theorem varlines_cons (e : List UInt8 × List UInt8) (es : List (List UInt8 × List UInt8)) :
    varlines (e :: es) = (e.1 ++ 0x3d :: e.2) ++ 0x0a :: varlines es := by
  simp [varlines, entry]

theorem varlines_append (es es' : List (List UInt8 × List UInt8)) : varlines (es ++ es') =
    varlines es ++ varlines es' := by
  simp [varlines]

theorem find_behind {x : UInt8} {m a : List UInt8} (ha : x ∉ a) (b : List UInt8) :
    find (x :: m) (a ++ x :: b) = (find (x :: m) (x :: b)).map (· + a.length) := by
  have hhead := @find_line x m [] (by simp) b
  rw [List.nil_append] at hhead
  rw [find_line ha, hhead]
  by_cases h : m.isPrefixOf b = true
  · rw [if_pos h, if_pos h]
    simp
  · rw [if_neg h, if_neg h, Option.map_map]
    congr 1
    funext i
    simp
    omega

theorem get_skip {line : List UInt8} (hline : 0x0a ∉ line) (hlen : name.length ≤ MAX_VARNAME) (rest : List UInt8) :
    get_var_rvalue (line ++ 0x0a :: rest) name = get_var_rvalue (0x0a :: rest) name := by
  rw [get_eq hlen, get_eq hlen, find_behind hline, Option.map_map]
  congr 1
  funext i
  have h : i + line.length + (name.length + 2) = line.length + (i + (name.length + 2)) := by omega
  simp only [Function.comp, h, List.drop_length_add_append]

theorem get_varlines (hname : 0x3d ∉ name) (hlen : name.length ≤ MAX_VARNAME) :
    ∀ {es : List (List UInt8 × List UInt8)}, Entries es → get_var_rvalue (0x0a :: varlines es) name = lookup name es
  | [], _ => congrFun get_newline name
  | e :: es, hes => by
    obtain ⟨heq, hnl, hnl'⟩ := hes e List.mem_cons_self
    have hline : 0x0a ∉ e.1 ++ 0x3d :: e.2 := by simp [hnl, hnl']
    rw [lookup]
    by_cases h : e.1 = name
    · subst h
      have hsplit : (0x0a : UInt8) :: varlines (e :: es) =
          (0x0a :: (e.1 ++ [0x3d])) ++ (e.2 ++ 0x0a :: varlines es) := by
        rw [varlines_cons]
        simp
      rw [if_pos rfl, get_eq hlen, hsplit, find_self, Option.map_some, Nat.zero_add]
      congr 1
      exact List.drop_left' (by simp)
    · have hfind := @find_line 0x0a (name ++ [0x3d]) [] (by simp) (varlines (e :: es))
      have hother : ¬(name ++ [0x3d]).isPrefixOf (varlines (e :: es)) = true := fun hp => by
        rw [varlines_cons, List.append_assoc, List.cons_append] at hp
        exact h (prefix_name hname heq hp).symm
      rw [List.nil_append, if_neg hother] at hfind
      have hnext : get_var_rvalue (0x0a :: varlines (e :: es)) name = get_var_rvalue (varlines (e :: es)) name := by
        rw [get_eq hlen, get_eq hlen, hfind, Option.map_map]
        congr 1
        funext i
        have hi : i + (([] : List UInt8).length + 1) + (name.length + 2) = i + (name.length + 2) + 1 := by
          rw [List.length_nil]
          omega
        rw [Function.comp, hi, List.drop_succ_cons]
      rw [if_neg h, hnext, varlines_cons, get_skip hline hlen]
      exact get_varlines hname hlen fun e' he' => hes e' (List.mem_cons_of_mem _ he')

theorem lookup_append (name : List UInt8) (e : List UInt8 × List UInt8) : ∀ es : List (List UInt8 × List UInt8),
    lookup name (es ++ [e]) = ((lookup name es).map (· ++ entry e.1 e.2)).or (lookup name [e])
  | [] => rfl
  | e' :: es => by
    rw [List.cons_append, lookup, lookup]
    by_cases h : e'.1 = name
    · rw [if_pos h, if_pos h, varlines_append]
      simp [varlines]
    · rw [if_neg h, if_neg h, lookup_append name e es]

end

/-! ## Lines -/

def strip (line : List UInt8) : List UInt8 := line.filter fun c => !isblank c && !isspace c

def quoted (value : List UInt8) : List UInt8 := 0x22 :: value ++ [0x22]

def SameName (a b : List UInt8) : Prop := a.map tolower = b.map tolower

def IsName (name : List UInt8) : Prop := ∀ c ∈ name, (isalnum c || c == 0x5f) = true

theorem IsName.chars {name : List UInt8} (h : IsName name) : 0x3d ∉ name ∧ 0x0a ∉ name ∧ 0x23 ∉ name :=
  ⟨fun hc => absurd (h _ hc) (by decide), fun hc => absurd (h _ hc) (by decide), fun hc =>
    absurd (h _ hc) (by decide)⟩

theorem unquote_quoted (value : List UInt8) : unquote (quoted value) = some value := by
  have hstart : (quoted value).findIdx? (· == 0x22) = some 0 := rfl
  have hback : (quoted value).reverse.findIdx? (· == 0x22) = some 0 := by
    rw [quoted, List.reverse_append]
    rfl
  have hlen : (quoted value).length = value.length + 2 := by simp [quoted]
  have htake : (quoted value).take (value.length + 1) = 0x22 :: value := List.take_left' (by simp)
  rw [unquote, hstart, hback]
  simp only
  rw [hlen, if_pos (by omega), show value.length + 2 - 1 - 0 - 0 = value.length + 1 by omega, htake]
  rfl

theorem unquote_unquoted {rvalue : List UInt8} (h : rvalue.count 0x22 < 2) : unquote rvalue = none := by
  cases hval : unquote rvalue with
  | none => rfl
  | some value =>
    rw [unquote] at hval
    split at hval
    · rename_i start back hstart hback
      simp only at hval
      split at hval
      · obtain ⟨hs, hsq, -⟩ := List.findIdx?_eq_some_iff_getElem.mp hstart
        obtain ⟨hb, hbq, -⟩ := List.findIdx?_eq_some_iff_getElem.mp hback
        rw [List.length_reverse] at hb
        rw [List.getElem_reverse] at hbq
        have hfront : 0x22 ∈ rvalue.take (start + 1) :=
          List.mem_take_iff_getElem.mpr ⟨start, by omega, by simpa using hsq⟩
        have hrear : 0x22 ∈ rvalue.drop (start + 1) := by
          have hmem := List.getElem_mem (l := rvalue.drop (start + 1)) (n := rvalue.length - 1 - back - (start + 1))
            (by rw [List.length_drop]; omega)
          rw [List.getElem_drop] at hmem
          have hidx : start + 1 + (rvalue.length - 1 - back - (start + 1)) = rvalue.length - 1 - back := by omega
          simp only [hidx] at hmem
          rwa [beq_iff_eq.mp hbq] at hmem
        have hcount : rvalue.count 0x22 =
          (rvalue.take (start + 1)).count 0x22 + (rvalue.drop (start + 1)).count 0x22 := by
          rw [← List.count_append, List.take_append_drop]
        have hpos := List.count_pos_iff.mpr hfront
        have hpos' := List.count_pos_iff.mpr hrear
        omega
      · cases hval
    · cases hval

section
variable {line name rvalue value : List UInt8}

theorem split_line (hline : strip line = name ++ 0x3d :: rvalue) (hname : IsName name) :
    split_configline line = match unquote rvalue with
      | some rvalue => .ok (some (name, rvalue))
      | none => .error (.cpuplugd_exit (Vtoc.bytes "the configuration file has syntax errors at " ++ name ++
          Vtoc.bytes ", position: " ++ rvalue ++ [0x0a])) := by
  have hnames : ∀ c ∈ name, (c != 0x3d) = true := fun c hc => by
    have hne : c ≠ 0x3d := fun h => hname.chars.1 (h ▸ hc)
    simpa using hne
  have hstart : char line ≠ 0x23 := by
    cases line with
    | nil => decide
    | cons c line =>
      intro hc
      have hc : c = 0x23 := hc
      have hfirst : (strip (c :: line)).head? = some 0x23 := by
        rw [strip, List.filter_cons_of_pos (by rw [hc]; decide), hc]
        rfl
      rw [hline] at hfirst
      cases name with
      | nil => cases hfirst
      | cons d name =>
        cases hfirst
        exact hname.chars.2.2 List.mem_cons_self
  have hfront : (strip line).takeWhile (· != 0x3d) = name := by
    rw [hline, List.takeWhile_append_of_pos hnames, List.takeWhile_cons_of_neg (by decide), List.append_nil]
  have hbehind : (strip line).dropWhile (· != 0x3d) = 0x3d :: rvalue := by
    rw [hline, List.dropWhile_append_of_pos hnames, List.dropWhile_cons_of_neg (by decide)]
  rw [strip] at hfront hbehind
  rw [split_configline, if_neg hstart]
  cases h : unquote rvalue with
  | none => simp only [hfront, hbehind, h]
  | some value => simp only [hfront, hbehind, h]

theorem keywords_apart : ∀ f ∈ fields, ∀ g ∈ fields, names f.symbol g.symbol = true → f = g := by decide

theorem mem_fields (f : Field) : f ∈ fields := by
  rcases f with t | v
  · cases t <;> decide
  · cases v <;> decide

theorem names_congr {symbol a b : List UInt8} (h : SameName a b) : names symbol a = names symbol b := by
  rw [names, names, h]

theorem field_of_keyword {f : Field} (h : SameName name f.symbol) : config_field name = some f := by
  have hself : names f.symbol name = true := by
    rw [names_congr h, names, List.isPrefixOf_iff_prefix]
  cases hfind : config_field name with
  | none => exact absurd hself (by simpa using List.find?_eq_none.mp hfind f (mem_fields f))
  | some g =>
    have hg := List.find?_some hfind
    rw [names_congr h] at hg
    exact congrArg some (keywords_apart g (mem_fields g) f (mem_fields f) hg)

theorem field_of_other (hslip : ∀ f : Field, names f.symbol name = true → SameName name f.symbol)
    (hother : ∀ f : Field, ¬SameName name f.symbol) : config_field name = none :=
  List.find?_eq_none.mpr fun f _ h => hother f (hslip f h)

end

/-! ## One line of the file -/

variable {D : Type} {scanf : Scanf D} {get_numcpus : Int}

def initial_state : State D := { cfg := Config.initial, varinfo := [0x0a], history_max := 1 }

variable (scanf get_numcpus) in
/-- A state while `main` reads the file. -/
def Reading (s : State D) : Prop :=
  ∃ (fuel : Nat) (lines : List (List UInt8)), lines.foldlM (configfile_line scanf get_numcpus fuel)
    initial_state = .ok s

theorem Reading.entries {s : State D} (h : Reading scanf get_numcpus s) :
    ∃ es, s.varinfo = 0x0a :: varlines es ∧ Entries es := by
  obtain ⟨fuel, lines, h⟩ := h
  refine ⟨_, run_varinfo h, fun e he => ?_⟩
  obtain ⟨l, -, hl⟩ := List.mem_filterMap.mp (List.mem_filter.mp he).1
  exact line_entry_chars hl

def Exits {α : Type} (r : Except Stop α) : Prop := ∃ message, r = .error (.cpuplugd_exit message)

def Defined (s : State D) (name : List UInt8) : Prop := get_var_rvalue s.varinfo name ≠ none

def Predefined (name : List UInt8) : Prop := name ∈ sym_names.map (·.1)

/-- The name does not fit into the buffer of a search, or the definition into the text. -/
def TooLarge (s : State D) (name value : List UInt8) : Prop :=
  MAX_VARNAME < name.length ∨ VARINFO_SIZE < s.varinfo.length + name.length + value.length + 3

/-- The state after a line that defines a variable: rules and limits are as before, and so are the
other variables. -/
structure Defines (s s' : State D) (name value : List UInt8) : Prop where
  cfg : s'.cfg = s.cfg
  history : s'.history_max = s.history_max
  own : get_var_rvalue s'.varinfo name = some (value ++ [0x0a])
  others : ∀ other, IsName other → other.length ≤ MAX_VARNAME → other ≠ name →
    get_var_rvalue s'.varinfo other = (get_var_rvalue s.varinfo other).map (· ++ entry name value)

variable (scanf get_numcpus) in
/-- What a line with a name and `rvalue` does, where `refused` are the names that are not defined. -/
structure Classified (refused : List UInt8 → Prop) (fuel : Nat) (s : State D)
    (line name rvalue : List UInt8) : Prop where
  unquoted : rvalue.count 0x22 < 2 → Exits (parse_configline scanf get_numcpus fuel line s)
  keyword : ∀ (value : List UInt8) (f : Field), rvalue = quoted value → SameName name f.symbol →
    parse_configline scanf get_numcpus fuel line s =
      ((check_field scanf get_numcpus fuel value (get_var_rvalue s.varinfo) f).run s.history_max >>=
        fun x => .ok (s.set f x.1 x.2))
  refuses : ∀ value : List UInt8, rvalue = quoted value → (∀ f : Field, ¬SameName name f.symbol) → refused value →
    Exits (parse_configline scanf get_numcpus fuel line s)
  defines : ∀ value : List UInt8, rvalue = quoted value → (∀ f : Field, ¬SameName name f.symbol) → ¬refused value →
    ∃ s', parse_configline scanf get_numcpus fuel line s = .ok s' ∧ Defines s s' name value

section
variable {fuel : Nat} {s : State D} {line name rvalue value : List UInt8}

theorem configline_field {f : Field} (hline : strip line = name ++ 0x3d :: quoted value) (hname : IsName name)
    (hfield : config_field name = some f) :
    parse_configline scanf get_numcpus fuel line s =
      ((check_field scanf get_numcpus fuel value (get_var_rvalue s.varinfo) f).run s.history_max >>=
        fun x => .ok (s.set f x.1 x.2)) := by
  rw [parse_configline, split_line hline hname, unquote_quoted]
  simp only [bind, Except.bind, hfield]
  rfl

theorem configline_variable (hline : strip line = name ++ 0x3d :: quoted value) (hname : IsName name)
    (hfield : config_field name = none) :
    parse_configline scanf get_numcpus fuel line s =
      if name.length > MAX_VARNAME then .error
        (.cpuplugd_exit (Vtoc.bytes "Variable name too long (max. length is " ++
          decimal MAX_VARNAME ++ Vtoc.bytes " chars): " ++ name ++ [0x0a]))
      else add_var name value s := by
  rw [parse_configline, split_line hline hname, unquote_quoted]
  simp only [bind, Except.bind, hfield]

theorem add_var_exits (h : Defined s name ∨ Predefined name ∨
    VARINFO_SIZE < s.varinfo.length + name.length + value.length + 3) : Exits (add_var name value s) := by
  rw [add_var]
  by_cases hdef : (get_var_rvalue s.varinfo name).isSome = true
  · exact ⟨_, if_pos hdef⟩
  rw [if_neg hdef]
  by_cases hpre : name ∈ sym_names.map (·.1)
  · exact ⟨_, if_pos hpre⟩
  rw [if_neg hpre]
  have hdef : ¬Defined s name := fun h => hdef (Option.isSome_iff_ne_none.mpr h)
  exact ⟨_, if_pos ((h.resolve_left hdef).resolve_left hpre)⟩

theorem add_var_accepts (hdef : ¬Defined s name) (hpre : ¬Predefined name)
    (hroom : ¬VARINFO_SIZE < s.varinfo.length + name.length + value.length + 3) :
    add_var name value s = .ok { s with varinfo := s.varinfo ++ entry name value } := by
  have hnone : ¬(get_var_rvalue s.varinfo name).isSome = true := fun h => hdef (Option.isSome_iff_ne_none.mp h)
  rw [add_var, if_neg hnone]
  exact (if_neg hpre).trans (if_neg hroom)

theorem Defines.of_entries {es : List (List UInt8 × List UInt8)} (hvars : s.varinfo = 0x0a :: varlines es)
    (hes : Entries es) (hname : IsName name) (hvalue : 0x0a ∉ value) (hlen : name.length ≤ MAX_VARNAME)
    (hdef : ¬Defined s name) : Defines s { s with varinfo := s.varinfo ++ entry name value } name value := by
  have hes' : Entries (es ++ [(name, value)]) := fun e he => by
    rcases List.mem_append.mp he with he | he
    · exact hes e he
    · rw [List.mem_singleton.mp he]
      exact ⟨hname.chars.1, hname.chars.2.1, hvalue⟩
  have hvars' : s.varinfo ++ entry name value = 0x0a :: varlines (es ++ [(name, value)]) := by
    rw [hvars, varlines_append]
    simp [varlines]
  have hnone : lookup name es = none := by
    rw [← get_varlines hname.chars.1 hlen hes, ← hvars]
    exact not_not.mp hdef
  refine ⟨rfl, rfl, ?_, fun other hother hlen' hne => ?_⟩
  · simp only [hvars']
    rw [get_varlines hname.chars.1 hlen hes', lookup_append, hnone, lookup, if_pos rfl]
    rfl
  · simp only [hvars']
    rw [hvars, get_varlines hother.chars.1 hlen' hes', get_varlines hother.chars.1 hlen' hes, lookup_append, lookup,
      if_neg (Ne.symm hne), lookup, Option.or_none]

theorem no_newline (hline : strip line = name ++ 0x3d :: quoted value) : 0x0a ∉ value := fun h => by
  have hmem : 0x0a ∈ strip line := by
    rw [hline, quoted]
    simp [h]
  exact absurd (List.mem_filter.mp hmem).2 (by decide)

/-- Names that do not merely start with a keyword. -/
theorem configline_classified (hs : Reading scanf get_numcpus s) (hline : strip line = name ++ 0x3d :: rvalue)
    (hname : IsName name) (hslip : ∀ f : Field, names f.symbol name = true → SameName name f.symbol) :
    Classified scanf get_numcpus (fun value => Defined s name ∨ Predefined name ∨ TooLarge s name value) fuel s line
      name rvalue := by
  obtain ⟨es, hvars, hes⟩ := hs.entries
  refine ⟨fun hcount => ?_, fun value f hvalue hsame => ?_, fun value hvalue hother hrefused => ?_,
    fun value hvalue hother hfree => ?_⟩
  · rw [parse_configline, split_line hline hname, unquote_unquoted hcount]
    exact ⟨_, rfl⟩
  · subst hvalue
    exact configline_field hline hname (field_of_keyword hsame)
  · subst hvalue
    rw [configline_variable hline hname (field_of_other hslip hother)]
    by_cases hlong : name.length > MAX_VARNAME
    · exact ⟨_, if_pos hlong⟩
    rw [if_neg hlong]
    refine add_var_exits ?_
    rcases hrefused with hdef | hpre | hlen | hroom
    · exact .inl hdef
    · exact .inr (.inl hpre)
    · exact absurd hlen hlong
    · exact .inr (.inr hroom)
  · subst hvalue
    obtain ⟨hdef, hfree⟩ := not_or.mp hfree
    obtain ⟨hpre, hlarge⟩ := not_or.mp hfree
    obtain ⟨hlen, hroom⟩ := not_or.mp hlarge
    rw [configline_variable hline hname (field_of_other hslip hother), if_neg hlen, add_var_accepts hdef hpre hroom]
    exact ⟨_, rfl, Defines.of_entries hvars hes hname (no_newline hline) (Nat.le_of_not_lt hlen) hdef⟩

end

/-! ## Lines read first -/

def configline (name value : List UInt8) : List UInt8 := name ++ 0x3d :: quoted value ++ [0x0a]

theorem reading_start : Reading scanf get_numcpus initial_state := ⟨0, [], rfl⟩

def firstState : State Int := initial_state

theorem configline_limit : Classified scanInt 4
    (fun value => Defined firstState (Vtoc.bytes "limit") ∨ Predefined (Vtoc.bytes "limit") ∨
      TooLarge firstState (Vtoc.bytes "limit") value) 8 firstState
    (configline (Vtoc.bytes "limit") (Vtoc.bytes "2")) (Vtoc.bytes "limit") (quoted (Vtoc.bytes "2")) :=
  configline_classified reading_start (by decide +kernel) (by unfold IsName; decide +kernel) fun f => by
    have hfields : ∀ f ∈ fields, names f.symbol (Vtoc.bytes "limit") = false := by decide +kernel
    intro h
    rw [hfields f (mem_fields f)] at h
    cases h

/-- A name of 129 characters is refused, and `cpu_minimum` sets the limit `cpu_min`. -/
theorem names_not_classified : ¬(∀ (line name rvalue : List UInt8), strip line = name ++
    0x3d :: rvalue → IsName name →
      Classified scanInt 4 (fun _ => Defined firstState name ∨ Predefined name) 8 firstState line name rvalue) ∧
    ¬Classified scanInt 4 (fun _ => Defined firstState (Vtoc.bytes "cpu_minimum") ∨
      Predefined (Vtoc.bytes "cpu_minimum")) 8
      firstState (configline (Vtoc.bytes "cpu_minimum") (Vtoc.bytes "2")) (Vtoc.bytes "cpu_minimum")
        (quoted (Vtoc.bytes "2")) := by
  have hdef : ∀ name, ¬Defined firstState name := fun name h => h (congrFun get_newline name)
  constructor
  · intro h
    have hname : IsName (List.replicate 129 0x61) := fun c hc => by rw [List.eq_of_mem_replicate hc]; decide
    have hclass := h (configline (List.replicate 129 0x61) (Vtoc.bytes "2")) _ (quoted (Vtoc.bytes "2"))
      (by decide) hname
    obtain ⟨s', hs', -⟩ := hclass.defines _ rfl (fun f hsame => by
      have hlen := congrArg List.length hsame
      rw [List.length_map, List.length_map, List.length_replicate] at hlen
      have hfields : ∀ f ∈ fields, f.symbol.length < 129 := by decide
      exact absurd (hfields f (mem_fields f)) (by omega))
      (not_or.mpr ⟨hdef _, by unfold Predefined; decide⟩)
    have hfails : (parse_configline scanInt 4 8 (configline (List.replicate 129 0x61)
      (Vtoc.bytes "2")) firstState).toBool =
        false := by decide +kernel
    rw [hs'] at hfails
    cases hfails
  · intro hclass
    obtain ⟨s', hs', hdefines⟩ := hclass.defines _ rfl (fun f hsame => by
      have hfields : ∀ f ∈ fields, (Vtoc.bytes "cpu_minimum").map tolower ≠ f.symbol.map tolower := by decide
      exact hfields f (mem_fields f) hsame)
      (not_or.mpr ⟨hdef _, by unfold Predefined; decide⟩)
    have hsets : (parse_configline scanInt 4 8 (configline (Vtoc.bytes "cpu_minimum")
      (Vtoc.bytes "2")) firstState).map
        (fun s => s.cfg (.value .cpu_min)) = .ok (2 : Int) := by rfl
    rw [hs'] at hsets
    have hkeeps := congrFun hdefines.cfg (.value .cpu_min)
    rw [Except.map] at hsets
    cases (Except.ok.inj hsets).symm.trans hkeeps

end Cpuplugd
