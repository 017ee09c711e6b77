import S390Tools.Zipl.Sections

/-!
# What the automatic menu keeps

`scan_build_automenu` copies every section but `defaultboot`, completes the IPL sections that have no target
and appends a menu of the IPL sections; the result passes the checks that the input passed.
-/

namespace Zipl.Scan

open CString Vtoc

/-! ## The sections of the result -/

theorem targets_plain (keyword : Keywords) : ∀ t ∈ scan_append_target_keywords keyword,
    scan_is_delimiter t = false := by
  intro t ht
  obtain ⟨id, -, hid⟩ := List.mem_filterMap.mp ht
  obtain ⟨value, -, rfl⟩ := Option.map_eq_some_iff.mp hid
  rfl

theorem keyword_plain (keyword : Keywords) (id : Keyword) :
    ∀ t ∈ scan_append_keyword keyword id, scan_is_delimiter t = false := by
  intro t ht
  obtain ⟨value, -, rfl⟩ := Option.map_eq_some_iff.mp (Option.mem_toList.mp ht)
  rfl

theorem entries_plain (entry : List (List UInt8)) : ∀ t ∈ scan_append_entries entry,
    scan_is_delimiter t = false := by
  intro t ht
  obtain ⟨i, hi, rfl⟩ := List.mem_mapIdx.mp ht
  rfl

namespace Section

def is_defaultboot (s : Section) : Bool := s.type = .section_heading && s.name = DEFAULTBOOT_SECTION

@[grind =] def ipl (s : Section) : Bool := s.type = .section_heading && scan_get_section_type s.value = some .ipl

def untargeted (s : Section) : Bool := s.ipl && scan_count_target_keywords s.value = 0

/-- With the target keywords of `defaultboot` if it has none. -/
def completed (db_keyword : Keywords) (s : Section) : Section :=
  if s.untargeted then s.append (scan_append_target_keywords db_keyword) (targets_plain db_keyword) else s

end Section

def new_defaultboot : Section where
  type := .section_heading
  line := 0
  name := DEFAULTBOOT_SECTION
  body := [.keyword_assignment 0 .defaultmenu SCAN_AUTOMENU_NAME]
  plain := by decide

def append_default (default_entry : Option Nat) : List Token :=
  (default_entry.map fun i => Token.keyword_assignment 0 .default (decimal (i + 1))).toList

theorem default_plain (default_entry : Option Nat) : ∀ t ∈ append_default default_entry,
    scan_is_delimiter t = false := by
  intro t ht
  obtain ⟨i, -, rfl⟩ := Option.map_eq_some_iff.mp (Option.mem_toList.mp ht)
  rfl

def new_menu (db_keyword : Keywords) (default_entry : Option Nat) (entry : List (List UInt8)) : Section where
  type := .menu_heading
  line := 0
  name := SCAN_AUTOMENU_NAME
  body := append_default default_entry ++ scan_append_keyword db_keyword .prompt ++
    scan_append_keyword db_keyword .timeout ++ scan_append_target_keywords db_keyword ++ scan_append_entries entry
  plain := by
    intro t ht
    rcases List.mem_append.mp ht with ht | ht
    · rcases List.mem_append.mp ht with ht | ht
      · rcases List.mem_append.mp ht with ht | ht
        · rcases List.mem_append.mp ht with ht | ht
          · exact default_plain default_entry t ht
          · exact keyword_plain db_keyword _ t ht
        · exact keyword_plain db_keyword _ t ht
      · exact targets_plain db_keyword t ht
    · exact entries_plain entry t ht

theorem automenu_tail_eq (db_keyword : Keywords) (st : Automenu) :
    automenu_tail db_keyword st = flat [new_defaultboot, new_menu db_keyword st.default_entry st.entry] := by
  rw [flat_cons, flat_cons]
  show _ ++ _ ++ _ ++ _ ++ _ ++ _ = _ :: (_ :: _)
  simp only [List.append_assoc]
  rw [show flat [] = [] from rfl, List.append_nil]
  simp only [new_menu, List.append_assoc]
  rfl

/-! ## The loop -/

/-- The position of the last entry with the default name. -/
def IsDefault (default_name : Option (List UInt8)) (entry : List (List UInt8)) : Option Nat → Prop
  | some i => ∃ name, default_name = some name ∧ entry[i]? = some name ∧ ∀ j, i < j → entry[j]? ≠ some name
  | none => ∀ name, default_name = some name → name ∉ entry

theorem IsDefault.snoc {default_name : Option (List UInt8)} {entry : List (List UInt8)} {default_entry : Option Nat}
    (h : IsDefault default_name entry default_entry) (name : List UInt8) :
    IsDefault default_name (entry ++ [name])
      (if default_name = some name then some entry.length else default_entry) := by
  by_cases hname : default_name = some name
  · rw [if_pos hname]
    refine ⟨name, hname, List.getElem?_concat_length, fun j hj => ?_⟩
    rw [List.getElem?_eq_none (by rw [List.length_append]; exact hj)]
    exact fun h => by cases h
  · rw [if_neg hname]
    cases default_entry with
    | none =>
      intro name' hname' hmem
      rcases List.mem_append.mp hmem with hmem | hmem
      · exact h name' hname' hmem
      · rw [List.mem_singleton.mp hmem] at hname'
        exact hname hname'
    | some i =>
      obtain ⟨name', hname', hi, hlast⟩ := h
      have hlt : i < entry.length := (List.getElem?_eq_some_iff.mp hi).1
      refine ⟨name', hname', (List.getElem?_append_left hlt).trans hi, fun j hj => ?_⟩
      rcases Nat.lt_or_ge j entry.length with hlt' | hge
      · rw [List.getElem?_append_left hlt']
        exact hlast j hj
      · rw [List.getElem?_append_right hge]
        cases hdiff : j - entry.length with
        | zero => exact fun heq => hname (hname'.trans heq.symm)
        | succ k => exact fun heq => by cases heq

def kept (secs : List Section) : List Section := secs.filter fun s => !s.is_defaultboot

def entries (secs : List Section) : List (List UInt8) := ((kept secs).filter Section.ipl).map Section.name

structure Built (db_keyword : Keywords) (st st' : Automenu) (secs : List Section) : Prop where
  menus : ∀ s ∈ secs, s.type = .menu_heading → s.name ≠ SCAN_AUTOMENU_NAME
  new_scan : st'.new_scan = st.new_scan ++ flat ((kept secs).map (Section.completed db_keyword))
  entry : st'.entry = st.entry ++ entries secs
  default_entry : IsDefault (db_keyword .default) st.entry st.default_entry →
    IsDefault (db_keyword .default) st'.entry st'.default_entry
  full : st.entry.length ≤ BOOT_MENU_ENTRIES → st'.entry.length ≤ BOOT_MENU_ENTRIES

section
variable {db_keyword : Keywords} {st st₁ st' : Automenu} {s : Section} {secs : List Section} {tail : List Token}

theorem kept_cons_skip (h : s.is_defaultboot = true) : kept (s :: secs) = kept secs := by
  rw [kept, List.filter_cons, h]
  rfl

theorem kept_cons_keep (h : s.is_defaultboot = false) : kept (s :: secs) = s :: kept secs := by
  rw [kept, List.filter_cons, h]
  rfl

theorem Built.nil : Built db_keyword st st [] :=
  ⟨fun s hs => (by cases hs), (List.append_nil _).symm, (List.append_nil _).symm, id, id⟩

theorem Built.skip (hs : s.is_defaultboot = true) (h : Built db_keyword st st' secs) :
    Built db_keyword st st' (s :: secs) := by
  refine ⟨fun s' hs' htype => ?_, ?_, ?_, h.default_entry, h.full⟩
  · rcases List.mem_cons.mp hs' with rfl | hs'
    · rw [Section.is_defaultboot, htype] at hs
      cases hs
    · exact h.menus s' hs' htype
  · rw [kept_cons_skip hs]
    exact h.new_scan
  · rw [entries, kept_cons_skip hs]
    exact h.entry

theorem Built.copy (hs : s.is_defaultboot = false) (hmenu : s.type = .menu_heading → s.name ≠ SCAN_AUTOMENU_NAME)
    (hipl : s.ipl = false) (h : Built db_keyword { st with
      new_scan := st.new_scan ++ s.heading :: s.body } st' secs) :
    Built db_keyword st st' (s :: secs) := by
  have hcompleted : s.completed db_keyword = s := by
    rw [Section.completed, Section.untargeted, hipl]
    rfl
  refine ⟨fun s' hs' => ?_, ?_, ?_, h.default_entry, h.full⟩
  · rcases List.mem_cons.mp hs' with rfl | hs'
    · exact hmenu
    · exact h.menus s' hs'
  · rw [kept_cons_keep hs, List.map_cons, flat_cons, hcompleted, h.new_scan]
    simp only [List.append_assoc, List.cons_append]
  · rw [entries, kept_cons_keep hs, List.filter_cons, hipl]
    exact h.entry

theorem Built.enter (hs : s.is_defaultboot = false) (htype : s.type = .section_heading) (hipl : s.ipl = true)
    (hroom : st.entry.length ≠ BOOT_MENU_ENTRIES) (h : Built db_keyword {
      new_scan := st.new_scan ++ (s.completed db_keyword).heading :: (s.completed db_keyword).body
      entry := st.entry ++ [s.name]
      default_entry := if db_keyword .default =
        some s.name then some st.entry.length else st.default_entry } st' secs) :
    Built db_keyword st st' (s :: secs) := by
  refine ⟨fun s' hs' htype' => ?_, ?_, ?_, fun hdefault =>
    h.default_entry (hdefault.snoc s.name), fun hfull => h.full ?_⟩
  · rcases List.mem_cons.mp hs' with rfl | hs'
    · rw [htype] at htype'
      cases htype'
    · exact h.menus s' hs' htype'
  · rw [kept_cons_keep hs, List.map_cons, flat_cons, h.new_scan]
    simp only [List.append_assoc, List.cons_append]
  · rw [entries, kept_cons_keep hs, List.filter_cons, hipl, h.entry]
    simp only [List.append_assoc, if_true]
    rfl
  · rw [List.length_append, List.length_singleton]
    omega

theorem section_value {num : Bool} {d : SectionData} (h : s.body.foldlM (store_token s.name num) .initial = .ok d) :
    d.keyword = s.value := by
  funext key
  rw [foldlM_value h key]
  exact Option.none_or

theorem automenu_loop_ended (htail : Ended tail) : automenu_loop db_keyword st tail = .ok st := by
  cases tail with
  | nil => rw [automenu_loop]; rfl
  | cons t tail =>
    have ht : t = .empty := htail
    rw [ht, automenu_loop]
    rfl

theorem automenu_loop_flat (htail : Ended tail) : ∀ {secs : List Section} {st : Automenu},
    automenu_loop db_keyword st (flat secs ++ tail) = .ok st' → Built db_keyword st st' secs
  | [], st, h => by
    rw [show flat [] ++ tail = tail from rfl, automenu_loop_ended htail] at h
    cases h
    exact .nil
  | s :: secs, st, h => by
    have hplain := takeWhile_plain s.plain (delimited_flat secs htail)
    rw [flat_cons, List.cons_append, List.append_assoc] at h
    cases htype : s.type with
    | menu_heading =>
      have hheading : s.heading = .menu_heading s.line s.name := by rw [Section.heading, htype]
      have hs : s.is_defaultboot = false := by rw [Section.is_defaultboot, htype]; rfl
      have hipl : s.ipl = false := by rw [Section.ipl, htype]; rfl
      rw [hheading, automenu_loop, hplain.1, hplain.2] at h
      by_cases hname : s.name = SCAN_AUTOMENU_NAME
      · rw [if_pos hname] at h
        cases h
      · rw [if_neg hname, ← hheading] at h
        exact .copy hs (fun _ => hname) hipl (automenu_loop_flat htail h)
    | section_heading =>
      have hheading : s.heading = .section_heading s.line s.name := by rw [Section.heading, htype]
      rw [hheading, automenu_loop, hplain.1, hplain.2] at h
      by_cases hname : s.name = DEFAULTBOOT_SECTION
      · rw [if_pos hname] at h
        exact .skip (by rw [Section.is_defaultboot, htype, hname]; decide) (automenu_loop_flat htail h)
      · have hs : s.is_defaultboot = false := by
          rw [Section.is_defaultboot, decide_eq_false hname, Bool.and_false]
        rw [if_neg hname, get_keywords_eq s.plain (delimited_flat secs htail), ← hheading] at h
        cases hdata : s.body.foldlM (store_token s.name false) .initial with
        | error e =>
          rw [hdata] at h
          cases h
        | ok d =>
          rw [hdata] at h
          obtain ⟨found, hfound, h⟩ := Run.bind_eq_ok h
          cases hfound
          obtain ⟨st₁, hsection, hloop⟩ := Run.bind_eq_ok h
          have hbuilt := automenu_loop_flat htail hloop
          rw [automenu_section, section_value hdata] at hsection
          by_cases hipl : scan_get_section_type s.value = some .ipl
          · have hipl' : s.ipl = true := by rw [Section.ipl, htype, hipl]; decide
            rw [if_neg fun hne => hne hipl] at hsection
            by_cases hroom : st.entry.length = BOOT_MENU_ENTRIES
            · rw [if_pos hroom] at hsection
              cases hsection
            · rw [if_neg hroom] at hsection
              refine .enter hs htype hipl' hroom ?_
              have hcompleted : st.new_scan ++ (s.completed db_keyword).heading :: (s.completed db_keyword).body =
                  st.new_scan ++ s.heading :: s.body ++
                    if scan_count_target_keywords s.value > 0 then []
                      else scan_append_target_keywords db_keyword := by
                rw [Section.completed, Section.untargeted, hipl', Bool.true_and]
                by_cases hcount : scan_count_target_keywords s.value = 0
                · rw [if_pos (decide_eq_true hcount), if_neg (by omega)]
                  simp only [List.append_assoc, List.cons_append]
                  rfl
                · rw [if_neg (by simpa using hcount), if_pos (by omega), List.append_nil]
              rw [hcompleted]
              cases hsection
              exact hbuilt
          · have hipl' : s.ipl = false := by rw [Section.ipl, decide_eq_false hipl, Bool.and_false]
            rw [if_pos hipl] at hsection
            cases hsection
            exact .copy hs (fun hmenu => by rw [htype] at hmenu; cases hmenu) hipl' hbuilt

end

/-! ## The size of the new array -/

section
variable {db_keyword : Keywords} {secs : List Section} {tail : List Token}

theorem targets_length (keyword : Keywords) :
    (scan_append_target_keywords keyword).length = scan_count_target_keywords keyword := by
  rw [scan_append_target_keywords, scan_count_target_keywords, List.length_filterMap_eq_countP]
  refine List.countP_congr fun key _ => ?_
  cases keyword key with
  | none => exact ⟨fun h => (by cases h), fun h => absurd rfl (of_decide_eq_true h)⟩
  | some value => exact ⟨fun _ => rfl, fun _ => rfl⟩

theorem keyword_length (keyword : Keywords) (id : Keyword) : (scan_append_keyword keyword id).length ≤ 1 := by
  rw [scan_append_keyword]
  cases keyword id with
  | none => exact Nat.zero_le 1
  | some value => exact Nat.le_refl 1

theorem completed_length (s : Section) : (s.completed db_keyword).tokens.length ≤ s.tokens.length +
    if s.type = .section_heading then scan_count_target_keywords db_keyword else 0 := by
  rw [Section.completed]
  split
  · rename_i huntargeted
    have htype : s.type = .section_heading := by
      rw [Section.untargeted, Section.ipl, Bool.and_eq_true, Bool.and_eq_true, decide_eq_true_eq] at huntargeted
      exact huntargeted.1.1
    rw [if_pos htype, ← targets_length]
    show (s.heading :: (s.body ++ _)).length ≤ (s.heading :: s.body).length + _
    rw [List.length_cons, List.length_append, List.length_cons, Nat.add_right_comm]
  · exact Nat.le_add_right _ _

def count_sections (secs : List Section) : Nat := secs.countP fun s => s.type = .section_heading

theorem kept_length : ∀ secs : List Section, (flat ((kept secs).map (Section.completed db_keyword))).length ≤
    (flat secs).length + count_sections secs * scan_count_target_keywords db_keyword
  | [] => Nat.zero_le _
  | s :: secs => by
    have ih := kept_length secs
    have hlength : (flat (s :: secs)).length = s.tokens.length + (flat secs).length := List.length_append
    rw [count_sections, List.countP_cons, ← count_sections, hlength, Nat.add_mul]
    cases hs : s.is_defaultboot with
    | true =>
      rw [kept_cons_skip hs]
      omega
    | false =>
      have hcompleted := @completed_length db_keyword s
      have hcons : (flat ((s :: kept secs).map (Section.completed db_keyword))).length =
          (s.completed db_keyword).tokens.length + (flat ((kept secs).map (Section.completed db_keyword))).length :=
        List.length_append
      rw [kept_cons_keep hs, hcons]
      by_cases htype : s.type = .section_heading
      · rw [if_pos htype] at hcompleted
        rw [if_pos (decide_eq_true htype), Nat.one_mul]
        omega
      · rw [if_neg htype] at hcompleted
        rw [if_neg (by simpa using htype), Nat.zero_mul]
        omega

theorem entries_length : ∀ secs : List Section, (entries secs).length ≤ count_sections secs
  | [] => Nat.le_refl 0
  | s :: secs => by
    have ih := entries_length secs
    rw [count_sections, List.countP_cons, ← count_sections]
    cases hs : s.is_defaultboot with
    | true =>
      rw [entries, kept_cons_skip hs]
      exact Nat.le_add_right_of_le ih
    | false =>
      rw [entries, kept_cons_keep hs, List.filter_cons]
      cases hipl : s.ipl with
      | true =>
        have htype : s.type = .section_heading := by
          rw [Section.ipl, Bool.and_eq_true, decide_eq_true_eq] at hipl
          exact hipl.1
        rw [if_pos rfl, if_pos (decide_eq_true htype)]
        exact Nat.succ_le_succ ih
      | false => exact Nat.le_add_right_of_le ih

theorem plain_ne_empty {ts : List Token} (h : ∀ t ∈ ts, scan_is_delimiter t = false) : ∀ t ∈ ts, t ≠ .empty :=
  fun t ht heq => by
    have hplain := h t ht
    rw [heq] at hplain
    cases hplain

theorem heading_ne_empty (s : Section) : s.heading ≠ .empty := by
  rw [Section.heading]
  cases s.type <;> exact Token.noConfusion

theorem live_flat (htail : Ended tail) (secs : List Section) : live (flat secs ++ tail) = flat secs := by
  have hall : ∀ t ∈ flat secs, decide (t ≠ .empty) = true := fun t ht => by
    obtain ⟨s, -, ht⟩ := List.mem_flatMap.mp ht
    rcases List.mem_cons.mp ht with rfl | ht
    · exact decide_eq_true (heading_ne_empty s)
    · exact decide_eq_true (plain_ne_empty s.plain t ht)
  rw [live, List.takeWhile_append_of_pos hall]
  cases tail with
  | nil => exact List.append_nil _
  | cons t tail =>
    have ht : t = .empty := htail
    rw [ht, List.takeWhile_cons_of_neg (by decide), List.append_nil]

theorem num_sections_flat (htail : Ended tail) (secs : List Section) :
    num_sections (flat secs ++ tail) = count_sections secs := by
  rw [num_sections, live_flat htail]
  induction secs with
  | nil => rfl
  | cons s secs ih =>
    rw [flat_cons, List.countP_cons, List.countP_append, ih, count_sections, count_sections, List.countP_cons]
    have hbody : s.body.countP Token.is_section = 0 := by
      rw [List.countP_eq_zero]
      intro t ht
      have hplain := s.plain t ht
      cases t with
      | section_heading line name => cases hplain
      | empty => exact Bool.false_ne_true
      | menu_heading line name => exact Bool.false_ne_true
      | keyword_assignment line keyword value => exact Bool.false_ne_true
      | number_assignment line number value => exact Bool.false_ne_true
      | keyword_only line keyword => exact Bool.false_ne_true
    rw [hbody, Nat.zero_add, Section.heading]
    cases s.type <;> rfl

theorem automenu_length (htail : Ended tail) {st : Automenu}
    (hbuilt : Built db_keyword { new_scan := [], entry := [], default_entry := none } st secs) :
    (st.new_scan ++ automenu_tail db_keyword st).length + 1 ≤ automenu_size (flat secs ++ tail) db_keyword := by
  have hkept := @kept_length db_keyword secs
  have hentries := entries_length secs
  have hentry : st.entry = entries secs := hbuilt.entry
  have hprompt := keyword_length db_keyword .prompt
  have htimeout := keyword_length db_keyword .timeout
  have hdefault : (append_default st.default_entry).length ≤ 1 := by
    rw [append_default]
    cases st.default_entry with
    | none => exact Nat.zero_le 1
    | some i => exact Nat.le_refl 1
  have htail_length : (automenu_tail db_keyword st).length = 3 + (append_default st.default_entry).length +
      (scan_append_keyword db_keyword .prompt).length + (scan_append_keyword db_keyword .timeout).length +
      scan_count_target_keywords db_keyword + (entries secs).length := by
    rw [automenu_tail, ← append_default]
    simp only [List.length_append, targets_length, scan_append_entries, List.length_mapIdx, hentry,
      List.length_cons,
      List.length_nil]
  rw [automenu_size, num_sections_flat htail, live_flat htail, List.length_append, htail_length, hbuilt.new_scan,
    List.nil_append]
  omega

end

/-! ## The checks of the result -/

/-- The check of a section in front of the tokens `rest`. -/
def Section.check (scan : List Token) (s : Section) (rest : List Token) : Check (List Token) :=
  match s.type with
  | .section_heading => check_section s.line s.name (s.body ++ rest)
  | .menu_heading => check_menu scan s.line s.name (s.body ++ rest)

def Section.with_target (s : Section) : Section :=
  if s.untargeted then s.append [.keyword_assignment 0 .target []] (by decide) else s

/-- All sections but `defaultboot` pass their checks, once the IPL sections without any target
keyword have a target. -/
def Accepted (scan : List Token) (secs : List Section) (tail : List Token) : Prop :=
  ∀ (before : List Section) (s : Section) (after : List Section), secs = before ++ s :: after →
    s.is_defaultboot = false → ∃ r, s.with_target.check scan (flat after ++ tail) = .ok r

def PromptOk (value : Option (List UInt8)) : Prop :=
  ∀ text, value = some text → sscanf_number text = some 0 ∨ sscanf_number text = some 1

def TimeoutOk (value : Option (List UInt8)) : Prop :=
  ∀ text, value = some text → ∃ number, sscanf_number text = some number ∧ 0 ≤ number

section
variable {scan rest tail : List Token} {s : Section} {secs : List Section}

theorem scan_check_section {r : List Token} (hrest : Delimited rest) (h : s.check scan rest = .ok r) :
    scan_check_from scan (s.heading :: (s.body ++ rest)) = scan_check_from scan rest := by
  rw [Section.check] at h
  cases htype : s.type with
  | section_heading =>
    rw [htype] at h
    have hcheck : check_section s.line s.name (s.body ++ rest) = .ok r := h
    rw [Section.heading, htype]
    show scan_check_from scan (.section_heading s.line s.name :: _) = _
    rw [scan_check_from, hcheck, (takeWhile_plain s.plain hrest).2]
    rfl
  | menu_heading =>
    rw [htype] at h
    have hcheck : check_menu scan s.line s.name (s.body ++ rest) = .ok r := h
    rw [Section.heading, htype]
    show scan_check_from scan (.menu_heading s.line s.name :: _) = _
    rw [scan_check_from, hcheck, (takeWhile_plain s.plain hrest).2]
    rfl

theorem section_type_congr {k k' : Keywords} (h : ∀ key, key ∉ target_keywords → k key = k' key) :
    scan_get_section_type k = scan_get_section_type k' := by
  rw [scan_get_section_type, scan_get_section_type, h .tape (by decide), h .image (by decide),
    h .segment (by decide),
    h .dumpto (by decide), h .dumptofs (by decide), h .mvdump (by decide)]

theorem target_error_congr {k k' : Keywords} (h : ∀ key ∈ target_keywords, k key = k' key) :
    target_error k = target_error k' := by
  rw [target_error, target_error, h .targetbase (by decide), h .targettype (by decide),
    h .targetgeometry (by decide),
    h .targetblocksize (by decide), h .targetoffset (by decide)]

theorem count_eq_zero {k : Keywords} : scan_count_target_keywords k = 0 ↔ ∀ key ∈ target_keywords,
    k key = none := by
  rw [scan_count_target_keywords, List.countP_eq_zero]
  refine forall₂_congr fun key _ => ?_
  rw [decide_eq_true_eq, Classical.not_not]

theorem target_keywords_nodup : target_keywords.Nodup := by decide

/-- The target keywords of `defaultboot` make up for a target that is missing. -/
theorem completed_ok {db_keyword : Keywords} (htarget : db_keyword .target ≠ none) {k k' : Keywords}
    {type : SectionType}
    (hk : ∀ key, k' key = if key ∈ target_keywords then db_keyword key else k key)
    (hipl : scan_get_section_type k = some .ipl) (h : SectionOk (Function.update k .target (some [])) type) :
    SectionOk k' type := by
  have hold : ∀ key, key ∉ target_keywords → k' key = Function.update k .target (some []) key := fun key hkey => by
    have hne : key ≠ .target := fun heq => hkey (heq ▸ List.mem_cons_self)
    rw [hk, if_neg hkey, Function.update_of_ne hne]
  have htype : type = .ipl := by
    have hsame : scan_get_section_type k = scan_get_section_type (Function.update k .target (some [])) :=
      section_type_congr fun key hkey => by
        have hne : key ≠ .target := fun heq => hkey (heq ▸ List.mem_cons_self)
        rw [Function.update_of_ne hne]
    have hsome : some SectionType.ipl = some type := hipl.symm.trans (hsame.trans h.type_eq)
    exact (Option.some.inj hsome).symm
  refine ⟨(section_type_congr hold).trans h.type_eq, h.not_dumpfs,
    fun key hreq => ?_, fun key hinv => ?_, fun value hvalue => ?_⟩
  · by_cases hkey : key ∈ target_keywords
    · have hmem : Keyword.target ∈ target_keywords := List.mem_cons_self
      have hself : key = .target := by
        rw [htype] at hreq
        revert hkey hreq
        cases key <;> decide
      rw [hself, hk, if_pos hmem]
      exact htarget
    · rw [hold key hkey]
      exact h.req key hreq
  · have hkey : key ∉ target_keywords := by
      rw [htype] at hinv
      revert hinv
      cases key <;> decide
    rw [hold key hkey]
    exact h.inv key hinv
  · rw [hold .segment (by decide)] at hvalue
    exact h.address value hvalue

/-! ## Copied sections -/

def new_sections (db_keyword : Keywords) (secs : List Section) (new : List Section) : List Section :=
  (kept secs).map (Section.completed db_keyword) ++ new

theorem completed_name (db_keyword : Keywords) (s : Section) :
    (s.completed db_keyword).type = s.type ∧ (s.completed db_keyword).name = s.name := by
  rw [Section.completed]
  split <;> exact ⟨rfl, rfl⟩

theorem with_target_name (s : Section) : s.with_target.type = s.type ∧ s.with_target.name = s.name := by
  rw [Section.with_target]
  split <;> exact ⟨rfl, rfl⟩

theorem mem_new_sections {db_keyword : Keywords} {new : List Section} {s' : Section}
    (h : s' ∈ new_sections db_keyword secs new) :
    (∃ s ∈ secs, s'.type = s.type ∧ s'.name = s.name) ∨ s' ∈ new := by
  rcases List.mem_append.mp h with h | h
  · obtain ⟨s, hs, rfl⟩ := List.mem_map.mp h
    exact .inl ⟨s, (List.mem_filter.mp hs).1, completed_name db_keyword s⟩
  · exact .inr h

theorem find_new_none {db_keyword : Keywords} {new : List Section} {name : List UInt8}
    {type : Heading} (htail : Ended tail)
    (h : scan_find_section name type (flat secs ++ tail) = none)
      (hnew : ∀ s ∈ new, ¬(type = s.type ∧ s.name = name)) :
    scan_find_section name type (flat (new_sections db_keyword secs new) ++ []) = none := by
  refine (find_eq_none ended_nil).mpr fun s' hs' hmatch => ?_
  rcases mem_new_sections hs' with ⟨s, hs, htype, hname⟩ | hs'
  · exact (find_eq_none htail).mp h s hs ⟨hmatch.1.trans htype, hname.symm.trans hmatch.2⟩
  · exact hnew s' hs' hmatch

theorem find_new_some {db_keyword : Keywords} {new : List Section} {name : List UInt8} (htail : Ended tail)
    (hdefaultboot : ∃ s ∈ new, s.type = .section_heading ∧ s.name = DEFAULTBOOT_SECTION)
    (h : scan_find_section name .section_heading (flat secs ++ tail) ≠ none) :
    scan_find_section name .section_heading (flat (new_sections db_keyword secs new) ++ []) ≠ none := by
  intro hnone
  have hall := (find_eq_none ended_nil).mp hnone
  refine h ((find_eq_none htail).mpr fun s hs hmatch => ?_)
  cases hdb : s.is_defaultboot with
  | true =>
    rw [Section.is_defaultboot, Bool.and_eq_true, decide_eq_true_eq, decide_eq_true_eq] at hdb
    obtain ⟨s', hs', htype, hname⟩ := hdefaultboot
    exact hall s' (List.mem_append_right _ hs') ⟨htype.symm, hname.trans (hdb.2.symm.trans hmatch.2)⟩
  | false =>
    have hkept : s ∈ kept secs := List.mem_filter.mpr ⟨hs, by rw [hdb]; rfl⟩
    have hname := completed_name db_keyword s
    exact hall _ (List.mem_append_left _ (List.mem_map_of_mem hkept))
      ⟨hmatch.1.trans hname.1.symm, hname.2.trans hmatch.2⟩

theorem completed_data {db_keyword : Keywords} {d : SectionData} (hs : s.untargeted = true)
    (h : s.with_target.body.foldlM (store_token s.name false) .initial = .ok d) :
    d.keyword = Function.update s.value .target (some []) ∧ ∃ d', (s.completed db_keyword).body.foldlM
      (store_token s.name false) .initial = .ok d' ∧
        ∀ key, d'.keyword key = if key ∈ target_keywords then db_keyword key else s.value key := by
  have huntargeted := hs
  rw [Section.untargeted, Bool.and_eq_true, decide_eq_true_eq] at hs
  rw [Section.with_target, if_pos huntargeted] at h
  have happend : (s.body ++ [Token.keyword_assignment 0 .target []]).foldlM
    (store_token s.name false) .initial = .ok d := h
  rw [List.foldlM_append] at happend
  obtain ⟨d₁, hbody, hstore⟩ := Run.bind_eq_ok happend
  rw [List.foldlM_cons] at hstore
  obtain ⟨d₂, hstore, hpure⟩ := Run.bind_eq_ok hstore
  cases hpure
  have hvalue : d₁.keyword = s.value := section_value hbody
  obtain ⟨-, rfl⟩ := store_keyword_ok hstore
  refine ⟨by rw [hvalue], ?_⟩
  obtain ⟨d', hrun, -, hd'⟩ := @foldlM_keywords s.name false db_keyword target_keywords d₁ target_keywords_nodup
    fun key hkey => by rw [hvalue]; exact count_eq_zero.1 hs.2 key hkey
  refine ⟨d', ?_, fun key => by rw [hd', hvalue]⟩
  rw [Section.completed, if_pos huntargeted]
  show (s.body ++ scan_append_target_keywords db_keyword).foldlM (store_token s.name false) .initial = .ok d'
  rw [List.foldlM_append, hbody]
  exact hrun

section
variable {db_keyword : Keywords} {new : List Section} {out : List Token} (htail : Ended tail)
include htail

theorem check_completed_section (htarget : db_keyword .target ≠ none) (herror : target_error db_keyword = none)
    (htype : s.type = .section_heading) (hs : s.is_defaultboot = false)
    (hnew : ∀ s' ∈ new, s'.type = .section_heading → s'.name = DEFAULTBOOT_SECTION)
    (h : ∃ r, s.with_target.check scan (flat secs ++ tail) = .ok r) :
    ∃ r, (s.completed db_keyword).check out (flat (new_sections db_keyword secs new) ++ []) = .ok r := by
  have hname : s.name ≠ DEFAULTBOOT_SECTION := fun hname => by
    rw [Section.is_defaultboot, htype, hname] at hs
    exact absurd hs (by decide)
  rw [Section.check, (with_target_name s).1, htype] at h
  rw [Section.check, (completed_name db_keyword s).1, htype]
  dsimp only at h ⊢
  rw [check_section_ok s.with_target.plain (delimited_flat secs htail), (with_target_name s).2] at h
  rw [check_section_ok (s.completed db_keyword).plain (delimited_flat _ ended_nil), (completed_name db_keyword s).2]
  obtain ⟨hfind, d, hdata, hok⟩ := h
  obtain ⟨⟨type, hsection⟩, herr⟩ := hok hname
  have hfind' : scan_find_section s.name .section_heading (flat (new_sections db_keyword secs new) ++ []) = none :=
    find_new_none htail hfind fun s' hs' hmatch => hname (hmatch.2.symm.trans (hnew s' hs' hmatch.1.symm))
  refine ⟨hfind', ?_⟩
  cases huntargeted : s.untargeted with
  | true =>
    obtain ⟨hkeyword, d', hdata', hkeys⟩ := @completed_data s db_keyword d huntargeted hdata
    rw [hkeyword] at hsection
    have hipl : scan_get_section_type s.value = some .ipl := by
      rw [Section.untargeted, Section.ipl, Bool.and_eq_true, Bool.and_eq_true, decide_eq_true_eq, decide_eq_true_eq]
        at huntargeted
      exact huntargeted.1.2
    refine ⟨d', hdata', fun _ => ⟨⟨type, completed_ok htarget hkeys hipl hsection⟩, ?_⟩⟩
    rw [target_error_congr fun key hkey => (hkeys key).trans (if_pos hkey)]
    exact herror
  | false =>
    have hsame : s.completed db_keyword = s := by rw [Section.completed, huntargeted]; rfl
    have hsame' : s.with_target = s := by rw [Section.with_target, huntargeted]; rfl
    rw [hsame']  at hdata
    rw [hsame]
    exact ⟨d, hdata, fun _ => ⟨⟨type, hsection⟩, herr⟩⟩

theorem check_completed_menu {all : List Section} (htype : s.type = .menu_heading)
    (hout : out = flat (new_sections db_keyword all new) ++ []) (hscan : scan = flat all ++ tail)
    (hdefaultboot : ∃ s ∈ new, s.type = .section_heading ∧ s.name = DEFAULTBOOT_SECTION)
    (hnew : ∀ s' ∈ new, s'.type = .menu_heading → s'.name ≠ s.name)
    (h : ∃ r, s.with_target.check scan (flat secs ++ tail) = .ok r) :
    ∃ r, (s.completed db_keyword).check out (flat (new_sections db_keyword secs new) ++ []) = .ok r := by
  have hipl : s.untargeted = false := by
    rw [Section.untargeted, Section.ipl, htype]
    rfl
  have hsame : s.completed db_keyword = s := by rw [Section.completed, hipl]; rfl
  have hsame' : s.with_target = s := by rw [Section.with_target, hipl]; rfl
  rw [hsame', Section.check, htype] at h
  rw [hsame, Section.check, htype]
  dsimp only at h ⊢
  rw [check_menu_ok s.plain (delimited_flat secs htail)] at h
  rw [check_menu_ok s.plain (delimited_flat _ ended_nil)]
  obtain ⟨hfind, d, hdata, hok⟩ := h
  refine ⟨find_new_none htail hfind fun s' hs' hmatch => hnew s' hs' hmatch.1.symm hmatch.2, d, hdata,
    { hok with numbers := fun i hi => ?_ }⟩
  have hnumber := hok.numbers i hi
  unfold check_number at hnumber ⊢
  cases hnum : d.num i with
  | none => rfl
  | some name =>
    rw [hnum] at hnumber
    dsimp only at hnumber ⊢
    by_cases hnone : scan_find_section name .section_heading scan = none
    · rw [if_pos hnone] at hnumber
      cases hnumber
    · rw [hscan] at hnone
      have hsome := @find_new_some tail all db_keyword new name htail hdefaultboot hnone
      rw [← hout] at hsome
      rw [if_neg hsome]
      rfl

end

end

/-! ## The new sections -/

theorem sscanf_decimal : ∀ n, n ≤ BOOT_MENU_ENTRIES → sscanf_number (decimal n) = some (n : Int) := by
  decide +kernel

def menu_keywords : List Keyword := [Keyword.default, .prompt, .timeout] ++ target_keywords

def menu_value (db_keyword : Keywords) (default_entry : Option Nat) : Keywords := fun key =>
  if key = .default then default_entry.map fun i => decimal (i + 1) else db_keyword key

section
variable {db_keyword : Keywords} {default_entry : Option Nat} {entry : List (List UInt8)} {scan : List Token}

theorem new_menu_body : (new_menu db_keyword default_entry entry).body =
    (menu_keywords.filterMap fun key =>
      (menu_value db_keyword default_entry key).map (.keyword_assignment 0 key)) ++
      entry.mapIdx fun i name => Token.number_assignment 0 ((0 + i : Nat) + 1) name := by
  have htargets : scan_append_target_keywords db_keyword = target_keywords.filterMap fun key =>
      (menu_value db_keyword default_entry key).map (.keyword_assignment 0 key) := rfl
  have hentries : scan_append_entries entry = entry.mapIdx fun i name =>
    Token.number_assignment 0 ((0 + i : Nat) + 1) name := by
    simp only [Nat.zero_add]
    rfl
  have hdefault : append_default default_entry =
      ((menu_value db_keyword default_entry .default).map (Token.keyword_assignment 0 .default)).toList := by
    show _ = ((default_entry.map fun i => decimal (i + 1)).map (Token.keyword_assignment 0 .default)).toList
    rw [Option.map_map]
    rfl
  have hthree : ∀ a b c : Option Token, a.toList ++ b.toList ++ c.toList = [a, b, c].filterMap id := by
    intro a b c
    cases a <;> cases b <;> cases c <;> rfl
  show append_default default_entry ++ scan_append_keyword db_keyword .prompt ++
    scan_append_keyword db_keyword .timeout ++
    scan_append_target_keywords db_keyword ++ scan_append_entries entry = _
  rw [hdefault, scan_append_keyword, scan_append_keyword, hthree, htargets, hentries, menu_keywords,
    List.filterMap_append]
  rfl

theorem new_menu_data (hfull : entry.length ≤ BOOT_MENU_ENTRIES) : ∃ d,
    (new_menu db_keyword default_entry entry).body.foldlM (store_token SCAN_AUTOMENU_NAME true) .initial = .ok d ∧
      (∀ key, d.keyword key = if key ∈ menu_keywords then menu_value db_keyword default_entry key else none) ∧
      ∀ j, d.num j = entry[j]? := by
  obtain ⟨d₁, hrun, hnum, hkeys⟩ := @foldlM_keywords SCAN_AUTOMENU_NAME true
    (menu_value db_keyword default_entry) menu_keywords .initial (by decide) fun key _ => rfl
  obtain ⟨d₂, hrun', hkeyword, hnum'⟩ := @foldlM_entries SCAN_AUTOMENU_NAME entry 0 d₁
    (by omega) fun j _ => by rw [hnum]; rfl
  refine ⟨d₂, ?_, fun key => by rw [hkeyword, hkeys]; rfl, fun j => ?_⟩
  · rw [new_menu_body, List.foldlM_append, hrun]
    exact hrun'
  · rw [hnum', if_pos (Nat.zero_le j), Nat.sub_zero]

theorem new_menu_ok (hfull : entry.length ≤ BOOT_MENU_ENTRIES) (hentry : entry ≠ [])
    (hfind : ∀ name ∈ entry, scan_find_section name .section_heading scan ≠ none)
    (hdefault : IsDefault (db_keyword .default) entry default_entry) (htarget : db_keyword .target ≠ none)
    (herror : target_error db_keyword = none) (hprompt : PromptOk (db_keyword .prompt))
    (htimeout : TimeoutOk (db_keyword .timeout)) :
    ∃ r, (new_menu db_keyword default_entry entry).check scan (flat [] ++ []) = .ok r := by
  obtain ⟨d, hdata, hkeys, hnum⟩ := @new_menu_data db_keyword default_entry entry hfull
  have hvalue : ∀ key ∈ menu_keywords, key ≠ .default → d.keyword key = db_keyword key := fun key hkey hne => by
    rw [hkeys, if_pos hkey, menu_value, if_neg hne]
  refine (check_menu_ok (new_menu db_keyword default_entry entry).plain (delimited_flat [] ended_nil)).mpr
    ⟨(find_eq_none ended_nil).mpr fun s hs => (by cases hs), d, hdata, ?_⟩
  refine ⟨fun key hreq => ?_, fun key hinv => ?_, ?_, ?_, ?_, fun i _ => ?_, ?_, ?_⟩
  · have hkey : key = .target := by
      revert hreq
      cases key <;> decide
    rw [hkey, hvalue .target (by decide) (by decide)]
    exact htarget
  · have hkey : key ∉ menu_keywords := by
      revert hinv
      cases key <;> decide
    rw [hkeys, if_neg hkey]
  · have hkeyword : d.keyword .default = default_entry.map fun i => decimal (i + 1) := hkeys .default
    rw [check_default, hkeyword]
    cases default_entry with
    | none => rfl
    | some i =>
      obtain ⟨name, -, hi, -⟩ := hdefault
      have hlt : i < entry.length := (List.getElem?_eq_some_iff.mp hi).1
      have hpos : ((i + 1 : Nat) : Int).toNat - 1 = i := by omega
      have hsome : ¬d.num i = none := by
        rw [hnum, hi]
        exact fun h => by cases h
      dsimp only [Option.map_some]
      rw [sscanf_decimal (i + 1) (by omega)]
      dsimp only
      rw [if_neg (by omega), if_neg (by omega), hpos, if_neg hsome]
      rfl
  · rw [check_prompt, hvalue .prompt (by decide) (by decide)]
    cases htext : db_keyword .prompt with
    | none => rfl
    | some text =>
      dsimp only
      rcases hprompt text htext with hnumber | hnumber
      · rw [hnumber]
        rfl
      · rw [hnumber]
        rfl
  · rw [check_timeout, hvalue .timeout (by decide) (by decide)]
    cases htext : db_keyword .timeout with
    | none => rfl
    | some text =>
      obtain ⟨number, hnumber, hpos⟩ := htimeout text htext
      dsimp only
      rw [hnumber]
      dsimp only
      rw [if_neg (by omega)]
      rfl
  · unfold check_number
    rw [hnum]
    cases hname : entry[i]? with
    | none => rfl
    | some name =>
      dsimp only
      rw [if_neg (hfind name (List.mem_of_getElem? hname))]
      rfl
  · refine ⟨0, by decide, ?_⟩
    rw [hnum, List.getElem?_eq_getElem (List.length_pos_iff.mpr hentry)]
    exact fun h => by cases h
  · rw [target_error_congr fun key hkey => hvalue key (List.mem_append_right _ hkey) fun h => by
      rw [h] at hkey
      exact absurd hkey (by decide)]
    exact herror

theorem new_defaultboot_ok {secs : List Section} (h : ∀ s ∈ secs, s.type = .menu_heading) :
    ∃ r, new_defaultboot.check scan (flat secs ++ []) = .ok r := by
  refine (check_section_ok new_defaultboot.plain (delimited_flat secs ended_nil)).mpr
    ⟨(find_eq_none ended_nil).mpr fun s hs hmatch => ?_, ?_⟩
  · rw [h s hs] at hmatch
    cases hmatch.1
  · obtain ⟨d, hdata, -⟩ := @foldlM_keywords DEFAULTBOOT_SECTION false
      (fun _ => some SCAN_AUTOMENU_NAME) [.defaultmenu] .initial (by decide) fun key _ => rfl
    exact ⟨d, hdata, fun hne => absurd rfl hne⟩

end

/-! ## The whole file -/

section
variable {scan out : List Token} {secs : List Section} {tail : List Token}

theorem defaultboot_type_target {keyword : Keywords} {line : Keyword → Nat} {section_line : Nat}
    (h : scan_get_defaultboot_type keyword line section_line = .ok .default_auto) : keyword .target ≠ none := by
  intro htarget
  rw [scan_get_defaultboot_type] at h
  dsimp only at h
  rw [htarget] at h
  split_ifs at h
  all_goals cases h
  all_goals contradiction

/-- What the check of `defaultboot` says before an automatic menu is built. -/
theorem defaultboot_found (htail : Ended tail) (h : scan_check_defaultboot (flat secs ++ tail) = .ok true) :
    ∃ before d after, secs = before ++ d :: after ∧ d.is_defaultboot = true ∧
      (∀ s ∈ before ++ after, s.is_defaultboot = false) ∧
      scan_find_section DEFAULTBOOT_SECTION .section_heading (flat secs ++ tail) =
        some (d.line, d.body ++ (flat after ++ tail)) ∧
      (∃ data, d.body.foldlM (store_token DEFAULTBOOT_SECTION false) .initial = .ok data) ∧
      d.value .target ≠ none ∧ target_error d.value = none := by
  rw [scan_check_defaultboot] at h
  cases hfind : scan_find_section DEFAULTBOOT_SECTION .section_heading (flat secs ++ tail) with
  | none =>
    rw [hfind] at h
    cases h
  | some found =>
    rw [hfind] at h
    obtain ⟨before, d, after, rfl, hbefore, htype, hname, rfl⟩ := find_eq_some htail hfind
    dsimp only at h
    rw [find_plain d.plain] at h
    cases hagain : scan_find_section DEFAULTBOOT_SECTION .section_heading (flat after ++ tail) with
    | some again =>
      rw [hagain] at h
      cases h
    | none =>
      rw [hagain, get_keywords_eq d.plain (delimited_flat after htail)] at h
      have hothers : ∀ s ∈ before ++ after, s.is_defaultboot = false := fun s hs => by
        refine Bool.eq_false_iff.mpr fun hdb => ?_
        rw [Section.is_defaultboot, Bool.and_eq_true, decide_eq_true_eq, decide_eq_true_eq] at hdb
        rcases List.mem_append.mp hs with hs | hs
        · exact hbefore s hs ⟨hdb.1.symm, hdb.2⟩
        · exact (find_eq_none htail).mp hagain s hs ⟨hdb.1.symm, hdb.2⟩
      have hself : d.is_defaultboot = true := by
        rw [Section.is_defaultboot, ← htype, hname]
        decide
      cases hdata : d.body.foldlM (store_token DEFAULTBOOT_SECTION false) .initial with
      | error e =>
        rw [hdata] at h
        cases h
      | ok data =>
        rw [hdata] at h
        obtain ⟨found, hfound, h⟩ := Run.bind_eq_ok h
        cases hfound
        have hvalue : data.keyword = d.value := by
          rw [← hname] at hdata
          exact section_value hdata
        dsimp only at h
        rw [hvalue] at h
        refine ⟨before, d, after, rfl, hself, hothers, rfl, ⟨data, hdata⟩, ?_⟩
        split at h
        · obtain ⟨_, hthrow, _⟩ := Run.bind_eq_ok h
          cases hthrow
        · obtain ⟨type, hboot, h⟩ := Run.bind_eq_ok h
          split at h
          · rename_i hauto
            obtain ⟨_, htarget, h⟩ := Run.bind_eq_ok h
            rw [hauto.1] at hboot
            exact ⟨defaultboot_type_target hboot, target_data_ok.1 htarget⟩
          · rename_i hauto
            obtain ⟨-, -, h⟩ := Run.bind_eq_ok h
            have htype : type = .default_auto := of_decide_eq_true (Except.ok.inj h)
            rw [htype] at hboot
            have htarget := defaultboot_type_target hboot
            refine absurd ⟨htype, Nat.pos_of_ne_zero fun hzero => ?_⟩ hauto
            exact htarget (count_eq_zero.1 hzero .target List.mem_cons_self)

theorem loop_front {db_keyword : Keywords} {st st' : Automenu} {front rest : List Token}
    (hfront : ∀ t ∈ front, scan_is_delimiter t = false)
      (h : automenu_loop db_keyword st (front ++ rest) = .ok st') :
    front = [] := by
  cases front with
  | nil => rfl
  | cons t front =>
    have ht := hfront t List.mem_cons_self
    rw [List.cons_append] at h
    cases t with
    | empty => cases ht
    | section_heading line name => cases ht
    | menu_heading line name => cases ht
    | keyword_assignment line keyword value =>
      unfold automenu_loop at h
      cases h
    | number_assignment line number value =>
      unfold automenu_loop at h
      cases h
    | keyword_only line keyword =>
      unfold automenu_loop at h
      cases h

theorem scan_check_new {db_keyword : Keywords} {new all : List Section} {default_entry : Option Nat}
    (htail : Ended tail)
    (hnew : new = [new_defaultboot, new_menu db_keyword default_entry (entries all)])
    (hout : out = flat (new_sections db_keyword all new) ++ []) (hscan : scan = flat all ++ tail)
    (htarget : db_keyword .target ≠ none) (herror : target_error db_keyword = none)
    (hmenu : ∃ r, (new_menu db_keyword default_entry (entries all)).check out (flat [] ++ []) = .ok r) :
    ∀ secs, Accepted scan secs tail → (∀ s ∈ secs, s.type = .menu_heading → s.name ≠ SCAN_AUTOMENU_NAME) →
      scan_check_from out (flat (new_sections db_keyword secs new) ++ []) = .ok ()
  | [], _, _ => by
    obtain ⟨r, hr⟩ := hmenu
    obtain ⟨r', hr'⟩ := @new_defaultboot_ok out
      [new_menu db_keyword default_entry (entries all)] fun s hs => by
        rw [List.mem_singleton.mp hs]
        rfl
    have hsplit : flat (new_sections db_keyword [] new) ++ [] = new_defaultboot.heading :: (new_defaultboot.body ++
        (flat [new_menu db_keyword default_entry (entries all)] ++ [])) := by
      rw [hnew]
      rfl
    have hsplit' : flat [new_menu db_keyword default_entry (entries all)] ++ [] =
        (new_menu db_keyword default_entry (entries all)).heading ::
          ((new_menu db_keyword default_entry (entries all)).body ++ (flat [] ++ [])) := by
      rw [flat_cons, List.cons_append, List.append_assoc]
    rw [hsplit, scan_check_section (delimited_flat _ ended_nil) hr', hsplit',
      scan_check_section (delimited_flat _ ended_nil) hr]
    show scan_check_from out [] = _
    rw [scan_check_from]
    rfl
  | s :: secs, haccepted, hmenus => by
    have ih := scan_check_new htail hnew hout hscan htarget herror hmenu secs
      (fun before s' after hsplit => haccepted (s :: before) s' after (by rw [hsplit]; rfl))
      fun s' hs' => hmenus s' (List.mem_cons_of_mem s hs')
    cases hs : s.is_defaultboot with
    | true =>
      rw [new_sections, kept_cons_skip hs]
      exact ih
    | false =>
      have hchecked := haccepted [] s secs rfl hs
      have hcompleted : ∃ r, (s.completed db_keyword).check out
        (flat (new_sections db_keyword secs new) ++ []) = .ok r := by
        cases htype : s.type with
        | section_heading =>
          refine check_completed_section htail htarget herror htype hs (fun s' hs' htype' => ?_) hchecked
          rw [hnew] at hs'
          rcases List.mem_cons.mp hs' with rfl | hs'
          · rfl
          · rw [List.mem_singleton.mp hs'] at htype'
            cases htype'
        | menu_heading =>
          have hname := hmenus s List.mem_cons_self htype
          refine check_completed_menu htail htype hout hscan ⟨new_defaultboot, ?_, rfl,
            rfl⟩ (fun s' hs' htype' => ?_)
            hchecked
          · rw [hnew]
            exact List.mem_cons_self
          · rw [hnew] at hs'
            rcases List.mem_cons.mp hs' with rfl | hs'
            · cases htype'
            · rw [List.mem_singleton.mp hs']
              exact hname.symm
      obtain ⟨r, hr⟩ := hcompleted
      have hsplit : flat (new_sections db_keyword (s :: secs) new) ++ [] = (s.completed db_keyword).heading ::
          ((s.completed db_keyword).body ++ (flat (new_sections db_keyword secs new) ++ [])) := by
        rw [new_sections, kept_cons_keep hs, List.map_cons, List.cons_append, flat_cons, List.cons_append,
          List.append_assoc]
        rfl
      rw [hsplit, scan_check_section (delimited_flat _ ended_nil) hr]
      exact ih

/-- For a file whose `defaultboot` asks for an automatic menu: the new array has room, keeps all other sections and
menus in order, ends with the new `defaultboot` and the menu of the IPL sections, and passes the checks. -/
theorem automenu_preserves (hcheck : scan_check_defaultboot scan = .ok true)
    (hbuild : scan_build_automenu scan = .ok out) :
    ∃ (secs : List Section) (d : Section) (tail : List Token) (default_entry : Option Nat),
      scan = flat secs ++ tail ∧ Ended tail ∧ secs.filter Section.is_defaultboot = [d] ∧
      IsDefault (d.value .default) (entries secs) default_entry ∧
      out = flat ((kept secs).map (Section.completed d.value) ++
        [new_defaultboot, new_menu d.value default_entry (entries secs)]) ∧
      out.length + 1 ≤ automenu_size scan d.value ∧
      (Accepted scan secs tail → PromptOk (d.value .prompt) → TimeoutOk (d.value .timeout) →
        scan_check out = .ok ()) := by
  obtain ⟨front, secs, tail, rfl, hfront, htail⟩ := exists_sections scan
  rw [scan_build_automenu] at hbuild
  obtain ⟨db_keyword, hkeywords, hafter⟩ := Run.bind_eq_ok hbuild
  obtain ⟨st, hloop, hresult⟩ := Run.bind_eq_ok hafter
  clear hbuild hafter
  dsimp only at hresult
  rw [List.append_assoc] at hloop
  have hnil := loop_front hfront hloop
  subst hnil
  rw [List.nil_append] at hloop hcheck hkeywords ⊢
  obtain ⟨before, d, after, hsecs, hself, hothers, hfind, ⟨data, hdata⟩, htarget, herror⟩ :=
    defaultboot_found htail hcheck
  have hname : d.name = DEFAULTBOOT_SECTION := by
    rw [Section.is_defaultboot, Bool.and_eq_true, decide_eq_true_eq, decide_eq_true_eq] at hself
    exact hself.2
  have hdb : db_keyword = d.value := by
    rw [scan_get_defaultboot_keywords, hfind, Option.map_some, Option.getD_some,
      get_keywords_eq d.plain (delimited_flat after htail), hdata] at hkeywords
    rw [← hname] at hdata
    rw [← section_value hdata]
    exact (Except.ok.inj hkeywords).symm
  subst hdb
  have hbuilt := automenu_loop_flat htail hloop
  have hentry : st.entry = entries secs := hbuilt.entry
  have hdefault : IsDefault (d.value .default) (entries secs) st.default_entry := by
    rw [← hentry]
    exact hbuilt.default_entry fun name _ hmem => by cases hmem
  have hne : entries secs ≠ [] := by
    intro hnil
    rw [hentry, if_pos hnil] at hresult
    cases hresult
  rw [hentry, if_neg hne] at hresult
  have hout : out = flat (new_sections d.value secs [new_defaultboot,
    new_menu d.value st.default_entry (entries secs)]) := by
    have hsum : out = st.new_scan ++ automenu_tail d.value st := (Except.ok.inj hresult).symm
    rw [hsum, hbuilt.new_scan, automenu_tail_eq, hentry, new_sections, flat_append]
    rfl
  refine ⟨secs, d, tail, st.default_entry, rfl, htail, ?_, hdefault, hout, ?_, fun haccepted hprompt htimeout => ?_⟩
  · have hnone : ∀ l : List Section, (∀ s ∈ l, s.is_defaultboot = false) → l.filter Section.is_defaultboot = [] :=
      fun l hl => List.filter_eq_nil_iff.mpr fun s hs => by rw [hl s hs]; exact Bool.false_ne_true
    rw [hsecs, List.filter_append, List.filter_cons, hself,
      hnone before fun s hs => hothers s (List.mem_append_left _ hs),
      hnone after fun s hs => hothers s (List.mem_append_right _ hs)]
    rfl
  · have hlength := automenu_length htail hbuilt
    have hsum : out = st.new_scan ++ automenu_tail d.value st := (Except.ok.inj hresult).symm
    rw [hsum]
    exact hlength
  · have hfull : (entries secs).length ≤ BOOT_MENU_ENTRIES := by
      rw [← hentry]
      exact hbuilt.full (Nat.zero_le _)
    have hout' : out = flat (new_sections d.value secs
        [new_defaultboot, new_menu d.value st.default_entry (entries secs)]) ++ [] := by rw [hout, List.append_nil]
    have hmenu : ∃ r, (new_menu d.value st.default_entry (entries secs)).check out (flat [] ++ []) = .ok r := by
      refine new_menu_ok hfull hne (fun name hmem hnone => ?_) hdefault htarget herror hprompt htimeout
      obtain ⟨s, hs, rfl⟩ := List.mem_map.mp hmem
      have hs := List.mem_filter.mp hs
      have htype : s.type = .section_heading := by
        have hipl := hs.2
        rw [Section.ipl, Bool.and_eq_true, decide_eq_true_eq] at hipl
        exact hipl.1
      rw [hout'] at hnone
      have hcompleted := completed_name d.value s
      exact (find_eq_none ended_nil).mp hnone (s.completed d.value)
        (List.mem_append_left _ (List.mem_map_of_mem hs.1)) ⟨htype.symm.trans hcompleted.1.symm, hcompleted.2⟩
    have hchecked := scan_check_new htail rfl hout' rfl htarget herror hmenu secs haccepted hbuilt.menus
    rw [← hout'] at hchecked
    exact hchecked

/-! ## A value that is copied unchecked -/

def bootFile (prompt : List UInt8) : List Token := [
  .section_heading 1 DEFAULTBOOT_SECTION, .keyword_assignment 2 .target (bytes "t"),
    .keyword_assignment 3 .prompt prompt,
  .section_heading 4 (bytes "a"), .keyword_assignment 5 .image (bytes "i")]

def bootMenu (prompt : List UInt8) : List Token := [
  .section_heading 4 (bytes "a"), .keyword_assignment 5 .image (bytes "i"),
    .keyword_assignment 0 .target (bytes "t"),
  .section_heading 0 DEFAULTBOOT_SECTION, .keyword_assignment 0 .defaultmenu SCAN_AUTOMENU_NAME,
  .menu_heading 0 SCAN_AUTOMENU_NAME, .keyword_assignment 0 .prompt prompt,
    .keyword_assignment 0 .target (bytes "t"),
  .number_assignment 0 1 (bytes "a")]

theorem automenu_preserves_boot : ∃ (secs : List Section) (d : Section) (tail : List Token)
    (default_entry : Option Nat),
    bootFile (bytes "1") = flat secs ++ tail ∧ Ended tail ∧ secs.filter Section.is_defaultboot = [d] ∧
      IsDefault (d.value .default) (entries secs) default_entry ∧
      bootMenu (bytes "1") = flat ((kept secs).map (Section.completed d.value) ++
        [new_defaultboot, new_menu d.value default_entry (entries secs)]) ∧
      (bootMenu (bytes "1")).length + 1 ≤ automenu_size (bootFile (bytes "1")) d.value ∧
      (Accepted (bootFile (bytes "1")) secs tail → PromptOk (d.value .prompt) → TimeoutOk (d.value .timeout) →
        scan_check (bootMenu (bytes "1")) = .ok ()) :=
  @automenu_preserves (bootFile (bytes "1")) (bootMenu (bytes "1")) (by decide +kernel) (by decide +kernel)

def bootSection : Section where
  type := .section_heading
  line := 4
  name := bytes "a"
  body := [.keyword_assignment 5 .image (bytes "i")]
  plain := by decide

def bootDefault (prompt : List UInt8) : Section where
  type := .section_heading
  line := 1
  name := DEFAULTBOOT_SECTION
  body := [.keyword_assignment 2 .target (bytes "t"), .keyword_assignment 3 .prompt prompt]
  plain := by
    intro t ht
    rcases List.mem_cons.mp ht with rfl | ht
    · rfl
    · rw [List.mem_singleton.mp ht]
      rfl

/-- The prompt of `defaultboot` is first checked in the menu it was copied to. -/
theorem prompt_not_checked : ¬∀ (scan out : List Token) (secs : List Section) (tail : List Token),
    scan_check_defaultboot scan = .ok true → scan_build_automenu scan = .ok out →
      scan = flat secs ++ tail → Ended tail →
      Accepted scan secs tail → scan_check out = .ok () := by
  intro h
  have hcheck : scan_check_defaultboot (bootFile (bytes "x")) = .ok true := by decide
  have hbuild : scan_build_automenu (bootFile (bytes "x")) = .ok (bootMenu (bytes "x")) := by decide +kernel
  have haccepted : Accepted (bootFile (bytes "x")) [bootDefault (bytes "x"), bootSection] [] := by
    intro before s after hsplit hs
    cases before with
    | nil =>
      cases hsplit
      exact absurd hs (by decide)
    | cons s₁ before =>
      cases before with
      | nil =>
        cases hsplit
        have hrun : (bootSection.with_target.check (bootFile (bytes "x")) (flat [] ++ [])).toBool =
          true := by decide
        cases hresult : bootSection.with_target.check (bootFile (bytes "x")) (flat [] ++ []) with
        | error e =>
          rw [hresult] at hrun
          cases hrun
        | ok r => exact ⟨r, rfl⟩
      | cons s₂ before =>
        cases before <;> cases hsplit
  have hmenu := h _ _ _ [] hcheck hbuild rfl rfl haccepted
  have hwrong : scan_check (bootMenu (bytes "x")) ≠ .ok () := by decide +kernel
  exact hwrong hmenu

end

end Zipl.Scan
