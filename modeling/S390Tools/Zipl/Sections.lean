import S390Tools.Lib.Run
import S390Tools.Zipl.Automenu

/-!
# Sections of zipl.conf

The tokens of a file as a list of sections, each with its heading and its assignments, and what the checks say
of one section.
-/

namespace Zipl.Scan

open CString Vtoc

structure Section where
  type : Heading
  line : Nat
  name : List UInt8
  body : List Token
  plain : ∀ t ∈ body, scan_is_delimiter t = false

namespace Section

def heading (s : Section) : Token :=
  match s.type with
  | .section_heading => .section_heading s.line s.name
  | .menu_heading => .menu_heading s.line s.name

def tokens (s : Section) : List Token := s.heading :: s.body

def append (s : Section) (ts : List Token) (hts : ∀ t ∈ ts, scan_is_delimiter t = false) : Section :=
  { s with
    body := s.body ++ ts
    plain := fun t ht => (List.mem_append.mp ht).elim (s.plain t) (hts t) }

end Section

def flat (secs : List Section) : List Token := secs.flatMap Section.tokens

/-- What stands behind the last section: nothing or an empty token. -/
def Ended (tail : List Token) : Prop := tail.head?.getD .empty = .empty

/-- A section may follow: the list ends or starts with a delimiter. -/
def Delimited (rest : List Token) : Prop := scan_is_delimiter (rest.head?.getD .empty) = true

section
variable {secs : List Section} {tail rest : List Token} {s : Section}

theorem flat_cons (s : Section) (secs : List Section) : flat (s :: secs) = s.heading :: (s.body ++ flat secs) :=
  List.flatMap_cons

theorem flat_append (as bs : List Section) : flat (as ++ bs) = flat as ++ flat bs := List.flatMap_append

theorem heading_delimiter (s : Section) : scan_is_delimiter s.heading = true := by
  rw [Section.heading]
  cases s.type <;> rfl

theorem ended_nil : Ended [] := rfl

theorem Ended.delimited (h : Ended tail) : Delimited tail := by rw [Delimited, h]; rfl

theorem delimited_flat (secs : List Section) (h : Ended tail) : Delimited (flat secs ++ tail) := by
  cases secs with
  | nil => exact h.delimited
  | cons s secs => exact heading_delimiter s

theorem takeWhile_plain {body : List Token} (hbody : ∀ t ∈ body, scan_is_delimiter t = false)
    (hrest : Delimited rest) :
    section_body (body ++ rest) = body ∧ section_end (body ++ rest) = rest := by
  have hall : ∀ t ∈ body, (!scan_is_delimiter t) = true := fun t ht => by rw [hbody t ht]; rfl
  rw [section_body, section_end, List.takeWhile_append_of_pos hall, List.dropWhile_append_of_pos hall]
  cases rest with
  | nil => exact ⟨List.append_nil body, rfl⟩
  | cons t rest =>
    have ht : scan_is_delimiter t = true := hrest
    rw [List.takeWhile_cons, List.dropWhile_cons, ht]
    exact ⟨List.append_nil body, rfl⟩

theorem exists_sections : ∀ ts : List Token, ∃ (front : List Token) (secs : List Section) (tail : List Token),
    ts = front ++ flat secs ++ tail ∧ (∀ t ∈ front, scan_is_delimiter t = false) ∧ Ended tail
  | [] => ⟨[], [], [], rfl, (fun t ht => by cases ht), rfl⟩
  | t :: ts => by
    obtain ⟨front, secs, tail, rfl, hfront, htail⟩ := exists_sections ts
    by_cases ht : scan_is_delimiter t = true
    · cases t with
      | empty => exact ⟨[], [], .empty :: (front ++ flat secs ++ tail), rfl, (fun t ht => by cases ht), rfl⟩
      | section_heading line name =>
        refine ⟨[], ⟨.section_heading, line, name, front, hfront⟩ :: secs, tail, ?_,
          (fun t ht => by cases ht), htail⟩
        rw [flat_cons]
        rfl
      | menu_heading line name =>
        refine ⟨[], ⟨.menu_heading, line, name, front, hfront⟩ :: secs, tail, ?_, (fun t ht => by cases ht), htail⟩
        rw [flat_cons]
        rfl
      | keyword_assignment line keyword value => cases ht
      | number_assignment line number value => cases ht
      | keyword_only line keyword => cases ht
    · refine ⟨t :: front, secs, tail, rfl, fun t' ht' => ?_, htail⟩
      rcases List.mem_cons.mp ht' with rfl | ht'
      · exact Bool.eq_false_iff.mpr ht
      · exact hfront t' ht'

/-! ## Headings -/

theorem find_plain {name : List UInt8} {type : Heading} {body : List Token}
    (hbody : ∀ t ∈ body, scan_is_delimiter t = false) :
    scan_find_section name type (body ++ rest) = scan_find_section name type rest := by
  induction body with
  | nil => rfl
  | cons t body ih =>
    have ht := hbody t List.mem_cons_self
    have ih := ih fun t' ht' => hbody t' (List.mem_cons_of_mem t ht')
    cases t with
    | empty => cases ht
    | section_heading line name => cases ht
    | menu_heading line name => cases ht
    | keyword_assignment line keyword value => exact ih
    | number_assignment line number value => exact ih
    | keyword_only line keyword => exact ih

theorem find_cons {name : List UInt8} {type : Heading} : scan_find_section name type (flat (s :: secs) ++ tail) =
    if type = s.type ∧ s.name = name then some (s.line, s.body ++ (flat secs ++ tail))
    else scan_find_section name type (flat secs ++ tail) := by
  rw [flat_cons, List.cons_append, List.append_assoc]
  have hplain := @find_plain (flat secs ++ tail) name type s.body s.plain
  obtain ⟨t, line, n, body, plain⟩ := s
  cases t with
  | section_heading =>
    show scan_find_section name type (.section_heading line n :: _) = _
    rw [scan_find_section, hplain]
  | menu_heading =>
    show scan_find_section name type (.menu_heading line n :: _) = _
    rw [scan_find_section, hplain]

theorem find_ended {name : List UInt8} {type : Heading} (h : Ended tail) :
    scan_find_section name type tail = none := by
  cases tail with
  | nil => rfl
  | cons t tail =>
    have ht : t = .empty := h
    rw [ht, scan_find_section]

theorem find_eq_none {name : List UInt8} {type : Heading} (h : Ended tail) :
    scan_find_section name type (flat secs ++ tail) = none ↔ ∀ s ∈ secs, ¬(type = s.type ∧ s.name = name) := by
  induction secs with
  | nil => exact ⟨fun _ s hs => (by cases hs), fun _ => find_ended h⟩
  | cons s secs ih =>
    rw [find_cons, List.forall_mem_cons]
    by_cases hs : type = s.type ∧ s.name = name
    · rw [if_pos hs]
      exact ⟨fun hnone => (by cases hnone), fun hall => absurd hs hall.1⟩
    · rw [if_neg hs, ih]
      exact ⟨fun hall => ⟨hs, hall⟩, fun hall => hall.2⟩

theorem find_eq_some {name : List UInt8} {type : Heading} {found : Nat × List Token} (h : Ended tail)
    (hfind : scan_find_section name type (flat secs ++ tail) = some found) :
    ∃ (before : List Section) (s : Section) (after : List Section), secs = before ++ s :: after ∧
      (∀ s' ∈ before, ¬(type = s'.type ∧ s'.name = name)) ∧
        type = s.type ∧ s.name = name ∧
        found = (s.line, s.body ++ (flat after ++ tail)) := by
  induction secs with
  | nil =>
    rw [show flat [] ++ tail = tail from rfl, find_ended h] at hfind
    cases hfind
  | cons s secs ih =>
    rw [find_cons] at hfind
    by_cases hs : type = s.type ∧ s.name = name
    · rw [if_pos hs] at hfind
      cases hfind
      exact ⟨[], s, secs, rfl, (fun s' hs' => by cases hs'), hs.1, hs.2, rfl⟩
    · rw [if_neg hs] at hfind
      obtain ⟨before, s', after, rfl, hbefore, hrest⟩ := ih hfind
      refine ⟨s :: before, s', after, rfl, fun s'' hs'' => ?_, hrest⟩
      rcases List.mem_cons.mp hs'' with rfl | hs''
      · exact hs
      · exact hbefore s'' hs''

end

/-! ## Assignments -/

def Token.value (key : Keyword) : Token → Option (List UInt8)
  | .keyword_assignment _ key' value => if key' = key then some value else none
  | .keyword_only _ key' => if key' = key then some [] else none
  | _ => none

def Section.value (s : Section) : Keywords := fun key => s.body.findSome? (Token.value key)

section
variable {name : List UInt8} {num : Bool} {d d' : SectionData} {body rest : List Token}

theorem get_keywords_eq (hbody : ∀ t ∈ body, scan_is_delimiter t = false) (hrest : Delimited rest) :
    scan_get_section_keywords name num d (body ++ rest) =
      (body.foldlM (store_token name num) d).map fun d' => (d', rest) := by
  induction body generalizing d with
  | nil =>
    cases rest with
    | nil => rfl
    | cons t rest =>
      have ht : scan_is_delimiter t = true := hrest
      rw [List.nil_append, scan_get_section_keywords, if_pos ht]
      rfl
  | cons t body ih =>
    have ht : ¬scan_is_delimiter t = true := by
      rw [hbody t List.mem_cons_self]
      exact Bool.false_ne_true
    rw [List.cons_append, scan_get_section_keywords, if_neg ht, List.foldlM_cons]
    cases store_token name num d t with
    | error e => rfl
    | ok d' => exact ih fun t' ht' => hbody t' (List.mem_cons_of_mem t ht')

theorem store_keyword_ok {line : Nat} {key : Keyword} {value : List UInt8}
    (h : store_keyword d line key value = .ok d') : d.keyword key = none ∧ d' = { d with
      keyword := Function.update d.keyword key (some value)
      keyword_line := Function.update d.keyword_line key line } := by
  rw [store_keyword] at h
  by_cases hkey : d.keyword key = none
  · rw [if_neg fun hne => hne hkey] at h
    cases h
    exact ⟨hkey, rfl⟩
  · rw [if_pos hkey] at h
    cases h

theorem store_number_keyword {line : Nat} {number : Int} {value : List UInt8}
    (h : store_number name num d line number value = .ok d') : num = true ∧ d'.keyword = d.keyword := by
  rw [store_number] at h
  split_ifs at h with hnum
  cases h
  exact ⟨by simpa using hnum, rfl⟩

theorem store_token_value {t : Token} (h : store_token name num d t = .ok d') (key : Keyword) :
    d'.keyword key = (d.keyword key).or (t.value key) := by
  have hkeyword : ∀ {line : Nat} {key' : Keyword} {value : List UInt8}, store_keyword d line key' value = .ok d' →
      d'.keyword key = (d.keyword key).or (if key' = key then some value else none) := by
    intro line key' value h
    obtain ⟨hnone, rfl⟩ := store_keyword_ok h
    by_cases hkey : key' = key
    · subst hkey
      rw [if_pos rfl, hnone]
      exact Function.update_self ..
    · rw [if_neg hkey, Option.or_none]
      exact Function.update_of_ne (Ne.symm hkey) ..
  have hnone : d' = d → d'.keyword key = (d.keyword key).or none := fun h => by rw [h, Option.or_none]
  cases t with
  | empty =>
    cases h
    exact hnone rfl
  | section_heading line name =>
    cases h
    exact hnone rfl
  | menu_heading line name =>
    cases h
    exact hnone rfl
  | keyword_assignment line key' value => exact hkeyword h
  | keyword_only line key' => exact hkeyword h
  | number_assignment line number value =>
    show d'.keyword key = (d.keyword key).or none
    rw [(store_number_keyword h).2, Option.or_none]

theorem foldlM_value (h : body.foldlM (store_token name num) d = .ok d') (key : Keyword) :
    d'.keyword key = (d.keyword key).or (body.findSome? (Token.value key)) := by
  induction body generalizing d with
  | nil =>
    cases h
    exact (Option.or_none).symm
  | cons t body ih =>
    rw [List.foldlM_cons] at h
    obtain ⟨d₁, h₁, h⟩ := Run.bind_eq_ok h
    rw [ih h, store_token_value h₁ key, Option.or_assoc, List.findSome?_cons]
    cases t.value key <;> rfl

theorem foldlM_keywords (keyword : Keywords) : ∀ {keys : List Keyword} {d : SectionData}, keys.Nodup →
    (∀ key ∈ keys, d.keyword key = none) → ∃ d',
      (keys.filterMap fun key => (keyword key).map (Token.keyword_assignment 0 key)).foldlM
        (store_token name num) d =
        .ok d' ∧ d'.num = d.num ∧ ∀ key, d'.keyword key = if key ∈ keys then keyword key else d.keyword key
  | [], d, _, _ => ⟨d, rfl, rfl, fun key => by rw [if_neg List.not_mem_nil]⟩
  | key :: keys, d, hnodup, hnone => by
    have hkeys := List.nodup_cons.mp hnodup
    cases hvalue : keyword key with
    | none =>
      obtain ⟨d', hrun, hnum, hd'⟩ := foldlM_keywords keyword hkeys.2 fun key' hkey' =>
        hnone key' (List.mem_cons_of_mem key hkey')
      refine ⟨d', ?_, hnum, fun key' => ?_⟩
      · rw [List.filterMap_cons, hvalue]
        exact hrun
      · rw [hd']
        by_cases hself : key' = key
        · rw [hself, if_neg hkeys.1, if_pos List.mem_cons_self, hvalue]
          exact hnone key List.mem_cons_self
        · simp only [List.mem_cons, hself, false_or]
    | some value =>
      have hstore : store_keyword d 0 key value = .ok { d with
          keyword := Function.update d.keyword key (some value)
          keyword_line := Function.update d.keyword_line key 0 } := by
        rw [store_keyword, if_neg fun hne => hne (hnone key List.mem_cons_self)]
        rfl
      obtain ⟨d', hrun, hnum, hd'⟩ := foldlM_keywords (d := { d with
          keyword := Function.update d.keyword key (some value)
          keyword_line := Function.update d.keyword_line key 0 }) keyword hkeys.2 fun key' hkey' => by
        have hne : key' ≠ key := fun heq => hkeys.1 (heq ▸ hkey')
        exact (Function.update_of_ne hne ..).trans (hnone key' (List.mem_cons_of_mem key hkey'))
      refine ⟨d', ?_, hnum, fun key' => ?_⟩
      · rw [List.filterMap_cons, hvalue]
        show (Token.keyword_assignment 0 key value :: _).foldlM _ d = _
        rw [List.foldlM_cons]
        show (store_keyword d 0 key value >>= _) = _
        rw [hstore]
        exact hrun
      · rw [hd']
        by_cases hself : key' = key
        · rw [hself, if_neg hkeys.1, if_pos List.mem_cons_self, hvalue]
          exact Function.update_self ..
        · have hupdate : Function.update d.keyword key (some value) key' = d.keyword key' :=
            Function.update_of_ne hself ..
          simp only [List.mem_cons, hself, false_or, hupdate]

/-- The entries of the automatic menu from position `k` on. -/
theorem foldlM_entries : ∀ {entry : List (List UInt8)} {k : Nat} {d : SectionData},
    k + entry.length ≤ BOOT_MENU_ENTRIES →
    (∀ j, k ≤ j → d.num j = none) → ∃ d',
      (entry.mapIdx fun i name => Token.number_assignment 0 ((k + i : Nat) + 1) name).foldlM
        (store_token name true) d =
        .ok d' ∧ d'.keyword = d.keyword ∧ ∀ j, d'.num j = if k ≤ j then entry[j - k]? else d.num j
  | [], k, d, _, hnone => ⟨d, rfl, rfl, fun j => by
      split
      · exact hnone j ‹_›
      · rfl⟩
  | value :: entry, k, d, hle, hnone => by
    rw [List.length_cons] at hle
    have hstore : store_number name true d 0 ((k + 0 : Nat) + 1) value = .ok { d with
        num := Function.update d.num k (some value)
        num_line := Function.update d.num_line k 0 } := by
      have hpos : ((k + 0 : Nat) + 1 : Int).toNat - 1 = k := by omega
      rw [store_number, if_neg (by decide), if_neg (by omega), if_neg (by omega), hpos,
        if_neg fun hne => hne (hnone k (Nat.le_refl k))]
      rfl
    obtain ⟨d', hrun, hkeyword, hnum⟩ := @foldlM_entries entry (k + 1) { d with
        num := Function.update d.num k (some value)
        num_line := Function.update d.num_line k 0 } (by omega) fun j hj => by
      have hne : j ≠ k := by omega
      exact (Function.update_of_ne hne ..).trans (hnone j (by omega))
    refine ⟨d', ?_, hkeyword, fun j => ?_⟩
    · have hshift : (fun i name => Token.number_assignment 0 ((k + (i + 1) : Nat) + 1) name) =
          fun i name => Token.number_assignment 0 ((k + 1 + i : Nat) + 1) name := by
        funext i name
        rw [Nat.add_right_comm, Nat.add_assoc]
      rw [List.mapIdx_cons, List.foldlM_cons, hshift]
      show (store_number name true d 0 ((k + 0 : Nat) + 1) value >>= _) = _
      rw [hstore]
      exact hrun
    · rw [hnum]
      rcases Nat.lt_trichotomy j k with hj | rfl | hj
      · rw [if_neg (by omega), if_neg (by omega)]
        exact Function.update_of_ne (by omega) ..
      · rw [if_neg (by omega), if_pos (Nat.le_refl j), Nat.sub_self]
        exact Function.update_self ..
      · have hindex : j - k = j - (k + 1) + 1 := by omega
        rw [if_pos (by omega), if_pos (by omega), hindex, List.getElem?_cons_succ]

end

/-! ## What the checks require -/

section

theorem ok_bind {α β : Type} {x : Check α} {f : α → Check β} :
    (∃ b, (x >>= f) = .ok b) ↔ ∃ a, x = .ok a ∧ ∃ b, f a = .ok b := by
  constructor
  · rintro ⟨b, h⟩
    obtain ⟨a, ha, hb⟩ := Run.bind_eq_ok h
    exact ⟨a, ha, b, hb⟩
  · rintro ⟨a, rfl, b, hb⟩
    exact ⟨b, hb⟩

theorem ok_seq {β : Type} {x : Check Unit} {y : Check β} :
    (∃ b, (x >>= fun _ => y) = .ok b) ↔ x = .ok () ∧ ∃ b, y = .ok b :=
  ok_bind.trans ⟨fun ⟨_, ha, hb⟩ => ⟨ha, hb⟩, fun ⟨ha, hb⟩ => ⟨(), ha, hb⟩⟩

theorem forM_ok {α : Type} {f : α → Check Unit} : ∀ {l : List α}, l.forM f = .ok () ↔ ∀ a ∈ l, f a = .ok ()
  | [] => ⟨fun _ a ha => (by cases ha), fun _ => rfl⟩
  | a :: l => by
    have hseq : (a :: l).forM f = (f a >>= fun _ => l.forM f) := rfl
    rw [List.forall_mem_cons, ← forM_ok (l := l), hseq]
    cases f a with
    | error e => exact ⟨fun h => (by cases h), fun h => (by cases h.1)⟩
    | ok u => exact ⟨fun h => ⟨rfl, h⟩, fun h => h.2⟩

theorem Keyword.mem_all (key : Keyword) : key ∈ Keyword.all := by cases key <;> decide

/-- The rules for the keywords of a section other than `defaultboot`. -/
structure SectionOk (keyword : Keywords) (type : SectionType) : Prop where
  type_eq : scan_get_section_type keyword = some type
  not_dumpfs : type ≠ .dumpfs
  req : ∀ key, key_state (scan_key_table type) key = .req → keyword key ≠ none
  inv : ∀ key, key_state (scan_key_table type) key = .inv → keyword key = none
  address : ∀ value, keyword .segment = some value → contains_address value = true

section
variable {keyword : Keywords} {line : Option (Keyword → Nat)} {name : List UInt8} {section_line : Nat}

theorem check_keyword_ok {type : SectionType} {main_keyword : List UInt8} {key : Keyword} :
    check_keyword keyword line name section_line type main_keyword key = .ok () ↔
      (key_state (scan_key_table type) key = .req → keyword key ≠ none) ∧
        (key_state (scan_key_table type) key = .inv → keyword key = none) := by
  unfold check_keyword
  cases key_state (scan_key_table type) key with
  | req =>
    dsimp only
    by_cases hkey : keyword key = none
    · rw [if_pos hkey]
      exact ⟨fun h => (by cases h), fun h => absurd hkey (h.1 rfl)⟩
    · rw [if_neg hkey]
      exact ⟨fun _ => ⟨fun _ => hkey, fun h => (by cases h)⟩, fun _ => rfl⟩
  | inv =>
    dsimp only
    by_cases hkey : keyword key = none
    · rw [if_neg fun hne => hne hkey]
      exact ⟨fun _ => ⟨fun h => (by cases h), fun _ => hkey⟩, fun _ => rfl⟩
    · rw [if_pos hkey]
      exact ⟨fun h => (by cases h), fun h => absurd (h.2 rfl) hkey⟩
  | opt => exact ⟨fun _ => ⟨fun h => (by cases h), fun h => (by cases h)⟩, fun _ => rfl⟩

theorem check_keywords_ok {type : SectionType} {main_keyword : List UInt8} :
    Keyword.all.forM (check_keyword keyword line name section_line type main_keyword) = .ok () ↔
      (∀ key, key_state (scan_key_table type) key = .req → keyword key ≠ none) ∧
        ∀ key, key_state (scan_key_table type) key = .inv → keyword key = none := by
  rw [forM_ok]
  exact ⟨fun h => ⟨fun key => (check_keyword_ok.1 (h key key.mem_all)).1,
    fun key => (check_keyword_ok.1 (h key key.mem_all)).2⟩, fun h key _ => check_keyword_ok.2 ⟨h.1 key, h.2 key⟩⟩

theorem find_section_type_ok {type : SectionType} {main_keyword : List UInt8} :
    find_section_type keyword name section_line none = .ok (type, main_keyword) →
      scan_get_section_type keyword = some type ∧ type ≠ .dumpfs := by
  intro h
  rw [find_section_type] at h
  rw [scan_get_section_type]
  split_ifs at h ⊢ with h₁ h₂ h₃ h₄ h₅ h₆
  all_goals
    cases h
    exact ⟨rfl, fun h => by cases h⟩

theorem find_section_type_some {type : SectionType} (h : scan_get_section_type keyword = some type)
    (hne : type ≠ .dumpfs) : ∃ main_keyword,
      find_section_type keyword name section_line none = .ok (type, main_keyword) := by
  rw [scan_get_section_type] at h
  rw [find_section_type]
  split_ifs at h ⊢ with h₁ h₂ h₃ h₄ h₅ h₆
  all_goals cases h
  all_goals first
    | exact ⟨_, rfl⟩
    | exact absurd rfl hne

theorem section_data_ok : (∃ type, scan_check_section_data keyword line name section_line none = .ok type) ↔
    ∃ type, SectionOk keyword type := by
  obtain ⟨text, hunfold⟩ : ∃ text, scan_check_section_data keyword line name section_line none =
      (find_section_type keyword name section_line none >>= fun found =>
        Keyword.all.forM (check_keyword keyword line name section_line found.1 found.2) >>= fun _ =>
          if (keyword .segment).any fun value => !contains_address value then
            throw text >>= fun _ => pure found.1
          else pure found.1) := ⟨_, rfl⟩
  rw [hunfold, ok_bind]
  have haddress : (¬((keyword .segment).any fun value => !contains_address value) = true) ↔
      ∀ value, keyword .segment = some value → contains_address value = true := by
    cases keyword .segment with
    | none => exact ⟨fun _ value h => (by cases h), fun _ h => (by cases h)⟩
    | some value =>
      rw [Option.any_some, Bool.not_eq_true', Bool.not_eq_false]
      exact ⟨fun h value' heq => (Option.some.inj heq) ▸ h, fun h => h value rfl⟩
  constructor
  · rintro ⟨⟨type, main_keyword⟩, htype, h⟩
    obtain ⟨hkeys, h⟩ := ok_seq.1 h
    obtain ⟨htype, hne⟩ := find_section_type_ok htype
    obtain ⟨hreq, hinv⟩ := check_keywords_ok.1 hkeys
    refine ⟨type, htype, hne, hreq, hinv, haddress.mp fun hno => ?_⟩
    rw [if_pos hno] at h
    obtain ⟨b, hb⟩ := h
    cases hb
  · rintro ⟨type, hok⟩
    obtain ⟨main_keyword, hfound⟩ := find_section_type_some hok.type_eq hok.not_dumpfs
    refine ⟨(type, main_keyword), hfound, ok_seq.2 ⟨check_keywords_ok.2 ⟨hok.req, hok.inv⟩, type, ?_⟩⟩
    rw [if_neg (haddress.mpr hok.address)]
    rfl

theorem target_data_ok : scan_check_target_data keyword line = .ok () ↔ target_error keyword = none := by
  rw [scan_check_target_data]
  cases target_error keyword with
  | none => exact ⟨fun _ => rfl, fun _ => rfl⟩
  | some e => exact ⟨fun h => (by cases h), fun h => (by cases h)⟩

end

section
variable {scan body rest : List Token} {line : Nat} {name : List UInt8}
  (hbody : ∀ t ∈ body, scan_is_delimiter t = false) (hrest : Delimited rest)
include hbody hrest

theorem check_section_ok : (∃ r, check_section line name (body ++ rest) = .ok r) ↔
    scan_find_section name .section_heading rest = none ∧
      ∃ d, body.foldlM (store_token name false) .initial = .ok d ∧
      (name ≠ DEFAULTBOOT_SECTION → (∃ type, SectionOk d.keyword type) ∧ target_error d.keyword = none) := by
  rw [check_section, find_plain hbody]
  cases hfind : scan_find_section name .section_heading rest with
  | some found => exact ⟨fun ⟨r, h⟩ => (by cases h), fun h => (by cases h.1)⟩
  | none =>
    rw [get_keywords_eq hbody hrest]
    cases hdata : body.foldlM (store_token name false) .initial with
    | error e => exact ⟨fun ⟨r, h⟩ => (by cases h), fun ⟨_, d, h, _⟩ => (by cases h)⟩
    | ok d =>
      have hcontinue : (∃ r, (if name = DEFAULTBOOT_SECTION then (pure rest : Check (List Token)) else
          scan_check_section_data d.keyword (some d.keyword_line) name line none >>= fun _ =>
            scan_check_target_data d.keyword (some d.keyword_line) >>= fun _ => pure rest) = .ok r) ↔
          (name ≠ DEFAULTBOOT_SECTION → (∃ type, SectionOk d.keyword type) ∧ target_error d.keyword = none) := by
        by_cases hname : name = DEFAULTBOOT_SECTION
        · rw [if_pos hname]
          exact ⟨fun _ hne => absurd hname hne, fun _ => ⟨rest, rfl⟩⟩
        · rw [if_neg hname, ok_bind, ← @section_data_ok d.keyword (some d.keyword_line) name line,
            ← @target_data_ok d.keyword (some d.keyword_line)]
          constructor
          · rintro ⟨type, htype, h⟩ -
            exact ⟨⟨type, htype⟩, (ok_seq.1 h).1⟩
          · intro h
            obtain ⟨⟨type, htype⟩, htarget⟩ := h hname
            exact ⟨type, htype, ok_seq.2 ⟨htarget, rest, rfl⟩⟩
      refine hcontinue.trans ⟨fun h => ⟨rfl, d, rfl, h⟩, fun ⟨_, d', hd', h⟩ => ?_⟩
      cases hd'
      exact h

/-- The rules for a menu with the data `d`. -/
structure MenuOk (scan : List Token) (d : SectionData) : Prop where
  req : ∀ key, key_state scan_menu_key_table key = .req → d.keyword key ≠ none
  inv : ∀ key, key_state scan_menu_key_table key = .inv → d.keyword key = none
  default : check_default d = .ok ()
  prompt : check_prompt d = .ok ()
  timeout : check_timeout d = .ok ()
  numbers : ∀ i, i < BOOT_MENU_ENTRIES → check_number scan d i = .ok ()
  some : ∃ i, i < BOOT_MENU_ENTRIES ∧ d.num i ≠ none
  target : target_error d.keyword = none

omit hbody hrest in
theorem menu_keywords_ok {keyword : Keywords} {keyword_line : Keyword → Nat} :
    check_menu_keyword_data keyword keyword_line name line = .ok () ↔
      (∀ key, key_state scan_menu_key_table key = .req → keyword key ≠ none) ∧
        ∀ key, key_state scan_menu_key_table key = .inv → keyword key = none := by
  have hkey : ∀ key, check_menu_keyword keyword keyword_line name line key = .ok () ↔
      (key_state scan_menu_key_table key = .req → keyword key ≠ none) ∧
        (key_state scan_menu_key_table key = .inv → keyword key = none) := by
    intro key
    unfold check_menu_keyword
    cases key_state scan_menu_key_table key with
    | req =>
      dsimp only
      by_cases hkey : keyword key = none
      · rw [if_pos hkey]
        exact ⟨fun h => (by cases h), fun h => absurd hkey (h.1 rfl)⟩
      · rw [if_neg hkey]
        exact ⟨fun _ => ⟨fun _ => hkey, fun h => (by cases h)⟩, fun _ => rfl⟩
    | inv =>
      dsimp only
      by_cases hkey : keyword key = none
      · rw [if_pos hkey]
        exact ⟨fun _ => ⟨fun h => (by cases h), fun _ => hkey⟩, fun _ => rfl⟩
      · rw [if_neg hkey]
        exact ⟨fun h => (by cases h), fun h => absurd (h.2 rfl) hkey⟩
    | opt => exact ⟨fun _ => ⟨fun h => (by cases h), fun h => (by cases h)⟩, fun _ => rfl⟩
  rw [check_menu_keyword_data, forM_ok]
  exact ⟨fun h => ⟨fun key => ((hkey key).mp (h key key.mem_all)).1, fun key =>
    ((hkey key).mp (h key key.mem_all)).2⟩,
    fun h key _ => (hkey key).mpr ⟨h.1 key, h.2 key⟩⟩

theorem check_menu_ok : (∃ r, check_menu scan line name (body ++ rest) = .ok r) ↔
    scan_find_section name .menu_heading rest = none ∧
      ∃ d, body.foldlM (store_token name true) .initial = .ok d ∧ MenuOk scan d := by
  rw [check_menu, find_plain hbody]
  cases hfind : scan_find_section name .menu_heading rest with
  | some found => exact ⟨fun ⟨r, h⟩ => (by cases h), fun h => (by cases h.1)⟩
  | none =>
    rw [get_keywords_eq hbody hrest]
    cases hdata : body.foldlM (store_token name true) .initial with
    | error e => exact ⟨fun ⟨r, h⟩ => (by cases h), fun ⟨_, d, h, _⟩ => (by cases h)⟩
    | ok d =>
      have hcount : (List.range BOOT_MENU_ENTRIES).countP (fun i => d.num i ≠ none) = 0 ↔
          ¬∃ i, i < BOOT_MENU_ENTRIES ∧ d.num i ≠ none := by
        simp [List.countP_eq_zero]
      have hcontinue : (∃ r, (check_menu_keyword_data d.keyword d.keyword_line name line
        >>= fun _ => check_default d >>= fun _ =>
          check_prompt d >>= fun _ => check_timeout d >>= fun _ =>
          (List.range BOOT_MENU_ENTRIES).forM (check_number scan d) >>= fun _ =>
          if (List.range BOOT_MENU_ENTRIES).countP (fun i => d.num i ≠ none) = 0 then
            throw (at_line line (bytes "no boot configuration specified in menu '" ++ name ++
              bytes "'")) >>= fun _ : PUnit =>
              scan_check_target_data d.keyword (some d.keyword_line) >>= fun _ => (pure rest : Check (List Token))
          else
            scan_check_target_data d.keyword (some d.keyword_line) >>= fun _ => pure rest) =
              .ok r) ↔ MenuOk scan d := by
        rw [ok_seq, ok_seq, ok_seq, ok_seq, ok_seq, menu_keywords_ok, forM_ok]
        constructor
        · rintro ⟨hkeys, hdefault, hprompt, htimeout, hnumbers, h⟩
          by_cases hnone : (List.range BOOT_MENU_ENTRIES).countP (fun i => d.num i ≠ none) = 0
          · rw [if_pos hnone] at h
            obtain ⟨r, h⟩ := h
            cases h
          · rw [if_neg hnone] at h
            exact ⟨hkeys.1, hkeys.2, hdefault, hprompt, htimeout, fun i hi => hnumbers i (List.mem_range.mpr hi),
              Classical.byContradiction fun hno => hnone (hcount.mpr hno), target_data_ok.1 (ok_seq.1 h).1⟩
        · intro h
          refine ⟨⟨h.req, h.inv⟩, h.default, h.prompt, h.timeout, fun i hi =>
            h.numbers i (List.mem_range.mp hi), ?_⟩
          rw [if_neg fun hno => hcount.mp hno h.some]
          exact ok_seq.2 ⟨target_data_ok.2 h.target, rest, rfl⟩
      refine hcontinue.trans ⟨fun h => ⟨rfl, d, rfl, h⟩, fun ⟨_, d', hd', h⟩ => ?_⟩
      cases hd'
      exact h

end

end

end Zipl.Scan
