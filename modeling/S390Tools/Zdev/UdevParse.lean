import S390Tools.Zdev.Udev

/-!
# What the parser makes of written rules

An entry is written as its key, its operator and its value in double quotes, a
line as its entries with a comma and a blank between them.
-/

namespace Zdev

def entry_text (e : UdevEntry) : Text := e.key ++ e.op ++ '"' :: (e.value ++ ['"'])

def line_of (es : List UdevEntry) : Text := [',', ' '].intercalate (es.map entry_text)

/-- A character that means nothing to `replace_unquoted` and to the splitting. -/
def quiet (c : Char) : Bool := c ≠ ',' && c ≠ '"' && c ≠ '\'' && c ≠ '\x01' && c ≠ '\n'

def quotable (c : Char) : Bool := c ≠ '"' && c ≠ '\x01' && c ≠ '\n'

/-- A word, perhaps with something in braces behind it. -/
inductive Key : Text → Prop
  | word {w : Text} : w ≠ [] → (∀ c ∈ w, isword c = true) → Key w
  | braces {w b : Text} : w ≠ [] → (∀ c ∈ w, isword c = true) → (∀ c ∈ b, c ≠ '}' ∧ quiet c = true) →
      Key (w ++ '{' :: (b ++ ['}']))

/-- What the parser takes for a key: a word, or braces with or without a word in front of them. -/
inductive KeyText : Text → Prop
  | word {w : Text} : w ≠ [] → (∀ c ∈ w, isword c = true) → KeyText w
  | braces {w b : Text} : (∀ c ∈ w, isword c = true) → '}' ∉ b → KeyText (w ++ '{' :: (b ++ ['}']))

structure UdevEntry.Ok (e : UdevEntry) : Prop where
  key : Key e.key
  op : e.op ∈ ops
  value : ∀ c ∈ e.value, quotable c = true

/-! ## Words -/

theorem isspace_of_isword {c : Char} (h : isword c = true) : isspace c = false := by
  cases hs : isspace c with
  | false => rfl
  | true =>
    unfold isspace at hs
    simp only [Bool.or_eq_true, decide_eq_true_eq] at hs
    rcases hs with ((((rfl | rfl) | rfl) | rfl) | rfl) | rfl <;> exact absurd h (by decide)

theorem quiet_of_isword {c : Char} (h : isword c = true) : quiet c = true := by
  cases hq : quiet c with
  | true => rfl
  | false =>
    unfold quiet at hq
    simp only [Bool.and_eq_false_iff, decide_eq_false_iff_not, not_not] at hq
    rcases hq with (((rfl | rfl) | rfl) | rfl) | rfl <;> exact absurd h (by decide)

theorem Key.head {k : Text} (h : Key k) : ∃ c t, k = c :: t ∧ isword c = true := by
  cases h with
  | word hne hw =>
    cases k with
    | nil => exact absurd rfl hne
    | cons c t => exact ⟨c, t, rfl, hw c (List.mem_cons_self ..)⟩
  | @braces w b hne hw hb =>
    cases w with
    | nil => exact absurd rfl hne
    | cons c t => exact ⟨c, _, rfl, hw c (List.mem_cons_self ..)⟩

theorem Key.text {k : Text} (h : Key k) : KeyText k := by
  cases h with
  | word hne hw => exact .word hne hw
  | braces hne hw hb => exact .braces hw fun hmem => (hb _ hmem).1 rfl

theorem Key.quiet {k : Text} (h : Key k) : ∀ c ∈ k, quiet c = true := by
  cases h with
  | word hne hw => exact fun c hc => quiet_of_isword (hw c hc)
  | @braces w b hne hw hb =>
    intro c hc
    rcases List.mem_append.mp hc with hc | hc
    · exact quiet_of_isword (hw c hc)
    · rcases List.mem_cons.mp hc with rfl | hc
      · decide
      · rcases List.mem_append.mp hc with hc | hc
        · exact (hb c hc).2
        · rw [List.mem_singleton.mp hc]
          decide

/-! ## One entry -/

theorem skip_whitespace_key {k : Text} (h : Key k) (s : Text) : skip_whitespace (k ++ s) = k ++ s := by
  obtain ⟨c, t, rfl, hc⟩ := h.head
  unfold skip_whitespace
  rw [List.cons_append, List.dropWhile_cons_of_neg]
  rw [isspace_of_isword hc]
  exact Bool.false_ne_true

theorem parse_key_text {k : Text} (h : KeyText k) {c : Char} {s : Text} (hc : isword c = false) (hb : c ≠ '{') :
    parse_key (k ++ c :: s) = some (k, c :: s) := by
  have hneg : ¬ isword c = true := by rw [hc]; exact Bool.false_ne_true
  unfold parse_key
  cases h with
  | word hne hw =>
    rw [List.takeWhile_append_of_pos hw, List.dropWhile_append_of_pos hw, List.takeWhile_cons_of_neg hneg,
      List.dropWhile_cons_of_neg hneg, List.append_nil]
    have hend : key_end k (c :: s) = (k, c :: s) := by
      unfold key_end
      rw [List.head?_cons, if_neg fun h => hb (Option.some.inj h)]
    rw [hend]
    exact if_neg hne
  | @braces w b hw hb' =>
    have hneg' : ¬ isword '{' = true := by decide
    have hall : ∀ x ∈ '{' :: b, decide (x ≠ '}') = true := by
      intro x hx
      rcases List.mem_cons.mp hx with rfl | hx
      · decide
      · exact decide_eq_true fun h => hb' (h ▸ hx)
    have hsplit : '{' :: (b ++ ['}'] ++ c :: s) = ('{' :: b) ++ '}' :: c :: s := by
      rw [List.append_assoc]
      rfl
    have hdrop : ('}' :: c :: s).dropWhile (· ≠ '}') = '}' :: c :: s := rfl
    have htake : ('}' :: c :: s).takeWhile (· ≠ '}') = [] := rfl
    have hend : key_end w ('{' :: (b ++ ['}'] ++ c :: s)) = (w ++ '{' :: (b ++ ['}']), c :: s) := by
      unfold key_end
      rw [List.head?_cons, if_pos rfl, hsplit, List.dropWhile_append_of_pos hall, List.takeWhile_append_of_pos hall,
        hdrop, htake]
      simp
    rw [List.append_assoc, List.takeWhile_append_of_pos hw, List.dropWhile_append_of_pos hw, List.cons_append,
      List.takeWhile_cons_of_neg hneg', List.dropWhile_cons_of_neg hneg', List.append_nil, hend]
    exact if_neg (List.append_ne_nil_of_right_ne_nil _ (List.cons_ne_nil _ _))

theorem parse_key_eq {k : Text} (h : Key k) {c : Char} {s : Text} (hc : isword c = false) (hb : c ≠ '{') :
    parse_key (k ++ c :: s) = some (k, c :: s) :=
  parse_key_text h.text hc hb

theorem parse_op_eq {op : Text} (h : op ∈ ops) (s : Text) : parse_op (op ++ '"' :: s) = some (op, '"' :: s) := by
  simp only [ops, List.mem_cons, List.not_mem_nil, or_false] at h
  rcases h with rfl | rfl | rfl | rfl | rfl <;> rfl

theorem op_head {op : Text} (h : op ∈ ops) : ∃ c t, op = c :: t ∧ isword c = false ∧ c ≠ '{' ∧
    isspace c = false := by
  simp only [ops, List.mem_cons, List.not_mem_nil, or_false] at h
  rcases h with rfl | rfl | rfl | rfl | rfl <;> exact ⟨_, _, rfl, by decide, by decide, by decide⟩

theorem parse_value_eq (v : Text) : parse_value ('"' :: (v ++ ['"'])) = .ok v := by
  have hskip : skip_whitespace ('"' :: (v ++ ['"'])) = '"' :: (v ++ ['"']) :=
    List.dropWhile_cons_of_neg (by decide)
  have hstrip : strip_end ('"' :: (v ++ ['"'])) = '"' :: (v ++ ['"']) := by
    unfold strip_end
    rw [List.reverse_cons, List.reverse_append, List.reverse_singleton, List.singleton_append, List.cons_append,
      List.dropWhile_cons_of_neg (by decide)]
    simp
  unfold parse_value
  simp only [hskip, hstrip]
  rw [if_pos, if_neg]
  · simp
  · simp
  · left
    constructor
    · rfl
    · rw [← List.cons_append, List.getLast?_append_of_ne_nil _ (List.cons_ne_nil _ _)]
      rfl

theorem parse_entry_eq {e : UdevEntry} (h : e.Ok) : parse_udev_entry (entry_text e) = .ok (some e) := by
  obtain ⟨c, t, hop, hc, hb, hs⟩ := op_head h.op
  have hquote : skip_whitespace ('"' :: (e.value ++ ['"'])) = '"' :: (e.value ++ ['"']) :=
    List.dropWhile_cons_of_neg (by decide)
  have hskip : skip_whitespace (e.op ++ '"' :: (e.value ++ ['"'])) = e.op ++ '"' :: (e.value ++ ['"']) := by
    rw [hop, List.cons_append]
    exact List.dropWhile_cons_of_neg (by rw [hs]; exact Bool.false_ne_true)
  have hkey : parse_key (e.key ++ (e.op ++ '"' :: (e.value ++ ['"']))) =
      some (e.key, e.op ++ '"' :: (e.value ++ ['"'])) := by
    rw [hop, List.cons_append]
    exact parse_key_eq h.key hc hb
  unfold parse_udev_entry entry_text
  rw [List.append_assoc, skip_whitespace_key h.key, hkey]
  simp only [hskip, parse_op_eq h.op, hquote, parse_value_eq]
  rfl

theorem parse_entry_blank {e : UdevEntry} (h : e.Ok) : parse_udev_entry (' ' :: entry_text e) = .ok (some e) := by
  have := parse_entry_eq h
  unfold parse_udev_entry at this ⊢
  exact this

/-! ## One line -/

theorem replace_quiet : ∀ {s : Text} (t : Text), (∀ c ∈ s, quiet c = true) →
    replace_unquoted ',' '\x01' none (s ++ t) = s ++ replace_unquoted ',' '\x01' none t
  | [], _, _ => rfl
  | c :: s, t, h => by
    have hc := h c (List.mem_cons_self ..)
    unfold quiet at hc
    simp only [Bool.and_eq_true, decide_eq_true_eq] at hc
    rw [List.cons_append, replace_unquoted, if_neg (fun hq => hq.elim hc.1.1.1.2 hc.1.1.2), if_neg hc.1.1.1.1,
      replace_quiet t fun x hx => h x (List.mem_cons_of_mem _ hx)]
    rfl

theorem replace_quoted : ∀ {v : Text} (t : Text), (∀ c ∈ v, quotable c = true) →
    replace_unquoted ',' '\x01' (some '"') (v ++ '"' :: t) = v ++ '"' :: replace_unquoted ',' '\x01' none t
  | [], t, _ => by
    rw [List.nil_append, replace_unquoted, if_pos rfl]
    rfl
  | c :: v, t, h => by
    have hc := h c (List.mem_cons_self ..)
    unfold quotable at hc
    simp only [Bool.and_eq_true, decide_eq_true_eq] at hc
    rw [List.cons_append, replace_unquoted, if_neg hc.1.1, replace_quoted t fun x hx =>
      h x (List.mem_cons_of_mem _ hx)]
    rfl

theorem op_quiet {op : Text} (h : op ∈ ops) : ∀ c ∈ op, quiet c = true := by
  intro c hc
  have hall : ops.all (·.all quiet) = true := by decide
  exact List.all_eq_true.mp (List.all_eq_true.mp hall op h) c hc

theorem replace_entry {e : UdevEntry} (h : e.Ok) (t : Text) :
    replace_unquoted ',' '\x01' none (entry_text e ++ t) = entry_text e ++ replace_unquoted ',' '\x01' none t := by
  unfold entry_text
  rw [List.append_assoc, List.append_assoc, replace_quiet _ h.key.quiet, replace_quiet _ (op_quiet h.op),
    List.cons_append, replace_unquoted, if_pos (Or.inl rfl), List.append_assoc, List.singleton_append,
    replace_quoted t h.value]
  simp

theorem not_mem_of_quiet {s : Text} (h : ∀ c ∈ s, quiet c = true) : '\x01' ∉ s ∧ '\n' ∉ s :=
  ⟨fun hm => absurd (h _ hm) (by decide), fun hm => absurd (h _ hm) (by decide)⟩

theorem not_mem_of_quotable {s : Text} (h : ∀ c ∈ s, quotable c = true) : '\x01' ∉ s ∧ '\n' ∉ s :=
  ⟨fun hm => absurd (h _ hm) (by decide), fun hm => absurd (h _ hm) (by decide)⟩

theorem not_mem_entry {e : UdevEntry} (h : e.Ok) : '\x01' ∉ entry_text e ∧ '\n' ∉ entry_text e := by
  obtain ⟨hk₁, hk₂⟩ := not_mem_of_quiet h.key.quiet
  obtain ⟨ho₁, ho₂⟩ := not_mem_of_quiet (op_quiet h.op)
  obtain ⟨hv₁, hv₂⟩ := not_mem_of_quotable h.value
  unfold entry_text
  simp [hk₁, hk₂, ho₁, ho₂, hv₁, hv₂]

theorem split_line : ∀ {es : List UdevEntry} {e : UdevEntry}, e.Ok → (∀ x ∈ es, x.Ok) →
    (replace_unquoted ',' '\x01' none (line_of (e :: es))).splitOn '\x01' =
      entry_text e :: es.map fun x => ' ' :: entry_text x
  | [], e, he, _ => by
    have hline : line_of [e] = entry_text e ++ [] := by simp [line_of, List.intercalate]
    rw [hline, replace_entry he, replace_unquoted, List.append_nil, List.splitOn_eq_singleton (not_mem_entry he).1]
    rfl
  | x :: es, e, he, hes => by
    have hx := hes x (List.mem_cons_self ..)
    have ih := split_line hx fun y hy => hes y (List.mem_cons_of_mem _ hy)
    have hline : line_of (e :: x :: es) = entry_text e ++ ',' :: ' ' :: line_of (x :: es) := by
      unfold line_of
      rw [List.map_cons, List.map_cons, List.intercalate_cons_cons, List.append_assoc]
      rfl
    have hrep : replace_unquoted ',' '\x01' none (',' :: ' ' :: line_of (x :: es)) =
        '\x01' :: ' ' :: replace_unquoted ',' '\x01' none (line_of (x :: es)) := rfl
    have hblank : ∀ s : Text, (' ' :: s).splitOn '\x01' = (s.splitOn '\x01').modifyHead (' ' :: ·) := fun s => by
      rw [List.splitOn_cons_eq_if_modifyHead]
      rfl
    rw [hline, replace_entry he, hrep, List.splitOn_append_cons_self_of_not_mem (not_mem_entry he).1, hblank, ih]
    rfl

theorem parse_entries_blank : ∀ {es : List UdevEntry}, (∀ x ∈ es, x.Ok) →
    parse_entries (es.map fun x => ' ' :: entry_text x) = .ok (some es)
  | [], _ => rfl
  | e :: es, h => by
    have ih := parse_entries_blank fun x hx => h x (List.mem_cons_of_mem _ hx)
    rw [List.map_cons, parse_entries, parse_entry_blank (h e (List.mem_cons_self ..)), ih]
    rfl

theorem parse_line_eq {e : UdevEntry} {es : List UdevEntry} (he : e.Ok) (hes : ∀ x ∈ es, x.Ok) :
    parse_udev_line (line_of (e :: es)) = .ok (some ⟨line_of (e :: es), e :: es⟩) := by
  have hhead : ∃ s, line_of (e :: es) = e.key ++ s := by
    cases es with
    | nil => exact ⟨e.op ++ '"' :: (e.value ++ ['"']), by simp [line_of, List.intercalate, entry_text]⟩
    | cons x es =>
      refine ⟨e.op ++ '"' :: (e.value ++ ['"']) ++ [',', ' '] ++ line_of (x :: es), ?_⟩
      unfold line_of
      rw [List.map_cons, List.map_cons, List.intercalate_cons_cons, entry_text]
      simp
  obtain ⟨s, hs⟩ := hhead
  obtain ⟨c, t, hk, hc⟩ := he.key.head
  have hskip : skip_whitespace (line_of (e :: es)) = c :: (t ++ s) := by
    rw [hs, skip_whitespace_key he.key, hk]
    rfl
  have hcomment : c ≠ '#' := by
    rintro rfl
    exact absurd hc (by decide)
  have hparse : parse_entries (entry_text e :: es.map fun x => ' ' :: entry_text x) = .ok (some (e :: es)) := by
    rw [parse_entries, parse_entry_eq he, parse_entries_blank hes]
    rfl
  unfold parse_udev_line
  rw [hskip, List.head?_cons]
  simp only [if_neg hcomment, split_line he hes, hparse]
  rfl

/-! ## A file -/

def Remark (line : Text) : Prop := ∀ c ∈ (skip_whitespace line).head?, c = '#'

theorem parse_line_remark {line : Text} (h : Remark line) : parse_udev_line line = .ok (some ⟨line, []⟩) := by
  unfold parse_udev_line
  cases hhead : (skip_whitespace line).head? with
  | none => rfl
  | some c => exact if_pos (h c hhead)

inductive Line : Text → List UdevEntry → Prop
  | remark {line : Text} : Remark line → '\n' ∉ line → Line line []
  | entries {e : UdevEntry} {es : List UdevEntry} : e.Ok → (∀ x ∈ es, x.Ok) → Line (line_of (e :: es)) (e :: es)

theorem Line.parse {line : Text} {es : List UdevEntry} (h : Line line es) :
    parse_udev_line line = .ok (some ⟨line, es⟩) := by
  cases h with
  | remark hr _ => exact parse_line_remark hr
  | entries he hes => exact parse_line_eq he hes

theorem not_mem_line_of : ∀ {es : List UdevEntry}, (∀ x ∈ es, x.Ok) → '\n' ∉ line_of es
  | [], _ => List.not_mem_nil
  | [e], h => by
    have hline : line_of [e] = entry_text e := by simp [line_of, List.intercalate]
    rw [hline]
    exact (not_mem_entry (h e (List.mem_singleton_self e))).2
  | e :: x :: es, h => by
    have ih := not_mem_line_of fun y hy => h y (List.mem_cons_of_mem _ hy)
    have he := (not_mem_entry (h e (List.mem_cons_self ..))).2
    unfold line_of at ih ⊢
    rw [List.map_cons, List.map_cons, List.intercalate_cons_cons]
    rw [List.map_cons] at ih
    simp [he, ih]

theorem Line.not_mem {line : Text} {es : List UdevEntry} (h : Line line es) : '\n' ∉ line := by
  cases h with
  | remark _ hnl => exact hnl
  | @entries e es he hes =>
    apply not_mem_line_of
    intro x hx
    rcases List.mem_cons.mp hx with rfl | hx
    · exact he
    · exact hes x hx

def file_text (lines : List Text) : Text := lines.flatMap (· ++ ['\n'])

theorem split_file : ∀ {lines : List Text}, (∀ l ∈ lines, '\n' ∉ l) → (file_text lines).splitOn '\n' = lines ++ [[]]
  | [], _ => rfl
  | l :: lines, h => by
    have ih := split_file fun x hx => h x (List.mem_cons_of_mem _ hx)
    unfold file_text at ih ⊢
    rw [List.flatMap_cons, List.append_assoc, List.singleton_append,
      List.splitOn_append_cons_self_of_not_mem (h l (List.mem_cons_self ..)), ih]
    rfl

theorem mapM_parse : ∀ {lines : List (Text × List UdevEntry)}, (∀ l ∈ lines, Line l.1 l.2) →
    (lines.map Prod.fst).mapM parse_udev_line = .ok (lines.map fun l => some ⟨l.1, l.2⟩)
  | [], _ => rfl
  | l :: lines, h => by
    have ih := mapM_parse fun x hx => h x (List.mem_cons_of_mem _ hx)
    rw [List.map_cons, List.mapM_cons, (h l (List.mem_cons_self ..)).parse, ih]
    rfl

theorem read_file_eq {lines : List (Text × List UdevEntry)} (h : ∀ l ∈ lines, Line l.1 l.2) :
    udev_read_file (file_text (lines.map Prod.fst)) =
      .ok ((lines ++ [([], [])]).map fun l : Text × List UdevEntry => ⟨l.1, l.2⟩) := by
  have hnl : ∀ l ∈ lines.map Prod.fst, '\n' ∉ l := by
    intro l hl
    obtain ⟨x, hx, rfl⟩ := List.mem_map.mp hl
    exact (h x hx).not_mem
  have hempty : Line [] [] := .remark (fun _ hc => nomatch hc) List.not_mem_nil
  have hparse : (lines.map Prod.fst ++ [[]]).mapM parse_udev_line =
      .ok ((lines ++ [([], [])]).map fun l : Text × List UdevEntry => some ⟨l.1, l.2⟩) := by
    have := @mapM_parse (lines ++ [([], [])]) fun l hl => by
      rcases List.mem_append.mp hl with hl | hl
      · exact h l hl
      · rw [List.mem_singleton.mp hl]
        exact hempty
    rw [List.map_append] at this
    exact this
  unfold udev_read_file
  rw [split_file hnl, hparse]
  change Except.ok (List.filterMap id _) = _
  rw [List.filterMap_map]
  exact congrArg Except.ok (congrFun List.filterMap_eq_map' _)

def tag_rule : UdevEntry := ⟨['T', 'A', 'G'], ['+', '='], ['a', ',', 'b']⟩

theorem read_file_comment_first :
    udev_read_file (file_text ([(['#'], []), (line_of [tag_rule], [tag_rule])].map Prod.fst)) =
      .ok (([(['#'], []), (line_of [tag_rule], [tag_rule])] ++ [([], [])]).map
        fun l : Text × List UdevEntry => ⟨l.1, l.2⟩) := by
  refine read_file_eq fun l hl => ?_
  rcases List.mem_pair.mp hl with rfl | rfl
  · exact .remark (fun _ hc => (Option.some.inj hc).symm) (by decide)
  · have hkey : Key tag_rule.key := .word (by decide) (by simp [tag_rule, isword]; decide)
    exact .entries ⟨hkey, by decide, by simp [tag_rule, quotable]⟩ fun x hx => absurd hx List.not_mem_nil

end Zdev
