import S390Tools.Zdev.UdevGrammar

/-!
# Commas and quotes of a udev rule

A line falls into the pieces that the commas outside of quotes separate. The parser cuts it
there, and at each character that it puts in the place of such a comma.
-/

namespace Zdev.Pointers

/-! ## Pieces -/

def next_quote : Option Char → Char → Option Char
  | some q, c => if c = q then none else some q
  | none, c => if c = '"' ∨ c = '\'' then some c else none

@[grind =] def pieces : Option Char → Text → List Text
  | _, [] => [[]]
  | q, c :: s => if q = none ∧ c = ',' then [] :: pieces none s else (pieces (next_quote q c) s).modifyHead (c :: ·)

def parts (q : Option Char) (s : Text) : List Text := (replace_unquoted ',' '\x01' q s).splitOn '\x01'

def quote_after (q : Option Char) (s : Text) : Option Char := s.foldl next_quote q

def Whole (q : Option Char) (s : Text) : Prop := pieces q s = [s]

theorem modifyHead_length {f : Text → Text} (l : List Text) : (l.modifyHead f).length = l.length := by
  cases l <;> rfl

theorem replace_cons {q : Option Char} {c : Char} (s : Text) (h : ¬(q = none ∧ c = ',')) :
    replace_unquoted ',' '\x01' q (c :: s) = c :: replace_unquoted ',' '\x01' (next_quote q c) s := by
  cases q with
  | some q => rfl
  | none =>
    have hc : c ≠ ',' := fun hc => h ⟨rfl, hc⟩
    rw [replace_unquoted, next_quote]
    by_cases hquote : c = '"' ∨ c = '\''
    · rw [if_pos hquote, if_pos hquote]
    · rw [if_neg hquote, if_neg hquote, if_neg hc]

theorem replace_comma (s : Text) :
    replace_unquoted ',' '\x01' none (',' :: s) = '\x01' :: replace_unquoted ',' '\x01' none s := by
  rw [replace_unquoted, if_neg (by decide), if_pos rfl]

theorem parts_eq : ∀ {s : Text} (q : Option Char), '\x01' ∉ s → parts q s = pieces q s
  | [], q, _ => by cases q <;> rfl
  | c :: s, q, h => by
    have hc : c ≠ '\x01' := fun hc => h (hc ▸ List.mem_cons_self)
    have hs : '\x01' ∉ s := fun hs => h (List.mem_cons_of_mem c hs)
    rw [pieces]
    by_cases hcomma : q = none ∧ c = ','
    · obtain ⟨rfl, rfl⟩ := hcomma
      rw [if_pos ⟨rfl, rfl⟩, parts, replace_comma, List.splitOn_cons_eq_if_modifyHead,
        if_pos (by rfl), ← parts, parts_eq none hs]
    · rw [if_neg hcomma, parts, replace_cons s hcomma, List.splitOn_cons_eq_if_modifyHead,
        if_neg (by simpa using hc), ← parts,
        parts_eq _ hs]

theorem parts_length : ∀ (s : Text) (q : Option Char), (parts q s).length = (pieces q s).length + s.count '\x01'
  | [], q => by cases q <;> rfl
  | c :: s, q => by
    rw [pieces]
    by_cases hcomma : q = none ∧ c = ','
    · obtain ⟨rfl, rfl⟩ := hcomma
      rw [if_pos ⟨rfl, rfl⟩, parts, replace_comma, List.splitOn_cons_eq_if_modifyHead,
        if_pos (by rfl), ← parts, List.length_cons,
        parts_length s none, List.length_cons, List.count_cons_of_ne (by decide)]
      omega
    · rw [if_neg hcomma, parts, replace_cons s hcomma, List.splitOn_cons_eq_if_modifyHead, ← parts,
        modifyHead_length]
      by_cases hc : c = '\x01'
      · subst hc
        rw [if_pos (by rfl), List.length_cons, parts_length s, List.count_cons_self]
        omega
      · rw [if_neg (by simpa using hc), modifyHead_length, parts_length s, List.count_cons_of_ne hc]

theorem whole_cons {q : Option Char} {c : Char} {s : Text} :
    Whole q (c :: s) ↔ ¬(q = none ∧ c = ',') ∧ Whole (next_quote q c) s := by
  unfold Whole
  rw [pieces]
  by_cases hcomma : q = none ∧ c = ','
  · rw [if_pos hcomma]
    exact ⟨fun h => by simp at h, fun h => absurd hcomma h.1⟩
  · rw [if_neg hcomma]
    refine ⟨fun h => ⟨hcomma, ?_⟩, fun h => by rw [h.2]; rfl⟩
    cases hp : pieces (next_quote q c) s with
    | nil =>
      rw [hp] at h
      cases h
    | cons p ps =>
      rw [hp] at h
      obtain ⟨hhead, htail⟩ := List.cons.inj h
      rw [(List.cons.inj hhead).2, htail]

theorem whole_append {q : Option Char} {a b : Text} : Whole q (a ++ b) ↔ Whole q a ∧ Whole (quote_after q a) b := by
  induction a generalizing q with
  | nil => exact ⟨fun h => ⟨rfl, h⟩, And.right⟩
  | cons c a ih =>
    rw [List.cons_append, whole_cons, whole_cons, ih, and_assoc]
    rfl

theorem pieces_whole : ∀ (s : Text) (q : Option Char),
    ∃ p ps, pieces q s = p :: ps ∧ Whole q p ∧ (∀ x ∈ ps, Whole none x) ∧ ∀ x ∈ p :: ps, ∀ c ∈ x, c ∈ s
  | [], q => ⟨[], [], rfl, rfl, fun _ h => (List.not_mem_nil h).elim, fun x hx c hc => by simp_all⟩
  | c :: s, q => by
    rw [pieces]
    by_cases hcomma : q = none ∧ c = ','
    · obtain ⟨p, ps, hp, hwhole, hrest, hmem⟩ := pieces_whole s none
      rw [if_pos hcomma, hp]
      refine ⟨[], p :: ps, rfl, rfl, fun x hx => ?_, fun x hx d hd => ?_⟩
      · rcases List.mem_cons.mp hx with rfl | hx
        · exact hwhole
        · exact hrest x hx
      · rcases List.mem_cons.mp hx with rfl | hx
        · cases hd
        · exact List.mem_cons_of_mem c (hmem x hx d hd)
    · obtain ⟨p, ps, hp, hwhole, hrest, hmem⟩ := pieces_whole s (next_quote q c)
      rw [if_neg hcomma, hp]
      refine ⟨c :: p, ps, rfl, whole_cons.2 ⟨hcomma, hwhole⟩, hrest, fun x hx d hd => ?_⟩
      rcases List.mem_cons.mp hx with rfl | hx
      · rcases List.mem_cons.mp hd with rfl | hd
        · exact List.mem_cons_self
        · exact List.mem_cons_of_mem c (hmem p List.mem_cons_self d hd)
      · exact List.mem_cons_of_mem c (hmem x (List.mem_cons_of_mem p hx) d hd)

theorem piece_whole {s p : Text} (h : p ∈ pieces none s) : Whole none p ∧ ∀ c ∈ p, c ∈ s := by
  obtain ⟨first, ps, hp, hwhole, hrest, hmem⟩ := pieces_whole s none
  rw [hp] at h
  refine ⟨?_, hmem p h⟩
  rcases List.mem_cons.mp h with rfl | h
  · exact hwhole
  · exact hrest p h

theorem whole_of_single : ∀ {s : Text} {q : Option Char}, (pieces q s).length = 1 → Whole q s
  | [], q, _ => rfl
  | c :: s, q, h => by
    rw [pieces] at h
    rw [whole_cons]
    by_cases hcomma : q = none ∧ c = ','
    · rw [if_pos hcomma, List.length_cons] at h
      obtain ⟨p, ps, hp, _⟩ := pieces_whole s none
      rw [hp, List.length_cons] at h
      omega
    · rw [if_neg hcomma, modifyHead_length] at h
      exact ⟨hcomma, whole_of_single h⟩

/-! ## Quotes -/

def Plain (s : Text) : Prop := ∀ c ∈ s, c ≠ '"' ∧ c ≠ '\''

/-- What may be open: nothing or one of the quote characters. -/
def Opened (q : Option Char) : Prop := q = none ∨ q = some '"' ∨ q = some '\''

theorem Opened.next {q : Option Char} (h : Opened q) (c : Char) : Opened (next_quote q c) := by
  rcases h with rfl | rfl | rfl
  · rw [next_quote]
    by_cases hc : c = '"' ∨ c = '\''
    · rw [if_pos hc]
      rcases hc with rfl | rfl
      · exact .inr (.inl rfl)
      · exact .inr (.inr rfl)
    · rw [if_neg hc]
      exact .inl rfl
  · rw [next_quote]
    by_cases hc : c = '"'
    · rw [if_pos hc]
      exact .inl rfl
    · rw [if_neg hc]
      exact .inr (.inl rfl)
  · rw [next_quote]
    by_cases hc : c = '\''
    · rw [if_pos hc]
      exact .inl rfl
    · rw [if_neg hc]
      exact .inr (.inr rfl)

theorem Opened.after {q : Option Char} (h : Opened q) (s : Text) : Opened (quote_after q s) := by
  induction s generalizing q with
  | nil => exact h
  | cons c s ih => exact ih (h.next c)

theorem next_plain {q : Option Char} (hq : Opened q) {c : Char} (hc : c ≠ '"' ∧ c ≠ '\'') : next_quote q c = q := by
  rcases hq with rfl | rfl | rfl
  · exact if_neg fun h => h.elim hc.1 hc.2
  · exact if_neg hc.1
  · exact if_neg hc.2

theorem after_plain {q : Option Char} (hq : Opened q) {s : Text} (hs : Plain s) : quote_after q s = q := by
  induction s with
  | nil => rfl
  | cons c s ih =>
    have hstep : quote_after q (c :: s) = quote_after (next_quote q c) s := rfl
    rw [hstep, next_plain hq (hs c List.mem_cons_self)]
    exact ih fun d hd => hs d (List.mem_cons_of_mem c hd)

theorem whole_plain {q : Option Char} (hq : Opened q) {s : Text} (hs : Plain s) :
    Whole q s ↔ ¬(q = none ∧ ',' ∈ s) := by
  induction s with
  | nil => exact ⟨fun _ h => List.not_mem_nil h.2, fun _ => rfl⟩
  | cons c s ih =>
    rw [whole_cons, next_plain hq (hs c List.mem_cons_self), ih fun d hd => hs d (List.mem_cons_of_mem c hd),
      List.mem_cons, eq_comm (a := ',')]
    tauto

theorem op_plain {op : Text} (h : op ∈ ops) : Plain op ∧ ',' ∉ op := by
  have hquiet : ∀ c ∈ op, c ≠ ',' ∧ c ≠ '"' ∧ c ≠ '\'' := fun c hc => by
    have hq := op_quiet h c hc
    unfold quiet at hq
    simp only [Bool.and_eq_true, decide_eq_true_eq] at hq
    exact ⟨hq.1.1.1.1, hq.1.1.1.2, hq.1.1.2⟩
  exact ⟨fun c hc => (hquiet c hc).2, fun hmem => (hquiet ',' hmem).1 rfl⟩

theorem blank_plain {b : Text} (h : Blank b) : Plain b := fun c hc => by
  have hspace := h c hc
  refine ⟨?_, ?_⟩
  · rintro rfl
    exact absurd hspace (by decide)
  · rintro rfl
    exact absurd hspace (by decide)

theorem entry_text_whole {e : UdevEntry} (hkey : Whole none e.key) (hop : e.op ∈ ops) (hvalue : Plain e.value) :
    Whole none (entry_text e) ↔ ¬(quote_after none e.key = some '"' ∧ ',' ∈ e.value) := by
  have hq : Opened (quote_after none e.key) := Opened.after (.inl rfl) _
  obtain ⟨hplain, hcomma⟩ := op_plain hop
  rw [entry_text, List.append_assoc, whole_append, whole_append, after_plain hq hplain,
    whole_plain hq hplain, whole_cons,
    whole_append, whole_plain (hq.next _) hvalue]
  have hlast : Whole (quote_after (next_quote (quote_after none e.key) '"') e.value) ['"'] :=
    whole_cons.2 ⟨fun h => absurd h.2 (by decide), rfl⟩
  have hclosed : next_quote (quote_after none e.key) '"' = none ↔ quote_after none e.key = some '"' := by
    rcases hq with h | h | h <;> rw [h] <;> decide
  rw [hclosed]
  refine ⟨fun h => h.2.2.2.1, fun h => ⟨hkey, fun h => hcomma h.2, fun h => absurd h.2 (by decide), h, hlast⟩⟩

/-! ## Printing an entry again -/

theorem entry_text_yields {e : UdevEntry} (hkey : KeyText e.key) (hop : e.op ∈ ops) : Yields (entry_text e) e := by
  have htrim : Trimmed ('"' :: (e.value ++ ['"'])) := by
    refine ⟨fun c hc => ?_, fun c hc => ?_⟩
    · obtain rfl := Option.some.inj hc
      decide
    · rw [← List.cons_append, List.getLast?_concat] at hc
      obtain rfl := Option.some.inj hc
      decide
  refine ⟨'"' :: (e.value ++ ['"']), ⟨hkey, hop, htrim, [], [], [], [], ?_⟩, fun h => ?_, ?_⟩
  · refine ⟨fun _ h => (List.not_mem_nil h).elim, fun _ h => (List.not_mem_nil h).elim,
      fun _ h => (List.not_mem_nil h).elim, fun _ h => (List.not_mem_nil h).elim, ?_, fun _ h => ?_⟩
    · rw [entry_text]
      simp
    · exact absurd (Option.some.inj h) (by decide)
  · have hlen := (lone_iff.1 h).2
    simp at hlen
  · have hquoted : Quoted ('"' :: (e.value ++ ['"'])) :=
      .inl ⟨rfl, by rw [← List.cons_append, List.getLast?_concat]⟩
    rw [unquote, if_pos hquoted]
    simp

theorem parse_line_parts {line : Text} (h : ¬Remark line) {r : Option (List UdevEntry)} :
    (Zdev.parse_entries (parts none line) = .error .bounds → Zdev.parse_udev_line line = .error .bounds) ∧
      (Zdev.parse_entries (parts none line) = .ok r →
        Zdev.parse_udev_line line = .ok (r.map fun es => ⟨line, es⟩)) := by
  unfold Zdev.parse_udev_line
  cases hhead : (Zdev.skip_whitespace line).head? with
  | none =>
    refine absurd (fun c hc => ?_) h
    rw [hhead] at hc
    cases hc
  | some c =>
    have hc : c ≠ '#' := fun hc => h fun d hd => by
      rw [hhead] at hd
      rw [← Option.some.inj hd, hc]
    dsimp only
    rw [if_neg hc, ← parts]
    refine ⟨fun hparse => ?_, fun hparse => ?_⟩
    · rw [hparse]
      rfl
    · rw [hparse]
      rfl

/-- Printed again on a line of its own, the entry is the only one of that line. -/
def Reprints (e : UdevEntry) : Prop := parse_udev_line (entry_text e) = .ok (some ⟨entry_text e, [e]⟩)

theorem entry_text_head {e : UdevEntry} (hkey : KeyText e.key) :
    ∃ c, (Zdev.skip_whitespace (entry_text e)).head? = some c ∧ c ≠ '#' ∧ c ≠ '\x00' := by
  obtain ⟨c, t, hk, hc⟩ := KeyText.head hkey
  refine ⟨c, ?_, ?_, ?_⟩
  · rw [entry_text, hk, List.cons_append, List.cons_append, skip_word (key_head_space hc)]
    rfl
  · rintro rfl
    exact absurd hc (by decide)
  · rintro rfl
    exact absurd hc (by decide)

theorem reprints_iff {e : UdevEntry} (hkey : KeyText e.key) (hop : e.op ∈ ops) (hsep : '\x01' ∉ entry_text e) :
    Reprints e ↔ Whole none (entry_text e) := by
  obtain ⟨c, hhead, hcomment, hnull⟩ := entry_text_head hkey
  have hremark : ¬Remark (entry_text e) := fun h => hcomment (h c hhead)
  unfold Reprints
  rw [parse_udev_line_eq (by rw [hhead]; exact fun h => hnull (Option.some.inj h))]
  constructor
  · intro h
    rcases parse_entries_cases (parts none (entry_text e)) with ⟨_, hparse⟩ | ⟨_, _, hparse⟩ | ⟨es, hes, _, hparse⟩
    · rw [(parse_line_parts hremark (r := none)).1 hparse] at h
      cases h
    · rw [(parse_line_parts hremark).2 hparse] at h
      cases h
    · rw [(parse_line_parts hremark).2 hparse] at h
      have hes' : es = [e] := by
        have := Option.some.inj (Except.ok.inj h)
        exact (UdevLine.mk.inj this).2
      subst hes'
      have hlen := hes.length_eq
      rw [parts_eq none hsep] at hlen
      exact whole_of_single hlen
  · intro h
    have hparts : parts none (entry_text e) = [entry_text e] := (parts_eq none hsep).trans h
    refine (parse_line_parts hremark (r := some [e])).2 ?_
    rw [hparts, Zdev.parse_entries, (entry_text_yields hkey hop).parse]
    rfl

/-! ## A whole line -/

/-- Except for remarks, the line is left out, or its entries are those of its pieces, and those without a quote in
their value are found again when they are printed. -/
structure Parsed (line : Text) : Prop where
  remark : Remark line → parse_udev_line line = .ok (some ⟨line, []⟩)
  entries : ¬Remark line → ∃ r, parse_udev_line line = .ok r ∧ ∀ l, r = some l → l.line = line ∧
    List.Forall₂ Yields (pieces none line) l.entries ∧ ∀ e ∈ l.entries, Plain e.value → Reprints e

/-- The key leaves a double quote open, and a comma of the value would be outside of quotes. -/
def Reopens (piece : Text) : Prop :=
  ∃ key op text, Reads piece key op text ∧ Plain (unquote text) ∧ quote_after none key = some '"' ∧
    ',' ∈ unquote text

def Handled (line : Text) : Prop :=
  Remark line ∨ (Safe (parts none line) ∧
    ((∃ p ∈ parts none line, ¬WellFormed p) ∨ ('\x01' ∉ line ∧ ∀ p ∈ parts none line, ¬Reopens p)))

theorem forall₂_left {α β : Type} {R : α → β → Prop} {l : List α} {m : List β} (h : List.Forall₂ R l m) :
    ∀ a ∈ l, ∃ b ∈ m, R a b := by
  induction h with
  | nil => exact fun a ha => (List.not_mem_nil ha).elim
  | cons hab _ ih =>
    intro a ha
    rcases List.mem_cons.mp ha with rfl | ha
    · exact ⟨_, List.mem_cons_self, hab⟩
    · obtain ⟨b, hb, hR⟩ := ih a ha
      exact ⟨b, List.mem_cons_of_mem _ hb, hR⟩

theorem yields_chars {piece : Text} {e : UdevEntry} (h : Yields piece e) : ∀ c ∈ entry_text e,
    c ∈ piece ∨ c = '"' := by
  obtain ⟨text, ⟨_, _, _, b₁, b₂, b₃, b₄, _, _, _, _, hpiece, _⟩, _, hvalue⟩ := h
  have hsub : ∀ c ∈ e.value, c ∈ text := fun c hc => by
    rw [hvalue, unquote] at hc
    split at hc
    · exact (List.drop_sublist 1 text).mem ((List.dropLast_sublist _).mem hc)
    · exact hc
  intro c hc
  rw [hpiece]
  simp only [entry_text, List.mem_append, List.mem_cons, List.not_mem_nil, or_false] at hc ⊢
  rcases hc with (hc | hc) | rfl | hc | rfl
  · exact .inl (.inr (.inl hc))
  · exact .inl (.inr (.inr (.inr (.inl hc))))
  · exact .inr rfl
  · exact .inl (.inr (.inr (.inr (.inr (.inr (.inl (hsub c hc)))))))
  · exact .inr rfl

theorem yields_key_whole {piece : Text} {e : UdevEntry} (h : Yields piece e) (hwhole : Whole none piece) :
    Whole none e.key := by
  obtain ⟨text, ⟨_, _, _, b₁, b₂, b₃, b₄, hb₁, _, _, _, rfl, _⟩, _⟩ := h
  have hrest := (whole_append.1 hwhole).2
  rw [after_plain (.inl rfl) (blank_plain hb₁)] at hrest
  exact (whole_append.1 hrest).1

theorem yields_reprints {line piece : Text} {e : UdevEntry} (hline : '\x01' ∉ line) (hp : piece ∈ pieces none line)
    (h : Yields piece e) (hplain : Plain e.value) : Reprints e ↔ ¬Reopens piece := by
  obtain ⟨hwhole, hsub⟩ := piece_whole hp
  have hkey := yields_key_whole h hwhole
  have hsep : '\x01' ∉ entry_text e := fun hmem => by
    rcases yields_chars h _ hmem with hmem | hmem
    · exact hline (hsub _ hmem)
    · exact absurd hmem (by decide)
  obtain ⟨text, hreads, hlone, hvalue⟩ := h
  rw [reprints_iff hreads.is_key hreads.is_op hsep, entry_text_whole hkey hreads.is_op hplain, not_iff_not]
  constructor
  · intro ⟨hopen, hcomma⟩
    exact ⟨e.key, e.op, text, hreads, hvalue ▸ hplain, hopen, hvalue ▸ hcomma⟩
  · intro ⟨key, op, text', hreads', _, hopen, hcomma⟩
    obtain ⟨rfl, _, rfl⟩ := hreads.unique hreads'
    exact ⟨hopen, hvalue ▸ hcomma⟩

theorem line_head {line : Text} (hnull : '\x00' ∉ line) : (Zdev.skip_whitespace line).head? ≠ some '\x00' :=
  fun hhead => hnull ((List.dropWhile_sublist _).mem (List.mem_of_head? hhead))

theorem parsed_of_handled {line : Text} (hnull : '\x00' ∉ line) (h : Handled line) : Parsed line := by
  constructor
  · rw [parse_udev_line_eq (line_head hnull)]
    exact parse_line_remark
  · intro hremark
    rw [parse_udev_line_eq (line_head hnull)]
    obtain ⟨hsafe, hcond⟩ := h.resolve_left hremark
    rcases parse_entries_cases (parts none line) with ⟨hnot, _⟩ | ⟨_, _, hparse⟩ | ⟨es, hes, _, hparse⟩
    · exact absurd hsafe hnot
    · refine ⟨none, (parse_line_parts hremark).2 hparse, fun l hl => ?_⟩
      cases hl
    · refine ⟨some ⟨line, es⟩, (parse_line_parts hremark).2 hparse, fun l hl => ?_⟩
      obtain rfl := Option.some.inj hl
      obtain ⟨hline, hkeys⟩ := hcond.resolve_left fun ⟨p, hp, hwf⟩ => by
        obtain ⟨e, _, he⟩ := forall₂_left hes p hp
        exact hwf he.wellFormed
      rw [parts_eq none hline] at hes hkeys
      refine ⟨rfl, hes, fun e he hplain => ?_⟩
      obtain ⟨p, hp, hyields⟩ := forall₂_left hes.flip e he
      exact (yields_reprints hline hp hyields hplain).mpr (hkeys p hp)

theorem handled_of_parsed {line : Text} (hnull : '\x00' ∉ line) (h : Parsed line) : Handled line := by
  by_cases hremark : Remark line
  · exact .inl hremark
  · obtain ⟨r, hparsed, hr⟩ := h.entries hremark
    rw [parse_udev_line_eq (line_head hnull)] at hparsed
    rcases parse_entries_cases (parts none line) with ⟨_, hparse⟩ | ⟨hsafe, hwf, _⟩ | ⟨es, hes, hsafe, hparse⟩
    · rw [(parse_line_parts hremark (r := none)).1 hparse] at hparsed
      cases hparsed
    · exact .inr ⟨hsafe, .inl hwf⟩
    · rw [(parse_line_parts hremark).2 hparse] at hparsed
      obtain rfl := Except.ok.inj hparsed
      obtain ⟨_, hpieces, hreprints⟩ := hr ⟨line, es⟩ rfl
      have hcount : line.count '\x01' = 0 := by
        have hlen := hes.length_eq
        rw [parts_length, ← hpieces.length_eq] at hlen
        have hlen' := hpieces.length_eq
        omega
      have hline : '\x01' ∉ line := List.count_eq_zero.mp hcount
      rw [parts_eq none hline] at hes hsafe
      refine .inr ⟨by rwa [parts_eq none hline], .inr ⟨hline, fun p hp hreopens => ?_⟩⟩
      rw [parts_eq none hline] at hp
      obtain ⟨e, he, hyields⟩ := forall₂_left hes p hp
      have hplain : Plain e.value := by
        obtain ⟨text, hreads, _, hvalue⟩ := hyields
        obtain ⟨key, op, text', hreads', hplain, _⟩ := hreopens
        obtain ⟨_, _, rfl⟩ := hreads.unique hreads'
        rwa [hvalue]
      exact (yields_reprints hline hp hyields hplain).mp (hreprints e he hplain) hreopens

/-- The lines that the parser handles, among all of them. -/
theorem parse_udev_line_exact {line : Text} (hnull : '\x00' ∉ line) : Parsed line ↔ Handled line :=
  ⟨handled_of_parsed hnull, parsed_of_handled hnull⟩

theorem parse_udev_line_exact_rule : Parsed "ACTION==\"add\", A{b,c}=x".toList ↔
    Handled "ACTION==\"add\", A{b,c}=x".toList :=
  parse_udev_line_exact (by decide)

/-- The only character of the value is taken for both of its quotes. -/
theorem lone_quote_copied : ¬∀ line : Text, '\x00' ∉ line → Parsed line := by
  intro h
  have hremark : ¬Remark ['A', '=', '"'] := fun hremark => absurd (hremark 'A' rfl) (by decide)
  obtain ⟨r, hparse, _⟩ := (h ['A', '=', '"'] (by decide)).entries hremark
  have herror : parse_udev_line ['A', '=', '"'] = .error .bounds := by rfl
  rw [herror] at hparse
  cases hparse

end Zdev.Pointers
