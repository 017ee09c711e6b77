import S390Tools.Zdev.UdevParse
import S390Tools.Zdev.UdevPointers

/-!
# What the parser takes for an entry

An entry is a key, an operator and a value text with blanks around each of them. The value
is the text without the quotes around it; a text that is one quote character makes the
parser copy a negative number of characters.
-/

namespace Zdev.Pointers

def Blank (s : Text) : Prop := ∀ c ∈ s, isspace c = true

structure Trimmed (t : Text) : Prop where
  first : ∀ c ∈ t.head?, isspace c = false
  last : ∀ c ∈ t.getLast?, isspace c = false

/-- The shorter operator is one only where the longer one is not. -/
structure Reads (piece key op text : Text) : Prop where
  is_key : KeyText key
  is_op : op ∈ ops
  trimmed : Trimmed text
  layout : ∃ b₁ b₂ b₃ b₄, Blank b₁ ∧ Blank b₂ ∧ Blank b₃ ∧ Blank b₄ ∧
    piece = b₁ ++ (key ++ (b₂ ++ (op ++ (b₃ ++ (text ++ b₄))))) ∧
    (op = ['='] → (b₃ ++ (text ++ b₄)).head? ≠ some '=')

def WellFormed (piece : Text) : Prop := ∃ key op text, Reads piece key op text

def Lone (t : Text) : Prop := t = ['"'] ∨ t = ['\'']

def unquote (t : Text) : Text := if Quoted t then (t.drop 1).dropLast else t

def read_entry (piece : Text) : Option (Text × Text × Text) := do
  let (key, rest) ← Zdev.parse_key (Zdev.skip_whitespace piece)
  let (op, rest) ← Zdev.parse_op (Zdev.skip_whitespace rest)
  return (key, op, strip_end (Zdev.skip_whitespace rest))

/-! ## Blanks -/

theorem skip_blank {b : Text} (hb : Blank b) (s : Text) : Zdev.skip_whitespace (b ++ s) = Zdev.skip_whitespace s :=
  List.dropWhile_append_of_pos hb

theorem skip_word {c : Char} {s : Text} (hc : isspace c = false) : Zdev.skip_whitespace (c :: s) = c :: s :=
  List.dropWhile_cons_of_neg (by rw [hc]; exact Bool.false_ne_true)

theorem skip_trimmed {t b : Text} (ht : Trimmed t) (hb : Blank b) :
    Zdev.skip_whitespace (t ++ b) = if t = [] then [] else t ++ b := by
  cases t with
  | nil => exact List.dropWhile_eq_nil_iff.mpr hb
  | cons c t => exact skip_word (ht.first c rfl)

theorem strip_blank {t b : Text} (hb : Blank b) : strip_end (t ++ b) = strip_end t := by
  induction b using List.reverseRecOn with
  | nil => rw [List.append_nil]
  | append_singleton b x ih =>
    rw [← List.append_assoc, strip_end_space (hb x (List.mem_append_right _ List.mem_cons_self))]
    exact ih fun c hc => hb c (List.mem_append_left _ hc)

theorem strip_trimmed {t : Text} (ht : Trimmed t) : strip_end t = t := by
  induction t using List.reverseRecOn with
  | nil => rfl
  | append_singleton t x _ => exact strip_end_word (ht.last x List.getLast?_concat)

theorem skip_split (s : Text) : ∃ b, Blank b ∧ s = b ++ Zdev.skip_whitespace s :=
  ⟨s.takeWhile isspace, fun _ hc => List.mem_takeWhile_imp hc, List.takeWhile_append_dropWhile.symm⟩

theorem skip_head (s : Text) : ∀ c ∈ (Zdev.skip_whitespace s).head?, isspace c = false := fun c hc => by
  have hnot := List.head?_dropWhile_not (p := isspace) (l := s)
  have hc' : (s.dropWhile isspace).head? = some c := hc
  rw [hc'] at hnot
  simpa using hnot

theorem strip_last (t : Text) : ∀ c ∈ (strip_end t).getLast?, isspace c = false := fun c hc => by
  rw [strip_end, List.getLast?_reverse] at hc
  exact skip_head t.reverse c hc

/-! ## Reading -/

theorem parse_key_some {s key rest : Text} (h : Zdev.parse_key s = some (key, rest)) :
    s = key ++ rest ∧ (KeyText key ∨ rest = []) := by
  obtain ⟨w, hw⟩ : ∃ w, s.takeWhile isword = w := ⟨_, rfl⟩
  obtain ⟨r, hr⟩ : ∃ r, s.dropWhile isword = r := ⟨_, rfl⟩
  have hsplit : s = w ++ r := by rw [← hw, ← hr, List.takeWhile_append_dropWhile]
  have hword : ∀ c ∈ w, isword c = true := fun c hc => List.mem_takeWhile_imp (hw ▸ hc)
  unfold Zdev.parse_key key_end at h
  rw [hw, hr] at h
  dsimp only at h
  by_cases hbrace : r.head? = some '{'
  · obtain ⟨r', rfl⟩ : ∃ r', r = '{' :: r' := by
      cases r with
      | nil => cases hbrace
      | cons c r' => exact ⟨r', by rw [Option.some.inj hbrace]⟩
    rw [if_pos hbrace, List.dropWhile_cons_of_pos (by decide), List.takeWhile_cons_of_pos (by decide)] at h
    obtain ⟨b, hb⟩ : ∃ b, r'.takeWhile (· ≠ '}') = b := ⟨_, rfl⟩
    obtain ⟨t, ht⟩ : ∃ t, r'.dropWhile (· ≠ '}') = t := ⟨_, rfl⟩
    have hbt : r' = b ++ t := by rw [← hb, ← ht, List.takeWhile_append_dropWhile]
    have hnot : '}' ∉ b := fun hmem => absurd (List.mem_takeWhile_imp (hb ▸ hmem)) (by decide)
    rw [hb, ht] at h
    cases t with
    | nil =>
      rw [if_neg (by simp)] at h
      obtain ⟨rfl, rfl⟩ := Prod.mk.inj (Option.some.inj h)
      exact ⟨by rw [List.append_nil, hsplit], .inr rfl⟩
    | cons c t =>
      have hc : c = '}' := by
        have hhead := List.head?_dropWhile_not (p := fun x => decide (x ≠ '}')) (l := r')
        rw [ht, List.head?_cons] at hhead
        simpa using hhead
      subst hc
      rw [if_neg (by simp)] at h
      obtain ⟨rfl, rfl⟩ := Prod.mk.inj (Option.some.inj h)
      refine ⟨by rw [hsplit, hbt]; simp, .inl ?_⟩
      have hkey := KeyText.braces hword hnot
      rwa [← List.cons_append, ← List.append_assoc] at hkey
  · rw [if_neg hbrace] at h
    by_cases hnil : w = []
    · rw [if_pos hnil] at h
      cases h
    · rw [if_neg hnil] at h
      obtain ⟨rfl, rfl⟩ := Prod.mk.inj (Option.some.inj h)
      exact ⟨hsplit, .inl (.word hnil hword)⟩

theorem parse_op_of {op rest : Text} (hop : op ∈ ops) (hrest : op = ['='] → rest.head? ≠ some '=') :
    Zdev.parse_op (op ++ rest) = some (op, rest) := by
  simp only [ops, List.mem_cons, List.not_mem_nil, or_false] at hop
  rcases hop with rfl | rfl | rfl | rfl | rfl
  · rfl
  · rfl
  · cases rest with
    | nil => rfl
    | cons c rest =>
      have hc : c ≠ '=' := fun h => hrest rfl (congrArg some h)
      have hnot : ('=' == c) = false := beq_eq_false_iff_ne.mpr (Ne.symm hc)
      simp only [Zdev.parse_op, ops, List.cons_append, List.nil_append, List.find?_cons,
        List.isPrefixOf_cons_cons, hnot]
      rfl
  · rfl
  · rfl

theorem parse_op_some {s op rest : Text} (h : Zdev.parse_op s = some (op, rest)) :
    op ∈ ops ∧ s = op ++ rest ∧ (op = ['='] → rest.head? ≠ some '=') := by
  unfold Zdev.parse_op at h
  cases hfind : ops.find? (·.isPrefixOf s) with
  | none =>
    rw [hfind] at h
    cases h
  | some op' =>
    rw [hfind] at h
    obtain ⟨rfl, rfl⟩ := Prod.mk.inj (Option.some.inj h)
    have hprefix : op'.isPrefixOf s = true := by simpa using List.find?_some hfind
    obtain ⟨rest, rfl⟩ := List.isPrefixOf_iff_prefix.mp hprefix
    rw [List.drop_left]
    refine ⟨List.mem_of_find?_eq_some hfind, rfl, fun hop hhead => ?_⟩
    subst hop
    cases rest with
    | nil => cases hhead
    | cons c rest =>
      obtain rfl := Option.some.inj hhead
      cases hfind

theorem strip_head {t : Text} : ∀ c ∈ (strip_end t).head?, c ∈ t.head? := fun c hc => by
  obtain ⟨z, hz, _⟩ := strip_end_split t
  rw [hz, List.head?_append, hc]
  rfl

theorem blank_of_drop {z : Text} (h : z.dropWhile isspace = []) : Blank z := List.dropWhile_eq_nil_iff.mp h

theorem reads_of_read {piece key op text : Text} (h : read_entry piece = some (key, op, text)) :
    Reads piece key op text := by
  unfold read_entry at h
  obtain ⟨b₁, hb₁, hpiece⟩ := skip_split piece
  obtain ⟨⟨k, r⟩, hkey, h⟩ := Option.bind_eq_some_iff.mp h
  obtain ⟨⟨o, r'⟩, hop, h⟩ := Option.bind_eq_some_iff.mp h
  have heq : (k, o, strip_end (Zdev.skip_whitespace r')) = (key, op, text) := Option.some.inj h
  simp only [Prod.mk.injEq] at heq
  obtain ⟨rfl, rfl, rfl⟩ := heq
  obtain ⟨hkr, hk⟩ := parse_key_some hkey
  obtain ⟨hmem, hor, heqsign⟩ := parse_op_some hop
  obtain ⟨b₂, hb₂, hr⟩ := skip_split r
  obtain ⟨b₃, hb₃, hr'⟩ := skip_split r'
  obtain ⟨b₄, hb₄, hblank⟩ := strip_end_split (Zdev.skip_whitespace r')
  have hrest : b₃ ++ (strip_end (Zdev.skip_whitespace r') ++ b₄) = r' := by rw [← hb₄, ← hr']
  refine ⟨hk.resolve_right fun hnil => ?_, hmem, ⟨fun c hc => ?_, strip_last _⟩, b₁, b₂, b₃, b₄, hb₁, hb₂, hb₃,
    blank_of_drop hblank, ?_, ?_⟩
  · obtain ⟨c, t, ho, _⟩ := op_head hmem
    have hnone : Zdev.skip_whitespace r = [] := by rw [hnil]; rfl
    rw [hnone, ho] at hor
    cases hor
  · exact skip_head r' c (strip_head c hc)
  · rw [hrest, ← hor, ← hr, ← hkr, ← hpiece]
  · rw [hrest]
    exact heqsign

theorem not_word_of_space {c : Char} (h : isspace c = true) : isword c = false ∧ c ≠ '{' := by
  constructor
  · cases hw : isword c with
    | false => rfl
    | true => exact absurd h (by rw [isspace_of_isword hw]; exact Bool.false_ne_true)
  · rintro rfl
    exact absurd h (by decide)

theorem behind_key {b op : Text} (hb : Blank b) (hop : op ∈ ops) (s : Text) :
    ∃ c t, b ++ (op ++ s) = c :: t ∧ isword c = false ∧ c ≠ '{' := by
  cases b with
  | nil =>
    obtain ⟨c, t, ho, hword, hbrace, _⟩ := op_head hop
    exact ⟨c, t ++ s, by rw [ho]; rfl, hword, hbrace⟩
  | cons c b => exact ⟨c, b ++ (op ++ s), rfl, not_word_of_space (hb c List.mem_cons_self)⟩

theorem KeyText.head {k : Text} (h : KeyText k) : ∃ c t, k = c :: t ∧ (isword c = true ∨ c = '{') := by
  cases h with
  | @word w hne hw =>
    cases k with
    | nil => exact absurd rfl hne
    | cons c t => exact ⟨c, t, rfl, .inl (hw c List.mem_cons_self)⟩
  | @braces w b hw hb =>
    cases w with
    | nil => exact ⟨'{', b ++ ['}'], rfl, .inr rfl⟩
    | cons c t => exact ⟨c, _, rfl, .inl (hw c List.mem_cons_self)⟩

theorem key_head_space {c : Char} (h : isword c = true ∨ c = '{') : isspace c = false := by
  rcases h with h | rfl
  · exact isspace_of_isword h
  · decide

theorem read_of_reads {piece key op text : Text} (h : Reads piece key op text) :
    read_entry piece = some (key, op, text) := by
  obtain ⟨hkey, hop, htrim, b₁, b₂, b₃, b₄, hb₁, hb₂, hb₃, hb₄, rfl, heqsign⟩ := h
  obtain ⟨k, kt, hk, hkhead⟩ := KeyText.head hkey
  obtain ⟨o, ot, ho, _, _, hospace⟩ := op_head hop
  obtain ⟨c, t, hbehind, hword, hbrace⟩ := behind_key hb₂ hop (b₃ ++ (text ++ b₄))
  have hskip : Zdev.skip_whitespace (b₁ ++ (key ++ (b₂ ++ (op ++ (b₃ ++ (text ++ b₄)))))) =
      key ++ (b₂ ++ (op ++ (b₃ ++ (text ++ b₄)))) := by
    rw [skip_blank hb₁, hk]
    exact skip_word (key_head_space hkhead)
  have hskip' : Zdev.skip_whitespace (b₂ ++ (op ++ (b₃ ++ (text ++ b₄)))) = op ++ (b₃ ++ (text ++ b₄)) := by
    rw [skip_blank hb₂, ho]
    exact skip_word hospace
  have hparse : Zdev.parse_key (key ++ (b₂ ++ (op ++ (b₃ ++ (text ++ b₄))))) =
      some (key, b₂ ++ (op ++ (b₃ ++ (text ++ b₄)))) := by
    rw [hbehind]
    exact parse_key_text hkey hword hbrace
  have hstrip : strip_end (Zdev.skip_whitespace (b₃ ++ (text ++ b₄))) = text := by
    rw [skip_blank hb₃, skip_trimmed htrim hb₄]
    by_cases hnil : text = []
    · rw [if_pos hnil, hnil]
      rfl
    · rw [if_neg hnil, strip_blank hb₄, strip_trimmed htrim]
  unfold read_entry
  rw [hskip, hparse]
  simp only [Option.bind_eq_bind, Option.bind_some, hskip', parse_op_of hop heqsign, hstrip]
  rfl

/-! ## One entry -/

/-- The entry of a piece, whose value text is not a single quote character. -/
def Yields (piece : Text) (e : UdevEntry) : Prop :=
  ∃ text, Reads piece e.key e.op text ∧ ¬Lone text ∧ e.value = unquote text

def LoneValue (piece : Text) : Prop := ∃ key op text, Reads piece key op text ∧ Lone text

theorem lone_iff {t : Text} : Lone t ↔ Quoted t ∧ t.length = 1 := by
  constructor
  · rintro (rfl | rfl)
    · exact ⟨.inl ⟨rfl, rfl⟩, rfl⟩
    · exact ⟨.inr ⟨rfl, rfl⟩, rfl⟩
  · intro ⟨hquoted, hlen⟩
    obtain ⟨c, rfl⟩ := List.length_eq_one_iff.mp hlen
    rcases hquoted with ⟨hc, _⟩ | ⟨hc, _⟩
    · exact .inl (by rw [Option.some.inj hc])
    · exact .inr (by rw [Option.some.inj hc])

theorem skip_skip (s : Text) : Zdev.skip_whitespace (Zdev.skip_whitespace s) = Zdev.skip_whitespace s :=
  List.dropWhile_idempotent _ _

theorem parse_value_quoted (s : Text) : Zdev.parse_value s =
    if Quoted (strip_end (Zdev.skip_whitespace s)) then
      if (strip_end (Zdev.skip_whitespace s)).length = 1 then .error .bounds
      else .ok ((strip_end (Zdev.skip_whitespace s)).drop 1).dropLast
    else .ok (strip_end (Zdev.skip_whitespace s)) := rfl

theorem parse_value_cases (s : Text) :
    (Lone (strip_end (Zdev.skip_whitespace s)) → Zdev.parse_value s = .error .bounds) ∧
      (¬Lone (strip_end (Zdev.skip_whitespace s)) → Zdev.parse_value s =
        .ok (unquote (strip_end (Zdev.skip_whitespace s)))) := by
  rw [lone_iff, parse_value_quoted, unquote]
  by_cases hquoted : Quoted (strip_end (Zdev.skip_whitespace s))
  · rw [if_pos hquoted, if_pos hquoted]
    by_cases hlen : (strip_end (Zdev.skip_whitespace s)).length = 1
    · exact ⟨fun _ => if_pos hlen, fun h => absurd ⟨hquoted, hlen⟩ h⟩
    · exact ⟨fun h => absurd h.2 hlen, fun _ => if_neg hlen⟩
  · rw [if_neg hquoted, if_neg hquoted]
    exact ⟨fun h => absurd h.1 hquoted, fun _ => rfl⟩

theorem parse_entry_none {piece : Text} (h : read_entry piece = none) : Zdev.parse_udev_entry piece = .ok none := by
  unfold read_entry at h
  unfold Zdev.parse_udev_entry
  cases hkey : Zdev.parse_key (Zdev.skip_whitespace piece) with
  | none => rfl
  | some x =>
    rw [hkey] at h
    simp only [Option.bind_eq_bind, Option.bind_some] at h
    dsimp only
    cases hop : Zdev.parse_op (Zdev.skip_whitespace x.2) with
    | none => rfl
    | some y =>
      rw [hop] at h
      cases h

theorem parse_entry_some {piece key op text : Text} (h : read_entry piece = some (key, op, text)) :
    (Lone text → Zdev.parse_udev_entry piece = .error .bounds) ∧
      (¬Lone text → Zdev.parse_udev_entry piece = .ok (some ⟨key, op, unquote text⟩)) := by
  unfold read_entry at h
  obtain ⟨⟨k, r⟩, hkey, h⟩ := Option.bind_eq_some_iff.mp h
  obtain ⟨⟨o, r'⟩, hop, h⟩ := Option.bind_eq_some_iff.mp h
  have heq : (k, o, strip_end (Zdev.skip_whitespace r')) = (key, op, text) := Option.some.inj h
  simp only [Prod.mk.injEq] at heq
  obtain ⟨rfl, rfl, rfl⟩ := heq
  obtain ⟨hlone, hvalue⟩ := parse_value_cases (Zdev.skip_whitespace r')
  rw [skip_skip] at hlone hvalue
  unfold Zdev.parse_udev_entry
  rw [hkey]
  dsimp only
  rw [hop]
  dsimp only
  refine ⟨fun h => ?_, fun h => ?_⟩
  · rw [hlone h]
    rfl
  · rw [hvalue h]
    rfl

theorem parse_entry_cases (piece : Text) :
    (¬WellFormed piece ∧ Zdev.parse_udev_entry piece = .ok none) ∨
      (LoneValue piece ∧ Zdev.parse_udev_entry piece = .error .bounds) ∨
        ∃ e, Yields piece e ∧ Zdev.parse_udev_entry piece = .ok (some e) := by
  cases hread : read_entry piece with
  | none =>
    refine .inl ⟨fun ⟨key, op, text, h⟩ => ?_, parse_entry_none hread⟩
    rw [read_of_reads h] at hread
    cases hread
  | some x =>
    obtain ⟨key, op, text⟩ := x
    have hreads := reads_of_read hread
    obtain ⟨herror, hok⟩ := parse_entry_some hread
    by_cases hlone : Lone text
    · exact .inr (.inl ⟨⟨key, op, text, hreads, hlone⟩, herror hlone⟩)
    · exact .inr (.inr ⟨⟨key, op, unquote text⟩, ⟨text, hreads, hlone, rfl⟩, hok hlone⟩)

theorem Reads.unique {piece key op text key' op' text' : Text} (h : Reads piece key op text)
    (h' : Reads piece key' op' text') : key = key' ∧ op = op' ∧ text = text' := by
  have heq := (read_of_reads h).symm.trans (read_of_reads h')
  simpa using heq

theorem Yields.wellFormed {piece : Text} {e : UdevEntry} (h : Yields piece e) : WellFormed piece := by
  obtain ⟨text, hreads, _⟩ := h
  exact ⟨e.key, e.op, text, hreads⟩

theorem LoneValue.wellFormed {piece : Text} (h : LoneValue piece) : WellFormed piece := by
  obtain ⟨key, op, text, hreads, _⟩ := h
  exact ⟨key, op, text, hreads⟩

theorem Yields.not_lone {piece : Text} {e : UdevEntry} (h : Yields piece e) : ¬LoneValue piece := by
  intro ⟨key, op, text, hreads, hlone⟩
  obtain ⟨text', hreads', hnot, _⟩ := h
  obtain ⟨_, _, rfl⟩ := hreads.unique hreads'
  exact hnot hlone

theorem Yields.parse {piece : Text} {e : UdevEntry} (h : Yields piece e) :
    Zdev.parse_udev_entry piece = .ok (some e) := by
  obtain ⟨text, hreads, hnot, hvalue⟩ := h
  rw [(parse_entry_some (read_of_reads hreads)).2 hnot, ← hvalue]

/-! ## All entries of a line -/

/-- The parser stops before each value that is a single quote character. -/
def Safe (parts : List Text) : Prop :=
  ∀ before piece after, parts = before ++ piece :: after → (∀ p ∈ before, WellFormed p) → ¬LoneValue piece

theorem safe_nil : Safe [] := fun before piece after h => by
  cases before <;> cases h

theorem safe_cons {piece : Text} {parts : List Text} :
    Safe (piece :: parts) ↔ ¬LoneValue piece ∧ (WellFormed piece → Safe parts) := by
  constructor
  · intro h
    refine ⟨h [] piece parts rfl fun p hp => (List.not_mem_nil hp).elim, fun hwf before p after heq hall => ?_⟩
    exact h (piece :: before) p after (by rw [heq]; rfl) fun x hx => by
      rcases List.mem_cons.mp hx with rfl | hx
      · exact hwf
      · exact hall x hx
  · intro ⟨hlone, hrest⟩ before p after heq hall
    cases before with
    | nil =>
      obtain ⟨rfl, _⟩ := List.cons.inj heq
      exact hlone
    | cons x before =>
      obtain ⟨rfl, htail⟩ := List.cons.inj heq
      exact hrest (hall piece List.mem_cons_self) before p after htail fun y hy =>
        hall y (List.mem_cons_of_mem _ hy)

theorem parse_entries_cases : ∀ parts : List Text,
    (¬Safe parts ∧ Zdev.parse_entries parts = .error .bounds) ∨
      (Safe parts ∧ (∃ p ∈ parts, ¬WellFormed p) ∧ Zdev.parse_entries parts = .ok none) ∨
        ∃ es, List.Forall₂ Yields parts es ∧ Safe parts ∧ Zdev.parse_entries parts = .ok (some es)
  | [] => .inr (.inr ⟨[], .nil, safe_nil, rfl⟩)
  | piece :: parts => by
    rw [safe_cons, Zdev.parse_entries]
    rcases parse_entry_cases piece with ⟨hwf, hparse⟩ | ⟨hlone, hparse⟩ | ⟨e, he, hparse⟩
    · refine .inr (.inl ⟨⟨fun hlone => hwf hlone.wellFormed, fun h => absurd h hwf⟩,
        ⟨piece, List.mem_cons_self, hwf⟩, ?_⟩)
      rw [hparse]
      rfl
    · refine .inl ⟨fun h => h.1 hlone, ?_⟩
      rw [hparse]
      rfl
    · rcases parse_entries_cases parts with ⟨hsafe, hrest⟩ | ⟨hsafe, ⟨p, hp, hwf⟩, hrest⟩ | ⟨es, hes, hsafe, hrest⟩
      · refine .inl ⟨fun h => hsafe (h.2 he.wellFormed), ?_⟩
        rw [hparse, hrest]
        rfl
      · refine .inr (.inl ⟨⟨he.not_lone, fun _ => hsafe⟩, ⟨p, List.mem_cons_of_mem _ hp, hwf⟩, ?_⟩)
        rw [hparse, hrest]
        rfl
      · refine .inr (.inr ⟨e :: es, .cons he hes, ⟨he.not_lone, fun _ => hsafe⟩, ?_⟩)
        rw [hparse, hrest]
        rfl

end Zdev.Pointers
