import S390Tools.Lib.Groups
import S390Tools.Zdev.Modprobe

/-!
# Updates of modprobe.conf files

A physical line ends behind a newline, a logical line goes on while its physical
lines end in a backslash. Where the test of `modprobe_read` says for each line
whether it goes on, the lines it builds are the logical lines.
-/

namespace Zdev.Modprobe

open Groups Run

def in_line (c : Char) : Bool := c ≠ '\n'

def physical (text : Text) : List Text := groups in_line text

def goes_on (p : Text) : Bool := ['\\', '\n'].isSuffixOf p

def logical (text : Text) : List Text := (groups goes_on (physical text)).map List.flatten

/-! ## The pieces that `fgets` returns -/

theorem fgets_line : ∀ {s : Text} {n : Nat} (t : Text), '\n' ∉ s → s.length < n →
    fgets n (s ++ '\n' :: t) = (s ++ ['\n'], t)
  | [], n + 1, t, _, _ => by
    rw [List.nil_append, fgets, if_pos rfl]
    rfl
  | c :: s, n + 1, t, hs, hn => by
    have hc : c ≠ '\n' := fun h => hs (h ▸ List.mem_cons_self ..)
    have ih := fgets_line t (fun h => hs (List.mem_cons_of_mem _ h)) (Nat.lt_of_succ_lt_succ hn)
    rw [List.cons_append, fgets, if_neg hc, ih]
    rfl

theorem fgets_last : ∀ {s : Text} {n : Nat}, '\n' ∉ s → s.length ≤ n → fgets n s = (s, [])
  | [], 0, _, _ => rfl
  | [], _ + 1, _, _ => rfl
  | c :: s, n + 1, hs, hn => by
    have hc : c ≠ '\n' := fun h => hs (h ▸ List.mem_cons_self ..)
    have ih := fgets_last (fun h => hs (List.mem_cons_of_mem _ h)) (Nat.le_of_succ_le_succ hn)
    rw [fgets, if_neg hc, ih]

theorem in_line_of_not_mem {s : Text} (hs : '\n' ∉ s) : ∀ c ∈ s, in_line c = true := by
  intro c hc
  exact decide_eq_true fun h => hs (h ▸ hc)

theorem physical_append {s : Text} (hs : '\n' ∉ s) (t : Text) :
    physical (s ++ '\n' :: t) = (s ++ ['\n']) :: physical t :=
  groups_open_append t (in_line_of_not_mem hs) rfl

theorem fgets_all_eq : ∀ {fuel : Nat} {t : Text}, t.length ≤ fuel →
    (∀ p ∈ physical t, p.length < MODPROBE_MAX_LINE) → fgets_all fuel t = physical t
  | 0, t, hfuel, _ => by
    rw [List.length_eq_zero_iff.mp (Nat.le_zero.mp hfuel)]
    rfl
  | fuel + 1, t, hfuel, hshort => by
    rw [fgets_all]
    by_cases ht : t = []
    · rw [if_pos ht, ht]
      rfl
    rw [if_neg ht]
    by_cases hnl : '\n' ∈ t
    · obtain ⟨s, r, rfl, hs⟩ := List.eq_append_cons_of_mem hnl
      have hp := physical_append hs r
      have hlen := hshort (s ++ ['\n']) (hp ▸ List.mem_cons_self ..)
      rw [List.length_append, List.length_singleton] at hlen
      rw [List.length_append, List.length_cons] at hfuel
      rw [fgets_line r hs (Nat.lt_sub_of_add_lt hlen), hp]
      rw [fgets_all_eq (by omega) fun p h => hshort p (hp ▸ List.mem_cons_of_mem _ h)]
    · have hp : physical t = [t] := groups_open (in_line_of_not_mem hnl) ht
      have hlen := hshort t (hp ▸ List.mem_singleton_self t)
      rw [@fgets_last t (MODPROBE_MAX_LINE - 1) hnl (Nat.le_pred_of_lt hlen), hp]
      simp only
      rw [fgets_all_eq (Nat.zero_le _) (fun p h => absurd h List.not_mem_nil)]
      rfl

/-! ## Reading -/

/-- The test of each line says whether it goes on; `m` characters of its logical line were read before. -/
def TestsRight (line : Nat → Char) (m : Nat) : List Text → Prop
  | [] => True
  | p :: ps => is_continued (fgets_store line p) (m + p.length) = .ok (goes_on p) ∧
      TestsRight (fgets_store line p) (if goes_on p then m + p.length else 0) ps

def decTestsRight : (ps : List Text) → (line : Nat → Char) → (m : Nat) → Decidable (TestsRight line m ps)
  | [], _, _ => isTrue trivial
  | p :: ps, line, m =>
    have := decTestsRight ps (fgets_store line p) (if goes_on p then m + p.length else 0)
    inferInstanceAs (Decidable (_ ∧ _))

instance (ps : List Text) (line : Nat → Char) (m : Nat) : Decidable (TestsRight line m ps) :=
    decTestsRight ps line m

structure ReadsRight (line : Nat → Char) (text : Text) : Prop where
  short : ∀ p ∈ physical text, p.length < MODPROBE_MAX_LINE
  tests : TestsRight line 0 (physical text)

theorem read_line_eq {r : Reader} {p : Text} {b : Bool}
    (h : is_continued (fgets_store r.line p) (r.last.getD [] ++ p).length = .ok b) :
    read_line r p = .ok (if b then { r with line := fgets_store r.line p, last := some (r.last.getD [] ++ p) }
      else ⟨fgets_store r.line p, none, r.lines ++ [modprobe_line_new (r.last.getD [] ++ p)]⟩) := by
  unfold read_line
  simp only [h, bind, Except.bind, pure, Except.pure]
  cases b <;> rfl

def joined : Option Text → List (List Text) → List Text
  | none, gs => gs.map List.flatten
  | some l, [] => [l]
  | some l, g :: gs => (l ++ g.flatten) :: gs.map List.flatten

theorem joined_cons (last : Option Text) (g : List Text) (gs : List (List Text)) :
    joined last (g :: gs) = (last.getD [] ++ g.flatten) :: gs.map List.flatten := by
  cases last <;> rfl

theorem read_run : ∀ {ps : List Text} {r : Reader}, TestsRight r.line (r.last.getD []).length ps →
    ∃ r', ps.foldlM read_line r = .ok r' ∧ r'.lines ++ (r'.last.map modprobe_line_new).toList =
      r.lines ++ (joined r.last (groups goes_on ps)).map modprobe_line_new
  | [], r, _ => by
    refine ⟨r, rfl, ?_⟩
    cases hl : r.last <;> rfl
  | p :: ps, r, h => by
    obtain ⟨htest, hrest⟩ := h
    rw [← List.length_append] at htest
    have hstep := read_line_eq htest
    rw [List.foldlM_cons, hstep]
    by_cases hp : goes_on p = true
    · rw [if_pos hp] at hrest
      rw [if_pos hp]
      rw [← List.length_append] at hrest
      obtain ⟨r', hrun, hlines⟩ := @read_run ps
        { r with line := fgets_store r.line p, last := some (r.last.getD [] ++ p) } hrest
      refine ⟨r', hrun, ?_⟩
      rw [hlines, groups, if_pos hp]
      cases groups goes_on ps with
      | nil =>
        rw [joined_cons]
        simp [joined]
      | cons g gs =>
        rw [joined_cons, joined_cons]
        simp
    · rw [if_neg hp] at hrest
      rw [if_neg hp]
      obtain ⟨r', hrun, hlines⟩ := @read_run ps
        ⟨fgets_store r.line p, none, r.lines ++ [modprobe_line_new (r.last.getD [] ++ p)]⟩ hrest
      refine ⟨r', hrun, ?_⟩
      rw [hlines, groups, if_neg hp, joined_cons]
      simp [joined]

theorem modprobe_read_eq {line : Nat → Char} {text : Text} (h : ReadsRight line text) :
    modprobe_read line text = .ok ((logical text).map modprobe_line_new) := by
  obtain ⟨r, hrun, hlines⟩ := @read_run (physical text) ⟨line, none, []⟩ h.tests
  unfold modprobe_read
  rw [fgets_all_eq (Nat.le_refl _) h.short, hrun]
  change Except.ok (r.lines ++ (r.last.map modprobe_line_new).toList) = _
  rw [hlines]
  rfl

/-! ## Logical lines -/

def Complete (l : Text) : Prop := ∀ t, logical (l ++ t) = l :: logical t

theorem complete_group {g : List Text} (hg : Closed goes_on g) (hp : ∀ p ∈ g, Closed in_line p) :
    Complete g.flatten := by
  intro t
  unfold logical physical
  rw [groups_flatten_append t hp, groups_append hg]
  rfl

theorem goes_on_iff {p : Text} : goes_on p = true ↔ ['\\', '\n'] <:+ p := List.isSuffixOf_iff_suffix

theorem not_goes_on {p : Text} (h : '\\' ∉ p) : goes_on p = false := by
  cases hg : goes_on p with
  | false => rfl
  | true => exact absurd ((goes_on_iff.1 hg).subset (List.mem_cons_self ..)) h

theorem complete_line {s : Text} (hs : '\n' ∉ s) (hb : '\\' ∉ s) : Complete (s ++ ['\n']) := by
  have hb' : '\\' ∉ s ++ ['\n'] := by
    intro h
    rcases List.mem_append.mp h with h | h
    · exact hb h
    · cases List.mem_singleton.mp h
  have hg : Closed goes_on [s ++ ['\n']] :=
    ⟨[], s ++ ['\n'], rfl, fun _ h => absurd h List.not_mem_nil, not_goes_on hb'⟩
  have hp : Closed in_line (s ++ ['\n']) := ⟨s, '\n', rfl, in_line_of_not_mem hs, rfl⟩
  have := complete_group hg fun p h => List.mem_singleton.mp h ▸ hp
  rwa [List.flatten_singleton] at this

theorem logical_flatten_append : ∀ {ls : List Text} (t : Text), (∀ l ∈ ls, Complete l) →
    logical (ls.flatten ++ t) = ls ++ logical t
  | [], _, _ => rfl
  | l :: ls, t, h => by
    rw [List.flatten_cons, List.append_assoc, h l (List.mem_cons_self ..),
      logical_flatten_append t fun l' hl' => h l' (List.mem_cons_of_mem _ hl')]
    rfl

def Ended (l : Text) : Prop := ['\n'] <:+ l ∧ goes_on l = false

theorem not_ended_append {s t : Text} (ht : t ≠ []) (hg : goes_on t = true ∨ ∀ c ∈ t, in_line c = true) :
    ¬ Ended (s ++ t) := by
  intro he
  rcases hg with hg | hg
  · have := goes_on_iff.2 ((goes_on_iff.1 hg).trans (List.suffix_append s t))
    rw [he.2] at this
    cases this
  · obtain ⟨u, hu⟩ := he.1
    have hlast : t.getLast ht = '\n' := by
      have h₁ : (s ++ t).getLast (List.append_ne_nil_of_right_ne_nil _ ht) = t.getLast ht :=
        List.getLast_append_of_ne_nil _ ht
      rw [← h₁]
      simp only [← hu, List.getLast_append_singleton]
    have := hg _ (List.getLast_mem ht)
    rw [hlast] at this
    cases this

theorem logical_tail {qs : List Text} {s : Text} (hq : ∀ q ∈ qs, Closed in_line q)
    (hgo : ∀ q ∈ qs, goes_on q = true)
    (hs : ∀ c ∈ s, in_line c = true) (hne : qs.flatten ++ s ≠ []) :
    logical (qs.flatten ++ s) = [qs.flatten ++ s] ∧ ¬ Ended (qs.flatten ++ s) := by
  have hphys : physical (qs.flatten ++ s) = qs ++ physical s := groups_flatten_append s hq
  by_cases hn : s = []
  · subst hn
    rw [List.append_nil] at hne hphys ⊢
    have hqs : qs ≠ [] := by
      intro h
      rw [h] at hne
      exact hne rfl
    constructor
    · rw [logical, hphys]
      change (groups goes_on (qs ++ [])).map List.flatten = _
      rw [List.append_nil, groups_open hgo hqs]
      rfl
    · obtain ⟨ps, q, hpq⟩ := (List.eq_nil_or_concat qs).resolve_left hqs
      rw [List.concat_eq_append] at hpq
      subst hpq
      have hmem : q ∈ ps ++ [q] := List.mem_append_right _ (List.mem_singleton_self q)
      rw [List.flatten_append, List.flatten_singleton]
      exact not_ended_append (hq q hmem).ne_nil (Or.inl (hgo q hmem))
  · have hlast : goes_on s = false := by
      cases hg : goes_on s with
      | false => rfl
      | true =>
        have := hs '\n' ((goes_on_iff.1 hg).subset (List.mem_cons_of_mem _ (List.mem_cons_self ..)))
        cases this
    constructor
    · rw [logical, hphys, physical, groups_open hs hn, groups_open_append [] hgo hlast]
      change [(qs ++ [s]).flatten] = _
      rw [List.flatten_append, List.flatten_singleton]
    · exact not_ended_append hn (Or.inr hs)

theorem exists_logical (text : Text) : ∃ ls s, (∀ l ∈ ls, Complete l) ∧ logical text = ls ++ logical s ∧
    (s ≠ [] → logical s = [s] ∧ ¬ Ended s) := by
  obtain ⟨ps, s, hps, hs, htext, -⟩ := @exists_groups _ in_line text
  obtain ⟨gs, qs, hgs, hqs, rfl, -⟩ := @exists_groups _ goes_on ps
  have hcomplete : ∀ l ∈ gs.map List.flatten, Complete l := by
    intro l hl
    obtain ⟨g, hg, rfl⟩ := List.mem_map.mp hl
    exact complete_group (hgs g hg) fun p hp => hps p (List.mem_append_left _ (List.mem_flatten.mpr ⟨g, hg, hp⟩))
  refine ⟨gs.map List.flatten, qs.flatten ++ s, hcomplete, ?_,
    logical_tail (fun q hq => hps q (List.mem_append_right _ hq)) hqs hs⟩
  rw [htext, List.flatten_append, List.flatten_flatten, List.append_assoc, logical_flatten_append _ hcomplete]

theorem logical_filter (P : Text → Bool) (text : Text) :
    logical ((logical text).filter P).flatten = (logical text).filter P := by
  obtain ⟨ls, s, hls, heq, hs⟩ := exists_logical text
  have hf : ∀ l ∈ ls.filter P, Complete l := fun l hl => hls l (List.mem_of_mem_filter hl)
  rw [heq, List.filter_append, List.flatten_append, logical_flatten_append _ hf]
  by_cases hn : s = []
  · rw [hn]
    rfl
  · rw [(hs hn).1]
    cases hP : P s with
    | false =>
      rw [List.filter_singleton, hP]
      rfl
    | true =>
      rw [List.filter_singleton, hP]
      change _ ++ logical [s].flatten = _ ++ [s]
      rw [List.flatten_singleton, (hs hn).1]

theorem complete_filter {P : Text → Bool} {text : Text} (hend : ∀ l ∈ ((logical text).filter P).getLast?, Ended l) :
    ∀ l ∈ (logical text).filter P, Complete l := by
  obtain ⟨ls, s, hls, heq, hs⟩ := exists_logical text
  rw [heq, List.filter_append] at hend ⊢
  by_cases hn : s = []
  · rw [hn] at hend ⊢
    intro l hl
    rw [show logical [] = [] from rfl, List.filter_nil, List.append_nil] at hl
    exact hls l (List.mem_of_mem_filter hl)
  · rw [(hs hn).1, List.filter_singleton] at hend ⊢
    cases hP : P s with
    | false =>
      intro l hl
      rw [cond_false, List.append_nil] at hl
      exact hls l (List.mem_of_mem_filter hl)
    | true =>
      rw [hP, cond_true, List.getLast?_append_of_ne_nil _ (List.cons_ne_nil _ _)] at hend
      exact absurd (hend s rfl) (hs hn).2

/-! ## Parameters -/

def params (mod l : Text) : List Text :=
  if is_module mod (line_argv l) then (line_argv l).drop 2 else []

def other (mod l : Text) : Bool := !is_module mod (line_argv l)

theorem params_other {mod l : Text} (h : other mod l = true) : params mod l = [] := by
  unfold other at h
  rw [params, if_neg]
  intro hm
  rw [hm] at h
  cases h

theorem get_settings_eq (mod : Text) (attribs : List Attrib) : ∀ ls : List Text,
    modprobe_get_settings (ls.map modprobe_line_new) mod attribs =
      (ls.flatMap (params mod)).map (arg_to_setting attribs)
  | [] => rfl
  | l :: ls => by
    have ih := get_settings_eq mod attribs ls
    unfold modprobe_get_settings at ih ⊢
    rw [List.map_cons, List.flatMap_cons, ih, List.flatMap_cons, List.map_append]
    congr 1
    change (if 3 ≤ (line_argv l).length ∧ is_module mod (line_argv l) = true then _ else _) = _
    rw [params]
    by_cases hm : is_module mod (line_argv l) = true
    · by_cases hlen : 3 ≤ (line_argv l).length
      · rw [if_pos ⟨hlen, hm⟩, if_pos hm]
        rfl
      · rw [if_neg fun h => hlen h.1, if_pos hm, List.drop_eq_nil_of_le (Nat.le_of_lt_succ (Nat.lt_of_not_le hlen))]
        rfl
    · rw [if_neg fun h => hm h.2, if_neg hm]
      rfl

theorem arg_to_setting_eq (attribs : List Attrib) {s : Setting} (h : '=' ∉ s.name) :
    arg_to_setting attribs (setting_arg s) = setting_new (attrib_find attribs s.name) s.name s.value := by
  have hall : ∀ c ∈ s.name, decide (c ≠ '=') = true := fun c hc => decide_eq_true fun he => h (he ▸ hc)
  have hkey : (setting_arg s).takeWhile (· ≠ '=') = s.name := by
    unfold setting_arg
    rw [List.takeWhile_append_of_pos hall, List.takeWhile_cons_of_neg (by decide), List.append_nil]
  have hval : (setting_arg s).dropWhile (· ≠ '=') = '=' :: s.value := by
    unfold setting_arg
    rw [List.dropWhile_append_of_pos hall, List.dropWhile_cons_of_neg (by decide)]
  unfold arg_to_setting
  rw [hkey, hval]

/-! ## A new line -/

def Plain (t : Text) : Prop := ∀ c ∈ t, isspace c = false ∧ c ≠ '\\'

instance (t : Text) : Decidable (Plain t) := inferInstanceAs (Decidable (∀ c ∈ t, _))

theorem Plain.not_delim {t : Text} (h : Plain t) : ∀ c ∈ t, isdelim c = false := by
  intro c hc
  have := (h c hc).1
  unfold isspace at this
  unfold isdelim
  simp only [Bool.or_eq_false_iff] at this ⊢
  exact this.1.1.1

theorem mem_intercalate {c : Char} : ∀ {ws : List Text}, c ∈ [' '].intercalate ws → c = ' ' ∨ ∃ w ∈ ws, c ∈ w
  | [], h => by cases h
  | [w], h => by
    simp only [List.intercalate, List.intersperse, List.flatten_cons, List.flatten_nil, List.append_nil] at h
    exact Or.inr ⟨w, List.mem_singleton_self w, h⟩
  | w :: w' :: ws, h => by
    rw [List.intercalate_cons_cons] at h
    rcases List.mem_append.mp h with h | h
    · rcases List.mem_append.mp h with h | h
      · exact Or.inr ⟨w, List.mem_cons_self .., h⟩
      · exact Or.inl (List.mem_singleton.mp h)
    · rcases mem_intercalate h with h | ⟨v, hv, hc⟩
      · exact Or.inl h
      · exact Or.inr ⟨v, List.mem_cons_of_mem _ hv, hc⟩

theorem line_split_words : ∀ {ws : List Text}, (∀ w ∈ ws, w ≠ [] ∧ Plain w) →
    line_split ([' '].intercalate ws ++ ['\n']) = ws
  | [], _ => rfl
  | [w], h => by
    obtain ⟨hne, hw⟩ := h w (List.mem_singleton_self w)
    change line_split (w ++ [] ++ ['\n']) = _
    rw [List.append_nil, line_split, List.splitOnP_append_cons_of_forall_mem hw.not_delim '\n' rfl,
      List.splitOnP_nil, List.filter_cons, if_pos (decide_eq_true hne)]
    rfl
  | w :: w' :: ws, h => by
    obtain ⟨hne, hw⟩ := h w (List.mem_cons_self ..)
    have ih := @line_split_words (w' :: ws) fun v hv => h v (List.mem_cons_of_mem _ hv)
    rw [line_split] at ih
    rw [List.intercalate_cons_cons, List.append_assoc, List.append_assoc, List.singleton_append, line_split,
      List.splitOnP_append_cons_of_forall_mem hw.not_delim ' ' rfl, List.filter_cons,
        if_pos (decide_eq_true hne), ih]

theorem remove_linecont_eq : ∀ {t : Text}, '\\' ∉ t → remove_linecont t = t
  | [], _ => by rw [remove_linecont]
  | c :: t, h => by
    have hc : c ≠ '\\' := fun he => h (he ▸ List.mem_cons_self ..)
    rw [remove_linecont, remove_linecont_eq fun ht => h (List.mem_cons_of_mem _ ht)]
    intro _ he
    exact fun _ => hc he

def options_line (mod : Text) (args : List Text) : Text :=
  line_text ⟨none, "options".toList :: mod :: args⟩

section

variable {mod : Text} {args : List Text} (hmod : mod ≠ [] ∧ Plain mod) (hargs : ∀ a ∈ args, a ≠ [] ∧ Plain a)
include hmod hargs

theorem options_words : ∀ w ∈ "options".toList :: mod :: args, w ≠ [] ∧ Plain w := by
  intro w hw
  rcases List.mem_cons.mp hw with rfl | hw
  · exact ⟨List.cons_ne_nil _ _, by simp [Plain, isspace]⟩
  · rcases List.mem_cons.mp hw with rfl | hw
    · exact hmod
    · exact hargs w hw

theorem options_chars {c : Char} (hc : c ∈ [' '].intercalate ("options".toList :: mod :: args)) :
    c ≠ '\n' ∧ c ≠ '\\' := by
  rcases mem_intercalate hc with rfl | ⟨w, hw, hcw⟩
  · decide
  · have h := (options_words hmod hargs w hw).2 c hcw
    refine ⟨?_, h.2⟩
    rintro rfl
    exact absurd h.1 (by decide)

theorem options_complete : Complete (options_line mod args) :=
  complete_line (fun h => (options_chars hmod hargs h).1 rfl) fun h => (options_chars hmod hargs h).2 rfl

theorem options_argv : line_argv (options_line mod args) = "options".toList :: mod :: args := by
  have hb : '\\' ∉ options_line mod args := by
    intro h
    rcases List.mem_append.mp h with h | h
    · exact (options_chars hmod hargs h).2 rfl
    · cases List.mem_singleton.mp h
  have hhead : ((options_line mod args).dropWhile isspace).head? = some 'o' := by
    unfold options_line line_text
    simp only [List.intercalate_cons_cons]
    rfl
  unfold line_argv
  rw [hhead, remove_linecont_eq hb]
  exact line_split_words (options_words hmod hargs)

theorem options_module : is_module mod (line_argv (options_line mod args)) = true := by
  rw [options_argv hmod hargs]
  simp [is_module]

theorem options_params : params mod (options_line mod args) = args := by
  rw [params, if_pos (options_module hmod hargs), options_argv hmod hargs]
  rfl

end

/-! ## Updates -/

def kept (mod : Text) (file : Option Text) : List Text := (logical (file.getD [])).filter (other mod)

def header (found : Bool) : Text := if found then [] else GENERATED

def added (mod : Text) (settings : List Setting) : List Text :=
  if settings.filter setting_is_set = [] then []
  else [options_line mod ((settings.filter setting_is_set).map setting_arg)]

/-- A file of one comment that mentions chzdev counts as empty. -/
def Emptied (found : Bool) (ls : List Text) : Prop := ls = [] ∨ ls.length = 1 ∧ found = true

instance (found : Bool) (ls : List Text) : Decidable (Emptied found ls) := inferInstanceAs (Decidable (_ ∨ _))

theorem find_append_new {argv : List Text} : ∀ {ls : List ModprobeLine} {b : Bool}, find_chzdev_comment ls = .ok b →
    find_chzdev_comment (ls ++ [⟨none, argv⟩]) = .ok b
  | [], b, h => by
    cases h
    rfl
  | ⟨none, args⟩ :: ls, b, h => h
  | ⟨some line, []⟩ :: ls, b, h => by cases h
  | ⟨some line, arg :: args⟩ :: ls, b, h => by
    rw [List.cons_append]
    unfold find_chzdev_comment at h ⊢
    simp only at h ⊢
    split
    · rename_i h₁
      rw [if_pos h₁] at h
      exact find_append_new h
    · rename_i h₁
      rw [if_neg h₁] at h
      split
      · rename_i h₂
        rw [if_pos h₂] at h
        exact h
      · rename_i h₂
        rw [if_neg h₂] at h
        split
        · rename_i h₃
          rw [if_pos h₃] at h
          exact h
        · rename_i h₃
          rw [if_neg h₃] at h
          exact find_append_new h

theorem line_text_new (ls : List Text) : (ls.map modprobe_line_new).flatMap line_text = ls.flatten := by
  rw [List.flatMap_map, List.flatMap_def]
  congr 1
  exact List.map_id' ls

section

variable {line : Nat → Char} {file : Option Text} {mod : Text} {settings : List Setting} {b : Bool}

theorem apply_settings_eq : modprobe_apply_settings ((logical (file.getD [])).map modprobe_line_new) mod settings =
    (kept mod file).map modprobe_line_new ++ if settings.filter setting_is_set = [] then []
      else [⟨none, "options".toList :: mod :: (settings.filter setting_is_set).map setting_arg⟩] := by
  unfold modprobe_apply_settings kept
  have hkept : ((logical (file.getD [])).map modprobe_line_new).filter (fun l => !is_module mod l.argv) =
      ((logical (file.getD [])).filter (other mod)).map modprobe_line_new := by
    rw [List.filter_map]
    rfl
  simp only [hkept, List.length_eq_zero_iff]
  by_cases hset : settings.filter setting_is_set = []
  · rw [if_pos hset, if_pos hset, List.append_nil]
  · rw [if_neg hset, if_neg hset]

theorem store_eq {ls : List ModprobeLine} (hfind : find_chzdev_comment ls = .ok b) : modprobe_store ls =
    .ok (if ls = [] ∨ ls.length = 1 ∧ b = true then none else some (header b ++ ls.flatMap line_text)) := by
  have hempty : counts_as_empty ls = .ok (decide (ls = [] ∨ ls.length = 1 ∧ b = true)) := by
    unfold counts_as_empty
    by_cases hnil : ls = []
    · rw [hnil]
      rfl
    · rw [if_neg fun h => hnil (List.length_eq_zero_iff.mp h)]
      by_cases hone : ls.length = 1
      · rw [if_pos hone, hfind]
        cases b <;> simp [hnil, hone]
      · rw [if_neg hone]
        simp [hnil, hone]
  have hwrite : modprobe_write ls = .ok (header b ++ ls.flatMap line_text) := by
    unfold modprobe_write
    rw [hfind]
    rfl
  unfold modprobe_store
  rw [hempty, hwrite]
  change (if decide (ls = [] ∨ ls.length = 1 ∧ b = true) = true then Except.ok none else Except.ok (some _)) = _
  by_cases h : ls = [] ∨ ls.length = 1 ∧ b = true
  · rw [if_pos (decide_eq_true h), if_pos h]
  · rw [if_neg fun hd => h (of_decide_eq_true hd), if_neg h]

theorem write_settings_eq (hreads : ∀ text ∈ file, ReadsRight line text)
    (hfind : find_chzdev_comment ((kept mod file).map modprobe_line_new) = .ok b) :
    modprobe_write_settings line file mod settings =
      .ok (if settings.filter setting_is_set = [] ∧ Emptied b (kept mod file) then none
        else some (header b ++ (kept mod file ++ added mod settings).flatten)) := by
  have hread : modprobe_lines line file = .ok ((logical (file.getD [])).map modprobe_line_new) := by
    cases file with
    | none => rfl
    | some text => exact modprobe_read_eq (hreads text rfl)
  unfold modprobe_write_settings
  rw [hread]
  change modprobe_store (modprobe_apply_settings _ mod settings) = _
  rw [apply_settings_eq]
  by_cases hset : settings.filter setting_is_set = []
  · rw [if_pos hset, List.append_nil, store_eq hfind, line_text_new, added, if_pos hset, List.append_nil]
    unfold Emptied
    simp only [List.map_eq_nil_iff, List.length_map, hset, true_and]
  · have htext : ((kept mod file).map modprobe_line_new ++
        ([⟨none, "options".toList :: mod :: (settings.filter setting_is_set).map setting_arg⟩] :
          List ModprobeLine)).flatMap
          line_text = (kept mod file ++ added mod settings).flatten := by
      rw [List.flatMap_append, line_text_new, added, if_neg hset, List.flatten_append]
      rfl
    rw [if_neg hset, store_eq (find_append_new hfind), htext, if_neg, if_neg fun h => hset h.1]
    intro h
    rcases h with h | ⟨h, hb⟩
    · exact List.append_ne_nil_of_right_ne_nil _ (List.cons_ne_nil _ _) h
    · rw [List.length_append, List.length_map] at h
      have hnil := List.length_eq_zero_iff.mp (Nat.succ.inj h)
      rw [hnil] at hfind
      cases hfind
      cases hb

end

/-- The settings that are set, without blanks and backslashes, and with one meaning of the first equals sign. -/
def Writable (settings : List Setting) : Prop :=
  ∀ s ∈ settings.filter setting_is_set, Plain s.name ∧ '=' ∉ s.name ∧ Plain s.value

theorem Writable.args {settings : List Setting} (h : Writable settings) :
    ∀ a ∈ (settings.filter setting_is_set).map setting_arg, a ≠ [] ∧ Plain a := by
  intro a ha
  obtain ⟨s, hs, rfl⟩ := List.mem_map.mp ha
  obtain ⟨hname, -, hvalue⟩ := h s hs
  refine ⟨List.append_ne_nil_of_right_ne_nil _ (List.cons_ne_nil _ _), fun c hc => ?_⟩
  rcases List.mem_append.mp hc with hc | hc
  · exact hname c hc
  · rcases List.mem_cons.mp hc with rfl | hc
    · decide
    · exact hvalue c hc

section

variable {file : Option Text} {mod : Text} {settings : List Setting} {b : Bool}
variable (hmod : mod ≠ [] ∧ Plain mod) (hset : Writable settings)
include hmod hset

theorem logical_written (hend : settings.filter setting_is_set ≠ [] →
    ∀ l ∈ (kept mod file).getLast?, Ended l) : logical (header b ++ (kept mod file ++ added mod settings).flatten) =
    (if b then [] else [GENERATED]) ++ (kept mod file ++ added mod settings) := by
  have hrest : logical (kept mod file ++ added mod settings).flatten = kept mod file ++ added mod settings := by
    unfold added
    by_cases hs : settings.filter setting_is_set = []
    · rw [if_pos hs, List.append_nil]
      exact logical_filter (other mod) (file.getD [])
    · rw [if_neg hs, List.flatten_append, List.flatten_singleton]
      have hline := options_complete hmod hset.args []
      rw [List.append_nil] at hline
      have hkept : ∀ l ∈ kept mod file, Complete l := complete_filter (hend hs)
      rw [logical_flatten_append _ hkept, hline]
      rfl
  cases b with
  | true => exact hrest
  | false =>
    have hgen : Complete GENERATED := @complete_line "# Generated by chzdev".toList (by decide) (by decide)
    have := hgen (kept mod file ++ added mod settings).flatten
    rw [hrest] at this
    exact this

theorem other_written : ((if b then [] else [GENERATED]) ++
    (kept mod file ++ added mod settings)).filter (other mod) =
    (if b then [] else [GENERATED]) ++ kept mod file := by
  have hgen : ((if b then [] else [GENERATED]) : List Text).filter (other mod) = if b then [] else [GENERATED] := by
    cases b <;> rfl
  have hkept : (kept mod file).filter (other mod) = kept mod file := by
    unfold kept
    rw [List.filter_filter]
    simp only [Bool.and_self]
  have hadded : (added mod settings).filter (other mod) = [] := by
    unfold added
    by_cases hs : settings.filter setting_is_set = []
    · rw [if_pos hs]
      rfl
    · rw [if_neg hs, List.filter_singleton, other, options_module hmod hset.args]
      rfl
  rw [List.filter_append, List.filter_append, hgen, hkept, hadded, List.append_nil]

theorem params_written : ((if b then [] else [GENERATED]) ++
    (kept mod file ++ added mod settings)).flatMap (params mod) =
    (settings.filter setting_is_set).map setting_arg := by
  have hgen : ((if b then [] else [GENERATED]) : List Text).flatMap (params mod) = [] := by
    cases b <;> rfl
  have hkept : (kept mod file).flatMap (params mod) = [] := by
    rw [List.flatMap_eq_nil_iff]
    intro l hl
    exact params_other (List.mem_filter.mp hl).2
  have hadded : (added mod settings).flatMap (params mod) = (settings.filter setting_is_set).map setting_arg := by
    unfold added
    by_cases hs : settings.filter setting_is_set = []
    · rw [if_pos hs, hs]
      rfl
    · rw [if_neg hs, List.flatMap_singleton, options_params hmod hset.args]
  rw [List.flatMap_append, List.flatMap_append, hgen, hkept, hadded]
  rfl

end

/-- Reading shows every parameter of every logical line. A write leaves the other lines
as they are, unless the file counts as empty, and its settings are what a read returns. -/
theorem modprobe_update {line line' : Nat → Char} {file : Option Text} {mod : Text}
    {settings : List Setting} {b : Bool}
    (hmod : mod ≠ [] ∧ Plain mod) (hset : Writable settings) (hreads : ∀ text ∈ file, ReadsRight line text)
    (hfind : find_chzdev_comment ((kept mod file).map modprobe_line_new) = .ok b)
    (hend : settings.filter setting_is_set ≠ [] → ∀ l ∈ (kept mod file).getLast?, Ended l)
    (hwritten : ReadsRight line' (header b ++ (kept mod file ++ added mod settings).flatten))
      (attribs : List Attrib) :
    modprobe_read_settings line file mod attribs =
      .ok (file.map fun text => ((logical text).flatMap (params mod)).map (arg_to_setting attribs)) ∧
    ∃ file', modprobe_write_settings line file mod settings = .ok file' ∧
      (¬ (settings.filter setting_is_set = [] ∧ (kept mod file).length = 1 ∧ b = true) →
        ∃ ls, (ls = [] ∨ ls = [GENERATED]) ∧ (logical (file'.getD [])).filter (other mod) = ls ++ kept mod file) ∧
      ∃ sl, modprobe_read_settings line' file' mod attribs = .ok sl ∧ sl.getD [] =
        (settings.filter setting_is_set).map fun s => setting_new (attrib_find attribs s.name) s.name s.value := by
  refine ⟨?_, _, write_settings_eq hreads hfind, fun h => ?_, ?_⟩
  · cases file with
    | none => rfl
    | some text =>
      change (modprobe_read line text >>= fun ls => .ok (some (modprobe_get_settings ls mod attribs))) = _
      rw [modprobe_read_eq (hreads text rfl)]
      change Except.ok (some (modprobe_get_settings _ mod attribs)) = _
      rw [get_settings_eq]
      rfl
  · by_cases hempty : settings.filter setting_is_set = [] ∧ Emptied b (kept mod file)
    · have hnil : kept mod file = [] := hempty.2.resolve_right fun hone => h ⟨hempty.1, hone⟩
      rw [if_pos hempty, hnil]
      exact ⟨[], Or.inl rfl, rfl⟩
    · rw [if_neg hempty, Option.getD_some, logical_written hmod hset hend, other_written hmod hset]
      refine ⟨if b then [] else [GENERATED], ?_, rfl⟩
      cases b
      · exact Or.inr rfl
      · exact Or.inl rfl
  · by_cases h : settings.filter setting_is_set = [] ∧ Emptied b (kept mod file)
    · rw [if_pos h]
      exact ⟨none, rfl, by rw [h.1]; rfl⟩
    · rw [if_neg h]
      have hread : modprobe_read_settings line' (some (header b ++
        (kept mod file ++ added mod settings).flatten)) mod
          attribs = .ok (some (modprobe_get_settings ((logical (header b ++
            (kept mod file ++ added mod settings).flatten)).map modprobe_line_new) mod attribs)) := by
        unfold modprobe_read_settings
        simp only [modprobe_read_eq hwritten]
        rfl
      refine ⟨_, hread, ?_⟩
      rw [Option.getD_some, get_settings_eq, logical_written hmod hset hend, params_written hmod hset, List.map_map]
      apply List.map_congr_left
      intro s hs
      exact arg_to_setting_eq attribs (hset s hs).2.1

def sampleFile : Text := "# disks\noptions dasd_mod autodetect \\\n probeonly\nalias x y\n".toList

def sampleSettings : List Setting := [setting_new none "dasd".toList "1000".toList]

theorem modprobe_update_sample :
    ∃ file', modprobe_write_settings (fun _ => '\x00')
      (some sampleFile) "dasd_mod".toList sampleSettings = .ok file' ∧
      ∃ sl, modprobe_read_settings (fun _ => '\x00') file' "dasd_mod".toList [] = .ok sl ∧
        sl.getD [] = sampleSettings := by
  have hmod : "dasd_mod".toList ≠ [] ∧ Plain "dasd_mod".toList := ⟨by simp, by simp [Plain, isspace]⟩
  have hset : Writable sampleSettings := by
    intro s hs
    have hs := List.mem_of_mem_filter hs
    rw [sampleSettings, List.mem_singleton] at hs
    subst hs
    simp [setting_new, Plain, isspace]
  have hreads : ∀ text ∈ some sampleFile, ReadsRight (fun _ => '\x00') text := by
    intro text ht
    cases ht
    exact ⟨by decide +kernel, by decide +kernel⟩
  have hend : ∀ l ∈ (kept "dasd_mod".toList (some sampleFile)).getLast?, Ended l := by
    have hlast : (kept "dasd_mod".toList (some sampleFile)).getLast? = some "alias x y\n".toList :=
      by decide +kernel
    rw [hlast]
    intro l hl
    cases hl
    exact ⟨by decide +kernel, by decide +kernel⟩
  obtain ⟨-, file', hwrite, -, sl, hread, hsl⟩ := @modprobe_update (fun _ => '\x00')
    (fun _ => '\x00') (some sampleFile)
    "dasd_mod".toList sampleSettings false hmod hset hreads (by decide +kernel) (fun _ => hend)
    ⟨by decide +kernel, by decide +kernel⟩ []
  exact ⟨file', hwrite, sl, hread, hsl⟩

/-- The third physical line of a logical line is read as one of its own, and a file of the
leading comment is removed. -/
theorem modprobe_third_line_lost :
    (modprobe_read (fun _ => '\x00') "options m a=1 \\\n b=2 \\\n c=3\n".toList).map (fun ls => ls.map (·.argv)) =
      .ok [["options".toList, ['m'], "a=1".toList, "b=2".toList], ["c=3".toList]] ∧
    (logical "options m a=1 \\\n b=2 \\\n c=3\n".toList).flatMap (params ['m']) =
      ["a=1".toList, "b=2".toList, "c=3".toList] ∧
    modprobe_write_settings (fun _ => '\x00') (some GENERATED) ['m'] [] = .ok none ∧
    kept ['m'] (some GENERATED) = [GENERATED] := by
  decide +kernel

end Zdev.Modprobe
