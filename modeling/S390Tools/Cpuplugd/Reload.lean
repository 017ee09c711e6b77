import S390Tools.Lib.Run
import S390Tools.Cpuplugd.Config

/-!
# Reload against restart

A reload parses the file over the old settings and into a text of variables
without its first newline. On a file without variables both runs go in lockstep,
the old settings that the file does not mention apart. The first variable of a
file is never found after a reload.
-/

namespace Cpuplugd

open CString Run

variable {D : Type} {scanf : Scanf D} {get_numcpus : Int}

/-! ## What a file says -/

def line_entry (linebuffer : List UInt8) : Option (List UInt8 × List UInt8) :=
  match split_configline (str linebuffer) with
  | .ok e => e
  | .error _ => none

def entries (configfile : List UInt8) : List (List UInt8 × List UInt8) :=
  (fgets [] configfile).filterMap line_entry

/-- The file has a line for the member `f`. -/
def Sets (configfile : List UInt8) (f : Field) : Prop := ∃ e ∈ entries configfile, config_field e.1 = some f

def NoVariables (configfile : List UInt8) : Prop := ∀ e ∈ entries configfile, config_field e.1 ≠ none

/-- The same rules and limits, the same definitions of variables, the same history. -/
structure SameConfig (s t : State D) : Prop where
  cfg : s.cfg = t.cfg
  var : ∀ name, name.length ≤ MAX_VARNAME → get_var_rvalue s.varinfo name = get_var_rvalue t.varinfo name
  history : s.history_max = t.history_max

/-! ## One line -/

/-- Two states that the parser of rules does not tell apart. -/
structure Alike (s t : State D) : Prop where
  get : get_var_rvalue s.varinfo = get_var_rvalue t.varinfo
  history : s.history_max = t.history_max

theorem Alike.set {s t : State D} (h : Alike s t) (f : Field) (x : f.Val D) (n : Nat) :
    Alike (s.set f x n) (t.set f x n) := ⟨h.get, rfl⟩

variable (scanf get_numcpus) in
inductive LineStep (fuel : Nat) (s : State D) (linebuffer : List UInt8) : State D → Prop
  | skip : line_entry linebuffer = none →
      (∀ r, configfile_line scanf get_numcpus fuel r linebuffer = .ok r) → LineStep fuel s linebuffer s
  | field {name rvalue : List UInt8} {f : Field} {x : f.Val D} {n : Nat} :
      line_entry linebuffer = some (name, rvalue) → config_field name = some f →
      (∀ r, Alike s r → configfile_line scanf get_numcpus fuel r linebuffer = .ok (r.set f x n)) →
      LineStep fuel s linebuffer (s.set f x n)
  | var {name rvalue : List UInt8} :
      line_entry linebuffer = some (name, rvalue) → config_field name = none →
      get_var_rvalue s.varinfo name = none → name.length ≤ MAX_VARNAME →
      LineStep fuel s linebuffer { s with varinfo := s.varinfo ++ entry name rvalue }

theorem add_var_ok {name rvalue : List UInt8} {s s' : State D} (h : add_var name rvalue s = .ok s') :
    get_var_rvalue s.varinfo name = none ∧ s' = { s with varinfo := s.varinfo ++ entry name rvalue } := by
  simp only [add_var] at h
  split at h
  · cases h
  · rename_i hn
    split at h
    · cases h
    · split at h
      · cases h
      · cases h
        exact ⟨by simpa using hn, rfl⟩

theorem line_step {fuel : Nat} {s s' : State D} {linebuffer : List UInt8}
    (h : configfile_line scanf get_numcpus fuel s linebuffer = .ok s') :
    LineStep scanf get_numcpus fuel s linebuffer s' := by
  have hline : ∀ r : State D, configfile_line scanf get_numcpus fuel r linebuffer =
      parse_configline scanf get_numcpus fuel (str linebuffer) r := by
    intro r
    unfold configfile_line at h ⊢
    split at h
    · rename_i hn; rw [if_pos hn]
    · cases h
  rw [hline] at h
  obtain ⟨e, he, h⟩ := bind_eq_ok h
  have hent : line_entry linebuffer = e := by unfold line_entry; rw [he]
  cases e with
  | none =>
    cases h
    refine .skip hent fun r => ?_
    rw [hline, parse_configline, he]
    rfl
  | some e =>
    obtain ⟨name, rvalue⟩ := e
    simp only at h
    cases hf : config_field name with
    | none =>
      rw [hf] at h
      simp only at h
      split at h
      · cases h
      · rename_i hlen
        obtain ⟨hnew, rfl⟩ := add_var_ok h
        exact .var hent hf hnew (Nat.le_of_not_lt hlen)
    | some f =>
      rw [hf] at h
      obtain ⟨⟨x, n⟩, hx, h⟩ := bind_eq_ok h
      cases h
      refine .field hent hf fun r hr => ?_
      rw [hline, parse_configline, he]
      simp only [bind, Except.bind, hf]
      rw [← hr.get, ← hr.history, hx]
      rfl

/-! ## All lines -/

section
variable {fuel : Nat} {lines : List (List UInt8)} {s s' : State D}

theorem foldlM_cons_ok {l : List UInt8} {step : State D → List UInt8 → Except Stop (State D)}
    (h : (l :: lines).foldlM step s = .ok s') : ∃ t, step s l = .ok t ∧ lines.foldlM step t = .ok s' := by
  rw [List.foldlM_cons] at h
  exact bind_eq_ok h

def varsOf (es : List (List UInt8 × List UInt8)) : List (List UInt8 × List UInt8) :=
  es.filter fun e => config_field e.1 = none

def varlines (es : List (List UInt8 × List UInt8)) : List UInt8 := es.flatMap fun e => entry e.1 e.2

theorem run_varinfo (h : lines.foldlM (configfile_line scanf get_numcpus fuel) s = .ok s') :
    s'.varinfo = s.varinfo ++ varlines (varsOf (lines.filterMap line_entry)) := by
  induction lines generalizing s with
  | nil => cases h; simp [varsOf, varlines]
  | cons l lines ih =>
    obtain ⟨t, ht, h⟩ := foldlM_cons_ok h
    rw [ih h]
    cases line_step ht with
    | skip he => rw [List.filterMap_cons_none he]
    | field he hf => simp [List.filterMap_cons_some he, varsOf, hf, State.set]
    | var he hf => simp [List.filterMap_cons_some he, varsOf, hf, varlines]

theorem run_unset (h : lines.foldlM (configfile_line scanf get_numcpus fuel) s = .ok s') {f : Field}
    (hf : ∀ e ∈ lines.filterMap line_entry, config_field e.1 ≠ some f) : s'.cfg f = s.cfg f := by
  induction lines generalizing s with
  | nil => cases h; rfl
  | cons l lines ih =>
    obtain ⟨t, ht, h⟩ := foldlM_cons_ok h
    cases line_step ht with
    | skip he =>
      rw [List.filterMap_cons_none he] at hf
      exact ih h hf
    | @field name rvalue g x n he hg =>
      rw [List.filterMap_cons_some he] at hf
      rw [ih h fun e h' => hf e (List.mem_cons_of_mem _ h')]
      have hne : f ≠ g := fun hfg => hf (name, rvalue) (List.mem_cons_self ..) (hfg ▸ hg)
      exact Function.update_of_ne hne ..
    | var he =>
      rw [List.filterMap_cons_some he] at hf
      rw [ih h fun e h' => hf e (List.mem_cons_of_mem _ h')]

theorem run_alike (h : lines.foldlM (configfile_line scanf get_numcpus fuel) s = .ok s')
    (hv : ∀ e ∈ lines.filterMap line_entry, config_field e.1 ≠ none) {r : State D} (hr : Alike s r) :
    ∃ r', lines.foldlM (configfile_line scanf get_numcpus fuel) r = .ok r' ∧ Alike s' r' ∧
      ∀ f, (s.cfg f = r.cfg f ∨ ∃ e ∈ lines.filterMap line_entry, config_field e.1 = some f) →
        s'.cfg f = r'.cfg f := by
  induction lines generalizing s r with
  | nil =>
    cases h
    refine ⟨r, rfl, hr, fun f hf => ?_⟩
    rcases hf with hf | ⟨e, he, _⟩
    · exact hf
    · cases he
  | cons l lines ih =>
    obtain ⟨t, ht, h⟩ := foldlM_cons_ok h
    cases line_step ht with
    | skip he hl =>
      rw [List.filterMap_cons_none he] at hv ⊢
      obtain ⟨r', h', ha, hc⟩ := ih h hv hr
      refine ⟨r', ?_, ha, hc⟩
      rw [List.foldlM_cons, hl]
      exact h'
    | @field name rvalue g x n he hg hl =>
      rw [List.filterMap_cons_some he] at hv ⊢
      obtain ⟨r', h', ha, hc⟩ := ih h (fun e h' => hv e (List.mem_cons_of_mem _ h')) (hr.set g x n)
      refine ⟨r', ?_, ha, fun f hf => hc f ?_⟩
      · rw [List.foldlM_cons, hl r hr]
        exact h'
      · by_cases hfg : f = g
        · subst hfg
          left
          simp [State.set]
        · rcases hf with hf | ⟨e, hmem, hef⟩
          · left
            simp [State.set, hfg, hf]
          · rcases List.mem_cons.mp hmem with rfl | hmem
            · exact absurd (Option.some.inj (hef.symm.trans hg)) hfg
            · exact .inr ⟨e, hmem, hef⟩
    | var he hf =>
      rw [List.filterMap_cons_some he] at hv
      exact absurd hf (hv _ (List.mem_cons_self ..))

theorem get_append_ne_none {varinfo name : List UInt8} (e : List UInt8) (h : get_var_rvalue varinfo name ≠ none) :
    get_var_rvalue (varinfo ++ e) name ≠ none := by
  unfold get_var_rvalue at h ⊢
  simp only [ne_eq, Option.map_eq_none_iff] at h ⊢
  exact find_append_ne_none e h

theorem run_defined (h : lines.foldlM (configfile_line scanf get_numcpus fuel) s = .ok s') {name : List UInt8}
    (hn : get_var_rvalue s.varinfo name ≠ none) :
    ∀ e ∈ varsOf (lines.filterMap line_entry), e.1 ≠ name := by
  induction lines generalizing s with
  | nil => intro e he; cases he
  | cons l lines ih =>
    obtain ⟨t, ht, h⟩ := foldlM_cons_ok h
    cases line_step ht with
    | skip he =>
      rw [List.filterMap_cons_none he]
      exact ih h hn
    | field he hf =>
      rw [List.filterMap_cons_some he, varsOf, List.filter_cons_of_neg (by simp [hf])]
      exact ih h hn
    | var he hf hnew =>
      rw [List.filterMap_cons_some he, varsOf, List.filter_cons_of_pos (by simp [hf])]
      intro e hmem
      rcases List.mem_cons.mp hmem with rfl | hmem
      · intro hname
        subst hname
        exact hn hnew
      · exact ih h (get_append_ne_none _ hn) e hmem

end

/-! ## The text of the variables -/

theorem mem_of_unquote {rvalue r : List UInt8} (h : unquote rvalue = some r) {c : UInt8}
    (hc : c ∈ r) : c ∈ rvalue := by
  unfold unquote at h
  split at h
  · simp only at h
    split at h
    · cases h
      exact List.mem_of_mem_take (List.mem_of_mem_drop hc)
    · cases h
  · cases h

theorem line_entry_chars {linebuffer : List UInt8} {e : List UInt8 × List UInt8}
    (h : line_entry linebuffer = some e) :
    0x3d ∉ e.1 ∧ 0x0a ∉ e.1 ∧ 0x0a ∉ e.2 := by
  unfold line_entry split_configline at h
  split at h
  · rename_i e' he
    subst h
    split at he
    · cases he
    · simp only at he
      split at he
      · cases he
      · rename_i c rvalue hrv
        have htemp : ∀ c ∈ (str linebuffer).filter fun c => !isblank c && !isspace c, c ≠ 0x0a := by
          intro c hc hnl
          subst hnl
          have := (List.mem_filter.mp hc).2
          revert this
          decide
        split at he
        · rename_i r hr
          cases he
          refine ⟨fun hm => ?_, fun hm => ?_, fun hm => ?_⟩
          · simpa using List.mem_takeWhile_imp hm
          · exact htemp _ ((List.takeWhile_prefix _).subset hm) rfl
          · have hmem := List.mem_cons_of_mem c (mem_of_unquote hr hm)
            rw [← hrv] at hmem
            exact htemp _ ((List.dropWhile_suffix _).subset hmem) rfl
        · cases he
  · cases h

theorem get_eq {name : List UInt8} (h : name.length ≤ MAX_VARNAME) (varinfo : List UInt8) :
    get_var_rvalue varinfo name = (find (0x0a :: (name ++ [0x3d])) varinfo).map
      fun i => varinfo.drop (i + (name.length + 2)) := by
  unfold get_var_rvalue
  rw [List.take_of_length_le (by omega)]
  simp

theorem takeWhile_name {n : List UInt8} (hn : 0x3d ∉ n) (b : List UInt8) :
    (n ++ 0x3d :: b).takeWhile (· != 0x3d) = n := by
  rw [List.takeWhile_append_of_pos]
  · simp
  · intro c hc
    simpa using fun h : c = 0x3d => hn (h ▸ hc)

theorem prefix_name {n a b : List UInt8} (hn : 0x3d ∉ n) (ha : 0x3d ∉ a)
    (h : (n ++ [0x3d]).isPrefixOf (a ++ 0x3d :: b) = true) : n = a := by
  rw [List.isPrefixOf_iff_prefix] at h
  obtain ⟨t, ht⟩ := h
  rw [List.append_assoc] at ht
  have hw := congrArg (List.takeWhile (· != 0x3d)) ht
  rw [takeWhile_name ha] at hw
  exact (takeWhile_name hn t).symm.trans hw

theorem find_varlines {name : List UInt8} (hn : 0x3d ∉ name) :
    ∀ es : List (List UInt8 × List UInt8), (∀ e ∈ es, 0x3d ∉ e.1 ∧ 0x0a ∉ e.1 ∧ 0x0a ∉ e.2) →
      (∀ e ∈ es.tail, e.1 ≠ name) → find (0x0a :: (name ++ [0x3d])) (varlines es) = none
  | [], _, _ => rfl
  | e :: es, hes, hne => by
    have hline : varlines (e :: es) = (e.1 ++ 0x3d :: e.2) ++ 0x0a :: varlines es := by
      simp [varlines, entry]
    obtain ⟨-, h₁, h₂⟩ := hes e (List.mem_cons_self ..)
    rw [hline, find_line (by simp [h₁, h₂])]
    have hrest := find_varlines hn es (fun e h => hes e (List.mem_cons_of_mem _ h))
      (fun e h => hne e (List.mem_of_mem_tail h))
    rw [hrest, if_neg]
    · rfl
    · intro hp
      cases es with
      | nil => cases name <;> cases hp
      | cons e' es =>
        have hline : varlines (e' :: es) = e'.1 ++ 0x3d :: (e'.2 ++ 0x0a :: varlines es) := by
          simp [varlines, entry]
        rw [hline] at hp
        exact hne e' (List.mem_cons_self ..)
          (prefix_name hn (hes e' (List.mem_cons_of_mem _ (List.mem_cons_self ..))).1 hp).symm

theorem get_empty : get_var_rvalue [] = fun _ => none := by
  funext name
  simp [get_var_rvalue, find]

theorem get_newline : get_var_rvalue [0x0a] = fun _ => none := by
  funext name
  have hm : ∀ m : List UInt8, find (0x0a :: (m ++ [0x3d])) [0x0a] = none := by
    intro m
    rw [← List.nil_append [(0x0a : UInt8)], find_line (by simp)]
    cases m <;> simp [find]
  show (find (0x0a :: (name.take (MAX_VARNAME + 1) ++ [0x3d])) [0x0a]).map _ = none
  rw [hm]
  rfl

theorem get_own {name : List UInt8} (h : name.length ≤ MAX_VARNAME) (rvalue t : List UInt8) :
    get_var_rvalue (0x0a :: (entry name rvalue ++ t)) name ≠ none := by
  have hsplit : 0x0a :: (entry name rvalue ++ t) = (0x0a :: (name ++ [0x3d])) ++ (rvalue ++ 0x0a :: t) := by
    simp [entry]
  rw [get_eq h, hsplit, find_self]
  simp

/-! ## Reload -/

theorem first_variable {fuel : Nat} {lines : List (List UInt8)} {s s' : State D}
    (h : lines.foldlM (configfile_line scanf get_numcpus fuel) s = .ok s') (hs : s.varinfo = [0x0a])
    {e : List UInt8 × List UInt8} {es : List (List UInt8 × List UInt8)}
    (hv : varsOf (lines.filterMap line_entry) = e :: es) :
    e.1.length ≤ MAX_VARNAME ∧ ∀ e' ∈ es, e'.1 ≠ e.1 := by
  induction lines generalizing s with
  | nil => cases hv
  | cons l lines ih =>
    obtain ⟨t, ht, h⟩ := foldlM_cons_ok h
    cases line_step ht with
    | skip he =>
      rw [List.filterMap_cons_none he] at hv
      exact ih h hs hv
    | field he hf =>
      rw [List.filterMap_cons_some he, varsOf, List.filter_cons_of_neg (by simp [hf])] at hv
      exact ih h hs hv
    | @var name rvalue he hf hnew hlen =>
      rw [List.filterMap_cons_some he, varsOf, List.filter_cons_of_pos (by simp [hf])] at hv
      obtain ⟨rfl, rfl⟩ := List.cons.inj hv
      refine ⟨hlen, run_defined h ?_⟩
      have := get_own hlen rvalue []
      rw [List.append_nil] at this
      rw [hs]
      exact this

theorem check_history_ok {s s' : State D} (h : check_history s = .ok s') : s' = s ∧
    s.history_max ≤ MAX_HISTORY := by
  unfold check_history at h
  split at h
  · cases h
  · rename_i hle
    cases h
    exact ⟨rfl, Nat.le_of_not_lt hle⟩

theorem reload_iff {fuel : Nat} {s t : State D} {file : List UInt8}
    (h : main scanf get_numcpus fuel file = .ok t) :
    (∃ n s', reload_daemon scanf get_numcpus n file s = .ok s' ∧ SameConfig s' t) ↔
      NoVariables file ∧ ∀ f, s.cfg f ≠ Config.initial f → Sets file f := by
  obtain ⟨t₀, hrun, ht⟩ := bind_eq_ok h
  obtain ⟨rfl, hhist⟩ := check_history_ok ht
  constructor
  · rintro ⟨n, s', hs, hsame⟩
    obtain ⟨s₀, hrun', hs⟩ := bind_eq_ok hs
    obtain ⟨rfl, -⟩ := check_history_ok hs
    constructor
    · by_contra hv
      have hne : varsOf (entries file) ≠ [] := by
        intro hnil
        apply hv
        intro e he hf
        have : e ∈ varsOf (entries file) := List.mem_filter.mpr ⟨he, by simp [hf]⟩
        rw [hnil] at this
        cases this
      obtain ⟨e, es, hes⟩ := List.exists_cons_of_ne_nil hne
      obtain ⟨hlen, hdiff⟩ := first_variable hrun rfl hes
      have hchars : ∀ e ∈ varsOf (entries file), 0x3d ∉ e.1 ∧ 0x0a ∉ e.1 ∧ 0x0a ∉ e.2 := by
        intro e he
        obtain ⟨l, -, hl⟩ := List.mem_filterMap.mp (List.mem_filter.mp he).1
        exact line_entry_chars hl
      have hfresh : get_var_rvalue t.varinfo e.1 ≠ none := by
        have hvar : t.varinfo = [0x0a] ++ varlines (varsOf (entries file)) := run_varinfo hrun
        rw [hvar, hes]
        exact get_own hlen e.2 (varlines es)
      apply hfresh
      have hvar : s'.varinfo = [] ++ varlines (varsOf (entries file)) := run_varinfo hrun'
      rw [← hsame.var e.1 hlen, hvar, List.nil_append, get_eq hlen]
      rw [hes] at hchars ⊢
      rw [find_varlines (hchars e (List.mem_cons_self ..)).1 _ hchars hdiff]
      rfl
    · intro f hf
      by_contra hset
      have hno : ∀ e ∈ entries file, config_field e.1 ≠ some f := fun e he hef => hset ⟨e, he, hef⟩
      apply hf
      have h₁ : s'.cfg f = s.cfg f := run_unset hrun' hno
      have h₂ : t.cfg f = Config.initial f := run_unset hrun hno
      rw [← h₁, ← h₂, hsame.cfg]
  · rintro ⟨hv, hset⟩
    have halike : Alike (D := D) ⟨Config.initial, [0x0a], 1⟩ ⟨s.cfg, [], 1⟩ :=
      ⟨Eq.trans get_newline (Eq.symm get_empty), rfl⟩
    obtain ⟨s', hrun', ha, hcfg⟩ := run_alike hrun hv halike
    refine ⟨fuel, s', ?_, ?_, ?_, ha.history.symm⟩
    · show (parse_configfile scanf get_numcpus fuel file _ >>= check_history) = _
      unfold parse_configfile
      rw [hrun']
      show check_history s' = _
      unfold check_history
      rw [← ha.history, if_neg (Nat.not_lt.mpr hhist)]
    · funext f
      refine (hcfg f ?_).symm
      by_cases hf : s.cfg f = Config.initial f
      · exact .inl hf.symm
      · exact .inr (hset f hf)
    · intro name _
      rw [ha.get]

/-- A reload with the file `G` gives the state of a start with `G` exactly when `G` defines no variable and has a
line for every rule and limit that `F` has set. -/
theorem reload_restart {fuelF fuelG : Nat} {F G : List UInt8} {sF sG : State D}
    (_hF : main scanf get_numcpus fuelF F = .ok sF) (hG : main scanf get_numcpus fuelG G = .ok sG) :
    (∃ n s, reload_daemon scanf get_numcpus n G sF = .ok s ∧ SameConfig s sG) ↔
      NoVariables G ∧ ∀ f, sF.cfg f ≠ Config.initial f → Sets G f :=
  reload_iff hG

/-! ## A file with a variable -/

def scanInt : Scanf Int where
  lf s := (digits s, (s.takeWhile isdigit).length)
  neg := Neg.neg

def cpuLines : List UInt8 :=
  Vtoc.bytes "update=\"10\"\ncpu_min=\"1\"\ncpu_max=\"0\"\nhotunplug=\"loadavg<1\"\n"

def thresholdFile : List UInt8 := Vtoc.bytes "limit=\"2\"\n" ++ cpuLines ++ Vtoc.bytes "hotplug=\"loadavg>limit\"\n"

def plainFile : List UInt8 := cpuLines ++ Vtoc.bytes "hotplug=\"loadavg>2\"\n"

theorem exists_ok {ε α : Type} {x : Except ε α} (h : x.toBool = true) : ∃ a, x = .ok a := by
  cases x with
  | error e => cases h
  | ok a => exact ⟨a, rfl⟩

theorem sample_files : (main scanInt 4 8 thresholdFile).toBool = true ∧ (main scanInt 4 8 plainFile).toBool = true ∧
    ¬NoVariables thresholdFile := by
  unfold NoVariables
  decide +kernel

theorem reload_plainFile : ∃ sF sG, main scanInt 4 8 thresholdFile = .ok sF ∧ main scanInt 4 8 plainFile = .ok sG ∧
    ((∃ n s, reload_daemon scanInt 4 n plainFile sF = .ok s ∧ SameConfig s sG) ↔
      NoVariables plainFile ∧ ∀ f, sF.cfg f ≠ Config.initial f → Sets plainFile f) := by
  obtain ⟨sF, hF⟩ := exists_ok sample_files.1
  obtain ⟨sG, hG⟩ := exists_ok sample_files.2.1
  exact ⟨sF, sG, hF, hG, reload_restart hF hG⟩

/-- The rule of a file is accepted at the start and its variable is unknown at a reload of the same file. -/
theorem reload_thresholdFile : ∃ sF, main scanInt 4 8 thresholdFile = .ok sF ∧
    ¬ ∃ n s, reload_daemon scanInt 4 n thresholdFile sF = .ok s ∧ SameConfig s sF := by
  obtain ⟨sF, hF⟩ := exists_ok sample_files.1
  exact ⟨sF, hF, fun h => sample_files.2.2 ((reload_iff hF).mp h).1⟩

end Cpuplugd
