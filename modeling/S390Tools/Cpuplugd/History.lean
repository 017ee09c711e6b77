import S390Tools.Cpuplugd.Reload

/-!
# The history of samples

The main loop reads one sample per interval into a ring of `history_max + 1` slots.
A slot of the model holds the number of the sample that was read into it; the terms
of the rules that look at samples are followed back to these numbers.
-/

namespace Cpuplugd

open CString Run

/-! ## The ring -/

/-- The buffers for samples. A slot that was not written since its allocation is `none`. -/
structure History where
  slots : Nat → Option Nat
  history_current : Nat
  history_prev : Nat
  /-- the samples that were read so far -/
  taken : Nat

def History.read (h : History) : History :=
  { h with slots := Function.update h.slots h.history_current (some h.taken), taken := h.taken + 1 }

def accumulate (history_max : Nat) : Nat → History → History
  | 0, h => h
  | n + 1, h =>
    let h := h.read
    let h := { h with history_current := h.history_current + 1 }
    if h.history_current < history_max then accumulate history_max n h else h

def setup_history (history_max : Nat) (h : History) : History :=
  let h := accumulate history_max (history_max + 1) { h with slots := fun _ => none, history_current := 0 }
  { h with history_current := h.history_current - 1 }

def interval (history_max : Nat) (h : History) : History :=
  History.read { h with history_prev := h.history_current
                        history_current := (h.history_current + 1) % (history_max + 1) }

/-- The slot that `get_value` reads, in unsigned arithmetic. -/
def history_index (history_max history_current index : Nat) : Nat :=
  if index ≤ history_current then history_current - index
  else Word.u32 ((history_max : Int) + 1 - (index - history_current))

/-- The last `k` samples are in the slots where `get_value` looks for them. -/
structure History.Filled (history_max k : Nat) (h : History) : Prop where
  current : h.history_current ≤ history_max
  enough : k ≤ h.taken
  slots : ∀ i < k, h.slots (history_index history_max h.history_current i) = some (h.taken - 1 - i)

theorem history_index_eq {m c i : Nat} (hm : m < 4294967295) (_hc : c ≤ m) (hi : i ≤ m) :
    history_index m c i = if i ≤ c then c - i else m + 1 + c - i := by
  unfold history_index
  split
  · rfl
  · rw [Word.u32_of_lt (by omega) (by omega)]
    omega

theorem accumulate_spec {m : Nat} : ∀ {n : Nat} {h : History}, m ≤ n + h.history_current → h.history_current < m →
    (∀ i < h.history_current, i < h.taken ∧ h.slots i = some (h.taken - h.history_current + i)) →
    h.history_current ≤ h.taken →
    (accumulate m n h).history_current = m ∧ m ≤ (accumulate m n h).taken ∧
      ∀ i < m, (accumulate m n h).slots i = some ((accumulate m n h).taken - m + i)
  | 0, h, hn, hc, _, _ => by omega
  | n + 1, h, hn, hc, hs, ht => by
    have hnext : ∀ i < h.history_current + 1, i < h.taken + 1 ∧
        Function.update h.slots h.history_current (some h.taken) i =
          some (h.taken + 1 - (h.history_current + 1) + i) := by
      intro i hi
      refine ⟨by omega, ?_⟩
      by_cases hlast : i = h.history_current
      · rw [hlast, Function.update_self]
        congr 1
        omega
      · rw [Function.update_of_ne hlast, (hs i (by omega)).2]
        congr 1
        omega
    rw [accumulate]
    simp only [History.read]
    by_cases hlt : h.history_current + 1 < m
    · simp only [hlt, if_true]
      exact accumulate_spec (h := { h with slots := _, history_current := _, taken := _ })
        (by simp only; omega) hlt hnext
        (by simp only; omega)
    · simp only [hlt, if_false]
      have hm : m = h.history_current + 1 := by omega
      subst hm
      exact ⟨rfl, by omega, fun i hi => (hnext i hi).2⟩

theorem setup_filled {m : Nat} (h₁ : 1 ≤ m) (hm : m < 4294967295) (h : History) :
    (setup_history m h).Filled m m := by
  obtain ⟨hc, ht, hs⟩ := accumulate_spec (m := m) (n := m + 1)
    (h := { h with slots := fun _ => none, history_current := 0 })
    (by simp only; omega) h₁ (fun i hi => absurd hi (Nat.not_lt_zero i)) (Nat.zero_le _)
  unfold setup_history
  refine ⟨by simp only [hc]; omega, ht, fun i hi => ?_⟩
  simp only [hc]
  rw [history_index_eq hm (by omega) (by omega), if_pos (by omega), hs _ (by omega)]
  congr 1
  omega

theorem interval_filled {m : Nat} (hm : m < 4294967295) {h : History} (hf : h.Filled m m) :
    (interval m h).Filled m (m + 1) := by
  have hc := hf.current
  have ht := hf.enough
  unfold interval History.read
  refine ⟨by simp only; exact Nat.le_of_lt_succ (Nat.mod_lt _ (by omega)), by simp only; omega, fun i hi => ?_⟩
  simp only
  -- the next slot, or the first one behind the last one
  obtain ⟨c, hcur, hnext⟩ : ∃ c, (h.history_current + 1) % (m + 1) = c ∧
      (c = h.history_current + 1 ∧ c ≤ m ∨ c = 0 ∧ h.history_current = m) := by
    rcases Nat.lt_or_ge h.history_current m with hlt | hge
    · exact ⟨_, Nat.mod_eq_of_lt (by omega), .inl ⟨rfl, hlt⟩⟩
    · have : h.history_current = m := by omega
      exact ⟨0, by rw [this, Nat.mod_self], .inr ⟨rfl, this⟩⟩
  rw [hcur]
  cases i with
  | zero =>
    rw [history_index_eq hm (by omega) (by omega), if_pos (Nat.zero_le _), Nat.sub_zero, Function.update_self]
    congr 1
  | succ i =>
    have hold := hf.slots i (by omega)
    rw [history_index_eq hm hc (by omega)] at hold
    have hsame : history_index m c (i + 1) = if i ≤ h.history_current then h.history_current - i
        else m + 1 + h.history_current - i := by
      rw [history_index_eq hm (by omega) (by omega)]
      split <;> split <;> omega
    have hne : history_index m c (i + 1) ≠ c := by
      rw [history_index_eq hm (by omega) (by omega)]
      split <;> omega
    rw [Function.update_of_ne hne, hsame, hold]
    congr 1
    omega

/-! ## Terms that look at samples -/

def Symop.is_history : Symop → Bool
  | .MEMINFO | .VMSTAT | .CPUSTAT | .TIME => true
  | _ => false

/-- The indices of the symbols that `get_value` is called for, as the text gives them. -/
def Term.history_symbols {D : Type} : Term D → List (Option Nat)
  | .symbol op _ index => if op.is_history then [index] else []
  | .const _ => []
  | .neg left | .not left => left.history_symbols
  | .binary _ left right => left.history_symbols ++ right.history_symbols

/-- The indices that are written out are at most `m`. -/
def Term.Below {D : Type} (m : Nat) (t : Term D) : Prop := ∀ i, some i ∈ t.history_symbols → i ≤ m

section
variable {D : Type} {scanf : Scanf D} {get : List UInt8 → Option (List UInt8)}

theorem Term.Below.mono {m n : Nat} (h : m ≤ n) {t : Term D} (ht : t.Below m) : t.Below n :=
  fun i hi => Nat.le_trans (ht i hi) h

theorem Term.Below.binary {m : Nat} {op : Binop} {l r : Term D} (hl : l.Below m) (hr : r.Below m) :
    (Term.binary op l r).Below m := by
  intro i hi
  rcases List.mem_append.mp hi with hi | hi
  · exact hl i hi
  · exact hr i hi

/-- Parsing only raises `history_max`, to at least the indices of the term. -/
def Raises (p : Parse (Option (Term D × List UInt8))) : Prop :=
  ∀ m r n, p m = .ok (r, n) → m ≤ n ∧ ∀ t rest, r = some (t, rest) → t.Below n

theorem raises_pure_none : Raises (D := D) (pure none) := by
  intro m r n h
  cases h
  exact ⟨Nat.le_refl m, fun t rest h => absurd h (by simp)⟩

theorem raises_symbol (s : List UInt8) : Raises (parse_symbol (D := D) s) := by
  intro m r n h
  unfold parse_symbol at h
  generalize sym_names.find? _ = found at h
  cases found with
  | none => exact raises_pure_none m r n h
  | some found =>
    obtain ⟨name, op⟩ := found
    simp only at h
    generalize (if has_proc_name op = true then some _ else none) = proc_name at h
    split at h
    · split at h
      · exact raises_pure_none m r n h
      · split at h
        · exact raises_pure_none m r n h
        · cases h
          refine ⟨Nat.le_max_left .., fun t rest ht => ?_⟩
          cases ht
          intro i hi
          unfold Term.history_symbols at hi
          split at hi
          · cases List.mem_singleton.mp hi
            exact Nat.le_max_right ..
          · cases hi
    · cases h
      refine ⟨Nat.le_refl _, fun t rest ht => ?_⟩
      cases ht
      intro i hi
      unfold Term.history_symbols at hi
      split at hi
      · cases List.mem_singleton.mp hi
      · cases hi

section
variable {parse_term : TermParser D} (hparse : ∀ prio s, Raises (parse_term prio s))

include hparse in
theorem var_term_raises {p : List UInt8} {m n : Nat} {r : Option (Term D) × List UInt8}
    (h : parse_var_term get parse_term p m = .ok (r, n)) : m ≤ n ∧ ∀ t, r.1 = some t → t.Below n := by
  unfold parse_var_term at h
  split at h
  · cases h
  · generalize get _ = found at h
    cases found with
    | none =>
      cases h
      exact ⟨Nat.le_refl m, fun t ht => absurd ht (by simp)⟩
    | some var_rvalue =>
      obtain ⟨⟨fn, k⟩, h₁, h⟩ := bind_eq_ok h
      obtain ⟨hle, hbelow⟩ := hparse _ _ _ _ _ h₁
      cases fn with
      | none =>
        simp only at h
        split at h
        · cases h
        · cases h
          exact ⟨hle, fun t ht => absurd ht (by simp)⟩
      | some fn =>
        simp only at h
        split at h
        · cases h
        · cases h
          refine ⟨hle, fun t ht => ?_⟩
          cases ht
          exact hbelow _ _ rfl

include hparse in
theorem raises_map {prio : OpPrio} {s : List UInt8} {f : Term D × List UInt8 → Term D × List UInt8}
    (hf : ∀ m x, x.1.Below m → (f x).1.Below m) : Raises (do pure ((← parse_term prio s).map f)) := by
  intro m r n h
  obtain ⟨⟨fn, k⟩, h₁, h⟩ := bind_eq_ok h
  cases h
  obtain ⟨hle, hbelow⟩ := hparse _ _ _ _ _ h₁
  refine ⟨hle, fun t rest ht => ?_⟩
  cases fn with
  | none => cases ht
  | some fn =>
    have := hf _ fn (hbelow _ _ rfl)
    rw [Option.some.inj ht] at this
    exact this

theorem const_below (m : Nat) (value : D) : (Term.const value).Below m := fun _ hi =>
    absurd hi (by simp [Term.history_symbols])

theorem raises_const (value : D) (s : List UInt8) : Raises (pure (some (.const value, s))) := by
  intro m r n h
  cases h
  refine ⟨Nat.le_refl m, fun t rest ht => ?_⟩
  cases ht
  exact const_below _ value

include hparse in
theorem raises_operand (prio : OpPrio) (s : List UInt8) : Raises (parse_operand scanf get parse_term prio s) := by
  unfold parse_operand
  by_cases hminus : char s = 0x2d
  · rw [if_pos hminus]
    by_cases hdigit : isdigit (char s.tail) = true
    · rw [if_pos hdigit]
      exact raises_const _ _
    · rw [if_neg hdigit]
      exact raises_map hparse fun m x hx => hx
  · rw [if_neg hminus]
    by_cases hnot : char s = 0x21
    · rw [if_pos hnot]
      exact raises_map hparse fun m x hx => hx
    · rw [if_neg hnot]
      by_cases hdigit : isdigit (char s) = true
      · rw [if_pos hdigit]
        exact raises_const _ _
      · rw [if_neg hdigit]
        by_cases hopen : char s = 0x28
        · rw [if_pos hopen]
          intro m r n h
          obtain ⟨⟨fn, k⟩, h₁, h⟩ := bind_eq_ok h
          obtain ⟨hle, hbelow⟩ := hparse _ _ _ _ _ h₁
          cases fn with
          | none =>
            cases h
            exact ⟨hle, fun t rest ht => absurd ht (by simp)⟩
          | some fn =>
            simp only at h
            split at h
            · cases h
              exact ⟨hle, fun t rest ht => absurd ht (by simp)⟩
            · cases h
              refine ⟨hle, fun t rest ht => ?_⟩
              cases ht
              exact hbelow _ _ rfl
        · rw [if_neg hopen]
          intro m r n h
          obtain ⟨⟨⟨fn, rest⟩, k⟩, h₁, h⟩ := bind_eq_ok h
          obtain ⟨hle, hbelow⟩ := var_term_raises hparse h₁
          cases fn with
          | none =>
            obtain ⟨hle', hbelow'⟩ := raises_symbol _ _ _ _ h
            exact ⟨Nat.le_trans hle hle', hbelow'⟩
          | some fn =>
            cases h
            refine ⟨hle, fun t rest ht => ?_⟩
            cases ht
            exact hbelow _ rfl

include hparse in
theorem raises_operators (prio : OpPrio) : ∀ (k : Nat) (fn : Term D) (s : List UInt8) {m n : Nat}
    {r : Option (Term D × List UInt8)}, fn.Below m → parse_operators parse_term prio k fn s m = .ok (r, n) →
    m ≤ n ∧ ∀ t rest, r = some (t, rest) → t.Below n
  | 0, _, _, _, _, _, _, h => by cases h
  | k + 1, fn, s, m, n, r, hfn, h => by
    unfold parse_operators at h
    cases hop : binop (char s) with
    | none =>
      rw [hop] at h
      cases h
      refine ⟨Nat.le_refl m, fun t rest ht => ?_⟩
      cases ht
      exact hfn
    | some op =>
      rw [hop] at h
      simp only at h
      split at h
      · cases h
        refine ⟨Nat.le_refl m, fun t rest ht => ?_⟩
        cases ht
        exact hfn
      · obtain ⟨⟨right, j⟩, h₁, h⟩ := bind_eq_ok h
        obtain ⟨hle, hbelow⟩ := hparse _ _ _ _ _ h₁
        cases right with
        | none =>
          cases h
          exact ⟨hle, fun t rest ht => absurd ht (by simp)⟩
        | some right =>
          obtain ⟨right, rest⟩ := right
          obtain ⟨hle', hbelow'⟩ := raises_operators prio k _ _ ((hfn.mono hle).binary (hbelow _ _ rfl)) h
          exact ⟨Nat.le_trans hle hle', hbelow'⟩

end

theorem parse_term_raises : ∀ (fuel : Nat) (prio : OpPrio) (s : List UInt8),
    Raises (parse_term scanf get fuel prio s)
  | 0, _, _ => by
    intro m r n h
    cases h
  | fuel + 1, prio, s => by
    intro m r n h
    obtain ⟨⟨fn, k⟩, h₁, h⟩ := bind_eq_ok h
    obtain ⟨hle, hbelow⟩ := raises_operand (parse_term_raises fuel) prio s _ _ _ h₁
    cases fn with
    | none =>
      cases h
      exact ⟨hle, fun t rest ht => absurd ht (by simp)⟩
    | some fn =>
      obtain ⟨fn, rest⟩ := fn
      obtain ⟨hle', hbelow'⟩ := raises_operators (parse_term_raises fuel) prio fuel fn rest (hbelow _ _ rfl) h
      exact ⟨Nat.le_trans hle hle', hbelow'⟩

/-! ## Configuration files -/

variable {get_numcpus : Int}

theorem check_field_raises {fuel : Nat} {rvalue : List UInt8} : ∀ {f : Field} {m n : Nat} {x : f.Val D},
    check_field scanf get_numcpus fuel rvalue get f m = .ok (x, n) →
      m ≤ n ∧ ∀ t fn, f = .term t → (HEq x (some fn : Option (Term D))) → fn.Below n
  | .term t, m, n, x, h => by
    obtain ⟨⟨fn, k⟩, h₁, h⟩ := bind_eq_ok h
    obtain ⟨hle, hbelow⟩ := parse_term_raises _ _ _ _ _ _ h₁
    cases fn with
    | none =>
      simp only at h
      split at h
      · cases h
      · cases h
        exact ⟨hle, fun t' fn' _ hx => absurd (eq_of_heq hx) (by simp)⟩
    | some fn =>
      simp only at h
      split at h
      · cases h
      · cases h
        refine ⟨hle, fun t' fn' _ hx => ?_⟩
        cases eq_of_heq hx
        exact hbelow _ _ rfl
  | .value v, m, n, x, h => by
    refine ⟨?_, fun t fn hf => absurd hf (by simp)⟩
    change check_value get_numcpus v rvalue m = .ok (x, n) at h
    unfold check_value at h
    simp only at h
    split at h
    · cases h
    · cases v <;> simp only [check_limit] at h
      · split at h
        · cases h; exact Nat.le_refl _
        · cases h
      · split at h
        · cases h; exact Nat.le_refl _
        · cases h
      · cases h; exact Nat.le_refl _
      · cases h; exact Nat.le_refl _
      · cases h; exact Nat.le_refl _

/-- What a line does to `history_max` and to the rules. -/
def State.Raised (s s' : State D) : Prop :=
  s.history_max ≤ s'.history_max ∧
    ∀ t fn, s'.cfg (.term t) = some fn → s.cfg (.term t) = some fn ∨ fn.Below s'.history_max

theorem State.Raised.refl (s : State D) : s.Raised s := ⟨Nat.le_refl _, fun _ _ h => .inl h⟩

theorem State.Raised.trans {s t u : State D} (h₁ : s.Raised t) (h₂ : t.Raised u) : s.Raised u := by
  refine ⟨Nat.le_trans h₁.1 h₂.1, fun f fn hf => ?_⟩
  rcases h₂.2 f fn hf with h | h
  · rcases h₁.2 f fn h with h | h
    · exact .inl h
    · exact .inr (h.mono h₂.1)
  · exact .inr h

theorem set_raised {s : State D} {f : Field} {x : f.Val D} {n : Nat} (hle : s.history_max ≤ n)
    (hbelow : ∀ t fn, f = .term t → HEq x (some fn : Option (Term D)) → fn.Below n) : s.Raised (s.set f x n) := by
  refine ⟨hle, fun t fn hfn => ?_⟩
  by_cases ht : f = .term t
  · subst ht
    have hx : x = some fn := by
      rw [← hfn]
      exact (Function.update_self (.term t) x s.cfg).symm
    exact .inr (hbelow t fn rfl (heq_of_eq hx))
  · have : (s.set f x n).cfg (.term t) = s.cfg (.term t) := Function.update_of_ne (fun h => ht h.symm) ..
    exact .inl (this ▸ hfn)

theorem line_raised {fuel : Nat} {s s' : State D} {linebuffer : List UInt8}
    (h : configfile_line scanf get_numcpus fuel s linebuffer = .ok s') : s.Raised s' := by
  unfold configfile_line at h
  split at h
  · obtain ⟨e, -, h⟩ := bind_eq_ok h
    cases e with
    | none =>
      cases h
      exact State.Raised.refl s
    | some e =>
      obtain ⟨name, rvalue⟩ := e
      simp only at h
      cases hf : config_field name with
      | none =>
        rw [hf] at h
        simp only at h
        split at h
        · cases h
        · obtain ⟨-, rfl⟩ := add_var_ok h
          exact ⟨Nat.le_refl _, fun _ _ h => .inl h⟩
      | some f =>
        rw [hf] at h
        obtain ⟨⟨x, n⟩, hx, h⟩ := bind_eq_ok h
        cases h
        obtain ⟨hle, hbelow⟩ := check_field_raises hx
        exact set_raised hle hbelow
  · cases h

theorem lines_raised {fuel : Nat} {lines : List (List UInt8)} {s s' : State D}
    (h : lines.foldlM (configfile_line scanf get_numcpus fuel) s = .ok s') : s.Raised s' := by
  induction lines generalizing s with
  | nil =>
    cases h
    exact State.Raised.refl _
  | cons l lines ih =>
    obtain ⟨t, ht, h⟩ := foldlM_cons_ok h
    exact (line_raised ht).trans (ih h)

theorem main_below {fuel : Nat} {file : List UInt8} {s : State D} (h : main scanf get_numcpus fuel file = .ok s) :
    (1 ≤ s.history_max ∧ s.history_max ≤ MAX_HISTORY) ∧ ∀ t fn, s.cfg (.term t) = some fn →
      fn.Below s.history_max := by
  obtain ⟨s₀, hrun, h⟩ := bind_eq_ok h
  obtain ⟨rfl, hmax⟩ := check_history_ok h
  obtain ⟨hle, hrules⟩ := lines_raised hrun
  refine ⟨⟨hle, hmax⟩, fun t fn hfn => ?_⟩
  rcases hrules t fn hfn with h | h
  · cases h
  · exact h

theorem reload_below {fuel : Nat} {file : List UInt8} {s s' : State D}
    (h : reload_daemon scanf get_numcpus fuel file s = .ok s') :
    (1 ≤ s'.history_max ∧ s'.history_max ≤ MAX_HISTORY) ∧
      ∀ t fn, s'.cfg (.term t) = some fn → s.cfg (.term t) = some fn ∨ fn.Below s'.history_max := by
  obtain ⟨s₀, hrun, h⟩ := bind_eq_ok h
  obtain ⟨rfl, hmax⟩ := check_history_ok h
  obtain ⟨hle, hrules⟩ := lines_raised hrun
  exact ⟨⟨hle, hmax⟩, hrules⟩

/-! ## Runs of the main loop -/

structure Daemon (D : Type) where
  state : State D
  history : History

variable (scanf get_numcpus) in
def start (fuel : Nat) (configfile : List UInt8) : Except Stop (Daemon D) := do
  let state ← main scanf get_numcpus fuel configfile
  let history := { slots := fun _ => none, history_current := 0, history_prev := 0, taken := 0 }
  pure { state, history := setup_history state.history_max history }

variable (scanf get_numcpus) in
/-- A reload with the buffers: they are allocated anew when `history_max` changes. -/
def reload (fuel : Nat) (configfile : List UInt8) (d : Daemon D) : Except Stop (Daemon D) := do
  let temp_history := d.state.history_max
  let state ← reload_daemon scanf get_numcpus fuel configfile d.state
  pure { state, history := if state.history_max ≠ temp_history then setup_history state.history_max d.history
                           else d.history }

variable (scanf get_numcpus) in
def check_reload (fuel : Nat) (reload_pending : Option (List UInt8)) (d : Daemon D) : Except Stop (Daemon D) :=
  match reload_pending with
  | some configfile => reload scanf get_numcpus fuel configfile d
  | none => .ok d

variable (scanf get_numcpus) in
def iteration (fuel : Nat) (d : Daemon D) (reload_pending : Option (List UInt8)) : Except Stop (Daemon D) := do
  let d ← check_reload scanf get_numcpus fuel reload_pending d
  pure { d with history := interval d.state.history_max d.history }

/-- `get_value` with this index reads the sample that was taken `i` intervals before the current one. -/
def Daemon.Reads (d : Daemon D) (index i : Nat) : Prop :=
  let slot := history_index d.state.history_max d.history.history_current index
  slot ≤ d.state.history_max ∧ ∃ n, d.history.slots slot = some n ∧ n + i + 1 = d.history.taken

/-- The invariant of the main loop when it has `k` samples. -/
structure Daemon.Ok (k : Nat → Nat) (d : Daemon D) : Prop where
  pos : 1 ≤ d.state.history_max
  max : d.state.history_max ≤ MAX_HISTORY
  filled : d.history.Filled d.state.history_max (k d.state.history_max)

theorem start_ok {fuel : Nat} {file : List UInt8} {d : Daemon D} (h : start scanf get_numcpus fuel file = .ok d) :
    d.Ok id := by
  obtain ⟨s, hs, h⟩ := bind_eq_ok h
  cases h
  obtain ⟨⟨h₁, h₂⟩, -⟩ := main_below hs
  have h₃ : s.history_max < 4294967295 := by unfold MAX_HISTORY at h₂; omega
  exact ⟨h₁, h₂, setup_filled h₁ h₃ _⟩

theorem History.Filled.mono {m k l : Nat} {h : History} (hf : h.Filled m k) (hl : l ≤ k) : h.Filled m l :=
  ⟨hf.current, Nat.le_trans hl hf.enough, fun i hi => hf.slots i (Nat.lt_of_lt_of_le hi hl)⟩

theorem iteration_ok {fuel : Nat} {d d' : Daemon D} {pending : Option (List UInt8)} (hd : d.Ok id)
    (h : iteration scanf get_numcpus fuel d pending = .ok d') : d'.Ok (· + 1) := by
  have hnext : ∀ {e : Daemon D}, e.Ok id →
      Daemon.Ok (· + 1) { e with history := interval e.state.history_max e.history } := by
    intro e he
    have hmax := he.max
    exact ⟨he.pos, he.max, interval_filled (Nat.lt_of_le_of_lt hmax (by decide)) he.filled⟩
  obtain ⟨e, he, h⟩ := bind_eq_ok h
  cases h
  apply hnext
  cases pending with
  | none =>
    cases he
    exact hd
  | some file =>
    obtain ⟨s, hs, he⟩ := bind_eq_ok he
    cases he
    obtain ⟨⟨h₁, h₂⟩, -⟩ := reload_below hs
    have h₃ : s.history_max < 4294967295 := by unfold MAX_HISTORY at h₂; omega
    refine ⟨h₁, h₂, ?_⟩
    by_cases hsame : s.history_max = d.state.history_max
    · simp only [hsame, ne_eq, not_true_eq_false, if_false]
      exact hd.filled
    · simp only [hsame, ne_eq, not_false_eq_true, if_true]
      exact setup_filled h₁ h₃ _

theorem run_ok {fuel : Nat} : ∀ {reloads : List (Option (List UInt8))} {d d' : Daemon D}, d.Ok id → reloads ≠ [] →
    reloads.foldlM (iteration scanf get_numcpus fuel) d = .ok d' → d'.Ok (· + 1)
  | [], _, _, _, hne, _ => absurd rfl hne
  | r :: rs, d, d', hd, _, h => by
    rw [List.foldlM_cons] at h
    obtain ⟨e, he, h⟩ := bind_eq_ok h
    have hok := iteration_ok hd he
    cases rs with
    | nil =>
      cases h
      exact hok
    | cons r' rs => exact run_ok ⟨hok.pos, hok.max, hok.filled.mono (Nat.le_succ _)⟩ (List.cons_ne_nil _ _) h

theorem reads_iff {d : Daemon D} (hd : d.Ok (· + 1)) {index i : Nat} (hi : i ≤ d.state.history_max) :
    (d.Reads i i) ∧ (index ≤ d.state.history_max → d.Reads index i → index = i) := by
  have hmax := hd.max
  have hc := hd.filled.current
  have hm : d.state.history_max < 4294967295 := by unfold MAX_HISTORY at hmax; omega
  have hin : ∀ j ≤ d.state.history_max, history_index d.state.history_max d.history.history_current j ≤
      d.state.history_max := by
    intro j hj
    rw [history_index_eq hm hc hj]
    split <;> omega
  have ht := hd.filled.enough
  constructor
  · exact ⟨hin i hi, _, hd.filled.slots i (by omega), by omega⟩
  · rintro hindex ⟨-, n, hn, hsum⟩
    rw [hd.filled.slots index (by omega)] at hn
    cases hn
    omega

theorem not_reads_above {d : Daemon D} (hd : d.Ok (· + 1)) {i : Nat}
    (hi : d.state.history_max < i) : ¬ d.Reads i i := by
  have hmax := hd.max
  have hc := hd.filled.current
  have hm : d.state.history_max < 4294967295 := by unfold MAX_HISTORY at hmax; omega
  have ht := hd.filled.enough
  rintro ⟨hle, n, hn, hsum⟩
  revert hle hn
  generalize history_index d.state.history_max d.history.history_current i = slot
  intro hle hn
  -- each slot belongs to an index up to `history_max`
  obtain ⟨j, hj, hslot⟩ : ∃ j ≤ d.state.history_max,
      history_index d.state.history_max d.history.history_current j = slot := by
    by_cases hs : slot ≤ d.history.history_current
    · refine ⟨d.history.history_current - slot, by omega, ?_⟩
      rw [history_index_eq hm hc (by omega), if_pos (by omega)]
      omega
    · refine ⟨d.history.history_current + d.state.history_max + 1 - slot, by omega, ?_⟩
      rw [history_index_eq hm hc (by omega), if_neg (by omega)]
      omega
  have hfill := hd.filled.slots j (by omega)
  rw [hslot, hn] at hfill
  cases hfill
  omega

theorem rules_read_iff {d : Daemon D} (hd : d.Ok (· + 1)) :
    (∀ t fn, d.state.cfg (.term t) = some fn → ∀ index ∈ fn.history_symbols, ∀ g < 4294967296,
        d.Reads (index.getD g) (index.getD 0)) ↔
      ∀ t fn, d.state.cfg (.term t) = some fn → ∀ index ∈ fn.history_symbols,
        ∃ i ≤ d.state.history_max, index = some i := by
  constructor
  · intro hread t fn hfn index hindex
    cases index with
    | none =>
      have h₁ := hread t fn hfn none hindex 1 (by decide)
      have := (@reads_iff _ _ hd 1 _ (Nat.zero_le _)).2 hd.pos h₁
      cases this
    | some i =>
      refine ⟨i, ?_, rfl⟩
      by_contra hlt
      exact not_reads_above hd (Nat.lt_of_not_le hlt) (hread t fn hfn (some i) hindex 0 (by decide))
  · intro hindices t fn hfn index hindex g _
    obtain ⟨i, hi, rfl⟩ := hindices t fn hfn index hindex
    exact (@reads_iff _ _ hd i _ hi).1

theorem history_run {fuel : Nat} {file : List UInt8} {d₀ d : Daemon D} {reloads : List (Option (List UInt8))}
    (h₀ : start scanf get_numcpus fuel file = .ok d₀)
    (hrun : reloads.foldlM (iteration scanf get_numcpus fuel) d₀ = .ok d) (hne : reloads ≠ []) :
    (∀ t fn, d.state.cfg (.term t) = some fn → ∀ index ∈ fn.history_symbols, ∀ g < 4294967296,
        d.Reads (index.getD g) (index.getD 0)) ↔
      ∀ t fn, d.state.cfg (.term t) = some fn → ∀ index ∈ fn.history_symbols,
        ∃ i ≤ d.state.history_max, index = some i :=
  rules_read_iff (run_ok (start_ok h₀) hne hrun)

end

/-! ## Rules with and without an index -/

def indexFile : List UInt8 := cpuLines ++ Vtoc.bytes "hotplug=\"time[0]>time[1]\"\n"

def timeFile : List UInt8 := cpuLines ++ Vtoc.bytes "hotplug=\"time>0\"\n"

theorem start_exists {fuel : Nat} {file : List UInt8} (h : (start scanInt 4 fuel file).toBool = true) :
    ∃ d₀ d, start scanInt 4 fuel file = .ok d₀ ∧ [none].foldlM (iteration scanInt 4 fuel) d₀ = .ok d ∧
      d.state = d₀.state := by
  obtain ⟨d₀, h₀⟩ := exists_ok h
  exact ⟨d₀, _, h₀, rfl, rfl⟩

theorem history_run_indexFile : ∃ d₀ d, start scanInt 4 8 indexFile = .ok d₀ ∧
    [none].foldlM (iteration scanInt 4 8) d₀ = .ok d ∧
    ((∀ t fn, d.state.cfg (.term t) = some fn → ∀ index ∈ fn.history_symbols, ∀ g < 4294967296,
        d.Reads (index.getD g) (index.getD 0)) ↔
      ∀ t fn, d.state.cfg (.term t) = some fn → ∀ index ∈ fn.history_symbols,
        ∃ i ≤ d.state.history_max, index = some i) := by
  obtain ⟨d₀, d, h₀, hrun, -⟩ := @start_exists 8 indexFile (by decide +kernel)
  exact ⟨d₀, d, h₀, hrun, history_run h₀ hrun (List.cons_ne_nil _ _)⟩

/-- The index of a symbol without brackets is whatever was in memory. -/
theorem history_timeFile : ∃ d₀ d, start scanInt 4 8 timeFile = .ok d₀ ∧
    [none].foldlM (iteration scanInt 4 8) d₀ = .ok d ∧
    ¬ ∀ t fn, d.state.cfg (.term t) = some fn → ∀ index ∈ fn.history_symbols, ∀ g < 4294967296,
        d.Reads (index.getD g) (index.getD 0) := by
  obtain ⟨d₀, d, h₀, hrun, hstate⟩ := @start_exists 8 timeFile (by decide +kernel)
  refine ⟨d₀, d, h₀, hrun, fun h => ?_⟩
  have hindices := (rules_read_iff (run_ok (start_ok h₀) (List.cons_ne_nil _ _) hrun)).mp h
  have hrule : ((start scanInt 4 8 timeFile).toOption.bind fun d => d.state.cfg (.term .hotplug)).map
      Term.history_symbols = some [none] := by decide +kernel
  rw [h₀] at hrule
  obtain ⟨fn, hfn, hsym⟩ := Option.map_eq_some_iff.mp hrule
  obtain ⟨i, -, hi⟩ := hindices .hotplug fn (by rw [hstate]; exact hfn)
    none (by rw [hsym]; exact List.mem_singleton.mpr rfl)
  cases hi

end Cpuplugd
