import Mathlib.Data.List.TakeWhile
import Mathlib.Tactic.Ring
import S390Tools.Vmur.Write

/-!
# What is written for a text

Reading byte by byte does not depend on how the input is divided. The records
written are those of the complete lines; what follows the last separator is read
and dropped.
-/

namespace Vmur

def lines (sep : UInt8) : Bytes → List Bytes × Bytes
  | [] => ([], [])
  | b :: l =>
    if b = sep then ([] :: (lines sep l).1, (lines sep l).2)
    else
      match (lines sep l).1 with
      | [] => ([], b :: (lines sep l).2)
      | x :: xs => ((b :: x) :: xs, (lines sep l).2)

theorem lines_flatten (sep : UInt8) : ∀ l : Bytes, (lines sep l).1.flatMap (· ++ [sep]) ++ (lines sep l).2 = l
  | [] => rfl
  | b :: l => by
    have ih := lines_flatten sep l
    rw [lines]
    by_cases hb : b = sep
    · rw [if_pos hb]
      simpa [hb] using ih
    · rw [if_neg hb]
      cases h : (lines sep l).1 with
      | nil => simpa [h] using ih
      | cons x xs => simpa [h] using ih

@[grind =] def recordsOf (record : Bytes → Option Bytes) (reclen : Nat) : List Bytes → Option Bytes
  | [] => some []
  | l :: ls =>
    if l.length ≤ reclen then
      match record l, recordsOf record reclen ls with
      | some r, some out => some (r ++ out)
      | _, _ => none
    else none

section
variable {record : Bytes → Option Bytes} {reclen : Nat}

theorem recordsOf_append : ∀ ls ls' : List Bytes, recordsOf record reclen (ls ++ ls') =
    match recordsOf record reclen ls, recordsOf record reclen ls' with
    | some out, some out' => some (out ++ out')
    | _, _ => none
  | [], ls' => by
    simp only [List.nil_append, recordsOf]
    cases recordsOf record reclen ls' <;> rfl
  | l :: ls, ls' => by
    simp only [List.cons_append, recordsOf, recordsOf_append ls ls']
    by_cases h : l.length ≤ reclen
    · simp only [if_pos h]
      cases record l <;> cases recordsOf record reclen ls <;> cases recordsOf record reclen ls' <;> simp
    · simp only [if_neg h]

theorem recordsOf_eq_none : ∀ {ls : List Bytes},
    recordsOf record reclen ls = none ↔ ∃ l ∈ ls, reclen < l.length ∨ record l = none
  | [] => by simp [recordsOf]
  | l :: ls => by
    have ih := @recordsOf_eq_none ls
    rw [recordsOf, List.exists_mem_cons_iff, ← ih]
    by_cases h : l.length ≤ reclen
    · rw [if_pos h]
      cases record l <;> cases recordsOf record reclen ls <;> simp [Nat.not_lt.mpr h]
    · rw [if_neg h]
      exact iff_of_true rfl (.inl (.inl (Nat.lt_of_not_le h)))

theorem length_recordsOf (hrec : ∀ l r, l.length ≤ reclen → record l = some r → r.length = reclen) :
    ∀ {ls : List Bytes} {out : Bytes}, recordsOf record reclen ls = some out → out.length = ls.length * reclen
  | [], out, h => by
    cases h
    simp
  | l :: ls, out, h => by
    rw [recordsOf] at h
    split at h
    · rename_i hl
      split at h
      · rename_i r rest hr hrest
        cases h
        rw [List.length_append, hrec l r hl hr, length_recordsOf hrec hrest, List.length_cons]
        ring
      · cases h
    · cases h

/-! ## Reading lines -/

def take_line (lf : UInt8) : Nat → Bytes → Line × Bytes
  | 0, l => (.inval, l)
  | _ + 1, [] => (.nodata, [])
  | len + 1, b :: l =>
    if b = lf then (.found [], l) else ((take_line lf len l).1.cons b, (take_line lf len l).2)

theorem read_line_eq (lf : UInt8) : ∀ (len : Nat) {s : Stream}, Ready s →
    (read_line lf len s).1 = (take_line lf len s.flatten).1 ∧
      (read_line lf len s).2.flatten = (take_line lf len s.flatten).2 ∧ Ready (read_line lf len s).2
  | 0, s, h => ⟨rfl, rfl, h⟩
  | len + 1, s, h => by
    have hone := read_one h
    have hready : Ready (read 1 s).2 := read_ready h
    rw [read_line]
    cases hs : s.flatten with
    | nil =>
      rw [hs] at hone
      rw [hone] at hready ⊢
      exact ⟨rfl, rfl, hready⟩
    | cons b l =>
      rw [hs] at hone
      obtain ⟨h1, h2⟩ := hone
      obtain ⟨d, s', hd⟩ : ∃ d s', read 1 s = (d, s') := ⟨_, _, rfl⟩
      rw [hd] at h1 h2 hready ⊢
      simp only at h1 h2 hready
      subst h1 h2
      simp only [take_line]
      by_cases hb : b = lf
      · simp only [if_pos hb]
        exact ⟨trivial, trivial, hready⟩
      · simp only [if_neg hb]
        obtain ⟨h3, h4, h5⟩ := read_line_eq lf len hready
        exact ⟨congrArg (Line.cons b) h3, h4, h5⟩

theorem take_line_eq (sep : UInt8) : ∀ (n : Nat) (l : Bytes), match lines sep l with
    | ([], r) => r = l ∧ (r.length ≤ n → take_line sep (n + 1) l = (.nodata, [])) ∧
        (n < r.length → (take_line sep (n + 1) l).1 = .inval)
    | (x :: xs, r) =>
      (x.length ≤ n → ∃ rest, take_line sep (n + 1) l = (.found x, rest) ∧ lines sep rest = (xs, r) ∧
        rest.length < l.length) ∧ (n < x.length → (take_line sep (n + 1) l).1 = .inval)
  | n, [] => ⟨rfl, fun _ => rfl, fun h => absurd h (Nat.not_lt_zero n)⟩
  | n, b :: l => by
    rw [lines]
    by_cases hb : b = sep
    · rw [if_pos hb]
      refine ⟨fun _ => ⟨l, ?_, rfl, Nat.lt_succ_self _⟩, fun h => absurd h (Nat.not_lt_zero n)⟩
      rw [take_line, if_pos hb]
    · rw [if_neg hb]
      cases n with
      | zero =>
        cases h : (lines sep l).1 with
        | nil =>
          refine ⟨?_, fun h => absurd h (by simp), fun _ => ?_⟩
          · have := lines_flatten sep l
            rw [h] at this
            exact congrArg (b :: ·) this
          · rw [take_line, if_neg hb]
            rfl
        | cons x xs =>
          refine ⟨fun h => absurd h (by simp), fun _ => ?_⟩
          rw [take_line, if_neg hb]
          rfl
      | succ n =>
        have ih := take_line_eq sep n l
        obtain ⟨ls, r, hl⟩ : ∃ ls r, lines sep l = (ls, r) := ⟨_, _, rfl⟩
        rw [hl] at ih ⊢
        cases ls with
        | nil =>
          obtain ⟨h1, h2, h3⟩ := ih
          refine ⟨congrArg (b :: ·) h1, fun h => ?_, fun h => ?_⟩
          · rw [take_line, if_neg hb, h2 (Nat.le_of_succ_le_succ h)]
            rfl
          · rw [take_line, if_neg hb, h3 (Nat.lt_of_succ_lt_succ h)]
            rfl
        | cons x xs =>
          obtain ⟨h1, h2⟩ := ih
          refine ⟨fun h => ?_, fun h => ?_⟩
          · obtain ⟨rest, h3, h4, h5⟩ := h1 (Nat.le_of_succ_le_succ h)
            refine ⟨rest, ?_, h4, Nat.lt_succ_of_lt h5⟩
            rw [take_line, if_neg hb, h3]
            rfl
          · rw [take_line, if_neg hb, h2 (Nat.lt_of_succ_lt_succ h)]
            rfl

/-- One portion: the records of up to `count` lines, or a failure at a line that is too long or is not converted. -/
theorem read_records_eq (sep : UInt8) : ∀ (count : Nat) {s : Stream} {ls : List Bytes} {r : Bytes}, Ready s →
    lines sep s.flatten = (ls, r) →
    (recordsOf record reclen (ls.take count) = none → read_records sep record reclen count s = none) ∧
    (∀ out, recordsOf record reclen (ls.take count) = some out → count ≤ ls.length →
      ∃ s', read_records sep record reclen count s = some (out, s') ∧ Ready s' ∧
        lines sep s'.flatten = (ls.drop count, r) ∧
        s'.flatten.length + min count ls.length ≤ s.flatten.length) ∧
    (∀ out, recordsOf record reclen (ls.take count) = some out → ls.length < count →
      (r.length ≤ reclen → ∃ s', read_records sep record reclen count s = some (out, s') ∧
        Ready s' ∧ s'.flatten = []) ∧
      (reclen < r.length → read_records sep record reclen count s = none))
  | 0, s, ls, r, hs, hl => by
    refine ⟨fun h => by simp [recordsOf] at h, fun out h _ => ⟨s, ?_, hs, by simpa using hl,
      by simp⟩, fun _ _ h => absurd h (Nat.not_lt_zero _)⟩
    rw [List.take_zero, recordsOf, Option.some.injEq] at h
    rw [read_records, h]
  | count + 1, s, ls, r, hs, hl => by
    obtain ⟨h1, h2, h3⟩ := read_line_eq sep (reclen + 1) hs
    have htake := take_line_eq sep reclen s.flatten
    rw [hl] at htake
    obtain ⟨line, s', hline⟩ : ∃ line s', read_line sep (reclen + 1) s = (line, s') := ⟨_, _, rfl⟩
    rw [hline] at h1 h2 h3
    simp only at h1 h2 h3
    rw [read_records, hline]
    cases ls with
    | nil =>
      obtain ⟨-, hshort, hlong⟩ := htake
      refine ⟨fun h => by simp [recordsOf] at h, fun _ _ h => absurd h (by simp), fun out h _ =>
        ⟨fun hr => ?_, fun hr => ?_⟩⟩
      · rw [List.take_nil, recordsOf, Option.some.injEq] at h
        rw [hshort hr] at h1 h2
        subst h1 h
        exact ⟨s', rfl, h3, h2⟩
      · rw [hlong hr] at h1
        subst h1
        rfl
    | cons x xs =>
      obtain ⟨hshort, hlong⟩ := htake
      rw [List.take_succ_cons, recordsOf]
      by_cases hx : x.length ≤ reclen
      · rw [if_pos hx]
        obtain ⟨rest, hfound, hrest, hlen⟩ := hshort hx
        rw [hfound] at h1 h2
        subst h1
        simp only at h2 ⊢
        subst h2
        obtain ⟨ih1, ih2, ih3⟩ := read_records_eq sep count h3 hrest
        cases hrec : record x with
        | none => exact ⟨fun _ => rfl, fun _ h => (nomatch h), fun _ h => (nomatch h)⟩
        | some rec =>
          cases hout : recordsOf record reclen (xs.take count) with
          | none =>
            rw [ih1 hout]
            exact ⟨fun _ => rfl, fun _ h => (nomatch h), fun _ h => (nomatch h)⟩
          | some out' =>
            refine ⟨fun h => (nomatch h), fun out h hcount => ?_, fun out h hcount => ⟨fun hr => ?_, fun hr => ?_⟩⟩
            · cases h
              obtain ⟨s'', h4, h5, h6, h7⟩ := ih2 out' hout (Nat.le_of_succ_le_succ hcount)
              refine ⟨s'', by rw [h4], h5, h6, ?_⟩
              rw [List.length_cons]
              omega
            · cases h
              obtain ⟨s'', h4, h5, h6⟩ := (ih3 out' hout (Nat.lt_of_succ_lt_succ hcount)).1 hr
              exact ⟨s'', by rw [h4], h5, h6⟩
            · rw [(ih3 out' hout (Nat.lt_of_succ_lt_succ hcount)).2 hr]
      · rw [if_neg hx]
        have hx := hlong (Nat.lt_of_not_le hx)
        rw [hx] at h1
        subst h1
        exact ⟨fun _ => rfl, fun _ h => (nomatch h), fun _ h => (nomatch h)⟩

theorem residual_mul (k : Nat) : residual reclen (k * reclen) = 0 := by
  simp [residual]

/-! ## Text and blocked files -/

def writtenLines (record : Bytes → Option Bytes) (reclen : Nat) (ls : List Bytes) (r : Bytes) : Outcome :=
  match recordsOf record reclen ls with
  | none => .failed
  | some out => if r.length ≤ reclen then .sent out else .failed

theorem ur_write_lines {info : Info} {sep : UInt8} (hpos : 0 < info.ur_reclen)
    (hread : ∀ s, read_input_file info s = read_records sep record info.ur_reclen VMUR_REC_COUNT s)
    (hrec : ∀ l r, l.length ≤ info.ur_reclen → record l = some r → r.length = info.ur_reclen) :
    ∀ {portions : Nat} {s : Stream} {ls : List Bytes} {r : Bytes}, Ready s → lines sep s.flatten = (ls, r) →
      s.flatten.length < portions → ur_write info portions s = writtenLines record info.ur_reclen ls r
  | 0, _, _, _, _, _, h => absurd h (Nat.not_lt_zero _)
  | portions + 1, s, ls, r, hs, hl, hlen => by
    obtain ⟨h1, h2, h3⟩ := @read_records_eq record info.ur_reclen sep VMUR_REC_COUNT s ls r hs hl
    have happend := @recordsOf_append record info.ur_reclen (ls.take VMUR_REC_COUNT) (ls.drop VMUR_REC_COUNT)
    rw [List.take_append_drop] at happend
    rw [ur_write, hread, writtenLines]
    cases htake : recordsOf record info.ur_reclen (ls.take VMUR_REC_COUNT) with
    | none =>
      rw [htake] at happend
      rw [h1 htake, happend]
    | some out =>
      have hout := length_recordsOf hrec htake
      have hres : residual info.ur_reclen out.length = 0 := by rw [hout, residual_mul]
      by_cases hcount : VMUR_REC_COUNT ≤ ls.length
      · obtain ⟨s', h4, h5, h6, h7⟩ := h2 out htake hcount
        have hne : 0 < out.length := by
          rw [hout, List.length_take, Nat.min_eq_left hcount]
          exact Nat.mul_pos (by decide) hpos
        obtain ⟨b, d, rfl⟩ : ∃ b d, out = b :: d := List.exists_cons_of_length_pos hne
        have hrest := @ur_write_lines info sep hpos hread hrec portions _ _ _ h5 h6 (by
          rw [Nat.min_eq_left hcount, VMUR_REC_COUNT] at h7
          omega)
        rw [h4]
        simp only [hres, hrest, List.replicate_zero, List.append_nil]
        rw [htake] at happend
        rw [happend, writtenLines]
        cases recordsOf record info.ur_reclen (ls.drop VMUR_REC_COUNT) with
        | none => rfl
        | some out' =>
          simp only
          by_cases hr : r.length ≤ info.ur_reclen
          · rw [if_pos hr, if_pos hr]
            rfl
          · rw [if_neg hr, if_neg hr]
            rfl
      · have hcount := Nat.lt_of_not_le hcount
        obtain ⟨h4, h5⟩ := h3 out htake hcount
        rw [List.take_of_length_le (Nat.le_of_lt hcount)] at htake
        rw [htake]
        by_cases hr : r.length ≤ info.ur_reclen
        · obtain ⟨s', h6, h7, h8⟩ := h4 hr
          rw [h6]
          simp only [if_pos hr]
          cases hd : out with
          | nil => rfl
          | cons b d =>
            have hne : s.flatten ≠ [] := fun hnil => by
              rw [hnil] at hl
              obtain ⟨rfl, -⟩ := Prod.mk.inj hl
              rw [recordsOf, hd] at htake
              cases htake
            have hpos' := List.length_pos_of_ne_nil hne
            have hrest := @ur_write_lines info sep hpos hread hrec portions s' [] [] h7
              (by rw [h8]; rfl) (by rw [h8, List.length_nil]; omega)
            rw [hd] at hres
            simp only [hres, hrest, List.replicate_zero, List.append_nil]
            simp [writtenLines, recordsOf, Outcome.cons]
        · simp only [h5 (Nat.lt_of_not_le hr), if_neg hr]

end

/-! ## Binary files -/

def padded (reclen : Nat) (d : Bytes) : Bytes :=
  d ++ List.replicate (residual reclen d.length) 0

section
variable {reclen : Nat}

theorem residual_of_mod {a : Nat} (h : a % reclen = 0) (b : Nat) : residual reclen (a + b) = residual reclen b := by
  rw [residual, Nat.add_mod, h, Nat.zero_add, Nat.mod_mod, residual]

theorem padded_append {c : Bytes} (h : c.length % reclen = 0) (d : Bytes) : padded reclen (c ++ d) =
    c ++ padded reclen d := by
  rw [padded, List.length_append, residual_of_mod h, padded, List.append_assoc]

theorem padded_of_mod {c : Bytes} (h : c.length % reclen = 0) : padded reclen c = c := by
  rw [padded, residual, h]
  simp

theorem ur_write_binary {info : Info} (hpos : 0 < info.ur_reclen) (ht : info.text_specified = false)
    (hb : info.blocked_specified = false) : ∀ {portions : Nat} {s : Stream}, Ready s → s.flatten.length < portions →
      ur_write info portions s = .sent (s.flatMap (padded info.ur_reclen))
  | 0, _, _, h => absurd h (Nat.not_lt_zero _)
  | portions + 1, [], _, _ => by simp [ur_write, read_input_file, ht, hb, read]
  | portions + 1, c :: s, hs, hlen => by
    have hc := hs c List.mem_cons_self
    have hs' : Ready s := fun d hd => hs d (List.mem_cons_of_mem c hd)
    have hcpos := List.length_pos_of_ne_nil hc
    rw [List.flatten_cons, List.length_append] at hlen
    rw [ur_write, read_input_file, ht, hb, if_neg (by decide), if_neg (by decide), read]
    by_cases hfit : c.length ≤ info.ur_reclen * VMUR_REC_COUNT
    · rw [if_pos hfit]
      obtain ⟨b, d, rfl⟩ := List.exists_cons_of_ne_nil hc
      have hrest := @ur_write_binary info hpos ht hb portions s hs' (by omega)
      simp only [hrest, List.flatMap_cons]
      rfl
    · rw [if_neg hfit]
      have hn : 0 < info.ur_reclen * VMUR_REC_COUNT := Nat.mul_pos hpos (by decide)
      generalize hnum : info.ur_reclen * VMUR_REC_COUNT = n at hfit hn ⊢
      have hmod : (c.take n).length % info.ur_reclen = 0 := by
        rw [List.length_take, Nat.min_eq_left (by omega), ← hnum]
        exact Nat.mul_mod_right _ _
      have hdrop : c.drop n ≠ [] := fun h => hfit (List.drop_eq_nil_iff.mp h)
      have hrest := @ur_write_binary info hpos ht hb portions (c.drop n :: s)
        (fun d hd => (List.mem_cons.mp hd).elim (fun h => h ▸ hdrop) (hs' d)) (by
          rw [List.flatten_cons, List.length_append, List.length_drop]
          omega)
      have hsplit : padded info.ur_reclen c = padded info.ur_reclen (c.take n) ++
        padded info.ur_reclen (c.drop n) := by
        rw [padded_of_mod hmod, ← padded_append hmod, List.take_append_drop]
      obtain ⟨b, d, htake⟩ : ∃ b d, c.take n = b :: d := List.exists_cons_of_length_pos (by
        rw [List.length_take]
        omega)
      rw [htake] at hsplit ⊢
      simp only [hrest, List.flatMap_cons, hsplit, List.append_assoc]
      simp only [Outcome.cons, padded, List.append_assoc]

/-! ### Zero bytes between the portions -/

def lead (l : Bytes) : Nat := (l.takeWhile (· = 0)).length

theorem lead_append_of_zero {l : Bytes} (h : ∀ b ∈ l, b = 0) (l' : Bytes) : lead (l ++ l') =
    l.length + lead l' := by
  have hl : l.takeWhile (· = 0) = l := List.takeWhile_eq_self_iff.mpr (by simpa using h)
  rw [lead, List.takeWhile_append, hl, if_pos rfl, List.length_append, lead]

theorem lead_append_of_not_zero {l : Bytes} (h : ¬∀ b ∈ l, b = 0) (l' : Bytes) : lead (l ++ l') = lead l := by
  have hl : (l.takeWhile (· = 0)).length ≠ l.length := fun he => h <| by
    have := List.takeWhile_eq_self_iff.mp ((List.takeWhile_prefix _).eq_of_length he)
    simpa using this
  rw [lead, List.takeWhile_append, if_neg hl, lead]

theorem lead_le_padded : ∀ s : Stream, lead s.flatten ≤ lead (s.flatMap (padded reclen))
  | [] => Nat.le_refl _
  | c :: s => by
    have ih := lead_le_padded s
    rw [List.flatten_cons, List.flatMap_cons, padded, List.append_assoc]
    by_cases hc : ∀ b ∈ c, b = 0
    · rw [lead_append_of_zero hc, lead_append_of_zero hc,
        lead_append_of_zero (fun b hb => List.eq_of_mem_replicate hb)]
      omega
    · rw [lead_append_of_not_zero hc, lead_append_of_not_zero hc]

/-- The fill bytes between the portions cannot be told from the data: up to a portion `c` all portions are whole
records, behind it there are only zero bytes, and there are as many fill bytes as for the whole input. -/
def Seamless (reclen : Nat) (s : Stream) : Prop :=
  s = [] ∨ ∃ (good : Stream) (c : Bytes) (rest : Stream), s = good ++ c :: rest ∧ (∀ g ∈ good, g.length % reclen = 0) ∧
    (∀ b ∈ rest.flatten, b = 0) ∧
    (s.map fun c => residual reclen c.length).sum = residual reclen s.flatten.length

theorem length_flatMap_padded : ∀ s : Stream,
    (s.flatMap (padded reclen)).length = s.flatten.length + (s.map fun c => residual reclen c.length).sum
  | [] => rfl
  | c :: s => by
    rw [List.flatMap_cons, List.length_append, length_flatMap_padded s, padded, List.length_append,
      List.length_replicate,
      List.flatten_cons, List.length_append, List.map_cons, List.sum_cons]
    omega

theorem flatMap_padded_of_mod : ∀ {s : Stream}, (∀ c ∈ s, c.length % reclen = 0) →
    s.flatMap (padded reclen) = s.flatten
  | [], _ => rfl
  | c :: s, h => by
    rw [List.flatMap_cons, List.flatten_cons, padded_of_mod (h c List.mem_cons_self),
      flatMap_padded_of_mod fun d hd => h d (List.mem_cons_of_mem c hd)]

theorem length_flatten_mod : ∀ {s : Stream}, (∀ c ∈ s, c.length % reclen = 0) → s.flatten.length % reclen = 0
  | [], _ => Nat.zero_mod reclen
  | c :: s, h => by
    rw [List.flatten_cons, List.length_append, Nat.add_mod, h c List.mem_cons_self,
      length_flatten_mod fun d hd => h d (List.mem_cons_of_mem c hd)]
    exact Nat.zero_mod reclen

theorem seamless_of_eq (hpos : 0 < reclen) : ∀ {s : Stream},
    s.flatMap (padded reclen) = padded reclen s.flatten → Seamless reclen s
  | [], _ => .inl rfl
  | c :: s, h => by
    have hsum : ((c :: s).map fun c => residual reclen c.length).sum = residual reclen (c :: s).flatten.length := by
      have := congrArg List.length h
      rw [length_flatMap_padded, padded, List.length_append, List.length_replicate] at this
      omega
    rw [List.flatMap_cons, List.flatten_cons] at h
    by_cases hc : c.length % reclen = 0
    · rw [padded_of_mod hc, padded_append hc] at h
      rcases seamless_of_eq hpos (List.append_cancel_left h) with rfl | ⟨good, c', rest, rfl, hgood, hrest, -⟩
      · exact .inr ⟨[], c, [], rfl, by simp, by simp, hsum⟩
      · refine .inr ⟨c :: good, c', rest, rfl, fun g hg => ?_, hrest, hsum⟩
        rcases List.mem_cons.mp hg with rfl | hg
        · exact hc
        · exact hgood g hg
    · refine .inr ⟨[], c, s, rfl, by simp, ?_, hsum⟩
      rw [padded, padded, List.append_assoc, List.append_assoc] at h
      by_contra hzero
      -- the first byte that is not zero would stand too far behind
      have hlead := congrArg lead (List.append_cancel_left h)
      rw [lead_append_of_zero (fun b hb => List.eq_of_mem_replicate hb), lead_append_of_not_zero hzero,
        List.length_replicate] at hlead
      have hle := @lead_le_padded reclen s
      have hres : 0 < residual reclen c.length := by
        have hlt := Nat.mod_lt c.length hpos
        rw [residual, Nat.mod_eq_of_lt (by omega)]
        omega
      omega

theorem eq_replicate_append {n : Nat} {l : Bytes} (h : ∀ b ∈ l, b = 0) (hl : l.length = n) : l =
    List.replicate n 0 :=
  List.eq_replicate_iff.mpr ⟨hl, h⟩

theorem eq_of_seamless {s : Stream} (h : Seamless reclen s) : s.flatMap (padded reclen) =
    padded reclen s.flatten := by
  rcases h with rfl | ⟨good, c, rest, rfl, hgood, hrest, hsum⟩
  · simp [padded, residual]
  · have hlen : ((good ++ c :: rest).flatMap (padded reclen)).length =
      (padded reclen (good ++ c :: rest).flatten).length := by
      rw [length_flatMap_padded, hsum, padded, List.length_append, List.length_replicate]
    rw [List.flatMap_append, flatMap_padded_of_mod hgood, List.flatMap_cons, List.flatten_append,
      List.flatten_cons] at hlen ⊢
    rw [padded_append (length_flatten_mod hgood)] at hlen ⊢
    rw [padded, padded, List.append_assoc, List.append_assoc] at hlen ⊢
    congr 2
    simp only [List.length_append] at hlen
    have hz : ∀ b ∈ rest.flatMap (padded reclen), b = 0 := by
      intro b hb
      obtain ⟨d, hd, hbd⟩ := List.mem_flatMap.mp hb
      rw [padded, List.mem_append] at hbd
      rcases hbd with hbd | hbd
      · exact hrest b (List.mem_flatten.mpr ⟨d, hd, hbd⟩)
      · exact List.eq_of_mem_replicate hbd
    refine (eq_replicate_append (fun b hb => ?_) rfl).trans (eq_replicate_append (fun b hb => ?_) ?_).symm
    · rcases List.mem_append.mp hb with hb | hb
      · exact List.eq_of_mem_replicate hb
      · exact hz b hb
    · rcases List.mem_append.mp hb with hb | hb
      · exact hrest b hb
      · exact List.eq_of_mem_replicate hb
    · simp only [List.length_append]
      omega

end

end Vmur
