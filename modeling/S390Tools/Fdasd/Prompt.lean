import S390Tools.Fdasd.Choice

/-!
# Prompts for the tracks

The lines that the user types are read until one of them gives a track in the
range. A line without a number stands for the default as long as no line had
one, and the end of the input is an empty line.
-/

namespace Fdasd.Prompt

open Word Vtoc CString DList

/-! ## Lines -/

inductive Offset
  | lower
  | upper
  deriving DecidableEq

def isgraph (c : UInt8) : Bool := 0x21 ≤ c && c ≤ 0x7e

/-- `line_ptr` behind `read_line`; `line` is what `fgets` stores. -/
def read_line (line : List UInt8) : List UInt8 := (str line).dropWhile fun c => !isgraph c

def taken : List UInt8 → Bool
  | [] => true
  | c :: _ => isdigit c || c == 0x2d || c == 0x2b

def scaled (geo : HdGeometry) (blksize : Nat) (unit : Option UInt8) (trk : Nat) : Nat :=
  if unit = some 0x63 ∨ unit = some 0x43 then u64 (trk * geo.heads : Nat)
  else if unit = some 0x6b ∨ unit = some 0x4b then u64 (trk * 1024 : Nat) / blksize / geo.sectors
  else if unit = some 0x6d ∨ unit = some 0x4d then u64 (trk * (1024 * 1024) : Nat) / blksize / geo.sectors
  else if unit = some 0x67 ∨ unit = some 0x47 then u64 (trk * (1024 * 1024 * 1024) : Nat) / blksize / geo.sectors
  else trk

/-- `atoi` reads a `long` and keeps an `int` of it. -/
def number (s : List UInt8) : Nat :=
  u64 (i32 (max (-9223372036854775808) (min 9223372036854775807 (atoi s))))

def startsWithDigit (s : List UInt8) : Bool := s.head?.any isdigit

def lineTrack (geo : HdGeometry) (blksize : Nat) (base : Offset) (low high : Nat) (s : List UInt8) : Nat × Bool :=
  let signed := s.head? = some 0x2b ∨ s.head? = some 0x2d
  if signed ∧ base ≠ .lower then
    let s := if s.head? = some 0x2b then s.tail else s
    let trk := scaled geo blksize (s.dropWhile isdigit).head? (number s)
    (u64 ((trk : Int) + ((low : Int) - 1)), startsWithDigit s)
  else if s = [] then
    match base with
    | .lower => (low, false)
    | .upper => (high, false)
  else
    let s := if signed then s.tail else s
    (number s, startsWithDigit s)

/-- The track after one line; `use_default` tells that there was no number up to now. -/
def answer (geo : HdGeometry) (blksize : Nat) (base : Offset) (low dflt high : Nat) (use_default : Bool)
    (s : List UInt8) : Nat × Bool :=
  let r := lineTrack geo blksize base low high s
  let use_default := use_default && !r.2
  (if use_default then dflt else r.1, use_default)

def fdasd_read_int (geo : HdGeometry) (blksize : Nat) (base : Offset) (low dflt high : Nat) :
    Bool → List (List UInt8) → Except Stop (Nat × List (List UInt8))
  | use_default, [] =>
    let r := answer geo blksize base low dflt high use_default []
    if low ≤ r.1 ∧ r.1 ≤ high then .ok (r.1, []) else .error .endless
  | use_default, line :: lines =>
    let s := read_line line
    if taken s then
      let r := answer geo blksize base low dflt high use_default s
      if low ≤ r.1 ∧ r.1 ≤ high then .ok (r.1, lines)
      else fdasd_read_int geo blksize base low dflt high r.2 lines
    else fdasd_read_int geo blksize base low dflt high use_default lines

def fdasd_get_partition_data (geo : HdGeometry) (anc : FdasdAnchor) (lines : List (List UInt8)) :
    Except Stop (Option (Nat × Nat)) := do
  let limit := partitionLimit anc
  let start ← defaultStart anc (USABLE_PARTITIONS + 1) anc.first FIRST_USABLE_TRK
  if start > limit then .ok none
  else do
    let (start, lines) ← fdasd_read_int geo anc.blksize .lower start start limit true lines
    let (start, limit) ← checkStart anc (USABLE_PARTITIONS * (USABLE_PARTITIONS + 3)) anc.first start limit
    if start = limit then .ok (some (start, start))
    else do
      let (stop, _) ← fdasd_read_int geo anc.blksize .upper start limit limit true lines
      .ok (some (start, stop))

/-! ## The prompt gives a track -/

theorem answer_empty {geo : HdGeometry} {blksize low dflt high : Nat} {base : Offset} {use_default : Bool}
    (hlow : low ≤ dflt) (hhigh : dflt ≤ high) :
    low ≤ (answer geo blksize base low dflt high use_default []).1 ∧
      (answer geo blksize base low dflt high use_default []).1 ≤ high := by
  cases use_default <;> cases base <;> simp [answer, lineTrack] <;> omega

theorem read_int_ok {geo : HdGeometry} {blksize low dflt high : Nat} {base : Offset} (hlow : low ≤ dflt)
    (hhigh : dflt ≤ high) (use_default : Bool) (lines : List (List UInt8)) :
    ∃ r, fdasd_read_int geo blksize base low dflt high use_default lines = .ok r ∧ low ≤ r.1 ∧ r.1 ≤ high := by
  induction lines generalizing use_default with
  | nil =>
    have h := @answer_empty geo blksize low dflt high base use_default hlow hhigh
    exact ⟨_, if_pos h, h⟩
  | cons line lines ih =>
    unfold fdasd_read_int
    by_cases ht : taken (read_line line)
    · simp only [ht, if_true]
      split
      · rename_i hr
        exact ⟨_, rfl, hr⟩
      · exact ih _
    · simp only [ht]
      exact ih _

theorem read_int_range {geo : HdGeometry} {blksize low dflt high : Nat} {base : Offset} {use_default : Bool}
    {lines : List (List UInt8)} {r : Nat × List (List UInt8)}
    (h : fdasd_read_int geo blksize base low dflt high use_default lines = .ok r) : low ≤ r.1 ∧ r.1 ≤ high := by
  induction lines generalizing use_default with
  | nil =>
    simp only [fdasd_read_int] at h
    split at h
    · rename_i hr
      cases h
      exact hr
    · cases h
  | cons line lines ih =>
    unfold fdasd_read_int at h
    by_cases ht : taken (read_line line)
    · simp only [ht, if_true] at h
      split at h
      · rename_i hr
        cases h
        exact hr
      · exact ih h
    · simp only [ht] at h
      exact ih h

/-! ## Plain numbers -/

def typed (n : Nat) : List UInt8 := decimal n ++ [0x0a]

theorem digit_plain {c : UInt8} (h : isdigit c = true) :
    c ≠ 0 ∧ isgraph c = true ∧ isspace c = false ∧ c ≠ 0x2b ∧ c ≠ 0x2d := by
  revert c
  decide +kernel

theorem decimal_cons (n : Nat) : ∃ c s, decimal n = c :: s ∧ isdigit c = true := by
  cases hd : decimal n with
  | nil => exact absurd hd (decimal_ne_nil n)
  | cons c s => exact ⟨c, s, rfl, decimal_digits n c (hd ▸ List.mem_cons_self)⟩

theorem read_line_typed (n : Nat) : read_line (typed n) = typed n := by
  have hchars : ∀ c ∈ decimal n, c ≠ 0 := fun c hc => (digit_plain (decimal_digits n c hc)).1
  obtain ⟨c, s, hcs, hc⟩ := decimal_cons n
  unfold read_line typed
  rw [str_append hchars, hcs, List.cons_append,
    List.dropWhile_cons_of_neg (by rw [(digit_plain hc).2.1]; exact Bool.false_ne_true)]
  rfl

theorem number_typed {n : Nat} (h : n < 2147483648) : number (typed n) = n := by
  have hchars : ∀ c ∈ decimal n, c ≠ 0 := fun c hc => (digit_plain (decimal_digits n c hc)).1
  have hdigits : digits (decimal n ++ [0x0a]) = n := by
    rw [digits_append (decimal_digits n) fun c hc => ?_, digits_decimal]
    rw [← Option.some.inj hc]
    rfl
  have hatoi : atoi (typed n) = n := by
    obtain ⟨c, s, hcs, hc⟩ := decimal_cons n
    obtain ⟨-, -, hspace, hplus, hminus⟩ := digit_plain hc
    have hstr : str (typed n) = c :: (s ++ [0x0a]) := by
      rw [typed, str_append hchars, hcs]
      rfl
    have hskip : (c :: (s ++ [0x0a])).dropWhile isspace = c :: (s ++ [0x0a]) :=
      List.dropWhile_cons_of_neg (by rw [hspace]; exact Bool.false_ne_true)
    rw [hcs, List.cons_append] at hdigits
    unfold atoi
    rw [hstr, hskip]
    split
    · rename_i heq
      exact absurd (List.cons.inj heq).1 hminus
    · rename_i heq
      exact absurd (List.cons.inj heq).1 hplus
    · exact congrArg _ hdigits
  unfold number u64 i32
  rw [hatoi]
  omega

theorem answer_typed {geo : HdGeometry} {blksize low dflt high n : Nat} {base : Offset} {use_default : Bool}
    (h : n < 2147483648) : answer geo blksize base low dflt high use_default (typed n) = (n, false) := by
  obtain ⟨c, s, hcs, hc⟩ := decimal_cons n
  obtain ⟨-, -, -, hplus, hminus⟩ := digit_plain hc
  have hline : typed n = c :: (s ++ [0x0a]) := by
    rw [typed, hcs]
    rfl
  have hsigned : ¬((typed n).head? = some 0x2b ∨ (typed n).head? = some 0x2d) := by
    rw [hline]
    rintro (h | h)
    · exact hplus (Option.some.inj h)
    · exact hminus (Option.some.inj h)
  have hdigit : startsWithDigit (typed n) = true := by
    rw [hline]
    exact hc
  have htrack : lineTrack geo blksize base low high (typed n) = (n, true) := by
    unfold lineTrack
    simp only
    rw [if_neg fun h => hsigned h.1, if_neg (by rw [hline]; exact List.cons_ne_nil _ _), if_neg hsigned,
      number_typed h, hdigit]
  unfold answer
  rw [htrack]
  simp

theorem read_int_typed {geo : HdGeometry} {blksize low dflt high n : Nat} {base : Offset} {use_default : Bool}
    {lines : List (List UInt8)} (hn : n < 2147483648) (hlow : low ≤ n) (hhigh : n ≤ high) :
    fdasd_read_int geo blksize base low dflt high use_default (typed n :: lines) = .ok (n, lines) := by
  have htaken : taken (typed n) = true := by
    obtain ⟨c, s, hcs, hc⟩ := decimal_cons n
    rw [typed, hcs]
    simp [taken, hc]
  unfold fdasd_read_int
  simp only [read_line_typed, htaken, answer_typed hn, if_true]
  rw [if_pos ⟨hlow, hhigh⟩]

/-- The list holds at most two partitions `us` in ascending order and then the unused structures `fs`. -/
structure Parts (anc : FdasdAnchor) (us fs : List Node) : Prop where
  list : IsList anc.links anc.first anc.last (us ++ fs)
  all : (us ++ fs).length = USABLE_PARTITIONS
  length : us.length ≤ 2
  range : ∀ n ∈ us, FIRST_USABLE_TRK ≤ (anc.info n).start_trk ∧ (anc.info n).start_trk ≤ (anc.info n).end_trk ∧
    (anc.info n).end_trk ≤ partitionLimit anc
  sorted : us.Pairwise fun n m => (anc.info n).end_trk < (anc.info m).start_trk
  unused : ∀ n ∈ fs, (anc.info n).start_trk = 0 ∧ (anc.info n).end_trk = 0

def FreeTrack (anc : FdasdAnchor) (us : List Node) : Prop :=
  ∃ t, FIRST_USABLE_TRK ≤ t ∧ t ≤ partitionLimit anc ∧ ∀ n ∈ us, ¬inPartition (anc.info n) t

/-- The tracks `r` are on the disk and in no partition. -/
structure Chosen (anc : FdasdAnchor) (us : List Node) (r : Nat × Nat) : Prop where
  range : FIRST_USABLE_TRK ≤ r.1 ∧ r.1 ≤ r.2 ∧ r.2 ≤ partitionLimit anc
  apart : ∀ n ∈ us, r.2 < (anc.info n).start_trk ∨ (anc.info n).end_trk < r.1

/-- The partitions begin at the first usable track and end with the last one, and the first prompt is
answered with a track from the second partition on. -/
def AnsweredLast (geo : HdGeometry) (anc : FdasdAnchor) (us : List Node) (lines : List (List UInt8)) : Prop :=
  ∃ p q trk rest, us = [p, q] ∧ (anc.info p).start_trk = FIRST_USABLE_TRK ∧
    (anc.info q).end_trk = partitionLimit anc ∧
    fdasd_read_int geo anc.blksize .lower ((anc.info p).end_trk + 1) ((anc.info p).end_trk + 1) (partitionLimit anc)
      true lines = .ok (trk, rest) ∧ (anc.info q).start_trk ≤ trk

section
variable {geo : HdGeometry} {anc : FdasdAnchor} {us fs : List Node}

theorem links_three {a b c : Node} (h : IsList anc.links anc.first anc.last [a, b, c]) :
    anc.first = some a ∧ anc.links.next a = some b ∧ anc.links.next b = some c ∧ anc.links.next c = none := by
  have ha := @IsList.next_eq _ _ _ _ [] [b, c] a h
  have hb := @IsList.next_eq _ _ _ _ [a] [c] b h
  have hc := @IsList.next_eq _ _ _ _ [a, b] [] c h
  exact ⟨h.first_eq, ha, hb, hc⟩

theorem Parts.three (h : Parts anc us fs) : ∃ a b c, Three anc a b c ∧
    (us = [] ∧ ((anc.info a).start_trk = 0 ∧ (anc.info a).end_trk = 0) ∧
        (anc.info b).start_trk = 0 ∧ (anc.info b).end_trk = 0 ∨
      us = [a] ∧ (anc.info b).start_trk = 0 ∧ (anc.info b).end_trk = 0 ∨
      us = [a, b]) := by
  have hr := h.range
  have hs := h.sorted
  have hu := h.unused
  have hall := h.all
  have hlist := h.list
  match us, fs, h.length with
  | [], [a, b, c], _ =>
    obtain ⟨h₁, h₂, h₃, h₄⟩ := links_three hlist
    have ha := hu a (by simp)
    have hb := hu b (by simp)
    exact ⟨a, b, c, ⟨h₁, h₂, h₃, h₄, .inr ha, .inr hb⟩, .inl ⟨rfl, ha, hb⟩⟩
  | [a], [b, c], _ =>
    obtain ⟨h₁, h₂, h₃, h₄⟩ := links_three hlist
    have ha := hr a (by simp)
    have hb := hu b (by simp)
    exact ⟨a, b, c, ⟨h₁, h₂, h₃, h₄, .inl ha, .inr hb⟩, .inr (.inl ⟨rfl, hb⟩)⟩
  | [a, b], [c], _ =>
    obtain ⟨h₁, h₂, h₃, h₄⟩ := links_three hlist
    have ha := hr a (by simp)
    have hb := hr b (by simp)
    have hab : (anc.info a).end_trk < (anc.info b).start_trk := by simpa using hs
    exact ⟨a, b, c, ⟨h₁, h₂, h₃, h₄, .inl ha, .inl ⟨ha.1, hab, hb.2⟩⟩, .inr (.inr rfl)⟩

/-- The first two structures hold all partitions `us`. -/
structure Front (anc : FdasdAnchor) (us : List Node) (a b : Node) : Prop where
  mem : ∀ n ∈ us, n = a ∨ n = b
  low : a ∈ us ∨ (anc.info a).start_trk = 0 ∧ (anc.info a).end_trk = 0
  high : us = [a, b] ∨ us.length ≤ 1 ∧ (anc.info b).start_trk = 0 ∧ (anc.info b).end_trk = 0

theorem Parts.front (h : Parts anc us fs) : ∃ a b c, Three anc a b c ∧ Front anc us a b := by
  obtain ⟨a, b, c, h3, ⟨rfl, ha, hb⟩ | ⟨rfl, hb⟩ | rfl⟩ := h.three
  · exact ⟨a, b, c, h3, by simp, .inr ha, .inr ⟨by simp, hb⟩⟩
  · exact ⟨a, b, c, h3, by simp, .inl (by simp), .inr ⟨by simp, hb⟩⟩
  · exact ⟨a, b, c, h3, by simp, .inl (by simp), .inl rfl⟩

section
variable {a b c : Node}

theorem FreeTrack.dfltStart_le (h3 : Three anc a b c) (hf : Front anc us a b) (hfree : FreeTrack anc us) :
    dfltStart anc a b ≤ partitionLimit anc := by
  obtain ⟨t, hle, hlim, hout⟩ := hfree
  have hfirst : FIRST_USABLE_TRK = 2 := rfl
  have hlow := h3.low
  have hhigh := h3.high
  have hone := afterPartition_cases (anc.info a) FIRST_USABLE_TRK
  have htwo := afterPartition_cases (anc.info b) (afterPartition (anc.info a) FIRST_USABLE_TRK)
  have ha : ¬((anc.info a).start_trk ≤ t ∧ t ≤ (anc.info a).end_trk) := by
    rcases hf.low with hmem | hzero
    · exact hout a hmem
    · omega
  have hb : ¬((anc.info b).start_trk ≤ t ∧ t ≤ (anc.info b).end_trk) := by
    rcases hf.high with rfl | hzero
    · exact hout b (by simp)
    · omega
  unfold dfltStart
  omega

theorem Unused.chosen (hf : Front anc us a b) {x y : Nat} (h : Unused anc a b x y) {stop : Nat} (hx : x ≤ stop)
    (hy : stop ≤ y) : Chosen anc us (x, stop) where
  range := ⟨h.le.1, hx, Nat.le_trans hy h.le.2.2⟩
  apart := by
    intro n hn
    have hlow := h.low
    have hhigh := h.high
    rcases hf.mem n hn with rfl | rfl
    · simp only
      omega
    · simp only
      omega

theorem missed_iff (h3 : Three anc a b c) (hf : Front anc us a b) (hle : dfltStart anc a b ≤ partitionLimit anc)
    {lines rest : List (List UInt8)} {trk : Nat}
    (hread : fdasd_read_int geo anc.blksize .lower (dfltStart anc a b) (dfltStart anc a b)
      (partitionLimit anc) true lines =
      .ok (trk, rest)) :
    Missed anc a b trk ↔ AnsweredLast geo anc us lines := by
  have hfirst : FIRST_USABLE_TRK = 2 := rfl
  have hlow := h3.low
  have hhigh := h3.high
  have hone := afterPartition_cases (anc.info a) FIRST_USABLE_TRK
  have htwo := afterPartition_cases (anc.info b) (afterPartition (anc.info a) FIRST_USABLE_TRK)
  have hdflt : (anc.info a).start_trk = FIRST_USABLE_TRK → (anc.info b).end_trk = partitionLimit anc →
      dfltStart anc a b = (anc.info a).end_trk + 1 := by
    intro hs he
    unfold dfltStart at hle ⊢
    omega
  constructor
  · intro hm
    have hboth : us = [a, b] := by
      rcases hf.high with hboth | hzero
      · exact hboth
      · have := hm.2.1
        unfold dfltStart at hle
        omega
    refine ⟨a, b, trk, rest, hboth, hm.1, hm.2.1, ?_, hm.2.2⟩
    rw [← hdflt hm.1 hm.2.1]
    exact hread
  · rintro ⟨p, q, trk', rest', rfl, hs, he, hread', hge⟩
    have hpq : p = a ∧ q = b := by
      rcases hf.high with hboth | hone'
      · simpa using hboth
      · exact absurd hone'.1 (by simp)
    obtain ⟨rfl, rfl⟩ := hpq
    rw [← hdflt hs he, hread] at hread'
    cases hread'
    exact ⟨hs, he, hge⟩

end

/-! ## The chosen tracks -/

theorem partition_tracks (h : Parts anc us fs) (hfree : FreeTrack anc us) (lines : List (List UInt8)) :
    ∃ r, fdasd_get_partition_data geo anc lines = .ok (some r) ∧
      (Chosen anc us r ↔ ¬AnsweredLast geo anc us lines) := by
  obtain ⟨a, b, c, h3, hf⟩ := h.front
  have hle := FreeTrack.dfltStart_le h3 hf hfree
  obtain ⟨⟨trk, rest⟩, hread, hlow, hhigh⟩ := @read_int_ok geo anc.blksize (dfltStart anc a b) (dfltStart anc a b)
    (partitionLimit anc) .lower (Nat.le_refl _) hle true lines
  obtain ⟨x, y, hcheck, hmissed, hunused⟩ := h3.search 13 hlow hhigh
  have hiff := missed_iff h3 hf hle hread
  have hxy : x ≤ y := by
    by_cases hm : Missed anc a b trk
    · obtain ⟨rfl, rfl⟩ := hmissed hm
      have hfront := h3.low
      have hbehind := h3.high
      have hstart := hm.1
      have hfirst : FIRST_USABLE_TRK = 2 := rfl
      have hdflt := h3.first_le_dfltStart
      have hlimit := hm.2.1
      omega
    · exact (hunused hm).le.2.1
  have key : ∀ stop, x ≤ stop → stop ≤ y → (Chosen anc us (x, stop) ↔ ¬AnsweredLast geo anc us lines) := by
    intro stop hx hy
    rw [← hiff]
    constructor
    · intro hc hm
      obtain ⟨rfl, -⟩ := hmissed hm
      obtain ⟨p, q, -, -, rfl, hs, -⟩ := hiff.mp hm
      have hp := hc.apart p (by simp)
      have hr := h.range p (by simp)
      simp only at hp hx
      omega
    · intro hm
      exact Unused.chosen hf (hunused hm) hx hy
  have hdef : defaultStart anc (USABLE_PARTITIONS + 1) anc.first FIRST_USABLE_TRK = .ok (dfltStart anc a b) :=
    h3.defaultStart_eq 1
  have hcheck : checkStart anc (USABLE_PARTITIONS * (USABLE_PARTITIONS + 3)) anc.first trk (partitionLimit anc) =
    .ok (x, y) := hcheck
  unfold fdasd_get_partition_data
  simp only
  rw [bind_ok hdef, if_neg (Nat.not_lt_of_le hle), bind_ok hread]
  simp only
  rw [bind_ok hcheck]
  simp only
  by_cases hone : x = y
  · subst hone
    rw [if_pos rfl]
    exact ⟨_, rfl, key x (Nat.le_refl _) (Nat.le_refl _)⟩
  · rw [if_neg hone]
    obtain ⟨⟨stop, rest'⟩, hstop, hx, hy⟩ := @read_int_ok geo anc.blksize x y y .upper hxy (Nat.le_refl _) true rest
    rw [bind_ok hstop]
    exact ⟨_, rfl, key stop hx hy⟩

end

/-! ## Two partitions at both ends of a disk -/

def endsGeo : HdGeometry := ⟨15, 12, 10⟩

def endsDisk : FdasdAnchor :=
  { fdasd_initialize_anchor with
    blksize := 4096
    used_partitions := 2
    formatted_cylinders := 10
    f4 := { Format4Label.zero with DS4DEVCT := { Format4Label.zero.DS4DEVCT with DS4DSCYL := 10, DS4DSTRK := 15 } }
    info := fun n =>
      match n.val with
      | 0 => { PartitionInfo.zero with used := 0x01, start_trk := 2, end_trk := 10, len_trk := 9 }
      | 1 => { PartitionInfo.zero with used := 0x01, start_trk := 20, end_trk := 149, len_trk := 130 }
      | _ => .zero }

def endsUsed : List Node := [⟨0, by decide⟩, ⟨1, by decide⟩]
def endsUnused : List Node := [⟨2, by decide⟩]

theorem endsDisk_parts : Parts endsDisk endsUsed endsUnused where
  list := initialize_wellLinked.list
  all := rfl
  length := by decide
  range := by decide
  sorted := by decide
  unused := by decide

theorem endsDisk_free : FreeTrack endsDisk endsUsed := ⟨15, by decide, by decide, by decide⟩

theorem partition_tracks_front : ∃ r,
    fdasd_get_partition_data endsGeo endsDisk [[0x31, 0x32, 0x0a]] = .ok (some r) ∧
    (Chosen endsDisk endsUsed r ↔ ¬AnsweredLast endsGeo endsDisk endsUsed [[0x31, 0x32, 0x0a]]) :=
  partition_tracks endsDisk_parts endsDisk_free [[0x31, 0x32, 0x0a]]

/-- The answer 25 lies in the second partition, the range starts in the first one. -/
theorem answer_moved_to_front : ¬∀ (geo : HdGeometry) (anc : FdasdAnchor) (us fs : List Node)
    (lines : List (List UInt8)),
    Parts anc us fs → FreeTrack anc us → ∀ r, fdasd_get_partition_data geo anc lines =
      .ok (some r) → Chosen anc us r := by
  intro h
  have hrun : fdasd_get_partition_data endsGeo endsDisk [[0x32, 0x35, 0x0a]] = .ok (some (2, 19)) := by decide
  have hchosen := h endsGeo endsDisk endsUsed endsUnused [[0x32, 0x35, 0x0a]]
    endsDisk_parts endsDisk_free (2, 19) hrun
  have hapart := hchosen.apart ⟨0, by decide⟩ (by decide)
  exact absurd hapart (by decide)

end Fdasd.Prompt
