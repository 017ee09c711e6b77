import S390Tools.Lib.Word

/-!
# The timeframe of a report (ziomon/ziorep_utils.cpp)

Times are 64-bit and lengths 32-bit numbers, and differences wrap around. The headers are what
`open_data_files` returns. The asserted condition is a part of the result.
-/

namespace Ziomon.Times

open Word

structure FileHeader where
  begin_time : Nat
  end_time : Nat
  interval_length : Nat

structure AggrData where
  begin_time : Nat
  end_time : Nat

def UINT64_MAX : Nat := 2 ^ 64 - 1

def UINT32_MAX : Nat := 2 ^ 32 - 1

def add64 (a b : Nat) : Nat := u64 (a + b : Nat)

def sub64 (a b : Nat) : Nat := u64 ((a : Int) - b)

def round_lower_boundary (time start interval_length : Nat) : Nat :=
  let tmp := sub64 time start % interval_length
  if tmp ≠ 0 then add64 time (interval_length - tmp) else time

def round_upper_boundary (time start interval_length : Nat) : Nat :=
  let tmp := sub64 time start % interval_length
  if tmp ≠ 0 then sub64 time tmp else time

/-- The begin of the timeframe, `none` if it is past the data. -/
def adjust_begin (f_hdr : FileHeader) (agg : Option AggrData) (start : Nat) : Option Nat :=
  let log :=
    if start < f_hdr.begin_time then some f_hdr.begin_time
    else if start > f_hdr.end_time then none
    else some (round_lower_boundary start f_hdr.begin_time f_hdr.interval_length)
  match agg with
  | some agg =>
    if start = 0 then some agg.end_time
    else if start < agg.begin_time then some agg.end_time
    else if start ≤ agg.end_time then some agg.end_time
    else log
  | none => log

/-- The end of the timeframe, `none` if it is prior to the data. -/
def adjust_end (f_hdr : FileHeader) (agg : Option AggrData) (stop : Nat) : Option Nat :=
  let log :=
    if stop > f_hdr.end_time then f_hdr.end_time
    else round_upper_boundary stop f_hdr.begin_time f_hdr.interval_length
  if stop = UINT64_MAX then some f_hdr.end_time
  else
    match agg with
    | some agg =>
      if stop < agg.begin_time then none else if stop < agg.end_time then some agg.end_time else some log
    | none => if stop < f_hdr.begin_time then none else some log

structure Timeframe where
  assertion : Bool
  start : Nat
  stop : Nat
  interval : Nat
  deriving DecidableEq

def adjust_interval (f_hdr : FileHeader) (start stop interval : Nat) : Option Timeframe :=
  let interval := if interval = UINT32_MAX then f_hdr.interval_length else interval
  let cut :=
    if interval ≠ 0 ∧ add64 (sub64 stop start) f_hdr.interval_length % interval ≠ 0 then
      sub64 stop (add64 (sub64 stop start % interval) f_hdr.interval_length)
    else stop
  if interval % f_hdr.interval_length ≠ 0 then none
  else some ⟨sub64 stop start % f_hdr.interval_length = 0, start, cut, interval⟩

def adjust_timeframe (f_hdr : FileHeader) (agg : Option AggrData) (start stop interval : Nat) : Option Timeframe :=
  if start > stop then none
  else
    (adjust_begin f_hdr agg start).bind fun b =>
      (adjust_end f_hdr agg stop).bind fun e => adjust_interval f_hdr b e interval

/-! ## What the timeframe should be -/

structure Log (f_hdr : FileHeader) (agg : Option AggrData) : Prop where
  positive : 1 ≤ f_hdr.interval_length
  length : f_hdr.interval_length < 2 ^ 32
  order : f_hdr.begin_time ≤ f_hdr.end_time
  time : f_hdr.end_time < 2 ^ 64
  aggregate : ∀ a ∈ agg, a.begin_time ≤ a.end_time ∧ a.end_time < f_hdr.begin_time

def earliest (f_hdr : FileHeader) (agg : Option AggrData) : Nat := agg.elim f_hdr.begin_time (·.begin_time)

structure WellFormed (f_hdr : FileHeader) (agg : Option AggrData) (t : Timeframe) : Prop where
  assertion : t.assertion = true
  order : t.start ≤ t.stop
  not_before : earliest f_hdr agg ≤ t.start
  not_after : t.stop ≤ f_hdr.end_time
  frames : f_hdr.interval_length ∣ t.stop - t.start
  interval : t.interval ≠ 0 →
    f_hdr.interval_length ∣ t.interval ∧ t.interval ∣ t.stop - t.start + f_hdr.interval_length

/-! ## The condition -/

section
variable (f_hdr : FileHeader) (agg : Option AggrData)

/-- The first frame boundary from `start` on, or the end of the aggregated data for all of these. -/
def first_frame (start : Nat) : Nat :=
  let log :=
    if start < f_hdr.begin_time then f_hdr.begin_time
    else
      start + (f_hdr.interval_length - (start - f_hdr.begin_time) % f_hdr.interval_length) % f_hdr.interval_length
  agg.elim log fun agg => if start ≤ agg.end_time then agg.end_time else log

def cut_off (stop : Nat) : Nat :=
  (if f_hdr.begin_time ≤ stop then stop - f_hdr.begin_time else 2 ^ 64 - (f_hdr.begin_time - stop)) %
    f_hdr.interval_length

/-- The last frame boundary up to `stop`, or the last timestamp for all times behind it. -/
def last_frame (stop : Nat) : Nat :=
  let log := if stop = UINT64_MAX ∨ f_hdr.end_time < stop then f_hdr.end_time else stop - cut_off f_hdr stop
  agg.elim log fun agg => if stop < agg.end_time then agg.end_time else log

def interval_of (interval : Nat) : Nat := if interval = UINT32_MAX then f_hdr.interval_length else interval

/-- There are frames, whole ones from the first to the last one, and they fill an interval. -/
structure Fits (start stop interval : Nat) : Prop where
  no_borrow : ∀ a ∈ agg, a.end_time ≤ stop → cut_off f_hdr stop ≤ stop
  some_frame : first_frame f_hdr agg start ≤ last_frame f_hdr agg stop
  whole : f_hdr.interval_length ∣ last_frame f_hdr agg stop - first_frame f_hdr agg start
  no_wrap : interval_of f_hdr interval ≠ 0 →
    last_frame f_hdr agg stop - first_frame f_hdr agg start + f_hdr.interval_length < 2 ^ 64
  fills : interval_of f_hdr interval = 0 ∨
    interval_of f_hdr interval ∣ last_frame f_hdr agg stop - first_frame f_hdr agg start + f_hdr.interval_length ∨
    interval_of f_hdr interval ≤ last_frame f_hdr agg stop - first_frame f_hdr agg start

/-- There is no data in the timeframe, or the interval is refused. -/
def Refused (start stop interval : Nat) : Prop :=
  f_hdr.end_time < start ∨ stop < earliest f_hdr agg ∨ interval_of f_hdr interval % f_hdr.interval_length ≠ 0

end

/-! ## Differences -/

theorem sub64_of_le {a b : Nat} (h : b ≤ a) (ha : a < 2 ^ 64) : sub64 a b = a - b := by
  unfold sub64 u64
  omega

theorem sub64_of_lt {a b : Nat} (h : a < b) (hb : b < 2 ^ 64) : sub64 a b = 2 ^ 64 - (b - a) := by
  unfold sub64 u64
  omega

theorem add64_of_lt {a b : Nat} (h : a + b < 2 ^ 64) : add64 a b = a + b := u64_eq rfl h

section
variable {f_hdr : FileHeader} {agg : Option AggrData}

/-! ## The interval -/

section
variable {b e interval : Nat}

theorem cut_fits {il iv d : Nat} (hd : il ∣ d) (hiv : il ∣ iv) (hle : iv ≤ d) (hpos : 0 < iv) :
    d % iv + il ≤ d ∧ il ∣ d - (d % iv + il) ∧ iv ∣ d - (d % iv + il) + il := by
  have hmod : d % iv < iv := Nat.mod_lt d hpos
  have hdiv := Nat.div_add_mod d iv
  have hr : il ∣ d % iv := (Nat.dvd_mod_iff hiv).mpr hd
  have hlast : d % iv + il ≤ iv := by
    obtain ⟨q, hq⟩ := hiv
    obtain ⟨r, hr⟩ := hr
    rw [hr, hq] at hmod ⊢
    have hlt : r < q := lt_of_mul_lt_mul_left hmod (Nat.zero_le il)
    calc il * r + il = il * (r + 1) := by ring
      _ ≤ il * q := Nat.mul_le_mul_left il hlt
  have hcut : d % iv + il ≤ d := hlast.trans hle
  refine ⟨hcut, Nat.dvd_sub hd ((Nat.dvd_add_right hr).mpr (dvd_refl il)), ?_⟩
  have hrest : d - (d % iv + il) + il = iv * (d / iv) := by omega
  rw [hrest]
  exact dvd_mul_right iv _

theorem interval_of_lt (hlog : Log f_hdr agg) (hint : interval < 2 ^ 32) : interval_of f_hdr interval < 2 ^ 32 := by
  rw [interval_of]
  split
  · exact hlog.length
  · exact hint

theorem adjust_interval_refused (h : interval_of f_hdr interval % f_hdr.interval_length ≠ 0) :
    adjust_interval f_hdr b e interval = none := if_pos h

theorem adjust_interval_some (h : interval_of f_hdr interval % f_hdr.interval_length = 0) :
    adjust_interval f_hdr b e interval = some ⟨sub64 e b % f_hdr.interval_length = 0, b,
      if interval_of f_hdr interval ≠ 0 ∧
          add64 (sub64 e b) f_hdr.interval_length % interval_of f_hdr interval ≠ 0 then
        sub64 e (add64 (sub64 e b % interval_of f_hdr interval) f_hdr.interval_length)
      else e, interval_of f_hdr interval⟩ := if_neg (not_not.mpr h)

theorem interval_fits (hlog : Log f_hdr agg) (hint : interval < 2 ^ 32) (hbe : b ≤ e) (he : e < 2 ^ 64)
    (hwhole : f_hdr.interval_length ∣ e - b)
    (hwrap : interval_of f_hdr interval ≠ 0 → e - b + f_hdr.interval_length < 2 ^ 64)
    (hiv : interval_of f_hdr interval % f_hdr.interval_length = 0)
    (hfills : interval_of f_hdr interval = 0 ∨ interval_of f_hdr interval ∣ e - b + f_hdr.interval_length ∨
      interval_of f_hdr interval ≤ e - b) :
    ∀ t, adjust_interval f_hdr b e interval = some t → t.assertion = true ∧ t.start = b ∧ b ≤ t.stop ∧ t.stop ≤ e ∧
      f_hdr.interval_length ∣ t.stop - b ∧
      (t.interval ≠ 0 → f_hdr.interval_length ∣ t.interval ∧ t.interval ∣ t.stop - b + f_hdr.interval_length) := by
  intro t ht
  rw [adjust_interval_some hiv, sub64_of_le hbe he] at ht
  have hivlt := interval_of_lt hlog hint
  have hilt := hlog.length
  generalize interval_of f_hdr interval = iv at *
  have hdvd : f_hdr.interval_length ∣ iv := Nat.dvd_of_mod_eq_zero hiv
  cases ht
  dsimp only
  refine ⟨decide_eq_true (Nat.mod_eq_zero_of_dvd hwhole), rfl, ?_⟩
  by_cases hcut : iv ≠ 0 ∧ add64 (e - b) f_hdr.interval_length % iv ≠ 0
  · have hle : iv ≤ e - b := by
      have hrest := hcut.2
      rw [add64_of_lt (hwrap hcut.1)] at hrest
      rcases hfills with h | h | h
      · exact absurd h hcut.1
      · exact absurd (Nat.mod_eq_zero_of_dvd h) hrest
      · exact h
    have hmod : (e - b) % iv < iv := Nat.mod_lt _ (Nat.pos_of_ne_zero hcut.1)
    obtain ⟨h₁, h₂, h₃⟩ := cut_fits hwhole hdvd hle (Nat.pos_of_ne_zero hcut.1)
    have hlt := hwrap hcut.1
    rw [if_pos hcut, add64_of_lt (by omega), sub64_of_le (by omega) he]
    have hsame : e - ((e - b) % iv + f_hdr.interval_length) - b =
      e - b - ((e - b) % iv + f_hdr.interval_length) := by
      omega
    rw [hsame]
    exact ⟨by omega, Nat.sub_le _ _, h₂, fun _ => ⟨hdvd, h₃⟩⟩
  · rw [if_neg hcut]
    refine ⟨hbe, le_rfl, hwhole, fun hne => ⟨hdvd, Nat.dvd_of_mod_eq_zero ?_⟩⟩
    rw [not_and_not_right] at hcut
    rw [← add64_of_lt (hwrap hne)]
    exact hcut hne

theorem fits_interval (hlog : Log f_hdr agg) (hint : interval < 2 ^ 32) (htime : f_hdr.end_time < 2 ^ 63)
    (he : e < 2 ^ 64) {t : Timeframe} (ht : adjust_interval f_hdr b e interval = some t)
    (hwf : WellFormed f_hdr agg t) :
    b ≤ e ∧ e < 2 ^ 63 + 2 ^ 33 ∧ f_hdr.interval_length ∣ e - b ∧ (interval_of f_hdr interval = 0 ∨
      interval_of f_hdr interval ∣ e - b + f_hdr.interval_length ∨ interval_of f_hdr interval ≤ e - b) := by
  have hiv : interval_of f_hdr interval % f_hdr.interval_length = 0 := by
    by_contra h
    rw [adjust_interval_refused h] at ht
    cases ht
  have hivlt := interval_of_lt hlog hint
  have hilt := hlog.length
  rw [adjust_interval_some hiv] at ht
  generalize interval_of f_hdr interval = iv at *
  cases ht
  obtain ⟨hassert, horder, -, hafter, -, hinterval⟩ := hwf
  dsimp only at hassert horder hafter hinterval
  have hassert := of_decide_eq_true hassert
  by_cases hcut : iv ≠ 0 ∧ add64 (sub64 e b) f_hdr.interval_length % iv ≠ 0
  · rw [if_pos hcut] at horder hafter
    have hmod : sub64 e b % iv < iv := Nat.mod_lt _ (Nat.pos_of_ne_zero hcut.1)
    rw [add64_of_lt (by omega)] at horder hafter
    have hborrow : sub64 e b % iv + f_hdr.interval_length ≤ e := by
      by_contra h
      rw [sub64_of_lt (by omega) (by omega)] at hafter
      omega
    rw [sub64_of_le hborrow he] at horder hafter
    have hbe : b ≤ e := by omega
    rw [sub64_of_le hbe he] at hassert hmod hborrow horder hafter
    refine ⟨hbe, by omega, Nat.dvd_of_mod_eq_zero hassert, .inr (.inr ?_)⟩
    by_contra h
    have hil := hlog.positive
    rw [Nat.mod_eq_of_lt (not_le.mp h)] at horder hborrow
    omega
  · rw [if_neg hcut] at horder hafter hinterval
    rw [sub64_of_le horder he] at hassert
    refine ⟨horder, by omega, Nat.dvd_of_mod_eq_zero hassert, ?_⟩
    by_cases hz : iv = 0
    · exact .inl hz
    · exact .inr (.inl (hinterval hz).2)

end

/-! ## The first and the last frame -/

theorem log_begin {start : Nat} (hlog : Log f_hdr agg) (h : f_hdr.begin_time ≤ start) (hle : start ≤ f_hdr.end_time)
    (hlt : start + (f_hdr.interval_length - (start - f_hdr.begin_time) % f_hdr.interval_length) %
      f_hdr.interval_length < 2 ^ 64) :
    round_lower_boundary start f_hdr.begin_time f_hdr.interval_length =
      start +
        (f_hdr.interval_length - (start - f_hdr.begin_time) % f_hdr.interval_length) % f_hdr.interval_length := by
  have htime := hlog.time
  have hpos := hlog.positive
  have hmod : (start - f_hdr.begin_time) % f_hdr.interval_length < f_hdr.interval_length := Nat.mod_lt _ hpos
  rw [round_lower_boundary]
  simp only [sub64_of_le h (by omega)]
  generalize (start - f_hdr.begin_time) % f_hdr.interval_length = m at *
  by_cases hz : m = 0
  · rw [if_neg (not_not.mpr hz), hz, Nat.sub_zero, Nat.mod_self, Nat.add_zero]
  · rw [Nat.mod_eq_of_lt (by omega)] at hlt ⊢
    rw [if_pos hz, add64_of_lt hlt]

theorem begin_eq {start : Nat} (hlog : Log f_hdr agg) (hle : start ≤ f_hdr.end_time)
    (hlt : first_frame f_hdr agg start < 2 ^ 64) :
    adjust_begin f_hdr agg start = some (first_frame f_hdr agg start) := by
  have hbegin : f_hdr.begin_time ≤ start → (start + (f_hdr.interval_length - (start - f_hdr.begin_time) %
      f_hdr.interval_length) % f_hdr.interval_length < 2 ^ 64) →
      round_lower_boundary start f_hdr.begin_time f_hdr.interval_length = start + (f_hdr.interval_length -
        (start - f_hdr.begin_time) % f_hdr.interval_length) % f_hdr.interval_length := fun h => log_begin hlog h hle
  have hgt : ¬start > f_hdr.end_time := not_lt.mpr hle
  cases agg with
  | none =>
    simp only [first_frame, Option.elim_none] at hlt ⊢
    simp only [adjust_begin, if_neg hgt]
    split
    · rfl
    · next h =>
      rw [if_neg h] at hlt
      rw [hbegin (not_lt.mp h) hlt]
  | some a =>
    have ha := (hlog.aggregate a rfl).1
    simp only [first_frame, Option.elim_some] at hlt ⊢
    simp only [adjust_begin, if_neg hgt]
    by_cases hag : start ≤ a.end_time
    · simp only [if_pos hag]
      split
      · rfl
      · split <;> rfl
    · have h0 : ¬start = 0 := by omega
      have h1 : ¬start < a.begin_time := by omega
      simp only [if_neg hag, if_neg h0, if_neg h1] at hlt ⊢
      split
      · rfl
      · next h =>
        rw [if_neg h] at hlt
        rw [hbegin (not_lt.mp h) hlt]

theorem begin_refused {start : Nat} (hlog : Log f_hdr agg) (h : f_hdr.end_time < start) :
    adjust_begin f_hdr agg start = none := by
  have horder := hlog.order
  have hlt : ¬start < f_hdr.begin_time := by omega
  cases agg with
  | none => simp only [adjust_begin, if_neg hlt, if_pos h]
  | some a =>
    have ha := hlog.aggregate a rfl
    have h0 : ¬start = 0 := by omega
    have h1 : ¬start < a.begin_time := by omega
    have h2 : ¬start ≤ a.end_time := by omega
    simp only [adjust_begin, if_neg h0, if_neg h1, if_neg h2, if_neg hlt, if_pos h]

theorem round_upper_eq {stop : Nat} (hlog : Log f_hdr agg) (hle : stop ≤ f_hdr.end_time) :
    round_upper_boundary stop f_hdr.begin_time f_hdr.interval_length = sub64 stop (cut_off f_hdr stop) := by
  have htime := hlog.time
  have horder := hlog.order
  have hcut : sub64 stop f_hdr.begin_time % f_hdr.interval_length = cut_off f_hdr stop := by
    rw [cut_off]
    split
    · next h => rw [sub64_of_le h (by omega)]
    · next h => rw [sub64_of_lt (not_le.mp h) (by omega)]
  rw [round_upper_boundary, hcut]
  by_cases hz : cut_off f_hdr stop = 0
  · rw [hz, sub64_of_le (Nat.zero_le _) (by omega)]
    rfl
  · simp only [if_pos (show cut_off f_hdr stop ≠ 0 from hz)]

theorem cut_off_le {stop : Nat} (h : f_hdr.begin_time ≤ stop) : cut_off f_hdr stop ≤ stop := by
  rw [cut_off, if_pos h]
  exact (Nat.mod_le _ _).trans (Nat.sub_le _ _)

theorem end_eq {stop : Nat} (hlog : Log f_hdr agg) (h : earliest f_hdr agg ≤ stop)
    (hborrow : ∀ a ∈ agg, a.end_time ≤ stop → cut_off f_hdr stop ≤ stop) :
    adjust_end f_hdr agg stop = some (last_frame f_hdr agg stop) := by
  have htime := hlog.time
  have horder := hlog.order
  have hround : stop ≤ f_hdr.end_time → cut_off f_hdr stop ≤ stop →
      round_upper_boundary stop f_hdr.begin_time f_hdr.interval_length =
        stop - cut_off f_hdr stop := fun hle hc => by
    rw [round_upper_eq hlog hle, sub64_of_le hc (by omega)]
  have hlog_end : cut_off f_hdr stop ≤ stop → (if stop > f_hdr.end_time then f_hdr.end_time
      else round_upper_boundary stop f_hdr.begin_time f_hdr.interval_length) =
      if f_hdr.end_time < stop then f_hdr.end_time else stop - cut_off f_hdr stop := fun hc => by
    by_cases hgt : stop > f_hdr.end_time
    · rw [if_pos hgt, if_pos hgt]
    · rw [if_neg hgt, if_neg hgt, hround (not_lt.mp hgt) hc]
  cases agg with
  | none =>
    have h : f_hdr.begin_time ≤ stop := h
    simp only [adjust_end, last_frame, Option.elim_none, if_neg (not_lt.mpr h), hlog_end (cut_off_le h)]
    by_cases hm : stop = UINT64_MAX
    · rw [if_pos hm, if_pos (.inl hm)]
    · rw [if_neg hm]
      simp only [hm, false_or]
  | some a =>
    have ha := hlog.aggregate a rfl
    have h : a.begin_time ≤ stop := h
    simp only [adjust_end, last_frame, Option.elim_some, if_neg (not_lt.mpr h)]
    by_cases hm : stop = UINT64_MAX
    · have hlt : ¬stop < a.end_time := by
        rw [hm, UINT64_MAX]
        omega
      rw [if_pos hm, if_neg hlt, if_pos (.inl hm)]
    · rw [if_neg hm]
      by_cases hag : stop < a.end_time
      · rw [if_pos hag, if_pos hag]
      · rw [if_neg hag, if_neg hag, hlog_end (hborrow a rfl (not_lt.mp hag))]
        simp only [hm, false_or]

theorem end_gap {stop : Nat} (hlog : Log f_hdr agg) {a : AggrData} (ha : a ∈ agg) (hle : a.end_time ≤ stop)
    (hlt : stop < f_hdr.begin_time) : adjust_end f_hdr agg stop = some (sub64 stop (cut_off f_hdr stop)) := by
  obtain rfl : agg = some a := ha
  have htime := hlog.time
  have horder := hlog.order
  have hagg := hlog.aggregate a rfl
  have hm : ¬stop = UINT64_MAX := by
    rw [UINT64_MAX]
    omega
  have h1 : ¬stop < a.begin_time := by omega
  have h2 : ¬stop < a.end_time := by omega
  have h3 : ¬stop > f_hdr.end_time := by omega
  simp only [adjust_end, if_neg hm, if_neg h1, if_neg h2, if_neg h3, round_upper_eq hlog (not_lt.mp h3)]

theorem end_refused {stop : Nat} (hlog : Log f_hdr agg) (h : stop < earliest f_hdr agg) :
    adjust_end f_hdr agg stop = none := by
  have htime := hlog.time
  have horder := hlog.order
  cases agg with
  | none =>
    have h : stop < f_hdr.begin_time := h
    have hm : ¬stop = UINT64_MAX := by
      rw [UINT64_MAX]
      omega
    simp only [adjust_end, if_neg hm, if_pos h]
  | some a =>
    have ha := hlog.aggregate a rfl
    have h : stop < a.begin_time := h
    have hm : ¬stop = UINT64_MAX := by
      rw [UINT64_MAX]
      omega
    simp only [adjust_end, if_neg hm, if_pos h]

/-! ## The whole timeframe -/

theorem adjust_refused {start stop interval : Nat} (hlog : Log f_hdr agg)
    (h : Refused f_hdr agg start stop interval) :
    adjust_timeframe f_hdr agg start stop interval = none := by
  rw [adjust_timeframe]
  split
  · rfl
  · rcases h with h | h | h
    · rw [begin_refused hlog h]
      rfl
    · rw [end_refused hlog h]
      cases adjust_begin f_hdr agg start <;> rfl
    · cases adjust_begin f_hdr agg start with
      | none => rfl
      | some b =>
        cases adjust_end f_hdr agg stop with
        | none => rfl
        | some e => exact adjust_interval_refused h

theorem earliest_le_first {start : Nat} (hlog : Log f_hdr agg) :
    earliest f_hdr agg ≤ first_frame f_hdr agg start := by
  cases agg with
  | none =>
    simp only [earliest, first_frame, Option.elim_none]
    split
    · exact le_rfl
    · next h => exact (not_lt.mp h).trans (Nat.le_add_right _ _)
  | some a =>
    have ha := hlog.aggregate a rfl
    simp only [earliest, first_frame, Option.elim_some]
    split
    · exact ha.1
    · split
      · omega
      · omega

theorem last_le_end {stop : Nat} (hlog : Log f_hdr agg) : last_frame f_hdr agg stop ≤ f_hdr.end_time := by
  have horder := hlog.order
  have hend : (if stop = UINT64_MAX ∨ f_hdr.end_time < stop then f_hdr.end_time else stop - cut_off f_hdr stop) ≤
      f_hdr.end_time := by
    split
    · exact le_rfl
    · next h =>
      rw [not_or, not_lt] at h
      exact (Nat.sub_le _ _).trans h.2
  cases agg with
  | none => exact hend
  | some a =>
    have ha := hlog.aggregate a rfl
    simp only [last_frame, Option.elim_some]
    split
    · omega
    · exact hend

theorem first_lt {start : Nat} (hlog : Log f_hdr agg) (hle : start ≤ f_hdr.end_time) :
    first_frame f_hdr agg start < f_hdr.end_time + 2 ^ 32 := by
  have horder := hlog.order
  have hlen := hlog.length
  have hpos := hlog.positive
  have hmod := Nat.mod_lt (f_hdr.interval_length - (start - f_hdr.begin_time) % f_hdr.interval_length) hpos
  cases agg with
  | none =>
    simp only [first_frame, Option.elim_none]
    split <;> omega
  | some a =>
    have ha := hlog.aggregate a rfl
    simp only [first_frame, Option.elim_some]
    split
    · omega
    · split <;> omega

theorem adjust_fits {start stop interval : Nat} (hlog : Log f_hdr agg) (hint : interval < 2 ^ 32)
    (hrefused : ¬Refused f_hdr agg start stop interval) (h : Fits f_hdr agg start stop interval) :
    ∀ t, adjust_timeframe f_hdr agg start stop interval = some t → WellFormed f_hdr agg t := by
  intro t ht
  rw [Refused, not_or, not_or, not_lt, not_lt, not_not] at hrefused
  have hlast : last_frame f_hdr agg stop ≤ f_hdr.end_time := last_le_end hlog
  have htime := hlog.time
  have hfirst := h.some_frame
  rw [adjust_timeframe] at ht
  split at ht
  · cases ht
  · rw [begin_eq hlog hrefused.1 (by omega), Option.bind_some, end_eq hlog hrefused.2.1 h.no_borrow,
      Option.bind_some] at ht
    obtain ⟨hassert, hstart, horder, hstop, hwhole, hinterval⟩ :=
      interval_fits hlog hint hfirst (by omega) h.whole h.no_wrap
      hrefused.2.2 h.fills t ht
    rw [← hstart] at horder hwhole hinterval
    refine ⟨hassert, horder, ?_, hstop.trans hlast, hwhole, hinterval⟩
    rw [hstart]
    exact earliest_le_first hlog

theorem fits_adjust {start stop interval : Nat} (hlog : Log f_hdr agg) (hle : start ≤ stop) (hstop : stop < 2 ^ 64)
    (hint : interval < 2 ^ 32) (htime : f_hdr.end_time < 2 ^ 63) (hrefused : ¬Refused f_hdr agg start stop interval)
    (hwf : ∀ t, adjust_timeframe f_hdr agg start stop interval = some t → WellFormed f_hdr agg t) :
    Fits f_hdr agg start stop interval := by
  rw [Refused, not_or, not_or, not_lt, not_lt, not_not] at hrefused
  have hfirst := first_lt hlog hrefused.1
  have hilt := hlog.length
  rw [adjust_timeframe, if_neg (not_lt.mpr hle), begin_eq hlog hrefused.1 (by omega), Option.bind_some] at hwf
  have hborrow : ∀ a ∈ agg, a.end_time ≤ stop → cut_off f_hdr stop ≤ stop := by
    intro a ha hstop'
    by_contra hc
    have hlt : stop < f_hdr.begin_time := not_le.mp fun h => hc (cut_off_le h)
    have horder := hlog.order
    have hcut : cut_off f_hdr stop < f_hdr.interval_length := Nat.mod_lt _ hlog.positive
    have he : adjust_end f_hdr agg stop = some (sub64 stop (cut_off f_hdr stop)) := end_gap hlog ha hstop' hlt
    rw [he, Option.bind_some] at hwf
    have hsome := adjust_interval_some (b := first_frame f_hdr agg start)
      (e := sub64 stop (cut_off f_hdr stop)) hrefused.2.2
    have hlarge : sub64 stop (cut_off f_hdr stop) = 2 ^ 64 - (cut_off f_hdr stop - stop) :=
      sub64_of_lt (not_le.mp hc) (by omega)
    obtain ⟨-, hsmall, -⟩ := fits_interval hlog hint htime (by omega) hsome (hwf _ hsome)
    omega
  rw [end_eq hlog hrefused.2.1 hborrow, Option.bind_some] at hwf
  have hlast : last_frame f_hdr agg stop ≤ f_hdr.end_time := last_le_end hlog
  obtain ⟨hbe, -, hwhole, hfills⟩ := fits_interval hlog hint htime (by omega) (adjust_interval_some hrefused.2.2)
    (hwf _ (adjust_interval_some hrefused.2.2))
  exact ⟨hborrow, hbe, hwhole, fun _ => by omega, hfills⟩

/-- Where the timeframe is refused, or has whole frames and an interval of them, it comes out well formed, and
for all times below 2^63 only there. -/
theorem timeframe_exact {start stop interval : Nat} (hlog : Log f_hdr agg) (hle : start ≤ stop)
    (hstop : stop < 2 ^ 64)
    (hint : interval < 2 ^ 32) :
    (Refused f_hdr agg start stop interval ∨ Fits f_hdr agg start stop interval →
      ∀ t, adjust_timeframe f_hdr agg start stop interval = some t → WellFormed f_hdr agg t) ∧
    (f_hdr.end_time < 2 ^ 63 →
      (∀ t, adjust_timeframe f_hdr agg start stop interval = some t → WellFormed f_hdr agg t) →
        Refused f_hdr agg start stop interval ∨ Fits f_hdr agg start stop interval) := by
  by_cases hrefused : Refused f_hdr agg start stop interval
  · refine ⟨fun _ t ht => ?_, fun _ _ => .inl hrefused⟩
    rw [adjust_refused hlog hrefused] at ht
    cases ht
  · refine ⟨fun h => ?_, fun htime hwf => .inr (fits_adjust hlog hle hstop hint htime hrefused hwf)⟩
    exact adjust_fits hlog hint hrefused (h.resolve_left hrefused)

end

/-- A log of four frames, and intervals of two. -/
theorem timeframe_exact_four : WellFormed ⟨100, 130, 10⟩ none ⟨true, 100, 130, 20⟩ :=
  (timeframe_exact ⟨by decide, by decide, by decide, by decide, fun _ h =>
    absurd h (Option.not_mem_none _)⟩ (by decide)
    (by decide) (by decide)).1
    (.inr ⟨fun _ h => absurd h (Option.not_mem_none _), by decide, by decide, fun _ => by decide, by decide⟩) _
    (show adjust_timeframe ⟨100, 130, 10⟩ none 0 UINT64_MAX 20 = some ⟨true, 100, 130, 20⟩ by decide)

/-- A log of one frame does not fill an interval of two: the end comes out before the begin. -/
theorem single_frame_reversed : ¬∀ t, adjust_timeframe ⟨100, 100, 10⟩ none 0 UINT64_MAX 20 = some t →
    WellFormed ⟨100, 100, 10⟩ none t := by
  intro h
  have hwf := h ⟨true, 100, 90, 20⟩ (by decide)
  exact absurd hwf.order (by decide)

end Ziomon.Times
