import S390Tools.Lib.Word

/-!
# Formatting a range of tracks (dasdfmt/dasdfmt.c)

`process_tracks` formats or checks a range of tracks in steps of some cylinders.
-/

namespace Dasdfmt

open Word

structure FormatData where
  start_unit : Nat
  stop_unit : Nat
  blksize : Nat
  intensity : Nat
  deriving DecidableEq

/-- What the device answers to the step that it is given. -/
structure Device where
  BIODASDFMT : FormatData → Bool
  /-- the result of `check_track_format` -/
  BIODASDCHECKFMT : FormatData → Nat

inductive Ended where
  | done
  | found_error (result : Nat)
  | exit_failure
  deriving DecidableEq

structure Processed where
  steps : List FormatData
  ended : Ended
  deriving DecidableEq

def Processed.after (step : FormatData) (p : Processed) : Processed := { p with steps := step :: p.steps }

section
variable (device : Device) (check : Bool) (reqsize heads : Nat) (format_params : FormatData)

def step_value (cur_trk : Nat) : Nat := u64 ((u32 (reqsize * heads : Nat) : Int) - (cur_trk % heads : Nat))

def step (cur_trk : Nat) : FormatData :=
  { format_params with
    start_unit := u32 cur_trk
    stop_unit :=
      if cur_trk + u32 (heads * reqsize : Nat) ≥ format_params.stop_unit then format_params.stop_unit
      else u32 (u64 ((cur_trk : Int) + step_value reqsize heads cur_trk - 1)) }

def process_loop : Nat → Nat → Option Processed
  | rounds, cur_trk =>
    if cur_trk < format_params.stop_unit then
      match rounds with
      | 0 => none
      | rounds + 1 =>
        let s := step reqsize heads format_params cur_trk
        if check && device.BIODASDCHECKFMT s ≠ 0 then some ⟨[s], .found_error (device.BIODASDCHECKFMT s)⟩
        else if !check && !device.BIODASDFMT s then some ⟨[s], .exit_failure⟩
        else (process_loop rounds (u64 (cur_trk + step_value reqsize heads cur_trk : Nat))).map (Processed.after s)
    else some ⟨[], .done⟩

def process_tracks (rounds : Nat) : Option Processed :=
  process_loop device check reqsize heads format_params rounds format_params.start_unit

end

/-! ## Exact ranges -/

def Touched (steps : List FormatData) (t : Nat) : Prop := ∃ s ∈ steps, s.start_unit ≤ t ∧ t ≤ s.stop_unit

theorem touched_nil (t : Nat) : ¬ Touched [] t := fun ⟨_, hs, _⟩ => by cases hs

theorem touched_cons (s : FormatData) (steps : List FormatData) (t : Nat) :
    Touched (s :: steps) t ↔ (s.start_unit ≤ t ∧ t ≤ s.stop_unit) ∨ Touched steps t := by
  unfold Touched
  rw [List.exists_mem_cons_iff]

/-- The steps cover the tracks from `start` to `stop` once, each in at most `reqsize` cylinders. -/
structure Exact (reqsize heads start stop : Nat) (steps : List FormatData) : Prop where
  nonempty : ∀ s ∈ steps, s.start_unit ≤ s.stop_unit
  ascending : steps.Pairwise fun s s' => s.stop_unit < s'.start_unit
  covers : ∀ t, Touched steps t ↔ start ≤ t ∧ t ≤ stop
  cylinders : ∀ s ∈ steps, s.stop_unit / heads + 1 - s.start_unit / heads ≤ reqsize

/-- The first step does not start in the last track of a cylinder and end just behind `reqsize` cylinders;
with one track for each cylinder, no step does. -/
def Fits (reqsize heads start stop : Nat) : Prop :=
  start < stop ∧ if heads = 1 then ¬ reqsize ∣ stop - start else ¬ (start % heads = heads - 1 ∧
    stop - start = heads * reqsize)

section
variable {device : Device} {check : Bool} {reqsize heads : Nat} {p : FormatData}
variable (hformat : ∀ s, device.BIODASDFMT s = true) (hcheck : ∀ s, device.BIODASDCHECKFMT s = 0)
variable (hheads : 1 ≤ heads) (hreq : 1 ≤ reqsize) (hword : heads * reqsize < 2 ^ 32) (hstop : p.stop_unit < 2 ^ 32)

/-! ## One step -/

include hheads hreq hword in
theorem step_value_eq (cur : Nat) : step_value reqsize heads cur + cur % heads = heads * reqsize ∧
    1 ≤ step_value reqsize heads cur := by
  have hmod : cur % heads < heads := Nat.mod_lt _ hheads
  have hmul : heads ≤ heads * reqsize := Nat.le_mul_of_pos_right heads hreq
  have hcomm : u32 (reqsize * heads : Nat) = heads * reqsize := by
    rw [Nat.mul_comm, u32_of_lt (Int.natCast_nonneg _) (by exact_mod_cast hword), Int.toNat_natCast]
  unfold step_value
  rw [hcomm]
  unfold u64
  omega

def step_end (reqsize heads stop cur : Nat) : Nat :=
  if stop ≤ cur + heads * reqsize then stop else cur + step_value reqsize heads cur - 1

include hheads hreq hword hstop in
theorem step_eq {cur : Nat} (hcur : cur < p.stop_unit) :
    step reqsize heads p cur =
      { p with start_unit := cur, stop_unit := step_end reqsize heads p.stop_unit cur } := by
  obtain ⟨hvalue, hpos⟩ := step_value_eq hheads hreq hword cur
  have hmul : u32 (heads * reqsize : Nat) = heads * reqsize := by
    rw [u32_of_lt (Int.natCast_nonneg _) (by exact_mod_cast hword), Int.toNat_natCast]
  have hstart : u32 (cur : Int) = cur := by
    apply u32_eq <;> omega
  unfold step step_end
  rw [hmul, hstart]
  by_cases hlast : p.stop_unit ≤ cur + heads * reqsize
  · rw [if_pos hlast, if_pos hlast]
  · rw [if_neg hlast, if_neg hlast, FormatData.mk.injEq]
    refine ⟨rfl, ?_, rfl, rfl⟩
    unfold u64 u32
    omega

include hformat hcheck hheads hreq hword hstop in
theorem process_loop_succ {cur : Nat} (hcur : cur < p.stop_unit) (n : Nat) :
    process_loop device check reqsize heads p (n + 1) cur =
      (process_loop device check reqsize heads p n (cur + step_value reqsize heads cur)).map
        (Processed.after { p with start_unit := cur, stop_unit := step_end reqsize heads p.stop_unit cur }) := by
  obtain ⟨hvalue, -⟩ := step_value_eq hheads hreq hword cur
  have hnext : u64 (cur + step_value reqsize heads cur : Nat) = cur + step_value reqsize heads cur := by
    apply u64_eq <;> omega
  rw [process_loop, if_pos hcur]
  simp only [hformat, hcheck, ne_eq, not_true, decide_false, Bool.and_false, Bool.not_true,
    Bool.false_eq_true, if_false, hnext]
  rw [step_eq hheads hreq hword hstop hcur]

theorem process_loop_end {cur : Nat} (hcur : ¬ cur < p.stop_unit) (n : Nat) :
    process_loop device check reqsize heads p n cur = some ⟨[], .done⟩ := by
  unfold process_loop
  rw [if_neg hcur]

/-! ## Where a step ends -/

include hheads hreq hword in
theorem next_eq (cur : Nat) : cur + step_value reqsize heads cur = heads * (cur / heads) + heads * reqsize := by
  obtain ⟨hvalue, -⟩ := step_value_eq hheads hreq hword cur
  have hdiv := Nat.div_add_mod cur heads
  omega

section
variable (hcyl : heads ∣ p.stop_unit + 1)
include hheads hreq hcyl

theorem last_fits_iff {cur : Nat} (hcur : cur < p.stop_unit) (hlast : p.stop_unit ≤ cur + heads * reqsize) :
    Fits reqsize heads cur p.stop_unit ↔ p.stop_unit / heads + 1 - cur / heads ≤ reqsize := by
  obtain ⟨k, hk⟩ := hcyl
  have hdiv := Nat.div_add_mod cur heads
  have hmod := Nat.mod_lt cur hheads
  have hend : p.stop_unit / heads + 1 = k := by
    have hpos : 0 < k := Nat.pos_of_mul_pos_left (a := heads) (by rw [← hk]; omega)
    obtain ⟨j, rfl⟩ := Nat.exists_eq_add_of_le' hpos
    have hstop : p.stop_unit = heads * j + (heads - 1) := by
      rw [Nat.mul_add] at hk
      omega
    rw [hstop, Nat.mul_add_div hheads, Nat.div_eq_of_lt (Nat.sub_lt hheads Nat.one_pos), Nat.add_zero]
  rw [hend]
  constructor
  · intro hfits
    by_contra hmany
    -- one cylinder too many: the step starts in the last track of one
    have hle : heads * (cur / heads + reqsize + 1) ≤ heads * k := Nat.mul_le_mul_left heads (by omega)
    rw [Nat.mul_add, Nat.mul_add, Nat.mul_one] at hle
    have hover := hfits.2
    by_cases hone : heads = 1
    · rw [if_pos hone] at hover
      refine hover ⟨1, ?_⟩
      subst hone
      omega
    · rw [if_neg hone] at hover
      exact hover ⟨by omega, by omega⟩
  · intro hfew
    have hle : heads * k ≤ heads * (cur / heads + reqsize) := Nat.mul_le_mul_left heads (by omega)
    rw [Nat.mul_add] at hle
    refine ⟨hcur, ?_⟩
    by_cases hone : heads = 1
    · rw [if_pos hone]
      intro hdvd
      have hdvd := Nat.le_of_dvd (Nat.sub_pos_of_lt hcur) hdvd
      subst hone
      omega
    · rw [if_neg hone]
      omega

end

include hheads hreq hword in
theorem next_fits_iff {cur : Nat} (hmore : cur + heads * reqsize < p.stop_unit) :
    Fits reqsize heads (cur + step_value reqsize heads cur) p.stop_unit ↔ Fits reqsize heads cur p.stop_unit := by
  have hnext := next_eq hheads hreq hword cur
  have hdiv := Nat.div_add_mod cur heads
  have hlt : cur + step_value reqsize heads cur < p.stop_unit := by omega
  unfold Fits
  refine and_congr (iff_of_true hlt (by omega)) ?_
  by_cases hone : heads = 1
  · rw [if_pos hone, if_pos hone]
    have hsub : p.stop_unit - cur = p.stop_unit - (cur + step_value reqsize heads cur) + reqsize := by
      subst hone
      rw [Nat.mod_one] at hdiv
      omega
    rw [hsub, Nat.dvd_add_self_right]
  · rw [if_neg hone, if_neg hone]
    have hmod : (cur + step_value reqsize heads cur) % heads = 0 := by
      rw [hnext, ← Nat.mul_add, Nat.mul_mod_right]
    exact iff_of_true (by omega) (by omega)

/-! ## The steps of a run -/

theorem exact_cons_iff {s : FormatData} {steps : List FormatData} {stop next : Nat}
    (hle : s.start_unit ≤ s.stop_unit)
    (hnext : s.stop_unit + 1 = next) (hin : next ≤ stop)
      (hcyls : s.stop_unit / heads + 1 - s.start_unit / heads ≤ reqsize) :
    Exact reqsize heads s.start_unit stop (s :: steps) ↔ Exact reqsize heads next stop steps := by
  constructor
  · intro h
    obtain ⟨hbehind, hasc⟩ := List.pairwise_cons.mp h.ascending
    refine ⟨fun s' hs => h.nonempty s' (List.mem_cons_of_mem s hs), hasc, fun t => ?_,
      fun s' hs => h.cylinders s' (List.mem_cons_of_mem s hs)⟩
    constructor
    · intro ht
      have hcov := (h.covers t).mp ((touched_cons s steps t).mpr (Or.inr ht))
      obtain ⟨s', hs, hin, -⟩ := ht
      have hlt := hbehind s' hs
      omega
    · intro ht
      rcases (touched_cons s steps t).mp ((h.covers t).mpr ⟨by omega, ht.2⟩) with hs | hs
      · omega
      · exact hs
  · intro h
    have hbehind : ∀ s' ∈ steps, s.stop_unit < s'.start_unit := fun s' hs => by
      have hcov := (h.covers s'.start_unit).mp ⟨s', hs, Nat.le_refl _, h.nonempty s' hs⟩
      omega
    refine ⟨?_, List.pairwise_cons.mpr ⟨hbehind, h.ascending⟩, fun t => ?_, ?_⟩
    · intro s' hs
      rcases List.mem_cons.mp hs with rfl | hs
      · exact hle
      · exact h.nonempty s' hs
    · rw [touched_cons, h.covers]
      omega
    · intro s' hs
      rcases List.mem_cons.mp hs with rfl | hs
      · exact hcyls
      · exact h.cylinders s' hs

include hformat hcheck hheads hreq hword hstop in
theorem process_loop_covers : ∀ (n cur : Nat), p.stop_unit < cur + n → cur < p.stop_unit →
    ∃ r, process_loop device check reqsize heads p n cur = some r ∧ r.ended = .done ∧
      ∀ t, Touched r.steps t ↔ cur ≤ t ∧ t ≤ p.stop_unit
  | 0, cur, hn, hcur => by
    exfalso
    omega
  | n + 1, cur, hn, hcur => by
    obtain ⟨hvalue, hpos⟩ := step_value_eq hheads hreq hword cur
    rw [process_loop_succ hformat hcheck hheads hreq hword hstop hcur]
    by_cases hmore : cur + step_value reqsize heads cur < p.stop_unit
    · obtain ⟨r, hr, hdone, hcov⟩ := process_loop_covers n (cur + step_value reqsize heads cur) (by omega) hmore
      refine ⟨r.after _, congrArg (Option.map _) hr, hdone, fun t => ?_⟩
      show Touched (_ :: r.steps) t ↔ _
      rw [touched_cons, hcov]
      show cur ≤ t ∧ t ≤ step_end reqsize heads p.stop_unit cur ∨ _ ↔ _
      unfold step_end
      split <;> omega
    · refine ⟨Processed.after _ _, congrArg (Option.map _) (process_loop_end hmore n), rfl, fun t => ?_⟩
      show Touched [_] t ↔ _
      rw [touched_cons, or_iff_left (touched_nil t)]
      show cur ≤ t ∧ t ≤ step_end reqsize heads p.stop_unit cur ↔ _
      rw [step_end, if_pos (by omega)]

variable (hcyl : heads ∣ p.stop_unit + 1)

include hformat hcheck hheads hreq hword hstop hcyl in
theorem process_loop_exact_iff : ∀ {n cur : Nat} {r : Processed}, cur < p.stop_unit →
    process_loop device check reqsize heads p n cur = some r →
    (Exact reqsize heads cur p.stop_unit r.steps ↔ Fits reqsize heads cur p.stop_unit)
  | 0, cur, r, hcur, hr => by
    rw [process_loop, if_pos hcur] at hr
    cases hr
  | n + 1, cur, r, hcur, hr => by
    obtain ⟨hvalue, hpos⟩ := step_value_eq hheads hreq hword cur
    have hnext := next_eq hheads hreq hword cur
    rw [process_loop_succ hformat hcheck hheads hreq hword hstop hcur] at hr
    obtain ⟨r', hr', rfl⟩ := Option.map_eq_some_iff.mp hr
    by_cases hlast : p.stop_unit ≤ cur + heads * reqsize
    · have hend : step_end reqsize heads p.stop_unit cur = p.stop_unit := if_pos hlast
      rw [last_fits_iff hheads hreq hcyl hcur hlast]
      constructor
      · intro h
        have hcyls := h.cylinders _ List.mem_cons_self
        rw [← hend]
        exact hcyls
      · intro hfew
        have hstop : ¬ cur + step_value reqsize heads cur < p.stop_unit := by
          obtain ⟨k, hk⟩ := hcyl
          have hmod := Nat.mod_lt p.stop_unit hheads
          have hdiv := Nat.div_add_mod p.stop_unit heads
          have hle : heads * (p.stop_unit / heads + 1) ≤ heads * (cur / heads + reqsize) :=
            Nat.mul_le_mul_left heads (by omega)
          rw [Nat.mul_add, Nat.mul_add, Nat.mul_one] at hle
          omega
        rw [process_loop_end hstop] at hr'
        obtain rfl := Option.some.inj hr'
        refine ⟨?_, List.pairwise_singleton _ _, fun t => ?_, ?_⟩
        · intro s hs
          obtain rfl := List.mem_singleton.mp hs
          show cur ≤ step_end reqsize heads p.stop_unit cur
          omega
        · show Touched [_] t ↔ _
          rw [touched_cons, or_iff_left (touched_nil t)]
          show cur ≤ t ∧ t ≤ step_end reqsize heads p.stop_unit cur ↔ _
          rw [hend]
        · intro s hs
          obtain rfl := List.mem_singleton.mp hs
          show step_end reqsize heads p.stop_unit cur / heads + 1 - cur / heads ≤ reqsize
          rw [hend]
          exact hfew
    · have hmore : cur + heads * reqsize < p.stop_unit := Nat.lt_of_not_le hlast
      have hend : step_end reqsize heads p.stop_unit cur = cur + step_value reqsize heads cur - 1 := if_neg hlast
      have hcyls : step_end reqsize heads p.stop_unit cur / heads + 1 - cur / heads ≤ reqsize := by
        have hlt : step_end reqsize heads p.stop_unit cur < heads * (cur / heads + reqsize) := by
          rw [hend, hnext, Nat.mul_add]
          omega
        have hdiv := Nat.div_lt_of_lt_mul hlt
        omega
      rw [← next_fits_iff hheads hreq hword hmore, ← process_loop_exact_iff (by omega) hr']
      exact exact_cons_iff (s := { p with start_unit := cur, stop_unit := step_end reqsize heads p.stop_unit cur })
        (show cur ≤ step_end reqsize heads p.stop_unit cur by omega)
        (show step_end reqsize heads p.stop_unit cur + 1 = _ by omega) (by omega) hcyls

include hformat hcheck hheads hreq hword hstop hcyl in
theorem process_exact_iff (hle : p.start_unit ≤ p.stop_unit) :
    (∃ rounds r, process_tracks device check reqsize heads p rounds = some r ∧ r.ended = .done ∧
      Exact reqsize heads p.start_unit p.stop_unit r.steps) ↔ Fits reqsize heads p.start_unit p.stop_unit := by
  by_cases hlt : p.start_unit < p.stop_unit
  · constructor
    · rintro ⟨rounds, r, hr, -, hexact⟩
      exact (process_loop_exact_iff hformat hcheck hheads hreq hword hstop hcyl hlt hr).mp hexact
    · intro hfits
      obtain ⟨r, hr, hdone, -⟩ :=
        process_loop_covers hformat hcheck hheads hreq hword hstop (p.stop_unit + 1) p.start_unit
        (by omega) hlt
      exact ⟨_, r, hr, hdone, (process_loop_exact_iff hformat hcheck hheads hreq hword hstop hcyl hlt hr).mpr hfits⟩
  · refine iff_of_false ?_ fun hfits => hlt hfits.1
    rintro ⟨rounds, r, hr, -, hexact⟩
    rw [process_tracks, process_loop_end hlt] at hr
    obtain rfl := Option.some.inj hr
    exact touched_nil _ ((hexact.covers p.start_unit).mpr ⟨Nat.le_refl _, hle⟩)

end

end Dasdfmt
