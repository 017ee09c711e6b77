import S390Tools.Dasdfmt.Tracks

/-!
# Formatting the rest of a disk (dasdfmt/dasdfmt.c)

In expansion mode a binary search looks for the first unformatted track, and
the tracks from there on are formatted.
-/

namespace Dasdfmt

open Word

/-! ## The search -/

structure CheckData where
  result : Nat
  blksize : Nat
  deriving DecidableEq

inductive Failure where
  | different_blocksize
  | format_error
  | none_unformatted
  deriving DecidableEq

/-- A disk with the tracks 0 to 4 and perhaps more, whose number is an `unsigned int`. -/
structure Disk where
  cylinders : Nat
  heads : Nat
  tracks_ge : 5 ≤ cylinders * heads
  tracks_lt : cylinders * heads < 2 ^ 32

def Disk.tracks (disk : Disk) : Nat := disk.cylinders * disk.heads

section
variable (check_track_format : Nat → Nat → CheckData) (blksize : Nat)

@[grind =] def find_loop : Nat → Nat → Nat → Nat → CheckData → Option (Nat × CheckData)
  | steps, left, right, first, cdata =>
    if left ≤ right then
      match steps with
      | 0 => none
      | steps + 1 =>
        let middle := u32 (left + (right - left) / 2 : Nat)
        let cdata := check_track_format middle middle
        if cdata.blksize ≠ blksize then find_loop steps left (u32 ((middle : Int) - 1)) middle cdata
        else find_loop steps (u32 (middle + 1 : Nat)) right first cdata
    else some (first, cdata)

variable (disk : Disk) (dev_blksize : Option Nat)

/-- `dev_blksize` is the block size of the device, where it is compared. -/
def check_blocksize : Bool := dev_blksize.all (· = blksize)

def dasdfmt_find_start (steps : Nat) : Option (Except Failure Nat) :=
  if check_blocksize blksize dev_blksize then
    let cdata := check_track_format 0 4
    if cdata.result ≠ 0 then some (.error .format_error)
    else
      (find_loop check_track_format blksize steps 2
        (u32 ((u32 (disk.cylinders * disk.heads : Nat) : Int) - 1)) 2 cdata).map
      fun found => if found.1 = 2 ∧ found.2.blksize = blksize then .error .none_unformatted else .ok found.1
  else some (.error .different_blocksize)

variable (device : Device) (reqsize intensity : Nat)

def expand (steps rounds : Nat) : Option (Except Failure Processed) :=
  match dasdfmt_find_start check_track_format blksize disk dev_blksize steps with
  | none => none
  | some (.error e) => some (.error e)
  | some (.ok first) =>
    (process_tracks device false reqsize disk.heads
      { start_unit := first,
        stop_unit := u32 ((u32 (disk.cylinders * disk.heads : Nat) : Int) - 1), blksize, intensity } rounds).map .ok

end

/-! ## The first unformatted track -/

section
variable (check_track_format : Nat → Nat → CheckData) (blksize : Nat)

def Correct (t : Nat) : Prop := (check_track_format t t).result = 0

/-- What the kernel says about ranges of tracks and about correct tracks. With the compatible disk layout the
tracks 0 and 1 have block sizes of their own. -/
structure Answers : Prop where
  range : ∀ start stop, (check_track_format start stop).result = 0 ↔
    ∀ t, start ≤ t → t ≤ stop → Correct check_track_format t
  blksize : ∀ t, 2 ≤ t → Correct check_track_format t → (check_track_format t t).blksize = blksize

/-- The tracks that a search for the track `b` looks at. -/
inductive Probed (b : Nat) : Nat → Nat → Nat → Prop where
  | here {left right} : left ≤ right → Probed b left right (left + (right - left) / 2)
  | lower {left right t} : left ≤ right → b ≤ left + (right - left) / 2 →
      Probed b left (left + (right - left) / 2 - 1) t →
    Probed b left right t
  | upper {left right t} : left ≤ right → left + (right - left) / 2 < b →
      Probed b (left + (right - left) / 2 + 1) right t →
    Probed b left right t

structure FirstUnformatted (disk : Disk) (b : Nat) : Prop where
  lt : b < disk.tracks
  unformatted : ¬ Correct check_track_format b
  before : ∀ t < b, Correct check_track_format t

variable {check_track_format blksize}
variable {b left right first : Nat} {cdata : CheckData}

theorem find_loop_stop (h : ¬ left ≤ right) (n : Nat) :
    find_loop check_track_format blksize n left right first cdata = some (first, cdata) := by
  unfold find_loop
  rw [if_neg h]

theorem find_loop_succ (h : left ≤ right) (hleft : 1 ≤ left) (hright : right < 2 ^ 32 - 1) (n : Nat) :
    find_loop check_track_format blksize (n + 1) left right first cdata =
      if (check_track_format (left + (right - left) / 2) (left + (right - left) / 2)).blksize ≠ blksize then
        find_loop check_track_format blksize n left (left + (right - left) / 2 - 1) (left + (right - left) / 2)
          (check_track_format (left + (right - left) / 2) (left + (right - left) / 2))
      else
        find_loop check_track_format blksize n (left + (right - left) / 2 + 1) right first
          (check_track_format (left + (right - left) / 2) (left + (right - left) / 2)) := by
  have hmiddle : u32 (left + (right - left) / 2 : Nat) = left + (right - left) / 2 := by
    apply u32_eq <;> omega
  have hpred : u32 ((left + (right - left) / 2 : Nat) - 1 : Int) = left + (right - left) / 2 - 1 := by
    apply u32_eq <;> omega
  have hsucc : u32 (left + (right - left) / 2 + 1 : Nat) = left + (right - left) / 2 + 1 := by
    apply u32_eq <;> omega
  rw [find_loop, if_pos h]
  simp only [hmiddle, hpred, hsucc]

theorem find_loop_ends : ∀ {n left right first : Nat} {cdata : CheckData}, 1 ≤ left →
    right < 2 ^ 32 - 1 → right + 1 ≤ left + n →
    ∃ found, find_loop check_track_format blksize n left right first cdata = some found
  | 0, left, right, first, cdata, _, _, hn => ⟨_, find_loop_stop (by omega) 0⟩
  | n + 1, left, right, first, cdata, hleft, hright, hn => by
    by_cases h : left ≤ right
    · rw [find_loop_succ h hleft hright]
      split
      · exact find_loop_ends hleft (by omega) (by omega)
      · exact find_loop_ends (by omega) hright (by omega)
    · exact ⟨_, find_loop_stop h _⟩

theorem find_loop_late : ∀ {n left right first : Nat} {cdata : CheckData} {found : Nat × CheckData}, 1 ≤ left →
    right < 2 ^ 32 - 1 → b < left → first ≠ b →
    find_loop check_track_format blksize n left right first cdata = some found → found.1 ≠ b
  | n, left, right, first, cdata, found, hleft, hright, hlate, hfirst, hfound => by
    by_cases h : left ≤ right
    · cases n with
      | zero =>
        rw [find_loop, if_pos h] at hfound
        cases hfound
      | succ n =>
        rw [find_loop_succ h hleft hright] at hfound
        split at hfound
        · exact find_loop_late hleft (by omega) hlate (by omega) hfound
        · exact find_loop_late (by omega) hright (by omega) hfirst hfound
    · rw [find_loop_stop h] at hfound
      obtain rfl := Option.some.inj hfound
      exact hfirst

theorem find_loop_iff {tracks : Nat} (hblk : ∀ t, 2 ≤ t → t < b → (check_track_format t t).blksize = blksize)
    (hb : b < tracks) (h2 : 2 < b) :
    ∀ {n left right first : Nat} {cdata : CheckData} {found : Nat × CheckData}, 2 ≤ left → right < 2 ^ 32 - 1 →
      left ≤ b → b ≤ right + 1 → (first = right + 1 ∨ right + 1 = tracks ∧ first = 2) →
      find_loop check_track_format blksize n left right first cdata = some found →
      (found.1 = b ↔ ∀ t, Probed b left right t → b ≤ t → (check_track_format t t).blksize ≠ blksize)
  | n, left, right, first, cdata, found, hleft, hright, hlb, hbr, hfirst, hfound => by
    by_cases h : left ≤ right
    · cases n with
      | zero =>
        rw [find_loop, if_pos h] at hfound
        cases hfound
      | succ n =>
        rw [find_loop_succ h (Nat.le_of_succ_le hleft) hright] at hfound
        by_cases hside : b ≤ left + (right - left) / 2
        · by_cases hother : (check_track_format (left + (right - left) / 2)
            (left + (right - left) / 2)).blksize ≠ blksize
          · rw [if_pos hother] at hfound
            rw [find_loop_iff hblk hb h2 hleft (by omega) hlb (by omega) (Or.inl (by omega)) hfound]
            constructor
            · intro hall t ht hbt
              cases ht with
              | here => exact hother
              | lower _ _ ht => exact hall t ht hbt
              | upper _ hlt _ => omega
            · exact fun hall t ht => hall t (.lower h hside ht)
          · rw [if_neg hother] at hfound
            refine iff_of_false (find_loop_late (by omega) hright (by omega) (by omega) hfound) fun hall => ?_
            exact hother (hall _ (.here h) hside)
        · rw [if_neg fun hne => hne (hblk _ (by omega) (by omega))] at hfound
          rw [find_loop_iff hblk hb h2 (by omega) hright (by omega) hbr hfirst hfound]
          constructor
          · intro hall t ht hbt
            cases ht with
            | here => omega
            | lower _ hle _ => omega
            | upper _ _ ht => exact hall t ht hbt
          · exact fun hall t ht => hall t (.upper h (by omega) ht)
    · rw [find_loop_stop h] at hfound
      obtain rfl := Option.some.inj hfound
      refine iff_of_true (show first = b by omega) fun t ht => ?_
      cases ht with
      | here hle => omega
      | lower hle _ _ => omega
      | upper hle _ _ => omega

theorem find_loop_formatted : ∀ {n left right first : Nat} {cdata : CheckData} {found : Nat × CheckData}, 2 ≤ left →
    right < 2 ^ 32 - 1 → (∀ t, 2 ≤ t → t ≤ right → (check_track_format t t).blksize = blksize) →
    (left ≤ right ∨ cdata.blksize = blksize) →
    find_loop check_track_format blksize n left right first cdata = some found →
    found.1 = first ∧ found.2.blksize = blksize
  | n, left, right, first, cdata, found, hleft, hright, hblk, hlast, hfound => by
    by_cases h : left ≤ right
    · cases n with
      | zero =>
        rw [find_loop, if_pos h] at hfound
        cases hfound
      | succ n =>
        have hmiddle := hblk (left + (right - left) / 2) (by omega) (by omega)
        rw [find_loop_succ h (Nat.le_of_succ_le hleft) hright, if_neg fun hne => hne hmiddle] at hfound
        exact find_loop_formatted (by omega) hright hblk (Or.inr hmiddle) hfound
    · rw [find_loop_stop h] at hfound
      obtain rfl := Option.some.inj hfound
      exact ⟨rfl, hlast.resolve_left h⟩

/-! ## Expansion -/

/-- Every run with enough steps gives `r`. -/
def Returns {α : Type} (x : Nat → Option α) (r : α) : Prop := (∃ steps, x steps = some r) ∧
    ∀ steps r', x steps = some r' → r' = r

variable (check_track_format blksize) in
/-- The search finds the first unformatted track, or none, and just the unformatted tracks are formatted. -/
structure Expands (disk : Disk) (dev_blksize : Option Nat) (device : Device) (reqsize intensity : Nat) : Prop where
  none : (∀ t < disk.tracks, Correct check_track_format t) →
    Returns (dasdfmt_find_start check_track_format blksize disk dev_blksize) (.error .none_unformatted)
  first : ∀ b, FirstUnformatted check_track_format disk b →
    Returns (dasdfmt_find_start check_track_format blksize disk dev_blksize) (.ok b)
  formatted : ∀ b, FirstUnformatted check_track_format disk b → ∃ steps rounds r,
    expand check_track_format blksize disk dev_blksize device reqsize intensity steps rounds = some (.ok r) ∧
      r.ended = .done ∧ ∀ t, Touched r.steps t ↔ t < disk.tracks ∧ ¬ Correct check_track_format t

variable (check_track_format blksize) in
/-- No unformatted track that the search looks at has the block size, and more than the last track
is unformatted. -/
structure Expandable (disk : Disk) : Prop where
  other_blksize : ∀ b, FirstUnformatted check_track_format disk b → ∀ t, Probed b 2 (disk.tracks - 1) t → b ≤ t →
    (check_track_format t t).blksize ≠ blksize
  more : ∀ b, FirstUnformatted check_track_format disk b → b + 1 < disk.tracks

section
variable {disk : Disk} {dev_blksize : Option Nat} {device : Device} {reqsize intensity : Nat}
variable (hanswers : Answers check_track_format blksize) (hdev : ∀ k ∈ dev_blksize, k = blksize)
variable (hfive : ∀ t < 5, Correct check_track_format t)

theorem last_track (disk : Disk) : u32 ((u32 (disk.cylinders * disk.heads : Nat) : Int) - 1) = disk.tracks - 1 := by
  have hge := disk.tracks_ge
  have hlt := disk.tracks_lt
  unfold Disk.tracks u32
  omega

include hanswers hdev hfive in
theorem find_start_eq (steps : Nat) : dasdfmt_find_start check_track_format blksize disk dev_blksize steps =
    (find_loop check_track_format blksize steps 2 (disk.tracks - 1) 2 (check_track_format 0 4)).map
      fun found => if found.1 = 2 ∧ found.2.blksize = blksize then .error .none_unformatted else .ok found.1 := by
  have hblocksize : check_blocksize blksize dev_blksize = true := by
    cases dev_blksize with
    | none => rfl
    | some k => exact decide_eq_true (hdev k rfl)
  have hresult : (check_track_format 0 4).result = 0 :=
    (hanswers.range 0 4).mpr fun t _ ht => hfive t (Nat.lt_succ_of_le ht)
  unfold dasdfmt_find_start
  rw [if_pos hblocksize, if_neg (not_not_intro hresult), last_track]

include hanswers hdev hfive in
theorem find_start_none (hall : ∀ t < disk.tracks, Correct check_track_format t) :
    Returns (dasdfmt_find_start check_track_format blksize disk dev_blksize) (.error .none_unformatted) := by
  have hge : 5 ≤ disk.tracks := disk.tracks_ge
  have hlt : disk.tracks < 2 ^ 32 := disk.tracks_lt
  have hfound : ∀ {steps found}, find_loop check_track_format blksize steps 2 (disk.tracks - 1)
    2 (check_track_format 0 4) =
      some found → found.1 = 2 ∧ found.2.blksize = blksize := fun h =>
    find_loop_formatted (Nat.le_refl 2) (by omega) (fun t h2 ht => hanswers.blksize t h2 (hall t (by omega)))
      (Or.inl (by omega)) h
  constructor
  · obtain ⟨found, h⟩ := @find_loop_ends check_track_format blksize (disk.tracks - 2) 2 (disk.tracks - 1) 2
      (check_track_format 0 4) (Nat.le_succ 1) (by omega) (by omega)
    refine ⟨disk.tracks - 2, ?_⟩
    rw [find_start_eq hanswers hdev hfive, h, Option.map_some, if_pos (hfound h)]
  · intro steps r hr
    rw [find_start_eq hanswers hdev hfive] at hr
    obtain ⟨found, h, rfl⟩ := Option.map_eq_some_iff.mp hr
    exact if_pos (hfound h)

include hanswers hdev hfive in
theorem find_start_iff {b : Nat} (hb : FirstUnformatted check_track_format disk b) :
    Returns (dasdfmt_find_start check_track_format blksize disk dev_blksize) (.ok b) ↔
      ∀ t, Probed b 2 (disk.tracks - 1) t → b ≤ t → (check_track_format t t).blksize ≠ blksize := by
  have hge : 5 ≤ disk.tracks := disk.tracks_ge
  have hlt : disk.tracks < 2 ^ 32 := disk.tracks_lt
  have hbt : b < disk.tracks := hb.lt
  have h5 : 5 ≤ b := Nat.le_of_not_lt fun h => hb.unformatted (hfive b h)
  have hiff : ∀ {steps found}, find_loop check_track_format blksize steps 2 (disk.tracks - 1)
    2 (check_track_format 0 4) =
      some found → (found.1 = b ↔ _) := fun h =>
    find_loop_iff (fun t h2 ht => hanswers.blksize t h2 (hb.before t ht)) hb.lt (by omega)
      (Nat.le_refl 2) (by omega)
      (by omega) (by omega) (Or.inr ⟨by omega, rfl⟩) h
  obtain ⟨found, hfound⟩ := @find_loop_ends check_track_format blksize (disk.tracks - 2) 2 (disk.tracks - 1) 2
    (check_track_format 0 4) (Nat.le_succ 1) (by omega) (by omega)
  constructor
  · rintro ⟨-, hall⟩
    have hok := hall (disk.tracks - 2) _ (by rw [find_start_eq hanswers hdev hfive, hfound, Option.map_some])
    refine (hiff hfound).mp ?_
    by_cases habort : found.1 = 2 ∧ found.2.blksize = blksize
    · rw [if_pos habort] at hok
      cases hok
    · rw [if_neg habort] at hok
      exact Except.ok.inj hok
  · intro hother
    have hok : ∀ {steps found}, find_loop check_track_format blksize steps 2 (disk.tracks - 1)
      2 (check_track_format 0 4) =
        some found → (if found.1 = 2 ∧ found.2.blksize = blksize then .error .none_unformatted else .ok found.1) =
          (.ok b : Except Failure Nat) := by
      intro steps found h
      have heq := (hiff h).mpr hother
      rw [if_neg (by omega), heq]
    constructor
    · refine ⟨disk.tracks - 2, ?_⟩
      rw [find_start_eq hanswers hdev hfive, hfound, Option.map_some, hok hfound]
    · intro steps r hr
      rw [find_start_eq hanswers hdev hfive] at hr
      obtain ⟨found, h, rfl⟩ := Option.map_eq_some_iff.mp hr
      exact hok h

variable (hformat : ∀ s, device.BIODASDFMT s = true) (hcheck : ∀ s, device.BIODASDCHECKFMT s = 0)
variable (hreq : 1 ≤ reqsize) (hword : disk.heads * reqsize < 2 ^ 32)
variable (hinitial : ∀ i j, i ≤ j → j < disk.tracks → Correct check_track_format j → Correct check_track_format i)

theorem heads_pos (disk : Disk) : 1 ≤ disk.heads :=
  Nat.pos_of_mul_pos_left (Nat.lt_of_lt_of_le (by decide) disk.tracks_ge)

include hinitial in
theorem unformatted_iff {b : Nat} (hb : FirstUnformatted check_track_format disk b) {t : Nat}
    (ht : t < disk.tracks) :
    ¬ Correct check_track_format t ↔ b ≤ t := by
  constructor
  · exact fun h => Nat.le_of_not_lt fun hlt => h (hb.before t hlt)
  · exact fun h hc => hb.unformatted (hinitial b t h ht hc)

include hanswers hdev hfive hformat hcheck hreq hword hinitial in
theorem expands_iff : Expands check_track_format blksize disk dev_blksize device reqsize intensity ↔
    Expandable check_track_format blksize disk := by
  have hlt : disk.tracks < 2 ^ 32 := disk.tracks_lt
  constructor
  · refine fun h => ⟨fun b hb => (find_start_iff hanswers hdev hfive hb).mp (h.first b hb), fun b hb => ?_⟩
    -- a single track is not formatted
    by_contra hmore
    have hbt := hb.lt
    obtain ⟨steps, rounds, r, hr, -, htouched⟩ := h.formatted b hb
    unfold expand at hr
    cases hstart : dasdfmt_find_start check_track_format blksize disk dev_blksize steps with
    | none =>
      rw [hstart] at hr
      cases hr
    | some res =>
      obtain rfl := (h.first b hb).2 steps res hstart
      rw [hstart] at hr
      simp only [last_track] at hr
      obtain ⟨r', hrun, hr'⟩ := Option.map_eq_some_iff.mp hr
      obtain rfl := Except.ok.inj hr'
      rw [process_tracks, process_loop_end (show ¬ b < disk.tracks - 1 by omega)] at hrun
      obtain rfl := Option.some.inj hrun
      exact touched_nil b ((htouched b).mpr ⟨hbt, hb.unformatted⟩)
  · refine fun h => ⟨find_start_none hanswers hdev hfive,
      fun b hb => (find_start_iff hanswers hdev hfive hb).mpr (h.other_blksize b hb), fun b hb => ?_⟩
    have hmore := h.more b hb
    obtain ⟨steps, hstart⟩ := ((find_start_iff hanswers hdev hfive hb).mpr (h.other_blksize b hb)).1
    obtain ⟨r, hr, hdone, hcov⟩ := @process_loop_covers device false reqsize disk.heads
      ⟨b, disk.tracks - 1, blksize, intensity⟩ hformat hcheck (heads_pos disk) hreq hword
      (show disk.tracks - 1 < 2 ^ 32 by omega) disk.tracks b (show disk.tracks - 1 < b + disk.tracks by omega)
      (show b < disk.tracks - 1 by omega)
    refine ⟨steps, disk.tracks, r, ?_, hdone, fun t => ?_⟩
    · unfold expand
      rw [hstart]
      simp only [last_track]
      exact congrArg (Option.map _) hr
    · rw [hcov]
      show b ≤ t ∧ t ≤ disk.tracks - 1 ↔ _
      constructor
      · exact fun ht => ⟨by omega, (unformatted_iff hinitial hb (by omega)).mpr ht.1⟩
      · exact fun ht => ⟨(unformatted_iff hinitial hb ht.1).mp ht.2, by omega⟩

end

/-! ## Both parts -/

/-- A range is formatted in exact steps just if they fit, and a disk is expanded right just if it is expandable. -/
theorem tracks_exact_iff {device : Device} (hformat : ∀ s, device.BIODASDFMT s = true)
    (hcheck : ∀ s, device.BIODASDCHECKFMT s = 0) {check : Bool} {reqsize heads : Nat}
      {p : FormatData} (hreq : 1 ≤ reqsize)
    (hheads : 1 ≤ heads) (hword : heads * reqsize < 2 ^ 32) (hle : p.start_unit ≤ p.stop_unit)
      (hstop : p.stop_unit < 2 ^ 32)
    (hcyl : heads ∣ p.stop_unit + 1) {disk : Disk} {dev_blksize : Option Nat}
      (hdisk : disk.heads * reqsize < 2 ^ 32)
    (hanswers : Answers check_track_format blksize) (hdev : ∀ k ∈ dev_blksize, k = blksize)
    (hfive : ∀ t < 5, Correct check_track_format t)
    (hinitial : ∀ i j, i ≤ j → j < disk.tracks → Correct check_track_format j →
      Correct check_track_format i) (intensity : Nat) :
    ((∃ rounds r, process_tracks device check reqsize heads p rounds = some r ∧ r.ended = .done ∧
        Exact reqsize heads p.start_unit p.stop_unit r.steps) ↔ Fits reqsize heads p.start_unit p.stop_unit) ∧
      (Expands check_track_format blksize disk dev_blksize device reqsize intensity ↔
        Expandable check_track_format blksize disk) :=
  ⟨process_exact_iff hformat hcheck hheads hreq hword hstop hcyl hle,
    expands_iff hanswers hdev hfive hformat hcheck hreq hdisk hinitial⟩

end

def goodDevice : Device := { BIODASDFMT := fun _ => true, BIODASDCHECKFMT := fun _ => 0 }

def sevenFormatted (start stop : Nat) : CheckData :=
  if stop < 7 ∨ stop < start then ⟨0, if start = 1 then 96 else 4096⟩ else ⟨1, 0⟩

theorem sevenFormatted_correct (t : Nat) : Correct sevenFormatted t ↔ t < 7 := by
  unfold Correct sevenFormatted
  by_cases h : t < 7
  · rw [if_pos (Or.inl h)]
    exact iff_of_true rfl h
  · rw [if_neg (by omega)]
    exact iff_of_false Nat.one_ne_zero h

theorem sevenFormatted_answers : Answers sevenFormatted 4096 := by
  constructor
  · intro start stop
    simp only [sevenFormatted_correct]
    unfold sevenFormatted
    by_cases h : stop < 7 ∨ stop < start
    · rw [if_pos h]
      exact iff_of_true rfl fun t h₁ h₂ => by omega
    · rw [if_neg h]
      exact iff_of_false Nat.one_ne_zero fun hall => h (Or.inl (hall stop (by omega) (Nat.le_refl _)))
  · intro t h2 ht
    have ht := (sevenFormatted_correct t).mp ht
    rw [sevenFormatted, if_pos (Or.inl ht), if_neg (by omega)]

def smallDisk : Disk where
  cylinders := 10
  heads := 15
  tracks_ge := by decide
  tracks_lt := by decide

theorem tracks_exact_small : (∃ rounds r, process_tracks goodDevice false 10 15 ⟨7, 149, 4096, 0⟩ rounds = some r ∧
    r.ended = .done ∧ Exact 10 15 7 149 r.steps) ∧ Expands sevenFormatted 4096 smallDisk none goodDevice 10 0 := by
  have h := @tracks_exact_iff sevenFormatted 4096 goodDevice (fun _ => rfl)
    (fun _ => rfl) false 10 15 ⟨7, 149, 4096, 0⟩
    (by decide) (by decide) (by decide) (by decide) (by decide)
      (by decide) smallDisk none (by decide) sevenFormatted_answers
    (fun k hk => by cases hk) (fun t ht => (sevenFormatted_correct t).mpr (by omega))
    (fun i j hij _ hj => (sevenFormatted_correct i).mpr
      (Nat.lt_of_le_of_lt hij ((sevenFormatted_correct j).mp hj))) 0
  refine ⟨h.1.mpr ⟨by decide, by decide⟩, h.2.mpr ⟨fun b hb t _ hbt => ?_, fun b hb => ?_⟩⟩
  · have hb7 : ¬ b < 7 := fun hlt => hb.unformatted ((sevenFormatted_correct b).mpr hlt)
    rw [sevenFormatted, if_neg (by omega)]
    decide
  · have hb7 : ¬ 7 < b := fun hlt => absurd ((sevenFormatted_correct 7).mp (hb.before 7 hlt)) (Nat.lt_irrefl 7)
    show b + 1 < 150
    omega

/-- A single track is not formatted. -/
theorem single_track_skipped : ¬ ∀ (reqsize heads : Nat) (p : FormatData), 1 ≤ reqsize → 1 ≤ heads →
    heads * reqsize < 2 ^ 32 → p.start_unit ≤ p.stop_unit → p.stop_unit < 2 ^ 32 → heads ∣ p.stop_unit + 1 →
    ∃ rounds r, process_tracks goodDevice false reqsize heads p rounds = some r ∧ r.ended = .done ∧
      Exact reqsize heads p.start_unit p.stop_unit r.steps := by
  intro h
  have hexact := h 10 15 ⟨149, 149, 4096, 0⟩ (by decide) (by decide) (by decide) (by decide) (by decide) (by decide)
  have hfits := (process_exact_iff (p := ⟨149, 149, 4096, 0⟩) (fun _ => rfl) (fun _ =>
    rfl) (by decide) (by decide) (by decide)
    (by decide) (by decide) (by decide)).mp hexact
  exact Nat.lt_irrefl 149 hfits.1

end Dasdfmt
