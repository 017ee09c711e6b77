import S390Tools.Ziomon.Framer
import S390Tools.Ziomon.RingRun

/-!
# The frames of a log partition its messages

One call takes the messages up to the end of its frame. The bounds of neighbouring
frames meet, so a message is added to the first frame that contains it. Only a
begin of less than half an interval wraps around, and the first frame stays empty.
-/

namespace Ziomon

open Stdio Word

/-! ## Messages of a frame -/

def stamp (m : Message) : Nat := (UInt64.ofNat (unbe (m.data.take 8))).toNat

/-- The message as `get_complete_msg` hands it out. -/
def complete (h : FileHeader) (m : Message) : Message :=
  as_read (if h.version = DATA_MGR_V2 ∧ m.type = h.msgid_blkiomon then DATA_MGR_V2 else DATA_MGR_V3) m.type m

section
variable (fr : Framer)

def handled (m : Message) : List Datum := handle_msg fr.m_fhdr fr.m_device_filter (complete fr.m_fhdr m)

def half : Nat := fr.m_fhdr.interval_length.toNat / 2

def frame_msgs (lo hi : Nat) (ms : List Message) : List Message :=
  (ms.takeWhile (stamp · ≤ hi)).filter fun m => lo ≤ stamp m && type_eligible fr.m_type_filter m.type

end

section
variable {fr : Framer} {content : Bytes} {steps : Nat}

theorem get_complete_msg_eq {h : FileHeader} {m : Message} {p : Nat} {x : MessagePreview} {f : File}
    (hm : Sound m) (ht : m.type ≠ ZIOMON_DACC_GARBAGE_MSG) (hx : preview h p m = some x) (hat : EntryAt content p m)
    (hf : f.content = content) : get_complete_msg x f = .ok (some (complete h m)) := by
  obtain ⟨pre, post, hc, rfl⟩ := hat
  rw [preview, if_neg ht] at hx
  cases hx
  have hseek := seek_between pre (message_bytes m ++ post) f (hf.trans hc)
  rw [get_complete_msg, hseek, read_message_eq _ _ hm, taken, if_neg ht, complete]
  simp only [decide_eq_true_eq]

theorem read_msgs_eq {lo hi : Nat} : ∀ {n cnt : Nat} {es : List Message} {r : Reader} {data : List Datum},
    Ahead content fr.m_fhdr.first_msg_offset.toNat r es → (∀ e ∈ es, Sound e) → es.length < steps → es.length < n →
    ∃ cnt' r' es', read_msgs fr steps lo hi n cnt r data =
        (if (live es).dropWhile (stamp · ≤ hi) = [] then .eof else .ok (), cnt', r',
          data ++ (frame_msgs fr lo hi (live es)).flatMap (handled fr)) ∧
      (live es = [] → cnt' = cnt) ∧ (live es ≠ [] → cnt < cnt') ∧
      Ahead content fr.m_fhdr.first_msg_offset.toNat r' es' ∧ live es' = (live es).dropWhile (stamp · ≤ hi) ∧
      (∀ e ∈ es', e ∈ es) ∧ es'.length ≤ es.length
  | 0, _, _, _, _, _, _, _, hn => absurd hn (Nat.not_lt_zero _)
  | n + 1, cnt, es, r, data, h, hs, hsteps, hn => by
    have hnext := h.first_message (reads_message_preview fr.m_fhdr) preview_eq_none hs hsteps
    have hlive := live_firstLive es
    rw [read_msgs, get_next_msg_preview]
    cases hf : firstLive es with
    | none =>
      rw [hf] at hnext hlive
      obtain ⟨r', heq, hend⟩ := hnext
      refine ⟨cnt, r', [], ?_, fun _ => rfl, fun hne => absurd hlive hne, hend, ?_, fun _ he =>
        absurd he List.not_mem_nil,
        Nat.zero_le _⟩
      · rw [heq, hlive]
        simp [frame_msgs]
      · rw [hlive]
        rfl
    | some p =>
      rw [hf] at hnext hlive
      obtain ⟨m, rest⟩ := p
      obtain ⟨p, x, r', hx, heq, hahead, hat, hback⟩ := hnext
      obtain ⟨hlive, hlen, ht, hmem⟩ := hlive
      have hne : live es ≠ [] := by
        rw [hlive]
        exact List.cons_ne_nil _ _
      have hm := hs m (hmem m List.mem_cons_self)
      have hcomplete := get_complete_msg_eq hm ht hx hat hahead.content_eq
      have hstamp : x.timestamp.toNat = stamp m ∧ x.type = m.type ∧ x.pos = p := by
        rw [preview, if_neg ht] at hx
        cases hx
        exact ⟨rfl, rfl, rfl⟩
      rw [heq]
      simp only [hstamp.1, hstamp.2.1]
      by_cases hhi : stamp m > hi
      · have htake : (live es).takeWhile (stamp · ≤ hi) = [] := by
          rw [hlive, List.takeWhile_cons_of_neg (by simpa using hhi)]
        have hdrop : (live es).dropWhile (stamp · ≤ hi) = live es := by
          rw [hlive, List.dropWhile_cons_of_neg (by simpa using hhi)]
        rw [if_pos hhi, hdrop, if_neg hne, frame_msgs, htake]
        refine ⟨cnt + 1, _, m :: rest, by simp; rfl, fun hnil => absurd hnil hne, fun _ =>
          Nat.lt_succ_self _, ?_, ?_, hmem,
          hlen⟩
        · rw [rewind_to, hstamp.2.2]
          exact hback
        · rw [live_cons ht, hlive]
      · have htake : (live es).takeWhile (stamp · ≤ hi) = m :: (live rest).takeWhile (stamp · ≤ hi) := by
          rw [hlive, List.takeWhile_cons_of_pos (by simpa using hhi)]
        have hdrop : (live es).dropWhile (stamp · ≤ hi) = (live rest).dropWhile (stamp · ≤ hi) := by
          rw [hlive, List.dropWhile_cons_of_pos (by simpa using hhi)]
        have hrest : ∀ data, ∃ cnt' r'' es', read_msgs fr steps lo hi n (cnt + 1) r' data =
            (if (live es).dropWhile (stamp · ≤ hi) = [] then .eof else .ok (), cnt', r'',
              data ++ (frame_msgs fr lo hi (live rest)).flatMap (handled fr)) ∧ cnt < cnt' ∧
            Ahead content fr.m_fhdr.first_msg_offset.toNat r'' es' ∧ live es' = (live es).dropWhile (stamp · ≤ hi) ∧
            (∀ e ∈ es', e ∈ es) ∧ es'.length ≤ es.length := by
          intro data
          obtain ⟨cnt', r'', es', hread, hzero, hpos, hahead', hlive', hmem', hlen'⟩ :=
            @read_msgs_eq lo hi n (cnt + 1) rest r' data
            hahead (fun e he => hs e (hmem e (List.mem_cons_of_mem m he))) (Nat.lt_trans hlen hsteps)
            (Nat.lt_of_lt_of_le hlen (Nat.le_of_lt_succ hn))
          refine ⟨cnt', r'', es', by rw [hdrop]; exact hread, ?_, hahead', by rw [hdrop]; exact hlive',
            fun e he => hmem e (List.mem_cons_of_mem m (hmem' e he)), Nat.le_trans hlen' (Nat.le_of_lt hlen)⟩
          by_cases hnil : live rest = []
          · rw [hzero hnil]
            exact Nat.lt_succ_self _
          · exact Nat.lt_trans (Nat.lt_succ_self _) (hpos hnil)
        rw [if_neg hhi, frame_msgs, htake]
        by_cases hadd : lo ≤ stamp m ∧ type_eligible fr.m_type_filter m.type
        · obtain ⟨cnt', r'', es', hread, hpos, hrest⟩ := hrest (data ++ handled fr m)
          have htime : time_eligible lo hi (stamp m) = true := by
            simp [time_eligible, hadd.1, Nat.le_of_not_lt hhi]
          refine ⟨cnt', r'', es', ?_, fun hnil => absurd hnil hne, fun _ => hpos, hrest⟩
          rw [if_neg (by simp [htime]), if_neg (by simp [hadd.2]), hcomplete]
          simp only
          rw [show handle_msg fr.m_fhdr fr.m_device_filter (complete fr.m_fhdr m) = handled fr m from rfl, hread,
            List.filter_cons_of_pos (by simp [hadd.1, hadd.2]), List.flatMap_cons, List.append_assoc, frame_msgs]
        · obtain ⟨cnt', r'', es', hread, hpos, hrest⟩ := hrest data
          refine ⟨cnt', r'', es', ?_, fun hnil => absurd hnil hne, fun _ => hpos, hrest⟩
          rw [List.filter_cons_of_neg (by simpa using hadd)]
          rw [frame_msgs] at hread
          by_cases hlo : lo ≤ stamp m
          · rw [if_neg (by simp [time_eligible, hlo, Nat.le_of_not_lt hhi]), if_pos (fun h => hadd ⟨hlo, h⟩), hread]
          · rw [if_pos (by simp [time_eligible, hlo]), hread]

theorem get_next_frameset_eq {es : List Message} (h : Ahead content fr.m_fhdr.first_msg_offset.toNat fr.reader es)
    (hs : ∀ e ∈ es, Sound e) (hsteps : es.length < steps) (hle : fr.m_begin ≤ fr.m_end) :
    ∃ r' es', Ahead content fr.m_fhdr.first_msg_offset.toNat r' es' ∧
      live es' = (live es).dropWhile (stamp · ≤ shifted_end fr) ∧ (∀ e ∈ es', e ∈ es) ∧ es'.length ≤ es.length ∧
      get_next_frameset steps fr =
        if live es = [] then (.eof, { fr with reader := r' })
        else (.ok {
          m_start_time := shifted_begin fr
          m_end_time := shifted_end fr
          m_timestamp := u64 ((shifted_end fr : Int) - (half fr : Nat))
          data := (frame_msgs fr (shifted_begin fr) (shifted_end fr) (live es)).flatMap (handled fr) },
          { fr with
            m_begin := if fr.m_interval_length = 0 then u64 ((fr.m_end : Int) + 1)
              else u64 ((fr.m_begin : Int) + fr.m_interval_length.toNat)
            reader := r' }) := by
  obtain ⟨cnt, r', es', hread, hzero, hpos, hahead, hlive, hmem, hlen⟩ :=
    @read_msgs_eq fr content steps (shifted_begin fr) (shifted_end fr) steps 0 es fr.reader [] h hs hsteps hsteps
  refine ⟨r', es', hahead, hlive, hmem, hlen, ?_⟩
  rw [get_next_frameset, if_neg (Nat.not_lt_of_le hle), hread, List.nil_append]
  by_cases hnil : live es = []
  · rw [if_pos hnil, hzero hnil, if_pos (by rw [hnil]; rfl)]
    rfl
  · have hcnt := hpos hnil
    obtain ⟨cnt, rfl⟩ := Nat.exists_eq_succ_of_ne_zero (Nat.ne_of_gt hcnt)
    rw [if_neg hnil]
    by_cases hdrop : (live es).dropWhile (stamp · ≤ shifted_end fr) = []
    · rw [if_pos hdrop]
      rfl
    · rw [if_neg hdrop]
      rfl

end

/-! ## Frames and the messages they contain -/

def Frameset.Contains (fs : Frameset) (t : Nat) : Bool := time_eligible fs.m_start_time fs.m_end_time t

def frameOf (frames : List Frameset) (t : Nat) : Option Nat := frames.findIdx? (·.Contains t)

/-- Each message is in some frame, and each frameset has the data of the messages that it is the
first one to contain. -/
structure Partitioned (handle : Message → List Datum) (ms : List Message) (frames : List Frameset) : Prop where
  covered : ∀ m ∈ ms, frameOf frames (stamp m) ≠ none
  exact : ∀ i fs, frames[i]? = some fs → fs.data = (ms.filter fun m => frameOf frames (stamp m) =
    some i).flatMap handle

section
variable {handle : Message → List Datum} {fs : Frameset} {frames : List Frameset} {ms₁ ms₂ : List Message}

theorem frameOf_cons (t : Nat) : frameOf (fs :: frames) t =
    if fs.Contains t then some 0 else (frameOf frames t).map (· + 1) := by
  rw [frameOf, List.findIdx?_cons]
  rfl

theorem frameOf_cons_succ {t i : Nat} (h : fs.Contains t = false) : frameOf (fs :: frames) t =
    some (i + 1) ↔ frameOf frames t = some i := by
  rw [frameOf_cons, h, if_neg Bool.false_ne_true]
  cases frameOf frames t <;> simp

theorem Partitioned.cons (h₁ : ∀ m ∈ ms₁, fs.Contains (stamp m) = true)
    (h₂ : ∀ m ∈ ms₂, fs.Contains (stamp m) = false)
    (hdata : fs.data = ms₁.flatMap handle) (h : Partitioned handle ms₂ frames) :
    Partitioned handle (ms₁ ++ ms₂) (fs :: frames) where
  covered m hm := by
    rw [frameOf_cons]
    rcases List.mem_append.mp hm with hm | hm
    · rw [if_pos (h₁ m hm)]
      exact Option.some_ne_none 0
    · rw [h₂ m hm, if_neg Bool.false_ne_true]
      exact fun hnone => h.covered m hm (Option.map_eq_none_iff.mp hnone)
  exact i f hf := by
    cases i with
    | zero =>
      cases hf
      have h1 : ms₁.filter (fun m => frameOf (fs :: frames) (stamp m) = some 0) = ms₁ :=
        List.filter_eq_self.mpr fun m hm => by simp [frameOf_cons, h₁ m hm]
      have h2 : ms₂.filter (fun m => frameOf (fs :: frames) (stamp m) = some 0) = [] :=
        List.filter_eq_nil_iff.mpr fun m hm => by simp [frameOf_cons, h₂ m hm]
      rw [List.filter_append, h1, h2, List.append_nil, hdata]
    | succ i =>
      have h1 : ms₁.filter (fun m => frameOf (fs :: frames) (stamp m) = some (i + 1)) = [] :=
        List.filter_eq_nil_iff.mpr fun m hm => by simp [frameOf_cons, h₁ m hm]
      have h2 : ms₂.filter (fun m => frameOf (fs :: frames) (stamp m) = some (i + 1)) =
          ms₂.filter (fun m => frameOf frames (stamp m) = some i) :=
        List.filter_congr fun m hm => decide_eq_decide.mpr (frameOf_cons_succ (h₂ m hm))
      rw [List.filter_append, h1, h2, List.nil_append]
      exact h.exact i f hf

theorem Partitioned.of_empty (hempty : ∀ m ∈ ms₁ ++ ms₂, fs.Contains (stamp m) = false)
    (hne : ∀ m ∈ ms₁, handle m ≠ [])
    (h₂ : Partitioned handle ms₂ frames) (h : Partitioned handle (ms₁ ++ ms₂) (fs :: frames)) : ms₁ = [] := by
  refine List.eq_nil_iff_forall_not_mem.mpr fun m hm => ?_
  have hc := hempty m (List.mem_append_left _ hm)
  obtain ⟨j, hj⟩ := Option.ne_none_iff_exists'.mp (h.covered m (List.mem_append_left _ hm))
  have hj' := hj
  rw [frameOf_cons, hc, if_neg Bool.false_ne_true] at hj'
  obtain ⟨i, hi, rfl⟩ := Option.map_eq_some_iff.mp hj'
  obtain ⟨hlt, -⟩ := List.findIdx?_eq_some_iff_getElem.mp hi
  have h1 := h.exact (i + 1) frames[i] (by simp [hlt])
  have h2 := h₂.exact i frames[i] (List.getElem?_eq_getElem hlt)
  have hsame : ms₂.filter (fun m => frameOf (fs :: frames) (stamp m) = some (i + 1)) =
      ms₂.filter (fun m => frameOf frames (stamp m) = some i) :=
    List.filter_congr fun x hx => decide_eq_decide.mpr (frameOf_cons_succ (hempty x (List.mem_append_right _ hx)))
  rw [List.filter_append, hsame, List.flatMap_append, ← h2] at h1
  have hnil := List.append_left_eq_self.mp h1.symm
  refine hne m hm (List.flatMap_eq_nil_iff.mp hnil m (List.mem_filter.mpr ⟨hm, ?_⟩))
  exact decide_eq_true hj

end

/-! ## All frames of a report -/

section
variable (fr : Framer)

def passes (m : Message) : Bool := type_eligible fr.m_type_filter m.type && !(handled fr m).isEmpty

def wanted (ms : List Message) : List Message :=
  ms.filter fun m => decide (fr.m_begin - half fr ≤ stamp m ∧ stamp m ≤ fr.m_end + half fr) && passes fr m

/-- The calls come to an end, and the framesets partition the messages. -/
def FramesPartition (steps : Nat) (ms : List Message) : Prop :=
  ∃ n frames, framesets steps n fr = some frames ∧ Partitioned (handled fr) (wanted fr ms) frames

def reach : Nat := if fr.m_interval_length = 0 then half fr else fr.m_fhdr.interval_length.toNat

/-- The times do not wrap around, or only for a first frame without messages. -/
def Unwrapped (ms : List Message) : Prop :=
  fr.m_end + reach fr < 2 ^ 64 ∧ half fr ≤ fr.m_begin ∨
    fr.m_end + fr.m_fhdr.interval_length.toNat < 2 ^ 64 ∧ ∀ m ∈ ms, passes fr m = true → shifted_end fr < stamp m

/-- The interval fits the timeframe, with `k` frames behind the next one. -/
def Due (k : Nat) : Prop :=
  fr.m_interval_length = 0 ∧ k = 0 ∧ fr.m_begin ≤ fr.m_end ∨
  0 < fr.m_fhdr.interval_length.toNat ∧ fr.m_fhdr.interval_length.toNat ≤ fr.m_interval_length.toNat ∧
    fr.m_begin + (k + 1) * fr.m_interval_length.toNat = fr.m_end + fr.m_fhdr.interval_length.toNat

/-- The reader stands in front of the entries, and their times ascend. -/
structure Reading (content : Bytes) (steps : Nat) (es : List Message) : Prop where
  ahead : Ahead content fr.m_fhdr.first_msg_offset.toNat fr.reader es
  sound : ∀ e ∈ es, Sound e
  length_lt : es.length < steps
  sorted : (live es).Pairwise fun a b => stamp a ≤ stamp b

def next (r : Reader) : Framer :=
  { fr with
    m_begin := if fr.m_interval_length = 0 then u64 ((fr.m_end : Int) + 1)
      else u64 ((fr.m_begin : Int) + fr.m_interval_length.toNat)
    reader := r }

def frame (ms : List Message) : Frameset where
  m_start_time := shifted_begin fr
  m_end_time := shifted_end fr
  m_timestamp := u64 ((shifted_end fr : Int) - (half fr : Nat))
  data := (frame_msgs fr (shifted_begin fr) (shifted_end fr) ms).flatMap (handled fr)

end

theorem stamp_lt (m : Message) : stamp m < 2 ^ 64 := UInt64.toNat_lt _

theorem dropWhile_later {hi : Nat} : ∀ {ms : List Message}, ms.Pairwise (fun a b => stamp a ≤ stamp b) →
    ∀ m ∈ ms.dropWhile (stamp · ≤ hi), hi < stamp m
  | [], _, _, hm => absurd hm List.not_mem_nil
  | x :: ms, h, m, hm => by
    rw [List.pairwise_cons] at h
    by_cases hx : stamp x ≤ hi
    · rw [List.dropWhile_cons_of_pos (by simpa using hx)] at hm
      exact dropWhile_later h.2 m hm
    · rw [List.dropWhile_cons_of_neg (by simpa using hx)] at hm
      rcases List.mem_cons.mp hm with rfl | hm
      · exact Nat.lt_of_not_le hx
      · exact Nat.lt_of_lt_of_le (Nat.lt_of_not_le hx) (h.1 m hm)

theorem mem_takeWhile_le {hi : Nat} {ms : List Message} {m : Message}
    (h : m ∈ ms.takeWhile (stamp · ≤ hi)) : stamp m ≤ hi := by
  simpa using (List.mem_takeWhile_imp h)

theorem flatMap_filter_nonempty {handle : Message → List Datum} (p : Message → Bool) : ∀ ms : List Message,
    (ms.filter fun m => p m && !(handle m).isEmpty).flatMap handle = (ms.filter p).flatMap handle
  | [] => rfl
  | m :: ms => by
    have ih := @flatMap_filter_nonempty handle p ms
    by_cases hp : p m = true
    · by_cases hnil : handle m = []
      · rw [List.filter_cons_of_neg (by simp [hnil]), List.filter_cons_of_pos hp, List.flatMap_cons,
          hnil, ih, List.nil_append]
      · rw [List.filter_cons_of_pos (by simp [hp, hnil]), List.filter_cons_of_pos hp,
          List.flatMap_cons, List.flatMap_cons, ih]
    · rw [List.filter_cons_of_neg (by simp [hp]), List.filter_cons_of_neg hp, ih]

section
variable {fr : Framer} {content : Bytes} {steps k : Nat} {es : List Message}

theorem half_le (fr : Framer) : half fr + half fr ≤ fr.m_fhdr.interval_length.toNat := by
  rw [half]
  omega

theorem half_le_reach (fr : Framer) : half fr ≤ reach fr := by
  have hhalf := half_le fr
  unfold reach
  split <;> omega

theorem reach_le (fr : Framer) : reach fr ≤ fr.m_fhdr.interval_length.toNat := by
  have hhalf := half_le fr
  unfold reach
  split <;> omega

theorem reach_eq (hne : fr.m_interval_length ≠ 0) : reach fr = fr.m_fhdr.interval_length.toNat := if_neg hne

theorem Due.begin_le (hd : Due fr k) : fr.m_begin ≤ fr.m_end := by
  rcases hd with ⟨-, -, hle⟩ | ⟨-, hle, heq⟩
  · exact hle
  · rw [Nat.add_mul, Nat.one_mul] at heq
    omega

theorem Due.shifted_end_eq (hd : Due fr k) (hfits : fr.m_end + reach fr < 2 ^ 64) :
    shifted_end fr = if k = 0 then fr.m_end + half fr else fr.m_begin + fr.m_interval_length.toNat - half fr := by
  have hbegin := hd.begin_le
  have hhalf := half_le fr
  have hreach := half_le_reach fr
  have hend : u64 ((fr.m_end : Int) + (half fr : Nat)) = fr.m_end + half fr := by
    rw [u64_of_lt (by omega) (by omega)]
    omega
  rw [shifted_end, ← half]
  simp only [hend]
  rcases hd with ⟨hzero, rfl, hle⟩ | ⟨hpos, hle, heq⟩
  · rw [if_pos (.inl hzero), if_pos rfl]
  · have hne : fr.m_interval_length ≠ 0 := fun hzero => by
      rw [hzero] at hle
      exact absurd (Nat.lt_of_lt_of_le hpos hle) (Nat.lt_irrefl 0)
    rw [reach_eq hne] at hfits
    have hlt : fr.m_begin + fr.m_interval_length.toNat ≤ fr.m_end + fr.m_fhdr.interval_length.toNat := by
      rw [← heq, Nat.add_mul, Nat.one_mul]
      omega
    have hshift : u64 ((shifted_begin fr : Int) + fr.m_interval_length.toNat) =
        fr.m_begin + fr.m_interval_length.toNat - half fr := by
      rw [shifted_begin, ← half]
      unfold u64
      omega
    rw [hshift]
    cases k with
    | zero =>
      rw [Nat.zero_add, Nat.one_mul] at heq
      have hgt : fr.m_begin + fr.m_interval_length.toNat - half fr > fr.m_end := by
        omega
      rw [if_pos (.inr hgt), if_pos rfl]
    | succ k =>
      rw [Nat.add_mul, Nat.one_mul, Nat.succ_mul] at heq
      rw [if_neg, if_neg (Nat.succ_ne_zero k)]
      rintro (hzero | hgt)
      · exact hne hzero
      · omega

theorem Due.next_begin (hd : Due fr k) (hfits : fr.m_end + reach fr < 2 ^ 64) (r : Reader) :
    (k = 0 → fr.m_end < (next fr r).m_begin ∨ fr.m_end + 1 = 2 ^ 64) ∧
    ∀ j, k = j + 1 → Due (next fr r) j ∧ (next fr r).m_begin = fr.m_begin + fr.m_interval_length.toNat ∧
      half fr ≤ fr.m_interval_length.toNat := by
  have hbegin := hd.begin_le
  have hhalf := half_le fr
  rcases hd with ⟨hzero, rfl, hle⟩ | ⟨hpos, hle, heq⟩
  · refine ⟨fun _ => ?_, fun j hj => absurd hj.symm (Nat.succ_ne_zero j)⟩
    rw [next, if_pos hzero]
    simp only [u64]
    omega
  · have hne : fr.m_interval_length ≠ 0 := fun hzero => by
      rw [hzero] at hle
      exact absurd (Nat.lt_of_lt_of_le hpos hle) (Nat.lt_irrefl 0)
    rw [reach_eq hne] at hfits
    have hlt : fr.m_begin + fr.m_interval_length.toNat ≤ fr.m_end + fr.m_fhdr.interval_length.toNat := by
      rw [← heq, Nat.add_mul, Nat.one_mul]
      omega
    have hnext : (next fr r).m_begin = fr.m_begin + fr.m_interval_length.toNat := by
      rw [next, if_neg hne, u64_of_lt (by omega) (by omega)]
      exact Int.toNat_natCast _
    refine ⟨?_, ?_⟩
    · rintro rfl
      rw [hnext]
      omega
    · rintro j rfl
      refine ⟨.inr ⟨hpos, hle, ?_⟩, hnext, by omega⟩
      rw [Nat.succ_mul (j + 1)] at heq
      rw [hnext]
      simp only [next]
      omega

theorem Due.shifted_end_le (hd : Due fr k) (hfits : fr.m_end + reach fr < 2 ^ 64) :
    shifted_end fr ≤ fr.m_end + half fr := by
  have hhalf := half_le fr
  rw [hd.shifted_end_eq hfits]
  rcases hd with ⟨-, rfl, -⟩ | ⟨-, hle, heq⟩
  · rw [if_pos rfl]
  · cases k with
    | zero => rw [if_pos rfl]
    | succ k =>
      rw [if_neg (Nat.succ_ne_zero k)]
      rw [Nat.add_mul, Nat.one_mul, Nat.succ_mul] at heq
      omega

theorem Due.wrapped (hd : Due fr k) (hfits : fr.m_end + fr.m_fhdr.interval_length.toNat < 2 ^ 64)
    (hwrap : fr.m_begin < half fr) : shifted_end fr < shifted_begin fr := by
  have hle := hd.shifted_end_le (Nat.lt_of_le_of_lt (Nat.add_le_add_left (reach_le fr) _) hfits)
  have hhalf := half_le fr
  rw [shifted_begin, ← half]
  unfold u64
  omega

theorem framesets_unique : ∀ {n n' : Nat} {fr : Framer} {a b : List Frameset}, framesets steps n fr = some a →
    framesets steps n' fr = some b → a = b
  | 0, _, _, _, _, ha, _ => by cases ha
  | _ + 1, 0, _, _, _, _, hb => by cases hb
  | n + 1, n' + 1, fr, a, b, ha, hb => by
    rw [framesets] at ha hb
    cases hget : get_next_frameset steps fr with
    | mk rc fr' =>
      rw [hget] at ha hb
      cases rc with
      | ok fs =>
        obtain ⟨xs, hxs, rfl⟩ := Option.map_eq_some_iff.mp ha
        obtain ⟨ys, hys, rfl⟩ := Option.map_eq_some_iff.mp hb
        rw [framesets_unique hxs hys]
      | eof =>
        cases ha
        cases hb
        rfl
      | error => cases ha

theorem framesets_eof {fr' : Framer} (h : get_next_frameset steps fr = (.eof, fr')) :
    framesets steps 1 fr = some [] := by
  rw [framesets, h]

theorem framesets_behind (h : fr.m_end < fr.m_begin) : framesets steps 1 fr = some [] :=
  have heof : get_next_frameset steps fr = (.eof, fr) := by rw [get_next_frameset, if_pos h]
  framesets_eof heof

theorem framesets_ok {fr' : Framer} {fs : Frameset} {n : Nat} {frames : List Frameset}
    (h : get_next_frameset steps fr = (.ok fs, fr')) (hrest : framesets steps n fr' = some frames) :
    framesets steps (n + 1) fr = some (fs :: frames) := by
  rw [framesets, h]
  simp only [hrest, Option.map_some]

theorem Partitioned.nil {handle : Message → List Datum} : Partitioned handle [] [] where
  covered _ hm := absurd hm List.not_mem_nil
  exact _ _ hf := by cases hf

theorem Reading.get_next (hr : Reading fr content steps es) (hle : fr.m_begin ≤ fr.m_end) :
    ∃ r' es', Reading (next fr r') content steps es' ∧ live es' = (live es).dropWhile (stamp · ≤ shifted_end fr) ∧
      get_next_frameset steps fr =
        if live es = [] then (.eof, { fr with reader := r' }) else (.ok (frame fr (live es)), next fr r') := by
  obtain ⟨r', es', hahead, hlive, hmem, hlen, hget⟩ := get_next_frameset_eq hr.ahead hr.sound hr.length_lt hle
  refine ⟨r', es', ⟨hahead, fun e he => hr.sound e (hmem e he),
    Nat.lt_of_le_of_lt hlen hr.length_lt, ?_⟩, hlive, hget⟩
  rw [hlive]
  exact hr.sorted.sublist (List.dropWhile_sublist _)

theorem wanted_split (hi : Nat) (ms : List Message) :
    wanted fr ms = wanted fr (ms.takeWhile (stamp · ≤ hi)) ++ wanted fr (ms.dropWhile (stamp · ≤ hi)) := by
  rw [wanted, wanted, wanted, ← List.filter_append, List.takeWhile_append_dropWhile]

theorem wanted_behind {ms : List Message} (h : ∀ m ∈ ms, fr.m_end + half fr < stamp m) : wanted fr ms = [] :=
  List.filter_eq_nil_iff.mpr fun m hm => by
    have hlt := h m hm
    simp only [Bool.and_eq_true, decide_eq_true_eq, not_and]
    omega

theorem Reading.first (hr : Reading fr content steps es) (hd : Due fr k)
    (hfits : fr.m_end + reach fr < 2 ^ 64) (hne : live es ≠ [])
    (ih : ∀ j r es', k = j + 1 → Reading (next fr r) content steps es' →
      FramesPartition (next fr r) steps (live es')) :
    ∃ n frames, framesets steps (n + 1) fr = some (frame fr (live es) :: frames) ∧
      Partitioned (handled fr) (wanted fr ((live es).dropWhile (stamp · ≤ shifted_end fr))) frames := by
  obtain ⟨r', es', hr', hlive, hget⟩ := hr.get_next hd.begin_le
  have hlater := @dropWhile_later (shifted_end fr) _ hr.sorted
  obtain ⟨hlast, hmore⟩ := hd.next_begin hfits r'
  have hend := hd.shifted_end_eq hfits
  rw [if_neg hne] at hget
  rw [← hlive] at hlater ⊢
  have hrest : ∃ n frames, framesets steps n (next fr r') = some frames ∧
      Partitioned (handled fr) (wanted fr (live es')) frames := by
    cases k with
    | zero =>
      rw [if_pos rfl] at hend
      rw [hend] at hlater
      refine ⟨1, [], ?_, by rw [wanted_behind hlater]; exact .nil⟩
      rcases hlast rfl with hgt | htop
      · exact framesets_behind hgt
      · have hnil : live es' = [] := List.eq_nil_iff_forall_not_mem.mpr fun m hm => by
          have h1 := hlater m hm
          have h2 := stamp_lt m
          omega
        by_cases hle : (next fr r').m_begin ≤ (next fr r').m_end
        · obtain ⟨_, _, -, -, hget'⟩ := hr'.get_next hle
          rw [if_pos hnil] at hget'
          exact framesets_eof hget'
        · exact framesets_behind (Nat.lt_of_not_le hle)
    | succ j =>
      rw [if_neg (Nat.succ_ne_zero j)] at hend
      obtain ⟨-, hbegin, hhalf⟩ := hmore j rfl
      obtain ⟨n, frames, hframes, hpart⟩ := ih j r' es' rfl hr'
      refine ⟨n, frames, hframes, ?_⟩
      have hsame : wanted (next fr r') (live es') = wanted fr (live es') := List.filter_congr fun m hm => by
        have hlt := hlater m hm
        rw [hend] at hlt
        have hrange : ((next fr r').m_begin - half (next fr r') ≤ stamp m ∧
          stamp m ≤ (next fr r').m_end + half (next fr r')) ↔
            (fr.m_begin - half fr ≤ stamp m ∧ stamp m ≤ fr.m_end + half fr) := by
          rw [hbegin, show half (next fr r') = half fr from rfl, show (next fr r').m_end = fr.m_end from rfl]
          omega
        rw [decide_eq_decide.mpr hrange]
        rfl
      rw [← hsame]
      exact hpart
  obtain ⟨n, frames, hframes, hpart⟩ := hrest
  exact ⟨n, frames, framesets_ok hget hframes, hpart⟩

theorem frame_contains_false {ms : List Message} {m : Message} (h : shifted_end fr < stamp m) :
    (frame fr ms).Contains (stamp m) = false := by
  rw [Frameset.Contains, time_eligible, Bool.and_eq_false_iff]
  exact .inr (decide_eq_false (Nat.not_le_of_lt h))

theorem Due.data_eq (hd : Due fr k) (hfits : fr.m_end + reach fr < 2 ^ 64) (hhalf : half fr ≤ fr.m_begin)
    (ms : List Message) :
    (frame fr ms).data = (wanted fr (ms.takeWhile (stamp · ≤ shifted_end fr))).flatMap (handled fr) ∧
    ∀ m ∈ wanted fr (ms.takeWhile (stamp · ≤ shifted_end fr)), (frame fr ms).Contains (stamp m) = true := by
  have hle := hd.shifted_end_le hfits
  have hbegin : shifted_begin fr = fr.m_begin - half fr := by
    have := hd.begin_le
    rw [shifted_begin, ← half, u64_of_lt (by omega) (by omega)]
    omega
  have hsame : wanted fr (ms.takeWhile (stamp · ≤ shifted_end fr)) =
      (ms.takeWhile (stamp · ≤ shifted_end fr)).filter fun m =>
        (shifted_begin fr ≤ stamp m && type_eligible fr.m_type_filter m.type) && !(handled fr m).isEmpty :=
    List.filter_congr fun m hm => by
      have hstamp := mem_takeWhile_le hm
      have hrange : (fr.m_begin - half fr ≤ stamp m ∧ stamp m ≤ fr.m_end + half fr) ↔
        shifted_begin fr ≤ stamp m := by
        rw [hbegin]
        exact ⟨And.left, fun h => ⟨h, Nat.le_trans hstamp hle⟩⟩
      rw [decide_eq_decide.mpr hrange, passes, Bool.and_assoc]
  rw [hsame]
  refine ⟨(flatMap_filter_nonempty _ _).symm, fun m hm => ?_⟩
  obtain ⟨hm, hp⟩ := List.mem_filter.mp hm
  simp only [Bool.and_eq_true, decide_eq_true_eq] at hp
  rw [Frameset.Contains, time_eligible, Bool.and_eq_true]
  exact ⟨decide_eq_true hp.1.1, decide_eq_true (mem_takeWhile_le hm)⟩

theorem Reading.partition_step (hr : Reading fr content steps es) (hd : Due fr k)
    (hfits : fr.m_end + reach fr < 2 ^ 64) (hhalf : half fr ≤ fr.m_begin)
    (ih : ∀ j r es', k = j + 1 → Reading (next fr r) content steps es' →
      FramesPartition (next fr r) steps (live es')) :
    FramesPartition fr steps (live es) := by
  by_cases hnil : live es = []
  · obtain ⟨_, _, -, -, hget⟩ := hr.get_next hd.begin_le
    rw [if_pos hnil] at hget
    rw [hnil]
    exact ⟨1, [], framesets_eof hget, .nil⟩
  · obtain ⟨n, frames, hframes, hpart⟩ := hr.first hd hfits hnil ih
    obtain ⟨hdata, hcontains⟩ := hd.data_eq hfits hhalf (live es)
    refine ⟨n + 1, _, hframes, ?_⟩
    rw [wanted_split (shifted_end fr)]
    exact .cons hcontains
      (fun m hm => frame_contains_false (dropWhile_later hr.sorted m (List.mem_filter.mp hm).1)) hdata hpart

theorem Reading.partition : ∀ {k : Nat} {fr : Framer} {es : List Message}, Due fr k →
    fr.m_end + reach fr < 2 ^ 64 → half fr ≤ fr.m_begin → Reading fr content steps es →
    FramesPartition fr steps (live es)
  | 0, _, _, hd, hfits, hhalf, hr =>
    hr.partition_step hd hfits hhalf fun j _ _ hj => absurd hj.symm (Nat.succ_ne_zero j)
  | k + 1, _, _, hd, hfits, hhalf, hr => hr.partition_step hd hfits hhalf fun j r es' hj hr' => by
    obtain ⟨hd', hbegin, hle⟩ := (hd.next_begin hfits r).2 j hj
    cases hj
    exact Reading.partition hd' hfits (Nat.le_trans hle (hbegin ▸ Nat.le_add_left _ _)) hr'

theorem Reading.partition_wrapped (hr : Reading fr content steps es) (hd : Due fr k)
    (hfits : fr.m_end + fr.m_fhdr.interval_length.toNat < 2 ^ 64) (hwrap : fr.m_begin < half fr) :
    FramesPartition fr steps (live es) ↔ ∀ m ∈ live es, passes fr m = true → shifted_end fr < stamp m := by
  by_cases hnil : live es = []
  · obtain ⟨_, _, -, -, hget⟩ := hr.get_next hd.begin_le
    rw [if_pos hnil] at hget
    rw [hnil]
    exact ⟨fun _ m hm => absurd hm List.not_mem_nil, fun _ => ⟨1, [], framesets_eof hget, .nil⟩⟩
  have hlt := hd.wrapped hfits hwrap
  have hfits := Nat.lt_of_le_of_lt (Nat.add_le_add_left (reach_le fr) _) hfits
  have hempty : ∀ t, (frame fr (live es)).Contains t = false := fun t => by
    rw [Frameset.Contains, time_eligible, Bool.and_eq_false_iff, decide_eq_false_iff_not, decide_eq_false_iff_not]
    simp only [frame]
    omega
  have hdata : (frame fr (live es)).data = [] := by
    have hnone : frame_msgs fr (shifted_begin fr) (shifted_end fr) (live es) = [] :=
      List.filter_eq_nil_iff.mpr fun m hm => by
        have hle := mem_takeWhile_le hm
        simp only [Bool.and_eq_true, decide_eq_true_eq, not_and]
        omega
    rw [frame, hnone]
    rfl
  have hwanted : ∀ m, m ∈ wanted fr ((live es).takeWhile (stamp · ≤ shifted_end fr)) ↔
      (m ∈ (live es).takeWhile (stamp · ≤ shifted_end fr)) ∧ passes fr m = true := fun m => by
    rw [wanted, List.mem_filter, Bool.and_eq_true, decide_eq_true_eq]
    refine and_congr_right fun hm => ⟨And.right, fun hp => ⟨?_, hp⟩⟩
    have h1 := mem_takeWhile_le hm
    have h2 := hd.shifted_end_le hfits
    omega
  obtain ⟨n, frames, hframes, hpart⟩ := hr.first hd hfits hnil fun j r es' hj hr' => by
    obtain ⟨hd', hbegin, hle⟩ := (hd.next_begin hfits r).2 j hj
    exact Reading.partition hd' hfits (Nat.le_trans hle (hbegin ▸ Nat.le_add_left _ _)) hr'
  have hlater := @dropWhile_later (shifted_end fr) _ hr.sorted
  constructor
  · rintro ⟨n', frames', hframes', hpart'⟩ m hm hp
    rw [framesets_unique hframes' hframes, wanted_split (shifted_end fr)] at hpart'
    have hnone := Partitioned.of_empty (fun m _ => hempty _) (fun m hm => by
      have hp := ((hwanted m).mp hm).2
      rw [passes, Bool.and_eq_true] at hp
      simpa using hp.2) hpart hpart'
    rw [← List.takeWhile_append_dropWhile (p := fun m => decide (stamp m ≤ shifted_end fr)) (l := live es)] at hm
    rcases List.mem_append.mp hm with hm | hm
    · have hmem := (hwanted m).mpr ⟨hm, hp⟩
      rw [hnone] at hmem
      exact absurd hmem List.not_mem_nil
    · exact hlater m hm
  · intro hall
    have hnone : wanted fr ((live es).takeWhile (stamp · ≤ shifted_end fr)) = [] :=
      List.eq_nil_iff_forall_not_mem.mpr fun m hm => by
        obtain ⟨hm, hp⟩ := (hwanted m).mp hm
        exact absurd (hall m ((List.takeWhile_sublist _).subset hm) hp) (Nat.not_lt_of_le (mem_takeWhile_le hm))
    refine ⟨n + 1, _, hframes, ?_⟩
    rw [wanted_split (shifted_end fr), hnone, List.nil_append]
    exact @Partitioned.cons _ _ frames [] _ (fun m hm => absurd hm List.not_mem_nil)
      (fun m _ => hempty _) hdata hpart

end

section
variable {h : FileHeader} {newer older : List Message} {content : Bytes} {steps m_begin m_end : Nat}
  {interval_length : UInt32} {filter_types : Option (List MsgTypes)} {devFilter : Option DeviceFilter} {fr : Framer}

theorem new_framer_eq (hl : LogFile h newer older content) (hsteps : content.length < steps)
    (hnew : new_framer m_begin m_end interval_length filter_types devFilter steps content = some fr)
    (hsorted : ((live (older ++ newer)).map stamp).Pairwise (· ≤ ·)) :
    fr.m_begin = m_begin ∧ fr.m_end = m_end ∧ fr.m_interval_length = interval_length ∧
    fr.m_type_filter = filter_types.map (·.map (msgid fr.m_fhdr)) ∧ fr.m_device_filter = devFilter ∧
    (∃ t, fr.m_fhdr = { h with begin_time := t }) ∧
    ∃ es, Reading fr content steps es ∧ live es = live (older ++ newer) := by
  have hopened := hl.opened hsteps
  have hlive := live_firstLive (older ++ newer)
  rw [new_framer] at hnew
  cases hf : firstLive (older ++ newer) with
  | none =>
    rw [hf] at hopened
    rw [hopened] at hnew
    cases hnew
  | some p =>
    obtain ⟨m, rest⟩ := p
    rw [hf] at hopened hlive
    obtain ⟨t, r, hopen, hahead⟩ := hopened
    obtain ⟨hlive, hlen, ht, hmem⟩ := hlive
    rw [hopen] at hnew
    cases hnew
    have hsame : live (m :: rest) = live (older ++ newer) := by rw [live_cons ht, hlive]
    refine ⟨rfl, rfl, rfl, rfl, rfl, ⟨t, rfl⟩, m :: rest, ⟨hahead, ?_, ?_, ?_⟩, hsame⟩
    · exact fun e he => hl.sound e (List.mem_append.mpr (List.mem_append.mp (hmem e he)).symm)
    · exact Nat.lt_of_le_of_lt hlen (hl.length_lt hsteps)
    · rw [hsame, ← List.pairwise_map]
      exact hsorted

theorem due_of_dvd (hbegin : fr.m_begin ≤ fr.m_end)
    (hinterval : fr.m_interval_length = 0 ∨ fr.m_fhdr.interval_length.toNat ∣ fr.m_interval_length.toNat ∧
      fr.m_interval_length.toNat ∣ fr.m_end - fr.m_begin + fr.m_fhdr.interval_length.toNat) : ∃ k, Due fr k := by
  by_cases hzero : fr.m_interval_length = 0
  · exact ⟨0, .inl ⟨hzero, rfl, hbegin⟩⟩
  obtain ⟨hdvd, q, hq⟩ := hinterval.resolve_left hzero
  have hpos : 0 < fr.m_interval_length.toNat := Nat.pos_of_ne_zero fun h => hzero (UInt32.toNat_inj.mp h)
  have hil : 0 < fr.m_fhdr.interval_length.toNat := Nat.pos_of_dvd_of_pos hdvd hpos
  cases q with
  | zero =>
    rw [Nat.mul_zero] at hq
    omega
  | succ k =>
    refine ⟨k, .inr ⟨hil, Nat.le_of_dvd hpos hdvd, ?_⟩⟩
    rw [Nat.mul_comm, ← hq]
    omega

/-- The frames of a log partition its messages, unless the times wrap around. -/
theorem frames_partition_iff (hl : LogFile h newer older content) (hsteps : content.length < steps)
    (hnew : new_framer m_begin m_end interval_length filter_types devFilter steps content = some fr)
    (hsorted : ((live (older ++ newer)).map stamp).Pairwise (· ≤ ·)) (hbegin : m_begin ≤ m_end)
    (hinterval : interval_length = 0 ∨ h.interval_length.toNat ∣ interval_length.toNat ∧
      interval_length.toNat ∣ m_end - m_begin + h.interval_length.toNat) :
    (Unwrapped fr (live (older ++ newer)) → FramesPartition fr steps (live (older ++ newer))) ∧
    (m_end + h.interval_length.toNat < 2 ^ 64 → FramesPartition fr steps (live (older ++ newer)) →
      Unwrapped fr (live (older ++ newer))) := by
  obtain ⟨hb, he, hi, -, -, ⟨t, hfhdr⟩, es, hr, hlive⟩ := new_framer_eq hl hsteps hnew hsorted
  have hil : fr.m_fhdr.interval_length = h.interval_length := by rw [hfhdr]
  rw [← hb, ← he] at hbegin
  rw [← hb, ← he, ← hi, ← hil] at hinterval
  rw [← hlive, ← he, ← hil]
  obtain ⟨k, hd⟩ := due_of_dvd hbegin hinterval
  constructor
  · rintro (⟨hfits, hhalf⟩ | ⟨hfits, hnone⟩)
    · exact hr.partition hd hfits hhalf
    · by_cases hhalf : half fr ≤ fr.m_begin
      · exact hr.partition hd (Nat.lt_of_le_of_lt (Nat.add_le_add_left (reach_le fr) _) hfits) hhalf
      · exact (hr.partition_wrapped hd hfits (Nat.lt_of_not_le hhalf)).mpr hnone
  · intro hfits hpart
    by_cases hhalf : half fr ≤ fr.m_begin
    · exact .inl ⟨Nat.lt_of_le_of_lt (Nat.add_le_add_left (reach_le fr) _) hfits, hhalf⟩
    · exact .inr ⟨hfits, (hr.partition_wrapped hd hfits (Nat.lt_of_not_le hhalf)).mp hpart⟩

end

/-! ## Logs of messages with times -/

def timed (t : UInt8) : Message := ⟨4, List.replicate 7 0 ++ [t]⟩

def timedLog (ts : List UInt8) : Bytes := header_bytes smallHeader ++ entries_bytes (ts.map timed)

theorem timed_log (ts : List UInt8) : LogFile smallHeader (ts.map timed) [] (timedLog ts) where
  content := by rw [List.append_nil, timedLog]
  magic := rfl
  version := .inr rfl
  sound e he := by
    rw [List.append_nil] at he
    obtain ⟨t, -, rfl⟩ := List.mem_map.mp he
    exact ⟨by simp [timed, entry_size], fun _ => by simp [timed]⟩
  offset := .inl ⟨rfl, rfl⟩

/-- Two frames: of four messages the first one is in front of them, the second one and the last two are in them. -/
theorem frames_partition_iff_timed : ∃ fr,
    new_framer 60 120 60 none none 400 (timedLog [20, 70, 100, 140]) = some fr ∧
    FramesPartition fr 400 (live ([20, 70, 100, 140].map timed)) := by
  have hlen : (timedLog [20, 70, 100, 140]).length < 400 := by decide
  have hsorted : ((live ([] ++ [20, 70, 100, 140].map timed)).map stamp).Pairwise (· ≤ ·) := by decide
  cases hnew : new_framer 60 120 60 none none 400 (timedLog [20, 70, 100, 140]) with
  | none =>
    have hsome : (new_framer 60 120 60 none none 400 (timedLog [20, 70, 100, 140])).isSome = true := by decide
    rw [hnew] at hsome
    cases hsome
  | some fr =>
    obtain ⟨hb, he, hi, -, -, ⟨t, hfhdr⟩, -⟩ := new_framer_eq (timed_log _) hlen hnew hsorted
    have hil : fr.m_fhdr.interval_length.toNat = 60 := by
      rw [hfhdr]
      rfl
    refine ⟨fr, rfl, (frames_partition_iff (timed_log _) hlen hnew hsorted (by decide)
      (.inr ⟨by decide, by decide⟩)).1 (.inl ⟨?_, ?_⟩)⟩
    · rw [he, reach, hi, if_neg (by decide), hil]
      decide
    · rw [hb, half, hil]
      decide

/-- A report that begins and ends at time 0 leaves out the message of this time. -/
theorem first_message_lost : LogFile smallHeader [timed 0] [] (timedLog [0]) ∧
    ((live ([] ++ [timed 0])).map stamp).Pairwise (· ≤ ·) ∧
    ∃ fr, new_framer 0 0 0 none none 200 (timedLog [0]) = some fr ∧ ¬FramesPartition fr 200 (live [timed 0]) := by
  have hlen : (timedLog [0]).length < 200 := by decide
  have hsorted : ((live ([] ++ [timed 0])).map stamp).Pairwise (· ≤ ·) := List.pairwise_singleton _ _
  refine ⟨timed_log [0], hsorted, ?_⟩
  cases hnew : new_framer 0 0 0 none none 200 (timedLog [0]) with
  | none =>
    have hsome : (new_framer 0 0 0 none none 200 (timedLog [0])).isSome = true := by decide
    rw [hnew] at hsome
    cases hsome
  | some fr =>
    obtain ⟨hb, he, hi, htypes, hdevices, ⟨t, hfhdr⟩, es, hr, hlive⟩ :=
      new_framer_eq (timed_log [0]) hlen hnew hsorted
    refine ⟨fr, rfl, fun hpart => ?_⟩
    have hil : fr.m_fhdr.interval_length.toNat = 60 := by
      rw [hfhdr]
      rfl
    have hd : Due fr 0 := .inl ⟨hi, rfl, by rw [hb, he]⟩
    have hfits : fr.m_end + fr.m_fhdr.interval_length.toNat < 2 ^ 64 := by
      rw [he, hil]
      decide
    have hwrap : fr.m_begin < half fr := by
      rw [hb, half, hil]
      decide
    have hlive : live es = live [timed 0] := hlive
    rw [← hlive, hr.partition_wrapped hd hfits hwrap, hlive] at hpart
    have hpasses : passes fr (timed 0) = true := by
      rw [passes, htypes, handled, hdevices, hfhdr]
      rfl
    exact absurd (hpart (timed 0) List.mem_cons_self hpasses) (Nat.not_lt_of_le (Nat.zero_le _))

end Ziomon
