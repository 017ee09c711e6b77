import S390Tools.Vmur.Lines
import S390Tools.Vmur.Receive

/-!
# When a file is transferred completely

A binary file gets zero bytes after every read that is not a multiple of the
record length. A text or blocked file loses a last line without separator.
-/

namespace Vmur

section
variable (info : Info) (s : Stream)

def separator : UInt8 := if info.text_specified then 0x0a else info.blocked_separator

def line_record : Bytes → Option Bytes :=
  if info.text_specified then text_record info else blocked_record info

def allLines : List Bytes :=
  (lines (separator info) s.flatten).1 ++
    if (lines (separator info) s.flatten).2 = [] then [] else [(lines (separator info) s.flatten).2]

def onePerLine : Outcome :=
  match recordsOf (line_record info) info.ur_reclen (allLines info s) with
  | none => .failed
  | some out => .sent out

/-- The input reaches the device completely, and a binary or blocked file is received as it was sent. -/
def Transferred (portions : Nat) : Prop :=
  if info.text_specified then ur_write info portions s = onePerLine info s
  else if info.blocked_specified then
    ur_write info portions s = onePerLine info s ∧
      ∀ data pages, ur_write info portions s = .sent data →
        (∀ l ∈ allLines info s, l.getLast? ≠ some info.blocked_padding) →
        Spooled info.ur_reclen data pages → write_normal info info.ur_reclen pages = some s.flatten
  else
    ur_write info portions s = .sent (padded info.ur_reclen s.flatten) ∧
      ∀ pages, Spooled info.ur_reclen (padded info.ur_reclen s.flatten) pages →
        write_normal info info.ur_reclen pages = some (padded info.ur_reclen s.flatten)

/-- The input ends with a separator, or an error is due anyhow: what follows the last separator is too long for a
record, or an earlier line is too long or not converted. -/
def Terminated : Prop :=
  (lines (separator info) s.flatten).2 = [] ∨ info.ur_reclen < (lines (separator info) s.flatten).2.length ∨
    ∃ l ∈ (lines (separator info) s.flatten).1, info.ur_reclen < l.length ∨ line_record info l = none

def Complete : Prop :=
  if info.text_specified ∨ info.blocked_specified then Terminated info s else Seamless info.ur_reclen s

end

section
variable {info : Info} {s : Stream}

theorem length_line_record {l r : Bytes} (hl : l.length ≤ info.ur_reclen) (h : line_record info l = some r) :
    r.length = info.ur_reclen := by
  rw [line_record] at h
  split at h
  · rw [text_record] at h
    split at h
    · cases h
    · split at h
      · rename_i hout
        cases h
        exact hout
      · cases h
  · cases h
    exact length_pad_line hl

theorem read_input_file_eq (h : info.text_specified ∨ info.blocked_specified) (s : Stream) :
    read_input_file info s = read_records (separator info) (line_record info) info.ur_reclen VMUR_REC_COUNT s := by
  rw [read_input_file, separator, line_record]
  by_cases ht : info.text_specified = true
  · rw [if_pos ht, if_pos ht, if_pos ht, read_text_file]
  · rw [if_neg ht, if_neg ht, if_neg ht, if_pos (h.resolve_left ht), read_blocked_file]

theorem ur_write_eq {portions : Nat} (hpos : 0 < info.ur_reclen) (h : info.text_specified ∨ info.blocked_specified)
    (hs : Ready s) (hlen : s.flatten.length < portions) :
    ur_write info portions s = writtenLines (line_record info) info.ur_reclen
      (lines (separator info) s.flatten).1 (lines (separator info) s.flatten).2 :=
  ur_write_lines hpos (read_input_file_eq h) (fun _ _ => length_line_record) hs rfl hlen

theorem writtenLines_eq_iff (hpos : 0 < info.ur_reclen) :
    writtenLines (line_record info) info.ur_reclen (lines (separator info) s.flatten).1
      (lines (separator info) s.flatten).2
      = onePerLine info s ↔ Terminated info s := by
  rw [onePerLine, allLines, Terminated]
  obtain ⟨ls, r, hl⟩ : ∃ ls r, lines (separator info) s.flatten = (ls, r) := ⟨_, _, rfl⟩
  simp only [hl]
  rw [recordsOf_append, writtenLines, ← recordsOf_eq_none]
  cases hls : recordsOf (line_record info) info.ur_reclen ls with
  | none => exact iff_of_true rfl (.inr (.inr rfl))
  | some out =>
    by_cases hnil : r = []
    · refine iff_of_true ?_ (.inl hnil)
      simp [hnil, recordsOf]
    · rw [if_neg hnil]
      by_cases hr : r.length ≤ info.ur_reclen
      · refine iff_of_false ?_ ?_
        · simp only [recordsOf, if_pos hr]
          cases hrec : line_record info r with
          | none => exact fun h => Outcome.noConfusion h
          | some rec =>
            intro h
            have hlen := congrArg List.length (Outcome.sent.inj h)
            have := length_line_record hr hrec
            simp only [List.length_append, List.append_nil] at hlen
            omega
        · rintro (h | h | h)
          · exact hnil h
          · exact absurd hr (Nat.not_le_of_lt h)
          · cases h
      · refine iff_of_true ?_ (.inr (.inl (Nat.lt_of_not_le hr)))
        simp only [recordsOf, if_neg hr]

theorem recordsOf_blocked (ht : info.text_specified = false) : ∀ {ls : List Bytes} {out : Bytes},
    recordsOf (line_record info) info.ur_reclen ls = some out →
      out = (ls.map (pad_line info info.blocked_padding)).flatten ∧ ∀ l ∈ ls, l.length ≤ info.ur_reclen
  | [], out, h => by
    cases h
    exact ⟨rfl, fun _ h => absurd h (List.not_mem_nil)⟩
  | l :: ls, out, h => by
    rw [recordsOf] at h
    split at h
    · rename_i hl
      split at h
      · rename_i r rest hr hrest
        cases h
        obtain ⟨ih, hfit⟩ := recordsOf_blocked ht hrest
        rw [line_record, ht, if_neg (by decide), blocked_record, Option.some.injEq] at hr
        refine ⟨by rw [List.map_cons, List.flatten_cons, hr, ih], fun d hd => ?_⟩
        rcases List.mem_cons.mp hd with rfl | hd
        · exact hl
        · exact hfit d hd
      · cases h
    · cases h

theorem received_blocked {data : Bytes} {pages : List SplinkPage} (hpos : 0 < info.ur_reclen)
    (ht : info.text_specified = false) (hb : info.blocked_specified = true) (hterm : Terminated info s)
    (hdata : onePerLine info s = .sent data) (hend : ∀ l ∈ allLines info s, l.getLast? ≠ some info.blocked_padding)
    (h : Spooled info.ur_reclen data pages) : write_normal info info.ur_reclen pages = some s.flatten := by
  rw [onePerLine] at hdata
  split at hdata
  · cases hdata
  · rename_i out hout
    cases hdata
    obtain ⟨rfl, hfit⟩ := recordsOf_blocked ht hout
    rw [write_normal_blocked hpos ht hb hfit hend h]
    have hlast : (lines (separator info) s.flatten).2 = [] := by
      rw [allLines] at hfit
      rcases hterm with hnil | hlong | ⟨l, hl, hl' | hl'⟩
      · exact hnil
      · by_contra hnil
        rw [if_neg hnil] at hfit
        exact absurd (hfit _ (List.mem_append_right _ List.mem_cons_self)) (Nat.not_le_of_lt hlong)
      · exact absurd (hfit l (List.mem_append_left _ hl)) (Nat.not_le_of_lt hl')
      · rw [line_record, ht, if_neg (by decide)] at hl'
        cases hl'
    have hflat := lines_flatten (separator info) s.flatten
    rw [hlast, List.append_nil] at hflat
    rw [allLines, if_pos hlast, List.append_nil]
    rw [separator, ht, if_neg (by decide)] at hflat ⊢
    rw [hflat]

/-- A file is transferred completely exactly if the divided input is seamless in binary mode, and its last line is
terminated in the other modes. -/
theorem transferred_iff {portions : Nat} (hpos : 0 < info.ur_reclen) (hs : Ready s)
    (hlen : s.flatten.length < portions) :
    Transferred info s portions ↔ Complete info s := by
  rw [Transferred, Complete]
  cases ht : info.text_specified with
  | true =>
    rw [if_pos rfl, if_pos (.inl rfl), ur_write_eq hpos (.inl ht) hs hlen, writtenLines_eq_iff hpos]
  | false =>
    rw [if_neg (by decide)]
    cases hb : info.blocked_specified with
    | true =>
      rw [if_pos rfl, if_pos (.inr rfl), ur_write_eq hpos (.inr hb) hs hlen, writtenLines_eq_iff hpos]
      refine ⟨fun h => h.1, fun hterm => ⟨hterm, fun data pages hdata hend hspool => ?_⟩⟩
      rw [(writtenLines_eq_iff hpos).mpr hterm] at hdata
      exact received_blocked hpos ht hb hterm hdata hend hspool
    | false =>
      rw [if_neg (by decide), if_neg (by decide), ur_write_binary hpos ht hb hs hlen, Outcome.sent.injEq]
      refine ⟨fun h => seamless_of_eq hpos h.1, fun h => ⟨eq_of_seamless h, fun pages hspool => ?_⟩⟩
      exact write_normal_binary hpos ht hb hspool

end

def punch : Info where
  ur_reclen := 80
  text_specified := false
  blocked_specified := false
  blocked_separator := 0x0a
  blocked_padding := 0x20
  iconv := some

def punched : Stream := [List.replicate 80 0x61, [0x62, 0x0a]]

theorem transferred_punch : Complete punch punched ∧ Transferred punch punched 83 :=
  have h : Complete punch punched := .inr ⟨[List.replicate 80 0x61], [0x62, 0x0a], [], rfl,
    by decide, fun b hb => absurd hb List.not_mem_nil, by decide⟩
  ⟨h, (transferred_iff (by decide) (by simp [Ready, punched]) (by decide)).mpr h⟩

/-- Two short reads from a pipe: the second byte is sent behind 79 zero bytes. -/
theorem short_reads_separated : ¬Transferred punch [[0x61], [0x62]] 3 := by
  intro h
  have hsent : ur_write punch 3 [[0x61], [0x62]] = .sent (padded 80 [0x61, 0x62]) := h.1
  exact absurd hsent (by decide)

end Vmur
