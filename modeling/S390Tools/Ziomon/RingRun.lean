import S390Tools.Lib.Run
import S390Tools.Ziomon.Ring

/-!
# Runs of the log

A run adds messages one after the other. Every message is handed back or still in
the log, in the order of adding, as long as each step meets `Clear`.
-/

namespace Ziomon

open Stdio Word

/-- The log with all messages added so far and those that were handed back. -/
structure LogState where
  file : File
  header : FileHeader
  deleted : List Message
  added : List Message

def step (s : LogState) (msg : Message) : Option LogState :=
  (add_msg s.header msg s.file).map fun (f, h, del_msg) => ⟨f, h, s.deleted ++ del_msg, s.added ++ [msg]⟩

/-! ## What a step finds -/

def entries : Nat → Bytes → List Message
  | 0, _ => []
  | n + 1, d =>
    if d.length < 8 then []
    else
      ⟨UInt32.ofNat (unbe ((d.drop 4).take 4)), (d.drop 8).take (unbe (d.take 4))⟩ ::
        entries n (d.drop (8 + unbe (d.take 4)))

def ahead (f : File) : List Message := entries f.content.length (f.content.drop f.pos)

def behind (f : File) : List Message := entries f.content.length ((f.content.take f.pos).drop HEADER_LEN)

def Wraps (s : LogState) (msg : Message) : Prop := s.header.size_limit.toNat < s.file.pos + entry_size msg

instance (s : LogState) (msg : Message) : Decidable (Wraps s msg) := inferInstanceAs (Decidable (_ < _))

def inTheWay (s : LogState) (msg : Message) : List Message :=
  if Wraps s msg then behind s.file ++ ahead s.file else ahead s.file

/-- The condition of a step: the message fits into the file and an `int` holds its size, it is no garbage, and
as statistics of version 2 it is complete; when it wraps around, no message is left behind the first entry at
the position; and what is left over of the last entry overwritten has room for a garbage entry before the end
of the file. -/
def Clear (s : LogState) (msg : Message) : Prop :=
  (8 ≤ msg.data.length ∧ HEADER_LEN + entry_size msg ≤ s.header.size_limit.toNat) ∧
  (entry_size msg < 2147483648 ∧ msg.type ≠ ZIOMON_DACC_GARBAGE_MSG ∧
    (s.header.version = DATA_MGR_V2 → msg.type = s.header.msgid_blkiomon → stat_len ≤ msg.data.length)) ∧
  (Wraps s msg → live ((ahead s.file).drop 1) = []) ∧
  (settle (room (entry_size msg) ((inTheWay s msg).map entry_size))).any (fun p => p.1 < 2147483648) = true

instance (s : LogState) (msg : Message) : Decidable (Clear s msg) := inferInstanceAs (Decidable (_ ∧ _))

theorem entries_eq : ∀ {n : Nat} {es : List Message}, (∀ e ∈ es, Sound e) → es.length ≤ n →
    entries n (entries_bytes es) = es
  | 0, es, _, hn => by
    rw [List.length_eq_zero_iff.mp (Nat.le_zero.mp hn)]
    rfl
  | n + 1, [], _, _ => rfl
  | n + 1, e :: es, hs, hn => by
    have he := hs e List.mem_cons_self
    have ih := entries_eq (fun x hx => hs x (List.mem_cons_of_mem e hx)) (Nat.le_of_succ_le_succ hn)
    have hlen : ¬(entries_bytes (e :: es)).length < 8 := by
      rw [entries_bytes_cons, List.length_append, length_message_bytes, entry_size]
      omega
    have hbytes : entries_bytes (e :: es) = be 4 e.data.length ++
      (be 4 e.type.toNat ++ (e.data ++ entries_bytes es)) := by
      simp [message_bytes]
    have hlength : (entries_bytes (e :: es)).take 4 = be 4 e.data.length := by
      rw [hbytes, List.take_left' (length_be 4 _)]
    have htype : ((entries_bytes (e :: es)).drop 4).take 4 = be 4 e.type.toNat := by
      rw [hbytes, List.drop_left' (length_be 4 _), List.take_left' (length_be 4 _)]
    have hdata : (entries_bytes (e :: es)).drop 8 = e.data ++ entries_bytes es := by
      rw [hbytes, ← List.append_assoc, List.drop_left' (by simp)]
    rw [entries, if_neg hlen, hlength, htype, unbe_length he, unbe_be_32, hdata, ← List.drop_drop, hdata,
      List.take_left, List.drop_left, ih]

/-! ## The invariant -/

/-- The entries `older` stand behind the position, the entries `newer` in front of it. -/
structure Ring (h₀ : FileHeader) (s : LogState) (newer older : List Message) : Prop where
  file : s.file = between (header_bytes s.header ++ entries_bytes newer) (entries_bytes older)
  header : s.header = { h₀ with end_time := s.header.end_time, first_msg_offset := s.header.first_msg_offset }
  sound : ∀ e ∈ newer ++ older, Sound e
  offset : older = [] ∧ s.header.first_msg_offset = 0 ∨
    newer ≠ [] ∧ s.header.first_msg_offset.toNat = (header_bytes s.header ++ entries_bytes newer).length
  limit : newer ++ older = [] ∨ HEADER_LEN + (entries_bytes (newer ++ older)).length ≤ s.header.size_limit.toNat
  order : s.deleted ++ (live (older ++ newer)).map (as_read h₀.version h₀.msgid_blkiomon) =
    s.added.map (as_read h₀.version h₀.msgid_blkiomon)

section
variable {h₀ : FileHeader} {s : LogState} {newer older : List Message} {msg : Message}

theorem Ring.pos (hr : Ring h₀ s newer older) : s.file.pos = HEADER_LEN + (entries_bytes newer).length := by
  rw [hr.file, between_pos, List.length_append, length_header_bytes]

theorem Ring.ahead_eq (hr : Ring h₀ s newer older) : ahead s.file = older := by
  have hlen := length_le_entries_bytes older
  rw [ahead, hr.file, between_content, between_pos, List.drop_left,
    entries_eq (fun e he => hr.sound e (List.mem_append_right newer he)) (by rw [List.length_append]; omega)]

theorem Ring.behind_eq (hr : Ring h₀ s newer older) : behind s.file = newer := by
  have hlen := length_le_entries_bytes newer
  rw [behind, hr.file, between_content, between_pos, List.take_left, List.drop_left' (length_header_bytes _),
    entries_eq (fun e he => hr.sound e (List.mem_append_left older he)) (by
      rw [List.length_append, List.length_append]
      omega)]

theorem Ring.version (hr : Ring h₀ s newer older) : s.header.version = h₀.version := by
  rw [hr.header]

theorem Ring.msgid_blkiomon (hr : Ring h₀ s newer older) : s.header.msgid_blkiomon = h₀.msgid_blkiomon := by
  rw [hr.header]

theorem total_eq (hfits : entry_size msg < 2147483648) : get_total_msg_size msg = entry_size msg := by
  rw [entry_size] at hfits
  rw [get_total_msg_size, u32_of_lt (by omega) (by omega), entry_size]
  omega

theorem wrap_around_stay {h : FileHeader} {total : Nat} {f : File} (hstay : ¬f.pos + total > h.size_limit.toNat) :
    wrap_around h total f = some (f, []) := by
  rw [wrap_around, if_neg hstay]

/-- Where the message is written: behind the entries `kept`, over the entries `ds`, with `left` bytes over. -/
structure Placed (h₀ : FileHeader) (s : LogState) (newer older : List Message) (msg : Message)
    (kept ds rest : List Message)
    (left : Nat) (del : List Message) : Prop where
  position : position_in_file s.header msg s.file =
    some ((left : Int), between (header_bytes s.header ++ entries_bytes kept) (entries_bytes (ds ++ rest)),
      del.map (as_read h₀.version h₀.msgid_blkiomon))
  small : left < 2147483648
  room : left = 0 ∨ 8 ≤ left
  sum : (entries_bytes ds).length = entry_size msg + left ∨
    rest = [] ∧ left = 0 ∧ (entries_bytes ds).length < entry_size msg
  sound : ∀ e ∈ kept ++ rest, Sound e
  size : (entries_bytes kept).length + (entries_bytes (ds ++ rest)).length = (entries_bytes (newer ++ older)).length
  fits : HEADER_LEN + (entries_bytes kept).length + entry_size msg ≤ s.header.size_limit.toNat
  order : live (older ++ newer) = del ++ live (rest ++ kept)

theorem Clear.settled {sizes : List Nat} (hc : Clear s msg) (hsizes : (inTheWay s msg).map entry_size = sizes) :
    ∃ left rest, settle (room (entry_size msg) sizes) = some (left, rest) ∧ left < 2147483648 := by
  have hany := hc.2.2.2
  rw [hsizes] at hany
  cases hp : settle (room (entry_size msg) sizes) with
  | none =>
    rw [hp] at hany
    cases hany
  | some p =>
    rw [hp] at hany
    exact ⟨p.1, p.2, rfl, of_decide_eq_true hany⟩

theorem Ring.placed_in_place (hr : Ring h₀ s newer older) (hc : Clear s msg) (hw : ¬Wraps s msg) :
    ∃ kept ds rest left del, Placed h₀ s newer older msg kept ds rest left del := by
  obtain ⟨⟨h8, hfits⟩, ⟨hsmall, -, -⟩, -, -⟩ := id hc
  have hpos := hr.pos
  have hroom : HEADER_LEN + (entries_bytes newer).length + entry_size msg ≤ s.header.size_limit.toNat := by
    rw [Wraps, hpos] at hw
    exact Nat.le_of_not_lt hw
  have hstay : ∀ post : Bytes, ¬(between (header_bytes s.header ++ entries_bytes newer) post).pos + entry_size msg >
      s.header.size_limit.toNat := by
    intro post
    rw [between_pos, List.length_append, length_header_bytes]
    omega
  cases older with
  | nil =>
    refine ⟨newer, [], [], 0, [], ?_, by decide, .inl rfl, .inr ⟨rfl, rfl, ?_⟩,
      by simpa using hr.sound, ?_, hroom, ?_⟩
    · rw [position_in_file, hr.file, total_eq hsmall]
      simp only [entries_bytes_nil, get_next_msg_size_end]
      rw [if_neg (hstay _)]
      rfl
    · rw [entries_bytes_nil, List.length_nil, entry_size]
      omega
    · simp
    · simp
  | cons e es =>
    have he := hr.sound e (List.mem_append_right newer List.mem_cons_self)
    have hway : (inTheWay s msg).map entry_size = (e :: es).map entry_size := by
      rw [inTheWay, if_neg hw, hr.ahead_eq]
    obtain ⟨left, sizes, hsettle, hleft⟩ := hc.settled hway
    obtain ⟨ds, rest, heq, hover, hleft', hsum⟩ := @overwrite_eq s.header (entry_size msg) (e :: es)
      (header_bytes s.header ++ entries_bytes newer) []
        (fun x hx => hr.sound x (List.mem_append_right newer hx)) left sizes
      hsettle hleft
    refine ⟨newer, ds, rest, left, live ds, ?_, hleft, hleft', hsum, fun x hx => hr.sound x ?_, ?_, hroom, ?_⟩
    · rw [entries_bytes_cons, List.nil_append] at hover
      rw [position_in_file, hr.file, total_eq hsmall, entries_bytes_cons, get_next_msg_size_eq he]
      simp only [wrap_around_stay (hstay _), hover]
      rw [← heq, hr.version, hr.msgid_blkiomon, entries_bytes_cons]
    · rw [heq]
      rcases List.mem_append.mp hx with hx | hx
      · exact List.mem_append_left _ hx
      · exact List.mem_append_right _ (List.mem_append_right _ hx)
    · rw [heq, entries_bytes_append newer, List.length_append]
    · rw [heq]
      simp

theorem Ring.placed_wrapped (hr : Ring h₀ s newer older) (hc : Clear s msg) (hw : Wraps s msg) :
    ∃ kept ds rest left del, Placed h₀ s newer older msg kept ds rest left del := by
  obtain ⟨⟨h8, hfits⟩, ⟨hsmall, -, -⟩, hlast, -⟩ := id hc
  have hlast := hlast hw
  rw [hr.ahead_eq] at hlast
  have hway : (inTheWay s msg).map entry_size = (newer ++ older).map entry_size := by
    rw [inTheWay, if_pos hw, hr.ahead_eq, hr.behind_eq]
  obtain ⟨left, sizes, hsettle, hleft⟩ := hc.settled hway
  have hleave : ∀ post : Bytes, (between (header_bytes s.header ++ entries_bytes newer) post).pos + entry_size msg >
      s.header.size_limit.toNat := by
    intro post
    rw [Wraps, hr.pos] at hw
    rw [between_pos, List.length_append, length_header_bytes]
    exact hw
  have hstay : ∀ post : Bytes,
    ¬(between (header_bytes s.header) post).pos + entry_size msg > s.header.size_limit.toNat := by
    intro post
    rw [between_pos, length_header_bytes]
    omega
  cases older with
  | nil =>
    rw [List.append_nil] at hsettle
    obtain ⟨ds, rest, heq, hover, hleft', hsum⟩ :=
      @overwrite_eq s.header (entry_size msg) newer (header_bytes s.header) []
      (fun x hx => hr.sound x (List.mem_append_left [] hx)) left sizes hsettle hleft
    refine ⟨[], ds, rest, left, live ds, ?_, hleft, hleft', hsum, fun x hx => hr.sound x ?_, ?_, ?_, ?_⟩
    · have hseek := seek_between (header_bytes s.header) (entries_bytes newer)
        (between (header_bytes s.header ++ entries_bytes newer) []) (by simp)
      rw [length_header_bytes] at hseek
      rw [position_in_file, hr.file, total_eq hsmall]
      simp only [entries_bytes_nil, get_next_msg_size_end]
      rw [if_pos (hleave _)]
      simp only [position_at_first_msg, hseek, wrap_around_stay (hstay _), hover]
      rw [← heq, hr.version, hr.msgid_blkiomon, List.nil_append, List.append_nil]
    · rw [heq, List.append_nil]
      exact List.mem_append_right _ hx
    · rw [← heq, List.append_nil, entries_bytes_nil, List.length_nil, Nat.zero_add]
    · rw [entries_bytes_nil, List.length_nil]
      omega
    · rw [List.nil_append, List.append_nil, heq, live_append]
  | cons e es =>
    have he := hr.sound e (List.mem_append_right newer List.mem_cons_self)
    -- the first entry behind the position becomes garbage
    obtain ⟨g, hg⟩ : ∃ g : Message, g = ⟨ZIOMON_DACC_GARBAGE_MSG, e.data⟩ := ⟨_, rfl⟩
    have hgs : Sound g := by
      rw [hg]
      exact ⟨he.fits, fun h => absurd rfl h⟩
    have hglive : live (g :: es) = [] := by
      rw [live_cons_garbage (by rw [hg])]
      exact hlast
    have hgsize : (newer ++ e :: es).map entry_size = (newer ++ g :: es).map entry_size := by
      rw [hg]
      simp [entry_size]
    rw [hgsize] at hsettle
    have hgsound : ∀ x ∈ newer ++ g :: es, Sound x := by
      intro x hx
      rcases List.mem_append.mp hx with hx | hx
      · exact hr.sound x (List.mem_append_left _ hx)
      · rcases List.mem_cons.mp hx with rfl | hx
        · exact hgs
        · exact hr.sound x (List.mem_append_right _ (List.mem_cons_of_mem e hx))
    obtain ⟨ds, rest, heq, hover, hleft', hsum⟩ := @overwrite_eq s.header (entry_size msg) (newer ++ g :: es)
      (header_bytes s.header) ((live [e]).map (as_read s.header.version s.header.msgid_blkiomon))
        hgsound left sizes hsettle
      hleft
    refine ⟨[], ds, rest, left, live [e] ++ live ds, ?_, hleft, hleft', hsum, fun x hx => hgsound x ?_, ?_, ?_, ?_⟩
    · have hgarbage : position_at_first_msg (write_garbage_message (entry_size e : Int)
          (between (header_bytes s.header ++ entries_bytes newer) (message_bytes e ++ entries_bytes es))) =
          between (header_bytes s.header) (entries_bytes (newer ++ g :: es)) := by
        obtain ⟨f, hf, hcontent⟩ := @write_garbage_eq (header_bytes s.header ++ entries_bytes newer)
          (entries_bytes es) (be 4 e.data.length ++ be 4 e.type.toNat) e.data (by simp) he.fits
        rw [← List.append_assoc, ← message_bytes] at hf
        rw [entry_size, hf, position_at_first_msg, ← length_header_bytes s.header]
        exact seek_between _ _ _ (by rw [hcontent, hg]; simp)
      rw [position_in_file, hr.file, total_eq hsmall, entries_bytes_cons, get_next_msg_size_eq he]
      simp only [wrap_around]
      rw [if_pos (hleave _)]
      simp only [get_next_msg_size_eq he, aggregate_message_eq he, hgarbage, hover]
      rw [← heq, List.map_append, hr.version, hr.msgid_blkiomon, entries_bytes_nil, List.append_nil]
    · rw [heq]
      exact List.mem_append_right _ hx
    · rw [← heq, hg]
      simp [entry_size]
    · rw [entries_bytes_nil, List.length_nil]
      omega
    · have hlive := congrArg live heq
      rw [live_append, hglive, List.append_nil, live_append] at hlive
      have hes : live es = [] := by simpa using hlast
      rw [List.append_nil, List.append_assoc, ← hlive, live_append, ← List.singleton_append, live_append, hes,
        List.append_nil]

theorem Ring.placed (hr : Ring h₀ s newer older) (hc : Clear s msg) :
    ∃ kept ds rest left del, Placed h₀ s newer older msg kept ds rest left del := by
  by_cases hw : Wraps s msg
  · exact hr.placed_wrapped hc hw
  · exact hr.placed_in_place hc hw

def nextHeader (h : FileHeader) (msg : Message) (cur_pos old_pos : Nat) : FileHeader :=
  { h with
    end_time := .ofNat (unbe (msg.data.take 8))
    first_msg_offset := if h.first_msg_offset ≠ 0 ∨ cur_pos < old_pos then .ofNat cur_pos else h.first_msg_offset }

def endOf (kept : List Message) (msg : Message) : Nat := HEADER_LEN + (entries_bytes kept).length + entry_size msg

theorem length_kept (h : FileHeader) (kept : List Message) (msg : Message) :
    (header_bytes h ++ entries_bytes (kept ++ [msg])).length = endOf kept msg := by
  simp only [endOf, List.length_append, length_header_bytes, entries_bytes_append,
    entries_bytes_cons, entries_bytes_nil,
    List.append_nil, length_message_bytes, Nat.add_assoc]

variable {kept ds rest : List Message} {left : Nat} {del : List Message}

theorem Placed.add_msg_eq (hp : Placed h₀ s newer older msg kept ds rest left del) (hne : msg.data ≠ []) :
    ∃ gs, (∀ g ∈ gs, Sound g ∧ g.type = ZIOMON_DACC_GARBAGE_MSG) ∧ (entries_bytes gs).length = left ∧
      add_msg s.header msg s.file = some
        (between (header_bytes (nextHeader s.header msg (endOf kept msg) s.file.pos) ++
          entries_bytes (kept ++ [msg]))
          (entries_bytes (gs ++ rest)), nextHeader s.header msg (endOf kept msg) s.file.pos,
          del.map (as_read h₀.version h₀.msgid_blkiomon)) := by
  obtain ⟨gs, f, hgs, hwrite, hfpos, hgarbage, hgslen⟩ :=
    @write_over (header_bytes s.header ++ entries_bytes kept) ds rest msg
    left hne hp.small hp.room hp.sum
  refine ⟨gs, hgs, hgslen, ?_⟩
  have hcur : f.pos = endOf kept msg := by
    rw [hfpos, endOf, List.length_append, List.length_append, length_header_bytes, length_message_bytes]
  generalize hh' : nextHeader s.header msg (endOf kept msg) s.file.pos = h'
  have hcontent := @write_header_eq s.header h' (entries_bytes kept ++ message_bytes msg ++
    entries_bytes (gs ++ rest))
    (between (header_bytes s.header ++ entries_bytes kept ++ message_bytes msg)
      (entries_bytes (gs ++ rest))) (by simp)
  have hseek := seek_between (header_bytes h' ++ entries_bytes (kept ++ [msg])) (entries_bytes (gs ++ rest))
    (write_f_header h' (between (header_bytes s.header ++ entries_bytes kept ++ message_bytes msg)
      (entries_bytes (gs ++ rest)))) (by rw [hcontent]; simp)
  rw [length_kept] at hseek
  rw [add_msg, hp.position]
  simp only
  rw [if_neg (by omega), hwrite]
  rw [hcur] at hgarbage
  simp only [hcur, hgarbage]
  rw [← hseek, ← hh', nextHeader]

theorem toNat_ne_zero {x : UInt64} (h : 0 < x.toNat) : x ≠ 0 := fun hzero => by
  rw [hzero] at h
  exact Nat.lt_irrefl 0 h

theorem Placed.offset (hr : Ring h₀ s newer older) (hp : Placed h₀ s newer older msg kept ds rest left del)
    {gs : List Message} (hgs : (entries_bytes gs).length = left) :
    gs ++ rest = [] ∧ (nextHeader s.header msg (endOf kept msg) s.file.pos).first_msg_offset = 0 ∨
      (nextHeader s.header msg (endOf kept msg) s.file.pos).first_msg_offset.toNat = endOf kept msg := by
  by_cases hoff : s.header.first_msg_offset ≠ 0 ∨ endOf kept msg < s.file.pos
  · refine .inr ?_
    have hfits := hp.fits
    have hlimit := s.header.size_limit.toNat_lt
    simp only [nextHeader, if_pos hoff]
    rw [UInt64.toNat_ofNat', endOf, Nat.mod_eq_of_lt (Nat.lt_of_le_of_lt hfits hlimit)]
  · -- the log was never wrapped, and nothing is left behind the message
    obtain ⟨hzero, hbehind⟩ := not_or.mp hoff
    have hzero := not_not.mp hzero
    have hold : older = [] := by
      rcases hr.offset with ⟨hnil, -⟩ | ⟨-, hpos⟩
      · exact hnil
      · rw [List.length_append, length_header_bytes, HEADER_LEN] at hpos
        exact absurd hzero (toNat_ne_zero (by omega))
    have hsize := hp.size
    rw [hold, List.append_nil, entries_bytes_append, List.length_append] at hsize
    rw [hr.pos, endOf] at hbehind
    have hbytes : (entries_bytes gs).length = 0 ∧ (entries_bytes rest).length = 0 := by
      rcases hp.sum with hsum | ⟨hrest, hleft, -⟩
      · omega
      · rw [hgs, hrest, hleft]
        exact ⟨rfl, rfl⟩
    have hgsnil : gs = [] := List.length_eq_zero_iff.mp (Nat.le_zero.mp (hbytes.1 ▸ length_le_entries_bytes gs))
    have hrestnil : rest = [] :=
      List.length_eq_zero_iff.mp (Nat.le_zero.mp (hbytes.2 ▸ length_le_entries_bytes rest))
    refine .inl ⟨by rw [hgsnil, hrestnil]; rfl, ?_⟩
    simp only [nextHeader, if_neg hoff]
    exact hzero

theorem Placed.limit (hr : Ring h₀ s newer older) (hp : Placed h₀ s newer older msg kept ds rest left del)
    {gs : List Message} (hgs : (entries_bytes gs).length = left) :
    HEADER_LEN + (entries_bytes (kept ++ [msg] ++ (gs ++ rest))).length ≤ s.header.size_limit.toNat := by
  have hsize := hp.size
  have hfits := hp.fits
  have hlimit := hr.limit
  simp only [entries_bytes_append, entries_bytes_cons, entries_bytes_nil, List.append_nil, List.length_append,
    length_message_bytes] at hlimit hsize ⊢
  rcases hp.sum with hsum | ⟨hrest, hleft, -⟩
  · rcases hlimit with hnil | hlimit
    · obtain ⟨hnewer, holder⟩ := List.append_eq_nil_iff.mp hnil
      rw [hnewer, holder, entries_bytes_nil, List.length_nil] at hsize
      rw [entry_size] at hsum
      omega
    · omega
  · rw [hgs, hrest, hleft, entries_bytes_nil, List.length_nil]
    omega

theorem Ring.step (hr : Ring h₀ s newer older) (hc : Clear s msg) :
    ∃ s' newer' older', Ziomon.step s msg = some s' ∧ Ring h₀ s' newer' older' := by
  obtain ⟨kept, ds, rest, left, del, hp⟩ := hr.placed hc
  obtain ⟨⟨h8, -⟩, ⟨hsmall, htype, -⟩, -, -⟩ := hc
  have hne : msg.data ≠ [] := List.ne_nil_of_length_pos (by omega)
  obtain ⟨gs, hgs, hgslen, hadd⟩ := hp.add_msg_eq hne
  have hstep := congrArg (Option.map fun (f, h, del_msg) =>
    (⟨f, h, s.deleted ++ del_msg, s.added ++ [msg]⟩ : LogState)) hadd
  have hoffset := Placed.offset hr hp hgslen
  have hlimit := Placed.limit hr hp hgslen
  have hgslive : live gs = [] := List.filter_eq_nil_iff.mpr fun g hg => by simp [(hgs g hg).2]
  have horder := hr.order
  rw [hp.order, List.map_append, ← List.append_assoc] at horder
  refine ⟨_, kept ++ [msg], gs ++ rest, hstep, ⟨rfl, ?_, ?_, ?_, .inr hlimit, ?_⟩⟩
  · rw [nextHeader, hr.header]
  · intro e he
    rcases List.mem_append.mp he with he | he
    · rcases List.mem_append.mp he with he | he
      · exact hp.sound e (List.mem_append_left _ he)
      · rw [List.mem_singleton.mp he]
        exact ⟨hsmall, fun _ => h8⟩
    · rcases List.mem_append.mp he with he | he
      · exact (hgs e he).1
      · exact hp.sound e (List.mem_append_right _ he)
  · rw [length_kept]
    exact hoffset.imp_right fun hpos => ⟨by simp, hpos⟩
  · simp only [live_append, hgslive, live_cons htype, live_nil, List.nil_append, List.map_append,
      List.map_cons, List.map_nil]
    rw [← horder]
    simp

/-! ## Reading the log back -/

/-- A log file: the entries `older` stand behind the entries `newer`. -/
structure LogFile (h : FileHeader) (newer older : List Message) (content : Bytes) : Prop where
  content : content = header_bytes h ++ entries_bytes (newer ++ older)
  magic : h.magic = DATA_MGR_MAGIC
  version : h.version = DATA_MGR_V2 ∨ h.version = DATA_MGR_V3
  sound : ∀ e ∈ newer ++ older, Sound e
  offset : older = [] ∧ h.first_msg_offset = 0 ∨
    newer ≠ [] ∧ h.first_msg_offset.toNat = (header_bytes h ++ entries_bytes newer).length

section
variable {h : FileHeader} {content : Bytes} {steps : Nat} (hl : LogFile h newer older content)

include hl in
theorem LogFile.length_lt (hsteps : content.length < steps) : (older ++ newer).length < steps := by
  have h1 := length_le_entries_bytes (newer ++ older)
  rw [hl.content, List.length_append] at hsteps
  rw [List.length_append] at h1 ⊢
  omega

include hl in
theorem LogFile.ahead : Ahead content h.first_msg_offset.toNat
    (seek_initial_file_pos { h with begin_time := 0 } (between (header_bytes h) (entries_bytes (newer ++ older))))
    (older ++ newer) := by
  have hcontent := hl.content
  rcases hl.offset with ⟨hnil, hzero⟩ | ⟨hne, hpos⟩
  · have hseek := seek_between (header_bytes h) (entries_bytes (newer ++ older))
      (between (header_bytes h) (entries_bytes (newer ++ older))) rfl
    rw [length_header_bytes] at hseek
    rw [seek_initial_file_pos, if_neg (fun h => h hzero), hseek, hzero, hnil, List.append_nil, List.nil_append]
    rw [hnil, List.append_nil] at hcontent
    exact .linear hcontent
  · have hseek := seek_between (header_bytes h ++ entries_bytes newer) (entries_bytes older)
      (between (header_bytes h) (entries_bytes (newer ++ older))) (by simp)
    have hzero : h.first_msg_offset ≠ 0 := toNat_ne_zero (by
      rw [hpos, List.length_append, length_header_bytes, HEADER_LEN]
      omega)
    rw [seek_initial_file_pos, if_pos hzero]
    simp only
    rw [hpos, hseek]
    obtain ⟨e, es, rfl⟩ := List.exists_cons_of_ne_nil hne
    exact @Ahead.early content (header_bytes h) (header_bytes h ++ entries_bytes (e :: es))
      (entries_bytes older) older e es
      (by rw [hcontent]; simp) (by rw [hcontent]; simp) (length_header_bytes _)

include hl in
theorem LogFile.opened (hsteps : content.length < steps) :
    match firstLive (older ++ newer) with
    | none => open_log_file steps content = .eof
    | some (m, rest) => ∃ t r, open_log_file steps content = .ok ({ h with begin_time := t }, r) ∧
        Ahead content h.first_msg_offset.toNat r (m :: rest) := by
  have hhdr := get_header_eq (h := h) hl.magic hl.version (entries_bytes (newer ++ older))
  have hsound : ∀ e ∈ older ++ newer, Sound e := fun e he =>
    hl.sound e (List.mem_append.mpr (List.mem_append.mp he).symm)
  have hfirst := @Ahead.first_message _ _ _ { h with begin_time := 0 }
    _ (reads_message_preview { h with begin_time := 0 })
    preview_eq_none _ _ _ hl.ahead hsound (hl.length_lt hsteps)
  have hlive := live_firstLive (older ++ newer)
  rw [open_log_file, hl.content, hhdr]
  simp only [get_next_msg_preview]
  cases hf : firstLive (older ++ newer) with
  | none =>
    rw [hf] at hfirst
    obtain ⟨r', heq, -⟩ := hfirst
    rw [heq]
  | some p =>
    obtain ⟨m, rest⟩ := p
    rw [hf] at hfirst hlive
    obtain ⟨p, x, r', hx, heq, -, -, hback⟩ := hfirst
    have hxpos : x.pos = p := by
      rw [preview, if_neg hlive.2.2.1] at hx
      cases hx
      rfl
    rw [heq]
    refine ⟨_, _, rfl, ?_⟩
    rw [rewind_to, hxpos, ← hl.content]
    exact hback

end

theorem Ring.logFile (hr : Ring h₀ s newer older) (hm : h₀.magic = DATA_MGR_MAGIC)
    (hv : h₀.version = DATA_MGR_V2 ∨ h₀.version = DATA_MGR_V3) : LogFile s.header newer older s.file.content where
  content := by rw [hr.file, between_content, entries_bytes_append, List.append_assoc]
  magic := by rw [hr.header]; exact hm
  version := by rw [hr.header]; exact hv
  sound := hr.sound
  offset := hr.offset

theorem Ring.logged (hr : Ring h₀ s newer older) (hm : h₀.magic = DATA_MGR_MAGIC)
    (hv : h₀.version = DATA_MGR_V2 ∨ h₀.version = DATA_MGR_V3) {steps : Nat}
      (hsteps : s.file.content.length < steps) :
    Ziomon.logged steps s.file.content =
      some ((live (older ++ newer)).map (as_read h₀.version h₀.msgid_blkiomon)) := by
  have hl := hr.logFile hm hv
  have hopened := hl.opened hsteps
  have hlive := live_firstLive (older ++ newer)
  rw [Ziomon.logged]
  cases hf : firstLive (older ++ newer) with
  | none =>
    rw [hf] at hopened hlive
    rw [hopened, hlive]
    rfl
  | some p =>
    obtain ⟨m, rest⟩ := p
    rw [hf] at hopened hlive
    obtain ⟨t, r, hopen, hahead⟩ := hopened
    obtain ⟨hlive, hrestlen, ht, hmem⟩ := hlive
    have hlen := Nat.lt_of_le_of_lt hrestlen (hl.length_lt hsteps)
    have hdeliver := @deliver_eq { s.header with begin_time := t } s.file.content steps steps (m :: rest) r hahead
      (fun e he => hr.sound e (List.mem_append.mpr (List.mem_append.mp (hmem e he)).symm)) hlen hlen
    rw [hopen]
    simp only [hdeliver]
    rw [live_cons ht, ← hlive, hr.version, hr.msgid_blkiomon]

end

/-! ## Runs -/

/-- The file is the header and complete entries within the limit, and every message added was handed back or is
delivered, in the order of adding; statistics of version 2 in the layout of version 3. -/
structure Kept (h₀ : FileHeader) (msgs : List Message) (s : LogState) : Prop where
  entries : ∃ es, s.file.content = header_bytes s.header ++ entries_bytes es ∧
    (es = [] ∨ s.file.content.length ≤ h₀.size_limit.toNat)
  order : ∃ rest, (∀ steps, s.file.content.length < steps → logged steps s.file.content = some rest) ∧
    s.deleted ++ rest = msgs.map (as_read h₀.version h₀.msgid_blkiomon)

theorem Ring.kept {h₀ : FileHeader} {s : LogState} {newer older : List Message} (hr : Ring h₀ s newer older)
    (hm : h₀.magic = DATA_MGR_MAGIC) (hv : h₀.version = DATA_MGR_V2 ∨ h₀.version = DATA_MGR_V3) :
      Kept h₀ s.added s where
  entries := by
    have hcontent : s.file.content = header_bytes s.header ++ entries_bytes (newer ++ older) := by
      rw [hr.file, between_content, entries_bytes_append, List.append_assoc]
    refine ⟨newer ++ older, hcontent, hr.limit.imp_right fun hlimit => ?_⟩
    rw [hcontent, List.length_append, length_header_bytes]
    rw [hr.header] at hlimit
    exact hlimit
  order := ⟨_, fun _ hsteps => hr.logged hm hv hsteps, hr.order⟩

theorem exec_added : ∀ {msgs : List Message} {s s' : LogState}, Run.exec step s msgs = some s' →
    s'.added = s.added ++ msgs
  | [], s, s', h => by
    cases h
    simp
  | m :: msgs, s, s', h => by
    rw [Run.exec] at h
    obtain ⟨s₁, h₁, h₂⟩ := Option.bind_eq_some_iff.mp h
    obtain ⟨p, -, rfl⟩ := Option.map_eq_some_iff.mp h₁
    rw [exec_added h₂, List.append_assoc, List.singleton_append]

theorem init_ring {h h₀ : FileHeader} {version : Int} {f : File} (hinit : init_file h version = some (f, h₀)) :
    Ring h₀ ⟨f, h₀, [], []⟩ [] [] ∧ h₀.magic = DATA_MGR_MAGIC ∧
      (h₀.version = DATA_MGR_V2 ∨ h₀.version = DATA_MGR_V3) ∧
      h₀.size_limit = h.size_limit := by
  rw [init_file] at hinit
  split at hinit
  · cases hinit
  · rename_i v hv
    simp only [Option.some.injEq, Prod.mk.injEq] at hinit
    obtain ⟨rfl, rfl⟩ := hinit
    have hversion : v = DATA_MGR_V2 ∨ v = DATA_MGR_V3 := by
      split at hv
      · exact .inl (Option.some.inj hv).symm
      · split at hv
        · exact .inr (Option.some.inj hv).symm
        · cases hv
    refine ⟨⟨?_, rfl, by simp, .inl ⟨rfl, rfl⟩, .inl rfl, rfl⟩, rfl, hversion, rfl⟩
    rw [write_f_header]
    have hend := @write_end [] [] (header_bytes { h with
      magic := DATA_MGR_MAGIC, version := v, first_msg_offset := 0, end_time := 0, begin_time :=
        0 }) (Nat.zero_le _)
    exact hend.trans (by simp)

/-- Every run whose steps meet their condition goes through and keeps all messages in order. -/
theorem log_run_kept {h h₀ : FileHeader} {version : Int} {f : File} (hinit : init_file h version = some (f, h₀))
    {msgs : List Message} (hadm : Run.Admissible step Clear ⟨f, h₀, [], []⟩ msgs) :
    ∃ s, Run.exec step ⟨f, h₀, [], []⟩ msgs = some s ∧ h₀.size_limit = h.size_limit ∧ Kept h₀ msgs s := by
  obtain ⟨hring, hm, hv, hlimit⟩ := init_ring hinit
  obtain ⟨s, hs, newer, older, hr⟩ := Run.exec_inv (fun s => ∃ newer older, Ring h₀ s newer older)
    (fun s msg ⟨_, _, hr⟩ hc => by
      obtain ⟨s', newer', older', hstep, hr'⟩ := hr.step hc
      exact ⟨s', hstep, newer', older', hr'⟩) msgs _ ⟨[], [], hring⟩ hadm
  have hkept := hr.kept hm hv
  rw [exec_added hs] at hkept
  exact ⟨s, hs, hlimit, hkept⟩

/-! ## Small logs -/

def smallHeader : FileHeader where
  magic := DATA_MGR_MAGIC
  version := DATA_MGR_V3
  size_limit := 116
  end_time := 0
  first_msg_offset := 0
  interval_length := 60
  msgid_utilization := 1
  msgid_ioerr := 2
  msgid_blkiomon := 3
  msgid_zfcpdd := 4
  begin_time := 0

def numbered (len : Nat) (i : UInt8) : Message := ⟨1, List.replicate (len - 1) 0 ++ [i]⟩

def smallStart : LogState := ⟨write_f_header smallHeader ⟨[], 0⟩, smallHeader, [], []⟩

def sixMessages : List Message := (List.range 6).map fun i => numbered 8 (.ofNat (i + 1))

/-- The last two messages are written over the first two. -/
theorem log_run_kept_six : ∃ s, Run.exec step smallStart sixMessages = some s ∧
    s.deleted = [numbered 8 1, numbered 8 2] ∧ Kept smallHeader sixMessages s := by
  obtain ⟨s, hs, -, hkept⟩ := @log_run_kept smallHeader smallHeader 3 _ rfl sixMessages (by decide +kernel)
  have hdeleted : (Run.exec step smallStart sixMessages).map LogState.deleted =
      some [numbered 8 1, numbered 8 2] := by decide +kernel
  have hrun : Run.exec step smallStart sixMessages = some s := hs
  rw [hrun] at hdeleted
  exact ⟨s, hrun, Option.some.inj hdeleted, hkept⟩

def sevenMessages : List Message := sixMessages ++ [numbered 40 7]

def outcome (s : LogState) : List Message × Option (List Message) :=
  (s.deleted, logged (s.file.content.length + 1) s.file.content)

/-- The fourth message is left behind the wrap and delivered after the sixth was handed back. -/
theorem message_left_behind : ∃ s, Run.exec step smallStart sevenMessages = some s ∧
    ¬Kept smallHeader sevenMessages s := by
  have hrun : (Run.exec step smallStart sevenMessages).map outcome =
      some ([numbered 8 1, numbered 8 2, numbered 8 3, numbered 8 5, numbered 8 6],
        some [numbered 8 4, numbered 40 7]) := by decide +kernel
  obtain ⟨s, hs, hout⟩ := Option.map_eq_some_iff.mp hrun
  refine ⟨s, hs, fun hkept => ?_⟩
  obtain ⟨rest, hlogged, horder⟩ := hkept.order
  obtain ⟨hdel, hlog⟩ := Prod.mk.inj hout
  rw [hlogged _ (Nat.lt_succ_self _)] at hlog
  rw [hdel, Option.some.inj hlog] at horder
  exact absurd horder (by decide)

end Ziomon
