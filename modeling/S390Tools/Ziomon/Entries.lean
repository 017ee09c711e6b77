import S390Tools.Ziomon.Dacc

/-!
# Reading the entries of a log file

The bytes of a list of entries are read back entry by entry. A reader that is
opened on a log delivers the messages in front of it in their order, and goes on
at the first entry when it reaches the end of a wrapped file.
-/

namespace Ziomon

open Stdio Word

def live (es : List Message) : List Message := es.filter (·.type ≠ ZIOMON_DACC_GARBAGE_MSG)

def entries_bytes (es : List Message) : Bytes := es.flatMap message_bytes

def entry_size (e : Message) : Nat := 8 + e.data.length

structure Sound (e : Message) : Prop where
  fits : entry_size e < 2147483648
  timed : e.type ≠ ZIOMON_DACC_GARBAGE_MSG → 8 ≤ e.data.length

@[simp] theorem live_nil : live [] = [] := rfl

@[simp] theorem live_append (es es' : List Message) : live (es ++ es') = live es ++ live es' :=
    List.filter_append ..

theorem live_cons_garbage {e : Message} (h : e.type = ZIOMON_DACC_GARBAGE_MSG) (es : List Message) :
    live (e :: es) = live es :=
  List.filter_cons_of_neg (by simp [h])

theorem live_cons {e : Message} (h : e.type ≠ ZIOMON_DACC_GARBAGE_MSG) (es : List Message) :
    live (e :: es) = e :: live es :=
  List.filter_cons_of_pos (by simp [h])

@[simp] theorem length_message_bytes (e : Message) : (message_bytes e).length = entry_size e := by
  simp only [message_bytes, entry_size, List.length_append, length_be]

@[simp] theorem entries_bytes_nil : entries_bytes [] = [] := rfl

@[simp] theorem entries_bytes_cons (e : Message) (es : List Message) :
    entries_bytes (e :: es) = message_bytes e ++ entries_bytes es := rfl

@[simp] theorem entries_bytes_append (es es' : List Message) :
    entries_bytes (es ++ es') = entries_bytes es ++ entries_bytes es' := List.flatMap_append ..

theorem length_le_entries_bytes : ∀ es : List Message, es.length ≤ (entries_bytes es).length
  | [] => Nat.le_refl 0
  | e :: es => by
    have ih := length_le_entries_bytes es
    rw [entries_bytes_cons, List.length_append, length_message_bytes, List.length_cons, entry_size]
    omega

theorem unbe_be_32 (x : UInt32) : UInt32.ofNat (unbe (be 4 x.toNat)) = x := by
  rw [unbe_be, Nat.mod_eq_of_lt (lt_of_lt_of_eq x.toNat_lt (by norm_num)), UInt32.ofNat_toNat]

theorem unbe_be_64 (x : UInt64) : UInt64.ofNat (unbe (be 8 x.toNat)) = x := by
  rw [unbe_be, Nat.mod_eq_of_lt (lt_of_lt_of_eq x.toNat_lt (by norm_num)), UInt64.ofNat_toNat]

theorem unbe_length {e : Message} (h : Sound e) : unbe (be 4 e.data.length) = e.data.length := by
  have hfits := h.fits
  rw [entry_size] at hfits
  rw [unbe_be, Nat.mod_eq_of_lt (by omega)]

/-! ## One entry -/

section
variable {pre post : Bytes} {e : Message}

theorem read_be (n v : Nat) (hn : 0 < n) :
    (between pre (be n v ++ post)).read n = (some (be n v), between (pre ++ be n v) post) := by
  have hne : be n v ≠ [] := List.ne_nil_of_length_pos (by rwa [length_be])
  have hread := read_between (p := pre) (q := post) hne
  rwa [length_be] at hread

theorem read_message_header_eq (h : Sound e) : read_message_header (between pre (message_bytes e ++ post)) =
    (.ok (e.data.length, e.type), between (pre ++ (be 4 e.data.length ++ be 4 e.type.toNat)) (e.data ++ post)) := by
  rw [message_bytes, List.append_assoc, List.append_assoc, read_message_header, read_be 4 _ (by decide)]
  simp only
  rw [read_be 4 _ (by decide)]
  simp only [unbe_length h, unbe_be_32, List.append_assoc]

theorem read_message_header_end : read_message_header (between pre []) = (.eof, between pre []) := by
  rw [read_message_header, read_end (by decide), List.append_nil]

def taken (ver msgid_blkiomon : UInt32) (e : Message) : Option Message :=
  if e.type = ZIOMON_DACC_GARBAGE_MSG then none else some (as_read ver msgid_blkiomon e)

theorem read_message_eq (ver msgid_blkiomon : UInt32) (h : Sound e) :
    read_message ver msgid_blkiomon (between pre (message_bytes e ++ post)) =
      (.ok (taken ver msgid_blkiomon e), between (pre ++ message_bytes e) post) := by
  rw [read_message, read_message_header_eq h]
  simp only
  by_cases ht : e.type = ZIOMON_DACC_GARBAGE_MSG
  · rw [if_pos ht, seekBy_between, taken, if_pos ht, List.append_assoc]
    rfl
  · have hne : e.data ≠ [] := List.ne_nil_of_length_pos (by have := h.timed ht; omega)
    rw [if_neg ht, read_between hne, taken, if_neg ht, List.append_assoc]
    rfl

def preview (f_hdr : FileHeader) (pos : Nat) (e : Message) : Option MessagePreview :=
  if e.type = ZIOMON_DACC_GARBAGE_MSG then none
  else some {
    length := UInt32.ofNat e.data.length
    type := e.type
    timestamp := UInt64.ofNat (unbe (e.data.take 8))
    is_blkiomon_v2 := f_hdr.version = DATA_MGR_V2 ∧ e.type = f_hdr.msgid_blkiomon
    pos := pos }

theorem read_message_preview_eq (f_hdr : FileHeader) (h : Sound e) :
    read_message_preview f_hdr (between pre (message_bytes e ++ post)) =
      (.ok (preview f_hdr pre.length e), between (pre ++ message_bytes e) post) := by
  rw [read_message_preview, read_message_header_eq h]
  simp only
  by_cases ht : e.type = ZIOMON_DACC_GARBAGE_MSG
  · rw [if_pos ht, seekBy_between, preview, if_pos ht, List.append_assoc]
    rfl
  · have h8 := h.timed ht
    have hlen : (e.data.take 8).length = 8 := by rw [List.length_take, Nat.min_eq_left h8]
    have hne : e.data.take 8 ≠ [] := List.ne_nil_of_length_pos (by omega)
    have hread := read_between (p := pre ++ (be 4 e.data.length ++ be 4 e.type.toNat))
      (q := e.data.drop 8 ++ post) hne
    have hsplit : e.data.take 8 ++ (e.data.drop 8 ++ post) = e.data ++ post := by
      rw [← List.append_assoc, List.take_append_drop]
    rw [hlen, hsplit] at hread
    have hskip := seekBy_between (p := pre ++ (be 4 e.data.length ++ be 4 e.type.toNat) ++ e.data.take 8)
      (q := post) (e.data.drop 8)
    rw [List.length_drop, Int.ofNat_sub h8] at hskip
    rw [if_neg ht, hread, preview, if_neg ht]
    simp only [between_pos]
    rw [show ((8 : Nat) : Int) = 8 from rfl] at hskip
    rw [hskip, List.append_assoc _ (e.data.take 8), List.take_append_drop, List.append_assoc]
    rfl

end

/-! ## The entries in front of a reader -/

/-- The entries in front of a reader of the file `content`: up to the end of a file that was never wrapped, up
to the first message in the part that comes last, or up to the end and then from the first entry on. -/
inductive Ahead (content : Bytes) : Nat → Reader → List Message → Prop
  | linear {pre : Bytes} {es : List Message} : content = pre ++ entries_bytes es →
      Ahead content 0 ⟨between pre (entries_bytes es), true⟩ es
  | late {pre post : Bytes} {es : List Message} : content = pre ++ (entries_bytes es ++ post) →
      0 < pre.length → Ahead content (pre ++
        entries_bytes es).length ⟨between pre (entries_bytes es ++ post), true⟩ es
  | early {first pre post : Bytes} {es : List Message} {e : Message} {es' : List Message} :
      content = pre ++ entries_bytes es → content = first ++ (entries_bytes (e :: es') ++ post) →
      first.length = HEADER_LEN →
      Ahead content (first ++ entries_bytes (e :: es')).length ⟨between pre (entries_bytes es),
        false⟩ (es ++ e :: es')

section
variable {α : Type} {read : File → Rc (Option α) × File} {what : Nat → Message → Option α} {f_hdr : FileHeader}
  {content : Bytes}

/-- What the entry by entry reading of the file relies on. -/
structure ReadsEntries (read : File → Rc (Option α) × File) (what : Nat → Message → Option α) : Prop where
  entry : ∀ {pre post : Bytes} {e : Message}, Sound e →
    read (between pre (message_bytes e ++ post)) = (.ok (what pre.length e), between (pre ++ message_bytes e) post)
  atEnd : ∀ {pre : Bytes}, read (between pre []) = (.eof, between pre [])

theorem reads_message (ver msgid_blkiomon : UInt32) :
    ReadsEntries (read_message ver msgid_blkiomon) fun _ => taken ver msgid_blkiomon where
  entry := read_message_eq ver msgid_blkiomon
  atEnd := by
    intro pre
    unfold read_message
    rw [read_message_header_end]

theorem reads_message_preview (f_hdr : FileHeader) : ReadsEntries (read_message_preview f_hdr) (preview f_hdr) where
  entry := read_message_preview_eq f_hdr
  atEnd := by
    intro pre
    unfold read_message_preview
    rw [read_message_header_end]

theorem Ahead.content_eq {offset : Nat} {r : Reader} {es : List Message} (h : Ahead content offset r es) :
    r.file.content = content := by
  cases h with
  | linear hc => exact hc.symm
  | late hc _ => exact hc.symm
  | early hc _ _ => exact hc.symm

def EntryAt (content : Bytes) (p : Nat) (e : Message) : Prop :=
  ∃ pre post, content = pre ++ (message_bytes e ++ post) ∧ pre.length = p

theorem Ahead.next {r : Reader} {e : Message} {es : List Message} (hread : ReadsEntries read what) (he : Sound e)
    (h : Ahead content f_hdr.first_msg_offset.toNat r (e :: es)) :
    ∃ p r', Ahead content f_hdr.first_msg_offset.toNat r' es ∧
      (EntryAt content p e ∧ Ahead content f_hdr.first_msg_offset.toNat { r' with
        file := r'.file.seek p } (e :: es)) ∧
      ∀ steps, next_entry read f_hdr (steps + 1) r =
        match what p e with
        | some x => (.ok x, r')
        | none => next_entry read f_hdr steps r' := by
  generalize hes : e :: es = es₀ at h
  generalize hoff : f_hdr.first_msg_offset.toNat = offset at h
  cases h with
  | @linear pre es₀ hc =>
    subst hes
    refine ⟨pre.length, ⟨between (pre ++ message_bytes e) (entries_bytes es), true⟩, ?_, ?_, fun steps => ?_⟩
    · exact .linear (by rw [hc, entries_bytes_cons, List.append_assoc])
    · have hseek := seek_between pre (entries_bytes (e :: es)) (between (pre ++ message_bytes e) (entries_bytes es))
        (by simp)
      simp only [hseek]
      exact ⟨⟨pre, entries_bytes es, hc, rfl⟩, .linear hc⟩
    · have hzero : f_hdr.first_msg_offset = 0 := UInt64.toNat_inj.mp hoff
      rw [next_entry, if_neg (fun h => h.1 hzero), entries_bytes_cons, hread.entry he]
      cases what pre.length e <;> rfl
  | @late pre post es₀ hc hpos =>
    subst hes
    refine ⟨pre.length, ⟨between (pre ++ message_bytes e) (entries_bytes es ++ post), true⟩, ?_,
      ?_, fun steps => ?_⟩
    · have hlate := @Ahead.late content (pre ++ message_bytes e) post es (by simpa using hc) (by simp; omega)
      rwa [List.append_assoc] at hlate
    · have hseek := seek_between pre (entries_bytes (e :: es) ++ post)
        (between (pre ++ message_bytes e) (entries_bytes es ++ post)) (by simp)
      simp only [hseek]
      exact ⟨⟨pre, entries_bytes es ++ post, by simpa using hc, rfl⟩, .late hc hpos⟩
    · rw [next_entry, if_neg, entries_bytes_cons, List.append_assoc, hread.entry he]
      · cases what pre.length e <;> rfl
      · rw [hoff]
        intro h
        have hge := h.2.2
        simp only [between_pos, List.length_append, entries_bytes_cons, length_message_bytes, entry_size] at hge
        omega
  | @early first pre post es₁ e' es' hc hc' hfirst =>
    cases es₁ with
    | cons e₁ es₁ =>
      obtain ⟨rfl, rfl⟩ := List.cons.inj hes
      refine ⟨pre.length, ⟨between (pre ++ message_bytes e) (entries_bytes es₁), false⟩, ?_, ?_, fun steps => ?_⟩
      · exact .early (by rw [hc, entries_bytes_cons, List.append_assoc]) hc' hfirst
      · have hseek := seek_between pre (entries_bytes (e :: es₁))
          (between (pre ++ message_bytes e) (entries_bytes es₁))
          (by simp)
        simp only [hseek]
        exact ⟨⟨pre, entries_bytes es₁, hc, rfl⟩, .early hc hc' hfirst⟩
      · rw [next_entry, if_neg (fun h => Bool.noConfusion h.2.1), entries_bytes_cons, hread.entry he]
        cases what pre.length e <;> rfl
    | nil =>
      obtain ⟨rfl, rfl⟩ := List.cons.inj hes
      refine ⟨first.length, ⟨between (first ++ message_bytes e) (entries_bytes es ++ post), true⟩,
        ?_, ?_, fun steps => ?_⟩
      · have hlate := @Ahead.late content (first ++ message_bytes e) post es (by simpa using hc')
          (by simp [hfirst, HEADER_LEN])
        rwa [List.append_assoc] at hlate
      · have hseek := seek_between first (entries_bytes (e :: es) ++ post)
          (between (first ++ message_bytes e) (entries_bytes es ++ post)) (by simp)
        simp only [hseek]
        exact ⟨⟨first, entries_bytes es ++ post, by simpa using hc', rfl⟩, .late hc' (by rw [hfirst]; decide)⟩
      · have hseek := seek_between first (message_bytes e ++ (entries_bytes es ++ post)) (between pre []) (by
          rw [between_content, ← entries_bytes_nil, ← hc, hc', entries_bytes_cons, List.append_assoc])
        rw [next_entry, if_neg (fun h => Bool.noConfusion h.2.1), entries_bytes_nil, hread.atEnd]
        simp only [position_at_first_msg, ← hfirst, hseek, hread.entry he]
        cases what first.length e <;> rfl

theorem Ahead.finished {r : Reader} (hread : ReadsEntries read what)
    (h : Ahead content f_hdr.first_msg_offset.toNat r []) (steps : Nat) :
    ∃ r', next_entry read f_hdr (steps + 1) r = (.eof, r') ∧ Ahead content f_hdr.first_msg_offset.toNat r' [] := by
  generalize hes : ([] : List Message) = es₀ at h
  generalize hoff : f_hdr.first_msg_offset.toNat = offset at h
  cases h with
  | @linear pre es₀ hc =>
    subst hes
    have hzero : f_hdr.first_msg_offset = 0 := UInt64.toNat_inj.mp hoff
    refine ⟨⟨between pre [], true⟩, ?_, ?_⟩
    · rw [next_entry, if_neg (fun h => h.1 hzero), entries_bytes_nil, hread.atEnd]
      rfl
    · exact .linear hc
  | @late pre post es₀ hc hpos =>
    subst hes
    refine ⟨⟨between pre post, true⟩, ?_⟩
    have hne : f_hdr.first_msg_offset ≠ 0 := fun h => by
      rw [h] at hoff
      simp only [entries_bytes_nil, List.append_nil] at hoff
      exact absurd hoff.symm (Nat.ne_of_gt hpos)
    refine ⟨?_, ?_⟩
    · rw [next_entry, if_pos ⟨hne, rfl, by simp [hoff]⟩]
      rfl
    · exact .late hc hpos
  | @early first pre post es₁ e' es' hc hc' hfirst => exact absurd hes (by simp)

def firstLive : List Message → Option (Message × List Message)
  | [] => none
  | e :: es => if e.type = ZIOMON_DACC_GARBAGE_MSG then firstLive es else some (e, es)

theorem live_firstLive : ∀ es : List Message, match firstLive es with
    | none => live es = []
    | some (m, rest) => live es = m :: live rest ∧ rest.length < es.length ∧ m.type ≠ ZIOMON_DACC_GARBAGE_MSG ∧
        (∀ e ∈ m :: rest, e ∈ es)
  | [] => rfl
  | e :: es => by
    have ih := live_firstLive es
    rw [firstLive]
    by_cases ht : e.type = ZIOMON_DACC_GARBAGE_MSG
    · rw [if_pos ht, live_cons_garbage ht]
      cases hf : firstLive es with
      | none => simpa only [hf] using ih
      | some p =>
        rw [hf] at ih
        exact ⟨ih.1, Nat.lt_succ_of_lt ih.2.1, ih.2.2.1, fun x hx => List.mem_cons_of_mem e (ih.2.2.2 x hx)⟩
    · rw [if_neg ht]
      exact ⟨live_cons ht es, Nat.lt_succ_self _, ht, fun _ hx => hx⟩

theorem Ahead.first_message (hread : ReadsEntries read what)
    (hwhat : ∀ p e, what p e = none ↔ e.type = ZIOMON_DACC_GARBAGE_MSG) :
    ∀ {es : List Message} {r : Reader} {steps : Nat}, Ahead content f_hdr.first_msg_offset.toNat r es →
      (∀ e ∈ es, Sound e) → es.length < steps →
      match firstLive es with
      | none => ∃ r', next_entry read f_hdr steps r = (.eof, r') ∧ Ahead content f_hdr.first_msg_offset.toNat r' []
      | some (m, rest) => ∃ p x r', what p m = some x ∧ next_entry read f_hdr steps r = (.ok x, r') ∧
          Ahead content f_hdr.first_msg_offset.toNat r' rest ∧
          EntryAt content p m ∧ Ahead content f_hdr.first_msg_offset.toNat { r' with
            file := r'.file.seek p } (m :: rest)
  | _, _, 0, _, _, hlen => absurd hlen (Nat.not_lt_zero _)
  | [], r, steps + 1, h, _, _ => h.finished hread steps
  | e :: es, r, steps + 1, h, hs, hlen => by
    obtain ⟨p, r', hahead, hback, heq⟩ := h.next hread (hs e List.mem_cons_self)
    rw [firstLive, heq]
    by_cases ht : e.type = ZIOMON_DACC_GARBAGE_MSG
    · rw [if_pos ht, (hwhat p e).mpr ht]
      exact Ahead.first_message hread hwhat hahead (fun x hx => hs x (List.mem_cons_of_mem e hx))
        (Nat.lt_of_succ_lt_succ hlen)
    · rw [if_neg ht]
      obtain ⟨x, hx⟩ := Option.ne_none_iff_exists'.mp fun hnone => ht ((hwhat p e).mp hnone)
      exact ⟨p, x, r', hx, by rw [hx], hahead, hback⟩

end

/-! ## Delivering the messages -/

section
variable {f_hdr : FileHeader} {content : Bytes}

theorem taken_eq_none (ver msgid_blkiomon : UInt32) (e : Message) :
    taken ver msgid_blkiomon e = none ↔ e.type = ZIOMON_DACC_GARBAGE_MSG := by
  rw [taken]
  split <;> simp [*]

theorem preview_eq_none (pos : Nat) (e : Message) : preview f_hdr pos e = none ↔
    e.type = ZIOMON_DACC_GARBAGE_MSG := by
  rw [preview]
  split <;> simp [*]

theorem deliver_eq {steps : Nat} : ∀ {n : Nat} {es : List Message} {r : Reader},
    Ahead content f_hdr.first_msg_offset.toNat r es → (∀ e ∈ es, Sound e) → es.length < steps → es.length < n →
    deliver f_hdr steps n r = some ((live es).map (as_read f_hdr.version f_hdr.msgid_blkiomon))
  | 0, _, _, _, _, _, hn => absurd hn (Nat.not_lt_zero _)
  | n + 1, es, r, h, hs, hsteps, hn => by
    have hnext := h.first_message (reads_message f_hdr.version f_hdr.msgid_blkiomon)
      (fun _ => taken_eq_none f_hdr.version f_hdr.msgid_blkiomon) hs hsteps
    have hlive := live_firstLive es
    rw [deliver, get_next_msg]
    cases hf : firstLive es with
    | none =>
      rw [hf] at hnext hlive
      obtain ⟨r', heq, -⟩ := hnext
      rw [heq, hlive]
      rfl
    | some p =>
      rw [hf] at hnext hlive
      obtain ⟨m, rest⟩ := p
      obtain ⟨p, x, r', hx, heq, hahead, -, -⟩ := hnext
      obtain ⟨hlive, hlen, ht, hmem⟩ := hlive
      have hrest := deliver_eq (n := n) hahead (fun e he => hs e (hmem e (List.mem_cons_of_mem m he)))
        (Nat.lt_trans hlen hsteps) (Nat.lt_of_lt_of_le hlen (Nat.le_of_lt_succ hn))
      rw [taken, if_neg ht] at hx
      cases hx
      rw [heq, hlive]
      simp only [hrest, Option.map_some, List.map_cons]

end

/-! ## Opening the log -/

theorem get_header_eq {h : FileHeader} (hm : h.magic = DATA_MGR_MAGIC)
    (hv : h.version = DATA_MGR_V2 ∨ h.version = DATA_MGR_V3)
    (rest : Bytes) : get_header ⟨header_bytes h ++ rest, 0⟩ =
      some ({ h with begin_time := 0 }, between (header_bytes h) rest) := by
  have hlen : (header_bytes h).length = HEADER_LEN := by simp [header_bytes, header_fields, HEADER_LEN]
  have hne : header_bytes h ≠ [] := List.ne_nil_of_length_pos (by rw [hlen]; decide)
  have hread := read_between (p := []) (q := rest) hne
  rw [hlen] at hread
  have hsplit := @Fields.split_flatten _ (header_fields h) []
  rw [List.append_nil, show (header_fields h).map List.length =
    header_widths by simp [header_fields, header_widths]] at hsplit
  rw [get_header, show (File.mk (header_bytes h ++ rest) 0).seek 0 =
    between [] (header_bytes h ++ rest) from rfl, hread]
  simp only
  rw [header_bytes, hsplit]
  simp only [header_fields, parse_header, unbe_be_32, unbe_be_64, hm]
  rw [if_neg (fun h => h rfl), if_neg (fun hn => hv.elim hn.1 hn.2)]
  rfl

end Ziomon
