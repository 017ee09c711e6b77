import S390Tools.Ziomon.Entries

/-!
# Adding messages to the log

The entries behind the write position are the oldest ones. A new message is
written over the first of them, or over the first entries of the file when it
does not fit any more. Every message that is overwritten is handed back.
-/

namespace Ziomon

open Stdio Word

/-! ## The entries that are overwritten -/

/-- The bytes left over of the entries that `need` bytes are written over, and the sizes of the
entries behind them. -/
def room : Nat → List Nat → Nat × List Nat
  | 0, sizes => (0, sizes)
  | _, [] => (0, [])
  | need, size :: sizes => if size ≤ need then room (need - size) sizes else (size - need, sizes)

def settle : Nat × List Nat → Option (Nat × List Nat)
  | (left, sizes) =>
    if 0 < left ∧ left < 8 then
      match sizes with
      | [] => none
      | size :: sizes => some (left + size, sizes)
    else some (left, sizes)

section
variable {h : FileHeader}

theorem get_next_msg_size_eq {pre post : Bytes} {e : Message} (he : Sound e) :
    get_next_msg_size (between pre (message_bytes e ++ post)) =
      (some (entry_size e : Int), between pre (message_bytes e ++ post)) := by
  have hfits := he.fits
  rw [entry_size] at hfits
  have hback := seekBy_back (p := pre) (q := be 4 e.type.toNat ++ e.data ++ post) (be 4 e.data.length)
  rw [length_be, show ((4 : Nat) : Int) = 4 from rfl] at hback
  rw [get_next_msg_size, message_bytes, List.append_assoc, List.append_assoc, read_be 4 _ (by decide)]
  simp only [unbe_length he]
  rw [i32_of_lt (by omega), ← List.append_assoc (be 4 e.type.toNat), hback, entry_size]
  rw [show (e.data.length : Int) + 8 = ((8 + e.data.length : Nat) : Int) by omega, i32_of_lt hfits]

theorem get_next_msg_size_end {pre : Bytes} : get_next_msg_size (between pre []) = (none, between pre []) := by
  rw [get_next_msg_size, read_end (by decide), List.append_nil]

theorem aggregate_message_eq {pre post : Bytes} {e : Message} (he : Sound e) :
    aggregate_message h (between pre (message_bytes e ++ post)) =
      some ((live [e]).map (as_read h.version h.msgid_blkiomon)) := by
  rw [aggregate_message, read_message_eq _ _ he, taken]
  by_cases ht : e.type = ZIOMON_DACC_GARBAGE_MSG
  · rw [if_pos ht, live_cons_garbage ht]
    rfl
  · rw [if_neg ht, live_cons ht]
    rfl

/-- The messages collected for `total` bytes are those of the first entries. -/
theorem make_room_eq {total : Nat} : ∀ {es : List Message} {steps cum : Nat} {pre : Bytes} {del : List Message},
    (∀ e ∈ es, Sound e) → cum ≤ total → es.length < steps →
    ∃ ds rest left, es = ds ++ rest ∧ room (total - cum) (es.map entry_size) = (left, rest.map entry_size) ∧
      make_room h total steps cum (between pre (entries_bytes es)) del =
        some (((total + left : Nat) : Int), between (pre ++ entries_bytes ds) (entries_bytes rest),
          del ++ (live ds).map (as_read h.version h.msgid_blkiomon)) ∧
      (cum + (entries_bytes ds).length = total + left ∨
        rest = [] ∧ left = 0 ∧ cum + (entries_bytes ds).length < total)
  | _, 0, _, _, _, _, _, hsteps => absurd hsteps (Nat.not_lt_zero _)
  | es, steps + 1, cum, pre, del, hs, hcum, hsteps => by
    rw [make_room]
    by_cases hfull : cum = total
    · refine ⟨[], es, 0, rfl, ?_, ?_, .inl (by simpa using hfull)⟩
      · rw [hfull, Nat.sub_self, room]
      · rw [hfull, if_neg (Int.lt_irrefl _)]
        simp
    · have hlt : cum < total := Nat.lt_of_le_of_ne hcum hfull
      rw [if_pos (Int.ofNat_lt.mpr hlt)]
      cases es with
      | nil =>
        refine ⟨[], [], 0, rfl, ?_, ?_, .inr ⟨rfl, rfl, by simpa using hlt⟩⟩
        · obtain ⟨n, hn⟩ : ∃ n, total - cum = n + 1 := ⟨total - cum - 1, by omega⟩
          rw [hn]
          rfl
        · rw [entries_bytes_nil, get_next_msg_size_end]
          simp
      | cons e es =>
        have he := hs e List.mem_cons_self
        rw [entries_bytes_cons, get_next_msg_size_eq he]
        simp only [aggregate_message_eq he]
        have hskip := seekBy_between (p := pre) (q := entries_bytes es) (message_bytes e)
        rw [length_message_bytes] at hskip
        rw [hskip, ← Nat.cast_add]
        have hroom : room (total - cum) ((e :: es).map entry_size) =
            if entry_size e ≤ total - cum then room (total - cum - entry_size e) (es.map entry_size)
            else (entry_size e - (total - cum), es.map entry_size) := by
          obtain ⟨n, hn⟩ : ∃ n, total - cum = n + 1 := ⟨total - cum - 1, by omega⟩
          rw [hn]
          rfl
        by_cases hsize : entry_size e ≤ total - cum
        · obtain ⟨ds, rest, left, rfl, hrest, hmake, hsum⟩ := @make_room_eq total es steps
            (cum + entry_size e) (pre ++ message_bytes e)
              (del ++ (live [e]).map (as_read h.version h.msgid_blkiomon))
            (fun x hx => hs x (List.mem_cons_of_mem e hx)) (by omega)
            (Nat.lt_of_succ_lt_succ hsteps)
          refine ⟨e :: ds, rest, left, rfl, ?_, ?_, ?_⟩
          · rw [hroom, if_pos hsize, Nat.sub_sub, hrest]
          · rw [hmake, entries_bytes_cons, List.append_assoc, List.append_assoc, ← List.map_append, ← live_append]
            rfl
          · rw [entries_bytes_cons, List.length_append, length_message_bytes, ← Nat.add_assoc]
            exact hsum
        · refine ⟨[e], es, entry_size e - (total - cum), rfl, ?_, ?_, .inl ?_⟩
          · rw [hroom, if_neg hsize]
          · obtain ⟨k, rfl⟩ : ∃ k, steps = k + 1 := ⟨steps - 1, by
              have : (e :: es).length = es.length + 1 := rfl
              omega⟩
            have hge : ¬((cum + entry_size e : Nat) : Int) < total := by omega
            rw [make_room, if_neg hge, show cum + entry_size e = total + (entry_size e - (total - cum)) by omega]
            simp
          · rw [entries_bytes_cons, entries_bytes_nil, List.append_nil, length_message_bytes]
            omega

theorem overwrite_eq {total : Nat} {es : List Message} {pre : Bytes} {del : List Message} (hs : ∀ e ∈ es, Sound e)
    {left : Nat} {sizes : List Nat} (hroom : settle (room total (es.map entry_size)) = some (left, sizes))
    (hleft : left < 2147483648) :
    ∃ ds rest, es = ds ++ rest ∧ overwrite h total (between pre (entries_bytes es)) del =
        some ((left : Int), between pre (entries_bytes es),
          del ++ (live ds).map (as_read h.version h.msgid_blkiomon)) ∧
      (left = 0 ∨ 8 ≤ left) ∧
      ((entries_bytes ds).length = total + left ∨ rest = [] ∧ left = 0 ∧ (entries_bytes ds).length < total) := by
  have hsteps : es.length < (between pre (entries_bytes es)).content.length + 1 := by
    have := length_le_entries_bytes es
    rw [between_content, List.length_append]
    omega
  obtain ⟨ds, rest, l, rfl, hr, hmake, hsum⟩ := @make_room_eq h total es _ 0 pre del hs
    (Nat.zero_le total) hsteps
  rw [Nat.sub_zero] at hr
  rw [Nat.zero_add] at hsum
  rw [Nat.cast_zero] at hmake
  rw [hr] at hroom
  simp only [settle] at hroom
  rw [overwrite, hmake]
  simp only [garbage_size]
  by_cases hfew : 0 < l ∧ l < 8
  · rw [if_pos hfew] at hroom
    rw [if_pos (by omega)]
    cases rest with
    | nil => cases hroom
    | cons e rest =>
      simp only [List.map_cons, Option.some.injEq, Prod.mk.injEq] at hroom
      obtain ⟨rfl, -⟩ := hroom
      have he := hs e (List.mem_append_right ds List.mem_cons_self)
      have hsize : 8 ≤ entry_size e := by
        rw [entry_size]
        omega
      refine ⟨ds ++ [e], rest, by simp, ?_, .inr (by omega), .inl ?_⟩
      · rw [entries_bytes_cons, get_next_msg_size_eq he]
        simp only [aggregate_message_eq he]
        rw [show ((total + l : Nat) : Int) + (entry_size e : Int) - total =
          ((l + entry_size e : Nat) : Int) by omega,
          i32_of_lt hleft, live_append, List.map_append, List.append_assoc]
      · rw [entries_bytes_append, List.length_append, entries_bytes_cons, entries_bytes_nil, List.append_nil,
          length_message_bytes]
        omega
  · rw [if_neg hfew] at hroom
    simp only [Option.some.injEq, Prod.mk.injEq] at hroom
    obtain ⟨rfl, -⟩ := hroom
    rw [if_neg (by omega)]
    refine ⟨ds, rest, rfl, ?_, by omega, hsum⟩
    rw [show ((total + l : Nat) : Int) - total = (l : Int) by omega]
    simp only [i32_of_lt hleft]

/-! ## Writing the message -/

theorem garbage_header {body : Bytes} (h : 8 + body.length < 2147483648) :
    be 4 (u32 (((8 + body.length : Nat) : Int) - 8)) ++ be 4 ZIOMON_DACC_GARBAGE_MSG.toNat ++ body =
      message_bytes ⟨ZIOMON_DACC_GARBAGE_MSG, body⟩ := by
  rw [message_bytes, show ((8 + body.length : Nat) : Int) - 8 = (body.length : Int) by omega,
    u32_of_lt (Int.natCast_nonneg _) (by omega), Int.toNat_natCast]

theorem write_garbage_eq {pre post old body : Bytes} (hold : old.length = 8) (h : 8 + body.length < 2147483648) :
    ∃ f, write_garbage_message ((8 + body.length : Nat) : Int) (between pre (old ++ (body ++ post))) = f ∧
      f.content = pre ++ (message_bytes ⟨ZIOMON_DACC_GARBAGE_MSG, body⟩ ++ post) := by
  refine ⟨_, rfl, ?_⟩
  rw [write_garbage_message, write_between (by simp [hold]), between_content, ← garbage_header h]
  simp

theorem write_over {pre : Bytes} {ds rest : List Message} {msg : Message} {left : Nat} (hne : msg.data ≠ [])
    (hleft : left < 2147483648) (hleft' : left = 0 ∨ 8 ≤ left)
    (hsum : (entries_bytes ds).length = entry_size msg + left ∨
      rest = [] ∧ left = 0 ∧ (entries_bytes ds).length < entry_size msg) :
    ∃ gs f, (∀ g ∈ gs, Sound g ∧ g.type = ZIOMON_DACC_GARBAGE_MSG) ∧
      write_message msg (between pre (entries_bytes (ds ++ rest))) = some f ∧
        f.pos = (pre ++ message_bytes msg).length ∧
      (if (left : Int) > 0 then (write_garbage_message left f).seek f.pos else f) =
        between (pre ++ message_bytes msg) (entries_bytes (gs ++ rest)) ∧
      (entries_bytes gs).length = left := by
  rw [write_message, if_neg hne, entries_bytes_append]
  rcases hsum with hsum | ⟨rfl, rfl, hsum⟩
  · obtain ⟨old, hold⟩ : ∃ old, old = (entries_bytes ds).take (entry_size msg) := ⟨_, rfl⟩
    obtain ⟨lo, hlo⟩ : ∃ lo, lo = (entries_bytes ds).drop (entry_size msg) := ⟨_, rfl⟩
    have hds : entries_bytes ds = old ++ lo := by rw [hold, hlo, List.take_append_drop]
    have holdlen : old.length = (message_bytes msg).length := by
      rw [hold, List.length_take, length_message_bytes]
      omega
    have hlolen : lo.length = left := by
      rw [hlo, List.length_drop]
      omega
    rw [hds, List.append_assoc, write_between holdlen]
    rcases hleft' with rfl | h8
    · obtain rfl := List.length_eq_zero_iff.mp hlolen
      exact ⟨[], _, fun _ h => absurd h List.not_mem_nil, rfl, rfl, rfl, rfl⟩
    · obtain ⟨body, hbody⟩ : ∃ body, body = lo.drop 8 := ⟨_, rfl⟩
      have hsplit : lo = lo.take 8 ++ body := by rw [hbody, List.take_append_drop]
      have hbodylen : left = 8 + body.length := by
        rw [hbody, List.length_drop]
        omega
      have h8len : (lo.take 8).length = 8 := by
        rw [List.length_take]
        omega
      subst hbodylen
      obtain ⟨f, hf, hcontent⟩ := @write_garbage_eq (pre ++ message_bytes msg) (entries_bytes rest)
        (lo.take 8) body h8len
        hleft
      refine ⟨[⟨ZIOMON_DACC_GARBAGE_MSG, body⟩], _, fun g hg => ?_, rfl, rfl, ?_, ?_⟩
      · rw [List.mem_singleton.mp hg]
        exact ⟨⟨hleft, fun h => absurd rfl h⟩, rfl⟩
      · rw [if_pos (by omega), hsplit, List.append_assoc, hf]
        exact seek_between _ _ _ hcontent
      · rw [entries_bytes_cons, entries_bytes_nil, List.append_nil, length_message_bytes]
        rfl
  · have hend := write_end (p := pre) (q := entries_bytes ds) (d := message_bytes msg)
      (by rw [length_message_bytes]; omega)
    rw [entries_bytes_nil, List.append_nil, hend]
    exact ⟨[], _, fun _ h => absurd h List.not_mem_nil, rfl, rfl, rfl, rfl⟩

theorem length_header_bytes (h : FileHeader) : (header_bytes h).length = HEADER_LEN := by
  simp [header_bytes, header_fields, HEADER_LEN]

theorem write_header_eq {h h' : FileHeader} {rest : Bytes} {f : File} (hf : f.content = header_bytes h ++ rest) :
    (write_f_header h' f).content = header_bytes h' ++ rest := by
  have hzero : f.seek 0 = between [] (header_bytes h ++ rest) := by
    rw [File.seek, hf]
    rfl
  rw [write_f_header, hzero, write_between (by rw [length_header_bytes, length_header_bytes])]
  rfl

end

end Ziomon
