import S390Tools.Dump2tar.Buffer

/-!
# A buffer is a byte string

`Holds` ties a buffer to the string that it stands for: the temporary file has the
front of it, the memory the rest.
-/

namespace Dump2tar

open Stdio Splice

/-! ## The invariant -/

/-- What the temporary file has in it, with the position at its end. -/
def Spilled (file : Option File) (f : List UInt8) : Prop := file = none ∧ f = [] ∨ file = some (between f [])

structure Holds (limit : Nat) (buffer : Buffer) (w : List UInt8) : Prop where
  content : ∃ f, Spilled buffer.file f ∧ w = f ++ buffer.addr.take buffer.off
  total : buffer.total = w.length
  off : buffer.off ≤ buffer.size
  addr : buffer.addr.length = buffer.size
  size : buffer.size ≤ limit
  fits : buffer.size ≤ PTRDIFF_MAX
  opened : buffer.file ≠ none → 0 < buffer.size

section
variable {junk : Nat → UInt8} {limit max_buffer_size : Nat} {buffer : Buffer} {w : List UInt8}

theorem open_spilled {f : List UInt8} (h : Spilled buffer.file f) : buffer_open buffer = between f [] := by
  rcases h with ⟨h, rfl⟩ | h
  · rw [buffer_open, h]
    rfl
  · rw [buffer_open, h]
    rfl

theorem length_mrealloc {addr new : List UInt8} {n : Nat} (h : mrealloc junk addr n = .ok new) :
    new.length = n ∧ n ≤ PTRDIFF_MAX ∧ (addr.length ≤ n → ∃ more, new = addr ++ more) := by
  rw [mrealloc] at h
  split at h
  · rename_i hn
    cases h
    refine ⟨?_, hn, fun hle => ⟨_, by rw [List.take_of_length_le hle]⟩⟩
    simp only [List.length_append, List.length_take, List.length_map, List.length_range]
    omega
  · cases h

theorem buffer_init_holds {size : Nat} (hb : buffer_init junk size = .ok buffer) (hlim : size ≤ limit) :
    Holds limit buffer [] := by
  rw [buffer_init] at hb
  cases hm : mrealloc junk [] size with
  | error e =>
    rw [hm] at hb
    cases hb
  | ok addr =>
    rw [hm] at hb
    cases hb
    obtain ⟨hlen, hn, -⟩ := length_mrealloc hm
    exact ⟨⟨[], .inl ⟨rfl, rfl⟩, rfl⟩, rfl, Nat.zero_le _, hlen, hlim, hn, fun h => absurd rfl h⟩

theorem buffer_reset_holds (h : Holds limit buffer w) : Holds limit (buffer_reset buffer) [] := by
  obtain ⟨f, hf, -⟩ := h.content
  refine ⟨⟨[], ?_, rfl⟩, rfl, Nat.zero_le _, h.addr, h.size, h.fits, fun hne => h.opened fun hnone => hne ?_⟩
  · rcases hf with ⟨hf, -⟩ | hf
    · exact .inl ⟨by rw [buffer_reset, hf]; rfl, rfl⟩
    · refine .inr ?_
      rw [buffer_reset, hf]
      exact congrArg some (truncate_seek (Nat.zero_le _))
  · rw [buffer_reset, hnone]
    rfl

/-! ## Room -/

@[simp] theorem flush_size (buffer : Buffer) : (buffer_flush buffer).size = buffer.size := by
  rw [buffer_flush]
  split <;> rfl

theorem flush_off (buffer : Buffer) : (buffer_flush buffer).off = 0 := by
  rw [buffer_flush]
  split
  · assumption
  · rfl

theorem buffer_flush_holds (h : Holds limit buffer w) : Holds limit (buffer_flush buffer) w := by
  rw [buffer_flush]
  split
  · exact h
  rename_i hoff
  obtain ⟨f, hf, hw⟩ := h.content
  have hpos : 0 < buffer.size := by have := h.off; omega
  refine ⟨⟨w, .inr ?_, by simp⟩, h.total, Nat.zero_le _, h.addr, h.size, h.fits, fun _ => hpos⟩
  rw [open_spilled hf, write_end (by simp), ← hw]

theorem enlarge_holds (junk : Nat → UInt8) (size : Nat) {n : Nat} (h : Holds limit buffer w)
    (hn : buffer.size < n) (hlim : n ≤ limit) :
    (enlarge junk buffer size n = .error .oom ∧ PTRDIFF_MAX < n) ∨
      ∃ b, enlarge junk buffer size n = .ok (ssize size, b) ∧ Holds limit b w ∧ b.off = buffer.off ∧
        b.size = n := by
  rw [enlarge]
  cases hm : mrealloc junk buffer.addr n with
  | error e =>
    rw [mrealloc] at hm
    split at hm
    · cases hm
    · cases hm
      exact .inl ⟨rfl, by omega⟩
  | ok addr =>
    obtain ⟨hlen, hfit, hmore⟩ := length_mrealloc hm
    obtain ⟨more, rfl⟩ := hmore (by rw [h.addr]; omega)
    obtain ⟨f, hf, hw⟩ := h.content
    have hoff := h.off
    refine .inr ⟨_, rfl, ⟨⟨f, hf, ?_⟩, h.total, Nat.le_of_lt (by dsimp only; omega), hlen, hlim,
      hfit, ?_⟩, rfl, rfl⟩
    · rw [hw]
      dsimp only
      rw [List.take_append_of_le_length (by rw [h.addr]; exact hoff)]
    · intro _
      dsimp only
      omega

theorem cap_size_true (size : Nat) : cap_size size true max_buffer_size = min size max_buffer_size := by
  rw [cap_size]
  by_cases h : max_buffer_size < size
  · rw [if_pos ⟨h, rfl⟩, Nat.min_eq_right (Nat.le_of_lt h)]
  · rw [if_neg fun hc => h hc.1, Nat.min_eq_left (Nat.le_of_not_lt h)]

/-- A request is cut to `max_buffer_size`; one that `ssize_t` cannot count gets a negative answer and no room. -/
theorem make_room_holds (junk : Nat → UInt8) {size : Nat} (h : Holds limit buffer w)
    (hmax : max_buffer_size ≤ limit)
    (hsize : min size max_buffer_size < 2 ^ 64) :
    (buffer_make_room junk buffer size true max_buffer_size = .error .oom ∧ PTRDIFF_MAX < max_buffer_size) ∨
      ∃ b, buffer_make_room junk buffer size true max_buffer_size = .ok (ssize (min size max_buffer_size), b) ∧
        Holds limit b w ∧ (min size max_buffer_size ≤ PTRDIFF_MAX → b.off + min size max_buffer_size ≤ b.size) := by
  have hle : min size max_buffer_size ≤ max_buffer_size := Nat.min_le_right ..
  have hfit := h.fits
  have hoff := h.off
  have hflush := buffer_flush_holds h
  have hzero := flush_off buffer
  unfold buffer_make_room
  simp only [cap_size_true]
  generalize min size max_buffer_size = s at *
  by_cases hroom : (buffer.off + s) % 2 ^ 64 ≤ buffer.size
  · rw [if_pos hroom]
    refine .inr ⟨buffer, rfl, h, fun hs => ?_⟩
    rw [PTRDIFF_MAX] at hs hfit
    omega
  rw [if_neg hroom]
  by_cases hbig : max_buffer_size < (buffer.off + s) % 2 ^ 64
  · rw [if_pos ⟨hbig, trivial⟩]
    by_cases hs : s ≤ (buffer_flush buffer).size
    · rw [if_pos hs]
      exact .inr ⟨_, rfl, hflush, fun _ => by omega⟩
    · rw [if_neg hs]
      rcases enlarge_holds junk s hflush (by omega) (hle.trans hmax) with ⟨he, hbig⟩ | ⟨b, he, hb, ho, hn⟩
      · exact .inl ⟨he, by omega⟩
      · exact .inr ⟨b, he, hb, fun _ => by omega⟩
  · rw [if_neg fun hc => hbig hc.1]
    rcases enlarge_holds junk s h (Nat.lt_of_not_le hroom) (by omega) with ⟨he, hbig⟩ | ⟨b, he, hb, ho, hn⟩
    · exact .inl ⟨he, by omega⟩
    · refine .inr ⟨b, he, hb, fun hs => ?_⟩
      rw [PTRDIFF_MAX] at hs hfit
      omega

/-! ## Storing bytes -/

theorem put_holds {d : List UInt8} (h : Holds limit buffer w) (hd : buffer.off + d.length ≤ buffer.size) :
    Holds limit (buffer.put d) (w ++ d) := by
  obtain ⟨f, hf, hw⟩ := h.content
  refine ⟨⟨f, hf, ?_⟩, ?_, hd, ?_, h.size, h.fits, h.opened⟩
  · have hoff : (buffer.addr.take buffer.off).length = buffer.off := by
      rw [List.length_take, h.addr, Nat.min_eq_left h.off]
    dsimp only [Buffer.put, splice]
    rw [List.take_append_of_le_length (by rw [List.length_append, hoff]), List.take_of_length_le (by
      rw [List.length_append, hoff]), hw, List.append_assoc]
  · rw [Buffer.put, List.length_append, ← h.total]
  · exact (length_splice (by rw [h.addr]; exact hd)).trans h.addr

theorem read_parts (n : Nat) (fd : Fd) :
    (∃ fd', fd.read n = (none, fd') ∧ fd'.data = fd.data ∧ none ∈ fd.answers ∧ fd'.answers ⊆ fd.answers) ∨
      ∃ d fd', fd.read n = (some d, fd') ∧ fd.data = d ++ fd'.data ∧ d.length ≤ n ∧ fd'.answers ⊆ fd.answers ∧
        (d = [] → n = 0 ∨ fd.data = []) := by
  obtain ⟨data, answers⟩ := fd
  match answers with
  | [] =>
    refine .inr ⟨data.take n, _, rfl, (List.take_append_drop ..).symm,
      List.length_take_le .., fun _ h => h, fun h => ?_⟩
    exact List.take_eq_nil_iff.mp h
  | none :: answers => exact .inl ⟨_, rfl, rfl, .head _, List.subset_cons_self ..⟩
  | some k :: answers =>
    refine .inr ⟨data.take (min n (k + 1)), _, rfl, (List.take_append_drop ..).symm, ?_,
      List.subset_cons_self .., fun h => ?_⟩
    · exact (List.length_take_le ..).trans (Nat.min_le_left ..)
    · rcases List.take_eq_nil_iff.mp h with h | h
      · left
        omega
      · exact .inr h

/-- `rc` counts the bytes that have moved from `fd` to the end of the string, or is negative for none. -/
structure Moved (limit max_buffer_size chunk : Nat) (w : List UInt8) (fd : Fd) (rc : Int) (fd' : Fd)
    (buffer : Buffer) :
    Prop where
  data : ∃ d, fd.data = d ++ fd'.data ∧ Holds limit buffer (w ++ d) ∧ rc.toNat = d.length ∧
    d.length ≤ min chunk max_buffer_size
  answers : fd'.answers ⊆ fd.answers
  zero : rc = 0 → min chunk max_buffer_size = 0 ∨ fd.data = []
  negative : rc < 0 → none ∈ fd.answers ∨ PTRDIFF_MAX < min chunk max_buffer_size

theorem ssize_neg {n : Nat} (h : ssize n < 0) : PTRDIFF_MAX < n := by
  rw [ssize] at h
  split at h <;> omega

theorem ssize_nonneg {n : Nat} (hn : n < 2 ^ 64) (h : ¬ ssize n < 0) : n ≤ PTRDIFF_MAX ∧ (ssize n).toNat = n := by
  rw [ssize] at h ⊢
  split at h
  · rename_i hle
    rw [if_pos hle]
    exact ⟨hle, Int.toNat_natCast n⟩
  · omega

theorem buffer_read_fd_holds (junk : Nat → UInt8) {chunk : Nat} (fd : Fd) (h : Holds limit buffer w)
    (hmax : max_buffer_size ≤ limit)
    (hchunk : min chunk max_buffer_size < 2 ^ 64) :
    (buffer_read_fd junk buffer fd chunk true max_buffer_size = .error .oom ∧ PTRDIFF_MAX < max_buffer_size) ∨
      ∃ rc fd' b, buffer_read_fd junk buffer fd chunk true max_buffer_size = .ok (rc, fd', b) ∧
        Moved limit max_buffer_size chunk w fd rc fd' b := by
  rw [buffer_read_fd]
  rcases make_room_holds junk h hmax hchunk with ⟨he, hbig⟩ | ⟨b, he, hb, hroom⟩
  · rw [he]
    exact .inl ⟨rfl, hbig⟩
  right
  rw [he]
  generalize hs : min chunk max_buffer_size = s at *
  show ∃ rc fd' b', (if ssize s < 0 then _ else _) = _ ∧ _
  by_cases hneg : ssize s < 0
  · rw [if_pos hneg]
    refine ⟨_, _, _, rfl, ⟨[], rfl, by rwa [List.append_nil], ?_, Nat.zero_le _⟩, fun _ h =>
      h, fun hz => ?_, fun _ => .inr ?_⟩
    · rw [Int.toNat_of_nonpos (Int.le_of_lt hneg)]
      rfl
    · omega
    · rw [hs]
      exact ssize_neg hneg
  rw [if_neg hneg]
  obtain ⟨hle, hval⟩ := ssize_nonneg hchunk hneg
  rw [hval]
  rcases read_parts s fd with ⟨fd', hread, hdata, hnone, hsub⟩ | ⟨d, fd', hread, hdata, hlen, hsub, hnil⟩
  · rw [hread]
    refine ⟨_, _, _, rfl, ⟨[], hdata.symm, by rwa [List.append_nil], rfl, Nat.zero_le _⟩,
      hsub, fun hz => ?_, fun _ => .inl hnone⟩
    cases hz
  · rw [hread]
    have hroom := hroom hle
    refine ⟨_, _, _, rfl, ⟨d, hdata, ?_, Int.toNat_natCast _, by rwa [hs]⟩, hsub, fun hz => ?_, fun hz => ?_⟩
    · split
      · exact put_holds hb (by omega)
      · have hd : d = [] := List.length_eq_zero_iff.mp (by omega)
        rwa [hd, List.append_nil]
    · rw [hs]
      exact hnil (List.length_eq_zero_iff.mp (by omega))
    · omega

theorem length_piece {addr : Option (List UInt8)} {c : Nat} (h : ∀ d ∈ addr, c ≤ d.length) :
    (piece addr c).length = c := by
  cases addr with
  | none => exact List.length_replicate
  | some d => exact (List.length_take ..).trans (Nat.min_eq_left (h d rfl))

theorem piece_add (addr : Option (List UInt8)) (c n : Nat) :
    piece addr (c + n) = piece addr c ++ piece (addr.map (·.drop c)) n := by
  cases addr with
  | none => exact List.replicate_add ..
  | some d => exact List.take_add

theorem buffer_add_loop_holds (junk : Nat → UInt8) (hmax : max_buffer_size ≤ limit) (hpos : 1 ≤ max_buffer_size) :
    ∀ {fuel len : Nat} {buffer : Buffer} {w : List UInt8} {addr : Option (List UInt8)},
      Holds limit buffer w → len ≤ fuel →
      len < 2 ^ 64 → (∀ d ∈ addr, d.length = len) →
      (buffer_add_loop junk true max_buffer_size fuel buffer addr len = .error .oom ∧
        PTRDIFF_MAX < max_buffer_size) ∨
        ∃ rc b, buffer_add_loop junk true max_buffer_size fuel buffer addr len = .ok (rc, b) ∧
          (rc = EXIT_OK ∧ Holds limit b (w ++ piece addr len) ∨
            rc = EXIT_RUNTIME ∧ PTRDIFF_MAX < min len max_buffer_size ∧ Holds limit b w)
  | fuel, 0, buffer, w, addr, h, _, _, _ => by
    have hnil : piece addr 0 = [] := by cases addr <;> rfl
    rw [buffer_add_loop, hnil, List.append_nil]
    exact .inr ⟨_, _, rfl, .inl ⟨rfl, h⟩⟩
  | fuel + 1, len + 1, buffer, w, addr, h, hfuel, hlen, haddr => by
    rw [buffer_add_loop]
    rcases make_room_holds junk h hmax (by omega : min (len + 1) max_buffer_size < 2 ^ 64) with
      ⟨he, hbig⟩ | ⟨b, he, hb, hroom⟩
    · rw [he]
      exact .inl ⟨rfl, hbig⟩
    rw [he]
    obtain ⟨c, hc⟩ : ∃ c, min (len + 1) max_buffer_size = c := ⟨_, rfl⟩
    obtain ⟨rest, hrest⟩ := Nat.exists_eq_add_of_le (show c ≤ len + 1 by omega)
    rw [hc] at hroom ⊢
    show (if ssize c < 0 then _ else _) = _ ∧ _ ∨ ∃ rc b', (if ssize c < 0 then _ else _) = _ ∧ _
    by_cases hneg : ssize c < 0
    · rw [if_pos hneg]
      exact .inr ⟨_, _, rfl, .inr ⟨rfl, ssize_neg hneg, hb⟩⟩
    obtain ⟨hle, hval⟩ := ssize_nonneg (by omega) hneg
    rw [if_neg hneg, hval, hrest, Nat.add_sub_cancel_left, piece_add, ← List.append_assoc]
    have hpiece : (piece addr c).length = c := length_piece fun d hd => by rw [haddr d hd]; omega
    have hput := put_holds hb (by rw [hpiece]; exact hroom hle)
    have hmore : ∀ d ∈ addr.map (·.drop c), d.length = rest := fun d hd => by
      obtain ⟨whole, hwhole, rfl⟩ := Option.mem_map.mp hd
      rw [List.length_drop, haddr whole hwhole]
      omega
    rcases buffer_add_loop_holds junk hmax hpos hput (by omega : rest ≤ fuel) (by omega) hmore with
      ⟨he, hbig⟩ | ⟨rc, b', he, ⟨hrc, hb'⟩ | ⟨-, hbig, -⟩⟩
    · exact .inl ⟨he, hbig⟩
    · exact .inr ⟨rc, b', he, .inl ⟨hrc, hb'⟩⟩
    · omega

theorem buffer_truncate_holds (len : Nat) (h : Holds limit buffer w) :
    Holds limit (buffer_truncate buffer len) (w.take len) := by
  obtain ⟨f, hf, hw⟩ := h.content
  have htotal := h.total
  have hoff := h.off
  have hmem : (buffer.addr.take buffer.off).length = buffer.off := by
    rw [List.length_take, h.addr, Nat.min_eq_left h.off]
  have hlen : w.length = f.length + buffer.off := by rw [hw, List.length_append, hmem]
  rw [buffer_truncate]
  by_cases hle : buffer.total ≤ len
  · rw [if_pos hle, List.take_of_length_le (by omega)]
    exact h
  rw [if_neg hle]
  have hshort : f.length ≤ len →
      Holds limit { buffer with total := len, off := buffer.off - (buffer.total - len) }
        (w.take len) := fun hf' => by
    refine ⟨⟨f, hf, ?_⟩, ?_, Nat.le_trans (Nat.sub_le ..) h.off, h.addr, h.size, h.fits, h.opened⟩
    · rw [hw, List.take_append, List.take_of_length_le hf', List.take_take]
      dsimp only
      congr 2
      omega
    · dsimp only
      rw [List.length_take]
      omega
  rcases hf with ⟨hnone, rfl⟩ | hsome
  · rw [hnone] at hshort ⊢
    exact hshort (Nat.zero_le _)
  rw [hsome] at hshort ⊢
  by_cases hall : buffer.off < buffer.total - len
  · dsimp only
    rw [if_pos hall]
    refine ⟨⟨f.take len, .inr (congrArg some (truncate_seek (by omega))), ?_⟩, ?_, Nat.zero_le _,
      h.addr, h.size, h.fits,
      fun _ => h.opened (by rw [hsome]; exact Option.some_ne_none _)⟩
    · rw [hw, List.take_append_of_le_length (by omega)]
      exact (List.append_nil _).symm
    · dsimp only
      rw [List.length_take]
      omega
  · dsimp only
    rw [if_neg hall]
    exact hshort (by omega)

end

/-! ## Iteration -/

/-- The calls of `cb` for the pieces in turn, up to the first that fails. -/
@[grind =] def feed {σ : Type} (cb : σ → List UInt8 → Int × σ) : List (List UInt8) → σ → Int × σ
  | [], data => (EXIT_OK, data)
  | piece :: pieces, data =>
    match cb data piece with
    | (rc, data) => if rc ≠ 0 then (rc, data) else feed cb pieces data

theorem copy_file_eq {size : Nat} (hsize : 0 < size) : ∀ (n : Nat) (p q : List UInt8), q.length ≤ n →
    ∃ pieces : List (List UInt8), pieces.flatten = q ∧ ∀ {σ : Type} (cb : σ → List UInt8 → Int × σ) (data : σ), ∃ f,
      copy_file cb size (between p q) data = ((feed cb pieces data).1, (feed cb pieces data).2, f) ∧
        ((feed cb pieces data).1 = EXIT_OK → f = between (p ++ q) [])
  | n, p, [], _ => ⟨[], rfl, fun cb data => by
    rw [copy_file, readSome_between, dif_pos List.take_nil]
    exact ⟨_, rfl, fun _ => by simp⟩⟩
  | 0, _, _ :: _, h => absurd h (Nat.not_succ_le_zero _)
  | n + 1, p, b :: q, h => by
    obtain ⟨d, hd⟩ : ∃ d, (b :: q).take size = d := ⟨_, rfl⟩
    have hne : d ≠ [] := fun hnil => by
      rw [hnil, List.take_eq_nil_iff] at hd
      rcases hd with hd | hd
      · omega
      · cases hd
    have hshort : ((b :: q).drop size).length ≤ n := by
      rw [List.length_drop]
      omega
    obtain ⟨pieces, hflat, hrest⟩ := copy_file_eq hsize n (p ++ d) ((b :: q).drop size) hshort
    refine ⟨d :: pieces, ?_, fun cb data => ?_⟩
    · rw [List.flatten_cons, hflat, ← hd, List.take_append_drop]
    rw [copy_file, readSome_between, hd, dif_neg hne, feed]
    cases hcb : cb data d with
    | mk rc data' =>
      dsimp only
      by_cases hrc : rc ≠ 0
      · simp only [if_pos hrc]
        exact ⟨_, rfl, fun hz => absurd hz hrc⟩
      · simp only [if_neg hrc]
        obtain ⟨f, hf, hend⟩ := hrest cb data'
        refine ⟨f, hf, fun hz => ?_⟩
        rw [hend hz, List.append_assoc, ← hd, List.take_append_drop]

/-- The buffer counts `w`, and `buffer_iterate` passes `w` on in pieces. -/
def Stores (limit : Nat) (buffer : Buffer) (w : List UInt8) : Prop :=
  buffer.total = w.length ∧ ∃ pieces : List (List UInt8), pieces.flatten = w ∧
    ∀ {σ : Type} (cb : σ → List UInt8 → Int × σ) (data : σ), ∃ buffer',
      buffer_iterate cb buffer data = ((feed cb pieces data).1, (feed cb pieces data).2, buffer') ∧
        ((feed cb pieces data).1 = EXIT_OK → Holds limit buffer' w)

theorem Holds.stores {limit : Nat} {buffer : Buffer} {w : List UInt8} (h : Holds limit buffer w) :
    Stores limit buffer w := by
  refine ⟨h.total, ?_⟩
  by_cases hzero : buffer.total = 0
  · have hnil : w = [] := List.length_eq_zero_iff.mp (by rw [← h.total]; exact hzero)
    refine ⟨[], hnil.symm, fun cb data => ⟨buffer, ?_, fun _ => h⟩⟩
    rw [buffer_iterate, if_pos hzero]
    rfl
  obtain ⟨f, hf, hw⟩ := h.content
  rcases hf with ⟨hnone, rfl⟩ | hsome
  · refine ⟨[w], List.append_nil _, fun cb data => ⟨buffer, ?_, fun _ => h⟩⟩
    rw [buffer_iterate, if_neg hzero, hnone, ← List.nil_append (buffer.addr.take _), ← hw, feed]
    cases hcb : cb data w with
    | mk rc data' =>
      dsimp only
      by_cases hrc : rc ≠ 0
      · simp only [if_pos hrc]
      · simp only [if_neg hrc, feed]
        rw [not_not.mp hrc]
        rfl
  · have hflush := buffer_flush_holds h
    have hoff := flush_off buffer
    have hsize := h.opened (by rw [hsome]; exact Option.some_ne_none _)
    obtain ⟨g, hg, hwg⟩ := hflush.content
    rw [hoff, List.take_zero, List.append_nil] at hwg
    subst hwg
    have hfile : (buffer_open (buffer_flush buffer)).seek 0 = between [] w := by
      rw [open_spilled hg]
      exact seek_between [] w _ (List.append_nil w)
    obtain ⟨pieces, hflat, hcopy⟩ := copy_file_eq
      (show 0 < (buffer_flush buffer).size by rw [flush_size]; exact hsize) w.length [] w (Nat.le_refl _)
    refine ⟨pieces, hflat, fun cb data => ?_⟩
    obtain ⟨f', hf', hend⟩ := hcopy cb data
    rw [buffer_iterate, if_neg hzero, hsome]
    dsimp only
    rw [hfile, hf']
    refine ⟨_, rfl, fun hz => ?_⟩
    refine ⟨⟨w, .inr (congrArg some (hend hz)), ?_⟩, hflush.total, hflush.off, hflush.addr,
      hflush.size, hflush.fits, ?_⟩
    · dsimp only
      rw [hoff, List.take_zero, List.append_nil]
    · intro _
      rw [flush_size]
      exact hsize

end Dump2tar
