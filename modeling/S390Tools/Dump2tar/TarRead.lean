import S390Tools.Dump2tar.Tar

/-!
# Reading what was written

The reader takes a record apart into the fields it was made of; number fields
come back modulo what their digits can hold. From there one call is read as one
entry, and a sequence of calls as a sequence of entries.
-/

namespace Dump2tar.Tar

open Fields

/-! ## Number fields -/

theorem ofNat_toNat_of_lt {n : Nat} (h : n < 256) : (UInt8.ofNat n).toNat = n := by
  rw [UInt8.toNat_ofNat', Nat.mod_eq_of_lt h]

theorem digit_is_octal {d : Nat} (h : d < 8) : is_octal (.ofNat (0x30 + d)) = true ∧ UInt8.ofNat (0x30 + d) ≠ 0x20 ∧
    (UInt8.ofNat (0x30 + d)).toNat - 0x30 = d ∧ (UInt8.ofNat (0x30 + d)).toNat < 0x80 := by
  have h₁ := ofNat_toNat_of_lt (show 0x30 + d < 256 by omega)
  refine ⟨?_, fun he => ?_, by omega, by omega⟩
  · unfold is_octal
    rw [Bool.and_eq_true, decide_eq_true_eq, decide_eq_true_eq, UInt8.le_iff_toNat_le, UInt8.le_iff_toNat_le, h₁]
    exact ⟨by show 48 ≤ _; omega, by show _ ≤ 55; omega⟩
  · rw [he] at h₁
    change 32 = _ at h₁
    omega

theorem octal_all {n v : Nat} : ∀ b ∈ octal n v, is_octal b = true := by
  intro b hb
  obtain ⟨d, hd, rfl⟩ := List.mem_map.mp hb
  exact (digit_is_octal (digits_lt (by decide) n v d hd)).1

theorem octal_value (n v : Nat) : value 8 ((octal n v).map fun d => d.toNat - 0x30) = v % 8 ^ n := by
  have hmap : ((octal n v).map fun d => d.toNat - 0x30) = digits 8 n v := by
    rw [octal, List.map_map]
    refine (List.map_congr_left fun d hd => ?_).trans (List.map_id _)
    exact (digit_is_octal (digits_lt (by decide) n v d hd)).2.2.1
  have h := value_digits (b := 8) (by decide) n v
  rw [hmap]
  exact_mod_cast h

theorem octal_ne_nil (n v : Nat) : ∃ d l, octal (n + 1) v = d :: l ∧ d ≠ 0x20 ∧ d.toNat < 0x80 := by
  cases h : digits 8 (n + 1) v with
  | nil =>
    have := digits_length 8 (n + 1) v
    rw [h] at this
    cases this
  | cons d l =>
    have hd := digit_is_octal (digits_lt (by decide) (n + 1) v d (by rw [h]; exact List.mem_cons_self ..))
    exact ⟨_, _, by rw [octal, h]; rfl, hd.2.1, hd.2.2.2⟩

theorem from_header_octal (n v : Nat) (t : List UInt8) : from_header (octal (n + 1) v ++ 0 :: t) =
    some ((v % 8 ^ (n + 1) : Nat) : Int) := by
  obtain ⟨d, l, hdl, hne, hlt⟩ := octal_ne_nil n v
  have hval := octal_value (n + 1) v
  have hall := octal_all (n := n + 1) (v := v)
  have hoct : from_header (octal (n + 1) v ++ 0 :: t) = from_octal (octal (n + 1) v ++ 0 :: t) := by
    rw [hdl, List.cons_append]
    unfold from_header
    split
    · rename_i heq
      cases heq
      exact absurd hlt (by decide)
    · rename_i heq
      cases heq
      exact absurd hlt (by decide)
    · rfl
  have hdrop : (octal (n + 1) v ++ 0 :: t).dropWhile (fun b => decide (b = 0x20)) = octal (n + 1) v ++ 0 :: t := by
    rw [hdl, List.cons_append, List.dropWhile_cons_of_neg (by simpa using hne)]
  have htake : (octal (n + 1) v ++ 0 :: t).takeWhile is_octal = octal (n + 1) v := by
    rw [takeWhile_append_of_all hall, List.takeWhile_cons_of_neg (by decide), List.append_nil]
  have hrest : (octal (n + 1) v ++ 0 :: t).dropWhile is_octal = 0 :: t := by
    have := List.takeWhile_append_dropWhile (p := is_octal) (l := octal (n + 1) v ++ 0 :: t)
    rw [htake] at this
    exact List.append_cancel_left this
  rw [hoct]
  unfold from_octal
  simp only [hdrop, htake, hrest]
  rw [hdl] at hval ⊢
  rw [← hval]
  rfl

theorem from_header_set_octal (n v : Nat) : from_header (set_octal (n + 2) v) =
    some ((v % 8 ^ (n + 1) : Nat) : Int) :=
  from_header_octal n v []

theorem base256_value (n : Nat) (v : Int) :
    (value 256 (((digits 256 n v).map UInt8.ofNat).map UInt8.toNat) : Int) = v % 256 ^ n := by
  have hmap : ((digits 256 n v).map UInt8.ofNat).map UInt8.toNat = digits 256 n v := by
    rw [List.map_map]
    refine (List.map_congr_left fun d hd => ?_).trans (List.map_id _)
    exact ofNat_toNat_of_lt (digits_lt (by decide) n v d hd)
  rw [hmap]
  exact value_digits (by decide) n v

theorem from_header_set_time {v : Int} (h₁ : -2 ^ 63 ≤ v) (h₂ : v < 2 ^ 63) :
    from_header (set_time 12 v) = some v := by
  unfold set_time
  by_cases h : v ≥ 0 ∧ v ≤ 2 ^ (3 * (12 - 1)) - 1
  · rw [if_pos h]
    have := from_header_set_octal 10 v.toNat
    rw [show (10 + 2) = 12 from rfl] at this
    rw [this, Nat.mod_eq_of_lt (by omega), Int.toNat_of_nonneg h.1]
  · rw [if_neg h]
    have hval := base256_value 11 v
    rw [digits_cons (by decide), List.map_cons]
    by_cases hneg : v < 0
    · have htop : (v / ((256 : Nat) : Int) ^ 11 % (256 : Nat)).toNat = 255 := by omega
      rw [htop]
      show some ((value 256 (((digits 256 11 v).map UInt8.ofNat).map UInt8.toNat) : Int) -
        256 ^ ((digits 256 11 v).map UInt8.ofNat).length) = some v
      rw [hval, List.length_map, digits_length]
      congr 1
      omega
    · have htop : (v / ((256 : Nat) : Int) ^ 11 % (256 : Nat)).toNat = 0 := by omega
      rw [htop]
      show some (value 256 (((digits 256 11 v).map UInt8.ofNat).map UInt8.toNat) : Int) = some v
      rw [hval]
      congr 1
      omega

/-! ## The header -/

theorem octal_length (n v : Nat) : (octal n v).length = n := by rw [octal, List.length_map, digits_length]

theorem set_octal_length (n v : Nat) : (set_octal (n + 1) v).length = n + 1 := by
  rw [set_octal, List.length_append, octal_length]
  rfl

theorem set_time_length (n : Nat) (v : Int) : (set_time (n + 1) v).length = n + 1 := by
  unfold set_time
  split
  · exact set_octal_length n _
  · rw [digits_cons (by decide), List.map_cons, List.length_cons, List.length_map, digits_length]

theorem sum_append (l t : List UInt8) : sum (l ++ t) = sum l + sum t := by
  rw [sum, sum, sum, List.map_append, List.sum_append]

theorem sum_le (l : List UInt8) : sum l ≤ 255 * l.length := by
  induction l with
  | nil => exact Nat.le_refl 0
  | cons b l ih =>
    have := b.toNat_lt
    rw [show b :: l = [b] ++ l from rfl, sum_append, List.length_append]
    change b.toNat + 0 + sum l ≤ 255 * (1 + l.length)
    omega

theorem sum_zeros (n : Nat) : sum (List.replicate n 0) = 0 := by
  rw [sum, List.map_replicate, List.sum_replicate]
  rfl

section
variable (names : Names) (filename : List UInt8) (link : Option (List UInt8)) (len : Nat)
    (stat : Option Stat) (type : UInt8)

theorem header_widths {chksum : List UInt8} (h : chksum.length = 8) :
    (header_fields names filename link len stat type chksum).map List.length = field_widths := by
  unfold header_fields field_widths
  simp only [List.map_cons, List.map_nil, text_length, set_octal_length, set_time_length, h, List.length_replicate]
  rfl

theorem header_length {chksum : List UInt8} (h : chksum.length = 8) :
    (header_fields names filename link len stat type chksum).flatten.length = 500 := by
  rw [List.length_flatten, header_widths names filename link len stat type h]
  rfl

theorem header_sum (chksum : List UInt8) :
    sum (header_fields names filename link len stat type chksum).flatten + sum (List.replicate 8 (0x20 : UInt8)) =
      sum (header_fields names filename link len stat type (List.replicate 8 0x20)).flatten + sum chksum := by
  unfold header_fields
  simp only [List.flatten_cons, sum_append]
  omega

theorem header_block_length : (emit_data (init_header names filename link len stat type) 500).length = 512 := by
  have hlen : (init_header names filename link len stat type).length = 500 :=
    header_length names filename link len stat type (by rw [List.length_append, octal_length]; rfl)
  rw [emit_data, if_neg (by decide), List.length_append, List.length_take, hlen]
  rfl

def read_header : Header where
  name := filename.take 100
  mode := match stat with | some st => st.st_mode.toNat % 0o10000 | none => 0o644
  uid := (match stat with | some st => st.st_uid.toNat | none => 0) % 8 ^ 7
  gid := (match stat with | some st => st.st_gid.toNat | none => 0) % 8 ^ 7
  size := len % 8 ^ 11
  mtime := match stat with | some st => st.st_mtime.toInt | none => 0
  type := type
  linkname := (link.getD []).take 100
  uname := (names.uid_to_name (match stat with | some st => st.st_uid.toNat | none => 0)).take 32
  gname := (names.gid_to_name (match stat with | some st => st.st_gid.toNat | none => 0)).take 32

theorem c_str_text {s : List UInt8} (h : 0 ∉ s) (n : Nat) : c_str (text 0 n s) = s.take n :=
  takeWhile_text (by decide) (fun x hx => by simpa using fun he : x = 0 => h (he ▸ hx)) n

theorem parse_header_block (hf : 0 ∉ filename) (hl : ∀ l ∈ link, 0 ∉ l) :
    parse_header (emit_data (init_header names filename link len stat type) 500) =
      some (read_header names filename link len stat type) := by
  let chksum := octal 6 (sum (header_fields names filename link len stat type
    (List.replicate 8 0x20)).flatten) ++ [0, 0x20]
  have hchk : chksum.length = 8 := by
    rw [List.length_append, octal_length]
    rfl
  have hlen := header_length names filename link len stat type hchk
  have hblock : emit_data (init_header names filename link len stat type) 500 =
      (header_fields names filename link len stat type chksum).flatten ++ List.replicate 12 0 := by
    rw [emit_data, if_neg (by decide)]
    change (header_fields names filename link len stat type chksum).flatten.take 500 ++ _ = _
    rw [List.take_of_length_le (Nat.le_of_eq hlen)]
    rfl
  have hsplit : split field_widths (emit_data (init_header names filename link len stat type) 500) =
      header_fields names filename link len stat type chksum := by
    rw [hblock, ← header_widths names filename link len stat type hchk, split_flatten]
  have hsum : (sum (header_fields names filename link len stat type (List.replicate 8 0x20)).flatten) % 8 ^ 6 =
      sum (header_fields names filename link len stat type (List.replicate 8 0x20)).flatten := by
    refine Nat.mod_eq_of_lt (Nat.lt_of_le_of_lt (sum_le _) ?_)
    rw [header_length names filename link len stat type (by rfl)]
    decide
  have hread : from_header chksum =
      some (sum (header_fields names filename link len stat type (List.replicate 8 0x20)).flatten : Int) := by
    have := from_header_octal 5
      (sum (header_fields names filename link len stat type (List.replicate 8 0x20)).flatten) [0x20]
    rw [hsum] at this
    exact this
  have hcheck : (sum (header_fields names filename link len stat type (List.replicate 8 0x20)).flatten : Int) =
      (sum (emit_data (init_header names filename link len stat type) 500) : Int) - sum chksum + 8 * 0x20 := by
    have h₁ := header_sum names filename link len stat type chksum
    have h₂ : sum (List.replicate 8 (0x20 : UInt8)) = 8 * 0x20 := by decide
    rw [hblock, sum_append, sum_zeros]
    omega
  have hlink : c_str (text 0 100 (link.getD [])) = (link.getD []).take 100 := by
    cases link with
    | none => rfl
    | some l => exact c_str_text (hl l rfl) 100
  have htime : ∀ t : Int64, from_header (set_time 12 t.toInt) = some t.toInt := fun t =>
    from_header_set_time t.le_toInt t.toInt_lt
  generalize hblk : emit_data (init_header names filename link len stat type) 500 = block at *
  unfold parse_header
  rw [hsplit]
  unfold header_fields
  simp only [bind, Option.bind, hread, from_header_set_octal 6, from_header_set_octal 10]
  cases stat with
  | none =>
    rw [from_header_set_time (by decide) (by decide)]
    simp only [if_pos hcheck, c_str_text hf, c_str_text (names.uid_str _),
      c_str_text (names.gid_str _), hlink, read_header,
      Int.toNat_natCast]
    rfl
  | some st =>
    rw [htime]
    simp only [if_pos hcheck, c_str_text hf, c_str_text (names.uid_str _),
      c_str_text (names.gid_str _), hlink, read_header,
      Int.toNat_natCast]
    rw [Nat.mod_eq_of_lt (show st.st_mode.toNat % 0o10000 < 8 ^ 7 by omega)]
    rfl

end

/-! ## Records -/

theorem padding_length (n : Nat) : n + (emit_padding n).length = round_up n := by
  unfold emit_padding round_up BLOCKSIZE
  split
  · rw [List.length_replicate]
    omega
  · rw [List.length_nil]
    omega

theorem emit_data_eq (a : List UInt8) : emit_data a a.length = a ++ emit_padding a.length := by
  unfold emit_data
  by_cases h : a.length = 0
  · rw [if_pos h, List.eq_nil_of_length_eq_zero h]
    rfl
  · rw [if_neg h, List.take_of_length_le (Nat.le_refl _)]

section
variable {block : List UInt8} {h : Header} (hlen : block.length = 512) (hparse : parse_header block = some h)
include hlen hparse

theorem read_block (fuel : Nat) (name link : Option (List UInt8)) (tail : List UInt8) :
    read_records (fuel + 1) name link (block ++ tail) =
      if tail.length < round_up h.size then none
      else if h.type = TYPE_LONGNAME then
        read_records fuel (some (c_str (tail.take h.size))) link (tail.drop (round_up h.size))
      else if h.type = TYPE_LONGLINK then
        read_records fuel name (some (c_str (tail.take h.size))) (tail.drop (round_up h.size))
      else
        match read_records fuel none none (tail.drop (round_up h.size)) with
        | none => none
        | some es =>
          some ({ name := name.getD h.name, link := link.getD h.linkname, type := h.type,
                  size := h.size, mode := h.mode,
                  uid := h.uid, gid := h.gid, mtime := h.mtime, uname := h.uname, gname := h.gname,
                  content := tail.take h.size } :: es) := by
  have htake : (block ++ tail).take 512 = block := by rw [← hlen, List.take_left]
  have hdrop : (block ++ tail).drop 512 = tail := by rw [← hlen, List.drop_left]
  have hzero : block ≠ List.replicate 512 0 := by
    intro he
    have hz : parse_header (List.replicate 512 0) = none := by decide
    rw [← he, hparse] at hz
    cases hz
  have hcons : ∃ b bs, block ++ tail = b :: bs := by
    cases hb : block with
    | nil =>
      rw [hb] at hlen
      cases hlen
    | cons b bs => exact ⟨b, bs ++ tail, rfl⟩
  have hge : ¬ (block ++ tail).length < 512 := by
    rw [List.length_append, hlen]
    omega
  obtain ⟨b, bs, hbs⟩ := hcons
  rw [hbs, read_records, ← hbs, if_neg hge, htake, if_neg hzero, hparse]
  · rewrite [hdrop]
    rfl
  -- the other equation is for an empty stream
  all_goals
    intro _ _ hnil
    cases hnil

end

theorem read_long (names : Names) {s : List UInt8} (hs : 0 ∉ s) (hfit : s.length + 1 < 8 ^ 11) (fuel : Nat)
    (name link : Option (List UInt8)) (rest : List UInt8) :
    read_records (fuel + 1) name link
        (emit_header names 0 LONGLINK none (s.length + 1) none TYPE_LONGNAME ++
          emit_data (s ++ [0]) (s.length + 1) ++ rest) =
      read_records fuel (some s) link rest ∧
    read_records (fuel + 1) name link
        (emit_header names 0 LONGLINK none (s.length + 1) none TYPE_LONGLINK ++
          emit_data (s ++ [0]) (s.length + 1) ++ rest) =
      read_records fuel name (some s) rest := by
  have hdata : emit_data (s ++ [0]) (s.length + 1) = (s ++ [0]) ++ emit_padding (s.length + 1) := by
    have := emit_data_eq (s ++ [0])
    rw [List.length_append] at this
    exact this
  have hlong : 0 ∉ LONGLINK := by decide +kernel
  have hsize : ∀ type, (read_header names LONGLINK none (s.length + 1) none type).size = s.length + 1 := fun type =>
    Nat.mod_eq_of_lt hfit
  have htype : ∀ type, (read_header names LONGLINK none (s.length + 1) none type).type = type := fun _ => rfl
  have htl : (s ++ [0] ++ emit_padding (s.length + 1)).length = round_up (s.length + 1) := by
    rw [List.length_append, List.length_append]
    exact padding_length (s.length + 1)
  have hstr : c_str ((s ++ [0] ++ emit_padding (s.length + 1) ++ rest).take (s.length + 1)) = s := by
    rw [List.append_assoc, List.take_left' (by rw [List.length_append]; rfl)]
    unfold c_str
    rw [takeWhile_append_of_all (fun x hx => by simpa using fun he : x = 0 => hs (he ▸ hx))]
    simp
  have hnl : ∀ l ∈ (none : Option (List UInt8)), (0 : UInt8) ∉ l := fun l hl => by cases hl
  constructor
  · rw [emit_header, List.append_assoc,
      read_block (header_block_length names LONGLINK none (s.length + 1) none TYPE_LONGNAME)
      (parse_header_block names LONGLINK none (s.length + 1) none TYPE_LONGNAME hlong hnl), hsize, hdata,
      if_neg (by rw [List.length_append, htl]; omega), htype, if_pos rfl, hstr, List.drop_left' htl]
  · rw [emit_header, List.append_assoc,
      read_block (header_block_length names LONGLINK none (s.length + 1) none TYPE_LONGLINK)
      (parse_header_block names LONGLINK none (s.length + 1) none TYPE_LONGLINK hlong hnl), hsize, hdata,
      if_neg (by rw [List.length_append, htl]; omega), htype, if_neg (by decide), if_pos rfl, hstr,
        List.drop_left' htl]

end Dump2tar.Tar
