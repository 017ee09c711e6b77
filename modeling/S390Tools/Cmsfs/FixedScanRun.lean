import S390Tools.Cmsfs.FixedScan
import S390Tools.Cmsfs.Read

/-!
# The runs of the scan of a fixed file

After the bytes before a position `x` have been scanned the list holds the records
that start before `x`, with the pieces that start before `x`.
-/

namespace Cmsfs

/-! ## Counting records and blocks -/

theorem ceil_add {a : Nat} (ha : 0 < a) (k y : Nat) : (k * a + y + a - 1) / a = k + (y + a - 1) / a := by
  rw [show k * a + y + a - 1 = (y + a - 1) + a * k by rw [Nat.mul_comm a k]; omega, Nat.add_mul_div_left _ _ ha,
    Nat.add_comm]

theorem ceil_one {a y : Nat} (hy : 0 < y) (hya : y ≤ a) : (y + a - 1) / a = 1 :=
  Nat.div_eq_of_lt_le (by omega) (by omega)

theorem ceil_mul {a : Nat} (ha : 0 < a) (k : Nat) : (k * a + a - 1) / a = k := by
  have h := ceil_add ha k 0
  rw [Nat.add_zero, Nat.div_eq_of_lt (show 0 + a - 1 < a by omega)] at h
  exact h

theorem ceil_mul_add {a y : Nat} (hy : 0 < y) (hya : y ≤ a) (k : Nat) : (k * a + y + a - 1) / a = k + 1 := by
  rw [ceil_add (by omega), ceil_one hy hya]

section
variable (c : Device) (f : FixedFile) (data : Nat → Nat)

/-! ## The records up to a position -/

/-- The number of records that start before `x`. -/
def FixedFile.started (x : Nat) : Nat := (x + f.record_len - 1) / f.record_len

def cut (x : Nat) (r : Record) : Record :=
  { r with ext := r.ext.take ((x + c.blksize - 1) / c.blksize - (r.block_nr + 1)) }

def records_upto (x : Nat) : List Record := (List.range (f.started x)).map fun i =>
    cut c x (fixed_record c f data i)

/-- The piece number `j` of the `n` bytes from the start of block `b` on. -/
def piece (n b j : Nat) : RecordExt :=
  ⟨data (b + j), min (n - j * c.blksize) c.blksize, data (b + j) = NULL_BLOCK, b + j⟩

end

section
variable {c : Device} {f : FixedFile} {data : Nat → Nat}

theorem pieces_from_eq (hb : 0 < c.blksize) : ∀ {steps n b : Nat}, n ≤ steps →
    pieces_from c data steps n b = (List.range ((n + c.blksize - 1) / c.blksize)).map (piece c data n b)
  | 0, n, b, h => by
    cases Nat.le_zero.mp h
    rw [Nat.div_eq_of_lt (show 0 + c.blksize - 1 < c.blksize by omega)]
    rfl
  | steps + 1, n, b, h => by
    by_cases hn : n = 0
    · rw [pieces_from, if_pos hn, hn, Nat.div_eq_of_lt (show 0 + c.blksize - 1 < c.blksize by omega)]
      rfl
    · have hcount : (n + c.blksize - 1) / c.blksize = (n - min n c.blksize + c.blksize - 1) / c.blksize + 1 := by
        rcases Nat.le_total n c.blksize with hle | hle
        · rw [ceil_one (Nat.pos_of_ne_zero hn) hle, Nat.min_eq_left hle, Nat.sub_self,
            Nat.div_eq_of_lt (show 0 + c.blksize - 1 < c.blksize by omega)]
        · have := ceil_add hb 1 (n - c.blksize)
          rw [Nat.one_mul, Nat.add_sub_cancel' hle] at this
          rw [this, Nat.min_eq_right hle, Nat.add_comm]
      have hrest : ∀ j, piece c data (n - min n c.blksize) (b + 1) j = piece c data n b (j + 1) := by
        intro j
        have hlen : min (n - min n c.blksize - j * c.blksize) c.blksize =
          min (n - (j + 1) * c.blksize) c.blksize := by
          rw [Nat.add_mul, Nat.one_mul]
          omega
        unfold piece
        rw [hlen, show b + 1 + j = b + (j + 1) by omega]
      rw [pieces_from, if_neg hn, pieces_from_eq hb (by omega), hcount, List.range_succ_eq_map, List.map_cons,
        List.map_map]
      refine congr (congrArg _ ?_) (List.map_congr_left fun j _ => hrest j)
      simp [piece]

variable (data) in
theorem fixed_record_ext (hb : 0 < c.blksize) (i : Nat) : (fixed_record c f data i).ext =
    (List.range ((f.record_len - first_piece c f (i * f.record_len) + c.blksize - 1) / c.blksize)).map
      (piece c data (f.record_len - first_piece c f (i * f.record_len)) (i * f.record_len / c.blksize + 1)) :=
  pieces_from_eq hb (Nat.sub_le _ _)

theorem first_piece_cases (hb : 0 < c.blksize) (x : Nat) : first_piece c f x = f.record_len ∨
    (first_piece c f x < f.record_len ∧ x + first_piece c f x = (x / c.blksize + 1) * c.blksize) := by
  have hdiv := Nat.div_add_mod x c.blksize
  have hmod := Nat.mod_lt x hb
  rw [Nat.add_mul, Nat.one_mul, Nat.mul_comm]
  unfold first_piece
  omega

theorem cut_complete (hb : 0 < c.blksize) {x i : Nat} (h : (i + 1) * f.record_len ≤ x) :
    cut c x (fixed_record c f data i) = fixed_record c f data i := by
  have hext := fixed_record_ext (c := c) (f := f) data hb i
  have hlen : (fixed_record c f data i).ext.length ≤
      (x + c.blksize - 1) / c.blksize - ((fixed_record c f data i).block_nr + 1) := by
    rw [hext, List.length_map, List.length_range]
    show _ ≤ (x + c.blksize - 1) / c.blksize - (i * f.record_len / c.blksize + 1)
    rw [Nat.add_mul, Nat.one_mul] at h
    rcases first_piece_cases (c := c) (f := f) hb (i * f.record_len) with hfp | ⟨hlt, hfp⟩
    · rw [hfp, Nat.sub_self, Nat.div_eq_of_lt (show 0 + c.blksize - 1 < c.blksize by omega)]
      exact Nat.zero_le _
    · refine Nat.le_sub_of_add_le ?_
      rw [Nat.add_comm, ← ceil_add hb, ← hfp]
      exact Nat.div_le_div_right (by omega)
  unfold cut
  rw [List.take_of_length_le hlen]

variable (data) in
theorem cut_first {x i : Nat} (h : x ≤ (i * f.record_len / c.blksize + 1) * c.blksize) (hb : 0 < c.blksize) :
    cut c x (fixed_record c f data i) = { fixed_record c f data i with ext := [] } := by
  have : (x + c.blksize - 1) / c.blksize - ((fixed_record c f data i).block_nr + 1) = 0 := by
    refine Nat.sub_eq_zero_of_le ?_
    show _ ≤ i * f.record_len / c.blksize + 1
    rw [← ceil_mul hb (i * f.record_len / c.blksize + 1)]
    exact Nat.div_le_div_right (by omega)
  unfold cut
  rw [this, List.take_zero]

variable (data) in
theorem cut_next (hb : 0 < c.blksize) {i e len : Nat} (hlt : i * f.record_len < e * c.blksize)
    (hend : e * c.blksize < (i + 1) * f.record_len) (hlen : 0 < len) (hle : len ≤ c.blksize) :
    cut c (e * c.blksize + len) (fixed_record c f data i) =
      { cut c (e * c.blksize) (fixed_record c f data i) with
        ext := (cut c (e * c.blksize) (fixed_record c f data i)).ext ++
          [⟨data e, min ((i + 1) * f.record_len - e * c.blksize) c.blksize, data e = NULL_BLOCK, e⟩] } := by
  have hext := fixed_record_ext (c := c) (f := f) data hb i
  have hbe : i * f.record_len / c.blksize < e := (Nat.div_lt_iff_lt_mul hb).mpr hlt
  rw [Nat.add_mul, Nat.one_mul] at hend ⊢
  obtain ⟨j, hj⟩ := Nat.exists_eq_add_of_le hbe
  rw [Nat.succ_eq_add_one] at hj
  have hej : e * c.blksize = (i * f.record_len / c.blksize + 1) * c.blksize + j * c.blksize := by
    rw [hj, Nat.add_mul]
  rcases first_piece_cases (c := c) (f := f) hb (i * f.record_len) with hfp | ⟨hfl, hfp⟩
  · exfalso
    have hle : first_piece c f (i * f.record_len) ≤ c.blksize - i * f.record_len % c.blksize := Nat.min_le_right _ _
    have hdiv := Nat.div_add_mod' (i * f.record_len) c.blksize
    have hmod := Nat.mod_lt (i * f.record_len) hb
    rw [Nat.add_mul, Nat.one_mul] at hej
    omega
  · have hpiece : piece c data (f.record_len - first_piece c f (i * f.record_len))
      (i * f.record_len / c.blksize + 1) j =
        ⟨data e, min (i * f.record_len + f.record_len - e * c.blksize) c.blksize, data e = NULL_BLOCK, e⟩ := by
      have : f.record_len - first_piece c f (i * f.record_len) - j * c.blksize =
        i * f.record_len + f.record_len - e * c.blksize := by omega
      unfold piece
      rw [this, ← hj]
    have hcount : j < (f.record_len - first_piece c f (i * f.record_len) + c.blksize - 1) / c.blksize := by
      have : j + 1 ≤ (j * c.blksize + 1 + c.blksize - 1) / c.blksize := by
        rw [ceil_mul_add (by omega) (by omega)]
      refine Nat.lt_of_lt_of_le this (Nat.div_le_div_right ?_)
      omega
    have hnth : (fixed_record c f data i).ext.take (j + 1) = (fixed_record c f data i).ext.take j ++
        [⟨data e, min (i * f.record_len + f.record_len - e * c.blksize) c.blksize, data e = NULL_BLOCK, e⟩] := by
      rw [List.take_add_one, hext, List.getElem?_map, List.getElem?_range hcount, Option.map_some, hpiece]
      rfl
    have hk : ∀ {y}, (y + c.blksize - 1) / c.blksize - ((fixed_record c f data i).block_nr + 1) =
        (y + c.blksize - 1) / c.blksize - (i * f.record_len / c.blksize + 1) := rfl
    unfold cut
    rw [hk, hk, ceil_mul hb, ceil_mul_add hlen hle, hj, Nat.add_sub_cancel_left, Nat.add_assoc _ j 1,
      Nat.add_sub_cancel_left, ← hj, hnth]

theorem started_mul (hl : 0 < f.record_len) (k : Nat) : f.started (k * f.record_len) = k := ceil_mul hl k

theorem started_mul_add {k y : Nat} (hy : 0 < y) (hyl : y ≤ f.record_len) :
    f.started (k * f.record_len + y) = k + 1 :=
  ceil_mul_add hy hyl k

theorem records_upto_mul (hb : 0 < c.blksize) (hl : 0 < f.record_len) (k : Nat) :
    records_upto c f data (k * f.record_len) = (List.range k).map (fixed_record c f data) := by
  unfold records_upto
  rw [started_mul hl]
  refine List.map_congr_left fun i hi => cut_complete hb ?_
  exact Nat.mul_le_mul_right _ (List.mem_range.mp hi)

variable (data) in
theorem records_upto_inside (hb : 0 < c.blksize) {k y : Nat} (hy : 0 < y) (hyl : y ≤ f.record_len) :
    records_upto c f data (k * f.record_len + y) = (List.range k).map (fixed_record c f data) ++
      [cut c (k * f.record_len + y) (fixed_record c f data k)] := by
  unfold records_upto
  rw [started_mul_add hy hyl, List.range_succ, List.map_append, List.map_singleton]
  congr 1
  refine List.map_congr_left fun i hi => cut_complete hb ?_
  exact Nat.le_trans (Nat.mul_le_mul_right _ (List.mem_range.mp hi)) (Nat.le_add_right _ _)

end

/-! ## The state at a position -/

section
variable (c : Device) (f : FixedFile) (data : Nat → Nat)

structure At (x : Nat) (st : FixedScan) : Prop where
  rlist : st.rlist = records_upto c f data x
  total : st.total = f.started x * f.record_len + if f.linefeed then f.started x - 1 else 0
  in_data : st.in_data = true
  null_ctr : data (x / c.blksize) = NULL_BLOCK → st.null_ctr % c.blksize = x % c.blksize

/-- The counter of the null bytes behind a piece that ends at `x`. -/
def Counted (x : Nat) (st : FixedScan) : Prop :=
  st.null_ctr % c.blksize = if data ((x - 1) / c.blksize) = NULL_BLOCK then x % c.blksize else 0

end

section
variable {c : Device} {f : FixedFile} {data : Nat → Nat}

theorem place_eq_null {x : Nat} : place c data x = NULL_BLOCK ↔ data (x / c.blksize) = NULL_BLOCK := by
  unfold place
  split
  · next h => exact ⟨fun _ => h, fun _ => rfl⟩
  · next h =>
    refine ⟨fun h' => absurd h' ?_, fun h' => absurd h' h⟩
    unfold NULL_BLOCK at h ⊢
    omega

theorem block_of {e x : Nat} (h₁ : e * c.blksize ≤ x) (h₂ : x < (e + 1) * c.blksize) : x / c.blksize = e :=
  Nat.div_eq_of_lt_le h₁ h₂

theorem counted_after {e x len : Nat} {st : FixedScan} (h : At c f data x st)
    (h₁ : e * c.blksize ≤ x) (hlen : 0 < len)
    (h₂ : x + len ≤ (e + 1) * c.blksize) :
    null_ctr_after (place c data x) len st % c.blksize =
      if data ((x + len - 1) / c.blksize) = NULL_BLOCK then (x + len) % c.blksize else 0 := by
  have hx := block_of h₁ (show x < (e + 1) * c.blksize by omega)
  have hx' : (x + len - 1) / c.blksize = e := block_of (by omega) (by omega)
  unfold null_ctr_after
  rw [hx']
  by_cases hnull : data e = NULL_BLOCK
  · rw [if_pos (place_eq_null.2 (hx ▸ hnull)), if_pos hnull, Nat.add_mod, h.null_ctr (hx ▸ hnull), ← Nat.add_mod]
  · rw [if_neg (fun h' => hnull (hx ▸ place_eq_null.1 h')), if_neg hnull, Nat.zero_mod]

theorem Counted.null {x : Nat} {st : FixedScan} (h : Counted c data x st) (hb : 0 < c.blksize) (hx : 0 < x)
    (hnull : data (x / c.blksize) = NULL_BLOCK) : st.null_ctr % c.blksize = x % c.blksize := by
  unfold Counted at h
  by_cases hmod : x % c.blksize = 0
  · rw [h, hmod, ite_self]
  · have hdiv := Nat.div_add_mod' x c.blksize
    have hlt := Nat.mod_lt x hb
    have : (x - 1) / c.blksize = x / c.blksize := by
      refine block_of (by omega) ?_
      rw [Nat.add_mul, Nat.one_mul]
      omega
    rw [h, this, if_pos hnull]

theorem started_flag {x : Nat} {st : FixedScan} (h : At c f data x st) :
    null_started c (place c data x) st = (data (x / c.blksize) = NULL_BLOCK && x % c.blksize = 0 : Bool) := by
  unfold null_started
  by_cases hnull : data (x / c.blksize) = NULL_BLOCK
  · rw [h.null_ctr hnull]
    simp only [place_eq_null.2 hnull, hnull]
  · have : place c data x ≠ NULL_BLOCK := fun h' => hnull (place_eq_null.1 h')
    rw [decide_eq_false this, decide_eq_false hnull, Bool.false_and, Bool.false_and]

def FixedScan.with_record (c : Device) (f : FixedFile) (addr len : Nat) (st : FixedScan) : FixedScan :=
  let total := if f.linefeed && st.rlist.length ≠ 0 then st.total + 1 else st.total
  { st with
    rlist := st.rlist ++ [⟨f.record_len, addr, len, total, null_started c addr st, [], st.block⟩]
    null_ctr := null_ctr_after addr len st
    total := total + f.record_len
    record_scan_state := .DATA_BLOCK_STARTED }

theorem new_record_ok {addr len : Nat} {st : FixedScan}
    (hlen : ¬ (f.nr_records ≠ 0 ∧ f.nr_records = st.rlist.length)) (hin : st.in_data = true) :
    new_record c f addr len st = .ok (st.with_record c f addr len) := by
  have hset : set_record_len f f.record_len st = .ok { st with
      rlist := st.rlist ++ [⟨f.record_len, 0, 0, 0, false, [], 0⟩], record_scan_state := .HEADER_COMPLETE } := by
    unfold set_record_len
    rw [if_neg hlen, if_neg (by rw [hin]; decide)]
  unfold new_record
  rw [hset]
  -- the number of the new record is the old number of records
  simp only [bind, Except.bind, set_record, ne_eq, not_true_eq_false, if_false,
    List.getLast?_concat, List.dropLast_concat,
    FixedScan.record, List.length_append, List.length_singleton, Nat.cast_add, Nat.cast_one, add_sub_cancel_right,
    Nat.cast_eq_zero]
  rfl

/-- The start of record `k`. -/
theorem new_record_at (hb : 0 < c.blksize) (hl : 0 < f.record_len) {k e : Nat} {st : FixedScan}
    (h : At c f data (k * f.record_len) st) (hk : k < f.nr_records) (hblock : st.block = e)
    (h₁ : e * c.blksize ≤ k * f.record_len) (h₂ : k * f.record_len < (e + 1) * c.blksize) :
    ∃ st', new_record c f (place c data (k * f.record_len)) (first_piece c f (k * f.record_len)) st = .ok st' ∧
      At c f data (k * f.record_len + first_piece c f (k * f.record_len)) st' ∧
      Counted c data (k * f.record_len + first_piece c f (k * f.record_len)) st' ∧ st'.block = e := by
  have hx := block_of h₁ h₂
  have hmod := Nat.mod_lt (k * f.record_len) hb
  have hdiv := Nat.div_add_mod' (k * f.record_len) c.blksize
  have hfp : 0 < first_piece c f (k * f.record_len) := by
    unfold first_piece
    omega
  have hfl : first_piece c f (k * f.record_len) ≤ f.record_len := Nat.min_le_left _ _
  have hend : k * f.record_len + first_piece c f (k * f.record_len) ≤ (e + 1) * c.blksize := by
    have : first_piece c f (k * f.record_len) ≤ c.blksize - k * f.record_len % c.blksize := Nat.min_le_right _ _
    rw [hx] at hdiv
    rw [Nat.add_mul, Nat.one_mul]
    omega
  have hlen : st.rlist.length = k := by
    rw [h.rlist, records_upto_mul hb hl, List.length_map, List.length_range]
  have htotal : (if f.linefeed && st.rlist.length ≠ 0 then st.total + 1 else st.total) =
      k * f.record_len + if f.linefeed then k else 0 := by
    rw [h.total, started_mul hl, hlen]
    cases f.linefeed with
    | false => rfl
    | true =>
      by_cases h0 : k = 0
      · subst h0
        rfl
      · rw [Bool.true_and, if_pos (decide_eq_true h0), if_pos rfl, if_pos rfl]
        omega
  have hcut := cut_first (c := c) (f := f) data (i := k)
    (x := k * f.record_len + first_piece c f (k * f.record_len)) (by rw [hx]; exact hend) hb
  have hcount : Counted c data (k * f.record_len + first_piece c f (k * f.record_len))
      (st.with_record c f (place c data (k * f.record_len)) (first_piece c f (k * f.record_len))) :=
    counted_after h h₁ hfp hend
  refine ⟨_, new_record_ok (by omega) h.in_data, ⟨?_, ?_, rfl, hcount.null hb (by omega)⟩, hcount, hblock⟩
  · rw [records_upto_inside data hb hfp hfl, hcut, ← records_upto_mul hb hl, ← h.rlist]
    unfold FixedScan.with_record
    rw [htotal, started_flag h, hblock, ← hx]
    rfl
  · unfold FixedScan.with_record
    rw [htotal, started_mul_add hfp hfl, Nat.add_sub_cancel, Nat.add_mul, Nat.one_mul]
    exact Nat.add_right_comm _ _ _

/-- What a further piece does to the scan, when `r` is the last record. -/
def FixedScan.with_extension (c : Device) (addr len : Nat) (r : Record) (st : FixedScan) : FixedScan :=
  { st with
    rlist := st.rlist.dropLast ++ [{ r with ext := r.ext ++ [⟨addr, len, null_started c addr st, st.block⟩] }]
    null_ctr := null_ctr_after addr len st
    record_scan_state := .DATA_BLOCK_EXT }

theorem set_record_extension_ok {addr len : Nat} {r : Record} {st : FixedScan} (hlast : st.rlist.getLast? = some r)
    (hlen : st.rlist.length ≤ f.nr_records) (hin : st.in_data = true) :
    set_record_extension c f addr len st = .ok (st.with_extension c addr len r) := by
  have hrecord : ¬ st.record ≥ f.nr_records := by
    unfold FixedScan.record
    omega
  unfold set_record_extension
  rw [if_neg (by rw [hin]; decide), if_neg hrecord, hlast]
  rfl

/-- The piece of record `k` at the start of block `e`. -/
theorem extension_at (hb : 0 < c.blksize) {k e : Nat} {st : FixedScan}
    (h : At c f data (e * c.blksize) st) (hk : k < f.nr_records) (hblock : st.block = e)
    (h₁ : k * f.record_len < e * c.blksize) (h₂ : e * c.blksize < (k + 1) * f.record_len) :
    ∃ st', set_record_extension c f (place c data (e * c.blksize))
        (min ((k + 1) * f.record_len - e * c.blksize) c.blksize) st = .ok st' ∧
      At c f data (e * c.blksize + min ((k + 1) * f.record_len - e * c.blksize) c.blksize) st' ∧
      Counted c data (e * c.blksize + min ((k + 1) * f.record_len - e * c.blksize) c.blksize) st' ∧
        st'.block = e := by
  have hx : e * c.blksize / c.blksize = e := Nat.mul_div_cancel _ hb
  have hpos : 0 < min ((k + 1) * f.record_len - e * c.blksize) c.blksize := by omega
  have hle : min ((k + 1) * f.record_len - e * c.blksize) c.blksize ≤ c.blksize := Nat.min_le_right _ _
  have hle' : min ((k + 1) * f.record_len - e * c.blksize) c.blksize ≤ (k + 1) * f.record_len - e * c.blksize :=
    Nat.min_le_left _ _
  have hnext := cut_next (f := f) data hb h₁ h₂ hpos hle
  rw [Nat.add_mul, Nat.one_mul] at h₂ hpos hle hle' hnext ⊢
  generalize hlen : min (k * f.record_len + f.record_len - e * c.blksize) c.blksize = len at *
  -- the position is `y` bytes behind the start of the record
  obtain ⟨y, hy⟩ := Nat.exists_eq_add_of_le (Nat.le_of_lt h₁)
  have hup := records_upto_inside (c := c) (f := f) data hb (k := k) (y := y) (by omega) (by omega)
  have hup' := records_upto_inside (c := c) (f := f) data hb (k := k) (y := y + len) (by omega) (by omega)
  rw [← Nat.add_assoc, ← hy] at hup'
  rw [← hy] at hup
  have hst : f.started (e * c.blksize) = k + 1 := by
    rw [hy]
    exact started_mul_add (by omega) (by omega)
  have hst' : f.started (e * c.blksize + len) = k + 1 := by
    rw [hy, Nat.add_assoc]
    exact started_mul_add (by omega) (by omega)
  have hlist := h.rlist
  rw [hup] at hlist
  have hlast : st.rlist.getLast? = some (cut c (e * c.blksize) (fixed_record c f data k)) := by
    rw [hlist, List.getLast?_concat]
  have hlength : st.rlist.length ≤ f.nr_records := by
    rw [hlist, List.length_append, List.length_map, List.length_range, List.length_singleton]
    omega
  have hcount : Counted c data (e * c.blksize + len)
      (st.with_extension c (place c data (e * c.blksize)) len (cut c (e * c.blksize) (fixed_record c f data k))) :=
    counted_after h (Nat.le_refl _) hpos (by rw [Nat.add_mul]; omega)
  have haddr : place c data (e * c.blksize) = data e := by
    unfold place
    rw [hx, Nat.mul_mod_left, Nat.add_zero]
    split
    · next h => exact h.symm
    · rfl
  have hflag := started_flag h
  rw [hx, Nat.mul_mod_left] at hflag
  refine ⟨_, set_record_extension_ok hlast hlength h.in_data,
    ⟨?_, ?_, rfl, hcount.null hb (by omega)⟩, hcount, hblock⟩
  · rw [hup', hnext]
    unfold FixedScan.with_extension
    rw [hlist, List.dropLast_concat, hblock, hflag, haddr]
    simp
  · rw [hst', ← hst]
    exact h.total

/-! ## Blocks -/

theorem At.length (hb : 0 < c.blksize) (hl : 0 < f.record_len) {k : Nat} {st : FixedScan}
    (h : At c f data (k * f.record_len) st) : st.rlist.length = k := by
  rw [h.rlist, records_upto_mul hb hl, List.length_map, List.length_range]

theorem end_of_file_iff {st : FixedScan} : end_of_file f st = true ↔ st.rlist.length = f.nr_records := by
  unfold end_of_file FixedScan.record
  rw [decide_eq_true_iff]
  omega

theorem record_part_pos (hb : 0 < c.blksize) (hl : 0 < f.record_len) : 0 < record_part c f := by
  unfold record_part
  split <;> omega

theorem record_part_eq : record_part c f = min f.record_len c.blksize := by
  unfold record_part
  split <;> omega

theorem place_records_zero (hb : 0 < c.blksize) (hl : 0 < f.record_len) (steps addr : Nat) (st : FixedScan) :
    place_records c f steps addr 0 st = .ok st := by
  have := record_part_pos (c := c) hb hl
  cases steps with
  | zero => rfl
  | succ steps => rw [place_records, if_neg (by omega), if_neg (by omega)]

theorem block_addr_place {x len : Nat} (h : (x + len) / c.blksize = x / c.blksize) :
    block_addr (place c data x) len = place c data (x + len) := by
  unfold block_addr
  by_cases hnull : data (x / c.blksize) = NULL_BLOCK
  · have h₁ : place c data x = NULL_BLOCK := place_eq_null.2 hnull
    have h₂ : place c data (x + len) = NULL_BLOCK := place_eq_null.2 (h ▸ hnull)
    rw [h₁, h₂, if_neg (fun h => h rfl)]
  · have h₁ : place c data x ≠ NULL_BLOCK := fun h' => hnull (place_eq_null.1 h')
    rw [if_pos h₁]
    have hdiv := Nat.div_add_mod' x c.blksize
    have hdiv' := Nat.div_add_mod' (x + len) c.blksize
    unfold place
    rw [h] at hdiv' ⊢
    rw [if_neg hnull, if_neg hnull]
    omega

/-- The records from record `k` on that start in the block. -/
theorem place_records_at (hb : 0 < c.blksize) (hl : 0 < f.record_len) {e : Nat} :
    ∀ {steps k left addr : Nat} {st : FixedScan},
    At c f data (k * f.record_len) st → k ≤ f.nr_records → st.block = e → e * c.blksize ≤ k * f.record_len →
    k * f.record_len + left = (e + 1) * c.blksize → left < steps →
      (0 < left → addr = place c data (k * f.record_len)) →
    (k * f.record_len = min ((e + 1) * c.blksize) (f.nr_records * f.record_len) →
      Counted c data (k * f.record_len) st) →
    ∃ st', place_records c f steps addr left st = .ok st' ∧
      At c f data (min ((e + 1) * c.blksize) (f.nr_records * f.record_len)) st' ∧
      Counted c data (min ((e + 1) * c.blksize) (f.nr_records * f.record_len)) st' ∧ st'.block = e
  | 0, _, _, _, _, _, _, _, _, _, hs, _, _ => absurd hs (Nat.not_lt_zero _)
  | steps + 1, k, left, addr, st, h, hk, hblock, h₁, hleft, hs, haddr, hcount => by
    have hpart := record_part_pos (c := c) hb hl
    have hpe : record_part c f = min f.record_len c.blksize := record_part_eq
    have hle : left ≤ c.blksize := by
      rw [Nat.add_mul, Nat.one_mul] at hleft
      omega
    have heof : end_of_file f st = true ↔ k = f.nr_records := by rw [end_of_file_iff, h.length hb hl]
    have hkN : k * f.record_len ≤ f.nr_records * f.record_len := Nat.mul_le_mul_right _ hk
    have hnext : k < f.nr_records → (k + 1) * f.record_len ≤ f.nr_records * f.record_len :=
      fun hlt => Nat.mul_le_mul_right _ hlt
    rw [Nat.add_mul k, Nat.one_mul] at hnext
    -- the first piece of the record is what the loop gives it
    have hfp : 0 < left → first_piece c f (k * f.record_len) = min f.record_len left := by
      intro hpos
      have hx := block_of h₁ (show k * f.record_len < (e + 1) * c.blksize by omega)
      have hdiv := Nat.div_add_mod' (k * f.record_len) c.blksize
      unfold first_piece
      rw [hx] at hdiv
      rw [Nat.add_mul, Nat.one_mul] at hleft
      congr 1
      omega
    have hstop : ∀ x, x = min ((e + 1) * c.blksize) (f.nr_records * f.record_len) → At c f data x st →
        Counted c data x st → ∃ st', Except.ok st = (.ok st' : Except ScanStop FixedScan) ∧
          At c f data (min ((e + 1) * c.blksize) (f.nr_records * f.record_len)) st' ∧
          Counted c data (min ((e + 1) * c.blksize) (f.nr_records * f.record_len)) st' ∧ st'.block = e :=
      fun x hx hat hcnt => ⟨st, rfl, hx ▸ hat, hx ▸ hcnt, hblock⟩
    have hat_end : k = f.nr_records → k * f.record_len = min ((e + 1) * c.blksize)
      (f.nr_records * f.record_len) := by
      intro heq
      rw [← heq]
      omega
    rw [place_records]
    by_cases hfit : record_part c f ≤ left
    · rw [if_pos hfit]
      by_cases hend : k = f.nr_records
      · rw [if_pos (heof.mpr hend)]
        exact hstop _ (hat_end hend) h (hcount (hat_end hend))
      · have hlt : k < f.nr_records := by omega
        rw [if_neg (fun h => hend (heof.mp h))]
        obtain ⟨st₁, hnew, hat, hcnt, hb₁⟩ := new_record_at hb hl h hlt hblock h₁ (by omega)
        have hpos : 0 < left := by omega
        have hpiece : first_piece c f (k * f.record_len) = record_part c f := by
          rw [hfp hpos, hpe]
          omega
        rw [hpiece, ← haddr hpos] at hnew
        rw [hpiece] at hat hcnt
        rw [hnew]
        show ∃ st', place_records c f steps _ _ st₁ = _ ∧ _
        by_cases hlarge : f.record_len ≤ c.blksize
        · have hlen : record_part c f = f.record_len := by omega
          rw [hlen] at hat hcnt ⊢
          have hk1 : k * f.record_len + f.record_len = (k + 1) * f.record_len := by rw [Nat.add_mul, Nat.one_mul]
          refine place_records_at (k := k + 1) hb hl (hk1 ▸ hat) hlt hb₁ (hk1 ▸ ?_) (hk1 ▸ ?_)
            (by omega) (fun hpos' => ?_)
            fun _ => hk1 ▸ hcnt
          · omega
          · omega
          rw [haddr hpos, block_addr_place, hk1]
          rw [block_of h₁ (by omega), block_of (e := e) (by omega) (by omega)]
        · have hlen : record_part c f = c.blksize := by omega
          rw [hlen] at hat hcnt ⊢
          have hx : k * f.record_len + c.blksize = min ((e + 1) * c.blksize) (f.nr_records * f.record_len) := by
            have := hnext hlt
            omega
          rw [show left - c.blksize = 0 by omega, place_records_zero hb hl]
          exact ⟨st₁, rfl, hx ▸ hat, hx ▸ hcnt, hb₁⟩
    · rw [if_neg hfit]
      by_cases hpos : 0 < left
      · rw [if_pos hpos]
        by_cases hend : k = f.nr_records
        · rw [if_pos (heof.mpr hend)]
          exact hstop _ (hat_end hend) h (hcount (hat_end hend))
        · have hlt : k < f.nr_records := by omega
          rw [if_neg (fun h => hend (heof.mp h))]
          obtain ⟨st₁, hnew, hat, hcnt, hb₁⟩ := new_record_at hb hl h hlt hblock h₁ (by omega)
          have hpiece : first_piece c f (k * f.record_len) = left := by
            rw [hfp hpos]
            omega
          have hx : k * f.record_len + left = min ((e + 1) * c.blksize) (f.nr_records * f.record_len) := by
            have := hnext hlt
            omega
          rw [hpiece, ← haddr hpos] at hnew
          rw [hpiece] at hat hcnt
          exact ⟨st₁, hnew, hx ▸ hat, hx ▸ hcnt, hb₁⟩
      · rw [if_neg hpos]
        have hx : k * f.record_len = min ((e + 1) * c.blksize) (f.nr_records * f.record_len) := by omega
        exact hstop _ hx h (hcount hx)

/-- The number of bytes at `x` that continue a record in the block that starts there. -/
def continued (c : Device) (f : FixedFile) (x : Nat) : Nat :=
  if x % f.record_len = 0 then 0 else min ((x / f.record_len + 1) * f.record_len - x) c.blksize

theorem walk_at (hb : 0 < c.blksize) (hl : 0 < f.record_len) {e x : Nat} {st : FixedScan} (h : At c f data x st)
    (hblock : st.block = e) (h₁ : e * c.blksize ≤ x) (h₂ : x < (e + 1) * c.blksize)
      (hx : x < f.nr_records * f.record_len)
    (hstart : x = e * c.blksize ∨ x % f.record_len = 0) (hfirst : first_len c f x = continued c f x) :
    ∃ st', walk_fixed_data_block c f (place c data x) (x - e * c.blksize) st = .ok st' ∧
      At c f data (min ((e + 1) * c.blksize) (f.nr_records * f.record_len)) st' ∧
      Counted c data (min ((e + 1) * c.blksize) (f.nr_records * f.record_len)) st' ∧ st'.block = e := by
  have hend : e * c.blksize + c.blksize = (e + 1) * c.blksize := by rw [Nat.add_mul, Nat.one_mul]
  have hk : x / f.record_len < f.nr_records := (Nat.div_lt_iff_lt_mul hl).mpr hx
  have hdiv := Nat.div_add_mod' x f.record_len
  have hoff : st.block * c.blksize + (x - e * c.blksize) = x := by
    rw [hblock]
    omega
  unfold walk_fixed_data_block
  rw [hoff, hfirst]
  by_cases hmod : x % f.record_len = 0
  · have hc : ((continued c f x : Nat) : Int) = 0 := by
      rw [continued, if_pos hmod]
      rfl
    rw [hmod, Nat.add_zero] at hdiv
    simp only [hc, lt_self_iff_false, if_false, if_true]
    refine place_records_at (k := x / f.record_len) hb hl (hdiv.symm ▸ h)
      (Nat.le_of_lt hk) hblock (hdiv.symm ▸ h₁) ?_
      (Nat.lt_succ_self _) (fun _ => by rw [hdiv]) fun heq => ?_
    · omega
    · omega
  · have hxe : x = e * c.blksize := hstart.resolve_right hmod
    have hklt : x / f.record_len * f.record_len < x := by omega
    have hkend : x < (x / f.record_len + 1) * f.record_len := by
      have := Nat.mod_lt x hl
      rw [Nat.add_mul, Nat.one_mul]
      omega
    have hcont : continued c f x = min ((x / f.record_len + 1) * f.record_len - x) c.blksize := if_neg hmod
    have hpos : 0 < continued c f x := by omega
    have hkN : (x / f.record_len + 1) * f.record_len ≤ f.nr_records * f.record_len := Nat.mul_le_mul_right _ hk
    have hext := extension_at (k := x / f.record_len) hb (hxe ▸ h) hk hblock (hxe ▸ hklt) (hxe ▸ hkend)
    rw [← hxe, ← hcont] at hext
    obtain ⟨st₁, hset, hat, hcnt, hb₁⟩ := hext
    have hleft : c.blksize - (x - e * c.blksize) = c.blksize := by omega
    rw [if_neg (by omega), if_neg (by omega), hleft, if_neg (by omega), Int.toNat_natCast, hset]
    show ∃ st', place_records c f _ _ _ st₁ = _ ∧ _
    by_cases hin : (x / f.record_len + 1) * f.record_len - x ≤ c.blksize
    · have heq : x + continued c f x = (x / f.record_len + 1) * f.record_len := by omega
      rw [heq] at hat hcnt
      refine place_records_at (k := x / f.record_len + 1) hb hl hat hk hb₁ (by omega) (by omega)
        (by omega) (fun hp => ?_)
        fun _ => hcnt
      rw [block_addr_place, heq]
      rw [block_of (e := e) (by omega) (by omega), block_of (e := e) (by omega) (by omega)]
    · have heq : continued c f x = c.blksize := by omega
      have hx' : x + c.blksize = min ((e + 1) * c.blksize) (f.nr_records * f.record_len) := by omega
      rw [heq] at hat hcnt ⊢
      rw [Nat.sub_self, place_records_zero hb hl]
      exact ⟨st₁, rfl, hx' ▸ hat, hx' ▸ hcnt, hb₁⟩

theorem At.not_done (hl : 0 < f.record_len) {x : Nat} {st : FixedScan} (h : At c f data x st)
    (hblock : st.block < f.nr_blocks) (hx : x ≤ f.nr_records * f.record_len) : ¬ st.done f := by
  have hlen : st.rlist.length ≤ f.nr_records := by
    rw [h.rlist, records_upto, List.length_map, List.length_range, ← started_mul hl f.nr_records]
    exact Nat.div_le_div_right (by omega)
  unfold FixedScan.done FixedScan.record
  omega

theorem cache_at (hb : 0 < c.blksize) (hl : 0 < f.record_len) {e x : Nat} {st : FixedScan} (h : At c f data x st)
    (hblock : st.block = e) (he : e < f.nr_blocks) (h₁ : e * c.blksize ≤ x) (h₂ : x < (e + 1) * c.blksize)
    (hx : x < f.nr_records * f.record_len) (hstart : x = e * c.blksize ∨ x % f.record_len = 0)
    (hfirst : first_len c f x = continued c f x) :
    ∃ st', cache_fixed_data_block c f (place c data x) (x - e * c.blksize) st = .ok st' ∧
      At c f data (min ((e + 1) * c.blksize) (f.nr_records * f.record_len)) st' ∧
      Counted c data (min ((e + 1) * c.blksize) (f.nr_records * f.record_len)) st' ∧ st'.block = e + 1 := by
  obtain ⟨st₁, hwalk, hat, hcnt, hb₁⟩ := walk_at hb hl h hblock h₁ h₂ hx hstart hfirst
  unfold cache_fixed_data_block
  rw [if_neg (h.not_done hl (hblock ▸ he) (Nat.le_of_lt hx)), hwalk]
  exact ⟨_, rfl, ⟨hat.rlist, hat.total, hat.in_data, hat.null_ctr⟩, hcnt, by rw [← hb₁]⟩

theorem place_block (hb : 0 < c.blksize) (e : Nat) : place c data (e * c.blksize) = data e := by
  unfold place
  rw [Nat.mul_div_cancel _ hb, Nat.mul_mod_left, Nat.add_zero]
  split
  · next h => exact h.symm
  · rfl

theorem scan_blocks_at (hb : 0 < c.blksize) (hl : 0 < f.record_len)
    (hblocks : ∀ b, b < f.nr_blocks ↔ b * c.blksize < f.nr_records * f.record_len) :
    ∀ {left i : Nat} {st : FixedScan},
      At c f data (min (i * c.blksize) (f.nr_records * f.record_len)) st → st.block = i →
      i + left ≤ f.nr_blocks → Counted c data (min (i * c.blksize) (f.nr_records * f.record_len)) st →
      (∀ b, i ≤ b → b < i + left → first_len c f (b * c.blksize) = continued c f (b * c.blksize)) →
      ∃ st', scan_blocks c f data left i 0 st = .ok st' ∧
        At c f data (min ((i + left) * c.blksize) (f.nr_records * f.record_len)) st' ∧
        Counted c data (min ((i + left) * c.blksize) (f.nr_records * f.record_len)) st' ∧ st'.block = i + left
  | 0, i, st, h, hblock, _, hcnt, _ => ⟨st, rfl, h, hcnt, hblock⟩
  | left + 1, i, st, h, hblock, hle, _, hfits => by
    have hi : i * c.blksize < f.nr_records * f.record_len := (hblocks i).mp (by omega)
    rw [Nat.min_eq_left (Nat.le_of_lt hi)] at h
    obtain ⟨st₁, hcache, hat, hcnt, hb₁⟩ := cache_at hb hl h hblock (by omega) (Nat.le_refl _)
      (by rw [Nat.add_mul, Nat.one_mul]; omega) hi (.inl rfl) (hfits i (Nat.le_refl i) (by omega))
    rw [place_block hb, Nat.sub_self] at hcache
    have hrun := scan_blocks_at hb hl hblocks hat hb₁ (show i + 1 + left ≤ f.nr_blocks by omega) hcnt
      fun b hb₁ hb₂ => hfits b (by omega) (by omega)
    rw [show i + 1 + left = i + (left + 1) by omega] at hrun
    rw [scan_blocks, Nat.add_zero, hcache]
    exact hrun

/-! ## Files that the scan fits -/

theorem first_len_small {e : Nat} (h : f.record_len ≤ c.blksize) (hl : 0 < f.record_len) :
    first_len c f (e * c.blksize) = continued c f (e * c.blksize) := by
  unfold first_len continued record_part
  by_cases hmod : e * c.blksize % f.record_len = 0
  · rw [if_neg (by omega), if_pos hmod]
    rfl
  · have hlt : f.record_len < c.blksize := by
      refine Nat.lt_of_le_of_ne h fun heq => hmod ?_
      rw [heq, Nat.mul_mod_left]
    have hx : 0 < e * c.blksize := Nat.pos_of_ne_zero fun h0 => hmod (by rw [h0, Nat.zero_mod])
    have hdiv := Nat.div_add_mod' (e * c.blksize) f.record_len
    have hlt' := Nat.mod_lt (e * c.blksize) hl
    rw [if_pos hmod, if_neg hmod, if_neg (by omega), if_neg (by omega), Nat.mod_eq_of_lt hlt,
      Nat.add_mul, Nat.one_mul]
    omega

theorem first_len_first {e : Nat} (h : c.blksize < f.record_len) (he : e * c.blksize ≤ f.record_len) :
    first_len c f (e * c.blksize) = continued c f (e * c.blksize) := by
  unfold first_len continued record_part
  by_cases hmod : e * c.blksize % f.record_len = 0
  · rw [if_neg (by omega), if_pos hmod]
    rfl
  · have hlt : e * c.blksize < f.record_len := by
      refine Nat.lt_of_le_of_ne he fun heq => hmod ?_
      rw [heq, Nat.mod_self]
    rw [if_pos hmod, if_neg hmod, if_pos h, Nat.mul_mod_left, Nat.div_eq_of_lt hlt, Nat.zero_add, Nat.one_mul]
    by_cases hfull : (f.record_len : Int) - ((e * c.blksize : Nat) : Int) ≥ c.blksize
    · rw [if_pos hfull]
      omega
    · have hrest : f.record_len % c.blksize = f.record_len - e * c.blksize := by
        have := Nat.mul_add_mod' e c.blksize (f.record_len - e * c.blksize)
        rw [Nat.add_sub_cancel' (Nat.le_of_lt hlt)] at this
        rw [this, Nat.mod_eq_of_lt (by omega)]
      rw [if_neg hfull, hrest]
      omega

/-- The records are not larger than a block, or there is only one. -/
def FixedFile.Fits (c : Device) (f : FixedFile) : Prop := f.record_len ≤ c.blksize ∨ f.nr_records ≤ 1

theorem FixedFile.Fits.first (h : f.Fits c) (hl : 0 < f.record_len) {e : Nat}
    (he : e * c.blksize < f.nr_records * f.record_len) :
    first_len c f (e * c.blksize) = continued c f (e * c.blksize) := by
  rcases Nat.lt_or_ge c.blksize f.record_len with hlarge | hsmall
  · have : f.nr_records * f.record_len ≤ 1 * f.record_len := Nat.mul_le_mul_right _ (h.resolve_left (by omega))
    exact first_len_first hlarge (by omega)
  · exact first_len_small hsmall hl

theorem at_init (hl : 0 < f.record_len) : At c f data 0 FixedScan.init := by
  have h0 : f.started 0 = 0 := by
    have := started_mul hl 0
    rwa [Nat.zero_mul] at this
  refine ⟨?_, ?_, rfl, fun _ => rfl⟩
  · rw [records_upto, h0]
    rfl
  · rw [h0, Nat.zero_mul]
    cases f.linefeed <;> rfl

theorem counted_init : Counted c data 0 FixedScan.init := by
  unfold Counted
  rw [Nat.zero_mod, ite_self]
  exact Nat.zero_mod _

variable (data) in
theorem scan_from_start (hb : 0 < c.blksize) (hl : 0 < f.record_len)
    (hblocks : ∀ b, b < f.nr_blocks ↔ b * c.blksize < f.nr_records * f.record_len) {k : Nat} (hk : k ≤ f.nr_blocks)
    (hfits : ∀ b < k, first_len c f (b * c.blksize) = continued c f (b * c.blksize)) :
    ∃ st, scan_blocks c f data k 0 0 FixedScan.init = .ok st ∧
      At c f data (min (k * c.blksize) (f.nr_records * f.record_len)) st ∧
      Counted c data (min (k * c.blksize) (f.nr_records * f.record_len)) st ∧ st.block = k := by
  have h := @scan_blocks_at c f data hb hl hblocks k 0 FixedScan.init
    (by rw [Nat.zero_mul, Nat.zero_min]; exact at_init hl) rfl (by omega)
    (by rw [Nat.zero_mul, Nat.zero_min]; exact counted_init) fun b _ hb₂ => hfits b (by omega)
  rwa [Nat.zero_add] at h

theorem blocks_end (hblocks : ∀ b, b < f.nr_blocks ↔ b * c.blksize < f.nr_records * f.record_len) :
    min (f.nr_blocks * c.blksize) (f.nr_records * f.record_len) = f.nr_records * f.record_len := by
  have := (hblocks f.nr_blocks).not.mp (Nat.lt_irrefl _)
  omega

variable (data) in
theorem full_scan (hb : 0 < c.blksize) (hl : 0 < f.record_len)
    (hblocks : ∀ b, b < f.nr_blocks ↔ b * c.blksize < f.nr_records * f.record_len) (hfit : f.Fits c) :
    ∃ st, scan_blocks c f data f.nr_blocks 0 0 FixedScan.init = .ok st ∧
      At c f data (f.nr_records * f.record_len) st ∧ Counted c data (f.nr_records * f.record_len) st := by
  obtain ⟨st, hscan, hat, hcnt, -⟩ := scan_from_start data hb hl hblocks (Nat.le_refl _)
    fun b hlt => hfit.first hl ((hblocks b).mp hlt)
  rw [blocks_end hblocks] at hat hcnt
  exact ⟨st, hscan, hat, hcnt⟩

/-! ## Starting again -/

theorem before_blocks (hb : 0 < c.blksize) (n b : Nat) :
    b < (f.before c n).nr_blocks ↔ b * c.blksize < (f.before c n).nr_records * (f.before c n).record_len := by
  show b < (n * f.record_len + c.blksize - 1) / c.blksize ↔ b * c.blksize < n * f.record_len
  rw [Nat.lt_div_iff_mul_lt hb]
  omega

theorem FixedFile.Fits.before (h : f.Fits c) {n : Nat} (hn : n ≤ f.nr_records) : (f.before c n).Fits c :=
  h.imp id fun h => Nat.le_trans hn h

/-- The state that the scan starts again with at record `k`. -/
def FixedScan.restarted (c : Device) (f : FixedFile) (k : Nat) (st : FixedScan) : FixedScan :=
  { st with
    rlist := st.rlist.dropLast
    block := k * f.record_len / c.blksize
    total := k * f.record_len + if f.linefeed then k - 1 else 0
    record_scan_state := .DATA_BLOCK_STARTED }

theorem update_records_eq (hb : 0 < c.blksize) (hl : 0 < f.record_len) {k : Nat} {st : FixedScan}
    (h : At c f data ((k + 1) * f.record_len) st) :
    update_records c f data st = scan_blocks c f data (f.nr_blocks - k * f.record_len / c.blksize)
      (k * f.record_len / c.blksize) (place c data (k * f.record_len) % c.blksize) (st.restarted c f k) := by
  have hlast : st.rlist.getLast? = some (fixed_record c f data k) := by
    rw [h.rlist, records_upto_mul hb hl, List.range_succ, List.map_append, List.map_singleton, List.getLast?_concat]
  have htotal : (if f.linefeed && (fixed_record c f data k).file_start ≠ 0 then (fixed_record c f
    data k).file_start - 1
      else (fixed_record c f data k).file_start) = k * f.record_len + if f.linefeed then k - 1 else 0 := by
    show (if f.linefeed && decide (k * f.record_len + (if f.linefeed then k else 0) ≠ 0) then
      k * f.record_len + (if f.linefeed then k else 0) - 1 else k * f.record_len + if f.linefeed then k else 0) = _
    cases f.linefeed with
    | false => rfl
    | true =>
      by_cases h0 : k = 0
      · subst h0
        simp
      · rw [Bool.true_and, if_pos rfl, if_pos rfl, if_pos (decide_eq_true (by omega))]
        omega
  unfold update_records
  rw [hlast]
  simp only [htotal]
  rfl

theorem restarted_at (hb : 0 < c.blksize) (hl : 0 < f.record_len) {k : Nat} {st : FixedScan}
    (h : At c f data ((k + 1) * f.record_len) st)
    (hctr : data (k * f.record_len / c.blksize) = NULL_BLOCK → st.null_ctr % c.blksize =
      k * f.record_len % c.blksize) :
    At c f data (k * f.record_len) (st.restarted c f k) := by
  refine ⟨?_, ?_, rfl, hctr⟩
  · unfold FixedScan.restarted
    rw [h.rlist, records_upto_mul hb hl, records_upto_mul hb hl, List.range_succ, List.map_append,
      List.map_singleton,
      List.dropLast_concat]
  · rw [started_mul hl]
    rfl

theorem restart_at (hb : 0 < c.blksize) (hl : 0 < f.record_len)
    (hblocks : ∀ b, b < f.nr_blocks ↔ b * c.blksize < f.nr_records * f.record_len) (hfit : f.Fits c) {k : Nat}
    {st : FixedScan} (hk : k < f.nr_records) (h : At c f data ((k + 1) * f.record_len) st)
    (hctr : data (k * f.record_len / c.blksize) = NULL_BLOCK → st.null_ctr % c.blksize =
      k * f.record_len % c.blksize)
    (hskip : place c data (k * f.record_len) % c.blksize = k * f.record_len % c.blksize)
    (hnull : data (k * f.record_len / c.blksize) = NULL_BLOCK → k * f.record_len % c.blksize = 0) :
    ∃ st', update_records c f data st = .ok st' ∧ st'.rlist = fixed_records c f data := by
  have hdiv := Nat.div_add_mod' (k * f.record_len) c.blksize
  have hmod := Nat.mod_lt (k * f.record_len) hb
  have hkN : (k + 1) * f.record_len ≤ f.nr_records * f.record_len := Nat.mul_le_mul_right _ hk
  rw [Nat.add_mul k, Nat.one_mul] at hkN
  have he : k * f.record_len / c.blksize < f.nr_blocks := (hblocks _).mpr (by omega)
  have hrest := restarted_at hb hl h hctr
  rw [update_records_eq hb hl h, hskip]
  generalize hst : st.restarted c f k = st₀ at *
  have hblock : st₀.block = k * f.record_len / c.blksize := by
    rw [← hst]
    rfl
  generalize k * f.record_len / c.blksize = e at *
  have hfirst : first_len c f (k * f.record_len) = continued c f (k * f.record_len) := by
    unfold first_len continued
    rw [if_neg (by rw [Nat.mul_mod_left]; exact fun h => h rfl), if_pos (Nat.mul_mod_left _ _)]
    rfl
  have hnext : e * c.blksize + c.blksize = (e + 1) * c.blksize := by rw [Nat.add_mul, Nat.one_mul]
  obtain ⟨st₁, hcache, hat, hcnt, hb₁⟩ := cache_at hb hl hrest hblock he (by omega) (by omega) (by omega)
    (.inr (Nat.mul_mod_left _ _)) hfirst
  obtain ⟨st₂, hrun, hat₂, -, -⟩ :=
    @scan_blocks_at c f data hb hl hblocks (f.nr_blocks - (e + 1)) _ _ hat hb₁ (by omega)
    hcnt
    fun b _ hlt => hfit.first hl ((hblocks b).mp (by omega))
  rw [Nat.add_sub_cancel' he, blocks_end hblocks] at hat₂
  have haddr : place c data (k * f.record_len) = data e + k * f.record_len % c.blksize := by
    have : k * f.record_len / c.blksize = e := block_of (by omega) (by omega)
    unfold place
    rw [this]
    split
    · next hn => rw [hn, hnull hn, Nat.add_zero]
    · rfl
  have hoff : k * f.record_len - e * c.blksize = k * f.record_len % c.blksize := by omega
  rw [haddr, hoff] at hcache
  refine ⟨st₂, ?_, ?_⟩
  · rw [show f.nr_blocks - e = f.nr_blocks - (e + 1) + 1 by omega, scan_blocks, hcache]
    exact hrun
  · rw [hat₂.rlist, records_upto_mul hb hl]
    rfl

theorem pieces_from_zero (steps b : Nat) : pieces_from c data steps 0 b = [] := by
  cases steps with
  | zero => rfl
  | succ steps => rw [pieces_from, if_pos rfl]

/-- The records from record `k` up to `j` are placed `p % blksize` bytes too early in the null block `e`. -/
structure Early (c : Device) (f : FixedFile) (data : Nat → Nat) (k e j left : Nat) (st : FixedScan) : Prop where
  le : k ≤ j
  rlist : st.rlist = (List.range j).map (fixed_record c f data)
  block : st.block = e
  in_data : st.in_data = true
  total : st.total = j * f.record_len + if f.linefeed then j - 1 else 0
  left : left + (j - k) * f.record_len = c.blksize
  null_ctr : st.null_ctr % c.blksize = (j + 1) * f.record_len % c.blksize

section
variable {k e : Nat} (hl : 0 < f.record_len) (he : k * f.record_len / c.blksize = e)

theorem Early.length {j left : Nat} {st : FixedScan} (h : Early c f data k e j left st) : st.rlist.length = j := by
  rw [h.rlist, List.length_map, List.length_range]

include he in
theorem early_place {j : Nat} (hkj : k ≤ j)
    (hin : k * f.record_len % c.blksize + (j - k) * f.record_len < c.blksize) :
    j * f.record_len / c.blksize = e ∧
      j * f.record_len % c.blksize = k * f.record_len % c.blksize + (j - k) * f.record_len := by
  have hdiv := Nat.div_add_mod' (k * f.record_len) c.blksize
  have hjl : j * f.record_len = k * f.record_len + (j - k) * f.record_len := by
    rw [← Nat.add_mul, Nat.add_sub_cancel' hkj]
  rw [he] at hdiv
  have hje : j * f.record_len / c.blksize = e := block_of (by omega) (by rw [Nat.add_mul, Nat.one_mul]; omega)
  have := Nat.div_add_mod' (j * f.record_len) c.blksize
  rw [hje] at this
  exact ⟨hje, by omega⟩

include he in
theorem Early.step (hp : k * f.record_len % c.blksize ≠ 0) (hnull : data e = NULL_BLOCK)
    {j left : Nat} {st : FixedScan}
    (h : Early c f data k e j left st)
    (hin : k * f.record_len % c.blksize + (j - k) * f.record_len + f.record_len < c.blksize) :
    Early c f data k e (j + 1) (left - f.record_len) (st.with_record c f NULL_BLOCK f.record_len) := by
  obtain ⟨hje, hjm⟩ := early_place he h.le (show _ < c.blksize by omega)
  have hleft := h.left
  have hctr : st.null_ctr % c.blksize = j * f.record_len % c.blksize + f.record_len := by
    have hdiv := Nat.div_add_mod' (j * f.record_len) c.blksize
    have := Nat.mul_add_mod' e c.blksize (j * f.record_len % c.blksize + f.record_len)
    rw [Nat.mod_eq_of_lt (show j * f.record_len % c.blksize + f.record_len < c.blksize by omega)] at this
    rw [h.null_ctr, ← this, Nat.add_mul, Nat.one_mul]
    rw [hje] at hdiv
    congr 1
    omega
  have hfirst : first_piece c f (j * f.record_len) = f.record_len := by
    unfold first_piece
    omega
  have hplace : place c data (j * f.record_len) = NULL_BLOCK := place_eq_null.2 (hje ▸ hnull)
  have htot : (if f.linefeed && st.rlist.length ≠ 0 then st.total + 1 else st.total) =
      j * f.record_len + if f.linefeed then j else 0 := by
    rw [h.total, h.length]
    cases f.linefeed with
    | false => rfl
    | true =>
      by_cases h0 : j = 0
      · subst h0
        rfl
      · rw [Bool.true_and, if_pos (decide_eq_true h0), if_pos rfl, if_pos rfl]
        omega
  have hrec : (⟨f.record_len, NULL_BLOCK, f.record_len, j * f.record_len + if f.linefeed then j else 0,
      null_started c NULL_BLOCK st, [], st.block⟩ : Record) = fixed_record c f data j := by
    unfold fixed_record null_started
    dsimp only
    rw [hplace, hfirst, Nat.sub_self, pieces_from_zero, hje, h.block, hctr,
      decide_eq_false (show ¬ j * f.record_len % c.blksize + f.record_len = 0 by omega),
      decide_eq_false (show ¬ j * f.record_len % c.blksize = 0 by omega), Bool.and_false, Bool.and_false]
  refine ⟨Nat.le_succ_of_le h.le, ?_, h.block, rfl, ?_, ?_, ?_⟩
  · unfold FixedScan.with_record
    rw [htot, h.rlist, List.range_succ, List.map_append, List.map_singleton, ← hrec]
  · show (if f.linefeed && st.rlist.length ≠ 0 then st.total + 1 else st.total) + f.record_len = _
    rw [htot, Nat.add_mul, Nat.one_mul, Nat.add_sub_cancel]
    exact Nat.add_right_comm _ _ _
  · rw [Nat.sub_add_comm h.le, Nat.add_mul, Nat.one_mul]
    omega
  · show null_ctr_after NULL_BLOCK f.record_len st % c.blksize = _
    unfold null_ctr_after
    rw [if_pos rfl, Nat.add_mod, h.null_ctr, ← Nat.add_mod, Nat.add_mul (j + 1), Nat.one_mul]

theorem place_records_next {steps left : Nat} {st : FixedScan} (hlen : st.rlist.length < f.nr_records)
    (hin : st.in_data = true) (hleft : f.record_len ≤ left) (hpart : record_part c f = f.record_len) :
    place_records c f (steps + 1) NULL_BLOCK left st =
      place_records c f steps NULL_BLOCK (left - f.record_len) (st.with_record c f NULL_BLOCK f.record_len) := by
  have heof : end_of_file f st ≠ true := fun h => by
    have := end_of_file_iff.1 h
    omega
  rw [place_records, hpart, if_pos hleft, if_neg heof, new_record_ok (by omega) hin]
  rfl

include hl he in
theorem place_records_early (hp : k * f.record_len % c.blksize ≠ 0)
    (hin : k * f.record_len % c.blksize + (f.nr_records - k) * f.record_len < c.blksize)
      (hnull : data e = NULL_BLOCK) :
    ∀ {steps j left : Nat} {st : FixedScan}, Early c f data k e j left st → j ≤ f.nr_records → left < steps →
      ∃ st', place_records c f steps NULL_BLOCK left st = .ok st' ∧ st'.rlist = fixed_records c f data
  | 0, _, _, _, _, _, hs => absurd hs (Nat.not_lt_zero _)
  | steps + 1, j, left, st, h, hj, hs => by
    have hleft := h.left
    have hjN : (j - k) * f.record_len ≤ (f.nr_records - k) * f.record_len := Nat.mul_le_mul_right _ (by omega)
    have hpart : record_part c f = min f.record_len c.blksize := record_part_eq
    by_cases hend : j = f.nr_records
    · have heof : end_of_file f st = true := end_of_file_iff.2 (by rw [h.length, hend])
      have hok : ∃ st', Except.ok st = (.ok st' : Except ScanStop FixedScan) ∧ st'.rlist = fixed_records c f data :=
        ⟨st, rfl, by rw [h.rlist, hend]; rfl⟩
      rw [place_records]
      by_cases hfits : record_part c f ≤ left
      · rw [if_pos hfits, if_pos heof]
        exact hok
      · rw [if_neg hfits, if_pos (show 0 < left by omega), if_pos heof]
        exact hok
    · have hjN' : (j - k + 1) * f.record_len ≤ (f.nr_records - k) * f.record_len :=
        Nat.mul_le_mul_right _ (by have := h.le; omega)
      rw [Nat.add_mul, Nat.one_mul] at hjN'
      rw [place_records_next (by rw [h.length]; omega) h.in_data (by omega) (by omega)]
      exact place_records_early hp hin hnull (h.step he hp hnull (by omega)) (by omega) (by omega)

theorem early_start (hb : 0 < c.blksize) (hl : 0 < f.record_len) {st : FixedScan}
    (he : k * f.record_len / c.blksize = e) (hnull : data e = NULL_BLOCK)
    (hin : k * f.record_len % c.blksize + f.record_len ≤ c.blksize) (h : At c f data ((k + 1) * f.record_len) st)
    (hcnt : Counted c data ((k + 1) * f.record_len) st) : Early c f data k e k c.blksize (st.restarted c f k) := by
  have hdiv := Nat.div_add_mod' (k * f.record_len) c.blksize
  have hlast : ((k + 1) * f.record_len - 1) / c.blksize = e := by
    rw [Nat.add_mul, Nat.one_mul]
    rw [he] at hdiv
    exact block_of (by omega) (by rw [Nat.add_mul, Nat.one_mul]; omega)
  unfold Counted at hcnt
  rw [hlast, if_pos hnull] at hcnt
  refine ⟨Nat.le_refl k, ?_, he, rfl, rfl, ?_, hcnt⟩
  · show st.rlist.dropLast = _
    rw [h.rlist, records_upto_mul hb hl, List.range_succ, List.map_append, List.map_singleton, List.dropLast_concat]
  · rw [Nat.sub_self, Nat.zero_mul]
    rfl

end

theorem restart_null (hb : 0 < c.blksize) (hl : 0 < f.record_len)
    (hblocks : ∀ b, b < f.nr_blocks ↔ b * c.blksize < f.nr_records * f.record_len) {k : Nat} {st : FixedScan}
    (hk : k < f.nr_records) (h : At c f data ((k + 1) * f.record_len) st)
    (hnull : data (k * f.record_len / c.blksize) = NULL_BLOCK) :
    update_records c f data st = (do
      let st₁ ← walk_fixed_data_block c f NULL_BLOCK 0 (st.restarted c f k)
      scan_blocks c f data (f.nr_blocks - (k * f.record_len / c.blksize + 1)) (k * f.record_len / c.blksize + 1) 0
        { st₁ with block := st₁.block + 1 }) := by
  have hdiv := Nat.div_add_mod' (k * f.record_len) c.blksize
  have hkN : (k + 1) * f.record_len ≤ f.nr_records * f.record_len := Nat.mul_le_mul_right _ hk
  rw [Nat.add_mul k, Nat.one_mul] at hkN
  have he : k * f.record_len / c.blksize < f.nr_blocks := (hblocks _).mpr (by omega)
  have hnd : ¬ (st.restarted c f k).done f := by
    have hlen : (st.restarted c f k).rlist.length = k := by
      show st.rlist.dropLast.length = k
      rw [List.length_dropLast, h.length hb hl, Nat.add_sub_cancel]
    have hblock : (st.restarted c f k).block = k * f.record_len / c.blksize := rfl
    unfold FixedScan.done FixedScan.record
    omega
  have hskip : place c data (k * f.record_len) % c.blksize = 0 := by
    rw [place_eq_null.2 hnull]
    exact Nat.zero_mod _
  rw [update_records_eq hb hl h, hskip]
  rw [show f.nr_blocks - k * f.record_len / c.blksize =
    f.nr_blocks - (k * f.record_len / c.blksize + 1) + 1 by omega,
    scan_blocks, hnull, cache_fixed_data_block, if_neg hnd]
  cases walk_fixed_data_block c f NULL_BLOCK 0 (st.restarted c f k) <;> rfl

theorem restart_early (hb : 0 < c.blksize) (hl : 0 < f.record_len)
    (hblocks : ∀ b, b < f.nr_blocks ↔ b * c.blksize < f.nr_records * f.record_len) {k : Nat} {st : FixedScan}
    (hk : k < f.nr_records) (h : At c f data ((k + 1) * f.record_len) st)
    (hcnt : Counted c data ((k + 1) * f.record_len) st) (hnull : data (k * f.record_len / c.blksize) = NULL_BLOCK)
    (hp : k * f.record_len % c.blksize ≠ 0) (hdvd : f.record_len ∣ k * f.record_len % c.blksize)
    (hin : k * f.record_len % c.blksize + (f.nr_records - k) * f.record_len < c.blksize) :
    ∃ st', update_records c f data st = .ok st' ∧ st'.rlist = fixed_records c f data := by
  have hdiv := Nat.div_add_mod' (k * f.record_len) c.blksize
  have hone : 1 * f.record_len ≤ (f.nr_records - k) * f.record_len := Nat.mul_le_mul_right _ (by omega)
  have hstart := early_start hb hl rfl hnull (by omega) h hcnt
  have hall : f.nr_records * f.record_len = k * f.record_len + (f.nr_records - k) * f.record_len := by
    rw [← Nat.add_mul, Nat.add_sub_cancel' (Nat.le_of_lt hk)]
  have hlast : f.nr_blocks ≤ k * f.record_len / c.blksize + 1 := by
    refine Nat.le_of_not_lt fun hlt => ?_
    have := (hblocks _).mp hlt
    rw [Nat.add_mul, Nat.one_mul] at this
    omega
  have hfirst : first_len c f (k * f.record_len / c.blksize * c.blksize + 0) = 0 := by
    have : f.record_len ∣ k * f.record_len / c.blksize * c.blksize := by
      refine (Nat.dvd_add_left hdvd).mp ?_
      rw [hdiv]
      exact Nat.dvd_mul_left _ _
    unfold first_len
    rw [Nat.add_zero, Nat.mod_eq_zero_of_dvd this, if_neg (fun h => h rfl)]
  obtain ⟨st₁, hplace, hlist⟩ := place_records_early hl rfl hp hin hnull hstart (Nat.le_of_lt hk)
    (Nat.lt_succ_self _)
  have hwalk : walk_fixed_data_block c f NULL_BLOCK 0 (st.restarted c f k) = .ok st₁ := by
    have hblock : (st.restarted c f k).block = k * f.record_len / c.blksize := rfl
    unfold walk_fixed_data_block
    rw [hblock, hfirst]
    exact hplace
  rw [restart_null hb hl hblocks hk h hnull, hwalk, Nat.sub_eq_zero_of_le hlast]
  exact ⟨_, rfl, hlist⟩

/-! ## Records that stay wrong -/

/-- The records are kept, up to further pieces of them. -/
def Kept (st st' : FixedScan) : Prop :=
  ∀ (j : Nat) (r : Record), st.rlist[j]? = some r → ∃ es, st'.rlist[j]? = some { r with ext := r.ext ++ es }

theorem Kept.refl (st : FixedScan) : Kept st st := fun _ r h => ⟨[], by rw [List.append_nil]; exact h⟩

theorem Kept.trans {st₁ st₂ st₃ : FixedScan} (h₁ : Kept st₁ st₂) (h₂ : Kept st₂ st₃) : Kept st₁ st₃ := by
  intro j r h
  obtain ⟨es, hes⟩ := h₁ j r h
  obtain ⟨es', hes'⟩ := h₂ j _ hes
  exact ⟨es ++ es', by rw [hes', List.append_assoc]⟩

theorem kept_of_extends {st st' : FixedScan} (h : st.rlist <+: st'.rlist) : Kept st st' := by
  intro j r hj
  obtain ⟨l, hl⟩ := h
  refine ⟨[], ?_⟩
  rw [List.append_nil, ← hl, List.getElem?_append_left (List.getElem?_eq_some_iff.mp hj).1]
  exact hj

theorem new_record_inv {addr len : Nat} {st st' : FixedScan} (h : new_record c f addr len st = .ok st') :
    st' = st.with_record c f addr len := by
  by_cases hfull : f.nr_records ≠ 0 ∧ f.nr_records = st.rlist.length
  · unfold new_record set_record_len at h
    rw [if_pos hfull] at h
    cases h
  · cases hdata : st.in_data with
    | false =>
      unfold new_record set_record_len at h
      rw [if_neg hfull, if_pos hdata] at h
      cases h
    | true =>
      rw [new_record_ok hfull hdata] at h
      exact (Except.ok.inj h).symm

theorem set_record_extension_inv {addr len : Nat} {st st' : FixedScan}
    (h : set_record_extension c f addr len st = .ok st') :
    ∃ r, st.rlist.getLast? = some r ∧ st' = st.with_extension c addr len r := by
  unfold set_record_extension at h
  by_cases hdata : st.in_data = false
  · rw [if_pos hdata] at h
    cases h
  · rw [if_neg hdata] at h
    by_cases hrec : st.record ≥ f.nr_records
    · rw [if_pos hrec] at h
      cases h
    · rw [if_neg hrec] at h
      cases hlast : st.rlist.getLast? with
      | none =>
        rw [hlast] at h
        cases h
      | some r =>
        rw [hlast] at h
        exact ⟨r, rfl, (Except.ok.inj h).symm⟩

theorem with_extension_get (addr len : Nat) (r : Record) (st : FixedScan) :
    (st.with_extension c addr len r).rlist[st.rlist.length - 1]? =
      some { r with ext := r.ext ++ [⟨addr, len, null_started c addr st, st.block⟩] } := by
  unfold FixedScan.with_extension
  rw [← List.length_dropLast, List.getElem?_concat_length]

theorem with_extension_kept {addr len : Nat} {r : Record} {st : FixedScan} (hlast : st.rlist.getLast? = some r) :
    Kept st (st.with_extension c addr len r) := by
  intro j x hj
  have hlt := (List.getElem?_eq_some_iff.mp hj).1
  by_cases heq : j = st.rlist.length - 1
  · have : x = r := by
      rw [List.getLast?_eq_getElem?, ← heq, hj] at hlast
      exact Option.some.inj hlast
    rw [heq, this]
    exact ⟨_, with_extension_get _ _ _ _⟩
  · refine ⟨[], ?_⟩
    unfold FixedScan.with_extension
    rw [List.getElem?_append_left (by rw [List.length_dropLast]; omega), List.getElem?_dropLast,
      if_pos (by omega), List.append_nil]
    exact hj

theorem place_records_extends : ∀ {steps addr left : Nat} {st st' : FixedScan},
    place_records c f steps addr left st = .ok st' → st.rlist <+: st'.rlist ∧ st'.block = st.block
  | 0, _, _, _, _, h => by
    cases h
    exact ⟨List.prefix_refl _, rfl⟩
  | steps + 1, addr, left, st, st', h => by
    rw [place_records] at h
    by_cases hfit : record_part c f ≤ left
    · rw [if_pos hfit] at h
      by_cases heof : end_of_file f st = true
      · rw [if_pos heof] at h
        cases h
        exact ⟨List.prefix_refl _, rfl⟩
      · rw [if_neg heof] at h
        obtain ⟨st₁, hnew, hrest⟩ := Run.bind_eq_ok h
        have hone : st.rlist <+: st₁.rlist ∧ st₁.block = st.block := by
          rw [new_record_inv hnew]
          exact ⟨List.prefix_append _ _, rfl⟩
        obtain ⟨hpre, hblock⟩ := place_records_extends hrest
        exact ⟨hone.1.trans hpre, hblock.trans hone.2⟩
    · rw [if_neg hfit] at h
      by_cases hpos : 0 < left
      · rw [if_pos hpos] at h
        by_cases heof : end_of_file f st = true
        · rw [if_pos heof] at h
          cases h
          exact ⟨List.prefix_refl _, rfl⟩
        · rw [if_neg heof] at h
          rw [new_record_inv h]
          exact ⟨List.prefix_append _ _, rfl⟩
      · rw [if_neg hpos] at h
        cases h
        exact ⟨List.prefix_refl _, rfl⟩

theorem walk_extends {addr disp : Nat} {st st' : FixedScan} (h : walk_fixed_data_block c f addr disp st = .ok st')
    (hfirst : first_len c f (st.block * c.blksize + disp) = 0) : st.rlist <+: st'.rlist ∧ st'.block = st.block := by
  unfold walk_fixed_data_block at h
  rw [hfirst] at h
  exact place_records_extends h

theorem walk_kept {addr disp : Nat} {st st' : FixedScan} (h : walk_fixed_data_block c f addr disp st = .ok st') :
    Kept st st' := by
  by_cases hzero : first_len c f (st.block * c.blksize + disp) = 0
  · exact kept_of_extends (walk_extends h hzero).1
  · unfold walk_fixed_data_block at h
    dsimp only at h
    by_cases hneg : first_len c f (st.block * c.blksize + disp) < 0
    · rw [if_pos hneg] at h
      cases h
    · rw [if_neg hneg, if_neg hzero] at h
      by_cases hbug : first_len c f (st.block * c.blksize + disp) > ((c.blksize - disp : Nat) : Int)
      · rw [if_pos hbug] at h
        cases h
      · rw [if_neg hbug] at h
        obtain ⟨st₁, hext, hrest⟩ := Run.bind_eq_ok h
        obtain ⟨r, hlast, rfl⟩ := set_record_extension_inv hext
        exact (with_extension_kept hlast).trans (kept_of_extends (place_records_extends hrest).1)

theorem cache_block {addr disp : Nat} {st st' : FixedScan} (h : cache_fixed_data_block c f addr disp st = .ok st') :
    st' = st ∨ ∃ st₁, walk_fixed_data_block c f addr disp st = .ok st₁ ∧
      st' = { st₁ with block := st₁.block + 1 } := by
  unfold cache_fixed_data_block at h
  by_cases hdone : st.done f
  · rw [if_pos hdone] at h
    exact .inl (Except.ok.inj h).symm
  · rw [if_neg hdone] at h
    obtain ⟨st₁, hwalk, hrest⟩ := Run.bind_eq_ok h
    exact .inr ⟨st₁, hwalk, (Except.ok.inj hrest).symm⟩

theorem scan_blocks_kept : ∀ {left i skip : Nat} {st st' : FixedScan},
    scan_blocks c f data left i skip st = .ok st' →
    Kept st st'
  | 0, _, _, _, _, h => by
    cases h
    exact Kept.refl _
  | left + 1, i, skip, st, st', h => by
    obtain ⟨st₁, hcache, hrest⟩ := Run.bind_eq_ok h
    have hone : Kept st st₁ := by
      rcases cache_block hcache with rfl | ⟨st₂, hwalk, rfl⟩
      · exact Kept.refl _
      · have hkept : Kept st st₂ := walk_kept hwalk
        exact hkept
    exact hone.trans (scan_blocks_kept hrest)

/-- A record of the scan that no further pieces can make the record of the file. -/
def Wrong (c : Device) (f : FixedFile) (data : Nat → Nat) (st : FixedScan) : Prop :=
  ∃ j r, st.rlist[j]? = some r ∧ (r.first_block_len ≠ (fixed_record c f data j).first_block_len ∨
    r.null_block_started ≠ (fixed_record c f data j).null_block_started ∨ ¬ r.ext <+: (fixed_record c f data j).ext)

theorem Wrong.kept {st st' : FixedScan} (h : Wrong c f data st) (hk : Kept st st') : Wrong c f data st' := by
  obtain ⟨j, r, hj, hr⟩ := h
  obtain ⟨es, hes⟩ := hk j r hj
  refine ⟨j, _, hes, ?_⟩
  rcases hr with h | h | h
  · exact .inl h
  · exact .inr (.inl h)
  · exact .inr (.inr fun hpre => h ((List.prefix_append _ _).trans hpre))

theorem Wrong.ne {st : FixedScan} (h : Wrong c f data st) : st.rlist ≠ fixed_records c f data := by
  obtain ⟨j, r, hj, hr⟩ := h
  intro heq
  have hlt := (List.getElem?_eq_some_iff.mp hj).1
  rw [heq, fixed_records, List.length_map, List.length_range] at hlt
  rw [heq, fixed_records, List.getElem?_map, List.getElem?_range hlt] at hj
  have hre : r = fixed_record c f data j := (Option.some.inj hj).symm
  rw [hre] at hr
  rcases hr with h | h | h
  · exact h rfl
  · exact h rfl
  · exact h (List.prefix_refl _)

theorem wrong_extension {addr len : Nat} {r : Record} {st : FixedScan}
    (h : ¬ r.ext ++ [⟨addr, len, null_started c addr st, st.block⟩] <+:
      (fixed_record c f data (st.rlist.length - 1)).ext) :
    Wrong c f data (st.with_extension c addr len r) :=
  ⟨_, _, with_extension_get addr len r st, .inr (.inr h)⟩

theorem scan_blocks_append : ∀ (a b i : Nat) (st : FixedScan), scan_blocks c f data (a + b) i 0 st =
    scan_blocks c f data a i 0 st >>= fun st => scan_blocks c f data b (i + a) 0 st
  | 0, b, i, st => by
    rw [Nat.zero_add]
    rfl
  | a + 1, b, i, st => by
    rw [show a + 1 + b = a + b + 1 by omega, scan_blocks, scan_blocks]
    cases cache_fixed_data_block c f (data i + 0) 0 st with
    | error e => rfl
    | ok st₁ =>
      have := scan_blocks_append a b (i + 1) st₁
      rw [show i + 1 + a = i + (a + 1) by omega] at this
      exact this

theorem scan_blocks_extends {e : Nat} (hzero : ∀ b, e ≤ b → first_len c f (b * c.blksize) = 0) :
    ∀ {left i : Nat} {st st' : FixedScan}, scan_blocks c f data left i 0 st = .ok st' → e ≤ st.block →
      st.rlist <+: st'.rlist
  | 0, _, _, _, h, _ => by
    cases h
    exact List.prefix_refl _
  | left + 1, i, st, st', h, he => by
    obtain ⟨st₁, hcache, hrest⟩ := Run.bind_eq_ok h
    have hone : st.rlist <+: st₁.rlist ∧ e ≤ st₁.block := by
      rcases cache_block hcache with rfl | ⟨st₂, hwalk, rfl⟩
      · exact ⟨List.prefix_refl _, he⟩
      · obtain ⟨hpre, hblock⟩ := walk_extends hwalk (hzero _ he)
        exact ⟨hpre, Nat.le_succ_of_le (hblock ▸ he)⟩
    exact hone.1.trans (scan_blocks_extends hzero hrest hone.2)

theorem first_len_large {e : Nat} (hlarge : c.blksize < f.record_len) (he : f.record_len < e * c.blksize) :
    first_len c f (e * c.blksize) =
      ((if e * c.blksize % f.record_len = 0 then 0 else f.record_len % c.blksize : Nat) : Int) := by
  unfold first_len record_part
  by_cases hmod : e * c.blksize % f.record_len = 0
  · rw [if_neg (by omega), if_pos hmod]
    rfl
  · rw [if_pos hmod, if_neg hmod, if_neg (by omega), if_pos hlarge, Nat.mul_mod_left]
    omega

theorem second_start (hb : 0 < c.blksize) (hlarge : c.blksize < f.record_len) :
    f.record_len < (f.record_len / c.blksize + 1) * c.blksize ∧
      (f.record_len / c.blksize + 1) * c.blksize + f.record_len % c.blksize = f.record_len + c.blksize ∧
      (f.record_len / c.blksize + 1) * c.blksize < 2 * f.record_len := by
  have hdiv := Nat.div_add_mod' f.record_len c.blksize
  have hmod := Nat.mod_lt f.record_len hb
  rw [Nat.add_mul, Nat.one_mul]
  omega

theorem scan_large (hb : 0 < c.blksize) (hblocks : ∀ b, b < f.nr_blocks ↔
    b * c.blksize < f.nr_records * f.record_len)
    (hlarge : c.blksize < f.record_len) (hn : 2 ≤ f.nr_records) {st : FixedScan}
    (h : scan_blocks c f data f.nr_blocks 0 0 FixedScan.init = .ok st) : st.rlist ≠ fixed_records c f data := by
  have hl : 0 < f.record_len := by omega
  have hmod := Nat.mod_lt f.record_len hb
  obtain ⟨h₁, h₂, h₃⟩ := second_start hb hlarge
  have htwo : 2 * f.record_len ≤ f.nr_records * f.record_len := Nat.mul_le_mul_right _ hn
  have hdiv := Nat.div_add_mod' f.record_len c.blksize
  have hin : f.record_len / c.blksize + 1 < f.nr_blocks := (hblocks _).mpr (by omega)
  -- up to the end of the first block of the second record all is well
  obtain ⟨st₁, hscan, hat, -, hblock⟩ := scan_from_start data hb hl hblocks (Nat.le_of_lt hin) fun b hlt =>
    first_len_first hlarge (Nat.le_trans (Nat.mul_le_mul_right _ (Nat.le_of_lt_succ hlt)) (Nat.div_mul_le_self _ _))
  rw [Nat.min_eq_left (by omega)] at hat
  rw [show f.nr_blocks = f.record_len / c.blksize + 1 +
      (f.nr_blocks - (f.record_len / c.blksize + 1)) by omega] at h
  have hrest : scan_blocks c f data (f.nr_blocks - (f.record_len / c.blksize + 1))
    (f.record_len / c.blksize + 1) 0 st₁ =
      .ok st := by
    rw [scan_blocks_append, hscan, Nat.zero_add] at h
    exact h
  have hcut := cut_first (c := c) (f := f) data (i := 1) (x := (f.record_len / c.blksize + 1) * c.blksize)
    (by rw [Nat.one_mul]) hb
  have hlist := hat.rlist
  have hpos : (f.record_len / c.blksize + 1) * c.blksize =
    1 * f.record_len + (c.blksize - f.record_len % c.blksize) := by
    omega
  have hupto := records_upto_inside (c := c) (f := f) data hb (k := 1) (y := c.blksize - f.record_len % c.blksize)
    (by omega) (by omega)
  rw [← hpos, hcut] at hupto
  rw [hupto] at hlist
  have hlen : st₁.rlist.length = 2 := by
    rw [hlist]
    rfl
  have hget : st₁.rlist[1]? = some { fixed_record c f data 1 with ext := [] } := by
    rw [hlist]
    rfl
  have hmod₁ : (f.record_len / c.blksize + 1) * c.blksize % f.record_len ≠ 0 := by
    rw [hpos, Nat.one_mul, Nat.add_mod_left, Nat.mod_eq_of_lt (by omega)]
    omega
  -- the record has a piece in the next block
  have hdivL : 1 * f.record_len / c.blksize = f.record_len / c.blksize := by rw [Nat.one_mul]
  have hfp : first_piece c f (1 * f.record_len) = c.blksize - f.record_len % c.blksize := by
    unfold first_piece
    rw [Nat.one_mul]
    omega
  have hext := fixed_record_ext (c := c) (f := f) data hb 1
  rw [hfp, hdivL] at hext
  have hcount : 0 < (f.record_len - (c.blksize - f.record_len % c.blksize) + c.blksize - 1) / c.blksize :=
    Nat.div_pos (by omega) hb
  have hhead : (fixed_record c f data 1).ext[0]? = some (piece c data
      (f.record_len - (c.blksize - f.record_len % c.blksize)) (f.record_len / c.blksize + 1) 0) := by
    rw [hext, List.getElem?_map, List.getElem?_range hcount]
    rfl
  by_cases hzero : f.record_len % c.blksize = 0
  · -- no later block has a first piece
    have hpre := scan_blocks_extends (e := f.record_len / c.blksize + 1) (fun b hle => by
      have hlt : f.record_len < b * c.blksize := Nat.lt_of_lt_of_le h₁ (Nat.mul_le_mul_right _ hle)
      rw [first_len_large hlarge hlt, hzero, ite_self]
      rfl) hrest (by omega)
    intro heq
    have hone : st.rlist[1]? = st₁.rlist[1]? := by
      obtain ⟨l, hl'⟩ := hpre
      rw [← hl', List.getElem?_append_left (by omega)]
    rw [hget, heq, fixed_records, List.getElem?_map, List.getElem?_range (by omega)] at hone
    rw [Option.some.inj hone] at hhead
    cases hhead
  · obtain ⟨rest, hrest_eq⟩ : ∃ rest, f.nr_blocks - (f.record_len / c.blksize + 1) = rest + 1 :=
      ⟨_, (Nat.sub_add_cancel (by omega)).symm⟩
    rw [hrest_eq, scan_blocks] at hrest
    obtain ⟨st₂, hcache, hlater⟩ := Run.bind_eq_ok hrest
    rw [cache_fixed_data_block, if_neg (hat.not_done hl (hblock ▸ hin) (by omega))] at hcache
    obtain ⟨st₃, hwalk, hst₂⟩ := Run.bind_eq_ok hcache
    have hfirst := first_len_large hlarge h₁
    rw [if_neg hmod₁] at hfirst
    unfold walk_fixed_data_block at hwalk
    rw [hblock, Nat.add_zero, hfirst] at hwalk
    dsimp only at hwalk
    rw [if_neg (by omega), if_neg (by omega), if_neg (by omega)] at hwalk
    obtain ⟨st₄, hset, hplace⟩ := Run.bind_eq_ok hwalk
    obtain ⟨r, hlast, rfl⟩ := set_record_extension_inv hset
    have hr : r = { fixed_record c f data 1 with ext := [] } := by
      rw [List.getLast?_eq_getElem?, hlen, hget] at hlast
      exact (Option.some.inj hlast).symm
    have hwrong := @wrong_extension c f data (data (f.record_len / c.blksize + 1) + 0)
        ((f.record_len % c.blksize : Nat) : Int).toNat r st₁ fun hpre => by
      -- its length is not that of the piece
      rw [hr, hlen, List.nil_append] at hpre
      obtain ⟨l, hl'⟩ := hpre
      rw [← hl'] at hhead
      have hlen' := congrArg RecordExt.len (Option.some.inj hhead)
      simp only [piece, Nat.zero_mul, Nat.sub_zero, Int.toNat_natCast] at hlen'
      omega
    refine (hwrong.kept (kept_of_extends (place_records_extends hplace).1)).kept ?_ |>.ne
    have hkept := scan_blocks_kept hlater
    rw [← Except.ok.inj hst₂] at hkept
    exact hkept

theorem wrong_record {addr len : Nat} {st : FixedScan}
    (h : len ≠ (fixed_record c f data st.rlist.length).first_block_len ∨
    null_started c addr st ≠ (fixed_record c f data st.rlist.length).null_block_started) :
    Wrong c f data (st.with_record c f addr len) :=
  ⟨_, _, List.getElem?_concat_length, h.elim .inl fun h => .inr (.inl h)⟩

/-- When the records from record `k` on reach the end of the block, the one that does is wrong. -/
theorem place_records_late {k e : Nat} (hl : 0 < f.record_len) (he : k * f.record_len / c.blksize = e)
    (hp : f.record_len ≤ k * f.record_len % c.blksize) (hnull : data e = NULL_BLOCK)
    (hout : c.blksize ≤ k * f.record_len % c.blksize + (f.nr_records - k) * f.record_len) :
    ∀ {steps j left : Nat} {st st' : FixedScan}, Early c f data k e j left st →
      k * f.record_len % c.blksize + (j - k) * f.record_len < c.blksize → left < steps →
      place_records c f steps NULL_BLOCK left st = .ok st' → Wrong c f data st'
  | 0, _, _, _, _, _, _, hs, _ => absurd hs (Nat.not_lt_zero _)
  | steps + 1, j, left, st, st', h, hin, hs, hok => by
    have hleft := h.left
    have hkj := h.le
    obtain ⟨hje, hjm⟩ := early_place he h.le hin
    have hpart : record_part c f = min f.record_len c.blksize := record_part_eq
    have hj : j < f.nr_records := by
      refine Nat.lt_of_not_le fun hle => ?_
      have : (f.nr_records - k) * f.record_len ≤ (j - k) * f.record_len := Nat.mul_le_mul_right _ (by omega)
      omega
    rw [place_records_next (by rw [h.length]; exact hj) h.in_data (by omega) (by omega)] at hok
    by_cases hnext : k * f.record_len % c.blksize + (j - k) * f.record_len + f.record_len < c.blksize
    · have hj1 : (j + 1 - k) * f.record_len = (j - k) * f.record_len + f.record_len := by
        rw [Nat.sub_add_comm h.le, Nat.add_mul, Nat.one_mul]
      exact place_records_late hl he hp hnull hout (h.step he (by omega) hnull hnext) (by omega) (by omega) hok
    · refine Wrong.kept (wrong_record ?_) (kept_of_extends (place_records_extends hok).1)
      rw [h.length]
      have hmod := Nat.mod_lt (j * f.record_len) (show 0 < c.blksize by omega)
      by_cases hfit : j * f.record_len % c.blksize + f.record_len = c.blksize
      · -- the piece has the right length, and it is taken for the start of a null block
        right
        have hctr : st.null_ctr % c.blksize = 0 := by
          have hdiv := Nat.div_add_mod' (j * f.record_len) c.blksize
          rw [hje] at hdiv
          rw [h.null_ctr, Nat.add_mul, Nat.one_mul, ← hdiv, Nat.add_assoc, hfit, ← Nat.succ_mul, Nat.mul_mod_left]
        have hright : (fixed_record c f data j).null_block_started = false := by
          show (decide (data (j * f.record_len / c.blksize) = NULL_BLOCK)
            && decide (j * f.record_len % c.blksize = 0)) = false
          rw [decide_eq_false (show ¬ j * f.record_len % c.blksize = 0 by omega), Bool.and_false]
        rw [hright, null_started, hctr]
        decide
      · left
        have hright : (fixed_record c f data j).first_block_len = c.blksize - j * f.record_len % c.blksize := by
          show min f.record_len (c.blksize - j * f.record_len % c.blksize) = _
          omega
        rw [hright]
        omega

theorem restart_wrong (hb : 0 < c.blksize) (hl : 0 < f.record_len)
    (hblocks : ∀ b, b < f.nr_blocks ↔ b * c.blksize < f.nr_records * f.record_len) (hfit : f.Fits c) {k : Nat}
    {st st' : FixedScan} (hk : k < f.nr_records) (h : At c f data ((k + 1) * f.record_len) st)
    (hcnt : Counted c data ((k + 1) * f.record_len) st) (hnot : ¬ RestartFits c f data (k + 1))
    (hok : update_records c f data st = .ok st') : Wrong c f data st' := by
  unfold RestartFits at hnot
  rw [Nat.add_sub_cancel] at hnot
  push Not at hnot
  obtain ⟨-, hnull, hzero, hrest⟩ := hnot
  rw [restart_null hb hl hblocks hk h hnull] at hok
  obtain ⟨st₁, hwalk, hlater⟩ := Run.bind_eq_ok hok
  have hkept : Kept st₁ st' := fun j r hj => scan_blocks_kept hlater j r hj
  suffices hwrong : Wrong c f data st₁ from hwrong.kept hkept
  have hdiv := Nat.div_add_mod' (k * f.record_len) c.blksize
  have hmod := Nat.mod_lt (k * f.record_len) hb
  have hblock : (st.restarted c f k).block = k * f.record_len / c.blksize := rfl
  have hlist : (st.restarted c f k).rlist = (List.range k).map (fixed_record c f data) := by
    show st.rlist.dropLast = _
    rw [h.rlist, records_upto_mul hb hl, List.range_succ, List.map_append, List.map_singleton, List.dropLast_concat]
  have hlen : (st.restarted c f k).rlist.length = k := by rw [hlist, List.length_map, List.length_range]
  have hdvd : f.record_len ∣ k * f.record_len / c.blksize * c.blksize ↔
    f.record_len ∣ k * f.record_len % c.blksize := by
    have hx : f.record_len ∣ k * f.record_len / c.blksize * c.blksize + k * f.record_len % c.blksize := by
      rw [hdiv]
      exact Nat.dvd_mul_left _ _
    exact ⟨fun h => (Nat.dvd_add_right h).mp hx, fun h => (Nat.dvd_add_left h).mp hx⟩
  unfold walk_fixed_data_block at hwalk
  rw [hblock, Nat.add_zero] at hwalk
  dsimp only at hwalk
  by_cases hfirst : f.record_len ∣ k * f.record_len % c.blksize
  · have hf0 : first_len c f (k * f.record_len / c.blksize * c.blksize) = 0 := by
      unfold first_len
      rw [Nat.mod_eq_zero_of_dvd (hdvd.mpr hfirst), if_neg (fun h => h rfl)]
    rw [hf0, if_neg (by omega), if_pos rfl] at hwalk
    by_cases hp : k * f.record_len % c.blksize = 0
    · -- the record starts the block, but the counter says otherwise
      obtain ⟨hlast, hend⟩ := hzero hp
      unfold Counted at hcnt
      rw [hlast, if_pos rfl] at hcnt
      rw [place_records] at hwalk
      have heof : end_of_file f (st.restarted c f k) ≠ true := fun h => by
        have := end_of_file_iff.1 h
        omega
      have hpart : record_part c f = min f.record_len c.blksize := record_part_eq
      rw [if_pos (by omega), if_neg heof] at hwalk
      obtain ⟨st₂, hnew, hplace⟩ := Run.bind_eq_ok hwalk
      rw [new_record_inv hnew] at hplace
      refine Wrong.kept (wrong_record (.inr ?_)) (kept_of_extends (place_records_extends hplace).1)
      rw [hlen]
      have hright : (fixed_record c f data k).null_block_started = true := by
        show (decide (data (k * f.record_len / c.blksize) = NULL_BLOCK)
          && decide (k * f.record_len % c.blksize = 0)) = true
        rw [hnull, hp]
        rfl
      have hflag : null_started c NULL_BLOCK (st.restarted c f k) = false := by
        show (decide (NULL_BLOCK = NULL_BLOCK) && decide (st.null_ctr % c.blksize = 0)) = false
        rw [hcnt, decide_eq_false hend, Bool.and_false]
      rw [hright, hflag]
      decide
    · have hle : f.record_len ≤ k * f.record_len % c.blksize := Nat.le_of_dvd (Nat.pos_of_ne_zero hp) hfirst
      by_cases hin : k * f.record_len % c.blksize + f.record_len ≤ c.blksize
      · refine place_records_late hl rfl hle hnull (hrest hp hfirst) (early_start hb hl rfl hnull hin h hcnt) ?_
          (Nat.lt_succ_self _) hwalk
        rw [Nat.sub_self, Nat.zero_mul]
        omega
      · -- the record itself goes on in the next block
        have hpart : record_part c f = min f.record_len c.blksize := record_part_eq
        have heof : end_of_file f (st.restarted c f k) ≠ true := fun h => by
          have := end_of_file_iff.1 h
          omega
        rw [place_records, if_pos (by omega), if_neg heof] at hwalk
        obtain ⟨st₂, hnew, hplace⟩ := Run.bind_eq_ok hwalk
        rw [new_record_inv hnew] at hplace
        refine Wrong.kept (wrong_record (.inl ?_)) (kept_of_extends (place_records_extends hplace).1)
        rw [hlen]
        show record_part c f ≠ min f.record_len (c.blksize - k * f.record_len % c.blksize)
        omega
  · -- the record before gets another piece
    have hsmall : f.record_len ≤ c.blksize := by
      refine hfit.resolve_right fun hone => hfirst ?_
      have : k = 0 := by omega
      rw [this, Nat.zero_mul, Nat.zero_mod]
      exact Nat.dvd_zero _
    have hf := first_len_small (c := c) (f := f) (e := k * f.record_len / c.blksize) hsmall hl
    have hmod₁ : k * f.record_len / c.blksize * c.blksize % f.record_len ≠ 0 := fun h0 =>
      hfirst (hdvd.mp (Nat.dvd_of_mod_eq_zero h0))
    have hpos : 0 < continued c f (k * f.record_len / c.blksize * c.blksize) := by
      have hdiv₁ := Nat.div_add_mod' (k * f.record_len / c.blksize * c.blksize) f.record_len
      have hmod₂ := Nat.mod_lt (k * f.record_len / c.blksize * c.blksize) hl
      rw [continued, if_neg hmod₁, Nat.add_mul, Nat.one_mul]
      omega
    have hle : continued c f (k * f.record_len / c.blksize * c.blksize) ≤ c.blksize := by
      rw [continued, if_neg hmod₁]
      exact Nat.min_le_right _ _
    rw [hf, if_neg (by omega), if_neg (by omega), if_neg (by omega)] at hwalk
    obtain ⟨st₂, hset, hplace⟩ := Run.bind_eq_ok hwalk
    obtain ⟨r, hlast, rfl⟩ := set_record_extension_inv hset
    refine Wrong.kept (wrong_extension fun hpre => ?_) (kept_of_extends (place_records_extends hplace).1)
    have hr : r = fixed_record c f data (k - 1) := by
      have hlt : k - 1 < k := by
        refine Nat.sub_lt (Nat.pos_of_ne_zero fun h0 => hfirst ?_) Nat.one_pos
        rw [h0, Nat.zero_mul, Nat.zero_mod]
        exact Nat.dvd_zero _
      rw [List.getLast?_eq_getElem?, hlen, hlist, List.getElem?_map, List.getElem?_range hlt] at hlast
      exact (Option.some.inj hlast).symm
    have hlength := hpre.length_le
    rw [hr, hlen, List.length_append, List.length_singleton] at hlength
    omega

/-! ## The walk over the pointer blocks -/

theorem place_records_length : ∀ {steps addr left : Nat} {st st' : FixedScan},
    place_records c f steps addr left st = .ok st' → st.rlist.length ≤ f.nr_records →
      st'.rlist.length ≤ f.nr_records
  | 0, _, _, _, _, h, hle => by
    cases h
    exact hle
  | steps + 1, addr, left, st, st', h, hle => by
    have hnew : ∀ {addr len}, ¬ end_of_file f st = true →
      (st.with_record c f addr len).rlist.length ≤ f.nr_records := by
      intro addr len heof
      rw [end_of_file_iff] at heof
      show (st.rlist ++ [_]).length ≤ _
      rw [List.length_append, List.length_singleton]
      omega
    rw [place_records] at h
    by_cases hfit : record_part c f ≤ left
    · rw [if_pos hfit] at h
      by_cases heof : end_of_file f st = true
      · rw [if_pos heof] at h
        cases h
        exact hle
      · rw [if_neg heof] at h
        obtain ⟨st₁, hok, hrest⟩ := Run.bind_eq_ok h
        rw [new_record_inv hok] at hrest
        exact place_records_length hrest (hnew heof)
    · rw [if_neg hfit] at h
      by_cases hpos : 0 < left
      · rw [if_pos hpos] at h
        by_cases heof : end_of_file f st = true
        · rw [if_pos heof] at h
          cases h
          exact hle
        · rw [if_neg heof] at h
          rw [new_record_inv h]
          exact hnew heof
      · rw [if_neg hpos] at h
        cases h
        exact hle

theorem walk_length {addr disp : Nat} {st st' : FixedScan} (h : walk_fixed_data_block c f addr disp st = .ok st')
    (hle : st.rlist.length ≤ f.nr_records) : st'.rlist.length ≤ f.nr_records ∧ st'.block = st.block := by
  unfold walk_fixed_data_block at h
  dsimp only at h
  by_cases hneg : first_len c f (st.block * c.blksize + disp) < 0
  · rw [if_pos hneg] at h
    cases h
  · rw [if_neg hneg] at h
    by_cases hzero : first_len c f (st.block * c.blksize + disp) = 0
    · rw [if_pos hzero] at h
      exact ⟨place_records_length h hle, (place_records_extends h).2⟩
    · rw [if_neg hzero] at h
      by_cases hbug : first_len c f (st.block * c.blksize + disp) > ((c.blksize - disp : Nat) : Int)
      · rw [if_pos hbug] at h
        cases h
      · rw [if_neg hbug] at h
        obtain ⟨st₁, hext, hrest⟩ := Run.bind_eq_ok h
        obtain ⟨r, hlast, rfl⟩ := set_record_extension_inv hext
        refine ⟨place_records_length hrest ?_, (place_records_extends hrest).2⟩
        have hpos : 0 < st.rlist.length := List.length_pos_of_mem (List.mem_of_getLast? hlast)
        show (st.rlist.dropLast ++ [_]).length ≤ _
        rw [List.length_append, List.length_dropLast, List.length_singleton]
        omega

theorem not_done {st : FixedScan} (hle : st.rlist.length ≤ f.nr_records) (hblock : st.block < f.nr_blocks) :
    ¬ st.done f := by
  unfold FixedScan.done FixedScan.record
  omega

theorem scan_blocks_block : ∀ {left i : Nat} {st st' : FixedScan}, scan_blocks c f data left i 0 st = .ok st' →
    st.rlist.length ≤ f.nr_records → st.block + left ≤ f.nr_blocks →
    st'.rlist.length ≤ f.nr_records ∧ st'.block = st.block + left
  | 0, _, _, _, h, hle, _ => by
    cases h
    exact ⟨hle, rfl⟩
  | left + 1, i, st, st', h, hle, hblock => by
    obtain ⟨st₁, hcache, hrest⟩ := Run.bind_eq_ok h
    rw [cache_fixed_data_block, if_neg (not_done hle (by omega))] at hcache
    obtain ⟨st₂, hwalk, hst₁⟩ := Run.bind_eq_ok hcache
    obtain ⟨hle₂, hblock₂⟩ := walk_length hwalk hle
    rw [← Except.ok.inj hst₁] at hrest
    have hnext : st₂.block + 1 + left ≤ f.nr_blocks := by omega
    obtain ⟨hle', hblock'⟩ := scan_blocks_block hrest hle₂ hnext
    refine ⟨hle', hblock'.trans ?_⟩
    show st₂.block + 1 + left = _
    omega

section
variable {m : Mem}

/-- The address of the pointer number `j` of a pointer block. -/
def entry (addr j : Nat) : Nat := if addr = 0 then 0 else addr + PTR_SIZE * j

theorem entry_succ (addr j : Nat) : (if entry addr j = 0 then 0 else entry addr j + PTR_SIZE) =
    entry addr (j + 1) := by
  unfold entry PTR_SIZE
  by_cases h : addr = 0
  · rw [if_pos h, if_pos h, if_pos rfl]
  · rw [if_neg h, if_neg h, if_neg (by omega)]
    omega

theorem pointer_cases {addr j : Nat} (haddr : addr % c.blksize = 0) (hj : j < c.fixed_ptrs_per_block) :
    (∃ ptr, get_fixed_pointer c m (entry addr j) = .ok ptr ∧ ptr % c.blksize = 0) ∨
      get_fixed_pointer c m (entry addr j) = .error .Eio := by
  by_cases h0 : addr = 0
  · refine .inl ⟨NULL_BLOCK, ?_, Nat.zero_mod _⟩
    unfold get_fixed_pointer entry
    rw [if_pos h0, if_pos rfl]
  · have hent : entry addr j = addr + 4 * j := if_neg h0
    have hroom : 4 * j + 4 ≤ c.blksize := by
      have := Nat.div_mul_le_self c.blksize 4
      unfold Device.fixed_ptrs_per_block PTR_SIZE at hj
      omega
    have hdiv := Nat.div_add_mod' addr c.blksize
    rw [haddr, Nat.add_zero] at hdiv
    have h₁ : (addr + 4 * j) / c.blksize = addr / c.blksize :=
      block_of (by omega) (by rw [Nat.add_mul, Nat.one_mul]; omega)
    have h₂ : (addr + 4 * j + 4 * 1 - 1) / c.blksize = addr / c.blksize :=
      block_of (by omega) (by rw [Nat.add_mul, Nat.one_mul]; omega)
    unfold get_fixed_pointer readWords access
    rw [hent, if_neg (show addr + 4 * j ≠ 0 by omega),
      if_neg (show ¬ (_ > _) by rw [h₁, h₂]; exact Nat.lt_irrefl _)]
    by_cases hin : addr + 4 * j < c.label ∨ c.size < addr + 4 * j
    · right
      rw [if_pos hin]
      rfl
    · left
      rw [if_neg hin]
      refine ⟨_, rfl, ?_⟩
      split
      · exact Nat.zero_mod _
      · exact Nat.mul_mod_left _ _

theorem scan_file_done (hp : 0 < c.fixed_ptrs_per_block) {level addr : Nat} {st : FixedScan}
    (haddr : addr % c.blksize = 0) (hdone : st.done f) : scan_file c f m level addr st = .ok st := by
  cases level with
  | zero => exact if_pos hdone
  | succ level =>
    obtain ⟨n, hn⟩ := Nat.exists_eq_succ_of_ne_zero (Nat.ne_of_gt hp)
    have hcases := pointer_cases (m := m) haddr hp
    have hentry : entry addr 0 = addr := by
      unfold entry
      split
      · next h => exact h.symm
      · rfl
    rw [hentry] at hcases
    rw [scan_file, hn, scan_entries]
    rcases hcases with ⟨ptr, hptr, -⟩ | herr
    · rw [hptr]
      exact if_pos hdone
    · rw [herr]

theorem scan_file_eq (hp : 0 < c.fixed_ptrs_per_block) : ∀ {level addr base : Nat} {st : FixedScan},
    addr % c.blksize = 0 → (∀ i < c.fixed_ptrs_per_block ^ level, base + i < f.nr_blocks →
      leaf c m level addr i = some (data (base + i))) → st.block = base → st.rlist.length ≤ f.nr_records →
    scan_file c f m level addr st =
      scan_blocks c f data (min (c.fixed_ptrs_per_block ^ level) (f.nr_blocks - base)) base 0 st
  | 0, addr, base, st, haddr, hleaf, hblock, hle => by
    by_cases hlt : base < f.nr_blocks
    · have hdata : addr = data base :=
        Option.some.inj (hleaf 0 (Nat.lt_of_lt_of_eq Nat.one_pos (pow_zero _).symm) hlt)
      have hone : scan_blocks c f data 1 base 0 st = cache_fixed_data_block c f addr 0 st := by
        show (cache_fixed_data_block c f (data base + 0) 0 st >>= fun st => .ok st) = _
        rw [Nat.add_zero, hdata]
        cases cache_fixed_data_block c f (data base) 0 st <;> rfl
      rw [pow_zero, Nat.min_eq_left (by omega), hone]
      rfl
    · have hdone : st.done f := .inl (by omega)
      rw [scan_file_done hp haddr hdone, Nat.sub_eq_zero_of_le (by omega), Nat.min_zero]
      rfl
  | level + 1, addr, base, st, haddr, hleaf, hblock, hle => by
    -- the loop, from the entry `j` on
    have loop : ∀ left j (st : FixedScan), j + left = c.fixed_ptrs_per_block → st.rlist.length ≤ f.nr_records →
        st.block = min (base + j * c.fixed_ptrs_per_block ^ level) (max base f.nr_blocks) →
        scan_entries c f m (scan_file c f m level) left (entry addr j) st =
          scan_blocks c f data (min (left * c.fixed_ptrs_per_block ^ level)
            (f.nr_blocks - st.block)) st.block 0 st := by
      intro left
      induction left with
      | zero =>
        intro j st _ _ _
        rw [Nat.zero_mul, Nat.zero_min]
        rfl
      | succ left ih =>
        intro j st hj hle hblock
        rw [scan_entries]
        by_cases hlt : st.block < f.nr_blocks
        · have hbase : st.block = base + j * c.fixed_ptrs_per_block ^ level := by omega
          have hpow : 0 < c.fixed_ptrs_per_block ^ level := Nat.pow_pos hp
          have hpos : j * c.fixed_ptrs_per_block ^ level + c.fixed_ptrs_per_block ^ level ≤
              c.fixed_ptrs_per_block ^ (level + 1) := by
            rw [← Nat.succ_mul, pow_succ, Nat.mul_comm (_ ^ level)]
            exact Nat.mul_le_mul_right _ (by omega)
          have hbelow : ∀ i < c.fixed_ptrs_per_block ^ level, st.block + i < f.nr_blocks →
              ∃ ptr, get_fixed_pointer c m (entry addr j) = .ok ptr ∧ leaf c m level ptr i =
                some (data (st.block + i)) := by
            intro i hi hin
            have hl := hleaf (j * c.fixed_ptrs_per_block ^ level + i) (by omega) (by omega)
            have hq : (j * c.fixed_ptrs_per_block ^ level + i) / c.fixed_ptrs_per_block ^ level = j :=
              Nat.div_eq_of_lt_le (by omega) (by rw [Nat.add_mul, Nat.one_mul]; omega)
            have hr : (j * c.fixed_ptrs_per_block ^ level + i) % c.fixed_ptrs_per_block ^ level = i := by
              rw [Nat.mul_add_mod', Nat.mod_eq_of_lt hi]
            rw [leaf, hq, hr, show (if addr = 0 then 0 else addr + PTR_SIZE * j) = entry addr j from rfl,
              ← Nat.add_assoc, ← hbase] at hl
            cases hptr : get_fixed_pointer c m (entry addr j) with
            | error e =>
              rw [hptr] at hl
              cases hl
            | ok ptr =>
              rw [hptr] at hl
              exact ⟨ptr, rfl, hl⟩
          obtain ⟨ptr, hptr, -⟩ := hbelow 0 hpow hlt
          have hal : ptr % c.blksize = 0 := by
            rcases pointer_cases (m := m) haddr (show j < c.fixed_ptrs_per_block by omega) with
              ⟨ptr', hptr', hal⟩ | herr
            · rw [hptr] at hptr'
              rw [Except.ok.inj hptr']
              exact hal
            · rw [hptr] at herr
              cases herr
          have hkids : ∀ i < c.fixed_ptrs_per_block ^ level, st.block + i < f.nr_blocks →
              leaf c m level ptr i = some (data (st.block + i)) := by
            intro i hi hin
            obtain ⟨ptr', hptr', hl⟩ := hbelow i hi hin
            rw [hptr] at hptr'
            rwa [Except.ok.inj hptr']
          have hchild := scan_file_eq hp hal hkids rfl hle
          have hsplit : min ((left + 1) * c.fixed_ptrs_per_block ^ level) (f.nr_blocks - st.block) =
              min (c.fixed_ptrs_per_block ^ level) (f.nr_blocks - st.block) +
                min (left * c.fixed_ptrs_per_block ^ level)
                  (f.nr_blocks - (st.block + min (c.fixed_ptrs_per_block ^ level) (f.nr_blocks - st.block))) := by
            rw [Nat.add_mul, Nat.one_mul]
            omega
          rw [hptr]
          simp only [if_neg (not_done hle hlt)]
          rw [hchild, entry_succ, hsplit, scan_blocks_append]
          cases hrun : scan_blocks c f data (min (c.fixed_ptrs_per_block ^ level)
            (f.nr_blocks - st.block)) st.block 0 st with
          | error e => rfl
          | ok st₁ =>
            obtain ⟨hle₁, hblock₁⟩ := scan_blocks_block hrun hle (by omega)
            have hih := ih (j + 1) st₁ (by omega) hle₁ (by rw [hblock₁, Nat.add_mul, Nat.one_mul]; omega)
            rw [hblock₁] at hih
            exact hih
        · have hdone : st.done f := .inl (by omega)
          rw [Nat.sub_eq_zero_of_le (by omega), Nat.min_zero]
          rcases pointer_cases (m := m) haddr (show j < c.fixed_ptrs_per_block by omega) with ⟨ptr, hptr, -⟩ | herr
          · rw [hptr]
            exact if_pos hdone
          · rw [herr]
            rfl
    have hentry : entry addr 0 = addr := by
      unfold entry
      split
      · next h => exact h.symm
      · rfl
    have hall := loop c.fixed_ptrs_per_block 0 st (by omega) hle (by rw [Nat.zero_mul]; omega)
    rw [hentry, hblock, ← Nat.pow_succ'] at hall
    exact hall

theorem FixedFile.OnDisk.scan_file_eq {level addr : Nat} (hd : f.OnDisk c m data level addr) :
    scan_file c f m level addr FixedScan.init = scan_blocks c f data f.nr_blocks 0 0 FixedScan.init := by
  have h : scan_file c f m level addr FixedScan.init =
      scan_blocks c f data (min (c.fixed_ptrs_per_block ^ level) (f.nr_blocks - 0)) 0 0 FixedScan.init :=
    Cmsfs.scan_file_eq hd.ptrs hd.root (fun i _ hi =>
      by rw [Nat.zero_add] at hi ⊢; exact hd.leaves i hi) rfl (Nat.zero_le _)
  rwa [Nat.sub_zero, Nat.min_eq_right hd.levels] at h

end

/-! ## Scanning and starting again -/

theorem At.of_before {n x : Nat} {st : FixedScan} (h : At c (f.before c n) data x st) : At c f data x st :=
  ⟨h.rlist, h.total, h.in_data, h.null_ctr⟩

theorem scans_right_iff {m : Mem} {level addr n : Nat} (hd : f.OnDisk c m data level addr) (hn : n ≤ f.nr_records) :
    ScansRight c f m data level addr n ↔ f.Fits c ∧ RestartFits c f data n := by
  have hb := hd.blksize
  have hl : 0 < f.record_len := hd.record_len.1
  have hold : f.Fits c → ∃ st,
    scan_blocks c (f.before c n) data (f.before c n).nr_blocks 0 0 FixedScan.init = .ok st ∧
      At c f data (n * f.record_len) st ∧ Counted c data (n * f.record_len) st := by
    intro hfit
    obtain ⟨st, hscan, hat, hcnt⟩ := full_scan data (f := f.before c n) hb hl (before_blocks hb n) (hfit.before hn)
    exact ⟨st, hscan, hat.of_before, hcnt⟩
  constructor
  · rintro ⟨⟨st, hscan, hlist⟩, hrestart⟩
    have hfit : f.Fits c := by
      by_contra hnot
      unfold FixedFile.Fits at hnot
      push Not at hnot
      rw [hd.scan_file_eq] at hscan
      exact scan_large hb hd.blocks hnot.1 hnot.2 hscan hlist
    refine ⟨hfit, ?_⟩
    by_contra hnot
    obtain ⟨st₁, hscan₁, hat, hcnt⟩ := hold hfit
    obtain ⟨st₂, hupdate, hlist₂⟩ := hrestart st₁ hscan₁
    cases n with
    | zero => exact hnot (.inl rfl)
    | succ k => exact (restart_wrong hb hl hd.blocks hfit hn hat hcnt hnot hupdate).ne hlist₂
  · rintro ⟨hfit, hrest⟩
    obtain ⟨st, hscan, hat, -⟩ := full_scan data hb hl hd.blocks hfit
    have hfull : st.rlist = fixed_records c f data := by
      rw [hat.rlist, records_upto_mul hb hl]
      rfl
    refine ⟨⟨st, by rw [hd.scan_file_eq, hscan], hfull⟩, fun st₁ hscan₁ => ?_⟩
    cases n with
    | zero =>
      have hzero : (f.before c 0).nr_blocks = 0 := by
        show (0 * f.record_len + c.blksize - 1) / c.blksize = 0
        rw [Nat.zero_mul]
        exact Nat.div_eq_of_lt (by omega)
      rw [hzero] at hscan₁
      cases hscan₁
      exact ⟨st, hscan, hfull⟩
    | succ k =>
      obtain ⟨st₂, hscan₂, hat₂, hcnt₂⟩ := hold hfit
      rw [hscan₂] at hscan₁
      cases Except.ok.inj hscan₁
      have hmod := Nat.mod_lt (k * f.record_len) hb
      have hkN : (k + 1) * f.record_len ≤ f.nr_records * f.record_len := Nat.mul_le_mul_right _ hn
      unfold RestartFits at hrest
      rw [Nat.add_sub_cancel] at hrest
      by_cases hnull : data (k * f.record_len / c.blksize) = NULL_BLOCK
      · have hplace : place c data (k * f.record_len) % c.blksize = 0 := by
          rw [place_eq_null.mpr hnull]
          exact Nat.zero_mod _
        rcases hrest with h | h | ⟨hzero, hctr⟩ | ⟨hp, hdvd, hin⟩
        · cases h
        · exact absurd hnull h
        · refine restart_at hb hl hd.blocks hfit hn hat₂ (fun _ => ?_) (by rw [hplace, hzero]) fun _ => hzero
          unfold Counted at hcnt₂
          rw [hzero, hcnt₂]
          rcases hctr with h | h
          · rw [if_neg h]
          · rw [h, ite_self]
        · exact restart_early hb hl hd.blocks hn hat₂ hcnt₂ hnull hp hdvd hin
      · refine restart_at hb hl hd.blocks hfit hn hat₂ (fun h => absurd h hnull) ?_ fun h => absurd h hnull
        have hin : k * f.record_len / c.blksize < f.nr_blocks := by
          have hdiv := Nat.div_mul_le_self (k * f.record_len) c.blksize
          rw [Nat.add_mul, Nat.one_mul] at hkN
          exact (hd.blocks _).mpr (by omega)
        have hplace : place c data (k * f.record_len) =
            data (k * f.record_len / c.blksize) + k * f.record_len % c.blksize := if_neg hnull
        rw [hplace, Nat.add_mod, hd.aligned _ hin, Nat.zero_add, Nat.mod_mod, Nat.mod_mod]

end

/-! ## A disk with two records -/

def scanFile (record_len nr_records nr_blocks : Nat) : FixedFile := ⟨record_len, false, nr_records, nr_blocks⟩

def scanData (b : Nat) : Nat := 1536 + 512 * b

def scanMem : Mem := setWords (fun _ => 0) 1024 [4, 5, 6]

theorem scanMem_leaf : ∀ b < 3, leaf readDevice scanMem 1 1024 b = some (scanData b) := by decide

theorem scanFile_onDisk {record_len nr_records nr_blocks : Nat} (hlen : 1 ≤ record_len ∧ record_len ≤ 65535)
    (hthree : nr_blocks ≤ 3) (hblocks : ∀ b, b < nr_blocks ↔ b * 512 < nr_records * record_len) :
    (scanFile record_len nr_records nr_blocks).OnDisk readDevice scanMem scanData 1 1024 where
  blksize := by decide
  ptrs := by decide
  record_len := hlen
  blocks := hblocks
  root := by decide
  aligned := fun b _ => by
    show (1536 + 512 * b) % 512 = 0
    omega
  levels := Nat.le_trans hthree (by decide)
  leaves := fun b hb => scanMem_leaf b (Nat.lt_of_lt_of_le hb hthree)

theorem scans_right_sample : ScansRight readDevice (scanFile 300 4 3) scanMem scanData 1 1024 2 :=
  (scans_right_iff (scanFile_onDisk (by decide) (by decide) fun b => by omega) (by decide)).mpr
    ⟨.inl (by decide), .inr (.inl (by decide))⟩

/-- The second record of 700 bytes is not found. -/
theorem large_records_misplaced : ¬ ∀ (c : Device) (f : FixedFile) (m : Mem) (data : Nat → Nat)
    (level addr n : Nat),
    f.OnDisk c m data level addr → n ≤ f.nr_records → ScansRight c f m data level addr n := by
  intro h
  have hd : (scanFile 700 2 3).OnDisk readDevice scanMem scanData 1 1024 :=
    scanFile_onDisk (by decide) (by decide) fun b => by omega
  obtain ⟨⟨st, hscan, hlist⟩, -⟩ := h _ _ _ _ _ _ 0 hd (by decide)
  rw [hd.scan_file_eq] at hscan
  exact scan_large (by decide) hd.blocks (by decide) (by decide) hscan hlist

end Cmsfs
