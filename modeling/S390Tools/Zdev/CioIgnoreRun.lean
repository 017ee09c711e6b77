import S390Tools.Lib.Runs
import S390Tools.Zdev.CioIgnore

/-!
# The list of ranges is exact

The inner loop finds the runs of a subchannel set; the outer loops put them one behind
the other. Their bounds leave out the last channel subsystem, subchannel set and device
number.
-/

namespace Zdev.Ccw

open CString Ranges Runs

/-! ## One subchannel set -/

def run_text (c s : Nat) (r : Nat × Nat) : List UInt8 :=
  if r.1 + 1 < r.2 then range_str (devid c s r.1) ++ 0x2d :: range_str (devid c s (r.2 - 1))
    else range_str (devid c s r.1)

def run_last (c s : Nat) (r : Nat × Nat) : Option CcwDevid :=
    if r.1 + 1 < r.2 then some (devid c s (r.2 - 1)) else none

theorem range_add_run (list : List (List UInt8)) (c s lo n : Nat) :
    range_add list (devid c s lo) (run_last c s (lo, n)) = list ++ [run_text c s (lo, n)] := by
  rw [run_last, run_text]
  split <;> rfl

/-- The loop has found the runs so far; the last one may still be open. -/
def Scanned (c s : Nat) (g : Nat → Bool) (ranges : List (List UInt8)) (n : Nat) (st : Scan) : Prop :=
  (st.first = none ∧ st.last = none ∧ st.ranges = ranges ++ (runs g n).map (run_text c s) ∧
    ∀ r ∈ runs g n, r.2 < n) ∨
    ∃ (rs : List (Nat × Nat)) (lo : Nat), runs g n = rs ++ [(lo, n)] ∧ st.first = some (devid c s lo) ∧ st.last = run_last c s (lo, n) ∧
      st.ranges = ranges ++ rs.map (run_text c s)

section
variable {b : IdBitmap} {c s : Nat} {g : Nat → Bool} {ranges : List (List UInt8)}

theorem scan_step {n : Nat} {st : Scan} (hget : id_bitmap_get b c s n = some (g n))
    (h : Scanned c s g ranges n st) :
    ∃ st', scan_devno b c s st n = some st' ∧ Scanned c s g ranges (n + 1) st' := by
  rw [scan_devno, hget]
  have hrun : runs g (n + 1) = if g n then extend n (runs g n) else runs g n := rfl
  by_cases hg : g n = true
  · rw [if_pos hg] at hrun
    rw [hg]
    rcases h with ⟨hfirst, hlast, hranges, hbelow⟩ | ⟨rs, lo, hruns, hfirst, hlast, hranges⟩
    · refine ⟨{ st with first := some (devid c s n) }, ?_, .inr ⟨runs g n, n, ?_, rfl, ?_, hranges⟩⟩
      · show (if st.first.isSome = true then _ else _) = _
        rw [hfirst]
        rfl
      · rw [hrun, extend_apart hbelow]
      · rw [run_last, if_neg (Nat.lt_irrefl _)]
        exact hlast
    · have hlo : lo < n := (runs_canonical g n).nonempty (lo, n) (by rw [hruns]; simp)
      refine ⟨{ st with last := some (devid c s n) }, ?_, .inr ⟨rs, lo, ?_, hfirst, ?_, hranges⟩⟩
      · show (if st.first.isSome = true then _ else _) = _
        rw [hfirst]
        rfl
      · rw [hrun, hruns, extend_append]
      · rw [run_last, if_pos (by dsimp only; omega)]
        rfl
  · rw [if_neg hg] at hrun
    rw [Bool.eq_false_iff.mpr hg]
    rcases h with ⟨hfirst, hlast, hranges, hbelow⟩ | ⟨rs, lo, hruns, hfirst, hlast, hranges⟩
    · refine ⟨flush_range st, rfl, .inl ?_⟩
      rw [flush_range, hfirst, hrun]
      exact ⟨hfirst, hlast, hranges, fun r hr => Nat.lt_succ_of_lt (hbelow r hr)⟩
    · refine ⟨flush_range st, rfl, .inl ?_⟩
      rw [flush_range, hfirst, hrun, hruns]
      refine ⟨rfl, rfl, ?_, fun r hr => ?_⟩
      · dsimp only
        rw [hlast, range_add_run, hranges, List.map_append, List.append_assoc]
        rfl
      · have hle := runs_le (g := g) (n := n) (r := r)
        rw [hruns] at hle
        exact Nat.lt_succ_of_le (hle hr)

theorem scan_loop (ranges : List (List UInt8)) : ∀ {n : Nat}, (∀ d < n, id_bitmap_get b c s d = some (g d)) →
    ∃ st, (List.range n).foldlM (scan_devno b c s) { first := none, last := none, ranges } = some st ∧
      Scanned c s g ranges n st
  | 0, _ => ⟨_, rfl, .inl ⟨rfl, rfl, (List.append_nil _).symm, fun r hr => by cases hr⟩⟩
  | n + 1, hget => by
    obtain ⟨st, hst, hscan⟩ := scan_loop ranges fun d hd => hget d (Nat.lt_succ_of_lt hd)
    obtain ⟨st', hst', hscan'⟩ := scan_step (hget n (Nat.lt_succ_self n)) hscan
    refine ⟨st', ?_, hscan'⟩
    rw [List.range_succ, List.foldlM_append, hst]
    show (List.foldlM (scan_devno b c s) st [n]) = _
    rw [List.foldlM_cons, hst']
    rfl

theorem flush_scanned {n : Nat} {st : Scan} (h : Scanned c s g ranges n st) :
    (flush_range st).ranges = ranges ++ (runs g n).map (run_text c s) := by
  rcases h with ⟨hfirst, hlast, hranges, -⟩ | ⟨rs, lo, hruns, hfirst, hlast, hranges⟩
  · rw [flush_range, hfirst]
    exact hranges
  · rw [flush_range, hfirst]
    show range_add st.ranges (devid c s lo) st.last = _
    rw [hlast, range_add_run, hranges, hruns, List.map_append, List.append_assoc]
    rfl

end

/-! ## All of them -/

def found (b : IdBitmap) (c s d : Nat) : Bool := id_bitmap_get b c s d == some true

def set_texts (b : IdBitmap) (c s : Nat) : List (List UInt8) := (runs (found b c s) DEVNO_MAX).map (run_text c s)

theorem foldlM_pieces {α β : Type} {f : List β → α → Option (List β)} {piece : α → List β} :
    ∀ {l : List α} {acc : List β}, (∀ acc, ∀ x ∈ l, f acc x = some (acc ++ piece x)) →
      l.foldlM f acc = some (acc ++ l.flatMap piece)
  | [], acc, _ => by
    rw [List.flatMap_nil, List.append_nil]
    rfl
  | x :: l, acc, h => by
    rw [List.foldlM_cons, h acc x List.mem_cons_self]
    show l.foldlM f (acc ++ piece x) = _
    rw [foldlM_pieces fun acc y hy => h acc y (List.mem_cons_of_mem x hy), List.flatMap_cons, List.append_assoc]

section
variable {b : IdBitmap} {c s : Nat}

theorem get_found (hb : Shaped b) (hc : c < CSSID_MAX) (hs : s < SSID_MAX) :
    ∀ d < DEVNO_MAX, id_bitmap_get b c s d = some (found b c s d) := fun d hd => by
  obtain ⟨v, hv⟩ := get_some hb hc (Nat.le_of_lt hs) (Nat.le_of_lt hd)
  rw [found, hv]
  cases v <;> rfl

theorem set_texts_nil (h : ∀ d, id_bitmap_get b c s d = some false) : set_texts b c s = [] := by
  rw [set_texts, runs_nil fun d => by rw [found, h]; rfl]
  rfl

theorem scan_devnos_eq (hget : ∀ d < DEVNO_MAX, id_bitmap_get b c s d = some (found b c s d))
    (ranges : List (List UInt8)) :
    scan_devnos b c s ranges = some (ranges ++ set_texts b c s) := by
  obtain ⟨st, hst, hscan⟩ := scan_loop ranges hget
  unfold scan_devnos
  rw [hst, set_texts, ← flush_scanned hscan]
  rfl

theorem scan_ssid_eq (hb : Shaped b) (hc : c < CSSID_MAX) (hs : s < SSID_MAX) {sets : List (Option (List UInt8))}
    (hsets : b[c]? = some (some sets)) (ranges : List (List UInt8)) :
    scan_ssid b c sets ranges s = some (ranges ++ set_texts b c s) := by
  have hlen := hb.sets c sets (by rw [sets_at, hsets]; rfl)
  obtain ⟨row, hrow⟩ : ∃ row, sets[s]? = some row := ⟨_, List.getElem?_eq_getElem (by omega)⟩
  rw [scan_ssid, hrow]
  cases row with
  | none =>
    have hget : ∀ d, id_bitmap_get b c s d = some false := fun d => by
      rw [id_bitmap_get, hsets]
      show (sets[s]? >>= _) = _
      rw [hrow]
      rfl
    rw [set_texts_nil hget, List.append_nil]
    rfl
  | some bits =>
    rw [Option.bind_eq_bind, Option.bind_some]
    exact scan_devnos_eq (get_found hb hc hs) ranges

theorem scan_cssid_eq (hb : Shaped b) (hc : c < CSSID_MAX) (ranges : List (List UInt8)) :
    scan_cssid b ranges c = some (ranges ++ (List.range SSID_MAX).flatMap (set_texts b c)) := by
  obtain ⟨row, hrow⟩ : ∃ row, b[c]? = some row := ⟨_, List.getElem?_eq_getElem (by rw [hb.length]; exact hc)⟩
  rw [scan_cssid, hrow]
  cases row with
  | none =>
    have hget : ∀ s d, id_bitmap_get b c s d = some false := fun s d => by
      rw [id_bitmap_get, hrow]
      rfl
    have hnil : (List.range SSID_MAX).flatMap (set_texts b c) = [] := by
      rw [List.flatMap_eq_nil_iff]
      exact fun s _ => set_texts_nil (hget s)
    rw [hnil, List.append_nil]
    rfl
  | some sets => exact foldlM_pieces fun acc s hs => scan_ssid_eq hb hc (List.mem_range.mp hs) hrow acc

theorem forM_some {α : Type} {f : α → Option Unit} : ∀ {l : List α}, (∀ x ∈ l, f x = some ()) → l.forM f = some ()
  | [], _ => rfl
  | x :: l, h => by
    show (f x >>= fun _ => l.forM f) = _
    rw [h x List.mem_cons_self]
    exact forM_some fun y hy => h y (List.mem_cons_of_mem x hy)

theorem free_some (hb : Shaped b) : id_bitmap_free b = some () := forM_some fun c hc => by
  have hc := List.mem_range.mp hc
  obtain ⟨row, hrow⟩ : ∃ row, b[c]? = some row := ⟨_, List.getElem?_eq_getElem (by rw [hb.length]; exact hc)⟩
  rw [hrow]
  cases row with
  | none => rfl
  | some sets =>
    have hlen := hb.sets c sets (by rw [sets_at, hrow]; rfl)
    refine forM_some fun s hs => ?_
    have hs := List.mem_range.mp hs
    rw [List.getElem?_eq_getElem (by omega)]
    rfl

theorem get_ranges_eq {bare : Bool} {ids : List (List UInt8)} (hids : ∀ d, Configured bare ids d →
    d.cssid.toNat < CSSID_MAX) :
    ∃ b, Shaped b ∧ (∀ c s d, c < CSSID_MAX → s ≤ SSID_MAX → d ≤ DEVNO_MAX →
        (id_bitmap_get b c s d = some true ↔ Configured bare ids (devid c s d))) ∧
      cio_ignore_get_ranges bare ids =
        some ((List.range CSSID_MAX).flatMap fun c => (List.range SSID_MAX).flatMap (set_texts b c)) := by
  obtain ⟨b, hb, hshape, hget⟩ := collect_some bare new_shaped hids
  refine ⟨b, hshape, fun c s d hc hs hd => ?_, ?_⟩
  · rw [hget c s d hc hs hd, get_new hc]
    simp
  · rw [cio_ignore_get_ranges, id_bitmap_collect, hb]
    simp only [Option.bind_eq_bind, Option.bind_some]
    rw [foldlM_pieces fun acc c hc => scan_cssid_eq hshape (List.mem_range.mp hc) acc, Option.bind_some,
      free_some hshape, Option.bind_some, List.nil_append]
    rfl

end

/-! ## What the texts stand for -/

def range_read (bare : Bool) (text : List UInt8) : Option (CcwDevid × CcwDevid) :=
  match ccw_parse_devid_simple bare text with
  | some d => some (d, d)
  | none => ccw_parse_devid_range_simple bare text

def run_range (c s : Nat) (r : Nat × Nat) : CcwDevid × CcwDevid := (devid c s r.1, devid c s (r.2 - 1))

section
variable (bare : Bool)

theorem drop_zeroes {d : CcwDevid} (h : d.cssid = 0 ∧ d.ssid = 0) : (ccw_devid_to_str d).drop 4 =
    hex4 d.devno.toNat := by
  have hzero : hex (UInt8.toNat 0) = [0x30] := by
    rw [UInt8.toNat_zero, hex, if_pos (by decide)]
    rfl
  rw [ccw_devid_to_str, h.1, h.2, hzero]
  rfl

theorem range_str_parse {d : CcwDevid} (h : d.ssid.toNat ≤ SSID_MAX) :
    ccw_parse_devid bare (range_str d) = .ok d := by
  rw [range_str]
  split
  · rename_i hz
    rw [drop_zeroes hz, parse_hex4]
    obtain ⟨dc, ds, dn⟩ := d
    obtain ⟨rfl, rfl⟩ := hz
    rfl
  · exact parse_to_str bare h

theorem range_str_hyphen (d : CcwDevid) (rest : List UInt8) :
    ccw_parse_devid bare (range_str d ++ 0x2d :: rest) = .error "Invalid format" := by
  obtain ⟨hstr, hhex⟩ := parse_hyphen bare d rest
  rw [range_str]
  split
  · rename_i hz
    rw [drop_zeroes hz]
    exact hhex
  · exact hstr

theorem str_no_hyphen (d : CcwDevid) : ∀ c ∈ ccw_devid_to_str d, (c != 0x2d) = true := fun c hc => by
  have hdigit : ∀ c, Scanf.isxdigit c = true → (c != 0x2d) = true := by
    intro c h
    refine bne_iff_ne.mpr ?_
    rintro rfl
    exact absurd h (by decide)
  rw [ccw_devid_to_str] at hc
  rcases List.mem_append.mp hc with hc | hc
  · exact hdigit c (Scanf.hex_xdigit _ c hc)
  rcases List.mem_cons.mp hc with rfl | hc
  · rfl
  rcases List.mem_append.mp hc with hc | hc
  · exact hdigit c (Scanf.hex_xdigit _ c hc)
  rcases List.mem_cons.mp hc with rfl | hc
  · rfl
  · exact hdigit c (hex4_xdigit _ c hc)

theorem range_str_no_hyphen (d : CcwDevid) : ∀ c ∈ range_str d, (c != 0x2d) = true := fun c hc => by
  rw [range_str] at hc
  split at hc
  · exact str_no_hyphen d c (List.mem_of_mem_drop hc)
  · exact str_no_hyphen d c hc

theorem parse_range_eq {f t : CcwDevid} {fs ts : List UInt8} (hf : ccw_parse_devid bare fs = .ok f)
    (ht : ccw_parse_devid bare ts = .ok t) (hno : ∀ c ∈ fs, (c != 0x2d) = true) :
    ccw_parse_devid_range bare (fs ++ 0x2d :: ts) = .ok (f, t) := by
  have htake : (fs ++ 0x2d :: ts).takeWhile (· != 0x2d) = fs := by
    rw [List.takeWhile_append_of_pos hno]
    simp
  have hdrop : (fs ++ 0x2d :: ts).dropWhile (· != 0x2d) = 0x2d :: ts := by
    rw [List.dropWhile_append_of_pos hno]
    simp
  rw [ccw_parse_devid_range, hdrop, htake]
  dsimp only
  rw [hf]
  show (ccw_parse_devid bare ts >>= _) = _
  rw [ht]
  rfl

theorem run_text_read {c s : Nat} {r : Nat × Nat} (hs : s < SSID_MAX) (hr : r.1 < r.2) :
    range_read bare (run_text c s r) = some (run_range c s r) := by
  have hssid : ∀ n, (devid c s n).ssid.toNat ≤ SSID_MAX := fun n => by
    rw [devid, UInt8.toNat_ofNat']
    exact (Nat.mod_le _ _).trans (Nat.le_of_lt hs)
  rw [range_read, run_text, run_range]
  by_cases hlong : r.1 + 1 < r.2
  · rw [if_pos hlong, ccw_parse_devid_simple, range_str_hyphen, ccw_parse_devid_range_simple,
      parse_range_eq bare (range_str_parse bare (hssid r.1)) (range_str_parse bare (hssid (r.2 - 1)))
        (range_str_no_hyphen _)]
    rfl
  · have heq : r.2 - 1 = r.1 := by omega
    rw [if_neg hlong, heq, ccw_parse_devid_simple, range_str_parse bare (hssid r.1)]
    rfl

end

/-! ## Exactness -/

def Within (d : CcwDevid) (r : CcwDevid × CcwDevid) : Prop := r.1.key ≤ d.key ∧ d.key ≤ r.2.key

/-- Ascending ranges within a subchannel set each, of which no two meet or touch in one. -/
structure Separate (ranges : List (CcwDevid × CcwDevid)) : Prop where
  proper : ∀ r ∈ ranges, SameSet r.1 r.2 ∧ r.1.key ≤ r.2.key
  ascending : ranges.Pairwise fun r s => r.2.key < s.1.key ∧ (SameSet r.2 s.1 → r.2.key + 1 < s.1.key)

/-- The list is made without an access outside of the bitmap and has the configured devices in it. -/
def Exact (bare : Bool) (ids : List (List UInt8)) : Prop :=
  ∃ texts ranges, cio_ignore_get_ranges bare ids = some texts ∧ texts.map (range_read bare) = ranges.map some ∧
    Separate ranges ∧ ∀ d, (∃ r ∈ ranges, Within d r) ↔ Configured bare ids d

def set_ranges (b : IdBitmap) (c s : Nat) : List (CcwDevid × CcwDevid) :=
    (runs (found b c s) DEVNO_MAX).map (run_range c s)

def all_ranges (b : IdBitmap) : List (CcwDevid × CcwDevid) :=
  (List.range CSSID_MAX).flatMap fun c => (List.range SSID_MAX).flatMap (set_ranges b c)

theorem devid_key {c s n : Nat} (hc : c < CSSID_MAX) (hs : s < SSID_MAX) (hn : n < DEVNO_MAX) :
    (devid c s n).key = c * 2 ^ 24 + s * 2 ^ 16 + n := by
  rw [CSSID_MAX] at hc
  rw [SSID_MAX] at hs
  rw [DEVNO_MAX] at hn
  rw [CcwDevid.key, devid, UInt8.toNat_ofNat', UInt8.toNat_ofNat', UInt16.toNat_ofNat', Nat.mod_eq_of_lt (by omega),
    Nat.mod_eq_of_lt (by omega), Nat.mod_eq_of_lt (by omega)]

section
variable {b : IdBitmap}

theorem mem_set_ranges {c s : Nat} {r : CcwDevid × CcwDevid} (h : r ∈ set_ranges b c s) :
    ∃ run ∈ runs (found b c s) DEVNO_MAX, r = run_range c s run ∧ run.1 < run.2 ∧ run.2 ≤ DEVNO_MAX := by
  obtain ⟨run, hrun, rfl⟩ := List.mem_map.mp h
  exact ⟨run, hrun, rfl, (runs_canonical _ _).nonempty run hrun, runs_le hrun⟩

theorem set_ranges_key {c s : Nat} {r : CcwDevid × CcwDevid} (hc : c < CSSID_MAX) (hs : s < SSID_MAX)
    (h : r ∈ set_ranges b c s) : ∃ lo hi, r.1.key = c * 2 ^ 24 + s * 2 ^ 16 + lo ∧
      r.2.key = c * 2 ^ 24 + s * 2 ^ 16 + hi ∧ lo ≤ hi ∧ hi < DEVNO_MAX := by
  obtain ⟨run, -, rfl, hlt, hle⟩ := mem_set_ranges h
  exact ⟨run.1, run.2 - 1, devid_key hc hs (by omega), devid_key hc hs (by omega), by omega, by omega⟩

theorem set_ranges_pairwise {c s : Nat} (hc : c < CSSID_MAX) (hs : s < SSID_MAX) :
    (set_ranges b c s).Pairwise fun r t => r.2.key < t.1.key ∧ (SameSet r.2 t.1 → r.2.key + 1 < t.1.key) := by
  rw [set_ranges, List.pairwise_map]
  refine List.Pairwise.imp_of_mem (fun {r t} hr ht hlt => ?_) (runs_canonical (found b c s) DEVNO_MAX).ascending
  have hr' := (runs_canonical _ _).nonempty r hr
  have ht' := (runs_canonical _ _).nonempty t ht
  have hle := runs_le ht
  have hkey : (run_range c s r).2.key + 1 < (run_range c s t).1.key := by
    rw [run_range, run_range, devid_key hc hs (by omega), devid_key hc hs (by omega)]
    omega
  exact ⟨by omega, fun _ => hkey⟩

theorem all_ranges_separate : Separate (all_ranges b) := by
  constructor
  · intro r hr
    obtain ⟨c, hc, hr⟩ := List.mem_flatMap.mp hr
    obtain ⟨s, hs, hr⟩ := List.mem_flatMap.mp hr
    obtain ⟨lo, hi, hlo, hhi, hle, -⟩ := set_ranges_key (List.mem_range.mp hc) (List.mem_range.mp hs) hr
    obtain ⟨run, -, rfl, -, -⟩ := mem_set_ranges hr
    exact ⟨⟨rfl, rfl⟩, by omega⟩
  · rw [all_ranges, List.pairwise_flatMap]
    refine ⟨fun c hc => ?_, ?_⟩
    · have hc := List.mem_range.mp hc
      rw [List.pairwise_flatMap]
      refine ⟨fun s hs => set_ranges_pairwise hc (List.mem_range.mp hs), ?_⟩
      refine List.Pairwise.imp_of_mem (fun {s t} hs ht hlt r hr q hq => ?_) List.pairwise_lt_range
      obtain ⟨lo, hi, hlo, hhi, hle, hmax⟩ := set_ranges_key hc (List.mem_range.mp hs) hr
      obtain ⟨lo', hi', hlo', hhi', hle', hmax'⟩ := set_ranges_key hc (List.mem_range.mp ht) hq
      rw [DEVNO_MAX] at hmax hmax'
      exact ⟨by omega, fun _ => by omega⟩
    · refine List.Pairwise.imp_of_mem (fun {c e} hc he hlt r hr q hq => ?_) List.pairwise_lt_range
      obtain ⟨s, hs, hr⟩ := List.mem_flatMap.mp hr
      obtain ⟨t, ht, hq⟩ := List.mem_flatMap.mp hq
      have hs := List.mem_range.mp hs
      obtain ⟨lo, hi, hlo, hhi, hle, hmax⟩ := set_ranges_key (List.mem_range.mp hc) hs hr
      obtain ⟨lo', hi', hlo', hhi', hle', hmax'⟩ := set_ranges_key (List.mem_range.mp he) (List.mem_range.mp ht) hq
      rw [DEVNO_MAX] at hmax hmax'
      rw [SSID_MAX] at hs
      exact ⟨by omega, fun _ => by omega⟩

theorem within_all {d : CcwDevid} : (∃ r ∈ all_ranges b, Within d r) ↔ d.cssid.toNat < CSSID_MAX ∧
    d.ssid.toNat < SSID_MAX ∧ d.devno.toNat < DEVNO_MAX ∧
      id_bitmap_get b d.cssid.toNat d.ssid.toNat d.devno.toNat = some true := by
  constructor
  · rintro ⟨r, hr, hwithin⟩
    obtain ⟨c, hc, hr⟩ := List.mem_flatMap.mp hr
    obtain ⟨s, hs, hr⟩ := List.mem_flatMap.mp hr
    have hc := List.mem_range.mp hc
    have hs := List.mem_range.mp hs
    obtain ⟨run, hrun, rfl, hlt, hle⟩ := mem_set_ranges hr
    rw [Within, run_range, devid_key hc hs (by omega), devid_key hc hs (by omega), CcwDevid.key] at hwithin
    have h₁ := d.ssid.toNat_lt
    have h₂ := d.devno.toNat_lt
    rw [SSID_MAX] at hs
    rw [DEVNO_MAX] at hle
    have hcssid : d.cssid.toNat = c := by omega
    have hssid : d.ssid.toNat = s := by omega
    rw [hcssid, hssid, SSID_MAX, DEVNO_MAX]
    have hin : In d.devno.toNat run := ⟨by omega, by omega⟩
    have hfound := covers_runs.1 ⟨run, hrun, hin⟩
    exact ⟨hc, hs, by omega, beq_iff_eq.mp hfound.2⟩
  · rintro ⟨hc, hs, hd, hget⟩
    have hfound : found b d.cssid.toNat d.ssid.toNat d.devno.toNat = true := beq_iff_eq.mpr hget
    obtain ⟨run, hrun, hin⟩ := covers_runs.2 ⟨hd, hfound⟩
    have hle := runs_le hrun
    rw [In] at hin
    refine ⟨run_range d.cssid.toNat d.ssid.toNat run, List.mem_flatMap.mpr ⟨_, List.mem_range.mpr hc,
      List.mem_flatMap.mpr ⟨_, List.mem_range.mpr hs, List.mem_map_of_mem hrun⟩⟩, ?_⟩
    rw [Within, run_range, devid_key hc hs (by omega), devid_key hc hs (by omega), CcwDevid.key]
    omega

variable {bare : Bool} {ids : List (List UInt8)}

theorem all_texts_read : ((List.range CSSID_MAX).flatMap fun c => (List.range SSID_MAX).flatMap (set_texts b c)).map
    (range_read bare) = (all_ranges b).map some := by
  rw [all_ranges, List.map_flatMap, List.map_flatMap]
  refine List.flatMap_congr fun c hc => ?_
  rw [List.map_flatMap, List.map_flatMap]
  refine List.flatMap_congr fun s hs => ?_
  rw [set_texts, set_ranges, List.map_map, List.map_map]
  exact List.map_congr_left fun r hr =>
    run_text_read bare (List.mem_range.mp hs) ((runs_canonical _ _).nonempty r hr)

theorem outside_none {d : CcwDevid} (h : Configured bare ids d) (hd : CSSID_MAX ≤ d.cssid.toNat) :
    cio_ignore_get_ranges bare ids = none := by
  rw [cio_ignore_get_ranges, id_bitmap_collect, collect_none bare new_shaped h hd]
  rfl

def InBounds (d : CcwDevid) : Prop := d.cssid.toNat < CSSID_MAX ∧ d.ssid.toNat < SSID_MAX ∧
    d.devno.toNat < DEVNO_MAX

theorem exact_bounds (h : Exact bare ids) : ∀ d, Configured bare ids d → InBounds d := by
  obtain ⟨texts, ranges, heq, hread, -, hall⟩ := h
  have hids : ∀ d, Configured bare ids d → d.cssid.toNat < CSSID_MAX := fun d hd => by
    rcases Nat.lt_or_ge d.cssid.toNat CSSID_MAX with hlt | hge
    · exact hlt
    · rw [outside_none hd hge] at heq
      cases heq
  obtain ⟨b, -, -, heq'⟩ := get_ranges_eq hids
  rw [heq', Option.some_inj] at heq
  rw [← heq, all_texts_read] at hread
  have hsame : all_ranges b = ranges := List.map_injective_iff.mpr (Option.some_injective _) hread
  intro d hd
  rw [← hall d, ← hsame, within_all] at hd
  exact ⟨hd.1, hd.2.1, hd.2.2.1⟩

theorem bounds_exact (h : ∀ d, Configured bare ids d → InBounds d) : Exact bare ids := by
  obtain ⟨b, -, hget, heq⟩ := get_ranges_eq fun d hd => (h d hd).1
  refine ⟨_, all_ranges b, heq, all_texts_read, all_ranges_separate, fun d => ?_⟩
  have hdevid : devid d.cssid.toNat d.ssid.toNat d.devno.toNat = d := by
    rw [devid, UInt8.ofNat_toNat, UInt8.ofNat_toNat, UInt16.ofNat_toNat]
  rw [within_all]
  constructor
  · rintro ⟨hc, hs, hd, hbit⟩
    rwa [hget _ _ _ hc (Nat.le_of_lt hs) (Nat.le_of_lt hd), hdevid] at hbit
  · intro hd
    obtain ⟨hc, hs, hn⟩ := h d hd
    refine ⟨hc, hs, hn, ?_⟩
    rwa [hget _ _ _ hc (Nat.le_of_lt hs) (Nat.le_of_lt hn), hdevid]

end

theorem cio_ignore_exact (bare : Bool) (ids : List (List UInt8)) :
    Exact bare ids ↔ ∀ d, Configured bare ids d → InBounds d := ⟨exact_bounds, bounds_exact⟩

theorem last_devno_left_out : ¬∀ (bare : Bool) (ids : List (List UInt8)), Exact bare ids := fun h => by
  have hlast : ccw_parse_devid_simple true (chars "0.0.ffff") =
    some { cssid := 0, ssid := 0, devno := 0xffff } := by
    decide +kernel
  have hbounds := exact_bounds (h true [chars "0.0.ffff"]) _ ⟨_, List.mem_singleton_self _, hlast⟩
  exact absurd hbounds.2.2 (by decide)

end Zdev.Ccw
