import S390Tools.Lib.ScanNumber
import S390Tools.Zdev.Ccw

/-!
# The format of CCW device IDs (zdev/src/ccw.c)

The documented format: one hexadecimal number, or three with dots between them. What
`sscanf` reads is more: blanks in front of a number and at the end, signs, and with
some libraries the prefix `0x` without digits.
-/

namespace Zdev.Ccw

open CString Scanf

/-! ## Formats -/

def DevidBounds (cssid ssid devno : Nat) (d : CcwDevid) : Prop :=
  cssid ≤ CSSID_MAX ∧ ssid ≤ SSID_MAX ∧ devno ≤ DEVNO_MAX ∧
    d = { cssid := .ofNat cssid, ssid := .ofNat ssid, devno := .ofNat devno }

/-- `aaaa` or `aa.b.cccc`, the numbers with or without prefix. -/
def Documented (id : List UInt8) (d : CcwDevid) : Prop :=
  (∃ p n, id.splitOn 0x2e = [p] ∧ Unsigned false 8 p n ∧ DevidBounds 0 0 n d) ∨
    ∃ p q r cssid ssid devno, id.splitOn 0x2e = [p, q, r] ∧ Unsigned false 8 p cssid ∧ Unsigned false 8 q ssid ∧
      Unsigned false 8 r devno ∧ DevidBounds cssid ssid devno d

section
variable (bare : Bool)

/-- A number as it ends up in an `unsigned int`. -/
def Uint (p : List UInt8) (v : Nat) : Prop := ∃ neg n, Number bare 8 p neg n ∧ v = unsigned 32 neg n

def LastUint (p : List UInt8) (v : Nat) : Prop := ∃ neg n, Last bare 8 p neg n ∧ v = unsigned 32 neg n

def Accepted (id : List UInt8) (d : CcwDevid) : Prop :=
  (∃ p n, id.splitOn 0x2e = [p] ∧ ¬ Prefix p ∧ LastUint bare p n ∧ DevidBounds 0 0 n d) ∨
    ∃ p q r cssid ssid devno, id.splitOn 0x2e = [p, q, r] ∧ Uint bare p cssid ∧ Uint bare q ssid ∧
      LastUint bare r devno ∧ DevidBounds cssid ssid devno d

/-- Between dots there is something with a blank or a sign, or a bare prefix. -/
def OddId (id : List UInt8) : Prop := ∃ p ∈ id.splitOn 0x2e, Odd p

def Loose (id : List UInt8) : Prop := (∃ d, Accepted bare id d) ∧ OddId id

end

/-! ## Pieces -/

theorem split_one {sep : UInt8} {id p : List UInt8} : id.splitOn sep = [p] ↔ p = id ∧ sep ∉ id := by
  constructor
  · intro h
    have hid := @List.intercalate_splitOn _ id _ _ sep
    rw [h, List.intercalate_singleton] at hid
    refine ⟨hid, fun hmem => ?_⟩
    obtain ⟨a, b, hab⟩ := List.append_of_mem hmem
    rw [hab, List.splitOn_append_cons_self] at h
    have hlen := congrArg List.length h
    have h₁ := List.length_pos_iff.mpr (List.splitOn_ne_nil sep a)
    have h₂ := List.length_pos_iff.mpr (List.splitOn_ne_nil sep b)
    rw [List.length_append, List.length_singleton] at hlen
    omega
  · rintro ⟨rfl, hno⟩
    exact List.splitOn_eq_singleton hno

theorem split_cons {sep : UInt8} {id p : List UInt8} {ps : List (List UInt8)} (hne : ps ≠ []) :
    id.splitOn sep = p :: ps ↔ ∃ rest, id = p ++ sep :: rest ∧ sep ∉ p ∧ rest.splitOn sep = ps := by
  constructor
  · intro h
    by_cases hmem : sep ∈ id
    · obtain ⟨a, b, rfl, hno⟩ := List.eq_append_cons_of_mem hmem
      rw [List.splitOn_append_cons_self_of_not_mem hno, List.cons.injEq] at h
      exact ⟨b, by rw [h.1], h.1 ▸ hno, h.2⟩
    · rw [List.splitOn_eq_singleton hmem, List.cons.injEq] at h
      exact absurd h.2.symm hne
  · rintro ⟨rest, rfl, hno, rfl⟩
    exact List.splitOn_append_cons_self_of_not_mem hno rest

/-! ## Numbers -/

section
variable {bare : Bool} {p : List UInt8} {v : Nat}

theorem Uint.no_sep (h : Uint bare p v) {sep : UInt8} (hsep : sep = 0x2e ∨ sep = 0x3a) : sep ∉ p := by
  obtain ⟨neg, n, hn, -⟩ := h
  exact fun hmem => separator_not_in_number hsep (hn.chars hmem)

theorem LastUint.no_sep (h : LastUint bare p v) {sep : UInt8} (hsep : sep = 0x2e ∨ sep = 0x3a) : sep ∉ p := by
  obtain ⟨neg, n, hn, -⟩ := h
  exact fun hmem => separator_not_in_number hsep (hn.chars hmem)

theorem unsigned_plain (h : Unsigned false 8 p v) : unsigned 32 false v = v := by
  have hlt := h.lt
  unfold unsigned
  rw [if_neg Bool.false_ne_true]
  exact Nat.mod_eq_of_lt (by omega)

theorem uint_plain (h : Unsigned false 8 p v) : Uint bare p v := ⟨false, v, h.number, (unsigned_plain h).symm⟩

theorem lastUint_plain (h : Unsigned false 8 p v) : LastUint bare p v :=
  ⟨false, v, h.number.last, (unsigned_plain h).symm⟩

theorem Uint.plain (h : Uint bare p v) (hodd : ¬ Odd p) : Unsigned false 8 p v := by
  obtain ⟨neg, n, hn, rfl⟩ := h
  obtain ⟨hu, rfl⟩ := hn.plain hodd
  rw [unsigned_plain hu]
  exact hu

theorem LastUint.plain (h : LastUint bare p v) (hodd : ¬ Odd p) : Unsigned false 8 p v := by
  obtain ⟨neg, n, hn, rfl⟩ := h
  obtain ⟨hu, rfl⟩ := hn.plain hodd
  rw [unsigned_plain hu]
  exact hu

theorem scan_ux_some {id rest : List UInt8} (h : scan_ux bare 32 8 id = some (v, rest)) : ∃ w, id =
    w ++ rest ∧ Uint bare w v := by
  unfold scan_ux at h
  obtain ⟨⟨neg, n, rest'⟩, hr, heq⟩ := Option.map_eq_some_iff.mp h
  cases heq
  obtain ⟨w, rfl, hw⟩ := scan_x_some hr
  exact ⟨w, rfl, neg, n, hw, rfl⟩

theorem scan_ux_uint {rest : List UInt8} (h : Uint bare p v) (hrest : Ends rest) :
    scan_ux bare 32 8 (p ++ rest) = some (v, rest) := by
  obtain ⟨neg, n, hn, rfl⟩ := h
  unfold scan_ux
  rw [scan_x_number hn hrest]
  rfl

theorem lastUint_iff : LastUint bare p v ↔ ∃ w b, p = w ++ b ∧ Uint bare w v ∧ Blank b :=
  ⟨fun ⟨neg, n, ⟨w, b, hp, hw, hb⟩, hv⟩ => ⟨w, b, hp, ⟨neg, n, hw, hv⟩, hb⟩,
    fun ⟨w, b, hp, ⟨neg, n, hw, hv⟩, hb⟩ => ⟨neg, n, ⟨w, b, hp, hw, hb⟩, hv⟩⟩

/-! ## What is accepted -/

theorem sscanf_devno_iff {id : List UInt8} : sscanf_devno bare id = some v ↔ LastUint bare id v := by
  rw [lastUint_iff]
  unfold sscanf_devno
  constructor
  · intro h
    obtain ⟨⟨n, rest⟩, hscan, hend⟩ := Option.bind_eq_some_iff.mp h
    dsimp only at hend
    by_cases hat : at_end rest = true
    · rw [if_pos hat] at hend
      cases hend
      obtain ⟨w, rfl, hw⟩ := scan_ux_some hscan
      exact ⟨w, rest, rfl, hw, at_end_iff.1 hat⟩
    · rw [if_neg hat] at hend
      cases hend
  · rintro ⟨w, b, rfl, hw, hb⟩
    rw [scan_ux_uint hw hb.ends]
    show (if at_end b = true then some v else none) = some v
    rw [if_pos (at_end_iff.2 hb)]

theorem scan_dot_some {s rest : List UInt8} (h : scan_dot s = some rest) : s = 0x2e :: rest := by
  cases s with
  | nil => cases h
  | cons c s =>
    rw [scan_dot] at h
    by_cases hc : c = 0x2e
    · rw [if_pos hc, Option.some.injEq] at h
      rw [hc, h]
    · rw [if_neg hc] at h
      cases h

theorem sscanf_devid_iff {id : List UInt8} {cssid ssid devno : Nat} :
    sscanf_devid bare id = some (cssid, ssid, devno) ↔
      ∃ p q r, id.splitOn 0x2e = [p, q, r] ∧ Uint bare p cssid ∧ Uint bare q ssid ∧ LastUint bare r devno := by
  unfold sscanf_devid
  constructor
  · intro h
    obtain ⟨⟨v₁, s₁⟩, h₁, hrest₁⟩ := Option.bind_eq_some_iff.mp h
    obtain ⟨t₁, hd₁, hrest₂⟩ := Option.bind_eq_some_iff.mp hrest₁
    obtain ⟨⟨v₂, s₂⟩, h₂, hrest₃⟩ := Option.bind_eq_some_iff.mp hrest₂
    obtain ⟨t₂, hd₂, hrest₄⟩ := Option.bind_eq_some_iff.mp hrest₃
    obtain ⟨⟨v₃, s₃⟩, h₃, hend⟩ := Option.bind_eq_some_iff.mp hrest₄
    clear h hrest₁ hrest₂ hrest₃ hrest₄
    dsimp only at hd₁ hd₂ hend
    obtain ⟨p, rfl, hp⟩ := scan_ux_some h₁
    obtain ⟨q, hq', hq⟩ := scan_ux_some h₂
    obtain ⟨w, hw', hw⟩ := scan_ux_some h₃
    rw [scan_dot_some hd₁, hq', scan_dot_some hd₂, hw']
    by_cases hat : at_end s₃ = true
    · rw [if_pos hat] at hend
      cases hend
      have hr := lastUint_iff.2 ⟨w, s₃, rfl, hw, at_end_iff.1 hat⟩
      refine ⟨p, q, w ++ s₃, ?_, hp, hq, hr⟩
      rw [List.splitOn_append_cons_self_of_not_mem (hp.no_sep (Or.inl rfl)),
        List.splitOn_append_cons_self_of_not_mem (hq.no_sep (Or.inl rfl)),
          List.splitOn_eq_singleton (hr.no_sep (Or.inl rfl))]
    · rw [if_neg hat] at hend
      cases hend
  · rintro ⟨p, q, r, hsplit, hp, hq, hr⟩
    obtain ⟨t, rfl, -, ht⟩ := (split_cons (by simp)).mp hsplit
    obtain ⟨r', rfl, -, hr'⟩ := (split_cons (by simp)).mp ht
    rw [(split_one.1 hr').1] at hr
    obtain ⟨w, b, rfl, hw, hb⟩ := lastUint_iff.1 hr
    rw [scan_ux_uint hp (ends_cons (Or.inl rfl) _)]
    show (scan_ux bare 32 8 (q ++ 0x2e :: (w ++ b)) >>= _) = _
    rw [scan_ux_uint hq (ends_cons (Or.inl rfl) _)]
    show (scan_ux bare 32 8 (w ++ b) >>= _) = _
    rw [scan_ux_uint hw hb.ends]
    show (if at_end b = true then some (cssid, ssid, devno) else none) = _
    rw [if_pos (at_end_iff.2 hb)]

theorem check_bounds_iff {cssid ssid devno : Nat} {d : CcwDevid} :
    check_bounds cssid ssid devno = .ok d ↔ DevidBounds cssid ssid devno d := by
  unfold check_bounds DevidBounds
  by_cases h₁ : cssid > CSSID_MAX
  · rw [if_pos h₁]
    exact iff_of_false (fun h => by cases h) fun h => absurd h.1 (by omega)
  · rw [if_neg h₁]
    by_cases h₂ : ssid > SSID_MAX
    · rw [if_pos h₂]
      exact iff_of_false (fun h => by cases h) fun h => absurd h.2.1 (by omega)
    · rw [if_neg h₂]
      by_cases h₃ : devno > DEVNO_MAX
      · rw [if_pos h₃]
        exact iff_of_false (fun h => by cases h) fun h => absurd h.2.2.1 (by omega)
      · rw [if_neg h₃, Except.ok.injEq]
        exact ⟨fun h => ⟨by omega, by omega, by omega, h.symm⟩, fun h => h.2.2.2.symm⟩

theorem tolower_prefix : (∀ c : UInt8, tolower c = 0x30 ↔ c = 0x30) ∧
    (∀ c : UInt8, tolower c = 0x78 ↔ c = 0x78 ∨ c = 0x58) ∧ (chars "0x").map tolower = [0x30, 0x78] := by
  decide +kernel

theorem incomplete_iff {id : List UInt8} : strcasecmp id (chars "0x") = true ↔ Prefix id := by
  obtain ⟨hzero, hx, hchars⟩ := tolower_prefix
  rw [strcasecmp, hchars, beq_iff_eq]
  unfold Prefix
  constructor
  · intro h
    rcases id with _ | ⟨c, _ | ⟨x, _ | ⟨y, id⟩⟩⟩
    · cases h
    · simp only [List.map_cons, List.map_nil, List.cons.injEq, reduceCtorEq, and_false] at h
    · simp only [List.map_cons, List.map_nil, List.cons.injEq, and_true] at h
      rw [(hzero c).mp h.1]
      rcases (hx x).mp h.2 with rfl | rfl
      · exact Or.inl rfl
      · exact Or.inr rfl
    · simp only [List.map_cons, List.cons.injEq, reduceCtorEq, and_false] at h
  · rintro (rfl | rfl)
    · decide
    · decide

theorem parse_iff {id : List UInt8} {d : CcwDevid} : ccw_parse_devid bare id = .ok d ↔ Accepted bare id d := by
  unfold ccw_parse_devid Accepted
  obtain hone | ⟨n, hone⟩ := Option.eq_none_or_eq_some (sscanf_devno bare id)
  · have hnot : ∀ n, ¬ LastUint bare id n := fun n hn => by
      rw [← sscanf_devno_iff, hone] at hn
      cases hn
    rw [hone]
    dsimp only
    obtain hthree | ⟨⟨cssid, ssid, devno⟩, hthree⟩ := Option.eq_none_or_eq_some (sscanf_devid bare id)
    · rw [hthree]
      refine iff_of_false (fun h => by cases h) ?_
      rintro (⟨p, n, hp, -, hn, -⟩ | ⟨p, q, r, c, s, n, hsplit, hp, hq, hr, -⟩)
      · rw [(split_one.1 hp).1] at hn
        exact hnot n hn
      · have := sscanf_devid_iff.2 ⟨p, q, r, hsplit, hp, hq, hr⟩
        rw [hthree] at this
        cases this
    · rw [hthree]
      dsimp only
      rw [check_bounds_iff]
      obtain ⟨p, q, r, hsplit, hp, hq, hr⟩ := sscanf_devid_iff.1 hthree
      refine ⟨fun hb => Or.inr ⟨p, q, r, cssid, ssid, devno, hsplit, hp, hq, hr, hb⟩, ?_⟩
      rintro (⟨p', n, hp', -, hn, -⟩ | ⟨p', q', r', c', s', n', hsplit', hp', hq', hr', hb⟩)
      · rw [(split_one.1 hp').1] at hn
        exact absurd hn (hnot n)
      · have := sscanf_devid_iff.2 ⟨p', q', r', hsplit', hp', hq', hr'⟩
        rw [hthree, Option.some.injEq, Prod.mk.injEq, Prod.mk.injEq] at this
        obtain ⟨rfl, rfl, rfl⟩ := this
        exact hb
  · have hlast := sscanf_devno_iff.1 hone
    have hsingle : id.splitOn 0x2e = [id] := List.splitOn_eq_singleton (hlast.no_sep (Or.inl rfl))
    rw [hone]
    dsimp only
    by_cases hx : strcasecmp id (chars "0x") = true
    · rw [if_pos hx]
      refine iff_of_false (fun h => by cases h) ?_
      rintro (⟨p, n, hp, hno, -, -⟩ | ⟨p, q, r, c, s, n, hsplit, -⟩)
      · rw [hsingle, List.cons.injEq] at hp
        rw [← hp.1] at hno
        exact hno (incomplete_iff.1 hx)
      · rw [hsingle] at hsplit
        cases hsplit
    · rw [if_neg hx, check_bounds_iff]
      refine ⟨fun hb => Or.inl ⟨id, n, hsingle, fun hp => hx (incomplete_iff.2 hp), hlast, hb⟩, ?_⟩
      rintro (⟨p, n', hp, -, hn', hb⟩ | ⟨p, q, r, c, s, n, hsplit, -⟩)
      · rw [(split_one.1 hp).1] at hn'
        have := sscanf_devno_iff.2 hn'
        rw [hone, Option.some.injEq] at this
        rw [this]
        exact hb
      · rw [hsingle] at hsplit
        cases hsplit

/-! ## Where the two agree -/

theorem Documented.accepted {id : List UInt8} {d : CcwDevid} (h : Documented id d) : Accepted bare id d := by
  rcases h with ⟨p, n, hp, hn, hb⟩ | ⟨p, q, r, c, s, n, hsplit, hp, hq, hr, hb⟩
  · exact Or.inl ⟨p, n, hp, fun hpre => hn.not_odd (Or.inr hpre), lastUint_plain hn, hb⟩
  · exact Or.inr ⟨p, q, r, c, s, n, hsplit, uint_plain hp, uint_plain hq, lastUint_plain hr, hb⟩

theorem Documented.not_odd {id : List UInt8} {d : CcwDevid} (h : Documented id d) : ¬ OddId id := by
  rintro ⟨w, hw, hodd⟩
  rcases h with ⟨p, n, hp, hn, -⟩ | ⟨p, q, r, c, s, n, hsplit, hp, hq, hr, -⟩
  · rw [hp, List.mem_singleton] at hw
    rw [hw] at hodd
    exact hn.not_odd hodd
  · rw [hsplit] at hw
    rcases List.mem_cons.mp hw with rfl | hw
    · exact hp.not_odd hodd
    · rcases List.mem_cons.mp hw with rfl | hw
      · exact hq.not_odd hodd
      · rw [List.mem_singleton] at hw
        rw [hw] at hodd
        exact hr.not_odd hodd

theorem Accepted.documented {id : List UInt8} {d : CcwDevid} (h : Accepted bare id d) (hodd : ¬ OddId id) :
    Documented id d := by
  have hplain : ∀ p ∈ id.splitOn 0x2e, ¬ Odd p := fun p hp hn => hodd ⟨p, hp, hn⟩
  rcases h with ⟨p, n, hp, -, hn, hb⟩ | ⟨p, q, r, c, s, n, hsplit, hp, hq, hr, hb⟩
  · rw [hp] at hplain
    exact Or.inl ⟨p, n, hp, hn.plain (hplain p List.mem_cons_self), hb⟩
  · rw [hsplit] at hplain
    refine Or.inr ⟨p, q, r, c, s, n, hsplit, hp.plain (hplain p List.mem_cons_self), hq.plain (hplain q ?_),
      hr.plain (hplain r ?_), hb⟩
    · exact List.mem_cons_of_mem _ List.mem_cons_self
    · exact List.mem_cons_of_mem _ (List.mem_cons_of_mem _ List.mem_cons_self)

theorem ccw_agree_iff (id : List UInt8) :
    ((∃ d, ccw_parse_devid bare id = .ok d) ↔ ∃ d, Documented id d) ↔ ¬ Loose bare id := by
  simp only [parse_iff]
  constructor
  · rintro hiff ⟨hacc, hodd⟩
    obtain ⟨d, hd⟩ := hiff.mp hacc
    exact hd.not_odd hodd
  · intro hloose
    constructor
    · rintro ⟨d, hd⟩
      exact ⟨d, hd.documented fun hodd => hloose ⟨⟨d, hd⟩, hodd⟩⟩
    · rintro ⟨d, hd⟩
      exact ⟨d, hd.accepted⟩

end

end Zdev.Ccw
