import S390Tools.Lib.Scanf

/-!
# What the conversion of hexadecimal numbers reads

The words that `scan_x` takes from the front of a text: the digits with their prefix,
a sign in front of them, blanks in front of that. A plain number is a word without
sign and blanks that has digits.
-/

namespace Scanf

open CString

/-! ## Words -/

/-- `0x`, in either case. -/
def Prefix (p : List UInt8) : Prop := p = [0x30, 0x78] ∨ p = [0x30, 0x58]

instance (p : List UInt8) : Decidable (Prefix p) := inferInstanceAs (Decidable (_ ∨ _))

def Sign (p : List UInt8) (neg : Bool) : Prop :=
  (p = [] ∧ neg = false) ∨ (p = [0x2b] ∧ neg = false) ∨ (p = [0x2d] ∧ neg = true)

def Blank (b : List UInt8) : Prop := ∀ c ∈ b, isspace c = true

section
variable (bare : Bool)

def Unsigned (width : Nat) (u : List UInt8) (n : Nat) : Prop :=
  ∃ p ds, u = p ++ ds ∧ (p = [] ∨ Prefix p) ∧ (∀ c ∈ ds, isxdigit c = true) ∧ (ds ≠ [] ∨ (bare = true ∧ p ≠ [])) ∧
    u.length ≤ width ∧ n = xnum ds

def Number (width : Nat) (w : List UInt8) (neg : Bool) (n : Nat) : Prop :=
  ∃ b sgn u, w = b ++ (sgn ++ u) ∧ Blank b ∧ Sign sgn neg ∧ Unsigned bare (width - sgn.length) u n

end

/-- What may follow a word that is not as long as it may be. -/
def Ends (rest : List UInt8) : Prop := ∀ c ∈ rest.head?, isxdigit c = false ∧ c ≠ 0x78 ∧ c ≠ 0x58

/-! ## Reading a word -/

section
variable {bare : Bool} {width : Nat} {s rest : List UInt8} {neg : Bool} {n : Nat}

theorem scan_digits_some (h : scan_digits width s = some (n, rest)) :
    ∃ ds, s = ds ++ rest ∧ ds ≠ [] ∧ (∀ c ∈ ds, isxdigit c = true) ∧ ds.length ≤ width ∧ n = xnum ds := by
  unfold scan_digits at h
  by_cases hnil : (s.take width).takeWhile isxdigit = []
  · rw [if_pos hnil] at h
    cases h
  · rw [if_neg hnil] at h
    cases h
    have hfront : (s.take width).takeWhile isxdigit <+: s := (List.takeWhile_prefix _).trans (List.take_prefix _ _)
    refine ⟨_, (List.prefix_iff_eq_append.mp hfront).symm, hnil, fun c hc => List.mem_takeWhile_imp hc, ?_, rfl⟩
    exact Nat.le_trans (List.takeWhile_prefix _).length_le (List.length_take_le ..)

theorem is_prefix_some (h : is_prefix s = true) : ∃ p rest, s = p ++ rest ∧ Prefix p ∧ s.drop 2 = rest := by
  match s with
  | [] => cases h
  | [_] => cases h
  | c :: x :: s =>
    simp only [Bool.and_eq_true, Bool.or_eq_true, beq_iff_eq, is_prefix] at h
    obtain ⟨rfl, rfl | rfl⟩ := h
    · exact ⟨_, s, rfl, Or.inl rfl, rfl⟩
    · exact ⟨_, s, rfl, Or.inr rfl, rfl⟩

theorem Prefix.is_prefix {p : List UInt8} (h : Prefix p) (rest : List UInt8) : is_prefix (p ++ rest) = true := by
  rcases h with rfl | rfl
  · rfl
  · rfl

theorem Prefix.length {p : List UInt8} (h : Prefix p) : p.length = 2 := by
  rcases h with rfl | rfl
  · rfl
  · rfl

theorem scan_unsigned_some (h : scan_unsigned bare width s = some (n, rest)) :
    ∃ u, s = u ++ rest ∧ Unsigned bare width u n := by
  unfold scan_unsigned at h
  by_cases hp : 2 ≤ width ∧ is_prefix s = true
  · rw [if_pos hp] at h
    obtain ⟨hw, hp⟩ := hp
    obtain ⟨p, t, rfl, hpre, hdrop⟩ := is_prefix_some hp
    have hlen := hpre.length
    rw [hdrop] at h
    rcases Option.or_eq_some_iff.mp h with hd | ⟨-, hb⟩
    · obtain ⟨ds, rfl, hne, hds, hle, rfl⟩ := scan_digits_some hd
      refine ⟨p ++ ds, (List.append_assoc ..).symm, p, ds, rfl, Or.inr hpre, hds, Or.inl hne, ?_, rfl⟩
      rw [List.length_append]
      omega
    · cases bare with
      | false => cases hb
      | true =>
        cases hb
        have hpne : p ≠ [] := by
          rintro rfl
          cases hlen
        refine ⟨p, rfl, p, [], (List.append_nil p).symm, Or.inr hpre, fun c hc => absurd hc List.not_mem_nil,
          Or.inr ⟨rfl, hpne⟩, ?_, rfl⟩
        omega
  · rw [if_neg hp] at h
    obtain ⟨ds, rfl, hne, hds, hle, rfl⟩ := scan_digits_some h
    exact ⟨ds, rfl, [], ds, rfl, Or.inl rfl, hds, Or.inl hne, hle, rfl⟩

theorem scan_unsigned_word {u : List UInt8} (h : Unsigned bare width u n) (hrest : Ends rest) :
    scan_unsigned bare width (u ++ rest) = some (n, rest) := by
  obtain ⟨p, ds, rfl, hp, hds, hne, hlen, rfl⟩ := h
  rw [List.length_append] at hlen
  have hx : ∀ c ∈ rest.head?, isxdigit c = false := fun c hc => (hrest c hc).1
  unfold scan_unsigned
  rcases hp with rfl | hp
  · have hne' : ds ≠ [] := by
      rcases hne with hne | ⟨-, hne⟩
      · exact hne
      · exact absurd rfl hne
    rw [List.nil_append, is_prefix_word hds hne' fun c hc => (hrest c hc).2, if_neg fun h => Bool.false_ne_true h.2]
    rw [List.length_nil] at hlen
    exact scan_digits_word hne' hds (by omega) (.inr hx)
  · have hplen := hp.length
    have hdrop : (p ++ ds ++ rest).drop 2 = ds ++ rest := by
      rw [List.append_assoc, ← hplen, List.drop_left]
    rw [List.append_assoc, hp.is_prefix, if_pos ⟨by omega, rfl⟩, ← List.append_assoc, hdrop]
    by_cases h0 : ds = []
    · rcases hne with hne | ⟨rfl, -⟩
      · exact absurd h0 hne
      · have hnone : scan_digits (width - 2) ([] ++ rest) = none := by
          cases hd : scan_digits (width - 2) ([] ++ rest) with
          | none => rfl
          | some r =>
            obtain ⟨m, left⟩ := r
            obtain ⟨es, hes, hne, hxs, -⟩ := scan_digits_some hd
            obtain ⟨e, es', rfl⟩ := List.exists_cons_of_ne_nil hne
            rw [List.nil_append] at hes
            have := hx e (by rw [hes]; rfl)
            rw [hxs e List.mem_cons_self] at this
            cases this
        rw [h0, hnone]
        rfl
    · rw [scan_digits_word h0 hds (by omega) (.inr hx)]
      rfl

theorem scan_x_some (h : scan_x bare width s = some (neg, n, rest)) :
    ∃ w, s = w ++ rest ∧ Number bare width w neg n := by
  unfold scan_x at h
  have hs := (List.takeWhile_append_dropWhile (p := isspace) (l := s)).symm
  have hb : Blank (s.takeWhile isspace) := fun c hc => List.mem_takeWhile_imp hc
  generalize s.takeWhile isspace = b at hs hb
  generalize s.dropWhile isspace = t at hs h
  by_cases hsign : is_sign t = true
  · rw [if_pos hsign] at h
    obtain ⟨r, hr, heq⟩ := Option.map_eq_some_iff.mp h
    cases heq
    obtain ⟨u, htail, hu⟩ := scan_unsigned_some hr
    cases t with
    | nil => cases hsign
    | cons c t =>
      rw [List.tail_cons] at htail
      refine ⟨b ++ ([c] ++ u), ?_, b, [c], u, rfl, hb, ?_, hu⟩
      · rw [hs, htail]
        simp only [List.append_assoc, List.cons_append, List.nil_append]
      · simp only [is_sign, Bool.or_eq_true, beq_iff_eq] at hsign
        rcases hsign with rfl | rfl
        · exact Or.inr (Or.inr ⟨rfl, rfl⟩)
        · exact Or.inr (Or.inl ⟨rfl, rfl⟩)
  · rw [if_neg hsign] at h
    obtain ⟨r, hr, heq⟩ := Option.map_eq_some_iff.mp h
    cases heq
    obtain ⟨u, rfl, hu⟩ := scan_unsigned_some hr
    exact ⟨b ++ ([] ++ u), by rw [hs, List.nil_append, List.append_assoc], b, [], u, rfl, hb, Or.inl ⟨rfl, rfl⟩, hu⟩

theorem Unsigned.head {u : List UInt8} (h : Unsigned bare width u n) : ∃ c u', u = c :: u' ∧ isxdigit c = true := by
  obtain ⟨p, ds, rfl, hp, hds, hne, -⟩ := h
  rcases hp with rfl | rfl | rfl
  · obtain ⟨c, ds', rfl⟩ := List.exists_cons_of_ne_nil (hne.resolve_right fun hn => hn.2 rfl)
    exact ⟨c, ds', rfl, hds c List.mem_cons_self⟩
  · exact ⟨0x30, _, rfl, rfl⟩
  · exact ⟨0x30, _, rfl, rfl⟩

theorem scan_x_number {w : List UInt8} (h : Number bare width w neg n) (hrest : Ends rest) :
    scan_x bare width (w ++ rest) = some (neg, n, rest) := by
  obtain ⟨b, sgn, u, rfl, hb, hsgn, hu⟩ := h
  obtain ⟨c, u', hcu, hc⟩ := hu.head
  unfold scan_x
  rw [List.append_assoc, List.append_assoc, List.dropWhile_append_of_pos hb]
  have hscan := scan_unsigned_word hu hrest
  have hblank : isspace c = false := isxdigit_not_space hc
  have hdrop : ∀ d t, isspace d = false → (d :: t).dropWhile isspace = d :: t := fun d t hd =>
    List.dropWhile_cons_of_neg (by rw [hd]; exact Bool.false_ne_true)
  rcases hsgn with ⟨rfl, rfl⟩ | ⟨rfl, rfl⟩ | ⟨rfl, rfl⟩
  · have hsign : is_sign (u ++ rest) = false := by
      rw [hcu]
      exact isxdigit_not_sign hc
    rw [List.nil_append]
    have hd : (u ++ rest).dropWhile isspace = u ++ rest := by
      rw [hcu, List.cons_append, hdrop c _ hblank]
    simp only [hd, hsign, Bool.false_eq_true, if_false]
    rw [List.length_nil, Nat.sub_zero] at hscan
    rw [hscan]
    rfl
  · simp only [List.singleton_append, hdrop 0x2b _ rfl]
    rw [if_pos (show is_sign (0x2b :: (u ++ rest)) = true from rfl), List.tail_cons]
    rw [List.length_singleton] at hscan
    rw [hscan]
    rfl
  · simp only [List.singleton_append, hdrop 0x2d _ rfl]
    rw [if_pos (show is_sign (0x2d :: (u ++ rest)) = true from rfl), List.tail_cons]
    rw [List.length_singleton] at hscan
    rw [hscan]
    rfl

end

/-! ## Plain numbers -/

/-- A number at the end of the text, where blanks may follow. -/
def Last (bare : Bool) (width : Nat) (p : List UInt8) (neg : Bool) (n : Nat) : Prop :=
  ∃ w b, p = w ++ b ∧ Number bare width w neg n ∧ Blank b

def Odd (p : List UInt8) : Prop := (∃ c ∈ p, isspace c = true ∨ c = 0x2b ∨ c = 0x2d) ∨ Prefix p

section
variable {bare : Bool} {width : Nat} {p : List UInt8} {neg : Bool} {n : Nat}

theorem Unsigned.number (h : Unsigned false width p n) : Number bare width p false n := by
  obtain ⟨q, ds, rfl, hq, hds, hne, hlen, hn⟩ := h
  refine ⟨[], [], q ++ ds, rfl, fun c hc => absurd hc List.not_mem_nil, Or.inl ⟨rfl, rfl⟩, q, ds,
    rfl, hq, hds, ?_, hlen, hn⟩
  rcases hne with hne | ⟨hf, -⟩
  · exact Or.inl hne
  · cases hf

theorem Number.last {w : List UInt8} (h : Number bare width w neg n) : Last bare width w neg n :=
  ⟨w, [], (List.append_nil w).symm, h, fun _ hc => absurd hc List.not_mem_nil⟩

theorem Unsigned.chars (h : Unsigned bare width p n) {c : UInt8} (hc : c ∈ p) : isxdigit c = true ∨
    c = 0x78 ∨ c = 0x58 := by
  obtain ⟨q, ds, rfl, hq, hds, -⟩ := h
  rcases List.mem_append.mp hc with hc | hc
  · rcases hq with rfl | rfl | rfl
    · exact absurd hc List.not_mem_nil
    · rcases List.mem_cons.mp hc with rfl | hc
      · exact Or.inl rfl
      · exact Or.inr (Or.inl (List.mem_singleton.mp hc))
    · rcases List.mem_cons.mp hc with rfl | hc
      · exact Or.inl rfl
      · exact Or.inr (Or.inr (List.mem_singleton.mp hc))
  · exact Or.inl (hds c hc)

theorem Number.chars (h : Number bare width p neg n) {c : UInt8} (hc : c ∈ p) :
    (isspace c = true ∨ c = 0x2b ∨ c = 0x2d) ∨ isxdigit c = true ∨ c = 0x78 ∨ c = 0x58 := by
  obtain ⟨b, sgn, u, rfl, hb, hsgn, hu⟩ := h
  rcases List.mem_append.mp hc with hc | hc
  · exact Or.inl (Or.inl (hb c hc))
  · rcases List.mem_append.mp hc with hc | hc
    · rcases hsgn with ⟨rfl, -⟩ | ⟨rfl, -⟩ | ⟨rfl, -⟩
      · exact absurd hc List.not_mem_nil
      · exact Or.inl (Or.inr (Or.inl (List.mem_singleton.mp hc)))
      · exact Or.inl (Or.inr (Or.inr (List.mem_singleton.mp hc)))
    · exact Or.inr (hu.chars hc)

theorem Last.chars (h : Last bare width p neg n) {c : UInt8} (hc : c ∈ p) :
    (isspace c = true ∨ c = 0x2b ∨ c = 0x2d) ∨ isxdigit c = true ∨ c = 0x78 ∨ c = 0x58 := by
  obtain ⟨w, b, rfl, hw, hb⟩ := h
  rcases List.mem_append.mp hc with hc | hc
  · exact hw.chars hc
  · exact Or.inl (Or.inl (hb c hc))

theorem separator_not_in_number {c : UInt8} (hsep : c = 0x2e ∨ c = 0x3a) :
    ¬ ((isspace c = true ∨ c = 0x2b ∨ c = 0x2d) ∨ isxdigit c = true ∨ c = 0x78 ∨ c = 0x58) := by
  rcases hsep with rfl | rfl
  · decide
  · decide

theorem Unsigned.not_odd (h : Unsigned false width p n) : ¬ Odd p := by
  have hplain : ∀ c : UInt8, isxdigit c = true ∨ c = 0x78 ∨ c = 0x58 →
    ¬ (isspace c = true ∨ c = 0x2b ∨ c = 0x2d) := by
    decide +kernel
  rintro (⟨c, hc, hodd⟩ | hpre)
  · exact hplain c (h.chars hc) hodd
  · obtain ⟨q, ds, hp, hq, hds, hne, -⟩ := h
    have hne' : ds ≠ [] := by
      rcases hne with hne | ⟨hf, -⟩
      · exact hne
      · cases hf
    have hlen := congrArg List.length hp
    rw [hpre.length, List.length_append] at hlen
    have hpos := List.length_pos_iff.mpr hne'
    rcases hq with rfl | hq
    · rw [List.nil_append] at hp
      rw [hp] at hpre
      rcases hpre with rfl | rfl
      · exact absurd (hds 0x78 (List.mem_cons_of_mem _ List.mem_cons_self)) (by decide)
      · exact absurd (hds 0x58 (List.mem_cons_of_mem _ List.mem_cons_self)) (by decide)
    · have := hq.length
      omega

theorem Number.plain (h : Number bare width p neg n) (hodd : ¬ Odd p) : Unsigned false width p n ∧ neg = false := by
  obtain ⟨b, sgn, u, rfl, hb, hsgn, hu⟩ := h
  have hnone : ∀ c ∈ b ++ (sgn ++ u), ¬ (isspace c = true ∨ c = 0x2b ∨ c = 0x2d) := fun c hc hn =>
    hodd (Or.inl ⟨c, hc, hn⟩)
  have hbnil : b = [] := List.eq_nil_iff_forall_not_mem.mpr fun c hc =>
    hnone c (List.mem_append_left _ hc) (Or.inl (hb c hc))
  rcases hsgn with ⟨rfl, rfl⟩ | ⟨rfl, -⟩ | ⟨rfl, -⟩
  · rw [hbnil, List.nil_append, List.nil_append] at hodd ⊢
    obtain ⟨q, ds, rfl, hq, hds, hne, hlen, hn⟩ := hu
    refine ⟨⟨q, ds, rfl, hq, hds, Or.inl ?_, hlen, hn⟩, rfl⟩
    rintro rfl
    rcases hne with hne | ⟨-, hqne⟩
    · exact hne rfl
    · rw [List.append_nil] at hodd
      exact hodd (Or.inr (hq.resolve_left hqne))
  · exact absurd (Or.inr (Or.inl rfl))
      (hnone 0x2b (List.mem_append_right _ (List.mem_append_left _ List.mem_cons_self)))
  · exact absurd (Or.inr (Or.inr rfl))
      (hnone 0x2d (List.mem_append_right _ (List.mem_append_left _ List.mem_cons_self)))

theorem Last.plain (h : Last bare width p neg n) (hodd : ¬ Odd p) : Unsigned false width p n ∧ neg = false := by
  obtain ⟨w, b, rfl, hw, hb⟩ := h
  have hbnil : b = [] := List.eq_nil_iff_forall_not_mem.mpr fun c hc =>
    hodd (Or.inl ⟨c, List.mem_append_right _ hc, Or.inl (hb c hc)⟩)
  rw [hbnil, List.append_nil] at hodd ⊢
  exact hw.plain hodd

theorem Unsigned.lt (h : Unsigned bare width p n) : n < 16 ^ width := by
  obtain ⟨q, ds, rfl, -, hds, -, hlen, rfl⟩ := h
  rw [List.length_append] at hlen
  exact Nat.lt_of_lt_of_le (xnum_lt hds) (Nat.pow_le_pow_right (by decide) (by omega))

end

/-! ## The end of the text -/

theorem at_end_iff {s : List UInt8} : at_end s = true ↔ Blank s := by
  unfold at_end Blank
  rw [decide_eq_true_eq, List.dropWhile_eq_nil_iff]

theorem Blank.ends {b : List UInt8} (h : Blank b) : Ends b := by
  have hblank : ∀ c : UInt8, isspace c = true → isxdigit c = false ∧ c ≠ 0x78 ∧ c ≠ 0x58 := by
    decide +kernel
  intro c hc
  exact hblank c (h c (List.mem_of_mem_head? hc))

theorem ends_cons {c : UInt8} (h : c = 0x2e ∨ c = 0x3a) (rest : List UInt8) : Ends (c :: rest) := by
  intro d hd
  cases hd
  rcases h with rfl | rfl
  · decide
  · decide

end Scanf
