import S390Tools.Zdev.CcwRange
import S390Tools.Zdev.IdFormat

/-!
# The format of CCWGROUP device IDs (zdev/src/ccwgroup.c)

Up to three CCW device IDs with colons between them. `strsep` leaves an empty string
behind a colon at the end; behind three IDs that is taken for the end of the text.
-/

namespace Zdev.Ccw

open CString Scanf

/-! ## Formats -/

/-- Different device IDs with single colons between them. -/
def GroupDocumented (id : List UInt8) (ds : CcwgroupDevid) : Prop :=
  ds.length ≤ CCWGROUP_MAX_DEVIDS ∧ List.Forall₂ Documented (id.splitOn 0x3a) ds ∧ ds.Nodup

section
variable (bare : Bool)

def GroupAccepted (id : List UInt8) (ds : CcwgroupDevid) : Prop :=
  ds.length ≤ CCWGROUP_MAX_DEVIDS ∧ ds.Nodup ∧ ∃ ps, List.Forall₂ (Accepted bare) ps ds ∧
    (id.splitOn 0x3a = ps ∨ (ps.length = CCWGROUP_MAX_DEVIDS ∧ id.splitOn 0x3a = ps ++ [[]]))

def OddGroup (id : List UInt8) : Prop :=
  (∃ p ∈ id.splitOn 0x3a, OddId p) ∨ (id.splitOn 0x3a).length = CCWGROUP_MAX_DEVIDS + 1

def GroupLoose (id : List UInt8) : Prop := (∃ ds, GroupAccepted bare id ds) ∧ OddGroup id

end

/-! ## Pieces -/

def pieces (next : Option (List UInt8)) : List (List UInt8) := next.elim [] (List.splitOn 0x3a)

theorem pieces_inj {a b : Option (List UInt8)} (h : pieces a = pieces b) : a = b := by
  cases a with
  | none =>
    cases b with
    | none => rfl
    | some b => exact absurd h.symm (List.splitOn_ne_nil 0x3a b)
  | some a =>
    cases b with
    | none => exact absurd h (List.splitOn_ne_nil 0x3a a)
    | some b =>
      have ha := @List.intercalate_splitOn _ a _ _ (0x3a : UInt8)
      have hb := @List.intercalate_splitOn _ b _ _ (0x3a : UInt8)
      rw [← ha, ← hb]
      exact congrArg (fun l => some (List.intercalate [0x3a] l)) h

theorem strsep_some (s : List UInt8) :
    ∃ curr next, strsep 0x3a (some s) = some (curr, next) ∧ pieces (some s) = curr :: pieces next := by
  by_cases hmem : (0x3a : UInt8) ∈ s
  · obtain ⟨a, b, rfl, hno⟩ := List.eq_append_cons_of_mem hmem
    have hall : ∀ c ∈ a, (c != 0x3a) = true := fun c hc => by
      rw [bne_iff_ne]
      exact fun heq => hno (heq ▸ hc)
    refine ⟨a, some b, ?_, ?_⟩
    · rw [strsep, List.takeWhile_append_of_pos hall, List.dropWhile_append_of_pos hall,
        List.takeWhile_cons_of_neg (by decide), List.dropWhile_cons_of_neg (by decide), List.append_nil]
    · exact List.splitOn_append_cons_self_of_not_mem hno b
  · have hall : ∀ c ∈ s, (c != 0x3a) = true := fun c hc => by
      rw [bne_iff_ne]
      exact fun heq => hmem (heq ▸ hc)
    refine ⟨s, none, ?_, List.splitOn_eq_singleton hmem⟩
    rw [strsep, List.takeWhile_eq_self_iff.mpr hall, List.dropWhile_eq_nil_iff.mpr hall]

section
variable {bare : Bool}

theorem parse_devids_ok : ∀ {n : Nat} {next rest : Option (List UInt8)} {ds : List CcwDevid},
    parse_devids bare n next = .ok (ds, rest) →
      ∃ ps, List.Forall₂ (Accepted bare) ps ds ∧ pieces next = ps ++ pieces rest ∧
        (ps.length = n ∨ (ps.length < n ∧ rest = none))
  | 0, next, rest, ds, h => by
    cases h
    exact ⟨[], .nil, rfl, Or.inl rfl⟩
  | n + 1, none, rest, ds, h => by
    cases h
    exact ⟨[], .nil, rfl, Or.inr ⟨Nat.succ_pos n, rfl⟩⟩
  | n + 1, some s, rest, ds, h => by
    obtain ⟨curr, next, hsep, hpieces⟩ := strsep_some s
    rw [parse_devids, hsep] at h
    simp only [bind, Except.bind] at h
    cases hp : ccw_parse_devid bare curr with
    | error e =>
      rw [hp] at h
      cases h
    | ok d =>
      rw [hp] at h
      simp only at h
      cases hmore : parse_devids bare n next with
      | error e =>
        rw [hmore] at h
        cases h
      | ok r =>
        rw [hmore] at h
        cases h
        obtain ⟨ps, hall, heq, hlen⟩ := parse_devids_ok hmore
        refine ⟨curr :: ps, .cons (parse_iff.1 hp) hall, ?_, ?_⟩
        · rw [hpieces, heq]
          rfl
        · rw [List.length_cons]
          rcases hlen with hlen | ⟨hlen, hnone⟩
          · exact Or.inl (by omega)
          · exact Or.inr ⟨by omega, hnone⟩

theorem parse_devids_eq : ∀ {n : Nat} {next rest : Option (List UInt8)} {ps : List (List UInt8)}
    {ds : List CcwDevid},
    List.Forall₂ (Accepted bare) ps ds → pieces next = ps ++ pieces rest →
      (ps.length = n ∨ (ps.length < n ∧ rest = none)) → parse_devids bare n next = .ok (ds, rest)
  | 0, next, rest, ps, ds, hall, heq, hlen => by
    rcases hlen with hlen | ⟨hlen, -⟩
    · rw [List.length_eq_zero_iff] at hlen
      rw [hlen] at hall heq
      cases hall
      rw [pieces_inj heq]
      rfl
    · omega
  | n + 1, none, rest, ps, ds, hall, heq, hlen => by
    have hnil := List.append_eq_nil_iff.mp heq.symm
    rw [hnil.1] at hall
    cases hall
    rw [show rest = none from pieces_inj hnil.2]
    rfl
  | n + 1, some s, rest, [], ds, hall, heq, hlen => by
    rcases hlen with hlen | ⟨-, hnone⟩
    · cases hlen
    · rw [hnone] at heq
      exact absurd heq (List.splitOn_ne_nil 0x3a s)
  | n + 1, some s, rest, p :: ps, ds, hall, heq, hlen => by
    obtain ⟨curr, next, hsep, hpieces⟩ := strsep_some s
    rw [hpieces, List.cons_append, List.cons.injEq] at heq
    cases hall with
    | cons hp hall =>
      have hlen' : ps.length = n ∨ (ps.length < n ∧ rest = none) := by
        rw [List.length_cons] at hlen
        rcases hlen with hlen | ⟨hlen, hnone⟩
        · exact Or.inl (by omega)
        · exact Or.inr ⟨by omega, hnone⟩
      have hmore := parse_devids_eq hall heq.2 hlen'
      rw [parse_devids, hsep]
      simp only [bind, Except.bind]
      rw [heq.1, parse_iff.2 hp, hmore]
      rfl

theorem has_duplicate_iff : ∀ {ds : List CcwDevid}, has_duplicate ds = false ↔ ds.Nodup
  | [] => iff_of_true rfl List.nodup_nil
  | d :: ds => by
    have hany : (ds.any fun e => ccw_cmp_parsed_ids d e == 0) = false ↔ d ∉ ds := by
      rw [List.any_eq_false]
      constructor
      · intro h hd
        exact h d hd (beq_iff_eq.mpr (cmp_eq.2 rfl))
      · intro h e he heq
        exact h (cmp_eq.1 (beq_iff_eq.mp heq) ▸ he)
    rw [has_duplicate, Bool.or_eq_false_iff, hany, has_duplicate_iff, List.nodup_cons]

theorem group_parse_iff {id : List UInt8} {ds : CcwgroupDevid} :
    ccwgroup_parse_devid bare id = .ok ds ↔ GroupAccepted bare id ds := by
  unfold ccwgroup_parse_devid GroupAccepted
  constructor
  · intro h
    simp only [bind, Except.bind] at h
    cases hp : parse_devids bare CCWGROUP_MAX_DEVIDS (some id) with
    | error e =>
      rw [hp] at h
      cases h
    | ok r =>
      obtain ⟨es, rest⟩ := r
      rw [hp] at h
      dsimp only at h
      obtain ⟨ps, hall, heq, hlen⟩ := parse_devids_ok hp
      by_cases h0 : es.length = 0
      · rw [if_pos h0] at h
        cases h
      · rw [if_neg h0] at h
        by_cases hany : (rest.any fun x => decide (x ≠ [])) = true
        · rw [if_pos hany] at h
          cases h
        · rw [if_neg hany] at h
          by_cases hdup : has_duplicate es = true
          · rw [if_pos hdup] at h
            cases h
          · rw [if_neg hdup] at h
            cases h
            have hl := hall.length_eq
            refine ⟨by omega, has_duplicate_iff.1 (Bool.eq_false_iff.mpr hdup), ps, hall, ?_⟩
            cases rest with
            | none => exact Or.inl (heq.trans (List.append_nil ps))
            | some t =>
              have ht : t = [] := by
                by_contra hne
                exact hany (by simp [hne])
              rw [ht] at heq
              exact Or.inr ⟨hlen.resolve_right fun hn => Option.some_ne_none _ hn.2, heq⟩
  · rintro ⟨hle, hnodup, ps, hall, hsplit⟩
    have hl := hall.length_eq
    have hrest : ∃ rest : Option (List UInt8), pieces (some id) = ps ++ pieces rest ∧
        (rest.any fun x => decide (x ≠ [])) = false ∧
        (ps.length = CCWGROUP_MAX_DEVIDS ∨ (ps.length < CCWGROUP_MAX_DEVIDS ∧ rest = none)) := by
      rcases hsplit with hsplit | ⟨hlen, hsplit⟩
      · have hcount : ps.length = CCWGROUP_MAX_DEVIDS ∨ ps.length < CCWGROUP_MAX_DEVIDS := by omega
        exact ⟨none, hsplit.trans (List.append_nil ps).symm, rfl, hcount.imp_right fun hn => ⟨hn, rfl⟩⟩
      · exact ⟨some [], hsplit, rfl, Or.inl hlen⟩
    obtain ⟨rest, heq, hany, hlen⟩ := hrest
    have hpos : ds.length ≠ 0 := by
      intro h0
      rw [List.length_eq_zero_iff] at h0
      rw [h0] at hall
      cases hall
      rcases hsplit with hsplit | ⟨hlen, -⟩
      · exact List.splitOn_ne_nil 0x3a id hsplit
      · cases hlen
    rw [parse_devids_eq hall heq hlen]
    simp only [bind, Except.bind]
    rw [if_neg hpos, if_neg (by rw [hany]; exact Bool.false_ne_true),
      if_neg (by rw [has_duplicate_iff.2 hnodup]; exact Bool.false_ne_true)]
    rfl

/-! ## Where the two agree -/

theorem forall₂_documented {ps : List (List UInt8)} {ds : List CcwDevid} (h : List.Forall₂ (Accepted bare) ps ds)
    (hodd : ∀ p ∈ ps, ¬ OddId p) : List.Forall₂ Documented ps ds := by
  induction h with
  | nil => exact .nil
  | cons hp _ ih =>
    exact .cons (hp.documented (hodd _ List.mem_cons_self)) (ih fun p hmem => hodd p (List.mem_cons_of_mem _ hmem))

theorem forall₂_not_odd {ps : List (List UInt8)} {ds : List CcwDevid} (h : List.Forall₂ Documented ps ds) :
    ∀ p ∈ ps, ¬ OddId p := by
  induction h with
  | nil => exact fun p hp => absurd hp List.not_mem_nil
  | cons hp _ ih =>
    intro q hq
    rcases List.mem_cons.mp hq with rfl | hq
    · exact hp.not_odd
    · exact ih q hq

theorem group_agree_iff (id : List UInt8) :
    ((∃ ds, ccwgroup_parse_devid bare id = .ok ds) ↔ ∃ ds, GroupDocumented id ds) ↔ ¬ GroupLoose bare id := by
  simp only [group_parse_iff]
  constructor
  · rintro hiff ⟨hacc, hodd⟩
    obtain ⟨ds, hle, hall, -⟩ := hiff.mp hacc
    rcases hodd with ⟨p, hp, hoddp⟩ | hlen
    · exact forall₂_not_odd hall p hp hoddp
    · have := hall.length_eq
      omega
  · intro hloose
    constructor
    · rintro ⟨ds, hacc⟩
      have hodd : ¬ OddGroup id := fun hn => hloose ⟨⟨ds, hacc⟩, hn⟩
      obtain ⟨hle, hnodup, ps, hall, hsplit⟩ := hacc
      rcases hsplit with hsplit | ⟨hlen, hsplit⟩
      · refine ⟨ds, hle, ?_, hnodup⟩
        rw [hsplit]
        exact forall₂_documented hall fun p hp hoddp => hodd (Or.inl ⟨p, by rw [hsplit]; exact hp, hoddp⟩)
      · refine absurd (Or.inr ?_) hodd
        rw [hsplit, List.length_append, hlen]
        rfl
    · rintro ⟨ds, hle, hall, hnodup⟩
      exact ⟨ds, hle, hnodup, _, hall.imp fun _ _ hp => hp.accepted, Or.inl rfl⟩

end

end Zdev.Ccw
