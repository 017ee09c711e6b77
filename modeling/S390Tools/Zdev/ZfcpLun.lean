import S390Tools.Zdev.GroupFormat

/-!
# zFCP LUN IDs (zdev/src/zfcp_lun.c)

The CCW device ID of an FCP device, a WWPN and a LUN with colons between them, the last
two in 16 digits. The number of characters is compared with 16 before `sscanf` reads them.
-/

namespace Zdev.Ccw

open CString Scanf

structure ZfcpLunDevid where
  fcp_dev : CcwDevid
  wwpn : UInt64
  lun : UInt64
  deriving DecidableEq

inductive ExitCode
  | invalid_id
  | zfcp_invalid_wwpn
  | zfcp_invalid_lun
  deriving DecidableEq

section
variable (bare : Bool)

/-- `strncasecmp(curr, "0x", 2) == 0` and the step over it. -/
def skip_0x (curr : List UInt8) : List UInt8 := if is_prefix curr then curr.drop 2 else curr

/-- `sscanf(curr, "%16" SCNx64 " %c", &wwpn, &dummy) == 1`. -/
def sscanf_16 (curr : List UInt8) : Option Nat := do
  let (n, s) ← scan_ux bare 64 16 curr
  if at_end s then some n else none

def parse_16 (rc : ExitCode) (name : String) (curr : List UInt8) : Except (ExitCode × String) Nat :=
  if (skip_0x curr).length ≠ 16 then .error (rc, name ++ " not in 16 digit format")
  else
    match sscanf_16 bare (skip_0x curr) with
    | none => .error (rc, name ++ " not a valid hex number")
    | some n => .ok n

def parse_wwpn_lun (curr : List UInt8) : Except (ExitCode × String) (Nat × Nat) :=
  match curr.dropWhile (· != 0x3a) with
  | [] => .error (.invalid_id, "Missing second colon (':')")
  | _ :: rest =>
    match parse_16 bare .zfcp_invalid_wwpn "WWPN" (curr.takeWhile (· != 0x3a)) with
    | .error e => .error e
    | .ok wwpn =>
      match parse_16 bare .zfcp_invalid_lun "LUN" rest with
      | .error e => .error e
      | .ok lun => .ok (wwpn, lun)

def zfcp_lun_parse_devid (id : List UInt8) : Except (ExitCode × String) ZfcpLunDevid :=
  match id.dropWhile (· != 0x3a) with
  | [] => .error (.invalid_id, "Missing colon (':')")
  | _ :: curr =>
    match ccw_parse_devid bare (id.takeWhile (· != 0x3a)) with
    | .error reason => .error (.invalid_id, reason)
    | .ok fcp_dev =>
      match parse_wwpn_lun bare curr with
      | .error e => .error e
      | .ok (wwpn, lun) => .ok { fcp_dev, wwpn := .ofNat wwpn, lun := .ofNat lun }

end

def hex16 (n : Nat) : List UInt8 := List.replicate (16 - (hex n).length) 0x30 ++ hex n

def zfcp_lun_devid_to_str (devid : ZfcpLunDevid) : List UInt8 :=
  ccw_devid_to_str devid.fcp_dev ++ 0x3a :: ([0x30, 0x78] ++ hex16 devid.wwpn.toNat ++ 0x3a ::
    ([0x30, 0x78] ++ hex16 devid.lun.toNat))

def zfcp_lun_normalize_id (bare : Bool) (id : List UInt8) : Option (List UInt8) :=
  (zfcp_lun_parse_devid bare id).toOption.map zfcp_lun_devid_to_str

/-! ## Formats -/

def Digits16 (p : List UInt8) (n : Nat) : Prop :=
  ∃ q ds, p = q ++ ds ∧ (q = [] ∨ Prefix q) ∧ ds.length = 16 ∧ (∀ c ∈ ds, isxdigit c = true) ∧ n = xnum ds

def ZfcpDocumented (id : List UInt8) (d : ZfcpLunDevid) : Prop :=
  ∃ p q r, id.splitOn 0x3a = [p, q, r] ∧ Documented p d.fcp_dev ∧ Digits16 q d.wwpn.toNat ∧ Digits16 r d.lun.toNat

section
variable (bare : Bool)

def Chars16 (p : List UInt8) (n : Nat) : Prop :=
  (skip_0x p).length = 16 ∧ ∃ neg k, Last bare 16 (skip_0x p) neg k ∧ n = unsigned 64 neg k

def ZfcpAccepted (id : List UInt8) (d : ZfcpLunDevid) : Prop :=
  ∃ p q r, id.splitOn 0x3a = [p, q, r] ∧ Accepted bare p d.fcp_dev ∧ Chars16 bare q d.wwpn.toNat ∧
    Chars16 bare r d.lun.toNat

def Odd16 (p : List UInt8) : Prop := ∃ c ∈ skip_0x p, isxdigit c = false

def OddZfcp (id : List UInt8) : Prop := ∃ p q r, id.splitOn 0x3a = [p, q, r] ∧ (OddId p ∨ Odd16 q ∨ Odd16 r)

def ZfcpLoose (id : List UInt8) : Prop := (∃ d, ZfcpAccepted bare id d) ∧ OddZfcp id

end

/-! ## Numbers of 16 characters -/

section
variable {bare : Bool} {p : List UInt8} {n : Nat}

theorem unsigned_lt (bits : Nat) (neg : Bool) (k : Nat) : unsigned bits neg k < 2 ^ bits := by
  unfold unsigned
  have hpos : 0 < 2 ^ bits := Nat.two_pow_pos bits
  by_cases hneg : neg = true
  · rw [if_pos hneg]
    exact Nat.mod_lt _ hpos
  · rw [if_neg hneg]
    exact Nat.mod_lt _ hpos

theorem Chars16.lt (h : Chars16 bare p n) : n < 2 ^ 64 := by
  obtain ⟨-, neg, k, -, rfl⟩ := h
  exact unsigned_lt 64 neg k

theorem sscanf_16_iff {s : List UInt8} : sscanf_16 bare s = some n ↔ ∃ neg k, Last bare 16 s neg k ∧
    n = unsigned 64 neg k := by
  unfold sscanf_16 scan_ux
  constructor
  · intro h
    obtain ⟨⟨v, rest⟩, hscan, hend⟩ := Option.bind_eq_some_iff.mp h
    obtain ⟨⟨neg, k, rest'⟩, hr, heq⟩ := Option.map_eq_some_iff.mp hscan
    cases heq
    dsimp only at hend
    by_cases hat : at_end rest = true
    · rw [if_pos hat] at hend
      cases hend
      obtain ⟨w, rfl, hw⟩ := scan_x_some hr
      exact ⟨neg, k, ⟨w, rest, rfl, hw, at_end_iff.1 hat⟩, rfl⟩
    · rw [if_neg hat] at hend
      cases hend
  · rintro ⟨neg, k, ⟨w, b, rfl, hw, hb⟩, rfl⟩
    rw [scan_x_number hw hb.ends]
    show (if at_end b = true then some (unsigned 64 neg k) else none) = _
    rw [if_pos (at_end_iff.2 hb)]

theorem parse_16_iff {rc : ExitCode} {name : String} : parse_16 bare rc name p = .ok n ↔ Chars16 bare p n := by
  unfold parse_16 Chars16
  by_cases hlen : (skip_0x p).length = 16
  · rw [if_neg (fun hn => hn hlen), ← sscanf_16_iff]
    cases sscanf_16 bare (skip_0x p) with
    | none => exact iff_of_false (fun h => by cases h) fun h => by cases h.2
    | some m => exact ⟨fun h => ⟨hlen, by cases h; rfl⟩, fun h => by cases h.2; rfl⟩
  · rw [if_pos hlen]
    exact iff_of_false (fun h => by cases h) fun h => hlen h.1

theorem Chars16.no_colon (h : Chars16 bare p n) : (0x3a : UInt8) ∉ p := by
  obtain ⟨-, neg, k, hlast, -⟩ := h
  intro hmem
  have hno : (0x3a : UInt8) ∉ skip_0x p := fun hn => separator_not_in_number (Or.inr rfl) (hlast.chars hn)
  unfold skip_0x at hno
  by_cases hp : is_prefix p = true
  · obtain ⟨q, t, rfl, hq, hdrop⟩ := is_prefix_some hp
    rw [if_pos hp, hdrop] at hno
    rcases List.mem_append.mp hmem with hm | hm
    · rcases hq with rfl | rfl
      · exact absurd hm (by decide)
      · exact absurd hm (by decide)
    · exact hno hm
  · rw [if_neg hp] at hno
    exact hno hmem

theorem Digits16.skip (h : Digits16 p n) : (skip_0x p).length = 16 ∧
    (∀ c ∈ skip_0x p, isxdigit c = true) ∧ n = xnum (skip_0x p) := by
  obtain ⟨q, ds, rfl, hq, hlen, hds, hn⟩ := h
  have hskip : skip_0x (q ++ ds) = ds := by
    unfold skip_0x
    rcases hq with rfl | hq
    · have hne : ds ≠ [] := by
        rintro rfl
        cases hlen
      have hno := @is_prefix_word ds [] hds hne fun c hc => by cases hc
      rw [List.append_nil] at hno
      rw [List.nil_append, hno, if_neg Bool.false_ne_true]
    · rw [hq.is_prefix, if_pos rfl, ← hq.length, List.drop_left]
  rw [hskip]
  exact ⟨hlen, hds, hn⟩

theorem digits16_of_skip (hlen : (skip_0x p).length = 16) (hds : ∀ c ∈ skip_0x p, isxdigit c = true) :
    Digits16 p (xnum (skip_0x p)) := by
  by_cases hp : is_prefix p = true
  · obtain ⟨q, t, rfl, hq, hdrop⟩ := is_prefix_some hp
    have hskip : skip_0x (q ++ t) = t := by
      unfold skip_0x
      rw [if_pos hp, hdrop]
    rw [hskip] at hlen hds ⊢
    exact ⟨q, t, rfl, Or.inr hq, hlen, hds, rfl⟩
  · have hskip : skip_0x p = p := by
      unfold skip_0x
      rw [if_neg hp]
    rw [hskip] at hlen hds ⊢
    exact ⟨[], p, rfl, Or.inl rfl, hlen, hds, rfl⟩

theorem last_digits {ds : List UInt8} (hlen : ds.length = 16) (hds : ∀ c ∈ ds, isxdigit c = true) :
    Last bare 16 ds false (xnum ds) ∧ unsigned 64 false (xnum ds) = xnum ds := by
  have hne : ds ≠ [] := by
    rintro rfl
    cases hlen
  have hu : Unsigned false 16 ds (xnum ds) := ⟨[], ds, rfl, Or.inl rfl, hds, Or.inl hne, by omega, rfl⟩
  refine ⟨hu.number.last, ?_⟩
  have hlt := hu.lt
  unfold unsigned
  rw [if_neg Bool.false_ne_true]
  exact Nat.mod_eq_of_lt (by omega)

theorem Digits16.chars16 (h : Digits16 p n) : Chars16 bare p n := by
  obtain ⟨hlen, hds, rfl⟩ := h.skip
  obtain ⟨hlast, hval⟩ := @last_digits bare _ hlen hds
  exact ⟨hlen, false, _, hlast, hval.symm⟩

theorem Digits16.not_odd (h : Digits16 p n) : ¬ Odd16 p := by
  rintro ⟨c, hc, hno⟩
  rw [h.skip.2.1 c hc] at hno
  cases hno

theorem Chars16.digits16 (h : Chars16 bare p n) (hodd : ¬ Odd16 p) : Digits16 p n := by
  obtain ⟨hlen, neg, k, hlast, rfl⟩ := h
  have hds : ∀ c ∈ skip_0x p, isxdigit c = true := by
    intro c hc
    cases hx : isxdigit c with
    | true => rfl
    | false => exact absurd ⟨c, hc, hx⟩ hodd
  have hplain : ¬ Odd (skip_0x p) := by
    have hne : skip_0x p ≠ [] := by
      intro h0
      rw [h0] at hlen
      cases hlen
    have hu : Unsigned false 16 (skip_0x p) (xnum (skip_0x p)) :=
      ⟨[], _, rfl, Or.inl rfl, hds, Or.inl hne, by omega, rfl⟩
    exact hu.not_odd
  obtain ⟨⟨q, ds, hp, hq, hds', -, -, rfl⟩, rfl⟩ := hlast.plain hplain
  have hqnil : q = [] := by
    rcases hq with hq | rfl | rfl
    · exact hq
    · exact absurd (hds 0x78 (by rw [hp]; exact List.mem_append_left _ (by decide))) (by decide)
    · exact absurd (hds 0x58 (by rw [hp]; exact List.mem_append_left _ (by decide))) (by decide)
  rw [hqnil, List.nil_append] at hp
  rw [← hp, (@last_digits bare _ hlen hds).2]
  exact digits16_of_skip hlen hds

end

/-! ## What is accepted -/

theorem at_colon (s : List UInt8) :
    (s.dropWhile (· != 0x3a) = [] ∧ (0x3a : UInt8) ∉ s) ∨
      ∃ a b, s = a ++ 0x3a :: b ∧ (0x3a : UInt8) ∉ a ∧ s.takeWhile (· != 0x3a) = a ∧
        s.dropWhile (· != 0x3a) = 0x3a :: b := by
  by_cases hmem : (0x3a : UInt8) ∈ s
  · obtain ⟨a, b, rfl, hno⟩ := List.eq_append_cons_of_mem hmem
    have hall : ∀ c ∈ a, (c != 0x3a) = true := fun c hc => by
      rw [bne_iff_ne]
      exact fun heq => hno (heq ▸ hc)
    refine Or.inr ⟨a, b, rfl, hno, ?_, ?_⟩
    · rw [List.takeWhile_append_of_pos hall, List.takeWhile_cons_of_neg (by decide), List.append_nil]
    · rw [List.dropWhile_append_of_pos hall, List.dropWhile_cons_of_neg (by decide)]
  · refine Or.inl ⟨List.dropWhile_eq_nil_iff.mpr fun c hc => ?_, hmem⟩
    rw [bne_iff_ne]
    exact fun heq => hmem (heq ▸ hc)

section
variable {bare : Bool}

theorem parse_wwpn_lun_iff {curr : List UInt8} {wwpn lun : Nat} :
    parse_wwpn_lun bare curr = .ok (wwpn, lun) ↔
      ∃ q r, curr.splitOn 0x3a = [q, r] ∧ Chars16 bare q wwpn ∧ Chars16 bare r lun := by
  unfold parse_wwpn_lun
  rcases at_colon curr with ⟨hdrop, hno⟩ | ⟨q, r, rfl, hno, htake, hdrop⟩
  · rw [hdrop]
    refine iff_of_false (fun h => by cases h) ?_
    rintro ⟨q, r, hsplit, -⟩
    rw [List.splitOn_eq_singleton hno] at hsplit
    cases hsplit
  · rw [hdrop, htake]
    dsimp only
    have hiff : (∃ q' r', (q ++ 0x3a :: r).splitOn 0x3a = [q', r'] ∧ Chars16 bare q' wwpn ∧ Chars16 bare r' lun) ↔
        Chars16 bare q wwpn ∧ Chars16 bare r lun := by
      rw [List.splitOn_append_cons_self_of_not_mem hno]
      constructor
      · rintro ⟨q', r', hsplit, hq, hr⟩
        rw [List.cons.injEq] at hsplit
        rw [hsplit.1, ← (split_one.1 hsplit.2).1]
        exact ⟨hq, hr⟩
      · rintro ⟨hq, hr⟩
        exact ⟨q, r, by rw [List.splitOn_eq_singleton hr.no_colon], hq, hr⟩
    rw [hiff]
    cases hw : parse_16 bare .zfcp_invalid_wwpn "WWPN" q with
    | error e =>
      refine iff_of_false (fun h => by cases h) fun h => ?_
      rw [parse_16_iff.2 h.1] at hw
      cases hw
    | ok w =>
      dsimp only
      cases hl : parse_16 bare .zfcp_invalid_lun "LUN" r with
      | error e =>
        refine iff_of_false (fun h => by cases h) fun h => ?_
        rw [parse_16_iff.2 h.2] at hl
        cases hl
      | ok l =>
        constructor
        · intro h
          cases h
          exact ⟨parse_16_iff.1 hw, parse_16_iff.1 hl⟩
        · rintro ⟨hq, hr⟩
          rw [parse_16_iff.2 hq] at hw
          rw [parse_16_iff.2 hr] at hl
          cases hw
          cases hl
          rfl

theorem zfcp_parse_iff {id : List UInt8} {d : ZfcpLunDevid} : zfcp_lun_parse_devid bare id = .ok d ↔
    ZfcpAccepted bare id d := by
  unfold zfcp_lun_parse_devid ZfcpAccepted
  rcases at_colon id with ⟨hdrop, hno⟩ | ⟨p, curr, rfl, hno, htake, hdrop⟩
  · rw [hdrop]
    refine iff_of_false (fun h => by cases h) ?_
    rintro ⟨p, q, r, hsplit, -⟩
    rw [List.splitOn_eq_singleton hno] at hsplit
    cases hsplit
  · rw [hdrop, htake]
    dsimp only
    have hiff : (∃ p' q r, (p ++ 0x3a :: curr).splitOn 0x3a = [p', q, r] ∧ Accepted bare p' d.fcp_dev ∧
          Chars16 bare q d.wwpn.toNat ∧ Chars16 bare r d.lun.toNat) ↔
        Accepted bare p d.fcp_dev ∧ ∃ q r, curr.splitOn 0x3a = [q, r] ∧ Chars16 bare q d.wwpn.toNat ∧
          Chars16 bare r d.lun.toNat := by
      rw [List.splitOn_append_cons_self_of_not_mem hno]
      constructor
      · rintro ⟨p', q, r, hsplit, hp, hq, hr⟩
        rw [List.cons.injEq] at hsplit
        rw [hsplit.1]
        exact ⟨hp, q, r, hsplit.2, hq, hr⟩
      · rintro ⟨hp, q, r, hsplit, hq, hr⟩
        exact ⟨p, q, r, by rw [hsplit], hp, hq, hr⟩
    rw [hiff, ← parse_iff, ← parse_wwpn_lun_iff]
    cases hp : ccw_parse_devid bare p with
    | error e => exact iff_of_false (fun h => by cases h) fun h => by cases h.1
    | ok f =>
      dsimp only
      cases hc : parse_wwpn_lun bare curr with
      | error e => exact iff_of_false (fun h => by cases h) fun h => by cases h.2
      | ok v =>
        obtain ⟨wwpn, lun⟩ := v
        obtain ⟨q, r, -, hq, hr⟩ := parse_wwpn_lun_iff.1 hc
        have hw : (UInt64.ofNat wwpn).toNat = wwpn := UInt64.toNat_ofNat_of_lt' hq.lt
        have hl : (UInt64.ofNat lun).toNat = lun := UInt64.toNat_ofNat_of_lt' hr.lt
        constructor
        · intro h
          cases h
          exact ⟨rfl, by rw [hw, hl]⟩
        · rintro ⟨h₁, h₂⟩
          cases h₁
          rw [Except.ok.injEq, Prod.mk.injEq] at h₂
          rw [h₂.1, h₂.2]
          dsimp only
          rw [UInt64.ofNat_toNat, UInt64.ofNat_toNat]

/-! ## Where the two agree -/

theorem zfcp_agree_iff (id : List UInt8) :
    ((∃ d, zfcp_lun_parse_devid bare id = .ok d) ↔ ∃ d, ZfcpDocumented id d) ↔ ¬ ZfcpLoose bare id := by
  simp only [zfcp_parse_iff]
  constructor
  · rintro hiff ⟨hacc, p, q, r, hsplit, hodd⟩
    obtain ⟨d, p', q', r', hsplit', hp, hq, hr⟩ := hiff.mp hacc
    rw [hsplit] at hsplit'
    cases hsplit'
    rcases hodd with hodd | hodd | hodd
    · exact hp.not_odd hodd
    · exact hq.not_odd hodd
    · exact hr.not_odd hodd
  · intro hloose
    constructor
    · rintro ⟨d, hacc⟩
      have hodd : ¬ OddZfcp id := fun hn => hloose ⟨⟨d, hacc⟩, hn⟩
      obtain ⟨p, q, r, hsplit, hp, hq, hr⟩ := hacc
      exact ⟨d, p, q, r, hsplit, hp.documented fun hn => hodd ⟨p, q, r, hsplit, Or.inl hn⟩,
        hq.digits16 fun hn => hodd ⟨p, q, r, hsplit, Or.inr (Or.inl hn)⟩,
        hr.digits16 fun hn => hodd ⟨p, q, r, hsplit, Or.inr (Or.inr hn)⟩⟩
    · rintro ⟨d, p, q, r, hsplit, hp, hq, hr⟩
      exact ⟨d, p, q, r, hsplit, hp.accepted, hq.chars16, hr.chars16⟩

end

end Zdev.Ccw
