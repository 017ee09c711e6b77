import S390Tools.Zdev.CcwRangeRun
import S390Tools.Zdev.ZfcpLun

/-!
# Normal forms of device IDs

What the three `devid_to_str` write is documented format and reads back as the same ID,
so that the normal form stands for the ID.
-/

namespace Zdev.Ccw

open CString Scanf

/-! ## Normal forms -/

/-- Normalising twice is normalising once, and normal forms are equal for equal IDs only. -/
def Canonical {ε α : Type} (parse : List UInt8 → Except ε α) (normalize_id : List UInt8 →
    Option (List UInt8)) : Prop :=
  (∀ id norm, normalize_id id = some norm → normalize_id norm = some norm) ∧
    ∀ a b da db, parse a = .ok da → parse b = .ok db → (normalize_id a = normalize_id b ↔ da = db)

theorem canonical_of {ε α : Type} {parse : List UInt8 → Except ε α}
    {normalize_id : List UInt8 → Option (List UInt8)}
    {to_str : α → List UInt8} (hnorm : ∀ id, normalize_id id = (parse id).toOption.map to_str)
    (hreads : ∀ id d, parse id = .ok d → parse (to_str d) = .ok d) : Canonical parse normalize_id := by
  refine ⟨fun id norm h => ?_, fun a b da db ha hb => ?_⟩
  · rw [hnorm] at h
    obtain ⟨d, hd, rfl⟩ := Option.map_eq_some_iff.mp h
    rw [hnorm, hreads id d (toOption_ok.1 hd)]
    rfl
  · rw [hnorm, hnorm, ha, hb]
    show some (to_str da) = some (to_str db) ↔ da = db
    rw [Option.some.injEq]
    constructor
    · intro heq
      have hda := hreads a da ha
      rw [heq, hreads b db hb] at hda
      cases hda
      rfl
    · rintro rfl
      rfl

/-! ## CCW device IDs -/

section
variable {bare : Bool}

theorem ccw_reads_back (id : List UInt8) (d : CcwDevid) (h : ccw_parse_devid bare id = .ok d) :
    ccw_parse_devid bare (ccw_devid_to_str d) = .ok d := parse_to_str bare (parse_ssid bare h)

theorem accepted_to_str {id : List UInt8} {d : CcwDevid} (h : Accepted bare id d) :
    Accepted bare (ccw_devid_to_str d) d :=
  parse_iff.1 (ccw_reads_back id d (parse_iff.2 h))

theorem no_colon_to_str (d : CcwDevid) : (0x3a : UInt8) ∉ ccw_devid_to_str d := by
  have hdigit : ∀ {ds : List UInt8}, (∀ c ∈ ds, isxdigit c = true) → (0x3a : UInt8) ∉ ds := by
    intro ds hds hmem
    exact absurd (hds _ hmem) (by decide)
  intro hmem
  rw [ccw_devid_to_str] at hmem
  rcases List.mem_append.mp hmem with h | h
  · exact hdigit (hex_xdigit _) h
  · rcases List.mem_append.mp (List.mem_of_ne_of_mem (by decide) h) with h | h
    · exact hdigit (hex_xdigit _) h
    · exact hdigit (hex4_xdigit _) (List.mem_of_ne_of_mem (by decide) h)

/-! ## CCWGROUP device IDs -/

theorem foldl_colon (ds : List CcwDevid) : ∀ last : List UInt8,
    ds.foldl (fun last d => last ++ 0x3a :: ccw_devid_to_str d) last =
      last ++ ds.flatMap fun d => 0x3a :: ccw_devid_to_str d := by
  induction ds with
  | nil => exact fun last => (List.append_nil last).symm
  | cons d ds ih =>
    intro last
    rw [List.foldl_cons, ih, List.flatMap_cons, List.append_assoc]

theorem split_flatMap (ds : List CcwDevid) : ∀ s : List UInt8, (0x3a : UInt8) ∉ s →
    (s ++ ds.flatMap fun d => 0x3a :: ccw_devid_to_str d).splitOn 0x3a = s :: ds.map ccw_devid_to_str := by
  induction ds with
  | nil =>
    intro s hs
    rw [List.flatMap_nil, List.append_nil]
    exact List.splitOn_eq_singleton hs
  | cons d ds ih =>
    intro s hs
    rw [List.flatMap_cons, List.cons_append, List.splitOn_append_cons_self_of_not_mem hs, ih _ (no_colon_to_str d)]
    rfl

theorem split_to_str {ds : CcwgroupDevid} (hne : ds ≠ []) :
    (ccwgroup_devid_to_str ds).splitOn 0x3a = ds.map ccw_devid_to_str := by
  cases ds with
  | nil => exact absurd rfl hne
  | cons d ds =>
    rw [ccwgroup_devid_to_str, foldl_colon, split_flatMap _ _ (no_colon_to_str d)]
    rfl

theorem forall₂_to_str {ps : List (List UInt8)} {ds : List CcwDevid} (h : List.Forall₂ (Accepted bare) ps ds) :
    List.Forall₂ (Accepted bare) (ds.map ccw_devid_to_str) ds := by
  induction h with
  | nil => exact .nil
  | cons hp _ ih => exact .cons (accepted_to_str hp) ih

theorem group_reads_back (id : List UInt8) (ds : CcwgroupDevid) (h : ccwgroup_parse_devid bare id = .ok ds) :
    ccwgroup_parse_devid bare (ccwgroup_devid_to_str ds) = .ok ds := by
  obtain ⟨hle, hnodup, ps, hall, hsplit⟩ := group_parse_iff.1 h
  have hne : ds ≠ [] := by
    rintro rfl
    cases hall
    rcases hsplit with hsplit | ⟨hlen, -⟩
    · exact List.splitOn_ne_nil 0x3a id hsplit
    · cases hlen
  exact group_parse_iff.2 ⟨hle, hnodup, _, forall₂_to_str hall, Or.inl (split_to_str hne)⟩

/-! ## zFCP LUN IDs -/

theorem digits16_hex16 {n : Nat} (hn : n < 2 ^ 64) : Digits16 ([0x30, 0x78] ++ hex16 n) n := by
  have hlen : (hex n).length ≤ 16 := length_hex (by decide) (hn.trans_eq (by norm_num))
  refine ⟨[0x30, 0x78], hex16 n, rfl, Or.inr (Or.inl rfl), ?_, ?_, ?_⟩
  · rw [hex16, List.length_append, List.length_replicate]
    omega
  · intro c hc
    rcases List.mem_append.mp hc with h | h
    · rw [List.eq_of_mem_replicate h]
      decide
    · exact hex_xdigit n c h
  · rw [hex16, xnum_zeros, xnum_hex]

theorem zfcp_reads_back (id : List UInt8) (d : ZfcpLunDevid) (h : zfcp_lun_parse_devid bare id = .ok d) :
    zfcp_lun_parse_devid bare (zfcp_lun_devid_to_str d) = .ok d := by
  obtain ⟨p, q, r, -, hp, -, -⟩ := zfcp_parse_iff.1 h
  have hwwpn := @Digits16.chars16 bare _ _ (digits16_hex16 d.wwpn.toNat_lt)
  have hlun := @Digits16.chars16 bare _ _ (digits16_hex16 d.lun.toNat_lt)
  refine zfcp_parse_iff.2 ⟨_, _, _, ?_, accepted_to_str hp, hwwpn, hlun⟩
  rw [zfcp_lun_devid_to_str, List.splitOn_append_cons_self_of_not_mem (no_colon_to_str _),
    List.splitOn_append_cons_self_of_not_mem hwwpn.no_colon, List.splitOn_eq_singleton hlun.no_colon]

end

/-! ## Device IDs are exact -/

def ExactFormat (bare : Bool) (id : List UInt8) : Prop :=
  ((∃ d, ccw_parse_devid bare id = .ok d) ↔ ∃ d, Documented id d) ∧
    ((∃ ds, ccwgroup_parse_devid bare id = .ok ds) ↔ ∃ ds, GroupDocumented id ds) ∧
    ((∃ d, zfcp_lun_parse_devid bare id = .ok d) ↔ ∃ d, ZfcpDocumented id d)

theorem ids_exact_iff (bare : Bool) :
    (∀ id, ((∃ d, ccw_parse_devid bare id = .ok d) ↔ ∃ d, Documented id d) ↔ ¬ Loose bare id) ∧
      (∀ id, ((∃ ds, ccwgroup_parse_devid bare id = .ok ds) ↔ ∃ ds, GroupDocumented id ds) ↔ ¬ GroupLoose bare id) ∧
      (∀ id, ((∃ d, zfcp_lun_parse_devid bare id = .ok d) ↔ ∃ d, ZfcpDocumented id d) ↔ ¬ ZfcpLoose bare id) ∧
      Canonical (ccw_parse_devid bare) (ccw_normalize_id bare) ∧
      Canonical (ccwgroup_parse_devid bare) (ccwgroup_normalize_id bare) ∧
      Canonical (zfcp_lun_parse_devid bare) (zfcp_lun_normalize_id bare) :=
  ⟨ccw_agree_iff, group_agree_iff, zfcp_agree_iff, canonical_of (fun _ => rfl) ccw_reads_back,
    canonical_of (fun _ => rfl) group_reads_back, canonical_of (fun _ => rfl) zfcp_reads_back⟩

theorem sign_accepted : ¬∀ (bare : Bool) (id : List UInt8), ExactFormat bare id := by
  intro h
  have hccw := (h false (chars "+5")).1
  have hparse : ccw_parse_devid false (chars "+5") = .ok { cssid := 0, ssid := 0, devno := 5 } := by decide +kernel
  obtain ⟨d, hd⟩ := hccw.mp ⟨_, hparse⟩
  refine hd.not_odd ⟨chars "+5", ?_, Or.inl ⟨0x2b, ?_, Or.inr (Or.inl rfl)⟩⟩
  · decide +kernel
  · decide +kernel

end Zdev.Ccw
