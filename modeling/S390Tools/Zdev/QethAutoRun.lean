import S390Tools.Lib.Pairing
import S390Tools.Zdev.QethAuto

/-!
# Automatic groups are groups, and as many as possible

In the sorted list the devices of one class are one run with ascending IDs, so that a
device and the one with the next ID are neighbours.
-/

namespace Zdev.Qeth

open Ccw Memcmp Pairing

/-! ## Classes -/

/-- What the devices of a group agree in: CHPIDs, control unit type and device type. -/
def Same (a b : CcwDevinfo) : Prop :=
  (a.pim = b.pim ∧ a.chpids = b.chpids) ∧ (a.cutype = b.cutype ∧ a.cumodel = b.cumodel) ∧
    a.devtype = b.devtype ∧ a.devmodel = b.devmodel

def NextId (r w : CcwDevid) : Prop := w.cssid = r.cssid ∧ w.ssid = r.ssid ∧ w.devno.toNat = r.devno.toNat + 1

/-- A group of three devices of one class, that of `c`. -/
def GroupOf (infos : List CcwDevinfo) (c : CcwDevinfo) (g : CcwgroupDevid) : Prop :=
  ∃ r ∈ infos, ∃ w ∈ infos, ∃ d ∈ infos, g = [r.devid, w.devid, d.devid] ∧ g.Nodup ∧
    Same c r ∧ Same c w ∧ Same c d ∧ NextId r.devid w.devid

def ValidGroup (infos : List CcwDevinfo) (g : CcwgroupDevid) : Prop := ∃ c ∈ infos, GroupOf infos c g

def in_class (infos : List CcwDevinfo) (c : CcwDevinfo) (g : CcwgroupDevid) : Bool :=
  infos.any fun i => is_compatible c i && i.devid == first g

/-! ## Signs of comparisons -/

/-- The sign of `r` is the order of `x` and `y`. -/
structure Reflects {κ : Type} [LinearOrder κ] (r : Int) (x y : κ) : Prop where
  lt : r < 0 ↔ x < y
  eq : r = 0 ↔ x = y

section
variable {κ μ : Type} [LinearOrder κ] [LinearOrder μ] {x y : κ} {u v : μ} {r s : Int}

theorem Reflects.le (h : Reflects r x y) : r ≤ 0 ↔ x ≤ y := by
  rw [le_iff_lt_or_eq, le_iff_lt_or_eq, h.lt, h.eq]

theorem Reflects.zero {κ : Type} [LinearOrder κ] {x y : κ} (h : x = y) : Reflects 0 x y := by
  refine ⟨iff_of_false (lt_irrefl 0) ?_, iff_of_true rfl h⟩
  rw [h]
  exact lt_irrefl y

theorem Reflects.andThen (h : Reflects r x y) (h' : Reflects s u v) :
    Reflects (if r ≠ 0 then r else s) (toLex (x, u)) (toLex (y, v)) := by
  by_cases hr : r = 0
  · have heq := h.eq.mp hr
    rw [if_neg (fun hn => hn hr)]
    refine ⟨?_, ?_⟩
    · rw [h'.lt, Prod.Lex.toLex_lt_toLex]
      exact ⟨fun hlt => Or.inr ⟨heq, hlt⟩, fun hlt => hlt.elim (fun hn => absurd heq hn.ne) fun hn => hn.2⟩
    · rw [h'.eq, EmbeddingLike.apply_eq_iff_eq, Prod.mk.injEq]
      exact ⟨fun he => ⟨heq, he⟩, fun he => he.2⟩
  · have hne : x ≠ y := fun he => hr (h.eq.mpr he)
    rw [if_pos hr]
    refine ⟨?_, iff_of_false hr fun he => ?_⟩
    · rw [h.lt, Prod.Lex.toLex_lt_toLex]
      exact ⟨Or.inl, fun hlt => hlt.elim id fun hn => absurd hn.1 hne⟩
    · rw [EmbeddingLike.apply_eq_iff_eq, Prod.mk.injEq] at he
      exact hne he.1

theorem Reflects.number (n m : Nat) : Reflects (if n > m then 1 else if n < m then -1 else 0) n m := by
  by_cases h₁ : n > m
  · rw [if_pos h₁]
    exact ⟨by omega, by omega⟩
  · rw [if_neg h₁]
    by_cases h₂ : n < m
    · rw [if_pos h₂]
      exact ⟨by omega, by omega⟩
    · rw [if_neg h₂]
      exact ⟨by omega, by omega⟩

theorem if_number (n m : Nat) (s : Int) :
    (if n > m then 1 else if n < m then -1 else s) =
      if (if n > m then (1 : Int) else if n < m then -1 else 0) ≠ 0 then
        (if n > m then 1 else if n < m then -1 else 0) else s := by
  by_cases h₁ : n > m
  · simp only [if_pos h₁, ne_eq, one_ne_zero, not_false_eq_true, if_true]
  · by_cases h₂ : n < m
    · simp only [if_neg h₁, if_pos h₂, ne_eq, neg_eq_zero, one_ne_zero, not_false_eq_true, if_true]
    · simp only [if_neg h₁, if_neg h₂, ne_eq, not_true_eq_false, if_false]

end

/-! ## Order of the infos -/

section
variable (a b : CcwDevinfo)

theorem chpids_cmp_reflects : Reflects (ccw_devinfo_chpids_cmp a b)
    (toLex (a.pim.toNat, Stdio.unbe a.chpids)) (toLex (b.pim.toNat, Stdio.unbe b.chpids)) := by
  have hlen := a.chpids_length.trans b.chpids_length.symm
  have hmem : Reflects (memcmp a.chpids b.chpids) (Stdio.unbe a.chpids) (Stdio.unbe b.chpids) := by
    rcases memcmp_cases hlen with ⟨hc, hlt⟩ | ⟨hc, hlt⟩ | ⟨hc, heq⟩
    · exact ⟨by omega, by omega⟩
    · exact ⟨by omega, by omega⟩
    · rw [hc, heq]
      exact Reflects.zero rfl
  have h := (Reflects.number a.pim.toNat b.pim.toNat).andThen hmem
  rw [← if_number] at h
  exact h

theorem cutype_cmp_reflects : Reflects (ccw_devinfo_cutype_cmp a b)
    (toLex (a.cutype.toNat, a.cumodel.toNat)) (toLex (b.cutype.toNat, b.cumodel.toNat)) := by
  have h := (Reflects.number a.cutype.toNat b.cutype.toNat).andThen
    (Reflects.number a.cumodel.toNat b.cumodel.toNat)
  rw [← if_number] at h
  exact h

theorem devtype_cmp_reflects : Reflects (ccw_devinfo_devtype_cmp a b)
    (toLex (a.devtype.toNat, a.devmodel.toNat)) (toLex (b.devtype.toNat, b.devmodel.toNat)) := by
  have h := (Reflects.number a.devtype.toNat b.devtype.toNat).andThen
    (Reflects.number a.devmodel.toNat b.devmodel.toNat)
  rw [← if_number] at h
  exact h

theorem devid_cmp_reflects : Reflects (ccw_cmp_devids a.devid b.devid) a.devid.key b.devid.key :=
  ⟨cmp_lt, cmp_eq.trans ⟨fun h => by rw [h], key_inj⟩⟩

def classKey (i : CcwDevinfo) : (Nat ×ₗ Nat) ×ₗ (Nat ×ₗ Nat) ×ₗ (Nat ×ₗ Nat) :=
  toLex (toLex (i.pim.toNat, Stdio.unbe i.chpids), toLex (toLex (i.cutype.toNat, i.cumodel.toNat),
    toLex (i.devtype.toNat, i.devmodel.toNat)))

theorem same_iff : Same a b ↔ ccw_devinfo_chpids_cmp a b = 0 ∧ ccw_devinfo_cutype_cmp a b = 0 ∧
    ccw_devinfo_devtype_cmp a b = 0 := by
  have hlen := a.chpids_length.trans b.chpids_length.symm
  have hbytes : Stdio.unbe a.chpids = Stdio.unbe b.chpids ↔ a.chpids = b.chpids := by
    rcases memcmp_cases hlen with ⟨-, hlt⟩ | ⟨-, hlt⟩ | ⟨-, heq⟩
    · exact ⟨fun h => by omega, fun h => by rw [h]⟩
    · exact ⟨fun h => by omega, fun h => by rw [h]⟩
    · exact iff_of_true (by rw [heq]) heq
  rw [(chpids_cmp_reflects a b).eq, (cutype_cmp_reflects a b).eq, (devtype_cmp_reflects a b).eq]
  simp only [EmbeddingLike.apply_eq_iff_eq, Prod.mk.injEq, hbytes, UInt8.toNat_inj, UInt16.toNat_inj, Same]

theorem classKey_iff : Same a b ↔ classKey a = classKey b := by
  rw [same_iff, (chpids_cmp_reflects a b).eq, (cutype_cmp_reflects a b).eq, (devtype_cmp_reflects a b).eq]
  simp only [classKey, EmbeddingLike.apply_eq_iff_eq, Prod.mk.injEq]

theorem is_compatible_iff : is_compatible a b = true ↔ Same a b := by
  rw [same_iff, is_compatible, Bool.and_eq_true, Bool.and_eq_true, beq_iff_eq, beq_iff_eq, beq_iff_eq, and_assoc]

theorem info_cmp_reflects : Reflects (info_cmp a b) (toLex (toLex (a.pim.toNat, Stdio.unbe a.chpids),
      toLex (toLex (a.cutype.toNat, a.cumodel.toNat),
        toLex (toLex (a.devtype.toNat, a.devmodel.toNat), a.devid.key))))
    (toLex (toLex (b.pim.toNat, Stdio.unbe b.chpids),
      toLex (toLex (b.cutype.toNat, b.cumodel.toNat),
        toLex (toLex (b.devtype.toNat, b.devmodel.toNat), b.devid.key)))) :=
  (chpids_cmp_reflects a b).andThen ((cutype_cmp_reflects a b).andThen ((devtype_cmp_reflects a b).andThen
    (devid_cmp_reflects a b)))

theorem info_le (h : info_cmp a b ≤ 0) : classKey a ≤ classKey b := by
  have h := (info_cmp_reflects a b).le.mp h
  simp only [Prod.Lex.toLex_le_toLex, classKey] at h ⊢
  rcases h with h | ⟨h₁, h | ⟨h₂, h | ⟨h₃, -⟩⟩⟩
  · exact Or.inl h
  · exact Or.inr ⟨h₁, Or.inl h⟩
  · exact Or.inr ⟨h₁, Or.inr ⟨h₂, Prod.Lex.toLex_le_toLex.mp h.le⟩⟩
  · exact Or.inr ⟨h₁, Or.inr ⟨h₂, Prod.Lex.toLex_le_toLex.mp h₃.le⟩⟩

theorem key_le (h : info_cmp a b ≤ 0) (hsame : Same a b) : a.devid.key ≤ b.devid.key := by
  obtain ⟨h₁, h₂, h₃⟩ := (same_iff a b).mp hsame
  rw [info_cmp, if_neg (fun hn => hn h₁), if_neg (fun hn => hn h₂), if_neg (fun hn => hn h₃)] at h
  exact (devid_cmp_reflects a b).le.mp h

end

theorem Same.refl (a : CcwDevinfo) : Same a a := (classKey_iff a a).mpr rfl

theorem Same.symm {a b : CcwDevinfo} (h : Same a b) : Same b a :=
    (classKey_iff b a).mpr ((classKey_iff a b).mp h).symm

theorem Same.trans {a b c : CcwDevinfo} (h : Same a b) (h' : Same b c) : Same a c :=
  (classKey_iff a c).mpr (((classKey_iff a b).mp h).trans ((classKey_iff b c).mp h'))

theorem distance_iff {a b : CcwDevid} : ccw_devid_distance a b = 1 ↔ NextId a b := by
  unfold ccw_devid_distance NextId INT_MAX
  by_cases h₁ : a.cssid = b.cssid
  · rw [if_neg (fun hn => hn h₁)]
    by_cases h₂ : a.ssid = b.ssid
    · rw [if_neg (fun hn => hn h₂)]
      exact ⟨fun h => ⟨h₁.symm, h₂.symm, by omega⟩, fun h => by omega⟩
    · rw [if_pos h₂]
      exact iff_of_false (by norm_num) fun h => h₂ h.2.1.symm
  · rw [if_pos h₁]
    exact iff_of_false (by norm_num) fun h => h₁ h.1.symm

theorem NextId.key {a b : CcwDevid} (h : NextId a b) : b.key = a.key + 1 := by
  rw [CcwDevid.key, CcwDevid.key, h.1, h.2.1, h.2.2]
  omega

/-! ## The devices of one class -/

def NextDev (r w : CcwDevinfo) : Prop := NextId r.devid w.devid

instance : DecidableRel NextDev := fun r w =>
  inferInstanceAs (Decidable (w.devid.cssid = r.devid.cssid ∧ w.devid.ssid = r.devid.ssid ∧
    w.devid.devno.toNat = r.devid.devno.toNat + 1))

structure Run (c : CcwDevinfo) (run : List CcwDevinfo) : Prop where
  same : ∀ i ∈ run, Same c i
  ascending : run.Pairwise fun a b => a.devid.key < b.devid.key

structure Packing (infos : List CcwDevinfo) (c : CcwDevinfo) (gs : List CcwgroupDevid) : Prop where
  groups : ∀ g ∈ gs, GroupOf infos c g
  apart : gs.flatten.Nodup

theorem Run.distinct {c : CcwDevinfo} {run : List CcwDevinfo} (h : Run c run) :
    (run.map CcwDevinfo.devid).Nodup := by
  refine List.pairwise_map.mpr (h.ascending.imp fun hlt heq => ?_)
  rw [heq] at hlt
  exact lt_irrefl _ hlt

section
variable {run : List CcwDevinfo} {c : CcwDevinfo} {gs : List CcwgroupDevid}

theorem Packing.pairs : ∀ {gs : List CcwgroupDevid}, Packing run c gs →
    ∃ ps, Pairs NextDev run ps ∧ ps.length = gs.length ∧ ∀ p ∈ ps, p.1.devid ∈ gs.flatten ∧ p.2.devid ∈ gs.flatten
  | [], _ => ⟨[], ⟨fun p hp => absurd hp List.not_mem_nil, fun p hp => absurd hp List.not_mem_nil,
      fun p hp => absurd hp List.not_mem_nil, .nil⟩, rfl, fun p hp => absurd hp List.not_mem_nil⟩
  | g :: gs, h => by
    have hapart := h.apart
    rw [List.flatten_cons] at hapart
    obtain ⟨-, htail, hdis⟩ := List.nodup_append.mp hapart
    obtain ⟨ps, hps, hlen, hmem⟩ := @Packing.pairs gs ⟨fun g hg => h.groups g (List.mem_cons_of_mem _ hg), htail⟩
    obtain ⟨r, hr, w, hw, d, -, hg, -, -, -, -, hnext⟩ := h.groups g List.mem_cons_self
    have hrg : r.devid ∈ g := by simp [hg]
    have hwg : w.devid ∈ g := by simp [hg]
    refine ⟨(r, w) :: ps, ⟨?_, ?_, ?_, ?_⟩, by rw [List.length_cons, List.length_cons, hlen], ?_⟩
    · intro p hp
      rcases List.mem_cons.mp hp with rfl | hp
      · exact hr
      · exact hps.left p hp
    · intro p hp
      rcases List.mem_cons.mp hp with rfl | hp
      · exact hw
      · exact hps.right p hp
    · intro p hp
      rcases List.mem_cons.mp hp with rfl | hp
      · exact hnext
      · exact hps.next p hp
    · refine List.pairwise_cons.mpr ⟨fun p hp => ?_, hps.apart⟩
      obtain ⟨h₁, h₂⟩ := hmem p hp
      exact ⟨fun heq => hdis _ hrg _ h₁ (congrArg _ heq), fun heq => hdis _ hrg _ h₂ (congrArg _ heq),
        fun heq => hdis _ hwg _ h₁ (congrArg _ heq), fun heq => hdis _ hwg _ h₂ (congrArg _ heq)⟩
    · intro p hp
      rw [List.flatten_cons]
      rcases List.mem_cons.mp hp with rfl | hp
      · exact ⟨List.mem_append_left _ hrg, List.mem_append_left _ hwg⟩
      · exact ⟨List.mem_append_right _ (hmem p hp).1, List.mem_append_right _ (hmem p hp).2⟩

theorem Packing.flatten_length (h : Packing run c gs) : gs.flatten.length = 3 * gs.length := by
  have hthree : ∀ g ∈ gs, g.length = 3 := fun g hg => by
    obtain ⟨r, -, w, -, d, -, rfl, -⟩ := h.groups g hg
    rfl
  rw [List.length_flatten, List.map_eq_replicate_iff.mpr hthree, List.sum_replicate, smul_eq_mul, Nat.mul_comm]

theorem Packing.subset (h : Packing run c gs) : gs.flatten ⊆ run.map CcwDevinfo.devid := by
  intro id hid
  obtain ⟨g, hg, hid⟩ := List.mem_flatten.mp hid
  obtain ⟨r, hr, w, hw, d, hd, rfl, -⟩ := h.groups g hg
  simp only [List.mem_cons, List.not_mem_nil, or_false] at hid
  rcases hid with rfl | rfl | rfl
  · exact List.mem_map_of_mem hr
  · exact List.mem_map_of_mem hw
  · exact List.mem_map_of_mem hd

theorem Packing.bound (hrun : Run c run) (h : Packing run c gs) : gs.length ≤ min (run.length / 3)
    (greedy NextDev run) := by
  obtain ⟨ps, hps, hlen, -⟩ := h.pairs
  have hpairs : ps.length ≤ greedy NextDev run :=
    greedy_max (fun a b (hn : NextDev a b) => NextId.key hn) hrun.ascending hps
  have hthird := (h.apart.subperm h.subset).length_le
  rw [h.flatten_length, List.length_map] at hthird
  omega

end

/-! ## Both strategies -/

structure Made (run : List CcwDevinfo) (gs : List CcwgroupDevid) : Prop where
  groups : ∀ g ∈ gs, ∃ r ∈ run, ∃ w ∈ run, ∃ d ∈ run, g = ccwgroup_devid r w d ∧ NextDev r w
  used : ∃ rest, (gs.flatten ++ rest).Perm (run.map CcwDevinfo.devid)

theorem Made.packing {c : CcwDevinfo} {run : List CcwDevinfo} {gs : List CcwgroupDevid}
    (hrun : Run c run) (h : Made run gs) :
    Packing run c gs := by
  obtain ⟨rest, hperm⟩ := h.used
  have hnodup := (List.nodup_append.mp (hperm.nodup_iff.mpr hrun.distinct)).1
  refine ⟨fun g hg => ?_, hnodup⟩
  obtain ⟨r, hr, w, hw, d, hd, rfl, hnext⟩ := h.groups g hg
  exact ⟨r, hr, w, hw, d, hd, rfl, (List.nodup_flatten.mp hnodup).1 _ hg, hrun.same r hr,
    hrun.same w hw, hrun.same d hd, hnext⟩

theorem short_made {l : List CcwDevinfo} (h : l.length < 3) :
    Made l (add_seq none none l) ∧ (add_seq none none l).length = l.length / 3 := by
  have hadd : add_seq none none l = [] := by
    rcases l with _ | ⟨r, _ | ⟨w, _ | ⟨d, l⟩⟩⟩
    · rfl
    · rfl
    · rfl
    · rw [List.length_cons, List.length_cons, List.length_cons] at h
      omega
  rw [hadd, Nat.div_eq_of_lt h]
  exact ⟨⟨fun g hg => absurd hg List.not_mem_nil, l.map CcwDevinfo.devid, List.Perm.refl _⟩, rfl⟩

theorem seq_made : ∀ {l : List CcwDevinfo}, check_seq none none l = true →
    Made l (add_seq none none l) ∧ (add_seq none none l).length = l.length / 3
  | [], _ => short_made (Nat.succ_pos 2)
  | [_], _ => short_made (Nat.succ_lt_succ (Nat.succ_pos 1))
  | [_, _], _ => short_made (Nat.lt_succ_self 2)
  | r :: w :: d :: l, h => by
    simp only [check_seq] at h
    by_cases hdist : ccw_devid_distance r.devid w.devid = 1
    · rw [if_neg (fun hn => hn hdist)] at h
      obtain ⟨⟨hgroups, rest, hperm⟩, hlen⟩ := seq_made h
      have hadd : add_seq none none (r :: w :: d :: l) = ccwgroup_devid r w d :: add_seq none none l := rfl
      rw [hadd]
      refine ⟨⟨fun g hg => ?_, rest, ?_⟩, ?_⟩
      · rcases List.mem_cons.mp hg with rfl | hg
        · exact ⟨r, by simp, w, by simp, d, by simp, rfl, distance_iff.1 hdist⟩
        · obtain ⟨r', hr', w', hw', d', hd', hg⟩ := hgroups g hg
          have hin : ∀ i ∈ l, i ∈ r :: w :: d :: l := fun i hi =>
            List.mem_cons_of_mem _ (List.mem_cons_of_mem _ (List.mem_cons_of_mem _ hi))
          exact ⟨r', hin r' hr', w', hin w' hw', d', hin d' hd', hg⟩
      · rw [List.flatten_cons, List.append_assoc]
        exact hperm.append_left [r.devid, w.devid, d.devid]
      · rw [List.length_cons, hlen, List.length_cons, List.length_cons, List.length_cons]
        omega
    · rw [if_pos hdist] at h
      cases h

def flat (ps : List (CcwDevinfo × CcwDevinfo)) : List CcwDevinfo := ps.flatMap fun p => [p.1, p.2]

theorem length_flat (ps : List (CcwDevinfo × CcwDevinfo)) : (flat ps).length = 2 * ps.length := by
  induction ps with
  | nil => rfl
  | cons p ps ih =>
    rw [flat, List.flatMap_cons, List.length_append]
    show 2 + (flat ps).length = _
    rw [ih, List.length_cons]
    omega

theorem move_pairs_spec (max_pairs : Nat) : ∀ (rest kept : List CcwDevinfo) (read : Option CcwDevinfo) (n : Nat),
    ∃ ps, (move_pairs max_pairs kept read n rest).1 = flat ps ∧ (∀ p ∈ ps, NextDev p.1 p.2) ∧
      (flat ps ++ (move_pairs max_pairs kept read n rest).2).Perm (kept ++ (read.toList ++ rest)) ∧
      (ps.length = greedy NextDev (read.toList ++ rest) ∨ max_pairs ≤ n + ps.length) ∧
      (n < max_pairs → n + ps.length ≤ max_pairs)
  | [], kept, read, n => by
    refine ⟨[], rfl, fun p hp => absurd hp List.not_mem_nil, ?_, Or.inl ?_, fun h => Nat.le_of_lt h⟩
    · rw [List.append_nil]
      exact List.Perm.refl _
    · refine (greedy_short _ ?_).symm
      cases read with
      | none => exact Nat.zero_lt_two
      | some r => exact Nat.one_lt_two
  | curr :: next, kept, none, n => move_pairs_spec max_pairs next kept (some curr) n
  | curr :: next, kept, some r, n => by
    rw [move_pairs]
    dsimp only
    by_cases hdist : ccw_devid_distance r.devid curr.devid = 1
    · have hnext : NextDev r curr := distance_iff.1 hdist
      have hgreedy : greedy NextDev ((some r).toList ++ curr :: next) = greedy NextDev next + 1 :=
        greedy_cons next hnext
      rw [if_pos hdist, hgreedy]
      by_cases hmax : n + 1 ≥ max_pairs
      · rw [if_pos hmax]
        refine ⟨[(r, curr)], rfl, fun p hp => ?_, ?_, Or.inr hmax, fun h => h⟩
        · rw [List.mem_singleton.mp hp]
          exact hnext
        · show ([r, curr] ++ (kept ++ next)).Perm (kept ++ ([r, curr] ++ next))
          rw [← List.append_assoc, ← List.append_assoc]
          exact List.perm_append_comm.append_right next
      · rw [if_neg hmax]
        obtain ⟨ps, hpairs, hall, hperm, hmany, hfew⟩ := move_pairs_spec max_pairs next kept none (n + 1)
        refine ⟨(r, curr) :: ps, ?_, fun p hp => ?_, ?_, ?_, fun h => ?_⟩
        · show r :: curr :: _ = [r, curr] ++ flat ps
          rw [hpairs]
          rfl
        · rcases List.mem_cons.mp hp with rfl | hp
          · exact hnext
          · exact hall p hp
        · show ([r, curr] ++ (flat ps ++ _)).Perm (kept ++ ([r, curr] ++ next))
          refine (hperm.append_left [r, curr]).trans ?_
          show ([r, curr] ++ (kept ++ next)).Perm _
          rw [← List.append_assoc, ← List.append_assoc]
          exact List.perm_append_comm.append_right next
        · rw [List.length_cons]
          rcases hmany with hmany | hmany
          · exact Or.inl (congrArg (· + 1) hmany)
          · exact Or.inr (by omega)
        · have := hfew (by omega)
          rw [List.length_cons]
          omega
    · have hno : ¬ NextDev r curr := fun hn => hdist (distance_iff.2 hn)
      have hgreedy : greedy NextDev ((some r).toList ++ curr :: next) =
        greedy NextDev ((some curr).toList ++ next) :=
        greedy_skip next hno
      rw [if_neg hdist, hgreedy]
      obtain ⟨ps, hpairs, hall, hperm, hrest⟩ := move_pairs_spec max_pairs next (kept ++ [r]) (some curr) n
      refine ⟨ps, hpairs, hall, ?_, hrest⟩
      rw [List.append_assoc] at hperm
      exact hperm

theorem full_groups_spec : ∀ (ps : List (CcwDevinfo × CcwDevinfo)) (all : List CcwDevinfo),
    (∀ g ∈ full_groups none (flat ps) all, ∃ p ∈ ps, ∃ d ∈ all, g = ccwgroup_devid p.1 p.2 d) ∧
      (∃ rest, ((full_groups none (flat ps) all).flatten ++ rest).Perm ((flat ps ++ all).map CcwDevinfo.devid)) ∧
      (full_groups none (flat ps) all).length = min ps.length all.length
  | [], all => ⟨fun g hg => absurd hg List.not_mem_nil, ⟨_, List.Perm.refl _⟩, (Nat.zero_min _).symm⟩
  | p :: ps, [] => ⟨fun g hg => absurd hg List.not_mem_nil, ⟨_, List.Perm.refl _⟩, (Nat.min_zero _).symm⟩
  | p :: ps, d :: all => by
    obtain ⟨hgroups, ⟨rest, hperm⟩, hlen⟩ := full_groups_spec ps all
    have hadd : full_groups none (flat (p :: ps)) (d :: all) =
      ccwgroup_devid p.1 p.2 d :: full_groups none (flat ps) all := rfl
    rw [hadd]
    refine ⟨fun g hg => ?_, ⟨rest, ?_⟩, ?_⟩
    · rcases List.mem_cons.mp hg with rfl | hg
      · exact ⟨p, List.mem_cons_self, d, List.mem_cons_self, rfl⟩
      · obtain ⟨q, hq, e, he, hg⟩ := hgroups g hg
        exact ⟨q, List.mem_cons_of_mem _ hq, e, List.mem_cons_of_mem _ he, hg⟩
    · rw [List.map_append] at hperm ⊢
      have hmove : ((flat ps).map CcwDevinfo.devid ++ (d :: all).map CcwDevinfo.devid).Perm
          (d.devid :: ((flat ps).map CcwDevinfo.devid ++ all.map CcwDevinfo.devid)) := List.perm_middle
      show ([p.1.devid, p.2.devid] ++ (d.devid :: ((full_groups none (flat ps) all).flatten ++ rest))).Perm
        ([p.1.devid, p.2.devid] ++ ((flat ps).map CcwDevinfo.devid ++ (d :: all).map CcwDevinfo.devid))
      exact ((hperm.cons d.devid).trans hmove.symm).append_left _
    · rw [List.length_cons, hlen, List.length_cons, List.length_cons]
      omega

theorem pairs_made (run : List CcwDevinfo) :
    Made run (add_pairs_first run) ∧ min (run.length / 3) (greedy NextDev run) ≤ (add_pairs_first run).length := by
  obtain ⟨ps, hpairs, hall, hperm, hmany, hfew⟩ := move_pairs_spec (run.length / 3) run [] none 0
  have hperm : (flat ps ++ (move_pairs (run.length / 3) [] none 0 run).2).Perm run := hperm
  have hmany : ps.length = greedy NextDev run ∨ run.length / 3 ≤ 0 + ps.length := hmany
  have hadd : add_pairs_first run = full_groups none (flat ps) (move_pairs (run.length / 3) [] none 0 run).2 := by
    rw [← hpairs]
    rfl
  obtain ⟨hgroups, ⟨rest, hused⟩, hlen⟩ := full_groups_spec ps (move_pairs (run.length / 3) [] none 0 run).2
  rw [← hadd] at hgroups hused hlen
  refine ⟨⟨fun g hg => ?_, rest, hused.trans (hperm.map _)⟩, ?_⟩
  · obtain ⟨p, hp, d, hd, rfl⟩ := hgroups g hg
    have hflat : p.1 ∈ flat ps ∧ p.2 ∈ flat ps :=
      ⟨List.mem_flatMap.mpr ⟨p, hp, by simp⟩, List.mem_flatMap.mpr ⟨p, hp, by simp⟩⟩
    exact ⟨p.1, hperm.subset (List.mem_append_left _ hflat.1), p.2,
      hperm.subset (List.mem_append_left _ hflat.2), d,
      hperm.subset (List.mem_append_right _ hd), rfl, hall p hp⟩
  · have hcount := hperm.length_eq
    rw [List.length_append, length_flat] at hcount
    rw [hlen]
    omega

theorem groups_made (run : List CcwDevinfo) : Made run (add_groups run run.length) ∧
    min (run.length / 3) (greedy NextDev run) ≤ (add_groups run run.length).length := by
  rw [add_groups, List.take_length]
  by_cases hseq : check_seq none none run = true
  · rw [if_pos hseq]
    obtain ⟨hmade, hlen⟩ := seq_made hseq
    exact ⟨hmade, by rw [hlen]; exact Nat.min_le_left _ _⟩
  · rw [if_neg hseq]
    exact pairs_made run

theorem groups_best {c : CcwDevinfo} {run : List CcwDevinfo} (hrun : Run c run) :
    Packing run c (add_groups run run.length) ∧
      ∀ gs, Packing run c gs → gs.length ≤ (add_groups run run.length).length :=
  ⟨(groups_made run).1.packing hrun, fun _ hgs => (hgs.bound hrun).trans (groups_made run).2⟩

end Zdev.Qeth
