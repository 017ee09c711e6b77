import S390Tools.Zdev.QethAutoRun

/-!
# All groups of the list, and the group of one device

The list is one run after the other. A read device is found in its run, with the write
device right behind it.
-/

namespace Zdev.Qeth

open Ccw Memcmp Pairing

/-! ## Sorted lists -/

structure Ordered (infos : List CcwDevinfo) : Prop where
  sorted : infos.Pairwise fun a b => info_cmp a b ≤ 0
  distinct : (infos.map CcwDevinfo.devid).Nodup

theorem Ordered.append {l m : List CcwDevinfo} (h : Ordered (l ++ m)) : Ordered l ∧ Ordered m := by
  obtain ⟨hl, hm, -⟩ := List.pairwise_append.mp h.sorted
  have hd := h.distinct
  rw [List.map_append] at hd
  obtain ⟨hld, hmd, -⟩ := List.nodup_append.mp hd
  exact ⟨⟨hl, hld⟩, ⟨hm, hmd⟩⟩

section
variable {infos : List CcwDevinfo} (h : Ordered infos)
include h

theorem Ordered.eq {a b : CcwDevinfo} (ha : a ∈ infos) (hb : b ∈ infos) (heq : a.devid = b.devid) : a = b :=
  List.inj_on_of_nodup_map h.distinct ha hb heq

theorem Ordered.run {c : CcwDevinfo} (hsame : ∀ i ∈ infos, Same c i) : Run c infos := by
  refine ⟨hsame, (h.sorted.and (List.pairwise_map.mp h.distinct)).imp_of_mem ?_⟩
  rintro a b ha hb ⟨hle, hne⟩
  have hkey := key_le a b hle ((hsame a ha).symm.trans (hsame b hb))
  exact lt_of_le_of_ne hkey fun heq => hne (key_inj heq)

end

theorem count_split (start : CcwDevinfo) : ∀ infos : List CcwDevinfo,
    infos.take (count_compatible start infos) = infos.takeWhile (is_compatible start) ∧
      infos.drop (count_compatible start infos) = infos.dropWhile (is_compatible start)
  | [] => ⟨rfl, rfl⟩
  | curr :: infos => by
    rw [count_compatible]
    by_cases hc : is_compatible start curr = true
    · obtain ⟨htake, hdrop⟩ := count_split start infos
      rw [if_pos hc, List.takeWhile_cons_of_pos hc, List.dropWhile_cons_of_pos hc,
        List.take_succ_cons, List.drop_succ_cons]
      exact ⟨congrArg _ htake, hdrop⟩
    · rw [if_neg hc, List.takeWhile_cons_of_neg hc, List.dropWhile_cons_of_neg hc]
      exact ⟨rfl, rfl⟩

theorem drop_other {start : CcwDevinfo} : ∀ {infos : List CcwDevinfo},
    (infos.Pairwise fun a b => info_cmp a b ≤ 0) →
    (∀ i ∈ infos, classKey start ≤ classKey i) → ∀ i ∈ infos.dropWhile (is_compatible start), ¬ Same start i
  | [], _, _, i, hi => absurd hi List.not_mem_nil
  | curr :: infos, hsorted, hle, i, hi => by
    obtain ⟨hcurr, hrest⟩ := List.pairwise_cons.mp hsorted
    by_cases hc : is_compatible start curr = true
    · rw [List.dropWhile_cons_of_pos hc] at hi
      exact drop_other hrest (fun j hj => hle j (List.mem_cons_of_mem _ hj)) i hi
    · rw [List.dropWhile_cons_of_neg hc] at hi
      intro hsame
      refine hc ((is_compatible_iff start curr).mpr ((classKey_iff start curr).mpr ?_))
      refine le_antisymm (hle curr List.mem_cons_self) ?_
      rw [(classKey_iff start i).mp hsame]
      rcases List.mem_cons.mp hi with rfl | hi
      · exact le_refl _
      · exact info_le _ _ (hcurr i hi)

/-! ## All groups -/

/-- The groups keep to the classes, and each class has as many as there can be. -/
structure Exact (infos : List CcwDevinfo) (gs : List CcwgroupDevid) : Prop where
  groups : ∀ g ∈ gs, ValidGroup infos g
  used : ∃ rest, (gs.flatten ++ rest).Perm (infos.map CcwDevinfo.devid)
  most : ∀ c ∈ infos, ∀ gs', Packing infos c gs' → gs'.length ≤ (gs.filter (in_class infos c)).length

theorem GroupOf.mono {l m : List CcwDevinfo} {c : CcwDevinfo} {g : CcwgroupDevid} (hsub : l ⊆ m)
    (h : GroupOf l c g) :
    GroupOf m c g := by
  obtain ⟨r, hr, w, hw, d, hd, hg⟩ := h
  exact ⟨r, hsub hr, w, hsub hw, d, hsub hd, hg⟩

theorem GroupOf.restrict {l m : List CcwDevinfo} {c : CcwDevinfo} {g : CcwgroupDevid}
    (hall : ∀ i ∈ m, Same c i → i ∈ l) (h : GroupOf m c g) : GroupOf l c g := by
  obtain ⟨r, hr, w, hw, d, hd, hg, hnodup, hrs, hws, hds, hnext⟩ := h
  exact ⟨r, hall r hr hrs, w, hall w hw hws, d, hall d hd hds, hg, hnodup, hrs, hws, hds, hnext⟩

theorem GroupOf.same {l : List CcwDevinfo} {a b : CcwDevinfo} {g : CcwgroupDevid} (hsame : Same a b)
    (h : GroupOf l a g) :
    GroupOf l b g := by
  obtain ⟨r, hr, w, hw, d, hd, hg, hnodup, hrs, hws, hds, hnext⟩ := h
  exact ⟨r, hr, w, hw, d, hd, hg, hnodup, hsame.symm.trans hrs, hsame.symm.trans hws, hsame.symm.trans hds, hnext⟩

theorem GroupOf.in_class {l : List CcwDevinfo} {c : CcwDevinfo} {g : CcwgroupDevid} (h : GroupOf l c g) :
    in_class l c g = true := by
  obtain ⟨r, hr, w, -, d, -, rfl, -, hrs, -⟩ := h
  refine List.any_eq_true.mpr ⟨r, hr, ?_⟩
  rw [(is_compatible_iff c r).mpr hrs, Bool.true_and]
  exact beq_self_eq_true _

theorem in_class_mono {l m : List CcwDevinfo} {c : CcwDevinfo} {g : CcwgroupDevid} (hsub : l ⊆ m)
    (h : in_class l c g = true) : in_class m c g = true := by
  obtain ⟨i, hi, hc⟩ := List.any_eq_true.mp h
  exact List.any_eq_true.mpr ⟨i, hsub hi, hc⟩

theorem in_class_group {infos : List CcwDevinfo} (h : Ordered infos) {c : CcwDevinfo} {g : CcwgroupDevid}
    (hc : in_class infos c g = true) (hg : ValidGroup infos g) : GroupOf infos c g := by
  obtain ⟨i, hi, hcond⟩ := List.any_eq_true.mp hc
  rw [Bool.and_eq_true, beq_iff_eq] at hcond
  obtain ⟨b, -, hgroup⟩ := hg
  refine hgroup.same ?_
  obtain ⟨r, hr, w, -, d, -, rfl, -, hrs, -⟩ := hgroup
  have heq := h.eq hi hr hcond.2
  rw [← heq] at hrs
  exact hrs.trans ((is_compatible_iff c i).mp hcond.1).symm

theorem exact_append {c : CcwDevinfo} {run rest : List CcwDevinfo} {gs gs' : List CcwgroupDevid} (hrun : Run c run)
    (hc : c ∈ run) (hother : ∀ i ∈ rest, ¬ Same c i)
      (hmade : ∃ tail, (gs.flatten ++ tail).Perm (run.map CcwDevinfo.devid))
    (hpack : Packing run c gs) (hmost : ∀ ps, Packing run c ps → ps.length ≤ gs.length) (hrest : Exact rest gs') :
    Exact (run ++ rest) (gs ++ gs') := by
  have hleft : run ⊆ run ++ rest := List.subset_append_left run rest
  have hright : rest ⊆ run ++ rest := List.subset_append_right run rest
  refine ⟨fun g hg => ?_, ?_, fun b hb ps hps => ?_⟩
  · rcases List.mem_append.mp hg with hg | hg
    · exact ⟨c, hleft hc, (hpack.groups g hg).mono hleft⟩
    · obtain ⟨b, hb, hgroup⟩ := hrest.groups g hg
      exact ⟨b, hright hb, hgroup.mono hright⟩
  · obtain ⟨t₁, h₁⟩ := hmade
    obtain ⟨t₂, h₂⟩ := hrest.used
    refine ⟨t₁ ++ t₂, ?_⟩
    rw [List.flatten_append, List.map_append]
    refine List.Perm.trans ?_ (h₁.append h₂)
    rw [List.append_assoc, List.append_assoc]
    refine List.Perm.append_left _ ?_
    rw [← List.append_assoc, ← List.append_assoc]
    exact List.perm_append_comm.append_right t₂
  · rw [List.filter_append, List.length_append]
    by_cases hsame : Same c b
    · have hgroups : ∀ g ∈ ps, GroupOf run c g := fun g hg =>
        ((hps.groups g hg).same hsame.symm).restrict fun i hi hci =>
          (List.mem_append.mp hi).resolve_right fun hn => hother i hn hci
      have hle := hmost ps ⟨hgroups, hps.apart⟩
      have hall : gs.filter (in_class (run ++ rest) b) = gs := List.filter_eq_self.mpr fun g hg =>
        (((hpack.groups g hg).mono hleft).same hsame).in_class
      rw [hall]
      omega
    · have hb : b ∈ rest := (List.mem_append.mp hb).resolve_left fun hn => hsame (hrun.same b hn)
      have hgroups : ∀ g ∈ ps, GroupOf rest b g := fun g hg =>
        (hps.groups g hg).restrict fun i hi hbi =>
          (List.mem_append.mp hi).resolve_left fun hn => hsame ((hrun.same i hn).trans hbi.symm)
      have hle := hrest.most b hb ps ⟨hgroups, hps.apart⟩
      have hmono : (gs'.filter (in_class rest b)).length ≤ (gs'.filter (in_class (run ++ rest) b)).length :=
        (List.monotone_filter_right gs' fun g hg => in_class_mono hright hg).length_le
      omega

theorem groupable_exact : ∀ {infos : List CcwDevinfo}, Ordered infos → Exact infos (add_groupable_devids infos)
  | [], _ => by
    rw [add_groupable_devids]
    exact ⟨fun g hg => absurd hg List.not_mem_nil, ⟨[], List.Perm.refl _⟩, fun c hc => absurd hc List.not_mem_nil⟩
  | start :: infos, h => by
    rw [add_groupable_devids]
    obtain ⟨htake, hdrop⟩ := count_split start (start :: infos)
    have hsplit := List.take_append_drop (count_compatible start (start :: infos)) (start :: infos)
    have hord := h
    rw [← hsplit] at hord
    obtain ⟨hrun_ord, hrest_ord⟩ := hord.append
    have hsame : ∀ i ∈ (start :: infos).take (count_compatible start (start :: infos)), Same start i := by
      intro i hi
      rw [htake] at hi
      exact (is_compatible_iff start i).mp (List.mem_takeWhile_imp hi)
    have hstart : start ∈ (start :: infos).take (count_compatible start (start :: infos)) := by
      rw [htake, List.takeWhile_cons_of_pos (is_compatible_refl start)]
      exact List.mem_cons_self
    have hother : ∀ i ∈ (start :: infos).drop (count_compatible start (start :: infos)), ¬ Same start i := by
      rw [hdrop]
      refine drop_other h.sorted fun i hi => ?_
      rcases List.mem_cons.mp hi with rfl | hi
      · exact le_refl _
      · exact info_le _ _ ((List.pairwise_cons.mp h.sorted).1 i hi)
    have hrest := groupable_exact hrest_ord
    have hgroups : add_groups (start :: infos) (count_compatible start (start :: infos)) =
        add_groups ((start :: infos).take (count_compatible start (start :: infos)))
          ((start :: infos).take (count_compatible start (start :: infos))).length := by
      rw [add_groups, add_groups, List.take_length]
    rw [hgroups]
    generalize (start :: infos).take (count_compatible start (start :: infos)) = run at *
    generalize (start :: infos).drop (count_compatible start (start :: infos)) = rest at *
    rw [← hsplit]
    have hrun := hrun_ord.run hsame
    obtain ⟨hpack, hmost⟩ := groups_best hrun
    exact exact_append hrun hstart hother (groups_made run).1.used hpack hmost hrest
termination_by infos => infos.length
decreasing_by
  have hpos := count_pos start infos
  rw [List.length_drop, List.length_cons]
  omega

/-! ## The group of a read device -/

theorem find_read_none {id : CcwDevid} : ∀ {prev : Option CcwDevinfo} {infos : List CcwDevinfo},
    find_read id prev infos = none → ∀ i ∈ infos, i.devid ≠ id
  | _, [], _, i, hi => absurd hi List.not_mem_nil
  | prev, r :: next, h, i, hi => by
    rw [find_read] at h
    by_cases hr : ccw_cmp_devids r.devid id = 0
    · rw [if_pos hr] at h
      cases h
    · rw [if_neg hr] at h
      rcases List.mem_cons.mp hi with rfl | hi
      · exact fun heq => hr (cmp_eq.2 heq)
      · exact find_read_none h i hi

theorem find_read_some {id : CcwDevid} {p : Option CcwDevinfo} {r : CcwDevinfo} {next : List CcwDevinfo} :
    ∀ {prev : Option CcwDevinfo} {infos : List CcwDevinfo}, find_read id prev infos = some (p, r, next) →
      r.devid = id ∧ ((infos = r :: next ∧ p = prev) ∨ ∃ before q, infos = before ++ q :: r :: next ∧ p = some q)
  | _, [], h => by cases h
  | prev, x :: infos, h => by
    rw [find_read] at h
    by_cases hx : ccw_cmp_devids x.devid id = 0
    · rw [if_pos hx] at h
      cases h
      exact ⟨cmp_eq.1 hx, Or.inl ⟨rfl, rfl⟩⟩
    · rw [if_neg hx] at h
      obtain ⟨hid, hplace⟩ := find_read_some h
      refine ⟨hid, Or.inr ?_⟩
      rcases hplace with ⟨rfl, rfl⟩ | ⟨before, q, rfl, rfl⟩
      · exact ⟨[], x, rfl, rfl⟩
      · exact ⟨x :: before, q, rfl, rfl⟩

/-- The node found, with what stands before and behind it. -/
structure Found (infos : List CcwDevinfo) (id : CcwDevid) (prev : Option CcwDevinfo) (r : CcwDevinfo)
    (next : List CcwDevinfo) : Prop where
  id : r.devid = id
  place : ∃ before, infos = before ++ r :: next ∧ prev = before.getLast?

theorem found {id : CcwDevid} {infos next : List CcwDevinfo} {p : Option CcwDevinfo} {r : CcwDevinfo}
    (h : find_read id none infos = some (p, r, next)) : Found infos id p r next := by
  obtain ⟨hid, hplace⟩ := find_read_some h
  refine ⟨hid, ?_⟩
  rcases hplace with ⟨rfl, rfl⟩ | ⟨before, q, rfl, rfl⟩
  · exact ⟨[], rfl, rfl⟩
  · exact ⟨before ++ [q], by simp, by simp⟩

section
variable {infos next : List CcwDevinfo} {prev : Option CcwDevinfo} {r : CcwDevinfo} {id : CcwDevid}

theorem data_device_mem {d : CcwDevinfo} {before : List CcwDevinfo}
    (h : data_device before.getLast? r next = some d) : d ∈ before ++ next := by
  cases next with
  | nil => exact List.mem_append_left _ (List.mem_of_getLast? h)
  | cons e next =>
    rw [data_device] at h
    by_cases hc : is_compatible r e = true
    · rw [if_pos hc] at h
      cases h
      exact List.mem_append_right _ List.mem_cons_self
    · rw [if_neg hc] at h
      exact List.mem_append_left _ (List.mem_of_getLast? h)

theorem make_group_ok {g : CcwgroupDevid} (h : make_group prev r next = .ok g) :
    ∃ w rest d, next = w :: rest ∧ Same r w ∧ NextDev r w ∧ data_device prev r rest = some d ∧ Same r d ∧
      g = ccwgroup_devid r w d := by
  cases next with
  | nil => cases h
  | cons w rest =>
    rw [make_group] at h
    by_cases hw : is_compatible r w = true
    · rw [if_neg (fun hn => hn hw)] at h
      by_cases hdist : ccw_devid_distance r.devid w.devid = 1
      · rw [if_neg (fun hn => hn hdist)] at h
        obtain hnone | ⟨d, hd⟩ := Option.eq_none_or_eq_some (data_device prev r rest)
        · rw [hnone] at h
          cases h
        · rw [hd] at h
          dsimp only at h
          by_cases hc : is_compatible r d = true
          · rw [if_neg (fun hn => hn hc)] at h
            cases h
            exact ⟨w, rest, d, rfl, (is_compatible_iff r w).mp hw, distance_iff.1 hdist, hd,
              (is_compatible_iff r d).mp hc, rfl⟩
          · rw [if_pos hc] at h
            cases h
      · rw [if_pos hdist] at h
        cases h
    · rw [if_pos hw] at h
      cases h

theorem make_group_eq {w d : CcwDevinfo} (hw : Same r w) (hnext : NextDev r w)
    (hd : data_device prev r next = some d)
    (hsame : Same r d) : make_group prev r (w :: next) = .ok (ccwgroup_devid r w d) := by
  rw [make_group, if_neg (fun hn => hn ((is_compatible_iff r w).mpr hw)),
    if_neg (fun hn => hn (distance_iff.2 hnext)), hd]
  dsimp only
  rw [if_neg (fun hn => hn ((is_compatible_iff r d).mpr hsame))]

theorem make_group_valid {g : CcwgroupDevid} (h : Ordered infos) (hfound : Found infos id prev r next)
    (hok : make_group prev r next = .ok g) : ValidGroup infos g ∧ g.head? = some id := by
  obtain ⟨before, rfl, rfl⟩ := hfound.place
  obtain ⟨w, rest, d, rfl, hws, hnext, hdata, hds, rfl⟩ := make_group_ok hok
  have hd : d ∈ before ++ rest := @data_device_mem _ r d _ hdata
  have hr : r ∈ before ++ r :: w :: rest := List.mem_append_right _ List.mem_cons_self
  have hw : w ∈ before ++ r :: w :: rest := List.mem_append_right _ (List.mem_cons_of_mem _ List.mem_cons_self)
  have hperm : (before ++ r :: w :: rest).Perm (r :: w :: (before ++ rest)) :=
    List.perm_middle.trans (List.perm_middle.cons r)
  have hnodup := (hperm.map CcwDevinfo.devid).nodup_iff.mp h.distinct
  rw [List.map_cons, List.map_cons, List.nodup_cons, List.nodup_cons] at hnodup
  have hdm := List.mem_map_of_mem (f := CcwDevinfo.devid) hd
  refine ⟨⟨r, hr, r, hr, w, hw, d, hperm.mem_iff.mpr (List.mem_cons_of_mem _ (List.mem_cons_of_mem _ hd)), rfl, ?_,
    Same.refl r, hws, hds, hnext⟩, congrArg some hfound.id⟩
  have hrw : r.devid ≠ w.devid := fun heq => hnodup.1 (by rw [heq]; exact List.mem_cons_self)
  have hrd : r.devid ≠ d.devid := fun heq => hnodup.1 (by rw [heq]; exact List.mem_cons_of_mem _ hdm)
  have hwd : w.devid ≠ d.devid := fun heq => hnodup.2.1 (by rw [heq]; exact hdm)
  simp only [ccwgroup_devid, List.nodup_cons, List.mem_cons, List.not_mem_nil, or_false, hrw, hrd, hwd,
    not_false_eq_true, and_self, List.nodup_nil]

theorem same_between {a b c : CcwDevinfo} (hab : info_cmp a b ≤ 0) (hbc : info_cmp b c ≤ 0) (hsame : Same a c) :
    Same a b := by
  refine (classKey_iff a b).mpr (le_antisymm (info_le a b hab) ?_)
  rw [(classKey_iff a c).mp hsame]
  exact info_le b c hbc

theorem write_next {before : List CcwDevinfo} {w : CcwDevinfo} (h : Ordered (before ++ r :: next))
    (hw : w ∈ before ++ r :: next) (hsame : Same r w) (hnext : NextDev r w) : ∃ rest, next = w :: rest := by
  have hkey := NextId.key hnext
  obtain ⟨-, hright, hcross⟩ := List.pairwise_append.mp h.sorted
  obtain ⟨hr, hn⟩ := List.pairwise_cons.mp hright
  have hmem : w ∈ next := by
    rcases List.mem_append.mp hw with hb | hb
    · have := key_le w r (hcross w hb r List.mem_cons_self) hsame.symm
      omega
    · rcases List.mem_cons.mp hb with rfl | hb
      · omega
      · exact hb
  obtain ⟨x, rest, rfl⟩ := List.exists_cons_of_ne_nil (List.ne_nil_of_mem hmem)
  refine ⟨rest, congrArg (· :: rest) ?_⟩
  rcases List.mem_cons.mp hmem with rfl | hrest
  · rfl
  · have hrx := hr x List.mem_cons_self
    have hxw := (List.pairwise_cons.mp hn).1 w hrest
    have hx := same_between hrx hxw hsame
    have hnodup := h.append.2.distinct
    rw [List.map_cons, List.map_cons, List.nodup_cons, List.nodup_cons] at hnodup
    have hne₁ : r.devid.key ≠ x.devid.key := fun heq => hnodup.1 (by rw [key_inj heq]; exact List.mem_cons_self)
    have hne₂ : x.devid.key ≠ w.devid.key := fun heq =>
      hnodup.2.1 (by rw [key_inj heq]; exact List.mem_map_of_mem hrest)
    have h₁ := key_le r x hrx hx
    have h₂ := key_le x w hxw (hx.symm.trans hsame)
    omega

theorem data_found {before : List CcwDevinfo} {w d : CcwDevinfo} (h : Ordered (before ++ r :: w :: next))
    (hd : d ∈ before ++ next) (hsame : Same r d) :
    ∃ e, data_device before.getLast? r next = some e ∧ Same r e := by
  obtain ⟨hbefore, hright, hcross⟩ := List.pairwise_append.mp h.sorted
  obtain ⟨hr, hw⟩ := List.pairwise_cons.mp hright
  have hlast : d ∈ before → ∃ e, before.getLast? = some e ∧ Same r e := by
    intro hmem
    have hne := List.ne_nil_of_mem hmem
    refine ⟨before.getLast hne, List.getLast?_eq_some_getLast hne, ?_⟩
    have hlast_mem := List.getLast_mem hne
    have hle := hcross _ hlast_mem r List.mem_cons_self
    have hsplit := List.dropLast_concat_getLast hne
    rw [← hsplit] at hmem hbefore
    rcases List.mem_append.mp hmem with hm | hm
    · have hdl := (List.pairwise_append.mp hbefore).2.2 d hm _ (List.mem_singleton_self _)
      exact (hsame.trans (same_between hdl hle hsame.symm))
    · rw [← List.mem_singleton.mp hm]
      exact hsame
  cases next with
  | nil =>
    rw [List.append_nil] at hd
    exact hlast hd
  | cons e rest =>
    rw [data_device]
    by_cases hc : is_compatible r e = true
    · rw [if_pos hc]
      exact ⟨e, rfl, (is_compatible_iff r e).mp hc⟩
    · rw [if_neg hc]
      refine hlast ((List.mem_append.mp hd).resolve_right fun hn => hc ((is_compatible_iff r e).mpr ?_))
      rcases List.mem_cons.mp hn with rfl | hn
      · exact hsame
      · have hre := hr e (List.mem_cons_of_mem _ List.mem_cons_self)
        have hed := (List.pairwise_cons.mp (List.pairwise_cons.mp hw).2).1 d hn
        exact same_between hre hed hsame

theorem make_group_exists (h : Ordered infos) (hfound : Found infos id prev r next) {g : CcwgroupDevid}
    (hg : ValidGroup infos g) (hid : g.head? = some id) : ∃ g', make_group prev r next = .ok g' := by
  obtain ⟨before, rfl, rfl⟩ := hfound.place
  obtain ⟨c, -, a, ha, w, hw, d, hd, rfl, hnodup, has, hws, hds, hnext⟩ := hg
  have har : a = r := by
    refine h.eq ha (List.mem_append_right _ List.mem_cons_self) ?_
    rw [hfound.id]
    exact Option.some.inj hid
  subst har
  have hsame := has.symm.trans hws
  obtain ⟨rest, rfl⟩ := write_next h hw hsame hnext
  have hdm : d ∈ before ++ rest := by
    simp only [List.nodup_cons, List.mem_cons, List.not_mem_nil, or_false, not_or] at hnodup
    have hne₁ : d ≠ a := fun heq => hnodup.1.2 (by rw [heq])
    have hne₂ : d ≠ w := fun heq => hnodup.2.1 (by rw [heq])
    rcases List.mem_append.mp hd with hd | hd
    · exact List.mem_append_left _ hd
    · exact List.mem_append_right _ (List.mem_of_ne_of_mem hne₂ (List.mem_of_ne_of_mem hne₁ hd))
  obtain ⟨e, he, hse⟩ := data_found h hdm (has.symm.trans hds)
  exact ⟨_, make_group_eq hsame hnext he hse⟩

end

theorem first_head {infos : List CcwDevinfo} {g : CcwgroupDevid} (h : ValidGroup infos g) :
    g.head? = some (first g) := by
  obtain ⟨c, -, r, -, w, -, d, -, rfl, -⟩ := h
  rfl

theorem get_devid_exact {infos : List CcwDevinfo} (h : Ordered infos) (id : CcwDevid) :
    (∀ g, qeth_auto_get_devid infos id = .ok g → ValidGroup infos g ∧ g.head? = some id) ∧
      ((∃ g, qeth_auto_get_devid infos id = .ok g) ↔ ∃ g, ValidGroup infos g ∧ g.head? = some id) := by
  unfold qeth_auto_get_devid
  obtain hnone | ⟨g, hsome⟩ := Option.eq_none_or_eq_some
    ((add_groupable_devids infos).find? fun devid => ccw_cmp_devids id (first devid) == 0)
  · rw [hnone]
    dsimp only
    obtain hno | ⟨⟨prev, r, next⟩, hfind⟩ := Option.eq_none_or_eq_some (find_read id none infos)
    · rw [hno]
      refine ⟨fun g hg => (by cases hg), iff_of_false ?_ ?_⟩
      · rintro ⟨g, hg⟩
        cases hg
      · rintro ⟨g, ⟨c, -, r, hr, w, -, d, -, rfl, -⟩, hid⟩
        exact find_read_none hno r hr (Option.some.inj hid)
    · rw [hfind]
      have hfound := found hfind
      refine ⟨fun g hg => make_group_valid h hfound hg, ?_, ?_⟩
      · rintro ⟨g, hg⟩
        exact ⟨g, make_group_valid h hfound hg⟩
      · rintro ⟨g, hg, hid⟩
        exact make_group_exists h hfound hg hid
  · rw [hsome]
    have hcmp := List.find?_some hsome
    have hvalid := (groupable_exact h).groups g (List.mem_of_find?_eq_some hsome)
    have hid : g.head? = some id := by
      rw [first_head hvalid, cmp_eq.1 (beq_iff_eq.mp hcmp)]
    refine ⟨fun g' hg' => ?_, iff_of_true ⟨g, rfl⟩ ⟨g, hvalid, hid⟩⟩
    cases hg'
    exact ⟨hvalid, hid⟩

theorem qeth_auto_exact (devs : DevInfos) :
    (∀ g ∈ add_groupable_devids devs.infos, ValidGroup devs.infos g) ∧
      (add_groupable_devids devs.infos).flatten.Nodup ∧
      (∀ c ∈ devs.infos, Packing devs.infos c ((add_groupable_devids devs.infos).filter (in_class devs.infos c)) ∧
        ∀ gs, Packing devs.infos c gs →
          gs.length ≤ ((add_groupable_devids devs.infos).filter (in_class devs.infos c)).length) ∧
      ∀ id, (∀ g, qeth_auto_get_devid devs.infos id = .ok g → ValidGroup devs.infos g ∧ g.head? = some id) ∧
        ((∃ g, qeth_auto_get_devid devs.infos id = .ok g) ↔ ∃ g, ValidGroup devs.infos g ∧ g.head? = some id) := by
  have h : Ordered devs.infos := ⟨devs.sorted, devs.distinct⟩
  obtain ⟨hgroups, ⟨rest, hused⟩, hmost⟩ := groupable_exact h
  have hnodup := (List.nodup_append.mp (hused.nodup_iff.mpr devs.distinct)).1
  refine ⟨hgroups, hnodup, fun c hc => ⟨⟨fun g hg => ?_, ?_⟩, hmost c hc⟩, get_devid_exact h⟩
  · obtain ⟨hmem, hclass⟩ := List.mem_filter.mp hg
    exact in_class_group h hclass (hgroups g hmem)
  · exact hnodup.sublist (List.filter_sublist.flatten)

def netDevice (chpid : UInt8) (devno : UInt16) : CcwDevinfo where
  devid := ⟨0, 0, devno⟩
  chpids := [0, chpid, 0, 0, 0, 0, 0, 0, 0, 0, 0, 0, 0, 0, 0, 0]
  cutype := 0x1731
  devtype := 0x1732
  cumodel := 1
  devmodel := 1
  pim := 0x80
  chpids_length := rfl

def twoPaths : DevInfos where
  infos := [0x600, 0x602, 0x603].map (netDevice 0x1a) ++ [0xf500, 0xf501, 0xf502].map (netDevice 0x2b)
  sorted := by decide
  distinct := by decide

/-- Each class has its group, and the device before the gap is no read device. -/
theorem qeth_auto_two_paths :
    (∀ c ∈ twoPaths.infos,
      0 < ((add_groupable_devids twoPaths.infos).filter (in_class twoPaths.infos c)).length) ∧
      (∃ g, qeth_auto_get_devid twoPaths.infos ⟨0, 0, 0x602⟩ = .ok g) ∧
      ¬ ∃ g, qeth_auto_get_devid twoPaths.infos ⟨0, 0, 0x600⟩ = .ok g := by
  obtain ⟨-, -, hclass, hid⟩ := qeth_auto_exact twoPaths
  have hfirst : ∀ c ∈ [0x600, 0x602, 0x603].map (netDevice 0x1a),
      GroupOf twoPaths.infos c [⟨0, 0, 0x602⟩, ⟨0, 0, 0x603⟩, ⟨0, 0, 0x600⟩] := by
    unfold GroupOf Same NextId
    decide
  have hsecond : ∀ c ∈ [0xf500, 0xf501, 0xf502].map (netDevice 0x2b),
      GroupOf twoPaths.infos c [⟨0, 0, 0xf500⟩, ⟨0, 0, 0xf501⟩, ⟨0, 0, 0xf502⟩] := by
    unfold GroupOf Same NextId
    decide
  refine ⟨fun c hc => ?_, (hid _).2.mpr ⟨_, ⟨_, List.mem_cons_self, hfirst _ List.mem_cons_self⟩,
    rfl⟩, fun hg => ?_⟩
  · obtain ⟨g, hg⟩ : ∃ g, GroupOf twoPaths.infos c g := by
      rcases List.mem_append.mp hc with hc | hc
      · exact ⟨_, hfirst c hc⟩
      · exact ⟨_, hsecond c hc⟩
    have hpacking : Packing twoPaths.infos c [g] := by
      refine ⟨fun g' hg' => List.mem_singleton.mp hg' ▸ hg, ?_⟩
      obtain ⟨r, -, w, -, d, -, -, hnodup, -⟩ := hg
      rwa [List.flatten_singleton]
    exact (hclass c hc).2 [g] hpacking
  · obtain ⟨g, ⟨c, -, r, -, w, hw, d, -, rfl, -, -, -, -, -, -, hnext⟩, hread⟩ := (hid _).2.mp hg
    have hno : ∀ w ∈ twoPaths.infos, w.devid.devno.toNat ≠ 0x601 := by decide
    rw [Option.some.inj hread] at hnext
    exact hno w hw hnext

end Zdev.Qeth
