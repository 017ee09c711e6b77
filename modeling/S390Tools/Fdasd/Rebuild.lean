import S390Tools.Fdasd.Remove

/-!
# Recreating and reusing the table of contents

`fdasd_recreate_vtoc_unconditional` starts from an empty table,
`fdasd_reuse_vtoc` builds the labels anew from the counters of the partitions.
-/

namespace Fdasd

open Word Vtoc DList Ranges

section
variable {geo : HdGeometry} {anc : FdasdAnchor}

/-! ## Recreate -/

/-- All partition structures are in the list and the unused ones are clear. -/
structure WellLinked (anc : FdasdAnchor) (xs : List Node) : Prop where
  list : IsList anc.links anc.first anc.last xs
  all : xs.length = USABLE_PARTITIONS
  clear : ∀ n, (anc.info n).used = 0x01 ∨ (anc.info n).Free

theorem initialize_wellLinked : WellLinked fdasd_initialize_anchor (List.finRange USABLE_PARTITIONS) where
  list := ⟨List.nodup_finRange _, rfl, rfl, rfl, rfl, rfl, rfl, rfl, rfl, trivial⟩
  all := rfl
  clear := fun _ => Or.inr ⟨rfl, rfl, rfl, rfl, rfl⟩

def recreatedInfo (p : PartitionInfo) : PartitionInfo :=
  if p.used = 0x01 then
    { p with f1 := .zero, used := 0x00, start_trk := 0, end_trk := 0, len_trk := 0, fspace_trk := 0 }
  else { p with f1 := .zero }

theorem recreatePartition_eq (n : Node) : recreatePartition anc n = .ok (anc.upd n recreatedInfo) := by
  unfold recreatePartition recreatedInfo
  simp only [upd_info, if_true]
  split
  · rename_i h
    simp only [FdasdAnchor.upd, Function.update_self, Function.update_idem, h, if_true]
  · rename_i h
    simp only [FdasdAnchor.upd, h, if_false]

theorem recreate_fold : ∀ {xs : List Node} {anc : FdasdAnchor}, xs.Nodup →
    xs.foldlM recreatePartition anc =
      .ok { anc with info := fun n => if n ∈ xs then recreatedInfo (anc.info n) else anc.info n }
  | [], anc, _ => by simp; rfl
  | x :: xs, anc, hnd => by
    obtain ⟨hx, hnd⟩ := List.nodup_cons.mp hnd
    rw [List.foldlM_cons, bind_ok (recreatePartition_eq x), recreate_fold hnd]
    simp only [FdasdAnchor.upd]
    congr 2
    funext n
    rw [Function.update_apply]
    by_cases hn : n = x
    · rw [hn, if_neg hx, if_pos rfl, if_pos (List.mem_cons_self ..)]
    · simp [hn]

theorem recreatedInfo_free {p : PartitionInfo} (h : p.used = 0x01 ∨ p.Free) : (recreatedInfo p).Free := by
  unfold recreatedInfo
  split
  · exact ⟨rfl, rfl, rfl, rfl, rfl⟩
  · rename_i hn
    have hf := h.resolve_left hn
    exact ⟨hf.used, hf.start_trk, hf.end_trk, hf.len_trk, hf.fspace_trk⟩

def recreated (geo : HdGeometry) (anc : FdasdAnchor) (l : FreeLabels) : FdasdAnchor :=
  { anc with
    toFreeLabels := l
    info := fun n => recreatedInfo (anc.info n)
    used_partitions := 0
    fspace_trk := tracks geo anc - FIRST_USABLE_TRK
    partno := fun _ => -1
    vtoc_changed := anc.vtoc_changed + 1 }

theorem lastTrack_eq (D : Disk geo anc.formatted_cylinders) : lastTrack geo anc = tracks geo anc - 1 := by
  have h₁ := D.three_le
  have h₂ := D.tracks_le
  unfold lastTrack tracks
  generalize anc.formatted_cylinders * geo.heads = T at *
  unfold u32; omega

theorem freespace_init (D : Disk geo anc.formatted_cylinders) (f4 : Format4Label) :
    ∃ l, freespace ⟨f4, vtoc_init_format5_label, vtoc_init_format7_label⟩ '+' FIRST_USABLE_TRK (lastTrack geo anc)
        anc.formatted_cylinders geo.heads = .ok l ∧
      l.f4 = freespace_f4 anc.formatted_cylinders geo.heads f4 ∧
      Describes geo.heads (tracks geo anc) l (gaps FIRST_USABLE_TRK (tracks geo anc) []) := by
  have h₁ := D.three_le
  have h₂ := D.heads_pos
  have h₃ := D.heads_le
  have h₄ := lastTrack_eq D
  obtain ⟨l, gs, hl, hc, hd, hf4, hcov⟩ := set_freespace_add geo.heads anc.formatted_cylinders
    (by omega) (by omega) D.tracks_le (describes_init geo.heads _ f4) canonical_nil (by simp)
    FIRST_USABLE_TRK (lastTrack geo anc) (by decide)
    (by rw [h₄]; unfold tracks FIRST_USABLE_TRK; omega) (by rw [h₄]; unfold tracks; omega) (by simp)
  have hgs : gs = _ := gaps_eq (T := tracks geo anc) sorted_nil (by simp) hc fun t => by
    rw [hcov, h₄]
    simp only [covers_nil, false_or, not_false_eq_true, and_true, In]
    unfold tracks; omega
  exact ⟨l, by rw [freespace, hl], hf4, hgs ▸ hd⟩

theorem recreate_eq (D : Disk geo anc.formatted_cylinders) {xs : List Node} (h : WellLinked anc xs) :
    ∃ l, fdasd_recreate_vtoc_unconditional geo anc = .ok (recreated geo anc l) ∧
      l.f4 = freespace_f4 anc.formatted_cylinders geo.heads (initFormat4 geo anc) ∧
      Describes geo.heads (tracks geo anc) l (gaps FIRST_USABLE_TRK (tracks geo anc) []) := by
  obtain ⟨l, hl, hf4, hd⟩ := freespace_init D (initFormat4 geo anc)
  refine ⟨l, ?_, hf4, hd⟩
  have hmem : ∀ n, n ∈ xs := by
    intro n
    have hc : xs.toFinset.card = Fintype.card Node := by
      rw [List.toFinset_card_of_nodup h.list.nodup, h.all, Fintype.card_fin]
    have hn : n ∈ xs.toFinset := by rw [Finset.eq_univ_of_card _ hc]; exact Finset.mem_univ n
    exact List.mem_toFinset.mp hn
  have hb : ∀ (s : FdasdAnchor) n s', s.links.next = anc.links.next → recreatePartition s n = .ok s' →
      s'.links.next = anc.links.next := by
    intro s n s' hs hr
    rw [recreatePartition_eq] at hr
    cases hr
    exact hs
  have hfold := forNodes_eq hb USABLE_PARTITIONS
    (s := { anc with toFreeLabels := l }) h.list.seg (le_of_eq h.all) rfl
  rw [recreate_fold h.list.nodup, ← h.list.first_eq] at hfold
  have hfsp : u32 (((anc.formatted_cylinders * geo.heads : Nat) : Int) - FIRST_USABLE_TRK) =
      tracks geo anc - FIRST_USABLE_TRK := by
    have h₁ := D.three_le
    have h₂ := D.tracks_le
    unfold tracks FIRST_USABLE_TRK
    generalize anc.formatted_cylinders * geo.heads = T at *
    unfold u32; omega
  unfold fdasd_recreate_vtoc_unconditional
  rw [bind_ok hl]
  refine (bind_ok hfold _).trans ?_
  simp only [hmem, if_true, hfsp, recreated]

theorem recreate_table (D : Disk geo anc.formatted_cylinders) {xs : List Node} (h : WellLinked anc xs) :
    ∃ l, fdasd_recreate_vtoc_unconditional geo anc = .ok (recreated geo anc l) ∧
      l.f4 = freespace_f4 anc.formatted_cylinders geo.heads (initFormat4 geo anc) ∧
      Table geo (recreated geo anc l) [] xs := by
  obtain ⟨l, heq, hf4, hd⟩ := recreate_eq D h
  exact ⟨l, heq, hf4, ⟨h.list, h.all, by simp, fun n _ => recreatedInfo_free (h.clear n), rfl,
    by simp, sorted_nil, rfl,
    rfl⟩, hd⟩

/-! ## Reuse -/

def relabelled (anc : FdasdAnchor) (today : Labeldate) (us : List Node) : FdasdAnchor :=
  { anc with info := fun n =>
      if n ∈ us then { anc.info n with f1 := reuseLabel anc today (anc.info n).f1 } else anc.info n }

theorem reuseLabel_ext (anc : FdasdAnchor) (today : Labeldate) (f1 : Format1Label) :
    (reuseLabel anc today f1).DS1EXT1 = f1.DS1EXT1 := by
  unfold reuseLabel
  split <;> rfl

/-- The ranges of the partitions in front of `hi`, with the gaps between them and up to `hi`. -/
theorem gaps_extend {T : Nat} {rs ss : List (Nat × Nat)} {r : Nat × Nat} (hs : Sorted (rs ++ r :: ss))
    (hw : ∀ s ∈ rs ++ r :: ss, FIRST_USABLE_TRK ≤ s.1 ∧ s.2 ≤ T) (t : Nat) :
    Covers (gaps FIRST_USABLE_TRK (nextStart T ss) (rs ++ [r])) t ↔
      Covers (gaps FIRST_USABLE_TRK r.1 rs) t ∨ In t (r.2, nextStart T ss) := by
  obtain ⟨h₁, h₂, h₃⟩ := sorted_append.1 hs
  obtain ⟨h₄, h₅, h₆⟩ := sorted_cons.1 h₂
  have hr := hw r (by simp)
  have hn : r.2 ≤ nextStart T ss := le_nextStart hr.2 h₅
  have hb : ∀ s ∈ rs, s.2 ≤ r.1 := fun s hs => h₃ s hs r (by simp)
  have hrs : Sorted (rs ++ [r]) := by
    rw [← List.singleton_append, ← List.append_assoc] at hs
    exact (sorted_append.1 hs).1
  rw [Ranges.covers_gaps hrs (fun s hs => (hw s (by simp at hs ⊢; tauto)).1)
    (fun s hs => by
      rcases List.mem_append.mp hs with hs | hs
      · exact le_trans (hb s hs) (le_trans h₄.le hn)
      · rw [List.mem_singleton.mp hs]; exact hn),
    Ranges.covers_gaps h₁ (fun s hs => (hw s (by simp [hs])).1) hb]
  simp only [covers_append, covers_cons, covers_nil, or_false, In]
  constructor
  · rintro ⟨h, hnot⟩
    by_cases ht : t < r.1
    · exact Or.inl ⟨⟨h.1, ht⟩, fun hc => hnot (Or.inl hc)⟩
    · refine Or.inr ⟨?_, h.2⟩
      by_contra hlt
      exact hnot (Or.inr ⟨by omega, by omega⟩)
  · rintro (⟨h, hnot⟩ | h)
    · refine ⟨⟨h.1, by omega⟩, ?_⟩
      rintro (hc | hc)
      · exact hnot hc
      · omega
    · refine ⟨⟨by omega, h.2⟩, ?_⟩
      rintro (⟨s, hs, ht⟩ | hc)
      · have := hb s hs
        simp only [In] at ht
        omega
      · omega

theorem gaps_extend_nil {T : Nat} {rs ss : List (Nat × Nat)} {r : Nat × Nat} (hs : Sorted (rs ++ r :: ss))
    (hw : ∀ s ∈ rs ++ r :: ss, FIRST_USABLE_TRK ≤ s.1 ∧ s.2 ≤ T) :
    gaps FIRST_USABLE_TRK (nextStart T ss) (rs ++ [r]) = [] ↔ gaps FIRST_USABLE_TRK r.1 rs = [] ∧
      nextStart T ss ≤ r.2 := by
  have hs' := hs
  rw [← List.singleton_append, ← List.append_assoc] at hs'
  have hc : Canonical (gaps FIRST_USABLE_TRK (nextStart T ss) (rs ++ [r])) :=
    gaps_canonical (sorted_append.1 hs').1 fun s hm => (hw s (by
      simp only [List.mem_append, List.mem_cons, List.not_mem_nil, or_false] at hm ⊢
      tauto)).1
  have hc' : Canonical (gaps FIRST_USABLE_TRK r.1 rs) :=
    gaps_canonical (sorted_append.1 hs).1 fun s hm => (hw s (by simp [hm])).1
  rw [hc.eq_nil_iff, hc'.eq_nil_iff]
  simp only [gaps_extend hs hw, not_or, forall_and]
  refine and_congr_right fun _ => ⟨fun h => ?_, fun h t ht => ?_⟩
  · by_contra hlt
    exact h r.2 ⟨le_refl _, not_le.mp hlt⟩
  · have := ht.1
    have := ht.2
    simp only at *
    omega

section
variable {us fs : List Node} (D : Disk geo anc.formatted_cylinders) (h : Table geo anc us fs) (today : Labeldate)
include D h

omit h in
theorem freespace_gap {l : FreeLabels} {rs : List (Nat × Nat)} {lo : Nat} (mid hi : Nat) (hlo : 0 < mid)
    (hd : Describes geo.heads (tracks geo anc) l (gaps FIRST_USABLE_TRK lo rs)) (hs : Sorted rs)
    (hw : ∀ r ∈ rs, FIRST_USABLE_TRK ≤ r.1 ∧ r.2 ≤ lo) (hmid : lo ≤ mid) (hlt : mid < hi)
      (hhi : hi ≤ tracks geo anc)
    (hlen : rs.length < 15) :
    ∃ l' gs, vtoc_set_freespace l '+' mid (hi - 1) anc.formatted_cylinders geo.heads = .ok l' ∧ Canonical gs ∧
      Describes geo.heads (tracks geo anc) l' gs ∧ l'.f4 = freespace_f4 anc.formatted_cylinders geo.heads l.f4 ∧
      ∀ t, Covers gs t ↔ Covers (gaps FIRST_USABLE_TRK lo rs) t ∨ In t (mid, hi) := by
  have h₂ := D.heads_pos
  have h₃ := D.heads_le
  have hc : Canonical (gaps FIRST_USABLE_TRK lo rs) := gaps_canonical hs fun r hr => (hw r hr).1
  have hlen' := gaps_length_le FIRST_USABLE_TRK lo rs
  have hh : hi - 1 + 1 = hi := by omega
  obtain ⟨l', gs, hl, hc', hd', hf4, hcov⟩ := set_freespace_add geo.heads anc.formatted_cylinders
    (by omega) (by omega) D.tracks_le hd hc (by omega) mid (hi - 1) hlo (by omega)
    (by unfold tracks at hhi; omega) (fun g hg => by
      refine Or.inl ?_
      have hgn := hc.nonempty g hg
      by_contra hn
      simp only [not_le] at hn
      have hcg : Covers (gaps FIRST_USABLE_TRK lo rs) (g.2 - 1) := ⟨g, hg, by omega, by omega⟩
      have := ((Ranges.covers_gaps hs (fun r hr => (hw r hr).1) (fun r hr => (hw r hr).2) _).mp hcg).1
      omega)
  rw [hh] at hcov
  exact ⟨l', gs, hl, hc', hd', hf4, hcov⟩

omit h in
/-- The gap of `g` tracks behind the range `r` goes into the labels, which describe those in front of it. -/
theorem gap_behind {l : FreeLabels} {rs ss : List (Nat × Nat)} {r : Nat × Nat} {g : Nat}
    (hs : Sorted (rs ++ r :: ss))
    (hw : ∀ s ∈ rs ++ r :: ss, FIRST_USABLE_TRK ≤ s.1 ∧ s.2 ≤ tracks geo anc)
    (hd : Describes geo.heads (tracks geo anc) l (gaps FIRST_USABLE_TRK r.1 rs)) (hlen : rs.length < 15)
    (hg : g = nextStart (tracks geo anc) ss - r.2) :
    ∃ l', (if g > 0 then freespace l '+' (u32 (r.2 : Nat)) (u32 (r.2 + g - 1 : Nat))
      anc.formatted_cylinders geo.heads
        else .ok l) = .ok l' ∧
      Describes geo.heads (tracks geo anc) l' (gaps FIRST_USABLE_TRK (nextStart (tracks geo anc) ss) (rs ++ [r])) ∧
      l'.f4 = if g > 0 then freespace_f4 anc.formatted_cylinders geo.heads l.f4 else l.f4 := by
  have htr := D.tracks_le
  obtain ⟨h₁, h₂, h₃⟩ := sorted_append.1 hs
  obtain ⟨h₄, h₅, h₆⟩ := sorted_cons.1 h₂
  have hr := hw r (by simp)
  have hb : ∀ s ∈ rs, s.2 ≤ r.1 := fun s hs => h₃ s hs r (by simp)
  have hnext : r.2 ≤ nextStart (tracks geo anc) ss := le_nextStart hr.2 h₅
  have hnl : nextStart (tracks geo anc) ss ≤ tracks geo anc := by
    cases ss with
    | nil => exact le_refl _
    | cons s ss =>
      have h₇ := (hw s (by simp)).2
      have h₈ := h₆.nonempty s (by simp)
      simp only [nextStart]
      omega
  have hext := gaps_extend hs hw
  have hcan : Canonical (gaps FIRST_USABLE_TRK (nextStart (tracks geo anc) ss) (rs ++ [r])) := by
    refine gaps_canonical ?_ fun s hs' => (hw s (by
      simp only [List.mem_append, List.mem_cons, List.not_mem_nil, or_false] at hs' ⊢
      tauto)).1
    rw [← List.singleton_append, ← List.append_assoc] at hs
    exact (sorted_append.1 hs).1
  by_cases hz : g > 0
  · obtain ⟨l', gs, hl, hc, hd', hf4, hcov⟩ := freespace_gap D r.2 (nextStart (tracks geo anc) ss)
      (by simp only [FIRST_USABLE_TRK] at hr; omega) hd h₁ (fun s hs' => ⟨(hw s (by simp [hs'])).1, hb s hs'⟩) h₄.le
      (by omega) hnl hlen
    have hu₁ : u32 (r.2 : Int) = r.2 := by unfold tracks at hr; unfold u32; omega
    have hu₂ : u32 ((r.2 + g - 1 : Nat) : Int) = nextStart (tracks geo anc) ss - 1 := by
      unfold tracks at hnl hnext hg ⊢; unfold u32; omega
    have hgs : gs = gaps FIRST_USABLE_TRK (nextStart (tracks geo anc) ss) (rs ++ [r]) :=
      hc.ext hcan fun t => by rw [hcov, hext]
    refine ⟨l', ?_, hgs ▸ hd', ?_⟩
    · rw [if_pos hz, hu₁, hu₂, freespace, hl]
    · rw [if_pos hz, hf4]
  · -- without a gap the same tracks are free
    have hgs : gaps FIRST_USABLE_TRK r.1 rs = gaps FIRST_USABLE_TRK (nextStart (tracks geo anc) ss)
      (rs ++ [r]) := by
      refine (gaps_canonical h₁ fun s hs' => (hw s (by simp [hs'])).1).ext hcan fun t => ?_
      rw [hext]
      constructor
      · exact Or.inl
      · rintro (hc | ⟨h₇, h₈⟩)
        · exact hc
        · simp only at h₇ h₈
          omega
    refine ⟨l, ?_, hgs ▸ hd, ?_⟩
    · rw [if_neg hz]
    · rw [if_neg hz]

omit h in
theorem gap_first {l : FreeLabels} {rs : List (Nat × Nat)} {g : Nat}
    (hw : ∀ s ∈ rs, FIRST_USABLE_TRK ≤ s.1 ∧ s.1 ≤ tracks geo anc)
    (hd : Describes geo.heads (tracks geo anc) l []) (hg : g = nextStart (tracks geo anc) rs - FIRST_USABLE_TRK) :
    ∃ l', (if g > 0 then freespace l '+' FIRST_USABLE_TRK (u32 (FIRST_USABLE_TRK + g - 1 : Nat))
      anc.formatted_cylinders
        geo.heads else .ok l) = .ok l' ∧
      Describes geo.heads (tracks geo anc) l' (gaps FIRST_USABLE_TRK (nextStart (tracks geo anc) rs) []) ∧
      l'.f4 = if g > 0 then freespace_f4 anc.formatted_cylinders geo.heads l.f4 else l.f4 := by
  have h3 := D.three_le
  have htr := D.tracks_le
  have hn : FIRST_USABLE_TRK ≤ nextStart (tracks geo anc) rs := by
    cases rs with
    | nil => show 2 ≤ tracks geo anc; unfold tracks; omega
    | cons r rs => exact (hw r (by simp)).1
  have hnl : nextStart (tracks geo anc) rs ≤ tracks geo anc := by
    cases rs with
    | nil => exact le_refl _
    | cons r rs => exact (hw r (by simp)).2
  have hempty : gaps FIRST_USABLE_TRK FIRST_USABLE_TRK ([] : List (Nat × Nat)) = [] := by simp [gaps]
  rw [← hempty] at hd
  by_cases hz : g > 0
  · obtain ⟨l', gs, hl, hc, hd', hf4, hcov⟩ := freespace_gap D FIRST_USABLE_TRK (nextStart (tracks geo anc) rs)
      (by decide) hd sorted_nil (by simp) (le_refl _) (by omega) hnl (by simp)
    have hu : u32 ((FIRST_USABLE_TRK + g - 1 : Nat) : Int) = nextStart (tracks geo anc) rs - 1 := by
      unfold tracks at hnl hg hn ⊢; unfold u32; omega
    have hgs : gs = gaps FIRST_USABLE_TRK (nextStart (tracks geo anc) rs) [] := by
      refine hc.ext (gaps_canonical sorted_nil (by simp)) fun t => ?_
      rw [hcov, Ranges.covers_gaps sorted_nil (by simp) (by simp),
        Ranges.covers_gaps sorted_nil (by simp) (by simp)]
      simp only [covers_nil, not_false_eq_true, and_true, In]
      omega
    refine ⟨l', ?_, hgs ▸ hd', ?_⟩
    · rw [if_pos hz, hu, freespace, hl]
    · rw [if_pos hz, hf4]
  · have he : nextStart (tracks geo anc) rs = FIRST_USABLE_TRK := by omega
    refine ⟨l, ?_, he ▸ hd, ?_⟩
    · rw [if_neg hz]
    · rw [if_neg hz]

theorem Table.reuse_step {us₁ us₂ : List Node} {n : Node} (hus : us = us₁ ++ n :: us₂) {l : FreeLabels}
    (hd : Describes geo.heads (tracks geo anc) l
      (gaps FIRST_USABLE_TRK (anc.info n).start_trk (us₁.map fun n => (anc.info n).rng))) :
    ∃ l', reusePartition geo today (relabelled anc today us₁, l) n = .ok (relabelled anc today (us₁ ++ [n]), l') ∧
      Describes geo.heads (tracks geo anc) l'
        (gaps FIRST_USABLE_TRK (nextStart (tracks geo anc) (us₂.map fun n => (anc.info n).rng))
          ((us₁ ++ [n]).map fun n => (anc.info n).rng)) := by
  subst hus
  have hnd := (List.nodup_append.mp h.nodup).1
  have hn₁ : n ∉ us₁ := fun hn => (List.nodup_append.mp hnd).2.2 n hn n (by simp) rfl
  have hinfo : (relabelled anc today us₁).info n = anc.info n := by simp only [relabelled, if_neg hn₁]
  have hre : (relabelled anc today us₁).upd n
      (fun p => { p with f1 := reuseLabel (relabelled anc today us₁) today p.f1 }) =
        relabelled anc today (us₁ ++ [n]) := by
    simp only [relabelled, FdasdAnchor.upd]
    congr 1
    funext m
    rw [Function.update_apply]
    by_cases hm : m = n
    · subst hm
      simp only [if_true, List.mem_append, List.mem_singleton, or_true, if_neg hn₁]
      rfl
    · simp [hm]
  have hsort : Sorted (us₁.map (fun n => (anc.info n).rng) ++ (anc.info n).rng :: us₂.map fun n =>
    (anc.info n).rng) := by
    have := h.sorted; rwa [List.map_append, List.map_cons] at this
  have hw : ∀ r ∈ us₁.map (fun n => (anc.info n).rng) ++ (anc.info n).rng :: us₂.map (fun n => (anc.info n).rng),
      FIRST_USABLE_TRK ≤ r.1 ∧ r.2 ≤ tracks geo anc := fun r hr =>
    h.sorted_within (by rw [List.map_append, List.map_cons]; exact hr)
  have h' : Table geo anc ((us₁ ++ [n]) ++ us₂) fs := by simpa using h
  have hgap := h'.gapBehind_eq
  simp only [gapBehind, gapStart, List.getLast?_concat] at hgap
  have hlen := h.all
  simp only [List.length_append, List.length_cons, USABLE_PARTITIONS, DASD_PARTN_BITS, Nat.reduceShiftLeft,
    Nat.reduceSub] at hlen
  obtain ⟨l', hl, hd', -⟩ := gap_behind D hsort hw hd (by simp; omega) hgap
  rw [List.map_append, List.map_cons, List.map_nil]
  refine ⟨l', ?_, hd'⟩
  have harg : (anc.info n).rng.2 + (anc.info n).fspace_trk - 1 =
    (anc.info n).end_trk + (anc.info n).fspace_trk := by
    simp only [PartitionInfo.rng]; omega
  rw [harg] at hl
  unfold reusePartition
  simp only [hinfo, (h.used n (by simp)).used, ne_eq, not_true_eq_false, if_false, hre]
  by_cases hz : (anc.info n).fspace_trk > 0
  · rw [if_pos hz] at hl ⊢
    rw [show (relabelled anc today (us₁ ++ [n])).formatted_cylinders = anc.formatted_cylinders from rfl]
    rw [show (anc.info n).rng.2 = (anc.info n).end_trk + 1 from rfl] at hl
    rw [hl]
  · rw [if_neg hz] at hl ⊢
    rw [Except.ok.inj hl]

theorem Table.reuse_fold : ∀ (us₂ us₁ : List Node) {l : FreeLabels}, us = us₁ ++ us₂ →
    Describes geo.heads (tracks geo anc) l (gaps FIRST_USABLE_TRK
      (nextStart (tracks geo anc) (us₂.map fun n => (anc.info n).rng)) (us₁.map fun n => (anc.info n).rng)) →
    ∃ l', us₂.foldlM (reusePartition geo today) (relabelled anc today us₁, l) = .ok (relabelled anc today us, l') ∧
      Describes geo.heads (tracks geo anc) l'
        (gaps FIRST_USABLE_TRK (tracks geo anc) (us.map fun n => (anc.info n).rng))
  | [], us₁, l, hus, hd => by
    rw [List.append_nil] at hus
    subst hus
    exact ⟨l, rfl, hd⟩
  | n :: us₂, us₁, l, hus, hd => by
    obtain ⟨l₁, h₁, hd₁⟩ := h.reuse_step D today hus hd
    obtain ⟨l', h', hd'⟩ := Table.reuse_fold us₂ (us₁ ++ [n]) (by rw [hus]; simp) hd₁
    refine ⟨l', ?_, hd'⟩
    rw [List.foldlM_cons, bind_ok h₁, h']

omit D in
theorem Table.reuse_unused (l : FreeLabels) : ∀ {ns : List Node}, (∀ n ∈ ns, n ∈ fs) →
    ns.foldlM (reusePartition geo today) (relabelled anc today us, l) = .ok (relabelled anc today us, l)
  | [], _ => rfl
  | n :: ns, hns => by
    have hn := hns n (List.mem_cons_self ..)
    have hnu : n ∉ us := fun hu => (List.nodup_append.mp h.nodup).2.2 n hu n hn rfl
    have hstep : reusePartition geo today (relabelled anc today us, l) n = .ok (relabelled anc today us, l) := by
      unfold reusePartition
      simp only [relabelled, if_neg hnu, (h.free n hn).used]
      rfl
    rw [List.foldlM_cons, bind_ok hstep]
    exact Table.reuse_unused l fun m hm => hns m (List.mem_cons_of_mem _ hm)

omit D h in
theorem reusePartition_links {s s' : FdasdAnchor × FreeLabels} {n : Node}
    (hr : reusePartition geo today s n = .ok s') :
    s'.1.links = s.1.links := by
  unfold reusePartition at hr
  simp only at hr
  split at hr
  · cases hr; rfl
  · split at hr
    · split at hr
      · cases hr
      · cases hr; rfl
    · cases hr; rfl

theorem Table.reuse_first (f4 : Format4Label) :
    ∃ l, reuseFirst geo anc ⟨f4, vtoc_init_format5_label, vtoc_init_format7_label⟩ = .ok l ∧
      Describes geo.heads (tracks geo anc) l (gaps FIRST_USABLE_TRK
        (nextStart (tracks geo anc) (us.map fun n => (anc.info n).rng)) []) := by
  obtain ⟨l, hl, hd, -⟩ := gap_first D (fun r hr => ⟨(h.sorted_within hr).1, by
    have h₁ := (h.sorted_within hr).2
    have h₂ := h.sorted.nonempty r hr
    omega⟩) (describes_init geo.heads (tracks geo anc) f4) h.head_gap
  exact ⟨l, hl, hd⟩

theorem Table.reuse : ∃ l, fdasd_reuse_vtoc geo today anc = .ok ((relabelled anc today us).withLabels l) ∧
    Table geo ((relabelled anc today us).withLabels l) us fs := by
  obtain ⟨l₀, hl₀, hd₀⟩ := h.reuse_first D
    { initFormat4 geo anc with DS4HPCHR := anc.f4.DS4HPCHR, DS4DSREC := anc.f4.DS4DSREC }
  obtain ⟨l, hfold, hd⟩ := h.reuse_fold D today us [] rfl hd₀
  have hnil : relabelled anc today [] = anc := by simp [relabelled]
  rw [hnil] at hfold
  have hrun : (us ++ fs).foldlM (reusePartition geo today) (anc, l₀) = .ok (relabelled anc today us, l) := by
    rw [List.foldlM_append, bind_ok hfold]
    exact h.reuse_unused today l fun _ hn => hn
  have hb : ∀ (s : FdasdAnchor × FreeLabels) n s', s.1.links.next = anc.links.next →
      reusePartition geo today s n = .ok s' → s'.1.links.next = anc.links.next := by
    intro s n s' hs hr
    rw [reusePartition_links today hr, hs]
  have hfor := forNodes_eq hb USABLE_PARTITIONS
    (s := (anc, l₀)) h.list.seg (le_of_eq h.all) rfl
  rw [hrun, ← h.list.first_eq] at hfor
  refine ⟨l, ?_, ?_⟩
  · unfold fdasd_reuse_vtoc
    refine (bind_ok hl₀ _).trans ((bind_ok hfor _).trans ?_)
    rfl
  · have hrng : ∀ n, (((relabelled anc today us).withLabels l).info n).rng = (anc.info n).rng := fun n => by
      simp only [FdasdAnchor.withLabels, relabelled]
      split <;> rfl
    have hfsp : ∀ n, (((relabelled anc today us).withLabels l).info n).fspace_trk =
      (anc.info n).fspace_trk := fun n => by
      simp only [FdasdAnchor.withLabels, relabelled]
      split <;> rfl
    have hm : us.map (fun n => (((relabelled anc today us).withLabels l).info n).rng) =
        us.map fun n => (anc.info n).rng := List.map_congr_left fun n _ => hrng n
    refine ⟨⟨h.list, h.all, fun n hn => ?_, fun n hn => ?_, h.count, fun n hn => ?_, ?_, ?_, ?_⟩, ?_⟩
    · have hu := h.used n hn
      simp only [FdasdAnchor.withLabels, relabelled, if_pos hn]
      refine ⟨hu.used, hu.len, ?_⟩
      simp only [Coherent, reuseLabel_ext]
      exact hu.coherent
    · have hnu : n ∉ us := fun hu => (List.nodup_append.mp h.nodup).2.2 n hu n hn rfl
      simp only [FdasdAnchor.withLabels, relabelled, if_neg hnu]
      exact h.free n hn
    · have hr := hrng n
      simp only [PartitionInfo.rng, Prod.mk.injEq, Nat.add_right_cancel_iff] at hr
      rw [hr.1, hr.2]
      exact h.within n hn
    · rw [hm]; exact h.sorted
    · rw [hm]; exact h.head_gap
    · rw [hm]; simp only [hfsp]; exact h.tail_gaps
    · rw [hm]; exact hd

end

end

end Fdasd
