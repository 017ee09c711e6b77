import S390Tools.Fdasd.Table

/-!
# Removing, reusing and recreating

The commands that give tracks back, and the two that build the labels anew.
-/

namespace Fdasd

open Word Vtoc DList Ranges

/-- The partitions after the node `x` behind the nodes `us` was dequeued. -/
def removedInfo (anc : FdasdAnchor) (us : List Node) (x n : Node) : PartitionInfo :=
  if n = x then clearPartition (anc.info x)
  else if us.getLast? = some n then
    { anc.info n with
      fspace_trk := u64 (gapBehind anc us + ((anc.info x).len_trk + (anc.info x).fspace_trk) : Nat) }
  else anc.info n

def removed (anc : FdasdAnchor) (L : Links Node) (us ws : List Node) (x : Node) (partno : Node → Int) :
    FdasdAnchor :=
  { anc.withList L (us ++ ws ++ [x]) with
    partno := fun i => if partno i ≥ us.length then partno i - 1 else partno i
    info := removedInfo anc us x
    fspace_trk :=
      if us = [] then u64 (anc.fspace_trk + ((anc.info x).len_trk + (anc.info x).fspace_trk) : Nat)
      else anc.fspace_trk
    used_partitions := u32 ((anc.used_partitions : Int) - 1) }

section
variable {geo : HdGeometry} {anc : FdasdAnchor}

theorem nodeAt_eq : ∀ {xs : List Node} {k : Nat} {x : Node} {p : Option Node}, Seg anc.links p xs none →
    xs[k]? = some x → nodeAt anc k xs.head? = .ok x
  | y :: xs, 0, x, p, _, hx => by
    obtain rfl : y = x := by simpa using hx
    rfl
  | y :: xs, k + 1, x, p, hs, hx => by
    obtain ⟨-, hn, hs⟩ := hs
    simp only [List.head?_cons, nodeAt, deref, hn, Option.or_none]
    exact nodeAt_eq hs (by simpa using hx)
  | [], k, x, p, _, hx => by simp at hx

/-- The map of data set numbers in the step of a remove command: entry `dsn` is cleared. -/
def clearedPartno (anc : FdasdAnchor) (dsn : Node) : Node → Int := Function.update anc.partno dsn (-1)

section
variable {us₁ us₂ fs : List Node} {x : Node}

theorem dequeue_removed (hl : IsList anc.links anc.first anc.last (us₁ ++ x :: (us₂ ++ fs)))
    (hne : us₁ ≠ [] ∨ us₂ ++ fs ≠ []) (partno : Node → Int) :
    ∃ L, IsList L (us₁ ++ (us₂ ++ fs) ++ [x]).head? (us₁ ++ (us₂ ++ fs) ++ [x]).getLast? (us₁ ++
      (us₂ ++ fs) ++ [x]) ∧
      fdasd_dequeue_old_partition { anc with partno := partno } x us₁.length =
        .ok { removed anc L us₁ (us₂ ++ fs) x partno with used_partitions := anc.used_partitions } := by
  obtain ⟨L, hL, heq⟩ := @dequeue_eq { anc with partno := partno } us₁ (us₂ ++ fs) x hl hne us₁.length
  have hux : ∀ u, us₁.getLast? = some u → u ≠ x := fun u hu =>
    (List.nodup_append.mp hl.nodup).2.2 u (List.mem_of_getLast? hu) x (by simp)
  refine ⟨L, hL, heq.trans ?_⟩
  have hinfo : (Function.update (fun n => if us₁.getLast? = some n then
      { anc.info n with
        fspace_trk := u64 (gapBehind anc us₁ + ((anc.info x).len_trk + (anc.info x).fspace_trk) : Nat) }
      else anc.info n) x (clearPartition (anc.info x))) = removedInfo anc us₁ x := by
    funext n
    rw [Function.update_apply, removedInfo]
  have hx : us₁.getLast? ≠ some x := fun hu => hux x hu rfl
  have hfsp : (if us₁ = [] then u64 (gapBehind anc us₁ + ((anc.info x).len_trk + (anc.info x).fspace_trk) : Nat)
      else anc.fspace_trk) = if us₁ = [] then
        u64 (anc.fspace_trk + ((anc.info x).len_trk + (anc.info x).fspace_trk) : Nat) else anc.fspace_trk := by
    split
    · rename_i hnil; rw [hnil]; rfl
    · rfl
  simp only [addGap, setGapBehind_eq, FdasdAnchor.withList, mapPos, FdasdAnchor.upd, removed, if_neg hx]
  rw [← hinfo, ← hfsp]
  rfl

variable (h : Table geo anc (us₁ ++ x :: us₂) fs)
include h

theorem Table.ne_x {n : Node} (hn : n ∈ us₁ ++ us₂ ++ fs) : n ≠ x := by
  rintro rfl
  have hnd : (n :: (us₁ ++ us₂ ++ fs)).Nodup := by
    have hp : (us₁ ++ n :: us₂ ++ fs).Perm (n :: (us₁ ++ us₂ ++ fs)) := by
      simp
    exact hp.nodup_iff.mp h.nodup
  exact (List.nodup_cons.mp hnd).1 hn

theorem Table.merged_gap : gapBehind anc us₁ + ((anc.info x).len_trk + (anc.info x).fspace_trk) =
    nextStart (tracks geo anc) (us₂.map fun n => (anc.info n).rng) - gapStart anc us₁ := by
  have h₁ := h.gapBehind_eq
  have h' : Table geo anc ((us₁ ++ [x]) ++ us₂) fs := by simpa using h
  have h₂ := h'.gapBehind_eq
  simp only [gapBehind, gapStart, List.getLast?_concat] at h₂
  have h₃ := (h.used x (by simp)).len
  have h₄ := h.start_le (n := x) (by simp)
  have hs : Sorted (us₁.map (fun n => (anc.info n).rng) ++ (anc.info x).rng :: us₂.map fun n =>
    (anc.info n).rng) := by
    have := h.sorted; rwa [List.map_append, List.map_cons] at this
  have h₅ : gapStart anc us₁ ≤ (anc.info x).start_trk := by
    rcases List.eq_nil_or_concat us₁ with rfl | ⟨us₁, u, rfl⟩
    · exact (h.within x (by simp)).1
    · simp only [gapStart, List.concat_eq_append, List.getLast?_concat]
      exact (sorted_append.1 hs).2.2 (anc.info u).rng (List.mem_map.mpr ⟨u, by simp, rfl⟩)
        (anc.info x).rng (by simp)
  have h₆ : (anc.info x).end_trk + 1 ≤ nextStart (tracks geo anc) (us₂.map fun n => (anc.info n).rng) :=
    le_nextStart (h.within x (by simp)).2 (sorted_cons.1 (sorted_append.1 hs).2.1).2.1
  simp only [List.map_cons, nextStart, PartitionInfo.rng] at h₁ h₂ h₆ ⊢
  omega

theorem Table.next_le : nextStart (tracks geo anc) (us₂.map fun n => (anc.info n).rng) ≤ tracks geo anc := by
  cases us₂ with
  | nil => exact le_refl _
  | cons n us₂ =>
    have h₁ := (h.within n (by simp)).2
    have h₂ := h.start_le (n := n) (by simp)
    simp only [List.map_cons, nextStart, PartitionInfo.rng]
    omega

omit h in
theorem removedInfo_rng {n : Node} (hn : n ≠ x) : (removedInfo anc us₁ x n).rng = (anc.info n).rng := by
  unfold removedInfo
  rw [if_neg hn]
  split <;> rfl

theorem Table.removed_map_rng : (us₁ ++ us₂).map (fun n => (removedInfo anc us₁ x n).rng) =
    us₁.map (fun n => (anc.info n).rng) ++ us₂.map fun n => (anc.info n).rng := by
  rw [← List.map_append]
  exact List.map_congr_left fun n hn => removedInfo_rng (h.ne_x (by simp only [List.mem_append] at hn ⊢; tauto))

theorem Table.removed_map_fspace (D : Disk geo anc.formatted_cylinders) :
    (us₁ ++ us₂).map (fun n => (removedInfo anc us₁ x n).fspace_trk) =
      afters (tracks geo anc) (us₁.map (fun n => (anc.info n).rng) ++ us₂.map fun n => (anc.info n).rng) := by
  have hmg := h.merged_gap
  have hnl := h.next_le
  have htr := D.tracks_le
  have hnd := (List.nodup_append.mp h.nodup).1
  have hgaps := h.tail_gaps
  have hfs : ∀ ns : List Node, (∀ n ∈ ns, n ≠ x ∧ us₁.getLast? ≠ some n) →
      ns.map (fun n => (removedInfo anc us₁ x n).fspace_trk) = ns.map fun n => (anc.info n).fspace_trk :=
    fun ns hns => List.map_congr_left fun n hn => by
      simp only [removedInfo, if_neg (hns n hn).1, if_neg (hns n hn).2]
  have hu₂ : ∀ n ∈ us₂, n ≠ x ∧ us₁.getLast? ≠ some n := fun n hn =>
    ⟨h.ne_x (by simp [hn]), fun hl =>
      (List.nodup_append.mp hnd).2.2 n (List.mem_of_getLast? hl) n (List.mem_cons_of_mem _ hn) rfl⟩
  rcases List.eq_nil_or_concat us₁ with rfl | ⟨us₁, u, rfl⟩
  · simp only [List.nil_append, List.map_cons, List.map_nil, afters, List.cons.injEq] at hgaps ⊢
    rw [hfs us₂ hu₂, hgaps.2]
  · rw [List.concat_eq_append] at *
    have hu₁ : ∀ n ∈ us₁, n ≠ x ∧ (us₁ ++ [u]).getLast? ≠ some n := by
      intro n hn
      refine ⟨h.ne_x (by simp [hn]), fun hl => ?_⟩
      obtain rfl : u = n := by simpa using hl
      exact (List.nodup_append.mp (List.nodup_append.mp hnd).1).2.2 u hn u (by simp) rfl
    have hfu : (removedInfo anc (us₁ ++ [u]) x u).fspace_trk =
        nextStart (tracks geo anc) (us₂.map fun n => (anc.info n).rng) - ((anc.info u).end_trk + 1) := by
      simp only [removedInfo, if_neg (h.ne_x (n := u) (by simp)), List.getLast?_concat, if_true, hmg]
      simp only [gapStart, List.getLast?_concat]
      unfold tracks at hnl ⊢
      unfold u64; omega
    simp only [List.map_append, afters_append, List.map_cons, List.append_assoc, List.singleton_append,
      List.map_nil, afters, nextStart] at hgaps ⊢
    obtain ⟨e₁, e₂⟩ := List.append_inj hgaps (by simp [afters_length])
    simp only [List.cons.injEq] at e₂
    rw [hfs us₁ hu₁, hfs us₂ hu₂, hfu, e₁, e₂.2.2]
    rfl

theorem Table.unused_add {n : Node} (hn : n ∈ fs ++ [x]) : (removedInfo anc us₁ x n).Free := by
  unfold removedInfo
  by_cases hnx : n = x
  · rw [if_pos hnx]; exact ⟨rfl, rfl, rfl, rfl, rfl⟩
  · have hnf : n ∈ fs := by simpa [hnx] using hn
    have hne : us₁.getLast? ≠ some n := fun hu =>
      (List.nodup_append.mp h.nodup).2.2 n (by simp [List.mem_of_getLast? hu]) n hnf rfl
    rw [if_neg hnx, if_neg hne]
    exact h.free n hnf

theorem Table.freespace_add (D : Disk geo anc.formatted_cylinders) (f4 : Format4Label) :
    ∃ l, vtoc_set_freespace ⟨f4, anc.f5, anc.f7⟩ '+' (anc.info x).start_trk (anc.info x).end_trk
        anc.formatted_cylinders geo.heads = .ok l ∧
      l.f4 = freespace_f4 anc.formatted_cylinders geo.heads f4 ∧
      Describes geo.heads (tracks geo anc) l (Ranges.gaps FIRST_USABLE_TRK (tracks geo anc)
        (us₁.map (fun n => (anc.info n).rng) ++ us₂.map fun n => (anc.info n).rng)) := by
  have hheads := D.heads_pos
  have hheads' := D.heads_le
  have hw := h.within x (by simp)
  have hle := h.start_le (n := x) (by simp)
  have hsort : Sorted (us₁.map (fun n => (anc.info n).rng) ++ (anc.info x).rng :: us₂.map fun n =>
    (anc.info n).rng) := by
    have := h.sorted; rwa [List.map_append, List.map_cons] at this
  have hd : ∀ g ∈ Ranges.gaps FIRST_USABLE_TRK (tracks geo anc) ((us₁ ++ x :: us₂).map fun n => (anc.info n).rng),
      Disj g ((anc.info x).start_trk, (anc.info x).end_trk + 1) := by
    intro g hg
    refine disj_of_not_in (h.canonical_gaps.nonempty g hg) (by simp only; omega) fun t ht htx => ?_
    refine ((h.covers_gaps t).mp ⟨g, hg, ht⟩).2 ⟨(anc.info x).rng, ?_, htx⟩
    exact List.mem_map.mpr ⟨x, by simp, rfl⟩
  obtain ⟨l, gs', hl, hc', hd', hf4, hcov⟩ := set_freespace_add geo.heads anc.formatted_cylinders
    (by omega) (by omega) D.tracks_le (l := ⟨f4, anc.f5, anc.f7⟩) (describes_congr h.labels rfl rfl)
    h.canonical_gaps h.gaps_length (anc.info x).start_trk (anc.info x).end_trk
      (by simp only [FIRST_USABLE_TRK] at hw; omega) hle hw.2 hd
  have hgs : gs' = _ := gaps_eq (T := tracks geo anc) hsort.erase ?_ hc' ?_
  · exact ⟨l, hl, hf4, hgs ▸ hd'⟩
  · intro r hr
    refine h.sorted_within ?_
    rw [List.map_append, List.map_cons]
    rcases List.mem_append.mp hr with hr | hr
    · exact List.mem_append_left _ hr
    · exact List.mem_append_right _ (List.mem_cons_of_mem _ hr)
  · intro t
    have hnot : In t (anc.info x).rng → ¬ Covers (us₁.map (fun n => (anc.info n).rng) ++
        us₂.map fun n => (anc.info n).rng) t := by
      rintro htx ⟨s, hs, hts⟩
      exact (hsort.disj hs).not_in htx hts
    have hin : In t (anc.info x).rng → FIRST_USABLE_TRK ≤ t ∧ t < tracks geo anc := by
      simp only [In, PartitionInfo.rng]; omega
    rw [hcov, h.covers_gaps, List.map_append, List.map_cons]
    rw [covers_append] at hnot ⊢
    rw [covers_append, covers_cons]
    rw [show In t ((anc.info x).start_trk, (anc.info x).end_trk + 1) = In t (anc.info x).rng from rfl]
    tauto

theorem Table.remove (D : Disk geo anc.formatted_cylinders) :
    ∃ L l dsn, dsn.val = us₁.length ∧
      fdasd_remove_partition geo anc (us₁.length + 1) =
        .ok ((removed anc L us₁ (us₂ ++ fs) x (clearedPartno anc dsn)).withLabels l) ∧
      Table geo ((removed anc L us₁ (us₂ ++ fs) x (clearedPartno anc dsn)).withLabels l) (us₁ ++ us₂) (fs ++ [x]) ∧
      l.f4 = freespace_f4 anc.formatted_cylinders geo.heads
        (removedFormat4 (removed anc L us₁ (us₂ ++ fs) x (clearedPartno anc dsn))) := by
  have hall := h.all
  have hcount := h.count
  simp only [List.length_append, List.length_cons, USABLE_PARTITIONS, DASD_PARTN_BITS, Nat.reduceShiftLeft,
    Nat.reduceSub] at hall hcount
  have hdsn : us₁.length < USABLE_PARTITIONS := by
    simp only [USABLE_PARTITIONS, DASD_PARTN_BITS, Nat.reduceShiftLeft, Nat.reduceSub]; omega
  have hlist : IsList anc.links anc.first anc.last (us₁ ++ x :: (us₂ ++ fs)) := by
    simpa [List.append_assoc] using h.list
  obtain ⟨L, hL, heq⟩ := dequeue_removed hlist (by
      by_contra hn
      simp only [not_or, not_not, List.append_eq_nil_iff] at hn
      rw [hn.1, hn.2.1, hn.2.2] at hall
      simp at hall) (clearedPartno anc ⟨us₁.length, hdsn⟩)
  obtain ⟨l, hl, hf4, hd⟩ := h.freespace_add D (removedFormat4 (removed anc L us₁ (us₂ ++ fs) x
    (clearedPartno anc ⟨us₁.length, hdsn⟩)))
  have hcoh := (h.used x (by simp)).coherent
  have hnode : nodeAt (setpos anc ⟨us₁.length, hdsn⟩ (-1)) us₁.length
      (setpos anc ⟨us₁.length, hdsn⟩ (-1)).first = .ok x := by
    rw [show (setpos anc ⟨us₁.length, hdsn⟩ (-1)).first = anc.first from rfl, hlist.first_eq]
    exact nodeAt_eq hlist.seg (by simp)
  refine ⟨L, l, ⟨us₁.length, hdsn⟩, rfl, ?_, ?_, hf4⟩
  · unfold fdasd_remove_partition
    rw [if_neg (by omega), dif_pos (show us₁.length + 1 - 1 < USABLE_PARTITIONS by simpa using hdsn)]
    simp only [Nat.add_sub_cancel]
    rw [bind_ok hnode]
    rw [bind_ok (show fdasd_dequeue_old_partition (setpos anc ⟨us₁.length, hdsn⟩ (-1)) x us₁.length = _ from heq)]
    show updateLabels geo (removed anc L us₁ (us₂ ++ fs) x (clearedPartno anc ⟨us₁.length, hdsn⟩))
      (removedFormat4 (removed anc L us₁ (us₂ ++ fs) x (clearedPartno anc ⟨us₁.length, hdsn⟩))) '+'
      (cchh2trk (anc.info x).f1.DS1EXT1.llimit geo) (cchh2trk (anc.info x).f1.DS1EXT1.ulimit geo) = _
    rw [hcoh.1, hcoh.2]
    unfold updateLabels Fdasd.freespace
    rw [show (removed anc L us₁ (us₂ ++ fs) x (clearedPartno anc ⟨us₁.length, hdsn⟩)).f5 = anc.f5 from rfl,
      show (removed anc L us₁ (us₂ ++ fs) x (clearedPartno anc ⟨us₁.length, hdsn⟩)).f7 = anc.f7 from rfl,
      show (removed anc L us₁ (us₂ ++ fs) x (clearedPartno anc ⟨us₁.length, hdsn⟩)).formatted_cylinders =
        anc.formatted_cylinders from rfl, hl]
  · have hm : (us₁ ++ us₂).map (fun n => (((removed anc L us₁ (us₂ ++ fs) x
        (clearedPartno anc ⟨us₁.length, hdsn⟩)).withLabels l).info n).rng) = _ := h.removed_map_rng
    have hsort : Sorted (us₁.map (fun n => (anc.info n).rng) ++ us₂.map fun n => (anc.info n).rng) := by
      have := h.sorted
      rw [List.map_append, List.map_cons] at this
      exact this.erase
    refine ⟨⟨?_, ?_, fun n hn => ?_, fun n hn => h.unused_add hn, ?_, fun n hn => ?_, ?_, ?_, ?_⟩, ?_⟩
    · have : us₁ ++ us₂ ++ (fs ++ [x]) = us₁ ++ (us₂ ++ fs) ++ [x] := by simp
      rw [this]; exact hL
    · simp only [List.length_append, List.length_cons, List.length_nil, USABLE_PARTITIONS, DASD_PARTN_BITS,
        Nat.reduceShiftLeft, Nat.reduceSub]
      omega
    · have hnx : n ≠ x := h.ne_x (by simp only [List.mem_append] at hn ⊢; tauto)
      have hu := h.used n (by simp only [List.mem_append, List.mem_cons] at hn ⊢; tauto)
      show (removedInfo anc us₁ x n).Used geo
      unfold removedInfo
      rw [if_neg hnx]
      split
      · exact ⟨hu.used, hu.len, hu.coherent⟩
      · exact hu
    · show u32 ((anc.used_partitions : Int) - 1) = _
      simp only [List.length_append]
      unfold u32; omega
    · have hnx : n ≠ x := h.ne_x (by simp only [List.mem_append] at hn ⊢; tauto)
      show FIRST_USABLE_TRK ≤ (removedInfo anc us₁ x n).rng.1 ∧ (removedInfo anc us₁ x n).rng.2 ≤ tracks geo anc
      rw [removedInfo_rng hnx]
      exact h.within n (by simp only [List.mem_append, List.mem_cons] at hn ⊢; tauto)
    · exact hm ▸ hsort
    · have hmg := h.merged_gap
      have hnl := h.next_le
      have htr := D.tracks_le
      have hhg := h.head_gap
      rw [hm]
      show (if us₁ = [] then u64 (anc.fspace_trk + ((anc.info x).len_trk + (anc.info x).fspace_trk) : Nat)
        else anc.fspace_trk) = nextStart (tracks geo anc) _ - _
      cases us₁ with
      | nil =>
        simp only [gapBehind, gapStart, List.getLast?_nil] at hmg
        rw [if_pos rfl, hmg]
        simp only [List.map_nil, List.nil_append]
        unfold tracks at hnl ⊢
        unfold u64; omega
      | cons u us₁ => exact hhg
    · exact (h.removed_map_fspace D).trans (by rw [← hm]; rfl)
    · exact hm ▸ hd

end

end

end Fdasd
