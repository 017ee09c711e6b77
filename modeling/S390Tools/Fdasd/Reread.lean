import S390Tools.Fdasd.Numbers

/-!
# What reading yields

The labels are spread over the nodes of the list in the order they have on the
disk. Sorting leaves them where they are if format 8 labels precede format 1
labels.
-/

namespace Fdasd

open Word Vtoc CString DList

/-! ## Labels in the order on the disk -/

def datasets : List Dscb → List Format1Label
  | [] => []
  | .dataset f1 :: ds => if isDataset f1 then f1 :: datasets ds else datasets ds
  | _ :: ds => datasets ds

def labelNumber (f1 : Format1Label) : Int := partNumber (vtoc_ebcdic_dec f1.DS1DSNAM ++ behindName f1)

/-- `partno` after the numbers of the labels from position `j` on. -/
def setNumbers (partno : Node → Int) : List Int → Nat → Node → Int
  | [], _ => partno
  | no :: nos, j =>
    setNumbers
      (if h : 0 ≤ no ∧ no < USABLE_PARTITIONS then
        Function.update partno ⟨no.toNat, toNat_lt_usable h⟩ j
      else partno) nos (j + 1)

theorem setNumber_partno (anc : FdasdAnchor) (no : Int) (pos : Nat) :
    setNumber anc no pos = { anc with
      partno :=
        if h : 0 ≤ no ∧ no < USABLE_PARTITIONS then
          Function.update anc.partno ⟨no.toNat, toNat_lt_usable h⟩ pos
        else anc.partno } := by
  unfold setNumber
  split <;> rfl

/-- What reading the labels `ls` into the nodes `zs` does. -/
structure ReadRun (s s' : ReadState) (zs : List Node) (ls : List Format1Label) : Prop where
  frame : s'.anc = { s.anc with partno := s'.anc.partno, info := s'.anc.info, f5 := s'.anc.f5, f7 := s'.anc.f7 }
  partno : s'.anc.partno = setNumbers s.anc.partno (ls.map labelNumber) s.f1_counter
  read : ∀ (j : Nat) n l, zs[j]? = some n → ls[j]? = some l → s'.anc.info n = { s.anc.info n with f1 := recode l }
  others : ∀ n, n ∉ zs.take ls.length → s'.anc.info n = s.anc.info n

theorem ReadRun.skip {s s₁ s' : ReadState} {zs : List Node} {ls : List Format1Label} (h : ReadRun s₁ s' zs ls)
    (hf : s₁.anc = { s.anc with f5 := s₁.anc.f5, f7 := s₁.anc.f7 }) (hc : s₁.f1_counter = s.f1_counter) :
    ReadRun s s' zs ls := by
  have hp : s₁.anc.partno = s.anc.partno := by rw [hf]
  have hi : s₁.anc.info = s.anc.info := by rw [hf]
  refine ⟨?_, ?_, ?_, ?_⟩
  · exact h.frame.trans (congrArg (fun x : FdasdAnchor => { x with
      partno := s'.anc.partno, info := s'.anc.info, f5 := s'.anc.f5, f7 := s'.anc.f7 }) hf)
  · rw [h.partno, hp, hc]
  · rw [← hi]; exact h.read
  · rw [← hi]; exact h.others

theorem readDataset_run {s s' : ReadState} {z : Node} {zs : List Node} {l : Format1Label} {ls : List Format1Label}
    (hp : s.part_info = some z) (hz : z ∉ zs) (h : ReadRun (readDataset s l) s' zs ls) :
    ReadRun s s' (z :: zs) (l :: ls) := by
  have hread : (readDataset s l).anc = setNumber (s.anc.upd z fun p => { p with f1 := recode l }) (labelNumber l)
      s.f1_counter := by
    rw [readDataset, hp]; rfl
  have hc : (readDataset s l).f1_counter = s.f1_counter + 1 := by rw [readDataset, hp]
  rw [setNumber_partno] at hread
  have hinfo : ∀ n, (readDataset s l).anc.info n =
      if n = z then { s.anc.info z with f1 := recode l } else s.anc.info n := fun n => by
    rw [hread]
    show (s.anc.upd z fun p => { p with f1 := recode l }).info n = _
    rw [upd_info]
  have hz' : z ∉ zs.take ls.length := fun hm => hz (List.mem_of_mem_take hm)
  refine ⟨?_, ?_, ?_, ?_⟩
  · exact h.frame.trans (congrArg (fun x : FdasdAnchor => { x with
      partno := s'.anc.partno, info := s'.anc.info, f5 := s'.anc.f5, f7 := s'.anc.f7 }) hread)
  · rw [h.partno, hread, hc]; rfl
  · intro j n m hj hm
    cases j with
    | zero =>
      obtain rfl : z = n := by simpa using hj
      obtain rfl : l = m := by simpa using hm
      rw [h.others z hz', hinfo, if_pos rfl]
    | succ j =>
      have hj' : zs[j]? = some n := by simpa using hj
      have hnz : n ≠ z := by rintro rfl; exact hz (List.mem_of_getElem? hj')
      rw [h.read j n m hj' (by simpa using hm), hinfo, if_neg hnz]
  · intro n hn
    simp only [List.length_cons, List.take_succ_cons, List.mem_cons, not_or] at hn
    rw [h.others n hn.2, hinfo, if_neg hn.1]

theorem read_run : ∀ (ds : List Dscb) (s : ReadState) {zs : List Node} {p : Option Node},
    Seg s.anc.links p zs none →
    zs.Nodup → s.part_info = zs.head? → (datasets ds).length ≤ zs.length →
    ReadRun s (ds.foldl readLabel s) zs (datasets ds)
  | [], s, zs, p, _, _, _, _ => ⟨rfl, rfl, by simp [datasets], by simp⟩
  | .dataset l :: ds, s, zs, p, hseg, hnd, hp, hlen => by
    rw [List.foldl_cons]
    by_cases hl : isDataset l
    · have hls : datasets (.dataset l :: ds) = l :: datasets ds := by rw [datasets, if_pos hl]
      rw [hls] at hlen ⊢
      obtain ⟨z, zs, rfl⟩ : ∃ z zs', zs = z :: zs' := by
        cases zs with
        | nil => simp at hlen
        | cons z zs => exact ⟨z, zs, rfl⟩
      obtain ⟨hz, hnd⟩ := List.nodup_cons.mp hnd
      have hpz : s.part_info = some z := by rw [hp]; rfl
      have hrl : readLabel s (.dataset l) = readDataset s l := if_pos hl
      have hlk : (readDataset s l).anc.links = s.anc.links := by
        rw [readDataset, hpz]
        simp only [setNumber_partno]
        rfl
      have hpi : (readDataset s l).part_info = zs.head? := by
        rw [readDataset, hpz]
        simp only
        rw [hseg.2.1, Option.or_none]
      rw [hrl]
      refine readDataset_run hpz hz (read_run ds _ (by rw [hlk]; exact hseg.2.2) hnd hpi ?_)
      simpa using hlen
    · have hls : datasets (.dataset l :: ds) = datasets ds := by rw [datasets, if_neg hl]
      have hrl : readLabel s (.dataset l) = s := if_neg hl
      rw [hls] at hlen ⊢
      rw [hrl]
      exact read_run ds s hseg hnd hp hlen
  | .fmt4 f4 :: ds, s, zs, p, hseg, hnd, hp, hlen => read_run ds s hseg hnd hp hlen
  | .fmt9 f9 :: ds, s, zs, p, hseg, hnd, hp, hlen => read_run ds s hseg hnd hp hlen
  | .fmt5 f5 :: ds, s, zs, p, hseg, hnd, hp, hlen => by
    rw [List.foldl_cons]
    have h : ∀ s₁, readLabel s (.fmt5 f5) = s₁ → s₁.anc = { s.anc with f5 := s₁.anc.f5, f7 := s₁.anc.f7 } ∧
        s₁.f1_counter = s.f1_counter ∧ s₁.part_info = s.part_info := by
      rintro s₁ rfl
      unfold readLabel
      simp only
      split <;> exact ⟨rfl, rfl, rfl⟩
    obtain ⟨h₁, h₂, h₃⟩ := h _ rfl
    exact (read_run ds _ (by rw [h₁]; exact hseg) hnd (h₃.trans hp) hlen).skip h₁ h₂
  | .fmt7 f7 :: ds, s, zs, p, hseg, hnd, hp, hlen => by
    rw [List.foldl_cons]
    have h : ∀ s₁, readLabel s (.fmt7 f7) = s₁ → s₁.anc = { s.anc with f5 := s₁.anc.f5, f7 := s₁.anc.f7 } ∧
        s₁.f1_counter = s.f1_counter ∧ s₁.part_info = s.part_info := by
      rintro s₁ rfl
      unfold readLabel
      simp only
      split
      · split <;> exact ⟨rfl, rfl, rfl⟩
      · exact ⟨rfl, rfl, rfl⟩
    obtain ⟨h₁, h₂, h₃⟩ := h _ rfl
    exact (read_run ds _ (by rw [h₁]; exact hseg) hnd (h₃.trans hp) hlen).skip h₁ h₂

/-! ## Sorting -/

@[grind =] def bubble : Nat → List Format1Label → List Format1Label
  | j + 1, a :: b :: l => if a.DS1FMTID < b.DS1FMTID then b :: bubble j (a :: l) else a :: bubble j (b :: l)
  | _, l => l

def sortLabels (ls : List Format1Label) : List Format1Label := bubble 1 (bubble 2 ls)

def Ordered (ls : List Format1Label) : Prop := ls.Pairwise fun a b => b.DS1FMTID ≤ a.DS1FMTID

theorem bubble_perm : ∀ (j : Nat) (ls : List Format1Label), (bubble j ls).Perm ls
  | 0, ls => by cases ls <;> exact List.Perm.refl _
  | j + 1, [] => List.Perm.refl _
  | j + 1, [a] => List.Perm.refl _
  | j + 1, a :: b :: l => by
    rw [bubble]
    split
    · exact ((bubble_perm j (a :: l)).cons b).trans (List.Perm.swap a b l)
    · exact (bubble_perm j (b :: l)).cons a

theorem sortLabels_perm (ls : List Format1Label) : (sortLabels ls).Perm ls :=
  (bubble_perm 1 _).trans (bubble_perm 2 ls)

theorem bubble_ordered : ∀ (j : Nat) {ls : List Format1Label}, Ordered ls → bubble j ls = ls
  | 0, ls, _ => by cases ls <;> rfl
  | j + 1, [], _ => rfl
  | j + 1, [a], _ => rfl
  | j + 1, a :: b :: l, h => by
    obtain ⟨ha, hb⟩ := List.pairwise_cons.mp h
    have hab := ha b (List.mem_cons_self ..)
    rw [bubble, if_neg (by omega), bubble_ordered j hb]

theorem sortLabels_ordered {ls : List Format1Label} (h : Ordered ls) : sortLabels ls = ls := by
  rw [sortLabels, bubble_ordered 2 h, bubble_ordered 1 h]

theorem bubble_append : ∀ (j : Nat) {ls zs : List Format1Label}, (∀ z ∈ zs, z.DS1FMTID = 0) →
    bubble j (ls ++ zs) = bubble j ls ++ zs
  | 0, ls, zs, _ => by cases ls <;> cases zs <;> rfl
  | j + 1, [], zs, hz =>
    bubble_ordered _ (List.pairwise_of_forall_mem_list fun a ha b hb => by rw [hz a ha, hz b hb])
  | j + 1, [a], [], _ => rfl
  | j + 1, [a], z :: zs, hz => by
    have h0 := hz z (List.mem_cons_self ..)
    have hr : Ordered (z :: zs) := List.pairwise_of_forall_mem_list fun a ha b hb => by rw [hz a ha, hz b hb]
    rw [List.cons_append, List.nil_append, bubble, if_neg (by omega), bubble_ordered j hr]
    rfl
  | j + 1, a :: b :: l, zs, hz => by
    rw [List.cons_append, List.cons_append, bubble, bubble, ← List.cons_append, ← List.cons_append,
      bubble_append j hz, bubble_append j hz]
    split <;> rfl

theorem sortLabels_append {ls zs : List Format1Label} (hz : ∀ z ∈ zs, z.DS1FMTID = 0) :
    sortLabels (ls ++ zs) = sortLabels ls ++ zs := by
  rw [sortLabels, bubble_append 2 hz, bubble_append 1 hz]; rfl

section
variable {anc : FdasdAnchor}

def labels (anc : FdasdAnchor) (zs : List Node) : List Format1Label := zs.map fun n => (anc.info n).f1

theorem reorganizePass_eq : ∀ (j : Nat) {anc : FdasdAnchor} {zs : List Node} {p : Option Node},
    Seg anc.links p zs none → zs.Nodup → j < zs.length →
    ∃ anc', reorganizePass j anc zs.head? = .ok anc' ∧ anc' = { anc with info := anc'.info } ∧
      labels anc' zs = bubble j (labels anc zs) ∧ (∀ n, n ∉ zs → anc'.info n = anc.info n) ∧
      ∀ n, { anc'.info n with f1 := (anc.info n).f1 } = anc.info n
  | 0, anc, zs, p, _, _, _ => ⟨anc, rfl, rfl, by cases zs <;> rfl, fun _ _ => rfl, fun _ => rfl⟩
  | j + 1, anc, [z], p, _, _, h => absurd h (by simp)
  | j + 1, anc, z :: y :: zs, p, hseg, hnd, hlen => by
    obtain ⟨hz, hnd'⟩ := List.nodup_cons.mp hnd
    have hy := (List.nodup_cons.mp hnd').1
    have hzy : z ≠ y := by rintro rfl; exact hz (List.mem_cons_self ..)
    have hnext : anc.links.next z = some y := hseg.2.1
    obtain ⟨anc₁, he⟩ : ∃ anc₁, (if (anc.info z).f1.DS1FMTID < (anc.info y).f1.DS1FMTID then
        (anc.upd z fun i => { i with f1 := (anc.info y).f1 }).upd y fun i => { i with f1 := (anc.info z).f1 }
      else anc) = anc₁ := ⟨_, rfl⟩
    have hpass : reorganizePass (j + 1) anc (z :: y :: zs).head? = reorganizePass j anc₁ (y :: zs).head? := by
      simp only [List.head?_cons, reorganizePass, deref, hnext, ← he]
    have hinfo : ∀ n, anc₁.info n = { anc.info n with f1 :=
        if (anc.info z).f1.DS1FMTID < (anc.info y).f1.DS1FMTID then
          if n = y then (anc.info z).f1 else if n = z then (anc.info y).f1 else (anc.info n).f1
        else (anc.info n).f1 } := by
      intro n
      rw [← he]
      by_cases hlt : (anc.info z).f1.DS1FMTID < (anc.info y).f1.DS1FMTID
      · rw [if_pos hlt, if_pos hlt]
        simp only [upd_info]
        by_cases hny : n = y
        · subst hny
          simp [Ne.symm hzy]
        · by_cases hnz : n = z
          · subst hnz; simp [hny]
          · simp [hny, hnz]
      · rw [if_neg hlt, if_neg hlt]
    have hframe : anc₁ = { anc with info := anc₁.info } := by
      rw [← he]
      split <;> rfl
    have hlk : anc₁.links = anc.links := by rw [hframe]
    obtain ⟨anc', h₁, h₂, h₃, h₄, h₅⟩ := reorganizePass_eq j
      (show Seg anc₁.links (some z) (y :: zs) none by rw [hlk]; exact hseg.2.2)
      hnd' (by simpa using hlen)
    have hother : ∀ n, n ∉ z :: y :: zs → anc₁.info n = anc.info n := by
      intro n hn
      simp only [List.mem_cons, not_or] at hn
      rw [hinfo]
      simp only [hn.1, hn.2.1, if_false, ite_self]
    have hzs : labels anc₁ zs = labels anc zs := by
      refine List.map_congr_left fun n hn => ?_
      have hny : n ≠ y := by rintro rfl; exact hy hn
      have hnz : n ≠ z := by rintro rfl; exact hz (List.mem_cons_of_mem _ hn)
      rw [hinfo]
      simp only [hny, hnz, if_false, ite_self]
    refine ⟨anc', hpass.trans h₁, ?_, ?_, ?_, ?_⟩
    · exact h₂.trans (congrArg (fun x : FdasdAnchor => { x with info := anc'.info }) hframe)
    · have hz' : (anc'.info z).f1 = (anc₁.info z).f1 := by rw [h₄ z hz]
      have hcons : labels anc' (z :: y :: zs) =
        (anc₁.info z).f1 :: bubble j ((anc₁.info y).f1 :: labels anc zs) := by
        rw [← hzs]
        have := h₃
        simp only [labels, List.map_cons] at this ⊢
        rw [hz', this]
      rw [hcons, hinfo z, hinfo y]
      simp only [labels, List.map_cons, bubble, if_true, if_neg hzy]
      split <;> rfl
    · intro n hn
      rw [h₄ n fun hm => hn (List.mem_cons_of_mem _ hm), hother n hn]
    · intro n
      have := h₅ n
      rw [hinfo n] at this
      have hc := congrArg (fun i : PartitionInfo => { i with f1 := (anc.info n).f1 }) this
      exact hc

theorem reorganize_eq {xs : List Node} (h : IsList anc.links anc.first anc.last xs)
    (hlen : xs.length = USABLE_PARTITIONS) :
    ∃ anc', fdasd_reorganize_FMT1s anc = .ok anc' ∧ anc' = { anc with info := anc'.info } ∧
      labels anc' xs = sortLabels (labels anc xs) ∧
      ∀ n, { anc'.info n with f1 := (anc.info n).f1 } = anc.info n := by
  obtain ⟨a₁, h₁, hf₁, hl₁, -, hi₁⟩ := reorganizePass_eq 2 h.seg h.nodup (by rw [hlen]; decide)
  have hlk : a₁.links = anc.links := by rw [hf₁]
  have hfst : a₁.first = anc.first := by rw [hf₁]
  obtain ⟨a₂, h₂, hf₂, hl₂, -, hi₂⟩ := reorganizePass_eq 1
    (show Seg a₁.links none xs none by rw [hlk]; exact h.seg) h.nodup
    (by rw [hlen]; decide)
  refine ⟨a₂, ?_, ?_, ?_, fun n => ?_⟩
  · unfold fdasd_reorganize_FMT1s
    have hr : List.range' 1 (USABLE_PARTITIONS - 1) = [1, 2] := rfl
    rw [hr, List.foldlM_cons, h.first_eq,
      bind_ok (show reorganizePass (USABLE_PARTITIONS - 1) anc xs.head? = .ok a₁ from h₁),
      List.foldlM_cons, hfst, h.first_eq,
      bind_ok (show reorganizePass (USABLE_PARTITIONS - 2) a₁ xs.head? = .ok a₂ from h₂)]
    rfl
  · exact hf₂.trans (congrArg (fun x : FdasdAnchor => { x with info := a₂.info }) hf₁)
  · rw [hl₂, hl₁]; rfl
  · have h := hi₂ n
    have hc := congrArg (fun i : PartitionInfo => { i with f1 := (anc.info n).f1 }) h
    exact hc.trans (hi₁ n)

end

/-! ## Partitions -/

def nextTrack (geo : HdGeometry) (max : Nat) : List Format1Label → Nat
  | [] => max + 1
  | l :: _ => cchh2trk l.DS1EXT1.llimit geo

def partitionWith (geo : HdGeometry) (max : Nat) (p : PartitionInfo) (rest : List Format1Label) : PartitionInfo :=
  { partitionOf geo p with
    fspace_trk := u64 ((nextTrack geo max rest : Int) - cchh2trk p.f1.DS1EXT1.ulimit geo - 1) }

/-- What the loop of `fdasd_update_partition_info` does to the nodes `us` with data set labels. -/
structure UpdateRun (geo : HdGeometry) (max : Nat) (anc anc' : FdasdAnchor) (prev : Option Node) (us : List Node) :
    Prop where
  frame : anc' = { anc with fspace_trk := anc'.fspace_trk, info := anc'.info }
  others : ∀ n, n ∉ us → prev ≠ some n → anc'.info n = anc.info n
  first : prev = none → anc'.fspace_trk = u64 ((nextTrack geo max (labels anc us) : Int) - FIRST_USABLE_TRK)
  prev : ∀ q, prev = some q → anc'.fspace_trk = anc.fspace_trk ∧ anc'.info q = { anc.info q with
    fspace_trk := u64 ((nextTrack geo max (labels anc us) : Int) - (anc.info q).end_trk - 1) }
  updated : ∀ us₁ n us₂, us = us₁ ++ n :: us₂ → anc'.info n = partitionWith geo max (anc.info n) (labels anc us₂)

section
variable {geo : HdGeometry} {max : Nat} {anc : FdasdAnchor} {prev : Option Node} {z : Node}

variable (geo max anc) in
theorem updatePartition_info (hz : prev ≠ some z) (n : Node) :
    (updatePartition geo max false anc prev z).info n =
      if prev = some n then { anc.info n with
        fspace_trk := u64 ((cchh2trk (anc.info z).f1.DS1EXT1.llimit geo : Int) - (anc.info n).end_trk - 1) }
      else if n = z then partitionOf geo (anc.info z) else anc.info n := by
  cases prev with
  | none =>
    rw [if_neg (by simp)]
    exact upd_info ..
  | some q =>
    have hqz : q ≠ z := by rintro rfl; exact hz rfl
    simp only [updatePartition, FdasdAnchor.setGap, upd_info, if_true, if_neg hqz, Bool.false_eq_true, if_false,
      Option.some.injEq]
    by_cases hn : n = q
    · rw [if_pos hn, if_pos hn.symm, hn]; rfl
    · rw [if_neg hn, if_neg (Ne.symm hn)]

theorem updatePartition_last {q : Node} (hz : q ≠ z) : updatePartition geo max true anc (some q) z =
    (updatePartition geo max false anc (some q) z).setGap z
      (u64 ((max : Int) - cchh2trk (anc.info z).f1.DS1EXT1.ulimit geo)) := by
  simp only [updatePartition, FdasdAnchor.setGap, if_true, Bool.false_eq_true, if_false, upd_info, if_neg hz]
  simp only [FdasdAnchor.upd]
  congr 1
  funext n
  simp only [Function.update_apply, if_neg hz.symm, if_neg hz, if_true]
  by_cases hnq : n = q
  · rw [if_pos hnq, hnq, if_neg hz, if_pos rfl]
  · by_cases hnz : n = z
    · rw [if_neg hnq, if_pos hnz, if_pos hnz]; rfl
    · rw [if_neg hnq, if_neg hnz, if_neg hnz, if_neg hnz, if_neg hnq]

theorem updatePartition_run {anc' : FdasdAnchor} {us : List Node} (hz : z ∉ us)
    (hprev : ∀ q, prev = some q → q ≠ z ∧ q ∉ us)
    (h : UpdateRun geo max (updatePartition geo max false anc prev z) anc' (some z) us) :
    UpdateRun geo max anc anc' prev (z :: us) := by
  have hpz : prev ≠ some z := fun hp => (hprev z hp).1 rfl
  have hinfo := updatePartition_info geo max anc hpz
  have hframe : updatePartition geo max false anc prev z = { anc with
      fspace_trk := (updatePartition geo max false anc prev z).fspace_trk
      info := (updatePartition geo max false anc prev z).info } := by
    cases prev <;> rfl
  have hf1 : ∀ n, ((updatePartition geo max false anc prev z).info n).f1 = (anc.info n).f1 := by
    intro n
    rw [hinfo]
    by_cases hp : prev = some n
    · rw [if_pos hp]
    · by_cases hn : n = z
      · rw [if_neg hp, if_pos hn, hn]; rfl
      · rw [if_neg hp, if_neg hn]
  have hlab : ∀ zs, labels (updatePartition geo max false anc prev z) zs = labels anc zs := fun zs =>
    List.map_congr_left fun n _ => hf1 n
  have hz' := h.prev z rfl
  refine ⟨?_, fun n hn hp => ?_, fun hp => ?_, fun q hq => ?_, fun us₁ n us₂ he => ?_⟩
  · exact h.frame.trans (congrArg (fun x : FdasdAnchor =>
      { x with fspace_trk := anc'.fspace_trk, info := anc'.info }) hframe)
  · simp only [List.mem_cons, not_or] at hn
    rw [h.others n hn.2 fun hc => hn.1 (Option.some.inj hc).symm, hinfo, if_neg hp, if_neg hn.1]
  · subst hp
    rw [hz'.1]
    simp only [updatePartition, upd_info, if_true, partitionOf, labels, List.map_cons, nextTrack]
  · subst hq
    obtain ⟨hqz, hqu⟩ := hprev q rfl
    refine ⟨hz'.1, ?_⟩
    rw [h.others q hqu fun hc => hqz (Option.some.inj hc).symm, hinfo, if_pos rfl]
    rfl
  · cases us₁ with
    | nil =>
      obtain ⟨rfl, rfl⟩ := List.cons.inj he
      rw [hz'.2, hinfo, if_neg hpz, if_pos rfl, hlab]
      rfl
    | cons u us₁ =>
      obtain ⟨rfl, hu⟩ := List.cons.inj he
      have hn : n ∈ us := by rw [hu]; exact List.mem_append_right _ (List.mem_cons_self ..)
      have hnz : n ≠ z := by rintro rfl; exact hz hn
      have hnp : prev ≠ some n := fun hp => (hprev n hp).2 hn
      rw [h.updated us₁ n us₂ hu, hinfo, if_neg hnp, if_neg hnz, hlab]

end

theorem updatePartitions_eq {geo : HdGeometry} {max : Nat} : ∀ {zs us fs : List Node} {anc : FdasdAnchor}
    {prev p : Option Node}, zs = us ++ fs → Seg anc.links p zs none → zs.Nodup → zs ≠ [] →
    (∀ n ∈ us, isDataset (anc.info n).f1) → (∀ n ∈ fs, ¬ isDataset (anc.info n).f1) →
    (∀ q, prev = some q → q ∉ zs) → (prev = none → 2 ≤ zs.length) →
    ∃ anc', updatePartitions geo max zs.length anc prev zs.head? = .ok anc' ∧ UpdateRun geo max anc anc' prev us
  | [], _, _, _, _, _, _, _, _, hne, _, _, _, _ => absurd rfl hne
  | z :: zs, us, fs, anc, prev, p, hz, hseg, hnd, _, hus, hfs, hprev, hlen => by
    obtain ⟨hzn, hnd'⟩ := List.nodup_cons.mp hnd
    simp only [List.length_cons, List.head?_cons, updatePartitions, deref]
    by_cases hd : isDataset (anc.info z).f1
    · -- one more partition
      obtain ⟨us, rfl⟩ : ∃ us', us = z :: us' := by
        cases us with
        | nil => exact absurd hd (hfs z (by rw [List.nil_append] at hz; rw [← hz]; exact List.mem_cons_self ..))
        | cons u us =>
          rw [List.cons_append, List.cons.injEq] at hz
          exact ⟨us, by rw [hz.1]⟩
      have hz' : zs = us ++ fs := (List.cons.inj hz).2
      have hzu : z ∉ us := fun h => hzn (by rw [hz']; exact List.mem_append_left _ h)
      rw [if_neg (not_not.mpr hd)]
      have hq : ∀ q, prev = some q → q ≠ z ∧ q ∉ us := fun q hq => by
        have := hprev q hq
        simp only [List.mem_cons, not_or] at this
        exact ⟨this.1, fun h => this.2 (by rw [hz']; exact List.mem_append_left _ h)⟩
      cases zs with
      | nil =>
        obtain ⟨rfl, rfl⟩ := List.append_eq_nil_iff.mp hz'.symm
        obtain ⟨q, rfl⟩ : ∃ q, prev = some q := by
          cases prev with
          | none => exact absurd (hlen rfl) (by simp)
          | some q => exact ⟨q, rfl⟩
        have hqz := (hq q rfl).1
        have hqz' : some q ≠ some z := fun h => hqz (Option.some.inj h)
        have hself := updatePartition_info geo max anc hqz' z
        rw [if_neg hqz', if_pos rfl] at hself
        refine ⟨_, rfl, updatePartition_run hzu hq ?_⟩
        rw [show (([] : List Node).length == 0) = true from rfl, updatePartition_last hqz]
        refine ⟨rfl, fun n _ hn => ?_, fun h => absurd h (by simp), fun r hr => ?_,
          fun us₁ n us₂ h => absurd h (by simp)⟩
        · have hnz : n ≠ z := by rintro rfl; exact hn rfl
          rw [FdasdAnchor.setGap, upd_info, if_neg hnz]
        · obtain rfl := Option.some.inj hr
          refine ⟨rfl, ?_⟩
          rw [FdasdAnchor.setGap, upd_info, if_pos rfl, hself]
          simp only [labels, List.map_nil, nextTrack, partitionOf]
          congr 2; push_cast; ring
      | cons y ys =>
        have hpz : prev ≠ some z := fun hp => (hq z hp).1 rfl
        have hlk : (updatePartition geo max false anc prev z).links = anc.links := by cases prev <;> rfl
        have hkeep : ∀ n ∈ y :: ys, (updatePartition geo max false anc prev z).info n = anc.info n := by
          intro n hn
          have hnz : n ≠ z := by rintro rfl; exact hzn hn
          have hnp : prev ≠ some n := fun hp => hprev n hp (List.mem_cons_of_mem _ hn)
          rw [updatePartition_info _ _ _ hpz, if_neg hnp, if_neg hnz]
        obtain ⟨anc', hok, hrun⟩ : ∃ anc', updatePartitions geo max (y :: ys).length
            (updatePartition geo max false anc prev z) (some z) (y :: ys).head? = .ok anc' ∧
            UpdateRun geo max (updatePartition geo max false anc prev z) anc' (some z) us :=
          updatePartitions_eq hz' (by rw [hlk]; exact hseg.2.2) hnd' (by simp)
          (fun n hn => by
            rw [hkeep n (by rw [hz']; exact List.mem_append_left _ hn)]
            exact hus n (List.mem_cons_of_mem _ hn))
          (fun n hn => by
            rw [hkeep n (by rw [hz']; exact List.mem_append_right _ hn)]
            exact hfs n hn)
          (fun q hq => by obtain rfl := Option.some.inj hq; exact hzn) (fun h => absurd h (by simp))
        refine ⟨anc', ?_, updatePartition_run hzu hq hrun⟩
        rw [hseg.2.1, Option.or_none]
        exact hok
    · have hnil : us = [] := by
        cases us with
        | nil => rfl
        | cons u us =>
          rw [List.cons_append, List.cons.injEq] at hz
          exact absurd (hus u (List.mem_cons_self ..)) (by rw [← hz.1]; exact hd)
      subst hnil
      rw [if_pos hd]
      cases prev with
      | none =>
        refine ⟨_, rfl, rfl, fun _ _ _ => rfl, fun _ => ?_, fun q hq => absurd hq (by simp), fun us₁ n us₂ h => ?_⟩
        · show u64 _ = u64 _
          simp only [labels, List.map_nil, nextTrack]
          congr 1; push_cast; ring
        · exact absurd h (by simp)
      | some q =>
        refine ⟨_, rfl, rfl, fun n _ hn => ?_, fun h => absurd h (by simp), fun r hr => ?_, fun us₁ n us₂ h => ?_⟩
        · have hnq : n ≠ q := by rintro rfl; exact hn rfl
          rw [FdasdAnchor.setGap, upd_info, if_neg hnq]
        · obtain rfl := Option.some.inj hr
          refine ⟨rfl, ?_⟩
          rw [FdasdAnchor.setGap, upd_info, if_pos rfl]
          simp only [labels, List.map_nil, nextTrack]
          congr 2; push_cast; ring
        · exact absurd h (by simp)

/-! ## The whole table -/

/-- The state in which fdasd starts to read: all partition structures are clear. -/
structure Clear (anc : FdasdAnchor) (xs : List Node) : Prop where
  list : IsList anc.links anc.first anc.last xs
  all : xs.length = USABLE_PARTITIONS
  info : ∀ n, anc.info n = .zero
  partno : anc.partno = fun _ => -1

def lastTrackRead (geo : HdGeometry) (f4 : Format4Label) : Nat :=
  u32 ((formattedCylinders f4 * geo.heads : Nat) - 1)

def PartitionInfo.ofLabel (l : Format1Label) : PartitionInfo := { PartitionInfo.zero with f1 := l }

/-- The anchor after reading the labels `ls` in the order on the disk. -/
structure Reread (geo : HdGeometry) (anc anc' : FdasdAnchor) (xs : List Node) (ls : List Format1Label) : Prop where
  frame : anc' = { anc with
    f5 := anc'.f5
    f7 := anc'.f7
    formatted_cylinders := formattedCylinders anc.f4
    used_partitions := u32 ((geo.sectors : Int) - 2 - anc.f4.DS4DSREC)
    fspace_trk :=
      u64 ((nextTrack geo (lastTrackRead geo anc.f4) (sortLabels (ls.map recode)) : Int) - FIRST_USABLE_TRK)
    partno := setNumbers (fun _ => -1) (ls.map labelNumber) 0
    info := anc'.info }
  read : ∀ (j : Nat) n l, xs[j]? = some n → (sortLabels (ls.map recode))[j]? = some l →
    anc'.info n = partitionWith geo (lastTrackRead geo anc.f4) (.ofLabel l)
      ((sortLabels (ls.map recode)).drop (j + 1))
  others : ∀ n ∈ xs.drop ls.length, anc'.info n = .zero

theorem datasets_isDataset : ∀ (ds : List Dscb), ∀ l ∈ datasets ds, isDataset l
  | .dataset f1 :: ds, l, h => by
    rw [datasets] at h
    split at h
    · rename_i hf
      rcases List.mem_cons.mp h with rfl | h
      · exact hf
      · exact datasets_isDataset ds l h
    · exact datasets_isDataset ds l h
  | .fmt4 _ :: ds, l, h => datasets_isDataset ds l h
  | .fmt5 _ :: ds, l, h => datasets_isDataset ds l h
  | .fmt7 _ :: ds, l, h => datasets_isDataset ds l h
  | .fmt9 _ :: ds, l, h => datasets_isDataset ds l h

def recordsBehind (geo : HdGeometry) (anc : FdasdAnchor) (vol : Volume) (blk : Nat) : List Dscb :=
  (List.range' 1 (geo.sectors - 1)).map fun i => vol (blk + i * anc.blksize)

theorem sortLabels_length (ls : List Format1Label) : (sortLabels ls).length = ls.length :=
  (sortLabels_perm ls).length_eq

theorem labels_read {anc : FdasdAnchor} {xs : List Node} {ls : List Format1Label} (hnd : xs.Nodup)
    (hlen : ls.length ≤ xs.length)
    (hread : ∀ (j : Nat) n l, xs[j]? = some n → ls[j]? = some l → anc.info n = .ofLabel l)
    (hother : ∀ n, n ∉ xs.take ls.length → anc.info n = .zero) :
    labels anc xs = ls ++ List.replicate (xs.length - ls.length) Format1Label.zero := by
  refine List.ext_getElem? fun j => ?_
  simp only [labels, List.getElem?_map]
  by_cases hj : j < ls.length
  · rw [List.getElem?_append_left hj, List.getElem?_eq_getElem hj,
      List.getElem?_eq_getElem (by omega), Option.map_some,
      hread j _ _ (List.getElem?_eq_getElem (by omega)) (List.getElem?_eq_getElem hj)]
    rfl
  · rw [List.getElem?_append_right (by omega)]
    by_cases hx : j < xs.length
    · have hn : xs[j] ∉ xs.take ls.length := by
        intro hm
        obtain ⟨k, hk, he⟩ := List.mem_iff_getElem.mp hm
        rw [List.length_take] at hk
        rw [List.getElem_take] at he
        have := (List.Nodup.getElem_inj_iff hnd).mp he
        omega
      rw [List.getElem?_eq_getElem hx, Option.map_some, hother _ hn, List.getElem?_replicate, if_pos (by omega)]
      rfl
    · rw [List.getElem?_eq_none (by omega), List.getElem?_eq_none (by rw [List.length_replicate]; omega)]
      rfl

theorem isDataset_recode {l : Format1Label} : isDataset (recode l) ↔ isDataset l := Iff.rfl

theorem sorted_labels {anc : FdasdAnchor} {xs : List Node} (hc : Clear anc xs) {ds : List Dscb}
    (hlen : (datasets ds).length ≤ USABLE_PARTITIONS) {s' : ReadState}
      (hrun : ReadRun ⟨anc, anc.first, 0, 0, 0⟩ s' xs (datasets ds))
    {a : FdasdAnchor} (ha : a.info = s'.anc.info) (hlk : a.links = anc.links) (hf : a.first = anc.first)
    (hl : a.last = anc.last) :
    ∃ a', fdasd_reorganize_FMT1s a = .ok a' ∧ a' = { a with info := a'.info } ∧
      labels a' xs = sortLabels ((datasets ds).map recode) ++
        List.replicate (xs.length - (datasets ds).length) Format1Label.zero ∧
      ∀ n, a'.info n = .ofLabel (a'.info n).f1 := by
  have hlist : IsList a.links a.first a.last xs := by rw [hlk, hf, hl]; exact hc.list
  obtain ⟨a', hok, hframe, hlab, hinfo⟩ := reorganize_eq hlist hc.all
  have hread : ∀ (j : Nat) n l, xs[j]? = some n → ((datasets ds).map recode)[j]? = some l →
    a.info n = .ofLabel l := by
    intro j n l hj hjl
    rw [List.getElem?_map] at hjl
    obtain ⟨m, hm, rfl⟩ := Option.map_eq_some_iff.mp hjl
    rw [ha, hrun.read j n m hj hm, hc.info]
    rfl
  have hother : ∀ n, n ∉ xs.take ((datasets ds).map recode).length → a.info n = .zero := by
    intro n hn
    rw [List.length_map] at hn
    rw [ha, hrun.others n hn, hc.info]
  have hle : ((datasets ds).map recode).length ≤ xs.length := by rw [List.length_map, hc.all]; exact hlen
  have hz : ∀ z ∈ List.replicate (xs.length - ((datasets ds).map recode).length) Format1Label.zero,
    z.DS1FMTID = 0 :=
    fun z hz => by rw [List.eq_of_mem_replicate hz]; rfl
  have ha' : ∀ n, a.info n = .ofLabel (a.info n).f1 := by
    intro n
    by_cases hn : n ∈ xs.take ((datasets ds).map recode).length
    · obtain ⟨j, hj, he⟩ := List.mem_iff_getElem.mp hn
      rw [List.length_take] at hj
      rw [List.getElem_take] at he
      have := hread j n _ (by rw [List.getElem?_eq_getElem (by omega), he]) (List.getElem?_eq_getElem (by omega))
      rw [this]
      rfl
    · rw [hother n hn]
      rfl
  refine ⟨a', hok, hframe, ?_, fun n => ?_⟩
  · rw [hlab, labels_read hc.list.nodup hle hread hother, sortLabels_append hz, List.length_map]
  · have h := congrArg (fun i : PartitionInfo => { i with f1 := (a'.info n).f1 }) ((hinfo n).trans (ha' n))
    exact h

theorem process_valid_vtoc_eq {geo : HdGeometry} {anc : FdasdAnchor} {xs : List Node} (hc : Clear anc xs)
    (vol : Volume) (blk : Nat) (hlen : (datasets (recordsBehind geo anc vol blk)).length ≤ USABLE_PARTITIONS) :
    ∃ anc', fdasd_process_valid_vtoc geo anc vol blk = .ok anc' ∧
      Reread geo anc anc' xs (datasets (recordsBehind geo anc vol blk)) := by
  obtain ⟨ls, hls⟩ : ∃ ls, datasets (recordsBehind geo anc vol blk) = ls := ⟨_, rfl⟩
  have hle : ls.length ≤ xs.length := by rw [hc.all, ← hls]; exact hlen
  obtain ⟨a₀, ha₀⟩ : ∃ a₀, a₀ = setFormatted geo anc := ⟨_, rfl⟩
  have hc₀ : Clear a₀ xs := by rw [ha₀]; exact ⟨hc.list, hc.all, hc.info, hc.partno⟩
  obtain ⟨s, hs⟩ : ∃ s, readLabels geo a₀ vol blk = s := ⟨_, rfl⟩
  have hrun : ReadRun ⟨a₀, a₀.first, 0, 0, 0⟩ s xs (datasets (recordsBehind geo anc vol blk)) := by
    have hfold : s = (recordsBehind geo anc vol blk).foldl readLabel ⟨a₀, a₀.first, 0, 0, 0⟩ := by
      rw [← hs, readLabels, recordsBehind, List.foldl_map, ha₀]
      rfl
    rw [hfold]
    refine read_run _ _ (show Seg a₀.links none xs none from hc₀.list.seg) hc₀.list.nodup hc₀.list.first_eq ?_
    rw [hls]; exact hle
  obtain ⟨a₁, ha₁⟩ : ∃ a₁, initMissing s = a₁ := ⟨_, rfl⟩
  have hf₁ : a₁ = { s.anc with f5 := a₁.f5, f7 := a₁.f7 } := by
    rw [← ha₁]
    unfold initMissing
    simp only
    split <;> split <;> rfl
  have hf₁' : a₁ = { a₀ with partno := s.anc.partno, info := s.anc.info, f5 := a₁.f5, f7 := a₁.f7 } :=
    hf₁.trans (congrArg (fun x : FdasdAnchor => { x with f5 := a₁.f5, f7 := a₁.f7 }) hrun.frame)
  obtain ⟨a₂, hok₂, hf₂, hlab, hinfo⟩ := sorted_labels hc₀ hlen hrun (a := a₁) (by rw [hf₁]) (by rw [hf₁'])
    (by rw [hf₁']) (by rw [hf₁'])
  rw [hls] at hlab
  have hf₂' : a₂ = { a₀ with partno := s.anc.partno, info := a₂.info, f5 := a₁.f5, f7 := a₁.f7 } :=
    hf₂.trans (congrArg (fun x : FdasdAnchor => { x with info := a₂.info }) hf₁')
  -- the nodes with a label and those without
  have hsl : (sortLabels (ls.map recode)).length = ls.length := by rw [sortLabels_length, List.length_map]
  have htake : labels a₂ (xs.take ls.length) = sortLabels (ls.map recode) := by
    have := congrArg (List.take ls.length) hlab
    rwa [labels, ← List.map_take, ← hsl, List.take_left, hsl] at this
  have hdrop : labels a₂ (xs.drop ls.length) = List.replicate (xs.length - ls.length) .zero := by
    have := congrArg (List.drop ls.length) hlab
    rwa [labels, ← List.map_drop, ← hsl, List.drop_left, hsl] at this
  obtain ⟨a₃, ha₃⟩ : ∃ a₃ : FdasdAnchor, a₃ = { a₂ with
      used_partitions := u32 ((geo.sectors : Int) - 2 - a₂.f4.DS4DSREC) } := ⟨_, rfl⟩
  have hi₃ : a₃.info = a₂.info := by rw [ha₃]
  have hlk₃ : a₃.links = anc.links := by rw [ha₃, hf₂', ha₀]; rfl
  have hus : ∀ n ∈ xs.take ls.length, isDataset (a₃.info n).f1 := by
    intro n hn
    have hm : (a₂.info n).f1 ∈ sortLabels (ls.map recode) := by
      rw [← htake]; exact List.mem_map.mpr ⟨n, hn, rfl⟩
    have hm' := (sortLabels_perm _).mem_iff.mp hm
    obtain ⟨l, hl, he⟩ := List.mem_map.mp hm'
    rw [hi₃, ← he]
    exact isDataset_recode.2 (datasets_isDataset _ l (by rw [hls]; exact hl))
  have hzero : ∀ n ∈ xs.drop ls.length, a₂.info n = .zero := by
    intro n hn
    have hm : (a₂.info n).f1 ∈ List.replicate (xs.length - ls.length) Format1Label.zero := by
      rw [← hdrop]; exact List.mem_map.mpr ⟨n, hn, rfl⟩
    rw [hinfo n, List.eq_of_mem_replicate hm]
    rfl
  have hfs : ∀ n ∈ xs.drop ls.length, ¬ isDataset (a₃.info n).f1 := by
    intro n hn
    rw [hi₃, hzero n hn]
    decide
  obtain ⟨anc', hok₃, hupd⟩ : ∃ anc', updatePartitions geo (lastTrackRead geo anc.f4) xs.length a₃ none xs.head? =
      .ok anc' ∧ UpdateRun geo (lastTrackRead geo anc.f4) a₃ anc' none (xs.take ls.length) :=
    updatePartitions_eq (List.take_append_drop ls.length xs).symm
      (show Seg a₃.links none xs none by rw [hlk₃]; exact hc.list.seg) hc.list.nodup
      (by rintro rfl; exact absurd hc.all (by decide)) hus hfs (fun q hq => absurd hq (by simp))
      (fun _ => by rw [hc.all]; decide)
  have hlab₃ : ∀ zs, labels a₃ zs = labels a₂ zs := fun zs => by unfold labels; rw [hi₃]
  have hf₃ : anc' = { a₀ with
      partno := s.anc.partno, f5 := a₁.f5, f7 := a₁.f7, fspace_trk := anc'.fspace_trk, info := anc'.info
      used_partitions := u32 ((geo.sectors : Int) - 2 - a₂.f4.DS4DSREC) } := by
    rw [ha₃] at hupd
    exact hupd.frame.trans (congrArg (fun x : FdasdAnchor => { x with
      used_partitions := u32 ((geo.sectors : Int) - 2 - a₂.f4.DS4DSREC)
      fspace_trk := anc'.fspace_trk, info := anc'.info }) hf₂')
  have hf4 : a₂.f4 = anc.f4 := by rw [hf₂', ha₀]; rfl
  have hpart : s.anc.partno = setNumbers (fun _ => -1) (ls.map labelNumber) 0 := by
    rw [hrun.partno, hls, show (⟨a₀, a₀.first, 0, 0, 0⟩ : ReadState).anc.partno = a₀.partno from rfl, hc₀.partno]
  have hfsp : anc'.fspace_trk = u64 ((nextTrack geo (lastTrackRead geo anc.f4) (sortLabels (ls.map recode)) : Int) -
      FIRST_USABLE_TRK) := by
    rw [hupd.first rfl, hlab₃, htake]
  refine ⟨anc', ?_, ?_⟩
  · have hlast : lastTrackRead geo anc.f4 = u32 ((a₂.formatted_cylinders * geo.heads : Nat) - 1) := by
      rw [hf₂', ha₀]; rfl
    unfold fdasd_process_valid_vtoc
    rw [← ha₀, hs, ha₁, bind_ok hok₂]
    unfold fdasd_update_partition_info
    simp only
    rw [← hlast, ← ha₃]
    have hxs : a₂.first = xs.head? := by rw [hf₂', ha₀]; exact hc.list.first_eq
    have hx : xs.length = USABLE_PARTITIONS := hc.all
    rw [hxs, ← hx]
    exact hok₃
  · rw [hls]
    refine ⟨?_, fun j n l hj hl => ?_, fun n hn => ?_⟩
    · have h5 : anc'.f5 = a₁.f5 := by rw [hf₃]
      have h7 : anc'.f7 = a₁.f7 := by rw [hf₃]
      rw [← hfsp, ← hpart, h5, h7]
      rw [ha₀, hf4] at hf₃
      exact hf₃
    · have hjs : j < ls.length := by
        have := (List.getElem?_eq_some_iff.mp hl).1
        rwa [hsl] at this
      have hnj : (xs.take ls.length)[j]? = some n := by rw [List.getElem?_take_of_lt hjs]; exact hj
      obtain ⟨hjt, hget⟩ := List.getElem?_eq_some_iff.mp hnj
      have hsplit : xs.take ls.length = (xs.take ls.length).take j ++ n :: (xs.take ls.length).drop (j + 1) := by
        rw [← hget, List.getElem_cons_drop, List.take_append_drop]
      have hlabel : (a₂.info n).f1 = l := by
        have := congrArg (fun zs => zs[j]?) htake
        simp only [labels, List.getElem?_map, hnj, hl, Option.map_some, Option.some.injEq] at this
        exact this
      have hrest : labels a₂ ((xs.take ls.length).drop (j + 1)) = (sortLabels (ls.map recode)).drop (j + 1) := by
        rw [← htake, labels, labels, List.map_drop]
      rw [hupd.updated _ n _ hsplit, hi₃, hinfo n, hlabel, hlab₃, hrest]
    · have hn' : n ∉ xs.take ls.length := fun h => by
        have hnd := hc.list.nodup
        rw [← List.take_append_drop ls.length xs] at hnd
        exact (List.nodup_append.mp hnd).2.2 n h n hn rfl
      rw [hupd.others n hn' (by simp), hi₃, hzero n hn]

end Fdasd
