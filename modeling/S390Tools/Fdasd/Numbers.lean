import S390Tools.Fdasd.Dsname

/-!
# Data set numbers

`partno` maps data set numbers to positions in the list. Writing completes it
to a bijection between the numbers in the names and the positions of the used
partitions.
-/

namespace Fdasd

open Word Vtoc CString DList

/-- `partno` is a partial injection into the positions below `m`. -/
structure PartialInjection (partno : Node → Int) (m : Nat) : Prop where
  range : ∀ d, partno d = -1 ∨ 0 ≤ partno d ∧ partno d < m
  inj : ∀ d e, partno d = partno e → 0 ≤ partno d → d = e

section
variable {partno : Node → Int} {m : Nat}

theorem PartialInjection.exists_free (h : PartialInjection partno m) (hm : m ≤ USABLE_PARTITIONS)
    {i : Nat} (hi : i < m)
    (hn : ∀ d, partno d ≠ i) : ∃ d, ¬ partno d > -1 := by
  by_contra hc
  simp only [not_exists, not_not] at hc
  have hlt : ∀ d, (partno d).toNat < USABLE_PARTITIONS := fun d => by
    have h₁ := h.range d
    have h₂ := hc d
    omega
  have hinj : Function.Injective fun d : Node => (⟨(partno d).toNat, hlt d⟩ : Node) := by
    intro d e hde
    have h₁ := hc d
    have h₂ := hc e
    have hv := congrArg Fin.val hde
    simp only at hv
    exact h.inj d e (by omega) (by omega)
  obtain ⟨d, hd⟩ := Finite.surjective_of_injective hinj ⟨i, by omega⟩
  have hv := congrArg Fin.val hd
  simp only at hv
  have h₂ := hc d
  exact hn d (by omega)

theorem PartialInjection.setpos (h : PartialInjection partno m) {i : Nat} (hi : i < m) (hn : ∀ d, partno d ≠ i)
    (d : Node) : PartialInjection (Function.update partno d i) m := by
  constructor
  · intro e
    rw [Function.update_apply]
    split
    · right; omega
    · exact h.range e
  · intro e f hef hp
    rw [Function.update_apply] at hef hp
    rw [Function.update_apply] at hef
    by_cases he : e = d
    · by_cases hf : f = d
      · rw [he, hf]
      · rw [if_pos he, if_neg hf] at hef
        exact absurd hef.symm (hn f)
    · by_cases hf : f = d
      · rw [if_neg he, if_pos hf] at hef
        exact absurd hef (hn e)
      · rw [if_neg he, if_neg hf] at hef
        rw [if_neg he] at hp
        exact h.inj e f hef hp

end

section
variable {anc : FdasdAnchor}

theorem getdsn_isSome {pos : Int} : (getdsn anc pos).isSome = true ↔ ∃ d, anc.partno d = pos := by
  rw [getdsn, List.find?_isSome]
  simp

theorem find_free (p : Node → Bool) (k : Fin (USABLE_PARTITIONS + 1)) (hk : ∀ d : Node, d.val < k.val → p d = false)
    (h : ∃ d, p d = true) :
    ∃ d, ((List.finRange USABLE_PARTITIONS).drop k).find? p = some d ∧ p d = true ∧
      ∀ e : Node, e.val < d.val → p e = false := by
  revert p k; decide +kernel

theorem freeDsn_eq {k : Nat} (hle : k ≤ USABLE_PARTITIONS) (hk : ∀ d : Node, d.val < k → anc.partno d > -1)
    (h : ∃ d, ¬ anc.partno d > -1) :
    ∃ d, freeDsn anc k = .ok d ∧ ¬ anc.partno d > -1 ∧ ∀ e : Node, e.val < d.val → anc.partno e > -1 := by
  obtain ⟨d, hd, hp, he⟩ := find_free (fun d => decide (¬ anc.partno d > -1)) ⟨k, by omega⟩
    (fun d hd => by simpa using hk d hd) (by simpa using h)
  refine ⟨d, ?_, by simpa using hp, fun e h => by simpa using he e h⟩
  unfold freeDsn
  rw [hd]; rfl

/-! ## One partition -/

def partitionRecords (anc : FdasdAnchor) (n : Node) : List Dscb :=
  if (anc.info n).f1.DS1FMTID = 0xf8 then [.dataset (anc.info n).f1, .fmt9 anc.f9] else [.dataset (anc.info n).f1]

def writeRecords (blksize : Nat) : Volume → Nat → List Dscb → Volume
  | vol, _, [] => vol
  | vol, blk, d :: ds => writeRecords blksize (vtoc_write_label vol blk d) (blk + blksize) ds

theorem writeRecords_append (blksize : Nat) : ∀ (vol : Volume) (blk : Nat) (ds es : List Dscb),
    writeRecords blksize vol blk (ds ++ es) =
      writeRecords blksize (writeRecords blksize vol blk ds) (blk + ds.length * blksize) es
  | vol, blk, [], es => by simp [writeRecords]
  | vol, blk, d :: ds, es => by
    rw [List.cons_append, writeRecords, writeRecords, writeRecords_append blksize _ _ ds es, List.length_cons]
    congr 1
    ring

/-- The label `g` is the label `f` with another name, serial or chain pointer. -/
def SameDataset (f g : Format1Label) : Prop := g.DS1FMTID = f.DS1FMTID ∧ g.DS1EXT1 = f.DS1EXT1

structure SamePartition (p q : PartitionInfo) : Prop where
  used : q.used = p.used
  start_trk : q.start_trk = p.start_trk
  end_trk : q.end_trk = p.end_trk
  len_trk : q.len_trk = p.len_trk
  fspace_trk : q.fspace_trk = p.fspace_trk
  label : SameDataset p.f1 q.f1

theorem SamePartition.refl (p : PartitionInfo) : SamePartition p p := ⟨rfl, rfl, rfl, rfl, rfl, rfl, rfl⟩

theorem SamePartition.trans {p q r : PartitionInfo} (h : SamePartition p q) (h' : SamePartition q r) :
    SamePartition p r :=
  ⟨h'.used.trans h.used, h'.start_trk.trans h.start_trk, h'.end_trk.trans h.end_trk, h'.len_trk.trans h.len_trk,
    h'.fspace_trk.trans h.fspace_trk, h'.label.1.trans h.label.1, h'.label.2.trans h.label.2⟩

/-- All but the partitions and their numbers is the same. -/
def SameFrame (a b : FdasdAnchor) : Prop := b = { a with partno := b.partno, info := b.info }

theorem SameFrame.refl (a : FdasdAnchor) : SameFrame a a := rfl

theorem SameFrame.trans {a b c : FdasdAnchor} (h : SameFrame a b) (h' : SameFrame b c) : SameFrame a c :=
  Eq.trans h' (congrArg (fun x : FdasdAnchor => { x with partno := c.partno, info := c.info }) h)

/-- The name in the label of a partition, in ASCII, has fdasd's form. -/
def NamedLabel (p : PartitionInfo) (w : List UInt8) (no : Nat) : Prop := Named (vtoc_ebcdic_dec p.f1.DS1DSNAM) w no

/-- What naming the partition `n` for the position `s.i` does. -/
structure NameStep (w : List UInt8) (s s' : WriteState) (n : Node) (d : Node) : Prop where
  frame : SameFrame s.anc s'.anc
  vol : s'.vol = s.vol
  blk : s'.blk = s.blk
  i : s'.i = s.i
  others : ∀ m, m ≠ n → s'.anc.info m = s.anc.info m
  same : SamePartition (s.anc.info n) (s'.anc.info n)
  pos : s'.anc.partno d = s.i
  keep : ∀ e, 0 ≤ s.anc.partno e → s'.anc.partno e = s.anc.partno e
  new : ∀ e, s'.anc.partno e = s.anc.partno e ∨ s'.anc.partno e = s.i
  named : NamedLabel (s'.anc.info n) w (d + 1)

theorem namePartition_spec {w : List UInt8} {s : WriteState} {n : Node} {m : Nat}
    (hw : Serial w) (hv : s.anc.vlabel.volid = serialField w) (hinj : PartialInjection s.anc.partno m)
    (hm : m ≤ USABLE_PARTITIONS) (hi : s.i < m) (hle : s.k ≤ USABLE_PARTITIONS)
    (hk : ∀ e : Node, e.val < s.k → s.anc.partno e > -1)
    (hname : ∀ d, s.anc.partno d = s.i → ∃ w₀, NamedLabel (s.anc.info n) w₀ (d + 1)) :
    ∃ s' d, namePartition s n = .ok s' ∧ NameStep w s s' n d ∧ PartialInjection s'.anc.partno m ∧
      s'.k ≤ USABLE_PARTITIONS ∧ ∀ e : Node, e.val < s'.k → s'.anc.partno e > -1 := by
  unfold namePartition
  simp only
  by_cases hd : ∃ d, s.anc.partno d = s.i
  · -- the partition has a number already
    rw [if_pos (getdsn_isSome.2 hd), hv]
    obtain ⟨d, hd⟩ := hd
    obtain ⟨w₀, hw₀⟩ := hname d hd
    obtain ⟨ch, hch, hnamed⟩ := reuseName_eq hw₀ hw
      (behindName { (s.anc.info n).f1 with DS1DSSN := ncopy (serialField w) VOLSER_LENGTH })
    rw [bind_ok hch]
    refine ⟨_, d, rfl, ⟨rfl, rfl, rfl, rfl, fun m hm => ?_, ?_, hd, fun _ _ => rfl, fun _ => Or.inl rfl, ?_⟩, hinj,
      hle, hk⟩
    · rw [upd_info, if_neg hm]
    · rw [upd_info, if_pos rfl]; exact ⟨rfl, rfl, rfl, rfl, rfl, rfl, rfl⟩
    · unfold NamedLabel
      rw [upd_info, if_pos rfl]
      exact hnamed.recode
  · rw [if_neg (by rw [getdsn_isSome]; exact hd), hv]
    simp only [not_exists] at hd
    obtain ⟨k, hfree, hneg, hbelow⟩ := freeDsn_eq hle hk (hinj.exists_free hm hi hd)
    obtain ⟨dsname, hdsname, hlen⟩ := type_dsname (vtoc_ebcdic_dec (s.anc.info n).f1.DS1DSNAM ++
      behindName { (s.anc.info n).f1 with DS1DSSN := ncopy (serialField w) VOLSER_LENGTH })
    obtain ⟨ch, hch, hnamed⟩ := createName_eq hw k hdsname hlen
      (behindName { (s.anc.info n).f1 with DS1DSSN := ncopy (serialField w) VOLSER_LENGTH })
    rw [bind_ok hfree, bind_ok hch]
    refine ⟨_, k, rfl, ⟨rfl, rfl, rfl, rfl, fun m hm => ?_, ?_, ?_, fun e he => ?_, fun e => ?_, ?_⟩,
      hinj.setpos hi hd k, le_of_lt k.isLt, fun e he => ?_⟩
    · rw [upd_info, if_neg hm]; rfl
    · rw [upd_info, if_pos rfl]; exact ⟨rfl, rfl, rfl, rfl, rfl, rfl, rfl⟩
    · exact Function.update_self ..
    · refine Function.update_of_ne ?_ _ _
      rintro rfl
      omega
    · by_cases he : e = k
      · exact Or.inr (by rw [he]; exact Function.update_self ..)
      · exact Or.inl (Function.update_of_ne he _ _)
    · unfold NamedLabel
      rw [upd_info, if_pos rfl]
      exact hnamed.recode
    · show Function.update s.anc.partno k _ e > -1
      rw [Function.update_of_ne (by rintro rfl; simp at he)]
      exact hbelow e he

/-! ## All partitions -/

/-- What writing the partition `n` does. -/
structure WriteStep (w : List UInt8) (s s' : WriteState) (n d : Node) : Prop where
  frame : SameFrame s.anc s'.anc
  i : s'.i = s.i + 1
  others : ∀ m, m ≠ n → s'.anc.info m = s.anc.info m
  same : SamePartition (s.anc.info n) (s'.anc.info n)
  pos : s'.anc.partno d = s.i
  keep : ∀ e, 0 ≤ s.anc.partno e → s'.anc.partno e = s.anc.partno e
  new : ∀ e, s'.anc.partno e = s.anc.partno e ∨ s'.anc.partno e = s.i
  named : NamedLabel (s'.anc.info n) w (d + 1)
  vol : s'.vol = writeRecords s.anc.blksize s.vol s.blk (partitionRecords s'.anc n)
  blk : s'.blk = s.blk + (partitionRecords s'.anc n).length * s.anc.blksize

/-- What the write loop needs of its variables: `m` used partitions, of which those from `s.i` on,
the list `us`, are still to be written. -/
structure Writable (w : List UInt8) (m : Nat) (s : WriteState) (us : List Node) : Prop where
  serial : Serial w
  volid : s.anc.vlabel.volid = serialField w
  inj : PartialInjection s.anc.partno m
  le : m ≤ USABLE_PARTITIONS
  rest : s.i + us.length = m
  nodup : us.Nodup
  used : ∀ n ∈ us, (s.anc.info n).used = 0x01
  k_le : s.k ≤ USABLE_PARTITIONS
  filled : ∀ e : Node, e.val < s.k → s.anc.partno e > -1
  named : ∀ j n d, us[j]? = some n → s.anc.partno d = (s.i + j : Nat) → ∃ w₀, NamedLabel (s.anc.info n) w₀ (d + 1)

theorem storePartition_spec (geo : HdGeometry) {w : List UInt8} {s s' : WriteState} {n d : Node}
    (h : NameStep w s s' n d) :
    WriteStep w s { storePartition geo s' n with i := (storePartition geo s' n).i + 1 } n d ∧
      (storePartition geo s' n).anc.partno = s'.anc.partno ∧ (storePartition geo s' n).k = s'.k := by
  have hblk : s'.anc.blksize = s.anc.blksize := by rw [h.frame]
  unfold storePartition
  simp only
  by_cases hf : (s'.anc.info n).f1.DS1FMTID = 0xf8
  · rw [if_pos hf]
    refine ⟨⟨?_, ?_, fun m hm => ?_, ?_, h.pos, h.keep, h.new, ?_, ?_, ?_⟩, rfl, rfl⟩
    · exact h.frame.trans rfl
    · show s'.i + 1 = _
      rw [h.i]
    · rw [upd_info, if_neg hm, h.others m hm]
    · rw [upd_info, if_pos rfl]
      exact h.same.trans ⟨rfl, rfl, rfl, rfl, rfl, rfl, rfl⟩
    · unfold NamedLabel
      rw [upd_info, if_pos rfl]
      exact h.named
    · simp only [partitionRecords, upd_info, if_true, vtoc_update_format8_label, hf, writeRecords,
        h.vol, h.blk, hblk]
      rfl
    · simp only [partitionRecords, upd_info, if_true, vtoc_update_format8_label, hf, List.length_cons,
        List.length_nil, h.blk, hblk]
      omega
  · rw [if_neg hf]
    refine ⟨⟨h.frame, ?_, h.others, h.same, h.pos, h.keep, h.new, h.named, ?_, ?_⟩, rfl, rfl⟩
    · show s'.i + 1 = _
      rw [h.i]
    · simp only [partitionRecords, hf, if_false, writeRecords, h.vol, h.blk]
    · simp only [partitionRecords, hf, if_false, List.length_singleton, h.blk, hblk]
      omega

theorem writePartition_spec (geo : HdGeometry) {w : List UInt8} {m : Nat} {s : WriteState}
    {n : Node} {us : List Node}
    (h : Writable w m s (n :: us)) :
    ∃ s' d, writePartition geo s n = .ok s' ∧ WriteStep w s s' n d ∧ Writable w m s' us := by
  have hrest := h.rest
  simp only [List.length_cons] at hrest
  obtain ⟨hn, hnd⟩ := List.nodup_cons.mp h.nodup
  obtain ⟨s₁, d, hs₁, hstep, hinj, hle, hk⟩ :=
    namePartition_spec (n := n) h.serial h.volid h.inj h.le (by omega) h.k_le
    h.filled fun d hd => h.named 0 n d rfl (by simpa using hd)
  obtain ⟨hw, hp, hk'⟩ := storePartition_spec geo hstep
  refine ⟨{ storePartition geo s₁ n with i := (storePartition geo s₁ n).i + 1 }, d, ?_, hw, h.serial, ?_, ?_, h.le,
    ?_, hnd, ?_, ?_, ?_, ?_⟩
  · unfold writePartition
    rw [if_neg (by simp [h.used n (List.mem_cons_self ..)]), bind_ok hs₁]
  · rw [hw.frame]; exact h.volid
  · simp only [hp]; exact hinj
  · rw [hw.i]; omega
  · intro m hm
    have hmn : m ≠ n := by rintro rfl; exact hn hm
    rw [hw.others m hmn]
    exact h.used m (List.mem_cons_of_mem _ hm)
  · simp only [hk']; exact hle
  · simp only [hk', hp]; exact hk
  · intro j m e hj he
    have hmn : m ≠ n := by rintro rfl; exact hn (List.mem_of_getElem? hj)
    rw [hw.others m hmn]
    refine h.named (j + 1) m e (by simpa using hj) ?_
    rw [hw.i] at he
    -- the number given in this step is not that of a later partition
    rcases hw.new e with hnew | hnew
    · rw [hnew] at he
      rw [he]; congr 1; omega
    · rw [hnew] at he; omega

/-- What writing the partitions `us` does. -/
structure WriteRun (w : List UInt8) (m : Nat) (s s' : WriteState) (us : List Node) : Prop where
  frame : SameFrame s.anc s'.anc
  others : ∀ m, m ∉ us → s'.anc.info m = s.anc.info m
  same : ∀ m, SamePartition (s.anc.info m) (s'.anc.info m)
  keep : ∀ e, 0 ≤ s.anc.partno e → s'.anc.partno e = s.anc.partno e
  inj : PartialInjection s'.anc.partno m
  named : ∀ j n, us[j]? = some n → ∃ d : Node, s'.anc.partno d = (s.i + j : Nat) ∧
    NamedLabel (s'.anc.info n) w (d + 1)
  vol : s'.vol = writeRecords s.anc.blksize s.vol s.blk (us.flatMap (partitionRecords s'.anc))
  blk : s'.blk = s.blk + (us.flatMap (partitionRecords s'.anc)).length * s.anc.blksize

theorem write_run (geo : HdGeometry) {w : List UInt8} {m : Nat} : ∀ {us : List Node} {s : WriteState},
    Writable w m s us → ∃ s', us.foldlM (writePartition geo) s = .ok s' ∧ WriteRun w m s s' us
  | [], s, h => ⟨s, rfl, .refl _, fun _ _ => rfl, fun _ => .refl _, fun _ _ => rfl, h.inj, by simp, rfl, by simp⟩
  | n :: us, s, h => by
    obtain ⟨s₁, d, h₁, hstep, hwr⟩ := writePartition_spec geo h
    obtain ⟨s', h', hrun⟩ := write_run geo hwr
    have hn : n ∉ us := (List.nodup_cons.mp h.nodup).1
    have hrec : partitionRecords s'.anc n = partitionRecords s₁.anc n := by
      have hf : s'.anc.f9 = s₁.anc.f9 := by rw [hrun.frame]
      unfold partitionRecords
      rw [hrun.others n hn, hf]
    have hblk : s₁.anc.blksize = s.anc.blksize := by rw [hstep.frame]
    refine ⟨s', ?_, hstep.frame.trans hrun.frame, fun x hx => ?_, fun x => ?_, fun e he => ?_, hrun.inj,
      fun j x hj => ?_, ?_, ?_⟩
    · rw [List.foldlM_cons, bind_ok h₁, h']
    · rw [hrun.others x fun hm => hx (List.mem_cons_of_mem _ hm),
        hstep.others x fun hm => hx (hm ▸ List.mem_cons_self ..)]
    · by_cases hxn : x = n
      · subst hxn
        exact hstep.same.trans (hrun.same x)
      · have := hrun.same x
        rwa [hstep.others x hxn] at this
    · have h₁ := hstep.keep e he
      rw [← h₁]
      exact hrun.keep e (by rw [h₁]; exact he)
    · cases j with
      | zero =>
        obtain rfl : n = x := by simpa using hj
        refine ⟨d, ?_, ?_⟩
        · rw [hrun.keep d (by rw [hstep.pos]; omega), hstep.pos]; rfl
        · unfold NamedLabel
          rw [hrun.others n hn]; exact hstep.named
      | succ j =>
        obtain ⟨e, he, hne⟩ := hrun.named j x (by simpa using hj)
        refine ⟨e, ?_, hne⟩
        rw [he, hstep.i]; congr 1; omega
    · rw [hrun.vol, hstep.vol, hstep.blk, hblk, List.flatMap_cons, hrec, writeRecords_append]
    · rw [hrun.blk, hstep.blk, hblk, List.flatMap_cons, hrec, List.length_append]
      ring

end

end Fdasd
