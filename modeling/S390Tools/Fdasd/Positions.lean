import S390Tools.Fdasd.Remove
import S390Tools.Fdasd.Numbers

/-!
# Positions of partitions

Adding and removing partitions shifts the positions in `partno`. Removing also
clears the entry of one data set number: the one that equals the position, not
the one that leads to it. `Clears` says when this is the right entry.
-/

namespace Fdasd

open Word Vtoc CString DList

/-! ## Positions -/

/-- An insertion at position `k` moves the positions from there on. -/
def movedUp (k : Nat) (j : Int) : Int := if j ≥ k then j + 1 else j

def movedDown (k : Nat) (j : Int) : Int := if j ≥ k then j - 1 else j

/-- The entry that a removal at position `p` clears is the one that leads there, or nothing leads
there that the shift would not remove as well. -/
def Clears (partno : Node → Int) (p : Node) : Prop :=
  partno p = (p : Nat) ∨ partno p = -1 ∧ ((p : Nat) = 0 ∨ ∀ d, partno d ≠ (p : Nat))

instance (partno : Node → Int) (p : Node) : Decidable (Clears partno p) := inferInstanceAs (Decidable (_ ∨ _))

theorem getElem?_insert (us₁ us₂ : List Node) (x : Node) (i : Nat) :
    (us₁ ++ x :: us₂)[if us₁.length ≤ i then i + 1 else i]? = (us₁ ++ us₂)[i]? := by
  by_cases hi : us₁.length ≤ i
  · rw [if_pos hi, List.getElem?_append_right (by omega), List.getElem?_append_right hi,
      show i + 1 - us₁.length = i - us₁.length + 1 by omega, List.getElem?_cons_succ]
  · rw [if_neg hi, List.getElem?_append_left (by omega), List.getElem?_append_left (by omega)]

section
variable {partno : Node → Int} {m : Nat}

theorem PartialInjection.insert (h : PartialInjection partno m) (k : Nat) :
    PartialInjection (fun d => movedUp k (partno d)) (m + 1) := by
  unfold movedUp
  constructor
  · intro d
    rcases h.range d with hd | hd
    · left; rw [if_neg (by omega), hd]
    · right; split <;> omega
  · intro d e hde hp
    refine h.inj d e ?_ ?_
    · split at hde <;> split at hde <;> omega
    · split at hp <;> omega

theorem Clears.removed (h : PartialInjection partno m) {p : Node} (hc : Clears partno p) (d : Node) :
    movedDown p (Function.update partno p (-1) d) = if partno d =
      (p : Nat) then -1 else movedDown p (partno d) := by
  rw [Function.update_apply]
  unfold movedDown
  by_cases hd : d = p
  · subst hd
    rw [if_pos rfl, if_neg (by omega)]
    rcases hc with hc | hc
    · rw [if_pos hc]
    · rw [hc.1, if_neg (by omega), if_neg (by omega)]
  · rw [if_neg hd]
    by_cases hp : partno d = (p : Nat)
    · rw [if_pos hp]
      rcases hc with hc | ⟨-, h0 | hno⟩
      · exact absurd (h.inj d p (hp.trans hc.symm) (by omega)) hd
      · rw [if_pos (by omega)]; omega
      · exact absurd hp (hno d)
    · rw [if_neg hp]

theorem PartialInjection.remove (h : PartialInjection partno m) {p : Node} (hp : (p : Nat) < m)
    (hc : Clears partno p) : PartialInjection (fun d => movedDown p (Function.update partno p (-1) d)) (m - 1) := by
  constructor
  · intro d
    simp only [hc.removed h]
    unfold movedDown
    by_cases hd : partno d = (p : Nat)
    · left; rw [if_pos hd]
    · rw [if_neg hd]
      rcases h.range d with hr | hr
      · left; rw [if_neg (by omega), hr]
      · right; split <;> omega
  · intro d e hde hpos
    simp only [hc.removed h] at hde hpos
    by_cases hd : partno d = (p : Nat)
    · rw [if_pos hd] at hpos; omega
    · rw [if_neg hd] at hde hpos
      by_cases he : partno e = (p : Nat)
      · rw [if_pos he] at hde; omega
      · rw [if_neg he] at hde
        unfold movedDown at hde hpos
        refine h.inj d e ?_ ?_
        · split at hde <;> split at hde <;> omega
        · split at hpos <;> omega

end

/-! ## Members of the list -/

/-- The list holds the used partitions `us` and then the unused structures `fs`. -/
structure Members (anc : FdasdAnchor) (us fs : List Node) : Prop where
  list : IsList anc.links anc.first anc.last (us ++ fs)
  all : (us ++ fs).length = USABLE_PARTITIONS
  used : ∀ n ∈ us, (anc.info n).used = 0x01
  free : ∀ n ∈ fs, (anc.info n).used = 0x00 ∧ (anc.info n).end_trk = 0
  count : anc.used_partitions = us.length

/-- The anchors differ in their free space counters only. -/
def Recounted (a b : FdasdAnchor) : Prop :=
  ∃ (g : Nat) (h : Node → Nat), b = { a with fspace_trk := g, info := fun n => { a.info n with fspace_trk := h n } }

section
variable {anc : FdasdAnchor}

theorem Recounted.fspace (g : Nat) : Recounted anc { anc with fspace_trk := g } :=
  ⟨g, fun n => (anc.info n).fspace_trk, rfl⟩

theorem Recounted.setGap (n : Node) (g : Nat) : Recounted anc (anc.setGap n g) := by
  refine ⟨anc.fspace_trk, fun m => if m = n then g else (anc.info m).fspace_trk, ?_⟩
  unfold FdasdAnchor.setGap FdasdAnchor.upd
  congr 1
  funext m
  rw [Function.update_apply]
  by_cases hm : m = n
  · subst hm
    simp only [if_true]
  · simp only [hm, if_false]

theorem Recounted.trans {a b c : FdasdAnchor} (h : Recounted a b) (h' : Recounted b c) : Recounted a c := by
  obtain ⟨g, i, rfl⟩ := h
  obtain ⟨g', i', rfl⟩ := h'
  exact ⟨g', i', rfl⟩

theorem enqueueCounters_recounted {us ws : List Node} {x : Node}
    (h : IsList anc.links anc.first anc.last (us ++ x :: ws)) :
    ∃ anc', enqueueCounters anc x = .ok anc' ∧ Recounted anc anc' := by
  unfold enqueueCounters
  by_cases hf : anc.first = some x
  · rw [if_pos hf]
    simp only
    split
    · exact ⟨_, rfl, (Recounted.setGap _ _).trans (Recounted.fspace _)⟩
    · exact ⟨_, rfl, (Recounted.setGap _ _).trans (Recounted.fspace _)⟩
  · rw [if_neg hf]
    obtain ⟨u, hu⟩ : ∃ u, anc.links.prev x = some u := by
      rw [h.prev_eq]
      cases us with
      | nil => exact absurd h.first_eq hf
      | cons u us => exact ⟨_, List.getLast?_cons⟩
    simp only [hu, deref]
    split
    · exact ⟨_, rfl, (Recounted.setGap _ _).trans (Recounted.setGap _ _)⟩
    · exact ⟨_, rfl, (Recounted.setGap _ _).trans (Recounted.setGap _ _)⟩

theorem updateLabels_ok {geo : HdGeometry} {f4 : Format4Label} {ch : Char} {start stop : Nat} {anc' : FdasdAnchor}
    (h : updateLabels geo anc f4 ch start stop = .ok anc') : ∃ l, anc' = anc.withLabels l := by
  unfold updateLabels at h
  cases hl : freespace ⟨f4, anc.f5, anc.f7⟩ ch start stop anc.formatted_cylinders geo.heads with
  | error e => rw [hl] at h; cases h
  | ok l => rw [hl] at h; cases h; exact ⟨l, rfl⟩

end

/-- The command that led from `a` to `b` did not touch the data set labels of the nodes `us`, nor what the position
of the table of contents and the data set names depend on. -/
structure Untouched (a b : FdasdAnchor) (us : List Node) : Prop where
  label : ∀ n ∈ us, (b.info n).f1 = (a.info n).f1
  vlabel : b.vlabel = a.vlabel
  blksize : b.blksize = a.blksize

section
variable {geo : HdGeometry} {anc anc' : FdasdAnchor} {us fs : List Node}

theorem Members.fs_ne_nil (h : Members anc us fs) (hlt : us.length < USABLE_PARTITIONS) : fs ≠ [] := by
  intro hnil
  have := h.all
  rw [hnil, List.append_nil] at this
  omega

theorem Members.add (h : Members anc us fs) {today : Labeldate} {start stop : Nat} {fs' : List Node} {x : Node}
    (hfs : fs = fs' ++ [x]) (hok : addPartition geo today anc x start stop = .ok anc') :
    ∃ us₁ us₂, us = us₁ ++ us₂ ∧ Members anc' (us₁ ++ x :: us₂) fs' ∧
      anc'.partno = (fun d => movedUp us₁.length (anc.partno d)) ∧ Untouched anc anc' us := by
  subst hfs
  have hnd := h.list.nodup
  have hx : ∀ n ∈ us ++ fs', n ≠ x := by
    intro n hn
    rw [← List.append_assoc] at hnd
    exact (List.nodup_append.mp hnd).2.2 n hn x (by simp)
  -- the partitions in front of which the search does not stop
  obtain ⟨us₁, us₂, rfl, hfront, hbehind⟩ := exists_front us fun n =>
    (anc.info n).end_trk = 0 ∨ start < (anc.info n).start_trk
  have hother : ∀ n, n ≠ x → (anc.upd x (newPartition geo today anc start stop)).info n =
    anc.info n := fun n hn => by
    rw [upd_info, if_neg hn]
  have hself : ((anc.upd x (newPartition geo today anc start stop)).info x).start_trk = start := by
    rw [upd_info, if_pos rfl]; rfl
  have hlist : IsList anc.links anc.first anc.last (us₁ ++ ((us₂ ++ fs') ++ [x])) := by
    have := h.list
    simpa only [List.append_assoc] using this
  obtain ⟨L, hL, henq⟩ := @enqueue_eq (anc.upd x (newPartition geo today anc start stop)) us₁ (us₂ ++ fs') x hlist
    (by have := h.all; simpa only [List.append_assoc] using this)
    (fun n hn => by
      rw [hother n (hx n (by simp [hn])), hself]
      exact hfront n hn)
    (fun n hn => by
      have hmem : n ∈ us₂ ++ fs' := List.mem_of_head? hn
      rw [hother n (hx n (by simp only [List.mem_append] at hmem ⊢; tauto)), hself]
      cases us₂ with
      | nil => exact Or.inl (h.free n (List.mem_append_left _ (List.mem_of_head? hn))).2
      | cons u us₂ => exact hbehind n hn)
  obtain ⟨anc₁, hcnt, g, gs, hrec⟩ := @enqueueCounters_recounted
    (queued (anc.upd x (newPartition geo today anc start stop)) L us₁ (us₂ ++ fs') x) us₁ (us₂ ++ fs') x hL
  have hq : ∀ n, (queued (anc.upd x (newPartition geo today anc start stop)) L us₁ (us₂ ++ fs') x).info n =
      if n = x then { newPartition geo today anc start stop (anc.info x) with used := 0x01 } else anc.info n :=
    queued_info _ L
  unfold addPartition at hok
  simp only at hok
  rw [bind_ok (henq.trans hcnt)] at hok
  obtain ⟨l, rfl⟩ := updateLabels_ok hok
  have hinfo : ∀ n, n ≠ x → (anc₁.info n).used = (anc.info n).used ∧ (anc₁.info n).end_trk = (anc.info n).end_trk ∧
      (anc₁.info n).f1 = (anc.info n).f1 := by
    intro n hn
    rw [hrec]
    simp only [hq, if_neg hn, and_self]
  refine ⟨us₁, us₂, rfl, ⟨?_, ?_, fun n hn => ?_, fun n hn => ?_, ?_⟩, ?_, fun n hn => ?_, ?_, ?_⟩
  · have hys : us₁ ++ x :: us₂ ++ fs' = us₁ ++ x :: (us₂ ++ fs') := by simp
    rw [hrec, hys]
    exact hL
  · have := h.all
    simp only [List.length_append, List.length_cons, List.length_nil] at this ⊢
    omega
  · show (anc₁.info n).used = 0x01
    by_cases hnx : n = x
    · rw [hrec]
      simp only [hq, if_pos hnx]
    · have hm : n ∈ us₁ ++ us₂ := by simp only [List.mem_append, List.mem_cons] at hn ⊢; tauto
      rw [(hinfo n hnx).1, h.used n hm]
  · show (anc₁.info n).used = 0x00 ∧ (anc₁.info n).end_trk = 0
    have hnx := hx n (List.mem_append_right _ hn)
    rw [(hinfo n hnx).1, (hinfo n hnx).2.1]
    exact h.free n (List.mem_append_left _ hn)
  · have hle := h.all
    have hc := h.count
    rw [hrec]
    show u32 ((anc.used_partitions + 1 : Nat) : Int) = (us₁ ++ x :: us₂).length
    simp only [List.length_append, List.length_cons, USABLE_PARTITIONS, DASD_PARTN_BITS] at hle hc ⊢
    unfold u32; omega
  · rw [hrec]; rfl
  · exact (hinfo n (hx n (List.mem_append_left _ hn))).2.2
  · rw [hrec]; rfl
  · rw [hrec]; rfl

theorem Members.remove {us₁ us₂ : List Node} {x : Node} (h : Members anc (us₁ ++ x :: us₂) fs) {p : Node}
    (hp : p.val = us₁.length) (hok : fdasd_remove_partition geo anc (us₁.length + 1) = .ok anc') :
    Members anc' (us₁ ++ us₂) (fs ++ [x]) ∧
      anc'.partno = (fun d => movedDown p (Function.update anc.partno p (-1) d)) ∧
        Untouched anc anc' (us₁ ++ us₂) := by
  have hall := h.all
  have hcount := h.count
  simp only [List.length_append, List.length_cons, USABLE_PARTITIONS, DASD_PARTN_BITS, Nat.reduceShiftLeft,
    Nat.reduceSub] at hall hcount
  have hlist : IsList anc.links anc.first anc.last (us₁ ++ x :: (us₂ ++ fs)) := by
    simpa only [List.append_assoc, List.cons_append] using h.list
  have hx : ∀ n ∈ us₁ ++ us₂ ++ fs, n ≠ x := by
    intro n hn he
    subst he
    have hp : (us₁ ++ n :: (us₂ ++ fs)).Perm (n :: (us₁ ++ us₂ ++ fs)) := by simp
    exact (List.nodup_cons.mp (hp.nodup_iff.mp hlist.nodup)).1 hn
  obtain ⟨L, hL, heq⟩ := dequeue_removed hlist (by
    by_contra hn
    simp only [not_or, not_not, List.append_eq_nil_iff] at hn
    rw [hn.1, hn.2.1, hn.2.2] at hall
    simp at hall) (clearedPartno anc p)
  have hnode : nodeAt (setpos anc p (-1)) us₁.length (setpos anc p (-1)).first = .ok x := by
    rw [show (setpos anc p (-1)).first = anc.first from rfl, hlist.first_eq]
    exact nodeAt_eq hlist.seg (by simp)
  have hpid : (⟨us₁.length + 1 - 1, by rw [Nat.add_sub_cancel, ← hp]; exact p.isLt⟩ : Node) = p :=
    Fin.ext (by simp [hp])
  unfold fdasd_remove_partition at hok
  rw [if_neg (by omega), dif_pos (by rw [Nat.add_sub_cancel, ← hp]; exact p.isLt)] at hok
  simp only [hpid] at hok
  simp only [Nat.add_sub_cancel] at hok
  rw [bind_ok hnode, bind_ok (show fdasd_dequeue_old_partition (setpos anc p (-1)) x us₁.length =
    _ from heq)] at hok
  obtain ⟨l, rfl⟩ := updateLabels_ok hok
  have hinfo : ∀ n, n ≠ x → (removedInfo anc us₁ x n).used = (anc.info n).used ∧
      (removedInfo anc us₁ x n).end_trk = (anc.info n).end_trk ∧ (removedInfo anc us₁ x n).f1 =
        (anc.info n).f1 := by
    intro n hn
    unfold removedInfo
    rw [if_neg hn]
    split <;> exact ⟨rfl, rfl, rfl⟩
  refine ⟨⟨?_, ?_, fun n hn => ?_, fun n hn => ?_, ?_⟩, ?_, fun n hn => ?_, rfl, rfl⟩
  · have : us₁ ++ us₂ ++ (fs ++ [x]) = us₁ ++ (us₂ ++ fs) ++ [x] := by simp
    rw [this]; exact hL
  · simp only [List.length_append, List.length_cons, List.length_nil, USABLE_PARTITIONS, DASD_PARTN_BITS,
      Nat.reduceShiftLeft, Nat.reduceSub]
    omega
  · show (removedInfo anc us₁ x n).used = 0x01
    rw [(hinfo n (hx n (List.mem_append_left _ hn))).1]
    exact h.used n (by simp only [List.mem_append, List.mem_cons] at hn ⊢; tauto)
  · show (removedInfo anc us₁ x n).used = 0x00 ∧ (removedInfo anc us₁ x n).end_trk = 0
    by_cases hnx : n = x
    · unfold removedInfo
      rw [if_pos hnx]
      exact ⟨rfl, rfl⟩
    · have hm : n ∈ fs := by simpa [hnx] using hn
      rw [(hinfo n hnx).1, (hinfo n hnx).2.1]
      exact h.free n hm
  · show u32 ((anc.used_partitions : Int) - 1) = _
    simp only [List.length_append]
    unfold u32; omega
  · funext d
    show (if clearedPartno anc p d ≥ us₁.length then clearedPartno anc p d - 1 else clearedPartno anc p d) = _
    rw [← hp]; rfl
  · exact (hinfo n (hx n (List.mem_append_left _ hn))).2.2

end

/-! ## Writing -/

theorem namePartition_links {s s' : WriteState} {n : Node} (h : namePartition s n = .ok s') :
    s'.anc.links = s.anc.links := by
  unfold namePartition at h
  simp only at h
  split at h
  · obtain ⟨ch, -, h⟩ := bind_eq_ok h
    cases h; rfl
  · obtain ⟨k, -, h⟩ := bind_eq_ok h
    obtain ⟨ch, -, h⟩ := bind_eq_ok h
    cases h; rfl

theorem writePartition_links {geo : HdGeometry} {s s' : WriteState} {n : Node}
    (h : writePartition geo s n = .ok s') :
    s'.anc.links = s.anc.links := by
  unfold writePartition at h
  split at h
  · cases h; rfl
  · obtain ⟨s₁, h₁, h⟩ := bind_eq_ok h
    cases h
    refine Eq.trans ?_ (namePartition_links h₁)
    unfold storePartition
    simp only
    split <;> rfl

section
variable {geo : HdGeometry} {anc : FdasdAnchor} {us fs : List Node}

theorem writePartition_unused : ∀ {fs : List Node} {s : WriteState}, (∀ n ∈ fs, (s.anc.info n).used ≠ 0x01) →
    fs.foldlM (writePartition geo) s = .ok s
  | [], _, _ => rfl
  | n :: fs, s, h => by
    have hn : writePartition geo s n = .ok s := if_pos (h n (List.mem_cons_self ..))
    rw [List.foldlM_cons, bind_ok hn]
    exact writePartition_unused fun m hm => h m (List.mem_cons_of_mem _ hm)

/-- Every partition with a number has a name with this number. -/
def AllNamed (anc : FdasdAnchor) (us : List Node) : Prop :=
  ∀ (i : Nat) (n d : Node), us[i]? = some n → anc.partno d = i → ∃ w, NamedLabel (anc.info n) w (d + 1)

def writeStart (geo : HdGeometry) (anc : FdasdAnchor) (vol : Volume) : WriteState :=
  ⟨anc, (writeHeader anc vol (vtocStart geo anc)).1, (writeHeader anc vol (vtocStart geo anc)).2, 0, 0⟩

theorem Members.write (h : Members anc us fs) {w : List UInt8} (hw : Serial w)
    (hv : anc.vlabel.volid = serialField w) (hinj : PartialInjection anc.partno us.length)
      (hnamed : AllNamed anc us)
    (hstart : vtocStart geo anc ≠ 0) (vol : Volume) :
    ∃ s', fdasd_write_vtoc_labels geo anc vol =
        .ok (s'.anc, writeEmpty anc.blksize s'.vol s'.blk (vtocStart geo anc + anc.blksize * 9) 9) ∧
      WriteRun w us.length (writeStart geo anc vol) s' us := by
  have hall := h.all
  rw [List.length_append] at hall
  obtain ⟨s', hs', hrun⟩ := write_run geo (s := writeStart geo anc vol) ⟨hw, hv, hinj, by omega, Nat.zero_add _,
    (List.nodup_append.mp h.list.nodup).1, h.used, Nat.zero_le _, fun e he => absurd he (Nat.not_lt_zero _),
    fun j n d hj hd => hnamed j n d hj (by simpa [writeStart] using hd)⟩
  refine ⟨s', ?_, hrun⟩
  have hfold : (us ++ fs).foldlM (writePartition geo) (writeStart geo anc vol) = .ok s' := by
    rw [List.foldlM_append, bind_ok hs']
    refine writePartition_unused fun n hn => ?_
    have hnu : n ∉ us := fun hu => (List.nodup_append.mp h.list.nodup).2.2 n hu n hn rfl
    rw [hrun.others n hnu, show (writeStart geo anc vol).anc.info n = anc.info n from rfl, (h.free n hn).1]
    decide
  have hloop : forNodes (fun s : WriteState => s.anc.links.next) (writePartition geo) USABLE_PARTITIONS
      (writeStart geo anc vol) anc.first = (us ++ fs).foldlM (writePartition geo) (writeStart geo anc vol) := by
    rw [h.list.first_eq]
    exact forNodes_eq (fun s n s' hs hb => (congrArg Links.next (writePartition_links hb)).trans hs) _ h.list.seg
      (by rw [h.all]) rfl
  unfold fdasd_write_vtoc_labels
  simp only
  rw [if_neg hstart]
  exact bind_ok (hloop.trans hfold) _

end

end Fdasd
