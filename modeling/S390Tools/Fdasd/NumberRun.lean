import S390Tools.Lib.Run
import S390Tools.Fdasd.Rebuild
import S390Tools.Fdasd.Positions
import S390Tools.Fdasd.Reread

/-!
# Data set numbers in sessions of fdasd

A session reads a table of contents and adds, removes and writes partitions. Next
to the state it records the data set number each partition was read with. As long
as every removal clears the right number, the partitions keep theirs.
-/

namespace Fdasd

open Word Vtoc CString DList

/-- The data set number `d` leads to the node `n`. -/
def Leads (anc : FdasdAnchor) (d n : Node) : Prop :=
  0 ≤ anc.partno d ∧ nodeAt anc (anc.partno d).toNat anc.first = .ok n

instance (anc : FdasdAnchor) (d n : Node) : Decidable (Leads anc d n) := inferInstanceAs (Decidable (_ ∧ _))

/-- `read` holds the number that the partition in a node was read with, until it is removed. -/
structure Session where
  anc : FdasdAnchor
  vol : Volume
  read : Node → Option Node

def Session.start (anc : FdasdAnchor) (vol : Volume) : Session :=
  ⟨anc, vol, fun n => (List.finRange USABLE_PARTITIONS).find? fun d => Leads anc d n⟩

inductive Command
  | add (today : Labeldate) (start stop : Nat)
  | remove (part_id : Nat)
  | write

def Session.forget (s : Session) (part_id : Nat) : Node → Option Node :=
  if part_id = 0 ∨ part_id > s.anc.used_partitions then s.read
  else
    match nodeAt s.anc (part_id - 1) s.anc.first with
    | .ok n => Function.update s.read n none
    | .error _ => s.read

def Session.step (geo : HdGeometry) (s : Session) : Command → Option Session
  | .add today start stop =>
    (fdasd_add_partition geo today (fun _ => .ok (some (start, stop))) s.anc).toOption.map fun anc =>
      { s with anc := anc }
  | .remove part_id =>
    (fdasd_remove_partition geo s.anc part_id).toOption.map fun anc =>
      { s with anc := anc, read := s.forget part_id }
  | .write =>
    (fdasd_write_vtoc_labels geo s.anc s.vol).toOption.map fun r => { s with anc := r.1, vol := r.2 }

/-- A removal clears the number of the partition it removes. -/
def Fine (s : Session) : Command → Prop
  | .remove part_id => part_id = 0 ∨ part_id > s.anc.used_partitions ∨
      ∃ h : part_id - 1 < USABLE_PARTITIONS, Clears s.anc.partno ⟨part_id - 1, h⟩
  | _ => True

instance (s : Session) : ∀ c, Decidable (Fine s c)
  | .add _ _ _ => isTrue trivial
  | .remove _ => inferInstanceAs (Decidable (_ ∨ _ ∨ _))
  | .write => isTrue trivial

def partDigits (dsname : List UInt8) : Option (List UInt8) :=
  (strchr (dsname.drop 7) 0x2e).map fun c => ((dsname.drop (7 + c)).drop 5).take 4

def DistinctNames (anc : FdasdAnchor) : Prop :=
  ∀ n m, n ≠ m → (anc.info n).used = 0x01 → (anc.info m).used = 0x01 →
    partDigits (vtoc_ebcdic_dec (anc.info n).f1.DS1DSNAM) ≠ partDigits (vtoc_ebcdic_dec (anc.info m).f1.DS1DSNAM)

/-- The numbers of the partitions in a session: those read from disk are kept, no two of them lead to
the same partition, each leads to one in use, and writing ends with distinct names. -/
structure KeepsNumbers (geo : HdGeometry) (s : Session) : Prop where
  read : ∀ n d, s.read n = some d → Leads s.anc d n
  used : ∀ d, s.anc.partno d = -1 ∨ ∃ n, Leads s.anc d n ∧ (s.anc.info n).used = 0x01
  inj : ∀ d e, s.anc.partno d = s.anc.partno e → 0 ≤ s.anc.partno d → d = e
  write : ∃ anc vol, fdasd_write_vtoc_labels geo s.anc s.vol = .ok (anc, vol) ∧ DistinctNames anc

/-- The invariant behind it, in terms of the list of used partitions. -/
structure Numbered (geo : HdGeometry) (s : Session) (us fs : List Node) : Prop where
  members : Members s.anc us fs
  inj : PartialInjection s.anc.partno us.length
  named : AllNamed s.anc us
  read : ∀ n d, s.read n = some d → ∃ i : Nat, us[i]? = some n ∧ s.anc.partno d = i
  serial : ∃ w, Serial w ∧ s.anc.vlabel.volid = serialField w
  start : vtocStart geo s.anc ≠ 0

section
variable {geo : HdGeometry} {s : Session} {us fs : List Node}

theorem Named.partDigits {ch w : List UInt8} {d : Node} (h : Named ch w (d + 1)) :
    partDigits ch = some (decimal4 (d + 1)) := by
  obtain ⟨t, rfl⟩ := h.head
  have hk := (kept_part h.serial d t).1
  have hdrop : (nameHead w (d + 1) ++ t).drop 7 = w ++ (bytes ".PART" ++ decimal4 (d + 1)) ++ t := by
    have hname : nameHead w (d + 1) ++ t = bytes "LINUX.V" ++ (w ++ (bytes ".PART" ++ decimal4 (d + 1)) ++ t) := by
      simp only [nameHead, List.append_assoc]
    rw [hname, ← linux_length, List.drop_left]
  have hP : (bytes ".PART").length = 5 := by decide
  have h4 : (decimal4 (d + 1)).length = 4 := rfl
  unfold Fdasd.partDigits
  rw [hdrop, hk, Option.map_some, ← List.drop_drop, hdrop, List.append_assoc, List.drop_left, List.append_assoc,
    ← hP, List.drop_left, ← h4, List.take_left]

theorem decimal4_inj (d e : Node) (h : decimal4 (d + 1) = decimal4 (e + 1)) : d = e := by
  revert d e; decide

theorem Members.leads {anc : FdasdAnchor} (h : Members anc us fs) {i : Nat} {n d : Node} (hn : us[i]? = some n)
    (hd : anc.partno d = i) : Leads anc d n := by
  have hlt := (List.getElem?_eq_some_iff.mp hn).1
  refine ⟨by omega, ?_⟩
  rw [hd, Int.toNat_natCast, h.list.first_eq]
  exact nodeAt_eq h.list.seg (by rw [List.getElem?_append_left hlt]; exact hn)

theorem Members.mem {anc : FdasdAnchor} (h : Members anc us fs) {n : Node}
    (hu : (anc.info n).used = 0x01) : n ∈ us := by
  have hc : (us ++ fs).toFinset.card = Fintype.card Node := by
    rw [List.toFinset_card_of_nodup h.list.nodup, h.all, Fintype.card_fin]
  have hn : n ∈ (us ++ fs).toFinset := by
    rw [Finset.eq_univ_of_card _ hc]; exact Finset.mem_univ n
  rcases List.mem_append.mp (List.mem_toFinset.mp hn) with hn | hn
  · exact hn
  · have := (h.free n hn).1
    rw [hu] at this
    cases this

theorem Numbered.write (h : Numbered geo s us fs) :
    ∃ anc vol, fdasd_write_vtoc_labels geo s.anc s.vol = .ok (anc, vol) ∧ DistinctNames anc ∧
      Numbered geo { s with anc := anc, vol := vol } us fs := by
  obtain ⟨w, hw, hv⟩ := h.serial
  obtain ⟨s', hok, hrun⟩ := h.members.write hw hv h.inj h.named h.start s.vol
  have hm : Members s'.anc us fs := by
    have hf := hrun.frame
    refine ⟨?_, h.members.all, fun n hn => ?_, fun n hn => ?_, ?_⟩
    · rw [hf]; exact h.members.list
    · rw [(hrun.same n).used]; exact h.members.used n hn
    · rw [(hrun.same n).used, (hrun.same n).end_trk]; exact h.members.free n hn
    · rw [hf]; exact h.members.count
  have hnum : ∀ (i : Nat) n, us[i]? = some n →
      ∃ d : Node, s'.anc.partno d = i ∧ NamedLabel (s'.anc.info n) w (d + 1) := fun i n hn => by
    obtain ⟨d, hd, hnd⟩ := hrun.named i n hn
    exact ⟨d, by simpa [writeStart] using hd, hnd⟩
  refine ⟨s'.anc, _, hok, fun n m hnm hn hm' hdig => ?_, hm, hrun.inj,
    fun i n d hi hd => ?_, fun n d hr => ?_, ⟨w, hw, ?_⟩, ?_⟩
  · obtain ⟨i, hi⟩ := List.mem_iff_getElem?.mp (hm.mem hn)
    obtain ⟨j, hj⟩ := List.mem_iff_getElem?.mp (hm.mem hm')
    obtain ⟨d, hd, hnd⟩ := hnum i n hi
    obtain ⟨e, he, hne⟩ := hnum j m hj
    rw [Named.partDigits hnd, Named.partDigits hne, Option.some.injEq] at hdig
    have hde := decimal4_inj d e hdig
    rw [hde, he] at hd
    rw [Nat.cast_inj.mp hd, hi] at hj
    exact hnm (Option.some.inj hj)
  · obtain ⟨e, he, hne⟩ := hnum i n hi
    have hde : d = e := hrun.inj.inj d e (hd.trans he.symm) (by rw [hd]; omega)
    exact ⟨w, hde ▸ hne⟩
  · obtain ⟨i, hi, hd⟩ := h.read n d hr
    refine ⟨i, hi, ?_⟩
    exact (hrun.keep d (by show 0 ≤ s.anc.partno d; rw [hd]; omega)).trans hd
  · rw [hrun.frame]; exact hv
  · have : vtocStart geo s'.anc = vtocStart geo s.anc := by rw [hrun.frame]; rfl
    rw [this]; exact h.start

theorem Numbered.keepsNumbers (h : Numbered geo s us fs) : KeepsNumbers geo s := by
  obtain ⟨anc, vol, hok, hd, -⟩ := h.write
  refine ⟨fun n d hr => ?_, fun d => ?_, h.inj.inj, anc, vol, hok, hd⟩
  · obtain ⟨i, hi, hd⟩ := h.read n d hr
    exact h.members.leads hi hd
  · rcases h.inj.range d with hd | ⟨h₀, hlt⟩
    · exact Or.inl hd
    · right
      have hi : us[(s.anc.partno d).toNat]? = some us[(s.anc.partno d).toNat] := List.getElem?_eq_getElem (by omega)
      exact ⟨_, h.members.leads hi (by omega), h.members.used _ (List.getElem_mem ..)⟩

/-! ## Steps -/

theorem Untouched.named {a b : FdasdAnchor} (h : Untouched a b us) {n : Node} (hn : n ∈ us)
    {w : List UInt8} {no : Nat} :
    NamedLabel (b.info n) w no ↔ NamedLabel (a.info n) w no := by
  unfold NamedLabel
  rw [h.label n hn]

theorem Untouched.start {a b : FdasdAnchor} (h : Untouched a b us) : vtocStart geo b = vtocStart geo a := by
  unfold vtocStart
  rw [h.vlabel, h.blksize]

theorem Numbered.add (h : Numbered geo s us fs) {today : Labeldate} {start stop : Nat} {s' : Session}
    (hs : s.step geo (.add today start stop) = some s') : ∃ us fs, Numbered geo s' us fs := by
  obtain ⟨anc', hok, rfl⟩ := Option.map_eq_some_iff.mp hs
  simp only [fdasd_add_partition, fdasd_get_empty_f1_label, h.members.count] at hok
  by_cases hlt : us.length < USABLE_PARTITIONS
  · obtain ⟨fs', x, rfl⟩ := (List.eq_nil_or_concat' fs).resolve_left (h.members.fs_ne_nil hlt)
    have hlast : s.anc.last = some x := by rw [h.members.list.last_eq]; simp
    rw [if_pos hlt, hlast] at hok
    simp only at hok
    cases hadd : addPartition geo today s.anc x start stop with
    | error e => rw [hadd] at hok; cases hok
    | ok a =>
      rw [hadd] at hok
      obtain rfl : a = anc' := Option.some.inj hok
      obtain ⟨us₁, us₂, rfl, hm, hp, hu⟩ := h.members.add rfl hadd
      refine ⟨us₁ ++ x :: us₂, fs', hm, ?_, fun i n d hi hd => ?_, fun n d hr => ?_, ?_, ?_⟩
      · have := h.inj.insert us₁.length
        simp only [List.length_append, List.length_cons] at this ⊢
        rw [hp]
        exact this
      · -- no number leads to the new partition
        simp only [hp, movedUp] at hd
        obtain ⟨j, rfl, hj⟩ : ∃ j : Nat, i = (if us₁.length ≤ j then j + 1 else j) ∧ s.anc.partno d = j := by
          by_cases hle : s.anc.partno d ≥ us₁.length
          · rw [if_pos hle] at hd
            exact ⟨i - 1, by rw [if_pos (by omega)]; omega, by omega⟩
          · rw [if_neg hle] at hd
            exact ⟨i, by rw [if_neg (by omega)], hd⟩
        rw [getElem?_insert] at hi
        obtain ⟨w, hw⟩ := h.named j n d hi hj
        exact ⟨w, (hu.named (List.mem_of_getElem? hi)).mpr hw⟩
      · obtain ⟨i, hi, hd⟩ := h.read n d hr
        refine ⟨if us₁.length ≤ i then i + 1 else i, by rw [getElem?_insert]; exact hi, ?_⟩
        simp only [hp, movedUp, hd]
        split <;> split <;> omega
      · rw [hu.vlabel]; exact h.serial
      · rw [hu.start]; exact h.start
  · rw [if_neg hlt] at hok
    obtain rfl : s.anc = anc' := Option.some.inj hok
    exact ⟨us, fs, h⟩

theorem Numbered.remove (h : Numbered geo s us fs) {part_id : Nat} (hf : Fine s (.remove part_id)) {s' : Session}
    (hs : s.step geo (.remove part_id) = some s') : ∃ us fs, Numbered geo s' us fs := by
  obtain ⟨anc', hok, rfl⟩ := Option.map_eq_some_iff.mp hs
  by_cases hid : part_id = 0 ∨ part_id > s.anc.used_partitions
  · rw [fdasd_remove_partition, if_pos hid] at hok
    obtain rfl : s.anc = anc' := Option.some.inj hok
    have hforget : s.forget part_id = s.read := if_pos hid
    rw [hforget]
    exact ⟨us, fs, h⟩
  · obtain ⟨hp, hclears⟩ := (hf.resolve_left fun h0 => hid (Or.inl h0)).resolve_left fun h0 => hid (Or.inr h0)
    have hlt : part_id - 1 < us.length := by have := h.members.count; omega
    obtain ⟨us₁, x, us₂, rfl, hlen⟩ : ∃ us₁ x us₂, us = us₁ ++ x :: us₂ ∧ us₁.length = part_id - 1 :=
      ⟨us.take (part_id - 1), us[part_id - 1], us.drop (part_id - 1 + 1), by
        rw [List.getElem_cons_drop, List.take_append_drop], by rw [List.length_take]; omega⟩
    obtain ⟨p, hpv⟩ : ∃ p : Node, p = ⟨part_id - 1, hp⟩ := ⟨_, rfl⟩
    have hpl : p.val = us₁.length := by rw [hpv, hlen]
    rw [← hpv] at hclears
    have hpid : part_id = us₁.length + 1 := by omega
    have hnode : nodeAt s.anc (part_id - 1) s.anc.first = .ok x := by
      rw [h.members.list.first_eq, ← hlen]
      exact nodeAt_eq h.members.list.seg (by simp)
    have hforget : s.forget part_id = Function.update s.read x none := by
      unfold Session.forget
      rw [if_neg hid, hnode]
    rw [hforget]
    cases hrm : fdasd_remove_partition geo s.anc part_id with
    | error e => rw [hrm] at hok; cases hok
    | ok a =>
      rw [hrm] at hok
      obtain rfl : a = anc' := Option.some.inj hok
      rw [hpid] at hrm
      obtain ⟨hm, hpart, hu⟩ := h.members.remove hpl hrm
      have hpos : ∀ d, a.partno d = if s.anc.partno d = (p : Nat) then -1 else movedDown p (s.anc.partno d) := by
        intro d
        rw [hpart]
        exact hclears.removed h.inj d
      refine ⟨us₁ ++ us₂, fs ++ [x], hm, ?_, fun i n d hi hd => ?_, fun n d hr => ?_, ?_, ?_⟩
      · have := h.inj.remove (p := p) (by rw [hpl]; simp) hclears
        simp only [List.length_append, List.length_cons] at this ⊢
        rw [hpart]
        exact this
      · have hj : s.anc.partno d = ((if us₁.length ≤ i then i + 1 else i : Nat) : Int) := by
          rw [hpos] at hd
          unfold movedDown at hd
          by_cases hdp : s.anc.partno d = (p : Nat)
          · rw [if_pos hdp] at hd; omega
          · rw [if_neg hdp] at hd
            split at hd <;> split <;> omega
        obtain ⟨w, hw⟩ := h.named _ n d (by rw [getElem?_insert]; exact hi) hj
        exact ⟨w, (hu.named (List.mem_of_getElem? hi)).mpr hw⟩
      · have hnx : n ≠ x := by
          intro hnx
          simp only [hnx, Function.update_self] at hr
          cases hr
        replace hr : Function.update s.read x none n = some d := hr
        rw [Function.update_of_ne hnx] at hr
        obtain ⟨i, hi, hd⟩ := h.read n d hr
        have hip : i ≠ us₁.length := by
          intro he
          rw [he, List.getElem?_append_right (le_refl _), Nat.sub_self] at hi
          exact hnx (Option.some.inj hi).symm
        obtain ⟨j, rfl⟩ : ∃ j, i = if us₁.length ≤ j then j + 1 else j := by
          by_cases hle : i < us₁.length
          · exact ⟨i, by rw [if_neg (by omega)]⟩
          · exact ⟨i - 1, by rw [if_pos (by omega)]; omega⟩
        rw [getElem?_insert] at hi
        refine ⟨j, hi, ?_⟩
        rw [hpos, hd, if_neg (by omega)]
        unfold movedDown
        split <;> split <;> omega
      · rw [hu.vlabel]; exact h.serial
      · rw [hu.start]; exact h.start

theorem Numbered.step (h : Numbered geo s us fs) {c : Command} (hf : Fine s c) {s' : Session}
    (hs : s.step geo c = some s') : ∃ us fs, Numbered geo s' us fs := by
  cases c with
  | add today start stop => exact h.add hs
  | remove part_id => exact h.remove hf hs
  | write =>
    obtain ⟨anc, vol, hok, -, hn⟩ := h.write
    simp only [Session.step, hok, Except.toOption, Option.map_some, Option.some.injEq] at hs
    exact ⟨us, fs, hs ▸ hn⟩

end

/-! ## Reading -/

/-- A table of contents whose partitions carry distinct numbers in names of fdasd's form, with the
order and the count that reading relies on. -/
structure Legible (geo : HdGeometry) (f4 : Format4Label) (ls : List Format1Label) : Prop where
  length : ls.length ≤ USABLE_PARTITIONS
  count : f4.DS4DSREC + 2 + ls.length = geo.sectors
  named : ∀ l ∈ ls, ∃ (w : List UInt8) (d : Node), Named (vtoc_ebcdic_dec l.DS1DSNAM) w (d + 1) ∧
    labelNumber l = (d : Nat)
  distinct : (ls.map labelNumber).Nodup
  ordered : Ordered ls

theorem setNumbers_of_notMem {d : Node} : ∀ {nos : List Int} {partno : Node → Int} {j : Nat}, (d : Int) ∉ nos →
    setNumbers partno nos j d = partno d
  | [], _, _, _ => rfl
  | no :: nos, partno, j, h => by
    simp only [List.mem_cons, not_or] at h
    rw [setNumbers, setNumbers_of_notMem h.2]
    split
    · refine Function.update_of_ne ?_ _ _
      intro he
      have := congrArg Fin.val he
      simp only at this
      omega
    · rfl

theorem setNumbers_getElem {d : Node} : ∀ {nos : List Int} {partno : Node → Int} {i j : Nat}, nos.Nodup →
    nos[i]? = some (d : Int) → setNumbers partno nos j d = (j + i : Nat)
  | no :: nos, partno, 0, j, hnd, h => by
    obtain rfl : no = (d : Nat) := by simpa using h
    have hd := d.isLt
    rw [setNumbers, setNumbers_of_notMem (List.nodup_cons.mp hnd).1, dif_pos ⟨by omega, by omega⟩]
    simp
  | no :: nos, partno, i + 1, j, hnd, h => by
    rw [setNumbers, setNumbers_getElem (List.nodup_cons.mp hnd).2 (by simpa using h)]
    congr 1; omega

theorem Ordered.recode {ls : List Format1Label} (h : Ordered ls) : Ordered (ls.map recode) :=
  List.pairwise_map.mpr h

theorem Legible.numbers {geo : HdGeometry} {f4 : Format4Label} {ls : List Format1Label} (h : Legible geo f4 ls)
    (i : Nat) (d : Node) :
    setNumbers (fun _ => -1) (ls.map labelNumber) 0 d = i ↔ (ls.map labelNumber)[i]? = some (d : Int) := by
  constructor
  · intro hi
    by_cases hd : (d : Int) ∈ ls.map labelNumber
    · obtain ⟨j, hj⟩ := List.mem_iff_getElem?.mp hd
      rw [setNumbers_getElem h.distinct hj] at hi
      obtain rfl : j = i := by omega
      exact hj
    · rw [setNumbers_of_notMem hd] at hi
      omega
  · intro hi
    rw [setNumbers_getElem h.distinct hi, Nat.zero_add]

theorem Legible.range {geo : HdGeometry} {f4 : Format4Label} {ls : List Format1Label} (h : Legible geo f4 ls)
    (d : Node) : setNumbers (fun _ => -1) (ls.map labelNumber) 0 d = -1 ∨
      ∃ i : Nat, i < ls.length ∧ setNumbers (fun _ => -1) (ls.map labelNumber) 0 d = i := by
  by_cases hd : (d : Int) ∈ ls.map labelNumber
  · obtain ⟨i, hi⟩ := List.mem_iff_getElem?.mp hd
    refine Or.inr ⟨i, ?_, (h.numbers i d).mpr hi⟩
    have := (List.getElem?_eq_some_iff.mp hi).1
    rwa [List.length_map] at this
  · exact Or.inl (setNumbers_of_notMem hd)

section
variable {geo : HdGeometry} {anc anc₀ : FdasdAnchor} {xs : List Node} {vol : Volume} {ls : List Format1Label}

theorem Reread.numbered (hc : Clear anc xs) (hr : Reread geo anc anc₀ xs ls) (hleg : Legible geo anc.f4 ls)
    (hs : ∃ w, Serial w ∧ anc.vlabel.volid = serialField w) (hstart : vtocStart geo anc ≠ 0) (vol : Volume) :
    Numbered geo (.start anc₀ vol) (xs.take ls.length) (xs.drop ls.length) ∧
      ∀ n ∈ xs.take ls.length, (Session.start anc₀ vol).read n ≠ none := by
  have hsort : sortLabels (ls.map recode) = ls.map recode := sortLabels_ordered hleg.ordered.recode
  have hle : ls.length ≤ xs.length := by rw [hc.all]; exact hleg.length
  have hf := hr.frame
  have hpart : anc₀.partno = setNumbers (fun _ => -1) (ls.map labelNumber) 0 := by rw [hf]
  have hus : ∀ (i : Nat) n, (xs.take ls.length)[i]? = some n → ∃ l, ls[i]? = some l ∧ (anc₀.info n).used = 0x01 ∧
      (anc₀.info n).f1 = recode l := by
    intro i n hi
    have hlt := (List.getElem?_eq_some_iff.mp hi).1
    rw [List.length_take] at hlt
    rw [List.getElem?_take_of_lt (by omega)] at hi
    obtain ⟨l, hl⟩ : ∃ l, ls[i]? = some l := ⟨_, List.getElem?_eq_getElem (by omega)⟩
    have := hr.read i n (recode l) hi (by rw [hsort, List.getElem?_map, hl]; rfl)
    refine ⟨l, hl, ?_⟩
    rw [this]
    exact ⟨rfl, rfl⟩
  have hm : Members anc₀ (xs.take ls.length) (xs.drop ls.length) := by
    refine ⟨?_, ?_, fun n hn => ?_, fun n hn => ?_, ?_⟩
    · rw [List.take_append_drop, hf]; exact hc.list
    · rw [List.take_append_drop]; exact hc.all
    · obtain ⟨i, hi⟩ := List.mem_iff_getElem?.mp hn
      obtain ⟨l, -, hu, -⟩ := hus i n hi
      exact hu
    · rw [hr.others n hn]
      exact ⟨rfl, rfl⟩
    · have h₁ := hleg.count
      have h₂ := hleg.length
      rw [hf, List.length_take]
      show u32 _ = _
      simp only [USABLE_PARTITIONS, DASD_PARTN_BITS] at h₂
      unfold u32; omega
  refine ⟨⟨hm, ⟨fun d => ?_, fun d e hde hd => ?_⟩, fun i n d hi hd => ?_, fun n d hrd => ?_, ?_,
    ?_⟩, fun n hn => ?_⟩
  · rw [show (Session.start anc₀ vol).anc.partno = anc₀.partno from rfl, hpart]
    rcases hleg.range d with h | ⟨i, hi, h⟩
    · exact Or.inl h
    · right
      rw [h, List.length_take]
      omega
  · rw [show (Session.start anc₀ vol).anc.partno = anc₀.partno from rfl, hpart] at hde hd
    rcases hleg.range d with h | ⟨i, -, h⟩
    · omega
    · have h₁ := (hleg.numbers i d).mp h
      have h₂ := (hleg.numbers i e).mp (hde.symm.trans h)
      rw [h₁, Option.some.injEq] at h₂
      exact Fin.ext (by omega)
  · rw [show (Session.start anc₀ vol).anc.partno = anc₀.partno from rfl, hpart, hleg.numbers] at hd
    obtain ⟨l, hl, -, hf1⟩ := hus i n hi
    rw [List.getElem?_map, hl, Option.map_some, Option.some.injEq] at hd
    obtain ⟨w, e, hnamed, he⟩ := hleg.named l (List.mem_of_getElem? hl)
    obtain rfl : e = d := Fin.ext (by omega)
    refine ⟨w, ?_⟩
    unfold NamedLabel
    rw [show (Session.start anc₀ vol).anc.info n = anc₀.info n from rfl, hf1]
    exact hnamed.recode
  · have hleads : Leads anc₀ d n := by simpa using List.find?_some hrd
    obtain ⟨h₀, hnode⟩ := hleads
    rcases hleg.range d with h | ⟨i, hi, h⟩
    · rw [hpart, h] at h₀; omega
    · refine ⟨i, ?_, by rw [← hpart] at h; exact h⟩
      rw [hpart, h, Int.toNat_natCast, show anc₀.first = xs.head? by rw [hf]; exact hc.list.first_eq] at hnode
      have hx : xs[i]? = some xs[i] := List.getElem?_eq_getElem (by omega)
      have : nodeAt anc₀ i xs.head? = .ok xs[i] :=
        nodeAt_eq (show Seg anc₀.links none xs none by rw [hf]; exact hc.list.seg) hx
      rw [List.getElem?_take_of_lt hi, hx]
      exact congrArg some (Except.ok.inj (this.symm.trans hnode))
  · rw [show (Session.start anc₀ vol).anc.vlabel = anc.vlabel by show anc₀.vlabel = _; rw [hf]]
    exact hs
  · have : vtocStart geo anc₀ = vtocStart geo anc := by rw [hf]; rfl
    show vtocStart geo anc₀ ≠ 0
    rw [this]; exact hstart
  · obtain ⟨i, hi⟩ := List.mem_iff_getElem?.mp hn
    obtain ⟨l, hl, -, -⟩ := hus i n hi
    obtain ⟨w, d, -, hd⟩ := hleg.named l (List.mem_of_getElem? hl)
    have hlead : Leads anc₀ d n := hm.leads hi (by
      rw [hpart, hleg.numbers, List.getElem?_map, hl, Option.map_some, hd])
    intro hnone
    have := List.find?_eq_none.mp hnone d (List.mem_finRange d)
    exact this (by simpa using hlead)

/-- In every session whose removals clear the right number, the partitions keep their data set numbers. -/
theorem number_run (hc : Clear anc xs) (hread : readVtoc geo anc vol = some (.ok anc₀))
    (hleg : Legible geo anc₀.f4 (datasets (recordsBehind geo anc vol (vtocStart geo anc))))
    (hs : ∃ w, Serial w ∧ anc.vlabel.volid = serialField w) (hstart : vtocStart geo anc ≠ 0) (cs : List Command)
    (hadm : Run.Admissible (Session.step geo) Fine (.start anc₀ vol) cs) {s' : Session}
    (hex : Run.exec (Session.step geo) (.start anc₀ vol) cs = some s') :
    (∀ n, (anc₀.info n).used = 0x01 → (Session.start anc₀ vol).read n ≠ none) ∧ KeepsNumbers geo s' := by
  obtain ⟨f4, hok⟩ : ∃ f4, fdasd_process_valid_vtoc geo { anc with
    f4 := f4 } vol (vtocStart geo anc) = .ok anc₀ := by
    unfold readVtoc at hread
    simp only at hread
    split at hread
    · rename_i f4 _
      split at hread
      · exact ⟨f4, Option.some.inj hread⟩
      · cases hread
    · cases hread
  have hc' : Clear { anc with f4 := f4 } xs := ⟨hc.list, hc.all, hc.info, hc.partno⟩
  obtain ⟨a, ha, hr⟩ : ∃ a, fdasd_process_valid_vtoc geo { anc with f4 := f4 } vol (vtocStart geo anc) = .ok a ∧
      Reread geo { anc with f4 := f4 } a xs
        (datasets (recordsBehind geo { anc with f4 := f4 } vol (vtocStart geo anc))) :=
    process_valid_vtoc_eq hc' vol (vtocStart geo anc) hleg.length
  obtain rfl : a = anc₀ := Except.ok.inj (ha.symm.trans hok)
  have hf4 : a.f4 = f4 := by rw [hr.frame]
  rw [hf4] at hleg
  obtain ⟨hnum, hsome⟩ := hr.numbered hc' hleg hs hstart vol
  refine ⟨fun n hn => hsome n (hnum.members.mem hn), ?_⟩
  obtain ⟨us, fs, h⟩ := Run.exec_keeps (fun s => ∃ us fs, Numbered geo s us fs)
    (fun s c s' ⟨us, fs, h⟩ hf hs => h.step hf hs) cs _ s' ⟨_, _, hnum⟩ hadm hex
  exact h.keepsNumbers

end

/-! ## Two partitions -/

def pairGeo : HdGeometry := ⟨15, 12, 100⟩

def pairDisk : FdasdAnchor :=
  { fdasd_initialize_anchor with
    blksize := 4096
    hw_cylinders := 100
    vlabel := ⟨vtoc_ebcdic_enc (bytes "VOL1"), vtoc_ebcdic_enc (bytes "VOL1"),
      serialField (bytes "0X0150"), ⟨0, 1, 1⟩⟩ }

def pairLabel (d start stop : Nat) : Format1Label :=
  { vtoc_init_format1_label ⟨0, 1⟩ 4096 (partitionExtent pairGeo start stop) with
    DS1DSNAM := vtoc_ebcdic_enc (nameHead (bytes "0X0150") d ++ (bytes ".NATIVE" ++ List.replicate 15 0x20)) }

def pairFree : Format5Label :=
  match vtoc_set_freespace ⟨.zero, vtoc_init_format5_label, vtoc_init_format7_label⟩ '+' 201 1499 100 15 with
  | .ok l => l.f5
  | .error _ => vtoc_init_format5_label

def pairVolume (d e : Nat) : Volume := fun blk =>
  if blk = 49152 then
    .fmt4 { vtoc_init_format4_label 100 100 15 12 4096 DASD_3390_TYPE with DS4DSREC := 8 }
  else if blk = 53248 then .fmt5 pairFree
  else if blk = 57344 then .dataset (pairLabel d 2 100)
  else if blk = 61440 then .dataset (pairLabel e 101 200)
  else .dataset .zero

theorem pairDisk_clear : Clear pairDisk (List.finRange USABLE_PARTITIONS) :=
  ⟨initialize_wellLinked.list, rfl, fun _ => rfl, rfl⟩

theorem pair_serial : Serial (bytes "0X0150") := by
  have hserial : 0 < (bytes "0X0150").length ∧ (bytes "0X0150").length ≤ VOLSER_LENGTH ∧
      ∀ c ∈ bytes "0X0150", SerialChar c := by
    decide +kernel
  exact ⟨hserial.1, hserial.2.1, hserial.2.2⟩

theorem pairDisk_serial : ∃ w, Serial w ∧ pairDisk.vlabel.volid = serialField w :=
    ⟨bytes "0X0150", pair_serial, rfl⟩

theorem pair_legible {d e : Node} (hde : d ≠ e) {f4 : Format4Label} (h4 : f4.DS4DSREC = 8) :
    Legible pairGeo f4 (datasets (recordsBehind pairGeo pairDisk (pairVolume (d + 1) (e + 1)) 49152)) := by
  have hls : datasets (recordsBehind pairGeo pairDisk (pairVolume (d + 1) (e + 1)) 49152) =
      [pairLabel (d + 1) 2 100, pairLabel (e + 1) 101 200] := rfl
  have hlen : ∀ d : Node, (nameHead (bytes "0X0150") (d + 1) ++
    (bytes ".NATIVE" ++ List.replicate 15 0x20)).length =
      44 := by
    decide
  have hnum : ∀ d : Node, labelNumber (pairLabel (d + 1) 2 100) = (d : Nat) ∧
      labelNumber (pairLabel (d + 1) 101 200) = (d : Nat) := by
    decide +kernel
  have hnamed : ∀ d start stop : Nat, (hd : d < USABLE_PARTITIONS) →
      Named (vtoc_ebcdic_dec (pairLabel (d + 1) start stop).DS1DSNAM) (bytes "0X0150") (d + 1) := by
    intro d start stop hd
    exact Named.recode (d := ⟨d, hd⟩) ⟨⟨_, rfl⟩, hlen ⟨d, hd⟩, pair_serial⟩
  rw [hls]
  refine ⟨Nat.le_succ 2, by rw [h4]; rfl, fun l hl => ?_, ?_, ?_⟩
  · simp only [List.mem_cons, List.not_mem_nil, or_false] at hl
    rcases hl with rfl | rfl
    · exact ⟨_, d, hnamed d 2 100 d.isLt, (hnum d).1⟩
    · exact ⟨_, e, hnamed e 101 200 e.isLt, (hnum e).2⟩
  · rw [List.map_cons, List.map_cons, List.map_nil, (hnum d).1, (hnum e).2]
    simp only [List.nodup_cons, List.mem_singleton, List.not_mem_nil, not_false_eq_true, List.nodup_nil, and_true]
    exact fun h => hde (Fin.ext (by omega))
  · exact List.pairwise_pair.mpr (le_refl _)

def pairCommands : List Command := [.add ⟨0, 1⟩ 300 400, .remove 2, .write, .remove 1, .write]

def pairCheck (d e : Nat) (f : FdasdAnchor → Bool) : Bool :=
  match readVtoc pairGeo pairDisk (pairVolume d e) with
  | some (.ok anc₀) => anc₀.f4.DS4DSREC == 8 && f anc₀
  | _ => false

theorem pairCheck_eq {d e : Nat} {f : FdasdAnchor → Bool} (h : pairCheck d e f = true) :
    ∃ anc₀, readVtoc pairGeo pairDisk (pairVolume d e) = some (.ok anc₀) ∧ anc₀.f4.DS4DSREC = 8 ∧
      f anc₀ = true := by
  unfold pairCheck at h
  split at h
  · rename_i anc₀ hread
    simp only [Bool.and_eq_true, beq_iff_eq] at h
    exact ⟨anc₀, hread, h.1, h.2⟩
  · cases h

theorem pair_checks :
    pairCheck 1 2 (fun anc₀ =>
      decide (Run.Admissible (Session.step pairGeo) Fine (.start anc₀ (pairVolume 1 2)) pairCommands) &&
        (Run.exec (Session.step pairGeo) (.start anc₀ (pairVolume 1 2)) pairCommands).isSome) = true ∧
    pairCheck 2 1 (fun anc₀ =>
      (Run.exec (Session.step pairGeo) (.start anc₀ (pairVolume 2 1)) [.remove 2]).any fun s =>
        s.read ⟨0, by decide⟩ == some ⟨1, by decide⟩ && !decide (Leads s.anc ⟨1, by decide⟩ ⟨0,
          by decide⟩)) = true := by
  decide +kernel

/-- The partitions have the numbers of their positions. -/
theorem pairDisk_run : ∃ anc₀ s', readVtoc pairGeo pairDisk (pairVolume 1 2) = some (.ok anc₀) ∧
    Run.exec (Session.step pairGeo) (.start anc₀ (pairVolume 1 2)) pairCommands = some s' ∧
    (∀ n, (anc₀.info n).used = 0x01 → (Session.start anc₀ (pairVolume 1 2)).read n ≠ none) ∧
      KeepsNumbers pairGeo s' := by
  obtain ⟨anc₀, hread, h4, h⟩ := pairCheck_eq pair_checks.1
  rw [Bool.and_eq_true, decide_eq_true_eq, Option.isSome_iff_exists] at h
  obtain ⟨hadm, s', hs'⟩ := h
  have hleg := pair_legible (d := ⟨0, by decide⟩) (e := ⟨1, by decide⟩) (by decide) h4
  exact ⟨anc₀, s', hread, hs', number_run pairDisk_clear hread hleg pairDisk_serial (by decide) _ hadm hs'⟩

/-- The second partition has the number 1. Removing it clears the number 2 of the first one. -/
theorem pairDisk_lost : ∃ anc₀ s', Clear pairDisk (List.finRange USABLE_PARTITIONS) ∧
    readVtoc pairGeo pairDisk (pairVolume 2 1) = some (.ok anc₀) ∧
    Legible pairGeo anc₀.f4 (datasets (recordsBehind pairGeo pairDisk (pairVolume 2 1)
      (vtocStart pairGeo pairDisk))) ∧
    (∃ w, Serial w ∧ pairDisk.vlabel.volid = serialField w) ∧ vtocStart pairGeo pairDisk ≠ 0 ∧
    Run.exec (Session.step pairGeo) (.start anc₀ (pairVolume 2 1)) [.remove 2] = some s' ∧
      ¬ KeepsNumbers pairGeo s' := by
  obtain ⟨anc₀, hread, h4, h⟩ := pairCheck_eq pair_checks.2
  obtain ⟨s', hs', h⟩ := (Option.any_eq_true ..).mp h
  rw [Bool.and_eq_true, beq_iff_eq, Bool.not_eq_true', decide_eq_false_iff_not] at h
  have hleg := pair_legible (d := ⟨1, by decide⟩) (e := ⟨0, by decide⟩) (by decide) h4
  exact ⟨anc₀, s', pairDisk_clear, hread, hleg, pairDisk_serial, by decide, hs', fun hk => h.2 (hk.read _ _ h.1)⟩

end Fdasd
