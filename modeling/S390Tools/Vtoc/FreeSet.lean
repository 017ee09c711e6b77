import S390Tools.Vtoc.Freespace

/-!
# The free space labels as sets of tracks

A label stands for the tracks of its extents, in whatever slots they are. Giving
back a range adds its tracks and taking one removes them; the label that comes
out is sorted and joins what touches. The same holds for both formats, so on a
disk that is small enough for format 5 they keep describing the same tracks.
-/

namespace Vtoc

open Word Ranges SlotTable

/-! ## One update of one label -/

def set_fmt5 (f5 : Format5Label) (ch : Char) (start stop trk : Nat) : Except Bug Format5Label :=
  let len := u32 ((stop : Int) - start + 1)
  let x := u16 start
  let y := u16 (len / trk : Nat)
  let z := u8 (len % trk : Nat)
  let f5 :=
    if ch = '+' then vtoc_update_format5_label_add f5 trk x y z
    else if ch = '-' then vtoc_update_format5_label_del f5 trk x y z
    else .ok f5
  match f5 with
  | .error b => .error b
  | .ok f5 => .ok (vtoc_reorganize_FMT5_extents trk f5)

def set_fmt7 (f7 : Format7Label) (ch : Char) (start stop : Nat) : Except Bug Format7Label :=
  let f7 :=
    if ch = '+' then vtoc_update_format7_label_add f7 start (u32 (stop + 1 : Nat))
    else if ch = '-' then vtoc_update_format7_label_del f7 start (u32 (stop + 1 : Nat))
    else .ok f7
  match f7 with
  | .error b => .error b
  | .ok f7 => .ok (vtoc_reorganize_FMT7_extents f7)

section
variable {l : FreeLabels} {ch : Char} {start stop cyl trk : Nat}

theorem set_freespace_small (h : ¬u32 (cyl * trk : Nat) > BIG_DISK_SIZE) {f5 : Format5Label}
    (h5 : set_fmt5 l.f5 ch start stop trk = .ok f5) : vtoc_set_freespace l ch start stop cyl trk =
      .ok { l with f5 } := by
  rw [vtoc_set_freespace, if_neg h]
  rw [set_fmt5] at h5
  simp only at h5 ⊢
  generalize (if ch = '+' then _ else _) = added at h5 ⊢
  cases added with
  | error => cases h5
  | ok =>
    cases h5
    rfl

theorem set_freespace_big (h : u32 (cyl * trk : Nat) > BIG_DISK_SIZE) {f7 : Format7Label}
    (h7 : set_fmt7 l.f7 ch start stop = .ok f7) :
    vtoc_set_freespace l ch start stop cyl trk = .ok { l with f4 := announce l.f4, f7 } := by
  rw [vtoc_set_freespace, if_pos h]
  rw [set_fmt7] at h7
  simp only at h7 ⊢
  generalize (if ch = '+' then _ else _) = added at h7 ⊢
  cases added with
  | error => cases h7
  | ok =>
    cases h7
    rfl

end

/-! ## Labels and operations -/

/-- The slots hold the ranges `gs`, sorted and apart, and any others are empty. -/
structure FreeTable {ε : Type} (K : Kind ε) (Ok : ε → Prop) (span : ε → Nat × Nat) (n : Nat) (slots : List ε)
    (gs : List (Nat × Nat)) : Prop where
  length : slots.length = n
  good : Good K Ok slots
  ranges : SlotTable.ranges K span slots = gs
  canonical : Canonical gs

/-- The extents in ascending order, nothing to be joined, and empty slots behind them. -/
structure SortedTable {ε : Type} (K : Kind ε) (Ok : ε → Prop) (span : ε → Nat × Nat) (n : Nat) (slots : List ε)
    (gs : List (Nat × Nat)) : Prop where
  length : slots.length = n
  lists : Lists K Ok span slots gs
  canonical : Canonical gs

inductive FreeOp
  | plus (start stop : Nat)
  | minus (start stop : Nat)

def FreeOp.ch : FreeOp → Char
  | .plus _ _ => '+'
  | .minus _ _ => '-'

def FreeOp.start : FreeOp → Nat
  | .plus a _ => a
  | .minus a _ => a

def FreeOp.stop : FreeOp → Nat
  | .plus _ b => b
  | .minus _ b => b

/-- A range to give back is free of extents, one to take lies in an extent. -/
def FreeOp.Fits (gs : List (Nat × Nat)) : FreeOp → Prop
  | .plus a b => ∀ r ∈ gs, Disj r (a, b + 1)
  | .minus a b => ∃ g ∈ gs, g.1 ≤ a ∧ b < g.2

def FreeOp.OnDisk (tot : Nat) (op : FreeOp) : Prop := 0 < op.start ∧ op.start ≤ op.stop ∧ op.stop < tot

def FreeOp.result (S : Nat → Prop) : FreeOp → Nat → Prop
  | .plus a b, t => S t ∨ In t (a, b + 1)
  | .minus a b, t => S t ∧ ¬In t (a, b + 1)

section
variable {ε : Type} {K : Kind ε} {Ok : ε → Prop} {span : ε → Nat × Nat} {n : Nat} {slots : List ε}
  {gs : List (Nat × Nat)}

theorem SortedTable.table (L : Lawful K Ok span) (h : SortedTable K Ok span n slots gs) :
    FreeTable K Ok span n slots gs :=
  ⟨h.length, h.lists.good, h.lists.ranges_eq L, h.canonical⟩

theorem FreeTable.apart (h : FreeTable K Ok span n slots gs) : (SlotTable.ranges K span slots).Pairwise Apart := by
  rw [h.ranges]
  exact h.canonical.ascending.imp Or.inl

theorem FreeTable.length_lt (h : FreeTable K Ok span n slots gs) (hroom : gs.length < n) :
    (SlotTable.ranges K span slots).length < slots.length := by
  rw [h.ranges, h.length]
  exact hroom

theorem FreeTable.reorganized (L : Lawful K Ok span) (h : FreeTable K Ok span n slots gs) {slots' : List ε}
    (hlen : slots'.length = slots.length) (hg : Good K Ok slots')
    (hap : (SlotTable.ranges K span slots').Pairwise Apart) :
    ∃ gs', SortedTable K Ok span n (reorganize K slots') gs' ∧ ∀ t, Covers gs' t ↔
      Covers (SlotTable.ranges K span slots') t := by
  obtain ⟨gs', hc, hl, hperm⟩ := reorganize_lists L hg hap
  exact ⟨gs', ⟨by rw [reorganize_length, hlen, h.length], hl, hc⟩, covers_of_perm hperm⟩

theorem FreeTable.plus (L : Lawful K Ok span) (h : FreeTable K Ok span n slots gs)
    (hroom : gs.length < n) {new : ε} (hnew : Ok new)
    (hd : ∀ r ∈ gs, Disj r (span new)) : ∃ slots' gs', add K slots new = .ok slots' ∧
      SortedTable K Ok span n (reorganize K slots') gs' ∧ ∀ t, Covers gs' t ↔ Covers gs t ∨ In t (span new) := by
  obtain ⟨slots', hadd, hlen, hg, hap, hcov⟩ := add_spec L h.good h.apart hnew (by rwa [h.ranges])
    (h.length_lt hroom)
  obtain ⟨gs', hs, hcov'⟩ := h.reorganized L hlen hg hap
  refine ⟨slots', gs', hadd, hs, fun t => ?_⟩
  rw [hcov', hcov, h.ranges]

theorem FreeTable.minus (L : Lawful K Ok span) (h : FreeTable K Ok span n slots gs)
    (hroom : gs.length < n) {cut : ε → Cut ε} {r : Nat × Nat}
    (hlt : r.1 < r.2) (hcut : Cuts K Ok span cut r) {g : Nat × Nat} (hmem : g ∈ gs) (h₁ : g.1 ≤ r.1)
      (h₂ : r.2 ≤ g.2)
    (addFirst : Bool) (hfirst : addFirst = true → ∀ new ext, Ok new → Ok ext → (span new).2 = (span ext).2 →
      (span ext).1 < (span new).1 → K.overlaps new ext = false) :
    ∃ slots' gs', del K addFirst cut slots = .ok slots' ∧ SortedTable K Ok span n (reorganize K slots') gs' ∧
      ∀ t, Covers gs' t ↔ Covers gs t ∧ ¬In t r := by
  obtain ⟨slots', hdel, hlen, hg, hap, hcov⟩ :=
    del_spec L h.good h.apart hlt hcut (by rwa [h.ranges]) h₁ h₂ (h.length_lt hroom)
    addFirst hfirst
  obtain ⟨gs', hs, hcov'⟩ := h.reorganized L hlen hg hap
  refine ⟨slots', gs', hdel, hs, fun t => ?_⟩
  rw [hcov', hcov, h.ranges]

end

/-! ## Both formats -/

abbrev Free5 (trk : Nat) (f5 : Format5Label) (gs : List (Nat × Nat)) : Prop :=
  FreeTable (fmt5 trk) (Ds5ext.Ok trk) (Ds5ext.span trk) 26 f5.exts gs

abbrev Sorted5 (trk : Nat) (f5 : Format5Label) (gs : List (Nat × Nat)) : Prop :=
  SortedTable (fmt5 trk) (Ds5ext.Ok trk) (Ds5ext.span trk) 26 f5.exts gs

abbrev Free7 (f7 : Format7Label) (gs : List (Nat × Nat)) : Prop :=
    FreeTable fmt7 Ds7ext.Ok Ds7ext.span 16 f7.exts gs

abbrev Sorted7 (f7 : Format7Label) (gs : List (Nat × Nat)) : Prop :=
    SortedTable fmt7 Ds7ext.Ok Ds7ext.span 16 f7.exts gs

section
variable {trk tot : Nat} {gs : List (Nat × Nat)} {op : FreeOp}

theorem set_fmt5_args {start stop : Nat} (ht : 0 < trk) (ht' : trk ≤ 255) (h₀ : 0 < start) (h₁ : start ≤ stop)
    (h₂ : stop < BIG_DISK_SIZE) : u16 (start : Int) = start ∧
      u16 ((u32 ((stop : Int) - start + 1) / trk : Nat) : Int) = (stop + 1 - start) / trk ∧
      u8 ((u32 ((stop : Int) - start + 1) % trk : Nat) : Int) = (stop + 1 - start) % trk := by
  rw [BIG_DISK_SIZE] at h₂
  have hlen : u32 ((stop : Int) - start + 1) = stop + 1 - start := by
    apply u32_eq <;> omega
  rw [hlen]
  refine ⟨?_, ext5_word ht ht' (by omega)⟩
  unfold u16
  omega

theorem set_fmt5_eq (ht : 0 < trk) (ht' : trk ≤ 255) (htot : tot ≤ BIG_DISK_SIZE) {f5 : Format5Label}
    (h : Free5 trk f5 gs) (hroom : gs.length < 26) (hd : op.OnDisk tot) (hf : op.Fits gs) :
    ∃ f5' gs', set_fmt5 f5 op.ch op.start op.stop trk = .ok f5' ∧ Sorted5 trk f5' gs' ∧
      ∀ t, Covers gs' t ↔ op.result (Covers gs) t := by
  obtain ⟨h₀, h₁, h₂⟩ := hd
  obtain ⟨hx, hy, hz⟩ := set_fmt5_args ht ht' h₀ h₁ (Nat.lt_of_lt_of_le h₂ htot)
  rw [set_fmt5]
  simp only [hx, hy, hz]
  cases op with
  | plus start stop =>
    simp only [FreeOp.start, FreeOp.stop, FreeOp.ch, if_true] at h₀ h₁ h₂ ⊢
    have hspan : (ext5 trk start (stop + 1)).span trk = (start, stop + 1) := ext5_span (Nat.lt_succ_of_le h₁)
    obtain ⟨slots, gs', hadd, hs, hcov⟩ := h.plus (fmt5_lawful ht ht') hroom
      (ext5_ok ht h₀ (Nat.lt_succ_of_le h₁) (Nat.le_trans h₂ htot)) (by rw [hspan]; exact hf)
    rw [hspan] at hcov
    rw [vtoc_update_format5_label_add, show (⟨start, (stop + 1 - start) / trk, (stop + 1 - start) % trk⟩ : Ds5ext) =
      ext5 trk start (stop + 1) from rfl, hadd]
    exact ⟨_, gs', rfl, hs, hcov⟩
  | minus start stop =>
    simp only [FreeOp.start, FreeOp.stop, FreeOp.ch] at h₀ h₁ h₂ ⊢
    have hend : start + (stop + 1 - start) / trk * trk + (stop + 1 - start) % trk = stop + 1 := by
      have := Nat.div_add_mod' (stop + 1 - start) trk
      omega
    have hcuts := cut5_cuts (a := start)
      (b := (stop + 1 - start) / trk) ht ht' h₀ (Nat.mod_lt (stop + 1 - start) ht)
      (by omega)
    rw [hend] at hcuts
    obtain ⟨g, hg, hg₁, hg₂⟩ := hf
    obtain ⟨slots, gs', hdel, hs, hcov⟩ :=
      h.minus (fmt5_lawful ht ht') hroom (Nat.lt_succ_of_le h₁) hcuts hg hg₁ hg₂ false
      (by intro h; cases h)
    rw [if_neg (by decide), if_pos trivial, vtoc_update_format5_label_del, hdel]
    exact ⟨_, gs', rfl, hs, hcov⟩

theorem set_fmt7_eq (htot : tot ≤ 2147483648) {f7 : Format7Label} (h : Free7 f7 gs) (hroom : gs.length < 16)
    (hd : op.OnDisk tot) (hf : op.Fits gs) :
    ∃ f7' gs', set_fmt7 f7 op.ch op.start op.stop = .ok f7' ∧ Sorted7 f7' gs' ∧
      ∀ t, Covers gs' t ↔ op.result (Covers gs) t := by
  obtain ⟨h₀, h₁, h₂⟩ := hd
  have hstop : u32 ((op.stop + 1 : Nat) : Int) = op.stop + 1 := by
    apply u32_eq <;> omega
  rw [set_fmt7, hstop]
  cases op with
  | plus start stop =>
    simp only [FreeOp.start, FreeOp.stop, FreeOp.ch, if_true] at h₀ h₁ h₂ ⊢
    obtain ⟨slots, gs', hadd, hs, hcov⟩ := h.plus fmt7_lawful hroom (show Ds7ext.Ok ⟨start, stop + 1⟩ from
      ⟨h₀, Nat.lt_succ_of_le h₁, Nat.le_trans h₂ htot⟩) hf
    rw [vtoc_update_format7_label_add, hadd]
    exact ⟨_, gs', rfl, hs, hcov⟩
  | minus start stop =>
    simp only [FreeOp.start, FreeOp.stop, FreeOp.ch] at h₀ h₁ h₂ ⊢
    obtain ⟨g, hg, hg₁, hg₂⟩ := hf
    obtain ⟨slots, gs', hdel, hs, hcov⟩ := h.minus fmt7_lawful hroom (Nat.lt_succ_of_le h₁)
      (cut7_cuts h₀ (Nat.lt_succ_of_le h₁))
      hg hg₁ hg₂ true fun _ new ext hn he h₁ h₂ => by
        simp only [Ds7ext.span] at h₁ h₂
        simp only [fmt7, Bool.or_eq_false_iff, Bool.and_eq_false_iff, decide_eq_false_iff_not]
        omega
    rw [if_neg (by decide), if_pos trivial, vtoc_update_format7_label_del, hdel]
    exact ⟨_, gs', rfl, hs, hcov⟩

end

/-! ## Runs of operations -/

/-- Each operation fits the tracks that are free by then, with room left in both formats. -/
def Legal (tot : Nat) : List (Nat × Nat) → List FreeOp → Prop
  | _, [] => True
  | gs, op :: ops => gs.length < 16 ∧ op.OnDisk tot ∧ op.Fits gs ∧
      ∀ gs', Canonical gs' → (∀ t, Covers gs' t ↔ op.result (Covers gs) t) → Legal tot gs' ops

def run5 (trk : Nat) (f5 : Format5Label) (ops : List FreeOp) : Except Bug Format5Label :=
  ops.foldlM (fun f5 op => set_fmt5 f5 op.ch op.start op.stop trk) f5

def run7 (f7 : Format7Label) (ops : List FreeOp) : Except Bug Format7Label :=
  ops.foldlM (fun f7 op => set_fmt7 f7 op.ch op.start op.stop) f7

section
variable {trk tot : Nat}

theorem run_agree (ht : 0 < trk) (ht' : trk ≤ 255) (htot : tot ≤ BIG_DISK_SIZE) : ∀ {ops : List FreeOp}
    {gs : List (Nat × Nat)} {f5 : Format5Label} {f7 : Format7Label}, Free5 trk f5 gs → Free7 f7 gs →
      Legal tot gs ops →
    ∃ f5' f7' gs', run5 trk f5 ops = .ok f5' ∧ run7 f7 ops = .ok f7' ∧ Free5 trk f5' gs' ∧ Free7 f7' gs'
  | [], gs, f5, f7, h5, h7, _ => ⟨f5, f7, gs, rfl, rfl, h5, h7⟩
  | op :: ops, gs, f5, f7, h5, h7, ⟨hroom, hd, hf, hrest⟩ => by
    have hbig : BIG_DISK_SIZE ≤ 2147483648 := by decide
    obtain ⟨f5₁, gs₁, heq5, hs5, hcov5⟩ := set_fmt5_eq ht ht' htot h5 (Nat.lt_trans hroom (by decide)) hd hf
    obtain ⟨f7₁, gs₂, heq7, hs7, hcov7⟩ := set_fmt7_eq (Nat.le_trans htot hbig) h7 hroom hd hf
    -- both describe the same tracks, and so by the same ranges
    have hgs : gs₂ = gs₁ := hs7.canonical.ext hs5.canonical fun t => (hcov7 t).trans (hcov5 t).symm
    subst hgs
    obtain ⟨f5', f7', gs', hrun5, hrun7, hres⟩ :=
      run_agree ht ht' htot (hs5.table (fmt5_lawful ht ht')) (hs7.table fmt7_lawful)
      (hrest gs₂ hs5.canonical hcov5)
    refine ⟨f5', f7', gs', ?_, ?_, hres⟩
    · rw [run5, List.foldlM_cons, heq5]
      exact hrun5
    · rw [run7, List.foldlM_cons, heq7]
      exact hrun7

end

section
variable (trk tot : Nat) (l : FreeLabels) (gs : List (Nat × Nat))

/-- The label that a disk of `tot` tracks uses holds the ranges and has an empty slot. -/
def HoldsFree : Prop :=
  if tot > BIG_DISK_SIZE then Free7 l.f7 gs ∧ gs.length < 16 else Free5 trk l.f5 gs ∧ gs.length < 26

/-- The label that a disk of `tot` tracks uses lists the ranges in order. -/
def ListsFree : Prop := if tot > BIG_DISK_SIZE then Sorted7 l.f7 gs else Sorted5 trk l.f5 gs

end

theorem freespace_sets {trk cyl : Nat} (ht : 0 < trk) (ht' : trk ≤ 255) (htot : cyl * trk ≤ 2147483648) :
    (∀ {l : FreeLabels} {gs : List (Nat × Nat)} {op : FreeOp}, HoldsFree trk (cyl * trk) l gs →
      op.OnDisk (cyl * trk) →
      op.Fits gs → ∃ l' gs', vtoc_set_freespace l op.ch op.start op.stop cyl trk = .ok l' ∧
        ListsFree trk (cyl * trk) l' gs' ∧ ∀ t, Covers gs' t ↔ op.result (Covers gs) t) ∧
    (cyl * trk ≤ BIG_DISK_SIZE → ∀ {ops : List FreeOp} {gs : List (Nat × Nat)} {f5 : Format5Label}
      {f7 : Format7Label},
      Free5 trk f5 gs → Free7 f7 gs → Legal (cyl * trk) gs ops →
      ∃ f5' f7' gs', run5 trk f5 ops = .ok f5' ∧ run7 f7 ops = .ok f7' ∧ Free5 trk f5' gs' ∧ Free7 f7' gs') := by
  have hu : u32 ((cyl * trk : Nat) : Int) = cyl * trk := by
    apply u32_eq <;> omega
  constructor
  · intro l gs op h hd hf
    rw [HoldsFree] at h
    by_cases hb : cyl * trk > BIG_DISK_SIZE
    · rw [if_pos hb] at h
      obtain ⟨f7, gs', heq, hs, hcov⟩ := set_fmt7_eq htot h.1 h.2 hd hf
      refine ⟨_, gs', set_freespace_big (by rw [hu]; exact hb) heq, ?_, hcov⟩
      rw [ListsFree, if_pos hb]
      exact hs
    · rw [if_neg hb] at h
      obtain ⟨f5, gs', heq, hs, hcov⟩ := set_fmt5_eq ht ht' (Nat.le_of_not_lt hb) h.1 h.2 hd hf
      refine ⟨_, gs', set_freespace_small (by rw [hu]; exact hb) heq, ?_, hcov⟩
      rw [ListsFree, if_neg hb]
      exact hs
  · intro hb ops gs f5 f7 h5 h7 hops
    exact run_agree ht ht' hb h5 h7 hops

theorem Legal.cons {tot : Nat} {gs : List (Nat × Nat)} (gs₁ : List (Nat × Nat)) {op : FreeOp} {ops : List FreeOp}
    (hroom : gs.length < 16) (hd : op.OnDisk tot) (hf : op.Fits gs) (hc : Canonical gs₁)
    (hcov : ∀ t, Covers gs₁ t ↔ op.result (Covers gs) t) (h : Legal tot gs₁ ops) : Legal tot gs (op :: ops) :=
  ⟨hroom, hd, hf, fun _ hc' hcov' => hc'.ext hc (fun t => (hcov' t).trans (hcov t).symm) ▸ h⟩

def threeFree : FreeLabels where
  f4 := .zero
  f5 := { vtoc_init_format5_label with
    exts := [⟨10, 0, 5⟩, ⟨30, 2, 0⟩, ⟨90, 1, 3⟩] ++ List.replicate 23 .zero }
  f7 := { vtoc_init_format7_label with
    exts := [⟨10, 15⟩, ⟨30, 60⟩, ⟨90, 108⟩] ++ List.replicate 13 .zero }

def threeRanges : List (Nat × Nat) := [(10, 15), (30, 60), (90, 108)]

theorem threeFree5 : Free5 15 threeFree.f5 threeRanges := by
  have hl : Lists (fmt5 15) (Ds5ext.Ok 15) (Ds5ext.span 15) threeFree.f5.exts threeRanges := by
    refine ⟨[⟨10, 0, 5⟩, ⟨30, 2, 0⟩, ⟨90, 1, 3⟩], 23, rfl, fun e he => ?_, rfl⟩
    simp only [List.mem_cons, List.not_mem_nil, or_false] at he
    rcases he with rfl | rfl | rfl <;> exact ⟨by decide, by decide, by decide, by decide⟩
  exact ⟨rfl, hl.good, rfl, ⟨by decide, by decide⟩⟩

theorem threeFree7 : Free7 threeFree.f7 threeRanges := by
  have hl : Lists fmt7 Ds7ext.Ok Ds7ext.span threeFree.f7.exts threeRanges := by
    refine ⟨[⟨10, 15⟩, ⟨30, 60⟩, ⟨90, 108⟩], 13, rfl, fun e he => ?_, rfl⟩
    simp only [List.mem_cons, List.not_mem_nil, or_false] at he
    rcases he with rfl | rfl | rfl <;> exact ⟨by decide, by decide, by decide⟩
  exact ⟨rfl, hl.good, rfl, ⟨by decide, by decide⟩⟩

theorem joinSplit_legal : Legal 150 threeRanges [.plus 15 29, .minus 40 49] := by
  refine .cons [(10, 60), (90, 108)] (by decide) ⟨by decide, by decide, by decide⟩ ?_ ⟨by decide, by decide⟩
    (fun t => ?_) (.cons [(10, 40), (50, 60), (90, 108)] (by decide) ⟨by decide, by decide, by decide⟩
      ⟨(10, 60), by decide, by decide, by decide⟩ ⟨by decide, by decide⟩ (fun t => ?_) trivial)
  · intro r hr
    simp only [threeRanges, List.mem_cons, List.not_mem_nil, or_false] at hr
    rcases hr with rfl | rfl | rfl
    · exact .inl (by decide)
    · exact .inr (by decide)
    · exact .inr (by decide)
  · simp only [FreeOp.result, Covers, threeRanges, In, List.mem_cons, List.not_mem_nil, or_false, exists_eq_or_imp,
      exists_eq_left]
    omega
  · simp only [FreeOp.result, Covers, In, List.mem_cons, List.not_mem_nil, or_false,
      exists_eq_or_imp, exists_eq_left]
    omega

theorem freespace_sets_three :
    (∃ l' gs', vtoc_set_freespace threeFree '-' 95 99 10 15 = .ok l' ∧ ListsFree 15 150 l' gs' ∧
      ∀ t, Covers gs' t ↔ Covers threeRanges t ∧ ¬In t (95, 100)) ∧
    ∃ f5' f7' gs', run5 15 threeFree.f5 [.plus 15 29, .minus 40 49] = .ok f5' ∧
      run7 threeFree.f7 [.plus 15 29, .minus 40 49] = .ok f7' ∧ Free5 15 f5' gs' ∧ Free7 f7' gs' := by
  have h := @freespace_sets 15 10 (by decide) (by decide) (by decide)
  refine ⟨@h.1 threeFree threeRanges (.minus 95 99) ?_ ⟨by decide, by decide, by decide⟩
    ⟨(90, 108), by decide, by decide, by decide⟩, h.2 (by decide) threeFree5 threeFree7 joinSplit_legal⟩
  rw [HoldsFree, if_neg (by decide)]
  exact ⟨threeFree5, by decide⟩

/-- Track 0 stays behind the other extents, 300 tracks per cylinder do not fit into the label, and a range
whose limits add up to zero in 32 bits is overwritten. -/
theorem freespace_limits :
    ((vtoc_set_freespace ⟨.zero, { vtoc_init_format5_label with exts := ⟨5, 0, 5⟩ :: List.replicate 25 .zero },
      vtoc_init_format7_label⟩ '+' 0 2 10 15).toOption.map fun l => l.f5.exts.take 3) =
        some [⟨5, 0, 5⟩, ⟨0, 0, 3⟩, .zero] ∧
    ((vtoc_set_freespace ⟨.zero, vtoc_init_format5_label, vtoc_init_format7_label⟩ '+' 1 299 10 300).toOption.map
      fun l => l.f5.exts.take 2) = some [⟨1, 0, 43⟩, .zero] ∧
    ((vtoc_set_freespace ⟨.zero, vtoc_init_format5_label,
        { vtoc_init_format7_label with
          exts := ⟨2147483647, 2147483649⟩ :: List.replicate 15 .zero }⟩ '+' 10 19 143165577 15).toOption.map
      fun l => l.f7.exts.take 2) = some [⟨10, 20⟩, .zero] := by
  refine ⟨?_, ?_, ?_⟩ <;> decide

end Vtoc
