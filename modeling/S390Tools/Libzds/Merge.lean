import S390Tools.Libzds.Track

/-!
# Merging data sets (libzds/libzds.c)

The parts of a multi volume data set are found one by one, each as a data set of
its own, and merged into the data set of the same name. The caller frees the new
part when the merge returns an error.
-/

namespace Libzds

open Stdio

def MAXVOLUMESPERDS : Nat := 59

/-- `struct datasetpart`, known by its address, with the fields of its format 1 DSCB that are compared. -/
structure DatasetPart where
  address : Nat
  DS1DSSN : Bytes
  DS1DSIND : Nat
  deriving DecidableEq

def DatasetPart.last_volume (p : DatasetPart) : Bool := p.DS1DSIND / 128 % 2 = 1

structure Dataset where
  name : Bytes
  dsp : Nat → Option DatasetPart
  dspcount : Nat
  iscomplete : Bool

def Dataset.first_part (ds : Dataset) : Option DatasetPart := (List.range MAXVOLUMESPERDS).findSome? ds.dsp

def Dataset.add_part (ds : Dataset) (k : Nat) (p : DatasetPart) : Dataset :=
  { ds with dsp := Function.update ds.dsp k (some p), dspcount := ds.dspcount + 1 }

@[grind =] def merge_parts (newds : Dataset) : List Nat → Dataset → Except Errno Unit × Dataset
  | [], baseds => (.ok (), baseds)
  | k :: ks, baseds =>
    match baseds.dsp k, newds.dsp k with
    | some _, some _ => (.error .EPROTO, baseds)
    | none, some p =>
      match baseds.first_part with
      | some q =>
        if q.DS1DSSN ≠ p.DS1DSSN then (.error .EPROTO, baseds) else merge_parts newds ks (baseds.add_part k p)
      | none => merge_parts newds ks (baseds.add_part k p)
    | _, none => merge_parts newds ks baseds

def Dataset.ends (ds : Dataset) : Bool := (ds.dsp (ds.dspcount - 1)).any DatasetPart.last_volume

def check_complete (baseds : Dataset) : Except Errno Unit × Dataset :=
  if baseds.ends then
    if ∀ l < baseds.dspcount, baseds.dsp l ≠ none then (.ok (), { baseds with iscomplete := true })
    else (.error .EPROTO, { baseds with iscomplete := false })
  else (.ok (), { baseds with iscomplete := false })

def dataset_merge_dataset (baseds newds : Dataset) : Except Errno Unit × Dataset :=
  match merge_parts newds (List.range MAXVOLUMESPERDS) baseds with
  | (.error rc, baseds) => (.error rc, baseds)
  | (.ok (), baseds) => check_complete baseds

/-- The data sets of `struct zdsroot`, in the order of the list; the first one of the name is merged. -/
def zdsroot_merge_dataset (newds : Dataset) : List Dataset → Except Errno Unit × List Dataset
  | [] => (.ok (), [newds])
  | ds :: root =>
    if ds.name = newds.name then
      match dataset_merge_dataset ds newds with
      | (rc, ds) => (rc, ds :: root)
    else
      match zdsroot_merge_dataset newds root with
      | (rc, root) => (rc, ds :: root)

/-- What `create_dataset_from_dscb` makes: one part at the position of its volume sequence number. -/
def Dataset.single (name : Bytes) (k : Nat) (p : DatasetPart) : Dataset :=
  ⟨name, fun i => if i = k then some p else none, 1, k = 0⟩

structure NewDataset where
  name : Bytes
  dspindex : Nat
  part : DatasetPart
  dspindex_lt : dspindex < MAXVOLUMESPERDS

def NewDataset.dataset (new : NewDataset) : Dataset := .single new.name new.dspindex new.part

/-- What becomes of one DSCB: no data set is created, or one whose members cannot be read or for which there is no
memory, or one that is merged. -/
inductive Created where
  | failed (rc : Int)
  | not_merged (rc : Int) (new : NewDataset)
  | merged (new : NewDataset)

inductive Extracted where
  | all
  | failed (rc : Int)
  | merge_failed (rc : Errno)
  deriving DecidableEq

def Dataset.parts (ds : Dataset) : List DatasetPart := (List.range MAXVOLUMESPERDS).filterMap ds.dsp

/-- The loop of `lzds_zdsroot_extract_datasets_from_dasd` over the DSCBs, and the parts that are freed. -/
def lzds_zdsroot_extract_datasets_from_dasd : List Created → List Dataset →
    Extracted × List Dataset × List DatasetPart
  | [], root => (.all, root, [])
  | .failed rc :: _, root => (.failed rc, root, [])
  | .not_merged rc new :: _, root => (.failed rc, root, new.dataset.parts)
  | .merged new :: rest, root =>
    match zdsroot_merge_dataset new.dataset root with
    | (.error rc, root) => (.merge_failed rc, root, new.dataset.parts)
    | (.ok (), root) => lzds_zdsroot_extract_datasets_from_dasd rest root

/-! ## A single part -/

def Dataset.Accepts (ds : Dataset) (k : Nat) (p : DatasetPart) : Prop :=
  ds.dsp k = none ∧ ∀ q, ds.first_part = some q → q.DS1DSSN = p.DS1DSSN

/-- The last volume is where it should be, but a part in front of it is missing. -/
def Dataset.LeavesGap (ds : Dataset) : Prop := ds.ends = true ∧ ∃ l < ds.dspcount, ds.dsp l = none

section
variable {name : Bytes} {k : Nat} {p : DatasetPart} {newds baseds : Dataset}

theorem merge_parts_skip : ∀ {ks : List Nat} (ks' : List Nat), (∀ j ∈ ks, newds.dsp j = none) →
    merge_parts newds (ks ++ ks') baseds = merge_parts newds ks' baseds
  | [], _, _ => rfl
  | j :: ks, ks', h => by
    obtain ⟨hj, hks⟩ := List.forall_mem_cons.mp h
    rw [List.cons_append, merge_parts, hj]
    cases baseds.dsp j with
    | none => exact merge_parts_skip ks' hks
    | some q => exact merge_parts_skip ks' hks

theorem merge_parts_none {ks : List Nat} (h : ∀ j ∈ ks, newds.dsp j = none) :
    merge_parts newds ks baseds = (.ok (), baseds) := by
  have hskip := @merge_parts_skip newds baseds ks [] h
  rw [List.append_nil] at hskip
  exact hskip

theorem single_dsp {j : Nat} {q : DatasetPart} (h : (Dataset.single name k p).dsp j = some q) : q = p := by
  rw [Dataset.single] at h
  dsimp only at h
  split at h
  · exact (Option.some.inj h).symm
  · cases h

theorem single_dsp_ne {j : Nat} (h : j ≠ k) : (Dataset.single name k p).dsp j = none := if_neg h

theorem merge_single (hk : k < MAXVOLUMESPERDS) :
    (baseds.Accepts k p → merge_parts (.single name k p) (List.range MAXVOLUMESPERDS) baseds =
      (.ok (), baseds.add_part k p)) ∧
    (¬baseds.Accepts k p → merge_parts (.single name k p) (List.range MAXVOLUMESPERDS) baseds =
      (.error .EPROTO, baseds)) := by
  have hsplit : List.range MAXVOLUMESPERDS = List.range k ++ k :: List.range' (k + 1)
    (MAXVOLUMESPERDS - (k + 1)) := by
    have hrest : MAXVOLUMESPERDS - k = MAXVOLUMESPERDS - (k + 1) + 1 := by omega
    have hcat := List.range'_append_1 (s := 0) (m := k) (n := MAXVOLUMESPERDS - k)
    rw [Nat.zero_add, Nat.add_sub_cancel' (Nat.le_of_lt hk), ← List.range_eq_range', ← List.range_eq_range', hrest,
      List.range'_succ] at hcat
    exact hcat.symm
  have hfront : ∀ j ∈ List.range k, (Dataset.single name k p).dsp j = none := fun j hj =>
    single_dsp_ne (Nat.ne_of_lt (List.mem_range.mp hj))
  have hback : ∀ j ∈ List.range' (k + 1) (MAXVOLUMESPERDS - (k + 1)),
    (Dataset.single name k p).dsp j = none := fun j hj => by
    have hlt := (List.mem_range'_1.mp hj).1
    exact single_dsp_ne (by omega)
  have hself : (Dataset.single name k p).dsp k = some p := if_pos rfl
  rw [hsplit, merge_parts_skip _ hfront, merge_parts, hself]
  cases hd : baseds.dsp k with
  | some q =>
    refine ⟨fun h => ?_, fun _ => rfl⟩
    rw [h.1] at hd
    cases hd
  | none =>
    dsimp only
    cases hfirst : baseds.first_part with
    | none =>
      refine ⟨fun _ => merge_parts_none hback, fun h => absurd ⟨hd, fun q hq => ?_⟩ h⟩
      rw [hfirst] at hq
      cases hq
    | some q =>
      dsimp only
      by_cases hserial : q.DS1DSSN = p.DS1DSSN
      · rw [if_neg (fun h => h hserial)]
        refine ⟨fun _ => merge_parts_none hback, fun h => absurd ⟨hd, fun q' hq => ?_⟩ h⟩
        cases hfirst.symm.trans hq
        exact hserial
      · rw [if_pos hserial]
        exact ⟨fun h => absurd (h.2 q hfirst) hserial, fun _ => rfl⟩

theorem check_complete_spec (ds : Dataset) : (check_complete ds).2.dsp = ds.dsp ∧
    (check_complete ds).2.dspcount = ds.dspcount ∧
    ((∃ rc, (check_complete ds).1 = .error rc) ↔ ds.LeavesGap) := by
  rw [check_complete]
  by_cases hends : ds.ends = true
  · rw [if_pos hends]
    by_cases hall : ∀ l < ds.dspcount, ds.dsp l ≠ none
    · rw [if_pos hall]
      refine ⟨rfl, rfl, iff_of_false (by simp) ?_⟩
      rintro ⟨-, l, hl, hnone⟩
      exact hall l hl hnone
    · rw [if_neg hall]
      refine ⟨rfl, rfl, iff_of_true ⟨_, rfl⟩ ⟨hends, ?_⟩⟩
      by_contra hno
      exact hall fun l hl hnone => hno ⟨l, hl, hnone⟩
  · rw [if_neg hends]
    exact ⟨rfl, rfl, iff_of_false (by simp) fun h => hends h.1⟩

theorem dataset_merge_single (hk : k < MAXVOLUMESPERDS) :
    (¬baseds.Accepts k p → dataset_merge_dataset baseds (.single name k p) = (.error .EPROTO, baseds)) ∧
    (baseds.Accepts k p → (dataset_merge_dataset baseds (.single name k p)).2.dsp = (baseds.add_part k p).dsp ∧
      (dataset_merge_dataset baseds (.single name k p)).2.dspcount = (baseds.add_part k p).dspcount ∧
      ((∃ rc, (dataset_merge_dataset baseds (.single name k p)).1 = .error rc) ↔
        (baseds.add_part k p).LeavesGap)) := by
  obtain ⟨hacc, hrej⟩ := @merge_single name k p baseds hk
  refine ⟨fun h => ?_, fun h => ?_⟩
  · rw [dataset_merge_dataset, hrej h]
  · obtain ⟨hdsp, hcount, herror⟩ := check_complete_spec (baseds.add_part k p)
    rw [dataset_merge_dataset, hacc h]
    exact ⟨hdsp, hcount, herror⟩

end

/-! ## Merging into the root -/

/-- A failed merge changes no data set, and no part that the caller frees is in one. -/
def Intact (newds : Dataset) (root : List Dataset) : Prop :=
  ∀ rc root', zdsroot_merge_dataset newds root = (.error rc, root') →
    root' = root ∧ ∀ ds ∈ root', ∀ i q, ds.dsp i = some q → ∀ j q', newds.dsp j = some q' → q.address ≠ q'.address

/-- If the data set of the name takes the new part, no part in front of its last volume is missing. -/
def Clean (name : Bytes) (k : Nat) (p : DatasetPart) (root : List Dataset) : Prop :=
  ∀ ds, root.find? (fun ds => ds.name = name) = some ds → ds.Accepts k p → ¬(ds.add_part k p).LeavesGap

def Fresh (p : DatasetPart) (root : List Dataset) : Prop := ∀ ds ∈ root, ∀ i q, ds.dsp i = some q →
    q.address ≠ p.address

section
variable {name : Bytes} {k : Nat} {p : DatasetPart} {root : List Dataset}

theorem merge_error_iff (hk : k < MAXVOLUMESPERDS) : ∀ {root : List Dataset},
    (Clean name k p root → ∀ rc root', zdsroot_merge_dataset (.single name k p) root =
      (.error rc, root') → root' = root) ∧
    (¬Clean name k p root → ∃ rc root', zdsroot_merge_dataset (.single name k p) root = (.error rc, root') ∧
      ∃ ds ∈ root', ds.dsp k = some p)
  | [] => by
    refine ⟨fun _ rc root' h => ?_, fun h => absurd (fun ds hds => ?_) h⟩
    · cases h
    · cases hds
  | ds :: root => by
    by_cases hname : ds.name = name
    · have hfind : ∀ ds', (ds :: root).find? (fun ds => ds.name = name) = some ds' ↔ ds = ds' := fun ds' => by
        rw [List.find?_cons_of_pos (by simpa using hname), Option.some_inj]
      have hmerge : zdsroot_merge_dataset (.single name k p) (ds :: root) =
          ((dataset_merge_dataset ds (.single name k p)).1,
            (dataset_merge_dataset ds (.single name k p)).2 :: root) := by
        rw [zdsroot_merge_dataset, if_pos (show ds.name = (Dataset.single name k p).name from hname)]
      obtain ⟨hrej, hacc⟩ := @dataset_merge_single name k p ds hk
      constructor
      · intro hclean rc root' h
        rw [hmerge] at h
        by_cases haccepts : ds.Accepts k p
        · have herror := (hacc haccepts).2.2.mp ⟨rc, (Prod.ext_iff.mp h).1⟩
          exact absurd herror (hclean ds ((hfind ds).mpr rfl) haccepts)
        · rw [hrej haccepts] at h
          exact (Prod.ext_iff.mp h).2.symm
      · intro hnot
        have hgap : ds.Accepts k p ∧ (ds.add_part k p).LeavesGap := by
          by_contra hno
          refine hnot fun ds' hds' haccepts hgap => hno ?_
          cases (hfind ds').mp hds'
          exact ⟨haccepts, hgap⟩
        obtain ⟨hdsp, -, herror⟩ := hacc hgap.1
        obtain ⟨rc, hrc⟩ := herror.mpr hgap.2
        refine ⟨rc, _, hmerge.trans (Prod.ext hrc rfl), _, List.mem_cons_self, ?_⟩
        rw [hdsp]
        exact Function.update_self ..
    · have hmerge : zdsroot_merge_dataset (.single name k p) (ds :: root) =
          ((zdsroot_merge_dataset (.single name k p) root).1,
            ds :: (zdsroot_merge_dataset (.single name k p) root).2) := by
        rw [zdsroot_merge_dataset, if_neg (show ds.name ≠ (Dataset.single name k p).name from hname)]
      have hclean : Clean name k p (ds :: root) ↔ Clean name k p root := by
        rw [Clean, Clean, List.find?_cons_of_neg (by simpa using hname)]
      obtain ⟨ih1, ih2⟩ := @merge_error_iff hk root
      rw [hclean, hmerge]
      constructor
      · intro hc rc root' h
        obtain ⟨h1, rfl⟩ := Prod.ext_iff.mp h
        exact congrArg (ds :: ·) (ih1 hc rc _ (Prod.ext h1 rfl))
      · intro hc
        obtain ⟨rc, root', h, ds', hds', hdsp⟩ := ih2 hc
        rw [h]
        exact ⟨rc, _, rfl, ds', List.mem_cons_of_mem _ hds', hdsp⟩

theorem failed_merge (hk : k < MAXVOLUMESPERDS) (hfresh : Fresh p root) :
    Intact (.single name k p) root ↔ Clean name k p root := by
  obtain ⟨hclean, hnot⟩ := @merge_error_iff name k p hk root
  constructor
  · intro h
    by_contra hc
    obtain ⟨rc, root', herror, ds, hds, hdsp⟩ := hnot hc
    exact (h rc root' herror).2 ds hds k p hdsp k p (if_pos rfl) rfl
  · intro hc rc root' herror
    have hroot := hclean hc rc root' herror
    refine ⟨hroot, fun ds hds i q hq j q' hq' => ?_⟩
    rw [single_dsp hq']
    rw [hroot] at hds
    exact hfresh ds hds i q hq

theorem failed_merge_intact_iff (hk : k < MAXVOLUMESPERDS) (hfresh : Fresh p root) :
    Intact (.single name k p) root ↔ Clean name k p root := failed_merge hk hfresh

end

/-! ## All data sets of a DASD -/

/-- The new parts are allocated one by one, and each merge that is made is clean. -/
def CleanRun : List Created → List Dataset → Prop
  | [], _ => True
  | .failed _ :: _, _ => True
  | .not_merged _ new :: _, root => Fresh new.part root
  | .merged new :: rest, root =>
    Fresh new.part root ∧ Clean new.name new.dspindex new.part root ∧
      ∀ root', zdsroot_merge_dataset new.dataset root = (.ok (), root') → CleanRun rest root'

theorem fresh_parts {new : NewDataset} {root : List Dataset} (hfresh : Fresh new.part root) :
    ∀ q' ∈ new.dataset.parts, ∀ ds ∈ root, ∀ i q, ds.dsp i = some q → q.address ≠ q'.address := by
  intro q' hq'
  obtain ⟨j, -, hj⟩ := List.mem_filterMap.mp hq'
  rw [single_dsp hj]
  exact hfresh

/-- Wherever the loop ends, no part that it frees is held by the root. -/
theorem extracted_parts_kept : ∀ (created : List Created) (root : List Dataset), CleanRun created root →
    ∀ rc root' freed, lzds_zdsroot_extract_datasets_from_dasd created root = (rc, root', freed) →
      ∀ q' ∈ freed, ∀ ds ∈ root', ∀ i q, ds.dsp i = some q → q.address ≠ q'.address
  | [], root, _, rc, root', freed, h => by
    cases h
    exact fun _ h => absurd h List.not_mem_nil
  | .failed e :: rest, root, _, rc, root', freed, h => by
    cases h
    exact fun _ h => absurd h List.not_mem_nil
  | .not_merged e new :: rest, root, hfresh, rc, root', freed, h => by
    cases h
    exact fresh_parts hfresh
  | .merged new :: rest, root, ⟨hfresh, hclean, hrest⟩, rc, root', freed, h => by
    rw [lzds_zdsroot_extract_datasets_from_dasd] at h
    cases hmerge : zdsroot_merge_dataset new.dataset root with
    | mk rc₁ root₁ =>
      rw [hmerge] at h
      cases rc₁ with
      | error e =>
        have hintact := ((failed_merge new.dspindex_lt hfresh).mpr hclean) e root₁ hmerge
        dsimp only at h
        cases h
        intro q' hq' ds hds i q hq
        obtain ⟨j, -, hj⟩ := List.mem_filterMap.mp hq'
        exact hintact.2 ds hds i q hq j q' hj
      | ok u => exact extracted_parts_kept rest root₁ (hrest root₁ hmerge) rc root' freed h

def sampleCreated : List Created :=
  [.merged ⟨[0x44], 0, ⟨100, [1, 2, 3, 4, 5, 6], 0⟩, by decide⟩,
    .not_merged 5 ⟨[0x45], 0, ⟨200, [1, 2, 3, 4, 5, 6], 128⟩, by decide⟩]

theorem extracted_parts_kept_two : ∃ root',
    lzds_zdsroot_extract_datasets_from_dasd sampleCreated [] =
      (.failed 5, root', [⟨200, [1, 2, 3, 4, 5, 6], 128⟩]) ∧
      (∃ ds ∈ root', ds.dsp 0 = some ⟨100, [1, 2, 3, 4, 5, 6], 0⟩) ∧
      ∀ ds ∈ root', ∀ i q, ds.dsp i = some q → q.address ≠ 200 := by
  have hrun : CleanRun sampleCreated [] := by
    refine ⟨fun _ h => absurd h List.not_mem_nil, fun ds hds => ?_, fun root' hmerge => ?_⟩
    · cases hds
    · cases hmerge
      intro ds hds i q hq
      obtain rfl := List.mem_singleton.mp hds
      rw [single_dsp hq]
      decide
  exact ⟨_, rfl, ⟨_, List.mem_cons_self, rfl⟩,
    extracted_parts_kept sampleCreated [] hrun _ _ _ rfl _ List.mem_cons_self⟩

def sampleRoot : List Dataset := [.single [0x44] 1 ⟨100, [1, 2, 3, 4, 5, 6], 128⟩]

/-- The position is taken: the merge fails, and the root stays as it is. -/
theorem failed_merge_intact_sample :
    (∃ root', zdsroot_merge_dataset (.single [0x44] 1 ⟨200, [1, 2, 3, 4, 5, 6], 0⟩) sampleRoot =
      (.error .EPROTO, root')) ∧
      Intact (.single [0x44] 1 ⟨200, [1, 2, 3, 4, 5, 6], 0⟩) sampleRoot := by
  refine ⟨⟨_, rfl⟩, (failed_merge_intact_iff (by decide) fun ds hds i q hq => ?_).mpr fun ds hds haccepts => ?_⟩
  · rw [List.mem_singleton.mp hds] at hq
    rw [single_dsp hq]
    decide
  · obtain rfl := Option.some.inj hds
    cases haccepts.1

/-- The part in front of the last volume is missing: the new part stays in the root and is freed. -/
theorem freed_part_kept : ∃ rc root',
    zdsroot_merge_dataset (.single [0x44] 2 ⟨200, [1, 2, 3, 4, 5, 6], 0⟩) sampleRoot =
    (.error rc, root') ∧ (∃ ds ∈ root', ds.dsp 2 = some ⟨200, [1, 2, 3, 4, 5, 6], 0⟩) ∧
    ¬Intact (.single [0x44] 2 ⟨200, [1, 2, 3, 4, 5, 6], 0⟩) sampleRoot := by
  refine ⟨.EPROTO, _, rfl, ⟨_, List.mem_cons_self, rfl⟩, fun h => ?_⟩
  exact (h .EPROTO _ rfl).2 _ List.mem_cons_self 2 _ rfl 2 _ rfl rfl

end Libzds
