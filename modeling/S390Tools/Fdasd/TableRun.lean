import S390Tools.Lib.Run
import S390Tools.Fdasd.Rebuild

/-!
# Runs of fdasd

A run is a sequence of commands between a recreated table of contents and the
end of the session. The representations of the table stay in step in every run.
-/

namespace Fdasd

open Word Vtoc DList Ranges

inductive Action
  | add (today : Labeldate) (start stop : Nat)
  | remove (part_id : Nat)
  | reuse (today : Labeldate)

def step (geo : HdGeometry) (anc : FdasdAnchor) : Action → Option FdasdAnchor
  | .add today start stop => (fdasd_add_partition geo today (fun _ => .ok (some (start, stop))) anc).toOption
  | .remove part_id => (fdasd_remove_partition geo anc part_id).toOption
  | .reuse today => (fdasd_reuse_vtoc geo today anc).toOption

def Chosen (geo : HdGeometry) (anc : FdasdAnchor) : Action → Prop
  | .add _ start stop => FreeRange geo anc start stop
  | _ => True

instance (geo : HdGeometry) (anc : FdasdAnchor) : ∀ a, Decidable (Chosen geo anc a)
  | .add _ start stop => inferInstanceAs (Decidable (FreeRange geo anc start stop))
  | .remove _ => isTrue trivial
  | .reuse _ => isTrue trivial

section
variable {geo : HdGeometry} {anc : FdasdAnchor} {us fs : List Node}

theorem Table.fits (h : Table geo anc us fs) {start stop : Nat} (hr : FreeRange geo anc start stop)
    (hlt : us.length < USABLE_PARTITIONS) :
    ∃ us₁ us₂ fs' x, us = us₁ ++ us₂ ∧ fs = fs' ++ [x] ∧ Fits geo anc us₁ us₂ fs' x start stop := by
  obtain ⟨fs', x, rfl⟩ := (List.eq_nil_or_concat' fs).resolve_left (h.fs_ne_nil hlt)
  obtain ⟨us₁, us₂, rfl, hfront, hbehind⟩ := exists_front us fun n => start < (anc.info n).start_trk
  exact ⟨us₁, us₂, fs', x, rfl, rfl, h, hr, fun n hn => not_lt.mp (hfront n hn), hbehind⟩

theorem Table.step (D : Disk geo anc.formatted_cylinders) (h : Table geo anc us fs) (a : Action)
    (ha : Chosen geo anc a) :
    ∃ anc', step geo anc a = some anc' ∧ anc'.formatted_cylinders = anc.formatted_cylinders ∧
      ∃ us fs, Table geo anc' us fs := by
  cases a with
  | add today start stop =>
    simp only [Fdasd.step, fdasd_add_partition, fdasd_get_empty_f1_label, h.count]
    by_cases hlt : us.length < USABLE_PARTITIONS
    · obtain ⟨us₁, us₂, fs', x, rfl, rfl, hf⟩ := h.fits ha hlt
      obtain ⟨L, l, hadd, ht, -⟩ := hf.add D today
      have hlast : anc.last = some x := by rw [h.list.last_eq]; simp
      rw [if_pos hlt, hlast]
      simp only [hadd]
      exact ⟨_, rfl, rfl, _, _, ht⟩
    · rw [if_neg hlt]
      exact ⟨anc, rfl, rfl, us, fs, h⟩
  | remove part_id =>
    simp only [Fdasd.step]
    by_cases hp : part_id = 0 ∨ part_id > anc.used_partitions
    · refine ⟨anc, ?_, rfl, us, fs, h⟩
      rw [fdasd_remove_partition, if_pos hp]; rfl
    · have hlt : part_id - 1 < us.length := by have := h.count; omega
      have hus : us = us.take (part_id - 1) ++ us[part_id - 1] :: us.drop (part_id - 1 + 1) := by
        rw [List.cons_getElem_drop_succ, List.take_append_drop]
      have hlen : (us.take (part_id - 1)).length + 1 = part_id := by
        rw [List.length_take]; omega
      rw [hus] at h
      obtain ⟨L, l, dsn, -, hrm, ht, -⟩ := h.remove D
      rw [hlen] at hrm
      rw [hrm]
      exact ⟨_, rfl, rfl, _, _, ht⟩
  | reuse today =>
    obtain ⟨l, hr, ht⟩ := h.reuse D today
    simp only [Fdasd.step, hr]
    exact ⟨_, rfl, rfl, us, fs, ht⟩

/-- In every run from a recreated table of contents on, no command stops and the list, the free
space counters and the free space labels describe the same partitions. -/
theorem table_run {xs : List Node} (D : Disk geo anc.formatted_cylinders) (hw : WellLinked anc xs)
    {anc₀ : FdasdAnchor} (h₀ : fdasd_recreate_vtoc_unconditional geo anc = .ok anc₀) (as : List Action)
    (hadm : Run.Admissible (Fdasd.step geo) (Chosen geo) anc₀ as) :
    ∃ anc', Run.exec (Fdasd.step geo) anc₀ as = some anc' ∧ ∃ us fs, Table geo anc' us fs := by
  obtain ⟨l, hl, -, ht⟩ := recreate_table D hw
  obtain rfl : recreated geo anc l = anc₀ := Except.ok.inj (hl.symm.trans h₀)
  obtain ⟨anc', hex, -, hinv⟩ := Run.exec_inv
    (fun a => a.formatted_cylinders = anc.formatted_cylinders ∧ ∃ us fs, Table geo a us fs)
    (fun a act ⟨hf, us, fs, ht⟩ hok => by
      obtain ⟨a', h₁, h₂, h₃⟩ := ht.step (by rw [hf]; exact D) act hok
      exact ⟨a', h₁, h₂.trans hf, h₃⟩)
    as (recreated geo anc l) ⟨rfl, [], xs, ht⟩ hadm
  exact ⟨anc', hex, hinv⟩

end

def smallGeo : HdGeometry := ⟨15, 12, 100⟩
def smallDisk : FdasdAnchor := { fdasd_initialize_anchor with formatted_cylinders := 100 }
def smallRun : List Action := [.add ⟨0, 1⟩ 2 100, .add ⟨0, 1⟩ 200 300, .remove 1, .reuse ⟨0, 1⟩]

theorem smallDisk_wellLinked : WellLinked smallDisk (List.finRange USABLE_PARTITIONS) :=
  ⟨initialize_wellLinked.list, rfl, initialize_wellLinked.clear⟩

theorem smallDisk_run : ∃ anc₀ anc', fdasd_recreate_vtoc_unconditional smallGeo smallDisk = .ok anc₀ ∧
    Run.exec (Fdasd.step smallGeo) anc₀ smallRun = some anc' ∧ ∃ us fs, Table smallGeo anc' us fs := by
  have D : Disk smallGeo smallDisk.formatted_cylinders := ⟨by decide, by decide, by decide, by decide, by decide⟩
  have hadm : (match fdasd_recreate_vtoc_unconditional smallGeo smallDisk with
      | .ok anc₀ => decide (Run.Admissible (Fdasd.step smallGeo) (Chosen smallGeo) anc₀ smallRun)
      | .error _ => false) = true := by
    decide
  cases h : fdasd_recreate_vtoc_unconditional smallGeo smallDisk with
  | error e => rw [h] at hadm; cases hadm
  | ok anc₀ =>
    rw [h] at hadm
    obtain ⟨anc', h₁, h₂⟩ := table_run D smallDisk_wellLinked h smallRun (of_decide_eq_true hadm)
    exact ⟨anc₀, anc', rfl, h₁, h₂⟩

def hugeGeo : HdGeometry := ⟨15, 12, 65534⟩
def hugeDisk : FdasdAnchor := { fdasd_initialize_anchor with formatted_cylinders := 286331154 }

theorem hugeDisk_recreate :
    (fdasd_recreate_vtoc_unconditional hugeGeo hugeDisk).map
        (fun a => (a.fspace_trk, a.used_partitions, a.formatted_cylinders)) =
      .ok (12, 0, 286331154) := by
  decide

/-- The number of tracks of this disk does not fit into 32 bits. -/
theorem hugeDisk_no_table : ∃ anc₀, fdasd_recreate_vtoc_unconditional hugeGeo hugeDisk = .ok anc₀ ∧
    ∀ us fs, ¬ Table hugeGeo anc₀ us fs := by
  have h := hugeDisk_recreate
  cases ho : fdasd_recreate_vtoc_unconditional hugeGeo hugeDisk with
  | error e => rw [ho] at h; cases h
  | ok anc₀ =>
    rw [ho] at h
    obtain ⟨h₁, h₂, h₃⟩ : anc₀.fspace_trk = 12 ∧ anc₀.used_partitions = 0 ∧
        anc₀.formatted_cylinders = 286331154 := by
      simpa [Except.map] using h
    refine ⟨anc₀, rfl, fun us fs ht => ?_⟩
    have hus : us = [] := List.length_eq_zero_iff.mp (ht.count.symm.trans h₂)
    have hgap := ht.head_gap
    rw [hus, h₁] at hgap
    simp only [List.map_nil, nextStart, tracks, h₃, hugeGeo] at hgap
    exact absurd hgap (by decide)

end Fdasd
