import S390Tools.Vtoc.Freespace

/-!
# The guard against freeing tracks twice

Before a range is recorded it is compared with the extents in front of the first
empty slot. The comparison of format 5 leaves out ranges that begin where the
extent begins, the one of format 7 all that contain the extent or lie in it.
-/

namespace SlotTable

section
variable {ε : Type*} {K : Kind ε}

theorem place_overlapping_iff {new : ε} {slots : List ε} : place K new slots = .error .overlapping ↔
    ∃ pre ext post, slots = pre ++ ext :: post ∧ K.overlaps new ext = true ∧ ∀ e ∈ pre, K.isEmpty e = false := by
  induction slots with
  | nil =>
    constructor
    · intro h
      cases h
    · rintro ⟨pre, ext, post, h, -⟩
      simp at h
  | cons e slots ih =>
    rw [place]
    by_cases ho : K.overlaps new e = true
    · rw [if_pos ho]
      exact ⟨fun _ => ⟨[], e, slots, rfl, ho, fun _ h => absurd h List.not_mem_nil⟩, fun _ => rfl⟩
    rw [if_neg ho]
    have hcons : (∃ pre ext post, e :: slots = pre ++ ext :: post ∧ K.overlaps new ext = true ∧
        ∀ x ∈ pre, K.isEmpty x = false) ↔ K.isEmpty e = false ∧ place K new slots = .error .overlapping := by
      rw [ih]
      constructor
      · rintro ⟨pre, ext, post, h, hext, hpre⟩
        cases pre with
        | nil =>
          cases h
          exact absurd hext ho
        | cons x pre =>
          cases h
          exact ⟨hpre _ List.mem_cons_self, pre, ext, post, rfl, hext, fun y hy =>
            hpre y (List.mem_cons_of_mem _ hy)⟩
      · rintro ⟨he, pre, ext, post, rfl, hext, hpre⟩
        exact ⟨e :: pre, ext, post, rfl, hext, List.forall_mem_cons.mpr ⟨he, hpre⟩⟩
    rw [hcons]
    by_cases he : K.isEmpty e = true
    · rw [if_pos he]
      constructor
      · intro h
        cases h
      · intro h
        exact absurd he (by simp [h.1])
    · rw [if_neg he]
      cases hplace : place K new slots with
      | error f => simp only [Bool.eq_false_iff.mpr he, true_and]
      | ok r =>
        constructor
        · intro h
          cases h
        · intro h
          cases h.2

theorem add_overlapping_iff {new : ε} {slots : List ε} :
    add K slots new = .error .overlapping ↔ place K new slots = .error .overlapping := by
  rw [add]
  cases place K new slots with
  | error f => simp only [Except.error.injEq]
  | ok r =>
    constructor
    · intro h
      cases h
    · intro h
      cases h

end

end SlotTable

namespace Vtoc

open Word Ranges SlotTable

/-! ## Labels of sorted extents -/

def Meets (r s : Nat × Nat) : Prop := ∃ t, In t r ∧ In t s

theorem meets_iff {r s : Nat × Nat} (hr : r.1 < r.2) (hs : s.1 < s.2) : Meets r s ↔ r.1 < s.2 ∧ s.1 < r.2 := by
  constructor
  · rintro ⟨t, h₁, h₂⟩
    exact ⟨Nat.lt_of_le_of_lt h₁.1 h₂.2, Nat.lt_of_le_of_lt h₂.1 h₁.2⟩
  · intro h
    by_cases hle : r.1 ≤ s.1
    · exact ⟨s.1, ⟨hle, h.2⟩, le_refl _, hs⟩
    · exact ⟨r.1, ⟨le_refl _, hr⟩, Nat.le_of_not_le hle, h.1⟩

structure Recorded {ε : Type} (zero : ε) (span : ε → Nat × Nat) (slots es : List ε) : Prop where
  slots : ∃ k, slots = es ++ List.replicate k zero
  nonempty : ∀ e ∈ es, (span e).1 < (span e).2
  sorted : es.Pairwise fun e e' => (span e).2 ≤ (span e').1

section
variable {ε : Type} {K : Kind ε} {span : ε → Nat × Nat} {slots es : List ε} {new : ε}

theorem Recorded.overlapping_iff (h : Recorded K.zero span slots es) (hnew : K.overlaps new K.zero = false) :
    add K slots new = .error .overlapping ↔
      ∃ pre ext post, es = pre ++ ext :: post ∧ K.overlaps new ext = true ∧ ∀ e ∈ pre, K.isEmpty e = false := by
  obtain ⟨k, hslots⟩ := h.slots
  have hzero : ∀ e ∈ List.replicate k K.zero, K.overlaps new e = false := fun e he => by
    rw [List.eq_of_mem_replicate he, hnew]
  rw [add_overlapping_iff, place_overlapping_iff, hslots]
  constructor
  · rintro ⟨pre, ext, post, heq, hext, hpre⟩
    rcases List.append_eq_append_iff.mp heq with ⟨a, -, ha⟩ | ⟨c, hes, hc⟩
    · have hmem : ext ∈ List.replicate k K.zero := by
        rw [ha]
        exact List.mem_append_right _ List.mem_cons_self
      rw [hzero ext hmem] at hext
      exact nomatch hext
    · cases c with
      | nil =>
        have hmem : ext ∈ List.replicate k K.zero := by
          rw [List.nil_append] at hc
          rw [← hc]
          exact List.mem_cons_self
        rw [hzero ext hmem] at hext
        exact nomatch hext
      | cons x c =>
        cases hc
        exact ⟨pre, _, c, hes, hext, hpre⟩
  · rintro ⟨pre, ext, post, rfl, hext, hpre⟩
    exact ⟨pre, ext, post ++ List.replicate k K.zero, by simp, hext, hpre⟩

end

section
variable {trk a b c : Nat}

theorem fmt5_overlaps_iff {ext : Ds5ext} (hext : ext.t < ext.stop trk) (hpos : 0 < b * trk + c) :
    (fmt5 trk).overlaps ⟨a, b, c⟩ ext = true ↔ Meets (ext.span trk) (a, a + b * trk + c) ∧ ext.t ≠ a := by
  rw [meets_iff hext (show a < a + b * trk + c by omega)]
  simp only [fmt5, Bool.or_eq_true, Bool.and_eq_true, decide_eq_true_eq]
  rw [show (⟨a, b, c⟩ : Ds5ext).stop trk = a + b * trk + c from rfl]
  show _ ↔ (ext.t < a + b * trk + c ∧ a < ext.stop trk) ∧ _
  omega

theorem fmt5_overlaps_zero : (fmt5 trk).overlaps ⟨a, b, c⟩ (fmt5 trk).zero = false := by
  simp [fmt5, Ds5ext.zero, Ds5ext.stop]

theorem fmt5_nonempty {ext : Ds5ext} (hext : ext.t < ext.stop trk) : (fmt5 trk).isEmpty ext = false := by
  refine beq_eq_false_iff_ne.mpr fun h => ?_
  have hzero : ext.fc = 0 ∧ ext.ft = 0 := by omega
  rw [Ds5ext.stop, hzero.1, hzero.2] at hext
  omega

end

section
variable {a b : Nat}

theorem fmt7_overlaps_iff {ext : Ds7ext} : fmt7.overlaps ⟨a, b⟩ ext = true ↔
    a < ext.a ∧ ext.a < b ∧ b < ext.b ∨ ext.a < a ∧ a < ext.b ∧ ext.b < b := by
  simp only [fmt7, Bool.or_eq_true, Bool.and_eq_true, decide_eq_true_eq]
  omega

theorem fmt7_overlaps_zero : fmt7.overlaps ⟨a, b⟩ fmt7.zero = false := by
  simp [fmt7, Ds7ext.zero]

theorem fmt7_nonempty_iff {ext : Ds7ext} : fmt7.isEmpty ext = false ↔ u32 (ext.a + ext.b : Nat) ≠ 0 :=
  beq_eq_false_iff_ne

end

/-! ## The exits -/

/-- Of the ranges that meet an extent, format 5 refuses those that meet one that begins elsewhere, and format
7 those that overlap the beginning or the end of one, with no extent in front of it whose limits add up to
zero. -/
theorem overlap_exit {f5 : Format5Label} {es5 : List Ds5ext} {trk a b c : Nat}
    (h5 : Recorded .zero (Ds5ext.span trk) f5.exts es5)
    {f7 : Format7Label} {es7 : List Ds7ext} {a' b' : Nat} (h7 : Recorded .zero Ds7ext.span f7.exts es7) :
    ((∃ e ∈ es5, Meets (e.span trk) (a, a + b * trk + c)) →
      (vtoc_update_format5_label_add f5 trk a b c = .error (.fmt5 .overlapping) ↔
        ∃ e ∈ es5, Meets (e.span trk) (a, a + b * trk + c) ∧ e.t ≠ a)) ∧
    ((∃ e ∈ es7, Meets e.span (a', b')) →
      (vtoc_update_format7_label_add f7 a' b' = .error (.fmt7 .overlapping) ↔
        ∃ (pre : List Ds7ext) (e : Ds7ext) (post : List Ds7ext), es7 = pre ++ e :: post ∧ (∀ x ∈ pre, u32 (x.a + x.b : Nat) ≠ 0) ∧
          (a' < e.a ∧ e.a < b' ∧ b' < e.b ∨ e.a < a' ∧ a' < e.b ∧ e.b < b'))) := by
  constructor
  · rintro ⟨-, -, t, -, ht⟩
    have hpos : 0 < b * trk + c := by
      have hle : a ≤ t := ht.1
      have hlt : t < a + b * trk + c := ht.2
      omega
    have hadd : vtoc_update_format5_label_add f5 trk a b c = .error (.fmt5 .overlapping) ↔
        add (fmt5 trk) f5.exts ⟨a, b, c⟩ = .error .overlapping := by
      rw [vtoc_update_format5_label_add]
      cases add (fmt5 trk) f5.exts ⟨a, b, c⟩ <;> simp
    have hone := @Recorded.overlapping_iff _ (fmt5 trk) _ _ _ ⟨a, b, c⟩ h5 fmt5_overlaps_zero
    rw [hadd, hone]
    constructor
    · rintro ⟨pre, ext, post, rfl, hext, -⟩
      have hmem : ext ∈ pre ++ ext :: post := List.mem_append_right _ List.mem_cons_self
      exact ⟨ext, hmem, (fmt5_overlaps_iff (h5.nonempty ext hmem) hpos).mp hext⟩
    · rintro ⟨ext, hmem, hext⟩
      obtain ⟨pre, post, rfl⟩ := List.append_of_mem hmem
      refine ⟨pre, ext, post, rfl, (fmt5_overlaps_iff (h5.nonempty ext hmem) hpos).mpr hext, fun e he => ?_⟩
      exact fmt5_nonempty (h5.nonempty e (List.mem_append_left _ he))
  · intro _
    have hadd : vtoc_update_format7_label_add f7 a' b' = .error (.fmt7 .overlapping) ↔
        add fmt7 f7.exts ⟨a', b'⟩ = .error .overlapping := by
      rw [vtoc_update_format7_label_add]
      cases add fmt7 f7.exts ⟨a', b'⟩ <;> simp
    have hone := @Recorded.overlapping_iff _ fmt7 _ _ _ ⟨a', b'⟩ h7 fmt7_overlaps_zero
    rw [hadd, hone]
    simp only [fmt7_overlaps_iff, fmt7_nonempty_iff]
    constructor
    · rintro ⟨pre, ext, post, hes, hext, hpre⟩
      exact ⟨pre, ext, post, hes, hpre, hext⟩
    · rintro ⟨pre, ext, post, hes, hpre, hext⟩
      exact ⟨pre, ext, post, hes, hext, hpre⟩

def free5 : Format5Label := { vtoc_init_format5_label with exts := ⟨30, 2, 0⟩ :: List.replicate 25 .zero }

def free7 : Format7Label := { vtoc_init_format7_label with exts := ⟨30, 60⟩ :: List.replicate 15 .zero }

theorem free5_recorded : Recorded .zero (Ds5ext.span 15) free5.exts [⟨30, 2, 0⟩] :=
  ⟨⟨25, rfl⟩, by decide, List.pairwise_singleton ..⟩

theorem free7_recorded : Recorded .zero Ds7ext.span free7.exts [⟨30, 60⟩] :=
  ⟨⟨15, rfl⟩, by decide, List.pairwise_singleton ..⟩

theorem overlap_exit_front : vtoc_update_format5_label_add free5 15 20 1 0 = .error (.fmt5 .overlapping) ∧
    vtoc_update_format7_label_add free7 20 35 = .error (.fmt7 .overlapping) := by
  have h5 : Meets (Ds5ext.span 15 ⟨30, 2, 0⟩) (20, 20 + 1 * 15 + 0) :=
    (meets_iff (by decide) (by decide)).mpr (by decide)
  have h7 : Meets (Ds7ext.span ⟨30, 60⟩) (20, 35) := (meets_iff (by decide) (by decide)).mpr (by decide)
  have h := @overlap_exit free5 _ 15 20 1 0 free5_recorded free7 _ 20 35 free7_recorded
  refine ⟨(h.1 ⟨_, List.mem_singleton_self _, h5⟩).mpr ⟨_, List.mem_singleton_self _, h5, by decide⟩,
    (h.2 ⟨_, List.mem_singleton_self _, h7⟩).mpr ⟨[], _, [], rfl, ?_, by decide⟩⟩
  exact fun _ hx => absurd hx List.not_mem_nil

/-- Freeing the same range again is recorded in both formats. -/
theorem freed_twice : Recorded .zero (Ds5ext.span 15) free5.exts [⟨30, 2, 0⟩] ∧
    Recorded .zero Ds7ext.span free7.exts [⟨30, 60⟩] ∧
    (vtoc_update_format5_label_add free5 15 30 2 0 = .ok { free5 with
      exts := ⟨30, 2, 0⟩ :: ⟨30, 2, 0⟩ :: List.replicate 24 .zero }) ∧
    vtoc_update_format7_label_add free7 30 60 =
      .ok { free7 with exts := ⟨30, 60⟩ :: ⟨30, 60⟩ :: List.replicate 14 .zero } :=
  ⟨free5_recorded, free7_recorded, by decide, by decide⟩

end Vtoc
