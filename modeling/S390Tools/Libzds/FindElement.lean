import S390Tools.Libzds.SeekBuffer
import S390Tools.Lib.Boundary

/-!
# Searching the seek buffer (libzds/libzds.c)

The elements of the seek buffer are sorted by their offset in the data set.
`lseek` starts at the last one that does not lie behind the position it looks for.
-/

namespace Libzds

open Word

/-! ## The search -/

/-- The `seek_current` stored elements, as they lie in memory. -/
structure SeekList where
  seekbuf : List SeekElement
  in_memory : seekbuf.length * sizeofSeekelement ≤ 2 ^ 64

inductive FindFailure where
  | EINVAL
  | outside
  deriving DecidableEq

section
variable (seekbuf : List SeekElement) (offset : Nat)

def find_loop : Nat → Nat → Nat → Nat → Option (Except FindFailure Nat)
  | steps, low, high, index =>
    if low = high then some (.ok low)
    else
      match steps with
      | 0 => none
      | steps + 1 =>
        match seekbuf[index]? with
        | none => some (.error .outside)
        | some e =>
          if e.databufoffset ≤ offset then find_loop steps index high (u64 (high + index + 1 : Nat) / 2)
          else
            let high := u64 ((index : Int) - 1)
            find_loop steps low high (u64 (high + low : Nat) / 2)

def dshandle_find_seekelement (steps : Nat) : Option (Except FindFailure Nat) :=
  let seek_current := seekbuf.length
  if seek_current = 0 then some (.error .EINVAL)
  else
    match seekbuf[u64 ((seek_current : Int) - 1)]? with
    | none => some (.error .outside)
    | some e =>
      -- special case for the last element in the list
      if e.databufoffset ≤ offset then some (.ok (seek_current - 1))
      else
        -- search starts with `high` set to the second to last element
        let high := u64 ((seek_current : Int) - 2)
        find_loop seekbuf offset steps 0 high (u64 (high + 0 : Nat) / 2)

end

/-! ## The element it finds -/

section
variable {seekbuf : List SeekElement} {offset : Nat}

def Starts (seekbuf : List SeekElement) (offset i : Nat) : Prop := ∃ e, seekbuf[i]? = some e ∧
    e.databufoffset ≤ offset

theorem starts_prefix (hsorted : seekbuf.Pairwise fun e e' => e.databufoffset ≤ e'.databufoffset)
    (i j : Nat) (hij : i ≤ j)
    (h : Starts seekbuf offset j) : Starts seekbuf offset i := by
  obtain ⟨e, he, hle⟩ := h
  obtain ⟨hj, rfl⟩ := List.getElem?_eq_some_iff.mp he
  rcases Nat.eq_or_lt_of_le hij with rfl | hlt
  · exact ⟨_, he, hle⟩
  · have hi := Nat.lt_trans hlt hj
    exact ⟨_, List.getElem?_eq_getElem hi, Nat.le_trans (List.pairwise_iff_getElem.mp hsorted i j hi hj hlt) hle⟩

theorem probe {n b index : Nat} (hb : Boundary (Starts seekbuf offset) n b)
    (hn : n ≤ seekbuf.length) (hi : index < n) :
    ∃ e, seekbuf[index]? = some e ∧ (e.databufoffset ≤ offset ↔ index < b) := by
  refine ⟨_, List.getElem?_eq_getElem (Nat.lt_of_lt_of_le hi hn), ?_⟩
  rw [← hb.iff index hi]
  constructor
  · exact fun h => ⟨_, List.getElem?_eq_getElem (Nat.lt_of_lt_of_le hi hn), h⟩
  · rintro ⟨e, he, hle⟩
    rw [List.getElem?_eq_getElem (Nat.lt_of_lt_of_le hi hn)] at he
    exact Option.some.inj he ▸ hle

/-- The boundary stays between `low` and `high`. A probe of `low` itself does not shrink the
interval, but the next one does. -/
theorem find_loop_eq {n b : Nat} (hb : Boundary (Starts seekbuf offset) n b)
    (hn : n ≤ seekbuf.length) (hword : n < 2 ^ 63) :
    ∀ {steps low high index : Nat}, low < b → b ≤ high + 1 → high < n → low ≤ index → index ≤ high →
      2 * (high - low) + (if index = low then 1 else 0) ≤ steps →
      find_loop seekbuf offset steps low high index = some (.ok (b - 1))
  | steps, low, high, index, hlow, hhigh, hhn, hli, hih, hsteps => by
    unfold find_loop
    by_cases hdone : low = high
    · rw [if_pos hdone, show low = b - 1 by omega]
    rw [if_neg hdone]
    cases steps with
    | zero =>
      exfalso
      omega
    | succ steps =>
      obtain ⟨e, he, hside⟩ := probe hb hn (Nat.lt_of_le_of_lt hih hhn)
      simp only [he]
      by_cases hbelow : index < b
      · have hmid : u64 (high + index + 1 : Nat) / 2 = (high + index + 1) / 2 := by
          unfold u64
          omega
        rw [if_pos (hside.mpr hbelow), hmid]
        apply find_loop_eq hb hn hword hbelow hhigh hhn (by omega) (by omega)
        split at hsteps <;> split <;> omega
      · have hpred : u64 ((index : Int) - 1) = index - 1 := by
          apply u64_eq <;> omega
        have hmid : u64 (index - 1 + low : Nat) / 2 = (index - 1 + low) / 2 := by
          unfold u64
          omega
        rw [if_neg fun hle => hbelow (hside.mp hle), hpred, hmid]
        apply find_loop_eq hb hn hword hlow (by omega) (by omega) (by omega) (by omega)
        split at hsteps <;> split <;> omega

end

/-- Within any number of steps from a bound on the search ends inside the list, with the last element that
does not lie behind the offset. -/
theorem find_seekelement_last (l : SeekList)
    (hsorted : l.seekbuf.Pairwise fun e e' => e.databufoffset ≤ e'.databufoffset)
    (hfirst : ∃ e es, l.seekbuf = e :: es ∧ e.databufoffset = 0) (offset : Nat) :
    ∃ bound k,
      (∀ steps, bound ≤ steps → dshandle_find_seekelement l.seekbuf offset steps = some (.ok k)) ∧
      k < l.seekbuf.length ∧ Starts l.seekbuf offset k ∧ ∀ j, Starts l.seekbuf offset j → j ≤ k := by
  obtain ⟨seekbuf, hmem⟩ := l
  obtain ⟨e, es, hes, hzero⟩ := hfirst
  have hlen : seekbuf.length = es.length + 1 := by
    rw [show seekbuf = e :: es from hes, List.length_cons]
  have hword : seekbuf.length < 2 ^ 63 := by
    unfold sizeofSeekelement at hmem
    omega
  have hhead : seekbuf[0]? = some e := by
    rw [show seekbuf = e :: es from hes]
    rfl
  obtain ⟨b, hb⟩ : ∃ b, Boundary (Starts seekbuf offset) seekbuf.length b :=
    Boundary.of_prefix fun i j hij _ => starts_prefix hsorted i j hij
  have hpos : 0 < b := (hb.iff 0 (by omega)).mp ⟨e, hhead, by omega⟩
  obtain ⟨hin, hstarts, hlast⟩ := hb.last hpos
  refine ⟨2 * seekbuf.length, b - 1, fun steps hsteps => ?_, hin, hstarts, fun j hj => hlast j ?_ hj⟩
  · have hsub : u64 ((seekbuf.length : Int) - 1) = seekbuf.length - 1 := by
      apply u64_eq <;> omega
    obtain ⟨t, ht, hside⟩ := probe hb (Nat.le_refl _) (show seekbuf.length - 1 < seekbuf.length by omega)
    unfold dshandle_find_seekelement
    simp only [hsub, ht]
    rw [if_neg (by omega)]
    by_cases hend : seekbuf.length - 1 < b
    · have hle := hb.le
      rw [if_pos (hside.mpr hend), show seekbuf.length - 1 = b - 1 by omega]
    · have hsub₂ : u64 ((seekbuf.length : Int) - 2) = seekbuf.length - 2 := by
        apply u64_eq <;> omega
      have hmid : u64 (seekbuf.length - 2 + 0 : Nat) / 2 = (seekbuf.length - 2) / 2 := by
        unfold u64
        omega
      rw [if_neg fun hle => hend (hside.mp hle), hsub₂, hmid]
      apply find_loop_eq hb (Nat.le_refl _) hword hpos (by omega) (by omega) (Nat.zero_le _) (by omega)
      split <;> omega
  · obtain ⟨t, ht, -⟩ := hj
    exact (List.getElem?_eq_some_iff.mp ht).1

def fourElements : SeekList where
  seekbuf := [⟨0, 0, 0, 0⟩, ⟨0, 0, 2, 100⟩, ⟨0, 0, 4, 100⟩, ⟨0, 0, 6, 250⟩]
  in_memory := by decide

theorem find_seekelement_four :
    ∃ bound k,
      (∀ steps, bound ≤ steps → dshandle_find_seekelement fourElements.seekbuf 180 steps = some (.ok k)) ∧
      k < fourElements.seekbuf.length ∧ Starts fourElements.seekbuf 180 k ∧
      ∀ j, Starts fourElements.seekbuf 180 j → j ≤ k :=
  find_seekelement_last fourElements (by decide) ⟨_, _, rfl, rfl⟩ 180

end Libzds
