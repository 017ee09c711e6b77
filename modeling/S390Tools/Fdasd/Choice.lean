import S390Tools.Fdasd.Agreement

/-!
# The choice of the tracks for a new partition

With at most two partitions on the disk, the tracks that the prompts return are
free, also when the first track lies in a partition and is moved behind it. Only
the search that starts again at the first usable track leaves out the first
partition, and this is seen if that one begins there.
-/

namespace Fdasd

open Word Vtoc DList

section
variable {anc : FdasdAnchor} {p q a b c : Node} {fuel s limit : Nat}

theorem partitionLimit_lt (anc : FdasdAnchor) : partitionLimit anc < 4294967296 := u32_lt _

/-! ## Steps of the search -/

theorem checkStart_last (hn : anc.links.next p = none) : checkStart anc (fuel + 1)
    (some p) s limit = .ok (s, limit) := by
  simp only [checkStart, deref, hn, if_true]

theorem checkStart_front (hn : anc.links.next p = some q) (hs : s < (anc.info p).start_trk) :
    checkStart anc (fuel + 1) (some p) s limit = .ok (s, u64 ((anc.info p).start_trk - 1 : Int)) := by
  have hin : ¬inPartition (anc.info p) s := fun h => absurd h.1 (Nat.not_le_of_lt hs)
  simp only [checkStart, deref, hn, hin, false_and, if_false, hs, if_true]
  rw [if_neg (by simp)]

theorem checkStart_behind (hn : anc.links.next p = some q) (hs : ¬s < (anc.info p).start_trk)
    (hout : ¬inPartition (anc.info p) s) :
    checkStart anc (fuel + 1) (some p) s limit = checkStart anc fuel (some q) s limit := by
  rw [checkStart]
  simp only [deref, hn, hout, false_and, if_false, hs]
  rw [if_neg (by simp)]

theorem checkStart_moved (hn : anc.links.next p = some q) (hin : inPartition (anc.info p) s)
    (hend : u64 ((anc.info p).end_trk + 1 : Nat) = (anc.info p).end_trk + 1)
      (hle : (anc.info p).end_trk + 1 ≤ limit) :
    checkStart anc (fuel + 1) (some p) s limit = checkStart anc fuel (some q) ((anc.info p).end_trk + 1) limit := by
  have hlt : ¬(anc.info p).end_trk + 1 < (anc.info p).start_trk := by
    have := hin.1
    have := hin.2
    omega
  rw [checkStart]
  simp only [deref, hn, hin, hend, true_and, if_true, if_neg (Nat.not_lt_of_le hle), hlt, if_false]
  rw [if_neg (by simp)]

theorem checkStart_wrapped (hn : anc.links.next p = some q) (hin : inPartition (anc.info p) s)
    (hend : u64 ((anc.info p).end_trk + 1 : Nat) = (anc.info p).end_trk + 1)
      (hgt : (anc.info p).end_trk + 1 > limit)
    (hfirst : anc.first = some a) (hab : anc.links.next a = some b) :
    checkStart anc (fuel + 1) (some p) s limit =
      if FIRST_USABLE_TRK < (anc.info a).start_trk then .ok (FIRST_USABLE_TRK,
        u64 ((anc.info a).start_trk - 1 : Int))
      else checkStart anc fuel (some b) FIRST_USABLE_TRK limit := by
  rw [checkStart]
  simp only [deref, hn, hin, hend, true_and, if_true, if_pos hgt, hfirst, hab]
  rw [if_neg (by simp)]

end

/-! ## The three structures of the list -/

/-- The list of three nodes; a structure without partition has both tracks 0. -/
structure Three (anc : FdasdAnchor) (a b c : Node) : Prop where
  first : anc.first = some a
  second : anc.links.next a = some b
  third : anc.links.next b = some c
  last : anc.links.next c = none
  low : FIRST_USABLE_TRK ≤ (anc.info a).start_trk ∧ (anc.info a).start_trk ≤ (anc.info a).end_trk ∧
      (anc.info a).end_trk ≤ partitionLimit anc ∨ (anc.info a).start_trk = 0 ∧ (anc.info a).end_trk = 0
  high : FIRST_USABLE_TRK ≤ (anc.info a).start_trk ∧ (anc.info a).end_trk < (anc.info b).start_trk ∧
      (anc.info b).start_trk ≤ (anc.info b).end_trk ∧ (anc.info b).end_trk ≤ partitionLimit anc ∨
    (anc.info b).start_trk = 0 ∧ (anc.info b).end_trk = 0

section
variable {anc : FdasdAnchor} {a b c : Node} {s : Nat}

/-- The search starts again from a track in the second partition, and the first one begins at the
first usable track. -/
def Missed (anc : FdasdAnchor) (a b : Node) (s : Nat) : Prop :=
  (anc.info a).start_trk = FIRST_USABLE_TRK ∧ (anc.info b).end_trk = partitionLimit anc ∧ (anc.info b).start_trk ≤ s

/-- The tracks from `x` to `y` are on the disk and in no partition. -/
structure Unused (anc : FdasdAnchor) (a b : Node) (x y : Nat) : Prop where
  le : FIRST_USABLE_TRK ≤ x ∧ x ≤ y ∧ y ≤ partitionLimit anc
  low : y < (anc.info a).start_trk ∨ (anc.info a).end_trk < x
  high : y < (anc.info b).start_trk ∨ (anc.info b).end_trk < x

def afterPartition (p : PartitionInfo) (s : Nat) : Nat := if inPartition p s then p.end_trk + 1 else s

theorem afterPartition_cases (p : PartitionInfo) (s : Nat) :
    (p.start_trk ≤ s ∧ s ≤ p.end_trk) ∧ afterPartition p s = p.end_trk + 1 ∨
    ¬(p.start_trk ≤ s ∧ s ≤ p.end_trk) ∧ afterPartition p s = s := by
  by_cases hin : inPartition p s
  · exact .inl ⟨hin, if_pos hin⟩
  · exact .inr ⟨hin, if_neg hin⟩

def dfltStart (anc : FdasdAnchor) (a b : Node) : Nat :=
  afterPartition (anc.info b) (afterPartition (anc.info a) FIRST_USABLE_TRK)

theorem Three.defaultStart_eq (h : Three anc a b c) (fuel : Nat) :
    defaultStart anc (fuel + 3) anc.first FIRST_USABLE_TRK = .ok (dfltStart anc a b) := by
  have hlim := partitionLimit_lt anc
  have ha : u64 ((anc.info a).end_trk + 1 : Nat) = (anc.info a).end_trk + 1 := by
    have := h.low
    unfold u64
    omega
  have hb : u64 ((anc.info b).end_trk + 1 : Nat) = (anc.info b).end_trk + 1 := by
    have := h.high
    unfold u64
    omega
  simp only [h.first, defaultStart, deref, h.second, h.third, h.last, ha, hb, dfltStart, afterPartition]
  rfl

theorem Three.first_le_dfltStart (h : Three anc a b c) : FIRST_USABLE_TRK ≤ dfltStart anc a b := by
  have hlow := h.low
  have hhigh := h.high
  have hone := afterPartition_cases (anc.info a) FIRST_USABLE_TRK
  have htwo := afterPartition_cases (anc.info b) (afterPartition (anc.info a) FIRST_USABLE_TRK)
  unfold dfltStart
  omega

theorem u64_front {n : Nat} (h : FIRST_USABLE_TRK < n) (hn : n < 4294967297) : u64 ((n : Int) - 1) = n - 1 := by
  rw [FIRST_USABLE_TRK] at h
  unfold u64
  omega

theorem Three.searchSecond (h : Three anc a b c) (fuel : Nat) (hs₀ : FIRST_USABLE_TRK ≤ s)
    (hs : s ≤ partitionLimit anc)
    (ha : (anc.info a).end_trk < s) :
    ∃ x y, checkStart anc (fuel + 4) (some b) s (partitionLimit anc) = .ok (x, y) ∧
      (Missed anc a b s → x = FIRST_USABLE_TRK ∧ y = (anc.info b).start_trk - 1) ∧
      (¬Missed anc a b s → Unused anc a b x y) := by
  have hlim := partitionLimit_lt anc
  have hlow := h.low
  have hhigh := h.high
  have hend : u64 ((anc.info b).end_trk + 1 : Nat) = (anc.info b).end_trk + 1 := by
    apply u64_eq <;> omega
  by_cases hfront : s < (anc.info b).start_trk
  · have hu := @u64_front (anc.info b).start_trk (Nat.lt_of_le_of_lt hs₀ hfront) (by omega)
    refine ⟨s, _, checkStart_front h.third hfront, ?_, fun _ => ⟨⟨hs₀, ?_, ?_⟩, .inr ha, .inl ?_⟩⟩
    · intro hm
      exact absurd hm.2.2 (Nat.not_le_of_lt hfront)
    · omega
    · omega
    · omega
  by_cases hin : inPartition (anc.info b) s
  · have hle := hin.1
    have hge := hin.2
    by_cases hgt : (anc.info b).end_trk + 1 > partitionLimit anc
    · rw [checkStart_wrapped h.third hin hend hgt h.first h.second]
      by_cases hgap : FIRST_USABLE_TRK < (anc.info a).start_trk
      · have hu := @u64_front (anc.info a).start_trk hgap (by omega)
        rw [if_pos hgap]
        refine ⟨_, _, rfl, ?_, fun _ => ⟨⟨Nat.le_refl _, ?_, ?_⟩, .inl ?_, .inl ?_⟩⟩
        · intro hm
          exact absurd hm.1 (Nat.ne_of_gt hgap)
        · omega
        · omega
        · omega
        · omega
      · have hfront : FIRST_USABLE_TRK < (anc.info b).start_trk := by omega
        have hu := @u64_front (anc.info b).start_trk hfront (by omega)
        rw [if_neg hgap, checkStart_front h.third hfront]
        refine ⟨_, _, rfl, fun _ => ⟨rfl, hu⟩, fun hm => absurd ⟨?_, ?_, hle⟩ hm⟩
        · omega
        · omega
    · rw [checkStart_moved h.third hin hend (Nat.le_of_not_lt hgt), checkStart_last h.last]
      refine ⟨_, _, rfl, ?_, fun _ => ⟨⟨?_, ?_, Nat.le_refl _⟩, .inr ?_, .inr (Nat.lt_succ_self _)⟩⟩
      · intro hm
        have := hm.2.1
        omega
      · omega
      · omega
      · omega
  · have hbehind : (anc.info b).end_trk < s := by
      refine Nat.lt_of_not_le fun hle => hin ⟨Nat.le_of_not_lt hfront, hle⟩
    rw [checkStart_behind h.third hfront hin, checkStart_last h.last]
    refine ⟨_, _, rfl, ?_, fun _ => ⟨⟨hs₀, hs, Nat.le_refl _⟩, .inr ha, .inr hbehind⟩⟩
    intro hm
    have := hm.2.1
    omega

theorem Three.search (h : Three anc a b c) (fuel : Nat) (hd : dfltStart anc a b ≤ s) (hs : s ≤ partitionLimit anc) :
    ∃ x y, checkStart anc (fuel + 5) anc.first s (partitionLimit anc) = .ok (x, y) ∧
      (Missed anc a b s → x = FIRST_USABLE_TRK ∧ y = (anc.info b).start_trk - 1) ∧
      (¬Missed anc a b s → Unused anc a b x y) := by
  have hlim := partitionLimit_lt anc
  have hlow := h.low
  have hhigh := h.high
  have hfirst : FIRST_USABLE_TRK = 2 := rfl
  have hdle := h.first_le_dfltStart
  -- the default lies behind a first partition that begins at the first usable track
  have hdflt : ((anc.info a).start_trk = FIRST_USABLE_TRK → (anc.info a).end_trk < dfltStart anc a b) ∧
      ((anc.info a).start_trk = FIRST_USABLE_TRK → (anc.info b).start_trk = (anc.info a).end_trk + 1 →
        (anc.info b).end_trk < dfltStart anc a b) := by
    have hone := afterPartition_cases (anc.info a) FIRST_USABLE_TRK
    have htwo := afterPartition_cases (anc.info b) (afterPartition (anc.info a) FIRST_USABLE_TRK)
    unfold dfltStart
    refine ⟨?_, ?_⟩
    · omega
    · omega
  have hend : u64 ((anc.info a).end_trk + 1 : Nat) = (anc.info a).end_trk + 1 := by
    apply u64_eq <;> omega
  rw [h.first]
  by_cases hfront : s < (anc.info a).start_trk
  · have hu := @u64_front (anc.info a).start_trk (by omega) (by omega)
    refine ⟨s, _, checkStart_front h.second hfront, ?_, fun _ => ⟨⟨by omega, ?_, ?_⟩, .inl ?_, ?_⟩⟩
    · intro hm
      have := hm.1
      omega
    · omega
    · omega
    · omega
    · omega
  by_cases hin : inPartition (anc.info a) s
  · have hle := hin.1
    have hge := hin.2
    have hnot : (anc.info a).start_trk ≠ FIRST_USABLE_TRK := fun he => by
      have := hdflt.1 he
      omega
    by_cases hgt : (anc.info a).end_trk + 1 > partitionLimit anc
    · have hgap : FIRST_USABLE_TRK < (anc.info a).start_trk := by omega
      have hu := @u64_front (anc.info a).start_trk hgap (by omega)
      rw [checkStart_wrapped h.second hin hend hgt h.first h.second, if_pos hgap]
      refine ⟨_, _, rfl, fun hm => absurd hm.1 hnot, fun _ => ⟨⟨Nat.le_refl _, ?_, ?_⟩, .inl ?_, ?_⟩⟩
      · omega
      · omega
      · omega
      · omega
    · rw [checkStart_moved h.second hin hend (Nat.le_of_not_lt hgt)]
      obtain ⟨x, y, hcheck, -, hgood⟩ := @Three.searchSecond anc a b c ((anc.info a).end_trk + 1) h fuel (by omega)
        (Nat.le_of_not_lt hgt) (Nat.lt_succ_self _)
      exact ⟨x, y, hcheck, fun hm => absurd hm.1 hnot, fun _ => hgood fun hm => hnot hm.1⟩
  · rw [checkStart_behind h.second hfront hin]
    exact h.searchSecond fuel (Nat.le_trans h.first_le_dfltStart hd) hs (Nat.lt_of_not_le fun hle =>
      hin ⟨Nat.le_of_not_lt hfront, hle⟩)

end

end Fdasd
