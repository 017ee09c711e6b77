import S390Tools.Fdasd.Commands

/-!
# The partition table as a list of ranges

Abstractly the table is an ascending list of ranges of tracks. `Table` connects it
with its three representations in the anchor: the linked list, the free space
counters and the free space labels; each command keeps them in step.
-/

namespace Fdasd

open Word Vtoc DList Ranges

def PartitionInfo.rng (p : PartitionInfo) : Nat × Nat := (p.start_trk, p.end_trk + 1)

def tracks (geo : HdGeometry) (anc : FdasdAnchor) : Nat := anc.formatted_cylinders * geo.heads

/-- The extent in a partition's label stands for its tracks. -/
def Coherent (geo : HdGeometry) (p : PartitionInfo) : Prop :=
  cchh2trk p.f1.DS1EXT1.llimit geo = p.start_trk ∧ cchh2trk p.f1.DS1EXT1.ulimit geo = p.end_trk

structure PartitionInfo.Used (geo : HdGeometry) (p : PartitionInfo) : Prop where
  used : p.used = 0x01
  len : p.len_trk = p.end_trk + 1 - p.start_trk
  coherent : Coherent geo p

structure PartitionInfo.Free (p : PartitionInfo) : Prop where
  used : p.used = 0x00
  start_trk : p.start_trk = 0
  end_trk : p.end_trk = 0
  len_trk : p.len_trk = 0
  fspace_trk : p.fspace_trk = 0

/-- What the code can address: heads in 4 bits, cylinders in 28 bits, and at most half of the
32-bit track numbers so that no sum of two of them wraps. -/
structure Disk (geo : HdGeometry) (cyl : Nat) : Prop where
  heads_pos : 2 < geo.heads
  heads_le : geo.heads ≤ 16
  cyl_pos : 0 < cyl
  cyl_le : cyl ≤ 268435456
  tracks_le : cyl * geo.heads ≤ 2147483648

/-- The list holds the used partitions `us` in ascending order and then the unused ones `fs`; the
counters hold the gaps on a disk of `T` tracks. -/
structure Listed (geo : HdGeometry) (T : Nat) (anc : FdasdAnchor) (us fs : List Node) : Prop where
  list : IsList anc.links anc.first anc.last (us ++ fs)
  all : (us ++ fs).length = USABLE_PARTITIONS
  used : ∀ n ∈ us, (anc.info n).Used geo
  free : ∀ n ∈ fs, (anc.info n).Free
  count : anc.used_partitions = us.length
  within : ∀ n ∈ us, FIRST_USABLE_TRK ≤ (anc.info n).start_trk ∧ (anc.info n).end_trk < T
  sorted : Sorted (us.map fun n => (anc.info n).rng)
  head_gap : anc.fspace_trk = nextStart T (us.map fun n => (anc.info n).rng) - FIRST_USABLE_TRK
  tail_gaps : us.map (fun n => (anc.info n).fspace_trk) = afters T (us.map fun n => (anc.info n).rng)

structure Table (geo : HdGeometry) (anc : FdasdAnchor) (us fs : List Node) : Prop extends
    Listed geo (tracks geo anc) anc us fs where
  labels : Describes geo.heads (tracks geo anc) anc.toFreeLabels
    (Ranges.gaps FIRST_USABLE_TRK (tracks geo anc) (us.map fun n => (anc.info n).rng))

section
variable {geo : HdGeometry} {anc : FdasdAnchor} {us fs : List Node}

theorem Disk.three_le {geo : HdGeometry} {cyl : Nat} (h : Disk geo cyl) : 3 ≤ cyl * geo.heads := by
  have h₁ := h.heads_pos
  have h₂ := h.cyl_pos
  have : 1 * geo.heads ≤ cyl * geo.heads := Nat.mul_le_mul_right _ h₂
  omega

theorem Disk.trackLimit {geo : HdGeometry} {cyl : Nat} (h : Disk geo cyl) {trk : Nat} (ht : trk < cyl * geo.heads) :
    trackLimit geo trk = vtoc_set_cchh (trk / geo.heads) (trk % geo.heads) ∧
      cchh2trk (trackLimit geo trk) geo = trk := by
  have h₁ := h.heads_pos
  have h₂ := h.tracks_le
  have h₃ := h.cyl_le
  have h₄ := h.heads_le
  have hdiv : trk / geo.heads < cyl := (Nat.div_lt_iff_lt_mul (by omega)).mpr ht
  have hmul : trk / geo.heads * geo.heads ≤ trk := Nat.div_mul_le_self trk geo.heads
  have hmod := Nat.div_add_mod' trk geo.heads
  have hlt := Nat.mod_lt trk (show 0 < geo.heads by omega)
  have heq : Fdasd.trackLimit geo trk = vtoc_set_cchh (trk / geo.heads) (trk % geo.heads) := by
    unfold Fdasd.trackLimit
    have hu : u32 ((trk / geo.heads : Nat) : Int) = trk / geo.heads := by
      generalize trk / geo.heads = q at *
      unfold u32; omega
    have hu' : u32 ((trk / geo.heads * geo.heads : Nat) : Int) = trk / geo.heads * geo.heads := by
      generalize trk / geo.heads * geo.heads = q at *
      unfold u32; omega
    have hh : u16 ((trk : Int) - (trk / geo.heads * geo.heads : Nat)) = trk % geo.heads := by
      generalize trk / geo.heads * geo.heads = q at *
      generalize trk % geo.heads = m at *
      unfold u16; omega
    simp only [hu, hu', hh]
  refine ⟨heq, ?_⟩
  rw [heq]
  exact cchh2trk_set_cchh (by omega) h₄ (by omega) (by omega)

theorem Table.fs_ne_nil (h : Table geo anc us fs) (hlt : us.length < USABLE_PARTITIONS) : fs ≠ [] := by
  rintro rfl
  have := h.all
  simp at this
  omega

theorem Table.nodup (h : Table geo anc us fs) : (us ++ fs).Nodup := h.list.nodup

theorem Table.mem (h : Table geo anc us fs) (n : Node) : n ∈ us ++ fs := by
  have hc : (us ++ fs).toFinset.card = Fintype.card Node := by
    rw [List.toFinset_card_of_nodup h.nodup, h.all, Fintype.card_fin]
  have := Finset.eq_univ_of_card _ hc
  have hn : n ∈ (us ++ fs).toFinset := by rw [this]; exact Finset.mem_univ n
  exact List.mem_toFinset.mp hn

theorem Table.sorted_within (h : Table geo anc us fs) {r : Nat × Nat}
    (hr : r ∈ us.map fun n => (anc.info n).rng) : FIRST_USABLE_TRK ≤ r.1 ∧ r.2 ≤ tracks geo anc := by
  obtain ⟨n, hn, rfl⟩ := List.mem_map.mp hr
  exact h.within n hn

theorem Table.start_le (h : Table geo anc us fs) {n : Node} (hn : n ∈ us) :
    (anc.info n).start_trk ≤ (anc.info n).end_trk := by
  have := h.sorted.nonempty _ (List.mem_map.mpr ⟨n, hn, rfl⟩)
  simp only [PartitionInfo.rng] at this
  omega

/-! ## Free ranges -/

/-- The tracks `start` to `stop` are usable and belong to no partition. -/
def FreeRange (geo : HdGeometry) (anc : FdasdAnchor) (start stop : Nat) : Prop :=
  FIRST_USABLE_TRK ≤ start ∧ start ≤ stop ∧ stop < tracks geo anc ∧
    ∀ n, (anc.info n).used = 0x01 → Disj (anc.info n).rng (start, stop + 1)

instance (geo : HdGeometry) (anc : FdasdAnchor) (start stop : Nat) : Decidable (FreeRange geo anc start stop) := by
  unfold FreeRange Disj
  infer_instance

theorem exists_gap (lo hi : Nat) {rs : List (Nat × Nat)} (hs : Sorted rs) {r : Nat × Nat} (hlo : lo ≤ r.1)
    (hr : r.1 < r.2) (hhi : r.2 ≤ hi) (hd : ∀ s ∈ rs, Disj s r) : ∃ g ∈ Ranges.gaps lo hi rs,
      g.1 ≤ r.1 ∧ r.2 ≤ g.2 := by
  induction rs generalizing lo with
  | nil =>
    refine ⟨(lo, hi), ?_, hlo, hhi⟩
    rw [Ranges.gaps, if_pos (by omega)]
    exact List.mem_singleton.mpr rfl
  | cons s rs ih =>
    obtain ⟨h₁, h₂, h₃⟩ := sorted_cons.1 hs
    rcases hd s (List.mem_cons_self ..) with hd' | hd'
    · obtain ⟨g, hg, hg'⟩ := ih _ h₃ hd' fun x hx => hd x (List.mem_cons_of_mem _ hx)
      exact ⟨g, List.mem_append_right _ hg, hg'⟩
    · refine ⟨(lo, s.1), List.mem_append_left _ ?_, hlo, hd'⟩
      rw [if_pos (by omega)]
      exact List.mem_singleton.mpr rfl

theorem Table.gapBehind_eq {us₁ us₂ : List Node} (h : Table geo anc (us₁ ++ us₂) fs) :
    gapBehind anc us₁ =
      nextStart (tracks geo anc) (us₂.map fun n => (anc.info n).rng) - gapStart anc us₁ := by
  rcases List.eq_nil_or_concat us₁ with rfl | ⟨us₁, u, rfl⟩
  · exact h.head_gap
  · rw [List.concat_eq_append] at *
    have hg := h.tail_gaps
    simp only [List.map_append, afters_append, List.map_cons, List.append_assoc,
      List.singleton_append] at hg
    have := (List.append_inj hg (by simp [afters_length])).2
    simp only [afters, List.cons.injEq] at this
    simp only [gapBehind, gapStart, List.getLast?_concat, this.1, PartitionInfo.rng]

/-! ## Adding a partition -/

/-- The partitions after `x` with the tracks `start` to `stop` was put behind the partitions `us`. -/
def addedInfo (geo : HdGeometry) (today : Labeldate) (anc : FdasdAnchor) (us : List Node) (x : Node)
    (start stop : Nat) (n : Node) : PartitionInfo :=
  if n = x then
    { newPartition geo today anc start stop (anc.info x) with
      used := 0x01
      fspace_trk := gapBehind anc us - (stop + 1 - start) - (start - gapStart anc us) }
  else if us.getLast? = some n then { anc.info n with fspace_trk := start - gapStart anc us }
  else anc.info n

def added (geo : HdGeometry) (today : Labeldate) (anc : FdasdAnchor) (L : Links Node) (us ws : List Node) (x : Node)
    (start stop : Nat) : FdasdAnchor :=
  { anc.withList L (us ++ x :: ws) with
    partno := fun i => if anc.partno i ≥ us.length then anc.partno i + 1 else anc.partno i
    info := addedInfo geo today anc us x start stop
    fspace_trk := if us = [] then start - FIRST_USABLE_TRK else anc.fspace_trk
    used_partitions := u32 (anc.used_partitions + 1 : Nat) }

theorem setPartitionRange_len {start stop : Nat} (h₁ : start ≤ stop) (h₂ : stop < 2147483648) (p : PartitionInfo) :
    setPartitionRange start stop p =
      { p with len_trk := stop + 1 - start, start_trk := start, end_trk := stop } := by
  have : u64 ((stop : Int) - start + 1) = stop + 1 - start := by apply u64_eq <;> omega
  simp only [setPartitionRange, this]

/-- A partition `x` is to be put behind the partitions `us₁` that start in front of it. -/
structure Fits (geo : HdGeometry) (anc : FdasdAnchor) (us₁ us₂ fs : List Node) (x : Node) (start stop : Nat) :
    Prop where
  table : Table geo anc (us₁ ++ us₂) (fs ++ [x])
  free : FreeRange geo anc start stop
  front : ∀ n ∈ us₁, (anc.info n).start_trk ≤ start
  behind : ∀ n, us₂.head? = some n → start < (anc.info n).start_trk

section
variable {us₁ us₂ : List Node} {x : Node} {start stop : Nat} (hf : Fits geo anc us₁ us₂ fs x start stop)
include hf

theorem Fits.ne_x {n : Node} (hn : n ∈ us₁ ++ us₂ ++ fs) : n ≠ x := by
  have hnd := hf.table.nodup
  rw [← List.append_assoc] at hnd
  exact (List.nodup_append.mp hnd).2.2 n hn x (by simp)

theorem Fits.last_ne_x {u : Node} (hu : us₁.getLast? = some u) : u ≠ x :=
  hf.ne_x (by simp [List.mem_of_getLast? hu])

theorem Fits.sorted : Sorted (us₁.map (fun n => (anc.info n).rng) ++ us₂.map fun n => (anc.info n).rng) := by
  rw [← List.map_append]; exact hf.table.sorted

theorem Fits.disj {s : Nat × Nat}
    (hs : s ∈ us₁.map (fun n => (anc.info n).rng) ++ us₂.map fun n => (anc.info n).rng) :
    Disj s (start, stop + 1) := by
  rw [← List.map_append] at hs
  obtain ⟨n, hn, rfl⟩ := List.mem_map.mp hs
  exact hf.free.2.2.2 n (hf.table.used n hn).used

theorem Fits.lt : (start, stop + 1).1 < (start, stop + 1).2 := Nat.lt_succ_of_le hf.free.2.1

theorem Fits.between : (∀ r ∈ us₁.map (fun n => (anc.info n).rng), r.2 ≤ start) ∧
    ∀ r ∈ us₂.map (fun n => (anc.info n).rng), stop + 1 ≤ r.1 := by
  refine hf.sorted.between hf.lt (fun s hs => hf.disj hs) (fun r hr => ?_) fun r hr => ?_
  · obtain ⟨n, hn, rfl⟩ := List.mem_map.mp hr
    exact hf.front n hn
  · rw [List.head?_map] at hr
    obtain ⟨n, hn, rfl⟩ := Option.map_eq_some_iff.mp hr
    exact hf.behind n hn

theorem Fits.gapStart_le : gapStart anc us₁ ≤ start := by
  rcases List.eq_nil_or_concat us₁ with rfl | ⟨us₁, u, rfl⟩
  · exact hf.free.1
  · simp only [gapStart, List.concat_eq_append, List.getLast?_concat]
    exact hf.between.1 (anc.info u).rng (List.mem_map.mpr ⟨u, by simp, rfl⟩)

theorem Fits.stop_lt_next : stop + 1 ≤ nextStart (tracks geo anc) (us₂.map fun n => (anc.info n).rng) :=
  le_nextStart hf.free.2.2.1 hf.between.2

theorem Fits.next_le : nextStart (tracks geo anc) (us₂.map fun n => (anc.info n).rng) ≤ tracks geo anc := by
  cases us₂ with
  | nil => exact le_refl _
  | cons n us₂ =>
    have h₁ := (hf.table.within n (by simp)).2
    have h₂ := hf.table.start_le (n := n) (by simp)
    simp only [List.map_cons, nextStart, PartitionInfo.rng]
    omega

/-! ### The counters -/

omit hf in
theorem queued_info (f : PartitionInfo → PartitionInfo) (L : Links Node) (n : Node) :
    (queued (anc.upd x f) L us₁ (us₂ ++ fs) x).info n =
      if n = x then { f (anc.info x) with used := 0x01 } else anc.info n := by
  simp only [queued, mapPos, upd_info, FdasdAnchor.withList, if_true]
  split <;> rfl

theorem Fits.enqueueCounters (D : Disk geo anc.formatted_cylinders) (today : Labeldate) {L : Links Node}
    (hL : IsList L (us₁ ++ x :: (us₂ ++ fs)).head? (us₁ ++ x :: (us₂ ++ fs)).getLast? (us₁ ++ x :: (us₂ ++ fs))) :
    enqueueCounters (queued (anc.upd x (newPartition geo today anc start stop)) L us₁ (us₂ ++ fs) x) x =
      .ok { added geo today anc L us₁ (us₂ ++ fs) x start stop with used_partitions := anc.used_partitions } := by
  have htr := D.tracks_le
  have hst := hf.free.2.2.1
  have hle := hf.free.2.1
  have hgs := hf.gapStart_le
  have hns := hf.stop_lt_next
  have hns' := hf.next_le
  have hge := hf.table.gapBehind_eq
  unfold tracks at hst hns hns' hge
  have hi n : (queued (anc.upd x (newPartition geo today anc start stop)) L us₁ (us₂ ++ fs) x).info n =
      if n = x then { newPartition geo today anc start stop (anc.info x) with used := 0x01 } else anc.info n :=
    queued_info _ L n
  have hlast : ∀ u, us₁.getLast? = some u → (queued (anc.upd x (newPartition geo today anc start stop)) L us₁
      (us₂ ++ fs) x).info u = anc.info u := fun u hu => by rw [hi, if_neg (hf.last_ne_x hu)]
  generalize hq : queued (anc.upd x (newPartition geo today anc start stop)) L us₁ (us₂ ++ fs) x = anc₁ at *
  have hx : (anc₁.info x).start_trk = start ∧ (anc₁.info x).len_trk = stop + 1 - start := by
    rw [hi, if_pos rfl, newPartition, setPartitionRange_len hle (by omega)]
    exact ⟨rfl, rfl⟩
  have hqs : gapStart anc₁ us₁ = gapStart anc us₁ := by
    unfold gapStart
    split
    · rfl
    · rename_i u hu; rw [hlast u hu]
  have hqg : gapBehind anc₁ us₁ = gapBehind anc us₁ := by
    unfold gapBehind
    split
    · rw [← hq]; rfl
    · rename_i u hu; rw [hlast u hu]
  have hcnt := enqueueCounters_eq
    (show IsList anc₁.links anc₁.first anc₁.last (us₁ ++ x :: (us₂ ++ fs)) by rw [← hq]; exact hL)
      (by rw [hqs, hx.1]; exact hgs) (by rw [hx.1]; omega)
    (by rw [hqs, hqg, hx.1, hx.2, hge]; omega) (by rw [hqg, hge]; omega)
  rw [hqs, hqg, hx.1, hx.2] at hcnt
  have hinfo : (fun n => if us₁.getLast? = some n then
      { (anc₁.setGap x (gapBehind anc us₁ - (stop + 1 - start) - (start - gapStart anc us₁))).info n with
        fspace_trk := start - gapStart anc us₁ }
      else (anc₁.setGap x (gapBehind anc us₁ - (stop + 1 - start) - (start - gapStart anc us₁))).info n) =
      addedInfo geo today anc us₁ x start stop := by
    funext n
    simp only [addedInfo, FdasdAnchor.setGap, upd_info]
    by_cases hn : n = x
    · have hne : us₁.getLast? ≠ some n := fun hu => hf.last_ne_x hu hn
      rw [if_neg hne, if_pos hn, if_pos hn, hi, if_pos rfl]
    · rw [if_neg hn, if_neg hn, hi, if_neg hn]
  have hfsp : (if us₁ = [] then start - gapStart anc us₁ else anc.fspace_trk) =
      if us₁ = [] then start - FIRST_USABLE_TRK else anc.fspace_trk := by
    split
    · rename_i hnil; rw [hnil]; rfl
    · rfl
  rw [hcnt, setGapBehind_eq, hinfo]
  subst hq
  simp only [added, FdasdAnchor.setGap, FdasdAnchor.upd, queued, mapPos, FdasdAnchor.withList, hfsp]
  rfl

theorem Fits.enqueue (D : Disk geo anc.formatted_cylinders) (today : Labeldate) :
    ∃ L, IsList L (us₁ ++ x :: (us₂ ++ fs)).head? (us₁ ++ x :: (us₂ ++ fs)).getLast? (us₁ ++ x :: (us₂ ++ fs)) ∧
      fdasd_enqueue_new_partition (anc.upd x (newPartition geo today anc start stop)) =
        .ok { added geo today anc L us₁ (us₂ ++ fs) x start stop with used_partitions := anc.used_partitions } := by
  have hi : ∀ n, n ≠ x → (anc.upd x (newPartition geo today anc start stop)).info n = anc.info n :=
    fun n hn => by rw [upd_info, if_neg hn]
  have hstart : ((anc.upd x (newPartition geo today anc start stop)).info x).start_trk = start := by
    rw [upd_info, if_pos rfl]; rfl
  obtain ⟨L, hL, heq⟩ := @enqueue_eq (anc.upd x (newPartition geo today anc start stop))
    us₁ (us₂ ++ fs) x (by simpa [FdasdAnchor.upd, List.append_assoc] using hf.table.list)
    (by have := hf.table.all; simpa [List.append_assoc] using this)
    (fun n hn => by
      rw [hi n (hf.ne_x (by simp [hn])), hstart]
      have h₁ := hf.front n hn
      have h₂ := (hf.table.within n (by simp [hn])).1
      have h₃ := hf.table.start_le (n := n) (by simp [hn])
      simp only [FIRST_USABLE_TRK] at h₂
      omega)
    (fun n hn => by
      rw [hi n (hf.ne_x (by simp [List.mem_of_head? hn])), hstart]
      cases us₂ with
      | nil => exact Or.inl (hf.table.free n (by simp [List.mem_of_head? (l := fs) (by simpa using hn)])).end_trk
      | cons m us₂ =>
        obtain rfl : m = n := by simpa using hn
        exact Or.inr (hf.behind m rfl))
  exact ⟨L, hL, heq.trans (hf.enqueueCounters D today hL)⟩

theorem Fits.addPartition_eq (D : Disk geo anc.formatted_cylinders) (today : Labeldate) :
    ∃ L, IsList L (us₁ ++ x :: (us₂ ++ fs)).head? (us₁ ++ x :: (us₂ ++ fs)).getLast? (us₁ ++ x :: (us₂ ++ fs)) ∧
      addPartition geo today anc x start stop =
        updateLabels geo (added geo today anc L us₁ (us₂ ++ fs) x start stop)
          (addedFormat4 (added geo today anc L us₁ (us₂ ++ fs) x start stop)) '-' start stop := by
  obtain ⟨L, hL, heq⟩ := hf.enqueue D today
  have hst := hf.free.2.2.1
  have hle := hf.free.2.1
  unfold tracks at hst
  obtain ⟨-, ht₁⟩ := D.trackLimit (show start < anc.formatted_cylinders * geo.heads by omega)
  obtain ⟨-, ht₂⟩ := D.trackLimit hst
  refine ⟨L, hL, ?_⟩
  unfold addPartition
  rw [bind_ok heq, show (partitionExtent geo start stop).llimit = trackLimit geo start from rfl, ht₁,
    show (partitionExtent geo start stop).ulimit = trackLimit geo stop from rfl, ht₂]
  rfl

/-! ### The table with the new partition -/

omit hf in
theorem addedInfo_rng (today : Labeldate) (n : Node) : (addedInfo geo today anc us₁ x start stop n).rng =
    if n = x then (start, stop + 1) else (anc.info n).rng := by
  unfold addedInfo
  split
  · rfl
  · split <;> rfl

theorem Fits.map_rng (today : Labeldate) :
    (us₁ ++ x :: us₂).map (fun n => (addedInfo geo today anc us₁ x start stop n).rng) =
      us₁.map (fun n => (anc.info n).rng) ++ (start, stop + 1) :: us₂.map fun n => (anc.info n).rng := by
  have hmap : ∀ ns : List Node, (∀ n ∈ ns, n ≠ x) →
      ns.map (fun n => (addedInfo geo today anc us₁ x start stop n).rng) = ns.map fun n => (anc.info n).rng :=
    fun ns hns => List.map_congr_left fun n hn => by rw [addedInfo_rng, if_neg (hns n hn)]
  rw [List.map_append, List.map_cons, addedInfo_rng, if_pos rfl, hmap us₁ (fun n hn => hf.ne_x (by simp [hn])),
    hmap us₂ (fun n hn => hf.ne_x (by simp [hn]))]

omit hf in
theorem initPartitionLabel_ext (anc : FdasdAnchor) (today : Labeldate) (ext : Extent) :
    (initPartitionLabel anc today ext).DS1EXT1 = ext := by
  unfold initPartitionLabel
  split <;> rfl

theorem Fits.used (D : Disk geo anc.formatted_cylinders) (today : Labeldate) {n : Node} (hn : n ∈ us₁ ++ x :: us₂) :
    (addedInfo geo today anc us₁ x start stop n).Used geo := by
  have htr := D.tracks_le
  have hst := hf.free.2.2.1
  have hle := hf.free.2.1
  unfold tracks at hst
  by_cases hnx : n = x
  · obtain ⟨-, ht₁⟩ := D.trackLimit (show start < anc.formatted_cylinders * geo.heads by omega)
    obtain ⟨-, ht₂⟩ := D.trackLimit hst
    simp only [addedInfo, if_pos hnx, newPartition]
    rw [setPartitionRange_len hle (by omega)]
    refine ⟨rfl, rfl, ?_, ?_⟩
    · simp only [initPartitionLabel_ext]; exact ht₁
    · simp only [initPartitionLabel_ext]; exact ht₂
  · have hu := hf.table.used n (by simp only [List.mem_append, List.mem_cons, hnx, false_or] at hn ⊢; exact hn)
    simp only [addedInfo, if_neg hnx]
    split
    · exact ⟨hu.used, hu.len, hu.coherent⟩
    · exact hu

theorem Fits.unused (today : Labeldate) {n : Node} (hn : n ∈ fs) :
    (addedInfo geo today anc us₁ x start stop n).Free := by
  have hne : us₁.getLast? ≠ some n := fun hu =>
    (List.nodup_append.mp hf.table.nodup).2.2 n (by simp [List.mem_of_getLast? hu]) n (by simp [hn]) rfl
  simp only [addedInfo, if_neg (hf.ne_x (show n ∈ us₁ ++ us₂ ++ fs by simp [hn])), if_neg hne]
  exact hf.table.free n (by simp [hn])

theorem Fits.map_fspace (today : Labeldate) :
    (us₁ ++ x :: us₂).map (fun n => (addedInfo geo today anc us₁ x start stop n).fspace_trk) =
      afters (tracks geo anc) (us₁.map (fun n => (anc.info n).rng) ++
        (start, stop + 1) :: us₂.map fun n => (anc.info n).rng) := by
  have hnd := (List.nodup_append.mp hf.table.nodup).1
  have hns := hf.stop_lt_next
  have hgs := hf.gapStart_le
  have hle := hf.free.2.1
  have hfx : (addedInfo geo today anc us₁ x start stop x).fspace_trk =
      nextStart (tracks geo anc) (us₂.map fun n => (anc.info n).rng) - (stop + 1) := by
    simp only [addedInfo, if_true, hf.table.gapBehind_eq]
    omega
  have hfs : ∀ ns : List Node, (∀ n ∈ ns, n ≠ x ∧ us₁.getLast? ≠ some n) →
      ns.map (fun n => (addedInfo geo today anc us₁ x start stop n).fspace_trk) =
        ns.map fun n => (anc.info n).fspace_trk :=
    fun ns hns => List.map_congr_left fun n hn => by
      simp only [addedInfo, if_neg (hns n hn).1, if_neg (hns n hn).2]
  have hgaps := hf.table.tail_gaps
  have hu₂ : ∀ n ∈ us₂, n ≠ x ∧ us₁.getLast? ≠ some n := fun n hn =>
    ⟨hf.ne_x (by simp [hn]), fun hl => (List.nodup_append.mp hnd).2.2 n (List.mem_of_getLast? hl) n hn rfl⟩
  rcases List.eq_nil_or_concat us₁ with rfl | ⟨us₁, u, rfl⟩
  · simp only [List.nil_append, List.map_cons, List.map_nil, afters] at hgaps ⊢
    rw [hfx, hfs us₂ hu₂, hgaps]
  · rw [List.concat_eq_append] at *
    have hu₁ : ∀ n ∈ us₁, n ≠ x ∧ (us₁ ++ [u]).getLast? ≠ some n := by
      intro n hn
      refine ⟨hf.ne_x (by simp [hn]), fun hl => ?_⟩
      obtain rfl : u = n := by simpa using hl
      exact (List.nodup_append.mp (List.nodup_append.mp hnd).1).2.2 u hn u (by simp) rfl
    have hfu : (addedInfo geo today anc (us₁ ++ [u]) x start stop u).fspace_trk =
      start - ((anc.info u).end_trk + 1) := by
      simp only [addedInfo, if_neg (hf.last_ne_x (u := u) (by simp)), List.getLast?_concat, if_true, gapStart]
    simp only [List.map_append, afters_append, List.map_cons, List.append_assoc, List.singleton_append,
      List.map_nil, afters, nextStart] at hgaps ⊢
    obtain ⟨e₁, e₂⟩ := List.append_inj hgaps (by simp [afters_length])
    simp only [List.cons.injEq] at e₂
    rw [hfs us₁ hu₁, hfs us₂ hu₂, hfu, hfx, e₁, e₂.2]
    rfl

end

/-! ## The labels -/

theorem gaps_eq {T : Nat} {rs gs : List (Nat × Nat)} (hs : Sorted rs)
    (hw : ∀ r ∈ rs, FIRST_USABLE_TRK ≤ r.1 ∧ r.2 ≤ T) (hc : Canonical gs)
    (hcov : ∀ t, Covers gs t ↔ (FIRST_USABLE_TRK ≤ t ∧ t < T) ∧ ¬ Covers rs t) :
    gs = Ranges.gaps FIRST_USABLE_TRK T rs :=
  hc.ext (gaps_canonical hs fun r hr => (hw r hr).1) fun t => by
    rw [hcov, Ranges.covers_gaps hs (fun r hr => (hw r hr).1) fun r hr => (hw r hr).2]

theorem Table.covers_gaps (h : Table geo anc us fs) (t : Nat) :
    Covers (Ranges.gaps FIRST_USABLE_TRK (tracks geo anc) (us.map fun n => (anc.info n).rng)) t ↔
      (FIRST_USABLE_TRK ≤ t ∧ t < tracks geo anc) ∧ ¬ Covers (us.map fun n => (anc.info n).rng) t :=
  Ranges.covers_gaps h.sorted (fun _ hr => (h.sorted_within hr).1) (fun _ hr => (h.sorted_within hr).2) t

theorem Table.canonical_gaps (h : Table geo anc us fs) :
    Canonical (Ranges.gaps FIRST_USABLE_TRK (tracks geo anc) (us.map fun n => (anc.info n).rng)) :=
  gaps_canonical h.sorted fun _ hr => (h.sorted_within hr).1

theorem Table.gaps_length (h : Table geo anc us fs) :
    (Ranges.gaps FIRST_USABLE_TRK (tracks geo anc) (us.map fun n => (anc.info n).rng)).length < 16 := by
  have h₁ := gaps_length_le FIRST_USABLE_TRK (tracks geo anc) (us.map fun n => (anc.info n).rng)
  have h₂ := h.all
  simp only [List.length_map, List.length_append] at h₁ h₂
  simp only [USABLE_PARTITIONS, DASD_PARTN_BITS, Nat.reduceShiftLeft, Nat.reduceSub] at h₂
  omega

theorem describes_congr {trk tot : Nat} {l l' : FreeLabels} {gs : List (Nat × Nat)} (h : Describes trk tot l gs)
    (h₅ : l'.f5 = l.f5) (h₇ : l'.f7 = l.f7) : Describes trk tot l' gs :=
  ⟨by rw [h₅]; exact h.f5, by rw [h₇]; exact h.f7, by rw [h₅]; exact h.len5, by rw [h₇]; exact h.len7,
    by rw [h₅, h₇]; exact h.big, by rw [h₅, h₇]; exact h.small⟩

section
variable {us₁ us₂ : List Node} {x : Node} {start stop : Nat} (hf : Fits geo anc us₁ us₂ fs x start stop)
include hf

theorem Fits.freespace (D : Disk geo anc.formatted_cylinders) (f4 : Format4Label) :
    ∃ l, vtoc_set_freespace ⟨f4, anc.f5, anc.f7⟩ '-' start stop anc.formatted_cylinders geo.heads = .ok l ∧
      l.f4 = freespace_f4 anc.formatted_cylinders geo.heads f4 ∧
      Describes geo.heads (tracks geo anc) l (Ranges.gaps FIRST_USABLE_TRK (tracks geo anc)
        (us₁.map (fun n => (anc.info n).rng) ++ (start, stop + 1) :: us₂.map fun n => (anc.info n).rng)) := by
  have hheads := D.heads_pos
  have hheads' := D.heads_le
  have hst := hf.free.2.2.1
  have hs := hf.free.1
  obtain ⟨g, hg, hg₁, hg₂⟩ := exists_gap FIRST_USABLE_TRK (tracks geo anc) hf.sorted hf.free.1 hf.lt hst
    fun s hs => hf.disj hs
  rw [← List.map_append] at hg
  obtain ⟨l, gs', hl, hc', hd', hf4, hcov⟩ := set_freespace_del geo.heads anc.formatted_cylinders
    (by omega) (by omega) D.tracks_le (l := ⟨f4, anc.f5, anc.f7⟩) (describes_congr hf.table.labels rfl rfl)
    hf.table.canonical_gaps hf.table.gaps_length start stop
      (by simp only [FIRST_USABLE_TRK] at hs; omega) hf.free.2.1 hst hg hg₁ hg₂
  have hgs : gs' = _ := gaps_eq (T := tracks geo anc) (hf.sorted.insert hf.lt hf.between.1 hf.between.2) ?_ hc' ?_
  · exact ⟨l, hl, hf4, hgs ▸ hd'⟩
  · intro r hr
    rcases List.mem_append.mp hr with hr | hr
    · exact hf.table.sorted_within (by rw [List.map_append]; exact List.mem_append_left _ hr)
    · rcases List.mem_cons.mp hr with rfl | hr
      · exact ⟨hf.free.1, hst⟩
      · exact hf.table.sorted_within (by rw [List.map_append]; exact List.mem_append_right _ hr)
  · intro t
    rw [hcov, hf.table.covers_gaps, List.map_append, covers_append, covers_append, covers_cons]
    tauto

theorem Fits.add (D : Disk geo anc.formatted_cylinders) (today : Labeldate) :
    ∃ L l, addPartition geo today anc x start stop =
        .ok ((added geo today anc L us₁ (us₂ ++ fs) x start stop).withLabels l) ∧
      Table geo ((added geo today anc L us₁ (us₂ ++ fs) x start stop).withLabels l) (us₁ ++ x :: us₂) fs ∧
      l.f4 = freespace_f4 anc.formatted_cylinders geo.heads
        (addedFormat4 (added geo today anc L us₁ (us₂ ++ fs) x start stop)) := by
  obtain ⟨L, hL, heq⟩ := hf.addPartition_eq D today
  obtain ⟨l, hl, hf4, hd⟩ := hf.freespace D (addedFormat4 (added geo today anc L us₁ (us₂ ++ fs) x start stop))
  have hup : updateLabels geo (added geo today anc L us₁ (us₂ ++ fs) x start stop)
      (addedFormat4 (added geo today anc L us₁ (us₂ ++ fs) x start stop)) '-' start stop =
      .ok ((added geo today anc L us₁ (us₂ ++ fs) x start stop).withLabels l) := by
    unfold updateLabels Fdasd.freespace
    rw [show (added geo today anc L us₁ (us₂ ++ fs) x start stop).f5 = anc.f5 from rfl,
      show (added geo today anc L us₁ (us₂ ++ fs) x start stop).f7 = anc.f7 from rfl,
      show (added geo today anc L us₁ (us₂ ++ fs) x start stop).formatted_cylinders =
        anc.formatted_cylinders from rfl,
      hl]
  have hm : (us₁ ++ x :: us₂).map
      (fun n => (((added geo today anc L us₁ (us₂ ++ fs) x start stop).withLabels l).info n).rng) = _ :=
    hf.map_rng today
  refine ⟨L, l, heq.trans hup, ⟨⟨?_, ?_, fun n hn => hf.used D today hn, fun n hn => hf.unused today hn, ?_, ?_, ?_,
    ?_, ?_⟩, ?_⟩, hf4⟩
  · have : us₁ ++ x :: us₂ ++ fs = us₁ ++ x :: (us₂ ++ fs) := by simp
    rw [this]; exact hL
  · have := hf.table.all
    simp only [List.length_append, List.length_cons, List.length_nil] at this ⊢
    omega
  · have hc := hf.table.count
    have hall := hf.table.all
    simp only [List.length_append, List.length_cons, List.length_nil] at hc hall ⊢
    simp only [USABLE_PARTITIONS, DASD_PARTN_BITS, Nat.reduceShiftLeft, Nat.reduceSub] at hall
    show u32 ((anc.used_partitions + 1 : Nat) : Int) = _
    unfold u32; omega
  · intro n hn
    have hr : (addedInfo geo today anc us₁ x start stop n).rng =
        if n = x then (start, stop + 1) else (anc.info n).rng := addedInfo_rng today n
    show FIRST_USABLE_TRK ≤ (addedInfo geo today anc us₁ x start stop n).rng.1 ∧
      (addedInfo geo today anc us₁ x start stop n).rng.2 ≤ tracks geo anc
    rw [hr]
    by_cases hnx : n = x
    · rw [if_pos hnx]; exact ⟨hf.free.1, hf.free.2.2.1⟩
    · rw [if_neg hnx]
      exact hf.table.within n (by simp only [List.mem_append, List.mem_cons, hnx, false_or] at hn ⊢; exact hn)
  · exact hm ▸ hf.sorted.insert hf.lt hf.between.1 hf.between.2
  · show (if us₁ = [] then start - FIRST_USABLE_TRK else anc.fspace_trk) = nextStart (tracks geo anc) _ - _
    rw [hm]
    cases us₁ with
    | nil => rfl
    | cons u us₁ => exact hf.table.head_gap
  · exact (hf.map_fspace today).trans (by rw [← hm]; rfl)
  · exact hm ▸ hd

end

end

end Fdasd
