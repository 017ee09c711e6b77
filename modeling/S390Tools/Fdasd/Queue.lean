import S390Tools.Fdasd.Anchor

/-!
# The list of partitions

Used partitions are at the front of the list, unused ones behind them.
`fdasd_enqueue_new_partition` moves the last node in front of the first one that
is unused or starts later, `fdasd_dequeue_old_partition` moves a node to the end.
-/

namespace Fdasd

open Word Vtoc DList

/-! ## Enqueue -/

/-- The search of the position: at most `fuel` steps from `part_tmp`, counted by `k`. -/
def enqueueSearch (anc : FdasdAnchor) (start : Nat) : Nat → Node → Nat → Except Stop (Node × Nat)
  | 0, part_tmp, k => .ok (part_tmp, k)
  | fuel + 1, part_tmp, k =>
    if (anc.info part_tmp).end_trk = 0 ∨ start < (anc.info part_tmp).start_trk then .ok (part_tmp, k)
    else
      match deref (anc.links.next part_tmp) with
      | .error e => .error e
      | .ok next => enqueueSearch anc start fuel next (k + 1)

/-- `part_info` is the last node; it is linked in front of `part_tmp`. -/
def moveBefore (anc : FdasdAnchor) (part_info part_tmp : Node) : Except Stop FdasdAnchor :=
  match deref (anc.links.prev part_info) with
  | .error e => .error e
  | .ok y =>
    let L := anc.links.setNext y none
    let L := L.setNext part_info (some part_tmp)
    let L := L.setPrev part_info (L.prev part_tmp)
    let L := L.setPrev part_tmp (some part_info)
    let L :=
      match L.prev part_info with
      | some u => L.setNext u (some part_info)
      | none => L
    .ok { anc with links := L, last := some y }

def FdasdAnchor.setGap (anc : FdasdAnchor) (n : Node) (g : Nat) : FdasdAnchor :=
  anc.upd n fun p => { p with fspace_trk := g }

def enqueueCounters (anc : FdasdAnchor) (part_info : Node) : Except Stop FdasdAnchor :=
  let p := anc.info part_info
  if anc.first = some part_info then
    if p.start_trk = FIRST_USABLE_TRK then
      .ok { anc.setGap part_info (u64 ((anc.fspace_trk : Int) - p.len_trk)) with fspace_trk := 0 }
    else
      .ok { anc.setGap part_info
          (u64 ((anc.fspace_trk : Int) - p.len_trk - p.start_trk + FIRST_USABLE_TRK)) with
        fspace_trk := u64 ((p.start_trk : Int) - FIRST_USABLE_TRK) }
  else
    match deref (anc.links.prev part_info) with
    | .error e => .error e
    | .ok prev =>
      let q := anc.info prev
      if p.start_trk = u64 (q.end_trk + 1 : Nat) then
        .ok ((anc.setGap part_info (u64 ((q.fspace_trk : Int) - p.len_trk))).setGap prev 0)
      else
        .ok ((anc.setGap part_info (u64 ((q.fspace_trk : Int) - p.len_trk - p.start_trk + q.end_trk + 1))).setGap
          prev (u64 ((p.start_trk : Int) - q.end_trk - 1)))

def enqueueFirst (anc : FdasdAnchor) (part_info part_tmp : Node) : FdasdAnchor :=
  if anc.first = some part_tmp then { anc with first := some part_info } else anc

def fdasd_enqueue_new_partition (anc : FdasdAnchor) : Except Stop FdasdAnchor := do
  let first ← deref anc.first
  let part_info ← deref anc.last
  let (part_tmp, k) ← enqueueSearch anc (anc.info part_info).start_trk (USABLE_PARTITIONS - 1) first 0
  let anc := enqueueFirst anc part_info part_tmp
  let anc ← if part_info = part_tmp then .ok anc else moveBefore anc part_info part_tmp
  let anc := anc.upd part_info fun p => { p with used := 0x01 }
  let anc := mapPos anc fun j => if j ≥ k then j + 1 else j
  enqueueCounters anc part_info

/-! ## Dequeue -/

def unlinkInner (anc : FdasdAnchor) (part_info : Node) : Except Stop FdasdAnchor :=
  if anc.first ≠ some part_info ∧ anc.last ≠ some part_info then
    match deref (anc.links.prev part_info), deref (anc.links.next part_info) with
    | .ok prev, .ok next =>
      .ok { anc with links := (anc.links.setNext prev (some next)).setPrev next (some prev) }
    | _, _ => .error .crash
  else .ok anc

def dequeueCounters (anc : FdasdAnchor) (part_info : Node) : Except Stop FdasdAnchor :=
  let p := anc.info part_info
  if anc.first = some part_info then
    match deref (anc.links.next part_info) with
    | .error e => .error e
    | .ok next =>
      .ok { anc with
        first := some next
        links := anc.links.setPrev next none
        fspace_trk := u64 (anc.fspace_trk + (p.len_trk + p.fspace_trk) : Nat) }
  else
    match deref (anc.links.prev part_info) with
    | .error e => .error e
    | .ok prev =>
      .ok (anc.upd prev fun q => { q with fspace_trk := u64 (q.fspace_trk + (p.len_trk + p.fspace_trk) : Nat) })

def moveToEnd (anc : FdasdAnchor) (part_info : Node) : Except Stop FdasdAnchor :=
  if anc.last ≠ some part_info then
    match deref anc.last with
    | .error e => .error e
    | .ok last =>
      let L := anc.links.setPrev part_info (some last)
      let L := L.setNext part_info none
      .ok { anc with links := L.setNext last (some part_info), last := some part_info }
  else .ok anc

def clearPartition (p : PartitionInfo) : PartitionInfo :=
  { p with used := 0x00, len_trk := 0x0, start_trk := 0x0, end_trk := 0x0, fspace_trk := 0x0, f1 := .zero }

def fdasd_dequeue_old_partition (anc : FdasdAnchor) (part_info : Node) (k : Nat) : Except Stop FdasdAnchor := do
  let anc ← unlinkInner anc part_info
  let anc ← dequeueCounters anc part_info
  let anc ← moveToEnd anc part_info
  let anc := mapPos anc fun j => if j ≥ k then j - 1 else j
  .ok (anc.upd part_info clearPartition)

/-! ## What the list looks like afterwards -/

section
variable {anc : FdasdAnchor}

theorem bind_ok {α β : Type} {x : Except Stop α} {a : α} (h : x = .ok a) (f : α → Except Stop β) :
    (x >>= f) = f a := by
  rw [h]; rfl

theorem bind_eq_ok {α β : Type} {x : Except Stop α} {f : α → Except Stop β} {b : β} (h : (x >>= f) = .ok b) :
    ∃ a, x = .ok a ∧ f a = .ok b := by
  cases x with
  | error e => cases h
  | ok a => exact ⟨a, rfl, h⟩

theorem exists_front (us : List Node) (P : Node → Prop) [DecidablePred P] :
    ∃ us₁ us₂, us = us₁ ++ us₂ ∧ (∀ n ∈ us₁, ¬ P n) ∧ ∀ n, us₂.head? = some n → P n := by
  induction us with
  | nil => exact ⟨[], [], rfl, by simp, by simp⟩
  | cons u us ih =>
    by_cases hu : P u
    · refine ⟨[], u :: us, rfl, by simp, fun n hn => ?_⟩
      obtain rfl : u = n := by simpa using hn
      exact hu
    · obtain ⟨us₁, us₂, rfl, h₁, h₂⟩ := ih
      refine ⟨u :: us₁, us₂, rfl, fun n hn => ?_, h₂⟩
      rcases List.mem_cons.mp hn with rfl | hn
      · exact hu
      · exact h₁ n hn

theorem enqueueSearch_eq {start : Nat} : ∀ {pre post : List Node} {t : Node} {p : Option Node} (k : Nat),
    Seg anc.links p (pre ++ t :: post) none →
    (∀ n ∈ pre, ¬ ((anc.info n).end_trk = 0 ∨ start < (anc.info n).start_trk)) →
    (post ≠ [] → (anc.info t).end_trk = 0 ∨ start < (anc.info t).start_trk) →
    ∀ first, (pre ++ t :: post).head? = some first →
      enqueueSearch anc start (pre.length + post.length) first k = .ok (t, k + pre.length)
  | [], [], t, p, k, _, _, _, first, hf => by
    obtain rfl : t = first := by simpa using hf
    rfl
  | [], x :: post, t, p, k, _, _, ht, first, hf => by
    obtain rfl : t = first := by simpa using hf
    simp only [List.length_nil, List.length_cons, Nat.zero_add, enqueueSearch]
    rw [if_pos (ht (by simp))]
    rfl
  | y :: pre, post, t, p, k, hseg, hpre, ht, first, hf => by
    obtain rfl : y = first := by simpa using hf
    obtain ⟨-, hnext, hseg'⟩ := hseg
    rw [List.append_eq] at hnext hseg'
    obtain ⟨z, hz⟩ : ∃ z, (pre ++ t :: post).head? = some z := by cases pre <;> simp
    rw [hz] at hnext
    have hlen : (y :: pre).length + post.length = (pre.length + post.length) + 1 := by simp; omega
    rw [hlen]
    simp only [enqueueSearch]
    rw [if_neg (hpre y (List.mem_cons_self ..)), hnext]
    simp only [Option.some_or, deref]
    rw [enqueueSearch_eq (k + 1) hseg' (fun n hn => hpre n (List.mem_cons_of_mem _ hn)) ht z hz]
    simp only [List.length_cons]
    congr 2
    omega

theorem moveBefore_spec {us vs : List Node} {t x : Node} {first : Option Node}
    (h : IsList anc.links first (some x) (us ++ t :: (vs ++ [x]))) :
    ∃ L, moveBefore anc x t = .ok { anc with links := L, last := (us ++ x :: t :: vs).getLast? } ∧
      IsList L (us ++ x :: t :: vs).head? (us ++ x :: t :: vs).getLast? (us ++ x :: t :: vs) := by
  have hnd := h.nodup
  have hprevx : anc.links.prev x = (t :: vs).getLast? := by
    have : us ++ t :: (vs ++ [x]) = (us ++ t :: vs) ++ x :: [] := by simp
    rw [this] at h
    rw [h.prev_eq, List.getLast?_append]
    cases hl : (t :: vs).getLast? with
    | none => simp at hl
    | some y => rfl
  have hprevt : anc.links.prev t = us.getLast? := h.prev_eq
  obtain ⟨y, hy⟩ : ∃ y, (t :: vs).getLast? = some y := ⟨_, List.getLast?_cons⟩
  have hymem : y ∈ t :: vs := List.mem_of_getLast? hy
  simp only [List.nodup_append, List.nodup_cons, List.mem_append, List.mem_cons, List.not_mem_nil, or_false] at hnd
  obtain ⟨hus, ⟨htvs, hvs, -, hvx⟩, hdis⟩ := hnd
  have htx : t ≠ x := fun he => htvs (Or.inr he)
  have hyx : y ≠ x := by
    rcases List.mem_cons.mp hymem with rfl | hm
    · exact htx
    · exact hvx y hm x rfl
  have hlast : (us ++ x :: t :: vs).getLast? = some y := by
    rw [List.getLast?_append, List.getLast?_cons_cons, hy]; rfl
  have hu : ∀ u, us.getLast? = some u → u ≠ x ∧ u ≠ t ∧ u ≠ y := by
    intro u hu
    have hmem := List.mem_of_getLast? hu
    refine ⟨hdis u hmem x (by simp), hdis u hmem t (by simp), hdis u hmem y ?_⟩
    rcases List.mem_cons.mp hymem with rfl | hm
    · exact Or.inl rfl
    · exact Or.inr (Or.inl hm)
  unfold moveBefore
  simp only [hprevx, hy, deref]
  rw [hlast]
  refine ⟨_, rfl, ?_⟩
  rw [← hlast]
  simp only [setPrev_prev, setNext_prev, htx.symm, if_true, if_false, hprevt]
  cases hug : us.getLast? with
  | none =>
    obtain rfl := List.getLast?_eq_none_iff.mp hug
    refine h.move_last_before ?_ ?_ ?_ ?_ ?_ ?_ ?_
    · simp
    · simp [htx.symm]
    · simp
    · simp
    · intro v hv
      obtain rfl := Option.some.inj (hy.symm.trans hv)
      simp [hyx]
    · intro z hz _ hz₂
      have hzx : z ≠ x := by
        rintro rfl
        rcases List.mem_append.mp hz with hz | hz
        · cases hz
        · rcases List.mem_cons.mp hz with rfl | hz
          · exact htx rfl
          · exact hvx z hz z rfl rfl
      have hzy : z ≠ y := by rintro rfl; exact hz₂ hy
      simp [hzx, hzy]
    · intro z hz
      have hzv : z ∈ vs := by simpa using hz
      have hzx : z ≠ x := hvx z hzv x rfl
      have hzt : z ≠ t := by rintro rfl; exact htvs (Or.inl hzv)
      simp [hzx, hzt]
  | some u =>
    obtain ⟨hux, hut, huy⟩ := hu u hug
    refine h.move_last_before ?_ ?_ ?_ ?_ ?_ ?_ ?_
    · simp [hux.symm]
    · simp [htx.symm, hug]
    · simp
    · intro u' hu'
      obtain rfl := Option.some.inj (hug.symm.trans hu')
      simp
    · intro v hv
      obtain rfl := Option.some.inj (hy.symm.trans hv)
      simp [hyx, huy.symm]
    · intro z hz hz₁ hz₂
      have hzx : z ≠ x := by
        rintro rfl
        rcases List.mem_append.mp hz with hz | hz
        · exact hdis z hz z (by simp) rfl
        · rcases List.mem_cons.mp hz with rfl | hz
          · exact htx rfl
          · exact hvx z hz z rfl rfl
      have hzy : z ≠ y := by rintro rfl; exact hz₂ hy
      have hzu : z ≠ u := by rintro rfl; exact hz₁ hug
      simp [hzx, hzy, hzu]
    · intro z hz
      have hzx : z ≠ x ∧ z ≠ t := by
        rcases List.mem_append.mp hz with hz | hz
        · exact ⟨hdis z hz x (by simp), hdis z hz t (by simp)⟩
        · exact ⟨hvx z hz x rfl, by rintro rfl; exact htvs (Or.inl hz)⟩
      simp [hzx.1, hzx.2]

def FdasdAnchor.withList (anc : FdasdAnchor) (L : Links Node) (ys : List Node) : FdasdAnchor :=
  { anc with links := L, first := ys.head?, last := ys.getLast? }

/-- The new partition `x` stands in the list, but the free space counters are still the old ones. -/
def queued (anc : FdasdAnchor) (L : Links Node) (us ws : List Node) (x : Node) : FdasdAnchor :=
  mapPos ((anc.withList L (us ++ x :: ws)).upd x fun p => { p with used := 0x01 })
    fun j => if j ≥ us.length then j + 1 else j

/-- The last node is queued behind the nodes `us` that are used and start in front of it. -/
theorem enqueue_eq {us ws : List Node} {x : Node} (h : IsList anc.links anc.first anc.last (us ++ (ws ++ [x])))
    (hlen : (us ++ (ws ++ [x])).length = USABLE_PARTITIONS)
    (hus : ∀ n ∈ us, ¬ ((anc.info n).end_trk = 0 ∨ (anc.info x).start_trk < (anc.info n).start_trk))
    (hws : ∀ n, ws.head? = some n → (anc.info n).end_trk = 0 ∨ (anc.info x).start_trk < (anc.info n).start_trk) :
    ∃ L, IsList L (us ++ x :: ws).head? (us ++ x :: ws).getLast? (us ++ x :: ws) ∧
      fdasd_enqueue_new_partition anc = enqueueCounters (queued anc L us ws x) x := by
  obtain ⟨first, hf⟩ : ∃ f, (us ++ (ws ++ [x])).head? = some f := by
    cases us <;> cases ws <;> simp
  have hlast : anc.last = some x := by rw [h.last_eq]; simp
  have hfirst : anc.first = some first := h.first_eq.trans hf
  have hd₁ : deref anc.first = .ok first := by rw [hfirst]; rfl
  have hd₂ : deref anc.last = .ok x := by rw [hlast]; rfl
  unfold fdasd_enqueue_new_partition
  rw [bind_ok hd₁, bind_ok hd₂]
  cases ws with
  | nil =>
    simp only [List.nil_append] at h hlen hf
    have hn : USABLE_PARTITIONS - 1 = us.length + ([] : List Node).length := by
      rw [← hlen]; simp
    rw [hn, bind_ok (enqueueSearch_eq 0 h.seg hus (by simp) first hf)]
    have hw : enqueueFirst anc x x = anc.withList anc.links (us ++ [x]) := by
      unfold enqueueFirst FdasdAnchor.withList
      rw [← h.last_eq, ← h.first_eq]
      split
      · rename_i he; rw [← he]
      · rfl
    refine ⟨anc.links, ?_, ?_⟩
    · rw [← h.first_eq, ← h.last_eq]; exact h
    · simp only [if_true, Nat.zero_add, hw]
      rfl
  | cons t vs =>
    have hn : USABLE_PARTITIONS - 1 = us.length + (vs ++ [x]).length := by
      rw [← hlen]; simp
    have h' : IsList anc.links anc.first (some x) (us ++ t :: (vs ++ [x])) := by rw [← hlast]; exact h
    rw [hn, bind_ok (enqueueSearch_eq 0 h'.seg hus (fun _ => hws t rfl) first hf)]
    obtain ⟨L, hm, hl⟩ := moveBefore_spec h'
    have htx : x ≠ t := by
      rintro rfl
      have := (List.nodup_append.mp h'.nodup).2.1
      simp at this
    refine ⟨L, hl, ?_⟩
    -- `first` changes exactly when the new partition is the first one
    have hw : enqueueFirst anc x t = { anc with first := (us ++ x :: t :: vs).head? } := by
      unfold enqueueFirst
      rw [hfirst]
      cases us with
      | nil =>
        obtain rfl : t = first := by simpa using hf
        simp
      | cons u us =>
        obtain rfl : u = first := by simpa using hf
        have hut : u ≠ t := (List.nodup_append.mp h'.nodup).2.2 u (by simp) t (by simp)
        rw [if_neg (by simpa using hut), List.cons_append, List.head?_cons, ← hfirst]
    have hm' : moveBefore (enqueueFirst anc x t) x t = .ok (anc.withList L (us ++ x :: t :: vs)) := by
      rw [hw]
      unfold moveBefore at hm ⊢
      simp only at hm ⊢
      split at hm
      · cases hm
      · rename_i y hy
        have := congrArg (fun a : Except Stop FdasdAnchor => a.map fun a => (a.links, a.last)) hm
        simp only [Except.map, Except.ok.injEq, Prod.mk.injEq] at this
        simp only [Except.ok.injEq, FdasdAnchor.withList]
        rw [this.1, this.2]
    simp only [htx, if_false, Nat.zero_add]
    rw [bind_ok hm']
    rfl

/-- The counter of the gap behind the nodes `us`. -/
def gapBehind (anc : FdasdAnchor) (us : List Node) : Nat :=
  match us.getLast? with
  | none => anc.fspace_trk
  | some u => (anc.info u).fspace_trk

def setGapBehind (anc : FdasdAnchor) (us : List Node) (g : Nat) : FdasdAnchor :=
  match us.getLast? with
  | none => { anc with fspace_trk := g }
  | some u => anc.setGap u g

theorem setGapBehind_eq (anc : FdasdAnchor) (us : List Node) (g : Nat) :
    setGapBehind anc us g = { anc with
      fspace_trk := if us = [] then g else anc.fspace_trk
      info := fun n => if us.getLast? = some n then { anc.info n with fspace_trk := g } else anc.info n } := by
  unfold setGapBehind
  cases hu : us.getLast? with
  | none => simp [List.getLast?_eq_none_iff.mp hu]
  | some u =>
    have hne : us ≠ [] := by rintro rfl; cases hu
    simp only [hne, if_false, FdasdAnchor.setGap, FdasdAnchor.upd, Option.some.injEq]
    congr 1
    funext n
    rw [Function.update_apply]
    by_cases hn : n = u
    · rw [if_pos hn, if_pos hn.symm, hn]
    · rw [if_neg hn, if_neg (Ne.symm hn)]

def addGap (anc : FdasdAnchor) (us : List Node) (g : Nat) : FdasdAnchor :=
  setGapBehind anc us (u64 (gapBehind anc us + g : Nat))

def gapStart (anc : FdasdAnchor) (us : List Node) : Nat :=
  match us.getLast? with
  | none => FIRST_USABLE_TRK
  | some u => (anc.info u).end_trk + 1

theorem enqueueCounters_eq {us ws : List Node} {x : Node} (h : IsList anc.links anc.first anc.last (us ++ x :: ws))
    (h₁ : gapStart anc us ≤ (anc.info x).start_trk) (h₂ : (anc.info x).start_trk < 18446744073709551616)
    (h₃ : (anc.info x).start_trk - gapStart anc us + (anc.info x).len_trk ≤ gapBehind anc us)
    (h₄ : gapBehind anc us < 18446744073709551616) :
    enqueueCounters anc x = .ok (setGapBehind (anc.setGap x
        (gapBehind anc us - (anc.info x).len_trk - ((anc.info x).start_trk - gapStart anc us))) us
      ((anc.info x).start_trk - gapStart anc us)) := by
  unfold enqueueCounters
  rcases List.eq_nil_or_concat us with rfl | ⟨us, u, rfl⟩
  · have hf : anc.first = some x := h.first_eq
    simp only [gapStart, gapBehind, setGapBehind, List.getLast?_nil] at *
    have h2 : FIRST_USABLE_TRK = 2 := rfl
    rw [if_pos hf]
    by_cases hs : (anc.info x).start_trk = FIRST_USABLE_TRK
    · have he : u64 ((anc.fspace_trk : Int) - (anc.info x).len_trk) =
          anc.fspace_trk - (anc.info x).len_trk - ((anc.info x).start_trk - FIRST_USABLE_TRK) :=
            by apply u64_eq <;> omega
      rw [if_pos hs, he, hs, Nat.sub_self]
    · have he : u64 ((anc.fspace_trk : Int) - (anc.info x).len_trk - (anc.info x).start_trk + FIRST_USABLE_TRK) =
          anc.fspace_trk - (anc.info x).len_trk - ((anc.info x).start_trk - FIRST_USABLE_TRK) :=
            by apply u64_eq <;> omega
      have he' : u64 (((anc.info x).start_trk : Int) - FIRST_USABLE_TRK) =
          (anc.info x).start_trk - FIRST_USABLE_TRK := by apply u64_eq <;> omega
      rw [if_neg hs, he, he']
  · rw [List.concat_eq_append] at *
    have hux : u ≠ x := (List.nodup_append.mp h.nodup).2.2 u (by simp) x (by simp)
    have hfx : anc.first ≠ some x := by
      rw [h.first_eq]
      intro he
      have hm : x ∈ us ++ [u] := by
        cases us with
        | nil => simp at he; exact absurd he hux
        | cons a us => simp at he; simp [he]
      exact (List.nodup_append.mp h.nodup).2.2 x hm x (by simp) rfl
    have hpx : anc.links.prev x = some u := by rw [h.prev_eq]; simp
    simp only [gapStart, gapBehind, setGapBehind, List.getLast?_concat] at *
    rw [if_neg hfx]
    simp only [hpx, deref]
    have he₀ : u64 (((anc.info u).end_trk + 1 : Nat) : Int) = (anc.info u).end_trk + 1 := by apply u64_eq <;> omega
    rw [he₀]
    by_cases hs : (anc.info x).start_trk = (anc.info u).end_trk + 1
    · have he : u64 (((anc.info u).fspace_trk : Int) - (anc.info x).len_trk) =
          (anc.info u).fspace_trk - (anc.info
            x).len_trk - ((anc.info x).start_trk - ((anc.info u).end_trk + 1)) := by
        apply u64_eq <;> omega
      rw [if_pos hs, he, hs, Nat.sub_self]
    · have he : u64 (((anc.info u).fspace_trk : Int) - (anc.info x).len_trk - (anc.info x).start_trk +
          (anc.info u).end_trk + 1) =
          (anc.info u).fspace_trk - (anc.info
            x).len_trk - ((anc.info x).start_trk - ((anc.info u).end_trk + 1)) := by
        apply u64_eq <;> omega
      have he' : u64 (((anc.info x).start_trk : Int) - (anc.info u).end_trk - 1) =
          (anc.info x).start_trk - ((anc.info u).end_trk + 1) := by apply u64_eq <;> omega
      rw [if_neg hs, he, he']

theorem dequeue_eq {us ws : List Node} {x : Node} (h : IsList anc.links anc.first anc.last (us ++ x :: ws))
    (hne : us ≠ [] ∨ ws ≠ []) (k : Nat) :
    ∃ L, IsList L (us ++ ws ++ [x]).head? (us ++ ws ++ [x]).getLast? (us ++ ws ++ [x]) ∧
      fdasd_dequeue_old_partition anc x k =
        .ok ((mapPos ((addGap anc us ((anc.info x).len_trk + (anc.info x).fspace_trk)).withList L (us ++ ws ++ [x]))
          fun j => if j ≥ k then j - 1 else j).upd x clearPartition) := by
  have hnd := h.nodup
  obtain ⟨hus, hxws, hdis⟩ := List.nodup_append.mp hnd
  obtain ⟨hxw, hws⟩ := List.nodup_cons.mp hxws
  have hprev := h.prev_eq
  have hnext := h.next_eq
  unfold fdasd_dequeue_old_partition
  rcases List.eq_nil_or_concat us with rfl | ⟨us, u, rfl⟩
  · -- the first node
    obtain ⟨w, ws, rfl⟩ := List.exists_cons_of_ne_nil (hne.resolve_left (by simp))
    have hf : anc.first = some x := h.first_eq
    obtain ⟨l, hl⟩ : ∃ l, (w :: ws).getLast? = some l := ⟨_, List.getLast?_cons⟩
    have hlmem := List.mem_of_getLast? hl
    have hlast : anc.last = some l := by
      rw [h.last_eq, List.nil_append, List.getLast?_cons_cons]; exact hl
    have hlx : l ≠ x := by rintro rfl; exact hxw hlmem
    have hwx : w ≠ x := by rintro rfl; exact hxw (List.mem_cons_self ..)
    refine ⟨(((anc.links.setPrev w none).setPrev x (some l)).setNext x none).setNext l (some x), ?_, ?_⟩
    · refine h.move_to_end ?_ ?_ ?_ ?_ ?_ ?_ ?_
      · simp [hlx.symm]
      · simp [hl]
      · simp [hwx]
      · simp
      · intro w' hw'
        obtain rfl := Option.some.inj (hl.symm.trans hw')
        simp
      · intro z hz _ hz₂
        have hzx : z ≠ x := by rintro rfl; exact hxw hz
        have hzl : z ≠ l := by rintro rfl; exact hz₂ hl
        simp [hzx, hzl]
      · intro z hz
        have hzx : z ≠ x := by rintro rfl; exact hxw (List.mem_cons_of_mem _ hz)
        have hzw : z ≠ w := by rintro rfl; exact (List.nodup_cons.mp hws).1 hz
        simp [hzx, hzw]
    · have h₁ : unlinkInner anc x = .ok anc := by simp [unlinkInner, hf]
      have h₂ : dequeueCounters anc x = .ok { anc with
          first := some w
          links := anc.links.setPrev w none
          fspace_trk := u64 (anc.fspace_trk + ((anc.info x).len_trk + (anc.info x).fspace_trk) : Nat) } := by
        simp [dequeueCounters, hf, hnext, deref]
      refine (bind_ok h₁ _).trans ((bind_ok h₂ _).trans (bind_ok (a := (addGap anc [] _).withList _ _) ?_ _))
      rw [FdasdAnchor.withList, List.getLast?_concat]
      simp [moveToEnd, hlast, hlx, deref, addGap, setGapBehind, gapBehind]
  · rw [List.concat_eq_append] at *
    have hux : u ≠ x := hdis u (by simp) x (by simp)
    have hfx : anc.first ≠ some x := by
      rw [h.first_eq]
      intro he
      have hm : x ∈ us ++ [u] := by
        cases us with
        | nil => simp at he; exact absurd he hux
        | cons a us => simp at he; simp [he]
      exact hdis x hm x (by simp) rfl
    have hpx : anc.links.prev x = some u := by rw [hprev]; simp
    cases ws with
    | nil =>
      -- the last node stays where it is
      have hlx : anc.last = some x := by rw [h.last_eq]; simp
      have h₁ : unlinkInner anc x = .ok anc := by simp [unlinkInner, hlx]
      have h₂ : dequeueCounters anc x = .ok (anc.upd u fun q =>
          { q with
            fspace_trk := u64 (q.fspace_trk + ((anc.info x).len_trk + (anc.info x).fspace_trk) : Nat) }) := by
        simp [dequeueCounters, hfx, hpx, deref]
      refine ⟨anc.links, ?_, ?_⟩
      · have := h
        rw [h.first_eq, h.last_eq] at this
        simpa using this
      · have hfl : us ++ [u] ++ [] ++ [x] = us ++ [u] ++ x :: [] := by simp
        refine (bind_ok h₁ _).trans ((bind_ok h₂ _).trans (bind_ok (a :=
          (addGap anc (us ++ [u]) _).withList _ _) ?_ _))
        rw [FdasdAnchor.withList, hfl, ← h.first_eq, ← h.last_eq]
        simp [moveToEnd, hlx, addGap, setGapBehind, gapBehind, FdasdAnchor.setGap, FdasdAnchor.upd]
    | cons w ws =>
      obtain ⟨l, hl⟩ : ∃ l, (w :: ws).getLast? = some l := ⟨_, List.getLast?_cons⟩
      have hlmem := List.mem_of_getLast? hl
      have hlast : anc.last = some l := by
        rw [h.last_eq, List.getLast?_append, List.getLast?_cons_cons, hl]; rfl
      have hlx : l ≠ x := by rintro rfl; exact hxw hlmem
      have hwx : w ≠ x := by rintro rfl; exact hxw (List.mem_cons_self ..)
      have hul : u ≠ l := hdis u (by simp) l (List.mem_cons_of_mem _ hlmem)
      refine ⟨((((anc.links.setNext u (some w)).setPrev w (some u)).setPrev x (some l)).setNext x none).setNext l
        (some x), ?_, ?_⟩
      · refine h.move_to_end ?_ ?_ ?_ ?_ ?_ ?_ ?_
        · simp [hlx.symm]
        · simp [hl]
        · simp [hwx]
        · intro u' hu'
          obtain rfl : u = u' := by simpa using hu'
          simp [hux, hul]
        · intro w' hw'
          obtain rfl := Option.some.inj (hl.symm.trans hw')
          simp
        · intro z hz hz₁ hz₂
          have hzx : z ≠ x := by
            rintro rfl
            rcases List.mem_append.mp hz with hz | hz
            · exact hdis z hz z (by simp) rfl
            · exact hxw hz
          have hzl : z ≠ l := by rintro rfl; exact hz₂ hl
          have hzu : z ≠ u := by rintro rfl; exact hz₁ (by simp)
          simp [hzx, hzl, hzu]
        · intro z hz
          have hzx : z ≠ x ∧ z ≠ w := by
            rcases List.mem_append.mp hz with hz | hz
            · exact ⟨hdis z hz x (by simp), hdis z hz w (by simp)⟩
            · exact ⟨by rintro rfl; exact hxw (List.mem_cons_of_mem _ hz),
                by rintro rfl; exact (List.nodup_cons.mp hws).1 hz⟩
          simp [hzx.1, hzx.2]
      · have h₁ : unlinkInner anc x =
            .ok { anc with links := (anc.links.setNext u (some w)).setPrev w (some u) } := by
          simp [unlinkInner, hfx, hlast, hlx, hpx, hnext, deref]
        have h₂ : dequeueCounters { anc with links := (anc.links.setNext u (some w)).setPrev w (some u) } x =
            .ok (({ anc with links := (anc.links.setNext u (some w)).setPrev w (some u) } :
              FdasdAnchor).upd u fun q =>
              { q with
                fspace_trk := u64 (q.fspace_trk + ((anc.info x).len_trk + (anc.info x).fspace_trk) : Nat) }) := by
          simp [dequeueCounters, hfx, hpx, hwx.symm, deref]
        have hhead : (us ++ [u] ++ w :: ws ++ [x]).head? = anc.first := by
          rw [h.first_eq]; cases us <;> simp
        refine (bind_ok h₁ _).trans ((bind_ok h₂ _).trans (bind_ok (a :=
          (addGap anc (us ++ [u]) _).withList _ _) ?_ _))
        rw [FdasdAnchor.withList, hhead, List.getLast?_concat]
        simp [moveToEnd, hlast, hlx, deref, addGap, setGapBehind, gapBehind, FdasdAnchor.setGap, FdasdAnchor.upd]

end

end Fdasd
