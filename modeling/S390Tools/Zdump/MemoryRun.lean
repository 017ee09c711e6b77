import S390Tools.Zdump.Remap

/-!
# Runs on the memory map

The virtual memory is a partial function from virtual to physical addresses.
Requests change it, lookups and reads follow it; what can go wrong is the life
time of data that the physical chunks share, and of the chunk in the cache.
-/

namespace Zdump.Memory

open Word Run

/-! ## Sorting the list -/

def Sorted (s : State) : Prop := s.mem_virt.chunk_list.Pairwise fun a b => a.stop < b.start

def update (s : State) : State := { s with mem_virt := mem_update s.mem_virt }

theorem update_perm (s : State) : (update s).mem_virt.chunk_list.Perm s.mem_virt.chunk_list :=
  BubbleSort.sort_perm Chunk.start _

theorem mem_update_iff {s : State} {c : Chunk} : c ∈ (update s).mem_virt.chunk_list ↔ c ∈ s.mem_virt.chunk_list :=
  (update_perm s).mem_iff

theorem Wf.update {s : State} (h : Wf s) : Wf (update s) where
  phys_ok := h.phys_ok
  phys_disjoint := h.phys_disjoint
  phys_live := h.phys_live
  phys_cache := h.phys_cache
  virt_ok c hc := h.virt_ok c (mem_update_iff.1 hc)
  virt_disjoint := ((update_perm s).pairwise_iff fun hab => hab.symm).mpr h.virt_disjoint
  virt_live c hc := h.virt_live c (mem_update_iff.1 hc)
  nums := (((update_perm s).map Chunk.num).append_left _).nodup_iff.mpr h.nums
  nums_lt c hc := h.nums_lt c (((update_perm s).append_left _).mem_iff.mp hc)
  freed_lt := h.freed_lt
  cnt := h.cnt.trans (update_perm s).length_eq.symm

theorem Wf.sorted_update {s : State} (h : Wf s) : Sorted (Memory.update s) := by
  have hle := BubbleSort.sort_sorted Chunk.start s.mem_virt.chunk_list
  refine (hle.and h.update.virt_disjoint).imp_of_mem fun {a b} ha hb hab => ?_
  have h₁ := (h.update.virt_ok a ha).1
  have h₂ := (h.update.virt_ok b hb).1
  have h₃ := h₁.stop
  have h₄ := h₂.stop
  have h₅ := h₁.pos
  have h₆ := h₂.pos
  rcases hab with ⟨hs, hlt | hlt⟩
  · exact hlt
  · omega

theorem shows_update {s : State} {a p : Nat} : Shows (update s) a p ↔ Shows s a p := by
  unfold Shows
  simp only [mem_update_iff]

theorem cacheLive_update {s : State} : CacheLive (update s) ↔ CacheLive s := by
  unfold CacheLive
  simp only [mem_update_iff]
  rfl

/-! ## The requests -/

section
variable {s : State} {start size : Nat}

theorem mem_unmap_spec (h : Wf s) (hpos : 1 ≤ size) (hfit : start + size ≤ U64_MAX) :
    Wf (mem_unmap start size s) ∧ Sorted (mem_unmap start size s) ∧ (mem_unmap start size s).mem_phys = s.mem_phys ∧
      (∀ a p, Shows (mem_unmap start size s) a p ↔ Shows s a p ∧ ¬ (start ≤ a ∧ a < start + size)) ∧
      (∀ k, .ext k ∈ (mem_unmap start size s).freed ↔ FreedAfter start size s k) ∧
      (CacheLive (mem_unmap start size s) ↔ LiveAfter start size s) ∧
      (∀ c ∈ (mem_unmap start size s).mem_virt.chunk_list, ∀ k, c.data = some (.ext k) →
        c ∈ s.mem_virt.chunk_list) := by
  have hrounds : rounds start size s.mem_virt.chunk_list ≤ 3 * s.mem_virt.chunk_list.length := by
    unfold rounds
    generalize s.mem_virt.chunk_list = cs
    induction cs with
    | nil => exact Nat.le_refl 0
    | cons c cs ih =>
      rw [List.map_cons, List.sum_cons, List.length_cons]
      split <;> omega
  obtain ⟨hw, ⟨hphys, hshows, hfreed, hlive, hold⟩, hno⟩ := unmap_loop_ind hpos hfit
    (fun t => t.mem_phys = s.mem_phys ∧ (∀ a p, (a < start ∨ start + size ≤ a) → (Shows t a p ↔ Shows s a p)) ∧
      (∀ k, FreedAfter start size t k ↔ FreedAfter start size s k) ∧
        (LiveAfter start size t ↔ LiveAfter start size s) ∧
      (∀ c ∈ t.mem_virt.chunk_list, ∀ k, c.data = some (.ext k) → c ∈ s.mem_virt.chunk_list))
    (fun t t' c l₁ l₂ ht ⟨h₁, h₂, h₃, h₄, h₅⟩ hl hhit hr =>
      ⟨hr.phys.trans h₁, fun a p hout => (ht.shows_round hl hhit hr hout).trans (h₂ a p hout),
        fun k => (ht.freed_round hl hhit hr k).trans (h₃ k), (ht.live_round hl hhit hr).trans h₄,
        fun b hb k hk => h₅ b (ht.old_round hl hhit hr hb hk) k hk⟩)
    _ s [] s.mem_virt.chunk_list h ⟨rfl, fun _ _ _ => Iff.rfl, fun _ => Iff.rfl, Iff.rfl, fun c hc _ _ => hc⟩ rfl
    (fun c hc => absurd hc List.not_mem_nil) hrounds
  change Wf (update (unmap_loop start size _ _ s)) ∧ Sorted (update (unmap_loop start size _ _ s)) ∧ _
  generalize hloop : unmap_loop start size (3 * s.mem_virt.chunk_list.length) s.mem_virt.chunk_list.head? s = t at *
  have heq : mem_unmap start size s = update t := by rw [← hloop]; rfl
  rw [heq]
  refine ⟨hw.update, hw.sorted_update, hphys, fun a p => ?_, fun k => ?_, ?_, fun c hc =>
    hold c (mem_update_iff.1 hc)⟩
  · rw [shows_update]
    by_cases hin : start ≤ a ∧ a < start + size
    · refine iff_of_false ?_ fun hs => hs.2 hin
      rintro ⟨c, hc, ha, -⟩
      exact hno c hc ⟨Nat.le_trans hin.1 ha.2, Nat.lt_of_le_of_lt ha.1 hin.2⟩
    · rw [hshows a p (by omega)]
      exact ⟨fun hs => ⟨hs, hin⟩, And.left⟩
  · rw [← hfreed]
    exact ⟨Or.inl, fun hf => hf.resolve_right fun ⟨c, hc, hhit, _⟩ => hno c hc hhit⟩
  · rw [cacheLive_update, ← hlive]
    constructor
    · rintro ⟨c, hc, hcache⟩
      exact Or.inr ⟨c, hc, hcache, hno c hc⟩
    · rintro (⟨c, hc, hhit, -⟩ | ⟨c, hc, hcache, -⟩)
      · exact absurd hhit (hno c hc)
      · exact ⟨c, hc, hcache⟩

theorem mem_unmap_top (hfit : start + size = U64_MAX + 1) (s : State) : mem_unmap start size s = update s := by
  have hround : ∀ c, unmap_chunk start size c s = s := by
    intro c
    have hsum : u64 ((start + size : Nat) : Int) = 0 := by
      rw [hfit]
      rfl
    unfold unmap_chunk
    simp only [hsum]
    rw [if_pos (Nat.zero_le _)]
  have hloop : ∀ fuel c, unmap_loop start size fuel c s = s := by
    intro fuel
    induction fuel with
    | zero =>
      intro c
      cases c <;> rfl
    | succ fuel ih =>
      intro c
      cases c with
      | none => rfl
      | some c =>
        rw [unmap_loop, hround]
        exact ih _
  unfold mem_unmap
  simp only [hloop]
  rfl

theorem mem_range_mapped_iff (h : Wf s) (hpos : 1 ≤ size) (hfit : start + size ≤ U64_MAX + 1) :
    mem_range_mapped start size s = true ↔ ∃ a p, start ≤ a ∧ a < start + size ∧ Shows s a p := by
  have hstop : u64 ((start : Int) + size - 1) = start + size - 1 := by
    unfold U64_MAX at hfit
    rw [u64_of_lt (by omega) (by omega)]
    omega
  unfold mem_range_mapped
  simp only [hstop, List.any_eq_true, decide_eq_true_eq]
  constructor
  · rintro ⟨c, hc, h₁, h₂⟩
    have hok := (h.virt_ok c hc).1
    have := hok.stop
    have := hok.pos
    exact ⟨max start c.start, _, by omega, by omega, c, hc, ⟨by omega, by omega⟩, rfl⟩
  · rintro ⟨a, p, h₁, h₂, c, hc, ha, -⟩
    have := ha.1
    have := ha.2
    exact ⟨c, hc, by omega, by omega⟩

theorem mem_map_abort (h : Wf s) (hpos : 1 ≤ size) (hfit : start + size ≤ U64_MAX + 1) (sp : Nat)
    (hm : ∃ a p, start ≤ a ∧ a < start + size ∧ Shows s a p) : mem_map start size sp s =
      .error .already_mapped := by
  unfold mem_map
  rw [if_pos ((mem_range_mapped_iff h hpos hfit).mpr hm)]

theorem Wf.chunk_map_add (h : Wf s) (hpos : 1 ≤ size) (hsize : size ≤ U64_MAX)
    (hfit : start + size ≤ U64_MAX + 1) {sp : Nat}
    (hphys : ∀ i < size, PhysMapped s (sp + i)) (hno : ∀ a p, start ≤ a → a < start + size → ¬ Shows s a p) :
    Wf (mem_chunk_map_add start size sp s) := by
  let c := chunk_create s.next start size (some (.own s.next)) (.map sp) true
  have hok : c.Ok := chunk_create_ok hpos hsize hfit ..
  have hstart : c.start = start := rfl
  have hcsize : c.size = size := rfl
  have hstop := hok.stop
  have hlist : (mem_chunk_map_add start size sp s).mem_virt.chunk_list = s.mem_virt.chunk_list ++ [c] := rfl
  have hmem : ∀ b, b ∈ (mem_chunk_map_add start size sp s).mem_virt.chunk_list ↔
      b ∈ s.mem_virt.chunk_list ∨ b = c := by
    intro b
    rw [hlist, List.mem_append, List.mem_singleton]
  constructor
  · exact h.phys_ok
  · exact h.phys_disjoint
  · exact h.phys_live
  · exact h.phys_cache
  · intro b hb
    rcases (hmem b).mp hb with hb | rfl
    · exact h.virt_ok b hb
    · refine ⟨hok, rfl, rfl, fun hf => ?_, fun a h₁ h₂ => hphys _ (by omega)⟩
      exact absurd (h.freed_lt _ (Or.inr hf)) (Nat.lt_irrefl _)
  · rw [hlist, List.pairwise_append]
    refine ⟨h.virt_disjoint, List.pairwise_singleton .., fun b hb d hd => ?_⟩
    rw [List.mem_singleton.mp hd]
    have hbok := (h.virt_ok b hb).1
    have := hbok.stop
    have := hbok.pos
    -- an address in both would be mapped already
    by_contra hn
    unfold Disjoint at hn
    exact hno (max start b.start) _ (by omega) (by omega) ⟨b, hb, ⟨by omega, by omega⟩, rfl⟩
  · intro b hb hf
    rcases (hmem b).mp hb with hb | rfl
    · exact h.virt_live b hb hf
    · exact absurd (h.freed_lt _ (Or.inl hf)) (Nat.lt_irrefl _)
  · rw [hlist, List.map_append, ← List.append_assoc, List.nodup_append]
    refine ⟨h.nums, List.nodup_singleton _, fun n hn m hm => ?_⟩
    rw [List.mem_singleton.mp hm, ← List.map_append] at *
    obtain ⟨b, hb, rfl⟩ := List.mem_map.mp hn
    exact Nat.ne_of_lt (h.nums_lt b hb)
  · intro b hb
    show b.num < s.next + 1
    rcases List.mem_append.mp hb with hb | hb
    · exact Nat.lt_succ_of_lt (h.nums_lt b (List.mem_append_left _ hb))
    · rcases (hmem b).mp hb with hb | rfl
      · exact Nat.lt_succ_of_lt (h.virt_num_lt hb)
      · exact Nat.lt_succ_self _
  · intro n hn
    exact Nat.lt_succ_of_lt (h.freed_lt n hn)
  · rw [hlist, List.length_append]
    exact congrArg (· + 1) h.cnt

theorem mem_map_spec (h : Wf s) (hpos : 1 ≤ size) (hsize : size ≤ U64_MAX)
    (hfit : start + size ≤ U64_MAX + 1) {sp : Nat}
    (hphys : ∀ i < size, PhysMapped s (sp + i)) (hno : ∀ a p, start ≤ a → a < start + size → ¬ Shows s a p) :
    ∃ s', mem_map start size sp s = .ok s' ∧ Wf s' ∧ Sorted s' ∧ s'.mem_phys = s.mem_phys ∧ s'.freed = s.freed ∧
      CacheLive s' ∧ (∀ a p, Shows s' a p ↔
        if start ≤ a ∧ a < start + size then p = sp + (a - start) else Shows s a p) := by
  have hmapped : ¬ mem_range_mapped start size s = true := by
    rw [mem_range_mapped_iff h hpos hfit]
    rintro ⟨a, p, h₁, h₂, hs⟩
    exact hno a p h₁ h₂ hs
  let c := chunk_create s.next start size (some (.own s.next)) (.map sp) true
  have hok : c.Ok := chunk_create_ok hpos hsize hfit ..
  have hstart : c.start = start := rfl
  have hcsize : c.size = size := rfl
  have hstop := hok.stop
  let t := mem_chunk_map_add start size sp s
  have hlist : t.mem_virt.chunk_list = s.mem_virt.chunk_list ++ [c] := rfl
  have hmem : ∀ b, b ∈ t.mem_virt.chunk_list ↔ b ∈ s.mem_virt.chunk_list ∨ b = c := by
    intro b
    rw [hlist, List.mem_append, List.mem_singleton]
  have hw : Wf t := h.chunk_map_add hpos hsize hfit hphys hno
  refine ⟨update t, ?_, hw.update, hw.sorted_update, rfl, rfl, ?_, fun a p => ?_⟩
  · unfold mem_map
    rw [if_neg hmapped]
    rfl
  · rw [cacheLive_update]
    exact ⟨c, (hmem c).mpr (Or.inr rfl), rfl⟩
  · rw [shows_update]
    by_cases hin : start ≤ a ∧ a < start + size
    · rw [if_pos hin]
      constructor
      · rintro ⟨b, hb, ha, hp⟩
        rcases (hmem b).mp hb with hb | rfl
        · exact absurd ⟨b, hb, ha, hp⟩ (hno a p hin.1 hin.2)
        · exact hp
      · intro hp
        exact ⟨c, (hmem c).mpr (Or.inr rfl), ⟨hin.1, by omega⟩, hp⟩
    · rw [if_neg hin]
      constructor
      · rintro ⟨b, hb, ha, hp⟩
        rcases (hmem b).mp hb with hb | rfl
        · exact ⟨b, hb, ha, hp⟩
        · have := ha.1
          have := ha.2
          omega
      · rintro ⟨b, hb, ha, hp⟩
        exact ⟨b, (hmem b).mpr (Or.inl hb), ha, hp⟩

end

/-! ## Looking up -/

/-- What a lookup relies on: the chunks are alive and disjoint, and the cache points to one of them. -/
structure Lookup (freed : List Ptr) (m : Mem) : Prop where
  ok : ∀ c ∈ m.chunk_list, c.Ok
  live : ∀ c ∈ m.chunk_list, .chunk c.num ∉ freed
  nums : (m.chunk_list.map Chunk.num).Nodup
  disjoint : m.chunk_list.Pairwise Disjoint
  cache : ∃ c ∈ m.chunk_list, m.chunk_cache = some c.num

section
variable {freed : List Ptr} {m : Mem}

theorem unique_of_disjoint {cs : List Chunk} (hd : cs.Pairwise Disjoint) {b c : Chunk} (hb : b ∈ cs) (hc : c ∈ cs)
    {a : Nat} (hba : mem_chunk_has_addr b a) (hca : mem_chunk_has_addr c a) : b = c := by
  have h₁ := hba.1
  have h₂ := hba.2
  have h₃ := hca.1
  have h₄ := hca.2
  by_contra hne
  rcases hd.forall hb hc hne with hlt | hlt
  · omega
  · omega

theorem find_addr {cs : List Chunk} (hd : cs.Pairwise Disjoint) {c : Chunk} (hc : c ∈ cs) {a : Nat}
    (ha : mem_chunk_has_addr c a) : (cs.find? fun c => mem_chunk_has_addr c a) = some c := by
  cases hf : cs.find? fun c => mem_chunk_has_addr c a with
  | none =>
    have hn := List.find?_eq_none.mp hf c hc
    exact absurd ha (by simpa using hn)
  | some b =>
    have hb := List.find?_some hf
    rw [unique_of_disjoint hd (List.mem_of_find?_eq_some hf) hc (of_decide_eq_true hb) ha]

theorem Lookup.cached_eq (h : Lookup freed m) :
    ∃ c ∈ m.chunk_list, m.chunk_cache = some c.num ∧ cached freed m = .ok c := by
  obtain ⟨c, hc, hcache⟩ := h.cache
  refine ⟨c, hc, hcache, ?_⟩
  have hfind : (m.chunk_list.find? fun b => b.num = c.num) = some c := by
    cases hf : m.chunk_list.find? fun b => b.num = c.num with
    | none =>
      have hn := List.find?_eq_none.mp hf c hc
      simp at hn
    | some b =>
      have hb := List.find?_some hf
      rw [List.inj_on_of_nodup_map h.nums (List.mem_of_find?_eq_some hf) hc (of_decide_eq_true hb)]
  unfold cached
  rw [hcache]
  simp only
  rw [if_neg (h.live c hc), hfind]

theorem Lookup.find_eq (h : Lookup freed m) {c : Chunk} (hc : c ∈ m.chunk_list) {a : Nat}
    (ha : mem_chunk_has_addr c a) :
    mem_chunk_find freed a m = .ok (some c, { m with chunk_cache := some c.num }) := by
  obtain ⟨b, hb, hcache, heq⟩ := h.cached_eq
  unfold mem_chunk_find
  rw [heq]
  simp only
  by_cases hba : mem_chunk_has_addr b a
  · rw [if_pos hba, unique_of_disjoint h.disjoint hc hb ha hba, ← hcache]
  · rw [if_neg hba, find_addr h.disjoint hc ha]

theorem Lookup.find_none (h : Lookup freed m) {a : Nat} (hno : ∀ c ∈ m.chunk_list, ¬ mem_chunk_has_addr c a) :
    mem_chunk_find freed a m = .ok (none, m) := by
  obtain ⟨b, hb, -, heq⟩ := h.cached_eq
  have hf : (m.chunk_list.find? fun c => mem_chunk_has_addr c a) = none :=
    List.find?_eq_none.mpr fun c hc => by simpa using hno c hc
  unfold mem_chunk_find
  rw [heq]
  simp only
  rw [if_neg (hno b hb), hf]

theorem Lookup.touch (h : Lookup freed m) {c : Chunk} (hc : c ∈ m.chunk_list) :
    Lookup freed { m with chunk_cache := some c.num } :=
  ⟨h.ok, h.live, h.nums, h.disjoint, c, hc, rfl⟩

end

/-! ## Reading -/

def phys_byte (cs : List Chunk) (a : Nat) : UInt8 :=
  match cs.find? fun c => mem_chunk_has_addr c a with
  | none => 0
  | some c =>
    match c.read_fn with
    | .fmt read => read (a - c.start)
    | .map _ => 0

theorem piece_size {c : Chunk} (hc : c.Ok) {a : Nat} (ha : mem_chunk_has_addr c a) :
    u64 ((c.stop : Int) - a + 1) = c.stop - a + 1 := by
  obtain ⟨h₁, h₂⟩ := ha
  obtain ⟨h₃, h₄, h₅, h₆⟩ := hc
  unfold U64_MAX at h₄ h₆
  rw [u64_of_lt (by omega) (by omega)]
  omega

theorem next_addr {c : Chunk} {a left : Nat}
    (hmore : left - min left (c.stop - a + 1) ≠ 0) (hfit : a + left ≤ U64_MAX + 1) :
    u64 ((a + min left (c.stop - a + 1) : Nat) : Int) = a + min left (c.stop - a + 1) := by
  unfold U64_MAX at hfit
  rw [u64_of_lt (by omega) (by omega)]
  rfl

theorem range_split {α : Type*} (f : Nat → α) {k n : Nat} (h : k ≤ n) :
    (List.range n).map f = (List.range k).map f ++ (List.range (n - k)).map fun i => f (k + i) := by
  obtain ⟨d, rfl⟩ := Nat.exists_eq_add_of_le h
  rw [List.range_add, List.map_append, List.map_map, Nat.add_sub_cancel_left]
  rfl

theorem phys_byte_eq {cs : List Chunk} (hd : cs.Pairwise Disjoint) {c : Chunk} (hc : c ∈ cs) {a : Nat}
    (ha : mem_chunk_has_addr c a) {read : Nat → UInt8} (hr : c.read_fn = .fmt read) :
    phys_byte cs a = read (a - c.start) := by
  unfold phys_byte
  rw [find_addr hd hc ha]
  simp only [hr]

theorem phys_read_loop_eq {freed : List Ptr} (fuel : Nat) : ∀ (m : Mem) (left addr : Nat), Lookup freed m →
    (∀ p ∈ m.chunk_list, (∃ f, p.read_fn = .fmt f) ∧ ∀ d ∈ p.data, d ∉ freed) → left ≤ fuel →
    addr + left ≤ U64_MAX + 1 → (∀ i < left, ∃ p ∈ m.chunk_list, mem_chunk_has_addr p (addr + i)) →
    ∃ m', phys_read_loop freed fuel left addr m =
        .ok ((List.range left).map fun i => phys_byte m.chunk_list (addr + i), m') ∧
      ∃ c ∈ m.chunk_list, m' = { m with chunk_cache := some c.num } := by
  induction fuel with
  | zero =>
    intro m left addr h _ hl _ _
    rw [Nat.le_zero.mp hl]
    obtain ⟨c, hc, hcache⟩ := h.cache
    exact ⟨m, rfl, c, hc, by rw [← hcache]⟩
  | succ fuel ih =>
    intro m left addr h hall hl hfit hmap
    rw [phys_read_loop]
    by_cases h0 : left = 0
    · rw [if_pos h0, h0]
      obtain ⟨c, hc, hcache⟩ := h.cache
      exact ⟨m, rfl, c, hc, by rw [← hcache]⟩
    · rw [if_neg h0]
      obtain ⟨c, hc, ha⟩ := hmap 0 (Nat.pos_of_ne_zero h0)
      rw [Nat.add_zero] at ha
      obtain ⟨⟨f, hf⟩, hdata⟩ := hall c hc
      have hok := h.ok c hc
      have hsize := piece_size hok ha
      simp only [h.find_eq hc ha, hsize, hf]
      have hbytes : fmt_read freed c f (addr - c.start) (min left (c.stop - addr + 1)) =
          .ok ((List.range (min left (c.stop - addr + 1))).map fun i => phys_byte m.chunk_list (addr + i)) := by
        have hlive : ¬ (c.data.any fun p => p ∈ freed) = true := by
          intro hany
          obtain ⟨d, hd, hdf⟩ := (Option.any_eq_true ..).mp hany
          exact hdata d hd (of_decide_eq_true hdf)
        unfold fmt_read
        rw [if_neg hlive]
        congr 1
        refine List.map_congr_left fun i hi => ?_
        have hlt := List.mem_range.mp hi
        have h₁ := ha.1
        have h₂ := ha.2
        rw [phys_byte_eq h.disjoint hc ⟨by omega, by omega⟩ hf]
        congr 1
        omega
      rw [hbytes]
      have hsplit := range_split (fun i => phys_byte m.chunk_list (addr + i))
        (Nat.min_le_left left (c.stop - addr + 1))
      by_cases hmore : left - min left (c.stop - addr + 1) = 0
      · rw [hmore] at hsplit ⊢
        have hdone : ∀ a, phys_read_loop freed fuel 0 a { m with chunk_cache := some c.num } =
            .ok ([], { m with chunk_cache := some c.num }) := by
          intro a
          cases fuel with
          | zero => rfl
          | succ fuel => rw [phys_read_loop, if_pos rfl]
        rw [hdone, hsplit]
        exact ⟨_, rfl, c, hc, rfl⟩
      · rw [next_addr hmore hfit]
        obtain ⟨m', hrest, d, hd, hm'⟩ := ih { m with chunk_cache := some c.num }
          (left - min left (c.stop - addr + 1))
          (addr + min left (c.stop - addr + 1)) (h.touch hc) hall (by omega) (by omega) fun i hi => by
            have := hmap (min left (c.stop - addr + 1) + i) (by omega)
            rw [← Nat.add_assoc] at this
            exact this
        rw [hrest, hsplit]
        simp only [Nat.add_assoc]
        exact ⟨m', rfl, d, hd, hm'⟩

/-- The state after lookups: the caches may point to other chunks. -/
structure Touched (s s' : State) : Prop where
  inv : Inv s'
  phys : s'.mem_phys.chunk_list = s.mem_phys.chunk_list
  virt : s'.mem_virt.chunk_list = s.mem_virt.chunk_list

theorem Touched.trans {s t u : State} (h₁ : Touched s t) (h₂ : Touched t u) : Touched s u :=
  ⟨h₂.inv, h₂.phys.trans h₁.phys, h₂.virt.trans h₁.virt⟩

theorem Touched.shows {s t : State} (h : Touched s t) {a p : Nat} : Shows t a p ↔ Shows s a p := by
  unfold Shows
  rw [h.virt]

theorem Touched.physMapped {s t : State} (h : Touched s t) {a : Nat} : PhysMapped t a ↔ PhysMapped s a := by
  unfold PhysMapped
  rw [h.phys]

section
variable {s : State}

theorem Inv.refl (h : Inv s) : Touched s s := ⟨h, rfl, rfl⟩

theorem Inv.phys_lookup (h : Inv s) : Lookup s.freed s.mem_phys := by
  refine ⟨fun c hc => (h.wf.phys_ok c hc).1, h.wf.phys_live, (List.nodup_append.mp h.wf.nums).1, h.wf.phys_disjoint,
    h.wf.phys_cache fun hnil => ?_⟩
  -- the cached virtual chunk shows physical memory
  obtain ⟨c, hc, -⟩ := h.cache
  have hok := (h.wf.virt_ok c hc).1
  obtain ⟨p, hp, -⟩ := h.wf.start_phys hc (a := c.start) ⟨Nat.le_refl _,
    by have := hok.pos; have := hok.stop; omega⟩
  rw [hnil] at hp
  cases hp

theorem Inv.virt_lookup (h : Inv s) : Lookup s.freed s.mem_virt :=
  ⟨fun c hc => (h.wf.virt_ok c hc).1, h.wf.virt_live, (List.nodup_append.mp h.wf.nums).2.1,
    h.wf.virt_disjoint, h.cache⟩

theorem Inv.touch_phys (h : Inv s) {c : Chunk} (hc : c ∈ s.mem_phys.chunk_list) :
    Touched s { s with mem_phys := { s.mem_phys with chunk_cache := some c.num } } :=
  ⟨⟨⟨h.wf.phys_ok, h.wf.phys_disjoint, h.wf.phys_live, fun _ => ⟨c, hc, rfl⟩, h.wf.virt_ok,
    h.wf.virt_disjoint, h.wf.virt_live,
    h.wf.nums, h.wf.nums_lt, h.wf.freed_lt, h.wf.cnt⟩, h.shared, h.cache⟩, rfl, rfl⟩

theorem Inv.touch_virt (h : Inv s) {c : Chunk} (hc : c ∈ s.mem_virt.chunk_list) :
    Touched s { s with mem_virt := { s.mem_virt with chunk_cache := some c.num } } :=
  ⟨⟨⟨h.wf.phys_ok, h.wf.phys_disjoint, h.wf.phys_live, h.wf.phys_cache, h.wf.virt_ok,
    h.wf.virt_disjoint, h.wf.virt_live,
    h.wf.nums, h.wf.nums_lt, h.wf.freed_lt, h.wf.cnt⟩, h.shared, ⟨c, hc, rfl⟩⟩, rfl, rfl⟩

theorem phys_read_eq (h : Inv s) {addr cnt : Nat} (hmap : ∀ i < cnt, PhysMapped s (addr + i))
    (hfit : addr + cnt ≤ U64_MAX + 1) :
    ∃ s', dfi_mem_phys_read addr cnt s =
      .ok ((List.range cnt).map fun i => phys_byte s.mem_phys.chunk_list (addr + i), s') ∧ Touched s s' := by
  obtain ⟨m', heq, c, hc, hm'⟩ := phys_read_loop_eq cnt s.mem_phys cnt addr h.phys_lookup
    (fun p hp => ⟨(h.wf.phys_ok p hp).2.1, h.shared p hp⟩) (Nat.le_refl cnt) hfit hmap
  refine ⟨_, ?_, h.touch_phys hc⟩
  unfold dfi_mem_phys_read
  rw [heq, hm']

theorem chunk_read_eq (h : Inv s) {c : Chunk} (hc : c ∈ s.mem_virt.chunk_list) {a cnt : Nat} (ha : c.start ≤ a)
    (hcnt : 1 ≤ cnt) (hstop : a + cnt ≤ c.stop + 1) :
    ∃ s', chunk_read c (a - c.start) cnt s =
      .ok ((List.range cnt).map fun i =>
        phys_byte s.mem_phys.chunk_list (mem_chunk_start_phys c + (a + i - c.start)), s') ∧ Touched s s' := by
  have hphys : ∀ i < cnt, PhysMapped s (mem_chunk_start_phys c + (a + i - c.start)) := fun i hi =>
    h.wf.start_phys hc ⟨by omega, by omega⟩
  have hd := (h.wf.virt_ok c hc).2
  unfold chunk_read
  unfold DataOk at hd
  cases hf : c.read_fn with
  | fmt f =>
    rw [hf] at hd
    obtain ⟨p, hp, hstart, hpstop, hread, hdata⟩ := hd
    have hlive : ¬ (c.data.any fun q => q ∈ s.freed) = true := by
      intro hany
      obtain ⟨d, hd, hdf⟩ := (Option.any_eq_true ..).mp hany
      exact h.shared p hp d (by rw [hdata]; exact hd) (of_decide_eq_true hdf)
    refine ⟨s, ?_, h.refl⟩
    simp only [fmt_read, if_neg hlive]
    congr 2
    refine List.map_congr_left fun i hi => ?_
    have hlt := List.mem_range.mp hi
    have hsp : mem_chunk_start_phys c = c.start := by
      unfold mem_chunk_start_phys
      rw [hf]
    rw [hsp, phys_byte_eq h.wf.phys_disjoint hp ⟨by omega, by omega⟩ hread, hstart]
    congr 1
    omega
  | map sp =>
    rw [hf] at hd
    obtain ⟨hdata, -, hown, -⟩ := hd
    have hsp : mem_chunk_start_phys c = sp := by
      unfold mem_chunk_start_phys
      rw [hf]
    rw [hsp] at hphys
    have hlive : ¬ (c.data.any fun q => q ∈ s.freed) = true := by
      intro hany
      obtain ⟨d, hd, hdf⟩ := (Option.any_eq_true ..).mp hany
      rw [hdata, Option.some.injEq] at hd
      rw [← hd] at hdf
      exact hown (of_decide_eq_true hdf)
    have hlast := h.wf.phys_fits (hphys (cnt - 1) (by omega))
    have hfirst : u64 ((sp + (a - c.start) : Nat) : Int) = sp + (a - c.start) := by
      unfold U64_MAX at hlast
      rw [u64_of_lt (by omega) (by omega)]
      rfl
    obtain ⟨s', heq, ht⟩ := @phys_read_eq _ h (sp + (a - c.start)) cnt (fun i hi => by
      have := hphys i hi
      rw [show sp + (a + i - c.start) = sp + (a - c.start) + i by omega] at this
      exact this) (by omega)
    refine ⟨s', ?_, ht⟩
    simp only [if_neg hlive, hfirst, heq]
    congr 2
    refine List.map_congr_left fun i _ => ?_
    rw [hsp]
    congr 1
    omega

theorem virt_read_loop_eq (fuel : Nat) : ∀ (s : State) (left addr : Nat) (p : Nat → Nat), Inv s → left ≤ fuel →
    (∀ i < left, Shows s (addr + i) (p i)) →
    ∃ s', virt_read_loop fuel left addr s =
      .ok ((List.range left).map fun i => phys_byte s.mem_phys.chunk_list (p i), s') ∧ Touched s s' := by
  induction fuel with
  | zero =>
    intro s left addr p h hl _
    rw [Nat.le_zero.mp hl]
    exact ⟨s, rfl, h.refl⟩
  | succ fuel ih =>
    intro s left addr p h hl hshow
    rw [virt_read_loop]
    by_cases h0 : left = 0
    · rw [if_pos h0, h0]
      exact ⟨s, rfl, h.refl⟩
    · rw [if_neg h0]
      obtain ⟨c, hc, ha, -⟩ := hshow 0 (Nat.pos_of_ne_zero h0)
      rw [Nat.add_zero] at ha
      have hok := (h.wf.virt_ok c hc).1
      have hstop := ha.2
      have hfit : addr + left ≤ U64_MAX + 1 := by
        obtain ⟨d, hd, hda, -⟩ := hshow (left - 1) (by omega)
        have := hda.2
        have := (h.wf.virt_ok d hd).1.fits
        omega
      simp only [h.virt_lookup.find_eq hc ha, piece_size hok ha]
      have ht := h.touch_virt hc
      obtain ⟨s₁, hread, ht₁⟩ := @chunk_read_eq _ ht.inv c hc addr (min left (c.stop - addr + 1)) ha.1
        (by omega) (by omega)
      have hbytes : ((List.range (min left (c.stop - addr + 1))).map fun i =>
          phys_byte s.mem_phys.chunk_list (mem_chunk_start_phys c + (addr + i - c.start))) =
          (List.range (min left (c.stop - addr + 1))).map fun i => phys_byte s.mem_phys.chunk_list (p i) := by
        refine List.map_congr_left fun i hi => ?_
        have hlt := List.mem_range.mp hi
        obtain ⟨d, hd, hda, hp⟩ := hshow i (by omega)
        have hca : mem_chunk_has_addr c (addr + i) := ⟨by have := ha.1; omega, by omega⟩
        rw [unique_of_disjoint h.wf.virt_disjoint hd hc hda hca] at hp
        rw [hp]
      have hread' := hread.trans (congrArg (fun b => Except.ok (b, s₁)) hbytes)
      simp only [hread']
      have hsplit := range_split (fun i => phys_byte s.mem_phys.chunk_list (p i))
        (Nat.min_le_left left (c.stop - addr + 1))
      by_cases hmore : left - min left (c.stop - addr + 1) = 0
      · rw [hmore] at hsplit ⊢
        have hdone : ∀ a, virt_read_loop fuel 0 a s₁ = .ok ([], s₁) := by
          intro a
          cases fuel with
          | zero => rfl
          | succ fuel => rw [virt_read_loop, if_pos rfl]
        rw [hdone, hsplit]
        exact ⟨s₁, rfl, ht.trans ht₁⟩
      · rw [next_addr hmore hfit]
        obtain ⟨s₂, hrest, ht₂⟩ := ih s₁ (left - min left (c.stop - addr + 1)) (addr + min left (c.stop - addr + 1))
          (fun i => p (min left (c.stop - addr + 1) + i)) ht₁.inv (by omega) fun i hi => by
            rw [ht₁.shows, ht.shows, Nat.add_assoc]
            exact hshow _ (by omega)
        rw [hrest, hsplit, ht₁.phys]
        exact ⟨s₂, rfl, (ht.trans ht₁).trans ht₂⟩

theorem mem_read_eq (h : Inv s) {addr cnt : Nat} {p : Nat → Nat} (hshow : ∀ i < cnt, Shows s (addr + i) (p i)) :
    ∃ s', dfi_mem_read addr cnt s = .ok ((List.range cnt).map fun i => phys_byte s.mem_phys.chunk_list (p i), s') ∧
      Touched s s' :=
  virt_read_loop_eq cnt s cnt addr p h (Nat.le_refl cnt) hshow

theorem chunk_find_eq (h : Inv s) (addr : Nat) :
    ∃ c s', dfi_mem_chunk_find addr s = .ok (c, s') ∧ Touched s s' ∧
      (∀ c', c = some c' → c' ∈ s.mem_virt.chunk_list ∧ mem_chunk_has_addr c' addr) ∧
      (c = none → ∀ p, ¬ Shows s addr p) := by
  unfold dfi_mem_chunk_find
  by_cases hex : ∃ c ∈ s.mem_virt.chunk_list, mem_chunk_has_addr c addr
  · obtain ⟨c, hc, ha⟩ := hex
    rw [h.virt_lookup.find_eq hc ha]
    refine ⟨some c, _, rfl, h.touch_virt hc, fun c' he => ?_, fun he => (by cases he)⟩
    cases he
    exact ⟨hc, ha⟩
  · rw [h.virt_lookup.find_none fun c hc ha => hex ⟨c, hc, ha⟩]
    refine ⟨none, s, rfl, h.refl, fun c' he => (by cases he), fun _ p hs => ?_⟩
    obtain ⟨c, hc, ha, -⟩ := hs
    exact hex ⟨c, hc, ha⟩

end

end Zdump.Memory
