import S390Tools.Zdump.Memory

/-!
# Requests on the memory map

What a round of `mem_unmap` does to the list, the invariant of the memory map,
and the physical address that a virtual one stands for.
-/

namespace Zdump.Memory

open Word

/-! ## The invariant -/

structure Chunk.Ok (c : Chunk) : Prop where
  pos : 1 ≤ c.size
  size_fits : c.size ≤ U64_MAX
  stop : c.stop + 1 = c.start + c.size
  fits : c.stop ≤ U64_MAX

def Disjoint (a b : Chunk) : Prop := a.stop < b.start ∨ b.stop < a.start

theorem Disjoint.symm {a b : Chunk} (h : Disjoint a b) : Disjoint b a := Or.symm h

instance : Std.Symm Disjoint := ⟨fun _ _ h => h.symm⟩

def PhysMapped (s : State) (a : Nat) : Prop := ∃ p ∈ s.mem_phys.chunk_list, mem_chunk_has_addr p a

/-- A virtual chunk is a copy of a physical one, or a mapping with its own data. -/
def DataOk (s : State) (c : Chunk) : Prop :=
  match c.read_fn with
  | .fmt _ =>
    ∃ p ∈ s.mem_phys.chunk_list, p.start = c.start ∧ p.stop = c.stop ∧ p.read_fn = c.read_fn ∧ p.data = c.data
  | .map start => c.data = some (.own c.num) ∧ c.free_fn = true ∧ .own c.num ∉ s.freed ∧
      ∀ a, c.start ≤ a → a ≤ c.stop → PhysMapped s (start + (a - c.start))

/-- All of the invariant but the life time of shared data and of the cached chunk. -/
structure Wf (s : State) : Prop where
  phys_ok : ∀ p ∈ s.mem_phys.chunk_list, p.Ok ∧ (∃ f, p.read_fn = .fmt f) ∧ ∀ d ∈ p.data, ∃ k, d = .ext k
  phys_disjoint : s.mem_phys.chunk_list.Pairwise Disjoint
  phys_live : ∀ p ∈ s.mem_phys.chunk_list, .chunk p.num ∉ s.freed
  phys_cache : s.mem_phys.chunk_list ≠ [] → ∃ p ∈ s.mem_phys.chunk_list, s.mem_phys.chunk_cache = some p.num
  virt_ok : ∀ c ∈ s.mem_virt.chunk_list, c.Ok ∧ DataOk s c
  virt_disjoint : s.mem_virt.chunk_list.Pairwise Disjoint
  virt_live : ∀ c ∈ s.mem_virt.chunk_list, .chunk c.num ∉ s.freed
  nums : (s.mem_phys.chunk_list.map Chunk.num ++ s.mem_virt.chunk_list.map Chunk.num).Nodup
  nums_lt : ∀ c ∈ s.mem_phys.chunk_list ++ s.mem_virt.chunk_list, c.num < s.next
  freed_lt : ∀ n, .chunk n ∈ s.freed ∨ .own n ∈ s.freed → n < s.next
  cnt : s.mem_virt.chunk_cnt = s.mem_virt.chunk_list.length

def SharedLive (s : State) : Prop := ∀ p ∈ s.mem_phys.chunk_list, ∀ d ∈ p.data, d ∉ s.freed

def CacheLive (s : State) : Prop := ∃ c ∈ s.mem_virt.chunk_list, s.mem_virt.chunk_cache = some c.num

structure Inv (s : State) : Prop where
  wf : Wf s
  shared : SharedLive s
  cache : CacheLive s

/-- The virtual address `a` shows the physical address `p`. -/
def Shows (s : State) (a p : Nat) : Prop :=
  ∃ c ∈ s.mem_virt.chunk_list, mem_chunk_has_addr c a ∧ p = mem_chunk_start_phys c + (a - c.start)

theorem Wf.start_phys {s : State} (h : Wf s) {c : Chunk} (hc : c ∈ s.mem_virt.chunk_list) {a : Nat}
    (ha : mem_chunk_has_addr c a) : PhysMapped s (mem_chunk_start_phys c + (a - c.start)) := by
  have hd := (h.virt_ok c hc).2
  unfold mem_chunk_start_phys
  unfold DataOk at hd
  cases hr : c.read_fn with
  | fmt f =>
    rw [hr] at hd
    obtain ⟨p, hp, h₁, h₂, -⟩ := hd
    have h₃ := ha.1
    have h₄ := ha.2
    exact ⟨p, hp, by simp only; omega, by simp only; omega⟩
  | map start =>
    rw [hr] at hd
    exact hd.2.2.2 a ha.1 ha.2

theorem Wf.phys_fits {s : State} (h : Wf s) {a : Nat} (ha : PhysMapped s a) : a ≤ U64_MAX := by
  obtain ⟨p, hp, hpa⟩ := ha
  exact Nat.le_trans hpa.2 (h.phys_ok p hp).1.fits

/-! ## One round of the unmap loop -/

section
variable (start size : Nat)

def Hit (c : Chunk) : Prop := start ≤ c.stop ∧ c.start < start + size

instance (c : Chunk) : Decidable (Hit start size c) := inferInstanceAs (Decidable (_ ∧ _))

def after_piece (n : Nat) (c : Chunk) : List Chunk :=
  if start + size ≤ c.stop then
    [chunk_create n (start + size) (c.stop + 1 - (start + size)) (some (.own n))
      (.map (mem_chunk_start_phys c + (start + size - c.start))) true]
  else []

def before_piece (n : Nat) (c : Chunk) : List Chunk :=
  if c.start < start then
    [chunk_create n c.start (start - c.start) (some (.own n)) (.map (mem_chunk_start_phys c)) true]
  else []

def pieces (n : Nat) (c : Chunk) : List Chunk :=
  after_piece start size n c ++ before_piece start (n + (after_piece start size n c).length) c

end

theorem unmap_chunk_miss {start size : Nat} (hfit : start + size ≤ U64_MAX) {c : Chunk} (h : ¬ Hit start size c)
    (s : State) : unmap_chunk start size c s = s := by
  unfold Hit at h
  unfold unmap_chunk
  unfold U64_MAX at hfit
  have hsum : u64 ((start + size : Nat) : Int) = start + size := by
    rw [u64_of_lt (by omega) (by omega)]
    rfl
  simp only [hsum]
  by_cases h₁ : c.start ≥ start + size
  · rw [if_pos h₁]
  · rw [if_neg h₁, if_pos (by omega)]

structure Round (start size : Nat) (c : Chunk) (s s' : State) : Prop where
  phys : s'.mem_phys = s.mem_phys
  list : s'.mem_virt.chunk_list =
    (s.mem_virt.chunk_list ++ pieces start size s.next c).filter fun b => b.num ≠ c.num
  cnt : s'.mem_virt.chunk_cnt = s.mem_virt.chunk_cnt + (pieces start size s.next c).length - 1
  cache : s'.mem_virt.chunk_cache = ((pieces start size s.next c).getLast?.map Chunk.num).or s.mem_virt.chunk_cache
  next : s'.next = s.next + (pieces start size s.next c).length
  freed : s'.freed = .chunk c.num :: ((if c.free_fn then c.data.toList else []) ++ s.freed)

theorem unmap_chunk_hit {start size : Nat} (hpos : 1 ≤ size) (hfit : start + size ≤ U64_MAX) {c : Chunk} (hc : c.Ok)
    (hp : mem_chunk_start_phys c + c.size ≤ U64_MAX + 1) (h : Hit start size c) (s : State) :
    Round start size c s (unmap_chunk start size c s) := by
  obtain ⟨h₁, -, h₂, h₃⟩ := hc
  obtain ⟨h₄, h₅⟩ := h
  unfold U64_MAX at hfit h₃ hp
  have e₁ : u64 ((start + size : Nat) : Int) = start + size := by
    rw [u64_of_lt (by omega) (by omega)]
    rfl
  have e₂ : u64 ((start : Int) + size - 1) = start + size - 1 := by
    rw [u64_of_lt (by omega) (by omega)]
    omega
  have e₃ : u64 ((mem_chunk_start_phys c : Int) + c.size - 1) = mem_chunk_start_phys c + c.size - 1 := by
    rw [u64_of_lt (by omega) (by omega)]
    omega
  have e₄ : u64 ((start + size - 1 + 1 : Nat) : Int) = start + size := by
    rw [u64_of_lt (by omega) (by omega)]
    omega
  unfold unmap_chunk
  simp only [e₁, e₂, e₃, e₄]
  have hno₁ : ¬ c.start ≥ start + size := by omega
  have hno₂ : ¬ c.stop < start := by omega
  rw [if_neg hno₁, if_neg hno₂]
  by_cases hafter : start + size ≤ c.stop
  · have hin : ¬ (c.start ≥ start ∧ c.stop ≤ start + size - 1) := by omega
    have hgt : c.stop > start + size - 1 := by omega
    have e₅ : u64 ((c.stop : Int) - (start + size - 1 : Nat)) = c.stop + 1 - (start + size) := by
      rw [u64_of_lt (by omega) (by omega)]
      omega
    have e₆ : u64 (((mem_chunk_start_phys c + c.size - 1 : Nat) : Int) - (c.stop + 1 - (start + size) : Nat) + 1) =
        mem_chunk_start_phys c + (start + size - c.start) := by
      rw [u64_of_lt (by omega) (by omega)]
      omega
    rw [if_neg hin, if_pos hgt, e₅, e₆]
    by_cases hbefore : c.start < start
    · have e₇ : u64 ((start : Int) - c.start) = start - c.start := by
        rw [u64_of_lt (by omega) (by omega)]
        omega
      have hpieces : pieces start size s.next c =
          [chunk_create s.next (start + size) (c.stop + 1 - (start + size)) (some (.own s.next))
            (.map (mem_chunk_start_phys c + (start + size - c.start))) true,
          chunk_create (s.next + 1) c.start (start - c.start) (some (.own (s.next + 1)))
            (.map (mem_chunk_start_phys c)) true] := by
        unfold pieces after_piece before_piece
        rw [if_pos hafter, if_pos hbefore]
        rfl
      rw [if_pos hbefore, e₇]
      refine ⟨rfl, ?_, ?_, ?_, ?_, rfl⟩
      · rw [hpieces, ← List.singleton_append, ← List.append_assoc]
        rfl
      all_goals rw [hpieces]; rfl
    · have hpieces : pieces start size s.next c =
          [chunk_create s.next (start + size) (c.stop + 1 - (start + size)) (some (.own s.next))
            (.map (mem_chunk_start_phys c + (start + size - c.start))) true] := by
        unfold pieces after_piece before_piece
        rw [if_pos hafter, if_neg hbefore]
        rfl
      rw [if_neg hbefore]
      refine ⟨rfl, ?_, ?_, ?_, ?_, rfl⟩
      all_goals rw [hpieces]; rfl
  · have hgt : ¬ c.stop > start + size - 1 := by omega
    by_cases hbefore : c.start < start
    · have hin : ¬ (c.start ≥ start ∧ c.stop ≤ start + size - 1) := by omega
      have e₇ : u64 ((start : Int) - c.start) = start - c.start := by
        rw [u64_of_lt (by omega) (by omega)]
        omega
      have hpieces : pieces start size s.next c =
          [chunk_create s.next c.start (start - c.start) (some (.own s.next))
            (.map (mem_chunk_start_phys c)) true] := by
        unfold pieces after_piece before_piece
        rw [if_neg hafter, if_pos hbefore]
        rfl
      rw [if_neg hin, if_neg hgt, if_pos hbefore, e₇]
      refine ⟨rfl, ?_, ?_, ?_, ?_, rfl⟩
      all_goals rw [hpieces]; rfl
    · have hpieces : pieces start size s.next c = [] := by
        unfold pieces after_piece before_piece
        rw [if_neg hafter, if_neg hbefore]
        rfl
      have hin : c.start ≥ start ∧ c.stop ≤ start + size - 1 := by omega
      rw [if_pos hin]
      refine ⟨rfl, ?_, ?_, ?_, ?_, rfl⟩
      · rw [hpieces, List.append_nil]
        rfl
      all_goals rw [hpieces]; rfl

/-- A piece of a chunk lies in it, outside the range, and maps to the same physical addresses. -/
structure IsPiece (start size : Nat) (c q : Chunk) : Prop where
  ok : q.Ok
  lo : c.start ≤ q.start
  hi : q.stop ≤ c.stop
  miss : ¬ Hit start size q
  data : q.data = some (.own q.num)
  free_fn : q.free_fn = true
  read_fn : q.read_fn = .map (mem_chunk_start_phys c + (q.start - c.start))

section
variable {start size n : Nat} {c q : Chunk}

theorem chunk_create_ok {start size : Nat} (hpos : 1 ≤ size) (hs : size ≤ U64_MAX)
    (hfit : start + size ≤ U64_MAX + 1) (num : Nat)
    (data : Option Ptr) (read_fn : ReadFn) (free_fn : Bool) :
      (chunk_create num start size data read_fn free_fn).Ok := by
  have hstop : (chunk_create num start size data read_fn free_fn).stop = start + size - 1 := by
    unfold U64_MAX at hfit
    show u64 ((start : Int) + size - 1) = _
    rw [u64_of_lt (by omega) (by omega)]
    omega
  exact ⟨hpos, hs, by rw [hstop]; show _ = start + size; omega, by rw [hstop]; omega⟩

theorem mem_after_piece (hc : c.Ok) (h : Hit start size c) (hq : q ∈ after_piece start size n c) :
    IsPiece start size c q ∧ q.num = n ∧ start + size ≤ q.start := by
  unfold after_piece at hq
  by_cases hafter : start + size ≤ c.stop
  · rw [if_pos hafter, List.mem_singleton] at hq
    have h₁ := hc.stop
    have h₂ := hc.fits
    obtain ⟨h₃, h₄⟩ := h
    have hok : q.Ok := by
      rw [hq]
      exact chunk_create_ok (by omega) (by omega) (by omega) ..
    have hstart : q.start = start + size := by rw [hq]; rfl
    have hsize : q.size = c.stop + 1 - (start + size) := by rw [hq]; rfl
    have hstop := hok.stop
    refine ⟨⟨hok, by omega, by omega, ?_, by rw [hq]; rfl, by rw [hq]; rfl, ?_⟩, by rw [hq]; rfl, by omega⟩
    · intro hm
      have := hm.2
      omega
    · rw [hstart, hq]
      rfl
  · rw [if_neg hafter] at hq
    cases hq

theorem mem_before_piece (hc : c.Ok) (h : Hit start size c) (hq : q ∈ before_piece start n c) :
    IsPiece start size c q ∧ q.num = n ∧ q.stop < start := by
  unfold before_piece at hq
  by_cases hbefore : c.start < start
  · rw [if_pos hbefore, List.mem_singleton] at hq
    have h₁ := hc.stop
    have h₂ := hc.fits
    obtain ⟨h₃, h₄⟩ := h
    have hok : q.Ok := by
      rw [hq]
      exact chunk_create_ok (by omega) (by omega) (by omega) ..
    have hstart : q.start = c.start := by rw [hq]; rfl
    have hsize : q.size = start - c.start := by rw [hq]; rfl
    have hstop := hok.stop
    refine ⟨⟨hok, by omega, by omega, ?_, by rw [hq]; rfl, by rw [hq]; rfl, ?_⟩, by rw [hq]; rfl, by omega⟩
    · intro hm
      have := hm.1
      omega
    · rw [hstart, Nat.sub_self, Nat.add_zero, hq]
      rfl
  · rw [if_neg hbefore] at hq
    cases hq

theorem mem_pieces (hc : c.Ok) (h : Hit start size c) (hq : q ∈ pieces start size n c) :
    IsPiece start size c q := by
  rcases List.mem_append.mp hq with hq | hq
  · exact (mem_after_piece hc h hq).1
  · exact (mem_before_piece hc h hq).1

theorem pieces_disjoint (hc : c.Ok) (h : Hit start size c) :
    (pieces start size n c).Pairwise Disjoint := by
  have hone : ∀ {l : List Chunk}, l.length ≤ 1 → l.Pairwise Disjoint := by
    intro l hl
    match l, hl with
    | [], _ => exact List.Pairwise.nil
    | [x], _ => exact List.pairwise_singleton ..
  unfold pieces
  rw [List.pairwise_append]
  refine ⟨hone (by unfold after_piece; split <;> simp), hone (by unfold before_piece; split <;> simp), ?_⟩
  intro a ha b hb
  have h₁ := (mem_after_piece hc h ha).2.2
  have h₂ := (mem_before_piece hc h hb).2.2
  exact Or.inr (by omega)

theorem pieces_nums : (pieces start size n c).map Chunk.num = List.range' n (pieces start size n c).length := by
  unfold pieces after_piece before_piece
  by_cases h₁ : start + size ≤ c.stop
  · by_cases h₂ : c.start < start
    · simp only [if_pos h₁, if_pos h₂]
      rfl
    · simp only [if_pos h₁, if_neg h₂]
      rfl
  · by_cases h₂ : c.start < start
    · simp only [if_neg h₁, if_pos h₂]
      rfl
    · simp only [if_neg h₁, if_neg h₂]
      rfl

theorem num_pieces (hq : q ∈ pieces start size n c) : n ≤ q.num ∧ q.num < n + (pieces start size n c).length := by
  have hmem := List.mem_map_of_mem (f := Chunk.num) hq
  rw [pieces_nums, List.mem_range'_1] at hmem
  exact hmem

theorem pieces_cover (hc : c.Ok) (h : Hit start size c) {a : Nat} (ha : mem_chunk_has_addr c a)
    (hout : a < start ∨ start + size ≤ a) : ∃ q ∈ pieces start size n c, mem_chunk_has_addr q a := by
  obtain ⟨h₁, h₂⟩ := ha
  obtain ⟨h₃, h₄⟩ := h
  have hcs := hc.stop
  have hcf := hc.fits
  rcases hout with hlt | hge
  · obtain ⟨q, hq⟩ : ∃ q, before_piece start (n + (after_piece start size n c).length) c = [q] := by
      unfold before_piece
      rw [if_pos (by omega)]
      exact ⟨_, rfl⟩
    have hmem : q ∈ before_piece start (n + (after_piece start size n c).length) c := by
      rw [hq]
      exact List.mem_cons_self ..
    refine ⟨q, List.mem_append_right _ hmem, ?_⟩
    have hok := (mem_before_piece hc ⟨h₃, h₄⟩ hmem).1.ok.stop
    unfold before_piece at hmem
    rw [if_pos (by omega), List.mem_singleton] at hmem
    rw [hmem] at hok ⊢
    exact ⟨h₁, by change _ = c.start + (start - c.start) at hok; omega⟩
  · obtain ⟨q, hq⟩ : ∃ q, after_piece start size n c = [q] := by
      unfold after_piece
      rw [if_pos (by omega)]
      exact ⟨_, rfl⟩
    have hmem : q ∈ after_piece start size n c := by
      rw [hq]
      exact List.mem_cons_self ..
    refine ⟨q, List.mem_append_left _ hmem, ?_⟩
    have hok := (mem_after_piece hc ⟨h₃, h₄⟩ hmem).1.ok.stop
    unfold after_piece at hmem
    rw [if_pos (by omega), List.mem_singleton] at hmem
    rw [hmem] at hok ⊢
    refine ⟨hge, ?_⟩
    change _ = start + size + (c.stop + 1 - (start + size)) at hok
    omega

end

/-! ## The invariant over a round -/

section
variable {start size : Nat} {c : Chunk} {s s' : State} {l₁ l₂ : List Chunk}

theorem Wf.virt_num_lt (h : Wf s) {b : Chunk} (hb : b ∈ s.mem_virt.chunk_list) : b.num < s.next :=
  h.nums_lt b (List.mem_append_right _ hb)

theorem Wf.data_cases (h : Wf s) (hc : c ∈ s.mem_virt.chunk_list) {d : Ptr} (hd : c.data = some d) :
    (∃ k, d = .ext k) ∨ d = .own c.num := by
  have hcd := (h.virt_ok c hc).2
  unfold DataOk at hcd
  cases hcf : c.read_fn with
  | fmt f =>
    rw [hcf] at hcd
    obtain ⟨p, hp, -, -, -, hpd⟩ := hcd
    exact Or.inl ((h.phys_ok p hp).2.2 d (by rw [hpd, hd]; rfl))
  | map sp =>
    rw [hcf] at hcd
    have he := hcd.1
    rw [hd, Option.some.injEq] at he
    exact Or.inr he

theorem Round.mem_freed (hr : Round start size c s s') {p : Ptr} :
    p ∈ s'.freed ↔ p = .chunk c.num ∨ (c.free_fn = true ∧ c.data = some p) ∨ p ∈ s.freed := by
  rw [hr.freed, List.mem_cons, List.mem_append]
  refine or_congr_right (or_congr_left ?_)
  cases c.free_fn with
  | false => simp
  | true => simp

theorem Wf.start_phys_fits (h : Wf s) (hc : c ∈ s.mem_virt.chunk_list) :
    mem_chunk_start_phys c + c.size ≤ U64_MAX + 1 := by
  have hok := (h.virt_ok c hc).1
  have h₁ := hok.pos
  have h₂ := hok.stop
  have h₃ := h.phys_fits (h.start_phys hc ⟨by omega, Nat.le_refl c.stop⟩)
  omega

theorem Wf.round_list (h : Wf s) (hl : s.mem_virt.chunk_list = l₁ ++ c :: l₂) (hr : Round start size c s s') :
    s'.mem_virt.chunk_list = l₁ ++ l₂ ++ pieces start size s.next c := by
  have hnd := (List.nodup_append.mp h.nums).2.1
  have hcn := h.virt_num_lt (show c ∈ _ by rw [hl]; simp)
  rw [hl, List.map_append, List.map_cons, List.nodup_append, List.nodup_cons] at hnd
  obtain ⟨-, ⟨hn₂, -⟩, hn₁⟩ := hnd
  have hkeep : ∀ l : List Chunk, (∀ b ∈ l, b.num ≠ c.num) → (l.filter fun b => b.num ≠ c.num) = l := by
    intro l hne
    rw [List.filter_eq_self]
    exact fun b hb => decide_eq_true (hne b hb)
  rw [hr.list, hl, List.filter_append, List.filter_append, List.filter_cons_of_neg (by simp),
    hkeep l₁, hkeep l₂, hkeep]
  · intro b hb
    have := (num_pieces hb).1
    omega
  · intro b hb he
    exact hn₂ (he ▸ List.mem_map_of_mem hb)
  · intro b hb
    exact hn₁ b.num (List.mem_map_of_mem hb) c.num (List.mem_cons_self ..)

theorem DataOk.round (h : Wf s) (hc : c ∈ s.mem_virt.chunk_list) (hr : Round start size c s s') {b : Chunk}
    (hne : b.num ≠ c.num) (hd : DataOk s b) : DataOk s' b := by
  unfold DataOk PhysMapped at hd ⊢
  cases hrf : b.read_fn with
  | fmt f =>
    rw [hrf] at hd
    rw [hr.phys]
    exact hd
  | map sp =>
    rw [hrf] at hd
    obtain ⟨h₁, h₂, h₃, h₄⟩ := hd
    rw [hr.phys]
    refine ⟨h₁, h₂, ?_, h₄⟩
    intro hmem
    -- the data that is freed belongs to the chunk or comes from the input format
    rcases hr.mem_freed.mp hmem with he | ⟨-, hcd⟩ | hmem
    · cases he
    · rcases h.data_cases hc hcd with ⟨k, hk⟩ | ho
      · cases hk
      · exact hne (Ptr.own.inj ho)
    · exact h₃ hmem

theorem DataOk.piece (h : Wf s) (hc : c ∈ s.mem_virt.chunk_list) (hhit : Hit start size c)
    (hr : Round start size c s s') {q : Chunk} (hq : q ∈ pieces start size s.next c) : DataOk s' q := by
  obtain ⟨hok, hlo, hhi, -, hdata, hfree, hread⟩ := mem_pieces (h.virt_ok c hc).1 hhit hq
  unfold DataOk PhysMapped
  rw [hread, hr.phys]
  refine ⟨hdata, hfree, fun hmem => ?_, fun a h₁ h₂ => ?_⟩
  · have hnum := (num_pieces hq).1
    rcases hr.mem_freed.mp hmem with he | ⟨-, hcd⟩ | hmem
    · cases he
    · rcases h.data_cases hc hcd with ⟨k, hk⟩ | ho
      · cases hk
      · have := h.virt_num_lt hc
        rw [Ptr.own.inj ho] at hnum
        omega
    · have := h.freed_lt _ (Or.inr hmem)
      omega
  · have hsp := h.start_phys hc (a := a) ⟨by omega, by omega⟩
    rw [show mem_chunk_start_phys c + (q.start - c.start) + (a - q.start) =
      mem_chunk_start_phys c + (a - c.start) by omega]
    exact hsp

theorem Wf.round (h : Wf s) (hl : s.mem_virt.chunk_list = l₁ ++ c :: l₂) (hhit : Hit start size c)
    (hr : Round start size c s s') : Wf s' := by
  have hc : c ∈ s.mem_virt.chunk_list := by rw [hl]; simp
  have hcok := (h.virt_ok c hc).1
  have hlist := h.round_list hl hr
  have hcn := h.virt_num_lt hc
  have hnd := List.nodup_append.mp h.nums
  have hnd₂ := hnd.2.1
  rw [hl, List.map_append, List.map_cons, List.nodup_append, List.nodup_cons] at hnd₂
  -- a chunk of the new list is an old one with another number or a piece
  have hcases : ∀ b ∈ s'.mem_virt.chunk_list, (b ∈ s.mem_virt.chunk_list ∧ b.num ≠ c.num ∧ b ∈ l₁ ++ l₂) ∨
      b ∈ pieces start size s.next c := by
    intro b hb
    rw [hlist] at hb
    rcases List.mem_append.mp hb with hb | hb
    · refine Or.inl ⟨?_, ?_, hb⟩
      · rw [hl]
        rcases List.mem_append.mp hb with hb | hb
        · exact List.mem_append_left _ hb
        · exact List.mem_append_right _ (List.mem_cons_of_mem _ hb)
      · rcases List.mem_append.mp hb with hb | hb
        · exact hnd₂.2.2 b.num (List.mem_map_of_mem hb) c.num (List.mem_cons_self ..)
        · exact fun he => hnd₂.2.1.1 (he ▸ List.mem_map_of_mem hb)
    · exact Or.inr hb
  have hdis : (l₁ ++ l₂).Pairwise Disjoint ∧ ∀ b ∈ l₁ ++ l₂, Disjoint b c := by
    have hp := h.virt_disjoint
    rw [hl] at hp
    have hp' := (@List.perm_middle _ c l₁ l₂).pairwise_iff (R := Disjoint) (fun hab => hab.symm)
    obtain ⟨h₁, h₂⟩ := List.pairwise_cons.mp (hp'.mp hp)
    exact ⟨h₂, fun b hb => (h₁ b hb).symm⟩
  constructor
  · rw [hr.phys]
    exact h.phys_ok
  · rw [hr.phys]
    exact h.phys_disjoint
  · rw [hr.phys]
    intro p hp hmem
    rcases hr.mem_freed.mp hmem with he | ⟨-, hcd⟩ | hmem
    · exact hnd.2.2 p.num (List.mem_map_of_mem hp) c.num (List.mem_map_of_mem hc) (Ptr.chunk.inj he)
    · rcases h.data_cases hc hcd with ⟨k, hk⟩ | ho
      · cases hk
      · cases ho
    · exact h.phys_live p hp hmem
  · rw [hr.phys]
    exact h.phys_cache
  · intro b hb
    rcases hcases b hb with ⟨hb, hne, -⟩ | hb
    · exact ⟨(h.virt_ok b hb).1, (h.virt_ok b hb).2.round h hc hr hne⟩
    · exact ⟨(mem_pieces hcok hhit hb).ok, DataOk.piece h hc hhit hr hb⟩
  · rw [hlist, List.pairwise_append]
    refine ⟨hdis.1, pieces_disjoint hcok hhit, fun a ha b hb => ?_⟩
    have hpiece := mem_pieces hcok hhit hb
    have h₁ := hpiece.lo
    have h₂ := hpiece.hi
    rcases hdis.2 a ha with hlt | hlt
    · exact Or.inl (by omega)
    · exact Or.inr (by omega)
  · intro b hb hmem
    have hnum : b.num ≠ c.num ∧ .chunk b.num ∉ s.freed := by
      rcases hcases b hb with ⟨hb, hne, -⟩ | hb
      · exact ⟨hne, h.virt_live b hb⟩
      · have := (num_pieces hb).1
        exact ⟨by omega, fun hf => by have := h.freed_lt _ (Or.inl hf); omega⟩
    rcases hr.mem_freed.mp hmem with he | ⟨-, hcd⟩ | hmem
    · exact hnum.1 (Ptr.chunk.inj he)
    · rcases h.data_cases hc hcd with ⟨k, hk⟩ | ho
      · cases hk
      · cases ho
    · exact hnum.2 hmem
  · rw [hr.phys, hlist, List.map_append, pieces_nums, ← List.append_assoc, List.nodup_append]
    refine ⟨?_, List.nodup_range' .., ?_⟩
    · refine h.nums.sublist (List.Sublist.append_left ?_ _)
      rw [hl, List.map_append, List.map_append, List.map_cons]
      exact List.Sublist.append_left (List.sublist_cons_self ..) _
    · intro n hn m hm he
      rw [List.mem_range'_1] at hm
      have hlt : n < s.next := by
        rw [← List.map_append] at hn
        obtain ⟨b, hb, rfl⟩ := List.mem_map.mp hn
        refine h.nums_lt b ?_
        rw [hl]
        rcases List.mem_append.mp hb with hb | hb
        · exact List.mem_append_left _ hb
        · refine List.mem_append_right _ ?_
          rcases List.mem_append.mp hb with hb | hb
          · exact List.mem_append_left _ hb
          · exact List.mem_append_right _ (List.mem_cons_of_mem _ hb)
      omega
  · intro b hb
    rw [hr.next]
    rcases List.mem_append.mp hb with hb | hb
    · rw [hr.phys] at hb
      have := h.nums_lt b (List.mem_append_left _ hb)
      omega
    · rcases hcases b hb with ⟨hb, -, -⟩ | hb
      · have := h.virt_num_lt hb
        omega
      · exact (num_pieces hb).2
  · intro n hn
    rw [hr.next]
    have hlt : n < s.next := by
      rcases hn with hn | hn
      · rcases hr.mem_freed.mp hn with he | ⟨-, hcd⟩ | hmem
        · cases he
          exact hcn
        · rcases h.data_cases hc hcd with ⟨k, hk⟩ | ho
          · cases hk
          · cases ho
        · exact h.freed_lt n (Or.inl hmem)
      · rcases hr.mem_freed.mp hn with he | ⟨-, hcd⟩ | hmem
        · cases he
        · rcases h.data_cases hc hcd with ⟨k, hk⟩ | ho
          · cases hk
          · cases ho
            exact hcn
        · exact h.freed_lt n (Or.inr hmem)
    omega
  · rw [hr.cnt, h.cnt, hlist, hl]
    simp only [List.length_append, List.length_cons]
    omega

theorem Wf.mem_round (h : Wf s) (hl : s.mem_virt.chunk_list = l₁ ++ c :: l₂)
    (hr : Round start size c s s') {b : Chunk} :
    (b ∈ s'.mem_virt.chunk_list ↔ (b ∈ l₁ ∨ b ∈ l₂) ∨ b ∈ pieces start size s.next c) ∧
      (b ∈ s.mem_virt.chunk_list ↔ (b ∈ l₁ ∨ b ∈ l₂) ∨ b = c) := by
  rw [h.round_list hl hr, hl]
  simp only [List.mem_append, List.mem_cons, true_and]
  tauto

theorem Wf.shows_round (h : Wf s) (hl : s.mem_virt.chunk_list = l₁ ++ c :: l₂) (hhit : Hit start size c)
    (hr : Round start size c s s') {a p : Nat} (hout : a < start ∨ start + size ≤ a) :
      Shows s' a p ↔ Shows s a p := by
  have hcok := (h.virt_ok c (by rw [hl]; simp)).1
  constructor
  · rintro ⟨b, hb, ha, hp⟩
    rcases (h.mem_round hl hr).1.mp hb with hb | hb
    · exact ⟨b, (h.mem_round hl hr).2.mpr (Or.inl hb), ha, hp⟩
    · have hq := mem_pieces hcok hhit hb
      have h₁ := hq.lo
      have h₂ := hq.hi
      obtain ⟨h₃, h₄⟩ := ha
      refine ⟨c, (h.mem_round hl hr).2.mpr (Or.inr rfl), ⟨by omega, by omega⟩, ?_⟩
      rw [hp]
      unfold mem_chunk_start_phys
      rw [hq.read_fn]
      simp only
      unfold mem_chunk_start_phys
      omega
  · rintro ⟨b, hb, ha, hp⟩
    rcases (h.mem_round hl hr).2.mp hb with hb | rfl
    · exact ⟨b, (h.mem_round hl hr).1.mpr (Or.inl hb), ha, hp⟩
    · obtain ⟨q, hqm, hqa⟩ := pieces_cover (n := s.next) hcok hhit ha hout
      have hq := mem_pieces hcok hhit hqm
      have h₁ := hq.lo
      have h₂ := hqa.1
      refine ⟨q, (h.mem_round hl hr).1.mpr (Or.inr hqm), hqa, ?_⟩
      rw [hp, mem_chunk_start_phys.eq_def q, hq.read_fn]
      simp only
      omega

theorem Wf.old_round (h : Wf s) (hl : s.mem_virt.chunk_list = l₁ ++ c :: l₂) (hhit : Hit start size c)
    (hr : Round start size c s s') {b : Chunk} (hb : b ∈ s'.mem_virt.chunk_list) {k : Nat}
      (hk : b.data = some (.ext k)) :
    b ∈ s.mem_virt.chunk_list := by
  rcases (h.mem_round hl hr).1.mp hb with hb | hb
  · exact (h.mem_round hl hr).2.mpr (Or.inl hb)
  · rw [(mem_pieces (h.virt_ok c (by rw [hl]; simp)).1 hhit hb).data] at hk
    cases hk

/-- Data of the input format that is freed, or will be when the chunks that are still hit are removed. -/
def FreedAfter (start size : Nat) (s : State) (k : Nat) : Prop :=
  .ext k ∈ s.freed ∨ ∃ c ∈ s.mem_virt.chunk_list, Hit start size c ∧ c.free_fn = true ∧ c.data = some (.ext k)

theorem Wf.freed_round (h : Wf s) (hl : s.mem_virt.chunk_list = l₁ ++ c :: l₂) (hhit : Hit start size c)
    (hr : Round start size c s s') (k : Nat) : FreedAfter start size s' k ↔ FreedAfter start size s k := by
  have hcok := (h.virt_ok c (by rw [hl]; simp)).1
  have hpiece : ∀ b ∈ pieces start size s.next c, ¬ Hit start size b := fun b hb => (mem_pieces hcok hhit hb).miss
  unfold FreedAfter
  rw [hr.mem_freed]
  constructor
  · rintro ((he | ⟨hf, hd⟩ | hm) | ⟨b, hb, hbh, hbd⟩)
    · cases he
    · exact Or.inr ⟨c, (h.mem_round hl hr).2.mpr (Or.inr rfl), hhit, hf, hd⟩
    · exact Or.inl hm
    · rcases (h.mem_round hl hr).1.mp hb with hb | hb
      · exact Or.inr ⟨b, (h.mem_round hl hr).2.mpr (Or.inl hb), hbh, hbd⟩
      · exact absurd hbh (hpiece b hb)
  · rintro (hm | ⟨b, hb, hbh, hbd⟩)
    · exact Or.inl (Or.inr (Or.inr hm))
    · rcases (h.mem_round hl hr).2.mp hb with hb | rfl
      · exact Or.inr ⟨b, (h.mem_round hl hr).1.mpr (Or.inl hb), hbh, hbd⟩
      · exact Or.inl (Or.inr (Or.inl hbd))

/-- The cache points to a chunk that is not hit, or a chunk that is split will set it. -/
def LiveAfter (start size : Nat) (s : State) : Prop :=
  (∃ c ∈ s.mem_virt.chunk_list, Hit start size c ∧ (c.start < start ∨ start + size ≤ c.stop)) ∨
    ∃ c ∈ s.mem_virt.chunk_list, s.mem_virt.chunk_cache = some c.num ∧ ¬ Hit start size c

theorem pieces_eq_nil_iff : pieces start size s.next c = [] ↔ ¬ (c.start < start ∨ start + size ≤ c.stop) := by
  unfold pieces after_piece before_piece
  by_cases h₁ : start + size ≤ c.stop
  · simp [h₁]
  · by_cases h₂ : c.start < start
    · simp [h₁, h₂]
    · simp [h₁, h₂]

theorem Wf.live_round (h : Wf s) (hl : s.mem_virt.chunk_list = l₁ ++ c :: l₂) (hhit : Hit start size c)
    (hr : Round start size c s s') : LiveAfter start size s' ↔ LiveAfter start size s := by
  have hc : c ∈ s.mem_virt.chunk_list := by rw [hl]; simp
  have hcok := (h.virt_ok c hc).1
  have hpiece : ∀ b ∈ pieces start size s.next c, ¬ Hit start size b := fun b hb => (mem_pieces hcok hhit hb).miss
  by_cases hsplit : c.start < start ∨ start + size ≤ c.stop
  · refine iff_of_true (Or.inr ?_) (Or.inl ⟨c, hc, hhit, hsplit⟩)
    obtain ⟨q, hq⟩ : ∃ q, (pieces start size s.next c).getLast? = some q :=
      Option.ne_none_iff_exists'.mp fun hn => pieces_eq_nil_iff.1 (List.getLast?_eq_none_iff.mp hn) hsplit
    have hmem := List.mem_of_getLast? hq
    refine ⟨q, (h.mem_round hl hr).1.mpr (Or.inr hmem), ?_, hpiece q hmem⟩
    rw [hr.cache, hq]
    rfl
  · have hnil : pieces start size s.next c = [] := pieces_eq_nil_iff.2 hsplit
    have hcache : s'.mem_virt.chunk_cache = s.mem_virt.chunk_cache := by
      rw [hr.cache, hnil]
      rfl
    unfold LiveAfter
    rw [hcache]
    have hmem : ∀ b, b ∈ s'.mem_virt.chunk_list ↔ b ∈ l₁ ∨ b ∈ l₂ := fun b => by
      rw [(h.mem_round hl hr).1, hnil]
      simp
    have hmem' : ∀ b, b ∈ s.mem_virt.chunk_list ↔ (b ∈ l₁ ∨ b ∈ l₂) ∨ b = c := fun b => (h.mem_round hl hr).2
    simp only [hmem, hmem']
    constructor
    · rintro (⟨b, hb, hbh⟩ | ⟨b, hb, hbh⟩)
      · exact Or.inl ⟨b, Or.inl hb, hbh⟩
      · exact Or.inr ⟨b, Or.inl hb, hbh⟩
    · rintro (⟨b, hb | rfl, hbh⟩ | ⟨b, hb | rfl, hbh⟩)
      · exact Or.inl ⟨b, hb, hbh⟩
      · exact absurd hbh.2 hsplit
      · exact Or.inr ⟨b, hb, hbh⟩
      · exact absurd hhit hbh.2

/-! ## The whole loop -/

theorem list_next_eq (h : Wf s) (hl : s.mem_virt.chunk_list = l₁ ++ c :: l₂) :
    util_list_next c s.mem_virt.chunk_list = l₂.head? := by
  have hnd := (List.nodup_append.mp h.nums).2.1
  rw [hl, List.map_append, List.map_cons, List.nodup_append] at hnd
  have hne : ∀ b ∈ l₁, b.num ≠ c.num := fun b hb =>
    hnd.2.2 b.num (List.mem_map_of_mem hb) c.num (List.mem_cons_self ..)
  rw [hl]
  clear hl hnd
  induction l₁ with
  | nil => rw [List.nil_append, util_list_next, if_pos rfl]
  | cons b l ih =>
    rw [List.cons_append, util_list_next, if_neg (hne b (List.mem_cons_self ..))]
    exact ih fun x hx => hne x (List.mem_cons_of_mem _ hx)

def rounds (start size : Nat) (cs : List Chunk) : Nat := (cs.map fun c => if Hit start size c then 3 else 1).sum

theorem rounds_pieces (h : Wf s) (hc : c ∈ s.mem_virt.chunk_list) (hhit : Hit start size c) :
    rounds start size (pieces start size s.next c) ≤ 2 := by
  have hone : ∀ {l : List Chunk}, (∀ b ∈ l, ¬ Hit start size b) → rounds start size l = l.length := by
    intro l hl
    unfold rounds
    rw [List.map_congr_left (g := fun _ => 1) fun b hb => if_neg (hl b hb)]
    simp
  rw [hone fun b hb => (mem_pieces (h.virt_ok c hc).1 hhit hb).miss]
  unfold pieces after_piece before_piece
  rw [List.length_append]
  split <;> split <;> simp

theorem unmap_loop_ind (hpos : 1 ≤ size) (hfit : start + size ≤ U64_MAX) (P : State → Prop)
    (hP : ∀ s s' c l₁ l₂, Wf s → P s → s.mem_virt.chunk_list = l₁ ++ c :: l₂ → Hit start size c →
      Round start size c s s' → P s') :
    ∀ (fuel : Nat) (s : State) (l₁ l₂ : List Chunk), Wf s → P s → s.mem_virt.chunk_list = l₁ ++ l₂ →
      (∀ c ∈ l₁, ¬ Hit start size c) → rounds start size l₂ ≤ fuel →
      Wf (unmap_loop start size fuel l₂.head? s) ∧ P (unmap_loop start size fuel l₂.head? s) ∧
        ∀ c ∈ (unmap_loop start size fuel l₂.head? s).mem_virt.chunk_list, ¬ Hit start size c := by
  intro fuel
  induction fuel with
  | zero =>
    intro s l₁ l₂ h hPs hl hno hfuel
    cases l₂ with
    | nil =>
      rw [List.append_nil] at hl
      exact ⟨h, hPs, by rw [← hl] at hno; exact hno⟩
    | cons c l₂ =>
      unfold rounds at hfuel
      rw [List.map_cons, List.sum_cons] at hfuel
      split at hfuel <;> omega
  | succ fuel ih =>
    intro s l₁ l₂ h hPs hl hno hfuel
    cases l₂ with
    | nil =>
      rw [List.append_nil] at hl
      exact ⟨h, hPs, by rw [← hl] at hno; exact hno⟩
    | cons c l₂ =>
      have hc : c ∈ s.mem_virt.chunk_list := by rw [hl]; simp
      unfold rounds at hfuel
      rw [List.map_cons, List.sum_cons] at hfuel
      rw [List.head?_cons, unmap_loop, list_next_eq h hl]
      by_cases hhit : Hit start size c
      · rw [if_pos hhit] at hfuel
        have hr := unmap_chunk_hit hpos hfit (h.virt_ok c hc).1 (h.start_phys_fits hc) hhit s
        have hw := h.round hl hhit hr
        have hPs' := hP s _ c l₁ l₂ h hPs hl hhit hr
        have hlist := h.round_list hl hr
        have hrp := rounds_pieces h hc hhit
        have hmiss : ∀ b ∈ pieces start size s.next c, ¬ Hit start size b :=
          fun b hb => (mem_pieces (h.virt_ok c hc).1 hhit hb).miss
        cases l₂ with
        | nil =>
          -- the pieces of the last chunk are not visited
          refine ih _ (l₁ ++ pieces start size s.next c) [] hw hPs' ?_ (fun b hb => ?_) (Nat.zero_le _)
          · rw [hlist, List.append_nil, List.append_nil]
          · exact (List.mem_append.mp hb).elim (hno b) (hmiss b)
        | cons d l₂ =>
          refine ih _ l₁ (d :: l₂ ++ pieces start size s.next c) hw hPs' ?_ hno ?_
          · rw [hlist, List.append_assoc]
          · unfold rounds at hrp ⊢
            rw [List.map_append, List.sum_append]
            omega
      · rw [if_neg hhit] at hfuel
        rw [unmap_chunk_miss hfit hhit]
        refine ih s (l₁ ++ [c]) l₂ h hPs (by rw [hl]; simp) (fun b hb => ?_) ?_
        · rcases List.mem_append.mp hb with hb | hb
          · exact hno b hb
          · rw [List.mem_singleton.mp hb]
            exact hhit
        · unfold rounds
          omega

end

end Zdump.Memory
