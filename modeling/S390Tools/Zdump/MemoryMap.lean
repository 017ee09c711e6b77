import S390Tools.Zdump.MemoryRun

/-!
# The virtual memory of a dump

The system is the program's state with the map that the history of requests
assigns: a partial function from virtual to physical addresses.
-/

namespace Zdump.Memory

open Word Run

/-! ## Requests, lookups and reads -/

inductive Op
  | unmap (start size : Nat)
  | map (start size start_phys : Nat)
  | find (addr : Nat)
  | read (addr cnt : Nat)

structure Sys where
  state : State
  map : Nat → Option Nat
  sorted : Bool

def InRange (start size a : Nat) : Prop := start ≤ a ∧ a < start + size

instance (start size a : Nat) : Decidable (InRange start size a) := inferInstanceAs (Decidable (_ ∧ _))

/-- `none` stands for the end of the program and for an access to freed memory. -/
def step (t : Sys) : Op → Option Sys
  | .unmap start size =>
    some
      { state := mem_unmap start size t.state
        map := fun a => if InRange start size a then none else t.map a
        sorted := true }
  | .map start size sp =>
    match mem_map start size sp t.state with
    | .error _ => none
    | .ok s =>
      some { state := s,
             map := fun a => if InRange start size a then some (sp + (a - start)) else t.map a, sorted := true }
  | .find addr =>
    match dfi_mem_chunk_find addr t.state with
    | .error _ => none
    | .ok (_, s) => some { t with state := s }
  | .read addr cnt =>
    match dfi_mem_read addr cnt t.state with
    | .error _ => none
    | .ok (_, s) => some { t with state := s }

/-- Ranges do not wrap past the last address, the physical range of a mapping is valid and its
region is free; reads are of mapped memory. -/
def Proper (t : Sys) : Op → Prop
  | .unmap start size => 1 ≤ size ∧ size ≤ U64_MAX ∧ start + size ≤ U64_MAX + 1
  | .map start size sp => 1 ≤ size ∧ size ≤ U64_MAX ∧ start + size ≤ U64_MAX + 1 ∧
      (∀ i < size, PhysMapped t.state (sp + i)) ∧ ∀ i < size, t.map (start + i) = none
  | .find _ => True
  | .read addr cnt => ∀ i < cnt, t.map (addr + i) ≠ none

/-- No chunk in the range has data that the physical chunk still needs, and freeing them does not
free the cached chunk. -/
def NoShared (start size : Nat) (s : State) : Prop :=
  ∀ c ∈ s.mem_virt.chunk_list, Hit start size c → c.free_fn = true → ∀ k, c.data ≠ some (.ext k)

/-- A range that ends with the last address hits no chunk at all. -/
def TopClear (start size : Nat) (s : State) : Prop :=
  start + size = U64_MAX + 1 → ∀ c ∈ s.mem_virt.chunk_list, ¬Hit start size c

def Meets (t : Sys) : Op → Prop
  | .unmap start size => NoShared start size t.state ∧ LiveAfter start size t.state ∧ TopClear start size t.state
  | _ => True

/-- The property, for a dump with the physical chunks `cs`. -/
structure Good (cs : List Chunk) (t : Sys) : Prop where
  phys : t.state.mem_phys.chunk_list = cs
  inv : Inv t.state
  map : ∀ a p, t.map a = some p ↔ Shows t.state a p
  sorted : t.sorted = true → Sorted t.state

section
variable {cs : List Chunk} {t : Sys}

theorem shared_unmap {s : State} (h : Wf s) (hs : SharedLive s) {start size : Nat} (hpos : 1 ≤ size)
    (hfit : start + size ≤ U64_MAX) : SharedLive (mem_unmap start size s) ↔ NoShared start size s := by
  obtain ⟨-, -, hphys, -, hfreed, -⟩ := mem_unmap_spec h hpos hfit
  unfold SharedLive
  rw [hphys]
  constructor
  · intro hlive c hc hhit hfree k hk
    have hd := (h.virt_ok c hc).2
    unfold DataOk at hd
    cases hf : c.read_fn with
    | fmt f =>
      -- the physical chunk of which it is a copy has the same data
      rw [hf] at hd
      obtain ⟨p, hp, -, -, -, hpd⟩ := hd
      exact hlive p hp (.ext k) (by rw [hpd, hk]; rfl) ((hfreed k).mpr (Or.inr ⟨c, hc, hhit, hfree, hk⟩))
    | map sp =>
      rw [hf] at hd
      rw [hd.1] at hk
      cases hk
  · intro hno p hp d hd hmem
    obtain ⟨k, rfl⟩ := (h.phys_ok p hp).2.2 d hd
    rcases (hfreed k).mp hmem with hm | ⟨c, hc, hhit, hfree, hk⟩
    · exact hs p hp _ hd hm
    · exact hno c hc hhit hfree k hk

theorem unmap_below (h : Good cs t) {start size : Nat} (hpos : 1 ≤ size) (hfit : start + size ≤ U64_MAX) :
    ∃ t', step t (.unmap start size) = some t' ∧
      (Good cs t' ↔ NoShared start size t.state ∧ LiveAfter start size t.state) := by
  obtain ⟨hw, hsorted, hphys, hshows, -, hlive, -⟩ := mem_unmap_spec h.inv.wf hpos hfit
  refine ⟨_, rfl, fun hg => ⟨?_, hlive.mp hg.inv.cache⟩, fun ⟨hno, hl⟩ =>
    ⟨?_, ⟨hw, ?_, hlive.mpr hl⟩, fun a p => ?_,
    fun _ => hsorted⟩⟩
  · exact (shared_unmap h.inv.wf h.inv.shared hpos hfit).mp hg.inv.shared
  · show (mem_unmap start size t.state).mem_phys.chunk_list = cs
    rw [hphys]
    exact h.phys
  · exact (shared_unmap h.inv.wf h.inv.shared hpos hfit).mpr hno
  · show (if InRange start size a then none else t.map a) = some p ↔ Shows (mem_unmap start size t.state) a p
    rw [hshows]
    by_cases hin : InRange start size a
    · rw [if_pos hin]
      exact iff_of_false (fun hn => by cases hn) fun hs => hs.2 hin
    · rw [if_neg hin, h.map]
      exact ⟨fun hs => ⟨hs, hin⟩, And.left⟩

theorem unmap_top (h : Good cs t) {start size : Nat} (hpos : 1 ≤ size) (hfit : start + size = U64_MAX + 1) :
    ∃ t', step t (.unmap start size) = some t' ∧
      (Good cs t' ↔ ∀ c ∈ t.state.mem_virt.chunk_list, ¬Hit start size c) := by
  refine ⟨_, rfl, fun hg c hc hhit => ?_, fun hno => ?_⟩
  · -- the first address of the chunk in the range still shows what it showed before
    have hok := (h.inv.wf.virt_ok c hc).1
    have := hok.stop
    have := hok.pos
    have := hhit.1
    have := hhit.2
    have hshow : Shows (mem_unmap start size t.state) (max start c.start) (mem_chunk_start_phys c +
        (max start c.start - c.start)) := by
      rw [mem_unmap_top hfit, shows_update]
      exact ⟨c, hc, ⟨by omega, by omega⟩, rfl⟩
    have hmap := (hg.map _ _).mpr hshow
    have hin : InRange start size (max start c.start) := ⟨by omega, by omega⟩
    dsimp only at hmap
    rw [if_pos hin] at hmap
    cases hmap
  · show Good cs ⟨mem_unmap start size t.state, fun a => if InRange start size a then none else t.map a, true⟩
    rw [mem_unmap_top hfit]
    refine ⟨h.phys, ⟨h.inv.wf.update, h.inv.shared, cacheLive_update.mpr h.inv.cache⟩, fun a p => ?_,
      fun _ => h.inv.wf.sorted_update⟩
    show (if InRange start size a then none else t.map a) = some p ↔ Shows (update t.state) a p
    rw [shows_update]
    by_cases hin : InRange start size a
    · rw [if_pos hin]
      refine iff_of_false (fun hn => by cases hn) ?_
      rintro ⟨c, hc, ha, -⟩
      exact hno c hc ⟨Nat.le_trans hin.1 ha.2, Nat.lt_of_le_of_lt ha.1 hin.2⟩
    · rw [if_neg hin, h.map]

theorem step_unmap (h : Good cs t) {start size : Nat} (hp : Proper t (.unmap start size)) :
    ∃ t', step t (.unmap start size) = some t' ∧ (Good cs t' ↔ Meets t (.unmap start size)) := by
  obtain ⟨hpos, -, hfit⟩ := hp
  by_cases htop : start + size = U64_MAX + 1
  · obtain ⟨t', hstep, hiff⟩ := unmap_top h hpos htop
    refine ⟨t', hstep, hiff.trans ⟨fun hno => ⟨fun c hc hhit => absurd hhit (hno c hc), ?_, fun _ => hno⟩,
      fun hm => hm.2.2 htop⟩⟩
    obtain ⟨c, hc, hcache⟩ := h.inv.cache
    exact .inr ⟨c, hc, hcache, hno c hc⟩
  · obtain ⟨t', hstep, hiff⟩ := @unmap_below _ _ h start size hpos (by omega)
    exact ⟨t', hstep, hiff.trans ⟨fun hm => ⟨hm.1, hm.2, fun ht => absurd ht htop⟩, fun hm => ⟨hm.1, hm.2.1⟩⟩⟩

theorem step_map (h : Good cs t) {start size sp : Nat} (hp : Proper t (.map start size sp)) :
    ∃ t', step t (.map start size sp) = some t' ∧ (Good cs t' ↔ Meets t (.map start size sp)) := by
  obtain ⟨hpos, hsize, hfit, hphys, hfree⟩ := hp
  obtain ⟨s', heq, hw, hsorted, hp', hf', hcache, hshows⟩ :=
    mem_map_spec h.inv.wf hpos hsize hfit hphys fun a p h₁ h₂ hs => by
    have hm := (h.map a p).mpr hs
    have hn := hfree (a - start) (by omega)
    rw [Nat.add_sub_cancel' h₁, hm] at hn
    cases hn
  refine ⟨⟨s', fun a => if InRange start size a then some (sp + (a - start)) else t.map a, true⟩, ?_,
    iff_of_true ⟨?_, ⟨hw, ?_, hcache⟩, fun a p => ?_, fun _ => hsorted⟩ trivial⟩
  · simp only [step, heq]
  · show s'.mem_phys.chunk_list = cs
    rw [hp']
    exact h.phys
  · unfold SharedLive
    rw [hp', hf']
    exact h.inv.shared
  · show (if InRange start size a then some (sp + (a - start)) else t.map a) = some p ↔ Shows s' a p
    rw [hshows]
    change _ ↔ if InRange start size a then p = sp + (a - start) else Shows t.state a p
    by_cases hin : InRange start size a
    · rw [if_pos hin, if_pos hin, Option.some.injEq, eq_comm]
    · rw [if_neg hin, if_neg hin, h.map]

theorem Good.touched (h : Good cs t) {s' : State} (ht : Touched t.state s') : Good cs { t with state := s' } where
  phys := ht.phys.trans h.phys
  inv := ht.inv
  map a p := (h.map a p).trans ht.shows.symm
  sorted hs := by
    have := h.sorted hs
    unfold Sorted at this ⊢
    rw [ht.virt]
    exact this

theorem read_good (h : Good cs t) {addr cnt : Nat} (hm : ∀ i < cnt, t.map (addr + i) ≠ none) :
    ∃ s', dfi_mem_read addr cnt t.state =
      .ok ((List.range cnt).map fun i => phys_byte cs ((t.map (addr + i)).getD 0), s') ∧ Touched t.state s' := by
  rw [← h.phys]
  refine mem_read_eq h.inv fun i hi => ?_
  obtain ⟨p, hp⟩ := Option.ne_none_iff_exists'.mp (hm i hi)
  rw [hp]
  exact (h.map _ _).mp hp

theorem step_good (h : Good cs t) {op : Op} (hp : Proper t op) :
    ∃ t', step t op = some t' ∧ (Good cs t' ↔ Meets t op) := by
  cases op with
  | unmap start size => exact step_unmap h hp
  | map start size sp => exact step_map h hp
  | find addr =>
    obtain ⟨c, s', heq, ht, -⟩ := chunk_find_eq h.inv addr
    refine ⟨{ t with state := s' }, ?_, iff_of_true (h.touched ht) trivial⟩
    simp only [step, heq]
  | read addr cnt =>
    obtain ⟨s', heq, ht⟩ := read_good h hp
    refine ⟨{ t with state := s' }, ?_, iff_of_true (h.touched ht) trivial⟩
    simp only [step, heq]

end

/-! ## The chunks of the input format -/

structure Add where
  start : Nat
  size : Nat
  data : Option Nat
  read : Nat → UInt8
  free_fn : Bool

def Add.stop (a : Add) : Nat := a.start + a.size - 1

def Add.Proper (a : Add) : Prop := 1 ≤ a.size ∧ a.size ≤ U64_MAX ∧ a.start + a.size ≤ U64_MAX + 1

def Add.Disjoint (a b : Add) : Prop := a.stop < b.start ∨ b.stop < a.start

def add_chunk (s : State) (a : Add) : State :=
  dfi_mem_chunk_add a.start a.size (a.data.map Ptr.ext) (.fmt a.read) a.free_fn s

def add_chunks (adds : List Add) : State := adds.foldl add_chunk State.init

def Chunk.IsAdd (c : Chunk) (a : Add) : Prop :=
  c.start = a.start ∧ c.stop = a.stop ∧ c.data = a.data.map Ptr.ext ∧ c.read_fn = .fmt a.read ∧
    c.free_fn = a.free_fn

/-- The state while chunks are added: both lists have them in order. -/
structure Added (adds : List Add) (s : State) : Prop where
  wf : Wf s
  freed : s.freed = []
  phys : List.Forall₂ Chunk.IsAdd s.mem_phys.chunk_list adds
  virt : List.Forall₂ Chunk.IsAdd s.mem_virt.chunk_list adds
  cache : adds ≠ [] → CacheLive s

theorem added_nil : Added [] State.init where
  wf :=
    { phys_ok := fun _ h => absurd h List.not_mem_nil
      phys_disjoint := List.Pairwise.nil
      phys_live := fun _ h => absurd h List.not_mem_nil
      phys_cache := fun h => absurd rfl h
      virt_ok := fun _ h => absurd h List.not_mem_nil
      virt_disjoint := List.Pairwise.nil
      virt_live := fun _ h => absurd h List.not_mem_nil
      nums := List.nodup_nil
      nums_lt := fun _ h => absurd h List.not_mem_nil
      freed_lt := fun _ h => (h.elim (fun h => absurd h List.not_mem_nil) fun h => absurd h List.not_mem_nil)
      cnt := rfl }
  freed := rfl
  phys := List.Forall₂.nil
  virt := List.Forall₂.nil
  cache h := absurd rfl h

theorem Added.add {adds : List Add} {s : State} (h : Added adds s) {a : Add} (ha : a.Proper)
    (hd : ∀ b ∈ adds, b.Disjoint a) : Added (adds ++ [a]) (add_chunk s a) := by
  obtain ⟨hpos, hsize, hfit⟩ := ha
  let data := a.data.map Ptr.ext
  let p := chunk_create s.next a.start a.size data (.fmt a.read) a.free_fn
  let c := chunk_create (s.next + 1) a.start a.size data (.fmt a.read) a.free_fn
  have hpok : p.Ok := chunk_create_ok hpos hsize hfit ..
  have hcok : c.Ok := chunk_create_ok hpos hsize hfit ..
  have hstop : p.stop = a.stop := by
    have := hpok.stop
    change p.stop + 1 = a.start + a.size at this
    unfold Add.stop
    omega
  have hphys : (add_chunk s a).mem_phys.chunk_list = s.mem_phys.chunk_list ++ [p] := rfl
  have hvirt : (add_chunk s a).mem_virt.chunk_list = s.mem_virt.chunk_list ++ [c] := rfl
  have hdis : ∀ {cs : List Chunk}, List.Forall₂ Chunk.IsAdd cs adds → ∀ b ∈ cs, ∀ d : Chunk, d.start = a.start →
      d.stop = a.stop → Disjoint b d := by
    intro cs hcs b hb d h₁ h₂
    obtain ⟨e, he, hbe⟩ : ∃ e ∈ adds, b.IsAdd e := by
      obtain ⟨i, hi, rfl⟩ := List.getElem_of_mem hb
      exact ⟨_, List.getElem_mem _, (List.forall₂_iff_get.mp hcs).2 i hi (by rw [← hcs.length_eq]; exact hi)⟩
    unfold Disjoint
    rw [hbe.1, hbe.2.1, h₁, h₂]
    exact hd e he
  have hmemp : ∀ b, b ∈ (add_chunk s a).mem_phys.chunk_list ↔ b ∈ s.mem_phys.chunk_list ∨ b = p := by
    intro b
    rw [hphys, List.mem_append, List.mem_singleton]
  have hmemv : ∀ b, b ∈ (add_chunk s a).mem_virt.chunk_list ↔ b ∈ s.mem_virt.chunk_list ∨ b = c := by
    intro b
    rw [hvirt, List.mem_append, List.mem_singleton]
  have hfreed : (add_chunk s a).freed = [] := h.freed
  have hw : Wf (add_chunk s a) := by
    constructor
    · intro b hb
      rcases (hmemp b).mp hb with hb | rfl
      · exact h.wf.phys_ok b hb
      · refine ⟨hpok, ⟨_, rfl⟩, fun d hdata => ?_⟩
        obtain ⟨k, -, rfl⟩ := Option.map_eq_some_iff.mp hdata
        exact ⟨k, rfl⟩
    · rw [hphys, List.pairwise_append]
      refine ⟨h.wf.phys_disjoint, List.pairwise_singleton .., fun b hb d hd => ?_⟩
      rw [List.mem_singleton.mp hd]
      exact hdis h.phys b hb p rfl hstop
    · intro b _ hf
      rw [hfreed] at hf
      cases hf
    · exact fun _ => ⟨p, (hmemp p).mpr (Or.inr rfl), rfl⟩
    · intro b hb
      rcases (hmemv b).mp hb with hb | rfl
      · refine ⟨(h.wf.virt_ok b hb).1, ?_⟩
        have hdata := (h.wf.virt_ok b hb).2
        unfold DataOk at hdata ⊢
        cases hf : b.read_fn with
        | fmt f =>
          rw [hf] at hdata
          obtain ⟨q, hq, hrest⟩ := hdata
          exact ⟨q, (hmemp q).mpr (Or.inl hq), hrest⟩
        | map sp =>
          rw [hf] at hdata
          refine ⟨hdata.1, hdata.2.1, by rw [hfreed]; exact List.not_mem_nil, fun x h₁ h₂ => ?_⟩
          obtain ⟨q, hq, hqx⟩ := hdata.2.2.2 x h₁ h₂
          exact ⟨q, (hmemp q).mpr (Or.inl hq), hqx⟩
      · exact ⟨hcok, p, (hmemp p).mpr (Or.inr rfl), rfl, rfl, rfl, rfl⟩
    · rw [hvirt, List.pairwise_append]
      refine ⟨h.wf.virt_disjoint, List.pairwise_singleton .., fun b hb d hd => ?_⟩
      rw [List.mem_singleton.mp hd]
      exact hdis h.virt b hb c rfl hstop
    · intro b _ hf
      rw [hfreed] at hf
      cases hf
    · rw [hphys, hvirt, List.map_append, List.map_append]
      have hperm : (s.mem_phys.chunk_list.map Chunk.num ++ [p].map Chunk.num ++
          (s.mem_virt.chunk_list.map Chunk.num ++ [c].map Chunk.num)).Perm
          ((s.mem_phys.chunk_list.map Chunk.num ++ s.mem_virt.chunk_list.map Chunk.num) ++
            [s.next, s.next + 1]) := by
        rw [List.append_assoc, List.append_assoc]
        exact List.Perm.append_left _ (List.perm_append_comm_assoc [s.next] _ [s.next + 1])
      refine hperm.nodup_iff.mpr (List.nodup_append.mpr ⟨h.wf.nums, by simp, fun n hn m hm => ?_⟩)
      rw [← List.map_append] at hn
      obtain ⟨b, hb, rfl⟩ := List.mem_map.mp hn
      have := h.wf.nums_lt b hb
      rcases List.mem_cons.mp hm with rfl | hm
      · omega
      · rw [List.mem_singleton.mp hm]
        omega
    · intro b hb
      show b.num < s.next + 1 + 1
      rcases List.mem_append.mp hb with hb | hb
      · rcases (hmemp b).mp hb with hb | rfl
        · have := h.wf.nums_lt b (List.mem_append_left _ hb)
          omega
        · show s.next < _
          omega
      · rcases (hmemv b).mp hb with hb | rfl
        · have := h.wf.virt_num_lt hb
          omega
        · show s.next + 1 < _
          omega
    · intro n hn
      rw [hfreed] at hn
      exact hn.elim (fun hn => absurd hn List.not_mem_nil) fun hn => absurd hn List.not_mem_nil
    · rw [hvirt, List.length_append]
      exact congrArg (· + 1) h.wf.cnt
  refine ⟨hw, hfreed, ?_, ?_, fun _ => ⟨c, (hmemv c).mpr (Or.inr rfl), rfl⟩⟩
  · rw [hphys]
    exact List.rel_append h.phys (List.Forall₂.cons ⟨rfl, hstop, rfl, rfl, rfl⟩ List.Forall₂.nil)
  · rw [hvirt]
    exact List.rel_append h.virt (List.Forall₂.cons ⟨rfl, hstop, rfl, rfl, rfl⟩ List.Forall₂.nil)

theorem added (adds : List Add) (hp : ∀ a ∈ adds, a.Proper) (hd : adds.Pairwise Add.Disjoint) :
    Added adds (add_chunks adds) := by
  induction adds using List.reverseRecOn with
  | nil => exact added_nil
  | append_singleton adds a ih =>
    obtain ⟨h₁, -, h₂⟩ := List.pairwise_append.mp hd
    unfold add_chunks
    rw [List.foldl_append]
    refine (ih (fun b hb => hp b (List.mem_append_left _ hb)) h₁).add (hp a (by simp)) fun b hb => ?_
    exact h₂ b hb a (List.mem_cons_self ..)

def Add.Has (a : Add) (x : Nat) : Prop := a.start ≤ x ∧ x ≤ a.stop

instance (a : Add) (x : Nat) : Decidable (a.Has x) := inferInstanceAs (Decidable (_ ∧ _))

def mem_byte (adds : List Add) (x : Nat) : UInt8 :=
  match adds.find? fun a => a.Has x with
  | none => 0
  | some a => a.read (x - a.start)

theorem phys_byte_add {cs : List Chunk} {adds : List Add} (h : List.Forall₂ Chunk.IsAdd cs adds) (x : Nat) :
    phys_byte cs x = mem_byte adds x := by
  induction h with
  | nil => rfl
  | @cons c a cs adds hca _ ih =>
    obtain ⟨h₁, h₂, -, h₃, -⟩ := hca
    have hiff : mem_chunk_has_addr c x ↔ a.Has x := by
      unfold mem_chunk_has_addr Add.Has
      rw [h₁, h₂]
    unfold phys_byte mem_byte at ih ⊢
    by_cases hx : a.Has x
    · rw [List.find?_cons_of_pos (by simpa using hiff.mpr hx), List.find?_cons_of_pos (by simpa using hx)]
      simp only [h₃, h₁]
    · rw [List.find?_cons_of_neg (by simpa using fun hc => hx (hiff.mp hc)),
        List.find?_cons_of_neg (by simpa using hx)]
      exact ih

def initial (adds : List Add) : Sys where
  state := add_chunks adds
  map x := if ∃ a ∈ adds, a.Has x then some x else none
  sorted := decide (adds.Pairwise fun a b => a.stop < b.start)

section
variable {adds : List Add} {s : State}

theorem Added.mem_virt (h : Added adds s) {c : Chunk} (hc : c ∈ s.mem_virt.chunk_list) : ∃ a ∈ adds, c.IsAdd a := by
  obtain ⟨i, hi, rfl⟩ := List.getElem_of_mem hc
  exact ⟨_, List.getElem_mem _, (List.forall₂_iff_get.mp h.virt).2 i hi (by rw [← h.virt.length_eq]; exact hi)⟩

theorem Added.virt_mem (h : Added adds s) {a : Add} (ha : a ∈ adds) : ∃ c ∈ s.mem_virt.chunk_list, c.IsAdd a := by
  obtain ⟨i, hi, rfl⟩ := List.getElem_of_mem ha
  exact ⟨_, List.getElem_mem _, (List.forall₂_iff_get.mp h.virt).2 i (by rw [h.virt.length_eq]; exact hi) hi⟩

theorem Added.phys_mem (h : Added adds s) {a : Add} (ha : a ∈ adds) : ∃ c ∈ s.mem_phys.chunk_list, c.IsAdd a := by
  obtain ⟨i, hi, rfl⟩ := List.getElem_of_mem ha
  exact ⟨_, List.getElem_mem _, (List.forall₂_iff_get.mp h.phys).2 i (by rw [h.phys.length_eq]; exact hi) hi⟩

theorem Added.physMapped (h : Added adds s) {x : Nat} (hx : ∃ a ∈ adds, a.Has x) : PhysMapped s x := by
  obtain ⟨a, ha, hax⟩ := hx
  obtain ⟨c, hc, h₁, h₂, -⟩ := h.phys_mem ha
  exact ⟨c, hc, by rw [h₁]; exact hax.1, by rw [h₂]; exact hax.2⟩

theorem Added.shows (h : Added adds s) {x p : Nat} : Shows s x p ↔ (∃ a ∈ adds, a.Has x) ∧ p = x := by
  constructor
  · rintro ⟨c, hc, ⟨hlo, hhi⟩, hp⟩
    obtain ⟨a, ha, h₁, h₂, -, h₃, -⟩ := h.mem_virt hc
    refine ⟨⟨a, ha, by rw [← h₁]; exact hlo, by rw [← h₂]; exact hhi⟩, ?_⟩
    rw [hp]
    unfold mem_chunk_start_phys
    rw [h₃]
    simp only
    omega
  · rintro ⟨⟨a, ha, hlo, hhi⟩, rfl⟩
    obtain ⟨c, hc, h₁, h₂, -, h₃, -⟩ := h.virt_mem ha
    refine ⟨c, hc, ⟨by rw [h₁]; exact hlo, by rw [h₂]; exact hhi⟩, ?_⟩
    unfold mem_chunk_start_phys
    rw [h₃]
    simp only
    omega

theorem sorted_adds {cs : List Chunk} (h : List.Forall₂ Chunk.IsAdd cs adds) :
    (adds.Pairwise fun a b => a.stop < b.start) → cs.Pairwise fun a b => a.stop < b.start := by
  induction h with
  | nil => exact fun _ => List.Pairwise.nil
  | @cons c a cs adds hca hrest ih =>
    intro hasc
    obtain ⟨h₁, h₂⟩ := List.pairwise_cons.mp hasc
    refine List.pairwise_cons.mpr ⟨fun d hd => ?_, ih h₂⟩
    obtain ⟨i, hi, rfl⟩ := List.getElem_of_mem hd
    have hlen : i < adds.length := by
      rw [← hrest.length_eq]
      exact hi
    have hia := (List.forall₂_iff_get.mp hrest).2 i hi hlen
    have := h₁ _ (List.getElem_mem hlen)
    rw [hca.2.1]
    exact Nat.lt_of_lt_of_eq this hia.1.symm

theorem initial_good (hne : adds ≠ []) (hp : ∀ a ∈ adds, a.Proper) (hd : adds.Pairwise Add.Disjoint) :
    Good (add_chunks adds).mem_phys.chunk_list (initial adds) := by
  have h := added adds hp hd
  refine ⟨rfl, ⟨h.wf, fun p _ d _ hf => ?_, h.cache hne⟩, fun x p => ?_, fun hs => ?_⟩
  · rw [show (initial adds).state.freed = [] from h.freed] at hf
    cases hf
  · show (if ∃ a ∈ adds, a.Has x then some x else none) = some p ↔ Shows (add_chunks adds) x p
    rw [h.shows]
    by_cases hx : ∃ a ∈ adds, a.Has x
    · rw [if_pos hx, Option.some.injEq, eq_comm]
      exact ⟨fun hp => ⟨hx, hp⟩, And.right⟩
    · rw [if_neg hx]
      exact iff_of_false (fun hn => by cases hn) fun hs => hx hs.1
  · exact sorted_adds h.virt (of_decide_eq_true hs)

end

/-! ## The kdump area -/

section
variable {s : State} {base size : Nat}

theorem range_valid_loop_iff {len addr_end : Nat} :
    ∀ (fuel addr : Nat) (s : State), Inv s → (∀ c ∈ s.mem_virt.chunk_list, c.stop < U64_MAX) → addr < addr_end →
      addr_end ≤ addr + len → addr_end - addr < fuel →
      ∃ b s', range_valid_loop len addr_end fuel addr s = .ok (b, s') ∧ Touched s s' ∧
        (b = true ↔ ∀ y, addr ≤ y → y < addr_end → ∃ p, Shows s y p) := by
  intro fuel
  induction fuel with
  | zero => intro addr s _ _ _ _ h; omega
  | succ fuel ih =>
    intro addr s h htop hlt hlen hfuel
    obtain ⟨c, s₁, heq, ht, hsome, hnone⟩ := chunk_find_eq h addr
    rw [range_valid_loop, heq]
    cases c with
    | none =>
      refine ⟨false, s₁, rfl, ht, iff_of_false Bool.false_ne_true fun hall => ?_⟩
      obtain ⟨p, hp⟩ := hall addr (Nat.le_refl _) hlt
      exact hnone rfl p hp
    | some c =>
      obtain ⟨hc, ha⟩ := hsome c rfl
      have hstop := ha.2
      have hfits := htop c hc
      have hin : ∀ y, addr ≤ y → y ≤ c.stop → ∃ p, Shows s y p := fun y h₁ h₂ =>
        ⟨_, c, hc, ⟨Nat.le_trans ha.1 h₁, h₂⟩, rfl⟩
      have hnext : u64 ((addr + min len (c.stop - addr + 1) : Nat) : Int) = addr + min len (c.stop - addr + 1) := by
        unfold U64_MAX at hfits
        rw [u64_of_lt (by omega) (by omega)]
        rfl
      simp only [piece_size (h.wf.virt_ok c hc).1 ha, hnext]
      by_cases hmore : addr + min len (c.stop - addr + 1) < addr_end
      · rw [if_pos hmore]
        obtain ⟨b, s₂, heq₂, ht₂, hiff⟩ := ih (addr + min len (c.stop - addr + 1)) s₁ ht.inv
          (by rw [ht.virt]; exact htop) hmore (by omega) (by omega)
        refine ⟨b, s₂, heq₂, ht.trans ht₂, hiff.trans ⟨fun hall y h₁ h₂ => ?_, fun hall y h₁ h₂ => ?_⟩⟩
        · by_cases hy : y ≤ c.stop
          · exact hin y h₁ hy
          · obtain ⟨p, hp⟩ := hall y (by omega) h₂
            exact ⟨p, ht.shows.mp hp⟩
        · obtain ⟨p, hp⟩ := hall y (by omega) h₂
          exact ⟨p, ht.shows.mpr hp⟩
      · rw [if_neg hmore]
        exact ⟨true, s₁, rfl, ht, iff_of_true rfl fun y h₁ h₂ => hin y h₁ (by omega)⟩

theorem mem_range_valid_iff (h : Inv s) (htop : ∀ c ∈ s.mem_virt.chunk_list, c.stop < U64_MAX) (hpos : 1 ≤ size)
    (hfit : base + size ≤ U64_MAX) :
    ∃ b s', dfi_mem_range_valid base size s = .ok (b, s') ∧ Touched s s' ∧
      (b = true ↔ ∀ i < size, ∃ p, Shows s (base + i) p) := by
  have hend : u64 ((base + size : Nat) : Int) = base + size := by
    unfold U64_MAX at hfit
    rw [u64_of_lt (by omega) (by omega)]
    rfl
  unfold dfi_mem_range_valid
  rw [hend]
  obtain ⟨b, s', heq, ht, hiff⟩ := @range_valid_loop_iff size (base + size) (2 * U64_MAX + 2) base s h htop
    (by omega) (Nat.le_refl _) (by omega)
  refine ⟨b, s', heq, ht, hiff.trans ⟨fun hall i hi => hall _ (by omega) (by omega), fun hall y h₁ h₂ => ?_⟩⟩
  have := hall (y - base) (by omega)
  rw [Nat.add_sub_cancel' h₁] at this
  exact this

theorem kdump_select_prod (h : Wf s) (hs : SharedLive s) (hpos : 1 ≤ size) (hfit : base + size ≤ U64_MAX)
    (hphys : ∀ i < size, PhysMapped s (base + i)) (hno₁ : NoShared 0 size s) (hno₂ : NoShared base size s) :
    ∃ s', kdump_select .prod base size s = .ok s' ∧ Inv s' ∧ Sorted s' ∧ s'.mem_phys = s.mem_phys ∧
      ∀ a p, Shows s' a p ↔ if a < size then p = base + a else Shows s a p ∧ ¬ InRange base size a := by
  have hfit₀ : 0 + size ≤ U64_MAX := by omega
  obtain ⟨hw₁, -, hp₁, hshows₁, -, -, hold₁⟩ := mem_unmap_spec h hpos hfit₀
  have hs₁ := (shared_unmap h hs hpos hfit₀).mpr hno₁
  obtain ⟨hw₂, -, hp₂, hshows₂, -, -, -⟩ := mem_unmap_spec hw₁ hpos hfit
  have hs₂ := (shared_unmap hw₁ hs₁ hpos hfit).mpr fun c hc hhit hfree k hk =>
    hno₂ c (hold₁ c hc k hk) hhit hfree k hk
  have hphys₂ : ∀ i < size, PhysMapped (mem_unmap base size (mem_unmap 0 size s)) (base + i) := by
    unfold PhysMapped
    rw [hp₂, hp₁]
    exact hphys
  obtain ⟨s', heq, hw, hsorted, hp, hf, hcache, hshows⟩ := mem_map_spec hw₂ hpos (by omega)
    (by omega) hphys₂ fun a p _ h₂ hsh =>
    ((hshows₁ a p).mp ((hshows₂ a p).mp hsh).1).2 ⟨Nat.zero_le a, h₂⟩
  refine ⟨s', heq, ⟨hw, ?_, hcache⟩, hsorted, hp.trans (hp₂.trans hp₁), fun a p => ?_⟩
  · unfold SharedLive at hs₂ ⊢
    rw [hp, hf]
    exact hs₂
  · rw [hshows, hshows₂, hshows₁]
    by_cases ha : a < size
    · rw [if_pos ⟨Nat.zero_le a, by omega⟩, if_pos ha, Nat.sub_zero]
    · rw [if_neg (by omega), if_neg ha]
      refine ⟨fun hh => ⟨hh.1.1, hh.2⟩, fun hh => ⟨⟨hh.1, by omega⟩, hh.2⟩⟩

end

/-! ## The memory map -/

section
variable (adds : List Add)

def kdump_base : Nat := word ((List.range 8).map fun i => mem_byte adds (0x10418 + i))
def kdump_size : Nat := word ((List.range 8).map fun i => mem_byte adds (0x10420 + i))

def prod_map (x : Nat) : Option Nat :=
  if x < kdump_size adds then some (kdump_base adds + x)
  else if InRange (kdump_base adds) (kdump_size adds) x then none
  else (initial adds).map x

/-- The area is there, and no chunk that it or the first addresses hit has data with a free function. -/
structure KdumpArea : Prop where
  mapped : ∀ i < 16, ∃ a ∈ adds, a.Has (0x10418 + i)
  base : kdump_base adds ≠ 0 ∧ kdump_base adds % MIB = 0
  size : kdump_size adds ≠ 0 ∧ kdump_size adds % MIB = 0
  fits : kdump_base adds + kdump_size adds ≤ U64_MAX ∧ ∀ a ∈ adds, a.stop < U64_MAX
  valid : ∀ i < kdump_size adds, ∃ a ∈ adds, a.Has (kdump_base adds + i)
  unshared : ∀ a ∈ adds, (a.start < kdump_size adds ∨
      (kdump_base adds ≤ a.stop ∧ a.start < kdump_base adds + kdump_size adds)) → a.free_fn = true → a.data = none

end

theorem kdump_init_eq {select : Select} {s s₁ s₂ s₃ : State} {b b' : List UInt8}
    (h₁ : dfi_mem_phys_read 0x10418 8 s = .ok (b, s₁)) (h₂ : dfi_mem_phys_read 0x10420 8 s₁ = .ok (b', s₂))
    (hno : ¬ (word b = 0 ∨ word b' = 0 ∨ word b % MIB ≠ 0 ∨ word b' % MIB ≠ 0))
    (h₃ : dfi_mem_range_valid (word b) (word b') s₂ = .ok (true, s₃)) :
    kdump_init select s = kdump_select select (word b) (word b') s₃ := by
  simp only [kdump_init, h₁, h₂, bind, Except.bind]
  rw [if_neg hno, h₃]
  rfl

theorem kdump_init_prod {adds : List Add} (hne : adds ≠ []) (hp : ∀ a ∈ adds, a.Proper)
    (hd : adds.Pairwise Add.Disjoint) (ha : KdumpArea adds) :
    ∃ s', kdump_init .prod (add_chunks adds) = .ok s' ∧
      Good (add_chunks adds).mem_phys.chunk_list { state := s', map := prod_map adds, sorted := true } := by
  have hadd := added adds hp hd
  have hgood := initial_good hne hp hd
  have hinv : Inv (add_chunks adds) := hgood.inv
  obtain ⟨hm, ⟨hb₀, hb₁⟩, ⟨hs₀, hs₁⟩, ⟨hfit, htop⟩, hv, hun⟩ := ha
  have hlow : ∀ i < 16, PhysMapped (add_chunks adds) (0x10418 + i) := fun i hi => hadd.physMapped (hm i hi)
  have hbytes : ∀ addr, ((List.range 8).map fun i => phys_byte (add_chunks adds).mem_phys.chunk_list (addr + i)) =
      (List.range 8).map fun i => mem_byte adds (addr + i) :=
    fun addr => List.map_congr_left fun i _ => phys_byte_add hadd.phys (addr + i)
  obtain ⟨s₁, heq₁, ht₁⟩ := @phys_read_eq _ hinv 0x10418 8 (fun i hi => hlow i (by omega)) (by decide)
  obtain ⟨s₂, heq₂, ht₂⟩ := @phys_read_eq _ ht₁.inv 0x10420 8
    (fun i hi => by
      have := hlow (8 + i) (by omega)
      rw [← Nat.add_assoc] at this
      exact ht₁.physMapped.mpr this) (by decide)
  rw [ht₁.phys] at heq₂
  rw [hbytes] at heq₁ heq₂
  have ht := ht₁.trans ht₂
  obtain ⟨b, s₃, heq₃, ht₃, hvalid⟩ := @mem_range_valid_iff _ (kdump_base adds) (kdump_size adds) ht.inv
    (fun c hc => by
      rw [ht.virt] at hc
      obtain ⟨a, haa, hca⟩ := hadd.mem_virt hc
      rw [hca.2.1]
      exact htop a haa) (by omega) hfit
  have hb : b = true := hvalid.mpr fun i hi => ⟨_, ht.shows.mpr (hadd.shows.mpr ⟨hv i hi, rfl⟩)⟩
  have htt := ht.trans ht₃
  have hno : ∀ start size, (∀ a ∈ adds, start ≤ a.stop → a.start < start + size → a.free_fn = true →
    a.data = none) →
      NoShared start size s₃ := by
    intro start size hall c hc hhit hfree k hk
    rw [htt.virt] at hc
    obtain ⟨a, haa, h₁, h₂, h₃, -, h₄⟩ := hadd.mem_virt hc
    have hnone := hall a haa (by rw [← h₂]; exact hhit.1) (by rw [← h₁]; exact hhit.2) (by rw [← h₄]; exact hfree)
    rw [h₃, hnone] at hk
    cases hk
  obtain ⟨s', heq, hinv', hsorted, hphys, hshows⟩ := @kdump_select_prod _ (kdump_base adds) (kdump_size adds)
    htt.inv.wf htt.inv.shared (by omega) hfit (fun i hi => htt.physMapped.mpr (hadd.physMapped (hv i hi)))
    (hno _ _ fun a haa _ h₂ => hun a haa (Or.inl (by omega)))
      (hno _ _ fun a haa h₁ h₂ => hun a haa (Or.inr ⟨h₁, h₂⟩))
  refine ⟨s', ?_, ?_, hinv', fun x p => ?_, fun _ => hsorted⟩
  · rw [hb] at heq₃
    have hno : ¬ (kdump_base adds = 0 ∨ kdump_size adds = 0 ∨ kdump_base adds % MIB ≠ 0 ∨
      kdump_size adds % MIB ≠ 0) := by
      omega
    exact (kdump_init_eq heq₁ heq₂ hno heq₃).trans heq
  · show s'.mem_phys.chunk_list = _
    rw [hphys]
    exact htt.phys
  · show prod_map adds x = some p ↔ Shows s' x p
    have hmap : (initial adds).map x = some p ↔ Shows (add_chunks adds) x p := hgood.map x p
    rw [hshows, htt.shows, ← hmap]
    unfold prod_map
    by_cases h₁ : x < kdump_size adds
    · rw [if_pos h₁, if_pos h₁, Option.some.injEq, eq_comm]
    · rw [if_neg h₁, if_neg h₁]
      by_cases h₂ : InRange (kdump_base adds) (kdump_size adds) x
      · rw [if_pos h₂]
        exact iff_of_false (fun hn => by cases hn) fun hh => hh.2 h₂
      · rw [if_neg h₂]
        exact ⟨fun hh => ⟨hh, h₂⟩, And.left⟩

theorem memory_map (adds : List Add) (hne : adds ≠ []) (hp : ∀ a ∈ adds, a.Proper)
    (hd : adds.Pairwise Add.Disjoint) :
    (∀ ops, Admissible step Proper (initial adds) ops →
      (Always step (Good (add_chunks adds).mem_phys.chunk_list) (initial adds) ops ↔
        Admissible step Meets (initial adds) ops) ∧
      (Admissible step Meets (initial adds) ops → ∃ t, exec step (initial adds) ops = some t ∧
        Good (add_chunks adds).mem_phys.chunk_list t)) ∧
    (∀ t, Good (add_chunks adds).mem_phys.chunk_list t →
      (∀ addr cnt, (∀ i < cnt, t.map (addr + i) ≠ none) →
        ∃ s', dfi_mem_read addr cnt t.state =
          .ok ((List.range cnt).map fun i => mem_byte adds ((t.map (addr + i)).getD 0), s')) ∧
      (∀ addr, ∃ c s', dfi_mem_chunk_find addr t.state = .ok (c, s') ∧ (c = none ↔ t.map addr = none)) ∧
      (∀ start size sp, 1 ≤ size → start + size ≤ U64_MAX + 1 → (∃ i < size, t.map (start + i) ≠ none) →
        mem_map start size sp t.state = .error .already_mapped)) ∧
    (KdumpArea adds → ∃ s', kdump_init .prod (add_chunks adds) = .ok s' ∧
      Good (add_chunks adds).mem_phys.chunk_list { state := s', map := prod_map adds, sorted := true }) := by
  have hadd := added adds hp hd
  refine ⟨fun ops hadm => ?_, fun t ht => ⟨fun addr cnt hm => ?_, fun addr => ?_,
    fun start size sp hpos hfit hm => ?_⟩, kdump_init_prod hne hp hd⟩
  · exact always_iff_of_pre _ Proper (fun t op ht hop => step_good ht hop) ops _ (initial_good hne hp hd) hadm
  · obtain ⟨s', heq, -⟩ := read_good ht hm
    refine ⟨s', heq.trans ?_⟩
    congr 2
    exact List.map_congr_left fun i _ => phys_byte_add hadd.phys _
  · obtain ⟨c, s', heq, -, hsome, hnone⟩ := chunk_find_eq ht.inv addr
    refine ⟨c, s', heq, fun hc => ?_, fun hm => ?_⟩
    · by_contra hm
      obtain ⟨p, hp⟩ := Option.ne_none_iff_exists'.mp hm
      exact hnone hc p ((ht.map addr p).mp hp)
    · cases c with
      | none => rfl
      | some c =>
        obtain ⟨hc, ha⟩ := hsome c rfl
        have := (ht.map addr _).mpr ⟨c, hc, ha, rfl⟩
        rw [hm] at this
        cases this
  · obtain ⟨i, hi, hne'⟩ := hm
    obtain ⟨p, hp'⟩ := Option.ne_none_iff_exists'.mp hne'
    exact mem_map_abort ht.inv.wf hpos hfit sp ⟨start + i, p, by omega, by omega, (ht.map _ _).mp hp'⟩

/-! ## Runs on small dumps -/

instance (s : State) (a : Nat) : Decidable (PhysMapped s a) := inferInstanceAs (Decidable (∃ p ∈ _, _))

instance (start size : Nat) (s : State) : Decidable (LiveAfter start size s) :=
  inferInstanceAs (Decidable ((∃ c ∈ _, _) ∨ ∃ c ∈ _, _))

instance (t : Sys) : (op : Op) → Decidable (Proper t op)
  | .unmap _ _ => inferInstanceAs (Decidable (_ ∧ _))
  | .map _ _ _ => inferInstanceAs (Decidable (_ ∧ _ ∧ _ ∧ _))
  | .find _ => isTrue trivial
  | .read addr cnt => inferInstanceAs (Decidable (∀ i < cnt, t.map (addr + i) ≠ none))

def ext_data : Option Ptr → Bool
  | some (.ext _) => true
  | _ => false

theorem ext_data_false {d : Option Ptr} : ext_data d = false ↔ ∀ k, d ≠ some (.ext k) := by
  unfold ext_data
  split
  · exact iff_of_false (by decide) fun h => h _ rfl
  · rename_i hne
    exact iff_of_true rfl fun k hk => hne k hk

instance (start size : Nat) (s : State) : Decidable (NoShared start size s) :=
  decidable_of_iff (∀ c ∈ s.mem_virt.chunk_list, Hit start size c → c.free_fn = true → ext_data c.data = false) (by
    unfold NoShared
    simp only [ext_data_false])

instance (start size : Nat) (s : State) : Decidable (TopClear start size s) :=
  inferInstanceAs (Decidable (_ → ∀ c ∈ _, _))

instance (t : Sys) : (op : Op) → Decidable (Meets t op)
  | .unmap _ _ => inferInstanceAs (Decidable (_ ∧ _ ∧ _))
  | .map _ _ _ => isTrue trivial
  | .find _ => isTrue trivial
  | .read _ _ => isTrue trivial

def two_chunks : List Add :=
  [{ start := 4, size := 4, data := none, read := fun i => .ofNat (20 + i), free_fn := false },
    { start := 0, size := 4, data := none, read := fun i => .ofNat (10 + i), free_fn := false }]

def split_run : List Op := [.unmap 2 3, .map 2 1 6, .read 1 2, .find 3, .unmap 8 18446744073709551608]

def kdump_chunk : Add :=
  { start := 0, size := 2097152, data := none, free_fn := false
    read := fun i => if i = 0x1041d ∨ i = 0x10425 then 0x10 else 0 }

theorem kdump_chunk_area : KdumpArea [kdump_chunk] := by
  have hbase : kdump_base [kdump_chunk] = 1048576 := by decide
  have hsize : kdump_size [kdump_chunk] = 1048576 := by decide
  have hhas : ∀ x < 2097152, ∃ a ∈ [kdump_chunk], a.Has x := fun x hx =>
    ⟨kdump_chunk, List.mem_cons_self, Nat.zero_le x, Nat.le_of_lt_succ hx⟩
  constructor
  · exact fun i hi => hhas _ (by omega)
  · rw [hbase]
    exact ⟨by decide, by decide⟩
  · rw [hsize]
    exact ⟨by decide, by decide⟩
  · rw [hbase, hsize]
    exact ⟨by decide, by decide⟩
  · rw [hbase, hsize]
    exact fun i hi => hhas _ (by omega)
  · intro a ha _ _
    rw [List.mem_singleton.mp ha]
    rfl

theorem memory_map_split_run :
    (∃ t, exec step (initial two_chunks) split_run = some t ∧ Good (add_chunks two_chunks).mem_phys.chunk_list t) ∧
    ∃ s', kdump_init .prod (add_chunks [kdump_chunk]) = .ok s' ∧ Good (add_chunks [kdump_chunk]).mem_phys.chunk_list
      { state := s', map := prod_map [kdump_chunk], sorted := true } := by
  have hp : ∀ a ∈ two_chunks, a.Proper := by
    intro a ha
    rcases List.mem_cons.mp ha with rfl | ha
    · exact ⟨by decide, by decide, by decide⟩
    · cases List.mem_singleton.mp ha
      exact ⟨by decide, by decide, by decide⟩
  have hd : two_chunks.Pairwise Add.Disjoint := by
    refine List.pairwise_cons.mpr ⟨fun b hb => ?_, List.pairwise_singleton ..⟩
    cases List.mem_singleton.mp hb
    exact Or.inr (by decide)
  have hk : ∀ a ∈ [kdump_chunk], a.Proper := by
    intro a ha
    rw [List.mem_singleton.mp ha]
    exact ⟨by decide, by decide, by decide⟩
  have hmeets : Admissible step Meets (initial two_chunks) split_run := by decide
  exact ⟨((memory_map two_chunks (by decide) hp hd).1 split_run (by decide)).2 hmeets,
    (memory_map [kdump_chunk] (by decide) hk (List.pairwise_singleton ..)).2.2 kdump_chunk_area⟩

def elf_chunk : List Add := [{ start := 0, size := 4, data := some 0, read := fun i => .ofNat i, free_fn := true }]

def fault {α : Type} : Except Fault α → Option Fault
  | .error e => some e
  | .ok _ => none

/-- Unmapping a part of the segment frees data that the rest still reads through, unmapping the chunk in the
cache leaves the cache to a chunk that is freed, and unmapping up to the last address leaves everything mapped. -/
theorem memory_map_freed :
    fault (dfi_mem_read 2 1 (mem_unmap 0 2 (add_chunks elf_chunk))) = some .use_after_free ∧
      fault (dfi_mem_chunk_find 5 (mem_unmap 0 4 (add_chunks two_chunks))) = some .use_after_free ∧
      (dfi_mem_chunk_find 5 (mem_unmap 4 18446744073709551612 (add_chunks two_chunks))).toOption.map
        (fun r => r.1.isSome) = some true := by
  decide

end Zdump.Memory
