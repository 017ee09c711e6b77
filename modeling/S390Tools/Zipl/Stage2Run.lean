import S390Tools.Zipl.Stage2
import S390Tools.Zipl.BootMap

/-!
# What the stage 2 boot loader loads

A pointer is loaded block by block. On FBA disks the blocks are read in batches of
128, and a pointer whose count is a positive multiple of 128 loses its last block.
-/

namespace Zipl

open Word

/-! ## Consecutive blocks -/

def Addr.run (a : Addr) (n : Nat) : List Addr := (List.range n).map a.add

theorem Addr.add_zero (a : Addr) : a.add 0 = a := by
  cases a <;> rfl

theorem Addr.add_add (a : Addr) (i j : Nat) : (a.add i).add j = a.add (i + j) := by
  cases a <;> simp [Addr.add, Nat.add_assoc]

theorem Addr.run_add (a : Addr) (n k : Nat) : a.run (n + k) = a.run n ++ (a.add n).run k := by
  simp only [Addr.run, List.range_add, List.map_append, List.map_map]
  congr 1
  exact List.map_congr_left fun i _ => (Addr.add_add a n i).symm

theorem Addr.run_succ (a : Addr) (n : Nat) : a.run (n + 1) = a :: (a.add 1).run n := by
  rw [Nat.add_comm, Addr.run_add]
  simp [Addr.run, Addr.add_zero]

theorem Addr.length_run (a : Addr) (n : Nat) : (a.run n).length = n := by
  simp [Addr.run]

def fba_count (blockct : Nat) : Nat :=
  if 0 < blockct ∧ blockct % MAX_BLOCKCT = 0 then blockct else blockct + 1

def StoredPtr.loaded : StoredPtr → List Addr
  | .linear blockno _ blockct => (Addr.linear blockno).run (fba_count blockct)
  | .eckd cyl head sec _ blockct => (Addr.eckd cyl head sec).run (blockct + 1)

theorem Store.ptr_setPtr (m : Store) (p : StoredPtr) (loc : Loc) : (m.setPtr p loc).ptr loc = p := by
  cases loc with
  | descr => rfl
  | slot k => exact Function.update_self ..

theorem Store.setPtr_setPtr (m : Store) (p q : StoredPtr) (mem : Nat → UInt8) (loc : Loc) :
    Store.setPtr { m.setPtr p loc with mem } q loc = { m.setPtr q loc with mem } := by
  cases loc with
  | descr => rfl
  | slot k => simp [Store.setPtr]

theorem Store.ptr_mem (m : Store) (mem : Nat → UInt8) (loc : Loc) : Store.ptr { m with mem } loc = m.ptr loc := by
  cases loc <;> rfl

theorem Store.setPtr_mem (m : Store) (p : StoredPtr) (loc : Loc) : (m.setPtr p loc).mem = m.mem := by
  cases loc <;> rfl

theorem Store.page_setPtr_of_ne (m : Store) (p : StoredPtr) {j k : Nat} (h : j ≠ k) :
    (m.setPtr p (.slot k)).page j = m.page j :=
  Function.update_of_ne h ..

/-! ## Channel programs -/

section
variable {disk : Disk} {S : Nat} {content : Addr → Nat → UInt8}

theorem fba_reads_eq : ∀ (r : Nat) {b lo e a : Nat} {pos : Position} {m : Store},
    pos.extent = some (b, e) → lo + r ≤ e →
    (∀ x ∈ (Addr.linear (b + lo)).run (r + 1), disk x = some (.data (content x))) →
    start_io disk (fba_reads S r lo (.mem a)) false pos m =
      some { m with mem := Blocks.writeAll S (((Addr.linear (b + lo)).run (r + 1)).map content) a m.mem }
  | 0, b, lo, e, a, pos, m, hp, he, hd => by
    rw [Addr.run_succ] at hd ⊢
    have hb := hd _ List.mem_cons_self
    simp only [fba_reads, start_io, Cmd.exec, hp, if_pos (show lo ≤ e by omega), read_next, hb, Option.bind_some,
      transfer, Option.map_some, if_true]
    rfl
  | r + 1, b, lo, e, a, pos, m, hp, he, hd => by
    rw [Addr.run_succ] at hd ⊢
    have hb := hd _ List.mem_cons_self
    have ih := @fba_reads_eq r b (lo + 1) e (a + S) { extent := some (b, e), track := pos.track } { m with
        mem := Blocks.write S (content (.linear (b + lo))) a m.mem } rfl (by omega)
      fun x hx => hd x (List.mem_cons_of_mem _ hx)
    simp only [fba_reads, start_io, Cmd.exec, hp, if_pos (show lo ≤ e by omega), read_next, hb, Option.bind_some,
      transfer, Option.map_some, if_true, Dest.add]
    rw [ih]
    rfl

theorem fba_ccws_eq {b r a : Nat} {m : Store} (hb : b < 4294967296)
    (hd : ∀ x ∈ (Addr.linear b).run (r + 1), disk x = some (.data (content x))) :
    start_io disk (fba_ccws S b r (.mem a)) false {} m =
      some { m with mem := Blocks.writeAll S (((Addr.linear b).run (r + 1)).map content) a m.mem } := by
  have hu : u32 (b : Int) = b := by apply u32_eq <;> omega
  simp only [fba_ccws, start_io, Cmd.exec, if_true, hu]
  exact @fba_reads_eq _ _ _ r b 0 _ _ _ _ rfl (by omega) hd

theorem eckd_reads_eq : ∀ (r : Nat) {x : Addr} {a : Nat} {pos : Position} {m : Store}, pos.next = some x →
    (∀ y ∈ x.run (r + 1), disk y = some (.data (content y))) →
    start_io disk (eckd_reads S r (.mem a)) false pos m =
      some { m with mem := Blocks.writeAll S ((x.run (r + 1)).map content) a m.mem }
  | 0, x, a, pos, m, hp, hd => by
    rw [Addr.run_succ] at hd ⊢
    have hb := hd _ List.mem_cons_self
    simp only [eckd_reads, start_io, Cmd.exec, hp, read_next, hb, Option.bind_some, transfer, Option.map_some]
    rfl
  | r + 1, x, a, pos, m, hp, hd => by
    rw [Addr.run_succ] at hd ⊢
    have hb := hd _ List.mem_cons_self
    have ih := @eckd_reads_eq r (x.add 1) (a + S) { pos with next := some (x.add 1) }
      { m with mem := Blocks.write S (content x) a m.mem } rfl fun y hy => hd y (List.mem_cons_of_mem _ hy)
    simp only [eckd_reads, start_io, Cmd.exec, hp, read_next, hb, Option.bind_some, transfer,
      Option.map_some, if_true,
      Dest.add]
    rw [ih]
    rfl

theorem eckd_ccws_eq {cyl head sec r a : Nat} {m : Store}
    (hd : ∀ x ∈ (Addr.eckd cyl head sec).run (r + 1), disk x = some (.data (content x))) :
    start_io disk (eckd_ccws cyl head sec S r (.mem a)) false {} m =
      some { m with mem := Blocks.writeAll S (((Addr.eckd cyl head sec).run (r + 1)).map content) a m.mem } := by
  simp only [eckd_ccws, start_io, Cmd.exec, if_true]
  exact eckd_reads_eq r rfl hd

/-! ## Pointers to data -/

theorem load_direct_fba_eq : ∀ {batches b c a : Nat} {m : Store} {loc : Loc}, m.ptr loc = .linear b S c →
    c < MAX_BLOCKCT * batches → b + c < 4294967296 →
    (∀ x ∈ (Addr.linear b).run (c + 1), disk x = some (.data (content x))) →
    ∃ p, load_direct_fba disk loc batches (.mem a) m =
      some ({ m.setPtr p loc with
          mem := Blocks.writeAll S (((Addr.linear b).run (fba_count c)).map content) a m.mem },
        .mem (a + S * fba_count c))
  | 0, b, c, a, m, loc, _, hc, _, _ => absurd hc (by simp)
  | batches + 1, b, c, a, m, loc, hp, hc, hb, hd => by
    rw [MAX_BLOCKCT] at hc
    rw [load_direct_fba, hp]
    by_cases hbig : c ≥ MAX_BLOCKCT
    · have h128 : 128 ≤ c := hbig
      have hrun : ∀ x ∈ (Addr.linear b).run (127 + 1), disk x = some (.data (content x)) := fun x hx => hd x <| by
        rw [show c + 1 = 128 + (c - 127) by omega, Addr.run_add]
        exact List.mem_append_left _ hx
      have hu : u64 ((b + (127 + 1) : Nat) : Int) = b + 128 := by apply u64_eq <;> omega
      have hio := fba_ccws_eq (S := S) (a := a) (m := m.setPtr (.linear (b + 128) S (c - 128)) loc) (by omega) hrun
      simp only [if_pos hbig]
      simp only [MAX_BLOCKCT] at hu hio ⊢
      rw [hu, hio]
      simp only [Store.ptr_mem, Store.ptr_setPtr, StoredPtr.blockct, Dest.add, Store.setPtr_mem]
      by_cases hmore : c - 128 > 0
      · obtain ⟨p, hrest⟩ := @load_direct_fba_eq batches (b + 128) (c - 128) (a + 128 * S)
          { m.setPtr (.linear (b + 128) S (c - 128)) loc with
            mem := Blocks.writeAll S (((Addr.linear b).run 128).map content) a m.mem } loc
          (by rw [Store.ptr_mem, Store.ptr_setPtr]) (by rw [MAX_BLOCKCT]; omega) (by omega) fun x hx => hd x <| by
            rw [show c + 1 = 128 + (c - 128 + 1) by omega, Addr.run_add]
            exact List.mem_append_right _ hx
        have hcount : fba_count c = 128 + fba_count (c - 128) := by
          unfold fba_count MAX_BLOCKCT
          split <;> split <;> omega
        refine ⟨p, ?_⟩
        rw [if_pos hmore, hrest, Store.setPtr_setPtr, hcount, Addr.run_add, List.map_append, Blocks.writeAll_append,
          List.length_map, Addr.length_run, Nat.mul_comm 128 S, Nat.mul_add, Nat.add_assoc]
        rfl
      · have hcount : fba_count c = 128 := by
          unfold fba_count MAX_BLOCKCT
          rw [if_pos (by omega)]
          omega
        refine ⟨.linear (b + 128) S (c - 128), ?_⟩
        rw [if_neg hmore, hcount, Nat.mul_comm 128 S]
    · have h128 : c < 128 := Nat.lt_of_not_le hbig
      have hcount : fba_count c = c + 1 := by
        unfold fba_count MAX_BLOCKCT
        rw [if_neg (by omega)]
      have hio := fba_ccws_eq (S := S) (a := a)
        (m := m.setPtr (.linear (u64 ((b + (c + 1) : Nat) : Int)) S (c - c)) loc)
        (by omega) hd
      simp only [if_neg hbig]
      rw [hio]
      simp only [Store.ptr_mem, Store.ptr_setPtr, StoredPtr.blockct, Dest.add, Nat.sub_self, lt_irrefl, if_false,
        Store.setPtr_mem, hcount]
      exact ⟨_, by rw [Nat.mul_comm (c + 1) S]⟩

theorem load_direct_eckd_eq {cyl head sec c a : Nat} {m : Store} {loc : Loc}
    (hp : m.ptr loc = .eckd cyl head sec S c)
    (hd : ∀ x ∈ (Addr.eckd cyl head sec).run (c + 1), disk x = some (.data (content x))) :
    load_direct_eckd disk loc (.mem a) m =
      some ({ m with mem := Blocks.writeAll S (((Addr.eckd cyl head sec).run (c + 1)).map content) a m.mem },
        .mem (a + S * (c + 1))) := by
  rw [load_direct_eckd, hp]
  simp only [eckd_ccws_eq (S := S) (a := a) (m := m) hd, Option.map_some, Dest.add, Nat.mul_comm (c + 1) S]

/-! ## Tables -/

/-- The pointer to a table: one block, found where the disk says. -/
def LinkTo (dasd : Dasd) (S : Nat) : StoredPtr → Prop
  | .linear b size c => dasd = .fba ∧ b < 4294967296 ∧ size = S ∧ c = 0
  | .eckd _ _ _ size c => dasd = .eckd ∧ size = S ∧ c = 0

theorem LinkTo.blockct {dasd : Dasd} {p : StoredPtr} (h : LinkTo dasd S p) : p.blockct = 0 := by
  cases p with
  | linear => exact h.2.2.2
  | eckd => exact h.2.2

theorem LinkTo.size {dasd : Dasd} {p : StoredPtr} (h : LinkTo dasd S p) : p.size = S := by
  cases p with
  | linear => exact h.2.2.1
  | eckd => exact h.2.1

def Store.overlay (m : Store) (S : Nat) (t : Table) : Store :=
  { m with page := fun k => if k < S / 16 then t k else m.page k }

theorem transfer_table (t : Table) (m : Store) : transfer S (.table t) (.page 0) m = some (m.overlay S t) := by
  simp [transfer, Store.overlay]

theorem blockct_overlay {m : Store} {loc : Loc} {t : Table} (hm : (m.ptr loc).blockct = 0)
    (ht : ∀ k, loc = .slot k → (t k).blockct = 0) : ((m.overlay S t).ptr loc).blockct = 0 := by
  cases loc with
  | descr => exact hm
  | slot k =>
    simp only [Store.ptr, Store.overlay]
    split
    · exact ht k rfl
    · exact hm

theorem load_direct_table {dasd : Dasd} {batches : Nat} {m : Store} {loc : Loc} {t : Table}
    (hl : LinkTo dasd S (m.ptr loc))
    (hd : disk (m.ptr loc).addr = some (.table t)) (ht : ∀ k, loc = .slot k → (t k).blockct = 0) :
    ∃ m' dest, load_direct dasd disk (batches + 1) loc (.page 0) m = some (m', dest) ∧ m'.mem = m.mem ∧
      ∀ j, j < S / 16 → m'.page j = t j := by
  cases hp : m.ptr loc with
  | linear b size c =>
    rw [hp] at hl hd
    obtain ⟨rfl, hb, rfl, rfl⟩ := hl
    have hu : u32 (b : Int) = b := by apply u32_eq <;> omega
    rw [StoredPtr.addr] at hd
    have hio : ∀ m, start_io disk (fba_ccws size b 0 (.page 0)) false {} m = some (m.overlay size t) := fun m => by
      simp only [fba_ccws, fba_reads, start_io, Cmd.exec, if_true, hu, le_refl, Nat.add_zero, read_next, hd,
        Option.bind_some, transfer_table, Option.map_some]
      rfl
    generalize hm1 : m.setPtr (.linear (u64 ((b + (0 + 1) : Nat) : Int)) size 0) loc = m1
    have hzero : (m1.ptr loc).blockct = 0 := by
      rw [← hm1, Store.ptr_setPtr]
      rfl
    refine ⟨m1.overlay size t, (Dest.page 0).add ((0 + 1) * size), ?_, ?_, ?_⟩
    · rw [load_direct, load_direct_fba, hp]
      simp only [MAX_BLOCKCT, ge_iff_le, Nat.reduceLeDiff, if_false, Nat.sub_self, hm1, hio, gt_iff_lt,
        blockct_overlay hzero ht, lt_irrefl]
    · rw [← hm1]
      exact Store.setPtr_mem m _ loc
    · intro j hj
      exact if_pos hj
  | eckd cyl head sec size c =>
    rw [hp] at hl hd
    obtain ⟨rfl, rfl, rfl⟩ := hl
    rw [StoredPtr.addr] at hd
    have hio : start_io disk (eckd_ccws cyl head sec size 0 (.page 0)) false {} m = some (m.overlay size t) := by
      simp only [eckd_ccws, eckd_reads, start_io, Cmd.exec, if_true, read_next, hd,
        Option.bind_some, transfer_table,
        Option.map_some]
      rfl
    refine ⟨m.overlay size t, (Dest.page 0).add ((0 + 1) * size), ?_, rfl, fun j hj => if_pos hj⟩
    rw [load_direct, load_direct_eckd, hp]
    simp only [hio, Option.map_some]

/-! ## Pointers of a table -/

/-- The pointer is of the kind the loader is built for, and its numbers fit into a channel program. -/
def OfKind (dasd : Dasd) (batches : Nat) : StoredPtr → Prop
  | .linear b _ c => dasd = .fba ∧ b + c < 4294967296 ∧ c < MAX_BLOCKCT * batches
  | .eckd .. => dasd = .eckd

structure Loadable (dasd : Dasd) (disk : Disk) (batches S : Nat) (content : Addr → Nat → UInt8)
    (p : StoredPtr) : Prop where
  size : p.size = S
  zero : is_zero_block p = true
  data : ∀ x ∈ p.blocks, disk x = some (.data (content x))
  kind : OfKind dasd batches p

variable {dasd : Dasd} {batches : Nat}

theorem load_slot_eq {k a : Nat} {m : Store} (h : Loadable dasd disk batches S content (m.page k)) :
    ∃ m', load_slot dasd disk batches k a m = some (m', a + S * (m.page k).loaded.length) ∧
      m'.mem = Blocks.writeAll S ((m.page k).loaded.map content) a m.mem ∧ ∀ j, j ≠ k → m'.page j = m.page j := by
  obtain ⟨hsize, hzero, hdata, hkind⟩ := h
  rw [load_slot, hzero]
  cases hp : m.page k with
  | linear b size c =>
    rw [hp] at hsize hdata hkind
    obtain ⟨rfl, hb, hc⟩ := hkind
    rw [StoredPtr.size] at hsize
    subst hsize
    obtain ⟨p, hload⟩ := load_direct_fba_eq (a := a) (show m.ptr (.slot k) = _ from hp) hc hb hdata
    refine ⟨{ m.setPtr p (.slot k) with
      mem := Blocks.writeAll size (((Addr.linear b).run (fba_count c)).map content) a m.mem }, ?_, rfl,
      fun j hj => m.page_setPtr_of_ne p hj⟩
    rw [load_direct, hload, StoredPtr.loaded, Addr.length_run]
    rfl
  | eckd cyl head sec size c =>
    rw [hp] at hsize hdata hkind
    obtain rfl := hkind
    rw [StoredPtr.size] at hsize
    subst hsize
    have hload := load_direct_eckd_eq (a := a) (show m.ptr (.slot k) = _ from hp) hdata
    refine ⟨{ m with
      mem := Blocks.writeAll size (((Addr.eckd cyl head sec).run (c + 1)).map content) a m.mem },
        ?_, rfl, fun _ _ => rfl⟩
    rw [load_direct, hload, StoredPtr.loaded, Addr.length_run]
    rfl

def loads (S : Nat) (content : Addr → Nat → UInt8) (es : List StoredPtr) (a : Nat)
    (mem : Nat → UInt8) : Nat → UInt8 :=
  Blocks.writeAll S ((es.flatMap StoredPtr.loaded).map content) a mem

def loadedLength (es : List StoredPtr) : Nat := (es.flatMap StoredPtr.loaded).length

theorem loads_cons (p : StoredPtr) (es : List StoredPtr) (a : Nat) (mem : Nat → UInt8) :
    loads S content (p :: es) a mem =
      loads S content es (a + S * p.loaded.length) (Blocks.writeAll S (p.loaded.map content) a mem) := by
  rw [loads, List.flatMap_cons, List.map_append, Blocks.writeAll_append, List.length_map]
  rfl

theorem loads_append (es fs : List StoredPtr) (a : Nat) (mem : Nat → UInt8) :
    loads S content (es ++ fs) a mem = loads S content fs (a + S * loadedLength es) (loads S content es a mem) := by
  rw [loads, List.flatMap_append, List.map_append, Blocks.writeAll_append, List.length_map]
  rfl

theorem load_table_eq {t : Table} {rest : Option (List StoredPtr)} : ∀ {n k a : Nat} {m : Store}
    {es : List StoredPtr},
    (∀ j, k ≤ j → j < k + n → m.page j = t j) → readTable t rest n k = some es →
    (∀ p ∈ es, Loadable dasd disk batches S content p) →
    ∃ m' es₁ stop, load_table dasd disk batches n k a m = some (m', a + S * loadedLength es₁, stop) ∧
      m'.mem = loads S content es₁ a m.mem ∧ (∀ j, k + n ≤ j → m'.page j = m.page j) ∧
      (stop = none ∧ es = es₁ ∨ stop = some (k + n) ∧ ∃ es₂, rest = some es₂ ∧ es = es₁ ++ es₂)
  | 0, k, a, m, es, _, hr, _ => ⟨m, [], some k, rfl, rfl, fun _ _ => rfl, .inr ⟨rfl, es, hr, rfl⟩⟩
  | n + 1, k, a, m, es, hm, hr, hg => by
    have hk := hm k (le_refl k) (by omega)
    rw [readTable] at hr
    rw [load_table, hk]
    by_cases hnull : is_null_descriptor (t k) = true
    · rw [if_pos hnull] at hr ⊢
      cases hr
      exact ⟨m, [], none, rfl, rfl, fun _ _ => rfl, .inl ⟨rfl, rfl⟩⟩
    · rw [if_neg hnull] at hr ⊢
      obtain ⟨es', hr', rfl⟩ := Option.map_eq_some_iff.mp hr
      obtain ⟨m₁, hslot, hmem, hpage⟩ := load_slot_eq (a := a) (m := m) (k := k) (hk ▸ hg _ List.mem_cons_self)
      rw [hk] at hslot hmem
      obtain ⟨m', es₁, stop, hload, hmem', hpage', hstop⟩ := load_table_eq (k := k + 1)
        (a := a + S * (t k).loaded.length)
        (m := m₁) (fun j h₁ h₂ => (hpage j (by omega)).trans (hm j (by omega) (by omega))) hr'
        (fun p hp => hg p (List.mem_cons_of_mem _ hp))
      rw [hslot]
      refine ⟨m', t k :: es₁, stop, ?_, ?_, fun j hj => ?_, ?_⟩
      · simp only [hload, loadedLength, List.flatMap_cons, List.length_append, Nat.mul_add, Nat.add_assoc]
      · rw [hmem', loads_cons, hmem]
      · rw [hpage' j (by omega), hpage j (by omega)]
      · rw [show k + (n + 1) = k + 1 + n by omega]
        rcases hstop with ⟨h₁, rfl⟩ | ⟨h₁, es₂, h₂, rfl⟩
        · exact .inl ⟨h₁, rfl⟩
        · exact .inr ⟨h₁, es₂, h₂, rfl⟩

theorem LinkTo.nr_descr {p : StoredPtr} (h : LinkTo dasd S p) :
    extract_length p / DESCR_PER_BLOCK - 1 = S / 16 - 1 := by
  rw [extract_length, h.size, h.blockct, Nat.zero_add, Nat.mul_one, DESCR_PER_BLOCK]

/-- The link of a table ends the chain or leads to one more table. -/
def Linked (dasd : Dasd) (S : Nat) (p : StoredPtr) : Prop :=
  p.blockct = 0 ∧ (is_null_descriptor p = false → LinkTo dasd S p)

theorem load_tables_eq {info : DiskInfo} (hS : S / 16 - 1 = max_offset info) (hM : 0 < max_offset info)
    {tbls : Addr → Option Table} (hd : ∀ a t, tbls a = some t → disk a = some (.table t))
    (hl : ∀ a t, tbls a = some t → Linked dasd S (t (max_offset info))) :
    ∀ {tables : Nat} {loc : Loc} {a : Nat} {m : Store} {es : List StoredPtr},
      loc = .descr ∨ loc = .slot (max_offset info) → LinkTo dasd S (m.ptr loc) →
        is_null_descriptor (m.ptr loc) = false →
      readChain info tbls tables (m.ptr loc) = some es → (∀ p ∈ es, Loadable dasd disk (batches + 1) S content p) →
      ∃ m', load_tables dasd disk (batches + 1) tables loc a m = some (m', a + S * loadedLength es) ∧
        m'.mem = loads S content es a m.mem
  | 0, loc, a, m, es, _, _, hnull, hr, _ => by
    rw [readChain, hnull] at hr
    cases hr
  | tables + 1, loc, a, m, es, hloc, hlink, hnull, hr, hg => by
    rw [readChain, hnull, if_neg (by decide)] at hr
    cases ht : tbls (m.ptr loc).addr with
    | none =>
      rw [ht] at hr
      cases hr
    | some t =>
      rw [ht] at hr
      have hslot : ∀ k, loc = .slot k → (t k).blockct = 0 := by
        intro k hk
        rcases hloc with rfl | rfl
        · cases hk
        · cases hk
          exact (hl _ _ ht).1
      obtain ⟨m₁, dest, hdirect, hmem₁, hpage₁⟩ := @load_direct_table _ _ _ batches _ _ _ hlink (hd _ _ ht) hslot
      have hpage : ∀ j, 0 ≤ j → j < 0 + max_offset info → m₁.page j = t j := fun j _ hj => hpage₁ j (by omega)
      obtain ⟨m₂, es₁, stop, htable, hmem₂, hpage₂, hstop⟩ := load_table_eq (a := a) hpage hr hg
      rw [load_tables, hlink.nr_descr, hS]
      simp only [hdirect, htable]
      rcases hstop with ⟨rfl, rfl⟩ | ⟨rfl, es₂, hrest, rfl⟩
      · exact ⟨m₂, rfl, by rw [hmem₂, hmem₁]⟩
      · have hlast : m₂.page (max_offset info) = t (max_offset info) := by
          rw [hpage₂ _ (by omega), hpage₁ _ (by omega)]
        simp only [Nat.zero_add, hlast]
        by_cases hend : is_null_descriptor (t (max_offset info)) = true
        · have hes₂ : es₂ = [] := by
            cases tables <;> (rw [readChain, if_pos hend] at hrest; cases hrest; rfl)
          rw [if_pos hend, hes₂, List.append_nil]
          exact ⟨m₂, rfl, by rw [hmem₂, hmem₁]⟩
        · have hend' : is_null_descriptor (t (max_offset info)) = false := by simpa using hend
          obtain ⟨m', hload, hmem'⟩ := @load_tables_eq info hS hM tbls hd hl tables (.slot (max_offset info))
            (a + S * loadedLength es₁) m₂ es₂ (.inr rfl) (by
              rw [Store.ptr, hlast]
              exact (hl _ _ ht).2 hend') (by rw [Store.ptr, hlast, hend']) (by rw [Store.ptr, hlast, hrest])
            fun p hp => hg p (List.mem_append_right _ hp)
          refine ⟨m', ?_, ?_⟩
          · rw [if_neg hend, hload, loadedLength, loadedLength, loadedLength, List.flatMap_append,
              List.length_append,
              Nat.mul_add, Nat.add_assoc]
          · rw [hmem', hmem₂, hmem₁, loads_append]

end

end Zipl
