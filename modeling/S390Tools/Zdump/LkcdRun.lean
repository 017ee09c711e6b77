import S390Tools.Zdump.LkcdRead

/-!
# Runs of reads on an LKCD dump

The reads of a program run on the chunks that `mem_init_flex` added. They give
back the stored pages exactly if each page that is read has a stored page in its
64 KiB and one at or behind it, if the first one is not the page 1, and if the
chunks have all stored pages.
-/

namespace Zdump.Lkcd

open Stdio Word

variable {uncompress : Bytes → Bytes}

/-! ## Bytes of pages -/

section
variable (d : Dump uncompress)

theorem length_page_data (n : Nat) : (d.page_data n).length = PAGE_SIZE := by
  rw [Dump.page_data]
  split
  · rename_i p hp
    exact (d.stored p (List.mem_of_find?_eq_some hp)).length
  · exact List.length_replicate

theorem page_piece {addr size : Nat} (h : addr % PAGE_SIZE + size ≤ PAGE_SIZE) :
    ((d.page_data (addr / PAGE_SIZE)).drop (addr % PAGE_SIZE)).take size = (List.range' addr size).map d.byte := by
  have hlen := length_page_data d (addr / PAGE_SIZE)
  refine List.ext_getElem ?_ fun i h1 h2 => ?_
  · rw [List.length_take, List.length_drop, List.length_map, List.length_range', hlen]
    omega
  · rw [List.length_map, List.length_range'] at h2
    have hdiv : (addr + i) / PAGE_SIZE = addr / PAGE_SIZE := by
      rw [PAGE_SIZE] at h ⊢
      omega
    have hmod : (addr + i) % PAGE_SIZE = addr % PAGE_SIZE + i := by
      rw [PAGE_SIZE] at h ⊢
      omega
    rw [List.getElem_take, List.getElem_drop, List.getElem_map, List.getElem_range', Nat.one_mul,
      Dump.byte, hdiv, hmod,
      List.getD_eq_getElem _ _ (by omega)]

end

/-! ## Addresses that are read one after the other -/

section
variable {d : Dump uncompress} {s s' : State}

def Fine (d : Dump uncompress) (s : State) (addrs : List Nat) : Prop :=
  (∀ a ∈ addrs, d.Covered (a / PAGE_SIZE)) ∧ (s = d.fresh → ∀ a, addrs.head? = some a → a / PAGE_SIZE ≠ 1)

def After (d : Dump uncompress) (addrs : List Nat) (s s' : State) : Prop :=
  addrs = [] ∧ s' = s ∨ addrs ≠ [] ∧ InStream d s'

/-- Reading the addresses gives their bytes if they can be read, and fails or reads the end marker otherwise. -/
structure Outcome {α : Type} (d : Dump uncompress) (addrs : List Nat) (s : State) (value : α)
    (r : Except Fault (α × State)) : Prop where
  good : Fine d s addrs → ∃ s', r = .ok (value, s') ∧ After d addrs s s'
  bad : ¬Fine d s addrs → Bad d r

theorem InStream.reach_le (h : InStream d s) : s.reach ≤ d.end_pos := by
  obtain ⟨-, hreach⟩ := h
  exact hreach

theorem Ready.reach_le (h : Ready d s) : s.reach ≤ d.end_pos := by
  cases h with
  | fresh => exact Nat.zero_le _
  | inStream h => exact h.reach_le

theorem After.ready {addrs : List Nat} (h : After d addrs s s') (hs : Ready d s) : Ready d s' := by
  rcases h with ⟨-, rfl⟩ | ⟨-, h⟩
  · exact hs
  · exact .inStream h

theorem After.trans {as bs : List Nat} {t : State} (h : After d as s s') (h' : After d bs s' t) :
    After d (as ++ bs) s t := by
  rcases h with ⟨rfl, rfl⟩ | ⟨hne, hin⟩
  · exact h'
  · refine .inr ⟨by simp [hne], ?_⟩
    rcases h' with ⟨-, rfl⟩ | ⟨-, h'⟩
    · exact hin
    · exact h'

theorem fine_append {as bs : List Nat} (h : After d as s s') : Fine d s (as ++ bs) ↔ Fine d s as ∧
    Fine d s' bs := by
  rcases h with ⟨rfl, rfl⟩ | ⟨hne, hin⟩
  · refine ⟨fun hf => ⟨⟨fun _ h => absurd h List.not_mem_nil, fun _ _ h => nomatch h⟩, hf⟩, fun hf => hf.2⟩
  · have hhead : (as ++ bs).head? = as.head? := by
      cases as with
      | nil => exact absurd rfl hne
      | cons a as => rfl
    constructor
    · rintro ⟨hc, hfirst⟩
      rw [hhead] at hfirst
      exact ⟨⟨fun a ha => hc a (List.mem_append_left _ ha), hfirst⟩,
        fun a ha => hc a (List.mem_append_right _ ha), fun h => absurd h hin.ne_fresh⟩
    · rintro ⟨⟨hc, hfirst⟩, hc', -⟩
      refine ⟨fun a ha => (List.mem_append.mp ha).elim (hc a) (hc' a), ?_⟩
      rw [hhead]
      exact hfirst

theorem Fine.left {as bs : List Nat} (hf : Fine d s (as ++ bs)) : Fine d s as := by
  refine ⟨fun a ha => hf.1 a (List.mem_append_left _ ha), fun h a ha => hf.2 h a ?_⟩
  cases as with
  | nil => exact nomatch ha
  | cons x as => exact ha

end

/-! ## One read -/

section
variable {d : Dump uncompress}

theorem fine_piece {s : State} {addr size : Nat} (hpos : 0 < size) (h : addr % PAGE_SIZE + size ≤ PAGE_SIZE) :
    Fine d s (List.range' addr size) ↔ (s = d.fresh → addr / PAGE_SIZE ≠ 1) ∧ d.Covered (addr / PAGE_SIZE) := by
  have hmem : ∀ a ∈ List.range' addr size, a / PAGE_SIZE = addr / PAGE_SIZE := fun a ha => by
    rw [List.mem_range'_1] at ha
    rw [PAGE_SIZE] at h ⊢
    omega
  obtain ⟨size, rfl⟩ := Nat.exists_eq_succ_of_ne_zero (Nat.ne_of_gt hpos)
  have hhead : (List.range' addr (size + 1)).head? = some addr := rfl
  have haddr : addr ∈ List.range' addr (size + 1) := List.mem_of_mem_head? hhead
  constructor
  · rintro ⟨hc, hfirst⟩
    exact ⟨fun hs => hfirst hs addr hhead, hc addr haddr⟩
  · rintro ⟨hfirst, hc⟩
    refine ⟨fun a ha => (hmem a ha).symm ▸ hc, fun hs a ha => ?_⟩
    rw [show a = addr from (Option.some.inj (hhead.symm.trans ha)).symm]
    exact hfirst hs

theorem copy_pages_outcome (hidx : d.Indexed) : ∀ {steps addr left : Nat} {s : State} {buf : Bytes},
    Ready d s → left < steps →
    buf.length = PAGE_SIZE → addr + left ≤ d.mem_end →
    Outcome d (List.range' addr left) s ((List.range' addr left).map d.byte)
      (copy_pages uncompress d.index steps addr left buf s)
  | 0, _, _, _, _, _, hsteps, _, _ => absurd hsteps (Nat.not_lt_zero _)
  | steps + 1, addr, left, s, buf, hs, hsteps, hbuf, hend => by
    have hlimit := d.limit
    by_cases hleft : left = 0
    · subst hleft
      have hfine : Fine d s [] := ⟨fun _ h => absurd h List.not_mem_nil, fun _ _ h => nomatch h⟩
      rw [copy_pages, if_pos rfl]
      exact ⟨fun _ => ⟨s, rfl, .inl ⟨rfl, rfl⟩⟩, fun h => absurd hfine h⟩
    rw [copy_pages, if_neg hleft]
    dsimp only
    have hsize : 0 < min left (PAGE_SIZE - addr % PAGE_SIZE) ∧ min left (PAGE_SIZE - addr % PAGE_SIZE) ≤ left ∧
        addr % PAGE_SIZE + min left (PAGE_SIZE - addr % PAGE_SIZE) ≤ PAGE_SIZE := by
      rw [PAGE_SIZE]
      omega
    generalize min left (PAGE_SIZE - addr % PAGE_SIZE) = size at hsize ⊢
    obtain ⟨hpos, hle, hin⟩ := hsize
    have hn : addr / PAGE_SIZE * PAGE_SIZE < 18446744073709551616 := by
      have := Nat.div_mul_le_self addr PAGE_SIZE
      omega
    have hrange : List.range' addr left = List.range' addr size ++ List.range' (addr + size) (left - size) := by
      rw [List.range'_append_1, Nat.add_sub_cancel' hle]
    rw [hrange, List.map_append, ← page_piece d hin]
    by_cases hpage : (s = d.fresh → addr / PAGE_SIZE ≠ 1) ∧ d.Covered (addr / PAGE_SIZE)
    · obtain ⟨s₁, hread, hstream⟩ := read_page_good hidx hs hn hpage.1 hpage.2 hbuf
      have hafter : After d (List.range' addr size) s s₁ := .inr ⟨fun h => by simp at h; omega, hstream⟩
      have hfine := (fine_piece (s := s) hpos hin).mpr hpage
      have ih := @copy_pages_outcome hidx steps (addr + size)
        (left - size) s₁ (d.page_data (addr / PAGE_SIZE)) (.inStream hstream) (by omega)
        (length_page_data d (addr / PAGE_SIZE)) (by omega)
      rw [hread]
      dsimp only
      constructor
      · intro hf
        obtain ⟨s₂, hrest, hafter'⟩ := ih.good ((fine_append hafter).mp hf).2
        rw [hrest]
        exact ⟨s₂, rfl, hafter.trans hafter'⟩
      · intro hf x t h
        have hbad := ih.bad fun h => hf ((fine_append hafter).mpr ⟨hfine, h⟩)
        split at h
        · cases h
        · rename_i hrest
          cases h
          exact hbad _ _ hrest
    · have hbad := read_page_bad hs hn hpage hbuf
      refine ⟨fun hf => absurd ((fine_piece hpos hin).mp hf.left) hpage, fun _ x t h => ?_⟩
      split at h
      · cases h
      · rename_i hread
        split at h
        · cases h
        · rename_i hrest
          cases h
          exact Nat.lt_of_lt_of_le (hbad _ _ hread) (reach_copy_pages hrest)

end

/-! ## Sequences of reads -/

structure Read where
  chunk : MemChunk
  off : Nat
  cnt : Nat

def Read.addrs (r : Read) : List Nat := List.range' (r.chunk.start + r.off) r.cnt

def Read.Inside (r : Read) (chunks : List MemChunk) : Prop := r.chunk ∈ chunks ∧ r.off + r.cnt ≤ r.chunk.size

section
variable (uncompress)

def read_all (pg_hdr_idx : PageIndex) (pg_buf : Bytes) : List Read → State → Except Fault (List Bytes × State)
  | [], s => .ok ([], s)
  | r :: rs, s =>
    match dfi_lkcd_mem_chunk_read_fn uncompress pg_hdr_idx pg_buf r.chunk r.off r.cnt s with
    | .error e => .error e
    | .ok (b, s) =>
      match read_all pg_hdr_idx pg_buf rs s with
      | .error e => .error e
      | .ok (bs, s) => .ok (b :: bs, s)

end

section
variable {d : Dump uncompress} {pg_buf : Bytes}

theorem reach_read_all {idx : PageIndex} : ∀ {rs : List Read} {s s' : State} {bs : List Bytes},
    read_all uncompress idx pg_buf rs s = .ok (bs, s') → s.reach ≤ s'.reach
  | [], _, _, _, h => by
    cases h
    exact Nat.le_refl _
  | r :: rs, s, s', bs, h => by
    rw [read_all] at h
    split at h
    · cases h
    · rename_i hread
      split at h
      · cases h
      · rename_i hrest
        cases h
        exact Nat.le_trans (reach_copy_pages hread) (reach_read_all hrest)

theorem read_fn_outcome (hidx : d.Indexed) {s : State} {r : Read} (hs : Ready d s)
    (hbuf : pg_buf.length = PAGE_SIZE)
    (hr : r.Inside d.chunks) :
    Outcome d r.addrs s (r.addrs.map d.byte)
      (dfi_lkcd_mem_chunk_read_fn uncompress d.index pg_buf r.chunk r.off r.cnt s) := by
  have hstop := d.chunk_stop r.chunk hr.1
  have hcnt := hr.2
  have hlimit := d.limit
  have haddr : u64 ((r.off : Int) + r.chunk.start) = r.chunk.start + r.off := by
    rw [u64_of_lt (by omega) (by omega)]
    omega
  rw [dfi_lkcd_mem_chunk_read_fn, haddr]
  exact copy_pages_outcome hidx hs (Nat.lt_succ_self _) hbuf (by omega)

theorem read_all_outcome (hidx : d.Indexed) (hbuf : pg_buf.length = PAGE_SIZE) : ∀ {rs : List Read}
    {s : State}, Ready d s →
    (∀ r ∈ rs, r.Inside d.chunks) →
    Outcome d (rs.flatMap Read.addrs) s (rs.map fun r => r.addrs.map d.byte)
      (read_all uncompress d.index pg_buf rs s)
  | [], s, _, _ =>
    ⟨fun _ => ⟨s, rfl, .inl ⟨rfl, rfl⟩⟩, fun h =>
      absurd ⟨fun _ h => absurd h List.not_mem_nil, fun _ _ h => nomatch h⟩ h⟩
  | r :: rs, s, hs, hin => by
    have hone := read_fn_outcome hidx hs hbuf (hin r List.mem_cons_self)
    rw [List.flatMap_cons, List.map_cons, read_all]
    by_cases hf : Fine d s r.addrs
    · obtain ⟨s₁, hread, hafter⟩ := hone.good hf
      have ih := @read_all_outcome hidx hbuf rs _ (hafter.ready hs) fun r hr => hin r (List.mem_cons_of_mem _ hr)
      rw [hread]
      dsimp only
      constructor
      · intro hall
        obtain ⟨s₂, hrest, hafter'⟩ := ih.good ((fine_append hafter).mp hall).2
        rw [hrest]
        exact ⟨s₂, rfl, hafter.trans hafter'⟩
      · intro hall x t h
        have hbad := ih.bad fun h => hall ((fine_append hafter).mpr ⟨hf, h⟩)
        split at h
        · cases h
        · rename_i hrest
          cases h
          exact hbad _ _ hrest
    · refine ⟨fun hall => absurd hall.left hf, fun _ x t h => ?_⟩
      split at h
      · cases h
      · rename_i hread
        split at h
        · cases h
        · rename_i hrest
          cases h
          exact Nat.lt_of_lt_of_le (hone.bad hf _ _ hread) (reach_read_all hrest)

end

/-! ## Full dumps -/

def Dump.Full (d : Dump uncompress) : Prop :=
  ∀ n p, d.pages[n]? = some p → p.addr = n * PAGE_SIZE ∧ p.flags = DF_LKCD_DH_RAW

section
variable {d : Dump uncompress}

theorem Dump.Full.raw (hfull : d.Full) {p : Page} (hp : p ∈ d.pages) : p.payload = p.data := by
  obtain ⟨n, hn, rfl⟩ := List.mem_iff_getElem.mp hp
  have hraw := (hfull n _ (List.getElem?_eq_getElem hn)).2
  rcases (d.stored _ hp).kind with ⟨-, hdata⟩ | ⟨hcomp, -⟩
  · exact hdata
  · rw [hraw] at hcomp
    exact absurd hcomp (by decide)

theorem length_full {ps : List Page} (h : ∀ p ∈ ps, p.payload.length = PAGE_SIZE) :
    (pages_bytes ps).length = ps.length * DF_LKCD_UCP_SIZE := by
  induction ps with
  | nil => rfl
  | cons p ps ih =>
    rw [pages_bytes_cons, List.length_append, p.length_bytes, h p List.mem_cons_self,
      ih fun q hq => h q (List.mem_cons_of_mem p hq), List.length_cons, Nat.succ_mul, Nat.add_comm]
    exact congrArg (_ + ·) (Nat.add_comm _ _)

theorem read_page_full_eq (hfull : d.Full) {n : Nat} (hn : n < d.pages.length) {s : State}
    (hs : s.file.content = d.content) :
    ∃ s', read_page_full n s = .ok (d.page_data n, s') := by
  have hmem : d.pages[n] ∈ d.pages := List.getElem_mem hn
  have hlen : ∀ p ∈ d.pages, p.payload.length = PAGE_SIZE := fun p hp =>
    by rw [hfull.raw hp, (d.stored p hp).length]
  have hsplit : d.pages = d.pages.take n ++ d.pages[n] :: d.pages.drop (n + 1) := by
    rw [List.getElem_cons_drop, List.take_append_drop]
  have haddr := (hfull n _ (List.getElem?_eq_getElem hn)).1
  have hasc := d.ascending
  rw [hsplit] at hasc
  have hdata : d.page_data n = d.pages[n].payload := by
    rw [Dump.page_data_eq hsplit (fun p hp => ?_) (Nat.le_of_eq haddr.symm), if_pos haddr, hfull.raw hmem]
    rw [← haddr]
    exact (List.pairwise_append.mp hasc).2.2 p hp _ List.mem_cons_self
  have hpos : DF_LKCD_HDR_SIZE + n * DF_LKCD_UCP_SIZE + PG_HDR_SIZE =
      (d.header ++ (pages_bytes (d.pages.take n) ++ hdr_bytes d.pages[n].hdr)).length := by
    rw [List.length_append, List.length_append, d.header_length, length_hdr_bytes,
      length_full fun p hp => hlen p (List.mem_of_mem_take hp), List.length_take,
        Nat.min_eq_left (Nat.le_of_lt hn), Nat.add_assoc]
  have hcontent : s.file.content = (d.header ++ (pages_bytes (d.pages.take n) ++ hdr_bytes d.pages[n].hdr)) ++
      (d.pages[n].payload ++ (pages_bytes (d.pages.drop (n + 1)) ++ hdr_bytes d.marker)) := by
    have hbytes := congrArg pages_bytes hsplit
    rw [pages_bytes_append, pages_bytes_cons, Page.bytes] at hbytes
    rw [hs, Dump.content, hbytes]
    simp only [List.append_assoc]
  have hread := @zg_read_between (d.header ++ (pages_bytes (d.pages.take n) ++ hdr_bytes d.pages[n].hdr))
    (pages_bytes (d.pages.drop (n + 1)) ++ hdr_bytes d.marker) d.pages[n].payload
    (List.ne_nil_of_length_pos (by rw [hlen _ hmem]; decide)) s.page_last s.reach
  rw [hlen _ hmem] at hread
  rw [read_page_full, zg_seek, hpos, seek_between _ _ _ hcontent, hread, hdata]
  exact ⟨_, rfl⟩

end

/-! ## The dump reads back -/

section
variable (d : Dump uncompress) (pg_buf : Bytes) (reads : List Read)

/-- All stored pages lie in one chunk, and all reads give the bytes of the pages without reading the end marker. -/
def Dump.ReadsBack : Prop :=
  ∃ chunks idx f, mem_init_flex d.mem_end d.content = .ok (chunks, idx, f) ∧
    (∀ p ∈ d.pages, holders p.addr chunks = 1) ∧
    (∃ s, read_all uncompress idx pg_buf reads ⟨f, 0, 0⟩ =
      .ok (reads.map fun r => r.addrs.map d.byte, s) ∧ s.reach ≤ d.end_pos) ∧
    (d.Full → ∀ n < d.pages.length, ∀ s : State, s.file.content = d.content →
      ∃ s', read_page_full n s = .ok (d.page_data n, s'))

/-- The index was allocated for all pages, no page stands alone at the end, each page that is read has a
stored page in its 64 KiB and one at or behind it, and the first one is not the page 1. -/
def Dump.Sound : Prop :=
  d.Indexed ∧ ¬LastAlone d.pages ∧ (∀ r ∈ reads, ∀ a ∈ r.addrs, d.Covered (a / PAGE_SIZE)) ∧
    ∀ a, (reads.flatMap Read.addrs).head? = some a → a / PAGE_SIZE ≠ 1

variable {d pg_buf reads}

theorem Dump.sound_fine : (Fine d d.fresh (reads.flatMap Read.addrs) ↔
    (∀ r ∈ reads, ∀ a ∈ r.addrs, d.Covered (a / PAGE_SIZE)) ∧
    ∀ a, (reads.flatMap Read.addrs).head? = some a → a / PAGE_SIZE ≠ 1) := by
  constructor
  · rintro ⟨hc, hfirst⟩
    exact ⟨fun r hr a ha => hc a (List.mem_flatMap.mpr ⟨r, hr, ha⟩), hfirst rfl⟩
  · rintro ⟨hc, hfirst⟩
    refine ⟨fun a ha => ?_, fun _ => hfirst⟩
    obtain ⟨r, hr, har⟩ := List.mem_flatMap.mp ha
    exact hc r hr a har

theorem pages_read_back_iff (hbuf : pg_buf.length = PAGE_SIZE) (hin : ∀ r ∈ reads, r.Inside d.chunks) :
    d.ReadsBack pg_buf reads ↔ d.Sound reads := by
  have hinit := mem_init_flex_eq d
  by_cases hidx : d.Indexed
  · have hout := read_all_outcome hidx hbuf (.fresh (d := d)) hin
    rw [if_pos hidx] at hinit
    constructor
    · rintro ⟨chunks, idx, f, hok, hone, ⟨s, hread, hreach⟩, -⟩
      rw [hinit] at hok
      cases hok
      refine ⟨hidx, d.holders_iff.mp hone, Dump.sound_fine.mp (not_not.mp fun hf => ?_)⟩
      exact absurd (hout.bad hf _ _ hread) (Nat.not_lt_of_le hreach)
    · rintro ⟨-, halone, hfine⟩
      obtain ⟨s, hread, hafter⟩ := hout.good (Dump.sound_fine.mpr hfine)
      exact ⟨_, _, _, hinit, d.holders_iff.mpr halone, ⟨s, hread, (hafter.ready .fresh).reach_le⟩,
        fun hfull n hn s hs => read_page_full_eq hfull hn hs⟩
  · rw [if_neg hidx] at hinit
    refine iff_of_false ?_ fun h => hidx h.1
    rintro ⟨_, _, _, hok, -⟩
    rw [hinit] at hok
    exact nomatch hok

end

def two_pages : Dump id where
  mem_end := 8192
  header := List.replicate DF_LKCD_HDR_SIZE 0
  pages := [⟨0, DF_LKCD_DH_RAW, List.replicate PAGE_SIZE 1, List.replicate PAGE_SIZE 1⟩,
    ⟨4096, DF_LKCD_DH_RAW, List.replicate PAGE_SIZE 2, List.replicate PAGE_SIZE 2⟩]
  marker := ⟨0, 0, DF_LKCD_DH_END⟩
  limit := by decide
  header_length := List.length_replicate
  stored := by
    refine List.forall_mem_cons.mpr ⟨?_, List.forall_mem_singleton.mpr ?_⟩
    · exact ⟨rfl, by decide, List.length_replicate, Nat.le_of_eq List.length_replicate, .inl ⟨rfl, rfl⟩⟩
    · exact ⟨rfl, by decide, List.length_replicate, Nat.le_of_eq List.length_replicate, .inl ⟨rfl, rfl⟩⟩
  ascending := by simp
  ended := ⟨by decide, by decide, .inl rfl⟩

theorem two_pages_covered {n : Nat} (hn : n < 2) : two_pages.Covered n := by
  have h1 : n * PAGE_SIZE ≤ 4096 := by
    rw [PAGE_SIZE]
    omega
  refine ⟨⟨_, List.mem_cons_self, ?_⟩, _, List.mem_cons_of_mem _ List.mem_cons_self, h1⟩
  rw [ADDR_TO_IDX_eq, ADDR_TO_IDX_eq, Nat.div_eq_of_lt (show n * PAGE_SIZE < 65536 by omega)]
  rfl

theorem reads_back_two_pages : two_pages.ReadsBack (List.replicate PAGE_SIZE 0)
    [⟨⟨0, 8192⟩, 4090, 100⟩, ⟨⟨0, 8192⟩, 0, 8192⟩] := by
  refine (pages_read_back_iff List.length_replicate ?_).mpr ⟨?_, ?_, ?_, ?_⟩
  · intro r hr
    rcases List.mem_cons.mp hr with rfl | hr
    · exact ⟨by decide, by decide⟩
    · rw [List.mem_singleton.mp hr]
      exact ⟨by decide, by decide⟩
  · decide
  · show ¬Hole 0 4096
    decide
  · intro r hr a ha
    have hlt : a < 8192 := by
      rcases List.mem_cons.mp hr with rfl | hr
      · have hlt := (List.mem_range'_1.mp ha).2
        exact Nat.lt_of_lt_of_le hlt (by decide)
      · rw [List.mem_singleton.mp hr] at ha
        exact (List.mem_range'_1.mp ha).2
    exact two_pages_covered (by rw [PAGE_SIZE]; omega)
  · intro a ha
    cases ha
    decide

/-- The first read of the page 1 goes on behind the end marker, where `mem_init_flex` stopped. -/
theorem page_one_not_found : (∀ r ∈ [(⟨⟨0, 8192⟩, 4096, 1⟩ : Read)], r.Inside two_pages.chunks) ∧
    ¬two_pages.ReadsBack (List.replicate PAGE_SIZE 0) [⟨⟨0, 8192⟩, 4096, 1⟩] := by
  have hin : ∀ r ∈ [(⟨⟨0, 8192⟩, 4096, 1⟩ : Read)], r.Inside two_pages.chunks := by
    intro r hr
    rw [List.mem_singleton.mp hr]
    exact ⟨by decide, by decide⟩
  refine ⟨hin, ?_⟩
  rintro ⟨chunks, idx, f, hok, -, ⟨s, hread, hreach⟩, -⟩
  rw [mem_init_flex_eq, if_pos (show two_pages.Indexed by decide)] at hok
  cases hok
  have hout := @read_all_outcome _ two_pages (List.replicate PAGE_SIZE 0)
    (by decide) List.length_replicate _ _ .fresh hin
  refine absurd (hout.bad (fun hf => ?_) _ _ hread) (Nat.not_lt_of_le hreach)
  exact hf.2 rfl 4096 rfl rfl

end Zdump.Lkcd
