import S390Tools.Zdump.Lkcd

/-!
# Chunks and page index of an LKCD dump

`mem_init_flex` runs over the records of a dump. What it adds is computed here
from the addresses of the stored pages: the memory is divided at holes of more
than 1 MiB, and each 64 KiB with a stored page has the position of its first one.
-/

namespace Zdump.Lkcd

open Stdio Word

/-! ## Streams of pages -/

structure Page where
  addr : Nat
  flags : Nat
  payload : Bytes
  data : Bytes

def Page.hdr (p : Page) : PgHdr := ⟨p.addr, p.payload.length, p.flags⟩

def hdr_bytes (h : PgHdr) : Bytes := be 8 h.addr ++ be 4 h.size ++ be 4 h.flags

def Page.bytes (p : Page) : Bytes := hdr_bytes p.hdr ++ p.payload

def pages_bytes (ps : List Page) : Bytes := ps.flatMap Page.bytes

/-- The record holds the page raw, or compressed so that `uncompress` gives it back. -/
structure Page.Stored (uncompress : Bytes → Bytes) (mem_end : Nat) (p : Page) : Prop where
  aligned : p.addr % PAGE_SIZE = 0
  below : p.addr < mem_end
  length : p.data.length = PAGE_SIZE
  size : p.payload.length ≤ PAGE_SIZE
  kind : p.flags = DF_LKCD_DH_RAW ∧ p.payload = p.data ∨
    p.flags = DF_LKCD_DH_COMPRESSED ∧ p.payload ≠ [] ∧ uncompress p.payload = p.data

/-- The end markers: the flag, or the wrong marker of zfcpdump. -/
structure Marker (h : PgHdr) : Prop where
  addr : h.addr < 18446744073709551616
  size : h.size < 4294967296
  kind : h.flags = DF_LKCD_DH_END ∨ h.addr = 0 ∧ h.size = 4 ∧ h.flags = 0

/-- A flexible dump: the header, the pages with ascending addresses, and the end marker. -/
structure Dump (uncompress : Bytes → Bytes) where
  mem_end : Nat
  header : Bytes
  pages : List Page
  marker : PgHdr
  limit : mem_end < 18446744073709551616
  header_length : header.length = DF_LKCD_HDR_SIZE
  stored : ∀ p ∈ pages, p.Stored uncompress mem_end
  ascending : pages.Pairwise fun p q => p.addr < q.addr
  ended : Marker marker

variable {uncompress : Bytes → Bytes}

def Dump.content (d : Dump uncompress) : Bytes := d.header ++ (pages_bytes d.pages ++ hdr_bytes d.marker)

def Dump.end_pos (d : Dump uncompress) : Nat := (d.header ++ pages_bytes d.pages).length

@[simp] theorem length_hdr_bytes (h : PgHdr) : (hdr_bytes h).length = PG_HDR_SIZE := by
  simp only [hdr_bytes, List.length_append, length_be, PG_HDR_SIZE]

@[simp] theorem pages_bytes_nil : pages_bytes [] = [] := rfl

@[simp] theorem pages_bytes_cons (p : Page) (ps : List Page) : pages_bytes (p :: ps) = p.bytes ++
    pages_bytes ps := rfl

@[simp] theorem pages_bytes_append (ps qs : List Page) : pages_bytes (ps ++ qs) = pages_bytes ps ++
    pages_bytes qs :=
  List.flatMap_append ..

theorem Page.length_bytes (p : Page) : p.bytes.length = PG_HDR_SIZE + p.payload.length := by
  rw [Page.bytes, List.length_append, length_hdr_bytes]

theorem length_le_pages_bytes : ∀ ps : List Page, ps.length ≤ (pages_bytes ps).length
  | [] => Nat.le_refl 0
  | p :: ps => by
    have ih := length_le_pages_bytes ps
    rw [pages_bytes_cons, List.length_append, p.length_bytes, PG_HDR_SIZE, List.length_cons]
    omega

theorem pg_hdr_bytes {h : PgHdr} (ha : h.addr < 18446744073709551616) (hs : h.size < 4294967296)
    (hf : h.flags < 4294967296) : pg_hdr (hdr_bytes h) = h := by
  have h8 : (be 8 h.addr).length = 8 := length_be 8 _
  have h12 : (be 8 h.addr ++ be 4 h.size).length = 12 := by simp
  rw [pg_hdr, hdr_bytes, List.append_assoc, List.take_left' h8, List.drop_left' h8, List.take_left' (length_be 4 _),
    ← List.append_assoc, List.drop_left' h12, List.take_of_length_le (by simp), unbe_be, unbe_be, unbe_be,
    Nat.mod_eq_of_lt (by simpa using ha), Nat.mod_eq_of_lt (by simpa using hs),
      Nat.mod_eq_of_lt (by simpa using hf)]

theorem Marker.pg_hdr {h : PgHdr} (hm : Marker h) : pg_hdr (hdr_bytes h) = h := by
  refine pg_hdr_bytes hm.addr hm.size ?_
  rcases hm.kind with hk | ⟨-, -, hk⟩
  · rw [hk]
    decide
  · rw [hk]
    decide

section
variable {mem_end : Nat} {p : Page}

theorem Page.Stored.pg_hdr (hp : p.Stored uncompress mem_end) (hl : mem_end < 18446744073709551616) :
    pg_hdr (hdr_bytes p.hdr) = p.hdr := by
  have hsize := hp.size
  rw [PAGE_SIZE] at hsize
  refine pg_hdr_bytes (Nat.lt_trans hp.below hl) (by rw [Page.hdr]; dsimp only; omega) ?_
  rcases hp.kind with ⟨hk, -⟩ | ⟨hk, -⟩
  · rw [show p.hdr.flags = DF_LKCD_DH_RAW from hk]
    decide
  · rw [show p.hdr.flags = DF_LKCD_DH_COMPRESSED from hk]
    decide

theorem Page.Stored.not_end (hp : p.Stored uncompress mem_end) {addr : Nat} (ha : addr ≠ p.addr) :
    dump_end addr p.hdr = false := by
  have hflags : p.flags ≠ 0 ∧ p.flags ≠ DF_LKCD_DH_END := by
    rcases hp.kind with ⟨hk, -⟩ | ⟨hk, -⟩
    · rw [hk]
      decide
    · rw [hk]
      decide
  simp [dump_end, Page.hdr, ha, hflags.1, hflags.2]

end

theorem Marker.is_end {h : PgHdr} (hm : Marker h) (addr : Nat) : dump_end addr h = true := by
  rw [dump_end]
  rcases hm.kind with hk | ⟨h1, h2, h3⟩
  · simp [hk]
  · simp [h1, h2, h3]

/-! ## The loop over the records -/

/-- The state of the loop behind the pages, the first of which starts at `pos`. -/
@[grind =] def scanned : Nat → List Page → Scan → Scan
  | _, [], sc => sc
  | pos, p :: ps, sc => scanned (pos + p.bytes.length) ps (sc.record pos p.hdr)

theorem ADDR_TO_IDX_eq (addr : Nat) : ADDR_TO_IDX addr = addr / 65536 := by
  rw [ADDR_TO_IDX, IDX_KIB]

theorem Scan.entry_iff {sc : Scan} (h : PgHdr) (hidx : sc.idx ≤ 536870912) : sc.Entry h ↔
    sc.idx ≤ ADDR_TO_IDX h.addr := by
  rw [Scan.Entry, ADDR_TO_IDX_eq, Nat.le_div_iff_mul_le (by decide), IDX_TO_ADDR, IDX_KIB]
  unfold u64
  omega

section
variable {mem_end size : Nat}

theorem scan_records_eq (hl : mem_end < 18446744073709551616) (hmax : size ≤ 536870912)
    {marker : PgHdr} (hm : Marker marker) :
    ∀ {ps : List Page} {steps : Nat} {pre : Bytes} {sc : Scan}, (∀ p ∈ ps, p.Stored uncompress mem_end) →
      ps.Pairwise (fun p q => p.addr < q.addr) → (∀ p ∈ ps, sc.addr ≠ p.addr) → ps.length < steps →
      sc.idx ≤ size →
      scan_records size steps (between pre (pages_bytes ps ++ hdr_bytes marker)) sc =
        if ∀ p ∈ ps, ADDR_TO_IDX p.addr < size then
          .ok (scanned pre.length ps sc, between (pre ++ pages_bytes ps ++ hdr_bytes marker) [])
        else .error .index_bounds
  | _, 0, _, _, _, _, _, hsteps, _ => absurd hsteps (Nat.not_lt_zero _)
  | [], steps + 1, pre, sc, _, _, _, _, _ => by
    have hread := read_between (p := pre) (q := []) (d := hdr_bytes marker)
      (List.ne_nil_of_length_pos (by simp [PG_HDR_SIZE]))
    rw [length_hdr_bytes, List.append_nil] at hread
    rw [scan_records, show pages_bytes [] ++ hdr_bytes marker = hdr_bytes marker from rfl, hread]
    simp only [hm.pg_hdr]
    rw [hm.is_end, if_pos rfl, if_pos (fun _ h => absurd h List.not_mem_nil), scanned]
    simp [pages_bytes]
  | p :: ps, steps + 1, pre, sc, hs, hasc, haddr, hsteps, hsize => by
    have hp := hs p List.mem_cons_self
    have hread := read_between (p := pre) (q := p.payload ++ (pages_bytes ps ++ hdr_bytes marker))
      (d := hdr_bytes p.hdr)
      (List.ne_nil_of_length_pos (by simp [PG_HDR_SIZE]))
    rw [length_hdr_bytes] at hread
    have hbytes : pages_bytes (p :: ps) ++ hdr_bytes marker =
        hdr_bytes p.hdr ++ (p.payload ++ (pages_bytes ps ++ hdr_bytes marker)) := by
      simp [Page.bytes]
    have hskip := seekBy_between (p := pre ++ hdr_bytes p.hdr) (q := pages_bytes ps ++ hdr_bytes marker) p.payload
    have hentry := sc.entry_iff p.hdr (Nat.le_trans hsize hmax)
    rw [scan_records, hbytes, hread]
    simp only [hp.pg_hdr hl, hp.not_end (haddr p List.mem_cons_self)]
    rw [if_neg (by decide)]
    by_cases hbound : ADDR_TO_IDX p.addr < size
    · have hstay : ¬(sc.Entry p.hdr ∧ size ≤ ADDR_TO_IDX p.hdr.addr) := fun h =>
        absurd h.2 (Nat.not_le_of_lt hbound)
      have hrec : (sc.record pre.length p.hdr).idx ≤ size := by
        rw [Scan.record]
        dsimp only
        by_cases he : sc.Entry p.hdr
        · rw [if_pos he]
          exact hbound
        · rw [if_neg he]
          exact hsize
      have hnext : ∀ q ∈ ps, (sc.record pre.length p.hdr).addr ≠ q.addr := fun q hq =>
        Nat.ne_of_lt (List.rel_of_pairwise_cons hasc hq)
      have ih := @scan_records_eq hl hmax marker hm ps steps (pre ++ p.bytes) (sc.record pre.length p.hdr)
        (fun q hq => hs q (List.mem_cons_of_mem p hq)) hasc.of_cons hnext (Nat.lt_of_succ_lt_succ hsteps) hrec
      rw [if_neg hstay, show p.hdr.size = p.payload.length from rfl, hskip, between_pos, List.length_append,
        length_hdr_bytes, Nat.add_sub_cancel, show pre ++ hdr_bytes p.hdr ++ p.payload = pre ++ p.bytes by
          rw [Page.bytes, List.append_assoc], ih]
      by_cases hall : ∀ q ∈ ps, ADDR_TO_IDX q.addr < size
      · have hall' : ∀ q ∈ p :: ps, ADDR_TO_IDX q.addr < size := fun q hq =>
          (List.mem_cons.mp hq).elim (fun h => h ▸ hbound) (hall q)
        rw [if_pos hall, if_pos hall', scanned, List.length_append, pages_bytes_cons, List.append_assoc pre]
      · have hall' : ¬∀ q ∈ p :: ps, ADDR_TO_IDX q.addr < size := fun h =>
          hall fun q hq => h q (List.mem_cons_of_mem p hq)
        rw [if_neg hall, if_neg hall']
    · have hout := Nat.le_of_not_lt hbound
      rw [if_pos ⟨hentry.mpr (Nat.le_trans hsize hout), hout⟩, if_neg fun h => hbound (h p List.mem_cons_self)]

end

/-! ## The page index -/

/-- The position of the first page of the 64 KiB with number `c`. -/
@[grind =] def first_pos (c : Nat) : Nat → List Page → Option Nat
  | _, [] => none
  | pos, p :: ps => if ADDR_TO_IDX p.addr = c then some pos else first_pos c (pos + p.bytes.length) ps

theorem first_pos_none {c : Nat} : ∀ {ps : List Page} {pos : Nat},
    (∀ p ∈ ps, ADDR_TO_IDX p.addr ≠ c) → first_pos c pos ps = none
  | [], _, _ => rfl
  | p :: ps, pos, h => by
    rw [first_pos, if_neg (h p List.mem_cons_self), first_pos_none fun q hq => h q (List.mem_cons_of_mem p hq)]

theorem first_pos_some {c : Nat} : ∀ {ps : List Page} {pos : Nat}, (∃ p ∈ ps, ADDR_TO_IDX p.addr = c) →
    ∃ (done : List Page) (p : Page) (rest : List Page), ps = done ++ p :: rest ∧ ADDR_TO_IDX p.addr = c ∧
      (∀ q ∈ done, ADDR_TO_IDX q.addr ≠ c) ∧ first_pos c pos ps = some (pos + (pages_bytes done).length)
  | [], _, ⟨_, h, _⟩ => absurd h List.not_mem_nil
  | p :: ps, pos, h => by
    rw [first_pos]
    by_cases hp : ADDR_TO_IDX p.addr = c
    · exact ⟨[], p, ps, rfl, hp, fun _ h => absurd h List.not_mem_nil, by rw [if_pos hp]; rfl⟩
    · obtain ⟨q, hq, hqc⟩ := h
      have hq : q ∈ ps := (List.mem_cons.mp hq).resolve_left fun he => hp (he ▸ hqc)
      obtain ⟨done, r, rest, rfl, hr, hdone, hpos⟩ := @first_pos_some c ps (pos + p.bytes.length) ⟨q, hq, hqc⟩
      refine ⟨p :: done, r, rest, rfl, hr, fun x hx => ?_, ?_⟩
      · rcases List.mem_cons.mp hx with rfl | hx
        · exact hp
        · exact hdone x hx
      · rw [if_neg hp, hpos, pages_bytes_cons, List.length_append, Nat.add_assoc]

theorem ADDR_TO_IDX_mono {a b : Nat} (h : a ≤ b) : ADDR_TO_IDX a ≤ ADDR_TO_IDX b := Nat.div_le_div_right h

theorem scanned_index {c : Nat} : ∀ {ps : List Page} {pos : Nat} {sc : Scan},
    (∀ p ∈ ps, ADDR_TO_IDX p.addr < 536870912) →
    ps.Pairwise (fun p q => p.addr < q.addr) → (∀ p ∈ ps, sc.idx ≤ ADDR_TO_IDX p.addr + 1) → sc.idx ≤ 536870912 →
    (scanned pos ps sc).pg_hdr_idx c =
      if sc.idx ≤ c then (first_pos c pos ps).getD (sc.pg_hdr_idx c) else sc.pg_hdr_idx c
  | [], _, sc, _, _, _, _ => by
    rw [scanned, first_pos, Option.getD_none]
    exact (ite_self _).symm
  | p :: ps, pos, sc, hl, hasc, hidx, hsc => by
    have hcluster := hl p List.mem_cons_self
    have hentry := sc.entry_iff p.hdr hsc
    have hlater : ∀ q ∈ ps, ADDR_TO_IDX p.addr ≤ ADDR_TO_IDX q.addr := fun q hq =>
      ADDR_TO_IDX_mono (Nat.le_of_lt (List.rel_of_pairwise_cons hasc hq))
    have hpi := hidx p List.mem_cons_self
    rw [scanned, first_pos]
    by_cases he : sc.Entry p.hdr
    · have hle : sc.idx ≤ ADDR_TO_IDX p.addr := hentry.mp he
      have ih := @scanned_index c ps (pos + p.bytes.length) (sc.record pos p.hdr)
        (fun q hq => hl q (List.mem_cons_of_mem p hq)) hasc.of_cons (fun q hq => by
          rw [Scan.record, if_pos he]
          exact Nat.succ_le_succ (hlater q hq)) (by
          rw [Scan.record, if_pos he]
          exact hcluster)
      rw [ih]
      simp only [Scan.record, if_pos he]
      rw [show p.hdr.addr = p.addr from rfl]
      rcases Nat.lt_trichotomy c (ADDR_TO_IDX p.addr) with hc | rfl | hc
      · have hnone : first_pos c (pos + p.bytes.length) ps = none := first_pos_none fun q hq => by
          have := hlater q hq
          omega
        have hne : ¬ADDR_TO_IDX p.addr = c := by omega
        rw [if_neg (by omega), Function.update_of_ne (by omega), if_neg hne, hnone, Option.getD_none]
        exact (ite_self _).symm
      · rw [if_neg (by omega), if_pos hle, if_pos rfl, Function.update_self, Option.getD_some]
      · rw [if_pos (by omega), if_pos (by omega), if_neg (by omega), Function.update_of_ne (by omega)]
    · have hlt : ¬sc.idx ≤ ADDR_TO_IDX p.addr := fun h => he (hentry.mpr h)
      have ih := @scanned_index c ps (pos + p.bytes.length) (sc.record pos p.hdr)
        (fun q hq => hl q (List.mem_cons_of_mem p hq)) hasc.of_cons (fun q hq => by
          rw [Scan.record, if_neg he]
          exact hidx q (List.mem_cons_of_mem p hq)) (by
          rw [Scan.record, if_neg he]
          exact hsc)
      rw [ih]
      simp only [Scan.record, if_neg he]
      by_cases hc : sc.idx ≤ c
      · rw [if_pos hc, if_pos hc, if_neg (by omega)]
      · rw [if_neg hc, if_neg hc]

/-! ## The chunks -/

/-- Two pages with more than 1 MiB from one to the other. -/
def Hole (a b : Nat) : Prop := MEM_HOLE_SIZE_MIN < b - a

instance (a b : Nat) : Decidable (Hole a b) := inferInstanceAs (Decidable (_ < _))

/-- The chunks added behind the page at `addr`, when the open chunk begins at `start`. -/
@[grind =] def chunks_behind (mem_end : Nat) : Nat → Nat → List Page → List MemChunk
  | addr, start, [] => if addr ≠ start then [⟨start, mem_end - start⟩] else []
  | addr, start, p :: ps =>
    if Hole addr p.addr then ⟨start, addr + PAGE_SIZE - start⟩ :: chunks_behind mem_end p.addr p.addr ps
    else chunks_behind mem_end p.addr start ps

/-- The open chunk ends up with a single page. -/
@[grind =] def alone : Nat → Nat → List Page → Prop
  | addr, start, [] => addr = start
  | addr, start, p :: ps => if Hole addr p.addr then alone p.addr p.addr ps else alone p.addr start ps

def MemChunk.Holds (c : MemChunk) (a : Nat) : Prop := c.start ≤ a ∧ a < c.start + c.size

instance (c : MemChunk) (a : Nat) : Decidable (c.Holds a) := inferInstanceAs (Decidable (_ ∧ _))

def holders (a : Nat) (cs : List MemChunk) : Nat := cs.countP fun c => c.Holds a

section
variable {mem_end : Nat}

theorem scanned_chunks (hl : mem_end < 18446744073709551616) : ∀ {ps : List Page} {pos : Nat} {sc : Scan},
    (∀ p ∈ ps, p.addr < mem_end) → ps.Pairwise (fun p q => p.addr < q.addr) → (∀ p ∈ ps, sc.addr < p.addr) →
    sc.mem_chunk_start ≤ sc.addr → sc.addr < mem_end → sc.addr % PAGE_SIZE = 0 →
      (∀ p ∈ ps, p.addr % PAGE_SIZE = 0) →
    (scanned pos ps sc).chunks ++ last_chunk mem_end (scanned pos ps sc) =
      sc.chunks ++ chunks_behind mem_end sc.addr sc.mem_chunk_start ps
  | [], pos, sc, _, _, _, hstart, haddr, _, _ => by
    rw [scanned, last_chunk, chunks_behind, u64_of_lt (by omega) (by omega)]
    rw [show ((mem_end : Int) - sc.mem_chunk_start).toNat = mem_end - sc.mem_chunk_start by omega]
  | p :: ps, pos, sc, hp, hasc, hlt, hstart, haddr, hal, hpal => by
    have hpe := hp p List.mem_cons_self
    have hpa := hlt p List.mem_cons_self
    have hpm := hpal p List.mem_cons_self
    have hdiff : u64 ((p.hdr.addr : Int) - sc.addr) = p.addr - sc.addr := by
      rw [show p.hdr.addr = p.addr from rfl, u64_of_lt (by omega) (by omega)]
      omega
    have hrec : sc.record pos p.hdr = { sc.record pos p.hdr with
        addr := p.addr
        mem_chunk_start := if Hole sc.addr p.addr then p.addr else sc.mem_chunk_start
        chunks := if Hole sc.addr p.addr then sc.chunks ++
          [⟨sc.mem_chunk_start, sc.addr + PAGE_SIZE - sc.mem_chunk_start⟩]
          else sc.chunks } := by
      rw [PAGE_SIZE] at hal hpm
      have hsize : u64 ((sc.addr : Int) + PAGE_SIZE - sc.mem_chunk_start) =
        sc.addr + PAGE_SIZE - sc.mem_chunk_start := by
        rw [PAGE_SIZE, u64_of_lt (by omega) (by omega)]
        omega
      simp only [Scan.record, hdiff, hsize, Hole]
      rfl
    have ih := @scanned_chunks hl ps (pos + p.bytes.length) (sc.record pos p.hdr)
      (fun q hq => hp q (List.mem_cons_of_mem p hq)) hasc.of_cons
    rw [scanned, chunks_behind]
    rw [hrec] at ih ⊢
    have ih := ih (fun q hq => List.rel_of_pairwise_cons hasc hq) (by dsimp only; split <;> omega) hpe hpm
      (fun q hq => hpal q (List.mem_cons_of_mem p hq))
    rw [ih]
    dsimp only
    by_cases hh : Hole sc.addr p.addr
    · rw [if_pos hh, if_pos hh, if_pos hh, List.append_assoc, List.singleton_append]
    · rw [if_neg hh, if_neg hh, if_neg hh]

theorem start_le_of_mem : ∀ {ps : List Page} {addr start : Nat}, (∀ p ∈ ps, addr < p.addr) → start ≤ addr →
    ps.Pairwise (fun p q => p.addr < q.addr) → ∀ c ∈ chunks_behind mem_end addr start ps, start ≤ c.start
  | [], addr, start, _, _, _, c, hc => by
    rw [chunks_behind] at hc
    split at hc
    · rw [List.mem_singleton.mp hc]
    · exact absurd hc List.not_mem_nil
  | p :: ps, addr, start, hp, hs, hasc, c, hc => by
    have hpa := hp p List.mem_cons_self
    have hlater := fun q (hq : q ∈ ps) => List.rel_of_pairwise_cons hasc hq
    rw [chunks_behind] at hc
    split at hc
    · rcases List.mem_cons.mp hc with rfl | hc
      · exact Nat.le_refl _
      · have := start_le_of_mem hlater (Nat.le_refl _) hasc.of_cons c hc
        omega
    · exact start_le_of_mem hlater (by omega) hasc.of_cons c hc

theorem holders_eq_zero {a : Nat} {cs : List MemChunk} (h : ∀ c ∈ cs, a < c.start) : holders a cs = 0 :=
  List.countP_eq_zero.mpr fun c hc hh => absurd (of_decide_eq_true hh).1 (Nat.not_le_of_lt (h c hc))

theorem holders_cons {a : Nat} (c : MemChunk) (cs : List MemChunk) :
    holders a (c :: cs) = holders a cs + if c.Holds a then 1 else 0 := by
  rw [holders, List.countP_cons]
  simp [holders]

theorem holders_chunks_behind : ∀ {ps : List Page} {addr start : Nat}, (∀ p ∈ ps, addr < p.addr) → start ≤ addr →
    addr < mem_end → addr % PAGE_SIZE = 0 → (∀ p ∈ ps, p.addr < mem_end ∧ p.addr % PAGE_SIZE = 0) →
    ps.Pairwise (fun p q => p.addr < q.addr) →
    (¬alone addr start ps → (∀ a, start ≤ a → a ≤ addr → holders a (chunks_behind mem_end addr start ps) = 1) ∧
      ∀ p ∈ ps, holders p.addr (chunks_behind mem_end addr start ps) = 1) ∧
    (alone addr start ps → ∃ a, (a = addr ∨ ∃ p ∈ ps, p.addr = a) ∧ addr ≤ a ∧
      holders a (chunks_behind mem_end addr start ps) = 0)
  | [], addr, start, _, hs, hm, _, _, _ => by
    rw [alone, chunks_behind]
    refine ⟨fun hne => ⟨fun a h1 h2 => ?_, fun _ h => absurd h List.not_mem_nil⟩, fun he =>
      ⟨addr, .inl rfl, Nat.le_refl _, ?_⟩⟩
    · rw [if_pos hne, holders_cons, if_pos ⟨h1, by dsimp only; omega⟩]
      rfl
    · rw [if_neg (fun h => h he)]
      rfl
  | p :: ps, addr, start, hp, hs, hm, hal, hps, hasc => by
    have hpa := hp p List.mem_cons_self
    obtain ⟨hpm, hpal⟩ := hps p List.mem_cons_self
    have hlater := fun q (hq : q ∈ ps) => List.rel_of_pairwise_cons hasc hq
    have hps' := fun q (hq : q ∈ ps) => hps q (List.mem_cons_of_mem p hq)
    rw [alone, chunks_behind]
    by_cases hh : Hole addr p.addr
    · rw [if_pos hh, if_pos hh]
      obtain ⟨ih1, ih2⟩ := holders_chunks_behind hlater (Nat.le_refl p.addr) hpm hpal hps' hasc.of_cons
      have hstarts := @start_le_of_mem mem_end _ _ _ hlater (Nat.le_refl p.addr) hasc.of_cons
      have hend : addr + PAGE_SIZE ≤ p.addr := by
        rw [Hole, MEM_HOLE_SIZE_MIN] at hh
        rw [PAGE_SIZE]
        omega
      have hout : ∀ a, p.addr ≤ a → ¬MemChunk.Holds ⟨start, addr + PAGE_SIZE - start⟩ a := fun a ha h => by
        have := h.2
        dsimp only at this
        omega
      refine ⟨fun hne => ⟨fun a h1 h2 => ?_, fun q hq => ?_⟩, fun he => ?_⟩
      · rw [holders_cons, if_pos ⟨h1, by dsimp only; rw [PAGE_SIZE]; omega⟩,
          holders_eq_zero fun c hc => Nat.lt_of_lt_of_le (by omega) (hstarts c hc)]
      · rcases List.mem_cons.mp hq with rfl | hq
        · rw [holders_cons, if_neg (hout _ (Nat.le_refl _)), (ih1 hne).1 _ (Nat.le_refl _) (Nat.le_refl _)]
        · rw [holders_cons, if_neg (hout _ (Nat.le_of_lt (hlater q hq))), (ih1 hne).2 q hq]
      · obtain ⟨a, ha, hle, hzero⟩ := ih2 he
        refine ⟨a, .inr ?_, by omega, ?_⟩
        · rcases ha with rfl | ⟨q, hq, rfl⟩
          · exact ⟨p, List.mem_cons_self, rfl⟩
          · exact ⟨q, List.mem_cons_of_mem p hq, rfl⟩
        · rw [holders_cons, if_neg (hout a hle), hzero]
    · rw [if_neg hh, if_neg hh]
      obtain ⟨ih1, ih2⟩ := @holders_chunks_behind _ _ start hlater (by omega) hpm hpal hps' hasc.of_cons
      refine ⟨fun hne => ⟨fun a h1 h2 => (ih1 hne).1 a h1 (by omega), fun q hq => ?_⟩, fun he => ?_⟩
      · rcases List.mem_cons.mp hq with rfl | hq
        · exact (ih1 hne).1 _ (by omega) (Nat.le_refl _)
        · exact (ih1 hne).2 q hq
      · obtain ⟨a, ha, hle, hzero⟩ := ih2 he
        refine ⟨a, .inr ?_, by omega, hzero⟩
        rcases ha with rfl | ⟨q, hq, rfl⟩
        · exact ⟨p, List.mem_cons_self, rfl⟩
        · exact ⟨q, List.mem_cons_of_mem p hq, rfl⟩

end

/-! ## The result of `mem_init_flex` -/

def Dump.chunks (d : Dump uncompress) : List MemChunk :=
  match d.pages with
  | [] => [⟨0, d.mem_end⟩]
  | p :: ps =>
    if MEM_HOLE_SIZE_MIN ≤ p.addr then ⟨0, PAGE_SIZE - 1⟩ :: chunks_behind d.mem_end p.addr p.addr ps
    else chunks_behind d.mem_end p.addr 0 ps

def Dump.index (d : Dump uncompress) : PageIndex :=
  ⟨idx_size d.mem_end, fun c => (first_pos c DF_LKCD_HDR_SIZE d.pages).getD 0⟩

/-- The index was allocated with entries for all stored pages. -/
def Dump.Indexed (d : Dump uncompress) : Prop := ∀ p ∈ d.pages, ADDR_TO_IDX p.addr < idx_size d.mem_end

instance (d : Dump uncompress) : Decidable d.Indexed :=
  inferInstanceAs (Decidable (∀ p ∈ d.pages, ADDR_TO_IDX p.addr < idx_size d.mem_end))

theorem idx_size_le (mem_end : Nat) : idx_size mem_end ≤ 536870912 := by
  have := u32_lt (8 * (ADDR_TO_IDX mem_end + 1))
  rw [idx_size]
  omega

theorem mem_init_flex_eq (d : Dump uncompress) : mem_init_flex d.mem_end d.content =
    if d.Indexed then .ok (d.chunks, d.index, between d.content []) else .error .index_bounds := by
  have hstart : (⟨d.content, DF_LKCD_HDR_SIZE⟩ : File) = between d.header (pages_bytes d.pages ++
    hdr_bytes d.marker) := by
    rw [between, d.header_length]
    rfl
  have hsteps : d.pages.length < d.content.length + 1 := by
    have := length_le_pages_bytes d.pages
    rw [Dump.content, List.length_append, List.length_append]
    omega
  have hmax : ∀ p ∈ d.pages, U64_MAX ≠ p.addr := fun p hp => by
    have := (d.stored p hp).aligned
    rw [PAGE_SIZE] at this
    rw [U64_MAX]
    omega
  have hscan := @scan_records_eq uncompress d.mem_end (idx_size d.mem_end) d.limit (idx_size_le _)
    d.marker d.ended d.pages
    (d.content.length + 1) d.header ⟨U64_MAX, 0, 0, [], fun _ => 0⟩ d.stored d.ascending hmax hsteps (Nat.zero_le _)
  rw [mem_init_flex, hstart, hscan]
  by_cases hidx : d.Indexed
  · have hbound : ∀ p ∈ d.pages, ADDR_TO_IDX p.addr < 536870912 := fun p hp =>
      Nat.lt_of_lt_of_le (hidx p hp) (idx_size_le _)
    rw [if_pos hidx, if_pos (show ∀ p ∈ d.pages, ADDR_TO_IDX p.addr < idx_size d.mem_end from hidx)]
    simp only
    have hindex : (scanned d.header.length d.pages ⟨U64_MAX, 0, 0, [], fun _ => 0⟩).pg_hdr_idx =
        fun c => (first_pos c DF_LKCD_HDR_SIZE d.pages).getD 0 := by
      funext c
      rw [scanned_index hbound d.ascending (fun _ _ => Nat.zero_le _) (Nat.zero_le _), if_pos (Nat.zero_le c),
        d.header_length]
    have hchunks : (scanned d.header.length d.pages ⟨U64_MAX, 0, 0, [], fun _ => 0⟩).chunks ++
        last_chunk d.mem_end (scanned d.header.length d.pages ⟨U64_MAX, 0, 0, [], fun _ => 0⟩) = d.chunks := by
      have hl := d.limit
      have hbelow := fun p hp => (d.stored p hp).below
      have hal := fun p hp => (d.stored p hp).aligned
      have hasc := d.ascending
      rw [Dump.chunks]
      generalize d.pages = pages at hbelow hal hasc ⊢
      cases pages with
      | nil =>
        rw [scanned, last_chunk, if_pos (by decide)]
        dsimp only
        rw [u64_of_lt (by omega) (by omega)]
        simp
      | cons p ps =>
        have hpb := hbelow p List.mem_cons_self
        have hpa := hal p List.mem_cons_self
        have hdiff : u64 ((p.hdr.addr : Int) - U64_MAX) = p.addr + 1 := by
          rw [PAGE_SIZE] at hpa
          rw [show p.hdr.addr = p.addr from rfl, U64_MAX]
          unfold u64
          omega
        have hsize : u64 ((U64_MAX : Int) + PAGE_SIZE - (0 : Nat)) = PAGE_SIZE - 1 := by decide
        have hbehind := @scanned_chunks d.mem_end hl ps (d.header.length + p.bytes.length)
          ((⟨U64_MAX, 0, 0, [], fun _ => 0⟩ : Scan).record d.header.length p.hdr)
          (fun q hq => hbelow q (List.mem_cons_of_mem p hq)) hasc.of_cons (fun q hq =>
            List.rel_of_pairwise_cons hasc hq)
          (by
            simp only [Scan.record, hdiff]
            split
            · exact Nat.le_refl _
            · exact Nat.zero_le _) hpb hpa (fun q hq => hal q (List.mem_cons_of_mem p hq))
        rw [scanned, hbehind]
        simp only [Scan.record, hdiff, hsize]
        by_cases hh : MEM_HOLE_SIZE_MIN ≤ p.addr
        · rw [if_pos (Nat.lt_succ_of_le hh), if_pos (Nat.lt_succ_of_le hh), if_pos hh]
          rfl
        · rw [if_neg (fun h => hh (Nat.le_of_lt_succ h)), if_neg (fun h => hh (Nat.le_of_lt_succ h)), if_neg hh]
          rfl
    rw [hindex, hchunks, Dump.index, Dump.content, List.append_assoc]
  · rw [if_neg hidx, if_neg (show ¬∀ p ∈ d.pages, ADDR_TO_IDX p.addr < idx_size d.mem_end from hidx)]

/-- The last stored page is the only one behind the last hole of more than 1 MiB, or the only one at all and at the
address 0 or above 1 MiB. -/
def LastAlone : List Page → Prop
  | [] => False
  | [p] => p.addr = 0 ∨ MEM_HOLE_SIZE_MIN ≤ p.addr
  | [p, q] => Hole p.addr q.addr
  | _ :: p :: q :: ps => LastAlone (p :: q :: ps)

theorem alone_iff : ∀ {ps : List Page} {p : Page} {start : Nat}, (p :: ps).Pairwise (fun p q => p.addr < q.addr) →
    start ≤ p.addr → ps ≠ [] → (alone p.addr start ps ↔ LastAlone (p :: ps))
  | [], _, _, _, _, h => absurd rfl h
  | [q], p, start, hasc, hs, _ => by
    have hlt : p.addr < q.addr := List.rel_of_pairwise_cons hasc List.mem_cons_self
    rw [alone, LastAlone]
    by_cases hh : Hole p.addr q.addr
    · rw [if_pos hh, alone]
      exact iff_of_true rfl hh
    · rw [if_neg hh, alone]
      exact iff_of_false (by omega) hh
  | q :: r :: ps, p, start, hasc, hs, _ => by
    have hlt : p.addr < q.addr := List.rel_of_pairwise_cons hasc List.mem_cons_self
    rw [alone, LastAlone]
    by_cases hh : Hole p.addr q.addr
    · rw [if_pos hh]
      exact alone_iff hasc.of_cons (Nat.le_refl _) (by simp)
    · rw [if_neg hh]
      exact alone_iff hasc.of_cons (by omega) (by simp)

theorem Dump.holders_iff (d : Dump uncompress) :
    (∀ p ∈ d.pages, holders p.addr d.chunks = 1) ↔ ¬LastAlone d.pages := by
  have hstored := fun p hp =>
    (⟨(d.stored p hp).below, (d.stored p hp).aligned⟩ : p.addr < d.mem_end ∧ p.addr % PAGE_SIZE = 0)
  have hasc := d.ascending
  rw [Dump.chunks]
  generalize d.pages = pages at hstored hasc ⊢
  cases pages with
  | nil => exact iff_of_true (fun _ h => absurd h List.not_mem_nil) id
  | cons p ps =>
    obtain ⟨hpm, hpal⟩ := hstored p List.mem_cons_self
    have hps := fun q (hq : q ∈ ps) => hstored q (List.mem_cons_of_mem p hq)
    have hlater := fun q (hq : q ∈ ps) => List.rel_of_pairwise_cons hasc hq
    have hstart : ∀ start, start ≤ p.addr → (start = 0 ∨ start = p.addr ∧ MEM_HOLE_SIZE_MIN ≤ p.addr) →
        (start = 0 → p.addr < MEM_HOLE_SIZE_MIN) → (alone p.addr start ps ↔ LastAlone (p :: ps)) := by
      intro start hs hkind hzero
      cases ps with
      | nil =>
        rw [alone, LastAlone]
        omega
      | cons q ps => exact alone_iff hasc hs (by simp)
    have hiff : ∀ {start : Nat} {cs : List MemChunk}, start ≤ p.addr →
      (alone p.addr start ps ↔ LastAlone (p :: ps)) →
        (∀ a, p.addr ≤ a → holders a cs = holders a (chunks_behind d.mem_end p.addr start ps)) →
        ((∀ q ∈ p :: ps, holders q.addr cs = 1) ↔ ¬LastAlone (p :: ps)) := by
      intro start cs hs halone hcs
      obtain ⟨h1, h2⟩ := @holders_chunks_behind d.mem_end _ _ _ hlater hs hpm hpal hps hasc.of_cons
      rw [← halone]
      constructor
      · intro hall he
        obtain ⟨a, ha, hle, hzero⟩ := h2 he
        obtain ⟨q, hq, rfl⟩ : ∃ q ∈ p :: ps, q.addr = a := by
          rcases ha with rfl | ⟨q, hq, rfl⟩
          · exact ⟨p, List.mem_cons_self, rfl⟩
          · exact ⟨q, List.mem_cons_of_mem p hq, rfl⟩
        have := hall q hq
        rw [hcs _ hle, hzero] at this
        exact absurd this (by decide)
      · intro hne q hq
        rcases List.mem_cons.mp hq with rfl | hq
        · rw [hcs _ (Nat.le_refl _)]
          exact (h1 hne).1 _ hs (Nat.le_refl _)
        · rw [hcs _ (Nat.le_of_lt (hlater q hq))]
          exact (h1 hne).2 q hq
    dsimp only
    by_cases hh : MEM_HOLE_SIZE_MIN ≤ p.addr
    · rw [if_pos hh]
      refine hiff (Nat.le_refl _) (hstart p.addr (Nat.le_refl _) (.inr ⟨rfl, hh⟩) fun h => ?_) fun a ha => ?_
      · rw [h] at hh
        exact absurd hh (by decide)
      · rw [holders_cons, if_neg fun h => ?_]
        · rfl
        · have := h.2
          rw [MEM_HOLE_SIZE_MIN] at hh
          dsimp only at this
          rw [PAGE_SIZE] at this
          omega
    · rw [if_neg hh]
      exact hiff (Nat.zero_le _) (hstart 0 (Nat.zero_le _) (.inl rfl) fun _ => Nat.lt_of_not_le hh) fun _ _ => rfl

theorem chunks_behind_stop {mem_end : Nat} : ∀ {ps : List Page} {addr start : Nat},
    (∀ p ∈ ps, addr < p.addr) → start ≤ addr →
    addr < mem_end → (∀ p ∈ ps, p.addr < mem_end) → ps.Pairwise (fun p q => p.addr < q.addr) →
    ∀ c ∈ chunks_behind mem_end addr start ps, c.start + c.size ≤ mem_end
  | [], addr, start, _, hs, hm, _, _, c, hc => by
    rw [chunks_behind] at hc
    split at hc
    · rw [List.mem_singleton.mp hc]
      dsimp only
      omega
    · exact absurd hc List.not_mem_nil
  | p :: ps, addr, start, hp, hs, hm, hps, hasc, c, hc => by
    have hpa := hp p List.mem_cons_self
    have hpm := hps p List.mem_cons_self
    have hlater := fun q (hq : q ∈ ps) => List.rel_of_pairwise_cons hasc hq
    have hps' := fun q (hq : q ∈ ps) => hps q (List.mem_cons_of_mem p hq)
    rw [chunks_behind] at hc
    split at hc
    · rename_i hh
      rcases List.mem_cons.mp hc with rfl | hc
      · rw [Hole, MEM_HOLE_SIZE_MIN] at hh
        rw [PAGE_SIZE]
        dsimp only
        omega
      · exact chunks_behind_stop hlater (Nat.le_refl _) hpm hps' hasc.of_cons c hc
    · exact chunks_behind_stop hlater (by omega) hpm hps' hasc.of_cons c hc

theorem Dump.chunk_stop (d : Dump uncompress) : ∀ c ∈ d.chunks, c.start + c.size ≤ d.mem_end := by
  have hbelow := fun p hp => (d.stored p hp).below
  have hasc := d.ascending
  rw [Dump.chunks]
  generalize d.pages = pages at hbelow hasc ⊢
  cases pages with
  | nil =>
    intro c hc
    rw [List.mem_singleton.mp hc]
    exact Nat.le_of_eq (Nat.zero_add _)
  | cons p ps =>
    have hpb := hbelow p List.mem_cons_self
    have hlater := fun q (hq : q ∈ ps) => List.rel_of_pairwise_cons hasc hq
    have hstop := fun {start : Nat} (hs : start ≤ p.addr) =>
      chunks_behind_stop hlater hs hpb (fun q hq => hbelow q (List.mem_cons_of_mem p hq)) hasc.of_cons
    dsimp only
    intro c hc
    split at hc
    · rename_i hh
      rcases List.mem_cons.mp hc with rfl | hc
      · rw [MEM_HOLE_SIZE_MIN] at hh
        rw [PAGE_SIZE]
        dsimp only
        omega
      · exact hstop (Nat.le_refl _) c hc
    · exact hstop (Nat.zero_le _) c hc

end Zdump.Lkcd
