import S390Tools.Zdump.LkcdScan

/-!
# Reading the pages of an LKCD dump

A page is searched from the first record of its 64 KiB on, or read as the next
one when the page before it was read last. The search is right if the 64 KiB have
a record and a record at or behind the page follows; otherwise it stops with an
error or reads the end marker.
-/

namespace Zdump.Lkcd

open Stdio Word

variable {uncompress : Bytes → Bytes}

section
variable (d : Dump uncompress)

def Dump.page_data (n : Nat) : Bytes :=
  match d.pages.find? (·.addr = n * PAGE_SIZE) with
  | some p => p.data
  | none => List.replicate PAGE_SIZE 0

def Dump.byte (a : Nat) : UInt8 := (d.page_data (a / PAGE_SIZE)).getD (a % PAGE_SIZE) 0

/-- The file behind the record of a stored page, with nothing of the end marker read. -/
inductive InStream : State → Prop
  | mk {done rest : List Page} {p : Page} {reach : Nat} : d.pages = done ++ p :: rest → reach ≤ d.end_pos →
      InStream ⟨between (d.header ++ pages_bytes (done ++ [p])) (pages_bytes rest ++ hdr_bytes d.marker),
        p.addr / PAGE_SIZE, reach⟩

def Dump.fresh : State := ⟨between d.content [], 0, 0⟩

def Bad {α : Type} (r : Except Fault (α × State)) : Prop := ∀ x s, r = .ok (x, s) → d.end_pos < s.reach

/-- The 64 KiB of the page have a stored page, and a page at or behind it is stored. -/
def Dump.Covered (n : Nat) : Prop :=
  (∃ p ∈ d.pages, ADDR_TO_IDX p.addr = ADDR_TO_IDX (n * PAGE_SIZE)) ∧ ∃ p ∈ d.pages, n * PAGE_SIZE ≤ p.addr

end

/-! ## One record -/

section
variable {mem_end : Nat}

theorem zg_read_between {pre post b : Bytes} (hb : b ≠ []) (page_last reach : Nat) :
    zg_read b.length ⟨between pre (b ++ post), page_last, reach⟩ =
      .ok (b, ⟨between (pre ++ b) post, page_last, max reach (pre ++ b).length⟩) := by
  rw [zg_read, read_between hb]
  rfl

theorem zg_read_header (pre post : Bytes) (h : PgHdr) (page_last reach : Nat) :
    zg_read PG_HDR_SIZE ⟨between pre (hdr_bytes h ++ post), page_last, reach⟩ =
      .ok (hdr_bytes h, ⟨between (pre ++ hdr_bytes h) post, page_last, max reach (pre ++ hdr_bytes h).length⟩) := by
  rw [← length_hdr_bytes h]
  exact zg_read_between (List.ne_nil_of_length_pos (by rw [length_hdr_bytes]; decide)) page_last reach

theorem read_next_page_eq {p : Page} (hp : p.Stored uncompress mem_end) (hl : mem_end < 18446744073709551616)
    (pre post : Bytes) (addr page_last reach : Nat) {buf : Bytes} (hbuf : buf.length = PAGE_SIZE) :
    ∃ r, r ≤ max reach (pre ++ p.bytes).length ∧
      read_next_page uncompress addr buf ⟨between pre (p.bytes ++ post), page_last, reach⟩ =
        .ok (decide (addr ≤ p.addr),
          if p.addr = addr then p.data else if addr ≤ p.addr then List.replicate PAGE_SIZE 0 else buf,
          ⟨between (pre ++ p.bytes) post, p.addr / PAGE_SIZE, r⟩) := by
  have hbytes : p.bytes ++ post = hdr_bytes p.hdr ++ (p.payload ++ post) := by rw [Page.bytes, List.append_assoc]
  have hpre : pre ++ p.bytes = pre ++ hdr_bytes p.hdr ++ p.payload := by rw [Page.bytes, List.append_assoc]
  have hlen : (pre ++ hdr_bytes p.hdr).length ≤ (pre ++ p.bytes).length := by
    rw [hpre, @List.length_append _ _ p.payload]
    exact Nat.le_add_right _ _
  have hskip : ∀ r, zg_seek_cur p.hdr.size ⟨between (pre ++ hdr_bytes p.hdr) (p.payload ++ post),
    p.addr / PAGE_SIZE, r⟩ =
      ⟨between (pre ++ p.bytes) post, p.addr / PAGE_SIZE, r⟩ := fun r => by
    rw [zg_seek_cur, hpre]
    dsimp only
    rw [show p.hdr.size = p.payload.length from rfl, seekBy_between]
  rw [read_next_page, hbytes, zg_read_header]
  simp only [hp.pg_hdr hl]
  rw [show p.hdr.addr = p.addr from rfl]
  by_cases heq : p.addr = addr
  · rw [if_pos heq, if_pos heq, decide_eq_true (Nat.le_of_eq heq.symm)]
    refine ⟨max (max reach (pre ++ hdr_bytes p.hdr).length) (pre ++ p.bytes).length, by omega, ?_⟩
    rcases hp.kind with ⟨hraw, hdata⟩ | ⟨hcomp, hne, hdata⟩
    · have hne : p.payload ≠ [] := List.ne_nil_of_length_pos (by rw [hdata, hp.length]; decide)
      rw [read_page_buf, if_pos (show p.hdr.flags = DF_LKCD_DH_RAW from hraw), show p.hdr.size =
        p.payload.length from rfl,
        zg_read_between hne]
      simp only
      rw [hdata, List.drop_eq_nil_of_le (by rw [hbuf, hp.length]), List.append_nil, ← hdata, ← hpre]
    · have hflags : ¬p.hdr.flags = DF_LKCD_DH_RAW := by
        rw [show p.hdr.flags = DF_LKCD_DH_COMPRESSED from hcomp]
        decide
      rw [read_page_buf, if_neg hflags, if_pos (show p.hdr.flags = DF_LKCD_DH_COMPRESSED from hcomp),
        show p.hdr.size = p.payload.length from rfl, zg_read_between hne]
      simp only
      rw [hdata, if_neg (fun h => h hp.length), ← hpre]
  · rw [if_neg heq, if_neg heq]
    refine ⟨max reach (pre ++ hdr_bytes p.hdr).length, by omega, ?_⟩
    by_cases hle : addr ≤ p.addr
    · rw [if_pos (Nat.lt_of_le_of_ne hle (Ne.symm heq)), if_pos hle, decide_eq_true hle, hskip]
    · rw [if_neg (by omega), if_neg hle, decide_eq_false hle, hskip]

end

/-! ## The highest byte read -/

section
variable {s s' : State}

theorem reach_zg_read {cnt : Nat} {b : Bytes} (h : zg_read cnt s = .ok (b, s')) : s.reach ≤ s'.reach := by
  rw [zg_read] at h
  split at h
  · cases h
  · cases h
    exact Nat.le_max_left _ _

theorem reach_read_page_buf {hdr : PgHdr} {buf b : Bytes} (h : read_page_buf uncompress hdr buf s = .ok (b, s')) :
    s.reach ≤ s'.reach := by
  rw [read_page_buf] at h
  split at h
  · split at h
    · cases h
    · rename_i hread
      cases h
      exact reach_zg_read hread
  · split at h
    · split at h
      · cases h
      · rename_i hread
        split at h
        · cases h
        · cases h
          exact reach_zg_read hread
    · cases h

theorem reach_read_next_page {addr : Nat} {buf b : Bytes} {found : Bool}
    (h : read_next_page uncompress addr buf s = .ok (found, b, s')) : s.reach ≤ s'.reach := by
  rw [read_next_page] at h
  split at h
  · cases h
  · rename_i hread
    have hle := reach_zg_read hread
    dsimp only at h
    split at h
    · split at h
      · cases h
      · rename_i hbuf
        cases h
        have hge := reach_read_page_buf hbuf
        exact Nat.le_trans hle hge
    · split at h
      · cases h
        exact hle
      · cases h
        exact hle

theorem reach_find_page {addr : Nat} : ∀ {steps : Nat} {s : State} {buf b : Bytes},
    find_page uncompress addr steps buf s = .ok (b, s') → s.reach ≤ s'.reach
  | 0, _, _, _, h => nomatch h
  | steps + 1, s, buf, b, h => by
    rw [find_page] at h
    split at h
    · cases h
    · rename_i hnext
      cases h
      exact reach_read_next_page hnext
    · rename_i hnext
      exact Nat.le_trans (reach_read_next_page hnext) (reach_find_page h)

theorem reach_read_page_flex {idx : PageIndex} {n : Nat} {buf b : Bytes}
    (h : read_page_flex uncompress idx n buf s = .ok (b, s')) : s.reach ≤ s'.reach := by
  rw [read_page_flex] at h
  split at h
  · cases h
  · split at h
    · cases h
    · split at h
      · split at h
        · cases h
        · rename_i hnext
          cases h
          exact reach_read_next_page hnext
      · have hge := reach_find_page h
        exact hge

theorem reach_copy_pages {idx : PageIndex} : ∀ {steps addr left : Nat} {s : State} {buf b : Bytes},
    copy_pages uncompress idx steps addr left buf s = .ok (b, s') → s.reach ≤ s'.reach
  | 0, _, _, _, _, _, h => nomatch h
  | steps + 1, addr, left, s, buf, b, h => by
    rw [copy_pages] at h
    split at h
    · cases h
      exact Nat.le_refl _
    · dsimp only at h
      split at h
      · cases h
      · rename_i hpage
        split at h
        · cases h
        · rename_i hrest
          cases h
          exact Nat.le_trans (reach_read_page_flex hpage) (reach_copy_pages hrest)

end

/-! ## Searching a page -/

section
variable {d : Dump uncompress}

theorem Dump.page_data_eq {done rest : List Page} {q : Page} {n : Nat} (hsplit : d.pages = done ++ q :: rest)
    (hdone : ∀ p ∈ done, p.addr < n * PAGE_SIZE) (hq : n * PAGE_SIZE ≤ q.addr) :
    d.page_data n = if q.addr = n * PAGE_SIZE then q.data else List.replicate PAGE_SIZE 0 := by
  have hasc := d.ascending
  rw [hsplit] at hasc
  have hrest := (List.pairwise_append.mp hasc).2.1
  have hnone : done.find? (·.addr = n * PAGE_SIZE) = none := List.find?_eq_none.mpr fun p hp => by
    have := hdone p hp
    simp
    omega
  rw [Dump.page_data, hsplit, List.find?_append, hnone, Option.none_or]
  by_cases heq : q.addr = n * PAGE_SIZE
  · rw [List.find?_cons_of_pos (by simpa using heq), if_pos heq]
  · have htail : (q :: rest).find? (·.addr = n * PAGE_SIZE) = none := List.find?_eq_none.mpr fun p hp => by
      rcases List.mem_cons.mp hp with rfl | hp
      · simpa using heq
      · have := List.rel_of_pairwise_cons hrest hp
        simp
        omega
    rw [htail, if_neg heq]

theorem end_pos_eq {done rest : List Page} (hsplit : d.pages = done ++ rest) :
    (d.header ++ pages_bytes done).length + (pages_bytes rest).length = d.end_pos := by
  rw [Dump.end_pos, hsplit, pages_bytes_append, List.length_append, List.length_append,
    List.length_append, Nat.add_assoc]

theorem find_page_found {n : Nat} : ∀ {rest done : List Page} {steps page_last reach : Nat} {buf : Bytes},
    d.pages = done ++ rest → (∀ p ∈ done, p.addr < n * PAGE_SIZE) →
      (∃ p ∈ rest, n * PAGE_SIZE ≤ p.addr) → rest.length < steps →
    buf.length = PAGE_SIZE → reach ≤ d.end_pos →
    ∃ s', find_page uncompress (n * PAGE_SIZE) steps buf
        ⟨between (d.header ++ pages_bytes done) (pages_bytes rest ++ hdr_bytes d.marker), page_last, reach⟩ =
          .ok (d.page_data n, s') ∧ InStream d s'
  | [], _, _, _, _, _, _, _, ⟨_, h, _⟩, _, _, _ => absurd h List.not_mem_nil
  | _, _, 0, _, _, _, _, _, _, hsteps, _, _ => absurd hsteps (Nat.not_lt_zero _)
  | q :: rest, done, steps + 1, page_last, reach, buf, hsplit, hdone, hfound, hsteps, hbuf, hreach => by
    have hq := d.stored q (by rw [hsplit]; exact List.mem_append_right _ List.mem_cons_self)
    have hend := @end_pos_eq _ d (done ++ [q]) rest (by rw [hsplit]; simp)
    obtain ⟨r, hr, hread⟩ := read_next_page_eq hq d.limit (d.header ++ pages_bytes done)
      (pages_bytes rest ++ hdr_bytes d.marker)
      (n * PAGE_SIZE) page_last reach hbuf
    have hpre : d.header ++ pages_bytes done ++ q.bytes = d.header ++ pages_bytes (done ++ [q]) := by
      simp [pages_bytes]
    have hreach' : r ≤ d.end_pos := by
      rw [hpre] at hr
      omega
    rw [find_page, pages_bytes_cons, List.append_assoc, hread, hpre]
    by_cases hle : n * PAGE_SIZE ≤ q.addr
    · rw [decide_eq_true hle, if_pos hle, Dump.page_data_eq hsplit hdone hle]
      exact ⟨_, rfl, .mk hsplit hreach'⟩
    · rw [decide_eq_false hle, if_neg hle, if_neg (by omega)]
      obtain ⟨p, hp, hpn⟩ := hfound
      have hp : p ∈ rest := (List.mem_cons.mp hp).resolve_left fun h => hle (h ▸ hpn)
      refine find_page_found (by rw [hsplit]; simp) (fun x hx => ?_) ⟨p, hp,
        hpn⟩ (Nat.lt_of_succ_lt_succ hsteps) hbuf hreach'
      rcases List.mem_append.mp hx with hx | hx
      · exact hdone x hx
      · rw [List.mem_singleton.mp hx]
        exact Nat.lt_of_not_le hle

theorem bad_error {α : Type} {e : Fault} : Bad d (.error e : Except Fault (α × State)) := fun _ _ h => nomatch h

theorem read_marker (addr page_last reach : Nat) (buf : Bytes) :
    (∃ e, read_next_page uncompress addr buf
      ⟨between (d.header ++ pages_bytes d.pages) (hdr_bytes d.marker), page_last, reach⟩ = .error e) ∨
    ∃ found b s', read_next_page uncompress addr buf
      ⟨between (d.header ++ pages_bytes d.pages) (hdr_bytes d.marker), page_last, reach⟩ = .ok (found, b, s') ∧
      d.end_pos < s'.reach ∧ d.content.length ≤ s'.file.pos ∧ s'.file.content = d.content := by
  have hread := zg_read_header (d.header ++ pages_bytes d.pages) [] d.marker page_last reach
  rw [List.append_nil] at hread
  have hend : d.end_pos < max reach (d.header ++ pages_bytes d.pages ++ hdr_bytes d.marker).length := by
    rw [Dump.end_pos, @List.length_append _ _ (hdr_bytes d.marker), length_hdr_bytes, PG_HDR_SIZE]
    omega
  have hcontent : d.header ++ pages_bytes d.pages ++ hdr_bytes d.marker = d.content := by
    rw [Dump.content, List.append_assoc]
  have hflags : ¬d.marker.flags = DF_LKCD_DH_RAW ∧ ¬d.marker.flags = DF_LKCD_DH_COMPRESSED := by
    rcases d.ended.kind with hk | ⟨-, -, hk⟩
    · rw [hk]
      decide
    · rw [hk]
      decide
  have hskip : ∀ last r, (zg_seek_cur d.marker.size ⟨between (d.header ++ pages_bytes d.pages ++
    hdr_bytes d.marker) [], last, r⟩).reach = r ∧
      d.content.length ≤ (zg_seek_cur d.marker.size
        ⟨between (d.header ++ pages_bytes d.pages ++ hdr_bytes d.marker) [], last, r⟩).file.pos ∧
      (zg_seek_cur d.marker.size
        ⟨between (d.header ++ pages_bytes d.pages ++ hdr_bytes d.marker) [], last,
          r⟩).file.content = d.content := by
    intro last r
    rw [zg_seek_cur]
    dsimp only
    rw [File.seekBy, if_neg (by omega), hcontent]
    refine ⟨rfl, ?_, by simp⟩
    rw [between_pos]
    dsimp only
    omega
  rw [read_next_page, hread]
  simp only [d.ended.pg_hdr]
  by_cases heq : d.marker.addr = addr
  · rw [if_pos heq, read_page_buf, if_neg hflags.1, if_neg hflags.2]
    exact .inl ⟨_, rfl⟩
  · rw [if_neg heq]
    obtain ⟨h1, h2, h3⟩ := hskip (d.marker.addr / PAGE_SIZE)
      (max reach (d.header ++ pages_bytes d.pages ++ hdr_bytes d.marker).length)
    refine .inr ?_
    by_cases hgt : d.marker.addr > addr
    · rw [if_pos hgt]
      exact ⟨_, _, _, rfl, h1 ▸ hend, h2, h3⟩
    · rw [if_neg hgt]
      exact ⟨_, _, _, rfl, h1 ▸ hend, h2, h3⟩

theorem find_page_end {addr : Nat} : ∀ (steps : Nat) {s : State} (buf : Bytes), s.file.content.length ≤ s.file.pos →
    Bad d (find_page uncompress addr steps buf s)
  | 0, _, _, _ => bad_error
  | steps + 1, s, buf, h => by
    have hread : s.file.read PG_HDR_SIZE = (none, { s.file with pos := max s.file.pos s.file.content.length }) := by
      rw [File.read, if_neg (by decide), if_neg (by rw [PG_HDR_SIZE]; omega)]
    rw [find_page, read_next_page, zg_read, hread]
    exact bad_error

theorem find_page_bad {addr : Nat} : ∀ {rest done : List Page} {steps page_last reach : Nat} {buf : Bytes},
    d.pages = done ++ rest → (∀ p ∈ rest, p.addr < addr) → buf.length = PAGE_SIZE →
    Bad d (find_page uncompress addr steps buf
      ⟨between (d.header ++ pages_bytes done) (pages_bytes rest ++ hdr_bytes d.marker), page_last, reach⟩)
  | _, _, 0, _, _, _, _, _, _ => bad_error
  | [], done, steps + 1, page_last, reach, buf, hsplit, _, _ => by
    rw [List.append_nil] at hsplit
    rw [find_page, ← hsplit, show pages_bytes [] ++ hdr_bytes d.marker = hdr_bytes d.marker from rfl]
    rcases read_marker (d := d) addr page_last reach buf with ⟨e, he⟩ | ⟨found, b, s', he, hreach, hpos, hcontent⟩
    · rw [he]
      exact bad_error
    · rw [he]
      cases found with
      | true =>
        intro x s h
        cases h
        exact hreach
      | false => exact find_page_end steps b (by rw [hcontent]; exact hpos)
  | q :: rest, done, steps + 1, page_last, reach, buf, hsplit, hrest, hbuf => by
    have hq := d.stored q (by rw [hsplit]; exact List.mem_append_right _ List.mem_cons_self)
    obtain ⟨r, hr, hread⟩ := read_next_page_eq hq d.limit (d.header ++ pages_bytes done)
      (pages_bytes rest ++ hdr_bytes d.marker)
      addr page_last reach hbuf
    have hlt := hrest q List.mem_cons_self
    have hpre : d.header ++ pages_bytes done ++ q.bytes = d.header ++ pages_bytes (done ++ [q]) := by
      simp [pages_bytes]
    rw [find_page, pages_bytes_cons, List.append_assoc, hread, hpre, decide_eq_false (Nat.not_le_of_lt hlt),
      if_neg (Nat.ne_of_lt hlt), if_neg (Nat.not_le_of_lt hlt)]
    exact find_page_bad (by rw [hsplit]; simp) (fun p hp => hrest p (List.mem_cons_of_mem q hp)) hbuf

/-! ## Reading one page -/

theorem lt_of_index_lt {a n : Nat} (h : ADDR_TO_IDX a < ADDR_TO_IDX (n * PAGE_SIZE)) : a < n * PAGE_SIZE :=
  Nat.lt_of_not_le fun hle => absurd (ADDR_TO_IDX_mono hle) (Nat.not_le_of_lt h)

theorem index_entry_eq_zero {c : Nat} : d.index.entry c = 0 ↔ ¬∃ p ∈ d.pages, ADDR_TO_IDX p.addr = c := by
  rw [Dump.index]
  dsimp only
  by_cases h : ∃ p ∈ d.pages, ADDR_TO_IDX p.addr = c
  · obtain ⟨done, p, rest, -, -, -, hpos⟩ := @first_pos_some c d.pages DF_LKCD_HDR_SIZE h
    rw [hpos, Option.getD_some, DF_LKCD_HDR_SIZE]
    exact iff_of_false (by omega) (fun hn => hn h)
  · rw [first_pos_none fun p hp hc => h ⟨p, hp, hc⟩]
    exact iff_of_true rfl h

theorem seek_index {n : Nat} (h : ∃ p ∈ d.pages, ADDR_TO_IDX p.addr = ADDR_TO_IDX (n * PAGE_SIZE)) {s : State}
    (hs : s.file.content = d.content) :
    ∃ done rest, d.pages = done ++ rest ∧ (∀ p ∈ done, p.addr < n * PAGE_SIZE) ∧
      zg_seek (d.index.entry (ADDR_TO_IDX (n * PAGE_SIZE))) s =
        ⟨between (d.header ++ pages_bytes done) (pages_bytes rest ++ hdr_bytes d.marker),
          s.page_last, s.reach⟩ := by
  obtain ⟨done, p, rest, hsplit, hp, hdone, hpos⟩ := @first_pos_some _ d.pages DF_LKCD_HDR_SIZE h
  have hasc := d.ascending
  rw [hsplit] at hasc
  refine ⟨done, p :: rest, hsplit, fun q hq => lt_of_index_lt ?_, ?_⟩
  · have hlt := (List.pairwise_append.mp hasc).2.2 q hq p List.mem_cons_self
    have hle := ADDR_TO_IDX_mono (Nat.le_of_lt hlt)
    exact Nat.lt_of_le_of_ne (hp ▸ hle) (hdone q hq)
  · rw [zg_seek, Dump.index]
    dsimp only
    rw [hpos, Option.getD_some, ← d.header_length, ← List.length_append]
    congr 1
    exact seek_between _ _ _ (by rw [hs, Dump.content, hsplit]; simp)

inductive Ready (d : Dump uncompress) : State → Prop
  | fresh : Ready d d.fresh
  | inStream {s : State} : InStream d s → Ready d s

theorem InStream.content {s : State} (h : InStream d s) : s.file.content = d.content := by
  obtain ⟨hsplit, -⟩ := h
  rw [between_content, Dump.content, hsplit]
  simp

theorem Ready.content {s : State} (h : Ready d s) : s.file.content = d.content := by
  cases h with
  | fresh => exact List.append_nil _
  | inStream h => exact h.content

theorem InStream.ne_fresh {s : State} (h : InStream d s) : s ≠ d.fresh := by
  intro he
  have hc := h.content
  obtain ⟨hsplit, -⟩ := h
  have hpos := congrArg (fun s => s.file.pos) he
  have hlen := congrArg List.length hc
  simp only [Dump.fresh, between_pos, between_content] at hpos hlen
  rw [← hpos, @List.length_append _ _ (_ ++ _), @List.length_append _ _ (hdr_bytes _),
    length_hdr_bytes, PG_HDR_SIZE] at hlen
  omega

variable {n : Nat} {s : State} {buf : Bytes}

theorem last_read {done rest : List Page} {p : Page} (hsplit : d.pages = done ++ p :: rest)
    (hn : n * PAGE_SIZE < 18446744073709551616)
    (hlast : p.addr / PAGE_SIZE = u64 ((n : Int) - 1)) :
    (∀ q ∈ done ++ [p], q.addr < n * PAGE_SIZE) ∧ ∀ q ∈ rest, n * PAGE_SIZE ≤ q.addr := by
  have hp := d.stored p (by rw [hsplit]; exact List.mem_append_right _ List.mem_cons_self)
  have hal := hp.aligned
  have hbelow := Nat.lt_trans hp.below d.limit
  have hasc := d.ascending
  rw [hsplit] at hasc
  obtain ⟨-, hrest, hdone⟩ := List.pairwise_append.mp hasc
  rw [PAGE_SIZE] at hal hn hlast ⊢
  have hpn : p.addr + 4096 = n * 4096 := by
    unfold u64 at hlast
    omega
  refine ⟨fun q hq => ?_, fun q hq => ?_⟩
  · rcases List.mem_append.mp hq with hq | hq
    · have := hdone q hq p List.mem_cons_self
      omega
    · rw [List.mem_singleton.mp hq]
      omega
  · have hqa := (d.stored q (by rw [hsplit]; exact List.mem_append_right _ (List.mem_cons_of_mem p hq))).aligned
    have := List.rel_of_pairwise_cons hrest hq
    rw [PAGE_SIZE] at hqa
    omega

theorem u64_page (hn : n * PAGE_SIZE < 18446744073709551616) : u64 ((n : Int) * (PAGE_SIZE : Int)) =
    n * PAGE_SIZE := by
  rw [← Int.natCast_mul, u64_of_lt (Int.natCast_nonneg _) (by omega), Int.toNat_natCast]

theorem read_page_good (hidx : d.Indexed) (hs : Ready d s) (hn : n * PAGE_SIZE < 18446744073709551616)
    (hfirst : s = d.fresh → n ≠ 1) (hc : d.Covered n) (hbuf : buf.length = PAGE_SIZE) :
    ∃ s', read_page_flex uncompress d.index n buf s = .ok (d.page_data n, s') ∧ InStream d s' := by
  have hcontent := hs.content
  have hsize : ¬d.index.size ≤ ADDR_TO_IDX (n * PAGE_SIZE) := by
    obtain ⟨p, hp, hpc⟩ := hc.1
    have := hidx p hp
    rw [hpc] at this
    exact Nat.not_le_of_lt this
  have hentry : ¬d.index.entry (ADDR_TO_IDX (n * PAGE_SIZE)) = 0 := fun h => index_entry_eq_zero.1 h hc.1
  have hslow : s.reach ≤ d.end_pos → ∃ s', find_page uncompress (n * PAGE_SIZE) (s.file.content.length + 1) buf
      (zg_seek (d.index.entry (ADDR_TO_IDX (n * PAGE_SIZE))) s) = .ok (d.page_data n, s') ∧ InStream d s' := by
    intro hreach
    obtain ⟨done, rest, hsplit, hdone, hseek⟩ := seek_index hc.1 hcontent
    obtain ⟨p, hp, hpn⟩ := hc.2
    have hrest : p ∈ rest := by
      rw [hsplit] at hp
      exact (List.mem_append.mp hp).resolve_left fun h => absurd (hdone p h) (Nat.not_lt_of_le hpn)
    rw [hseek]
    refine find_page_found hsplit hdone ⟨p, hrest, hpn⟩ ?_ hbuf hreach
    have h1 := length_le_pages_bytes rest
    rw [hcontent, Dump.content, hsplit, pages_bytes_append, List.length_append, List.length_append,
      List.length_append]
    omega
  rw [read_page_flex]
  simp only [u64_page hn]
  rw [if_neg hsize, if_neg hentry]
  cases hs with
  | fresh =>
    have hne : ¬d.fresh.page_last = u64 ((n : Int) - 1) := by
      have hn1 := hfirst rfl
      rw [PAGE_SIZE] at hn
      rw [show d.fresh.page_last = 0 from rfl]
      unfold u64
      omega
    rw [if_neg hne]
    exact hslow (Nat.zero_le _)
  | inStream hin =>
    obtain ⟨hsplit, hreach⟩ := hin
    rename_i done rest p reach
    by_cases hlast : p.addr / PAGE_SIZE = u64 ((n : Int) - 1)
    · obtain ⟨hdone, hrest⟩ := last_read hsplit hn hlast
      rw [if_pos hlast]
      cases rest with
      | nil =>
        obtain ⟨q, hq, hqn⟩ := hc.2
        rw [hsplit] at hq
        exact absurd (hdone q hq) (Nat.not_lt_of_le hqn)
      | cons q rest =>
        have hq := d.stored q (by
          rw [hsplit]
          exact List.mem_append_right _ (List.mem_cons_of_mem p List.mem_cons_self))
        have hqn := hrest q List.mem_cons_self
        have hsplit' : d.pages = (done ++ [p]) ++ q :: rest := by rw [hsplit]; simp
        have hend := @end_pos_eq _ d (done ++ [p] ++ [q]) rest (by rw [hsplit']; simp)
        obtain ⟨r, hr, hread⟩ := read_next_page_eq hq d.limit (d.header ++ pages_bytes (done ++ [p]))
          (pages_bytes rest ++ hdr_bytes d.marker) (n * PAGE_SIZE) (p.addr / PAGE_SIZE) reach hbuf
        have hpre : d.header ++ pages_bytes (done ++ [p]) ++ q.bytes = d.header ++
          pages_bytes (done ++ [p] ++ [q]) := by
          simp [pages_bytes]
        rw [pages_bytes_cons, List.append_assoc, hread, hpre, if_pos hqn, Dump.page_data_eq hsplit' hdone hqn]
        refine ⟨_, rfl, .mk hsplit' ?_⟩
        rw [hpre] at hr
        omega
    · rw [if_neg hlast]
      exact hslow hreach

theorem read_page_bad (hs : Ready d s) (hn : n * PAGE_SIZE < 18446744073709551616)
    (hbad : ¬((s = d.fresh → n ≠ 1) ∧ d.Covered n)) (hbuf : buf.length = PAGE_SIZE) :
    Bad d (read_page_flex uncompress d.index n buf s) := by
  have hcontent := hs.content
  rw [read_page_flex]
  simp only [u64_page hn]
  by_cases hsize : d.index.size ≤ ADDR_TO_IDX (n * PAGE_SIZE)
  · rw [if_pos hsize]
    exact bad_error
  rw [if_neg hsize]
  by_cases hentry : d.index.entry (ADDR_TO_IDX (n * PAGE_SIZE)) = 0
  · rw [if_pos hentry]
    exact bad_error
  rw [if_neg hentry]
  have hcluster : ∃ p ∈ d.pages, ADDR_TO_IDX p.addr = ADDR_TO_IDX (n * PAGE_SIZE) :=
    not_not.mp fun h => hentry (index_entry_eq_zero.2 h)
  have hslow : ¬d.Covered n → Bad d (find_page uncompress (n * PAGE_SIZE) (s.file.content.length + 1) buf
      (zg_seek (d.index.entry (ADDR_TO_IDX (n * PAGE_SIZE))) s)) := by
    intro hnc
    obtain ⟨done, rest, hsplit, -, hseek⟩ := seek_index hcluster hcontent
    rw [hseek]
    refine find_page_bad hsplit (fun p hp => Nat.lt_of_not_le fun hle => hnc ⟨hcluster, p, ?_, hle⟩) hbuf
    rw [hsplit]
    exact List.mem_append_right _ hp
  cases hs with
  | fresh =>
    by_cases hlast : d.fresh.page_last = u64 ((n : Int) - 1)
    · have hread : d.fresh.file.read PG_HDR_SIZE = (none, between (d.content ++ []) []) := read_end (by decide)
      rw [if_pos hlast, read_next_page, zg_read, hread]
      exact bad_error
    · rw [if_neg hlast]
      refine hslow fun hc => hbad ⟨fun _ hn1 => hlast ?_, hc⟩
      rw [hn1]
      rfl
  | inStream hin =>
    have hnf := hin.ne_fresh
    have hnc : ¬d.Covered n := fun hc => hbad ⟨fun h => absurd h hnf, hc⟩
    obtain ⟨hsplit, hreach⟩ := hin
    rename_i done rest p reach
    by_cases hlast : p.addr / PAGE_SIZE = u64 ((n : Int) - 1)
    · obtain ⟨-, hrest⟩ := last_read hsplit hn hlast
      rw [if_pos hlast]
      cases rest with
      | nil =>
        rw [← hsplit, show pages_bytes [] ++ hdr_bytes d.marker = hdr_bytes d.marker from rfl]
        rcases read_marker (d := d) (n * PAGE_SIZE) (p.addr / PAGE_SIZE) reach buf with ⟨e,
          he⟩ | ⟨found, b, s', he, hend, -, -⟩
        · rw [he]
          exact bad_error
        · rw [he]
          intro x s h
          cases h
          exact hend
      | cons q rest =>
        refine absurd ⟨hcluster, q, ?_, hrest q List.mem_cons_self⟩ hnc
        rw [hsplit]
        exact List.mem_append_right _ (List.mem_cons_of_mem p List.mem_cons_self)
    · rw [if_neg hlast]
      exact hslow hnc

end

end Zdump.Lkcd
