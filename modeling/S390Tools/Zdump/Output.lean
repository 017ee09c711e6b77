import S390Tools.Lib.Word
import S390Tools.Lib.Window

/-!
# The output dump

An output format registers chunks of bytes; a chunk that is added later covers
those before it. Reading copies piece by piece, a piece ends where another chunk
begins. What a chunk's read function returns is a function of the offset.
-/

namespace Zdump

open Word Window

def U64_MAX : Nat := 18446744073709551615

structure DfoChunk where
  start : Nat
  stop : Nat
  size : Nat
  read : Nat → UInt8

/-- The output dump with its chunks, the last one that was added in front. -/
structure Dump where
  off : Nat
  size : Nat
  chunk_list : List DfoChunk

def Dump.empty : Dump := { off := 0, size := 0, chunk_list := [] }

def dfo_chunk_add (start size : Nat) (read : Nat → UInt8) (d : Dump) : Dump :=
  let chunk := { start, stop := u64 (start + size - 1), size, read }
  { d with chunk_list := chunk :: d.chunk_list, size := max d.size (u64 (chunk.stop + 1)) }

def dfo_chunk_find (off : Nat) : List DfoChunk → Nat → Option (DfoChunk × Nat)
  | [], _ => none
  | c :: cs, stop =>
    if c.start ≤ off ∧ c.stop ≥ off then some (c, min stop c.stop)
    else if c.start > off then dfo_chunk_find off cs (min stop (u64 (c.start - 1)))
    else dfo_chunk_find off cs stop

def dfo_seek (off : Nat) (d : Dump) : Dump := { d with off }

/-- The loop of `dfo_read` with `left` bytes to go; a round copies at least one byte. -/
def dfo_read_loop (cs : List DfoChunk) : (fuel left off : Nat) → List UInt8 × Nat
  | 0, _, off => ([], off)
  | fuel + 1, left, off =>
    if left = 0 then ([], off)
    else
      match dfo_chunk_find off cs U64_MAX with
      | none => ([], off)
      | some (c, stop) =>
        let size := min left (u64 (stop - off + 1))
        let piece := (List.range size).map fun i => c.read (off - c.start + i)
        let (buf, off) := dfo_read_loop cs fuel (left - size) (u64 (off + size))
        (piece ++ buf, off)

def dfo_read (cnt : Nat) (d : Dump) : List UInt8 × Dump :=
  let (buf, off) := dfo_read_loop d.chunk_list cnt cnt d.off
  (buf, { d with off })

/-! ## The bytes of a dump -/

def DfoChunk.Covers (c : DfoChunk) (off : Nat) : Prop := c.start ≤ off ∧ off ≤ c.stop

instance (c : DfoChunk) (off : Nat) : Decidable (c.Covers off) := inferInstanceAs (Decidable (_ ∧ _))

@[grind =] def content : List DfoChunk → Nat → Option UInt8
  | [], _ => none
  | c :: cs, off => if c.Covers off then some (c.read (off - c.start)) else content cs off

/-- The start and the end are 64-bit offsets; a chunk that ends in front of its start covers nothing. -/
def DfoChunk.Proper (c : DfoChunk) : Prop := c.start ≤ U64_MAX ∧ c.stop < U64_MAX

theorem content_ne_none {cs : List DfoChunk} {off : Nat} : content cs off ≠ none ↔ ∃ c ∈ cs, c.Covers off := by
  induction cs with
  | nil => simp [content]
  | cons c cs ih =>
    rw [content]
    by_cases h : c.Covers off
    · rw [if_pos h]
      exact iff_of_true (by simp) ⟨c, List.mem_cons_self .., h⟩
    · rw [if_neg h, ih]
      simp [h]

theorem find_none {off : Nat} : ∀ {cs : List DfoChunk} {stop : Nat}, dfo_chunk_find off cs stop = none →
    content cs off = none
  | [], _, _ => rfl
  | c :: cs, stop, h => by
    rw [dfo_chunk_find] at h
    rw [content]
    by_cases hc : c.start ≤ off ∧ c.stop ≥ off
    · rw [if_pos hc] at h
      cases h
    · rw [if_neg hc] at h
      rw [if_neg (fun hcov => hc ⟨hcov.1, hcov.2⟩)]
      split at h
      · exact find_none h
      · exact find_none h

theorem find_some {off : Nat} {c : DfoChunk} {e : Nat} : ∀ {cs : List DfoChunk} {stop : Nat},
    (∀ c ∈ cs, c.Proper) → off ≤ stop → dfo_chunk_find off cs stop = some (c, e) →
      off ≤ e ∧ e ≤ stop ∧ c ∈ cs ∧ c.start ≤ off ∧ e ≤ c.stop ∧
        ∀ x, off ≤ x → x ≤ e → content cs x = some (c.read (x - c.start))
  | [], _, _, _, h => by cases h
  | b :: cs, stop, hp, hs, h => by
    rw [dfo_chunk_find] at h
    by_cases hb : b.start ≤ off ∧ b.stop ≥ off
    · rw [if_pos hb] at h
      cases h
      refine ⟨le_min hs hb.2, min_le_left _ _, List.mem_cons_self .., hb.1, min_le_right _ _, fun x h₁ h₂ => ?_⟩
      rw [content, if_pos ⟨Nat.le_trans hb.1 h₁, Nat.le_trans h₂ (min_le_right _ _)⟩]
    · rw [if_neg hb] at h
      have hcs : ∀ c ∈ cs, c.Proper := fun c hc => hp c (List.mem_cons_of_mem _ hc)
      have hbp := hp b (List.mem_cons_self ..)
      by_cases hgt : b.start > off
      · rw [if_pos hgt] at h
        have hsub : u64 ((b.start : Int) - 1) = b.start - 1 := by
          have := hbp.1
          unfold U64_MAX at this
          rw [u64_of_lt (by omega) (by omega)]
          omega
        rw [hsub] at h
        obtain ⟨h₁, h₂, h₃, h₄, h₅, h₆⟩ := find_some hcs (by omega) h
        refine ⟨h₁, by omega, List.mem_cons_of_mem _ h₃, h₄, h₅, fun x hx hx' => ?_⟩
        rw [content, if_neg (fun hcov => by have := hcov.1; omega)]
        exact h₆ x hx hx'
      · rw [if_neg hgt] at h
        obtain ⟨h₁, h₂, h₃, h₄, h₅, h₆⟩ := find_some hcs hs h
        refine ⟨h₁, h₂, List.mem_cons_of_mem _ h₃, h₄, h₅, fun x hx hx' => ?_⟩
        rw [content, if_neg (fun hcov => by have := hcov.2; omega)]
        exact h₆ x hx hx'

theorem read_loop_eq {cs : List DfoChunk} (hp : ∀ c ∈ cs, c.Proper) : ∀ {fuel left off : Nat}, left ≤ fuel →
    off ≤ U64_MAX → dfo_read_loop cs fuel left off =
      (window (content cs) off left, off + (window (content cs) off left).length)
  | 0, left, off, hl, _ => by
    rw [Nat.le_zero.mp hl]
    rfl
  | fuel + 1, left, off, hl, ho => by
    rw [dfo_read_loop]
    by_cases h0 : left = 0
    · rw [if_pos h0, h0]
      rfl
    · rw [if_neg h0]
      cases hf : dfo_chunk_find off cs U64_MAX with
      | none =>
        rw [window_none (find_none hf)]
        rfl
      | some r =>
        obtain ⟨c, e⟩ := r
        obtain ⟨h₁, h₂, h₃, h₄, h₅, h₆⟩ := find_some hp ho hf
        have hc := (hp c h₃).2
        unfold U64_MAX at hc
        have hsize : u64 ((e : Int) - off + 1) = e - off + 1 := by
          rw [u64_of_lt (by omega) (by omega)]
          omega
        have hoff : u64 ((off : Int) + (min left (e - off + 1) : Nat)) = off + min left (e - off + 1) := by
          rw [u64_of_lt (by omega) (by omega)]
          omega
        simp only [hsize, hoff]
        have hrec := @read_loop_eq _ hp fuel (left - min left (e - off + 1))
          (off + min left (e - off + 1)) (by omega) (by unfold U64_MAX; omega)
        have hwin := window_append (f := content cs) (g := fun i => c.read (off - c.start + i)) (a := off)
          (k := min left (e - off + 1)) (n := left) (by omega) fun i hi => by
            rw [h₆ (off + i) (by omega) (by omega)]
            congr 2
            omega
        rw [hrec, hwin]
        simp only [List.length_append, List.length_map, List.length_range]
        rw [Nat.add_assoc]

theorem dfo_read_eq {d : Dump} (hp : ∀ c ∈ d.chunk_list, c.Proper) (ho : d.off ≤ U64_MAX) (cnt : Nat) :
    dfo_read cnt d = (window (content d.chunk_list) d.off cnt,
      { d with off := d.off + (window (content d.chunk_list) d.off cnt).length }) := by
  unfold dfo_read
  rw [read_loop_eq hp (Nat.le_refl cnt) ho]

/-! ## Sequences of operations -/

inductive Op
  | chunk_add (start size : Nat) (read : Nat → UInt8)
  | seek (off : Nat)
  | read (cnt : Nat)

/-- A chunk that is not empty and does not wrap around; an offset of 64 bits. -/
def Op.Proper : Op → Prop
  | .chunk_add start size _ => 1 ≤ size ∧ start + size ≤ U64_MAX
  | .seek off => off ≤ U64_MAX
  | .read _ => True

def run : Dump → List Op → List (List UInt8)
  | _, [] => []
  | d, .chunk_add start size read :: ops => run (dfo_chunk_add start size read d) ops
  | d, .seek off :: ops => run (dfo_seek off d) ops
  | d, .read cnt :: ops => (dfo_read cnt d).1 :: run (dfo_read cnt d).2 ops

def reads : (Nat → Option UInt8) → Nat → List Op → List (List UInt8)
  | _, _, [] => []
  | bytes, off, .chunk_add start size read :: ops =>
    reads (fun x => if start ≤ x ∧ x < start + size then some (read (x - start)) else bytes x) off ops
  | bytes, _, .seek off :: ops => reads bytes off ops
  | bytes, off, .read cnt :: ops =>
    window bytes off cnt :: reads bytes (off + (window bytes off cnt).length) ops

/-- The state of a dump that is built by proper operations. -/
structure Dump.Ok (d : Dump) : Prop where
  proper : ∀ c ∈ d.chunk_list, c.Proper
  off : d.off ≤ U64_MAX
  size : ∀ x, content d.chunk_list x ≠ none → x < d.size

theorem chunk_add_covers (start size : Nat) (read : Nat → UInt8) (d : Dump) (x : Nat) :
    content (dfo_chunk_add start size read d).chunk_list x =
      if start ≤ x ∧ x ≤ u64 ((start : Int) + size - 1) then some (read (x - start)) else content d.chunk_list x :=
  rfl

theorem chunk_add_size (start size : Nat) (read : Nat → UInt8) (d : Dump) :
    (dfo_chunk_add start size read d).size = max d.size (u64 ((u64 ((start : Int) + size - 1) : Int) + 1)) :=
  rfl

theorem chunk_add_stop {start size : Nat} (h : 1 ≤ size) (h' : start + size ≤ U64_MAX) :
    u64 ((start : Int) + size - 1) = start + size - 1 ∧ u64 (((start + size - 1 : Nat) : Int) + 1) =
      start + size := by
  unfold U64_MAX at h'
  constructor
  · rw [u64_of_lt (by omega) (by omega)]
    omega
  · rw [u64_of_lt (by omega) (by omega)]
    omega

theorem chunk_add_content {start size : Nat} (h : 1 ≤ size) (h' : start + size ≤ U64_MAX)
    (read : Nat → UInt8) (d : Dump) :
    content (dfo_chunk_add start size read d).chunk_list = fun x =>
      if start ≤ x ∧ x < start + size then some (read (x - start)) else content d.chunk_list x := by
  funext x
  rw [chunk_add_covers, (chunk_add_stop h h').1]
  congr 1
  rw [eq_iff_iff]
  omega

theorem chunk_add_ok_of_stop {d : Dump} (hd : d.Ok) {start size : Nat} (h : start ≤ U64_MAX)
    (h' : u64 ((start : Int) + size - 1) < U64_MAX) (read : Nat → UInt8) :
      (dfo_chunk_add start size read d).Ok := by
  have hsize : (dfo_chunk_add start size read d).size = max d.size (u64 ((start : Int) + size - 1) + 1) := by
    unfold U64_MAX at h'
    rw [chunk_add_size, u64_of_lt (x := (u64 ((start : Int) + size - 1) : Int) + 1) (by omega) (by omega)]
    rfl
  refine ⟨fun c hc => ?_, hd.off, fun x hx => ?_⟩
  · rcases List.mem_cons.mp hc with rfl | hc
    · exact ⟨h, h'⟩
    · exact hd.proper c hc
  · rw [hsize]
    rw [chunk_add_covers] at hx
    split at hx
    · rename_i hcov
      omega
    · have := hd.size x hx
      omega

theorem chunk_add_ok {d : Dump} (hd : d.Ok) {start size : Nat} (h : 1 ≤ size) (h' : start + size ≤ U64_MAX)
    (read : Nat → UInt8) : (dfo_chunk_add start size read d).Ok := by
  refine chunk_add_ok_of_stop hd (by omega) ?_ read
  rw [(chunk_add_stop h h').1]
  omega

theorem read_ok {d : Dump} (hd : d.Ok) (cnt : Nat) : (dfo_read cnt d).2.Ok := by
  rw [dfo_read_eq hd.proper hd.off]
  refine ⟨hd.proper, ?_, hd.size⟩
  show d.off + (window (content d.chunk_list) d.off cnt).length ≤ U64_MAX
  rcases Nat.eq_zero_or_pos (window (content d.chunk_list) d.off cnt).length with h0 | hpos
  · rw [h0]
    exact hd.off
  · -- the last byte that was read lies in a chunk
    have hlast := get_window (f := content d.chunk_list) (a := d.off) (n := cnt)
      (i := (window (content d.chunk_list) d.off cnt).length - 1) (by omega)
    obtain ⟨c, hc, hcov⟩ := content_ne_none.1 (show content d.chunk_list _ ≠ none by rw [hlast]; simp)
    have h₁ := (hd.proper c hc).2
    have h₂ := hcov.2
    omega

theorem run_eq_reads : ∀ {ops : List Op} {d : Dump}, d.Ok → (∀ op ∈ ops, op.Proper) →
    run d ops = reads (content d.chunk_list) d.off ops
  | [], _, _, _ => rfl
  | .chunk_add start size read :: ops, d, hd, hp => by
    obtain ⟨h₁, h₂⟩ := hp _ (List.mem_cons_self ..)
    rw [run, reads, run_eq_reads (chunk_add_ok hd h₁ h₂ read) fun op hop => hp op (List.mem_cons_of_mem _ hop),
      chunk_add_content h₁ h₂]
    rfl
  | .seek off :: ops, d, hd, hp => by
    have hoff : off ≤ U64_MAX := hp _ (List.mem_cons_self ..)
    rw [run, reads, run_eq_reads (d := dfo_seek off d) ⟨hd.proper, hoff, hd.size⟩ fun op hop =>
      hp op (List.mem_cons_of_mem _ hop)]
    rfl
  | .read cnt :: ops, d, hd, hp => by
    rw [run, reads, run_eq_reads (read_ok hd cnt) fun op hop => hp op (List.mem_cons_of_mem _ hop),
      dfo_read_eq hd.proper hd.off]

/-! ## Copying a dump -/

/-- The loop of `stdout_write_dump`; `none` when it does not end within the rounds. -/
def stdout_loop : (fuel : Nat) → Dump → List UInt8 → Option (List UInt8)
  | 0, _, _ => none
  | fuel + 1, d, written =>
    let (buf, d) := dfo_read 32768 d
    let written := written ++ buf
    if written.length = d.size then some written else stdout_loop fuel d written

def stdout_write_dump (fuel : Nat) (d : Dump) : Option (List UInt8) := stdout_loop fuel d []

def zfuse_read (size offset : Nat) (d : Dump) : List UInt8 := (dfo_read size (dfo_seek offset d)).1

def Dump.Gapless (d : Dump) : Prop := ∀ x < d.size, content d.chunk_list x ≠ none

theorem copy_step {d : Dump} (hd : d.Ok) (hfull : (window (content d.chunk_list) 0 d.off).length =
    d.off) (n : Nat) :
    window (content d.chunk_list) 0 d.off ++ window (content d.chunk_list) d.off n =
        window (content d.chunk_list) 0 (d.off + (window (content d.chunk_list) d.off n).length) ∧
      (window (content d.chunk_list) 0 (d.off + (window (content d.chunk_list) d.off n).length)).length =
        d.off + (window (content d.chunk_list) d.off n).length ∧
      (d.off ≤ d.size → d.off + (window (content d.chunk_list) d.off n).length ≤ d.size) := by
  have hn := window_length_le (f := content d.chunk_list) n d.off
  have hdef : ∀ i < (window (content d.chunk_list) d.off n).length, content d.chunk_list (d.off + i) ≠ none := by
    intro i hi
    rw [get_window hi]
    simp
  have hlast : (window (content d.chunk_list) d.off n).length ≠ 0 →
      content d.chunk_list (d.off + ((window (content d.chunk_list) d.off n).length - 1)) ≠ none :=
    fun h => hdef _ (by omega)
  have hshort : window (content d.chunk_list) d.off n =
      window (content d.chunk_list) d.off (window (content d.chunk_list) d.off n).length := by
    have hsplit := window_split (n := n - (window (content d.chunk_list) d.off n).length) _ (window_full hdef)
    rw [Nat.add_sub_cancel' hn] at hsplit
    have hnil := congrArg List.length hsplit
    rw [List.length_append, window_full hdef] at hnil
    have : (window (content d.chunk_list) (d.off + (window (content d.chunk_list) d.off n).length)
        (n - (window (content d.chunk_list) d.off n).length)).length = 0 := by omega
    rw [List.eq_nil_of_length_eq_zero this, List.append_nil] at hsplit
    exact hsplit
  generalize (window (content d.chunk_list) d.off n).length = k at hdef hlast hshort ⊢
  have hjoin : window (content d.chunk_list) 0 d.off ++ window (content d.chunk_list) d.off n =
      window (content d.chunk_list) 0 (d.off + k) := by
    rw [window_split d.off hfull, hshort, Nat.zero_add]
  refine ⟨hjoin, ?_, fun hle => ?_⟩
  · rw [window_split d.off hfull, Nat.zero_add, List.length_append, hfull, window_full hdef]
  · rcases Nat.eq_zero_or_pos k with rfl | hpos
    · exact hle
    · have := hd.size _ (hlast (by omega))
      omega

theorem stdout_loop_eq : ∀ {fuel : Nat} {d : Dump} {out : List UInt8}, d.Ok → d.off ≤ d.size →
    (window (content d.chunk_list) 0 d.off).length = d.off →
    stdout_loop fuel d (window (content d.chunk_list) 0 d.off) = some out →
    out = window (content d.chunk_list) 0 d.size ∧ out.length = d.size
  | 0, _, _, _, _, _, h => by cases h
  | fuel + 1, d, out, hd, hle, hfull, h => by
    obtain ⟨hjoin, hlen, hin⟩ := copy_step hd hfull 32768
    have hok := read_ok hd 32768
    rw [dfo_read_eq hd.proper hd.off] at hok
    rw [stdout_loop, dfo_read_eq hd.proper hd.off] at h
    simp only [hjoin] at h
    split at h
    · rename_i hsize
      cases h
      refine ⟨?_, hsize⟩
      rw [← hsize, hlen]
    · exact stdout_loop_eq (d := { d with off := d.off + _ }) hok (hin hle) hlen h

theorem stdout_loop_ends : ∀ {fuel : Nat} {d : Dump}, d.Ok → d.Gapless → d.off ≤ d.size →
    (window (content d.chunk_list) 0 d.off).length = d.off → d.size - d.off < fuel * 32768 →
    ∃ out, stdout_loop fuel d (window (content d.chunk_list) 0 d.off) = some out
  | 0, _, _, _, _, _, h => by omega
  | fuel + 1, d, hd, hgap, hle, hfull, h => by
    obtain ⟨hjoin, hlen, hin⟩ := copy_step hd hfull 32768
    have hok := read_ok hd 32768
    rw [dfo_read_eq hd.proper hd.off] at hok
    rw [stdout_loop, dfo_read_eq hd.proper hd.off]
    simp only [hjoin]
    split
    · exact ⟨_, rfl⟩
    · rename_i hsize
      rw [hlen] at hsize
      refine stdout_loop_ends (d := { d with off := d.off + _ }) hok hgap (hin hle) hlen ?_
      have hstop := window_stop (f := content d.chunk_list) (a := d.off) (n := 32768)
      have hmore : ¬ (window (content d.chunk_list) d.off 32768).length < 32768 := by
        intro hlt
        refine hgap _ ?_ (hstop hlt)
        have := hin hle
        omega
      show d.size - (d.off + (window (content d.chunk_list) d.off 32768).length) < fuel * 32768
      omega

theorem stdout_write_dump_iff {d : Dump} (hd : d.Ok) (h0 : d.off = 0) :
    (∃ fuel out, stdout_write_dump fuel d = some out) ↔ d.Gapless := by
  have hfull : (window (content d.chunk_list) 0 d.off).length = d.off := by rw [h0]; rfl
  have hstart : window (content d.chunk_list) 0 d.off = [] := by rw [h0]; rfl
  constructor
  · rintro ⟨fuel, out, h⟩ x hx
    rw [stdout_write_dump, ← hstart] at h
    obtain ⟨rfl, hlen⟩ := stdout_loop_eq hd (by omega) hfull h
    have hget := get_window (f := content d.chunk_list) (a := 0) (n := d.size) (i := x) (by rw [hlen]; exact hx)
    rw [Nat.zero_add] at hget
    rw [hget]
    simp
  · intro hgap
    obtain ⟨out, h⟩ := @stdout_loop_ends (d.size + 1) _ hd hgap (by omega) hfull (by omega)
    rw [hstart] at h
    exact ⟨_, out, h⟩

theorem stdout_write_dump_eq {d : Dump} (hd : d.Ok) (h0 : d.off = 0) {fuel : Nat} {out : List UInt8}
    (h : stdout_write_dump fuel d = some out) :
    out.length = d.size ∧ ∀ size offset, offset ≤ U64_MAX → zfuse_read size offset d =
      (out.drop offset).take size := by
  have hfull : (window (content d.chunk_list) 0 d.off).length = d.off := by rw [h0]; rfl
  have hstart : window (content d.chunk_list) 0 d.off = [] := by rw [h0]; rfl
  rw [stdout_write_dump, ← hstart] at h
  obtain ⟨rfl, hlen⟩ := stdout_loop_eq hd (by omega) hfull h
  refine ⟨hlen, fun size offset ho => ?_⟩
  rw [zfuse_read, dfo_read_eq (d := dfo_seek offset d) hd.proper ho]
  show window (content d.chunk_list) offset size = _
  apply List.ext_getElem?
  intro i
  have hdef : ∀ x < d.size, ∃ b, content d.chunk_list x = some b ∧
      (window (content d.chunk_list) 0 d.size)[x]? = some b := by
    intro x hx
    have := get_window (f := content d.chunk_list) (a := 0) (n := d.size) (i := x) (by rw [hlen]; exact hx)
    rw [Nat.zero_add] at this
    exact ⟨_, this, List.getElem?_eq_getElem _⟩
  rw [List.getElem?_take]
  by_cases hi : i < size
  · rw [if_pos hi, List.getElem?_drop]
    by_cases hlt : i < (window (content d.chunk_list) offset size).length
    · have hget := get_window hlt
      rw [List.getElem?_eq_getElem hlt, ← hget]
      obtain ⟨b, hb, hw⟩ := hdef (offset + i) (hd.size _ (by rw [hget]; simp))
      rw [hw, hb]
    · rw [List.getElem?_eq_none (by omega)]
      have hstop := window_stop (f := content d.chunk_list) (a := offset) (n := size) (by omega)
      rw [List.getElem?_eq_none]
      rw [hlen]
      by_contra hin
      obtain ⟨b, hb, -⟩ := hdef (offset + (window (content d.chunk_list) offset size).length) (by omega)
      rw [hb] at hstop
      cases hstop
  · rw [if_neg hi, List.getElem?_eq_none]
    have := window_length_le (f := content d.chunk_list) size offset
    omega

end Zdump
