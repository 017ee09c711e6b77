import S390Tools.Vtoc.Labels
import S390Tools.Zipl.Compaction

/-!
# Segment tables

`add_segment_table` writes a block list as a chain of tables into the bootmap
file, the last table first. A reader that follows the chain finds the pointers of
the list in order, and behind them the blocks of the file.
-/

namespace Zipl

open Word

abbrev Table := Nat → StoredPtr

/-- The bootmap file: the next block to write, and the tables found on the disk. -/
structure BootmapFile where
  pos : Nat
  tables : Addr → Option Table

def max_offset (info : DiskInfo) : Nat := info.phy_block_size / get_blockptr_size info - 1

/-- `phys` maps a block of the file to a block of the disk; without one the write fails. -/
def disk_write_block_aligned (phys : Nat → Option Nat) (file : BootmapFile) (data : Table) (block : DiskBlockptr)
    (info : DiskInfo) : Option (DiskBlockptr × BootmapFile) :=
  match phys file.pos with
  | none => none
  | some blocknum =>
    some (disk_blockptr_from_blocknum block blocknum info,
      ⟨file.pos + 1, Function.update file.tables (blockAddr info blocknum) (some data)⟩)

structure SegmentState where
  buffer : Table
  next : DiskBlockptr
  file : BootmapFile

def segmentLoop (info : DiskInfo) (phys : Nat → Option Nat) (empty_block : DiskBlockptr)
    (list : Nat → DiskBlockptr) :
    Nat → Nat → SegmentState → Option SegmentState
  | 0, _, s => some s
  | count + 1, offset, s =>
    let ptr := if disk_is_zero_block (list count) info then empty_block else list count
    let buffer := Function.update s.buffer offset (bootmap_store_blockptr (some ptr) info)
    if offset > 0 then segmentLoop info phys empty_block list count (offset - 1) { s with buffer := buffer }
    else
      let buffer := Function.update buffer (max_offset info) (bootmap_store_blockptr (some s.next) info)
      match disk_write_block_aligned phys s.file buffer s.next info with
      | none => none
      | some (next, file) => segmentLoop info phys empty_block list count (max_offset info - 1) ⟨buffer, next, file⟩

def add_segment_table (info : DiskInfo) (phys : Nat → Option Nat) (empty_block : DiskBlockptr)
    (list : Nat → DiskBlockptr)
    (count : Nat) (file : BootmapFile) : Option (DiskBlockptr × BootmapFile) :=
  (segmentLoop info phys empty_block list count ((count - 1) % max_offset info)
    ⟨fun _ => zeroPtr info, .zero, file⟩).map fun s => (s.next, s.file)

/-! ## Reading the tables -/

/-- `n` pointers of a table from `k` on; a null pointer ends the list, and `rest` is what the link leads to. -/
def readTable (table : Table) (rest : Option (List StoredPtr)) : Nat → Nat → Option (List StoredPtr)
  | 0, _ => rest
  | n + 1, k =>
    if is_null_descriptor (table k) then some []
    else (readTable table rest n (k + 1)).map (table k :: ·)

/-- The pointers of a chain of at most `fuel` tables. -/
@[grind =] def readChain (info : DiskInfo) (tables : Addr → Option Table) : Nat → StoredPtr →
    Option (List StoredPtr)
  | 0, p => if is_null_descriptor p then some [] else none
  | fuel + 1, p =>
    if is_null_descriptor p then some []
    else
      match tables p.addr with
      | none => none
      | some table => readTable table (readChain info tables fuel (table (max_offset info))) (max_offset info) 0

section
variable {info : DiskInfo}

theorem readTable_congr {t t' : Table} (rest : Option (List StoredPtr)) : ∀ {n k : Nat},
    (∀ i, k ≤ i → i < k + n → t i = t' i) → readTable t rest n k = readTable t' rest n k
  | 0, _, _ => rfl
  | n + 1, k, h => by
    rw [readTable, readTable, h k (le_refl k) (by omega),
      readTable_congr rest fun i h₁ h₂ => h i (by omega) (by omega)]

theorem readTable_rest {t : Table} {rest rest' : Option (List StoredPtr)}
    (h : ∀ es, rest = some es → rest' = some es) :
    ∀ {n k : Nat} {es : List StoredPtr}, readTable t rest n k = some es → readTable t rest' n k = some es
  | 0, _, es, hr => h es hr
  | n + 1, k, es, hr => by
    rw [readTable] at hr ⊢
    split at hr
    · rename_i hn; rw [if_pos hn]; exact hr
    · rename_i hn
      rw [if_neg hn]
      obtain ⟨es', hr', rfl⟩ := Option.map_eq_some_iff.mp hr
      rw [readTable_rest h hr']
      rfl

theorem readChain_extend {tables tables' : Addr → Option Table} (ht : ∀ a t, tables a = some t →
    tables' a = some t) :
    ∀ {fuel fuel' : Nat} {p : StoredPtr} {es : List StoredPtr}, fuel ≤ fuel' →
      readChain info tables fuel p = some es →
      readChain info tables' fuel' p = some es
  | 0, fuel', p, es, _, h => by
    rw [readChain] at h
    split at h
    · rename_i hn
      cases fuel' <;> rw [readChain, if_pos hn] <;> exact h
    · cases h
  | fuel + 1, 0, p, es, hle, _ => absurd hle (by omega)
  | fuel + 1, fuel' + 1, p, es, hle, h => by
    rw [readChain] at h ⊢
    split at h
    · rename_i hn; rw [if_pos hn]; exact h
    · rename_i hn
      rw [if_neg hn]
      cases hp : tables p.addr with
      | none => rw [hp] at h; cases h
      | some t =>
        rw [hp] at h
        rw [ht _ _ hp]
        exact readTable_rest (fun es' hes => readChain_extend ht (by omega) hes) h

theorem store_from_blocknum (ptr : DiskBlockptr) (b : Nat) :
    bootmap_store_blockptr (some (disk_blockptr_from_blocknum ptr b info)) info =
      bootmap_store_blockptr (some (single info b)) info := by
  unfold single bootmap_store_blockptr disk_blockptr_from_blocknum
  cases h : info.type with
  | scsi | fba | diag => rfl
  | eckd_ldl | eckd_cdl =>
    simp only
    split <;> rfl

theorem stored_single (hi : Supported info) {b : Nat} (h0 : b ≠ 0) (hb : b < 18446744073709551616) :
    is_null_descriptor (bootmap_store_blockptr (some (single info b)) info) = false ∧
      (bootmap_store_blockptr (some (single info b)) info).addr = blockAddr info b ∧
      (bootmap_store_blockptr (some (single info b)) info).blocks = [blockAddr info b] := by
  obtain ⟨h₁, h₂⟩ := (run_single hb).stored hi (by simpa using h0)
  exact ⟨h₁, rfl, h₂⟩

/-- The file system maps the blocks `lo` to `hi - 1` of the bootmap file to different blocks of the disk,
which hold no table yet. -/
structure Mapped (info : DiskInfo) (phys : Nat → Option Nat) (file : BootmapFile) (hi : Nat) : Prop where
  block : ∀ k, file.pos ≤ k → k < hi → ∃ b, phys k = some b ∧ b ≠ 0 ∧ b < 18446744073709551616
  different : ∀ j k b c, file.pos ≤ j → j < k → k < hi → phys j = some b → phys k = some c →
    blockAddr info b ≠ blockAddr info c
  fresh : ∀ k b, file.pos ≤ k → k < hi → phys k = some b → file.tables (blockAddr info b) = none

theorem Mapped.mono {phys : Nat → Option Nat} {file : BootmapFile} {hi hi' : Nat} (h : Mapped info phys file hi)
    (hle : hi' ≤ hi) : Mapped info phys file hi' :=
  ⟨fun k h₁ h₂ => h.block k h₁ (by omega), fun j k b c h₁ h₂ h₃ => h.different j k b c h₁ h₂ (by omega),
    fun k b h₁ h₂ => h.fresh k b h₁ (by omega)⟩

/-- What is stored for the `i`-th pointer of a list. -/
def entry (info : DiskInfo) (empty_block : DiskBlockptr) (ptr : DiskBlockptr) : StoredPtr :=
  bootmap_store_blockptr (some (if disk_is_zero_block ptr info then empty_block else ptr)) info

/-- The tables that are written lead on to the pointers `es`, which are already in the tables and in the buffer. -/
theorem segmentLoop_eq (hi : Supported info) (hM : 0 < max_offset info) {phys : Nat → Option Nat}
    {empty_block : DiskBlockptr} {list : Nat → DiskBlockptr} : ∀ (count : Nat) {s : SegmentState} {f : Nat}
    {ds es : List StoredPtr},
    (∀ i < count, is_null_descriptor (entry info empty_block (list i)) = false) →
    Mapped info phys s.file (s.file.pos + count) →
    readChain info s.file.tables f (bootmap_store_blockptr (some s.next) info) = some ds →
    (count = 0 → es = ds) →
    (0 < count → readTable s.buffer (some ds) (max_offset info - ((count - 1) % max_offset info + 1))
      ((count - 1) % max_offset info + 1) = some es) →
    ∃ s', segmentLoop info phys empty_block list count ((count - 1) % max_offset info) s = some s' ∧
      readChain info s'.file.tables (f + count) (bootmap_store_blockptr (some s'.next) info) =
        some ((List.range count).map (fun i => entry info empty_block (list i)) ++ es)
  | 0, s, f, ds, es, _, _, hds, hes, _ => ⟨s, rfl, by rw [hes rfl]; exact hds⟩
  | count + 1, s, f, ds, es, hnn, hp, hds, _, hes => by
    have hes := hes (by omega)
    rw [Nat.add_sub_cancel] at hes ⊢
    have hlt := Nat.mod_lt count hM
    have hnull := hnn count (by omega)
    have hnn' := fun i hi => hnn i (Nat.lt_succ_of_lt hi)
    have hrange : ∀ es' : List StoredPtr, (List.range (count + 1)).map (fun i =>
      entry info empty_block (list i)) ++ es' =
        (List.range count).map (fun i => entry info empty_block (list i)) ++
          (entry info empty_block (list count) :: es') := by
      intro es'
      rw [List.range_succ, List.map_append, List.append_assoc]
      rfl
    rw [segmentLoop]
    rw [show bootmap_store_blockptr (some (if disk_is_zero_block (list count) info then empty_block
      else list count)) info =
      entry info empty_block (list count) from rfl]
    generalize he : entry info empty_block (list count) = e at *
    by_cases ho : count % max_offset info > 0
    · -- one more pointer in the current table
      have hoff : (count - 1) % max_offset info = count % max_offset info - 1 := by
        have hdiv := Nat.div_add_mod count (max_offset info)
        generalize count % max_offset info = r at *
        generalize count / max_offset info = q at *
        have : count - 1 = max_offset info * q + (r - 1) := by omega
        rw [this, Nat.mul_add_mod, Nat.mod_eq_of_lt (by omega)]
      have hcount : count ≠ 0 := by
        rintro rfl
        rw [Nat.zero_mod] at ho
        exact absurd ho (lt_irrefl 0)
      have hcongr : ∀ n, readTable (Function.update s.buffer (count % max_offset info) e) (some ds) n
          (count % max_offset info + 1) = readTable s.buffer (some ds) n (count % max_offset info + 1) := fun n =>
        readTable_congr (some ds) fun i h₁ _ => Function.update_of_ne (by omega) ..
      have hread : readTable (Function.update s.buffer (count % max_offset info) e) (some ds)
          (max_offset info - ((count - 1) % max_offset info + 1))
            ((count - 1) % max_offset info + 1) = some (e :: es) := by
        rw [hoff, Nat.sub_add_cancel ho,
          show max_offset info - count % max_offset info =
            max_offset info - (count % max_offset info + 1) + 1 by omega,
          readTable, Function.update_self, if_neg (by rw [hnull]; decide),
          hcongr, hes]
        rfl
      obtain ⟨s', hs', hr'⟩ := segmentLoop_eq hi hM count
        (s := { s with buffer := Function.update s.buffer (count % max_offset info) e }) hnn'
        (show Mapped info phys s.file (s.file.pos + count) from hp.mono (by omega)) hds
        (fun h => absurd h hcount) (fun _ => hread)
      refine ⟨s', ?_, ?_⟩
      · rw [if_pos ho, ← hoff]; exact hs'
      · rw [hrange]
        exact readChain_extend (fun _ _ h => h) (by omega) hr'
    · -- the table is complete
      have ho : count % max_offset info = 0 := by omega
      obtain ⟨b, hb, hb0, hblt⟩ := hp.block s.file.pos (le_refl _) (by omega)
      obtain ⟨hnn₁, haddr, -⟩ := stored_single hi hb0 hblt
      rw [ho] at hes ⊢
      rw [if_neg (lt_irrefl 0)]
      simp only [disk_write_block_aligned, hb]
      generalize ht : Function.update (Function.update s.buffer 0 e) (max_offset info)
        (bootmap_store_blockptr (some s.next) info) = t
      have hext : ∀ a t', s.file.tables a = some t' →
        Function.update s.file.tables (blockAddr info b) (some t) a = some t' := by
        intro a t' ha
        have hne : a ≠ blockAddr info b := fun h => by
          rw [h, hp.fresh _ b (le_refl _) (by omega) hb] at ha
          cases ha
        rw [Function.update_of_ne hne, ha]
      have hread : readChain info (Function.update s.file.tables (blockAddr info b) (some t)) (f + 1)
          (bootmap_store_blockptr (some (disk_blockptr_from_blocknum s.next b info)) info) = some (e :: es) := by
        have hlink : t (max_offset info) = bootmap_store_blockptr (some s.next) info := by
          rw [← ht, Function.update_self]
        have hzero : t 0 = e := by rw [← ht, Function.update_of_ne (by omega), Function.update_self]
        have hcongr : readTable t (some ds) (max_offset info - (0 + 1)) (0 + 1) =
            readTable s.buffer (some ds) (max_offset info - (0 + 1)) (0 + 1) :=
          readTable_congr (some ds) fun i h₁ h₂ => by
            rw [← ht, Function.update_of_ne (by omega), Function.update_of_ne (by omega)]
        rw [store_from_blocknum, readChain, if_neg (by rw [hnn₁]; decide), haddr, Function.update_self]
        simp only
        rw [hlink, readChain_extend hext (le_refl f) hds, show max_offset info =
          max_offset info - (0 + 1) + 1 by omega,
          readTable, hzero, if_neg (by rw [hnull]; decide), hcongr, hes]
        rfl
      have hp' : Mapped info phys ⟨s.file.pos + 1, Function.update s.file.tables (blockAddr info b) (some t)⟩
          (s.file.pos + 1 + count) := by
        refine ⟨fun k h₁ h₂ => hp.block k (by simp only at h₁; omega) (by omega),
          fun j k c d h₁ h₂ h₃ => hp.different j k c d (by simp only at h₁; omega)
            h₂ (by omega), fun k c h₁ h₂ hc => ?_⟩
        simp only at h₁
        have hne := hp.different _ _ _ _ (le_refl _) (show s.file.pos < k by omega) (by omega) hb hc
        show Function.update s.file.tables (blockAddr info b) (some t) (blockAddr info c) = none
        rw [Function.update_of_ne hne.symm]
        exact hp.fresh k c (by omega) (by omega) hc
      have hoff : 0 < count → (count - 1) % max_offset info = max_offset info - 1 := by
        intro hc
        have hdiv := Nat.div_add_mod count (max_offset info)
        rw [ho, Nat.add_zero] at hdiv
        cases hq : count / max_offset info with
        | zero => rw [hq, Nat.mul_zero] at hdiv; omega
        | succ q =>
          rw [hq, Nat.mul_add, Nat.mul_one] at hdiv
          have : count - 1 = max_offset info * q + (max_offset info - 1) := by omega
          rw [this, Nat.mul_add_mod, Nat.mod_eq_of_lt (by omega)]
      obtain ⟨s', hs', hr'⟩ := segmentLoop_eq hi hM count
        (s := ⟨t, disk_blockptr_from_blocknum s.next b info, ⟨s.file.pos + 1,
          Function.update s.file.tables (blockAddr info b) (some t)⟩⟩) hnn' hp' hread (fun _ => rfl)
        (fun hc => by rw [hoff hc, Nat.sub_add_cancel hM, Nat.sub_self]; rfl)
      refine ⟨s', ?_, ?_⟩
      · cases count with
        | zero => exact hs'
        | succ count => rw [hoff (by omega)] at hs'; exact hs'
      · rw [hrange, show f + (count + 1) = f + 1 + count by omega]
        exact hr'

theorem add_segment_table_eq (hi : Supported info) (hM : 0 < max_offset info) {phys : Nat → Option Nat}
    {empty_block : DiskBlockptr} {list : Nat → DiskBlockptr} {count : Nat} {file : BootmapFile}
    (hp : Mapped info phys file (file.pos + count))
    (hnn : ∀ i < count, is_null_descriptor (entry info empty_block (list i)) = false) :
    ∃ seg file', add_segment_table info phys empty_block list count file = some (seg, file') ∧
      ∀ fuel ≥ count, readChain info file'.tables fuel (bootmap_store_blockptr (some seg) info) =
        some ((Compact.front list count).map (entry info empty_block)) := by
  have hnull : is_null_descriptor (zeroPtr info) = true := by
    unfold zeroPtr is_null_descriptor
    cases info.type <;> rfl
  have hzero : bootmap_store_blockptr (some .zero) info = zeroPtr info := by
    unfold bootmap_store_blockptr zeroPtr
    cases info.type <;> rfl
  have hds : readChain info file.tables 0 (bootmap_store_blockptr (some .zero) info) = some [] := by
    rw [readChain, hzero, if_pos hnull]
  have hes : ∀ n k, readTable (fun _ => zeroPtr info) (some []) n k = some [] := by
    intro n k
    cases n with
    | zero => rfl
    | succ n => rw [readTable, if_pos hnull]
  obtain ⟨s', hs', hr⟩ := segmentLoop_eq hi hM count (s := ⟨fun _ => zeroPtr info, .zero, file⟩) hnn hp hds
    (fun _ => rfl) (fun _ => hes _ _)
  refine ⟨s'.next, s'.file, ?_, fun fuel hf => ?_⟩
  · unfold add_segment_table
    rw [hs']
    rfl
  · rw [readChain_extend (fun _ _ h => h) (show 0 + count ≤ fuel by omega) hr, List.append_nil,
      Compact.front, List.map_map]
    rfl

end

end Zipl
