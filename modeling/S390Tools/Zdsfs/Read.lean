import S390Tools.Zdsfs.Metadata
import S390Tools.Lib.Run

/-!
# Reading the files of zdsfs

A data set is read through a handle of the library, which has a position and can be
moved. The metadata file keeps the number of bytes that were read and takes no
notice of the offset, so its answers are right as long as it is read in order.
-/

namespace Zdsfs

open Stdio Vtoc Word

/-! ## The library -/

/-- The functions of the library on data sets and handles; every call on a handle may change it. -/
structure Lib (DS H : Type) where
  find_dataset : Bytes → Except Int DS
  is_supported : DS → Bool
  is_PDS : DS → Bool
  alloc_dshandle : DS → Except Int H
  set_seekbuffer : H → Int × H
  set_member : H → Bytes → Int × H
  set_keepRDW : H → Int × H
  dshandle_open : H → Int × H
  get_offset : H → Nat
  lseek : H → Nat → Int × H
  read : H → Nat → Int × Bytes × H

/-- The states `Own` of one handle behave as positions in `content`: a seek goes to the offset or to
the end of the data, a read continues from the current position. Failed calls have a positive error code. -/
structure Positional {DS H : Type} (lib : Lib DS H) (content : Bytes) (Own : H → Prop) : Prop where
  lseek_own : ∀ h offset, Own h → Own (lib.lseek h offset).2
  lseek_code : ∀ h offset, Own h → 0 ≤ (lib.lseek h offset).1
  lseek_offset : ∀ h offset, Own h → (lib.lseek h offset).1 = 0 →
    lib.get_offset (lib.lseek h offset).2 = min offset content.length
  read_own : ∀ h size, Own h → Own (lib.read h size).2.2
  read_code : ∀ h size, Own h → 0 ≤ (lib.read h size).1
  read_data : ∀ h size, Own h → (lib.read h size).1 = 0 →
    (lib.read h size).2.1 = (content.drop (lib.get_offset h)).take size

/-! ## Files -/

structure FileInfo (H : Type) where
  dsh : Option H
  is_metadata_file : Bool
  metaread : Nat

def sizeofNormds : Nat := 45

def path_to_ds_name (path : Bytes) : Bytes :=
  let path := if path.head? = some 0x2f then path.tail else path
  (path.take (sizeofNormds - 1)).takeWhile (· ≠ 0x2f)

def path_to_member_name (path : Bytes) : Bytes :=
  let path := if path.head? = some 0x2f then path.tail else path
  ((path.dropWhile (· ≠ 0x2f)).tail).take (sizeofNormds - 1)

def O_RDONLY : Nat := 0
def EACCES : Int := 13
def ENOENT : Int := 2

section
variable {DS H : Type} (lib : Lib DS H)

def passed (r : Int × H) : Except Int H := if r.1 ≠ 0 then .error (-r.1) else .ok r.2

def setMember (ds : DS) (path : Bytes) (dsh : H) : Except Int H :=
  if lib.is_PDS ds then passed (lib.set_member dsh (path_to_member_name path)) else .ok dsh

def zdsfs_open (path : Bytes) (flags : Nat) : Except Int (FileInfo H) :=
  if flags &&& 3 ≠ O_RDONLY then .error (-EACCES)
  else if path = bytes "/metadata.txt" then .ok ⟨none, true, 0⟩
  else do
    let ds ← lib.find_dataset (path_to_ds_name path)
    if !lib.is_supported ds then .error (-ENOENT)
    else do
      let dsh ← (lib.alloc_dshandle ds).mapError fun rc => -rc
      let dsh ← passed (lib.set_seekbuffer dsh)
      let dsh ← setMember lib ds path dsh
      let dsh ← passed (lib.set_keepRDW dsh)
      let dsh ← passed (lib.dshandle_open dsh)
      .ok ⟨some dsh, false, 0⟩

/-- The return value, the bytes in the buffer and the file; `none` for a file without handle. -/
def zdsfs_read (zdsfsinfo : Metadata) (zfi : FileInfo H) (size offset : Nat) :
    Option ((Int × Bytes) × FileInfo H) :=
  if zfi.is_metadata_file then
    if zfi.metaread ≥ zdsfsinfo.metaused then some ((0, []), zfi)
    else
      let count := zdsfsinfo.metaused - zfi.metaread
      let count := if size < count then size else count
      some ((i32 count, (zdsfsinfo.metadata.drop zfi.metaread).take count),
        { zfi with metaread := zfi.metaread + count })
  else do
    let dsh ← zfi.dsh
    let (rc, dsh) := if lib.get_offset dsh ≠ offset then lib.lseek dsh offset else (0, dsh)
    if rc ≠ 0 then some ((-rc, []), { zfi with dsh := some dsh })
    else
      let (rc, buf, dsh) := lib.read dsh size
      some (if rc ≠ 0 then (-rc, []) else (i32 buf.length, buf), { zfi with dsh := some dsh })

/-! ## One call -/

def HasContent (datasets : List Dataset) (zfi : FileInfo H) (content : Bytes) : Prop :=
  if zfi.is_metadata_file then content = metaContent datasets
  else ∃ dsh Own, zfi.dsh = some dsh ∧ Own dsh ∧ Positional lib content Own

/-- A call that did not fail gave the bytes at the offset. -/
def Exact (content : Bytes) (call : Nat × Nat) (answer : Int × Bytes) : Prop :=
  0 ≤ answer.1 → answer.1 = ((content.drop call.2).take call.1).length ∧
    answer.2 = (content.drop call.2).take call.1

/-- The metadata file is read on where the last call stopped, or again at its end, and a
number of bytes goes into 32 bits. -/
def InOrder (zdsfsinfo : Metadata) (zfi : FileInfo H) (call : Nat × Nat) : Prop :=
  call.1 < 4294967296 ∧ (zfi.is_metadata_file = true →
    call.2 = zfi.metaread ∨ call.1 = 0 ∨ zdsfsinfo.metaused ≤ call.2 ∧ zdsfsinfo.metaused ≤ zfi.metaread)

instance (zdsfsinfo : Metadata) (zfi : FileInfo H) (call : Nat × Nat) : Decidable (InOrder zdsfsinfo zfi call) :=
  inferInstanceAs (Decidable (_ ∧ _))

variable {lib} {datasets : List Dataset} {zdsfsinfo : Metadata} {zfi : FileInfo H} {content : Bytes}
    {call : Nat × Nat}

theorem exact_counted {d : Bytes} (hd : d = (content.drop call.2).take call.1) (hlt : call.1 < 4294967296) :
    Exact content call (i32 d.length, d) := by
  intro hok
  have hle : d.length ≤ call.1 := by
    rw [hd, List.length_take]
    exact Nat.min_le_left ..
  refine ⟨?_, hd⟩
  rw [← hd]
  unfold i32 at hok ⊢
  simp only at hok ⊢
  omega

theorem exact_failed {rc : Int} (h : 0 ≤ rc) (hne : rc ≠ 0) : Exact content call (-rc, []) := by
  intro hok
  simp only at hok
  omega

theorem read_metadata (hf : Filled zdsfsinfo content) (hmeta : zfi.is_metadata_file = true)
    (hread : zfi.metaread ≤ zdsfsinfo.metaused) (hok : InOrder zdsfsinfo zfi call) :
    ∃ answer zfi', zdsfs_read lib zdsfsinfo zfi call.1 call.2 = some (answer, zfi') ∧ Exact content call answer ∧
      zfi'.is_metadata_file = true ∧ zfi'.metaread ≤ zdsfsinfo.metaused := by
  have hused := hf.used
  by_cases hend : zfi.metaread ≥ zdsfsinfo.metaused
  · have hzero : (content.drop call.2).take call.1 = [] := by
      rcases hok.2 hmeta with h | h | h
      · rw [List.drop_eq_nil_of_le (by omega), List.take_nil]
      · rw [h, List.take_zero]
      · rw [List.drop_eq_nil_of_le (by omega), List.take_nil]
    refine ⟨(0, []), zfi, ?_, ?_, hmeta, hread⟩
    · rw [zdsfs_read, if_pos hmeta, if_pos hend]
    · intro _
      rw [hzero]
      exact ⟨rfl, rfl⟩
  · obtain ⟨count, hcount⟩ : ∃ count, count =
        if call.1 < zdsfsinfo.metaused - zfi.metaread then call.1 else zdsfsinfo.metaused - zfi.metaread := ⟨_, rfl⟩
    have hle : count ≤ zdsfsinfo.metaused - zfi.metaread := by
      rw [hcount]
      split <;> omega
    have hbytes : (zdsfsinfo.metadata.drop zfi.metaread).take count = (content.drop zfi.metaread).take count := by
      rw [← hf.content, List.drop_take, List.take_take, Nat.min_eq_left hle]
    have hsame : (content.drop zfi.metaread).take count = (content.drop call.2).take call.1 := by
      rcases hok.2 hmeta with h | h | h
      · rw [h]
        by_cases hlt : call.1 < zdsfsinfo.metaused - zfi.metaread
        · rw [hcount, if_pos hlt]
        · rw [hcount, if_neg hlt, List.take_of_length_le (by rw [List.length_drop]; omega),
            List.take_of_length_le (by rw [List.length_drop]; omega)]
      · have hzero : count = 0 := by
          rw [hcount, if_pos (by omega), h]
        rw [hzero, h, List.take_zero, List.take_zero]
      · exact absurd h.2 hend
    have hlen : ((zdsfsinfo.metadata.drop zfi.metaread).take count).length = count := by
      rw [hbytes, List.length_take, List.length_drop]
      omega
    refine ⟨(i32 count, (zdsfsinfo.metadata.drop zfi.metaread).take count),
      { zfi with metaread := zfi.metaread + count }, ?_, ?_, hmeta, ?_⟩
    · rw [zdsfs_read, if_pos hmeta, if_neg hend, hcount]
    · have hexact := @exact_counted content call _ (hbytes.trans hsame) hok.1
      rwa [hlen] at hexact
    · simp only
      omega

theorem read_dataset {Own : H → Prop} (hp : Positional lib content Own)
    (hmeta : zfi.is_metadata_file = false) {dsh : H}
    (hdsh : zfi.dsh = some dsh) (hown : Own dsh) (hlt : call.1 < 4294967296) :
    ∃ answer zfi' dsh', zdsfs_read lib zdsfsinfo zfi call.1 call.2 = some (answer, zfi') ∧
      Exact content call answer ∧
      zfi'.is_metadata_file = false ∧ zfi'.dsh = some dsh' ∧ Own dsh' := by
  obtain ⟨r, hr⟩ : ∃ r, r = if lib.get_offset dsh ≠ call.2 then lib.lseek dsh call.2 else (0, dsh) := ⟨_, rfl⟩
  have hseek : Own r.2 ∧ 0 ≤ r.1 ∧ (r.1 = 0 → lib.get_offset r.2 = call.2 ∨
      lib.get_offset r.2 = min call.2 content.length) := by
    by_cases hne : lib.get_offset dsh ≠ call.2
    · rw [hr, if_pos hne]
      exact ⟨hp.lseek_own dsh _ hown, hp.lseek_code dsh _ hown, fun h => .inr (hp.lseek_offset dsh _ hown h)⟩
    · rw [hr, if_neg hne]
      exact ⟨hown, Int.le_refl 0, fun _ => .inl (Decidable.of_not_not hne)⟩
  obtain ⟨hown', hcode, hoffset⟩ := hseek
  have hread : zdsfs_read lib zdsfsinfo zfi call.1 call.2 =
      if r.1 ≠ 0 then some ((-r.1, []), { zfi with dsh := some r.2 })
      else some (if (lib.read r.2 call.1).1 ≠ 0 then (-(lib.read r.2 call.1).1, [])
        else (i32 (lib.read r.2 call.1).2.1.length, (lib.read r.2 call.1).2.1),
        { zfi with dsh := some (lib.read r.2 call.1).2.2 }) := by
    rw [zdsfs_read, if_neg (by simp [hmeta]), hdsh, hr]
    rfl
  by_cases hrc : r.1 ≠ 0
  · exact ⟨_, _, r.2, hread.trans (if_pos hrc), exact_failed hcode hrc, hmeta, rfl, hown'⟩
  · refine ⟨_, _, (lib.read r.2 call.1).2.2, hread.trans (if_neg hrc), ?_, hmeta, rfl, hp.read_own _ _ hown'⟩
    by_cases hrc' : (lib.read r.2 call.1).1 ≠ 0
    · rw [if_pos hrc']
      exact exact_failed (hp.read_code _ _ hown') hrc'
    · rw [if_neg hrc']
      refine exact_counted ?_ hlt
      rw [hp.read_data _ _ hown' (Decidable.of_not_not hrc')]
      rcases hoffset (Decidable.of_not_not hrc) with h | h
      · rw [h]
      · by_cases hle : call.2 ≤ content.length
        · rw [h, Nat.min_eq_left hle]
        · rw [h, Nat.min_eq_right (Nat.le_of_not_le hle), List.drop_length,
            List.drop_eq_nil_of_le (Nat.le_of_not_le hle)]

/-! ## All calls on one file -/

structure Session (H : Type) where
  zfi : FileInfo H
  answers : List ((Nat × Nat) × (Int × Bytes))

def serve (lib : Lib DS H) (zdsfsinfo : Metadata) (s : Session H) (c : Nat × Nat) : Option (Session H) :=
  (zdsfs_read lib zdsfsinfo s.zfi c.1 c.2).map fun r => ⟨r.2, s.answers ++ [(c, r.1)]⟩

def Usable (lib : Lib DS H) (zdsfsinfo : Metadata) (content : Bytes) (Own : H → Prop) (zfi : FileInfo H) : Prop :=
  zfi.is_metadata_file = true ∧ Filled zdsfsinfo content ∧ zfi.metaread ≤ zdsfsinfo.metaused ∨
  zfi.is_metadata_file = false ∧ Positional lib content Own ∧ ∃ dsh, zfi.dsh = some dsh ∧ Own dsh

variable (lib) in
theorem read_metadata_byte (dsh : Option H) (offset : Nat) {k : Nat} (hf : Filled zdsfsinfo content)
    (hk : k < content.length) :
    zdsfs_read lib zdsfsinfo ⟨dsh, true, k⟩ 1 offset = some ((1, (content.drop k).take 1), ⟨dsh, true, k + 1⟩) := by
  have hcount : (if 1 < zdsfsinfo.metaused - k then 1 else zdsfsinfo.metaused - k) = 1 := by
    rw [hf.used]
    split <;> omega
  have hbyte : (zdsfsinfo.metadata.drop k).take 1 = (content.drop k).take 1 := by
    rw [← hf.content, List.drop_take, List.take_take, Nat.min_eq_left (by rw [hf.used]; omega)]
  unfold zdsfs_read
  simp only [if_pos, hcount, hbyte]
  rw [if_neg (by rw [hf.used]; omega)]
  rfl

theorem serve_usable {Own : H → Prop} {s : Session H} (hu : Usable lib zdsfsinfo content Own s.zfi)
    (ha : ∀ a ∈ s.answers, Exact content a.1 a.2) {c : Nat × Nat} (hok : InOrder zdsfsinfo s.zfi c) :
    ∃ s', serve lib zdsfsinfo s c = some s' ∧ Usable lib zdsfsinfo content Own s'.zfi ∧
      ∀ a ∈ s'.answers, Exact content a.1 a.2 := by
  obtain ⟨answer, zfi', hread, hexact, hu'⟩ : ∃ answer zfi',
      zdsfs_read lib zdsfsinfo s.zfi c.1 c.2 = some (answer, zfi') ∧ Exact content c answer ∧
        Usable lib zdsfsinfo content Own zfi' := by
    rcases hu with ⟨hmeta, hf, hle⟩ | ⟨hmeta, hp, dsh, hdsh, hown⟩
    · obtain ⟨answer, zfi', hread, hexact, hmeta', hle'⟩ := read_metadata hf hmeta hle hok
      exact ⟨answer, zfi', hread, hexact, .inl ⟨hmeta', hf, hle'⟩⟩
    · obtain ⟨answer, zfi', dsh', hread, hexact, hmeta', hdsh', hown'⟩ := read_dataset hp hmeta hdsh hown hok.1
      exact ⟨answer, zfi', hread, hexact, .inr ⟨hmeta', hp, dsh', hdsh', hown'⟩⟩
  refine ⟨⟨zfi', s.answers ++ [(c, answer)]⟩, by rw [serve, hread]; rfl, hu', ?_⟩
  intro a hmem
  rcases List.mem_append.mp hmem with h | h
  · exact ha a h
  · rw [List.mem_singleton.mp h]
    exact hexact

theorem read_kind {zfi' : FileInfo H} {size offset : Nat} {answer : Int × Bytes}
    (h : zdsfs_read lib zdsfsinfo zfi size offset = some (answer, zfi')) : zfi'.is_metadata_file =
      zfi.is_metadata_file := by
  unfold zdsfs_read at h
  by_cases hmeta : zfi.is_metadata_file = true
  · rw [if_pos hmeta] at h
    by_cases hend : zfi.metaread ≥ zdsfsinfo.metaused
    · rw [if_pos hend, Option.some.injEq, Prod.mk.injEq] at h
      rw [h.2]
    · rw [if_neg hend, Option.some.injEq, Prod.mk.injEq] at h
      rw [← h.2]
  · rw [if_neg hmeta] at h
    obtain ⟨dsh, -, h⟩ := Option.bind_eq_some_iff.mp h
    dsimp only at h
    generalize (if lib.get_offset dsh ≠ offset then lib.lseek dsh offset else (0, dsh)) = sought at h
    by_cases hrc : sought.1 ≠ 0
    · rw [if_pos hrc, Option.some.injEq, Prod.mk.injEq] at h
      rw [← h.2]
    · rw [if_neg hrc, Option.some.injEq, Prod.mk.injEq] at h
      rw [← h.2]

theorem admissible_dataset : ∀ {calls : List (Nat × Nat)} {s : Session H}, s.zfi.is_metadata_file = false →
    (∀ c ∈ calls, c.1 < 4294967296) → Run.Admissible (serve lib zdsfsinfo)
      (fun s c => InOrder zdsfsinfo s.zfi c) s calls
  | [], _, _, _ => trivial
  | c :: calls, s, hkind, hlt => by
    refine ⟨⟨hlt c List.mem_cons_self, fun hmeta =>
      absurd (hkind.symm.trans hmeta) Bool.false_ne_true⟩, fun s' hs' => ?_⟩
    obtain ⟨r, hr, rfl⟩ := Option.map_eq_some_iff.mp hs'
    exact admissible_dataset ((read_kind hr).trans hkind) fun c' hc' => hlt c' (List.mem_cons_of_mem c hc')

theorem open_metaread {path : Bytes} {flags : Nat} (h : zdsfs_open lib path flags = .ok zfi) :
    zfi.metaread = 0 := by
  unfold zdsfs_open at h
  split at h
  · cases h
  · split at h
    · cases h
      rfl
    · obtain ⟨ds, -, h⟩ := Run.bind_eq_ok h
      split at h
      · cases h
      · obtain ⟨h₁, -, h⟩ := Run.bind_eq_ok h
        obtain ⟨h₂, -, h⟩ := Run.bind_eq_ok h
        obtain ⟨h₃, -, h⟩ := Run.bind_eq_ok h
        obtain ⟨h₄, -, h⟩ := Run.bind_eq_ok h
        obtain ⟨h₅, -, h⟩ := Run.bind_eq_ok h
        cases h
        rfl

theorem reads_positional (hinfo : zdsfs_create_meta_data_buffer datasets = some zdsfsinfo)
    {path : Bytes} {flags : Nat}
    (hopen : zdsfs_open lib path flags = .ok zfi) (hcontent : HasContent lib datasets zfi content)
    (calls : List (Nat × Nat))
    (hrun : Run.Admissible (serve lib zdsfsinfo) (fun s c => InOrder zdsfsinfo s.zfi c) ⟨zfi, []⟩ calls) :
    ∃ s, Run.exec (serve lib zdsfsinfo) ⟨zfi, []⟩ calls = some s ∧ ∀ a ∈ s.answers, Exact content a.1 a.2 := by
  obtain ⟨m, hm, hf⟩ := create_meta_data_buffer_eq datasets
  cases hinfo.symm.trans hm
  obtain ⟨Own, hu⟩ : ∃ Own, Usable lib zdsfsinfo content Own zfi := by
    cases hmeta : zfi.is_metadata_file with
    | true =>
      rw [HasContent, if_pos hmeta] at hcontent
      refine ⟨fun _ => True, .inl ⟨hmeta, hcontent ▸ hf, ?_⟩⟩
      rw [open_metaread hopen]
      exact Nat.zero_le _
    | false =>
      rw [HasContent, if_neg (by simp [hmeta])] at hcontent
      obtain ⟨dsh, Own, hdsh, hown, hp⟩ := hcontent
      exact ⟨Own, .inr ⟨hmeta, hp, dsh, hdsh, hown⟩⟩
  obtain ⟨s, hs, -, ha⟩ := Run.exec_inv
    (fun s : Session H => Usable lib zdsfsinfo content Own s.zfi ∧ ∀ a ∈ s.answers, Exact content a.1 a.2)
    (fun s c h hok => serve_usable h.1 h.2 hok) calls ⟨zfi, []⟩ ⟨hu, by simp⟩ hrun
  exact ⟨s, hs, ha⟩

end

/-! ## A data set in memory -/

/-- Handles on one data set `/D`, with its content and the position. -/
def memoryLib : Lib Bytes (Bytes × Nat) where
  find_dataset := fun name => if name = [0x44] then .ok [10, 20, 30, 40, 50] else .error 2
  is_supported := fun _ => true
  is_PDS := fun _ => false
  alloc_dshandle := fun c => .ok (c, 0)
  set_seekbuffer := fun h => (0, h)
  set_member := fun h _ => (0, h)
  set_keepRDW := fun h => (0, h)
  dshandle_open := fun h => (0, h)
  get_offset := fun h => h.2
  lseek := fun h offset => (0, h.1, min offset h.1.length)
  read := fun h size => (0, (h.1.drop h.2).take size, h.1, min (h.2 + size) h.1.length)

theorem memory_positional : Positional memoryLib [10, 20, 30, 40, 50] (fun h => h.1 = [10, 20, 30, 40, 50]) where
  lseek_own := fun _ _ h => h
  lseek_code := fun _ _ _ => Int.le_refl 0
  lseek_offset := fun h offset hown _ => by
    show min offset h.1.length = _
    rw [hown]
  read_own := fun _ _ h => h
  read_code := fun _ _ _ => Int.le_refl 0
  read_data := fun h size hown _ => by
    show (h.1.drop h.2).take size = _
    rw [hown]
    rfl

def oneDataset : List Dataset := [⟨[0x44], 0x80, 80, true, false, []⟩]

theorem reads_positional_dataset : ∃ info, zdsfs_create_meta_data_buffer oneDataset = some info ∧
    ∃ s, Run.exec (serve memoryLib info) ⟨⟨some ([10, 20, 30, 40, 50], 0), false, 0⟩, []⟩
      [(2, 3), (4, 0), (9, 9), (2, 3)] = some s ∧ ∀ a ∈ s.answers, Exact [10, 20, 30, 40, 50] a.1 a.2 := by
  obtain ⟨info, hinfo, -⟩ := create_meta_data_buffer_eq oneDataset
  have hopen : zdsfs_open memoryLib [0x2f, 0x44] 0 = .ok ⟨some ([10, 20, 30, 40, 50], 0), false, 0⟩ := by rfl
  refine ⟨info, hinfo, reads_positional hinfo hopen ?_ _ ?_⟩
  · exact ⟨_, fun h => h.1 = [10, 20, 30, 40, 50], rfl, rfl, memory_positional⟩
  · exact admissible_dataset rfl (List.all_iff_forall_prop.mp (by decide))

/-- The second of two equal reads gives the bytes behind the first ones. -/
theorem metadata_read_twice : ¬∀ (DS H : Type) (lib : Lib DS H) (datasets : List Dataset)
    (info : Metadata) (path : Bytes)
    (flags : Nat) (zfi : FileInfo H) (content : Bytes) (calls : List (Nat × Nat)),
    zdsfs_create_meta_data_buffer datasets = some info → zdsfs_open lib path flags = .ok zfi →
    HasContent lib datasets zfi content →
    ∃ s, Run.exec (serve lib info) ⟨zfi, []⟩ calls = some s ∧ ∀ a ∈ s.answers, Exact content a.1 a.2 := by
  intro h
  obtain ⟨info, hinfo, hf⟩ := create_meta_data_buffer_eq oneDataset
  obtain ⟨s, hs, ha⟩ := h _ _ memoryLib oneDataset info (bytes "/metadata.txt") 0 ⟨none, true,
    0⟩ (metaContent oneDataset)
    [(1, 0), (1, 0)] hinfo (by rfl) rfl
  have hcontent : (metaContent oneDataset).take 2 = [0x64, 0x73] := by decide +kernel
  have hlen : 2 ≤ (metaContent oneDataset).length := by
    have := congrArg List.length hcontent
    rw [List.length_take, show ([0x64, 0x73] : Bytes).length = 2 from rfl] at this
    omega
  have hfirst := read_metadata_byte memoryLib none 0 hf (k := 0) (by omega)
  have hnext := read_metadata_byte memoryLib none 0 hf (k := 1) (by omega)
  have hanswers : s.answers = [((1, 0), (1, [0x64])), ((1, 0), (1, [0x73]))] := by
    rw [Run.exec, serve, hfirst, Option.map_some, Option.bind_some, Run.exec, serve, hnext] at hs
    rw [← Option.some.inj hs]
    show [((1, 0), ((1 : Int), ((metaContent oneDataset).drop 0).take 1)),
      ((1, 0), (1, ((metaContent oneDataset).drop 1).take 1))] = _
    rw [← List.take_append_drop 2 (metaContent oneDataset), hcontent]
    rfl
  have hsecond := (ha ((1, 0), (1, [0x73])) (by simp [hanswers]) (by decide)).2
  exact absurd hsecond (by decide +kernel)

end Zdsfs
