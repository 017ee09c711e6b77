import S390Tools.Lib.Stdio
import S390Tools.Vtoc.Ebcdic

/-!
# The metadata file of zdsfs

One line for each supported data set and for each member of a partitioned one.
The buffer grows by a fixed amount before a line that would not fit.
-/

namespace Zdsfs

open Stdio Vtoc

structure Dataset where
  name : Bytes
  DS1RECFM : UInt8
  DS1LRECL : Nat
  is_supported : Bool
  is_PDS : Bool
  members : List Bytes

def lzds_DS1RECFM_to_recfm (DS1RECFM : UInt8) : Bytes :=
  (if DS1RECFM &&& 0x80 ≠ 0 ∧ DS1RECFM &&& 0x40 = 0 then bytes "F" else []) ++
  (if DS1RECFM &&& 0x80 = 0 ∧ DS1RECFM &&& 0x40 ≠ 0 then bytes "V" else []) ++
  (if DS1RECFM &&& 0x80 ≠ 0 ∧ DS1RECFM &&& 0x40 ≠ 0 then bytes "U" else []) ++
  (if DS1RECFM &&& 0x20 ≠ 0 then bytes "T" else []) ++
  (if DS1RECFM &&& 0x10 ≠ 0 then bytes "B" else []) ++
  (if DS1RECFM &&& 0x08 ≠ 0 then bytes "S" else []) ++
  (if DS1RECFM &&& 0x04 ≠ 0 ∧ DS1RECFM &&& 0x02 = 0 then bytes "A" else []) ++
  (if DS1RECFM &&& 0x04 = 0 ∧ DS1RECFM &&& 0x02 ≠ 0 then bytes "M" else [])

def datasetLine (ds : Dataset) : Bytes :=
  bytes "dsn=" ++ ds.name ++ bytes ",recfm=" ++ lzds_DS1RECFM_to_recfm ds.DS1RECFM ++ bytes ",lrecl=" ++
    bytes (toString ds.DS1LRECL) ++ bytes ",dsorg=" ++ bytes (if ds.is_PDS then "PO" else "PS") ++ bytes "\n"

def memberLine (ds : Dataset) (mbrname : Bytes) : Bytes :=
  bytes "dsn=" ++ ds.name ++ bytes "(" ++ mbrname ++ bytes "),recfm=" ++ lzds_DS1RECFM_to_recfm ds.DS1RECFM ++
    bytes ",lrecl=" ++ bytes (toString ds.DS1LRECL) ++ bytes ",dsorg=PS\n"

def sizeofLine : Nat := 200

def printed (line : Bytes) : Bytes := line.take (sizeofLine - 1)

structure Metadata where
  metadata : Bytes
  metasize : Nat
  metaused : Nat

/-- The line goes to the end of the buffer, with a null byte behind it; `none` if it leaves the buffer. -/
def addLine (m : Metadata) (line : Bytes) : Option Metadata :=
  let buffer := printed line
  let count := buffer.length
  let m :=
    if m.metaused + count + 1 > m.metasize then
      { m with metadata := m.metadata ++ List.replicate 4096 0, metasize := m.metasize + 4096 }
    else m
  if m.metaused + count + 1 ≤ m.metadata.length then
    some { m with
      metadata := m.metadata.take m.metaused ++ (buffer ++ [0]) ++ m.metadata.drop (m.metaused + count + 1)
      metaused := m.metaused + count }
  else none

def zdsfs_create_meta_data_buffer (datasets : List Dataset) : Option Metadata :=
  datasets.foldlM (fun m ds =>
    if !ds.is_supported then some m
    else do
      let m ← addLine m (datasetLine ds)
      if !ds.is_PDS then some m
      else ds.members.foldlM (fun m mbrname => addLine m (memberLine ds mbrname)) m)
    ⟨List.replicate 4096 0, 4096, 0⟩

/-! ## The content -/

def datasetLines (ds : Dataset) : List Bytes :=
  if !ds.is_supported then []
  else datasetLine ds :: if !ds.is_PDS then [] else ds.members.map (memberLine ds)

def metaContent (datasets : List Dataset) : Bytes := (datasets.flatMap datasetLines).flatMap printed

structure Filled (m : Metadata) (content : Bytes) : Prop where
  size : m.metadata.length = m.metasize
  used : m.metaused = content.length
  content : m.metadata.take m.metaused = content

section
variable {m : Metadata} {content : Bytes}

theorem Filled.grow (h : Filled m content) :
    Filled { m with metadata := m.metadata ++ List.replicate 4096 0, metasize := m.metasize + 4096 } content where
  size := by simp only [List.length_append, List.length_replicate, h.size]
  used := h.used
  content := by
    have hle : content.length ≤ m.metadata.length := by
      rw [← h.content, List.length_take]
      exact Nat.min_le_right ..
    rw [List.take_append_of_le_length (by rw [h.used]; exact hle), h.content]

theorem addLine_filled (h : Filled m content) (line : Bytes) :
    ∃ m', addLine m line = some m' ∧ Filled m' (content ++ printed line) := by
  have hprinted : (printed line).length < 200 := by
    rw [printed, List.length_take, sizeofLine]
    omega
  -- the buffer that is large enough
  obtain ⟨b, hb, hfilled, hfits⟩ : ∃ b, (if m.metaused + (printed line).length + 1 > m.metasize then
      { m with metadata := m.metadata ++ List.replicate 4096 0, metasize := m.metasize + 4096 } else m) = b ∧
      Filled b content ∧ b.metaused + (printed line).length + 1 ≤ b.metadata.length := by
    have hle : content.length ≤ m.metadata.length := by
      rw [← h.content, List.length_take]
      exact Nat.min_le_right ..
    have hsize := h.size
    have hused := h.used
    by_cases hgrow : m.metaused + (printed line).length + 1 > m.metasize
    · refine ⟨_, if_pos hgrow, h.grow, ?_⟩
      simp only [List.length_append, List.length_replicate]
      omega
    · exact ⟨_, if_neg hgrow, h, by omega⟩
  have hadd : addLine m line = some { b with
      metadata := b.metadata.take b.metaused ++ (printed line ++ [0]) ++
        b.metadata.drop (b.metaused + (printed line).length + 1)
      metaused := b.metaused + (printed line).length } := by
    simp only [addLine, hb, if_pos hfits]
  refine ⟨_, hadd, ?_, ?_, ?_⟩
  · have hsize := hfilled.size
    simp only [List.length_append, List.length_take, List.length_drop, List.length_cons, List.length_nil]
    omega
  · simp only [hfilled.used, List.length_append]
  · have hlen : (b.metadata.take b.metaused).length = b.metaused := by
      rw [List.length_take]
      omega
    simp only [List.append_assoc]
    rw [← List.append_assoc, List.take_append_of_le_length (by simp [hlen]),
      List.take_of_length_le (by simp [hlen]),
      hfilled.content]

theorem addLines_filled (h : Filled m content) {α : Type} (f : α → Bytes) (xs : List α) :
    ∃ m', xs.foldlM (fun m x => addLine m (f x)) m = some m' ∧
      Filled m' (content ++ (xs.map f).flatMap printed) := by
  induction xs generalizing m content with
  | nil => exact ⟨m, rfl, by simpa using h⟩
  | cons x xs ih =>
    obtain ⟨m₁, h₁, hf₁⟩ := addLine_filled h (f x)
    obtain ⟨m₂, h₂, hf₂⟩ := ih hf₁
    refine ⟨m₂, ?_, by simpa [List.append_assoc] using hf₂⟩
    rw [List.foldlM_cons, h₁]
    exact h₂

theorem addDatasets_filled (h : Filled m content) (datasets : List Dataset) :
    ∃ m', datasets.foldlM (fun m ds =>
      if !ds.is_supported then some m
      else do
        let m ← addLine m (datasetLine ds)
        if !ds.is_PDS then some m
        else ds.members.foldlM (fun m mbrname => addLine m (memberLine ds mbrname)) m) m = some m' ∧
      Filled m' (content ++ metaContent datasets) := by
  induction datasets generalizing m content with
  | nil => exact ⟨m, rfl, by simpa [metaContent] using h⟩
  | cons ds datasets ih =>
    obtain ⟨m₁, h₁, hf₁⟩ : ∃ m₁, (if !ds.is_supported then some m
        else do
          let m ← addLine m (datasetLine ds)
          if !ds.is_PDS then some m
          else ds.members.foldlM (fun m mbrname => addLine m (memberLine ds mbrname)) m) = some m₁ ∧
        Filled m₁ (content ++ (datasetLines ds).flatMap printed) := by
      cases hs : ds.is_supported with
      | false => exact ⟨m, by simp, by simpa [datasetLines, hs] using h⟩
      | true =>
        obtain ⟨m₁, h₁, hf₁⟩ := addLine_filled h (datasetLine ds)
        cases hp : ds.is_PDS with
        | false => exact ⟨m₁, by simp [h₁], by simpa [datasetLines, hs, hp] using hf₁⟩
        | true =>
          obtain ⟨m₂, h₂, hf₂⟩ := addLines_filled hf₁ (memberLine ds) ds.members
          exact ⟨m₂, by simp [h₁, h₂], by simpa [datasetLines, hs, hp, List.append_assoc] using hf₂⟩
    obtain ⟨m₂, h₂, hf₂⟩ := ih hf₁
    refine ⟨m₂, ?_, by simpa [metaContent, List.append_assoc] using hf₂⟩
    rw [List.foldlM_cons, h₁]
    exact h₂

end

theorem create_meta_data_buffer_eq (datasets : List Dataset) :
    ∃ m, zdsfs_create_meta_data_buffer datasets = some m ∧ Filled m (metaContent datasets) := by
  have hempty : Filled ⟨List.replicate 4096 0, 4096, 0⟩ [] := ⟨List.length_replicate, rfl, rfl⟩
  exact addDatasets_filled hempty datasets

end Zdsfs
