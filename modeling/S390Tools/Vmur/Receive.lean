import Mathlib.Data.List.DropRight
import S390Tools.Vmur.Write

/-!
# Receiving a spool file (vmur/vmur.cpp)

CP stores the records of a spool file without trailing EBCDIC blanks. The pages
read back hold one record after the other; `convert_sfdata` puts the blanks back.
-/

namespace Vmur

def NOP : UInt8 := 0x3
def CCW_IMMED_FLAG : UInt8 := 0x10

/-- One record of a splink page; `data` are the `data_len` bytes behind the CCW. -/
structure SplinkRecord where
  opcode : UInt8
  flag : UInt8
  data : Bytes

abbrev SplinkPage := List SplinkRecord

section
variable (info : Info) (file_reclen : Nat)

def convert_text (data out : Bytes) : Option Bytes :=
  if data = [0x40] then some (out ++ [0x0a])
  else
    match info.iconv data with
    | none => none
    | some text => some (out ++ text ++ [0x0a])

def convert_binary (data out : Bytes) : Bytes :=
  out ++ data ++ List.replicate (file_reclen - data.length) 0x40

def strip (pad : UInt8) : Nat → Bytes → Bytes
  | 0, out => out
  | n + 1, out => if out.getLast? = some pad then strip pad n out.dropLast else out

def convert_blocked (data out : Bytes) : Bytes :=
  strip info.blocked_padding file_reclen (out ++ data ++ List.replicate (file_reclen - data.length) 0x40)
    ++ [info.blocked_separator]

def convert_sfdata : SplinkPage → Bytes → Option Bytes
  | [], out => some out
  | rec :: page, out =>
    if rec.opcode = NOP then convert_sfdata page out
    else if rec.flag &&& CCW_IMMED_FLAG ≠ 0 then convert_sfdata page out
    else if info.text_specified then
      match convert_text info rec.data out with
      | none => none
      | some out => convert_sfdata page out
    else if info.blocked_specified then convert_sfdata page (convert_blocked info file_reclen rec.data out)
    else convert_sfdata page (convert_binary file_reclen rec.data out)

def write_normal : List SplinkPage → Option Bytes
  | [] => some []
  | page :: pages =>
    match convert_sfdata info file_reclen page [], write_normal pages with
    | some out, some rest => some (out ++ rest)
    | _, _ => none

end

/-! ## What CP stores -/

def trim (r : Bytes) : Bytes :=
  match r.rdropWhile (· = 0x40) with
  | [] => r.take 1
  | t => t

def SplinkPage.stored (page : SplinkPage) : List Bytes :=
  (page.filter fun rec => rec.opcode ≠ NOP ∧ rec.flag &&& CCW_IMMED_FLAG = 0).map SplinkRecord.data

/-- The pages hold the records of `data`, each one trimmed. -/
def Spooled (reclen : Nat) (data : Bytes) (pages : List SplinkPage) : Prop :=
  ∃ rs : List Bytes, rs.flatten = data ∧ (∀ r ∈ rs, r.length = reclen) ∧
    pages.flatMap SplinkPage.stored = rs.map trim

theorem eq_append_replicate_of_rdropWhile (p : UInt8) (r : Bytes) :
    r = r.rdropWhile (· = p) ++ List.replicate (r.length - (r.rdropWhile (· = p)).length) p := by
  have hsplit := @List.rdropWhile_append_rtakeWhile _ (fun b => decide (b = p)) r
  have hrep : r.rtakeWhile (· = p) = List.replicate (r.rtakeWhile (· = p)).length p :=
    List.eq_replicate_iff.mpr ⟨rfl, fun b hb => by simpa using List.mem_rtakeWhile_imp hb⟩
  have hlen := congrArg List.length hsplit
  rw [List.length_append] at hlen
  rw [show r.length - (r.rdropWhile (· = p)).length = (r.rtakeWhile (· = p)).length by omega, ← hrep]
  exact hsplit.symm

theorem restore_trim {r : Bytes} (hr : r ≠ []) :
    trim r ++ List.replicate (r.length - (trim r).length) 0x40 = r := by
  have hsplit := eq_append_replicate_of_rdropWhile 0x40 r
  cases ht : r.rdropWhile (· = 0x40) with
  | nil =>
    rw [ht, List.nil_append, List.length_nil, Nat.sub_zero] at hsplit
    have hpos := List.length_pos_of_ne_nil hr
    have htrim : trim r = [0x40] := by
      rw [trim, ht]
      simp only
      rw [hsplit, List.take_replicate, Nat.min_eq_left hpos]
      rfl
    rw [htrim, List.singleton_append, ← List.replicate_succ, List.length_singleton, Nat.sub_add_cancel hpos]
    exact hsplit.symm
  | cons b t =>
    have htrim : trim r = b :: t := by rw [trim, ht]
    rw [ht] at hsplit
    rw [htrim]
    exact hsplit.symm

theorem strip_append (pad : UInt8) (out r : Bytes) : strip pad r.length (out ++ r) = out ++
    r.rdropWhile (· = pad) := by
  induction r using List.reverseRecOn with
  | nil => simp [strip]
  | append_singleton r b ih =>
    rw [List.length_append, List.length_singleton, strip, ← List.append_assoc, List.getLast?_append,
      List.rdropWhile_concat]
    by_cases hb : b = pad
    · rw [List.dropLast_concat, ih]
      simp [hb]
    · simp [hb]

/-! ## Reading it back -/

section
variable {info : Info} {reclen : Nat}

def received (info : Info) (r : Bytes) : Bytes :=
  if info.blocked_specified then r.rdropWhile (· = info.blocked_padding) ++ [info.blocked_separator] else r

theorem convert_blocked_trim {r : Bytes} (hpos : 0 < reclen) (hr : r.length = reclen) (out : Bytes) :
    convert_blocked info reclen (trim r) out = out ++ (r.rdropWhile (· = info.blocked_padding) ++
      [info.blocked_separator]) := by
  have hne : r ≠ [] := List.length_pos_iff.mp (hr ▸ hpos)
  rw [convert_blocked, ← hr, List.append_assoc, restore_trim hne, strip_append, List.append_assoc]

theorem convert_binary_trim {r : Bytes} (hpos : 0 < reclen) (hr : r.length = reclen) (out : Bytes) :
    convert_binary reclen (trim r) out = out ++ r := by
  have hne : r ≠ [] := List.length_pos_iff.mp (hr ▸ hpos)
  rw [convert_binary, ← hr, List.append_assoc, restore_trim hne]

theorem convert_sfdata_trim (hpos : 0 < reclen) (ht : info.text_specified = false) :
    ∀ {page : SplinkPage} {rs : List Bytes} (out : Bytes), (∀ r ∈ rs, r.length = reclen) →
      page.stored = rs.map trim →
      convert_sfdata info reclen page out = some (out ++ rs.flatMap (received info))
  | [], rs, out, _, h => by
    have hnil : rs = [] := List.map_eq_nil_iff.mp h.symm
    simp [convert_sfdata, hnil]
  | rec :: page, rs, out, hrs, h => by
    rw [convert_sfdata]
    by_cases hskip : rec.opcode ≠ NOP ∧ rec.flag &&& CCW_IMMED_FLAG = 0
    · rw [if_neg hskip.1, if_neg (fun h => h hskip.2), ht, if_neg (by decide)]
      rw [SplinkPage.stored, List.filter_cons_of_pos (by simpa using hskip), List.map_cons] at h
      obtain ⟨r, rs, rfl, hdata, hrest⟩ := List.map_eq_cons_iff.mp h.symm
      have hr := hrs r List.mem_cons_self
      have ih := fun out => convert_sfdata_trim hpos ht out (fun d hd =>
        hrs d (List.mem_cons_of_mem r hd)) hrest.symm
      rw [List.flatMap_cons, ← List.append_assoc, ← hdata, received]
      cases info.blocked_specified with
      | true => rw [if_pos rfl, if_pos rfl, convert_blocked_trim hpos hr, ih]
      | false => rw [if_neg (by decide), if_neg (by decide), convert_binary_trim hpos hr, ih]
    · rw [SplinkPage.stored, List.filter_cons_of_neg (by simpa using hskip)] at h
      have ih := convert_sfdata_trim hpos ht out hrs h
      by_cases hnop : rec.opcode = NOP
      · rw [if_pos hnop, ih]
      · rw [if_neg hnop, if_pos (fun h => hskip ⟨hnop, h⟩), ih]

theorem write_normal_trim (hpos : 0 < reclen) (ht : info.text_specified = false) :
    ∀ {pages : List SplinkPage} {rs : List Bytes}, (∀ r ∈ rs, r.length = reclen) →
      pages.flatMap SplinkPage.stored = rs.map trim → write_normal info reclen pages =
        some (rs.flatMap (received info))
  | [], rs, _, h => by
    have hnil : rs = [] := List.map_eq_nil_iff.mp h.symm
    simp [write_normal, hnil]
  | page :: pages, rs, hrs, h => by
    rw [List.flatMap_cons] at h
    obtain ⟨rs, rs', rfl, hpage, hpages⟩ := List.map_eq_append_iff.mp h.symm
    have hout := convert_sfdata_trim hpos ht [] (fun r hr => hrs r (List.mem_append_left rs' hr)) hpage.symm
    have hrest := write_normal_trim hpos ht (fun r hr => hrs r (List.mem_append_right rs hr)) hpages.symm
    rw [write_normal, hout, hrest, List.flatMap_append, List.nil_append]

theorem write_normal_binary {data : Bytes} {pages : List SplinkPage} (hpos : 0 < reclen)
    (ht : info.text_specified = false)
    (hb : info.blocked_specified = false) (h : Spooled reclen data pages) :
      write_normal info reclen pages = some data := by
  obtain ⟨rs, hdata, hrs, hpages⟩ := h
  have hid : received info = id := by
    funext r
    rw [received, hb, if_neg (by decide), id]
  rw [write_normal_trim hpos ht hrs hpages, hid, List.flatMap_id, hdata]

theorem eq_of_flatten_eq (hpos : 0 < reclen) : ∀ {rs rs' : List Bytes}, (∀ r ∈ rs, r.length = reclen) →
    (∀ r ∈ rs', r.length = reclen) → rs.flatten = rs'.flatten → rs = rs'
  | [], [], _, _, _ => rfl
  | [], r :: rs', _, h', h => by
    have hr := h' r List.mem_cons_self
    have hlen := congrArg List.length h
    rw [List.flatten_nil, List.flatten_cons, List.length_append, List.length_nil] at hlen
    omega
  | r :: rs, [], h, _, heq => by
    have hr := h r List.mem_cons_self
    have hlen := congrArg List.length heq
    rw [List.flatten_nil, List.flatten_cons, List.length_append, List.length_nil] at hlen
    omega
  | r :: rs, r' :: rs', h, h', heq => by
    rw [List.flatten_cons, List.flatten_cons] at heq
    obtain ⟨rfl, hrest⟩ := List.append_inj heq ((h r List.mem_cons_self).trans (h' r' List.mem_cons_self).symm)
    rw [eq_of_flatten_eq hpos (fun d hd => h d (List.mem_cons_of_mem r hd)) (fun d hd =>
      h' d (List.mem_cons_of_mem r hd)) hrest]

theorem length_pad_line {pad : UInt8} {line : Bytes} (h : line.length ≤ info.ur_reclen) :
    (pad_line info pad line).length = info.ur_reclen := by
  rw [pad_line, List.length_append, List.length_replicate, Nat.add_sub_cancel' h]

theorem rdropWhile_pad_line {pad : UInt8} {line : Bytes} (h : line.getLast? ≠ some pad) :
    (pad_line info pad line).rdropWhile (· = pad) = line := by
  have hrep : ∀ n : Nat, (line ++ List.replicate n pad).rdropWhile (· = pad) = line := by
    intro n
    induction n with
    | zero =>
      rw [List.replicate_zero, List.append_nil, List.rdropWhile_eq_self_iff]
      intro hl hp
      exact h ((List.getLast?_eq_some_getLast hl).trans (congrArg some (of_decide_eq_true hp)))
    | succ n ih =>
      rw [List.replicate_succ', ← List.append_assoc, List.rdropWhile_concat, if_pos (by simp), ih]
  exact hrep _

theorem write_normal_blocked {ls : List Bytes} {pages : List SplinkPage} (hpos : 0 < info.ur_reclen)
    (ht : info.text_specified = false) (hb : info.blocked_specified = true)
    (hfit : ∀ l ∈ ls, l.length ≤ info.ur_reclen) (hend : ∀ l ∈ ls, l.getLast? ≠ some info.blocked_padding)
    (h : Spooled info.ur_reclen (ls.map (pad_line info info.blocked_padding)).flatten pages) :
    write_normal info info.ur_reclen pages = some (ls.flatMap (· ++ [info.blocked_separator])) := by
  obtain ⟨rs, hdata, hrs, hpages⟩ := h
  have heq : rs = ls.map (pad_line info info.blocked_padding) := by
    refine eq_of_flatten_eq hpos hrs (fun r hr => ?_) hdata
    obtain ⟨l, hl, rfl⟩ := List.mem_map.mp hr
    exact length_pad_line (hfit l hl)
  have hreceived : ∀ l ∈ ls, received info (pad_line info info.blocked_padding l) = l ++
    [info.blocked_separator] := by
    intro l hl
    rw [received, if_pos hb, rdropWhile_pad_line (hend l hl)]
  rw [write_normal_trim hpos ht hrs hpages, heq, List.flatMap_map]
  exact congrArg some (List.flatMap_congr hreceived)

end

end Vmur
