import S390Tools.Fdasd.Read

/-!
# Data set names

fdasd's own names are `LINUX.V`, the volume serial, `.PART`, four digits and the
type. Writing keeps or creates names of this form; reading finds the digits if
the serial does not contain `PART` itself.
-/

namespace Fdasd

open Word Vtoc CString

/-! ## Volume serials -/

/-- What `fdasd_check_volser` lets pass. -/
def volserChar (c : UInt8) : Bool :=
  (0x23 ≤ c && c ≤ 0x25) || (0x30 ≤ c && c ≤ 0x39) || (0x40 ≤ c && c ≤ 0x5a) || (0x61 ≤ c && c ≤ 0x7a)

def fdasd_check_volser (volser : List UInt8) (devno : Nat) : List UInt8 :=
  let checked := (((str volser).take VOLSER_LENGTH).filter volserChar).map toupper
  if checked = [] then bytes "0X" ++ hex4 devno else checked

def vtoc_volume_label_set_volser (volser : List UInt8) : List UInt8 :=
  let s := vtoc_ebcdic_enc (((str volser).take VOLSER_LENGTH).map toupper)
  ncopy s s.length ++ (vtoc_ebcdic_enc (bytes "      ")).drop s.length

def SerialChar (c : UInt8) : Prop := volserChar c = true ∧ toupper c = c

instance (c : UInt8) : Decidable (SerialChar c) := inferInstanceAs (Decidable (_ ∧ _))

structure Serial (w : List UInt8) : Prop where
  pos : 0 < w.length
  le : w.length ≤ VOLSER_LENGTH
  chars : ∀ c ∈ w, SerialChar c

/-- The field that holds the serial `w`. -/
def serialField (w : List UInt8) : List UInt8 :=
  vtoc_ebcdic_enc (w ++ List.replicate (VOLSER_LENGTH - w.length) 0x20)

theorem forall_byte {P : UInt8 → Prop} (h : ∀ n < 256, P (UInt8.ofNat n)) (c : UInt8) : P c := by
  have hc := h c.toNat c.toNat_lt
  rwa [UInt8.ofNat_toNat] at hc

/-- Characters that survive the translation to EBCDIC and back. -/
def Stable (c : UInt8) : Prop := EBCtoASC.getD (ASCtoEBC.getD c.toNat 0).toNat 0 = c ∧ ASCtoEBC.getD c.toNat 0 ≠ 0

instance (c : UInt8) : Decidable (Stable c) := inferInstanceAs (Decidable (_ ∧ _))

theorem serial_bytes : (∀ n < 256, (volserChar (UInt8.ofNat n) = true → SerialChar (toupper (UInt8.ofNat n))) ∧
    (SerialChar (UInt8.ofNat n) → Stable (UInt8.ofNat n))) ∧ Stable 0x20 ∧ Stable 0x2e := by
  decide +kernel

theorem toupper_serial {c : UInt8} : volserChar c = true → SerialChar (toupper c) :=
  (forall_byte (P := fun c => (volserChar c = true → SerialChar (toupper c)) ∧
    (SerialChar c → Stable c)) serial_bytes.1 c).1

theorem SerialChar.ne {c : UInt8} (h : SerialChar c) : c ≠ 0 ∧ c ≠ 0x20 ∧ c ≠ 0x2e := by
  refine ⟨?_, ?_, ?_⟩ <;> rintro rfl <;> exact absurd h.1 (by decide)

theorem SerialChar.stable {c : UInt8} : SerialChar c → Stable c :=
  (forall_byte (P := fun c => (volserChar c = true → SerialChar (toupper c)) ∧
    (SerialChar c → Stable c)) serial_bytes.1 c).2

theorem fixed_chars : (∀ c ∈ bytes "0X", volserChar c = true) ∧
    (∀ c ∈ bytes "LINUX.V", SerialChar c ∨ c = 0x2e) ∧
    ∀ d : Node, ∀ c ∈ bytes ".PART" ++ decimal4 (d + 1), SerialChar c ∨ c = 0x2e := by
  have hnames : (bytes "0X").all volserChar = true ∧
      (bytes "LINUX.V").all (fun c => decide (SerialChar c ∨ c = 0x2e)) = true := by
    decide
  have hpart : ∀ d : Node, (bytes ".PART" ++ decimal4 (d + 1)).all (fun c =>
    decide (SerialChar c ∨ c = 0x2e)) = true := by
    decide
  exact ⟨List.all_eq_true.mp hnames.1, List.all_iff_forall_prop.mp hnames.2, fun d =>
    List.all_iff_forall_prop.mp (hpart d)⟩

theorem stable_of_fixed {c : UInt8} (h : SerialChar c ∨ c = 0x2e) : Stable c ∧ c ≠ 0 ∧ c ≠ 0x20 := by
  rcases h with h | rfl
  · exact ⟨h.stable, h.ne.1, h.ne.2.1⟩
  · exact ⟨serial_bytes.2.2, by decide, by decide⟩

theorem dec_enc {s : List UInt8} (h : ∀ c ∈ s, Stable c) : vtoc_ebcdic_dec (vtoc_ebcdic_enc s) = s := by
  unfold vtoc_ebcdic_dec vtoc_ebcdic_enc
  rw [List.map_map]
  have hid : ∀ c ∈ s, ((fun c : UInt8 => EBCtoASC.getD c.toNat 0) ∘ fun c => ASCtoEBC.getD c.toNat 0) c = id c := by
    intro c hc
    rw [Function.comp_apply, (h c hc).1, id]
  rw [List.map_congr_left hid, List.map_id]

theorem enc_ne_zero {s : List UInt8} (h : ∀ c ∈ s, Stable c) : ∀ c ∈ vtoc_ebcdic_enc s, c ≠ 0 := by
  intro c hc
  obtain ⟨d, hd, rfl⟩ := List.mem_map.mp hc
  exact (h d hd).2

theorem hexDigit_volser (n : Nat) (h : n < 16) : volserChar (hexDigit n) = true := by
  interval_cases n <;> decide

theorem hex_volser (n : Nat) : ∀ c ∈ hex n, volserChar c = true := by
  induction n using hex.induct with
  | case1 n h =>
    rw [hex, if_pos h]
    intro c hc
    rw [List.mem_singleton.mp hc]
    exact hexDigit_volser n h
  | case2 n h ih =>
    rw [hex, if_neg h]
    intro c hc
    rcases List.mem_append.mp hc with hc | hc
    · exact ih c hc
    · rw [List.mem_singleton.mp hc]
      exact hexDigit_volser _ (Nat.mod_lt _ (by decide))

theorem check_volser_chars (volser : List UInt8) (devno : Nat) :
    fdasd_check_volser volser devno ≠ [] ∧ ∀ c ∈ fdasd_check_volser volser devno, volserChar c = true := by
  unfold fdasd_check_volser
  simp only
  split
  · refine ⟨by simp [bytes], fun c hc => ?_⟩
    rcases List.mem_append.mp hc with hc | hc
    · exact fixed_chars.1 c hc
    · rcases List.mem_append.mp hc with hc | hc
      · rw [List.eq_of_mem_replicate hc]; decide
      · exact hex_volser devno c hc
  · rename_i hne
    refine ⟨hne, fun c hc => ?_⟩
    obtain ⟨d, hd, rfl⟩ := List.mem_map.mp hc
    exact (toupper_serial (List.mem_filter.mp hd).2).1

theorem volserChar_ne_zero {c : UInt8} (h : volserChar c = true) : c ≠ 0 := by
  rintro rfl; exact absurd h (by decide)

theorem check_volser_serial (volser : List UInt8) (devno : Nat) :
    ∃ w, Serial w ∧ vtoc_volume_label_set_volser (fdasd_check_volser volser devno) = serialField w := by
  obtain ⟨hne, hv⟩ := check_volser_chars volser devno
  generalize fdasd_check_volser volser devno = s at hne hv
  refine ⟨(s.take VOLSER_LENGTH).map toupper, ⟨?_, ?_, fun c hc => ?_⟩, ?_⟩
  · cases s with
    | nil => exact absurd rfl hne
    | cons c s => simp [VOLSER_LENGTH]
  · simp
  · obtain ⟨d, hd, rfl⟩ := List.mem_map.mp hc
    exact toupper_serial (hv d (List.mem_of_mem_take hd))
  · have hs : str s = s := str_eq_self fun c hc => volserChar_ne_zero (hv c hc)
    have hst : ∀ c ∈ (s.take VOLSER_LENGTH).map toupper, Stable c := fun c hc => by
      obtain ⟨d, hd, rfl⟩ := List.mem_map.mp hc
      exact (toupper_serial (hv d (List.mem_of_mem_take hd))).stable
    unfold vtoc_volume_label_set_volser serialField
    simp only [hs]
    rw [ncopy_eq_self (enc_ne_zero hst)]
    generalize (s.take VOLSER_LENGTH).map toupper = w
    simp only [vtoc_ebcdic_enc, List.map_append, List.length_map, List.map_replicate]
    congr 1
    rw [← List.map_drop]
    have : bytes "      " = List.replicate VOLSER_LENGTH 0x20 := by decide
    rw [this, List.drop_replicate, List.map_replicate]

theorem decodedVolser_serialField {w : List UInt8} (h : Serial w) :
    decodedVolser (serialField w) = w ++ List.replicate (VOLSER_LENGTH - w.length) 0x20 := by
  have hst : ∀ c ∈ w ++ List.replicate (VOLSER_LENGTH - w.length) 0x20, Stable c := fun c hc => by
    rcases List.mem_append.mp hc with hc | hc
    · exact (h.chars c hc).stable
    · rw [List.eq_of_mem_replicate hc]
      exact serial_bytes.2.1
  have hlen : (serialField w).length = VOLSER_LENGTH := by
    have := h.le
    simp only [serialField, enc_length, List.length_append, List.length_replicate]
    omega
  have hcopy : ncopy (serialField w) VOLSER_LENGTH = serialField w := by
    rw [← hlen]; exact ncopy_eq_self (enc_ne_zero hst)
  rw [decodedVolser, hcopy, serialField, dec_enc hst]

/-! ## Names -/

def nameHead (w : List UInt8) (no : Nat) : List UInt8 := bytes "LINUX.V" ++ w ++ (bytes ".PART" ++ decimal4 no)

/-- The name `ch`, in ASCII, has fdasd's form with serial `w` and number `no`. -/
structure Named (ch w : List UInt8) (no : Nat) : Prop where
  head : ∃ t, ch = nameHead w no ++ t
  length : ch.length = 44
  serial : Serial w

theorem linux_chars : ∀ c ∈ bytes "LINUX.V", Stable c ∧ c ≠ 0 ∧ c ≠ 0x20 := fun c hc =>
  stable_of_fixed (fixed_chars.2.1 c hc)

theorem partDigits_chars (d : Node) : ∀ c ∈ bytes ".PART" ++ decimal4 (d + 1), Stable c ∧ c ≠ 0 := fun c hc =>
  have h := stable_of_fixed (fixed_chars.2.2 d c hc)
  ⟨h.1, h.2.1⟩

theorem nameHead_chars {w : List UInt8} (h : Serial w) (d : Node) :
    ∀ c ∈ nameHead w (d + 1), Stable c ∧ c ≠ 0 := by
  intro c hc
  rcases List.mem_append.mp hc with hc | hc
  · rcases List.mem_append.mp hc with hc | hc
    · exact ⟨(linux_chars c hc).1, (linux_chars c hc).2.1⟩
    · exact ⟨(h.chars c hc).stable, (h.chars c hc).ne.1⟩
  · exact partDigits_chars d c hc

theorem Named.recode {ch w : List UInt8} {d : Node} (h : Named ch w (d + 1)) :
    Named (vtoc_ebcdic_dec (vtoc_ebcdic_enc ch)) w (d + 1) := by
  obtain ⟨t, rfl⟩ := h.head
  refine ⟨⟨vtoc_ebcdic_dec (vtoc_ebcdic_enc t), ?_⟩, by simpa using h.length, h.serial⟩
  have happ : vtoc_ebcdic_dec (vtoc_ebcdic_enc (nameHead w (d + 1) ++ t)) =
      vtoc_ebcdic_dec (vtoc_ebcdic_enc (nameHead w (d + 1))) ++ vtoc_ebcdic_dec (vtoc_ebcdic_enc t) := by
    simp only [vtoc_ebcdic_dec, vtoc_ebcdic_enc, List.map_append]
  rw [happ, dec_enc fun c hc => (nameHead_chars h.serial d c hc).1]

theorem linux_length : (bytes "LINUX.V").length = 7 := by decide

theorem partDigits_length (d : Node) : (bytes ".PART" ++ decimal4 (d + 1)).length = 9 := by
  revert d; decide

theorem Named.length_tail {w t : List UInt8} {d : Node} (h : (nameHead w (d + 1) ++ t).length = 44) :
    w.length + 9 + t.length = 37 := by
  have := partDigits_length d
  have := linux_length
  simp only [nameHead, List.length_append] at *
  omega

theorem blanked_ne_zero {w : List UInt8} (h : Serial w) (k : Nat) : ∀ c ∈ w ++ List.replicate k 0x20, c ≠ 0 := by
  intro c hc
  rcases List.mem_append.mp hc with hc | hc
  · exact (h.chars c hc).ne.1
  · rw [List.eq_of_mem_replicate hc]; decide

theorem store_serial {w r : List UInt8} (h : Serial w) {k n : Nat} (hk : w.length + k = n) (hr : n ≤ r.length) :
    strncpy (bytes "LINUX.V" ++ r) 7 (w ++ List.replicate k 0x20) n =
      some (bytes "LINUX.V" ++ w ++ (List.replicate k 0x20 ++ r.drop n)) := by
  have hcopy : ncopy (w ++ List.replicate k 0x20) n = w ++ List.replicate k 0x20 := by
    have := ncopy_eq_self (blanked_ne_zero h k)
    rwa [List.length_append, List.length_replicate, hk] at this
  rw [strncpy_at _ linux_length.symm hr, hcopy]
  simp only [List.append_assoc]

theorem strchr_blank {w : List UInt8} (h : Serial w) (b : List UInt8) :
    strchr (bytes "LINUX.V" ++ w ++ 0x20 :: b) 0x20 = some (7 + w.length) := by
  have hc : ∀ c ∈ bytes "LINUX.V" ++ w, c ≠ 0 ∧ c ≠ 0x20 := by
    intro c hc
    rcases List.mem_append.mp hc with hc | hc
    · exact (linux_chars c hc).2
    · exact ⟨(h.chars c hc).ne.1, (h.chars c hc).ne.2.1⟩
  rw [strchr_append hc (by decide), List.length_append, linux_length]

theorem kept_part {w : List UInt8} (h : Serial w) (d : Node) (t : List UInt8) :
    strchr (w ++ (bytes ".PART" ++ decimal4 (d + 1)) ++ t) 0x2e = some w.length ∧
      ncopy ((w ++ (bytes ".PART" ++ decimal4 (d + 1)) ++ t).drop w.length) 31 =
        bytes ".PART" ++ decimal4 (d + 1) ++ ncopy t 22 := by
  constructor
  · have hdot : ∀ d : Node, bytes ".PART" ++ decimal4 (d + 1) = 0x2e :: (bytes "PART" ++ decimal4 (d + 1)) := by
      decide
    rw [hdot, List.append_assoc, List.cons_append]
    exact strchr_append (fun c hc => ⟨(h.chars c hc).ne.1, (h.chars c hc).ne.2.2⟩) (by decide)
  · rw [List.append_assoc, List.drop_left]
    have := ncopy_append_add (b := t) (fun c hc => (partDigits_chars d c hc).2) 22
    rwa [partDigits_length] at this

/-- An existing name keeps its number under the serial `w'`. -/
theorem reuseName_eq {ch w w' : List UInt8} {d : Node} (h : Named ch w (d + 1)) (hw : Serial w')
    (behind : List UInt8) :
    ∃ ch', reuseName (serialField w') ch behind = .ok ch' ∧ Named ch' w' (d + 1) := by
  obtain ⟨t, rfl⟩ := h.head
  have hlen := Named.length_tail h.length
  have hlw := hw.le
  have hlin := linux_length
  simp only [VOLSER_LENGTH] at hlw
  obtain ⟨hc2, hs2⟩ := kept_part h.serial d (t ++ behind)
  have hname : nameHead w (d + 1) ++ t = bytes "LINUX.V" ++ (w ++ (bytes ".PART" ++ decimal4 (d + 1)) ++ t) := by
    simp only [nameHead, List.append_assoc]
  have hr : (w ++ (bytes ".PART" ++ decimal4 (d + 1)) ++ t).length = 37 := by
    rw [List.length_append, List.length_append, partDigits_length]; exact hlen
  have hdrop : (nameHead w (d + 1) ++ t).drop 7 ++ behind =
      w ++ (bytes ".PART" ++ decimal4 (d + 1)) ++ (t ++ behind) := by
    rw [hname, ← linux_length, List.drop_left, List.append_assoc _ t]
  -- the serial and its blanks go to the places 7 to 13
  obtain ⟨e, he⟩ : ∃ e, (w ++ (bytes ".PART" ++ decimal4 (d + 1)) ++ t).drop 7 = e := ⟨_, rfl⟩
  have hle : e.length = 30 := by rw [← he, List.length_drop, hr]
  have hstore : strncpy (nameHead w (d + 1) ++ t) 7
      (w' ++ List.replicate (VOLSER_LENGTH - w'.length) 0x20 ++ [0x20]) (VOLSER_LENGTH + 1) =
      some (bytes "LINUX.V" ++ w' ++ (List.replicate (7 - w'.length) 0x20 ++ e)) := by
    have hsucc : 7 - w'.length = VOLSER_LENGTH - w'.length + 1 := by simp only [VOLSER_LENGTH]; omega
    rw [hname, List.append_assoc w', ← List.replicate_succ', ← hsucc, ← he]
    exact store_serial hw (by simp only [VOLSER_LENGTH]; omega) (by rw [hr]; decide)
  have hblank : strchr (bytes "LINUX.V" ++ w' ++ (List.replicate (7 - w'.length) 0x20 ++ e) ++ behind) 0x20 =
      some (7 + w'.length) := by
    obtain ⟨k, hk⟩ : ∃ k, 7 - w'.length = k + 1 := ⟨6 - w'.length, by omega⟩
    rw [hk, List.replicate_succ, List.append_assoc, List.cons_append, List.cons_append]
    exact strchr_blank hw _
  -- the kept part follows the serial
  obtain ⟨t', ht'⟩ : ∃ t', strncpy (bytes "LINUX.V" ++ w' ++ (List.replicate (7 - w'.length) 0x20 ++ e))
      (7 + w'.length) (bytes ".PART" ++ decimal4 (d + 1) ++ ncopy (t ++ behind) 22) 31 =
      some (nameHead w' (d + 1) ++ t') := by
    have hc := ncopy_append_add (b := ncopy (t ++ behind) 22) (fun c hc => (partDigits_chars d c hc).2) 22
    rw [partDigits_length] at hc
    refine ⟨ncopy (ncopy (t ++ behind) 22) 22 ++ (List.replicate (7 - w'.length) 0x20 ++ e).drop 31, ?_⟩
    rw [strncpy_at _ (show 7 + w'.length = (bytes "LINUX.V" ++ w').length by rw [List.length_append, hlin])
      (by rw [List.length_append, List.length_replicate, hle]; omega), hc]
    simp only [nameHead, List.append_assoc]
  refine ⟨nameHead w' (d + 1) ++ t', ?_, ⟨t', rfl⟩, ?_, hw⟩
  · unfold reuseName
    rw [decodedVolser_serialField hw, hdrop, hc2]
    simp only [hs2]
    rw [bind_ok (by rw [hstore]; rfl), bind_ok (by rw [hblank]; rfl), ht']
    rfl
  · rw [strncpy_length ht']
    simp only [List.length_append, List.length_replicate]
    omega

theorem type_dsname (s : List UInt8) :
    ∃ dsname, get_part_dsname_by_type ((get_part_type_by_dsname s).getD PARTITION_NATIVE) = some dsname ∧
      dsname.length ≤ 6 := by
  have hall : ∀ t ∈ partition_types, ∃ dsname, get_part_dsname_by_type t.2 = some dsname ∧ dsname.length ≤ 6 := by
    intro t ht
    have hsome : ∀ t ∈ partition_types, (get_part_dsname_by_type t.2).any fun n => n.length ≤ 6 := by decide
    have := hsome t ht
    cases h : get_part_dsname_by_type t.2 with
    | none => rw [h] at this; cases this
    | some n => exact ⟨n, rfl, by simpa [h] using this⟩
  unfold get_part_type_by_dsname
  cases h : partition_types.find? fun t => (strstr s t.1).isSome with
  | none => exact hall (bytes "NATIVE", 1) (by simp [partition_types])
  | some t => exact hall t (List.mem_of_find?_eq_some h)

theorem createName_eq {w : List UInt8} (hw : Serial w) (k : Node) {type : Nat} {dsname : List UInt8}
    (ht : get_part_dsname_by_type type = some dsname) (hd : dsname.length ≤ 6) (behind : List UInt8) :
    ∃ ch, createName (serialField w) k type behind = .ok ch ∧ Named ch w (k + 1) := by
  have hlw := hw.le
  simp only [VOLSER_LENGTH] at hlw
  have hlin := linux_length
  have hblank : ncopy (bytes "LINUX.V               " ++ bytes "                      ") 44 =
      bytes "LINUX.V" ++ List.replicate 37 0x20 := by decide
  have hstore : strncpy (bytes "LINUX.V" ++ List.replicate 37 0x20) 7
      (w ++ List.replicate (VOLSER_LENGTH - w.length) 0x20) VOLSER_LENGTH =
      some (bytes "LINUX.V" ++ w ++ List.replicate (37 - w.length) 0x20) := by
    rw [store_serial hw (by simp only [VOLSER_LENGTH]; omega) (by rw [List.length_replicate]; decide),
      List.drop_replicate, ← List.replicate_add]
    simp only [VOLSER_LENGTH]
    congr 4
    omega
  have hchr : strchr (bytes "LINUX.V" ++ w ++ List.replicate (37 - w.length) 0x20 ++ behind) 0x20 =
      some (7 + w.length) := by
    obtain ⟨m, hm⟩ : ∃ m, 37 - w.length = m + 1 := ⟨36 - w.length, by omega⟩
    rw [hm, List.replicate_succ, List.append_assoc, List.cons_append]
    exact strchr_blank hw _
  have h₁ : strncpy (bytes "LINUX.V" ++ w ++ List.replicate (37 - w.length) 0x20) (7 + w.length) (bytes ".PART") 5 =
      some (bytes "LINUX.V" ++ w ++ bytes ".PART" ++ List.replicate (32 - w.length) 0x20) := by
    rw [strncpy_at _ (by rw [List.length_append, hlin]) (by rw [List.length_replicate]; omega),
      show ncopy (bytes ".PART") 5 = bytes ".PART" by decide, List.drop_replicate,
      show 37 - w.length - 5 = 32 - w.length by omega]
    simp only [List.append_assoc]
  have h₂ : strncpy (bytes "LINUX.V" ++ w ++ bytes ".PART" ++ List.replicate (32 - w.length) 0x20)
    (7 + w.length + 5)
      (decimal4 (k + 1) ++ [0x2e]) 5 =
      some (nameHead w (k + 1) ++ [0x2e] ++ List.replicate (27 - w.length) 0x20) := by
    have hdot : ncopy (decimal4 (k + 1) ++ [0x2e]) 5 = decimal4 (k + 1) ++ [0x2e] := by revert k; decide
    have hP : (bytes ".PART").length = 5 := by decide
    rw [strncpy_at _ (by rw [List.length_append, List.length_append, hlin, hP])
      (by rw [List.length_replicate]; omega),
      hdot, List.drop_replicate, show 32 - w.length - 5 = 27 - w.length by omega]
    simp only [nameHead, List.append_assoc]
  have hhead : (nameHead w (k + 1)).length = 16 + w.length := by
    rw [nameHead, List.length_append, List.length_append, hlin, partDigits_length]; omega
  obtain ⟨t, h₃⟩ : ∃ t, strncpy (nameHead w (k + 1) ++ [0x2e] ++ List.replicate (27 - w.length) 0x20)
      (7 + w.length + 10) dsname dsname.length = some (nameHead w (k + 1) ++ t) := by
    refine ⟨[0x2e] ++ (ncopy dsname dsname.length ++ (List.replicate (27 - w.length) 0x20).drop dsname.length), ?_⟩
    rw [strncpy_at _ (by rw [List.length_append, hhead, List.length_singleton]; omega)
      (by rw [List.length_replicate]; omega)]
    simp only [List.append_assoc]
  refine ⟨nameHead w (k + 1) ++ t, ?_, ⟨t, rfl⟩, ?_, hw⟩
  · unfold createName
    simp only
    rw [hblank, decodedVolser_serialField hw, bind_ok (by rw [hstore]; rfl), bind_ok (by rw [hchr]; rfl),
      bind_ok (by rw [h₁]; rfl), bind_ok (by rw [h₂]; rfl), bind_ok (by rw [ht]; rfl), h₃]
    rfl
  · rw [strncpy_length h₃]
    simp only [List.length_append, hhead, List.length_singleton, List.length_replicate]
    omega

end Fdasd
