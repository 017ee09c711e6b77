import S390Tools.Lib.CString
import S390Tools.Vtoc.Ebcdic

/-!
# The target list of a multi-volume dump (zipl/src/job.c)

`check_job_mvdump_data` splits the list into lines in place. A line is stored when
its newline is read; what follows the last newline is not.
-/

namespace Zipl.Job

open CString Vtoc

def MAX_DUMP_VOLUMES : Nat := 32

section
variable (device_list : List UInt8)

/-- The loop over the file: `line` stands at the front of the buffer, `device` are the entries stored. -/
def split_targets : List UInt8 → List UInt8 → List (List UInt8) → Except (List UInt8) (List (List UInt8))
  | [], _, device => .ok device
  | c :: buffer, line, device =>
    if c ≠ 0x0a then split_targets buffer (line ++ [c]) device
    else if line.length > 0 then
      if device.length = MAX_DUMP_VOLUMES then
        .error (bytes "Dump target list '" ++ device_list ++ bytes "' contains more than " ++
          bytes (toString device.length) ++ bytes " entries.")
      else split_targets buffer [] (device ++ [str line])
    else split_targets buffer line device

/-- The loop over the entries, `before` being those already seen. -/
def check_targets (misc_check_writable_device : List UInt8 → Bool) : List (List UInt8) → List (List UInt8) →
    Except (List UInt8) Unit
  | _, [] => .ok ()
  | before, d :: device =>
    if ¬misc_check_writable_device d then .error (bytes "Dump target '" ++ d ++ bytes "'")
    else if before.contains d then
      .error (bytes "Dump target list '" ++ device_list ++ bytes "' contains duplicate entry '" ++ d ++ bytes "'.")
    else check_targets misc_check_writable_device (before ++ [d]) device

def check_job_mvdump_data (misc_check_writable_device : List UInt8 → Bool) (buffer : List UInt8) :
    Except (List UInt8) (List (List UInt8)) := do
  if buffer.length = 0 then
    throw (bytes "Dump target list '" ++ device_list ++ bytes "' is empty.")
  let device ← split_targets device_list buffer [] []
  check_targets device_list misc_check_writable_device [] device
  return device

end

/-! ## Lines -/

def targets (buffer : List UInt8) : List (List UInt8) := (buffer.splitOn 0x0a).filter (· ≠ [])

/-- The non-empty lines that end with a newline, behind the text `line`. -/
def terminated (line buffer : List UInt8) : List (List UInt8) :=
  ((buffer.splitOn 0x0a).modifyHead (line ++ ·)).dropLast.filter (· ≠ [])

def remainder (buffer : List UInt8) : List UInt8 := (buffer.splitOn 0x0a).getLast (List.splitOn_ne_nil _ _)

theorem targets_eq (buffer : List UInt8) :
    targets buffer = terminated [] buffer ++ if remainder buffer = [] then [] else [remainder buffer] := by
  have hsplit := List.dropLast_append_getLast (List.splitOn_ne_nil 0x0a buffer)
  have hhead : (buffer.splitOn 0x0a).modifyHead ([] ++ ·) = buffer.splitOn 0x0a := by
    cases buffer.splitOn 0x0a <;> rfl
  rw [targets, ← hsplit, List.filter_append, terminated, hhead]
  congr 1
  rw [← remainder]
  by_cases h : remainder buffer = []
  · rw [if_pos h, h]
    rfl
  · rw [if_neg h, List.filter_cons_of_pos (by simpa using h), List.filter_nil]

theorem terminated_nil (line : List UInt8) : terminated line [] = [] := rfl

theorem terminated_cons {c : UInt8} (hc : c ≠ 0x0a) (line buffer : List UInt8) :
    terminated line (c :: buffer) = terminated (line ++ [c]) buffer := by
  obtain ⟨l, ls, hl⟩ := List.exists_cons_of_ne_nil (List.splitOn_ne_nil 0x0a buffer)
  rw [terminated, terminated, List.splitOn_cons_eq_if_modifyHead, if_neg (by simpa using hc), hl]
  simp only [List.modifyHead_cons, List.append_assoc, List.singleton_append]

theorem terminated_newline (line buffer : List UInt8) :
    terminated line (0x0a :: buffer) = (if line = [] then [] else [line]) ++ terminated [] buffer := by
  obtain ⟨l, ls, hl⟩ := List.exists_cons_of_ne_nil (List.splitOn_ne_nil 0x0a buffer)
  rw [terminated, terminated, List.splitOn_cons_eq_if_modifyHead, if_pos (by rfl), hl]
  simp only [List.modifyHead_cons, List.append_nil, List.nil_append, List.dropLast_cons_cons]
  by_cases h : line = []
  · rw [if_pos h, List.filter_cons_of_neg (by simpa using h), List.nil_append]
  · rw [if_neg h, List.filter_cons_of_pos (by simpa using h), List.singleton_append]

section
variable (device_list : List UInt8)

theorem split_targets_eq : ∀ (buffer line : List UInt8) (device : List (List UInt8)),
    device.length ≤ MAX_DUMP_VOLUMES →
    if device.length + (terminated line buffer).length ≤ MAX_DUMP_VOLUMES then
      split_targets device_list buffer line device = .ok (device ++ (terminated line buffer).map str)
    else ∃ text, split_targets device_list buffer line device = .error text
  | [], line, device, h => by
    rw [terminated_nil, if_pos (by simpa using h), split_targets]
    simp
  | c :: buffer, line, device, h => by
    by_cases hc : c = 0x0a
    · subst hc
      by_cases hline : line = []
      · have hstep : split_targets device_list (0x0a :: buffer) line device =
          split_targets device_list buffer [] device := by
          rw [hline]
          rfl
        rw [terminated_newline, if_pos hline, List.nil_append, hstep]
        exact split_targets_eq buffer [] device h
      · rw [terminated_newline, if_neg hline]
        by_cases hmax : device.length = MAX_DUMP_VOLUMES
        · rw [if_neg (by simp [hmax]), split_targets, if_neg (fun h => h rfl),
            if_pos (List.length_pos_of_ne_nil hline),
            if_pos hmax]
          exact ⟨_, rfl⟩
        · have ih := split_targets_eq buffer [] (device ++ [str line]) (by
            rw [List.length_append, List.length_singleton]
            omega)
          have hstep : split_targets device_list (0x0a :: buffer) line device =
              split_targets device_list buffer [] (device ++ [str line]) := by
            rw [split_targets, if_neg (fun h => h rfl), if_pos (List.length_pos_of_ne_nil hline), if_neg hmax]
          rw [hstep]
          simpa [Nat.add_assoc, Nat.add_comm] using ih
    · have hstep : split_targets device_list (c :: buffer) line device =
        split_targets device_list buffer (line ++ [c]) device := by
        rw [split_targets, if_pos hc]
      rw [terminated_cons hc, hstep]
      exact split_targets_eq buffer (line ++ [c]) device h

theorem check_targets_ok {writable : List UInt8 → Bool} : ∀ {before device : List (List UInt8)},
    (∀ d ∈ device, writable d = true) →
    (check_targets device_list writable before device = .ok () ↔ (∀ d ∈ device, d ∉ before) ∧ device.Nodup)
  | before, [], _ => by simp [check_targets]
  | before, d :: device, h => by
    have ih := @check_targets_ok writable (before ++ [d]) device fun x hx => h x (List.mem_cons_of_mem d hx)
    rw [check_targets, if_neg (by simp [h d List.mem_cons_self]), List.nodup_cons]
    by_cases hd : d ∈ before
    · rw [if_pos (List.contains_iff_mem.mpr hd)]
      constructor
      · intro h
        cases h
      · exact fun h => absurd hd (h.1 d List.mem_cons_self)
    · rw [if_neg fun hc => hd (List.contains_iff_mem.mp hc), ih]
      constructor
      · intro h
        obtain ⟨hbefore, hnodup⟩ := h
        refine ⟨fun x hx => ?_, fun hmem => hbefore d hmem (by simp), hnodup⟩
        rcases List.mem_cons.mp hx with rfl | hx
        · exact hd
        · exact fun hmem => hbefore x hx (List.mem_append_left _ hmem)
      · rintro ⟨hbefore, hnot, hnodup⟩
        refine ⟨fun x hx hmem => ?_, hnodup⟩
        rcases List.mem_append.mp hmem with hmem | hmem
        · exact hbefore x (List.mem_cons_of_mem d hx) hmem
        · rw [List.mem_singleton.mp hmem] at hx
          exact hnot hx

end

/-! ## What a job gets -/

section
variable (device_list : List UInt8) (writable : List UInt8 → Bool)

structure ReadsTargets (buffer : List UInt8) : Prop where
  accepted : (∃ device, check_job_mvdump_data device_list writable buffer = .ok device) ↔
    1 ≤ (targets buffer).length ∧ (targets buffer).length ≤ MAX_DUMP_VOLUMES ∧ (targets buffer).Nodup
  devices : ∀ device, check_job_mvdump_data device_list writable buffer = .ok device → device = targets buffer

/-- Nothing depends on a last line without newline, and a list of blank lines is empty. -/
def Complete (buffer : List UInt8) : Prop :=
  buffer = [] ∨
  (remainder buffer = [] ∧ terminated [] buffer ≠ []) ∨
  (remainder buffer ≠ [] ∧ (MAX_DUMP_VOLUMES < (terminated [] buffer).length ∨ ¬(terminated [] buffer).Nodup))

end

section
variable {device_list : List UInt8} {writable : List UInt8 → Bool} {buffer : List UInt8}

theorem mem_of_splitOn {b : UInt8} : ∀ {s l : List UInt8} {c : UInt8}, l ∈ s.splitOn b → c ∈ l → c ∈ s
  | [], l, c, hl, hc => by
    rw [List.splitOn_nil, List.mem_singleton] at hl
    exact hl ▸ hc
  | x :: s, l, c, hl, hc => by
    rw [List.splitOn_cons_eq_if_modifyHead] at hl
    obtain ⟨l', ls, hs⟩ := List.exists_cons_of_ne_nil (List.splitOn_ne_nil b s)
    split at hl
    · rcases List.mem_cons.mp hl with rfl | hl
      · cases hc
      · exact List.mem_cons_of_mem x (mem_of_splitOn hl hc)
    · rw [hs, List.modifyHead_cons] at hl
      rcases List.mem_cons.mp hl with rfl | hl
      · rcases List.mem_cons.mp hc with rfl | hc
        · exact List.mem_cons_self
        · exact List.mem_cons_of_mem x (mem_of_splitOn (hs ▸ List.mem_cons_self) hc)
      · exact List.mem_cons_of_mem x (mem_of_splitOn (hs ▸ List.mem_cons_of_mem l' hl) hc)

theorem check_job_mvdump_data_eq (htext : ∀ c ∈ buffer, c ≠ 0) (hwritable : ∀ d ∈ targets buffer, writable d = true)
    (device : List (List UInt8)) :
    check_job_mvdump_data device_list writable buffer = .ok device ↔
      buffer ≠ [] ∧ (terminated [] buffer).length ≤ MAX_DUMP_VOLUMES ∧ (terminated [] buffer).Nodup ∧
        device = terminated [] buffer := by
  have hsub : ∀ d ∈ terminated [] buffer, d ∈ targets buffer := fun d hd => by
    rw [targets_eq]
    exact List.mem_append_left _ hd
  have hstr : (terminated [] buffer).map str = terminated [] buffer :=
    (List.map_congr_left fun d hd => str_eq_self fun c hc =>
      htext c (mem_of_splitOn (List.mem_filter.mp (hsub d hd)).1 hc)).trans (List.map_id _)
  have hsplit := split_targets_eq device_list buffer [] [] (Nat.zero_le _)
  rw [List.length_nil, Nat.zero_add, List.nil_append, hstr] at hsplit
  have hcheck := @check_targets_ok device_list writable [] (terminated [] buffer) fun d hd =>
    hwritable d (hsub d hd)
  rw [check_job_mvdump_data]
  by_cases hnil : buffer = []
  · subst hnil
    constructor
    · intro h
      cases h
    · exact fun h => absurd rfl h.1
  have hlen : ¬buffer.length = 0 := fun h => hnil (List.length_eq_zero_iff.mp h)
  simp only [if_neg hlen, bind, Except.bind, pure, Except.pure]
  by_cases hmax : (terminated [] buffer).length ≤ MAX_DUMP_VOLUMES
  · rw [if_pos hmax] at hsplit
    rw [hsplit]
    simp only
    cases hok : check_targets device_list writable [] (terminated [] buffer) with
    | error text =>
      rw [hok] at hcheck
      constructor
      · intro h
        cases h
      · rintro ⟨-, -, hnodup, -⟩
        have hne := hcheck.mpr ⟨fun d _ => List.not_mem_nil, hnodup⟩
        cases hne
    | ok u =>
      have hnodup := (hcheck.mp hok).2
      constructor
      · intro h
        cases h
        exact ⟨hnil, hmax, hnodup, rfl⟩
      · rintro ⟨-, -, -, rfl⟩
        rfl
  · rw [if_neg hmax] at hsplit
    obtain ⟨text, htext⟩ := hsplit
    rw [htext]
    constructor
    · intro h
      cases h
    · rintro ⟨-, hle, -⟩
      exact absurd hle hmax

/-- The list is read completely, unless it ends within a line or has blank lines only. -/
theorem reads_targets_iff (htext : ∀ c ∈ buffer, c ≠ 0) (hwritable : ∀ d ∈ targets buffer, writable d = true) :
    ReadsTargets device_list writable buffer ↔ Complete buffer := by
  have heq := @check_job_mvdump_data_eq device_list writable buffer htext hwritable
  have htargets := targets_eq buffer
  by_cases hnil : buffer = []
  · subst hnil
    refine ⟨fun _ => .inl rfl, fun _ => ⟨?_, fun device h => absurd rfl ((heq device).mp h).1⟩⟩
    constructor
    · rintro ⟨device, h⟩
      exact absurd rfl ((heq device).mp h).1
    · rintro ⟨h, -⟩
      exact absurd h (by decide)
  by_cases hrest : remainder buffer = []
  · rw [if_pos hrest, List.append_nil] at htargets
    constructor
    · intro h
      refine .inr (.inl ⟨hrest, fun hnone => ?_⟩)
      have haccepted := h.accepted.mp ⟨_, (heq []).mpr ⟨hnil, by simp [hnone], by simp [hnone], hnone.symm⟩⟩
      rw [htargets, hnone] at haccepted
      exact absurd haccepted.1 (by decide)
    · intro h
      have hne : terminated [] buffer ≠ [] := by
        rcases h with h | ⟨-, h⟩ | ⟨h, -⟩
        · exact absurd h hnil
        · exact h
        · exact absurd hrest h
      refine ⟨?_, fun device h => by rw [htargets]; exact ((heq device).mp h).2.2.2⟩
      rw [htargets]
      constructor
      · rintro ⟨device, h⟩
        obtain ⟨-, hmax, hnodup, -⟩ := (heq device).mp h
        exact ⟨List.length_pos_of_ne_nil hne, hmax, hnodup⟩
      · rintro ⟨-, hmax, hnodup⟩
        exact ⟨_, (heq _).mpr ⟨hnil, hmax, hnodup, rfl⟩⟩
  · rw [if_neg hrest] at htargets
    have hlen : (targets buffer).length = (terminated [] buffer).length + 1 := by
      rw [htargets, List.length_append, List.length_singleton]
    constructor
    · intro h
      refine .inr (.inr ⟨hrest, ?_⟩)
      by_contra hnone
      rw [not_or, not_not, Nat.not_lt] at hnone
      have hok := (heq (terminated [] buffer)).mpr ⟨hnil, hnone.1, hnone.2, rfl⟩
      have hsame := h.devices _ hok
      rw [← hsame] at hlen
      omega
    · intro h
      have hbad : MAX_DUMP_VOLUMES < (terminated [] buffer).length ∨ ¬(terminated [] buffer).Nodup := by
        rcases h with h | ⟨h, -⟩ | ⟨-, h⟩
        · exact absurd h hnil
        · exact absurd h hrest
        · exact h
      have hfails : ∀ device, check_job_mvdump_data device_list writable buffer ≠ .ok device := fun device h => by
        obtain ⟨-, hmax, hnodup, -⟩ := (heq device).mp h
        exact hbad.elim (fun h => absurd hmax (Nat.not_le_of_lt h)) (fun h => h hnodup)
      refine ⟨⟨fun ⟨device, h⟩ => absurd h (hfails device), ?_⟩, fun device h => absurd h (hfails device)⟩
      rintro ⟨-, hmax, hnodup⟩
      rw [htargets] at hnodup
      rcases hbad with h | h
      · omega
      · exact absurd hnodup.of_append_left h

/-- A list of two devices. -/
theorem reads_two_targets : ReadsTargets [] (fun _ => true) (bytes "/dev/dasda1\n/dev/dasdb1\n") ∧
    targets (bytes "/dev/dasda1\n/dev/dasdb1\n") = [bytes "/dev/dasda1", bytes "/dev/dasdb1"] :=
  ⟨(reads_targets_iff (by decide +kernel) (by decide +kernel)).mpr (.inr (.inl ⟨by decide +kernel,
    by decide +kernel⟩)), by decide +kernel⟩

/-- The last volume is dropped when the list does not end with a newline. -/
theorem last_target_dropped : ¬ReadsTargets [] (fun _ => true) (bytes "/dev/dasda1\n/dev/dasdb1") := by
  intro h
  have hok := (@check_job_mvdump_data_eq [] (fun _ => true) (bytes "/dev/dasda1\n/dev/dasdb1") (by decide +kernel)
    (fun _ _ => rfl) [bytes "/dev/dasda1"]).mpr ⟨by decide, by decide, by decide, by decide⟩
  exact absurd (h.devices _ hok) (by decide)

end

end Zipl.Job
