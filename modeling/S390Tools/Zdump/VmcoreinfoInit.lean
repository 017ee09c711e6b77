import S390Tools.Zdump.InitSafe
import S390Tools.Zdump.Vmcoreinfo

/-!
# The buffers of vmcoreinfo

`dfi_vmcoreinfo_init` once more, with the sizes of the arrays that it reads into.
A copy writes the bytes up to the first address that is not mapped, so that it
leaves an array of `size` bytes when the first `size + 1` bytes can be read.
-/

namespace Zdump.Memory

open Word

inductive InitStop
  | fault (f : Fault)
  | outside

def read_or_stop {α : Type} : Except Fault α → Except InitStop α
  | .ok a => .ok a
  | .error f => .error (.fault f)

def dfi_mem_read_rc_into (size addr cnt : Nat) (s : State) : Except InitStop (Option (List UInt8) × State) := do
  let (valid, s) ← read_or_stop (dfi_mem_range_valid addr cnt s)
  if !valid then return (none, s)
  if cnt ≤ size then
    let (b, s) ← read_or_stop (dfi_mem_read addr cnt s)
    return (some b, s)
  else
    let _ ← read_or_stop (dfi_mem_read addr (size + 1) s)
    .error .outside

/-- `zg_alloc` takes an `unsigned int`; behind the text stands a NUL. -/
def vmcoreinfo_text (addr size : Nat) (s : State) : Except InitStop (Option (List UInt8) × State) := do
  let allocated := u32 ((size + 1 : Nat) : Int)
  let (text, s) ← dfi_mem_read_rc_into allocated addr size s
  match text with
  | none => return (none, s)
  | some text => if size < allocated then return (some text, s) else .error .outside

def vmcoreinfo_note_into (s : State) : Except InitStop (Option (List UInt8) × State) := do
  let (b, s) ← read_or_stop (dfi_mem_read LC_VMCORE_INFO 8 s)
  let addr := word b
  if addr = 0 then return (none, s)
  let (note, s) ← dfi_mem_read_rc_into 12 addr 12 s
  match note with
  | none => return (none, s)
  | some note =>
    let (str, s) ← dfi_mem_read_rc_into 128 (u64 (addr + 12 : Nat)) (field note 0 4) s
    match str with
    | none => return (none, s)
    | some str =>
      if is_vmcoreinfo str then vmcoreinfo_text (u64 (addr + 24 : Nat)) (field note 4 4) s
      else return (none, s)

def dfi_vmcoreinfo_init_into ( zg_csum_partial : List UInt8 → Nat) (s : State) :
    Except InitStop (Option (List UInt8) × State) := do
  let (os_info, s) ← read_or_stop (os_info_get zg_csum_partial s)
  match os_info.bind vmcoreinfo_range with
  | some (addr, size) => vmcoreinfo_text addr size s
  | none => vmcoreinfo_note_into s

/-! ## What fits -/

section
variable (s : State)

/-- `P` is about what comes behind the copy. -/
def CopyFits (size addr cnt : Nat) (P : Prop) : Prop :=
  Passes s addr cnt → if cnt ≤ size then Wrapped s addr cnt → P else ¬ Wrapped s addr (size + 1)

def TextFits (addr size : Nat) : Prop := CopyFits s (u32 ((size + 1 : Nat) : Int)) addr size True

/-- The name of the note at `addr` fits into 128 bytes, and the text behind it into what is allocated. -/
def NoteFits (addr : Nat) : Prop :=
  CopyFits s 12 addr 12 (CopyFits s 128 (u64 (addr + 12 : Nat)) (field (bytes s addr 12) 0 4)
    (is_vmcoreinfo (bytes s (u64 (addr + 12 : Nat)) (field (bytes s addr 12) 0 4)) = true →
      TextFits s (u64 (addr + 24 : Nat)) (field (bytes s addr 12) 4 4)))

def InitFits ( zg_csum_partial : List UInt8 → Nat) : Prop :=
  OsInfoSafe s →
    (∀ b, OsInfo s zg_csum_partial b → ∀ r, vmcoreinfo_range b = some r → TextFits s r.1 r.2) ∧
    ((∀ b, OsInfo s zg_csum_partial b → vmcoreinfo_range b = none) → Wrapped s LC_VMCORE_INFO 8 →
      word_at s LC_VMCORE_INFO ≠ 0 → NoteFits s (word_at s LC_VMCORE_INFO))

end

/-! ## Copies that stay inside -/

def Inside {α : Type} (x : Except InitStop α) : Prop := x ≠ .error .outside

theorem inside_ok {α : Type} (x : α) : Inside (Except.ok x) := fun h => by cases h

theorem inside_fault {α : Type} (f : Fault) :
    Inside (Except.error (.fault f) : Except InitStop α) := fun h => by cases h

section
variable {s s' : State} {α : Type} {size addr cnt : Nat} {P : Prop}

theorem Touched.copyFits (ht : Touched s s') : CopyFits s' size addr cnt P ↔ CopyFits s size addr cnt P := by
  unfold CopyFits
  rw [ht.passes, ht.wrapped, ht.wrapped]

theorem Touched.textFits (ht : Touched s s') : TextFits s' addr size ↔ TextFits s addr size := ht.copyFits

theorem Touched.noteFits (ht : Touched s s') : NoteFits s' addr ↔ NoteFits s addr := by
  unfold NoteFits
  simp only [ht.copyFits, ht.textFits, ht.bytes]

variable (h : Inv s)
include h

theorem inside_read (ha : addr ≤ U64_MAX) {f : List UInt8 × State → Except InitStop α}
    (hf : ∀ s', Touched s s' → (Inside (f (bytes s addr cnt, s')) ↔ P)) :
    Inside ((read_or_stop (dfi_mem_read addr cnt s)).bind f) ↔ (Wrapped s addr cnt → P) := by
  by_cases hw : Wrapped s addr cnt
  · obtain ⟨s', heq, ht⟩ := mem_read_wrapped h ha hw
    rw [heq]
    exact (hf s' ht).trans ⟨fun hp _ => hp, fun hp => hp hw⟩
  · rw [mem_read_unmapped h ha hw]
    exact iff_of_true (inside_fault _) fun hn => absurd hn hw

theorem into_passes (hl : cnt ≤ U64_MAX) (hp : Passes s addr cnt) : ∃ s₁, Touched s s₁ ∧
    dfi_mem_read_rc_into size addr cnt s =
      if cnt ≤ size then (read_or_stop (dfi_mem_read addr cnt s₁)).bind fun r => .ok (some r.1, r.2)
      else (read_or_stop (dfi_mem_read addr (size + 1) s₁)).bind fun _ => .error .outside := by
  obtain ⟨s₁, heq, ht⟩ := passes_eq h hl hp
  refine ⟨s₁, ht, ?_⟩
  unfold dfi_mem_read_rc_into
  rw [heq]
  rfl

theorem into_fails (hl : cnt ≤ U64_MAX) (hp : ¬ Passes s addr cnt) :
    dfi_mem_read_rc_into size addr cnt s = .error (.fault .endless) ∨
      ∃ s', dfi_mem_read_rc_into size addr cnt s = .ok (none, s') := by
  unfold dfi_mem_read_rc_into dfi_mem_range_valid
  rcases loop_outcome cnt (u64 ((addr + cnt : Nat) : Int)) (2 * U64_MAX + 2) addr s h with hend | ⟨b, s₁, heq, -⟩
  · rw [hend]
    exact Or.inl rfl
  · rw [heq]
    cases b with
    | false => exact Or.inr ⟨s₁, rfl⟩
    | true => exact absurd heq (not_passes h hl hp s₁)

theorem inside_into (hl : cnt ≤ U64_MAX) {f : Option (List UInt8) × State → Except InitStop α}
    (hnone : ∀ s', Inside (f (none, s'))) (hf : ∀ s', Touched s s' →
      (Inside (f (some (bytes s addr cnt), s')) ↔ P)) :
    Inside ((dfi_mem_read_rc_into size addr cnt s).bind f) ↔ CopyFits s size addr cnt P := by
  unfold CopyFits
  by_cases hp : Passes s addr cnt
  · obtain ⟨s₁, ht₁, heq⟩ := @into_passes s size addr cnt h hl hp
    have ha : addr ≤ U64_MAX := hp.1.le h
    rw [heq]
    by_cases hfit : cnt ≤ size
    · rw [if_pos hfit, if_pos hfit]
      by_cases hw : Wrapped s addr cnt
      · obtain ⟨s₂, heq₂, ht₂⟩ := mem_read_wrapped ht₁.inv ha (ht₁.wrapped.mpr hw)
        rw [heq₂, ht₁.bytes]
        exact (hf s₂ (ht₁.trans ht₂)).trans ⟨fun hP _ _ => hP, fun hP => hP hp hw⟩
      · rw [mem_read_unmapped ht₁.inv ha fun hn => hw (ht₁.wrapped.mp hn)]
        exact iff_of_true (inside_fault _) fun _ hn => absurd hn hw
    · rw [if_neg hfit, if_neg hfit]
      by_cases hw : Wrapped s addr (size + 1)
      · obtain ⟨s₂, heq₂, -⟩ := mem_read_wrapped ht₁.inv ha (ht₁.wrapped.mpr hw)
        rw [heq₂]
        exact iff_of_false (fun hn => hn rfl) fun hn => hn hp hw
      · rw [mem_read_unmapped ht₁.inv ha fun hn => hw (ht₁.wrapped.mp hn)]
        exact iff_of_true (inside_fault _) fun _ => hw
  · refine iff_of_true ?_ fun hn => absurd hn hp
    rcases @into_fails s size addr cnt h hl hp with hend | ⟨s', heq⟩
    · rw [hend]
      exact inside_fault _
    · rw [heq]
      exact hnone s'

/-! ## The functions -/

theorem text_inside_iff (hl : cnt ≤ U64_MAX) : Inside (vmcoreinfo_text addr cnt s) ↔ TextFits s addr cnt := by
  unfold vmcoreinfo_text TextFits
  have hroom : cnt ≤ u32 ((cnt + 1 : Nat) : Int) → cnt < u32 ((cnt + 1 : Nat) : Int) := by
    unfold u32
    omega
  by_cases hlt : cnt < u32 ((cnt + 1 : Nat) : Int)
  · refine inside_into h hl (fun _ => inside_ok _) fun s' _ => iff_of_true ?_ trivial
    show Inside (if cnt < u32 ((cnt + 1 : Nat) : Int) then _ else _)
    rw [if_pos hlt]
    exact inside_ok _
  · refine Iff.trans (b := CopyFits s (u32 ((cnt + 1 : Nat) : Int)) addr cnt False) ?_ ?_
    · refine inside_into h hl (fun _ => inside_ok _) fun s' _ => iff_of_false ?_ id
      show ¬ Inside (if cnt < u32 ((cnt + 1 : Nat) : Int) then _ else _)
      rw [if_neg hlt]
      exact fun hn => hn rfl
    · unfold CopyFits
      rw [if_neg fun hle => hlt (hroom hle), if_neg fun hle => hlt (hroom hle)]

theorem note_inside_iff : Inside (vmcoreinfo_note_into s) ↔
    (Wrapped s LC_VMCORE_INFO 8 → word_at s LC_VMCORE_INFO ≠ 0 → NoteFits s (word_at s LC_VMCORE_INFO)) := by
  unfold vmcoreinfo_note_into
  refine inside_read h (by decide) fun s₁ ht₁ => ?_
  change Inside (if word_at s LC_VMCORE_INFO = 0 then _ else _) ↔ _
  by_cases h0 : word_at s LC_VMCORE_INFO = 0
  · rw [if_pos h0]
    exact iff_of_true (inside_ok _) fun hn => absurd h0 hn
  · rw [if_neg h0]
    refine Iff.trans ?_ ⟨fun hn _ => hn, fun hn => hn h0⟩
    rw [← ht₁.noteFits]
    refine inside_into ht₁.inv (by decide) (fun s' => inside_ok _) fun s₂ ht₂ => ?_
    rw [← ht₂.copyFits]
    refine inside_into ht₂.inv (field_le _ _ (by decide)) (fun s' => inside_ok _) fun s₃ ht₃ => ?_
    have ht := ht₂.trans ht₃
    rw [ht₂.bytes, ← ht.textFits]
    by_cases hname : is_vmcoreinfo (bytes s₁ (u64 (word_at s LC_VMCORE_INFO + 12 : Nat))
        (field (bytes s₁ (word_at s LC_VMCORE_INFO) 12) 0 4)) = true
    · change Inside (if is_vmcoreinfo (bytes s₁ (u64 (word_at s LC_VMCORE_INFO + 12 : Nat))
        (field (bytes s₁ (word_at s LC_VMCORE_INFO) 12) 0 4)) = true then _ else _) ↔ _
      rw [if_pos hname]
      exact (text_inside_iff ht.inv (@field_le _ _ 4 (by decide))).trans ⟨fun hn _ => hn, fun hn => hn hname⟩
    · change Inside (if is_vmcoreinfo (bytes s₁ (u64 (word_at s LC_VMCORE_INFO + 12 : Nat))
        (field (bytes s₁ (word_at s LC_VMCORE_INFO) 12) 0 4)) = true then _ else _) ↔ _
      rw [if_neg hname]
      exact iff_of_true (inside_ok _) fun hn => absurd hn hname

theorem init_inside_iff ( zg_csum_partial : List UInt8 → Nat) :
    Inside (dfi_vmcoreinfo_init_into zg_csum_partial s) ↔ InitFits s zg_csum_partial := by
  unfold dfi_vmcoreinfo_init_into InitFits
  by_cases hsafe : OsInfoSafe s
  · obtain ⟨o, s₁, heq, ht, ho⟩ := os_info_get_safe h zg_csum_partial hsafe
    rw [heq]
    simp only [read_or_stop, bind, Except.bind]
    obtain hnone | ⟨r, hr⟩ := Option.eq_none_or_eq_some (o.bind vmcoreinfo_range)
    · rw [hnone]
      refine (note_inside_iff ht.inv).trans ?_
      have hno : ∀ b, OsInfo s zg_csum_partial b → vmcoreinfo_range b = none := by
        intro b hb
        rw [(ho b).mpr hb] at hnone
        exact hnone
      simp only [ht.wrapped, ht.word_at, ht.noteFits]
      refine ⟨fun hn _ => ⟨fun b hb r hr => ?_, fun _ => hn⟩, fun hn => (hn hsafe).2 hno⟩
      rw [hno b hb] at hr
      cases hr
    · rw [hr]
      obtain ⟨b, hb, hbr⟩ := Option.bind_eq_some_iff.mp hr
      have hinfo := (ho b).mp hb
      refine (text_inside_iff ht.inv (range_size_le hbr)).trans (ht.textFits.trans ?_)
      refine ⟨fun hn _ => ⟨fun b' hb' r' hr' => ?_, fun hno => ?_⟩, fun hn => (hn hsafe).1 b hinfo r hbr⟩
      · have hsame := (ho b').mpr hb'
        rw [hb, Option.some.injEq] at hsame
        rw [← hsame, hbr, Option.some.injEq] at hr'
        rw [← hr']
        exact hn
      · rw [hno b hinfo] at hbr
        cases hbr
  · rw [os_info_get_fails h zg_csum_partial hsafe]
    exact iff_of_true (inside_fault _) fun hn => absurd hn hsafe

end

/-! ## The lookups and the buffers -/

open Vmcoreinfo

/-- Each lookup finds the first line with exactly its key and nothing is written outside of an array, exactly
if the first occurrence of every key starts its line, the values fit into the arrays, and so do the name of
the note and the text. -/
theorem vmcoreinfo_exact_iff {closed : Bool} {lines : List Line} {len : Nat} {sym : List UInt8}
    (hsym : sym.length ≤ 64)
    ( zg_csum_partial : List UInt8 → Nat) {s : State} (h : Inv s) :
    LookupsExact closed lines len sym ∧ Inside (dfi_vmcoreinfo_init_into zg_csum_partial s) ↔
      LookupsFit closed lines len sym ∧ InitFits s zg_csum_partial :=
  and_congr (lookups_iff hsym) (init_inside_iff h zg_csum_partial)

def CRASHTIME : List UInt8 := [0x43, 0x52, 0x41, 0x53, 0x48, 0x54, 0x49, 0x4d, 0x45]

def crashtime_line : Line where
  key := CRASHTIME
  value := [0x32]
  key_chars := List.all_iff_forall_prop.mp (by decide)
  value_chars := List.all_iff_forall_prop.mp (by decide)

def last_line : Line where
  key := [0x4c, 0x41, 0x53, 0x54, 0x5f] ++ CRASHTIME
  value := [0x31]
  key_chars := List.all_iff_forall_prop.mp (by decide)
  value_chars := List.all_iff_forall_prop.mp (by decide)

def size_line : Line where
  key := SIZE ++ 0x28 :: CRASHTIME ++ [0x29]
  value := [0x38]
  key_chars := List.all_iff_forall_prop.mp (by decide)
  value_chars := List.all_iff_forall_prop.mp (by decide)

theorem crashtime_fits : LookupsFit true [size_line, crashtime_line, last_line] 16 CRASHTIME where
  symbol := .inl (by decide)
  offset := .inl (by decide)
  size := .inr ⟨[], size_line, _, rfl, by decide, rfl, by decide, by decide⟩
  length := .inl (by decide)
  val := .inr ⟨[size_line], crashtime_line, _, rfl, by decide, rfl, by decide, by decide⟩
  tag := .inr ⟨[size_line], crashtime_line, _, rfl, by decide, rfl, by decide, by decide⟩

theorem one_mib_fits : InitFits (add_chunks one_mib) (cksm 0) := by
  have hinfo : OsInfo (add_chunks one_mib) (cksm 0)
    (bytes (add_chunks one_mib) (word_at (add_chunks one_mib) LC_OS_INFO) 4096) := by
    rw [one_mib_word]
    refine ⟨by decide, ?_, ?_, ?_⟩
    · rw [one_mib_word]
      exact one_mib_passes (by decide) (by decide)
    · rw [one_mib_word]
    · rw [one_mib_block]
      exact block_checked 1012
  refine fun _ => ⟨fun b hb r hr _ => ?_, fun hno => ?_⟩
  · rw [hb.2.2.1, one_mib_range, Option.some.injEq] at hr
    rw [← hr, if_pos (by decide)]
    exact fun _ => trivial
  · have hnone := hno _ hinfo
    rw [one_mib_range] at hnone
    cases hnone

theorem vmcoreinfo_exact_three : LookupsExact true [size_line, crashtime_line, last_line] 16 CRASHTIME ∧
    Inside (dfi_vmcoreinfo_init_into (cksm 0) (add_chunks one_mib)) :=
  (vmcoreinfo_exact_iff (by decide) (cksm 0) one_mib_inv).mpr ⟨crashtime_fits, one_mib_fits⟩

/-- The key is found at the end of another one, on a line in front of its own. -/
theorem suffix_found : ¬ ∀ (closed : Bool) (lines : List Line) (len : Nat) (sym : List UInt8) (s : State),
    sym.length ≤ 64 → Inv s →
    LookupsExact closed lines len sym ∧ Inside (dfi_vmcoreinfo_init_into (fun _ => 0) s) := by
  intro h
  have hval := congrArg Except.toOption (h true [last_line,
    crashtime_line] 16 CRASHTIME _ (by decide) one_mib_inv).1.val
  revert hval
  decide

end Zdump.Memory
