import S390Tools.Lib.Run
import S390Tools.Zipl.Kdump3

/-!
# The restored memory (zipl/boot/kdump3.c)

Each copy is followed through the memory. The memory of the crashed system is
preserved exactly if the sizes fit.
-/

namespace Zipl.Kdump

open Word

/-! ## Numbers in memory -/

theorem word_congr {m m' : Mem} {a a' : Nat} : ∀ {n : Nat}, (∀ i < n, m (a + i) = m' (a' + i)) →
    word m a n = word m' a' n
  | 0, _ => rfl
  | n + 1, h => by
    rw [word, word, word_congr fun i hi => h i (Nat.lt_succ_of_lt hi), h n (Nat.lt_succ_self n)]

theorem ok_bind {ε α β : Type} (a : α) (f : α → Except ε β) : (Except.ok a >>= f) = f a := rfl

section
variable {stage3 : Stage3} {machine : Machine}

theorem os_info_check_congr {m m' : Mem} {a : Nat} (h : ∀ i < PAGE_SIZE, m (a + i) = m' (a + i)) :
    os_info_check stage3 machine m a = os_info_check stage3 machine m' a := by
  have hword : ∀ k n, k + n ≤ PAGE_SIZE → word m (a + k) n = word m' (a + k) n := fun k n hk =>
    word_congr fun i hi => by
      rw [Nat.add_assoc]
      exact h (k + i) (by omega)
  have hbytes : ((List.range OS_INF0_CSUM_SIZE).map fun i => m (a + 12 + i)) =
      (List.range OS_INF0_CSUM_SIZE).map fun i => m' (a + 12 + i) := by
    refine List.map_congr_left fun i hi => ?_
    have hi : i < 4084 := List.mem_range.mp hi
    rw [Nat.add_assoc]
    exact h (12 + i) (show 12 + i < 4096 by omega)
  unfold os_info_check
  rw [hbytes, show word m a 8 = word m' a 8 from hword 0 8 (by decide), hword 8 4 (by decide),
    hword 12 2 (by decide),
    hword 16 8 (by decide)]

/-! ## One copy -/

def Clear (stage3 : Stage3) (dst n : Nat) : Prop := stage3.program_end ≤ dst ∨ dst + n ≤ hsa_page + PAGE_SIZE

theorem overlaps_eq_false {dst n : Nat} (h : Clear stage3 dst n) : stage3.overlaps dst n = false := by
  unfold Stage3.overlaps
  rcases h with h | h
  · rw [decide_eq_false (Nat.not_lt_of_le h), Bool.false_and]
  · rw [decide_eq_false (Nat.not_lt_of_le h), Bool.and_false]

theorem copy_from_hsa_eq (s : State) {dst src n : Nat} (hn : n < 2 ^ 31) (hpages : PAGE_SIZE ∣ n) (hpos : 0 < n)
    (hsrc : src < 2 ^ 32) (hclear : Clear stage3 dst n) :
    copy_from_hsa stage3 machine s dst src n =
      .ok (copied stage3 machine s dst (src / PAGE_SIZE * PAGE_SIZE) n n) := by
  obtain ⟨k, rfl⟩ := hpages
  have hpage : PAGE_SIZE = 4096 := rfl
  have hk : 4096 * k < 2 ^ 31 := hn
  have hfirst : u32 (2 + src / PAGE_SIZE : Nat) = 2 + src / PAGE_SIZE := by
    rw [u32_of_lt (Int.natCast_nonneg _) (by rw [hpage]; omega), Int.toNat_natCast]
  have hblocks : u32 (((PAGE_SIZE * k : Nat) : Int).tdiv PAGE_SIZE) = k := by
    rw [hpage, Int.natCast_mul, Int.mul_tdiv_cancel_left _ (by decide), u32_of_lt (Int.natCast_nonneg _) (by omega),
      Int.toNat_natCast]
  unfold copy_from_hsa sclp_hsa_copy
  rw [if_neg (by omega), hfirst, hblocks, Nat.mul_comm k, overlaps_eq_false hclear, Nat.add_sub_cancel_left]
  rfl

section
variable {s : State} {dst src n : Nat} {cnt : Int} {a : Nat}

theorem copied_in (ha : ¬ stage3.Owned a) (h₁ : dst ≤ a) (h₂ : a < dst + n) :
    (copied stage3 machine s dst src n cnt).mem a = machine.hsa (src + (a - dst)) := by
  show (if stage3.Owned a then _ else _) = _
  rw [if_neg ha, if_pos ⟨h₁, h₂⟩]

theorem copied_out (ha : ¬ stage3.Owned a) (h : ¬ (dst ≤ a ∧ a < dst + n)) :
    (copied stage3 machine s dst src n cnt).mem a = s.mem a := by
  show (if stage3.Owned a then _ else _) = _
  rw [if_neg ha, if_neg h]

end

/-! ## The first part -/

theorem not_owned_page {i : Nat} (hi : i < PAGE_SIZE) : ¬ stage3.Owned (hsa_page + i) := by
  unfold Stage3.Owned
  omega

theorem clear_page : Clear stage3 hsa_page PAGE_SIZE := Or.inr (Nat.le_refl _)

structure Found (stage3 : Stage3) (machine : Machine) (hsa_size : Nat) (mem : Mem) (s : State)
    (os_info : Nat) : Prop where
  other : ∀ a, a < hsa_page ∨ stage3.program_end ≤ a → s.mem a = mem a
  owned : ∀ a, stage3.Owned a → ∃ k, s.mem a = machine.own k a
  requests : ∀ r ∈ s.requests, r.dst = hsa_page ∧ r.cnt = PAGE_SIZE ∧ (r.src = 0 ∨ r.src + PAGE_SIZE ≤ hsa_size)
  page : ∀ i < PAGE_SIZE, s.mem (os_info + i) = (os_info_at machine hsa_size mem).2 (os_info + i)

theorem find_os_info_eq {hsa_size : Nat} (hpages : PAGE_SIZE ∣ hsa_size) (hlt : hsa_size < 2 ^ 32) (mem : Mem)
    (hread : word machine.hsa LC_OS_INFO 8 < hsa_size ∨ word machine.hsa LC_OS_INFO 8 + PAGE_SIZE ≤ hsa_page ∨
      stage3.program_end ≤ word machine.hsa LC_OS_INFO 8) :
    ∃ s, find_os_info stage3 machine hsa_size mem = .ok (s, (os_info_at machine hsa_size mem).1) ∧
      Found stage3 machine hsa_size mem s (os_info_at machine hsa_size mem).1 := by
  have hpage : PAGE_SIZE = 4096 := rfl
  have hwork : hsa_page = 0x7000 := rfl
  let s₀ : State := { mem := fun a => if hsa_page ≤ a ∧ a < hsa_page + PAGE_SIZE then 0 else mem a, requests := [] }
  let s₁ := copied stage3 machine s₀ hsa_page 0 PAGE_SIZE PAGE_SIZE
  let s₂ := copied stage3 machine s₁ hsa_page 0 PAGE_SIZE PAGE_SIZE
  have h₁ : sclp_hsa_copy stage3 machine s₀ hsa_page 2 1 PAGE_SIZE = .ok s₁ := by
    unfold sclp_hsa_copy
    rw [Nat.one_mul, overlaps_eq_false clear_page]
    rfl
  have h₂ : copy_from_hsa stage3 machine s₁ hsa_page 0 PAGE_SIZE = .ok s₂ :=
    copy_from_hsa_eq s₁ (by decide) (Nat.dvd_refl _) (by decide) (by decide) clear_page
  have haddr : word s₂.mem (hsa_page + LC_OS_INFO) 8 = word machine.hsa LC_OS_INFO 8 := by
    refine word_congr fun i hi => ?_
    have hlc : LC_OS_INFO + i < PAGE_SIZE := by
      have hlc : LC_OS_INFO = 0xe18 := rfl
      omega
    rw [Nat.add_assoc, copied_in (not_owned_page hlc) (Nat.le_add_right _ _)
      (Nat.add_lt_add_left hlc _), Nat.zero_add,
      Nat.add_sub_cancel_left]
  have hother : ∀ a, a < hsa_page ∨ stage3.program_end ≤ a → s₂.mem a = mem a := by
    intro a ha
    have hend := stage3.program_end_ge
    have hown : ¬ stage3.Owned a := by
      unfold Stage3.Owned
      omega
    rw [copied_out hown (by omega), copied_out hown (by omega)]
    exact if_neg (by omega)
  have hreq : ∀ r ∈ s₂.requests, r.dst = hsa_page ∧ r.cnt = PAGE_SIZE ∧ r.src = 0 := by
    intro r hr
    have hr : r ∈ [(⟨hsa_page, 0, PAGE_SIZE⟩ : Request), ⟨hsa_page, 0, PAGE_SIZE⟩] := hr
    rcases List.mem_cons.mp hr with rfl | hr
    · exact ⟨rfl, rfl, rfl⟩
    · rw [List.mem_singleton.mp hr]
      exact ⟨rfl, rfl, rfl⟩
  by_cases hin : word machine.hsa LC_OS_INFO 8 < hsa_size
  · let s₃ := copied stage3 machine s₂ hsa_page
      (word machine.hsa LC_OS_INFO 8 / PAGE_SIZE * PAGE_SIZE) PAGE_SIZE PAGE_SIZE
    have h₃ : copy_from_hsa stage3 machine s₂ hsa_page (word machine.hsa LC_OS_INFO 8) PAGE_SIZE = .ok s₃ :=
      copy_from_hsa_eq s₂ (by decide) (Nat.dvd_refl _) (by decide) (Nat.lt_trans hin hlt) clear_page
    have hat : os_info_at machine hsa_size mem = (hsa_page, fun a =>
        machine.hsa (word machine.hsa LC_OS_INFO 8 / PAGE_SIZE * PAGE_SIZE + (a - hsa_page))) := if_pos hin
    refine ⟨s₃, ?_, fun a ha => ?_, fun a ha => ⟨_, if_pos ha⟩, fun r hr => ?_, fun i hi => ?_⟩
    · rw [hat]
      unfold find_os_info
      simp only [bind, Except.bind]
      rw [show (⟨fun a => if hsa_page ≤ a ∧ a < hsa_page + PAGE_SIZE then 0 else mem a,
        []⟩ : State) = s₀ from rfl, h₁]
      simp only [h₂, haddr, if_pos hin, h₃]
      rfl
    · have hend := stage3.program_end_ge
      rw [copied_out (by unfold Stage3.Owned; omega) (by omega), hother a ha]
    · rcases List.mem_append.mp hr with hr | hr
      · obtain ⟨hdst, hcnt, hsrc⟩ := hreq r hr
        exact ⟨hdst, hcnt, Or.inl hsrc⟩
      · rw [List.mem_singleton.mp hr]
        refine ⟨rfl, rfl, Or.inr ?_⟩
        obtain ⟨k, rfl⟩ := hpages
        have hdiv : word machine.hsa LC_OS_INFO 8 / PAGE_SIZE < k := Nat.div_lt_of_lt_mul hin
        have hle : (word machine.hsa LC_OS_INFO 8 / PAGE_SIZE + 1) * PAGE_SIZE ≤ k * PAGE_SIZE :=
          Nat.mul_le_mul_right _ hdiv
        rw [Nat.add_mul, Nat.one_mul, Nat.mul_comm k] at hle
        exact hle
    · rw [hat]
      exact copied_in (not_owned_page hi) (Nat.le_add_right _ _) (Nat.add_lt_add_left hi _)
  · have hat : os_info_at machine hsa_size mem = (word machine.hsa LC_OS_INFO 8, mem) := if_neg hin
    refine ⟨s₂, ?_, hother, fun a ha => ⟨_, if_pos ha⟩, fun r hr => ?_, fun i hi => ?_⟩
    · rw [hat]
      unfold find_os_info
      simp only [bind, Except.bind]
      rw [show (⟨fun a => if hsa_page ≤ a ∧ a < hsa_page + PAGE_SIZE then 0 else mem a,
        []⟩ : State) = s₀ from rfl, h₁]
      simp only [h₂, haddr, if_neg hin]
      rfl
    · obtain ⟨hdst, hcnt, hsrc⟩ := hreq r hr
      exact ⟨hdst, hcnt, Or.inl hsrc⟩
    · rw [hat]
      exact hother _ (by omega)

/-! ## The second part -/

theorem copy_spec (s : State) {dst src n : Nat} (hn : n < 2 ^ 31) (hpages : PAGE_SIZE ∣ n) (hsrc : src < 2 ^ 32)
    (hblock : PAGE_SIZE ∣ src) (hclear : Clear stage3 dst n) :
    ∃ s', copy_from_hsa stage3 machine s dst src n = .ok s' ∧
      (∀ a, ¬ stage3.Owned a → s'.mem a = if dst ≤ a ∧
        a < dst + n then machine.hsa (src + (a - dst)) else s.mem a) ∧
      ∀ r ∈ s'.requests, r ∈ s.requests ∨ r = ⟨dst, src, n⟩ := by
  rcases Nat.eq_zero_or_pos n with rfl | hpos
  · refine ⟨s, if_pos rfl, fun a _ => ?_, fun r hr => Or.inl hr⟩
    rw [if_neg (by omega)]
  · refine ⟨_, copy_from_hsa_eq s hn hpages hpos hsrc hclear, fun a ha => ?_, fun r hr => ?_⟩
    · rw [Nat.div_mul_cancel hblock]
      exact if_neg ha
    · rw [Nat.div_mul_cancel hblock] at hr
      rcases List.mem_append.mp hr with hr | hr
      · exact Or.inl hr
      · exact Or.inr (List.mem_singleton.mp hr)

section
variable {hsa_size crash_base crash_size : Nat} {orig : Mem} {s : State}

theorem restore_eq_ok {s₃ : State} : restore stage3 machine hsa_size crash_base crash_size s = .ok s₃ ↔ ∃ s₁ s₂,
    copy_from_hsa stage3 machine s crash_base 0 (i32 (min crash_size hsa_size : Nat)) = .ok s₁ ∧
    restore_above stage3 machine hsa_size crash_base crash_size s₁ = .ok s₂ ∧
    restore_behind stage3 machine hsa_size (u64 (crash_base + crash_size : Nat)) s₂ = .ok s₃ := by
  unfold restore
  constructor
  · intro h
    obtain ⟨s₁, h₁, h⟩ := Run.bind_eq_ok h
    obtain ⟨s₂, h₂, h₃⟩ := Run.bind_eq_ok h
    exact ⟨s₁, s₂, h₁, h₂, h₃⟩
  · rintro ⟨s₁, s₂, h₁, h₂, h₃⟩
    rw [h₁, ok_bind, h₂, ok_bind, h₃]

/-- A request that keeps to the HSA and to the memory above the loader. -/
def Allowed (hsa_size crash_size : Nat) (r : Request) : Prop :=
  0 ≤ r.cnt ∧ r.src + r.cnt ≤ hsa_size ∧ (crash_size ≤ r.dst ∨ r.dst = hsa_page ∧ r.cnt = PAGE_SIZE)

variable (hbase : PAGE_SIZE ∣ crash_base) (hsize : PAGE_SIZE ∣ crash_size) (hhsa : PAGE_SIZE ∣ hsa_size)
variable (hpos : 0 < crash_size) (hle : crash_size ≤ crash_base) (hlt : hsa_size < 2 ^ 32)

/-! The arguments of the three steps are what they are meant to be. -/

theorem first_eq (hf : Fits stage3 hsa_size crash_base crash_size) :
    i32 (min crash_size hsa_size : Nat) = (min crash_size hsa_size : Nat) := i32_of_lt hf.first

theorem restore_above_eq (hf : Fits stage3 hsa_size crash_base crash_size) (hshort : crash_size ≤ hsa_size)
    (hle : crash_size ≤ crash_base) (hlt : hsa_size < 2 ^ 32) (s : State) :
    restore_above stage3 machine hsa_size crash_base crash_size s =
      copy_from_hsa stage3 machine s crash_size crash_size (min hsa_size crash_base - crash_size : Nat) := by
  have hdiff : u64 ((min hsa_size crash_base : Nat) - crash_size : Int) = min hsa_size crash_base - crash_size := by
    apply u64_eq <;> omega
  unfold restore_above
  rw [if_neg (Nat.not_lt_of_le hshort), hdiff, i32_of_lt hf.above]

theorem restore_behind_eq (hf : Fits stage3 hsa_size crash_base crash_size) (s : State) :
    restore_behind stage3 machine hsa_size (u64 (crash_base + crash_size : Nat)) s =
      if crash_base + crash_size < hsa_size then
        copy_from_hsa stage3 machine s (crash_base + crash_size) (crash_base + crash_size)
          (hsa_size - (crash_base + crash_size) : Nat)
      else .ok s := by
  have hcrash : u64 (crash_base + crash_size : Nat) = crash_base + crash_size := by
    have hend := hf.end_lt
    unfold u64
    omega
  unfold restore_behind
  rw [hcrash, i32_of_lt hf.behind]

include hhsa hle hlt in
theorem restore_long (hf : Fits stage3 hsa_size crash_base crash_size) (hlong : hsa_size < crash_size)
    (hin : ∀ a < hsa_size, machine.hsa a = orig a) (hreal : ∀ a, hsa_size ≤ a → s.mem a = orig a)
    (hreq : ∀ r ∈ s.requests, Allowed hsa_size crash_size r) :
    ∃ s', restore stage3 machine hsa_size crash_base crash_size s = .ok s' ∧
      Preserved hsa_size crash_base crash_size orig s' := by
  have hown := hf.own_size
  have hown₂ := hf.own_hsa
  have hend := hf.end_lt
  have hfirst : min crash_size hsa_size = hsa_size := Nat.min_eq_right hlong.le
  have hlen := hf.first
  rw [hfirst] at hlen
  have hdst : u64 (crash_base + hsa_size : Nat) = crash_base + hsa_size := by
    apply u64_eq <;> omega
  obtain ⟨s₁, h₁, hmem, hreq₁⟩ :=
    @copy_spec stage3 machine s crash_base 0 hsa_size hlen hhsa (by decide) (Nat.dvd_zero _)
    (Or.inl (by omega))
  have hmem₁ : ∀ a, stage3.program_end ≤ a → ¬ stage3.Owned a := fun a ha h => Nat.not_lt_of_le ha h.2
  let s₂ : State :=
    { s₁ with
      mem := fun a =>
        if crash_base + hsa_size ≤ a ∧ a < crash_base + hsa_size + (crash_size - hsa_size) then
          s₁.mem (hsa_size + (a - (crash_base + hsa_size)))
        else s₁.mem a }
  have h₂ : restore_above stage3 machine hsa_size crash_base crash_size s₁ = .ok s₂ := by
    unfold restore_above memcpy
    rw [if_pos hlong, hdst, overlaps_eq_false (Or.inl (by omega)), if_neg Bool.false_ne_true]
  have h₃ : restore_behind stage3 machine hsa_size (u64 (crash_base + crash_size : Nat)) s₂ = .ok s₂ := by
    rw [restore_behind_eq hf, if_neg (by omega)]
  refine ⟨s₂, restore_eq_ok.2 ⟨s₁, s₂, by rw [first_eq hf, hfirst, h₁], h₂, h₃⟩, ?_, ?_, ?_⟩
  · intro a ha₁ ha₂
    show (if _ then _ else _) = _
    by_cases hrest : crash_base + hsa_size ≤ a
    · rw [if_pos ⟨hrest, by omega⟩, hmem _ (hmem₁ _ (by omega)), if_neg (by omega), hreal _ (by omega)]
      exact congrArg orig (by omega)
    · rw [if_neg (by omega), hmem a (hmem₁ a (by omega)), if_pos ⟨ha₁, by omega⟩, Nat.zero_add, hin _ (by omega)]
  · intro a ha₁ ha₂
    show (if _ then _ else _) = _
    rw [if_neg (by omega), hmem a (hmem₁ a (by omega)), if_neg (by omega), hreal a (by omega)]
  · intro r hr
    rcases hreq₁ r hr with hr | rfl
    · exact hreq r hr
    · refine ⟨Int.natCast_nonneg _, ?_, Or.inl hle⟩
      show ((0 : Nat) : Int) + hsa_size ≤ hsa_size
      omega

include hbase hsize hhsa hpos hle hlt in
theorem restore_short (hf : Fits stage3 hsa_size crash_base crash_size) (hshort : crash_size ≤ hsa_size)
    (hin : ∀ a < hsa_size, machine.hsa a = orig a) (hreal : ∀ a, hsa_size ≤ a → s.mem a = orig a)
    (hreq : ∀ r ∈ s.requests, Allowed hsa_size crash_size r) :
    ∃ s', restore stage3 machine hsa_size crash_base crash_size s = .ok s' ∧
      Preserved hsa_size crash_base crash_size orig s' := by
  have hown := hf.own_size
  have hend := hf.end_lt
  have hfirst : min crash_size hsa_size = crash_size := Nat.min_eq_left hshort
  have hlen := hf.first
  rw [hfirst] at hlen
  obtain ⟨m, hm⟩ : ∃ m, m = min hsa_size crash_base := ⟨_, rfl⟩
  have hmin : m = hsa_size ∧ m ≤ crash_base ∨ m = crash_base ∧ m ≤ hsa_size := by omega
  have hdvd : PAGE_SIZE ∣ m := by
    rcases hmin with ⟨rfl, -⟩ | ⟨rfl, -⟩
    · exact hhsa
    · exact hbase
  have hlen₂ := hf.above
  have hstep : ∀ s, restore_above stage3 machine hsa_size crash_base crash_size s =
      copy_from_hsa stage3 machine s crash_size crash_size (min hsa_size crash_base - crash_size : Nat) :=
    restore_above_eq hf hshort hle hlt
  rw [← hm] at hlen₂ hstep
  have howned : ∀ a, crash_size ≤ a → ¬ stage3.Owned a := fun a ha h => Nat.not_lt_of_le (Nat.le_trans hown ha) h.2
  obtain ⟨s₁, h₁, hmem₁, hreq₁⟩ :=
    @copy_spec stage3 machine s crash_base 0 crash_size hlen hsize (by decide) (Nat.dvd_zero _)
    (Or.inl (by omega))
  obtain ⟨s₂, h₂, hmem₂, hreq₂⟩ := @copy_spec stage3 machine s₁ crash_size crash_size (m - crash_size)
    hlen₂ (Nat.dvd_sub hdvd hsize) (by omega) hsize (Or.inl hown)
  obtain ⟨s₃, h₃, hmem₃, hreq₃⟩ : ∃ s₃, (if crash_base + crash_size < hsa_size then
        copy_from_hsa stage3 machine s₂ (crash_base + crash_size) (crash_base + crash_size)
          (hsa_size - (crash_base + crash_size) : Nat)
      else .ok s₂) = .ok s₃ ∧
      (∀ a, ¬ stage3.Owned a → s₃.mem a = if crash_base + crash_size ≤ a ∧
        a < hsa_size then machine.hsa a else s₂.mem a) ∧
      ∀ r ∈ s₃.requests, r ∈ s₂.requests ∨ Allowed hsa_size crash_size r := by
    by_cases hmore : crash_base + crash_size < hsa_size
    · obtain ⟨s₃, h₃, hmem₃, hreq₃⟩ := @copy_spec stage3 machine s₂ (crash_base + crash_size)
        (crash_base + crash_size)
        (hsa_size - (crash_base + crash_size)) hf.behind (Nat.dvd_sub hhsa (Nat.dvd_add hbase hsize)) (by omega)
        (Nat.dvd_add hbase hsize) (Or.inl (by omega))
      refine ⟨s₃, by rw [if_pos hmore, h₃], fun a ha => ?_, fun r hr => (hreq₃ r hr).imp_right ?_⟩
      · rw [hmem₃ a ha]
        by_cases hrange : crash_base + crash_size ≤ a ∧ a < hsa_size
        · rw [if_pos hrange, if_pos (by omega), Nat.add_sub_cancel' hrange.1]
        · rw [if_neg hrange, if_neg (by omega)]
      · rintro rfl
        refine ⟨Int.natCast_nonneg _, ?_, Or.inl (Nat.le_add_left _ _)⟩
        show ((crash_base + crash_size : Nat) : Int) + (hsa_size - (crash_base + crash_size) : Nat) ≤ hsa_size
        omega
    · refine ⟨s₂, if_neg hmore, fun a ha => ?_, fun r hr => Or.inl hr⟩
      rw [if_neg (by omega)]
  refine ⟨s₃, restore_eq_ok.2 ⟨s₁, s₂, by rw [first_eq hf, hfirst, h₁], by rw [hstep, h₂],
    by rw [restore_behind_eq hf, h₃]⟩, fun a ha₁ ha₂ => ?_,
    fun a ha₁ ha₂ => ?_, fun r hr => ?_⟩
  · have ha := howned a (by omega)
    rw [hmem₃ a ha, if_neg (by omega), hmem₂ a ha, if_neg (by omega), hmem₁ a ha, if_pos ⟨ha₁, ha₂⟩, Nat.zero_add,
      hin _ (by omega)]
  · have ha := howned a ha₁
    rw [hmem₃ a ha, hmem₂ a ha, hmem₁ a ha, if_neg ha₂]
    by_cases hbehind : crash_base + crash_size ≤ a ∧ a < hsa_size
    · rw [if_pos hbehind, hin a hbehind.2]
    · rw [if_neg hbehind]
      by_cases habove : crash_size ≤ a ∧ a < crash_size + (m - crash_size)
      · rw [if_pos habove, Nat.add_sub_cancel' ha₁, hin a (by omega)]
      · rw [if_neg habove, hreal a (by omega)]
  · rcases hreq₃ r hr with hr | hr
    · rcases hreq₂ r hr with hr | rfl
      · rcases hreq₁ r hr with hr | rfl
        · exact hreq r hr
        · refine ⟨Int.natCast_nonneg _, ?_, Or.inl hle⟩
          show ((0 : Nat) : Int) + crash_size ≤ hsa_size
          omega
      · refine ⟨Int.natCast_nonneg _, ?_, Or.inl (Nat.le_refl _)⟩
        show (crash_size : Int) + (m - crash_size : Nat) ≤ hsa_size
        omega
    · exact hr

/-! ## What goes wrong -/

/-- Later on there are more requests, and the loader's memory still holds `v`. -/
structure Later (stage3 : Stage3) (v : Mem) (s s' : State) : Prop where
  requests : s.requests ⊆ s'.requests
  owned : (∀ a, stage3.Owned a → s.mem a = v a) → ∀ a, stage3.Owned a → s'.mem a = v a

theorem Later.refl (v : Mem) (s : State) : Later stage3 v s s := ⟨List.Subset.refl _, fun h => h⟩

theorem Later.trans {v : Mem} {s s' s'' : State} (h : Later stage3 v s s')
    (h' : Later stage3 v s' s'') : Later stage3 v s s'' :=
  ⟨List.Subset.trans h.requests h'.requests, fun hs => h'.owned (h.owned hs)⟩

variable {v : Mem} (hown : ∀ k, machine.own k = v)

include hown in
theorem copy_later {s s' : State} {dst src : Nat} {cnt : Int}
    (h : copy_from_hsa stage3 machine s dst src cnt = .ok s') :
    Later stage3 v s s' ∧ (cnt ≠ 0 → ∃ src', ⟨dst, src', cnt⟩ ∈ s'.requests) := by
  unfold copy_from_hsa sclp_hsa_copy at h
  split at h
  · rename_i hzero
    obtain rfl := Except.ok.inj h
    exact ⟨Later.refl v s, fun hne => absurd hzero hne⟩
  · split at h
    · cases h
    · obtain rfl := Except.ok.inj h
      refine ⟨⟨List.subset_append_left _ _, fun _ a ha => ?_⟩, fun _ =>
        ⟨_, List.mem_append_right _ List.mem_cons_self⟩⟩
      show (if stage3.Owned a then _ else _) = _
      rw [if_pos ha, hown]

theorem memcpy_later {s s' : State} {dst src n : Nat} (h : memcpy stage3 s dst src n = .ok s') :
    Later stage3 v s s' ∧
    ∀ i < n, s'.mem (dst + i) = s.mem (src + i) := by
  unfold memcpy at h
  split at h
  · cases h
  · rename_i hclear
    obtain rfl := Except.ok.inj h
    refine ⟨⟨List.Subset.refl _, fun hs a ha => ?_⟩, fun i hi => ?_⟩
    · show (if _ then _ else _) = _
      rw [if_neg ?_, hs a ha]
      intro hin
      have hend := ha.2
      have hstart := ha.1
      refine hclear (Bool.and_eq_true_iff.mpr ⟨decide_eq_true ?_, decide_eq_true ?_⟩) <;> omega
    · show (if _ then _ else _) = _
      rw [if_pos ⟨Nat.le_add_right _ _, Nat.add_lt_add_left hi _⟩, Nat.add_sub_cancel_left]

include hown in
theorem above_later {s s' : State} (h : restore_above stage3 machine hsa_size crash_base crash_size s = .ok s') :
    Later stage3 v s s' := by
  unfold restore_above at h
  split at h
  · exact (memcpy_later h).1
  · exact (copy_later hown h).1

include hown in
theorem behind_later {s s' : State} {crash_end : Nat}
    (h : restore_behind stage3 machine hsa_size crash_end s = .ok s') :
    Later stage3 v s s' := by
  unfold restore_behind at h
  split at h
  · exact (copy_later hown h).1
  · obtain rfl := Except.ok.inj h
    exact Later.refl v s

theorem lt_of_i32_nonneg {n : Nat} (hn : n < 2 ^ 32) (h : 0 ≤ i32 n) : n < 2 ^ 31 := by
  unfold i32 at h
  omega

theorem i32_ne_zero {n : Nat} (hn : n < 2 ^ 32) (hpos : 0 < n) : i32 n ≠ 0 := by
  unfold i32
  omega

include hown hpos hle hlt in
theorem fits_of_preserved (hend : crash_base + crash_size ≤ 2 ^ 64)
    (hother : ∀ a, v a ≠ orig a ∧ (crash_base ≤ a → a < crash_base + crash_size → v a ≠ orig (a - crash_base)))
    (hs : ∀ a, stage3.Owned a → s.mem a = v a) {s₃ : State}
    (h : restore stage3 machine hsa_size crash_base crash_size s = .ok s₃)
    (hp : Preserved hsa_size crash_base crash_size orig s₃) : Fits stage3 hsa_size crash_base crash_size := by
  obtain ⟨s₁, s₂, h₁, h₂, h₃⟩ := restore_eq_ok.1 h
  obtain ⟨hlater₁, hreq₁⟩ := copy_later hown h₁
  have hlater₂ := above_later hown h₂
  have hlater₃ := behind_later hown h₃
  have hge := stage3.program_end_ge
  have hwork : hsa_page = 0x7000 := rfl
  have hpage : PAGE_SIZE = 4096 := rfl
  have hlast : stage3.Owned (stage3.program_end - 1) := by
    unfold Stage3.Owned
    omega
  -- the last byte of the loader
  have hsize : stage3.program_end ≤ crash_size := by
    by_contra hshort
    have hv := ((hlater₁.trans hlater₂).trans hlater₃).owned hs _ hlast
    by_cases hrange : crash_base ≤ stage3.program_end - 1 ∧ stage3.program_end - 1 < crash_base + crash_size
    · exact (hother _).2 hrange.1 hrange.2 (hv.symm.trans (hp.copied _ hrange.1 hrange.2))
    · exact (hother _).1 (hv.symm.trans (hp.kept _ (by omega) hrange))
  have hbehind : u64 (crash_base + crash_size : Nat) < hsa_size →
      ∃ src, (⟨u64 (crash_base + crash_size : Nat), src,
        i32 (hsa_size - u64 (crash_base + crash_size : Nat) : Nat)⟩ : Request) ∈
        s₃.requests := by
    intro hlt'
    rw [restore_behind, if_pos hlt'] at h₃
    exact (copy_later hown h₃).2 (i32_ne_zero (by omega) (by omega))
  -- a region up to the end of the address space would be restored from address 0 on
  have hwrap : crash_base + crash_size = 2 ^ 64 → hsa_size = 0 := by
    intro heq
    by_contra hne
    have hzero : u64 (crash_base + crash_size : Nat) = 0 := by
      rw [heq]
      rfl
    rw [hzero] at hbehind
    obtain ⟨src, hr⟩ := hbehind (Nat.pos_of_ne_zero hne)
    rcases (hp.requests _ hr).2.2 with hdst | ⟨hdst, -⟩
    · exact absurd hdst (Nat.not_le_of_lt hpos)
    · exact absurd hdst (show ¬ 0 = hsa_page by decide)
  have hhsa : stage3.program_end ≤ hsa_size := by
    by_contra hshort
    have hlong : crash_size > hsa_size := by omega
    have hdst : u64 (crash_base + hsa_size : Nat) = crash_base + hsa_size := by
      apply u64_eq <;> omega
    rw [restore_above, if_pos hlong, hdst] at h₂
    have hv := (memcpy_later (v := v) h₂).2 (stage3.program_end - 1 - hsa_size) (by omega)
    rw [show crash_base + hsa_size + (stage3.program_end - 1 - hsa_size) =
      crash_base + (stage3.program_end - 1) by omega,
      show hsa_size + (stage3.program_end - 1 - hsa_size) = stage3.program_end - 1 by omega,
      hlater₁.owned hs _ hlast] at hv
    have hno : ¬ u64 (crash_base + crash_size : Nat) < hsa_size := by
      rcases Nat.lt_or_eq_of_le hend with hlt' | heq
      · unfold u64
        omega
      · rw [hwrap heq]
        exact Nat.not_lt_zero _
    rw [restore_behind, if_neg hno] at h₃
    obtain rfl := Except.ok.inj h₃
    have hcopied := hp.copied (crash_base + (stage3.program_end - 1)) (Nat.le_add_right _ _) (by omega)
    rw [Nat.add_sub_cancel_left, hv] at hcopied
    exact (hother _).1 hcopied
  have hend_lt : crash_base + crash_size < 2 ^ 64 := by
    refine Nat.lt_of_le_of_ne hend fun heq => ?_
    rw [hwrap heq] at hhsa
    omega
  have hcrash : u64 (crash_base + crash_size : Nat) = crash_base + crash_size := by
    apply u64_eq <;> omega
  refine ⟨hsize, hhsa, hend_lt, ?_, ?_, ?_⟩
  · have hlt' : min crash_size hsa_size < 2 ^ 32 := Nat.lt_of_le_of_lt (Nat.min_le_right _ _) hlt
    refine lt_of_i32_nonneg hlt' ?_
    obtain ⟨src, hr⟩ := hreq₁ (i32_ne_zero hlt' (Nat.lt_min.mpr ⟨hpos, by omega⟩))
    exact (hp.requests _ (hlater₃.requests (hlater₂.requests hr))).1
  · by_cases hnone : min hsa_size crash_base - crash_size = 0
    · rw [hnone]
      decide
    have hdiff : u64 ((min hsa_size crash_base : Nat) - crash_size : Int) =
      min hsa_size crash_base - crash_size := by
      apply u64_eq <;> omega
    have hlt' : min hsa_size crash_base - crash_size < 2 ^ 32 := by omega
    refine lt_of_i32_nonneg hlt' ?_
    rw [restore_above, if_neg (by omega), hdiff] at h₂
    obtain ⟨src, hr⟩ := (copy_later hown h₂).2 (i32_ne_zero hlt' (Nat.pos_of_ne_zero hnone))
    exact (hp.requests _ (hlater₃.requests hr)).1
  · by_cases hnone : hsa_size - (crash_base + crash_size) = 0
    · rw [hnone]
      decide
    rw [hcrash] at hbehind
    obtain ⟨src, hr⟩ := hbehind (by omega)
    exact lt_of_i32_nonneg (by omega) (hp.requests _ hr).1

end

end

end Zipl.Kdump
