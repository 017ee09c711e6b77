import S390Tools.Ziomon.Collapser

/-!
# Device filters (ziomon/ziorep_filters.cpp)

The lists of a filter are sorted, and a lookup stops at the first greater entry. The
loop over the device numbers reads an entry behind the last one; what stands there is
the value `past_end`.
-/

namespace Ziomon.Collapser

open Compare

structure DeviceFilter where
  m_devices : List UInt32
  m_idents : List HctlIdent
  m_host_ids : List UInt32

section
variable {α : Type} (cmp : α → α → Int)

@[grind =] def add_sorted (id : α) : List α → List α
  | [] => [id]
  | i :: l => if cmp id i > 0 then i :: add_sorted id l else if cmp i id ≠ 0 then id :: i :: l else i :: l

def is_eligible (id : α) : List α → Bool
  | [] => false
  | i :: l => if cmp id i = 0 then true else if cmp id i < 0 then false else is_eligible id l

end

@[grind =] def add_device_loop (past_end device : UInt32) : List UInt32 → List UInt32
  | [] => if past_end ≠ device then [device] else []
  | i :: l =>
    if device > i then i :: add_device_loop past_end device l else if i ≠ device then device :: i :: l else i :: l

section
variable (past_end : List UInt32 → UInt32)

def add_device_mm (device : UInt32) (m_devices : List UInt32) : List UInt32 :=
  if m_devices = [] then [device] else add_device_loop (past_end m_devices) device m_devices

def add_device_ident : HctlIdent → List HctlIdent → List HctlIdent := add_sorted compare_hctl_idents

def add_host : UInt32 → List UInt32 → List UInt32 := add_sorted compare_u32

inductive Call
  | device (device : UInt32) (id : HctlIdent)
  | mm (device : UInt32)
  | ident (id : HctlIdent)
  | host (host : UInt32)

def DeviceFilter.step (f : DeviceFilter) : Call → DeviceFilter
  | .device device id =>
    { m_devices := add_device_mm past_end device f.m_devices, m_idents := add_device_ident id f.m_idents,
      m_host_ids := add_host id.host f.m_host_ids }
  | .mm device => { f with m_devices := add_device_mm past_end device f.m_devices }
  | .ident id => { f with m_idents := add_device_ident id f.m_idents }
  | .host host => { f with m_host_ids := add_host host f.m_host_ids }

def DeviceFilter.after (calls : List Call) : DeviceFilter :=
  calls.foldl (DeviceFilter.step past_end) { m_devices := [], m_idents := [], m_host_ids := [] }

end

def is_eligible_mm (f : DeviceFilter) (mm : UInt32) : Bool := is_eligible compare_u32 mm f.m_devices
def is_eligible_ident (f : DeviceFilter) (ident : HctlIdent) : Bool :=
    is_eligible compare_hctl_idents ident f.m_idents
def is_eligible_host_id (f : DeviceFilter) (host : UInt32) : Bool := is_eligible compare_u32 host f.m_host_ids

/-! ## What calls add -/

def Call.devices : Call → List UInt32
  | .device d _ => [d]
  | .mm d => [d]
  | _ => []

def Call.idents : Call → List HctlIdent
  | .device _ id => [id]
  | .ident id => [id]
  | _ => []

def Call.hosts : Call → List UInt32
  | .device _ id => [id.host]
  | .host h => [h]
  | _ => []

theorem after_lists (past_end : List UInt32 → UInt32) (calls : List Call) : ∀ f : DeviceFilter,
    calls.foldl (DeviceFilter.step past_end) f =
      { m_devices := (calls.flatMap Call.devices).foldl (fun l d => add_device_mm past_end d l) f.m_devices,
        m_idents := (calls.flatMap Call.idents).foldl (fun l id => add_device_ident id l) f.m_idents,
        m_host_ids := (calls.flatMap Call.hosts).foldl (fun l h => add_host h l) f.m_host_ids } := by
  induction calls with
  | nil => exact fun f => rfl
  | cons c calls ih =>
    intro f
    rw [List.foldl_cons, ih]
    cases c with
    | device device id => rfl
    | mm device => rfl
    | ident id => rfl
    | host host => rfl

/-! ## Sorted lists -/

section
variable {α : Type} {cmp : α → α → Int} {S : α → Prop}

theorem mem_add_sorted (h : Faithful cmp) {id x : α} : ∀ {l : List α}, x ∈ add_sorted cmp id l ↔ x = id ∨ x ∈ l
  | [] => by rw [add_sorted, List.mem_singleton, or_iff_left List.not_mem_nil]
  | i :: l => by
    rw [add_sorted]
    by_cases h₁ : cmp id i > 0
    · rw [if_pos h₁, List.mem_cons, mem_add_sorted h, List.mem_cons]
      exact or_left_comm
    · rw [if_neg h₁]
      by_cases h₂ : cmp i id ≠ 0
      · rw [if_pos h₂, List.mem_cons]
      · rw [if_neg h₂, (h.zero i id).mp (not_not.mp h₂), List.mem_cons]
        exact ⟨Or.inr, fun hx => hx.elim Or.inl fun hx => hx⟩

theorem ascending_add_sorted (hO : Orders cmp S) (h : Faithful cmp) {id : α} (hid : S id) : ∀ {l : List α},
    (∀ x ∈ l, S x) → (l.Pairwise fun a b => cmp a b < 0) → (add_sorted cmp id l).Pairwise fun a b => cmp a b < 0
  | [], _, _ => List.pairwise_singleton _ _
  | i :: l, hS, hasc => by
    obtain ⟨hi, hl⟩ := List.pairwise_cons.mp hasc
    have hrest : ∀ x ∈ l, S x := fun x hx => hS x (List.mem_cons_of_mem _ hx)
    rw [add_sorted]
    by_cases h₁ : cmp id i > 0
    · rw [if_pos h₁]
      refine List.pairwise_cons.mpr ⟨fun x hx => ?_, ascending_add_sorted hO h hid hrest hl⟩
      rcases (mem_add_sorted h).mp hx with rfl | hx
      · exact h.flip _ _ h₁
      · exact hi x hx
    · rw [if_neg h₁]
      by_cases h₂ : cmp i id ≠ 0
      · have hne : cmp id i ≠ 0 := fun h0 => h₂ ((h.zero i id).mpr ((h.zero id i).mp h0).symm)
        have hlt : cmp id i < 0 := by omega
        rw [if_pos h₂]
        refine List.pairwise_cons.mpr ⟨fun x hx => ?_, hasc⟩
        rcases List.mem_cons.mp hx with rfl | hx
        · exact hlt
        · exact hO.trans id i x hid (hS i List.mem_cons_self) (hrest x hx) hlt (hi x hx)
      · rw [if_neg h₂]
        exact hasc

theorem eligible_iff (hO : Orders cmp S) (h : Faithful cmp) {id : α} (hid : S id) : ∀ {l : List α}, (∀ x ∈ l, S x) →
    (l.Pairwise fun a b => cmp a b < 0) → (is_eligible cmp id l = true ↔ id ∈ l)
  | [], _, _ => iff_of_false Bool.false_ne_true List.not_mem_nil
  | i :: l, hS, hasc => by
    obtain ⟨hi, hl⟩ := List.pairwise_cons.mp hasc
    have hrest : ∀ x ∈ l, S x := fun x hx => hS x (List.mem_cons_of_mem _ hx)
    rw [is_eligible]
    by_cases h₁ : cmp id i = 0
    · rw [if_pos h₁, (h.zero id i).mp h₁]
      exact iff_of_true rfl List.mem_cons_self
    · have hne : id ≠ i := fun heq => h₁ ((h.zero id i).mpr heq)
      rw [if_neg h₁]
      by_cases h₂ : cmp id i < 0
      · rw [if_pos h₂]
        refine iff_of_false Bool.false_ne_true fun hmem => ?_
        rcases List.mem_cons.mp hmem with heq | hmem
        · exact hne heq
        · have hflip := hO.flip id i hid (hS i List.mem_cons_self) (hi id hmem)
          omega
      · rw [if_neg h₂, eligible_iff hO h hid hrest hl, List.mem_cons, or_iff_right hne]

theorem added (h : Faithful cmp) : ∀ (ids l : List α),
    (∀ x, x ∈ ids.foldl (fun l id => add_sorted cmp id l) l ↔ x ∈ l ∨ x ∈ ids) ∧
    (Orders cmp S → (∀ x ∈ ids, S x) → (∀ x ∈ l, S x) → (l.Pairwise fun a b => cmp a b < 0) →
      (ids.foldl (fun l id => add_sorted cmp id l) l).Pairwise fun a b => cmp a b < 0)
  | [], l => ⟨fun x => (or_iff_left List.not_mem_nil).symm, fun _ _ _ hasc => hasc⟩
  | id :: ids, l => by
    obtain ⟨hmem, hasc⟩ := added h ids (add_sorted cmp id l)
    rw [List.foldl_cons]
    refine ⟨fun x => ?_, fun hO hids hS hl => ?_⟩
    · rw [hmem, mem_add_sorted h, List.mem_cons]
      constructor
      · rintro ((hx | hx) | hx)
        · exact Or.inr (Or.inl hx)
        · exact Or.inl hx
        · exact Or.inr (Or.inr hx)
      · rintro (hx | hx | hx)
        · exact Or.inl (Or.inr hx)
        · exact Or.inl (Or.inl hx)
        · exact Or.inr hx
    · have hid := hids id List.mem_cons_self
      refine hasc hO (fun x hx => hids x (List.mem_cons_of_mem _ hx)) (fun x hx => ?_)
        (ascending_add_sorted hO h hid hS hl)
      rcases (mem_add_sorted h).mp hx with rfl | hx
      · exact hid
      · exact hS x hx

theorem eligible_added (hO : Orders cmp S) (h : Faithful cmp) {ids : List α} (hS : ∀ x ∈ ids, S x)
    {q : α} (hq : S q) :
    is_eligible cmp q (ids.foldl (fun l id => add_sorted cmp id l) []) = true ↔ q ∈ ids := by
  obtain ⟨hmem, hasc⟩ := @added _ cmp S h ids []
  have hin : ∀ x, x ∈ ids.foldl (fun l id => add_sorted cmp id l) [] ↔ x ∈ ids := fun x => by
    rw [hmem, or_iff_right List.not_mem_nil]
  rw [eligible_iff hO h hq (fun x hx => hS x ((hin x).mp hx))
    (hasc hO hS (fun x hx => absurd hx List.not_mem_nil) .nil)]
  exact hin q

theorem eligible_before {x k : α} {l : List α} (h : cmp x k < 0) : is_eligible cmp x (k :: l) = false := by
  rw [is_eligible, if_neg (by omega), if_pos h]

theorem eligible_orders (h : Faithful cmp)
    (hall : ∀ ids : List α, (∀ x ∈ ids, S x) → ∀ q, S q →
      (is_eligible cmp q (ids.foldl (fun l id => add_sorted cmp id l) []) = true ↔ q ∈ ids)) : Orders cmp S := by
  have hflip : ∀ {x y : α}, cmp x y ≠ 0 → cmp y x ≠ 0 := fun hn h0 =>
    hn ((h.zero _ _).mpr ((h.zero _ _).mp h0).symm)
  rcases orders_or cmp S h with hO | ⟨a, b, ha, hb, hab, hba⟩ | ⟨a, b, c, ha, hb, hc, hba, hbc, hca⟩
  · exact hO
  · have hlist : [a, b].foldl (fun l id => add_sorted cmp id l) [] = [b, a] := by
      show add_sorted cmp b [a] = _
      rw [add_sorted, if_neg (by omega), if_pos (by omega)]
    have hq := hall [a, b] (fun x hx => ?_) a ha
    · rw [hlist, eligible_before hab] at hq
      exact absurd (hq.mpr List.mem_cons_self) Bool.false_ne_true
    · simp only [List.mem_cons, List.not_mem_nil, or_false] at hx
      rcases hx with rfl | rfl <;> assumption
  · have hlist : [a, b, c].foldl (fun l id => add_sorted cmp id l) [] = [c, a, b] := by
      show add_sorted cmp c (add_sorted cmp b [a]) = _
      rw [add_sorted, if_pos hba, add_sorted, add_sorted, if_neg (by omega), if_pos (hflip (by omega))]
    have hq := hall [a, b, c] (fun x hx => ?_) b hb
    · rw [hlist, eligible_before hbc] at hq
      exact absurd (hq.mpr (List.mem_cons_of_mem _ List.mem_cons_self)) Bool.false_ne_true
    · simp only [List.mem_cons, List.not_mem_nil, or_false] at hx
      rcases hx with rfl | rfl | rfl <;> assumption

end

/-! ## Device numbers -/

/-- Behind a list that ends below the number does not stand the number itself. -/
def EndRight (past_end : List UInt32 → UInt32) (D : UInt32 → Prop) : Prop :=
  ∀ l ≠ [], (l.Pairwise fun a b => compare_u32 a b < 0) → (∀ x ∈ l, D x) → ∀ d, D d →
    (∀ x ∈ l, x < d) → past_end l ≠ d

theorem compare_u32_gt {a b : UInt32} : compare_u32 a b > 0 ↔ a > b := by
  rw [compare_u32, gt_iff_lt, gt_iff_lt, UInt32.lt_iff_toNat_lt]
  omega

theorem device_loop_eq {past device : UInt32} : ∀ {l : List UInt32}, (past ≠ device ∨ ∃ x ∈ l, ¬ device > x) →
    add_device_loop past device l = add_sorted compare_u32 device l
  | [], h => by
    rcases h with h | ⟨x, hx, -⟩
    · rw [add_device_loop, if_pos h, add_sorted]
    · exact absurd hx List.not_mem_nil
  | i :: l, h => by
    rw [add_device_loop, add_sorted]
    by_cases h₁ : device > i
    · have hrest : past ≠ device ∨ ∃ x ∈ l, ¬ device > x := by
        refine h.imp id fun ⟨x, hx, hle⟩ => ⟨x, ?_, hle⟩
        rcases List.mem_cons.mp hx with rfl | hx
        · exact absurd h₁ hle
        · exact hx
      rw [if_pos h₁, if_pos (compare_u32_gt.2 h₁), device_loop_eq hrest]
    · have hne : compare_u32 i device ≠ 0 ↔ i ≠ device := not_congr (compare_u32_faithful.zero i device)
      rw [if_neg h₁, if_neg fun hn => h₁ (compare_u32_gt.1 hn)]
      by_cases h₂ : i ≠ device
      · rw [if_pos h₂, if_pos (hne.mpr h₂)]
      · rw [if_neg h₂, if_neg fun hn => h₂ (hne.mp hn)]

theorem device_loop_end {device : UInt32} : ∀ {l : List UInt32}, (∀ x ∈ l, device > x) →
    add_device_loop device device l = l
  | [], _ => by rw [add_device_loop, if_neg fun hn => hn rfl]
  | i :: l, h => by
    rw [add_device_loop, if_pos (h i List.mem_cons_self), device_loop_end fun x hx =>
      h x (List.mem_cons_of_mem _ hx)]

section
variable {past_end : List UInt32 → UInt32} {D : UInt32 → Prop}

theorem add_mm_eq (hend : EndRight past_end D) {d : UInt32} (hd : D d) {l : List UInt32} (hD : ∀ x ∈ l, D x)
    (hasc : l.Pairwise fun a b => compare_u32 a b < 0) : add_device_mm past_end d l =
      add_sorted compare_u32 d l := by
  rw [add_device_mm]
  by_cases hnil : l = []
  · rw [if_pos hnil, hnil, add_sorted]
  · rw [if_neg hnil]
    refine device_loop_eq ?_
    by_cases hall : ∀ x ∈ l, d > x
    · exact Or.inl (hend l hnil hasc hD d hd hall)
    · obtain ⟨x, hx⟩ := not_forall.mp hall
      obtain ⟨hx, hle⟩ := Classical.not_imp.mp hx
      exact Or.inr ⟨x, hx, hle⟩

theorem add_mms_eq (hend : EndRight past_end D) : ∀ {ds l : List UInt32}, (∀ d ∈ ds, D d) → (∀ x ∈ l, D x) →
    (l.Pairwise fun a b => compare_u32 a b < 0) →
      ds.foldl (fun l d => add_device_mm past_end d l) l = ds.foldl (fun l d => add_sorted compare_u32 d l) l
  | [], _, _, _, _ => rfl
  | d :: ds, l, hds, hD, hasc => by
    have hd := hds d List.mem_cons_self
    rw [List.foldl_cons, List.foldl_cons, add_mm_eq hend hd hD hasc]
    refine add_mms_eq hend (fun x hx => hds x (List.mem_cons_of_mem _ hx)) (fun x hx => ?_)
      (ascending_add_sorted (compare_u32_orders D) compare_u32_faithful hd hD hasc)
    rcases (mem_add_sorted compare_u32_faithful).mp hx with rfl | hx
    · exact hd
    · exact hD x hx

theorem add_mms_descending (past_end : List UInt32 → UInt32) : ∀ {l : List UInt32},
    (l.Pairwise fun a b => compare_u32 a b < 0) →
    l.reverse.foldl (fun l d => add_device_mm past_end d l) [] = l
  | [], _ => rfl
  | d :: l, hasc => by
    obtain ⟨hd, hl⟩ := List.pairwise_cons.mp hasc
    rw [List.reverse_cons, List.foldl_append, add_mms_descending past_end hl, List.foldl_cons,
      List.foldl_nil, add_device_mm]
    by_cases hnil : l = []
    · rw [if_pos hnil, hnil]
    · obtain ⟨i, l', rfl⟩ := List.exists_cons_of_ne_nil hnil
      have hlt := hd i List.mem_cons_self
      have hle : ¬ d > i := fun hn => by
        have := compare_u32_gt.2 hn
        omega
      have hne : i ≠ d := fun heq => by
        rw [heq, (compare_u32_faithful.zero d d).mpr rfl] at hlt
        omega
      rw [if_neg hnil, add_device_loop, if_neg hle, if_pos hne]

theorem eligible_mm_iff : (∀ ds : List UInt32, (∀ d ∈ ds, D d) → ∀ q, D q →
      (is_eligible compare_u32 q (ds.foldl (fun l d => add_device_mm past_end d l) []) = true ↔ q ∈ ds)) ↔
    EndRight past_end D := by
  constructor
  · intro hall l hne hasc hD d hd hlt hpast
    have hds : ∀ x ∈ l.reverse ++ [d], D x := by
      intro x hx
      rcases List.mem_append.mp hx with hx | hx
      · exact hD x (List.mem_reverse.mp hx)
      · rw [List.mem_singleton.mp hx]
        exact hd
    have hq := hall (l.reverse ++ [d]) hds d hd
    rw [List.foldl_append, add_mms_descending past_end hasc, List.foldl_cons, List.foldl_nil,
      add_device_mm, if_neg hne, hpast,
      device_loop_end hlt, eligible_iff (compare_u32_orders D) compare_u32_faithful hd hD hasc] at hq
    have hmem := hq.mpr (List.mem_append_right _ (List.mem_singleton_self d))
    exact absurd (hlt d hmem) (UInt32.lt_irrefl d)
  · intro hend ds hds q hq
    rw [add_mms_eq hend hds (fun x hx => absurd hx List.not_mem_nil) .nil]
    exact eligible_added (compare_u32_orders D) compare_u32_faithful hds hq

end

/-! ## Indices and filters -/

def Over (S : HctlIdent → Prop) (D : UInt32 → Prop) (calls : List Call) : Prop :=
  (∀ id ∈ calls.flatMap Call.idents, S id) ∧ ∀ d ∈ calls.flatMap Call.devices, D d

/-- After the calls exactly what was added is eligible. -/
def FilterExact {α : Type} (added : Call → List α) (eligible : DeviceFilter → α → Bool)
    (past_end : List UInt32 → UInt32) (calls : List Call) (q : α) : Prop :=
  eligible (DeviceFilter.after past_end calls) q = true ↔ q ∈ calls.flatMap added

theorem indices_filters_iff (past_end : List UInt32 → UInt32) (S : HctlIdent → Prop) (D : UInt32 → Prop) :
    ((∀ xs, (∀ x ∈ xs, S x) → Indexed get_index_ident xs) ↔ Orders compare_hctl_idents S ∧ AtMost (2 ^ 31) S) ∧
      ((∀ xs, (∀ x ∈ xs, D x) → Indexed get_index_device xs) ↔ AtMost (2 ^ 31) D) ∧
      ((∀ xs, (∀ x ∈ xs, D x) → Indexed get_index_by_host_id xs) ↔ AtMost (2 ^ 31) D) ∧
      ((∀ calls, Over S D calls → ∀ q, S q → FilterExact Call.idents is_eligible_ident past_end calls q) ↔
        Orders compare_hctl_idents S) ∧
      ((∀ calls, Over S D calls → ∀ q, D q → FilterExact Call.devices is_eligible_mm past_end calls q) ↔
        EndRight past_end D) ∧
      ∀ calls q, FilterExact Call.hosts is_eligible_host_id past_end calls q := by
  have hu32 : (∀ xs, (∀ x ∈ xs, D x) → Indexed (get_index compare_u32) xs) ↔ AtMost (2 ^ 31) D := by
    rw [indexed_iff compare_u32_faithful]
    exact and_iff_right (compare_u32_orders D)
  have hidents : ∀ ids : List HctlIdent, (ids.map Call.ident).flatMap Call.idents = ids ∧
      (ids.map Call.ident).flatMap Call.devices = [] := by
    intro ids
    induction ids with
    | nil => exact ⟨rfl, rfl⟩
    | cons id ids ih => exact ⟨congrArg (id :: ·) ih.1, ih.2⟩
  have hmms : ∀ ds : List UInt32, (ds.map Call.mm).flatMap Call.devices = ds ∧
    (ds.map Call.mm).flatMap Call.idents = [] := by
    intro ds
    induction ds with
    | nil => exact ⟨rfl, rfl⟩
    | cons d ds ih => exact ⟨congrArg (d :: ·) ih.1, ih.2⟩
  refine ⟨indexed_iff compare_hctl_idents_faithful, hu32, hu32, ⟨fun hall => ?_, fun hO calls hover q hq => ?_⟩,
    ⟨fun hall => ?_, fun hend calls hover q hq => ?_⟩, fun calls q => ?_⟩
  · refine eligible_orders compare_hctl_idents_faithful fun ids hids q hq => ?_
    have hover : Over S D (ids.map Call.ident) := by
      refine ⟨fun id hid => hids id ?_, fun d hd => ?_⟩
      · rwa [(hidents ids).1] at hid
      · rw [(hidents ids).2] at hd
        exact absurd hd List.not_mem_nil
    have hexact := hall _ hover q hq
    rw [FilterExact, DeviceFilter.after, after_lists, (hidents ids).1] at hexact
    exact hexact
  · rw [FilterExact, DeviceFilter.after, after_lists]
    exact eligible_added hO compare_hctl_idents_faithful hover.1 hq
  · refine eligible_mm_iff.mp fun ds hds q hq => ?_
    have hover : Over S D (ds.map Call.mm) := by
      refine ⟨fun id hid => ?_, fun d hd => hds d ?_⟩
      · rw [(hmms ds).2] at hid
        exact absurd hid List.not_mem_nil
      · rwa [(hmms ds).1] at hd
    have hexact := hall _ hover q hq
    rw [FilterExact, DeviceFilter.after, after_lists, (hmms ds).1] at hexact
    exact hexact
  · rw [FilterExact, DeviceFilter.after, after_lists]
    exact eligible_mm_iff.mpr hend _ hover.2 q hq
  · rw [FilterExact, DeviceFilter.after, after_lists]
    exact eligible_added (S := fun _ => True)
      (compare_u32_orders _) compare_u32_faithful (fun _ _ => trivial) trivial

def hosts (host : UInt32) : HctlIdent := { host, channel := 0, target := 0, lun := 0 }

/-- Two hosts that are `2 ^ 31` apart. -/
theorem far_hosts : ¬∀ xs : List HctlIdent, Indexed get_index_ident xs := by
  intro hall
  refine not_indexed_two compare_hctl_idents_faithful ?_ ?_ (hall [hosts 0x10000000,
    hosts 0x90000000, hosts 0x10000000])
  · decide
  · decide

end Ziomon.Collapser
