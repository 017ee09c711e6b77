import S390Tools.Lib.Compare

/-!
# Indices of devices (ziomon/ziorep_collapser.cpp, ziomon_util.c)

Each kind of identifier has a sorted list with the index of every identifier. A lookup
stops at the first entry that is greater. The difference of two unsigned numbers goes
into an `int`.
-/

namespace Ziomon.Collapser

open Compare

structure HctlIdent where
  host : UInt32
  channel : UInt32
  target : UInt32
  lun : UInt32
  deriving DecidableEq

def int_sub (a b : UInt32) : Int := (a - b).toBitVec.toInt

def compare_hctl_idents (src tgt : HctlIdent) : Int :=
  if src.host = tgt.host then
    if src.channel = tgt.channel then
      if src.target = tgt.target then int_sub src.lun tgt.lun
      else int_sub src.target tgt.target
    else int_sub src.channel tgt.channel
  else int_sub src.host tgt.host

def compare_u32 (a b : UInt32) : Int := (a.toNat : Int) - b.toNat

def to_int (n : Nat) : Int := (BitVec.ofNat 32 n).toInt
def to_unsigned (i : Int) : Nat := (BitVec.ofInt 32 i).toNat

/-! ## The three lists alike -/

/-- `ident_mapping`, `device_mapping` and `host_id_mapping`. -/
structure Mapping (α : Type) where
  key : α
  idx : Int

section
variable {α : Type} (cmp : α → α → Int)

@[grind =] def add_to_index (new_mapping : Mapping α) : List (Mapping α) → List (Mapping α)
  | [] => [new_mapping]
  | i :: l =>
    if cmp new_mapping.key i.key ≥ 0 then i :: add_to_index new_mapping l
    else if cmp new_mapping.key i.key ≠ 0 then new_mapping :: i :: l
    else i :: l

def lookup_index (identifier : α) : List (Mapping α) → Int
  | [] => -1
  | i :: l =>
    if cmp identifier i.key ≥ 0 then
      if cmp identifier i.key = 0 then i.idx else lookup_index identifier l
    else -1

def get_index (identifier : α) (l : List (Mapping α)) : Nat × List (Mapping α) :=
  let rc := lookup_index cmp identifier l
  if rc < 0 then
    let new_mapping := { key := identifier, idx := to_int l.length }
    (to_unsigned new_mapping.idx, add_to_index cmp new_mapping l)
  else (to_unsigned rc, l)

end

/-- `NoopCollapser::get_index`, with an identifier and with a device number. -/
def get_index_ident : HctlIdent → List (Mapping HctlIdent) → Nat × List (Mapping HctlIdent) :=
    get_index compare_hctl_idents
def get_index_device : UInt32 → List (Mapping UInt32) → Nat × List (Mapping UInt32) := get_index compare_u32
def get_index_by_host_id : UInt32 → List (Mapping UInt32) → Nat × List (Mapping UInt32) := get_index compare_u32

section
variable {α : Type} (get : α → List (Mapping α) → Nat × List (Mapping α))

@[grind =] def get_indices : List α → List (Mapping α) → List Nat
  | [], _ => []
  | x :: xs, l => (get x l).1 :: get_indices xs (get x l).2

def lists_after : List α → List (Mapping α) → List (Mapping α)
  | [], l => l
  | x :: xs, l => lists_after xs (get x l).2

/-- `0, 1, 2, …` in order of first appearance. -/
def Indexed [DecidableEq α] (xs : List α) : Prop := get_indices get xs [] = xs.map fun x => (firsts xs).idxOf x

end

/-! ## Lists in order -/

section
variable {α : Type} {cmp : α → α → Int} {S : α → Prop}

theorem Faithful.refl (h : Faithful cmp) (a : α) : cmp a a = 0 := (h.zero a a).mpr rfl

theorem lookup_before {x k : α} {n : Int} {l : List (Mapping α)} (h : cmp x k < 0) :
    lookup_index cmp x (⟨k, n⟩ :: l) = -1 := by
  rw [lookup_index]
  exact if_neg (by dsimp only; omega)

theorem lookup_behind {x k : α} {n : Int} {l : List (Mapping α)} (h : 0 < cmp x k) :
    lookup_index cmp x (⟨k, n⟩ :: l) = lookup_index cmp x l := by
  rw [lookup_index]
  dsimp only
  rw [if_pos (by omega), if_neg (by omega)]

theorem add_before {x k : α} {m n : Int} {l : List (Mapping α)} (h : cmp x k < 0) :
    add_to_index cmp ⟨x, m⟩ (⟨k, n⟩ :: l) = ⟨x, m⟩ :: ⟨k, n⟩ :: l := by
  rw [add_to_index]
  dsimp only
  rw [if_neg (by omega), if_pos (by omega)]

theorem add_behind {x k : α} {m n : Int} {l : List (Mapping α)} (h : 0 < cmp x k) :
    add_to_index cmp ⟨x, m⟩ (⟨k, n⟩ :: l) = ⟨k, n⟩ :: add_to_index cmp ⟨x, m⟩ l := by
  rw [add_to_index]
  exact if_pos (by dsimp only; omega)

theorem mem_add_to_index {new i : Mapping α} : ∀ {l : List (Mapping α)},
    i ∈ add_to_index cmp new l → i = new ∨ i ∈ l
  | [], h => Or.inl (List.mem_singleton.mp h)
  | j :: l, h => by
    rw [add_to_index] at h
    by_cases h₁ : cmp new.key j.key ≥ 0
    · rw [if_pos h₁] at h
      rcases List.mem_cons.mp h with rfl | h
      · exact Or.inr List.mem_cons_self
      · exact (mem_add_to_index h).imp id (List.mem_cons_of_mem _)
    · rw [if_neg h₁, if_pos (by omega)] at h
      exact (List.mem_cons.mp h).imp id id

theorem add_to_index_mem {new i : Mapping α} : ∀ {l : List (Mapping α)}, i = new ∨ i ∈ l →
    i ∈ add_to_index cmp new l
  | [], h => List.mem_singleton.mpr (h.resolve_right List.not_mem_nil)
  | j :: l, h => by
    rw [add_to_index]
    by_cases h₁ : cmp new.key j.key ≥ 0
    · rw [if_pos h₁]
      rcases h with h | h
      · exact List.mem_cons_of_mem _ (add_to_index_mem (Or.inl h))
      · rcases List.mem_cons.mp h with rfl | h
        · exact List.mem_cons_self
        · exact List.mem_cons_of_mem _ (add_to_index_mem (Or.inr h))
    · rw [if_neg h₁, if_pos (by omega)]
      exact List.mem_cons.mpr h

theorem length_add_to_index (new : Mapping α) : ∀ l : List (Mapping α),
    (add_to_index cmp new l).length = l.length + 1
  | [] => rfl
  | j :: l => by
    rw [add_to_index]
    by_cases h₁ : cmp new.key j.key ≥ 0
    · rw [if_pos h₁, List.length_cons, length_add_to_index new l, List.length_cons]
    · rw [if_neg h₁, if_pos (by omega), List.length_cons]

theorem lookup_some (h : Faithful cmp) {x : α} : ∀ (l : List (Mapping α)),
    lookup_index cmp x l = -1 ∨ ∃ i ∈ l, i.key = x ∧ lookup_index cmp x l = i.idx
  | [] => Or.inl rfl
  | i :: l => by
    rw [lookup_index]
    by_cases h₁ : cmp x i.key ≥ 0
    · rw [if_pos h₁]
      by_cases h₂ : cmp x i.key = 0
      · rw [if_pos h₂]
        exact Or.inr ⟨i, List.mem_cons_self, ((h.zero x i.key).mp h₂).symm, rfl⟩
      · rw [if_neg h₂]
        rcases lookup_some h l with hnone | ⟨j, hj, hkey, heq⟩
        · exact Or.inl hnone
        · exact Or.inr ⟨j, List.mem_cons_of_mem _ hj, hkey, heq⟩
    · rw [if_neg h₁]
      exact Or.inl rfl

theorem ascending_add (hO : Orders cmp S) (h : Faithful cmp) {new : Mapping α} (hnew : S new.key) :
    ∀ {l : List (Mapping α)}, (∀ i ∈ l, S i.key) → (∀ i ∈ l, i.key ≠ new.key) →
      (l.Pairwise fun a b => cmp a.key b.key < 0) →
      (add_to_index cmp new l).Pairwise fun a b => cmp a.key b.key < 0
  | [], _, _, _ => List.pairwise_singleton _ _
  | j :: l, hS, hne, hasc => by
    obtain ⟨hj, hl⟩ := List.pairwise_cons.mp hasc
    rw [add_to_index]
    by_cases h₁ : cmp new.key j.key ≥ 0
    · have h0 : cmp new.key j.key ≠ 0 := fun h0 => hne j List.mem_cons_self ((h.zero _ _).mp h0).symm
      have hlt := h.flip new.key j.key (by omega)
      rw [if_pos h₁]
      refine List.pairwise_cons.mpr ⟨fun i hi => ?_,
        ascending_add hO h hnew (fun i hi => hS i (List.mem_cons_of_mem _ hi))
        (fun i hi => hne i (List.mem_cons_of_mem _ hi)) hl⟩
      rcases mem_add_to_index hi with rfl | hi
      · exact hlt
      · exact hj i hi
    · have hlt : cmp new.key j.key < 0 := by omega
      rw [if_neg h₁, if_pos (by omega)]
      refine List.pairwise_cons.mpr ⟨fun i hi => ?_, hasc⟩
      rcases List.mem_cons.mp hi with rfl | hi
      · exact hlt
      · exact hO.trans _ j.key _ hnew (hS j List.mem_cons_self) (hS i (List.mem_cons_of_mem _ hi)) hlt (hj i hi)

theorem lookup_mem (hO : Orders cmp S) (h : Faithful cmp) {i : Mapping α} :
    ∀ {l : List (Mapping α)}, (∀ j ∈ l, S j.key) → (l.Pairwise fun a b => cmp a.key b.key < 0) → i ∈ l →
      lookup_index cmp i.key l = i.idx
  | [], _, _, hi => absurd hi List.not_mem_nil
  | j :: l, hS, hasc, hi => by
    obtain ⟨hj, hl⟩ := List.pairwise_cons.mp hasc
    rw [lookup_index]
    rcases List.mem_cons.mp hi with rfl | hi
    · have h0 := Faithful.refl h i.key
      rw [if_pos (by omega), if_pos h0]
    · have hlt := hO.flip i.key j.key (hS i (List.mem_cons_of_mem _ hi)) (hS j List.mem_cons_self) (hj i hi)
      rw [if_pos (by omega), if_neg (by omega)]
      exact lookup_mem hO h (fun k hk => hS k (List.mem_cons_of_mem _ hk)) hl hi

end

/-! ## Runs -/

theorem to_int_small {n : Nat} (h : n < 2 ^ 31) : to_int n = n := by
  rw [to_int, BitVec.toInt_eq_toNat_cond, BitVec.toNat_ofNat, Nat.mod_eq_of_lt (by omega), if_pos (by omega)]

theorem to_unsigned_small {n : Nat} (h : n < 2 ^ 32) : to_unsigned n = n := by
  rw [to_unsigned, BitVec.ofInt_natCast, BitVec.toNat_ofNat, Nat.mod_eq_of_lt h]

section
variable {α : Type} [DecidableEq α] {cmp : α → α → Int} {S : α → Prop}

/-- The list after identifiers whose first appearances were `fs`. -/
structure Inv (cmp : α → α → Int) (S : α → Prop) (fs : List α) (l : List (Mapping α)) : Prop where
  inside : ∀ i ∈ l, S i.key
  ascending : l.Pairwise fun a b => cmp a.key b.key < 0
  index : ∀ i ∈ l, i.key ∈ fs ∧ i.idx = fs.idxOf i.key
  complete : ∀ x ∈ fs, ∃ i ∈ l, i.key = x
  length : l.length = fs.length

theorem Inv.known (hO : Orders cmp S) (h : Faithful cmp) {fs : List α} {l : List (Mapping α)}
    (hI : Inv cmp S fs l) {x : α}
    (hx : x ∈ fs) (hsmall : fs.length ≤ 2 ^ 31) : get_index cmp x l = (fs.idxOf x, l) := by
  obtain ⟨i, hi, rfl⟩ := hI.complete x hx
  have hlookup := lookup_mem hO h hI.inside hI.ascending hi
  rw [(hI.index i hi).2] at hlookup
  have hlt := List.idxOf_lt_length_of_mem hx
  rw [get_index, hlookup]
  dsimp only
  rw [if_neg (by omega), to_unsigned_small (by omega)]

omit [DecidableEq α] in
theorem get_index_miss {x : α} {l : List (Mapping α)} (hmiss : lookup_index cmp x l < 0) :
    get_index cmp x l = (to_unsigned (to_int l.length),
      add_to_index cmp { key := x, idx := to_int l.length } l) := by
  rw [get_index]
  dsimp only
  rw [if_pos hmiss]

theorem Inv.unknown (h : Faithful cmp) {fs : List α} {l : List (Mapping α)} (hI : Inv cmp S fs l)
    {x : α} (hx : x ∉ fs) :
    get_index cmp x l = (to_unsigned (to_int fs.length),
      add_to_index cmp { key := x, idx := to_int fs.length } l) := by
  have hlookup : lookup_index cmp x l = -1 := by
    rcases @lookup_some _ cmp h x l with hnone | ⟨i, hi, rfl, -⟩
    · exact hnone
    · exact absurd (hI.index i hi).1 hx
  rw [get_index_miss (by omega), hI.length]

theorem Inv.add (hO : Orders cmp S) (h : Faithful cmp) {fs : List α} {l : List (Mapping α)}
    (hI : Inv cmp S fs l) {x : α}
    (hS : S x) (hx : x ∉ fs) (hsmall : fs.length < 2 ^ 31) :
    Inv cmp S (fs ++ [x]) (add_to_index cmp { key := x, idx := to_int fs.length } l) := by
  have hold : ∀ {i : Mapping α}, i ∈ l → i.key ≠ x := fun hi heq => hx (heq ▸ (hI.index _ hi).1)
  refine ⟨fun i hi => ?_, ascending_add hO h hS hI.inside (fun i hi => hold hi)
    hI.ascending, fun i hi => ?_, fun y hy => ?_, ?_⟩
  · rcases mem_add_to_index hi with rfl | hi
    · exact hS
    · exact hI.inside i hi
  · rcases mem_add_to_index hi with rfl | hi
    · refine ⟨List.mem_append_right _ (List.mem_singleton_self x), ?_⟩
      rw [List.idxOf_append_of_notMem hx, List.idxOf_cons_self, to_int_small hsmall]
      rfl
    · obtain ⟨hmem, hidx⟩ := hI.index i hi
      exact ⟨List.mem_append_left _ hmem, by rw [List.idxOf_append_of_mem hmem, hidx]⟩
  · rcases List.mem_append.mp hy with hy | hy
    · obtain ⟨i, hi, hkey⟩ := hI.complete y hy
      exact ⟨i, add_to_index_mem (Or.inr hi), hkey⟩
    · exact ⟨_, add_to_index_mem (Or.inl rfl), (List.mem_singleton.mp hy).symm⟩
  · rw [length_add_to_index, hI.length, List.length_append, List.length_singleton]

theorem get_indices_eq (hO : Orders cmp S) (h : Faithful cmp) : ∀ {xs fs : List α}
    {l : List (Mapping α)}, Inv cmp S fs l →
    (∀ x ∈ xs, S x) → (grow fs xs).length ≤ 2 ^ 31 →
      get_indices (get_index cmp) xs l = (xs.map fun x => (grow fs xs).idxOf x) ∧
        Inv cmp S (grow fs xs) (lists_after (get_index cmp) xs l)
  | [], _, _, hI, _, _ => ⟨rfl, hI⟩
  | x :: xs, fs, l, hI, hS, hsmall => by
    obtain ⟨t, ht⟩ := grow_prefix (x :: xs) fs
    have hfs : fs.length ≤ 2 ^ 31 := by
      rw [ht, List.length_append] at hsmall
      omega
    have hrest : ∀ y ∈ xs, S y := fun y hy => hS y (List.mem_cons_of_mem _ hy)
    rw [get_indices, lists_after, List.map_cons]
    rw [grow] at hsmall ⊢
    by_cases hx : x ∈ fs
    · rw [if_pos hx] at hsmall ⊢
      obtain ⟨heq, hafter⟩ := get_indices_eq hO h hI hrest hsmall
      rw [hI.known hO h hx hfs, idxOf_grow hx xs, heq]
      exact ⟨rfl, hafter⟩
    · rw [if_neg hx] at hsmall ⊢
      obtain ⟨t', ht'⟩ := grow_prefix xs (fs ++ [x])
      have hlt : fs.length < 2 ^ 31 := by
        rw [ht', List.length_append, List.length_append, List.length_singleton] at hsmall
        omega
      have hmem : x ∈ fs ++ [x] := List.mem_append_right _ (List.mem_singleton_self x)
      obtain ⟨heq, hafter⟩ := get_indices_eq hO h (hI.add hO h (hS x List.mem_cons_self) hx hlt) hrest hsmall
      rw [hI.unknown h hx, idxOf_grow hmem xs, List.idxOf_append_of_notMem hx, List.idxOf_cons_self, heq,
        to_int_small hlt, to_unsigned_small (by omega)]
      rw [to_int_small hlt] at hafter
      exact ⟨rfl, hafter⟩

theorem inv_nil : Inv cmp S [] [] :=
  ⟨fun _ hi => absurd hi List.not_mem_nil, .nil, fun _ hi => absurd hi List.not_mem_nil,
    fun _ hx => absurd hx List.not_mem_nil, rfl⟩

theorem indexed (hO : Orders cmp S) (h : Faithful cmp) (hfew : AtMost (2 ^ 31) S) {xs : List α}
    (hS : ∀ x ∈ xs, S x) :
    Indexed (get_index cmp) xs := by
  refine (get_indices_eq hO h inv_nil hS (hfew _ (grow_nodup xs List.nodup_nil) fun x hx => ?_)).1
  exact hS x ((mem_grow.1 hx).resolve_left List.not_mem_nil)

/-! ## Where indices go wrong -/

omit [DecidableEq α] in
theorem get_indices_append (xs ys : List α) : ∀ l : List (Mapping α),
    get_indices (get_index cmp) (xs ++ ys) l = get_indices (get_index cmp) xs l ++
      get_indices (get_index cmp) ys (lists_after (get_index cmp) xs l) := by
  induction xs with
  | nil => exact fun l => rfl
  | cons x xs ih => exact fun l => congrArg ((get_index cmp x l).1 :: ·) (ih _)

theorem not_indexed_two {a b : α} (h : Faithful cmp) (hab : cmp a b < 0) (hba : cmp b a < 0) :
    ¬ Indexed (get_index cmp) [a, b, a] := by
  have hne : b ≠ a := by
    intro heq
    rw [heq, Faithful.refl h] at hba
    omega
  have h₁ : get_index cmp a [] = (0, [⟨a, 0⟩]) := rfl
  have h₂ : get_index cmp b [⟨a, 0⟩] = (1, [⟨b, 1⟩, ⟨a, 0⟩]) := by
    rw [get_index_miss (by rw [lookup_before hba]; exact neg_one_lt_zero), add_before hba]
    rfl
  have h₃ : (get_index cmp a [⟨b, 1⟩, ⟨a, 0⟩]).1 = 2 := by
    rw [get_index_miss (by rw [lookup_before hab]; exact neg_one_lt_zero)]
    rfl
  intro hindexed
  have hcalc : get_indices (get_index cmp) [a, b, a] [] = [0, 1, 2] := by
    simp only [get_indices, h₁, h₂, h₃]
  have hfirsts : firsts [a, b, a] = [a, b] := by
    simp [firsts, grow, hne]
  rw [Indexed, hcalc, hfirsts] at hindexed
  simp at hindexed

theorem not_indexed_three {a b c : α} (h : Faithful cmp) (hba : 0 < cmp b a) (hbc : cmp b c < 0)
    (hca : cmp c a < 0) :
    ¬ Indexed (get_index cmp) [a, b, c, b] := by
  have hne : ∀ {x y : α}, cmp x y ≠ 0 → x ≠ y := fun hn heq => hn ((h.zero _ _).mpr heq)
  have hab : b ≠ a := hne (by omega)
  have hcb : c ≠ b := (hne (show cmp b c ≠ 0 by omega)).symm
  have hac : c ≠ a := hne (by omega)
  have h₁ : get_index cmp a [] = (0, [⟨a, 0⟩]) := rfl
  have h₂ : get_index cmp b [⟨a, 0⟩] = (1, [⟨a, 0⟩, ⟨b, 1⟩]) := by
    rw [get_index_miss (by rw [lookup_behind hba]; exact neg_one_lt_zero), add_behind hba]
    rfl
  have h₃ : get_index cmp c [⟨a, 0⟩, ⟨b, 1⟩] = (2, [⟨c, 2⟩, ⟨a, 0⟩, ⟨b, 1⟩]) := by
    rw [get_index_miss (by rw [lookup_before hca]; exact neg_one_lt_zero), add_before hca]
    rfl
  have h₄ : (get_index cmp b [⟨c, 2⟩, ⟨a, 0⟩, ⟨b, 1⟩]).1 = 3 := by
    rw [get_index_miss (by rw [lookup_before hbc]; exact neg_one_lt_zero)]
    rfl
  intro hindexed
  have hcalc : get_indices (get_index cmp) [a, b, c, b] [] = [0, 1, 2, 3] := by
    simp only [get_indices, h₁, h₂, h₃, h₄]
  have hfirsts : firsts [a, b, c, b] = [a, b, c] := by
    simp [firsts, grow, hab, hcb, hac]
  rw [Indexed, hcalc, hfirsts] at hindexed
  have hidx : [a, b, c].idxOf b = 1 := by
    rw [List.idxOf_cons_ne _ hab.symm, List.idxOf_cons_self]
  simp only [List.map_cons, List.map_nil, List.cons.injEq, hidx] at hindexed
  omega

theorem to_int_many : to_int (2 ^ 31) < 0 := by decide

theorem not_indexed_many (hO : Orders cmp S) (h : Faithful cmp) {xs : List α} (hS : ∀ x ∈ xs, S x)
    (hnodup : xs.Nodup)
    (hlen : xs.length = 2 ^ 31) {x : α} (hx : x ∉ xs) : ¬ Indexed (get_index cmp) (xs ++ [x, x]) := by
  have hgrow : grow [] xs = xs := grow_new hnodup fun y _ => List.not_mem_nil
  have hI := (get_indices_eq hO h inv_nil hS (by rw [hgrow]; omega)).2
  rw [hgrow] at hI
  have hfirst := hI.unknown h hx
  rw [hlen] at hfirst
  generalize hl : lists_after (get_index cmp) xs [] = l at hI hfirst
  have hsecond : (get_index cmp x (add_to_index cmp { key := x, idx := to_int (2 ^ 31) } l)).1 = 2 ^ 31 + 1 := by
    have hmiss : lookup_index cmp x (add_to_index cmp { key := x, idx := to_int (2 ^ 31) } l) < 0 := by
      rcases @lookup_some _ cmp h x (add_to_index cmp { key := x, idx := to_int (2 ^ 31) } l) with
        hnone | ⟨i, hi, hkey, heq⟩
      · omega
      · rw [heq]
        rcases mem_add_to_index hi with rfl | hi
        · exact to_int_many
        · rw [← hkey] at hx
          exact absurd (hI.index i hi).1 hx
    rw [get_index_miss hmiss, length_add_to_index, hI.length, hlen]
    rfl
  intro hindexed
  rw [Indexed, get_indices_append, hl, List.map_append] at hindexed
  have hlast := (List.append_inj' hindexed rfl).2
  simp only [get_indices, hfirst, hsecond, List.map_cons, List.map_nil, List.cons.injEq, and_true] at hlast
  have hval : to_unsigned (to_int (2 ^ 31)) = 2 ^ 31 := by decide
  rw [hval] at hlast
  omega

theorem indexed_iff (h : Faithful cmp) : (∀ xs : List α, (∀ x ∈ xs, S x) →
    Indexed (get_index cmp) xs) ↔ Orders cmp S ∧ AtMost (2 ^ 31) S := by
  constructor
  · intro hall
    rcases orders_or cmp S h with hO | ⟨a, b, ha, hb, hab, hba⟩ | ⟨a, b, c, ha, hb, hc, hba, hbc, hca⟩
    · refine ⟨hO, fun l hnodup hS => ?_⟩
      by_contra hmany
      have hlt : 2 ^ 31 < l.length := by omega
      have hsplit := List.take_append_drop (2 ^ 31) l
      have hlen : (l.take (2 ^ 31)).length = 2 ^ 31 := by
        rw [List.length_take]
        omega
      obtain ⟨x, rest, hdrop⟩ := List.exists_cons_of_length_pos (show 0 < (l.drop (2 ^ 31)).length by
        rw [List.length_drop]
        omega)
      generalize l.take (2 ^ 31) = xs at hsplit hlen
      rw [hdrop] at hsplit
      rw [← hsplit] at hnodup hS
      have hxs : ∀ y ∈ xs, S y := fun y hy => hS y (List.mem_append_left _ hy)
      have hx : S x := hS x (List.mem_append_right _ List.mem_cons_self)
      obtain ⟨hn, -, hdis⟩ := List.nodup_append.mp hnodup
      refine not_indexed_many hO h hxs hn hlen (fun hmem => hdis x hmem x List.mem_cons_self rfl)
        (hall _ fun y hy => ?_)
      rcases List.mem_append.mp hy with hy | hy
      · exact hxs y hy
      · rw [List.mem_cons, List.mem_singleton, or_self] at hy
        rw [hy]
        exact hx
    · refine absurd (hall [a, b, a] fun x hx => ?_) (not_indexed_two h hab hba)
      simp only [List.mem_cons, List.not_mem_nil, or_false] at hx
      rcases hx with rfl | rfl | rfl <;> assumption
    · refine absurd (hall [a, b, c, b] fun x hx => ?_) (not_indexed_three h hba hbc hca)
      simp only [List.mem_cons, List.not_mem_nil, or_false] at hx
      rcases hx with rfl | rfl | rfl | rfl <;> assumption
  · rintro ⟨hO, hfew⟩ xs hS
    exact indexed hO h hfew hS

end

/-! ## The comparisons -/

theorem compare_u32_faithful : Faithful compare_u32 := by
  refine ⟨fun a b => ?_, fun a b h => ?_⟩
  · rw [compare_u32, ← UInt32.toNat_inj]
    omega
  · unfold compare_u32 at *
    omega

theorem compare_u32_orders (S : UInt32 → Prop) : Orders compare_u32 S := by
  refine ⟨fun a b _ _ h => ?_, fun a b c _ _ _ h₁ h₂ => ?_⟩
  · unfold compare_u32 at *
    omega
  · unfold compare_u32 at *
    omega

theorem int_sub_eq {a b : UInt32} : int_sub a b = 0 ↔ a = b := by
  constructor
  · intro h
    have hzero : (a - b).toBitVec = (0 : UInt32).toBitVec := BitVec.eq_of_toInt_eq h
    exact sub_eq_zero.mp (UInt32.toBitVec_inj.mp hzero)
  · rintro rfl
    rw [int_sub, sub_self]
    rfl

theorem int_sub_flip {a b : UInt32} (h : 0 < int_sub a b) : int_sub b a < 0 := by
  have ha := a.toNat_lt
  have hb := b.toNat_lt
  unfold int_sub at *
  rw [BitVec.toInt_eq_toNat_cond] at *
  simp only [UInt32.toBitVec_sub, BitVec.toNat_sub, UInt32.toNat_toBitVec] at *
  split at h
  · split
    · omega
    · omega
  · split
    · omega
    · omega

theorem compare_hctl_idents_faithful : Faithful compare_hctl_idents := by
  refine ⟨fun a b => ?_, fun a b h => ?_⟩
  · obtain ⟨ah, ac, atg, al⟩ := a
    obtain ⟨bh, bc, btg, bl⟩ := b
    simp only [compare_hctl_idents, HctlIdent.mk.injEq]
    by_cases h₁ : ah = bh
    · rw [if_pos h₁]
      by_cases h₂ : ac = bc
      · rw [if_pos h₂]
        by_cases h₃ : atg = btg
        · rw [if_pos h₃, int_sub_eq]
          exact ⟨fun h => ⟨h₁, h₂, h₃, h⟩, fun h => h.2.2.2⟩
        · rw [if_neg h₃, int_sub_eq]
          exact iff_of_false h₃ fun h => h₃ h.2.2.1
      · rw [if_neg h₂, int_sub_eq]
        exact iff_of_false h₂ fun h => h₂ h.2.1
    · rw [if_neg h₁, int_sub_eq]
      exact iff_of_false h₁ fun h => h₁ h.1
  · simp only [compare_hctl_idents] at h ⊢
    by_cases h₁ : a.host = b.host
    · rw [if_pos h₁] at h
      rw [if_pos h₁.symm]
      by_cases h₂ : a.channel = b.channel
      · rw [if_pos h₂] at h
        rw [if_pos h₂.symm]
        by_cases h₃ : a.target = b.target
        · rw [if_pos h₃] at h
          rw [if_pos h₃.symm]
          exact int_sub_flip h
        · rw [if_neg h₃] at h
          rw [if_neg (Ne.symm h₃)]
          exact int_sub_flip h
      · rw [if_neg h₂] at h
        rw [if_neg (Ne.symm h₂)]
        exact int_sub_flip h
    · rw [if_neg h₁] at h
      rw [if_neg (Ne.symm h₁)]
      exact int_sub_flip h

end Ziomon.Collapser
