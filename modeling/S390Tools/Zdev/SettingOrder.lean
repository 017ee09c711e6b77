import S390Tools.Lib.Insertion
import S390Tools.Zdev.Setting

/-!
# The order of applying settings (zdev/src/setting.c, zdev/src/ccw.c, zdev/src/dasd.c)

Attributes are compared as objects: two attributes may have the same name. Values are what
`atoi` reads of them, as a 32-bit number.
-/

namespace Zdev.Order

structure Setting (A : Type*) where
  attrib : Option A
  name : Text
  value : Text
  modified : Bool := true
  removed : Bool := false

/-- The static number and the callback of each attribute. -/
structure Attribs (A : Type*) where
  order : A → Int
  order_cmp : A → Option (Setting A → Setting A → Int)

variable {A : Type*}

def order_cmp (attribs : Attribs A) (attrib : A) (a b : Setting A) : Int :=
  match attribs.order_cmp attrib with
  | some cmp => cmp a b
  | none => 0

def setting_cmp (attribs : Attribs A) (a b : Setting A) : Int :=
  match a.attrib, b.attrib with
  | some x, some y =>
    if order_cmp attribs x a b ≠ 0 then order_cmp attribs x a b
    else if order_cmp attribs y b a ≠ 0 then -order_cmp attribs y b a
    else if attribs.order x < attribs.order y then -1
    else if attribs.order x > attribs.order y then 1
    else 0
  | _, _ => 0

def add_sorted (attribs : Attribs A) (s : Setting A) : List (Setting A) → List (Setting A)
  | [] => [s]
  | p :: result => if setting_cmp attribs p s > 0 then s :: p :: result else p :: add_sorted attribs s result

def setting_list_get_sorted (attribs : Attribs A) (list : List (Setting A)) : List (Setting A) :=
  list.foldl (fun result s => add_sorted attribs s result) []

/-! ## Applying -/

def EXIT_SETTING_NOT_FOUND : Nat := 7

def write_settings (attrib_path : Text → Option Text) (setting_write : Text → Setting A → Nat) :
    List (Setting A) → Nat × List (Setting A)
  | [] => (0, [])
  | s :: list =>
    if !s.modified || s.removed then write_settings attrib_path setting_write list
    else
      match attrib_path s.name with
      | none => (EXIT_SETTING_NOT_FOUND, [])
      | some path =>
        if setting_write path s ≠ 0 then (setting_write path s, [s])
        else
          let rest := write_settings attrib_path setting_write list
          (rest.1, s :: rest.2)

def device_write_active_settings (attribs : Attribs A) (attrib_path : Text → Option Text)
    (setting_write : Text → Setting A → Nat) (settings : List (Setting A)) : Nat × List (Setting A) :=
  write_settings attrib_path setting_write (setting_list_get_sorted attribs settings)

/-! ## Callbacks -/

def digits (s : Text) : Nat := (s.takeWhile Char.isDigit).foldl (fun n c => 10 * n + (c.toNat - '0'.toNat)) 0

/-- `strtol` stops at the limits of a long, and `atoi` drops the upper half. -/
def atoi (s : Text) : Int :=
  let n : Int :=
    match s.dropWhile isspace with
    | '-' :: s => -digits s
    | '+' :: s => digits s
    | s => digits s
  (max (-2 ^ 63) (min n (2 ^ 63 - 1))).bmod (2 ^ 32)

def is_online (value : Text) : Bool := value = ['f', 'o', 'r', 'c', 'e'] || atoi value = 1

section
variable [DecidableEq A] (ccw_attr_online ccw_attr_online_force : A)

def ccw_online_only_order_cmp (_ b : Setting A) : Int :=
  if b.attrib ≠ some ccw_attr_online ∧ b.attrib ≠ some ccw_attr_online_force then 0
  else if is_online b.value then 1
  else -1

def ccw_offline_only_order_cmp (_ b : Setting A) : Int :=
  if b.attrib ≠ some ccw_attr_online ∧ b.attrib ≠ some ccw_attr_online_force then 0
  else if is_online b.value then -1
  else 1

def dasd_raw_diag_order_cmp (dasd_attr_use_diag dasd_attr_raw_track_access : A) (a b : Setting A) : Int :=
  let offline_only := ccw_offline_only_order_cmp ccw_attr_online ccw_attr_online_force a b
  if (a.attrib = some dasd_attr_use_diag ∧ b.attrib = some dasd_attr_raw_track_access) ∨
      (a.attrib = some dasd_attr_raw_track_access ∧ b.attrib = some dasd_attr_use_diag) then
    if atoi a.value = 1 ∧ atoi b.value = 0 then 1
    else if atoi a.value = 0 ∧ atoi b.value = 1 then -1
    else offline_only
  else offline_only

end

/-! ## DASD attributes -/

inductive DasdAttrib
  | ccw_attr_online | ccw_attr_online_force | ccw_attr_cmb_enable | failfast | readonly | erplog | use_diag
  | raw_track_access | eer_enabled | expires | retries | timeout | reservation_policy
  | last_known_reservation_state | safe_offline
  deriving DecidableEq

open DasdAttrib in
def dasd_attribs : Attribs DasdAttrib where
  order := fun _ => 0
  order_cmp
    | use_diag | raw_track_access =>
      some (dasd_raw_diag_order_cmp ccw_attr_online ccw_attr_online_force use_diag raw_track_access)
    | eer_enabled | expires | retries | timeout =>
      some (ccw_online_only_order_cmp ccw_attr_online ccw_attr_online_force)
    | _ => none

/-! ## Properties -/

section
variable (attribs : Attribs A)

def Required (list : List (Setting A)) (a b : Setting A) : Prop :=
  a ∈ list ∧ b ∈ list ∧ setting_cmp attribs a b < 0

def Acyclic (list : List (Setting A)) : Prop := ∀ a, ¬Relation.TransGen (Required attribs list) a a

/-- Every setting once, and none behind one that it has to precede. -/
def LegalOrder (list sorted : List (Setting A)) : Prop :=
  sorted.Perm list ∧ sorted.Pairwise fun a b => ¬setting_cmp attribs b a < 0

/-- What has to precede `b` also has to precede what `b` is inserted in front of. -/
def Transitive (list : List (Setting A)) : Prop :=
  ∀ a ∈ list, ∀ b ∈ list, ∀ c ∈ list,
    setting_cmp attribs a b < 0 → setting_cmp attribs c b > 0 → setting_cmp attribs a c < 0

variable {attribs}

theorem setting_cmp_zero {a b : Setting A} (h : setting_cmp attribs a b = 0) : setting_cmp attribs b a = 0 := by
  unfold setting_cmp at h ⊢
  cases ha : a.attrib with
  | none => cases b.attrib <;> rfl
  | some x =>
    cases hb : b.attrib with
    | none => rfl
    | some y =>
      rw [ha, hb] at h
      dsimp only at h ⊢
      grind

theorem acyclic_of_rank {list : List (Setting A)} (rank : Setting A → Nat)
    (h : ∀ a ∈ list, ∀ b ∈ list, setting_cmp attribs a b < 0 → rank a < rank b) : Acyclic attribs list := by
  intro a hcycle
  have hrank : ∀ b, Relation.TransGen (Required attribs list) a b → rank a < rank b := by
    intro b hb
    induction hb with
    | single hab => exact h _ hab.1 _ hab.2.1 hab.2.2
    | tail _ hbc ih => exact ih.trans (h _ hbc.1 _ hbc.2.1 hbc.2.2)
  exact Nat.lt_irrefl _ (hrank a hcycle)

theorem Acyclic.irrefl {list : List (Setting A)} (h : Acyclic attribs list) {a : Setting A} (ha : a ∈ list) :
    ¬setting_cmp attribs a a < 0 :=
  fun hlt => h a (.single ⟨ha, ha, hlt⟩)

theorem Acyclic.asymm {list : List (Setting A)} (h : Acyclic attribs list) {a b : Setting A} (ha : a ∈ list)
    (hb : b ∈ list) (hlt : setting_cmp attribs a b < 0) : setting_cmp attribs b a > 0 := by
  have hne : setting_cmp attribs b a ≠ 0 := fun hz => by
    have := setting_cmp_zero hz
    omega
  have hge : ¬setting_cmp attribs b a < 0 := fun hba => h a (.tail (.single ⟨ha, hb, hlt⟩) ⟨hb, ha, hba⟩)
  omega

/-- The order in which settings are inserted, for the search of the first larger element. -/
def Before (attribs : Attribs A) (a b : Setting A) : Prop := setting_cmp attribs b a > 0

instance : DecidableRel (Before attribs) := fun a b => inferInstanceAs (Decidable (setting_cmp attribs b a > 0))

theorem Acyclic.compatible {list : List (Setting A)} (h : Acyclic attribs list) :
    Insertion.Compatible (fun a b => setting_cmp attribs a b < 0) (Before attribs) list where
  le _ ha _ hb hlt := h.asymm ha hb hlt
  strict a _ b _ hlt hgt := by
    have hgt : setting_cmp attribs a b > 0 := hgt
    omega
  only a _ b _ hba := by
    have hba : setting_cmp attribs b a > 0 := hba
    have hne : setting_cmp attribs a b ≠ 0 := fun hz => by
      have := setting_cmp_zero hz
      omega
    rcases Int.lt_or_gt_of_ne hne with hlt | hgt
    · exact .inl hlt
    · exact .inr hgt

theorem add_sorted_eq (s : Setting A) : ∀ result : List (Setting A),
    add_sorted attribs s result = result.orderedInsert (Before attribs) s
  | [] => rfl
  | p :: result => by
    rw [add_sorted, List.orderedInsert_cons, add_sorted_eq s result]
    rfl

theorem get_sorted_eq (list : List (Setting A)) :
    setting_list_get_sorted attribs list = Insertion.insertAll (Before attribs) list := by
  unfold setting_list_get_sorted Insertion.insertAll
  congr 1
  funext result s
  exact add_sorted_eq s result

theorem get_sorted_perm (list : List (Setting A)) : (setting_list_get_sorted attribs list).Perm list := by
  rw [get_sorted_eq]
  exact Insertion.insertAll_perm list

theorem get_sorted_legal {list input : List (Setting A)} (h : Acyclic attribs list)
    (htrans : Transitive attribs list)
    (hinput : input.Perm list) : LegalOrder attribs input (setting_list_get_sorted attribs input) := by
  refine ⟨get_sorted_perm input, ?_⟩
  rw [get_sorted_eq]
  exact (Insertion.legal_iff_passes h.compatible fun a ha => h.irrefl ha).mpr htrans input hinput

/-- All input orders of settings come out right iff the required order leads through everything in between. -/
theorem sorted_legal_iff {list : List (Setting A)} (h : Acyclic attribs list) :
    (∀ input : List (Setting A), input.Perm list →
      LegalOrder attribs input (setting_list_get_sorted attribs input)) ↔
      Transitive attribs list := by
  refine ⟨fun hall => ?_, fun htrans input => get_sorted_legal h htrans⟩
  refine (Insertion.legal_iff_passes h.compatible fun a ha => h.irrefl ha).mp fun input hinput => ?_
  rw [← get_sorted_eq]
  exact (hall input hinput).2

def eer_enabled : Setting DasdAttrib :=
    { attrib := some .eer_enabled, name := "eer_enabled".toList, value := ['1'] }

def use_diag : Setting DasdAttrib := { attrib := some .use_diag, name := "use_diag".toList, value := ['1'] }

def online : Setting DasdAttrib :=
    { attrib := some .ccw_attr_online_force, name := "online".toList, value := ['1'] }

theorem enabling_acyclic : Acyclic dasd_attribs [eer_enabled, use_diag, online] :=
  acyclic_of_rank (fun s => if s.attrib = some .use_diag then 0 else if s.attrib = some .eer_enabled then 2 else 1)
    (by decide)

theorem sorted_legal_iff_enabling :
    (∀ input : List (Setting DasdAttrib), input.Perm [eer_enabled, use_diag, online] →
        LegalOrder dasd_attribs input (setting_list_get_sorted dasd_attribs input)) ↔
      Transitive dasd_attribs [eer_enabled, use_diag, online] :=
  sorted_legal_iff enabling_acyclic

/-- Nothing relates `use_diag` to `eer_enabled`, which `online` is inserted in front of. -/
theorem use_diag_left_behind :
    ¬∀ list : List (Setting DasdAttrib), Acyclic dasd_attribs list →
      LegalOrder dasd_attribs list (setting_list_get_sorted dasd_attribs list) := by
  intro h
  have hsorted : setting_list_get_sorted dasd_attribs [eer_enabled, use_diag, online] =
    [online, eer_enabled, use_diag] :=
    by rfl
  obtain ⟨_, hlegal⟩ := h _ enabling_acyclic
  rw [hsorted] at hlegal
  have hbefore : ¬setting_cmp dasd_attribs use_diag online < 0 :=
    (List.pairwise_cons.mp hlegal).1 use_diag (.tail _ (.head _))
  exact hbefore (by decide)

/-! ## What is written -/

theorem written_sublist (attrib_path : Text → Option Text) (setting_write : Text → Setting A → Nat) :
    ∀ list : List (Setting A), (write_settings attrib_path setting_write list).2.Sublist list
  | [] => .slnil
  | s :: list => by
    have ih := written_sublist attrib_path setting_write list
    rw [write_settings]
    by_cases hskip : (!s.modified || s.removed) = true
    · rw [if_pos hskip]
      exact ih.cons s
    · rw [if_neg hskip]
      cases attrib_path s.name with
      | none => exact List.nil_sublist _
      | some path =>
        dsimp only
        by_cases hrc : setting_write path s ≠ 0
        · rw [if_pos hrc]
          exact (List.nil_sublist list).cons_cons s
        · rw [if_neg hrc]
          exact ih.cons_cons s

theorem active_settings_legal {settings : List (Setting A)} (hacyc : Acyclic attribs settings)
    (htrans : Transitive attribs settings) (attrib_path : Text → Option Text)
    (setting_write : Text → Setting A → Nat) :
    (device_write_active_settings attribs attrib_path setting_write settings).2.Pairwise
      fun a b => ¬setting_cmp attribs b a < 0 :=
  (get_sorted_legal hacyc htrans (.refl settings)).2.sublist (written_sublist attrib_path setting_write _)

end

theorem active_settings_legal_diag :
    (device_write_active_settings dasd_attribs some (fun _ _ => 0) [online, use_diag]).2.Pairwise
      fun a b => ¬setting_cmp dasd_attribs b a < 0 :=
  active_settings_legal (acyclic_of_rank (fun s => if s.attrib = some .use_diag then 0 else 1) (by decide))
    (by unfold Transitive; decide) some fun _ _ => 0

end Zdev.Order
