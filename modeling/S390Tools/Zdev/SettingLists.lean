import S390Tools.Lib.Keyed
import S390Tools.Lib.Run
import S390Tools.Zdev.Setting

/-!
# Lists of settings (zdev/src/setting.c)

Each name has one attribute definition or none. A list that is merged into itself reads
values that it has freed, except where nothing is to be changed.
-/

namespace Zdev.SettingList

section
variable (vasprintf : Text → Option Text) (defs : Text → Option Attrib)

/-- The calls, on lists with numbers. The attributes with defaults are the definitions of their names. -/
inductive Op
  | apply (i : Nat) (name value : Text)
  | apply_specified (i : Nat) (name value : Text)
  | apply_actual (i : Nat) (name value : Text)
  | apply_defaults (i : Nat) (attribs : List {a : Attrib // defs a.name = some a}) (mand_only : Bool)
  | merge (to_list from_list : Nat) (specified modified : Bool)
  | map_values (i : Nat)
  | remove_derived (i : Nat)

abbrev Lists := Nat → List Setting

def initial : Lists := fun _ => []

def step (w : Lists) : Op defs → Option Lists
  | .apply i name value => (setting_list_apply vasprintf (w i) (defs name) name value).map (Function.update w i)
  | .apply_specified i name value =>
    (setting_list_apply_specified vasprintf (w i) (defs name) name value).map (Function.update w i)
  | .apply_actual i name value =>
    (setting_list_apply_actual vasprintf (w i) (defs name) name value).map (Function.update w i)
  | .apply_defaults i attribs mand_only =>
    (setting_list_apply_defaults vasprintf (w i) (attribs.map Subtype.val) mand_only).map (Function.update w i)
  | .merge i j specified modified =>
    if i = j && (w j).any fun s => !is_rewrite s s.value then none
    else (setting_list_merge vasprintf (w i) (w j) specified modified).map (Function.update w i)
  | .map_values i => some (Function.update w i (setting_list_map_values (w i)))
  | .remove_derived i => some (Function.update w i (setting_list_remove_derived (w i)))

end

/-! ## What the lists should be -/

def lines (value : Text) : List Text :=
  (value.splitOn '\n').filter (· ≠ [])

section
variable (defs : Text → Option Attrib)

structure Sound (s : Setting) : Prop where
  attrib : s.attrib = defs s.name
  values : s.values = if is_multi s.attrib then some (lines s.value) else none

structure Consistent (list : List Setting) : Prop where
  names : (list.map Setting.name).Nodup
  sound : ∀ s ∈ list, Sound defs s

end

/-- What a merge makes of a setting `s`, if `old` was there. -/
structure Takes (specified modified : Bool) (old : Option Setting) (s n : Setting) : Prop where
  single : is_multi s.attrib = false → n.value = s.value
  multi : is_multi s.attrib = true → s.attrib.any (·.rewrite) = false → (∀ o ∈ old, o.derived = false) →
    n.values = some ((old.bind (·.values)).getD [] ++
      (s.values.getD []).filter fun v => v ∉ (old.bind (·.values)).getD [])
  specified : specified = true → n.specified = s.specified
  modified : modified = true → n.modified = s.modified

structure Merged (specified modified : Bool) (to_list from_list merged : List Setting) : Prop where
  taken : ∀ s ∈ from_list, ∃ n, setting_list_find merged s.name = some n ∧
    Takes specified modified (setting_list_find to_list s.name) s n
  other : ∀ name, name ∉ from_list.map Setting.name →
    setting_list_find merged name = setting_list_find to_list name

/-! ## The condition -/

/-- A value that is one entry as it is, and as a format. -/
def Entry (value : Text) : Prop := value ≠ [] ∧ '\n' ∉ value ∧ '%' ∉ value

instance (value : Text) : Decidable (Entry value) := inferInstanceAs (Decidable (_ ∧ _ ∧ _))

/-- Only single entries are added to a setting with values. -/
def Accepts (old : Option Setting) (value : Text) : Prop :=
  ∀ n ∈ old, is_rewrite n value = true ∨ is_multi n.attrib = false ∨ Entry value

/-- The flag of a setting that is changed or added is set, and that of one that is left is the same. -/
def SameModified (old : Option Setting) (s : Setting) : Prop :=
  ((∀ n ∈ old, is_rewrite n s.value = false) → s.modified = true) ∧
    ∀ n ∈ old, is_rewrite n s.value = true → n.modified = s.modified

def Fine {defs : Text → Option Attrib} (w : Lists) : Op defs → Prop
  | .apply i name value => Accepts (setting_list_find (w i) name) value
  | .apply_specified i name value => Accepts (setting_list_find (w i) name) value
  | .apply_actual i name value => Accepts (setting_list_find (w i) name) value
  | .apply_defaults _ _ _ => True
  | .merge i j _ modified =>
    (i = j → ∀ s ∈ w j, is_rewrite s s.value = true) ∧
      ∀ s ∈ w j, Accepts (setting_list_find (w i) s.name) s.value ∧
        (modified = true → SameModified (setting_list_find (w i) s.name) s)
  | .map_values i => ∀ s ∈ w i, is_multi s.attrib = true →
      ∀ value ∈ s.attrib.bind (attrib_map_value · s.value), lines value = lines s.value
  | .remove_derived _ => True

/-! ## Lines -/

theorem strlist_add_multi_eq (value : Text) : strlist_add_multi [] value '\n' false = lines value := by
  rw [strlist_add_multi, List.nil_append, lines]
  refine List.filter_congr fun v _ => ?_
  cases v <;> rfl

theorem lines_entry {value : Text} (h : Entry value) : lines value = [value] := by
  rw [lines, List.splitOn_eq_singleton h.2.1, List.filter_cons_of_pos (by simpa using h.1)]
  rfl

theorem lines_joined (old value : Text) :
    lines (old ++ (if old = [] then [] else ['\n']) ++ value) = lines old ++ lines value := by
  by_cases h : old = []
  · subst h
    rfl
  · rw [if_neg h, List.append_assoc, List.singleton_append, lines, List.splitOn_append_cons_self,
      List.filter_append]
    rfl

theorem mem_split {v : Text} : ∀ {value : Text}, v ∈ value.splitOn '\n' → '\n' ∉ v
  | [], h => by
    rw [List.splitOn_nil, List.mem_singleton] at h
    rw [h]
    exact List.not_mem_nil
  | c :: value, h => by
    have ih : ∀ v ∈ value.splitOn '\n', '\n' ∉ v := fun v hv => mem_split hv
    rw [List.splitOn_cons_eq_if_modifyHead] at h
    by_cases hc : (c == '\n') = true
    · rw [if_pos hc] at h
      rcases List.mem_cons.mp h with rfl | h
      · exact List.not_mem_nil
      · exact ih v h
    · rw [if_neg hc] at h
      cases hsplit : value.splitOn '\n' with
      | nil => exact absurd hsplit (List.splitOn_ne_nil _ _)
      | cons w ws =>
        rw [hsplit, List.modifyHead_cons] at h
        rw [hsplit] at ih
        rcases List.mem_cons.mp h with rfl | h
        · rw [List.mem_cons, not_or]
          exact ⟨fun e => hc (by rw [← e]; rfl), ih w List.mem_cons_self⟩
        · exact ih v (List.mem_cons_of_mem _ h)

theorem lines_of_mem {v value : Text} (h : v ∈ lines value) : lines v = [v] := by
  obtain ⟨hv, hne⟩ := List.mem_filter.mp h
  rw [lines, List.splitOn_eq_singleton (mem_split hv), List.filter_cons_of_pos (by simpa using hne)]
  rfl

/-! ## One setting -/

section
variable {vasprintf : Text → Option Text} {defs : Text → Option Attrib}

theorem new_sound (name value : Text) (modified : Bool) :
    Sound defs { setting_new (defs name) name value with modified := modified } where
  attrib := rfl
  values := by
    simp only [setting_new, strlist_add_multi_eq]

variable (hplain : ∀ s, '%' ∉ s → vasprintf s = some s)

include hplain in
theorem mod_value_cases {s : Setting} (hs : Sound defs s) {value : Text} (h : Accepts (some s) value) :
    (is_rewrite s value = true ∧ setting_mod_value vasprintf s value = some s) ∨
    (is_rewrite s value = false ∧ is_multi s.attrib = false ∧
      setting_mod_value vasprintf s value = some { s with value, modified := true, removed := false }) ∨
    (is_rewrite s value = false ∧ is_multi s.attrib = true ∧ Entry value ∧
      setting_mod_value vasprintf s value =
        some { s with value := s.value ++ (if s.value = [] then [] else ['\n']) ++ value,
                      values := some (lines s.value ++ [value]), modified := true, removed := false }) := by
  rw [setting_mod_value]
  by_cases hr : is_rewrite s value = true
  · exact .inl ⟨hr, if_pos hr⟩
  · rw [if_neg hr]
    rw [Bool.not_eq_true] at hr
    have hvalues := hs.values
    by_cases hm : is_multi s.attrib = true
    · rw [if_pos hm] at hvalues
      have hentry : Entry value := by
        rcases h s rfl with h | h | h
        · rw [hr] at h
          cases h
        · rw [hm] at h
          cases h
        · exact h
      refine .inr (.inr ⟨hr, hm, hentry, ?_⟩)
      rw [hvalues]
      simp only [strlist_add, hplain value hentry.2.2, Option.map_some]
    · rw [if_neg hm] at hvalues
      refine .inr (.inl ⟨hr, by simpa using hm, ?_⟩)
      rw [hvalues]

include hplain in
theorem mod_value_sound {s : Setting} (hs : Sound defs s) {value : Text} (h : Accepts (some s) value) :
    ∃ n, setting_mod_value vasprintf s value = some n ∧ Sound defs n ∧ n.name = s.name := by
  rcases mod_value_cases hplain hs h with ⟨-, he⟩ | ⟨-, hm, he⟩ | ⟨-, hm, hentry, he⟩
  · exact ⟨s, he, hs, rfl⟩
  · have hvalues := hs.values
    rw [if_neg (by simp [hm])] at hvalues
    exact ⟨_, he, ⟨hs.attrib, by simp [hm, hvalues]⟩, rfl⟩
  · refine ⟨_, he, ⟨hs.attrib, ?_⟩, rfl⟩
    simp only [hm, if_true, lines_joined, lines_entry hentry]

theorem mod_value_name {s n : Setting} {value : Text} (h : setting_mod_value vasprintf s value = some n) :
    n.name = s.name := by
  rw [setting_mod_value] at h
  by_cases hr : is_rewrite s value = true
  · rw [if_pos hr] at h
    cases h
    rfl
  · rw [if_neg hr] at h
    cases hv : s.values with
    | none =>
      rw [hv] at h
      cases h
      rfl
    | some values =>
      rw [hv] at h
      obtain ⟨values', -, rfl⟩ := Option.map_eq_some_iff.mp h
      rfl

/-! ## Adding a setting -/

def added (vasprintf : Text → Option Text) (attrib : Option Attrib) (name value : Text) (new_modified : Bool)
    (touch : Setting → Setting) (old : Option Setting) : Option Setting :=
  old.elim (some (touch { setting_new attrib name value with modified := new_modified }))
    fun s => (setting_mod_value vasprintf s value).map touch

section
variable {attrib : Option Attrib} {name value : Text} (new_modified : Bool) {touch : Setting → Setting}

theorem add_setting_eq : ∀ list : List Setting, add_setting vasprintf attrib name value new_modified touch list =
    Keyed.upsert Setting.name name (touch { setting_new attrib name value with modified := new_modified })
      (fun s => (setting_mod_value vasprintf s value).map touch) list
  | [] => rfl
  | s :: list => by
    rw [add_setting, Keyed.upsert, add_setting_eq list, Option.map_map]
    rfl

variable (hname : ∀ s, (touch s).name = s.name)

include hname in
theorem add_setting_at : Keyed.At Setting.name name (added vasprintf attrib name value new_modified touch)
    (add_setting vasprintf attrib name value new_modified touch) := by
  rw [show add_setting vasprintf attrib name value new_modified touch = _ from
    funext (add_setting_eq new_modified)]
  refine Keyed.upsert_at Setting.name (hname _) fun s n h => ?_
  obtain ⟨n', hn', rfl⟩ := Option.map_eq_some_iff.mp h
  rw [hname, mod_value_name hn']

include hplain hname in
theorem added_sound (hsound : ∀ s, Sound defs s → Sound defs (touch s)) {old : Option Setting}
    (hold : ∀ s ∈ old, Sound defs s ∧ s.name = name) (h : Accepts old value) :
    ∃ n, added vasprintf (defs name) name value new_modified touch old = some n ∧ Sound defs n ∧ n.name = name := by
  cases old with
  | none => exact ⟨_, rfl, hsound _ (new_sound name value new_modified), hname _⟩
  | some s =>
    obtain ⟨n, hn, hns, hnn⟩ := mod_value_sound hplain (hold s rfl).1 h
    refine ⟨touch n, ?_, hsound n hns, ?_⟩
    · rw [added, Option.elim_some, hn, Option.map_some]
    · rw [hname, hnn, (hold s rfl).2]

end

/-! ## One list -/

theorem Consistent.found {list : List Setting} (hc : Consistent defs list) (name : Text) :
    ∀ s ∈ setting_list_find list name, Sound defs s ∧ s.name = name :=
  fun s hs => ⟨hc.sound s (Keyed.mem_of_get Setting.name hs), Keyed.key_of_get Setting.name hs⟩

theorem consistent_of_found {list : List Setting} (hn : (list.map Setting.name).Nodup)
    (h : ∀ name, ∀ s ∈ setting_list_find list name, Sound defs s) : Consistent defs list :=
  ⟨hn, (Keyed.forall_mem_iff Setting.name hn _).mpr h⟩

theorem Consistent.step {list : List Setting} (hc : Consistent defs list) {name : Text}
    {r : Option Setting → Option Setting} {op : List Setting → Option (List Setting)}
    (hat : Keyed.At Setting.name name r op) {n : Setting} (hn : r (setting_list_find list name) = some n)
    (hsound : Sound defs n) : ∃ list', op list = some list' ∧ Consistent defs list' := by
  obtain ⟨list', hop, hnodup, hself, hother⟩ := hat list hc.names n hn
  refine ⟨list', hop, consistent_of_found hnodup fun name' s hs => ?_⟩
  by_cases hname : name' = name
  · subst hname
    cases hself.symm.trans hs
    exact hsound
  · exact (hc.found name' s ((hother name' hname).symm.trans hs)).1

include hplain in
theorem add_setting_consistent {list : List Setting} (hc : Consistent defs list) {name value : Text}
    {new_modified : Bool} {touch : Setting → Setting} (hname : ∀ s, (touch s).name = s.name)
    (hsound : ∀ s, Sound defs s → Sound defs (touch s)) (h : Accepts (setting_list_find list name) value) :
    ∃ list', add_setting vasprintf (defs name) name value new_modified touch list = some list' ∧
      Consistent defs list' := by
  obtain ⟨n, hn, hns, -⟩ := added_sound hplain new_modified hname hsound (hc.found name) h
  exact hc.step (add_setting_at new_modified hname) hn hns

include hplain in
theorem apply_default_consistent (mand_only : Bool) {list : List Setting} (hc : Consistent defs list) {a : Attrib}
    (ha : defs a.name = some a) : ∃ list', apply_default vasprintf mand_only list a = some list' ∧
      Consistent defs list' := by
  rw [apply_default]
  cases hd : a.defval with
  | none => exact ⟨list, rfl, hc⟩
  | some defval =>
    simp only
    by_cases hm : (mand_only && !a.mandatory) = true
    · exact ⟨list, if_pos hm, hc⟩
    · rw [if_neg hm]
      by_cases hf : (setting_list_find list a.name).isSome = true
      · exact ⟨list, if_pos hf, hc⟩
      · rw [if_neg hf, ← ha]
        refine add_setting_consistent hplain hc (fun s => rfl) (fun s hs => ⟨hs.attrib, hs.values⟩) fun n hn => ?_
        rw [Option.not_isSome_iff_eq_none.mp hf] at hn
        cases hn

include hplain in
theorem apply_defaults_consistent (mand_only : Bool) : ∀ (attribs : List {a : Attrib // defs a.name = some a})
    {list : List Setting}, Consistent defs list →
      ∃ list', setting_list_apply_defaults vasprintf list (attribs.map Subtype.val) mand_only = some list' ∧
        Consistent defs list'
  | [], list, hc => ⟨list, rfl, hc⟩
  | a :: attribs, list, hc => by
    obtain ⟨list₁, h₁, hc₁⟩ := apply_default_consistent hplain mand_only hc a.2
    obtain ⟨list', h', hc'⟩ := apply_defaults_consistent mand_only attribs hc₁
    refine ⟨list', ?_, hc'⟩
    rw [setting_list_apply_defaults, List.map_cons, List.foldlM_cons, h₁]
    exact h'

theorem map_value_name (s : Setting) : (map_value s).name = s.name := by
  rw [map_value]
  cases s.attrib.bind (attrib_map_value · s.value) <;> rfl

theorem map_values_consistent {list : List Setting} (hc : Consistent defs list)
    (h : ∀ s ∈ list, is_multi s.attrib = true →
      ∀ value ∈ s.attrib.bind (attrib_map_value · s.value), lines value = lines s.value) :
    Consistent defs (setting_list_map_values list) := by
  refine ⟨?_, fun n hn => ?_⟩
  · rw [setting_list_map_values, List.map_map, show Setting.name ∘ map_value =
      Setting.name from funext map_value_name]
    exact hc.names
  · obtain ⟨s, hs, rfl⟩ := List.mem_map.mp hn
    have hsound := hc.sound s hs
    rw [map_value]
    cases hv : s.attrib.bind (attrib_map_value · s.value) with
    | none => exact hsound
    | some value =>
      refine ⟨hsound.attrib, hsound.values.trans ?_⟩
      by_cases hm : is_multi s.attrib = true
      · simp only [hm, if_true, h s hs hm value hv]
      · simp only [if_neg hm]

theorem remove_derived_consistent {list : List Setting} (hc : Consistent defs list) :
    Consistent defs (setting_list_remove_derived list) :=
  ⟨hc.names.sublist (List.filter_sublist.map _), fun s hs => hc.sound s (List.mem_of_mem_filter hs)⟩

/-! ## Merging -/

section
variable (specified modified : Bool)

theorem copy_flags_eq (s n : Setting) : copy_flags specified modified s n =
    { n with specified := if specified = true then s.specified else n.specified } := by
  cases specified <;> cases modified <;> rfl

theorem copy_flags_sound {s n : Setting} (h : Sound defs n) : Sound defs (copy_flags specified modified s n) := by
  rw [copy_flags_eq]
  exact ⟨h.attrib, h.values⟩

def merged (vasprintf : Text → Option Text) (s : Setting) : Option Setting → Option Setting :=
  added vasprintf s.attrib s.name s.value true (copy_flags specified modified s)

theorem filter_new {olds : List Text} {value : Text} (h : value ∉ olds) :
    [value].filter (fun v => v ∉ olds) = [value] := by
  rw [List.filter_cons_of_pos (by simpa using h)]
  rfl

theorem rewrite_single {o : Setting} {value : Text} (ho : o.values = none) (h : is_rewrite o value = true) :
    o.value = value := by
  rw [is_rewrite, ho, Bool.and_eq_true] at h
  simpa using h.2

theorem rewrite_multi {o : Setting} {value : Text} {olds : List Text} (ho : o.values = some olds) :
    is_rewrite o value = true ↔ o.derived = false ∧ o.attrib.any (fun a => !a.rewrite) = true ∧ value ∈ olds := by
  rw [is_rewrite, ho, Bool.and_eq_true, Bool.and_eq_true, and_assoc]
  simp [strlist_find]

theorem takes_left {s o : Setting} (hs : Sound defs s) (ho : Sound defs o) (hattrib : s.attrib = o.attrib)
    (hr : is_rewrite o s.value = true) (hmod : modified = true → o.modified = s.modified) :
    Takes specified modified (some o) s (copy_flags specified modified s o) := by
  rw [copy_flags_eq]
  refine ⟨fun hm => ?_, fun hm _ _ => ?_, fun hsp => if_pos hsp, hmod⟩
  · have hov := ho.values
    rw [if_neg (by rw [← hattrib, hm]; exact Bool.false_ne_true)] at hov
    exact rewrite_single hov hr
  · have hov := ho.values
    have hsv := hs.values
    rw [if_pos (hattrib ▸ hm)] at hov
    rw [if_pos hm] at hsv
    have hmem := ((rewrite_multi hov).mp hr).2.2
    simp only [Option.bind_some, hov, hsv, Option.getD_some, lines_of_mem hmem]
    rw [List.filter_cons_of_neg (by simpa using hmem), List.filter_nil, List.append_nil]

theorem takes_replaced {s o : Setting} (hattrib : s.attrib = o.attrib) (hm : is_multi o.attrib = false)
    (hmod : modified = true → s.modified = true) :
    Takes specified modified (some o) s
      (copy_flags specified modified s { o with value := s.value, modified := true, removed := false }) := by
  rw [copy_flags_eq]
  refine ⟨fun _ => rfl, fun h _ _ => ?_, fun hsp => if_pos hsp, fun hmd => (hmod hmd).symm⟩
  rw [hattrib, hm] at h
  cases h

theorem takes_extended {s o : Setting} (hs : Sound defs s) (ho : Sound defs o) (hattrib : s.attrib = o.attrib)
    (hr : is_rewrite o s.value = false) (hm : is_multi o.attrib = true) (hentry : Entry s.value) (value : Text)
    (hmod : modified = true → s.modified = true) :
    Takes specified modified (some o) s (copy_flags specified modified s
      { o with
        value := value, values := some (lines o.value ++ [s.value]), modified := true, removed := false }) := by
  rw [copy_flags_eq]
  refine ⟨fun h => ?_, fun _ hrw hder => ?_, fun hsp => if_pos hsp, fun hmd => (hmod hmd).symm⟩
  · rw [hattrib, hm] at h
    cases h
  · have hov := ho.values
    have hsv := hs.values
    rw [if_pos hm] at hov
    rw [if_pos (hattrib ▸ hm)] at hsv
    have hkeeps : o.attrib.any (fun a => !a.rewrite) = true := by
      rw [hattrib] at hrw
      cases ha : o.attrib with
      | none =>
        rw [ha] at hm
        cases hm
      | some a =>
        rw [ha, Option.any_some] at hrw
        rw [Option.any_some, hrw]
        rfl
    have hnew : s.value ∉ lines o.value := fun hmem => by
      rw [(rewrite_multi hov).mpr ⟨hder o rfl, hkeeps, hmem⟩] at hr
      cases hr
    simp only [Option.bind_some, hov, hsv, Option.getD_some, lines_entry hentry, filter_new hnew]

include hplain in
theorem merged_takes {s : Setting} (hs : Sound defs s) {old : Option Setting}
    (hold : ∀ n ∈ old, Sound defs n ∧ n.name = s.name) (h : Accepts old s.value)
    (hmod : modified = true → SameModified old s) :
    ∃ n, merged specified modified vasprintf s old = some n ∧ Takes specified modified old s n := by
  cases old with
  | none =>
    refine ⟨_, rfl, ?_⟩
    rw [copy_flags_eq]
    refine ⟨fun _ => rfl, fun hm _ _ => ?_, fun hsp => if_pos hsp, fun hmd => ?_⟩
    · have hvalues := hs.values
      rw [if_pos hm] at hvalues
      simp only [setting_new, hm, if_true, strlist_add_multi_eq, hvalues, Option.bind_none, Option.getD_none,
        Option.getD_some, List.nil_append, List.not_mem_nil, not_false_eq_true, decide_true, List.filter_true]
    · exact ((hmod hmd).1 fun n hn => by cases hn).symm
  | some o =>
    obtain ⟨ho, hname⟩ := hold o rfl
    have hattrib : s.attrib = o.attrib := by rw [hs.attrib, ho.attrib, hname]
    have hchanged : is_rewrite o s.value = false → modified = true → s.modified = true := fun hr hmd =>
      (hmod hmd).1 fun n hn => by
        cases hn
        exact hr
    rcases mod_value_cases hplain ho h with ⟨hr, he⟩ | ⟨hr, hm, he⟩ | ⟨hr, hm, hentry, he⟩
    · refine ⟨_, by rw [merged, added, Option.elim_some, he]; rfl, ?_⟩
      exact takes_left specified modified hs ho hattrib hr fun hmd => (hmod hmd).2 o rfl hr
    · refine ⟨_, by rw [merged, added, Option.elim_some, he]; rfl, ?_⟩
      exact takes_replaced specified modified hattrib hm (hchanged hr)
    · refine ⟨_, by rw [merged, added, Option.elim_some, he]; rfl, ?_⟩
      exact takes_extended specified modified hs ho hattrib hr hm hentry _ (hchanged hr)

include hplain in
theorem merge_consistent {to_list from_list : List Setting} (hto : Consistent defs to_list)
    (hfrom : Consistent defs from_list) (hacc : ∀ s ∈ from_list, Accepts (setting_list_find to_list s.name) s.value)
    (hmod : ∀ s ∈ from_list, modified = true → SameModified (setting_list_find to_list s.name) s) :
    ∃ list, setting_list_merge vasprintf to_list from_list specified modified = some list ∧ Consistent defs list ∧
      Merged specified modified to_list from_list list := by
  have hname : ∀ s n, (copy_flags specified modified s n).name = n.name := fun s n => by rw [copy_flags_eq]
  have hadded : ∀ s ∈ from_list, ∃ n,
    merged specified modified vasprintf s (setting_list_find to_list s.name) = some n ∧
      Sound defs n := fun s hs => by
    have hsound := hfrom.sound s hs
    obtain ⟨n, hn, hns, -⟩ := added_sound hplain true (hname s) (fun n => copy_flags_sound specified modified)
      (hto.found s.name) (hacc s hs)
    exact ⟨n, by rw [merged, hsound.attrib]; exact hn, hns⟩
  obtain ⟨list, hmerge, hnodup, htaken, hother⟩ := Keyed.foldlM_at Setting.name hfrom.names
    (r := merged specified modified vasprintf) (fun s _ => add_setting_at true (hname s)) hto.names fun s hs => by
      obtain ⟨n, hn, -⟩ := hadded s hs
      exact Option.isSome_of_eq_some hn
  refine ⟨list, hmerge, consistent_of_found hnodup fun name n hn => ?_, ⟨fun s hs => ?_, hother⟩⟩
  · by_cases hmem : name ∈ from_list.map Setting.name
    · obtain ⟨s, hs, rfl⟩ := List.mem_map.mp hmem
      obtain ⟨n', hn', hsound⟩ := hadded s hs
      rw [show setting_list_find list s.name = _ from htaken s hs] at hn
      cases hn'.symm.trans hn
      exact hsound
    · exact (hto.found name n ((hother name hmem).symm.trans hn)).1
  · obtain ⟨n, hn, htakes⟩ := merged_takes hplain specified modified (hfrom.sound s hs)
      (hto.found s.name) (hacc s hs)
      (hmod s hs)
    exact ⟨n, (htaken s hs).trans hn, htakes⟩

end

/-! ## All lists -/

theorem update_consistent {w : Lists} (hw : ∀ i, Consistent defs (w i)) {list : List Setting}
    (hc : Consistent defs list) (i : Nat) : ∀ j, Consistent defs (Function.update w i list j) := by
  intro j
  by_cases h : j = i
  · subst h
    rwa [Function.update_self]
  · rw [Function.update_of_ne h]
    exact hw j

theorem update_step {w : Lists} (hw : ∀ i, Consistent defs (w i)) {r : Option (List Setting)} (i : Nat)
    (hr : ∃ list, r = some list ∧ Consistent defs list) :
    ∃ w', r.map (Function.update w i) = some w' ∧ ∀ j, Consistent defs (w' j) := by
  obtain ⟨list, rfl, hc⟩ := hr
  exact ⟨_, rfl, update_consistent hw hc i⟩

theorem not_freed {w : Lists} {i j : Nat} (h : i = j → ∀ s ∈ w j, is_rewrite s s.value = true) :
    (i = j && (w j).any fun s => !is_rewrite s s.value) = false := by
  by_cases hij : i = j
  · rw [decide_eq_true hij, Bool.true_and, List.any_eq_false]
    intro s hs
    rw [h hij s hs]
    exact Bool.false_ne_true
  · rw [decide_eq_false hij, Bool.false_and]

include hplain in
theorem merge_step {w : Lists} (hw : ∀ i, Consistent defs (w i)) {i j : Nat} {specified modified : Bool}
    (hfine : Fine w (.merge i j specified modified : Op defs)) :
    ∃ w', step vasprintf defs w (.merge i j specified modified) = some w' ∧ (∀ k, Consistent defs (w' k)) ∧
      Merged specified modified (w i) (w j) (w' i) ∧ ∀ k, k ≠ i → w' k = w k := by
  obtain ⟨list, hmerge, hc, hmerged⟩ := merge_consistent hplain specified modified (hw i) (hw j)
    (fun s hs => (hfine.2 s hs).1) fun s hs => (hfine.2 s hs).2
  refine ⟨Function.update w i list, ?_, update_consistent hw hc i, ?_, fun k hk => Function.update_of_ne hk _ _⟩
  · rw [step, not_freed hfine.1, if_neg Bool.false_ne_true, hmerge]
    rfl
  · rwa [Function.update_self]

include hplain in
theorem step_consistent {w : Lists} (hw : ∀ i, Consistent defs (w i)) : ∀ op : Op defs, Fine w op →
    ∃ w', step vasprintf defs w op = some w' ∧ ∀ i, Consistent defs (w' i)
  | .apply i _ _, h =>
    update_step hw i (add_setting_consistent hplain (hw i) (fun _ => rfl) (fun _ hs => hs) h)
  | .apply_specified i _ _, h =>
    update_step hw i (add_setting_consistent hplain (hw i) (fun _ => rfl) (fun _ hs => ⟨hs.attrib, hs.values⟩) h)
  | .apply_actual i _ _, h =>
    update_step hw i (add_setting_consistent hplain (hw i) (fun _ => rfl) (fun _ hs => ⟨hs.attrib, hs.values⟩) h)
  | .apply_defaults i attribs mand_only, _ =>
    update_step hw i (apply_defaults_consistent hplain mand_only attribs (hw i))
  | .merge _ _ _ _, h => by
    obtain ⟨w', hw', hc, -⟩ := merge_step hplain hw h
    exact ⟨w', hw', hc⟩
  | .map_values i, h => ⟨_, rfl, update_consistent hw (map_values_consistent (hw i) h) i⟩
  | .remove_derived i, _ => ⟨_, rfl, update_consistent hw (remove_derived_consistent (hw i)) i⟩

theorem initial_consistent (i : Nat) : Consistent defs (initial i) :=
  ⟨List.nodup_nil, fun _ hs => absurd hs List.not_mem_nil⟩

include hplain in
/-- Where only single entries are added to settings with values, mapped values keep their lines and merged
flags agree, every list that is reached is consistent and every merge takes the settings over. -/
theorem lists_consistent (ops : List (Op defs)) (hadm : Run.Admissible (step vasprintf defs) Fine initial ops) :
    ∃ w, Run.exec (step vasprintf defs) initial ops = some w ∧ (∀ i, Consistent defs (w i)) ∧
      ∀ i j specified modified, Fine w (.merge i j specified modified : Op defs) →
        ∃ w', step vasprintf defs w (.merge i j specified modified) = some w' ∧
          Merged specified modified (w i) (w j) (w' i) := by
  obtain ⟨w, hw, hc⟩ := Run.exec_inv (fun w : Lists => ∀ i, Consistent defs (w i))
    (fun w op hc hfine => step_consistent hplain hc op hfine) ops initial initial_consistent hadm
  refine ⟨w, hw, hc, fun i j specified modified hfine => ?_⟩
  obtain ⟨w', hw', -, hmerged, -⟩ := merge_step hplain hc hfine
  exact ⟨w', hw', hmerged⟩

end

/-! ## Names -/

section
variable {vasprintf : Text → Option Text} {defs : Text → Option Attrib}

theorem foldlM_keeps {σ β : Type} {f : σ → β → Option σ} {P : σ → Prop}
    (hf : ∀ s b s', P s → f s b = some s' → P s') : ∀ (bs : List β) {s s' : σ}, P s → bs.foldlM f s = some s' → P s'
  | [], _, _, hs, h => by
    cases h
    exact hs
  | b :: bs, s, s', hs, h => by
    rw [List.foldlM_cons] at h
    obtain ⟨s₁, h₁, h⟩ := Option.bind_eq_some_iff.mp h
    exact foldlM_keeps hf bs (hf s b s₁ hs h₁) h

theorem add_setting_names {attrib : Option Attrib} {name value : Text} {new_modified : Bool}
    {touch : Setting → Setting}
    {list list' : List Setting} (h : add_setting vasprintf attrib name value new_modified touch list = some list')
    (hname : ∀ s, (touch s).name = s.name) (hn : (list.map Setting.name).Nodup) :
    (list'.map Setting.name).Nodup := by
  rw [add_setting_eq] at h
  refine Keyed.nodup_upsert Setting.name (k := name) (hname _) (fun s n hs => ?_) hn h
  obtain ⟨n', hn', rfl⟩ := Option.map_eq_some_iff.mp hs
  rw [hname, mod_value_name hn']

theorem apply_default_names {mand_only : Bool} (list : List Setting) (a : Attrib) (list' : List Setting)
    (hn : (list.map Setting.name).Nodup) (h : apply_default vasprintf mand_only list a = some list') :
    (list'.map Setting.name).Nodup := by
  rw [apply_default] at h
  cases hd : a.defval with
  | none =>
    rw [hd] at h
    cases h
    exact hn
  | some defval =>
    rw [hd] at h
    simp only at h
    split at h
    · cases h
      exact hn
    · split at h
      · cases h
        exact hn
      · exact add_setting_names h (fun _ => rfl) hn

theorem update_names {w w' : Lists} {r : Option (List Setting)} {i : Nat}
    (h : r.map (Function.update w i) = some w')
    (hw : ∀ i, ((w i).map Setting.name).Nodup) (hr : ∀ list, r = some list →
      (list.map Setting.name).Nodup) (j : Nat) :
    ((w' j).map Setting.name).Nodup := by
  obtain ⟨list, hlist, rfl⟩ := Option.map_eq_some_iff.mp h
  by_cases hj : j = i
  · subst hj
    rw [Function.update_self]
    exact hr list hlist
  · rw [Function.update_of_ne hj]
    exact hw j

theorem step_names {w w' : Lists} (hw : ∀ i, ((w i).map Setting.name).Nodup) : ∀ {op : Op defs},
    step vasprintf defs w op = some w' → ∀ i, ((w' i).map Setting.name).Nodup
  | .apply i _ _, h => update_names h hw fun _ hl => add_setting_names hl (fun _ => rfl) (hw i)
  | .apply_specified i _ _, h => update_names h hw fun _ hl => add_setting_names hl (fun _ => rfl) (hw i)
  | .apply_actual i _ _, h => update_names h hw fun _ hl => add_setting_names hl (fun _ => rfl) (hw i)
  | .apply_defaults i attribs _, h =>
    update_names h hw fun _ => foldlM_keeps apply_default_names (attribs.map Subtype.val) (hw i)
  | .merge i j specified modified, h => by
    rw [step] at h
    split at h
    · cases h
    · refine update_names h hw fun list hl => ?_
      rw [setting_list_merge] at hl
      refine foldlM_keeps (P := fun l => (l.map Setting.name).Nodup) (fun list s list' hn hs => ?_) (w j) (hw i) hl
      exact add_setting_names hs (fun n => by rw [copy_flags_eq]) hn
  | .map_values i, h => by
    cases h
    refine update_names (r := some (setting_list_map_values (w i))) (i := i) rfl hw fun list hl => ?_
    cases hl
    rw [setting_list_map_values, List.map_map, show Setting.name ∘ map_value =
      Setting.name from funext map_value_name]
    exact hw i
  | .remove_derived i, h => by
    cases h
    refine update_names (r := some (setting_list_remove_derived (w i))) (i := i) rfl hw fun list hl => ?_
    cases hl
    exact (hw i).sublist (List.filter_sublist.map _)

theorem names_once : ∀ (ops : List (Op defs)) {w w' : Lists}, (∀ i, ((w i).map Setting.name).Nodup) →
    Run.exec (step vasprintf defs) w ops = some w' → ∀ i, ((w' i).map Setting.name).Nodup
  | [], _, _, hw, h => by
    cases h
    exact hw
  | op :: ops, w, w', hw, h => by
    obtain ⟨w₁, h₁, h⟩ := Option.bind_eq_some_iff.mp h
    exact names_once ops (step_names hw h₁) h

end

/-! ## Two lists -/

instance (old : Option Setting) (value : Text) : Decidable (Accepts old value) :=
  inferInstanceAs (Decidable (∀ n ∈ old, _ ∨ _ ∨ _))

instance (old : Option Setting) (s : Setting) : Decidable (SameModified old s) :=
  inferInstanceAs (Decidable (((∀ n ∈ old, _) → _) ∧ ∀ n ∈ old, _ → _))

instance {defs : Text → Option Attrib} (w : Lists) : ∀ op : Op defs, Decidable (Fine w op)
  | .apply _ _ _ => inferInstanceAs (Decidable (Accepts _ _))
  | .apply_specified _ _ _ => inferInstanceAs (Decidable (Accepts _ _))
  | .apply_actual _ _ _ => inferInstanceAs (Decidable (Accepts _ _))
  | .apply_defaults _ _ _ => isTrue trivial
  | .merge _ _ _ _ => inferInstanceAs (Decidable ((_ → ∀ s ∈ _, _) ∧ ∀ s ∈ _, _ ∧ (_ → _)))
  | .map_values _ => inferInstanceAs (Decidable (∀ s ∈ _, _ → ∀ value ∈ _, _))
  | .remove_derived _ => isTrue trivial

def sample_printf (s : Text) : Option Text := if '%' ∈ s then none else some s

def port_no : Text := ['p']

def sample_defs (name : Text) : Option Attrib :=
  if name = port_no then some { name, multi := true } else none

def sample_ops : List (Op sample_defs) :=
  [.apply 0 port_no ['x'], .apply 1 port_no ['y'], .apply_specified 1 ['q'] [], .merge 0 1 true true]

theorem lists_consistent_two : ∃ w, Run.exec (step sample_printf sample_defs) initial sample_ops = some w ∧
    ∀ i, Consistent sample_defs (w i) := by
  have hplain : ∀ s, '%' ∉ s → sample_printf s = some s := fun s hs => if_neg hs
  obtain ⟨w, hw, hc, -⟩ := lists_consistent hplain sample_ops (by decide)
  exact ⟨w, hw, hc⟩

theorem names_once_two : ∃ w, Run.exec (step sample_printf sample_defs) initial sample_ops = some w ∧
    ∀ i, ((w i).map Setting.name).Nodup := by
  have hsome : (Run.exec (step sample_printf sample_defs) initial sample_ops).isSome = true := by decide
  obtain ⟨w, hw⟩ := Option.isSome_iff_exists.mp hsome
  exact ⟨w, hw, names_once sample_ops (w := initial) (fun _ => .nil) hw⟩

/-- The second value of the merged list is taken over as one entry, with the end of the line in it. -/
theorem merged_values_joined : ¬∀ (ops : List (Op sample_defs)) (w : Lists),
    Run.exec (step sample_printf sample_defs) initial ops = some w → ∀ i, Consistent sample_defs (w i) := by
  intro h
  let ops : List (Op sample_defs) :=
    [.apply 0 port_no ['x'], .apply 1 port_no ['y'], .apply 1 port_no ['z'], .merge 0 1 false false]
  have hbad : (Run.exec (step sample_printf sample_defs) initial ops).any
      (fun w => (w 0).any fun s => s.values != if is_multi s.attrib then some (lines s.value)
        else none) = true := by
    decide
  obtain ⟨w, hw, hany⟩ := (Option.any_eq_true _ _).mp hbad
  obtain ⟨s, hs, hne⟩ := List.any_eq_true.mp hany
  exact bne_iff_ne.mp hne ((h ops w hw 0).sound s hs).values

end Zdev.SettingList
