import S390Tools.Hyptop.SdCore

/-!
# Looking at one system of the tree

Every operation on the tree is described by what it does to the system at each
path: a call changes the system it names, counts in its parent and leaves every
other system as it is.
-/

namespace Hyptop

@[grind =] def sys_at : Path → SdSys → Option SdSys
  | [], sys => some sys
  | id :: p, sys => (sd_sys_get sys id).bind (sys_at p)

structure Node where
  info : SysInfo := {}
  kids : List Id := []

def SdSys.view (sys : SdSys) : Node :=
  { info := sys.info, kids := sys.child_list.map SdSys.id }

def look (q : Path) (sys : SdSys) : Option Node :=
  (sys_at q sys).map SdSys.view

def Present (q : Path) (sys : SdSys) : Prop :=
  (look q sys).isSome

def seen (q : Path) (sys : SdSys) : Node :=
  (look q sys).getD {}

@[simp] theorem look_nil (sys : SdSys) : look [] sys = some sys.view := rfl

theorem look_cons (id : Id) (q : Path) (sys : SdSys) : look (id :: q) sys = (sd_sys_get sys id).bind (look q) := by
  simp only [look, sys_at, Option.map_bind]
  rfl

theorem sys_at_append : ∀ (p q : Path) (sys : SdSys), sys_at (p ++ q) sys = (sys_at p sys).bind (sys_at q)
  | [], _, _ => rfl
  | id :: p, q, sys => by
    simp only [List.cons_append, sys_at, Option.bind_assoc]
    congr 1
    funext child
    exact sys_at_append p q child

theorem look_append (p q : Path) (sys : SdSys) : look (p ++ q) sys = (sys_at p sys).bind (look q) := by
  rw [look, sys_at_append, Option.map_bind]
  rfl

theorem present_iff {q : Path} {sys : SdSys} : Present q sys ↔ ∃ t, sys_at q sys = some t := by
  simp [Present, look, Option.isSome_iff_exists]

theorem Present.parent {p : Path} {id : Id} {sys : SdSys} (h : Present (p ++ [id]) sys) : Present p sys := by
  rw [Present, look_append] at h
  cases hp : sys_at p sys with
  | none => simp [hp] at h
  | some t => exact present_iff.2 ⟨t, hp⟩

/-! ## A change at a path -/

section
variable {f : SdSys → SdSys} (hf : ∀ sys, (f sys).id = sys.id)

include hf in
theorem id_on_sys (p : Path) (sys : SdSys) : (on_sys f p sys).id = sys.id := by
  cases p with
  | nil => exact hf sys
  | cons id p =>
    cases sys
    rfl

include hf in
theorem sys_at_on_sys : ∀ (p : Path) (sys : SdSys), sys_at p (on_sys f p sys) = (sys_at p sys).map f
  | [], _ => rfl
  | id :: p, .node sid info child_list => by
    simp only [on_sys, sys_at, sd_sys_get, SdSys.child_list]
    rw [Keyed.get_modify_self SdSys.id (id_on_sys hf p)]
    cases Keyed.get SdSys.id id child_list with
    | none => rfl
    | some child => exact sys_at_on_sys p child

include hf in
theorem look_on_sys_of_apart : ∀ (p q : Path) (sys : SdSys), ¬p <+: q → look q (on_sys f p sys) = look q sys
  | [], q, _, h => absurd (List.nil_prefix) h
  | id :: p, [], .node sid info child_list, _ => by
    simp only [look_nil, SdSys.view, on_sys, SdSys.info, SdSys.child_list]
    rw [Keyed.keys_modify SdSys.id (id_on_sys hf p)]
  | id :: p, k :: q, .node sid info child_list, h => by
    simp only [look_cons, on_sys, sd_sys_get, SdSys.child_list]
    by_cases hk : id = k
    · subst hk
      rw [Keyed.get_modify_self SdSys.id (id_on_sys hf p)]
      cases Keyed.get SdSys.id id child_list with
      | none => rfl
      | some child => exact look_on_sys_of_apart p q child fun hp => h (List.cons_prefix_cons.mpr ⟨rfl, hp⟩)
    · rw [Keyed.get_modify_of_ne SdSys.id (id_on_sys hf p) hk]

include hf in
theorem look_on_sys (p r : Path) (sys : SdSys) : look (p ++ r) (on_sys f p sys) =
    (sys_at p sys).bind fun t => look r (f t) := by
  rw [look_append, sys_at_on_sys hf]
  cases sys_at p sys <;> rfl

end

def Node.on_info (g : SysInfo → SysInfo) (n : Node) : Node :=
  { n with info := g n.info }

theorem id_on_info (g : SysInfo → SysInfo) (sys : SdSys) : (on_info g sys).id = sys.id := by
  cases sys
  rfl

theorem look_on_info_cons (g : SysInfo → SysInfo) (id : Id) (r : Path) (sys : SdSys) :
    look (id :: r) (on_info g sys) = look (id :: r) sys := by
  cases sys
  rfl

theorem look_on_info (g : SysInfo → SysInfo) (p q : Path) (sys : SdSys) :
    look q (on_sys (on_info g) p sys) = if q = p then (look q sys).map (Node.on_info g) else look q sys := by
  by_cases hp : p <+: q
  · obtain ⟨r, rfl⟩ := hp
    rw [look_on_sys (id_on_info g), look_append]
    cases r with
    | nil =>
      rw [List.append_nil, if_pos rfl]
      cases sys_at p sys with
      | none => rfl
      | some t =>
        cases t
        rfl
    | cons id r =>
      rw [if_neg (by simp)]
      simp only [look_on_info_cons]
  · rw [look_on_sys_of_apart (id_on_info g) p q sys hp, if_neg]
    exact fun h => hp (h ▸ List.prefix_rfl)

theorem present_on_info (g : SysInfo → SysInfo) (p q : Path) (sys : SdSys) :
    Present q (on_sys (on_info g) p sys) ↔ Present q sys := by
  rw [Present, look_on_info]
  split
  · rw [Option.isSome_map]
    rfl
  · rfl

theorem seen_on_info (g : SysInfo → SysInfo) {p : Path} {sys : SdSys} (h : Present p sys) (q : Path) :
    seen q (on_sys (on_info g) p sys) = if q = p then (seen q sys).on_info g else seen q sys := by
  rw [seen, look_on_info]
  by_cases hq : q = p
  · subst hq
    obtain ⟨n, hn⟩ := Option.isSome_iff_exists.mp h
    simp [seen, hn]
  · simp [hq, seen]

/-! ## A system looked up or created -/

def Node.add_kid (id : Id) (n : Node) : Node :=
  if id ∈ n.kids then n else { info := { n.info with child_cnt := n.info.child_cnt + 1 }, kids := n.kids ++ [id] }

theorem id_get_or_new_sys (id : Id) (sys : SdSys) : (get_or_new_sys id sys).id = sys.id := by
  rw [get_or_new_sys]
  cases sd_sys_get sys id with
  | some _ => rfl
  | none =>
    cases sys
    rfl

theorem view_get_or_new_sys (id : Id) (sys : SdSys) : (get_or_new_sys id sys).view = sys.view.add_kid id := by
  obtain ⟨sid, info, child_list⟩ := sys
  rw [get_or_new_sys, Node.add_kid]
  cases h : sd_sys_get (.node sid info child_list) id with
  | some t =>
    have hk : id ∈ (SdSys.node sid info child_list).view.kids :=
      (Keyed.get_isSome _ _ _).mp (Option.isSome_iff_exists.mpr ⟨t, h⟩)
    rw [if_pos hk]
  | none =>
    have hk : id ∉ (SdSys.node sid info child_list).view.kids := (Keyed.get_eq_none _ _ _).mp h
    rw [if_neg hk]
    simp [SdSys.view, sd_sys_new, SdSys.info, SdSys.child_list, SdSys.id, new_sys]

theorem sd_sys_get_get_or_new (id k : Id) (sys : SdSys) :
    sd_sys_get (get_or_new_sys id sys) k = if k =
      id then some ((sd_sys_get sys id).getD (new_sys id)) else sd_sys_get sys k := by
  obtain ⟨sid, info, child_list⟩ := sys
  rw [get_or_new_sys]
  cases h : sd_sys_get (.node sid info child_list) id with
  | some t =>
    by_cases hk : k = id
    · subst hk
      simp [h]
    · simp [hk]
  | none =>
    have hid : (new_sys id).id = id := rfl
    rw [sd_sys_get] at h
    simp only [sd_sys_new, sd_sys_get, SdSys.child_list, Keyed.get_append_singleton, hid] at h ⊢
    by_cases hk : k = id
    · subst hk
      simp [h]
    · rw [if_neg (Ne.symm hk), if_neg hk, Option.or_none]

theorem seen_new_sys (id : Id) (r : Path) : seen r (new_sys id) = {} := by
  cases r <;> rfl

theorem seen_append {p : Path} {sys t : SdSys} (h : sys_at p sys = some t) (r : Path) :
    seen (p ++ r) sys = seen r t := by
  rw [seen, look_append, h]
  rfl

theorem seen_get_or_new_cons (id k : Id) (r : Path) (sys : SdSys) :
    seen (k :: r) (get_or_new_sys id sys) = seen (k :: r) sys := by
  simp only [seen, look_cons, sd_sys_get_get_or_new]
  by_cases hk : k = id
  · subst hk
    cases sd_sys_get sys k with
    | none =>
      rw [if_pos rfl]
      exact seen_new_sys k r
    | some t => simp
  · rw [if_neg hk]

theorem seen_sys (id : Id) {p : Path} {sys : SdSys} (h : Present p sys) (q : Path) :
    seen q (on_sys (get_or_new_sys id) p sys) = if q = p then (seen q sys).add_kid id else seen q sys := by
  obtain ⟨t, ht⟩ := present_iff.1 h
  have ht' : sys_at p (on_sys (get_or_new_sys id) p sys) = some (get_or_new_sys id t) := by
    rw [sys_at_on_sys (id_get_or_new_sys id), ht]
    rfl
  by_cases hp : p <+: q
  · obtain ⟨r, rfl⟩ := hp
    rw [seen_append ht', seen_append ht]
    cases r with
    | nil =>
      rw [List.append_nil, if_pos rfl]
      exact view_get_or_new_sys id t
    | cons k r =>
      rw [if_neg (by simp)]
      exact seen_get_or_new_cons id k r t
  · rw [seen, look_on_sys_of_apart (id_get_or_new_sys id) p q sys hp, if_neg, seen]
    exact fun h => hp (h ▸ List.prefix_rfl)

theorem present_sys (id : Id) {p : Path} {sys : SdSys} (h : Present p sys) (q : Path) :
    Present q (on_sys (get_or_new_sys id) p sys) ↔ Present q sys ∨ q = p ++ [id] := by
  obtain ⟨t, ht⟩ := present_iff.1 h
  by_cases hp : p <+: q
  · obtain ⟨r, rfl⟩ := hp
    rw [Present, look_on_sys (id_get_or_new_sys id), Present, look_append, ht, Option.bind_some, Option.bind_some]
    cases r with
    | nil => simp
    | cons k r =>
      simp only [look_cons, sd_sys_get_get_or_new, List.append_cancel_left_eq, List.cons.injEq]
      by_cases hk : k = id
      · subst hk
        cases sd_sys_get t k with
        | some c =>
          cases r with
          | nil => simp
          | cons k' r => simp
        | none =>
          cases r with
          | nil => simp
          | cons k' r => simp [look_cons, sd_sys_get, new_sys, SdSys.child_list]
      · simp [hk]
  · rw [Present, look_on_sys_of_apart (id_get_or_new_sys id) p q sys hp, Present]
    simp only [iff_self_or]
    exact fun h => absurd ⟨[id], h.symm⟩ hp

/-! ## One call -/

def Call.needs : Call → Path
  | sys p _ => p
  | cpu p _ _ _ => p
  | set p _ _ => p
  | cpu_commit p _ => p
  | sys_commit p id => p ++ [id]
  | root_commit => []

def Call.makes : Call → Option Path
  | sys p id => some (p ++ [id])
  | _ => none

def Call.step (cpu_type_vec : List (List Char)) (q : Path) : Call → Node → Node
  | sys p id, n => if q = p then n.add_kid id else n
  | cpu p id type cnt, n => if q = p then n.on_info (get_or_new_cpu cpu_type_vec id type cnt) else n
  | set p id s, n => if q = p then n.on_info (set_cpu id s) else n
  | cpu_commit p id, n => if q = p then n.on_info (sd_cpu_commit id) else n
  | sys_commit p id, n => if q = p then n.on_info count_child else if q = p ++ [id] then n.on_info activate else n
  | root_commit, n => if q = [] then n.on_info activate else n

section
variable (cpu_type_vec : List (List Char))

theorem seen_exec {c : Call} {sys : SdSys} (h : Present c.needs sys) (q : Path) :
    seen q (c.exec cpu_type_vec sys) = c.step cpu_type_vec q (seen q sys) := by
  cases c with
  | sys p id => exact seen_sys id h q
  | cpu p id type cnt => exact seen_on_info _ h q
  | set p id s => exact seen_on_info _ h q
  | cpu_commit p id => exact seen_on_info _ h q
  | sys_commit p id =>
    have h : Present (p ++ [id]) sys := h
    have hp : Present p (on_sys (on_info activate) (p ++ [id]) sys) := (present_on_info _ _ _ _).mpr h.parent
    rw [Call.exec, seen_on_info _ hp q, seen_on_info _ h q, Call.step]
    by_cases hq : q = p
    · subst hq
      simp
    · simp [hq]
  | root_commit => exact seen_on_info activate (p := []) h q

theorem present_exec {c : Call} {sys : SdSys} (h : Present c.needs sys) (q : Path) :
    Present q (c.exec cpu_type_vec sys) ↔ Present q sys ∨ c.makes = some q := by
  cases c with
  | sys p id =>
    have h : Present p sys := h
    rw [Call.exec, present_sys id h q]
    simp [Call.makes, eq_comm]
  | cpu p id type cnt => simp [Call.exec, present_on_info, Call.makes]
  | set p id s => simp [Call.exec, present_on_info, Call.makes]
  | cpu_commit p id => simp [Call.exec, present_on_info, Call.makes]
  | sys_commit p id => simp [Call.exec, present_on_info, Call.makes]
  | root_commit =>
    have hq := present_on_info activate [] q sys
    rw [on_sys] at hq
    simp [Call.exec, hq, Call.makes]

end

/-! ## Start and end of a cycle -/

def Node.start (n : Node) : Node :=
  n.on_info fun info =>
    { info with
      active := false, child_cnt_active := 0, cpu_cnt_active := 0,
      cpu_list := info.cpu_list.map l_cpu_update_start }

theorem start_children_eq : ∀ children, start_children children = children.map sd_sys_update_start
  | [] => by rw [start_children, List.map_nil]
  | child :: children => by rw [start_children, start_children_eq children, List.map_cons]

theorem id_start (sys : SdSys) : (sd_sys_update_start sys).id = sys.id := by
  cases sys
  rw [sd_sys_update_start]
  rfl

theorem look_start : ∀ (q : Path) (sys : SdSys), look q (sd_sys_update_start sys) = (look q sys).map Node.start
  | [], .node id info child_list => by
    rw [sd_sys_update_start, start_children_eq]
    simp [SdSys.view, SdSys.info, SdSys.child_list, Node.start, Node.on_info, Function.comp_def, id_start]
  | k :: q, .node id info child_list => by
    rw [sd_sys_update_start, start_children_eq, look_cons, look_cons, sd_sys_get, sd_sys_get]
    simp only [SdSys.child_list]
    rw [Keyed.get_map SdSys.id id_start]
    cases Keyed.get SdSys.id k child_list with
    | none => rfl
    | some child => exact look_start q child

/-- No two systems with one parent and no two CPUs of one system have the same id. -/
def Distinct (sys : SdSys) : Prop :=
  ∀ q, (seen q sys).kids.Nodup ∧ ((seen q sys).info.cpu_list.map SdCpu.id).Nodup

def Node.finish (keep : Id → Bool) (n : Node) : Node :=
  { info := { l_cpu_update_end n.info with child_cnt := n.info.child_cnt_active }, kids := n.kids.filter keep }

theorem end_children_eq : ∀ children,
    end_children children = (children.filter (·.info.active)).map l_sys_update_end
  | [] => by rw [end_children, List.filter_nil, List.map_nil]
  | child :: children => by
    rw [end_children, end_children_eq children]
    by_cases h : child.info.active = true
    · rw [if_pos h, List.filter_cons_of_pos (by simpa using h), List.map_cons]
    · rw [if_neg h, List.filter_cons_of_neg (by simpa using h)]

theorem id_end (sys : SdSys) : (l_sys_update_end sys).id = sys.id := by
  cases sys
  rw [l_sys_update_end]
  rfl

theorem seen_child {sys child : SdSys} {k : Id} (h : sd_sys_get sys k = some child) (q : Path) :
    seen (k :: q) sys = seen q child := by
  rw [seen, look_cons, h]
  rfl

theorem seen_of_none {sys : SdSys} {k : Id} (h : sd_sys_get sys k = none) (q : Path) : seen (k :: q) sys = {} := by
  rw [seen, look_cons, h]
  rfl

theorem Distinct.child {sys child : SdSys} {k : Id} (h : Distinct sys)
    (hc : sd_sys_get sys k = some child) : Distinct child :=
  fun q => seen_child hc q ▸ h (k :: q)

theorem sd_sys_get_end {sys : SdSys} (h : Distinct sys) (k : Id) :
    sd_sys_get (l_sys_update_end sys) k = ((sd_sys_get sys k).filter (·.info.active)).map l_sys_update_end := by
  have hn : (sys.child_list.map SdSys.id).Nodup := (h []).1
  obtain ⟨sid, info, child_list⟩ := sys
  rw [l_sys_update_end, end_children_eq, sd_sys_get, SdSys.child_list, Keyed.get_map SdSys.id id_end]
  exact congrArg (Option.map l_sys_update_end) (Keyed.get_filter SdSys.id _ k hn)

theorem view_end {sys : SdSys} (h : Distinct sys) :
    (l_sys_update_end sys).view = sys.view.finish fun k => (seen [k] sys).info.active := by
  have hn : (sys.child_list.map SdSys.id).Nodup := (h []).1
  have hk : ∀ child ∈ sys.child_list, (seen [child.id] sys).info = child.info := fun child hc => by
    rw [seen_child (Keyed.get_of_mem SdSys.id hn hc)]
    rfl
  obtain ⟨sid, info, child_list⟩ := sys
  rw [l_sys_update_end, end_children_eq]
  simp only [SdSys.view, SdSys.info, SdSys.child_list, Node.finish, List.map_map, List.filter_map] at hk ⊢
  congr 1
  rw [show (SdSys.id ∘ l_sys_update_end) = SdSys.id from funext id_end]
  congr 1
  refine List.filter_congr fun child hc => ?_
  rw [Function.comp_apply, hk child hc]

theorem look_end_of_active : ∀ (q : Path) {sys : SdSys}, Distinct sys →
    (∀ r k, r ++ [k] <+: q → (seen (r ++ [k]) sys).info.active = true) →
    look q (l_sys_update_end sys) = (look q sys).map (Node.finish fun k => (seen (q ++ [k]) sys).info.active)
  | [], sys, h, _ => congrArg some (view_end h)
  | k :: q, sys, h, ha => by
    have hk := ha [] k ⟨q, rfl⟩
    cases hc : sd_sys_get sys k with
    | none =>
      rw [List.nil_append, seen_of_none hc] at hk
      cases hk
    | some child =>
      have hactive : child.info.active = true := by rwa [List.nil_append, seen_child hc] at hk
      simp only [List.cons_append, seen_child hc]
      rw [look_cons, sd_sys_get_end h, hc, Option.filter_some, if_pos hactive, look_cons, hc]
      refine look_end_of_active q (h.child hc) fun r k' hr => ?_
      rw [← seen_child hc]
      exact ha (k :: r) k' (List.cons_prefix_cons.mpr ⟨rfl, hr⟩)

theorem look_end_of_inactive : ∀ (r : Path) {k : Id} {q : Path} {sys : SdSys}, Distinct sys →
    r ++ [k] <+: q → (seen (r ++ [k]) sys).info.active = false → look q (l_sys_update_end sys) = none
  | [], k, q, sys, h, hq, ha => by
    obtain ⟨q, rfl⟩ := hq
    rw [List.nil_append, List.cons_append, look_cons, sd_sys_get_end h]
    cases hc : sd_sys_get sys k with
    | none => rfl
    | some child =>
      have hactive : child.info.active = false := by rwa [List.nil_append, seen_child hc] at ha
      rw [Option.filter_some, if_neg (by simp [hactive])]
      rfl
  | k' :: r, k, q, sys, h, hq, ha => by
    obtain ⟨q, rfl⟩ := hq
    rw [List.cons_append, List.cons_append, look_cons, sd_sys_get_end h]
    cases hc : sd_sys_get sys k' with
    | none => rfl
    | some child =>
      rw [Option.filter_some]
      split
      · rw [Option.map_some, Option.bind_some]
        refine look_end_of_inactive r (h.child hc) ⟨q, rfl⟩ ?_
        rwa [List.cons_append, seen_child hc] at ha
      · rfl

end Hyptop
