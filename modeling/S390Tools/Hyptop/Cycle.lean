import S390Tools.Hyptop.Lookup

/-!
# The calls of one update cycle

What a list of calls reports and commits, when a data gatherer may make these
calls, and what they leave in the system at a path.
-/

namespace Hyptop

/-! ## What is reported -/

abbrev Handle := Path × Id

def Call.sys_got : Call → Option Handle
  | sys p id => some (p, id)
  | _ => none

def Call.sys_done : Call → Option Handle
  | sys_commit p id => some (p, id)
  | _ => none

def Call.cpu_got : Call → Option Handle
  | cpu p id _ _ => some (p, id)
  | _ => none

def Call.cpu_done : Call → Option Handle
  | cpu_commit p id => some (p, id)
  | _ => none

def Call.cpu_needed : Call → Option Handle
  | set p id _ => some (p, id)
  | cpu_commit p id => some (p, id)
  | _ => none

def at_path (p : Path) (l : List Handle) : List Id :=
  (l.filter fun h => h.1 = p).map (·.2)

/-- The systems below the system at `p` that are committed, in this order. -/
def systems_committed (calls : List Call) (p : Path) : List Id :=
  at_path p (calls.filterMap Call.sys_done)

def cpus_committed (calls : List Call) (p : Path) : List Id :=
  at_path p (calls.filterMap Call.cpu_done)

def Call.setter (p : Path) (id : Id) : Call → Option Setter
  | set q k s => if q = p ∧ k = id then some s else none
  | _ => none

def setters (calls : List Call) (p : Path) (id : Id) : List Setter :=
  calls.filterMap (Call.setter p id)

/-- Every call names a system and a CPU that were looked up or created before. -/
def Handled : List Path → List Handle → List Call → Prop
  | _, _, [] => True
  | systems, cpus, c :: calls =>
    c.needs ∈ systems ∧ (∀ h ∈ c.cpu_needed, h ∈ cpus) ∧
      Handled (c.makes.toList ++ systems) (c.cpu_got.toList ++ cpus) calls

def decHandled : ∀ systems cpus calls, Decidable (Handled systems cpus calls)
  | _, _, [] => isTrue trivial
  | systems, cpus, c :: calls =>
    have := decHandled (c.makes.toList ++ systems) (c.cpu_got.toList ++ cpus) calls
    inferInstanceAs (Decidable (_ ∧ (∀ h ∈ c.cpu_needed, h ∈ cpus) ∧ _))

instance (systems : List Path) (cpus : List Handle) (calls : List Call) : Decidable (Handled systems cpus calls) :=
  decHandled systems cpus calls

/-- The calls of a cycle: one commit for each system and each CPU that is reported. -/
structure Ok (calls : List Call) : Prop where
  handled : Handled [[]] [] calls
  systems_once : (calls.filterMap Call.sys_done).Nodup
  systems : ∀ h ∈ calls.filterMap Call.sys_got, h ∈ calls.filterMap Call.sys_done
  cpus_once : (calls.filterMap Call.cpu_done).Nodup
  cpus : ∀ h ∈ calls.filterMap Call.cpu_got, h ∈ calls.filterMap Call.cpu_done

instance (calls : List Call) : Decidable (Ok calls) :=
  decidable_of_iff (Handled [[]] [] calls ∧ (calls.filterMap Call.sys_done).Nodup ∧
      (∀ h ∈ calls.filterMap Call.sys_got, h ∈ calls.filterMap Call.sys_done) ∧
      (calls.filterMap Call.cpu_done).Nodup ∧ ∀ h ∈ calls.filterMap Call.cpu_got, h ∈ calls.filterMap Call.cpu_done)
    ⟨fun ⟨h1, h2, h3, h4, h5⟩ => ⟨h1, h2, h3, h4, h5⟩, fun h => ⟨h.1, h.2, h.3, h.4, h.5⟩⟩

theorem mem_at_path {p : Path} {l : List Handle} {id : Id} : id ∈ at_path p l ↔ (p, id) ∈ l := by
  simp only [at_path, List.mem_map, List.mem_filter, decide_eq_true_eq]
  constructor
  · rintro ⟨⟨q, k⟩, ⟨h, rfl⟩, rfl⟩
    exact h
  · intro h
    exact ⟨(p, id), ⟨h, rfl⟩, rfl⟩

theorem nodup_at_path {l : List Handle} (h : l.Nodup) (p : Path) : (at_path p l).Nodup := by
  refine (h.filter _).map_on fun a ha b hb hab => ?_
  have ha' := (List.mem_filter.mp ha).2
  have hb' := (List.mem_filter.mp hb).2
  simp only [decide_eq_true_eq] at ha' hb'
  exact Prod.ext (ha'.trans hb'.symm) hab

theorem at_path_cons (p : Path) (o : Option Handle) (l : List Handle) :
    at_path p (o.toList ++ l) = at_path p o.toList ++ at_path p l := by
  simp [at_path]

theorem filterMap_cons_toList {α β : Type} (f : α → Option β) (a : α) (l : List α) :
    (a :: l).filterMap f = (f a).toList ++ l.filterMap f := by
  rw [List.filterMap_cons]
  cases f a <;> rfl

/-! ## What is committed was looked up -/

theorem Handled.sys_got : ∀ {calls : List Call} {systems cpus}, Handled systems cpus calls →
    ∀ {h}, h ∈ calls.filterMap Call.sys_done → h.1 ++ [h.2] ∈ systems ∨ h ∈ calls.filterMap Call.sys_got
  | c :: calls, systems, cpus, hc, h, hm => by
    obtain ⟨hn, _, hr⟩ := hc
    rw [filterMap_cons_toList, List.mem_append] at hm ⊢
    rcases hm with hm | hm
    · cases c with
      | sys_commit p id =>
        rw [show h = (p, id) by simpa [Call.sys_done] using hm]
        exact .inl hn
      | _ => simp [Call.sys_done] at hm
    · rcases hr.sys_got hm with hs | hs
      · rw [List.mem_append] at hs
        rcases hs with hs | hs
        · cases c with
          | sys p id =>
            have he : h.1 ++ [h.2] = p ++ [id] := by simpa [Call.makes] using hs
            obtain ⟨h1, h2⟩ := List.append_inj' he rfl
            exact .inr (.inl (by simp [Call.sys_got, ← h1, ← (List.cons.inj h2).1]))
          | _ => simp [Call.makes] at hs
        · exact .inl hs
      · exact .inr (.inr hs)

theorem Handled.cpu_got : ∀ {calls : List Call} {systems cpus}, Handled systems cpus calls →
    ∀ {h}, h ∈ calls.filterMap Call.cpu_done → h ∈ cpus ∨ h ∈ calls.filterMap Call.cpu_got
  | c :: calls, systems, cpus, hc, h, hm => by
    obtain ⟨_, hn, hr⟩ := hc
    rw [filterMap_cons_toList, List.mem_append] at hm ⊢
    rcases hm with hm | hm
    · cases c with
      | cpu_commit p id =>
        rw [show h = (p, id) by simpa [Call.cpu_done] using hm]
        exact .inl (hn _ rfl)
      | _ => simp [Call.cpu_done] at hm
    · rcases hr.cpu_got hm with hs | hs
      · rw [List.mem_append] at hs
        rcases hs with hs | hs
        · exact .inr (.inl hs)
        · exact .inl hs
      · exact .inr (.inr hs)

theorem Handled.needs : ∀ {calls : List Call} {systems cpus}, Handled systems cpus calls →
    ∀ {c}, c ∈ calls → c.needs ∈ systems ∨ ∃ h ∈ calls.filterMap Call.sys_got, h.1 ++ [h.2] = c.needs
  | c' :: calls, systems, cpus, hc, c, hm => by
    obtain ⟨hn, _, hr⟩ := hc
    rcases List.mem_cons.mp hm with rfl | hm
    · exact .inl hn
    · rw [filterMap_cons_toList]
      rcases hr.needs hm with hs | ⟨h, hh, he⟩
      · rw [List.mem_append] at hs
        rcases hs with hs | hs
        · cases c' with
          | sys p id => exact .inr ⟨(p, id), by simp [Call.sys_got], by simpa [Call.makes, eq_comm] using hs⟩
          | _ => simp [Call.makes] at hs
        · exact .inl hs
      · exact .inr ⟨h, List.mem_append_right _ hh, he⟩

section
variable {calls : List Call} (h : Ok calls)

/-- Every system on the way to `q` is committed. -/
def Alive (calls : List Call) (q : Path) : Prop :=
  ∀ r k, r ++ [k] <+: q → k ∈ systems_committed calls r

theorem alive_nil (calls : List Call) : Alive calls [] := fun r k hr => by simp at hr

include h in
theorem Ok.committed_of_got {p : Path} {id : Id} (hg : (p, id) ∈ calls.filterMap Call.sys_got) :
    id ∈ systems_committed calls p :=
  mem_at_path.2 (h.systems _ hg)

include h in
theorem Ok.alive_needs : ∀ (n : Nat) {c : Call}, c ∈ calls → c.needs.length ≤ n → Alive calls c.needs
  | n, c, hc, hn => by
    rcases h.handled.needs hc with h0 | ⟨⟨p, id⟩, hg, he⟩
    · rw [List.mem_singleton.mp h0]
      exact alive_nil calls
    · rw [← he]
      intro r k hr
      rcases List.prefix_concat_iff.mp hr with heq | hp
      · obtain ⟨rfl, h2⟩ := List.append_inj' heq rfl
        rw [(List.cons.inj h2).1]
        exact h.committed_of_got hg
      · obtain ⟨c', hc', hgot⟩ := List.mem_filterMap.mp hg
        cases c' with
        | sys p' id' =>
          obtain ⟨rfl, rfl⟩ := Prod.mk.inj (Option.some.inj hgot)
          cases n with
          | zero => simp [← he] at hn
          | succ n =>
            rw [← he, List.length_append] at hn
            exact Ok.alive_needs n hc' (Nat.le_of_succ_le_succ hn) r k hp
        | _ => simp [Call.sys_got] at hgot

include h in
theorem Ok.alive_of_system {p : Path} {id : Id} (hc : id ∈ systems_committed calls p) :
    Alive calls (p ++ [id]) := by
  obtain ⟨c, hm, hd⟩ := List.mem_filterMap.mp (mem_at_path.1 hc)
  cases c with
  | sys_commit q k =>
    obtain ⟨rfl, rfl⟩ := Prod.mk.inj (Option.some.inj hd)
    exact h.alive_needs _ hm (Nat.le_refl _)
  | _ => simp [Call.sys_done] at hd

include h in
theorem Ok.alive_of_cpu {p : Path} {id : Id} (hc : id ∈ cpus_committed calls p) : Alive calls p := by
  obtain ⟨c, hm, hd⟩ := List.mem_filterMap.mp (mem_at_path.1 hc)
  cases c with
  | cpu_commit q k =>
    obtain ⟨rfl, rfl⟩ := Prod.mk.inj (Option.some.inj hd)
    exact h.alive_needs _ hm (Nat.le_refl _)
  | _ => simp [Call.cpu_done] at hd

include h in
theorem Ok.got_of_system {p : Path} {id : Id} (hc : id ∈ systems_committed calls p) :
    (p, id) ∈ calls.filterMap Call.sys_got := by
  rcases h.handled.sys_got (mem_at_path.1 hc) with h0 | h0
  · simp at h0
  · exact h0

include h in
theorem Ok.got_of_cpu {p : Path} {id : Id} (hc : id ∈ cpus_committed calls p) :
    (p, id) ∈ calls.filterMap Call.cpu_got :=
  (h.handled.cpu_got (mem_at_path.1 hc)).resolve_left List.not_mem_nil

end

/-! ## The calls at one system -/

section
variable (cpu_type_vec : List (List Char))

def Node.run (q : Path) (calls : List Call) (n : Node) : Node :=
  calls.foldl (fun n c => c.step cpu_type_vec q n) n

theorem seen_report : ∀ {calls : List Call} {systems cpus} {root : SdSys}, Handled systems cpus calls →
    (∀ p ∈ systems, Present p root) → ∀ q,
    seen q (report cpu_type_vec root calls) = (seen q root).run cpu_type_vec q calls ∧
      (Present q (report cpu_type_vec root calls) ↔
        Present q root ∨ ∃ h ∈ calls.filterMap Call.sys_got, h.1 ++ [h.2] = q)
  | [], _, _, _, _, _, _ => ⟨rfl, by simp [report]⟩
  | c :: calls, systems, cpus, root, hc, hs, q => by
    obtain ⟨hn, _, hr⟩ := hc
    have hneeds := hs _ hn
    have hs' : ∀ p ∈ c.makes.toList ++ systems, Present p (c.exec cpu_type_vec root) := by
      intro p hp
      rw [present_exec cpu_type_vec hneeds]
      rcases List.mem_append.mp hp with hp | hp
      · exact .inr (by simpa using hp)
      · exact .inl (hs p hp)
    obtain ⟨h1, h2⟩ := seen_report hr hs' q
    refine ⟨?_, ?_⟩
    · rw [report, List.foldl_cons, ← report, h1, seen_exec cpu_type_vec hneeds]
      rfl
    · rw [report, List.foldl_cons, ← report, h2, present_exec cpu_type_vec hneeds, filterMap_cons_toList]
      cases c <;> simp [Call.makes, Call.sys_got, or_assoc]

/-! ### Flags and counters -/

theorem step_active (c : Call) (p : Path) (id : Id) (n : Node) :
    (c.step cpu_type_vec (p ++ [id]) n).info.active = (n.info.active || decide (c.sys_done = some (p, id))) := by
  cases c with
  | sys q k =>
    simp only [Call.step, Node.add_kid, Call.sys_done]
    split
    · split <;> simp
    · simp
  | cpu q k type cnt =>
    simp only [Call.step, Node.on_info, get_or_new_cpu, Call.sys_done]
    split
    · split <;> simp [sd_cpu_new]
    · simp
  | set q k s =>
    simp only [Call.step, Node.on_info, set_cpu, Call.sys_done]
    split <;> simp
  | cpu_commit q k =>
    simp only [Call.step, Node.on_info, sd_cpu_commit, Call.sys_done]
    split <;> simp
  | sys_commit q k =>
    simp only [Call.step, Node.on_info, activate, count_child, Call.sys_done]
    by_cases h1 : p ++ [id] = q
    · have h2 : q ≠ p := fun e => by simp [e] at h1
      simp [h1, h2]
    · by_cases h2 : p ++ [id] = q ++ [k]
      · obtain ⟨h3, h4⟩ := List.append_inj' h2 rfl
        simp [h3, (List.cons.inj h4).1]
      · have h3 : ¬(q = p ∧ k = id) := fun e => h2 (by rw [e.1, e.2])
        simp [h1, h2, h3]
  | root_commit => simp [Call.step, Call.sys_done]

theorem step_child_cnt_active (c : Call) (q : Path) (n : Node) :
    (c.step cpu_type_vec q n).info.child_cnt_active =
      n.info.child_cnt_active + (at_path q c.sys_done.toList).length := by
  cases c with
  | sys p k =>
    simp only [Call.step, Node.add_kid, Call.sys_done]
    split
    · split <;> rfl
    · rfl
  | cpu p k type cnt =>
    simp only [Call.step, Node.on_info, get_or_new_cpu, Call.sys_done]
    split
    · split <;> rfl
    · rfl
  | set p k s =>
    simp only [Call.step, Node.on_info, set_cpu, Call.sys_done]
    split <;> rfl
  | cpu_commit p k =>
    simp only [Call.step, Node.on_info, sd_cpu_commit, Call.sys_done]
    split <;> rfl
  | sys_commit p k =>
    by_cases h : q = p
    · simp [Call.step, Node.on_info, count_child, Call.sys_done, at_path, h]
    · simp only [Call.step, if_neg h, Call.sys_done, at_path]
      rw [Option.toList_some, List.filter_cons_of_neg (by simpa using Ne.symm h)]
      split <;> rfl
  | root_commit =>
    simp only [Call.step, Node.on_info, activate, Call.sys_done]
    split <;> rfl

theorem step_cpu_cnt (c : Call) (q : Path) (n : Node) :
    (c.step cpu_type_vec q n).info.cpu_cnt = n.info.cpu_cnt ∧
      (c.step cpu_type_vec q n).info.cpu_cnt_active =
        n.info.cpu_cnt_active + (at_path q c.cpu_done.toList).length := by
  cases c with
  | sys p k =>
    simp only [Call.step, Node.add_kid, Call.cpu_done]
    split
    · split <;> exact ⟨rfl, rfl⟩
    · exact ⟨rfl, rfl⟩
  | cpu p k type cnt =>
    simp only [Call.step, Node.on_info, get_or_new_cpu, Call.cpu_done]
    split
    · split <;> exact ⟨rfl, rfl⟩
    · exact ⟨rfl, rfl⟩
  | set p k s =>
    simp only [Call.step, Node.on_info, set_cpu, Call.cpu_done]
    split <;> exact ⟨rfl, rfl⟩
  | cpu_commit p k =>
    by_cases h : q = p
    · simp [Call.step, Node.on_info, sd_cpu_commit, Call.cpu_done, at_path, h]
    · simp [Call.step, h, Call.cpu_done, at_path, Ne.symm h]
  | sys_commit p k =>
    simp only [Call.step, Node.on_info, count_child, activate, Call.cpu_done]
    split
    · exact ⟨rfl, rfl⟩
    · split <;> exact ⟨rfl, rfl⟩
  | root_commit =>
    simp only [Call.step, Node.on_info, activate, Call.cpu_done]
    split <;> exact ⟨rfl, rfl⟩

/-! ### Systems and CPUs -/

theorem step_kids (c : Call) (q : Path) (n : Node) (hn : n.kids.Nodup) :
    (c.step cpu_type_vec q n).kids.Nodup ∧
      ∀ k, k ∈ (c.step cpu_type_vec q n).kids ↔ k ∈ n.kids ∨ c.sys_got = some (q, k) := by
  cases c with
  | sys p id =>
    by_cases h : q = p
    · subst h
      simp only [Call.step, if_true, Node.add_kid, Call.sys_got]
      split
      · rename_i hid
        refine ⟨hn, fun k => ⟨.inl, fun hk => ?_⟩⟩
        rcases hk with hk | hk
        · exact hk
        · exact (Prod.mk.inj (Option.some.inj hk)).2 ▸ hid
      · rename_i hid
        refine ⟨List.Nodup.append hn (List.nodup_singleton id) (by simpa using hid), fun k => ?_⟩
        simp [eq_comm]
    · simp [Call.step, h, Call.sys_got, Ne.symm h, hn]
  | cpu p id type cnt =>
    simp only [Call.step, Node.on_info, Call.sys_got]
    split <;> simp [hn]
  | set p id s =>
    simp only [Call.step, Node.on_info, Call.sys_got]
    split <;> simp [hn]
  | cpu_commit p id =>
    simp only [Call.step, Node.on_info, Call.sys_got]
    split <;> simp [hn]
  | sys_commit p id =>
    simp only [Call.step, Node.on_info, Call.sys_got]
    split
    · simp [hn]
    · split <;> simp [hn]
  | root_commit =>
    simp only [Call.step, Node.on_info, Call.sys_got]
    split <;> simp [hn]

theorem id_sd_cpu_set (s : Setter) (cpu : SdCpu) : (sd_cpu_set s cpu).id = cpu.id := by
  rw [sd_cpu_set]
  split <;> rfl

theorem id_commit_cpu (cpu : SdCpu) : (commit_cpu cpu).id = cpu.id := rfl

theorem cpus_get_or_new_cpu (id : Id) (type : List Char) (cnt : Nat) (info : SysInfo) :
    (get_or_new_cpu cpu_type_vec id type cnt info).cpu_list =
      Keyed.obtain SdCpu.id (new_cpu cpu_type_vec id type cnt) info.cpu_list := by
  rw [get_or_new_cpu, Keyed.obtain, sd_cpu_get, show (new_cpu cpu_type_vec id type cnt).id = id from rfl]
  cases Keyed.get SdCpu.id id info.cpu_list <;> rfl

theorem step_cpus (c : Call) (q : Path) (n : Node) (hn : (n.info.cpu_list.map SdCpu.id).Nodup) :
    ((c.step cpu_type_vec q n).info.cpu_list.map SdCpu.id).Nodup ∧
      ∀ k, k ∈ (c.step cpu_type_vec q n).info.cpu_list.map SdCpu.id ↔
        k ∈ n.info.cpu_list.map SdCpu.id ∨ c.cpu_got = some (q, k) := by
  cases c with
  | sys p id =>
    simp only [Call.step, Node.add_kid, Call.cpu_got]
    split
    · split <;> simp [hn]
    · simp [hn]
  | cpu p id type cnt =>
    by_cases h : q = p
    · subst h
      simp only [Call.step, if_true, Node.on_info, Call.cpu_got, cpus_get_or_new_cpu, Keyed.keys_obtain]
      rw [show (new_cpu cpu_type_vec id type cnt).id = id from rfl]
      split
      · rename_i hid
        refine ⟨hn, fun k => ⟨.inl, fun hk => ?_⟩⟩
        rcases hk with hk | hk
        · exact hk
        · exact (Prod.mk.inj (Option.some.inj hk)).2 ▸ hid
      · rename_i hid
        refine ⟨List.Nodup.append hn (List.nodup_singleton id) (by simpa using hid), fun k => ?_⟩
        simp [eq_comm]
    · simp only [Call.step, if_neg h, Call.cpu_got]
      exact ⟨hn, fun k => by simp [Ne.symm h]⟩
  | set p id s =>
    simp only [Call.step, Node.on_info, set_cpu, Call.cpu_got]
    split
    · rw [Keyed.keys_modify SdCpu.id (id_sd_cpu_set s)]
      exact ⟨hn, fun k => by simp⟩
    · exact ⟨hn, fun k => by simp⟩
  | cpu_commit p id =>
    simp only [Call.step, Node.on_info, sd_cpu_commit, Call.cpu_got]
    split
    · rw [Keyed.keys_modify SdCpu.id id_commit_cpu]
      exact ⟨hn, fun k => by simp⟩
    · exact ⟨hn, fun k => by simp⟩
  | sys_commit p id =>
    simp only [Call.step, Node.on_info, activate, count_child, Call.cpu_got]
    split
    · exact ⟨hn, fun k => by simp⟩
    · split <;> exact ⟨hn, fun k => by simp⟩
  | root_commit =>
    simp only [Call.step, Node.on_info, activate, Call.cpu_got]
    split <;> exact ⟨hn, fun k => by simp⟩

/-! ### One CPU -/

structure Face where
  active : Bool := false
  cur : SdCpuInfo := {}
  prev : Option SdCpuInfo := none

def SdCpu.face (cpu : SdCpu) : Face :=
  { active := cpu.active, cur := cpu.cur, prev := cpu.prev }

/-- The CPU `id` of a system, or a new one where there is none. -/
def Node.facet (id : Id) (n : Node) : Face :=
  ((sd_cpu_get n.info id).map SdCpu.face).getD {}

def Call.face_step (q : Path) (id : Id) (c : Call) (f : Face) : Face :=
  match c.setter q id with
  | some s => { f with cur := s.apply f.cur }
  | none => if c.cpu_done = some (q, id) then { f with active := true } else f

theorem face_commit_cpu (cpu : SdCpu) : (commit_cpu cpu).face = { cpu.face with active := true } := rfl

theorem face_sd_cpu_set (s : Setter) (cpu : SdCpu) :
    (sd_cpu_set s cpu).face = { cpu.face with cur := s.apply cpu.face.cur } := by
  obtain ⟨id, active, type, d1, d2, d_cur, d_prev, cnt, apart, first⟩ := cpu
  cases d_cur with
  | d1 =>
    cases d_prev with
    | none => rfl
    | some p =>
      cases p with
      | d1 => exact absurd rfl apart
      | d2 => rfl
  | d2 =>
    cases d_prev with
    | none => rfl
    | some p =>
      cases p with
      | d1 => rfl
      | d2 => exact absurd rfl apart

theorem face_start (cpu : SdCpu) : (l_cpu_update_start cpu).active = false ∧
    (l_cpu_update_start cpu).prev = some cpu.cur := by
  obtain ⟨id, active, type, d1, d2, d_cur, d_prev, cnt, apart, first⟩ := cpu
  cases d_prev with
  | none =>
    have hcur : d_cur = .d1 := first rfl
    subst hcur
    exact ⟨rfl, rfl⟩
  | some p => exact ⟨rfl, rfl⟩

theorem id_l_cpu_update_start (cpu : SdCpu) : (l_cpu_update_start cpu).id = cpu.id := by
  rw [l_cpu_update_start]
  split <;> rfl

theorem facet_of_cpu_list {n m : Node} (h : n.info.cpu_list = m.info.cpu_list) (id : Id) :
    n.facet id = m.facet id := by
  rw [Node.facet, Node.facet, sd_cpu_get, sd_cpu_get, h]

theorem facet_modify {g : SdCpu → SdCpu} (hg : ∀ cpu, (g cpu).id = cpu.id) {G : Face → Face}
    (hG : ∀ cpu, (g cpu).face = G cpu.face) {k : Id} {n m : Node} (hk : k ∈ n.info.cpu_list.map SdCpu.id)
    (hm : m.info.cpu_list = Keyed.modify SdCpu.id k g n.info.cpu_list) (id : Id) :
    m.facet id = if k = id then G (n.facet id) else n.facet id := by
  rw [Node.facet, Node.facet, sd_cpu_get, sd_cpu_get, hm]
  by_cases h : k = id
  · subst h
    obtain ⟨cpu, hc⟩ := Option.isSome_iff_exists.mp ((Keyed.get_isSome SdCpu.id k _).mpr hk)
    simp [Keyed.get_modify_self SdCpu.id hg, hc, hG]
  · rw [Keyed.get_modify_of_ne SdCpu.id hg h, if_neg h]

theorem facet_step (c : Call) (q : Path) (id : Id) (n : Node)
    (hc : ∀ k, c.cpu_needed = some (q, k) → k ∈ n.info.cpu_list.map SdCpu.id) :
    (c.step cpu_type_vec q n).facet id = c.face_step q id (n.facet id) := by
  cases c with
  | sys p k =>
    refine facet_of_cpu_list ?_ id
    simp only [Call.step, Node.add_kid]
    split
    · split <;> rfl
    · rfl
  | cpu p k type cnt =>
    by_cases h : q = p
    · simp only [Call.step, if_pos h, Node.facet, Node.on_info, sd_cpu_get, cpus_get_or_new_cpu]
      by_cases hk : k = id
      · subst hk
        have hid : (new_cpu cpu_type_vec k type cnt).id = k := rfl
        have hget := Keyed.get_obtain_self SdCpu.id (new_cpu cpu_type_vec k type cnt) n.info.cpu_list
        rw [hid] at hget
        rw [hget]
        cases Keyed.get SdCpu.id k n.info.cpu_list <;> rfl
      · rw [Keyed.get_obtain_of_ne SdCpu.id (show (new_cpu cpu_type_vec k type cnt).id ≠ id from hk)]
        rfl
    · simp only [Call.step, if_neg h]
      rfl
  | set p k s =>
    by_cases h : q = p
    · subst h
      simp only [Call.step, if_true]
      rw [facet_modify (id_sd_cpu_set s) (G := fun f => { f with cur := s.apply f.cur }) (face_sd_cpu_set s)
        (n := n) (hc k rfl) rfl]
      by_cases hk : k = id
      · simp [Call.face_step, Call.setter, hk]
      · simp [Call.face_step, Call.setter, hk, Call.cpu_done]
    · simp [Call.step, h, Call.face_step, Call.setter, Ne.symm h, Call.cpu_done]
  | cpu_commit p k =>
    by_cases h : q = p
    · subst h
      simp only [Call.step, if_true]
      rw [facet_modify id_commit_cpu (G := fun f => { f with active := true }) face_commit_cpu (n :=
        n) (hc k rfl) rfl]
      simp [Call.face_step, Call.setter, Call.cpu_done]
    · simp [Call.step, h, Call.face_step, Call.setter, Ne.symm h, Call.cpu_done]
  | sys_commit p k =>
    refine facet_of_cpu_list ?_ id
    simp only [Call.step, Node.on_info, activate, count_child]
    split
    · rfl
    · split <;> rfl
  | root_commit =>
    refine facet_of_cpu_list ?_ id
    simp only [Call.step, Node.on_info, activate]
    split <;> rfl

/-! ### All calls of a cycle -/

theorem run_cons (q : Path) (c : Call) (calls : List Call) (n : Node) :
    n.run cpu_type_vec q (c :: calls) = (c.step cpu_type_vec q n).run cpu_type_vec q calls := rfl

theorem mem_systems_committed_cons (c : Call) (calls : List Call) (p : Path) (id : Id) :
    id ∈ systems_committed (c :: calls) p ↔ c.sys_done = some (p, id) ∨ id ∈ systems_committed calls p := by
  rw [systems_committed, mem_at_path, filterMap_cons_toList, List.mem_append, systems_committed, mem_at_path]
  simp

theorem run_active (p : Path) (id : Id) : ∀ (calls : List Call) (n : Node),
    (n.run cpu_type_vec (p ++ [id]) calls).info.active = (n.info.active || decide (id ∈ systems_committed calls p))
  | [], n => by simp [Node.run, systems_committed, at_path]
  | c :: calls, n => by
    rw [run_cons, run_active p id calls, step_active, Bool.or_assoc, ← Bool.decide_or]
    simp only [mem_systems_committed_cons]

theorem run_child_cnt_active (q : Path) : ∀ (calls : List Call) (n : Node),
    (n.run cpu_type_vec q calls).info.child_cnt_active =
      n.info.child_cnt_active + (systems_committed calls q).length
  | [], n => rfl
  | c :: calls, n => by
    rw [run_cons, run_child_cnt_active q calls, step_child_cnt_active, systems_committed, systems_committed,
      filterMap_cons_toList, at_path_cons, List.length_append, Nat.add_assoc]

theorem run_cpu_cnt (q : Path) : ∀ (calls : List Call) (n : Node),
    (n.run cpu_type_vec q calls).info.cpu_cnt = n.info.cpu_cnt ∧
      (n.run cpu_type_vec q calls).info.cpu_cnt_active = n.info.cpu_cnt_active + (cpus_committed calls q).length
  | [], n => ⟨rfl, rfl⟩
  | c :: calls, n => by
    obtain ⟨h1, h2⟩ := run_cpu_cnt q calls (c.step cpu_type_vec q n)
    obtain ⟨h3, h4⟩ := step_cpu_cnt cpu_type_vec c q n
    rw [run_cons, h1, h2, h3, h4, cpus_committed, cpus_committed, filterMap_cons_toList, at_path_cons,
      List.length_append, Nat.add_assoc]
    exact ⟨rfl, rfl⟩

theorem run_kids (q : Path) : ∀ (calls : List Call) (n : Node), n.kids.Nodup →
    (n.run cpu_type_vec q calls).kids.Nodup ∧
      ∀ k, k ∈ (n.run cpu_type_vec q calls).kids ↔ k ∈ n.kids ∨ (q, k) ∈ calls.filterMap Call.sys_got
  | [], n, hn => ⟨hn, fun k => by simp [Node.run]⟩
  | c :: calls, n, hn => by
    obtain ⟨h1, h2⟩ := step_kids cpu_type_vec c q n hn
    obtain ⟨h3, h4⟩ := run_kids q calls _ h1
    refine ⟨h3, fun k => ?_⟩
    rw [run_cons, h4, h2, filterMap_cons_toList, List.mem_append, or_assoc]
    simp

theorem run_cpus (q : Path) : ∀ (calls : List Call) (n : Node), (n.info.cpu_list.map SdCpu.id).Nodup →
    ((n.run cpu_type_vec q calls).info.cpu_list.map SdCpu.id).Nodup ∧
      ∀ k, k ∈ (n.run cpu_type_vec q calls).info.cpu_list.map SdCpu.id ↔
        k ∈ n.info.cpu_list.map SdCpu.id ∨ (q, k) ∈ calls.filterMap Call.cpu_got
  | [], n, hn => ⟨hn, fun k => by simp [Node.run]⟩
  | c :: calls, n, hn => by
    obtain ⟨h1, h2⟩ := step_cpus cpu_type_vec c q n hn
    obtain ⟨h3, h4⟩ := run_cpus q calls _ h1
    refine ⟨h3, fun k => ?_⟩
    rw [run_cons, h4, h2, filterMap_cons_toList, List.mem_append, or_assoc]
    simp

theorem facet_run (q : Path) (id : Id) : ∀ {calls : List Call} {systems cpus} {n : Node},
    Handled systems cpus calls →
    (n.info.cpu_list.map SdCpu.id).Nodup → (∀ k, (q, k) ∈ cpus → k ∈ n.info.cpu_list.map SdCpu.id) →
    (n.run cpu_type_vec q calls).facet id = calls.foldl (fun f c => c.face_step q id f) (n.facet id)
  | [], _, _, _, _, _, _ => rfl
  | c :: calls, systems, cpus, n, hc, hn, hcpus => by
    obtain ⟨_, hneeded, hr⟩ := hc
    obtain ⟨h1, h2⟩ := step_cpus cpu_type_vec c q n hn
    rw [run_cons, facet_run q id hr h1 ?_, facet_step, List.foldl_cons]
    · exact fun k hk => hcpus k (hneeded _ hk)
    · intro k hk
      rw [h2]
      rcases List.mem_append.mp hk with hk | hk
      · exact .inr (by simpa using hk)
      · exact .inl (hcpus k hk)

theorem foldl_face_step (q : Path) (id : Id) : ∀ (calls : List Call) (f : Face),
    calls.foldl (fun f c => c.face_step q id f) f =
      { active := f.active || decide (id ∈ cpus_committed calls q),
        cur := (setters calls q id).foldl Setter.apply f.cur,
        prev := f.prev }
  | [], f => by simp [cpus_committed, at_path, setters]
  | c :: calls, f => by
    have hcons : id ∈ cpus_committed (c :: calls) q ↔ c.cpu_done = some (q, id) ∨ id ∈ cpus_committed calls q := by
      rw [cpus_committed, mem_at_path, filterMap_cons_toList, List.mem_append, cpus_committed, mem_at_path]
      simp
    rw [List.foldl_cons, foldl_face_step q id calls, Call.face_step]
    cases hs : c.setter q id with
    | some s =>
      have hd : c.cpu_done = none := by
        cases c with
        | set => rfl
        | _ => simp [Call.setter] at hs
      simp [setters, hs, hcons, hd]
    | none =>
      by_cases hd : c.cpu_done = some (q, id)
      · simp [setters, hs, hcons, hd]
      · simp [setters, hs, hcons, hd]

end

end Hyptop
