import S390Tools.Hyptop.Cycle

/-!
# The database after an update cycle

A cycle leaves the systems that were committed, and a system keeps a CPU that was
not committed only when as many CPUs were committed in this cycle as in the one
before: the end of the cycle looks for lost CPUs only when the two numbers differ.
-/

namespace Hyptop

/-! ## Values set in a cycle -/

def Setter.same : Setter → Setter → Bool
  | cpu_time_us _, cpu_time_us _ => true
  | thread_time_us _, thread_time_us _ => true
  | mgm_time_us _, mgm_time_us _ => true
  | wait_time_us _, wait_time_us _ => true
  | steal_time_us _, steal_time_us _ => true
  | online_time_us _, online_time_us _ => true
  | _, _ => false

def Setter.holds (d : SdCpuInfo) : Setter → Prop
  | cpu_time_us value => d.cpu_time_us = value
  | thread_time_us value => d.thread_time_us = value
  | mgm_time_us value => d.mgm_time_us_set = 1 ∧ d.mgm_time_us = value
  | wait_time_us value => d.wait_time_us = value
  | steal_time_us value => d.steal_time_us = value
  | online_time_us value => d.online_time_us = value

/-- Every member that is set has the value it was set to last. -/
def Holds (l : List Setter) (d : SdCpuInfo) : Prop :=
  ∀ pre s post, l = pre ++ s :: post → (∀ t ∈ post, s.same t = false) → s.holds d

theorem holds_apply_self (s : Setter) (d : SdCpuInfo) : s.holds (s.apply d) := by
  cases s with
  | mgm_time_us value => exact ⟨rfl, rfl⟩
  | _ => rfl

theorem holds_apply_of_not_same {s t : Setter} (h : s.same t = false) {d : SdCpuInfo} (hs : s.holds d) :
    s.holds (t.apply d) := by
  cases s <;> cases t <;> first | exact hs | cases h

theorem holds_foldl_apply {s : Setter} : ∀ (post : List Setter) {d : SdCpuInfo}, (∀ t ∈ post, s.same t = false) →
    s.holds d → s.holds (post.foldl Setter.apply d)
  | [], _, _, hs => hs
  | t :: post, _, h, hs =>
    holds_foldl_apply post (fun u hu => h u (List.mem_cons_of_mem t hu))
      (holds_apply_of_not_same (h t List.mem_cons_self) hs)

theorem holds_setters (l : List Setter) (d : SdCpuInfo) : Holds l (l.foldl Setter.apply d) := by
  intro pre s post hl hp
  rw [hl, List.foldl_append, List.foldl_cons]
  exact holds_foldl_apply post hp (holds_apply_self s _)

/-! ## What the database shows -/

/-- One system after a cycle with the calls `now` that followed one with the calls `old`. -/
structure Exact (old now : List Call) (before : SdSys) (p : Path) (sys : SdSys) : Prop where
  children : (sys.child_list.map SdSys.id).Perm (systems_committed now p)
  child_cnt : sys.info.child_cnt = (systems_committed now p).length
  cpus : (sys.info.cpu_list.map SdCpu.id).Perm (cpus_committed now p)
  cpu_cnt : sys.info.cpu_cnt = (cpus_committed now p).length
  cur : ∀ cpu ∈ sys.info.cpu_list, Holds (setters now p cpu.id) cpu.cur
  prev_none : ∀ cpu ∈ sys.info.cpu_list, cpu.id ∉ cpus_committed old p → cpu.d_prev = none
  prev : ∀ cpu ∈ sys.info.cpu_list, cpu.id ∈ cpus_committed old p →
    ∃ sys0 cpu0, sys_at p before = some sys0 ∧ cpu0 ∈ sys0.info.cpu_list ∧ cpu0.id = cpu.id ∧
      cpu.prev = some cpu0.cur ∧ Holds (setters old p cpu.id) cpu0.cur

def Reflects (old now : List Call) (before after : SdSys) : Prop :=
  ∀ p sys, sys_at p after = some sys → Exact old now before p sys

/-- A system with as many CPUs as in the cycle before has lost none. -/
def NoHiddenLoss (old now : List Call) : Prop :=
  ∀ p, (cpus_committed old p).length = (cpus_committed now p).length →
    ∀ id ∈ cpus_committed old p, id ∈ cpus_committed now p

theorem noHiddenLoss_iff {old now : List Call} : NoHiddenLoss old now ↔
    ∀ x ∈ old.filterMap Call.cpu_done, (cpus_committed old x.1).length = (cpus_committed now x.1).length →
      x.2 ∈ cpus_committed now x.1 := by
  constructor
  · intro h x hx heq
    exact h x.1 heq x.2 (mem_at_path.2 hx)
  · intro h p heq id hid
    exact h (p, id) (mem_at_path.1 hid) heq

instance (old now : List Call) : Decidable (NoHiddenLoss old now) :=
  decidable_of_iff' _ noHiddenLoss_iff

structure Prior (old : List Call) (sys : SdSys) : Prop where
  distinct : Distinct sys
  cpus : ∀ p, ((seen p sys).info.cpu_list.map SdCpu.id).Perm (cpus_committed old p)
  cpu_cnt : ∀ p, (seen p sys).info.cpu_cnt = (cpus_committed old p).length
  cur : ∀ p, ∀ cpu ∈ (seen p sys).info.cpu_list, Holds (setters old p cpu.id) cpu.cur

theorem prior_root : Prior [] root_sys where
  distinct p := by simp [root_sys, seen_new_sys]
  cpus p := by simp [root_sys, seen_new_sys, cpus_committed, at_path]
  cpu_cnt p := by simp [root_sys, seen_new_sys, cpus_committed, at_path]
  cur p cpu hcpu := by simp [root_sys, seen_new_sys] at hcpu

/-! ## The end of a cycle -/

theorem seen_start (q : Path) (sys : SdSys) : seen q (sd_sys_update_start sys) = (seen q sys).start := by
  rw [seen, look_start, seen]
  cases look q sys <;> rfl

def stamp (update_time_us : UInt64) (info : SysInfo) : SysInfo :=
  { info with update_time_us }

theorem update_end_stamp (t : UInt64) (info : SysInfo) :
    l_cpu_update_end (stamp t info) = stamp t (l_cpu_update_end info) := by
  by_cases h : info.cpu_cnt_active = info.cpu_cnt
  · rw [l_cpu_update_end, l_cpu_update_end, if_pos h, if_pos (show (stamp t info).cpu_cnt_active =
      (stamp t info).cpu_cnt from h)]
  · rw [l_cpu_update_end, l_cpu_update_end, if_neg h,
      if_neg (show (stamp t info).cpu_cnt_active ≠ (stamp t info).cpu_cnt from h)]
    rfl

theorem sd_sys_update_end_eq (t : UInt64) (sys : SdSys) :
    sd_sys_update_end t sys = l_sys_update_end (on_sys (on_info (stamp t)) [] sys) := by
  cases sys
  rfl

theorem ids_start (l : List SdCpu) : (l.map l_cpu_update_start).map SdCpu.id = l.map SdCpu.id := by
  simp [Function.comp_def, id_l_cpu_update_start]

section
variable (cpu_type_vec : List (List Char)) {sys : SdSys} {c : Cycle} (hs : Distinct sys) (hc : Ok c.calls)

def reported (sys : SdSys) (c : Cycle) (q : Path) : Node :=
  (seen q sys).start.run cpu_type_vec q c.calls

def stamped (sys : SdSys) (c : Cycle) : SdSys :=
  on_sys (on_info (stamp c.update_time_us)) [] (report cpu_type_vec (sd_sys_update_start sys) c.calls)

theorem update_sys_eq (sys : SdSys) (c : Cycle) : update_sys cpu_type_vec sys c =
    l_sys_update_end (stamped cpu_type_vec sys c) := by
  rw [update_sys, sd_sys_update_end_eq, stamped]

include hc in
theorem seen_stamped (q : Path) : seen q (stamped cpu_type_vec sys c) =
    if q = [] then (reported cpu_type_vec sys c q).on_info (stamp c.update_time_us)
      else reported cpu_type_vec sys c q := by
  have hp : ∀ p ∈ [([] : Path)], Present p (sd_sys_update_start sys) := fun p hp => by
    rw [List.mem_singleton.mp hp]
    exact rfl
  have h := (seen_report cpu_type_vec hc.handled hp q).1
  rw [seen_start] at h
  rw [stamped, seen_on_info (p := []) _ rfl, h]
  rfl

include hc in
theorem present_stamped {q : Path} (h : Alive c.calls q) : Present q (stamped cpu_type_vec sys c) := by
  rw [stamped, present_on_info]
  have hp : ∀ p ∈ [([] : Path)], Present p (sd_sys_update_start sys) := fun p hp => by
    rw [List.mem_singleton.mp hp]
    exact rfl
  rw [(seen_report cpu_type_vec hc.handled hp q).2]
  rcases List.eq_nil_or_concat q with rfl | ⟨p, k, rfl⟩
  · exact .inl rfl
  · exact .inr ⟨(p, k), hc.got_of_system (h p k (by simp)), by simp⟩

include hc in
theorem active_stamped (p : Path) (k : Id) :
    (seen (p ++ [k]) (stamped cpu_type_vec sys c)).info.active = decide (k ∈ systems_committed c.calls p) := by
  rw [seen_stamped cpu_type_vec hc, if_neg (by simp), reported, run_active]
  rfl

include hs in
theorem reported_distinct (q : Path) : (reported cpu_type_vec sys c q).kids.Nodup ∧
    ((reported cpu_type_vec sys c q).info.cpu_list.map SdCpu.id).Nodup := by
  obtain ⟨h1, h2⟩ := hs q
  refine ⟨(run_kids cpu_type_vec q c.calls (seen q sys).start h1).1, (run_cpus cpu_type_vec q c.calls _ ?_).1⟩
  rwa [← ids_start] at h2

include hs hc in
theorem distinct_stamped : Distinct (stamped cpu_type_vec sys c) := by
  intro q
  rw [seen_stamped cpu_type_vec hc]
  split
  · exact reported_distinct cpu_type_vec hs q
  · exact reported_distinct cpu_type_vec hs q

include hs hc in
theorem look_update_sys {q : Path} (h : Alive c.calls q) : look q (update_sys cpu_type_vec sys c) =
    some ((seen q (stamped cpu_type_vec sys c)).finish fun k => decide (k ∈ systems_committed c.calls q)) := by
  rw [update_sys_eq, look_end_of_active q (distinct_stamped cpu_type_vec hs hc)]
  · have hpresent : Present q (stamped cpu_type_vec sys c) := present_stamped cpu_type_vec hc h
    obtain ⟨n, hn⟩ := Option.isSome_iff_exists.mp hpresent
    have hseen : seen q (stamped cpu_type_vec sys c) = n := by
      rw [seen, hn]
      rfl
    simp only [active_stamped cpu_type_vec hc, hn, hseen, Option.map_some]
  · intro r k hr
    rw [active_stamped cpu_type_vec hc, decide_eq_true_eq]
    exact h r k hr

include hs hc in
theorem alive_of_present {q : Path} (h : Present q (update_sys cpu_type_vec sys c)) : Alive c.calls q := by
  intro r k hr
  by_contra hk
  have hactive : (seen (r ++ [k]) (stamped cpu_type_vec sys c)).info.active = false := by
    rw [active_stamped cpu_type_vec hc, decide_eq_false hk]
  rw [update_sys_eq, Present, look_end_of_inactive r (distinct_stamped cpu_type_vec hs hc) hr hactive] at h
  cases h

end

/-! ### One system at the end of the cycle -/

section
variable (cpu_type_vec : List (List Char)) {sys : SdSys} {old : List Call} {c : Cycle}
    (hp : Prior old sys) (hc : Ok c.calls)

theorem finish_stamped (q : Path) (sys : SdSys) (keep : Id → Bool) (hc : Ok c.calls) :
    ((seen q (stamped cpu_type_vec sys c)).finish keep).kids = (reported cpu_type_vec sys c q).kids.filter keep ∧
      ((seen q (stamped cpu_type_vec sys c)).finish keep).info.child_cnt =
        (reported cpu_type_vec sys c q).info.child_cnt_active ∧
      ((seen q (stamped cpu_type_vec sys c)).finish keep).info.cpu_list =
        (l_cpu_update_end (reported cpu_type_vec sys c q).info).cpu_list ∧
      ((seen q (stamped cpu_type_vec sys c)).finish keep).info.cpu_cnt =
        (l_cpu_update_end (reported cpu_type_vec sys c q).info).cpu_cnt := by
  rw [seen_stamped cpu_type_vec hc]
  split
  · refine ⟨rfl, rfl, ?_, ?_⟩
    · simp only [Node.finish, Node.on_info, update_end_stamp]
      rfl
    · simp only [Node.finish, Node.on_info, update_end_stamp]
      rfl
  · exact ⟨rfl, rfl, rfl, rfl⟩

/-- The CPUs of a system when the end of the cycle looks at them. -/
structure Gathered (q : Path) (info : SysInfo) : Prop where
  nodup : (info.cpu_list.map SdCpu.id).Nodup
  mem : ∀ k, k ∈ info.cpu_list.map SdCpu.id ↔ k ∈ cpus_committed old q ∨ k ∈ cpus_committed c.calls q
  active : ∀ cpu ∈ info.cpu_list, cpu.active = decide (cpu.id ∈ cpus_committed c.calls q)
  cpu_cnt : info.cpu_cnt = (cpus_committed old q).length
  cpu_cnt_active : info.cpu_cnt_active = (cpus_committed c.calls q).length
  cur : ∀ cpu ∈ info.cpu_list, Holds (setters c.calls q cpu.id) cpu.cur
  prev : ∀ cpu ∈ info.cpu_list, cpu.prev = (sd_cpu_get (seen q sys).info cpu.id).map SdCpu.cur

include hp hc in
theorem gathered (q : Path) : @Gathered sys old c q (reported cpu_type_vec sys c q).info := by
  have hn := (hp.distinct q).2
  have hids : (seen q sys).start.info.cpu_list.map SdCpu.id = (seen q sys).info.cpu_list.map SdCpu.id := ids_start _
  have hn' : ((seen q sys).start.info.cpu_list.map SdCpu.id).Nodup := hids ▸ hn
  have hrun := run_cpus cpu_type_vec q c.calls _ hn'
  have hface : ∀ cpu ∈ (reported cpu_type_vec sys c q).info.cpu_list, cpu.face =
      { active := decide (cpu.id ∈ cpus_committed c.calls q),
        cur := (setters c.calls q cpu.id).foldl Setter.apply ((seen q sys).start.facet cpu.id).cur,
        prev := (sd_cpu_get (seen q sys).info cpu.id).map SdCpu.cur } := by
    intro cpu hcpu
    have hget : sd_cpu_get (reported cpu_type_vec sys c q).info cpu.id = some cpu :=
      Keyed.get_of_mem SdCpu.id hrun.1 hcpu
    have hfold := facet_run cpu_type_vec q cpu.id hc.handled hn' (fun k hk => absurd hk List.not_mem_nil)
    have hstart : ((seen q sys).start.facet cpu.id).active = false ∧
        ((seen q sys).start.facet cpu.id).prev = (sd_cpu_get (seen q sys).info cpu.id).map SdCpu.cur := by
      rw [Node.facet, sd_cpu_get, Node.start, Node.on_info,
        Keyed.get_map SdCpu.id id_l_cpu_update_start, sd_cpu_get]
      cases Keyed.get SdCpu.id cpu.id (seen q sys).info.cpu_list with
      | none => exact ⟨rfl, rfl⟩
      | some cpu0 => exact face_start cpu0
    rw [foldl_face_step, hstart.1, hstart.2, Bool.false_or] at hfold
    rw [← hfold]
    change cpu.face = ((sd_cpu_get (reported cpu_type_vec sys c q).info cpu.id).map SdCpu.face).getD {}
    rw [hget]
    rfl
  refine ⟨hrun.1, fun k => ?_, fun cpu h => ?_, ?_, ?_, fun cpu h => ?_, fun cpu h => ?_⟩
  · rw [reported, hrun.2, ← (hp.cpus q).mem_iff, hids]
    refine or_congr Iff.rfl ⟨fun h => mem_at_path.2 (hc.cpus _ h), hc.got_of_cpu⟩
  · exact congrArg Face.active (hface cpu h)
  · rw [reported, (run_cpu_cnt cpu_type_vec q c.calls _).1, ← hp.cpu_cnt q]
    rfl
  · rw [reported, (run_cpu_cnt cpu_type_vec q c.calls _).2]
    exact Nat.zero_add _
  · rw [show cpu.cur = _ from congrArg Face.cur (hface cpu h)]
    exact holds_setters _ _
  · exact congrArg Face.prev (hface cpu h)

theorem cpu_list_update_end {info : SysInfo} {cpu : SdCpu} (h : cpu ∈ (l_cpu_update_end info).cpu_list) :
    cpu ∈ info.cpu_list := by
  rw [l_cpu_update_end] at h
  split at h
  · exact h
  · exact (List.mem_filter.mp h).1

theorem Gathered.update_end {q : Path} {info : SysInfo} (g : @Gathered sys old c q info)
    (h : (cpus_committed old q).length = (cpus_committed c.calls q).length →
      ∀ id ∈ cpus_committed old q, id ∈ cpus_committed c.calls q) (hc : Ok c.calls) :
    ((l_cpu_update_end info).cpu_list.map SdCpu.id).Perm (cpus_committed c.calls q) ∧
      (l_cpu_update_end info).cpu_cnt = (cpus_committed c.calls q).length := by
  have hnow : (cpus_committed c.calls q).Nodup := nodup_at_path hc.cpus_once q
  by_cases heq : info.cpu_cnt_active = info.cpu_cnt
  · have hlen : (cpus_committed old q).length = (cpus_committed c.calls q).length := by
      rw [← g.cpu_cnt, ← g.cpu_cnt_active, heq]
    rw [l_cpu_update_end, if_pos heq]
    refine ⟨(List.perm_ext_iff_of_nodup g.nodup hnow).mpr fun k => ?_, by rw [g.cpu_cnt, hlen]⟩
    rw [g.mem]
    exact or_iff_right_of_imp (h hlen k)
  · rw [l_cpu_update_end, if_neg heq]
    refine ⟨(List.perm_ext_iff_of_nodup ?_ hnow).mpr fun k => ?_, g.cpu_cnt_active⟩
    · exact g.nodup.sublist (List.filter_sublist.map _)
    · simp only [List.mem_map, List.mem_filter]
      constructor
      · rintro ⟨cpu, ⟨hcpu, ha⟩, rfl⟩
        simpa [g.active cpu hcpu] using ha
      · intro hk
        obtain ⟨cpu, hcpu, rfl⟩ := List.mem_map.mp ((g.mem k).mpr (.inr hk))
        exact ⟨cpu, ⟨hcpu, by simpa [g.active cpu hcpu] using hk⟩, rfl⟩

include hp hc in
theorem kids_reported (q : Path) :
    ((reported cpu_type_vec sys c q).kids.filter fun k => decide (k ∈ systems_committed c.calls q)).Perm
      (systems_committed c.calls q) := by
  obtain ⟨hn, hm⟩ := run_kids cpu_type_vec q c.calls (seen q sys).start (hp.distinct q).1
  refine (List.perm_ext_iff_of_nodup (hn.filter _) (nodup_at_path hc.systems_once q)).mpr fun k => ?_
  rw [List.mem_filter, decide_eq_true_eq]
  exact and_iff_right_of_imp fun hk => (hm k).mpr (.inr (hc.got_of_system hk))

theorem child_cnt_reported (q : Path) :
    (reported cpu_type_vec sys c q).info.child_cnt_active = (systems_committed c.calls q).length := by
  rw [reported, run_child_cnt_active]
  exact Nat.zero_add _

theorem sys_at_of_get {q : Path} {cpu : SdCpu} {id : Id} (h : sd_cpu_get (seen q sys).info id = some cpu) :
    ∃ sys0, sys_at q sys = some sys0 ∧ cpu ∈ sys0.info.cpu_list ∧ cpu.id = id := by
  cases hq : sys_at q sys with
  | none =>
    rw [seen, look, hq] at h
    cases h
  | some sys0 =>
    rw [seen, look, hq] at h
    exact ⟨sys0, rfl, Keyed.mem_of_get SdCpu.id h, Keyed.key_of_get SdCpu.id h⟩

theorem d_prev_none {cpu : SdCpu} (h : cpu.prev = none) : cpu.d_prev = none :=
  Option.map_eq_none_iff.mp h

include hp hc in
theorem reflects_of_noHiddenLoss (h : NoHiddenLoss old c.calls) :
    Reflects old c.calls sys (update_sys cpu_type_vec sys c) := by
  intro q after hq
  have hlook : look q (update_sys cpu_type_vec sys c) = some after.view := by rw [look, hq]; rfl
  have halive := alive_of_present cpu_type_vec hp.distinct hc (Option.isSome_iff_exists.mpr ⟨_, hlook⟩)
  rw [look_update_sys cpu_type_vec hp.distinct hc halive, Option.some.injEq] at hlook
  obtain ⟨h1, h2, h3, h4⟩ :=
    finish_stamped cpu_type_vec q sys (fun k => decide (k ∈ systems_committed c.calls q)) hc
  rw [hlook] at h1 h2 h3 h4
  have g := gathered cpu_type_vec hp hc q
  obtain ⟨hcpus, hcnt⟩ := g.update_end (h q) hc
  have hsub : ∀ cpu ∈ after.info.cpu_list, cpu ∈ (reported cpu_type_vec sys c q).info.cpu_list := fun cpu hcpu =>
    cpu_list_update_end (h3 ▸ hcpu)
  refine ⟨?_, ?_, ?_, ?_, ?_, ?_, ?_⟩
  · rw [show after.child_list.map SdSys.id = _ from h1]
    exact kids_reported cpu_type_vec hp hc q
  · exact h2.trans (child_cnt_reported cpu_type_vec q)
  · exact h3 ▸ hcpus
  · exact h4.trans hcnt
  · exact fun cpu hcpu => g.cur cpu (hsub cpu hcpu)
  · intro cpu hcpu hid
    refine d_prev_none ((g.prev cpu (hsub cpu hcpu)).trans ?_)
    rw [Option.map_eq_none_iff, sd_cpu_get, Keyed.get_eq_none, (hp.cpus q).mem_iff]
    exact hid
  · intro cpu hcpu hid
    rw [← (hp.cpus q).mem_iff, ← Keyed.get_isSome, Option.isSome_iff_exists] at hid
    obtain ⟨cpu0, hget⟩ := hid
    obtain ⟨sys0, hsys0, hmem, hid0⟩ := sys_at_of_get hget
    refine ⟨sys0, cpu0, hsys0, hmem, hid0, ?_, ?_⟩
    · rw [g.prev cpu (hsub cpu hcpu), sd_cpu_get, hget]
      rfl
    · exact hid0 ▸ hp.cur q cpu0 (Keyed.mem_of_get SdCpu.id hget)

include hp hc in
theorem noHiddenLoss_of_reflects (h : Reflects old c.calls sys (update_sys cpu_type_vec sys c)) :
    NoHiddenLoss old c.calls := by
  intro q hlen id hid
  have hne : cpus_committed c.calls q ≠ [] := fun e => by
    rw [e] at hlen
    rw [List.length_eq_zero_iff.mp hlen] at hid
    cases hid
  obtain ⟨k, hk⟩ := List.exists_mem_of_ne_nil _ hne
  have hlook := look_update_sys cpu_type_vec hp.distinct hc (hc.alive_of_cpu hk)
  obtain ⟨after, hq, hview⟩ := Option.map_eq_some_iff.mp hlook
  obtain ⟨_, _, h3, _⟩ := finish_stamped cpu_type_vec q sys (fun k => decide (k ∈ systems_committed c.calls q)) hc
  rw [← hview] at h3
  have g := gathered cpu_type_vec hp hc q
  have heq : (reported cpu_type_vec sys c q).info.cpu_cnt_active =
    (reported cpu_type_vec sys c q).info.cpu_cnt := by
    rw [g.cpu_cnt_active, g.cpu_cnt, hlen]
  rw [l_cpu_update_end, if_pos heq] at h3
  rw [← (h q after hq).cpus.mem_iff, show after.info.cpu_list = _ from h3]
  exact (g.mem id).mpr (.inl hid)

include hp hc in
theorem prior_of_reflects (h : Reflects old c.calls sys (update_sys cpu_type_vec sys c)) :
    Prior c.calls (update_sys cpu_type_vec sys c) := by
  have key : ∀ q, (seen q (update_sys cpu_type_vec sys c) = {} ∧ systems_committed c.calls q = [] ∧
    cpus_committed c.calls q = []) ∨
      ∃ after, seen q (update_sys cpu_type_vec sys c) = after.view ∧ Exact old c.calls sys q after := by
    intro q
    cases hq : sys_at q (update_sys cpu_type_vec sys c) with
    | none =>
      have hdead : ¬Alive c.calls q := fun ha => by
        have hlook := look_update_sys cpu_type_vec hp.distinct hc ha
        rw [look, hq] at hlook
        cases hlook
      refine .inl ⟨by rw [seen, look, hq]; rfl, ?_, ?_⟩
      · refine List.eq_nil_iff_forall_not_mem.mpr fun k hk => hdead fun r k' hr => ?_
        exact hc.alive_of_system hk r k' (hr.trans (List.prefix_append q [k]))
      · exact List.eq_nil_iff_forall_not_mem.mpr fun k hk => hdead (hc.alive_of_cpu hk)
    | some after => exact .inr ⟨after, by rw [seen, look, hq]; rfl, h q after hq⟩
  refine ⟨fun q => ?_, fun q => ?_, fun q => ?_, fun q cpu hcpu => ?_⟩
  · rcases key q with ⟨h1, _, _⟩ | ⟨after, h1, he⟩
    · simp [h1]
    · rw [h1]
      exact ⟨he.children.nodup_iff.mpr (nodup_at_path hc.systems_once q),
        he.cpus.nodup_iff.mpr (nodup_at_path hc.cpus_once q)⟩
  · rcases key q with ⟨h1, _, h2⟩ | ⟨after, h1, he⟩
    · simp [h1, h2]
    · rw [h1]
      exact he.cpus
  · rcases key q with ⟨h1, _, h2⟩ | ⟨after, h1, he⟩
    · simp [h1, h2]
    · rw [h1]
      exact he.cpu_cnt
  · rcases key q with ⟨h1, _, _⟩ | ⟨after, h1, he⟩
    · simp [h1] at hcpu
    · rw [h1] at hcpu
      exact he.cur cpu hcpu

end

/-! ## All cycles -/

section
variable (cpu_type_vec : List (List Char))

def Truthful : List Call → SdSys → List Cycle → Prop
  | _, _, [] => True
  | old, sys, c :: cycles =>
    Reflects old c.calls sys (update_sys cpu_type_vec sys c) ∧
      Truthful c.calls (update_sys cpu_type_vec sys c) cycles

def Revealing : List Call → List Cycle → Prop
  | _, [] => True
  | old, c :: cycles => NoHiddenLoss old c.calls ∧ Revealing c.calls cycles

theorem truthful_iff_revealing : ∀ {cycles : List Cycle} {old : List Call} {sys : SdSys}, Prior old sys →
    (∀ c ∈ cycles, Ok c.calls) → (Truthful cpu_type_vec old sys cycles ↔ Revealing old cycles)
  | [], _, _, _, _ => Iff.rfl
  | c :: cycles, old, sys, hp, hok => by
    have hc := hok c List.mem_cons_self
    have hrest := fun h => truthful_iff_revealing (prior_of_reflects cpu_type_vec hp hc h)
      fun c' hc' => hok c' (List.mem_cons_of_mem c hc')
    constructor
    · intro ⟨h1, h2⟩
      exact ⟨noHiddenLoss_of_reflects cpu_type_vec hp hc h1, (hrest h1).mp h2⟩
    · intro ⟨h1, h2⟩
      have h := reflects_of_noHiddenLoss cpu_type_vec hp hc h1
      exact ⟨h, (hrest h).mpr h2⟩

/-- From `sd_init` on, the database reflects every cycle exactly when no cycle hides a loss. -/
theorem update_sys_truthful {cycles : List Cycle} (hok : ∀ c ∈ cycles, Ok c.calls) :
    Truthful cpu_type_vec [] root_sys cycles ↔ Revealing [] cycles :=
  truthful_iff_revealing cpu_type_vec prior_root hok

end

/-! ### A CPU replaced by another one -/

def lpar : Id := ⟨['L', 'P', '1'], by decide⟩

def cpu_id (c : Char) : Id := ⟨[c], by simp [SD_SYS_ID_SIZE]⟩

def online (c : Char) (t : UInt64) : List Call :=
  [.cpu [lpar] (cpu_id c) ['C', 'P'] 1, .set [lpar] (cpu_id c) (.cpu_time_us t), .cpu_commit [lpar] (cpu_id c)]

def snapshot (cpus : List Call) (t : UInt64) : Cycle :=
  { calls := .sys [] lpar :: cpus ++ [.sys_commit [] lpar, .root_commit], update_time_us := t }

def revealing_run : List Cycle :=
  [snapshot (online '0' 5) 1, snapshot (online '0' 7 ++ online '1' 2) 2, snapshot (online '1' 4) 3]

theorem revealing_run_ok : ∀ c ∈ revealing_run, Ok c.calls := by decide

theorem update_sys_truthful_sample :
    Revealing [] revealing_run ∧ Truthful [['C', 'P']] [] root_sys revealing_run :=
  have h : Revealing [] revealing_run := ⟨by decide, by decide, by decide, trivial⟩
  ⟨h, (update_sys_truthful [['C', 'P']] revealing_run_ok).mpr h⟩

/-- CPU 1 is replaced by CPU 2 and stays in the list. -/
theorem replaced_cpu_stays :
    (∀ c ∈ [snapshot (online '0' 5 ++ online '1' 5) 1, snapshot (online '0' 7 ++ online '2' 7) 2], Ok c.calls) ∧
      ¬Truthful [['C', 'P']] [] root_sys
        [snapshot (online '0' 5 ++ online '1' 5) 1, snapshot (online '0' 7 ++ online '2' 7) 2] := by
  refine ⟨by decide, fun ⟨_, h, _⟩ => ?_⟩
  have hstays : (sys_at [lpar] (update_sys [['C', 'P']]
      (update_sys [['C', 'P']] root_sys (snapshot (online '0' 5 ++ online '1' 5) 1))
      (snapshot (online '0' 7 ++ online '2' 7) 2))).any
        (fun sys => decide (cpu_id '1' ∈ sys.info.cpu_list.map SdCpu.id)) = true := by decide
  obtain ⟨sys, hsys, hmem⟩ := (Option.any_eq_true _ _).mp hstays
  have h1 := (h [lpar] sys hsys).cpus.mem_iff.mp (of_decide_eq_true hmem)
  exact absurd h1 (by decide)

end Hyptop
