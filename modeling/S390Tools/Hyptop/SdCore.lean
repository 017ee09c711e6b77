import S390Tools.Lib.Keyed

/-!
# The system database (hyptop/sd_core.c, hyptop/sd.h)

Systems form a tree below the root, each with its CPUs. A data gatherer starts an
update cycle, gets or creates the systems and CPUs of its snapshot, sets their
values and commits them; the end of the cycle removes what was not committed.
A system is named here by the ids on the way to it from the root.
-/

namespace Hyptop

def SD_SYS_ID_SIZE : Nat := 9

/-- The name of a system or CPU, as its array holds it with the closing NUL. -/
structure Id where
  chars : List Char
  fits : chars.length < SD_SYS_ID_SIZE
  deriving DecidableEq

structure SdCpuInfo where
  cpu_time_us : UInt64 := 0
  thread_time_us : UInt64 := 0
  mgm_time_us_set : UInt64 := 0
  mgm_time_us : UInt64 := 0
  wait_time_us : UInt64 := 0
  steal_time_us : Int64 := 0
  online_time_us : UInt64 := 0
  deriving DecidableEq

inductive Sample
  | d1
  | d2
  deriving DecidableEq

structure SdCpu where
  id : Id
  active : Bool := false
  type : Option (List Char)
  d1 : SdCpuInfo := {}
  d2 : SdCpuInfo := {}
  d_cur : Sample := .d1
  d_prev : Option Sample := none
  cnt : Nat
  apart : d_prev ≠ some d_cur := by decide
  first : d_prev = none → d_cur = .d1 := by decide
  deriving DecidableEq

structure SysInfo where
  active : Bool := false
  update_time_us : UInt64 := 0
  child_cnt : Nat := 0
  child_cnt_active : Nat := 0
  cpu_cnt : Nat := 0
  cpu_cnt_active : Nat := 0
  cpu_list : List SdCpu := []
  threads_per_core : Nat := 1

inductive SdSys
  | node (id : Id) (info : SysInfo) (child_list : List SdSys)

namespace SdSys

def id : SdSys → Id
  | node id _ _ => id

def info : SdSys → SysInfo
  | node _ info _ => info

def child_list : SdSys → List SdSys
  | node _ _ child_list => child_list

end SdSys

/-! ## CPUs -/

/-- The setters of sd.h that write to the current sample. -/
inductive Setter
  | cpu_time_us (value : UInt64)
  | thread_time_us (value : UInt64)
  | mgm_time_us (value : UInt64)
  | wait_time_us (value : UInt64)
  | steal_time_us (value : Int64)
  | online_time_us (value : UInt64)
  deriving DecidableEq

def Setter.apply (d : SdCpuInfo) : Setter → SdCpuInfo
  | cpu_time_us value => { d with cpu_time_us := value }
  | thread_time_us value => { d with thread_time_us := value }
  | mgm_time_us value => { d with mgm_time_us_set := 1, mgm_time_us := value }
  | wait_time_us value => { d with wait_time_us := value }
  | steal_time_us value => { d with steal_time_us := value }
  | online_time_us value => { d with online_time_us := value }

def SdCpu.sample (cpu : SdCpu) : Sample → SdCpuInfo
  | .d1 => cpu.d1
  | .d2 => cpu.d2

def SdCpu.cur (cpu : SdCpu) : SdCpuInfo :=
  cpu.sample cpu.d_cur

/-- What `d_prev` points to, if it is not `NULL`. -/
def SdCpu.prev (cpu : SdCpu) : Option SdCpuInfo :=
  cpu.d_prev.map cpu.sample

def sd_cpu_set (s : Setter) (cpu : SdCpu) : SdCpu :=
  match cpu.d_cur with
  | .d1 => { cpu with d1 := s.apply cpu.d1 }
  | .d2 => { cpu with d2 := s.apply cpu.d2 }

def sd_cpu_get (sys : SysInfo) (id : Id) : Option SdCpu :=
  Keyed.get SdCpu.id id sys.cpu_list

def l_cpu_type_by_id (cpu_type_vec : List (List Char)) (id : List Char) : Option (List Char) :=
  cpu_type_vec.find? fun type => type = id

def new_cpu (cpu_type_vec : List (List Char)) (id : Id) (type : List Char) (cnt : Nat) : SdCpu :=
  { id, type := l_cpu_type_by_id cpu_type_vec type, cnt }

def sd_cpu_new (cpu_type_vec : List (List Char)) (parent : SysInfo) (id : Id) (type : List Char)
    (cnt : Nat) : SysInfo :=
  { parent with cpu_list := parent.cpu_list ++ [new_cpu cpu_type_vec id type cnt] }

def commit_cpu (cpu : SdCpu) : SdCpu :=
  { cpu with active := true }

def sd_cpu_commit (id : Id) (parent : SysInfo) : SysInfo :=
  { parent with cpu_list := Keyed.modify SdCpu.id id commit_cpu parent.cpu_list,
                cpu_cnt_active := parent.cpu_cnt_active + 1 }

def l_cpu_update_start (cpu : SdCpu) : SdCpu :=
  match h : cpu.d_prev with
  | none => { cpu with active := false, d_prev := some .d1, d_cur := .d2, apart := by decide, first := by simp }
  | some prev =>
    { cpu with active := false, d_prev := some cpu.d_cur, d_cur := prev,
               apart := fun e => cpu.apart (h.trans e.symm), first := by simp }

def l_cpu_update_end (sys : SysInfo) : SysInfo :=
  if sys.cpu_cnt_active = sys.cpu_cnt then sys
  else { sys with cpu_list := sys.cpu_list.filter (·.active), cpu_cnt := sys.cpu_cnt_active }

/-! ## Systems -/

def sd_sys_get (parent : SdSys) (id : Id) : Option SdSys :=
  Keyed.get SdSys.id id parent.child_list

def new_sys (id : Id) : SdSys :=
  .node id {} []

def sd_sys_new : SdSys → Id → SdSys
  | .node pid info child_list, id =>
    .node pid { info with child_cnt := info.child_cnt + 1 } (child_list ++ [new_sys id])

mutual

def sd_sys_update_start : SdSys → SdSys
  | .node id info child_list =>
    .node id { info with active := false, child_cnt_active := 0, cpu_cnt_active := 0,
                         cpu_list := info.cpu_list.map l_cpu_update_start } (start_children child_list)

def start_children : List SdSys → List SdSys
  | [] => []
  | child :: children => sd_sys_update_start child :: start_children children

end

mutual

def l_sys_update_end : SdSys → SdSys
  | .node id info child_list =>
    .node id { l_cpu_update_end info with child_cnt := info.child_cnt_active } (end_children child_list)

def end_children : List SdSys → List SdSys
  | [] => []
  | child :: children =>
    if child.info.active then l_sys_update_end child :: end_children children else end_children children

end

def sd_sys_update_end (update_time_us : UInt64) : SdSys → SdSys
  | .node id info child_list => l_sys_update_end (.node id { info with update_time_us } child_list)

def root_sys : SdSys :=
  new_sys ⟨['r', 'o', 'o', 't'], by decide⟩

/-! ## What a data gatherer calls -/

abbrev Path := List Id

def on_sys (f : SdSys → SdSys) : Path → SdSys → SdSys
  | [], sys => f sys
  | id :: p, .node sid info child_list => .node sid info (Keyed.modify SdSys.id id (on_sys f p) child_list)

def on_info (g : SysInfo → SysInfo) : SdSys → SdSys
  | .node id info child_list => .node id (g info) child_list

/-- One call between the start and the end of a cycle. `sys` and `cpu` are the
lookup with the creation that follows when nothing is found. -/
inductive Call
  | sys (parent : Path) (id : Id)
  | cpu (sys : Path) (id : Id) (type : List Char) (cnt : Nat)
  | set (sys : Path) (id : Id) (s : Setter)
  | cpu_commit (sys : Path) (id : Id)
  | sys_commit (parent : Path) (id : Id)
  | root_commit

section
variable (cpu_type_vec : List (List Char))

def get_or_new_sys (id : Id) (parent : SdSys) : SdSys :=
  match sd_sys_get parent id with
  | some _ => parent
  | none => sd_sys_new parent id

def get_or_new_cpu (id : Id) (type : List Char) (cnt : Nat) (sys : SysInfo) : SysInfo :=
  match sd_cpu_get sys id with
  | some _ => sys
  | none => sd_cpu_new cpu_type_vec sys id type cnt

def set_cpu (id : Id) (s : Setter) (sys : SysInfo) : SysInfo :=
  { sys with cpu_list := Keyed.modify SdCpu.id id (sd_cpu_set s) sys.cpu_list }

def activate (sys : SysInfo) : SysInfo :=
  { sys with active := true }

def count_child (sys : SysInfo) : SysInfo :=
  { sys with child_cnt_active := sys.child_cnt_active + 1 }

def Call.exec (root : SdSys) : Call → SdSys
  | sys p id => on_sys (get_or_new_sys id) p root
  | cpu p id type cnt => on_sys (on_info (get_or_new_cpu cpu_type_vec id type cnt)) p root
  | set p id s => on_sys (on_info (set_cpu id s)) p root
  | cpu_commit p id => on_sys (on_info (sd_cpu_commit id)) p root
  | sys_commit p id => on_sys (on_info count_child) p (on_sys (on_info activate) (p ++ [id]) root)
  | root_commit => on_info activate root

structure Cycle where
  calls : List Call
  update_time_us : UInt64

def report (root : SdSys) (calls : List Call) : SdSys :=
  calls.foldl (Call.exec cpu_type_vec) root

def update_sys (root : SdSys) (c : Cycle) : SdSys :=
  sd_sys_update_end c.update_time_us (report cpu_type_vec (sd_sys_update_start root) c.calls)

end

end Hyptop
