import S390Tools.Lib.Run
import S390Tools.Lib.Chain

/-!
# The job queue of dump2tar

Jobs are numbered as they are created and linked through `next_job`. What a worker
does while it holds the main lock is one step; between the steps the workers are
interleaved in any order.
-/

namespace Dump2tar

open Chain Run

inductive JobType
  | INIT | FILE | LINK | DIR | CMD
  deriving DecidableEq

variable {W : Type}

/-- The queue of a task with the jobs that its workers have in progress. -/
structure Task (W : Type) where
  next_job : Nat → Option Nat
  type : Nat → JobType
  jobs_head : Option Nat
  jobs_tail : Option Nat
  num_jobs_active : Nat
  /-- the number of jobs that were created -/
  created : Nat
  running : List (W × Nat)
  /-- the jobs that were dequeued, in this order -/
  dequeued : List Nat

/-! ## Operations -/

def create_job (type : JobType) (t : Task W) : Nat × Task W :=
  (t.created, { t with next_job := Function.update t.next_job t.created none
                       type := Function.update t.type t.created type, created := t.created + 1 })

def queue_job_head (job : Nat) (t : Task W) : Task W :=
  { t with next_job := Function.update t.next_job job t.jobs_head, jobs_head := some job
           jobs_tail := if t.jobs_tail = none then some job else t.jobs_tail }

def queue_job_tail (job : Nat) (t : Task W) : Task W :=
  match t.jobs_tail with
  | some tail => { t with next_job := Function.update t.next_job tail (some job), jobs_tail := some job }
  | none => { t with jobs_head := some job, jobs_tail := some job }

def queue_job (job : Nat) (head : Bool) (t : Task W) : Task W :=
  let t := { t with num_jobs_active := t.num_jobs_active + 1 }
  if head then queue_job_head job t else queue_job_tail job t

def queue_jobs (first last num : Nat) (t : Task W) : Task W :=
  { t with next_job := Function.update t.next_job last t.jobs_head, jobs_head := some first
           num_jobs_active := t.num_jobs_active + num }

def dequeue_job (t : Task W) : Option Nat × Task W :=
  match t.jobs_head with
  | some job =>
    (some job, { t with jobs_head := t.next_job job, next_job := Function.update t.next_job job none
                        jobs_tail := if t.jobs_tail = some job then none else t.jobs_tail })
  | none => (none, t)

def complete_job (t : Task W) : Task W := { t with num_jobs_active := t.num_jobs_active - 1 }

def link_jobs : List JobType → Option (Nat × Nat) → Task W → Option (Nat × Nat) × Task W
  | [], jobs, t => (jobs, t)
  | type :: types, jobs, t =>
    let (job, t) := create_job type t
    match jobs with
    | some (first, last) =>
      link_jobs types (some (first, job)) { t with next_job := Function.update t.next_job last (some job) }
    | none => link_jobs types (some (job, job)) t

def init_queue : Task W :=
  let t : Task W := { next_job := fun _ => none, type := fun _ => .INIT, jobs_head := none, jobs_tail := none
                      num_jobs_active := 0, created := 0, running := [], dequeued := [] }
  let (job, t) := create_job .INIT t
  queue_job job true t

/-! ## Steps -/

inductive Event (W : Type)
  | queue_job (w : W) (head : Bool) (type : JobType)
  | queue_jobs (w : W) (types : List JobType)
  | dequeue (w : W)
  | complete (w : W)

def Task.at [DecidableEq W] (t : Task W) (w : W) : Option JobType := (t.running.lookup w).map t.type

def step [DecidableEq W] (t : Task W) : Event W → Option (Task W)
  | .queue_job w head type =>
    if t.at w = some .INIT then
      let (job, t) := create_job type t
      some (queue_job job head t)
    else none
  | .queue_jobs w types =>
    if t.at w = some .DIR then
      match link_jobs types none t with
      | (some (first, last), t) => some (queue_jobs first last types.length t)
      | (none, _) => none
    else none
  | .dequeue w =>
    if t.running.lookup w = none then
      match dequeue_job t with
      | (some job, t) => some { t with running := (w, job) :: t.running, dequeued := t.dequeued ++ [job] }
      | (none, t) => some t
    else none
  | .complete w =>
    if t.running.lookup w = none then none
    else some { complete_job t with running := t.running.filter fun r => r.1 ≠ w }

/-! ## The invariant -/

def Queued (t : Task W) (q : List Nat) : Prop := Seg t.next_job t.jobs_head q none

/-- No job is lost, none is taken twice, and the counter says when all are done. -/
structure Consistent (t : Task W) : Prop where
  queue : ∃ q, Queued t q ∧ q.Nodup ∧ (∀ j, j ∈ q ↔ j < t.created ∧ j ∉ t.dequeued) ∧ t.jobs_tail = q.getLast? ∧
    t.num_jobs_active = q.length + t.running.length
  once : t.dequeued.Nodup
  taken : ∀ j ∈ t.dequeued, j < t.created
  workers : (t.running.map (·.1)).Nodup
  finished : t.num_jobs_active = 0 ↔ t.running = [] ∧ ∀ j < t.created, j ∈ t.dequeued
  progress : 0 < t.num_jobs_active → t.jobs_head ≠ none ∨ t.running ≠ []

def Safe (t : Task W) : Event W → Prop
  | .queue_jobs _ _ => t.jobs_head ≠ none
  | _ => True

section
variable {t t' : Task W} {q : List Nat}

theorem Consistent.of_queue (hq : ∃ q, Queued t q ∧ q.Nodup ∧ (∀ j, j ∈ q ↔ j < t.created ∧ j ∉ t.dequeued) ∧
      t.jobs_tail = q.getLast? ∧ t.num_jobs_active = q.length + t.running.length)
    (once : t.dequeued.Nodup) (taken : ∀ j ∈ t.dequeued, j < t.created) (workers : (t.running.map (·.1)).Nodup) :
    Consistent t := by
  refine ⟨hq, once, taken, workers, ?_, ?_⟩
  · obtain ⟨q, -, -, hmem, -, hnum⟩ := hq
    rw [hnum]
    constructor
    · intro h
      have hq : q = [] := List.eq_nil_of_length_eq_zero (by omega)
      have hr : t.running = [] := List.eq_nil_of_length_eq_zero (by omega)
      subst hq
      refine ⟨hr, fun j hj => ?_⟩
      by_contra hout
      have := (hmem j).mpr ⟨hj, hout⟩
      cases this
    · rintro ⟨hr, hall⟩
      have hq : q = [] := by
        apply List.eq_nil_iff_forall_not_mem.mpr
        intro j hj
        obtain ⟨h₁, h₂⟩ := (hmem j).mp hj
        exact h₂ (hall j h₁)
      rw [hq, hr]
      rfl
  · intro hpos
    obtain ⟨q, hseg, -, -, -, hnum⟩ := hq
    cases q with
    | nil =>
      right
      intro hr
      rw [hnum, hr] at hpos
      cases hpos
    | cons x q =>
      left
      rw [hseg.head]
      simp

/-! ## Queueing -/

theorem queue_head_queued {job : Nat} (h : Queued t q) (hnew : job ∉ q) (htail : t.jobs_tail = q.getLast?) :
    Queued (queue_job_head job t) (job :: q) ∧ (queue_job_head job t).jobs_tail = (job :: q).getLast? := by
  constructor
  · refine ⟨rfl, ?_⟩
    show Seg (Function.update t.next_job job t.jobs_head) (Function.update t.next_job job t.jobs_head job) q none
    rw [Function.update_self]
    refine Seg.congr h fun x hx => Function.update_of_ne ?_ ..
    intro heq
    subst heq
    exact hnew hx
  · show (if t.jobs_tail = none then some job else t.jobs_tail) = _
    rw [htail]
    cases q with
    | nil => rfl
    | cons x q =>
      rw [if_neg (by simp), List.getLast?_cons_cons]

theorem queue_tail_queued {job : Nat} (h : Queued t q) (hnew : job ∉ q) (hnodup : q.Nodup)
    (hend : t.next_job job = none)
    (htail : t.jobs_tail = q.getLast?) :
    Queued (queue_job_tail job t) (q ++ [job]) ∧ (queue_job_tail job t).jobs_tail = (q ++ [job]).getLast? := by
  unfold queue_job_tail
  rw [htail, List.getLast?_concat]
  rcases List.eq_nil_or_concat q with rfl | ⟨l, last, rfl⟩
  · exact ⟨⟨rfl, hend⟩, rfl⟩
  · rw [List.concat_eq_append] at h hnew hnodup ⊢
    rw [List.getLast?_concat]
    have hlast : last ∉ l := fun hin => (List.disjoint_of_nodup_append hnodup) hin (List.mem_singleton.mpr rfl)
    refine ⟨Seg.append (Seg.relink h hlast (some job)) ⟨rfl, ?_⟩, rfl⟩
    show Function.update t.next_job last (some job) job = none
    rw [Function.update_of_ne, hend]
    intro heq
    subst heq
    exact hnew (List.mem_append_right _ (List.mem_singleton.mpr rfl))

theorem queue_job_tail_same (job : Nat) (t : Task W) :
    (queue_job_tail job t).created = t.created ∧ (queue_job_tail job t).num_jobs_active = t.num_jobs_active ∧
      (queue_job_tail job t).running = t.running ∧ (queue_job_tail job t).dequeued = t.dequeued := by
  unfold queue_job_tail
  split <;> exact ⟨rfl, rfl, rfl, rfl⟩

theorem link_jobs_spec : ∀ {types : List JobType} {first last : Nat} {l : List Nat} {t : Task W},
    Seg t.next_job (some first) (l ++ [last]) none → (l ++ [last]).Nodup → (∀ j ∈ l ++ [last], j < t.created) →
    ∃ l' last' t', link_jobs types (some (first, last)) t = (some (first, last'), t') ∧
      Seg t'.next_job (some first) (l' ++ [last']) none ∧ l' ++ [last'] = l ++ [last] ++
        List.range' t.created types.length ∧
      (∀ j < t.created, j ≠ last → t'.next_job j = t.next_job j) ∧ t'.created = t.created + types.length ∧
      t'.jobs_head = t.jobs_head ∧ t'.jobs_tail = t.jobs_tail ∧ t'.num_jobs_active = t.num_jobs_active ∧
      t'.running = t.running ∧ t'.dequeued = t.dequeued
  | [], first, last, l, t, hseg, _, _ =>
    ⟨l, last, t, rfl, hseg, by simp, fun _ _ _ => rfl, rfl, rfl, rfl, rfl, rfl, rfl⟩
  | type :: types, first, last, l, t, hseg, hnodup, hlt => by
    have hlast : last ∉ l := fun hin => (List.disjoint_of_nodup_append hnodup) hin (List.mem_singleton.mpr rfl)
    have hnew : last ≠ t.created := Nat.ne_of_lt (hlt last (List.mem_append_right _ (List.mem_singleton.mpr rfl)))
    let next := Function.update (Function.update t.next_job t.created none) last (some t.created)
    have hseg' : Seg next (some first) (l ++ [last] ++ [t.created]) none := by
      have h₁ : Seg (Function.update t.next_job t.created none) (some first) (l ++ [last]) none := by
        refine hseg.congr fun x hx => Function.update_of_ne ?_ ..
        exact Nat.ne_of_lt (hlt x hx)
      refine (h₁.relink hlast (some t.created)).append ⟨rfl, ?_⟩
      change Function.update (Function.update t.next_job t.created none) last (some t.created) t.created = none
      rw [Function.update_of_ne hnew.symm, Function.update_self]
    have hnodup' : (l ++ [last] ++ [t.created]).Nodup := by
      refine List.Nodup.append hnodup (List.nodup_singleton _) fun x hx hx' => ?_
      rw [List.mem_singleton.mp hx'] at hx
      exact Nat.lt_irrefl _ (hlt _ hx)
    have hlt' : ∀ j ∈ l ++ [last] ++ [t.created], j < t.created + 1 := by
      intro j hj
      rcases List.mem_append.mp hj with hj | hj
      · exact Nat.lt_succ_of_lt (hlt j hj)
      · rw [List.mem_singleton.mp hj]
        exact Nat.lt_succ_self _
    obtain ⟨l', last', t', hrun, h₁, h₂, h₃, h₄, h₅⟩ := @link_jobs_spec types _ _ _
      { t with next_job := next, type := Function.update t.type t.created type, created := t.created + 1 }
      hseg' hnodup' hlt'
    refine ⟨l', last', t', hrun, h₁, ?_, fun j hj hne => ?_, ?_, h₅⟩
    · rw [h₂, List.length_cons, List.range'_succ, List.append_assoc, List.append_assoc, List.append_assoc]
      rfl
    · rw [h₃ j (Nat.lt_succ_of_lt hj) (Nat.ne_of_lt hj)]
      change Function.update (Function.update t.next_job t.created none) last (some t.created) j = t.next_job j
      rw [Function.update_of_ne hne, Function.update_of_ne (Nat.ne_of_lt hj)]
    · rw [h₄, List.length_cons]
      show t.created + 1 + types.length = _
      omega

theorem link_jobs_new {type : JobType} {types : List JobType} (t : Task W) :
    ∃ l last t', link_jobs (type :: types) none t = (some (t.created, last), t') ∧
      Seg t'.next_job (some t.created) (l ++ [last]) none ∧ l ++ [last] = List.range' t.created (types.length + 1) ∧
      (∀ j < t.created, t'.next_job j = t.next_job j) ∧ t'.created = t.created + (types.length + 1) ∧
      t'.jobs_head = t.jobs_head ∧ t'.jobs_tail = t.jobs_tail ∧ t'.num_jobs_active = t.num_jobs_active ∧
      t'.running = t.running ∧ t'.dequeued = t.dequeued := by
  obtain ⟨l, last, t', hrun, h₁, h₂, h₃, h₄, h₅⟩ := @link_jobs_spec _ types t.created t.created []
    (create_job type t).2 ⟨rfl, Function.update_self ..⟩ (List.nodup_singleton _) (by
      intro j hj
      rw [List.mem_singleton.mp hj]
      exact Nat.lt_succ_self _)
  refine ⟨l, last, t', hrun, h₁, ?_, fun j hj => ?_, ?_, h₅⟩
  · rw [h₂, List.range'_succ]
    rfl
  · rw [h₃ j (Nat.lt_succ_of_lt hj) (Nat.ne_of_lt hj)]
    exact Function.update_of_ne (Nat.ne_of_lt hj) ..
  · rw [h₄]
    show t.created + 1 + types.length = _
    omega

theorem queue_jobs_queued {first last num : Nat} {l : List Nat} (h : Queued t q)
    (hnew : Seg t.next_job (some first) (l ++ [last]) none) (hnodup : (l ++ [last]).Nodup)
    (hdisj : ∀ x ∈ q, x ∉ l ++ [last]) : Queued (queue_jobs first last num t) (l ++ [last] ++ q) := by
  have hlast : last ∉ l := fun hin => (List.disjoint_of_nodup_append hnodup) hin (List.mem_singleton.mpr rfl)
  refine (hnew.relink hlast t.jobs_head).append (Seg.congr h fun x hx => Function.update_of_ne ?_ ..)
  intro heq
  subst heq
  exact hdisj x hx (List.mem_append_right _ (List.mem_singleton.mpr rfl))

theorem dequeue_queued {job : Nat} (h : Queued t (job :: q)) (hnew : job ∉ q)
    (htail : t.jobs_tail = (job :: q).getLast?) :
    ∃ t', dequeue_job t = (some job, t') ∧ Queued t' q ∧ t'.jobs_tail = q.getLast? ∧ t'.created = t.created ∧
      t'.num_jobs_active = t.num_jobs_active ∧ t'.running = t.running ∧ t'.dequeued = t.dequeued := by
  obtain ⟨hhead, hrest⟩ := h
  have hrun : dequeue_job t = (some job, { t with
      jobs_head := t.next_job job, next_job := Function.update t.next_job job none
      jobs_tail := if t.jobs_tail = some job then none else t.jobs_tail }) := by
    unfold dequeue_job
    rw [hhead]
  refine ⟨_, hrun, ?_, ?_, rfl, rfl, rfl, rfl⟩
  · refine Seg.congr hrest fun x hx => Function.update_of_ne ?_ ..
    intro heq
    subst heq
    exact hnew hx
  · show (if t.jobs_tail = some job then none else t.jobs_tail) = _
    rw [htail]
    cases q with
    | nil => exact if_pos rfl
    | cons x q =>
      rw [List.getLast?_cons_cons, if_neg]
      intro heq
      exact hnew (List.mem_of_getLast? heq)

/-! ## Steps keep the invariant -/

theorem Queued.created {type : JobType} (h : Queued t q) (hq : ∀ j ∈ q, j < t.created) :
    Queued (create_job type t).2 q :=
  Seg.congr h fun x hx => Function.update_of_ne (Nat.ne_of_lt (hq x hx)) ..

theorem Consistent.insert (h : Consistent t) (hq : Queued t q) {q' : List Nat} {k : Nat} (hq' : Queued t' q')
    (hperm : List.Perm q' (List.range' t.created k ++ q)) (htail : t'.jobs_tail = q'.getLast?)
    (hcreated : t'.created = t.created + k) (hactive : t'.num_jobs_active = t.num_jobs_active + k)
    (hrunning : t'.running = t.running) (hdequeued : t'.dequeued = t.dequeued) : Consistent t' := by
  obtain ⟨q₀, hq₀, hnodup, hmem, -, hnum⟩ := h.queue
  obtain rfl := Seg.unique hq₀ hq
  have hnew : ∀ j, j ∈ List.range' t.created k ↔ t.created ≤ j ∧ j < t.created + k := fun j => by
    rw [List.mem_range'_1]
  have hnodup' : (List.range' t.created k ++ q₀).Nodup := by
    refine List.Nodup.append (List.nodup_range' ..) hnodup fun x hx hx' => ?_
    have h₁ := ((hnew x).mp hx).1
    have h₂ := ((hmem x).mp hx').1
    omega
  refine Consistent.of_queue ⟨q', hq', hperm.nodup_iff.mpr hnodup', fun j => ?_, htail, ?_⟩ ?_ ?_ ?_
  · rw [hperm.mem_iff, List.mem_append, hnew, hmem, hcreated, hdequeued]
    constructor
    · intro hj
      rcases hj with ⟨h₁, h₂⟩ | ⟨h₁, h₂⟩
      · refine ⟨h₂, fun hin => ?_⟩
        have := h.taken j hin
        omega
      · exact ⟨by omega, h₂⟩
    · rintro ⟨h₁, h₂⟩
      rcases Nat.lt_or_ge j t.created with hlt | hge
      · exact .inr ⟨hlt, h₂⟩
      · exact .inl ⟨hge, h₁⟩
  · rw [hactive, hnum, hperm.length_eq, List.length_append, List.length_range', hrunning]
    omega
  · rw [hdequeued]
    exact h.once
  · rw [hdequeued, hcreated]
    intro j hj
    have := h.taken j hj
    omega
  · rw [hrunning]
    exact h.workers

variable [DecidableEq W]

theorem queue_job_consistent {w : W} {head : Bool} {type : JobType} (h : Consistent t)
    (hs : step t (.queue_job w head type) = some t') : Consistent t' := by
  unfold step at hs
  simp only at hs
  split at hs
  · cases hs
    obtain ⟨q, hqueue, hnodup, hmem, htail, -⟩ := h.queue
    have hout : t.created ∉ q := fun hin => Nat.lt_irrefl _ ((hmem _).mp hin).1
    have hqueue' := @Queued.created _ t q type hqueue fun j hj => ((hmem j).mp hj).1
    have hend : (create_job type t).2.next_job t.created = none := Function.update_self ..
    cases head with
    | true =>
      obtain ⟨h₁, h₂⟩ := queue_head_queued (t :=
        { (create_job type t).2 with num_jobs_active := t.num_jobs_active + 1 })
        hqueue' hout htail
      exact h.insert hqueue h₁ (List.Perm.refl _) h₂ rfl rfl rfl rfl
    | false =>
      obtain ⟨h₁, h₂⟩ := queue_tail_queued (t :=
        { (create_job type t).2 with num_jobs_active := t.num_jobs_active + 1 })
        hqueue' hout hnodup hend htail
      have hperm : List.Perm (q ++ [t.created]) (List.range' t.created 1 ++ q) := List.perm_append_comm
      obtain ⟨f₁, f₂, f₃, f₄⟩ := queue_job_tail_same t.created
        { (create_job type t).2 with num_jobs_active := t.num_jobs_active + 1 }
      exact h.insert hqueue h₁ hperm h₂ f₁ f₂ f₃ f₄
  · cases hs

theorem queue_jobs_consistent {w : W} {types : List JobType} (h : Consistent t)
    (hs : step t (.queue_jobs w types) = some t') : Consistent t' ↔ t.jobs_head ≠ none := by
  obtain ⟨q, hqueue, hnodup, hmem, htail, -⟩ := h.queue
  unfold step at hs
  simp only at hs
  split at hs
  · cases types with
    | nil => cases hs
    | cons type types =>
      obtain ⟨l, last, u, hrun, hseg, hids, hsame, hcreated, hhead, htail', hactive, hrunning, hdequeued⟩ :=
        @link_jobs_new _ type types t
      rw [hrun] at hs
      cases hs
      have hlt : ∀ j ∈ q, j < t.created := fun j hj => ((hmem j).mp hj).1
      have hu : Queued u q := by
        rw [Queued, hhead]
        exact Seg.congr hqueue fun x hx => hsame x (hlt x hx)
      have hnew : (l ++ [last]).Nodup := by
        rw [hids]
        exact List.nodup_range' ..
      have hdisj : ∀ x ∈ q, x ∉ l ++ [last] := by
        intro x hx hin
        rw [hids, List.mem_range'_1] at hin
        have := hlt x hx
        omega
      have hqueue' := @queue_jobs_queued _ _ _ _ _ (types.length + 1) _ hu hseg hnew hdisj
      constructor
      · intro h' hnone
        obtain ⟨q', hq', -, -, hlast, -⟩ := h'.queue
        obtain rfl := Seg.unique hq' hqueue'
        have hq : q = [] := by
          have := hqueue.head
          rw [hnone] at this
          exact List.head?_eq_none_iff.mp this.symm
        subst hq
        change u.jobs_tail = _ at hlast
        rw [htail', htail, List.append_nil, List.getLast?_concat] at hlast
        cases hlast
      · intro hne
        refine h.insert (k := types.length + 1) hqueue hqueue' (by rw [hids]) ?_ hcreated ?_ hrunning hdequeued
        · show u.jobs_tail = _
          rw [htail', htail]
          rcases List.eq_nil_or_concat q with rfl | ⟨q, x, rfl⟩
          · exact absurd hqueue.head hne
          · rw [List.concat_eq_append, ← List.append_assoc, List.getLast?_concat, List.getLast?_concat]
        · show u.num_jobs_active + _ = _
          rw [hactive]
          rfl
  · cases hs

theorem dequeue_consistent {w : W} (h : Consistent t) (hs : step t (.dequeue w) = some t') : Consistent t' := by
  obtain ⟨q, hqueue, hnodup, hmem, htail, hnum⟩ := h.queue
  unfold step at hs
  simp only at hs
  split at hs
  · rename_i hidle
    cases q with
    | nil =>
      have hnone : dequeue_job t = (none, t) := by
        unfold dequeue_job
        rw [hqueue.head]
        rfl
      rw [hnone] at hs
      cases hs
      exact h
    | cons job q =>
      obtain ⟨hout, hnodup⟩ := List.nodup_cons.mp hnodup
      obtain ⟨u, hrun, hu, hut, hcreated, hactive, hrunning, hdequeued⟩ := dequeue_queued hqueue hout htail
      rw [hrun] at hs
      cases hs
      obtain ⟨hlt, hnew⟩ := (hmem job).mp (List.mem_cons_self ..)
      refine Consistent.of_queue ⟨q, hu, hnodup, fun j => ?_, hut, ?_⟩ ?_ ?_ ?_
      · show j ∈ q ↔ j < u.created ∧ j ∉ u.dequeued ++ [job]
        rw [hcreated, hdequeued, List.mem_append, List.mem_singleton, not_or]
        constructor
        · intro hj
          obtain ⟨h₁, h₂⟩ := (hmem j).mp (List.mem_cons_of_mem _ hj)
          refine ⟨h₁, h₂, fun heq => ?_⟩
          subst heq
          exact hout hj
        · rintro ⟨h₁, h₂, h₃⟩
          rcases List.mem_cons.mp ((hmem j).mpr ⟨h₁, h₂⟩) with heq | hj
          · exact absurd heq h₃
          · exact hj
      · show u.num_jobs_active = q.length + ((w, job) :: u.running).length
        rw [hactive, hnum, hrunning, List.length_cons, List.length_cons]
        omega
      · show (u.dequeued ++ [job]).Nodup
        rw [hdequeued]
        refine List.Nodup.append h.once (List.nodup_singleton _) fun x hx hx' => ?_
        rw [List.mem_singleton.mp hx'] at hx
        exact hnew hx
      · show ∀ j ∈ u.dequeued ++ [job], j < u.created
        rw [hcreated, hdequeued]
        intro j hj
        rcases List.mem_append.mp hj with hj | hj
        · exact h.taken j hj
        · rw [List.mem_singleton.mp hj]
          exact hlt
      · show (((w, job) :: u.running).map (·.1)).Nodup
        rw [hrunning, List.map_cons, List.nodup_cons]
        refine ⟨fun hin => ?_, h.workers⟩
        obtain ⟨r, hr, hw⟩ := List.mem_map.mp hin
        rw [List.lookup_eq_none_iff] at hidle
        have := hidle r hr
        rw [hw] at this
        simp at this
  · cases hs

theorem filter_worker : ∀ {rs : List (W × Nat)} {w : W}, (rs.map (·.1)).Nodup → rs.lookup w ≠ none →
    (rs.filter fun r => r.1 ≠ w).length + 1 = rs.length
  | [], _, _, h => absurd rfl h
  | (v, j) :: rs, w, hnodup, h => by
    rw [List.map_cons, List.nodup_cons] at hnodup
    by_cases hv : v = w
    · subst hv
      have hall : rs.filter (fun r => r.1 ≠ v) = rs := by
        rw [List.filter_eq_self]
        intro r hr
        simp only [ne_eq, decide_not, Bool.not_eq_eq_eq_not, Bool.not_true, decide_eq_false_iff_not]
        intro heq
        exact hnodup.1 (List.mem_map.mpr ⟨r, hr, heq⟩)
      rw [List.filter_cons_of_neg (by simp), hall, List.length_cons]
    · rw [List.filter_cons_of_pos (by simpa using hv), List.length_cons, List.length_cons]
      rw [List.lookup_cons, beq_false_of_ne (fun heq => hv heq.symm)] at h
      rw [filter_worker hnodup.2 h]

theorem complete_consistent {w : W} (h : Consistent t) (hs : step t (.complete w) = some t') : Consistent t' := by
  obtain ⟨q, hqueue, hnodup, hmem, htail, hnum⟩ := h.queue
  unfold step at hs
  simp only at hs
  split at hs
  · cases hs
  · rename_i hbusy
    cases hs
    have hlen := filter_worker h.workers hbusy
    refine Consistent.of_queue ⟨q, hqueue, hnodup, hmem, htail, ?_⟩ h.once h.taken ?_
    · show t.num_jobs_active - 1 = q.length + (t.running.filter _).length
      omega
    · exact h.workers.sublist ((List.filter_sublist ..).map _)

theorem step_consistent (e : Event W) (h : Consistent t) (hs : step t e = some t') : Consistent t' ↔ Safe t e := by
  cases e with
  | queue_job w head type => exact iff_of_true (queue_job_consistent h hs) trivial
  | queue_jobs w types => exact queue_jobs_consistent h hs
  | dequeue w => exact iff_of_true (dequeue_consistent h hs) trivial
  | complete w => exact iff_of_true (complete_consistent h hs) trivial

omit [DecidableEq W] in
theorem init_consistent : Consistent (init_queue (W := W)) := by
  refine Consistent.of_queue ⟨[0], ⟨rfl, rfl⟩, List.nodup_singleton 0, fun j => ?_, rfl, rfl⟩ List.nodup_nil
    (fun j hj => absurd hj (by simp [init_queue, create_job, queue_job, queue_job_head])) List.nodup_nil
  show j ∈ [0] ↔ j < 1 ∧ j ∉ []
  rw [List.mem_singleton]
  simp

/-- In a run of the workers, whatever their number and order, the queue is consistent in every state exactly when no
directory's entries are inserted into an empty queue. -/
theorem queue_run {t : Task W} {events : List (Event W)} (hrun : exec step init_queue events = some t) :
    Always step Consistent (init_queue (W := W)) events ↔ Admissible step Safe init_queue events :=
  always_iff Consistent (fun _ e _ h hs => step_consistent e h hs) events _ _ init_consistent hrun

end

/-! ## Two workers -/

instance (t : Task W) : ∀ e : Event W, Decidable (Safe t e)
  | .queue_jobs .. => inferInstanceAs (Decidable (_ ≠ _))
  | .queue_job .. => .isTrue trivial
  | .dequeue _ => .isTrue trivial
  | .complete _ => .isTrue trivial

def safeRun : List (Event Bool) :=
  [.dequeue true, .queue_job true false .DIR, .queue_job true false .FILE, .dequeue false,
   .queue_jobs false [.FILE, .LINK], .complete false, .complete true, .dequeue true, .dequeue false]

theorem queue_run_safeRun : ∃ t, exec step init_queue safeRun = some t ∧
    Always step Consistent (init_queue (W := Bool)) safeRun := by
  obtain ⟨t, ht⟩ := Option.isSome_iff_exists.mp
    (show (exec step (init_queue (W := Bool)) safeRun).isSome = true by decide)
  exact ⟨t, ht, (queue_run ht).mpr (by decide)⟩

def lostRun : List (Event Bool) :=
  [.dequeue true, .queue_job true false .DIR, .dequeue false, .queue_jobs false [.FILE, .LINK],
   .queue_job true false .FILE, .complete true, .complete false, .dequeue true, .complete true]

/-- Two jobs are lost: nothing is queued or in progress, and the counter stays at two. -/
theorem queue_run_lostRun : ∃ t, exec step init_queue lostRun = some t ∧ t.jobs_head = none ∧ t.running = [] ∧
    t.num_jobs_active = 2 ∧ ¬ Consistent t := by
  have h : (exec step (init_queue (W := Bool)) lostRun).map (fun t => (t.jobs_head, t.running, t.num_jobs_active)) =
      some (none, [], 2) := by decide
  obtain ⟨t, ht, heq⟩ := Option.map_eq_some_iff.mp h
  obtain ⟨h₁, h₂⟩ := Prod.mk.inj heq
  obtain ⟨h₂, h₃⟩ := Prod.mk.inj h₂
  refine ⟨t, ht, h₁, h₂, h₃, fun hc => ?_⟩
  rcases hc.progress (by omega) with h | h
  · exact h h₁
  · exact h h₂

end Dump2tar
