import S390Tools.Zdev.Select

/-!
# The selected devices

Every device that passes the filters is in the result once. A specification without
a device has an error, provided that each device that is the first one for some
specification is also the first one for the specification it is credited to.
-/

namespace Zdev.Select

open Arrange

section
variable {DT ST : Type} {sys : System DT ST} {opts : SelectOpts DT ST}

/-! ## What is to be selected -/

variable (sys) in
def devMatches (x : DT × ST × Device) (spec : String) : Bool := idMatches (sys.ns x.2.1) x.2.2.id spec

variable (sys opts) in
def picked (ds : List (DT × ST × Device)) : List (DT × ST × Device) :=
  ds.filter fun x => select_match_state opts x.2.2 && opts.devids.any (devMatches sys x)

variable (sys opts) in
def successNode (x : DT × ST × Device) : SelectedDevNode DT ST :=
  selected_dev_node_new sys (some x.1) (some x.2.1) x.2.2.id (opts.devids.find? (devMatches sys x)) EXIT_OK

variable (sys opts) in
/-- A device that matches a specification for the first time does so for the first of its specifications too. -/
def Credited (ds : List (DT × ST × Device)) : Prop :=
  ∀ pre x post, picked sys opts ds = pre ++ x :: post → ∀ c, opts.devids.find? (devMatches sys x) = some c →
    (∃ y ∈ pre, devMatches sys y c) → ∀ s ∈ opts.devids, devMatches sys x s → ∃ y ∈ pre, devMatches sys y s

/-! ## Reading the devices -/

variable (sys opts) in
/-- The nodes of the picked devices, and each specification has the number of its first one. -/
structure Tracked (ds : List (DT × ST × Device)) (s : Selection DT ST) : Prop where
  nodes : s.1.nodes = ((picked sys opts ds).map (successNode sys opts)).zipIdx
  next : s.1.next = (picked sys opts ds).length
  specs : s.2.map (·.spec) = opts.devids
  node : ∀ d ∈ s.2, d.node = (picked sys opts ds).findIdx? fun x => devMatches sys x d.spec

theorem picked_append_skip {ds : List (DT × ST × Device)} {x : DT × ST × Device}
    (h : (select_match_state opts x.2.2 && opts.devids.any (devMatches sys x)) = false) :
    picked sys opts (ds ++ [x]) = picked sys opts ds := by
  rw [picked, List.filter_append, List.filter_cons_of_neg (by simp [h]), List.filter_nil, List.append_nil]
  rfl

theorem picked_append_take {ds : List (DT × ST × Device)} {x : DT × ST × Device}
    (h : (select_match_state opts x.2.2 && opts.devids.any (devMatches sys x)) = true) :
    picked sys opts (ds ++ [x]) = picked sys opts ds ++ [x] := by
  rw [picked, List.filter_append, List.filter_cons_of_pos (by simp only [h]), List.filter_nil]
  rfl

theorem mem_modify {α : Type} {f : α → α} : ∀ {l : List α} {i : Nat} {a y : α}, l[i]? = some a → y ∈ l.modify i f →
    y ∈ l ∨ y = f a
  | _ :: _, 0, _, _, h, hy => by
    rcases List.mem_cons.mp hy with he | hl
    · cases h
      exact .inr he
    · exact .inl (List.mem_cons_of_mem _ hl)
  | b :: l, i + 1, a, y, h, hy => by
    rw [List.modify_succ_cons] at hy
    rcases List.mem_cons.mp hy with he | hl
    · exact .inl (he ▸ List.mem_cons_self ..)
    · have h' : l[i]? = some a := by simpa using h
      rcases mem_modify h' hl with hm | hm
      · exact .inl (List.mem_cons_of_mem _ hm)
      · exact .inr hm

theorem map_modify_same {α β : Type} {f : α → α} {g : α → β} (h : ∀ a, g (f a) = g a) : ∀ (l : List α) (i : Nat),
    (l.modify i f).map g = l.map g
  | [], i => by cases i <;> rfl
  | a :: l, 0 => by simp [List.modify_zero_cons, h]
  | a :: l, i + 1 => by simp [List.modify_succ_cons, map_modify_same h l i]

theorem match_id_eq {ns : Namespace} {id : String} {specs : List DevidSpec} {i : Nat} {spec : DevidSpec}
    (h : match_id ns id specs = some i) (hs : specs[i]? = some spec) :
    idMatches ns id spec.spec = true ∧ (specs.map (·.spec)).find? (idMatches ns id) = some spec.spec := by
  induction specs generalizing i with
  | nil => cases h
  | cons a specs ih =>
    rw [match_id, List.findIdx?_cons] at h
    by_cases ha : idMatches ns id a.spec = true
    · rw [if_pos ha] at h
      cases h
      cases hs
      exact ⟨ha, by rw [List.map_cons, List.find?_cons_of_pos ha]⟩
    · rw [if_neg ha] at h
      obtain ⟨j, hj, rfl⟩ := Option.map_eq_some_iff.mp h
      obtain ⟨h₁, h₂⟩ := ih hj hs
      exact ⟨h₁, by rw [List.map_cons, List.find?_cons_of_neg ha, h₂]⟩

theorem findIdx_append_singleton {α : Type} {p : α → Bool} (l : List α) (x : α) :
    (l ++ [x]).findIdx? p = (l.findIdx? p).or (if p x then some l.length else none) := by
  rw [List.findIdx?_append]
  by_cases h : p x = true
  · simp [h]
  · simp [h]

theorem find_of_findIdx {α : Type} {p : α → Bool} : ∀ {l : List α} {k : Nat}, l.findIdx? p =
    some k → l.find? p = l[k]?
  | a :: l, k, h => by
    rw [List.findIdx?_cons] at h
    by_cases ha : p a = true
    · rw [if_pos ha] at h
      cases h
      rw [List.find?_cons_of_pos ha]
      rfl
    · rw [if_neg ha] at h
      obtain ⟨j, hj, rfl⟩ := Option.map_eq_some_iff.mp h
      rw [List.find?_cons_of_neg ha, find_of_findIdx hj]
      rfl

theorem isSome_findIdx {α : Type} {p : α → Bool} {l : List α} :
    (l.findIdx? p).isSome = true ↔ ∃ x ∈ l, p x = true := by
  rw [List.findIdx?_isSome, List.any_eq_true]

theorem Tracked.skip {ds : List (DT × ST × Device)} {s : Selection DT ST} (h : Tracked sys opts ds s)
    {x : DT × ST × Device} {specs : List DevidSpec} (hspecs : specs.map (·.spec) = s.2.map (·.spec))
    (hnode : ∀ d ∈ specs, ∃ e ∈ s.2, d.spec = e.spec ∧ d.node = e.node)
    (hx : (select_match_state opts x.2.2 && opts.devids.any (devMatches sys x)) = false) :
    Tracked sys opts (ds ++ [x]) (s.1, specs) where
  nodes := by rw [picked_append_skip hx, h.nodes]
  next := by rw [picked_append_skip hx, h.next]
  specs := hspecs.trans h.specs
  node := by
    intro d hd
    obtain ⟨e, he, h₁, h₂⟩ := hnode d hd
    rw [picked_append_skip hx, h₂, h₁, h.node e he]

theorem Tracked.step {ds : List (DT × ST × Device)} {s : Selection DT ST} (h : Tracked sys opts ds s)
    {x : DT × ST × Device} (hcredit : picked sys opts (ds ++ [x]) = picked sys opts ds ++ [x] →
      ∀ c, opts.devids.find? (devMatches sys x) = some c → (∃ y ∈ picked sys opts ds, devMatches sys y c) →
        ∀ d ∈ opts.devids, devMatches sys x d → ∃ y ∈ picked sys opts ds, devMatches sys y d) :
    Tracked sys opts (ds ++ [x]) (select_cb sys opts true s x) := by
  obtain ⟨dt, st, dev⟩ := x
  have hself : ∀ d ∈ s.2, ∃ e ∈ s.2, d.spec = e.spec ∧ d.node = e.node := fun d hd => ⟨d, hd, rfl, rfl⟩
  cases hid : match_id (sys.ns st) dev.id s.2 with
  | none =>
    have hany : opts.devids.any (devMatches sys (dt, st, dev)) = false := by
      rw [← h.specs, List.any_map]
      rw [List.any_eq_false]
      intro d hd
      have := List.findIdx?_eq_none_iff.mp hid d hd
      simpa [devMatches] using this
    have hcb : select_cb sys opts true s (dt, st, dev) = (s.1, s.2) := by
      simp only [select_cb, Bool.not_true, Bool.false_eq_true, if_false, hid]
    rw [hcb]
    exact h.skip rfl hself (by simp [hany])
  | some i =>
    obtain ⟨hi, -, -⟩ := List.findIdx?_eq_some_iff_getElem.mp hid
    obtain ⟨spec, hspec⟩ : ∃ spec, s.2[i]? = some spec := ⟨s.2[i], List.getElem?_eq_getElem hi⟩
    have hmem : spec ∈ s.2 := List.mem_of_getElem? hspec
    obtain ⟨hm, hfirst⟩ := match_id_eq hid hspec
    rw [h.specs] at hfirst
    have hcb : select_cb sys opts true s (dt, st, dev) = addMatched sys opts dt st dev s i spec := by
      simp only [select_cb, Bool.not_true, Bool.false_eq_true, if_false, hid, hspec]
    rw [hcb]
    have hhint : ∀ d ∈ s.2.modify i (fun x => { x with exists_hint := true }),
        ∃ e ∈ s.2, d.spec = e.spec ∧ d.node = e.node := by
      intro d hd
      rcases mem_modify hspec hd with hl | rfl
      · exact hself d hl
      · exact ⟨spec, hmem, rfl, rfl⟩
    have hhint' := map_modify_same (f := fun x : DevidSpec => { x with exists_hint := true }) (g := (·.spec))
      (fun _ => rfl) s.2 i
    cases hstate : select_match_state opts dev with
    | false =>
      have hadd : addMatched sys opts dt st dev s i spec =
          (s.1, s.2.modify i fun x => { x with exists_hint := true }) := by
        simp only [addMatched, hstate, Bool.not_false, if_true]
      rw [hadd]
      exact h.skip hhint' hhint (by simp [hstate])
    | true =>
      have hany : opts.devids.any (devMatches sys (dt, st, dev)) = true := by
        rw [List.any_eq_true]
        exact ⟨spec.spec, List.mem_of_find?_eq_some hfirst, hm⟩
      have hpick := @picked_append_take _ _ sys opts ds (dt, st, dev) (by simp [hstate, hany])
      have hlen : s.1.next = (picked sys opts ds).length := h.next
      have hnode : ∀ d : DevidSpec, (picked sys opts (ds ++ [(dt, st, dev)])).findIdx? (fun x =>
        devMatches sys x d.spec) =
          ((picked sys opts ds).findIdx? fun x => devMatches sys x d.spec).or
            (if idMatches (sys.ns st) dev.id d.spec then some (picked sys opts ds).length else none) := by
        intro d
        rw [hpick, findIdx_append_singleton]
        rfl
      have hnodes : s.1.nodes ++
        [(selected_dev_node_new sys (some dt) (some st) dev.id (some spec.spec) EXIT_OK, s.1.next)] =
          ((picked sys opts (ds ++ [(dt, st, dev)])).map (successNode sys opts)).zipIdx := by
        rw [hpick, List.map_append, List.zipIdx_append, ← h.nodes, hlen]
        have hparam : opts.devids.find? (devMatches sys (dt, st, dev)) = some spec.spec := hfirst
        simp [successNode, hparam]
      cases hold : spec.node with
      | some k =>
        have hadd : addMatched sys opts dt st dev s i spec =
            (selected_dev_list_add s.1 (selected_dev_node_new sys (some dt) (some st)
              dev.id (some spec.spec) EXIT_OK),
              s.2.modify i fun x => { x with exists_hint := true }) := by
          simp only [addMatched, hstate, Bool.not_true, Bool.false_eq_true, if_false, hold,
            Option.isSome_some, if_true]
        have hseen : ∃ y ∈ picked sys opts ds, devMatches sys y spec.spec = true := by
          rw [← isSome_findIdx, ← h.node spec hmem, hold]
          rfl
        rw [hadd]
        refine ⟨hnodes, by rw [hpick, List.length_append]; exact congrArg (· + 1) hlen, hhint'.trans h.specs, ?_⟩
        intro d hd
        obtain ⟨e, he, h₁, h₂⟩ := hhint d hd
        rw [hnode, h₂, h.node e he, h₁]
        by_cases hme : idMatches (sys.ns st) dev.id e.spec = true
        · have hdev : e.spec ∈ opts.devids := by
            rw [← h.specs]
            exact List.mem_map_of_mem he
          have hsome := isSome_findIdx.2 (hcredit hpick spec.spec hfirst hseen e.spec hdev hme)
          obtain ⟨j, hj⟩ := Option.isSome_iff_exists.mp hsome
          rw [hj]
          rfl
        · rw [if_neg hme, Option.or_none]
      | none =>
        have hadd : addMatched sys opts dt st dev s i spec =
            (selected_dev_list_add s.1 (selected_dev_node_new sys (some dt) (some st)
              dev.id (some spec.spec) EXIT_OK),
              set_match (sys.ns st) dev.id ((s.2.modify i fun x => { x with exists_hint := true }).modify i
                fun x => { x with node := some s.1.next }) s.1.next) := by
          simp only [addMatched, hstate, Bool.not_true, Bool.false_eq_true, if_false, hold, Option.isSome_none]
        rw [hadd]
        have hmod := map_modify_same (f := fun x : DevidSpec => { x with node := some s.1.next }) (g := (·.spec))
          (fun _ => rfl) (s.2.modify i fun x => { x with exists_hint := true }) i
        refine ⟨hnodes, by rw [hpick, List.length_append]; exact congrArg (· + 1) hlen, ?_, ?_⟩
        · have hset : ∀ l : List DevidSpec, (set_match (sys.ns st) dev.id l s.1.next).map (·.spec) =
            l.map (·.spec) := by
            intro l
            rw [set_match, List.map_map]
            refine List.map_congr_left fun d _ => ?_
            simp only [Function.comp_apply]
            split
            · rfl
            · split <;> rfl
          rw [hset, hmod, hhint', h.specs]
        · intro d hd
          obtain ⟨e, he, rfl⟩ := List.mem_map.mp hd
          have hspec' : (s.2.modify i fun x => { x with exists_hint := true })[i]? =
              some { spec with exists_hint := true } := by
            simp [hspec]
          -- the note of an entry before `set_match`
          have hbefore : e.node = (picked sys opts ds).findIdx? (fun x => devMatches sys x e.spec) ∨
              e.node = some s.1.next ∧ idMatches (sys.ns st) dev.id e.spec = true ∧
                (picked sys opts ds).findIdx? (fun x => devMatches sys x e.spec) = none := by
            rcases mem_modify hspec' he with hl | rfl
            · obtain ⟨e', he', h₁, h₂⟩ := hhint e hl
              rw [h₁, h₂]
              exact .inl (h.node e' he')
            · exact .inr ⟨rfl, hm, (h.node spec hmem).symm.trans hold⟩
          rw [hnode]
          rcases hbefore with hb | ⟨hb, hme, hnone⟩
          · cases hcase : (picked sys opts ds).findIdx? (fun x => devMatches sys x e.spec) with
            | some j =>
              rw [hcase] at hb
              simp only [hb, Option.isSome_some, if_true, hcase, Option.some_or]
            | none =>
              rw [hcase] at hb
              by_cases hme : idMatches (sys.ns st) dev.id e.spec = true
              · simp only [hb, Option.isSome_none, Bool.false_eq_true, if_false, hme, if_true,
                  hcase, Option.none_or, hlen]
              · simp only [hb, Option.isSome_none, Bool.false_eq_true, if_false, hme, hcase, Option.none_or]
          · simp only [hb, Option.isSome_some, if_true, hnone, Option.none_or, hme, hlen]

theorem Tracked.run {s : Selection DT ST} : ∀ (ds pre : List (DT × ST × Device)), Tracked sys opts pre s →
    Credited sys opts (pre ++ ds) → Tracked sys opts (pre ++ ds) (ds.foldl (select_cb sys opts true) s)
  | [], pre, h, _ => by rwa [List.append_nil]
  | x :: ds, pre, h, hc => by
    rw [List.append_cons, List.foldl_cons]
    refine Tracked.run ds (pre ++ [x]) (h.step ?_) (by rwa [← List.append_cons])
    intro hpick c hfind hseen d hd hm
    have hsplit : picked sys opts (pre ++ x :: ds) = picked sys opts pre ++ x :: picked sys opts ds := by
      rw [List.append_cons pre, List.append_cons (picked sys opts pre), ← hpick]
      exact List.filter_append ..
    exact hc (picked sys opts pre) x (picked sys opts ds) hsplit c hfind hseen d hd hm

end

/-! ## Specifications without a device -/

section
variable {DT ST : Type} {sys : System DT ST} {opts : SelectOpts DT ST}

def targets : List DevidSpec → List (SelectedDevNode DT ST × Nat) → List (SelectedDevNode DT ST × Nat)
  | s :: ss, m :: ms => if s.node.isSome then [m] else m :: targets ss ms
  | _, _ => []

variable (sys opts) in
/-- Each specification has a node in the list `l`, and an error stands where it should. -/
inductive Placed (l : List (SelectedDevNode DT ST × Nat)) : List DevidSpec →
    List (SelectedDevNode DT ST × Nat) → Prop
  | nil : Placed l [] []
  | matched {s ss m ms} (hs : s.node = some m.2) (hm : m ∈ l) (rest : Placed l ss ms) : Placed l (s :: ss) (m :: ms)
  | failed {s ss m ms} (hs : s.node = none) (hm : m ∈ l) (hnode : m.1 = failedNode sys opts s)
      (hb : ∀ t ∈ targets ss ms, [m, t].Sublist l) (rest : Placed l ss ms) : Placed l (s :: ss) (m :: ms)

theorem Placed.mono {l l' : List (SelectedDevNode DT ST × Nat)} (hl : l.Sublist l') {ss : List DevidSpec}
    {ms : List (SelectedDevNode DT ST × Nat)} (h : Placed sys opts l ss ms) : Placed sys opts l' ss ms := by
  induction h with
  | nil => exact .nil
  | matched hs hm _ ih => exact .matched hs (hl.subset hm) ih
  | failed hs hm hnode hb _ ih => exact .failed hs (hl.subset hm) hnode (fun t ht => (hb t ht).trans hl) ih

theorem failed_rc (s : DevidSpec) : (failedNode sys opts s).rc ≠ EXIT_OK := by
  have h₁ : EXIT_DEVICE_NOT_FOUND ≠ EXIT_OK := by decide
  have h₂ : EXIT_INCOMPLETE_TYPE ≠ EXIT_OK := by decide
  simp only [failedNode, selected_dev_node_new]
  split
  · exact h₁
  · exact h₂

variable (sys opts) in
/-- The list after the specifications `ss`; `l₀` are the nodes of devices. -/
structure Handled (l₀ : List (SelectedDevNode DT ST × Nat)) (ss : List DevidSpec)
    (r : SelectedDevList DT ST × Option Nat) (ms : List (SelectedDevNode DT ST × Nat)) : Prop where
  placed : Placed sys opts r.1.nodes ss ms
  before : r.2 = (targets ss ms).head?.map Prod.snd
  split : ∀ b bs, targets ss ms = b :: bs → ∃ pre post, r.1.nodes = pre ++ b :: post ∧ ∀ t ∈ bs, t ∈ post
  fresh : ∀ m ∈ r.1.nodes, m.2 < r.1.next
  nodup : (r.1.nodes.map Prod.snd).Nodup
  devices : r.1.nodes.filter (fun m => m.1.rc = EXIT_OK) = l₀
  errors : ((r.1.nodes.filter fun m => m.1.rc ≠ EXIT_OK).map Prod.fst).Perm
    ((ss.filter fun s => s.node.isNone).map (failedNode sys opts))

theorem Handled.insert {l₀ : List (SelectedDevNode DT ST × Nat)} {ss : List DevidSpec}
    {r : SelectedDevList DT ST × Option Nat} {ms : List (SelectedDevNode DT ST × Nat)}
    (h : Handled sys opts l₀ ss r ms) (s : DevidSpec) : ∃ pre post, r.1.nodes = pre ++ post ∧
      add_failed_devid_spec sys opts r.1 s r.2 =
        ⟨pre ++ (failedNode sys opts s, r.1.next) :: post, r.1.next + 1⟩ ∧
      ∀ t ∈ targets ss ms, t ∈ post := by
  have hbefore := h.before
  cases htargets : targets ss ms with
  | nil =>
    rw [htargets] at hbefore
    refine ⟨r.1.nodes, [], (List.append_nil _).symm, ?_, by simp⟩
    rw [hbefore]
    rfl
  | cons b bs =>
    rw [htargets] at hbefore
    obtain ⟨pre, post, hsplit, hmem⟩ := h.split b bs htargets
    have hpre : ∀ z ∈ pre, z.2 ≠ b.2 := by
      intro z hz he
      have hnd := h.nodup
      rw [hsplit, List.map_append, List.map_cons] at hnd
      exact (List.nodup_append.mp hnd).2.2 z.2 (List.mem_map_of_mem hz) b.2 (List.mem_cons_self ..) he
    refine ⟨pre, b :: post, hsplit, ?_, ?_⟩
    · rw [hbefore]
      simp only [List.head?_cons, Option.map_some, add_failed_devid_spec]
      rw [hsplit, insertBefore_eq rfl hpre]
    · intro t ht
      rcases List.mem_cons.mp ht with rfl | ht
      · exact List.mem_cons_self ..
      · exact List.mem_cons_of_mem _ (hmem t ht)

theorem handle_unmatched_eq {l₀ : List (SelectedDevNode DT ST × Nat)} {n : Nat} (hrc : ∀ m ∈ l₀, m.1.rc = EXIT_OK)
    (hfresh : ∀ m ∈ l₀, m.2 < n) (hnd : (l₀.map Prod.snd).Nodup) : ∀ (ss : List DevidSpec),
    (∀ s ∈ ss, ∀ k, s.node = some k → ∃ m ∈ l₀, m.2 = k) →
    ∃ ms, Handled sys opts l₀ ss (handle_unmatched_specs sys opts ss ⟨l₀, n⟩) ms
  | [], _ => by
    refine ⟨[], .nil, rfl, ?_, hfresh, hnd, ?_, ?_⟩
    · intro b bs h
      cases h
    · exact List.filter_eq_self.mpr fun m hm => by simp [hrc m hm]
    · have hnone : l₀.filter (fun m => m.1.rc ≠ EXIT_OK) = [] :=
        List.filter_eq_nil_iff.mpr fun m hm => by simp [hrc m hm]
      rw [handle_unmatched_specs, hnone]
      exact List.Perm.refl _
  | s :: ss, hs => by
    obtain ⟨ms, h⟩ := handle_unmatched_eq hrc hfresh hnd ss fun t ht => hs t (List.mem_cons_of_mem _ ht)
    have hsub : l₀.Sublist (handle_unmatched_specs sys opts ss ⟨l₀, n⟩).1.nodes := by
      have hfilter := @List.filter_sublist _ (fun m => decide (m.1.rc = EXIT_OK))
        (handle_unmatched_specs sys opts ss ⟨l₀, n⟩).1.nodes
      rwa [h.devices] at hfilter
    cases hnode : s.node with
    | some k =>
      obtain ⟨m, hm, rfl⟩ := hs s (List.mem_cons_self ..) k hnode
      have hr : handle_unmatched_specs sys opts (s :: ss) ⟨l₀, n⟩ =
          ((handle_unmatched_specs sys opts ss ⟨l₀, n⟩).1, some m.2) := by
        simp only [handle_unmatched_specs, hnode]
      have ht : targets (s :: ss) (m :: ms) = [m] := by
        rw [targets, if_pos (by simp [hnode])]
      rw [hr]
      refine ⟨m :: ms, .matched hnode (hsub.subset hm) h.placed, by rw [ht]; rfl, ?_, h.fresh,
        h.nodup, h.devices, ?_⟩
      · intro b bs hb
        rw [ht] at hb
        cases hb
        obtain ⟨pre, post, he⟩ := List.append_of_mem (hsub.subset hm)
        exact ⟨pre, post, he, by simp⟩
      · rw [List.filter_cons_of_neg (by simp [hnode])]
        exact h.errors
    | none =>
      obtain ⟨r, hr⟩ : ∃ r, r = handle_unmatched_specs sys opts ss ⟨l₀, n⟩ := ⟨_, rfl⟩
      rw [← hr] at h
      have hr' : handle_unmatched_specs sys opts (s :: ss) ⟨l₀, n⟩ =
          (add_failed_devid_spec sys opts r.1 s r.2, some r.1.next) := by
        simp only [handle_unmatched_specs, hnode, ← hr]
      obtain ⟨pre, post, hold, hnew, htargets⟩ := h.insert s
      have hsub : r.1.nodes.Sublist (pre ++ (failedNode sys opts s, r.1.next) :: post) := by
        rw [hold]
        exact (List.Sublist.refl pre).append (List.sublist_cons_self ..)
      have ht : targets (s :: ss) ((failedNode sys opts s, r.1.next) :: ms) =
          (failedNode sys opts s, r.1.next) :: targets ss ms := by
        rw [targets, if_neg (by simp [hnode])]
      have hmem : ∀ m ∈ pre ++ (failedNode sys opts s, r.1.next) :: post,
          m = (failedNode sys opts s, r.1.next) ∨ m ∈ r.1.nodes := by
        intro m hm
        rw [hold]
        simpa [or_left_comm] using hm
      rw [hr', hnew]
      refine ⟨(failedNode sys opts s, r.1.next) :: ms, ?_, ?_, ?_, ?_, ?_, ?_, ?_⟩
      · refine .failed hnode (by simp) rfl (fun t ht => ?_) (h.placed.mono hsub)
        exact (((List.singleton_sublist.mpr (htargets t ht)).cons_cons _).trans (List.sublist_append_right ..))
      · rw [ht]
        rfl
      · intro b bs hb
        rw [ht] at hb
        cases hb
        exact ⟨pre, post, rfl, htargets⟩
      · intro m hm
        rcases hmem m hm with rfl | hm
        · exact Nat.lt_succ_self _
        · exact Nat.lt_succ_of_lt (h.fresh m hm)
      · have hnd' := h.nodup
        rw [hold, List.map_append] at hnd'
        rw [List.map_append, List.map_cons, List.nodup_middle, List.nodup_cons]
        refine ⟨?_, hnd'⟩
        rw [← List.map_append, ← hold]
        intro hin
        obtain ⟨m, hm, he⟩ := List.mem_map.mp hin
        have := h.fresh m hm
        rw [he] at this
        exact Nat.lt_irrefl _ this
      · have hdev := h.devices
        rw [hold, List.filter_append] at hdev
        rw [List.filter_append, List.filter_cons_of_neg (by simp [failed_rc]), hdev]
      · have herrors := h.errors
        rw [hold, List.filter_append, List.map_append] at herrors
        rw [List.filter_append, List.filter_cons_of_pos (by simp [failed_rc]), List.map_append, List.map_cons,
          List.filter_cons_of_pos (by simp [hnode]), List.map_cons]
        exact List.perm_middle.trans (herrors.cons _)

theorem mem_targets {l : List (SelectedDevNode DT ST × Nat)} {t : DevidSpec} {post : List DevidSpec} :
    ∀ {mid : List DevidSpec} {ms : List (SelectedDevNode DT ST × Nat)}, (∀ u ∈ mid, u.node = none) →
    Placed sys opts l (mid ++ t :: post) ms → ∃ m ∈ targets (mid ++ t :: post) ms, m ∈ l ∧
      (t.node = some m.2 ∨ t.node = none ∧ m.1 = failedNode sys opts t)
  | [], _, _, .matched hs hm _ => ⟨_, by rw [List.nil_append, targets, if_pos (by simp [hs])]; simp, hm, .inl hs⟩
  | [], _, _, .failed hs hm hnode _ _ =>
    ⟨_, by rw [List.nil_append, targets, if_neg (by simp [hs])]; simp, hm, .inr ⟨hs, hnode⟩⟩
  | u :: mid, _, h, .matched hs _ _ => by
    have := h u (List.mem_cons_self ..)
    rw [this] at hs
    cases hs
  | u :: mid, _, h, .failed hs hm hnode hb hp => by
    obtain ⟨m, hmem, hl, hd⟩ := mem_targets (fun v hv => h v (List.mem_cons_of_mem _ hv)) hp
    refine ⟨m, ?_, hl, hd⟩
    rw [List.cons_append, targets, if_neg (by simp [hs])]
    exact List.mem_cons_of_mem _ hmem

theorem Placed.at {l : List (SelectedDevNode DT ST × Nat)} {s : DevidSpec} {post : List DevidSpec} :
    ∀ {pre : List DevidSpec} {ms : List (SelectedDevNode DT ST × Nat)}, s.node = none →
    Placed sys opts l (pre ++ s :: post) ms → ∃ m ms', m ∈ l ∧ m.1 = failedNode sys opts s ∧
      (∀ t ∈ targets post ms', [m, t].Sublist l) ∧ Placed sys opts l post ms'
  | [], _, hn, .matched hs _ _ => by
    rw [hn] at hs
    cases hs
  | [], _, _, .failed _ hm hnode hb hp => ⟨_, _, hm, hnode, hb, hp⟩
  | _ :: _, _, hn, .matched _ _ hp => Placed.at hn hp
  | _ :: _, _, hn, .failed _ _ _ _ hp => Placed.at hn hp

theorem select_remaining_eq (hdef : ∀ st, sys.support_definable st = false)
    (create : ST → DevidSpec → Selection DT ST → Selection DT ST) (s : Selection DT ST) :
    select_remaining sys opts create s = s := by
  unfold select_remaining
  refine List.foldlRecOn (motive := fun t => t = s) _ _ rfl ?_
  intro t ht spec _
  subst ht
  split
  · rfl
  · split
    · rfl
    · rename_i st _
      rw [if_pos (by simp [hdef st])]

end

/-! ## The result -/

section
variable {DT ST : Type} [DecidableEq DT] [DecidableEq ST] {sys : System DT ST} {opts : SelectOpts DT ST}

variable (sys opts) in
/-- Every device is enumerated once in its subtype; normalised texts of the given subtype stand for
the same devices. -/
structure Population (config : Config) : Prop where
  distinct : (found sys opts config).Pairwise fun x y =>
    ¬(x.1 = y.1 ∧ x.2.1 = y.2.1 ∧ nodeId sys (some x.2.1) x.2.2.id = nodeId sys (some y.2.1) y.2.2.id)
  matched : ∀ x ∈ found sys opts config, opts.subtype = some x.2.1 → ∀ s ∈ opts.devids,
    nodeId sys opts.subtype s = nodeId sys (some x.2.1) x.2.2.id → devMatches sys x s = true
  same : ∀ x ∈ found sys opts config, opts.subtype = some x.2.1 → ∀ s ∈ opts.devids, ∀ t ∈ opts.devids,
    nodeId sys opts.subtype s = nodeId sys opts.subtype t → devMatches sys x s = devMatches sys x t

variable (sys opts) in
def Unmatched (config : Config) (s : String) : Prop :=
  ∀ x ∈ picked sys opts (found sys opts config), devMatches sys x s = false

variable (sys opts) in
/-- The node `x` is an error for the specification `s`. -/
def IsErrorFor (s : String) (x : SelectedDevNode DT ST) : Prop := x.rc ≠ EXIT_OK ∧ x.id = nodeId sys opts.subtype s

variable (sys opts) in
structure Selected (config : Config) (l : List (SelectedDevNode DT ST)) : Prop where
  success : l.filter (fun x => x.rc = EXIT_OK) =
    (picked sys opts (found sys opts config)).map (successNode sys opts)
  error_iff : ∀ s ∈ opts.devids, (∃ x ∈ l, IsErrorFor sys opts s x) ↔ Unmatched sys opts config s
  error_only : ∀ x ∈ l, x.rc ≠ EXIT_OK → ∃ s ∈ opts.devids, IsErrorFor sys opts s x
  error_once : (l.filter fun x => x.rc ≠ EXIT_OK).Pairwise fun x y => x.id ≠ y.id
  /-- Before the first device of the next specification that has one. -/
  before : ∀ pre s mid t post, opts.devids = pre ++ s :: (mid ++ t :: post) → Unmatched sys opts config s →
    (∀ u ∈ mid, Unmatched sys opts config u) → ∀ d,
    (picked sys opts (found sys opts config)).find? (devMatches sys · t) = some d →
    ∃ x, IsErrorFor sys opts s x ∧ [x, successNode sys opts d].Sublist l
  /-- In the order of adjacent specifications, where no error is shared. -/
  order : (opts.devids.Pairwise fun s t => nodeId sys opts.subtype s ≠ nodeId sys opts.subtype t) →
    ∀ pre s mid t post, opts.devids = pre ++ s :: (mid ++ t :: post) → Unmatched sys opts config s →
    (∀ u ∈ mid, Unmatched sys opts config u) → Unmatched sys opts config t →
    ∃ x y, IsErrorFor sys opts s x ∧ IsErrorFor sys opts t y ∧ [x, y].Sublist l

theorem isDuplicate_refl (x : SelectedDevNode DT ST × Nat) : isDuplicate x x = true := by
  simp [isDuplicate]

theorem isDuplicate_iff {x y : SelectedDevNode DT ST × Nat} :
    isDuplicate x y = true ↔ x.1.dt = y.1.dt ∧ x.1.st = y.1.st ∧ x.1.id = y.1.id := by
  simp [isDuplicate, and_assoc]

/-! ### The list before duplicates are removed -/

variable (sys opts) in
/-- The nodes `l` and the specifications at the end. -/
structure Arranged (config : Config) (l : List (SelectedDevNode DT ST × Nat)) (specs : List DevidSpec) : Prop where
  specs_eq : specs.map (·.spec) = opts.devids
  node : ∀ d ∈ specs, d.node =
    (picked sys opts (found sys opts config)).findIdx? fun x => devMatches sys x d.spec
  placed : ∃ ms, Placed sys opts l specs ms
  numbers : (l.map Prod.snd).Nodup
  devices : l.filter (fun m => m.1.rc = EXIT_OK) =
    ((picked sys opts (found sys opts config)).map (successNode sys opts)).zipIdx
  errors : ((l.filter fun m => m.1.rc ≠ EXIT_OK).map Prod.fst).Perm
    ((specs.filter fun s => s.node.isNone).map (failedNode sys opts))

theorem exists_arranged (hdevids : opts.devids ≠ []) (hdef : ∀ st, sys.support_definable st = false)
    {config : Config}
    (hcredit : Credited sys opts (found sys opts config)) (quiet : Bool)
    (create : ST → DevidSpec → Selection DT ST → Selection DT ST) : ∃ l specs, Arranged sys opts config l specs ∧
      select_devices sys opts quiet create config = (keepFirst isDuplicate l.length l).map Prod.fst := by
  obtain ⟨specs₀, hspecs₀⟩ : ∃ specs : List DevidSpec, specs = opts.devids.map fun s => ⟨s, none, false⟩ := ⟨_, rfl⟩
  have hempty : Tracked sys opts [] (⟨[], 0⟩, specs₀) := by
    refine ⟨rfl, rfl, ?_, ?_⟩
    · rw [hspecs₀, List.map_map]
      exact List.map_id _
    · intro d hd
      rw [hspecs₀] at hd
      obtain ⟨x, -, rfl⟩ := List.mem_map.mp hd
      rfl
  have hgiven : specs₀.isEmpty = false := by
    rw [hspecs₀]
    simpa using hdevids
  obtain ⟨s, hs⟩ : ∃ s, s = (found sys opts config).foldl (select_cb sys opts true) (⟨[], 0⟩, specs₀) := ⟨_, rfl⟩
  have htracked : Tracked sys opts (found sys opts config) s := by
    rw [hs]
    exact hempty.run (found sys opts config) [] hcredit
  have hnocreate : select_nocreate sys opts quiet config (⟨[], 0⟩, specs₀) = s := by
    rw [select_nocreate, hgiven, hs]
    split
    · rename_i hnone
      have hlen : (found sys opts config).length = 0 := by
        simp only [Bool.and_eq_true, decide_eq_true_eq] at hnone
        exact hnone.2
      rw [List.length_eq_zero_iff.mp hlen]
      rfl
    · rfl
  obtain ⟨⟨nodes, next⟩, specs⟩ := s
  obtain ⟨hnodes, hnext, hspec, hnode⟩ := htracked
  simp only at hnodes hnext hspec hnode
  have hrc : ∀ m ∈ nodes, m.1.rc = EXIT_OK := by
    intro m hm
    rw [hnodes, List.mem_zipIdx_iff_getElem?] at hm
    obtain ⟨x, -, hx⟩ := List.mem_map.mp (List.mem_of_getElem? hm)
    rw [← hx]
    rfl
  have hfresh : ∀ m ∈ nodes, m.2 < next := by
    intro m hm
    rw [hnodes, List.mem_zipIdx_iff_getElem?] at hm
    obtain ⟨h, -⟩ := List.getElem?_eq_some_iff.mp hm
    rw [List.length_map] at h
    rw [hnext]
    exact h
  have hnd : (nodes.map Prod.snd).Nodup := by
    rw [hnodes, List.zipIdx_map_snd]
    exact List.nodup_range'
  have hnumbers : ∀ d ∈ specs, ∀ k, d.node = some k → ∃ m ∈ nodes, m.2 = k := by
    intro d hd k hk
    rw [hnode d hd] at hk
    obtain ⟨h, -, -⟩ := List.findIdx?_eq_some_iff_getElem.mp hk
    refine ⟨(successNode sys opts (picked sys opts (found sys opts config))[k], k), ?_, rfl⟩
    rw [hnodes, List.mem_zipIdx_iff_getElem?]
    simp [h]
  obtain ⟨ms, hh⟩ := @handle_unmatched_eq _ _ sys opts nodes next hrc hfresh hnd specs hnumbers
  refine ⟨_, specs, ⟨hspec, hnode, ⟨ms, hh.placed⟩, hh.nodup, hh.devices.trans hnodes, hh.errors⟩, ?_⟩
  unfold select_devices
  simp only
  rw [← hspecs₀, hnocreate, select_remaining_eq hdef]
  rfl

/-! ### Duplicates -/

section
variable {config : Config} {l : List (SelectedDevNode DT ST × Nat)} {specs : List DevidSpec}

theorem Arranged.unmatched_iff (h : Arranged sys opts config l specs) {d : DevidSpec} (hd : d ∈ specs) :
    d.node = none ↔ Unmatched sys opts config d.spec := by
  rw [h.node d hd, List.findIdx?_eq_none_iff]
  exact Iff.rfl

theorem Arranged.mem_device (h : Arranged sys opts config l specs) {m : SelectedDevNode DT ST × Nat} (hm : m ∈ l)
    (hrc : m.1.rc = EXIT_OK) : ∃ x, (picked sys opts (found sys opts config))[m.2]? = some x ∧
      m.1 = successNode sys opts x := by
  have hmem : m ∈ ((picked sys opts (found sys opts config)).map (successNode sys opts)).zipIdx := by
    rw [← h.devices]
    exact List.mem_filter.mpr ⟨hm, by simp [hrc]⟩
  rw [List.mem_zipIdx_iff_getElem?, List.getElem?_map] at hmem
  obtain ⟨x, hx, he⟩ := Option.map_eq_some_iff.mp hmem
  exact ⟨x, hx, he.symm⟩

theorem Arranged.nodup (h : Arranged sys opts config l specs) : l.Nodup := h.numbers.of_map _

theorem Arranged.mem_error (h : Arranged sys opts config l specs) {m : SelectedDevNode DT ST × Nat} (hm : m ∈ l)
    (hrc : m.1.rc ≠ EXIT_OK) : ∃ d ∈ specs, d.node = none ∧ m.1 = failedNode sys opts d := by
  have hmem : m.1 ∈ (l.filter fun m => m.1.rc ≠ EXIT_OK).map Prod.fst :=
    List.mem_map_of_mem (List.mem_filter.mpr ⟨hm, by simp [hrc]⟩)
  obtain ⟨d, hd, he⟩ := List.mem_map.mp (h.errors.mem_iff.mp hmem)
  obtain ⟨hd, hn⟩ := List.mem_filter.mp hd
  exact ⟨d, hd, by simpa using hn, he.symm⟩

theorem Arranged.exists_error (h : Arranged sys opts config l specs) {d : DevidSpec} (hd : d ∈ specs)
    (hn : d.node = none) : ∃ m ∈ l, m.1 = failedNode sys opts d := by
  have hmem : failedNode sys opts d ∈ (specs.filter fun s => s.node.isNone).map (failedNode sys opts) :=
    List.mem_map_of_mem (List.mem_filter.mpr ⟨hd, by simp [hn]⟩)
  obtain ⟨m, hm, he⟩ := List.mem_map.mp (h.errors.mem_iff.mpr hmem)
  exact ⟨m, (List.mem_filter.mp hm).1, he⟩

theorem mem_found {x : DT × ST × Device} (h : x ∈ picked sys opts (found sys opts config)) :
    x ∈ found sys opts config := (List.mem_filter.mp h).1

theorem Arranged.not_error (h : Arranged sys opts config l specs)
    (hpop : Population sys opts config) {d : DevidSpec}
    (hd : d ∈ specs) (hn : d.node = none) {x : DT × ST × Device} (hx : x ∈ picked sys opts (found sys opts config))
    (hst : opts.subtype = some x.2.1) (hid : nodeId sys opts.subtype d.spec =
      nodeId sys (some x.2.1) x.2.2.id) : False := by
  have hdev : d.spec ∈ opts.devids := by
    rw [← h.specs_eq]
    exact List.mem_map_of_mem hd
  have hmatch := hpop.matched x (mem_found hx) hst d.spec hdev hid
  have hnot := (h.unmatched_iff hd).mp hn x hx
  rw [hmatch] at hnot
  cases hnot

theorem Arranged.device_alone (h : Arranged sys opts config l specs) (hpop : Population sys opts config)
    {y z : SelectedDevNode DT ST × Nat} (hy : y ∈ l) (hrc : y.1.rc = EXIT_OK) (hz : z ∈ l)
    (hdup : z.1.dt = y.1.dt ∧ z.1.st = y.1.st ∧ z.1.id = y.1.id) : z = y := by
  obtain ⟨x, hx, hyx⟩ := h.mem_device hy hrc
  have hxmem : x ∈ picked sys opts (found sys opts config) := List.mem_of_getElem? hx
  by_cases hzrc : z.1.rc = EXIT_OK
  · obtain ⟨x', hx', hzx⟩ := h.mem_device hz hzrc
    have hsame : z.2 = y.2 := by
      rw [hyx, hzx] at hdup
      obtain ⟨h₁, h₂, h₃⟩ := hdup
      have hpw : (picked sys opts (found sys opts config)).Pairwise fun x y =>
          ¬(x.1 = y.1 ∧ x.2.1 = y.2.1 ∧ nodeId sys (some x.2.1) x.2.2.id = nodeId sys (some y.2.1) y.2.2.id) :=
        hpop.distinct.sublist List.filter_sublist
      obtain ⟨hlz, rfl⟩ := List.getElem?_eq_some_iff.mp hx'
      obtain ⟨hly, rfl⟩ := List.getElem?_eq_some_iff.mp hx
      rcases Nat.lt_trichotomy z.2 y.2 with hlt | he | hlt
      · exact absurd ⟨Option.some.inj h₁, Option.some.inj h₂, h₃⟩ (List.pairwise_iff_getElem.mp hpw _ _ hlz hly hlt)
      · exact he
      · exact absurd ⟨(Option.some.inj h₁).symm, (Option.some.inj h₂).symm, h₃.symm⟩
          (List.pairwise_iff_getElem.mp hpw _ _ hly hlz hlt)
    rw [hsame, hx] at hx'
    cases hx'
    exact Prod.ext (hzx.trans hyx.symm) hsame
  · obtain ⟨d, hd, hn, hzd⟩ := h.mem_error hz hzrc
    rw [hyx, hzd] at hdup
    exact (h.not_error hpop hd hn hxmem hdup.2.1 hdup.2.2).elim

theorem Arranged.dup_error (h : Arranged sys opts config l specs) (hpop : Population sys opts config)
    {x z : SelectedDevNode DT ST × Nat} (hx : x ∈ l) (hz : z ∈ l) (hdup : isDuplicate z x = true) {d : DevidSpec}
    (hnode : x.1 = failedNode sys opts d) : IsErrorFor sys opts d.spec z.1 := by
  have hd := isDuplicate_iff.1 hdup
  have hrc : x.1.rc ≠ EXIT_OK := by
    rw [hnode]
    exact failed_rc d
  refine ⟨fun hok => ?_, by rw [hd.2.2, hnode]; rfl⟩
  have he := h.device_alone hpop hz hok hx ⟨hd.1.symm, hd.2.1.symm, hd.2.2.symm⟩
  exact hrc (he ▸ hok)

theorem Arranged.kept_before (h : Arranged sys opts config l specs) (hpop : Population sys opts config)
    {x y : SelectedDevNode DT ST × Nat} {d : DevidSpec} (hnode : x.1 = failedNode sys opts d)
    (hy : ∀ z ∈ l, isDuplicate z y = true → z = y) (hs : [x, y].Sublist l) :
    ∃ x', IsErrorFor sys opts d.spec x' ∧
      [x', y.1].Sublist ((keepFirst isDuplicate l.length l).map Prod.fst) := by
  obtain ⟨x', hdup, hb⟩ := Arrange.kept_before isDuplicate_refl (Nat.le_refl _) h.nodup hy hs
  have hx' : x' ∈ l := (keepFirst_sublist _ _).subset (hb.subset (by simp))
  exact ⟨x'.1, h.dup_error hpop (hs.subset (by simp)) hx' hdup hnode, by simpa using hb.map Prod.fst⟩

theorem Arranged.split (h : Arranged sys opts config l specs) {pre mid post : List String} {s t : String}
    (hdevids : opts.devids = pre ++ s :: (mid ++ t :: post)) :
    ∃ (pre' : List DevidSpec) (a : DevidSpec) (mid' : List DevidSpec) (b : DevidSpec) (post' : List DevidSpec),
      specs = pre' ++ a :: (mid' ++ b :: post') ∧ a.spec = s ∧ b.spec = t ∧ mid'.map (·.spec) = mid := by
  have hmap := h.specs_eq.trans hdevids
  obtain ⟨pre', rest, rfl, -, hrest⟩ := List.map_eq_append_iff.mp hmap
  obtain ⟨a, rest', rfl, ha, hrest'⟩ := List.map_eq_cons_iff.mp hrest
  obtain ⟨mid', rest'', rfl, hmid, hrest''⟩ := List.map_eq_append_iff.mp hrest'
  obtain ⟨b, post', rfl, hb, -⟩ := List.map_eq_cons_iff.mp hrest''
  exact ⟨pre', a, mid', b, post', rfl, ha, hb, hmid⟩

theorem Arranged.ahead (h : Arranged sys opts config l specs) {pre mid post : List String} {s t : String}
    (hdevids : opts.devids = pre ++ s :: (mid ++ t :: post)) (hs : Unmatched sys opts config s)
    (hmid : ∀ u ∈ mid, Unmatched sys opts config u) : ∃ a b x y, a ∈ specs ∧ b ∈ specs ∧ a.spec = s ∧ b.spec = t ∧
      x.1 = failedNode sys opts a ∧ [x, y].Sublist l ∧
      (b.node = some y.2 ∨ b.node = none ∧ y.1 = failedNode sys opts b) := by
  obtain ⟨pre', a, mid', b, post', hspecs, ha, hb, hmid'⟩ := h.split hdevids
  have hmema : a ∈ specs := by simp [hspecs]
  have hmemb : b ∈ specs := by simp [hspecs]
  have hna : a.node = none := (h.unmatched_iff hmema).mpr (ha ▸ hs)
  have hnmid : ∀ u ∈ mid', u.node = none := by
    intro u hu
    have hmemu : u ∈ specs := by simp [hspecs, hu]
    exact (h.unmatched_iff hmemu).mpr (hmid u.spec (hmid' ▸ List.mem_map_of_mem hu))
  obtain ⟨ms, hp⟩ := h.placed
  rw [hspecs] at hp
  obtain ⟨x, ms', -, hx, hbefore, hp'⟩ := hp.at hna
  obtain ⟨y, hy, -, hnode⟩ := mem_targets hnmid hp'
  exact ⟨a, b, x, y, hmema, hmemb, ha, hb, hx, hbefore y hy, hnode⟩

theorem Arranged.error_alone (h : Arranged sys opts config l specs)
    (hdistinct : opts.devids.Pairwise fun s t => nodeId sys opts.subtype s ≠ nodeId sys opts.subtype t)
    {z y : SelectedDevNode DT ST × Nat} (hz : z ∈ l) (hzrc : z.1.rc ≠ EXIT_OK) (hy : y ∈ l)
      (hyrc : y.1.rc ≠ EXIT_OK)
    (hid : z.1.id = y.1.id) : z = y := by
  have hids : ((l.filter fun m => m.1.rc ≠ EXIT_OK).map fun m => m.1.id).Nodup := by
    have hperm := h.errors.map (·.id)
    rw [List.map_map, List.map_map] at hperm
    have hnd : ((specs.filter fun s => s.node.isNone).map fun d => nodeId sys opts.subtype d.spec).Nodup := by
      have hall : (specs.map fun d => nodeId sys opts.subtype d.spec).Nodup := by
        have hmap := List.pairwise_map.mpr hdistinct
        rw [← h.specs_eq, List.map_map] at hmap
        exact hmap
      exact hall.sublist (List.filter_sublist.map _)
    exact hperm.nodup_iff.mpr hnd
  exact List.inj_on_of_nodup_map hids (List.mem_filter.mpr ⟨hz, by simp [hzrc]⟩)
    (List.mem_filter.mpr ⟨hy, by simp [hyrc]⟩) hid

theorem found_subtype {x : DT × ST × Device} (hx : x ∈ found sys opts config) {st : ST}
    (hst : opts.subtype = some st) :
    x.2.1 = st := by
  obtain ⟨d, -, hx⟩ := List.mem_flatMap.mp hx
  obtain ⟨st', hst', hx⟩ := List.mem_flatMap.mp hx
  obtain ⟨dev, -, rfl⟩ := List.mem_map.mp hx
  have hsel := (List.mem_filter.mp hst').2
  rw [hst] at hsel
  simpa using hsel

theorem Arranged.selected (h : Arranged sys opts config l specs) (hpop : Population sys opts config) :
    Selected sys opts config ((keepFirst isDuplicate l.length l).map Prod.fst) where
  success := by
    have hfilter := @keepFirst_filter _ isDuplicate (fun m => m.1.rc = EXIT_OK) l.length l (Nat.le_refl _) h.nodup
      fun y hy hrc z hz hd => h.device_alone hpop hy (by simpa using hrc) hz (isDuplicate_iff.1 hd)
    rw [List.filter_map]
    have hcomp : ((fun x : SelectedDevNode DT ST => decide (x.rc = EXIT_OK)) ∘ Prod.fst) =
        fun m : SelectedDevNode DT ST × Nat => decide (m.1.rc = EXIT_OK) := rfl
    rw [hcomp, hfilter, h.devices, List.zipIdx_map_fst]
  error_iff := by
    intro s hs
    constructor
    · rintro ⟨x, hx, hrc, hid⟩
      obtain ⟨m, hm, rfl⟩ := List.mem_map.mp hx
      obtain ⟨d, hd, hn, hnode⟩ := h.mem_error ((keepFirst_sublist _ _).subset hm) hrc
      have hkey : nodeId sys opts.subtype d.spec = nodeId sys opts.subtype s := by
        rw [← hid, hnode]
        rfl
      intro y hy
      have hnot := (h.unmatched_iff hd).mp hn y hy
      cases hst : opts.subtype with
      | none =>
        rw [hst] at hkey
        have hsame : d.spec = s := hkey
        rw [← hsame]
        exact hnot
      | some st =>
        have hsub : opts.subtype = some y.2.1 := by rw [hst, found_subtype (mem_found hy) hst]
        have hdev : d.spec ∈ opts.devids := by
          rw [← h.specs_eq]
          exact List.mem_map_of_mem hd
        rw [← hpop.same y (mem_found hy) hsub d.spec hdev s hs hkey]
        exact hnot
    · intro hun
      rw [← h.specs_eq] at hs
      obtain ⟨d, hd, rfl⟩ := List.mem_map.mp hs
      obtain ⟨m, hm, hnode⟩ := h.exists_error hd ((h.unmatched_iff hd).mpr hun)
      obtain ⟨z, hz, hdup⟩ := exists_kept isDuplicate_refl (Nat.le_refl l.length) hm
      exact ⟨z.1, List.mem_map_of_mem hz, h.dup_error hpop hm ((keepFirst_sublist _ _).subset hz) hdup hnode⟩
  error_only := by
    intro x hx hrc
    obtain ⟨m, hm, rfl⟩ := List.mem_map.mp hx
    obtain ⟨d, hd, -, hnode⟩ := h.mem_error ((keepFirst_sublist _ _).subset hm) hrc
    refine ⟨d.spec, ?_, hrc, by rw [hnode]; rfl⟩
    rw [← h.specs_eq]
    exact List.mem_map_of_mem hd
  error_once := by
    rw [List.filter_map, List.pairwise_map]
    have hpw := (@keepFirst_pairwise _ isDuplicate _ l (Nat.le_refl l.length)).sublist
      (List.filter_sublist (p := (fun x : SelectedDevNode DT ST => decide (x.rc ≠ EXIT_OK)) ∘ Prod.fst))
    refine hpw.imp_of_mem ?_
    intro x y hx hy hdup he
    obtain ⟨hx, hxrc⟩ := List.mem_filter.mp hx
    obtain ⟨hy, hyrc⟩ := List.mem_filter.mp hy
    obtain ⟨d, -, -, hxd⟩ := h.mem_error ((keepFirst_sublist _ _).subset hx) (by simpa using hxrc)
    obtain ⟨e, -, -, hye⟩ := h.mem_error ((keepFirst_sublist _ _).subset hy) (by simpa using hyrc)
    have hsame : isDuplicate x y = true := isDuplicate_iff.2 ⟨by rw [hxd, hye]; rfl, by rw [hxd, hye]; rfl, he⟩
    rw [hsame] at hdup
    cases hdup
  before := by
    intro pre s mid t post hdevids hs hmid d hfind
    obtain ⟨a, b, x, y, ha, hb, rfl, rfl, hx, hsub, hnode⟩ := h.ahead hdevids hs hmid
    have hsome : ((picked sys opts (found sys opts config)).findIdx? fun x =>
      devMatches sys x b.spec).isSome = true := by
      rw [isSome_findIdx]
      exact ⟨d, List.mem_of_find?_eq_some hfind, List.find?_some (p := fun x => devMatches sys x b.spec) hfind⟩
    rw [← h.node b hb] at hsome
    rcases hnode with hk | ⟨hn, -⟩
    · have hk' := hk
      rw [h.node b hb] at hk'
      have hget := find_of_findIdx hk'
      rw [hfind] at hget
      have hymem : y ∈ l := hsub.subset (by simp)
      have hdev : (successNode sys opts d, y.2) ∈ l := by
        have hin : (successNode sys opts d, y.2) ∈ l.filter fun m => m.1.rc = EXIT_OK := by
          rw [h.devices, List.mem_zipIdx_iff_getElem?, List.getElem?_map, ← hget]
          rfl
        exact (List.mem_filter.mp hin).1
      have hy : y = (successNode sys opts d, y.2) := List.inj_on_of_nodup_map h.numbers hymem hdev rfl
      have hrc : y.1.rc = EXIT_OK := by
        rw [hy]
        rfl
      obtain ⟨x', hx', hb'⟩ := h.kept_before hpop hx
        (fun z hz hd => h.device_alone hpop hymem hrc hz (isDuplicate_iff.1 hd)) hsub
      rw [hy] at hb'
      exact ⟨x', hx', hb'⟩
    · rw [hn] at hsome
      cases hsome
  order := by
    intro hdistinct pre s mid t post hdevids hs hmid ht
    obtain ⟨a, b, x, y, ha, hb, rfl, rfl, hx, hsub, hnode⟩ := h.ahead hdevids hs hmid
    have hn := (h.unmatched_iff hb).mpr ht
    rcases hnode with hk | ⟨-, hy⟩
    · rw [hn] at hk
      cases hk
    · have hymem : y ∈ l := hsub.subset (by simp)
      have hrc : y.1.rc ≠ EXIT_OK := by
        rw [hy]
        exact failed_rc b
      obtain ⟨x', hx', hb'⟩ := h.kept_before hpop hx (fun z hz hd => by
        have hz' := h.dup_error hpop hymem hz hd hy
        exact h.error_alone hdistinct hz hz'.1 hymem hrc (isDuplicate_iff.1 hd).2.2) hsub
      exact ⟨x', y.1, hx', ⟨hrc, by rw [hy]; rfl⟩, hb'⟩

end

theorem devices_selected (hdevids : opts.devids ≠ []) (hdef : ∀ st, sys.support_definable st =
    false) {config : Config}
    (hpop : Population sys opts config) (hcredit : Credited sys opts (found sys opts config)) (quiet : Bool)
    (create : ST → DevidSpec → Selection DT ST → Selection DT ST) :
    Selected sys opts config (select_devices sys opts quiet create config) := by
  obtain ⟨l, specs, h, heq⟩ := exists_arranged hdevids hdef hcredit quiet create
  rw [heq]
  exact h.selected hpop

end

instance {DT ST : Type} (sys : System DT ST) (opts : SelectOpts DT ST) [DecidableEq DT]
    [DecidableEq ST] (config : Config) (s : String) :
    Decidable (Unmatched sys opts config s) := inferInstanceAs (Decidable (∀ x ∈ _, _))

/-! ## Two devices -/

def ccwIds : List String := ["0.0.0001", "0.0.0003", "0.0.0007", "0.0.0008", "0.0.0009"]

def ccwNamespace : Namespace where
  is_id_valid := fun s => ccwIds.contains s
  is_id_range_valid := fun s => s = "0.0.0001-0.0.0005"
  is_id_in_range := fun id range => range = "0.0.0001-0.0.0005" && ["0.0.0001", "0.0.0003"].contains id
  cmp_ids := fun a b => if a = b then 0 else 1
  normalize_id := fun s => if ccwIds.contains s then some s else none

def twoDevices : System Unit Unit where
  devtypes := [((), [()])]
  ns := fun _ => ccwNamespace
  support_definable := fun _ => false
  devices := fun _ _ => [⟨"0.0.0001", true, false, false, 1, false⟩, ⟨"0.0.0003", true, false, false, 1, false⟩]

def byId (subtype : Option Unit) (devids : List String) : SelectOpts Unit Unit :=
  ⟨devids, subtype, subtype, false, false, false, false, false, false⟩

theorem population_rangeAndMissing : Population twoDevices (byId none ["0.0.0001-0.0.0005", "0.0.0009"]) .all where
  distinct := by decide
  matched := by decide
  same := by decide

theorem devices_selected_range : Selected twoDevices (byId none ["0.0.0001-0.0.0005", "0.0.0009"]) .all
    (select_devices twoDevices (byId none ["0.0.0001-0.0.0005", "0.0.0009"]) true (fun _ _ s => s) .all) := by
  refine devices_selected (by decide) (fun _ => rfl) population_rangeAndMissing ?_ true _
  have hrange : ∀ x ∈ found twoDevices (byId none ["0.0.0001-0.0.0005", "0.0.0009"]) .all,
      ∀ s ∈ ["0.0.0001-0.0.0005", "0.0.0009"], devMatches twoDevices x s = true → s = "0.0.0001-0.0.0005" := by
    decide
  intro pre x post hsplit c hc hseen s hs hm
  have hx : x ∈ found twoDevices (byId none ["0.0.0001-0.0.0005", "0.0.0009"]) .all :=
    mem_found (by rw [hsplit]; simp)
  rw [hrange x hx s hs hm, ← hrange x hx c (List.mem_of_find?_eq_some hc) (List.find?_some hc)]
  exact hseen

/-- The errors are in the order of all specifications. -/
def OrderKept {DT ST : Type} [DecidableEq DT] [DecidableEq ST] (sys : System DT ST) (opts : SelectOpts DT ST)
    (config : Config) (l : List (SelectedDevNode DT ST)) : Prop :=
  (opts.devids.Pairwise fun s t => nodeId sys opts.subtype s ≠ nodeId sys opts.subtype t) →
    ∀ pre s mid t post, opts.devids = pre ++ s :: (mid ++ t :: post) → Unmatched sys opts config s →
    Unmatched sys opts config t → ∃ x y, IsErrorFor sys opts s x ∧ IsErrorFor sys opts t y ∧ [x, y].Sublist l

/-- An existing device gets an error in its place, errors change their order, and without specifications all
devices are selected. -/
theorem selection_not_exact :
    ¬Selected twoDevices (byId (some ()) ["0.0.0001-0.0.0005", "0.0.0003", "0.0.0001"]) .all
      (select_devices twoDevices (byId (some ()) ["0.0.0001-0.0.0005", "0.0.0003", "0.0.0001"])
        true (fun _ _ s => s) .all) ∧
    ¬OrderKept twoDevices (byId none ["0.0.0007", "0.0.0003", "0.0.0008", "0.0.0001"]) .all
      (select_devices twoDevices (byId none ["0.0.0007", "0.0.0003", "0.0.0008", "0.0.0001"])
        true (fun _ _ s => s) .all) ∧
    ¬Selected twoDevices (byId none []) .all
      (select_devices twoDevices (byId none []) true (fun _ _ s => s) .all) := by
  refine ⟨fun h => ?_, fun h => ?_, fun h => ?_⟩
  · exact absurd (congrArg List.length h.success) (by decide)
  · obtain ⟨x, y, hx, hy, hsub⟩ := h (by decide) [] "0.0.0007" ["0.0.0003"] "0.0.0008" ["0.0.0001"] rfl
      (by decide) (by decide)
    have hids : [x.id, y.id].Sublist ((select_devices twoDevices
        (byId none ["0.0.0007", "0.0.0003", "0.0.0008", "0.0.0001"]) true (fun _ _ s => s) .all).map (·.id)) :=
      List.Sublist.map (fun x : SelectedDevNode Unit Unit => x.id) hsub
    have hrun : (select_devices twoDevices (byId none ["0.0.0007", "0.0.0003", "0.0.0008", "0.0.0001"]) true
        (fun _ _ s => s) .all).map (·.id) = ["0.0.0008", "0.0.0001", "0.0.0007", "0.0.0003"] := by
      decide
    rw [hrun, hx.2, hy.2] at hids
    exact absurd hids (by decide)
  · exact absurd (congrArg List.length h.success) (by decide)

end Zdev.Select
