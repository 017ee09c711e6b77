import S390Tools.Libutil.UtilList

/-!
# Linked lists are sequences (libutil/util_list.c)
-/

namespace UtilList

open DList

def Nodes (s : State) (ns : List Nat) : Prop := IsList s.links s.start s.end_ ns

section
variable {s : State} {ns us vs : List Nat}

/-! ## What the links of a node are -/

theorem Nodes.of_links {links : Links Nat} {start end_ : Option Nat} {offset : Nat}
    (h : IsList links ns.head? ns.getLast? ns) (hs : start = ns.head?) (he : end_ = ns.getLast?) :
    Nodes { offset, start, end_, links } ns := by
  subst hs
  subst he
  exact h

theorem ne_of_not_mem {x z : Nat} (hx : x ∉ ns) (hz : z ∈ ns) : z ≠ x := fun e => hx (e ▸ hz)

theorem getLast?_cons_or (x : Nat) (l : List Nat) : (x :: l).getLast? = l.getLast?.or (some x) := by
  cases l with
  | nil => rfl
  | cons y l =>
    rw [List.getLast?_cons_cons]
    cases h : (y :: l).getLast? with
    | none => simp at h
    | some z => rfl

/-! ## Adding -/

theorem add_tail_nodes {entry : Nat} (h : Nodes s ns) (hx : e2n s entry ∉ ns) :
    ∃ s', util_list_add_tail s entry = some s' ∧ s'.offset = s.offset ∧ Nodes s' (ns ++ [e2n s entry]) := by
  have hl : IsList s.links s.start s.end_ (ns ++ []) := by rwa [List.append_nil]
  have hstart := h.first_eq
  have hend := h.last_eq
  rw [util_list_add_tail]
  generalize e2n s entry = node at hx ⊢
  cases hs : s.start with
  | none =>
    obtain rfl := List.head?_eq_none_iff.mp (hstart.symm.trans hs)
    refine ⟨_, rfl, rfl, Nodes.of_links (hl.insert hx ?_ ?_ ?_ ?_ ?_ ?_) rfl rfl⟩ <;> simp
  | some head =>
    have hne : ns ≠ [] := fun e => by
      rw [e, hs] at hstart
      cases hstart
    obtain ⟨tail, ht⟩ := Option.isSome_iff_exists.mp (List.getLast?_isSome.mpr hne)
    have hmem : tail ∈ ns := List.mem_of_getLast? ht
    have htn : node ≠ tail := (ne_of_not_mem hx hmem).symm
    rw [hend, ht, Option.map_some]
    refine ⟨_, rfl, rfl, Nodes.of_links (hl.insert (by simpa using hx) ?_ ?_ ?_ ?_ ?_ ?_) ?_ ?_⟩
    · simp [htn]
    · simp [ht]
    · intro u hu
      cases ht.symm.trans hu
      simp
    · simp
    · intro z hz hzt
      have hzn := ne_of_not_mem hx (by simpa using hz)
      have hne : z ≠ tail := fun e => hzt (e ▸ ht)
      simp [hzn, hne]
    · intro z hz _
      have hzn := ne_of_not_mem hx (by simpa using hz)
      simp [hzn]
    · rw [List.head?_append, ← hstart, hs]
      rfl
    · rw [List.getLast?_append]
      rfl

theorem add_head_nodes {entry : Nat} (h : Nodes s ns) (hx : e2n s entry ∉ ns) :
    Nodes (util_list_add_head s entry) (e2n s entry :: ns) := by
  have hl : IsList s.links s.start s.end_ ([] ++ ns) := h
  have hstart := h.first_eq
  have hend := h.last_eq
  rw [util_list_add_head]
  generalize e2n s entry = node at hx ⊢
  cases hs : s.start with
  | none =>
    obtain rfl := List.head?_eq_none_iff.mp (hstart.symm.trans hs)
    refine Nodes.of_links (hl.insert hx ?_ ?_ ?_ ?_ ?_ ?_) rfl rfl <;> simp
  | some head =>
    have hh := hstart.symm.trans hs
    have hmem : head ∈ ns := List.mem_of_head? hh
    have htn : node ≠ head := (ne_of_not_mem hx hmem).symm
    refine Nodes.of_links (hl.insert hx ?_ ?_ ?_ ?_ ?_ ?_) rfl ?_
    · simp [hh]
    · simp [htn]
    · simp
    · intro v hv
      cases hh.symm.trans hv
      simp
    · intro z hz _
      have hzn := ne_of_not_mem hx hz
      simp [hzn]
    · intro z hz hzh
      have hzn := ne_of_not_mem hx hz
      have hne : z ≠ head := fun e => hzh (e ▸ hh)
      simp [hzn, hne]
    · rw [getLast?_cons_or, ← hend]
      cases he : s.end_ with
      | none =>
        rw [List.getLast?_eq_none_iff.mp (hend.symm.trans he)] at hmem
        cases hmem
      | some tail => rfl

theorem add_next_nodes {entry list_entry : Nat} (h : Nodes s (us ++ e2n s list_entry :: vs))
    (hx : e2n s entry ∉ us ++ e2n s list_entry :: vs) :
    Nodes (util_list_add_next s entry list_entry) (us ++ e2n s list_entry :: e2n s entry :: vs) := by
  have hnext := h.next_eq
  have hend := h.last_eq
  have hstart := h.first_eq
  rw [util_list_add_next]
  generalize e2n s entry = node at hx ⊢
  generalize e2n s list_entry = list_node at h hx hnext hend hstart ⊢
  have hne : list_node ≠ node := ne_of_not_mem hx (by simp)
  have hl : IsList s.links s.start s.end_ ((us ++ [list_node]) ++ vs) := by
    rw [List.append_assoc]
    exact h
  rw [show us ++ list_node :: node :: vs = (us ++ [list_node]) ++ node :: vs by simp]
  simp only [setPrev_next, setNext_next, if_neg hne, hnext]
  refine Nodes.of_links (hl.insert (by simpa using hx) ?_ ?_ ?_ ?_ ?_ ?_) ?_ ?_
  · simp [hne.symm]
  · have hv : vs.head? ≠ some node := fun e => hx (by simp [List.mem_of_head? e])
    simp [hv]
  · simp
  · intro v hv
    simp [hv]
  · intro z hz hzl
    have hzn := ne_of_not_mem hx (by simpa using hz)
    have hne : z ≠ list_node := fun e => hzl (by simp [e])
    simp [hzn, hne]
  · intro z hz hzv
    have hzn := ne_of_not_mem hx (by simpa using hz)
    simp [hzn, hzv]
  · rw [hstart]
    cases us <;> rfl
  · rw [List.getLast?_append, getLast?_cons_or, hend, List.getLast?_append, getLast?_cons_or]
    cases vs with
    | nil => rfl
    | cons v vs =>
      cases hg : (v :: vs).getLast? with
      | none => simp at hg
      | some g => rfl

theorem add_prev_nodes {entry list_entry : Nat} (h : Nodes s (us ++ e2n s list_entry :: vs))
    (hx : e2n s entry ∉ us ++ e2n s list_entry :: vs) :
    Nodes (util_list_add_prev s entry list_entry) (us ++ e2n s entry :: e2n s list_entry :: vs) := by
  have hprev := h.prev_eq
  have hend := h.last_eq
  have hstart := h.first_eq
  rw [util_list_add_prev]
  generalize e2n s entry = node at hx ⊢
  generalize e2n s list_entry = list_node at h hx hprev hend hstart ⊢
  have hne : list_node ≠ node := ne_of_not_mem hx (by simp)
  have hl : IsList s.links s.start s.end_ (us ++ (list_node :: vs)) := h
  simp only [setPrev_prev, setNext_prev, if_neg hne, hprev]
  refine Nodes.of_links (hl.insert hx ?_ ?_ ?_ ?_ ?_ ?_) ?_ ?_
  · have hu : us.getLast? ≠ some node := fun e => hx (by simp [List.mem_of_getLast? e])
    simp [hu]
  · simp [hne.symm]
  · intro u hu
    simp [hu]
  · simp
  · intro z hz hzu
    have hzn := ne_of_not_mem hx hz
    simp [hzn, hzu]
  · intro z hz hzl
    have hzn := ne_of_not_mem hx hz
    have hne : z ≠ list_node := fun e => hzl (by simp [e])
    simp [hzn, hne]
  · rw [hstart]
    cases us <;> rfl
  · rw [hend, List.getLast?_append, getLast?_cons_or, List.getLast?_append, getLast?_cons_or, getLast?_cons_or]
    cases vs.getLast? <;> rfl

theorem remove_nodes {entry : Nat} (h : Nodes s (us ++ e2n s entry :: vs)) :
    Nodes (util_list_remove s entry) (us ++ vs) := by
  have hprev := h.prev_eq
  have hnext := h.next_eq
  have hend := h.last_eq
  have hstart := h.first_eq
  rw [util_list_remove]
  generalize e2n s entry = node at h hprev hnext hend hstart ⊢
  have hnd := List.nodup_cons.mp (List.nodup_middle.mp h.nodup)
  have hu : us.getLast? ≠ some node := fun e => hnd.1 (by simp [List.mem_of_getLast? e])
  simp only [setNextOf_next, setNextOf_prev, hprev, hnext, if_neg hu]
  refine Nodes.of_links (IsList.remove h ?_ ?_ ?_ ?_) ?_ ?_
  · intro u hu
    simp [hu]
  · intro v hv
    simp [hv]
  · intro z _ hz
    simp [hz]
  · intro z _ hz
    simp [hz]
  · cases us with
    | nil => rw [hstart]; simp
    | cons u us =>
      have hne : u ≠ node := fun e => hnd.1 (by simp [e])
      rw [hstart]
      simp [hne]
  · rcases List.eq_nil_or_concat vs with rfl | ⟨vs, v, rfl⟩
    · rw [hend]
      simp
    · have hne : v ≠ node := fun e => hnd.1 (by simp [e])
      rw [hend, List.concat_eq_append, ← List.cons_append, ← List.append_assoc, ← List.append_assoc,
        List.getLast?_append, List.getLast?_append]
      simp [hne]

/-! ## Sorting -/

section
variable (cmp_fn : Nat → Nat → Int)

def stays (offset : Nat) (x y : Nat) : Bool := decide (cmp_fn (x - offset) (y - offset) ≤ 0)

theorem sort_step_stays {x y : Nat} (h : Nodes s (us ++ x :: y :: vs)) (hxy : stays cmp_fn s.offset x y = true) :
    sort_step cmp_fn (s, x) = some (s, y) := by
  have hle : ¬cmp_fn (n2e s x) (n2e s y) > 0 := not_lt.mpr (of_decide_eq_true hxy)
  have hnext : s.links.next x = some y := h.next_eq
  rw [sort_step]
  simp only [hnext, Option.map_some, if_neg hle]

theorem sort_step_swaps {x y : Nat} (h : Nodes s (us ++ x :: y :: vs)) (hxy : stays cmp_fn s.offset x y = false) :
    ∃ s', sort_step cmp_fn (s, x) = some (s', x) ∧ s'.offset = s.offset ∧ Nodes s' (us ++ y :: x :: vs) := by
  have hgt : cmp_fn (n2e s x) (n2e s y) > 0 := not_le.mp (of_decide_eq_false hxy)
  have hnext : s.links.next x = some y := h.next_eq
  have hprev : s.links.prev x = us.getLast? := h.prev_eq
  have h' : Nodes s ((us ++ [x]) ++ y :: vs) := by
    rw [List.append_assoc]
    exact h
  have hnexty : s.links.next y = vs.head? := IsList.next_eq h'
  have hnd := List.nodup_cons.mp (List.nodup_middle.mp h.nodup)
  have hnd' := List.nodup_cons.mp (List.nodup_middle.mp hnd.2)
  have hyx : y ≠ x := fun e => hnd.1 (by simp [e])
  have hvx : vs.head? ≠ some x := fun e => hnd.1 (by simp [List.mem_of_head? e])
  have hvy : vs.head? ≠ some y := fun e => hnd'.1 (by simp [List.mem_of_head? e])
  have hux : us.getLast? ≠ some x := fun e => hnd.1 (by simp [List.mem_of_getLast? e])
  have huy : us.getLast? ≠ some y := fun e => hnd'.1 (by simp [List.mem_of_getLast? e])
  have hstart := h.first_eq
  have hend := h.last_eq
  rw [sort_step]
  simp only [hnext, Option.map_some, if_pos hgt, setNext_next, setNext_prev, setPrevOf_prev, if_true, hnexty, hprev,
    if_neg hvx, setPrev_prev]
  refine ⟨_, rfl, rfl, Nodes.of_links (IsList.swap h ?_ ?_ ?_ ?_ ?_ ?_ ?_ ?_) ?_ ?_⟩
  · simp [huy]
  · simp [hyx]
  · simp [hux, hyx.symm]
  · simp
  · intro u hu
    simp [hu]
  · intro v hv
    have hv' : v ≠ y := fun e => hvy (e ▸ hv)
    have hv'' : v ≠ x := fun e => hvx (e ▸ hv)
    simp [hv, hv', hv'']
  · intro z hz hzu
    have hzx : z ≠ x := fun e => hnd.1 (by
      rw [← e]
      rcases List.mem_append.mp hz with hz | hz <;> simp [hz])
    have hzy : z ≠ y := fun e => hnd'.1 (e ▸ hz)
    simp [hzu, hzx, hzy]
  · intro z hz hzv
    have hzx : z ≠ x := fun e => hnd.1 (by
      rw [← e]
      rcases List.mem_append.mp hz with hz | hz <;> simp [hz])
    have hzy : z ≠ y := fun e => hnd'.1 (e ▸ hz)
    simp [hzv, hzx, hzy]
  · rw [hstart]
    cases us with
    | nil => rfl
    | cons u us =>
      cases hg : (u :: us).getLast? with
      | none => simp at hg
      | some g => rfl
  · rw [hend, List.getLast?_append, getLast?_cons_or, getLast?_cons_or, List.getLast?_append, getLast?_cons_or,
      getLast?_cons_or]
    cases vs with
    | nil => rfl
    | cons v vs =>
      cases hg : (v :: vs).getLast? with
      | none => simp at hg
      | some g => rfl

theorem sort_steps_nodes : ∀ (k : Nat) {s : State} {us : List Nat} {x : Nat} {l : List Nat},
    Nodes s (us ++ x :: l) →
    k ≤ l.length → ∃ s' z, sort_steps cmp_fn k (s, x) = some (s', z) ∧ s'.offset = s.offset ∧
      Nodes s' (us ++ BubbleSort.passBy (stays cmp_fn s.offset) k (x :: l))
  | 0, s, us, x, l, h, _ => ⟨s, x, rfl, rfl, by rwa [BubbleSort.passBy_zero]⟩
  | k + 1, s, us, x, y :: l, h, hk => by
    have hk' : k ≤ l.length := Nat.le_of_succ_le_succ hk
    rw [sort_steps, BubbleSort.passBy]
    by_cases hxy : stays cmp_fn s.offset x y = true
    · have h' : Nodes s ((us ++ [x]) ++ y :: l) := by
        rw [List.append_assoc]
        exact h
      obtain ⟨s', z, hs', ho, hn⟩ := sort_steps_nodes k h' hk'
      rw [sort_step_stays cmp_fn h hxy, if_pos hxy]
      exact ⟨s', z, hs', ho, by simpa using hn⟩
    · rw [Bool.not_eq_true] at hxy
      obtain ⟨s₁, h₁, ho₁, hn₁⟩ := sort_step_swaps cmp_fn h hxy
      have h' : Nodes s₁ ((us ++ [y]) ++ x :: l) := by
        rw [List.append_assoc]
        exact hn₁
      obtain ⟨s', z, hs', ho, hn⟩ := sort_steps_nodes k h' hk'
      rw [h₁, if_neg (by simp [hxy])]
      refine ⟨s', z, hs', ho.trans ho₁, ?_⟩
      rw [ho₁] at hn
      simpa using hn

theorem sort_round_nodes {i : Nat} (h : Nodes s ns) (hi : 0 < i) (hlt : i < ns.length) :
    ∃ s', sort_round cmp_fn ns.length s i = some s' ∧ s'.offset = s.offset ∧
      Nodes s' (BubbleSort.passBy (stays cmp_fn s.offset) (ns.length - i) ns) := by
  cases ns with
  | nil => exact absurd hlt (Nat.not_lt_zero i)
  | cons x l =>
    have hk : (x :: l).length - i ≤ l.length := by
      rw [List.length_cons]
      omega
    obtain ⟨s', z, hs', ho, hn⟩ := sort_steps_nodes cmp_fn _ (show Nodes s ([] ++ x :: l) from h) hk
    have hstart : s.start = some x := h.first_eq
    rw [sort_round, hstart, Option.bind_some, hs']
    exact ⟨s', rfl, ho, hn⟩

theorem sort_rounds_nodes (list_cnt : Nat) : ∀ (m : Nat) {i : Nat} {s : State} {ns : List Nat}, Nodes s ns →
    ns.length = list_cnt → 0 < i → i + m = list_cnt →
      ∃ s', (List.range' i m).foldlM (sort_round cmp_fn list_cnt) s = some s' ∧ s'.offset = s.offset ∧
        Nodes s' (BubbleSort.passesBy (stays cmp_fn s.offset) m ns)
  | 0, _, s, ns, h, _, _, _ => ⟨s, rfl, rfl, h⟩
  | m + 1, i, s, ns, h, hlen, hi, hm => by
    obtain ⟨s₁, h₁, ho₁, hn₁⟩ := sort_round_nodes cmp_fn h hi (by omega)
    rw [hlen, show list_cnt - i = m + 1 by omega] at hn₁
    rw [hlen] at h₁
    have hlen₁ := (BubbleSort.passBy_perm (stays cmp_fn s.offset) (m + 1) ns).length_eq
    obtain ⟨s', hs', ho, hn⟩ := sort_rounds_nodes list_cnt m hn₁ (hlen₁.trans hlen) (Nat.succ_pos i) (by omega)
    rw [List.range'_succ, List.foldlM_cons, h₁]
    refine ⟨s', hs', ho.trans ho₁, ?_⟩
    rwa [ho₁] at hn

end

/-! ## Entries -/

def Holds (s : State) (xs : List Nat) : Prop := Nodes s (xs.map (e2n s))

theorem n2e_e2n (s : State) (x : Nat) : n2e s (e2n s x) = x := Nat.add_sub_cancel x s.offset

theorem e2n_injective (s : State) : Function.Injective (e2n s) := fun _ _ h => Nat.add_right_cancel h

variable {xs ys zs : List Nat}

theorem Holds.nodup (h : Holds s xs) : xs.Nodup := List.Nodup.of_map _ (IsList.nodup h)

theorem e2n_mem (s : State) (x : Nat) : e2n s x ∈ xs.map (e2n s) ↔ x ∈ xs :=
  List.mem_map_of_injective (e2n_injective s)

theorem Holds.of_nodes {s' : State} (ho : s'.offset = s.offset) (h : Nodes s' (xs.map (e2n s))) : Holds s' xs := by
  rw [Holds, show e2n s' = e2n s from funext fun x => by rw [e2n, e2n, ho]]
  exact h

theorem start_eq (h : Holds s xs) : util_list_start s = xs.head? := by
  rw [util_list_start, IsList.first_eq h, List.head?_map, Option.map_map]
  cases xs with
  | nil => rfl
  | cons x xs => exact congrArg some (n2e_e2n s x)

theorem end_eq (h : Holds s xs) : util_list_end s = xs.getLast? := by
  rw [util_list_end, IsList.last_eq h, List.getLast?_map, Option.map_map, show n2e s ∘ e2n s =
    id from funext (n2e_e2n s),
    Option.map_id]
  rfl

theorem next_eq {x : Nat} (h : Holds s (ys ++ x :: zs)) : util_list_next s (some x) = zs.head? := by
  rw [Holds, List.map_append, List.map_cons] at h
  rw [util_list_next, Option.bind_some, IsList.next_eq h, List.head?_map, Option.map_map,
    show n2e s ∘ e2n s = id from funext (n2e_e2n s), Option.map_id]
  rfl

theorem prev_eq {x : Nat} (h : Holds s (ys ++ x :: zs)) : util_list_prev s (some x) = ys.getLast? := by
  rw [Holds, List.map_append, List.map_cons] at h
  rw [util_list_prev, Option.bind_some, IsList.prev_eq h, List.getLast?_map, Option.map_map,
    show n2e s ∘ e2n s = id from funext (n2e_e2n s), Option.map_id]
  rfl

/-! ## Traversing -/

theorem visit_forward : ∀ {zs ys : List Nat}, Holds s (ys ++ zs) → ∀ fuel, zs.length ≤ fuel →
    visit (util_list_next s) fuel zs.head? = some zs
  | [], _, _, fuel, _ => by cases fuel <;> rfl
  | z :: zs, ys, h, fuel + 1, hf => by
    have h' : Holds s ((ys ++ [z]) ++ zs) := by
      rw [List.append_assoc]
      exact h
    rw [List.head?_cons, visit, next_eq h, visit_forward h' fuel (Nat.le_of_succ_le_succ hf), Option.map_some]

theorem visit_backward (fuel : Nat) : ∀ {ys zs : List Nat}, Holds s (ys ++ zs) → ys.length ≤ fuel →
    visit (util_list_prev s) fuel ys.getLast? = some ys.reverse := by
  induction fuel with
  | zero =>
    intro ys zs _ hf
    obtain rfl := List.length_eq_zero_iff.mp (Nat.le_zero.mp hf)
    rfl
  | succ fuel ih =>
    intro ys zs h hf
    rcases List.eq_nil_or_concat ys with rfl | ⟨us, y, rfl⟩
    · rfl
    · rw [List.concat_eq_append] at *
      have h' : Holds s (us ++ y :: zs) := by
        rw [List.append_assoc] at h
        exact h
      rw [List.length_append, List.length_singleton] at hf
      rw [List.getLast?_append, List.getLast?_singleton, Option.some_or, visit, prev_eq h', ih h' (by omega)]
      simp

theorem count_eq : ∀ {zs ys : List Nat}, Holds s (ys ++ zs) → ∀ fuel cnt, zs.length ≤ fuel →
    count s fuel zs.head? cnt = some (cnt + zs.length)
  | [], _, _, fuel, cnt, _ => by cases fuel <;> rfl
  | z :: zs, ys, h, fuel + 1, cnt, hf => by
    have h' : Holds s ((ys ++ [z]) ++ zs) := by
      rw [List.append_assoc]
      exact h
    rw [List.head?_cons, count, next_eq h, count_eq h' fuel (cnt + 1) (Nat.le_of_succ_le_succ hf), List.length_cons]
    congr 1
    omega

theorem len_eq (h : Holds s xs) {fuel : Nat} (hf : xs.length ≤ fuel) : util_list_len fuel s = some xs.length := by
  rw [util_list_len, start_eq h, count_eq (show Holds s ([] ++ xs) from h) fuel 0 hf, Nat.zero_add]

theorem Holds.traversed (h : Holds s xs) : Traversed s xs where
  forward fuel hf := by
    rw [start_eq h]
    exact visit_forward (show Holds s ([] ++ xs) from h) fuel hf
  backward fuel hf := by
    rw [end_eq h]
    exact visit_backward fuel (show Holds s (xs ++ []) by rwa [List.append_nil]) hf
  len _ hf := len_eq h hf

/-! ## Calls -/

theorem sort_holds (cmp_fn : Nat → Nat → Int) (h : Holds s xs) : ∃ s', Holds s' (sorted cmp_fn xs) ∧
    ∀ fuel, xs.length ≤ fuel → util_list_sort cmp_fn fuel s = some s' := by
  have hstays : (fun x y => stays cmp_fn s.offset (e2n s x) (e2n s y)) = fun x y => decide (cmp_fn x y ≤ 0) := by
    funext x y
    rw [stays, e2n, e2n, Nat.add_sub_cancel, Nat.add_sub_cancel]
  cases xs with
  | nil =>
    refine ⟨s, h, fun fuel hf => ?_⟩
    rw [util_list_sort, len_eq h hf]
    rfl
  | cons x xs =>
    obtain ⟨s', hs', ho, hn⟩ :=
      sort_rounds_nodes cmp_fn (x :: xs).length xs.length h (List.length_map _) Nat.one_pos
      (by rw [List.length_cons, Nat.add_comm])
    refine ⟨s', Holds.of_nodes ho ?_, fun fuel hf => ?_⟩
    · rw [BubbleSort.passesBy_map, hstays] at hn
      exact hn
    · rw [util_list_sort, len_eq h hf, Option.bind_some]
      exact hs'

theorem flatMap_split {x : Nat} {f : Nat → List Nat} (hnd : (ys ++ x :: zs).Nodup) (hf : ∀ y, y ≠ x → f y = [y]) :
    (ys ++ x :: zs).flatMap f = ys ++ (f x ++ zs) := by
  have hsame : ∀ l : List Nat, x ∉ l → l.flatMap f = l := fun l hl => by
    rw [List.flatMap_congr fun y hy => hf y fun e => hl (e ▸ hy), List.flatMap_singleton']
  have hx := (List.nodup_cons.mp (List.nodup_middle.mp hnd)).1
  rw [List.mem_append, not_or] at hx
  rw [List.flatMap_append, List.flatMap_cons, hsame ys hx.1, hsame zs hx.2]

theorem erase_split {x : Nat} (hnd : (ys ++ x :: zs).Nodup) : (ys ++ x :: zs).erase x = ys ++ zs := by
  have hx := (List.nodup_cons.mp (List.nodup_middle.mp hnd)).1
  rw [List.erase_append_right _ fun h => hx (List.mem_append_left _ h), List.erase_cons_head]

theorem remove_holds (h : Holds s xs) {x : Nat} (hx : x ∈ xs) : Holds (util_list_remove s x) (xs.erase x) := by
  obtain ⟨us, vs, rfl⟩ := List.append_of_mem hx
  rw [erase_split h.nodup]
  rw [Holds, List.map_append, List.map_cons] at h
  exact Holds.of_nodes (s := s) rfl (by
    rw [List.map_append]
    exact remove_nodes h)

theorem step_holds (h : Holds s xs) : ∀ {op : Op}, seq_step xs op = some ys →
    ∃ s', Holds s' ys ∧ ∀ fuel, xs.length ≤ fuel → step fuel s op = some s'
  | .add_tail e, hseq => by
    by_cases he : e ∈ xs
    · simp [seq_step, he] at hseq
    · rw [seq_step, if_neg he] at hseq
      cases hseq
      obtain ⟨s', hs', ho, hn⟩ := add_tail_nodes h (mt (e2n_mem s e).mp he)
      exact ⟨s', Holds.of_nodes ho (by rwa [List.map_append]), fun _ _ => hs'⟩
  | .add_head e, hseq => by
    by_cases he : e ∈ xs
    · simp [seq_step, he] at hseq
    · rw [seq_step, if_neg he] at hseq
      cases hseq
      refine ⟨_, Holds.of_nodes ?_ (add_head_nodes h (mt (e2n_mem s e).mp he)), fun _ _ => rfl⟩
      rw [util_list_add_head]
      cases s.start <;> rfl
  | .add_next e a, hseq => by
    by_cases hg : e ∈ xs ∨ a ∉ xs
    · simp only [seq_step, if_pos hg] at hseq
      cases hseq
    · simp only [seq_step, if_neg hg] at hseq
      cases hseq
      rw [not_or, not_not] at hg
      obtain ⟨us, vs, rfl⟩ := List.append_of_mem hg.2
      rw [flatMap_split h.nodup (fun y hy => if_neg hy), if_pos rfl]
      have hmap := h
      have he := mt (e2n_mem s e).mp hg.1
      rw [Holds, List.map_append, List.map_cons] at hmap
      rw [List.map_append, List.map_cons] at he
      refine ⟨util_list_add_next s e a, Holds.of_nodes (s := s) rfl ?_, fun _ _ => rfl⟩
      have hn := add_next_nodes hmap he
      simpa using hn
  | .add_prev e a, hseq => by
    by_cases hg : e ∈ xs ∨ a ∉ xs
    · simp only [seq_step, if_pos hg] at hseq
      cases hseq
    · simp only [seq_step, if_neg hg] at hseq
      cases hseq
      rw [not_or, not_not] at hg
      obtain ⟨us, vs, rfl⟩ := List.append_of_mem hg.2
      rw [flatMap_split h.nodup (fun y hy => if_neg hy), if_pos rfl]
      have hmap := h
      have he := mt (e2n_mem s e).mp hg.1
      rw [Holds, List.map_append, List.map_cons] at hmap
      rw [List.map_append, List.map_cons] at he
      refine ⟨util_list_add_prev s e a, Holds.of_nodes (s := s) rfl ?_, fun _ _ => rfl⟩
      have hn := add_prev_nodes hmap he
      simpa using hn
  | .remove e, hseq => by
    by_cases he : e ∈ xs
    · rw [seq_step, if_pos he] at hseq
      cases hseq
      exact ⟨_, remove_holds h he, fun _ _ => rfl⟩
    · simp [seq_step, he] at hseq
  | .sort cmp_fn, hseq => by
    cases hseq
    exact sort_holds cmp_fn h

/-! ## Loops that change the list -/

theorem turns_split {i : Nat} {pre rest : List Nat} (hpre : i ∉ pre) (hrest : i ∉ rest) :
    ∀ {acts : List Act} {mid tail xs' : List Nat}, (mid = [i] ∧ i ∉ tail ∨ mid = []) →
      acts.foldlM (turn i) (pre ++ mid ++ rest ++ tail) = some xs' →
        ∃ mid' tail', xs' = pre ++ mid' ++ rest ++ tail' ∧ ∀ z ∈ tail', z ∈ tail ∨ .append z ∈ acts
  | [], mid, tail, _, _, h => by
    cases h
    exact ⟨mid, tail, rfl, fun _ hz => .inl hz⟩
  | .remove :: acts, mid, tail, xs', hmid, h => by
    rw [List.foldlM_cons, turn] at h
    by_cases hi : i ∈ pre ++ mid ++ rest ++ tail
    · rw [if_pos hi] at h
      rcases hmid with ⟨rfl, ht⟩ | rfl
      · rw [List.append_assoc, List.append_assoc, List.erase_append_right _ hpre, List.singleton_append,
          List.erase_cons_head, ← List.append_assoc] at h
        have h : acts.foldlM (turn i) (pre ++ [] ++ rest ++ tail) = some xs' := by
          rw [List.append_nil]
          exact h
        obtain ⟨mid', tail', he, ht'⟩ := turns_split hpre hrest (.inr rfl) h
        exact ⟨mid', tail', he, fun z hz => (ht' z hz).imp_right (List.mem_cons_of_mem _)⟩
      · have hfront : i ∉ pre ++ [] ++ rest := by simp [hpre, hrest]
        rw [List.erase_append_right _ hfront] at h
        obtain ⟨mid', tail', he, ht'⟩ := turns_split hpre hrest (.inr rfl) h
        exact ⟨mid', tail', he, fun z hz => (ht' z hz).imp List.mem_of_mem_erase (List.mem_cons_of_mem _)⟩
    · rw [if_neg hi] at h
      cases h
  | .append e :: acts, mid, tail, xs', hmid, h => by
    rw [List.foldlM_cons, turn] at h
    by_cases he : e ∈ pre ++ mid ++ rest ++ tail
    · rw [if_pos he] at h
      cases h
    · rw [if_neg he] at h
      have hmid' : mid = [i] ∧ i ∉ tail ++ [e] ∨ mid = [] := by
        refine hmid.imp_left fun ⟨hm, ht⟩ => ⟨hm, ?_⟩
        rw [List.mem_append, List.mem_singleton, not_or]
        exact ⟨ht, fun hie => he (by simp [hm, hie])⟩
      have h : acts.foldlM (turn i) (pre ++ mid ++ rest ++ (tail ++ [e])) = some xs' := by
        rw [← List.append_assoc]
        exact h
      obtain ⟨mid', tail', heq, ht'⟩ := turns_split hpre hrest hmid' h
      refine ⟨mid', tail', heq, fun z hz => ?_⟩
      rcases ht' z hz with hz | hz
      · rcases List.mem_append.mp hz with hz | hz
        · exact .inl hz
        · rw [List.mem_singleton.mp hz]
          exact .inr List.mem_cons_self
      · exact .inr (List.mem_cons_of_mem _ hz)

theorem acts_hold {i : Nat} : ∀ {acts : List Act} {s : State} {xs ys : List Nat}, Holds s xs →
    acts.foldlM (turn i) xs = some ys → ∃ s', acts.foldlM (act i) s = some s' ∧ Holds s' ys
  | [], s, _, _, h, hseq => by
    cases hseq
    exact ⟨s, rfl, h⟩
  | .remove :: acts, s, xs, ys, h, hseq => by
    rw [List.foldlM_cons, turn] at hseq
    by_cases hi : i ∈ xs
    · rw [if_pos hi] at hseq
      obtain ⟨s', hs', h'⟩ := acts_hold (remove_holds h hi) hseq
      exact ⟨s', hs', h'⟩
    · rw [if_neg hi] at hseq
      cases hseq
  | .append e :: acts, s, xs, ys, h, hseq => by
    rw [List.foldlM_cons, turn] at hseq
    by_cases he : e ∈ xs
    · rw [if_pos he] at hseq
      cases hseq
    · rw [if_neg he] at hseq
      have hadd : seq_step xs (.add_tail e) = some (xs ++ [e]) := if_neg he
      obtain ⟨s₁, h₁, hs₁⟩ := step_holds h hadd
      obtain ⟨s', hs', h'⟩ := acts_hold h₁ hseq
      refine ⟨s', ?_, h'⟩
      rw [List.foldlM_cons, show act i s (.append e) = some s₁ from hs₁ xs.length le_rfl]
      exact hs'

theorem behind_split {x : Nat} (hx : x ∉ ys) : behind (ys ++ x :: zs) x = zs.head? := by
  rw [behind, List.dropWhile_append_of_pos fun y hy => by simpa using fun e : y = x => hx (e ▸ hy),
    List.dropWhile_cons_of_neg (by simp)]
  rfl

theorem round_holds {body : Nat → List Act} {k : Nat} {pre rest : List Nat} {i : Nat} {n : Option Nat}
    (h : Holds s (pre ++ i :: rest)) (hlegal : Legal body 1 k (pre ++ i :: rest) (some i) n) :
    ∃ s' mid tail, (body k).foldlM (turn i) (pre ++ i :: rest) = some (pre ++ mid ++ rest ++ tail) ∧
      Holds s' (pre ++ mid ++ rest ++ tail) ∧ (∀ z ∈ tail, .append z ∈ body k) ∧
      ∀ fuel n, iterate_safe body (fuel + 1) k s (some i) n =
        (iterate_safe body fuel (k + 1) s' n (util_list_next s' n)).map fun r => (i :: r.1, r.2) := by
  have hi := (List.nodup_cons.mp (List.nodup_middle.mp h.nodup)).1
  rw [List.mem_append, not_or] at hi
  obtain ⟨xs', hturn, -⟩ := hlegal
  obtain ⟨s', hs', h'⟩ := acts_hold h hturn
  have hturn' : (body k).foldlM (turn i) (pre ++ [i] ++ rest ++ []) = some xs' := by
    rw [List.append_nil, List.append_assoc]
    exact hturn
  obtain ⟨mid, tail, rfl, htail⟩ := turns_split hi.1 hi.2 (.inl ⟨rfl, List.not_mem_nil⟩) hturn'
  refine ⟨s', mid, tail, hturn, h', fun z hz => (htail z hz).resolve_left List.not_mem_nil, fun fuel n => ?_⟩
  rw [iterate_safe, hs', Option.bind_some]

theorem iterate_visits {body : Nat → List Act} {rounds : Nat} (hrounds : ∀ k, rounds ≤ k →
    ∀ e, .append e ∉ body k) :
    ∀ (k : Nat) (s : State) (pre : List Nat) (i : Nat) (rest : List Nat), Holds s (pre ++ i :: rest) →
      (∀ m, Legal body m k (pre ++ i :: rest) (some i) rest.head?) →
        ∃ zs s' bound, (∀ z ∈ zs, ∃ k, .append z ∈ body k) ∧
          ∀ fuel, bound ≤ fuel → iterate_safe body fuel k s (some i) rest.head? = some (i :: rest ++ zs, s')
  | k, s, pre, i, [], h, hlegal => by
    obtain ⟨s₁, -, -, -, -, -, hround⟩ := round_holds h (hlegal 1)
    refine ⟨[], s₁, 1, fun _ hz => absurd hz List.not_mem_nil, fun fuel hf => ?_⟩
    obtain ⟨f, rfl⟩ : ∃ f, fuel = f + 1 := ⟨fuel - 1, by omega⟩
    rw [List.head?_nil, hround]
    cases f <;> rfl
  | k, s, pre, i, x :: rest, h, hlegal => by
    obtain ⟨s₁, mid, tail, hturn, h₁, htail, hround⟩ := round_holds h (hlegal 1)
    have hsame : pre ++ mid ++ x :: rest ++ tail = (pre ++ mid) ++ x :: (rest ++ tail) := List.append_assoc ..
    rw [hsame] at h₁ hturn
    have hx := (List.nodup_cons.mp (List.nodup_middle.mp h₁.nodup)).1
    rw [List.mem_append, not_or] at hx
    have hlegal' : ∀ m, Legal body m (k + 1) ((pre ++ mid) ++ x :: (rest ++ tail)) (some x) (rest ++ tail).head? :=
      fun m => by
        obtain ⟨xs', hxs', hl⟩ := hlegal (m + 1)
        cases hturn.symm.trans hxs'
        rw [List.head?_cons, Option.bind_some, behind_split hx.1] at hl
        exact hl
    have hends : rounds ≤ k → tail = [] := fun hk => by
      cases tail with
      | nil => rfl
      | cons z tail => exact absurd (htail z List.mem_cons_self) (hrounds k hk z)
    obtain ⟨zs, s', bound, hzs, hvisits⟩ :=
      iterate_visits hrounds (k + 1) s₁ (pre ++ mid) x (rest ++ tail) h₁ hlegal'
    refine ⟨tail ++ zs, s', bound + 1, fun z hz => ?_, fun fuel hf => ?_⟩
    · exact (List.mem_append.mp hz).elim (fun hz => ⟨k, htail z hz⟩) (hzs z)
    · obtain ⟨f, rfl⟩ : ∃ f, fuel = f + 1 := ⟨fuel - 1, by omega⟩
      rw [List.head?_cons, hround, next_eq h₁, hvisits f (by omega)]
      simp
termination_by k _ _ _ rest => (rounds - k, rest.length)
decreasing_by
  by_cases hk : rounds ≤ k
  · rw [hends hk, List.append_nil, Nat.sub_eq_zero_of_le hk, Nat.sub_eq_zero_of_le (Nat.le_succ_of_le hk)]
    exact Prod.Lex.right _ (Nat.lt_succ_self _)
  · exact Prod.Lex.left _ _ (by omega)

/-! ## Runs -/

theorem seq_step_length (hnd : xs.Nodup) : ∀ {op : Op}, seq_step xs op = some ys → ys.length ≤ xs.length + 1
  | .add_tail e, h => by
    rw [seq_step] at h
    split at h
    · cases h
    · cases h
      rw [List.length_append, List.length_singleton]
  | .add_head e, h => by
    rw [seq_step] at h
    split at h
    · cases h
    · cases h
      rw [List.length_cons]
  | .add_next e a, h => by
    rw [seq_step] at h
    split at h
    · cases h
    · next hg =>
      cases h
      rw [not_or, not_not] at hg
      obtain ⟨us, vs, rfl⟩ := List.append_of_mem hg.2
      rw [flatMap_split hnd (fun y hy => if_neg hy), if_pos rfl]
      simp
      omega
  | .add_prev e a, h => by
    rw [seq_step] at h
    split at h
    · cases h
    · next hg =>
      cases h
      rw [not_or, not_not] at hg
      obtain ⟨us, vs, rfl⟩ := List.append_of_mem hg.2
      rw [flatMap_split hnd (fun y hy => if_neg hy), if_pos rfl]
      simp
      omega
  | .remove e, h => by
    rw [seq_step] at h
    split at h
    · cases h
      exact List.length_erase_le.trans (Nat.le_succ _)
    · cases h
  | .sort cmp_fn, h => by
    cases h
    rw [sorted, (BubbleSort.sortBy_perm _ xs).length_eq]
    exact Nat.le_succ _

theorem run_holds : ∀ {ops : List Op} {s : State} {xs ys : List Nat}, Holds s xs →
    Run.exec seq_step xs ops = some ys →
    ∃ s', Holds s' ys ∧ ∀ fuel, xs.length + ops.length ≤ fuel → Run.exec (step fuel) s ops = some s'
  | [], s, _, _, h, hseq => by
    cases hseq
    exact ⟨s, h, fun _ _ => rfl⟩
  | op :: ops, s, xs, ys, h, hseq => by
    obtain ⟨xs₁, h₁, hseq⟩ := Option.bind_eq_some_iff.mp hseq
    obtain ⟨s₁, hs₁, hstep⟩ := step_holds h h₁
    obtain ⟨s', hs', hrun⟩ := run_holds hs₁ hseq
    have hlen := seq_step_length h.nodup h₁
    refine ⟨s', hs', fun fuel hf => ?_⟩
    rw [List.length_cons] at hf
    rw [Run.exec_cons (hstep fuel (by omega)), hrun fuel (by omega)]

theorem init_holds (links : Links Nat) (offset : Nat) : Holds (util_list_init_offset links offset) [] :=
  ⟨List.nodup_nil, rfl, rfl, trivial⟩

theorem Holds.sorts (h : Holds s xs) : Sorts s xs := by
  intro cmp_fn le hc
  obtain ⟨s', hs', hsort⟩ := sort_holds cmp_fn h
  refine ⟨s', sorted cmp_fn xs, hsort, hs'.traversed, BubbleSort.sortBy_perm _ xs, ?_, fun x y hxy hsub => ?_⟩
  · refine BubbleSort.sortBy_sorted _ hc.trans hc.total (fun x y hxy =>
      hc.not_above x y (of_decide_eq_true hxy)) ?_ xs
    exact fun x y hxy => hc.above x y (not_le.mp (of_decide_eq_false hxy))
  · exact BubbleSort.passesBy_keeps (decide_eq_true hxy.le) _ hsub

theorem Holds.iterates (h : Holds s xs) : IteratesSafely s xs := by
  intro body rounds hrounds hlegal
  rw [show util_list_iterate_safe body = fun fuel s => iterate_safe body fuel 0 s (util_list_start s)
    (util_list_next s (util_list_start s)) from rfl]
  simp only [start_eq h]
  cases xs with
  | nil =>
    refine ⟨[], s, 0, fun _ hz => absurd hz List.not_mem_nil, fun fuel _ => ?_⟩
    cases fuel <;> rfl
  | cons x xs =>
    have hb : behind (x :: xs) x = xs.head? := behind_split (show x ∉ ([] : List Nat) from List.not_mem_nil)
    rw [List.head?_cons, Option.bind_some, hb] at hlegal
    have hn : util_list_next s (some x) = xs.head? := next_eq (show Holds s ([] ++ x :: xs) from h)
    rw [List.head?_cons, hn]
    exact iterate_visits hrounds 0 s [] x xs h hlegal

/-- Calls on entries that are there, and with new ones, do to the list what they do to the sequence. -/
theorem list_is_sequence (links : Links Nat) (offset : Nat) {ops : List Op}
    (h : Run.exec seq_step [] ops = some xs) :
    ∃ s, (∀ fuel, ops.length ≤ fuel → Run.exec (step fuel) (util_list_init_offset links offset) ops = some s) ∧
      Traversed s xs ∧ Sorts s xs ∧ IteratesSafely s xs := by
  obtain ⟨s, hs, hrun⟩ := run_holds (init_holds links offset) h
  refine ⟨s, fun fuel hf => hrun fuel (by rwa [List.length_nil, Nat.zero_add]), hs.traversed, hs.sorts, hs.iterates⟩

def sample_ops : List Op :=
  [.add_tail 8, .add_head 24, .add_next 16 24, .add_prev 32 8, .remove 16, .sort fun x y => (x : Int) - y]

theorem list_is_sequence_small : ∃ s, (∀ fuel, 6 ≤ fuel →
    Run.exec (step fuel) (util_list_init_offset ⟨fun _ => none, fun _ => none⟩ 4) sample_ops = some s) ∧
      Traversed s [8, 24, 32] ∧ Sorts s [8, 24, 32] ∧ IteratesSafely s [8, 24, 32] :=
  list_is_sequence ⟨fun _ => none, fun _ => none⟩ 4 (show Run.exec seq_step [] sample_ops =
    some [8, 24, 32] by decide)

end

end UtilList
