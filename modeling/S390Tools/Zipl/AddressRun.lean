import S390Tools.Zipl.Addresses

/-!
# The layout of the components

The sizes of files that are too short are negative and wrap around; the sums that the
placement computes are those of the integers all the same. So the first gap is
found in any case, and the layout is right unless an address of the user wraps around.
-/

namespace Zipl.Job

open Word

/-! ## Alignment -/

theorem ALIGN_dvd (x : Int) (a : Nat) : (a : Int) ∣ ALIGN x a := ⟨_, Int.mul_comm _ _⟩

theorem le_ALIGN (x : Int) {a : Nat} (ha : 0 < a) : x ≤ ALIGN x a ∧ ALIGN x a < x + a := by
  have hpos : (0 : Int) < a := by omega
  have hdiv := Int.ediv_mul_add_emod (x + (a - 1)) a
  have h₀ := Int.emod_nonneg (x + (a - 1)) (Int.ne_of_gt hpos)
  have h₁ := Int.emod_lt_of_pos (x + (a - 1)) hpos
  rw [ALIGN]
  omega

theorem ALIGN_le {x y : Int} {a : Nat} (ha : 0 < a) (hdvd : (a : Int) ∣ y) (hle : x ≤ y) : ALIGN x a ≤ y := by
  obtain ⟨k, rfl⟩ := hdvd
  obtain ⟨m, hm⟩ := ALIGN_dvd x a
  have hlt := (le_ALIGN x ha).2
  rw [hm] at hlt ⊢
  by_contra hgt
  have hkm : k + 1 ≤ m := by
    by_contra hmk
    exact hgt (Int.mul_le_mul_of_nonneg_left (by omega) (by omega))
  have hmul := Int.mul_le_mul_of_nonneg_left hkm (show (0 : Int) ≤ a by omega)
  rw [Int.mul_add, Int.mul_one] at hmul
  omega

/-! ## Sizes -/

namespace ComponentLoc

def extent (c : ComponentLoc) : Int := if c.size < 0xffffffff00000000 then c.size else c.size - 0x10000000000000000

def fin (c : ComponentLoc) : Int := c.addr + c.extent

/-- The sizes and alignments of the components of a job. -/
structure Sized (c : ComponentLoc) : Prop where
  lower : -0x10000 ≤ c.extent
  upper : c.extent < 0x8000000000010000
  size : c.size < 0x10000000000000000
  align : c.align = 0x1000 ∨ c.align = 0x10000

def Specified (c : ComponentLoc) : Prop := c.addr ≠ UNSPECIFIED_ADDRESS

instance (c : ComponentLoc) : Decidable c.Specified := inferInstanceAs (Decidable (_ ≠ _))

/-- An address that `check_component_address_data` lets pass, or one that was chosen. -/
structure Checked (limit : Nat) (c : ComponentLoc) : Prop where
  sized : c.Sized
  specified : c.Specified
  above : MINIMUM_ADDRESS ≤ c.addr
  limit : u64 (c.addr + c.size) ≤ limit

theorem Sized.align_pos {c : ComponentLoc} (h : c.Sized) : 0 < c.align ∧ c.align ≤ 0x10000 := by
  rcases h.align with h | h <;> omega

theorem Sized.addr {c : ComponentLoc} (h : c.Sized) (addr : Nat) : ({ c with addr := addr } : ComponentLoc).Sized :=
  ⟨h.lower, h.upper, h.size, h.align⟩

theorem Sized.sum {c : ComponentLoc} (h : c.Sized) {x : Int} (h₀ : 0x10000 ≤ x) (h₁ : x < 0x7ffffffffffe0000) :
    ((u64 (x + c.size) : Nat) : Int) = x + c.extent := by
  have hl := h.lower
  have hu := h.upper
  have hs := h.size
  unfold extent at *
  unfold u64
  split at hl <;> omega

end ComponentLoc

/-! ## Placement -/

def lowest (before : List ComponentLoc) : Int :=
  match before.getLast? with
  | none => MINIMUM_ADDRESS
  | some c => max c.fin MINIMUM_ADDRESS

/-- The component does not let `a` be the address of one of this size. -/
def InTheWay (q : ComponentLoc) (a size : Int) : Prop := q.addr < a + size ∧ a < q.fin

section
variable {limit : Nat} {c : ComponentLoc}

theorem Checked_sum {q : ComponentLoc} (h : q.Checked limit) (hq : q.addr < 0x100000000) :
    ((u64 (q.addr + q.size) : Nat) : Int) = q.fin ∧ q.fin ≤ limit := by
  have habove := h.above
  have hsum := h.sized.sum (x := q.addr) (by rw [MINIMUM_ADDRESS] at habove; omega) (by omega)
  have hl := h.limit
  rw [ComponentLoc.fin]
  omega

theorem candidate_eq (hlimit : limit ≤ ADDRESS_LIMIT) (hc : c.Sized) {before : List ComponentLoc}
    (hbefore : ∀ q ∈ before.getLast?, q.Checked limit ∧ q.addr < 0x100000000) :
    (u64 (ALIGN (candidate before.getLast?) c.align) : Nat) = ALIGN (lowest before) c.align ∧
      lowest before ≤ ALIGN (lowest before) c.align ∧ (0x10000 : Int) ≤ lowest before ∧
      ALIGN (lowest before) c.align < 0x100000000 := by
  obtain ⟨hpos, hmax⟩ := hc.align_pos
  have hlow : (candidate before.getLast? : Int) = lowest before ∧ lowest before ≤ 0x80000000 := by
    rw [lowest]
    cases hl : before.getLast? with
    | none => exact ⟨rfl, by simp only [MINIMUM_ADDRESS]; omega⟩
    | some q =>
      obtain ⟨hq, haddr⟩ := hbefore q hl
      obtain ⟨hsum, hfin⟩ := Checked_sum hq haddr
      simp only [candidate, MINIMUM_ADDRESS, ADDRESS_LIMIT] at hlimit ⊢
      omega
  have hmin : (0x10000 : Int) ≤ lowest before := by
    rw [lowest]
    cases before.getLast? with
    | none => exact Int.le_refl _
    | some q => exact le_max_right _ _
  obtain ⟨h₁, h₂⟩ := le_ALIGN (lowest before) hpos
  rw [hlow.1, u64_of_lt (by omega) (by omega)]
  refine ⟨by omega, h₁, hmin, by omega⟩

theorem candidate_spec (hlimit : limit ≤ ADDRESS_LIMIT) (hc : c.Sized) {before : List ComponentLoc}
    (hbefore : ∀ q ∈ before.getLast?, q.Checked limit ∧ q.addr < 0x100000000) {addr : Nat}
    (haddr : u64 (ALIGN (candidate before.getLast?) c.align) = addr) :
    ((u64 (addr + c.size) : Nat) : Int) = addr + c.extent ∧
    (∀ a : Int, (c.align : Int) ∣ a → lowest before ≤ a → (addr : Int) ≤ a) ∧
    (∀ q ∈ before.getLast?, q.fin ≤ addr) ∧ c.align ∣ addr ∧
    (u64 (addr + c.size) ≤ limit → ({ c with addr := addr } : ComponentLoc).Checked limit) := by
  obtain ⟨hA, hle, hmin, hmax⟩ := candidate_eq hlimit hc hbefore
  rw [haddr] at hA
  have hsum := hc.sum (x := addr) (by omega) (by omega)
  refine ⟨hsum, fun a hdvd hlow => ?_, fun q hq => ?_, ?_, fun hfits => ⟨hc.addr addr, ?_, ?_, hfits⟩⟩
  · rw [hA]
    exact ALIGN_le hc.align_pos.1 hdvd hlow
  · have hfin : q.fin ≤ lowest before := by
      rw [lowest, hq]
      exact le_max_left _ _
    omega
  · exact Int.natCast_dvd_natCast.mp (hA ▸ ALIGN_dvd _ _)
  · rw [ComponentLoc.Specified, UNSPECIFIED_ADDRESS]
    simp only
    omega
  · rw [MINIMUM_ADDRESS]
    simp only
    omega

theorem place_spec (hlimit : limit ≤ ADDRESS_LIMIT) (hc : c.Sized) : ∀ {after before : List ComponentLoc},
    (∀ q ∈ after, q.Checked limit) → (∀ q ∈ before.getLast?, q.Checked limit ∧ q.addr < 0x100000000) →
    match place limit c before.getLast? before after with
    | none => ∀ a : Int, (c.align : Int) ∣ a → lowest before ≤ a → a + c.extent ≤ limit →
        ∃ q ∈ after, InTheWay q a c.extent
    | some cl => ∃ (ps rs : List ComponentLoc) (addr : Nat), before ++ after = ps ++ rs ∧
        cl = ps ++ { c with addr := addr } :: rs ∧ ({ c with addr := addr } : ComponentLoc).Checked limit ∧
        c.align ∣ addr ∧ (addr : Int) + c.extent ≤ limit ∧ (∀ q ∈ ps.getLast?, q.fin ≤ addr) ∧
        ∀ r ∈ rs.head?, (addr : Int) + c.extent ≤ r.addr := by
  intro after
  induction after with
  | nil =>
    intro before _ hbefore
    obtain ⟨addr, haddr⟩ : ∃ addr, u64 (ALIGN (candidate before.getLast?) c.align) = addr := ⟨_, rfl⟩
    obtain ⟨hsum, hfirst, hlast, hdvd, hchecked⟩ := candidate_spec hlimit hc hbefore haddr
    simp only [place, haddr]
    by_cases hfits : u64 (addr + c.size) > limit
    · rw [if_pos hfits]
      intro a ha hlow hroom
      have := hfirst a ha hlow
      omega
    · rw [if_neg hfits]
      exact ⟨before, [], addr, rfl, rfl, hchecked (Nat.le_of_not_lt hfits), hdvd, by omega, hlast,
        fun r hr => by cases hr⟩
  | cons c' after ih =>
    intro before hafter hbefore
    obtain ⟨addr, haddr⟩ : ∃ addr, u64 (ALIGN (candidate before.getLast?) c.align) = addr := ⟨_, rfl⟩
    obtain ⟨hsum, hfirst, hlast, hdvd, hchecked⟩ := candidate_spec hlimit hc hbefore haddr
    have hc' := hafter c' List.mem_cons_self
    simp only [place, haddr]
    by_cases hfits : u64 (addr + c.size) > limit
    · rw [if_pos hfits]
      intro a ha hlow hroom
      have := hfirst a ha hlow
      omega
    rw [if_neg hfits]
    by_cases hgap : c'.addr ≠ UNSPECIFIED_ADDRESS ∧ u64 (addr + c.size) > c'.addr
    · rw [if_pos hgap]
      -- the gap in front of `c'` is too small, and so any address in front of `c'` is
      have hlt : c'.addr < 0x100000000 := by
        simp only [ADDRESS_LIMIT] at hlimit
        omega
      have ih := @ih (before ++ [c']) (fun q hq => hafter q (List.mem_cons_of_mem c' hq)) (fun q hq => by
        rw [List.getLast?_concat, Option.mem_some_iff] at hq
        exact hq ▸ ⟨hc', hlt⟩)
      rw [List.getLast?_concat] at ih
      cases hplace : place limit c (some c') (before ++ [c']) after with
      | none =>
        rw [hplace] at ih
        intro a ha hlow hroom
        have hbehind := hfirst a ha hlow
        by_cases hfin : c'.fin ≤ a
        · obtain ⟨q, hq, hway⟩ := ih a ha (by
            rw [lowest, List.getLast?_concat]
            refine max_le hfin ?_
            have := (candidate_eq hlimit hc hbefore).2.2.1
            rw [MINIMUM_ADDRESS]
            omega) hroom
          exact ⟨q, List.mem_cons_of_mem c' hq, hway⟩
        · exact ⟨c', List.mem_cons_self, by omega, Int.lt_of_not_ge hfin⟩
      | some cl =>
        rw [hplace] at ih
        obtain ⟨ps, rs, addr, hsplit, hrest⟩ := ih
        exact ⟨ps, rs, addr, by rw [← hsplit, List.append_assoc, List.singleton_append], hrest⟩
    · rw [if_neg hgap]
      have hfree : u64 (addr + c.size) ≤ c'.addr := Nat.le_of_not_lt fun h => hgap ⟨hc'.specified, h⟩
      refine ⟨before, c' :: after, addr, rfl, rfl, hchecked (Nat.le_of_not_lt hfits), hdvd,
        by omega, hlast, fun r hr => ?_⟩
      cases hr
      omega

end

/-! ## All components -/

def Spread (cl : List ComponentLoc) : Prop := cl.Pairwise fun p q => p.fin ≤ q.addr

theorem Spread.insert {ps rs : List ComponentLoc} {c : ComponentLoc} (h : Spread (ps ++ rs))
    (hnonneg : ∀ q ∈ ps ++ rs, 0 ≤ q.extent) (hc : 0 ≤ c.extent) (hlast : ∀ q ∈ ps.getLast?, q.fin ≤ c.addr)
    (hhead : ∀ r ∈ rs.head?, c.fin ≤ r.addr) : Spread (ps ++ c :: rs) := by
  obtain ⟨hps, hrs, hcross⟩ := List.pairwise_append.mp h
  have hbefore : ∀ p ∈ ps, p.fin ≤ c.addr := fun p hp => by
    rcases List.eq_nil_or_concat ps with rfl | ⟨ps', q, rfl⟩
    · cases hp
    · have hq := hlast q (by simp)
      rcases List.mem_append.mp (List.concat_eq_append ▸ hp) with hp | hp
      · have hpq := (List.pairwise_append.mp (List.concat_eq_append ▸ hps)).2.2 p hp q List.mem_cons_self
        have := hnonneg q (by simp)
        rw [ComponentLoc.fin] at hq
        omega
      · rw [List.mem_singleton.mp hp]
        exact hq
  have hafter : ∀ r ∈ rs, c.fin ≤ r.addr := fun r hr => by
    cases rs with
    | nil => cases hr
    | cons q rs =>
      have hq := hhead q rfl
      rcases List.mem_cons.mp hr with rfl | hr
      · exact hq
      · have hqr := (List.pairwise_cons.mp hrs).1 r hr
        have := hnonneg q (by simp)
        rw [ComponentLoc.fin] at hqr
        omega
  refine List.pairwise_append.mpr ⟨hps, List.pairwise_cons.mpr ⟨hafter, hrs⟩, fun p hp q hq => ?_⟩
  rcases List.mem_cons.mp hq with rfl | hq
  · exact hbefore p hp
  · exact hcross p hp q hq

structure Becomes (limit : Nat) (c q : ComponentLoc) : Prop where
  same : q = { c with addr := q.addr }
  given : c.Specified → q.addr = c.addr
  chosen : ¬c.Specified → q.Specified → c.align ∣ q.addr ∧ MINIMUM_ADDRESS ≤ q.addr ∧
    (q.addr : Int) + c.extent ≤ limit

theorem Becomes.refl (limit : Nat) (c : ComponentLoc) : Becomes limit c c :=
    ⟨rfl, fun _ => rfl, fun h h' => absurd h' h⟩

/-- The array after the placement of the components of `cl₀`, of which `placed` had addresses. -/
structure Outcome (limit : Nat) (placed cl₀ : List ComponentLoc) (rc : Except AddressError Unit)
    (cl : List ComponentLoc) :
    Prop where
  names : (cl.map (·.name)).Perm (cl₀.map (·.name))
  origin : ∀ q ∈ cl, ∃ c ∈ cl₀, Becomes limit c q
  checked : rc = .ok () → ∀ q ∈ cl, q.Checked limit
  spread : rc = .ok () → (∀ c ∈ cl₀, 0 ≤ c.extent) → Spread placed → Spread cl
  gap : ∀ e, rc = .error e → ∃ c ∈ cl, e = .could_not_fit c.name ∧ ¬c.Specified ∧
    ∀ a : Int, (c.align : Int) ∣ a → MINIMUM_ADDRESS ≤ a → a + c.extent ≤ limit →
      ∃ q ∈ cl, q.Specified ∧ InTheWay q a c.extent

theorem place_all_given {limit : Nat} {c : ComponentLoc} (h : c.Specified) (placed cl : List ComponentLoc) :
    place_all limit placed (c :: cl) = place_all limit (placed ++ [c]) cl := if_pos h

theorem place_all_chosen {limit : Nat} {c : ComponentLoc} (h : ¬c.Specified) (placed cl : List ComponentLoc) :
    place_all limit placed (c :: cl) =
      match place limit c none [] placed with
      | none => (.error (.could_not_fit c.name), placed ++ c :: cl)
      | some placed => place_all limit placed cl := if_neg h

theorem place_all_spec {limit : Nat} (hlimit : limit ≤ ADDRESS_LIMIT) : ∀ {ys placed : List ComponentLoc},
    (∀ q ∈ placed, q.Checked limit) → (∀ c ∈ ys, c.Sized ∧ ¬c.Specified) →
    Outcome limit placed (placed ++ ys) (place_all limit placed ys).1 (place_all limit placed ys).2
  | [], placed, hplaced, _ => by
    rw [List.append_nil, place_all]
    exact ⟨.refl _, fun q hq => ⟨q, hq, .refl limit q⟩, fun _ => hplaced, fun _ _ h => h, fun e he => by cases he⟩
  | c :: ys, placed, hplaced, hys => by
    obtain ⟨hc, hunspec⟩ := hys c List.mem_cons_self
    have hspec := @place_spec limit c hlimit hc placed [] hplaced (fun q hq => by cases hq)
    rw [place_all_chosen hunspec]
    rw [List.getLast?_nil] at hspec
    cases hplace : place limit c none [] placed with
    | none =>
      rw [hplace] at hspec
      refine ⟨.refl _, fun q hq => ⟨q, hq, .refl limit q⟩, (by intro h; cases h),
        (by intro h; cases h), fun e he => ?_⟩
      cases he
      refine ⟨c, by simp, rfl, hunspec, fun a ha hmin hroom => ?_⟩
      obtain ⟨q, hq, hway⟩ := hspec a ha hmin hroom
      exact ⟨q, List.mem_append_left _ hq, (hplaced q hq).specified, hway⟩
    | some placed' =>
      rw [hplace] at hspec
      obtain ⟨ps, rs, addr, hsplit, rfl, hchecked, hdvd, hroom, hlast, hhead⟩ := hspec
      rw [List.nil_append] at hsplit
      subst hsplit
      have hin : ∀ q ∈ ps ++ { c with addr := addr } :: rs, q ∈ ps ++ rs ∨ q =
        { c with addr := addr } := fun q hq => by
        rcases List.mem_append.mp hq with hq | hq
        · exact .inl (List.mem_append_left _ hq)
        · rcases List.mem_cons.mp hq with rfl | hq
          · exact .inr rfl
          · exact .inl (List.mem_append_right _ hq)
      have ih := @place_all_spec limit hlimit ys (ps ++ { c with addr := addr } :: rs)
        (fun q hq => (hin q hq).elim (hplaced q) (fun h => h ▸ hchecked))
          (fun q hq => hys q (List.mem_cons_of_mem c hq))
      have hbecomes : Becomes limit c { c with addr := addr } :=
        ⟨rfl, fun h => absurd h hunspec, fun _ _ => ⟨hdvd, hchecked.above, hroom⟩⟩
      refine ⟨ih.names.trans ?_, fun q hq => ?_, ih.checked, fun hrc hnonneg hspread => ?_, ih.gap⟩
      · simp only [List.map_append, List.map_cons, List.append_assoc, List.cons_append]
        refine List.Perm.append_left _ ?_
        exact List.perm_middle.symm
      · obtain ⟨y, hy, hyq⟩ := ih.origin q hq
        rcases List.mem_append.mp hy with hy | hy
        · rcases hin y hy with hy | rfl
          · exact ⟨y, List.mem_append_left _ hy, hyq⟩
          · have haddr := hyq.given hchecked.specified
            have hq' : q = { c with addr := addr } := by
              rw [hyq.same, haddr]
            exact ⟨c, by simp, hq' ▸ hbecomes⟩
        · exact ⟨y, List.mem_append_right _ (List.mem_cons_of_mem c hy), hyq⟩
      · refine ih.spread hrc (fun q hq => ?_) (hspread.insert (fun q hq => hnonneg q (List.mem_append_left _ hq))
          (hnonneg c (by simp)) hlast hhead)
        rcases List.mem_append.mp hq with hq | hq
        · rcases hin q hq with hq | rfl
          · exact hnonneg q (List.mem_append_left _ hq)
          · exact hnonneg c (by simp)
        · exact hnonneg q (List.mem_append_right _ (List.mem_cons_of_mem c hq))

theorem place_all_specified {limit : Nat} : ∀ {xs placed ys : List ComponentLoc}, (∀ x ∈ xs, x.Specified) →
    place_all limit placed (xs ++ ys) = place_all limit (placed ++ xs) ys
  | [], placed, ys, _ => by rw [List.append_nil, List.nil_append]
  | x :: xs, placed, ys, h => by
    rw [List.cons_append, place_all_given (h x List.mem_cons_self),
      place_all_specified fun y hy => h y (List.mem_cons_of_mem x hy), List.append_assoc, List.singleton_append]

/-! ## Sorting -/

theorem select_spec : ∀ {cl before after : List ComponentLoc} {min : ComponentLoc},
    (¬min.Specified → ∀ q ∈ before ++ after, ¬q.Specified) →
    ((select before min after cl).1 :: (select before min after cl).2).Perm (before ++ min :: (after ++ cl)) ∧
    (¬(select before min after cl).1.Specified → ∀ q ∈ (select before min after cl).2, ¬q.Specified)
  | [], before, after, min, h => by
    rw [select, List.append_nil]
    exact ⟨List.perm_middle.symm, h⟩
  | c :: cl, before, after, min, h => by
    rw [select]
    by_cases hlower : lower c min = true
    · rw [if_pos hlower]
      have hc : c.Specified := by
        rw [lower, Bool.and_eq_true] at hlower
        exact of_decide_eq_true hlower.1
      obtain ⟨hperm, hrest⟩ := @select_spec cl (before ++ min :: after) [] c fun hnot => absurd hc hnot
      exact ⟨hperm.trans (by simp), hrest⟩
    · rw [if_neg hlower]
      obtain ⟨hperm, hrest⟩ := @select_spec cl before (after ++ [c]) min fun hmin q hq => by
        rw [← List.append_assoc, List.mem_append, List.mem_singleton] at hq
        rcases hq with hq | rfl
        · exact h hmin q hq
        · intro hspec
          refine hlower ?_
          rw [lower, Bool.and_eq_true, Bool.or_eq_true]
          exact ⟨decide_eq_true hspec, .inl (decide_eq_true (not_not.mp hmin))⟩
      exact ⟨hperm.trans (by simp), hrest⟩

theorem sort_elements_spec : ∀ {n : Nat} {cl : List ComponentLoc}, cl.length ≤ n →
    (sort_elements n cl).Perm cl ∧
    ∃ xs ys, sort_elements n cl = xs ++ ys ∧ (∀ x ∈ xs, x.Specified) ∧ ∀ y ∈ ys, ¬y.Specified
  | 0, cl, h => by
    rw [List.length_eq_zero_iff.mp (Nat.le_zero.mp h)]
    exact ⟨.refl _, [], [], rfl, fun _ h => absurd h List.not_mem_nil, fun _ h => absurd h List.not_mem_nil⟩
  | _ + 1, [], _ =>
    ⟨.refl _, [], [], rfl, fun _ h => absurd h List.not_mem_nil, fun _ h => absurd h List.not_mem_nil⟩
  | n + 1, c :: cl, h => by
    obtain ⟨hperm, hlast⟩ := @select_spec cl [] [] c fun _ q hq => absurd hq List.not_mem_nil
    rw [List.nil_append, List.nil_append] at hperm
    rw [sort_elements]
    generalize select [] c [] cl = r at hperm hlast
    obtain ⟨min, rest⟩ := r
    simp only at hperm hlast ⊢
    have hlen : rest.length ≤ n := by
      have := hperm.length_eq
      simp only [List.length_cons] at this h
      omega
    obtain ⟨hsorted, xs, ys, hsplit, hxs, hys⟩ := sort_elements_spec hlen
    refine ⟨(hsorted.cons min).trans hperm, ?_⟩
    by_cases hmin : min.Specified
    · refine ⟨min :: xs, ys, by rw [hsplit, List.cons_append], fun x hx => ?_, hys⟩
      rcases List.mem_cons.mp hx with rfl | hx
      · exact hmin
      · exact hxs x hx
    · refine ⟨[], min :: sort_elements n rest, rfl, fun _ h => absurd h List.not_mem_nil, fun y hy => ?_⟩
      rcases List.mem_cons.mp hy with rfl | hy
      · exact hmin
      · exact hlast hmin y (hsorted.mem_iff.mp hy)

/-! ## Checks -/

section
variable {limit : Nat}

theorem check_limits_error (name : Component) : ∀ cl : List ComponentLoc,
    check_limits limit cl ≠ .error (.could_not_fit name)
  | [] => by
    intro h
    cases h
  | c :: cl => by
    rw [check_limits]
    split
    · exact check_limits_error name cl
    · split
      · intro h
        cases h
      · split
        · intro h
          cases h
        · exact check_limits_error name cl

theorem check_overlap_error (name : Component) : ∀ cl : List ComponentLoc,
    check_overlap cl ≠ .error (.could_not_fit name)
  | [] => by
    intro h
    cases h
  | [_] => by
    intro h
    cases h
  | c :: c' :: cl => by
    rw [check_overlap]
    split
    · exact check_overlap_error name (c' :: cl)
    · split
      · intro h
        cases h
      · exact check_overlap_error name (c' :: cl)

theorem sort_components_error (name : Component) (cl : List ComponentLoc) :
    sort_components (.ok cl) limit ≠ .error (.could_not_fit name) := by
  intro h
  simp only [sort_components, check_component_address_data, bind, Except.bind, pure, Except.pure] at h
  cases hl : check_limits limit (sort_cl_array cl) with
  | error e =>
    rw [hl] at h
    cases h
    exact check_limits_error name _ hl
  | ok u =>
    rw [hl] at h
    simp only at h
    cases ho : check_overlap (sort_cl_array cl) with
    | error e =>
      rw [ho] at h
      cases h
      exact check_overlap_error name _ ho
    | ok u =>
      rw [ho] at h
      cases h

theorem check_limits_ok : ∀ {cl : List ComponentLoc}, check_limits limit cl = .ok () →
    ∀ c ∈ cl, c.Specified → u64 (c.addr + c.size) ≤ limit ∧ MINIMUM_ADDRESS ≤ c.addr
  | [], _, c, hc => absurd hc List.not_mem_nil
  | q :: cl, h, c, hc => by
    rw [check_limits] at h
    intro hspec
    split at h
    · rename_i hunspec
      rcases List.mem_cons.mp hc with rfl | hc
      · exact absurd hunspec hspec
      · exact check_limits_ok h c hc hspec
    · split at h
      · cases h
      · split at h
        · cases h
        · rcases List.mem_cons.mp hc with rfl | hc
          · exact ⟨Nat.le_of_not_lt ‹_›, Nat.le_of_not_lt ‹_›⟩
          · exact check_limits_ok h c hc hspec

theorem check_overlap_ok : ∀ {xs ys : List ComponentLoc}, check_overlap (xs ++ ys) = .ok () →
    (∀ x ∈ xs, x.Specified) → xs.IsChain fun p q => u64 (p.addr + p.size) ≤ q.addr
  | [], _, _, _ => .nil
  | [x], _, _, _ => .singleton x
  | x :: x' :: xs, ys, h, hspec => by
    rw [List.cons_append, List.cons_append, check_overlap,
      if_neg (not_or.mpr ⟨hspec x (by simp), hspec x' (by simp)⟩)] at h
    split at h
    · cases h
    · have htail : check_overlap ((x' :: xs) ++ ys) = .ok () := h
      exact .cons_cons (Nat.le_of_not_lt ‹_›) (check_overlap_ok htail fun y hy =>
        hspec y (List.mem_cons_of_mem x hy))

theorem spread_of_chain : ∀ {xs : List ComponentLoc}, (xs.IsChain fun p q => u64 (p.addr + p.size) ≤ q.addr) →
    (∀ x ∈ xs, 0 ≤ x.extent ∧ ((u64 (x.addr + x.size) : Nat) : Int) = x.fin) → Spread xs
  | [], _, _ => .nil
  | [x], _, _ => List.pairwise_singleton _ x
  | x :: x' :: xs, h, hsound => by
    obtain ⟨hle, hchain⟩ := List.isChain_cons_cons.mp h
    have ih := spread_of_chain hchain fun y hy => hsound y (List.mem_cons_of_mem x hy)
    have hx := (hsound x (by simp)).2
    have hx' := (hsound x' (by simp)).1
    refine List.pairwise_cons.mpr ⟨fun y hy => ?_, ih⟩
    rcases List.mem_cons.mp hy with rfl | hy
    · omega
    · have hy := (List.pairwise_cons.mp ih).1 y hy
      rw [ComponentLoc.fin] at hy
      omega

/-- The sums of the addresses of the user do not reach 2^64. -/
def NoWrap (cl : List ComponentLoc) : Prop :=
  ∀ c ∈ cl, 0 ≤ c.extent ∧ (c.Specified → c.fin < 0x10000000000000000)

theorem NoWrap.sum {cl : List ComponentLoc} (h : NoWrap cl) {c : ComponentLoc} (hc : c ∈ cl) (hspec : c.Specified) :
    ((u64 (c.addr + c.size) : Nat) : Int) = c.fin := by
  obtain ⟨hnonneg, hfin⟩ := h c hc
  have hfin := hfin hspec
  unfold ComponentLoc.fin ComponentLoc.extent at *
  unfold u64
  split at hnonneg <;> omega

theorem finalize_spec (hlimit : limit ≤ ADDRESS_LIMIT) {cl cl' : List ComponentLoc}
    (hsized : ∀ c ∈ cl, c.Sized) (h : sort_components (.ok cl) limit = .ok cl') :
    ∃ placed, Outcome limit placed cl (finalize_component_address_data cl' limit).1
      (finalize_component_address_data cl' limit).2 ∧ (NoWrap cl → Spread placed) ∧
      ∀ c ∈ cl, c.Specified → MINIMUM_ADDRESS ≤ c.addr := by
  obtain ⟨hperm, xs, ys, hsplit, hxs, hys⟩ := sort_elements_spec (Nat.le_refl cl.length)
  rw [← sort_cl_array] at hperm hsplit
  have hcheck : check_limits limit (xs ++ ys) = .ok () ∧ check_overlap (xs ++ ys) = .ok () ∧ cl' = xs ++ ys := by
    simp only [sort_components, check_component_address_data, bind, Except.bind, pure, Except.pure, hsplit] at h
    cases hl : check_limits limit (xs ++ ys) with
    | error e =>
      rw [hl] at h
      cases h
    | ok u =>
      rw [hl] at h
      simp only at h
      cases ho : check_overlap (xs ++ ys) with
      | error e =>
        rw [ho] at h
        cases h
      | ok u =>
        rw [ho] at h
        cases h
        exact ⟨rfl, rfl, rfl⟩
  obtain ⟨hl, ho, rfl⟩ := hcheck
  rw [hsplit] at hperm
  have hmem : ∀ c ∈ xs ++ ys, c ∈ cl := fun c hc => hperm.mem_iff.mp hc
  have hchecked : ∀ x ∈ xs, x.Checked limit := fun x hx => by
    obtain ⟨hsum, habove⟩ := check_limits_ok hl x (List.mem_append_left _ hx) (hxs x hx)
    exact ⟨hsized x (hmem x (List.mem_append_left _ hx)), hxs x hx, habove, hsum⟩
  have hout := @place_all_spec limit hlimit ys xs hchecked fun y hy =>
    ⟨hsized y (hmem y (List.mem_append_right _ hy)), hys y hy⟩
  refine ⟨xs, ?_, fun hwrap => ?_, fun c hc hspec => (check_limits_ok hl c (hperm.mem_iff.mpr hc) hspec).2⟩
  · rw [finalize_component_address_data, place_all_specified hxs, List.nil_append]
    exact {
      names := hout.names.trans (hperm.map _)
      origin := fun q hq => (hout.origin q hq).imp fun c hc => ⟨hmem c hc.1, hc.2⟩
      checked := hout.checked
      spread := fun hrc hnonneg => hout.spread hrc fun c hc => hnonneg c (hmem c hc)
      gap := hout.gap }
  · refine spread_of_chain (check_overlap_ok ho hxs) fun x hx => ?_
    have hx' := hmem x (List.mem_append_left _ hx)
    exact ⟨(hwrap x hx').1, hwrap.sum hx' (hxs x hx)⟩

end

/-! ## Jobs -/

/-- A component that a job asks for: the address of the user and the size that is loaded. -/
structure Part where
  name : Component
  addr : UInt64
  size : Int
  align : Nat

def Part.loc (p : Part) : ComponentLoc := ⟨p.name, p.addr.toNat, u64 p.size, p.align⟩

def image_part (stats : Stat) (a : Addresses) : Part :=
  ⟨.image, a.image_addr, ALIGN ((stats.st_size : Int) - 0x10000) MAXIMUM_PHYSICAL_BLOCKSIZE,
    MAXIMUM_PHYSICAL_BLOCKSIZE⟩

def tape_image_part (stats : Stat) (a : Addresses) : Part :=
  { image_part stats a with size := ALIGN ((image_part stats a).size + 0x100) MAXIMUM_PHYSICAL_BLOCKSIZE }

def parm_part (a : Addresses) : Part :=
  ⟨.parmline, a.parm_addr, ALIGN MAXIMUM_PARMLINE_SIZE MAXIMUM_PHYSICAL_BLOCKSIZE, MAXIMUM_PHYSICAL_BLOCKSIZE⟩

def ramdisk_part (stats : Stat) (a : Addresses) : Part :=
  ⟨.ramdisk, a.ramdisk_addr, ALIGN stats.st_size MAXIMUM_PHYSICAL_BLOCKSIZE, 0x10000⟩

def other_parts (parmline : Bool) (ramdisk : Option (Option Stat)) (a : Addresses) : Option (List Part) :=
  match ramdisk with
  | none => some (if parmline then [parm_part a] else [])
  | some none => none
  | some (some stats) => some ((if parmline then [parm_part a] else []) ++ [ramdisk_part stats a])

inductive AddressJob
  | ipl (ipl : JobIplData)
  | dump (dump : JobDumpData)
  | ipl_tape (ipl_tape : JobIplTapeData)

namespace AddressJob

def parts : AddressJob → Option (List Part)
  | .ipl d => d.image.bind fun stats =>
      (other_parts d.parmline d.ramdisk d.addr).map (image_part stats d.addr :: ·)
  | .dump d => d.image.bind fun stats => (other_parts true d.ramdisk d.addr).map (image_part stats d.addr :: ·)
  | .ipl_tape d => d.image.bind fun stats =>
      (other_parts d.parmline d.ramdisk d.addr).map (tape_image_part stats d.addr :: ·)

def address_limit : AddressJob → Nat
  | .ipl d => if d.is_kdump then ADDRESS_LIMIT_KDUMP else ADDRESS_LIMIT
  | .dump _ => ADDRESS_LIMIT
  | .ipl_tape _ => ADDRESS_LIMIT

def finalize : AddressJob → Except AddressError Unit × Addresses
  | .ipl d => (finalize_ipl_address_data d).map id (·.addr)
  | .dump d => (finalize_dump_address_data d).map id (·.addr)
  | .ipl_tape d => (finalize_ipl_tape_address_data d).map id (·.addr)

def addr : AddressJob → Addresses
  | .ipl d => d.addr
  | .dump d => d.addr
  | .ipl_tape d => d.addr

def written (cl : List ComponentLoc) : AddressJob → Addresses
  | .ipl d => d.addr.store cl
  | .dump d => d.addr.store cl
  | .ipl_tape d => ramdisk_behind_image cl (d.addr.store cl)

end AddressJob

def Addresses.get (a : Addresses) : Component → Nat
  | .image => a.image_addr.toNat
  | .parmline => a.parm_addr.toNat
  | .ramdisk => a.ramdisk_addr.toNat

/-- All components are in the range and apart from each other, at the addresses of the user or aligned ones. -/
structure Laid (limit : Nat) (ps : List Part) (address : Component → Nat) : Prop where
  inside : ∀ p ∈ ps, 0 ≤ p.size ∧ MINIMUM_ADDRESS ≤ address p.name ∧ (address p.name : Int) + p.size ≤ limit
  disjoint : ps.Pairwise fun p q =>
    (address p.name : Int) + p.size ≤ address q.name ∨ (address q.name : Int) + q.size ≤ address p.name
  given : ∀ p ∈ ps, p.addr.toNat ≠ UNSPECIFIED_ADDRESS → address p.name = p.addr.toNat
  chosen : ∀ p ∈ ps, p.addr.toNat = UNSPECIFIED_ADDRESS → p.align ∣ address p.name

/-- Each aligned range for the component meets one that was placed. -/
def NoGap (limit : Nat) (ps : List Part) (address : Component → Nat) (name : Component) : Prop :=
  ∀ p ∈ ps, p.name = name → ∀ a : Int, (p.align : Int) ∣ a → MINIMUM_ADDRESS ≤ a → a + p.size ≤ limit →
    ∃ q ∈ ps, address q.name ≠ UNSPECIFIED_ADDRESS ∧ (address q.name : Int) < a + p.size ∧
      a < address q.name + q.size

/-- The layout of an accepted job is right, and no gap is missed. -/
structure LayoutCorrect (job : AddressJob) (ps : List Part) : Prop where
  laid : job.finalize.1 = .ok () → Laid job.address_limit ps job.finalize.2.get
  complete : ∀ name, job.finalize.1 = .error (.could_not_fit name) →
    NoGap job.address_limit ps job.finalize.2.get name

/-- No file is too short, and no address of the user wraps around. -/
def Sound (ps : List Part) : Prop :=
  ∀ p ∈ ps, 0 ≤ p.size ∧ (p.addr.toNat ≠ UNSPECIFIED_ADDRESS → (p.addr.toNat : Int) + p.size < 2 ^ 64)

section
variable {job : AddressJob} {ps : List Part}

theorem other_components (parmline : Bool) (ramdisk : Option (Option Stat)) (a : Addresses) :
    get_others parmline ramdisk a = match other_parts parmline ramdisk a with
      | none => .error .no_information
      | some ps => .ok (ps.map Part.loc) := by
  rcases ramdisk with _ | _ | stats <;> cases parmline <;> rfl

theorem image_components (stats : Option Stat) (a : Addresses) (parmline : Bool) (ramdisk : Option (Option Stat)) :
    (do return (← set_cl_image stats a.image_addr.toNat) :: (← get_others parmline ramdisk a)) =
      match stats.bind fun stats => (other_parts parmline ramdisk a).map (image_part stats a :: ·) with
      | none => .error AddressError.no_information
      | some ps => .ok (ps.map Part.loc) := by
  rw [other_components]
  cases stats with
  | none => rfl
  | some stats =>
    cases other_parts parmline ramdisk a <;> rfl

theorem tape_components (d : JobIplTapeData) :
    get_ipl_tape_components d = match (AddressJob.ipl_tape d).parts with
      | none => .error AddressError.no_information
      | some ps => .ok (ps.map Part.loc) := by
  have hsize : ∀ x : Int, u64 (ALIGN (u64 ((u64 x : Nat) + 0x100)) MAXIMUM_PHYSICAL_BLOCKSIZE) =
      u64 (ALIGN (x + 0x100) MAXIMUM_PHYSICAL_BLOCKSIZE) := fun x => by
    simp only [ALIGN, MAXIMUM_PHYSICAL_BLOCKSIZE, u64]
    omega
  rw [get_ipl_tape_components, other_components]
  cases himage : d.image with
  | none =>
    simp only [AddressJob.parts, himage]
    rfl
  | some stats =>
    simp only [AddressJob.parts, himage]
    cases other_parts d.parmline d.ramdisk d.addr with
    | none => rfl
    | some ps =>
      simp only [set_cl_image, set_cl_file, bind, Except.bind, pure, Except.pure, Option.bind,
        Option.map, List.map_cons,
        Part.loc, tape_image_part, image_part]
      congr 2
      rw [← hsize]
      congr 3

theorem finalize_eq (job : AddressJob) :
    job.finalize = match job.parts with
      | none => (.error .no_information, job.addr)
      | some ps =>
        match sort_components (.ok (ps.map Part.loc)) job.address_limit with
        | .error e => (.error e, job.addr)
        | .ok cl => ((finalize_component_address_data cl job.address_limit).1,
            job.written (finalize_component_address_data cl job.address_limit).2) := by
  have hcl : ∀ (ps : Option (List Part)) (limit : Nat), sort_components (match ps with
      | none => .error AddressError.no_information
      | some ps => .ok (ps.map Part.loc)) limit =
      match ps with
      | none => .error AddressError.no_information
      | some ps => sort_components (.ok (ps.map Part.loc)) limit := by
    intro ps limit
    cases ps <;> rfl
  cases job with
  | ipl d =>
    rw [AddressJob.finalize, finalize_ipl_address_data, get_ipl_components, image_components, hcl]
    simp only [AddressJob.parts, AddressJob.address_limit]
    cases (d.image.bind fun stats =>
      (other_parts d.parmline d.ramdisk d.addr).map (image_part stats d.addr :: ·)) with
    | none => rfl
    | some ps =>
      simp only
      cases sort_components (.ok (ps.map Part.loc))
        (if d.is_kdump then ADDRESS_LIMIT_KDUMP else ADDRESS_LIMIT) <;> rfl
  | dump d =>
    rw [AddressJob.finalize, finalize_dump_address_data, get_dump_components, image_components, hcl]
    simp only [AddressJob.parts, AddressJob.address_limit]
    cases (d.image.bind fun stats => (other_parts true d.ramdisk d.addr).map (image_part stats d.addr :: ·)) with
    | none => rfl
    | some ps =>
      simp only
      cases sort_components (.ok (ps.map Part.loc)) ADDRESS_LIMIT <;> rfl
  | ipl_tape d =>
    rw [AddressJob.finalize, finalize_ipl_tape_address_data, tape_components, hcl]
    simp only [AddressJob.address_limit]
    cases (AddressJob.ipl_tape d).parts with
    | none => rfl
    | some ps =>
      simp only
      cases sort_components (.ok (ps.map Part.loc)) ADDRESS_LIMIT <;> rfl

theorem Part.sized {p : Part} (hl : -0x10000 ≤ p.size) (hu : p.size < 0x8000000000010000)
    (ha : p.align = 0x1000 ∨ p.align = 0x10000) : p.loc.Sized ∧ p.loc.extent = p.size := by
  have hextent : p.loc.extent = p.size := by
    have hsize : p.loc.size = u64 p.size := rfl
    unfold u64 at hsize
    rw [ComponentLoc.extent]
    by_cases h : p.loc.size < 0xffffffff00000000
    · rw [if_pos h]
      omega
    · rw [if_neg h]
      omega
  exact ⟨⟨hextent ▸ hl, hextent ▸ hu, u64_lt _, ha⟩, hextent⟩

theorem other_parts_fine {parmline : Bool} {ramdisk : Option (Option Stat)} {a : Addresses}
    (h : other_parts parmline ramdisk a = some ps) :
    (Component.image :: ps.map (·.name)).Nodup ∧ ∀ p ∈ ps, p.loc.Sized ∧ p.loc.extent = p.size := by
  have hparm : (parm_part a).loc.Sized ∧ (parm_part a).loc.extent = (parm_part a).size :=
    Part.sized (show (-0x10000 : Int) ≤ ALIGN MAXIMUM_PARMLINE_SIZE MAXIMUM_PHYSICAL_BLOCKSIZE by decide)
      (show ALIGN MAXIMUM_PARMLINE_SIZE MAXIMUM_PHYSICAL_BLOCKSIZE < (0x8000000000010000 : Int)
        by decide) (.inl rfl)
  have hram : ∀ stats, (ramdisk_part stats a).loc.Sized ∧ (ramdisk_part stats a).loc.extent =
    (ramdisk_part stats a).size :=
    fun stats => by
      have := stats.fits
      refine Part.sized ?_ ?_ (.inr rfl) <;>
      · simp only [ramdisk_part, ALIGN, MAXIMUM_PHYSICAL_BLOCKSIZE]
        omega
  rcases ramdisk with _ | _ | stats <;> cases parmline <;> cases h
  · exact ⟨by simp, fun p hp => absurd hp List.not_mem_nil⟩
  · exact ⟨by simp [parm_part], fun p hp => by rw [List.mem_singleton.mp hp]; exact hparm⟩
  · exact ⟨by simp [ramdisk_part], fun p hp => by rw [List.mem_singleton.mp hp]; exact hram stats⟩
  · refine ⟨by simp [parm_part, ramdisk_part], fun p hp => ?_⟩
    rcases List.mem_cons.mp hp with rfl | hp
    · exact hparm
    · rw [List.mem_singleton.mp hp]
      exact hram stats

theorem image_part_sized (stats : Stat) (a : Addresses) :
    ((image_part stats a).loc.Sized ∧ (image_part stats a).loc.extent = (image_part stats a).size) ∧
    ((tape_image_part stats a).loc.Sized ∧ (tape_image_part stats a).loc.extent =
      (tape_image_part stats a).size) := by
  have := stats.fits
  constructor <;> refine Part.sized ?_ ?_ (.inl rfl) <;>
  · simp only [tape_image_part, image_part, ALIGN, MAXIMUM_PHYSICAL_BLOCKSIZE]
    omega

theorem parts_fine (h : job.parts = some ps) :
    (ps.map (·.name)).Nodup ∧ ∀ p ∈ ps, p.loc.Sized ∧ p.loc.extent = p.size := by
  have hcons : ∀ {image : Part} {parmline : Bool} {ramdisk : Option (Option Stat)} {a : Addresses},
      (other_parts parmline ramdisk a).map (image :: ·) = some ps → image.name = .image →
      (image.loc.Sized ∧ image.loc.extent = image.size) →
      (ps.map (·.name)).Nodup ∧ ∀ p ∈ ps, p.loc.Sized ∧ p.loc.extent = p.size := fun hmap hname himage => by
    obtain ⟨ps', hps', rfl⟩ := Option.map_eq_some_iff.mp hmap
    obtain ⟨hnodup, hsized⟩ := other_parts_fine hps'
    rw [List.map_cons, hname]
    refine ⟨hnodup, fun p hp => ?_⟩
    rcases List.mem_cons.mp hp with rfl | hp
    · exact himage
    · exact hsized p hp
  cases job with
  | ipl d =>
    obtain ⟨stats, -, hmap⟩ := Option.bind_eq_some_iff.mp h
    exact hcons hmap rfl (image_part_sized stats d.addr).1
  | dump d =>
    obtain ⟨stats, -, hmap⟩ := Option.bind_eq_some_iff.mp h
    exact hcons hmap rfl (image_part_sized stats d.addr).1
  | ipl_tape d =>
    obtain ⟨stats, -, hmap⟩ := Option.bind_eq_some_iff.mp h
    exact hcons hmap rfl (image_part_sized stats d.addr).2

/-! ## The addresses of a job -/

theorem find_name : ∀ {cl : List ComponentLoc} {q : ComponentLoc}, (cl.map (·.name)).Nodup → q ∈ cl →
    cl.find? (·.name = q.name) = some q
  | [], _, _, h => absurd h List.not_mem_nil
  | c :: cl, q, hnodup, h => by
    rw [List.map_cons, List.nodup_cons] at hnodup
    rcases List.mem_cons.mp h with rfl | h
    · exact List.find?_cons_of_pos (by simp)
    · have hne : c.name ≠ q.name := fun hname => hnodup.1 (hname ▸ List.mem_map_of_mem h)
      rw [List.find?_cons_of_neg (by simpa using hne)]
      exact find_name hnodup.2 h

theorem store_get {cl : List ComponentLoc} {q : ComponentLoc} (hnodup : (cl.map (·.name)).Nodup) (hq : q ∈ cl)
    (haddr : q.addr < 2 ^ 64) (a : Addresses) : (a.store cl).get q.name = q.addr := by
  have haddress : ∀ {name : Component} (old : UInt64), q.name = name → (address cl name old).toNat = q.addr :=
    fun old hname => by
      rw [address, ← hname, find_name hnodup hq]
      exact UInt64.toNat_ofNat_of_lt' haddr
  cases hname : q.name with
  | image => exact haddress _ hname
  | parmline => exact haddress _ hname
  | ramdisk => exact haddress _ hname

theorem ramdisk_behind_image_get (cl : List ComponentLoc) (a : Addresses) {name : Component}
    (h : name = .ramdisk → a.ramdisk_addr ≠ 0) : (ramdisk_behind_image cl a).get name = a.get name := by
  rw [ramdisk_behind_image]
  by_cases hzero : a.ramdisk_addr = 0
  · rw [if_pos hzero]
    have hkeep : ∀ (cl : List ComponentLoc) (a : Addresses), (cl.foldl (fun a c =>
        if c.addr = a.image_addr.toNat then { a with
          ramdisk_addr := UInt64.ofNat (u64 (c.addr + c.size)) } else a) a).image_addr =
          a.image_addr ∧
        (cl.foldl (fun a c =>
        if c.addr = a.image_addr.toNat then { a with
          ramdisk_addr := UInt64.ofNat (u64 (c.addr + c.size)) } else a) a).parm_addr =
          a.parm_addr := by
      intro cl
      induction cl with
      | nil => exact fun a => ⟨rfl, rfl⟩
      | cons c cl ih =>
        intro a
        rw [List.foldl_cons]
        split <;> exact ih _
    cases name with
    | image => exact congrArg UInt64.toNat (hkeep cl a).1
    | parmline => exact congrArg UInt64.toNat (hkeep cl a).2
    | ramdisk => exact absurd hzero (h rfl)
  · rw [if_neg hzero]

theorem written_get {cl : List ComponentLoc} {q : ComponentLoc} (hnodup : (cl.map (·.name)).Nodup) (hq : q ∈ cl)
    (haddr : q.addr < 2 ^ 64) (hpos : 0 < q.addr) (job : AddressJob) : (job.written cl).get q.name = q.addr := by
  cases job with
  | ipl d => exact store_get hnodup hq haddr d.addr
  | dump d => exact store_get hnodup hq haddr d.addr
  | ipl_tape d =>
    have hget := store_get hnodup hq haddr d.addr
    rw [AddressJob.written, ramdisk_behind_image_get, hget]
    intro hname hzero
    rw [hname, Addresses.get, hzero] at hget
    exact absurd hget (Nat.ne_of_lt hpos)

theorem Outcome.entries {limit : Nat} {placed cl : List ComponentLoc} {rc : Except AddressError Unit}
    (hparts : job.parts = some ps) (hout : Outcome limit placed (ps.map Part.loc) rc cl)
      (hlimit : limit ≤ ADDRESS_LIMIT)
    (habove : ∀ p ∈ ps, p.addr.toNat ≠ UNSPECIFIED_ADDRESS → MINIMUM_ADDRESS ≤ p.addr.toNat) :
    (∀ p ∈ ps, ∃ q ∈ cl, q.name = p.name ∧ Becomes limit p.loc q ∧ (job.written cl).get p.name = q.addr) ∧
    ∀ q ∈ cl, ∃ p ∈ ps, q.name = p.name ∧ Becomes limit p.loc q ∧ (job.written cl).get p.name = q.addr := by
  obtain ⟨hnodup, hsized⟩ := parts_fine hparts
  have hnames : (cl.map (·.name)).Perm (ps.map (·.name)) := by
    have hnames := hout.names
    rw [List.map_map] at hnames
    exact hnames
  have hback : ∀ q ∈ cl, ∃ p ∈ ps, q.name = p.name ∧ Becomes limit p.loc q ∧
    (job.written cl).get p.name = q.addr := by
    intro q hq
    obtain ⟨c, hc, hbecomes⟩ := hout.origin q hq
    obtain ⟨p, hp, rfl⟩ := List.mem_map.mp hc
    have hname : q.name = p.name := by
      rw [hbecomes.same]
      rfl
    have hbounds : q.addr < 2 ^ 64 ∧ 0 < q.addr := by
      by_cases hspec : p.loc.Specified
      · have habove := habove p hp hspec
        have hlt := UInt64.toNat_lt p.addr
        rw [hbecomes.given hspec]
        simp only [MINIMUM_ADDRESS] at habove
        exact ⟨hlt, show 0 < p.addr.toNat by omega⟩
      · by_cases hq' : q.Specified
        · obtain ⟨-, hmin, hroom⟩ := hbecomes.chosen hspec hq'
          have hl := (hsized p hp).1.lower
          simp only [MINIMUM_ADDRESS, ADDRESS_LIMIT] at hmin hlimit
          omega
        · rw [not_not.mp hq', UNSPECIFIED_ADDRESS]
          omega
    refine ⟨p, hp, hname, hbecomes, ?_⟩
    rw [← hname]
    exact written_get (hnames.nodup_iff.mpr hnodup) hq hbounds.1 hbounds.2 job
  refine ⟨fun p hp => ?_, hback⟩
  obtain ⟨q, hq, hname⟩ := List.mem_map.mp (hnames.mem_iff.mpr (List.mem_map_of_mem hp))
  obtain ⟨p', hp', hname', hbecomes, haddr⟩ := hback q hq
  have hsame : p' = p := List.inj_on_of_nodup_map hnodup hp' hp (hname'.symm.trans hname)
  subst hsame
  exact ⟨q, hq, hname', hbecomes, haddr⟩

theorem address_limit_le (job : AddressJob) : job.address_limit ≤ ADDRESS_LIMIT := by
  cases job with
  | ipl d =>
    rw [AddressJob.address_limit]
    split <;> decide
  | dump d => exact Nat.le_refl _
  | ipl_tape d => exact Nat.le_refl _

theorem Becomes.extent {limit : Nat} {c q : ComponentLoc} (h : Becomes limit c q) : q.extent =
    c.extent ∧ q.align = c.align := by
  rw [h.same]
  exact ⟨rfl, rfl⟩

theorem Spread.apart {cl : List ComponentLoc} (h : Spread cl) {q q' : ComponentLoc} (hq : q ∈ cl) (hq' : q' ∈ cl)
    (hne : q ≠ q') : q.fin ≤ q'.addr ∨ q'.fin ≤ q.addr := by
  have hsym : cl.Pairwise fun p q => p.fin ≤ q.addr ∨ q.fin ≤ p.addr := h.imp .inl
  have : Std.Symm fun p q : ComponentLoc => p.fin ≤ q.addr ∨ q.fin ≤ p.addr := ⟨fun _ _ => Or.symm⟩
  exact hsym.forall hq hq' hne

theorem Sound.noWrap (hparts : job.parts = some ps) (hsound : Sound ps) : NoWrap (ps.map Part.loc) := by
  intro c hc
  obtain ⟨p, hp, rfl⟩ := List.mem_map.mp hc
  obtain ⟨hnonneg, hsum⟩ := hsound p hp
  rw [ComponentLoc.fin, ((parts_fine hparts).2 p hp).2]
  exact ⟨hnonneg, hsum⟩

theorem Outcome.laid {placed cl : List ComponentLoc} (hparts : job.parts = some ps)
    (hout : Outcome job.address_limit placed (ps.map Part.loc) (.ok ()) cl) (hspread : Spread placed)
    (habove : ∀ p ∈ ps, p.addr.toNat ≠ UNSPECIFIED_ADDRESS → MINIMUM_ADDRESS ≤ p.addr.toNat)
    (hsound : Sound ps) : Laid job.address_limit ps (job.written cl).get := by
  obtain ⟨hnodup, hsized⟩ := parts_fine hparts
  obtain ⟨hentry, -⟩ := hout.entries hparts (address_limit_le job) habove
  have hwrap := hsound.noWrap hparts
  have hapart := hout.spread rfl (fun c hc => (hwrap c hc).1) hspread
  refine ⟨fun p hp => ?_, ?_, fun p hp hspec => ?_, fun p hp hunspec => ?_⟩
  · obtain ⟨q, hq, -, hbecomes, haddr⟩ := hentry p hp
    have hchecked := hout.checked rfl q hq
    refine ⟨(hsound p hp).1, haddr ▸ hchecked.above, ?_⟩
    rw [haddr, ← (hsized p hp).2]
    by_cases hspec : p.loc.Specified
    · have hsum := hwrap.sum (List.mem_map_of_mem hp) hspec
      have hl := hchecked.limit
      rw [hbecomes.same, hbecomes.given hspec] at hl
      rw [hbecomes.given hspec]
      simp only at hl hsum
      rw [ComponentLoc.fin] at hsum
      omega
    · exact (hbecomes.chosen hspec hchecked.specified).2.2
  · refine List.pairwise_iff_forall_sublist.mpr fun {p p'} hsub => ?_
    have hp : p ∈ ps := hsub.subset (by simp)
    have hp' : p' ∈ ps := hsub.subset (by simp)
    have hne : p.name ≠ p'.name := by
      have hmap := hnodup.sublist (hsub.map (·.name))
      simpa using hmap
    obtain ⟨q, hq, hname, hbecomes, haddr⟩ := hentry p hp
    obtain ⟨q', hq', hname', hbecomes', haddr'⟩ := hentry p' hp'
    have h := hapart.apart hq hq' fun h => hne (hname.symm.trans ((congrArg _ h).trans hname'))
    rw [ComponentLoc.fin, ComponentLoc.fin, hbecomes.extent.1, hbecomes'.extent.1, (hsized p hp).2,
      (hsized p' hp').2] at h
    rw [haddr, haddr']
    exact h
  · obtain ⟨q, hq, -, hbecomes, haddr⟩ := hentry p hp
    rw [haddr]
    exact hbecomes.given hspec
  · obtain ⟨q, hq, -, hbecomes, haddr⟩ := hentry p hp
    rw [haddr]
    exact (hbecomes.chosen (fun h => h hunspec) (hout.checked rfl q hq).specified).1

theorem Outcome.no_gap {placed cl : List ComponentLoc} {name : Component} (hparts : job.parts = some ps)
    (hout : Outcome job.address_limit placed (ps.map Part.loc) (.error (.could_not_fit name)) cl)
    (habove : ∀ p ∈ ps, p.addr.toNat ≠ UNSPECIFIED_ADDRESS → MINIMUM_ADDRESS ≤ p.addr.toNat) :
    NoGap job.address_limit ps (job.written cl).get name := by
  obtain ⟨hnodup, hsized⟩ := parts_fine hparts
  obtain ⟨-, hback⟩ := hout.entries hparts (address_limit_le job) habove
  obtain ⟨c, hc, he, hunspec, hgap⟩ := hout.gap _ rfl
  obtain ⟨pc, hpc, hnamec, hbecomesc, -⟩ := hback c hc
  intro p hp hname a hdvd hmin hroom
  have hsame : pc = p := List.inj_on_of_nodup_map hnodup hpc hp (by
    rw [← hnamec, hname]
    cases he
    rfl)
  subst hsame
  have hsize : c.extent = pc.size := by rw [hbecomesc.extent.1, (hsized pc hp).2]
  have halign : c.align = pc.align := hbecomesc.extent.2
  obtain ⟨q, hq, hspec, hway⟩ := hgap a (halign ▸ hdvd) hmin (hsize ▸ hroom)
  obtain ⟨p', hp', -, hbecomes', haddr'⟩ := hback q hq
  refine ⟨p', hp', by rw [haddr']; exact hspec, ?_⟩
  rw [haddr', ← hsize, ← (hsized p' hp').2, ← hbecomes'.extent.1]
  exact hway

theorem layout_correct (hparts : job.parts = some ps) (hsound : job.finalize.1 = .ok () → Sound ps) :
    LayoutCorrect job ps := by
  have hlimit := address_limit_le job
  have hfin := finalize_eq job
  rw [hparts] at hfin
  simp only at hfin
  cases hsort : sort_components (.ok (ps.map Part.loc)) job.address_limit with
  | error e =>
    rw [hsort] at hfin
    refine ⟨fun hrc => ?_, fun name hrc => ?_⟩
    · rw [hfin] at hrc
      cases hrc
    · rw [hfin] at hrc
      cases hrc
      exact absurd hsort (sort_components_error name _)
  | ok cl =>
    rw [hsort] at hfin
    obtain ⟨placed, hout, hspread, habove⟩ := finalize_spec hlimit (fun c hc => by
      obtain ⟨p, hp, rfl⟩ := List.mem_map.mp hc
      exact ((parts_fine hparts).2 p hp).1) hsort
    have habove : ∀ p ∈ ps, p.addr.toNat ≠ UNSPECIFIED_ADDRESS → MINIMUM_ADDRESS ≤ p.addr.toNat :=
      fun p hp => habove p.loc (List.mem_map_of_mem hp)
    simp only at hfin
    generalize finalize_component_address_data cl job.address_limit = r at hfin hout
    obtain ⟨rc, cl'⟩ := r
    refine ⟨fun hrc => ?_, fun name hrc => ?_⟩
    · have hsound := hsound hrc
      rw [hfin] at hrc ⊢
      cases (show rc = .ok () from hrc)
      exact hout.laid hparts (hspread (hsound.noWrap hparts)) habove hsound
    · rw [hfin] at hrc ⊢
      cases (show rc = .error (.could_not_fit name) from hrc)
      exact hout.no_gap hparts habove

theorem sound_of_laid {job : AddressJob} {address : Component → Nat}
    (h : Laid job.address_limit ps address) : Sound ps := by
  intro p hp
  have hlimit := address_limit_le job
  obtain ⟨hnonneg, -, hroom⟩ := h.inside p hp
  refine ⟨hnonneg, fun hspec => ?_⟩
  rw [h.given p hp hspec] at hroom
  simp only [ADDRESS_LIMIT] at hlimit
  omega

/-- The layout is right if no file is too short and no address of the user wraps around. Otherwise it is wrong
for each job that is not refused. -/
theorem layout_correct_iff (hparts : job.parts = some ps) :
    (Sound ps → LayoutCorrect job ps) ∧ (¬Sound ps → (LayoutCorrect job ps ↔ job.finalize.1 ≠ .ok ())) := by
  refine ⟨fun hsound => layout_correct hparts fun _ => hsound, fun hunsound => ⟨fun h hrc => ?_, fun hrc => ?_⟩⟩
  · exact hunsound (sound_of_laid (h.laid hrc))
  · exact layout_correct hparts fun h => absurd h hrc

end

def smallJob (parm_addr : UInt64) : AddressJob :=
  .ipl ⟨some ⟨0x100000, by decide⟩, true, none, ⟨0xffffffffffffffff, parm_addr, 0xffffffffffffffff⟩, false⟩

theorem layout_small_job : LayoutCorrect (smallJob 0x10000)
    [image_part ⟨0x100000, by decide⟩ ⟨0xffffffffffffffff, 0x10000, 0xffffffffffffffff⟩,
      parm_part ⟨0xffffffffffffffff, 0x10000, 0xffffffffffffffff⟩] :=
  (@layout_correct_iff (smallJob 0x10000) _ rfl).1 fun p hp => by
    rcases List.mem_cons.mp hp with rfl | hp
    · decide
    · rw [List.mem_singleton.mp hp]
      decide

theorem parmline_wraps : ¬∀ (job : AddressJob) (ps : List Part), job.parts = some ps → LayoutCorrect job ps := by
  intro h
  have hcorrect := h (smallJob 0xfffffffffffff000) _ rfl
  have hsound := sound_of_laid (hcorrect.laid (by decide))
  have hparm := hsound (parm_part ⟨0xffffffffffffffff, 0xfffffffffffff000, 0xffffffffffffffff⟩) (.tail _ (.head _))
  exact absurd hparm.2 (by decide)

end Zipl.Job
