import S390Tools.Lib.Ranges

/-!
# Tables of extents in fixed slots

A table is a list of slots; an all-zero slot is empty and every other slot holds
one range. `add` fills the first empty slot and then joins the new extent with
neighbours until nothing touches it, `del` cuts a range out of the extent that
holds it and `reorganize` is an exchange sort that moves empty slots to the end.
A `Kind` says how one extent format tests, joins and orders its slots; `Lawful`
says that these tests mean what they should for the ranges of the extents.
-/

namespace SlotTable

open Ranges

inductive Fault
  | overlapping
  | noFree
  | mismatch
  | mismatchBehind
  | notFound
  deriving DecidableEq

structure Kind (ε : Type*) where
  zero : ε
  isEmpty : ε → Bool
  /-- `overlaps new ext` is the test made before a slot is filled. -/
  overlaps : ε → ε → Bool
  /-- `precedes ext tmp`: the slot `ext` ends where `tmp` starts. -/
  precedes : ε → ε → Bool
  succeeds : ε → ε → Bool
  joinPred : ε → ε → ε
  joinSucc : ε → ε → ε
  key : ε → Nat

inductive Cut (ε : Type*)
  | miss
  | whole
  | shrink (ext : ε)
  | split (left right : ε)
  | fault (f : Fault)

section
variable {ε : Type*} (K : Kind ε)

/-! ## Updates -/

/-- Put `new` into the first empty slot; the result names that slot. -/
def place (new : ε) : List ε → Except Fault (List ε × Nat)
  | [] => .error .noFree
  | ext :: slots =>
    if K.overlaps new ext then .error .overlapping
    else if K.isEmpty ext then .ok (new :: slots, 0)
    else
      match place new slots with
      | .error f => .error f
      | .ok (slots', i) => .ok (ext :: slots', i + 1)

def joins (tmp ext : ε) : Bool := !K.isEmpty ext && (K.precedes ext tmp || K.succeeds ext tmp)

def join (ext tmp : ε) : ε := if K.precedes ext tmp then K.joinPred ext tmp else K.joinSucc ext tmp

/-- Join the extent in slot `p` with the first slot that touches it and start over.
Every round empties a slot, so the number of slots is fuel enough. -/
@[grind =] def mergeLoop : Nat → List ε → Nat → List ε
  | 0, slots, _ => slots
  | fuel + 1, slots, p =>
    match slots[p]? with
    | none => slots
    | some tmp =>
      match slots.findIdx? (joins K tmp) with
      | none => slots
      | some i =>
        match slots[i]? with
        | none => slots
        | some ext => mergeLoop fuel ((slots.set i (join K ext tmp)).set p K.zero) i

def add (slots : List ε) (new : ε) : Except Fault (List ε) :=
  match place K new slots with
  | .error f => .error f
  | .ok (slots', p) => .ok (mergeLoop K (slots'.length + 1) slots' p)

def findCut (cut : ε → Cut ε) : List ε → Option (Nat × Cut ε)
  | [] => none
  | ext :: slots =>
    match cut ext with
    | .miss => (findCut cut slots).map fun r => (r.1 + 1, r.2)
    | c => some (0, c)

/-- Remove a range. A slot that falls into two pieces gives a second extent, which some
formats add before they shrink the slot (`addFirst`) and some after. -/
def del (addFirst : Bool) (cut : ε → Cut ε) (slots : List ε) : Except Fault (List ε) :=
  match findCut cut slots with
  | none => .error .notFound
  | some (_, .miss) => .error .notFound
  | some (i, .whole) => .ok (slots.set i K.zero)
  | some (i, .shrink ext) => .ok (slots.set i ext)
  | some (i, .split left right) =>
    if addFirst then
      match add K slots right with
      | .error f => .error f
      | .ok slots' => .ok (slots'.set i left)
    else add K (slots.set i left) right
  | some (_, .fault f) => .error f

/-- `ext` goes in front of `last`; empty slots go behind all others. -/
def before (ext last : ε) : Bool :=
  (decide (0 < K.key ext) && K.key last == 0) || (decide (0 < K.key ext) && decide (K.key ext < K.key last))

/-- One round of the exchange sort: exchange `last` with every slot that goes in front of it. -/
@[grind =] def pass (last : ε) : List ε → ε × List ε
  | [] => (last, [])
  | ext :: slots =>
    if before K ext last then
      let r := pass ext slots
      (r.1, last :: r.2)
    else
      let r := pass last slots
      (r.1, ext :: r.2)

def exchange : Nat → List ε → List ε
  | 0, slots => slots
  | _, [] => []
  | n + 1, last :: slots =>
    let r := pass K last slots
    r.1 :: exchange n r.2

def reorganize (slots : List ε) : List ε := exchange K slots.length slots

end

/-! ## What a table holds -/

/-- The tests and joins of a format mean what they should on the extents with `Ok`. -/
structure Lawful {ε : Type*} (K : Kind ε) (Ok : ε → Prop) (span : ε → Nat × Nat) : Prop where
  zero_empty : K.isEmpty K.zero = true
  ok_nonempty : ∀ e, Ok e → K.isEmpty e = false
  span_lt : ∀ e, Ok e → (span e).1 < (span e).2
  overlaps_zero : ∀ new, Ok new → K.overlaps new K.zero = false
  overlaps_disj : ∀ new ext, Ok new → Ok ext → Disj (span new) (span ext) → K.overlaps new ext = false
  precedes_iff : ∀ ext tmp, Ok ext → Ok tmp → (K.precedes ext tmp = true ↔ (span ext).2 = (span tmp).1)
  succeeds_iff : ∀ ext tmp, Ok ext → Ok tmp → (K.succeeds ext tmp = true ↔ (span tmp).2 = (span ext).1)
  joinPred_ok : ∀ ext tmp, Ok ext → Ok tmp → (span ext).2 = (span tmp).1 →
    Ok (K.joinPred ext tmp) ∧ span (K.joinPred ext tmp) = ((span ext).1, (span tmp).2)
  joinSucc_ok : ∀ ext tmp, Ok ext → Ok tmp → (span tmp).2 = (span ext).1 →
    Ok (K.joinSucc ext tmp) ∧ span (K.joinSucc ext tmp) = ((span tmp).1, (span ext).2)
  key_zero : K.key K.zero = 0
  key_ok : ∀ e, Ok e → K.key e = (span e).1 ∧ 0 < K.key e

section
variable {ε : Type*} (K : Kind ε) (Ok : ε → Prop) (span : ε → Nat × Nat)

/-- Every slot is empty or holds an extent with `Ok`. -/
def Good (slots : List ε) : Prop := ∀ e ∈ slots, e = K.zero ∨ Ok e

def ranges (slots : List ε) : List (Nat × Nat) := (slots.filter fun e => !K.isEmpty e).map span

/-- The slots list the ranges `gs` in this order, followed by empty slots only. -/
def Lists (slots : List ε) (gs : List (Nat × Nat)) : Prop :=
  ∃ es k, slots = es ++ List.replicate k K.zero ∧ (∀ e ∈ es, Ok e) ∧ es.map span = gs

end

section
variable {ε : Type*} {K : Kind ε} {Ok : ε → Prop} {span : ε → Nat × Nat}

theorem Lists.slots_eq (hinj : ∀ e e', Ok e → Ok e' → span e = span e' → e = e') {s₁ s₂ : List ε}
    {gs : List (Nat × Nat)} (h₁ : Lists K Ok span s₁ gs) (h₂ : Lists K Ok span s₂ gs)
    (hlen : s₁.length = s₂.length) : s₁ = s₂ := by
  obtain ⟨es₁, k₁, rfl, hok₁, hgs₁⟩ := h₁
  obtain ⟨es₂, k₂, rfl, hok₂, hgs₂⟩ := h₂
  have hes : es₁ = es₂ := by
    refine List.ext_getElem (by simpa using congrArg List.length (hgs₁.trans hgs₂.symm)) fun i h₁ h₂ => ?_
    refine hinj _ _ (hok₁ _ (List.getElem_mem h₁)) (hok₂ _ (List.getElem_mem h₂)) ?_
    have := congrArg (fun l => l[i]?) (hgs₁.trans hgs₂.symm)
    simpa [h₁, h₂] using this
  subst hes
  have : k₁ = k₂ := by simpa using hlen
  rw [this]

variable (L : Lawful K Ok span)

include L in
theorem ranges_cons_ok {e : ε} (he : Ok e) (slots : List ε) :
    ranges K span (e :: slots) = span e :: ranges K span slots := by
  simp [ranges, L.ok_nonempty e he]

include L in
theorem ranges_cons_zero (slots : List ε) : ranges K span (K.zero :: slots) = ranges K span slots := by
  simp [ranges, L.zero_empty]

theorem ranges_perm {s₁ s₂ : List ε} (h : s₁.Perm s₂) : (ranges K span s₁).Perm (ranges K span s₂) :=
  (h.filter _).map span

include L in
theorem ranges_set_zero {slots : List ε} {i : Nat} (hi : i < slots.length) :
    (ranges K span (slots.set i K.zero)).Perm (ranges K span (slots.eraseIdx i)) := by
  have h : (ranges K span (slots.set i K.zero)).Perm (ranges K span (K.zero :: slots.eraseIdx i)) :=
    ranges_perm (List.set_perm_cons_eraseIdx hi K.zero)
  rwa [ranges_cons_zero L] at h

include L in
theorem ranges_set (slots : List ε) {i : Nat} (hi : i < slots.length) {x : ε} (hx : Ok x) :
    (ranges K span (slots.set i x)).Perm (span x :: ranges K span (slots.set i K.zero)) := by
  have h : (ranges K span (slots.set i x)).Perm (ranges K span (x :: slots.eraseIdx i)) :=
    ranges_perm (List.set_perm_cons_eraseIdx hi x)
  rw [ranges_cons_ok L hx] at h
  exact h.trans ((ranges_set_zero L hi).symm.cons _)

include L in
theorem ranges_split {slots : List ε} {i : Nat} {e : ε} (hi : slots[i]? = some e) (he : Ok e) :
    (ranges K span slots).Perm (span e :: ranges K span (slots.set i K.zero)) := by
  obtain ⟨h, rfl⟩ := List.getElem?_eq_some_iff.mp hi
  have := ranges_set L _ h he
  rwa [List.set_getElem_self h] at this

include L in
theorem mem_ranges {slots : List ε} (hg : Good K Ok slots) {r : Nat × Nat} :
    r ∈ ranges K span slots ↔ ∃ e ∈ slots, Ok e ∧ span e = r := by
  simp only [ranges, List.mem_map, List.mem_filter]
  constructor
  · rintro ⟨e, ⟨he, hne⟩, rfl⟩
    refine ⟨e, he, (hg e he).resolve_left ?_, rfl⟩
    rintro rfl
    simp [L.zero_empty] at hne
  · rintro ⟨e, he, hok, rfl⟩
    exact ⟨e, ⟨he, by simp [L.ok_nonempty e hok]⟩, rfl⟩

theorem Good.set {slots : List ε} (hg : Good K Ok slots) {i : Nat} {x : ε} (hx : x = K.zero ∨ Ok x) :
    Good K Ok (slots.set i x) := by
  intro e he
  rcases List.mem_or_eq_of_mem_set he with he | he
  · exact hg e he
  · exact he ▸ hx

/-! ## The merge loop -/

include L in
theorem joins_iff {tmp ext : ε} (ht : Ok tmp) (he : Ok ext) :
    joins K tmp ext = true ↔ (span ext).2 = (span tmp).1 ∨ (span tmp).2 = (span ext).1 := by
  simp [joins, L.ok_nonempty ext he, L.precedes_iff ext tmp he ht, L.succeeds_iff ext tmp he ht]

include L in
theorem joins_zero (tmp : ε) : joins K tmp K.zero = false := by simp [joins, L.zero_empty]

include L in
theorem joins_self {tmp : ε} (ht : Ok tmp) : joins K tmp tmp = false := by
  have := L.span_lt tmp ht
  rw [Bool.eq_false_iff, ne_eq, joins_iff L ht ht]
  omega

include L in
theorem join_ok {ext tmp : ε} (he : Ok ext) (ht : Ok tmp) (hj : joins K tmp ext = true) :
    Ok (join K ext tmp) ∧
      ((span ext).2 = (span tmp).1 ∧ span (join K ext tmp) = ((span ext).1, (span tmp).2) ∨
       (span tmp).2 = (span ext).1 ∧ span (join K ext tmp) = ((span tmp).1, (span ext).2)) := by
  unfold join
  by_cases hp : (span ext).2 = (span tmp).1
  · rw [if_pos ((L.precedes_iff ext tmp he ht).mpr hp)]
    obtain ⟨h₁, h₂⟩ := L.joinPred_ok ext tmp he ht hp
    exact ⟨h₁, Or.inl ⟨hp, h₂⟩⟩
  · have hs : (span tmp).2 = (span ext).1 := ((joins_iff L ht he).mp hj).resolve_left hp
    rw [if_neg (fun h => hp ((L.precedes_iff ext tmp he ht).mp h))]
    obtain ⟨h₁, h₂⟩ := L.joinSucc_ok ext tmp he ht hs
    exact ⟨h₁, Or.inr ⟨hs, h₂⟩⟩

/-- Slot `p` holds `tmp`, which may touch the other extents but overlaps none of them. -/
structure Merging (K : Kind ε) (Ok : ε → Prop) (span : ε → Nat × Nat) (slots : List ε) (p : Nat) (tmp : ε) :
    Prop where
  at_p : slots[p]? = some tmp
  ok : Ok tmp
  good : Good K Ok slots
  apart : (ranges K span (slots.set p K.zero)).Pairwise Apart
  disj : ∀ r ∈ ranges K span (slots.set p K.zero), Disj r (span tmp)

include L in
theorem Merging.done {slots : List ε} {p : Nat} {tmp : ε} (h : Merging K Ok span slots p tmp)
    (hj : ∀ e ∈ slots, joins K tmp e = false) : (ranges K span slots).Pairwise Apart := by
  refine (ranges_split L h.at_p h.ok).symm.pairwise (List.pairwise_cons.mpr ⟨fun r hr => ?_, h.apart⟩)
    (fun h => h.symm)
  obtain ⟨e, he, hok, rfl⟩ := (mem_ranges L (h.good.set (Or.inl rfl))).mp hr
  have hmem : e ∈ slots := by
    rcases List.mem_or_eq_of_mem_set he with he | he
    · exact he
    · have := L.ok_nonempty e hok
      rw [he, L.zero_empty] at this
      cases this
  have hn := mt (joins_iff L h.ok hok).mpr (by simp [hj e hmem])
  have hd := h.disj _ hr
  simp only [Disj, Apart] at hd hn ⊢
  omega

include L in
theorem Merging.step {slots : List ε} {p i : Nat} {tmp ext : ε} (h : Merging K Ok span slots p tmp)
    (hi : slots[i]? = some ext) (hj : joins K tmp ext = true) :
    Merging K Ok span ((slots.set i (join K ext tmp)).set p K.zero) i (join K ext tmp) ∧
    (ranges K span (slots.set p K.zero)).length =
      (ranges K span (((slots.set i (join K ext tmp)).set p K.zero).set i K.zero)).length + 1 ∧
    ∀ t, Covers (ranges K span ((slots.set i (join K ext tmp)).set p K.zero)) t ↔
      Covers (ranges K span slots) t := by
  have hip : i ≠ p := by
    rintro rfl
    have : tmp = ext := Option.some.inj (h.at_p.symm.trans hi)
    rw [← this, joins_self L h.ok] at hj
    cases hj
  have hok : Ok ext := (h.good ext (List.mem_of_getElem? hi)).resolve_left fun he => by
    rw [he, joins_zero L] at hj; cases hj
  obtain ⟨hjok, hjspan⟩ := join_ok L hok h.ok hj
  have hil : i < slots.length := (List.getElem?_eq_some_iff.mp hi).1
  -- the other extents are those that stay when both slots are cleared
  have hrest : ((slots.set i (join K ext tmp)).set p K.zero).set i K.zero =
      (slots.set p K.zero).set i K.zero := by
    rw [List.set_comm _ _ hip.symm, List.set_set, List.set_comm _ _ hip]
  have hi' : (slots.set p K.zero)[i]? = some ext := by rw [List.getElem?_set_ne hip.symm, hi]
  have hperm := ranges_split L hi' hok
  have hap := (hperm.pairwise_iff (fun h => h.symm)).mp h.apart
  have hset := ranges_set L (slots.set p K.zero) (i := i) (by simpa using hil) hjok
  rw [← List.set_comm _ _ hip] at hset
  have htmp := h.disj _ (hperm.symm.mem_iff.mp (List.mem_cons_self ..))
  have hspan := L.span_lt ext hok
  have hspan' := L.span_lt tmp h.ok
  refine ⟨⟨?_, hjok, (h.good.set (Or.inr hjok)).set (Or.inl rfl), ?_, ?_⟩, ?_, ?_⟩
  · rw [List.getElem?_set_ne hip.symm, List.getElem?_set_self hil]
  · rw [hrest]
    exact (List.pairwise_cons.mp hap).2
  · intro r hr
    rw [hrest] at hr
    have h₁ := (List.pairwise_cons.mp hap).1 r hr
    have h₂ := h.disj r (hperm.symm.mem_iff.mp (List.mem_cons_of_mem _ hr))
    obtain ⟨e, -, hoe, rfl⟩ := (mem_ranges L ((h.good.set (Or.inl rfl)).set (Or.inl rfl))).mp hr
    have := L.span_lt e hoe
    simp only [Disj, Apart] at *
    rcases hjspan with ⟨_, he⟩ | ⟨_, he⟩ <;> rw [he] <;> simp only <;> omega
  · rw [hrest, hperm.length_eq]
    simp
  · intro t
    rw [covers_of_perm hset, covers_of_perm (ranges_split L h.at_p h.ok), covers_cons, covers_cons,
      covers_of_perm hperm, covers_cons]
    have hin : In t (span (join K ext tmp)) ↔ In t (span tmp) ∨ In t (span ext) := by
      simp only [In]
      rcases hjspan with ⟨_, he⟩ | ⟨_, he⟩ <;> rw [he] <;> simp only <;> omega
    rw [hin, or_assoc]

theorem mergeLoop_length (fuel : Nat) (slots : List ε) (p : Nat) :
    (mergeLoop K fuel slots p).length = slots.length := by
  induction fuel generalizing slots p with
  | zero => rfl
  | succ fuel ih =>
    simp only [mergeLoop]
    split
    · rfl
    · split
      · rfl
      · split
        · rfl
        · rw [ih]; simp

include L in
theorem mergeLoop_spec (fuel : Nat) {slots : List ε} {p : Nat} {tmp : ε} (h : Merging K Ok span slots p tmp)
    (hf : (ranges K span (slots.set p K.zero)).length < fuel) :
    Good K Ok (mergeLoop K fuel slots p) ∧ (ranges K span (mergeLoop K fuel slots p)).Pairwise Apart ∧
    ∀ t, Covers (ranges K span (mergeLoop K fuel slots p)) t ↔ Covers (ranges K span slots) t := by
  induction fuel generalizing slots p tmp with
  | zero => exact absurd hf (Nat.not_lt_zero _)
  | succ fuel ih =>
    simp only [mergeLoop, h.at_p]
    cases hfi : slots.findIdx? (joins K tmp) with
    | none =>
      have hj : ∀ e ∈ slots, joins K tmp e = false := by
        simpa [List.findIdx?_eq_none_iff] using hfi
      exact ⟨h.good, h.done L hj, fun t => Iff.rfl⟩
    | some i =>
      obtain ⟨hil, hj, -⟩ := List.findIdx?_eq_some_iff_getElem.mp hfi
      have hi : slots[i]? = some slots[i] := List.getElem?_eq_getElem hil
      simp only [hi]
      obtain ⟨hm, hlen, hcov⟩ := h.step L hi hj
      obtain ⟨h₁, h₂, h₃⟩ := ih hm (by omega)
      exact ⟨h₁, h₂, fun t => (h₃ t).trans (hcov t)⟩

/-! ## Adding -/

theorem place_ok {new : ε} : ∀ {slots : List ε}, (∀ e ∈ slots, K.overlaps new e = false) →
    (∃ e ∈ slots, K.isEmpty e = true) →
    ∃ j e, slots[j]? = some e ∧ K.isEmpty e = true ∧ place K new slots = .ok (slots.set j new, j)
  | [], _, hz => by obtain ⟨e, he, -⟩ := hz; cases he
  | ext :: slots, ho, hz => by
    simp only [place, ho ext (List.mem_cons_self ..), Bool.false_eq_true, if_false]
    by_cases hext : K.isEmpty ext = true
    · exact ⟨0, ext, rfl, hext, by simp [hext]⟩
    · obtain ⟨e, he, hee⟩ := hz
      have hz' : ∃ e ∈ slots, K.isEmpty e = true := by
        rcases List.mem_cons.mp he with rfl | he
        · exact absurd hee hext
        · exact ⟨e, he, hee⟩
      obtain ⟨j, e', h₁, h₂, h₃⟩ := place_ok (fun e he => ho e (List.mem_cons_of_mem _ he)) hz'
      refine ⟨j + 1, e', h₁, h₂, ?_⟩
      simp only [h₃, hext]
      rfl

include L in
theorem exists_empty {slots : List ε} (hg : Good K Ok slots)
    (hlen : (ranges K span slots).length < slots.length) : K.zero ∈ slots := by
  by_contra hz
  have : ∀ e ∈ slots, (!K.isEmpty e) = true := fun e he => by
    rcases hg e he with rfl | hok
    · exact absurd he hz
    · simp [L.ok_nonempty e hok]
  rw [ranges, List.length_map, List.filter_eq_self.mpr this] at hlen
  exact lt_irrefl _ hlen

include L in
theorem getElem_zero {slots : List ε} (hg : Good K Ok slots) {j : Nat} {e : ε} (hj : slots[j]? = some e)
    (he : K.isEmpty e = true) : slots[j]? = some K.zero := by
  rcases hg e (List.mem_of_getElem? hj) with rfl | hok
  · exact hj
  · rw [L.ok_nonempty e hok] at he; cases he

include L in
theorem add_spec {slots : List ε} {new : ε} (hg : Good K Ok slots) (hap : (ranges K span slots).Pairwise Apart)
    (hnew : Ok new) (hd : ∀ r ∈ ranges K span slots, Disj r (span new))
    (hlen : (ranges K span slots).length < slots.length) :
    ∃ slots', add K slots new = .ok slots' ∧ slots'.length = slots.length ∧ Good K Ok slots' ∧
      (ranges K span slots').Pairwise Apart ∧
      ∀ t, Covers (ranges K span slots') t ↔ Covers (ranges K span slots) t ∨ In t (span new) := by
  have ho : ∀ e ∈ slots, K.overlaps new e = false := fun e he => by
    rcases hg e he with rfl | hok
    · exact L.overlaps_zero new hnew
    · exact L.overlaps_disj new e hnew hok (hd _ ((mem_ranges L hg).mpr ⟨e, he, hok, rfl⟩)).symm
  obtain ⟨j, e, hj, he, hp⟩ := place_ok ho ⟨K.zero, exists_empty L hg hlen, L.zero_empty⟩
  have hz := getElem_zero L hg hj he
  obtain ⟨hjl, hjz⟩ := List.getElem?_eq_some_iff.mp hz
  have hback : (slots.set j new).set j K.zero = slots := by
    rw [List.set_set, ← hjz, List.set_getElem_self]
  have hm : Merging K Ok span (slots.set j new) j new :=
    ⟨List.getElem?_set_self hjl, hnew, hg.set (Or.inr hnew), by rwa [hback], by rwa [hback]⟩
  have hf : (ranges K span ((slots.set j new).set j K.zero)).length < (slots.set j new).length + 1 := by
    rw [hback]; simp; omega
  obtain ⟨h₁, h₂, h₃⟩ := mergeLoop_spec L _ hm hf
  refine ⟨mergeLoop K ((slots.set j new).length + 1) (slots.set j new) j, by simp only [add, hp], ?_, h₁, h₂,
    fun t => ?_⟩
  · rw [mergeLoop_length]; simp
  · rw [h₃, covers_of_perm (ranges_split L hm.at_p hnew), hback, covers_cons, or_comm]

include L in
theorem add_isolated {slots : List ε} {new : ε} (hg : Good K Ok slots) (hnew : Ok new)
    (ho : ∀ e ∈ slots, K.overlaps new e = false)
    (ht : ∀ e ∈ slots, Ok e → (span e).2 ≠ (span new).1 ∧ (span new).2 ≠ (span e).1)
    (hz : K.zero ∈ slots) :
    ∃ j, slots[j]? = some K.zero ∧ add K slots new = .ok (slots.set j new) := by
  obtain ⟨j, e, hj, he, hp⟩ := place_ok ho ⟨K.zero, hz, L.zero_empty⟩
  have hz := getElem_zero L hg hj he
  have hjl := (List.getElem?_eq_some_iff.mp hz).1
  refine ⟨j, hz, ?_⟩
  have hnone : (slots.set j new).findIdx? (joins K new) = none := by
    simp only [List.findIdx?_eq_none_iff]
    intro e he
    rcases List.mem_or_eq_of_mem_set he with he | rfl
    · rcases hg e he with rfl | hok
      · exact joins_zero L new
      · rw [Bool.eq_false_iff, ne_eq, joins_iff L hnew hok]
        have := ht e he hok
        tauto
    · exact joins_self L hnew
  simp only [add, hp, mergeLoop, List.getElem?_set_self hjl, hnone]

/-! ## Removing -/

/-- What stays of the extent `e` when `r` is taken out of it. -/
inductive Pieces (Ok : ε → Prop) (span : ε → Nat × Nat) (r : Nat × Nat) (e : ε) : Cut ε → Prop
  | whole : span e = r → Pieces Ok span r e .whole
  | behind (e' : ε) : Ok e' → (span e).1 = r.1 → span e' = (r.2, (span e).2) → Pieces Ok span r e (.shrink e')
  | front (e' : ε) : Ok e' → r.2 = (span e).2 → span e' = ((span e).1, r.1) → Pieces Ok span r e (.shrink e')
  | split (left right : ε) : Ok left → Ok right → span left = ((span e).1, r.1) →
      span right = (r.2, (span e).2) → Pieces Ok span r e (.split left right)

/-- `cut` finds the extent that holds `r` and says what stays of it. -/
structure Cuts (K : Kind ε) (Ok : ε → Prop) (span : ε → Nat × Nat) (cut : ε → Cut ε) (r : Nat × Nat) : Prop where
  zero : cut K.zero = .miss
  miss : ∀ e, Ok e → Disj (span e) r → cut e = .miss
  hit : ∀ e, Ok e → (span e).1 ≤ r.1 → r.2 ≤ (span e).2 → Pieces Ok span r e (cut e)

theorem findCut_eq {cut : ε → Cut ε} {e : ε} (he : cut e ≠ .miss) : ∀ {slots : List ε}, e ∈ slots →
    (∀ x ∈ slots, x = e ∨ cut x = .miss) → ∃ i, slots[i]? = some e ∧ findCut cut slots = some (i, cut e)
  | x :: slots, hmem, hx => by
    by_cases hm : cut x = .miss
    · have hes : e ∈ slots := by
        rcases List.mem_cons.mp hmem with rfl | h
        · exact absurd hm he
        · exact h
      obtain ⟨i, h₁, h₂⟩ := findCut_eq he hes fun y hy => hx y (List.mem_cons_of_mem _ hy)
      exact ⟨i + 1, h₁, by simp [findCut, hm, h₂]⟩
    · obtain rfl := (hx x (List.mem_cons_self ..)).resolve_right hm
      refine ⟨0, rfl, ?_⟩
      unfold findCut
      split
      · rename_i h; exact absurd h hm
      · rfl

theorem replace_pieces {rs rs' rest : List (Nat × Nat)} (pieces : List (Nat × Nat))
    {g r : Nat × Nat} (h : rs.Perm (g :: rest))
    (h' : rs'.Perm (pieces ++ rest)) (hap : rs.Pairwise Apart) (hp : pieces.Pairwise Apart)
    (hsub : ∀ p ∈ pieces, p.1 < p.2 ∧ g.1 ≤ p.1 ∧ p.2 ≤ g.2) (hr : g.1 ≤ r.1 ∧ r.2 ≤ g.2)
    (hcov : ∀ t, Covers pieces t ↔ In t g ∧ ¬ In t r) :
    rs'.Pairwise Apart ∧ ∀ t, Covers rs' t ↔ Covers rs t ∧ ¬ In t r := by
  have hc := List.pairwise_cons.mp ((h.pairwise_iff (fun h => h.symm)).mp hap)
  constructor
  · refine (h'.pairwise_iff (fun h => h.symm)).mpr (List.pairwise_append.mpr ⟨hp, hc.2, fun p hp s hs => ?_⟩)
    have h₁ := hsub p hp
    have h₂ := hc.1 s hs
    simp only [Apart] at *
    omega
  · intro t
    rw [covers_of_perm h', covers_of_perm h, covers_append, covers_cons, hcov]
    have hrest : Covers rest t → ¬ In t r := by
      rintro ⟨s, hs, ht⟩ htr
      have := hc.1 s hs
      simp only [Apart, In] at *
      omega
    tauto

section
variable {cut : ε → Cut ε} {r : Nat × Nat}

include L in
theorem split_eq {slots : List ε} {i : Nat} {e left right : ε} (hg : Good K Ok slots) (hi : slots[i]? = some e)
    (he : Ok e) (hap : (ranges K span slots).Pairwise Apart) (hz : K.zero ∈ slots) (hl : Ok left)
    (hr : Ok right) (hlspan : span left = ((span e).1, r.1)) (hrspan : span right = (r.2, (span e).2))
    (hlt : r.1 < r.2) (addFirst : Bool) (hfirst : addFirst = true → K.overlaps right e = false) :
    ∃ j, slots[j]? = some K.zero ∧ j ≠ i ∧
      (if addFirst then
        match add K slots right with
        | .error f => .error f
        | .ok slots' => Except.ok (slots'.set i left)
      else add K (slots.set i left) right) = .ok ((slots.set i left).set j right) := by
  have hperm := ranges_split L hi he
  have hc := List.pairwise_cons.mp ((hperm.pairwise_iff (fun h => h.symm)).mp hap)
  have hi' := List.getElem?_eq_some_iff.mp hi
  have hspan := L.span_lt e he
  have hls := L.span_lt left hl
  have hrs := L.span_lt right hr
  rw [hlspan] at hls
  rw [hrspan] at hrs
  -- an extent other than `e` sits in the table without `e`
  have hother : ∀ x ∈ slots, Ok x → x = e ∨ Apart (span e) (span x) := by
    intro x hx hok
    by_cases hxe : x = e
    · exact Or.inl hxe
    refine Or.inr (hc.1 _ ((mem_ranges L (hg.set (Or.inl rfl))).mpr ⟨x, ?_, hok, rfl⟩))
    obtain ⟨k, hk⟩ := List.mem_iff_getElem?.mp hx
    refine List.mem_of_getElem? (i := k) ?_
    rw [List.getElem?_set_ne, hk]
    rintro rfl
    exact hxe (Option.some.inj (hk.symm.trans hi))
  have hez : e ≠ K.zero := by
    rintro rfl
    have := L.ok_nonempty _ he
    rw [L.zero_empty] at this; cases this
  have hlz : left ≠ K.zero := by
    rintro rfl
    have := L.ok_nonempty _ hl
    rw [L.zero_empty] at this; cases this
  cases addFirst with
  | true =>
    obtain ⟨j, hj, hadd⟩ := add_isolated L hg hr
      (fun x hx => by
        rcases hg x hx with rfl | hok
        · exact L.overlaps_zero right hr
        · rcases hother x hx hok with rfl | hx'
          · exact hfirst rfl
          · refine L.overlaps_disj right x hr hok ?_
            simp only [Apart, Disj, hrspan] at *
            omega)
      (fun x hx hok => by
        have := L.span_lt x hok
        rcases hother x hx hok with rfl | hx'
        · rw [hrspan]; simp only; omega
        · simp only [Apart, hrspan] at *; omega) hz
    have hij : j ≠ i := by rintro rfl; exact hez (Option.some.inj (hi.symm.trans hj))
    refine ⟨j, hj, hij, ?_⟩
    simp only [hadd, if_true]
    rw [List.set_comm _ _ hij]
  | false =>
    have hz' : K.zero ∈ slots.set i left := by
      obtain ⟨k, hk⟩ := List.mem_iff_getElem?.mp hz
      refine List.mem_of_getElem? (i := k) ?_
      rw [List.getElem?_set_ne, hk]
      rintro rfl
      exact hez (Option.some.inj (hi.symm.trans hk))
    have hmem : ∀ x ∈ slots.set i left, Ok x → x = left ∨ Apart (span e) (span x) := by
      intro x hx hok
      obtain ⟨k, hk⟩ := List.mem_iff_getElem?.mp hx
      by_cases hki : i = k
      · subst hki
        rw [List.getElem?_set_self hi'.1] at hk
        exact Or.inl (Option.some.inj hk).symm
      · refine Or.inr (hc.1 _ ((mem_ranges L (hg.set (Or.inl rfl))).mpr ⟨x, ?_, hok, rfl⟩))
        refine List.mem_of_getElem? (i := k) ?_
        rw [List.getElem?_set_ne hki]
        rwa [List.getElem?_set_ne hki] at hk
    obtain ⟨j, hj, hadd⟩ := add_isolated L (hg.set (Or.inr hl)) hr
      (fun x hx => by
        rcases hg.set (Or.inr hl) x hx with rfl | hok
        · exact L.overlaps_zero right hr
        · refine L.overlaps_disj right x hr hok ?_
          rcases hmem x hx hok with rfl | hx'
          · simp only [Disj, hlspan, hrspan]; omega
          · simp only [Apart, Disj, hrspan] at *; omega)
      (fun x hx hok => by
        have := L.span_lt x hok
        rcases hmem x hx hok with rfl | hx'
        · rw [hrspan, hlspan]; simp only; omega
        · simp only [Apart, hrspan] at *; omega) hz'
    have hij : j ≠ i := by
      rintro rfl
      rw [List.getElem?_set_self hi'.1] at hj
      exact hlz (Option.some.inj hj)
    refine ⟨j, by rwa [List.getElem?_set_ne hij.symm] at hj, hij, ?_⟩
    simp only [hadd, Bool.false_eq_true, if_false]

include L in
theorem del_spec {slots : List ε} (hg : Good K Ok slots) (hap : (ranges K span slots).Pairwise Apart)
    (hlt : r.1 < r.2) (hcut : Cuts K Ok span cut r) {g : Nat × Nat} (hmem : g ∈ ranges K span slots)
    (h₁ : g.1 ≤ r.1) (h₂ : r.2 ≤ g.2) (hlen : (ranges K span slots).length < slots.length) (addFirst : Bool)
    (hfirst : addFirst = true → ∀ new ext, Ok new → Ok ext → (span new).2 = (span ext).2 →
      (span ext).1 < (span new).1 → K.overlaps new ext = false) :
    ∃ slots', del K addFirst cut slots = .ok slots' ∧ slots'.length = slots.length ∧ Good K Ok slots' ∧
      (ranges K span slots').Pairwise Apart ∧
      ∀ t, Covers (ranges K span slots') t ↔ Covers (ranges K span slots) t ∧ ¬ In t r := by
  obtain ⟨e, hes, he, rfl⟩ := (mem_ranges L hg).mp hmem
  have hhit := hcut.hit e he h₁ h₂
  have hne : cut e ≠ .miss := by intro h; rw [h] at hhit; cases hhit
  obtain ⟨i, hi, hfind⟩ := findCut_eq hne hes fun x hx => by
    rcases hg x hx with rfl | hok
    · exact Or.inr hcut.zero
    · by_cases hxe : x = e
      · exact Or.inl hxe
      · refine Or.inr (hcut.miss x hok ?_)
        obtain ⟨k, hk⟩ := List.mem_iff_getElem?.mp hes
        have hc := List.pairwise_cons.mp (((ranges_split L hk he).pairwise_iff (fun h => h.symm)).mp hap)
        obtain ⟨k', hk'⟩ := List.mem_iff_getElem?.mp hx
        have hkk : k ≠ k' := by rintro rfl; exact hxe (Option.some.inj (hk'.symm.trans hk))
        have := hc.1 _ ((mem_ranges L (hg.set (Or.inl rfl))).mpr
          ⟨x, List.mem_of_getElem? (i := k') (by rw [List.getElem?_set_ne hkk, hk']), hok, rfl⟩)
        simp only [Apart, Disj] at *
        omega
  have hil := (List.getElem?_eq_some_iff.mp hi).1
  have hperm := ranges_split L hi he
  have hspan := L.span_lt e he
  simp only [del, hfind]
  generalize cut e = c at hhit
  cases hhit with
  | whole hw =>
    refine ⟨_, rfl, by simp, hg.set (Or.inl rfl), ?_⟩
    refine replace_pieces [] hperm (List.Perm.refl _) hap List.Pairwise.nil (by simp) ⟨h₁, h₂⟩ ?_
    intro t
    simp [hw]
  | behind e' hok hb hs =>
    have hlt' := L.span_lt e' hok
    rw [hs] at hlt'
    refine ⟨_, rfl, by simp, hg.set (Or.inr hok), ?_⟩
    refine replace_pieces [span e'] hperm (ranges_set L _ hil hok) hap (List.pairwise_singleton ..)
      (by simp [hs]; omega) ⟨h₁, h₂⟩ fun t => ?_
    simp only [hs, covers_cons, covers_nil, In, or_false]
    omega
  | front e' hok hb hs =>
    have hlt' := L.span_lt e' hok
    rw [hs] at hlt'
    refine ⟨_, rfl, by simp, hg.set (Or.inr hok), ?_⟩
    refine replace_pieces [span e'] hperm (ranges_set L _ hil hok) hap (List.pairwise_singleton ..)
      (by simp [hs]; omega) ⟨h₁, h₂⟩ fun t => ?_
    simp only [hs, covers_cons, covers_nil, In, or_false]
    omega
  | split left right hl hr hls hrs =>
    have hl' := L.span_lt left hl
    have hr' := L.span_lt right hr
    rw [hls] at hl'
    rw [hrs] at hr'
    obtain ⟨j, hj, hji, heq⟩ := split_eq L hg hi he hap (exists_empty L hg hlen) hl hr hls hrs hlt addFirst
      fun hf => hfirst hf right e hr he (by rw [hrs]) (by rw [hrs]; simp only; omega)
    refine ⟨_, heq, by simp, (hg.set (Or.inr hl)).set (Or.inr hr), ?_⟩
    obtain ⟨hjl, hjz⟩ := List.getElem?_eq_some_iff.mp hj
    have hp' : (ranges K span ((slots.set i left).set j right)).Perm
        ([span right, span left] ++ ranges K span (slots.set i K.zero)) := by
      have h := ranges_set L (slots.set i left) (i := j) (by simpa using hjl) hr
      have hback : (slots.set i left).set j K.zero = slots.set i left := by
        refine List.ext_getElem? fun k => ?_
        by_cases hk : j = k
        · subst hk
          rw [List.getElem?_set_self (by simpa using hjl), List.getElem?_set_ne hji.symm, hj]
        · rw [List.getElem?_set_ne hk]
      rw [hback] at h
      exact h.trans ((ranges_set L _ hil hl).cons _)
    refine replace_pieces _ hperm hp' hap ?_ ?_ ⟨h₁, h₂⟩ fun t => ?_
    · simp [Apart, hls, hrs]; omega
    · simp [hls, hrs]; omega
    · simp only [hls, hrs, covers_cons, covers_nil, In, or_false]
      omega

end

/-! ## The exchange sort -/

section

def rank (K : Kind ε) (e : ε) : WithTop Nat := if K.key e = 0 then ⊤ else (K.key e : WithTop Nat)

theorem before_iff (ext last : ε) : before K ext last = true ↔ rank K ext < rank K last := by
  simp only [before, rank, Bool.or_eq_true, Bool.and_eq_true, decide_eq_true_eq, beq_iff_eq]
  by_cases h₁ : K.key ext = 0 <;> by_cases h₂ : K.key last = 0 <;> simp [h₁, h₂, Nat.pos_iff_ne_zero]

theorem pass_perm (last : ε) (slots : List ε) :
    ((pass K last slots).1 :: (pass K last slots).2).Perm (last :: slots) := by
  induction slots generalizing last with
  | nil => exact List.Perm.refl _
  | cons ext slots ih =>
    simp only [pass]
    split
    · refine (List.Perm.swap _ _ _).trans ?_
      exact (ih ext).cons last
    · refine (List.Perm.swap _ _ _).trans ?_
      exact ((ih last).cons ext).trans (List.Perm.swap _ _ _)

theorem pass_le (last : ε) (slots : List ε) :
    rank K (pass K last slots).1 ≤ rank K last ∧
      ∀ e ∈ (pass K last slots).2, rank K (pass K last slots).1 ≤ rank K e := by
  induction slots generalizing last with
  | nil => exact ⟨le_refl _, by simp [pass]⟩
  | cons ext slots ih =>
    simp only [pass]
    split
    · rename_i h
      have hlt := (before_iff ext last).mp h
      obtain ⟨h₁, h₂⟩ := ih ext
      exact ⟨h₁.trans hlt.le, List.forall_mem_cons.mpr ⟨h₁.trans hlt.le, h₂⟩⟩
    · rename_i h
      have hge := not_lt.mp (mt (before_iff ext last).mpr h)
      obtain ⟨h₁, h₂⟩ := ih last
      exact ⟨h₁, List.forall_mem_cons.mpr ⟨h₁.trans hge, h₂⟩⟩

theorem pass_length (last : ε) (slots : List ε) : (pass K last slots).2.length = slots.length := by
  simpa using (pass_perm (K := K) last slots).length_eq

theorem exchange_perm (n : Nat) (slots : List ε) : (exchange K n slots).Perm slots := by
  induction n generalizing slots with
  | zero => exact List.Perm.refl _
  | succ n ih =>
    cases slots with
    | nil => exact List.Perm.refl _
    | cons last slots => exact ((ih _).cons _).trans (pass_perm last slots)

theorem exchange_sorted (n : Nat) (slots : List ε) (hn : slots.length ≤ n) :
    (exchange K n slots).Pairwise fun a b => rank K a ≤ rank K b := by
  induction n generalizing slots with
  | zero => rw [List.length_eq_zero_iff.mp (Nat.le_zero.mp hn)]; exact List.Pairwise.nil
  | succ n ih =>
    cases slots with
    | nil => exact List.Pairwise.nil
    | cons last slots =>
      have hlen := pass_length (K := K) last slots
      refine List.pairwise_cons.mpr ⟨fun e he => ?_, ih _ (by simp at hn; omega)⟩
      exact (pass_le last slots).2 e ((exchange_perm n _).mem_iff.mp he)

theorem reorganize_perm (slots : List ε) : (reorganize K slots).Perm slots := exchange_perm _ slots

theorem reorganize_length (slots : List ε) : (reorganize K slots).length = slots.length :=
  (reorganize_perm slots).length_eq

end

include L in
theorem sorted_lists : ∀ {slots : List ε}, Good K Ok slots → (slots.Pairwise fun a b => rank K a ≤ rank K b) →
    Lists K Ok span slots (ranges K span slots)
  | [], _, _ => ⟨[], 0, rfl, by simp, rfl⟩
  | e :: slots, hg, hs => by
    have hg' : Good K Ok slots := fun x hx => hg x (List.mem_cons_of_mem _ hx)
    rcases hg e (List.mem_cons_self ..) with rfl | hok
    · -- everything behind an empty slot is empty
      have hall : ∀ x ∈ slots, x = K.zero := by
        intro x hx
        refine (hg' x hx).resolve_right fun hxok => ?_
        have := (List.pairwise_cons.mp hs).1 x hx
        have hk := (L.key_ok x hxok).2
        simp [rank, L.key_zero, Nat.pos_iff_ne_zero.mp hk] at this
      refine ⟨[], slots.length + 1, ?_, by simp, ?_⟩
      · rw [List.nil_append, List.replicate_succ, ← List.eq_replicate_of_mem hall]
      · rw [List.eq_replicate_of_mem hall]
        simp [ranges, L.zero_empty]
    · obtain ⟨es, k, hes, hok', hmap⟩ := sorted_lists hg' (List.pairwise_cons.mp hs).2
      exact ⟨e :: es, k, by rw [hes]; rfl, List.forall_mem_cons.mpr ⟨hok, hok'⟩,
        by rw [ranges_cons_ok L hok, ← hmap]; rfl⟩

theorem Lists.good {slots : List ε} {gs : List (Nat × Nat)} (h : Lists K Ok span slots gs) : Good K Ok slots := by
  obtain ⟨es, k, rfl, hok, -⟩ := h
  intro e he
  rcases List.mem_append.mp he with he | he
  · exact Or.inr (hok e he)
  · exact Or.inl (List.eq_of_mem_replicate he)

include L in
theorem Lists.ranges_eq {slots : List ε} {gs : List (Nat × Nat)} (h : Lists K Ok span slots gs) :
    ranges K span slots = gs := by
  obtain ⟨es, k, rfl, hok, rfl⟩ := h
  have h₁ : es.filter (fun e => !K.isEmpty e) = es :=
    List.filter_eq_self.mpr fun e he => by simp [L.ok_nonempty e (hok e he)]
  have h₂ : (List.replicate k K.zero).filter (fun e => !K.isEmpty e) = [] := by
    simp [L.zero_empty]
  rw [ranges, List.filter_append, h₁, h₂, List.append_nil]

theorem lists_replicate (k : Nat) : Lists K Ok span (List.replicate k K.zero) [] := ⟨[], k, rfl, by simp, rfl⟩

include L in
theorem reorganize_lists {slots : List ε} (hg : Good K Ok slots) (hap : (ranges K span slots).Pairwise Apart) :
    ∃ gs, Canonical gs ∧ Lists K Ok span (reorganize K slots) gs ∧ gs.Perm (ranges K span slots) := by
  have hp := reorganize_perm (K := K) slots
  have hg' : Good K Ok (reorganize K slots) := fun e he => hg e (hp.mem_iff.mp he)
  have hs := exchange_sorted (K := K) slots.length slots (le_refl _)
  have hap' := (((ranges_perm hp).pairwise_iff (R := Apart) (fun h => h.symm)).mpr hap)
  refine ⟨ranges K span (reorganize K slots), ⟨fun r hr => ?_, ?_⟩, sorted_lists L hg' hs, ranges_perm hp⟩
  · obtain ⟨e, -, hok, rfl⟩ := (mem_ranges L hg').mp hr
    exact L.span_lt e hok
  · obtain ⟨es, k, hes, hok, hmap⟩ := sorted_lists L hg' hs
    rw [← hmap] at hap' ⊢
    rw [List.pairwise_map] at hap' ⊢
    have hs' : es.Pairwise fun a b => rank K a ≤ rank K b := by
      have : reorganize K slots = es ++ List.replicate k K.zero := hes
      rw [reorganize] at this
      rw [this] at hs
      exact (List.pairwise_append.mp hs).1
    refine (hap'.and hs').imp_of_mem fun {a b} ha hb h => ?_
    have ha' := L.key_ok a (hok a ha)
    have hb' := L.key_ok b (hok b hb)
    have hle : (span a).1 ≤ (span b).1 := by
      have := h.2
      rw [rank, rank, if_neg (by omega), if_neg (by omega), ha'.1, hb'.1] at this
      exact_mod_cast this
    have := L.span_lt a (hok a ha)
    have := L.span_lt b (hok b hb)
    have := h.1
    simp only [Apart] at this
    omega

/-! ## Sorted tables -/

include L in
theorem Lists.apart {slots : List ε} {gs : List (Nat × Nat)} (h : Lists K Ok span slots gs) (hc : Canonical gs) :
    (ranges K span slots).Pairwise Apart := by
  rw [h.ranges_eq L]
  exact hc.ascending.imp Or.inl

include L in
theorem add_lists {slots : List ε} {gs : List (Nat × Nat)} (h : Lists K Ok span slots gs) (hc : Canonical gs)
    (new : ε) (hnew : Ok new) (hd : ∀ r ∈ gs, Disj r (span new)) (hlen : gs.length < slots.length) :
    ∃ slots' gs', add K slots new = .ok slots' ∧ Canonical gs' ∧ Lists K Ok span (reorganize K slots') gs' ∧
      (reorganize K slots').length = slots.length ∧ ∀ t, Covers gs' t ↔ Covers gs t ∨ In t (span new) := by
  obtain ⟨slots', hadd, hl, hg, hap, hcov⟩ := add_spec L h.good (h.apart L hc) hnew
    (by rwa [h.ranges_eq L]) (by rwa [h.ranges_eq L])
  obtain ⟨gs', hc', hls, hperm⟩ := reorganize_lists L hg hap
  refine ⟨slots', gs', hadd, hc', hls, by rw [reorganize_length, hl], fun t => ?_⟩
  rw [covers_of_perm hperm, hcov, h.ranges_eq L]

include L in
theorem del_lists {slots : List ε} {gs : List (Nat × Nat)} (h : Lists K Ok span slots gs) (hc : Canonical gs)
    {cut : ε → Cut ε} {r : Nat × Nat} (hlt : r.1 < r.2) (hcut : Cuts K Ok span cut r) {g : Nat × Nat}
    (hmem : g ∈ gs) (h₁ : g.1 ≤ r.1) (h₂ : r.2 ≤ g.2) (hlen : gs.length < slots.length) (addFirst : Bool)
    (hfirst : addFirst = true → ∀ new ext, Ok new → Ok ext → (span new).2 = (span ext).2 →
      (span ext).1 < (span new).1 → K.overlaps new ext = false) :
    ∃ slots' gs', del K addFirst cut slots = .ok slots' ∧ Canonical gs' ∧
      Lists K Ok span (reorganize K slots') gs' ∧ (reorganize K slots').length = slots.length ∧
      ∀ t, Covers gs' t ↔ Covers gs t ∧ ¬ In t r := by
  obtain ⟨slots', hdel, hl, hg, hap, hcov⟩ := del_spec L h.good (h.apart L hc) hlt hcut
    (by rwa [h.ranges_eq L]) h₁ h₂ (by rwa [h.ranges_eq L]) addFirst hfirst
  obtain ⟨gs', hc', hls, hperm⟩ := reorganize_lists L hg hap
  refine ⟨slots', gs', hdel, hc', hls, by rw [reorganize_length, hl], fun t => ?_⟩
  rw [covers_of_perm hperm, hcov, h.ranges_eq L]

end

end SlotTable
