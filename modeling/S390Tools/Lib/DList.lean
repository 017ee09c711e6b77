import Mathlib

/-!
# Doubly linked lists

Nodes are linked by two partial maps. `Seg L p xs n` says that the nodes `xs` are
linked one after the other, with `p` in front of them and `n` behind them, and
`IsList` that a whole list runs from `first` to `last`. The two theorems about
moved nodes only look at the links they need, so that they do not depend on the
order in which a program writes the links.
-/

namespace DList

structure Links (ι : Type*) where
  next : ι → Option ι
  prev : ι → Option ι

section
variable {ι : Type*} [DecidableEq ι]

def Links.setNext (L : Links ι) (x : ι) (n : Option ι) : Links ι := { L with next := Function.update L.next x n }

def Links.setPrev (L : Links ι) (x : ι) (p : Option ι) : Links ι := { L with prev := Function.update L.prev x p }

@[simp] theorem setNext_next (L : Links ι) (x y : ι) (n : Option ι) :
    (L.setNext x n).next y = if y = x then n else L.next y := Function.update_apply ..

@[simp] theorem setNext_prev (L : Links ι) (x y : ι) (n : Option ι) : (L.setNext x n).prev y = L.prev y := rfl

@[simp] theorem setPrev_prev (L : Links ι) (x y : ι) (p : Option ι) :
    (L.setPrev x p).prev y = if y = x then p else L.prev y := Function.update_apply ..

@[simp] theorem setPrev_next (L : Links ι) (x y : ι) (p : Option ι) : (L.setPrev x p).next y = L.next y := rfl

def Links.setNextOf (L : Links ι) (x n : Option ι) : Links ι := x.elim L (L.setNext · n)

def Links.setPrevOf (L : Links ι) (x p : Option ι) : Links ι := x.elim L (L.setPrev · p)

@[simp] theorem setNextOf_next (L : Links ι) (x n : Option ι) (y : ι) :
    (L.setNextOf x n).next y = if x = some y then n else L.next y := by
  cases x with
  | none => rfl
  | some x => simp [Links.setNextOf, eq_comm]

@[simp] theorem setNextOf_prev (L : Links ι) (x n : Option ι) (y : ι) : (L.setNextOf x n).prev y = L.prev y := by
  cases x <;> rfl

@[simp] theorem setPrevOf_prev (L : Links ι) (x p : Option ι) (y : ι) :
    (L.setPrevOf x p).prev y = if x = some y then p else L.prev y := by
  cases x with
  | none => rfl
  | some x => simp [Links.setPrevOf, eq_comm]

@[simp] theorem setPrevOf_next (L : Links ι) (x p : Option ι) (y : ι) : (L.setPrevOf x p).next y = L.next y := by
  cases x <;> rfl

end

section
variable {ι : Type*}

def Seg (L : Links ι) : Option ι → List ι → Option ι → Prop
  | _, [], _ => True
  | p, x :: xs, n => L.prev x = p ∧ L.next x = xs.head?.or n ∧ Seg L (some x) xs n

structure IsList (L : Links ι) (first last : Option ι) (xs : List ι) : Prop where
  nodup : xs.Nodup
  first_eq : first = xs.head?
  last_eq : last = xs.getLast?
  seg : Seg L none xs none

theorem seg_append {L : Links ι} : ∀ {xs ys : List ι} {p n : Option ι},
    Seg L p (xs ++ ys) n ↔ Seg L p xs (ys.head?.or n) ∧ Seg L (xs.getLast?.or p) ys n
  | [], ys, p, n => by simp [Seg]
  | x :: xs, ys, p, n => by
    have hh : ((xs ++ ys).head?.or n) = xs.head?.or (ys.head?.or n) := by
      cases xs <;> simp
    have hl : (x :: xs).getLast?.or p = xs.getLast?.or (some x) := by
      cases hx : xs.getLast? with
      | none => rw [List.getLast?_eq_none_iff.mp hx]; rfl
      | some y => rw [List.getLast?_cons, hx]; rfl
    rw [List.cons_append, Seg, Seg, seg_append, hh, hl]
    tauto

theorem Seg.congr {L L' : Links ι} : ∀ {xs : List ι} {p n : Option ι}, Seg L p xs n →
    (∀ x ∈ xs, L'.next x = L.next x ∧ L'.prev x = L.prev x) → Seg L' p xs n
  | [], _, _, _, _ => trivial
  | x :: xs, p, n, h, hc => by
    obtain ⟨h₁, h₂, h₃⟩ := h
    have hx := hc x (List.mem_cons_self ..)
    exact ⟨hx.2.trans h₁, hx.1.trans h₂, h₃.congr fun y hy => hc y (List.mem_cons_of_mem _ hy)⟩

theorem Seg.relink_end {L L' : Links ι} {xs : List ι} {p n m : Option ι} (hnd : xs.Nodup) (h : Seg L p xs n)
    (hprev : ∀ x ∈ xs, L'.prev x = L.prev x) (hnext : ∀ x ∈ xs, xs.getLast? ≠ some x → L'.next x = L.next x)
    (hend : ∀ x, xs.getLast? = some x → L'.next x = m) : Seg L' p xs m := by
  rcases List.eq_nil_or_concat xs with rfl | ⟨ys, y, rfl⟩
  · trivial
  · rw [List.concat_eq_append] at *
    rw [seg_append] at h ⊢
    have hd := (List.nodup_append.mp hnd).2.2
    refine ⟨h.1.congr fun x hx => ⟨hnext x (by simp [hx]) ?_, hprev x (by simp [hx])⟩,
      (hprev y (by simp)).trans h.2.1, ?_, trivial⟩
    · simp only [List.getLast?_append, List.getLast?_singleton, Option.some_or, ne_eq, Option.some.injEq]
      exact fun he => hd x hx y (by simp) he.symm
    · simpa using hend y (by simp)

theorem Seg.next_eq {L : Links ι} {p n : Option ι} {xs ys : List ι} {x : ι} (h : Seg L p (xs ++ x :: ys) n) :
    L.next x = ys.head?.or n := (seg_append.1 h).2.2.1

theorem Seg.prev_eq {L : Links ι} {p n : Option ι} {xs ys : List ι} {x : ι} (h : Seg L p (xs ++ x :: ys) n) :
    L.prev x = xs.getLast?.or p := (seg_append.1 h).2.1

theorem IsList.next_eq {L : Links ι} {first last : Option ι} {xs ys : List ι} {x : ι}
    (h : IsList L first last (xs ++ x :: ys)) : L.next x = ys.head? := by
  rw [h.seg.next_eq, Option.or_none]

theorem IsList.prev_eq {L : Links ι} {first last : Option ι} {xs ys : List ι} {x : ι}
    (h : IsList L first last (xs ++ x :: ys)) : L.prev x = xs.getLast? := by
  rw [h.seg.prev_eq, Option.or_none]

/-- The last node `x` is taken off and linked in front of `t`. -/
theorem IsList.move_last_before {L L' : Links ι} {first last : Option ι} {us vs : List ι} {t x : ι}
    (h : IsList L first last (us ++ t :: (vs ++ [x])))
    (hx : L'.next x = some t) (hx' : L'.prev x = us.getLast?) (ht : L'.prev t = some x)
    (hu : ∀ u, us.getLast? = some u → L'.next u = some x) (hv : ∀ v, (t :: vs).getLast? = some v → L'.next v = none)
    (hnext : ∀ z ∈ us ++ t :: vs, us.getLast? ≠ some z → (t :: vs).getLast? ≠ some z → L'.next z = L.next z)
    (hprev : ∀ z ∈ us ++ vs, L'.prev z = L.prev z) :
    IsList L' (us ++ x :: t :: vs).head? (us ++ x :: t :: vs).getLast? (us ++ x :: t :: vs) := by
  have hnd := h.nodup
  have hperm : (us ++ t :: (vs ++ [x])).Perm (us ++ x :: t :: vs) :=
    List.Perm.append_left us (by simpa using (List.perm_append_singleton x (t :: vs)))
  have hnd' := hperm.nodup_iff.mp hnd
  obtain ⟨hus, htvs, hdis⟩ := List.nodup_append.mp hnd'
  have hxt := (List.nodup_cons.mp htvs).2
  have hs := seg_append.1 h.seg
  have hs₂ : Seg L (us.getLast?.or none) ((t :: vs) ++ [x]) none := hs.2
  have hs₃ := (seg_append.1 hs₂).1
  refine ⟨hnd', rfl, rfl, seg_append.2 ⟨?_, ?_, ?_, ?_⟩⟩
  · refine hs.1.relink_end hus (fun z hz => hprev z (by simp [hz])) (fun z hz hne => ?_)
      (fun u hu' => by rw [hu u hu']; rfl)
    refine hnext z (by simp [hz]) hne fun hl => ?_
    exact hdis z hz z (List.mem_cons_of_mem _ (List.mem_of_getLast? hl)) rfl
  · rw [Option.or_none, hx']
  · rw [hx]; rfl
  · refine ⟨ht, ?_, ?_⟩
    · cases vs with
      | nil => exact hv t rfl
      | cons v vs =>
        have hne : (t :: v :: vs).getLast? ≠ some t := by
          rw [List.getLast?_cons_cons]
          intro hl
          exact (List.nodup_cons.mp hxt).1 (List.mem_of_getLast? hl)
        rw [hnext t (by simp) (fun hl => hdis t (List.mem_of_getLast? hl) t (by simp) rfl) hne, hs₃.2.1]
        rfl
    · refine hs₃.2.2.relink_end (List.nodup_cons.mp hxt).2 (fun z hz => hprev z (by simp [hz])) ?_ ?_
      · intro z hz hne
        refine hnext z (by simp [hz]) (fun hl => ?_) ?_
        · exact hdis z (List.mem_of_getLast? hl) z (by simp [hz]) rfl
        · intro hl
          cases vs with
          | nil => cases hz
          | cons v vs => rw [List.getLast?_cons_cons] at hl; exact hne hl
      · intro z hl
        refine hv z ?_
        cases vs with
        | nil => cases hl
        | cons v vs => rw [List.getLast?_cons_cons]; exact hl

/-- The node `x` is taken out and linked behind the last node. -/
theorem IsList.move_to_end {L L' : Links ι} {first last : Option ι} {us vs : List ι} {v x : ι}
    (h : IsList L first last (us ++ x :: v :: vs))
    (hx : L'.next x = none) (hx' : L'.prev x = (v :: vs).getLast?) (hv : L'.prev v = us.getLast?)
    (hu : ∀ u, us.getLast? = some u → L'.next u = some v)
    (hl : ∀ w, (v :: vs).getLast? = some w → L'.next w = some x)
    (hnext : ∀ z ∈ us ++ v :: vs, us.getLast? ≠ some z → (v :: vs).getLast? ≠ some z → L'.next z = L.next z)
    (hprev : ∀ z ∈ us ++ vs, L'.prev z = L.prev z) :
    IsList L' (us ++ v :: vs ++ [x]).head? (us ++ v :: vs ++ [x]).getLast? (us ++ v :: vs ++ [x]) := by
  have hnd := h.nodup
  have hperm : (us ++ x :: v :: vs).Perm (us ++ v :: vs ++ [x]) := by
    rw [List.append_assoc]
    exact List.Perm.append_left us (by simpa using (List.perm_append_singleton x (v :: vs)).symm)
  have hnd' := hperm.nodup_iff.mp hnd
  obtain ⟨hus, hxvs, hdis⟩ := List.nodup_append.mp hnd
  have hvs := (List.nodup_cons.mp hxvs).2
  have hs := seg_append.1 h.seg
  obtain ⟨-, -, hs₂⟩ := hs.2
  have htail : Seg L' (us.getLast?.or none) (v :: vs) (some x) := by
    refine ⟨by rw [hv, Option.or_none], ?_, ?_⟩
    · cases vs with
      | nil => rw [hl v rfl]; rfl
      | cons w vs =>
        have hne : (v :: w :: vs).getLast? ≠ some v := by
          rw [List.getLast?_cons_cons]
          intro hl'
          exact (List.nodup_cons.mp hvs).1 (List.mem_of_getLast? hl')
        rw [hnext v (by simp) (fun hl' => hdis v (List.mem_of_getLast? hl') v (by simp) rfl) hne, hs₂.2.1]
        rfl
    · refine hs₂.2.2.relink_end (List.nodup_cons.mp hvs).2 (fun z hz => hprev z (by simp [hz])) ?_ ?_
      · intro z hz hne
        refine hnext z (by simp [hz]) (fun hl' => ?_) ?_
        · exact hdis z (List.mem_of_getLast? hl') z (by simp [hz]) rfl
        · intro hl'
          cases vs with
          | nil => cases hz
          | cons w vs => rw [List.getLast?_cons_cons] at hl'; exact hne hl'
      · intro z hz
        refine hl z ?_
        cases vs with
        | nil => cases hz
        | cons w vs => rw [List.getLast?_cons_cons]; exact hz
  refine ⟨hnd', rfl, rfl, seg_append.2 ⟨seg_append.2 ⟨?_, by simpa using htail⟩, ?_, ?_, trivial⟩⟩
  · refine hs.1.relink_end hus (fun z hz => hprev z (by simp [hz])) (fun z hz hne => ?_)
      (fun u hu' => by rw [hu u hu']; rfl)
    refine hnext z (by simp [hz]) hne fun hl' => ?_
    exact hdis z hz z (List.mem_cons_of_mem _ (List.mem_of_getLast? hl')) rfl
  · rw [hx', List.getLast?_append, Option.or_none]
    cases hg : (v :: vs).getLast? with
    | none => simp at hg
    | some w => rfl
  · rw [hx]; rfl

/-! ## Single nodes -/

theorem Seg.relink_start {L L' : Links ι} {xs : List ι} {p q n : Option ι} (h : Seg L p xs n)
    (hnext : ∀ x ∈ xs, L'.next x = L.next x) (hprev : ∀ x ∈ xs.tail, L'.prev x = L.prev x)
    (hstart : ∀ x, xs.head? = some x → L'.prev x = q) : Seg L' q xs n := by
  cases xs with
  | nil => trivial
  | cons x xs =>
    exact ⟨hstart x rfl, (hnext x List.mem_cons_self).trans h.2.1,
      h.2.2.congr fun y hy => ⟨hnext y (List.mem_cons_of_mem _ hy), hprev y hy⟩⟩

theorem not_head_of_tail {xs : List ι} (hnd : xs.Nodup) {x : ι} (hx : x ∈ xs.tail) : xs.head? ≠ some x := by
  cases xs with
  | nil => cases hx
  | cons y ys =>
    rw [List.head?_cons, ne_eq, Option.some.injEq]
    exact fun e => (List.nodup_cons.mp hnd).1 (e ▸ hx)

section
variable {L L' : Links ι} {first last : Option ι} {us vs : List ι}

theorem relink_parts (hnd : (us ++ vs).Nodup) {p n m q : Option ι} (hus : Seg L none us m) (hvs : Seg L q vs none)
    (hu : ∀ u, us.getLast? = some u → L'.next u = n) (hv : ∀ v, vs.head? = some v → L'.prev v = p)
    (hnext : ∀ z ∈ us ++ vs, us.getLast? ≠ some z → L'.next z = L.next z)
    (hprev : ∀ z ∈ us ++ vs, vs.head? ≠ some z → L'.prev z = L.prev z) : Seg L' none us n ∧ Seg L' p vs none := by
  obtain ⟨hnu, hnv, hdis⟩ := List.nodup_append.mp hnd
  constructor
  · refine hus.relink_end hnu (fun z hz => hprev z (List.mem_append_left _ hz) fun hl => ?_)
      (fun z hz hne => hnext z (List.mem_append_left _ hz) hne) hu
    exact hdis z hz z (List.mem_of_head? hl) rfl
  · refine hvs.relink_start (fun z hz => hnext z (List.mem_append_right _ hz) fun hl => ?_)
      (fun z hz => hprev z (List.mem_append_right _ (List.mem_of_mem_tail hz)) (not_head_of_tail hnv hz)) hv
    exact hdis z (List.mem_of_getLast? hl) z hz rfl

theorem IsList.insert {x : ι} (h : IsList L first last (us ++ vs)) (hx : x ∉ us ++ vs)
    (hnx : L'.next x = vs.head?) (hpx : L'.prev x = us.getLast?)
    (hu : ∀ u, us.getLast? = some u → L'.next u = some x) (hv : ∀ v, vs.head? = some v → L'.prev v = some x)
    (hnext : ∀ z ∈ us ++ vs, us.getLast? ≠ some z → L'.next z = L.next z)
    (hprev : ∀ z ∈ us ++ vs, vs.head? ≠ some z → L'.prev z = L.prev z) :
    IsList L' (us ++ x :: vs).head? (us ++ x :: vs).getLast? (us ++ x :: vs) := by
  obtain ⟨hus, hvs⟩ := seg_append.1 h.seg
  obtain ⟨hus', hvs'⟩ := relink_parts h.nodup hus hvs hu hv hnext hprev
  refine ⟨List.nodup_middle.mpr (List.nodup_cons.mpr ⟨hx, h.nodup⟩), rfl, rfl, seg_append.2 ⟨hus', ?_, ?_, hvs'⟩⟩
  · rw [hpx, Option.or_none]
  · rw [hnx, Option.or_none]

theorem IsList.remove {x : ι} (h : IsList L first last (us ++ x :: vs))
    (hu : ∀ u, us.getLast? = some u → L'.next u = vs.head?) (hv : ∀ v, vs.head? = some v → L'.prev v = us.getLast?)
    (hnext : ∀ z ∈ us ++ vs, us.getLast? ≠ some z → L'.next z = L.next z)
    (hprev : ∀ z ∈ us ++ vs, vs.head? ≠ some z → L'.prev z = L.prev z) :
    IsList L' (us ++ vs).head? (us ++ vs).getLast? (us ++ vs) := by
  obtain ⟨hus, -, -, hvs⟩ := seg_append.1 h.seg
  have hnd := (List.nodup_cons.mp (List.nodup_middle.mp h.nodup)).2
  obtain ⟨hus', hvs'⟩ := relink_parts hnd hus hvs hu hv hnext hprev
  refine ⟨hnd, rfl, rfl, seg_append.2 ⟨?_, ?_⟩⟩
  · rwa [Option.or_none]
  · rwa [Option.or_none]

theorem IsList.swap {x y : ι} (h : IsList L first last (us ++ x :: y :: vs))
    (hny : L'.next y = some x) (hpy : L'.prev y = us.getLast?) (hnx : L'.next x = vs.head?)
      (hpx : L'.prev x = some y)
    (hu : ∀ u, us.getLast? = some u → L'.next u = some y) (hv : ∀ v, vs.head? = some v → L'.prev v = some x)
    (hnext : ∀ z ∈ us ++ vs, us.getLast? ≠ some z → L'.next z = L.next z)
    (hprev : ∀ z ∈ us ++ vs, vs.head? ≠ some z → L'.prev z = L.prev z) :
    IsList L' (us ++ y :: x :: vs).head? (us ++ y :: x :: vs).getLast? (us ++ y :: x :: vs) := by
  obtain ⟨hus, -, -, -, -, hvs⟩ := seg_append.1 h.seg
  have hperm : (us ++ x :: y :: vs).Perm (us ++ y :: x :: vs) := List.Perm.append_left us (List.Perm.swap y x vs)
  have hnd := (List.nodup_cons.mp (List.nodup_middle.mp (List.nodup_cons.mp (List.nodup_middle.mp h.nodup)).2)).2
  obtain ⟨hus', hvs'⟩ := relink_parts hnd hus hvs hu hv hnext hprev
  refine ⟨hperm.nodup_iff.mp h.nodup, rfl, rfl, seg_append.2 ⟨hus', ?_, hny, hpx, ?_, hvs'⟩⟩
  · rw [hpy, Option.or_none]
  · rw [hnx, Option.or_none]

end

end

end DList
