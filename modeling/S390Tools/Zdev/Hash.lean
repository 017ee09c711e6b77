import Mathlib

/-!
# Hashes (zdev/src/hash.c)

A hash is a list with its entries filed in buckets too. `none` is an access to a bucket
that is not there, or a call of a missing function.
-/

namespace Zdev

structure Hash (E I : Type) where
  list : List E
  buckets : Nat
  get_id : E → I
  cmp_id : I → I → Int
  get_hash : Option (I → Nat)
  hash : List (List E)

variable {E I : Type}

def hash_init (buckets : Nat) (get_id : E → I) (cmp_id : I → I → Int) (get_hash : Option (I → Nat)) : Hash E I where
  list := []
  buckets
  get_id
  cmp_id
  get_hash
  hash := List.replicate buckets []

def Hash.bucket_of (h : Hash E I) (id : I) : Option (Nat × List E) := do
  let get_hash ← h.get_hash
  return (get_hash id, ← h.hash[get_hash id]?)

def hash_add (h : Hash E I) (entry : E) : Option (Hash E I) :=
  if h.buckets > 0 then do
    let (i, b) ← h.bucket_of (h.get_id entry)
    return { h with list := h.list ++ [entry], hash := h.hash.set i (b ++ [entry]) }
  else some { h with list := h.list ++ [entry] }

def hash_find_by_id (h : Hash E I) (id : I) : Option (Option E) :=
  if h.buckets > 0 then do
    let (_, b) ← h.bucket_of id
    return b.find? fun p => h.cmp_id (h.get_id p) id = 0
  else some none

/-! ## Filing -/

/-- Each bucket holds the entries with its number, in the order of the list. -/
structure Hash.Filed (h : Hash E I) : Prop where
  hashed : h.get_hash.isSome ↔ 0 < h.buckets
  inside : ∀ get_hash ∈ h.get_hash, ∀ id, get_hash id < h.buckets
  bucket : ∀ get_hash ∈ h.get_hash, ∀ i < h.buckets,
    h.hash[i]? = some (h.list.filter fun e => get_hash (h.get_id e) = i)

theorem hash_init_filed {buckets : Nat} {get_id : E → I} {cmp_id : I → I → Int} {get_hash : Option (I → Nat)}
    (hashed : get_hash.isSome ↔ 0 < buckets) (inside : ∀ f ∈ get_hash, ∀ id, f id < buckets) :
    Hash.Filed (hash_init buckets get_id cmp_id get_hash) where
  hashed := hashed
  inside := inside
  bucket _ _ i hi := by
    have hi : i < buckets := hi
    rw [hash_init, List.filter_nil, List.getElem?_replicate, if_pos hi]

variable {h : Hash E I}

theorem Hash.Filed.none (hf : Hash.Filed h) (hnone : h.get_hash = none) : ¬h.buckets > 0 := fun hpos => by
  have hsome := hf.hashed.mpr hpos
  rw [hnone] at hsome
  cases hsome

theorem Hash.Filed.pos (hf : Hash.Filed h) {get_hash : I → Nat}
    (hsome : h.get_hash = some get_hash) : h.buckets > 0 := by
  apply hf.hashed.mp
  rw [hsome]
  rfl

theorem Hash.Filed.bucket_eq (hf : Hash.Filed h) {get_hash : I → Nat}
    (hsome : h.get_hash = some get_hash) (id : I) :
    h.bucket_of id = some (get_hash id, h.list.filter fun e => get_hash (h.get_id e) = get_hash id) := by
  have hbucket := hf.bucket get_hash hsome _ (hf.inside get_hash hsome id)
  simp only [Hash.bucket_of, hsome, Option.bind_eq_bind, Option.bind_some, hbucket]
  rfl

theorem Hash.Filed.set {h' : Hash E I} (hf : Hash.Filed h) {get_hash : I → Nat}
    (hsome : h.get_hash = some get_hash) {i : Nat}
    {b : List E} (hh : h' = { h with list := h'.list, hash := h.hash.set i b })
    (hb : b = h'.list.filter fun e => get_hash (h.get_id e) = i)
    (hother : ∀ j ≠ i, h.list.filter (fun e => get_hash (h.get_id e) = j) = h'.list.filter fun e =>
      get_hash (h.get_id e) = j) :
    Hash.Filed h' := by
  rw [hh]
  refine ⟨hf.hashed, hf.inside, fun f hfun j hj => ?_⟩
  have hfun : h.get_hash = some f := hfun
  obtain rfl : get_hash = f := Option.some.inj (hsome.symm.trans hfun)
  have hold := hf.bucket get_hash hsome j hj
  by_cases hij : i = j
  · subst hij
    have hlt : i < h.hash.length := (List.getElem?_eq_some_iff.mp hold).1
    rw [← hb]
    exact List.getElem?_set_self hlt
  · rw [← hother j (Ne.symm hij), ← hold]
    exact List.getElem?_set_ne hij

theorem Hash.Filed.add (hf : Hash.Filed h) (entry : E) :
    ∃ h', hash_add h entry = some h' ∧ Hash.Filed h' ∧
      h' = { h with list := h.list ++ [entry], hash := h'.hash } := by
  obtain hnone | ⟨get_hash, hsome⟩ := Option.eq_none_or_eq_some h.get_hash
  · refine ⟨{ h with list := h.list ++ [entry] }, if_neg (hf.none hnone), ⟨hf.hashed, hf.inside, ?_⟩, rfl⟩
    intro f hfun
    have hfun : h.get_hash = some f := hfun
    rw [hnone] at hfun
    cases hfun
  · refine ⟨{ h with
        list := h.list ++ [entry],
        hash := h.hash.set (get_hash (h.get_id entry))
          ((h.list.filter fun e => get_hash (h.get_id e) = get_hash (h.get_id entry)) ++ [entry]) }, ?_, ?_, rfl⟩
    · rw [hash_add, if_pos (hf.pos hsome), hf.bucket_eq hsome]
      rfl
    · refine hf.set hsome rfl ?_ fun j hj => ?_
      · dsimp only
        rw [List.filter_append, List.filter_cons_of_pos (by simp), List.filter_nil]
      · dsimp only
        rw [List.filter_append, List.filter_cons_of_neg (by simpa using hj.symm), List.filter_nil, List.append_nil]

/-! ## Searching -/

theorem Hash.find_filter {p q : E → Bool} (hpq : ∀ e, p e = true → q e = true) : ∀ l : List E,
    (l.filter q).find? p = l.find? p
  | [] => rfl
  | e :: l => by
    by_cases hp : p e = true
    · rw [List.filter_cons_of_pos (hpq e hp), List.find?_cons_of_pos hp, List.find?_cons_of_pos hp]
    · rw [List.find?_cons_of_neg hp, ← find_filter hpq l]
      by_cases hq : q e = true
      · rw [List.filter_cons_of_pos hq, List.find?_cons_of_neg hp]
      · rw [List.filter_cons_of_neg hq]

theorem Hash.Filed.find (hf : Hash.Filed h) (hcmp : ∀ a b, h.cmp_id a b = 0 → a = b)
    (hsome : h.get_hash.isSome) (id : I) :
    hash_find_by_id h id = some (h.list.find? fun e => h.cmp_id (h.get_id e) id = 0) := by
  obtain ⟨get_hash, hsome⟩ := Option.isSome_iff_exists.mp hsome
  rw [hash_find_by_id, if_pos (hf.pos hsome), hf.bucket_eq hsome]
  simp only [Option.bind_eq_bind, Option.bind_some]
  refine congrArg some (find_filter (fun e he => ?_) h.list)
  rw [hcmp _ _ (of_decide_eq_true he)]
  exact decide_eq_true rfl

end Zdev
