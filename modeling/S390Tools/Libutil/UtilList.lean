import S390Tools.Lib.BubbleSort
import S390Tools.Lib.DList
import S390Tools.Lib.Run

/-!
# Linked lists (libutil/util_list.c)

Entries and nodes are addresses, the node of an entry lies `offset` bytes behind it. The memory of
the nodes is a part of the state.
-/

namespace UtilList

open DList

structure State where
  offset : Nat
  start : Option Nat
  end_ : Option Nat
  links : Links Nat

def n2e (s : State) (node : Nat) : Nat := node - s.offset

def e2n (s : State) (entry : Nat) : Nat := entry + s.offset

def util_list_init_offset (links : Links Nat) (offset : Nat) : State :=
  { offset, start := none, end_ := none, links }

/-! ## Adding and removing -/

def util_list_add_tail (s : State) (entry : Nat) : Option State :=
  let node := e2n s entry
  let L := s.links.setNext node none
  match s.start with
  | none => some { s with start := some node, end_ := some node, links := L.setPrev node none }
  | some _ =>
    s.end_.map fun tail => { s with
      end_ := some node, links := (L.setNext tail (some node)).setPrev node (some tail) }

def util_list_add_head (s : State) (entry : Nat) : State :=
  let node := e2n s entry
  let L := (s.links.setPrev node none).setNext node none
  match s.start with
  | none => { s with start := some node, end_ := some node, links := L }
  | some head => { s with start := some node, links := (L.setPrev head (some node)).setNext node (some head) }

def util_list_add_next (s : State) (entry list_entry : Nat) : State :=
  let node := e2n s entry
  let list_node := e2n s list_entry
  let L := (s.links.setNext node (s.links.next list_node)).setPrev node (some list_node)
  let end_ := if (L.next list_node).isSome then s.end_ else some node
  let L := (L.setPrevOf (L.next list_node) (some node)).setNext list_node (some node)
  { s with end_, links := L }

def util_list_add_prev (s : State) (entry list_entry : Nat) : State :=
  let node := e2n s entry
  let list_node := e2n s list_entry
  let L := (s.links.setPrev node (s.links.prev list_node)).setNext node (some list_node)
  let start := if (L.prev list_node).isSome then s.start else some node
  let L := (L.setNextOf (L.prev list_node) (some node)).setPrev list_node (some node)
  { s with start, links := L }

def util_list_remove (s : State) (entry : Nat) : State :=
  let node := e2n s entry
  let start := if s.start = some node then s.links.next node else s.start
  let end_ := if s.end_ = some node then s.links.prev node else s.end_
  let L := s.links.setNextOf (s.links.prev node) (s.links.next node)
  let L := L.setPrevOf (L.next node) (L.prev node)
  { s with start, end_, links := L }

/-! ## Looking -/

def util_list_start (s : State) : Option Nat := s.start.map (n2e s)

def util_list_end (s : State) : Option Nat := s.end_.map (n2e s)

def util_list_next (s : State) (entry : Option Nat) : Option Nat :=
  entry.bind fun entry => (s.links.next (e2n s entry)).map (n2e s)

def util_list_prev (s : State) (entry : Option Nat) : Option Nat :=
  entry.bind fun entry => (s.links.prev (e2n s entry)).map (n2e s)

/-- The entries that a loop visits from `entry` on, `none` if they are more than `fuel`. -/
def visit (advance : Option Nat → Option Nat) : Nat → Option Nat → Option (List Nat)
  | _, none => some []
  | 0, some _ => none
  | fuel + 1, some entry => (visit advance fuel (advance (some entry))).map (entry :: ·)

def count (s : State) : Nat → Option Nat → Nat → Option Nat
  | _, none, cnt => some cnt
  | 0, some _, _ => none
  | fuel + 1, some entry, cnt => count s fuel (util_list_next s (some entry)) (cnt + 1)

def util_list_len (fuel : Nat) (s : State) : Option Nat := count s fuel (util_list_start s) 0

/-! ## Sorting -/

section
variable (cmp_fn : Nat → Nat → Int)

/-- One round of the inner loop, on the list and `node1`. -/
def sort_step (p : State × Nat) : Option (State × Nat) :=
  let s := p.1
  let node1 := p.2
  (s.links.next node1).map fun node2 =>
    if cmp_fn (n2e s node1) (n2e s node2) > 0 then
      let L := s.links.setNext node1 (s.links.next node2)
      let end_ := if (L.next node1).isSome then s.end_ else some node1
      let L := (L.setPrevOf (L.next node1) (some node1)).setNext node2 (some node1)
      let L := L.setPrev node2 (L.prev node1)
      let start := if (L.prev node2).isSome then s.start else some node2
      let L := (L.setNextOf (L.prev node2) (some node2)).setPrev node1 (some node2)
      ({ s with start, end_, links := L }, node1)
    else (s, node2)

def sort_steps : Nat → State × Nat → Option (State × Nat)
  | 0, p => some p
  | n + 1, p => (sort_step cmp_fn p).bind (sort_steps n)

def sort_round (list_cnt : Nat) (s : State) (i : Nat) : Option State :=
  s.start.bind fun node1 => (sort_steps cmp_fn (list_cnt - i) (s, node1)).map Prod.fst

def util_list_sort (fuel : Nat) (s : State) : Option State :=
  (util_list_len fuel s).bind fun list_cnt => (List.range' 1 (list_cnt - 1)).foldlM (sort_round cmp_fn list_cnt) s

end

/-! ## Loops that change the list -/

inductive Act
  | remove
  | append (entry : Nat)

def act (entry : Nat) (s : State) : Act → Option State
  | .remove => some (util_list_remove s entry)
  | .append e => util_list_add_tail s e

/-- `util_list_iterate_safe` with the acts of the body in each round: the entries visited, and the list left. -/
def iterate_safe (body : Nat → List Act) : Nat → Nat → State → Option Nat → Option Nat → Option (List Nat × State)
  | _, _, s, none, _ => some ([], s)
  | 0, _, _, some _, _ => none
  | fuel + 1, k, s, some i, n =>
    ((body k).foldlM (act i) s).bind fun s' =>
      (iterate_safe body fuel (k + 1) s' n (util_list_next s' n)).map fun r => (i :: r.1, r.2)

def util_list_iterate_safe (body : Nat → List Act) (fuel : Nat) (s : State) : Option (List Nat × State) :=
  iterate_safe body fuel 0 s (util_list_start s) (util_list_next s (util_list_start s))

/-! ## Calls -/

inductive Op
  | add_tail (entry : Nat)
  | add_head (entry : Nat)
  | add_next (entry list_entry : Nat)
  | add_prev (entry list_entry : Nat)
  | remove (entry : Nat)
  | sort (cmp_fn : Nat → Nat → Int)

def step (fuel : Nat) (s : State) : Op → Option State
  | .add_tail entry => util_list_add_tail s entry
  | .add_head entry => some (util_list_add_head s entry)
  | .add_next entry list_entry => some (util_list_add_next s entry list_entry)
  | .add_prev entry list_entry => some (util_list_add_prev s entry list_entry)
  | .remove entry => some (util_list_remove s entry)
  | .sort cmp_fn => util_list_sort cmp_fn fuel s

/-! ## The modelled sequence -/

def sorted (cmp_fn : Nat → Nat → Int) (xs : List Nat) : List Nat :=
  BubbleSort.sortBy (fun x y => decide (cmp_fn x y ≤ 0)) xs

def seq_step (xs : List Nat) : Op → Option (List Nat)
  | .add_tail entry => if entry ∈ xs then none else some (xs ++ [entry])
  | .add_head entry => if entry ∈ xs then none else some (entry :: xs)
  | .add_next entry list_entry =>
    if entry ∈ xs ∨ list_entry ∉ xs then none
    else some (xs.flatMap fun x => if x = list_entry then [x, entry] else [x])
  | .add_prev entry list_entry =>
    if entry ∈ xs ∨ list_entry ∉ xs then none
    else some (xs.flatMap fun x => if x = list_entry then [entry, x] else [x])
  | .remove entry => if entry ∈ xs then some (xs.erase entry) else none
  | .sort cmp_fn => some (sorted cmp_fn xs)

/-- What both directions visit, and the number of entries. -/
structure Traversed (s : State) (xs : List Nat) : Prop where
  forward : ∀ fuel, xs.length ≤ fuel → visit (util_list_next s) fuel (util_list_start s) = some xs
  backward : ∀ fuel, xs.length ≤ fuel → visit (util_list_prev s) fuel (util_list_end s) = some xs.reverse
  len : ∀ fuel, xs.length ≤ fuel → util_list_len fuel s = some xs.length

/-- The comparison agrees with a total preorder, and says anything but the wrong order of equal entries. -/
structure Compares (cmp_fn : Nat → Nat → Int) (le : Nat → Nat → Prop) : Prop where
  trans : ∀ x y z, le x y → le y z → le x z
  total : ∀ x y, le x y ∨ le y x
  not_above : ∀ x y, cmp_fn x y ≤ 0 → le x y
  above : ∀ x y, cmp_fn x y > 0 → le y x

def Sorts (s : State) (xs : List Nat) : Prop :=
  ∀ cmp_fn le, Compares cmp_fn le → ∃ s' ys, (∀ fuel, xs.length ≤ fuel → util_list_sort cmp_fn fuel s = some s') ∧
    Traversed s' ys ∧ ys.Perm xs ∧ ys.Pairwise le ∧ ∀ x y, cmp_fn x y = 0 → [x, y].Sublist xs → [x, y].Sublist ys

def turn (i : Nat) (xs : List Nat) : Act → Option (List Nat)
  | .remove => if i ∈ xs then some (xs.erase i) else none
  | .append e => if e ∈ xs then none else some (xs ++ [e])

def behind (xs : List Nat) (x : Nat) : Option Nat := (xs.dropWhile (· ≠ x)).tail.head?

/-- In the next rounds the body removes the current entry only if it is there, and appends entries that are not. -/
def Legal (body : Nat → List Act) : Nat → Nat → List Nat → Option Nat → Option Nat → Prop
  | 0, _, _, _, _ => True
  | _ + 1, _, _, none, _ => True
  | m + 1, k, xs, some i, n =>
    ∃ xs', (body k).foldlM (turn i) xs = some xs' ∧ Legal body m (k + 1) xs' n (n.bind (behind xs'))

/-- Every entry is visited in order, before the ones that the body appends, if that comes to an end. -/
def IteratesSafely (s : State) (xs : List Nat) : Prop :=
  ∀ body rounds, (∀ k, rounds ≤ k → ∀ e, .append e ∉ body k) →
    (∀ m, Legal body m 0 xs xs.head? (xs.head?.bind (behind xs))) →
      ∃ zs s' bound, (∀ z ∈ zs, ∃ k, .append z ∈ body k) ∧
        ∀ fuel, bound ≤ fuel → util_list_iterate_safe body fuel s = some (xs ++ zs, s')

end UtilList
