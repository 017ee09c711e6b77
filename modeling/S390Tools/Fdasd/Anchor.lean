import S390Tools.Lib.DList
import S390Tools.Vtoc.Ebcdic
import S390Tools.Vtoc.Freespace

/-!
# The state of fdasd

The anchor holds the labels, the table of partitions and the map from data set
numbers to positions in the table. The partition structures are the nodes of a
doubly linked list; their `next` and `prev` members are kept in `links`.
-/

namespace Fdasd

open Word Vtoc DList

abbrev DASD_PARTN_BITS : Nat := 2
abbrev USABLE_PARTITIONS : Nat := (1 <<< DASD_PARTN_BITS) - 1
def ALTERNATE_CYLINDERS_USED : Nat := 0x10

abbrev Node := Fin USABLE_PARTITIONS

@[ext]
structure PartitionInfo where
  used : Nat
  start_trk : Nat
  end_trk : Nat
  len_trk : Nat
  fspace_trk : Nat
  f1 : Format1Label
  type : Nat

structure ConfigData where
  start : Nat
  stop : Nat
  type : Nat
  deriving DecidableEq

structure VolumeLabel where
  volkey : List UInt8
  vollbl : List UInt8
  volid : List UInt8
  vtoc : Cchhb

@[ext]
structure FdasdAnchor extends FreeLabels where
  vlabel_changed : Nat
  vtoc_changed : Nat
  big_disk : Nat
  devno : Nat
  partno : Node → Int
  dev_type : Nat
  used_partitions : Nat
  blksize : Nat
  fspace_trk : Nat
  f9 : Format9Label
  first : Option Node
  last : Option Node
  links : Links Node
  info : Node → PartitionInfo
  vlabel : VolumeLabel
  confdata : Node → ConfigData
  hw_cylinders : Nat
  formatted_cylinders : Nat

inductive Failure
  | config_syntax_error
  | vlabel_corrupted
  | dsname_corrupted
  deriving DecidableEq

inductive Stop
  /-- A BUG exit of the free space code. -/
  | bug (b : Bug)
  | error (why : Failure) (text : String)
  /-- A null pointer or an index outside an array. -/
  | crash
  | endless
  deriving DecidableEq

def deref : Option Node → Except Stop Node
  | none => .error .crash
  | some n => .ok n

def freespace (l : FreeLabels) (ch : Char) (start stop cyl trk : Nat) : Except Stop FreeLabels :=
  match vtoc_set_freespace l ch start stop cyl trk with
  | .error b => .error (.bug b)
  | .ok l => .ok l

/-! ## Initialisation -/

def PartitionInfo.zero : PartitionInfo := ⟨0, 0, 0, 0, 0, .zero, 0⟩

def fdasd_initialize_anchor : FdasdAnchor where
  f4 := .zero
  f5 := .zero
  f7 := .zero
  vlabel_changed := 0
  vtoc_changed := 0
  big_disk := 0
  devno := 0
  partno := fun _ => -1
  dev_type := 0
  used_partitions := 0
  blksize := 0
  fspace_trk := 0
  f9 := vtoc_init_format9_label
  first := (List.finRange USABLE_PARTITIONS).head?
  last := (List.finRange USABLE_PARTITIONS).getLast?
  links :=
    { next := fun n => (List.finRange USABLE_PARTITIONS)[n.val + 1]?
      prev := fun n => if n.val = 0 then none else (List.finRange USABLE_PARTITIONS)[n.val - 1]? }
  info := fun _ => .zero
  vlabel := ⟨List.replicate 4 0, List.replicate 4 0, List.replicate 6 0, .zero⟩
  confdata := fun _ => ⟨0, 0, 0⟩
  hw_cylinders := 0
  formatted_cylinders := 0

/-! ## Access -/

/-- The data set number with position `pos`; the source returns -1 where this is `none`. -/
def getdsn (anc : FdasdAnchor) (pos : Int) : Option Node :=
  (List.finRange USABLE_PARTITIONS).find? fun i => anc.partno i == pos

def setpos (anc : FdasdAnchor) (dsn : Node) (pos : Int) : FdasdAnchor :=
  { anc with partno := Function.update anc.partno dsn pos }

/-- `setpos` for every data set number in turn, from its old position. -/
def mapPos (anc : FdasdAnchor) (f : Int → Int) : FdasdAnchor := { anc with partno := fun i => f (anc.partno i) }

def FdasdAnchor.upd (anc : FdasdAnchor) (n : Node) (f : PartitionInfo → PartitionInfo) : FdasdAnchor :=
  { anc with info := Function.update anc.info n (f (anc.info n)) }

@[simp] theorem upd_info (anc : FdasdAnchor) (n m : Node) (f : PartitionInfo → PartitionInfo) :
    (anc.upd n f).info m = if m = n then f (anc.info n) else anc.info m := Function.update_apply ..

def get_usable_cylinders (anc : FdasdAnchor) : Nat :=
  if anc.f4.DS4DEVCT.DS4DSCYL = LV_COMPAT_CYL ∧ anc.f4.DS4DCYL > anc.f4.DS4DEVCT.DS4DSCYL then anc.f4.DS4DCYL
  else if anc.f4.DS4DEVCT.DS4DEVFG &&& ALTERNATE_CYLINDERS_USED ≠ 0 then
    u32 ((anc.f4.DS4DEVCT.DS4DSCYL : Int) - anc.f4.DS4DEVAC)
  else anc.f4.DS4DEVCT.DS4DSCYL

def get_addr_of_highest_f1_f8_label (anc : FdasdAnchor) : Cchhb :=
  let record := u8 (anc.used_partitions + 2 + (if anc.big_disk ≠ 0 then 1 else 0) +
    (if anc.formatted_cylinders > LV_COMPAT_CYL then (anc.used_partitions : Int) - 1 else 0))
  vtoc_set_cchhb VTOC_START_CC VTOC_START_HH record

/-! ## Walking through the list -/

/-- `for (p = head; p != NULL; p = p->next)`. A list of more nodes than there are never ends. -/
def forNodes {σ : Type} (next : σ → Node → Option Node) (body : σ → Node → Except Stop σ) :
    Nat → σ → Option Node → Except Stop σ
  | _, s, none => .ok s
  | 0, _, some _ => .error .endless
  | n + 1, s, some p =>
    match body s p with
    | .error e => .error e
    | .ok s' => forNodes next body n s' (next s' p)

theorem forNodes_eq {σ : Type} {next : σ → Node → Option Node} {body : σ → Node → Except Stop σ} {L : Links Node}
    (hb : ∀ s n s', next s = L.next → body s n = .ok s' → next s' = L.next) :
    ∀ {xs : List Node} (fuel : Nat) {p : Option Node} {s : σ}, Seg L p xs none → xs.length ≤ fuel →
      next s = L.next → forNodes next body fuel s xs.head? = xs.foldlM body s
  | [], fuel, p, s, _, _, _ => by
    cases fuel <;> rfl
  | x :: xs, 0, _, _, _, h, _ => absurd h (by simp)
  | x :: xs, fuel + 1, p, s, hseg, hlen, hs => by
    obtain ⟨-, h₂, h₃⟩ := hseg
    simp only [List.head?_cons, forNodes, List.foldlM_cons]
    cases hbody : body s x with
    | error e => rfl
    | ok s' =>
      have hs' := hb s x s' hs hbody
      have hx : next s' x = xs.head? := by rw [hs', h₂, Option.or_none]
      simp only [hx]
      exact forNodes_eq hb fuel h₃ (by simpa using hlen) hs'

theorem forNodes_keeps {σ : Type} {next : σ → Node → Option Node} {body : σ → Node → Except Stop σ} (P : σ → Prop)
    (hb : ∀ s n s', P s → body s n = .ok s' → P s') :
    ∀ (fuel : Nat) (p : Option Node) (s s' : σ), P s → forNodes next body fuel s p = .ok s' → P s'
  | fuel, none, s, s', hs, h => by
    cases fuel <;> cases h <;> exact hs
  | 0, some p, s, s', hs, h => by cases h
  | fuel + 1, some p, s, s', hs, h => by
    simp only [forNodes] at h
    cases hbody : body s p with
    | error e => rw [hbody] at h; cases h
    | ok s₁ =>
      rw [hbody] at h
      exact forNodes_keeps P hb fuel _ s₁ s' (hb s p s₁ hs hbody) h

end Fdasd
