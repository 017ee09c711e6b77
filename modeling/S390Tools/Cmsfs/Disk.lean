import Mathlib

/-!
# The disk of a CMS file system

A disk is its bytes, its allocation map by block numbers and the two counters of
the allocator. Addresses are byte offsets; block 0 is never given out, so that the
address 0 stands for a null block.
-/

namespace Cmsfs

abbrev Mem := Nat → UInt8

inductive Fail
  | BUG | DIE | Eio | ENOSPC | EINVAL
  deriving DecidableEq

structure Device where
  blksize : Nat
  label : Nat
  total_blocks : Nat

structure Disk where
  mem : Mem
  amap : Nat → Bool
  used_blocks : Nat
  reserved_blocks : Nat

def PTR_SIZE : Nat := 4
def VPTR_SIZE : Nat := 12

namespace Device

variable (c : Device)

def size : Nat := c.total_blocks * c.blksize
def fixed_ptrs_per_block : Nat := c.blksize / PTR_SIZE
def var_ptrs_per_block : Nat := c.blksize / VPTR_SIZE

/-- The block sizes of a formatted disk; block numbers fit a pointer. -/
structure Supported : Prop where
  blksize : c.blksize = 512 ∨ c.blksize = 1024 ∨ c.blksize = 2048 ∨ c.blksize = 4096
  total : c.total_blocks < 2147483648

def ABS (x : Nat) : Nat := (x - 1) * c.blksize
def REL (x : Nat) : Nat := (x / c.blksize + 1) % 4294967296

end Device

/-! ## Words in memory -/

def byte (v i : Nat) : UInt8 := UInt8.ofNat (v / 256 ^ (3 - i))

def word (m : Mem) (a : Nat) : Nat :=
  (((m a).toNat * 256 + (m (a + 1)).toNat) * 256 + (m (a + 2)).toNat) * 256 + (m (a + 3)).toNat

def setWord (m : Mem) (a v : Nat) : Mem := fun x => if a ≤ x ∧ x < a + 4 then byte v (x - a) else m x

def setWords (m : Mem) : Nat → List Nat → Mem
  | _, [] => m
  | a, v :: vs => setWords (setWord m a v) (a + 4) vs

def zero (m : Mem) (a n : Nat) : Mem := fun x => if a ≤ x ∧ x < a + n then 0 else m x

theorem setWord_other {m : Mem} {a v x : Nat} (h : x < a ∨ a + 4 ≤ x) : setWord m a v x = m x := by
  unfold setWord
  rw [if_neg (by omega)]

theorem word_congr {m m' : Mem} {a : Nat} (h : ∀ x, a ≤ x → x < a + 4 → m x = m' x) : word m a = word m' a := by
  unfold word
  rw [h a (by omega) (by omega), h (a + 1) (by omega) (by omega), h (a + 2) (by omega) (by omega),
    h (a + 3) (by omega) (by omega)]

theorem byte_toNat (v i : Nat) : (byte v i).toNat = v / 256 ^ (3 - i) % 256 := by
  simp [byte]

theorem word_setWord {m : Mem} {a v : Nat} (hv : v < 4294967296) : word (setWord m a v) a = v := by
  have hb : ∀ i, i < 4 → (setWord m a v (a + i)).toNat = v / 256 ^ (3 - i) % 256 := by
    intro i hi
    unfold setWord
    rw [if_pos (by omega), byte_toNat]
    congr 4
    omega
  have h₀ := hb 0 (by omega)
  rw [Nat.add_zero] at h₀
  unfold word
  rw [h₀, hb 1 (by omega), hb 2 (by omega), hb 3 (by omega)]
  norm_num
  omega

theorem setWords_other {m : Mem} {x : Nat} : ∀ {vs : List Nat} {a : Nat}, (x < a ∨ a + 4 * vs.length ≤ x) →
    setWords m a vs x = m x
  | [], _, _ => rfl
  | v :: vs, a, h => by
    have h₁ : setWords (setWord m a v) (a + 4) vs x = setWord m a v x :=
      setWords_other (by rw [List.length_cons] at h; omega)
    rw [setWords, h₁, setWord_other (by rw [List.length_cons] at h; omega)]

def wordAt (m : Mem) (a i : Nat) : Nat := word m (a + 4 * i)

theorem wordAt_setWords {m : Mem} : ∀ {vs : List Nat} {a i : Nat} (h : i < vs.length), vs[i] < 4294967296 →
    wordAt (setWords m a vs) a i = vs[i]
  | [], _, _, h, _ => absurd h (by simp)
  | v :: vs, a, 0, _, hv => by
    have hrest : ∀ x, a ≤ x → x < a + 4 → setWords (setWord m a v) (a + 4) vs x = setWord m a v x :=
      fun x _ h => setWords_other (.inl h)
    show word (setWords (setWord m a v) (a + 4) vs) a = v
    rw [word_congr hrest]
    exact word_setWord hv
  | v :: vs, a, i + 1, h, hv => by
    have := wordAt_setWords (m := setWord m a v) (a := a + 4) (Nat.lt_of_succ_lt_succ h) hv
    show word _ (a + 4 * (i + 1)) = _
    rw [show a + 4 * (i + 1) = a + 4 + 4 * i by omega]
    exact this

/-! ## Access -/

section
variable (c : Device)

/-- `access_ok` in front of a transfer of `size` bytes. -/
def access (size addr : Nat) : Except Fail Unit :=
  if (addr + size - 1) / c.blksize > addr / c.blksize then .error .DIE
  else if addr < c.label ∨ c.size < addr then .error .Eio
  else .ok ()

def readWords (m : Mem) (addr n : Nat) : Except Fail (List Nat) := do
  access c (4 * n) addr
  pure ((List.range n).map (wordAt m addr))

def writeWords (d : Disk) (addr : Nat) (vs : List Nat) : Except Fail Disk := do
  access c (4 * vs.length) addr
  pure { d with mem := setWords d.mem addr vs }

def firstFree (amap : Nat → Bool) (n : Nat) : Option Nat := (List.range n).find? fun b => !amap b

def get_free_block (d : Disk) : Except Fail (Nat × Disk) :=
  if d.used_blocks + d.reserved_blocks ≥ c.total_blocks then .error .ENOSPC
  else match firstFree d.amap c.total_blocks with
    | none | some 0 => .error .BUG
    | some b =>
      .ok (b * c.blksize, { d with amap := Function.update d.amap b true, used_blocks := d.used_blocks + 1 })

def get_zero_block (d : Disk) : Except Fail (Nat × Disk) := do
  let (addr, d) ← get_free_block c d
  access c c.blksize addr
  pure (addr, { d with mem := zero d.mem addr c.blksize })

def get_reserved_block (d : Disk) : Except Fail (Nat × Disk) :=
  match get_zero_block c { d with reserved_blocks := d.reserved_blocks - 1 } with
  | .error _ => .error .BUG
  | .ok r => .ok r

def free_block (addr : Nat) (d : Disk) : Except Fail Disk :=
  if addr = 0 then .ok d
  else if d.amap (addr / c.blksize) then
    .ok { d with amap := Function.update d.amap (addr / c.blksize) false, used_blocks := d.used_blocks - 1 }
  else .error .BUG

end

end Cmsfs
