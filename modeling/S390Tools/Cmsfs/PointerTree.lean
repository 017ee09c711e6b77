import S390Tools.Lib.Run
import S390Tools.Cmsfs.File

/-!
# What the writers of pointer blocks leave on the disk

`Tree m level dst start bs` describes the pointer block at `dst` with everything
below it, down to the data blocks; `bs` are the numbers of its blocks. Writing a
tree takes blocks that were free and changes nothing outside of them.
-/

namespace Cmsfs

open FanOut Run

variable (c : Device) (L : PtrLayout)

/-! ## Trees -/

/-- The entry behind the last one of a block at `level + 1`. -/
def PtrLayout.stop (level start : Nat) : Nat :=
  min (start + L.ptr_per_block) (perLevel L.ptr_per_block level L.nr_blocks)

def Holds (m : Mem) (a : Nat) (vs : List Nat) : Prop := ∀ i (h : i < vs.length), wordAt m a i = vs[i]

def PtrLayout.room : Nat := c.blksize - if L.back then PTR_SIZE else 0

def Tree (m : Mem) : (level dst start : Nat) → List Nat → Prop
  | 0, _, _, bs => bs = []
  | level + 1, dst, start, bs =>
    dst % c.blksize = 0 ∧ dst ≠ 0 ∧ ∃ kids : List (Nat × List Nat),
      kids.length = L.stop level start - start ∧
      (∀ j (h : j < kids.length),
        Holds m (dst + 4 * L.width * j) (L.ptr (level + 1) (start + j) (block_ptr c kids[j].1)) ∧
        Tree m level kids[j].1 ((start + j) * L.ptr_per_block) kids[j].2 ∧
        (level = 0 → kids[j].1 = L.leaf (start + j))) ∧
      (∀ x, dst + 4 * L.width * kids.length ≤ x → x < dst + L.room c → m x = 0) ∧
      (L.back = true → wordAt m (dst + c.blksize - PTR_SIZE) 0 = (kids.length - 1) * VPTR_SIZE) ∧
      bs = dst / c.blksize :: kids.flatMap (·.2)

structure PtrLayout.Ok : Prop where
  fan : 2 ≤ L.ptr_per_block
  width : 0 < L.width
  fits : 4 * L.width * L.ptr_per_block ≤ L.room c
  room : PTR_SIZE < c.blksize
  bound : c.blksize ≤ 4096
  length : ∀ level i next, (L.ptr level i next).length = L.width
  small : ∀ level i next, next < 4294967296 → ∀ v ∈ L.ptr level i next, v < 4294967296

/-! ## Blocks and bytes -/

theorem div_eq_iff_block {n dst x : Nat} (hn : 0 < n) (hd : dst % n = 0) :
    x / n = dst / n ↔ dst ≤ x ∧ x < dst + n := by
  obtain ⟨k, rfl⟩ := Nat.dvd_of_mod_eq_zero hd
  rw [Nat.mul_div_cancel_left k hn]
  constructor
  · intro h
    subst h
    have h₁ := Nat.mul_div_le x n
    have h₂ := Nat.lt_mul_div_succ x hn
    rw [Nat.mul_add, Nat.mul_one] at h₂
    exact ⟨h₁, h₂⟩
  · rintro ⟨h₁, h₂⟩
    exact Nat.div_eq_of_lt_le (by rwa [Nat.mul_comm]) (by rw [Nat.add_mul, Nat.one_mul, Nat.mul_comm]; exact h₂)

theorem Holds.congr {m m' : Mem} {a : Nat} {vs : List Nat} (h : Holds m a vs)
    (hm : ∀ x, a ≤ x → x < a + 4 * vs.length → m' x = m x) : Holds m' a vs := by
  intro i hi
  rw [← h i hi]
  exact word_congr fun x h₁ h₂ => hm x (by omega) (by omega)

variable {c L}

theorem Tree.congr (hL : L.Ok c) {m m' : Mem} : ∀ {level dst start : Nat} {bs : List Nat},
    Tree c L m level dst start bs → (∀ x, x / c.blksize ∈ bs → m' x = m x) → Tree c L m' level dst start bs
  | 0, _, _, _, h, _ => h
  | level + 1, dst, start, bs, h, hm => by
    obtain ⟨hal, h0, kids, hlen, hkids, hzero, hback, rfl⟩ := h
    have hroom := hL.room
    have hdst : ∀ x, dst ≤ x → x < dst + c.blksize → m' x = m x := by
      intro x h₁ h₂
      apply hm
      rw [(div_eq_iff_block (by omega) hal).mpr ⟨h₁, h₂⟩]
      exact List.mem_cons_self ..
    have hle : L.room c ≤ c.blksize := Nat.sub_le ..
    have hcnt : 4 * L.width * kids.length ≤ L.room c := by
      refine Nat.le_trans (Nat.mul_le_mul_left _ ?_) hL.fits
      rw [hlen, PtrLayout.stop]
      omega
    refine ⟨hal, h0, kids, hlen, fun j hj => ?_, fun x h₁ h₂ => ?_, fun hb => ?_, rfl⟩
    · obtain ⟨h₁, h₂, h₃⟩ := hkids j hj
      refine ⟨h₁.congr fun x hx hx' => hdst x (by omega) ?_, h₂.congr hL fun x hx => hm x ?_, h₃⟩
      · rw [hL.length] at hx'
        have : 4 * L.width * (j + 1) ≤ 4 * L.width * kids.length := Nat.mul_le_mul_left _ hj
        rw [Nat.mul_add, Nat.mul_one] at this
        omega
      · exact List.mem_cons_of_mem _ (List.mem_flatMap.mpr ⟨kids[j], List.getElem_mem hj, hx⟩)
    · rw [hdst x (by omega) (by omega)]
      exact hzero x h₁ h₂
    · rw [← hback hb]
      refine word_congr fun x h₁ h₂ => hdst x (by omega) (by simp only [PTR_SIZE] at hroom h₂; omega)

/-! ## Blocks that are taken -/

/-- The counter of reserved blocks after `k` blocks were taken out of it. -/
def drawn (reserved : Bool) (k n : Nat) : Nat := if reserved then n - k else n

def take_block (c : Device) (reserved : Bool) (d : Disk) : Except Fail (Nat × Disk) :=
  if reserved then get_reserved_block c d
  else
    match get_zero_block c d with
    | .error _ => .error .BUG
    | .ok r => .ok r

/-- `d'` has the blocks `bs` in use that were free on `d`. -/
structure Taken (c : Device) (reserved : Bool) (d d' : Disk) (bs : List Nat) : Prop where
  free : ∀ b ∈ bs, d.amap b = false ∧ b ≠ 0
  inside : ∀ b ∈ bs, b < c.total_blocks ∧ c.label ≤ b * c.blksize
  nodup : bs.Nodup
  amap : ∀ b, d'.amap b = true ↔ d.amap b = true ∨ b ∈ bs
  used : d'.used_blocks = d.used_blocks + bs.length
  reserved : d'.reserved_blocks = drawn reserved bs.length d.reserved_blocks
  room : bs ≠ [] → d'.used_blocks ≤ c.total_blocks

theorem Taken.refl (r : Bool) (d : Disk) : Taken c r d d [] := by
  refine ⟨fun b h => absurd h (by simp), fun b h => absurd h (by simp), List.nodup_nil, fun b =>
    by simp, rfl, ?_, fun h => absurd rfl h⟩
  simp [drawn]

theorem Taken.trans {r : Bool} {d d₁ d₂ : Disk} {as bs : List Nat} (h₁ : Taken c r d d₁ as)
    (h₂ : Taken c r d₁ d₂ bs) :
    Taken c r d d₂ (as ++ bs) := by
  have hdisj : ∀ b ∈ bs, d.amap b = false ∧ b ∉ as := by
    intro b hb
    have hf := (h₂.free b hb).1
    have : ¬ (d.amap b = true ∨ b ∈ as) := fun h => by
      rw [(h₁.amap b).mpr h] at hf
      cases hf
    rw [not_or] at this
    exact ⟨by simpa using this.1, this.2⟩
  refine ⟨?_, ?_, ?_, fun b => ?_, ?_, ?_, fun _ => ?_⟩
  · intro b hb
    rcases List.mem_append.mp hb with hb | hb
    · exact h₁.free b hb
    · exact ⟨(hdisj b hb).1, (h₂.free b hb).2⟩
  · intro b hb
    rcases List.mem_append.mp hb with hb | hb
    · exact h₁.inside b hb
    · exact h₂.inside b hb
  · exact List.Nodup.append h₁.nodup h₂.nodup fun b ha hb => (hdisj b hb).2 ha
  · rw [h₂.amap, h₁.amap, List.mem_append, or_assoc]
  · rw [h₂.used, h₁.used, List.length_append, Nat.add_assoc]
  · rw [h₂.reserved, h₁.reserved, List.length_append]
    unfold drawn
    split
    · omega
    · rfl
  · by_cases hb : bs = []
    · subst hb
      have hu := h₂.used
      simp only [List.append_nil] at *
      rw [hu]
      exact h₁.room ‹_›
    · exact h₂.room hb

theorem Taken.mem {r : Bool} {d d' : Disk} {bs : List Nat} (h : Taken c r d d' bs) (m m' : Mem) :
    Taken c r { d with mem := m } { d' with mem := m' } bs :=
  ⟨h.free, h.inside, h.nodup, h.amap, h.used, h.reserved, h.room⟩

theorem writeWords_ok {d d' : Disk} {addr : Nat} {vs : List Nat} (h : writeWords c d addr vs = .ok d') :
    d' = { d with mem := setWords d.mem addr vs } := by
  obtain ⟨_, -, h⟩ := bind_eq_ok h
  cases h
  rfl

theorem access_label {n addr : Nat} (h : access c n addr = .ok ()) : c.label ≤ addr := by
  unfold access at h
  split at h
  · cases h
  · split at h
    · cases h
    · omega

theorem get_zero_block_ok {d d' : Disk} {addr : Nat} (h : get_zero_block c d = .ok (addr, d')) :
    ∃ b, addr = b * c.blksize ∧ d.amap b = false ∧ b ≠ 0 ∧ (b < c.total_blocks ∧ c.label ≤ b * c.blksize) ∧
      d.used_blocks < c.total_blocks ∧
      d' = { mem := zero d.mem addr c.blksize, amap := Function.update d.amap b true,
             used_blocks := d.used_blocks + 1, reserved_blocks := d.reserved_blocks } := by
  obtain ⟨⟨a, d₁⟩, h₁, h⟩ := bind_eq_ok h
  obtain ⟨_, hacc, h⟩ := bind_eq_ok h
  cases h
  unfold get_free_block at h₁
  split at h₁
  · cases h₁
  · rename_i hroom
    split at h₁
    · cases h₁
    · cases h₁
    · rename_i b hb0 hb
      cases h₁
      have hfree := List.find?_some hb
      have hmem := List.mem_of_find?_eq_some hb
      refine ⟨b, rfl, by simpa using hfree, fun h => hb0 (h ▸ rfl), ⟨List.mem_range.mp hmem, ?_⟩, by omega, rfl⟩
      exact access_label hacc

theorem take_block_ok {r : Bool} {d d' : Disk} {addr : Nat} (h : take_block c r d = .ok (addr, d')) :
    ∃ b, addr = b * c.blksize ∧ Taken c r d d' [b] ∧ d'.mem = zero d.mem addr c.blksize := by
  have key : ∀ {n : Nat} {d'' : Disk}, get_zero_block c { d with reserved_blocks := n } = .ok (addr, d'') →
      n = drawn r 1 d.reserved_blocks →
      ∃ b, addr = b * c.blksize ∧ Taken c r d d'' [b] ∧ d''.mem = zero d.mem addr c.blksize := by
    intro n d'' h hn
    obtain ⟨b, rfl, hf, h0, hlt, hroom, rfl⟩ := get_zero_block_ok h
    refine ⟨b, rfl, ⟨?_, ?_, by simp, ?_, rfl, hn, fun _ => hroom⟩, rfl⟩
    · intro b' hb'
      rw [List.mem_singleton.mp hb']
      exact ⟨hf, h0⟩
    · intro b' hb'
      rw [List.mem_singleton.mp hb']
      exact hlt
    · intro b'
      by_cases hb : b' = b
      · simp [hb]
      · simp [hb]
  unfold take_block at h
  cases r with
  | true =>
    simp only [if_true, get_reserved_block] at h
    split at h
    · cases h
    · rename_i res hres
      cases h
      exact key hres rfl
  | false =>
    simp only [Bool.false_eq_true, if_false] at h
    split at h
    · cases h
    · rename_i res hres
      cases h
      exact key (n := d.reserved_blocks) hres rfl

/-! ## Writing a tree -/

/-- What rewriting a block at `level` does, for a block that is in use and empty. -/
def Rewrites (c : Device) (L : PtrLayout) (r : Bool) (level : Nat) : Prop :=
  ∀ (dst start : Nat) (d d' : Disk), rewrite_pointer_block c L (take_block c r) level dst start d = .ok d' →
    (level ≠ 0 → dst % c.blksize = 0 ∧ dst ≠ 0 ∧ d.amap (dst / c.blksize) = true ∧
      ∀ x, x / c.blksize = dst / c.blksize → d.mem x = 0) →
    ∃ bs, Tree c L d'.mem level dst start bs ∧ (level ≠ 0 → bs.head? = some (dst / c.blksize)) ∧
      Taken c r d d' bs.tail ∧ ∀ x, x / c.blksize ∉ bs → d'.mem x = d.mem x

theorem Tree.zero_nil {m : Mem} {dst start : Nat} {bs : List Nat} (h : Tree c L m 0 dst start bs) : bs = [] := h

section
variable (hL : L.Ok c) {r : Bool} {level : Nat} (hchild : Rewrites c L r level)

theorem block_ptr_lt (addr : Nat) : block_ptr c addr < 4294967296 := by
  unfold block_ptr
  split
  · omega
  · exact Nat.mod_lt _ (by decide)

theorem holds_setWords {m : Mem} {a : Nat} {vs : List Nat} (h : ∀ v ∈ vs, v < 4294967296) :
    Holds (setWords m a vs) a vs := fun _ hi => wordAt_setWords hi (h _ (List.getElem_mem hi))

include hL hchild in
theorem rewrite_entry_spec {base p i : Nat} {d d' : Disk} (hal : base % c.blksize = 0)
    (h : rewrite_entry c L (take_block c r) (rewrite_pointer_block c L (take_block c r) level) level i p d = .ok d')
    (hp : base ≤ p) (hp' : p + 4 * L.width ≤ base + c.blksize) (hused : d.amap (base / c.blksize) = true) :
    ∃ addr bs, Holds d'.mem p (L.ptr (level + 1) i (block_ptr c addr)) ∧
      Tree c L d'.mem level addr (i * L.ptr_per_block) bs ∧ (level = 0 → addr = L.leaf i) ∧ Taken c r d d' bs ∧
      ∀ x, x / c.blksize ∉ bs → (x < p ∨ p + 4 * L.width ≤ x) → d'.mem x = d.mem x := by
  have hblk : 0 < c.blksize := Nat.lt_trans (by decide : 0 < PTR_SIZE) hL.room
  unfold rewrite_entry at h
  obtain ⟨⟨addr, d₁⟩, h₁, h⟩ := bind_eq_ok h
  obtain ⟨d₂, h₂, h⟩ := bind_eq_ok h
  have hd₂ := writeWords_ok h₂
  have halloc : ∃ as, Taken c r d d₁ as ∧ (∀ x, x / c.blksize ∉ as → d₁.mem x = d.mem x) ∧
      (level = 0 → as = [] ∧ addr = L.leaf i) ∧
      (level ≠ 0 → as = [addr / c.blksize] ∧ addr % c.blksize = 0 ∧ addr ≠ 0 ∧
        ∀ x, x / c.blksize = addr / c.blksize → d₁.mem x = 0) := by
    by_cases h0 : level = 0
    · rw [entry_block, if_pos h0] at h₁
      cases h₁
      exact ⟨[], Taken.refl r d, fun _ _ => rfl, fun _ => ⟨rfl, rfl⟩, fun h => absurd h0 h⟩
    · rw [entry_block, if_neg h0] at h₁
      obtain ⟨b, rfl, ht, hm⟩ := take_block_ok h₁
      have hdiv : b * c.blksize / c.blksize = b := Nat.mul_div_cancel b hblk
      have hmod : b * c.blksize % c.blksize = 0 := Nat.mul_mod_left ..
      refine ⟨[b], ht, fun x hx => ?_, fun h => absurd h h0, fun _ => ⟨by rw [hdiv], hmod, ?_, fun x hx => ?_⟩⟩
      · rw [hm, zero, if_neg]
        intro hin
        apply hx
        rw [(div_eq_iff_block hblk hmod).mpr hin, hdiv]
        exact List.mem_singleton.mpr rfl
      · exact Nat.mul_ne_zero (ht.free b (List.mem_singleton.mpr rfl)).2 (by omega)
      · rw [hm, zero, if_pos ((div_eq_iff_block hblk hmod).mp hx)]
  obtain ⟨as, htake, hframe, hleaf, hinner⟩ := halloc
  have hB : base / c.blksize ∉ as := fun hin => by
    have := (htake.free _ hin).1
    rw [hused] at this
    cases this
  have hlen : ∀ next, (L.ptr (level + 1) i next).length = L.width := hL.length _ _
  have hwrite : ∀ x, x < p ∨ p + 4 * L.width ≤ x → d₂.mem x = d₁.mem x := by
    intro x hx
    rw [hd₂]
    exact setWords_other (by rw [hlen]; exact hx)
  have hinB : ∀ x, p ≤ x → x < p + 4 * L.width → x / c.blksize = base / c.blksize := fun x h₁ h₂ =>
    (div_eq_iff_block hblk hal).mpr ⟨by omega, by omega⟩
  have hpre : level ≠ 0 → addr % c.blksize = 0 ∧ addr ≠ 0 ∧ d₂.amap (addr / c.blksize) = true ∧
      ∀ x, x / c.blksize = addr / c.blksize → d₂.mem x = 0 := by
    intro h0
    obtain ⟨has, hmod, hne, hz⟩ := hinner h0
    refine ⟨hmod, hne, ?_, fun x hx => ?_⟩
    · rw [hd₂]
      exact (htake.amap _).mpr (.inr (has ▸ List.mem_singleton.mpr rfl))
    · rw [hwrite x, hz x hx]
      by_contra hin
      have := hinB x (by omega) (by omega)
      apply hB
      rw [has, ← this, hx]
      exact List.mem_singleton.mpr rfl
  obtain ⟨bs, htree, hhead, htail, hsame⟩ := hchild _ _ _ _ h hpre
  have hbs : as ++ bs.tail = bs := by
    by_cases h0 : level = 0
    · subst h0
      rw [htree.zero_nil, (hleaf rfl).1]
      rfl
    · rw [(hinner h0).1]
      have := hhead h0
      cases bs with
      | nil => cases this
      | cons b bs => cases this; rfl
  have hd₂t : Taken c r d d₂ as := by
    rw [hd₂]
    exact htake.mem d.mem _
  refine ⟨addr, bs, ?_, htree, fun h0 => (hleaf h0).2, ?_, fun x hx hout => ?_⟩
  · have hhold : Holds d₂.mem p (L.ptr (level + 1) i (block_ptr c addr)) := by
      rw [hd₂]
      exact holds_setWords (hL.small _ _ _ (block_ptr_lt addr))
    refine hhold.congr fun x hx hx' => hsame x ?_
    rw [hlen] at hx'
    rw [hinB x hx hx', ← hbs]
    intro hin
    rcases List.mem_append.mp hin with hin | hin
    · exact hB hin
    · have := (htail.free _ hin).1
      rw [(hd₂t.amap _).mpr (.inl hused)] at this
      cases this
  · rw [← hbs]
    exact hd₂t.trans htail
  · rw [hsame x hx, hwrite x hout]
    apply hframe
    rw [← hbs] at hx
    exact fun hin => hx (List.mem_append_left _ hin)

include hL hchild in
/-- The loop over the entries, from the entry number `j` on; `base` is the start of the block. -/
theorem rewrite_entries_spec {base : Nat} (hal : base % c.blksize = 0) :
    ∀ {left i j : Nat} {d d' : Disk},
      rewrite_entries c L (take_block c r) (rewrite_pointer_block c L (take_block c r) level) level left i
        (base + 4 * L.width * j) d = .ok d' →
      4 * L.width * (j + left) ≤ c.blksize → d.amap (base / c.blksize) = true →
      (∀ x, base + 4 * L.width * j ≤ x → x < base + c.blksize → d.mem x = 0) →
      ∃ kids : List (Nat × List Nat), kids.length = left ∧
        (∀ k (h : k < kids.length),
          Holds d'.mem (base + 4 * L.width * (j + k)) (L.ptr (level + 1) (i + k) (block_ptr c kids[k].1)) ∧
          Tree c L d'.mem level kids[k].1 ((i + k) * L.ptr_per_block) kids[k].2 ∧
          (level = 0 → kids[k].1 = L.leaf (i + k))) ∧
        Taken c r d d' (kids.flatMap (·.2)) ∧
        (∀ x, x / c.blksize ≠ base / c.blksize → x / c.blksize ∉ kids.flatMap (·.2) → d'.mem x = d.mem x) ∧
        (∀ x, base ≤ x → x < base + 4 * L.width * j → d'.mem x = d.mem x) ∧
        (∀ x, base + 4 * L.width * (j + left) ≤ x → x < base + c.blksize → d'.mem x = 0)
  | 0, i, j, d, d', h, _, _, hz => by
    cases h
    refine ⟨[], rfl, fun k hk => absurd hk (by simp), Taken.refl r d, fun _ _ _ => rfl, fun _ _ _ => rfl, hz⟩
  | left + 1, i, j, d, d', h, hfit, hused, hz => by
    have hblk : 0 < c.blksize := Nat.lt_trans (by decide : 0 < PTR_SIZE) hL.room
    have hstep : 4 * L.width * (j + 1) = 4 * L.width * j + 4 * L.width := by rw [Nat.mul_add, Nat.mul_one]
    have hle : 4 * L.width * (j + 1) ≤ 4 * L.width * (j + (left + 1)) := Nat.mul_le_mul_left _ (by omega)
    obtain ⟨d₁, h₁, h₂⟩ := bind_eq_ok h
    obtain ⟨addr, bs, hhold, htree, hleaf, htake, hsame⟩ :=
      rewrite_entry_spec hL hchild hal h₁ (by omega) (by omega) hused
    have hB : base / c.blksize ∉ bs := fun hin => by
      have := (htake.free _ hin).1
      rw [hused] at this
      cases this
    have hin : ∀ x, base ≤ x → x < base + c.blksize → x / c.blksize = base / c.blksize := fun x h₁ h₂ =>
      (div_eq_iff_block hblk hal).mpr ⟨h₁, h₂⟩
    rw [Nat.add_assoc, ← hstep] at h₂
    obtain ⟨kids, hlen, hkids, htakes, hout, hlow, hzero⟩ := rewrite_entries_spec hal h₂ (by
        rw [show j + 1 + left = j + (left + 1) by omega]; exact hfit) ((htake.amap _).mpr (.inl hused))
      fun x h₁ h₂ => by
        rw [hsame x (by rw [hin x (by omega) h₂]; exact hB) (by omega)]
        exact hz x (by omega) h₂
    have hlater : ∀ b ∈ kids.flatMap (·.2), b ∉ bs := by
      intro b hb hb'
      have := (htakes.free b hb).1
      rw [(htake.amap b).mpr (.inr hb')] at this
      cases this
    refine ⟨(addr, bs) :: kids, by rw [List.length_cons, hlen], fun k hk => ?_, ?_, fun x hx hx' => ?_,
      fun x h₁ h₂ => ?_, ?_⟩
    · cases k with
      | zero =>
        refine ⟨?_, htree.congr hL fun x hx => hout x ?_ ?_, hleaf⟩
        · refine hhold.congr fun x h₁ h₂ => hlow x (by omega) ?_
          rw [hL.length] at h₂
          omega
        · exact fun heq => hB (heq ▸ hx)
        · exact fun hm => hlater _ hm hx
      | succ k =>
        obtain ⟨g₁, g₂, g₃⟩ := hkids k (Nat.lt_of_succ_lt_succ hk)
        rw [show j + (k + 1) = j + 1 + k by omega, show i + (k + 1) = i + 1 + k by omega]
        exact ⟨g₁, g₂, g₃⟩
    · exact htake.trans htakes
    · rw [List.flatMap_cons, List.mem_append, not_or] at hx'
      rw [hout x hx hx'.2, hsame x hx'.1]
      by_contra hc
      exact hx (hin x (by omega) (by omega))
    · rw [hlow x h₁ (by omega), hsame x (by rw [hin x h₁ (by omega)]; exact hB) (.inl h₂)]
    · rw [show j + (left + 1) = j + 1 + left by omega]
      exact hzero

end

theorem rewrites (hL : L.Ok c) (r : Bool) : ∀ level, Rewrites c L r level
  | 0 => by
    intro dst start d d' h _
    cases h
    exact ⟨[], rfl, fun h => absurd rfl h, Taken.refl r d, fun _ _ => rfl⟩
  | level + 1 => by
    intro dst start d d' h hpre
    obtain ⟨hal, h0, hused, hz⟩ := hpre (Nat.succ_ne_zero _)
    have hblk : 0 < c.blksize := Nat.lt_trans (by decide : 0 < PTR_SIZE) hL.room
    have hin := fun x => @div_eq_iff_block c.blksize dst x hblk hal
    unfold rewrite_pointer_block at h
    simp only at h
    split at h
    · cases h
    · obtain ⟨d₁, h₁, h⟩ := bind_eq_ok h
      have hstop : L.stop level start - start ≤ L.ptr_per_block := by rw [PtrLayout.stop]; omega
      have hfit : 4 * L.width * (L.stop level start - start) ≤ L.room c :=
        Nat.le_trans (Nat.mul_le_mul_left _ hstop) hL.fits
      have hroom : L.room c ≤ c.blksize := Nat.sub_le ..
      obtain ⟨kids, hlen, hkids, htake, hout, -, hzero⟩ :=
        rewrite_entries_spec (j := 0) hL (rewrites hL r level) hal h₁
        (by rw [Nat.zero_add]; exact Nat.le_trans hfit hroom) hused
        (fun x h₁ h₂ => hz x ((hin x).mpr ⟨by omega, h₂⟩))
      change kids.length = L.stop level start - start at hlen
      simp only [Nat.zero_add] at hkids hzero
      have hB : dst / c.blksize ∉ kids.flatMap (·.2) := fun hm => by
        have := (htake.free _ hm).1
        rw [hused] at this
        cases this
      -- the last step touches at most the end of the block
      have hclose : d'.amap = d₁.amap ∧ d'.used_blocks = d₁.used_blocks ∧ d'.reserved_blocks = d₁.reserved_blocks ∧
          (∀ x, x < dst + L.room c ∨ dst + c.blksize ≤ x → d'.mem x = d₁.mem x) ∧
          (L.back = true → wordAt d'.mem (dst + c.blksize - PTR_SIZE) 0 = (kids.length - 1) * VPTR_SIZE) := by
        by_cases hb : L.back = true
        · rw [if_pos hb] at h
          have hd' := writeWords_ok h
          have hr : L.room c = c.blksize - PTR_SIZE := by rw [PtrLayout.room, if_pos hb]
          have hlast : (dst + 4 * L.width * (L.stop level start - start)) / c.blksize = dst / c.blksize := by
            rw [hin]
            have := hL.room
            simp only [PTR_SIZE] at this hr
            omega
          have hend : (dst / c.blksize + 1) * c.blksize = dst + c.blksize := by
            rw [Nat.add_mul, Nat.one_mul, Nat.div_mul_cancel (Nat.dvd_of_mod_eq_zero hal)]
          change d' = Disk.mk (setWords d₁.mem
            (((dst + 4 * L.width * (L.stop level start - start)) / c.blksize + 1) * c.blksize - PTR_SIZE)
            [(L.stop level start - start - 1) * VPTR_SIZE]) d₁.amap d₁.used_blocks d₁.reserved_blocks at hd'
          rw [hlast, hend] at hd'
          have hP := hL.room
          simp only [PTR_SIZE] at hP hr
          rw [hd']
          refine ⟨rfl, rfl, rfl, fun x hx => setWords_other ?_, fun _ => ?_⟩
          · simp only [PTR_SIZE, List.length_cons, List.length_nil]
            omega
          · rw [hlen]
            refine @wordAt_setWords _ [(L.stop level start - start - 1) * VPTR_SIZE] _ 0 (by simp) ?_
            have h₁ := hL.fits
            have h₂ := hL.bound
            have h₃ : 1 * L.ptr_per_block ≤ 4 * L.width * L.ptr_per_block :=
              Nat.mul_le_mul_right _ (by have := hL.width; omega)
            simp only [VPTR_SIZE, List.getElem_cons_zero]
            omega
        · rw [if_neg hb] at h
          cases h
          exact ⟨rfl, rfl, rfl, fun _ _ => rfl, fun h => absurd h hb⟩
      obtain ⟨hamap, hu, hres, hsame, hback⟩ := hclose
      have hother : ∀ x, x / c.blksize ≠ dst / c.blksize → d'.mem x = d₁.mem x := by
        intro x hx
        apply hsame
        by_contra hc
        exact hx ((hin x).mpr ⟨by omega, by omega⟩)
      refine ⟨dst / c.blksize :: kids.flatMap (·.2),
        ⟨hal, h0, kids, hlen, fun k hk => ?_, fun x h₁ h₂ => ?_, hback, rfl⟩,
        fun _ => rfl, ?_, fun x hx => ?_⟩
      · obtain ⟨g₁, g₂, g₃⟩ := hkids k hk
        refine ⟨g₁.congr fun x _ hx => hsame x (.inl ?_), g₂.congr hL fun x hx => hother x fun heq => hB ?_, g₃⟩
        · rw [hL.length] at hx
          have : 4 * L.width * (k + 1) ≤ 4 * L.width * (L.stop level start - start) :=
            Nat.mul_le_mul_left _ (by omega)
          rw [Nat.mul_add, Nat.mul_one] at this
          omega
        · rw [← heq]
          exact List.mem_flatMap.mpr ⟨kids[k], List.getElem_mem hk, hx⟩
      · rw [hsame x (.inl h₂)]
        apply hzero x
        · change dst + 4 * L.width * (L.stop level start - start) ≤ x
          rw [← hlen]
          exact h₁
        · omega
      · refine ⟨htake.free, htake.inside, htake.nodup, fun b => ?_, by rw [hu]; exact htake.used,
          by rw [hres]; exact htake.reserved,
          fun h => by rw [hu]; exact htake.room h⟩
        rw [hamap]
        exact htake.amap b
      · rw [List.mem_cons, not_or] at hx
        rw [hother x hx.1, hout x hx.1 hx.2]

end Cmsfs
