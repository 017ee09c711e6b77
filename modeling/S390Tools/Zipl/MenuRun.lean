import S390Tools.Zipl.Menu

/-!
# What the loader reads from the menu data

The texts stand one behind the other after the parameters, so that every later
write leaves them alone. The mask of the kdump entries is indexed by the place
of an entry in the file.
-/

namespace Zipl.Menu

open Stdio Splice Word

set_option maxRecDepth 20000

/-! ## Characters -/

theorem ascebc_ne_zero : ∀ c ∈ ascebc.tail, c ≠ 0 := List.all_iff_forall_prop.mp (by decide +kernel)

theorem to_ebcdic_ne_zero {c : UInt8} (h : c ≠ 0) : to_ebcdic c ≠ 0 := by
  have hlt := c.toNat_lt
  have hc : c.toNat ≠ 0 := fun h0 => h (UInt8.toNat_inj.mp h0)
  obtain ⟨k, hk⟩ := Nat.exists_eq_succ_of_ne_zero hc
  have hlen : k < ascebc.tail.length := by
    have : ascebc.tail.length = 255 := rfl
    omega
  refine ascebc_ne_zero _ ?_
  rw [to_ebcdic, hk, List.getD_eq_getElem?_getD, ← List.getElem?_tail, List.getElem?_eq_getElem hlen]
  exact List.getElem_mem hlen

theorem ebcdic_no_nul {s : Bytes} (h : ∀ c ∈ s, c ≠ 0) : ∀ c ∈ misc_ascii_to_ebcdic s, c ≠ 0 := by
  intro c hc
  obtain ⟨d, hd, rfl⟩ := List.mem_map.mp hc
  exact to_ebcdic_ne_zero (h d hd)

@[simp] theorem length_ebcdic (s : Bytes) : (misc_ascii_to_ebcdic s).length = s.length := List.length_map ..

theorem decimal2_small : ∀ n < 31, (decimal2 n).length = 2 ∧ ∀ c ∈ decimal2 n, c ≠ 0 := by
  have hall : ∀ n < 31, (decimal2 n).length = 2 ∧ (decimal2 n).all (fun c => decide (c ≠ 0)) =
    true := by decide +kernel
  exact fun n hn => ⟨(hall n hn).1, List.all_iff_forall_prop.mp (hall n hn).2⟩

theorem no_nul_append {s t : Bytes} (hs : ∀ c ∈ s, c ≠ 0) (ht : ∀ c ∈ t, c ≠ 0) : ∀ c ∈ s ++ t, c ≠ 0 := by
  intro c hc
  rcases List.mem_append.mp hc with hc | hc
  · exact hs c hc
  · exact ht c hc

/-! ## Texts in the buffer -/

/-- The text stands at offset `o`, with its terminating zero. -/
structure HasText (d : Bytes) (o : Nat) (t : Bytes) : Prop where
  no_nul : ∀ c ∈ t, c ≠ 0
  stands : slice d o (t.length + 1) = t ++ [0]

theorem HasText.drop_eq {d t : Bytes} {o : Nat} (h : HasText d o t) : ∃ rest, d.drop o = t ++ 0 :: rest := by
  refine ⟨(d.drop o).drop (t.length + 1), ?_⟩
  have hs := h.stands
  rw [slice] at hs
  conv_lhs => rw [← List.take_append_drop (t.length + 1) (d.drop o), hs]
  rw [List.append_assoc, List.singleton_append]

theorem HasText.string_at {d t : Bytes} {o k : Nat} (h : HasText d o t) (hk : k ≤ t.length) :
    string_at d (o + k) = t.drop k := by
  obtain ⟨rest, hd⟩ := h.drop_eq
  rw [Menu.string_at, ← List.drop_drop, hd, List.drop_append_of_le_length hk,
    CString.str_append fun c hc => h.no_nul c (List.mem_of_mem_drop hc)]
  exact List.append_nil _

theorem mb_sprintf_spec {mb mb' : MenuBuffer} {s : Bytes} {str : Nat} (h : mb_sprintf mb s = some (str, mb')) :
    str = mb.off ∧ mb.off + s.length + 1 ≤ mb.size ∧
      mb' = ⟨splice mb.start mb.off (misc_ascii_to_ebcdic s ++ [0]), mb.off + s.length + 1⟩ := by
  unfold mb_sprintf at h
  split at h
  · cases h
  rename_i hroom
  unfold mb_alloc at h
  split at h
  · cases h
  cases h
  exact ⟨rfl, by omega, rfl⟩

/-- What stays as it is behind the parameters while the buffer grows. -/
structure Grown (mb mb' : MenuBuffer) : Prop where
  size : mb'.size = mb.size
  off : mb.off ≤ mb'.off
  room : mb'.off ≤ mb'.size
  behind : ∀ {k n}, Boot.params_size ≤ k → k + n ≤ mb.off → slice mb'.start k n = slice mb.start k n

theorem Grown.trans {a b c : MenuBuffer} (h : Grown a b) (h' : Grown b c) : Grown a c where
  size := h'.size.trans h.size
  off := Nat.le_trans h.off h'.off
  room := h'.room
  behind := fun hk hn => (h'.behind hk (Nat.le_trans hn h.off)).trans (h.behind hk hn)

theorem Grown.hasText {mb mb' : MenuBuffer} (h : Grown mb mb') {o : Nat} {t : Bytes} (ho : Boot.params_size ≤ o)
    (hlen : o + t.length + 1 ≤ mb.off) (ht : HasText mb.start o t) : HasText mb'.start o t where
  no_nul := ht.no_nul
  stands := (h.behind ho (by omega)).trans ht.stands

theorem size_splice {mb : MenuBuffer} {o : Nat} {bs : Bytes} (h : o + bs.length ≤ mb.size) :
    (splice mb.start o bs).length = mb.size := length_splice h

theorem grown_store {mb : MenuBuffer} (hroom : mb.off ≤ mb.size) {o : Nat} {r : Bytes}
    (h : o + r.length ≤ Boot.params_size) (hoff : Boot.params_size ≤ mb.off) : Grown mb (mb.store o r) where
  size := size_splice (Nat.le_trans h (Nat.le_trans hoff hroom))
  off := Nat.le_refl _
  room := Nat.le_trans hroom (Nat.le_of_eq (size_splice (Nat.le_trans h (Nat.le_trans hoff hroom))).symm)
  behind := fun hk _ => slice_splice_apart
    (by have := Nat.le_trans hoff hroom; unfold MenuBuffer.size at this; omega)
    (Or.inr (Nat.le_trans h hk))

theorem grown_sprintf {mb mb' : MenuBuffer} {s : Bytes} {str : Nat} (h : mb_sprintf mb s = some (str, mb')) :
    Grown mb mb' := by
  obtain ⟨-, hroom, rfl⟩ := mb_sprintf_spec h
  have hlen : mb.off + (misc_ascii_to_ebcdic s ++ [0]).length ≤ mb.size := by simp; omega
  refine ⟨size_splice hlen, ?_, Nat.le_trans hroom (Nat.le_of_eq (size_splice hlen).symm), fun _ hn =>
    slice_splice_apart (by unfold MenuBuffer.size at hlen; omega) (Or.inl hn)⟩
  show mb.off ≤ mb.off + s.length + 1
  omega

theorem hasText_sprintf {mb mb' : MenuBuffer} {s : Bytes} {str : Nat} (h : mb_sprintf mb s = some (str, mb'))
    (hs : ∀ c ∈ s, c ≠ 0) : HasText mb'.start str (misc_ascii_to_ebcdic s) ∧ mb'.off = str + s.length + 1 := by
  obtain ⟨rfl, hroom, rfl⟩ := mb_sprintf_spec h
  have hoff : mb.off ≤ mb.start.length := by unfold MenuBuffer.size at hroom; omega
  refine ⟨⟨ebcdic_no_nul hs, ?_⟩, rfl⟩
  have := slice_splice_self (r := misc_ascii_to_ebcdic s ++ [0]) hoff
  rwa [List.length_append, List.length_singleton] at this

/-! ## Fields of the parameters -/

theorem sprintf_field {mb mb' : MenuBuffer} {s : Bytes} {str k n : Nat} (h : mb_sprintf mb s = some (str, mb'))
    (hk : k + n ≤ mb.off) : slice mb'.start k n = slice mb.start k n := by
  obtain ⟨-, hroom, rfl⟩ := mb_sprintf_spec h
  exact slice_splice_apart (by unfold MenuBuffer.size at hroom; omega) (Or.inl hk)

theorem store_field {mb : MenuBuffer} {o k n : Nat} {bs : Bytes} (ho : o ≤ mb.size)
    (h : k + n ≤ o ∨ o + bs.length ≤ k) : slice (mb.store o bs).start k n = slice mb.start k n :=
  slice_splice_apart ho h

theorem config_store {mb : MenuBuffer} {p v : Nat} (h : Boot.config_offset p ≤ mb.size) (hv : v < 65536) :
    config (mb.store (Boot.config_offset p) (be 2 (u16 v))).start p = v := by
  have hs := slice_splice_self (d := mb.start) (r := be 2 (u16 v)) h
  rw [length_be] at hs
  rw [config, show 6 + 2 * p = Boot.config_offset p from rfl, MenuBuffer.store, hs, unbe_be,
    u16_of_lt (by omega) (by omega)]
  exact Nat.mod_eq_of_lt hv

theorem config_store_ne {mb : MenuBuffer} {p q v : Nat} (h : Boot.config_offset p ≤ mb.size) (hpq : p ≠ q) :
    config (mb.store (Boot.config_offset p) (be 2 v)).start q = config mb.start q := by
  rw [config, config, store_field h (by rw [length_be]; unfold Boot.config_offset; omega)]

/-! ## The entries -/

structure Shown (d : Bytes) (p : Nat) (t : Bytes) : Prop where
  behind : Boot.params_size ≤ config d p
  text : HasText d (config d p) t

theorem kdump_str_no_nul (e : JobMenuEntry) : ∀ c ∈ kdump_str e, c ≠ 0 := by
  unfold kdump_str
  split
  · exact List.all_iff_forall_prop.mp (by decide)
  · intro c hc
    cases hc

theorem entry_text_no_nul {e : JobMenuEntry} (he : e.pos < 31) : ∀ c ∈ entry_text e, c ≠ 0 :=
  no_nul_append (no_nul_append (no_nul_append (decimal2_small _ he).2
    (List.all_iff_forall_prop.mp (by decide))) e.name.no_nul) (kdump_str_no_nul e)

theorem config_offset_lt {p : Nat} (hp : p < 31) : Boot.config_offset p + 2 ≤ Boot.config_kdump_offset := by
  unfold Boot.config_kdump_offset Boot.config_offset Boot.BOOT_MENU_ENTRIES
  omega

theorem config_field {p : Nat} (hp : p < BOOT_MENU_ENTRIES) : 6 + 2 * p + 2 ≤ Boot.params_size := by
  unfold BOOT_MENU_ENTRIES at hp
  unfold Boot.params_size Boot.config_kdump_offset Boot.config_offset Boot.BOOT_MENU_ENTRIES
  omega

theorem store_entries_spec : ∀ {es : List JobMenuEntry} {mb mb' : MenuBuffer}, store_entries es mb = some mb' →
    Boot.params_size ≤ mb.off → mb.off ≤ mb.size → mb.size ≤ STAGE2_MAX_SIZE → (∀ e ∈ es, e.pos < 31) →
    (es.map JobMenuEntry.pos).Nodup →
    Grown mb mb' ∧ (∀ e ∈ es, Shown mb'.start e.pos (misc_ascii_to_ebcdic (entry_text e))) ∧
      (∀ p < BOOT_MENU_ENTRIES, p ∉ es.map JobMenuEntry.pos → config mb'.start p = config mb.start p) ∧
      slice mb'.start Boot.config_kdump_offset 8 = slice mb.start Boot.config_kdump_offset 8
  | [], mb, _, h, _, hroom, _, _, _ => by
    cases h
    exact ⟨⟨rfl, Nat.le_refl _, hroom, fun _ _ => rfl⟩, List.forall_mem_nil _, fun _ _ _ => rfl, rfl⟩
  | e :: es, mb, mb', h, hoff, hroom, hmax, hpos, hnd => by
    rw [store_entries] at h
    cases hs : mb_sprintf mb (entry_text e) with
    | none => rw [hs] at h; cases h
    | some r =>
      obtain ⟨str, mb₁⟩ := r
      rw [hs] at h
      have hp := hpos e List.mem_cons_self
      have hg := grown_sprintf hs
      obtain ⟨ht, hoff₁⟩ := hasText_sprintf hs (entry_text_no_nul hp)
      have hstr : str = mb.off := (mb_sprintf_spec hs).1
      have hfield := config_offset_lt hp
      have hsize : Boot.params_size ≤ mb₁.off := Nat.le_trans hoff hg.off
      have hin : Boot.config_offset e.pos ≤ mb₁.size := by
        have := hg.room
        unfold Boot.params_size at hsize
        omega
      have hg₂ : Grown mb₁ (mb₁.store (Boot.config_offset e.pos) (be 2 (u16 str))) :=
        grown_store hg.room (by rw [length_be]; unfold Boot.params_size; omega) hsize
      rw [List.map_cons, List.nodup_cons] at hnd
      obtain ⟨hg₃, hshown, hother, hmask⟩ := store_entries_spec h (Nat.le_trans hsize hg₂.off) hg₂.room
        (by rw [hg₂.size, hg.size]; exact hmax) (fun f hf => hpos f (List.mem_cons_of_mem _ hf)) hnd.2
      have hbound : str < 65536 := by
        have := hg.room
        rw [hg.size] at this
        unfold STAGE2_MAX_SIZE at hmax
        omega
      have hconf : config mb'.start e.pos = str :=
        (hother _ (by unfold BOOT_MENU_ENTRIES; omega) hnd.1).trans (config_store hin hbound)
      refine ⟨(hg.trans hg₂).trans hg₃, ?_, ?_, ?_⟩
      · intro f hf
        rcases List.mem_cons.mp hf with rfl | hf
        · refine ⟨by rw [hconf, hstr]; exact hoff, ?_⟩
          rw [hconf]
          exact (hg₂.trans hg₃).hasText (by rw [hstr]; exact hoff) (by rw [length_ebcdic]; omega) ht
        · exact hshown f hf
      · intro p hlt hp'
        rw [List.map_cons, List.mem_cons, not_or] at hp'
        rw [hother p hlt hp'.2, config_store_ne hin fun hne => hp'.1 hne.symm, config, config,
          sprintf_field hs (Nat.le_trans (config_field hlt) hoff)]
      · rw [hmask, store_field hin (by rw [length_be]; omega), sprintf_field hs (by exact hoff)]

/-! ## The mask -/

theorem getLsbD_int_bit : ∀ n < 31, ∀ b < 64, (int_bit n).getLsbD b = decide (b = n) := by decide +kernel

theorem scan_entries_bit {default_pos b : Nat} (hb : 1 ≤ b) (hb' : b < 64) :
    ∀ {es : List JobMenuEntry} {i : Nat} {m : BitVec 64}
    {name : Bytes}, (∀ e ∈ es, e.id = .job_ipl) → i + es.length ≤ 30 →
    (scan_entries default_pos i es (m, name)).1.getLsbD b =
      (m.getLsbD b || (decide (i + 1 ≤ b) && (es[b - (i + 1)]?.map JobMenuEntry.is_kdump).getD false))
  | [], _, _, _, _, _ => by simp [scan_entries]
  | e :: es, i, m, name, hid, hlen => by
    rw [List.length_cons] at hlen
    have hid₀ := hid e List.mem_cons_self
    have ih := fun {m name} => @scan_entries_bit default_pos b hb hb' es (i + 1) m name
      (fun f hf => hid f (List.mem_cons_of_mem _ hf)) (by omega)
    have hmask : ∀ m' : BitVec 64, (m' = if e.is_kdump then m ||| int_bit (i + 1) else m) →
        m'.getLsbD b = (m.getLsbD b || (e.is_kdump && decide (b = i + 1))) := by
      rintro m' rfl
      cases e.is_kdump with
      | false => simp
      | true => rw [if_pos rfl, BitVec.getLsbD_or, getLsbD_int_bit _ (by omega) _ hb', Bool.true_and]
    have hdefault : ∀ m' : BitVec 64, (if e.is_kdump then m' ||| int_bit 0 else m').getLsbD b = m'.getLsbD b := by
      intro m'
      split
      · rw [BitVec.getLsbD_or, getLsbD_int_bit _ (by omega) _ hb', decide_eq_false (by omega), Bool.or_false]
      · rfl
    have hstep : (scan_entries default_pos i (e :: es) (m, name)).1.getLsbD b =
        (m.getLsbD b || (e.is_kdump && decide (b = i + 1)) ||
          (decide (i + 1 + 1 ≤ b) && (es[b - (i + 1 + 1)]?.map JobMenuEntry.is_kdump).getD false)) := by
      rw [scan_entries]
      simp only [hid₀, beq_self_eq_true, Bool.true_and]
      split
      · rw [ih, hdefault, hmask _ rfl]
      · rw [ih, hmask _ rfl]
    rw [hstep]
    rcases Nat.lt_trichotomy b (i + 1) with hlt | rfl | hlt
    · simp [show ¬ i + 1 + 1 ≤ b by omega, show ¬ i + 1 ≤ b by omega, show b ≠ i + 1 by omega]
    · simp
    · obtain ⟨k, rfl⟩ : ∃ k, b = i + 1 + 1 + k := ⟨b - (i + 1 + 1), by omega⟩
      simp [show i + 1 + 1 + k - (i + 1) = k + 1 by omega, show ¬ i + 1 + 1 + k = i + 1 by omega,
        show i + 1 ≤ i + 1 + 1 + k by omega]

theorem scan_entries_default {default_pos : Nat} : ∀ {es : List JobMenuEntry} {i : Nat} {m : BitVec 64}
    {name : Bytes}, (∀ e ∈ es, e.id = .job_ipl) → i + es.length ≤ 30 → (es.map JobMenuEntry.pos).Nodup →
    (∀ e ∈ es, e.pos = default_pos → (scan_entries default_pos i es (m, name)).2 = e.name.text ∧
      (scan_entries default_pos i es (m, name)).1.getLsbD 0 = (m.getLsbD 0 || e.is_kdump)) ∧
    ((∀ e ∈ es, e.pos ≠ default_pos) → (scan_entries default_pos i es (m, name)).2 = name ∧
      (scan_entries default_pos i es (m, name)).1.getLsbD 0 = m.getLsbD 0)
  | [], _, _, _, _, _, _ => ⟨List.forall_mem_nil _, fun _ => ⟨rfl, rfl⟩⟩
  | e :: es, i, m, name, hid, hlen, hnd => by
    rw [List.length_cons] at hlen
    rw [List.map_cons, List.nodup_cons] at hnd
    have hid₀ := hid e List.mem_cons_self
    have hmask : (if e.is_kdump then m ||| int_bit (i + 1) else m).getLsbD 0 = m.getLsbD 0 := by
      split
      · rw [BitVec.getLsbD_or, getLsbD_int_bit _ (by omega) _ (by omega), decide_eq_false (by omega), Bool.or_false]
      · rfl
    have hset : ∀ m' : BitVec 64, (if e.is_kdump then m' ||| int_bit 0 else m').getLsbD 0 =
      (m'.getLsbD 0 || e.is_kdump) := by
      intro m'
      cases e.is_kdump with
      | false => simp
      | true => rw [if_pos rfl, BitVec.getLsbD_or, getLsbD_int_bit _ (by omega) _ (by omega), decide_eq_true rfl]
    have ih := fun {m name} => @scan_entries_default default_pos es (i + 1) m name
      (fun f hf => hid f (List.mem_cons_of_mem _ hf)) (by omega) hnd.2
    rw [scan_entries]
    simp only [hid₀, beq_self_eq_true, Bool.true_and]
    by_cases hpos : e.pos = default_pos
    · rw [if_pos hpos]
      have hrest : ∀ f ∈ es, f.pos ≠ default_pos := fun f hf hf' =>
        hnd.1 (by rw [hpos, ← hf']; exact List.mem_map_of_mem hf)
      obtain ⟨hname, hbit⟩ := ih.2 hrest
      rw [hname, hbit, hset, hmask]
      refine ⟨fun f hf hf' => ?_, fun hno => absurd hpos (hno e List.mem_cons_self)⟩
      rcases List.mem_cons.mp hf with rfl | hf
      · exact ⟨rfl, rfl⟩
      · exact absurd hf' (hrest f hf)
    · rw [if_neg hpos]
      refine ⟨fun f hf hf' => ?_, fun hno => ?_⟩
      · rcases List.mem_cons.mp hf with rfl | hf
        · exact absurd hf' hpos
        · rw [(ih.1 f hf hf').1, (ih.1 f hf hf').2, hmask]
          exact ⟨rfl, rfl⟩
      · obtain ⟨hname, hbit⟩ := ih.2 fun f hf => hno f (List.mem_cons_of_mem _ hf)
        rw [hname, hbit, hmask]
        exact ⟨rfl, rfl⟩

theorem and_int_bit {m : BitVec 64} {n : Nat} (hn : n < 31) : (m &&& int_bit n != 0) = m.getLsbD n := by
  have hbit := getLsbD_int_bit n hn
  cases hm : m.getLsbD n with
  | true =>
    rw [bne_iff_ne]
    intro h0
    have := congrArg (BitVec.getLsbD · n) h0
    rw [BitVec.getLsbD_and, hm, hbit n (by omega)] at this
    simp at this
  | false =>
    rw [bne_eq_false_iff_eq]
    apply BitVec.eq_of_getLsbD_eq
    intro b hb
    rw [BitVec.getLsbD_and, hbit b hb]
    by_cases hbn : b = n
    · simp [hbn, hm]
    · simp [hbn]

/-! ## The stored parameters -/

section
variable {release : Name} {job : JobData} {size : Nat} {d : Bytes}

theorem header_stores {mb mb' : MenuBuffer} {o flag timeout : Nat} {mask : Bytes}
    (h : mb_alloc (mb_init size) Boot.params_size = some (o, mb)) (hmask : mask.length = 8)
    (hmb : ((mb.store 0 (be 2 flag)).store Boot.config_kdump_offset mask).store 2 (be 2 timeout) = mb') :
    mb'.off = Boot.params_size ∧ mb'.off ≤ mb'.size ∧ mb'.size = size ∧
      slice mb'.start Boot.config_kdump_offset 8 = mask ∧
      ∀ {p}, p ≠ 0 → p < BOOT_MENU_ENTRIES → config mb'.start p = 0 := by
  unfold mb_alloc at h
  split at h
  · cases h
  rename_i hroom
  have hlen : (mb_init size).size = size := List.length_replicate
  obtain ⟨hstart, hoff⟩ : mb.start = List.replicate size 0 ∧ mb.off = Boot.params_size := by
    cases h
    exact ⟨rfl, Nat.zero_add _⟩
  have hsize : mb.size = size := by rw [MenuBuffer.size, hstart, List.length_replicate]
  have hroom : mb.off ≤ mb.size := by
    rw [hlen, show (mb_init size).off = 0 from rfl] at hroom
    omega
  clear h hlen
  have hp : Boot.params_size = 140 := rfl
  have hk : Boot.config_kdump_offset = 132 := rfl
  have h₁ := grown_store (o := 0) (r := be 2 flag) hroom (by rw [length_be]; omega) (Nat.le_of_eq hoff.symm)
  have h₂ := grown_store (o := Boot.config_kdump_offset) (r := mask) h₁.room (by omega) (Nat.le_of_eq hoff.symm)
  have h₃ := grown_store (o := 2) (r := be 2 timeout) h₂.room (by rw [length_be]; omega) (Nat.le_of_eq hoff.symm)
  have hs₁ := h₁.size
  have hs₂ := h₂.size
  subst hmb
  refine ⟨hoff, h₃.room, (h₃.size.trans hs₂).trans (hs₁.trans hsize), ?_, ?_⟩
  · have hself := slice_splice_self (d := (mb.store 0 (be 2 flag)).start)
      (o := Boot.config_kdump_offset) (r := mask)
      (by change _ ≤ (mb.store 0 (be 2 flag)).size; omega)
    rw [hmask] at hself
    rw [store_field (by omega) (Or.inr (by rw [length_be]; omega))]
    exact hself
  · intro p h0 hlt
    have hlast := config_field hlt
    unfold BOOT_MENU_ENTRIES at hlt
    rw [config, store_field (by omega) (Or.inr (by rw [length_be]; omega)),
      store_field (by omega) (Or.inl (by omega)),
      store_field (by omega) (Or.inr (by rw [length_be]; omega)), hstart, slice,
        List.drop_replicate, List.take_replicate,
      Nat.min_eq_left (by omega)]
    rfl

theorem stored_menu (hid : job.id = .job_menu) (hpos : ∀ e ∈ job.menu.entry, 1 ≤ e.pos ∧ e.pos < 31)
    (hnd : (job.menu.entry.map JobMenuEntry.pos).Nodup) (hsize : size ≤ STAGE2_MAX_SIZE)
    (hname : ∀ c ∈ (scan_entries job.menu.default_pos 0 job.menu.entry (0, ascii "-")).2, c ≠ 0)
    (h : store_stage2_menu release size job = some d) :
    config_kdump d = (scan_entries job.menu.default_pos 0 job.menu.entry (0, ascii "-")).1 ∧
      Shown d 0 (misc_ascii_to_ebcdic
        (default_text (some (scan_entries job.menu.default_pos 0 job.menu.entry (0, ascii "-")).2))) ∧
      (∀ e ∈ job.menu.entry, Shown d e.pos (misc_ascii_to_ebcdic (entry_text e))) ∧
      ∀ p < BOOT_MENU_ENTRIES, p ≠ 0 → p ∉ job.menu.entry.map JobMenuEntry.pos → config d p = 0 := by
  generalize hscan : scan_entries job.menu.default_pos 0 job.menu.entry (0, ascii "-") = scanned at hname ⊢
  obtain ⟨mask, name⟩ := scanned
  simp only [store_stage2_menu, hid, if_true, hscan, ne_eq, not_true_eq_false, if_false, Option.bind_eq_bind,
    Option.bind_eq_some_iff, Option.some.injEq, Prod.exists] at h
  obtain ⟨o₀, mb₀, halloc, o₁, mb₁, hbanner, o₂, mb₂, hdefault, mb₃, hentries, rfl⟩ := h
  generalize hA : MenuBuffer.store _ 2 _ = mbA at hbanner
  obtain ⟨hoffA, hroomA, hsizeA, hmaskA, hzeroA⟩ := header_stores halloc (length_be 8 mask.toNat) hA
  have hp : Boot.params_size = 140 := rfl
  have hk : Boot.config_kdump_offset = 132 := rfl
  have hc₀ : Boot.config_offset 0 = 6 := rfl
  have hno : ∀ c ∈ default_text (some name), c ≠ 0 :=
    no_nul_append (no_nul_append (List.all_iff_forall_prop.mp (by decide)) hname)
      (List.all_iff_forall_prop.mp (by decide))
  have hg₁ := grown_sprintf hbanner
  have hg₁' := grown_store (o := 4) (r := be 2 (u16 o₁)) hg₁.room (by rw [length_be]; omega)
    (Nat.le_trans (Nat.le_of_eq hoffA.symm) hg₁.off)
  have hoff₁ := Nat.le_trans (Nat.le_of_eq hoffA.symm) (Nat.le_trans hg₁.off hg₁'.off)
  have hg₂ := grown_sprintf hdefault
  obtain ⟨ht, hend⟩ := hasText_sprintf hdefault hno
  have ho₂ : Boot.params_size ≤ o₂ := by rw [(mb_sprintf_spec hdefault).1]; exact hoff₁
  have hoff₂ := Nat.le_trans hoff₁ hg₂.off
  have hg₂' := grown_store (o := Boot.config_offset 0) (r := be 2 (u16 o₂)) hg₂.room
    (by rw [length_be]; omega) hoff₂
  have hsize₂ : mb₂.size ≤ STAGE2_MAX_SIZE := by rw [hg₂.size, hg₁'.size, hg₁.size, hsizeA]; exact hsize
  obtain ⟨hg₃, hshown, hother, hmask⟩ := store_entries_spec hentries (Nat.le_trans hoff₂ hg₂'.off) hg₂'.room
    (by rw [hg₂'.size]; exact hsize₂) (fun e he => (hpos e he).2) hnd
  -- fields that only the header writes
  have hfield : ∀ {k n}, k + n ≤ Boot.params_size → 6 ≤ k → slice mb₂.start k n = slice mbA.start k n := by
    intro k n hkn h6
    have hin : 4 ≤ mb₁.size := by have := hg₁.room; have := hg₁.off; omega
    rw [sprintf_field hdefault (Nat.le_trans hkn hoff₁), store_field hin (Or.inr (by rw [length_be]; omega)),
      sprintf_field hbanner (by rw [hoffA]; exact hkn)]
  have hin : Boot.config_offset 0 ≤ mb₂.size := by have := hg₂.room; omega
  refine ⟨?_, ?_, hshown, ?_⟩
  · rw [config_kdump, show 6 + 2 * BOOT_MENU_ENTRIES = Boot.config_kdump_offset from rfl, hmask,
      store_field hin (Or.inr (by rw [length_be]; omega)), hfield (by omega) (by omega), hmaskA, unbe_be]
    exact (congrArg _ (Nat.mod_eq_of_lt mask.isLt)).trans (BitVec.ofNat_toNat ..)
  · have hnot : 0 ∉ job.menu.entry.map JobMenuEntry.pos := by
      intro h0
      obtain ⟨e, he, he0⟩ := List.mem_map.mp h0
      have := (hpos e he).1
      omega
    have hlt : o₂ < 65536 := by
      have := hg₂.room
      unfold STAGE2_MAX_SIZE at hsize₂
      omega
    have hconf := (hother 0 (by decide) hnot).trans (config_store hin hlt)
    refine ⟨by rw [hconf]; exact ho₂, ?_⟩
    rw [hconf]
    exact (hg₂'.trans hg₃).hasText ho₂ (by rw [length_ebcdic]; exact Nat.le_of_eq hend.symm) ht
  · intro p hlt h0 hp'
    rw [hother p hlt hp', config_store_ne hin (Ne.symm h0), config,
      hfield (by have := config_field hlt; omega) (by omega)]
    exact hzeroA h0 hlt

end

/-! ## Messages -/

theorem str_to_str_zero (t : Bytes) : str_to_str t 0 = t := by
  rw [str_to_str, Nat.zero_sub]
  rfl

theorem menu_entry_eq (params : Bytes) (p : Nat) :
    menu_entry params p = string_at params (config params p) ++ lit "\n" := by
  unfold menu_entry
  generalize string_at params (config params p) = t
  calc printf (lit "%s\n") [.str t] = str_to_str t 0 ++ lit "\n" := rfl
    _ = t ++ lit "\n" := by rw [str_to_str_zero]

theorem booting_eq (params : Bytes) (p : Nat) :
    booting params p = lit "Booting " ++ string_at params (config params p + TEXT_OFFSET) ++ lit "\n" := by
  unfold booting
  generalize string_at params (config params p + TEXT_OFFSET) = t
  calc printf (lit "Booting %s\n") [.str t] = lit "Booting " ++ str_to_str t 0 ++ lit "\n" := rfl
    _ = lit "Booting " ++ t ++ lit "\n" := by rw [str_to_str_zero]

def messages (params : Bytes) (p : Nat) : List Bytes := [menu_entry params p, booting params p]

theorem length_messages {params t : Bytes} {p : Nat} (h : Shown params p t) (ht : 4 ≤ t.length) :
    (∀ m ∈ messages params p, m.length + 1 ≤ PRINTF_BUFFER) ↔ t.length ≤ 75 := by
  have h₀ : string_at params (config params p) = t := (h.text.string_at (Nat.zero_le _)).trans List.drop_zero
  have h₄ : string_at params (config params p + TEXT_OFFSET) = t.drop 4 := h.text.string_at ht
  have hn : (lit "\n").length = 1 := rfl
  have hb : (lit "Booting ").length = 8 := rfl
  unfold messages PRINTF_BUFFER
  rw [List.forall_mem_cons, List.forall_mem_singleton, menu_entry_eq, booting_eq, h₀, h₄]
  simp only [List.length_append, List.length_drop, hn, hb]
  omega

/-! ## The menu data -/

/-- The loader takes the parameters for what zipl was asked to store. -/
structure SameMeaning (job : JobData) (params : Bytes) : Prop where
  configs : ∀ p < BOOT_MENU_ENTRIES, config params p ≠ 0 ↔ p = 0 ∨ ∃ e ∈ job.menu.entry, e.pos = p
  texts : ∀ e ∈ job.menu.entry, ∃ fill mark, (∀ c ∈ fill, c = 0x20) ∧
    (mark = [] ∨ mark = ascii " (kdump)" ∧ e.is_kdump) ∧
    string_at params (config params e.pos) =
      misc_ascii_to_ebcdic (fill ++ decimal e.pos ++ ascii ". " ++ e.name.text ++ mark)
  default_text : ∀ e ∈ job.menu.entry, e.pos = job.menu.default_pos →
    string_at params (config params 0) = misc_ascii_to_ebcdic (ascii " 0. default (" ++ e.name.text ++ ascii ")")
  fits : ∀ p < BOOT_MENU_ENTRIES, config params p ≠ 0 → ∀ m ∈ messages params p, m.length + 1 ≤ PRINTF_BUFFER
  kdump : ∀ e ∈ job.menu.entry, kdump_stage2 params e.pos = e.is_kdump
  default_kdump : ∀ e ∈ job.menu.entry, e.pos = job.menu.default_pos → kdump_stage2 params 0 = e.is_kdump

/-- The place `pos - 1` in the file says the same as the entry, and its texts are short. -/
structure Representable (menu : JobMenuData) : Prop where
  in_place : ∀ e ∈ menu.entry, (menu.entry[e.pos - 1]?.map JobMenuEntry.is_kdump).getD false = e.is_kdump
  short : ∀ e ∈ menu.entry, e.name.text.length + (kdump_str e).length ≤ 71
  default_short : ∀ e ∈ menu.entry, e.pos = menu.default_pos → e.name.text.length ≤ 61

theorem program_table_size (info : DiskInfo) : get_program_table_size info ≤ 31 := by
  unfold get_program_table_size get_blockptr_size
  cases info.type <;> decide

theorem pos_lt {menu : JobMenuData} {info : DiskInfo} (h : check_menu_positions menu info = true) :
    ∀ e ∈ menu.entry, e.pos < 31 := by
  intro e he
  have := List.all_eq_true.mp h e he
  have hs := program_table_size info
  simp only [Bool.not_eq_true', decide_eq_false_iff_not] at this
  omega

theorem entries_length {es : List JobMenuEntry} (hpos : ∀ e ∈ es, 1 ≤ e.pos ∧ e.pos < 31)
    (hnd : (es.map JobMenuEntry.pos).Nodup) : es.length ≤ 30 := by
  have hsub : es.map JobMenuEntry.pos ⊆ List.range' 1 30 := by
    intro p hp
    obtain ⟨e, he, rfl⟩ := List.mem_map.mp hp
    have := hpos e he
    rw [List.mem_range'_1]
    omega
  have := (hnd.subperm hsub).length_le
  rwa [List.length_map, List.length_range'] at this

section
variable {release : Name} {job : JobData} {info : DiskInfo} {size : Nat} {params : Bytes}

theorem menu_means_same (hid : job.id = .job_menu) (hipl : ∀ e ∈ job.menu.entry, e.id = .job_ipl)
    (hpos : ∀ e ∈ job.menu.entry, 1 ≤ e.pos) (hnd : (job.menu.entry.map JobMenuEntry.pos).Nodup)
    (hdef : ∃ e ∈ job.menu.entry, e.pos = job.menu.default_pos) (hcheck : check_menu_positions job.menu info = true)
    (hsize : size ≤ STAGE2_MAX_SIZE) (h : store_stage2_menu release size job = some params) :
    SameMeaning job params ↔ Representable job.menu := by
  have hpos' : ∀ e ∈ job.menu.entry, 1 ≤ e.pos ∧ e.pos < 31 := fun e he => ⟨hpos e he, pos_lt hcheck e he⟩
  have hlen := entries_length hpos' hnd
  obtain ⟨e₀, he₀, hpos₀⟩ := hdef
  have hscan := fun e he hd => (@scan_entries_default job.menu.default_pos _ 0 0
    (ascii "-") hipl (by omega) hnd).1 e he hd
  have hno : ∀ c ∈ (scan_entries job.menu.default_pos 0 job.menu.entry (0, ascii "-")).2, c ≠ 0 := by
    rw [(hscan e₀ he₀ hpos₀).1]
    exact e₀.name.no_nul
  obtain ⟨hmask, hdefault, hentries, hothers⟩ := stored_menu hid hpos' hnd hsize hno h
  have hdefault' : ∀ e ∈ job.menu.entry, e.pos = job.menu.default_pos →
      Shown params 0 (misc_ascii_to_ebcdic (Menu.default_text (some e.name.text))) := by
    intro e he hd
    rw [(hscan e he hd).1] at hdefault
    exact hdefault
  have hconfigs : ∀ p < BOOT_MENU_ENTRIES, config params p ≠ 0 ↔ p = 0 ∨ ∃ e ∈ job.menu.entry, e.pos = p := by
    have hbehind : ∀ {p t}, Shown params p t → config params p ≠ 0 := fun hs h0 => by
      have := hs.behind
      rw [h0] at this
      exact absurd this (by decide)
    intro p hp
    constructor
    · intro hc
      by_contra hn
      rw [not_or] at hn
      exact hc (hothers p hp hn.1 fun hm => hn.2 (List.mem_map.mp hm))
    · rintro (rfl | ⟨e, he, rfl⟩)
      · exact hbehind hdefault
      · exact hbehind (hentries e he)
  have hkdump : ∀ e ∈ job.menu.entry, kdump_stage2 params e.pos =
      (job.menu.entry[e.pos - 1]?.map JobMenuEntry.is_kdump).getD false := by
    intro e he
    obtain ⟨h₁, h₂⟩ := hpos' e he
    rw [kdump_stage2, hmask, and_int_bit h₂, scan_entries_bit h₁ (by omega) hipl (by omega)]
    simp [h₁]
  have hkdump₀ : ∀ e ∈ job.menu.entry, e.pos = job.menu.default_pos → kdump_stage2 params 0 = e.is_kdump := by
    intro e he hd
    rw [kdump_stage2, hmask, and_int_bit (by omega), (hscan e he hd).2]
    simp
  have hentry_len : ∀ e ∈ job.menu.entry, (misc_ascii_to_ebcdic (entry_text e)).length =
      4 + (e.name.text.length + (kdump_str e).length) := by
    intro e he
    have h₂ := (decimal2_small e.pos (hpos' e he).2).1
    have h₁ : (ascii ". ").length = 2 := rfl
    rw [length_ebcdic, entry_text]
    simp only [List.length_append, h₁, h₂]
    omega
  have hdefault_len : ∀ e : JobMenuEntry, (misc_ascii_to_ebcdic (Menu.default_text (some e.name.text))).length =
      14 + e.name.text.length := by
    intro e
    have h₁ : (ascii " 0. default (").length = 13 := rfl
    have h₂ : (ascii ")").length = 1 := rfl
    rw [length_ebcdic, Menu.default_text]
    simp only [List.length_append, h₁, h₂]
    omega
  have hfits : (∀ p < BOOT_MENU_ENTRIES, config params p ≠ 0 → ∀ m ∈ messages params p,
    m.length + 1 ≤ PRINTF_BUFFER) ↔
      (∀ e ∈ job.menu.entry, e.name.text.length + (kdump_str e).length ≤ 71) ∧
        ∀ e ∈ job.menu.entry, e.pos = job.menu.default_pos → e.name.text.length ≤ 61 := by
    have hone : ∀ e ∈ job.menu.entry, (∀ m ∈ messages params e.pos, m.length + 1 ≤ PRINTF_BUFFER) ↔
        e.name.text.length + (kdump_str e).length ≤ 71 := by
      intro e he
      rw [length_messages (hentries e he) (by rw [hentry_len e he]; omega), hentry_len e he]
      omega
    have hzero : ∀ e ∈ job.menu.entry, e.pos = job.menu.default_pos →
        ((∀ m ∈ messages params 0, m.length + 1 ≤ PRINTF_BUFFER) ↔ e.name.text.length ≤ 61) := by
      intro e he hd
      rw [length_messages (hdefault' e he hd) (by rw [hdefault_len]; omega), hdefault_len]
      omega
    constructor
    · intro hall
      refine ⟨fun e he => (hone e he).mp ?_, fun e he hd => (hzero e he hd).mp ?_⟩
      · have hlt : e.pos < BOOT_MENU_ENTRIES := by have := (hpos' e he).2; unfold BOOT_MENU_ENTRIES; omega
        exact hall e.pos hlt ((hconfigs e.pos hlt).mpr (Or.inr ⟨e, he, rfl⟩))
      · exact hall 0 (by decide) ((hconfigs 0 (by decide)).mpr (Or.inl rfl))
    · rintro ⟨hshort, hshort₀⟩ p hp hc
      rcases (hconfigs p hp).mp hc with rfl | ⟨e, he, rfl⟩
      · exact (hzero e₀ he₀ hpos₀).mpr (hshort₀ e₀ he₀ hpos₀)
      · exact (hone e he).mpr (hshort e he)
  constructor
  · intro hsame
    exact ⟨fun e he => (hkdump e he).symm.trans (hsame.kdump e he), (hfits.mp hsame.fits).1,
      (hfits.mp hsame.fits).2⟩
  · intro hrep
    refine ⟨hconfigs, ?_, ?_, hfits.mpr ⟨hrep.short, hrep.default_short⟩,
      fun e he => (hkdump e he).trans (hrep.in_place e he), hkdump₀⟩
    · intro e he
      refine ⟨List.replicate (2 - (decimal e.pos).length) 0x20, kdump_str e, fun c hc =>
        List.eq_of_mem_replicate hc, ?_,
        ((hentries e he).text.string_at (Nat.zero_le _)).trans List.drop_zero⟩
      unfold kdump_str
      cases hk : e.is_kdump with
      | false => exact Or.inl rfl
      | true => exact Or.inr ⟨rfl, rfl⟩
    · intro e he hd
      exact ((hdefault' e he hd).text.string_at (Nat.zero_le _)).trans List.drop_zero

end

def name_of (s : String) (h : ∀ c ∈ ascii s, c ≠ 0) : Name := ⟨ascii s, h⟩

def release_1_36 : Name := name_of "1.36.1" (List.all_iff_forall_prop.mp (by decide))

/-- IPL sections `linux` at the first position and `kdump` at the position `pos`, the default is the first. -/
def two_entries (pos : Nat) : JobData where
  id := .job_menu
  name := none
  is_kdump := false
  menu := ⟨1, 1, 10, [⟨1, name_of "linux" (List.all_iff_forall_prop.mp (by decide)), .job_ipl, false⟩,
    ⟨pos, name_of "kdump" (List.all_iff_forall_prop.mp (by decide)), .job_ipl, true⟩]⟩

def cdl_disk : DiskInfo := ⟨.eckd_cdl, 4096, ⟨15, 12⟩⟩

theorem stored_two_entries (pos : Nat) (h : pos = 2 ∨ pos = 3) :
    ∃ params, store_stage2_menu release_1_36 300 (two_entries pos) = some params := by
  rw [← Option.isSome_iff_exists]
  rcases h with rfl | rfl <;> rfl

theorem menu_means_same_two : ∃ params, store_stage2_menu release_1_36 300 (two_entries 2) = some params ∧
    (SameMeaning (two_entries 2) params ↔ Representable (two_entries 2).menu) := by
  obtain ⟨params, h⟩ := stored_two_entries 2 (Or.inl rfl)
  exact ⟨params, h, @menu_means_same _ (two_entries 2) cdl_disk _ _ rfl (by simp [two_entries])
    (by simp [two_entries]) (by simp [two_entries])
    (by simp [two_entries]) (by decide) (by decide) h⟩

/-- The bit of the second entry is that of position 2, the loader tests that of position 3. -/
theorem kdump_missed_behind_gap : ∃ params, store_stage2_menu release_1_36 300 (two_entries 3) = some params ∧
    check_menu_positions (two_entries 3).menu cdl_disk = true ∧ ¬SameMeaning (two_entries 3) params := by
  obtain ⟨params, h⟩ := stored_two_entries 3 (Or.inr rfl)
  refine ⟨params, h, by decide, fun hsame => ?_⟩
  obtain ⟨hmask, -⟩ := stored_menu (d := params) rfl (by simp [two_entries]) (by simp [two_entries])
    (by decide) (by decide) h
  have hk := hsame.kdump _ (List.mem_cons_of_mem _ List.mem_cons_self)
  rw [kdump_stage2, hmask] at hk
  exact absurd hk (by decide)

end Zipl.Menu
