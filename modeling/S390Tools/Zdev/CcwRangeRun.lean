import S390Tools.Zdev.CcwRange

/-!
# Ranges mean one set of devices

Where both ends lie in one subchannel set and in order, counting, iterating, membership
and the blacklist agree on the devices of a range.
-/

namespace Zdev.Ccw

open CString

/-! ## Keys -/

section
variable {f t d : CcwDevid}

theorem in_range_iff : ccw_devid_in_range d f t = true ↔ f.key ≤ d.key ∧ d.key ≤ t.key := by
  have hlt := cmp_lt (a := d) (b := f)
  have hgt := cmp_gt (a := d) (b := t)
  rw [ccw_devid_in_range]
  split
  · rename_i h
    constructor
    · intro hf
      cases hf
    · intro hk
      omega
  · exact ⟨fun _ => by omega, fun _ => rfl⟩

def span (f : CcwDevid) (n : Nat) : List CcwDevid := (List.range n).map fun i =>
    { f with devno := f.devno + .ofNat i }

theorem span_key {i : Nat} (hi : f.devno.toNat + i < 2 ^ 16) :
    ({ f with devno := f.devno + .ofNat i } : CcwDevid).key = f.key + i := by
  rw [CcwDevid.key, CcwDevid.key, UInt16.toNat_add, UInt16.toNat_ofNat']
  dsimp only
  omega

theorem key_sub (hset : SameSet f t) (hle : f.devno ≤ t.devno) :
    t.key = f.key + (t.devno.toNat - f.devno.toNat) ∧ num_ids f t = t.key - f.key + 1 := by
  have hle := UInt16.le_iff_toNat_le.mp hle
  obtain ⟨hc, hs⟩ := hset
  have hnum : num_ids f t = t.devno.toNat - f.devno.toNat + 1 := by
    rw [num_ids, if_neg (by rw [not_or]; exact ⟨not_not.mpr hc, not_not.mpr hs⟩), if_neg (by
      rw [UInt16.lt_iff_toNat_lt]
      omega)]
  rw [hnum, CcwDevid.key, CcwDevid.key, hc, hs]
  omega

theorem mem_span (hset : SameSet f t) (hle : f.devno ≤ t.devno) :
    d ∈ span f (num_ids f t) ↔ f.key ≤ d.key ∧ d.key ≤ t.key := by
  obtain ⟨hkey, hnum⟩ := key_sub hset hle
  have ht := t.devno.toNat_lt
  have hle := UInt16.le_iff_toNat_le.mp hle
  rw [span, List.mem_map]
  constructor
  · rintro ⟨i, hi, rfl⟩
    have hi := List.mem_range.mp hi
    rw [span_key (by omega)]
    omega
  · rintro ⟨hlo, hhi⟩
    refine ⟨d.key - f.key, List.mem_range.mpr (by omega), key_inj ?_⟩
    rw [span_key (by omega)]
    omega

theorem span_ascending (hset : SameSet f t) (hle : f.devno ≤ t.devno) :
    (span f (num_ids f t)).Pairwise fun a b => a.key < b.key := by
  obtain ⟨hkey, hnum⟩ := key_sub hset hle
  have ht := t.devno.toNat_lt
  have hle := UInt16.le_iff_toNat_le.mp hle
  rw [span, List.pairwise_map]
  refine List.Pairwise.imp_of_mem (fun {i j} hi hj hij => ?_) List.pairwise_lt_range
  have hi := List.mem_range.mp hi
  have hj := List.mem_range.mp hj
  rw [span_key (by omega), span_key (by omega)]
  omega

theorem span_ssid {n : Nat} (h : d ∈ span f n) : d.ssid = f.ssid := by
  obtain ⟨i, -, rfl⟩ := List.mem_map.mp h
  rfl

end

/-! ## Iteration -/

theorem span_succ (f : CcwDevid) (n : Nat) : span f (n + 1) = f :: span f.up n := by
  rw [span, List.range_succ_eq_map, List.map_cons, List.map_map, span]
  refine List.cons_eq_cons.mpr ⟨?_, List.map_congr_left fun i _ => ?_⟩
  · obtain ⟨c, s, n⟩ := f
    exact congrArg (CcwDevid.mk c s) (UInt16.add_zero n)
  · refine congrArg (CcwDevid.mk f.cssid f.ssid) ?_
    show f.devno + UInt16.ofNat (i + 1) = f.devno + 1 + UInt16.ofNat i
    rw [UInt16.ofNat_add, UInt16.add_assoc, UInt16.add_comm (UInt16.ofNat i)]
    rfl

theorem produced_span {α : Type} (to_str : α → List UInt8) (first : α → CcwDevid) (up : α → α) (last : α)
    {devno : α → UInt16} (hdevno : ∀ a, devno a = (first a).devno) (P : α → Prop) (hup : ∀ a, P a →
      P (up a) ∧ first (up a) = (first a).up)
    (hstr : ∀ a, P a → to_str a = ccw_devid_to_str (first a)) :
    ∀ {n : Nat} (curr : α), P curr → (devno curr).toNat + n = (devno last).toNat →
      produced (range_next to_str devno up) (n + 2) { devid := some (curr, last), id := some (to_str curr) } =
        some ((span (first curr) (n + 1)).map ccw_devid_to_str)
  | 0, curr, hP, hn => by
    have hnot : ¬devno curr < devno last := by
      rw [UInt16.lt_iff_toNat_lt]
      omega
    rw [span_succ, produced]
    dsimp only
    rw [range_next]
    dsimp only
    rw [if_neg hnot, produced, hstr curr hP]
    rfl
  | n + 1, curr, hP, hn => by
    have hlt : devno curr < devno last := by
      rw [UInt16.lt_iff_toNat_lt]
      omega
    obtain ⟨hP', hfirst⟩ := hup curr hP
    have hnext : (devno (up curr)).toNat + n = (devno last).toNat := by
      have hmax := (devno last).toNat_lt
      have hval : (devno (up curr)).toNat = ((first curr).devno.toNat + 1) % 2 ^ 16 := by
        rw [hdevno, hfirst, CcwDevid.up]
        exact UInt16.toNat_add ..
      rw [hdevno] at hn
      rw [hval]
      omega
    have ih := produced_span to_str first up last hdevno P hup hstr (up curr) hP' hnext
    rw [span_succ, produced]
    dsimp only
    rw [range_next]
    dsimp only
    rw [if_pos hlt, ih, hfirst, hstr curr hP]
    rfl

/-! ## The blacklist -/

section
variable (bare : Bool)

def Forward (proc_cio_ignore : Option (List UInt8)) : Prop :=
  ∀ content ∈ proc_cio_ignore, ∀ line ∈ lines content, ∀ f t,
    ccw_parse_devid_range_simple bare line = some (f, t) → f.key ≤ t.key

theorem line_ignores_range {f t : CcwDevid} {line : List UInt8} (hle : f.key ≤ t.key)
    (hline : ∀ a b, ccw_parse_devid_range_simple bare line = some (a, b) → a.key ≤ b.key) :
    line_ignores bare f t true line = true ↔
      ∃ d, (f.key ≤ d.key ∧ d.key ≤ t.key) ∧ line_ignores bare d d false line = true := by
  unfold line_ignores
  cases ccw_parse_devid_simple bare line with
  | some e =>
    dsimp only
    rw [if_pos rfl, in_range_iff]
    constructor
    · intro h
      exact ⟨e, h, beq_iff_eq.mpr (cmp_eq.2 rfl)⟩
    · rintro ⟨d, hd, heq⟩
      rw [← cmp_eq.1 (beq_iff_eq.mp heq)]
      exact hd
  | none =>
    dsimp only
    cases hr : ccw_parse_devid_range_simple bare line with
    | none => exact ⟨fun h => (by cases h), fun h => (by obtain ⟨_, _, h⟩ := h; cases h)⟩
    | some r =>
      obtain ⟨a, b⟩ := r
      have hab := hline a b hr
      have hlt := cmp_lt (a := b) (b := f)
      have hgt := cmp_gt (a := a) (b := t)
      dsimp only
      rw [if_pos rfl, Bool.not_eq_true', Bool.or_eq_false_iff, decide_eq_false_iff_not,
        decide_eq_false_iff_not, gt_iff_lt,
        hlt, hgt, Nat.not_lt, Nat.not_lt]
      constructor
      · rintro ⟨hb, ha⟩
        -- the larger of both starts lies in both ranges
        rcases Nat.le_total a.key f.key with h | h
        · exact ⟨f, ⟨Nat.le_refl _, hle⟩, in_range_iff.2 ⟨h, hb⟩⟩
        · exact ⟨a, ⟨h, ha⟩, in_range_iff.2 ⟨Nat.le_refl _, hab⟩⟩
      · rintro ⟨d, hd, hin⟩
        have hin := in_range_iff.1 hin
        omega

theorem range_blacklisted {range : List UInt8} {f t : CcwDevid}
    (hrange : ccw_parse_devid_range_simple bare range = some (f, t))
    (hset : SameSet f t) (hle : f.devno ≤ t.devno) (hssid : f.ssid.toNat ≤ SSID_MAX)
      {proc_cio_ignore : Option (List UInt8)}
    (hfwd : Forward bare proc_cio_ignore) :
    ccw_is_id_range_blacklisted bare proc_cio_ignore range = true ↔
      ∃ d ∈ span f (num_ids f t), ccw_is_id_blacklisted bare proc_cio_ignore (ccw_devid_to_str d) = true := by
  have hkeys : f.key ≤ t.key := by
    have := (key_sub hset hle).1
    omega
  have hparse : ∀ d ∈ span f (num_ids f t), ccw_parse_devid_simple bare (ccw_devid_to_str d) = some d := fun d hd =>
    (simple_eq bare).mpr (parse_to_str bare (by rw [span_ssid hd]; exact hssid))
  cases proc_cio_ignore with
  | none =>
    rw [ccw_is_id_range_blacklisted, is_ignored, if_pos rfl, hrange]
    constructor
    · intro h
      cases h
    · rintro ⟨d, hd, h⟩
      rw [ccw_is_id_blacklisted, is_ignored, if_neg Bool.false_ne_true, hparse d hd] at h
      cases h
  | some content =>
    rw [ccw_is_id_range_blacklisted, is_ignored, if_pos rfl, hrange]
    dsimp only
    rw [List.any_eq_true]
    have hline : ∀ d ∈ span f (num_ids f t),
      (ccw_is_id_blacklisted bare (some content) (ccw_devid_to_str d) = true ↔
        ∃ line ∈ lines content, line_ignores bare d d false line = true) := fun d hd => by
      rw [ccw_is_id_blacklisted, is_ignored, if_neg Bool.false_ne_true, hparse d hd]
      exact List.any_eq_true
    constructor
    · rintro ⟨line, hmem, h⟩
      obtain ⟨d, hd, hig⟩ := (line_ignores_range bare hkeys (hfwd content rfl line hmem)).mp h
      have hd := (mem_span hset hle).mpr hd
      exact ⟨d, hd, (hline d hd).mpr ⟨line, hmem, hig⟩⟩
    · rintro ⟨d, hd, h⟩
      obtain ⟨line, hmem, hig⟩ := (hline d hd).mp h
      exact ⟨line, hmem, (line_ignores_range bare hkeys (hfwd content rfl line hmem)).mpr
        ⟨d, (mem_span hset hle).mp hd, hig⟩⟩

end

/-! ## Agreement -/

/-- The devices of a range in the eyes of all its functions. `dev` is the device that an ID is in the range for. -/
def Agree (bare : Bool) (range : List UInt8) (ids : Nat → Option (List (List UInt8))) (num : Nat)
    (is_id_in_range : List UInt8 → Bool) (dev : List UInt8 → Option CcwDevid) : Prop :=
  ∃ ds : List CcwDevid, (ds.Pairwise fun a b => a.key < b.key) ∧
    (∃ n, ids n = some (ds.map ccw_devid_to_str)) ∧ num = ds.length ∧
    (∀ id, is_id_in_range id = true ↔ ∃ d ∈ ds, dev id = some d) ∧
    ∀ proc_cio_ignore, Forward bare proc_cio_ignore →
      (ccw_is_id_range_blacklisted bare proc_cio_ignore range = true ↔
        ∃ d ∈ ds, ccw_is_id_blacklisted bare proc_cio_ignore (ccw_devid_to_str d) = true)

section
variable {bare : Bool} {range : List UInt8}

theorem toOption_ok {ε α : Type} {e : Except ε α} {a : α} : e.toOption = some a ↔ e = .ok a := by
  cases e with
  | error e => exact ⟨fun h => (by cases h), fun h => (by cases h)⟩
  | ok b => exact ⟨fun h => (by cases h; rfl), fun h => (by cases h; rfl)⟩

theorem parse_range_ok {f t : CcwDevid} (h : ccw_parse_devid_range bare range = .ok (f, t)) :
    ccw_parse_devid bare (range.takeWhile (· != 0x2d)) = .ok f := by
  rw [ccw_parse_devid_range] at h
  split at h
  · cases h
  · cases hf : ccw_parse_devid bare (range.takeWhile (· != 0x2d)) with
    | error e =>
      rw [hf] at h
      cases h
    | ok f' =>
      rw [hf] at h
      change (ccw_parse_devid bare _ >>= _) = _ at h
      cases ht : ccw_parse_devid bare _ with
      | error e =>
        rw [ht] at h
        cases h
      | ok t' =>
        rw [ht] at h
        cases h
        rfl

theorem ccw_agree {f t : CcwDevid} (hrange : ccw_parse_devid_range bare range = .ok (f, t)) (hset : SameSet f t)
    (hle : f.devno ≤ t.devno) :
    Agree bare range (fun n => produced ccw_range_next n (ccw_range_start bare range))
      (ccw_num_ids_in_range bare range)
      (fun id => ccw_is_id_in_range bare id range) (ccw_parse_devid_simple bare) := by
  have hends := toOption_ok.2 hrange
  obtain ⟨-, hnum⟩ := key_sub hset hle
  have hdev := UInt16.le_iff_toNat_le.mp hle
  refine ⟨span f (num_ids f t), span_ascending hset hle, ⟨t.devno.toNat - f.devno.toNat + 2, ?_⟩, ?_, fun id => ?_,
    fun proc hfwd => range_blacklisted bare hends hset hle (parse_ssid bare (parse_range_ok hrange)) hfwd⟩
  · have hrun := produced_span ccw_devid_to_str id CcwDevid.up t (fun _ => rfl) (fun _ => True)
      (fun _ _ => ⟨trivial, rfl⟩) (fun _ _ => rfl) f
      trivial
      (show f.devno.toNat + (t.devno.toNat - f.devno.toNat) = t.devno.toNat by omega)
    have hcount : num_ids f t = t.devno.toNat - f.devno.toNat + 1 := by
      have := (key_sub hset hle).1
      omega
    rw [ccw_range_start, ccw_parse_devid_range_simple, hends, hcount]
    exact hrun
  · rw [ccw_num_ids_in_range, ccw_parse_devid_range_simple, hends, span, List.length_map, List.length_range]
  · show ccw_is_id_in_range bare id range = true ↔ _
    rw [ccw_is_id_in_range, ccw_parse_devid_range_simple, hends]
    cases ccw_parse_devid_simple bare id with
    | none => exact ⟨fun h => (by cases h), fun h => (by obtain ⟨_, _, h⟩ := h; cases h)⟩
    | some d =>
      dsimp only
      rw [in_range_iff, ← mem_span hset hle]
      exact ⟨fun h => ⟨d, h, rfl⟩, fun h => (by obtain ⟨_, hd, h⟩ := h; cases h; exact hd)⟩

theorem ok_bind {ε α β : Type} {x : Except ε α} {k : α → Except ε β} {b : β} :
    (x >>= k) = .ok b ↔ ∃ a, x = .ok a ∧ k a = .ok b := by
  cases x with
  | error e => exact ⟨fun h => (by cases h), fun h => (by obtain ⟨_, h, _⟩ := h; cases h)⟩
  | ok a => exact ⟨fun h => ⟨a, rfl, h⟩, fun h => (by obtain ⟨_, h, hk⟩ := h; cases h; exact hk)⟩

theorem group_single {s : List UInt8} {ds : CcwgroupDevid} (h : ccwgroup_parse_devid bare s =
    .ok ds) (hone : ds.length = 1) :
    ∃ d, ds = [d] ∧ ccw_parse_devid bare s = .ok d := by
  rw [ccwgroup_parse_devid, ok_bind] at h
  obtain ⟨⟨es, rest⟩, hparse, h⟩ := h
  have hes : es = ds := by
    dsimp only at h
    split at h
    · cases h
    split at h
    · cases h
    split at h
    · cases h
    cases h
    rfl
  subst hes
  rw [CCWGROUP_MAX_DEVIDS, parse_devids, strsep] at hparse
  dsimp only at hparse
  rw [ok_bind] at hparse
  obtain ⟨d, hd, hparse⟩ := hparse
  rw [ok_bind] at hparse
  obtain ⟨⟨es', rest'⟩, hmore, heq⟩ := hparse
  cases heq
  have hnil : es' = [] := List.length_eq_zero_iff.mp (Nat.succ.inj hone)
  subst hnil
  refine ⟨d, rfl, ?_⟩
  cases hdrop : s.dropWhile (· != 0x3a) with
  | nil =>
    have hs := List.takeWhile_append_dropWhile (p := (· != 0x3a)) (l := s)
    rw [hdrop, List.append_nil] at hs
    rwa [hs] at hd
  | cons c u =>
    rw [hdrop, parse_devids, strsep] at hmore
    dsimp only at hmore
    rw [ok_bind] at hmore
    obtain ⟨d', -, hmore⟩ := hmore
    rw [ok_bind] at hmore
    obtain ⟨⟨es, r⟩, -, heq⟩ := hmore
    cases heq

theorem group_range {f t : CcwgroupDevid} (h : ccwgroup_parse_devid_range bare range = .ok (f, t)) :
    ∃ a b, f = [a] ∧ t = [b] ∧ ccw_parse_devid_range bare range = .ok (a, b) := by
  rw [ccwgroup_parse_devid_range] at h
  cases hdrop : range.dropWhile (· != 0x2d) with
  | nil =>
    rw [hdrop] at h
    cases h
  | cons c to_str =>
    rw [hdrop] at h
    dsimp only at h
    rw [ok_bind] at h
    obtain ⟨f', hf, h⟩ := h
    rw [ok_bind] at h
    obtain ⟨t', ht, h⟩ := h
    split at h
    · cases h
    rename_i hlen
    rw [not_or, not_not, not_not] at hlen
    cases h
    obtain ⟨a, rfl, ha⟩ := group_single hf hlen.1
    obtain ⟨b, rfl, hb⟩ := group_single ht hlen.2
    refine ⟨a, b, rfl, rfl, ?_⟩
    rw [ccw_parse_devid_range, hdrop]
    dsimp only
    rw [ha]
    show (ccw_parse_devid bare to_str >>= _) = _
    rw [hb]
    rfl

theorem ccwgroup_agree {f t : CcwgroupDevid} (hrange : ccwgroup_parse_devid_range bare range = .ok (f, t))
    (hset : SameSet (first f) (first t)) (hle : (first f).devno ≤ (first t).devno) :
    Agree bare range (fun n => produced ccwgroup_range_next n (ccwgroup_range_start bare range))
      (ccwgroup_num_ids_in_range bare range) (fun id => ccwgroup_is_id_in_range bare id range)
      (fun id => (ccwgroup_parse_devid_simple bare id).map first) := by
  have hends : ccwgroup_parse_devid_range_simple bare range = some (f, t) := toOption_ok.2 hrange
  obtain ⟨a, b, rfl, rfl, hab⟩ := group_range hrange
  change SameSet a b at hset
  change a.devno ≤ b.devno at hle
  obtain ⟨-, hnum⟩ := key_sub hset hle
  have hdev := UInt16.le_iff_toNat_le.mp hle
  refine ⟨span a (num_ids a b), span_ascending hset hle, ⟨b.devno.toNat - a.devno.toNat + 2, ?_⟩, ?_, fun id => ?_,
    fun proc hfwd => range_blacklisted bare (toOption_ok.2 hab)
      hset hle (parse_ssid bare (parse_range_ok hab)) hfwd⟩
  · have hrun := produced_span ccwgroup_devid_to_str first (fun d => (first d).up :: d.tail) [b] (fun _ => rfl)
      (fun d => ∃ e, d = [e]) (fun d hd => by obtain ⟨e, rfl⟩ := hd; exact ⟨⟨e.up, rfl⟩, rfl⟩)
      (fun d hd => by obtain ⟨e, rfl⟩ := hd; rfl) [a] ⟨a, rfl⟩
      (show a.devno.toNat + (b.devno.toNat - a.devno.toNat) = b.devno.toNat by omega)
    have hcount : num_ids a b = b.devno.toNat - a.devno.toNat + 1 := by
      have := (key_sub hset hle).1
      omega
    rw [ccwgroup_range_start, hends, hcount]
    exact hrun
  · rw [ccwgroup_num_ids_in_range, hends, span, List.length_map, List.length_range]
    rfl
  · show ccwgroup_is_id_in_range bare id range = true ↔
      ∃ d ∈ _, (ccwgroup_parse_devid_simple bare id).map first = some d
    rw [ccwgroup_is_id_in_range, hends]
    cases ccwgroup_parse_devid_simple bare id with
    | none => exact ⟨fun h => (by cases h), fun h => (by obtain ⟨_, _, h⟩ := h; cases h)⟩
    | some d =>
      dsimp only
      rw [in_range_iff]
      refine Iff.trans (mem_span hset hle).symm ?_
      exact ⟨fun h => ⟨first d, h, rfl⟩, fun h => (by obtain ⟨_, hd, h⟩ := h; cases h; exact hd)⟩

end

/-- Both kinds of ranges, with their ends in one subchannel set and in order. -/
theorem ranges_agree (bare : Bool) (range : List UInt8) :
    (∀ f t, ccw_parse_devid_range bare range = .ok (f, t) → SameSet f t → f.devno ≤ t.devno →
      Agree bare range (fun n => produced ccw_range_next n (ccw_range_start bare range))
        (ccw_num_ids_in_range bare range)
        (fun id => ccw_is_id_in_range bare id range) (ccw_parse_devid_simple bare)) ∧
    ∀ f t, ccwgroup_parse_devid_range bare range = .ok (f, t) → SameSet (first f) (first t) →
      (first f).devno ≤ (first t).devno →
      Agree bare range (fun n => produced ccwgroup_range_next n (ccwgroup_range_start bare range))
        (ccwgroup_num_ids_in_range bare range) (fun id => ccwgroup_is_id_in_range bare id range)
        (fun id => (ccwgroup_parse_devid_simple bare id).map first) :=
  ⟨fun _ _ => ccw_agree, fun _ _ => ccwgroup_agree⟩

def small_range : List UInt8 := chars "0.0.0001-0.0.0002"

theorem ranges_agree_small :
    Agree true small_range (fun n => produced ccw_range_next n (ccw_range_start true small_range))
        (ccw_num_ids_in_range true small_range) (fun id => ccw_is_id_in_range true id small_range)
        (ccw_parse_devid_simple true) ∧
      Agree true small_range (fun n => produced ccwgroup_range_next n (ccwgroup_range_start true small_range))
        (ccwgroup_num_ids_in_range true small_range) (fun id => ccwgroup_is_id_in_range true id small_range)
        (fun id => (ccwgroup_parse_devid_simple true id).map first) := by
  have hccw : ccw_parse_devid_range_simple true small_range = some
      ({ cssid := 0, ssid := 0, devno := 1 }, { cssid := 0, ssid := 0, devno := 2 }) := by decide +kernel
  have hgroup : ccwgroup_parse_devid_range_simple true small_range = some
      ([{ cssid := 0, ssid := 0, devno := 1 }], [{ cssid := 0, ssid := 0, devno := 2 }]) := by decide +kernel
  exact ⟨(ranges_agree true small_range).1 _ _ (toOption_ok.mp hccw) ⟨rfl, rfl⟩ (by decide),
    (ranges_agree true small_range).2 _ _ (toOption_ok.mp hgroup) ⟨rfl, rfl⟩ (by decide)⟩

/-- A group is in the range for its first device, but the iteration has no groups. -/
theorem group_not_produced : ¬∀ (bare : Bool) (range : List UInt8) (n : Nat) (ids : List (List UInt8)),
    produced ccwgroup_range_next n (ccwgroup_range_start bare range) = some ids →
    ∀ id norm, ccwgroup_normalize_id bare id = some norm → ccwgroup_is_id_in_range bare id range =
      true → norm ∈ ids := fun h => by
  have hids : produced ccwgroup_range_next 3 (ccwgroup_range_start true small_range) =
      some [chars "0.0.0001", chars "0.0.0002"] := by decide +kernel
  have hnorm : ccwgroup_normalize_id true (chars "0.0.0001:0.0.0005") = some (chars "0.0.0001:0.0.0005") := by
    decide +kernel
  have hmem := h true small_range 3 _ hids _ _ hnorm (by decide +kernel)
  exact absurd hmem (by decide +kernel)

end Zdev.Ccw
