import S390Tools.Fdasd.Agreement

/-!
# Partitions from a configuration file

The entries go into the partitions at the front of the list, each with the gap
behind it. Then the labels are built anew: for each partition its own label, and
its gap goes into the free space labels.
-/

namespace Fdasd

open Word Vtoc CString DList Ranges

def limits (cs : List ConfigData) : List (Nat × Nat) := cs.map fun c => (c.start, c.stop)

def confFile (cs : List ConfigData) (i : Node) : ConfigData := cs.getD i.val ⟨0, 0, 0⟩

/-! ## The entries -/

def confEntry (geo : HdGeometry) (anc : FdasdAnchor) (e : Node × Node) : FdasdAnchor :=
  let a := anc.upd e.2 (confPartitionInfo geo anc e.1)
  if e.1.val = 0 then { a with fspace_trk := u64 ((anc.confdata e.1).start - FIRST_USABLE_TRK : Int) } else a

structure Framed (a b : FdasdAnchor) : Prop extends SameBase a b where
  links : b.links = a.links
  first : b.first = a.first
  last : b.last = a.last
  confdata : b.confdata = a.confdata
  used_partitions : b.used_partitions = a.used_partitions

theorem Framed.trans {a b c : FdasdAnchor} (h : Framed a b) (h' : Framed b c) : Framed a c :=
  ⟨h.toSameBase.trans h'.toSameBase, h'.links.trans h.links, h'.first.trans h.first, h'.last.trans h.last,
    h'.confdata.trans h.confdata, h'.used_partitions.trans h.used_partitions⟩

section
variable {geo : HdGeometry} {anc : FdasdAnchor}

theorem confEntry_framed (geo : HdGeometry) (anc : FdasdAnchor) (e : Node × Node) :
    Framed anc (confEntry geo anc e) := by
  unfold confEntry
  simp only
  split <;> exact ⟨⟨rfl, rfl, rfl, rfl⟩, rfl, rfl, rfl, rfl, rfl⟩

theorem foldl_framed (geo : HdGeometry) : ∀ (es : List (Node × Node)) (anc : FdasdAnchor),
    Framed anc (es.foldl (confEntry geo) anc)
  | [], anc => ⟨.refl anc, rfl, rfl, rfl, rfl, rfl⟩
  | e :: es, anc => (confEntry_framed geo anc e).trans (foldl_framed geo es _)

theorem confEntry_info (geo : HdGeometry) (anc : FdasdAnchor) (e : Node × Node) (n : Node) :
    (confEntry geo anc e).info n = if n = e.2 then confPartitionInfo geo anc e.1 (anc.info e.2)
      else anc.info n := by
  unfold confEntry
  simp only
  split <;> simp only [upd_info]

theorem Framed.confPartitionInfo {a b : FdasdAnchor} (h : Framed a b) (geo : HdGeometry) (i : Node)
    (p : PartitionInfo) :
    confPartitionInfo geo b i p = confPartitionInfo geo a i p := by
  unfold Fdasd.confPartitionInfo confGap lastTrack
  simp only [h.confdata, h.formatted]

theorem Framed.checkConfdata {a b : FdasdAnchor} (h : Framed a b) (geo : HdGeometry)
    (conffile : String) (i : Node) :
    checkConfdata geo conffile b i = checkConfdata geo conffile a i := by
  unfold Fdasd.checkConfdata lastTrack
  simp only [h.confdata, h.formatted]

theorem foldl_info_other (geo : HdGeometry) : ∀ {es : List (Node × Node)} {anc : FdasdAnchor} {n : Node},
    n ∉ es.map (·.2) → (es.foldl (confEntry geo) anc).info n = anc.info n
  | [], _, _, _ => rfl
  | e :: es, anc, n, h => by
    simp only [List.map_cons, List.mem_cons, not_or] at h
    rw [List.foldl_cons, foldl_info_other geo h.2, confEntry_info, if_neg h.1]

theorem foldl_info (geo : HdGeometry) : ∀ {es : List (Node × Node)} {anc : FdasdAnchor}, (es.map (·.2)).Nodup →
    ∀ e ∈ es, (es.foldl (confEntry geo) anc).info e.2 = confPartitionInfo geo anc e.1 (anc.info e.2)
  | [], _, _, _, he => by cases he
  | e :: es, anc, hnd, e', he => by
    obtain ⟨hn, hnd⟩ := List.nodup_cons.mp hnd
    rw [List.foldl_cons]
    rcases List.mem_cons.mp he with rfl | he
    · rw [foldl_info_other geo hn, confEntry_info, if_pos rfl]
    · have hne : e'.2 ≠ e.2 := fun h => hn (List.mem_map.mpr ⟨e', he, h⟩)
      rw [foldl_info geo hnd e' he, (confEntry_framed geo anc e).confPartitionInfo, confEntry_info, if_neg hne]

theorem confEntries_eq (conffile : String) : ∀ {js ks us fs : List Node} {anc : FdasdAnchor} {p : Option Node},
    Seg anc.links p (us ++ fs) none → js.length = us.length →
    (∀ i ∈ js, (anc.confdata i).start ≠ 0 ∧ (anc.confdata i).stop ≠ 0 ∧ checkConfdata geo conffile anc i = .ok ()) →
    (∀ i, ks.head? = some i → (anc.confdata i).start = 0) →
    confEntries geo conffile (js ++ ks) anc (us ++ fs).head? = .ok ((js.zip us).foldl (confEntry geo) anc)
  | [], ks, us, fs, anc, p, hseg, hlen, hjs, hks => by
    obtain rfl : us = [] := List.length_eq_zero_iff.mp hlen.symm
    cases ks with
    | nil => rfl
    | cons k ks =>
      simp only [List.nil_append, confEntries, List.zip_nil_left, List.foldl_nil]
      rw [if_pos (Or.inl (hks k rfl))]
  | j :: js, ks, [], fs, anc, p, hseg, hlen, hjs, hks => by cases hlen
  | j :: js, ks, u :: us, fs, anc, p, hseg, hlen, hjs, hks => by
    obtain ⟨h₁, h₂, h₃⟩ := hjs j (by simp)
    obtain ⟨-, hn, hseg⟩ := hseg
    rw [Option.or_none] at hn
    have hf := confEntry_framed geo anc (j, u)
    have ih := @confEntries_eq conffile js ks us fs (confEntry geo anc (j, u)) (some u)
      (by rw [hf.links]; exact hseg) (by simpa using hlen)
      (fun i hi => by
        rw [hf.confdata, hf.checkConfdata]
        exact hjs i (List.mem_cons_of_mem _ hi))
      (by rw [hf.confdata]; exact hks)
    rw [List.zip_cons_cons, List.foldl_cons, ← ih]
    simp only [List.cons_append, List.head?_cons, confEntries, h₁, h₂, or_self, if_false, h₃, deref]
    have hnext : (confEntry geo anc (j, u)).links.next u = (us ++ fs).head? := by rw [hf.links]; exact hn
    rw [← hnext]
    rfl

/-! ## The checks -/

theorem confFile_eq {cs : List ConfigData} {i : Nat} {c : ConfigData} (h : cs[i]? = some c)
    (hi : i < USABLE_PARTITIONS) :
    confFile cs ⟨i, hi⟩ = c := by
  unfold confFile
  rw [List.getD_eq_getElem?_getD, h, Option.getD_some]

theorem confFile_none {cs : List ConfigData} {i : Nat} (h : cs[i]? = none) (hi : i < USABLE_PARTITIONS) :
    (confFile cs ⟨i, hi⟩).start = 0 := by
  unfold confFile
  rw [List.getD_eq_getElem?_getD, h, Option.getD_none]

theorem limits_getElem? {cs : List ConfigData} {i : Nat} {c : ConfigData} (h : cs[i]? = some c) :
    (limits cs)[i]? = some (c.start, c.stop) := by
  rw [limits, List.getElem?_map, h, Option.map_some]

theorem Partitioning.entry {T : Nat} {cs : List ConfigData} (hp : Partitioning T (limits cs))
    {i : Nat} {c : ConfigData}
    (h : cs[i]? = some c) : FIRST_USABLE_TRK ≤ c.start ∧ c.start < c.stop ∧ c.stop < T :=
  hp.range (c.start, c.stop) (List.mem_of_getElem? (limits_getElem? h))

theorem Partitioning.order {T : Nat} {cs : List ConfigData} (hp : Partitioning T (limits cs))
    {i : Nat} {c d : ConfigData}
    (hc : cs[i]? = some c) (hd : cs[i + 1]? = some d) : c.stop < d.start := by
  obtain ⟨hi, he⟩ := List.getElem?_eq_some_iff.mp (limits_getElem? hc)
  obtain ⟨hi', he'⟩ := List.getElem?_eq_some_iff.mp (limits_getElem? hd)
  have := List.pairwise_iff_getElem.mp hp.ascending i (i + 1) hi hi' (by omega)
  rw [he, he'] at this
  exact this

section
variable {cs : List ConfigData} (D : Disk geo anc.formatted_cylinders)
    (hp : Partitioning (tracks geo anc) (limits cs))
  (hconf : anc.confdata = confFile cs)
include D hp hconf

theorem checkConfdata_ok (conffile : String) {i : Nat} (hi : i < USABLE_PARTITIONS) {c : ConfigData}
    (hc : cs[i]? = some c) :
    checkConfdata geo conffile anc ⟨i, hi⟩ = .ok () := by
  have hr := hp.entry hc
  have hlast := lastTrack_eq D
  have hprev : ¬ (0 < i ∧ c.start ≤ (anc.confdata ⟨i - 1, by omega⟩).stop) := by
    rintro ⟨h₀, hle⟩
    obtain ⟨b, hb⟩ : ∃ b, cs[i - 1]? = some b :=
      ⟨_, List.getElem?_eq_getElem (by have := (List.getElem?_eq_some_iff.mp hc).1; omega)⟩
    have := hp.order hb (by rw [Nat.sub_add_cancel h₀]; exact hc)
    rw [hconf, confFile_eq hb] at hle
    omega
  have hnext : ∀ h : i + 1 < USABLE_PARTITIONS, ¬ ((anc.confdata ⟨i + 1, h⟩).start > 0 ∧
      c.stop ≥ (anc.confdata ⟨i + 1, h⟩).start) := by
    rintro h ⟨h₀, hge⟩
    rw [hconf] at h₀ hge
    cases hd : cs[i + 1]? with
    | none => rw [confFile_none hd] at h₀; exact absurd h₀ (by decide)
    | some d =>
      have := hp.order hc hd
      rw [confFile_eq hd] at hge
      omega
  have hci : anc.confdata ⟨i, hi⟩ = c := by rw [hconf, confFile_eq hc]
  unfold checkConfdata
  simp only [hci]
  rw [if_neg (by rw [hlast]; omega), if_neg (by rw [hlast]; omega), if_neg (by omega), if_neg hprev]
  split
  · rename_i h
    rw [if_neg (hnext h)]
  · rfl

theorem confGap_eq {i : Nat} (hi : i < USABLE_PARTITIONS) {c : ConfigData} (hc : cs[i]? = some c) :
    (afters (tracks geo anc) (spans (limits cs)))[i]? = some (confGap geo anc ⟨i, hi⟩) := by
  have hr := hp.entry hc
  have hlast := lastTrack_eq D
  have htr : tracks geo anc ≤ 2147483648 := D.tracks_le
  have hci : anc.confdata ⟨i, hi⟩ = c := by rw [hconf, confFile_eq hc]
  have hend : u64 ((lastTrack geo anc : Int) - c.stop) = tracks geo anc - (c.stop + 1) := by
    rw [hlast]; unfold u64; omega
  have hspan : ∀ k, (spans (limits cs))[k]? = cs[k]?.map fun c : ConfigData => (c.start, c.stop + 1) := fun k => by
    rw [spans, limits, List.map_map, List.getElem?_map]; rfl
  rw [afters_getElem?, nextStart_drop, hspan, hspan, hc, Option.map_some, Option.map_some]
  congr 1
  unfold confGap
  simp only [hci, hconf]
  cases hd : cs[i + 1]? with
  | none =>
    split
    · rw [confFile_none hd, if_neg (by decide), hend]; rfl
    · rw [hend]; rfl
  | some d =>
    have hlen := hp.length
    have hlt := (List.getElem?_eq_some_iff.mp hd).1
    have hr' := hp.entry hd
    have ho := hp.order hc hd
    have h3 : i + 1 < USABLE_PARTITIONS := by rw [limits, List.length_map] at hlen; omega
    simp only [FIRST_USABLE_TRK] at hr'
    rw [dif_pos h3, confFile_eq hd, if_pos (by omega)]
    simp only [Option.map_some, Option.getD_some]
    unfold u64; omega

end

/-! ## The partitions with the entries -/

/-- The partitions `us` hold the entries, all others are unused. -/
structure Entered (geo : HdGeometry) (anc : FdasdAnchor) (cs : List ConfigData) (us fs : List Node) : Prop where
  list : IsList anc.links anc.first anc.last (us ++ fs)
  all : (us ++ fs).length = USABLE_PARTITIONS
  used : ∀ n ∈ us, (anc.info n).used = 0x01 ∧ (get_part_dsname_by_type (anc.info n).type).isSome
  free : ∀ n ∈ fs, (anc.info n).used = 0x00
  ranges : us.map (fun n => (anc.info n).rng) = spans (limits cs)
  tail_gaps : us.map (fun n => (anc.info n).fspace_trk) = afters (tracks geo anc) (spans (limits cs))
  head_gap : anc.fspace_trk = nextStart (tracks geo anc) (spans (limits cs)) - FIRST_USABLE_TRK

theorem confEntry_fspace (geo : HdGeometry) (anc : FdasdAnchor) (e : Node × Node) :
    (confEntry geo anc e).fspace_trk =
      if e.1.val = 0 then u64 ((anc.confdata e.1).start - FIRST_USABLE_TRK : Int) else anc.fspace_trk := by
  unfold confEntry
  simp only
  split <;> rfl

theorem foldl_fspace (geo : HdGeometry) : ∀ {es : List (Node × Node)} {anc : FdasdAnchor}, (∀ e ∈ es, e.1.val ≠ 0) →
    (es.foldl (confEntry geo) anc).fspace_trk = anc.fspace_trk
  | [], _, _ => rfl
  | e :: es, anc, h => by
    rw [List.foldl_cons, foldl_fspace geo fun e' he' => h e' (List.mem_cons_of_mem _ he'), confEntry_fspace,
      if_neg (h e (List.mem_cons_self ..))]

section
variable {cs : List ConfigData} {xs : List Node} (D : Disk geo anc.formatted_cylinders)
  (hp : Partitioning (tracks geo anc) (limits cs)) (hconf : anc.confdata = confFile cs)
include D hp hconf

omit D hconf in
theorem entered_info (hl : IsList anc.links anc.first anc.last xs) (hall : xs.length = USABLE_PARTITIONS) {i : Nat}
    (hi : i < USABLE_PARTITIONS) {c : ConfigData} {n : Node} (hc : cs[i]? = some c) (hn : xs[i]? = some n) :
    ((((List.finRange USABLE_PARTITIONS).take cs.length).zip (xs.take cs.length)).foldl
      (confEntry geo) anc).info n =
      confPartitionInfo geo anc ⟨i, hi⟩ (anc.info n) := by
  have hlen := hp.length
  have hic := (List.getElem?_eq_some_iff.mp hc).1
  rw [limits, List.length_map] at hlen
  have hsnd : (((List.finRange USABLE_PARTITIONS).take cs.length).zip (xs.take cs.length)).map
    (·.2) = xs.take cs.length := by
    rw [List.map_snd_zip]
    rw [List.length_take, List.length_take, List.length_finRange, hall]
  refine foldl_info geo (by rw [hsnd]; exact hl.nodup.take) (⟨i, hi⟩, n) ?_
  refine List.mem_of_getElem? (i := i) ?_
  have h₁ : ((List.finRange USABLE_PARTITIONS).take cs.length)[i]? = some ⟨i, hi⟩ := by
    rw [List.getElem?_take_of_lt hic, List.getElem?_eq_getElem (by rw [List.length_finRange]; exact hi)]
    simp
  have h₂ : (xs.take cs.length)[i]? = some n := by rw [List.getElem?_take_of_lt hic]; exact hn
  rw [List.getElem?_zip_eq_some]
  exact ⟨h₁, h₂⟩

theorem entered_fspace (hall : xs.length = USABLE_PARTITIONS)
    (hgap : anc.fspace_trk = tracks geo anc - FIRST_USABLE_TRK) :
    ((((List.finRange USABLE_PARTITIONS).take cs.length).zip (xs.take cs.length)).foldl
      (confEntry geo) anc).fspace_trk =
      nextStart (tracks geo anc) (spans (limits cs)) - FIRST_USABLE_TRK := by
  cases hcs : cs with
  | nil => exact hgap
  | cons c cs' =>
    subst hcs
    cases hxs : xs with
    | nil => rw [hxs] at hall; cases hall
    | cons x xs' =>
      have hr := @Partitioning.entry _ _ hp 0 c rfl
      have htr : tracks geo anc ≤ 2147483648 := D.tracks_le
      have h0 : (anc.confdata ⟨0, by decide⟩) = c := by rw [hconf]; rfl
      have hfin : (List.finRange USABLE_PARTITIONS) = (⟨0, by decide⟩ : Node) :: [⟨1, by decide⟩,
        ⟨2, by decide⟩] := rfl
      rw [hfin, List.length_cons, List.take_succ_cons, List.take_succ_cons, List.zip_cons_cons, List.foldl_cons,
        foldl_fspace, confEntry_fspace, if_pos rfl, h0]
      · simp only [limits, spans, List.map_cons, nextStart, FIRST_USABLE_TRK] at hr ⊢
        unfold u64; omega
      · intro e he
        have hm := List.mem_of_mem_take (List.of_mem_zip he).1
        simp only [List.mem_cons, List.not_mem_nil, or_false] at hm
        rcases hm with h | h <;> rw [h] <;> decide

theorem check_conffile_entered (conffile : String) (htype : ∀ c ∈ cs, (get_part_dsname_by_type c.type).isSome)
    (hl : IsList anc.links anc.first anc.last xs) (hall : xs.length = USABLE_PARTITIONS)
    (hfree : ∀ n, (anc.info n).used = 0x00) (hgap : anc.fspace_trk = tracks geo anc - FIRST_USABLE_TRK) :
    ∃ b, fdasd_check_conffile_input geo conffile anc = .ok b ∧ Framed anc b ∧
      Entered geo b cs (xs.take cs.length) (xs.drop cs.length) := by
  have hlen := hp.length
  rw [limits, List.length_map] at hlen
  have hval : ∀ (i : Node) k (hk : k < (List.finRange USABLE_PARTITIONS).length),
      (List.finRange USABLE_PARTITIONS)[k] = i → i.val = k := by
    intro i k hk he
    rw [List.getElem_finRange] at he
    rw [← he]
    rfl
  have hrun := @confEntries_eq geo conffile ((List.finRange USABLE_PARTITIONS).take cs.length)
    ((List.finRange USABLE_PARTITIONS).drop cs.length) (xs.take cs.length) (xs.drop cs.length) anc none
    (by rw [List.take_append_drop]; exact hl.seg)
    (by rw [List.length_take, List.length_take, List.length_finRange, hall])
    (fun i hi => by
      obtain ⟨k, hk, he⟩ := List.mem_take_iff_getElem.mp hi
      have hv := hval i k (by omega) he
      obtain ⟨c, hc⟩ : ∃ c, cs[i.val]? = some c := ⟨_, List.getElem?_eq_getElem (by omega)⟩
      have hr := hp.entry hc
      simp only [FIRST_USABLE_TRK] at hr
      refine ⟨?_, ?_, checkConfdata_ok D hp hconf conffile i.isLt hc⟩
      · rw [hconf, confFile_eq hc i.isLt]; omega
      · rw [hconf, confFile_eq hc i.isLt]; omega)
    (fun i hi => by
      rw [List.head?_drop] at hi
      obtain ⟨hlt, he⟩ := List.getElem?_eq_some_iff.mp hi
      have hv := hval i _ hlt he
      rw [hconf]
      exact confFile_none (List.getElem?_eq_none (by omega)) i.isLt)
  rw [List.take_append_drop, List.take_append_drop, ← hl.first_eq] at hrun
  have hsnd : (((List.finRange USABLE_PARTITIONS).take cs.length).zip (xs.take cs.length)).map
    (·.2) = xs.take cs.length := by
    rw [List.map_snd_zip]
    rw [List.length_take, List.length_take, List.length_finRange, hall]
  have hf := foldl_framed geo (((List.finRange USABLE_PARTITIONS).take cs.length).zip (xs.take cs.length)) anc
  have hfsp := entered_fspace D hp hconf hall hgap
  have hother := fun n => @foldl_info_other geo (((List.finRange USABLE_PARTITIONS).take cs.length).zip
    (xs.take cs.length)) anc n
  have hinfo : ∀ (i : Nat) c n, cs[i]? = some c → xs[i]? = some n → ∃ hi : i < USABLE_PARTITIONS,
      ((((List.finRange USABLE_PARTITIONS).take cs.length).zip (xs.take cs.length)).foldl
        (confEntry geo) anc).info n =
        confPartitionInfo geo anc ⟨i, hi⟩ (anc.info n) := by
    intro i c n hc hn
    have hi := (List.getElem?_eq_some_iff.mp hc).1
    exact ⟨by omega, entered_info hp hl hall (by omega) hc hn⟩
  refine ⟨_, hrun, hf, ?_⟩
  generalize (((List.finRange USABLE_PARTITIONS).take cs.length).zip (xs.take cs.length)).foldl
    (confEntry geo) anc = b at *
  have htr : tracks geo b = tracks geo anc := by unfold tracks; rw [hf.formatted]
  have hat : ∀ i : Nat, (cs[i]? = none ∧ (xs.take cs.length)[i]? = none) ∨ ∃ c n, cs[i]? = some c ∧
    xs[i]? = some n ∧
      (xs.take cs.length)[i]? = some n := by
    intro i
    by_cases hi : i < cs.length
    · refine Or.inr ⟨cs[i], xs[i], List.getElem?_eq_getElem hi, List.getElem?_eq_getElem (by omega), ?_⟩
      rw [List.getElem?_take_of_lt hi]
      exact List.getElem?_eq_getElem (by omega)
    · exact Or.inl ⟨List.getElem?_eq_none (by omega), List.getElem?_eq_none (by rw [List.length_take]; omega)⟩
  refine ⟨by rw [hf.links, hf.first, hf.last, List.take_append_drop]; exact hl,
    by rw [List.take_append_drop]; exact hall,
    ?_, ?_, ?_, ?_, by rw [htr]; exact hfsp⟩
  · intro n hn
    obtain ⟨i, hi⟩ := List.getElem?_of_mem hn
    rcases hat i with ⟨-, h⟩ | ⟨c, m, hc, hm, h⟩
    · rw [h] at hi; cases hi
    · obtain rfl : m = n := Option.some.inj (h.symm.trans hi)
      obtain ⟨h3, he⟩ := hinfo i c m hc hm
      rw [he]
      refine ⟨rfl, ?_⟩
      show (get_part_dsname_by_type (anc.confdata ⟨i, h3⟩).type).isSome
      rw [hconf, confFile_eq hc]
      exact htype c (List.mem_of_getElem? hc)
  · intro n hn
    have hnd := hl.nodup
    rw [← List.take_append_drop cs.length xs] at hnd
    rw [hother n (by rw [hsnd]; exact fun hm => (List.nodup_append.mp hnd).2.2 n hm n hn rfl)]
    exact hfree n
  · refine List.ext_getElem? fun i => ?_
    rw [spans, limits, List.map_map, List.getElem?_map, List.getElem?_map]
    rcases hat i with ⟨hc, h⟩ | ⟨c, n, hc, hn, h⟩
    · rw [hc, h]; rfl
    · obtain ⟨h3, he⟩ := hinfo i c n hc hn
      rw [hc, h, Option.map_some, Option.map_some, he]
      simp only [confPartitionInfo, PartitionInfo.rng, hconf, confFile_eq hc, Function.comp_apply]
  · refine List.ext_getElem? fun i => ?_
    rw [htr, List.getElem?_map]
    rcases hat i with ⟨hc, h⟩ | ⟨c, n, hc, hn, h⟩
    · rw [h, Option.map_none, List.getElem?_eq_none]
      rw [afters_length, spans, limits, List.length_map, List.length_map]
      exact List.getElem?_eq_none_iff.mp hc
    · obtain ⟨h3, he⟩ := hinfo i c n hc hn
      rw [h, Option.map_some, he, confGap_eq D hp hconf h3 hc]
      rfl

end

/-! ## The labels -/

theorem typeName_new (anc : FdasdAnchor) (today : Labeldate) (ext : Extent) {type : Nat}
    (ht : (get_part_dsname_by_type type).isSome) : ∃ f1, typeName (initPartitionLabel anc today ext) type = .ok f1 ∧
      f1.DS1FMTID = (initPartitionLabel anc today ext).DS1FMTID ∧
        f1.DS1EXT1 = (initPartitionLabel anc today ext).DS1EXT1 := by
  obtain ⟨dsname, hd⟩ := Option.isSome_iff_exists.mp ht
  have hlen : dsname.length ≤ 6 := by
    have hall : ∀ t ∈ partition_types, t.1.length ≤ 6 := by decide +kernel
    unfold get_part_dsname_by_type at hd
    obtain ⟨t, ht, rfl⟩ := Option.map_eq_some_iff.mp hd
    exact hall t (List.mem_of_getElem? ht)
  generalize hf : initPartitionLabel anc today ext = f1
  have hname : vtoc_ebcdic_dec f1.DS1DSNAM = bytes "PART    .NEW" ++
    0x20 :: bytes "                               " := by
    have h : f1.DS1DSNAM = vtoc_ebcdic_enc (bytes "PART    .NEW                                ") := by
      rw [← hf]
      unfold initPartitionLabel
      split <;> rfl
    rw [h]
    decide +kernel
  have hpos : strstr (vtoc_ebcdic_dec f1.DS1DSNAM ++ behindName f1) (bytes ".NEW") = some 8 := by
    have hchars : ∀ c ∈ bytes "PART    .NEW" ++ 0x20 :: bytes "                               ", c ≠ 0 :=
      List.all_iff_forall_prop.mp (by decide +kernel)
    have hfind : find (bytes ".NEW") (bytes "PART    .NEW") = some 8 := by decide +kernel
    unfold strstr
    rw [hname, str_append hchars, List.append_assoc, List.cons_append,
      find_append (by decide +kernel) (by decide +kernel), hfind]
    rfl
  have hl : (vtoc_ebcdic_dec f1.DS1DSNAM).length = 44 := by rw [hname]; decide +kernel
  obtain ⟨ch, hch⟩ : ∃ ch, strncpy (vtoc_ebcdic_dec f1.DS1DSNAM) 8 (bytes "." ++ dsname)
    (dsname.length + 2) = some ch := by
    unfold strncpy
    rw [if_pos (by rw [hl]; omega)]
    exact ⟨_, rfl⟩
  refine ⟨{ f1 with DS1DSNAM := vtoc_ebcdic_enc ch }, ?_, rfl, rfl⟩
  have h₁ : within (strstr (vtoc_ebcdic_dec f1.DS1DSNAM ++ behindName f1) (bytes ".NEW")) = .ok 8 :=
    by rw [hpos]; rfl
  have h₂ : within (get_part_dsname_by_type type) = .ok dsname := by rw [hd]; rfl
  have h₃ : within (strncpy (vtoc_ebcdic_dec f1.DS1DSNAM) 8 (bytes "." ++
    dsname) (dsname.length + 2)) = .ok ch := by
    rw [hch]; rfl
  unfold typeName
  exact (bind_ok h₁ _).trans ((bind_ok h₂ _).trans ((bind_ok h₃ _).trans rfl))

theorem addFree_eq {start len : Nat} {l : FreeLabels}
    (h : (if len > 0 then freespace anc.toFreeLabels '+' (u32 start) (u32 (start + len - 1 : Nat))
      anc.formatted_cylinders
      geo.heads else .ok anc.toFreeLabels) = .ok l) : addFree geo anc start len =
        .ok { anc with toFreeLabels := l } := by
  unfold addFree
  by_cases hl : len > 0
  · rw [if_pos hl] at h
    rw [if_pos (by omega), h]
  · rw [if_neg hl] at h
    cases h
    rw [if_neg (by omega)]

/-- The format 4 label once the free ranges `gs` are in the labels. -/
def markF4 (geo : HdGeometry) (anc : FdasdAnchor) (gs : List (Nat × Nat)) (f4 : Format4Label) : Format4Label :=
  if gs = [] then f4 else freespace_f4 anc.formatted_cylinders geo.heads f4

theorem markF4_update (gs : List (Nat × Nat)) (f4 : Format4Label) (addr : Cchhb) (n : Int) :
    markF4 geo anc gs (vtoc_update_format4_label f4 addr n) =
      vtoc_update_format4_label (markF4 geo anc gs f4) addr n := by
  unfold markF4
  split
  · rfl
  · exact freespace_f4_update _ _ f4 addr n

theorem markF4_DSREC (gs : List (Nat × Nat)) (f4 : Format4Label) : (markF4 geo anc gs f4).DS4DSREC =
    f4.DS4DSREC := by
  unfold markF4
  split
  · rfl
  · exact freespace_f4_DSREC _ _ f4

/-- The partitions `us₁` have labels and the gaps up to the first partition of `us₂` are in the free space labels;
`b` is the state in front of the loop. -/
structure Labelled (geo : HdGeometry) (b a : FdasdAnchor) (us₁ us₂ : List Node) : Prop where
  links : a.links = b.links
  first : a.first = b.first
  last : a.last = b.last
  base : SameBase b a
  count : a.used_partitions = us₁.length
  labels : Describes geo.heads (tracks geo b) a.toFreeLabels (gaps FIRST_USABLE_TRK
    (nextStart (tracks geo b) (us₂.map fun n => (b.info n).rng)) (us₁.map fun n => (b.info n).rng))
  f4 : a.f4 = markF4 geo b (gaps FIRST_USABLE_TRK
    (nextStart (tracks geo b) (us₂.map fun n => (b.info n).rng)) (us₁.map fun n => (b.info n).rng))
      (plainF4 geo b us₁.length)
  done : ∀ n ∈ us₁, ((a.info n).f1.DS1FMTID, (a.info n).f1.DS1EXT1) =
    rangeLabel geo b ((b.info n).start_trk, (b.info n).end_trk)
  rest : ∀ n, n ∉ us₁ → a.info n = b.info n

theorem Labelled.step {b a : FdasdAnchor} {cs : List ConfigData} {us₁ us₂ fs : List Node} {n : Node}
    (D : Disk geo b.formatted_cylinders) (today : Labeldate) (he : Entered geo b cs (us₁ ++ n :: us₂) fs)
    (hp : Partitioning (tracks geo b) (limits cs)) (h : Labelled geo b a us₁ (n :: us₂)) :
    ∃ a', confPartition geo today a n = .ok a' ∧ Labelled geo b a' (us₁ ++ [n]) us₂ := by
  have hnd := (List.nodup_append.mp he.list.nodup).1
  have hn : n ∉ us₁ := fun hm => (List.nodup_append.mp hnd).2.2 n hm n (by simp) rfl
  obtain ⟨hused, htype⟩ := he.used n (by simp)
  have hinfo : a.info n = b.info n := h.rest n hn
  have hrng := he.ranges
  rw [List.map_append, List.map_cons] at hrng
  have hs := hrng ▸ hp.sorted
  have hw := fun s hs => hp.within (hrng ▸ hs : s ∈ spans (limits cs))
  have hgap : (b.info n).fspace_trk =
      nextStart (tracks geo b) (us₂.map fun n => (b.info n).rng) - (b.info n).rng.2 := by
    have hg := he.tail_gaps
    rw [← hrng, List.map_append, List.map_cons, afters_append] at hg
    exact (List.cons.inj (List.append_inj hg (by simp [afters_length])).2).1
  have hcount : u32 ((a.used_partitions + 1 : Nat) : Int) = us₁.length + 1 := by
    have := he.all
    simp only [List.length_append, List.length_cons, USABLE_PARTITIONS, DASD_PARTN_BITS, Nat.reduceShiftLeft,
      Nat.reduceSub] at this
    rw [h.count]
    unfold u32; omega
  have hall : us₁.length < 15 := by
    have := he.all
    simp only [List.length_append, List.length_cons, USABLE_PARTITIONS, DASD_PARTN_BITS, Nat.reduceShiftLeft,
      Nat.reduceSub] at this
    omega
  let ext := partitionExtent geo (b.info n).start_trk (b.info n).end_trk
  let a₁ := { a.upd n fun p => { p with f1 := initPartitionLabel a today ext } with
    used_partitions := u32 (a.used_partitions + 1 : Nat) }
  let a₂ := announcePartition a₁
  have hb₁ : SameBase b a₁ := ⟨h.base.formatted, h.base.big_disk, h.base.blksize, h.base.dev_type⟩
  have hf₂ : a₂.f4 = markF4 geo b (gaps FIRST_USABLE_TRK (b.info n).rng.1 (us₁.map fun n => (b.info n).rng))
      (plainF4 geo b (us₁.length + 1)) := by
    have haddr := hb₁.highest (k := us₁.length + 1) hcount
    show vtoc_update_format4_label a.f4 (get_addr_of_highest_f1_f8_label a₁) ((a.f4.DS4DSREC : Int) - 1) = _
    rw [haddr, plainF4, markF4_update, h.f4, markF4_DSREC]
    rfl
  obtain ⟨l, hl, hd, hf4⟩ := @gap_behind geo b D a₂.toFreeLabels _ _ _ _ hs hw (describes_congr h.labels rfl rfl)
    (by rw [List.length_map]; exact hall) hgap
  have hfree : addFree geo a₂ ((b.info n).end_trk + 1) (b.info n).fspace_trk =
    .ok { a₂ with toFreeLabels := l } := by
    refine addFree_eq ?_
    rw [show a₂.formatted_cylinders = b.formatted_cylinders from h.base.formatted]
    exact hl
  obtain ⟨f1, hf1, hid, hext⟩ := typeName_new a today ext htype
  have hlabel : (({ a₂ with toFreeLabels := l } : FdasdAnchor).info n).f1 = initPartitionLabel a today ext := by
    show ((a.upd n fun p => { p with f1 := initPartitionLabel a today ext }).info n).f1 = _
    rw [upd_info, if_pos rfl]
  refine ⟨({ a₂ with toFreeLabels := l } : FdasdAnchor).upd n fun p => { p with f1 := f1 }, ?_, ?_⟩
  · unfold confPartition
    simp only [hinfo]
    rw [if_neg (by rw [hused]; decide)]
    refine (bind_ok hfree _).trans ?_
    rw [hlabel, bind_ok hf1]
  · have hm : (us₁ ++ [n]).map (fun n => (b.info n).rng) = us₁.map (fun n => (b.info n).rng) ++
      [(b.info n).rng] := by
      rw [List.map_append, List.map_singleton]
    refine ⟨h.links, h.first, h.last, ⟨hb₁.formatted, hb₁.big_disk, hb₁.blksize, hb₁.dev_type⟩, ?_, ?_, ?_, ?_, ?_⟩
    · rw [List.length_append, List.length_singleton]; exact hcount
    · rw [hm]; exact hd
    · show l.f4 = _
      rw [hm, hf4, hf₂, List.length_append, List.length_singleton]
      unfold markF4
      by_cases hz : (b.info n).fspace_trk > 0
      · have hne : ¬ gaps FIRST_USABLE_TRK (nextStart (tracks geo b) (us₂.map fun n => (b.info n).rng))
            (us₁.map (fun n => (b.info n).rng) ++ [(b.info n).rng]) = [] := fun hn => by
          have := ((gaps_extend_nil hs hw).mp hn).2
          omega
        rw [if_pos hz, if_neg hne]
        split
        · rfl
        · exact freespace_f4_idem _ _ _
      · rw [if_neg hz]
        have hiff := gaps_extend_nil hs hw
        rw [and_iff_left (by omega)] at hiff
        simp only [hiff]
    · intro m hm'
      by_cases hmn : m = n
      · subst hmn
        simp only [upd_info, if_true, hid, hext]
        rw [initPartitionLabel_format geo a today ((b.info m).start_trk, (b.info m).end_trk), h.base.rangeLabel]
      · have hm₁ : m ∈ us₁ := by simpa [hmn] using hm'
        rw [upd_info, if_neg hmn]
        show (((a.upd n fun p => { p with f1 := initPartitionLabel a today ext }).info m).f1.DS1FMTID,
          ((a.upd n fun p => { p with f1 := initPartitionLabel a today ext }).info m).f1.DS1EXT1) = _
        rw [upd_info, if_neg hmn]
        exact h.done m hm₁
    · intro m hm'
      simp only [List.mem_append, List.mem_singleton, not_or] at hm'
      rw [upd_info, if_neg hm'.2]
      show (a.upd n fun p => { p with f1 := initPartitionLabel a today ext }).info m = _
      rw [upd_info, if_neg hm'.2]
      exact h.rest m hm'.1

theorem Labelled.run {b : FdasdAnchor} {cs : List ConfigData} {fs : List Node} (D : Disk geo b.formatted_cylinders)
    (today : Labeldate) (hp : Partitioning (tracks geo b) (limits cs)) :
    ∀ (us₂ us₁ : List Node) {a : FdasdAnchor}, Entered geo b cs (us₁ ++ us₂) fs → Labelled geo b a us₁ us₂ →
      ∃ a', us₂.foldlM (confPartition geo today) a = .ok a' ∧ Labelled geo b a' (us₁ ++ us₂) []
  | [], us₁, a, he, h => ⟨a, rfl, by rw [List.append_nil]; exact h⟩
  | n :: us₂, us₁, a, he, h => by
    obtain ⟨a₁, h₁, hl₁⟩ := h.step D today he hp
    obtain ⟨a', h', hl'⟩ := Labelled.run D today hp us₂ (us₁ ++ [n]) (by simpa using he) hl₁
    refine ⟨a', ?_, by simpa using hl'⟩
    rw [List.foldlM_cons, bind_ok h₁, h']

theorem confPartition_unused {a : FdasdAnchor} (today : Labeldate) : ∀ {ns : List Node},
    (∀ n ∈ ns, (a.info n).used = 0x00) →
    ns.foldlM (confPartition geo today) a = .ok a
  | [], _ => rfl
  | n :: ns, h => by
    have hn : confPartition geo today a n = .ok a := by
      unfold confPartition
      simp only [h n (by simp)]
      rw [if_pos (by decide)]
    rw [List.foldlM_cons, bind_ok hn]
    exact confPartition_unused today fun m hm => h m (List.mem_cons_of_mem _ hm)

theorem confPartition_links {a a' : FdasdAnchor} {today : Labeldate} {n : Node}
    (h : confPartition geo today a n = .ok a') :
    a'.links = a.links := by
  unfold confPartition at h
  simp only at h
  split at h
  · cases h; rfl
  · obtain ⟨a₁, h₁, h⟩ := bind_eq_ok h
    obtain ⟨f1, -, h⟩ := bind_eq_ok h
    cases h
    unfold addFree at h₁
    split at h₁
    · split at h₁
      · cases h₁
      · cases h₁; rfl
    · cases h₁; rfl

theorem Entered.congr {a b : FdasdAnchor} {cs : List ConfigData} {us fs : List Node} (h : Entered geo a cs us fs)
    (hl : b.links = a.links) (hf : b.first = a.first) (hla : b.last = a.last) (hi : b.info = a.info)
    (hs : b.fspace_trk = a.fspace_trk) (hc : b.formatted_cylinders = a.formatted_cylinders) :
      Entered geo b cs us fs := by
  have ht : tracks geo b = tracks geo a := by unfold tracks; rw [hc]
  refine ⟨?_, h.all, ?_, ?_, ?_, ?_, ?_⟩
  · rw [hl, hf, hla]; exact h.list
  · rw [hi]; exact h.used
  · rw [hi]; exact h.free
  · rw [hi]; exact h.ranges
  · rw [hi, ht]; exact h.tail_gaps
  · rw [hs, ht]; exact h.head_gap

theorem auto_partition_conffile_eq {b : FdasdAnchor} {cs : List ConfigData} {us fs : List Node}
    (D : Disk geo b.formatted_cylinders) (today : Labeldate) (volid : List UInt8)
    (hp : Partitioning (tracks geo b) (limits cs)) (he : Entered geo b cs us fs) (hused : b.used_partitions = 0) :
    ∃ c, fdasd_auto_partition_conffile geo today volid b = .ok c ∧ SameBase b c ∧
      Describes geo.heads (tracks geo b) c.toFreeLabels (gaps FIRST_USABLE_TRK (tracks geo b) (spans (limits cs))) ∧
      tableLabels c = (markF4 geo b (gaps FIRST_USABLE_TRK (tracks geo b) (spans (limits cs)))
        (plainF4 geo b us.length),
        c.f5, c.f7, (limits cs).map fun r => .ok (rangeLabel geo b r)) := by
  let b₀ := initLabels geo (fdasd_init_volume_label b volid)
  obtain ⟨l, hl, hd, hf4⟩ := @gap_first geo b D b₀.toFreeLabels (spans (limits cs)) b.fspace_trk
    (fun s hs => ⟨(hp.within hs).1, by
      have h₁ := (hp.within hs).2
      have h₂ := hp.sorted.nonempty s hs
      omega⟩) (describes_init geo.heads _ _) he.head_gap
  let b₁ : FdasdAnchor := { b₀ with toFreeLabels := l }
  have hfree : addFree geo b₀ FIRST_USABLE_TRK b₀.fspace_trk = .ok b₁ := addFree_eq hl
  have hbase : SameBase b b₁ := ⟨rfl, rfl, rfl, rfl⟩
  have he₁ : Entered geo b₁ cs us fs := he.congr rfl rfl rfl rfl rfl rfl
  have hstart : Labelled geo b₁ b₁ [] us := by
    refine ⟨rfl, rfl, rfl, .refl _, hused, ?_, ?_, by simp, fun _ _ => rfl⟩
    · rw [he₁.ranges]; exact hd
    · show l.f4 = _
      rw [he₁.ranges, hf4, List.map_nil, gaps, List.length_nil, plainF4, show tracks geo b₁ = tracks geo b from rfl]
      have hg := he.head_gap
      unfold markF4
      by_cases hz : b.fspace_trk > 0
      · rw [if_pos hz, if_pos (show FIRST_USABLE_TRK < nextStart (tracks geo b) (spans (limits cs)) by omega),
          if_neg (List.cons_ne_nil _ _)]
        rfl
      · rw [if_neg hz, if_neg (show ¬ FIRST_USABLE_TRK < nextStart (tracks geo b)
          (spans (limits cs)) by omega), if_pos rfl]
        rfl
  obtain ⟨c, hrun, hlab⟩ := @Labelled.run geo b₁ cs fs D today hp us [] b₁ he₁ hstart
  rw [List.nil_append] at hlab
  have hfold : (us ++ fs).foldlM (confPartition geo today) b₁ = .ok c := by
    rw [List.foldlM_append, bind_ok hrun]
    refine confPartition_unused today fun n hn => ?_
    rw [hlab.rest n fun hu => (List.nodup_append.mp he.list.nodup).2.2 n hu n hn rfl]
    exact he₁.free n hn
  have hb : ∀ (s : FdasdAnchor) n s', s.links.next = b₁.links.next → confPartition geo today s n = .ok s' →
      s'.links.next = b₁.links.next := by
    intro s n s' hs hr
    rw [confPartition_links hr, hs]
  have hfor := forNodes_eq hb USABLE_PARTITIONS he₁.list.seg (le_of_eq he₁.all) rfl
  rw [hfold, ← he₁.list.first_eq] at hfor
  have hgs : us.map (fun n => (b₁.info n).rng) = spans (limits cs) := he₁.ranges
  have hdc := hlab.labels
  rw [hgs] at hdc
  refine ⟨{ c with vtoc_changed := c.vtoc_changed + 1 }, ?_, ?_, hdc, ?_⟩
  · unfold fdasd_auto_partition_conffile
    exact (bind_ok hfree _).trans ((bind_ok hfor _).trans rfl)
  · exact hbase.trans ⟨hlab.base.formatted, hlab.base.big_disk, hlab.base.blksize, hlab.base.dev_type⟩
  · have hlist : IsList c.links c.first c.last (us ++ fs) := by
      rw [hlab.links, hlab.first, hlab.last]; exact he₁.list
    have ht := @tableLabels_eq { c with vtoc_changed := c.vtoc_changed + 1 } us fs hlist hlab.count
    have hf := hlab.f4
    rw [hgs] at hf
    have hplain : plainF4 geo b₁ us.length = plainF4 geo b us.length := hbase.plainF4 _
    have hr := congrArg (List.map fun r : Nat × Nat =>
      (Except.ok (rangeLabel geo b (r.1, r.2 - 1)) : Except Stop _)) hgs
    rw [spans, List.map_map, List.map_map] at hr
    have hmap : us.map (fun n => (Except.ok ((c.info n).f1.DS1FMTID, (c.info n).f1.DS1EXT1) : Except Stop _)) =
        (limits cs).map fun r => .ok (rangeLabel geo b r) := by
      refine (List.map_congr_left fun n hn => ?_).trans hr
      rw [hlab.done n hn, hbase.rangeLabel]
      rfl
    rw [ht]
    simp only [hf, hplain, hmap]
    rfl

theorem partitionFromFile_eq {xs : List Node} (W : WholeDisk geo anc xs) (today : Labeldate) (volid : List UInt8)
    (conffile : String) {cs : List ConfigData} (hp : Partitioning (tracks geo anc) (limits cs))
    (htype : ∀ c ∈ cs, (get_part_dsname_by_type c.type).isSome) :
    ∃ c, partitionFromFile geo today volid conffile (confFile cs) anc = .ok c ∧
      Describes geo.heads (tracks geo anc) c.toFreeLabels (gaps FIRST_USABLE_TRK (tracks geo anc)
        (spans (limits cs))) ∧
      tableLabels c = (markF4 geo anc (gaps FIRST_USABLE_TRK (tracks geo anc) (spans (limits cs)))
        (plainF4 geo anc cs.length), c.f5, c.f7, (limits cs).map fun r => .ok (rangeLabel geo anc r)) := by
  obtain ⟨l, heq, -, ht⟩ := recreate_table W.toDisk W.toWellLinked
  let a : FdasdAnchor := { recreated geo anc l with confdata := confFile cs }
  have hbase : SameBase anc a := ⟨rfl, rfl, rfl, rfl⟩
  have hlist : IsList a.links a.first a.last xs := ht.list
  obtain ⟨b, hb, hf, he⟩ := @check_conffile_entered geo a cs xs W.toDisk hp rfl conffile htype hlist W.all
    (fun n => (ht.free n (by have := ht.mem n; simpa using this)).used) rfl
  have hbb := hbase.trans hf.toSameBase
  have htr : tracks geo b = tracks geo anc := by unfold tracks; rw [hbb.formatted]
  obtain ⟨c, hc, hbc, hd, hl⟩ := auto_partition_conffile_eq (by rw [hbb.formatted]; exact W.toDisk) today volid
    (by rw [htr]; exact hp) he (by rw [hf.used_partitions]; rfl)
  have hlen : (xs.take cs.length).length = cs.length := by
    have h₁ := hp.length
    have h₂ := W.all
    rw [limits, List.length_map] at h₁
    rw [List.length_take]
    omega
  rw [htr] at hd hl
  refine ⟨c, ?_, hd, ?_⟩
  · unfold partitionFromFile
    exact (bind_ok heq _).trans ((bind_ok hb _).trans hc)
  · rw [hl, hlen, hbb.plainF4]
    have hmark : ∀ gs f4, markF4 geo b gs f4 = markF4 geo anc gs f4 := fun gs f4 => by
      unfold markF4; rw [hbb.formatted]
    rw [hmark]
    simp only [hbb.rangeLabel]

end

end Fdasd
