import S390Tools.Hmcdrvfs.Fuse

/-!
# What the cache and the sequential reads show

The entries of the cache are those of the medium, whatever failed and whenever they
were dropped. A path that is missing is found again, one directory after the other.
-/

set_option maxRecDepth 100000

namespace Hmcdrvfs

open CString Splice

/-! ## The table -/

/-- One entry for a path, in its line, always one for the root, and `P` of each. -/
structure Table (P : Bytes → Stat → Option Bytes → Prop) (cache : Cache) : Prop where
  line : ∀ i, ∀ fp ∈ cache i, hmcdrv_hash_path fp.path = i ∧ P fp.path fp.st fp.symlnk
  once : ∀ i, ((cache i).map (·.path)).Nodup
  root : (lookup cache root).isSome

section
variable {P : Bytes → Stat → Option Bytes → Prop} {cache : Cache} {timeout now : Int} {path : Bytes}

theorem Table.found (h : Table P cache) {fp : CacheFile} (hf : lookup cache path = some fp) :
    fp.path = path ∧ P fp.path fp.st fp.symlnk := by
  have hp := List.find?_some hf
  exact ⟨of_decide_eq_true hp, (h.line _ fp (List.mem_of_find?_eq_some hf)).2⟩

theorem map_restart_list (timeout : Int) (path : Bytes) (l : List CacheFile) :
    (restart_list timeout path l).map (fun fp => (fp.path, fp.st, fp.symlnk)) = l.map fun fp =>
      (fp.path, fp.st, fp.symlnk) := by
  induction l with
  | nil => rfl
  | cons fp l ih =>
    rw [restart_list]
    split
    · rfl
    · rw [List.map_cons, List.map_cons, ih]

theorem find_restart_list (q : Bytes) (l : List CacheFile) :
    ((restart_list timeout path l).find? fun fp => fp.path = q).isSome =
      (l.find? fun fp => fp.path = q).isSome := by
  have h : ∀ l : List CacheFile, (l.find? fun fp => fp.path = q).isSome =
      (l.map fun fp => (fp.path, fp.st, fp.symlnk)).any fun x => decide (x.1 = q) := fun l => by
    induction l with
    | nil => rfl
    | cons fp l ih =>
      rw [List.find?_cons, List.map_cons, List.any_cons, ← ih]
      cases decide (fp.path = q) <;> rfl
  rw [h, h, map_restart_list]

theorem cache_find_eq : (hmcdrv_cache_find timeout path cache).2 = cache ∨
    (hmcdrv_cache_find timeout path cache).2 =
    Function.update cache (hmcdrv_hash_path path) (restart_list timeout path (cache (hmcdrv_hash_path path))) := by
  unfold hmcdrv_cache_find
  split
  · exact Or.inl rfl
  · exact Or.inr rfl

theorem isSome_find (q : Bytes) : (lookup (hmcdrv_cache_find timeout path cache).2 q).isSome =
    (lookup cache q).isSome := by
  rcases @cache_find_eq cache timeout path with he | he
  · rw [he]
  · rw [he]
    unfold lookup
    by_cases hh : hmcdrv_hash_path q = hmcdrv_hash_path path
    · rw [hh, Function.update_self, find_restart_list]
    · rw [Function.update_of_ne hh]

theorem Table.find (h : Table P cache) : Table P (hmcdrv_cache_find timeout path cache).2 where
  line := by
    rcases @cache_find_eq cache timeout path with he | he
    · rw [he]
      exact h.line
    · rw [he]
      intro i fp hfp
      by_cases hi : i = hmcdrv_hash_path path
      · subst hi
        rw [Function.update_self] at hfp
        have hm := List.mem_map_of_mem (f := fun fp : CacheFile => (fp.path, fp.st, fp.symlnk)) hfp
        rw [map_restart_list] at hm
        obtain ⟨fp', hfp', hf⟩ := List.mem_map.mp hm
        simp only [Prod.mk.injEq] at hf
        obtain ⟨h₁, h₂⟩ := h.line _ fp' hfp'
        rw [hf.1] at h₁ h₂
        rw [hf.2.1, hf.2.2] at h₂
        exact ⟨h₁, h₂⟩
      · rw [Function.update_of_ne hi] at hfp
        exact h.line i fp hfp
  once := by
    rcases @cache_find_eq cache timeout path with he | he
    · rw [he]
      exact h.once
    · rw [he]
      intro i
      by_cases hi : i = hmcdrv_hash_path path
      · subst hi
        have hm := congrArg (List.map Prod.fst) (map_restart_list timeout path (cache (hmcdrv_hash_path path)))
        rw [List.map_map, List.map_map] at hm
        rw [Function.update_self]
        have hpath : (fun fp : CacheFile => fp.path) = Prod.fst ∘ fun fp : CacheFile =>
          (fp.path, fp.st, fp.symlnk) := rfl
        rw [hpath, hm]
        exact h.once _
      · rw [Function.update_of_ne hi]
        exact h.once i
  root := by rw [isSome_find]; exact h.root

theorem mem_refresh_list {f fp : CacheFile} : ∀ {l : List CacheFile}, fp ∈ refresh_list f l → fp = f ∨ fp ∈ l
  | [], h => Or.inl (List.mem_singleton.mp h)
  | a :: l, h => by
    rw [refresh_list] at h
    split at h
    · rcases List.mem_cons.mp h with h | h
      · exact Or.inl h
      · exact Or.inr (List.mem_cons_of_mem a h)
    · rcases List.mem_cons.mp h with rfl | h
      · exact Or.inr List.mem_cons_self
      · rcases mem_refresh_list h with h | h
        · exact Or.inl h
        · exact Or.inr (List.mem_cons_of_mem a h)

theorem nodup_refresh_list {f : CacheFile} : ∀ {l : List CacheFile}, (l.map (·.path)).Nodup →
    ((refresh_list f l).map (·.path)).Nodup
  | [], _ => List.nodup_singleton _
  | a :: l, h => by
    rw [List.map_cons, List.nodup_cons] at h
    rw [refresh_list]
    split
    · rename_i ha
      rw [List.map_cons, List.nodup_cons, ← ha]
      exact h
    · rename_i ha
      rw [List.map_cons, List.nodup_cons]
      refine ⟨fun hm => ?_, nodup_refresh_list h.2⟩
      obtain ⟨fp, hfp, he⟩ := List.mem_map.mp hm
      rcases mem_refresh_list hfp with rfl | hfp
      · exact ha he.symm
      · exact h.1 (List.mem_map.mpr ⟨fp, hfp, he⟩)

theorem Table.refresh (h : Table P cache) (timeout : Int) (hne : path ≠ [])
    (hlt : path.length < HMCDRV_FUSE_MAXPATH) {st : Stat}
    {symlnk : Option Bytes} (hp : P path st symlnk) :
      Table P (hmcdrv_cache_refresh timeout path st symlnk cache) where
  line := by
    have hpos := List.length_pos_iff.mpr hne
    rw [hmcdrv_cache_refresh, if_neg (by omega)]
    intro i fp hfp
    by_cases hi : i = hmcdrv_hash_path path
    · subst hi
      rw [Function.update_self] at hfp
      rcases mem_refresh_list hfp with rfl | hfp
      · exact ⟨rfl, hp⟩
      · exact h.line _ fp hfp
    · rw [Function.update_of_ne hi] at hfp
      exact h.line i fp hfp
  once := by
    have hpos := List.length_pos_iff.mpr hne
    rw [hmcdrv_cache_refresh, if_neg (by omega)]
    intro i
    by_cases hi : i = hmcdrv_hash_path path
    · subst hi
      rw [Function.update_self]
      exact nodup_refresh_list (h.once _)
    · rw [Function.update_of_ne hi]
      exact h.once i
  root := by
    rw [lookup_refresh cache hne hlt]
    split
    · rfl
    · exact h.root

theorem Table.cached (timeout : Int) : ∀ {l : List Stored} {cache : Cache}, Table P cache →
    (∀ e ∈ l, (e.path ≠ [] ∧ e.path.length < HMCDRV_FUSE_MAXPATH) ∧ P e.path e.st e.symlnk) →
      Table P (l.foldl (fun cache e => hmcdrv_cache_refresh timeout e.path e.st e.symlnk cache) cache) ∧
        ∀ q, (lookup cache q).isSome ∨ (∃ e ∈ l, e.path = q) →
          (lookup (l.foldl (fun cache e => hmcdrv_cache_refresh timeout e.path e.st e.symlnk cache) cache) q).isSome
  | [], _, h, _ => ⟨h, fun q hq => hq.resolve_right fun ⟨e, he, _⟩ => absurd he List.not_mem_nil⟩
  | a :: l, cache, h, hl => by
    obtain ⟨ha, hl⟩ := List.forall_mem_cons.mp hl
    obtain ⟨hp, hq⟩ := Table.cached timeout (h.refresh timeout ha.1.1 ha.1.2 ha.2) hl
    refine ⟨hp, fun q hin => hq q ?_⟩
    rw [lookup_refresh cache ha.1.1 ha.1.2]
    by_cases haq : a.path = q
    · rw [if_pos haq]
      exact Or.inl rfl
    · rw [if_neg haq]
      refine hin.imp id fun ⟨e, he, heq⟩ => ⟨e, (List.mem_cons.mp he).resolve_left fun h0 => haq (h0 ▸ heq), heq⟩

theorem Table.expire (h : Table P cache) (i : Nat) : Table P (hmcdrv_cache_expire now cache i) where
  line := by
    intro j fp hfp
    unfold hmcdrv_cache_expire at hfp
    by_cases hj : j = i
    · subst hj
      rw [Function.update_self] at hfp
      exact h.line j fp (List.mem_filter.mp hfp).1
    · rw [Function.update_of_ne hj] at hfp
      exact h.line j fp hfp
  once := by
    intro j
    unfold hmcdrv_cache_expire
    by_cases hj : j = i
    · subst hj
      rw [Function.update_self]
      exact (h.once j).sublist (List.filter_sublist.map _)
    · rw [Function.update_of_ne hj]
      exact h.once j
  root := by
    have hroot := h.root
    unfold hmcdrv_cache_expire
    unfold lookup at hroot ⊢
    by_cases hi : hmcdrv_hash_path Hmcdrvfs.root = i
    · subst hi
      have hkeep : ∀ l : List CacheFile,
        (l.filter fun fp => !(decide (fp.timeout ≤ now) && fp.path != Hmcdrvfs.root)).find?
          (fun fp => fp.path = Hmcdrvfs.root) = l.find? fun fp => fp.path = Hmcdrvfs.root := fun l => by
        rw [List.find?_filter]
        congr 1
        funext fp
        by_cases hp : fp.path = Hmcdrvfs.root
        · simp [hp]
        · simp [hp]
      rw [Function.update_self, hkeep]
      exact hroot
    · rw [Function.update_of_ne hi]
      exact hroot

theorem Table.aging : ∀ (n : Nat) {cache : Cache} (i : Nat), Table P cache → Table P (aging_lines now n cache i).1
  | 0, _, _, h => h
  | n + 1, _, i, h => Table.aging n _ (h.expire i)

end

/-! ## Paths -/

def Named (names : List Bytes) : Prop := ∀ c ∈ names, c ≠ [] ∧ ∀ x ∈ c, x ≠ 0x2f ∧ x ≠ 0

theorem getLast_name {c : Bytes} (hc : c ≠ []) (hs : ∀ x ∈ c, x ≠ 0x2f ∧ x ≠ 0) (p : Bytes) :
    (p ++ c).getLast? ≠ some 0x2f := by
  rw [List.getLast?_append_of_ne_nil p hc, List.getLast?_eq_getLast_of_ne_nil hc]
  intro h
  exact (hs _ (List.getLast_mem hc)).1 (Option.some.inj h)

theorem rdropWhile_name {c : Bytes} (hs : ∀ x ∈ c, x ≠ 0x2f ∧ x ≠ 0) (p : Bytes) :
    (p ++ [0x2f] ++ c).rdropWhile (· != 0x2f) = p ++ [0x2f] := by
  rw [List.rdropWhile, List.reverse_append, List.dropWhile_append_of_pos]
  · rw [List.reverse_append, List.reverse_singleton, List.singleton_append, List.dropWhile_cons_of_neg (by simp),
      List.reverse_cons, List.reverse_reverse]
  · intro x hx
    simpa using (hs x (List.mem_reverse.mp hx)).1

theorem rdropWhile_slash {p : Bytes} (h : p.getLast? ≠ some 0x2f) : p.rdropWhile (· == 0x2f) = p := by
  cases p using List.reverseRecOn with
  | nil => rfl
  | append_singleton p x =>
    rw [List.rdropWhile_concat_neg]
    simpa using h

theorem dir_path_root : dir_path root = root := rfl

theorem getLast_path_of {c : Bytes} {cs : List Bytes} (h : Named (c :: cs)) :
    (path_of (c :: cs)).getLast? ≠ some 0x2f :=
  getLast_name (h c List.mem_cons_self).1 (h c List.mem_cons_self).2 _

theorem path_of_ne_nil : ∀ cs : List Bytes, path_of cs ≠ []
  | [] => List.cons_ne_nil _ _
  | c :: cs => by
    rw [path_of, dir_path]
    split
    · exact List.append_ne_nil_of_left_ne_nil (path_of_ne_nil cs) _
    · exact List.append_ne_nil_of_left_ne_nil (List.append_ne_nil_of_right_ne_nil _ (List.cons_ne_nil _ _)) _

theorem dir_path_eq {cs : List Bytes} (h : Named cs) :
    ∃ p, dir_path (path_of cs) = p ++ [0x2f] ∧ p.getLast? ≠ some 0x2f ∧ (p = [] → cs = []) ∧
      (cs ≠ [] → p = path_of cs) := by
  cases cs with
  | nil => exact ⟨[], rfl, by decide, fun _ => rfl, fun h => absurd rfl h⟩
  | cons c cs =>
    have hl := getLast_path_of h
    refine ⟨path_of (c :: cs), ?_, hl, fun h0 => absurd h0 (path_of_ne_nil _), fun _ => rfl⟩
    rw [dir_path, if_neg hl]

theorem dirname_path_of {c : Bytes} {cs : List Bytes} (h : Named (c :: cs)) :
    dirname (path_of (c :: cs)) = path_of cs := by
  obtain ⟨hc, hcs⟩ := List.forall_mem_cons.mp h
  obtain ⟨p, hp, hl, hnil, hpath⟩ := dir_path_eq hcs
  have hslash : (p ++ [(0x2f : UInt8)]).rdropWhile (· == 0x2f) = p := by
    rw [List.rdropWhile_concat_pos _ _ _ (by simp), rdropWhile_slash hl]
  unfold dirname
  simp only
  rw [rdropWhile_slash (getLast_path_of h), path_of, hp, rdropWhile_name hc.2, hslash]
  by_cases h0 : p = []
  · rw [if_neg (not_not.mpr h0), h0, hnil h0]
    rfl
  · rw [if_pos h0]
    refine hpath fun hcs0 => h0 ?_
    subst hcs0
    rw [path_of, dir_path_root] at hp
    cases p with
    | nil => rfl
    | cons x p => exact absurd (congrArg List.length hp) (by simp [root])

theorem path_of_ne_root {c : Bytes} {cs : List Bytes} (h : Named (c :: cs)) : path_of (c :: cs) ≠ root := fun h0 =>
  getLast_path_of h (by rw [h0]; rfl)

theorem path_of_injective : ∀ {cs ds : List Bytes}, Named cs → Named ds → path_of cs = path_of ds → cs = ds
  | [], [], _, _, _ => rfl
  | [], _ :: _, _, hd, h => absurd h.symm (path_of_ne_root hd)
  | _ :: _, [], hc, _, h => absurd h (path_of_ne_root hc)
  | c :: cs, d :: ds, hc, hd, h => by
    have hdir := congrArg dirname h
    rw [dirname_path_of hc, dirname_path_of hd] at hdir
    obtain rfl := path_of_injective (List.forall_mem_cons.mp hc).2 (List.forall_mem_cons.mp hd).2 hdir
    rw [List.append_cancel_left h]

theorem length_path_of_cons (c : Bytes) (cs : List Bytes) : (path_of (c :: cs)).length =
    (dir_path (path_of cs)).length + c.length :=
  List.length_append

theorem length_le_dir_path (p : Bytes) : p.length ≤ (dir_path p).length := by
  unfold dir_path
  split
  · exact Nat.le_refl _
  · rw [List.length_append]
    exact Nat.le_add_right _ _

theorem length_dir_path_le (p : Bytes) : (dir_path p).length ≤ p.length + 1 := by
  unfold dir_path
  split
  · exact Nat.le_succ _
  · rw [List.length_append, List.length_singleton]

theorem length_le_path_of : ∀ {cs : List Bytes}, Named cs → cs.length < (path_of cs).length
  | [], _ => Nat.zero_lt_one
  | c :: cs, h => by
    obtain ⟨hc, hcs⟩ := List.forall_mem_cons.mp h
    have hle := length_le_dir_path (path_of cs)
    have hlt := length_le_path_of hcs
    have hpos := List.length_pos_iff.mpr hc.1
    rw [length_path_of_cons, List.length_cons]
    omega

theorem path_of_no_nul : ∀ {cs : List Bytes}, Named cs → ∀ x ∈ path_of cs, x ≠ 0
  | [], _, x, hx => by
    rw [List.mem_singleton.mp hx]
    decide
  | c :: cs, h, x, hx => by
    obtain ⟨hc, hcs⟩ := List.forall_mem_cons.mp h
    rcases List.mem_append.mp hx with hx | hx
    · exact dir_path_no_nul (path_of_no_nul hcs) x hx
    · exact (hc.2 x hx).2

/-! ## The medium -/

def Env.listing (env : Env) (cs : List Bytes) : List Entry :=
    listed env.ctx (env.output (hmcdrv_ftp_str .dir ++ path_of cs))

def Env.file (env : Env) : List Bytes → Option (Stat × Option Bytes)
  | [] => some (env.ctx.st, none)
  | c :: cs =>
    if (env.file cs).isSome then ((env.listing cs).find? (·.name = c)).map fun e => (e.st, e.target) else none

section
variable (env : Env)

/-- The listings are those of a file system with short paths, and fit into the buffer. -/
structure Medium : Prop where
  no_nul : ∀ cs, Named cs → (env.file cs).isSome → ∀ c ∈ env.output (hmcdrv_ftp_str .dir ++ path_of cs), c ≠ 0
  fits : ∀ cs, Named cs → (env.file cs).isSome →
    Chunked.Fits isspace nl (line_entry env.ctx) HMCDRV_FUSE_DIRBUF_LEN
      (env.output (hmcdrv_ftp_str .dir ++ path_of cs))
  once : ∀ cs, Named cs → (env.file cs).isSome → ((env.listing cs).map (·.name)).Nodup
  name : ∀ cs, Named cs → (env.file cs).isSome → ∀ e ∈ env.listing cs, ∀ x ∈ e.name, x ≠ 0x2f
  short : ∀ cs, Named cs → (env.file cs).isSome → ∀ e ∈ env.listing cs,
    (path_of (e.name :: cs)).length < HMCDRV_FUSE_MAXPATH - 1

def Holds (path : Bytes) (st : Stat) (symlnk : Option Bytes) : Prop :=
  ∃ cs, Named cs ∧ path = path_of cs ∧ ∃ target, env.file cs = some (st, target) ∧ symlnk = kept_target target

structure Inv (s : Fs) : Prop where
  table : Table (Holds env) s.cache
  synced : s.ftp.Synced

end

section
variable {env : Env} {cs : List Bytes} {s : Fs}

theorem mem_listing {e : Entry} (h : e ∈ env.listing cs) :
    e.name ≠ [] ∧ ∀ c ∈ e.name, c ∈ env.output (hmcdrv_ftp_str .dir ++ path_of cs) := by
  obtain ⟨l, hl, he⟩ := List.mem_filterMap.mp h
  obtain ⟨hne, hname, -⟩ := line_entry_name he
  exact ⟨hne, fun c hc => (Chunked.mem_of_mem_lines hl (hname c hc)).resolve_left List.not_mem_nil⟩

theorem Medium.named (m : Medium env) (hcs : Named cs) (hex : (env.file cs).isSome) {e : Entry}
    (he : e ∈ env.listing cs) :
    Named (e.name :: cs) := by
  obtain ⟨hne, hmem⟩ := mem_listing he
  refine List.forall_mem_cons.mpr ⟨⟨hne, fun x hx => ⟨m.name cs hcs hex e he x hx, ?_⟩⟩, hcs⟩
  exact m.no_nul cs hcs hex x (hmem x hx)

theorem Medium.file (m : Medium env) (hcs : Named cs) (hex : (env.file cs).isSome) {e : Entry}
    (he : e ∈ env.listing cs) :
    env.file (e.name :: cs) = some (e.st, e.target) := by
  have hnd := m.once cs hcs hex
  have hfind : (env.listing cs).find? (fun x => x.name = e.name) = some e := by
    obtain ⟨pre, post, hsplit⟩ := List.append_of_mem he
    rw [hsplit] at hnd ⊢
    rw [List.map_append, List.map_cons, List.nodup_append] at hnd
    rw [List.find?_append, List.find?_eq_none.mpr, Option.none_or, List.find?_cons_of_pos (by simp)]
    intro x hx
    have := hnd.2.2 x.name (List.mem_map_of_mem hx) e.name List.mem_cons_self
    simpa using this
  rw [Env.file, if_pos hex, hfind]
  rfl

theorem Medium.length (m : Medium env) : ∀ {cs : List Bytes}, Named cs → (env.file cs).isSome →
    (path_of cs).length < HMCDRV_FUSE_MAXPATH - 1
  | [], _, _ => by decide
  | c :: cs, h, hex => by
    rw [Env.file] at hex
    split at hex
    · rename_i hdir
      rw [Option.isSome_map] at hex
      obtain ⟨e, he⟩ := Option.isSome_iff_exists.mp hex
      have hc : e.name = c := by simpa using List.find?_some he
      rw [← hc]
      exact m.short cs (List.forall_mem_cons.mp h).2 hdir e (List.mem_of_find?_eq_some he)
    · cases hex

/-! ## Reading a directory -/

theorem ftp_cmd_spec (env : Env) (h : s.ftp.Synced) {path : Bytes}
    (hlen : path.length < HMCDRV_FUSE_MAXPATH) (cmd : CmdId) (len offset : Nat) :
    ∃ s', s'.cache = s.cache ∧ s'.index = s.index ∧ s'.calls = s.calls + 1 ∧ s'.ftp.Synced ∧
      ((hmcdrv_ftp_cmd env path cmd len offset s = (none, s') ∧ s'.errors = s.errors + 1) ∨
        (hmcdrv_ftp_cmd env path cmd len offset s =
          (some (ftp_dir (env.output (hmcdrv_ftp_str cmd ++ path)) (env.reply s.calls).wish len offset), s') ∧
          s'.errors = s.errors)) := by
  have hcmd : (hmcdrv_ftp_str cmd).length = HMCDRV_FUSE_OFSPATH := by cases cmd <;> rfl
  have hne : hmcdrv_ftp_str cmd ++ path ≠ [] :=
    List.ne_nil_of_length_pos (by
      rw [List.length_append, hcmd]
      exact Nat.lt_of_lt_of_le (by decide) (Nat.le_add_right _ _))
  have hlt : (hmcdrv_ftp_str cmd ++ path).length < HMCDRV_FUSE_MAXCMDLEN := by
    rw [List.length_append, hcmd, HMCDRV_FUSE_MAXCMDLEN]
    omega
  obtain ⟨hsync, hbuf⟩ := @transfer_spec env.output _ offset _ h hne hlt (env.reply s.calls) len
  unfold hmcdrv_ftp_cmd
  generalize hmcdrv_ftp_transfer env.output (env.reply s.calls)
    (hmcdrv_ftp_str cmd ++ path) len offset s.ftp = t at hsync hbuf
  obtain ⟨buf, ftp⟩ := t
  cases buf with
  | none =>
    exact ⟨{ s with ftp, calls := s.calls + 1, errors := s.errors + 1 }, rfl, rfl, rfl, hsync, Or.inl ⟨rfl, rfl⟩⟩
  | some buf =>
    rw [hbuf buf rfl]
    exact ⟨{ s with ftp, calls := s.calls + 1 }, rfl, rfl, rfl, hsync, Or.inr ⟨rfl, rfl⟩⟩

end

section
variable {env : Env} {refuses : Nat → Bool} {dir text : Bytes} {len : Nat}

theorem dir_chunks_eq (hlt : dir.length < HMCDRV_FUSE_MAXPATH) (hlen : (dir_path dir).length + len =
    HMCDRV_FUSE_MAXPATH)
    (hpos : 1 ≤ len) (hdir : ∀ c ∈ dir, c ≠ 0) (ht : env.output (hmcdrv_ftp_str .dir ++ dir) = text)
    (htext : ∀ c ∈ text, c ≠ 0) : ∀ {n offset : Nat} {frag : Bytes} {scan : Scan} {s : Fs},
      (text.drop offset).length < n →
      Good (dir_path dir) scan.b → (∀ c ∈ frag, c ≠ 0) → frag.length ≤ HMCDRV_FUSE_DIRBUF_LEN → s.ftp.Synced →
      ∃ ended scan' s', dir_chunks env refuses dir (dir_path dir).length len n frag offset scan s =
        some (ended, scan', s') ∧
        s'.cache = s.cache ∧ s'.index = s.index ∧ s'.ftp.Synced ∧ s.errors ≤ s'.errors ∧
        ∃ k, scan'.log = (Chunked.rounds isspace nl (decoded env.ctx len) HMCDRV_FUSE_DIRBUF_LEN
            (fun i => (env.reply i).wish) k s.calls frag (text.drop offset)).foldl
              (record refuses (dir_path dir) len) scan.log ∧
          (s'.errors = s.errors → k = n)
  | n + 1, offset, frag, scan, s, hn, hg, hfrag, hle, hsync => by
    obtain ⟨s₁, hcache, hindex, hcalls, hsync₁, ⟨hcmd, herr⟩ | ⟨hcmd, herr⟩⟩ := ftp_cmd_spec env hsync hlt .dir
      (HMCDRV_FUSE_DIRBUF_LEN - frag.length) offset
    · rw [dir_chunks, hcmd]
      exact ⟨_, _, _, rfl, hcache, hindex, hsync₁, by omega, 0, rfl, fun h => by omega⟩
    · rw [dir_chunks, hcmd, ht]
      generalize hc : ftp_dir text (env.reply s.calls).wish (HMCDRV_FUSE_DIRBUF_LEN - frag.length) offset = c
      have hchunk : (text.drop offset).take (min (HMCDRV_FUSE_DIRBUF_LEN - frag.length)
        ((env.reply s.calls).wish + 1)) = c := hc
      simp only
      by_cases h0 : c = []
      · rw [if_pos h0]
        refine ⟨_, _, _, rfl, hcache, hindex, hsync₁, by omega, n + 1, ?_, fun _ => rfl⟩
        rw [Chunked.rounds]
        simp only [hchunk]
        rw [if_pos h0]
        rfl
      · have hcl : c.length ≤ HMCDRV_FUSE_DIRBUF_LEN - frag.length := by rw [← hchunk, List.length_take]; omega
        have hpc := List.length_pos_iff.mpr h0
        have hsize : ¬HMCDRV_FUSE_DIRBUF_SIZE ≤ frag.length + c.length := by
          unfold HMCDRV_FUSE_DIRBUF_LEN at hcl hle
          unfold HMCDRV_FUSE_DIRBUF_SIZE at hcl hle ⊢
          omega
        have hct : c.length ≤ (text.drop offset).length := by rw [← hchunk, List.length_take]; omega
        have hbuf : ∀ x ∈ frag ++ c, x ≠ 0 := by
          intro x hx
          rcases List.mem_append.mp hx with hx | hx
          · exact hfrag x hx
          · exact htext x (List.mem_of_mem_drop (List.mem_of_mem_take (hchunk ▸ hx)))
        obtain ⟨scan₁, hrun, hg₁, hlog₁, hnul₁, hle₁⟩ := @scan_chunk_behind env.ctx refuses _ len frag c scan hlen
          hpos (dir_path_no_nul hdir) hg hbuf h0 (by omega)
        obtain ⟨ended, scan₂, s₂, hrec, hcache₂, hindex₂, hsync₂, herr₂, k, hlog₂, hk⟩ :=
          dir_chunks_eq hlt hlen hpos hdir ht htext
          (show (text.drop (offset + c.length)).length < n by
            rw [← List.drop_drop, List.length_drop]; omega) hg₁ hnul₁ hle₁ hsync₁
        rw [if_neg h0, if_neg hsize, hrun]
        refine ⟨ended, scan₂, s₂, hrec, hcache₂.trans hcache, hindex₂.trans hindex, hsync₂,
          by omega, k + 1, ?_, fun h => by
          rw [hk (by omega)]⟩
        rw [hlog₂, hlog₁, Chunked.rounds]
        simp only [hchunk]
        rw [if_neg h0, List.foldl_append, List.drop_drop, hcalls]

end

section
variable {env : Env} {timeout : Int} {cs : List Bytes} {s : Fs}

theorem Medium.entries (m : Medium env) (hcs : Named cs) (hex : (env.file cs).isSome) :
    Chunked.entries nl (decoded env.ctx (room (path_of cs)))
      (env.output (hmcdrv_ftp_str .dir ++ path_of cs)) = env.listing cs := by
  by_cases hroom : 2 ≤ room (path_of cs)
  · rw [decoded_of_room hroom]
    rfl
  · rw [entries_no_room hroom]
    refine (List.eq_nil_iff_forall_not_mem.mpr fun e he => hroom ?_).symm
    have hlt := m.short cs hcs hex e he
    have hpos := List.length_pos_iff.mpr (mem_listing he).1
    rw [length_path_of_cons] at hlt
    unfold room
    omega

theorem Medium.decodedFits (m : Medium env) (hcs : Named cs) (hex : (env.file cs).isSome) :
    Chunked.Fits isspace nl (decoded env.ctx (room (path_of cs))) HMCDRV_FUSE_DIRBUF_LEN
      (env.output (hmcdrv_ftp_str .dir ++ path_of cs)) := by
  by_cases hroom : 2 ≤ room (path_of cs)
  · rw [decoded_of_room hroom]
    exact m.fits cs hcs hex
  · exact Chunked.Fits.of_no_entries (entries_no_room hroom)

theorem Medium.stored (m : Medium env) (hcs : Named cs) (hex : (env.file cs).isSome) {e : Entry}
    (he : e ∈ env.listing cs) :
    stored_entry (dir_path (path_of cs)) (room (path_of cs)) e = ⟨path_of (e.name :: cs), e.st,
      kept_target e.target⟩ := by
  have hlt := m.short cs hcs hex e he
  rw [length_path_of_cons] at hlt
  have hcut : e.name.take (room (path_of cs) - 1) = e.name := List.take_of_length_le (by unfold room; omega)
  rw [stored_entry, hcut]
  rfl

theorem cache_listing_spec (timeout : Int) (refuses : Nat → Bool) (filler : Bool) (m : Medium env)
    (hcs : Named cs) (hex : (env.file cs).isSome) (h : Inv env s) :
    ∃ ended scan s', cache_listing env timeout refuses filler (path_of cs) s = some (ended, scan, s') ∧ Inv env s' ∧
      s.errors ≤ s'.errors ∧
      (s'.errors = s.errors → ∀ e ∈ env.listing cs, (lookup s'.cache (path_of (e.name :: cs))).isSome) := by
  have hlt := m.length hcs hex
  have hslash := length_dir_path_le (path_of cs)
  have hroom : (dir_path (path_of cs)).length < HMCDRV_FUSE_MAXPATH := by omega
  have hlen : (dir_path (path_of cs)).length + room (path_of cs) = HMCDRV_FUSE_MAXPATH := by unfold room; omega
  obtain ⟨path, hcopy, hgood⟩ := path_copy_eq (path_of_ne_nil cs) hroom (env.path_length s.calls)
    (env.symlink_length s.calls)
  obtain ⟨ended, scan, s', hrun, hcache, hindex, hsync, herr, k, hlog, hk⟩ :=
    @dir_chunks_eq env refuses (path_of cs) _
    (room (path_of cs)) (by omega) hlen (by unfold room; omega) (path_of_no_nul hcs) rfl (m.no_nul cs hcs hex)
    ((env.output (hmcdrv_ftp_str .dir ++ path_of cs)).length + 1) 0 []
    ⟨{ env.stack s.calls with path }, [], [], filler⟩ s (by rw [List.drop_zero]; omega) hgood
    (fun c hc => absurd hc List.not_mem_nil) (Nat.zero_le _) h.synced
  rw [List.drop_zero] at hlog
  obtain ⟨es, hes⟩ := (blank env.ctx (room (path_of cs))).rounds_front (N := HMCDRV_FUSE_DIRBUF_LEN)
    (fun i => (env.reply i).wish)
    (n := k) (k := s.calls) (t := env.output (hmcdrv_ftp_str .dir ++ path_of cs)) Chunked.open_nil
  rw [List.nil_append, m.entries hcs hex] at hes
  obtain ⟨hst, -⟩ := @foldl_record refuses (dir_path (path_of cs)) (room (path_of cs))
    (Chunked.rounds isspace nl (decoded env.ctx (room (path_of cs))) HMCDRV_FUSE_DIRBUF_LEN
      (fun i => (env.reply i).wish) k
      s.calls [] (env.output (hmcdrv_ftp_str .dir ++ path_of cs))) ([], [], filler)
  have hstored := (congrArg Prod.fst hlog).trans (hst.trans (List.nil_append _))
  have hmem : ∀ x ∈ scan.stored, ∃ e ∈ env.listing cs, x = ⟨path_of (e.name :: cs), e.st,
    kept_target e.target⟩ := by
    intro x hx
    rw [show scan.stored = _ from hstored] at hx
    obtain ⟨e, he, rfl⟩ := List.mem_map.mp hx
    have he : e ∈ env.listing cs := by rw [hes]; exact List.mem_append_left _ he
    exact ⟨e, he, m.stored hcs hex he⟩
  have hall : ∀ x ∈ scan.stored, (x.path ≠ [] ∧ x.path.length < HMCDRV_FUSE_MAXPATH) ∧
    Holds env x.path x.st x.symlnk := by
    intro x hx
    obtain ⟨e, he, rfl⟩ := hmem x hx
    have hshort := m.short cs hcs hex e he
    exact ⟨⟨path_of_ne_nil _, by show (path_of (e.name :: cs)).length < _; omega⟩,
      e.name :: cs, m.named hcs hex he, rfl, e.target, m.file hcs hex he, rfl⟩
  obtain ⟨htable, hfound⟩ := Table.cached timeout h.table hall
  refine ⟨ended, scan, { s' with cache := scan.cached timeout s'.cache }, ?_, ⟨?_, hsync⟩, herr, fun heq e he => ?_⟩
  · rw [cache_listing, hcopy]
    simp only
    rw [show HMCDRV_FUSE_MAXPATH - (dir_path (path_of cs)).length = room (path_of cs) from rfl, hrun]
  · show Table (Holds env) (scan.cached timeout s'.cache)
    rw [hcache]
    exact htable
  · show (lookup (scan.cached timeout s'.cache) (path_of (e.name :: cs))).isSome
    rw [hcache]
    refine hfound _ (Or.inr ⟨stored_entry (dir_path (path_of cs)) (room (path_of cs)) e, ?_, ?_⟩)
    · rw [hk heq, (blank env.ctx (room (path_of cs))).rounds_fits (fun i => (env.reply i).wish) (Nat.lt_succ_self _)
        Chunked.open_nil (m.decodedFits hcs hex), List.nil_append, m.entries hcs hex] at hstored
      rw [show scan.stored = _ from hstored]
      exact List.mem_map_of_mem he
    · rw [m.stored hcs hex he]

/-! ## Looking a path up -/

/-- The entry of the path with what the medium has for it. -/
structure Found (env : Env) (cs : List Bytes) (fp : CacheFile) : Prop where
  path : fp.path = path_of cs
  holds : ∃ target, env.file cs = some (fp.st, target) ∧ fp.symlnk = kept_target target

theorem Inv.found (h : Inv env s) (hcs : Named cs) {fp : CacheFile} (hf : lookup s.cache (path_of cs) = some fp) :
    Found env cs fp := by
  obtain ⟨hp, ds, hds, hpath, hholds⟩ := h.table.found hf
  obtain rfl := path_of_injective hds hcs (hpath.symm.trans hp)
  exact ⟨hp, hholds⟩

theorem cache_find_fst (path : Bytes) (cache : Cache) :
    (hmcdrv_cache_find timeout path cache).1 = (lookup cache path).map fun fp => { fp with timeout } := by
  unfold hmcdrv_cache_find
  cases lookup cache path <;> rfl

theorem Inv.find (h : Inv env s) (timeout : Int) (hcs : Named cs) :
    Inv env { s with cache := (hmcdrv_cache_find timeout (path_of cs) s.cache).2 } ∧
    (∀ fp, (hmcdrv_cache_find timeout (path_of cs) s.cache).1 = some fp → Found env cs fp) ∧
    ((hmcdrv_cache_find timeout (path_of cs) s.cache).1 = none ↔ lookup s.cache (path_of cs) = none) := by
  refine ⟨⟨h.table.find, h.synced⟩, fun fp hfp => ?_, ?_⟩
  · rw [cache_find_fst] at hfp
    obtain ⟨fp', hf, rfl⟩ := Option.map_eq_some_iff.mp hfp
    obtain ⟨hp, hh⟩ := h.found hcs hf
    exact ⟨hp, hh⟩
  · rw [cache_find_fst, Option.map_eq_none_iff]

theorem file_get_spec (timeout : Int) (m : Medium env) : ∀ {cs : List Bytes} {n : Nat} {s : Fs},
    Named cs → cs.length < n → Inv env s →
    ∃ r s', hmcdrv_file_get env timeout n (path_of cs) s = some (r, s') ∧ Inv env s' ∧ s.errors ≤ s'.errors ∧
      (∀ fp, r = some fp → Found env cs fp) ∧ (r = none → s'.errors = s.errors → env.file cs = none)
  | cs, n + 1, s, hcs, hn, h => by
    obtain ⟨hinv, hfound, hnone⟩ := h.find timeout hcs
    rw [hmcdrv_file_get]
    generalize hf : hmcdrv_cache_find timeout (path_of cs) s.cache = found at hinv hfound hnone
    obtain ⟨fp, cache⟩ := found
    cases fp with
    | some fp => exact ⟨_, _, rfl, hinv, Nat.le_refl _, fun _ h0 => hfound _ h0, fun h0 => by cases h0⟩
    | none =>
      have hlook := hnone.mp rfl
      cases cs with
      | nil =>
        have hroot := h.table.root
        rw [show lookup s.cache root = none from hlook] at hroot
        cases hroot
      | cons c cs =>
        have hcs' := (List.forall_mem_cons.mp hcs).2
        obtain ⟨r, s₁, hget, hinv₁, herr₁, hfound₁, hnone₁⟩ :=
          file_get_spec timeout m hcs' (Nat.lt_of_succ_lt_succ hn) h
        -- the second search in the cache
        have hagain : ∀ s₂, Inv env s₂ → s₁.errors ≤ s₂.errors →
            (s₂.errors = s.errors → lookup s₂.cache (path_of (c :: cs)) = none → env.file (c :: cs) = none) →
            hmcdrv_cache_parent env (hmcdrv_file_get env timeout n) timeout (path_of (c :: cs)) s =
              some (true, s₂) →
            ∃ r s', (hmcdrv_cache_parent env (hmcdrv_file_get env timeout n) timeout (path_of (c :: cs)) s).map
                (search_again timeout (path_of (c :: cs))) = some (r, s') ∧
              Inv env s' ∧ s.errors ≤ s'.errors ∧ (∀ fp, r = some fp → Found env (c :: cs) fp) ∧
              (r = none → s'.errors = s.errors → env.file (c :: cs) = none) := by
          intro s₂ hinv₂ herr₂ hmiss hparent
          obtain ⟨hinv', hfound', hnone'⟩ := hinv₂.find timeout hcs
          rw [hparent]
          exact ⟨_, _, rfl, hinv', Nat.le_trans herr₁ herr₂, hfound', fun h0 he => hmiss he (hnone'.mp h0)⟩
        simp only
        cases r with
        | none =>
          refine hagain s₁ hinv₁ (Nat.le_refl _) (fun he _ => ?_) ?_
          · rw [Env.file, hnone₁ rfl he]
            rfl
          · rw [hmcdrv_cache_parent, if_neg (path_of_ne_root hcs), dirname_path_of hcs, hget]
        | some fp =>
          obtain ⟨hpath, target, hfile, -⟩ := hfound₁ fp rfl
          have hex : (env.file cs).isSome := by rw [hfile]; rfl
          obtain ⟨ended, scan, s₂, hlist, hinv₂, herr₂, hall⟩ :=
            cache_listing_spec timeout (fun _ => false) false m hcs' hex
            hinv₁
          refine hagain s₂ hinv₂ herr₂ (fun he hlook₂ => ?_) ?_
          · rw [Env.file, if_pos hex, Option.map_eq_none_iff, List.find?_eq_none]
            intro e hmem hname
            rw [decide_eq_true_eq] at hname
            have := hall (by omega) e hmem
            rw [hname, hlook₂] at this
            cases this
          · rw [hmcdrv_cache_parent, if_neg (path_of_ne_root hcs), dirname_path_of hcs, hget]
            simp only
            rw [hpath, hlist]

/-! ## Operations -/

theorem line_entry_link {ctx : Context} {l : Bytes} {e : Entry} (h : line_entry ctx l = some e) {t : Bytes}
    (ht : e.target = some t) : S_ISLNK e.st.st_mode = true := by
  unfold line_entry at h
  simp only at h
  split at h
  · cases h
  · cases h
    obtain ⟨a, ha, -⟩ := Option.map_eq_some_iff.mp ht
    split at ha
    · assumption
    · cases ha

theorem file_link {st : Stat} {t : Bytes} (h : env.file cs = some (st, some t)) : S_ISLNK st.st_mode = true := by
  cases cs with
  | nil => cases h
  | cons c cs =>
    rw [Env.file] at h
    split at h
    · obtain ⟨e, he, heq⟩ := Option.map_eq_some_iff.mp h
      obtain ⟨l, -, hl⟩ := List.mem_filterMap.mp (List.mem_of_find?_eq_some he)
      obtain ⟨rfl, ht⟩ := Prod.mk.inj heq
      exact line_entry_link hl ht
    · cases h

def Env.attr (env : Env) (path : Path) : Except Errno Stat :=
  match env.file path.names with
  | none => .error .ENOENT
  | some f => .ok f.1

def Env.link (env : Env) (path : Path) (size : Nat) : Except Errno Bytes :=
  match env.file path.names with
  | none => .error .ENOENT
  | some f =>
    match kept_target f.2 with
    | none => .error .ENOMEM
    | some target => .ok (target.take (size - 1))

/-- The answer to an operation is that of the medium. A read returns what a new command would, for the amount that
the device gave last. -/
def Answered (env : Env) (s s' : Fs) : Op → Answer → Prop
  | .getattr path, .attr st => s'.errors = s.errors → st = env.attr path
  | .readlink path size, .target buf => s'.errors = s.errors → buf = env.link path size
  | .readdir _ _, .entries _ _ => True
  | .read path size offset, .data buf => ∀ d, buf = .ok d →
      d = ftp_dir (env.output (hmcdrv_ftp_str .get ++ path_of path.names))
        (env.reply (s'.calls - 1)).wish size offset
  | .aging, .aged => True
  | _, _ => False

theorem operation_spec (m : Medium env) (h : Inv env s) (op : Op) (now : Int) :
    ∃ a s', operation env op now s = some (a, s') ∧ Inv env s' ∧ Answered env s s' op a := by
  have hget := fun path : Path => file_get_spec (now + env.ctmo) m path.named
    (Nat.lt_succ_of_lt (length_le_path_of path.named)) h
  cases op with
  | aging => exact ⟨_, _, rfl, ⟨h.table.aging HMCDRV_FUSE_GARBAGE_MAX s.index, h.synced⟩, trivial⟩
  | getattr path =>
    obtain ⟨r, s', hrun, hinv, herr, hfound, hnone⟩ := hget path
    rw [operation, hmcdrv_fuse_getattr, file_get, hrun]
    cases r with
    | none =>
      refine ⟨_, _, rfl, hinv, fun he => ?_⟩
      rw [Env.attr, hnone rfl he]
    | some fp =>
      obtain ⟨-, target, hfile, -⟩ := hfound fp rfl
      refine ⟨_, _, rfl, hinv, fun _ => ?_⟩
      rw [Env.attr, hfile]
  | readlink path size =>
    obtain ⟨r, s', hrun, hinv, herr, hfound, hnone⟩ := hget path
    rw [operation, hmcdrv_fuse_readlink, file_get, hrun]
    cases r with
    | none =>
      refine ⟨_, _, rfl, hinv, fun he => ?_⟩
      rw [Env.link, hnone rfl he]
    | some fp =>
      obtain ⟨-, target, hfile, hkept⟩ := hfound fp rfl
      simp only
      cases hsym : fp.symlnk with
      | none =>
        refine ⟨_, _, rfl, hinv, fun _ => ?_⟩
        rw [Env.link, hfile]
        simp only
        rw [← hkept, hsym]
      | some t =>
        have hlink : S_ISLNK fp.st.st_mode = true := by
          cases target with
          | none => rw [hkept] at hsym; cases hsym
          | some t => exact file_link hfile
        simp only [hlink, if_true]
        refine ⟨_, _, rfl, hinv, fun _ => ?_⟩
        rw [Env.link, hfile]
        simp only
        rw [← hkept, hsym]
  | readdir path refuses =>
    obtain ⟨r, s', hrun, hinv, herr, hfound, hnone⟩ := hget path
    rw [operation, hmcdrv_fuse_readdir, file_get, hrun]
    cases r with
    | none => exact ⟨_, _, rfl, hinv, trivial⟩
    | some fp =>
      obtain ⟨hpath, target, hfile, -⟩ := hfound fp rfl
      obtain ⟨ended, scan, s₂, hlist, hinv₂, -⟩ :=
        cache_listing_spec (now + env.ctmo) refuses true m path.named (by rw [hfile]; rfl) hinv
      simp only
      rw [hpath, hlist]
      exact ⟨_, _, rfl, hinv₂, trivial⟩
  | read path size offset =>
    obtain ⟨r, s', hrun, hinv, herr, hfound, hnone⟩ := hget path
    rw [operation, hmcdrv_fuse_read, file_get, hrun]
    cases r with
    | none => exact ⟨_, _, rfl, hinv, fun d hd => by cases hd⟩
    | some fp =>
      obtain ⟨hpath, target, hfile, -⟩ := hfound fp rfl
      have hlt := m.length path.named (by rw [hfile]; rfl)
      obtain ⟨s₁, hcache, -, hcalls, hsync, ⟨hcmd, -⟩ | ⟨hcmd, -⟩⟩ := ftp_cmd_spec env hinv.synced
        (show (path_of path.names).length < _ by omega) .get size offset
      · simp only
        rw [hpath, hcmd]
        exact ⟨_, _, rfl, ⟨by rw [hcache]; exact hinv.table, hsync⟩, fun d hd => by cases hd⟩
      · simp only
        rw [hpath, hcmd]
        refine ⟨_, _, rfl, ⟨by rw [hcache]; exact hinv.table, hsync⟩, fun d hd => ?_⟩
        rw [hcalls, Nat.add_sub_cancel]
        exact (Except.ok.inj hd).symm

/-! ## The date of an operation -/

def Env.SameYear (env : Env) (now : Int) : Prop := (env.gmtime now).tm_year = env.ctx.now.tm_year

/-- The fields before number `field` made everything the same that they set. -/
structure Alike (field : Nat) (a a' : Attr) : Prop where
  st : a.st = a'.st
  fname : a.fname = a'.fname
  min : a.ftm.tm_min = a'.ftm.tm_min
  hour : a.ftm.tm_hour = a'.ftm.tm_hour
  year : a.ftm.tm_year = a'.ftm.tm_year
  mon : 5 < field → a.ftm.tm_mon = a'.ftm.tm_mon
  mday : 6 < field → a.ftm.tm_mday = a'.ftm.tm_mday

theorem Alike.eq {a a' : Attr} {field : Nat} (h : Alike field a a') (hf : 6 < field) : a = a' := by
  obtain ⟨st, ⟨m, hr, d, mo, y⟩, f⟩ := a
  obtain ⟨st', ⟨m', hr', d', mo', y'⟩, f'⟩ := a'
  obtain ⟨h₁, h₂, h₃, h₄, h₅, h₆, h₇⟩ := h
  obtain rfl := h₁
  obtain rfl := h₂
  obtain rfl := h₃
  obtain rfl := h₄
  obtain rfl := h₅
  obtain rfl := h₆ (by omega)
  obtain rfl := h₇ hf
  rfl

theorem Alike.ntoken {ctx : Context} {field : Nat} {a a' : Attr} (h : Alike field a a')
    (hf : field ≤ 8) (token : Bytes) :
    (hmcdrv_parse_ntoken ctx field token a = none ∧ hmcdrv_parse_ntoken ctx field token a' = none) ∨
      ∃ b b', hmcdrv_parse_ntoken ctx field token a = some b ∧ hmcdrv_parse_ntoken ctx field token a' = some b' ∧
        Alike (field + 1) b b' ∧ (field < 8 → b.fname = a.fname) := by
  obtain ⟨hst, hname, hmin, hhour, hyear, hmon, hmday⟩ := h
  obtain rfl | rfl | rfl | rfl | rfl | rfl | rfl | rfl | rfl : field = 0 ∨ field = 1 ∨ field = 2 ∨
    field = 3 ∨ field = 4 ∨
      field = 5 ∨ field = 6 ∨ field = 7 ∨ field = 8 := by omega
  all_goals simp only [hmcdrv_parse_ntoken]
  · by_cases hm : hmcdrv_parse_mode token = 0
    · exact .inl ⟨if_pos hm, if_pos hm⟩
    · exact .inr ⟨_, _, if_neg hm, if_neg hm, ⟨by rw [hst], hname, hmin, hhour, hyear, by omega,
        by omega⟩, fun _ => rfl⟩
  · cases strtoul token with
    | none => exact .inl ⟨rfl, rfl⟩
    | some v =>
      exact .inr ⟨_, _, rfl, rfl, ⟨by rw [hst], hname, hmin, hhour, hyear, by omega, by omega⟩, fun _ => rfl⟩
  · exact .inr ⟨_, _, rfl, rfl, ⟨by rw [hst], hname, hmin, hhour, hyear, by omega, by omega⟩, fun _ => rfl⟩
  · exact .inr ⟨_, _, rfl, rfl, ⟨by rw [hst], hname, hmin, hhour, hyear, by omega, by omega⟩, fun _ => rfl⟩
  · cases (strtol token).1 with
    | none => exact .inl ⟨rfl, rfl⟩
    | some v =>
      exact .inr ⟨_, _, rfl, rfl, ⟨by rw [hst], hname, hmin, hhour, hyear, by omega, by omega⟩, fun _ => rfl⟩
  · exact .inr ⟨_, _, rfl, rfl, ⟨hst, hname, hmin, hhour, hyear, fun _ => rfl, by omega⟩, fun _ => rfl⟩
  · rw [hmon (by omega)]
    cases hmcdrv_parse_int token 1 31 with
    | none => exact .inl ⟨rfl, rfl⟩
    | some v =>
      refine .inr ⟨_, _, rfl, rfl, ?_, fun _ => rfl⟩
      dsimp only
      by_cases hneg : a'.ftm.tm_mon < 0
      · rw [if_pos hneg, if_pos hneg]
        exact ⟨hst, hname, hmin, hhour, hyear, fun _ => rfl, fun _ => rfl⟩
      · rw [if_neg hneg, if_neg hneg]
        exact ⟨hst, hname, hmin, hhour, hyear, fun _ => rfl, fun _ => rfl⟩
  · obtain rfl := Alike.eq ⟨hst, hname, hmin, hhour, hyear, hmon, hmday⟩ (by omega)
    cases hb : hmcdrv_parse_ntoken ctx 7 token a with
    | none => exact .inl ⟨hb, hb⟩
    | some b =>
      refine .inr ⟨b, b, hb, hb, ⟨rfl, rfl, rfl, rfl, rfl, fun _ => rfl, fun _ => rfl⟩, fun _ => ?_⟩
      rw [hmcdrv_parse_ntoken] at hb
      split at hb
      · cases hb
        rfl
      · obtain ⟨v, -, rfl⟩ := Option.map_eq_some_iff.mp hb
        rfl
  · exact .inr ⟨_, _, rfl, rfl, ⟨hst, rfl, hmin, hhour, hyear, fun _ => hmon (by omega), fun _ => hmday (by omega)⟩,
      fun hlt => absurd hlt (by omega)⟩

theorem Alike.parse {ctx : Context} : ∀ {n field : Nat} (line : Bytes) {a a' : Attr}, n + field =
    9 → Alike field a a' →
    (field ≤ 8 → a.fname = none) → (parse_fields ctx n field line a).fname =
      (parse_fields ctx n field line a').fname ∧
      ((parse_fields ctx n field line a).fname ≠ none → parse_fields ctx n field line a =
        parse_fields ctx n field line a')
  | 0, field, line, a, a', hn, h, _ => ⟨h.fname, fun _ => h.eq (by omega)⟩
  | n + 1, field, line, a, a', hn, h, hno => by
    have hstop : a.fname = a'.fname ∧ (a.fname ≠ none → a = a') :=
      ⟨h.fname, fun hsome => absurd (hno (by omega)) hsome⟩
    rw [parse_fields, parse_fields]
    by_cases h0 : line.dropWhile isspace = []
    · rw [if_pos h0, if_pos h0]
      exact hstop
    · rw [if_neg h0, if_neg h0]
      rcases h.ntoken (by omega) (line.dropWhile isspace) with ⟨h₁, h₂⟩ | ⟨b, b', h₁, h₂, hb, hname⟩
      · rw [h₁, h₂]
        exact hstop
      · rw [h₁, h₂]
        exact Alike.parse _ (by omega) hb fun hf => (hname (by omega)).trans (hno (by omega))

theorem line_entry_year {ctx : Context} {t : Tm} (h : t.tm_year = ctx.now.tm_year) :
    line_entry { ctx with now := t } = line_entry ctx := by
  have hfields : ∀ n field line a, parse_fields { ctx with now := t } n field line a =
    parse_fields ctx n field line a := by
    intro n
    induction n with
    | zero => exact fun _ _ _ => rfl
    | succ n ih =>
      intro field line a
      rw [parse_fields, parse_fields]
      simp only [ih]
      rfl
  funext l
  have hstart : Alike 0 (no_attr { ctx with now := t }) (no_attr ctx) :=
    ⟨rfl, rfl, rfl, rfl, h, fun h => absurd h (by decide), fun h => absurd h (by decide)⟩
  obtain ⟨hname, heq⟩ := @Alike.parse ctx 9 0 l _ _ rfl hstart fun _ => rfl
  unfold line_entry
  simp only [hfields]
  cases hf : (parse_fields ctx 9 0 l (no_attr { ctx with now := t })).fname with
  | none => rw [← hname, hf]
  | some fname => rw [← heq (by rw [hf]; exact Option.some_ne_none _), hf]; rfl

section
variable {now : Int} (hyear : env.SameYear now)
include hyear

theorem listing_during (cs : List Bytes) : (env.during now).listing cs = env.listing cs := by
  show listed { env.ctx with now := env.gmtime now } _ = listed env.ctx _
  rw [listed, line_entry_year hyear, listed]
  rfl

theorem file_during : ∀ cs : List Bytes, (env.during now).file cs = env.file cs
  | [] => rfl
  | c :: cs => by rw [Env.file, Env.file, file_during cs, listing_during hyear]

theorem holds_during : Holds (env.during now) = Holds env := by
  funext path st symlnk
  simp only [Holds, file_during hyear]

theorem Medium.during (m : Medium env) : Medium (env.during now) where
  no_nul cs hcs hex := m.no_nul cs hcs (by rwa [file_during hyear] at hex)
  fits cs hcs hex := by
    rw [file_during hyear] at hex
    show Chunked.Fits isspace nl (line_entry { env.ctx with now := env.gmtime now }) _ _
    rw [line_entry_year hyear]
    exact m.fits cs hcs hex
  once cs hcs hex := by
    rw [file_during hyear] at hex
    rw [listing_during hyear]
    exact m.once cs hcs hex
  name cs hcs hex := by
    rw [file_during hyear] at hex
    rw [listing_during hyear]
    exact m.name cs hcs hex
  short cs hcs hex := by
    rw [file_during hyear] at hex
    rw [listing_during hyear]
    exact m.short cs hcs hex

theorem inv_during : Inv (env.during now) s ↔ Inv env s := by
  constructor
  · intro h
    exact ⟨by rw [← holds_during hyear]; exact h.table, h.synced⟩
  · intro h
    exact ⟨by rw [holds_during hyear]; exact h.table, h.synced⟩

theorem answered_during {s' : Fs} {op : Op} {a : Answer} (h : Answered (env.during now) s s' op a) :
    Answered env s s' op a := by
  have hattr : ∀ path, (env.during now).attr path = env.attr path := fun path => by
    rw [Env.attr, Env.attr, file_during hyear]
  have hlink : ∀ path size, (env.during now).link path size = env.link path size := fun path size => by
    rw [Env.link, Env.link, file_during hyear]
  cases op <;> cases a <;> first | exact h | skip
  · exact fun he => (h he).trans (hattr _)
  · exact fun he => (h he).trans (hlink _ _)

theorem step_spec (m : Medium env) (h : Inv env s) (op : Op) :
    ∃ a s', step env op now s = some (a, s') ∧ Inv env s' ∧ Answered env s s' op a := by
  obtain ⟨a, s', hstep, hinv, ha⟩ := operation_spec (m.during hyear) ((inv_during hyear).mpr h) op now
  exact ⟨a, s', hstep, (inv_during hyear).mp hinv, answered_during hyear ha⟩

end

theorem init_inv (env : Env) (now : Int) (dev : Device) : Inv env (fuse_init env now dev) := by
  have hne : root ≠ [] := List.cons_ne_nil _ _
  have hlt : root.length < HMCDRV_FUSE_MAXPATH := by decide
  have hcmd : ([] : Bytes).length < HMCDRV_FUSE_MAXCMDLEN := by decide
  refine ⟨⟨fun i fp hfp => ?_, fun i => ?_, ?_⟩, hcmd, fun h => absurd rfl h⟩
  · rw [fuse_init, hmcdrv_cache_refresh, if_neg (by decide)] at hfp
    by_cases hi : i = hmcdrv_hash_path root
    · subst hi
      simp only [Function.update_self] at hfp
      obtain rfl := List.mem_singleton.mp hfp
      exact ⟨rfl, [], fun c hc => absurd hc List.not_mem_nil, rfl, none, rfl, rfl⟩
    · simp only [Function.update_of_ne hi] at hfp
      exact absurd hfp List.not_mem_nil
  · rw [fuse_init, hmcdrv_cache_refresh, if_neg (by decide)]
    by_cases hi : i = hmcdrv_hash_path root
    · subst hi
      simp only [Function.update_self]
      exact List.nodup_singleton _
    · simp only [Function.update_of_ne hi]
      exact List.nodup_nil
  · rw [fuse_init, lookup_refresh _ hne hlt, if_pos rfl]
    rfl

theorem run_inv (m : Medium env) : ∀ (ops : List (Op × Int)) {s : Fs}, (∀ x ∈ ops, env.SameYear x.2) → Inv env s →
    ∃ s', run env ops s = some s' ∧ Inv env s'
  | [], s, _, h => ⟨s, rfl, h⟩
  | (op, now) :: ops, s, hyear, h => by
    obtain ⟨hnow, hops⟩ := List.forall_mem_cons.mp hyear
    obtain ⟨a, s', hstep, hinv, -⟩ := step_spec hnow m h op
    rw [run, hstep]
    exact run_inv m ops hops hinv

/-- In every state of a run within one year the table has one entry for a path, one for the root, and each operation
answers what the medium does. -/
theorem cache_and_shortcut_invisible (m : Medium env) (start : Int) (dev : Device) (ops : List (Op × Int))
    (hyear : ∀ x ∈ ops, env.SameYear x.2) :
    ∃ s, run env ops (fuse_init env start dev) = some s ∧ Table (Holds env) s.cache ∧
      ∀ op now, env.SameYear now → ∃ a s', step env op now s = some (a, s') ∧ Answered env s s' op a := by
  obtain ⟨s, hrun, hinv⟩ := run_inv m ops hyear (init_inv env start dev)
  refine ⟨s, hrun, hinv.table, fun op now hnow => ?_⟩
  obtain ⟨a, s', hstep, -, ha⟩ := step_spec hnow m hinv op
  exact ⟨a, s', hstep, ha⟩

end

def link_line : Bytes := bytes "lrwxrwxrwx 1 2 3 5 Jan 4 1999 a -> " ++ List.replicate 192 0x78

def link_output (cmd : Bytes) : Bytes := if cmd = bytes "dir /" then link_line ++ [nl] else []

def link_gmtime (t : Int) : Tm := ⟨t / 60 % 60, t / 3600 % 24, 1 + t / 86400, 0, if t < 31536000 then 70 else 71⟩

def link_env : Env where
  ctx := { sample_context with now := link_gmtime 0 }
  gmtime := link_gmtime
  ctmo := 31
  output := link_output
  reply := fun _ => ⟨true, true, true, 255, ⟨[], 0⟩⟩
  stack := fun _ => sample_buffers
  path_length := fun _ => rfl
  symlink_length := fun _ => rfl

def link_path : Path := ⟨[bytes "a"], fun c hc => by
  rw [List.mem_singleton.mp hc]
  exact ⟨by decide, List.all_iff_forall_prop.mp (by decide)⟩⟩

def link_entry : Entry := ⟨bytes "a", ⟨0o120555, 1, 2, 3, 5, 4, 2048, 1⟩, some (List.replicate 192 0x78)⟩

theorem link_line_entry : line_entry sample_context link_line = some link_entry := by
  decide +kernel

theorem link_output_root : link_env.output (hmcdrv_ftp_str .dir ++ path_of []) = link_line ++ [nl] := by
  have hout : link_env.output = link_output := rfl
  rw [hout, link_output, if_pos (by decide)]

theorem link_listing : link_env.listing [] = [link_entry] := by
  have hnl : nl ∉ link_line := by decide
  rw [Env.listing, link_output_root]
  show Chunked.entries nl (line_entry sample_context) (link_line ++ [nl]) = [link_entry]
  rw [Chunked.entries_line hnl [], link_line_entry]
  rfl

theorem link_medium : Medium link_env := by
  have hempty : ∀ {c : Bytes} {cs : List Bytes}, Named (c :: cs) →
      link_env.output (hmcdrv_ftp_str .dir ++ path_of (c :: cs)) = [] := fun hcs =>
    if_neg fun h => path_of_ne_root hcs (@List.append_cancel_left _ (bytes "dir ") _ _ h)
  have hnone : ∀ {c : Bytes} {cs : List Bytes}, Named (c :: cs) → link_env.listing (c :: cs) = [] := fun hcs => by
    rw [Env.listing, hempty hcs]
    rfl
  constructor
  · intro cs hcs _
    cases cs with
    | nil => rw [link_output_root]; exact List.all_iff_forall_prop.mp (by decide)
    | cons c cs => rw [hempty hcs]; exact fun x hx => absurd hx List.not_mem_nil
  · intro cs hcs _
    cases cs with
    | nil =>
      rw [link_output_root]
      refine (Chunked.Fits.eq _).mpr (Or.inr (Or.inr ?_))
      rw [if_pos (by decide)]
      exact ⟨by decide, (Chunked.Fits.eq _).mpr (Or.inl rfl)⟩
    | cons c cs => rw [hempty hcs]; exact (Chunked.Fits.eq _).mpr (Or.inl rfl)
  · intro cs hcs _
    cases cs with
    | nil => rw [link_listing]; exact List.nodup_singleton _
    | cons c cs => rw [hnone hcs]; exact List.nodup_nil
  · intro cs hcs _
    cases cs with
    | nil =>
      rw [link_listing]
      intro e he
      rw [List.mem_singleton.mp he]
      decide
    | cons c cs => rw [hnone hcs]; exact fun e he => absurd he List.not_mem_nil
  · intro cs hcs _
    cases cs with
    | nil =>
      rw [link_listing]
      intro e he
      rw [List.mem_singleton.mp he]
      decide
    | cons c cs => rw [hnone hcs]; exact fun e he => absurd he List.not_mem_nil

theorem cache_and_shortcut_invisible_link : ∃ s,
    run link_env [(.getattr link_path, 0), (.aging, 40)] (fuse_init link_env 0 ⟨[], 0⟩) = some s ∧
      Table (Holds link_env) s.cache ∧
      ∀ op now, link_env.SameYear now → ∃ a s', step link_env op now s = some (a, s') ∧
        Answered link_env s s' op a := by
  refine cache_and_shortcut_invisible link_medium 0 ⟨[], 0⟩ [(.getattr link_path, 0), (.aging, 40)] fun x hx => ?_
  rcases List.mem_pair.mp hx with rfl | rfl
  · rfl
  · rfl

/-- No transfer fails, but the last character of the target is missing. -/
theorem long_target_cut : ∃ s, step link_env (.readlink link_path 300) 0 (fuse_init link_env 0 ⟨[], 0⟩) =
      some (.target (.ok (List.replicate 191 0x78)), s) ∧ s.errors = 0 ∧
    ∃ st, link_env.file link_path.names = some (st, some (List.replicate 192 0x78)) := by
  have h : (step link_env (.readlink link_path 300) 0 (fuse_init link_env 0 ⟨[], 0⟩)).map (fun r =>
    (r.1, r.2.errors)) =
      some (.target (.ok (List.replicate 191 0x78)), 0) := by rfl
  obtain ⟨⟨a, s⟩, hrun, heq⟩ := Option.map_eq_some_iff.mp h
  obtain ⟨rfl, herr⟩ := Prod.mk.inj heq
  have hmem : link_entry ∈ link_env.listing [] := by rw [link_listing]; exact List.mem_singleton_self _
  have hfile : link_env.file (link_entry.name :: []) = some (link_entry.st, link_entry.target) :=
    Medium.file link_medium (fun c hc => absurd hc List.not_mem_nil) rfl hmem
  exact ⟨s, hrun, herr, link_entry.st, hfile⟩

/-- The medium of `sample_listing`, whose line has no year. -/
def year_env : Env where
  ctx := { sample_context with now := link_gmtime 0, mktime := fun t => t.tm_year }
  gmtime := link_gmtime
  ctmo := 31
  output := fun cmd => if cmd = bytes "dir /" then sample_listing else []
  reply := fun _ => ⟨true, true, true, 255, ⟨[], 0⟩⟩
  stack := fun _ => sample_buffers
  path_length := fun _ => rfl
  symlink_length := fun _ => rfl

def mtime : Option (Answer × Fs) → Option Int
  | some (.attr (.ok st), _) => some st.st_mtime
  | _ => none

theorem old_year_shown :
    ((run year_env [(.getattr link_path, 31535999)] (fuse_init year_env 0 ⟨[], 0⟩)).bind fun s =>
      mtime (step year_env (.getattr link_path) 31536000 s)) = some 70 ∧
    mtime (step year_env (.getattr link_path) 31536000 (fuse_init year_env 0 ⟨[], 0⟩)) = some 71 := by
  decide +kernel

end Hmcdrvfs
