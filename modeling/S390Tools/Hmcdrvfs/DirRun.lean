import S390Tools.Hmcdrvfs.Dir
import S390Tools.Lib.Chunked

/-!
# What reading a directory stores

The lines of the listing are found in every way of cutting it, as long as the
fragment leaves room in the buffer. The names are cut to the room that the path
of the directory leaves.
-/

set_option maxRecDepth 20000

namespace Hmcdrvfs

open CString Splice

def nl : UInt8 := 0x0a

/-! ## Lines -/

theorem ntoken_fname {ctx : Context} {field : Nat} {token : Bytes} {attr attr' : Attr}
    (h : hmcdrv_parse_ntoken ctx field token attr = some attr') : attr'.fname = attr.fname ∨
      attr'.fname = some token := by
  have hmap : ∀ {β : Type} {o : Option β} {g : β → Attr}, o.map g = some attr' → (∀ v, (g v).fname = attr.fname) →
      attr'.fname = attr.fname := by
    intro β o g ho hg
    obtain ⟨v, -, rfl⟩ := Option.map_eq_some_iff.mp ho
    exact hg v
  unfold hmcdrv_parse_ntoken at h
  split at h
  · split at h
    · cases h
    · cases h; exact Or.inl rfl
  · exact Or.inl (hmap h fun _ => rfl)
  · cases h; exact Or.inl rfl
  · cases h; exact Or.inl rfl
  · exact Or.inl (hmap h fun _ => rfl)
  · cases h; exact Or.inl rfl
  · exact Or.inl (hmap h fun _ => rfl)
  · split at h
    · cases h; exact Or.inl rfl
    · exact Or.inl (hmap h fun _ => rfl)
  · cases h; exact Or.inr rfl
  · cases h; exact Or.inl rfl

theorem parse_fields_fname {ctx : Context} {f : Bytes} : ∀ {n field : Nat} {line : Bytes} {attr : Attr},
    (parse_fields ctx n field line attr).fname = some f →
      attr.fname = some f ∨ (f <:+ line ∧ ∃ c s, f = c :: s ∧ isspace c = false)
  | 0, _, _, _, h => Or.inl h
  | n + 1, field, line, attr, h => by
    rw [parse_fields] at h
    split at h
    · exact Or.inl h
    rename_i hne
    split at h
    · exact Or.inl h
    · rename_i attr' htok
      rcases parse_fields_fname h with h | ⟨hs, hc⟩
      · rcases ntoken_fname htok with h' | h'
        · exact Or.inl (h'.symm.trans h)
        · refine Or.inr ?_
          have hf : line.dropWhile isspace = f := by rw [h] at h'; exact (Option.some.inj h').symm
          refine ⟨hf ▸ List.dropWhile_suffix _, ?_⟩
          cases hd : line.dropWhile isspace with
          | nil => exact absurd hd hne
          | cons c s =>
            refine ⟨c, s, by rw [← hf, hd], ?_⟩
            have := List.head?_dropWhile_not isspace line
            rw [hd] at this
            simpa using this
      · exact Or.inr ⟨hs.trans ((List.dropWhile_suffix _).trans (List.dropWhile_suffix _)), hc⟩

theorem parse_fields_space {ctx : Context} {c : UInt8} (hc : isspace c = true) (n field : Nat)
    (l : Bytes) (attr : Attr) :
    parse_fields ctx n field (c :: l) attr = parse_fields ctx n field l attr := by
  cases n with
  | zero => rfl
  | succ n => rw [parse_fields, parse_fields, List.dropWhile_cons, if_pos hc]

theorem line_entry_space {ctx : Context} {c : UInt8} (hc : isspace c = true) (l : Bytes) :
    line_entry ctx (c :: l) = line_entry ctx l := by
  rw [line_entry, line_entry, parse_fields_space hc]

theorem find_arrow_ne_zero {c : UInt8} {s : Bytes} (hc : isspace c = false) : find (bytes " -> ")
    (c :: s) ≠ some 0 := by
  intro h
  rw [find] at h
  split at h
  · rename_i hp
    have hbytes : bytes " -> " = [0x20, 0x2d, 0x3e, 0x20] := rfl
    rw [hbytes, List.isPrefixOf_cons_cons, Bool.and_eq_true, beq_iff_eq] at hp
    rw [← hp.1] at hc
    cases hc
  · obtain ⟨k, -, hk⟩ := Option.map_eq_some_iff.mp h
    cases hk

theorem cut_name {f : Bytes} (hf : f ≠ []) : ∀ {arrow : Option Nat}, arrow ≠ some 0 → (arrow.map f.take).getD f ≠ []
  | none, _ => hf
  | some a, h => by
    rw [Option.map_some, Option.getD_some, Ne, List.take_eq_nil_iff, not_or]
    exact ⟨fun h0 => h (congrArg some h0), hf⟩

theorem mem_cut_name {f : Bytes} {x : UInt8} : ∀ {arrow : Option Nat}, x ∈ (arrow.map f.take).getD f → x ∈ f
  | none, h => h
  | some _, h => List.mem_of_mem_take h

theorem line_entry_name {ctx : Context} {l : Bytes} {e : Entry} (h : line_entry ctx l = some e) :
    e.name ≠ [] ∧ (∀ c ∈ e.name, c ∈ l) ∧ ∀ t ∈ e.target, ∀ c ∈ t, c ∈ l := by
  unfold line_entry at h
  simp only at h
  split at h
  · cases h
  rename_i f hf
  cases h
  rcases parse_fields_fname hf with hf | ⟨hs, c, s, rfl, hc⟩
  · cases hf
  have hmem : ∀ x ∈ c :: s, x ∈ l := fun x hx => hs.subset hx
  refine ⟨cut_name (List.cons_ne_nil _ _) ?_, fun x hx => hmem x (mem_cut_name hx), fun t ht x hx => ?_⟩
  · split
    · exact find_arrow_ne_zero hc
    · exact fun h0 => by cases h0
  · obtain ⟨a, -, rfl⟩ := Option.map_eq_some_iff.mp (Option.mem_def.mp ht)
    exact hmem x (List.mem_of_mem_drop hx)

def decoded (ctx : Context) (len : Nat) (l : Bytes) : Option Entry := if 2 ≤ len then line_entry ctx l else none

theorem blank (ctx : Context) (len : Nat) : Chunked.Blank isspace nl (decoded ctx len) where
  nl := rfl
  nil := by
    unfold decoded
    split <;> rfl
  cons := fun hc l => by rw [decoded, decoded, line_entry_space hc]

/-! ## Buffers -/

def kept_target : Option Bytes → Option Bytes
  | none => none
  | some t => if t = [] then none else some (t.take (HMCDRV_FUSE_MAXPATH - 1))

structure Good (dir : Bytes) (b : Buffers) : Prop where
  path : b.path.length = HMCDRV_FUSE_MAXPATH
  dir : b.path.take dir.length = dir
  symlink : b.symlink.length = HMCDRV_FUSE_MAXPATH

theorem put_ok {b s : Bytes} {i : Nat} (h : i + s.length ≤ b.length) : put b i s = some (splice b i s) := if_pos h

theorem take_splice {d s : Bytes} {o k : Nat} (hk : k ≤ o) (h : o ≤ d.length) :
    (splice d o s).take k = d.take k := by
  rw [splice, List.append_assoc, List.take_append_of_le_length (by rw [List.length_take]; omega), List.take_take,
    Nat.min_eq_left hk]

theorem drop_splice {d s : Bytes} {o : Nat} (h : o ≤ d.length) : (splice d o s).drop o = s ++
    d.drop (o + s.length) := by
  have ho : (d.take o).length = o := by rw [List.length_take, Nat.min_eq_left h]
  rw [splice, List.append_assoc, List.drop_append_of_le_length (by omega),
    List.drop_eq_nil_of_le (by omega), List.nil_append]

theorem str_zeros (k : Nat) : str (List.replicate k 0 ++ [0]) = [] := by
  cases k <;> rfl

theorem str_ncopy_cut {s : Bytes} (hs : ∀ c ∈ s, c ≠ 0) {n : Nat} :
    str ((ncopy s n).take (n - 1) ++ [0]) = s.take (n - 1) := by
  rw [ncopy, str_eq_self hs, List.take_append, List.take_take, Nat.min_eq_left (Nat.sub_le n 1),
    List.take_replicate,
    List.append_assoc, str_append fun c hc => hs c (List.mem_of_mem_take hc), str_zeros, List.append_nil]

theorem str_ncopy {s : Bytes} (hs : ∀ c ∈ s, c ≠ 0) (n : Nat) : str (ncopy s n) = s.take n := by
  rw [ncopy, str_eq_self hs, str_append fun c hc => hs c (List.mem_of_mem_take hc)]
  cases n - (s.take n).length <;> simp [List.replicate_succ, str]

theorem str_behind {p dir : Bytes} (h : p.take dir.length = dir) (hdir : ∀ c ∈ dir, c ≠ 0) :
    str p = dir ++ str (p.drop dir.length) := by
  conv_lhs => rw [← List.take_append_drop dir.length p, h]
  exact str_append hdir

theorem cache_symlink_none (d : Bytes) :
    hmcdrv_cache_symlink (splice d 0 [0]) = kept_target none := by
  have : str (splice d 0 [0]) = [] := rfl
  rw [hmcdrv_cache_symlink, if_pos this]
  rfl

theorem cache_symlink_some {d t : Bytes} (h : d.length = HMCDRV_FUSE_MAXPATH) (ht : ∀ c ∈ t, c ≠ 0) :
    hmcdrv_cache_symlink (splice d 0 (ncopy t HMCDRV_FUSE_MAXPATH)) = kept_target (some t) := by
  have hall : splice d 0 (ncopy t HMCDRV_FUSE_MAXPATH) = ncopy t HMCDRV_FUSE_MAXPATH := by
    rw [splice, List.drop_eq_nil_of_le (by rw [ncopy_length]; omega), List.append_nil]
    rfl
  rw [hall, hmcdrv_cache_symlink, str_ncopy ht, kept_target, List.take_take]
  by_cases h0 : t = []
  · rw [h0]; rfl
  · rw [if_neg (by rw [List.take_eq_nil_iff]; simp [h0, HMCDRV_FUSE_MAXPATH]), if_neg h0]
    rfl

/-! ## One line -/

section
variable {ctx : Context} {dir line : Bytes} {b : Buffers} {len : Nat}

theorem Good.cleared (h : Good dir b) (hlen : dir.length + len = HMCDRV_FUSE_MAXPATH) (hpos : 1 ≤ len) :
    put b.path dir.length [0] = some (splice b.path dir.length [0]) ∧
      Good dir { b with path := splice b.path dir.length [0] } ∧
        str ((splice b.path dir.length [0]).drop dir.length) = [] := by
  have hp := h.path
  have hroom : dir.length + [(0 : UInt8)].length ≤ b.path.length := by rw [List.length_singleton]; omega
  refine ⟨put_ok hroom, ⟨(length_splice hroom).trans hp, ?_, h.symlink⟩, ?_⟩
  · show (splice b.path dir.length [0]).take dir.length = dir
    rw [take_splice (Nat.le_refl _) (by omega)]
    exact h.dir
  · rw [drop_splice (by omega)]
    rfl

theorem Good.named (h : Good dir b) (hlen : dir.length + len = HMCDRV_FUSE_MAXPATH) (hpos : 1 ≤ len)
    (hdir : ∀ c ∈ dir, c ≠ 0) {name : Bytes} (hname : ∀ c ∈ name, c ≠ 0) :
    ∃ path, (put b.path dir.length (ncopy name len) >>= fun path =>
      put path (dir.length + len - 1) [0]) = some path ∧
      Good dir { b with path } ∧ str (path.drop dir.length) = name.take (len - 1) ∧
      str path = dir ++ name.take (len - 1) := by
  have hp := h.path
  have hn : (ncopy name len).length = len := ncopy_length ..
  have h₁ : dir.length + (ncopy name len).length ≤ b.path.length := by omega
  have hl₁ := length_splice h₁
  have h₂ : dir.length + len - 1 + [(0 : UInt8)].length ≤ (splice b.path dir.length (ncopy name len)).length := by
    rw [List.length_singleton]; omega
  have htake : (splice (splice b.path dir.length (ncopy name len)) (dir.length + len - 1) [0]).take
    dir.length = dir := by
    rw [take_splice (by omega) (by omega), take_splice (Nat.le_refl _) (by omega), h.dir]
  have hone : (splice b.path dir.length (ncopy name len)).drop dir.length = ncopy name len := by
    rw [drop_splice (by omega), List.drop_eq_nil_of_le (by omega), List.append_nil]
  have hdrop : (splice (splice b.path dir.length (ncopy name len)) (dir.length + len - 1) [0]).drop dir.length =
      (ncopy name len).take (len - 1) ++ [0] := by
    have hl : ((splice b.path dir.length (ncopy name len)).take (dir.length + len - 1)).length =
      dir.length + len - 1 := by
      rw [List.length_take]; omega
    have hnil : (splice b.path dir.length (ncopy name len)).drop
      (dir.length + len - 1 + [(0 : UInt8)].length) = [] :=
      List.drop_eq_nil_of_le (by rw [List.length_singleton]; omega)
    rw [splice, hnil, List.append_nil, List.drop_append_of_le_length (by omega),
      show dir.length + len - 1 = dir.length + (len - 1) by omega,
      ← List.take_drop, hone]
  have hname' : str ((splice (splice b.path dir.length (ncopy name len)) (dir.length + len - 1)
    [0]).drop dir.length) =
      name.take (len - 1) := by rw [hdrop, str_ncopy_cut hname]
  exact ⟨splice (splice b.path dir.length (ncopy name len)) (dir.length + len - 1) [0],
    by rw [put_ok h₁]; exact put_ok h₂, ⟨(length_splice h₂).trans (hl₁.trans hp), htake, h.symlink⟩, hname',
    by rw [str_behind htake hdir, hname']⟩

theorem bne_nl : (fun c : UInt8 => c != 0x0a) = fun c => decide (c ≠ nl) := by
  funext c
  by_cases h : c = nl
  · subst h; rfl
  · rw [decide_eq_true h]
    simpa [nl] using h

theorem next_eq (line : Bytes) : (Chunked.behind isspace nl line).dropWhile isspace =
    Chunked.next isspace nl line := by
  by_cases h : Chunked.behind isspace nl line = []
  · rw [Chunked.next, h]
    rfl
  · have hb := Chunked.behind_eq_cons h
    obtain ⟨c, r, hc⟩ := List.exists_cons_of_ne_nil h
    have hnl : c = nl := by
      have := List.head?_dropWhile_not (fun c => decide (c ≠ nl)) (line.dropWhile isspace)
      rw [show List.dropWhile (fun c => decide (c ≠ nl)) (line.dropWhile isspace) = c :: r from hc] at this
      simpa using this
    rw [Chunked.next, hc, List.tail_cons, List.dropWhile_cons, if_pos (by rw [hnl]; rfl)]

theorem parse_line_eq (ctx : Context) (h : Good dir b)
    (hlen : dir.length + len = HMCDRV_FUSE_MAXPATH) (hpos : 1 ≤ len)
    (hdir : ∀ c ∈ dir, c ≠ 0) (hline : ∀ c ∈ line, c ≠ 0) :
    ∃ st b', hmcdrv_parse_line ctx line b dir.length len = some (Chunked.next isspace nl line, st,
      b') ∧ Good dir b' ∧
      match Chunked.parse isspace nl (decoded ctx len) line with
      | none => str (b'.path.drop dir.length) = []
      | some e => st = e.st ∧ str (b'.path.drop dir.length) = e.name.take (len - 1) ∧ e.name.take (len - 1) ≠ [] ∧
        str b'.path = dir ++ e.name.take (len - 1) ∧ hmcdrv_cache_symlink b'.symlink = kept_target e.target := by
  obtain ⟨hput, hgood, hstr⟩ := h.cleared hlen hpos
  have hfirst : (line.dropWhile isspace).takeWhile (· != 0x0a) = Chunked.first isspace nl line := by
    rw [bne_nl]
    rfl
  have hbehind : (line.dropWhile isspace).dropWhile (· != 0x0a) = Chunked.behind isspace nl line := by
    rw [bne_nl]
    rfl
  have hmem : ∀ c ∈ Chunked.first isspace nl line, c ≠ 0 := fun c hc =>
    hline c ((List.dropWhile_suffix _).subset ( List.takeWhile_prefix _ |>.subset hc))
  unfold hmcdrv_parse_line
  simp only [hput, hfirst, hbehind, next_eq, Option.bind_eq_bind, Option.bind_some]
  cases he : line_entry ctx (Chunked.first isspace nl line) with
  | none =>
    have hd : Chunked.parse isspace nl (decoded ctx len) line = none := by
      rw [Chunked.parse, decoded, he]
      simp
    rw [hd]
    exact ⟨_, _, rfl, hgood, hstr⟩
  | some e =>
    obtain ⟨hne, hname, htarget⟩ := line_entry_name he
    simp only
    by_cases hb : Chunked.behind isspace nl line = []
    · rw [if_pos hb, Chunked.parse, if_pos hb]
      exact ⟨_, _, rfl, hgood, hstr⟩
    rw [if_neg hb, Chunked.parse, if_neg hb]
    obtain ⟨path, hpath, hgp, hfn, hfull⟩ := hgood.named hlen hpos hdir fun c hc => hmem c (hname c hc)
    obtain ⟨path₁, h₁, h₂⟩ := Option.bind_eq_some_iff.mp hpath
    obtain ⟨symlink, hsym, hsl, hkept⟩ : ∃ symlink, put_target b.symlink e.target = some symlink ∧
        symlink.length = HMCDRV_FUSE_MAXPATH ∧ hmcdrv_cache_symlink symlink = kept_target e.target := by
      have hs := h.symlink
      cases ht : e.target with
      | none =>
        have hroom : 0 + [(0 : UInt8)].length ≤ b.symlink.length := by rw [hs]; decide
        exact ⟨_, put_ok hroom, (length_splice hroom).trans hs, cache_symlink_none _⟩
      | some t =>
        have hroom : 0 + (ncopy t HMCDRV_FUSE_MAXPATH).length ≤ b.symlink.length := by
          rw [ncopy_length, hs, Nat.zero_add]
        exact ⟨_, put_ok hroom, (length_splice hroom).trans hs, cache_symlink_some hs fun c hc =>
          hmem c (htarget t ht c hc)⟩
    simp only [h₁, h₂, hsym, Option.bind_some]
    refine ⟨e.st, ⟨path, symlink⟩, rfl, ⟨hgp.path, hgp.dir, hsl⟩, ?_⟩
    unfold decoded
    by_cases hl : 2 ≤ len
    · rw [if_pos hl, he]
      refine ⟨rfl, hfn, ?_, hfull, hkept⟩
      rw [Ne, List.take_eq_nil_iff, not_or]
      exact ⟨by omega, hne⟩
    · rw [if_neg hl]
      show str (path.drop dir.length) = []
      rw [hfn, show len - 1 = 0 by omega]
      rfl

end

/-! ## One chunk -/

def stored_entry (dir : Bytes) (len : Nat) (e : Entry) : Stored :=
  ⟨dir ++ e.name.take (len - 1), e.st, kept_target e.target⟩

/-- What the filler takes of `es` behind `k` others. -/
def offered (refuses : Nat → Bool) : Nat → List (Bytes × Stat) → List (Bytes × Stat)
  | _, [] => []
  | k, e :: es => e :: if refuses k then [] else offered refuses (k + 1) es

/-- The entries stored and passed, and whether the filler takes more. -/
abbrev Log := List Stored × List (Bytes × Stat) × Bool

def Scan.log (s : Scan) : Log := (s.stored, s.passed, s.filler)

def record (refuses : Nat → Bool) (dir : Bytes) (len : Nat) (g : Log) (e : Entry) : Log :=
  (g.1 ++ [stored_entry dir len e], if g.2.2 then g.2.1 ++ [(e.name.take (len - 1), e.st)] else g.2.1,
    g.2.2 && !refuses g.2.1.length)

theorem foldl_record {refuses : Nat → Bool} {dir : Bytes} {len : Nat} : ∀ (es : List Entry) (g : Log),
    (es.foldl (record refuses dir len) g).1 = g.1 ++ es.map (stored_entry dir len) ∧
      (es.foldl (record refuses dir len) g).2.1 = g.2.1 ++
        if g.2.2 then offered refuses g.2.1.length (es.map fun e => (e.name.take (len - 1), e.st)) else []
  | [], g => by simp [offered]
  | e :: es, g => by
    obtain ⟨ih₁, ih₂⟩ := foldl_record es (record refuses dir len g e)
    rw [List.foldl_cons, ih₁, ih₂]
    refine ⟨by simp [record], ?_⟩
    obtain ⟨st, ps, filler⟩ := g
    cases filler with
    | false => simp [record]
    | true =>
      cases hr : refuses ps.length with
      | false => simp [record, offered, hr]
      | true => simp [record, offered, hr]

section
variable {ctx : Context} {refuses : Nat → Bool} {dir : Bytes} {len : Nat}

theorem scan_chunk_eq (hlen : dir.length + len = HMCDRV_FUSE_MAXPATH) (hpos : 1 ≤ len) (hdir : ∀ c ∈ dir, c ≠ 0) :
    ∀ {n : Nat} {line : Bytes} {s : Scan}, line.length ≤ n → 1 ≤ n → Good dir s.b → (∀ c ∈ line, c ≠ 0) →
      ∃ s', scan_chunk ctx refuses dir.length len n line s =
          some ((Chunked.scan isspace nl (decoded ctx len) n line).1, s') ∧ Good dir s'.b ∧
        s'.log = (Chunked.scan isspace nl (decoded ctx len) n line).2.foldl (record refuses dir len) s.log
  | n + 1, line, s, hn, _, hg, hline => by
    obtain ⟨st, b', hparse, hg', hres⟩ := parse_line_eq ctx hg hlen hpos hdir hline
    rw [scan_chunk, Chunked.scan]
    simp only [hparse, Option.bind_eq_bind, Option.bind_some]
    -- the state behind this line
    obtain ⟨s₁, hs₁, hgs, hlog, hfrag⟩ : ∃ s₁, (if str (b'.path.drop dir.length) ≠ [] then
          handle_entry refuses (str (b'.path.drop dir.length)) st { s with b := b' } else { s with
            b := b' }) = s₁ ∧ Good dir s₁.b ∧
        s₁.log = (Chunked.parse isspace nl (decoded ctx len) line).toList.foldl (record refuses dir len) s.log ∧
        (str (b'.path.drop dir.length) = [] ↔ (Chunked.parse isspace nl (decoded ctx len) line).isNone = true) := by
      refine ⟨_, rfl, ?_⟩
      cases hp : Chunked.parse isspace nl (decoded ctx len) line with
      | none =>
        rw [hp] at hres
        simp only at hres
        simp only [hres, ne_eq, not_true_eq_false, if_false]
        exact ⟨hg', rfl, by simp⟩
      | some e =>
        rw [hp] at hres
        obtain ⟨rfl, hname, hne, hpath, hlink⟩ := hres
        rw [hname, if_pos hne]
        refine ⟨hg', ?_, by simpa using hne⟩
        show (_, _, _) = record refuses dir len s.log e
        simp only [record, handle_entry, Scan.log, hpath, hlink, stored_entry]
        rfl
    rw [hs₁]
    by_cases hnext : Chunked.next isspace nl line = []
    · simp only [hnext, ne_eq, not_true_eq_false, if_false]
      refine ⟨s₁, ?_, hgs, hlog⟩
      by_cases hf : str (b'.path.drop dir.length) = []
      · rw [if_pos hf, if_pos (hfrag.mp hf)]
      · rw [if_neg hf, if_neg fun h0 => hf (hfrag.mpr h0)]
    · have hb : Chunked.behind isspace nl line ≠ [] := fun h0 => hnext (by rw [Chunked.next, h0]; rfl)
      have hlt := Chunked.length_next_lt isspace nl hb
      have hposn := List.length_pos_iff.mpr hnext
      have hsub : ∀ c ∈ Chunked.next isspace nl line, c ≠ 0 := fun c hc =>
        hline c ((Chunked.next_suffix isspace nl line).subset hc)
      obtain ⟨s', hs', hg'', hlog'⟩ := scan_chunk_eq hlen hpos hdir (s := s₁) (show _ ≤ n by omega)
        (by omega) hgs hsub
      simp only [ne_eq, hnext, not_false_eq_true, if_true]
      refine ⟨s', hs', hg'', ?_⟩
      rw [hlog', hlog, List.foldl_append]

theorem scan_chunk_behind {frag chunk : Bytes} {scan : Scan}
    (hlen : dir.length + len = HMCDRV_FUSE_MAXPATH) (hpos : 1 ≤ len) (hdir : ∀ c ∈ dir, c ≠ 0)
    (hg : Good dir scan.b) (hbuf : ∀ c ∈ frag ++ chunk, c ≠ 0) (hne : chunk ≠ [])
    (hle : frag.length + chunk.length ≤ HMCDRV_FUSE_DIRBUF_LEN) :
    ∃ scan', scan_chunk ctx refuses dir.length len (frag ++ chunk).length (frag ++ chunk) scan =
        some ((Chunked.scan isspace nl (decoded ctx len) (frag ++ chunk).length (frag ++ chunk)).1,
          scan') ∧ Good dir scan'.b ∧
      scan'.log = (Chunked.scan isspace nl (decoded ctx len) (frag ++ chunk).length (frag ++ chunk)).2.foldl
        (record refuses dir len) scan.log ∧
      (∀ c ∈ (Chunked.scan isspace nl (decoded ctx len) (frag ++ chunk).length (frag ++ chunk)).1, c ≠ 0) ∧
      (Chunked.scan isspace nl (decoded ctx len) (frag ++ chunk).length (frag ++
        chunk)).1.length ≤ HMCDRV_FUSE_DIRBUF_LEN := by
  have hpc := List.length_pos_iff.mpr hne
  have hbl : 1 ≤ (frag ++ chunk).length := by rw [List.length_append]; omega
  have hs := (blank ctx len).scanned (Nat.le_refl (frag ++ chunk).length) hbl
  obtain ⟨scan', hrun, hg', hlog⟩ :=
    @scan_chunk_eq ctx refuses dir len hlen hpos hdir _ _ scan (Nat.le_refl (frag ++ chunk).length)
    hbl hg hbuf
  refine ⟨scan', hrun, hg', hlog, fun c hc => hbuf c (hs.suffix.subset hc), Nat.le_trans hs.suffix.length_le ?_⟩
  rw [List.length_append]
  exact hle

/-! ## All chunks -/

theorem read_chunks_eq (hlen : dir.length + len = HMCDRV_FUSE_MAXPATH) (hpos : 1 ≤ len) (hdir : ∀ c ∈ dir, c ≠ 0)
    {text : Bytes} (htext : ∀ c ∈ text, c ≠ 0) (wishes : Nat → Nat) : ∀ {n k offset : Nat}
      {frag : Bytes} {s : Scan},
    Good dir s.b → (∀ c ∈ frag, c ≠ 0) → frag.length ≤ HMCDRV_FUSE_DIRBUF_LEN →
      ∃ s', read_chunks ctx refuses dir.length len text wishes n k frag offset s = some s' ∧
        s'.log = (Chunked.rounds isspace nl (decoded ctx len) HMCDRV_FUSE_DIRBUF_LEN wishes n k frag
          (text.drop offset)).foldl
          (record refuses dir len) s.log
  | 0, _, _, _, s, _, _, _ => ⟨s, rfl, rfl⟩
  | n + 1, k, offset, frag, s, hg, hfrag, hle => by
    rw [read_chunks, Chunked.rounds]
    have hchunk : ftp_dir text (wishes k) (HMCDRV_FUSE_DIRBUF_LEN - frag.length) offset =
      (text.drop offset).take (min (HMCDRV_FUSE_DIRBUF_LEN - frag.length) (wishes k + 1)) := rfl
    simp only [hchunk]
    generalize hc : (text.drop offset).take (min (HMCDRV_FUSE_DIRBUF_LEN - frag.length) (wishes k + 1)) = c
    by_cases h0 : c = []
    · rw [if_pos h0, if_pos h0]
      exact ⟨s, rfl, rfl⟩
    · have hcl : c.length ≤ HMCDRV_FUSE_DIRBUF_LEN - frag.length := by rw [← hc, List.length_take]; omega
      have hpc := List.length_pos_iff.mpr h0
      have hsize : ¬HMCDRV_FUSE_DIRBUF_SIZE ≤ frag.length + c.length := by
        unfold HMCDRV_FUSE_DIRBUF_LEN at hcl hle
        unfold HMCDRV_FUSE_DIRBUF_SIZE at hcl hle ⊢
        omega
      have hbuf : ∀ x ∈ frag ++ c, x ≠ 0 := by
        intro x hx
        rcases List.mem_append.mp hx with hx | hx
        · exact hfrag x hx
        · exact htext x (List.mem_of_mem_drop (List.mem_of_mem_take (hc ▸ hx)))
      obtain ⟨s₁, hs₁, hg₁, hlog₁, hsub, hfl⟩ :=
        @scan_chunk_behind ctx refuses dir len frag c s hlen hpos hdir hg hbuf h0 (by omega)
      obtain ⟨s₂, hs₂, hlog₂⟩ := @read_chunks_eq hlen hpos hdir text htext wishes n (k + 1)
        (offset + c.length) _ s₁ hg₁ hsub hfl
      rw [if_neg h0, if_neg h0, if_neg hsize]
      simp only [hs₁, Option.bind_eq_bind, Option.bind_some]
      refine ⟨s₂, hs₂, ?_⟩
      rw [hlog₂, hlog₁, List.foldl_append, List.drop_drop]

end

/-! ## The directory -/

def dir_path (dir : Bytes) : Bytes := if dir.getLast? = some 0x2f then dir else dir ++ [0x2f]

def room (dir : Bytes) : Nat := HMCDRV_FUSE_MAXPATH - (dir_path dir).length

def listed (ctx : Context) (text : Bytes) : List Entry := Chunked.entries nl (line_entry ctx) text

section
variable {ctx : Context} {refuses : Nat → Bool} {filler : Bool} {dir text : Bytes} {b : Buffers}

theorem dir_path_no_nul (hdir : ∀ c ∈ dir, c ≠ 0) : ∀ c ∈ dir_path dir, c ≠ 0 := by
  unfold dir_path
  split
  · exact hdir
  · intro c hc
    rcases List.mem_append.mp hc with hc | hc
    · exact hdir c hc
    · rw [List.mem_singleton.mp hc]
      decide

theorem take_splice_zero {d s : Bytes} : (splice d 0 s).take s.length = s := by
  rw [splice]
  simp

theorem take_splice_end {d s : Bytes} {o : Nat} (ho : o ≤ d.length) :
    (splice d o s).take (o + s.length) = d.take o ++ s := by
  have hl : (d.take o ++ s).length = o + s.length := by
    rw [List.length_append, List.length_take, Nat.min_eq_left ho]
  rw [splice, List.take_append_of_le_length (by omega), List.take_of_length_le (by omega)]

theorem path_copy_eq (hne : dir ≠ []) (hroom : (dir_path dir).length < HMCDRV_FUSE_MAXPATH)
    (hb : b.path.length = HMCDRV_FUSE_MAXPATH) (hs : b.symlink.length = HMCDRV_FUSE_MAXPATH) :
    ∃ path, hmcdrv_path_copy dir b.path = some ((dir_path dir).length, path) ∧
      Good (dir_path dir) { b with path } := by
  have hle : dir.length ≤ (dir_path dir).length := by
    unfold dir_path
    split
    · exact Nat.le_refl _
    · rw [List.length_append]
      omega
  have hcut : dir.take (HMCDRV_FUSE_MAXPATH - 1) = dir := List.take_of_length_le (by omega)
  have h₁ : 0 + dir.length ≤ b.path.length := by omega
  have hl₁ := (length_splice h₁).trans hb
  rw [hmcdrv_path_copy, hcut]
  simp only [put_ok h₁, Option.bind_eq_bind, Option.bind_some]
  unfold dir_path at hroom ⊢
  by_cases hslash : dir.getLast? = some 0x2f
  · rw [if_pos hslash] at hroom ⊢
    have h₂ : dir.length + [(0 : UInt8)].length ≤ (splice b.path 0 dir).length :=
      by rw [List.length_singleton]; omega
    rw [if_neg fun h => h.2 hslash, put_ok h₂]
    refine ⟨_, rfl, (length_splice h₂).trans hl₁, ?_, hs⟩
    show (splice (splice b.path 0 dir) dir.length [0]).take dir.length = dir
    rw [take_splice (Nat.le_refl _) (by omega), take_splice_zero]
  · rw [if_neg hslash] at hroom ⊢
    have hl : (dir ++ [(0x2f : UInt8)]).length = dir.length + 1 := by rw [List.length_append, List.length_singleton]
    have h₂ : dir.length + [(0x2f : UInt8)].length ≤ (splice b.path 0 dir).length :=
      by rw [List.length_singleton]; omega
    have hl₂ := (length_splice h₂).trans hl₁
    have h₃ : dir.length + 1 + [(0 : UInt8)].length ≤ (splice (splice b.path 0 dir) dir.length [0x2f]).length := by
      rw [List.length_singleton]; omega
    rw [if_pos ⟨hne, hslash⟩, put_ok h₂, Option.bind_some, put_ok h₃, hl]
    refine ⟨_, rfl, (length_splice h₃).trans hl₂, ?_, hs⟩
    show (splice (splice (splice b.path 0 dir) dir.length [0x2f]) (dir.length + 1) [0]).take (dir ++
      [0x2f]).length = dir ++ [0x2f]
    have hend := take_splice_end (s := [(0x2f : UInt8)]) (show dir.length ≤ (splice b.path 0 dir).length by omega)
    rw [List.length_singleton, take_splice_zero] at hend
    rw [hl, take_splice (Nat.le_refl _) (by omega), hend]

theorem path_copy_none (hroom : ¬(dir_path dir).length < HMCDRV_FUSE_MAXPATH)
    (hlt : dir.length < HMCDRV_FUSE_MAXPATH)
    (hb : b.path.length = HMCDRV_FUSE_MAXPATH) : hmcdrv_path_copy dir b.path = none := by
  unfold dir_path at hroom
  split at hroom
  · exact absurd hlt hroom
  rename_i hslash
  rw [List.length_append, List.length_singleton] at hroom
  have hne : dir ≠ [] := fun h0 => hroom (by rw [h0]; decide)
  have hcut : dir.take (HMCDRV_FUSE_MAXPATH - 1) = dir := List.take_of_length_le (by omega)
  have h₁ : 0 + dir.length ≤ b.path.length := by omega
  have hl₁ := (length_splice h₁).trans hb
  have h₂ : dir.length + [(0x2f : UInt8)].length ≤ (splice b.path 0 dir).length :=
    by rw [List.length_singleton]; omega
  have hl₂ := (length_splice h₂).trans hl₁
  rw [hmcdrv_path_copy, hcut]
  simp only [put_ok h₁, put_ok h₂, Option.bind_eq_bind, Option.bind_some]
  rw [if_pos ⟨hne, hslash⟩, put, if_neg (by rw [List.length_singleton]; omega)]
  rfl

def stored_file (timeout : Int) (e : Stored) : CacheFile := ⟨e.path, e.st, e.symlnk, timeout⟩

theorem lookup_cached {timeout : Int} {e : Stored} {post : List Stored} : ∀ {pre : List Stored} {cache : Cache},
    (∀ e' ∈ pre ++ e :: post, e'.path ≠ [] ∧ e'.path.length < HMCDRV_FUSE_MAXPATH) →
      (∀ e' ∈ post, e'.path ≠ e.path) →
      lookup ((pre ++ e :: post).foldl (fun cache e =>
        hmcdrv_cache_refresh timeout e.path e.st e.symlnk cache) cache) e.path =
        some (stored_file timeout e)
  | p :: pre, cache, hlen, hpost =>
    @lookup_cached timeout e post pre _ (fun e' he' => hlen e' (List.mem_cons_of_mem p he')) hpost
  | [], cache, hlen, hpost => by
    obtain ⟨he, hpost'⟩ := List.forall_mem_cons.mp hlen
    have hkeep : ∀ (l : List Stored) (c : Cache), (∀ e' ∈ l, e'.path ≠ [] ∧ e'.path.length < HMCDRV_FUSE_MAXPATH) →
        (∀ e' ∈ l, e'.path ≠ e.path) →
        lookup (l.foldl (fun cache e => hmcdrv_cache_refresh timeout e.path e.st e.symlnk cache) c)
          e.path = lookup c e.path := by
      intro l
      induction l with
      | nil => intro c _ _; rfl
      | cons a l ih =>
        intro c hl hd
        obtain ⟨ha, hl⟩ := List.forall_mem_cons.mp hl
        obtain ⟨hda, hd⟩ := List.forall_mem_cons.mp hd
        rw [List.foldl_cons, ih _ hl hd, lookup_refresh c ha.1 ha.2, if_neg hda]
    rw [List.nil_append, List.foldl_cons, hkeep post _ hpost' hpost, lookup_refresh cache he.1 he.2, if_pos rfl]
    rfl

/-- Every way of cutting the listing stores the entries on its lines and passes them to the filler. The last
entry of a name is found in the cache, and different names get different paths. -/
structure ListedOnce (ctx : Context) (refuses : Nat → Bool) (filler : Bool) (b : Buffers)
    (dir text : Bytes) : Prop where
  run : ∀ wishes, ∃ s, hmcdrv_cache_dir ctx refuses filler b dir text wishes = some s ∧
    s.stored = (listed ctx text).map (stored_entry (dir_path dir) (room dir)) ∧
    (s.passed = if filler then offered refuses 0 ((listed ctx text).map fun e =>
      (e.name.take (room dir - 1), e.st)) else []) ∧
    ∀ timeout cache pre e post, listed ctx text = pre ++ e :: post → (∀ e' ∈ post, e'.name ≠ e.name) →
      lookup (s.cached timeout cache) (stored_entry (dir_path dir) (room dir) e).path =
        some (stored_file timeout (stored_entry (dir_path dir) (room dir) e))
  apart : ∀ e ∈ listed ctx text, ∀ e' ∈ listed ctx text, e.name ≠ e'.name →
    (stored_entry (dir_path dir) (room dir) e).path ≠ (stored_entry (dir_path dir) (room dir) e').path

/-- The path with its slash leaves room for a name, the names differ where they are cut, and no line fills the
buffer together with the white space around it. -/
structure Storable (ctx : Context) (dir text : Bytes) : Prop where
  path : (dir_path dir).length < HMCDRV_FUSE_MAXPATH
  name : listed ctx text ≠ [] → 2 ≤ room dir
  apart : ∀ e ∈ listed ctx text, ∀ e' ∈ listed ctx text, e.name.take (room dir - 1) = e'.name.take (room dir - 1) →
    e.name = e'.name
  fits : Chunked.Fits isspace nl (line_entry ctx) HMCDRV_FUSE_DIRBUF_LEN text

theorem stored_path_length (hne : dir ≠ []) (hroom : (dir_path dir).length < HMCDRV_FUSE_MAXPATH) (e : Entry) :
    (stored_entry (dir_path dir) (room dir) e).path ≠ [] ∧
      (stored_entry (dir_path dir) (room dir) e).path.length < HMCDRV_FUSE_MAXPATH := by
  have hd : dir_path dir ≠ [] := by
    unfold dir_path
    split
    · exact hne
    · exact List.append_ne_nil_of_right_ne_nil _ (List.cons_ne_nil _ _)
  refine ⟨List.append_ne_nil_of_left_ne_nil hd _, ?_⟩
  show (dir_path dir ++ e.name.take (room dir - 1)).length < HMCDRV_FUSE_MAXPATH
  rw [List.length_append, List.length_take, room]
  omega

theorem decoded_of_room (h : 2 ≤ room dir) : decoded ctx (room dir) = line_entry ctx := by
  funext l
  rw [decoded, if_pos h]

theorem entries_no_room (h : ¬2 ≤ room dir) : Chunked.entries nl (decoded ctx (room dir)) text = [] := by
  have hd : decoded ctx (room dir) = fun _ => none := by
    funext l
    rw [decoded, if_neg h]
  rw [hd, Chunked.entries, List.filterMap_eq_nil_iff]
  exact fun _ _ => rfl

def found (ctx : Context) (dir text : Bytes) (wishes : Nat → Nat) : List Entry :=
  Chunked.rounds isspace nl (decoded ctx (room dir)) HMCDRV_FUSE_DIRBUF_LEN wishes (text.length + 1) 0 [] text

theorem found_no_room (h : ¬2 ≤ room dir) (wishes : Nat → Nat) : found ctx dir text wishes = [] := by
  obtain ⟨es, hes⟩ := (blank ctx (room dir)).rounds_front (N := HMCDRV_FUSE_DIRBUF_LEN) wishes (n :=
    text.length + 1) (k := 0)
    (t := text) Chunked.open_nil
  rw [List.nil_append, entries_no_room h] at hes
  exact (List.append_eq_nil_iff.mp hes.symm).1

theorem cache_dir_eq (hne : dir ≠ []) (hdir : ∀ c ∈ dir, c ≠ 0) (htext : ∀ c ∈ text, c ≠ 0)
    (hb : b.path.length = HMCDRV_FUSE_MAXPATH) (hs : b.symlink.length = HMCDRV_FUSE_MAXPATH)
    (hroom : (dir_path dir).length < HMCDRV_FUSE_MAXPATH) (wishes : Nat → Nat) :
    ∃ s, hmcdrv_cache_dir ctx refuses filler b dir text wishes = some s ∧
      s.stored = (found ctx dir text wishes).map (stored_entry (dir_path dir) (room dir)) ∧
      s.passed = if filler then offered refuses 0 ((found ctx dir text wishes).map fun e =>
        (e.name.take (room dir - 1), e.st))
        else [] := by
  obtain ⟨path, hcopy, hgood⟩ := path_copy_eq hne hroom hb hs
  have hlen : (dir_path dir).length + room dir = HMCDRV_FUSE_MAXPATH := by unfold room; omega
  have hpos : 1 ≤ room dir := by unfold room; omega
  obtain ⟨s, hread, hlog⟩ := @read_chunks_eq ctx refuses (dir_path dir)
    (room dir) hlen hpos (dir_path_no_nul hdir) text htext
    wishes (text.length + 1) 0 0 [] ⟨{ b with path }, [], [], filler⟩ hgood
    (fun c hc => absurd hc List.not_mem_nil) (Nat.zero_le _)
  obtain ⟨hst, hps⟩ := @foldl_record refuses (dir_path dir) (room dir) (found ctx dir text wishes) ([], [], filler)
  rw [List.drop_zero] at hlog
  refine ⟨s, ?_, ?_, ?_⟩
  · rw [hmcdrv_cache_dir, hcopy]
    exact hread
  · exact (congrArg Prod.fst hlog).trans (hst.trans (List.nil_append _))
  · exact (congrArg (fun g : Log => g.2.1) hlog).trans (hps.trans (List.nil_append _))

/-- The listing is decoded whatever the chunks are exactly where it is storable. -/
theorem listed_once_iff_storable (hne : dir ≠ []) (hlt : dir.length < HMCDRV_FUSE_MAXPATH) (hdir : ∀ c ∈ dir, c ≠ 0)
    (htext : ∀ c ∈ text, c ≠ 0) (hb : b.path.length = HMCDRV_FUSE_MAXPATH)
      (hs : b.symlink.length = HMCDRV_FUSE_MAXPATH) :
    ListedOnce ctx refuses filler b dir text ↔ Storable ctx dir text := by
  have hn : text.length < text.length + 1 := Nat.lt_succ_self _
  constructor
  · intro h
    have hpath : (dir_path dir).length < HMCDRV_FUSE_MAXPATH := by
      by_contra hroom
      obtain ⟨s, hrun, -⟩ := h.run fun _ => 0
      rw [hmcdrv_cache_dir, path_copy_none hroom hlt hb] at hrun
      cases hrun
    have hfound : ∀ wishes, (found ctx dir text wishes).length = (listed ctx text).length := by
      intro wishes
      obtain ⟨s, hrun, hst, -, -⟩ := h.run wishes
      obtain ⟨s', hrun', hst', -⟩ := @cache_dir_eq ctx refuses filler dir text b hne hdir htext hb hs hpath wishes
      rw [hrun] at hrun'
      cases hrun'
      rw [hst] at hst'
      have := congrArg List.length hst'
      rw [List.length_map, List.length_map] at this
      exact this.symm
    have hname : listed ctx text ≠ [] → 2 ≤ room dir := by
      intro hl
      by_contra hroom
      have := hfound fun _ => 0
      rw [found_no_room hroom] at this
      exact hl (List.length_eq_zero_iff.mp this.symm)
    refine ⟨hpath, hname, fun e he e' he' heq => ?_, ?_⟩
    · by_contra hdiff
      exact h.apart e he e' he' hdiff (congrArg (dir_path dir ++ ·) heq)
    · by_cases hroom : 2 ≤ room dir
      · have hblank := blank ctx (room dir)
        rw [decoded_of_room hroom] at hblank
        refine (hblank.rounds_iff hn).mp fun wishes => ?_
        obtain ⟨es, hes⟩ := hblank.rounds_front (N := HMCDRV_FUSE_DIRBUF_LEN) wishes (n :=
          text.length + 1) (k := 0) (t := text)
          Chunked.open_nil
        have hlen := hfound wishes
        rw [found, decoded_of_room hroom, listed] at hlen
        rw [List.nil_append] at hes
        rw [hes, List.length_append] at hlen
        rw [hes, List.length_eq_zero_iff.mp (Nat.add_eq_left.mp hlen.symm), List.append_nil]
      · exact Chunked.Fits.of_no_entries (by_contra fun hl => hroom (hname hl))
  · intro h
    have hfound : ∀ wishes, found ctx dir text wishes = listed ctx text := by
      intro wishes
      by_cases hroom : 2 ≤ room dir
      · rw [found, decoded_of_room hroom]
        have hblank := blank ctx (room dir)
        rw [decoded_of_room hroom] at hblank
        exact (hblank.rounds_iff hn).mpr h.fits wishes
      · rw [found_no_room hroom]
        exact (by_contra fun hl => hroom (h.name (Ne.symm hl)))
    have hapart : ∀ e ∈ listed ctx text, ∀ e' ∈ listed ctx text, e.name ≠ e'.name →
        (stored_entry (dir_path dir) (room dir) e).path ≠ (stored_entry (dir_path dir) (room dir) e').path :=
      fun e he e' he' hdiff heq => hdiff (h.apart e he e' he' (List.append_cancel_left heq))
    refine ⟨fun wishes => ?_, hapart⟩
    obtain ⟨s, hrun, hst, hps⟩ := @cache_dir_eq ctx refuses filler dir text b hne hdir htext hb hs h.path wishes
    rw [hfound wishes] at hst hps
    refine ⟨s, hrun, hst, hps, fun timeout cache pre e post hl hpost => ?_⟩
    rw [Scan.cached, hst, hl, List.map_append, List.map_cons]
    apply lookup_cached
    · intro e' he'
      rw [← List.map_cons, ← List.map_append, ← hl] at he'
      obtain ⟨x, hx, rfl⟩ := List.mem_map.mp he'
      exact stored_path_length hne h.path x
    · intro e' he'
      obtain ⟨x, hx, rfl⟩ := List.mem_map.mp he'
      exact hapart x (by rw [hl]; simp [hx]) e (by rw [hl]; simp) (hpost x hx)

end

def sample_context : Context where
  st := zeroStat
  abmon := [bytes "Jan"]
  now := ⟨0, 0, 1, 0, 100⟩
  mktime := fun t => t.tm_mday

def sample_buffers : Buffers := ⟨List.replicate 192 0, List.replicate 192 0⟩

def sample_listing : Bytes := bytes "total 1\n-rw-r--r-- 1 2 3 5 Jan 4 12:00 a\n"

theorem sample_storable : Storable sample_context (bytes "/d") sample_listing where
  path := by decide
  name := fun _ => by decide
  apart := by
    have hl : (listed sample_context sample_listing).map (·.name) = [bytes "a"] := by rfl
    have hname : ∀ e ∈ listed sample_context sample_listing, e.name = bytes "a" := fun e he => by
      have := List.mem_map_of_mem (f := (·.name)) he
      rw [hl] at this
      exact List.mem_singleton.mp this
    exact fun e he e' he' _ => (hname e he).trans (hname e' he').symm
  fits := by
    refine (Chunked.Fits.eq _).mpr (Or.inr (Or.inr ?_))
    rw [if_neg (by decide)]
    refine ⟨by decide, (Chunked.Fits.eq _).mpr (Or.inr (Or.inr ?_))⟩
    rw [if_pos (by decide)]
    exact ⟨by decide, (Chunked.Fits.eq _).mpr (Or.inl rfl)⟩

theorem listed_once_sample : ListedOnce sample_context (fun _ =>
    false) true sample_buffers (bytes "/d") sample_listing :=
  (listed_once_iff_storable (by decide) (by decide) (List.all_iff_forall_prop.mp (by decide))
    (List.all_iff_forall_prop.mp (by decide)) rfl rfl).mpr sample_storable

/-- The slash of the longest path is the last byte of the buffer. -/
theorem longest_path_overflows :
    ¬ListedOnce sample_context (fun _ =>
      false) true sample_buffers (0x2f :: List.replicate 190 0x61) sample_listing := by
  intro h
  obtain ⟨s, hrun, -⟩ := h.run fun _ => 0
  rw [hmcdrv_cache_dir, path_copy_none (by decide) (by decide) rfl] at hrun
  cases hrun

end Hmcdrvfs
