import Mathlib

/-!
# Decoding lines from chunks

A text of lines is read in chunks into a buffer. `parse` takes one line from the
buffer; white space in front of a line and behind it is skipped. A line that
gives nothing at the end of the buffer is kept as the fragment, and the next
chunk is read behind it. The lines of the whole text are found if no line and
no white space fills the buffer.
-/

namespace Chunked

variable {α β : Type} [DecidableEq α]

/-- The lines of a text that have an end, without it; `acc` is the start of the first one. -/
@[grind =] def lines (nl : α) (acc : List α) : List α → List (List α)
  | [] => []
  | c :: s => if c = nl then acc :: lines nl [] s else lines nl (acc ++ [c]) s

section
variable (ws : α → Bool) (nl : α) (D : List α → Option β)

def entries (text : List α) : List β := (lines nl [] text).filterMap D

def first (text : List α) : List α := (text.dropWhile ws).takeWhile (· ≠ nl)

def behind (text : List α) : List α := (text.dropWhile ws).dropWhile (· ≠ nl)

def next (text : List α) : List α := (behind ws nl text).tail.dropWhile ws

def parse (text : List α) : Option β := if behind ws nl text = [] then none else D (first ws nl text)

@[grind =] def scan : Nat → List α → List α × List β
  | 0, line => (line, [])
  | n + 1, line =>
    if next ws nl line ≠ [] then
      ((scan n (next ws nl line)).1, (parse ws nl D line).toList ++ (scan n (next ws nl line)).2)
    else (if (parse ws nl D line).isNone then line else [], (parse ws nl D line).toList)

/-- The rest of the text is read in chunks into a buffer for `N` characters, behind the fragment. -/
@[grind =] def rounds (N : Nat) (wishes : Nat → Nat) : Nat → Nat → List α → List α → List β
  | 0, _, _, _ => []
  | n + 1, k, frag, rest =>
    let chunk := rest.take (min (N - frag.length) (wishes k + 1))
    if chunk = [] then []
    else
      (scan ws nl D (frag ++ chunk).length (frag ++ chunk)).2 ++
        rounds N wishes n (k + 1) (scan ws nl D (frag ++ chunk).length (frag ++ chunk)).1 (rest.drop chunk.length)

theorem length_behind_le (text : List α) : (behind ws nl text).length ≤ text.length :=
  Nat.le_trans (List.dropWhile_suffix _).length_le (List.dropWhile_suffix _).length_le

theorem next_suffix (text : List α) : next ws nl text <:+ text :=
  ((List.dropWhile_suffix _).trans (List.tail_suffix _)).trans
    ((List.dropWhile_suffix _).trans (List.dropWhile_suffix _))

theorem length_next_lt {text : List α} (h : behind ws nl text ≠ []) : (next ws nl text).length < text.length := by
  have hle := (List.dropWhile_suffix (l := (behind ws nl text).tail) ws).length_le
  have hlen := length_behind_le ws nl text
  have hpos := List.length_pos_iff.mpr h
  rw [List.length_tail] at hle
  unfold next
  omega

/-- As long as a line gives something, each line fits into the buffer together with the white space in front of
it, and a line that gives nothing also with the white space behind it. -/
@[grind =] def Fits (N : Nat) (text : List α) : Prop :=
  if _h : behind ws nl text = [] then True
  else
    entries nl D text = [] ∨
      if (D (first ws nl text)).isSome then
        text.length - (behind ws nl text).length < N ∧ Fits N (behind ws nl text).tail
      else text.length - (next ws nl text).length < N ∧ Fits N (next ws nl text)
termination_by text.length
decreasing_by
  · have hlen := length_behind_le ws nl text
    have hpos := List.length_pos_iff.mpr _h
    rw [List.length_tail]
    omega
  · exact length_next_lt ws nl _h

end

/-! ## Lines -/

section
variable {ws : α → Bool} {nl : α} {D : List α → Option β}

theorem lines_line {l : List α} (hl : nl ∉ l) (r : List α) : ∀ acc, lines nl acc (l ++ nl :: r) =
    (acc ++ l) :: lines nl [] r := by
  induction l with
  | nil => intro acc; simp [lines]
  | cons c l ih =>
    intro acc
    rw [List.mem_cons, not_or] at hl
    rw [List.cons_append, lines, if_neg (Ne.symm hl.1), ih hl.2, List.append_assoc, List.singleton_append]

theorem lines_open {l : List α} (hl : nl ∉ l) : ∀ acc, lines nl acc l = [] := by
  induction l with
  | nil => intro acc; rfl
  | cons c l ih =>
    intro acc
    rw [List.mem_cons, not_or] at hl
    rw [lines, if_neg (Ne.symm hl.1), ih hl.2]

theorem mem_of_mem_lines : ∀ {text acc l : List α} {c : α}, l ∈ lines nl acc text → c ∈ l → c ∈ acc ∨ c ∈ text
  | [], _, _, _, h, _ => absurd h List.not_mem_nil
  | x :: text, acc, l, c, h, hc => by
    rw [lines] at h
    split at h
    · rcases List.mem_cons.mp h with rfl | h
      · exact Or.inl hc
      · exact Or.inr (List.mem_cons_of_mem x ((mem_of_mem_lines h hc).resolve_left List.not_mem_nil))
    · rcases mem_of_mem_lines h hc with h | h
      · rcases List.mem_append.mp h with h | h
        · exact Or.inl h
        · exact Or.inr (List.mem_singleton.mp h ▸ List.mem_cons_self)
      · exact Or.inr (List.mem_cons_of_mem x h)

theorem entries_line {l : List α} (hl : nl ∉ l) (r : List α) :
    entries nl D (l ++ nl :: r) = (D l).toList ++ entries nl D r := by
  rw [entries, lines_line hl, List.nil_append, List.filterMap_cons]
  cases D l <;> rfl

theorem entries_open {l : List α} (hl : nl ∉ l) : entries nl D l = [] := by
  rw [entries, lines_open hl]
  rfl

structure Blank (ws : α → Bool) (nl : α) (D : List α → Option β) : Prop where
  nl : ws nl = true
  nil : D [] = none
  cons : ∀ {c}, ws c = true → ∀ l, D (c :: l) = D l

theorem not_mem_first (text : List α) : nl ∉ first ws nl text := fun h => by
  simpa using List.mem_takeWhile_imp h

theorem Blank.entries_cons (h : Blank ws nl D) {c : α} (hc : ws c = true) (s : List α) :
    entries nl D (c :: s) = entries nl D s := by
  by_cases hcn : c = nl
  · subst hcn
    have := entries_line (D := D) (List.not_mem_nil (a := c)) s
    rwa [h.nil, List.nil_append] at this
  · by_cases hs : nl ∈ s
    · obtain ⟨l, r, rfl, hl⟩ := List.eq_append_cons_of_mem hs
      have hl' : nl ∉ c :: l := by simp [hl, Ne.symm hcn]
      rw [← List.cons_append, entries_line hl', entries_line hl, h.cons hc]
    · rw [entries_open hs, entries_open (by simp [hs, Ne.symm hcn])]

theorem Blank.entries_dropWhile (h : Blank ws nl D) : ∀ s : List α, entries nl D (s.dropWhile ws) = entries nl D s
  | [] => rfl
  | c :: s => by
    rw [List.dropWhile_cons]
    split
    · rename_i hc
      rw [h.entries_dropWhile s, h.entries_cons hc]
    · rfl

theorem behind_eq_cons {text : List α} (h : behind ws nl text ≠ []) :
    text.dropWhile ws = first ws nl text ++ nl :: (behind ws nl text).tail := by
  have hsplit := List.takeWhile_append_dropWhile (p := fun c => decide (c ≠ nl)) (l := text.dropWhile ws)
  cases hb : behind ws nl text with
  | nil => exact absurd hb h
  | cons c r =>
    have hc : c = nl := by
      have := List.head?_dropWhile_not (fun c => decide (c ≠ nl)) (text.dropWhile ws)
      rw [show List.dropWhile (fun c => decide (c ≠ nl)) (text.dropWhile ws) = c :: r from hb] at this
      simpa using this
    rw [← hsplit, show List.dropWhile (fun c => decide (c ≠ nl)) (text.dropWhile ws) = c :: r from hb, hc]
    rfl

theorem Blank.entries_of_behind (h : Blank ws nl D) {text : List α} (hb : behind ws nl text ≠ []) :
    entries nl D text = (D (first ws nl text)).toList ++ entries nl D (behind ws nl text).tail := by
  rw [← h.entries_dropWhile text, behind_eq_cons hb, entries_line (not_mem_first _)]

theorem Blank.entries_open_text (h : Blank ws nl D) {text : List α} (hb : behind ws nl text = []) :
    entries nl D text = [] := by
  rw [← h.entries_dropWhile text]
  refine entries_open fun hm => ?_
  have := List.dropWhile_eq_nil_iff.mp hb nl hm
  simp at this

theorem Blank.entries_next (h : Blank ws nl D) {text : List α} :
    entries nl D text = (parse ws nl D text).toList ++ entries nl D (next ws nl text) := by
  unfold parse
  split
  · rename_i hb
    rw [h.entries_open_text hb, next, hb]
    rfl
  · rename_i hb
    rw [h.entries_of_behind hb, next, h.entries_dropWhile]

/-! ## More text behind -/

omit [DecidableEq α] in
theorem dropWhile_append_of_ne_nil {p : α → Bool} {f : List α} (h : f.dropWhile p ≠ []) (t : List α) :
    (f ++ t).dropWhile p = f.dropWhile p ++ t := by
  rw [List.dropWhile_append, if_neg (by simpa using h)]

omit [DecidableEq α] in
theorem dropWhile_append_of_nil {p : α → Bool} {f : List α} (h : f.dropWhile p = []) (t : List α) :
    (f ++ t).dropWhile p = t.dropWhile p := by
  rw [List.dropWhile_append, if_pos (by simp [h])]

theorem behind_append {f : List α} (h : behind ws nl f ≠ []) (t : List α) : behind ws nl (f ++ t) =
    behind ws nl f ++ t := by
  have hd : f.dropWhile ws ≠ [] := fun h0 => h (by rw [behind, h0]; rfl)
  rw [behind, dropWhile_append_of_ne_nil hd, dropWhile_append_of_ne_nil h]
  rfl

theorem first_append {f : List α} (h : behind ws nl f ≠ []) (t : List α) : first ws nl (f ++ t) =
    first ws nl f := by
  have hd : f.dropWhile ws ≠ [] := fun h0 => h (by rw [behind, h0]; rfl)
  have hall : ∀ c ∈ first ws nl f, decide (c ≠ nl) = true := fun c hc => by
    rw [decide_eq_true_eq]
    rintro rfl
    exact not_mem_first f hc
  rw [first, dropWhile_append_of_ne_nil hd, behind_eq_cons h, List.append_assoc, List.cons_append,
    List.takeWhile_append_of_pos hall]
  simp

theorem length_behind_append {f : List α} (h : behind ws nl f = []) (t : List α) :
    (behind ws nl (f ++ t)).length ≤ t.length := by
  unfold behind
  by_cases hd : f.dropWhile ws = []
  · rw [dropWhile_append_of_nil hd]
    exact length_behind_le ws nl t
  · rw [dropWhile_append_of_ne_nil hd, dropWhile_append_of_nil h]
    exact (List.dropWhile_suffix _).length_le

theorem next_append {f : List α} (h : next ws nl f ≠ []) (t : List α) : next ws nl (f ++ t) =
    next ws nl f ++ t := by
  have hb : behind ws nl f ≠ [] := fun h0 => h (by rw [next, h0]; rfl)
  rw [next, behind_append hb, List.tail_append_of_ne_nil hb, dropWhile_append_of_ne_nil h]
  rfl

theorem next_append_of_blank {f : List α} (hb : behind ws nl f ≠ []) (h : next ws nl f = []) (t : List α) :
    next ws nl (f ++ t) = t.dropWhile ws := by
  rw [next, behind_append hb, List.tail_append_of_ne_nil hb, dropWhile_append_of_nil h]

/-- Whatever comes behind a fragment, no line begins before its end. -/
structure Open (ws : α → Bool) (nl : α) (D : List α → Option β) (f : List α) : Prop where
  next : next ws nl f = []
  parse : parse ws nl D f = none

theorem open_nil : Open ws nl D [] := ⟨rfl, rfl⟩

/-! ## The buffer -/

theorem Fits.eq {N : Nat} (text : List α) : Fits ws nl D N text ↔ behind ws nl text = [] ∨ entries nl D text = [] ∨
    if (D (first ws nl text)).isSome then
      text.length - (behind ws nl text).length < N ∧ Fits ws nl D N (behind ws nl text).tail
    else text.length - (Chunked.next ws nl text).length < N ∧ Fits ws nl D N (Chunked.next ws nl text) := by
  conv_lhs => unfold Fits
  split
  · rename_i h
    simp [h]
  · rename_i h
    simp [h]

theorem Fits.of_no_entries {N : Nat} {text : List α} (h : entries nl D text = []) : Fits ws nl D N text :=
  (Fits.eq text).mpr (Or.inr (Or.inl h))

theorem Blank.fits_dropSpace (h : Blank ws nl D) {N : Nat} {c : α} (hc : ws c = true) {t : List α}
    (hf : Fits ws nl D N (c :: t)) : Fits ws nl D N t := by
  have hdrop : (c :: t).dropWhile ws = t.dropWhile ws := by rw [List.dropWhile_cons, if_pos hc]
  have hb : behind ws nl (c :: t) = behind ws nl t := by rw [behind, hdrop]; rfl
  have hfst : first ws nl (c :: t) = first ws nl t := by rw [first, hdrop]; rfl
  have hn : Chunked.next ws nl (c :: t) = Chunked.next ws nl t := by rw [Chunked.next, hb]; rfl
  rw [Fits.eq, hb, hfst, hn, h.entries_cons hc, List.length_cons] at hf
  rw [Fits.eq]
  refine hf.imp id (Or.imp id fun hf => ?_)
  split
  · rename_i hs
    rw [if_pos hs] at hf
    exact ⟨by omega, hf.2⟩
  · rename_i hs
    rw [if_neg hs] at hf
    exact ⟨by omega, hf.2⟩

theorem Blank.fits_dropWhile (h : Blank ws nl D) {N : Nat} : ∀ {t : List α}, Fits ws nl D N t →
    Fits ws nl D N (t.dropWhile ws)
  | [], hf => hf
  | c :: t, hf => by
    rw [List.dropWhile_cons]
    split
    · rename_i hc
      exact h.fits_dropWhile (h.fits_dropSpace hc hf)
    · exact hf

theorem Blank.fits_behind_space (h : Blank ws nl D) {N : Nat} {t : List α} : ∀ {r : List α}, r.dropWhile ws = [] →
    Fits ws nl D N (r ++ t) → Fits ws nl D N t
  | [], _, hf => hf
  | c :: r, hr, hf => by
    rw [List.dropWhile_cons] at hr
    split at hr
    · rename_i hc
      exact h.fits_behind_space hr (h.fits_dropSpace hc hf)
    · cases hr

theorem Blank.fits_next (h : Blank ws nl D) {N : Nat} {text : List α} (hb : behind ws nl text ≠ [])
    (hf : Fits ws nl D N text) : Fits ws nl D N (Chunked.next ws nl text) := by
  rcases (Fits.eq text).mp hf with hf | hf | hf
  · exact absurd hf hb
  · rw [h.entries_of_behind hb, List.append_eq_nil_iff] at hf
    exact Fits.of_no_entries (by rw [Chunked.next, h.entries_dropWhile, hf.2])
  · split at hf
    · exact h.fits_dropWhile hf.2
    · exact hf.2

theorem Open.full (h : Blank ws nl D) {N : Nat} {f t : List α} (ho : Open ws nl D f) (hN : N ≤ f.length)
    (hf : Fits ws nl D N (f ++ t)) : entries nl D (f ++ t) = [] := by
  by_cases hb : behind ws nl (f ++ t) = []
  · exact h.entries_open_text hb
  rcases (Fits.eq (f ++ t)).mp hf with hf | hf | hf
  · exact absurd hf hb
  · exact hf
  exfalso
  rw [List.length_append] at hf
  by_cases hbf : behind ws nl f = []
  · have hlen := length_behind_append hbf t
    have hlt := length_next_lt ws nl hb
    have hnext : (Chunked.next ws nl (f ++ t)).length ≤ (behind ws nl (f ++ t)).length :=
      Nat.le_trans (List.dropWhile_suffix _).length_le (by rw [List.length_tail]; omega)
    split at hf
    · omega
    · omega
  · have hnone : D (first ws nl f) = none := by
      have := ho.parse
      rwa [Chunked.parse, if_neg hbf] at this
    rw [first_append hbf, hnone, next_append_of_blank hbf ho.next] at hf
    have := (List.dropWhile_suffix (l := t) ws).length_le
    simp only [Option.isSome_none, Bool.false_eq_true, if_false] at hf
    omega

/-- What reading the buffer `b` leaves. -/
structure Scanned (ws : α → Bool) (nl : α) (D : List α → Option β) (b f : List α) (es : List β) : Prop where
  open_ : Open ws nl D f
  suffix : f <:+ b
  entries : ∀ t, entries nl D (b ++ t) = es ++ entries nl D (f ++ t)
  fits : ∀ {N t}, Fits ws nl D N (b ++ t) → Fits ws nl D N (f ++ t)

theorem Blank.scanned (h : Blank ws nl D) : ∀ {n : Nat} {b : List α}, b.length ≤ n → 1 ≤ n →
    Scanned ws nl D b (scan ws nl D n b).1 (scan ws nl D n b).2
  | n + 1, b, hn, _ => by
    rw [scan]
    split
    · rename_i hnext
      have hb : behind ws nl b ≠ [] := fun h0 => hnext (by rw [next, h0]; rfl)
      have hlt := length_next_lt ws nl hb
      have hpos := List.length_pos_iff.mpr hnext
      have ih := h.scanned (n := n) (b := next ws nl b) (by omega) (by omega)
      refine ⟨ih.open_, ih.suffix.trans (next_suffix ws nl b), fun t => ?_, fun {N t} hf => ih.fits ?_⟩
      · have hbt : behind ws nl (b ++ t) ≠ [] := by rw [behind_append hb]; simp [hb]
        rw [h.entries_next, next_append hnext, ih.entries, List.append_assoc, parse, if_neg hbt,
          first_append hb, parse,
          if_neg hb]
      · rw [← next_append hnext]
        exact h.fits_next (by rw [behind_append hb]; simp [hb]) hf
    · rename_i hnext
      rw [ne_eq, not_not] at hnext
      cases hp : parse ws nl D b with
      | none => exact ⟨⟨hnext, hp⟩, List.suffix_refl _, fun t => rfl, fun hf => hf⟩
      | some e =>
        have hb : behind ws nl b ≠ [] := fun h0 => by rw [parse, if_pos h0] at hp; cases hp
        have hbt : ∀ t, behind ws nl (b ++ t) ≠ [] := fun t => by rw [behind_append hb]; simp [hb]
        refine ⟨open_nil, List.nil_suffix, fun t => ?_, fun {N t} hf => ?_⟩
        · rw [h.entries_next, next_append_of_blank hb hnext, h.entries_dropWhile, parse,
            if_neg (hbt t), first_append hb]
          rw [parse, if_neg hb] at hp
          rw [hp]
          rfl
        · have hD : D (first ws nl b) = some e := by rwa [parse, if_neg hb] at hp
          rcases (Fits.eq (b ++ t)).mp hf with hf | hf | hf
          · exact absurd hf (hbt t)
          · rw [h.entries_of_behind (hbt t), first_append hb, hD] at hf
            cases hf
          · rw [first_append hb, hD, behind_append hb, List.tail_append_of_ne_nil hb] at hf
            exact h.fits_behind_space hnext hf.2

/-! ## All chunks -/

theorem Open.entries_nil (h : Blank ws nl D) {f : List α} (ho : Open ws nl D f) : entries nl D f = [] := by
  rw [h.entries_next, ho.parse, ho.next]
  rfl

theorem rounds_step {N : Nat} {wishes : Nat → Nat} {n k : Nat} {f t : List α}
    (hc : t.take (min (N - f.length) (wishes k + 1)) ≠ []) :
    rounds ws nl D N wishes (n + 1) k f t =
      (scan ws nl D (f ++ t.take (min (N - f.length) (wishes k + 1))).length (f ++
        t.take (min (N - f.length) (wishes k + 1)))).2 ++
        rounds ws nl D N wishes n (k + 1)
          (scan ws nl D (f ++ t.take (min (N - f.length) (wishes k + 1))).length (f ++
            t.take (min (N - f.length) (wishes k + 1)))).1
          (t.drop (t.take (min (N - f.length) (wishes k + 1))).length) := by
  rw [rounds, if_neg hc]

omit [DecidableEq α] in
theorem chunk_append_drop {t c : List α} {m : Nat} (h : t.take m = c) : c ++ t.drop c.length = t := by
  have hc : t.take c.length = c := by rw [← h, List.length_take, List.take_eq_take_iff]; omega
  conv_rhs => rw [← List.take_append_drop c.length t, hc]

theorem Blank.rounds_front (h : Blank ws nl D) {N : Nat} (wishes : Nat → Nat) : ∀ {n k : Nat} {f t : List α},
    Open ws nl D f → ∃ es, entries nl D (f ++ t) = rounds ws nl D N wishes n k f t ++ es
  | 0, _, f, t, _ => ⟨_, (List.nil_append _).symm⟩
  | n + 1, k, f, t, ho => by
    by_cases hc : t.take (min (N - f.length) (wishes k + 1)) = []
    · rw [rounds, if_pos hc]
      exact ⟨_, (List.nil_append _).symm⟩
    · generalize hchunk : t.take (min (N - f.length) (wishes k + 1)) = c at hc
      have hpos := List.length_pos_iff.mpr hc
      have hs := h.scanned (n := (f ++ c).length) (b := f ++ c) (Nat.le_refl _) (by rw [List.length_append]; omega)
      obtain ⟨es, hes⟩ := h.rounds_front wishes (n := n) (k := k + 1) (t := t.drop c.length) hs.open_
      refine ⟨es, ?_⟩
      rw [rounds_step (by rw [hchunk]; exact hc), hchunk, List.append_assoc, ← hes, ← hs.entries, List.append_assoc,
        chunk_append_drop hchunk]

theorem Blank.rounds_fits (h : Blank ws nl D) {N : Nat} (wishes : Nat → Nat) : ∀ {n k : Nat}
    {f t : List α}, t.length < n →
    Open ws nl D f → Fits ws nl D N (f ++ t) → rounds ws nl D N wishes n k f t = entries nl D (f ++ t)
  | n + 1, k, f, t, hn, ho, hf => by
    by_cases hc : t.take (min (N - f.length) (wishes k + 1)) = []
    · rw [rounds, if_pos hc]
      rw [List.take_eq_nil_iff] at hc
      rcases hc with hc | rfl
      · exact (ho.full h (by omega) hf).symm
      · rw [List.append_nil, ho.entries_nil h]
    · generalize hchunk : t.take (min (N - f.length) (wishes k + 1)) = c at hc
      have hpos := List.length_pos_iff.mpr hc
      have hs := h.scanned (n := (f ++ c).length) (b := f ++ c) (Nat.le_refl _) (by rw [List.length_append]; omega)
      have hle : c.length ≤ t.length := by rw [← hchunk]; exact List.length_take_le' ..
      rw [rounds_step (by rw [hchunk]; exact hc), hchunk,
        h.rounds_fits wishes (by rw [List.length_drop]; omega) hs.open_]
      · rw [← hs.entries, List.append_assoc, chunk_append_drop hchunk]
      · apply hs.fits
        rw [List.append_assoc, chunk_append_drop hchunk]
        exact hf

theorem Open.fits_single (h : Blank ws nl D) {N : Nat} {f t : List α} {c : α} (ho : Open ws nl D f)
    (hN : f.length < N)
    (hf : Fits ws nl D N ((scan ws nl D (f.length + 1) (f ++ [c])).1 ++ t)) : Fits ws nl D N (f ++ c :: t) := by
  have happ : f ++ c :: t = (f ++ [c]) ++ t := by rw [List.append_assoc, List.singleton_append]
  have hone : ∀ {g : List α}, behind ws nl g = [] → (behind ws nl (g ++ [c])).tail = [] := fun hg => by
    rw [← List.length_eq_zero_iff, List.length_tail]
    have := length_behind_append hg [c]
    rw [List.length_singleton] at this
    omega
  rw [scan] at hf
  split at hf
  · rename_i hnext
    by_cases hb : behind ws nl f = []
    · exact absurd (by rw [Chunked.next, hone hb]; rfl) hnext
    · -- the fragment is a line that gives nothing, `c` starts the next one
      have hnone : D (first ws nl f) = none := by
        have := ho.parse
        rwa [Chunked.parse, if_neg hb] at this
      rw [next_append_of_blank hb ho.next] at hnext hf
      have hc : ws c = false := by
        by_contra hc
        rw [List.dropWhile_cons, if_pos (by simpa using hc)] at hnext
        exact hnext rfl
      have hdrop : ∀ s : List α, (c :: s).dropWhile ws = c :: s := fun s => by rw [List.dropWhile_cons, hc]; rfl
      have hbc : behind ws nl [c] = [] := by
        have hcn : c ≠ nl := fun h0 => by rw [h0, h.nl] at hc; cases hc
        rw [behind, hdrop]
        simp [hcn]
      have hscan : (scan ws nl D f.length [c]).1 = [c] := by
        cases hfl : f.length with
        | zero => rfl
        | succ n =>
          rw [scan, if_neg (by rw [Chunked.next, hbc]; simp), Chunked.parse, if_pos hbc]
          rfl
      rw [hdrop, hscan] at hf
      rw [Fits.eq, first_append hb, hnone, next_append_of_blank hb ho.next, hdrop]
      refine Or.inr (Or.inr ?_)
      rw [if_neg (by simp), List.length_append]
      exact ⟨by omega, hf⟩
  · rename_i hnext
    rw [ne_eq, not_not] at hnext
    cases hp : Chunked.parse ws nl D (f ++ [c]) with
    | none =>
      rw [hp] at hf
      rw [happ]
      exact hf
    | some e =>
      rw [hp] at hf
      have hb : behind ws nl f = [] := by
        by_contra hb
        have := ho.parse
        rw [Chunked.parse, if_neg hb] at this
        rw [Chunked.parse, if_neg (by rw [behind_append hb]; simp [hb]), first_append hb, this] at hp
        cases hp
      have hbc : behind ws nl (f ++ [c]) ≠ [] := fun h0 => by rw [Chunked.parse, if_pos h0] at hp; cases hp
      have hD : D (first ws nl (f ++ [c])) = some e := by rwa [Chunked.parse, if_neg hbc] at hp
      have hlen := length_behind_append hb [c]
      have hpos := List.length_pos_iff.mpr hbc
      rw [List.length_singleton] at hlen
      rw [happ, Fits.eq, first_append hbc, hD, behind_append hbc, List.tail_append_of_ne_nil hbc, hone hb]
      refine Or.inr (Or.inr ?_)
      simp only [Option.isSome_some, if_true, List.length_append, List.length_singleton]
      exact ⟨by omega, hf⟩

theorem Blank.fits_of_rounds (h : Blank ws nl D) {N : Nat} : ∀ {n k : Nat} {t f : List α},
    t.length < n → f.length ≤ N →
    Open ws nl D f → rounds ws nl D N (fun _ => 0) n k f t = entries nl D (f ++ t) → Fits ws nl D N (f ++ t)
  | n + 1, k, [], f, _, _, ho, _ => Fits.of_no_entries (by rw [List.append_nil, ho.entries_nil h])
  | n + 1, k, c :: t, f, hn, hN, ho, hr => by
    rcases Nat.lt_or_eq_of_le hN with hlt | heq
    · have hchunk : (c :: t).take (min (N - f.length) (0 + 1)) = [c] := by
        rw [Nat.min_eq_right (by omega)]
        rfl
      have hs := h.scanned (n := (f ++ [c]).length) (b := f ++ [c]) (Nat.le_refl _) (by simp)
      have hle := hs.suffix.length_le
      have hent := hs.entries t
      rw [List.append_assoc, List.singleton_append] at hent
      rw [rounds_step (by rw [hchunk]; simp), hchunk, hent] at hr
      have hrest := List.append_cancel_left hr
      rw [List.length_append, List.length_singleton] at hle hrest hs
      have hf := h.fits_of_rounds (Nat.lt_of_succ_lt_succ hn) (Nat.le_trans hle hlt) hs.open_ hrest
      exact ho.fits_single h hlt hf
    · rw [rounds, if_pos (by rw [heq, Nat.sub_self, Nat.zero_min]; rfl)] at hr
      exact Fits.of_no_entries hr.symm

theorem Blank.rounds_iff (h : Blank ws nl D) {N n : Nat} {text : List α} (hn : text.length < n) :
    (∀ wishes, rounds ws nl D N wishes n 0 [] text = entries nl D text) ↔ Fits ws nl D N text :=
  ⟨fun hall => h.fits_of_rounds hn (Nat.zero_le _) open_nil (hall _), fun hf wishes =>
    h.rounds_fits wishes hn open_nil hf⟩

end

end Chunked
