import Mathlib
import S390Tools.Zdev.Udev

/-!
# The udev entry parser with its pointers (zdev/src/udev.c)

A pointer is a position in the text of the entry, which ends with a null character. Reading
and copying outside of the text is an error. The parser gives what `Zdev.parse_udev_entry` gives.
-/

namespace Zdev.Pointers

def read (s : Text) (p : Int) : Except Fault Char :=
  if 0 ≤ p ∧ p ≤ s.length then .ok (s.getD p.toNat '\x00') else .error .bounds

/-- `memcpy` of what is between two pointers; a negative length is a huge one. -/
def copy (s : Text) (b e : Int) : Except Fault Text :=
  if 0 ≤ b ∧ b ≤ e ∧ e ≤ s.length then .ok ((s.drop b.toNat).take (e - b).toNat) else .error .bounds

def skip_while (q : Char → Bool) (s : Text) (p : Nat) : Nat := p + ((s.drop p).takeWhile q).length

def skip_whitespace (s : Text) (p : Nat) : Nat := skip_while isspace s p

def parse_key (s : Text) (p : Nat) : Except Fault (Option (Text × Nat)) := do
  let e := skip_while isword s p
  let e ←
    if (← read s e) = '{' then do
      let e := skip_while (· ≠ '}') s e
      if (← read s e) = '}' then pure (e + 1) else pure e
    else pure e
  if e = p then return none
  return some (← copy s p e, e)

def parse_op (s : Text) (p : Nat) : Option (Text × Nat) :=
  (ops.find? (·.isPrefixOf (s.drop p))).map fun op => (op, p + op.length)

def trim_end (s : Text) (b : Nat) : Nat → Nat
  | 0 => 0
  | e + 1 => if e > b ∧ isspace (s.getD e '\x00') then trim_end s b e else e + 1

def parse_value (s : Text) (p : Nat) : Except Fault (Text × Nat) := do
  let b := skip_whitespace s p
  let e := trim_end s b s.length
  let first ← read s b
  let quoted ← if first = '"' ∨ first = '\'' then do pure ((← read s (e - 1)) = first : Bool) else pure false
  let value ← if quoted then copy s (b + 1) (e - 1) else copy s b e
  return (value, e)

def parse_udev_entry (entry : Text) : Except Fault (Option UdevEntry) := do
  let p := skip_whitespace entry 0
  match ← parse_key entry p with
  | none => return none
  | some (key, p) =>
    let p := skip_whitespace entry p
    match parse_op entry p with
    | none => return none
    | some (op, p) => do
      let p := skip_whitespace entry p
      let (value, p) ← parse_value entry p
      let p := skip_whitespace entry p
      if (← read entry p) ≠ '\x00' then return none
      return some ⟨key, op, value⟩

def parse_entries : List Text → Except Fault (Option (List UdevEntry))
  | [] => .ok (some [])
  | curr :: next => do
    match ← parse_udev_entry curr with
    | none => return none
    | some e => return (← parse_entries next).map (e :: ·)

def parse_udev_line (line : Text) : Except Fault (Option UdevLine) := do
  let c ← read line (skip_whitespace line 0)
  if c = '\x00' ∨ c = '#' then return some ⟨line, []⟩
  let entries ← parse_entries ((replace_unquoted ',' '\x01' none line).splitOn '\x01')
  return entries.map fun es => ⟨line, es⟩

/-! ## Pointers and what follows them -/

theorem bind_ok {α β : Type} (a : α) (f : α → Except Fault β) : (Except.ok a >>= f) = f a := rfl

theorem read_eq {s : Text} {p : Nat} (hp : p ≤ s.length) : read s p = .ok ((s.drop p).headD '\x00') := by
  rw [read, if_pos ⟨by omega, by omega⟩, Int.toNat_natCast]
  congr 1
  rw [List.getD_eq_getElem?_getD, List.headD_eq_head?_getD, List.head?_drop]

theorem copy_eq {s : Text} {p k : Nat} (h : p + k ≤ s.length) : copy s p ((p + k : Nat) : Int) =
    .ok ((s.drop p).take k) := by
  rw [copy, if_pos ⟨by omega, by omega, by omega⟩, Int.toNat_natCast]
  congr 2
  omega

theorem drop_skip_while (q : Char → Bool) (s : Text) (p : Nat) : s.drop (skip_while q s p) =
    (s.drop p).dropWhile q := by
  have hsplit := List.takeWhile_append_dropWhile (p := q) (l := s.drop p)
  calc s.drop (skip_while q s p)
    _ = (s.drop p).drop ((s.drop p).takeWhile q).length := by rw [List.drop_drop, skip_while]
    _ = ((s.drop p).takeWhile q ++ (s.drop p).dropWhile q).drop ((s.drop p).takeWhile q).length := by rw [hsplit]
    _ = (s.drop p).dropWhile q := List.drop_left

theorem skip_while_le {q : Char → Bool} {s : Text} {p : Nat} (hp : p ≤ s.length) : skip_while q s p ≤ s.length := by
  have hlen := (List.takeWhile_sublist q (l := s.drop p)).length_le
  rw [List.length_drop] at hlen
  unfold skip_while
  omega

/-! ## The same as on lists -/

/-- A part of the text and the position behind it, against the part and what follows. -/
def Stands (s : Text) (x : Text × Nat) (y : Text × Text) : Prop := x.1 = y.1 ∧ x.2 ≤ s.length ∧ s.drop x.2 = y.2

theorem copy_prefix {s a b : Text} {p : Nat} (hp : p ≤ s.length) (h : s.drop p = a ++ b) :
    copy s p ((p + a.length : Nat) : Int) = .ok a ∧ p + a.length ≤ s.length ∧ s.drop (p + a.length) = b := by
  have hlen : s.length - p = a.length + b.length := by rw [← List.length_drop, h, List.length_append]
  refine ⟨?_, by omega, ?_⟩
  · rw [copy_eq (by omega), h, List.take_left]
  · rw [← List.drop_drop, h, List.drop_left]

theorem parse_key_rel {s : Text} {p : Nat} (hp : p ≤ s.length) :
    ∃ r, parse_key s p = .ok r ∧ Option.Rel (Stands s) r (Zdev.parse_key (s.drop p)) := by
  obtain ⟨w, hw⟩ : ∃ w, (s.drop p).takeWhile isword = w := ⟨_, rfl⟩
  obtain ⟨r, hr⟩ : ∃ r, (s.drop p).dropWhile isword = r := ⟨_, rfl⟩
  have hsplit : s.drop p = w ++ r := by rw [← hw, ← hr, List.takeWhile_append_dropWhile]
  have he : skip_while isword s p = p + w.length := by rw [skip_while, hw]
  obtain ⟨hcopy, hle, hdrop⟩ := copy_prefix hp hsplit
  have hread : read s (p + w.length : Nat) = .ok (r.headD '\x00') := by rw [read_eq hle, hdrop]
  unfold parse_key Zdev.parse_key key_end
  rw [he, hw, hr]
  dsimp only
  rw [hread, bind_ok]
  by_cases hbrace : r.head? = some '{'
  · obtain ⟨r', rfl⟩ : ∃ r', r = '{' :: r' := by
      cases r with
      | nil => cases hbrace
      | cons c r' => exact ⟨r', by rw [Option.some.inj hbrace]⟩
    rw [List.headD_cons, if_pos rfl, if_pos hbrace]
    obtain ⟨b, hb⟩ : ∃ b, ('{' :: r').takeWhile (· ≠ '}') = b := ⟨_, rfl⟩
    obtain ⟨t, ht⟩ : ∃ t, ('{' :: r').dropWhile (· ≠ '}') = t := ⟨_, rfl⟩
    have hbt : '{' :: r' = b ++ t := by rw [← hb, ← ht, List.takeWhile_append_dropWhile]
    have hwhole : s.drop p = (w ++ b) ++ t := by rw [hsplit, hbt, List.append_assoc]
    have he' : skip_while (· ≠ '}') s (p + w.length) = p + (w ++ b).length := by
      rw [skip_while, hdrop, hb, List.length_append, Nat.add_assoc]
    obtain ⟨hcopy', hle', hdrop'⟩ := copy_prefix hp hwhole
    have hread' : read s (p + (w ++ b).length : Nat) = .ok (t.headD '\x00') := by rw [read_eq hle', hdrop']
    have hne : p + (w ++ b).length ≠ p := by
      have hpos : 0 < b.length := by
        rw [← hb, List.takeWhile_cons_of_pos (by decide)]
        exact Nat.succ_pos _
      rw [List.length_append]
      omega
    rw [he', hread', bind_ok, hb, ht]
    cases t with
    | nil =>
      rw [List.append_nil] at hbt
      rw [List.headD_nil, if_neg (by decide), pure_bind, if_neg hne, hcopy', bind_ok]
      refine ⟨some (w ++ b, p + (w ++ b).length), rfl, ?_⟩
      rw [hbt, if_neg (by simp [← hbt])]
      exact .some ⟨rfl, hle', hdrop'⟩
    | cons c rest =>
      have hc : c = '}' := by
        have hhead := List.head?_dropWhile_not (p := fun x => decide (x ≠ '}')) (l := '{' :: r')
        rw [ht, List.head?_cons] at hhead
        simpa using hhead
      subst hc
      obtain ⟨hcopy'', hle'', hdrop''⟩ := copy_prefix (a := w ++ b ++ ['}']) (b := rest) hp (by simp [hwhole])
      rw [List.length_append, List.length_singleton, ← Nat.add_assoc] at hcopy'' hle'' hdrop''
      rw [List.headD_cons, if_pos rfl, pure_bind, if_neg (by omega), hcopy'', bind_ok]
      refine ⟨some (w ++ b ++ ['}'], p + (w ++ b).length + 1), rfl, ?_⟩
      rw [if_neg (by simp)]
      exact .some ⟨rfl, hle'', hdrop''⟩
  · have hne : r.headD '\x00' ≠ '{' := fun h => by
      cases r with
      | nil => exact absurd h (by decide)
      | cons c r' => exact hbrace (congrArg some h)
    rw [if_neg hne, pure_bind, if_neg hbrace]
    dsimp only
    by_cases hnil : w = []
    · rw [if_pos (by rw [hnil]; rfl), if_pos hnil]
      exact ⟨none, rfl, .none⟩
    · have hlen := List.length_pos_iff.mpr hnil
      rw [if_neg (by omega), if_neg hnil, hcopy, bind_ok]
      exact ⟨some (w, p + w.length), rfl, .some ⟨rfl, hle, hdrop⟩⟩

theorem parse_op_rel {s : Text} {p : Nat} (hp : p ≤ s.length) :
    Option.Rel (Stands s) (parse_op s p) (Zdev.parse_op (s.drop p)) := by
  unfold parse_op Zdev.parse_op
  cases hop : ops.find? (·.isPrefixOf (s.drop p)) with
  | none => exact .none
  | some op =>
    have hprefix : op.isPrefixOf (s.drop p) = true := by simpa using List.find?_some hop
    obtain ⟨rest, hrest⟩ := List.isPrefixOf_iff_prefix.mp hprefix
    obtain ⟨_, hle, hdrop⟩ := copy_prefix hp hrest.symm
    refine .some ⟨rfl, hle, ?_⟩
    dsimp only
    rw [hdrop, ← hrest, List.drop_left]

theorem strip_end_space {t : Text} {x : Char} (hx : isspace x = true) : strip_end (t ++ [x]) = strip_end t := by
  rw [strip_end, List.reverse_append, List.reverse_singleton, List.singleton_append, List.dropWhile_cons_of_pos hx]
  rfl

theorem strip_end_word {t : Text} {x : Char} (hx : isspace x = false) : strip_end (t ++ [x]) = t ++ [x] := by
  rw [strip_end, List.reverse_append, List.reverse_singleton, List.singleton_append,
    List.dropWhile_cons_of_neg (by simp [hx]), List.reverse_cons, List.reverse_reverse]

theorem strip_end_split (t : Text) : ∃ z, t = strip_end t ++ z ∧ z.dropWhile isspace = [] := by
  induction t using List.reverseRecOn with
  | nil => exact ⟨[], rfl, rfl⟩
  | append_singleton t x ih =>
    cases hx : isspace x with
    | false => exact ⟨[], by rw [strip_end_word hx, List.append_nil], rfl⟩
    | true =>
      obtain ⟨z, hz, hblank⟩ := ih
      refine ⟨z ++ [x], ?_, ?_⟩
      · rw [strip_end_space hx, ← List.append_assoc, ← hz]
      · rw [List.dropWhile_append, hblank]
        exact List.dropWhile_cons_of_pos hx

theorem trim_end_eq (s a : Text) (t z : Text) (hs : s = a ++ (t ++ z)) (hhead : ∀ c ∈ t.head?, isspace c = false) :
    trim_end s a.length (a.length + t.length) = a.length + (strip_end t).length := by
  induction t using List.reverseRecOn generalizing z with
  | nil =>
    rw [List.length_nil, Nat.add_zero]
    cases ha : a.length with
    | zero => rfl
    | succ n =>
      rw [trim_end, if_neg fun h => by omega]
      rfl
  | append_singleton t x ih =>
    have hget : s.getD (a.length + t.length) '\x00' = x := by
      rw [hs, List.getD_eq_getElem?_getD, List.getElem?_append_right (by omega)]
      simp
    rw [List.length_append, List.length_singleton, ← Nat.add_assoc, trim_end, hget]
    cases hx : isspace x with
    | false =>
      rw [if_neg fun h => absurd h.2 Bool.false_ne_true, strip_end_word hx, List.length_append]
      rfl
    | true =>
      have ht : t ≠ [] := fun hnil => by
        rw [hnil, List.nil_append, List.head?_cons] at hhead
        exact absurd (hhead x rfl) (by rw [hx]; exact Bool.noConfusion)
      have hpos := List.length_pos_iff.mpr ht
      rw [if_pos ⟨by omega, rfl⟩, strip_end_space hx]
      refine ih ([x] ++ z) (by rw [hs, List.append_assoc]) fun c hc => hhead c ?_
      rw [List.head?_append, hc]
      rfl

def value_end (s : Text) (p : Nat) : Nat := trim_end s (skip_whitespace s p) s.length

theorem value_place {s : Text} {p : Nat} (hp : p ≤ s.length) :
    ∃ z, s.drop (skip_whitespace s p) = strip_end (Zdev.skip_whitespace (s.drop p)) ++ z ∧
      z.dropWhile isspace = [] ∧
      value_end s p = skip_whitespace s p + (strip_end (Zdev.skip_whitespace (s.drop p))).length ∧
      skip_whitespace s p ≤ s.length ∧
      (strip_end (Zdev.skip_whitespace (s.drop p))).head? = (s.drop (skip_whitespace s p)).head? := by
  obtain ⟨t, ht⟩ : ∃ t, Zdev.skip_whitespace (s.drop p) = t := ⟨_, rfl⟩
  have hdrop : s.drop (skip_whitespace s p) = t := by rw [← ht, skip_whitespace, drop_skip_while]; rfl
  have hle : skip_whitespace s p ≤ s.length := skip_while_le hp
  have hhead : ∀ c ∈ t.head?, isspace c = false := fun c hc => by
    have hnot := List.head?_dropWhile_not (p := isspace) (l := s.drop p)
    have ht' : (s.drop p).dropWhile isspace = t := ht
    rw [ht', hc] at hnot
    simpa using hnot
  obtain ⟨z, hz, hblank⟩ := strip_end_split t
  have hlen : (s.take (skip_whitespace s p)).length = skip_whitespace s p := List.length_take_of_le hle
  have htrim := trim_end_eq s (s.take (skip_whitespace s p)) t []
    (by rw [List.append_nil, ← hdrop, List.take_append_drop]) hhead
  have hall : skip_whitespace s p + t.length = s.length := by
    rw [← hdrop, List.length_drop]
    omega
  rw [hlen, hall] at htrim
  rw [ht, hdrop]
  refine ⟨z, hz, hblank, htrim, hle, ?_⟩
  cases hs : strip_end t with
  | nil =>
    rw [hs, List.nil_append] at hz
    cases t with
    | nil => rfl
    | cons c t =>
      rw [← hz, List.dropWhile_cons_of_neg (by rw [hhead c rfl]; exact Bool.false_ne_true)] at hblank
      cases hblank
  | cons c v =>
    rw [hz, hs]
    rfl

/-- The text starts and ends with the same quote character. -/
def Quoted (v : Text) : Prop :=
  (v.head? = some '"' ∧ v.getLast? = some '"') ∨ (v.head? = some '\'' ∧ v.getLast? = some '\'')

instance (v : Text) : Decidable (Quoted v) := inferInstanceAs (Decidable (_ ∨ _))

theorem quoted_cons {c : Char} {v : Text} : Quoted (c :: v) ↔ (c = '"' ∨ c = '\'') ∧
    (c :: v).getLast? = some c := by
  unfold Quoted
  simp only [List.head?_cons, Option.some.injEq]
  constructor
  · intro h
    rcases h with ⟨rfl, h⟩ | ⟨rfl, h⟩
    · exact ⟨.inl rfl, h⟩
    · exact ⟨.inr rfl, h⟩
  · intro ⟨hc, h⟩
    rcases hc with rfl | rfl
    · exact .inl ⟨rfl, h⟩
    · exact .inr ⟨rfl, h⟩

theorem read_last {s : Text} {b : Nat} {c : Char} {v z : Text} (hb : b ≤ s.length) (hs : s.drop b = (c :: v) ++ z) :
    read s (((b + (c :: v).length : Nat) : Int) - 1) = .ok ((c :: v).getLast (List.cons_ne_nil c v)) := by
  obtain ⟨_, hle, _⟩ := copy_prefix hb hs
  have hlen : ((b + (c :: v).length : Nat) : Int) - 1 = ((b + v.length : Nat) : Int) := by
    rw [List.length_cons]
    omega
  rw [List.length_cons] at hle
  rw [hlen, read_eq (by omega), ← List.drop_drop, hs, List.headD_eq_head?_getD, List.head?_drop,
    List.getLast_eq_getElem,
    List.getElem?_append_left (by simp), List.getElem?_eq_getElem (by simp)]
  simp

theorem copy_inside {s : Text} {b : Nat} {c : Char} {v z : Text} (hb : b ≤ s.length)
    (hs : s.drop b = (c :: v) ++ z) :
    copy s (b + 1) (((b + (c :: v).length : Nat) : Int) - 1) =
      if (c :: v).length = 1 then .error .bounds else .ok v.dropLast := by
  obtain ⟨_, hle, _⟩ := copy_prefix hb hs
  rw [List.length_cons] at hle ⊢
  by_cases hone : v.length + 1 = 1
  · rw [copy, if_neg (by omega), if_pos hone]
  · have hdrop : s.drop (b + 1) = v.dropLast ++ (v.drop (v.length - 1) ++ z) := by
      rw [← List.drop_drop, hs, List.cons_append, List.drop_succ_cons, List.drop_zero, ← List.append_assoc,
        List.dropLast_eq_take, List.take_append_drop]
    obtain ⟨hcopy, -⟩ := copy_prefix (by omega) hdrop
    rw [List.length_dropLast] at hcopy
    rw [if_neg hone, ← hcopy]
    congr 1
    · omega

theorem parse_value_eq {s : Text} {p : Nat} (hp : p ≤ s.length) :
    parse_value s p = (Zdev.parse_value (s.drop p)).map fun v => (v, value_end s p) := by
  obtain ⟨z, hz, _, hend, hle, hhead⟩ := value_place hp
  have hread : read s (skip_whitespace s p : Nat) = .ok ((s.drop (skip_whitespace s p)).headD '\x00') := read_eq hle
  rw [List.headD_eq_head?_getD, ← hhead] at hread
  obtain ⟨hcopy, -⟩ := copy_prefix hle hz
  unfold parse_value Zdev.parse_value
  dsimp only
  rw [← value_end, hread, bind_ok, hend]
  cases hv : strip_end (Zdev.skip_whitespace (s.drop p)) with
  | nil =>
    rw [hv] at hcopy
    rw [List.head?_nil, Option.getD_none, if_neg (by decide), pure_bind, if_neg (by decide), hcopy, bind_ok]
    rfl
  | cons c v =>
    rw [hv] at hcopy hz
    rw [List.head?_cons, Option.getD_some]
    have hquoted := quoted_cons (c := c) (v := v)
    unfold Quoted at hquoted
    rw [List.head?_cons] at hquoted
    by_cases hc : c = '"' ∨ c = '\''
    · rw [if_pos hc, read_last hle hz, bind_ok, pure_bind]
      by_cases hlast : (c :: v).getLast (List.cons_ne_nil c v) = c
      · rw [if_pos (by simpa using hlast), copy_inside hle hz,
          if_pos (hquoted.mpr ⟨hc, by rw [List.getLast?_eq_some_getLast (List.cons_ne_nil c v), hlast]⟩)]
        by_cases hone : (c :: v).length = 1
        · rw [if_pos hone, if_pos hone]
          rfl
        · rw [if_neg hone, if_neg hone]
          rfl
      · have hnot : ¬((c :: v).getLast? = some c) := fun h => by
          rw [List.getLast?_eq_some_getLast (List.cons_ne_nil c v)] at h
          exact hlast (Option.some.inj h)
        rw [if_neg (by simpa using hlast), if_neg fun h => hnot (hquoted.mp h).2, hcopy, bind_ok]
        rfl
    · rw [if_neg hc, pure_bind, if_neg (by decide), if_neg fun h => hc (hquoted.mp h).1, hcopy, bind_ok]
      rfl

theorem drop_skip_whitespace (s : Text) (p : Nat) : s.drop (skip_whitespace s p) =
    Zdev.skip_whitespace (s.drop p) :=
  drop_skip_while isspace s p

theorem parse_udev_entry_eq (entry : Text) : parse_udev_entry entry = Zdev.parse_udev_entry entry := by
  unfold parse_udev_entry Zdev.parse_udev_entry
  have hp : skip_whitespace entry 0 ≤ entry.length := skip_while_le (Nat.zero_le _)
  have hdrop := drop_skip_whitespace entry 0
  rw [List.drop_zero] at hdrop
  obtain ⟨key, hkey, hrel⟩ := parse_key_rel hp
  dsimp only
  rw [hkey, bind_ok, ← hdrop]
  generalize Zdev.parse_key (entry.drop (skip_whitespace entry 0)) = key' at hrel ⊢
  cases hrel with
  | none => rfl
  | @some x y hstands =>
    obtain ⟨k, p⟩ := x
    obtain ⟨k', rest⟩ := y
    obtain ⟨rfl, hp, rfl⟩ := hstands
    have hp : p ≤ entry.length := hp
    dsimp only
    have hop := parse_op_rel (s := entry) (p := skip_whitespace entry p) (skip_while_le hp)
    rw [drop_skip_whitespace] at hop
    generalize parse_op entry (skip_whitespace entry p) = op at hop ⊢
    generalize Zdev.parse_op (Zdev.skip_whitespace (entry.drop p)) = op' at hop ⊢
    cases hop with
    | none => rfl
    | @some x y hstands =>
      obtain ⟨o, p⟩ := x
      obtain ⟨o', rest⟩ := y
      obtain ⟨rfl, hp, rfl⟩ := hstands
      have hp : p ≤ entry.length := hp
      have hp' : skip_whitespace entry p ≤ entry.length := skip_while_le hp
      dsimp only
      rw [parse_value_eq hp', drop_skip_whitespace]
      cases Zdev.parse_value (Zdev.skip_whitespace (entry.drop p)) with
      | error e => rfl
      | ok value =>
        obtain ⟨z, hz, hblank, hend, hle, _⟩ := value_place hp'
        obtain ⟨_, hle', hdrop'⟩ := copy_prefix hle hz
        have hrest : entry.drop (skip_whitespace entry (value_end entry (skip_whitespace entry p))) = [] := by
          rw [drop_skip_whitespace, hend, hdrop']
          exact hblank
        have hlast : skip_whitespace entry (value_end entry (skip_whitespace entry p)) ≤ entry.length :=
          skip_while_le (by rw [hend]; exact hle')
        rw [Except.map, bind_ok]
        dsimp only
        rw [read_eq hlast, hrest, bind_ok]
        rfl

theorem parse_entries_eq : ∀ parts : List Text, parse_entries parts = Zdev.parse_entries parts
  | [] => rfl
  | curr :: next => by
    rewrite [parse_entries, Zdev.parse_entries, parse_udev_entry_eq, parse_entries_eq next]
    rfl

theorem parse_udev_line_eq {line : Text} (hnull : (Zdev.skip_whitespace line).head? ≠ some '\x00') :
    parse_udev_line line = Zdev.parse_udev_line line := by
  have hdrop := drop_skip_whitespace line 0
  rw [List.drop_zero] at hdrop
  have hread : read line (skip_whitespace line 0 : Nat) = .ok ((line.drop (skip_whitespace line 0)).headD '\x00') :=
    read_eq (skip_while_le (Nat.zero_le _))
  unfold parse_udev_line Zdev.parse_udev_line
  rw [hread, bind_ok, hdrop, parse_entries_eq, List.headD_eq_head?_getD]
  cases hhead : (Zdev.skip_whitespace line).head? with
  | none => rfl
  | some c =>
    have hc : c ≠ '\x00' := fun h => hnull (h ▸ hhead)
    dsimp only
    rw [Option.getD_some]
    by_cases hcomment : c = '#'
    · rw [if_pos (.inr hcomment), if_pos hcomment]
      rfl
    · rw [if_neg fun h => h.elim hc hcomment, if_neg hcomment]

end Zdev.Pointers
