import S390Tools.Dump2tar.TarRead

/-!
# Archives

A sequence of calls is read as a sequence of entries, as long as the numbers fit
into their octal fields.
-/

namespace Dump2tar.Tar

open Fields

/-! ## The bytes of a call -/

theorem emit_chunks_eq : ∀ (cs : List (List UInt8)), emit_chunks cs cs.flatten.length = cs.flatten
  | [] => rfl
  | c :: cs => by
    have hlen : (c :: cs).flatten.length - min c.length (c :: cs).flatten.length = cs.flatten.length := by
      rw [List.flatten_cons, List.length_append]
      omega
    have hmin : min c.length (c :: cs).flatten.length = c.length := by
      rw [List.flatten_cons, List.length_append]
      omega
    rw [emit_chunks, hlen, hmin, List.take_of_length_le (Nat.le_refl _), List.flatten_cons]
    split
    · rename_i h0
      rw [List.eq_nil_of_length_eq_zero h0]
    · rw [emit_chunks_eq cs]

def Call.linkdata (c : Call) : List UInt8 := (c.link.map fun l => if l = [] then [0x20] else l).getD []

def long_record (names : Names) (type : UInt8) (s : List UInt8) : List UInt8 :=
  if s.length > 100 then
    emit_header names 0 LONGLINK none (s.length + 1) none type ++ emit_data (s ++ [0]) (s.length + 1)
  else []

def Call.header (names : Names) (c : Call) : List UInt8 :=
  emit_data (init_header names c.filename (c.link.map fun l => if l = [] then [0x20] else l)
    c.len (some c.stat) c.type) 500

theorem emit_eq (names : Names) {c : Call} (hc : c.Proper) :
    c.emit names = long_record names TYPE_LONGLINK c.linkdata ++ long_record names TYPE_LONGNAME c.filename ++
      c.header names ++ (c.content.bytes ++ emit_padding c.content.bytes.length) := by
  have hhead : emit_header names 1 c.filename c.link c.len (some c.stat) c.type =
      long_record names TYPE_LONGLINK c.linkdata ++ long_record names TYPE_LONGNAME c.filename ++
        c.header names := rfl
  have hlen := hc.len
  unfold Call.emit
  cases hcon : c.content with
  | none =>
    simp only [tar_emit_file_from_buffer, hhead, Content.bytes]
    rfl
  | buffer b =>
    rw [hcon] at hlen
    simp only [tar_emit_file_from_buffer, hhead, Content.bytes, emit_content] at hlen ⊢
    rw [hlen, emit_chunks_eq, b.total_eq]
  | data a =>
    rw [hcon] at hlen
    simp only [tar_emit_file_from_data, hhead, Content.bytes] at hlen ⊢
    rw [hlen, emit_data_eq]

theorem long_record_length (names : Names) (type : UInt8) (s : List UInt8) :
    (long_record names type s).length % 512 = 0 := by
  unfold long_record
  split
  · have hdata : emit_data (s ++ [0]) (s.length + 1) = (s ++ [0]) ++ emit_padding (s.length + 1) := by
      have := emit_data_eq (s ++ [0])
      rw [List.length_append] at this
      exact this
    rw [List.length_append, emit_header, header_block_length, hdata, List.length_append, List.length_append]
    have := padding_length (s.length + 1)
    unfold round_up at this
    change (512 + (s.length + 1 + _)) % 512 = 0
    omega
  · rfl

theorem Call.header_length (names : Names) (c : Call) : (c.header names).length = 512 := header_block_length ..

theorem emit_length (names : Names) {c : Call} (hc : c.Proper) : (c.emit names).length % 512 = 0 := by
  have h₁ := long_record_length names TYPE_LONGLINK c.linkdata
  have h₂ := long_record_length names TYPE_LONGNAME c.filename
  have h₃ := padding_length c.content.bytes.length
  unfold round_up at h₃
  rw [emit_eq names hc]
  simp only [List.length_append, c.header_length names]
  omega

/-! ## Reading a call -/

def Call.entry (names : Names) (c : Call) : Entry where
  name := c.filename
  link := c.linkdata
  type := c.type
  size := c.content.bytes.length
  mode := c.stat.st_mode.toNat % 0o10000
  uid := c.stat.st_uid.toNat
  gid := c.stat.st_gid.toNat
  mtime := c.stat.st_mtime.toInt
  uname := (names.uid_to_name c.stat.st_uid.toNat).take 32
  gname := (names.gid_to_name c.stat.st_gid.toNat).take 32
  content := c.content.bytes

/-- User and group number have seven octal digits, the size eleven. -/
def Call.Fits (c : Call) : Prop :=
  c.stat.st_uid.toNat < 8 ^ 7 ∧ c.stat.st_gid.toNat < 8 ^ 7 ∧ c.content.bytes.length < 8 ^ 11

/-- Names and links are shorter than what the size of their record can tell. -/
def Call.ShortNames (c : Call) : Prop := c.filename.length + 1 < 8 ^ 11 ∧ c.linkdata.length + 1 < 8 ^ 11

theorem Call.linkdata_str {c : Call} (hc : c.Proper) : 0 ∉ c.linkdata := by
  unfold Call.linkdata
  cases hl : c.link with
  | none => exact List.not_mem_nil
  | some l =>
    have := hc.link l hl
    show 0 ∉ if l = [] then [0x20] else l
    split
    · decide
    · exact this

def long (s : List UInt8) : Option (List UInt8) := if s.length > 100 then some s else none

theorem read_lead (names : Names) {c : Call} (hc : c.Proper) (hs : c.ShortNames) {fuel : Nat} {tail : List UInt8}
    (hfuel : (long_record names TYPE_LONGLINK c.linkdata ++ long_record names TYPE_LONGNAME c.filename ++
      (c.header names ++ tail)).length < 512 * fuel) :
    ∃ fuel', tail.length < 512 * fuel' ∧
      read_records fuel none none (long_record names TYPE_LONGLINK c.linkdata ++
        long_record names TYPE_LONGNAME c.filename ++
        (c.header names ++ tail)) =
      read_records (fuel' + 1) (long c.filename) (long c.linkdata) (c.header names ++ tail) := by
  have hstep : ∀ {s : List UInt8}, 0 ∉ s → s.length + 1 < 8 ^ 11 → ∀ (type : UInt8) (fuel : Nat)
    (n l : Option (List UInt8))
      (rest : List UInt8), type = TYPE_LONGNAME ∨ type = TYPE_LONGLINK →
      (long_record names type s ++ rest).length < 512 * fuel → ∃ fuel', rest.length < 512 * fuel' ∧
        read_records fuel n l (long_record names type s ++ rest) =
          read_records fuel' (if type = TYPE_LONGNAME then (long s).or n else n)
            (if type = TYPE_LONGNAME then l else (long s).or l) rest := by
    intro s hstr hfit type fuel n l rest htype hlt
    unfold long_record long at *
    by_cases hlong : s.length > 100
    · simp only [if_pos hlong] at hlt ⊢
      have hblock : 512 ≤ (emit_header names 0 LONGLINK none (s.length + 1) none type ++
          emit_data (s ++ [0]) (s.length + 1)).length := by
        rw [List.length_append, emit_header, header_block_length]
        omega
      rw [List.length_append] at hlt
      obtain ⟨k, rfl⟩ : ∃ k, fuel = k + 1 := ⟨fuel - 1, by omega⟩
      obtain ⟨hn, hl⟩ := read_long names hstr hfit k n l rest
      refine ⟨k, by omega, ?_⟩
      rcases htype with rfl | rfl
      · rw [hn]
        rfl
      · rw [hl]
        rfl
    · simp only [if_neg hlong, List.nil_append, Option.none_or, ite_self] at hlt ⊢
      exact ⟨fuel, hlt, rfl⟩
  rw [List.append_assoc] at hfuel ⊢
  obtain ⟨f₁, h₁, heq₁⟩ := hstep (Call.linkdata_str hc) hs.2 TYPE_LONGLINK fuel none none _ (Or.inr rfl) hfuel
  obtain ⟨f₂, h₂, heq₂⟩ := hstep hc.filename hs.1 TYPE_LONGNAME f₁ none (long c.linkdata) _ (Or.inl rfl) h₁
  rw [List.length_append, c.header_length names] at h₂
  refine ⟨f₂ - 1, by omega, ?_⟩
  rw [heq₁, show f₂ - 1 + 1 = f₂ by omega]
  have hno : (TYPE_LONGLINK = TYPE_LONGNAME) = False := by decide
  simp only [hno, if_false, if_true, Option.or_none] at heq₂ ⊢
  exact heq₂

def Call.read (names : Names) (c : Call) : Header :=
  read_header names c.filename (c.link.map fun l => if l = [] then [0x20] else l) c.len (some c.stat) c.type

theorem parse_call (names : Names) {c : Call} (hc : c.Proper) : parse_header (c.header names) =
    some (c.read names) := by
  refine parse_header_block _ _ _ _ _ _ hc.filename fun l hl => ?_
  have := Call.linkdata_str hc
  unfold Call.linkdata at this
  rw [show (c.link.map fun l => if l = [] then [0x20] else l) = some l from hl] at this
  exact this

theorem getD_long {s : List UInt8} : (long s).getD (s.take 100) = s := by
  unfold long
  split
  · rfl
  · exact List.take_of_length_le (by omega)

theorem linkname_eq (names : Names) (c : Call) : (c.read names).linkname = c.linkdata.take 100 := rfl

theorem read_header_fits (names : Names) {c : Call} (hc : c.Proper) (hfit : c.Fits) (fuel : Nat)
    (rest : List UInt8) :
    read_records (fuel + 1) (long c.filename) (long c.linkdata)
        (c.header names ++ (c.content.bytes ++ emit_padding c.content.bytes.length ++ rest)) =
      (read_records fuel none none rest).map (c.entry names :: ·) := by
  obtain ⟨hu, hg, hl⟩ := hfit
  have hsize : (c.read names).size = c.content.bytes.length := by
    show c.len % 8 ^ 11 = _
    rw [hc.len, Nat.mod_eq_of_lt hl]
  have hlen : (c.content.bytes ++ emit_padding c.content.bytes.length).length =
    round_up c.content.bytes.length := by
    rw [List.length_append, padding_length]
  have htype : (c.read names).type = c.type := rfl
  rw [read_block (c.header_length names) (parse_call names hc), hsize, htype,
    if_neg (by rw [List.length_append, hlen]; omega), if_neg hc.type.2, if_neg hc.type.1, List.drop_left' hlen,
    List.append_assoc, List.take_left, linkname_eq]
  have hname : (c.read names).name = c.filename.take 100 := rfl
  rw [hname, getD_long, getD_long]
  have huid : (c.read names).uid = c.stat.st_uid.toNat := Nat.mod_eq_of_lt hu
  have hgid : (c.read names).gid = c.stat.st_gid.toNat := Nat.mod_eq_of_lt hg
  rw [huid, hgid]
  cases read_records fuel none none rest with
  | none => rfl
  | some es => rfl

theorem read_header_any (names : Names) {c : Call} (hc : c.Proper) (fuel : Nat) (tail : List UInt8) {e : Entry}
    {es : List Entry} (h : read_records (fuel + 1) (long c.filename) (long c.linkdata)
      (c.header names ++ tail) = some (e :: es)) :
    e.uid = c.stat.st_uid.toNat % 8 ^ 7 ∧ e.gid = c.stat.st_gid.toNat % 8 ^ 7 ∧ e.size = c.len % 8 ^ 11 := by
  have htype : (c.read names).type = c.type := rfl
  rw [read_block (c.header_length names) (parse_call names hc), htype, if_neg hc.type.2, if_neg hc.type.1] at h
  split at h
  · cases h
  · split at h
    · cases h
    · cases h
      exact ⟨rfl, rfl, rfl⟩

theorem read_calls (names : Names) : ∀ {calls : List Call} {fuel : Nat}, (∀ c ∈ calls, c.Proper) →
    (∀ c ∈ calls, c.ShortNames) → (emit names calls).length < 512 * fuel →
    (read_records fuel none none (emit names calls) = some (calls.map (Call.entry names)) ↔ ∀ c ∈ calls, c.Fits)
  | [], fuel, _, _, hfuel => by
    obtain ⟨k, rfl⟩ : ∃ k, fuel = k + 1 := ⟨fuel - 1, by omega⟩
    exact iff_of_true rfl fun c hc => absurd hc List.not_mem_nil
  | c :: calls, fuel, hp, hs, hfuel => by
    have hc := hp c (List.mem_cons_self ..)
    have hemit : emit names (c :: calls) = long_record names TYPE_LONGLINK c.linkdata ++
        long_record names TYPE_LONGNAME c.filename ++ (c.header names ++
          (c.content.bytes ++ emit_padding c.content.bytes.length ++ emit names calls)) := by
      rw [emit, List.map_cons, List.flatten_cons, emit_eq names hc, ← emit]
      simp only [List.append_assoc]
    rw [hemit] at hfuel ⊢
    obtain ⟨k, hk, hread⟩ := read_lead names hc (hs c (List.mem_cons_self ..)) hfuel
    rw [hread, List.forall_mem_cons, List.map_cons]
    have hrest := @read_calls names calls k (fun b hb => hp b (List.mem_cons_of_mem _ hb))
      (fun b hb => hs b (List.mem_cons_of_mem _ hb)) (by rw [List.length_append] at hk; omega)
    by_cases hfit : c.Fits
    · rw [read_header_fits names hc hfit]
      constructor
      · intro h
        refine ⟨hfit, hrest.mp ?_⟩
        cases hr : read_records k none none (emit names calls) with
        | none =>
          rw [hr] at h
          cases h
        | some es =>
          rw [hr, Option.map_some, Option.some.injEq, List.cons.injEq] at h
          rw [h.2]
      · intro h
        rw [hrest.mpr h.2]
        rfl
    · refine iff_of_false (fun h => hfit ?_) fun h => hfit h.1
      obtain ⟨h₁, h₂, h₃⟩ := read_header_any names hc k _ h
      rw [hc.len] at h₃
      exact ⟨by rw [show c.stat.st_uid.toNat = _ from h₁]; exact Nat.mod_lt _ (by decide),
        by rw [show c.stat.st_gid.toNat = _ from h₂]; exact Nat.mod_lt _ (by decide),
        by rw [show c.content.bytes.length = _ from h₃]; exact Nat.mod_lt _ (by decide)⟩

theorem archive (names : Names) (calls : List Call) (hp : ∀ c ∈ calls, c.Proper) :
    (emit names calls).length % 512 = 0 ∧
    ((∀ c ∈ calls, c.ShortNames) →
      (read_archive (emit names calls) = some (calls.map (Call.entry names)) ↔ ∀ c ∈ calls, c.Fits)) := by
  refine ⟨?_, fun hs => read_calls names hp hs ?_⟩
  · induction calls with
    | nil => rfl
    | cons c calls ih =>
      have h₁ := emit_length names (hp c (List.mem_cons_self ..))
      have h₂ := ih fun b hb => hp b (List.mem_cons_of_mem _ hb)
      rw [emit, List.map_cons, List.flatten_cons, List.length_append, ← emit]
      omega
  · omega

/-! ## Two archives -/

def no_names : Names where
  uid_to_name _ := []
  gid_to_name _ := []
  uid_str _ := List.not_mem_nil
  gid_str _ := List.not_mem_nil

def small_call (uid : UInt32) : Call where
  filename := [0x61]
  link := none
  len := 1
  stat := { st_mode := 0o644, st_uid := uid, st_gid := 0, st_mtime := -1 }
  type := 0x30
  content := .data [7]

theorem small_call_proper (uid : UInt32) : (small_call uid).Proper :=
  ⟨(by decide : (0 : UInt8) ∉ ([0x61] : List UInt8)), fun l hl => (by cases hl), rfl,
    (by decide : (0x30 : UInt8) ≠ TYPE_LONGLINK), (by decide : (0x30 : UInt8) ≠ TYPE_LONGNAME)⟩

def long_call : Call where
  filename := List.replicate 149 0x62 ++ [0x2f]
  link := none
  len := 0
  stat := { st_mode := 0o755, st_uid := 0, st_gid := 2097151, st_mtime := 1700000000 }
  type := 0x35
  content := .none

theorem long_call_proper : long_call.Proper :=
  ⟨(by decide : (0 : UInt8) ∉ List.replicate 149 0x62 ++ [0x2f]), fun l hl => (by cases hl), rfl,
    (by decide : (0x35 : UInt8) ≠ TYPE_LONGLINK), (by decide : (0x35 : UInt8) ≠ TYPE_LONGNAME)⟩

theorem archive_long_name : read_archive (emit no_names [long_call, small_call 1000]) =
    some [long_call.entry no_names, (small_call 1000).entry no_names] := by
  refine ((archive no_names [long_call, small_call 1000] fun c hc => ?_).2 fun c hc => ?_).mpr fun c hc => ?_
  · rcases List.mem_pair.mp hc with rfl | rfl
    · exact long_call_proper
    · exact small_call_proper 1000
  · rcases List.mem_pair.mp hc with rfl | rfl
    · have hlen : long_call.filename.length = 150 := by simp [long_call]
      exact ⟨by rw [hlen]; decide, by decide⟩
    · exact ⟨by decide, by decide⟩
  · rcases List.mem_pair.mp hc with rfl | rfl
    · exact ⟨by decide, by decide, by decide⟩
    · exact ⟨by decide, by decide, by decide⟩

/-- A user number with eight octal digits is read as another one. -/
theorem archive_large_uid : (small_call 2097152).Proper ∧ ((small_call 2097152).entry no_names).uid = 2097152 ∧
    (read_archive (emit no_names [small_call 2097152])).map (List.map Entry.uid) = some [0] :=
  ⟨small_call_proper _, rfl, by decide +kernel⟩

end Dump2tar.Tar
