import S390Tools.Lib.Fields

/-!
# Streams that are read and written at a position

`File` is a stream of `stdio.h` on a regular file: `read` gets one item of `n`
bytes, `write` overwrites what stands at the position and extends the file at its
end. Numbers stand in the file with the highest byte first.
-/

namespace Stdio

abbrev Bytes := List UInt8

structure File where
  content : Bytes
  pos : Nat

def File.seek (p : Nat) (f : File) : File := { f with pos := p }

def File.seekBy (d : Int) (f : File) : File :=
  if f.pos + d < 0 then f else { f with pos := (f.pos + d).toNat }

def File.read (n : Nat) (f : File) : Option Bytes × File :=
  if n = 0 then (none, f)
  else if f.pos + n ≤ f.content.length then (some ((f.content.drop f.pos).take n), { f with pos := f.pos + n })
  else (none, { f with pos := max f.pos f.content.length })

def File.write (d : Bytes) (f : File) : File where
  content := f.content.take f.pos ++ List.replicate (f.pos - f.content.length) 0 ++ d ++
    f.content.drop (f.pos + d.length)
  pos := f.pos + d.length

/-- The system call: as many of `n` bytes as there are, none at the end of the file. -/
def File.readSome (n : Nat) (f : File) : Bytes × File :=
  ((f.content.drop f.pos).take n, { f with pos := f.pos + ((f.content.drop f.pos).take n).length })

def File.truncate (n : Nat) (f : File) : File :=
  { f with content := f.content.take n ++ List.replicate (n - f.content.length) 0 }

def between (pre post : Bytes) : File := ⟨pre ++ post, pre.length⟩

section
variable {p q : Bytes} {n : Nat}

@[simp] theorem between_content : (between p q).content = p ++ q := rfl

@[simp] theorem between_pos : (between p q).pos = p.length := rfl

theorem seek_between (p q : Bytes) (f : File) (h : f.content = p ++ q) : f.seek p.length = between p q := by
  rw [File.seek, h, between]

theorem seekBy_between (d : Bytes) : (between p (d ++ q)).seekBy d.length = between (p ++ d) q := by
  rw [File.seekBy, if_neg (by omega), between, between, List.append_assoc, List.length_append]
  rfl

theorem seekBy_back (d : Bytes) : (between (p ++ d) q).seekBy (-(d.length : Int)) = between p (d ++ q) := by
  rw [File.seekBy, between, between, if_neg (by simp)]
  simp

theorem read_between {d : Bytes} (hd : d ≠ []) :
    (between p (d ++ q)).read d.length = (some d, between (p ++ d) q) := by
  have hpos := List.length_pos_of_ne_nil hd
  rw [File.read, if_neg (by omega), if_pos (by simp [between])]
  simp [between]

theorem read_end {n : Nat} (h : q.length < n) : (between p q).read n = (none, between (p ++ q) []) := by
  rw [File.read, if_neg (by omega), if_neg (by simp [between]; omega)]
  simp [between]

theorem readSome_between (n : Nat) (p q : Bytes) :
    (between p q).readSome n = (q.take n, between (p ++ q.take n) (q.drop n)) := by
  simp [File.readSome, between]

theorem truncate_seek (hn : n ≤ p.length) : ((between p q).truncate n).seek n = between (p.take n) [] := by
  simp [File.truncate, File.seek, between, List.take_append_of_le_length hn, Nat.min_eq_left hn]
  omega

theorem write_between {d old : Bytes} (h : old.length = d.length) :
    (between p (old ++ q)).write d = between (p ++ d) q := by
  rw [File.write, between, between, ← h, ← List.length_append, ← List.append_assoc]
  simp [h]

theorem write_end {d : Bytes} (h : q.length ≤ d.length) : (between p q).write d = between (p ++ d) [] := by
  rw [File.write, between, between, List.drop_eq_nil_of_le (by simp; omega)]
  simp

end

/-! ## Numbers -/

def be (n v : Nat) : Bytes := (Fields.digits 256 n v).map UInt8.ofNat

def unbe (d : Bytes) : Nat := Fields.value 256 (d.map UInt8.toNat)

@[simp] theorem length_be (n v : Nat) : (be n v).length = n := by
  rw [be, List.length_map, Fields.digits_length]

theorem unbe_be (n v : Nat) : unbe (be n v) = v % 256 ^ n := by
  have hdigits : (be n v).map UInt8.toNat = Fields.digits 256 n v := by
    rw [be, List.map_map]
    refine (List.map_congr_left fun d hd => ?_).trans (List.map_id _)
    exact Nat.mod_eq_of_lt (Fields.digits_lt (by decide) n v d hd)
  have hvalue := Fields.value_digits (b := 256) (by decide) n v
  rw [unbe, hdigits]
  exact_mod_cast hvalue

end Stdio
