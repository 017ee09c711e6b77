import S390Tools.Lib.Stdio
import S390Tools.Lib.Word

/-!
# Messages of the IUCV terminal

A message is a header of version, type and length in front of the payload. Both
directions of a connection use one buffer; a message that does not come with one
read is received in parts, and the parts after the first one go behind the header
that the buffer has at that time.
-/

namespace Iucvterm

open Stdio Word

def MSG_VERSION : UInt8 := 0x02
def MSG_TYPE_ERROR : UInt8 := 0x01
def MSG_TYPE_TERMENV : UInt8 := 0x02
def MSG_TYPE_TERMIOS : UInt8 := 0x04
def MSG_TYPE_WINSIZE : UInt8 := 0x08
def MSG_TYPE_DATA : UInt8 := 0x10

abbrev MSG_DATA_OFFSET : Nat := 4
abbrev MSG_BUFFER_SIZE : Nat := MSG_DATA_OFFSET + 4096

/-! ## The buffer -/

def version (msg : Bytes) : UInt8 := msg.getD 0 0
def type (msg : Bytes) : UInt8 := msg.getD 1 0
def datalen (msg : Bytes) : Nat := unbe ((msg.drop 2).take 2)
def data (msg : Bytes) : Bytes := (msg.drop MSG_DATA_OFFSET).take (datalen msg)
def msg_size (msg : Bytes) : Nat := MSG_DATA_OFFSET + datalen msg

def set_version (msg : Bytes) : Bytes := msg.set 0 MSG_VERSION
def set_type (msg : Bytes) (type : UInt8) : Bytes := msg.set 1 type
def set_datalen (msg : Bytes) (n : Nat) : Bytes := msg.take 2 ++ be 2 n ++ msg.drop 4

/-- What `read` stores at an offset of the buffer, `none` beyond its end. -/
def store (msg : Bytes) (i : Nat) (bs : Bytes) : Option Bytes :=
  if i + bs.length ≤ msg.length then some (msg.take i ++ bs ++ msg.drop (i + bs.length)) else none

/-! ## Receiving -/

def requested (len residual : Nat) : Nat := if residual ≠ 0 then min (len - MSG_DATA_OFFSET) residual else len

def checked (msg : Bytes) (residual : Nat) : Int × Bytes × Nat :=
  (if version msg ≠ MSG_VERSION then -2 else 0, msg, residual)

/-- The return code, the buffer and the residual; `bs` is what `read` gives, interrupted calls left out. -/
def iucvtty_read_msg (msg : Bytes) (residual : Nat) (bs : Bytes) : Option (Int × Bytes × Nat) :=
  if bs = [] then some (-1, msg, residual)
  else if residual ≠ 0 then do
    let msg ← store msg MSG_DATA_OFFSET bs
    let msg := set_datalen msg bs.length
    some (checked msg (u64 ((residual : Int) - datalen msg)))
  else do
    let msg ← store msg 0 bs
    let r := u64 ((bs.length : Int) - MSG_DATA_OFFSET)
    if datalen msg > r then some (checked (set_datalen msg r) (u64 ((datalen msg : Int) - r)))
    else some (checked msg residual)

/-! ## Sending -/

def iucvtty_write_msg (msg : Bytes) : Bytes × Bytes :=
  let msg := set_version msg
  (msg, msg.take (msg_size msg))

def iucvtty_read_data (msg bs : Bytes) : Option (Int × Bytes) :=
  if bs = [] then some (-1, msg)
  else do
    let msg ← store msg MSG_DATA_OFFSET bs
    some (0, set_datalen (set_type (set_version msg) MSG_TYPE_DATA) bs.length)

/-- The buffer and the message to the other side; `bs` are the bytes from the terminal. -/
def iucvtty_tx_data (msg bs : Bytes) : Option (Int × Bytes × Bytes) := do
  let (rc, msg) ← iucvtty_read_data msg bs
  if rc ≠ 0 then some (-1, msg, [])
  else
    let (msg, out) := iucvtty_write_msg msg
    some (0, msg, out)

/-! ## Headers -/

def frame (type : UInt8) (d : Bytes) : Bytes := MSG_VERSION :: type :: (be 2 d.length ++ d)

/-- The buffer has a header of this version and the payload `d`. -/
structure Holds (msg : Bytes) (t : UInt8) (d : Bytes) : Prop where
  version_eq : version msg = MSG_VERSION
  type_eq : type msg = t
  data_eq : data msg = d
  length : msg.length = MSG_BUFFER_SIZE

theorem buffer_size : MSG_BUFFER_SIZE = 4100 := rfl

theorem data_offset : MSG_DATA_OFFSET = 4 := rfl

theorem exists_pair (n : Nat) : ∃ a b, be 2 n = [a, b] ∧ unbe [a, b] = n % 65536 := by
  have hlen := length_be 2 n
  have hval := unbe_be 2 n
  match h : be 2 n, hlen with
  | [a, b], _ =>
    rw [h] at hval
    exact ⟨a, b, rfl, hval⟩

theorem unbe_pair (a b : UInt8) : unbe [a, b] = 256 * a.toNat + b.toNat := by
  simp [unbe, Fields.value]

theorem unbe_pair_lt (a b : UInt8) : unbe [a, b] < 65536 := by
  have ha := a.toNat_lt
  have hb := b.toNat_lt
  rw [unbe_pair]
  omega

theorem be_unbe_pair (a b : UInt8) : be 2 (unbe [a, b]) = [a, b] := by
  have ha := a.toNat_lt
  have hb := b.toNat_lt
  have hhigh : (((256 * a.toNat + b.toNat : Nat) : Int) / 256 % 256).toNat = a.toNat := by omega
  have hlow : (((256 * a.toNat + b.toNat : Nat) : Int) % 256).toNat = b.toNat := by omega
  rw [unbe_pair, be]
  simp only [Fields.digits, List.nil_append, List.cons_append, List.map_cons, List.map_nil]
  rw [show ((256 : Nat) : Int) = 256 from rfl, hhigh, hlow, UInt8.ofNat_toNat, UInt8.ofNat_toNat]

theorem exists_header {msg : Bytes} (h : 4 ≤ msg.length) : ∃ v t a b rest, msg = v :: t :: a :: b :: rest := by
  match msg, h with
  | v :: t :: a :: b :: rest, _ => exact ⟨v, t, a, b, rest, rfl⟩

section
variable {t : UInt8} {n residual : Nat} {msg bs part : Bytes}

theorem length_frame (t : UInt8) (d : Bytes) : (frame t d).length = 4 + d.length := by
  simp only [frame, List.length_cons, List.length_append, length_be]
  omega

theorem store_behind {v a b : UInt8} {rest : Bytes} (h : bs.length ≤ rest.length) :
    store (v :: t :: a :: b :: rest) 4 bs = some (v :: t :: a :: b :: (bs ++ rest.drop bs.length)) := by
  have hle : 4 + bs.length ≤ (v :: t :: a :: b :: rest).length := by
    simp only [List.length_cons]
    omega
  rw [store, if_pos hle, Nat.add_comm 4]
  rfl

theorem set_datalen_behind {v a b : UInt8} {rest : Bytes} (hn : n < 65536) :
    ∃ c d, set_datalen (v :: t :: a :: b :: rest) n = v :: t :: c :: d :: rest ∧ unbe [c, d] = n := by
  obtain ⟨c, d, hbe, hval⟩ := exists_pair n
  refine ⟨c, d, ?_, by rw [hval, Nat.mod_eq_of_lt hn]⟩
  rw [set_datalen, hbe]
  rfl

theorem holds_of_header {a b : UInt8} {rest : Bytes} (hn : unbe [a, b] = part.length)
    (hlen : part.length + rest.length = 4096) : Holds (MSG_VERSION :: t :: a :: b :: (part ++ rest)) t part where
  version_eq := rfl
  type_eq := rfl
  data_eq := by
    show (part ++ rest).take (unbe [a, b]) = part
    rw [hn, List.take_left]
  length := by
    simp only [List.length_cons, List.length_append, buffer_size]
    omega

theorem read_msg_first (hmsg : msg.length = MSG_BUFFER_SIZE) {d : Bytes} (hd : d.length < 65536)
    {k : Nat} (hk : 4 ≤ k)
    (hkd : k ≤ 4 + d.length) (hkb : k ≤ MSG_BUFFER_SIZE) :
    ∃ msg', iucvtty_read_msg msg 0 ((frame t d).take k) = some (0, msg', 4 + d.length - k) ∧
      Holds msg' t (d.take (k - 4)) := by
  obtain ⟨a, b, hbe, hval⟩ := exists_pair d.length
  rw [Nat.mod_eq_of_lt hd] at hval
  obtain ⟨j, rfl⟩ := Nat.exists_eq_add_of_le' hk
  have hj : j ≤ d.length := by omega
  have hlen : (d.take j).length = j := List.length_take_of_le hj
  have htake : (frame t d).take (j + 4) = MSG_VERSION :: t :: a :: b :: d.take j := by
    simp only [frame, hbe, List.cons_append, List.nil_append, List.take_succ_cons]
  have hlen' : (MSG_VERSION :: t :: a :: b :: d.take j).length = j + 4 := by
    simp only [List.length_cons, hlen]
  have hstore : store msg 0 (MSG_VERSION :: t :: a :: b :: d.take j) =
      some (MSG_VERSION :: t :: a :: b :: (d.take j ++ msg.drop (j + 4))) := by
    rw [store, if_pos (by omega), Nat.zero_add, hlen']
    rfl
  have hbuf := buffer_size
  have hrest : (d.take j).length + (msg.drop (j + 4)).length = 4096 := by
    rw [hlen, List.length_drop, hmsg]
    omega
  have hr : u64 (((j + 4 : Nat) : Int) - MSG_DATA_OFFSET) = j := by
    rw [data_offset]
    unfold u64
    omega
  have hdat : datalen (MSG_VERSION :: t :: a :: b :: (d.take j ++ msg.drop (j + 4))) = d.length := hval
  rw [htake, iucvtty_read_msg, if_neg (List.cons_ne_nil _ _), if_neg (by simp), hstore]
  simp only [Option.bind_eq_bind, Option.bind_some, hlen', hr, hdat]
  by_cases hmore : d.length > j
  · obtain ⟨c, e, hset, hval'⟩ := @set_datalen_behind t j MSG_VERSION a b (d.take j ++ msg.drop (j + 4)) (by omega)
    have hres : u64 ((d.length : Int) - j) = 4 + d.length - (j + 4) := by
      apply u64_eq <;> omega
    rw [if_pos hmore, hset, hres]
    exact ⟨_, rfl, holds_of_header (hval'.trans hlen.symm) hrest⟩
  · have hres : 4 + d.length - (j + 4) = 0 := by omega
    rw [if_neg hmore, hres]
    exact ⟨_, rfl, holds_of_header (hval.trans (by omega)) hrest⟩

theorem read_msg_next (hmsg : msg.length = MSG_BUFFER_SIZE) (hv : version msg = MSG_VERSION) (hbs : bs ≠ [])
    (hle : bs.length ≤ requested MSG_BUFFER_SIZE residual) (hres : residual ≠ 0) (hlt : residual < 65536) :
    ∃ msg', iucvtty_read_msg msg residual bs = some (0, msg', residual - bs.length) ∧ Holds msg' (type msg) bs := by
  rw [requested, if_pos hres, buffer_size, data_offset] at hle
  have hbuf := buffer_size
  obtain ⟨v, t, a, b, rest, rfl⟩ := exists_header (show 4 ≤ msg.length by omega)
  have hrest : rest.length = 4096 := by simpa using hmsg
  have hv : v = MSG_VERSION := hv
  subst hv
  have hbl : bs.length ≤ rest.length := by omega
  obtain ⟨c, d, hset, hval⟩ :=
    @set_datalen_behind t bs.length MSG_VERSION a b (bs ++ rest.drop bs.length) (by omega)
  have hdat : datalen (MSG_VERSION :: t :: c :: d :: (bs ++ rest.drop bs.length)) = bs.length := hval
  have hsub : u64 ((residual : Int) - bs.length) = residual - bs.length := by
    apply u64_eq <;> omega
  rw [iucvtty_read_msg, if_neg hbs, if_pos hres, store_behind hbl]
  simp only [Option.bind_eq_bind, Option.bind_some, hset, hdat, hsub]
  refine ⟨_, rfl, holds_of_header hval ?_⟩
  rw [List.length_drop]
  omega

theorem tx_data_eq (hmsg : msg.length = MSG_BUFFER_SIZE) (hbs : bs ≠ []) (hle : bs.length ≤ 4096) :
    ∃ msg', iucvtty_tx_data msg bs = some (0, msg', frame MSG_TYPE_DATA bs) ∧ Holds msg' MSG_TYPE_DATA bs := by
  have hbuf := buffer_size
  obtain ⟨v, t, a, b, rest, rfl⟩ := exists_header (show 4 ≤ msg.length by omega)
  have hrest : rest.length = 4096 := by simpa using hmsg
  obtain ⟨c, d, hbe, hval⟩ := exists_pair bs.length
  rw [Nat.mod_eq_of_lt (by omega)] at hval
  have hset : set_datalen (MSG_VERSION :: MSG_TYPE_DATA :: a :: b :: (bs ++ rest.drop bs.length)) bs.length =
      MSG_VERSION :: MSG_TYPE_DATA :: c :: d :: (bs ++ rest.drop bs.length) := by
    rw [set_datalen, hbe]
    rfl
  have hread : iucvtty_read_data (v :: t :: a :: b :: rest) bs =
      some (0, MSG_VERSION :: MSG_TYPE_DATA :: c :: d :: (bs ++ rest.drop bs.length)) := by
    rw [iucvtty_read_data, if_neg hbs, store_behind (by omega)]
    exact congrArg (fun m => some ((0 : Int), m)) hset
  have hsize : msg_size (MSG_VERSION :: MSG_TYPE_DATA :: c :: d :: (bs ++ rest.drop bs.length)) =
    bs.length + 4 := by
    rw [Nat.add_comm]
    exact congrArg (4 + ·) hval
  have hwrite : iucvtty_write_msg (MSG_VERSION :: MSG_TYPE_DATA :: c :: d :: (bs ++ rest.drop bs.length)) =
      (MSG_VERSION :: MSG_TYPE_DATA :: c :: d :: (bs ++ rest.drop bs.length), frame MSG_TYPE_DATA bs) := by
    have hversion : set_version (MSG_VERSION :: MSG_TYPE_DATA :: c :: d :: (bs ++ rest.drop bs.length)) =
      MSG_VERSION :: MSG_TYPE_DATA :: c :: d :: (bs ++ rest.drop bs.length) := rfl
    simp only [iucvtty_write_msg, hversion, hsize, List.take_succ_cons, List.take_left, frame, hbe]
    rfl
  have hrest' : bs.length + (rest.drop bs.length).length = 4096 := by
    rw [List.length_drop]
    omega
  refine ⟨_, ?_, holds_of_header hval hrest'⟩
  simp only [iucvtty_tx_data, hread, Option.bind_eq_bind, Option.bind_some, hwrite, ne_eq,
    not_true_eq_false, if_false]

theorem write_msg_eq (hlen : MSG_DATA_OFFSET ≤ msg.length) (hsize : msg_size msg ≤ msg.length) :
    (iucvtty_write_msg msg).2 = frame (type msg) (data msg) ∧ (data msg).length < 65536 := by
  obtain ⟨v, t, a, b, rest, rfl⟩ := exists_header hlen
  have hbytes := be_unbe_pair a b
  have hlt := unbe_pair_lt a b
  have hle : unbe [a, b] ≤ rest.length := by
    have : MSG_DATA_OFFSET + unbe [a, b] ≤ (v :: t :: a :: b :: rest).length := hsize
    rw [data_offset] at this
    simp only [List.length_cons] at this
    omega
  have hdata : data (v :: t :: a :: b :: rest) = rest.take (unbe [a, b]) := rfl
  have htype : type (v :: t :: a :: b :: rest) = t := rfl
  have hversion : set_version (v :: t :: a :: b :: rest) = MSG_VERSION :: t :: a :: b :: rest := rfl
  have hmsg : msg_size (MSG_VERSION :: t :: a :: b :: rest) = unbe [a, b] + 4 := Nat.add_comm _ _
  rw [hdata, htype, frame, List.length_take_of_le hle, hbytes]
  refine ⟨?_, hlt⟩
  simp only [iucvtty_write_msg, hversion, hmsg, List.take_succ_cons]
  rfl

end

end Iucvterm
