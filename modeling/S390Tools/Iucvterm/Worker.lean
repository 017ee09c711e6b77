import S390Tools.Iucvterm.Message
import S390Tools.Lib.Run

/-!
# The worker of iucvtty

The worker receives messages from the client and sends the terminal's data. As long
as nothing is sent while a message of another type than data is received in parts,
every byte is handled once, in order and under its own type.
-/

namespace Iucvterm

open Stdio

/-! ## The connection -/

/-- The messages on the way to the worker; `started` if a part of the first one has been read. -/
structure Socket where
  started : Bool
  queue : List Bytes
  deriving DecidableEq

/-- `read` gives a part of the first message only. -/
def Socket.read (s : Socket) (n : Nat) : Bytes × Socket :=
  match s.queue with
  | [] => ([], s)
  | m :: ms => (m.take n, if n < m.length then ⟨true, m.drop n :: ms⟩ else ⟨false, ms⟩)

def skipBytes : Nat → Socket → Socket
  | 0, s => s
  | i + 1, s =>
    let r := s.read 1
    if r.1 = [] then r.2 else skipBytes i r.2

def iucvtty_skip_msg_residual (s : Socket) (residual : Nat) : Socket × Nat :=
  if residual ≤ 0 then (s, residual) else (skipBytes residual s, 0)

/-! ## The worker -/

inductive Effect
  | copied (d : Bytes)
  | resized (d : Bytes)
  | reported (code : Nat)
  | nothing
  deriving DecidableEq

def Effect.written : Effect → Bytes
  | .copied d => d
  | _ => []

def sizeofWinsize : Nat := 8

def handle (msg : Bytes) : Effect :=
  if type msg = MSG_TYPE_DATA then .copied (data msg)
  else if type msg = MSG_TYPE_WINSIZE then
    if datalen msg ≠ sizeofWinsize then .nothing else .resized (data msg)
  else if type msg = MSG_TYPE_TERMIOS then .nothing
  else if type msg = MSG_TYPE_ERROR then .reported (unbe ((msg.drop MSG_DATA_OFFSET).take 4))
  else .nothing

/-- The worker with its connection. `handled` has the buffers that came to the switch, `sent` the client's
messages and `typed` what was read from the terminal. -/
structure State where
  msg : Bytes
  chunk : Nat
  socket : Socket
  handled : List Bytes
  replies : List Bytes
  sent : List Bytes
  typed : Bytes

inductive Event
  | send (m : Bytes)
  | receive (k : Nat)
  | transmit (bs : Bytes)

/-- One turn of one side; `none` if the worker ends or stores beyond its buffer. -/
def step (s : State) : Event → Option State
  | .send m =>
    some { s with
      socket := { s.socket with queue := s.socket.queue ++ [(iucvtty_write_msg m).2] }
      sent := s.sent ++ [m] }
  | .receive k =>
    let r := s.socket.read (min k (requested MSG_BUFFER_SIZE s.chunk))
    match iucvtty_read_msg s.msg s.chunk r.1 with
    | some (0, msg, chunk) =>
      some { s with msg := msg, chunk := chunk, socket := r.2, handled := s.handled ++ [msg] }
    | _ => none
  | .transmit bs =>
    match iucvtty_tx_data s.msg bs with
    | some (0, msg, out) => some { s with msg := msg, replies := s.replies ++ [out], typed := s.typed ++ bs }
    | _ => none

def start (msg : Bytes) : State := ⟨msg, 0, ⟨false, []⟩, [], [], [], []⟩

/-- Messages are as long as their headers say, reads give a part that is not empty and begin with a whole header. -/
def Possible (s : State) : Event → Prop
  | .send m => MSG_DATA_OFFSET ≤ m.length ∧ msg_size m ≤ m.length
  | .receive k => s.socket.queue ≠ [] ∧ 0 < k ∧ (s.socket.started = false → MSG_DATA_OFFSET ≤ k)
  | .transmit bs => bs ≠ [] ∧ bs.length ≤ MSG_BUFFER_SIZE - MSG_DATA_OFFSET

/-- Nothing is sent while a message of another type is received in parts. -/
def Undisturbed (s : State) : Event → Prop
  | .transmit _ => s.chunk ≠ 0 → type s.msg = MSG_TYPE_DATA
  | _ => True

instance (s : State) : ∀ e, Decidable (Possible s e)
  | .send _ => inferInstanceAs (Decidable (_ ∧ _))
  | .receive _ => inferInstanceAs (Decidable (_ ∧ _))
  | .transmit _ => inferInstanceAs (Decidable (_ ∧ _))

instance (s : State) : ∀ e, Decidable (Undisturbed s e)
  | .send _ => isTrue trivial
  | .receive _ => isTrue trivial
  | .transmit _ => inferInstanceAs (Decidable (_ → _))

/-! ## What is handled -/

def tags (msgs : List Bytes) : List (UInt8 × UInt8) := msgs.flatMap fun m => (data m).map fun b => (type m, b)

def wire (m : Bytes) : Bytes := frame (type m) (data m)

/-- All of `done` has been handled and nothing of `rest`. -/
structure Between (s : State) (done rest : List Bytes) : Prop where
  sent : s.sent = done ++ rest
  started : s.socket.started = false
  queue : s.socket.queue = rest.map wire
  chunk : s.chunk = 0
  handled : tags s.handled = tags done

/-- The part `got` of the message `m` has been handled, `left` is outstanding. -/
structure Within (s : State) (done : List Bytes) (m : Bytes) (rest : List Bytes) (got left : Bytes) : Prop where
  sent : s.sent = done ++ m :: rest
  started : s.socket.started = true
  queue : s.socket.queue = left :: rest.map wire
  payload : data m = got ++ left
  outstanding : left ≠ []
  chunk : s.chunk = left.length
  handled : tags s.handled = tags done ++ got.map fun b => (type m, b)

def State.written (s : State) : Bytes := (s.handled.map handle).flatMap Effect.written

def terminalBytes (bs : List (UInt8 × UInt8)) : Bytes := (bs.filter fun x => x.1 = MSG_TYPE_DATA).map Prod.snd

/-- Every byte was handled once, in order and under its type, and those of data were written to the terminal; the
replies carry the terminal's bytes. -/
structure Intact (s : State) : Prop where
  received : (∃ done rest, Between s done rest ∧ s.written = terminalBytes (tags done)) ∨
    ∃ done m rest got left, Within s done m rest got left ∧
      s.written = terminalBytes (tags done ++ got.map fun b => (type m, b))
  replied : ∃ ds : List Bytes, s.replies = ds.map (frame MSG_TYPE_DATA) ∧ ds.flatten = s.typed
  skipped : iucvtty_skip_msg_residual s.socket s.chunk =
    (⟨false, if s.socket.started then s.socket.queue.tail else s.socket.queue⟩, 0)

structure Tracked (s : State) : Prop where
  length : s.msg.length = MSG_BUFFER_SIZE
  received : (∃ done rest, Between s done rest) ∨ ∃ done m rest got left, Within s done m rest got left ∧
    version s.msg = MSG_VERSION ∧ type s.msg = type m ∧ (data m).length < 65536
  sizes : ∀ m ∈ s.sent, (data m).length < 65536
  replied : ∃ ds : List Bytes, s.replies = ds.map (frame MSG_TYPE_DATA) ∧ ds.flatten = s.typed

section
variable {s : State} {done rest : List Bytes} {m got left : Bytes}

@[simp] theorem tags_append (xs ys : List Bytes) : tags (xs ++ ys) = tags xs ++ tags ys := List.flatMap_append

theorem tags_singleton (m : Bytes) : tags [m] = (data m).map fun b => (type m, b) := by
  simp [tags]

theorem written_handle (m : Bytes) :
    (handle m).written = terminalBytes ((data m).map fun b => (type m, b)) := by
  by_cases ht : type m = MSG_TYPE_DATA
  · simp [handle, ht, Effect.written, terminalBytes, List.filter_map, Function.comp_def]
  · have hnone : (handle m).written = [] := by
      simp only [handle, if_neg ht]
      split
      · split <;> rfl
      · split
        · rfl
        · split <;> rfl
    simp [hnone, ht, terminalBytes, List.filter_map, Function.comp_def]

theorem written_eq (msgs : List Bytes) :
    (msgs.map handle).flatMap Effect.written = terminalBytes (tags msgs) := by
  induction msgs with
  | nil => rfl
  | cons m msgs ih =>
    have hcons : tags (m :: msgs) = (data m).map (fun b => (type m, b)) ++ tags msgs := List.flatMap_cons
    rw [List.map_cons, List.flatMap_cons, ih, written_handle, hcons, terminalBytes, terminalBytes, terminalBytes,
      List.filter_append, List.map_append]

theorem skipBytes_eq : ∀ (left : Bytes) (b : Bool) (ms : List Bytes), left ≠ [] →
    skipBytes left.length ⟨b, left :: ms⟩ = ⟨false, ms⟩
  | [x], b, ms, _ => by simp [skipBytes, Socket.read]
  | x :: y :: left, b, ms, _ => by
    have ih := skipBytes_eq (y :: left) true ms (List.cons_ne_nil _ _)
    rw [List.length_cons, skipBytes]
    simpa [Socket.read] using ih

theorem Tracked.intact (h : Tracked s) : Intact s where
  received := by
    rcases h.received with ⟨done, rest, hb⟩ | ⟨done, m, rest, got, left, hw, -⟩
    · exact .inl ⟨done, rest, hb, hb.handled ▸ written_eq s.handled⟩
    · exact .inr ⟨done, m, rest, got, left, hw, hw.handled ▸ written_eq s.handled⟩
  replied := h.replied
  skipped := by
    rcases h.received with ⟨done, rest, hb⟩ | ⟨done, m, rest, got, left, hw, -⟩
    · have hsocket : s.socket = ⟨false, rest.map wire⟩ := by
        rw [← hb.started, ← hb.queue]
      rw [hb.chunk, hsocket]
      rfl
    · have hsocket : s.socket = ⟨true, left :: rest.map wire⟩ := by
        rw [← hw.started, ← hw.queue]
      have hpos := List.length_pos_iff.mpr hw.outstanding
      rw [hw.chunk, hsocket, iucvtty_skip_msg_residual, if_neg (Nat.not_le_of_lt hpos),
        skipBytes_eq _ _ _ hw.outstanding]
      rfl

theorem start_tracked {msg : Bytes} (h : msg.length = MSG_BUFFER_SIZE) : Tracked (start msg) where
  length := h
  received := .inl ⟨[], [], rfl, rfl, rfl, rfl, rfl⟩
  sizes := by simp [start]
  replied := ⟨[], rfl, rfl⟩

/-! ## Steps -/

theorem tracked_send (h : Tracked s) {x : Bytes} (hpos : Possible s (.send x)) :
    ∃ s', step s (.send x) = some s' ∧ Tracked s' := by
  obtain ⟨hwire, hlt⟩ := write_msg_eq hpos.1 hpos.2
  refine ⟨_, rfl, ⟨h.length, ?_, ?_, h.replied⟩⟩
  · rcases h.received with ⟨done, rest, hb⟩ | ⟨done, m, rest, got, left, hw, hhead⟩
    · refine .inl ⟨done, rest ++ [x], ?_, hb.started, ?_, hb.chunk, hb.handled⟩
      · simp only [hb.sent, List.append_assoc]
      · simp only [hb.queue, hwire, List.map_append, List.map_cons, List.map_nil, wire]
    · refine .inr ⟨done, m, rest ++ [x], got, left, ⟨?_, hw.started, ?_, hw.payload, hw.outstanding,
        hw.chunk, hw.handled⟩, hhead⟩
      · simp only [hw.sent, List.append_assoc, List.cons_append]
      · simp only [hw.queue, hwire, List.map_append, List.map_cons, List.map_nil, wire, List.cons_append]
  · intro m hm
    rcases List.mem_append.mp hm with hm | hm
    · exact h.sizes m hm
    · rw [List.mem_singleton.mp hm]
      exact hlt

theorem tracked_transmit (h : Tracked s) {bs : Bytes} (hpos : Possible s (.transmit bs))
    (hun : Undisturbed s (.transmit bs)) :
    ∃ s', step s (.transmit bs) = some s' ∧ Tracked s' := by
  obtain ⟨msg', htx, hmsg⟩ := tx_data_eq h.length hpos.1 hpos.2
  have hreplied : ∃ ds : List Bytes, s.replies ++ [frame MSG_TYPE_DATA bs] = ds.map (frame MSG_TYPE_DATA) ∧
      ds.flatten = s.typed ++ bs := by
    obtain ⟨ds, hr, ht⟩ := h.replied
    exact ⟨ds ++ [bs], by simp [hr], by simp [ht]⟩
  refine ⟨{ s with msg := msg', replies := s.replies ++ [frame MSG_TYPE_DATA bs], typed := s.typed ++ bs }, ?_,
    ⟨hmsg.length, ?_, h.sizes, hreplied⟩⟩
  · simp only [step, htx]
  · rcases h.received with ⟨done, rest, hb⟩ | ⟨done, m, rest, got, left, hw, hv, ht, hlt⟩
    · exact .inl ⟨done, rest, hb.sent, hb.started, hb.queue, hb.chunk, hb.handled⟩
    · -- the new header has the same type as the message that is received in parts
      have hne : s.chunk ≠ 0 := by
        rw [hw.chunk]
        exact Nat.ne_of_gt (List.length_pos_iff.mpr hw.outstanding)
      refine .inr ⟨done, m, rest, got, left, ⟨hw.sent, hw.started, hw.queue, hw.payload,
        hw.outstanding, hw.chunk, hw.handled⟩,
        hmsg.version_eq, ?_, hlt⟩
      rw [hmsg.type_eq, ← hun hne, ht]

theorem tags_handled (hs : List Bytes) {t : UInt8} {d msg' : Bytes} (h : Holds msg' t d) :
    tags (hs ++ [msg']) = tags hs ++ d.map fun b => (t, b) := by
  rw [tags_append, tags_singleton, h.data_eq, h.type_eq]

theorem tracked_first (h : Tracked s) (hb : Between s done (m :: rest)) {k : Nat} (hk : MSG_DATA_OFFSET ≤ k) :
    ∃ s', step s (.receive k) = some s' ∧ Tracked s' := by
  have hbuf := buffer_size
  have hoff := data_offset
  have hlen := length_frame (type m) (data m)
  have hlt : (data m).length < 65536 := h.sizes m (by simp [hb.sent])
  have hreq : requested MSG_BUFFER_SIZE s.chunk = MSG_BUFFER_SIZE := by simp [requested, hb.chunk]
  obtain ⟨n, hn⟩ : ∃ n, n = min k MSG_BUFFER_SIZE := ⟨_, rfl⟩
  have hread : s.socket.read n = ((frame (type m) (data m)).take (min n (4 + (data m).length)),
      if n < 4 + (data m).length then ⟨true, (data m).drop (n - 4) :: rest.map wire⟩ else ⟨false,
        rest.map wire⟩) := by
    obtain ⟨j, hj⟩ : ∃ j, n = j + 4 := ⟨n - 4, by omega⟩
    have hdrop : (frame (type m) (data m)).drop n = (data m).drop (n - 4) := by
      rw [hj, Nat.add_sub_cancel, frame]
      simp [Nat.add_comm j, ← List.drop_drop]
    have htake : (frame (type m) (data m)).take n =
      (frame (type m) (data m)).take (min n (4 + (data m).length)) := by
      rw [← hlen, ← List.take_take, List.take_length]
    simp only [Socket.read, hb.queue, List.map_cons, wire, hlen, hdrop, htake]
  obtain ⟨msg', hmsg, hold⟩ := @read_msg_first (type m) s.msg h.length (data m) hlt (min n (4 + (data m).length))
    (by omega) (by omega) (by omega)
  have hhandled := tags_handled s.handled hold
  have hstep : step s (.receive k) = some { s with
      msg := msg', chunk := 4 + (data m).length - min n (4 + (data m).length),
      socket := if n < 4 + (data m).length then ⟨true, (data m).drop (n - 4) :: rest.map wire⟩
        else ⟨false, rest.map wire⟩,
      handled := s.handled ++ [msg'] } := by
    simp only [step, hreq, ← hn, hread]
    rw [hb.chunk, hmsg]
    rfl
  refine ⟨_, hstep, hold.length, ?_, h.sizes, h.replied⟩
  by_cases hmore : n < 4 + (data m).length
  · have hmin : min n (4 + (data m).length) = n := Nat.min_eq_left (Nat.le_of_lt hmore)
    rw [hmin] at hhandled
    refine .inr ⟨done, m, rest, (data m).take (n - 4), (data m).drop (n - 4), ⟨hb.sent, ?_, ?_, ?_, ?_, ?_, ?_⟩,
      hold.version_eq, hold.type_eq, hlt⟩
    · simp only [if_pos hmore]
    · simp only [if_pos hmore]
    · exact (List.take_append_drop _ _).symm
    · exact List.ne_nil_of_length_pos (by rw [List.length_drop]; omega)
    · simp only [hmin, List.length_drop]
      omega
    · rw [hhandled, hb.handled]
  · have hmin : min n (4 + (data m).length) = 4 + (data m).length := Nat.min_eq_right (Nat.le_of_not_lt hmore)
    rw [hmin, Nat.add_sub_cancel_left, List.take_length] at hhandled
    refine .inl ⟨done ++ [m], rest, ?_, ?_, ?_, ?_, ?_⟩
    · simp only [hb.sent, List.append_assoc, List.singleton_append]
    · simp only [if_neg hmore]
    · simp only [if_neg hmore]
    · simp only [hmin, Nat.sub_self]
    · rw [hhandled, hb.handled, tags_append, tags_singleton]

theorem tracked_next (h : Tracked s) (hw : Within s done m rest got left) (hv : version s.msg = MSG_VERSION)
    (ht : type s.msg = type m) (hlt : (data m).length < 65536) {k : Nat} (hk : 0 < k) :
    ∃ s', step s (.receive k) = some s' ∧ Tracked s' := by
  have hbuf := buffer_size
  have hoff := data_offset
  have hpos := List.length_pos_iff.mpr hw.outstanding
  have hne : s.chunk ≠ 0 := by
    rw [hw.chunk]
    exact Nat.ne_of_gt hpos
  have hsum : (data m).length = got.length + left.length := by rw [hw.payload, List.length_append]
  obtain ⟨n, hn⟩ : ∃ n, n = min k (requested MSG_BUFFER_SIZE s.chunk) := ⟨_, rfl⟩
  have hreq : requested MSG_BUFFER_SIZE s.chunk = min 4096 left.length := by
    rw [requested, if_pos hne, hw.chunk, hbuf, hoff]
  have hread : s.socket.read n = (left.take n,
      if n < left.length then ⟨true, left.drop n :: rest.map wire⟩ else ⟨false, rest.map wire⟩) := by
    simp only [Socket.read, hw.queue]
  have hlen : (left.take n).length = n := by
    rw [List.length_take]
    omega
  obtain ⟨msg', hmsg, hold⟩ := @read_msg_next s.chunk s.msg (left.take n) h.length hv
    (List.ne_nil_of_length_pos (by omega)) (by omega) hne (by rw [hw.chunk]; omega)
  rw [hlen, hw.chunk] at hmsg
  rw [ht] at hold
  have hhandled := tags_handled s.handled hold
  have hstep : step s (.receive k) = some { s with
      msg := msg', chunk := left.length - n,
      socket := if n < left.length then ⟨true, left.drop n :: rest.map wire⟩ else ⟨false, rest.map wire⟩,
      handled := s.handled ++ [msg'] } := by
    simp only [step, ← hn, hread]
    rw [hw.chunk, hmsg]
    rfl
  refine ⟨_, hstep, hold.length, ?_, h.sizes, h.replied⟩
  by_cases hmore : n < left.length
  · refine .inr ⟨done, m, rest, got ++ left.take n, left.drop n, ⟨hw.sent, ?_, ?_, ?_, ?_, ?_, ?_⟩,
      hold.version_eq, hold.type_eq, hlt⟩
    · simp only [if_pos hmore]
    · simp only [if_pos hmore]
    · rw [List.append_assoc, List.take_append_drop, hw.payload]
    · exact List.ne_nil_of_length_pos (by rw [List.length_drop]; omega)
    · exact (List.length_drop ..).symm
    · rw [hhandled, hw.handled, List.map_append, List.append_assoc]
  · have hall : left.take n = left := List.take_of_length_le (Nat.le_of_not_lt hmore)
    refine .inl ⟨done ++ [m], rest, ?_, ?_, ?_, ?_, ?_⟩
    · simp only [hw.sent, List.append_assoc, List.singleton_append]
    · simp only [if_neg hmore]
    · simp only [if_neg hmore]
    · exact Nat.sub_eq_zero_of_le (Nat.le_of_not_lt hmore)
    · rw [hhandled, hall, hw.handled, tags_append, tags_singleton, hw.payload, List.map_append, List.append_assoc]

theorem tracked_step (h : Tracked s) (e : Event) (hpos : Possible s e) (hun : Undisturbed s e) :
    ∃ s', step s e = some s' ∧ Tracked s' := by
  cases e with
  | send x => exact tracked_send h hpos
  | transmit bs => exact tracked_transmit h hpos hun
  | receive k =>
    rcases h.received with ⟨done, rest, hb⟩ | ⟨done, m, rest, got, left, hw, hv, ht, hlt⟩
    · cases rest with
      | nil => exact absurd hb.queue hpos.1
      | cons m rest => exact tracked_first h hb (hpos.2.2 hb.started)
    · exact tracked_next h hw hv ht hlt hpos.2.1

end

/-! ## Runs -/

theorem messages_intact {msg : Bytes} (hmsg : msg.length = MSG_BUFFER_SIZE) (es : List Event)
    (hrun : Run.Admissible step (fun s e => Possible s e ∧ Undisturbed s e) (start msg) es) :
    ∃ s, Run.exec step (start msg) es = some s ∧ Intact s := by
  obtain ⟨s, hs, ht⟩ := Run.exec_inv Tracked (fun s e h hok => tracked_step h e hok.1 hok.2) es (start msg)
    (start_tracked hmsg) hrun
  exact ⟨s, hs, ht.intact⟩

def resizeMsg : Bytes := [0x02, 0x08, 0, 8, 0, 24, 0, 80, 0, 0, 0, 0]

def longMsg : Bytes := [0x02, MSG_TYPE_DATA, 16, 4] ++ List.replicate 4100 0x61

/-- The data comes in two parts with a reply between them, the window size as a whole. -/
theorem messages_intact_long : ∃ s, Run.exec step (start (List.replicate MSG_BUFFER_SIZE 0))
    [.send longMsg, .send resizeMsg, .receive 5000, .transmit [0x62], .receive 5000, .receive 12] =
      some s ∧ Intact s :=
  messages_intact List.length_replicate _ (by decide +kernel)

/-- The second part comes behind a header of terminal data and is handled as such. -/
theorem parts_under_wrong_type : ¬∀ (msg : Bytes) (es : List Event), msg.length = MSG_BUFFER_SIZE →
    Run.Admissible step Possible (start msg) es → ∃ s, Run.exec step (start msg) es = some s ∧ Intact s := by
  intro h
  obtain ⟨s, hs, hi⟩ := h (List.replicate MSG_BUFFER_SIZE 0) [.send resizeMsg, .receive 4,
    .transmit [0x61], .receive 8]
    List.length_replicate (by decide +kernel)
  have hrun : (Run.exec step (start (List.replicate MSG_BUFFER_SIZE 0))
      [.send resizeMsg, .receive 4, .transmit [0x61], .receive 8]).map (fun s =>
        (s.sent, s.socket, tags s.handled)) =
      some ([resizeMsg], ⟨false, []⟩, [0, 24, 0, 80, 0, 0, 0, 0].map fun b => (MSG_TYPE_DATA, b)) := by
    decide +kernel
  rw [hs] at hrun
  obtain ⟨hsent, hsocket, htags⟩ : s.sent = [resizeMsg] ∧ s.socket = ⟨false, []⟩ ∧
      tags s.handled = [0, 24, 0, 80, 0, 0, 0, 0].map fun b => (MSG_TYPE_DATA, b) := by
    simpa using hrun
  rcases hi.received with ⟨done, rest, hb, -⟩ | ⟨done, m, rest, got, left, hw, -⟩
  · have hrest : rest = [] := by
      have hq := hb.queue
      rw [hsocket] at hq
      exact List.map_eq_nil_iff.mp hq.symm
    have hdone : done = [resizeMsg] := by rw [← hsent, hb.sent, hrest, List.append_nil]
    have hhandled := hb.handled
    rw [htags, hdone] at hhandled
    exact absurd hhandled (by decide)
  · have hstarted := hw.started
    rw [hsocket] at hstarted
    cases hstarted

end Iucvterm
