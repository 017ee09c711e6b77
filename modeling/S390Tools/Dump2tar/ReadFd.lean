import S390Tools.Dump2tar.BufferRun

/-!
# Calls in any order, and reading a file

A buffer that has been through any sequence of calls is still the byte string that
these calls make, and `read_fd` fills it with the front of its input.
-/

namespace Dump2tar

open Stdio Splice

/-! ## Sequences of calls -/

inductive Op
  | add_data (data : List UInt8)
  | add_zeroes (len : Nat)
  | read_fd (fd : Fd) (chunk : Nat)
  | truncate (len : Nat)
  | reset

/-- The arguments are of type `size_t`. -/
def Op.Sized : Op → Prop
  | .add_data data => data.length < 2 ^ 64
  | .add_zeroes len => len < 2 ^ 64
  | .read_fd _ chunk => chunk < 2 ^ 64
  | .truncate len => len < 2 ^ 64
  | .reset => True

section
variable (junk : Nat → UInt8) (max_buffer_size : Nat)

def call (buffer : Buffer) : Op → Except Stop (Int × Buffer)
  | .add_data data => buffer_add_data junk buffer (some data) data.length true max_buffer_size
  | .add_zeroes len => buffer_add_data junk buffer none len true max_buffer_size
  | .read_fd fd chunk => do
    let (rc, _, buffer) ← buffer_read_fd junk buffer fd chunk true max_buffer_size
    return (rc, buffer)
  | .truncate len => .ok (EXIT_OK, buffer_truncate buffer len)
  | .reset => .ok (EXIT_OK, buffer_reset buffer)

def calls : List Op → Buffer → Except Stop (List Int × Buffer)
  | [], buffer => .ok ([], buffer)
  | op :: ops, buffer => do
    let (rc, buffer) ← call junk max_buffer_size buffer op
    let (rcs, buffer) ← calls ops buffer
    return (rc :: rcs, buffer)

def run (size : Nat) (ops : List Op) : Except Stop (List Int × Buffer) := do
  let buffer ← buffer_init junk size
  calls junk max_buffer_size ops buffer

end

/-- What a call that has returned `rc` does to the string. -/
def Op.effect (w : List UInt8) (rc : Int) : Op → List UInt8
  | .add_data data => if rc = EXIT_OK then w ++ data else w
  | .add_zeroes len => if rc = EXIT_OK then w ++ List.replicate len 0 else w
  | .read_fd fd _ => w ++ fd.data.take rc.toNat
  | .truncate len => w.take len
  | .reset => []

def contents : List Op → List Int → List UInt8 → List UInt8
  | op :: ops, rc :: rcs, w => contents ops rcs (op.effect w rc)
  | _, _, w => w

/-- A call fails only where `fd` does, or for more than `ssize_t` counts. -/
def Op.Returns (max_buffer_size : Nat) (op : Op) (rc : Int) : Prop :=
  match op with
  | .add_data data => rc = EXIT_OK ∨ rc = EXIT_RUNTIME ∧ PTRDIFF_MAX < min data.length max_buffer_size
  | .add_zeroes len => rc = EXIT_OK ∨ rc = EXIT_RUNTIME ∧ PTRDIFF_MAX < min len max_buffer_size
  | .read_fd fd chunk =>
    rc.toNat ≤ min fd.data.length chunk ∧ (rc = 0 → chunk = 0 ∨ fd.data = []) ∧
      (rc < 0 → none ∈ fd.answers ∨ PTRDIFF_MAX < min chunk max_buffer_size)
  | .truncate _ => rc = EXIT_OK
  | .reset => rc = EXIT_OK

section
variable {limit max_buffer_size : Nat}

theorem call_holds (junk : Nat → UInt8) {buffer : Buffer} {w : List UInt8} (op : Op)
    (h : Holds limit buffer w) (hmax : max_buffer_size ≤ limit)
    (hpos : 1 ≤ max_buffer_size) (hop : op.Sized) :
    (call junk max_buffer_size buffer op = .error .oom ∧ PTRDIFF_MAX < max_buffer_size) ∨
      ∃ rc b, call junk max_buffer_size buffer op = .ok (rc, b) ∧ op.Returns max_buffer_size rc ∧
        Holds limit b (op.effect w rc) := by
  cases op with
  | add_data data =>
    have hpiece : piece (some data) data.length = data := List.take_length
    rcases buffer_add_loop_holds junk hmax hpos h (Nat.le_refl data.length) hop
        (show ∀ d ∈ some data, d.length = data.length from fun d hd => by cases hd; rfl) with ⟨he,
          hbig⟩ | ⟨rc, b, he, ⟨rfl, hb⟩ | ⟨rfl, hbig, hb⟩⟩
    · exact .inl ⟨he, hbig⟩
    · rw [hpiece] at hb
      exact .inr ⟨_, b, he, .inl rfl, hb⟩
    · exact .inr ⟨_, b, he, .inr ⟨rfl, hbig⟩, hb⟩
  | add_zeroes len =>
    rcases buffer_add_loop_holds junk hmax hpos h (Nat.le_refl len) hop
        (show ∀ d ∈ (none : Option (List UInt8)), d.length = len from fun d hd =>
          by cases hd) with ⟨he, hbig⟩ | ⟨rc, b, he, ⟨rfl, hb⟩ | ⟨rfl, hbig, hb⟩⟩
    · exact .inl ⟨he, hbig⟩
    · exact .inr ⟨_, b, he, .inl rfl, hb⟩
    · exact .inr ⟨_, b, he, .inr ⟨rfl, hbig⟩, hb⟩
  | read_fd fd chunk =>
    rw [call]
    rcases buffer_read_fd_holds junk fd h hmax (by rw [Op.Sized] at hop; omega : min chunk max_buffer_size < 2 ^ 64)
      with ⟨he, hbig⟩ | ⟨rc, fd', b, he, hmoved⟩
    · rw [he]
      exact .inl ⟨rfl, hbig⟩
    · obtain ⟨d, hdata, hb, hcount, hshort⟩ := hmoved.data
      have htake : fd.data.take rc.toNat = d := by rw [hdata, hcount, List.take_left]
      rw [he]
      refine .inr ⟨rc, b, rfl, ⟨?_, fun hz => ?_, hmoved.negative⟩, ?_⟩
      · have hlen := congrArg List.length hdata
        rw [List.length_append] at hlen
        omega
      · rcases hmoved.zero hz with hz | hz
        · left
          omega
        · exact .inr hz
      · rw [Op.effect, htake]
        exact hb
  | truncate len => exact .inr ⟨_, _, rfl, rfl, buffer_truncate_holds len h⟩
  | reset => exact .inr ⟨_, _, rfl, rfl, buffer_reset_holds h⟩

theorem calls_hold (junk : Nat → UInt8) (hmax : max_buffer_size ≤ limit) (hpos : 1 ≤ max_buffer_size) :
    ∀ {ops : List Op} {buffer : Buffer} {w : List UInt8}, Holds limit buffer w → (∀ op ∈ ops, op.Sized) →
      (calls junk max_buffer_size ops buffer = .error .oom ∧ PTRDIFF_MAX < max_buffer_size) ∨
        ∃ rcs b, calls junk max_buffer_size ops buffer = .ok (rcs, b) ∧
          List.Forall₂ (Op.Returns max_buffer_size) ops rcs ∧ Holds limit b (contents ops rcs w)
  | [], buffer, w, h, _ => .inr ⟨[], buffer, rfl, .nil, h⟩
  | op :: ops, buffer, w, h, hops => by
    rw [calls]
    rcases call_holds junk op h hmax hpos (hops op (.head _)) with ⟨he, hbig⟩ | ⟨rc, b, he, hret, hb⟩
    · rw [he]
      exact .inl ⟨rfl, hbig⟩
    rw [he]
    rcases calls_hold junk hmax hpos hb fun o ho => hops o (.tail _ ho) with ⟨he, hbig⟩ | ⟨rcs, b', he, hrets, hb'⟩
    · refine .inl ⟨?_, hbig⟩
      show (calls junk max_buffer_size ops b >>= _) = _
      rw [he]
      rfl
    · refine .inr ⟨rc :: rcs, b', ?_, .cons hret hrets, hb'⟩
      show (calls junk max_buffer_size ops b >>= _) = _
      rw [he]
      rfl

end

/-! ## Reading a file -/

def front (opts : Opts) (data : List UInt8) : List UInt8 :=
  if opts.file_max_size = 0 then data else data.take (min data.length opts.file_max_size)

/-- The command line takes no buffer size below `MIN_BUFFER_SIZE`. -/
structure Opts.Valid (opts : Opts) : Prop where
  chunk : 1 ≤ opts.read_chunk_size
  chunk_size_t : opts.read_chunk_size < 2 ^ 64
  max : 1 ≤ opts.max_buffer_size
  max_size_t : opts.max_buffer_size < 2 ^ 64

/-- What lets `read_fd` fail. -/
def Disturbed (opts : Opts) (abort_at : Option Nat) (fd : Fd) : Prop :=
  abort_at ≠ none ∨ none ∈ fd.answers ∨ PTRDIFF_MAX < opts.max_buffer_size

theorem disturbed_mono {opts : Opts} {abort_at : Option Nat} {fd fd' : Fd} (h : Disturbed opts abort_at fd')
    (hsub : fd'.answers ⊆ fd.answers) : Disturbed opts abort_at fd := by
  rcases h with h | h | h
  · exact .inl h
  · exact .inr (.inl (hsub h))
  · exact .inr (.inr h)

theorem aborted_some {abort_at : Option Nat} {i : Nat} (h : is_aborted abort_at i = true) :
    abort_at ≠ none ∧ is_aborted abort_at (i + 1) = true := by
  cases abort_at with
  | none => cases h
  | some k =>
    have hk : k ≤ i := of_decide_eq_true h
    exact ⟨Option.some_ne_none k, decide_eq_true (by omega)⟩

section
variable {limit : Nat} {opts : Opts}

theorem read_fd_loop_holds (junk : Nat → UInt8) (abort_at : Option Nat) (hopts : opts.Valid)
    (hmax : opts.max_buffer_size ≤ limit) :
    ∀ (i : Nat) (rc : Int) {fuel c : Nat} {fd : Fd} {buffer : Buffer} {w : List UInt8}, Holds limit buffer w →
      fd.data.length < fuel → 1 ≤ c → c < 2 ^ 64 → (opts.file_max_size = 0 ∨ w.length < opts.file_max_size) →
      (read_fd_loop junk opts abort_at fuel i c rc fd buffer = .error .oom ∧ PTRDIFF_MAX < opts.max_buffer_size) ∨
        ∃ rc' i' fd' b, read_fd_loop junk opts abort_at fuel i c rc fd buffer = .ok (rc', i', fd', b) ∧
          (rc' = 0 ∧ Holds limit b (front opts (w ++ fd.data)) ∨
            (rc' ≠ 0 ∨ is_aborted abort_at i' = true) ∧ Disturbed opts abort_at fd)
  | _, _, 0, _, _, _, _, _, hfuel, _, _, _ => absurd hfuel (Nat.not_lt_zero _)
  | i, rc, fuel + 1, c, fd, buffer, w, h, hfuel, hpos, hc, hw => by
    rw [read_fd_loop]
    by_cases habort : is_aborted abort_at i = true
    · rw [if_pos habort]
      obtain ⟨hsome, hnext⟩ := aborted_some habort
      exact .inr ⟨_, _, _, _, rfl, .inr ⟨.inr hnext, .inl hsome⟩⟩
    rw [if_neg habort]
    have hvalid := hopts.max
    rcases buffer_read_fd_holds junk fd h hmax (by omega : min c opts.max_buffer_size < 2 ^ 64)
      with ⟨he, hbig⟩ | ⟨rc', fd', b, he, hmoved⟩
    · rw [he]
      exact .inl ⟨rfl, hbig⟩
    rw [he]
    obtain ⟨d, hdata, hb, hcount, hshort⟩ := hmoved.data
    simp only [bind, Except.bind]
    by_cases hend : rc' ≤ 0
    · rw [if_pos hend]
      refine .inr ⟨_, _, _, _, rfl, ?_⟩
      have hnil : d = [] := List.length_eq_zero_iff.mp (by omega)
      rcases Int.lt_or_eq_of_le hend with hneg | hzero
      · refine .inr ⟨.inl (by omega), ?_⟩
        rcases hmoved.negative hneg with hnone | hbig
        · exact .inr (.inl hnone)
        · exact .inr (.inr (by omega))
      · -- no room was not asked for, so the input has ended
        have heof : fd.data = [] := (hmoved.zero hzero).resolve_left (by omega)
        refine .inl ⟨hzero, ?_⟩
        rw [hnil, List.append_nil] at hb
        rw [heof, List.append_nil, front]
        split
        · exact hb
        · rw [List.take_of_length_le (by omega)]
          exact hb
    rw [if_neg hend]
    by_cases hlimit : 0 < opts.file_max_size ∧ opts.file_max_size ≤ b.total
    · rw [if_pos hlimit]
      refine .inr ⟨_, _, _, _, rfl, .inl ⟨rfl, ?_⟩⟩
      have htotal := hb.total
      rw [front, if_neg (by omega), hdata, ← List.append_assoc]
      have hcut := buffer_truncate_holds opts.file_max_size hb
      have hlen : opts.file_max_size ≤ (w ++ d).length := by omega
      rw [Nat.min_eq_right (by rw [List.length_append]; omega), List.take_append_of_le_length hlen]
      exact hcut
    rw [if_neg hlimit]
    obtain ⟨c', hc'⟩ : ∃ c', c' = (if 0 < b.size - b.off then b.size - b.off
      else if (b.size + opts.read_chunk_size) % 2 ^ 64 < opts.max_buffer_size then opts.read_chunk_size
      else opts.max_buffer_size) := ⟨_, rfl⟩
    have hnext : 1 ≤ c' ∧ c' < 2 ^ 64 := by
      have hfits := hb.fits
      have hchunk := hopts.chunk
      have hchunk' := hopts.chunk_size_t
      have hmax' := hopts.max_size_t
      rw [PTRDIFF_MAX] at hfits
      rw [hc']
      split
      · omega
      · split <;> omega
    have hlen := congrArg List.length hdata
    have htotal := hb.total
    rw [List.length_append] at hlen
    have hmore := read_fd_loop_holds junk abort_at hopts hmax (i + 1) rc' hb (by omega : fd'.data.length < fuel)
      hnext.1 hnext.2 (by omega)
    rw [List.append_assoc, ← hdata, hc'] at hmore
    rcases hmore with hmore | ⟨r, i', fd'', b', he', hres⟩
    · exact .inl hmore
    · refine .inr ⟨r, i', fd'', b', he', ?_⟩
      rcases hres with hres | ⟨hrc, hcause⟩
      · exact .inl hres
      · exact .inr ⟨hrc, disturbed_mono hcause hmoved.answers⟩

theorem read_fd_holds (junk : Nat → UInt8) (abort_at : Option Nat) (hopts : opts.Valid)
    (hmax : opts.max_buffer_size ≤ limit) {buffer : Buffer} (fd : Fd)
    (h : Holds limit buffer []) :
    (read_fd junk opts abort_at fd buffer = .error .oom ∧ PTRDIFF_MAX < opts.max_buffer_size) ∨
      ∃ rc fd' b, read_fd junk opts abort_at fd buffer = .ok (rc, fd', b) ∧
        (rc = EXIT_OK ∧ Holds limit b (front opts fd.data) ∨ rc = EXIT_RUNTIME ∧ Disturbed opts abort_at fd) := by
  have hfits := h.fits
  have hchunk := hopts.chunk
  have hchunk' := hopts.chunk_size_t
  rw [PTRDIFF_MAX] at hfits
  obtain ⟨c, hc⟩ : ∃ c, c = (if buffer.size ≠ 0 then buffer.size else opts.read_chunk_size) := ⟨_, rfl⟩
  have hfirst : 1 ≤ c ∧ c < 2 ^ 64 := by
    rw [hc]
    split <;> omega
  rw [read_fd]
  dsimp only
  rw [← hc]
  rcases read_fd_loop_holds junk abort_at hopts hmax 0 0 h
      (Nat.lt_succ_self fd.data.length) hfirst.1 hfirst.2 (by rw [List.length_nil]; omega)
    with ⟨he, hbig⟩ | ⟨rc, i, fd', b, he, hres⟩
  · rw [he]
    exact .inl ⟨rfl, hbig⟩
  rw [he]
  refine .inr ⟨_, fd', b, rfl, ?_⟩
  rcases hres with ⟨hrc, hb⟩ | ⟨hrc, hcause⟩
  · by_cases habort : is_aborted abort_at i = true
    · exact .inr ⟨if_pos (.inl habort), .inl (aborted_some habort).1⟩
    · exact .inl ⟨if_neg (by rw [not_or]; exact ⟨habort, not_not.mpr hrc⟩), hb⟩
  · exact .inr ⟨if_pos hrc.symm, hcause⟩

end

/-! ## The string -/

theorem buffer_is_string (junk : Nat → UInt8) (size max_buffer_size : Nat) (ops : List Op)
    (hmax : 1 ≤ max_buffer_size)
    (hops : ∀ op ∈ ops, op.Sized) :
    (∀ stop, run junk max_buffer_size size ops = .error stop → stop = .oom ∧
      PTRDIFF_MAX < max size max_buffer_size) ∧
    ∀ rcs b, run junk max_buffer_size size ops = .ok (rcs, b) →
      List.Forall₂ (Op.Returns max_buffer_size) ops rcs ∧
      Stores (max size max_buffer_size) b (contents ops rcs []) ∧
      b.off ≤ b.size ∧ b.addr.length = b.size ∧ b.size ≤ max size max_buffer_size ∧
      ∀ (opts : Opts) (abort_at : Option Nat) (fd : Fd), opts.Valid → opts.max_buffer_size = max_buffer_size →
        (∀ stop, read_fd junk opts abort_at fd (buffer_reset b) = .error stop →
          stop = .oom ∧ PTRDIFF_MAX < max_buffer_size) ∧
        ∀ rc fd' b', read_fd junk opts abort_at fd (buffer_reset b) = .ok (rc, fd', b') →
          (rc = EXIT_OK → Stores (max size max_buffer_size) b' (front opts fd.data)) ∧
          (rc ≠ EXIT_OK → Disturbed opts abort_at fd) := by
  have hle : max_buffer_size ≤ max size max_buffer_size := Nat.le_max_right ..
  rw [run]
  cases hinit : buffer_init junk size with
  | error stop =>
    refine ⟨fun stop' hs => ?_, fun _ _ hs => (by cases hs)⟩
    cases hs
    rw [buffer_init, mrealloc] at hinit
    split at hinit
    · cases hinit
    · cases hinit
      exact ⟨rfl, by omega⟩
  | ok buffer =>
    have hempty := buffer_init_holds hinit (Nat.le_max_left size max_buffer_size)
    show (∀ stop, calls junk max_buffer_size ops buffer = _ → _) ∧
      ∀ rcs b, calls junk max_buffer_size ops buffer = _ → _
    rcases calls_hold junk hle hmax hempty hops with ⟨he, hbig⟩ | ⟨rcs, b, he, hret, hb⟩
    · rw [he]
      refine ⟨fun stop hs => ?_, fun _ _ hs => (by cases hs)⟩
      cases hs
      exact ⟨rfl, by omega⟩
    rw [he]
    refine ⟨fun _ hs => (by cases hs), fun rcs' b' hs => ?_⟩
    cases hs
    refine ⟨hret, hb.stores, hb.off, hb.addr, hb.size, fun opts abort_at fd hopts hsame => ?_⟩
    subst hsame
    rcases read_fd_holds junk abort_at hopts hle fd (buffer_reset_holds hb)
      with ⟨he, hbig⟩ | ⟨rc, fd', b', he, ⟨rfl, hb'⟩ | ⟨rfl, hcause⟩⟩
    · rw [he]
      refine ⟨fun stop hs => ?_, fun _ _ _ hs => (by cases hs)⟩
      cases hs
      exact ⟨rfl, hbig⟩
    · rw [he]
      refine ⟨fun _ hs => (by cases hs), fun _ _ _ hs => ?_⟩
      cases hs
      exact ⟨fun _ => hb'.stores, fun hne => absurd rfl hne⟩
    · rw [he]
      refine ⟨fun _ hs => (by cases hs), fun _ _ _ hs => ?_⟩
      cases hs
      exact ⟨fun heq => absurd heq (by decide), fun _ => hcause⟩

def small_ops : List Op := [.add_data [1, 2, 3, 4], .read_fd ⟨[5, 6, 7], [some 0]⟩ 2, .truncate 4, .add_zeroes 1]

theorem small_ops_sized : ∀ op ∈ small_ops, op.Sized := by
  intro op hop
  simp only [small_ops, List.mem_cons, List.not_mem_nil, or_false] at hop
  rcases hop with rfl | rfl | rfl | rfl <;> rw [Op.Sized] <;> decide

theorem buffer_is_string_small :
    (∀ op ∈ small_ops, op.Sized) ∧ ∃ rcs b, run (fun _ => 0) 3 2 small_ops = .ok (rcs, b) ∧ rcs = [0, 1, 0, 0] ∧
      b.file.map File.content = some [1, 2, 3] ∧ Stores 3 b [1, 2, 3, 4, 0] := by
  obtain ⟨-, h⟩ := buffer_is_string (fun _ => 0) 2 3 small_ops (by decide) small_ops_sized
  obtain ⟨-, hstores, -⟩ := h _ _ rfl
  exact ⟨small_ops_sized, _, _, rfl, rfl, rfl, hstores⟩

end Dump2tar
