import S390Tools.Hmcdrvfs.Dir

/-!
# Transfers from the FTP device (hmcdrvfs/hmcdrvfs.c)

The device keeps the last command written and the position behind the last
successful read. A read that goes on there needs no new command.
-/

namespace Hmcdrvfs

def HMCDRV_FUSE_MAXFTPLEN : Nat := 3
def HMCDRV_FUSE_OFSPATH : Nat := HMCDRV_FUSE_MAXFTPLEN + 1
def HMCDRV_FUSE_MAXCMDLEN : Nat := HMCDRV_FUSE_MAXPATH + HMCDRV_FUSE_OFSPATH

inductive CmdId
  | nls
  | dir
  | get
  deriving DecidableEq

def hmcdrv_ftp_str : CmdId → Bytes
  | .nls => bytes "nls "
  | .dir => bytes "dir "
  | .get => bytes "get "

structure Device where
  cmd : Bytes
  pos : Nat
  deriving DecidableEq

/-- What the calls of one transfer return. A read gives at most `wish + 1` characters; `dev` is the device behind
a call that fails. -/
structure Reply where
  lseek : Bool
  write : Bool
  read : Bool
  wish : Nat
  dev : Device
  deriving DecidableEq

/-- The static variables of `hmcdrv_ftp_transfer`, and the device. -/
structure Ftp where
  current_offset : Nat
  last_ftpcmd : Bytes
  dev : Device
  deriving DecidableEq

def Ftp.Sequential (ftpcmd : Bytes) (offset : Nat) (f : Ftp) : Prop :=
  offset = f.current_offset ∧ ftpcmd.take HMCDRV_FUSE_MAXCMDLEN = f.last_ftpcmd.take HMCDRV_FUSE_MAXCMDLEN

instance (ftpcmd : Bytes) (offset : Nat) (f : Ftp) : Decidable (f.Sequential ftpcmd offset) :=
  inferInstanceAs (Decidable (_ ∧ _))

section
variable (output : Bytes → Bytes)

def Ftp.position (ftpcmd : Bytes) (offset : Nat) (f : Ftp) : Ftp :=
  if f.Sequential ftpcmd offset then f else { f with current_offset := offset, dev := ⟨ftpcmd, offset⟩ }

/-- `output` is what the device gives for a command; `none` is an error. -/
def hmcdrv_ftp_transfer (r : Reply) (ftpcmd : Bytes) (len offset : Nat) (f : Ftp) : Option Bytes × Ftp :=
  if ¬f.Sequential ftpcmd offset ∧ ¬(r.lseek = true ∧ r.write = true) then (none,
    { f with last_ftpcmd := [], dev := r.dev })
  else
    let f := f.position ftpcmd offset
    if r.read = true then
      let buf := ftp_dir (output f.dev.cmd) r.wish len f.dev.pos
      (some buf,
        { current_offset := f.current_offset + buf.length
          last_ftpcmd := ftpcmd.take (HMCDRV_FUSE_MAXCMDLEN - 1)
          dev := { f.dev with pos := f.dev.pos + buf.length } })
    else (none, { f with last_ftpcmd := [], dev := r.dev })

end

/-! ## Reading anew -/

/-- The static variables tell where the device stands. -/
structure Ftp.Synced (f : Ftp) : Prop where
  length : f.last_ftpcmd.length < HMCDRV_FUSE_MAXCMDLEN
  dev : f.last_ftpcmd ≠ [] → f.dev = ⟨f.last_ftpcmd, f.current_offset⟩

section
variable {output : Bytes → Bytes} {ftpcmd : Bytes} {offset : Nat} {f : Ftp}

theorem Ftp.Synced.position (h : f.Synced) (hne : ftpcmd ≠ [])
    (hlen : ftpcmd.length < HMCDRV_FUSE_MAXCMDLEN) (offset : Nat) :
    (f.position ftpcmd offset).dev = ⟨ftpcmd, offset⟩ ∧ (f.position ftpcmd offset).current_offset = offset := by
  unfold Ftp.position
  split
  · rename_i hseq
    obtain ⟨hoff, hcmd⟩ := hseq
    rw [List.take_of_length_le (Nat.le_of_lt hlen), List.take_of_length_le (Nat.le_of_lt h.length)] at hcmd
    rw [h.dev (hcmd ▸ hne), hcmd, hoff]
    exact ⟨rfl, rfl⟩
  · exact ⟨rfl, rfl⟩

theorem transfer_spec (h : f.Synced) (hne : ftpcmd ≠ [])
    (hlen : ftpcmd.length < HMCDRV_FUSE_MAXCMDLEN) (r : Reply) (len : Nat) :
    (hmcdrv_ftp_transfer output r ftpcmd len offset f).2.Synced ∧
      ∀ buf, (hmcdrv_ftp_transfer output r ftpcmd len offset f).1 = some buf →
        buf = ftp_dir (output ftpcmd) r.wish len offset := by
  have hzero : ([] : Bytes).length < HMCDRV_FUSE_MAXCMDLEN := by decide
  obtain ⟨hdev, hoff⟩ := h.position hne hlen offset
  unfold hmcdrv_ftp_transfer
  split
  · exact ⟨⟨hzero, fun h0 => absurd rfl h0⟩, fun buf hb => by cases hb⟩
  simp only [hdev, hoff]
  split
  · have hcut : ftpcmd.take (HMCDRV_FUSE_MAXCMDLEN - 1) = ftpcmd := List.take_of_length_le (by omega)
    rw [hcut]
    exact ⟨⟨hlen, fun _ => rfl⟩, fun buf hb => (Option.some.inj hb).symm⟩
  · exact ⟨⟨hzero, fun h0 => absurd rfl h0⟩, fun buf hb => by cases hb⟩

end

end Hmcdrvfs
