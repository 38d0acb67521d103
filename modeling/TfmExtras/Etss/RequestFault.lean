import TfmExtras.Etss.Requests
import TfmExtras.Lib.FlashFault

/-! The requests of the clients, served on a flash whose operations can fail. -/

namespace Etss
open NorFlash NorFlash.Flash FlashM Ipc

/-- The filesystems, and the operations that are going to fail. -/
structure FaultyStorage (ι : Type) where
  fs : ι → Ctx × Flash
  faults : Faults

variable {ι : Type} [DecidableEq ι]

def FaultyStorage.call {α : Type} (s : FaultyStorage ι) (cfg : Config) (i : ι) (m : FsM α) :
    Except Status α × FaultyStorage ι :=
  let out := m.runFaulty cfg.eraseVal s.faults (s.fs i).1 (s.fs i).2
  (out.status, ⟨Function.update s.fs i (out.ctx, out.flash),
    m.faultsLeft cfg.eraseVal s.faults (s.fs i).1 (s.fs i).2⟩)

/-- A call that only reads leaves the filesystems as they are. -/
theorem FaultyStorage.call_reads {α : Type} {cfg : Config} {i : ι} {m : FsM α}
    {s : FaultyStorage ι} (h : m.Reads (s.fs i).1) : (s.call cfg i m).2.fs = s.fs := by
  obtain ⟨hc, hf⟩ := h.runFaulty_eq cfg.eraseVal s.faults (s.fs i).2
  show Function.update s.fs i (_, _) = s.fs
  rw [hc, hf]
  exact Function.update_eq_self i s.fs

variable (b : Build ι)

/-- The filesystem in area `i`, as the partition calls it. -/
def Build.faultyFileSystem (i : ι) : FileSystem (FaultyStorage ι) where
  fileGetInfo fid s := s.call (b.cfg i) i (flashFsFileGetInfo (b.cfg i) fid)
  fileWrite fid flags maxSize dataSize offset data s :=
    s.call (b.cfg i) i (flashFsFileWrite (b.cfg i) fid flags maxSize dataSize offset data)
  fileRead fid size offset s := s.call (b.cfg i) i (flashFsFileRead (b.cfg i) fid size offset)
  fileDelete fid s := s.call (b.cfg i) i (flashFsFileDelete (b.cfg i) fid)

def Build.faultyPlatform : Platform (FaultyStorage ι) where
  securityFeature := b.securityFeature
  fsCtx client := (b.area client).map b.faultyFileSystem
  assetDataSize := b.assetDataSize
  provBlobLenMax := 0
  performAndVerify _ s := (false, s)
  assetDataSize_pos := b.assetDataSize_pos

/-- A client's lookups are made in its area. -/
theorem Build.faultyPlatform_fileGetInfo {i : ι} {client : Int} (hb : b.area client = some i)
    (fid : Fid) (s : FaultyStorage ι) : ∃ fs, b.faultyPlatform.fsCtx client = some fs ∧
      fs.fileGetInfo fid s = s.call (b.cfg i) i (flashFsFileGetInfo (b.cfg i) fid) := by
  refine ⟨b.faultyFileSystem i, ?_, rfl⟩
  show (b.area client).map b.faultyFileSystem = _
  rw [hb]
  rfl

end Etss
