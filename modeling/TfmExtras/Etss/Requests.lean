import TfmExtras.Etss.FileMap
import TfmExtras.Etss.Service

/-! The requests of the clients, served on filesystems in flash. -/

namespace Etss
open NorFlash NorFlash.Flash FlashM Ipc

/-! ## The filesystems of a build -/

/-- How the partition is built: the filesystem in each area of the flash, and the area of each
client. Without client isolation there is one area, and every client has it. The buffer
`asset_data` is rounded up to the program unit. -/
structure Build (ι : Type) where
  cfg : ι → Config
  area : Int → Option ι
  securityFeature : SecurityFeature
  assetDataSize : Nat
  accepted : ∀ i, (cfg i).Accepted
  unit : ∀ i, ∃ k, (cfg i).programUnit = 2 ^ k
  storage : securityFeature.securityStorage = true
  assetDataSize_pos : 0 < assetDataSize
  assetDataSize_lt : assetDataSize < 2 ^ 31
  assetDataSize_dvd : ∀ i, (cfg i).programUnit ∣ assetDataSize

/-- A call on the filesystem of an area, and what all filesystems were before it. -/
structure Called (ι : Type) where
  area : ι
  before : ι → Ctx × Flash
  call : FsCall

/-- The filesystems, and the calls that the request at hand made to change one. -/
structure Storage (ι : Type) where
  fs : ι → Ctx × Flash
  calls : List (Called ι)

variable {ι : Type} [DecidableEq ι]

namespace Storage
variable (cfg : Config) (i : ι) (s : Storage ι)

def call (f : FsCall) : Except Status Unit × Storage ι :=
  let out := f.after cfg (s.fs i).1 (s.fs i).2
  (out.status, ⟨Function.update s.fs i (out.ctx, out.flash), s.calls ++ [⟨i, s.fs, f⟩]⟩)

/-- A call that looks a file up. -/
def look {α : Type} (m : FsM α) : Except Status α × Storage ι :=
  let out := m.run cfg.eraseVal (s.fs i).1 (s.fs i).2
  (out.status, { s with fs := Function.update s.fs i (out.ctx, out.flash) })

end Storage

variable (b : Build ι)

/-- The filesystem in area `i`, as the partition calls it. -/
def Build.fileSystem (i : ι) : FileSystem (Storage ι) where
  fileGetInfo fid s := s.look (b.cfg i) i (flashFsFileGetInfo (b.cfg i) fid)
  fileWrite fid flags maxSize dataSize offset data s :=
    s.call (b.cfg i) i (.write ⟨fid, flags, maxSize, dataSize, offset, data⟩)
  fileRead fid size offset s := s.look (b.cfg i) i (flashFsFileRead (b.cfg i) fid size offset)
  fileDelete fid s := s.call (b.cfg i) i (.delete fid)

/-- Requests for assets do not get to the provisioning. -/
def Build.platform : Platform (Storage ι) where
  securityFeature := b.securityFeature
  fsCtx client := (b.area client).map b.fileSystem
  assetDataSize := b.assetDataSize
  provBlobLenMax := 0
  performAndVerify _ s := (false, s)
  assetDataSize_pos := b.assetDataSize_pos

/-- The requests for assets. The data of an asset is the second input vector of the message. -/
inductive Request
  | set (msg : Msg) (uid createFlags : Nat)
  | get (msg : Msg) (uid dataOffset dataSize : Nat)
  | getInfo (msg : Msg) (uid : Nat)
  | remove (msg : Msg) (uid : Nat)

inductive Answer
  | status (res : Reply)
  | data (res : Except Status (List UInt8))
  | info (res : Except Status (Nat × Nat × Nat))

namespace Request

def msg : Request → Msg
  | set msg _ _ | get msg _ _ _ | getInfo msg _ | remove msg _ => msg

def uid : Request → Nat
  | set _ uid _ | get _ uid _ _ | getInfo _ uid | remove _ uid => uid

/-- The file id of the asset. -/
def fid (r : Request) : Fid := etssGetFid r.msg.clientId r.uid

/-- The numbers are in the range of their types. -/
structure InRange (r : Request) : Prop where
  client : -2 ^ 31 ≤ r.msg.clientId ∧ r.msg.clientId < 2 ^ 31
  uid : r.uid < 2 ^ 64
  size : r.msg.inSize 1 < 2 ^ 32

end Request

/-- The bytes that were written to the first output vector. -/
def written (evs : List (Event Reply)) : List UInt8 :=
  evs.flatMap fun
    | .write 0 data => data
    | _ => []

/-- One request, with the answer. -/
def Build.serve (req : Request) (s : Partition (Storage ι)) : Answer × Partition (Storage ι) :=
  let s := { s with fs := { s.fs with calls := [] } }
  match req with
  | .set msg uid createFlags =>
    let (res, s, _) := etssSet b.platform msg uid (msg.inSize 1) createFlags s .start
    (.status res, s)
  | .get msg uid dataOffset dataSize =>
    let (res, s, io) := etssGet b.platform msg uid dataOffset dataSize s .start
    (.data (res.map fun _ => written io.events), s)
  | .getInfo msg uid =>
    let (res, s) := etssGetInfo b.platform msg uid s
    (.info (res.map fun info => (info.capacity, info.size, info.flags)), s)
  | .remove msg uid =>
    let (res, s) := etssRemove b.platform msg uid s
    (.status res, s)

/-! ## File ids and flags -/

theorem etssGetFid_toNat {clientId : Int} {uid : Nat} (hu : uid < 2 ^ 64) :
    (etssGetFid clientId uid).toNat = (clientId % 2 ^ 32).toNat + 2 ^ 32 * uid := by
  unfold etssGetFid
  rw [BitVec.toNat_ofNat, Nat.mod_eq_of_lt hu]
  have h₁ := Int.emod_lt_of_pos clientId (show (0 : Int) < 2 ^ 32 by decide)
  have h₂ := Int.emod_nonneg clientId (show (2 ^ 32 : Int) ≠ 0 by decide)
  exact Nat.mod_eq_of_lt (by omega)

theorem etssGetFid_ne_zero {clientId : Int} {uid : Nat} (hu : uid < 2 ^ 64)
    (h : uid ≠ etssInvalidUid) : etssGetFid clientId uid ≠ 0 := by
  intro he
  have hn := congrArg BitVec.toNat he
  rw [etssGetFid_toNat hu, show BitVec.toNat (0 : Fid) = 0 from rfl] at hn
  exact h (show uid = 0 by omega)

/-- The flags of the writes with which an asset is set: `first` for the first one, then those of
the caller. -/
structure SetFlags (createFlags first : Nat) : Prop where
  lt : first < 2 ^ 32
  user : first &&& userFlagsMask = createFlags
  truncate : first &&& flagTruncate ≠ 0
  further : first &&& not32 (flagCreate ||| flagTruncate) = createFlags
  internal : createFlags &&& internalFlagsMask = 0
  append : createFlags &&& flagTruncate = 0

theorem setFlags_of_supported {f : Nat} (hlt : f < 2 ^ 32) (h : f &&& not32 supportedFlags = 0) :
    SetFlags f (f ||| flagCreate ||| flagTruncate) := by
  have hf : f < 2 ^ 3 := by
    refine Nat.lt_pow_two_of_testBit f fun k hk => ?_
    by_cases hk32 : k < 32
    · have hbit : ∀ k < 32, 3 ≤ k → (not32 supportedFlags).testBit k = true := by decide
      have hand : (f &&& not32 supportedFlags).testBit k = false := by rw [h, Nat.zero_testBit]
      rwa [Nat.testBit_land, hbit k hk32 hk, Bool.and_true] at hand
    · exact Nat.testBit_lt_two_pow
        (lt_of_lt_of_le hlt (Nat.pow_le_pow_right (by decide) (by omega)))
  have hall : ∀ f < 2 ^ 3, f ||| flagCreate ||| flagTruncate < 2 ^ 32 ∧
      (f ||| flagCreate ||| flagTruncate) &&& userFlagsMask = f ∧
      (f ||| flagCreate ||| flagTruncate) &&& flagTruncate ≠ 0 ∧
      (f ||| flagCreate ||| flagTruncate) &&& not32 (flagCreate ||| flagTruncate) = f ∧
      f &&& internalFlagsMask = 0 ∧ f &&& flagTruncate = 0 := by decide
  obtain ⟨h₁, h₂, h₃, h₄, h₅, h₆⟩ := hall f hf
  exact ⟨h₁, h₂, h₃, h₄, h₅, h₆⟩

/-! ## Setting an asset -/

section
variable {φ : Type} {p : Platform φ} {fs : FileSystem φ} {fid : Fid} {msg : Msg}
  {uid flags dataLength offset : Nat} {s : Partition φ} {io : Io Reply}

/-- A request that is not refused gets to the loop. -/
theorem etssSet_eq_loop (hsec : p.securityFeature.securityStorage = true)
    (huid : uid ≠ etssInvalidUid) (hflags : flags &&& not32 supportedFlags = 0)
    (hfs : p.fsCtx msg.clientId = some fs)
    (hinfo : (fs.fileGetInfo (etssGetFid msg.clientId uid) s.fs).1 = .error .doesNotExist ∨
      ∃ info, (fs.fileGetInfo (etssGetFid msg.clientId uid) s.fs).1 = .ok info ∧
        info.flags &&& psaStorageFlagWriteOnce = 0) :
    etssSet p msg uid dataLength flags s io =
      etssSetLoop p fs (etssGetFid msg.clientId uid) msg (flags ||| flagCreate ||| flagTruncate)
        dataLength 0 { s with fs := (fs.fileGetInfo (etssGetFid msg.clientId uid) s.fs).2 } io := by
  obtain ⟨look, write, read, delete⟩ := fs
  unfold etssSet
  rw [if_pos hsec, if_neg huid, if_neg (not_not_intro hflags), hfs]
  dsimp only at hinfo ⊢
  obtain hn | ⟨info, hi, h0⟩ := hinfo
  · rw [hn]
  · rw [hi]
    dsimp only
    rw [if_neg (not_not_intro h0)]

/-- Data that fits in the buffer is written at once. -/
theorem etssSetLoop_fs (hd : dataLength ≤ p.assetDataSize) :
    (etssSetLoop p fs fid msg flags dataLength offset s io).2.1.fs =
      (fs.fileWrite fid flags dataLength dataLength offset
        (fillBuf s.assetData (io.psaRead msg 1 p.assetDataSize dataLength).1) s.fs).2 := by
  rw [etssSetLoop]
  simp only [min_eq_left hd]
  generalize fs.fileWrite fid flags dataLength dataLength offset _ s.fs = out
  obtain ⟨r, φ⟩ := out
  cases r with
  | error e => rfl
  | ok _ =>
    dsimp only
    rw [dif_neg (by omega)]

end

end Etss
