import TfmExtras.Etss.GetAsset
import TfmExtras.Etss.CallFault

/-! Setting an asset while flash operations fail. The write in which the first one fails leaves the
flash as a loss of power can, and ends the request. -/

namespace Etss
open NorFlash NorFlash.Flash FlashM Ipc

variable {cfg : Config} {c : Ctx} {fl : Flash} {F : Faults} {r : WriteReq}

/-! ## A write gives up at the first error -/

/-- Whatever the device replies, an operation that fails makes the call return an error. -/
abbrev Gives (m : FsM Unit) (c : Ctx) : Prop :=
  m.GivesUp c (fun _ => True) (fun _ => True) fun _ => True

theorem metaUpdateFinalize_gives (c : Ctx) : Gives (flashFsMblockMetaUpdateFinalize cfg) c := by
  show Gives (flashFsMblockMetaUpdateFinalize cfg) c
  rw [metaUpdateFinalize_eq]
  refine GivesUp.bind (commitHeader_givesUp_of fun _ _ => trivial) (fun _ => id) fun _ c₁ _ => ?_
  refine GivesUp.bind (GivesUp.mono commitEraseMeta_givesUp (fun _ => id) (fun _ _ => trivial)
    fun _ => id) (fun _ => id) fun _ c₂ _ => ?_
  exact GivesUp.mono commitEraseData_steady (fun _ => id) (fun _ _ => trivial) fun _ _ => trivial

theorem deleteIdx_gives (d : Nat) (c : Ctx) : Gives (flashFsDeleteIdx cfg d) c := by
  show Gives (flashFsDeleteIdx cfg d) c
  rw [deleteIdx_eq]
  refine GivesUp.bind (GivesUp.mono (deleteIdxStage_givesUp d) (fun _ => id) (fun _ _ => trivial)
    fun _ => id) (fun _ => id) fun x c₁ _ => ?_
  refine GivesUp.bind (GivesUp.mono (deleteIdxComplete_steady x) (fun _ => id) (fun _ _ => trivial)
    fun _ _ => trivial) (fun _ => id) fun _ c₂ _ => ?_
  exact metaUpdateFinalize_gives c₂

theorem fileWrite_gives (r : WriteReq) (c : Ctx) : Gives ((FsCall.write r).exec cfg) c := by
  show Gives (flashFsFileWrite cfg r.fid r.flags r.maxSize r.dataSize r.offset r.data) c
  rw [fileWrite_eq]
  refine GivesUp.bind (GivesUp.mono (fileWriteStage_givesUp r) (fun _ => id) (fun _ _ => trivial)
    fun _ => id) (fun _ => id) fun x c₁ _ => ?_
  refine GivesUp.bind (GivesUp.mono (fileWriteComplete_steady r x) (fun _ => id)
    (fun _ _ => trivial) fun _ _ => trivial) (fun _ => id) fun _ c₂ _ => ?_
  refine GivesUp.bind (metaUpdateFinalize_gives c₂) (fun _ => id) fun _ c₃ _ => ?_
  unfold fileWriteReplace
  split_ifs
  · exact deleteIdx_gives _ c₃
  · exact givesUp_pure trivial

/-- The first operation of the call is a read. -/
def StartsReading {α : Type} (m : FsM α) (c : Ctx) : Prop :=
  ∃ b o n k, m c = .op (.read b o n) k

theorem StartsReading.bind {α β : Type} {m : FsM α} {f : α → FsM β} (h : StartsReading m c) :
    StartsReading (m >>= f) c := by
  obtain ⟨b, o, n, k, hk⟩ := h
  refine ⟨b, o, n, fun r => (k r).bind (next f), ?_⟩
  rw [bind_apply, hk]
  rfl

theorem StartsReading.attempt {α : Type} {m : FsM α} (h : StartsReading m c) :
    StartsReading m.attempt c := by
  obtain ⟨b, o, n, k, hk⟩ := h
  refine ⟨b, o, n, fun r => (k r).bind fun x => .pure (.ok x.1, x.2), ?_⟩
  unfold FlashM.attempt
  rw [hk]
  rfl

theorem getFileIdx_startsReading (fid : Fid) (hmax : 0 < cfg.maxNumFiles) :
    StartsReading (flashFsMblockGetFileIdx cfg fid) c := by
  obtain ⟨n, hn⟩ : ∃ n, cfg.maxNumFiles = n + 1 := ⟨cfg.maxNumFiles - 1, by omega⟩
  unfold flashFsMblockGetFileIdx
  rw [hn]
  exact ⟨_, _, _, _, rfl⟩

/-- The first operation of a write with proper flags reads the file table. -/
theorem fileWrite_startsReading (hflags : r.flags &&& internalFlagsMask = 0)
    (hmax : 0 < cfg.maxNumFiles) : StartsReading ((FsCall.write r).exec cfg) c := by
  show StartsReading (flashFsFileWrite cfg r.fid r.flags r.maxSize r.dataSize r.offset r.data) c
  have hlook : StartsReading (fileWriteLookup cfg r.fid r.flags (r.max cfg)) c :=
    (getFileIdx_startsReading r.fid hmax).attempt.bind
  have hstage : StartsReading (fileWriteStage cfg r) c := by
    unfold fileWriteStage failIf
    rw [if_neg (not_not_intro hflags)]
    exact hlook.bind
  rw [fileWrite_eq]
  exact hstage.bind

/-- When the first operation fails, nothing is changed. -/
theorem fileWrite_dead (hflags : r.flags &&& internalFlagsMask = 0) (hmax : 0 < cfg.maxNumFiles)
    (hF : (F 0).isSome) :
    (∃ e, (((FsCall.write r).exec cfg).runFaulty cfg.eraseVal F c fl).status = .error e) ∧
      (((FsCall.write r).exec cfg).runFaulty cfg.eraseVal F c fl).flash = fl := by
  have hread : StartsReading ((FsCall.write r).exec cfg) c := fileWrite_startsReading hflags hmax
  have hg : Gives ((FsCall.write r).exec cfg) c := fileWrite_gives r c
  obtain ⟨b, o, n, k, hk⟩ := hread
  unfold Gives GivesUp at hg
  rw [hk] at hg
  obtain ⟨m, hm⟩ := Option.isSome_iff_exists.mp hF
  cases hg with
  | op fails _ =>
    obtain ⟨⟨⟨e, he, _⟩, _⟩, hf⟩ := fails.runFaulty cfg.eraseVal (F.drop 1) fl
    unfold runFaulty
    rw [hk, Prog.runFaulty_op_some hm]
    exact ⟨⟨e, he⟩, hf⟩

/-- A lookup whose first operation fails reports a missing file. -/
theorem fileGetInfo_dead (fid : Fid) (hmax : 0 < cfg.maxNumFiles) (hF : (F 0).isSome) :
    ((flashFsFileGetInfo cfg fid).runFaulty cfg.eraseVal F c fl).status = .error .doesNotExist ∧
      (flashFsFileGetInfo cfg fid).faultsLeft cfg.eraseVal F c fl = F.drop 1 := by
  obtain ⟨n, hn⟩ : ∃ n, cfg.maxNumFiles = n + 1 := ⟨cfg.maxNumFiles - 1, by omega⟩
  obtain ⟨m, hm⟩ := Option.isSome_iff_exists.mp hF
  obtain ⟨b, o, l, k, hk, hnone⟩ : ∃ b o l k, flashFsFileGetInfo cfg fid c = .op (.read b o l) k ∧
      k none = .pure (.error .doesNotExist, c) := by
    unfold flashFsFileGetInfo flashFsMblockGetFileIdx
    rw [hn]
    exact ⟨_, _, _, _, rfl, rfl⟩
  unfold runFaulty faultsLeft
  rw [hk, Prog.runFaulty_op_some hm, Prog.faultsLeft, hm]
  dsimp only
  rw [hnone]
  exact ⟨rfl, rfl⟩

/-! ## The loop while operations fail -/

section
variable {ι : Type} [DecidableEq ι] {b : Build ι} {i : ι} {fid : Fid} {msg : Msg}
  {flags n o : Nat} {x : ι → Ctx × Flash} {cs : List (Called ι)} {buf : Nat → UInt8}
  {io : Io Reply}

/-- The write that a round makes in the filesystems `x`. -/
def Build.round (b : Build ι) (fid : Fid) (msg : Msg) (flags n o : Nat) (x : ι → Ctx × Flash)
    (buf : Nat → UInt8) (io : Io Reply) : WriteReq :=
  setRequest b.platform fid msg flags n o ⟨⟨x, []⟩, buf⟩ io

/-- What that write leaves in them. -/
def Build.afterRound (b : Build ι) (i : ι) (x : ι → Ctx × Flash) (r : WriteReq) :
    ι → Ctx × Flash :=
  Function.update x i (((FsCall.write r).after (b.cfg i) (x i).1 (x i).2).ctx,
    ((FsCall.write r).after (b.cfg i) (x i).1 (x i).2).flash)

/-- The calls of a request are recorded one after the other. -/
theorem etssSetLoop_calls (n : Nat) : ∀ (o flags : Nat) (x : ι → Ctx × Flash)
    (cs : List (Called ι)) (buf : Nat → UInt8) (io : Io Reply),
    cs ++ [⟨i, x, .write (b.round fid msg flags n o x buf io)⟩] <+:
      (etssSetLoop b.platform (b.fileSystem i) fid msg flags n o ⟨⟨x, cs⟩, buf⟩ io).2.1.fs.calls := by
  induction n using Nat.strong_induction_on with
  | h n ih =>
    intro o flags x cs buf io
    have hB := b.assetDataSize_pos
    set r := b.round fid msg flags n o x buf io
    have hcall : ∀ {res}, ((FsCall.write r).after (b.cfg i) (x i).1 (x i).2).status = res →
        (b.fileSystem i).fileWrite fid flags n (min n b.platform.assetDataSize) o
          (setBuffer b.platform msg n ⟨⟨x, cs⟩, buf⟩ io) ⟨x, cs⟩ =
            (res, ⟨b.afterRound i x r, cs ++ [⟨i, x, .write r⟩]⟩) := fun h => Prod.ext h rfl
    cases hst : ((FsCall.write r).after (b.cfg i) (x i).1 (x i).2).status with
    | error e =>
      rw [(etssSetLoop_error (hcall hst)).2]
    | ok _ =>
      rcases le_or_gt n b.assetDataSize with hle | hlt
      · rw [(etssSetLoop_last (hcall hst) hle).2]
      · rw [etssSetLoop_next (hcall hst) hlt]
        exact (List.prefix_append _ _).trans (ih (n - b.assetDataSize) (by omega) _ _ _ _ _ _)

/-- What the first write leaves, done or cut, is a state of the request in which power can be lost.
-/
theorem round_mem : ⟨i, x, .write (b.round fid msg flags n o x buf io)⟩ ∈
    (etssSetLoop b.platform (b.fileSystem i) fid msg flags n o ⟨⟨x, cs⟩, buf⟩ io).2.1.fs.calls :=
  (etssSetLoop_calls n o flags x cs buf io).subset
    (List.mem_append_right _ (List.mem_singleton_self _))

/-- Power is lost in one of the calls. -/
def CutIn (b : Build ι) (i : ι) (calls : List (Called ι)) (fl : Flash) : Prop :=
  ∃ y ∈ calls, y.area = i ∧ (y.call.exec (b.cfg i)).CrashAt (b.cfg i).eraseVal (y.before i).1
    (y.before i).2 fl

/-- Whatever fails while an asset is written, the flash is left as by a loss of power in one of the
writes that are made when nothing fails. -/
theorem faultyLoop_cut (n : Nat) : ∀ (o flags : Nat) (x : ι → Ctx × Flash) (F : Faults)
    (cs : List (Called ι)) (buf : Nat → UInt8) (io : Io Reply),
    CutIn b i (etssSetLoop b.platform (b.fileSystem i) fid msg flags n o ⟨⟨x, cs⟩, buf⟩
        io).2.1.fs.calls
      ((etssSetLoop b.faultyPlatform (b.faultyFileSystem i) fid msg flags n o ⟨⟨x, F⟩, buf⟩
        io).2.1.fs.fs i).2 := by
  induction n using Nat.strong_induction_on with
  | h n ih =>
    intro o flags x F cs buf io
    have hB := b.assetDataSize_pos
    set r := b.round fid msg flags n o x buf io
    set out := ((FsCall.write r).exec (b.cfg i)).runFaulty (b.cfg i).eraseVal F (x i).1 (x i).2
    set x' : ι → Ctx × Flash := Function.update x i (out.ctx, out.flash)
    set F' := ((FsCall.write r).exec (b.cfg i)).faultsLeft (b.cfg i).eraseVal F (x i).1 (x i).2
    have hself : (x' i).2 = out.flash := congrArg Prod.snd (Function.update_self i _ x)
    have hfaulty : ∀ {res}, out.status = res →
        (b.faultyFileSystem i).fileWrite fid flags n (min n b.faultyPlatform.assetDataSize) o
          (setBuffer b.faultyPlatform msg n ⟨⟨x, F⟩, buf⟩ io) ⟨x, F⟩ = (res, ⟨x', F'⟩) :=
      fun h => Prod.ext h rfl
    have hcut : (((FsCall.write r).exec (b.cfg i)).CrashAt (b.cfg i).eraseVal (x i).1 (x i).2
        out.flash) → CutIn b i (etssSetLoop b.platform (b.fileSystem i) fid msg flags n o
          ⟨⟨x, cs⟩, buf⟩ io).2.1.fs.calls (x' i).2 := fun h => by
      rw [hself]
      exact ⟨_, round_mem, rfl, h⟩
    have hgives : Gives ((FsCall.write r).exec (b.cfg i)) (x i).1 := fileWrite_gives r _
    have hcases : out = (FsCall.write r).after (b.cfg i) (x i).1 (x i).2 ∨
        (∃ e, out.status = .error e) ∧ ((FsCall.write r).exec (b.cfg i)).CrashAt
          (b.cfg i).eraseVal (x i).1 (x i).2 out.flash := hgives.runFaulty_cases F (x i).2
    rcases hcases with hrun | ⟨⟨e, he⟩, hc⟩
    · -- nothing fails in this round
      have hx' : x' = b.afterRound i x r := by
        unfold Build.afterRound
        rw [← hrun]
      have hend : ((FsCall.write r).exec (b.cfg i)).CrashAt (b.cfg i).eraseVal (x i).1 (x i).2
          out.flash := by
        rw [hrun]
        exact Prog.crashAt_run _ _
      cases hst : out.status with
      | error e =>
        rw [(etssSetLoop_error (hfaulty hst)).2]
        exact hcut hend
      | ok _ =>
        rcases le_or_gt n b.assetDataSize with hle | hlt
        · rw [(etssSetLoop_last (hfaulty hst) hle).2]
          exact hcut hend
        · have hcall : (b.fileSystem i).fileWrite fid flags n (min n b.platform.assetDataSize) o
              (setBuffer b.platform msg n ⟨⟨x, cs⟩, buf⟩ io) ⟨x, cs⟩ =
                (.ok (), ⟨x', cs ++ [⟨i, x, .write r⟩]⟩) := by
            rw [hx']
            exact Prod.ext ((congrArg Outcome.status hrun).symm.trans hst) rfl
          rw [etssSetLoop_next (hfaulty hst) hlt, etssSetLoop_next hcall hlt]
          exact ih (n - b.assetDataSize) (by omega) _ _ x' F' _ _ _
    · rw [(etssSetLoop_error (hfaulty he)).2]
      exact hcut hc

/-! ## Failures at chosen operations -/

/-- How many operations the write makes. -/
def Build.opCount (b : Build ι) (i : ι) (x : ι → Ctx × Flash) (r : WriteReq) : Nat :=
  (((FsCall.write r).exec (b.cfg i)).trace (b.cfg i).eraseVal (x i).1 (x i).2).length

/-- A write whose operations succeed. -/
theorem faultyWrite_clean {F : Faults}
    (hF : F.CleanFor (b.opCount i x (b.round fid msg flags n o x buf io)))
    (hok : ((FsCall.write (b.round fid msg flags n o x buf io)).after (b.cfg i) (x i).1
      (x i).2).status = .ok ()) :
    (b.faultyFileSystem i).fileWrite fid flags n (min n b.faultyPlatform.assetDataSize) o
      (setBuffer b.faultyPlatform msg n ⟨⟨x, F⟩, buf⟩ io) ⟨x, F⟩ =
        (.ok (), ⟨b.afterRound i x (b.round fid msg flags n o x buf io),
          F.drop (b.opCount i x (b.round fid msg flags n o x buf io))⟩) := by
  set r := b.round fid msg flags n o x buf io
  obtain ⟨hrun, hleft⟩ : ((FsCall.write r).exec (b.cfg i)).runFaulty (b.cfg i).eraseVal F (x i).1
      (x i).2 = (FsCall.write r).after (b.cfg i) (x i).1 (x i).2 ∧
    ((FsCall.write r).exec (b.cfg i)).faultsLeft (b.cfg i).eraseVal F (x i).1 (x i).2 =
      F.drop (b.opCount i x r) := FlashM.runFaulty_of_clean hF
  refine Prod.ext ((congrArg Outcome.status hrun).trans hok) ?_
  have hfs := congrArg (fun out : Outcome Ctx Status Unit =>
    Function.update x i (out.ctx, out.flash)) hrun
  exact congrArg₂ FaultyStorage.mk hfs hleft

variable {F : Faults}

/-- When the first operation of a round fails, nothing is changed. -/
theorem faultyLoop_dead (hflags : flags &&& internalFlagsMask = 0)
    (hmax : 0 < (b.cfg i).maxNumFiles) (hF : (F 0).isSome) :
    ((etssSetLoop b.faultyPlatform (b.faultyFileSystem i) fid msg flags n o ⟨⟨x, F⟩, buf⟩
      io).2.1.fs.fs i).2 = (x i).2 := by
  obtain ⟨⟨e, he⟩, hfl⟩ := @fileWrite_dead (b.cfg i) (x i).1 (x i).2 F
    (b.round fid msg flags n o x buf io) hflags hmax hF
  have hfaulty : (b.faultyFileSystem i).fileWrite fid flags n (min n b.faultyPlatform.assetDataSize)
      o (setBuffer b.faultyPlatform msg n ⟨⟨x, F⟩, buf⟩ io) ⟨x, F⟩ = (.error e, _) :=
    Prod.ext he rfl
  rw [(etssSetLoop_error hfaulty).2]
  exact (congrArg Prod.snd (Function.update_self i _ x)).trans hfl

section
variable (hok : ((FsCall.write (b.round fid msg flags n o x buf io)).after (b.cfg i) (x i).1
    (x i).2).status = .ok ())
  (hF : F.CleanFor (b.opCount i x (b.round fid msg flags n o x buf io)))
include hok hF

theorem faultyLoop_next (hlt : b.assetDataSize < n) :
    etssSetLoop b.faultyPlatform (b.faultyFileSystem i) fid msg flags n o ⟨⟨x, F⟩, buf⟩ io =
      etssSetLoop b.faultyPlatform (b.faultyFileSystem i) fid msg
        (flags &&& not32 (flagCreate ||| flagTruncate)) (n - b.assetDataSize) (o + b.assetDataSize)
        ⟨⟨b.afterRound i x (b.round fid msg flags n o x buf io),
          F.drop (b.opCount i x (b.round fid msg flags n o x buf io))⟩,
          setBuffer b.platform msg n ⟨⟨x, []⟩, buf⟩ io⟩
        (io.psaRead msg 1 b.assetDataSize b.assetDataSize).2 :=
  etssSetLoop_next (faultyWrite_clean hF hok) hlt

/-- When the operations fail from the end of a round on, the request ends with that round. -/
theorem faultyLoop_end
    (hflags : flags &&& not32 (flagCreate ||| flagTruncate) &&& internalFlagsMask = 0)
    (hmax : 0 < (b.cfg i).maxNumFiles)
    (hdead : (F (b.opCount i x (b.round fid msg flags n o x buf io))).isSome) :
    ((etssSetLoop b.faultyPlatform (b.faultyFileSystem i) fid msg flags n o ⟨⟨x, F⟩, buf⟩
      io).2.1.fs.fs i).2 = (b.afterRound i x (b.round fid msg flags n o x buf io) i).2 := by
  rcases le_or_gt n b.assetDataSize with hle | hlt
  · rw [(etssSetLoop_last (faultyWrite_clean hF hok) hle).2]
  · rw [faultyLoop_next hok hF hlt]
    exact faultyLoop_dead hflags hmax hdead

end

end

end Etss
