import TfmExtras.Etss.Validated
import TfmExtras.Etss.WipeCrash

/-! Runs of file operations after a mount that accepted any tables. -/

namespace Etss
open NorFlash NorFlash.Flash FlashM

/-- The file operations. -/
inductive FileCall
  | write (r : WriteReq)
  | delete (fid : Fid)
  | read (fid : Fid) (size offset : Nat)

namespace FileCall
variable (cfg : Config)

def exec : FileCall → FsM (List UInt8)
  | write r => do
    flashFsFileWrite cfg r.fid r.flags r.maxSize r.dataSize r.offset r.data
    pure []
  | delete fid => do
    flashFsFileDelete cfg fid
    pure []
  | read fid size offset => flashFsFileRead cfg fid size offset

def noted : FileCall → CalcM (List UInt8)
  | write r => do
    fileWriteNoted cfg r
    pure []
  | delete fid => do
    fileDeleteNoted cfg fid
    pure []
  | read fid size offset => fileReadNoted cfg fid size offset

/-- The computations of a call. -/
def calcs (f : FileCall) (c : Ctx) (fl : Flash) : List Calc :=
  ((f.noted cfg).run cfg.eraseVal (c, []) fl).ctx.2

/-- Every operation stays inside a block of the area, and no computation wraps. -/
def Safe (f : FileCall) (c : Ctx) (fl : Flash) : Prop :=
  (∀ x ∈ (f.exec cfg).trace cfg.eraseVal c fl, InBlock cfg x.2) ∧ AllExact (f.calcs cfg c fl)

/-- The entries that the call works on fit together. A write that replaces a file deletes the old
one in a second update, from the tables that the first one leaves. -/
def Fits : FileCall → Ctx → Flash → Prop
  | write r, c, fl => (mountedImage cfg c fl).WriteFits cfg r ∧
    ∀ t, (mountedImage cfg c fl).writeTarget cfg r = .ok t → t.Replaces →
      ((fileWriteUpdate cfg r).run cfg.eraseVal c fl).status = .ok () →
      (mountedImage cfg ((fileWriteUpdate cfg r).run cfg.eraseVal c fl).ctx
        ((fileWriteUpdate cfg r).run cfg.eraseVal c fl).flash).MayDelete cfg t.oldIdx
  | delete fid, c, fl => ∀ d, findFile cfg (mountedImage cfg c fl).files (fun f => f.id == fid)
      cfg.maxNumFiles 0 = .ok d → (mountedImage cfg c fl).MayDelete cfg d
  | read fid size offset, c, fl => (mountedImage cfg c fl).ReadFits cfg fid size offset

end FileCall

variable {cfg : Config} {s : Ctx × List Calc} {c : Ctx} {fl : Flash}

theorem FileCall.noted_notes (f : FileCall) : Notes (f.noted cfg) (f.exec cfg) := by
  cases f with
  | write r => exact (fileWriteNoted_notes r).bind fun _ => notes_pure _
  | delete fid => exact (fileDeleteNoted_notes fid).bind fun _ => notes_pure _
  | read fid size offset => exact fileReadNoted_notes fid size offset

theorem fileWriteFirst_update (r : WriteReq) :
    (fileWriteFirst cfg r >>= fun _ => pure ()) = fileWriteUpdate cfg r := by
  unfold fileWriteFirst fileWriteUpdate
  simp only [bind_assoc, pure_bind]
  exact bind_congr fun x => bind_congr fun _ => bind_pure _

/-- The first update of a write leaves what it leaves without notes. -/
theorem fileWriteFirst_run {r : WriteReq} {x : WritePlan}
    (h : ((fileWriteFirstNoted cfg r).run cfg.eraseVal s fl).status = .ok x) :
    ((fileWriteUpdate cfg r).run cfg.eraseVal s.1 fl).status = .ok () ∧
      ((fileWriteUpdate cfg r).run cfg.eraseVal s.1 fl).ctx =
        ((fileWriteFirstNoted cfg r).run cfg.eraseVal s fl).ctx.1 ∧
      ((fileWriteUpdate cfg r).run cfg.eraseVal s.1 fl).flash =
        ((fileWriteFirstNoted cfg r).run cfg.eraseVal s fl).flash := by
  have hnotes : Notes (fileWriteFirstNoted cfg r) (fileWriteFirst cfg r) := fileWriteFirstNoted_notes r
  have hrun := hnotes.run_eq cfg.eraseVal s fl
  have hok : ((fileWriteFirst cfg r).run cfg.eraseVal s.1 fl).status = .ok x := by
    rw [hrun]
    exact h
  rw [← fileWriteFirst_update, run_bind_ok hok, hrun]
  exact ⟨rfl, rfl, rfl⟩

section
variable (hacc : cfg.Accepted) (hval : cfg.validateMetadata = true)
include hacc hval

theorem FileCall.noted_wp (h : Sane cfg s) {f : FileCall} (hfit : f.Fits cfg s.1 fl) :
    (f.noted cfg).wp cfg.eraseVal (fun _ o => InBlock cfg o) s fl fun _ s' _ => Sane cfg s' := by
  cases f with
  | write r =>
    obtain ⟨hwrite, hdelete⟩ := hfit
    obtain ⟨hin, hsane, hx⟩ := wp_iff.mp (fileWriteFirstNoted_wp hacc hval h hwrite)
    have hfirst : (fileWriteFirstNoted cfg r).wp cfg.eraseVal (fun _ o => InBlock cfg o) s fl
        fun res s' fl' => Outcome.mk res s' fl' = (fileWriteFirstNoted cfg r).run cfg.eraseVal s fl :=
      wp_iff.mpr ⟨hin, rfl⟩
    have hwrite : (fileWriteNoted cfg r).wp cfg.eraseVal (fun _ o => InBlock cfg o) s fl
        fun _ s' _ => Sane cfg s' := by
      refine wp_bind.mpr (wp_post hfirst fun res s' fl' hout => ?_)
      rw [← hout] at hsane hx
      cases res with
      | error e => exact hsane
      | ok x =>
        obtain ⟨t, ht, hold, hnew⟩ := hx x rfl
        have hstatus : ((fileWriteFirstNoted cfg r).run cfg.eraseVal s fl).status = .ok x := by
          rw [← hout]
        obtain ⟨hok, hctx, hfl⟩ := fileWriteFirst_run hstatus
        rw [← hout] at hctx hfl
        dsimp only
        split_ifs with htwo
        · obtain ⟨holdInv, -⟩ | ⟨hlt, hcase, -⟩ := writeTarget_ok hval ht
          · exact absurd (hold.trans holdInv) htwo.1
          have hrep : t.Replaces := by
            refine ⟨hold ▸ htwo.1, ?_⟩
            by_contra hn
            exact htwo.2 (hold.trans ((hcase.resolve_right hn).symm.trans (hnew hn).symm))
          have hfits := hdelete t ht hrep hok
          rw [hctx, hfl] at hfits
          exact deleteIdxNoted_wp hacc hval hsane (hold ▸ hlt) (hold ▸ hfits)
        · exact (wp_pure ()).mpr hsane
    exact wp_bind.mpr (wp_post hwrite fun r _ _ hs' => by
      cases r with
      | ok _ => exact (wp_pure _).mpr hs'
      | error _ => exact hs')
  | delete fid =>
    have hdelete : (fileDeleteNoted cfg fid).wp cfg.eraseVal (fun _ o => InBlock cfg o) s fl
        fun _ s' _ => Sane cfg s' := by
      have hfind : (mblockFindFileMeta cfg (fun f => f.id == fid) cfg.maxNumFiles 0).Query
          cfg.eraseVal (fun _ o => InBlock cfg o) s.1 fl _ :=
        findFileMeta_query allowsReads_inBlock hacc (h.placed.active_lt hacc) _ (Nat.zero_add _).le
      unfold fileDeleteNoted flashFsMblockGetFileIdx
      refine silent_query_bind hfind.failAs (fun d hd => ?_) fun _ _ => h
      have hfound := ok_of_mapError hd
      exact deleteIdxNoted_wp hacc hval h ((findFile_ok hval hfound).1.trans_eq (Nat.zero_add _))
        (hfit d hfound)
    exact wp_bind.mpr (wp_post hdelete fun r _ _ hs' => by
      cases r with
      | ok _ => exact (wp_pure _).mpr hs'
      | error _ => exact hs')
  | read fid size offset => exact fileReadNoted_wp hacc hval h hfit

/-- A call on entries that fit together is safe, and leaves the scratch blocks in the area. -/
theorem FileCall.Fits.safe (hc : c.Placed cfg) {f : FileCall} (hfit : f.Fits cfg c fl) :
    f.Safe cfg c fl ∧ ((f.exec cfg).run cfg.eraseVal c fl).ctx.Placed cfg := by
  have h : Sane cfg (c, ([] : List Calc)) := ⟨hc, .nil⟩
  have hnotes : Notes (f.noted cfg) (f.exec cfg) := f.noted_notes
  obtain ⟨hin, hsane⟩ := wp_iff.mp (FileCall.noted_wp hacc hval h hfit)
  rw [hnotes.trace_eq] at hin
  refine ⟨⟨hin, hsane.exact⟩, ?_⟩
  have hrun : (f.exec cfg).run cfg.eraseVal c fl = _ := hnotes.run_eq cfg.eraseVal (c, []) fl
  rw [hrun]
  exact hsane.placed

end

/-! ## Mounting -/

/-- The scratch data block of a header is a dedicated block, when there is one. -/
def Dedicated (cfg : Config) (hMeta : MetadataBlockHeader) : Prop :=
  cfg.numBlocks ≠ 2 → metadataBlock1 < hMeta.scratchDblock ∧ hMeta.scratchDblock < cfg.numBlocks

theorem readBlock_placed (hval : cfg.validateMetadata = true) (l : Nat) :
    (flashFsMblockReadBlockMetadata cfg l).Within (fun _ => True) c fun r c' =>
      c' = c ∧ ∀ m, r = .ok m → m.Placed cfg := by
  unfold flashFsMblockReadBlockMetadata
  refine get_bind_within (issue_bind_within trivial fun bs _ => ?_)
  dsimp only
  rw [if_pos hval]
  cases hv : mblockValidateBlockMeta cfg (.decode bs) with
  | error e => exact within_fail ⟨rfl, fun _ => of_error_eq_ok⟩
  | ok _ =>
    refine within_pure ⟨rfl, fun m hm => ?_⟩
    cases hm
    exact mblockCheckBlockMeta_placed hv

theorem compactBlockStage_placed (hval : cfg.validateMetadata = true) (hc : c.Placed cfg)
    (l freeSize srcOffset dstOffset size : Nat) :
    (compactBlockStage cfg l freeSize srcOffset dstOffset size).Within (fun _ => True) c
      fun _ c' => c'.Placed cfg := by
  unfold compactBlockStage
  refine Within.bind (readBlock_placed hval l) ?_ fun e c' hr => hr.1 ▸ hc
  rintro m c ⟨rfl, hm⟩
  have hphy := hc.withScratch (hm m rfl).phyId_lt l
  refine curDataScratchId_bind_within ?_
  have hend : ∀ blockMeta : BlockMeta, (compactBlockFinish cfg l m.phyId (c.scratchId l)
      blockMeta).Within (fun _ => True) c fun _ c' => c'.Placed cfg := by
    intro blockMeta
    refine setDataScratch_bind_within ?_
    refine Stays.bind (updateScratchBlockMeta_steady _ _).stays.attempt (fun r => ?_) fun _ => hphy
    cases r with
    | ok _ => exact within_pure hphy
    | error e =>
      -- the context gets its scratch block back
      refine setDataScratch_bind_within ?_
      rw [Ctx.withScratch_restore]
      exact within_fail hc
  dsimp only
  split_ifs
  · exact Stays.bind (blockToBlockMove_steady _ _ _ _ _).failAs.stays (fun _ => Stays.bind
      (blockToBlockMove_steady _ _ _ _ _).failAs.stays (fun _ => hend _) fun _ => hc) fun _ => hc
  · exact Stays.bind (blockToBlockMove_steady _ _ _ _ _).failAs.stays (fun _ => hend _) fun _ => hc
  · exact Stays.bind (blockToBlockMove_steady _ _ _ _ _).failAs.stays (fun _ => hend _) fun _ => hc
  · exact hend _

/-- A deletion keeps the scratch blocks in the area, whatever the tables hold. -/
theorem deleteIdx_placed (hacc : cfg.Accepted) (hval : cfg.validateMetadata = true)
    (hc : c.Placed cfg) (d : Nat) :
    (flashFsDeleteIdx cfg d).Within (fun _ => True) c fun _ c' => c'.Placed cfg := by
  have hstage : (deleteIdxStage cfg d).Within (fun _ => True) c fun _ c' => c'.Placed cfg := by
    unfold deleteIdxStage
    refine Stays.bind (readFileMeta_steady d).stays (fun f => ?_) fun _ => hc
    refine Stays.bind (steady_ofExcept _).failAs.stays (fun _ => ?_) fun _ => hc
    refine Stays.bind (updateScratchFileMeta_steady _ _).stays (fun _ => ?_) fun _ => hc
    refine Stays.bind (deleteIdxLoop_steady _ _ _ _ _ _ _).stays (fun scan => ?_) fun _ => hc
    exact (compactBlockStage_placed hval hc _ _ _ _ _).bind (fun _ _ h => within_pure h)
      fun _ _ => id
  rw [deleteIdx_eq]
  refine hstage.bind (fun x c₁ h₁ => ?_) fun _ _ => id
  refine Stays.bind (deleteIdxComplete_steady x).stays (fun _ => ?_) fun _ => h₁
  exact Prog.Within.mono (metaUpdateFinalize_within hacc h₁ hval) (fun _ _ => trivial) fun _ => id

theorem upgrade_placed (hacc : cfg.Accepted) (hval : cfg.validateMetadata = true)
    (hc : c.Placed cfg) :
    (mblockUpgradeMetaHeader cfg).Within (fun _ => True) c fun _ c' => c'.Placed cfg := by
  unfold mblockUpgradeMetaHeader
  refine get_bind_within (Stays.bind (within_ofExcept rfl) (fun compat => ?_) fun _ => hc)
  cases compat with
  | false => exact within_pure hc
  | true =>
    have hread : (flashFsMblockReadBlockMetadataComp cfg logicalDblock0).Steady c :=
      steady_get.bind fun _ => (steady_issue _ _).bind fun _ => (steady_ofExcept _).bind fun _ =>
        steady_pure _
    refine Stays.bind hread.stays (fun _ => ?_) fun _ => hc
    refine Stays.bind (blockToBlockMove_steady _ _ _ _ _).stays (fun _ => ?_) fun _ => hc
    refine modify_bind_within_of (P := Ctx.Placed cfg) (hc.header rfl) fun c₁ h₁ => ?_
    exact Prog.Within.mono (metaUpdateFinalize_within hacc h₁ hval) (fun _ _ => trivial) fun _ => id

/-- After a mount that succeeds, the scratch blocks lie in the area. -/
theorem prepare_placed (hacc : cfg.Accepted) (hval : cfg.validateMetadata = true) {a : Nat}
    (hsel : selectActive cfg fl = .ok a) (hded : Dedicated cfg (image cfg fl a).header) (c₀ : Ctx) :
    ((flashFsPrepare cfg).run cfg.eraseVal c₀ fl).ctx.Placed cfg := by
  obtain ⟨hle, -⟩ := selectActive_readHeader hsel
  have hc : (mountedCtx cfg a fl).Placed cfg := ⟨hle, rfl, fun h2 => (hded h2).2⟩
  have hw : (mblockUpgradeMetaHeader cfg >>= fun _ => deleteMarked cfg).Within (fun _ => True)
      (mountedCtx cfg a fl) fun _ c' => c'.Placed cfg := by
    refine (upgrade_placed hacc hval hc).bind (fun _ c₁ h₁ => ?_) fun _ _ => id
    unfold deleteMarked flashFsMblockGetFileIdxFlag
    have hfind : (mblockFindFileMeta cfg (fun f => f.flags &&& flagDelete != 0) cfg.maxNumFiles
        0).Stays (fun _ => True) c₁ := GivesUp.within (findFileMeta_givesUp _ _ _)
    refine Stays.bind hfind.attempt (fun r => ?_) fun _ => h₁
    cases r with
    | ok d => exact deleteIdx_placed hacc hval h₁ d
    | error e => cases e <;> first | exact within_pure h₁ | exact within_fail h₁
  rw [prepare_run hacc hsel c₀]
  exact (wp_iff.mp (hw.wp cfg.eraseVal _)).2

/-! ## Runs of calls -/

/-- The state that a call leaves. -/
def FileCall.after (cfg : Config) (f : FileCall) (s : Ctx × Flash) : Ctx × Flash :=
  (((f.exec cfg).run cfg.eraseVal s.1 s.2).ctx, ((f.exec cfg).run cfg.eraseVal s.1 s.2).flash)

/-- Every call of a run satisfies `P` in the state before it. -/
def EachCall (cfg : Config) (P : FileCall → Ctx → Flash → Prop) :
    List FileCall → Ctx × Flash → Prop
  | [], _ => True
  | f :: fs, s => P f s.1 s.2 ∧ EachCall cfg P fs (f.after cfg s)

/-- The state that a mount leaves. -/
def prepared (cfg : Config) (c₀ : Ctx) (fl : Flash) : Ctx × Flash :=
  (((flashFsPrepare cfg).run cfg.eraseVal c₀ fl).ctx,
    ((flashFsPrepare cfg).run cfg.eraseVal c₀ fl).flash)

theorem EachCall.safe (hacc : cfg.Accepted) (hval : cfg.validateMetadata = true)
    {fs : List FileCall} : ∀ {s : Ctx × Flash}, s.1.Placed cfg →
    EachCall cfg (FileCall.Fits cfg) fs s → EachCall cfg (FileCall.Safe cfg) fs s := by
  induction fs with
  | nil => exact fun _ h => h
  | cons f fs ih =>
    intro s hc h
    obtain ⟨hsafe, hc'⟩ := FileCall.Fits.safe hacc hval hc h.1
    exact ⟨hsafe, ih hc' h.2⟩

def checkedBlocks : Config := { fiveBlocks with validateMetadata := true }

theorem checkedBlocks_accepted : checkedBlocks.Accepted := rfl

/-- A formatted flash whose file table is replaced, under a header with the right XOR. -/
def withFiles (f₀ f₁ f₂ : FileMeta) : Flash :=
  let fl := (((formatted checkedBlocks).flash.write 1 44 f₀.encode).write 1 76 f₁.encode).write 1
    108 f₂.encode
  fl.write 1 0 (MetadataBlockHeader.encode
    { (image checkedBlocks fl 1).header with metadataXor := metadataXor checkedBlocks fl 1 })

/-- Two files in the first block, the second right behind the first. -/
def packedFiles : Flash := withFiles ⟨0, 140, 4, 4, 0, 1⟩ ⟨0, 144, 8, 8, 0, 2⟩ FileMeta.zero

/-- Two files behind the first one share the end of the block. -/
def overlapping : Flash :=
  withFiles ⟨0, 140, 4, 4, 0, 1⟩ ⟨0, 148, 12, 12, 0, 2⟩ ⟨0, 148, 12, 12, 0, 3⟩

end Etss
