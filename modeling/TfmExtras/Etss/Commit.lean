import TfmExtras.Etss.Header

/-! The commit of an update: writing the next header to the scratch metadata block, and erasing
the blocks that the update has replaced. -/

namespace Etss
open NorFlash NorFlash.Flash FlashM

variable {cfg : Config} {a s : Nat} {strict : Prop} {c : Ctx} {fl fl₀ flS : Flash}
  {hdr : MetadataBlockHeader}

/-- The swap count of the next update; the erase value is passed over. -/
def nextSwapCount (cfg : Config) (swapCount : UInt8) : UInt8 :=
  if swapCount + 1 = cfg.eraseVal then swapCount + 1 + 1 else swapCount + 1

theorem nextSwapCount_ne (cfg : Config) (x : UInt8) : nextSwapCount cfg x ≠ cfg.eraseVal := by
  have hsucc : ∀ y : UInt8, y + 1 ≠ y := by
    intro y he
    have ht := congrArg UInt8.toNat he
    rw [UInt8.toNat_add] at ht
    have hlt := y.toNat_lt
    simp only [UInt8.reduceToNat] at ht
    omega
  unfold nextSwapCount
  split_ifs with h
  · exact h ▸ hsucc (x + 1)
  · exact h

/-- The XOR that the next header carries. -/
def commitXor (cfg : Config) (fl : Flash) (s : Nat) : UInt8 :=
  if cfg.validateMetadata then metadataXor cfg fl s else 0

/-- The header that commits an update, when the context holds `hdr`. -/
def nextHeader (cfg : Config) (fl : Flash) (s : Nat) (hdr : MetadataBlockHeader) :
    MetadataBlockHeader :=
  { hdr with
    activeSwapCount := nextSwapCount cfg hdr.activeSwapCount, metadataXor := commitXor cfg fl s }

/-- The flash once the header is written: from here on the update is in force. -/
def headerWritten (fl : Flash) (s : Nat) (hdr : MetadataBlockHeader) : Flash :=
  fl.write s 0 hdr.encode

/-- The flash once the replaced blocks are erased. -/
def committed (cfg : Config) (fl : Flash) (a s : Nat) (hdr : MetadataBlockHeader) : Flash :=
  if cfg.numBlocks > 2 then ((headerWritten fl s hdr).erase a).erase hdr.scratchDblock
  else (headerWritten fl s hdr).erase a

/-- The operations that commit the update staged in `flS`. -/
inductive CommitOp (cfg : Config) (a s : Nat) (hdr : MetadataBlockHeader) (flS : Flash) :
    Prog.Guard
  | header : CommitOp cfg a s hdr flS flS (.write s 0 hdr.encode)
  | flush : CommitOp cfg a s hdr flS (headerWritten flS s hdr) (.flush s)
  | eraseOld : CommitOp cfg a s hdr flS (headerWritten flS s hdr) (.erase a)
  | eraseScratch (h : cfg.numBlocks > 2) :
    CommitOp cfg a s hdr flS ((headerWritten flS s hdr).erase a) (.erase hdr.scratchDblock)

theorem eraseScratchBlocks_ok {G : Prog.Guard} (h₁ : G fl (.erase c.scratchMetablock))
    (h₂ : cfg.numBlocks > 2 →
      G (fl.erase c.scratchMetablock) (.erase c.metaBlockHeader.scratchDblock)) :
    (mblockEraseScratchBlocks cfg).Ok cfg.eraseVal G c fl fun _ c' fl' => c' = c ∧
      fl' = if cfg.numBlocks > 2 then
        (fl.erase c.scratchMetablock).erase c.metaBlockHeader.scratchDblock
      else fl.erase c.scratchMetablock := by
  unfold mblockEraseScratchBlocks
  refine query_get.seq_wp ?_
  refine Ok.bind (ok_issue (R := fun _ c' fl' => c' = c ∧ fl' = fl.erase c.scratchMetablock)
    h₁ ⟨rfl, rfl⟩) ?_
  rintro _ c _ ⟨rfl, rfl⟩
  split_ifs with h2
  · refine Query.seq_wp (a := c.metaBlockHeader.scratchDblock) (query_get.seq (query_pure _)) ?_
    refine Ok.bind (ok_issue (R := fun _ c' fl' => c' = c ∧
      fl' = (fl.erase c.scratchMetablock).erase c.metaBlockHeader.scratchDblock) (h₂ h2)
      ⟨rfl, rfl⟩) ?_
    rintro _ c _ ⟨rfl, rfl⟩
    exact ok_pure ⟨rfl, rfl⟩
  · exact ok_pure ⟨rfl, rfl⟩

theorem commitXor_bind {α : Type} {G : Prog.Guard} {Q : Post Ctx Status α} {k : UInt8 → FsM α}
    (hG : AllowsReads cfg G) (hacc : cfg.Accepted) (hs : s ≤ 1)
    (hk : (k (commitXor cfg fl s)).wp cfg.eraseVal G c fl Q) :
    (if cfg.validateMetadata = true then mblockCalculateMetadataXor cfg s >>= k
      else pure 0 >>= k).wp cfg.eraseVal G c fl Q := by
  unfold commitXor at hk
  split_ifs at hk ⊢
  · exact (calculateMetadataXor_query hG hacc hs).seq_wp hk
  · exact (query_pure _).seq_wp hk

/-- The next swap count is set in two steps. -/
theorem nextSwapCount_steps (cfg : Config) (c : Ctx) :
    (match mblockValidateSwapCount cfg (c.metaBlockHeader.activeSwapCount + 1) with
      | .ok () => { c with metaBlockHeader := { c.metaBlockHeader with
          activeSwapCount := c.metaBlockHeader.activeSwapCount + 1 } }
      | .error _ => { c with metaBlockHeader := { c.metaBlockHeader with
          activeSwapCount := c.metaBlockHeader.activeSwapCount + 1 + 1 } } : Ctx) =
      { c with metaBlockHeader := { c.metaBlockHeader with
        activeSwapCount := nextSwapCount cfg c.metaBlockHeader.activeSwapCount } } := by
  unfold mblockValidateSwapCount nextSwapCount
  split_ifs <;> rfl

theorem writeScratchMetaHeader_ok {G : Prog.Guard} (hG : AllowsReads cfg G) (hacc : cfg.Accepted)
    (hs : c.scratchMetablock ≤ 1)
    (hw : G fl (.write c.scratchMetablock 0
      (nextHeader cfg fl c.scratchMetablock c.metaBlockHeader).encode)) :
    (mblockWriteScratchMetaHeader cfg).Ok cfg.eraseVal G c fl fun _ c' fl' =>
      c' = { c with metaBlockHeader := nextHeader cfg fl c.scratchMetablock c.metaBlockHeader } ∧
      fl' = headerWritten fl c.scratchMetablock
        (nextHeader cfg fl c.scratchMetablock c.metaBlockHeader) := by
  unfold mblockWriteScratchMetaHeader
  refine modify_bind_wp rfl (modify_bind_wp (nextSwapCount_steps cfg c) ?_)
  · refine query_get.seq_wp (commitXor_bind hG hacc hs ?_)
    refine modify_bind_wp rfl (query_get.seq_wp ?_)
    refine Ok.bind (ok_issue (R := fun _ c' fl' =>
      c' = { c with metaBlockHeader := nextHeader cfg fl c.scratchMetablock c.metaBlockHeader } ∧
      fl' = headerWritten fl c.scratchMetablock
        (nextHeader cfg fl c.scratchMetablock c.metaBlockHeader)) hw ⟨rfl, rfl⟩) ?_
    rintro _ c' fl' h
    exact ok_pure h

/-! ## The steps of a commit -/

/-- The next header is written and flushed. -/
def commitHeader (cfg : Config) : FsM (List UInt8) := do
  mblockWriteScratchMetaHeader cfg
  let c ← get
  opsFlush c.scratchMetablock

/-- The metadata blocks change places, and the old one is erased. -/
def commitEraseMeta : FsM (List UInt8) := do
  mblockSwapMetablocks
  let c ← get
  opsErase c.scratchMetablock

/-- The old data block is erased. -/
def commitEraseData (cfg : Config) : FsM Unit :=
  if cfg.numBlocks > 2 then do
    let scratchDatablock ← flashFsMblockCurDataScratchId (logicalDblock0 + 1)
    let _ ← opsErase scratchDatablock
    pure ()
  else pure ()

theorem metaUpdateFinalize_eq (cfg : Config) : flashFsMblockMetaUpdateFinalize cfg =
    commitHeader cfg >>= fun _ => commitEraseMeta >>= fun _ => commitEraseData cfg := by
  unfold flashFsMblockMetaUpdateFinalize commitHeader commitEraseMeta commitEraseData
    mblockEraseScratchBlocks
  simp only [bind_assoc]

theorem commitHeader_ok {G : Prog.Guard} (hG : AllowsReads cfg G) (hacc : cfg.Accepted)
    (hs : c.scratchMetablock ≤ 1)
    (hhdr : nextHeader cfg fl c.scratchMetablock c.metaBlockHeader = hdr)
    (hw : G fl (.write c.scratchMetablock 0 hdr.encode))
    (hf : G (headerWritten fl c.scratchMetablock hdr) (.flush c.scratchMetablock)) :
    (commitHeader cfg).Ok cfg.eraseVal G c fl fun _ c' fl' =>
      c' = { c with metaBlockHeader := hdr } ∧ fl' = headerWritten fl c.scratchMetablock hdr := by
  subst hhdr
  unfold commitHeader
  refine (writeScratchMetaHeader_ok hG hacc hs hw).bind ?_
  rintro _ _ _ ⟨rfl, rfl⟩
  exact query_get.seq_wp (ok_issue hf ⟨rfl, rfl⟩)

/-- A finished update: the next header is in force, and both scratch blocks are erased. -/
theorem metaUpdateFinalize_ok {G : Prog.Guard} (hG : AllowsReads cfg G) (hacc : cfg.Accepted)
    (hs : c.scratchMetablock ≤ 1) (hhdr : nextHeader cfg fl c.scratchMetablock c.metaBlockHeader = hdr)
    (hC : ∀ fl' o, CommitOp cfg c.activeMetablock c.scratchMetablock hdr fl fl' o → G fl' o) :
    (flashFsMblockMetaUpdateFinalize cfg).Ok cfg.eraseVal G c fl fun _ c' fl' =>
      c' = ⟨hdr, c.scratchMetablock, c.activeMetablock⟩ ∧
      fl' = committed cfg fl c.activeMetablock c.scratchMetablock hdr := by
  have he : flashFsMblockMetaUpdateFinalize cfg =
      commitHeader cfg >>= fun _ => mblockSwapMetablocks >>= fun _ => mblockEraseScratchBlocks cfg := by
    unfold flashFsMblockMetaUpdateFinalize commitHeader
    simp only [bind_assoc]
  rw [he]
  refine (commitHeader_ok hG hacc hs hhdr (hC _ _ .header) (hC _ _ .flush)).bind ?_
  rintro _ _ _ ⟨rfl, rfl⟩
  refine modify_bind_wp rfl ?_
  exact eraseScratchBlocks_ok (hC _ _ .eraseOld) fun h => hC _ _ (.eraseScratch h)

end Etss
