import TfmExtras.Etss.StageMeta

/-! The data of the next state: what the functions that move and write file data leave in the
scratch blocks. -/

namespace Etss
open NorFlash NorFlash.Flash FlashM

variable {cfg : Config} {s a : Nat} {strict : Prop} {c : Ctx} {fl fl₀ : Flash}

/-- The block that the next contents of a logical block are built in. -/
def stageBlock (s : Nat) (st : Image) (lblock : Nat) : Nat :=
  if lblock = 0 then s else st.header.scratchDblock

/-- The cells that the next contents of a logical block may take. -/
def dataRange (cfg : Config) (s : Nat) (st : Image) (lblock : Nat) : Region :=
  range (stageBlock s st lblock) (st.blocks lblock).dataStart cfg.blockSize

theorem numBlocks_ne_two (hacc : cfg.Accepted) {l : Nat} (h0 : l ≠ 0)
    (hl : l < numActiveDblocks cfg) : cfg.numBlocks ≠ 2 := by
  intro h2
  have hn := hacc.numActive_eq
  rw [if_pos h2] at hn
  omega

theorem metaEnd_ge (cfg : Config) : 8 ≤ cfg.metaEnd := by
  unfold Config.metaEnd Config.fileEntry Config.filesStart
  omega

namespace Ready
variable (h : Ready cfg fl₀ a s c fl)
include h

/-- The next contents are never built in a block that is in use. -/
theorem stageBlock_ne {l : Nat} (l' : Nat) (hl : l < numActiveDblocks cfg)
    (hl' : l' < numActiveDblocks cfg) :
    stageBlock s (image cfg fl₀ a) l' ≠ ((image cfg fl₀ a).blocks l).phyId := by
  unfold stageBlock
  split_ifs with h0
  · exact (h.wf.phyId_ne h.s_le h.ne hl).symm
  · exact (h.wf.phyId_ne_scratch h.a_le hl (numBlocks_ne_two h.accepted h0 hl')).symm

theorem dataStart_eq {l : Nat} (hl : l < numActiveDblocks cfg) :
    ((image cfg fl₀ a).blocks l).dataStart = if l = 0 then cfg.metaEnd else 0 := by
  split_ifs with h0
  · rw [h0, h.wf.lb0.2]
  · exact (h.wf.dedicated l (Nat.pos_of_ne_zero h0) hl).2.2.2

theorem mayWriteData {l off n : Nat} (hl : l < numActiveDblocks cfg)
    (hlo : ((image cfg fl₀ a).blocks l).dataStart ≤ off) (hle : off + n ≤ cfg.blockSize)
    (hal : cfg.Aligned → cfg.programUnit ∣ off ∧ cfg.programUnit ∣ n)
    (hc : strict → Clean (range (stageBlock s (image cfg fl₀ a) l) off (off + n)) fl) :
    MayWrite cfg s (image cfg fl₀ a).header.scratchDblock strict fl
      (stageBlock s (image cfg fl₀ a) l) off n := by
  unfold stageBlock at hc ⊢
  split_ifs at hc ⊢ with h0
  · rw [h.dataStart_eq hl, if_pos h0] at hlo
    exact h.mayWrite ((metaEnd_ge cfg).trans hlo) hle hal hc
  · have h2 := numBlocks_ne_two h.accepted h0 hl
    exact ⟨.inr ⟨h2, rfl⟩, (h.wf.scratch h2).2, hle, hal, hc⟩

theorem dataRange_stageRegion {l : Nat} (hl : l < numActiveDblocks cfg) (b o : Nat)
    (hw : dataRange cfg s (image cfg fl₀ a) l b o) :
    stageRegion cfg s (image cfg fl₀ a).header.scratchDblock b o := by
  obtain ⟨rfl, hlo, _⟩ := hw
  have hd := h.dataStart_eq hl
  unfold stageBlock
  split_ifs with h0
  · rw [if_pos h0] at hd
    exact .inl ⟨rfl, by have := metaEnd_ge cfg; unfold blockMetaHeaderSize; omega⟩
  · exact .inr ⟨numBlocks_ne_two h.accepted h0 hl, rfl⟩

/-- The data of a block never meets the metadata in the scratch metadata block. -/
theorem dataRange_apart {l lo hi : Nat} (hl : l < numActiveDblocks cfg) (hhi : hi ≤ cfg.metaEnd)
    (b o : Nat) (hw : range s lo hi b o) : ¬ dataRange cfg s (image cfg fl₀ a) l b o := by
  rintro ⟨hb, hlo, _⟩
  obtain ⟨rfl, _, hlt⟩ := hw
  have hd := h.dataStart_eq hl
  unfold stageBlock at hb
  split_ifs at hb hd with h0
  · omega
  · have := (h.wf.scratch (numBlocks_ne_two h.accepted h0 hl)).1
    have := h.s_le
    omega

theorem next_dataRange {c' : Ctx} {fl' : Flash} {l : Nat} (hl : l < numActiveDblocks cfg)
    (ha : c'.activeMetablock = c.activeMetablock) (hs : c'.scratchMetablock = c.scratchMetablock)
    (hf : OnlyIn (dataRange cfg s (image cfg fl₀ a) l) fl fl') : Ready cfg fl₀ a s c' fl' :=
  h.next ha hs (hf.mono fun b o hw => h.dataRange_stageRegion hl b o hw)

theorem moveData_ok {l : Nat} (dstOffset srcOffset n : Nat) (hl : l < numActiveDblocks cfg)
    (hlo : ((image cfg fl₀ a).blocks l).dataStart ≤ dstOffset)
    (hd : dstOffset + n ≤ cfg.blockSize) (hsrc : srcOffset + n ≤ cfg.blockSize)
    (hal : cfg.Aligned → cfg.programUnit ∣ dstOffset ∧ cfg.programUnit ∣ n)
    (hc : strict → Clean
      (range (stageBlock s (image cfg fl₀ a) l) dstOffset (dstOffset + n)) fl) :
    (flashFsBlockToBlockMove (stageBlock s (image cfg fl₀ a) l) dstOffset
        ((image cfg fl₀ a).blocks l).phyId srcOffset n).Ok cfg.eraseVal
      (StageOp cfg s (image cfg fl₀ a).header.scratchDblock strict) c fl fun _ c' fl' => c' = c ∧
        OnlyIn (range (stageBlock s (image cfg fl₀ a) l) dstOffset (dstOffset + n)) fl fl' ∧
        ∀ i < n, fl'.byte cfg.eraseVal (stageBlock s (image cfg fl₀ a) l) (dstOffset + i) =
          (image cfg fl₀ a).data l (srcOffset + i) := by
  refine (blockToBlockMove_ok (h.mayWriteData hl hlo hd hal hc) (h.stageBlock_ne l hl hl)
    (h.wf.phyId_lt h.accepted h.a_le hl) hsrc).mono ?_
  rintro _ _ fl' ⟨rfl, hm⟩
  exact ⟨rfl, hm.only, fun i hi => (hm.same i hi).trans (h.byte_eq hl _)⟩

theorem migrateLb0_ok (hc : Clean (range s cfg.metaEnd cfg.blockSize) fl) :
    (flashFsMblockMigrateLb0DataToScratch cfg).Ok cfg.eraseVal
      (StageOp cfg s (image cfg fl₀ a).header.scratchDblock strict) c fl fun _ c' fl' => c' = c ∧
        OnlyIn (range s cfg.metaEnd cfg.blockSize) fl fl' ∧
        (∀ o, cfg.metaEnd ≤ o → o < (image cfg fl₀ a).dataEnd cfg 0 →
          fl'.byte cfg.eraseVal s o = (image cfg fl₀ a).data 0 o) ∧
        ∀ o, (image cfg fl₀ a).dataEnd cfg 0 ≤ o → o < cfg.blockSize →
          fl'.byte cfg.eraseVal s o = cfg.eraseVal := by
  have hpos := h.accepted.numActive_pos
  have hfree := h.wf.freeSize_le 0 hpos
  have hbs := cfg.blockSize_lt
  obtain ⟨hphy, hstart⟩ := h.wf.lb0
  rw [hstart] at hfree
  unfold flashFsMblockMigrateLb0DataToScratch
  refine (h.readBlock allowsReads_stageOp hpos).seq_wp (query_get.seq_wp ?_)
  set n := cfg.blockSize - cfg.metaEnd - ((image cfg fl₀ a).blocks 0).freeSize with hn
  have hsize : sub32 (sub32 cfg.blockSize cfg.metaEnd) ((image cfg fl₀ a).blocks 0).freeSize = n := by
    rw [sub32_eq hbs (by omega), sub32_eq (by omega) (by omega)]
  have hm : (flashFsBlockToBlockMove s cfg.metaEnd ((image cfg fl₀ a).blocks 0).phyId cfg.metaEnd
      n).Ok cfg.eraseVal (StageOp cfg s (image cfg fl₀ a).header.scratchDblock strict) c fl
        fun _ c' fl' => c' = c ∧ OnlyIn (range s cfg.metaEnd (cfg.metaEnd + n)) fl fl' ∧
          ∀ i < n, fl'.byte cfg.eraseVal s (cfg.metaEnd + i) =
            (image cfg fl₀ a).data 0 (cfg.metaEnd + i) :=
    h.moveData_ok cfg.metaEnd cfg.metaEnd n hpos hstart.le (by omega) (by omega)
      (fun ha => ⟨ha.fileEntry _, Nat.dvd_sub (Nat.dvd_sub ha.2.2.2.1 (ha.fileEntry _))
        ((h.wf.aligned ha).1 0 hpos)⟩)
      (fun _ => hc.mono fun b o hw => ⟨hw.1, hw.2.1, by have := hw.2.2; omega⟩)
  rw [hphy] at hm
  simp only [hstart, hsize, h.scratch, h.active]
  refine hm.mono ?_
  rintro _ _ fl' ⟨rfl, hf, hb⟩
  unfold Image.dataEnd
  refine ⟨rfl, hf.mono fun b o hw => ⟨hw.1, hw.2.1, by have := hw.2.2; omega⟩, fun o h₁ h₂ => ?_,
    fun o h₁ h₂ => ?_⟩
  · have hbo := hb (o - cfg.metaEnd) (by omega)
    rwa [Nat.add_sub_cancel' h₁] at hbo
  · rw [hf.byte fun hw => by have := hw.2.2; omega]
    exact hc.byte ⟨rfl, by omega, h₂⟩

theorem curDataScratchId_query {G : Prog.Guard} (l : Nat)
    (hsc : c.metaBlockHeader.scratchDblock = (image cfg fl₀ a).header.scratchDblock) :
    (flashFsMblockCurDataScratchId l).Query cfg.eraseVal G c fl
      (.ok (stageBlock s (image cfg fl₀ a) l)) := by
  have he : (if l = logicalDblock0 then c.scratchMetablock else c.metaBlockHeader.scratchDblock) =
      stageBlock s (image cfg fl₀ a) l := by
    rw [h.scratch, hsc]
    rfl
  exact query_get.seq (he ▸ query_pure _)

end Ready

/-- The context after `flashFsMblockSetDataScratch`. -/
def Ctx.withScratch (c : Ctx) (lblock phyId : Nat) : Ctx :=
  if lblock = 0 then c
  else { c with metaBlockHeader := { c.metaBlockHeader with scratchDblock := phyId } }

@[simp] theorem Ctx.withScratch_active (c : Ctx) (lblock phyId : Nat) :
    (c.withScratch lblock phyId).activeMetablock = c.activeMetablock := by
  unfold withScratch
  split_ifs <;> rfl

@[simp] theorem Ctx.withScratch_scratch (c : Ctx) (lblock phyId : Nat) :
    (c.withScratch lblock phyId).scratchMetablock = c.scratchMetablock := by
  unfold withScratch
  split_ifs <;> rfl

theorem setDataScratch_ok {G : Prog.Guard} (phyId lblock : Nat) :
    (flashFsMblockSetDataScratch phyId lblock).Ok cfg.eraseVal G c fl fun _ c' fl' =>
      c' = c.withScratch lblock phyId ∧ fl' = fl := by
  unfold flashFsMblockSetDataScratch
  by_cases h0 : lblock = 0
  · subst h0
    exact ok_pure ⟨rfl, rfl⟩
  · rw [if_pos (show lblock ≠ logicalDblock0 from h0)]
    exact ok_modify ⟨(if_neg h0).symm, rfl⟩

/-! ## Compacting a logical block -/

/-- What compacting leaves: the moved bytes, the bytes before them, and the new block table. The
cells behind the moved bytes are not written. -/
structure Compacted (cfg : Config) (s : Nat) (st : Image) (lblock freeSize srcOffset dstOffset
    size : Nat) (fl fl' : Flash) : Prop where
  only : OnlyIn (fun b o => dataRange cfg s st lblock b o ∨
    blockRange s 0 (numActiveDblocks cfg) b o) fl fl'
  blocks : ∀ l, l < numActiveDblocks cfg → (image cfg fl' s).blocks l =
    stagedBlock s st.blocks lblock ⟨stageBlock s st lblock, (st.blocks lblock).dataStart,
      (st.blocks lblock).freeSize + freeSize⟩ l
  moved : ∀ i < size, fl'.byte cfg.eraseVal (stageBlock s st lblock) (dstOffset + i) =
    st.data lblock (srcOffset + i)
  kept : ∀ o, (st.blocks lblock).dataStart ≤ o → o < dstOffset →
    fl'.byte cfg.eraseVal (stageBlock s st lblock) o = st.data lblock o
  rest : ∀ o, dstOffset + size ≤ o → o < cfg.blockSize →
    fl'.cell (stageBlock s st lblock) o = fl.cell (stageBlock s st lblock) o

/-- The end of compacting: the context gets the old block of the data as its scratch block, and
has it as long as the new block entry is written. -/
def compactBlockFinish (cfg : Config) (lblock phyId scratchId : Nat) (blockMeta : BlockMeta) :
    FsM Nat := do
  flashFsMblockSetDataScratch phyId lblock
  match ← (flashFsMblockUpdateScratchBlockMeta cfg lblock blockMeta).attempt with
  | .error e => do
    flashFsMblockSetDataScratch scratchId lblock
    fail e
  | .ok () => pure scratchId

/-- Compacting, up to the flush of a dedicated scratch block, whose id is returned. From here on
the context has the old block of the data as its scratch block. -/
def compactBlockStage (cfg : Config) (lblock freeSize srcOffset dstOffset size : Nat) :
    FsM Nat := do
  let blockMeta ← flashFsMblockReadBlockMetadata cfg lblock
  let blockMeta := { blockMeta with freeSize := add32 blockMeta.freeSize freeSize }
  let scratchId ← flashFsMblockCurDataScratchId lblock
  if size > 0 then
    (flashFsBlockToBlockMove scratchId dstOffset blockMeta.phyId srcOffset size).failAs
      .genericError
  else pure ()
  if dstOffset > blockMeta.dataStart then
    (flashFsBlockToBlockMove scratchId blockMeta.dataStart blockMeta.phyId blockMeta.dataStart
      (dstOffset - blockMeta.dataStart)).failAs .genericError
  else pure ()
  compactBlockFinish cfg lblock blockMeta.phyId scratchId { blockMeta with phyId := scratchId }

/-- The flush of a dedicated scratch block. -/
def flushScratch (lblock scratchId : Nat) : FsM Unit :=
  if lblock ≠ logicalDblock0 then do
    let _ ← opsFlush scratchId
    pure ()
  else pure ()

theorem compactBlock_eq (cfg : Config) (lblock freeSize srcOffset dstOffset size : Nat) :
    flashFsDblockCompactBlock cfg lblock freeSize srcOffset dstOffset size =
      compactBlockStage cfg lblock freeSize srcOffset dstOffset size >>= flushScratch lblock := by
  have hend : ∀ (scratchId : Nat) (r : Except Status Unit),
      (match r with
        | .error e => do
          flashFsMblockSetDataScratch scratchId lblock
          fail e
        | .ok () => flushScratch lblock scratchId : FsM Unit) =
      (match r with
        | .error e => do
          flashFsMblockSetDataScratch scratchId lblock
          fail e
        | .ok () => pure scratchId : FsM Nat) >>= flushScratch lblock := by
    intro scratchId r
    cases r with
    | ok _ => rfl
    | error e => exact (bind_assoc (flashFsMblockSetDataScratch scratchId lblock)
        (fun _ => (fail e : FsM Nat)) (flushScratch lblock)).symm
  unfold flashFsDblockCompactBlock compactBlockStage compactBlockFinish
  simp only [bind_assoc]
  refine bind_congr fun blockMeta => bind_congr fun scratchId => ?_
  by_cases h₁ : size > 0 <;> by_cases h₂ : dstOffset > blockMeta.dataStart <;>
    simp only [h₁, h₂, if_true, if_false, bind_assoc]
  all_goals
    repeat refine bind_congr fun _ => ?_
    exact hend scratchId _

theorem Ready.compactBlockStage_ok (h : Ready cfg fl₀ a s c fl)
    (hsc : c.metaBlockHeader.scratchDblock = (image cfg fl₀ a).header.scratchDblock)
    {lblock freeSize srcOffset dstOffset size : Nat} (hl : lblock < numActiveDblocks cfg)
    (hfree : ((image cfg fl₀ a).blocks lblock).freeSize + freeSize ≤ cfg.blockSize)
    (hdst : ((image cfg fl₀ a).blocks lblock).dataStart ≤ dstOffset)
    (hdle : dstOffset + size ≤ cfg.blockSize)
    (hsrc : 0 < size → srcOffset + size ≤ cfg.blockSize)
    (hal : cfg.Aligned → cfg.programUnit ∣ dstOffset ∧ cfg.programUnit ∣ size)
    (hcd : strict → Clean (dataRange cfg s (image cfg fl₀ a) lblock) fl)
    (hcb : strict → Clean (blockRange s 0 (numActiveDblocks cfg)) fl) :
    (compactBlockStage cfg lblock freeSize srcOffset dstOffset size).Ok cfg.eraseVal
      (StageOp cfg s (image cfg fl₀ a).header.scratchDblock strict) c fl fun scratchId c' fl' =>
        scratchId = stageBlock s (image cfg fl₀ a) lblock ∧
        c' = c.withScratch lblock ((image cfg fl₀ a).blocks lblock).phyId ∧
        Compacted cfg s (image cfg fl₀ a) lblock freeSize srcOffset dstOffset size fl fl' := by
  have hbs := cfg.blockSize_lt
  have hstart := h.dataStart_eq hl
  have hdvd : cfg.Aligned → cfg.programUnit ∣ ((image cfg fl₀ a).blocks lblock).dataStart := by
    intro ha
    rw [hstart]
    split_ifs
    · exact ha.fileEntry _
    · exact dvd_zero _
  unfold compactBlockStage
  refine (h.readBlock allowsReads_stageOp hl).seq_wp ?_
  refine (h.curDataScratchId_query lblock hsc).seq_wp ?_
  rw [add32_eq (by omega)]
  dsimp only
  set d := stageBlock s (image cfg fl₀ a) lblock with hd
  -- the files behind the hole
  refine Ok.ite_bind (R := fun _ c' fl' => c' = c ∧
      OnlyIn (range d dstOffset (dstOffset + size)) fl fl' ∧
        ∀ i < size, fl'.byte cfg.eraseVal d (dstOffset + i) =
          (image cfg fl₀ a).data lblock (srcOffset + i)) (fun hpos => ?_) (fun hn => ?_) ?_
  · exact (h.moveData_ok dstOffset srcOffset size hl hdst hdle (hsrc hpos) hal fun hs =>
      (hcd hs).mono fun b o hw => ⟨hw.1, by have := hw.2.1; omega, by have := hw.2.2; omega⟩).failAs
  · exact ⟨rfl, .refl _ _, fun i hi => absurd hi (by omega)⟩
  rintro c fl₁ ⟨rfl, hf₁, hb₁⟩
  have hr₁ : OnlyIn (dataRange cfg s (image cfg fl₀ a) lblock) fl fl₁ := hf₁.mono fun b o hw =>
    ⟨hw.1, by have := hw.2.1; omega, by have := hw.2.2; omega⟩
  have h₁ := h.next_dataRange hl rfl rfl hr₁
  -- the files before it
  refine Ok.ite_bind (R := fun _ c' fl' => c' = c ∧
      OnlyIn (range d ((image cfg fl₀ a).blocks lblock).dataStart dstOffset) fl₁ fl' ∧
        ∀ o, ((image cfg fl₀ a).blocks lblock).dataStart ≤ o → o < dstOffset →
          fl'.byte cfg.eraseVal d o = (image cfg fl₀ a).data lblock o)
    (fun hpos => ?_) (fun hn => ?_) ?_
  · have he : ((image cfg fl₀ a).blocks lblock).dataStart +
        (dstOffset - ((image cfg fl₀ a).blocks lblock).dataStart) = dstOffset := by omega
    refine Ok.failAs (Ok.mono (h₁.moveData_ok _ _ (dstOffset - _) hl le_rfl (by omega) (by omega)
      (fun ha => ⟨hdvd ha, Nat.dvd_sub (hal ha).1 (hdvd ha)⟩) fun hs => ?_) ?_)
    · refine hf₁.clean ((hcd hs).mono fun b o hw => ⟨hw.1, hw.2.1, ?_⟩) fun b o hw hw' => ?_
      · have := hw.2.2
        omega
      · have := hw.2.2
        have := hw'.2.1
        omega
    · rintro _ _ fl' ⟨rfl, hf, hb⟩
      rw [he] at hf
      refine ⟨rfl, hf, fun o ho₁ ho₂ => ?_⟩
      have hbo := hb (o - ((image cfg fl₀ a).blocks lblock).dataStart) (by omega)
      rwa [Nat.add_sub_cancel' ho₁] at hbo
  · exact ⟨rfl, .refl _ _, fun o ho₁ ho₂ => absurd ho₂ (by omega)⟩
  rintro c fl₂ ⟨rfl, hf₂, hb₂⟩
  have hr₂ : OnlyIn (dataRange cfg s (image cfg fl₀ a) lblock) fl₁ fl₂ := hf₂.mono fun b o hw =>
    ⟨hw.1, hw.2.1, by have := hw.2.2; omega⟩
  have h₂ := h₁.next_dataRange hl (Ctx.withScratch_active c lblock _)
    (Ctx.withScratch_scratch c lblock ((image cfg fl₀ a).blocks lblock).phyId) hr₂
  refine (setDataScratch_ok _ _).bind_wp ?_
  rintro _ _ fl₂ ⟨rfl, rfl⟩
  -- the block table
  have hdlt : d < 2 ^ 32 := by
    have hn := cfg.numBlocks_lt
    have hs := h.s_le
    rw [hd, stageBlock]
    split_ifs with h0
    · omega
    · have := (h.wf.scratch (numBlocks_ne_two h.accepted h0 hl)).2
      omega
  have hfl := h.wf.freeSize_le lblock hl
  have hbm : BlockMeta.InRange ⟨d, ((image cfg fl₀ a).blocks lblock).dataStart,
      ((image cfg fl₀ a).blocks lblock).freeSize + freeSize⟩ :=
    ⟨hdlt, show ((image cfg fl₀ a).blocks lblock).dataStart < 2 ^ 32 by omega,
      show ((image cfg fl₀ a).blocks lblock).freeSize + freeSize < 2 ^ 32 by omega⟩
  have hapart : ∀ b o, blockRange s 0 (numActiveDblocks cfg) b o →
      ¬ dataRange cfg s (image cfg fl₀ a) lblock b o := fun b o hw =>
    h.dataRange_apart hl (by
      unfold Config.metaEnd Config.fileEntry Config.filesStart
      omega) b o hw
  refine (Ok.attempt (h₂.updateScratchBlockMeta_ok hl hbm fun hs =>
    hr₂.clean (hr₁.clean (hcb hs) hapart) hapart)).bind_wp ?_
  rintro _ _ fl₃ ⟨⟨⟩, rfl, rfl, hf₃, hb₃⟩
  have hend : Compacted cfg s (image cfg fl₀ a) lblock freeSize srcOffset dstOffset size fl fl₃ := by
    have hbyte : ∀ o, ((image cfg fl₀ a).blocks lblock).dataStart ≤ o → o < cfg.blockSize →
        fl₃.byte cfg.eraseVal d o = fl₂.byte cfg.eraseVal d o := fun o ho₁ ho₂ =>
      hf₃.byte fun hw => hapart d o hw ⟨rfl, ho₁, ho₂⟩
    refine ⟨(hr₁.trans hr₂).union hf₃, hb₃, fun i hi => ?_, fun o ho₁ ho₂ => ?_,
      fun o ho₁ ho₂ => ?_⟩
    · rw [hbyte _ (by omega) (by omega), hf₂.byte fun hw => by have := hw.2.2; omega]
      exact hb₁ i hi
    · rw [hbyte o ho₁ (by omega)]
      exact hb₂ o ho₁ ho₂
    · rw [hf₃ d o fun hw => hapart d o hw ⟨rfl, by omega, ho₂⟩,
        hf₂ d o fun hw => by have := hw.2.2; omega, hf₁ d o fun hw => by have := hw.2.2; omega]
  exact ok_pure ⟨rfl, rfl, hend⟩

/-- Only a dedicated scratch block is flushed. -/
theorem Ready.flushScratch_ok (h : Ready cfg fl₀ a s c fl) {lblock : Nat}
    (hl : lblock < numActiveDblocks cfg) :
    (flushScratch lblock (stageBlock s (image cfg fl₀ a) lblock)).Ok cfg.eraseVal
      (StageOp cfg s (image cfg fl₀ a).header.scratchDblock strict) c fl fun _ c' fl' =>
        c' = c ∧ fl' = fl := by
  unfold flushScratch
  split_ifs with h0
  · have hdb : stageBlock s (image cfg fl₀ a) lblock < cfg.numBlocks := by
      rw [stageBlock, if_neg (show ¬ lblock = 0 from h0)]
      exact (h.wf.scratch (numBlocks_ne_two h.accepted h0 hl)).2
    refine (opsFlush_ok hdb).bind_wp ?_
    rintro _ _ _ ⟨rfl, rfl⟩
    exact ok_pure ⟨rfl, rfl⟩
  · exact ok_pure ⟨rfl, rfl⟩

/-! ## Writing the data of a file -/

/-- What writing leaves: the bytes before the write, the new bytes, and the files behind. What
lies between the new bytes and the end of the file is not copied, and stays erased. -/
structure Written (cfg : Config) (s : Nat) (st : Image) (fileMeta : FileMeta) (offset size : Nat)
    (data : Nat → UInt8) (dataEnd : Nat) (fl fl' : Flash) : Prop where
  only : OnlyIn (dataRange cfg s st fileMeta.lblock) fl fl'
  before : ∀ o, (st.blocks fileMeta.lblock).dataStart ≤ o → o < fileMeta.dataIdx + offset →
    fl'.byte cfg.eraseVal (stageBlock s st fileMeta.lblock) o = st.data fileMeta.lblock o
  new : ∀ i < size, fl'.byte cfg.eraseVal (stageBlock s st fileMeta.lblock)
    (fileMeta.dataIdx + offset + i) = data i
  gap : ∀ o, fileMeta.dataIdx + offset + size ≤ o → o < fileMeta.dataIdx + fileMeta.maxSize →
    fl'.byte cfg.eraseVal (stageBlock s st fileMeta.lblock) o = cfg.eraseVal
  behind : ∀ o, fileMeta.dataIdx + fileMeta.maxSize ≤ o → o < dataEnd →
    fl'.byte cfg.eraseVal (stageBlock s st fileMeta.lblock) o = st.data fileMeta.lblock o

theorem Ready.dblockWriteFile_ok (h : Ready cfg fl₀ a s c fl)
    (hsc : c.metaBlockHeader.scratchDblock = (image cfg fl₀ a).header.scratchDblock)
    {blockMeta : BlockMeta} {fileMeta : FileMeta} {offset size : Nat} {data : Nat → UInt8}
    (hl : fileMeta.lblock < numActiveDblocks cfg)
    (hphy : blockMeta.phyId = ((image cfg fl₀ a).blocks fileMeta.lblock).phyId)
    (hstart : blockMeta.dataStart = ((image cfg fl₀ a).blocks fileMeta.lblock).dataStart)
    (hidx : blockMeta.dataStart ≤ fileMeta.dataIdx) (hsize : offset + size ≤ fileMeta.maxSize)
    (hfree : blockMeta.freeSize ≤ cfg.blockSize)
    (hend : fileMeta.dataIdx + fileMeta.maxSize ≤ cfg.blockSize - blockMeta.freeSize)
    (hal : cfg.Aligned → cfg.programUnit ∣ fileMeta.dataIdx ∧ cfg.programUnit ∣ offset ∧
      cfg.programUnit ∣ size ∧ cfg.programUnit ∣ fileMeta.maxSize ∧
      cfg.programUnit ∣ blockMeta.freeSize)
    (hc : Clean (dataRange cfg s (image cfg fl₀ a) fileMeta.lblock) fl) :
    (flashFsDblockWriteFile cfg blockMeta fileMeta offset size data).Ok cfg.eraseVal
      (StageOp cfg s (image cfg fl₀ a).header.scratchDblock strict) c fl fun _ c' fl' => c' = c ∧
        Written cfg s (image cfg fl₀ a) fileMeta offset size data
          (cfg.blockSize - blockMeta.freeSize) fl fl' := by
  have hbs := cfg.blockSize_lt
  have hdvd : cfg.Aligned → cfg.programUnit ∣ blockMeta.dataStart := by
    intro ha
    rw [hstart, h.dataStart_eq hl]
    split_ifs
    · exact ha.fileEntry _
    · exact dvd_zero _
  unfold flashFsDblockWriteFile
  refine (h.curDataScratchId_query fileMeta.lblock hsc).seq_wp ?_
  have hpos : add32 fileMeta.dataIdx offset = fileMeta.dataIdx + offset := add32_eq (by omega)
  have hfend : add32 fileMeta.dataIdx fileMeta.maxSize = fileMeta.dataIdx + fileMeta.maxSize :=
    add32_eq (by omega)
  have hbefore : sub32 (fileMeta.dataIdx + offset) blockMeta.dataStart =
      fileMeta.dataIdx + offset - blockMeta.dataStart := sub32_eq (by omega) (by omega)
  have hused : sub32 cfg.blockSize blockMeta.freeSize = cfg.blockSize - blockMeta.freeSize :=
    sub32_eq hbs hfree
  have hbehind : sub32 (cfg.blockSize - blockMeta.freeSize)
      (fileMeta.dataIdx + fileMeta.maxSize) = cfg.blockSize - blockMeta.freeSize -
        (fileMeta.dataIdx + fileMeta.maxSize) := sub32_eq (by omega) hend
  simp only [hphy, hpos, hfend, hbefore, hused, hbehind]
  clear hpos hfend hbefore hused hbehind
  set d := stageBlock s (image cfg fl₀ a) fileMeta.lblock with hd
  set pos := fileMeta.dataIdx + offset with hpos
  set fend := fileMeta.dataIdx + fileMeta.maxSize with hfend
  have hsub : ∀ {lo hi : Nat}, blockMeta.dataStart ≤ lo → hi ≤ cfg.blockSize → ∀ b o,
      range d lo hi b o → dataRange cfg s (image cfg fl₀ a) fileMeta.lblock b o :=
    fun h₁ h₂ b o hw => ⟨hw.1, hstart ▸ h₁.trans hw.2.1, lt_of_lt_of_le hw.2.2 h₂⟩
  -- the bytes before the write
  refine Ok.bind (h.moveData_ok blockMeta.dataStart blockMeta.dataStart (pos - blockMeta.dataStart)
    hl hstart.ge (by omega) (by omega) (fun ha => ⟨hdvd ha, Nat.dvd_sub
      (Nat.dvd_add (hal ha).1 (hal ha).2.1) (hdvd ha)⟩) fun _ =>
        hc.mono (hsub le_rfl (by omega))) ?_
  rintro _ c fl₁ ⟨rfl, hf₁, hb₁⟩
  rw [show blockMeta.dataStart + (pos - blockMeta.dataStart) = pos by omega] at hf₁
  have h₁ := h.next_dataRange hl rfl rfl (hf₁.mono (hsub le_rfl (by omega)))
  -- the new bytes
  have hlen : ((List.range size).map data).length = size := by simp
  have hw₁ : MayWrite cfg s (image cfg fl₀ a).header.scratchDblock strict fl₁ d pos size :=
    h₁.mayWriteData hl (hstart ▸ show blockMeta.dataStart ≤ pos by omega) (by omega)
      (fun ha => ⟨Nat.dvd_add (hal ha).1 (hal ha).2.1, (hal ha).2.2.1⟩) fun _ =>
      hf₁.clean (hc.mono (hsub (by omega) (by omega))) fun b o hw hw' => by
        have := hw.2.1
        have := hw'.2.2
        omega
  refine Ok.bind (opsWrite_ok (hlen.symm ▸ hw₁)) ?_
  rintro _ c fl₂ ⟨rfl, rfl⟩
  have hf₂ := onlyIn_write fl₁ d pos ((List.range size).map data)
  rw [hlen] at hf₂
  have h₂ := h₁.next_dataRange hl rfl rfl (hf₂.mono (hsub (by omega) (by omega)))
  -- the files behind the file
  refine Ok.bind (h₂.moveData_ok fend fend (cfg.blockSize - blockMeta.freeSize - fend) hl
    (hstart ▸ show blockMeta.dataStart ≤ fend by omega) (by omega) (by omega)
    (fun ha => ⟨Nat.dvd_add (hal ha).1 (hal ha).2.2.2.1, Nat.dvd_sub (Nat.dvd_sub ha.2.2.2.1
      (hal ha).2.2.2.2) (Nat.dvd_add (hal ha).1 (hal ha).2.2.2.1)⟩) fun _ =>
    hf₂.clean (hf₁.clean (hc.mono (hsub (by omega) (by omega))) fun b o hw hw' => by
      have := hw.2.1
      have := hw'.2.2
      omega) fun b o hw hw' => by
      have := hw.2.1
      have := hw'.2.2
      omega) ?_
  rintro _ c fl₃ ⟨rfl, hf₃, hb₃⟩
  have hwr : Written cfg s (image cfg fl₀ a) fileMeta offset size data
      (cfg.blockSize - blockMeta.freeSize) fl fl₃ := by
    refine ⟨?_, fun o h₁ h₂ => ?_, fun i hi => ?_, fun o h₁ h₂ => ?_, fun o h₁ h₂ => ?_⟩
    · exact ((hf₁.mono (hsub le_rfl (by omega))).trans (hf₂.mono (hsub (by omega) (by omega)))).trans
        (hf₃.mono (hsub (by omega) (by omega)))
    · rw [hf₃.byte fun hw => by have := hw.2.1; omega, hf₂.byte fun hw => by have := hw.2.1; omega]
      have hbo := hb₁ (o - blockMeta.dataStart) (by omega)
      rwa [Nat.add_sub_cancel' (hstart ▸ h₁)] at hbo
    · rw [hf₃.byte fun hw => by have := hw.2.1; omega, byte, cell_write,
        if_pos ⟨rfl, by omega, by omega⟩, Nat.add_sub_cancel_left, Option.getD_some]
      simp [List.getD_eq_getElem?_getD, hi]
    · have hin : dataRange cfg s (image cfg fl₀ a) fileMeta.lblock d o :=
        ⟨rfl, hstart ▸ show blockMeta.dataStart ≤ o by omega, by omega⟩
      rw [hf₃.byte fun hw => by have := hw.2.1; omega, hf₂.byte fun hw => by have := hw.2.2; omega,
        hf₁.byte fun hw => by have := hw.2.2; omega]
      exact hc.byte hin
    · have hbo := hb₃ (o - fend) (by omega)
      rwa [Nat.add_sub_cancel' h₁] at hbo
  split_ifs with h0
  · have hdb : d < cfg.numBlocks := by
      rw [hd, stageBlock, if_neg (show ¬ fileMeta.lblock = 0 from h0)]
      exact (h.wf.scratch (numBlocks_ne_two h.accepted h0 hl)).2
    refine (opsFlush_ok hdb).bind_wp ?_
    rintro _ _ _ ⟨rfl, rfl⟩
    exact ok_pure ⟨rfl, hwr⟩
  · exact ok_pure ⟨rfl, hwr⟩

end Etss
