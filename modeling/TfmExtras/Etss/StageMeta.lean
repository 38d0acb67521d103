import TfmExtras.Etss.Staging

/-! The tables of the next state: what the functions that write and copy block and file entries
leave in the scratch metadata block. -/

namespace Etss
open NorFlash NorFlash.Flash FlashM

variable {cfg : Config} {s sd a : Nat} {strict : Prop} {c : Ctx} {fl fl₀ : Flash}

/-! ## Entries of a table -/

/-- The cells of the block entries from `lo` on and before `hi`. -/
def blockRange (s lo hi : Nat) : Region := range s (8 + 12 * lo) (8 + 12 * hi)

/-- The cells of the file entries from `lo` on and before `hi`. -/
def fileRange (cfg : Config) (s lo hi : Nat) : Region :=
  range s (cfg.fileEntry lo) (cfg.fileEntry hi)

theorem Config.Aligned.blockOffset (h : cfg.Aligned) (l : Nat) :
    cfg.programUnit ∣ 8 + 12 * l := by
  have h₁ : cfg.programUnit ∣ 12 := h.2.1
  exact Nat.dvd_add h.1 (h₁.mul_right l)

theorem Config.Aligned.fileEntry (h : cfg.Aligned) (i : Nat) :
    cfg.programUnit ∣ cfg.fileEntry i := by
  have h₁ : cfg.programUnit ∣ 32 := h.2.2.1
  exact Nat.dvd_add (h.blockOffset _) (h₁.mul_right i)

theorem blocks_eq_of_blockRange {fl' : Flash} {lo hi l : Nat} (h : OnlyIn (blockRange s lo hi) fl fl')
    (hl : l < lo ∨ hi ≤ l) : (image cfg fl' s).blocks l = (image cfg fl s).blocks l :=
  image_blocks_congr h fun o h₁ h₂ hw => by
    obtain ⟨_, h₃, h₄⟩ := hw
    omega

theorem files_eq_of_fileRange {fl' : Flash} {lo hi i : Nat} (h : OnlyIn (fileRange cfg s lo hi) fl fl')
    (hi' : i < lo ∨ hi ≤ i) : (image cfg fl' s).files i = (image cfg fl s).files i :=
  image_files_congr h fun o h₁ h₂ hw => by
    obtain ⟨_, h₃, h₄⟩ := hw
    unfold Config.fileEntry at h₁ h₂ h₃ h₄
    omega

theorem blockRange_mono {lo hi lo' hi' : Nat} (h₁ : lo' ≤ lo) (h₂ : hi ≤ hi') (b o : Nat)
    (h : blockRange s lo hi b o) : blockRange s lo' hi' b o := by
  obtain ⟨hb, h₃, h₄⟩ := h
  exact ⟨hb, by omega, by omega⟩

theorem blockRange_apart {lo hi lo' hi' : Nat} (h : hi ≤ lo' ∨ hi' ≤ lo) (b o : Nat)
    (h₁ : blockRange s lo hi b o) : ¬ blockRange s lo' hi' b o := by
  rintro ⟨_, h₂, h₃⟩
  obtain ⟨_, h₄, h₅⟩ := h₁
  omega

theorem fileRange_mono {lo hi lo' hi' : Nat} (h₁ : lo' ≤ lo) (h₂ : hi ≤ hi') (b o : Nat)
    (h : fileRange cfg s lo hi b o) : fileRange cfg s lo' hi' b o := by
  obtain ⟨hb, h₃, h₄⟩ := h
  unfold Config.fileEntry at h₃ h₄
  refine ⟨hb, ?_, ?_⟩ <;> unfold Config.fileEntry <;> omega

theorem fileRange_apart {lo hi lo' hi' : Nat} (h : hi ≤ lo' ∨ hi' ≤ lo) (b o : Nat)
    (h₁ : fileRange cfg s lo hi b o) : ¬ fileRange cfg s lo' hi' b o := by
  rintro ⟨_, h₂, h₃⟩
  obtain ⟨_, h₄, h₅⟩ := h₁
  unfold Config.fileEntry at h₂ h₃ h₄ h₅
  omega

theorem fileRange_apart_blockRange {lo hi lo' hi' : Nat} (h : hi ≤ numActiveDblocks cfg) (b o : Nat)
    (h₁ : blockRange s lo hi b o) : ¬ fileRange cfg s lo' hi' b o := by
  rintro ⟨_, h₂, _⟩
  obtain ⟨_, _, h₅⟩ := h₁
  unfold Config.fileEntry Config.filesStart at h₂
  omega

/-- The block table of the next state: one entry is new, and logical block 0 moves to the
scratch metadata block. -/
def stagedBlock (s : Nat) (blocks : Nat → BlockMeta) (lblock : Nat) (blockMeta : BlockMeta)
    (l : Nat) : BlockMeta :=
  if l = lblock then if l = 0 then { blockMeta with phyId := s } else blockMeta
  else if l = 0 then { blocks 0 with phyId := s }
  else blocks l

/-! ## Writing and copying entries -/

theorem image_blocks_inRange (cfg : Config) (fl : Flash) (a l : Nat) :
    ((image cfg fl a).blocks l).InRange := BlockMeta.decode_inRange _

theorem image_files_inRange (cfg : Config) (fl : Flash) (a i : Nat) :
    ((image cfg fl a).files i).InRange := FileMeta.decode_inRange _

/-- Writing a block entry, wherever the write is let through. -/
theorem writeBlockMeta_ok {G : Prog.Guard} (hacc : cfg.Accepted) {l : Nat}
    (hl : l < numActiveDblocks cfg) {blockMeta : BlockMeta} (hb : blockMeta.InRange)
    (hG : G fl (.write c.scratchMetablock (8 + 12 * l) blockMeta.encode)) :
    (mblockUpdateScratchBlockMeta l blockMeta).Ok cfg.eraseVal G c fl fun _ c' fl' => c' = c ∧
      OnlyIn (blockRange c.scratchMetablock l (l + 1)) fl fl' ∧
        (image cfg fl' c.scratchMetablock).blocks l = blockMeta := by
  have hlen := blockMeta.encode_length
  unfold mblockUpdateScratchBlockMeta
  rw [hacc.blockOffset_eq hl.le]
  refine query_get.seq_wp ?_
  refine Ok.bind (ok_issue (R := fun _ c' fl' => c' = c ∧
    fl' = fl.write c.scratchMetablock (8 + 12 * l) blockMeta.encode) hG ⟨rfl, rfl⟩) ?_
  rintro _ c _ ⟨rfl, rfl⟩
  refine ok_pure ⟨rfl, ?_, ?_⟩
  · have hw := onlyIn_write fl c.scratchMetablock (8 + 12 * l) blockMeta.encode
    rwa [hlen] at hw
  · have hr := read_write_self fl cfg.eraseVal c.scratchMetablock (8 + 12 * l) blockMeta.encode
    rw [hlen] at hr
    exact (congrArg BlockMeta.decode hr).trans (BlockMeta.decode_encode hb)

/-- Writing a file entry, wherever the write is let through. -/
theorem writeFileMeta_ok {G : Prog.Guard} (hacc : cfg.Accepted) {i : Nat}
    (hi : i < cfg.maxNumFiles) {fileMeta : FileMeta} (hf : fileMeta.InRange)
    (hG : G fl (.write c.scratchMetablock (cfg.fileEntry i) fileMeta.encode)) :
    (flashFsMblockUpdateScratchFileMeta cfg i fileMeta).Ok cfg.eraseVal G c fl fun _ c' fl' =>
      c' = c ∧ OnlyIn (fileRange cfg c.scratchMetablock i (i + 1)) fl fl' ∧
        (image cfg fl' c.scratchMetablock).files i = fileMeta := by
  have hlen := fileMeta.encode_length
  have hend : cfg.fileEntry (i + 1) = cfg.fileEntry i + 32 := by unfold Config.fileEntry; omega
  unfold flashFsMblockUpdateScratchFileMeta
  rw [hacc.fileOffset_eq hi.le]
  refine query_get.seq_wp ?_
  refine Ok.bind (ok_issue (R := fun _ c' fl' => c' = c ∧
    fl' = fl.write c.scratchMetablock (cfg.fileEntry i) fileMeta.encode) hG ⟨rfl, rfl⟩) ?_
  rintro _ c _ ⟨rfl, rfl⟩
  refine ok_pure ⟨rfl, ?_, ?_⟩
  · have hw := onlyIn_write fl c.scratchMetablock (cfg.fileEntry i) fileMeta.encode
    rwa [hlen, ← hend] at hw
  · have hr := read_write_self fl cfg.eraseVal c.scratchMetablock (cfg.fileEntry i) fileMeta.encode
    rw [hlen] at hr
    exact (congrArg FileMeta.decode hr).trans (FileMeta.decode_encode hf)

/-! ## The block table -/

/-- The block table in metadata block `a` of `fl₀` is copied to block `s`, where nothing of it
changes. -/
structure Beside (cfg : Config) (fl₀ : Flash) (a s : Nat) (c : Ctx) (fl : Flash) : Prop where
  accepted : cfg.Accepted
  a_le : a ≤ 1
  s_le : s ≤ 1
  ne : s ≠ a
  active : c.activeMetablock = a
  scratch : c.scratchMetablock = s
  blocks : ∀ l, (image cfg fl a).blocks l = (image cfg fl₀ a).blocks l

theorem Config.Accepted.blocks_le (hacc : cfg.Accepted) {l : Nat} (hl : l ≤ numActiveDblocks cfg) :
    8 + 12 * l ≤ cfg.blockSize := by
  have h₁ := hacc.metaEnd_le
  unfold Config.metaEnd Config.fileEntry Config.filesStart at h₁
  omega

theorem checkBlock_eq {m m' : BlockMeta} (h : checkBlock cfg m = .ok m') : m' = m := by
  unfold checkBlock at h
  cases hv : (if cfg.validateMetadata then mblockValidateBlockMeta cfg m else .ok ()) with
  | error e =>
    rw [hv] at h
    cases h
  | ok _ =>
    rw [hv] at h
    exact (Except.ok.inj h).symm

theorem phyId_inRange {blockMeta : BlockMeta} (hs : s ≤ 1) (hb : blockMeta.InRange) :
    { blockMeta with phyId := s }.InRange :=
  ⟨lt_of_le_of_lt hs (by decide), hb.2.1, hb.2.2⟩

/-- What an update of the block table leaves. It fails when the entry of logical block 0 has to be
copied and does not pass its check. -/
structure TableCopied (cfg : Config) (fl₀ : Flash) (a s lblock : Nat) (blockMeta : BlockMeta)
    (fl : Flash) (r : Except Status Unit) (fl' : Flash) : Prop where
  only : OnlyIn (blockRange s 0 (numActiveDblocks cfg)) fl fl'
  ok_iff : r = .ok () ↔ lblock = 0 ∨
    checkBlock cfg ((image cfg fl₀ a).blocks 0) = .ok ((image cfg fl₀ a).blocks 0)
  blocks : r = .ok () → ∀ l, l < numActiveDblocks cfg → (image cfg fl' s).blocks l =
    stagedBlock s (image cfg fl₀ a).blocks lblock blockMeta l

namespace Beside
variable (h : Beside cfg fl₀ a s c fl)
include h

theorem s_lt : s < cfg.numBlocks := lt_of_le_of_lt h.s_le h.accepted.two_le_numBlocks

theorem a_lt : a < cfg.numBlocks := lt_of_le_of_lt h.a_le h.accepted.two_le_numBlocks

theorem next {fl' : Flash} {lo hi : Nat} (hf : OnlyIn (blockRange s lo hi) fl fl') :
    Beside cfg fl₀ a s c fl' where
  accepted := h.accepted
  a_le := h.a_le
  s_le := h.s_le
  ne := h.ne
  active := h.active
  scratch := h.scratch
  blocks l := (image_blocks_congr hf fun _ _ _ hw => h.ne hw.1.symm).trans (h.blocks l)

theorem writeBlock_ok {l : Nat} (hl : l < numActiveDblocks cfg) {blockMeta : BlockMeta}
    (hb : blockMeta.InRange) (hc : strict → Clean (blockRange s l (l + 1)) fl) :
    (mblockUpdateScratchBlockMeta l blockMeta).Ok cfg.eraseVal (StageOp cfg s sd strict) c fl
      fun _ c' fl' => c' = c ∧ OnlyIn (blockRange s l (l + 1)) fl fl' ∧
        (image cfg fl' s).blocks l = blockMeta := by
  have hlen := blockMeta.encode_length
  have hend : 8 + 12 * (l + 1) = 8 + 12 * l + 12 := by omega
  have hle := h.accepted.blocks_le (Nat.succ_le_of_lt hl)
  obtain rfl := h.scratch
  refine writeBlockMeta_ok h.accepted hl hb ?_
  unfold blockRange at hc
  rw [hend] at hc hle
  show MayWrite cfg _ sd strict fl _ (8 + 12 * l) blockMeta.encode.length
  rw [hlen]
  exact ⟨.inl ⟨rfl, Nat.le_add_right 8 _⟩, h.s_lt, hle, fun ha => ⟨ha.blockOffset l, ha.2.1⟩, hc⟩

theorem moveBlocks_ok {lo hi : Nat} (hlo : lo ≤ hi) (hhi : hi ≤ numActiveDblocks cfg)
    (hc : strict → Clean (blockRange s lo hi) fl) :
    (flashFsBlockToBlockMove s (8 + 12 * lo) a (8 + 12 * lo) (12 * (hi - lo))).Ok cfg.eraseVal
      (StageOp cfg s sd strict) c fl fun _ c' fl' => c' = c ∧ OnlyIn (blockRange s lo hi) fl fl' ∧
        ∀ l, lo ≤ l → l < hi → (image cfg fl' s).blocks l = (image cfg fl₀ a).blocks l := by
  have hend : 8 + 12 * hi = 8 + 12 * lo + 12 * (hi - lo) := by omega
  have hle := h.accepted.blocks_le hhi
  unfold blockRange at hc ⊢
  rw [hend] at hc ⊢
  refine (blockToBlockMove_ok ⟨.inl ⟨rfl, Nat.le_add_right 8 _⟩, h.s_lt, by omega,
    fun ha => ⟨ha.blockOffset lo, ?_⟩, hc⟩ h.ne h.a_lt (by omega)).mono ?_
  · have h₁ : cfg.programUnit ∣ 12 := ha.2.1
    exact h₁.mul_right _
  · rintro _ _ fl' ⟨rfl, hm⟩
    refine ⟨rfl, hm.only, fun l hl₁ hl₂ => ?_⟩
    rw [← h.blocks l]
    refine congrArg BlockMeta.decode (read_congr fun i hi => ?_)
    unfold blockMetadataSize at hi
    have hs := hm.same (12 * (l - lo) + i) (by omega)
    rwa [show 8 + 12 * lo + (12 * (l - lo) + i) = 8 + 12 * l + i by omega] at hs

/-- The entries behind the one that was written. -/
theorem moveRest_ok {lblock : Nat} (hl : lblock < numActiveDblocks cfg)
    (hc : strict → Clean (blockRange s (lblock + 1) (numActiveDblocks cfg)) fl) :
    (flashFsBlockToBlockMove s (mblockBlockMetaOffset (lblock + 1)) a
        (mblockBlockMetaOffset (lblock + 1))
        (sub32 (mblockFileMetaOffset cfg 0) (mblockBlockMetaOffset (lblock + 1)))).Ok cfg.eraseVal
      (StageOp cfg s sd strict) c fl fun _ c' fl' => c' = c ∧
        OnlyIn (blockRange s (lblock + 1) (numActiveDblocks cfg)) fl fl' ∧
        ∀ l, lblock + 1 ≤ l → l < numActiveDblocks cfg →
          (image cfg fl' s).blocks l = (image cfg fl₀ a).blocks l := by
  have hlt := h.accepted.metaEnd_lt
  unfold Config.metaEnd Config.fileEntry Config.filesStart at hlt
  have hsub : sub32 (cfg.fileEntry 0) (8 + 12 * (lblock + 1)) =
      12 * (numActiveDblocks cfg - (lblock + 1)) := by
    unfold Config.fileEntry Config.filesStart
    rw [sub32_eq (by omega) (by omega)]
    omega
  rw [h.accepted.blockOffset_eq (Nat.succ_le_of_lt hl), h.accepted.fileOffset_eq (Nat.zero_le _),
    hsub]
  exact h.moveBlocks_ok (Nat.succ_le_of_lt hl) le_rfl hc

/-- The entries before the one that was written, for a block other than logical block 0, when the
entry of logical block 0 passes its check. -/
theorem copyBefore_wp {lblock : Nat} (h0 : lblock ≠ 0) (hl : lblock < numActiveDblocks cfg)
    {k : Unit → FsM Unit} {Q : Post Ctx Status Unit}
    (hc : strict → Clean (blockRange s 0 lblock) fl)
    (hk : ∀ fl', OnlyIn (blockRange s 0 lblock) fl fl' →
      checkBlock cfg ((image cfg fl₀ a).blocks 0) = .ok ((image cfg fl₀ a).blocks 0) →
      (∀ l, l < lblock → (image cfg fl' s).blocks l =
        if l = 0 then { (image cfg fl₀ a).blocks 0 with phyId := s }
        else (image cfg fl₀ a).blocks l) →
      (k ()).wp cfg.eraseVal (StageOp cfg s sd strict) c fl' Q)
    (herr : ∀ e, checkBlock cfg ((image cfg fl₀ a).blocks 0) = .error e →
      Q (.error .genericError) c fl) :
    (do
      let blockMeta ← (flashFsMblockReadBlockMetadata cfg logicalDblock0).failAs .genericError
      (mblockUpdateScratchBlockMeta logicalDblock0 { blockMeta with phyId := s }).failAs
        .genericError
      if lblock > 1 then do
        flashFsBlockToBlockMove s (mblockBlockMetaOffset (logicalDblock0 + 1)) a
          (mblockBlockMetaOffset (logicalDblock0 + 1))
          (sub32 (mblockBlockMetaOffset lblock) (mblockBlockMetaOffset (logicalDblock0 + 1)))
        k ()
      else k () : FsM Unit).wp cfg.eraseVal (StageOp cfg s sd strict) c fl Q := by
  have hpos := h.accepted.numActive_pos
  have hread : (flashFsMblockReadBlockMetadata cfg logicalDblock0).Query cfg.eraseVal
      (StageOp cfg s sd strict) c fl (checkBlock cfg ((image cfg fl₀ a).blocks 0)) := by
    have hq : (flashFsMblockReadBlockMetadata cfg logicalDblock0).Query cfg.eraseVal
        (StageOp cfg s sd strict) c fl _ :=
      readBlockMetadata_query allowsReads_stageOp h.accepted (h.active.trans_lt h.a_lt) hpos
    rwa [h.active, h.blocks] at hq
  cases hcheck : checkBlock cfg ((image cfg fl₀ a).blocks 0) with
  | error e =>
    rw [hcheck] at hread
    exact hread.failAs.seq_error.wp (herr e hcheck)
  | ok m =>
  obtain rfl := checkBlock_eq hcheck
  rw [hcheck] at hread
  refine hread.failAs.seq_wp ?_
  refine Ok.bind_wp (h.writeBlock_ok hpos (phyId_inRange h.s_le (image_blocks_inRange cfg fl₀ a 0))
    fun hs => (hc hs).mono (blockRange_mono le_rfl (Nat.pos_of_ne_zero h0))).failAs ?_
  rintro _ _ fl₁ ⟨rfl, hf₁, hb₁⟩
  have h₁ := h.next hf₁
  split_ifs with h1
  · have hlt := h.accepted.numActive_lt
    have hsub : sub32 (8 + 12 * lblock) (8 + 12 * 1) = 12 * (lblock - 1) := by
      rw [sub32_eq (by omega) (by omega)]
      omega
    rw [show logicalDblock0 + 1 = 1 from rfl, h.accepted.blockOffset_eq hpos,
      h.accepted.blockOffset_eq hl.le, hsub]
    have hc₁ : strict → Clean (blockRange s 1 lblock) fl₁ := fun hs => hf₁.clean
      ((hc hs).mono (blockRange_mono (Nat.zero_le 1) le_rfl)) (blockRange_apart (.inr le_rfl))
    refine Ok.bind_wp (h₁.moveBlocks_ok h1.le hl.le hc₁) ?_
    rintro _ _ fl₂ ⟨rfl, hf₂, hb₂⟩
    refine hk fl₂ ?_ hcheck fun l hl' => ?_
    · exact (hf₁.mono (blockRange_mono le_rfl (Nat.pos_of_ne_zero h0))).trans
        (hf₂.mono (blockRange_mono (Nat.zero_le 1) le_rfl))
    · split_ifs with hl0
      · subst hl0
        rw [blocks_eq_of_blockRange hf₂ (.inl Nat.zero_lt_one), hb₁]
      · exact hb₂ l (Nat.pos_of_ne_zero hl0) hl'
  · obtain rfl : lblock = 1 := by omega
    refine hk fl₁ hf₁ hcheck fun l hl' => ?_
    obtain rfl : l = 0 := by omega
    exact hb₁

theorem updateScratchBlockMeta_wp {lblock : Nat} (hl : lblock < numActiveDblocks cfg)
    {blockMeta : BlockMeta} (hb : blockMeta.InRange)
    (hc : strict → Clean (blockRange s 0 (numActiveDblocks cfg)) fl) :
    (flashFsMblockUpdateScratchBlockMeta cfg lblock blockMeta).wp cfg.eraseVal
      (StageOp cfg s sd strict) c fl fun r c' fl' => c' = c ∧
        TableCopied cfg fl₀ a s lblock blockMeta fl r fl' := by
  unfold flashFsMblockUpdateScratchBlockMeta mblockCopyRemainingBlockMeta
  refine query_get.seq_wp ?_
  have hb' : (if lblock = logicalDblock0 then { blockMeta with phyId := c.scratchMetablock }
      else blockMeta).InRange := by
    split_ifs
    · rw [h.scratch]
      exact phyId_inRange h.s_le hb
    · exact hb
  refine Ok.bind_wp (h.writeBlock_ok hl hb' fun hs =>
    (hc hs).mono (blockRange_mono (Nat.zero_le _) (Nat.succ_le_of_lt hl))).failAs ?_
  rintro _ c fl₁ ⟨rfl, hf₁, hb₁⟩
  have h₁ := h.next hf₁
  refine query_get.seq_wp ?_
  simp only [h.scratch, h.active] at hb₁ ⊢
  by_cases h0 : lblock ≠ logicalDblock0
  · rw [if_pos h0]
    have hc₁ : strict → Clean (blockRange s 0 lblock) fl₁ := fun hs => hf₁.clean
      ((hc hs).mono (blockRange_mono le_rfl hl.le)) (blockRange_apart (.inl le_rfl))
    refine h₁.copyBefore_wp (k := fun _ => flashFsBlockToBlockMove s
      (mblockBlockMetaOffset (lblock + 1)) a (mblockBlockMetaOffset (lblock + 1))
      (sub32 (mblockFileMetaOffset cfg 0) (mblockBlockMetaOffset (lblock + 1))))
      h0 hl hc₁ (fun fl₂ hf₂ hcheck hb₂ => ?_) fun e he => ?_
    · have h₂ := h₁.next hf₂
      have hc₂ : strict → Clean (blockRange s (lblock + 1) (numActiveDblocks cfg)) fl₂ :=
        fun hs => hf₂.clean (hf₁.clean ((hc hs).mono (blockRange_mono (Nat.zero_le _) le_rfl))
          (blockRange_apart (.inr le_rfl))) (blockRange_apart (.inr (Nat.le_succ _)))
      refine wp_post (h₂.moveRest_ok hl hc₂) ?_
      rintro _ _ fl₃ ⟨_, rfl, rfl, hf₃, hb₃⟩
      refine ⟨rfl, ?_, iff_of_true rfl (.inr hcheck), fun _ l hl' => ?_⟩
      · exact ((hf₁.mono (blockRange_mono (Nat.zero_le _) (Nat.succ_le_of_lt hl))).trans
          (hf₂.mono (blockRange_mono le_rfl hl.le))).trans
          (hf₃.mono (blockRange_mono (Nat.zero_le _) le_rfl))
      · unfold stagedBlock
        rcases lt_trichotomy l lblock with hlt | rfl | hgt
        · rw [blocks_eq_of_blockRange hf₃ (.inl (by omega)), hb₂ l hlt, if_neg hlt.ne]
        · rw [blocks_eq_of_blockRange hf₃ (.inl (by omega)),
            blocks_eq_of_blockRange hf₂ (.inr le_rfl), hb₁, if_pos rfl, if_neg h0,
            if_neg (show ¬ l = 0 from h0)]
        · rw [hb₃ l hgt hl', if_neg hgt.ne', if_neg (by omega)]
    · refine ⟨rfl, hf₁.mono (blockRange_mono (Nat.zero_le _) (Nat.succ_le_of_lt hl)),
        iff_of_false nofun ?_, nofun⟩
      rintro (h | h)
      · exact h0 h
      · cases he.symm.trans h
  · rw [if_neg h0]
    have hc₁ : strict → Clean (blockRange s (lblock + 1) (numActiveDblocks cfg)) fl₁ :=
      fun hs => hf₁.clean ((hc hs).mono (blockRange_mono (Nat.zero_le _) le_rfl))
        (blockRange_apart (.inr le_rfl))
    refine wp_post (h₁.moveRest_ok hl hc₁) ?_
    rintro _ _ fl₃ ⟨_, rfl, rfl, hf₃, hb₃⟩
    obtain rfl : lblock = 0 := not_not.mp h0
    refine ⟨rfl, ?_, iff_of_true rfl (.inl rfl), fun _ l hl' => ?_⟩
    · exact (hf₁.mono (blockRange_mono (Nat.zero_le _) (Nat.succ_le_of_lt hl))).trans
        (hf₃.mono (blockRange_mono (Nat.zero_le _) le_rfl))
    · unfold stagedBlock
      by_cases hl0 : l = 0
      · subst hl0
        rw [blocks_eq_of_blockRange hf₃ (.inl (by omega)), hb₁, if_pos rfl]
        rfl
      · rw [hb₃ l (Nat.pos_of_ne_zero hl0) hl', if_neg hl0, if_neg hl0]

end Beside

/-! ## The file table -/

namespace Ready
variable (h : Ready cfg fl₀ a s c fl)
include h

theorem files_le {i : Nat} (hi : i ≤ cfg.maxNumFiles) : cfg.fileEntry i ≤ cfg.blockSize :=
  (h.accepted.fileEntry_le hi).trans h.accepted.metaEnd_le

theorem writeFile_ok {i : Nat} (hi : i < cfg.maxNumFiles) {fileMeta : FileMeta}
    (hf : fileMeta.InRange) (hc : strict → Clean (fileRange cfg s i (i + 1)) fl) :
    (flashFsMblockUpdateScratchFileMeta cfg i fileMeta).Ok cfg.eraseVal (StageOp cfg s sd strict) c fl
      fun _ c' fl' => c' = c ∧ OnlyIn (fileRange cfg s i (i + 1)) fl fl' ∧
        (image cfg fl' s).files i = fileMeta := by
  have hlen := fileMeta.encode_length
  have hend : cfg.fileEntry (i + 1) = cfg.fileEntry i + 32 := by unfold Config.fileEntry; omega
  have hlo : 8 ≤ cfg.fileEntry i := by unfold Config.fileEntry Config.filesStart; omega
  have hle : cfg.fileEntry i + 32 ≤ cfg.blockSize := hend ▸ h.files_le (Nat.succ_le_of_lt hi)
  obtain rfl := h.scratch
  refine writeFileMeta_ok h.accepted hi hf ?_
  unfold fileRange at hc
  rw [hend] at hc
  show MayWrite cfg _ sd strict fl _ (cfg.fileEntry i) fileMeta.encode.length
  rw [hlen]
  exact h.mayWrite hlo hle (fun ha => ⟨ha.fileEntry i, ha.2.2.1⟩) hc

theorem cpFileMeta_ok {lo hi : Nat} (hlo : lo ≤ hi) (hhi : hi ≤ cfg.maxNumFiles)
    (hc : strict → Clean (fileRange cfg s lo hi) fl) :
    (flashFsMblockCpFileMeta cfg lo hi).Ok cfg.eraseVal (StageOp cfg s sd strict) c fl
      fun _ c' fl' => c' = c ∧ OnlyIn (fileRange cfg s lo hi) fl fl' ∧
        ∀ i, lo ≤ i → i < hi → (image cfg fl' s).files i = (image cfg fl₀ a).files i := by
  have hend : cfg.fileEntry hi = cfg.fileEntry lo + 32 * (hi - lo) := by
    unfold Config.fileEntry
    omega
  have hlo8 : 8 ≤ cfg.fileEntry lo := by unfold Config.fileEntry Config.filesStart; omega
  have hle := h.files_le hhi
  have hbs := cfg.blockSize_lt
  have hsub : sub32 (cfg.fileEntry hi) (cfg.fileEntry lo) = 32 * (hi - lo) := by
    rw [sub32_eq (by omega) (by omega)]
    omega
  unfold flashFsMblockCpFileMeta
  rw [h.accepted.fileOffset_eq hhi, h.accepted.fileOffset_eq (hlo.trans hhi)]
  refine query_get.seq_wp ?_
  simp only [hsub, h.scratch, h.active]
  unfold fileRange at hc ⊢
  rw [hend] at hc ⊢
  refine (blockToBlockMove_ok (h.mayWrite hlo8 (by omega) (fun ha => ⟨ha.fileEntry lo, ?_⟩) hc)
    h.ne h.a_lt (by omega)).mono ?_
  · have h₁ : cfg.programUnit ∣ 32 := ha.2.2.1
    exact h₁.mul_right _
  · rintro _ _ fl' ⟨rfl, hm⟩
    refine ⟨rfl, hm.only, fun i hi₁ hi₂ => ?_⟩
    rw [← h.files_eq i]
    refine congrArg FileMeta.decode (read_congr fun k hk => ?_)
    unfold fileMetadataSize at hk
    have hs := hm.same (32 * (i - lo) + k) (by omega)
    rwa [show cfg.fileEntry lo + (32 * (i - lo) + k) = cfg.fileEntry i + k by
      unfold Config.fileEntry
      omega] at hs

theorem next_blockRange {fl' : Flash} {lo hi : Nat} (hf : OnlyIn (blockRange s lo hi) fl fl') :
    Ready cfg fl₀ a s c fl' :=
  h.next rfl rfl (hf.mono fun b o hw => range_stageRegion (by omega) b o hw)

theorem next_fileRange {fl' : Flash} {lo hi : Nat} (hf : OnlyIn (fileRange cfg s lo hi) fl fl') :
    Ready cfg fl₀ a s c fl' :=
  h.next rfl rfl (hf.mono fun b o hw => range_stageRegion (by
    unfold Config.fileEntry Config.filesStart
    omega) b o hw)

theorem beside : Beside cfg fl₀ a s c fl :=
  ⟨h.accepted, h.a_le, h.s_le, h.ne, h.active, h.scratch, h.blocks_eq⟩

theorem updateScratchBlockMeta_ok {lblock : Nat} (hl : lblock < numActiveDblocks cfg)
    {blockMeta : BlockMeta} (hb : blockMeta.InRange)
    (hc : strict → Clean (blockRange s 0 (numActiveDblocks cfg)) fl) :
    (flashFsMblockUpdateScratchBlockMeta cfg lblock blockMeta).Ok cfg.eraseVal
      (StageOp cfg s sd strict) c fl fun _ c' fl' => c' = c ∧
        OnlyIn (blockRange s 0 (numActiveDblocks cfg)) fl fl' ∧
        ∀ l, l < numActiveDblocks cfg → (image cfg fl' s).blocks l =
          stagedBlock s (image cfg fl₀ a).blocks lblock blockMeta l := by
  have hcheck : checkBlock cfg ((image cfg fl₀ a).blocks 0) = .ok ((image cfg fl₀ a).blocks 0) := by
    have hv := h.wf.validateBlockMeta h.accepted h.a_le h.accepted.numActive_pos
    rw [checkBlock, hv]
    split_ifs <;> rfl
  refine wp_post (h.beside.updateScratchBlockMeta_wp hl hb hc) ?_
  rintro r _ fl' ⟨rfl, ht⟩
  have hr := ht.ok_iff.mpr (.inr hcheck)
  exact ⟨(), hr, rfl, ht.only, ht.blocks hr⟩

end Ready

end Etss
