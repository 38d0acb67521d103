import TfmExtras.Etss.ReadBack
import TfmExtras.Etss.Run

/-! The upgrade of a version 1 filesystem: the tables are copied to the other metadata block as
they are, so that logical block 0 stays mapped to the old one, which is then erased. -/

namespace Etss
open NorFlash NorFlash.Flash FlashM

variable {cfg : Config} {a : Nat} {c : Ctx} {fl fl' flM : Flash} {hdr : MetadataBlockHeader}

/-- A version 1 filesystem has the tables of a version 2 filesystem. -/
def Image.asVersion2 (st : Image) : Image :=
  { st with header := { st.header with fsVersion := supportedVersion } }

/-- A flash that mounting takes metadata block `a` of, with the tables of a version 1 filesystem in
it. -/
structure Version1 (cfg : Config) (a : Nat) (fl : Flash) : Prop where
  accepted : cfg.Accepted
  a_le : a ≤ 1
  select : selectActive cfg fl = .ok a
  version : (image cfg fl a).header.fsVersion = backwardSupportedVersion
  swap : (image cfg fl a).header.compSwapCount ≠ cfg.eraseVal
  wf : (image cfg fl a).asVersion2.Wf cfg a

/-- A flash that mounting takes metadata block `a` of, with a well-formed version 1 filesystem in
it. -/
structure MountableV1 (cfg : Config) (a : Nat) (fl : Flash) : Prop where
  accepted : cfg.Accepted
  a_le : a ≤ 1
  select : selectActive cfg fl = .ok a
  version : (image cfg fl a).header.fsVersion = backwardSupportedVersion
  swap : (image cfg fl a).header.compSwapCount ≠ cfg.eraseVal
  wf : (image cfg fl a).asVersion2.Wf cfg a
  closed : (image cfg fl a).Closed cfg

/-- The header that is upgraded: the swap count moves to its version 2 place. -/
def upgradedHeader (hMeta : MetadataBlockHeader) : MetadataBlockHeader :=
  { hMeta with activeSwapCount := hMeta.compSwapCount, fsVersion := supportedVersion }

/-- The size of what is copied: everything behind the header up to the end of the data. -/
def upgradeSize (cfg : Config) (st : Image) : Nat := st.dataEnd cfg 0 - 8

/-- What the upgrade leaves: the tables and the data of logical block 0 are copied to the other
metadata block, and committed there. -/
def Upgraded (cfg : Config) (a : Nat) (fl : Flash) (c' : Ctx) (fl' : Flash) : Prop :=
  ∃ flM hdr, Moved cfg.eraseVal (scratchErased cfg a fl) flM (otherMetaBlock a) 8 a 8
      (upgradeSize cfg (image cfg fl a)) ∧
    hdr = nextHeader cfg flM (otherMetaBlock a) (upgradedHeader (image cfg fl a).header) ∧
    c' = ⟨hdr, otherMetaBlock a, a⟩ ∧ fl' = committed cfg flM a (otherMetaBlock a) hdr

/-- The filesystem once it is upgraded: the tables are those of the old one, `st`, and the data of
logical block 0 is gone. -/
structure AfterUpgrade (cfg : Config) (a : Nat) (st : Image) (c' : Ctx) (fl' : Flash) : Prop where
  active : c'.activeMetablock = otherMetaBlock a
  header : c'.metaBlockHeader = (mountedImage cfg c' fl').header
  scratch : c'.metaBlockHeader.scratchDblock = st.header.scratchDblock
  blocks : ∀ l, l < numActiveDblocks cfg → (mountedImage cfg c' fl').blocks l = st.blocks l
  files : ∀ i, i < cfg.maxNumFiles → (mountedImage cfg c' fl').files i = st.files i
  lost : ∀ o, (mountedImage cfg c' fl').data 0 o = cfg.eraseVal
  kept : ∀ l, 0 < l → l < numActiveDblocks cfg → ∀ o,
    (mountedImage cfg c' fl').data l o = st.data l o

namespace Version1
variable (h : Version1 cfg a fl)
include h

theorem headerCheck_eq : headerCheck cfg fl a (image cfg fl a).header = .ok () := by
  unfold headerCheck mblockValidateFsVersion
  rw [if_pos h.version]
  exact if_neg h.swap

theorem not_scratchRegion (o : Nat) : ¬ scratchRegion cfg (mountedCtx cfg a fl) a o := by
  rintro (hb | ⟨h2, hb⟩)
  · exact otherMetaBlock_ne a hb.symm
  · have hsc : 2 ≤ (image cfg fl a).header.scratchDblock := (h.wf.scratch h2).1
    have := h.a_le
    have he : a = (image cfg fl a).header.scratchDblock := hb
    omega

theorem blocks_erased (l : Nat) :
    (image cfg (scratchErased cfg a fl) a).blocks l = (image cfg fl a).blocks l :=
  image_blocks_congr (onlyIn_scratchErased cfg a fl) fun o _ _ => h.not_scratchRegion o

theorem files_erased (i : Nat) :
    (image cfg (scratchErased cfg a fl) a).files i = (image cfg fl a).files i :=
  image_files_congr (onlyIn_scratchErased cfg a fl) fun o _ _ => h.not_scratchRegion o

theorem dataEnd_le : 8 ≤ (image cfg fl a).dataEnd cfg 0 ∧
    (image cfg fl a).dataEnd cfg 0 ≤ cfg.blockSize ∧
    ((image cfg fl a).blocks 0).freeSize ≤ cfg.blockSize := by
  have hfree := h.wf.freeSize_le 0 h.accepted.numActive_pos
  have h8 := metaEnd_ge cfg
  rw [h.wf.lb0.2] at hfree
  have hfree : cfg.metaEnd + ((image cfg fl a).blocks 0).freeSize ≤ cfg.blockSize := hfree
  unfold Image.dataEnd
  omega

theorem readBlock0_query {G : Prog.Guard} (hG : AllowsReads cfg G) :
    (flashFsMblockReadBlockMetadataComp cfg logicalDblock0).Query cfg.eraseVal G
      (mountedCtx cfg a fl) (scratchErased cfg a fl) (.ok ((image cfg fl a).blocks 0)) := by
  have hlt : a < cfg.numBlocks := lt_of_le_of_lt h.a_le h.accepted.two_le_numBlocks
  have hend := h.accepted.metaEnd_le
  have hpos := h.accepted.numActive_pos
  have hle : 8 + 12 * 0 + blockMetadataSize ≤ cfg.blockSize := by
    unfold Config.metaEnd Config.fileEntry Config.filesStart at hend
    unfold blockMetadataSize
    omega
  have hv : mblockValidateBlockMetaComp cfg ((image cfg fl a).blocks 0) = .ok () :=
    h.wf.validateBlockMeta h.accepted h.a_le hpos
  have hcheck : ((if cfg.validateMetadata = true then
      mblockValidateBlockMetaComp cfg ((image cfg (scratchErased cfg a fl) a).blocks 0)
      else .ok ()) >>= fun _ => pure ((image cfg (scratchErased cfg a fl) a).blocks 0)) =
      Except.ok ((image cfg fl a).blocks 0) := by
    rw [h.blocks_erased, hv]
    split_ifs <;> rfl
  unfold flashFsMblockReadBlockMetadataComp
  rw [← hcheck]
  refine query_get.seq ((opsRead_query hG hlt hle).seq ?_)
  exact (query_ofExcept _).bind fun _ _ => query_pure _

theorem move_ok {G : Prog.Guard} (hG : ∀ fl o, StageOp cfg (otherMetaBlock a) 0 False fl o → G fl o) :
    (flashFsBlockToBlockMove (otherMetaBlock a) 8 a 8 (upgradeSize cfg (image cfg fl a))).Ok
      cfg.eraseVal G (mountedCtx cfg a fl) (scratchErased cfg a fl) fun _ c' flM =>
        c' = mountedCtx cfg a fl ∧ Moved cfg.eraseVal (scratchErased cfg a fl) flM
          (otherMetaBlock a) 8 a 8 (upgradeSize cfg (image cfg fl a)) := by
  have h2 := h.accepted.two_le_numBlocks
  have hd := h.dataEnd_le
  have hs := otherMetaBlock_le a
  have ha := h.a_le
  unfold upgradeSize
  refine (blockToBlockMove_ok ⟨.inl ⟨rfl, show blockMetaHeaderSize ≤ 8 from le_rfl⟩, by omega, by omega, fun hal => ?_,
    (False.elim : False → _)⟩ (otherMetaBlock_ne a) (by omega) (by omega)).guard hG
  refine ⟨hal.1, Nat.dvd_sub ?_ hal.1⟩
  exact Nat.dvd_sub hal.2.2.2.1 ((h.wf.aligned hal).1 0 h.accepted.numActive_pos)

theorem upgrade_ok : (mblockUpgradeMetaHeader cfg).Ok cfg.eraseVal anyOp (mountedCtx cfg a fl)
    (scratchErased cfg a fl) fun _ c' fl' => Upgraded cfg a fl c' fl' := by
  have hreads : AllowsReads cfg anyOp := fun _ _ _ _ _ _ => trivial
  have hbs := cfg.blockSize_lt
  have hd := h.dataEnd_le
  have hv : mblockValidateFsVersion (mountedCtx cfg a fl).metaBlockHeader.fsVersion = .ok true := by
    show mblockValidateFsVersion (image cfg fl a).header.fsVersion = _
    rw [h.version]
    rfl
  have hsize : sub32 (sub32 cfg.blockSize ((image cfg fl a).blocks 0).freeSize)
      blockMetaHeaderCompSize = upgradeSize cfg (image cfg fl a) := by
    rw [sub32_eq hbs hd.2.2]
    exact sub32_eq (lt_of_le_of_lt (Nat.sub_le _ _) hbs) hd.1
  unfold mblockUpgradeMetaHeader
  refine query_get.seq_wp ?_
  rw [hv]
  refine (query_ofExcept _).seq_wp ((h.readBlock0_query hreads).seq_wp ?_)
  dsimp only
  rw [hsize]
  refine (h.move_ok fun _ _ _ => trivial).bind_wp ?_
  rintro _ _ flM ⟨rfl, hm⟩
  refine modify_bind_wp rfl ((metaUpdateFinalize_ok hreads h.accepted (otherMetaBlock_le a) rfl
    fun _ _ _ => trivial).mono ?_)
  rintro _ c' fl' ⟨rfl, rfl⟩
  exact ⟨flM, _, hm, rfl, rfl, rfl⟩

/-! ## The upgraded filesystem -/

theorem metaEnd_le_dataEnd : cfg.metaEnd ≤ (image cfg fl a).dataEnd cfg 0 := by
  have hfree := h.wf.freeSize_le 0 h.accepted.numActive_pos
  rw [h.wf.lb0.2] at hfree
  have hfree : cfg.metaEnd + ((image cfg fl a).blocks 0).freeSize ≤ cfg.blockSize := hfree
  unfold Image.dataEnd
  omega

theorem inForce (hhdr : hdr.scratchDblock = (image cfg fl a).header.scratchDblock) :
    InForce cfg a (otherMetaBlock a) hdr flM (committed cfg flM a (otherMetaBlock a) hdr) := by
  refine inForce_committed (otherMetaBlock_le a) (otherMetaBlock_ne a) (fun h2 => ?_) ?_
  · rw [hhdr]
    exact (h.wf.scratch h2).1
  · rw [hhdr]
    exact Bytes.field_lt _ _ 4

/-- The tables are copied byte by byte. -/
theorem read_moved (hm : Moved cfg.eraseVal (scratchErased cfg a fl) flM (otherMetaBlock a) 8 a 8
      (upgradeSize cfg (image cfg fl a))) {off n : Nat} (ho : 8 ≤ off)
    (hle : off + n ≤ cfg.metaEnd) :
    flM.read cfg.eraseVal (otherMetaBlock a) off n =
      (scratchErased cfg a fl).read cfg.eraseVal a off n := by
  have hend := h.metaEnd_le_dataEnd
  refine read_congr fun i hi => ?_
  have hs := hm.same (off - 8 + i) (by unfold upgradeSize; omega)
  rwa [show 8 + (off - 8 + i) = off + i by omega] at hs

theorem afterUpgrade {c' : Ctx} (hu : Upgraded cfg a fl c' fl') :
    AfterUpgrade cfg a (image cfg fl a) c' fl' := by
  obtain ⟨flM, hdr, hm, hhdr, rfl, rfl⟩ := hu
  have hsc : hdr.scratchDblock = (image cfg fl a).header.scratchDblock := by
    rw [hhdr]
    rfl
  have hin : InForce cfg a (otherMetaBlock a) hdr flM (committed cfg flM a (otherMetaBlock a) hdr) :=
    h.inForce hsc
  have hout : ∀ o, 8 ≤ o → ¬ commitRegion cfg a (otherMetaBlock a) hdr (otherMetaBlock a) o :=
    fun o ho => not_commitRegion (otherMetaBlock_le a) (otherMetaBlock_ne a)
      (fun h2 => by rw [hsc]; exact (h.wf.scratch h2).1) ho
  have hclean := clean_committed h.accepted flM a (otherMetaBlock a) hdr
  have hblocks : ∀ l, l < numActiveDblocks cfg →
      (image cfg (committed cfg flM a (otherMetaBlock a) hdr) (otherMetaBlock a)).blocks l =
        (image cfg fl a).blocks l := fun l hl => by
    have hr := h.read_moved hm (show 8 ≤ 8 + 12 * l by omega) (n := blockMetadataSize) (by
      unfold Config.metaEnd Config.fileEntry Config.filesStart blockMetadataSize
      omega)
    rw [image_blocks_congr hin.only fun o h₁ _ => hout o (by omega), ← h.blocks_erased]
    exact congrArg BlockMeta.decode hr
  refine ⟨rfl, hin.header.symm, hsc, hblocks, fun i hi => ?_, fun o => ?_, fun l h₀ hl o => ?_⟩
  · have h8 : 8 ≤ cfg.fileEntry i := by
      unfold Config.fileEntry Config.filesStart
      omega
    have hr := h.read_moved hm h8 (n := fileMetadataSize) (h.accepted.fileEntry_le (Nat.succ_le_of_lt hi))
    show (image cfg (committed cfg flM a (otherMetaBlock a) hdr) (otherMetaBlock a)).files i = _
    rw [image_files_congr hin.only fun o h₁ _ => hout o (by
      unfold Config.fileEntry Config.filesStart at h₁
      omega), ← h.files_erased]
    exact congrArg FileMeta.decode hr
  · rw [mountedImage, image_data, hblocks 0 h.accepted.numActive_pos,
      show ((image cfg fl a).blocks 0).phyId = a from h.wf.lb0.1]
    exact hclean.byte (.inl rfl)
  · have hd := h.wf.dedicated l h₀ hl
    have hd : 2 ≤ ((image cfg fl a).blocks l).phyId ∧ _ ∧
      ((image cfg fl a).blocks l).phyId ≠ (image cfg fl a).header.scratchDblock ∧ _ := hd
    have ha := h.a_le
    have hs := otherMetaBlock_le a
    rw [mountedImage, image_data, hblocks l hl, image_data]
    -- the block of a dedicated logical block is neither copied to nor erased
    have h₁ : (scratchErased cfg a fl).byte cfg.eraseVal ((image cfg fl a).blocks l).phyId o =
        fl.byte cfg.eraseVal ((image cfg fl a).blocks l).phyId o :=
      (onlyIn_scratchErased cfg a fl).byte (by
        rintro (hb | ⟨_, hb⟩)
        · have hb : ((image cfg fl a).blocks l).phyId = otherMetaBlock a := hb
          omega
        · exact hd.2.2.1 hb)
    have h₂ : flM.byte cfg.eraseVal ((image cfg fl a).blocks l).phyId o =
        (scratchErased cfg a fl).byte cfg.eraseVal ((image cfg fl a).blocks l).phyId o :=
      hm.only.byte (fun hb => by have := hb.1; omega)
    have h₃ : (committed cfg flM a (otherMetaBlock a) hdr).byte cfg.eraseVal
        ((image cfg fl a).blocks l).phyId o =
        flM.byte cfg.eraseVal ((image cfg fl a).blocks l).phyId o :=
      hin.only.byte (by
        rintro (⟨hb, _⟩ | hb | ⟨_, hb⟩)
        · omega
        · omega
        · exact hd.2.2.1 (hb.trans hsc))
    exact h₃.trans (h₂.trans h₁)

/-- Mounting upgrades the filesystem. -/
theorem init_ok : (flashFsMblockInit cfg).Ok cfg.eraseVal anyOp c fl
    fun _ c' fl' => Upgraded cfg a fl c' fl' :=
  mblockInit_wp h.accepted h.a_le h.select h.headerCheck_eq (fun _ _ _ => trivial) h.upgrade_ok

end Version1

theorem MountableV1.version1 (h : MountableV1 cfg a fl) : Version1 cfg a fl :=
  ⟨h.accepted, h.a_le, h.select, h.version, h.swap, h.wf⟩

/-- The first mount succeeds. -/
theorem MountableV1.prepare_ok (h : MountableV1 cfg a fl) :
    (flashFsPrepare cfg).Ok cfg.eraseVal anyOp c fl
      fun _ c' fl' => AfterUpgrade cfg a (image cfg fl a) c' fl' := by
  have hreads : AllowsReads cfg anyOp := fun _ _ _ _ _ _ => trivial
  have hinit : (flashFsMblockInit cfg).Ok cfg.eraseVal anyOp c fl fun _ c' fl' =>
      AfterUpgrade cfg a (image cfg fl a) c' fl' :=
    h.version1.init_ok.mono fun _ _ _ hu => h.version1.afterUpgrade hu
  unfold flashFsPrepare
  refine hinit.bind ?_
  rintro _ c' fl' hu
  have hlt : c'.activeMetablock < cfg.numBlocks := hu.active ▸
    lt_of_le_of_lt (otherMetaBlock_le a) h.accepted.two_le_numBlocks
  have hq : (flashFsMblockGetFileIdxFlag cfg flagDelete).Query cfg.eraseVal anyOp c' fl'
      (findFile cfg (mountedImage cfg c' fl').files
        (fun fileMeta => fileMeta.flags &&& flagDelete != 0) cfg.maxNumFiles 0) :=
    findFileMeta_query hreads h.accepted hlt _ (Nat.zero_add cfg.maxNumFiles).le
  have hnone : findFile cfg (mountedImage cfg c' fl').files
      (fun fileMeta => fileMeta.flags &&& flagDelete != 0) cfg.maxNumFiles 0 =
      .error .doesNotExist := by
    rw [findFile_congr _ fun k _ hk => hu.files k (by omega)]
    rcases h.wf.findFile_cases h.accepted (fun fileMeta => fileMeta.flags &&& flagDelete != 0)
      (i := 0) (Nat.zero_add cfg.maxNumFiles).le with ⟨d, _, hd, hp, _⟩ | ⟨_, he⟩
    · exact absurd (bne_iff_ne.mp hp) (h.closed.unmarked d (by omega))
    · exact he
  rw [hnone] at hq
  exact hq.attempt.seq_wp (ok_pure hu)

/-- The files of logical block 0 read back erased, and the others as before. -/
theorem AfterUpgrade.content {c' : Ctx} {st : Image} (h : AfterUpgrade cfg a st c' fl')
    (hw : st.asVersion2.Wf cfg a) {i : Nat} (hi : i < cfg.maxNumFiles) (hid : (st.files i).id ≠ 0) :
    (mountedImage cfg c' fl').content i =
      if (st.files i).lblock = 0 then List.replicate (st.files i).curSize cfg.eraseVal
      else st.content i := by
  have hl : (st.files i).lblock < numActiveDblocks cfg := (hw.sizes i hi hid).1
  unfold Image.content
  rw [h.files i hi]
  split_ifs with h0
  · rw [h0]
    simp only [h.lost, List.map_const', List.length_range]
  · simp only [h.kept _ (Nat.pos_of_ne_zero h0) hl]

/-! ## What the upgrade should keep -/

/-- A valid version 2 filesystem with the scratch data block and the files of `st`. -/
structure UpgradeKeeps (cfg : Config) (st : Image) (c : Ctx) (fl : Flash) : Prop where
  wf : (mountedImage cfg c fl).Wf cfg c.activeMetablock
  scratch : (mountedImage cfg c fl).header.scratchDblock = st.header.scratchDblock
  files : (mountedImage cfg c fl).fileMap cfg = st.fileMap cfg
  lb0 : ((mountedImage cfg c fl).blocks 0).phyId = c.activeMetablock

/-- A store becomes a version 1 filesystem when its header is replaced. -/
theorem Store.mountableV1 (h : Store cfg c fl) (hv : hdr.fsVersion = backwardSupportedVersion)
    (hsc : hdr.scratchDblock = (mountedImage cfg c fl).header.scratchDblock)
    (hswap : hdr.compSwapCount ≠ cfg.eraseVal) :
    MountableV1 cfg c.activeMetablock (headerWritten fl c.activeMetablock hdr) := by
  have hf : OnlyIn (range c.activeMetablock 0 8) fl (headerWritten fl c.activeMetablock hdr) := by
    have hw := onlyIn_write fl c.activeMetablock 0 hdr.encode
    rwa [hdr.encode_length] at hw
  have hlt : hdr.scratchDblock < 2 ^ 32 := hsc ▸ Bytes.field_lt _ _ 4
  have hheader : (image cfg (headerWritten fl c.activeMetablock hdr) c.activeMetablock).header =
      hdr := (inForce_headerWritten (a := c.scratchMetablock) hlt).header
  have hblocks : ∀ l, (image cfg (headerWritten fl c.activeMetablock hdr) c.activeMetablock).blocks l
      = (mountedImage cfg c fl).blocks l := fun l =>
    image_blocks_congr hf fun o h₁ _ hw => by have := hw.2.2; omega
  have hsame : (mountedImage cfg c fl).Same cfg
      (image cfg (headerWritten fl c.activeMetablock hdr) c.activeMetablock).asVersion2 := by
    refine ⟨h.wf.version.symm, ?_, fun l _ => hblocks l, fun i _ => ?_, fun l hl o ho _ => ?_⟩
    · exact (congrArg MetadataBlockHeader.scratchDblock hheader).trans hsc
    · refine image_files_congr hf fun o h₁ _ hw => ?_
      have := hw.2.2
      unfold Config.fileEntry Config.filesStart at h₁
      omega
    · show (image cfg _ _).data l o = _
      rw [mountedImage, image_data, image_data, hblocks]
      refine hf.byte fun hw => ?_
      have h0 : l = 0 := by
        by_contra h0
        have hd := (h.wf.dedicated l (Nat.pos_of_ne_zero h0) hl).1
        have := h.active_le
        have := hw.1
        omega
      have hend := metaEnd_ge cfg
      have := hw.2.2
      subst h0
      rw [h.wf.lb0.2] at ho
      omega
  have hcheck : headerCheck cfg (headerWritten fl c.activeMetablock hdr) c.activeMetablock hdr =
      .ok () := by
    unfold headerCheck mblockValidateFsVersion
    rw [if_pos hv]
    exact if_neg hswap
  have hread : readHeader cfg (headerWritten fl c.activeMetablock hdr) c.activeMetablock =
      some hdr := by
    unfold readHeader
    rw [hheader, hcheck]
  have hother : readHeader cfg (headerWritten fl c.activeMetablock hdr)
      (otherMetaBlock c.activeMetablock) = none :=
    (readHeader_congr hf fun _ hw => otherMetaBlock_ne _ hw.1).trans h.other_readHeader
  have hcl := hsame.closed h.closed
  exact ⟨h.accepted, h.active_le, selectActive_of_only h.active_le hread hother,
    (congrArg MetadataBlockHeader.fsVersion hheader).trans hv,
    (congrArg MetadataBlockHeader.compSwapCount hheader).trans_ne hswap,
    hsame.wf h.accepted h.wf, hcl.unique, hcl.unmarked, hcl.spare⟩

/-- A version 1 filesystem with one file of four bytes, in logical block 0. -/
def oldFlash : Flash :=
  headerWritten (filled twoBlocks [.write fourBytes]).2
    (filled twoBlocks [.write fourBytes]).1.activeMetablock ⟨1, backwardSupportedVersion, 7, 0, 0⟩

theorem mountableV1_oldFlash :
    MountableV1 twoBlocks (filled twoBlocks [.write fourBytes]).1.activeMetablock oldFlash := by
  have hs : Store twoBlocks (filled twoBlocks [.write fourBytes]).1
      (filled twoBlocks [.write fourBytes]).2 :=
    (reaches_filled (by decide)).store twoBlocks_accepted
  exact hs.mountableV1 rfl (by decide +kernel) (by decide)

end Etss
