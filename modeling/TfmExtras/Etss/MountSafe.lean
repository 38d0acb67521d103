import TfmExtras.Etss.AnyTables
import TfmExtras.Etss.ResumeSafe
import TfmExtras.Etss.Upgrade

/-! Mounting any flash content: which headers and tables make a mount touch blocks that are in
use, or leave the blocks of the area. -/

namespace Etss
open NorFlash NorFlash.Flash FlashM

variable {cfg : Config} {a x d : Nat} {c : Ctx} {fl fl₀ fl' : Flash} {hdr : MetadataBlockHeader}

/-! ## What the tables have to satisfy -/

/-- A deletion that is marked in the file table can be resumed, if the mount gets as far as moving
data. -/
def Image.Resumes (cfg : Config) (st : Image) (x d : Nat) : Prop :=
  ∀ k, findFile cfg st.files (fun f => f.flags &&& flagDelete != 0) cfg.maxNumFiles 0 = .ok k →
    (st.files k).id ≠ 0 → (∀ j < cfg.maxNumFiles, st.FilePasses cfg j) →
    st.BlockPasses cfg (st.files k).lblock → st.ResumeFits cfg x d k

/-- Metadata block `a` as far as an upgrade copies it to the other one. -/
def upgradeCopy (cfg : Config) (fl : Flash) (a : Nat) : Flash :=
  (fl.erase (otherMetaBlock a)).write (otherMetaBlock a) 8
    (fl.read cfg.eraseVal a 8 (cfg.blockSize - ((image cfg fl a).blocks 0).freeSize - 8))

/-- The version 1 tables in metadata block `a` can be upgraded. -/
structure UpgradeFits (cfg : Config) (fl : Flash) (a : Nat) : Prop where
  room : ((image cfg fl a).blocks 0).freeSize + 8 ≤ cfg.blockSize
  /-- Where they are copied to, they name neither the old metadata block nor the scratch block. -/
  spare : SpareIn cfg (image cfg (upgradeCopy cfg fl a) (otherMetaBlock a)).blocks
    (otherMetaBlock a) (image cfg fl a).header.scratchDblock
  resumes : (image cfg (upgradeCopy cfg fl a) (otherMetaBlock a)).Resumes cfg (otherMetaBlock a)
    (image cfg fl a).header.scratchDblock

/-- The header and the tables in metadata block `a` fit together. -/
structure MountFits (cfg : Config) (fl : Flash) (a : Nat) : Prop where
  spare : SpareIn cfg (image cfg fl a).blocks a (image cfg fl a).header.scratchDblock
  upgrade : (image cfg fl a).header.fsVersion = backwardSupportedVersion →
    (image cfg fl a).BlockPasses cfg 0 → UpgradeFits cfg fl a
  resumes : (image cfg fl a).header.fsVersion = supportedVersion →
    (image cfg fl a).Resumes cfg a (image cfg fl a).header.scratchDblock

/-! ## Resuming a deletion -/

theorem BuildsAside.deleteMarked_watched (h : BuildsAside cfg fl₀ x d c fl)
    (hval : cfg.validateMetadata = true) (hd : c.metaBlockHeader.scratchDblock = d) :
    (deleteMarked cfg).Watched (mountWatch cfg) cfg.eraseVal (some x) c fl (fun _ _ _ _ => True) ↔
      (image cfg fl₀ x).Resumes cfg x d := by
  have hfind : (flashFsMblockGetFileIdxFlag cfg flagDelete).attempt.Query cfg.eraseVal (ReadOp cfg)
      c fl (.ok (findFile cfg (image cfg fl₀ x).files (fun f => f.flags &&& flagDelete != 0)
        cfg.maxNumFiles 0)) := by
    have hq : (flashFsMblockGetFileIdxFlag cfg flagDelete).Query cfg.eraseVal (ReadOp cfg) c fl _ :=
      findFileMeta_query allowsReads_readOp h.accepted (h.active.trans_lt h.a_lt) _
        (Nat.zero_add _).le
    have hfiles : (image cfg fl c.activeMetablock).files = (image cfg fl₀ x).files := by
      rw [h.active]
      exact funext h.files
    rw [hfiles] at hq
    exact hq.attempt
  unfold deleteMarked Image.Resumes
  refine (hfind.bind_watched ReadOp.rests).trans ?_
  cases hres : findFile cfg (image cfg fl₀ x).files (fun f => f.flags &&& flagDelete != 0)
      cfg.maxNumFiles 0 with
  | error e =>
    refine iff_of_true ?_ fun k hk => of_error_eq_ok hk
    cases e <;> exact ⟨trivial, trivial⟩
  | ok k =>
    obtain ⟨hlt, hpass⟩ := findFile_ok hval hres
    refine (h.deleteIdx_watched hval hd (hlt.trans_eq (Nat.zero_add _)) hpass).trans ?_
    constructor
    · rintro hw _ ⟨⟩
      exact hw
    · exact fun hw => hw k rfl

/-! ## Upgrading the tables -/

theorem sameTables_of_bytes {b : Nat}
    (h : ∀ o, 8 ≤ o → fl'.byte cfg.eraseVal b o = fl.byte cfg.eraseVal b o) :
    SameTables cfg b fl fl' := by
  constructor
  · refine funext fun i => congrArg FileMeta.decode (read_congr fun j _ => h _ ?_)
    unfold Config.fileEntry Config.filesStart
    omega
  · exact funext fun l => congrArg BlockMeta.decode (read_congr fun j _ => h _ (by omega))

section
variable (hs : SpareIn cfg (image cfg fl a).blocks a (image cfg fl a).header.scratchDblock)
include hs

/-- The erased scratch blocks are not metadata block `a`. -/
theorem scratchErased_active (o : Nat) : (scratchErased cfg a fl).cell a o = fl.cell a o := by
  refine onlyIn_scratchErased cfg a fl a o ?_
  rintro (hb | ⟨h2, hb⟩)
  · exact otherMetaBlock_ne a hb.symm
  · exact hs.dblock_ne h2 hb.symm

theorem buildsAside_mounted (hacc : cfg.Accepted) (ha : a ≤ 1) :
    BuildsAside cfg fl a (image cfg fl a).header.scratchDblock (mountedCtx cfg a fl)
      (scratchErased cfg a fl) := by
  have htables : SameTables cfg a fl (scratchErased cfg a fl) :=
    sameTables_of_bytes fun o _ => byte_congr (scratchErased_active hs o)
  exact ⟨⟨hacc, ha, otherMetaBlock_le a, otherMetaBlock_ne a, rfl, rfl, congrFun htables.blocks⟩,
    congrFun htables.files, hs⟩

omit hs in
theorem scratchErased_other (a : Nat) (fl : Flash) (o : Nat) :
    (scratchErased cfg a fl).cell (otherMetaBlock a) o = none := by
  unfold scratchErased
  split_ifs
  · rw [cell_erase, cell_erase, if_pos rfl, ite_self]
  · rw [cell_erase, if_pos rfl]

/-- The upgrade copies what `upgradeCopy` says. -/
theorem upgradeCopy_byte {flM : Flash} (hm : Moved cfg.eraseVal (scratchErased cfg a fl) flM
      (otherMetaBlock a) 8 a 8 (cfg.blockSize - ((image cfg fl a).blocks 0).freeSize - 8)) {o : Nat}
    (ho : 8 ≤ o) : flM.byte cfg.eraseVal (otherMetaBlock a) o =
      (upgradeCopy cfg fl a).byte cfg.eraseVal (otherMetaBlock a) o := by
  unfold upgradeCopy
  generalize cfg.blockSize - ((image cfg fl a).blocks 0).freeSize - 8 = n at hm
  rw [byte, byte, cell_write, read_length]
  by_cases hlt : o < 8 + n
  · rw [if_pos ⟨rfl, ho, hlt⟩, read_getD _ _ (by omega), Option.getD_some]
    have hsame := hm.same (o - 8) (by omega)
    rw [Nat.add_sub_cancel' ho] at hsame ⊢
    exact hsame.trans (byte_congr (scratchErased_active hs o))
  · rw [if_neg fun h => hlt h.2.2, cell_erase, if_pos rfl, hm.only _ _ fun h => hlt h.2.2,
      scratchErased_other]

end

theorem committed_byte {flM : Flash} {b s : Nat} (hb : b ≠ s)
    (hd : cfg.numBlocks ≠ 2 → hdr.scratchDblock ≠ s) (hacc : cfg.Accepted) {o : Nat} (ho : 8 ≤ o) :
    (committed cfg flM b s hdr).byte cfg.eraseVal s o = flM.byte cfg.eraseVal s o := by
  have hw : (headerWritten flM s hdr).cell s o = flM.cell s o := by
    refine onlyIn_write flM s 0 hdr.encode s o fun h => ?_
    have := h.2.2
    rw [hdr.encode_length] at this
    omega
  refine byte_congr ?_
  unfold committed
  split_ifs with h2
  · rw [cell_erase, if_neg (hd ((numBlocks_gt_iff hacc).mp h2)).symm, cell_erase,
      if_neg hb.symm, hw]
  · rw [cell_erase, if_neg hb.symm, hw]

/-- The bytes that an upgrade copies lie in the block when the free space leaves room for the
header. -/
theorem upgradeSize_iff {free : Nat} (hf : free ≤ cfg.blockSize) :
    8 + sub32 (sub32 cfg.blockSize free) blockMetaHeaderCompSize ≤ cfg.blockSize ↔
      free + 8 ≤ cfg.blockSize := by
  have hbs := cfg.blockSize_lt
  rw [sub32_eq hbs hf]
  unfold sub32 blockMetaHeaderCompSize
  omega

section
variable (hacc : cfg.Accepted) (hval : cfg.validateMetadata = true) (ha : a ≤ 1)
  (hs : SpareIn cfg (image cfg fl a).blocks a (image cfg fl a).header.scratchDblock)
include hacc hval ha hs

/-- The upgrade of version 1 tables, and what is done on the tables that it leaves. -/
theorem upgrade_watched (hv : (image cfg fl a).header.fsVersion = backwardSupportedVersion)
    {Q : Option Nat → Except Status Unit → Ctx → Flash → Prop} {P : Prop}
    (herr : ∀ e c' fl', Q (some a) (.error e) c' fl')
    (hok : ∀ c' fl', BuildsAside cfg (upgradeCopy cfg fl a) (otherMetaBlock a)
        (image cfg fl a).header.scratchDblock c' fl' →
      c'.metaBlockHeader.scratchDblock = (image cfg fl a).header.scratchDblock →
      (Q (some (otherMetaBlock a)) (.ok ()) c' fl' ↔ P)) :
    (mblockUpgradeMetaHeader cfg).Watched (mountWatch cfg) cfg.eraseVal (some a)
      (mountedCtx cfg a fl) (scratchErased cfg a fl) Q ↔
      ((image cfg fl a).BlockPasses cfg 0 →
        ((image cfg fl a).blocks 0).freeSize + 8 ≤ cfg.blockSize ∧
        SpareIn cfg (image cfg (upgradeCopy cfg fl a) (otherMetaBlock a)).blocks
          (otherMetaBlock a) (image cfg fl a).header.scratchDblock ∧ P) := by
  have h := buildsAside_mounted hs hacc ha
  have hread : (flashFsMblockReadBlockMetadataComp cfg logicalDblock0).Query cfg.eraseVal
      (ReadOp cfg) (mountedCtx cfg a fl) (scratchErased cfg a fl)
      (checkBlock cfg ((image cfg fl a).blocks 0)) := by
    have hq : (flashFsMblockReadBlockMetadataComp cfg logicalDblock0).Query cfg.eraseVal
        (ReadOp cfg) (mountedCtx cfg a fl) (scratchErased cfg a fl) _ :=
      readBlockMetadata_query allowsReads_readOp hacc (h.active.trans_lt h.a_lt) hacc.numActive_pos
    rwa [h.active, h.blocks] at hq
  have hver : mblockValidateFsVersion (mountedCtx cfg a fl).metaBlockHeader.fsVersion = .ok true :=
    if_pos hv
  unfold mblockUpgradeMetaHeader
  refine get_bind_watched.trans ?_
  rw [hver]
  refine (Query.bind_watched (query_ofExcept _) ReadOp.rests).trans ?_
  cases hcheck : checkBlock cfg ((image cfg fl a).blocks 0) with
  | error e =>
    rw [hcheck] at hread
    refine (hread.bind_watched_error ReadOp.rests).trans (iff_of_true (herr _ _ _) fun hp => ?_)
    exact of_error_eq_ok (hcheck.symm.trans hp)
  | ok m =>
  obtain ⟨rfl, hplaced⟩ := checkBlock_ok hval hcheck
  rw [hcheck] at hread
  refine (hread.bind_watched ReadOp.rests).trans (watched_bind.trans ?_)
  have hfree : ((image cfg fl a).blocks 0).freeSize ≤ cfg.blockSize :=
    (Nat.le_add_left _ _).trans hplaced.le
  have hoff : mblockBlockMetaOffset logicalDblock0 = 8 := hacc.blockOffset_eq (Nat.zero_le _)
  have h8 : 8 ≤ cfg.blockSize := (metaEnd_ge cfg).trans hacc.metaEnd_le
  have hsize := upgradeSize_iff hfree
  dsimp only
  rw [hoff, h.scratch, h.active]
  by_cases hroom : ((image cfg fl a).blocks 0).freeSize + 8 ≤ cfg.blockSize
  · have hn : sub32 (sub32 cfg.blockSize ((image cfg fl a).blocks 0).freeSize)
        blockMetaHeaderCompSize = cfg.blockSize - ((image cfg fl a).blocks 0).freeSize - 8 := by
      have hbs := cfg.blockSize_lt
      rw [sub32_eq hbs hfree]
      exact sub32_eq (by omega) (Nat.le_sub_of_add_le' hroom)
    rw [hn]
    refine (h.watched_iff (move_aside h.s_lt h.a_lt h.ne (fun _ => .inl ⟨rfl, by decide⟩)
      (by omega) (by change 8 + _ ≤ _; omega)) ?_).trans
      ⟨fun hw _ => ⟨hroom, hw⟩, fun hw => (hw hcheck).2⟩
    rintro _ _ flM hb ⟨_, rfl, rfl, hm⟩
    refine (modify_bind_watched (d := { mountedCtx cfg a fl with
      metaBlockHeader := upgradedHeader (image cfg fl a).header }) rfl).trans ?_
    refine (metaUpdateFinalize_watched hacc hval (x := a) rfl ha rfl hb.not_inUse_other rfl).trans ?_
    have htables : SameTables cfg (otherMetaBlock a) (upgradeCopy cfg fl a) flM :=
      sameTables_of_bytes fun o ho => upgradeCopy_byte hs hm ho
    rw [htables.blocks]
    refine and_congr_right fun hsp => hok _ _ ?_ rfl
    have hcommit : SameTables cfg (otherMetaBlock a) flM (committed cfg flM a (otherMetaBlock a)
        (nextHeader cfg flM (otherMetaBlock a) (upgradedHeader (image cfg fl a).header))) :=
      sameTables_of_bytes fun o ho => committed_byte h.ne.symm (fun hn => hsp.dblock_ne hn) hacc ho
    have hall := htables.trans hcommit
    exact ⟨⟨hacc, otherMetaBlock_le a, (otherMetaBlock_other ha).symm ▸ ha,
      otherMetaBlock_ne _, rfl, (otherMetaBlock_other ha).symm, congrFun hall.blocks⟩,
      congrFun hall.files, hsp⟩
  · refine iff_of_false (fun hw => hroom ?_) fun hw => hroom (hw hcheck).1
    generalize sub32 (sub32 cfg.blockSize ((image cfg fl a).blocks 0).freeSize)
      blockMetaHeaderCompSize = n at hw hsize
    refine hsize.mp (moveLoop_inBlock n le_rfl le_rfl ?_ (watched_inBlock hw))
    by_contra hn
    exact hroom (hsize.mp (by omega))

end

/-! ## The mount -/

/-- Up to the upgrade a mount programs and erases nothing but the scratch blocks. -/
theorem init_watched (hacc : cfg.Accepted) (hsel : selectActive cfg fl = .ok a)
    {Q : Option Nat → Except Status Unit → Ctx → Flash → Prop} :
    (flashFsMblockInit cfg).Watched (mountWatch cfg) cfg.eraseVal (some a) c fl Q ↔
      SpareIn cfg (image cfg fl a).blocks a (image cfg fl a).header.scratchDblock ∧
        (mblockUpgradeMetaHeader cfg).Watched (mountWatch cfg) cfg.eraseVal (some a)
          (mountedCtx cfg a fl) (scratchErased cfg a fl) Q := by
  obtain ⟨hle, hMeta, hread⟩ := selectActive_readHeader hsel
  have hinit : (mountWatch cfg).allows (some a) fl .init := ⟨trivial, fun b hb => by cases hb⟩
  have hget : ((initGetActiveMetablock cfg).failAs .genericError).Ok cfg.eraseVal (ReadOp cfg) c fl
      fun _ c' fl' => c' = { c with activeMetablock := a, scratchMetablock := otherMetaBlock a } ∧
        fl' = fl := by
    refine Ok.failAs (initGetActiveMetablock_wp allowsReads_readOp hacc (fun b hb => ?_)
      fun e he => of_error_eq_ok (he.symm.trans hsel))
    obtain rfl : a = b := Except.ok.inj (hsel.symm.trans hb)
    exact ⟨(), rfl, rfl, rfl⟩
  have hheader : ((mblockReadMetaHeader cfg).failAs .genericError).Ok cfg.eraseVal (ReadOp cfg)
      { c with activeMetablock := a, scratchMetablock := otherMetaBlock a } fl fun _ c' fl' =>
        c' = mountedCtx cfg a fl ∧ fl' = fl :=
    (readMetaHeader_ok (c := { c with activeMetablock := a, scratchMetablock := otherMetaBlock a })
      (readHeader_some hread).2 allowsReads_readOp hacc hle).failAs
  unfold flashFsMblockInit opsInit
  refine issue_bind_watched.trans ((and_iff_right hinit).trans (watched_bind.trans ?_))
  refine watched_of_wp hget ReadOp.rests ?_
  rintro _ _ _ ⟨_, rfl, rfl, rfl⟩
  refine watched_bind.trans (watched_of_wp hheader ReadOp.rests ?_)
  rintro _ _ _ ⟨_, rfl, rfl, rfl⟩
  exact (watched_bind.trans watched_failAs).trans (eraseScratchBlocks_watched hacc rfl)

theorem selectActive_version (hsel : selectActive cfg fl = .ok a) :
    (image cfg fl a).header.fsVersion = backwardSupportedVersion ∨
      (image cfg fl a).header.fsVersion = supportedVersion := by
  obtain ⟨-, hMeta, hread⟩ := selectActive_readHeader hsel
  have hcheck := (readHeader_some hread).2
  unfold headerCheck mblockValidateFsVersion at hcheck
  by_cases h₁ : (image cfg fl a).header.fsVersion = backwardSupportedVersion
  · exact .inl h₁
  · rw [if_neg h₁] at hcheck
    by_cases h₂ : (image cfg fl a).header.fsVersion = supportedVersion
    · exact .inr h₂
    · rw [if_neg h₂] at hcheck
      exact of_error_eq_ok hcheck

/-- A version 2 header is not upgraded. -/
theorem upgrade_watched_current (hv : c.metaBlockHeader.fsVersion = supportedVersion)
    {g : Option Nat} {Q : Option Nat → Except Status Unit → Ctx → Flash → Prop} :
    (mblockUpgradeMetaHeader cfg).Watched (mountWatch cfg) cfg.eraseVal g c fl Q ↔
      Q g (.ok ()) c fl := by
  have hver : mblockValidateFsVersion c.metaBlockHeader.fsVersion = .ok false := by
    rw [hv]
    rfl
  unfold mblockUpgradeMetaHeader
  refine get_bind_watched.trans ?_
  rw [hver]
  exact (Query.bind_watched (query_ofExcept _) ReadOp.rests).trans (watched_pure ())

section
variable (hacc : cfg.Accepted) (hval : cfg.validateMetadata = true)
include hacc hval

theorem prepare_watched (hsel : selectActive cfg fl = .ok a) :
    (flashFsPrepare cfg).Watched (mountWatch cfg) cfg.eraseVal (some a) c fl
      (fun _ _ _ _ => True) ↔ MountFits cfg fl a := by
  obtain ⟨ha, -⟩ := selectActive_readHeader hsel
  have hne : supportedVersion ≠ backwardSupportedVersion := by decide
  rw [prepare_eq]
  refine (watched_bind.trans (init_watched hacc hsel)).trans ?_
  obtain hv | hv := selectActive_version hsel
  · constructor
    · rintro ⟨hs, hw⟩
      refine ⟨hs, fun _ hp => ?_, fun h2 => absurd (h2.symm.trans hv) hne⟩
      obtain ⟨hroom, hspare, hresumes⟩ := (upgrade_watched hacc hval ha hs hv
        (fun _ _ _ => trivial) fun _ _ hb hd => hb.deleteMarked_watched hval hd).mp hw hp
      exact ⟨hroom, hspare, hresumes⟩
    · intro h
      refine ⟨h.spare, (upgrade_watched hacc hval ha h.spare hv (fun _ _ _ => trivial)
        fun _ _ hb hd => hb.deleteMarked_watched hval hd).mpr fun hp => ?_⟩
      have hfits := h.upgrade hv hp
      exact ⟨hfits.room, hfits.spare, hfits.resumes⟩
  · have hmarked (hs : SpareIn cfg (image cfg fl a).blocks a (image cfg fl a).header.scratchDblock) :=
      (buildsAside_mounted hs hacc ha).deleteMarked_watched hval rfl
    constructor
    · rintro ⟨hs, hw⟩
      refine ⟨hs, fun h1 => absurd (hv.symm.trans h1) hne, fun _ => ?_⟩
      exact (hmarked hs).mp ((upgrade_watched_current hv).mp hw)
    · intro h
      exact ⟨h.spare, (upgrade_watched_current hv).mpr ((hmarked h.spare).mpr (h.resumes hv))⟩

omit hval in
/-- When no metadata block is valid, the mount only reads. -/
theorem prepare_rests {e : Status} (hsel : selectActive cfg fl = .error e) (g : Option Nat) :
    (mountWatch cfg).Rests g ((flashFsPrepare cfg).trace cfg.eraseVal c fl) := by
  have hw : (flashFsPrepare cfg).Err cfg.eraseVal (fun fl o => o = .init ∨ ReadOp cfg fl o) c fl
      .genericError fun _ _ => True := by
    unfold flashFsPrepare flashFsMblockInit
    refine Err.bind (Ok.bind_err (R := fun _ _ fl' => fl' = fl) (ok_issue (.inl rfl) rfl) ?_)
    rintro _ c _ rfl
    refine Err.bind (Err.failAs (e := e) (initGetActiveMetablock_wp
      (fun _ _ _ _ hb ho => .inr ⟨hb, ho⟩) hacc (fun a ha => ?_) fun e' he => ?_))
    · exact of_error_eq_ok (hsel.symm.trans ha)
    · exact ⟨congrArg Except.error (Except.error.inj (he.symm.trans hsel)), trivial⟩
  intro x hx
  obtain hi | hr := (wp_iff.mp hw).1 x hx
  · rw [hi]
    exact ⟨⟨trivial, fun b hb => by cases hb⟩, rfl⟩
  · exact ReadOp.rests _ _ hr

/-- A mount of any flash content stays inside the blocks, and programs and erases no block that
the filesystem in force uses, exactly when the header and the tables of the metadata block that it
takes fit together. -/
theorem prepare_keeps_iff (c : Ctx) (fl : Flash) :
    (mountWatch cfg).Keeps (selectActive cfg fl).toOption
        ((flashFsPrepare cfg).trace cfg.eraseVal c fl) ↔
      ∀ a, selectActive cfg fl = .ok a → MountFits cfg fl a := by
  cases hsel : selectActive cfg fl with
  | error e =>
    exact iff_of_true (prepare_rests hacc hsel none).keeps fun a ha => of_error_eq_ok ha
  | ok a =>
    refine (and_iff_left trivial).symm.trans ((prepare_watched hacc hval hsel).trans ?_)
    constructor
    · rintro h _ ⟨⟩
      exact h
    · exact fun h => h a rfl

end

/-- A formatted flash whose header names a block in use as the scratch block. -/
def scratchInUse : Flash :=
  let fl := (formatted checkedBlocks).flash
  fl.write 1 0 (MetadataBlockHeader.encode
    { (image checkedBlocks fl 1).header with scratchDblock := 3 })

theorem prepare_keeps_checkedBlocks :
    (mountWatch checkedBlocks).Keeps (selectActive checkedBlocks packedFiles).toOption
      ((flashFsPrepare checkedBlocks).trace checkedBlocks.eraseVal Ctx.zero packedFiles) ∧
    ¬ (mountWatch checkedBlocks).Keeps (selectActive checkedBlocks scratchInUse).toOption
      ((flashFsPrepare checkedBlocks).trace checkedBlocks.eraseVal Ctx.zero scratchInUse) := by
  constructor
  · refine (prepare_keeps_iff checkedBlocks_accepted rfl Ctx.zero packedFiles).mpr fun a ha => ?_
    have hsel : selectActive checkedBlocks packedFiles = .ok 1 := by decide +kernel
    obtain rfl : 1 = a := Except.ok.inj (hsel.symm.trans ha)
    refine ⟨⟨by decide +kernel, fun _ => by decide +kernel, fun _ => by decide +kernel,
      fun _ => by decide +kernel⟩, fun hv => absurd hv (by decide +kernel), fun _ k hk => ?_⟩
    have hnone : findFile checkedBlocks (image checkedBlocks packedFiles 1).files
        (fun f => f.flags &&& flagDelete != 0) checkedBlocks.maxNumFiles 0 =
        .error .doesNotExist := by decide +kernel
    exact of_error_eq_ok (hnone.symm.trans hk)
  · intro h
    have hfits := (prepare_keeps_iff checkedBlocks_accepted rfl Ctx.zero scratchInUse).mp h 1
      (by decide +kernel)
    exact hfits.spare.dblock (by decide) 1 (by decide) (by decide +kernel)

/-! ## Well-formed filesystems -/

section
variable {st : Image} (h : st.Wf cfg a)
include h

theorem Image.Wf.spareIn (ha : a ≤ 1) : SpareIn cfg st.blocks a st.header.scratchDblock where
  other _ hl := h.phyId_ne (otherMetaBlock_le a) (otherMetaBlock_ne a) hl
  dblock_lt hn := (h.scratch hn).2
  dblock_ne hn he := by
    have := (h.scratch hn).1
    omega
  dblock hn _ hl := h.phyId_ne_scratch ha hl hn

/-- The data of a dedicated block never goes to the other metadata block. -/
theorem Image.Wf.asideBlock_eq (hacc : cfg.Accepted) {l : Nat} (hl : l < numActiveDblocks cfg)
    (he : asideBlock a st.header.scratchDblock l = otherMetaBlock a) : l = 0 := by
  by_contra h0
  unfold asideBlock at he
  rw [if_neg h0] at he
  have := (h.scratch (numBlocks_ne_two hacc h0 hl)).1
  have := otherMetaBlock_le a
  omega

theorem Image.Wf.remapFits (ha : a ≤ 1) {l : Nat} (hl : l < numActiveDblocks cfg) :
    st.RemapFits cfg a st.header.scratchDblock l where
  others l' h0 hl' _ he := by
    have := (h.dedicated l' h0 hl').1
    omega
  unshared h0 l' h0' hl' hne he := hne (h.phys_inj l' l h0' hl' (Nat.pos_of_ne_zero h0) hl he)
  dblock _ hn he := by
    have := (h.scratch hn).1
    have := otherMetaBlock_le a
    omega

/-- In a well-formed filesystem the deletion of every file can be resumed. -/
theorem Image.Wf.resumeFits (hacc : cfg.Accepted) (ha : a ≤ 1)
    (hval : cfg.validateMetadata = true) {k : Nat} (hk : k < cfg.maxNumFiles)
    (hid : (st.files k).id ≠ 0)
    (hall : ∀ j < cfg.maxNumFiles, st.FilePasses cfg j) :
    st.ResumeFits cfg a st.header.scratchDblock k := by
  have hl := (h.sizes k hk hid).1
  have hin := h.inside hk hid
  have h8 := metaEnd_ge cfg
  have hstart : asideBlock a st.header.scratchDblock (st.files k).lblock = otherMetaBlock a →
      0 < (st.blocks (st.files k).lblock).dataStart := fun he => by
    rw [h.asideBlock_eq hacc hl he, h.lb0.2]
    omega
  refine (Image.resumeFits_iff hval hall).mp ⟨⟨fun hpos => ?_, fun _ he => ?_, fun _ he => hstart he⟩,
    fun _ => ⟨fun _ h0 => ?_, h.remapFits ha hl⟩⟩
  · obtain ⟨-, hnone⟩ | ⟨-, hend, -⟩ := h.scan_cases hk hid
    · omega
    · exact hend.trans_le (Nat.sub_le _ _)
  · exact (hstart he).trans_le hin.1
  · rw [h.lb0.2] at h0
    omega

end

/-- The mount of a well-formed filesystem does no harm, whichever deletion is marked in it. -/
theorem Mountable.mountFits (h : Mountable cfg a fl) (hval : cfg.validateMetadata = true) :
    MountFits cfg fl a where
  spare := h.wf.spareIn h.a_le
  upgrade hv := absurd (h.valid.version.symm.trans hv) (by decide)
  resumes _ k hk hid hall _ := by
    have hlt := (findFile_ok hval hk).1
    exact h.wf.resumeFits h.accepted h.a_le hval (hlt.trans_eq (Nat.zero_add _)) hid hall

end Etss
