import TfmExtras.Etss.Commit

/-! The states of a mounted filesystem: the context agrees with the newest header, and what the
commit of an update makes of a staged one. -/

namespace Etss
open Bytes NorFlash NorFlash.Flash FlashM

variable {cfg : Config} {a s : Nat} {c : Ctx} {fl flS fl' : Flash} {hdr : MetadataBlockHeader}

/-! ## Valid headers -/

structure HeaderValid (cfg : Config) (fl : Flash) (b : Nat) : Prop where
  version : (image cfg fl b).header.fsVersion = supportedVersion
  swap : (image cfg fl b).header.activeSwapCount ≠ cfg.eraseVal
  xor : cfg.validateMetadata = true → metadataXor cfg fl b = (image cfg fl b).header.metadataXor

theorem HeaderValid.headerCheck_eq {b : Nat} (h : HeaderValid cfg fl b) :
    headerCheck cfg fl b (image cfg fl b).header = .ok () := by
  have hv : mblockValidateFsVersion (image cfg fl b).header.fsVersion = .ok false := by
    rw [h.version]
    rfl
  have hs : mblockValidateSwapCount cfg (image cfg fl b).header.activeSwapCount = .ok () :=
    if_neg h.swap
  unfold headerCheck
  rw [hv]
  show (mblockValidateSwapCount cfg (image cfg fl b).header.activeSwapCount >>= _) = _
  rw [hs]
  show (if cfg.validateMetadata = true then _ else _) = _
  split_ifs with hval hx
  · exact absurd (h.xor hval) hx
  · rfl
  · rfl

theorem HeaderValid.readHeader_eq {b : Nat} (h : HeaderValid cfg fl b) :
    readHeader cfg fl b = some (image cfg fl b).header := by
  unfold readHeader
  rw [h.headerCheck_eq]

/-- A header without a version and swap counts is not valid, whatever the erase value. -/
theorem readHeader_blank {b : Nat} (h : Clean (range b 4 8) fl) : readHeader cfg fl b = none := by
  have hbyte : ∀ i < 8, 4 ≤ i → (fl.read cfg.eraseVal b 0 8).getD i 0 = cfg.eraseVal :=
    fun i hi h4 => by
      rw [read_getD fl _ hi]
      exact h.byte ⟨rfl, by omega, by omega⟩
  have hver : (image cfg fl b).header.fsVersion = cfg.eraseVal := hbyte 4 (by decide) (by decide)
  have hcomp : (image cfg fl b).header.compSwapCount = cfg.eraseVal := hbyte 5 (by decide) (by decide)
  have hswap : (image cfg fl b).header.activeSwapCount = cfg.eraseVal := hbyte 6 (by decide) (by decide)
  have hcount : mblockValidateSwapCount cfg cfg.eraseVal = .error .genericError := if_pos rfl
  have hc : headerCheck cfg fl b (image cfg fl b).header = .error .genericError := by
    unfold headerCheck mblockValidateFsVersion
    rw [hver, hcomp, hswap, hcount]
    by_cases h1 : cfg.eraseVal = backwardSupportedVersion
    · rw [if_pos h1]
      rfl
    · rw [if_neg h1]
      by_cases h2 : cfg.eraseVal = supportedVersion
      · rw [if_pos h2]
        rfl
      · rw [if_neg h2]
        rfl
  unfold readHeader
  rw [hc]

/-- The header of an erased block is not valid. -/
theorem readHeader_erased {b : Nat} (h : Clean (range b 0 8) fl) : readHeader cfg fl b = none :=
  readHeader_blank (h.mono fun _ _ hw => ⟨hw.1, Nat.zero_le _, hw.2.2⟩)

/-! ## Mounted filesystems -/

theorem otherMetaBlock_le (b : Nat) : otherMetaBlock b ≤ 1 := by
  unfold otherMetaBlock metadataBlock0 metadataBlock1
  split_ifs <;> omega

theorem otherMetaBlock_ne (b : Nat) : otherMetaBlock b ≠ b := by
  unfold otherMetaBlock metadataBlock0 metadataBlock1
  split_ifs <;> omega

theorem otherMetaBlock_other {b : Nat} (h : b ≤ 1) : otherMetaBlock (otherMetaBlock b) = b := by
  obtain rfl | rfl : b = 0 ∨ b = 1 := by omega
  all_goals rfl

/-- The filesystem a context has mounted. -/
def mountedImage (cfg : Config) (c : Ctx) (fl : Flash) : Image := image cfg fl c.activeMetablock

/-- The scratch blocks of a mounted filesystem. -/
def scratchRegion (cfg : Config) (c : Ctx) : Region := fun b _ =>
  b = c.scratchMetablock ∨ (cfg.numBlocks ≠ 2 ∧ b = c.metaBlockHeader.scratchDblock)

/-- The file table in the scratch metadata block. -/
def scratchFiles (cfg : Config) (c : Ctx) : Region :=
  fileRange cfg c.scratchMetablock 0 cfg.maxNumFiles

/-- A mounted filesystem: well formed, with one valid header, which the context holds, and with
erased scratch blocks, the file table in the scratch metadata block apart. -/
structure Mounted (cfg : Config) (c : Ctx) (fl : Flash) : Prop where
  accepted : cfg.Accepted
  active_le : c.activeMetablock ≤ 1
  scratch : c.scratchMetablock = otherMetaBlock c.activeMetablock
  header : c.metaBlockHeader = (mountedImage cfg c fl).header
  valid : HeaderValid cfg fl c.activeMetablock
  erased : Clean (fun b o => scratchRegion cfg c b o ∧ ¬ scratchFiles cfg c b o) fl
  wf : (mountedImage cfg c fl).Wf cfg c.activeMetablock

theorem Mounted.ready (h : Mounted cfg c fl) :
    Ready cfg fl c.activeMetablock c.scratchMetablock c fl where
  accepted := h.accepted
  a_le := h.active_le
  s_le := h.scratch ▸ otherMetaBlock_le _
  ne := h.scratch ▸ otherMetaBlock_ne _
  wf := h.wf
  active := rfl
  scratch := rfl
  only := .refl _ _

theorem Mounted.clean_header (h : Mounted cfg c fl) : Clean (range c.scratchMetablock 0 8) fl :=
  h.erased.mono fun b o hw => ⟨.inl hw.1, fun hf => by
    obtain ⟨_, h₁, _⟩ := hf
    have := hw.2.2
    unfold Config.fileEntry Config.filesStart at h₁
    omega⟩

theorem Mounted.clean_blocks (h : Mounted cfg c fl) :
    Clean (blockRange c.scratchMetablock 0 (numActiveDblocks cfg)) fl :=
  h.erased.mono fun b o hw => ⟨.inl hw.1, fileRange_apart_blockRange le_rfl b o hw⟩

theorem Mounted.clean_data (h : Mounted cfg c fl) {l : Nat} (hl : l < numActiveDblocks cfg) :
    Clean (dataRange cfg c.scratchMetablock (mountedImage cfg c fl) l) fl := by
  have hr := h.ready
  refine h.erased.mono fun b o hw => ⟨?_, fun hf => ?_⟩
  · rcases hr.dataRange_stageRegion hl b o hw with ⟨hb, _⟩ | ⟨h2, hb⟩
    · exact .inl hb
    · exact .inr ⟨h2, hb.trans (congrArg MetadataBlockHeader.scratchDblock h.header.symm)⟩
  · exact hr.dataRange_apart hl le_rfl b o hf hw

/-! ## After the header is written -/

theorem image_header_congr {W : Region} {b : Nat} (h : OnlyIn W fl fl')
    (hd : ∀ o < 8, ¬ W b o) : (image cfg fl' b).header = (image cfg fl b).header := by
  have hr : fl'.read cfg.eraseVal b 0 blockMetaHeaderSize =
      fl.read cfg.eraseVal b 0 blockMetaHeaderSize := h.read fun i hi => hd _ (by
        unfold blockMetaHeaderSize at hi
        omega)
  exact congrArg MetadataBlockHeader.decode hr

theorem metadataXor_congr {W : Region} {b : Nat} (h : OnlyIn W fl fl')
    (hd : ∀ o, 8 ≤ o → o < cfg.metaEnd → ¬ W b o) :
    metadataXor cfg fl' b = metadataXor cfg fl b := by
  have hr : fl'.read cfg.eraseVal b 8 (cfg.metaEnd - 8) =
      fl.read cfg.eraseVal b 8 (cfg.metaEnd - 8) := h.read fun i hi =>
    hd _ (by omega) (by omega)
  unfold metadataXor
  rw [hr]

/-- The cells that a commit changes: the header, the old metadata block, the old data block. -/
def commitRegion (cfg : Config) (a s : Nat) (hdr : MetadataBlockHeader) : Region := fun b o =>
  (b = s ∧ o < 8) ∨ b = a ∨ (cfg.numBlocks ≠ 2 ∧ b = hdr.scratchDblock)

/-- The update staged in `flS` is in force with the header `hdr` in `fl'`. -/
structure InForce (cfg : Config) (a s : Nat) (hdr : MetadataBlockHeader) (flS fl' : Flash) :
    Prop where
  header : (image cfg fl' s).header = hdr
  only : OnlyIn (commitRegion cfg a s hdr) flS fl'

/-- The filesystem that is staged in `flS`, once the header is `hdr`. -/
def stagedImage (cfg : Config) (flS : Flash) (s : Nat) (hdr : MetadataBlockHeader) : Image :=
  { image cfg flS s with header := hdr }

theorem inForce_headerWritten (hs : hdr.scratchDblock < 2 ^ 32) :
    InForce cfg a s hdr flS (headerWritten flS s hdr) where
  header := by
    have hr := read_write_self flS cfg.eraseVal s 0 hdr.encode
    rw [hdr.encode_length] at hr
    exact (congrArg MetadataBlockHeader.decode hr).trans (MetadataBlockHeader.decode_encode hs)
  only := by
    refine (onlyIn_write flS s 0 hdr.encode).mono fun b o hw => .inl ⟨hw.1, ?_⟩
    have := hw.2.2
    rwa [hdr.encode_length] at this

theorem InForce.erase {b : Nat} (h : InForce cfg a s hdr flS fl') (hb : b ≠ s)
    (ht : b = a ∨ (cfg.numBlocks ≠ 2 ∧ b = hdr.scratchDblock)) :
    InForce cfg a s hdr flS (fl'.erase b) where
  header := (image_header_congr (onlyIn_erase fl' b) fun _ _ he => hb he.symm).trans h.header
  only := h.only.trans ((onlyIn_erase fl' b).mono fun b' o he => .inr (by rw [show b' = b from he]; exact ht))

theorem scratch_ge_of_staged (hwf : (stagedImage cfg flS s hdr).Wf cfg s) :
    cfg.numBlocks ≠ 2 → 2 ≤ hdr.scratchDblock := fun h2 => (hwf.scratch h2).1

theorem not_commitRegion (hs : s ≤ 1) (hne : s ≠ a)
    (hsc : cfg.numBlocks ≠ 2 → 2 ≤ hdr.scratchDblock) {o : Nat} (ho : 8 ≤ o) :
    ¬ commitRegion cfg a s hdr s o := by
  rintro (⟨_, hlt⟩ | he | ⟨h2, he⟩)
  · omega
  · exact hne he
  · have := hsc h2
    omega

section InForce
variable (h : InForce cfg a s hdr flS fl') (hs : s ≤ 1) (hne : s ≠ a)
  (hwf : (stagedImage cfg flS s hdr).Wf cfg s)
include h hs hne hwf

theorem InForce.same (ha : a ≤ 1) : (stagedImage cfg flS s hdr).Same cfg (image cfg fl' s) where
  version := congrArg MetadataBlockHeader.fsVersion h.header
  scratch := congrArg MetadataBlockHeader.scratchDblock h.header
  blocks l _ := image_blocks_congr h.only fun o h₁ _ => not_commitRegion hs hne (scratch_ge_of_staged hwf) (by omega)
  files i _ := image_files_congr h.only fun o h₁ _ => not_commitRegion hs hne (scratch_ge_of_staged hwf) (by
    unfold Config.fileEntry Config.filesStart at h₁
    omega)
  data l hl o ho _ := by
    have hb : (image cfg fl' s).blocks l = (image cfg flS s).blocks l :=
      image_blocks_congr h.only fun o h₁ _ => not_commitRegion hs hne (scratch_ge_of_staged hwf) (by omega)
    rw [image_data, hb]
    refine h.only.byte ?_
    by_cases h0 : l = 0
    · subst h0
      have hl0 := hwf.lb0
      have h8 := metaEnd_ge cfg
      rw [hl0.2] at ho
      rw [show ((image cfg flS s).blocks 0).phyId = s from hl0.1]
      exact not_commitRegion hs hne (scratch_ge_of_staged hwf) (by omega)
    · have hd := hwf.dedicated l (Nat.pos_of_ne_zero h0) hl
      rintro (⟨he, _⟩ | he | ⟨_, he⟩)
      · exact absurd hd.1 (by rw [show ((stagedImage cfg flS s hdr).blocks l).phyId = s from he]; omega)
      · exact absurd hd.1 (by rw [show ((stagedImage cfg flS s hdr).blocks l).phyId = a from he]; omega)
      · exact hd.2.2.1 he

theorem InForce.valid (hswap : hdr.activeSwapCount ≠ cfg.eraseVal)
    (hxor : hdr.metadataXor = commitXor cfg flS s) : HeaderValid cfg fl' s where
  version := h.header ▸ hwf.version
  swap := h.header ▸ hswap
  xor hv := by
    rw [h.header, hxor, commitXor, if_pos hv]
    exact metadataXor_congr h.only fun o h₁ _ => not_commitRegion hs hne (scratch_ge_of_staged hwf) h₁

end InForce

end Etss
