import TfmExtras.Etss.Mounted
import TfmExtras.Etss.TableStep

/-! An update of a mounted filesystem: the operations it may issue while it stages and commits,
and the mounted filesystem that it leaves. -/

namespace Etss
open NorFlash NorFlash.Flash FlashM

variable {cfg : Config} {a s : Nat} {strict : Prop} {P : Image → Prop} {c c' : Ctx}
  {fl fl₀ flS fl' : Flash} {hdr : MetadataBlockHeader}

/-- A filesystem that satisfies `P` is staged in `flS`, for the filesystem in metadata block `a`
of `fl₀`, and `hdr` is the header that commits it. -/
structure Staged (cfg : Config) (fl₀ : Flash) (a s : Nat) (P : Image → Prop) (flS : Flash)
    (hdr : MetadataBlockHeader) : Prop where
  only : OnlyIn (stageRegion cfg s (image cfg fl₀ a).header.scratchDblock) fl₀ flS
  swap : hdr.activeSwapCount = nextSwapCount cfg (image cfg fl₀ a).header.activeSwapCount
  xor : hdr.metadataXor = commitXor cfg flS s
  scratch_lt : hdr.scratchDblock < 2 ^ 32
  step : P (stagedImage cfg flS s hdr)

/-- The operations of an update. -/
inductive UpdateOp (cfg : Config) (fl₀ : Flash) (a s : Nat) (strict : Prop) (P : Image → Prop) :
    Prog.Guard
  | read {fl : Flash} {b off n : Nat} (hb : b < cfg.numBlocks) (hn : off + n ≤ cfg.blockSize) :
    UpdateOp cfg fl₀ a s strict P fl (.read b off n)
  | stage {fl : Flash} {o : Op}
    (only : OnlyIn (stageRegion cfg s (image cfg fl₀ a).header.scratchDblock) fl₀ fl)
    (op : StageOp cfg s (image cfg fl₀ a).header.scratchDblock strict fl o) :
    UpdateOp cfg fl₀ a s strict P fl o
  | commit {flS fl : Flash} {hdr : MetadataBlockHeader} {o : Op}
    (staged : Staged cfg fl₀ a s P flS hdr) (op : CommitOp cfg a s hdr flS fl o) :
    UpdateOp cfg fl₀ a s strict P fl o

/-- The context and the flash that an update starts from. The file table in the scratch metadata
block only has to be erased in the strict mode. -/
structure Starts (cfg : Config) (fl₀ : Flash) (a s : Nat) (strict : Prop) (c : Ctx) : Prop
    extends Ready cfg fl₀ a s c fl₀ where
  header : c.metaBlockHeader = (image cfg fl₀ a).header
  blocks_clean : Clean (blockRange s 0 (numActiveDblocks cfg)) fl₀
  data_clean : ∀ l, l < numActiveDblocks cfg → Clean (dataRange cfg s (image cfg fl₀ a) l) fl₀
  files_clean : strict → Clean (fileRange cfg s 0 cfg.maxNumFiles) fl₀

theorem Mounted.starts (h : Mounted cfg c fl) (hc : strict → Clean (scratchFiles cfg c) fl) :
    Starts cfg fl c.activeMetablock c.scratchMetablock strict c where
  toReady := h.ready
  header := h.header
  blocks_clean := h.clean_blocks
  data_clean _ hl := h.clean_data hl
  files_clean := hc

/-- What an update leaves. -/
def Updated (cfg : Config) (fl₀ : Flash) (a s : Nat) (P : Image → Prop) (c' : Ctx)
    (fl' : Flash) : Prop :=
  ∃ flS hdr, Staged cfg fl₀ a s P flS hdr ∧ c' = ⟨hdr, s, a⟩ ∧ fl' = committed cfg flS a s hdr

theorem allowsReads_updateOp : AllowsReads cfg (UpdateOp cfg fl₀ a s strict P) :=
  fun _ _ _ _ hb ho => .read hb ho

theorem stageOp_only {sd : Nat} {o : Op} (hf : OnlyIn (stageRegion cfg s sd) fl₀ fl)
    (ho : StageOp cfg s sd strict fl o) : OnlyIn (stageRegion cfg s sd) fl₀ (fl.apply o) := by
  cases o with
  | write b off data =>
    refine hf.trans ((onlyIn_write fl b off data).mono fun b' o' hw => ?_)
    obtain ⟨rfl, h₁, _⟩ := hw
    exact ho.target.imp (fun ht => ⟨ht.1, ht.2.trans h₁⟩) id
  | init => exact hf
  | read _ _ _ => exact hf
  | flush _ => exact hf
  | erase _ => exact absurd ho id

/-- Staging as a part of an update. -/
theorem staged_ok {α : Type} {m : FsM α} {R : α → Ctx → Flash → Prop}
    (hf : OnlyIn (stageRegion cfg s (image cfg fl₀ a).header.scratchDblock) fl₀ fl)
    (h : m.Ok cfg.eraseVal (StageOp cfg s (image cfg fl₀ a).header.scratchDblock strict) c fl R) :
    m.Ok cfg.eraseVal (UpdateOp cfg fl₀ a s strict P) c fl R :=
  ((Ok.inv h hf fun _ _ hi ho => stageOp_only hi ho).guard fun _ _ ho => .stage ho.1 ho.2).mono
    fun _ _ _ hR => hR.2

/-- Committing as the end of an update. -/
theorem Ready.finalize_ok (h : Ready cfg fl₀ a s c fl)
    (hswap : c.metaBlockHeader.activeSwapCount = (image cfg fl₀ a).header.activeSwapCount)
    (hlt : c.metaBlockHeader.scratchDblock < 2 ^ 32)
    (hP : P (stagedImage cfg fl s (nextHeader cfg fl s c.metaBlockHeader))) :
    (flashFsMblockMetaUpdateFinalize cfg).Ok cfg.eraseVal (UpdateOp cfg fl₀ a s strict P) c fl
      fun _ c' fl' => Updated cfg fl₀ a s P c' fl' := by
  have hst : Staged cfg fl₀ a s P fl (nextHeader cfg fl s c.metaBlockHeader) :=
    ⟨h.only, congrArg (nextSwapCount cfg) hswap, rfl, hlt, hP⟩
  refine (metaUpdateFinalize_ok allowsReads_updateOp h.accepted (h.scratch.trans_le h.s_le) rfl
    fun fl' o ho => ?_).mono ?_
  · rw [h.active, h.scratch] at ho
    exact .commit hst ho
  · rintro _ _ _ ⟨rfl, rfl⟩
    rw [h.active, h.scratch]
    exact ⟨fl, _, hst, rfl, rfl⟩

/-- The block that holds the data of a logical block, in a staged filesystem. -/
theorem stagedImage_data {l lblock : Nat} {blocks : Nat → BlockMeta} {blockMeta : BlockMeta}
    (hb : (image cfg flS s).blocks l = stagedBlock s blocks lblock blockMeta l) (o : Nat) :
    (stagedImage cfg flS s hdr).data l o = flS.byte cfg.eraseVal
      (if l = 0 then s else if l = lblock then blockMeta.phyId else (blocks l).phyId) o := by
  show flS.byte cfg.eraseVal ((image cfg flS s).blocks l).phyId o = _
  rw [hb]
  split_ifs with h0 hl
  · rw [h0, stagedBlock_phyId_zero]
  · rw [stagedBlock_phyId _ _ _ _ h0, if_pos hl]
  · rw [stagedBlock_phyId _ _ _ _ h0, if_neg hl]

/-! ## The filesystem after an update -/

theorem numBlocks_gt_iff (hacc : cfg.Accepted) : cfg.numBlocks > 2 ↔ cfg.numBlocks ≠ 2 := by
  have := hacc.numBlocks_cases
  omega

/-- The blocks that an update has replaced are erased. -/
theorem clean_committed (hacc : cfg.Accepted) (flS : Flash) (a s : Nat)
    (hdr : MetadataBlockHeader) :
    Clean (scratchRegion cfg ⟨hdr, s, a⟩) (committed cfg flS a s hdr) := by
  unfold committed
  intro b o hb
  split_ifs with h2
  · rw [cell_erase, cell_erase]
    rcases hb with hb | ⟨_, hb⟩
    · rw [if_pos (show b = a from hb), ite_self]
    · rw [if_pos hb]
  · rcases hb with hb | ⟨hn, _⟩
    · rw [cell_erase, if_pos hb]
    · exact absurd ((numBlocks_gt_iff hacc).mpr hn) h2

theorem inForce_committed (hs : s ≤ 1) (hne : s ≠ a)
    (hsc : cfg.numBlocks ≠ 2 → 2 ≤ hdr.scratchDblock) (hlt : hdr.scratchDblock < 2 ^ 32) :
    InForce cfg a s hdr flS (committed cfg flS a s hdr) := by
  have h₁ : InForce cfg a s hdr flS ((headerWritten flS s hdr).erase a) :=
    (inForce_headerWritten hlt).erase hne.symm (.inl rfl)
  unfold committed
  split_ifs with h2
  · refine h₁.erase (fun he => ?_) (.inr ⟨(show ¬ _ by omega), rfl⟩)
    have := hsc (by omega)
    omega
  · exact h₁

/-- After an update the new filesystem is mounted, and its scratch blocks are erased. -/
theorem Updated.mounted (h : Updated cfg fl₀ a s P c' fl') (hacc : cfg.Accepted) (ha : a ≤ 1)
    (hs : s = otherMetaBlock a) (hP : ∀ st', P st' → st'.Wf cfg s) :
    Mounted cfg c' fl' ∧ Clean (scratchRegion cfg c') fl' ∧ c'.activeMetablock = s ∧
      ∃ st', P st' ∧ st'.Same cfg (mountedImage cfg c' fl') := by
  obtain ⟨flS, hdr, hst, rfl, rfl⟩ := h
  have hsle : s ≤ 1 := hs ▸ otherMetaBlock_le a
  have hne : s ≠ a := hs ▸ otherMetaBlock_ne a
  have hwf := hP _ hst.step
  have hin : InForce cfg a s hdr flS (committed cfg flS a s hdr) :=
    inForce_committed hsle hne (scratch_ge_of_staged hwf) hst.scratch_lt
  have hclean := clean_committed hacc flS a s hdr
  have hsame := hin.same hsle hne hwf ha
  refine ⟨⟨hacc, hsle, ?_, hin.header.symm, ?_, hclean.mono fun _ _ hw => hw.1,
    hsame.wf hacc hwf⟩, hclean, rfl, _, hst.step, hsame⟩
  · show a = otherMetaBlock s
    rw [hs, otherMetaBlock_other ha]
  · exact hin.valid hsle hne hwf (hst.swap ▸ nextSwapCount_ne _ _) hst.xor

end Etss
