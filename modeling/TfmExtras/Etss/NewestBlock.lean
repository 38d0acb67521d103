import TfmExtras.Etss.Run

/-! The choice between two metadata blocks with valid headers: it compares byte 6 of both, which
is the swap count of a version 2 header and padding of a version 1 header. -/

namespace Etss
open NorFlash NorFlash.Flash FlashM

variable {cfg : Config} {b : Nat} {x y : UInt8} {c : Ctx} {fl : Flash}

/-! ## Comparing swap counts -/

/-- The first swap count after the counter has wrapped. -/
def rolloverVal (cfg : Config) : UInt8 := if cfg.eraseVal = 0x00 then 1 else 0

/-- Byte `x` is taken to be later than byte `y`: it has just rolled over, or it is larger and `y`
has not. -/
def CountsLater (cfg : Config) (x y : UInt8) : Prop :=
  (x = rolloverVal cfg ∧ y ≠ rolloverVal cfg + 1) ∨
    (y < x ∧ ¬ (y = rolloverVal cfg ∧ x ≠ rolloverVal cfg + 1))

instance : Decidable (CountsLater cfg x y) := instDecidableOr

/-- Block 1 is taken if its byte is later, and block 0 otherwise. -/
theorem mblockLatestMetaBlock_eq (hMeta0 hMeta1 : MetadataBlockHeader) :
    mblockLatestMetaBlock cfg hMeta0 hMeta1 =
      if CountsLater cfg hMeta1.activeSwapCount hMeta0.activeSwapCount then 1 else 0 := by
  have hr : (if cfg.eraseVal = 0x00 then 1 else 0) = rolloverVal cfg := rfl
  unfold mblockLatestMetaBlock
  rw [hr]
  by_cases h₁ : hMeta1.activeSwapCount = rolloverVal cfg ∧
      hMeta0.activeSwapCount ≠ rolloverVal cfg + 1
  · have hl : CountsLater cfg hMeta1.activeSwapCount hMeta0.activeSwapCount := .inl h₁
    rw [if_pos h₁, if_pos hl]
    rfl
  · rw [if_neg h₁]
    by_cases h₀ : hMeta0.activeSwapCount = rolloverVal cfg ∧
        hMeta1.activeSwapCount ≠ rolloverVal cfg + 1
    · have hl : ¬ CountsLater cfg hMeta1.activeSwapCount hMeta0.activeSwapCount :=
        fun h => h.elim h₁ fun h => h.2 h₀
      rw [if_pos h₀, if_neg hl]
      rfl
    · rw [if_neg h₀]
      exact if_congr ⟨fun h => .inr ⟨h, h₀⟩, fun h => (h.resolve_left h₁).1⟩ rfl rfl

/-- The successor of a swap count is later than it, and not the other way round. -/
theorem countsLater_next (he : cfg.eraseVal = 0x00 ∨ cfg.eraseVal = 0xFF) (x : UInt8) :
    CountsLater cfg (nextSwapCount cfg x) x ∧ ¬ CountsLater cfg x (nextSwapCount cfg x) := by
  have hlt := x.toNat_lt
  unfold CountsLater nextSwapCount rolloverVal
  rcases he with he | he <;> rw [he]
  all_goals
    simp only [ne_eq, ← UInt8.toNat_inj, UInt8.lt_iff_toNat_lt]
    split_ifs <;>
      simp only [UInt8.toNat_add, UInt8.reduceToNat] at * <;>
      omega

/-! ## Headers of both versions -/

/-- The swap count of a header, as its version has it. -/
def MetadataBlockHeader.swapCount (hMeta : MetadataBlockHeader) : UInt8 :=
  if hMeta.fsVersion = backwardSupportedVersion then hMeta.compSwapCount else hMeta.activeSwapCount

/-- Both metadata blocks have valid headers, and the one in block `b` was committed later: its
swap count is the successor of the other one, and no update goes back to version 1. -/
structure Interrupted (cfg : Config) (fl : Flash) (b : Nat) : Prop where
  le : b ≤ 1
  later : headerCheck cfg fl b (image cfg fl b).header = .ok ()
  earlier : headerCheck cfg fl (otherMetaBlock b) (image cfg fl (otherMetaBlock b)).header = .ok ()
  version : (image cfg fl b).header.fsVersion = backwardSupportedVersion →
    (image cfg fl (otherMetaBlock b)).header.fsVersion = backwardSupportedVersion
  swap : (image cfg fl b).header.swapCount =
    nextSwapCount cfg (image cfg fl (otherMetaBlock b)).header.swapCount

/-- Mounting takes metadata block `b`. -/
def Selects (cfg : Config) (b : Nat) (c : Ctx) (fl : Flash) : Prop :=
  ((initGetActiveMetablock cfg).run cfg.eraseVal c fl).status = .ok () ∧
    ((initGetActiveMetablock cfg).run cfg.eraseVal c fl).ctx.activeMetablock = b

theorem readHeader_of_check (h : headerCheck cfg fl b (image cfg fl b).header = .ok ()) :
    readHeader cfg fl b = some (image cfg fl b).header := by
  unfold readHeader
  rw [h]

theorem selects_iff (hacc : cfg.Accepted) : Selects cfg b c fl ↔ selectActive cfg fl = .ok b := by
  have hw : (initGetActiveMetablock cfg).wp cfg.eraseVal anyOp c fl fun res c' _ =>
      (res = .ok () ∧ c'.activeMetablock = b) ↔ selectActive cfg fl = .ok b := by
    refine initGetActiveMetablock_wp (fun _ _ _ _ _ _ => trivial) hacc (fun a ha => ?_)
      fun e he => ?_
    · rw [ha]
      exact ⟨fun h => congrArg Except.ok h.2, fun h => ⟨rfl, Except.ok.inj h⟩⟩
    · rw [he]
      exact ⟨fun h => (nomatch h.1), fun h => (nomatch h)⟩
  exact (wp_iff.mp hw).2

namespace Interrupted
variable (h : Interrupted cfg fl b)
include h

theorem selectActive_eq : selectActive cfg fl =
    .ok (if CountsLater cfg (image cfg fl 1).header.activeSwapCount
      (image cfg fl 0).header.activeSwapCount then 1 else 0) := by
  have hb := readHeader_of_check h.later
  have ho := readHeader_of_check h.earlier
  have hle := h.le
  unfold selectActive metadataBlock0 metadataBlock1
  rw [← mblockLatestMetaBlock_eq]
  obtain rfl | rfl : b = 0 ∨ b = 1 := by omega
  · rw [hb, show readHeader cfg fl 1 = some (image cfg fl 1).header from ho]
  · rw [hb, show readHeader cfg fl 0 = some (image cfg fl 0).header from ho]

/-- Byte 6 of the block that was committed later is taken to be later. -/
theorem selectActive_iff : selectActive cfg fl = .ok b ↔
    if b = 1 then CountsLater cfg (image cfg fl b).header.activeSwapCount
      (image cfg fl (otherMetaBlock b)).header.activeSwapCount
    else ¬ CountsLater cfg (image cfg fl (otherMetaBlock b)).header.activeSwapCount
      (image cfg fl b).header.activeSwapCount := by
  have hle := h.le
  rw [h.selectActive_eq]
  obtain rfl | rfl : b = 0 ∨ b = 1 := by omega
  · rw [if_neg Nat.zero_ne_one, show otherMetaBlock 0 = 1 from rfl]
    split_ifs with hl
    · exact iff_of_false (fun h => (nomatch h)) (not_not_intro hl)
    · exact iff_of_true rfl hl
  · rw [if_pos rfl, show otherMetaBlock 1 = 0 from rfl]
    split_ifs with hl
    · exact iff_of_true rfl hl
    · exact iff_of_false (fun h => (nomatch h)) hl

end Interrupted

/-- The block that was committed later is taken if and only if both headers are of version 2, or
the bytes 6 of the headers happen to be in that order. -/
theorem selects_later_iff (hacc : cfg.Accepted) (he : cfg.eraseVal = 0x00 ∨ cfg.eraseVal = 0xFF)
    (h : Interrupted cfg fl b) :
    Selects cfg b c fl ↔
      (image cfg fl (otherMetaBlock b)).header.fsVersion ≠ backwardSupportedVersion ∨
        if b = 1 then CountsLater cfg (image cfg fl b).header.activeSwapCount
          (image cfg fl (otherMetaBlock b)).header.activeSwapCount
        else ¬ CountsLater cfg (image cfg fl (otherMetaBlock b)).header.activeSwapCount
          (image cfg fl b).header.activeSwapCount := by
  rw [selects_iff hacc, h.selectActive_iff]
  refine (or_iff_right_of_imp fun hv => ?_).symm
  have hv' : (image cfg fl b).header.fsVersion ≠ backwardSupportedVersion :=
    fun hb => hv (h.version hb)
  have hswap := h.swap
  unfold MetadataBlockHeader.swapCount at hswap
  rw [if_neg hv, if_neg hv'] at hswap
  rw [hswap]
  split_ifs
  · exact (countsLater_next he _).1
  · exact (countsLater_next he _).2

/-- An erased flash with a header in each of the metadata blocks. -/
def twoHeaders (hMeta0 hMeta1 : MetadataBlockHeader) : Flash :=
  ((⟨[]⟩ : Flash).write 0 0 hMeta0.encode).write 1 0 hMeta1.encode

/-- Version 2: the swap count in block 1 has rolled over. -/
theorem selects_rolledOver :
    Selects twoBlocks 1 Ctx.zero (twoHeaders ⟨1, supportedVersion, 0, 0xFE, 0⟩
      ⟨1, supportedVersion, 0, 0, 0⟩) :=
  (selects_later_iff twoBlocks_accepted (.inr rfl)
    ⟨le_rfl, by decide, by decide, by decide, by decide⟩).mpr (.inl (by decide))

/-- Version 1, with padding of zeros: block 0 has the later swap count, and block 1 is taken. -/
theorem selects_fails :
    Interrupted twoBlocks (twoHeaders ⟨1, backwardSupportedVersion, 2, 0, 0⟩
      ⟨1, backwardSupportedVersion, 1, 0, 0⟩) 0 ∧
    ¬ Selects twoBlocks 0 Ctx.zero (twoHeaders ⟨1, backwardSupportedVersion, 2, 0, 0⟩
      ⟨1, backwardSupportedVersion, 1, 0, 0⟩) := by
  refine ⟨⟨Nat.zero_le 1, by decide, by decide, by decide, by decide⟩, fun h => ?_⟩
  have h1 : ((initGetActiveMetablock twoBlocks).run twoBlocks.eraseVal Ctx.zero
      (twoHeaders ⟨1, backwardSupportedVersion, 2, 0, 0⟩
        ⟨1, backwardSupportedVersion, 1, 0, 0⟩)).ctx.activeMetablock = 1 := by decide +kernel
  exact Nat.zero_ne_one (h.2.symm.trans h1)

end Etss
