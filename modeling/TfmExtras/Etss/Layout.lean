import Mathlib.Data.Nat.Bitwise
import TfmExtras.Etss.FlashFs

/-! The layout of a metadata block under an accepted configuration, without wrap-around, and
the round trips of the structures stored in it. -/

namespace Etss
open Bytes

/-! ## Arithmetic that does not wrap -/

theorem add32_eq {a b : Nat} (h : a + b < 2 ^ 32) : add32 a b = a + b := Nat.mod_eq_of_lt h

theorem sub32_eq {a b : Nat} (ha : a < 2 ^ 32) (h : b ≤ a) : sub32 a b = a - b := by
  unfold sub32
  have hs : a + (2 ^ 32 - b) = 2 ^ 32 + (a - b) := by omega
  rw [hs, Nat.add_mod_left]
  exact Nat.mod_eq_of_lt (by omega)

theorem sub32_lt (a b : Nat) : sub32 a b < 2 ^ 32 := Nat.mod_lt _ (by decide)

/-- Clearing the bits of a mask takes away what the mask selects. -/
theorem and_not32 {y m : Nat} (hy : y < 2 ^ 32) (hm : m < 2 ^ 32) :
    y &&& not32 m = y - (y &&& m) := by
  have hz : (BitVec.ofNat 32 y &&& ~~~BitVec.ofNat 32 m) &&& (BitVec.ofNat 32 y &&& BitVec.ofNat 32 m)
      = 0#32 := by
    ext i
    simp
    tauto
  have hor : (BitVec.ofNat 32 y &&& ~~~BitVec.ofNat 32 m) ||| (BitVec.ofNat 32 y &&& BitVec.ofNat 32 m)
      = BitVec.ofNat 32 y := by
    ext i
    simp only [BitVec.getElem_or, BitVec.getElem_and, BitVec.getElem_not]
    cases (BitVec.ofNat 32 m)[i] <;> simp
  have hadd := BitVec.toNat_add_of_and_eq_zero hz
  rw [BitVec.add_eq_or_of_and_eq_zero _ _ hz, hor, BitVec.toNat_and, BitVec.toNat_and,
    BitVec.toNat_not, BitVec.toNat_ofNat, BitVec.toNat_ofNat, Nat.mod_eq_of_lt hy,
    Nat.mod_eq_of_lt hm] at hadd
  unfold not32
  omega

/-- Rounding a size up does not wrap. -/
def AlignFits (x a : Nat) : Prop := x + sub32 a 1 < 2 ^ 32

instance (x a : Nat) : Decidable (AlignFits x a) := Nat.decLt _ _

theorem AlignFits.lt {x a : Nat} (h : AlignFits x a) : x < 2 ^ 32 :=
  lt_of_le_of_lt (Nat.le_add_right _ _) h

theorem utilsAlign_eq {x a : Nat} (h : AlignFits x a) :
    utilsAlign x a = x + sub32 a 1 - ((x + sub32 a 1) &&& sub32 a 1) := by
  unfold utilsAlign
  rw [add32_eq h, and_not32 h (sub32_lt a 1)]

theorem le_utilsAlign {x a : Nat} (h : AlignFits x a) : x ≤ utilsAlign x a := by
  have hle : (x + sub32 a 1) &&& sub32 a 1 ≤ sub32 a 1 := Nat.and_le_right
  rw [utilsAlign_eq h]
  omega

theorem utilsAlign_lt (x a : Nat) : utilsAlign x a < 2 ^ 32 := by
  unfold utilsAlign
  exact lt_of_le_of_lt Nat.and_le_left (Nat.mod_lt _ (by decide))

theorem utilsAlign_two_pow {x k : Nat} (h : AlignFits x (2 ^ k)) (hk : k < 32) :
    utilsAlign x (2 ^ k) = x + (2 ^ k - 1) - (x + (2 ^ k - 1)) % 2 ^ k := by
  have hp : 1 ≤ 2 ^ k := Nat.one_le_two_pow
  have hlt : 2 ^ k < 2 ^ 32 := Nat.pow_lt_pow_right (by decide) hk
  rw [utilsAlign_eq h, sub32_eq hlt hp, Nat.and_two_pow_sub_one_eq_mod]

/-- A size that is too large to be rounded up wraps to zero. -/
theorem utilsAlign_wrap {x k : Nat} (hx : x < 2 ^ 32) (h : ¬ AlignFits x (2 ^ k)) (hk : k < 32) :
    utilsAlign x (2 ^ k) = 0 := by
  have hp : 1 ≤ 2 ^ k := Nat.one_le_two_pow
  have hlt : 2 ^ k < 2 ^ 32 := Nat.pow_lt_pow_right (by decide) hk
  unfold AlignFits at h
  rw [sub32_eq hlt hp] at h
  unfold utilsAlign
  have hadd : add32 x (2 ^ k - 1) = x + (2 ^ k - 1) - 2 ^ 32 := by
    unfold add32
    omega
  rw [sub32_eq hlt hp, hadd, and_not32 (by omega) (by omega), Nat.and_two_pow_sub_one_eq_mod,
    Nat.mod_eq_of_lt (by omega), Nat.sub_self]

/-- The result is a multiple, also when rounding up wraps. -/
theorem utilsAlign_dvd {x k : Nat} (hx : x < 2 ^ 32) (hk : k < 32) :
    2 ^ k ∣ utilsAlign x (2 ^ k) := by
  by_cases h : AlignFits x (2 ^ k)
  · rw [utilsAlign_two_pow h hk]
    exact Nat.dvd_sub_mod _
  · rw [utilsAlign_wrap hx h hk]
    exact dvd_zero _

/-- Rounding up gives the least multiple. -/
theorem utilsAlign_le {x m k : Nat} (h : AlignFits x (2 ^ k)) (hk : k < 32) (hm : 2 ^ k ∣ m)
    (hx : x ≤ m) : utilsAlign x (2 ^ k) ≤ m := by
  have hp : 1 ≤ 2 ^ k := Nat.one_le_two_pow
  have hdvd := utilsAlign_dvd h.lt hk
  rw [utilsAlign_two_pow h hk] at hdvd ⊢
  have hlt : x + (2 ^ k - 1) - (x + (2 ^ k - 1)) % 2 ^ k < m + 2 ^ k := by omega
  obtain ⟨q, hq⟩ := hdvd
  obtain ⟨n, rfl⟩ := hm
  rw [hq] at hlt ⊢
  have hqn : q < n + 1 := by
    rw [← Nat.mul_succ] at hlt
    exact Nat.lt_of_mul_lt_mul_left hlt
  exact Nat.mul_le_mul_left _ (Nat.le_of_lt_succ hqn)

theorem utilsIsAligned_zero (a : Nat) : utilsIsAligned 0 a = true := by
  unfold utilsIsAligned
  rw [Nat.zero_and]
  rfl

theorem alignFits_zero (a : Nat) : AlignFits 0 a := by
  show 0 + sub32 a 1 < 2 ^ 32
  rw [Nat.zero_add]
  exact sub32_lt _ _

theorem programUnit_exp_lt {cfg : Config} {k : Nat} (hunit : cfg.programUnit = 2 ^ k) :
    k < 32 := by
  have hu := cfg.programUnit_lt
  rw [hunit] at hu
  exact (Nat.pow_lt_pow_iff_right (by decide)).mp (hu.trans_le (by decide : 2 ^ 16 ≤ 2 ^ 32))

theorem utilsIsAligned_iff {x k : Nat} (hk : k < 32) :
    utilsIsAligned x (2 ^ k) = true ↔ 2 ^ k ∣ x := by
  have hp : 1 ≤ 2 ^ k := Nat.one_le_two_pow
  have hlt : 2 ^ k < 2 ^ 32 := Nat.pow_lt_pow_right (by decide) hk
  unfold utilsIsAligned
  rw [sub32_eq hlt hp, Nat.and_two_pow_sub_one_eq_mod, beq_iff_eq]
  exact (Nat.dvd_iff_mod_eq_zero).symm

theorem utilsCheckContainedIn_eq_ok {n offset size : Nat} :
    utilsCheckContainedIn n offset size = .ok () ↔ offset + size ≤ n := by
  unfold utilsCheckContainedIn
  split_ifs <;> simp <;> omega

/-! ## Where the tables lie -/

namespace Config
variable (cfg : Config)

def Accepted : Prop := flashFsValidateConfig cfg = .ok ()

/-- The offset of the file table. -/
def filesStart : Nat := 8 + 12 * numActiveDblocks cfg

/-- The offset of file entry `i`. -/
def fileEntry (i : Nat) : Nat := cfg.filesStart + 32 * i

/-- The end of the metadata, where the data of logical block 0 starts. -/
def metaEnd : Nat := cfg.fileEntry cfg.maxNumFiles

/-- The metadata structures, the blocks and the copy chunk are multiples of the program unit. -/
def Aligned : Prop :=
  cfg.programUnit ∣ blockMetaHeaderSize ∧ cfg.programUnit ∣ blockMetadataSize ∧
    cfg.programUnit ∣ fileMetadataSize ∧ cfg.programUnit ∣ cfg.blockSize ∧
    cfg.programUnit ∣ maxBlockDataCopy

variable {cfg}

theorem Aligned.eq_two_pow (h : cfg.Aligned) : ∃ k, k < 3 ∧ cfg.programUnit = 2 ^ k := by
  have h4 : cfg.programUnit ∣ 4 := (Nat.dvd_sub h.2.1 h.1)
  have hle := Nat.le_of_dvd (by decide) h4
  have hcases : cfg.programUnit = 0 ∨ cfg.programUnit = 1 ∨ cfg.programUnit = 2 ∨
      cfg.programUnit = 3 ∨ cfg.programUnit = 4 := by omega
  rcases hcases with hp | hp | hp | hp | hp <;> rw [hp] at h4 ⊢
  · exact absurd h4 (by decide)
  · exact ⟨0, by decide, rfl⟩
  · exact ⟨1, by decide, rfl⟩
  · exact absurd h4 (by decide)
  · exact ⟨2, by decide, rfl⟩

end Config

variable {cfg : Config}

theorem numActiveDblocks_eq (h : cfg.numBlocks = 2 ∨ 4 ≤ cfg.numBlocks) :
    numActiveDblocks cfg = if cfg.numBlocks = 2 then 1 else cfg.numBlocks - 2 := by
  have hlt := cfg.numBlocks_lt
  unfold numActiveDblocks numDedicatedDblocks initDblockStart
  split_ifs with h2
  · rfl
  · rw [sub32_eq (by omega) (by omega), add32_eq (by omega)]
    omega

theorem flashFsAllMetadataSize_eq (h : cfg.numBlocks = 2 ∨ 4 ≤ cfg.numBlocks) :
    flashFsAllMetadataSize cfg = cfg.metaEnd := by
  have hlt := cfg.numBlocks_lt
  have hm := cfg.maxNumFiles_lt
  have hn : flashFsNumActiveDblocks cfg = numActiveDblocks cfg := by
    rw [numActiveDblocks_eq h, flashFsNumActiveDblocks]
    split_ifs with h2
    · rfl
    · exact sub32_eq (by omega) (by omega)
  have hn' := numActiveDblocks_eq h
  unfold flashFsAllMetadataSize Config.metaEnd Config.fileEntry Config.filesStart
  rw [hn, Nat.mod_eq_of_lt]
  · simp only [blockMetaHeaderSize, blockMetadataSize, fileMetadataSize]
    omega
  · simp only [blockMetaHeaderSize, blockMetadataSize, fileMetadataSize]
    split_ifs at hn' <;> omega

namespace Config.Accepted

theorem numBlocks_cases (h : cfg.Accepted) : cfg.numBlocks = 2 ∨ 4 ≤ cfg.numBlocks := by
  unfold Config.Accepted flashFsValidateConfig at h
  split_ifs at h with hc
  simp only [not_or] at hc
  omega

theorem two_le_numBlocks (h : cfg.Accepted) : 2 ≤ cfg.numBlocks := by
  rcases h.numBlocks_cases with h | h <;> omega

theorem maxFileSize_le (h : cfg.Accepted) : cfg.maxFileSize ≤ cfg.blockSize := by
  unfold Config.Accepted flashFsValidateConfig at h
  split_ifs at h with hc
  simp only [not_or, Nat.not_lt] at hc
  exact hc.2.2.1

theorem metaEnd_le (h : cfg.Accepted) : cfg.metaEnd ≤ cfg.blockSize := by
  have hs := flashFsAllMetadataSize_eq h.numBlocks_cases
  unfold Config.Accepted flashFsValidateConfig at h
  split_ifs at h with hc
  simp only [not_or, Nat.not_lt] at hc
  rw [hs] at hc
  exact hc.2.2.2

theorem metaEnd_lt (h : cfg.Accepted) : cfg.metaEnd < 2 ^ 32 :=
  h.metaEnd_le.trans_lt cfg.blockSize_lt

theorem numActive_pos (h : cfg.Accepted) : 0 < numActiveDblocks cfg := by
  have hb := h.numBlocks_cases
  rw [numActiveDblocks_eq hb]
  split_ifs <;> omega

theorem numActive_eq (h : cfg.Accepted) :
    numActiveDblocks cfg = if cfg.numBlocks = 2 then 1 else cfg.numBlocks - 2 :=
  numActiveDblocks_eq h.numBlocks_cases

theorem numActive_lt (h : cfg.Accepted) : numActiveDblocks cfg < 2 ^ 16 := by
  have hlt := cfg.numBlocks_lt
  rw [h.numActive_eq]
  split_ifs <;> omega

theorem fileOffset_eq (h : cfg.Accepted) {i : Nat} (hi : i ≤ cfg.maxNumFiles) :
    mblockFileMetaOffset cfg i = cfg.fileEntry i := by
  have hlt := h.metaEnd_lt
  unfold Config.metaEnd Config.fileEntry Config.filesStart at hlt
  unfold mblockFileMetaOffset Config.fileEntry Config.filesStart
  simp only [blockMetaHeaderSize, blockMetadataSize, fileMetadataSize]
  rw [Nat.mod_eq_of_lt] <;> omega

theorem blockOffset_eq (h : cfg.Accepted) {l : Nat} (hl : l ≤ numActiveDblocks cfg) :
    mblockBlockMetaOffset l = 8 + 12 * l := by
  have hlt := h.numActive_lt
  unfold mblockBlockMetaOffset
  simp only [blockMetaHeaderSize, blockMetadataSize]
  rw [Nat.mod_eq_of_lt] <;> omega

theorem fileEntry_le (_h : cfg.Accepted) {i j : Nat} (hij : i ≤ j) :
    cfg.fileEntry i ≤ cfg.fileEntry j := by
  unfold Config.fileEntry
  omega

end Config.Accepted

/-! ## Round trips of the stored structures -/

def BlockMeta.InRange (m : BlockMeta) : Prop :=
  m.phyId < 2 ^ 32 ∧ m.dataStart < 2 ^ 32 ∧ m.freeSize < 2 ^ 32

structure FileMeta.InRange (m : FileMeta) : Prop where
  lblock : m.lblock < 2 ^ 32
  dataIdx : m.dataIdx < 2 ^ 32
  curSize : m.curSize < 2 ^ 32
  maxSize : m.maxSize < 2 ^ 32
  flags : m.flags < 2 ^ 32

@[simp] theorem BlockMeta.encode_length (m : BlockMeta) : m.encode.length = 12 := by
  simp [BlockMeta.encode]

@[simp] theorem FileMeta.encode_length (m : FileMeta) : m.encode.length = 32 := by
  simp [FileMeta.encode]

@[simp] theorem MetadataBlockHeader.encode_length (h : MetadataBlockHeader) :
    h.encode.length = 8 := by
  simp [MetadataBlockHeader.encode]

theorem field_head {n x : Nat} (hx : x < 256 ^ n) (bs : List UInt8) :
    field (leBytes n x ++ bs) 0 n = x := by
  rw [field_append_left bs (by simp), field_leBytes hx]

/-- A field behind the first `k` bytes of a structure. -/
theorem field_skip (k pos n x : Nat) (bs : List UInt8) :
    field (leBytes k x ++ bs) (k + pos) n = field bs pos n := by
  have h := field_append_right (leBytes k x) bs pos n
  rwa [leBytes_length] at h

theorem BlockMeta.decode_encode {m : BlockMeta} (h : m.InRange) : decode m.encode = m := by
  obtain ⟨h₁, h₂, h₃⟩ := h
  unfold decode encode
  congr 1
  · exact field_head h₁ _
  · exact (field_skip 4 0 4 _ _).trans (field_head h₂ _)
  · exact (field_skip 4 4 4 _ _).trans ((field_skip 4 0 4 _ _).trans (field_leBytes h₃))

theorem BlockMeta.decode_inRange (bs : List UInt8) : (decode bs).InRange :=
  ⟨field_lt bs 0 4, field_lt bs 4 4, field_lt bs 8 4⟩

theorem FileMeta.decode_encode {m : FileMeta} (h : m.InRange) : decode m.encode = m := by
  obtain ⟨lblock, dataIdx, curSize, maxSize, flags, id⟩ := m
  have hid : id.toNat < 256 ^ 12 := id.isLt
  unfold decode encode
  simp only [FileMeta.mk.injEq]
  refine ⟨field_head h.lblock _, ?_, ?_, ?_, ?_, ?_⟩
  · exact (field_skip 4 0 4 _ _).trans (field_head h.dataIdx _)
  · refine (field_skip 4 4 4 _ _).trans ((field_skip 4 0 4 _ _).trans ?_)
    exact field_head h.curSize _
  · refine (field_skip 4 8 4 _ _).trans ((field_skip 4 4 4 _ _).trans ?_)
    exact (field_skip 4 0 4 _ _).trans (field_head h.maxSize _)
  · refine (field_skip 4 12 4 _ _).trans ((field_skip 4 8 4 _ _).trans ?_)
    refine (field_skip 4 4 4 _ _).trans ((field_skip 4 0 4 _ _).trans ?_)
    exact field_head h.flags _
  · refine (congrArg (BitVec.ofNat 96) ?_).trans ((BitVec.ofNat_toNat 96 id).trans (BitVec.setWidth_eq id))
    refine (field_skip 4 16 12 _ _).trans ((field_skip 4 12 12 _ _).trans ?_)
    refine (field_skip 4 8 12 _ _).trans ((field_skip 4 4 12 _ _).trans ?_)
    exact (field_skip 4 0 12 _ _).trans (field_leBytes hid)

theorem FileMeta.decode_inRange (bs : List UInt8) : (decode bs).InRange :=
  ⟨field_lt bs 0 4, field_lt bs 4 4, field_lt bs 8 4, field_lt bs 12 4, field_lt bs 16 4⟩

theorem MetadataBlockHeader.decode_encode {h : MetadataBlockHeader}
    (hs : h.scratchDblock < 2 ^ 32) : decode h.encode = h := by
  obtain ⟨scratchDblock, fsVersion, metadataXor, activeSwapCount, pad⟩ := h
  unfold decode encode
  simp only [MetadataBlockHeader.mk.injEq]
  exact ⟨field_head hs _, rfl, rfl, rfl, rfl⟩

end Etss
