import TfmExtras.Etss.StageData

/-! One update of the tables: the block table keeps its invariant when one logical block changes,
swaps with the scratch block or stays where it is. -/

namespace Etss
open Finset

variable {cfg : Config} {st st' : Image} {a s lblock freeSize : Nat} {swap : Bool}

section
variable (s : Nat) (blocks : Nat → BlockMeta) (blockMeta : BlockMeta) (l : Nat)

theorem stagedBlock_dataStart : (stagedBlock s blocks lblock blockMeta l).dataStart =
    if l = lblock then blockMeta.dataStart else (blocks l).dataStart := by
  unfold stagedBlock
  split_ifs with h₁ h₂ h₃
  · rfl
  · rfl
  · rw [h₃]
  · rfl

theorem stagedBlock_freeSize : (stagedBlock s blocks lblock blockMeta l).freeSize =
    if l = lblock then blockMeta.freeSize else (blocks l).freeSize := by
  unfold stagedBlock
  split_ifs with h₁ h₂ h₃
  · rfl
  · rfl
  · rw [h₃]
  · rfl

theorem stagedBlock_phyId_zero : (stagedBlock s blocks lblock blockMeta 0).phyId = s := by
  unfold stagedBlock
  split_ifs
  all_goals first | rfl | contradiction

theorem stagedBlock_phyId (h₀ : l ≠ 0) : (stagedBlock s blocks lblock blockMeta l).phyId =
    if l = lblock then blockMeta.phyId else (blocks l).phyId := by
  unfold stagedBlock
  rw [if_neg h₀, if_neg h₀]
  split_ifs <;> rfl

end

/-- The block table and the header of `st'` when logical block `lblock` gets `freeSize` free
bytes. With `swap` its data was built in the scratch block. -/
structure BlockStep (cfg : Config) (s : Nat) (st : Image) (lblock freeSize : Nat) (swap : Bool)
    (st' : Image) : Prop where
  version : st'.header.fsVersion = st.header.fsVersion
  scratch : st'.header.scratchDblock =
    if lblock = 0 ∨ swap = false then st.header.scratchDblock else (st.blocks lblock).phyId
  blocks : ∀ l, l < numActiveDblocks cfg → st'.blocks l = stagedBlock s st.blocks lblock
    ⟨if swap then stageBlock s st lblock else (st.blocks lblock).phyId,
      (st.blocks lblock).dataStart, freeSize⟩ l

namespace BlockStep
variable (h : BlockStep cfg s st lblock freeSize swap st')
include h

theorem dataStart {l : Nat} (hl : l < numActiveDblocks cfg) :
    (st'.blocks l).dataStart = (st.blocks l).dataStart := by
  rw [h.blocks l hl, stagedBlock_dataStart]
  exact ite_eq_right_iff.mpr fun he => he ▸ rfl

theorem freeSize_eq {l : Nat} (hl : l < numActiveDblocks cfg) :
    (st'.blocks l).freeSize = if l = lblock then freeSize else (st.blocks l).freeSize := by
  rw [h.blocks l hl, stagedBlock_freeSize]

theorem phyId_zero (hpos : 0 < numActiveDblocks cfg) : (st'.blocks 0).phyId = s := by
  rw [h.blocks 0 hpos, stagedBlock_phyId_zero]

/-- The block of a dedicated logical block: the old one, or the old scratch block. -/
theorem phyId {l : Nat} (h₀ : l ≠ 0) (hl : l < numActiveDblocks cfg) : (st'.blocks l).phyId =
    if l = lblock ∧ swap = true then st.header.scratchDblock else (st.blocks l).phyId := by
  rw [h.blocks l hl, stagedBlock_phyId _ _ _ _ h₀]
  by_cases hl' : l = lblock
  · subst hl'
    rw [if_pos rfl, stageBlock, if_neg h₀]
    simp only [true_and]
  · rw [if_neg hl', if_neg fun hc => hl' hc.1]

theorem dedicated (hw : st.Wf cfg a) (hacc : cfg.Accepted) (hlb : lblock < numActiveDblocks cfg)
    {l : Nat} (h₀ : 0 < l) (hl : l < numActiveDblocks cfg) :
    2 ≤ (st'.blocks l).phyId ∧ (st'.blocks l).phyId < cfg.numBlocks ∧
      (st'.blocks l).phyId ≠ st'.header.scratchDblock ∧ (st'.blocks l).dataStart = 0 := by
  have hd := hw.dedicated l h₀ hl
  have hsc := hw.scratch (numBlocks_ne_two hacc h₀.ne' hl)
  rw [h.phyId h₀.ne' hl, h.scratch, h.dataStart hl]
  by_cases hc : l = lblock ∧ swap = true
  · obtain ⟨rfl, rfl⟩ := hc
    have hn : ¬ (l = 0 ∨ true = false) := by simp [h₀.ne']
    rw [if_pos ⟨rfl, rfl⟩, if_neg hn]
    exact ⟨hsc.1, hsc.2, hd.2.2.1.symm, hd.2.2.2⟩
  · rw [if_neg hc]
    refine ⟨hd.1, hd.2.1, ?_, hd.2.2.2⟩
    split_ifs with hn
    · exact hd.2.2.1
    · simp only [not_or, Bool.not_eq_false] at hn
      intro he
      exact hc ⟨hw.phys_inj l lblock h₀ hl (Nat.pos_of_ne_zero hn.1) hlb he, hn.2⟩

theorem phys_inj (hw : st.Wf cfg a) {l l' : Nat} (h₀ : 0 < l)
    (hl : l < numActiveDblocks cfg) (h₀' : 0 < l') (hl' : l' < numActiveDblocks cfg)
    (he : (st'.blocks l).phyId = (st'.blocks l').phyId) : l = l' := by
  have hsc := (hw.dedicated l h₀ hl).2.2.1
  have hsc' := (hw.dedicated l' h₀' hl').2.2.1
  rw [h.phyId h₀.ne' hl, h.phyId h₀'.ne' hl'] at he
  split_ifs at he with h₁ h₂ h₂
  · exact h₁.1.trans h₂.1.symm
  · exact absurd he.symm hsc'
  · exact absurd he hsc
  · exact hw.phys_inj l l' h₀ hl h₀' hl' he

/-- The invariant after an update, when the file table still fits the block table. -/
theorem wf (hw : st.Wf cfg a) (hacc : cfg.Accepted) (hlb : lblock < numActiveDblocks cfg)
    (hfree : (st.blocks lblock).dataStart + freeSize ≤ cfg.blockSize)
    (hzero : ∀ i, i < cfg.maxNumFiles → (st'.files i).id = 0 → st'.files i = FileMeta.zero)
    (hsizes : ∀ i, i < cfg.maxNumFiles → (st'.files i).id ≠ 0 →
      (st'.files i).lblock < numActiveDblocks cfg ∧ (st'.files i).curSize ≤ (st'.files i).maxSize ∧
        (st'.files i).maxSize ≤ cfg.maxFileSize)
    (htiling : ∀ l, l < numActiveDblocks cfg → Tiling (st'.filesIn cfg l)
      (fun i => (st'.files i).dataIdx) (fun i => (st'.files i).maxSize) (st.blocks l).dataStart
      (if l = lblock then cfg.blockSize - freeSize else st.dataEnd cfg l))
    (haligned : cfg.Aligned → cfg.programUnit ∣ freeSize ∧
      ∀ i, i < cfg.maxNumFiles → (st'.files i).id ≠ 0 →
        cfg.programUnit ∣ (st'.files i).dataIdx ∧ cfg.programUnit ∣ (st'.files i).maxSize) :
    st'.Wf cfg s where
  version := h.version.trans hw.version
  scratch h2 := by
    have hsc := hw.scratch h2
    rw [h.scratch]
    split_ifs with hn
    · exact hsc
    · have hd := hw.dedicated lblock (Nat.pos_of_ne_zero fun h0 => hn (.inl h0)) hlb
      exact ⟨hd.1, hd.2.1⟩
  lb0 := ⟨h.phyId_zero hacc.numActive_pos, (h.dataStart hacc.numActive_pos).trans hw.lb0.2⟩
  dedicated _ h₀ hl := h.dedicated hw hacc hlb h₀ hl
  phys_inj _ _ h₀ hl h₀' hl' := h.phys_inj hw h₀ hl h₀' hl'
  freeSize_le l hl := by
    rw [h.dataStart hl, h.freeSize_eq hl]
    split_ifs with he
    · exact he ▸ hfree
    · exact hw.freeSize_le l hl
  free := hzero
  sizes := hsizes
  tiling l hl := by
    have ht := htiling l hl
    have hend : st'.dataEnd cfg l =
        if l = lblock then cfg.blockSize - freeSize else st.dataEnd cfg l := by
      unfold Image.dataEnd
      rw [h.freeSize_eq hl]
      split_ifs <;> rfl
    rw [h.dataStart hl, hend]
    exact ht
  aligned ha := by
    refine ⟨fun l hl => ?_, (haligned ha).2⟩
    rw [h.freeSize_eq hl]
    split_ifs
    · exact (haligned ha).1
    · exact (hw.aligned ha).1 l hl

end BlockStep

/-- The same update of equal tables leads to equal ones. -/
theorem BlockStep.same {st₁ st₁' : Image} (h : BlockStep cfg s st lblock freeSize swap st')
    (h₁ : BlockStep cfg s st₁ lblock freeSize swap st₁') (hs : st.Same cfg st₁)
    (hlb : lblock < numActiveDblocks cfg) :
    st₁'.header.fsVersion = st'.header.fsVersion ∧
      st₁'.header.scratchDblock = st'.header.scratchDblock ∧
      ∀ l, l < numActiveDblocks cfg → st₁'.blocks l = st'.blocks l := by
  have hb := hs.blocks lblock hlb
  refine ⟨?_, ?_, fun l hl => ?_⟩
  · rw [h₁.version, h.version, hs.version]
  · rw [h₁.scratch, h.scratch, hs.scratch, hb]
  · have hb0 := hs.blocks 0 (by omega)
    have hbl := hs.blocks l hl
    rw [h₁.blocks l hl, h.blocks l hl]
    unfold stagedBlock stageBlock
    rw [hb, hb0, hbl, hs.scratch]

end Etss
