import Mathlib.Data.List.Perm.Subperm
import TfmExtras.Etss.Run

/-! The layout of the active metadata block, in every state that calls lead to: the files fill
their blocks, and every dedicated block is either in use or the scratch block. -/

namespace Etss
open NorFlash NorFlash.Flash FlashM Finset

variable {cfg : Config} {a : Nat} {st : Image} {c : Ctx} {fl : Flash}

/-! ## Physical blocks -/

/-- The blocks of the dedicated logical blocks, and the scratch block before them. -/
def Image.dataBlocks (cfg : Config) (st : Image) : List Nat :=
  st.header.scratchDblock ::
    (List.range' 1 (numDedicatedDblocks cfg)).map fun l => (st.blocks l).phyId

/-- The physical blocks that are not metadata blocks. -/
def dedicatedBlocks (cfg : Config) : List Nat := List.range' 2 (cfg.numBlocks - 2)

theorem Image.Wf.dataBlocks_nodup (h : st.Wf cfg a) (hacc : cfg.Accepted) :
    (st.dataBlocks cfg).Nodup := by
  have hn := numActive_eq_dedicated hacc
  refine List.nodup_cons.mpr ⟨fun hm => ?_, List.Nodup.map_on ?_ List.nodup_range'⟩
  · obtain ⟨l, hl, he⟩ := List.mem_map.mp hm
    rw [List.mem_range'_1] at hl
    exact (h.dedicated l hl.1 (by omega)).2.2.1 he
  · intro l hl l' hl' he
    rw [List.mem_range'_1] at hl hl'
    exact h.phys_inj l l' hl.1 (by omega) hl'.1 (by omega) he

theorem Image.Wf.dataBlocks_perm (h : st.Wf cfg a) (hacc : cfg.Accepted) (h2 : cfg.numBlocks ≠ 2) :
    (st.dataBlocks cfg).Perm (dedicatedBlocks cfg) := by
  have hn := numActive_eq_dedicated hacc
  have ha := hacc.numActive_eq
  rw [if_neg h2] at ha
  have hsub : st.dataBlocks cfg ⊆ dedicatedBlocks cfg := by
    intro b hb
    unfold dedicatedBlocks
    rw [List.mem_range'_1]
    rcases List.mem_cons.mp hb with rfl | hm
    · have := h.scratch h2
      omega
    · obtain ⟨l, hl, rfl⟩ := List.mem_map.mp hm
      rw [List.mem_range'_1] at hl
      have := h.dedicated l hl.1 (by omega)
      omega
  refine (List.subperm_of_subset (h.dataBlocks_nodup hacc) hsub).perm_of_length_le ?_
  unfold Image.dataBlocks dedicatedBlocks
  simp only [List.length_cons, List.length_map, List.length_range']
  omega

/-! ## The invariant -/

/-- The cells of a logical block that a file takes. -/
def Image.extent (st : Image) (i : Nat) : Finset Nat :=
  Ico (st.files i).dataIdx ((st.files i).dataIdx + (st.files i).maxSize)

/-- The layout of the filesystem in metadata block `a`. -/
structure LayoutInv (cfg : Config) (st : Image) (a : Nat) : Prop where
  disjoint : ∀ l, l < numActiveDblocks cfg →
    (st.filesIn cfg l : Set Nat).PairwiseDisjoint st.extent
  tile : ∀ l, l < numActiveDblocks cfg → (st.filesIn cfg l).biUnion st.extent =
    Ico (st.blocks l).dataStart (cfg.blockSize - (st.blocks l).freeSize)
  files_lblock : ∀ i, i < cfg.maxNumFiles → (st.files i).id ≠ 0 →
    (st.files i).lblock < numActiveDblocks cfg
  dataBlocks : 2 < cfg.numBlocks → (st.dataBlocks cfg).Perm (dedicatedBlocks cfg)
  lblock0 : (st.blocks logicalDblock0).phyId = a
  unique : ∀ i j, i < cfg.maxNumFiles → j < cfg.maxNumFiles → (st.files i).id ≠ 0 →
    (st.files i).id = (st.files j).id → i = j
  unmarked : ∀ i, i < cfg.maxNumFiles → (st.files i).flags &&& flagDelete = 0
  free : 0 < cfg.maxNumFiles → ∃ i < cfg.maxNumFiles, (st.files i).id = 0
  sizes : ∀ i, i < cfg.maxNumFiles → (st.files i).id ≠ 0 →
    (st.files i).curSize ≤ (st.files i).maxSize ∧ (st.files i).maxSize ≤ cfg.maxFileSize

theorem Image.Wf.layoutInv (h : st.Wf cfg a) (hc : st.Closed cfg) (hacc : cfg.Accepted) :
    LayoutInv cfg st a where
  disjoint l hl := (h.tiling l hl).pairwiseDisjoint
  tile l hl := (h.tiling l hl).biUnion_eq
  files_lblock i hi hid := (h.sizes i hi hid).1
  dataBlocks h2 := h.dataBlocks_perm hacc (by omega)
  lblock0 := h.lb0.1
  unique := hc.unique
  unmarked i hi := not_not.mp (hc.unmarked i hi)
  free := hc.spare
  sizes i hi hid := (h.sizes i hi hid).2

/-- The layout invariant holds in every state that is reached. -/
theorem reaches_layoutInv (hacc : cfg.Accepted) (h : Reaches cfg c fl) :
    LayoutInv cfg (mountedImage cfg c fl) c.activeMetablock :=
  have hs := h.store hacc
  hs.wf.layoutInv hs.closed hacc

/-- After a file is created in a formatted flash of five blocks. -/
theorem layoutInv_after_create :
    LayoutInv fiveBlocks (mountedImage fiveBlocks ((FsCall.write fourBytes).after fiveBlocks
        (formatted fiveBlocks).ctx (formatted fiveBlocks).flash).ctx
      ((FsCall.write fourBytes).after fiveBlocks
        (formatted fiveBlocks).ctx (formatted fiveBlocks).flash).flash)
      ((FsCall.write fourBytes).after fiveBlocks
        (formatted fiveBlocks).ctx (formatted fiveBlocks).flash).ctx.activeMetablock :=
  reaches_layoutInv fiveBlocks_accepted
    (.call (.write fourBytes) (.format _ _) (by decide))

/-- With two blocks there is no dedicated block for the scratch block of the header, and without
file entries none is free. -/
theorem layoutInv_exceptions :
    (∃ c fl, Reaches twoBlocks c fl ∧
      ¬ ((mountedImage twoBlocks c fl).dataBlocks twoBlocks).Perm (dedicatedBlocks twoBlocks)) ∧
    ∃ c fl, Reaches noFiles c fl ∧
      ¬ ∃ i < noFiles.maxNumFiles, ((mountedImage noFiles c fl).files i).id = 0 := by
  refine ⟨⟨_, _, .format Ctx.zero ⟨[]⟩, fun h => ?_⟩, _, _, .format Ctx.zero ⟨[]⟩, ?_⟩
  · exact absurd h.length_eq (Nat.succ_ne_zero _)
  · rintro ⟨i, hi, _⟩
    exact Nat.not_lt_zero i hi

end Etss
