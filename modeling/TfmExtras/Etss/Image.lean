import Mathlib.Data.List.Find
import TfmExtras.Etss.Layout
import TfmExtras.Lib.Tiling

/-! The filesystem that a metadata block describes, and what it means for it to be well formed. -/

namespace Etss
open Bytes NorFlash Finset

/-- The filesystem described by a metadata block: its header, the block table, the file table
and the contents of the logical blocks. -/
structure Image where
  header : MetadataBlockHeader
  blocks : Nat → BlockMeta
  files : Nat → FileMeta
  data : Nat → Nat → UInt8

/-- The filesystem described by metadata block `a` of a flash. -/
def image (cfg : Config) (fl : Flash) (a : Nat) : Image where
  header := .decode (fl.read cfg.eraseVal a 0 blockMetaHeaderSize)
  blocks l := .decode (fl.read cfg.eraseVal a (8 + 12 * l) blockMetadataSize)
  files i := .decode (fl.read cfg.eraseVal a (cfg.fileEntry i) fileMetadataSize)
  data l o := fl.byte cfg.eraseVal
    (BlockMeta.decode (fl.read cfg.eraseVal a (8 + 12 * l) blockMetadataSize)).phyId o

theorem image_data (cfg : Config) (fl : Flash) (a l o : Nat) :
    (image cfg fl a).data l o =
      fl.byte cfg.eraseVal ((image cfg fl a).blocks l).phyId o := rfl

namespace Image
variable (cfg : Config) (st : Image)

/-- The first byte of a logical block that no file uses. -/
def dataEnd (l : Nat) : Nat := cfg.blockSize - (st.blocks l).freeSize

/-- The entries of the files that lie in a logical block. -/
def filesIn (l : Nat) : Finset Nat :=
  (range cfg.maxNumFiles).filter fun i => (st.files i).id ≠ 0 ∧ (st.files i).lblock = l

/-- The visible bytes of a file. -/
def content (i : Nat) : List UInt8 :=
  (List.range (st.files i).curSize).map fun k =>
    st.data (st.files i).lblock ((st.files i).dataIdx + k)

/-- What a file shows to the callers. -/
structure View where
  flags : Nat
  maxSize : Nat
  curSize : Nat
  content : List UInt8
deriving DecidableEq, Repr

def view (i : Nat) : View :=
  ⟨(st.files i).flags, (st.files i).maxSize, (st.files i).curSize, st.content i⟩

/-- The files by id; the id 0 is that of a free entry. -/
def fileMap (fid : Fid) : Option View :=
  if fid = 0 then none
  else ((List.range cfg.maxNumFiles).find? fun i => (st.files i).id == fid).map st.view

/-- The invariant of the tables, of the filesystem described by metadata block `a`. -/
structure Wf (a : Nat) : Prop where
  version : st.header.fsVersion = supportedVersion
  scratch : cfg.numBlocks ≠ 2 →
    2 ≤ st.header.scratchDblock ∧ st.header.scratchDblock < cfg.numBlocks
  lb0 : (st.blocks 0).phyId = a ∧ (st.blocks 0).dataStart = cfg.metaEnd
  dedicated : ∀ l, 0 < l → l < numActiveDblocks cfg →
    2 ≤ (st.blocks l).phyId ∧ (st.blocks l).phyId < cfg.numBlocks ∧
      (st.blocks l).phyId ≠ st.header.scratchDblock ∧ (st.blocks l).dataStart = 0
  phys_inj : ∀ l l', 0 < l → l < numActiveDblocks cfg → 0 < l' → l' < numActiveDblocks cfg →
    (st.blocks l).phyId = (st.blocks l').phyId → l = l'
  freeSize_le : ∀ l, l < numActiveDblocks cfg →
    (st.blocks l).dataStart + (st.blocks l).freeSize ≤ cfg.blockSize
  free : ∀ i, i < cfg.maxNumFiles → (st.files i).id = 0 → st.files i = FileMeta.zero
  sizes : ∀ i, i < cfg.maxNumFiles → (st.files i).id ≠ 0 →
    (st.files i).lblock < numActiveDblocks cfg ∧ (st.files i).curSize ≤ (st.files i).maxSize ∧
      (st.files i).maxSize ≤ cfg.maxFileSize
  tiling : ∀ l, l < numActiveDblocks cfg →
    Tiling (st.filesIn cfg l) (fun i => (st.files i).dataIdx) (fun i => (st.files i).maxSize)
      (st.blocks l).dataStart (st.dataEnd cfg l)
  aligned : cfg.Aligned → (∀ l, l < numActiveDblocks cfg → cfg.programUnit ∣ (st.blocks l).freeSize) ∧
    ∀ i, i < cfg.maxNumFiles → (st.files i).id ≠ 0 →
      cfg.programUnit ∣ (st.files i).dataIdx ∧ cfg.programUnit ∣ (st.files i).maxSize

/-- Entry `i` is marked to be deleted. -/
def Marked (i : Nat) : Prop := (st.files i).flags &&& flagDelete ≠ 0

/-- What holds between operations. -/
structure Closed : Prop where
  unique : ∀ i j, i < cfg.maxNumFiles → j < cfg.maxNumFiles → (st.files i).id ≠ 0 →
    (st.files i).id = (st.files j).id → i = j
  unmarked : ∀ i, i < cfg.maxNumFiles → ¬ st.Marked i
  spare : 0 < cfg.maxNumFiles → ∃ i < cfg.maxNumFiles, (st.files i).id = 0

/-- What holds inside a replacement: entry `d` is the old file, still to be deleted. -/
structure Pending (d : Nat) : Prop where
  lt : d < cfg.maxNumFiles
  valid : (st.files d).id ≠ 0
  marked : ∀ i, i < cfg.maxNumFiles → (st.Marked i ↔ i = d)
  unique : ∀ i j, i < cfg.maxNumFiles → j < cfg.maxNumFiles → i ≠ d → j ≠ d →
    (st.files i).id ≠ 0 → (st.files i).id = (st.files j).id → i = j

end Image

variable {cfg : Config} {st : Image} {a : Nat} {fid : Fid}

theorem Image.mem_filesIn {l i : Nat} : i ∈ st.filesIn cfg l ↔
    i < cfg.maxNumFiles ∧ (st.files i).id ≠ 0 ∧ (st.files i).lblock = l := by
  unfold filesIn
  rw [mem_filter, mem_range]

theorem Image.Wf.mem_own (_h : st.Wf cfg a) {i : Nat} (hi : i < cfg.maxNumFiles)
    (hid : (st.files i).id ≠ 0) : i ∈ st.filesIn cfg (st.files i).lblock :=
  mem_filesIn.mpr ⟨hi, hid, rfl⟩

/-- A file lies inside the used part of its logical block. -/
theorem Image.Wf.inside (h : st.Wf cfg a) {i : Nat} (hi : i < cfg.maxNumFiles)
    (hid : (st.files i).id ≠ 0) :
    (st.blocks (st.files i).lblock).dataStart ≤ (st.files i).dataIdx ∧
      (st.files i).dataIdx + (st.files i).maxSize ≤ st.dataEnd cfg (st.files i).lblock :=
  (h.tiling _ (h.sizes i hi hid).1).inside i (h.mem_own hi hid)

theorem Image.Wf.phyId_lt (h : st.Wf cfg a) (hacc : cfg.Accepted) (ha : a ≤ 1) {l : Nat}
    (hl : l < numActiveDblocks cfg) : (st.blocks l).phyId < cfg.numBlocks := by
  by_cases h0 : l = 0
  · subst h0
    have h2 := hacc.two_le_numBlocks
    rw [h.lb0.1]
    omega
  · exact (h.dedicated l (Nat.pos_of_ne_zero h0) hl).2.1

theorem Image.Wf.phyId_ne (h : st.Wf cfg a) {s l : Nat} (hs : s ≤ 1) (hsa : s ≠ a)
    (hl : l < numActiveDblocks cfg) : (st.blocks l).phyId ≠ s := by
  by_cases h0 : l = 0
  · subst h0
    rw [h.lb0.1]
    exact hsa.symm
  · have h2 := (h.dedicated l (Nat.pos_of_ne_zero h0) hl).1
    omega

/-- No logical block lies in the scratch data block. -/
theorem Image.Wf.phyId_ne_scratch (h : st.Wf cfg a) (ha : a ≤ 1) {l : Nat}
    (hl : l < numActiveDblocks cfg) (h2 : cfg.numBlocks ≠ 2) :
    (st.blocks l).phyId ≠ st.header.scratchDblock := by
  by_cases h0 : l = 0
  · subst h0
    have := (h.scratch h2).1
    rw [h.lb0.1]
    omega
  · exact (h.dedicated l (Nat.pos_of_ne_zero h0) hl).2.2.1

/-! ## The map of files -/

theorem Image.fileMap_eq_none (h : ∀ i, i < cfg.maxNumFiles → (st.files i).id = fid → fid = 0) :
    st.fileMap cfg fid = none := by
  unfold fileMap
  split_ifs with h0
  · rfl
  · rw [Option.map_eq_none_iff, List.find?_eq_none]
    intro i hi he
    exact h0 (h i (List.mem_range.mp hi) (beq_iff_eq.mp he))

theorem Image.fileMap_eq_some {i : Nat} (h0 : fid ≠ 0) (hi : i < cfg.maxNumFiles)
    (hid : (st.files i).id = fid)
    (hu : ∀ j, j < cfg.maxNumFiles → (st.files j).id = fid → st.view j = st.view i) :
    st.fileMap cfg fid = some (st.view i) := by
  unfold fileMap
  rw [if_neg h0]
  cases hf : (List.range cfg.maxNumFiles).find? fun i => (st.files i).id == fid with
  | none =>
    have hn := List.find?_eq_none.mp hf i (List.mem_range.mpr hi)
    exact absurd (beq_iff_eq.mpr hid) hn
  | some j =>
    have hj := List.mem_range.mp (List.mem_of_find?_eq_some hf)
    have hjid := List.find?_some hf
    exact congrArg some (hu j hj (beq_iff_eq.mp hjid))

/-- Two filesystems whose files agree, entry by entry, have the same map. -/
theorem Image.fileMap_congr {st' : Image} (hf : ∀ i, i < cfg.maxNumFiles →
    (st'.files i).id = (st.files i).id)
    (hv : ∀ i, i < cfg.maxNumFiles → (st.files i).id ≠ 0 → st'.view i = st.view i) :
    st'.fileMap cfg = st.fileMap cfg := by
  funext fid
  unfold fileMap
  split_ifs with h0
  · rfl
  have hp : (List.range cfg.maxNumFiles).find? (fun i => (st'.files i).id == fid) =
      (List.range cfg.maxNumFiles).find? fun i => (st.files i).id == fid :=
    List.find?_congr fun i hi => by rw [hf i (List.mem_range.mp hi)]
  rw [hp]
  cases hs : (List.range cfg.maxNumFiles).find? fun i => (st.files i).id == fid with
  | none => rfl
  | some i =>
    have hid := List.find?_some hs
    refine congrArg some (hv i (List.mem_range.mp (List.mem_of_find?_eq_some hs)) ?_)
    rw [beq_iff_eq.mp hid]
    exact h0

/-! ## Equal filesystems -/

/-- The same tables, and the same data in the used part of every logical block. -/
structure Image.Same (cfg : Config) (st st' : Image) : Prop where
  version : st'.header.fsVersion = st.header.fsVersion
  scratch : st'.header.scratchDblock = st.header.scratchDblock
  blocks : ∀ l, l < numActiveDblocks cfg → st'.blocks l = st.blocks l
  files : ∀ i, i < cfg.maxNumFiles → st'.files i = st.files i
  data : ∀ l, l < numActiveDblocks cfg → ∀ o, (st.blocks l).dataStart ≤ o →
    o < st.dataEnd cfg l → st'.data l o = st.data l o

namespace Image.Same
variable {st' : Image} (h : Same cfg st st')
include h

theorem trans {st'' : Image} (h' : st'.Same cfg st'') : st.Same cfg st'' where
  version := h'.version.trans h.version
  scratch := h'.scratch.trans h.scratch
  blocks l hl := (h'.blocks l hl).trans (h.blocks l hl)
  files i hi := (h'.files i hi).trans (h.files i hi)
  data l hl o h₁ h₂ := by
    have hb := h.blocks l hl
    refine (h'.data l hl o ?_ ?_).trans (h.data l hl o h₁ h₂)
    · rwa [hb]
    · unfold dataEnd at h₂ ⊢
      rwa [hb]

theorem symm : st'.Same cfg st where
  version := h.version.symm
  scratch := h.scratch.symm
  blocks l hl := (h.blocks l hl).symm
  files i hi := (h.files i hi).symm
  data l hl o h₁ h₂ := by
    have hb := h.blocks l hl
    refine (h.data l hl o ?_ ?_).symm
    · rwa [← hb]
    · unfold dataEnd at h₂ ⊢
      rwa [← hb]

theorem filesIn (l : Nat) : st'.filesIn cfg l = st.filesIn cfg l :=
  filter_congr fun i hi => by rw [h.files i (mem_range.mp hi)]

theorem wf (hacc : cfg.Accepted) (hw : st.Wf cfg a) : st'.Wf cfg a where
  version := h.version.trans hw.version
  scratch := h.scratch ▸ hw.scratch
  lb0 := by
    rw [h.blocks 0 hacc.numActive_pos]
    exact hw.lb0
  dedicated l h₀ hl := by
    rw [h.blocks l hl, h.scratch]
    exact hw.dedicated l h₀ hl
  phys_inj l l' h₀ hl h₀' hl' := by
    rw [h.blocks l hl, h.blocks l' hl']
    exact hw.phys_inj l l' h₀ hl h₀' hl'
  freeSize_le l hl := by
    rw [h.blocks l hl]
    exact hw.freeSize_le l hl
  free i hi := by
    rw [h.files i hi]
    exact hw.free i hi
  sizes i hi := by
    rw [h.files i hi]
    exact hw.sizes i hi
  tiling l hl := by
    have ht := hw.tiling l hl
    unfold dataEnd at ht ⊢
    rw [h.filesIn, h.blocks l hl]
    exact ht.congr (fun i hi => by rw [h.files i (mem_filesIn.mp hi).1])
      fun i hi => by rw [h.files i (mem_filesIn.mp hi).1]
  aligned ha := by
    refine ⟨fun l hl => ?_, fun i hi hid => ?_⟩
    · rw [h.blocks l hl]
      exact (hw.aligned ha).1 l hl
    · rw [h.files i hi] at hid ⊢
      exact (hw.aligned ha).2 i hi hid

theorem closed (hc : st.Closed cfg) : st'.Closed cfg where
  unique i j hi hj := by
    rw [h.files i hi, h.files j hj]
    exact hc.unique i j hi hj
  unmarked i hi := by
    unfold Marked
    rw [h.files i hi]
    exact hc.unmarked i hi
  spare hm := by
    obtain ⟨i, hi, hid⟩ := hc.spare hm
    exact ⟨i, hi, by rw [h.files i hi, hid]⟩

theorem pending {d : Nat} (hp : st.Pending cfg d) : st'.Pending cfg d where
  lt := hp.lt
  valid := by
    rw [h.files d hp.lt]
    exact hp.valid
  marked i hi := by
    unfold Marked
    rw [h.files i hi]
    exact hp.marked i hi
  unique i j hi hj := by
    rw [h.files i hi, h.files j hj]
    exact hp.unique i j hi hj

/-- Equal filesystems show the same bytes of a file. -/
theorem content (hw : st.Wf cfg a) {i : Nat} (hi : i < cfg.maxNumFiles)
    (hid : (st.files i).id ≠ 0) : st'.content i = st.content i := by
  obtain ⟨hl, hcur, _⟩ := hw.sizes i hi hid
  obtain ⟨hlo, hhi⟩ := hw.inside hi hid
  unfold Image.content
  rw [h.files i hi]
  refine List.map_congr_left fun k hk => h.data _ hl _ (by omega) ?_
  rw [List.mem_range] at hk
  omega

theorem view (hw : st.Wf cfg a) {i : Nat} (hi : i < cfg.maxNumFiles)
    (hid : (st.files i).id ≠ 0) : st'.view i = st.view i := by
  unfold Image.view
  rw [h.files i hi, h.content hw hi hid]

theorem fileMap (hw : st.Wf cfg a) : st'.fileMap cfg = st.fileMap cfg :=
  fileMap_congr (fun i hi => by rw [h.files i hi]) fun _ hi hid => h.view hw hi hid

end Image.Same

/-! ## Valid entries pass the checks made on reading them -/

theorem Image.Wf.validateBlockMeta (h : st.Wf cfg a) (hacc : cfg.Accepted) (ha : a ≤ 1) {l : Nat}
    (hl : l < numActiveDblocks cfg) : mblockValidateBlockMeta cfg (st.blocks l) = .ok () := by
  have hphy := h.phyId_lt hacc ha hl
  have hfree := utilsCheckContainedIn_eq_ok.mpr (h.freeSize_le l hl)
  unfold mblockValidateBlockMeta mblockCheckBlockMeta
  rw [if_neg (Nat.not_le.mpr hphy), hfree]
  by_cases h0 : l = 0
  · subst h0
    obtain ⟨hp, hd⟩ := h.lb0
    have ha' : (st.blocks 0).phyId = metadataBlock0 ∨ (st.blocks 0).phyId = metadataBlock1 := by
      unfold metadataBlock0 metadataBlock1
      omega
    simp only [if_pos ha', hacc.fileOffset_eq le_rfl, hd]
    exact if_neg fun hne => hne rfl
  · have hd := h.dedicated l (Nat.pos_of_ne_zero h0) hl
    have ha' : ¬((st.blocks l).phyId = metadataBlock0 ∨ (st.blocks l).phyId = metadataBlock1) := by
      unfold metadataBlock0 metadataBlock1
      omega
    simp only [if_neg ha', hd.2.2.2]
    exact if_neg fun hne => hne rfl

theorem validateFileMeta_zero (hacc : cfg.Accepted) :
    mblockValidateFileMeta cfg FileMeta.zero = .ok () := by
  have h0 : ¬ FileMeta.zero.lblock ≥ numActiveDblocks cfg := Nat.not_le.mpr hacc.numActive_pos
  unfold mblockValidateFileMeta
  rw [if_neg h0]
  rfl

theorem Image.Wf.validateFileMeta (h : st.Wf cfg a) (hacc : cfg.Accepted) {i : Nat}
    (hi : i < cfg.maxNumFiles) : mblockValidateFileMeta cfg (st.files i) = .ok () := by
  by_cases hid : (st.files i).id = 0
  · rw [h.free i hi hid]
    exact validateFileMeta_zero hacc
  · obtain ⟨hl, hcur, hmax⟩ := h.sizes i hi hid
    obtain ⟨hlo, hhi⟩ := h.inside hi hid
    have hfree := h.freeSize_le _ hl
    have hcont := utilsCheckContainedIn_eq_ok.mpr (hhi.trans (Nat.sub_le _ _))
    unfold mblockValidateFileMeta utilsValidateFid
    rw [if_neg (Nat.not_le.mpr hl), if_pos hid]
    simp only [if_neg (Nat.not_lt.mpr hmax), if_neg (Nat.not_lt.mpr hcur), hcont]
    refine if_neg ?_
    rintro ⟨h0, hlt⟩
    rw [h0, show logicalDblock0 = 0 from rfl, h.lb0.2] at hlo
    rw [hacc.fileOffset_eq le_rfl] at hlt
    exact absurd hlt (Nat.not_lt.mpr hlo)

end Etss
