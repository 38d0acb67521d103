import TfmExtras.Etss.ReadBack
import TfmExtras.Etss.Run

/-! What a deletion leaves of the other files. Their contents stay, unless an empty file is
deleted that starts where a nonempty one starts: the compaction then takes the nonempty file for
the deleted one. -/

namespace Etss
open NorFlash NorFlash.Flash FlashM Finset

variable {cfg : Config} {st st' : Image} {a s d e : Nat} {c : Ctx} {fl : Flash}

/-! ## Files that share a start -/

/-- File `d` is empty, and the nonempty file `e` starts where it starts. -/
structure Image.SharesWith (cfg : Config) (st : Image) (d e : Nat) : Prop where
  empty : (st.files d).maxSize = 0
  lt : e < cfg.maxNumFiles
  id : (st.files e).id ≠ 0
  lblock : (st.files e).lblock = (st.files d).lblock
  dataIdx : (st.files e).dataIdx = (st.files d).dataIdx
  pos : 0 < (st.files e).maxSize

/-- The byte `n` cells further on in the used part of a logical block. -/
def Image.byteAhead (cfg : Config) (st : Image) (l n o : Nat) : UInt8 :=
  if o + n < st.dataEnd cfg l then st.data l (o + n) else cfg.eraseVal

/-- File `i` in the logical block of file `d`, when the bytes behind the start of file `d` come from
as much further on as file `e` is long. -/
def Image.contentAhead (cfg : Config) (st : Image) (d e i : Nat) : List UInt8 :=
  (List.range (st.files i).curSize).map fun k =>
    if (st.files d).dataIdx ≤ (st.files i).dataIdx + k then
      st.byteAhead cfg (st.files d).lblock (st.files e).maxSize ((st.files i).dataIdx + k)
    else st.data (st.files d).lblock ((st.files i).dataIdx + k)

/-- Deleting file `d` keeps the contents of the others: it shares its start with no nonempty
file, or their bytes repeat at the distance that they are moved. -/
def Image.DeleteKeeps (cfg : Config) (st : Image) (d : Nat) : Prop :=
  ∀ e, st.SharesWith cfg d e → ∀ i ∈ st.filesIn cfg (st.files d).lblock, i ≠ d →
    ∀ k < (st.files i).curSize, (st.files d).dataIdx ≤ (st.files i).dataIdx + k →
      st.data (st.files d).lblock ((st.files i).dataIdx + k) =
        st.byteAhead cfg (st.files d).lblock (st.files e).maxSize ((st.files i).dataIdx + k)

theorem Image.SharesWith.ne (h : st.SharesWith cfg d e) : e ≠ d := by
  rintro rfl
  exact h.pos.ne' h.empty

theorem Image.SharesWith.sharesIndex (h : st.SharesWith cfg d e) : st.SharesIndex cfg d :=
  ⟨h.empty, e, h.lt, h.ne, h.id, h.lblock, h.dataIdx, h.pos⟩

theorem Image.SharesIndex.exists_with (h : st.SharesIndex cfg d) : ∃ e, st.SharesWith cfg d e := by
  obtain ⟨h0, e, he, _, hid, hl, hx, hpos⟩ := h
  exact ⟨e, h0, he, hid, hl, hx, hpos⟩

theorem Image.DeleteKeeps.of_not_shares (h : ¬ st.SharesIndex cfg d) : st.DeleteKeeps cfg d :=
  fun _ he => absurd he.sharesIndex h

/-- The bytes to move start behind the nonempty file, as if it were the deleted one. -/
theorem Image.Wf.scan_shares (h : st.Wf cfg a) (hd : d < cfg.maxNumFiles)
    (hid : (st.files d).id ≠ 0) (he : st.SharesWith cfg d e) :
    (st.deleteScan cfg d).nbrBytesToMove = st.dataEnd cfg (st.files d).lblock -
        ((st.files d).dataIdx + (st.files e).maxSize) ∧
      ((st.deleteScan cfg d).nbrBytesToMove ≠ 0 →
        (st.deleteScan cfg d).srcOffset = (st.files d).dataIdx + (st.files e).maxSize) := by
  have hl := (h.sizes d hd hid).1
  have ht := h.tiling _ hl
  have hmem : e ∈ st.filesIn cfg (st.files d).lblock :=
    Image.mem_filesIn.mpr ⟨he.lt, he.id, he.lblock⟩
  have hin := ht.inside e hmem
  have hpos := he.pos
  rw [he.dataIdx] at hin
  -- a file behind comes after the nonempty one
  have hafter : ∀ i ∈ st.behind cfg d,
      (st.files d).dataIdx + (st.files e).maxSize ≤ (st.files i).dataIdx := fun i hi => by
    obtain ⟨hi, hlt⟩ := mem_filter.mp hi
    have hne : i ≠ e := by
      rintro rfl
      rw [he.dataIdx] at hlt
      exact lt_irrefl _ hlt
    have := ht.apart i hi e hmem hne
    rw [he.dataIdx] at this
    omega
  -- unless it is the last, a file starts right behind it
  have hnext : (st.files d).dataIdx + (st.files e).maxSize < st.dataEnd cfg (st.files d).lblock →
      ∃ i ∈ st.behind cfg d,
        (st.files i).dataIdx = (st.files d).dataIdx + (st.files e).maxSize := fun hlt => by
    obtain ⟨i, hi, h₁, h₂⟩ := ht.cover _ (hin.1.trans (Nat.le_add_right _ _)) hlt
    have hne : i ≠ e := by
      rintro rfl
      rw [he.dataIdx] at h₂
      exact lt_irrefl _ h₂
    have := ht.apart i hi e hmem hne
    rw [he.dataIdx] at this
    exact ⟨i, mem_filter.mpr ⟨hi, show (st.files d).dataIdx < (st.files i).dataIdx by omega⟩,
      by omega⟩
  have hs : ScanOf cfg st (st.behind cfg d) (st.deleteScan cfg d) := deleteScan_spec
  have hend : st.dataEnd cfg (st.files d).lblock ≤ cfg.blockSize := Nat.sub_le _ _
  have hsrc : (st.files d).dataIdx + (st.files e).maxSize ≤ (st.deleteScan cfg d).srcOffset := by
    rcases hs.attained with hb | ⟨i, hi, hx⟩
    · omega
    · exact hx ▸ hafter i hi
  rcases h.scan_cases hd hid with ⟨hnone, h0⟩ | ⟨_, hsum, hle⟩
  · refine ⟨?_, fun hn => absurd h0 hn⟩
    rw [h0]
    by_contra hn
    obtain ⟨i, hi, _⟩ := hnext (by omega)
    rw [hnone] at hi
    exact notMem_empty i hi
  · by_cases hlt : (st.files d).dataIdx + (st.files e).maxSize <
        st.dataEnd cfg (st.files d).lblock
    · obtain ⟨i, hi, hx⟩ := hnext hlt
      have := hle i hi
      omega
    · omega

namespace DeleteStep
variable (h : DeleteStep cfg s st d st') (hw : st.Wf cfg a) (hd : d < cfg.maxNumFiles)
  (hid : (st.files d).id ≠ 0)
include h hw hd hid

/-- With a shared start, every byte behind it comes from further on. -/
theorem data_shares (he : st.SharesWith cfg d e) {o : Nat} (h₁ : (st.files d).dataIdx ≤ o)
    (h₂ : o < cfg.blockSize) : st'.data (st.files d).lblock o =
      st.byteAhead cfg (st.files d).lblock (st.files e).maxSize o := by
  obtain ⟨hn, hsrc⟩ := hw.scan_shares hd hid he
  unfold Image.byteAhead
  split_ifs with hlt
  · have hm := h.moved (o - (st.files d).dataIdx) (by omega)
    rw [Nat.add_sub_cancel' h₁, hsrc (by omega)] at hm
    rw [hm]
    congr 1
    omega
  · exact h.rest o (by omega) h₂

omit hid in
theorem content_other {i : Nat} (hi : i < cfg.maxNumFiles) (hv : (st.files i).id ≠ 0)
    (hl : (st.files i).lblock ≠ (st.files d).lblock) : st'.content i = st.content i := by
  obtain ⟨hil, hcur, _⟩ := hw.sizes i hi hv
  have hin := hw.inside hi hv
  unfold Image.content
  rw [h.files_other hd hi hl]
  refine List.map_congr_left fun k hk => ?_
  rw [List.mem_range] at hk
  exact h.others _ hil hl _ (by omega) (by omega)

theorem content_ahead (he : st.SharesWith cfg d e) {i : Nat}
    (hi : i ∈ st.filesIn cfg (st.files d).lblock) (hne : i ≠ d) :
    st'.content i = st.contentAhead cfg d e i := by
  obtain ⟨him, hiv, hil⟩ := Image.mem_filesIn.mp hi
  obtain ⟨_, hcur, _⟩ := hw.sizes i him hiv
  have hin := hw.inside him hiv
  have hfs := hw.freeSize_le _ (hw.sizes d hd hid).1
  unfold Image.dataEnd at hin
  rw [hil] at hin
  have hx : (st'.files i).dataIdx = (st.files i).dataIdx := by
    rw [h.dataIdx hw hd hid hi hne, he.empty]
    split_ifs <;> omega
  have hcur' : (st'.files i).curSize = (st.files i).curSize := by
    rw [h.files_ne him hne, Image.shifted_curSize]
  have hlb' : (st'.files i).lblock = (st.files d).lblock := by
    rw [h.files_ne him hne, Image.shifted_lblock, hil]
  unfold Image.content Image.contentAhead
  rw [hcur', hlb', hx]
  refine List.map_congr_left fun k hk => ?_
  rw [List.mem_range] at hk
  -- the bytes before the start stay, those behind come from further on
  split_ifs with hle
  · exact h.data_shares hw hd hid he hle (by omega)
  · exact h.kept _ (by omega) (by omega)

theorem content_shares (he : st.SharesWith cfg d e) {i : Nat}
    (hi : i ∈ st.filesIn cfg (st.files d).lblock) (hne : i ≠ d) : st'.content i = st.content i ↔
      ∀ k < (st.files i).curSize, (st.files d).dataIdx ≤ (st.files i).dataIdx + k →
        st.data (st.files d).lblock ((st.files i).dataIdx + k) =
          st.byteAhead cfg (st.files d).lblock (st.files e).maxSize ((st.files i).dataIdx + k) := by
  rw [h.content_ahead hw hd hid he hi hne]
  unfold Image.content Image.contentAhead
  rw [(Image.mem_filesIn.mp hi).2.2, List.map_inj_left]
  refine forall_congr' fun k => ?_
  rw [List.mem_range]
  refine forall_congr' fun hk => ?_
  split_ifs with hle
  · exact ⟨fun heq _ => heq.symm, fun heq => (heq hle).symm⟩
  · exact ⟨fun _ hc => absurd hc hle, fun _ => rfl⟩

/-- The contents of the other files stay exactly when the condition holds. -/
theorem content_iff : (∀ i, i < cfg.maxNumFiles → i ≠ d → (st.files i).id ≠ 0 →
    st'.content i = st.content i) ↔ st.DeleteKeeps cfg d := by
  constructor
  · intro hc e he i hi hne
    obtain ⟨him, hiv, _⟩ := Image.mem_filesIn.mp hi
    exact (h.content_shares hw hd hid he hi hne).mp (hc i him hne hiv)
  · intro hk i hi hne hv
    by_cases hsh : st.SharesIndex cfg d
    · obtain ⟨e, he⟩ := hsh.exists_with
      by_cases hl : (st.files i).lblock = (st.files d).lblock
      · have hmem := Image.mem_filesIn.mpr ⟨hi, hv, hl⟩
        exact (h.content_shares hw hd hid he hmem hne).mpr (hk e he i hmem hne)
      · exact h.content_other hw hd hi hv hl
    · exact h.content hw hd hid hsh hi hne hv

end DeleteStep

/-! ## The map after a deletion -/

/-- The entry of a file id, in a filesystem with unique ids. -/
theorem Image.Closed.fileMap_some (hc : st.Closed cfg) {i : Nat} (hi : i < cfg.maxNumFiles)
    (hv : (st.files i).id ≠ 0) : st.fileMap cfg (st.files i).id = some (st.view i) :=
  fileMap_eq_some hv hi rfl fun j hj he => by
    rw [hc.unique i j hi hj hv he.symm]

theorem Image.fileMap_cases (cfg : Config) (st : Image) (fid : Fid) : st.fileMap cfg fid = none ∧
    (∀ i, i < cfg.maxNumFiles → (st.files i).id = fid → fid = 0) ∨
    ∃ i, i < cfg.maxNumFiles ∧ (st.files i).id = fid ∧ fid ≠ 0 := by
  by_cases hex : ∃ i, i < cfg.maxNumFiles ∧ (st.files i).id = fid ∧ fid ≠ 0
  · exact .inr hex
  · have hall : ∀ i, i < cfg.maxNumFiles → (st.files i).id = fid → fid = 0 := fun i hi he => by
      by_contra h0
      exact hex ⟨i, hi, he, h0⟩
    exact .inl ⟨fileMap_eq_none hall, hall⟩

namespace DeleteStep
variable (h : DeleteStep cfg s st d st') (hd : d < cfg.maxNumFiles) (hc : st.Closed cfg)
include h hd hc

theorem fileMap_self : st'.fileMap cfg (st.files d).id = none :=
  Image.fileMap_eq_none fun i hi he => by
    by_contra h0
    obtain ⟨hne, _⟩ := h.id_ne hi (he ▸ h0)
    rw [h.files_ne hi hne, Image.shifted_id] at he
    exact hne (hc.unique i d hi hd (he ▸ h0) he)

/-- Without the deleted file, the map is the same exactly when the contents are. -/
theorem fileMap_iff : (∀ fid, fid ≠ (st.files d).id → st'.fileMap cfg fid = st.fileMap cfg fid) ↔
    ∀ i, i < cfg.maxNumFiles → i ≠ d → (st.files i).id ≠ 0 → st'.content i = st.content i := by
  have hc' := h.closed_of_closed hd hc
  have hid' : ∀ i, i < cfg.maxNumFiles → i ≠ d → (st'.files i).id = (st.files i).id :=
    fun i hi hne => by rw [h.files_ne hi hne, Image.shifted_id]
  constructor
  · intro hm i hi hne hv
    have hfid : (st.files i).id ≠ (st.files d).id := fun he => hne (hc.unique i d hi hd hv he)
    have hmi := hm _ hfid
    rw [hc.fileMap_some hi hv, ← hid' i hi hne,
      hc'.fileMap_some hi (by rw [hid' i hi hne]; exact hv)] at hmi
    exact congrArg Image.View.content (Option.some.inj hmi)
  · intro hcon fid hne
    rcases st.fileMap_cases cfg fid with ⟨hn, hall⟩ | ⟨i, hi, rfl, h0⟩
    · rw [hn]
      refine Image.fileMap_eq_none fun i hi he => ?_
      by_contra h0
      obtain ⟨hnd, _⟩ := h.id_ne hi (he ▸ h0)
      rw [hid' i hi hnd] at he
      exact h0 (hall i hi he)
    · have hnd : i ≠ d := by
        rintro rfl
        exact hne rfl
      have hv : st'.view i = st.view i := by
        have hci := hcon i hi hnd h0
        unfold Image.view
        rw [hci, h.files_ne hi hnd, Image.shifted_flags, Image.shifted_curSize,
          Image.shifted_maxSize]
      rw [hc.fileMap_some hi h0, ← hv, ← hid' i hi hnd]
      exact hc'.fileMap_some hi (by rw [hid' i hi hnd]; exact h0)

end DeleteStep

/-! ## The whole deletion -/

/-- A deletion of file `d` removes this file and nothing else. -/
structure DeletionFrame (cfg : Config) (d : Nat) (c : Ctx) (fl : Flash) (c' : Ctx) (fl' : Flash) :
    Prop where
  removed : (mountedImage cfg c' fl').fileMap cfg ((mountedImage cfg c fl).files d).id = none
  kept : ∀ fid, fid ≠ ((mountedImage cfg c fl).files d).id →
    (mountedImage cfg c' fl').fileMap cfg fid = (mountedImage cfg c fl).fileMap cfg fid
  answers : ∀ fid, fid ≠ 0 → fid ≠ ((mountedImage cfg c fl).files d).id →
    infoAnswer cfg c' fl' fid = infoAnswer cfg c fl fid ∧
      ∀ size offset, readAnswer cfg c' fl' fid size offset = readAnswer cfg c fl fid size offset
  freeSize : ∀ l, l < numActiveDblocks cfg → ((mountedImage cfg c' fl').blocks l).freeSize =
    ((mountedImage cfg c fl).blocks l).freeSize +
      if l = ((mountedImage cfg c fl).files d).lblock then ((mountedImage cfg c fl).files d).maxSize
      else 0

/-- An empty file, then a file of four bytes, which starts where the empty one starts. -/
def emptyThenFull : List FsCall :=
  [.write ⟨1, flagCreate, 0, 0, 0, UInt8.ofNat⟩, .write ⟨2, flagCreate, 4, 4, 0, UInt8.ofNat⟩]

/-- Deleting a file succeeds, and it removes just the file exactly when the contents of the others
are not moved wrongly. -/
theorem fileDelete_frame_iff (h : Store cfg c fl) (hd : d < cfg.maxNumFiles)
    (hid : ((mountedImage cfg c fl).files d).id ≠ 0) :
    ((FsCall.delete ((mountedImage cfg c fl).files d).id).after cfg c fl).status = .ok () ∧
      (DeletionFrame cfg d c fl
        ((FsCall.delete ((mountedImage cfg c fl).files d).id).after cfg c fl).ctx
        ((FsCall.delete ((mountedImage cfg c fl).files d).id).after cfg c fl).flash ↔
      (mountedImage cfg c fl).DeleteKeeps cfg d) := by
  have hs := h.call_spec (f := .delete ((mountedImage cfg c fl).files d).id) hid
  generalize (FsCall.delete ((mountedImage cfg c fl).files d).id).after cfg c fl = out at hs
  obtain ⟨res, c', fl'⟩ := out
  obtain ⟨hst, heff, -, -⟩ := hs
  cases heff with
  | absent hfree _ => exact absurd rfl (hfree d hd)
  | delete hlt hide hstep hsame =>
    rename_i d' st₁
    obtain rfl := h.closed.unique d' d hlt hd (hide.trans_ne hid) hide
    have hmap : (mountedImage cfg c' fl').fileMap cfg = st₁.fileMap cfg :=
      hsame.fileMap (hstep.wf h.wf hd hid h.accepted)
    refine ⟨rfl, ?_⟩
    rw [← hstep.content_iff h.wf hd hid, ← hstep.fileMap_iff hd h.closed, ← hmap]
    refine ⟨fun hf => hf.kept, fun hk => ⟨?_, hk, fun fid h0 hne => ⟨?_, fun size offset => ?_⟩,
      fun l hl => ?_⟩⟩
    · rw [hmap]
      exact hstep.fileMap_self hd h.closed
    · rw [hst.infoAnswer_eq h0, h.infoAnswer_eq h0, hk fid hne]
    · rw [hst.readAnswer_eq h0, h.readAnswer_eq h0, hk fid hne]
    · rw [hsame.blocks l hl, hstep.freeSize_eq hl]
      split_ifs with he
      · rw [he]
      · rfl

/-- Deleting the file of four bytes leaves the empty one. -/
theorem deletionFrame_of_full :
    DeletionFrame twoBlocks 2 (filled twoBlocks emptyThenFull).1 (filled twoBlocks emptyThenFull).2
      ((FsCall.delete ((mountedImage twoBlocks (filled twoBlocks emptyThenFull).1
        (filled twoBlocks emptyThenFull).2).files 2).id).after twoBlocks
          (filled twoBlocks emptyThenFull).1 (filled twoBlocks emptyThenFull).2).ctx
      ((FsCall.delete ((mountedImage twoBlocks (filled twoBlocks emptyThenFull).1
        (filled twoBlocks emptyThenFull).2).files 2).id).after twoBlocks
          (filled twoBlocks emptyThenFull).1 (filled twoBlocks emptyThenFull).2).flash := by
  refine (fileDelete_frame_iff ((reaches_filled (by decide)).store twoBlocks_accepted) (by decide)
    (by decide +kernel)).2.mpr (.of_not_shares fun h => ?_)
  have hpos : ((mountedImage twoBlocks (filled twoBlocks emptyThenFull).1
      (filled twoBlocks emptyThenFull).2).files 2).maxSize = 4 := by decide +kernel
  exact absurd (hpos.symm.trans h.1) (by decide)

/-- Deleting the empty file erases the bytes of the other one. -/
theorem deletionFrame_fails : Reaches twoBlocks (filled twoBlocks emptyThenFull).1
      (filled twoBlocks emptyThenFull).2 ∧
    ((mountedImage twoBlocks (filled twoBlocks emptyThenFull).1
      (filled twoBlocks emptyThenFull).2).files 1).id = 1 ∧
    ¬ DeletionFrame twoBlocks 1 (filled twoBlocks emptyThenFull).1
      (filled twoBlocks emptyThenFull).2
      ((FsCall.delete 1).after twoBlocks (filled twoBlocks emptyThenFull).1
        (filled twoBlocks emptyThenFull).2).ctx
      ((FsCall.delete 1).after twoBlocks (filled twoBlocks emptyThenFull).1
        (filled twoBlocks emptyThenFull).2).flash := by
  have hid : ((mountedImage twoBlocks (filled twoBlocks emptyThenFull).1
      (filled twoBlocks emptyThenFull).2).files 1).id = 1 := by decide +kernel
  refine ⟨reaches_filled (by decide), hid, fun h => ?_⟩
  have hread := (h.answers 2 (by decide) (by rw [hid]; decide)).2 4 0
  have hne : readAnswer twoBlocks ((FsCall.delete 1).after twoBlocks
        (filled twoBlocks emptyThenFull).1 (filled twoBlocks emptyThenFull).2).ctx
      ((FsCall.delete 1).after twoBlocks (filled twoBlocks emptyThenFull).1
        (filled twoBlocks emptyThenFull).2).flash 2 4 0 = .ok [0xFF, 0xFF, 0xFF, 0xFF] ∧
      readAnswer twoBlocks (filled twoBlocks emptyThenFull).1 (filled twoBlocks emptyThenFull).2
        2 4 0 = .ok [0, 1, 2, 3] := by decide +kernel
  rw [hne.1, hne.2] at hread
  exact absurd hread (by decide)

end Etss
