import TfmExtras.Etss.TableStep

/-! Deleting a file, as a step on the filesystem: which files move, and that the invariant holds
after it. -/

namespace Etss
open NorFlash Finset

variable {cfg : Config} {st st' : Image} {a s d : Nat}

/-! ## The scan of the file table -/

/-- The scan over `n` entries from `idx` on. -/
def scanDelete (del : FileMeta) (files : Nat → FileMeta) (delFileIdx : Nat) :
    Nat → Nat → DeleteScan → DeleteScan
  | 0, _, scan => scan
  | n + 1, idx, scan =>
    if idx = delFileIdx then scanDelete del files delFileIdx n (idx + 1) scan
    else scanDelete del files delFileIdx n (idx + 1)
      (deleteIdxEntry del.lblock del.dataIdx del.maxSize scan (files idx)).1

/-- The scan when file `d` is deleted. -/
def Image.deleteScan (cfg : Config) (st : Image) (d : Nat) : DeleteScan :=
  scanDelete (st.files d) st.files d cfg.maxNumFiles 0 ⟨cfg.blockSize, 0⟩

/-- The entry of a remaining file after file `d` is deleted. -/
def Image.shifted (st : Image) (d : Nat) (fileMeta : FileMeta) : FileMeta :=
  (deleteIdxEntry (st.files d).lblock (st.files d).dataIdx (st.files d).maxSize ⟨0, 0⟩ fileMeta).2

theorem deleteIdxEntry_snd (lblock dataIdx maxSize : Nat) (scan scan' : DeleteScan)
    (fileMeta : FileMeta) : (deleteIdxEntry lblock dataIdx maxSize scan fileMeta).2 =
      (deleteIdxEntry lblock dataIdx maxSize scan' fileMeta).2 := by
  unfold deleteIdxEntry
  split_ifs <;> rfl

/-- The files that lie behind file `d` in its logical block. -/
def Image.behind (cfg : Config) (st : Image) (d : Nat) : Finset Nat :=
  (st.filesIn cfg (st.files d).lblock).filter fun i => (st.files d).dataIdx < (st.files i).dataIdx

theorem validateFid_isOk {fid : Fid} : (utilsValidateFid fid).isOk = true ↔ fid ≠ 0 := by
  unfold utilsValidateFid
  split_ifs with h
  · exact ⟨fun _ => h, fun _ => rfl⟩
  · exact ⟨fun hf => absurd hf Bool.false_ne_true, fun hn => absurd hn h⟩

theorem Image.mem_behind {i : Nat} : i ∈ st.behind cfg d ↔ i < cfg.maxNumFiles ∧
    (st.files i).lblock = (st.files d).lblock ∧ (utilsValidateFid (st.files i).id).isOk = true ∧
      (st.files i).dataIdx > (st.files d).dataIdx := by
  unfold behind
  rw [mem_filter, mem_filesIn, validateFid_isOk]
  tauto

/-- The scan has seen the files of `seen`: it holds their least position and their total size. -/
structure ScanOf (cfg : Config) (st : Image) (seen : Finset Nat) (scan : DeleteScan) : Prop where
  le : ∀ i ∈ seen, scan.srcOffset ≤ (st.files i).dataIdx
  le_blockSize : scan.srcOffset ≤ cfg.blockSize
  attained : scan.srcOffset = cfg.blockSize ∨ ∃ i ∈ seen, (st.files i).dataIdx = scan.srcOffset
  total : scan.nbrBytesToMove = (∑ i ∈ seen, (st.files i).maxSize) % 2 ^ 32

theorem scanDelete_spec (n idx : Nat) (scan : DeleteScan) (hn : idx + n = cfg.maxNumFiles)
    (h : ScanOf cfg st ((st.behind cfg d).filter (· < idx)) scan) :
    ScanOf cfg st (st.behind cfg d) (scanDelete (st.files d) st.files d n idx scan) := by
  induction n generalizing idx scan with
  | zero =>
    have hall : (st.behind cfg d).filter (· < idx) = st.behind cfg d := by
      refine filter_true_of_mem fun i hi => ?_
      have := (Image.mem_behind.mp hi).1
      omega
    exact hall ▸ h
  | succ n ih =>
    -- the entries below the next index, with and without the current one
    have hskip : idx ∉ st.behind cfg d → (st.behind cfg d).filter (· < idx + 1) =
        (st.behind cfg d).filter (· < idx) := by
      intro hni
      refine filter_congr fun i hi => ⟨fun hlt => ?_, fun hlt => by omega⟩
      have : i ≠ idx := fun he => hni (he ▸ hi)
      omega
    unfold scanDelete
    split_ifs with hd
    · refine ih (idx + 1) scan (by omega) ?_
      have hni : idx ∉ st.behind cfg d := fun hi => by
        have := (Image.mem_behind.mp hi).2.2.2
        rw [hd] at this
        omega
      exact (hskip hni).symm ▸ h
    · refine ih (idx + 1) _ (by omega) ?_
      unfold deleteIdxEntry
      split_ifs with hc
      · have hmem : idx ∈ st.behind cfg d := Image.mem_behind.mpr ⟨by omega, hc⟩
        have hins : (st.behind cfg d).filter (· < idx + 1) =
            insert idx ((st.behind cfg d).filter (· < idx)) := by
          ext i
          rw [mem_insert, mem_filter, mem_filter]
          constructor
          · rintro ⟨hi, hlt⟩
            by_cases he : i = idx
            · exact .inl he
            · exact .inr ⟨hi, by omega⟩
          · rintro (rfl | ⟨hi, hlt⟩)
            · exact ⟨hmem, Nat.lt_succ_self _⟩
            · exact ⟨hi, by omega⟩
        have hnot : idx ∉ (st.behind cfg d).filter (· < idx) := fun hi =>
          absurd (mem_filter.mp hi).2 (lt_irrefl _)
        rw [hins]
        refine ⟨fun i hi => ?_, (min_le_left _ _).trans h.le_blockSize, ?_, ?_⟩
        · rcases mem_insert.mp hi with rfl | hi
          · exact min_le_right _ _
          · exact (min_le_left _ _).trans (h.le i hi)
        · rcases min_choice scan.srcOffset (st.files idx).dataIdx with hm | hm
          · rcases h.attained with he | ⟨i, hi, he⟩
            · exact .inl (hm.trans he)
            · exact .inr ⟨i, mem_insert_of_mem hi, he.trans hm.symm⟩
          · exact .inr ⟨idx, mem_insert_self _ _, hm.symm⟩
        · show (scan.nbrBytesToMove + (st.files idx).maxSize) % 2 ^ 32 = _
          rw [sum_insert hnot, h.total, Nat.mod_add_mod, Nat.add_comm]
      · have hni : idx ∉ st.behind cfg d := fun hi => hc (Image.mem_behind.mp hi).2
        exact (hskip hni).symm ▸ h

theorem deleteScan_spec : ScanOf cfg st (st.behind cfg d) (st.deleteScan cfg d) := by
  refine scanDelete_spec _ 0 _ (Nat.zero_add _) ⟨fun i hi => ?_, le_rfl, .inl rfl, ?_⟩
  · exact absurd (mem_filter.mp hi).2 (Nat.not_lt_zero i)
  · have he : (st.behind cfg d).filter (· < 0) = ∅ :=
      filter_false_of_mem fun i _ => Nat.not_lt_zero i
    rw [he, sum_empty]
    rfl

/-! ## Where the moved bytes lie -/

/-- File `d` is empty and starts where a nonempty file of its block starts. -/
def Image.SharesIndex (cfg : Config) (st : Image) (d : Nat) : Prop :=
  (st.files d).maxSize = 0 ∧ ∃ i < cfg.maxNumFiles, i ≠ d ∧ (st.files i).id ≠ 0 ∧
    (st.files i).lblock = (st.files d).lblock ∧ (st.files i).dataIdx = (st.files d).dataIdx ∧
    0 < (st.files i).maxSize

namespace Image.Wf
variable (h : st.Wf cfg a) (hd : d < cfg.maxNumFiles) (hid : (st.files d).id ≠ 0)
include h hd hid

theorem mem_self : d ∈ st.filesIn cfg (st.files d).lblock := h.mem_own hd hid

/-- Another file of the block lies before file `d`, or behind it. -/
theorem side {i : Nat} (hi : i ∈ st.filesIn cfg (st.files d).lblock) (hne : i ≠ d) :
    (st.files i).dataIdx + (st.files i).maxSize ≤ (st.files d).dataIdx ∨
      (st.files d).dataIdx + (st.files d).maxSize ≤ (st.files i).dataIdx :=
  (h.tiling _ (h.sizes d hd hid).1).apart i hi d (h.mem_self hd hid) hne

/-- The bytes to move are those from the first file behind on to the end of the data. -/
theorem scan_cases : (st.behind cfg d = ∅ ∧ (st.deleteScan cfg d).nbrBytesToMove = 0) ∨
    ((st.files d).dataIdx + (st.files d).maxSize ≤ (st.deleteScan cfg d).srcOffset ∧
      (st.deleteScan cfg d).srcOffset + (st.deleteScan cfg d).nbrBytesToMove =
        st.dataEnd cfg (st.files d).lblock ∧
      ∀ i ∈ st.behind cfg d, (st.deleteScan cfg d).srcOffset ≤ (st.files i).dataIdx) := by
  have hs : ScanOf cfg st (st.behind cfg d) (st.deleteScan cfg d) := deleteScan_spec
  have ht := h.tiling _ (h.sizes d hd hid).1
  have hbs := cfg.blockSize_lt
  set c := (st.deleteScan cfg d).srcOffset with hc
  rcases (st.behind cfg d).eq_empty_or_nonempty with he | ⟨j, hj⟩
  · left
    rw [hs.total, he, sum_empty]
    exact ⟨rfl, rfl⟩
  right
  -- the least position is that of a file behind
  obtain ⟨i, hi, hic⟩ : ∃ i ∈ st.behind cfg d, (st.files i).dataIdx = c := by
    rcases hs.attained with hb | hatt
    · have hle := hs.le j hj
      have hin := (ht.inside j (mem_filter.mp hj).1)
      exact ⟨j, hj, by simp only [Image.dataEnd] at hin; omega⟩
    · exact hatt
  have hgt : (st.files d).dataIdx < c := hic ▸ (mem_filter.mp hi).2
  have hbehind : st.behind cfg d =
      (st.filesIn cfg (st.files d).lblock).filter fun k => c ≤ (st.files k).dataIdx := by
    refine filter_congr fun k hk => ⟨fun hlt => ?_, fun hle => by omega⟩
    exact hs.le k (mem_filter.mpr ⟨hk, hlt⟩)
  have hiin := (mem_filter.mp hi).1
  have hsplit : ∀ k ∈ st.filesIn cfg (st.files d).lblock,
      (st.files k).dataIdx + (st.files k).maxSize ≤ c ∨ c ≤ (st.files k).dataIdx := by
    intro k hk
    by_cases hlt : (st.files d).dataIdx < (st.files k).dataIdx
    · exact .inr (hs.le k (mem_filter.mpr ⟨hk, hlt⟩))
    · have hki : k ≠ i := by
        rintro rfl
        exact hlt (mem_filter.mp hi).2
      have := ht.apart k hk i hiin hki
      omega
  have hin := ht.inside i hiin
  have hsum := (ht.suffix (c := c) (by omega) (by omega) hsplit).sum_len
  rw [← hbehind] at hsum
  have hside := h.side hd hid hiin (by rintro rfl; omega)
  have hend : st.dataEnd cfg (st.files d).lblock ≤ cfg.blockSize := Nat.sub_le _ _
  have htotal := hs.total
  rw [hsum, Nat.mod_eq_of_lt (by omega)] at htotal
  exact ⟨by omega, by omega, hs.le⟩

/-- The bytes to move start right behind file `d`, unless it is empty and shares its start. -/
theorem scan_src (hsh : ¬ st.SharesIndex cfg d) (hn : (st.deleteScan cfg d).nbrBytesToMove ≠ 0) :
    (st.deleteScan cfg d).srcOffset = (st.files d).dataIdx + (st.files d).maxSize := by
  have ht := h.tiling _ (h.sizes d hd hid).1
  rcases h.scan_cases hd hid with ⟨_, h0⟩ | ⟨hle, hend, hbehind⟩
  · exact absurd h0 hn
  by_contra hne
  -- otherwise a file covers the byte behind file `d`
  have hlo := (ht.inside d (h.mem_self hd hid)).1
  obtain ⟨i, hi, hpi, hip⟩ := ht.cover ((st.files d).dataIdx + (st.files d).maxSize) (by omega)
    (by omega)
  have hid' : i ≠ d := by
    rintro rfl
    omega
  have hnot : ¬ (st.files d).dataIdx < (st.files i).dataIdx := fun hlt => by
    have := hbehind i (mem_filter.mpr ⟨hi, hlt⟩)
    omega
  have hside := h.side hd hid hi hid'
  obtain ⟨him, hiv, hil⟩ := Image.mem_filesIn.mp hi
  exact hsh ⟨by omega, i, him, hid', hiv, hil, by omega, by omega⟩

end Image.Wf

/-! ## The step -/

/-- `st'` is `st` without file `d`: the files behind it have moved up, every other byte that a
file uses is the same. -/
structure DeleteStep (cfg : Config) (s : Nat) (st : Image) (d : Nat) (st' : Image) : Prop extends
    BlockStep cfg s st (st.files d).lblock
      ((st.blocks (st.files d).lblock).freeSize + (st.files d).maxSize) true st' where
  files : ∀ i, i < cfg.maxNumFiles →
    st'.files i = if i = d then FileMeta.zero else st.shifted d (st.files i)
  kept : ∀ o, (st.blocks (st.files d).lblock).dataStart ≤ o → o < (st.files d).dataIdx →
    st'.data (st.files d).lblock o = st.data (st.files d).lblock o
  moved : ∀ k < (st.deleteScan cfg d).nbrBytesToMove,
    st'.data (st.files d).lblock ((st.files d).dataIdx + k) =
      st.data (st.files d).lblock ((st.deleteScan cfg d).srcOffset + k)
  rest : ∀ o, (st.files d).dataIdx + (st.deleteScan cfg d).nbrBytesToMove ≤ o → o < cfg.blockSize →
    st'.data (st.files d).lblock o = cfg.eraseVal
  others : ∀ l, l < numActiveDblocks cfg → l ≠ (st.files d).lblock →
    ∀ o, (st.blocks l).dataStart ≤ o → o < st.dataEnd cfg l → st'.data l o = st.data l o

theorem Image.shifted_eq (fileMeta : FileMeta) : st.shifted d fileMeta =
    if fileMeta.lblock = (st.files d).lblock ∧ fileMeta.id ≠ 0 ∧
        fileMeta.dataIdx > (st.files d).dataIdx then
      { fileMeta with dataIdx := sub32 fileMeta.dataIdx (st.files d).maxSize }
    else fileMeta := by
  unfold shifted deleteIdxEntry
  simp only [validateFid_isOk]
  split_ifs <;> rfl

theorem Image.shifted_zero : st.shifted d FileMeta.zero = FileMeta.zero := by
  rw [shifted_eq]
  exact if_neg fun h => h.2.1 rfl

section
variable (fileMeta : FileMeta)

@[simp] theorem Image.shifted_id : (st.shifted d fileMeta).id = fileMeta.id := by
  rw [shifted_eq]
  split_ifs <;> rfl

@[simp] theorem Image.shifted_lblock : (st.shifted d fileMeta).lblock = fileMeta.lblock := by
  rw [shifted_eq]
  split_ifs <;> rfl

@[simp] theorem Image.shifted_curSize : (st.shifted d fileMeta).curSize = fileMeta.curSize := by
  rw [shifted_eq]
  split_ifs <;> rfl

@[simp] theorem Image.shifted_maxSize : (st.shifted d fileMeta).maxSize = fileMeta.maxSize := by
  rw [shifted_eq]
  split_ifs <;> rfl

@[simp] theorem Image.shifted_flags : (st.shifted d fileMeta).flags = fileMeta.flags := by
  rw [shifted_eq]
  split_ifs <;> rfl

end

namespace DeleteStep
variable (h : DeleteStep cfg s st d st') (hw : st.Wf cfg a) (hd : d < cfg.maxNumFiles)
  (hid : (st.files d).id ≠ 0)
include h

theorem files_self (hd : d < cfg.maxNumFiles) : st'.files d = FileMeta.zero := by
  rw [h.files d hd, if_pos rfl]

theorem files_ne {i : Nat} (hi : i < cfg.maxNumFiles) (hne : i ≠ d) :
    st'.files i = st.shifted d (st.files i) := by
  rw [h.files i hi, if_neg hne]

theorem id_ne {i : Nat} (hi : i < cfg.maxNumFiles) (hv : (st'.files i).id ≠ 0) :
    i ≠ d ∧ (st.files i).id ≠ 0 := by
  have hne : i ≠ d := by
    rintro rfl
    rw [h.files_self hi] at hv
    exact hv rfl
  rw [h.files_ne hi hne, Image.shifted_id] at hv
  exact ⟨hne, hv⟩

theorem filesIn (l : Nat) : st'.filesIn cfg l = (st.filesIn cfg l).erase d := by
  ext i
  rw [mem_erase, Image.mem_filesIn, Image.mem_filesIn]
  constructor
  · rintro ⟨hi, hv, hl⟩
    obtain ⟨hne, hv'⟩ := h.id_ne hi hv
    rw [h.files_ne hi hne, Image.shifted_lblock] at hl
    exact ⟨hne, hi, hv', hl⟩
  · rintro ⟨hne, hi, hv, hl⟩
    rw [h.files_ne hi hne, Image.shifted_id, Image.shifted_lblock]
    exact ⟨hi, hv, hl⟩

include hw hd hid

/-- Where a remaining file of the block lies after the step. -/
theorem dataIdx {i : Nat} (hi : i ∈ st.filesIn cfg (st.files d).lblock) (hne : i ≠ d) :
    (st'.files i).dataIdx = if (st.files d).dataIdx < (st.files i).dataIdx then
      (st.files i).dataIdx - (st.files d).maxSize else (st.files i).dataIdx := by
  obtain ⟨him, hiv, hil⟩ := Image.mem_filesIn.mp hi
  have hside := hw.side hd hid hi hne
  have hbs := cfg.blockSize_lt
  have hin := (hw.inside him hiv).2
  unfold Image.dataEnd at hin
  rw [h.files_ne him hne, Image.shifted_eq]
  by_cases hlt : (st.files d).dataIdx < (st.files i).dataIdx
  · rw [if_pos ⟨hil, hiv, hlt⟩, if_pos hlt]
    exact sub32_eq (by omega) (by omega)
  · rw [if_neg fun hc => hlt hc.2.2, if_neg hlt]

omit hw hid in
/-- A file of another block stays as it is. -/
theorem files_other {i : Nat} (hi : i < cfg.maxNumFiles)
    (hl : (st.files i).lblock ≠ (st.files d).lblock) : st'.files i = st.files i := by
  have hne : i ≠ d := by
    rintro rfl
    exact hl rfl
  rw [h.files_ne hi hne, Image.shifted_eq, if_neg fun hc => hl hc.1]

theorem tiling {l : Nat} (hl : l < numActiveDblocks cfg) : Tiling (st'.filesIn cfg l)
    (fun i => (st'.files i).dataIdx) (fun i => (st'.files i).maxSize) (st.blocks l).dataStart
    (if l = (st.files d).lblock then
      cfg.blockSize - ((st.blocks (st.files d).lblock).freeSize + (st.files d).maxSize)
    else st.dataEnd cfg l) := by
  have ht := hw.tiling l hl
  rw [h.filesIn]
  by_cases he : l = (st.files d).lblock
  · subst he
    have hr : Tiling _ (fun i => (st'.files i).dataIdx) _ _ _ :=
      ht.remove (hw.mem_self hd hid) fun i hi hne => h.dataIdx hw hd hid hi hne
    unfold Image.dataEnd at hr
    rw [if_pos rfl, ← Nat.sub_sub]
    refine hr.congr (fun _ _ => rfl) fun i hi => ?_
    obtain ⟨hne, hi⟩ := mem_erase.mp hi
    rw [h.files_ne (Image.mem_filesIn.mp hi).1 hne, Image.shifted_maxSize]
  · have hnot : d ∉ st.filesIn cfg l := fun hm => he (Image.mem_filesIn.mp hm).2.2.symm
    rw [if_neg he, erase_eq_of_notMem hnot]
    have hsame : ∀ i ∈ st.filesIn cfg l, st'.files i = st.files i := fun i hi => by
      obtain ⟨him, _, hil⟩ := Image.mem_filesIn.mp hi
      exact h.files_other hd him (hil ▸ he)
    exact ht.congr (fun i hi => by rw [hsame i hi]) fun i hi => by rw [hsame i hi]

theorem wf (hacc : cfg.Accepted) : st'.Wf cfg s := by
  have hl := (hw.sizes d hd hid).1
  have hin := hw.inside hd hid
  have hfs := hw.freeSize_le _ hl
  unfold Image.dataEnd at hin
  refine h.toBlockStep.wf hw hacc hl (by omega) (fun i hi hz => ?_) (fun i hi hv => ?_)
    (fun l hl => h.tiling hw hd hid hl) fun ha => ⟨?_, fun i hi hv => ?_⟩
  · by_cases hne : i = d
    · subst hne
      exact h.files_self hi
    · rw [h.files_ne hi hne, Image.shifted_id] at hz
      rw [h.files_ne hi hne, hw.free i hi hz, Image.shifted_zero]
  · obtain ⟨hne, hv'⟩ := h.id_ne hi hv
    rw [h.files_ne hi hne, Image.shifted_lblock, Image.shifted_curSize, Image.shifted_maxSize]
    exact hw.sizes i hi hv'
  · exact Nat.dvd_add ((hw.aligned ha).1 _ hl) ((hw.aligned ha).2 d hd hid).2
  · obtain ⟨hne, hv'⟩ := h.id_ne hi hv
    have hdi := (hw.aligned ha).2 i hi hv'
    refine ⟨?_, by rw [h.files_ne hi hne, Image.shifted_maxSize]; exact hdi.2⟩
    by_cases hl' : (st.files i).lblock = (st.files d).lblock
    · rw [h.dataIdx hw hd hid (Image.mem_filesIn.mpr ⟨hi, hv', hl'⟩) hne]
      split_ifs
      · exact Nat.dvd_sub hdi.1 ((hw.aligned ha).2 d hd hid).2
      · exact hdi.1
    · rw [h.files_other hd hi hl']
      exact hdi.1

/-! ## What remains -/

/-- A remaining file keeps its contents, unless the deleted one was empty and shared its start
with a nonempty one. -/
theorem content (hsh : ¬ st.SharesIndex cfg d) {i : Nat} (hi : i < cfg.maxNumFiles) (hne : i ≠ d)
    (hv : (st.files i).id ≠ 0) : st'.content i = st.content i := by
  obtain ⟨hil, hcur, _⟩ := hw.sizes i hi hv
  have hin := hw.inside hi hv
  have hcur' : (st'.files i).curSize = (st.files i).curSize := by
    rw [h.files_ne hi hne, Image.shifted_curSize]
  have hlb' : (st'.files i).lblock = (st.files i).lblock := by
    rw [h.files_ne hi hne, Image.shifted_lblock]
  unfold Image.content
  rw [hcur', hlb']
  refine List.map_congr_left fun k hk => ?_
  rw [List.mem_range] at hk
  by_cases hl : (st.files i).lblock = (st.files d).lblock
  · have hmem : i ∈ st.filesIn cfg (st.files d).lblock := Image.mem_filesIn.mpr ⟨hi, hv, hl⟩
    have hside := hw.side hd hid hmem hne
    rw [h.dataIdx hw hd hid hmem hne]
    rw [hl] at hin ⊢
    split_ifs with hlt
    · -- the file has moved up
      have hb : i ∈ st.behind cfg d := mem_filter.mpr ⟨hmem, hlt⟩
      rcases hw.scan_cases hd hid with ⟨he, _⟩ | ⟨_, hend, hle⟩
      · exact absurd hb (he ▸ notMem_empty i)
      have hsrc := hle i hb
      have hsrc' := hw.scan_src hd hid hsh (by omega)
      have hm := h.moved ((st.files i).dataIdx - (st.files d).maxSize + k - (st.files d).dataIdx)
        (by omega)
      rw [show (st.files d).dataIdx + ((st.files i).dataIdx - (st.files d).maxSize + k -
        (st.files d).dataIdx) = (st.files i).dataIdx - (st.files d).maxSize + k by omega] at hm
      rw [hm]
      congr 1
      omega
    · -- the file lies before the deleted one
      have hbefore : (st.files i).dataIdx + (st.files i).maxSize ≤ (st.files d).dataIdx := by
        by_contra hnot
        exact hsh ⟨by omega, i, hi, hne, hv, hl, by omega, by omega⟩
      exact h.kept _ (by omega) (by omega)
  · rw [h.files_other hd hi hl]
    exact h.others _ hil hl _ (by omega) (by omega)

omit hid in
theorem view (hsh : ¬ st.SharesIndex cfg d) (hid : (st.files d).id ≠ 0) {i : Nat}
    (hi : i < cfg.maxNumFiles) (hne : i ≠ d) (hv : (st.files i).id ≠ 0) :
    st'.view i = st.view i := by
  have hc := h.content hw hd hid hsh hi hne hv
  unfold Image.view
  rw [hc, h.files_ne hi hne, Image.shifted_flags, Image.shifted_curSize, Image.shifted_maxSize]

omit hw hd hid in
theorem unique (hu : ∀ i j, i < cfg.maxNumFiles → j < cfg.maxNumFiles → i ≠ d → j ≠ d →
      (st.files i).id ≠ 0 → (st.files i).id = (st.files j).id → i = j)
    (i j : Nat) (hi : i < cfg.maxNumFiles) (hj : j < cfg.maxNumFiles)
    (hv : (st'.files i).id ≠ 0) (he : (st'.files i).id = (st'.files j).id) : i = j := by
  obtain ⟨hid, hiv⟩ := h.id_ne hi hv
  obtain ⟨hjd, _⟩ := h.id_ne hj (he ▸ hv)
  rw [h.files_ne hi hid, h.files_ne hj hjd, Image.shifted_id, Image.shifted_id] at he
  exact hu i j hi hj hid hjd hiv he

omit hw hid in
/-- A deletion makes the filesystem closed, whether it was or file `d` was marked. -/
theorem closed (hu : ∀ i j, i < cfg.maxNumFiles → j < cfg.maxNumFiles → i ≠ d → j ≠ d →
      (st.files i).id ≠ 0 → (st.files i).id = (st.files j).id → i = j)
    (hm : ∀ i, i < cfg.maxNumFiles → i ≠ d → ¬ st.Marked i) : st'.Closed cfg where
  unique := h.unique hu
  unmarked i hi := by
    unfold Image.Marked
    by_cases hne : i = d
    · subst hne
      rw [h.files_self hi]
      exact fun hf => hf rfl
    · rw [h.files_ne hi hne, Image.shifted_flags]
      exact hm i hi hne
  spare _ := ⟨d, hd, by rw [h.files_self hd]; rfl⟩

omit hw hid in
theorem closed_of_closed (hc : st.Closed cfg) : st'.Closed cfg :=
  h.closed hd (fun i j hi hj _ _ => hc.unique i j hi hj) fun i hi _ => hc.unmarked i hi

omit hd hw hid in
theorem closed_of_pending (hp : st.Pending cfg d) : st'.Closed cfg :=
  h.closed hp.lt hp.unique fun i hi hne hm => hne ((hp.marked i hi).mp hm)

end DeleteStep

theorem scanDelete_congr {del : FileMeta} {files files' : Nat → FileMeta} (n idx : Nat)
    (scan : DeleteScan) (hf : ∀ i, idx ≤ i → i < idx + n → files' i = files i) :
    scanDelete del files' d n idx scan = scanDelete del files d n idx scan := by
  induction n generalizing idx scan with
  | zero => rfl
  | succ n ih =>
    have hnext : ∀ scan, scanDelete del files' d n (idx + 1) scan =
        scanDelete del files d n (idx + 1) scan :=
      fun scan => ih (idx + 1) scan fun i h₁ h₂ => hf i (by omega) (by omega)
    unfold scanDelete
    rw [hf idx le_rfl (by omega), hnext, hnext]

/-- The same deletion on equal filesystems leads to equal ones. -/
theorem DeleteStep.same {st₁ st₁' : Image} (h : DeleteStep cfg s st d st')
    (h₁ : DeleteStep cfg s st₁ d st₁') (hs : st.Same cfg st₁) (hw : st.Wf cfg a)
    (hd : d < cfg.maxNumFiles) (hid : (st.files d).id ≠ 0) : st'.Same cfg st₁' := by
  obtain ⟨hl, _, _⟩ := hw.sizes d hd hid
  have hin := hw.inside hd hid
  have hfd := hs.files d hd
  have hscan : st₁.deleteScan cfg d = st.deleteScan cfg d := by
    unfold Image.deleteScan
    rw [hfd]
    exact scanDelete_congr _ _ _ fun i _ hi => hs.files i (by omega)
  have hb₁ := h₁.toBlockStep
  rw [hfd, hs.blocks _ hl] at hb₁
  obtain ⟨hver, hscr, hblk⟩ := h.toBlockStep.same hb₁ hs hl
  refine ⟨hver, hscr, hblk, fun i hi => ?_, fun l hl' o ho₁ ho₂ => ?_⟩
  · rw [h₁.files i hi, h.files i hi, Image.shifted_eq, Image.shifted_eq, hfd, hs.files i hi]
  · rw [h.dataStart hl'] at ho₁
    unfold Image.dataEnd at ho₂
    rw [h.freeSize_eq hl'] at ho₂
    have hkept := h₁.kept
    have hmoved := h₁.moved
    have hrest := h₁.rest
    have hothers := h₁.others
    unfold Image.dataEnd at hin hothers
    rw [hfd] at hkept hmoved hrest hothers
    rw [hs.blocks _ hl] at hkept
    rw [hscan] at hmoved hrest
    by_cases he : l = (st.files d).lblock
    · subst he
      rw [if_pos rfl] at ho₂
      by_cases hk : o < (st.files d).dataIdx
      · rw [hkept o ho₁ hk, h.kept o ho₁ hk]
        exact hs.data _ hl o ho₁ (by unfold Image.dataEnd; omega)
      by_cases hm : o < (st.files d).dataIdx + (st.deleteScan cfg d).nbrBytesToMove
      · rcases hw.scan_cases hd hid with ⟨_, h0⟩ | ⟨hle, hend, _⟩
        · omega
        have h₂ := hmoved (o - (st.files d).dataIdx) (by omega)
        have h₃ := h.moved (o - (st.files d).dataIdx) (by omega)
        rw [show (st.files d).dataIdx + (o - (st.files d).dataIdx) = o by omega] at h₂ h₃
        rw [h₂, h₃]
        exact hs.data _ hl _ (by omega) (by omega)
      · rw [hrest o (by omega) (by omega), h.rest o (by omega) (by omega)]
    · rw [if_neg he] at ho₂
      have h₂ := hothers l hl' he o
      rw [hs.blocks l hl'] at h₂
      rw [h₂ ho₁ ho₂, h.others l hl' he o ho₁ ho₂]
      exact hs.data l hl' o ho₁ ho₂

end Etss
