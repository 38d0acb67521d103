import TfmExtras.Etss.EraseFirst
import TfmExtras.Etss.FileMap

/-! Room for a new file: when a write finds none, where the file goes when there is room, and that
no space and no entry is lost. -/

namespace Etss
open NorFlash FlashM Finset

variable {cfg : Config} {st st₁ st₂ st₃ st' : Image} {a s d need size : Nat} {fid : Fid}
  {r : WriteReq} {t : WriteTarget} {p : WritePlan} {res : Except Status Unit} {c c' : Ctx}
  {fl fl' : Flash}

/-! ## Searching for room -/

namespace Image
variable (cfg : Config) (st : Image)

/-- The number of free entries of the file table. -/
def freeEntries : Nat := #{i ∈ range cfg.maxNumFiles | (st.files i).id = 0}

/-- The lowest-numbered logical block with `size` free bytes. -/
structure FirstFit (size l : Nat) : Prop where
  lt : l < numActiveDblocks cfg
  room : size ≤ (st.blocks l).freeSize
  least : ∀ k < l, (st.blocks k).freeSize < size

/-- No logical block has `size` free bytes, or fewer than `need` entries are free. -/
def NoRoom (size need : Nat) : Prop :=
  (∀ l < numActiveDblocks cfg, (st.blocks l).freeSize < size) ∨ st.freeEntries cfg < need

end Image

/-- The free entries that a write from the target needs. -/
def WriteTarget.needs (t : WriteTarget) : Nat := if t.oldIdx ≠ metadataInvalidIndex then 1 else 2

theorem Image.mem_freeEntries {i : Nat} : i ∈ ({i ∈ range cfg.maxNumFiles | (st.files i).id = 0} :
    Finset Nat) ↔ i < cfg.maxNumFiles ∧ (st.files i).id = 0 := by
  rw [mem_filter, mem_range]

theorem Image.one_le_freeEntries : 1 ≤ st.freeEntries cfg ↔
    ∃ i < cfg.maxNumFiles, (st.files i).id = 0 := by
  unfold freeEntries
  rw [Nat.one_le_iff_ne_zero, card_ne_zero]
  exact exists_congr fun i => mem_freeEntries

theorem Image.two_le_freeEntries : 2 ≤ st.freeEntries cfg ↔
    ∃ j k, j < k ∧ k < cfg.maxNumFiles ∧ (st.files j).id = 0 ∧ (st.files k).id = 0 := by
  unfold freeEntries
  rw [Nat.succ_le_iff, one_lt_card]
  constructor
  · rintro ⟨j, hj, k, hk, hne⟩
    obtain ⟨hj, hj0⟩ := mem_freeEntries.mp hj
    obtain ⟨hk, hk0⟩ := mem_freeEntries.mp hk
    rcases Nat.lt_or_gt_of_ne hne with hlt | hlt
    · exact ⟨j, k, hlt, hk, hj0, hk0⟩
    · exact ⟨k, j, hlt, hj, hk0, hj0⟩
  · rintro ⟨j, k, hlt, hk, hj0, hk0⟩
    exact ⟨j, mem_freeEntries.mpr ⟨hlt.trans hk, hj0⟩, k, mem_freeEntries.mpr ⟨hk, hk0⟩, hlt.ne⟩

namespace Image.Wf
variable (h : st.Wf cfg a) (hacc : cfg.Accepted)
include h hacc

theorem freeIndex_keep_ne {n i : Nat} (hi : i + n ≤ cfg.maxNumFiles)
    (hfree : ∃ j k, i ≤ j ∧ j < k ∧ k < i + n ∧ (st.files j).id = 0 ∧ (st.files k).id = 0) :
    freeIndex cfg st.files n i false ≠ metadataInvalidIndex := by
  obtain ⟨j, k, h₁, h₂, h₃, hj, hk⟩ := hfree
  induction n generalizing i with
  | zero => omega
  | succ n ih =>
    unfold freeIndex
    rw [h.checkFile_eq hacc (by omega)]
    unfold utilsValidateFid
    by_cases hid : (st.files i).id ≠ 0
    · simp only [if_pos hid]
      have : j ≠ i := fun hji => hid (hji ▸ hj)
      exact ih (by omega) (by omega) (by omega)
    · simp only [if_neg hid, Bool.false_eq_true, if_false]
      exact h.freeIndex_spare_ne hacc (by omega) ⟨k, by omega, by omega, hk⟩

/-- An entry is found when enough are free: two, or one when the spare may be used. -/
theorem freeIndex_eq_invalid_iff (useSpare : Bool) :
    freeIndex cfg st.files cfg.maxNumFiles 0 useSpare = metadataInvalidIndex ↔
      st.freeEntries cfg < if useSpare then 1 else 2 := by
  have hmax := cfg.maxNumFiles_lt
  have hle : 0 + cfg.maxNumFiles ≤ cfg.maxNumFiles := (Nat.zero_add _).le
  rw [← not_iff_not, not_lt]
  cases useSpare with
  | true =>
    rw [if_pos rfl, one_le_freeEntries]
    constructor
    · intro hne
      rcases h.freeIndex_spare hacc hle with he | ⟨k, _, hk, hk0, _⟩
      · exact absurd he hne
      · exact ⟨k, by omega, hk0⟩
    · rintro ⟨k, hk, hk0⟩
      exact h.freeIndex_spare_ne hacc hle ⟨k, Nat.zero_le _, by omega, hk0⟩
  | false =>
    rw [if_neg Bool.false_ne_true, two_le_freeEntries]
    constructor
    · intro hne
      rcases h.freeIndex_keep hacc hle with he | ⟨j, k, _, hjk, hk, hj0, hk0, _⟩
      · exact absurd he hne
      · exact ⟨j, k, hjk, by omega, hj0, hk0⟩
    · rintro ⟨j, k, hjk, hk, hj0, hk0⟩
      exact h.freeIndex_keep_ne hacc hle ⟨j, k, Nat.zero_le _, hjk, by omega, hj0, hk0⟩

/-- A new file finds room, in the lowest-numbered block that has it, or there is none. -/
theorem writeReserve_admits (ha : a ≤ 1) (hn : t.newIdx = metadataInvalidIndex)
    (hmax : r.max cfg ≤ cfg.maxFileSize) :
    (st.NoRoom cfg (r.max cfg) t.needs ∧
      st.writeReserve cfg r t = .error .insufficientStorage) ∨
    (¬ st.NoRoom cfg (r.max cfg) t.needs ∧
      ∃ idx l blockMeta, st.FirstFit cfg (r.max cfg) l ∧ st.writeReserve cfg r t =
        .ok (idx, ⟨l, st.dataEnd cfg l, 0, r.max cfg, r.flags, r.fid⟩, blockMeta)) := by
  have hidx := h.freeIndex_eq_invalid_iff hacc (decide (t.oldIdx ≠ metadataInvalidIndex))
  rw [ite_congr (decide_eq_true_eq) (fun _ => rfl) fun _ => rfl,
    show (if t.oldIdx ≠ metadataInvalidIndex then 1 else 2) = t.needs from rfl] at hidx
  unfold writeReserve
  rw [if_pos hn, if_neg (Nat.not_lt.mpr hmax)]
  rcases h.reserveIn_cases hacc ha r.fid (r.max cfg) r.flags (Nat.zero_add _).le with
    ⟨hall, he⟩ | ⟨l, _, hl, hroom, hleast, he⟩
  · rw [he]
    exact .inl ⟨.inl fun l hl => hall l (Nat.zero_le _) (by omega), rfl⟩
  rw [he]
  dsimp only
  have hfirst : st.FirstFit cfg (r.max cfg) l :=
    ⟨by omega, hroom, fun k hk => hleast k (Nat.zero_le _) hk⟩
  split_ifs with hinv
  · exact .inl ⟨.inr (hidx.mp hinv), rfl⟩
  · refine .inr ⟨?_, _, l, _, hfirst, rfl⟩
    rintro (hall | hlt)
    · exact absurd hroom (Nat.not_le.mpr (hall l hfirst.lt))
    · exact hinv (hidx.mpr hlt)

end Image.Wf

/-! ## The plan of a new file -/

/-- The write makes a new file. -/
def Image.CreatesFile (cfg : Config) (st : Image) (r : WriteReq) : Prop :=
  r.flags &&& flagCreate ≠ 0 ∧ ∀ i < cfg.maxNumFiles, (st.files i).id ≠ r.fid

/-- The free entries that a write needs: a new file leaves one of two as a spare. -/
def Image.entriesNeeded (cfg : Config) (st : Image) (r : WriteReq) : Nat :=
  if ∃ i < cfg.maxNumFiles, (st.files i).id = r.fid then 1 else 2

theorem Image.CreatesFile.not_replacesFile (h : st.CreatesFile cfg r) : ¬ st.ReplacesFile cfg r :=
  fun ⟨_, i, hi, hid, _⟩ => h.2 i hi hid

theorem Image.CreatesFile.entriesNeeded (h : st.CreatesFile cfg r) :
    st.entriesNeeded cfg r = 2 := by
  unfold Image.entriesNeeded
  exact if_neg fun ⟨i, hi, hid⟩ => h.2 i hi hid

theorem Image.ReplacesFile.entriesNeeded (h : st.ReplacesFile cfg r) :
    st.entriesNeeded cfg r = 1 := by
  obtain ⟨_, i, hi, hid, _⟩ := h
  unfold Image.entriesNeeded
  exact if_pos ⟨i, hi, hid⟩

/-- A file that is made or replaced gets a new entry. -/
theorem Image.Wf.writeTarget_new (h : st.Wf cfg a) (hacc : cfg.Accepted) (hcl : st.Closed cfg)
    (hf : r.fid ≠ 0) (hk : st.CreatesFile cfg r ∨ st.ReplacesFile cfg r) :
    ∃ t, st.writeTarget cfg r = .ok t ∧ t.newIdx = metadataInvalidIndex ∧
      t.needs = st.entriesNeeded cfg r := by
  rcases h.writeTarget_cases (r := r) hacc with ⟨i, hi, hid, he⟩ | ⟨habsent, he⟩
  · have hrep := hk.resolve_left fun hc => hc.2 i hi hid
    have hn : i ≠ metadataInvalidIndex := by
      have := cfg.maxNumFiles_lt
      unfold metadataInvalidIndex
      omega
    have hneed := hrep.entriesNeeded
    obtain ⟨htr, j, hj, hjid, hsz⟩ := hrep
    obtain rfl : j = i := hcl.unique j i hj hi (hjid.trans_ne hf) (hjid.trans hid.symm)
    rw [if_pos htr, if_neg hsz] at he
    exact ⟨_, he, rfl, (if_pos hn).trans hneed.symm⟩
  · have hc := hk.resolve_right fun ⟨_, i, hi, hid, _⟩ => habsent i hi hid
    rw [if_neg hc.1] at he
    exact ⟨_, he, rfl, (if_neg (not_not.mpr rfl)).trans hc.entriesNeeded.symm⟩

/-- A file is made or replaced as soon as there is room for it. -/
theorem Image.Wf.writePlan_admits (h : st.Wf cfg a) (hacc : cfg.Accepted) (ha : a ≤ 1)
    (hcl : st.Closed cfg) (hf : r.fid ≠ 0) (hflags : r.flags &&& internalFlagsMask = 0)
    (hk : st.CreatesFile cfg r ∨ st.ReplacesFile cfg r) (hmax : r.max cfg ≤ cfg.maxFileSize)
    (ho : r.offset = 0) (hfit : r.size cfg ≤ r.max cfg) :
    (st.NoRoom cfg (r.max cfg) (st.entriesNeeded cfg r) ∧
      st.writePlan cfg r = .error .insufficientStorage) ∨
    (¬ st.NoRoom cfg (r.max cfg) (st.entriesNeeded cfg r) ∧ ∃ p, st.writePlan cfg r = .ok p ∧
      st.FirstFit cfg (r.max cfg) p.fileMeta.lblock ∧
        (p.Creates cfg st r ∨ p.Replaces cfg st r)) := by
  obtain ⟨t, ht, hn, hneed⟩ := h.writeTarget_new hacc hcl hf hk
  rw [← hneed]
  rcases h.writeReserve_admits hacc ha hn hmax with ⟨hno, hq⟩ | ⟨hroom, idx, l, blockMeta, hl, hq⟩
  · refine .inl ⟨hno, ?_⟩
    unfold writePlan
    rw [if_neg (not_not.mpr hflags), ht]
    show (st.writeReserve cfg r t >>= _) = _
    rw [hq]
    rfl
  · have hfits : r.Fits cfg ⟨l, st.dataEnd cfg l, 0, r.max cfg, r.flags, r.fid⟩ := by
      refine .inr ⟨?_, ho.le, ?_⟩
      · rw [ho, utilsIsAligned_zero]
      · rw [ho, Nat.zero_add]
        exact hfit
    have hp := (writePlan_ok hflags ht hq).trans (if_pos hfits)
    refine .inr ⟨hroom, _, hp, hl, ?_⟩
    rcases (h.writePlan_sound hacc ha hp).kind with hr | hc | hr
    · -- the entry of the file is not reused
      exfalso
      have hidx := h.writeReserve_takes hacc ha hn hq
      exact hf (hr.id.symm.trans hidx.1.free)
    · exact .inl hc
    · exact .inr hr

/-! ## Space -/

namespace Image
variable (cfg : Config) (st : Image)

/-- The space of a file in a logical block. -/
def held (fid : Fid) (l : Nat) : Nat :=
  ∑ i ∈ st.filesIn cfg l with (st.files i).id = fid, (st.files i).maxSize

/-- In every logical block, the space of the files and the free space make up the block. -/
def Accounts : Prop :=
  ∀ l < numActiveDblocks cfg, ∑ i ∈ st.filesIn cfg l, (st.files i).maxSize +
    (st.blocks l).freeSize = cfg.blockSize - (st.blocks l).dataStart

end Image

theorem Image.Wf.accounts (h : st.Wf cfg a) : st.Accounts cfg := fun l hl => by
  have hfree := h.freeSize_le l hl
  have hsum := (h.tiling l hl).sum_len
  have hb := (h.tiling l hl).bounds
  unfold dataEnd at hsum hb
  omega

theorem Image.held_absent (h : ∀ i, i < cfg.maxNumFiles → (st.files i).id ≠ fid) (l : Nat) :
    st.held cfg fid l = 0 := by
  unfold held
  rw [filter_eq_empty_iff.mpr fun i hi => h i (mem_filesIn.mp hi).1, sum_empty]

theorem Image.Closed.held_eq (h : st.Closed cfg) (hd : d < cfg.maxNumFiles)
    (hid : (st.files d).id ≠ 0) (l : Nat) : st.held cfg (st.files d).id l =
      if l = (st.files d).lblock then (st.files d).maxSize else 0 := by
  unfold held
  split_ifs with hl
  · have he : {i ∈ st.filesIn cfg l | (st.files i).id = (st.files d).id} = {d} := by
      ext i
      rw [mem_filter, mem_filesIn, mem_singleton]
      constructor
      · rintro ⟨⟨hi, h0, _⟩, he⟩
        exact h.unique i d hi hd h0 he
      · rintro rfl
        exact ⟨⟨hd, hid, hl.symm⟩, rfl⟩
    rw [he, sum_singleton]
  · rw [filter_eq_empty_iff.mpr fun i hi he => ?_, sum_empty]
    obtain ⟨hi, h0, hil⟩ := mem_filesIn.mp hi
    rw [h.unique i d hi hd h0 he] at hil
    exact hl hil.symm

/-! ## Free entries -/

theorem Image.freeEntries_congr (h : ∀ i < cfg.maxNumFiles, ((st'.files i).id = 0 ↔
    (st.files i).id = 0)) : st'.freeEntries cfg = st.freeEntries cfg := by
  unfold freeEntries
  rw [filter_congr fun i hi => h i (mem_range.mp hi)]

theorem Image.Same.freeEntries (h : st.Same cfg st') :
    st'.freeEntries cfg = st.freeEntries cfg :=
  Image.freeEntries_congr fun i hi => by rw [h.files i hi]

/-- An entry that is taken is free no longer. -/
theorem Image.freeEntries_take (hd : d < cfg.maxNumFiles) (h0 : (st.files d).id = 0)
    (h0' : (st'.files d).id ≠ 0) (hid : ∀ i < cfg.maxNumFiles, i ≠ d →
      (st'.files i).id = (st.files i).id) : st'.freeEntries cfg + 1 = st.freeEntries cfg := by
  unfold freeEntries
  have he : {i ∈ range cfg.maxNumFiles | (st'.files i).id = 0} =
      {i ∈ range cfg.maxNumFiles | (st.files i).id = 0}.erase d := by
    ext i
    rw [mem_erase, mem_freeEntries, mem_freeEntries]
    constructor
    · rintro ⟨hi, hz⟩
      have hne : i ≠ d := fun hid => h0' (hid ▸ hz)
      exact ⟨hne, hi, hid i hi hne ▸ hz⟩
    · rintro ⟨hne, hi, hz⟩
      exact ⟨hi, (hid i hi hne).trans hz⟩
  rw [he]
  exact card_erase_add_one (mem_freeEntries.mpr ⟨hd, h0⟩)

theorem DeleteStep.freeEntries (h : DeleteStep cfg s st d st') (hd : d < cfg.maxNumFiles)
    (hid : (st.files d).id ≠ 0) : st'.freeEntries cfg = st.freeEntries cfg + 1 := by
  refine (Image.freeEntries_take hd ?_ hid fun i hi hne => ?_).symm
  · rw [h.files_self hd]
    rfl
  · rw [h.files_ne hi hne, Image.shifted_id]

theorem WriteStep.freeEntries (h : WriteStep cfg s st r p st₁) (hp : p.Sound cfg st r)
    (hw : st.Wf cfg a) (hv : r.Valid cfg) (hk : p.Takes cfg st r) :
    st₁.freeEntries cfg + 1 = st.freeEntries cfg :=
  Image.freeEntries_take hp.newIdx_lt hk.free ((h.id_new hp hw hv).trans_ne hv.fid)
    fun _ hi hne => h.id_ne hi hne

/-! ## A write that finds room -/

/-- What a new file of a block leaves: `l` is its logical block. -/
structure Image.Admitted (cfg : Config) (st : Image) (r : WriteReq) (l : Nat) (st' : Image) :
    Prop where
  first : st.FirstFit cfg (r.max cfg) l
  placed : st.CreatesFile cfg r → ∃ i < cfg.maxNumFiles, (st'.files i).id = r.fid ∧
    (st'.files i).lblock = l ∧ (st'.files i).dataIdx = cfg.blockSize - (st.blocks l).freeSize ∧
    (st'.files i).maxSize = r.max cfg
  freeSize : ∀ k < numActiveDblocks cfg, (st'.blocks k).freeSize +
    (if k = l then r.max cfg else 0) = (st.blocks k).freeSize + st.held cfg r.fid k
  accounts : st'.Accounts cfg
  entries : st'.freeEntries cfg + st.entriesNeeded cfg r = st.freeEntries cfg + 1

namespace WriteStep
variable (h : WriteStep cfg s st r p st₁) (hp : st.writePlan cfg r = .ok p) (hw : st.Wf cfg a)
  (hacc : cfg.Accepted) (ha : a ≤ 1) (hv : r.Valid cfg) (hcl : st.Closed cfg)
  (hl : st.FirstFit cfg (r.max cfg) p.fileMeta.lblock)
include h

/-- The new file takes its space from the free space of its block. -/
theorem freeSize_takes (hk : p.Takes cfg st r) {l : Nat} (hlt : l < numActiveDblocks cfg) :
    (st₁.blocks l).freeSize + (if l = p.fileMeta.lblock then r.max cfg else 0) =
      (st.blocks l).freeSize := by
  rw [h.freeSize_eq hlt, hk.freeSize]
  split_ifs with he
  · rw [he]
    exact Nat.sub_add_cancel hk.room
  · rfl

include hp hw hacc ha hv hl

theorem admitted_of_creates (hk : p.Creates cfg st r) (hcr : st.CreatesFile cfg r)
    (hs : st₁.Same cfg st') : st.Admitted cfg r p.fileMeta.lblock st' := by
  have hsound := hw.writePlan_sound hacc ha hp
  have hwf := h.wf hsound hw hv hacc
  have hnew := hs.files _ hsound.newIdx_lt
  rw [h.files_new hsound.newIdx_lt] at hnew
  refine ⟨hl, fun _ => ⟨p.newIdx, hsound.newIdx_lt, ?_⟩, fun k hk' => ?_, (hs.wf hacc hwf).accounts,
    ?_⟩
  · rw [hnew, WritePlan.entry_id, WritePlan.entry_lblock, WritePlan.entry_dataIdx,
      WritePlan.entry_maxSize, (hsound.placed hw hv.inRange).id, hk.dataIdx, hk.maxSize]
    exact ⟨rfl, rfl, rfl, rfl⟩
  · rw [hs.blocks k hk', h.freeSize_takes hk.toTakes hk',
      Image.held_absent hk.absent, Nat.add_zero]
  · rw [hs.freeEntries, hcr.entriesNeeded, ← h.freeEntries hsound hw hv hk.toTakes]

include hcl

/-- The old file gives its space back in the second update. -/
theorem admitted_of_replaces (hrep : p.Replaces cfg st r) (hs : st₁.Same cfg st₂)
    (hd : DeleteStep cfg a st₂ p.oldIdx st₃) (hs' : st₃.Same cfg st') :
    st.Admitted cfg r p.fileMeta.lblock st' := by
  have hsound := hw.writePlan_sound hacc ha hp
  have hwf₂ := hs.wf hacc (h.wf hsound hw hv hacc)
  have hpend := hs.pending (h.pending hsound hw hv hcl hrep)
  have hold : st₂.files p.oldIdx = (st.files p.oldIdx).mark := by
    rw [hs.files _ hrep.oldIdx_lt, h.files_old hrep.oldIdx_lt (hrep.ne hv.fid)]
  have hlb : (st₂.files p.oldIdx).lblock = (st.files p.oldIdx).lblock := by
    rw [hold]
    rfl
  have hsz : (st₂.files p.oldIdx).maxSize = (st.files p.oldIdx).maxSize := by
    rw [hold]
    rfl
  have h0 : (st.files p.oldIdx).id ≠ 0 := hrep.id.trans_ne hv.fid
  have hrf := hrep.replacesFile
  refine ⟨hl, fun hc => absurd hrf hc.not_replacesFile, fun k hk => ?_,
    (hs'.wf hacc (hd.wf hwf₂ hpend.lt hpend.valid hacc)).accounts, ?_⟩
  · rw [hs'.blocks k hk, hd.freeSize_eq hk, hlb, hsz, ← hrep.id, hcl.held_eq hrep.oldIdx_lt h0]
    have hfree := h.freeSize_takes hrep.toTakes hk
    rw [← hs.blocks k hk] at hfree
    split_ifs at hfree ⊢ with h₁ h₂ h₃
    all_goals first | omega | (subst h₁; omega)
  · have he := h.freeEntries hsound hw hv hrep.toTakes
    rw [hs'.freeEntries, hd.freeEntries hpend.lt hpend.valid, hs.freeEntries, hrf.entriesNeeded]
    omega

end WriteStep

/-- What a write returns that makes or replaces a file, and what it leaves. -/
structure Admission (cfg : Config) (r : WriteReq) (c : Ctx) (fl : Flash)
    (res : Except Status Unit) (c' : Ctx) (fl' : Flash) : Prop where
  refused : res = .error .insufficientStorage ↔ (mountedImage cfg c fl).NoRoom cfg (r.max cfg)
    ((mountedImage cfg c fl).entriesNeeded cfg r)
  unchanged : (mountedImage cfg c fl).NoRoom cfg (r.max cfg)
      ((mountedImage cfg c fl).entriesNeeded cfg r) →
    c' = c ∧ (mountedImage cfg c fl).Same cfg (mountedImage cfg c' fl')
  admitted : ¬ (mountedImage cfg c fl).NoRoom cfg (r.max cfg)
      ((mountedImage cfg c fl).entriesNeeded cfg r) →
    res = .ok () ∧ ∃ l, (mountedImage cfg c fl).Admitted cfg r l (mountedImage cfg c' fl')

theorem Store.admission (h : Store cfg c fl) (hv : r.Valid cfg)
    (hflags : r.flags &&& internalFlagsMask = 0)
    (hk : (mountedImage cfg c fl).CreatesFile cfg r ∨ (mountedImage cfg c fl).ReplacesFile cfg r)
    (hmax : r.max cfg ≤ cfg.maxFileSize) (ho : r.offset = 0) (hfit : r.size cfg ≤ r.max cfg) :
    Admission cfg r c fl ((FsCall.write r).after cfg c fl).status
      ((FsCall.write r).after cfg c fl).ctx ((FsCall.write r).after cfg c fl).flash := by
  have hs := h.call_spec (f := .write r) hv
  generalize (FsCall.write r).after cfg c fl = out at hs
  obtain ⟨res, c', fl'⟩ := out
  obtain ⟨-, heff, hfailed, -⟩ := hs
  rcases h.wf.writePlan_admits h.accepted h.active_le h.closed hv.fid hflags hk hmax ho hfit with
    ⟨hno, hp⟩ | ⟨hroom, p, hp, hl, hkind⟩
  · cases heff with
    | fail plan same =>
      obtain rfl := Except.error.inj (hp.symm.trans plan)
      exact ⟨iff_of_true rfl hno, fun _ => ⟨(hfailed (nomatch ·)).1, same⟩, fun hn => absurd hno hn⟩
    | update plan _ _ _ => cases hp.symm.trans plan
    | replace plan _ _ _ _ _ => cases hp.symm.trans plan
  · refine ⟨iff_of_false ?_ hroom, fun hno => absurd hno hroom, fun _ => ?_⟩
    · cases heff with
      | fail plan _ => cases hp.symm.trans plan
      | update _ _ _ _ => exact (nomatch ·)
      | replace _ _ _ _ _ _ => exact (nomatch ·)
    cases heff with
    | fail plan _ => cases hp.symm.trans plan
    | update plan keeps step same =>
      obtain rfl := Except.ok.inj (hp.symm.trans plan)
      have hc := hkind.resolve_right keeps
      have hcr := hk.resolve_right fun ⟨_, i, hi, hid, _⟩ => hc.absent i hi hid
      exact ⟨rfl, _, step.admitted_of_creates hp h.wf h.accepted h.active_le hv hl hc hcr same⟩
    | replace plan replaces step same₁ delete same =>
      obtain rfl := Except.ok.inj (hp.symm.trans plan)
      exact ⟨rfl, _, step.admitted_of_replaces hp h.wf h.accepted h.active_le hv h.closed
        hl replaces same₁ delete same⟩

/-! ## Replacing a file again and again -/

/-- Any number of replacements of a file, whatever they return. -/
inductive ReplaceRun (cfg : Config) (fid : Fid) (c : Ctx) (fl : Flash) : Ctx → Flash → Prop
  | refl : ReplaceRun cfg fid c fl c fl
  | step {c' : Ctx} {fl' : Flash} (r : WriteReq) (h : ReplaceRun cfg fid c fl c' fl')
    (hf : r.fid = fid) (hv : r.Valid cfg) (hr : (mountedImage cfg c' fl').ReplacesFile cfg r) :
    ReplaceRun cfg fid c fl ((FsCall.write r).after cfg c' fl').ctx
      ((FsCall.write r).after cfg c' fl').flash

/-- A replacement takes one entry and frees one, or none. -/
theorem Store.freeEntries_of_replace (h : Store cfg c fl) (hv : r.Valid cfg)
    (hr : (mountedImage cfg c fl).ReplacesFile cfg r) :
    (mountedImage cfg ((FsCall.write r).after cfg c fl).ctx
      ((FsCall.write r).after cfg c fl).flash).freeEntries cfg =
        (mountedImage cfg c fl).freeEntries cfg := by
  have hs := h.call_spec (f := .write r) hv
  generalize (FsCall.write r).after cfg c fl = out at hs ⊢
  obtain ⟨res, c', fl'⟩ := out
  obtain ⟨-, heff, -, -⟩ := hs
  dsimp only at heff ⊢
  cases heff with
  | fail plan same => exact same.freeEntries
  | update plan keeps step same =>
    have hsound := h.wf.writePlan_sound h.accepted h.active_le plan
    obtain ⟨htr, i, hi, hid, hsz⟩ := hr
    rcases hsound.kind with hk | hk | hk
    · have hi' := h.closed.unique i _ hi hsound.newIdx_lt (hid.trans_ne hv.fid)
        (hid.trans hk.id.symm)
      exact absurd (hi' ▸ hk.maxSize htr) hsz
    · exact absurd hid (hk.absent i hi)
    · exact absurd hk keeps
  | replace plan replaces step same₁ delete same =>
    have hsound := h.wf.writePlan_sound h.accepted h.active_le plan
    have hpend := same₁.pending (step.pending hsound h.wf hv h.closed replaces)
    have he := step.freeEntries hsound h.wf hv replaces.toTakes
    rw [same.freeEntries, delete.freeEntries hpend.lt hpend.valid, same₁.freeEntries, he]

theorem ReplaceRun.store (h : ReplaceRun cfg fid c fl c' fl') (hst : Store cfg c fl) :
    Store cfg c' fl' := by
  induction h with
  | refl => exact hst
  | step r _ hf hv hr ih => exact (ih.call_spec (f := .write r) hv).store

theorem ReplaceRun.freeEntries (h : ReplaceRun cfg fid c fl c' fl') (hst : Store cfg c fl) :
    (mountedImage cfg c' fl').freeEntries cfg = (mountedImage cfg c fl).freeEntries cfg := by
  induction h with
  | refl => rfl
  | step r hrun hf hv hr ih => exact ((hrun.store hst).freeEntries_of_replace hv hr).trans ih

/-- Room for a new file is found when there is some, in the first block that has it, and no space
and no entry is lost; replacing a file never runs out of entries. -/
theorem fileWrite_admission (h : Reaches cfg c fl) (hacc : cfg.Accepted) (hv : r.Valid cfg)
    (hflags : r.flags &&& internalFlagsMask = 0)
    (hk : (mountedImage cfg c fl).CreatesFile cfg r ∨ (mountedImage cfg c fl).ReplacesFile cfg r)
    (hmax : r.max cfg ≤ cfg.maxFileSize) (ho : r.offset = 0) (hfit : r.size cfg ≤ r.max cfg) :
    Admission cfg r c fl ((FsCall.write r).after cfg c fl).status
        ((FsCall.write r).after cfg c fl).ctx ((FsCall.write r).after cfg c fl).flash ∧
      ∀ fid c' fl', ReplaceRun cfg fid c fl c' fl' →
        (mountedImage cfg c' fl').freeEntries cfg = (mountedImage cfg c fl).freeEntries cfg ∧
          ∀ r', r'.fid = fid → (mountedImage cfg c' fl').ReplacesFile cfg r' →
            (mountedImage cfg c' fl').entriesNeeded cfg r' ≤
              (mountedImage cfg c' fl').freeEntries cfg := by
  have hst := h.store hacc
  refine ⟨hst.admission hv hflags hk hmax ho hfit, fun fid c' fl' hrun =>
    ⟨hrun.freeEntries hst, fun r' _ hr => ?_⟩⟩
  rw [hr.entriesNeeded, Image.one_le_freeEntries]
  obtain ⟨_, i, hi, _, _⟩ := hr
  exact (hrun.store hst).closed.spare (Nat.zero_lt_of_lt hi)

/-- A file of four bytes is replaced by an empty one. -/
theorem admission_of_replace :
    Admission twoBlocks ⟨1, flagTruncate, 0, 0, 0, UInt8.ofNat⟩
      (filled twoBlocks [.write fourBytes]).1 (filled twoBlocks [.write fourBytes]).2
      ((FsCall.write ⟨1, flagTruncate, 0, 0, 0, UInt8.ofNat⟩).after twoBlocks
        (filled twoBlocks [.write fourBytes]).1 (filled twoBlocks [.write fourBytes]).2).status
      ((FsCall.write ⟨1, flagTruncate, 0, 0, 0, UInt8.ofNat⟩).after twoBlocks
        (filled twoBlocks [.write fourBytes]).1 (filled twoBlocks [.write fourBytes]).2).ctx
      ((FsCall.write ⟨1, flagTruncate, 0, 0, 0, UInt8.ofNat⟩).after twoBlocks
        (filled twoBlocks [.write fourBytes]).1 (filled twoBlocks [.write fourBytes]).2).flash := by
  have hrep : (mountedImage twoBlocks (filled twoBlocks [.write fourBytes]).1
      (filled twoBlocks [.write fourBytes]).2).ReplacesFile twoBlocks
        ⟨1, flagTruncate, 0, 0, 0, UInt8.ofNat⟩ :=
    ⟨by decide, 1, by decide, by decide +kernel, by decide +kernel⟩
  exact (fileWrite_admission (reaches_filled (by decide)) twoBlocks_accepted (by decide) (by decide)
    (.inr hrep) (by decide) rfl (by decide)).1

end Etss
