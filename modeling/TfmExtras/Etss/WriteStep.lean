import TfmExtras.Etss.TableStep
import TfmExtras.Etss.WritePlan

/-! Writing a file, as a step on the filesystem: the entry and the bytes that change, and that the
invariant holds after it. -/

namespace Etss
open Finset

variable {cfg : Config} {st st' : Image} {a s : Nat} {r : WriteReq} {p : WritePlan}

theorem and_flagDelete {flags : Nat} (h : flags &&& internalFlagsMask = 0) :
    flags &&& flagDelete = 0 := by
  have hm : flagDelete = internalFlagsMask &&& flagDelete := by decide
  rw [hm, ← Nat.and_assoc, h]
  exact Nat.zero_and _

theorem FileMeta.mark_marked (fileMeta : FileMeta) : fileMeta.mark.flags &&& flagDelete ≠ 0 := by
  have h : (fileMeta.flags ||| flagDelete) &&& flagDelete = flagDelete := by
    refine Nat.eq_of_testBit_eq fun i => ?_
    rw [Nat.testBit_and, Nat.testBit_or]
    cases fileMeta.flags.testBit i <;> simp
  show (fileMeta.flags ||| flagDelete) &&& flagDelete ≠ 0
  rw [h]
  decide

/-! ## The entry of a plan -/

namespace WritePlan

theorem entry_eq (p : WritePlan) (r : WriteReq) :
    p.entry r = { p.fileMeta with curSize := (p.entry r).curSize } := by
  unfold entry
  split_ifs <;> rfl

@[simp] theorem entry_lblock : (p.entry r).lblock = p.fileMeta.lblock := by
  rw [entry_eq]

@[simp] theorem entry_dataIdx : (p.entry r).dataIdx = p.fileMeta.dataIdx := by
  rw [entry_eq]

@[simp] theorem entry_maxSize : (p.entry r).maxSize = p.fileMeta.maxSize := by
  rw [entry_eq]

@[simp] theorem entry_flags : (p.entry r).flags = p.fileMeta.flags := by
  rw [entry_eq]

@[simp] theorem entry_id : (p.entry r).id = p.fileMeta.id := by
  rw [entry_eq]

/-- The data, rounded up, does not pass the end of the file. -/
theorem fits_size_le (hf : r.Fits cfg p.fileMeta) (h0 : r.dataSize ≠ 0) :
    r.offset ≤ p.fileMeta.curSize ∧ r.offset + r.size cfg ≤ p.fileMeta.maxSize := by
  rcases hf with hz | ⟨_, h₁, h₂⟩
  · exact absurd hz h0
  · exact ⟨h₁, h₂⟩

/-- Nor does rounding it up wrap. -/
theorem fits_le (hv : r.Valid cfg) (hf : r.Fits cfg p.fileMeta) (h0 : r.dataSize ≠ 0) :
    r.offset ≤ p.fileMeta.curSize ∧ r.dataSize ≤ r.size cfg ∧
      r.offset + r.size cfg ≤ p.fileMeta.maxSize := by
  obtain ⟨h₁, h₂⟩ := fits_size_le hf h0
  exact ⟨h₁, le_utilsAlign hv.dataSize, h₂⟩

theorem entry_curSize (hv : r.Valid cfg) (hf : r.Fits cfg p.fileMeta)
    (hm : p.fileMeta.maxSize < 2 ^ 32) : (p.entry r).curSize =
      if r.dataSize = 0 then p.fileMeta.curSize
      else max p.fileMeta.curSize (r.offset + r.dataSize) := by
  unfold entry
  by_cases h0 : r.dataSize = 0
  · rw [if_pos h0, if_neg fun hc => hc.1 h0]
  · obtain ⟨_, h₂, h₃⟩ := fits_le hv hf h0
    rw [if_neg h0, add32_eq (by omega)]
    split_ifs with hc
    · exact (max_eq_right hc.2.le).symm
    · exact (max_eq_left (not_lt.mp fun hlt => hc ⟨h0, hlt⟩)).symm

/-- The entry has the id of the request, fits the limits, and lies in the used part of its
block. -/
structure Placed (cfg : Config) (p : WritePlan) (st : Image) (r : WriteReq) : Prop where
  lblock_lt : p.fileMeta.lblock < numActiveDblocks cfg
  id : p.fileMeta.id = r.fid
  curSize_le : p.fileMeta.curSize ≤ p.fileMeta.maxSize
  maxSize_le : p.fileMeta.maxSize ≤ cfg.maxFileSize
  phyId : p.blockMeta.phyId = (st.blocks p.fileMeta.lblock).phyId
  dataStart : p.blockMeta.dataStart = (st.blocks p.fileMeta.lblock).dataStart
  freeSize : p.blockMeta.freeSize ≤ (st.blocks p.fileMeta.lblock).freeSize
  le_dataIdx : (st.blocks p.fileMeta.lblock).dataStart ≤ p.fileMeta.dataIdx
  end_le : p.fileMeta.dataIdx + p.fileMeta.maxSize ≤ cfg.blockSize - p.blockMeta.freeSize
  aligned : cfg.Aligned → cfg.programUnit ∣ p.fileMeta.dataIdx ∧
    cfg.programUnit ∣ p.fileMeta.maxSize ∧ cfg.programUnit ∣ p.blockMeta.freeSize

theorem Reuses.lblock (h : p.Reuses cfg st r) :
    p.fileMeta.lblock = (st.files p.newIdx).lblock := by
  rw [h.fileMeta]
  split_ifs <;> rfl

theorem Reuses.dataIdx (h : p.Reuses cfg st r) :
    p.fileMeta.dataIdx = (st.files p.newIdx).dataIdx := by
  rw [h.fileMeta]
  split_ifs <;> rfl

theorem Reuses.maxSize_eq (h : p.Reuses cfg st r) :
    p.fileMeta.maxSize = (st.files p.newIdx).maxSize := by
  rw [h.fileMeta]
  split_ifs <;> rfl

theorem Reuses.curSize_le (h : p.Reuses cfg st r) :
    p.fileMeta.curSize ≤ (st.files p.newIdx).curSize := by
  rw [h.fileMeta]
  split_ifs
  · exact Nat.zero_le _
  · exact le_rfl

theorem Reuses.placed (h : p.Reuses cfg st r) (hw : st.Wf cfg a) (hi : p.newIdx < cfg.maxNumFiles)
    (hf : r.fid ≠ 0) : p.Placed cfg st r := by
  have hid : (st.files p.newIdx).id ≠ 0 := h.id.symm ▸ hf
  obtain ⟨hl, hcur, hmax⟩ := hw.sizes _ hi hid
  obtain ⟨hlo, hhi⟩ := hw.inside hi hid
  have hle := h.curSize_le
  have hbm : p.blockMeta = st.blocks p.fileMeta.lblock := h.lblock ▸ h.blockMeta
  have hidm : p.fileMeta.id = (st.files p.newIdx).id := by
    rw [h.fileMeta]
    split_ifs <;> rfl
  refine ⟨h.lblock ▸ hl, hidm.trans h.id, ?_, ?_, hbm ▸ rfl, hbm ▸ rfl, hbm ▸ le_rfl, ?_, ?_,
    fun ha => ⟨?_, ?_, ?_⟩⟩
  · rw [h.maxSize_eq]
    exact hle.trans hcur
  · rw [h.maxSize_eq]
    exact hmax
  · rw [h.lblock, h.dataIdx]
    exact hlo
  · rw [h.maxSize_eq, h.dataIdx, hbm, h.lblock]
    exact hhi
  · rw [h.dataIdx]
    exact ((hw.aligned ha).2 _ hi hid).1
  · rw [h.maxSize_eq]
    exact ((hw.aligned ha).2 _ hi hid).2
  · rw [hbm, h.lblock]
    exact (hw.aligned ha).1 _ hl

theorem Takes.dataIdx (h : p.Takes cfg st r) :
    p.fileMeta.dataIdx = st.dataEnd cfg p.fileMeta.lblock :=
  congrArg FileMeta.dataIdx h.fileMeta

theorem Takes.curSize (h : p.Takes cfg st r) : p.fileMeta.curSize = 0 :=
  congrArg FileMeta.curSize h.fileMeta

theorem Takes.maxSize (h : p.Takes cfg st r) : p.fileMeta.maxSize = r.max cfg :=
  congrArg FileMeta.maxSize h.fileMeta

theorem Takes.freeSize (h : p.Takes cfg st r) :
    p.blockMeta.freeSize = (st.blocks p.fileMeta.lblock).freeSize - r.max cfg :=
  congrArg BlockMeta.freeSize h.blockMeta

theorem Takes.placed (h : p.Takes cfg st r) (hw : st.Wf cfg a) (hr : r.InRange) :
    p.Placed cfg st r := by
  have hl := h.lblock_lt
  have hroom := h.room
  have hfs := hw.freeSize_le _ hl
  refine ⟨hl, congrArg FileMeta.id h.fileMeta, ?_, ?_, by rw [h.blockMeta], by rw [h.blockMeta],
    ?_, ?_, ?_, fun ha => ?_⟩
  · rw [h.curSize]
    exact Nat.zero_le _
  · rw [h.maxSize]
    exact h.max_le
  · rw [h.freeSize]
    omega
  · rw [h.dataIdx, Image.dataEnd]
    omega
  · rw [h.dataIdx, Image.dataEnd, h.maxSize, h.freeSize]
    omega
  · have hfree := (hw.aligned ha).1 _ hl
    have hmax : cfg.programUnit ∣ r.max cfg := by
      obtain ⟨k, hk, hpu⟩ := ha.eq_two_pow
      unfold WriteReq.max
      rw [hpu]
      exact utilsAlign_dvd hr.maxSize_lt (by omega)
    rw [h.dataIdx, Image.dataEnd, h.maxSize, h.freeSize]
    exact ⟨Nat.dvd_sub ha.2.2.2.1 hfree, hmax, Nat.dvd_sub hfree hmax⟩

namespace Sound
variable (h : p.Sound cfg st r)
include h

theorem takes_or_reuses : p.Reuses cfg st r ∨ p.Takes cfg st r := by
  rcases h.kind with hk | hk | hk
  · exact .inl hk
  · exact .inr hk.toTakes
  · exact .inr hk.toTakes

theorem placed (hw : st.Wf cfg a) (hr : r.InRange) : p.Placed cfg st r := by
  rcases h.takes_or_reuses with hk | hk
  · exact hk.placed hw h.newIdx_lt hr.fid
  · exact hk.placed hw hr

theorem entry_curSize_le (hw : st.Wf cfg a) (hv : r.Valid cfg) : (p.entry r).curSize ≤ p.fileMeta.maxSize := by
  have hpl := h.placed hw hv.inRange
  have hcur := hpl.curSize_le
  have hmax := hpl.maxSize_le
  have hlt := cfg.maxFileSize_lt
  rw [WritePlan.entry_curSize hv h.fits (by omega)]
  split_ifs with h0
  · exact hcur
  · obtain ⟨_, h₂, h₃⟩ := WritePlan.fits_le hv h.fits h0
    omega

theorem inRange (hr : r.InRange) (hacc : cfg.Accepted)
    (hm : (st.files p.newIdx).InRange) : p.fileMeta.InRange := by
  rcases h.takes_or_reuses with hk | hk
  · rw [hk.fileMeta]
    split_ifs
    · exact ⟨hm.lblock, hm.dataIdx, Nat.two_pow_pos 32, hm.maxSize, hr.flags_lt⟩
    · exact hm
  · have hn := hacc.numActive_lt
    have hl := hk.lblock_lt
    have hbs := cfg.blockSize_lt
    rw [hk.fileMeta]
    exact ⟨show p.fileMeta.lblock < 2 ^ 32 by omega,
      lt_of_le_of_lt (Nat.sub_le _ _) hbs, Nat.two_pow_pos 32, utilsAlign_lt _ _, hr.flags_lt⟩

theorem entry_inRange (hr : r.InRange) (hacc : cfg.Accepted)
    (hm : (st.files p.newIdx).InRange) : (p.entry r).InRange := by
  have hin := h.inRange hr hacc hm
  unfold entry
  split_ifs
  · exact ⟨hin.lblock, hin.dataIdx, Nat.mod_lt _ (by decide), hin.maxSize, hin.flags⟩
  · exact hin

end Sound

end WritePlan

/-! ## The step -/

/-- `st'` is `st` after the plan: the new entry, the marked entry of a replaced file, and the
bytes of the logical block that was written. -/
structure WriteStep (cfg : Config) (s : Nat) (st : Image) (r : WriteReq) (p : WritePlan)
    (st' : Image) : Prop extends
    BlockStep cfg s st p.fileMeta.lblock p.blockMeta.freeSize (decide (r.dataSize ≠ 0)) st' where
  files : ∀ i, i < cfg.maxNumFiles → st'.files i =
    if i = p.newIdx then p.entry r else if i = p.oldIdx then (st.files i).mark else st.files i
  before : r.dataSize ≠ 0 → ∀ o, (st.blocks p.fileMeta.lblock).dataStart ≤ o →
    o < p.fileMeta.dataIdx + r.offset →
      st'.data p.fileMeta.lblock o = st.data p.fileMeta.lblock o
  new : r.dataSize ≠ 0 → ∀ k < r.size cfg,
    st'.data p.fileMeta.lblock (p.fileMeta.dataIdx + r.offset + k) = r.data k
  gap : r.dataSize ≠ 0 → ∀ o, p.fileMeta.dataIdx + r.offset + r.size cfg ≤ o →
    o < p.fileMeta.dataIdx + p.fileMeta.maxSize →
      st'.data p.fileMeta.lblock o = cfg.eraseVal
  behind : r.dataSize ≠ 0 → ∀ o, p.fileMeta.dataIdx + p.fileMeta.maxSize ≤ o →
    o < cfg.blockSize - p.blockMeta.freeSize →
      st'.data p.fileMeta.lblock o = st.data p.fileMeta.lblock o
  others : ∀ l, l < numActiveDblocks cfg → (l ≠ p.fileMeta.lblock ∨ r.dataSize = 0) →
    ∀ o, (st.blocks l).dataStart ≤ o → o < st.dataEnd cfg l → st'.data l o = st.data l o
  fresh : r.dataSize = 0 → ∀ o, st.dataEnd cfg p.fileMeta.lblock ≤ o → o < cfg.blockSize →
    st'.data p.fileMeta.lblock o =
      if p.fileMeta.lblock = 0 then cfg.eraseVal else st.data p.fileMeta.lblock o

namespace WriteStep
variable (h : WriteStep cfg s st r p st') (hp : p.Sound cfg st r) (hw : st.Wf cfg a)
  (hv : r.Valid cfg)
include h

theorem files_new (hi : p.newIdx < cfg.maxNumFiles) : st'.files p.newIdx = p.entry r := by
  rw [h.files _ hi, if_pos rfl]

theorem files_ne {i : Nat} (hi : i < cfg.maxNumFiles) (hn : i ≠ p.newIdx) (ho : i ≠ p.oldIdx) :
    st'.files i = st.files i := by
  rw [h.files i hi, if_neg hn, if_neg ho]

theorem files_old (hi : p.oldIdx < cfg.maxNumFiles) (hne : p.oldIdx ≠ p.newIdx) :
    st'.files p.oldIdx = (st.files p.oldIdx).mark := by
  rw [h.files _ hi, if_neg hne, if_pos rfl]

/-- Apart from the new entry, only the flags of an entry change. -/
theorem files_flags {i : Nat} (hi : i < cfg.maxNumFiles) (hn : i ≠ p.newIdx) :
    ∃ flags, st'.files i = { st.files i with flags := flags } := by
  rw [h.files i hi, if_neg hn]
  split_ifs
  · exact ⟨_, rfl⟩
  · exact ⟨_, rfl⟩

include hp hw hv

theorem id_new : (st'.files p.newIdx).id = r.fid := by
  rw [h.files_new hp.newIdx_lt, WritePlan.entry_id, (hp.placed hw hv.inRange).id]

/-- The files of a logical block are the same as before, with the new one. -/
theorem mem_filesIn {i l : Nat} : i ∈ st'.filesIn cfg l ↔
    (i = p.newIdx ∧ l = p.fileMeta.lblock) ∨ (i ≠ p.newIdx ∧ i ∈ st.filesIn cfg l) := by
  rw [Image.mem_filesIn, Image.mem_filesIn]
  by_cases hn : i = p.newIdx
  · subst hn
    rw [h.id_new hp hw hv, h.files_new hp.newIdx_lt, WritePlan.entry_lblock]
    have hlt := hp.newIdx_lt
    have hf := hv.fid
    constructor
    · rintro ⟨_, _, hl⟩
      exact .inl ⟨rfl, hl.symm⟩
    · rintro (⟨_, hl⟩ | ⟨hne, _⟩)
      · exact ⟨hlt, hf, hl.symm⟩
      · exact absurd rfl hne
  · by_cases hi : i < cfg.maxNumFiles
    · obtain ⟨flags, he⟩ := h.files_flags hi hn
      rw [he]
      simp [hn]
    · simp [hn, hi]

theorem tiling {l : Nat} (hl : l < numActiveDblocks cfg) : Tiling (st'.filesIn cfg l)
    (fun i => (st'.files i).dataIdx) (fun i => (st'.files i).maxSize) (st.blocks l).dataStart
    (if l = p.fileMeta.lblock then cfg.blockSize - p.blockMeta.freeSize
    else st.dataEnd cfg l) := by
  have ht := hw.tiling l hl
  -- the files that stay keep their place
  have hpos : ∀ i ∈ st.filesIn cfg l, i ≠ p.newIdx →
      (st'.files i).dataIdx = (st.files i).dataIdx ∧
        (st'.files i).maxSize = (st.files i).maxSize := fun i hi hn => by
    obtain ⟨flags, he⟩ := h.files_flags (Image.mem_filesIn.mp hi).1 hn
    rw [he]
    exact ⟨rfl, rfl⟩
  rcases hp.takes_or_reuses with hk | hk
  · -- the file is one of them
    have hset : st'.filesIn cfg l = st.filesIn cfg l := by
      ext i
      rw [h.mem_filesIn hp hw hv]
      constructor
      · rintro (⟨rfl, hl'⟩ | ⟨_, hi⟩)
        · exact Image.mem_filesIn.mpr ⟨hp.newIdx_lt, hk.id.symm ▸ hv.fid, by rw [hl', hk.lblock]⟩
        · exact hi
      · intro hi
        by_cases hn : i = p.newIdx
        · refine .inl ⟨hn, ?_⟩
          rw [hk.lblock, ← hn, (Image.mem_filesIn.mp hi).2.2]
        · exact .inr ⟨hn, hi⟩
    have hend : (if l = p.fileMeta.lblock then cfg.blockSize - p.blockMeta.freeSize
        else st.dataEnd cfg l) = st.dataEnd cfg l := by
      refine ite_eq_right_iff.mpr fun he => ?_
      rw [hk.blockMeta, ← hk.lblock, ← he]
      rfl
    rw [hset, hend]
    refine ht.congr (fun i hi => ?_) fun i hi => ?_
    · by_cases hn : i = p.newIdx
      · rw [hn, h.files_new hp.newIdx_lt, WritePlan.entry_dataIdx, hk.dataIdx]
      · exact (hpos i hi hn).1
    · by_cases hn : i = p.newIdx
      · rw [hn, h.files_new hp.newIdx_lt, WritePlan.entry_maxSize, hk.maxSize_eq]
      · exact (hpos i hi hn).2
  · -- the file comes behind them
    have hnew : p.newIdx ∉ st.filesIn cfg l := fun hi => (Image.mem_filesIn.mp hi).2.1 hk.free
    have hne : ∀ i ∈ st.filesIn cfg l, i ≠ p.newIdx := fun i hi he => hnew (he ▸ hi)
    have ht' : Tiling (st.filesIn cfg l) (fun i => (st'.files i).dataIdx)
        (fun i => (st'.files i).maxSize) (st.blocks l).dataStart (st.dataEnd cfg l) :=
      ht.congr (fun i hi => (hpos i hi (hne i hi)).1) fun i hi => (hpos i hi (hne i hi)).2
    by_cases he : l = p.fileMeta.lblock
    · have hset : st'.filesIn cfg l = insert p.newIdx (st.filesIn cfg l) := by
        ext i
        rw [h.mem_filesIn hp hw hv, mem_insert]
        constructor
        · rintro (⟨hi, _⟩ | ⟨_, hi⟩)
          · exact .inl hi
          · exact .inr hi
        · rintro (hi | hi)
          · exact .inl ⟨hi, he⟩
          · exact .inr ⟨hne i hi, hi⟩
      have hat : (st'.files p.newIdx).dataIdx = st.dataEnd cfg l := by
        rw [h.files_new hp.newIdx_lt, WritePlan.entry_dataIdx, hk.dataIdx, he]
      have hins := ht'.insert hnew hat
      have hfs := hw.freeSize_le l hl
      have hroom := hk.room
      rw [← he] at hroom
      rw [hset, if_pos he]
      have hend : cfg.blockSize - p.blockMeta.freeSize =
          st.dataEnd cfg l + (st'.files p.newIdx).maxSize := by
        rw [h.files_new hp.newIdx_lt, WritePlan.entry_maxSize, hk.maxSize, hk.freeSize, ← he]
        unfold Image.dataEnd
        omega
      rw [hend]
      exact hins
    · have hset : st'.filesIn cfg l = st.filesIn cfg l := by
        ext i
        rw [h.mem_filesIn hp hw hv]
        constructor
        · rintro (⟨_, hl'⟩ | ⟨_, hi⟩)
          · exact absurd hl' he
          · exact hi
        · exact fun hi => .inr ⟨hne i hi, hi⟩
      rw [hset, if_neg he]
      exact ht'

theorem wf (hacc : cfg.Accepted) : st'.Wf cfg s := by
  have hpl := hp.placed hw hv.inRange
  have hfs := hw.freeSize_le _ hpl.lblock_lt
  have hfree := hpl.freeSize
  refine h.toBlockStep.wf hw hacc hpl.lblock_lt (by omega) (fun i hi hz => ?_) (fun i hi hid => ?_)
    (fun l hl => h.tiling hp hw hv hl) fun ha => ⟨(hpl.aligned ha).2.2, fun i hi hid => ?_⟩
  · have hn : i ≠ p.newIdx := by
      rintro rfl
      exact hv.fid ((h.id_new hp hw hv).symm.trans hz)
    have ho : i ≠ p.oldIdx := by
      rintro rfl
      obtain ⟨flags, he⟩ := h.files_flags hi hn
      rw [he] at hz
      rcases hp.kind with hk | hk | hk
      · exact hn hk.oldIdx
      · have hmax := cfg.maxNumFiles_lt
        have ho := hk.oldIdx
        unfold metadataInvalidIndex at ho
        omega
      · exact hv.fid (hk.id.symm.trans hz)
    rw [h.files_ne hi hn ho] at hz ⊢
    exact hw.free i hi hz
  · by_cases hn : i = p.newIdx
    · rw [hn, h.files_new hp.newIdx_lt, WritePlan.entry_lblock, WritePlan.entry_maxSize]
      exact ⟨hpl.lblock_lt, hp.entry_curSize_le hw hv, hpl.maxSize_le⟩
    · obtain ⟨flags, he⟩ := h.files_flags hi hn
      rw [he] at hid ⊢
      exact hw.sizes i hi hid
  · by_cases hn : i = p.newIdx
    · rw [hn, h.files_new hp.newIdx_lt, WritePlan.entry_dataIdx, WritePlan.entry_maxSize]
      exact ⟨(hpl.aligned ha).1, (hpl.aligned ha).2.1⟩
    · obtain ⟨flags, he⟩ := h.files_flags hi hn
      rw [he] at hid ⊢
      exact (hw.aligned ha).2 i hi hid

/-! ## What a write shows -/

/-- Every other file keeps its contents. -/
theorem content_ne {i : Nat} (hi : i < cfg.maxNumFiles) (hn : i ≠ p.newIdx)
    (hid : (st.files i).id ≠ 0) : st'.content i = st.content i := by
  have hpl := hp.placed hw hv.inRange
  obtain ⟨hl, hcur, _⟩ := hw.sizes i hi hid
  obtain ⟨hlo, hhi⟩ := hw.inside hi hid
  obtain ⟨flags, he⟩ := h.files_flags hi hn
  unfold Image.content
  rw [he]
  refine List.map_congr_left fun k hk => ?_
  have hk' : k < (st.files i).curSize := List.mem_range.mp hk
  show st'.data (st.files i).lblock ((st.files i).dataIdx + k) = _
  by_cases hc : (st.files i).lblock = p.fileMeta.lblock ∧ r.dataSize ≠ 0
  · obtain ⟨hlb, h0⟩ := hc
    -- it lies on one side of the file that is written
    have ht := h.tiling hp hw hv hl
    have hmem : i ∈ st'.filesIn cfg (st.files i).lblock :=
      (h.mem_filesIn hp hw hv).mpr (.inr ⟨hn, hw.mem_own hi hid⟩)
    have hnew : p.newIdx ∈ st'.filesIn cfg (st.files i).lblock :=
      (h.mem_filesIn hp hw hv).mpr (.inl ⟨rfl, hlb⟩)
    have hin := ht.inside i hmem
    have hap := ht.apart i hmem p.newIdx hnew hn
    rw [he] at hin
    rw [he, h.files_new hp.newIdx_lt, WritePlan.entry_dataIdx, WritePlan.entry_maxSize] at hap
    rw [if_pos hlb] at hin
    dsimp only at hin hap ⊢
    rw [hlb] at hlo ⊢
    rcases hap with hap | hap
    · exact h.before h0 _ (by omega) (by omega)
    · exact h.behind h0 _ (by omega) (by omega)
  · refine h.others _ hl ?_ _ (by omega) (by omega)
    by_cases hlb : (st.files i).lblock = p.fileMeta.lblock
    · exact .inr (not_not.mp fun h0 => hc ⟨hlb, h0⟩)
    · exact .inl hlb

theorem view_ne {i : Nat} (hi : i < cfg.maxNumFiles) (hn : i ≠ p.newIdx) (ho : i ≠ p.oldIdx)
    (hid : (st.files i).id ≠ 0) : st'.view i = st.view i := by
  have hc := h.content_ne hp hw hv hi hn hid
  unfold Image.view
  rw [hc, h.files_ne hi hn ho]

/-- The bytes of the written file that come before the new data. -/
theorem data_kept {k : Nat} (hk : k < if r.dataSize = 0 then p.fileMeta.curSize else r.offset) :
    k < (st.files p.newIdx).curSize ∧
      st'.data p.fileMeta.lblock (p.fileMeta.dataIdx + k) =
        st.data (st.files p.newIdx).lblock ((st.files p.newIdx).dataIdx + k) := by
  have hpl := hp.placed hw hv.inRange
  have hlt : k < p.fileMeta.curSize := by
    split_ifs at hk with h0
    · exact hk
    · have := (WritePlan.fits_le hv hp.fits h0).1
      omega
  rcases hp.takes_or_reuses with hr | hr
  · have hid : (st.files p.newIdx).id ≠ 0 := hr.id.symm ▸ hv.fid
    have hin := hw.inside hp.newIdx_lt hid
    have hsz := hw.sizes _ hp.newIdx_lt hid
    have hle := hr.curSize_le
    have hlo := hpl.le_dataIdx
    refine ⟨by omega, ?_⟩
    rw [← hr.lblock, ← hr.dataIdx] at hin ⊢
    split_ifs at hk with h0
    · exact h.others _ hpl.lblock_lt (.inr h0) _ (by omega) (by omega)
    · exact h.before h0 _ (by omega) (by omega)
  · rw [hr.curSize] at hlt
    exact absurd hlt (Nat.not_lt_zero k)

/-- The written file shows what came before the new data, and the data. -/
theorem content_new (hlast : r.dataSize ≠ 0 → p.fileMeta.curSize ≤ r.offset + r.dataSize) :
    st'.content p.newIdx =
      (st.content p.newIdx).take (if r.dataSize = 0 then p.fileMeta.curSize else r.offset) ++
        (List.range r.dataSize).map r.data := by
  have hpl := hp.placed hw hv.inRange
  have hmax := hpl.maxSize_le
  have hmlt := cfg.maxFileSize_lt
  have hcur : (p.entry r).curSize =
      (if r.dataSize = 0 then p.fileMeta.curSize else r.offset) + r.dataSize := by
    rw [WritePlan.entry_curSize hv hp.fits (by omega)]
    split_ifs with h0
    · rw [h0, Nat.add_zero]
    · exact max_eq_right (hlast h0)
  have hkept := fun k hk => h.data_kept hp hw hv (k := k) hk
  generalize hcut : (if r.dataSize = 0 then p.fileMeta.curSize else r.offset) = cut at hcur hkept ⊢
  have hle : cut ≤ (st.files p.newIdx).curSize := by
    rcases Nat.eq_zero_or_pos cut with h0 | hpos
    · omega
    · have := (hkept (cut - 1) (by omega)).1
      omega
  unfold Image.content
  rw [h.files_new hp.newIdx_lt, hcur, WritePlan.entry_lblock, WritePlan.entry_dataIdx,
    List.range_add, List.map_append, ← List.map_take, List.take_range, min_eq_left hle,
    List.map_map]
  congr 1
  · exact List.map_congr_left fun k hk => (hkept k (List.mem_range.mp hk)).2
  · refine List.map_congr_left fun k hk => ?_
    rw [List.mem_range] at hk
    have h0 : r.dataSize ≠ 0 := by omega
    have hn := h.new h0 k (lt_of_lt_of_le hk (WritePlan.fits_le hv hp.fits h0).2.1)
    rw [if_neg h0] at hcut
    rw [hcut] at hn
    rw [Function.comp_apply, ← Nat.add_assoc]
    exact hn

/-! ## Between operations, and inside a replacement -/

omit hp hw hv in
theorem id_ne {i : Nat} (hi : i < cfg.maxNumFiles) (hn : i ≠ p.newIdx) :
    (st'.files i).id = (st.files i).id := by
  obtain ⟨flags, he⟩ := h.files_flags hi hn
  rw [he]

/-- Without a replacement, the filesystem is closed after the write. -/
theorem closed (hc : st.Closed cfg) (hr : ¬ p.Replaces cfg st r) : st'.Closed cfg := by
  have hpl := hp.placed hw hv.inRange
  -- no other file has the id of the request
  have hother : ∀ i, i < cfg.maxNumFiles → i ≠ p.newIdx → (st.files i).id ≠ r.fid := by
    intro i hi hn he
    rcases hp.kind with hk | hk | hk
    · exact hn (hc.unique i p.newIdx hi hp.newIdx_lt (he ▸ hv.fid) (he.trans hk.id.symm))
    · exact hk.absent i hi he
    · exact hr hk
  have hnotold : ∀ i, i < cfg.maxNumFiles → i ≠ p.newIdx → i ≠ p.oldIdx := by
    rintro i hi hn rfl
    rcases hp.kind with hk | hk | hk
    · exact hn hk.oldIdx
    · have ho := hk.oldIdx
      have hmax := cfg.maxNumFiles_lt
      unfold metadataInvalidIndex at ho
      omega
    · exact hr hk
  refine ⟨fun i j hi hj hid he => ?_, fun i hi => ?_, fun h0 => ?_⟩
  · by_cases hin : i = p.newIdx
    · by_cases hjn : j = p.newIdx
      · rw [hin, hjn]
      · subst hin
        rw [h.id_new hp hw hv, h.id_ne hj hjn] at he
        exact absurd he.symm (hother j hj hjn)
    · rw [h.id_ne hi hin] at hid he
      by_cases hjn : j = p.newIdx
      · subst hjn
        rw [h.id_new hp hw hv] at he
        exact absurd he (hother i hi hin)
      · rw [h.id_ne hj hjn] at he
        exact hc.unique i j hi hj hid he
  · unfold Image.Marked
    by_cases hn : i = p.newIdx
    · rw [hn, h.files_new hp.newIdx_lt, WritePlan.entry_flags]
      refine not_not.mpr ?_
      rcases hp.takes_or_reuses with hk | hk
      · rw [hk.fileMeta]
        split_ifs
        · exact and_flagDelete hp.flags
        · exact not_not.mp (hc.unmarked _ hp.newIdx_lt)
      · rw [hk.fileMeta]
        exact and_flagDelete hp.flags
    · rw [h.files_ne hi hn (hnotold i hi hn)]
      exact hc.unmarked i hi
  · rcases hp.kind with hk | hk | hk
    · obtain ⟨i, hi, hid⟩ := hc.spare h0
      have hn : i ≠ p.newIdx := by
        rintro rfl
        exact hv.fid (hk.id.symm.trans hid)
      exact ⟨i, hi, (h.id_ne hi hn).trans hid⟩
    · obtain ⟨i, hi, hn, hid⟩ := hk.spare
      exact ⟨i, hi, (h.id_ne hi hn).trans hid⟩
    · exact absurd hk hr

/-- A replaced file is still to be deleted. -/
theorem pending (hc : st.Closed cfg) (hr : p.Replaces cfg st r) : st'.Pending cfg p.oldIdx := by
  have hne : p.oldIdx ≠ p.newIdx := by
    intro he
    exact hv.fid (hr.id.symm.trans (he ▸ hr.free))
  refine ⟨hr.oldIdx_lt, ?_, fun i hi => ?_, fun i j hi hj hin hjn hid he => ?_⟩
  · rw [h.id_ne hr.oldIdx_lt hne, hr.id]
    exact hv.fid
  · unfold Image.Marked
    by_cases ho : i = p.oldIdx
    · rw [ho, h.files_old hr.oldIdx_lt hne]
      exact iff_of_true (FileMeta.mark_marked _) rfl
    · refine iff_of_false (not_not.mpr ?_) ho
      by_cases hn : i = p.newIdx
      · rw [hn, h.files_new hp.newIdx_lt, WritePlan.entry_flags, hr.fileMeta]
        exact and_flagDelete hp.flags
      · rw [h.files_ne hi hn ho]
        exact not_not.mp (hc.unmarked i hi)
  · -- only the old file has the id of the new one
    have hother : ∀ k, k < cfg.maxNumFiles → k ≠ p.oldIdx → (st.files k).id ≠ r.fid :=
      fun k hk hko he => hko (hc.unique k p.oldIdx hk hr.oldIdx_lt (he ▸ hv.fid)
        (he.trans hr.id.symm))
    by_cases hi' : i = p.newIdx
    · by_cases hj' : j = p.newIdx
      · rw [hi', hj']
      · rw [hi', h.id_new hp hw hv, h.id_ne hj hj'] at he
        exact absurd he.symm (hother j hj hjn)
    · rw [h.id_ne hi hi'] at hid he
      by_cases hj' : j = p.newIdx
      · rw [hj', h.id_new hp hw hv] at he
        exact absurd he (hother i hi hin)
      · rw [h.id_ne hj hj'] at he
        exact hc.unique i j hi hj hid he

/-- A plan leads to one filesystem. -/
theorem same {st₁ : Image} (h₁ : WriteStep cfg s st r p st₁) : st'.Same cfg st₁ := by
  have hpl := hp.placed hw hv.inRange
  have hlb := hpl.lblock_lt
  have hb : ∀ l, l < numActiveDblocks cfg → st₁.blocks l = st'.blocks l := fun l hl =>
    (h₁.blocks l hl).trans (h.blocks l hl).symm
  refine ⟨h₁.version.trans h.version.symm, h₁.scratch.trans h.scratch.symm, hb,
    fun i hi => (h₁.files i hi).trans (h.files i hi).symm, fun l hl o ho₁ ho₂ => ?_⟩
  have hend : st'.dataEnd cfg l ≤ cfg.blockSize := by
    unfold Image.dataEnd
    omega
  rw [h.dataStart hl] at ho₁
  by_cases hcase : l ≠ p.fileMeta.lblock ∨ r.dataSize = 0
  · -- the block keeps its data, apart from what a new file takes
    by_cases ho : o < st.dataEnd cfg l
    · rw [h₁.others l hl hcase o ho₁ ho, h.others l hl hcase o ho₁ ho]
    by_cases hl' : l = p.fileMeta.lblock
    · subst hl'
      have h0 := hcase.resolve_left (not_not_intro rfl)
      rw [h₁.fresh h0 o (by omega) (by omega), h.fresh h0 o (by omega) (by omega)]
    · unfold Image.dataEnd at ho ho₂
      rw [h.freeSize_eq hl, if_neg hl'] at ho₂
      exact absurd ho₂ ho
  · rw [not_or, not_not] at hcase
    obtain ⟨rfl, h0⟩ := hcase
    obtain ⟨_, _, hfit⟩ := WritePlan.fits_le hv hp.fits h0
    unfold Image.dataEnd at ho₂
    rw [h.freeSize_eq hl, if_pos rfl] at ho₂
    by_cases hb₁ : o < p.fileMeta.dataIdx + r.offset
    · rw [h₁.before h0 o ho₁ hb₁, h.before h0 o ho₁ hb₁]
    by_cases hb₂ : o < p.fileMeta.dataIdx + r.offset + r.size cfg
    · have hk : o - (p.fileMeta.dataIdx + r.offset) < r.size cfg := by omega
      have he : p.fileMeta.dataIdx + r.offset + (o - (p.fileMeta.dataIdx + r.offset)) = o := by
        omega
      have hnew := (h₁.new h0 _ hk).trans (h.new h0 _ hk).symm
      rwa [he] at hnew
    by_cases hb₃ : o < p.fileMeta.dataIdx + p.fileMeta.maxSize
    · rw [h₁.gap h0 o (by omega) hb₃, h.gap h0 o (by omega) hb₃]
    · rw [h₁.behind h0 o (by omega) ho₂, h.behind h0 o (by omega) ho₂]

end WriteStep

end Etss
