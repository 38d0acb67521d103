import TfmExtras.Etss.ErrorKeeps

/-! The sizes of a write at the limits of `size_t`. Rounding a size in the last program unit below
2^32 wraps to zero, and the checks are then made on zero. -/

namespace Etss
open NorFlash NorFlash.Flash FlashM

variable {cfg : Config} {st st' st₁ : Image} {a s x k : Nat} {c : Ctx} {fl : Flash} {r : WriteReq}
  {p : WritePlan}

/-! ## Rounding up -/

/-- `x` rounded up to a multiple of `u`, without wrap-around. -/
def roundUp (x u : Nat) : Nat := (x + (u - 1)) / u * u

theorem utilsAlign_eq_roundUp (h : AlignFits x (2 ^ k)) (hk : k < 32) :
    utilsAlign x (2 ^ k) = roundUp x (2 ^ k) := by
  have hdiv := Nat.div_add_mod' (x + (2 ^ k - 1)) (2 ^ k)
  rw [utilsAlign_two_pow h hk]
  unfold roundUp
  omega

/-- A size fits exactly when rounding it up stays below 2^32. -/
theorem alignFits_iff_roundUp (hk : k < 32) : AlignFits x (2 ^ k) ↔ roundUp x (2 ^ k) < 2 ^ 32 := by
  have hp : 1 ≤ 2 ^ k := Nat.one_le_two_pow
  have hlt : 2 ^ k < 2 ^ 32 := Nat.pow_lt_pow_right (by decide) hk
  constructor
  · intro h
    rw [← utilsAlign_eq_roundUp h hk]
    exact utilsAlign_lt _ _
  · intro h
    unfold AlignFits
    rw [sub32_eq hlt hp]
    by_contra hn
    rw [not_lt] at hn
    obtain ⟨q, hq⟩ : 2 ^ k ∣ 2 ^ 32 := Nat.pow_dvd_pow 2 hk.le
    have hle : q ≤ (x + (2 ^ k - 1)) / 2 ^ k := by
      rw [Nat.le_div_iff_mul_le (by omega), Nat.mul_comm, ← hq]
      exact hn
    have hmul := Nat.mul_le_mul_right (2 ^ k) hle
    rw [Nat.mul_comm q, ← hq] at hmul
    exact absurd h (not_lt.mpr hmul)

theorem utilsAlign_zero (hk : k < 32) : utilsAlign 0 (2 ^ k) = 0 := by
  have hp := Nat.two_pow_pos k
  rw [utilsAlign_eq_roundUp (alignFits_zero _) hk]
  unfold roundUp
  rw [Nat.zero_add, Nat.div_eq_of_lt (Nat.sub_lt hp Nat.one_pos), Nat.zero_mul]

/-! ## What a write promises of the sizes -/

/-- The write makes a file, or replaces one by one of another size. -/
def Image.MakesEntry (cfg : Config) (st : Image) (r : WriteReq) : Prop :=
  st.fileMap cfg r.fid = none ∨ st.ReplacesFile cfg r

/-- The maximum size of the file after the write. -/
def Image.sizeLeft (cfg : Config) (st : Image) (r : WriteReq) : Nat :=
  match st.fileMap cfg r.fid with
  | some v => if r.flags &&& flagTruncate ≠ 0 then r.max cfg else v.maxSize
  | none => r.max cfg

/-- The bytes that the update of a write commits: the data, rounded up to the program unit, in a
file that has room for it, and erased bytes behind them. -/
def BytesStored (cfg : Config) (r : WriteReq) (st : Image) : Prop :=
  ∃ i < cfg.maxNumFiles, (st.files i).id = r.fid ∧
    r.offset + roundUp r.dataSize cfg.programUnit ≤ (st.files i).maxSize ∧
    (∀ k < roundUp r.dataSize cfg.programUnit,
      st.data (st.files i).lblock ((st.files i).dataIdx + r.offset + k) = r.data k) ∧
    ∀ k, r.offset + roundUp r.dataSize cfg.programUnit ≤ k → k < (st.files i).maxSize →
      st.data (st.files i).lblock ((st.files i).dataIdx + k) = cfg.eraseVal

/-- What a write that succeeds promises: the data ends within the file, it is stored as a whole,
the entries are valid, and every file can be looked up. -/
structure LimitsHold (cfg : Config) (r : WriteReq) (c : Ctx) (fl : Flash) : Prop where
  within : ∃ info, infoAnswer cfg ((FsCall.write r).after cfg c fl).ctx
      ((FsCall.write r).after cfg c fl).flash r.fid = .ok info ∧
    r.offset + r.dataSize ≤ info.sizeMax
  stored : r.dataSize ≠ 0 → BytesStored cfg r
    (mountedImage cfg ((fileWriteUpdate cfg r).run cfg.eraseVal c fl).ctx
      ((fileWriteUpdate cfg r).run cfg.eraseVal c fl).flash)
  valid : ∀ i < cfg.maxNumFiles, mblockValidateFileMeta cfg ((mountedImage cfg
    ((FsCall.write r).after cfg c fl).ctx ((FsCall.write r).after cfg c fl).flash).files i) = .ok ()
  lookups : ∀ fid, fid ≠ 0 → infoAnswer cfg ((FsCall.write r).after cfg c fl).ctx
      ((FsCall.write r).after cfg c fl).flash fid =
    Image.infoOf ((mountedImage cfg ((FsCall.write r).after cfg c fl).ctx
      ((FsCall.write r).after cfg c fl).flash).fileMap cfg fid)

/-- And a new entry has at most the largest size that a file can have. -/
structure SizesHold (cfg : Config) (r : WriteReq) (c : Ctx) (fl : Flash) : Prop
    extends LimitsHold cfg r c fl where
  max_le : (mountedImage cfg c fl).MakesEntry cfg r → r.maxSize ≤ cfg.maxFileSize

/-- Rounding up does not wrap for a size that is used, and an empty write has its offset in the
file. -/
structure SizesFit (cfg : Config) (st : Image) (r : WriteReq) : Prop where
  dataSize : AlignFits r.dataSize cfg.programUnit
  maxSize : st.MakesEntry cfg r → AlignFits r.maxSize cfg.programUnit
  offset : r.dataSize = 0 → r.offset ≤ st.sizeLeft cfg r

/-! ## A write that does not wrap -/

section
variable (h : Store cfg c fl) (hv : r.Valid cfg)
include h hv

/-- The first update of a write commits its step. -/
theorem Store.update_spec (hp : (mountedImage cfg c fl).writePlan cfg r = .ok p) :
    ∃ st₁, WriteStep cfg c.scratchMetablock (mountedImage cfg c fl) r p st₁ ∧
      st₁.Same cfg (mountedImage cfg ((fileWriteUpdate cfg r).run cfg.eraseVal c fl).ctx
        ((fileWriteUpdate cfg r).run cfg.eraseVal c fl).flash) := by
  have hs : Starts cfg fl c.activeMetablock c.scratchMetablock False c := h.starts False.elim
  have hb := h.toMounted.before
  obtain ⟨x, c₁, fl₁, fl₂, _, _, hst⟩ := hs.writeStages hb hv hp
  obtain ⟨_, _, _, st₁, hof, hsame⟩ := Updated.mounted ⟨fl₂, _, hst.staged, rfl, rfl⟩ h.accepted
    h.active_le h.scratch hst.wf
  unfold fileWriteUpdate
  rw [hst.update_run]
  exact ⟨st₁, WriteStep.plan_eq hp hof, hsame⟩

theorem Store.bytesStored (hu : ∃ k, cfg.programUnit = 2 ^ k)
    (hp : (mountedImage cfg c fl).writePlan cfg r = .ok p) (h0 : r.dataSize ≠ 0) :
    BytesStored cfg r (mountedImage cfg ((fileWriteUpdate cfg r).run cfg.eraseVal c fl).ctx
      ((fileWriteUpdate cfg r).run cfg.eraseVal c fl).flash) := by
  obtain ⟨st₁, hst, hs⟩ := h.update_spec hv hp
  generalize (fileWriteUpdate cfg r).run cfg.eraseVal c fl = out at hs ⊢
  have hsound := h.wf.writePlan_sound h.accepted h.active_le hp
  have hwf := hst.wf hsound h.wf hv h.accepted
  have hnew := hst.files_new hsound.newIdx_lt
  have hid := hst.id_new hsound h.wf hv
  have hl := (hwf.sizes _ hsound.newIdx_lt (hid.trans_ne hv.fid)).1
  obtain ⟨hlo, hhi⟩ := hwf.inside hsound.newIdx_lt (hid.trans_ne hv.fid)
  have hfit := (WritePlan.fits_le hv hsound.fits h0).2.2
  have hsize : r.size cfg = roundUp r.dataSize cfg.programUnit := by
    obtain ⟨k, hk⟩ := hu
    have hd := hv.dataSize
    unfold WriteReq.size
    rw [hk] at hd ⊢
    exact utilsAlign_eq_roundUp hd (programUnit_exp_lt hk)
  rw [hnew] at hl hlo hhi
  simp only [WritePlan.entry_lblock, WritePlan.entry_dataIdx, WritePlan.entry_maxSize] at hl hlo hhi
  refine ⟨p.newIdx, hsound.newIdx_lt, ?_, ?_, fun k hk => ?_, fun k h₁ h₂ => ?_⟩
  all_goals rw [hs.files _ hsound.newIdx_lt]
  · exact hid
  · rw [hnew, WritePlan.entry_maxSize, ← hsize]
    exact hfit
  · rw [hnew, WritePlan.entry_lblock, WritePlan.entry_dataIdx]
    rw [← hsize] at hk
    rw [hs.data _ hl _ (by omega) (by omega)]
    exact hst.new h0 k hk
  · rw [hs.files _ hsound.newIdx_lt, hnew, WritePlan.entry_maxSize] at h₂
    rw [hnew, WritePlan.entry_lblock, WritePlan.entry_dataIdx]
    rw [← hsize] at h₁
    rw [hs.data _ hl _ (by omega) (by omega)]
    exact hst.gap h0 _ (by omega) (by omega)

/-- What the callers are told of the file once it is written. -/
theorem Store.info_written (hok : ((FsCall.write r).after cfg c fl).status = .ok ()) :
    ∃ p info, (mountedImage cfg c fl).writePlan cfg r = .ok p ∧
      infoAnswer cfg ((FsCall.write r).after cfg c fl).ctx
        ((FsCall.write r).after cfg c fl).flash r.fid = .ok info ∧
      info.sizeMax = (mountedImage cfg c fl).sizeLeft cfg r ∧ info.sizeMax = p.fileMeta.maxSize := by
  have hs := h.call_spec (f := .write r) hv
  generalize (FsCall.write r).after cfg c fl = out at hs hok ⊢
  obtain ⟨res, c', fl'⟩ := out
  obtain rfl : res = .ok () := hok
  rcases hs.effect.written h.wf h.accepted h.active_le hv h.closed with
    ⟨e, he, _⟩ | ⟨_, p, st₁, hp, hst, hw⟩
  · cases he
  have hsound := h.wf.writePlan_sound h.accepted h.active_le hp
  have hmax : (st₁.view p.newIdx).maxSize = p.fileMeta.maxSize := by
    show (st₁.files p.newIdx).maxSize = _
    rw [hst.files_new hsound.newIdx_lt, WritePlan.entry_maxSize]
  refine ⟨p, _, hp, (hs.store.infoAnswer_eq hv.fid).trans hw.own, ?_, hmax⟩
  show (st₁.view p.newIdx).maxSize = _
  rw [hmax]
  unfold Image.sizeLeft
  have hfind : ∀ i, i < cfg.maxNumFiles → ((mountedImage cfg c fl).files i).id = r.fid →
      (mountedImage cfg c fl).fileMap cfg r.fid = some ((mountedImage cfg c fl).view i) :=
    fun i hi hid => by
      rw [← hid]
      exact h.closed.fileMap_some hi (hid.trans_ne hv.fid)
  rcases hsound.kind with hk | hk | hk
  · rw [hfind _ hsound.newIdx_lt hk.id, hk.maxSize_eq]
    dsimp only
    split_ifs with htr
    · exact hk.maxSize htr
    · rfl
  · rw [Image.fileMap_eq_none fun i hi he => absurd he (hk.absent i hi), hk.toTakes.maxSize]
  · rw [hfind _ hk.oldIdx_lt hk.id, hk.toTakes.maxSize]
    dsimp only
    rw [if_pos hk.truncate]

theorem Store.limitsHold (hu : ∃ k, cfg.programUnit = 2 ^ k)
    (hok : ((FsCall.write r).after cfg c fl).status = .ok ())
    (ho : r.dataSize = 0 → r.offset ≤ (mountedImage cfg c fl).sizeLeft cfg r) :
    LimitsHold cfg r c fl := by
  obtain ⟨p, info, hp, hi, hleft, hmax⟩ := h.info_written hv hok
  have hst := (h.call_spec (f := .write r) hv).store
  have hsound := h.wf.writePlan_sound h.accepted h.active_le hp
  refine ⟨⟨info, hi, ?_⟩, h.bytesStored hv hu hp, fun i hi => hst.wf.validateFileMeta h.accepted hi,
    fun fid hf => hst.infoAnswer_eq hf⟩
  by_cases h0 : r.dataSize = 0
  · rw [h0, hleft]
    exact ho h0
  · obtain ⟨_, h₂, h₃⟩ := WritePlan.fits_le hv hsound.fits h0
    omega

end

/-! ## Every write -/

/-- Only the rounded maximum size counts. -/
theorem exec_of_max {n : Nat} (hn : utilsAlign n cfg.programUnit = r.max cfg) :
    (FsCall.write { r with maxSize := n }).exec cfg = (FsCall.write r).exec cfg ∧
      fileWriteUpdate cfg { r with maxSize := n } = fileWriteUpdate cfg r := by
  have hstage : fileWriteStage cfg { r with maxSize := n } = fileWriteStage cfg r := by
    unfold fileWriteStage
    rw [show WriteReq.max cfg { r with maxSize := n } = r.max cfg from hn]
  constructor
  · have h₁ := fileWrite_eq cfg { r with maxSize := n }
    rw [hstage] at h₁
    exact h₁.trans (fileWrite_eq cfg r).symm
  · unfold fileWriteUpdate
    rw [hstage]
    rfl

theorem after_of_max {n : Nat} (hn : utilsAlign n cfg.programUnit = r.max cfg) (c : Ctx)
    (fl : Flash) : (FsCall.write { r with maxSize := n }).after cfg c fl = (FsCall.write r).after cfg c fl ∧
      fileWriteUpdate cfg { r with maxSize := n } = fileWriteUpdate cfg r := by
  obtain ⟨hexec, hupdate⟩ := exec_of_max hn
  refine ⟨?_, hupdate⟩
  unfold FsCall.after
  rw [hexec]

theorem Image.writePlan_of_max {n : Nat} (hn : utilsAlign n cfg.programUnit = r.max cfg) :
    st.writePlan cfg { r with maxSize := n } = st.writePlan cfg r := by
  unfold writePlan writeTarget writeReserve
  rw [show WriteReq.max cfg { r with maxSize := n } = r.max cfg from hn]
  rfl

/-- Up to a maximum size that rounds to the same, the request is valid if its data fits. -/
theorem WriteReq.InRange.valid (h : r.InRange) (hu : cfg.programUnit = 2 ^ k)
    (hd : AlignFits r.dataSize cfg.programUnit) :
    ∃ n, utilsAlign n cfg.programUnit = r.max cfg ∧
      ({ r with maxSize := n } : WriteReq).Valid cfg := by
  by_cases hm : AlignFits r.maxSize cfg.programUnit
  · exact ⟨r.maxSize, rfl, h.fid, h.flags_lt, h.offset_lt, hm, hd⟩
  · have hk := programUnit_exp_lt hu
    refine ⟨0, ?_, h.fid, h.flags_lt, h.offset_lt, ?_, hd⟩
    · unfold WriteReq.max
      rw [hu] at hm ⊢
      rw [utilsAlign_zero hk, utilsAlign_wrap h.maxSize_lt hm hk]
    · exact alignFits_zero _

theorem sizeLeft_of_max {n : Nat} (hn : utilsAlign n cfg.programUnit = r.max cfg) :
    st.sizeLeft cfg { r with maxSize := n } = st.sizeLeft cfg r := by
  unfold Image.sizeLeft
  rw [show WriteReq.max cfg { r with maxSize := n } = r.max cfg from hn]

theorem LimitsHold.of_max {n : Nat} (hn : utilsAlign n cfg.programUnit = r.max cfg)
    (hl : LimitsHold cfg { r with maxSize := n } c fl) : LimitsHold cfg r c fl := by
  obtain ⟨hafter, hupdate⟩ := after_of_max hn c fl
  obtain ⟨hw, hs, hv, hlook⟩ := hl
  rw [hafter] at hw hv hlook
  rw [hupdate] at hs
  exact ⟨hw, hs, hv, hlook⟩

/-- A new entry is at most as large as a file can be. -/
theorem Store.maxSize_le (h : Store cfg c fl) (hv : r.Valid cfg)
    (hp : (mountedImage cfg c fl).writePlan cfg r = .ok p)
    (hm : (mountedImage cfg c fl).MakesEntry cfg r) : r.maxSize ≤ cfg.maxFileSize := by
  have hsound := h.wf.writePlan_sound h.accepted h.active_le hp
  rcases hsound.takes_or_reuses with hk | hk
  · -- the entry of the file is not reused
    exfalso
    rcases hm with hn | ⟨htr, i, hi, hid, hne⟩
    · have hs := h.closed.fileMap_some hsound.newIdx_lt (hk.id.trans_ne hv.fid)
      rw [hk.id, hn] at hs
      cases hs
    · obtain rfl := h.closed.unique _ _ hi hsound.newIdx_lt (hid.trans_ne hv.fid)
        (hid.trans hk.id.symm)
      exact hne (hk.maxSize htr)
  · exact (le_utilsAlign hv.maxSize).trans hk.max_le

/-- A write that succeeds keeps its promises exactly when rounding up does not wrap for a size that
is used, and an empty write has its offset in the file. -/
theorem fileWrite_sizes_iff (h : Store cfg c fl) (hu : ∃ k, cfg.programUnit = 2 ^ k)
    (hr : r.InRange) (hok : ((FsCall.write r).after cfg c fl).status = .ok ()) :
    SizesHold cfg r c fl ↔ SizesFit cfg (mountedImage cfg c fl) r := by
  obtain ⟨k, hk⟩ := hu
  have hk32 := programUnit_exp_lt hk
  constructor
  · intro hs
    have hd : AlignFits r.dataSize cfg.programUnit := by
      by_cases h0 : r.dataSize = 0
      · rw [h0]
        exact alignFits_zero _
      · obtain ⟨i, _, _, hle, _⟩ := hs.stored h0
        have hlt := (image_files_inRange cfg
          ((fileWriteUpdate cfg r).run cfg.eraseVal c fl).flash
          ((fileWriteUpdate cfg r).run cfg.eraseVal c fl).ctx.activeMetablock i).maxSize
        rw [hk] at hle ⊢
        refine (alignFits_iff_roundUp hk32).mpr (lt_of_le_of_lt ?_ hlt)
        exact (Nat.le_add_left _ _).trans hle
    refine ⟨hd, fun hm => ?_, fun h0 => ?_⟩
    · have hle := hs.max_le hm
      have h₁ := cfg.maxFileSize_lt
      have h₂ := cfg.programUnit_lt
      have h₃ : 1 ≤ cfg.programUnit := hk ▸ Nat.one_le_two_pow
      show r.maxSize + sub32 cfg.programUnit 1 < 2 ^ 32
      rw [sub32_eq (by omega) h₃]
      omega
    · obtain ⟨n, hn, hv⟩ := hr.valid hk hd
      obtain ⟨info, hi, hle⟩ := hs.within
      obtain ⟨_, info', _, hi', hleft, _⟩ := h.info_written hv (by rwa [(after_of_max hn c fl).1])
      rw [(after_of_max hn c fl).1, hi] at hi'
      obtain rfl := Except.ok.inj hi'
      rw [hleft, sizeLeft_of_max hn, h0] at hle
      exact hle
  · intro hf
    obtain ⟨n, hn, hv⟩ := hr.valid hk hf.dataSize
    refine ⟨.of_max hn (h.limitsHold hv ⟨k, hk⟩ ?_ ?_), fun hm => ?_⟩
    · rwa [(after_of_max hn c fl).1]
    · rw [sizeLeft_of_max hn]
      exact hf.offset
    · have hv' : r.Valid cfg := ⟨hr.fid, hr.flags_lt, hr.offset_lt, hf.maxSize hm, hf.dataSize⟩
      obtain ⟨p, _, hp, _⟩ := h.info_written hv' hok
      exact h.maxSize_le hv' hp hm

/-- A file of twelve bytes, and one that is empty. -/
theorem fileWrite_sizes_iff_fourBytes :
    SizesHold fiveBlocks { fourBytes with maxSize := 12 } (formatted fiveBlocks).ctx
        (formatted fiveBlocks).flash ↔
      SizesFit fiveBlocks (mountedImage fiveBlocks (formatted fiveBlocks).ctx
        (formatted fiveBlocks).flash) { fourBytes with maxSize := 12 } :=
  fileWrite_sizes_iff (format_spec fiveBlocks_accepted Ctx.zero ⟨[]⟩).2.1 ⟨2, rfl⟩
    ⟨by decide, by decide, by decide, by decide, by decide⟩ (by decide +kernel)

/-- A size in the last program unit: nothing is stored, and the entry that is committed is not
valid. -/
def hugeWrite : WriteReq := ⟨2, 0, 0, 2 ^ 32 - 1, 0, UInt8.ofNat⟩

theorem not_sizesHold : Store fiveBlocks twoFiles.1 twoFiles.2 ∧ hugeWrite.InRange ∧
    ((FsCall.write hugeWrite).after fiveBlocks twoFiles.1 twoFiles.2).status = .ok () ∧
    ¬ SizesHold fiveBlocks hugeWrite twoFiles.1 twoFiles.2 := by
  refine ⟨store_twoFiles, ⟨by decide, by decide, by decide, by decide, by decide⟩,
    by decide +kernel, fun h => ?_⟩
  exact absurd (h.valid 2 (by decide)) (by decide +kernel)

end Etss
