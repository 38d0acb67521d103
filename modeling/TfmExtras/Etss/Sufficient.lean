import TfmExtras.Etss.Admission

/-! A configuration that is accepted is good enough: the tables of a metadata block lie inside the
block, and on a new filesystem a file of any size up to the limit is made, written and read. -/

namespace Etss
open NorFlash NorFlash.Flash FlashM

variable {cfg : Config} {st : Image} {c c' : Ctx} {fl fl' : Flash} {fid : Fid}
  {r : WriteReq} {n : Nat} {data : Nat → UInt8}

/-! ## The layout -/

/-- The tables of a metadata block lie inside the block, and the data of logical block 0 starts at
the end of the block at the latest; the two counts of the logical blocks agree. -/
structure LayoutInside (cfg : Config) : Prop where
  count : flashFsNumActiveDblocks cfg = numActiveDblocks cfg
  blocks : ∀ l < numActiveDblocks cfg, blockMetaHeaderSize ≤ mblockBlockMetaOffset l ∧
    mblockBlockMetaOffset l + blockMetadataSize ≤ mblockFileMetaOffset cfg 0
  files : ∀ i < cfg.maxNumFiles, mblockFileMetaOffset cfg 0 ≤ mblockFileMetaOffset cfg i ∧
    mblockFileMetaOffset cfg i + fileMetadataSize ≤ mblockFileMetaOffset cfg cfg.maxNumFiles
  data : mblockFileMetaOffset cfg cfg.maxNumFiles ≤ cfg.blockSize

theorem Config.Accepted.layoutInside (h : cfg.Accepted) : LayoutInside cfg where
  count := by
    have hlt := cfg.numBlocks_lt
    rw [h.numActive_eq, flashFsNumActiveDblocks]
    split_ifs with h2
    · rfl
    · exact sub32_eq (by omega) h.two_le_numBlocks
  blocks l hl := by
    rw [h.blockOffset_eq hl.le, h.fileOffset_eq (Nat.zero_le _)]
    unfold blockMetaHeaderSize blockMetadataSize Config.fileEntry Config.filesStart
    omega
  files i hi := by
    rw [h.fileOffset_eq hi.le, h.fileOffset_eq (Nat.zero_le _), h.fileOffset_eq le_rfl]
    unfold fileMetadataSize Config.fileEntry
    omega
  data := by
    rw [h.fileOffset_eq le_rfl]
    exact h.metaEnd_le

/-- Two blocks leave room for a file behind the tables. -/
theorem Config.Accepted.maxFileSize_le_data (h : cfg.Accepted) (h2 : cfg.numBlocks = 2) :
    cfg.maxFileSize ≤ cfg.blockSize - cfg.metaEnd := by
  have hend := h.metaEnd_le
  have hs := flashFsAllMetadataSize_eq h.numBlocks_cases
  unfold Config.Accepted flashFsValidateConfig at h
  split_ifs at h with hc
  simp only [not_or, not_and, Nat.not_lt] at hc
  have hle := hc.2.1 h2
  rwa [hs, sub32_eq cfg.blockSize_lt hend] at hle

/-! ## The first file -/

/-- An empty filesystem has room for a file of any size. -/
theorem Image.IsEmpty.room (h : st.IsEmpty cfg) (hacc : cfg.Accepted)
    (hfiles : 2 ≤ cfg.maxNumFiles) {size need : Nat} (hsize : size ≤ cfg.maxFileSize)
    (hneed : need ≤ 2) : ¬ st.NoRoom cfg size need := by
  rintro (hall | hlt)
  · rcases hacc.numBlocks_cases with h2 | h4
    · have hfree := hall 0 hacc.numActive_pos
      rw [h.blocks 0 hacc.numActive_pos] at hfree
      have hfree : cfg.blockSize - cfg.metaEnd < size := hfree
      exact absurd (hsize.trans (hacc.maxFileSize_le_data h2)) (Nat.not_le.mpr hfree)
    · have h1 : 1 < numActiveDblocks cfg := by
        rw [hacc.numActive_eq]
        split_ifs <;> omega
      have hfree := hall 1 h1
      rw [h.blocks 1 h1] at hfree
      have hfree : cfg.blockSize < size := hfree
      exact absurd (hsize.trans hacc.maxFileSize_le) (Nat.not_le.mpr hfree)
  · have htwo : 2 ≤ st.freeEntries cfg := two_le_freeEntries.mpr
      ⟨0, 1, Nat.zero_lt_one, hfiles, by rw [h.files 0 (by omega)]; rfl,
        by rw [h.files 1 (by omega)]; rfl⟩
    omega

/-- The call succeeds, and the file has the bytes that were written. -/
structure ReadsBack (cfg : Config) (fid : Fid) (n : Nat) (data : Nat → UInt8)
    (out : Outcome Ctx Status Unit) : Prop where
  ok : out.status = .ok ()
  data : readAnswer cfg out.ctx out.flash fid n 0 = .ok ((List.range n).map data)

theorem Mounted.readAnswer_all (h : Mounted cfg c fl) (hf : fid ≠ 0) {flags maxSize : Nat}
    (hm : (mountedImage cfg c fl).fileMap cfg fid =
      some ⟨flags, maxSize, n, (List.range n).map data⟩) :
    readAnswer cfg c fl fid n 0 = .ok ((List.range n).map data) := by
  have hin : utilsCheckContainedIn n 0 n = .ok () :=
    utilsCheckContainedIn_eq_ok.mpr (Nat.zero_add n).le
  have hlen : ((List.range n).map data).length = n := by
    rw [List.length_map, List.length_range]
  rw [h.readAnswer_eq hf, hm]
  show (utilsCheckContainedIn n 0 n).map _ = _
  rw [hin, List.drop_zero]
  exact congrArg Except.ok (List.take_of_length_le hlen.le)

/-- A file that is made on an empty filesystem, with its first part. -/
theorem Store.creates (h : Store cfg c fl) (he : (mountedImage cfg c fl).IsEmpty cfg)
    (hfiles : 2 ≤ cfg.maxNumFiles) (hv : r.Valid cfg) (hflags : r.flags &&& internalFlagsMask = 0)
    (hcr : r.flags &&& flagCreate ≠ 0) (hmax : r.max cfg ≤ cfg.maxFileSize) (ho : r.offset = 0)
    (hfit : r.size cfg ≤ r.max cfg) :
    Store cfg ((FsCall.write r).after cfg c fl).ctx ((FsCall.write r).after cfg c fl).flash ∧
      ((FsCall.write r).after cfg c fl).status = .ok () ∧
      (mountedImage cfg ((FsCall.write r).after cfg c fl).ctx
        ((FsCall.write r).after cfg c fl).flash).fileMap cfg r.fid =
          some ⟨r.flags, r.max cfg, r.dataSize, (List.range r.dataSize).map r.data⟩ := by
  have hnew : (mountedImage cfg c fl).CreatesFile cfg r := ⟨hcr, fun i hi hid => hv.fid (by
    rw [he.files i hi] at hid
    exact hid.symm)⟩
  have hadm := h.admission hv hflags (.inl hnew) hmax ho hfit
  obtain ⟨hok, -⟩ := hadm.admitted (he.room h.accepted hfiles hmax hnew.entriesNeeded.le)
  have hs := h.call_spec (f := .write r) hv
  generalize (FsCall.write r).after cfg c fl = out at hs hok ⊢
  obtain ⟨res, c', fl'⟩ := out
  obtain rfl : res = .ok () := hok
  refine ⟨hs.store, rfl, ?_⟩
  rcases hs.effect.written h.wf h.accepted h.active_le hv h.closed with
    ⟨e, hno, _⟩ | ⟨_, p, st₁, hp, hstep, hw⟩
  · cases hno
  have hsound := h.wf.writePlan_sound h.accepted h.active_le hp
  have hk : p.Takes cfg (mountedImage cfg c fl) r := by
    rcases hsound.kind with hk | hk | hk
    · exact absurd hk.id (hnew.2 _ hsound.newIdx_lt)
    · exact hk.toTakes
    · exact hk.toTakes
  have hns : ¬ (mountedImage cfg c fl).ReplaceShares cfg r := fun ⟨_, _, hrep, _⟩ =>
    hnew.not_replacesFile hrep.replacesFile
  dsimp only
  rw [hw.map hns, Function.update_self, hstep.view_first hsound h.wf hv (.inr hk) ho]

/-- The bytes of a file that was made empty. -/
theorem Store.writes (h : Store cfg c fl) (hv : r.Valid cfg) {flags maxSize : Nat}
    (hm : (mountedImage cfg c fl).fileMap cfg r.fid = some ⟨flags, maxSize, 0, []⟩)
    (hflags : r.flags &&& internalFlagsMask = 0) (htr : r.flags &&& flagTruncate = 0)
    (ho : r.offset = 0) (hfit : r.size cfg ≤ maxSize) :
    ReadsBack cfg r.fid r.dataSize r.data ((FsCall.write r).after cfg c fl) := by
  have hal : utilsIsAligned r.offset cfg.programUnit = true := by
    rw [ho, utilsIsAligned_zero]
  obtain ⟨p, hp⟩ := h.wf.writePlan_append h.accepted hv.fid hm hflags htr hal ho
    (by rw [ho, Nat.zero_add]; exact hfit)
  have hs := h.call_spec (f := .write r) hv
  generalize (FsCall.write r).after cfg c fl = out at hs ⊢
  obtain ⟨res, c', fl'⟩ := out
  rcases hs.effect.written h.wf h.accepted h.active_le hv h.closed with
    ⟨e, _, hno, _⟩ | ⟨hok, p', st₁, hp', hstep, hw⟩
  · cases hp.symm.trans hno
  obtain rfl : res = .ok () := hok
  obtain rfl := Except.ok.inj (hp.symm.trans hp')
  have hsound := h.wf.writePlan_sound h.accepted h.active_le hp
  have hns : ¬ (mountedImage cfg c fl).ReplaceShares cfg r := fun ⟨_, _, hrep, _⟩ =>
    absurd htr hrep.truncate
  have hmap := hw.map hns
  rw [hstep.view_append hsound h.wf hv htr hm h.closed ho, List.nil_append, Nat.zero_add] at hmap
  have hself : (mountedImage cfg c' fl').fileMap cfg r.fid =
      some ⟨flags, maxSize, r.dataSize, (List.range r.dataSize).map r.data⟩ := by
    rw [hmap, Function.update_self]
  exact ⟨rfl, hs.store.readAnswer_all hv.fid hself⟩

/-! ## Every accepted configuration -/

/-- What a new filesystem does with a file of `n` bytes, which is made and written in one call or
in two. -/
structure MakesFile (cfg : Config) (c : Ctx) (fl : Flash) (fid : Fid) (flags n : Nat)
    (data : Nat → UInt8) : Prop where
  written : ReadsBack cfg fid n data ((FsCall.write ⟨fid, flags, n, n, 0, data⟩).after cfg c fl)
  made : ((FsCall.write ⟨fid, flags, n, 0, 0, data⟩).after cfg c fl).status = .ok ()
  filled : ReadsBack cfg fid n data ((FsCall.write ⟨fid, 0, n, n, 0, data⟩).after cfg
    ((FsCall.write ⟨fid, flags, n, 0, 0, data⟩).after cfg c fl).ctx
    ((FsCall.write ⟨fid, flags, n, 0, 0, data⟩).after cfg c fl).flash)

theorem alignFits_fileSize {k : Nat} (hunit : cfg.programUnit = 2 ^ k) (h : n ≤ cfg.maxFileSize) :
    AlignFits n cfg.programUnit := by
  have hu := cfg.programUnit_lt
  have hm := cfg.maxFileSize_lt
  have hp : 1 ≤ cfg.programUnit := hunit ▸ Nat.one_le_two_pow
  unfold AlignFits
  rw [sub32_eq (by omega) hp]
  omega

/-- A configuration that is accepted has tables inside a block, and on a new filesystem every file
up to the maximum size is made, written and read. -/
theorem accepted_makesFile {c₀ : Ctx} {k : Nat} (hacc : flashFsInitCtx cfg = .ok c₀)
    (hfiles : 2 ≤ cfg.maxNumFiles) (hunit : cfg.programUnit = 2 ^ k)
    (hmax : cfg.programUnit ∣ cfg.maxFileSize) :
    LayoutInside cfg ∧ ∀ fl, ((flashFsFormat cfg).run cfg.eraseVal c₀ fl).status = .ok () ∧
      ∀ fid flags n data, fid ≠ 0 → flags < 2 ^ 32 → flags &&& internalFlagsMask = 0 →
        flags &&& flagCreate ≠ 0 → n ≤ cfg.maxFileSize →
          MakesFile cfg ((flashFsFormat cfg).run cfg.eraseVal c₀ fl).ctx
            ((flashFsFormat cfg).run cfg.eraseVal c₀ fl).flash fid flags n data := by
  have hacc : cfg.Accepted := by
    unfold flashFsInitCtx at hacc
    unfold Config.Accepted
    cases hc : flashFsValidateConfig cfg with
    | error e =>
      rw [hc] at hacc
      cases hacc
    | ok u => rfl
  refine ⟨hacc.layoutInside, fun fl => ?_⟩
  obtain ⟨hok, hst, hempty⟩ := format_spec hacc c₀ fl
  refine ⟨hok, fun fid flags n data hf hlt hflags hcr hn => ?_⟩
  have hfits := alignFits_fileSize hunit hn
  have hfits₀ := alignFits_fileSize hunit (Nat.zero_le cfg.maxFileSize)
  have halign : utilsAlign n cfg.programUnit ≤ cfg.maxFileSize := by
    rw [hunit] at hfits hmax ⊢
    exact utilsAlign_le hfits (programUnit_exp_lt hunit) hmax hn
  have halign₀ : utilsAlign 0 cfg.programUnit ≤ utilsAlign n cfg.programUnit := by
    rw [hunit] at hfits hfits₀ ⊢
    exact utilsAlign_le hfits₀ (programUnit_exp_lt hunit)
      (utilsAlign_dvd hfits.lt (programUnit_exp_lt hunit)) (Nat.zero_le _)
  have hv : WriteReq.Valid cfg ⟨fid, flags, n, n, 0, data⟩ :=
    ⟨hf, hlt, show 0 < 2 ^ 32 by decide, hfits, hfits⟩
  have hv₀ : WriteReq.Valid cfg ⟨fid, flags, n, 0, 0, data⟩ :=
    ⟨hf, hlt, show 0 < 2 ^ 32 by decide, hfits, hfits₀⟩
  have hv₁ : WriteReq.Valid cfg ⟨fid, 0, n, n, 0, data⟩ :=
    ⟨hf, show 0 < 2 ^ 32 by decide, show 0 < 2 ^ 32 by decide, hfits, hfits⟩
  obtain ⟨hst₁, hok₁, hm₁⟩ := hst.creates hempty hfiles hv hflags hcr halign rfl le_rfl
  obtain ⟨hst₂, hok₂, hm₂⟩ := hst.creates hempty hfiles hv₀ hflags hcr halign rfl halign₀
  refine ⟨⟨hok₁, hst₁.readAnswer_all hf hm₁⟩, hok₂, ?_⟩
  exact hst₂.writes hv₁ hm₂ (Nat.zero_and _) (Nat.zero_and _) rfl le_rfl

/-- The smallest filesystem of the examples. -/
theorem makesFile_twoBlocks :
    MakesFile twoBlocks ((flashFsFormat twoBlocks).run twoBlocks.eraseVal Ctx.zero ⟨[]⟩).ctx
      ((flashFsFormat twoBlocks).run twoBlocks.eraseVal Ctx.zero ⟨[]⟩).flash 1 flagCreate 7
      UInt8.ofNat :=
  ((accepted_makesFile (k := 2) rfl (by decide) rfl (by decide)).2 ⟨[]⟩).2 1 flagCreate 7
    UInt8.ofNat (by decide) (by decide) (by decide) (by decide) (by decide)

end Etss
