import TfmExtras.Etss.DeleteFrame

/-! What a write leaves of the other files, and of the bytes of the file itself. -/

namespace Etss
open NorFlash NorFlash.Flash FlashM

variable {cfg : Config} {st st' : Image} {a s : Nat} {c : Ctx} {fl : Flash} {r : WriteReq}
  {p : WritePlan}

/-! ## Other files -/

/-- The write replaces a file by one of another size. -/
def Image.ReplacesFile (cfg : Config) (st : Image) (r : WriteReq) : Prop :=
  r.flags &&& flagTruncate ≠ 0 ∧ ∃ i < cfg.maxNumFiles, (st.files i).id = r.fid ∧
    (st.files i).maxSize ≠ r.max cfg

theorem WritePlan.Replaces.replacesFile (h : p.Replaces cfg st r) : st.ReplacesFile cfg r :=
  ⟨h.truncate, p.oldIdx, h.oldIdx_lt, h.id, h.maxSize⟩

namespace WriteStep
variable (h : WriteStep cfg s st r p st') (hp : p.Sound cfg st r) (hw : st.Wf cfg a)
  (hv : r.Valid cfg)
include hp

/-- The entries that a write changes are free, or those of its file. -/
theorem id_changed {i : Nat} (hi : i < cfg.maxNumFiles) (hc : i = p.newIdx ∨ i = p.oldIdx) :
    (st.files i).id = 0 ∨ (st.files i).id = r.fid := by
  have hmax := cfg.maxNumFiles_lt
  rcases hp.kind with hk | hk | hk
  · have he : i = p.newIdx := hc.elim id fun ho => ho.trans hk.oldIdx
    exact .inr (he ▸ hk.id)
  · rcases hc with rfl | rfl
    · exact .inl hk.free
    · have ho := hk.oldIdx
      unfold metadataInvalidIndex at ho
      omega
  · rcases hc with rfl | rfl
    · exact .inl hk.free
    · exact .inr hk.id

include h

/-- The entry of another file stays as it is. -/
theorem files_of_id {i : Nat} (hi : i < cfg.maxNumFiles) (h0 : (st.files i).id ≠ 0)
    (hne : (st.files i).id ≠ r.fid) : st'.files i = st.files i :=
  h.files_ne hi (fun hn => (id_changed hp hi (.inl hn)).elim h0 hne)
    fun ho => (id_changed hp hi (.inr ho)).elim h0 hne

include hw hv

theorem content_of_id {i : Nat} (hi : i < cfg.maxNumFiles) (h0 : (st.files i).id ≠ 0)
    (hne : (st.files i).id ≠ r.fid) : st'.content i = st.content i :=
  h.content_ne hp hw hv hi (fun hn => (id_changed hp hi (.inl hn)).elim h0 hne) h0

/-- Other file ids show the same as before. -/
theorem fileMap_ne {fid : Fid} (hne : fid ≠ r.fid) : st'.fileMap cfg fid = st.fileMap cfg fid := by
  unfold Image.fileMap
  split_ifs with h0
  · rfl
  have hid : ∀ i, i < cfg.maxNumFiles → ((st'.files i).id = fid ↔ (st.files i).id = fid) := by
    intro i hi
    by_cases hn : i = p.newIdx
    · subst hn
      rw [h.id_new hp hw hv]
      refine iff_of_false hne.symm fun he => ?_
      exact (id_changed hp hi (.inl rfl)).elim (fun hz => h0 (he.symm.trans hz))
        fun hr => hne (he.symm.trans hr)
    · rw [h.id_ne hi hn]
  have hfind : ((List.range cfg.maxNumFiles).find? fun i => (st'.files i).id == fid) =
      (List.range cfg.maxNumFiles).find? fun i => (st.files i).id == fid :=
    List.find?_congr fun i hi => by
      rw [Bool.eq_iff_iff, beq_iff_eq, beq_iff_eq]
      exact hid i (List.mem_range.mp hi)
  rw [hfind]
  cases hs : (List.range cfg.maxNumFiles).find? fun i => (st.files i).id == fid with
  | none => rfl
  | some i =>
    have hi := List.mem_range.mp (List.mem_of_find?_eq_some hs)
    have hb := List.find?_some hs
    have he : (st.files i).id = fid := beq_iff_eq.mp hb
    have hn0 : (st.files i).id ≠ 0 := he.trans_ne h0
    have hnr : (st.files i).id ≠ r.fid := he.trans_ne hne
    refine congrArg some ?_
    unfold Image.view
    rw [h.content_of_id hp hw hv hi hn0 hnr, h.files_of_id hp hi hn0 hnr]

end WriteStep

/-- Every file but that of the request keeps its entry and its bytes. -/
structure WriteFrame (cfg : Config) (fid : Fid) (c : Ctx) (fl : Flash) (c' : Ctx) (fl' : Flash) :
    Prop where
  files : ∀ i, i < cfg.maxNumFiles → ((mountedImage cfg c fl).files i).id ≠ 0 →
    ((mountedImage cfg c fl).files i).id ≠ fid →
      (mountedImage cfg c' fl').files i = (mountedImage cfg c fl).files i ∧
        (mountedImage cfg c' fl').content i = (mountedImage cfg c fl).content i
  answers : ∀ fid', fid' ≠ 0 → fid' ≠ fid →
    infoAnswer cfg c' fl' fid' = infoAnswer cfg c fl fid' ∧
      ∀ size offset, readAnswer cfg c' fl' fid' size offset = readAnswer cfg c fl fid' size offset

/-- A write that does not replace its file leaves the other files as they are, whatever it
returns. -/
theorem fileWrite_frame (h : Store cfg c fl) (hv : r.Valid cfg)
    (hr : ¬ (mountedImage cfg c fl).ReplacesFile cfg r) :
    WriteFrame cfg r.fid c fl ((FsCall.write r).after cfg c fl).ctx
      ((FsCall.write r).after cfg c fl).flash := by
  have hs := h.call_spec (f := .write r) hv
  generalize (FsCall.write r).after cfg c fl = out at hs
  obtain ⟨res, c', fl'⟩ := out
  obtain ⟨hst, heff, -, -⟩ := hs
  -- it is enough to compare the images
  have hmap : ∀ st₁ : Image, st₁.Same cfg (mountedImage cfg c' fl') → (∃ b, st₁.Wf cfg b) →
      (∀ i, i < cfg.maxNumFiles → ((mountedImage cfg c fl).files i).id ≠ 0 →
        ((mountedImage cfg c fl).files i).id ≠ r.fid →
          st₁.files i = (mountedImage cfg c fl).files i ∧
            st₁.content i = (mountedImage cfg c fl).content i) →
      (∀ fid, fid ≠ r.fid → st₁.fileMap cfg fid = (mountedImage cfg c fl).fileMap cfg fid) →
      WriteFrame cfg r.fid c fl c' fl' := by
    intro st₁ hsame ⟨b, hwf⟩ hfiles hm
    have hm' : ∀ fid, fid ≠ r.fid → (mountedImage cfg c' fl').fileMap cfg fid =
        (mountedImage cfg c fl).fileMap cfg fid := fun fid hne => by
      rw [hsame.fileMap hwf, hm fid hne]
    refine ⟨fun i hi h0 hne => ?_, fun fid h0 hne => ⟨?_, fun size offset => ?_⟩⟩
    · obtain ⟨hf, hcon⟩ := hfiles i hi h0 hne
      exact ⟨(hsame.files i hi).trans hf,
        (hsame.content hwf hi (by rw [hf]; exact h0)).trans hcon⟩
    · rw [hst.infoAnswer_eq h0, h.infoAnswer_eq h0, hm' fid hne]
    · rw [hst.readAnswer_eq h0, h.readAnswer_eq h0, hm' fid hne]
  cases heff with
  | fail hplan hsame =>
    exact hmap _ hsame ⟨_, h.wf⟩ (fun _ _ _ _ => ⟨rfl, rfl⟩) fun _ _ => rfl
  | update hplan hkeep hstep hsame =>
    have hp := h.wf.writePlan_sound h.accepted h.active_le hplan
    exact hmap _ hsame ⟨_, hstep.wf hp h.wf hv h.accepted⟩
      (fun i hi h0 hne => ⟨hstep.files_of_id hp hi h0 hne, hstep.content_of_id hp h.wf hv hi h0 hne⟩)
      fun fid hne => hstep.fileMap_ne hp h.wf hv hne
  | replace hplan hrep _ _ _ _ => exact absurd hrep.replacesFile hr

/-- The four bytes of a file are written again, beside an empty file. -/
theorem writeFrame_of_rewrite :
    WriteFrame fiveBlocks 2
      (filled fiveBlocks emptyThenFull).1 (filled fiveBlocks emptyThenFull).2
      ((FsCall.write ⟨2, 0, 0, 4, 0, fun _ => 7⟩).after fiveBlocks
        (filled fiveBlocks emptyThenFull).1 (filled fiveBlocks emptyThenFull).2).ctx
      ((FsCall.write ⟨2, 0, 0, 4, 0, fun _ => 7⟩).after fiveBlocks
        (filled fiveBlocks emptyThenFull).1 (filled fiveBlocks emptyThenFull).2).flash := by
  have hs : Store fiveBlocks (filled fiveBlocks emptyThenFull).1
    (filled fiveBlocks emptyThenFull).2 := (reaches_filled (by decide)).store fiveBlocks_accepted
  have hv : WriteReq.Valid fiveBlocks ⟨2, 0, 0, 4, 0, fun _ => 7⟩ := by decide
  exact fileWrite_frame hs hv fun h => h.1 rfl

/-! ## The bytes of the file -/

namespace WriteStep
variable (h : WriteStep cfg s st r p st') (hp : p.Sound cfg st r) (hw : st.Wf cfg a)
  (hv : r.Valid cfg)
include h hp hw hv

/-- A byte of the written file: an old one before the new data, then the data, rounded up to the
program unit, and the erase value behind it. -/
theorem content_byte {k : Nat} (hk : k < (st'.files p.newIdx).curSize) :
    (st'.content p.newIdx).getD k 0 =
      if r.dataSize = 0 ∨ k < r.offset then (st.content p.newIdx).getD k 0
      else if k < r.offset + r.size cfg then r.data (k - r.offset) else cfg.eraseVal := by
  have hpl := hp.placed hw hv.inRange
  have hmlt := cfg.maxFileSize_lt
  have hmax := hpl.maxSize_le
  have hle := hp.entry_curSize_le hw hv
  have hcur := WritePlan.entry_curSize hv hp.fits (by omega)
  rw [Image.content_getD hk]
  rw [h.files_new hp.newIdx_lt] at hk ⊢
  rw [WritePlan.entry_lblock, WritePlan.entry_dataIdx]
  rw [hcur] at hk hle
  split_ifs with h₁ h₂
  · obtain ⟨hlt, hd⟩ := h.data_kept hp hw hv (k := k) (by
      split_ifs with h0
      · rwa [if_pos h0] at hk
      · exact h₁.resolve_left h0)
    rw [hd, Image.content_getD hlt]
  · rw [not_or, not_lt] at h₁
    have hn := h.new h₁.1 (k - r.offset) (by omega)
    rwa [show p.fileMeta.dataIdx + r.offset + (k - r.offset) = p.fileMeta.dataIdx + k by omega]
      at hn
  · rw [not_or, not_lt] at h₁
    rw [if_neg h₁.1] at hk hle
    exact h.gap h₁.1 _ (by omega) (by omega)

end WriteStep

/-- What a write into an existing file is to leave: the size covers the data, the data reads back,
and so does every other byte. -/
structure WriteBack (cfg : Config) (r : WriteReq) (curSize : Nat) (c : Ctx) (fl : Flash) (c' : Ctx)
    (fl' : Flash) : Prop where
  size : ∃ info, infoAnswer cfg c' fl' r.fid = .ok info ∧
    info.sizeCurrent = max curSize (r.offset + r.dataSize)
  data : readAnswer cfg c' fl' r.fid r.dataSize r.offset =
    .ok ((List.range r.dataSize).map r.data)
  kept : ∀ k < curSize, (k < r.offset ∨ r.offset + r.dataSize ≤ k) →
    readAnswer cfg c' fl' r.fid 1 k = readAnswer cfg c fl r.fid 1 k

/-- The bytes of file `i` behind the new data are what the write leaves there anyway: the memory
behind the data up to the program unit, and the erase value from there on. With no data or with
data up to the end of the file, there is no such byte. -/
def Image.TailKept (cfg : Config) (st : Image) (r : WriteReq) (i : Nat) : Prop :=
  r.dataSize = 0 ∨ ∀ k, r.offset + r.dataSize ≤ k → k < (st.files i).curSize →
    (st.content i).getD k 0 =
      if k < r.offset + r.size cfg then r.data (k - r.offset) else cfg.eraseVal

theorem Image.readOf_view {i n o : Nat} (h : o + n ≤ (st.files i).curSize) :
    Image.readOf n o (some (st.view i)) = .ok (((st.content i).drop o).take n) := by
  have hc : utilsCheckContainedIn (st.view i).curSize o n = .ok () :=
    utilsCheckContainedIn_eq_ok.mpr h
  show (utilsCheckContainedIn (st.view i).curSize o n).map _ = _
  rw [hc]
  rfl

theorem take_one_drop {l : List UInt8} {k : Nat} (h : k < l.length) :
    (l.drop k).take 1 = [l.getD k 0] := by
  rw [List.take_one, List.head?_drop, List.getElem?_eq_getElem h, List.getD_eq_getElem l 0 h]
  rfl

theorem Image.readOf_byte {i k : Nat} (h : k < (st.files i).curSize) :
    Image.readOf 1 k (some (st.view i)) = .ok [(st.content i).getD k 0] := by
  rw [readOf_view h, take_one_drop (by rwa [content_length])]

/-- A write into a file leaves what it is to leave exactly when the rest of the file is kept. -/
theorem fileWrite_writeBack_iff (h : Store cfg c fl) (hv : r.Valid cfg) {i : Nat}
    (hi : i < cfg.maxNumFiles) (hid : ((mountedImage cfg c fl).files i).id = r.fid)
    (htr : r.flags &&& flagTruncate = 0)
    (hoff : r.offset ≤ ((mountedImage cfg c fl).files i).curSize)
    (hok : ((FsCall.write r).after cfg c fl).status = .ok ()) :
    WriteBack cfg r ((mountedImage cfg c fl).files i).curSize c fl
        ((FsCall.write r).after cfg c fl).ctx ((FsCall.write r).after cfg c fl).flash ↔
      (mountedImage cfg c fl).TailKept cfg r i := by
  have hs := h.call_spec (f := .write r) hv
  generalize (FsCall.write r).after cfg c fl = out at hs hok
  obtain ⟨res, c', fl'⟩ := out
  obtain ⟨hst, heff, -, -⟩ := hs
  obtain rfl : res = .ok () := hok
  cases heff with
  | replace hplan hrep _ _ _ _ => exact absurd htr hrep.truncate
  | update hplan hkeep hstep hsame =>
    rename_i p st₁
    have hp := h.wf.writePlan_sound h.accepted h.active_le hplan
    have hk : p.Reuses cfg (mountedImage cfg c fl) r := by
      rcases hp.kind with hk | hk | hk
      · exact hk
      · exact absurd hid (hk.absent i hi)
      · exact absurd hk hkeep
    obtain rfl : p.newIdx = i := h.closed.unique _ _ hp.newIdx_lt hi (hk.id.trans_ne hv.fid)
      (hk.id.trans hid.symm)
    have hm : p.fileMeta = (mountedImage cfg c fl).files p.newIdx :=
      hk.fileMeta.trans (if_neg (not_not.mpr htr))
    have hwf₁ := hstep.wf hp h.wf hv h.accepted
    have hid₁ := hstep.id_new hp h.wf hv
    -- what the two maps show of the file
    have hmap : (mountedImage cfg c fl).fileMap cfg r.fid =
        some ((mountedImage cfg c fl).view p.newIdx) := by
      rw [← hid]
      exact h.closed.fileMap_some hi (hid.trans_ne hv.fid)
    have hmap' : (mountedImage cfg c' fl').fileMap cfg r.fid = some (st₁.view p.newIdx) := by
      have hide : ((mountedImage cfg c' fl').files p.newIdx).id = r.fid := by
        rw [hsame.files _ hi, hid₁]
      rw [← hide, hst.closed.fileMap_some hi (hide.trans_ne hv.fid),
        hsame.view hwf₁ hi (hid₁.trans_ne hv.fid)]
    have hcur : (st₁.files p.newIdx).curSize =
        max ((mountedImage cfg c fl).files p.newIdx).curSize (r.offset + r.dataSize) := by
      have hpl := hp.placed h.wf hv.inRange
      have hmlt := cfg.maxFileSize_lt
      have hmax := hpl.maxSize_le
      rw [hstep.files_new hi, WritePlan.entry_curSize hv hp.fits (by omega), hm]
      split_ifs with h0
      · rw [h0, Nat.add_zero, max_eq_left hoff]
      · rfl
    have hle := le_max_left ((mountedImage cfg c fl).files p.newIdx).curSize
      (r.offset + r.dataSize)
    have hle' := le_max_right ((mountedImage cfg c fl).files p.newIdx).curSize
      (r.offset + r.dataSize)
    have hbyte := fun k hk => hstep.content_byte hp h.wf hv (k := k) hk
    have hread : ∀ k < ((mountedImage cfg c fl).files p.newIdx).curSize,
        (readAnswer cfg c' fl' r.fid 1 k = readAnswer cfg c fl r.fid 1 k ↔
          (st₁.content p.newIdx).getD k 0 =
            ((mountedImage cfg c fl).content p.newIdx).getD k 0) := fun k hk => by
      rw [hst.readAnswer_eq hv.fid, h.readAnswer_eq hv.fid, hmap, hmap', Image.readOf_byte hk,
        Image.readOf_byte (by omega)]
      simp
    constructor
    · intro hwb
      refine or_iff_not_imp_left.mpr fun h0 k h₁ h₂ => ?_
      have hkept := (hread k h₂).mp (hwb.kept k h₂ (.inr h₁))
      rw [hbyte k (by omega), if_neg (by omega)] at hkept
      exact hkept.symm
    · intro htail
      refine ⟨⟨_, (hst.infoAnswer_eq hv.fid).trans (by rw [hmap']; rfl), hcur⟩, ?_, fun k hk hout => ?_⟩
      · rw [hst.readAnswer_eq hv.fid, hmap', Image.readOf_view (by omega)]
        refine congrArg Except.ok (List.ext_getElem ?_ fun j h₁ h₂ => ?_)
        · simp only [List.length_take, List.length_drop, Image.content_length, List.length_map,
            List.length_range]
          omega
        · simp only [List.length_map, List.length_range] at h₂
          have h0 : r.dataSize ≠ 0 := by omega
          have hfit := (WritePlan.fits_le hv hp.fits h0).2.1
          have hb := hbyte (r.offset + j) (by omega)
          rw [if_neg (by omega), if_pos (by omega), Nat.add_sub_cancel_left,
            List.getD_eq_getElem _ _ (by rw [Image.content_length]; omega)] at hb
          simpa only [List.getElem_take, List.getElem_drop, List.getElem_map,
            List.getElem_range] using hb
      · rw [hread k hk, hbyte k (by omega)]
        split_ifs with h₁ h₂
        · rfl
        all_goals
          rw [not_or] at h₁
          have ht := htail.resolve_left h₁.1 k (by omega) hk
          rw [ht]
          simp only [h₂, if_true, if_false]

/-- A file of eight bytes, with room for twelve. -/
def eightBytes : List FsCall := [.write ⟨1, flagCreate, 12, 8, 0, UInt8.ofNat⟩]

/-- Four bytes are appended. -/
theorem writeBack_of_append :
    WriteBack twoBlocks ⟨1, 0, 0, 4, 8, fun _ => 7⟩
      ((mountedImage twoBlocks (filled twoBlocks eightBytes).1
        (filled twoBlocks eightBytes).2).files 1).curSize
      (filled twoBlocks eightBytes).1 (filled twoBlocks eightBytes).2
      ((FsCall.write ⟨1, 0, 0, 4, 8, fun _ => 7⟩).after twoBlocks
        (filled twoBlocks eightBytes).1 (filled twoBlocks eightBytes).2).ctx
      ((FsCall.write ⟨1, 0, 0, 4, 8, fun _ => 7⟩).after twoBlocks
        (filled twoBlocks eightBytes).1 (filled twoBlocks eightBytes).2).flash := by
  have hs : Store twoBlocks (filled twoBlocks eightBytes).1 (filled twoBlocks eightBytes).2 :=
    (reaches_filled (by decide)).store twoBlocks_accepted
  have hv : WriteReq.Valid twoBlocks ⟨1, 0, 0, 4, 8, fun _ => 7⟩ := by decide
  have hcur : ((mountedImage twoBlocks (filled twoBlocks eightBytes).1
      (filled twoBlocks eightBytes).2).files 1).curSize = 8 := by decide +kernel
  refine (fileWrite_writeBack_iff hs hv (by decide) (by decide +kernel) rfl hcur.ge
    (by decide +kernel)).mpr (.inr fun k h₁ h₂ => ?_)
  have hk : 8 + 4 ≤ k := h₁
  omega

/-- Writing the first four bytes again erases the last four. -/
theorem writeBack_fails : Reaches twoBlocks (filled twoBlocks eightBytes).1
      (filled twoBlocks eightBytes).2 ∧
    ((mountedImage twoBlocks (filled twoBlocks eightBytes).1
      (filled twoBlocks eightBytes).2).files 1).id = 1 ∧
    ((FsCall.write ⟨1, 0, 0, 4, 0, fun _ => 7⟩).after twoBlocks
      (filled twoBlocks eightBytes).1 (filled twoBlocks eightBytes).2).status = .ok () ∧
    ¬ WriteBack twoBlocks ⟨1, 0, 0, 4, 0, fun _ => 7⟩ 8
      (filled twoBlocks eightBytes).1 (filled twoBlocks eightBytes).2
      ((FsCall.write ⟨1, 0, 0, 4, 0, fun _ => 7⟩).after twoBlocks
        (filled twoBlocks eightBytes).1 (filled twoBlocks eightBytes).2).ctx
      ((FsCall.write ⟨1, 0, 0, 4, 0, fun _ => 7⟩).after twoBlocks
        (filled twoBlocks eightBytes).1 (filled twoBlocks eightBytes).2).flash := by
  refine ⟨reaches_filled (by decide), by decide +kernel, by decide +kernel, fun h => ?_⟩
  have hread := h.kept 4 (by decide) (.inr le_rfl)
  have hne : readAnswer twoBlocks ((FsCall.write ⟨1, 0, 0, 4, 0, fun _ => 7⟩).after twoBlocks
        (filled twoBlocks eightBytes).1 (filled twoBlocks eightBytes).2).ctx
      ((FsCall.write ⟨1, 0, 0, 4, 0, fun _ => 7⟩).after twoBlocks
        (filled twoBlocks eightBytes).1 (filled twoBlocks eightBytes).2).flash 1 1 4 =
        .ok [0xFF] ∧
      readAnswer twoBlocks (filled twoBlocks eightBytes).1 (filled twoBlocks eightBytes).2 1 1 4 =
        .ok [4] := by decide +kernel
  rw [hne.1, hne.2] at hread
  exact absurd hread (by decide)

end Etss
