import TfmExtras.Etss.WriteFrame

/-! What a call makes of the map of the files. The ids, the sizes and the flags of the other files
stay whatever is called; their bytes stay unless an empty file is taken away that starts where a
nonempty one starts. -/

namespace Etss
open NorFlash NorFlash.Flash FlashM

variable {cfg : Config} {st st₁ st' : Image} {a s d : Nat} {fid : Fid} {r : WriteReq}
  {p : WritePlan} {res : Except Status Unit} {c c' : Ctx} {fl fl' : Flash} {v : Image.View}

/-! ## A deletion -/

namespace DeleteStep
variable (h : DeleteStep cfg s st d st') (hd : d < cfg.maxNumFiles)
  (hu : ∀ i j, i < cfg.maxNumFiles → j < cfg.maxNumFiles → i ≠ d → j ≠ d →
    (st.files i).id ≠ 0 → (st.files i).id = (st.files j).id → i = j)
include h

theorem view_eq {i : Nat} (hi : i < cfg.maxNumFiles) (hne : i ≠ d) :
    st'.view i = { st.view i with content := st'.content i } := by
  unfold Image.view
  rw [h.files_ne hi hne, Image.shifted_flags, Image.shifted_curSize, Image.shifted_maxSize]

include hu

/-- A remaining file is found in its entry. -/
theorem fileMap_of_ne {i : Nat} (hi : i < cfg.maxNumFiles) (hne : i ≠ d)
    (hv : (st.files i).id ≠ 0) : st'.fileMap cfg (st.files i).id = some (st'.view i) := by
  have hid : (st'.files i).id = (st.files i).id := by
    rw [h.files_ne hi hne, Image.shifted_id]
  refine Image.fileMap_eq_some hv hi hid fun j hj he => ?_
  rw [h.unique hu j i hj hi (he ▸ hv) (he.trans hid.symm)]

/-- An id other than that of the deleted file has no entry, or keeps it. -/
theorem fileMap_cases (hne : fid ≠ (st.files d).id) :
    (st.fileMap cfg fid = none ∧ st'.fileMap cfg fid = none) ∨
      ∃ i, i < cfg.maxNumFiles ∧ i ≠ d ∧ (st.files i).id = fid ∧ fid ≠ 0 ∧
        st.fileMap cfg fid = some (st.view i) ∧ st'.fileMap cfg fid = some (st'.view i) := by
  rcases st.fileMap_cases cfg fid with ⟨hn, hall⟩ | ⟨i, hi, rfl, h0⟩
  · refine .inl ⟨hn, Image.fileMap_eq_none fun i hi he => ?_⟩
    by_contra h0
    obtain ⟨hid, _⟩ := h.id_ne hi (he ▸ h0)
    rw [h.files_ne hi hid, Image.shifted_id] at he
    exact h0 (hall i hi he)
  · have hid : i ≠ d := by
      rintro rfl
      exact hne rfl
    refine .inr ⟨i, hi, hid, rfl, h0, ?_, h.fileMap_of_ne hu hi hid h0⟩
    refine Image.fileMap_eq_some h0 hi rfl fun j hj he => ?_
    have hjd : j ≠ d := by
      rintro rfl
      exact hne he.symm
    rw [hu j i hj hi hjd hid (he ▸ h0) he]

theorem infoOf_ne (hne : fid ≠ (st.files d).id) :
    Image.infoOf (st'.fileMap cfg fid) = Image.infoOf (st.fileMap cfg fid) := by
  rcases h.fileMap_cases hu hne with ⟨hn, hn'⟩ | ⟨i, hi, hid, _, _, hm, hm'⟩
  · rw [hn, hn']
  · rw [hm, hm', h.view_eq hi hid]
    rfl

include hd

/-- The other files stay as they are. -/
theorem fileMap_ne (hw : st.Wf cfg a) (hid : (st.files d).id ≠ 0) (hsh : ¬ st.SharesIndex cfg d)
    (hne : fid ≠ (st.files d).id) : st'.fileMap cfg fid = st.fileMap cfg fid := by
  rcases h.fileMap_cases hu hne with ⟨hn, hn'⟩ | ⟨i, hi, hid', rfl, h0, hm, hm'⟩
  · rw [hn, hn']
  · rw [hm, hm', h.view hw hd hsh hid hi hid' h0]

end DeleteStep

/-- The file is empty and starts where a nonempty one starts. -/
def Image.RemoveShares (cfg : Config) (st : Image) (fid : Fid) : Prop :=
  ∃ d < cfg.maxNumFiles, (st.files d).id = fid ∧ st.SharesIndex cfg d

/-- A deletion finds no file and leaves the map, or it takes the file out of it. -/
theorem DeleteEffect.fileMap (h : DeleteEffect cfg s st fid res st') (hw : st.Wf cfg a)
    (hacc : cfg.Accepted) (hcl : st.Closed cfg) (hf : fid ≠ 0) :
    (res = .error .doesNotExist ∧ st.fileMap cfg fid = none ∧
      st'.fileMap cfg = st.fileMap cfg) ∨
    (res = .ok () ∧ (∃ v, st.fileMap cfg fid = some v) ∧ st'.fileMap cfg fid = none ∧
      (∀ fid', fid' ≠ fid → Image.infoOf (st'.fileMap cfg fid') =
        Image.infoOf (st.fileMap cfg fid')) ∧
      (¬ st.RemoveShares cfg fid → st'.fileMap cfg = Function.update (st.fileMap cfg) fid none)) := by
  cases h with
  | absent free eq =>
    subst eq
    exact .inl ⟨rfl, Image.fileMap_eq_none fun i hi he => absurd he (free i hi), rfl⟩
  | delete lt id step same =>
    rename_i d st₁
    subst id
    have hu : ∀ i j, i < cfg.maxNumFiles → j < cfg.maxNumFiles → i ≠ d → j ≠ d →
        (st.files i).id ≠ 0 → (st.files i).id = (st.files j).id → i = j :=
      fun i j hi hj _ _ => hcl.unique i j hi hj
    have hmap := same.fileMap (step.wf hw lt hf hacc)
    have hgone := step.fileMap_self lt hcl
    refine .inr ⟨rfl, ⟨_, hcl.fileMap_some lt hf⟩, by rw [hmap, hgone],
      fun fid' hne => by rw [hmap, step.infoOf_ne hu hne], fun hr => ?_⟩
    funext fid'
    rw [hmap, Function.update_apply]
    split_ifs with he
    · rw [he, hgone]
    · exact step.fileMap_ne lt hu hw hf (fun hsh => hr ⟨d, lt, rfl, hsh⟩) he

/-! ## A write -/

theorem Image.Same.sharesIndex_iff (h : st.Same cfg st') (hd : d < cfg.maxNumFiles) :
    st'.SharesIndex cfg d ↔ st.SharesIndex cfg d := by
  unfold Image.SharesIndex
  rw [h.files d hd]
  refine and_congr_right fun _ => exists_congr fun i => and_congr_right fun hi => ?_
  rw [h.files i hi]

/-- The write takes an empty file away that starts where a nonempty one starts, which may be the
new file. -/
def Image.ReplaceShares (cfg : Config) (st : Image) (r : WriteReq) : Prop :=
  ∃ p, st.writePlan cfg r = .ok p ∧ p.Replaces cfg st r ∧ (st.files p.oldIdx).maxSize = 0 ∧
    (st.SharesIndex cfg p.oldIdx ∨ (p.fileMeta.lblock = (st.files p.oldIdx).lblock ∧
      p.fileMeta.dataIdx = (st.files p.oldIdx).dataIdx))

theorem WritePlan.Replaces.ne (h : p.Replaces cfg st r) (hf : r.fid ≠ 0) :
    p.oldIdx ≠ p.newIdx := fun he => hf (h.id.symm.trans (he ▸ h.free))

theorem WriteStep.not_sharesIndex (h : WriteStep cfg s st r p st₁)
    (hp : st.writePlan cfg r = .ok p) (hrep : p.Replaces cfg st r) (hlt : p.newIdx < cfg.maxNumFiles)
    (hf : r.fid ≠ 0) (hr : ¬ st.ReplaceShares cfg r) : ¬ st₁.SharesIndex cfg p.oldIdx := by
  rintro ⟨h0, e, he, hne, hid, hl, hx, hpos⟩
  rw [h.files_old hrep.oldIdx_lt (hrep.ne hf)] at h0 hl hx
  refine hr ⟨p, hp, hrep, h0, ?_⟩
  by_cases hn : e = p.newIdx
  · subst hn
    rw [h.files_new hlt, WritePlan.entry_lblock] at hl
    rw [h.files_new hlt, WritePlan.entry_dataIdx] at hx
    exact .inr ⟨hl, hx⟩
  · rw [h.files_ne he hn hne] at hid hl hx hpos
    exact .inl ⟨h0, e, he, hne, hid, hl, hx, hpos⟩

/-- What a write that succeeds makes of the map, where `v` is the file as it was written. -/
structure Image.Written (cfg : Config) (st : Image) (r : WriteReq) (v : View) (st' : Image) :
    Prop where
  own : infoOf (st'.fileMap cfg r.fid) = infoOf (some v)
  others : ∀ fid, fid ≠ r.fid → infoOf (st'.fileMap cfg fid) = infoOf (st.fileMap cfg fid)
  map : ¬ st.ReplaceShares cfg r →
    st'.fileMap cfg = Function.update (st.fileMap cfg) r.fid (some v)

namespace WriteStep
variable (h : WriteStep cfg s st r p st₁) (hp : st.writePlan cfg r = .ok p) (hw : st.Wf cfg a)
  (hacc : cfg.Accepted) (ha : a ≤ 1) (hv : r.Valid cfg) (hcl : st.Closed cfg)
include h hp hw hacc ha hv hcl

/-- A write in one update. -/
theorem written_of_keeps (hk : ¬ p.Replaces cfg st r) (hs : st₁.Same cfg st') :
    st.Written cfg r (st₁.view p.newIdx) st' := by
  have hsound := hw.writePlan_sound hacc ha hp
  have hmap := hs.fileMap (h.wf hsound hw hv hacc)
  have hid := h.id_new hsound hw hv
  have hown : st₁.fileMap cfg r.fid = some (st₁.view p.newIdx) := by
    rw [← hid]
    exact (h.closed hsound hw hv hcl hk).fileMap_some hsound.newIdx_lt (hid.trans_ne hv.fid)
  refine ⟨by rw [hmap, hown], fun fid hne => by rw [hmap, h.fileMap_ne hsound hw hv hne],
    fun _ => ?_⟩
  funext fid
  rw [hmap, Function.update_apply]
  split_ifs with he
  · rw [he, hown]
  · exact h.fileMap_ne hsound hw hv he

/-- A write in two updates: the second one deletes the old file. -/
theorem written_of_replaces {st₂ st₃ : Image} (hrep : p.Replaces cfg st r)
    (hs : st₁.Same cfg st₂) (hd : DeleteStep cfg a st₂ p.oldIdx st₃) (hs' : st₃.Same cfg st') :
    st.Written cfg r (st₁.view p.newIdx) st' := by
  have hsound := hw.writePlan_sound hacc ha hp
  have hwf₁ := h.wf hsound hw hv hacc
  have hwf₂ := hs.wf hacc hwf₁
  have hpend := hs.pending (h.pending hsound hw hv hcl hrep)
  have hmap := hs'.fileMap (hd.wf hwf₂ hpend.lt hpend.valid hacc)
  have hid : (st₂.files p.newIdx).id = r.fid := by
    rw [hs.files _ hsound.newIdx_lt, h.id_new hsound hw hv]
  have hne : p.newIdx ≠ p.oldIdx := (hrep.ne hv.fid).symm
  have hold : (st₂.files p.oldIdx).id = r.fid := by
    rw [hs.files _ hrep.oldIdx_lt, h.id_ne hrep.oldIdx_lt hne.symm, hrep.id]
  have hown : st₃.fileMap cfg r.fid = some (st₃.view p.newIdx) := by
    rw [← hid]
    exact hd.fileMap_of_ne hpend.unique hsound.newIdx_lt hne (hid.trans_ne hv.fid)
  have hview : st₂.view p.newIdx = st₁.view p.newIdx :=
    hs.view hwf₁ hsound.newIdx_lt ((h.id_new hsound hw hv).trans_ne hv.fid)
  have hfirst : ∀ fid, fid ≠ r.fid → st₂.fileMap cfg fid = st.fileMap cfg fid := fun fid hf => by
    rw [hs.fileMap hwf₁, h.fileMap_ne hsound hw hv hf]
  refine ⟨?_, fun fid hf => ?_, fun hr => ?_⟩
  · rw [hmap, hown, hd.view_eq hsound.newIdx_lt hne, hview]
    rfl
  · rw [hmap, hd.infoOf_ne hpend.unique (hold.symm ▸ hf), hfirst fid hf]
  · have hsh : ¬ st₂.SharesIndex cfg p.oldIdx := by
      rw [hs.sharesIndex_iff hpend.lt]
      exact h.not_sharesIndex hp hrep hsound.newIdx_lt hv.fid hr
    funext fid
    rw [hmap, Function.update_apply]
    split_ifs with he
    · rw [he, hown, hd.view hwf₂ hpend.lt hsh hpend.valid hsound.newIdx_lt hne
        (hid.trans_ne hv.fid), hview]
    · rw [hd.fileMap_ne hpend.lt hpend.unique hwf₂ hpend.valid hsh (hold.symm ▸ he), hfirst fid he]

end WriteStep

/-- A write fails and leaves the map, or it succeeds with the file as it was planned. -/
theorem WriteEffect.written (h : WriteEffect cfg a s st r res st') (hw : st.Wf cfg a)
    (hacc : cfg.Accepted) (ha : a ≤ 1) (hv : r.Valid cfg) (hcl : st.Closed cfg) :
    (∃ e, res = .error e ∧ st.writePlan cfg r = .error e ∧ st'.fileMap cfg = st.fileMap cfg) ∨
      (res = .ok () ∧ ∃ p st₁, st.writePlan cfg r = .ok p ∧ WriteStep cfg s st r p st₁ ∧
        st.Written cfg r (st₁.view p.newIdx) st') := by
  cases h with
  | fail plan same => exact .inl ⟨_, rfl, plan, same.fileMap hw⟩
  | update plan keeps step same =>
    exact .inr ⟨rfl, _, _, plan, step, step.written_of_keeps plan hw hacc ha hv hcl keeps same⟩
  | replace plan replaces step same₁ delete same =>
    exact .inr ⟨rfl, _, _, plan, step,
      step.written_of_replaces plan hw hacc ha hv hcl replaces same₁ delete same⟩

/-! ## The file that is written -/

namespace WriteStep
variable (h : WriteStep cfg s st r p st₁) (hp : p.Sound cfg st r) (hw : st.Wf cfg a)
  (hv : r.Valid cfg)
include h hp hw hv

/-- The first part of a file, which is made, emptied or replaced. -/
theorem view_first (hfirst : r.flags &&& flagTruncate ≠ 0 ∨ p.Takes cfg st r) (ho : r.offset = 0) :
    st₁.view p.newIdx = ⟨r.flags, r.max cfg, r.dataSize, (List.range r.dataSize).map r.data⟩ := by
  have htakes : p.Takes cfg st r → p.fileMeta.flags = r.flags ∧ p.fileMeta.maxSize = r.max cfg ∧
      p.fileMeta.curSize = 0 := fun hk => by
    rw [hk.fileMeta]
    exact ⟨rfl, rfl, rfl⟩
  have hm : p.fileMeta.flags = r.flags ∧ p.fileMeta.maxSize = r.max cfg ∧
      p.fileMeta.curSize = 0 := by
    rcases hfirst with htr | hk
    · rcases hp.takes_or_reuses with hk | hk
      · rw [hk.fileMeta, if_pos htr]
        exact ⟨rfl, hk.maxSize htr, rfl⟩
      · exact htakes hk
    · exact htakes hk
  obtain ⟨hflags, hmax, hcur⟩ := hm
  have hmlt := cfg.maxFileSize_lt
  have hmle := (hp.placed hw hv.inRange).maxSize_le
  have hc := h.content_new hp hw hv fun _ => by rw [hcur, ho, Nat.zero_add]; exact Nat.zero_le _
  unfold Image.view
  rw [hc, hcur, ho, ite_self, List.take_zero, List.nil_append, h.files_new hp.newIdx_lt,
    WritePlan.entry_flags, WritePlan.entry_maxSize, WritePlan.entry_curSize hv hp.fits (by omega),
    hflags, hmax, hcur, ho, Nat.zero_add, Nat.zero_max]
  split_ifs with h0
  · rw [h0]
  · rfl

/-- A further part of a file, behind what it has. -/
theorem view_append (htr : r.flags &&& flagTruncate = 0) (hm : st.fileMap cfg r.fid = some v)
    (hcl : st.Closed cfg) (ho : r.offset = v.curSize) :
    st₁.view p.newIdx = { v with
      curSize := v.curSize + r.dataSize
      content := v.content ++ (List.range r.dataSize).map r.data } := by
  have hk : p.Reuses cfg st r := by
    rcases hp.kind with hk | hk | hk
    · exact hk
    · rw [Image.fileMap_eq_none fun i hi he => absurd he (hk.absent i hi)] at hm
      cases hm
    · exact absurd htr hk.truncate
  have hvw : v = st.view p.newIdx := by
    have hs := hcl.fileMap_some hp.newIdx_lt (hk.id.trans_ne hv.fid)
    rw [hk.id, hm] at hs
    exact Option.some.inj hs
  have hmeta : p.fileMeta = st.files p.newIdx := hk.fileMeta.trans (if_neg (not_not.mpr htr))
  have hcur : (st.files p.newIdx).curSize = v.curSize := by
    rw [hvw]
    rfl
  have hmlt := cfg.maxFileSize_lt
  have hmle := (hp.placed hw hv.inRange).maxSize_le
  have hc := h.content_new hp hw hv fun _ => by rw [hmeta, hcur, ho]; exact Nat.le_add_right _ _
  have htake : (st.content p.newIdx).take v.curSize = v.content := by
    rw [hvw]
    exact List.take_of_length_le (Image.content_length _).le
  unfold Image.view
  rw [hc, h.files_new hp.newIdx_lt, WritePlan.entry_flags, WritePlan.entry_maxSize,
    WritePlan.entry_curSize hv hp.fits (by omega), hmeta, hcur, ho, ite_self, htake]
  have hsz : (if r.dataSize = 0 then v.curSize else max v.curSize (v.curSize + r.dataSize)) =
      v.curSize + r.dataSize := by
    split_ifs with h0
    · rw [h0, Nat.add_zero]
    · exact max_eq_right (Nat.le_add_right _ _)
  rw [hsz, hvw]
  rfl

end WriteStep

/-- A further part is taken when it fits. -/
theorem Image.Wf.writePlan_append (hw : st.Wf cfg a) (hacc : cfg.Accepted) (hf : r.fid ≠ 0)
    (hm : st.fileMap cfg r.fid = some v) (hflags : r.flags &&& internalFlagsMask = 0)
    (htr : r.flags &&& flagTruncate = 0) (hal : utilsIsAligned r.offset cfg.programUnit = true)
    (ho : r.offset = v.curSize) (hsz : r.offset + r.size cfg ≤ v.maxSize) :
    ∃ p, st.writePlan cfg r = .ok p := by
  rcases hw.findFile_fid hacc hf with ⟨i, hi, hid, hm', hfind⟩ | ⟨hm', _⟩
  · rw [hm] at hm'
    obtain rfl := Option.some.inj hm'
    have hn : i ≠ metadataInvalidIndex := by
      have := cfg.maxNumFiles_lt
      unfold metadataInvalidIndex
      omega
    have hfits : r.Fits cfg (st.files i) := .inr ⟨hal, ho.le, hsz⟩
    refine ⟨⟨i, i, st.files i, st.blocks (st.files i).lblock⟩, ?_⟩
    unfold writePlan writeTarget
    rw [if_neg (not_not.mpr hflags), hfind]
    simp only [bind, Except.bind, if_neg (not_not.mpr htr), writeReserve, if_neg hn, if_pos hfits]
    rfl
  · rw [hm] at hm'
    cases hm'

end Etss
