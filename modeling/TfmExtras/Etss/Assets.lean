import TfmExtras.Etss.FileMap

/-! The files as assets: the bytes and the flags that the clients can see, and what the writes make
of them with which an asset is set. -/

namespace Etss
open NorFlash NorFlash.Flash FlashM

variable {cfg : Config} {st st₁ st₂ st₃ st' : Image} {a s e m : Nat} {fid : Fid} {r : WriteReq}
  {p : WritePlan} {c : Ctx} {fl : Flash} {v : Image.View}

/-- What the clients can see of a file. -/
structure Asset where
  data : List UInt8
  flags : Nat
deriving DecidableEq, Repr

def Image.View.asset (v : Image.View) : Asset := ⟨v.content, v.flags &&& userFlagsMask⟩

def Image.asset (cfg : Config) (st : Image) (fid : Fid) : Option Asset :=
  (st.fileMap cfg fid).map Image.View.asset

theorem Image.fileMap_content_length (h : st.fileMap cfg fid = some v) :
    v.content.length = v.curSize := by
  unfold fileMap at h
  split_ifs at h
  obtain ⟨i, _, rfl⟩ := Option.map_eq_some_iff.mp h
  exact Image.content_length i

/-! ## An empty file that is replaced -/

/-- Replacing the file moves the bytes of the new one: the old file is empty and in the same
logical block, and a nonempty file starts where it starts, which may be the new one. The bytes come
from `m` cells further on then, as if that file was the deleted one. -/
def WritePlan.MovedBy (cfg : Config) (p : WritePlan) (st : Image) (r : WriteReq) (m : Nat) : Prop :=
  p.Replaces cfg st r ∧ (st.files p.oldIdx).maxSize = 0 ∧
    p.fileMeta.lblock = (st.files p.oldIdx).lblock ∧
    ((∃ e, st.SharesWith cfg p.oldIdx e ∧ (st.files e).maxSize = m) ∨
      p.fileMeta.dataIdx = (st.files p.oldIdx).dataIdx ∧ r.max cfg = m)

theorem Image.Same.dataEnd (hs : st.Same cfg st') {l : Nat} (hl : l < numActiveDblocks cfg) :
    st'.dataEnd cfg l = st.dataEnd cfg l := by
  unfold Image.dataEnd
  rw [hs.blocks l hl]

theorem Image.Same.sharesWith_iff (hs : st.Same cfg st') {d : Nat} (hd : d < cfg.maxNumFiles) :
    st'.SharesWith cfg d e ↔ st.SharesWith cfg d e := by
  constructor
  · rintro ⟨h0, he, hid, hl, hx, hpos⟩
    rw [hs.files d hd] at h0 hl hx
    rw [hs.files e he] at hid hl hx hpos
    exact ⟨h0, he, hid, hl, hx, hpos⟩
  · rintro ⟨h0, he, hid, hl, hx, hpos⟩
    rw [← hs.files d hd] at h0 hl hx
    rw [← hs.files e he] at hid hl hx hpos
    exact ⟨h0, he, hid, hl, hx, hpos⟩

namespace WriteStep
variable (h : WriteStep cfg s st r p st₁) (hp : p.Sound cfg st r) (hw : st.Wf cfg a)
  (hv : r.Valid cfg) (hrep : p.Replaces cfg st r)
include h hp hw hv hrep

/-- The new file can come to start where the old one starts. -/
theorem sharesWith_iff : st₁.SharesWith cfg p.oldIdx e ↔ st.SharesWith cfg p.oldIdx e ∨
    (e = p.newIdx ∧ (st.files p.oldIdx).maxSize = 0 ∧
      p.fileMeta.lblock = (st.files p.oldIdx).lblock ∧
      p.fileMeta.dataIdx = (st.files p.oldIdx).dataIdx) := by
  have hold := h.files_old hrep.oldIdx_lt (hrep.ne hv.fid)
  have hnew := h.files_new hp.newIdx_lt
  constructor
  · rintro ⟨h0, he, hid, hl, hx, hpos⟩
    rw [hold] at h0 hl hx
    by_cases hn : e = p.newIdx
    · subst hn
      rw [hnew, WritePlan.entry_lblock] at hl
      rw [hnew, WritePlan.entry_dataIdx] at hx
      exact .inr ⟨rfl, h0, hl, hx⟩
    · have hne : e ≠ p.oldIdx := by
        rintro rfl
        rw [hold] at hpos
        exact hpos.ne' h0
      rw [h.files_ne he hn hne] at hid hl hx hpos
      exact .inl ⟨h0, he, hid, hl, hx, hpos⟩
  · rintro (hsh | ⟨rfl, h0, hl, hx⟩)
    · have hn : e ≠ p.newIdx := by
        rintro rfl
        exact hsh.id hrep.free
      have hfile := h.files_ne hsh.lt hn hsh.ne
      refine ⟨?_, hsh.lt, ?_, ?_, ?_, ?_⟩
      · rw [hold]
        exact hsh.empty
      · rw [hfile]
        exact hsh.id
      · rw [hold, hfile]
        exact hsh.lblock
      · rw [hold, hfile]
        exact hsh.dataIdx
      · rw [hfile]
        exact hsh.pos
    · have hmax := hrep.maxSize
      rw [h0] at hmax
      refine ⟨?_, hp.newIdx_lt, ?_, ?_, ?_, ?_⟩
      · rw [hold]
        exact h0
      · rw [h.id_new hp hw hv]
        exact hv.fid
      · rw [hold, hnew, WritePlan.entry_lblock]
        exact hl
      · rw [hold, hnew, WritePlan.entry_dataIdx]
        exact hx
      · rw [hnew, WritePlan.entry_maxSize, hrep.toTakes.maxSize]
        omega

/-- Once the new file is made, the old one shares its start with a file of that size. -/
theorem movedBy_iff : p.MovedBy cfg st r m ↔
    p.fileMeta.lblock = (st.files p.oldIdx).lblock ∧
      ∃ e, st₁.SharesWith cfg p.oldIdx e ∧ (st₁.files e).maxSize = m := by
  have hmax : (st₁.files p.newIdx).maxSize = r.max cfg := by
    rw [h.files_new hp.newIdx_lt, WritePlan.entry_maxSize, hrep.toTakes.maxSize]
  have hfile : ∀ e, st.SharesWith cfg p.oldIdx e → st₁.files e = st.files e := fun e he =>
    h.files_ne he.lt (fun hn => he.id (hn ▸ hrep.free)) he.ne
  constructor
  · rintro ⟨_, h0, hl, ⟨e, he, rfl⟩ | ⟨hx, rfl⟩⟩
    · exact ⟨hl, e, (h.sharesWith_iff hp hw hv hrep).mpr (.inl he), by rw [hfile e he]⟩
    · exact ⟨hl, _, (h.sharesWith_iff hp hw hv hrep).mpr (.inr ⟨rfl, h0, hl, hx⟩), hmax⟩
  · rintro ⟨hl, e, he, rfl⟩
    rcases (h.sharesWith_iff hp hw hv hrep).mp he with hsh | ⟨rfl, h0, _, hx⟩
    · exact ⟨hrep, hsh.empty, hl, .inl ⟨e, hsh, by rw [hfile e hsh]⟩⟩
    · exact ⟨hrep, h0, hl, .inr ⟨hx, hmax.symm⟩⟩

omit hp hv in
/-- The new file is the last one of its logical block. -/
theorem dataEnd_replaced :
    st₁.dataEnd cfg p.fileMeta.lblock = p.fileMeta.dataIdx + r.max cfg := by
  have hfs := hw.freeSize_le _ hrep.lblock_lt
  have hroom := hrep.room
  unfold Image.dataEnd
  rw [h.freeSize_eq hrep.lblock_lt, if_pos rfl, hrep.toTakes.freeSize, hrep.toTakes.dataIdx,
    Image.dataEnd]
  omega

/-- Deleting the old file leaves the bytes of the new one exactly when they repeat at the distance
that they are moved. -/
theorem content_replaced_iff (hacc : cfg.Accepted) (hs : st₁.Same cfg st₂)
    (hd : DeleteStep cfg a st₂ p.oldIdx st₃) (ho : r.offset = 0) (hsz : r.size cfg = r.max cfg) :
    st₃.content p.newIdx = (List.range r.dataSize).map r.data ↔
      ∀ m, p.MovedBy cfg st r m → ∀ k < r.dataSize,
        r.data k = if k + m < r.max cfg then r.data (k + m) else cfg.eraseVal := by
  have hwf₁ := h.wf hp hw hv hacc
  have hwf₂ := hs.wf hacc hwf₁
  have hne : p.newIdx ≠ p.oldIdx := (hrep.ne hv.fid).symm
  have hnew : st₂.files p.newIdx = p.entry r := by
    rw [hs.files _ hp.newIdx_lt, h.files_new hp.newIdx_lt]
  have hold : st₂.files p.oldIdx = (st.files p.oldIdx).mark := by
    rw [hs.files _ hrep.oldIdx_lt, h.files_old hrep.oldIdx_lt (hrep.ne hv.fid)]
  have hid : (st₂.files p.newIdx).id ≠ 0 := by
    rw [hs.files _ hp.newIdx_lt, h.id_new hp hw hv]
    exact hv.fid
  have hidOld : (st₂.files p.oldIdx).id ≠ 0 := by
    rw [hold]
    exact hrep.id.trans_ne hv.fid
  have hlb : (st₂.files p.newIdx).lblock = p.fileMeta.lblock := by
    rw [hnew, WritePlan.entry_lblock]
  have hlbOld : (st₂.files p.oldIdx).lblock = (st.files p.oldIdx).lblock := by
    rw [hold]
    rfl
  have hcon : st₂.content p.newIdx = (List.range r.dataSize).map r.data := by
    have hc := h.content_new hp hw hv fun _ => by
      rw [hrep.toTakes.curSize]
      exact Nat.zero_le _
    rw [hs.content hwf₁ hp.newIdx_lt (hs.files _ hp.newIdx_lt ▸ hid), hc, hrep.toTakes.curSize, ho,
      ite_self, List.take_zero, List.nil_append]
  have hcur : (st₂.files p.newIdx).curSize = r.dataSize := by
    have hlen := congrArg List.length hcon
    rwa [Image.content_length, List.length_map, List.length_range] at hlen
  have hend : st₂.dataEnd cfg p.fileMeta.lblock = p.fileMeta.dataIdx + r.max cfg := by
    rw [hs.dataEnd hrep.lblock_lt, h.dataEnd_replaced hw hrep]
  have hbyte : r.dataSize ≠ 0 → ∀ k < r.max cfg,
      st₂.data p.fileMeta.lblock (p.fileMeta.dataIdx + k) = r.data k := fun h0 k hk => by
    have hn := h.new h0 k (hsz ▸ hk)
    rw [ho, Nat.add_zero] at hn
    have hpl := hp.placed hw hv.inRange
    have hle := hpl.le_dataIdx
    rw [← hn]
    refine hs.data _ hrep.lblock_lt _ ?_ ?_
    · rw [h.dataStart hrep.lblock_lt]
      omega
    · rw [h.dataEnd_replaced hw hrep]
      omega
  have hmoved : ∀ m, p.MovedBy cfg st r m ↔ p.fileMeta.lblock = (st.files p.oldIdx).lblock ∧
      ∃ e, st₂.SharesWith cfg p.oldIdx e ∧ (st₂.files e).maxSize = m := fun m => by
    refine (h.movedBy_iff hp hw hv hrep).trans (and_congr_right fun _ => exists_congr fun e => ?_)
    rw [hs.sharesWith_iff hrep.oldIdx_lt]
    exact and_congr_right fun he => by rw [hs.files e he.lt]
  by_cases hl : p.fileMeta.lblock = (st.files p.oldIdx).lblock
  · have hmem : p.newIdx ∈ st₂.filesIn cfg (st₂.files p.oldIdx).lblock :=
      Image.mem_filesIn.mpr ⟨hp.newIdx_lt, hid, by rw [hlb, hlbOld, hl]⟩
    have hiff : ∀ e, st₂.SharesWith cfg p.oldIdx e →
        (st₃.content p.newIdx = (List.range r.dataSize).map r.data ↔ ∀ k < r.dataSize,
          r.data k = if k + (st₂.files e).maxSize < r.max cfg then
            r.data (k + (st₂.files e).maxSize) else cfg.eraseVal) := fun e he => by
      have hx : (st₂.files p.oldIdx).dataIdx ≤ p.fileMeta.dataIdx := by
        have hin := (hw.inside hrep.oldIdx_lt (hrep.id.trans_ne hv.fid)).2
        rw [← hl, ← hrep.toTakes.dataIdx] at hin
        rw [hold]
        exact (Nat.le_add_right _ _).trans hin
      rw [← hcon]
      refine (hd.content_shares hwf₂ hrep.oldIdx_lt hidOld he hmem hne).trans ?_
      rw [hcur, hnew, WritePlan.entry_dataIdx, hlbOld, ← hl]
      refine forall_congr' fun k => forall_congr' fun hk => ?_
      have h0 : r.dataSize ≠ 0 := by omega
      have hkmax : k < r.max cfg := hsz ▸ lt_of_lt_of_le hk (WritePlan.fits_le hv hp.fits h0).2.1
      unfold Image.byteAhead
      rw [hend, hbyte h0 k hkmax]
      have hlt : p.fileMeta.dataIdx + k + (st₂.files e).maxSize <
          p.fileMeta.dataIdx + r.max cfg ↔ k + (st₂.files e).maxSize < r.max cfg := by omega
      simp only [hlt]
      have hahead : k + (st₂.files e).maxSize < r.max cfg → st₂.data p.fileMeta.lblock
          (p.fileMeta.dataIdx + k + (st₂.files e).maxSize) = r.data (k + (st₂.files e).maxSize) :=
        fun hk => by rw [Nat.add_assoc, hbyte h0 _ hk]
      have hite : (if k + (st₂.files e).maxSize < r.max cfg then st₂.data p.fileMeta.lblock
          (p.fileMeta.dataIdx + k + (st₂.files e).maxSize) else cfg.eraseVal) =
          if k + (st₂.files e).maxSize < r.max cfg then r.data (k + (st₂.files e).maxSize)
          else cfg.eraseVal := by
        split_ifs with hc
        · exact hahead hc
        · rfl
      rw [hite]
      exact ⟨fun hc => hc (hx.trans (Nat.le_add_right _ _)), fun hc _ => hc⟩
    by_cases hany : ∃ e, st₂.SharesWith cfg p.oldIdx e
    · obtain ⟨e, he⟩ := hany
      refine ⟨fun hc m hm => ?_, fun hm => ?_⟩
      · obtain ⟨_, e', he', rfl⟩ := (hmoved m).mp hm
        exact (hiff e' he').mp hc
      · exact (hiff e he).mpr (hm _ ((hmoved _).mpr ⟨hl, e, he, rfl⟩))
    · refine iff_of_true ?_ fun m hm => ?_
      · rw [← hcon]
        exact hd.content hwf₂ hrep.oldIdx_lt hidOld (fun hsh => hany hsh.exists_with) hp.newIdx_lt
          hne hid
      · obtain ⟨_, e, he, _⟩ := (hmoved m).mp hm
        exact absurd ⟨e, he⟩ hany
  · refine iff_of_true ?_ fun m hm => absurd ((hmoved m).mp hm).1 hl
    rw [← hcon]
    exact hd.content_other hwf₂ hrep.oldIdx_lt hp.newIdx_lt hid (by rwa [hlb, hlbOld])

end WriteStep

/-! ## The first write of an asset -/

/-- What the new file shows is kept when an empty old one is deleted. -/
def Image.ReplaceKeeps (cfg : Config) (st : Image) (r : WriteReq) : Prop :=
  ∀ p m, st.writePlan cfg r = .ok p → p.MovedBy cfg st r m → ∀ k < r.dataSize,
    r.data k = if k + m < r.max cfg then r.data (k + m) else cfg.eraseVal

theorem Image.ReplaceKeeps.of_not_shares (h : ¬ st.ReplaceShares cfg r) : st.ReplaceKeeps cfg r := by
  rintro p m hp ⟨hrep, h0, hl, hm⟩
  refine absurd ⟨p, hp, hrep, h0, ?_⟩ h
  rcases hm with ⟨e, he, _⟩ | ⟨hx, _⟩
  · exact .inl he.sharesIndex
  · exact .inr ⟨hl, hx⟩

/-- The file that the first write of an asset leaves, of the given maximum size. -/
structure Image.View.FirstOf (cfg : Config) (r : WriteReq) (v : Image.View) : Prop where
  flags : v.flags &&& userFlagsMask = r.flags &&& userFlagsMask
  maxSize : v.maxSize = r.max cfg
  curSize : v.curSize = r.dataSize

theorem Image.infoOf_some_inj {o : Option Image.View} (h : infoOf o = infoOf (some v)) :
    ∃ w, o = some w ∧ w.curSize = v.curSize ∧ w.maxSize = v.maxSize ∧
      w.flags &&& userFlagsMask = v.flags &&& userFlagsMask := by
  cases o with
  | none => exact nomatch h
  | some w =>
    have hi := Except.ok.inj h
    exact ⟨w, rfl, congrArg FileInfo.sizeCurrent hi, congrArg FileInfo.sizeMax hi,
      congrArg FileInfo.flags hi⟩

theorem Image.view_of_fileMap (h : st.Closed cfg) {i : Nat} (hi : i < cfg.maxNumFiles)
    (hid : (st.files i).id = fid) (hf : fid ≠ 0) : st.fileMap cfg fid = some (st.view i) := by
  rw [← hid]
  exact h.fileMap_some hi (hid.trans_ne hf)

section
variable {res : Except Status Unit} (heff : WriteEffect cfg a s st r res st') (hw : st.Wf cfg a)
  (hacc : cfg.Accepted) (ha : a ≤ 1) (hv : r.Valid cfg) (hcl : st.Closed cfg)
  (htr : r.flags &&& flagTruncate ≠ 0) (ho : r.offset = 0)
include heff hw hacc ha hv hcl htr ho

/-- The first write of an asset, in a file that is as large as its data. -/
theorem WriteEffect.content_first_iff (hcl' : st'.Closed cfg) (hok : res = .ok ())
    (hsz : r.size cfg = r.max cfg) :
    (∃ v, st'.fileMap cfg r.fid = some v ∧ v.content = (List.range r.dataSize).map r.data) ↔
      st.ReplaceKeeps cfg r := by
  cases heff with
  | fail _ _ => exact nomatch hok
  | update plan keeps step same =>
    have hp := hw.writePlan_sound hacc ha plan
    have hno : ¬ st.ReplaceShares cfg r := by
      rintro ⟨p', hp', hrep, _⟩
      rw [plan] at hp'
      exact keeps (Except.ok.inj hp' ▸ hrep)
    have hmap := (step.written_of_keeps plan hw hacc ha hv hcl keeps same).map hno
    refine iff_of_true ⟨_, by rw [hmap, Function.update_self], ?_⟩ (.of_not_shares hno)
    rw [step.view_first hp hw hv (.inl htr) ho]
  | @replace p _ _ _ _ plan replaces step same₁ delete same =>
    have hp := hw.writePlan_sound hacc ha plan
    have hwf₂ := same₁.wf hacc (step.wf hp hw hv hacc)
    have hpend := same₁.pending (step.pending hp hw hv hcl replaces)
    have hne : p.newIdx ≠ p.oldIdx := (replaces.ne hv.fid).symm
    have hid₃ := delete.files_ne hp.newIdx_lt hne
    rw [same₁.files _ hp.newIdx_lt] at hid₃
    have hid : (st'.files p.newIdx).id = r.fid := by
      rw [same.files _ hp.newIdx_lt, hid₃, Image.shifted_id, step.id_new hp hw hv]
    have hcon := same.content (delete.wf hwf₂ hpend.lt hpend.valid hacc) hp.newIdx_lt
      (by rw [← same.files _ hp.newIdx_lt, hid]; exact hv.fid)
    rw [Image.view_of_fileMap hcl' hp.newIdx_lt hid hv.fid]
    have hkeeps : st.ReplaceKeeps cfg r ↔ ∀ m, p.MovedBy cfg st r m → ∀ k < r.dataSize,
        r.data k = if k + m < r.max cfg then r.data (k + m) else cfg.eraseVal := by
      refine ⟨fun hk m hm => hk p m plan hm, fun hk p' m hp' hm => ?_⟩
      rw [plan] at hp'
      exact hk m (Except.ok.inj hp' ▸ hm)
    rw [hkeeps, ← step.content_replaced_iff hp hw hv replaces hacc same₁ delete ho hsz, ← hcon]
    refine ⟨?_, fun hc => ⟨_, rfl, hc⟩⟩
    rintro ⟨v, hv, hc⟩
    obtain rfl := Option.some.inj hv
    exact hc

end

/-- What the first write of an asset leaves. -/
structure FirstWrite (cfg : Config) (c : Ctx) (fl : Flash) (r : WriteReq)
    (out : Outcome Ctx Status Unit) : Prop where
  store : Store cfg out.ctx out.flash
  status : out.status = .ok ()
  file : ∃ v, (mountedImage cfg out.ctx out.flash).fileMap cfg r.fid = some v ∧ v.FirstOf cfg r
  others : ∀ fid, fid ≠ r.fid → Image.infoOf ((mountedImage cfg out.ctx out.flash).fileMap cfg fid) =
    Image.infoOf ((mountedImage cfg c fl).fileMap cfg fid)
  map : ¬ (mountedImage cfg c fl).ReplaceShares cfg r →
    (mountedImage cfg out.ctx out.flash).fileMap cfg = Function.update
      ((mountedImage cfg c fl).fileMap cfg) r.fid
        (some ⟨r.flags, r.max cfg, r.dataSize, (List.range r.dataSize).map r.data⟩)
  content : r.size cfg = r.max cfg →
    ((∃ v, (mountedImage cfg out.ctx out.flash).fileMap cfg r.fid = some v ∧
      v.content = (List.range r.dataSize).map r.data) ↔
        (mountedImage cfg c fl).ReplaceKeeps cfg r)

/-- A write that empties or makes a file is refused and changes nothing, or it is made. -/
theorem Store.firstWrite (h : Store cfg c fl) (hv : r.Valid cfg) (htr : r.flags &&& flagTruncate ≠ 0)
    (ho : r.offset = 0) :
    (∃ e, (mountedImage cfg c fl).writePlan cfg r = .error e ∧
      ((FsCall.write r).after cfg c fl).status = .error e ∧
      Store cfg ((FsCall.write r).after cfg c fl).ctx ((FsCall.write r).after cfg c fl).flash ∧
      (mountedImage cfg ((FsCall.write r).after cfg c fl).ctx
        ((FsCall.write r).after cfg c fl).flash).fileMap cfg = (mountedImage cfg c fl).fileMap cfg) ∨
    ((∃ p, (mountedImage cfg c fl).writePlan cfg r = .ok p) ∧
      FirstWrite cfg c fl r ((FsCall.write r).after cfg c fl)) := by
  have hs : WriteSpec cfg c fl r _ _ _ := h.call_spec (f := .write r) hv
  obtain ⟨hst, heff, -, -⟩ := hs
  rcases heff.written h.wf h.accepted h.active_le hv h.closed with
    ⟨e, he, hp, hm⟩ | ⟨hok, p, st₁, hp, hstep, hw⟩
  · exact .inl ⟨e, hp, he, hst, hm⟩
  · have hsound := h.wf.writePlan_sound h.accepted h.active_le hp
    have hview := hstep.view_first hsound h.wf hv (.inl htr) ho
    rw [hview] at hw
    obtain ⟨v, hv', hcur, hmax, hflags⟩ := Image.infoOf_some_inj hw.own
    exact .inr ⟨⟨p, hp⟩, hst, hok, ⟨v, hv', hflags, hmax, hcur⟩, hw.others, hw.map,
      heff.content_first_iff h.wf h.accepted h.active_le hv h.closed htr ho hst.closed hok⟩

/-! ## Further parts -/

/-- A further part of an asset is appended to what it has. -/
theorem Store.appendWrite (h : Store cfg c fl) (hv : r.Valid cfg)
    (htr : r.flags &&& flagTruncate = 0) (hflags : r.flags &&& internalFlagsMask = 0)
    (hm : (mountedImage cfg c fl).fileMap cfg r.fid = some v)
    (hal : utilsIsAligned r.offset cfg.programUnit = true) (ho : r.offset = v.curSize)
    (hsz : r.offset + r.size cfg ≤ v.maxSize) :
    ((FsCall.write r).after cfg c fl).status = .ok () ∧
      Store cfg ((FsCall.write r).after cfg c fl).ctx ((FsCall.write r).after cfg c fl).flash ∧
      (mountedImage cfg ((FsCall.write r).after cfg c fl).ctx
        ((FsCall.write r).after cfg c fl).flash).fileMap cfg = Function.update
          ((mountedImage cfg c fl).fileMap cfg) r.fid (some { v with
            curSize := v.curSize + r.dataSize
            content := v.content ++ (List.range r.dataSize).map r.data }) := by
  have hs : WriteSpec cfg c fl r _ _ _ := h.call_spec (f := .write r) hv
  obtain ⟨hst, heff, -, -⟩ := hs
  obtain ⟨p, hp⟩ := h.wf.writePlan_append h.accepted hv.fid hm hflags htr hal ho hsz
  have hsound := h.wf.writePlan_sound h.accepted h.active_le hp
  rcases heff.written h.wf h.accepted h.active_le hv h.closed with
    ⟨e, he, hp', hm⟩ | ⟨hok, p', st₁, hp', hstep, hw⟩
  · rw [hp] at hp'
    exact nomatch hp'
  · obtain rfl : p = p' := Except.ok.inj (hp.symm.trans hp')
    have hno : ¬ (mountedImage cfg c fl).ReplaceShares cfg r := by
      rintro ⟨p₂, hp₂, hrep, _⟩
      exact hrep.truncate htr
    have hmap := hw.map hno
    rw [hstep.view_append hsound h.wf hv htr hm h.closed ho] at hmap
    exact ⟨hok, hst, hmap⟩

end Etss
