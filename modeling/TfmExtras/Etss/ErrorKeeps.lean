import TfmExtras.Etss.CallFault
import TfmExtras.Etss.FileMap

/-! Calls that return an error: whether the files are as before. An update that is made and then
cannot erase what it replaced is reported as failed, and so is a write whose second update fails. -/

namespace Etss
open NorFlash NorFlash.Flash FlashM

variable {cfg : Config} {a s d i : Nat} {strict : Prop} {P : Image → Prop} {st st' : Image}
  {c c' c₁ : Ctx} {fl fl₀ fl₁ fl₂ fl' : Flash} {F : Faults} {fid : Fid} {r : WriteReq}
  {p : WritePlan} {out : Outcome Ctx Status Unit}

/-! ## What a caller sees -/

/-- No file id is in two entries. -/
def Image.UniqueIds (cfg : Config) (st : Image) : Prop :=
  ∀ i j, i < cfg.maxNumFiles → j < cfg.maxNumFiles → (st.files i).id ≠ 0 →
    (st.files i).id = (st.files j).id → i = j

/-- The files look as before, and each has one entry. -/
structure Unchanged (cfg : Config) (c : Ctx) (fl : Flash) (c' : Ctx) (fl' : Flash) : Prop where
  answers : ∀ fid, fid ≠ 0 → infoAnswer cfg c' fl' fid = infoAnswer cfg c fl fid ∧
    ∀ size offset, readAnswer cfg c' fl' fid size offset = readAnswer cfg c fl fid size offset
  unique : (mountedImage cfg c' fl').UniqueIds cfg

/-- A call that returns an error has changed nothing. -/
def ErrorKeeps (cfg : Config) (c : Ctx) (fl : Flash) (out : Outcome Ctx Status Unit) : Prop :=
  out.status ≠ .ok () → Unchanged cfg c fl out.ctx out.flash

theorem ErrorKeeps.of_ok (h : out.status = .ok ()) : ErrorKeeps cfg c fl out :=
  fun hn => absurd h hn

theorem errorKeeps_iff (h : ∃ e, out.status = .error e) :
    ErrorKeeps cfg c fl out ↔ Unchanged cfg c fl out.ctx out.flash := by
  obtain ⟨e, he⟩ := h
  refine ⟨fun hk => hk ?_, fun hu _ => hu⟩
  rw [he]
  exact nofun

/-- What the callers can see of a file. -/
def Image.View.seen (v : Image.View) : Image.View := { v with flags := v.flags &&& userFlagsMask }

namespace Readable
variable (h : Readable cfg c fl) (h' : Readable cfg c' fl')
include h h'

theorem unchanged_of_same (hu : (mountedImage cfg c fl).UniqueIds cfg)
    (hs : (mountedImage cfg c fl).Same cfg (mountedImage cfg c' fl')) :
    Unchanged cfg c fl c' fl' := by
  have hmap := hs.fileMap (show (mountedImage cfg c fl).Wf cfg c.activeMetablock from h.wf)
  refine ⟨fun fid h0 => ⟨?_, fun size offset => ?_⟩, fun i j hi hj => ?_⟩
  · rw [Readable.infoAnswer_eq h' h0, Readable.infoAnswer_eq h h0, hmap]
  · rw [Readable.readAnswer_eq h' h0, Readable.readAnswer_eq h h0, hmap]
  · rw [hs.files i hi, hs.files j hj]
    exact hu i j hi hj

theorem not_unchanged_of_info (h0 : fid ≠ 0)
    (hne : Image.infoOf ((mountedImage cfg c' fl').fileMap cfg fid) ≠
      Image.infoOf ((mountedImage cfg c fl).fileMap cfg fid)) : ¬ Unchanged cfg c fl c' fl' := by
  intro hu
  have hi := (hu.answers fid h0).1
  rw [Readable.infoAnswer_eq h' h0, Readable.infoAnswer_eq h h0] at hi
  exact hne hi

end Readable

/-! ## An update that fails -/

/-- The call has failed, and the active filesystem is `st`. -/
structure FailsOn (cfg : Config) (st : Image) (out : Outcome Ctx Status Unit) : Prop where
  status : ∃ e, out.status = .error e
  readable : Readable cfg out.ctx out.flash
  same : st.Same cfg (mountedImage cfg out.ctx out.flash)

theorem failsOn_of_active {b : Nat} (hacc : cfg.Accepted) (hst : ∃ e, out.status = .error e)
    (ha : a ≤ 1) (hb : b ≤ 1) (hne : b ≠ a) (hact : out.ctx.activeMetablock = a)
    (hscr : out.ctx.scratchMetablock = b) (hw : st.Wf cfg a)
    (hs : st.Same cfg (image cfg out.flash a)) : FailsOn cfg st out := by
  refine ⟨hst, ⟨hacc, ?_, ?_, ?_, ?_, rfl, rfl, .refl _ _⟩, ?_⟩
  · exact hact.trans_le ha
  · exact hscr.trans_le hb
  · rw [hact, hscr]
    exact hne
  · rw [hact]
    exact hs.wf hacc hw
  · unfold mountedImage
    rw [hact]
    exact hs

/-- Nothing but blocks that the old filesystem does not use has changed. -/
theorem Before.failsOn (h : Before cfg fl₀ a s) (hst : ∃ e, out.status = .error e)
    (hact : out.ctx.activeMetablock = a) (hscr : out.ctx.scratchMetablock = s)
    (hf : OnlyIn (unusedRegion cfg fl₀ a) fl₀ out.flash) : FailsOn cfg (image cfg fl₀ a) out :=
  failsOn_of_active h.accepted hst h.le h.s_le h.ne hact hscr h.wf (h.same_of_onlyIn hf)

/-- The first operation that fails is one of the erases that follow the new header. -/
def Positions.Published (p : Positions) (F : Faults) : Prop :=
  ∃ i, F.FirstAt i ∧ p.published ≤ i ∧ i < p.done

namespace Stages
variable {α : Type} {stage : FsM α} {complete : α → FsM Unit} {x : α} {k : α → FsM Unit}
variable (h : Stages cfg fl₀ a s P c stage complete x c₁ fl₁ fl₂)
include h

/-- Up to the new header, the old filesystem stays active. -/
theorem fails_unpublished (hF : F.FirstAt i)
    (hi : i < (positions cfg stage complete c fl₀).published) : FailsOn cfg (image cfg fl₀ a)
      ((stage >>= fun x => complete x >>= fun _ => flashFsMblockMetaUpdateFinalize cfg >>= fun _ =>
        k x).runFaulty cfg.eraseVal F c fl₀) := by
  by_cases h₁ : i < (positions cfg stage complete c fl₀).staged
  · obtain ⟨hst, hc, y, hy, n, _, hf⟩ := h.stage_givesUp.runFaulty_bind
      (f := fun x => complete x >>= fun _ => flashFsMblockMetaUpdateFinalize cfg >>= fun _ =>
        k x) hF h₁
    refine h.before.failsOn hst ?_ ?_ ?_
    · rw [hc, h.active]
    · rw [hc, h.scratch]
    · rw [hf]
      exact (h.stage_trace y hy n).mono h.before.stageRegion_unused
  rw [not_lt] at h₁
  by_cases h₂ : i < (positions cfg stage complete c fl₀).completed
  · rw [h.positions_eq.1] at h₂
    rw [h.runFaulty_staged (hF.cleanFor h₁)]
    obtain ⟨hst, hc, y, hy, n, _, hf⟩ := h.complete_steady.runFaulty_bind
      (f := fun _ => flashFsMblockMetaUpdateFinalize cfg >>= fun _ => k x) (hF.drop h₁)
      (Nat.sub_lt_left_of_lt_add h₁ h₂)
    refine h.before.failsOn hst ?_ ?_ ?_
    · rw [hc, h.active₁]
    · rw [hc, h.scratch₁]
    · rw [hf]
      exact (h.complete_trace y hy n).mono h.before.stageRegion_unused
  · rw [not_lt] at h₂
    rw [h.positions_eq.2.1] at hi
    rw [h.runFaulty_completed (hF.cleanFor h₂)]
    obtain ⟨hst, hc, y, hy, n, _, hf⟩ := (commitHeader_givesUp_of
      (S := fun c' => c'.activeMetablock = c₁.activeMetablock ∧
        c'.scratchMetablock = c₁.scratchMetablock) fun _ _ => ⟨rfl, rfl⟩).runFaulty_bind
      (f := fun _ => commitEraseMeta >>= fun _ => commitEraseData cfg >>= fun _ => k x)
      (hF.drop h₂) (Nat.sub_lt_left_of_lt_add h₂ hi)
    refine h.before.failsOn hst (hc.1.trans h.active₁) (hc.2.trans h.scratch₁) ?_
    rw [hf]
    have hstaged := h.staged.only.mono h.before.stageRegion_unused
    -- a part of the header is written to the scratch metadata block
    rcases h.commitHeader_run.2 y hy n with he | ⟨m, he⟩
    · rw [he]
      exact hstaged
    · rw [he]
      exact hstaged.trans ((onlyIn_write _ _ _ _).mono fun b o hw => .inl (hw.1.trans h.before.other))

/-- From then on the new one is active. -/
theorem fails_published (hF : F.FirstAt i)
    (h₁ : (positions cfg stage complete c fl₀).published ≤ i)
    (h₂ : i < (positions cfg stage complete c fl₀).done) :
    FailsOn cfg (stagedImage cfg fl₂ s (nextHeader cfg fl₂ s c₁.metaBlockHeader))
      ((stage >>= fun x => complete x >>= fun _ => flashFsMblockMetaUpdateFinalize cfg >>= fun _ =>
        k x).runFaulty cfg.eraseVal F c fl₀) := by
  have hwf := h.wf _ h.staged.step
  have hin : InForce cfg a s (nextHeader cfg fl₂ s c₁.metaBlockHeader) fl₂
      (headerWritten fl₂ s (nextHeader cfg fl₂ s c₁.metaBlockHeader)) :=
    inForce_headerWritten h.staged.scratch_lt
  -- the old metadata block is erased or not, and then the old data block
  have hnew : ∀ out : Outcome Ctx Status Unit, (∃ e, out.status = .error e) →
      out.ctx = ⟨nextHeader cfg fl₂ s c₁.metaBlockHeader, s, a⟩ →
      InForce cfg a s (nextHeader cfg fl₂ s c₁.metaBlockHeader) fl₂ out.flash →
      FailsOn cfg (stagedImage cfg fl₂ s (nextHeader cfg fl₂ s c₁.metaBlockHeader)) out :=
    fun out hst hc hf => failsOn_of_active h.accepted hst h.before.s_le h.before.le h.before.ne.symm
      (by rw [hc]) (by rw [hc]) hwf (hf.same h.before.s_le h.before.ne hwf h.before.le)
  have hmeta := hin.erase h.before.ne.symm (.inl rfl)
  by_cases h₃ : i = (positions cfg stage complete c fl₀).published
  · have hF' := hF.drop h₁
    rw [h₃, Nat.sub_self] at hF'
    rw [h.runFaulty_published (hF.cleanFor h₁)]
    obtain ⟨hst, hc, y, hy, n, _, hf⟩ := commitEraseMeta_givesUp.runFaulty_bind
      (f := fun _ => commitEraseData cfg >>= fun _ => k x) hF' (Nat.zero_lt_succ 0)
    rw [commitEraseMeta_trace, List.mem_singleton] at hy
    refine hnew _ hst hc ?_
    rw [hf, hy]
    unfold failed
    dsimp only
    split_ifs
    · exact hin
    · exact hmeta
  · have h₄ : (positions cfg stage complete c fl₀).published + 1 ≤ i := by omega
    rw [h.positions_eq.2.2, ← Nat.add_assoc] at h₂
    rw [h.runFaulty_erased (hF.cleanFor h₄)]
    obtain ⟨hst, hc, y, hy, n, _, hf⟩ := commitEraseData_steady.runFaulty_bind
      (f := fun _ => k x) (hF.drop h₄) (Nat.sub_lt_left_of_lt_add h₄ h₂)
    refine hnew _ hst hc ?_
    rw [hf]
    rcases (commitEraseData_run _ _).2 y hy n with he | ⟨h2, he⟩
    · rw [he]
      exact hmeta
    · rw [he]
      refine hmeta.erase (fun hs => ?_) (.inr ⟨by omega, rfl⟩)
      have hge := (scratch_ge_of_staged hwf (by omega)).trans_eq hs
      have hle := h.before.s_le
      omega

end Stages

/-- A call that is refused keeps the filesystem, whatever fails. -/
theorem refused_failsOn {α : Type} {stage : FsM α} {k : α → FsM Unit} (hb : Before cfg fl₀ a s)
    (hst : Starts cfg fl₀ a s strict c)
    (hg : stage.GivesUp c (fun _ => True) (· = c) fun _ => True)
    (hs : stage.wp cfg.eraseVal (StagingOp cfg fl₀ a s strict) c fl₀ fun res c' _ =>
      (∃ e, res = .error e) ∧ c' = c) (F : Faults) :
    FailsOn cfg (image cfg fl₀ a) ((stage >>= k).runFaulty cfg.eraseVal F c fl₀) := by
  obtain ⟨htr, hend⟩ := staging_trace hs (.refl _ _)
  obtain ⟨_, ⟨e, he⟩, hctx⟩ := wp_iff.mp hs
  rcases F.cleanFor_or_firstAt (stage.trace cfg.eraseVal c fl₀).length with hc | ⟨i, hi, hF⟩
  · rw [runFaulty_bind_of_clean_error hc he]
    refine hb.failsOn ⟨e, rfl⟩ ?_ ?_ (hend.mono hb.stageRegion_unused)
    · exact (congrArg Ctx.activeMetablock hctx).trans hst.active
    · exact (congrArg Ctx.scratchMetablock hctx).trans hst.scratch
  · obtain ⟨hstat, hctx', y, hy, n, _, hfl⟩ := hg.runFaulty_bind (f := k) hF hi
    refine hb.failsOn hstat ?_ ?_ ?_
    · rw [hctx', hst.active]
    · rw [hctx', hst.scratch]
    · rw [hfl]
      exact (htr y hy n).mono hb.stageRegion_unused

/-! ## Deletions -/

theorem FailsOn.errorKeeps (h : FailsOn cfg (mountedImage cfg c fl) out) (hr : Readable cfg c fl)
    (hu : (mountedImage cfg c fl).UniqueIds cfg) : ErrorKeeps cfg c fl out :=
  fun _ => Readable.unchanged_of_same hr h.readable hu h.same

theorem FailsOn.fileMap (h : FailsOn cfg st out) (hw : st.Wf cfg a) :
    (mountedImage cfg out.ctx out.flash).fileMap cfg = st.fileMap cfg := h.same.fileMap hw

/-- A deletion that fails keeps the files, unless it fails when the file is gone already. -/
theorem Store.fileDelete_errorKeeps_iff (h : Store cfg c fl) (hf : fid ≠ 0) (F : Faults) :
    ErrorKeeps cfg c fl ((flashFsFileDelete cfg fid).runFaulty cfg.eraseVal F c fl) ↔
    ¬ ∃ d < cfg.maxNumFiles, ((mountedImage cfg c fl).files d).id = fid ∧
      (positions cfg (fileDeleteStage cfg fid) (deleteIdxComplete cfg) c fl).Published F := by
  have hs : Starts cfg fl c.activeMetablock c.scratchMetablock False c := h.starts False.elim
  have hb := h.toMounted.before
  have hu : (mountedImage cfg c fl).UniqueIds cfg := h.closed.unique
  have hq := hs.toReady.findFileMeta_query (G := StagingOp cfg fl c.activeMetablock
    c.scratchMetablock False) allowsReads_updateOp fun fileMeta => fileMeta.id == fid
  rw [fileDelete_eq]
  rcases hs.wf.findFile_cases h.accepted (fun fileMeta => fileMeta.id == fid) (i := 0)
    (Nat.zero_add cfg.maxNumFiles).le with ⟨d, _, hd, hp, he⟩ | ⟨hall, he⟩
  · rw [he] at hq
    rw [Nat.zero_add] at hd
    have hid : ((mountedImage cfg c fl).files d).id = fid := beq_iff_eq.mp hp
    have hid0 : ((mountedImage cfg c fl).files d).id ≠ 0 := hid.symm ▸ hf
    obtain ⟨x, c₁, fl₁, fl₂, hx, hst⟩ := hs.deleteStages hb hd hid0 (fileDeleteStage_givesUp fid)
      (hq.failAs.seq_wp (hs.deleteIdxStage_ok hd hid0))
    have hiff : (∃ d < cfg.maxNumFiles, ((mountedImage cfg c fl).files d).id = fid ∧
        (positions cfg (fileDeleteStage cfg fid) (deleteIdxComplete cfg) c fl).Published F) ↔
        (positions cfg (fileDeleteStage cfg fid) (deleteIdxComplete cfg) c fl).Published F :=
      ⟨fun ⟨_, _, _, hh⟩ => hh, fun hh => ⟨d, hd, hid, hh⟩⟩
    have hprog : (fileDeleteStage cfg fid >>= fun x => deleteIdxComplete cfg x >>= fun _ =>
        flashFsMblockMetaUpdateFinalize cfg) = fileDeleteStage cfg fid >>= fun x =>
          deleteIdxComplete cfg x >>= fun _ => flashFsMblockMetaUpdateFinalize cfg >>= fun _ =>
            pure () := by
      simp only [bind_pure_unit]
    rw [hiff, hprog]
    rcases F.cleanFor_or_firstAt (positions cfg (fileDeleteStage cfg fid) (deleteIdxComplete cfg) c
      fl).done with hc | ⟨i, hi, hF⟩
    · rw [hst.runFaulty_done hc]
      refine iff_of_true (.of_ok rfl) ?_
      rintro ⟨i, hF, _, hi⟩
      exact hc.not_firstAt hi hF
    by_cases hpub : i < (positions cfg (fileDeleteStage cfg fid) (deleteIdxComplete cfg) c
      fl).published
    · refine iff_of_true ((hst.fails_unpublished (k := fun _ => pure ()) hF hpub).errorKeeps
        h.ready hu) ?_
      rintro ⟨j, hj, hle, _⟩
      rw [hF.eq hj] at hpub
      omega
    · rw [not_lt] at hpub
      have hfails := hst.fails_published (k := fun _ => pure ()) hF hpub hi
      refine iff_of_false ?_ (not_not_intro ⟨i, hF, hpub, hi⟩)
      rw [errorKeeps_iff hfails.status]
      refine Readable.not_unchanged_of_info h.ready hfails.readable hf ?_
      have hgone := hst.staged.step.fileMap_self hd h.closed
      rw [hfails.fileMap (hst.wf _ hst.staged.step), ← hid, h.closed.fileMap_some hd hid0]
      rw [show (mountedImage cfg c fl).files d = (image cfg fl c.activeMetablock).files d from rfl,
        hgone]
      exact nofun
  · rw [he] at hq
    refine iff_of_true ((refused_failsOn hb hs (fileDeleteStage_givesUp fid) ?_ F).errorKeeps
      h.ready hu) ?_
    · exact hq.failAs.seq_error.wp ⟨⟨_, rfl⟩, rfl⟩
    · rintro ⟨d, hd, hid, _⟩
      exact Bool.false_ne_true ((hall d (Nat.zero_le d) (by omega)).symm.trans
        (beq_iff_eq.mpr hid))

/-! ## Writes -/

/-- What a write in place makes of a file. -/
def Image.View.overwrite (cfg : Config) (r : WriteReq) (v : Image.View) : Image.View :=
  let cur := if r.flags &&& flagTruncate ≠ 0 then 0 else v.curSize
  let cur' := if r.dataSize = 0 then cur else max cur (r.offset + r.dataSize)
  ⟨if r.flags &&& flagTruncate ≠ 0 then r.flags else v.flags, v.maxSize, cur',
    (List.range cur').map fun k =>
      if r.dataSize = 0 ∨ k < r.offset then v.content.getD k 0
      else if k < r.offset + r.size cfg then r.data (k - r.offset) else cfg.eraseVal⟩

/-- The callers can see the write: it makes a file, or it changes what they see of one. -/
def Image.WriteShows (cfg : Config) (st : Image) (r : WriteReq) : Prop :=
  ∀ v, st.fileMap cfg r.fid = some v → (v.overwrite cfg r).seen ≠ v.seen

/-- The readers tell two files apart just when they look different. -/
theorem Image.seen_eq_iff {v v' : Image.View} (hv : v.content.length = v.curSize)
    (hv' : v'.content.length = v'.curSize) :
    (infoOf (some v') = infoOf (some v) ∧
      ∀ size offset, readOf size offset (some v') = readOf size offset (some v)) ↔
    v'.seen = v.seen := by
  constructor
  · rintro ⟨hi, hr⟩
    obtain ⟨hcur, hmax, hflags⟩ := FileInfo.mk.inj (Except.ok.inj hi)
    have hall : ∀ w : Image.View, w.content.length = w.curSize →
        readOf w.curSize 0 (some w) = .ok w.content := fun w hw => by
      have hc : utilsCheckContainedIn w.curSize 0 w.curSize = .ok () :=
        utilsCheckContainedIn_eq_ok.mpr (Nat.zero_add _).le
      show (utilsCheckContainedIn w.curSize 0 w.curSize).map _ = _
      rw [hc, List.drop_zero, ← hw, List.take_length]
      rfl
    have hcon := hr v.curSize 0
    rw [hall v hv, ← hcur, hall v' hv'] at hcon
    unfold View.seen
    rw [hflags, hmax, hcur, Except.ok.inj hcon]
  · intro hs
    unfold View.seen at hs
    obtain ⟨hflags, hmax, hcur, hcon⟩ := View.mk.inj hs
    refine ⟨?_, fun size offset => ?_⟩
    · unfold infoOf
      dsimp only
      rw [hflags, hmax, hcur]
    · unfold readOf
      dsimp only
      rw [hcur, hcon]

theorem Image.view_content_length (st : Image) (i : Nat) :
    (st.view i).content.length = (st.view i).curSize := content_length i

namespace WriteStep
variable (h : WriteStep cfg s st r p st') (hp : p.Sound cfg st r) (hw : st.Wf cfg a)
  (hv : r.Valid cfg)
include h hp hw hv

theorem view_reuses (hk : p.Reuses cfg st r) :
    st'.view p.newIdx = (st.view p.newIdx).overwrite cfg r := by
  have hmlt := cfg.maxFileSize_lt
  have hmle := (hp.placed hw hv.inRange).maxSize_le
  have hentry : st'.files p.newIdx = p.entry r := h.files_new hp.newIdx_lt
  have hcur : (st'.files p.newIdx).curSize = ((st.view p.newIdx).overwrite cfg r).curSize := by
    rw [hentry, WritePlan.entry_curSize hv hp.fits (by omega), hk.fileMeta]
    unfold Image.View.overwrite Image.view
    dsimp only
    split_ifs <;> rfl
  have hflags : (st'.files p.newIdx).flags = ((st.view p.newIdx).overwrite cfg r).flags := by
    rw [hentry, WritePlan.entry_flags, hk.fileMeta]
    unfold Image.View.overwrite Image.view
    dsimp only
    split_ifs <;> rfl
  have hmax : (st'.files p.newIdx).maxSize = ((st.view p.newIdx).overwrite cfg r).maxSize := by
    rw [hentry, WritePlan.entry_maxSize, hk.maxSize_eq]
    rfl
  have hcon : st'.content p.newIdx = ((st.view p.newIdx).overwrite cfg r).content := by
    have hlen : ((st.view p.newIdx).overwrite cfg r).content.length =
        ((st.view p.newIdx).overwrite cfg r).curSize := by
      unfold Image.View.overwrite
      rw [List.length_map, List.length_range]
    refine List.ext_getElem ?_ fun k h₁ h₂ => ?_
    · rw [Image.content_length, hlen, hcur]
    · rw [Image.content_length] at h₁
      have hb := h.content_byte hp hw hv h₁
      rw [List.getD_eq_getElem _ _ (by rwa [Image.content_length])] at hb
      rw [hb]
      unfold Image.View.overwrite Image.view
      simp only [List.getElem_map, List.getElem_range]
  unfold Image.view at *
  rw [hflags, hmax, hcur, hcon]

/-- While a file is replaced, its id is in two entries. -/
theorem not_uniqueIds {st₁ : Image} (hrep : p.Replaces cfg st r) (hs : st'.Same cfg st₁) :
    ¬ st₁.UniqueIds cfg := by
  intro hu
  have hne := hrep.ne hv.fid
  have hnew := h.id_new hp hw hv
  have hold : (st'.files p.oldIdx).id = r.fid := by
    rw [h.id_ne hrep.oldIdx_lt hne, hrep.id]
  refine hne (hu _ _ hrep.oldIdx_lt hp.newIdx_lt ?_ ?_)
  · rw [hs.files _ hrep.oldIdx_lt, hold]
    exact hv.fid
  · rw [hs.files _ hrep.oldIdx_lt, hs.files _ hp.newIdx_lt, hold, hnew]

end WriteStep

/-- A write in one update, reported as failed after it is made. -/
theorem FailsOn.unchanged_iff {st₁ : Image} (h : FailsOn cfg st₁ out) (hm : Store cfg c fl)
    (hv : r.Valid cfg) (hp : (mountedImage cfg c fl).writePlan cfg r = .ok p)
    (hst : WriteStep cfg s (mountedImage cfg c fl) r p st₁)
    (hk : ¬ p.Replaces cfg (mountedImage cfg c fl) r) :
    Unchanged cfg c fl out.ctx out.flash ↔ ¬ (mountedImage cfg c fl).WriteShows cfg r := by
  have hsound := hm.wf.writePlan_sound hm.accepted hm.active_le hp
  have hr : Readable cfg c fl := hm.ready
  have hmap := (hst.written_of_keeps hp hm.wf hm.accepted hm.active_le hv hm.closed hk h.same).map
    fun ⟨q, hq, hrep, _⟩ => by
      rw [hp] at hq
      injection hq with hq
      exact hk (hq ▸ hrep)
  have hself : (mountedImage cfg out.ctx out.flash).fileMap cfg r.fid =
      some (st₁.view p.newIdx) := by
    rw [hmap, Function.update_self]
  have hclosed := h.same.closed (hst.closed hsound hm.wf hv hm.closed hk)
  cases hold : (mountedImage cfg c fl).fileMap cfg r.fid with
  | none =>
    -- a new file
    refine iff_of_false (Readable.not_unchanged_of_info hr h.readable hv.fid ?_) ?_
    · rw [hself, hold]
      exact nofun
    · refine not_not_intro fun v hs => ?_
      rw [hold] at hs
      cases hs
  | some v =>
    have hreuse : p.Reuses cfg (mountedImage cfg c fl) r := by
      rcases hsound.kind with hc | hc | hc
      · exact hc
      · rw [Image.fileMap_eq_none fun i hi he => absurd he (hc.absent i hi)] at hold
        cases hold
      · exact absurd hc hk
    have hfind := hm.closed.fileMap_some hsound.newIdx_lt (hreuse.id.trans_ne hv.fid)
    rw [hreuse.id, hold] at hfind
    obtain rfl := Option.some.inj hfind
    have hview := hst.view_reuses hsound hm.wf hv hreuse
    have hseen : ((mountedImage cfg c fl).view p.newIdx).overwrite cfg r = st₁.view p.newIdx :=
      hview.symm
    have hiff := Image.seen_eq_iff ((mountedImage cfg c fl).view_content_length p.newIdx)
      (st₁.view_content_length p.newIdx)
    have hshow : ¬ (mountedImage cfg c fl).WriteShows cfg r ↔
        (st₁.view p.newIdx).seen = ((mountedImage cfg c fl).view p.newIdx).seen := by
      rw [← hseen]
      constructor
      · intro hn
        by_contra hne
        refine hn fun v hs => ?_
        rw [hold] at hs
        obtain rfl := Option.some.inj hs
        exact hne
      · exact fun he hn => hn _ hold he
    rw [hshow, ← hiff]
    constructor
    · intro hu
      obtain ⟨hi, hread⟩ := hu.answers r.fid hv.fid
      rw [Readable.infoAnswer_eq h.readable hv.fid, Readable.infoAnswer_eq hr hv.fid, hself,
        hold] at hi
      refine ⟨hi, fun size offset => ?_⟩
      have hro := hread size offset
      rwa [Readable.readAnswer_eq h.readable hv.fid, Readable.readAnswer_eq hr hv.fid, hself,
        hold] at hro
    · rintro ⟨hi, hread⟩
      refine ⟨fun fid h0 => ⟨?_, fun size offset => ?_⟩, hclosed.unique⟩
      · rw [Readable.infoAnswer_eq h.readable h0, Readable.infoAnswer_eq hr h0, hmap,
          Function.update_apply]
        split_ifs with he
        · rw [he, hold, hi]
        · rfl
      · rw [Readable.readAnswer_eq h.readable h0, Readable.readAnswer_eq hr h0, hmap,
          Function.update_apply]
        split_ifs with he
        · rw [he, hold, hread]
        · rfl

/-- A write with plan `p` is reported as failed when the files have changed: after its update, or
anywhere in the one that deletes a replaced file. -/
def WriteMisreports (cfg : Config) (fl : Flash) (st : Image) (r : WriteReq) (p : WritePlan)
    (c : Ctx) (F : Faults) : Prop :=
  ((positions cfg (fileWriteStage cfg r) (fileWriteComplete cfg r) c fl).Published F ∧
    (p.Replaces cfg st r ∨ st.WriteShows cfg r)) ∨
  (p.Replaces cfg st r ∧ ∃ i, F.FirstAt i ∧
    (positions cfg (fileWriteStage cfg r) (fileWriteComplete cfg r) c fl).done ≤ i ∧
    i < (positions cfg (fileWriteStage cfg r) (fileWriteComplete cfg r) c fl).done +
      (positions cfg (deleteIdxStage cfg p.oldIdx) (deleteIdxComplete cfg)
        ((fileWriteUpdate cfg r).run cfg.eraseVal c fl).ctx
        ((fileWriteUpdate cfg r).run cfg.eraseVal c fl).flash).done)

/-- A failure in the second update of a write, from the state its first one leaves. -/
theorem Updated.not_unchanged {c₁ : Ctx} {fl₁ : Flash} {rest : Nat × Nat → FsM Unit}
    (hu : Updated cfg fl a s (WriteOf cfg s (image cfg fl a) r) c₁ fl₁) (h : Store cfg c fl)
    (ha : c.activeMetablock = a) (hs : c.scratchMetablock = s) (hv : r.Valid cfg)
    (hp : (mountedImage cfg c fl).writePlan cfg r = .ok p)
    (hk : p.Replaces cfg (mountedImage cfg c fl) r) {x : Nat × Nat} {c₂ : Ctx} {fl₂ fl₃ : Flash}
    (hst : Stages cfg fl₁ s a (DeleteStep cfg a (image cfg fl₁ s) p.oldIdx) c₁
      (deleteIdxStage cfg p.oldIdx) (deleteIdxComplete cfg) x c₂ fl₂ fl₃)
    (hF : F.FirstAt i) (hi : i < (positions cfg (deleteIdxStage cfg p.oldIdx)
      (deleteIdxComplete cfg) c₁ fl₁).done) :
    ¬ ErrorKeeps cfg c fl ((deleteIdxStage cfg p.oldIdx >>= fun x => deleteIdxComplete cfg x >>=
      fun _ => flashFsMblockMetaUpdateFinalize cfg >>= fun _ => rest x).runFaulty cfg.eraseVal F
        c₁ fl₁) := by
  subst ha hs
  have hsound := h.wf.writePlan_sound h.accepted h.active_le hp
  obtain ⟨hm, _, hact, st₁, hof, hsame⟩ := hu.mounted h.accepted h.active_le h.scratch
    fun st' ⟨p', hp', hst'⟩ =>
      hst'.wf (h.wf.writePlan_sound h.accepted h.active_le hp') h.wf hv h.accepted
  have hstep := WriteStep.plan_eq hp hof
  unfold mountedImage at hsame
  rw [hact] at hsame
  by_cases hpub : i < (positions cfg (deleteIdxStage cfg p.oldIdx) (deleteIdxComplete cfg) c₁
      fl₁).published
  · have hfails := hst.fails_unpublished (k := rest) hF hpub
    rw [errorKeeps_iff hfails.status]
    exact fun hun => hstep.not_uniqueIds hsound h.wf hv hk (hsame.trans hfails.same) hun.unique
  · have hfails := hst.fails_published (k := rest) hF (not_lt.mp hpub) hi
    rw [errorKeeps_iff hfails.status]
    refine Readable.not_unchanged_of_info h.ready hfails.readable hv.fid ?_
    -- the new file has another maximum size
    have hw := hstep.written_of_replaces hp h.wf h.accepted h.active_le hv h.closed hk hsame
      hst.staged.step hfails.same
    have hold : (mountedImage cfg c fl).fileMap cfg r.fid =
        some ((mountedImage cfg c fl).view p.oldIdx) := by
      rw [← hk.id]
      exact h.closed.fileMap_some hk.oldIdx_lt (hk.id.trans_ne hv.fid)
    rw [hw.own, hold]
    intro he
    have hmax : (st₁.files p.newIdx).maxSize = ((mountedImage cfg c fl).files p.oldIdx).maxSize :=
      congrArg FileInfo.sizeMax (Except.ok.inj he)
    rw [hstep.files_new hsound.newIdx_lt, WritePlan.entry_maxSize, hk.toTakes.maxSize] at hmax
    exact hk.maxSize hmax.symm

/-- A write that fails keeps the files, unless it is misreported. -/
theorem Store.fileWrite_errorKeeps_iff (h : Store cfg c fl) (hv : r.Valid cfg) (F : Faults) :
    ErrorKeeps cfg c fl ((flashFsFileWrite cfg r.fid r.flags r.maxSize r.dataSize r.offset
        r.data).runFaulty cfg.eraseVal F c fl) ↔
    ¬ ∃ p, (mountedImage cfg c fl).writePlan cfg r = .ok p ∧
      WriteMisreports cfg fl (mountedImage cfg c fl) r p c F := by
  have hs : Starts cfg fl c.activeMetablock c.scratchMetablock False c := h.starts False.elim
  have hb := h.toMounted.before
  have hu : (mountedImage cfg c fl).UniqueIds cfg := h.closed.unique
  rw [fileWrite_eq]
  cases hp : (mountedImage cfg c fl).writePlan cfg r with
  | error e =>
    have hp' : (image cfg fl c.activeMetablock).writePlan cfg r = .error e := hp
    refine iff_of_true ((refused_failsOn hb hs (fileWriteStage_givesUp r)
      (wp_post (hs.fileWriteStage_wp hv.inRange) fun res c' fl' hres => ?_) F).errorKeeps h.ready hu)
      fun ⟨p, hn, _⟩ => by cases hn
    unfold WriteStageResult at hres
    rw [hp'] at hres
    exact ⟨⟨e, hres.1⟩, hres.2.1⟩
  | ok p =>
    obtain ⟨x, c₁, fl₁, fl₂, hx, _, hst⟩ := hs.writeStages hb hv hp
    have hsound := h.wf.writePlan_sound h.accepted h.active_le hp
    have hiff : (∃ q, Except.ok p = (.ok q : Except Status WritePlan) ∧
        WriteMisreports cfg fl (mountedImage cfg c fl) r q c F) ↔
        WriteMisreports cfg fl (mountedImage cfg c fl) r p c F := by
      constructor
      · rintro ⟨q, hq, hh⟩
        injection hq with hq
        exact hq ▸ hh
      · exact fun hh => ⟨p, rfl, hh⟩
    rw [hiff]
    have hstep : WriteStep cfg c.scratchMetablock (mountedImage cfg c fl) r p
        (stagedImage cfg fl₂ c.scratchMetablock
          (nextHeader cfg fl₂ c.scratchMetablock c₁.metaBlockHeader)) :=
      WriteStep.plan_eq hp hst.staged.step
    rcases F.cleanFor_or_firstAt (positions cfg (fileWriteStage cfg r) (fileWriteComplete cfg r) c
      fl).done with hc | ⟨i, hi, hF⟩
    · have hno : ¬ (positions cfg (fileWriteStage cfg r) (fileWriteComplete cfg r) c
          fl).Published F := fun ⟨i, hF, _, hi⟩ => hc.not_firstAt hi hF
      have hreps := hsound.replaces_iff hv.fid
      rw [hst.runFaulty_done hc]
      unfold fileWriteReplace WriteMisreports
      rw [hx]
      dsimp only
      split_ifs with hrep
      · have hk := hreps.mpr hrep
        have hup : Updated cfg fl c.activeMetablock c.scratchMetablock
            (WriteOf cfg c.scratchMetablock (image cfg fl c.activeMetablock) r)
            ⟨nextHeader cfg fl₂ c.scratchMetablock c₁.metaBlockHeader, c.scratchMetablock,
              c.activeMetablock⟩
            (committed cfg fl₂ c.activeMetablock c.scratchMetablock
              (nextHeader cfg fl₂ c.scratchMetablock c₁.metaBlockHeader)) :=
          ⟨fl₂, _, hst.staged, rfl, rfl⟩
        obtain ⟨hst₁, hpend⟩ := hup.starts_delete hs hb.other h.closed hv hp hk
        obtain ⟨x₂, c₂, _, _, _, hst₂⟩ := hst₁.deleteStages hst.mounted.before hpend.lt hpend.valid
          (deleteIdxStage_givesUp p.oldIdx) (hst₁.deleteIdxStage_ok hpend.lt hpend.valid)
        have hprog : flashFsDeleteIdx cfg p.oldIdx = deleteIdxStage cfg p.oldIdx >>= fun x =>
            deleteIdxComplete cfg x >>= fun _ => flashFsMblockMetaUpdateFinalize cfg >>= fun _ =>
              pure () := by
          rw [deleteIdx_eq]
          simp only [bind_pure_unit]
        rw [hprog, fileWriteUpdate, hst.update_run]
        dsimp only
        rcases (F.drop (positions cfg (fileWriteStage cfg r) (fileWriteComplete cfg r) c
          fl).done).cleanFor_or_firstAt (positions cfg (deleteIdxStage cfg p.oldIdx)
            (deleteIdxComplete cfg)
            ⟨nextHeader cfg fl₂ c.scratchMetablock c₁.metaBlockHeader, c.scratchMetablock,
              c.activeMetablock⟩
            (committed cfg fl₂ c.activeMetablock c.scratchMetablock
              (nextHeader cfg fl₂ c.scratchMetablock c₁.metaBlockHeader))).done with
          hc₂ | ⟨j, hj, hF⟩
        · rw [hst₂.runFaulty_done hc₂]
          refine iff_of_true (.of_ok rfl) ?_
          rintro (⟨hpub, _⟩ | ⟨_, j, hF, hle, hj⟩)
          · exact hno hpub
          · exact hc₂.not_firstAt (by omega) (hF.drop hle)
        · refine iff_of_false (hup.not_unchanged h rfl rfl hv hp hk hst₂ hF hj)
            (not_not_intro (.inr ⟨hk, _, hc.firstAt_drop.mp hF, ?_, ?_⟩))
          · omega
          · omega
      · refine iff_of_true (.of_ok rfl) ?_
        rintro (⟨hpub, _⟩ | ⟨hk, _⟩)
        · exact hno hpub
        · exact hrep (hreps.mp hk)
    · have hlater : ¬ ∃ j, F.FirstAt j ∧
          (positions cfg (fileWriteStage cfg r) (fileWriteComplete cfg r) c fl).done ≤ j := by
        rintro ⟨j, hj, hle⟩
        rw [hF.eq hj] at hi
        omega
      by_cases hpub : i < (positions cfg (fileWriteStage cfg r) (fileWriteComplete cfg r) c
        fl).published
      · refine iff_of_true ((hst.fails_unpublished (k := fun x => fileWriteReplace cfg x) hF
          hpub).errorKeeps h.ready hu) ?_
        rintro (⟨⟨j, hj, hle, _⟩, _⟩ | ⟨_, j, hj, hle, _⟩)
        · rw [hF.eq hj] at hpub
          omega
        · exact hlater ⟨j, hj, hle⟩
      · rw [not_lt] at hpub
        have hfails := hst.fails_published (k := fun x => fileWriteReplace cfg x) hF hpub hi
        have hP : (positions cfg (fileWriteStage cfg r) (fileWriteComplete cfg r) c
          fl).Published F := ⟨i, hF, hpub, hi⟩
        rw [errorKeeps_iff hfails.status]
        by_cases hk : p.Replaces cfg (mountedImage cfg c fl) r
        · refine iff_of_false (fun hun => ?_) (not_not_intro (.inl ⟨hP, .inl hk⟩))
          exact hstep.not_uniqueIds hsound h.wf hv hk hfails.same hun.unique
        · rw [hfails.unchanged_iff h hv hp hstep hk]
          refine not_congr ⟨fun hsh => .inl ⟨hP, .inr hsh⟩, ?_⟩
          rintro (⟨_, hr | hsh⟩ | ⟨hr, _⟩)
          · exact absurd hr hk
          · exact hsh
          · exact absurd hr hk

/-! ## Calls from a store -/

/-- The call is reported as failed when the files have changed. -/
def FsCall.Misreports (cfg : Config) (c : Ctx) (fl : Flash) (F : Faults) : FsCall → Prop
  | write r => ∃ p, (mountedImage cfg c fl).writePlan cfg r = .ok p ∧
    WriteMisreports cfg fl (mountedImage cfg c fl) r p c F
  | delete fid => ∃ d < cfg.maxNumFiles, ((mountedImage cfg c fl).files d).id = fid ∧
    (positions cfg (fileDeleteStage cfg fid) (deleteIdxComplete cfg) c fl).Published F
  | prepare => False

end Etss
