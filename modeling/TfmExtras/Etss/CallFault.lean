import TfmExtras.Etss.Run
import TfmExtras.Etss.UpdateFault

/-! Writes and deletions in which flash operations fail, from any store. -/

namespace Etss
open NorFlash NorFlash.Flash FlashM

variable {cfg : Config} {a s d : Nat} {strict : Prop} {P : Image → Prop} {c c' c₁ : Ctx}
  {fl fl₀ fl₁ fl₂ fl' : Flash} {F : Faults} {i : Nat} {fid : Fid} {r : WriteReq} {p : WritePlan}
  {α β : Type} {stage : FsM α} {complete : α → FsM Unit} {x : α}

/-! ## Updates in two stages -/

theorem Stages.of_ok {R : α → Ctx → Flash → Prop} (hb : Before cfg fl₀ a s)
    (hst : Starts cfg fl₀ a s strict c)
    (hg : stage.GivesUp c (fun _ => True) (· = c) fun _ => True)
    (hc : ∀ x c, (complete x).Steady c) (hwf : ∀ st', P st' → st'.Wf cfg s)
    (hs : stage.Ok cfg.eraseVal (StagingOp cfg fl₀ a s strict) c fl₀ R)
    (hR : ∀ x c₁ fl₁, R x c₁ fl₁ → Ready cfg fl₀ a s c₁ fl₁ ∧
      c₁.metaBlockHeader.activeSwapCount = (image cfg fl₀ a).header.activeSwapCount ∧
      c₁.metaBlockHeader.scratchDblock < 2 ^ 32 ∧
      (complete x).Ok cfg.eraseVal (StagingOp cfg fl₀ a s strict) c₁ fl₁ fun _ c' fl' =>
        c' = c₁ ∧ Ready cfg fl₀ a s c₁ fl' ∧
          P (stagedImage cfg fl' s (nextHeader cfg fl' s c₁.metaBlockHeader))) :
    ∃ x c₁ fl₁ fl₂, R x c₁ fl₁ ∧ Stages cfg fl₀ a s P c stage complete x c₁ fl₁ fl₂ := by
  obtain ⟨x, c₁, fl₁, hrun, hx⟩ := hs.exists_run
  obtain ⟨hr₁, hswap, hlt, hok⟩ := hR x c₁ fl₁ hx
  obtain ⟨_, _, fl₂, hrun₂, he, hr₂, hP⟩ := hok.exists_run
  rw [he] at hrun₂
  exact ⟨x, c₁, fl₁, fl₂, hx, hb, hst.header, hst.active, hst.scratch, hr₁.active, hr₁.scratch, hg,
    hrun, (staging_trace hs (.refl _ _)).1, hc x c₁, hrun₂, (staging_trace hok hr₁.only).1, hswap,
    ⟨hr₂.only, congrArg (nextSwapCount cfg) hswap, rfl, hlt, hP⟩, hwf⟩

/-- A call that is refused before anything is committed leaves a coherent context. -/
theorem coherent_refused {k : α → FsM β} (hb : Before cfg fl₀ a s)
    (hst : Starts cfg fl₀ a s strict c)
    (hg : stage.GivesUp c (fun _ => True) (· = c) fun _ => True)
    (hs : stage.wp cfg.eraseVal (StagingOp cfg fl₀ a s strict) c fl₀ fun res c' _ =>
      (∃ e, res = .error e) ∧ c' = c) (F : Faults) :
    Coherent cfg ((stage >>= k).runFaulty cfg.eraseVal F c fl₀).ctx
      ((stage >>= k).runFaulty cfg.eraseVal F c fl₀).flash := by
  obtain ⟨htr, hend⟩ := staging_trace hs (.refl _ _)
  obtain ⟨_, ⟨e, he⟩, hctx⟩ := wp_iff.mp hs
  have hco : ∀ fl', OnlyIn (stageRegion cfg s (image cfg fl₀ a).header.scratchDblock) fl₀ fl' →
      Coherent cfg c fl' := fun fl' hf => by
    obtain ⟨hm, hheader⟩ := hb.mountable hf
    exact hm.coherent hst.active (hst.scratch.trans hb.other) (by rw [hst.header, hheader])
      (by rw [hst.header, hheader])
  rcases F.cleanFor_or_firstAt (stage.trace cfg.eraseVal c fl₀).length with hc | ⟨i, hi, hF⟩
  · rw [runFaulty_bind_of_clean_error hc he]
    dsimp only
    rw [hctx]
    exact hco _ hend
  · obtain ⟨_, hctx', y, hy, n, _, hfl⟩ := hg.runFaulty_bind (f := k) hF hi
    rw [hctx', hfl]
    exact hco _ (htr y hy n)

/-! ## Deletions -/

theorem DeleteStaged.scratch_iff {x : Nat × Nat} (h : DeleteStaged cfg fl₀ a s d c x c₁ fl₁)
    (hc : c.metaBlockHeader = (image cfg fl₀ a).header) (hd : d < cfg.maxNumFiles)
    (hid : ((image cfg fl₀ a).files d).id ≠ 0) :
    c₁.metaBlockHeader.scratchDblock ≠ (image cfg fl₀ a).header.scratchDblock ↔
      ((image cfg fl₀ a).files d).lblock ≠ 0 := by
  obtain ⟨hl, _, _⟩ := h.wf.sizes d hd hid
  rw [h.ctx, Ctx.withScratch_dblock, hc]
  split_ifs with h0
  · exact iff_of_false (fun hn => hn rfl) (not_not_intro h0)
  · exact iff_of_true (h.wf.phyId_ne_scratch h.a_le hl (numBlocks_ne_two h.accepted h0 hl)) h0

theorem Starts.deleteStages (h : Starts cfg fl₀ a s strict c) (hb : Before cfg fl₀ a s)
    (hd : d < cfg.maxNumFiles) (hid : ((image cfg fl₀ a).files d).id ≠ 0) {stage : FsM (Nat × Nat)}
    (hg : stage.GivesUp c (fun _ => True) (· = c) fun _ => True)
    (hs : stage.Ok cfg.eraseVal (StagingOp cfg fl₀ a s strict) c fl₀ fun x c₁ fl₁ =>
      DeleteStaged cfg fl₀ a s d c x c₁ fl₁) :
    ∃ x c₁ fl₁ fl₂, DeleteStaged cfg fl₀ a s d c x c₁ fl₁ ∧
      Stages cfg fl₀ a s (DeleteStep cfg s (image cfg fl₀ a) d) c stage (deleteIdxComplete cfg)
        x c₁ fl₁ fl₂ := by
  refine Stages.of_ok hb h hg (fun x c => deleteIdxComplete_steady x)
    (fun st' hst => hst.wf h.wf hd hid h.accepted) hs fun x c₁ fl₁ hx => ?_
  obtain ⟨hswap, hlt⟩ := hx.header h.header
  refine ⟨hx.toReady, hswap, hlt, (hx.complete_ok hd hid).mono ?_⟩
  rintro _ _ fl₂ ⟨rfl, hr, ht, hdata, hlb0⟩
  exact ⟨rfl, hr, h.deleteStep hd hid hx.ctx hr ht hdata hlb0⟩

/-- A deletion by id, up to the flush of a dedicated scratch block. -/
def fileDeleteStage (cfg : Config) (fid : Fid) : FsM (Nat × Nat) :=
  (flashFsMblockGetFileIdx cfg fid).failAs .doesNotExist >>= deleteIdxStage cfg

theorem fileDelete_eq (cfg : Config) (fid : Fid) : flashFsFileDelete cfg fid =
    fileDeleteStage cfg fid >>= fun x =>
      deleteIdxComplete cfg x >>= fun _ => flashFsMblockMetaUpdateFinalize cfg := by
  unfold flashFsFileDelete fileDeleteStage
  simp only [deleteIdx_eq, bind_assoc]

theorem fileDeleteStage_givesUp (fid : Fid) :
    (fileDeleteStage cfg fid).GivesUp c (fun _ => True) (· = c) fun _ => True := by
  refine GivesUp.bind (GivesUp.failAs (findFileMeta_givesUp _ cfg.maxNumFiles 0) trivial)
    (fun _ _ => trivial) fun d c' hc => ?_
  obtain rfl : c' = c := hc
  exact deleteIdxStage_givesUp d

/-- A deletion leaves a coherent context, unless an operation that fails hits it. -/
theorem Starts.fileDelete_coherent_iff (h : Starts cfg fl₀ a s strict c) (hb : Before cfg fl₀ a s)
    (hcl : (image cfg fl₀ a).Closed cfg) (hf : fid ≠ 0) (F : Faults) :
    Coherent cfg ((flashFsFileDelete cfg fid).runFaulty cfg.eraseVal F c fl₀).ctx
      ((flashFsFileDelete cfg fid).runFaulty cfg.eraseVal F c fl₀).flash ↔
    ¬ ∃ d < cfg.maxNumFiles, ((image cfg fl₀ a).files d).id = fid ∧
      (positions cfg (fileDeleteStage cfg fid) (deleteIdxComplete cfg) c fl₀).Hit
        (((image cfg fl₀ a).files d).lblock ≠ 0)
        (Overtakes cfg s (image cfg fl₀ a).header.activeSwapCount) F := by
  have hq := h.toReady.findFileMeta_query (G := StagingOp cfg fl₀ a s strict)
    allowsReads_updateOp fun fileMeta => fileMeta.id == fid
  rw [fileDelete_eq]
  rcases h.wf.findFile_cases h.accepted (fun fileMeta => fileMeta.id == fid) (i := 0)
    (Nat.zero_add cfg.maxNumFiles).le with ⟨d, _, hd, hp, he⟩ | ⟨hall, he⟩
  · rw [he] at hq
    have hd' : d < cfg.maxNumFiles := by omega
    have hid : ((image cfg fl₀ a).files d).id = fid := beq_iff_eq.mp hp
    have hid0 : ((image cfg fl₀ a).files d).id ≠ 0 := hid.symm ▸ hf
    obtain ⟨x, c₁, fl₁, fl₂, hx, hst⟩ := h.deleteStages hb hd' hid0 (fileDeleteStage_givesUp fid)
      (hq.failAs.seq_wp (h.deleteIdxStage_ok hd' hid0))
    rw [hst.update_coherent_iff (hx.scratch_iff h.header hd' hid0)]
    refine not_congr ⟨fun hh => ⟨d, hd', hid, hh⟩, ?_⟩
    rintro ⟨d', hlt, hid', hh⟩
    obtain rfl := hcl.unique d d' hd' hlt hid0 (hid.trans hid'.symm)
    exact hh
  · rw [he] at hq
    refine iff_of_true (coherent_refused hb h (fileDeleteStage_givesUp fid) ?_ F) ?_
    · exact hq.failAs.seq_error.wp ⟨⟨_, rfl⟩, rfl⟩
    · rintro ⟨d, hd, hid, _⟩
      exact Bool.false_ne_true ((hall d (Nat.zero_le d) (by omega)).symm.trans
        (beq_iff_eq.mpr hid))

/-! ## Writes -/

theorem WritePlan.Placed.scratch_iff (hpl : p.Placed cfg (image cfg fl₀ a) r)
    (hr : Ready cfg fl₀ a s c fl) (hc : c.metaBlockHeader = (image cfg fl₀ a).header)
    (h₁ : c₁ = if r.dataSize = 0 then c else c.withScratch p.fileMeta.lblock p.blockMeta.phyId) :
    c₁.metaBlockHeader.scratchDblock ≠ (image cfg fl₀ a).header.scratchDblock ↔
      r.dataSize ≠ 0 ∧ p.fileMeta.lblock ≠ 0 := by
  rw [h₁, ← hc]
  by_cases h0 : r.dataSize = 0
  · rw [if_pos h0]
    exact iff_of_false (fun hn => hn rfl) fun hn => hn.1 h0
  · rw [if_neg h0, Ctx.withScratch_dblock, hc, hpl.phyId]
    split_ifs with hl
    · exact iff_of_false (fun hn => hn rfl) fun hn => hn.2 hl
    · exact iff_of_true (hr.wf.phyId_ne_scratch hr.a_le hpl.lblock_lt
        (numBlocks_ne_two hr.accepted hl hpl.lblock_lt)) ⟨h0, hl⟩

/-- The stages of a write that has a plan. -/
theorem Starts.writeStages (h : Starts cfg fl₀ a s strict c) (hb : Before cfg fl₀ a s)
    (hv : r.Valid cfg) (hp : (image cfg fl₀ a).writePlan cfg r = .ok p) :
    ∃ x c₁ fl₁ fl₂, x = ⟨p.oldIdx, p.newIdx, p.entry r, p.block s (image cfg fl₀ a) r⟩ ∧
      (c₁.metaBlockHeader.scratchDblock ≠ (image cfg fl₀ a).header.scratchDblock ↔
        r.dataSize ≠ 0 ∧ p.fileMeta.lblock ≠ 0) ∧
      Stages cfg fl₀ a s (WriteOf cfg s (image cfg fl₀ a) r) c (fileWriteStage cfg r)
        (fileWriteComplete cfg r) x c₁ fl₁ fl₂ := by
  have hsound := h.wf.writePlan_sound h.accepted h.a_le hp
  have hpl := hsound.placed h.wf hv.inRange
  have hok : (fileWriteStage cfg r).Ok cfg.eraseVal (StagingOp cfg fl₀ a s strict) c fl₀
      fun x c₁ fl₂ => x = ⟨p.oldIdx, p.newIdx, p.entry r, p.block s (image cfg fl₀ a) r⟩ ∧
        ∃ t fl₁, p.Of cfg (image cfg fl₀ a) t ∧ LookedUp cfg fl₀ a s c t fl₁ ∧
          DataWritten cfg fl₀ a s r p c fl₁ c₁ fl₂ := by
    refine wp_post (h.fileWriteStage_wp hv.inRange) fun res c₁ fl₂ hres => ?_
    unfold WriteStageResult at hres
    rw [hp] at hres
    exact ⟨_, hres.1, rfl, hres.2⟩
  obtain ⟨x, c₁, fl₁, fl₂, ⟨hx, t, fl, hof, hl, hd⟩, hst⟩ := Stages.of_ok hb h
    (fileWriteStage_givesUp r) (fun x c => fileWriteComplete_steady r x)
    (P := WriteOf cfg s (image cfg fl₀ a) r)
    (fun st' ⟨p', hp', hst⟩ =>
      hst.wf (h.wf.writePlan_sound h.accepted h.a_le hp') h.wf hv h.accepted) hok fun x c₁ fl₁ hx => by
    obtain ⟨rfl, t, fl, hof, hl, hd⟩ := hx
    obtain ⟨hswap, hlt⟩ := hd.header hpl h.header
    refine ⟨hd.toReady, hswap, hlt, (h.fileWriteMeta_ok hl hd hsound hv.inRange hof).mono ?_⟩
    rintro _ c₁ fl₃ ⟨rfl, hr₃, hst⟩
    exact ⟨rfl, hr₃, p, hp, h.writeStep hsound hv hd.ctx hr₃ hst⟩
  exact ⟨x, c₁, fl₁, fl₂, hx, hpl.scratch_iff h.toReady h.header hd.ctx, hst⟩

/-- A write, up to the end of its first update. -/
def fileWriteUpdate (cfg : Config) (r : WriteReq) : FsM Unit :=
  fileWriteStage cfg r >>= fun x =>
    fileWriteComplete cfg r x >>= fun _ => flashFsMblockMetaUpdateFinalize cfg

/-- An operation that fails hits a write with plan `p`, in its first update or in the one that
deletes a replaced file. -/
def WriteHit (cfg : Config) (fl₀ : Flash) (a s : Nat) (r : WriteReq) (p : WritePlan) (c : Ctx)
    (F : Faults) : Prop :=
  (positions cfg (fileWriteStage cfg r) (fileWriteComplete cfg r) c fl₀).Hit
      (r.dataSize ≠ 0 ∧ p.fileMeta.lblock ≠ 0)
      (Overtakes cfg s (image cfg fl₀ a).header.activeSwapCount) F ∨
    p.Replaces cfg (image cfg fl₀ a) r ∧
    F.CleanFor (positions cfg (fileWriteStage cfg r) (fileWriteComplete cfg r) c fl₀).done ∧
    (positions cfg (deleteIdxStage cfg p.oldIdx) (deleteIdxComplete cfg)
        ((fileWriteUpdate cfg r).run cfg.eraseVal c fl₀).ctx
        ((fileWriteUpdate cfg r).run cfg.eraseVal c fl₀).flash).Hit
      (((image cfg fl₀ a).files p.oldIdx).lblock ≠ 0)
      (Overtakes cfg a (nextSwapCount cfg (image cfg fl₀ a).header.activeSwapCount))
      (F.drop (positions cfg (fileWriteStage cfg r) (fileWriteComplete cfg r) c fl₀).done)

/-- What the first update leaves of the entry and of the swap count, for the second one. -/
theorem Updated.replaced {fl₁ : Flash}
    (hu : Updated cfg fl₀ a s (WriteOf cfg s (image cfg fl₀ a) r) c₁ fl₁)
    (h : Starts cfg fl₀ a s strict c) (hs : s = otherMetaBlock a) (hv : r.Valid cfg)
    (hp : (image cfg fl₀ a).writePlan cfg r = .ok p) (hk : p.Replaces cfg (image cfg fl₀ a) r) :
    ((image cfg fl₁ s).files p.oldIdx).lblock = ((image cfg fl₀ a).files p.oldIdx).lblock ∧
      (image cfg fl₁ s).header.activeSwapCount =
        nextSwapCount cfg (image cfg fl₀ a).header.activeSwapCount := by
  have hne : p.oldIdx ≠ p.newIdx := fun he => hv.fid (hk.id.symm.trans (he ▸ hk.free))
  obtain ⟨hm, _, hact, st', hof, hsame⟩ := hu.mounted h.accepted h.a_le hs
    fun st' ⟨p', hp', hst'⟩ =>
      hst'.wf (h.wf.writePlan_sound h.accepted h.a_le hp') h.wf hv h.accepted
  have hst' := WriteStep.plan_eq hp hof
  have hheader := hm.header
  unfold mountedImage at hsame hheader
  rw [hact] at hsame hheader
  obtain ⟨_, _, hst, hc, _⟩ := hu
  constructor
  · rw [hsame.files p.oldIdx hk.oldIdx_lt, hst'.files_old hk.oldIdx_lt hne]
    rfl
  · rw [← hheader, hc]
    exact hst.swap

/-- A write leaves a coherent context, unless an operation that fails hits it. -/
theorem Starts.fileWrite_coherent_iff (h : Starts cfg fl₀ a s strict c) (hb : Before cfg fl₀ a s)
    (hcl : (image cfg fl₀ a).Closed cfg) (hv : r.Valid cfg) (F : Faults) :
    Coherent cfg ((flashFsFileWrite cfg r.fid r.flags r.maxSize r.dataSize r.offset
        r.data).runFaulty cfg.eraseVal F c fl₀).ctx
      ((flashFsFileWrite cfg r.fid r.flags r.maxSize r.dataSize r.offset
        r.data).runFaulty cfg.eraseVal F c fl₀).flash ↔
    ¬ ∃ p, (image cfg fl₀ a).writePlan cfg r = .ok p ∧ WriteHit cfg fl₀ a s r p c F := by
  rw [fileWrite_eq]
  cases hp : (image cfg fl₀ a).writePlan cfg r with
  | error e =>
    refine iff_of_true (coherent_refused hb h (fileWriteStage_givesUp r)
      (wp_post (h.fileWriteStage_wp hv.inRange) fun res c' fl' hres => ?_) F) fun ⟨p, hn, _⟩ => by cases hn
    unfold WriteStageResult at hres
    rw [hp] at hres
    exact ⟨⟨e, hres.1⟩, hres.2.1⟩
  | ok p =>
    obtain ⟨x, c₁, fl₁, fl₂, hx, hmoved, hst⟩ := h.writeStages hb hv hp
    have hhit : (∃ q, Except.ok p = (.ok q : Except Status WritePlan) ∧
        WriteHit cfg fl₀ a s r q c F) ↔ WriteHit cfg fl₀ a s r p c F := by
      constructor
      · rintro ⟨q, hq, hh⟩
        injection hq with hq
        exact hq ▸ hh
      · exact fun hh => ⟨p, rfl, hh⟩
    rw [hhit]
    rcases F.cleanFor_or_firstAt (positions cfg (fileWriteStage cfg r) (fileWriteComplete cfg r) c
      fl₀).done with hc | ⟨i, hi, hF⟩
    · have hno : ¬ (positions cfg (fileWriteStage cfg r) (fileWriteComplete cfg r) c fl₀).Hit
          (r.dataSize ≠ 0 ∧ p.fileMeta.lblock ≠ 0)
          (Overtakes cfg s (image cfg fl₀ a).header.activeSwapCount) F :=
        fun ⟨i, hF, hh⟩ => hc.not_firstAt (hst.hit_lt hF ⟨i, hF, hh⟩) hF
      have hiff := (h.wf.writePlan_sound h.accepted h.a_le hp).replaces_iff hv.fid
      rw [hst.runFaulty_done hc]
      unfold fileWriteReplace WriteHit
      rw [hx]
      dsimp only
      split_ifs with hrep
      · have hk := hiff.mpr hrep
        have hu : Updated cfg fl₀ a s (WriteOf cfg s (image cfg fl₀ a) r)
            ⟨nextHeader cfg fl₂ s c₁.metaBlockHeader, s, a⟩
            (committed cfg fl₂ a s (nextHeader cfg fl₂ s c₁.metaBlockHeader)) :=
          ⟨fl₂, _, hst.staged, rfl, rfl⟩
        obtain ⟨hst₁, hpend⟩ := hu.starts_delete h hb.other hcl hv hp hk
        obtain ⟨hlb, hswap⟩ := hu.replaced h hb.other hv hp hk
        obtain ⟨_, c₂, _, _, hx₂, hst₂⟩ := hst₁.deleteStages hst.mounted.before hpend.lt hpend.valid
          (deleteIdxStage_givesUp p.oldIdx) (hst₁.deleteIdxStage_ok hpend.lt hpend.valid)
        have hmoved₂ := hx₂.scratch_iff hst₁.header hpend.lt hpend.valid
        rw [hlb] at hmoved₂
        rw [deleteIdx_eq, hst₂.update_coherent_iff hmoved₂, hswap, fileWriteUpdate, hst.update_run]
        refine not_congr ⟨fun hh => .inr ⟨hk, hc, hh⟩, ?_⟩
        rintro (hh | ⟨_, _, hh⟩)
        · exact absurd hh hno
        · exact hh
      · refine iff_of_true hst.mounted.coherent ?_
        rintro (hh | ⟨hk, _⟩)
        · exact hno hh
        · exact hrep (hiff.mp hk)
    · rw [hst.coherent_iff hmoved hF hi]
      refine not_congr ⟨.inl, ?_⟩
      rintro (hh | ⟨_, hc, _⟩)
      · exact hh
      · exact absurd hF (hc.not_firstAt hi)

/-! ## Calls from a store -/

namespace FsCall

/-- What a call leaves when operations fail. -/
def afterFaults (cfg : Config) (F : Faults) (f : FsCall) (c : Ctx) (fl : Flash) :
    Outcome Ctx Status Unit :=
  (f.exec cfg).runFaulty cfg.eraseVal F c fl

/-- The first operation that fails hits a write or a deletion. -/
def Hit (cfg : Config) (c : Ctx) (fl : Flash) (F : Faults) : FsCall → Prop
  | write r => ∃ p, (mountedImage cfg c fl).writePlan cfg r = .ok p ∧
    WriteHit cfg fl c.activeMetablock c.scratchMetablock r p c F
  | delete fid => ∃ d < cfg.maxNumFiles, ((mountedImage cfg c fl).files d).id = fid ∧
    (positions cfg (fileDeleteStage cfg fid) (deleteIdxComplete cfg) c fl).Hit
      (((mountedImage cfg c fl).files d).lblock ≠ 0)
      (Overtakes cfg c.scratchMetablock (mountedImage cfg c fl).header.activeSwapCount) F
  | prepare => False

end FsCall

/-- Whatever operations fail, a write or a deletion of a store leaves a coherent context just when
the first of them does not hit it. -/
theorem call_coherent_iff {f : FsCall} (h : Store cfg c fl) (hv : f.Valid cfg)
    (hf : f ≠ .prepare) (F : Faults) :
    Coherent cfg (f.afterFaults cfg F c fl).ctx (f.afterFaults cfg F c fl).flash ↔
      ¬ f.Hit cfg c fl F := by
  have hst : Starts cfg fl c.activeMetablock c.scratchMetablock False c := h.starts False.elim
  have hb := h.toMounted.before
  cases f with
  | write r => exact hst.fileWrite_coherent_iff hb h.closed hv F
  | delete fid => exact hst.fileDelete_coherent_iff hb h.closed hv F
  | prepare => exact absurd rfl hf

/-- A file in logical block 0, and one in a dedicated block. -/
def twoFiles : Ctx × Flash :=
  filled fiveBlocks [.write { fourBytes with maxSize := 12 },
    .write { fourBytes with fid := 2, maxSize := 12 }]

/-- The second file is written again. -/
def overwrite : FsCall := .write { fourBytes with fid := 2, maxSize := 12 }

/-- Operation `i` fails, with nothing done. -/
def onlyFails (i : Nat) : Faults := fun j => if j = i then some 0 else none

theorem store_twoFiles : Store fiveBlocks twoFiles.1 twoFiles.2 :=
  (reaches_filled (by decide)).store fiveBlocks_accepted

theorem call_coherent_iff_twoFiles :
    Coherent fiveBlocks (overwrite.afterFaults fiveBlocks (onlyFails 6) twoFiles.1 twoFiles.2).ctx
      (overwrite.afterFaults fiveBlocks (onlyFails 6) twoFiles.1 twoFiles.2).flash ↔
    ¬ overwrite.Hit fiveBlocks twoFiles.1 twoFiles.2 (onlyFails 6) :=
  call_coherent_iff store_twoFiles (by decide) (show FsCall.write _ ≠ .prepare from nofun)
    (onlyFails 6)

/-- When the operation after that fails, the context has the block of the file as its scratch
block. -/
theorem not_call_coherent : Store fiveBlocks twoFiles.1 twoFiles.2 ∧ overwrite.Valid fiveBlocks ∧
    ¬ Coherent fiveBlocks
      (overwrite.afterFaults fiveBlocks (onlyFails 7) twoFiles.1 twoFiles.2).ctx
      (overwrite.afterFaults fiveBlocks (onlyFails 7) twoFiles.1 twoFiles.2).flash :=
  ⟨store_twoFiles, by decide, fun h => absurd (h.unused 1 (by decide) 1 (by decide))
    (by decide +kernel)⟩

end Etss
