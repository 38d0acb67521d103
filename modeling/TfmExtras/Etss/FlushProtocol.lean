import TfmExtras.Etss.FlushWrite
import TfmExtras.Etss.Upgrade

/-! The order of writes and flushes in every call. Mounting keeps it on any flash, up to the deletion
of a file that a crash has left; a call breaks it exactly when data of a dedicated block is moved
behind metadata that is not flushed. -/

namespace Etss
open NorFlash NorFlash.Flash FlashM

variable {cfg : Config} {st : Image} {a : Nat} {c c' : Ctx} {fl fl' : Flash}

/-! ## Mounting -/

theorem readMetaHeader_idle : (mblockReadMetaHeader cfg).Idle :=
  idle_get.bind fun _ => (idle_of_reads (reads_issue _ _ _ _)).bind fun _ =>
    (idle_modify _).bind fun _ => idle_of_reads (validateHeaderMeta_reads _ _)

/-- An upgrade writes the scratch metadata block, and flushes it in the end. -/
theorem upgradeMetaHeader_flushes (c : Ctx) :
    (mblockUpgradeMetaHeader cfg).Flushes c none AllFlushed := by
  unfold mblockUpgradeMetaHeader
  generalize mblockBlockMetaOffset logicalDblock0 = pos
  refine get_bind_flushes ?_
  refine (reads_ofExcept _ c).bind_flushes (fun backwardCompatible => ?_) fun e => allFlushed_error e _ _
  cases backwardCompatible with
  | false => exact fun _ => rfl
  | true =>
    refine (readBlockMetadataComp_reads _ c).bind_flushes (fun blockMeta0 => ?_) fun e => allFlushed_error e _ _
    dsimp only
    generalize sub32 (sub32 cfg.blockSize blockMeta0.freeSize) blockMetaHeaderCompSize = n
    generalize blockMetaHeaderCompSize = off
    have hmove : ToScratch c.scratchMetablock
        (flashFsBlockToBlockMove c.scratchMetablock pos c.activeMetablock off n) :=
      blockToBlockMove_writesTo _ _ _ _ _
    refine hmove.bind_flushes rfl (.inl rfl) (fun _ c d hc hd => ?_) allFlushed_error
    exact modify_bind_flushes (metaUpdateFinalize_flushes hc hd)

theorem mblockInit_flushes (c : Ctx) : (flashFsMblockInit cfg).Flushes c none AllFlushed := by
  unfold flashFsMblockInit
  refine (idle_init _).bind_flushes (fun _ _ => ?_) allFlushed_error
  refine initGetActiveMetablock_idle.failAs.bind_flushes (fun _ _ => ?_) allFlushed_error
  refine readMetaHeader_idle.failAs.bind_flushes (fun _ _ => ?_) allFlushed_error
  refine eraseScratchBlocks_idle.failAs.bind_flushes (fun _ c => ?_) allFlushed_error
  exact upgradeMetaHeader_flushes c

/-- Mounting keeps the order, unless it deletes a file and moves bytes of a dedicated block. -/
theorem Scannable.prepare_flushKept_iff (h : Scannable cfg st a c' fl')
    (hr : (flashFsMblockInit cfg).run cfg.eraseVal c fl = ⟨.ok (), c', fl'⟩)
    (hcp : st.Closed cfg ∨ ∃ d, st.Pending cfg d) :
    FlushKept cfg.eraseVal (flashFsPrepare cfg) c fl ↔
      ¬ ∃ d, st.Pending cfg d ∧ st.DeletesApart cfg d := by
  have hinit : (flashFsMblockInit cfg).Flushes c none AllFlushed := mblockInit_flushes c
  obtain ⟨d₁, hd, hok⟩ := hinit.unflushed cfg.eraseVal fl
  obtain rfl : d₁ = none := hok (by rw [hr]; rfl)
  have hreads : (flashFsMblockGetFileIdxFlag cfg flagDelete).Reads c' := findFileMeta_reads _ _ _
  have hq : (flashFsMblockGetFileIdxFlag cfg flagDelete).Query cfg.eraseVal anyOp c' fl'
      (findFile cfg (mountedImage cfg c' fl').files
        (fun fileMeta => fileMeta.flags &&& flagDelete != 0) cfg.maxNumFiles 0) :=
    findFileMeta_query (fun _ _ _ _ _ _ => trivial) h.accepted h.active_lt _
      (Nat.zero_add cfg.maxNumFiles).le
  rw [findFile_congr _ fun k _ hk => h.files k (by omega)] at hq
  rcases h.wf.findFile_cases h.accepted (fun fileMeta => fileMeta.flags &&& flagDelete != 0)
    (i := 0) (Nat.zero_add cfg.maxNumFiles).le with ⟨d, _, hlt, hp, he⟩ | ⟨hall, he⟩
  · rw [he] at hq
    have hlt : d < cfg.maxNumFiles := by omega
    have hmark : st.Marked d := bne_iff_ne.mp hp
    obtain ⟨d', hpend⟩ := hcp.resolve_left fun hc => hc.unmarked d hlt hmark
    obtain rfl : d = d' := (hpend.marked d hlt).mp hmark
    have hgo : GoesOn cfg.eraseVal (flashFsPrepare cfg) c fl none (flashFsDeleteIdx cfg d) c' fl'
        none := (goesOn_seq hr hd).trans (hreads.attempt.goesOn hq.attempt)
    rw [h.flushKept_iff hgo hlt hpend.valid]
    refine not_congr ⟨fun hd => ⟨d, hpend, hd⟩, ?_⟩
    rintro ⟨d', hpend', hd⟩
    obtain rfl := hpend.eq hpend'
    exact hd
  · rw [he] at hq
    have hgo : GoesOn cfg.eraseVal (flashFsPrepare cfg) c fl none (pure ()) c' fl' none :=
      (goesOn_seq hr hd).trans (hreads.attempt.goesOn hq.attempt)
    refine iff_of_true (hgo.flushKept fun _ => rfl) fun ⟨d, hpend, _⟩ => ?_
    have hlt := hpend.lt
    have hm := (hpend.marked d hlt).mpr rfl
    have hn := hall d (Nat.zero_le d) (by omega)
    exact absurd (bne_iff_ne.mpr hm) (by rw [hn]; exact Bool.noConfusion)

theorem Mountable.scannable (h : Mountable cfg a fl) :
    Scannable cfg (image cfg fl a) a (mountedCtx cfg a fl) (scratchErased cfg a fl) where
  accepted := h.accepted
  a_le := h.a_le
  wf := h.wf
  active_le := h.a_le
  scratch := rfl
  dblock h2 := (h.wf.scratch h2).1
  files := (h.same_of_onlyIn (onlyIn_scratchErased cfg a fl)).files
  blocks := (h.same_of_onlyIn (onlyIn_scratchErased cfg a fl)).blocks

theorem Mountable.prepare_flushKept_iff (h : Mountable cfg a fl) (c : Ctx)
    (hcp : (image cfg fl a).Closed cfg ∨ ∃ d, (image cfg fl a).Pending cfg d) :
    FlushKept cfg.eraseVal (flashFsPrepare cfg) c fl ↔
      ¬ ∃ d, (image cfg fl a).Pending cfg d ∧ (image cfg fl a).DeletesApart cfg d := by
  obtain ⟨_, _, _, hr, rfl, rfl⟩ := (h.init_ok (c := c)).exists_run
  exact h.scannable.prepare_flushKept_iff hr hcp

/-- The tables stay in force through an upgrade. -/
theorem Version1.scannable (h : Version1 cfg a fl) (hu : Upgraded cfg a fl c' fl') :
    Scannable cfg (image cfg fl a).asVersion2 a c' fl' := by
  have hafter := h.afterUpgrade hu
  have hscratch : c'.scratchMetablock = a := by
    obtain ⟨_, _, _, _, rfl, _⟩ := hu
    rfl
  exact {
    accepted := h.accepted
    a_le := h.a_le
    wf := h.wf
    active_le := hafter.active.trans_le (otherMetaBlock_le a)
    scratch := by rw [hscratch, hafter.active, otherMetaBlock_other h.a_le]
    dblock := fun h2 => by
      rw [hafter.scratch]
      exact (h.wf.scratch h2).1
    files := hafter.files
    blocks := hafter.blocks }

theorem Version1.prepare_flushKept_iff (h : Version1 cfg a fl) (c : Ctx)
    (hcp : (image cfg fl a).Closed cfg ∨ ∃ d, (image cfg fl a).Pending cfg d) :
    FlushKept cfg.eraseVal (flashFsPrepare cfg) c fl ↔
      ¬ ∃ d, (image cfg fl a).Pending cfg d ∧ (image cfg fl a).DeletesApart cfg d := by
  obtain ⟨_, _, _, hr, hu⟩ := (h.init_ok (c := c)).exists_run
  have hpend : ∀ d, (image cfg fl a).Pending cfg d ↔ (image cfg fl a).asVersion2.Pending cfg d :=
    fun d => ⟨fun hp => ⟨hp.lt, hp.valid, hp.marked, hp.unique⟩,
      fun hp => ⟨hp.lt, hp.valid, hp.marked, hp.unique⟩⟩
  have hcp' : (image cfg fl a).asVersion2.Closed cfg ∨
      ∃ d, (image cfg fl a).asVersion2.Pending cfg d :=
    hcp.imp (fun hc => ⟨hc.unique, hc.unmarked, hc.spare⟩) fun ⟨d, hp⟩ => ⟨d, (hpend d).mp hp⟩
  rw [(h.scannable hu).prepare_flushKept_iff hr hcp']
  exact not_congr (exists_congr fun d => and_congr_left' (hpend d).symm)

/-! ## Every call -/

/-- The call writes a dedicated block behind metadata that is not flushed. -/
def FsCall.Disorders (cfg : Config) (st : Image) : FsCall → Prop
  | write r => st.WritesApart cfg r
  | delete fid => ∃ i < cfg.maxNumFiles, (st.files i).id = fid ∧ st.DeletesApart cfg i
  | prepare => False

/-- A filesystem that mounting finds, of either version: as a call has left it, or with a replaced
file still to be deleted. -/
structure Found (cfg : Config) (a : Nat) (fl : Flash) : Prop where
  tables : Mountable cfg a fl ∨ Version1 cfg a fl
  state : (image cfg fl a).Closed cfg ∨ ∃ d, (image cfg fl a).Pending cfg d

/-- A store is flushed in order by every call that does not disorder it. -/
theorem Store.flushKept_iff (h : Store cfg c fl) {f : FsCall} (hv : f.Valid cfg) :
    FlushKept cfg.eraseVal (f.exec cfg) c fl ↔ ¬ f.Disorders cfg (mountedImage cfg c fl) := by
  cases f with
  | write r =>
    have hst : Starts cfg fl c.activeMetablock c.scratchMetablock False c := h.starts False.elim
    refine hst.fileWrite_flushKept_iff h.toMounted.before h.closed hv fun h2 => ?_
    have hs : c.scratchMetablock ≤ 1 := h.scratch.trans_le (otherMetaBlock_le _)
    have hd := h.toMounted.scannable.dblock h2
    omega
  | delete fid => exact h.fileDelete_flushKept_iff hv
  | prepare =>
    refine (h.mountable.prepare_flushKept_iff c (.inl h.closed)).trans ?_
    exact not_congr (iff_of_false (fun ⟨d, hp, _⟩ => hp.not_closed h.closed) id)

/-- Two files that fill logical block 0. -/
def fullBlock : Ctx × Flash :=
  filled fiveBlocks [.write { fourBytes with maxSize := 12 },
    .write { fourBytes with fid := 2, maxSize := 8 }]

/-- The second file is replaced by a larger one. -/
def enlarge : FsCall :=
  .write { fourBytes with fid := 2, flags := flagCreate ||| flagTruncate, maxSize := 12 }

theorem store_fullBlock : Store fiveBlocks fullBlock.1 fullBlock.2 :=
  (reaches_filled (by decide)).store fiveBlocks_accepted

end Etss
