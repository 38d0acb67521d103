import TfmExtras.Etss.Coherent
import TfmExtras.Etss.CrashStates
import TfmExtras.Etss.Run

/-! A wipe that loses power: the filesystem that was in force before is still the one that is
mounted, or none can be mounted, or the new one is. -/

namespace Etss
open NorFlash NorFlash.Flash FlashM

variable {cfg : Config} {a : Nat} {c c₀ c' : Ctx} {fl fl₀ fl' : Flash} {o : Op}

/-! ## What a mount depends on -/

/-- Completing a deletion that is still to be made, after the metadata is initialised. -/
def deleteMarked (cfg : Config) : FsM Unit := do
  match ← (flashFsMblockGetFileIdxFlag cfg flagDelete).attempt with
  | .ok idx => flashFsDeleteIdx cfg idx
  | .error .doesNotExist => pure ()
  | .error e => fail e

theorem prepare_eq (cfg : Config) :
    flashFsPrepare cfg = flashFsMblockInit cfg >>= fun _ => deleteMarked cfg := rfl

/-- A mount goes on from the context and the flash that its first part leaves. -/
theorem prepare_run (hacc : cfg.Accepted) (hsel : selectActive cfg fl = .ok a) (c₀ : Ctx) :
    (flashFsPrepare cfg).run cfg.eraseVal c₀ fl =
      (mblockUpgradeMetaHeader cfg >>= fun _ => deleteMarked cfg).run cfg.eraseVal
        (mountedCtx cfg a fl) (scratchErased cfg a fl) := by
  obtain ⟨hle, hMeta, hread⟩ := selectActive_readHeader hsel
  have hw : (flashFsPrepare cfg).wp cfg.eraseVal anyOp c₀ fl fun res c' fl' =>
      Outcome.mk res c' fl' = (mblockUpgradeMetaHeader cfg >>= fun _ => deleteMarked cfg).run
        cfg.eraseVal (mountedCtx cfg a fl) (scratchErased cfg a fl) := by
    rw [prepare_eq]
    refine wp_bind.mpr (mblockInit_wp hacc hle hsel (readHeader_some hread).2
      (fun _ _ _ => trivial) (wp_bind.mp (wp_iff.mpr ⟨fun _ _ => trivial, rfl⟩)))
  exact (wp_iff.mp hw).2

/-- Nothing is mounted when neither metadata block is valid. -/
theorem prepare_fails {e : Status} (hacc : cfg.Accepted) (hsel : selectActive cfg fl = .error e)
    (c₀ : Ctx) : ((flashFsPrepare cfg).run cfg.eraseVal c₀ fl).status = .error .genericError := by
  have hw : (flashFsPrepare cfg).wp cfg.eraseVal anyOp c₀ fl fun res _ _ =>
      res = .error .genericError := by
    unfold flashFsPrepare flashFsMblockInit
    refine Err.bind (S := fun _ _ => True) (Ok.bind_err (R := fun _ _ fl' => fl' = fl)
      (ok_issue trivial rfl) ?_) |> fun h => wp_post h fun _ _ _ hr => hr.1
    rintro _ c _ rfl
    refine Err.bind (Err.failAs (e := e) (initGetActiveMetablock_wp allowsReads_anyOp hacc
      (fun a ha => ?_) fun e' he => ?_))
    · rw [hsel] at ha
      cases ha
    · rw [hsel] at he
      exact ⟨congrArg Except.error (Except.error.inj he).symm, trivial⟩
  exact (wp_iff.mp hw).2

theorem Wiped.prepare (h : Wiped cfg fl) (hacc : cfg.Accepted) (c₀ : Ctx) :
    ∃ c' fl', (flashFsPrepare cfg).run cfg.eraseVal c₀ fl = ⟨.ok (), c', fl'⟩ ∧
      Store cfg c' fl' ∧ (mountedImage cfg c' fl').IsEmpty cfg := by
  have hm := h.mountable hacc
  have hp : (flashFsPrepare cfg).Ok cfg.eraseVal (PrepareOp cfg 1 fl) c₀ fl _ :=
    hm.prepare_ok (.inl h.empty.closed)
  obtain ⟨_, c', fl', hrun, hr⟩ := hp.exists_run
  obtain ⟨rfl, rfl⟩ := hr.closed h.empty.closed
  obtain ⟨hst, hsame, _⟩ := hm.closed_spec h.empty.closed
  exact ⟨_, _, hrun, hst, hsame.isEmpty h.empty⟩

/-! ## The states in which power may be lost -/

/-- The flash while `fl₀` is wiped. -/
inductive WipeCrash (cfg : Config) (fl₀ : Flash) : Flash → Prop
  | before : WipeCrash cfg fl₀ fl₀
  | first : WipeCrash cfg fl₀ (fl₀.erase (firstErased cfg fl₀))
  | blank {fl : Flash} (h0 : readHeader cfg fl 0 = none) (h1 : readHeader cfg fl 1 = none) :
    WipeCrash cfg fl₀ fl
  | wiped {fl : Flash} (h : Wiped cfg fl) : WipeCrash cfg fl₀ fl

theorem WipeCrash.of_clean (h : Clean headerCells fl) : WipeCrash cfg fl₀ fl :=
  .blank (readHeader_erased (h.mono fun _ _ hw => ⟨hw.1.le.trans (Nat.zero_le 1), hw.2.2⟩))
    (readHeader_erased (h.mono fun _ _ hw => ⟨hw.1.le, hw.2.2⟩))

/-- While the header of the new filesystem is written. -/
theorem LaidOut.torn {hdr : MetadataBlockHeader} (h : LaidOut cfg hdr fl) (n : Nat) :
    WipeCrash cfg fl₀ (fl.write 1 0 (hdr.encode.take n)) := by
  have hlen : (hdr.encode.take n).length ≤ 8 := by
    rw [List.length_take, hdr.encode_length]
    exact min_le_right _ _
  have hf : OnlyIn (range 1 0 8) fl (fl.write 1 0 (hdr.encode.take n)) :=
    (onlyIn_write fl 1 0 _).mono fun b o hw => ⟨hw.1, hw.2.1, by have := hw.2.2; omega⟩
  by_cases hn : n ≤ 6
  · refine .blank ?_ (readHeader_torn_none (h.blank.mono fun b o hw => ⟨hw.1.le, hw.2.2⟩)
      h.version hn)
    have hclean : Clean (range 0 0 8) fl :=
      h.blank.mono fun b o hw => ⟨hw.1.le.trans (Nat.zero_le 1), hw.2.2⟩
    rw [readHeader_congr hf fun o hw => Nat.zero_ne_one hw.1]
    exact readHeader_erased hclean
  · have hpad : ∃ pad, (image cfg (fl.write 1 0 (hdr.encode.take n)) 1).header =
        { hdr with pad := pad } := header_torn h.scratch_lt fl (by omega)
    obtain ⟨pad, hpad⟩ := hpad
    exact .wiped (h.wiped hf hpad)

theorem WipeOp.crash (h : WipeOp cfg fl₀ fl o) (hfl : WipeCrash cfg fl₀ fl) :
    WipeCrash cfg fl₀ (fl.apply o) ∧ ∀ n, WipeCrash cfg fl₀ (fl.torn n o) := by
  cases h with
  | read => exact ⟨hfl, fun _ => hfl⟩
  | flush => exact ⟨hfl, fun _ => hfl⟩
  | eraseFirst => exact ⟨.first, fun _ => hfl⟩
  | eraseSecond =>
    exact ⟨.of_clean ((erase_both (firstErased_le cfg fl₀) fl₀).mono fun b o hw => hw.1),
      fun _ => hfl⟩
  | layout blank op =>
    refine ⟨.of_clean (op.clean blank), fun n => ?_⟩
    cases o with
    | write b off data =>
      exact .of_clean (LayoutOp.clean (o := .write b off (data.take n)) op blank)
    | _ => exact hfl
  | header laid =>
    have hw := fun n => (laid.torn n : WipeCrash cfg fl₀ _)
    have hall := hw 8
    rw [List.take_of_length_le (MetadataBlockHeader.encode_length _).le] at hall
    exact ⟨hall, hw⟩

/-! ## The mount after that -/

/-- The mount takes what it would have taken of `fl₀`, or finds no valid metadata block, or takes
the new filesystem, which is empty. -/
inductive NoRollback (cfg : Config) (fl₀ fl : Flash) (c₀ : Ctx) : Prop
  | kept (select : selectActive cfg fl = selectActive cfg fl₀)
    (run : (flashFsPrepare cfg).run cfg.eraseVal c₀ fl =
      (flashFsPrepare cfg).run cfg.eraseVal c₀ fl₀) : NoRollback cfg fl₀ fl c₀
  | none (select : selectActive cfg fl = .error .genericError)
    (status : ((flashFsPrepare cfg).run cfg.eraseVal c₀ fl).status = .error .genericError) :
    NoRollback cfg fl₀ fl c₀
  | wiped {c' : Ctx} {fl' : Flash}
    (run : (flashFsPrepare cfg).run cfg.eraseVal c₀ fl = ⟨.ok (), c', fl'⟩)
    (store : Store cfg c' fl') (empty : (mountedImage cfg c' fl').IsEmpty cfg) :
    NoRollback cfg fl₀ fl c₀

theorem selectActive_none (h0 : readHeader cfg fl 0 = none) (h1 : readHeader cfg fl 1 = none) :
    selectActive cfg fl = .error .genericError := by
  unfold selectActive metadataBlock0 metadataBlock1
  rw [h0, h1]

/-- The first erase takes the block away that is not in force. -/
theorem noRollback_first (hacc : cfg.Accepted) (c₀ : Ctx) :
    NoRollback cfg fl₀ (fl₀.erase (firstErased cfg fl₀)) c₀ := by
  have hf := onlyIn_erase fl₀ (firstErased cfg fl₀)
  have hgone : readHeader cfg (fl₀.erase (firstErased cfg fl₀)) (firstErased cfg fl₀) = none :=
    readHeader_erased ((clean_erase fl₀ _).mono fun b o hw => hw.1)
  cases hsel : selectActive cfg fl₀ with
  | ok a =>
    obtain ⟨hle, hMeta, hread⟩ := selectActive_readHeader hsel
    have hfirst : firstErased cfg fl₀ = otherMetaBlock a := by
      unfold firstErased
      rw [hsel]
    rw [hfirst] at hf hgone ⊢
    have hna : ∀ o, ¬ (fun b (_ : Nat) => b = otherMetaBlock a) a o := fun _ hw =>
      otherMetaBlock_ne a hw.symm
    have hread' : readHeader cfg _ a = some hMeta := (readHeader_congr hf hna).trans hread
    have hsel' := selectActive_of_only hle hread' hgone
    have hhdr : (image cfg (fl₀.erase (otherMetaBlock a)) a).header = (image cfg fl₀ a).header :=
      image_header_congr hf fun o _ => hna o
    refine .kept (hsel'.trans hsel.symm) ?_
    rw [prepare_run hacc hsel', prepare_run hacc hsel]
    unfold mountedCtx scratchErased
    rw [hhdr, erase_erase]
  | error e =>
    have hfirst : firstErased cfg fl₀ = 0 := by
      unfold firstErased
      rw [hsel]
      rfl
    rw [hfirst] at hf hgone ⊢
    have h1 : readHeader cfg fl₀ 1 = none := by
      cases hr : readHeader cfg fl₀ 1 with
      | none => rfl
      | some hMeta =>
        unfold selectActive metadataBlock0 metadataBlock1 at hsel
        rw [hr] at hsel
        cases h0 : readHeader cfg fl₀ 0 with
        | none => rw [h0] at hsel; cases hsel
        | some hMeta0 => rw [h0] at hsel; cases hsel
    have h1' : readHeader cfg _ 1 = none := (readHeader_congr hf fun _ => Nat.one_ne_zero).trans h1
    have hsel' := selectActive_none hgone h1'
    exact .none hsel' (prepare_fails hacc hsel' c₀)

theorem WipeCrash.noRollback (h : WipeCrash cfg fl₀ fl) (hacc : cfg.Accepted) (c₀ : Ctx) :
    NoRollback cfg fl₀ fl c₀ := by
  cases h with
  | before => exact .kept rfl rfl
  | first => exact noRollback_first hacc c₀
  | blank h0 h1 =>
    have hsel := selectActive_none h0 h1
    exact .none hsel (prepare_fails hacc hsel c₀)
  | wiped h =>
    obtain ⟨c', fl', hrun, hst, hempty⟩ := h.prepare hacc c₀
    exact .wiped hrun hst hempty

/-- A new filesystem: it has no files, and all space is free. -/
structure NewStore (cfg : Config) (out : Outcome Ctx Status Unit) : Prop where
  ok : out.status = .ok ()
  store : Store cfg out.ctx out.flash
  noFiles : ∀ fid, (mountedImage cfg out.ctx out.flash).fileMap cfg fid = none
  allFree : ∀ l < numActiveDblocks cfg, ((mountedImage cfg out.ctx out.flash).blocks l).freeSize =
    cfg.blockSize - ((mountedImage cfg out.ctx out.flash).blocks l).dataStart

theorem format_newStore (hacc : cfg.Accepted) (c : Ctx) (fl : Flash) :
    NewStore cfg ((flashFsFormat cfg).run cfg.eraseVal c fl) := by
  obtain ⟨hok, hst, hempty⟩ := format_spec hacc c fl
  refine ⟨hok, hst, hempty.fileMap, fun l hl => ?_⟩
  rw [hempty.blocks l hl]
  unfold emptyBlock
  split_ifs with h0
  · rfl
  · rfl

/-- A wipe leaves a new filesystem, whatever the flash holds; if power is lost in it, an older
filesystem does not come back. -/
theorem wipeAll_noRollback (hacc : cfg.Accepted) (c : Ctx) (fl : Flash) :
    NewStore cfg ((flashFsFormat cfg).run cfg.eraseVal c fl) ∧
      ∀ fl', (flashFsWipeAll cfg).CrashAt cfg.eraseVal c fl fl' → ∀ c₀,
        NoRollback cfg fl fl' c₀ :=
  ⟨format_newStore hacc c fl, fun _ hc c₀ => (wp_crash (wipeAll_ok (c := c) hacc) .before
    (fun _ _ hfl ho => ho.crash hfl) hc).noRollback hacc c₀⟩

/-- An erased flash of two blocks. -/
theorem wipeAll_twoBlocks : NewStore twoBlocks (formatted twoBlocks) ∧
    NoRollback twoBlocks ⟨[]⟩ ⟨[]⟩ Ctx.zero :=
  ⟨(wipeAll_noRollback twoBlocks_accepted Ctx.zero ⟨[]⟩).1,
    (wipeAll_noRollback twoBlocks_accepted Ctx.zero ⟨[]⟩).2 ⟨[]⟩ (.here _ _) Ctx.zero⟩

end Etss
