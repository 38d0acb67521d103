import TfmExtras.Etss.FlushOrder
import TfmExtras.Etss.SetFault
import TfmExtras.Etss.Settled
import TfmExtras.Etss.Startup
import TfmExtras.Etss.WipeCrash

/-! Starting while flash operations fail. A header that cannot be read counts as one that is not
valid: the older filesystem is then taken for the newest one, or the whole area is wiped, as it is
when any later operation of the mount fails. -/

namespace Etss
open NorFlash NorFlash.Flash FlashM

variable {cfg : Config} {F : Faults} {a b o : Nat} {c : Ctx} {fl : Flash}

/-! ## The headers that can be read -/

theorem validateHeaderMeta_steady (hMeta : MetadataBlockHeader) (b : Nat) :
    (mblockValidateHeaderMeta cfg hMeta b).Steady c :=
  (steady_ofExcept _).bind fun _ => Steady.ite (steady_ofExcept _) <|
    (steady_ofExcept _).bind fun _ =>
      Steady.ite ((calculateMetadataXor_steady _).bind fun _ => steady_failIf _ _) (steady_pure _)

/-- When a read of the check fails, no header is found. -/
theorem initReadHeader_stops (b : Nat) :
    Prog.Stops (· = (.ok none, c)) (fun r => r.2 = c) (initReadHeader cfg b c) := by
  refine Prog.Stops.bind (GivesUp.attempt_stops (steady_issue _ _)) ?_ ?_
  · rintro ⟨r, c'⟩ ⟨⟨e, hr, _⟩, hc⟩
    obtain rfl : r = .ok (.error e) := hr
    obtain rfl : c' = c := hc
    exact .pure rfl
  · rintro ⟨r, c'⟩ ⟨⟨x, hr⟩, hc⟩
    obtain rfl : r = .ok x := hr
    obtain rfl : c' = c := hc
    cases x with
    | error e => exact .pure rfl
    | ok buf =>
      refine Prog.Stops.bind (validateHeaderMeta_steady _ b).attempt_stops ?_ ?_
      · rintro ⟨r, c₁⟩ ⟨⟨e, hr, _⟩, hc⟩
        obtain rfl : r = .ok (.error e) := hr
        obtain rfl : c₁ = c' := hc
        exact .pure rfl
      · rintro ⟨r, c₁⟩ ⟨⟨x, hr⟩, hc⟩
        obtain rfl : r = .ok x := hr
        obtain rfl : c₁ = c' := hc
        cases x with
        | error e => exact .pure rfl
        | ok _ => exact .pure rfl

/-- The number of reads that the check of a header makes. -/
def headerReads (cfg : Config) (fl : Flash) (b : Nat) : Nat :=
  ((initReadHeader cfg b).trace cfg.eraseVal Ctx.zero fl).length

/-- The header that is found in a metadata block while operations fail. -/
def headerUnder (cfg : Config) (F : Faults) (fl : Flash) (b : Nat) : Option MetadataBlockHeader :=
  if F.CleanFor (headerReads cfg fl b) then readHeader cfg fl b else none

/-- The pattern that is left once both headers are checked. -/
def headersLeft (cfg : Config) (F : Faults) (fl : Flash) : Faults :=
  (initReadHeader cfg metadataBlock1).faultsLeft cfg.eraseVal
    ((initReadHeader cfg metadataBlock0).faultsLeft cfg.eraseVal F Ctx.zero fl) Ctx.zero fl

/-- The metadata block that is taken as the active one while operations fail. -/
def selectUnder (cfg : Config) (F : Faults) (fl : Flash) : Except Status Nat :=
  match headerUnder cfg F fl metadataBlock0, headerUnder cfg
    ((initReadHeader cfg metadataBlock0).faultsLeft cfg.eraseVal F Ctx.zero fl) fl
    metadataBlock1 with
  | some hMeta0, some hMeta1 => .ok (mblockLatestMetaBlock cfg hMeta0 hMeta1)
  | some _, none => .ok metadataBlock0
  | none, some _ => .ok metadataBlock1
  | none, none => .error .genericError

theorem initReadHeader_under (hacc : cfg.Accepted) (hb : b ≤ 1) (F : Faults) :
    (initReadHeader cfg b).runFaulty cfg.eraseVal F Ctx.zero fl =
      ⟨.ok (headerUnder cfg F fl b), Ctx.zero, fl⟩ := by
  have hreads : (initReadHeader cfg b).Reads Ctx.zero := initReadHeader_reads b Ctx.zero
  obtain ⟨hctx, hfl⟩ := hreads.runFaulty_eq cfg.eraseVal F fl
  have hst : ((initReadHeader cfg b).runFaulty cfg.eraseVal F Ctx.zero fl).status =
      .ok (headerUnder cfg F fl b) := by
    unfold headerUnder
    rcases F.cleanFor_or_firstAt (headerReads cfg fl b) with hc | ⟨i, hi, hF⟩
    · have hq : (initReadHeader cfg b).Query cfg.eraseVal anyOp Ctx.zero fl _ :=
        initReadHeader_query (fun _ _ _ _ _ _ => trivial) hacc hb
      rw [if_pos hc, (runFaulty_of_clean hc).1, hq.run_eq]
    · have hstops : Prog.Stops (· = (.ok none, Ctx.zero)) (fun r => r.2 = Ctx.zero)
          (initReadHeader cfg b Ctx.zero) := initReadHeader_stops b
      have hs := (hstops.runFaulty_bind (f := Prog.pure) (fun r hr => .pure hr) hF hi).1
      rw [Prog.bind_pure] at hs
      rw [if_neg fun hc => Faults.CleanFor.not_firstAt hc hi hF]
      exact congrArg Prod.fst hs
  exact Outcome.ext hst hctx hfl

/-- The context once a metadata block is selected. -/
def selectedCtx (o : Nat) : Ctx :=
  { Ctx.zero with activeMetablock := o, scratchMetablock := otherMetaBlock o }

theorem initGetActiveMetablock_under (hacc : cfg.Accepted) (F : Faults) :
    (initGetActiveMetablock cfg).runFaulty cfg.eraseVal F Ctx.zero fl =
      (ofExcept (selectUnder cfg F fl) >>= fun curMetaBlock => modify fun c => { c with
        activeMetablock := curMetaBlock, scratchMetablock := otherMetaBlock curMetaBlock } :
          FsM Unit).runFaulty cfg.eraseVal (headersLeft cfg F fl) Ctx.zero fl ∧
    (initGetActiveMetablock cfg).faultsLeft cfg.eraseVal F Ctx.zero fl = headersLeft cfg F fl := by
  have hread : ∀ b ≤ 1, ∀ G : Faults, (initReadHeader cfg b).runFaulty cfg.eraseVal G Ctx.zero fl =
      ⟨.ok (headerUnder cfg G fl b), Ctx.zero, fl⟩ := fun b hb G => initReadHeader_under hacc hb G
  have h₀ := hread metadataBlock0 (Nat.zero_le 1) F
  have h₁ := hread metadataBlock1 le_rfl
    ((initReadHeader cfg metadataBlock0).faultsLeft cfg.eraseVal F Ctx.zero fl)
  unfold initGetActiveMetablock
  constructor
  · rw [runFaulty_bind_ok (congrArg Outcome.status h₀), h₀,
      runFaulty_bind_ok (congrArg Outcome.status h₁), h₁]
    rfl
  · rw [faultsLeft_bind_ok (congrArg Outcome.status h₀), h₀,
      faultsLeft_bind_ok (congrArg Outcome.status h₁), h₁]
    unfold headersLeft
    generalize (initReadHeader cfg metadataBlock1).faultsLeft cfg.eraseVal _ Ctx.zero fl = F'
    dsimp only
    generalize headerUnder cfg F fl metadataBlock0 = x
    generalize headerUnder cfg _ fl metadataBlock1 = y
    cases x <;> cases y <;> rfl

/-! ## The mount under failures -/

/-- What a mount does once the active metadata block is selected. -/
def mountSelected (cfg : Config) : FsM Unit := do
  (mblockReadMetaHeader cfg).failAs .genericError
  (mblockEraseScratchBlocks cfg).failAs .genericError
  mblockUpgradeMetaHeader cfg
  deleteMarked cfg

theorem prepare_selected_eq (cfg : Config) :
    flashFsPrepare cfg = opsInit >>= fun _ =>
      (initGetActiveMetablock cfg).failAs .genericError >>= fun _ => mountSelected cfg := by
  rw [prepare_eq]
  unfold flashFsMblockInit mountSelected
  refine (bind_assoc _ _ _).trans (bind_congr fun _ => (bind_assoc _ _ _).trans ?_)
  refine bind_congr fun _ => (bind_assoc _ _ _).trans (bind_congr fun _ => ?_)
  exact bind_assoc _ _ _

theorem upgradeMetaHeader_gives (c : Ctx) : Gives (mblockUpgradeMetaHeader cfg) c := by
  refine get_bind_givesUp (GivesUp.bind (givesUp_ofExcept _ trivial) (fun _ => id)
    fun compat c₁ _ => ?_)
  cases compat with
  | false => exact givesUp_pure trivial
  | true =>
    have hread : (flashFsMblockReadBlockMetadataComp cfg logicalDblock0).Steady c₁ :=
      steady_get.bind fun _ => (steady_issue _ _).bind fun _ => (steady_ofExcept _).bind fun _ =>
        steady_pure _
    refine hread.bind_givesUp trivial trivial fun _ => ?_
    refine (blockToBlockMove_steady _ _ _ _ _).bind_givesUp trivial trivial fun _ => ?_
    exact modify_bind_givesUp rfl (metaUpdateFinalize_gives _)

theorem deleteMarked_gives (c : Ctx) : Gives (deleteMarked cfg) c := by
  refine GivesUp.attempt_bind (findFileMeta_givesUp _ cfg.maxNumFiles 0) ?_ ?_
  · rintro _ c' rfl rfl
    exact .pure ⟨⟨_, rfl, trivial⟩, trivial⟩
  · rintro r c' rfl
    cases r with
    | ok idx => exact deleteIdx_gives idx c'
    | error e => cases e <;> first | exact givesUp_pure trivial | exact givesUp_fail _ trivial

/-- Once the metadata block is selected, the mount gives up at the first operation that fails. -/
theorem mountSelected_gives (c : Ctx) : Gives (mountSelected cfg) c := by
  have hread : Gives (mblockReadMetaHeader cfg) c := by
    refine get_bind_givesUp ((steady_issue _ _).bind_givesUp trivial trivial fun _ => ?_)
    refine modify_bind_givesUp rfl ?_
    exact GivesUp.mono (validateHeaderMeta_steady _ _) (fun _ => id) (fun _ _ => trivial)
      fun _ _ => trivial
  have herase : ∀ c, Gives (mblockEraseScratchBlocks cfg) c := fun c => by
    refine get_bind_givesUp ((steady_issue _ _).bind_givesUp trivial trivial fun _ => ?_)
    split_ifs
    · exact GivesUp.mono ((curDataScratchId_steady _).bind fun _ => (steady_issue _ _).bind
        fun _ => steady_pure _) (fun _ => id) (fun _ _ => trivial) fun _ _ => trivial
    · exact givesUp_pure trivial
  refine GivesUp.bind (GivesUp.failAs hread trivial) (fun _ => id) fun _ c₁ _ => ?_
  refine GivesUp.bind (GivesUp.failAs (herase c₁) trivial) (fun _ => id) fun _ c₂ _ => ?_
  exact GivesUp.bind (upgradeMetaHeader_gives c₂) (fun _ => id) fun _ c₃ _ => deleteMarked_gives c₃

theorem prepare_under_init (h : (F 0).isSome) :
    ∃ e, ((flashFsPrepare cfg).runFaulty cfg.eraseVal F Ctx.zero fl).status = .error e := by
  have hF : F.FirstAt 0 := ⟨h, fun j hj => absurd hj (Nat.not_lt_zero j)⟩
  rw [prepare_selected_eq]
  have hsteady : (opsInit : FsM _).Steady Ctx.zero := steady_issue .init _
  exact (GivesUp.runFaulty_bind hsteady hF (show 0 < 1 from Nat.zero_lt_one)).1

theorem prepare_under (h : F 0 = none) :
    (flashFsPrepare cfg).runFaulty cfg.eraseVal F Ctx.zero fl =
      ((initGetActiveMetablock cfg).failAs .genericError >>= fun _ => mountSelected cfg).runFaulty
        cfg.eraseVal (F.drop 1) Ctx.zero fl := by
  have hrun : (opsInit : FsM _).runFaulty cfg.eraseVal F Ctx.zero fl =
      ⟨.ok (fl.reply cfg.eraseVal .init), Ctx.zero, fl⟩ := by
    unfold opsInit issue runFaulty
    rw [Prog.runFaulty_op_none h]
    rfl
  have hleft : (opsInit : FsM _).faultsLeft cfg.eraseVal F Ctx.zero fl = F.drop 1 := by
    unfold opsInit issue faultsLeft Prog.faultsLeft
    rw [h]
    rfl
  rw [prepare_selected_eq, runFaulty_bind_ok (congrArg Outcome.status hrun), hrun, hleft]

section
variable (hacc : cfg.Accepted)
include hacc

theorem prepare_under_error (h : F 0 = none) {e : Status}
    (hs : selectUnder cfg (F.drop 1) fl = .error e) :
    ∃ e, ((flashFsPrepare cfg).runFaulty cfg.eraseVal F Ctx.zero fl).status = .error e := by
  have hrun : (initGetActiveMetablock cfg).runFaulty cfg.eraseVal (F.drop 1) Ctx.zero fl = _ :=
    (initGetActiveMetablock_under hacc (F.drop 1)).1
  rw [hs] at hrun
  refine ⟨.genericError, ?_⟩
  rw [prepare_under h, runFaulty_bind_err (e := .genericError)]
  rw [runFaulty_failAs, hrun]
  rfl

theorem prepare_under_ok (h : F 0 = none) (hs : selectUnder cfg (F.drop 1) fl = .ok o) :
    (flashFsPrepare cfg).runFaulty cfg.eraseVal F Ctx.zero fl =
      (mountSelected cfg).runFaulty cfg.eraseVal (headersLeft cfg (F.drop 1) fl) (selectedCtx o)
        fl := by
  have hrun : (initGetActiveMetablock cfg).runFaulty cfg.eraseVal (F.drop 1) Ctx.zero fl = _ :=
    (initGetActiveMetablock_under hacc (F.drop 1)).1
  have hleft : (initGetActiveMetablock cfg).faultsLeft cfg.eraseVal (F.drop 1) Ctx.zero fl = _ :=
    (initGetActiveMetablock_under hacc (F.drop 1)).2
  rw [hs] at hrun
  have hget : ((initGetActiveMetablock cfg).failAs .genericError).runFaulty cfg.eraseVal
      (F.drop 1) Ctx.zero fl = ⟨.ok (), selectedCtx o, fl⟩ := by
    rw [runFaulty_failAs, hrun]
    rfl
  rw [prepare_under h, runFaulty_bind_ok (congrArg Outcome.status hget), hget,
    faultsLeft_failAs, hleft]

end

/-! ## The filesystem that is selected -/

/-- Metadata block `b` holds a committed filesystem, in which a deletion may be pending. -/
structure CommittedIn (cfg : Config) (fl : Flash) (b : Nat) : Prop where
  accepted : cfg.Accepted
  le : b ≤ 1
  valid : HeaderValid cfg fl b
  wf : (image cfg fl b).Wf cfg b
  closed_or_pending : (image cfg fl b).Closed cfg ∨ ∃ d, (image cfg fl b).Pending cfg d

theorem deleteMarked_ok (h : Mountable cfg a fl)
    (hcp : (image cfg fl a).Closed cfg ∨ ∃ d, (image cfg fl a).Pending cfg d) :
    ∃ c' fl', (deleteMarked cfg).run cfg.eraseVal (mountedCtx cfg a fl) (scratchErased cfg a fl) =
      ⟨.ok (), c', fl'⟩ ∧ MountSpec cfg a fl c' fl' := by
  obtain ⟨_, _, _, hinit, rfl, rfl⟩ := (h.init_ok (c := Ctx.zero)).exists_run
  obtain ⟨_, c', fl', hrun, hspec⟩ := (h.prepare_spec hcp (c := Ctx.zero)).exists_run
  refine ⟨c', fl', ?_, hspec⟩
  have hbind := run_bind_ok (f := fun _ => deleteMarked cfg) (congrArg Outcome.status hinit)
  rw [hinit] at hbind
  exact hbind.symm.trans hrun

namespace CommittedIn
variable (h : CommittedIn cfg fl b)
include h

/-- With the other metadata block erased, the filesystem is the one that is mounted. -/
theorem mountable : Mountable cfg b (fl.erase (otherMetaBlock b)) := by
  have hf : OnlyIn (scratchRegion cfg (mountedCtx cfg b fl)) fl (fl.erase (otherMetaBlock b)) :=
    (onlyIn_erase fl _).mono fun _ _ hw => .inl hw
  have hvalid := h.wf.headerValid_of_onlyIn h.le hf h.valid
  exact ⟨h.accepted, h.le, selectActive_of_only h.le hvalid.readHeader_eq
    (readHeader_erased ((clean_erase _ _).mono fun _ _ hw => hw.1)), hvalid,
    (h.wf.same_of_onlyIn h.le hf).wf h.accepted h.wf⟩

theorem same_erase : (image cfg fl b).Same cfg (image cfg (fl.erase (otherMetaBlock b)) b) :=
  h.wf.same_of_onlyIn h.le ((onlyIn_erase fl _).mono fun _ _ hw => .inl hw)

theorem header_erase :
    (image cfg (fl.erase (otherMetaBlock b)) b).header = (image cfg fl b).header :=
  h.wf.header_of_onlyIn h.le ((onlyIn_erase fl _).mono fun _ _ hw => .inl hw)

/-- When nothing fails once the block is selected, its filesystem is mounted. -/
theorem mountSelected_run : ∃ c' fl', (mountSelected cfg).run cfg.eraseVal (selectedCtx b) fl =
    ⟨.ok (), c', fl'⟩ ∧ MountSpec cfg b (fl.erase (otherMetaBlock b)) c' fl' := by
  have hcp := h.closed_or_pending.imp h.same_erase.closed
    (Exists.imp fun _ => h.same_erase.pending)
  obtain ⟨c', fl', hrun, hspec⟩ := deleteMarked_ok h.mountable hcp
  refine ⟨c', fl', ?_, hspec⟩
  -- the other metadata block is erased in any case
  have hctx : mountedCtx cfg b (fl.erase (otherMetaBlock b)) = mountedCtx cfg b fl := by
    unfold mountedCtx
    rw [h.header_erase]
  have hfl : scratchErased cfg b (fl.erase (otherMetaBlock b)) = scratchErased cfg b fl := by
    unfold scratchErased
    rw [h.header_erase, erase_erase]
  rw [hctx, hfl] at hrun
  have hread : (mblockReadMetaHeader cfg).Ok cfg.eraseVal anyOp (selectedCtx b) fl
      fun _ c' fl' => c' = mountedCtx cfg b fl ∧ fl' = fl :=
    readMetaHeader_ok h.valid.headerCheck_eq (fun _ _ _ _ _ _ => trivial) h.accepted h.le
  have herase : (mblockEraseScratchBlocks cfg).Ok cfg.eraseVal anyOp (mountedCtx cfg b fl) fl
      fun _ c' fl' => c' = mountedCtx cfg b fl ∧ fl' = scratchErased cfg b fl :=
    eraseScratchBlocks_ok trivial fun _ => trivial
  have hversion : mblockValidateFsVersion (mountedCtx cfg b fl).metaBlockHeader.fsVersion =
      .ok false := by
    show mblockValidateFsVersion (image cfg fl b).header.fsVersion = _
    rw [h.valid.version]
    rfl
  have hupgrade : (mblockUpgradeMetaHeader cfg).Query cfg.eraseVal anyOp (mountedCtx cfg b fl)
      (scratchErased cfg b fl) (.ok ()) := by
    unfold mblockUpgradeMetaHeader
    refine query_get.seq ?_
    rw [hversion]
    exact (query_ofExcept _).seq (query_pure ())
  have hall : (mountSelected cfg).Ok cfg.eraseVal anyOp (selectedCtx b) fl
      fun _ c₁ fl₁ => c₁ = c' ∧ fl₁ = fl' := by
    refine hread.failAs.bind ?_
    rintro _ _ _ ⟨rfl, rfl⟩
    refine herase.failAs.bind ?_
    rintro _ _ _ ⟨rfl, rfl⟩
    refine hupgrade.seq_wp (wp_iff.mpr ⟨fun _ _ => trivial, ?_⟩)
    rw [hrun]
    exact ⟨(), rfl, rfl, rfl⟩
  obtain ⟨_, _, _, hmount, rfl, rfl⟩ := hall.exists_run
  exact hmount

end CommittedIn

theorem headerUnder_some {hdr : MetadataBlockHeader} (h : headerUnder cfg F fl b = some hdr) :
    readHeader cfg fl b = some hdr := by
  unfold headerUnder at h
  split_ifs at h
  exact h

theorem latestMetaBlock_cases (hMeta0 hMeta1 : MetadataBlockHeader) :
    mblockLatestMetaBlock cfg hMeta0 hMeta1 = metadataBlock0 ∨
      mblockLatestMetaBlock cfg hMeta0 hMeta1 = metadataBlock1 := by
  unfold mblockLatestMetaBlock
  dsimp only
  split_ifs <;> simp

/-- A selected block has a valid header. -/
theorem selectUnder_ok (h : selectUnder cfg F fl = .ok o) :
    o ≤ 1 ∧ ∃ hdr, readHeader cfg fl o = some hdr := by
  unfold selectUnder at h
  have h₀ : ∀ hdr, headerUnder cfg F fl metadataBlock0 = some hdr →
      readHeader cfg fl metadataBlock0 = some hdr := fun _ => headerUnder_some
  have h₁ : ∀ hdr, headerUnder cfg ((initReadHeader cfg metadataBlock0).faultsLeft cfg.eraseVal F
      Ctx.zero fl) fl metadataBlock1 = some hdr →
      readHeader cfg fl metadataBlock1 = some hdr := fun _ => headerUnder_some
  generalize headerUnder cfg F fl metadataBlock0 = x₀ at h h₀
  generalize headerUnder cfg _ fl metadataBlock1 = x₁ at h h₁
  cases x₀ with
  | none =>
    cases x₁ with
    | none => cases h
    | some hdr =>
      cases h
      exact ⟨le_rfl, hdr, h₁ hdr rfl⟩
  | some hdr₀ =>
    cases x₁ with
    | none =>
      cases h
      exact ⟨Nat.zero_le 1, hdr₀, h₀ hdr₀ rfl⟩
    | some hdr₁ =>
      obtain rfl := Except.ok.inj h
      rcases latestMetaBlock_cases hdr₀ hdr₁ with he | he <;> rw [he]
      · exact ⟨Nat.zero_le 1, hdr₀, h₀ hdr₀ rfl⟩
      · exact ⟨le_rfl, hdr₁, h₁ hdr₁ rfl⟩

/-! ## Starting under failures -/

/-- The newest filesystem of an area is in metadata block `a`. The other metadata block has no valid
header, or an older filesystem. -/
structure Startable (cfg : Config) (a : Nat) (fl : Flash) : Prop extends
    CommittedIn cfg fl a where
  select : selectActive cfg fl = .ok a
  other : readHeader cfg fl (otherMetaBlock a) = none ∨ CommittedIn cfg fl (otherMetaBlock a)

/-- The first mount returns an error, and the area is wiped. -/
def WipesUnder (cfg : Config) (F : Faults) (fl : Flash) : Prop :=
  ∃ e, ((flashFsPrepare cfg).runFaulty cfg.eraseVal F Ctx.zero fl).status = .error e

/-- The flash after a start while operations fail. -/
def startedFlash (cfg : Config) (F : Faults) (c : Ctx) (fl : Flash) : Flash :=
  ((etssFlashFsInitCtxAndPrepare cfg true).runFaulty cfg.eraseVal F c fl).flash

/-- The next start, in which nothing fails. -/
def nextStart (cfg : Config) (c : Ctx) (fl : Flash) : Outcome Ctx Status Unit :=
  (etssFlashFsInitCtxAndPrepare cfg true).run cfg.eraseVal c fl

/-- A start wipes no area with a valid header, and the next one finds every file of the newest
filesystem. -/
structure StartSafe (cfg : Config) (F : Faults) (c : Ctx) (a : Nat) (fl : Flash) : Prop where
  wiped : WipesUnder cfg F fl →
    readHeader cfg fl metadataBlock0 = none ∧ readHeader cfg fl metadataBlock1 = none
  kept : ∀ c', (nextStart cfg c' (startedFlash cfg F c fl)).status = .ok () ∧
    ∀ i < cfg.maxNumFiles, ((image cfg fl a).files i).id ≠ 0 → ¬ (image cfg fl a).Marked i →
      ((mountedImage cfg (nextStart cfg c' (startedFlash cfg F c fl)).ctx
        (nextStart cfg c' (startedFlash cfg F c fl)).flash).fileMap cfg
          ((image cfg fl a).files i).id).map Image.View.content = some ((image cfg fl a).content i)

/-- Nothing fails but reads of the headers, and the filesystem that is selected then has every file
of the newest one. -/
def StartKeeps (cfg : Config) (F : Faults) (a : Nat) (fl : Flash) : Prop :=
  F 0 = none ∧ ∃ o, selectUnder cfg (F.drop 1) fl = .ok o ∧
    (headersLeft cfg (F.drop 1) fl).CleanFor
      ((mountSelected cfg).trace cfg.eraseVal (selectedCtx o) fl).length ∧
    (image cfg fl o).Provides cfg (image cfg fl a)

theorem Store.restores (h : Store cfg c fl) :
    Restores cfg ((mountedImage cfg c fl).fileMap cfg) fl :=
  ⟨c.activeMetablock, h.mountable, h.settles⟩

/-- When the first mount succeeds, the start does nothing else. -/
theorem startedFlash_of_ok (hacc : cfg.Accepted) {u : Unit}
    (h : ((flashFsPrepare cfg).runFaulty cfg.eraseVal F Ctx.zero fl).status = .ok u) :
    startedFlash cfg F c fl =
      ((flashFsPrepare cfg).runFaulty cfg.eraseVal F Ctx.zero fl).flash := by
  have hinit : ((ofExcept (flashFsInitCtx cfg)).failAs .storageFailure : FsM Ctx).runFaulty
      cfg.eraseVal F c fl = ⟨.ok Ctx.zero, c, fl⟩ := by
    rw [flashFsInitCtx_ok hacc]
    rfl
  have hleft : ((ofExcept (flashFsInitCtx cfg)).failAs .storageFailure : FsM Ctx).faultsLeft
      cfg.eraseVal F c fl = F := by
    rw [flashFsInitCtx_ok hacc]
    rfl
  have hmod : (modify fun _ => Ctx.zero : FsM Unit).runFaulty cfg.eraseVal F c fl =
      ⟨.ok (), Ctx.zero, fl⟩ := rfl
  have hmodLeft : (modify fun _ => Ctx.zero : FsM Unit).faultsLeft cfg.eraseVal F c fl = F := rfl
  have hprep : (flashFsPrepare cfg).attempt.runFaulty cfg.eraseVal F Ctx.zero fl = _ :=
    runFaulty_attempt
  unfold startedFlash etssFlashFsInitCtxAndPrepare
  rw [runFaulty_bind_ok (congrArg Outcome.status hinit), hinit, hleft]
  dsimp only
  rw [runFaulty_bind_ok (congrArg Outcome.status hmod), hmod, hmodLeft,
    runFaulty_bind_ok (congrArg Outcome.status hprep), hprep, h]
  rfl

namespace Startable
variable (h : Startable cfg a fl)
include h

/-- A block that is selected while operations fail holds a filesystem. -/
theorem selected (hs : selectUnder cfg F fl = .ok o) : CommittedIn cfg fl o := by
  obtain ⟨hle, hdr, hread⟩ := selectUnder_ok hs
  by_cases ho : o = a
  · exact ho ▸ h.toCommittedIn
  · have hother : o = otherMetaBlock a := by
      have := h.le
      unfold otherMetaBlock metadataBlock0 metadataBlock1
      split_ifs <;> omega
    subst hother
    refine h.other.resolve_left fun hn => ?_
    rw [hn] at hread
    cases hread

theorem not_wipesUnder (hw : WipesUnder cfg F fl → readHeader cfg fl metadataBlock0 = none ∧
    readHeader cfg fl metadataBlock1 = none) : ¬ WipesUnder cfg F fl := by
  intro hwipe
  obtain ⟨h₀, h₁⟩ := hw hwipe
  have hselect := h.select
  unfold selectActive at hselect
  rw [h₀, h₁] at hselect
  cases hselect

/-- The first mount succeeds when only reads of the headers fail. -/
theorem not_wipesUnder_iff : ¬ WipesUnder cfg F fl ↔ F 0 = none ∧
    ∃ o, selectUnder cfg (F.drop 1) fl = .ok o ∧ (headersLeft cfg (F.drop 1) fl).CleanFor
      ((mountSelected cfg).trace cfg.eraseVal (selectedCtx o) fl).length := by
  constructor
  · intro hw
    have h₀ : F 0 = none := by
      by_contra hn
      exact hw (prepare_under_init (Option.isSome_iff_ne_none.mpr hn))
    cases hs : selectUnder cfg (F.drop 1) fl with
    | error e => exact absurd (prepare_under_error h.accepted h₀ hs) hw
    | ok o =>
      refine ⟨h₀, o, rfl, ?_⟩
      obtain ⟨c', fl', hrun, _⟩ := (h.selected hs).mountSelected_run
      refine ((mountSelected_gives (selectedCtx o)).ok_iff_cleanFor
        (congrArg Outcome.status hrun)).mp ?_
      rw [← prepare_under_ok h.accepted h₀ hs]
      cases hst : ((flashFsPrepare cfg).runFaulty cfg.eraseVal F Ctx.zero fl).status with
      | ok u => exact ⟨u, rfl⟩
      | error e => exact absurd ⟨e, hst⟩ hw
  · rintro ⟨h₀, o, hs, hclean⟩ ⟨e, he⟩
    obtain ⟨c', fl', hrun, _⟩ := (h.selected hs).mountSelected_run
    rw [prepare_under_ok h.accepted h₀ hs, (runFaulty_of_clean hclean).1, hrun] at he
    cases he

/-- What the next start finds, when the first mount succeeds. -/
theorem kept_iff (h₀ : F 0 = none) (hs : selectUnder cfg (F.drop 1) fl = .ok o)
    (hclean : (headersLeft cfg (F.drop 1) fl).CleanFor
      ((mountSelected cfg).trace cfg.eraseVal (selectedCtx o) fl).length) (c c' : Ctx) :
    ((nextStart cfg c' (startedFlash cfg F c fl)).status = .ok () ∧
    ∀ i < cfg.maxNumFiles, ((image cfg fl a).files i).id ≠ 0 → ¬ (image cfg fl a).Marked i →
      ((mountedImage cfg (nextStart cfg c' (startedFlash cfg F c fl)).ctx
        (nextStart cfg c' (startedFlash cfg F c fl)).flash).fileMap cfg
          ((image cfg fl a).files i).id).map Image.View.content =
            some ((image cfg fl a).content i)) ↔
    (image cfg fl o).Provides cfg (image cfg fl a) := by
  have hc := h.selected hs
  obtain ⟨c₁, fl₁, hrun, hspec⟩ := hc.mountSelected_run
  have hprep : (flashFsPrepare cfg).runFaulty cfg.eraseVal F Ctx.zero fl = ⟨.ok (), c₁, fl₁⟩ := by
    rw [prepare_under_ok h.accepted h₀ hs, (runFaulty_of_clean hclean).1, hrun]
  have hflash : startedFlash cfg F c fl = fl₁ := by
    rw [startedFlash_of_ok h.accepted (congrArg Outcome.status hprep), hprep]
  obtain ⟨_, c₂, fl₂, hnext, hstore, hmap⟩ :=
    (hspec.store.restores.start_ok (c := c')).exists_run
  have hnext' : nextStart cfg c' (startedFlash cfg F c fl) = ⟨.ok (), c₂, fl₂⟩ := by
    rw [hflash]
    exact hnext
  rw [hnext']
  dsimp only
  rw [hmap]
  refine (and_iff_right rfl).trans ?_
  have hcp := hc.closed_or_pending.imp hc.same_erase.closed
    (Exists.imp fun _ => hc.same_erase.pending)
  have hw := hc.same_erase.wf h.accepted hc.wf
  refine forall_congr' fun i => forall_congr' fun hi => forall_congr' fun hv =>
    forall_congr' fun _ => ?_
  rw [hspec.content_iff hw h.accepted hcp hv]
  refine exists_congr fun j => and_congr_right fun hj => ?_
  unfold Image.Marked
  rw [hc.same_erase.files j hj]
  refine and_congr_right fun hid => and_congr_right fun _ => ?_
  exact hc.same_erase.settlesTo_iff hc.wf hj (hid.symm ▸ hv)

end Startable

/-- A start keeps the store exactly when nothing fails but reads of the headers, and the filesystem
that is selected then has every file of the newest one. -/
theorem start_safe_iff (h : Startable cfg a fl) (F : Faults) (c : Ctx) :
    StartSafe cfg F c a fl ↔ StartKeeps cfg F a fl := by
  constructor
  · intro hsafe
    obtain ⟨h₀, o, hs, hclean⟩ := h.not_wipesUnder_iff.mp (h.not_wipesUnder hsafe.wiped)
    exact ⟨h₀, o, hs, hclean, (h.kept_iff h₀ hs hclean c c).mp (hsafe.kept c)⟩
  · rintro ⟨h₀, o, hs, hclean, hprov⟩
    exact ⟨fun hw => absurd hw (h.not_wipesUnder_iff.mpr ⟨h₀, o, hs, hclean⟩),
      fun c' => (h.kept_iff h₀ hs hclean c c').mpr hprov⟩

theorem Store.startable (h : Store cfg c fl) : Startable cfg c.activeMetablock fl where
  accepted := h.accepted
  le := h.active_le
  valid := h.valid
  wf := h.wf
  closed_or_pending := .inl h.closed
  select := h.mountable.select
  other := .inl h.other_readHeader

theorem start_safe_iff_twoFiles :
    StartSafe fiveBlocks (onlyFails 2) Ctx.zero twoFiles.1.activeMetablock twoFiles.2 ↔
      StartKeeps fiveBlocks (onlyFails 2) twoFiles.1.activeMetablock twoFiles.2 :=
  start_safe_iff store_twoFiles.startable (onlyFails 2) Ctx.zero

/-- The initialisation of the flash fails once: both files are lost. -/
theorem not_start_safe :
    Startable fiveBlocks twoFiles.1.activeMetablock twoFiles.2 ∧
      ¬ StartSafe fiveBlocks (onlyFails 0) Ctx.zero twoFiles.1.activeMetablock twoFiles.2 := by
  refine ⟨store_twoFiles.startable, fun h => ?_⟩
  have hid : ((image fiveBlocks twoFiles.2 twoFiles.1.activeMetablock).files 1).id ≠ 0 ∧
      ((image fiveBlocks twoFiles.2 twoFiles.1.activeMetablock).files 1).flags &&& flagDelete = 0 :=
    by decide +kernel
  have hlost : ((mountedImage fiveBlocks
      (nextStart fiveBlocks Ctx.zero
        (startedFlash fiveBlocks (onlyFails 0) Ctx.zero twoFiles.2)).ctx
      (nextStart fiveBlocks Ctx.zero
        (startedFlash fiveBlocks (onlyFails 0) Ctx.zero twoFiles.2)).flash).fileMap fiveBlocks
      ((image fiveBlocks twoFiles.2 twoFiles.1.activeMetablock).files 1).id).isSome = false := by
    decide +kernel
  have hkept := (h.kept Ctx.zero).2 1 (by decide) hid.1 fun hm => hm hid.2
  rw [Option.isSome_eq_false_iff, Option.isNone_iff_eq_none] at hlost
  rw [hlost] at hkept
  cases hkept

end Etss
