import TfmExtras.Etss.Write

/-! Mounting: the scratch blocks are erased, and a pending deletion is completed. -/

namespace Etss
open NorFlash NorFlash.Flash FlashM

variable {cfg : Config} {s a d : Nat} {strict : Prop} {c : Ctx} {fl fl₀ : Flash} {fid : Fid}

/-! ## Deleting by file id -/

/-- The filesystems that a deletion by id may commit. -/
def DeleteOf (cfg : Config) (s : Nat) (st : Image) (fid : Fid) (st' : Image) : Prop :=
  ∃ d < cfg.maxNumFiles, (st.files d).id = fid ∧ DeleteStep cfg s st d st'

/-- What a deletion by id leaves. -/
def DeleteResult (cfg : Config) (fl₀ : Flash) (a s : Nat) (fid : Fid) (c : Ctx)
    (res : Except Status Unit) (c' : Ctx) (fl' : Flash) : Prop :=
  (res = .ok () ∧ Updated cfg fl₀ a s (DeleteOf cfg s (image cfg fl₀ a) fid) c' fl') ∨
    (res = .error .doesNotExist ∧ c' = c ∧ fl' = fl₀ ∧
      ∀ i, i < cfg.maxNumFiles → ((image cfg fl₀ a).files i).id ≠ fid)

theorem Staged.mono {P Q : Image → Prop} {flS : Flash} {hdr : MetadataBlockHeader}
    (h : Staged cfg fl₀ a s P flS hdr) (hPQ : ∀ st, P st → Q st) : Staged cfg fl₀ a s Q flS hdr :=
  ⟨h.only, h.swap, h.xor, h.scratch_lt, hPQ _ h.step⟩

theorem UpdateOp.mono {P Q : Image → Prop} {o : Op} (h : UpdateOp cfg fl₀ a s strict P fl o)
    (hPQ : ∀ st, P st → Q st) : UpdateOp cfg fl₀ a s strict Q fl o := by
  cases h with
  | read hb hn => exact .read hb hn
  | stage only op => exact .stage only op
  | commit staged op => exact .commit (staged.mono hPQ) op

theorem Updated.mono {P Q : Image → Prop} {c' : Ctx} {fl' : Flash}
    (h : Updated cfg fl₀ a s P c' fl') (hPQ : ∀ st, P st → Q st) :
    Updated cfg fl₀ a s Q c' fl' := by
  obtain ⟨flS, hdr, hst, hc, hf⟩ := h
  exact ⟨flS, hdr, hst.mono hPQ, hc, hf⟩

/-- A search of the file table, in the context of an update. -/
theorem Ready.findFileMeta_query (h : Ready cfg fl₀ a s c fl) {G : Prog.Guard}
    (hG : AllowsReads cfg G) (p : FileMeta → Bool) :
    (mblockFindFileMeta cfg p cfg.maxNumFiles 0).Query cfg.eraseVal G c fl
      (findFile cfg (image cfg fl₀ a).files p cfg.maxNumFiles 0) := by
  have hfiles : (image cfg fl c.activeMetablock).files = (image cfg fl₀ a).files := by
    rw [h.active]
    exact funext h.files_eq
  rw [← hfiles]
  exact Etss.findFileMeta_query hG h.accepted (h.active ▸ h.a_lt) p (Nat.zero_add _).le

theorem Starts.fileDelete_wp (h : Starts cfg fl₀ a s strict c) (hf : fid ≠ 0) :
    (flashFsFileDelete cfg fid).wp cfg.eraseVal
      (UpdateOp cfg fl₀ a s strict (DeleteOf cfg s (image cfg fl₀ a) fid)) c fl₀
      (DeleteResult cfg fl₀ a s fid c) := by
  have hq := h.toReady.findFileMeta_query
    (G := UpdateOp cfg fl₀ a s strict (DeleteOf cfg s (image cfg fl₀ a) fid))
    allowsReads_updateOp fun fileMeta => fileMeta.id == fid
  unfold flashFsFileDelete flashFsMblockGetFileIdx
  rcases h.wf.findFile_cases h.accepted (fun fileMeta => fileMeta.id == fid) (i := 0)
    (Nat.zero_add cfg.maxNumFiles).le with ⟨d, _, hd, hp, he⟩ | ⟨hall, he⟩
  · rw [he] at hq
    have hd' : d < cfg.maxNumFiles := by omega
    have hid : ((image cfg fl₀ a).files d).id = fid := beq_iff_eq.mp hp
    have hof : ∀ st', DeleteStep cfg s (image cfg fl₀ a) d st' →
        DeleteOf cfg s (image cfg fl₀ a) fid st' := fun st' hst => ⟨d, hd', hid, hst⟩
    refine hq.failAs.seq_wp (wp_mono (h.deleteIdx_ok hd' (hid.symm ▸ hf))
      (fun _ _ ho => ho.mono hof) ?_)
    rintro _ c' fl' ⟨_, rfl, hu⟩
    exact .inl ⟨rfl, hu.mono hof⟩
  · rw [he] at hq
    refine hq.failAs.seq_error.wp (.inr ⟨rfl, rfl, rfl, fun i hi hid => ?_⟩)
    exact Bool.false_ne_true ((hall i (Nat.zero_le i) (by omega)).symm.trans (beq_iff_eq.mpr hid))

/-! ## Initialising the metadata -/

/-- A flash that mounting takes metadata block `a` of, with a well-formed filesystem in it. -/
structure Mountable (cfg : Config) (a : Nat) (fl : Flash) : Prop where
  accepted : cfg.Accepted
  a_le : a ≤ 1
  select : selectActive cfg fl = .ok a
  valid : HeaderValid cfg fl a
  wf : (image cfg fl a).Wf cfg a

/-- The context once metadata block `a` is mounted. -/
def mountedCtx (cfg : Config) (a : Nat) (fl : Flash) : Ctx :=
  ⟨(image cfg fl a).header, a, otherMetaBlock a⟩

/-- The flash once the scratch blocks are erased. -/
def scratchErased (cfg : Config) (a : Nat) (fl : Flash) : Flash :=
  if cfg.numBlocks > 2 then (fl.erase (otherMetaBlock a)).erase (image cfg fl a).header.scratchDblock
  else fl.erase (otherMetaBlock a)

/-- The operations of the initialisation. -/
inductive InitOp (cfg : Config) (a : Nat) (fl₀ : Flash) : Prog.Guard
  | init : InitOp cfg a fl₀ fl₀ .init
  | read {fl : Flash} {b off n : Nat} (hb : b < cfg.numBlocks) (hn : off + n ≤ cfg.blockSize) :
    InitOp cfg a fl₀ fl (.read b off n)
  | eraseMeta : InitOp cfg a fl₀ fl₀ (.erase (otherMetaBlock a))
  | eraseData (h : cfg.numBlocks > 2) : InitOp cfg a fl₀ (fl₀.erase (otherMetaBlock a))
    (.erase (image cfg fl₀ a).header.scratchDblock)

theorem allowsReads_initOp : AllowsReads cfg (InitOp cfg a fl₀) := fun _ _ _ _ hb ho => .read hb ho

theorem readMetaHeader_ok {G : Prog.Guard} (h : headerCheck cfg fl c.activeMetablock
      (image cfg fl c.activeMetablock).header = .ok ()) (hG : AllowsReads cfg G)
    (hacc : cfg.Accepted) (ha : c.activeMetablock ≤ 1) :
    (mblockReadMetaHeader cfg).Ok cfg.eraseVal G c fl fun _ c' fl' =>
      c' = { c with metaBlockHeader := (image cfg fl c.activeMetablock).header } ∧ fl' = fl := by
  have hlt : c.activeMetablock < cfg.numBlocks := lt_of_le_of_lt ha hacc.two_le_numBlocks
  have h8 : 0 + blockMetaHeaderSize ≤ cfg.blockSize := by
    have := metaEnd_ge cfg
    have := hacc.metaEnd_le
    unfold blockMetaHeaderSize
    omega
  unfold mblockReadMetaHeader
  refine query_get.seq_wp ((opsRead_query hG hlt h8).seq_wp (modify_bind_wp rfl ?_))
  have hq : ∀ c', (mblockValidateHeaderMeta cfg (image cfg fl c.activeMetablock).header
      c.activeMetablock).Query cfg.eraseVal G c' fl (.ok ()) := fun c' => by
    rw [← h]
    exact validateHeaderMeta_query hG hacc ha _
  exact (hq _).wp ⟨(), rfl, rfl, rfl⟩

/-- Up to the upgrade of the header, mounting sets the context and erases the scratch blocks. -/
theorem mblockInit_wp {G : Prog.Guard} {Q : Post Ctx Status Unit} (hacc : cfg.Accepted)
    (ha : a ≤ 1) (hsel : selectActive cfg fl = .ok a)
    (hcheck : headerCheck cfg fl a (image cfg fl a).header = .ok ())
    (hG : ∀ fl' o, InitOp cfg a fl fl' o → G fl' o)
    (hup : (mblockUpgradeMetaHeader cfg).wp cfg.eraseVal G (mountedCtx cfg a fl)
      (scratchErased cfg a fl) Q) :
    (flashFsMblockInit cfg).wp cfg.eraseVal G c fl Q := by
  have hreads : AllowsReads cfg G := fun _ _ _ _ hb ho => hG _ _ (.read hb ho)
  unfold flashFsMblockInit
  refine Ok.bind_wp (ok_issue (R := fun _ c' fl' => c' = c ∧ fl' = fl) (hG _ _ .init)
    ⟨rfl, rfl⟩) ?_
  rintro _ c fl ⟨rfl, rfl⟩
  have hget : ((initGetActiveMetablock cfg).failAs .genericError).Ok cfg.eraseVal G
      c fl fun _ c' fl' => c' = { c with
        activeMetablock := a, scratchMetablock := otherMetaBlock a } ∧ fl' = fl := by
    refine Ok.failAs (initGetActiveMetablock_wp hreads hacc (fun b hb => ?_) fun e he => ?_)
    · rw [hsel] at hb
      injection hb with hb
      subst hb
      exact ⟨(), rfl, rfl, rfl⟩
    · rw [hsel] at he
      injection he
  refine hget.bind_wp ?_
  rintro _ _ fl ⟨rfl, rfl⟩
  refine Ok.bind_wp (readMetaHeader_ok (c := { c with
    activeMetablock := a, scratchMetablock := otherMetaBlock a }) hcheck hreads hacc ha).failAs ?_
  rintro _ _ fl ⟨rfl, rfl⟩
  refine Ok.bind_wp (eraseScratchBlocks_ok (c := mountedCtx cfg a fl) (hG _ _ .eraseMeta)
    fun h2 => hG _ _ (.eraseData h2)).failAs ?_
  rintro _ _ _ ⟨rfl, rfl⟩
  exact hup

/-- Mounting sets the context, and erases the scratch blocks. -/
theorem Mountable.init_ok (h : Mountable cfg a fl) :
    (flashFsMblockInit cfg).Ok cfg.eraseVal (InitOp cfg a fl) c fl fun _ c' fl' =>
      c' = mountedCtx cfg a fl ∧ fl' = scratchErased cfg a fl := by
  have hv : mblockValidateFsVersion (mountedCtx cfg a fl).metaBlockHeader.fsVersion = .ok false := by
    show mblockValidateFsVersion (image cfg fl a).header.fsVersion = _
    rw [h.valid.version]
    rfl
  refine mblockInit_wp h.accepted h.a_le h.select h.valid.headerCheck_eq (fun _ _ ho => ho) ?_
  unfold mblockUpgradeMetaHeader
  refine query_get.seq_wp ?_
  rw [hv]
  exact (query_ofExcept _).seq_wp (ok_pure ⟨rfl, rfl⟩)

/-! ## The mounted filesystem -/

theorem onlyIn_scratchErased (cfg : Config) (a : Nat) (fl : Flash) :
    OnlyIn (scratchRegion cfg (mountedCtx cfg a fl)) fl (scratchErased cfg a fl) := by
  have h₁ : OnlyIn (scratchRegion cfg (mountedCtx cfg a fl)) fl (fl.erase (otherMetaBlock a)) :=
    (onlyIn_erase fl _).mono fun b o hw => .inl hw
  unfold scratchErased
  split_ifs with h2
  · exact h₁.trans ((onlyIn_erase _ _).mono fun b o hw => .inr ⟨by omega, hw⟩)
  · exact h₁

section
variable (hw : (image cfg fl a).Wf cfg a) (ha : a ≤ 1)
include hw ha

theorem Image.Wf.not_scratchRegion (o : Nat) : ¬ scratchRegion cfg (mountedCtx cfg a fl) a o := by
  rintro (hb | ⟨h2, hb⟩)
  · exact otherMetaBlock_ne a hb.symm
  · have hsc := (hw.scratch h2).1
    have he : a = (image cfg fl a).header.scratchDblock := hb
    omega

variable {fl' : Flash} (hf : OnlyIn (scratchRegion cfg (mountedCtx cfg a fl)) fl fl')
include hf

theorem Image.Wf.header_of_onlyIn : (image cfg fl' a).header = (image cfg fl a).header :=
  image_header_congr hf fun o _ => hw.not_scratchRegion ha o

/-- Changes to the scratch blocks do not reach the filesystem. -/
theorem Image.Wf.same_of_onlyIn : (image cfg fl a).Same cfg (image cfg fl' a) := by
  have hheader := hw.header_of_onlyIn ha hf
  have hblocks : ∀ l, (image cfg fl' a).blocks l = (image cfg fl a).blocks l := fun l =>
    image_blocks_congr hf fun o _ _ => hw.not_scratchRegion ha o
  refine ⟨congrArg MetadataBlockHeader.fsVersion hheader,
    congrArg MetadataBlockHeader.scratchDblock hheader, fun l _ => hblocks l,
    fun i _ => image_files_congr hf fun o _ _ => hw.not_scratchRegion ha o, fun l hl o _ _ => ?_⟩
  rw [image_data, hblocks]
  refine hf.byte ?_
  rintro (hb | ⟨h2, hb⟩)
  · exact hw.phyId_ne (otherMetaBlock_le a) (otherMetaBlock_ne a) hl hb
  · exact hw.phyId_ne_scratch ha hl h2 hb

/-- Nor do they reach its header. -/
theorem Image.Wf.headerValid_of_onlyIn (hv : HeaderValid cfg fl a) : HeaderValid cfg fl' a := by
  have hheader := hw.header_of_onlyIn ha hf
  refine ⟨(congrArg _ hheader).trans hv.version, (congrArg _ hheader).trans_ne hv.swap,
    fun hval => ?_⟩
  have hx : metadataXor cfg fl' a = metadataXor cfg fl a :=
    metadataXor_congr hf fun o _ _ => hw.not_scratchRegion ha o
  exact hx.trans ((hv.xor hval).trans (congrArg MetadataBlockHeader.metadataXor hheader.symm))

end

namespace Mountable
variable (h : Mountable cfg a fl)
include h

theorem clean_scratchErased :
    Clean (scratchRegion cfg (mountedCtx cfg a fl)) (scratchErased cfg a fl) := by
  unfold scratchErased
  intro b o hb
  split_ifs with h2
  · rw [cell_erase, cell_erase]
    rcases hb with hb | ⟨_, hb⟩
    · rw [if_pos (show b = otherMetaBlock a from hb), ite_self]
    · exact if_pos hb
  · rcases hb with hb | ⟨hn, _⟩
    · rw [cell_erase]
      exact if_pos hb
    · exact absurd ((numBlocks_gt_iff h.accepted).mpr hn) h2

theorem not_scratchRegion (o : Nat) : ¬ scratchRegion cfg (mountedCtx cfg a fl) a o :=
  h.wf.not_scratchRegion h.a_le o

theorem same_of_onlyIn {fl' : Flash}
    (hf : OnlyIn (scratchRegion cfg (mountedCtx cfg a fl)) fl fl') :
    (image cfg fl a).Same cfg (image cfg fl' a) :=
  h.wf.same_of_onlyIn h.a_le hf

/-- After the initialisation the filesystem is mounted, and its scratch blocks are erased. -/
theorem mounted : Mounted cfg (mountedCtx cfg a fl) (scratchErased cfg a fl) := by
  have hf := onlyIn_scratchErased cfg a fl
  exact ⟨h.accepted, h.a_le, rfl, (h.wf.header_of_onlyIn h.a_le hf).symm,
    h.wf.headerValid_of_onlyIn h.a_le hf h.valid,
    h.clean_scratchErased.mono fun _ _ hw => hw.1, (h.same_of_onlyIn hf).wf h.accepted h.wf⟩

end Mountable

/-! ## The whole mount -/

/-- The operations of a mount. -/
inductive PrepareOp (cfg : Config) (a : Nat) (fl₀ : Flash) : Prog.Guard
  | init {fl : Flash} {o : Op} (op : InitOp cfg a fl₀ fl o) : PrepareOp cfg a fl₀ fl o
  | delete {d : Nat} {fl : Flash} {o : Op} (pending : (image cfg fl₀ a).Pending cfg d)
    (op : UpdateOp cfg (scratchErased cfg a fl₀) a (otherMetaBlock a) True
      (DeleteStep cfg (otherMetaBlock a) (image cfg (scratchErased cfg a fl₀) a) d) fl o) :
    PrepareOp cfg a fl₀ fl o

/-- What a mount leaves. -/
structure PrepareResult (cfg : Config) (a : Nat) (fl₀ : Flash) (c' : Ctx) (fl' : Flash) :
    Prop where
  closed : (image cfg fl₀ a).Closed cfg → c' = mountedCtx cfg a fl₀ ∧ fl' = scratchErased cfg a fl₀
  pending : ∀ d, (image cfg fl₀ a).Pending cfg d →
    Updated cfg (scratchErased cfg a fl₀) a (otherMetaBlock a)
      (DeleteStep cfg (otherMetaBlock a) (image cfg (scratchErased cfg a fl₀) a) d) c' fl'

theorem Image.Pending.not_closed {st : Image} (h : st.Pending cfg d) : ¬ st.Closed cfg :=
  fun hc => hc.unmarked d h.lt ((h.marked d h.lt).mpr rfl)

theorem Image.Pending.eq {st : Image} {d' : Nat} (h : st.Pending cfg d) (h' : st.Pending cfg d') :
    d = d' := (h'.marked d h.lt).mp ((h.marked d h.lt).mpr rfl)

theorem Mountable.starts (h : Mountable cfg a fl) :
    Starts cfg (scratchErased cfg a fl) a (otherMetaBlock a) True (mountedCtx cfg a fl) :=
  h.mounted.starts fun _ => h.clean_scratchErased.mono fun _ _ hw => .inl hw.1

theorem Mountable.prepare_ok (h : Mountable cfg a fl)
    (hcp : (image cfg fl a).Closed cfg ∨ ∃ d, (image cfg fl a).Pending cfg d) :
    (flashFsPrepare cfg).Ok cfg.eraseVal (PrepareOp cfg a fl) c fl
      fun _ c' fl' => PrepareResult cfg a fl c' fl' := by
  have hst := h.starts
  have hsame := h.same_of_onlyIn (onlyIn_scratchErased cfg a fl)
  have hq := hst.toReady.findFileMeta_query (G := PrepareOp cfg a fl)
    (fun _ _ _ _ hb hn => .init (.read hb hn)) fun fileMeta => fileMeta.flags &&& flagDelete != 0
  unfold flashFsPrepare
  refine (h.init_ok.guard fun _ _ ho => .init ho).bind ?_
  rintro _ _ _ ⟨rfl, rfl⟩
  rcases hst.wf.findFile_cases h.accepted (fun fileMeta => fileMeta.flags &&& flagDelete != 0)
    (i := 0) (Nat.zero_add cfg.maxNumFiles).le with ⟨d', _, hd, hp, he⟩ | ⟨hall, he⟩
  · rw [he] at hq
    refine hq.attempt.seq_wp ?_
    -- only the file that is pending is marked
    have hmark : (image cfg fl a).Marked d' := by
      have hm : (image cfg (scratchErased cfg a fl) a).Marked d' := bne_iff_ne.mp hp
      unfold Image.Marked at hm ⊢
      rwa [hsame.files d' (by omega)] at hm
    have hnc : ¬ (image cfg fl a).Closed cfg := fun hc => hc.unmarked d' (by omega) hmark
    obtain ⟨d, hpend⟩ := hcp.resolve_left hnc
    obtain rfl : d' = d := (hpend.marked d' (by omega)).mp hmark
    have hpend' := hsame.pending hpend
    refine (hst.deleteIdx_ok hpend'.lt hpend'.valid).mono ?_ |>.guard
      fun _ _ ho => .delete hpend ho
    intro _ c' fl' hu
    refine ⟨fun hc => absurd hc hnc, fun d hd => ?_⟩
    obtain rfl := hpend.eq hd
    exact hu
  · rw [he] at hq
    refine hq.attempt.seq_wp (ok_pure ⟨fun _ => ⟨rfl, rfl⟩, fun d hpend => ?_⟩)
    have hm := (hpend.marked d hpend.lt).mpr rfl
    have hn := hall d (Nat.zero_le d) (by have := hpend.lt; omega)
    rw [hsame.files d hpend.lt] at hn
    exact absurd (bne_iff_ne.mpr hm) (by rw [hn]; exact Bool.noConfusion)

end Etss
