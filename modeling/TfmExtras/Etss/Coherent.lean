import TfmExtras.Etss.FirstError
import TfmExtras.Etss.NewestBlock

/-! The context in RAM against the flash, when operations of a write or a deletion fail. -/

namespace Etss
open NorFlash NorFlash.Flash FlashM

variable {cfg : Config} {a s : Nat} {P : Image → Prop} {c c' : Ctx} {fl fl₀ flS fl' : Flash}
  {hdr : MetadataBlockHeader} {F : Faults}

/-! ## What a mount establishes -/

/-- The context that mounting a flash establishes, before it completes a pending deletion. -/
def mounts (cfg : Config) (fl : Flash) : Outcome Ctx Status Unit :=
  (flashFsMblockInit cfg).run cfg.eraseVal Ctx.zero fl

/-- The context agrees with what mounting the flash establishes; then the scratch blocks that the
next update programs are not blocks of the filesystem, and its swap count is the next one. -/
structure Coherent (cfg : Config) (c : Ctx) (fl : Flash) : Prop where
  mountable : (mounts cfg fl).status = .ok ()
  active : c.activeMetablock = (mounts cfg fl).ctx.activeMetablock
  scratch : c.scratchMetablock = (mounts cfg fl).ctx.scratchMetablock
  scratchDblock : c.metaBlockHeader.scratchDblock =
    (mounts cfg fl).ctx.metaBlockHeader.scratchDblock
  swapCount : c.metaBlockHeader.activeSwapCount =
    (mounts cfg fl).ctx.metaBlockHeader.activeSwapCount
  unused : ∀ l, l < numActiveDblocks cfg → ∀ l', l' < numActiveDblocks cfg →
    ((mountedImage cfg c fl).blocks l).phyId ≠ c.scratchId l'
  successor : (nextHeader cfg fl c.scratchMetablock c.metaBlockHeader).activeSwapCount =
    nextSwapCount cfg (mountedImage cfg c fl).header.activeSwapCount

theorem Mountable.mounts_eq (h : Mountable cfg a fl) :
    (mounts cfg fl).status = .ok () ∧ (mounts cfg fl).ctx = mountedCtx cfg a fl := by
  obtain ⟨_, hr, hc, _⟩ := (wp_iff.mp (h.init_ok : (flashFsMblockInit cfg).Ok _ _ Ctx.zero _ _)).2
  exact ⟨hr, hc⟩

theorem Mountable.coherent (h : Mountable cfg a fl) (ha : c.activeMetablock = a)
    (hs : c.scratchMetablock = otherMetaBlock a)
    (hd : c.metaBlockHeader.scratchDblock = (image cfg fl a).header.scratchDblock)
    (hn : c.metaBlockHeader.activeSwapCount = (image cfg fl a).header.activeSwapCount) :
    Coherent cfg c fl := by
  obtain ⟨hr, hc⟩ := h.mounts_eq
  refine ⟨hr, ?_, ?_, ?_, ?_, fun l hl l' hl' => ?_, ?_⟩
  · rw [hc]
    exact ha
  · rw [hc]
    exact hs
  · rw [hc]
    exact hd
  · rw [hc]
    exact hn
  · unfold mountedImage Ctx.scratchId
    rw [ha]
    split_ifs with h0
    · rw [hs]
      exact h.wf.phyId_ne (otherMetaBlock_le a) (otherMetaBlock_ne a) hl
    · rw [hd]
      exact h.wf.phyId_ne_scratch h.a_le hl (numBlocks_ne_two h.accepted h0 hl')
  · unfold mountedImage
    rw [ha]
    exact congrArg (nextSwapCount cfg) hn

theorem Mounted.coherent (h : Mounted cfg c fl) : Coherent cfg c fl :=
  h.mountable.coherent rfl h.scratch (congrArg _ h.header) (congrArg _ h.header)

theorem selectActive_readHeader {b : Nat} (h : selectActive cfg fl = .ok b) :
    b ≤ 1 ∧ ∃ hMeta, readHeader cfg fl b = some hMeta := by
  unfold selectActive metadataBlock0 metadataBlock1 at h
  cases h0 : readHeader cfg fl 0 with
  | none =>
    cases h1 : readHeader cfg fl 1 with
    | none => rw [h0, h1] at h; cases h
    | some hMeta =>
      rw [h0, h1] at h
      injection h with h
      exact h ▸ ⟨le_rfl, hMeta, h1⟩
  | some hMeta0 =>
    cases h1 : readHeader cfg fl 1 with
    | none =>
      rw [h0, h1] at h
      injection h with h
      exact h ▸ ⟨Nat.zero_le 1, hMeta0, h0⟩
    | some hMeta =>
      rw [h0, h1] at h
      injection h with h
      rw [mblockLatestMetaBlock_eq] at h
      subst h
      split_ifs
      · exact ⟨le_rfl, hMeta, h1⟩
      · exact ⟨Nat.zero_le 1, hMeta0, h0⟩

theorem readHeader_some {b : Nat} {hMeta : MetadataBlockHeader}
    (h : readHeader cfg fl b = some hMeta) :
    hMeta = (image cfg fl b).header ∧ headerCheck cfg fl b (image cfg fl b).header = .ok () := by
  unfold readHeader at h
  cases hc : headerCheck cfg fl b (image cfg fl b).header with
  | error e => rw [hc] at h; cases h
  | ok u =>
    rw [hc] at h
    injection h with h
    exact ⟨h.symm, rfl⟩

/-- Without headers of version 1, mounting takes the context from the header it selects. -/
theorem mounts_active (hacc : cfg.Accepted)
    (hver : ∀ b, b ≤ 1 → ∀ hMeta, readHeader cfg fl b = some hMeta →
      hMeta.fsVersion = supportedVersion) (hok : (mounts cfg fl).status = .ok ()) :
    ∃ b, selectActive cfg fl = .ok b ∧ (mounts cfg fl).ctx = mountedCtx cfg b fl := by
  have hreads : AllowsReads cfg anyOp := fun _ _ _ _ _ _ => trivial
  have hw : (flashFsMblockInit cfg).wp cfg.eraseVal anyOp Ctx.zero fl fun res c' _ =>
      res = .ok () → ∃ b, selectActive cfg fl = .ok b ∧ c' = mountedCtx cfg b fl := by
    cases hsel : selectActive cfg fl with
    | error e =>
      unfold flashFsMblockInit
      refine Ok.bind_wp (ok_issue (R := fun _ c' fl' => c' = Ctx.zero ∧ fl' = fl) trivial
        ⟨rfl, rfl⟩) ?_
      rintro _ _ _ ⟨rfl, rfl⟩
      refine wp_bind.mpr (wp_failAs.mpr (initGetActiveMetablock_wp hreads hacc (fun b hb => ?_)
        fun e' _ hn => ?_))
      · rw [hsel] at hb
        cases hb
      · cases hn
    | ok b =>
      obtain ⟨hb, hMeta, hread⟩ := selectActive_readHeader hsel
      obtain ⟨he, hcheck⟩ := readHeader_some hread
      have hv : mblockValidateFsVersion (mountedCtx cfg b fl).metaBlockHeader.fsVersion =
          .ok false := by
        show mblockValidateFsVersion (image cfg fl b).header.fsVersion = _
        rw [← he, hver b hb _ hread]
        rfl
      refine mblockInit_wp hacc hb hsel hcheck (fun _ _ _ => trivial) ?_
      unfold mblockUpgradeMetaHeader
      refine query_get.seq_wp ?_
      rw [hv]
      exact (query_ofExcept _).seq_wp ((wp_pure _).mpr fun _ => ⟨b, rfl, rfl⟩)
  exact (wp_iff.mp hw).2 hok

/-- A context that differs from the header of its active metadata block is not coherent. -/
theorem not_coherent (hacc : cfg.Accepted)
    (hver : ∀ b, b ≤ 1 → ∀ hMeta, readHeader cfg fl b = some hMeta →
      hMeta.fsVersion = supportedVersion) (ha : c.activeMetablock = a)
    (hne : c.metaBlockHeader.scratchDblock ≠ (image cfg fl a).header.scratchDblock ∨
      c.metaBlockHeader.activeSwapCount ≠ (image cfg fl a).header.activeSwapCount) :
    ¬ Coherent cfg c fl := by
  intro h
  obtain ⟨b, _, hb⟩ := mounts_active hacc hver h.mountable
  have hab : b = a := by
    have hact := h.active
    rw [hb, ha] at hact
    exact hact.symm
  subst hab
  have h₁ := h.scratchDblock
  have h₂ := h.swapCount
  rw [hb] at h₁ h₂
  exact hne.elim (fun hn => hn h₁) fun hn => hn h₂

/-! ## The flash at an operation that fails -/

/-- The header of an update that is in metadata block `s` is taken to be later than the header
with swap count `x` that is still in the other block. -/
def Overtakes (cfg : Config) (s : Nat) (x : UInt8) : Prop :=
  if s = 1 then CountsLater cfg (nextSwapCount cfg x) x else ¬ CountsLater cfg x (nextSwapCount cfg x)

/-- While an update is staged, mounting takes the old filesystem. -/
theorem Before.mountable (h : Before cfg fl₀ a s)
    (hf : OnlyIn (stageRegion cfg s (image cfg fl₀ a).header.scratchDblock) fl₀ fl') :
    Mountable cfg a fl' ∧ (image cfg fl' a).header = (image cfg fl₀ a).header := by
  obtain ⟨hc, _⟩ := h.staged hf
  have ho : readHeader cfg fl' (otherMetaBlock a) = none := by
    rw [← h.other]
    exact readHeader_erased (h.clean_of_staged hf)
  exact ⟨⟨hc.accepted, hc.le, selectActive_of_only hc.le hc.valid.readHeader_eq ho, hc.valid, hc.wf⟩,
    image_header_congr hf fun o _ hw => h.toCommitted.scratch_ne (h.stageRegion_unused a o hw) rfl⟩

/-- Both headers are valid after the update is committed, until the old one is erased. -/
theorem Before.interrupted (h : Before cfg fl₀ a s) (hst : Staged cfg fl₀ a s P flS hdr)
    (hwf : (stagedImage cfg flS s hdr).Wf cfg s) : Interrupted cfg (headerWritten flS s hdr) s := by
  obtain ⟨hnew, _⟩ := h.inForce_headerWritten hst hwf
  have hS := (h.staged hst.only).1
  have hread : readHeader cfg (headerWritten flS s hdr) a = some (image cfg flS a).header :=
    (readHeader_congr (onlyIn_write flS s 0 hdr.encode) fun _ hw => h.ne hw.1.symm).trans
      hS.valid.readHeader_eq
  obtain ⟨hheader, hcheck⟩ := readHeader_some hread
  have hswap : (image cfg (headerWritten flS s hdr) s).header.activeSwapCount =
      nextSwapCount cfg (image cfg flS a).header.activeSwapCount :=
    hnew.newer _ (by rw [h.other_s]; exact hread)
  refine ⟨h.s_le, hnew.valid.headerCheck_eq, h.other_s ▸ hcheck, fun hv => ?_, ?_⟩
  · rw [hnew.valid.version] at hv
    exact absurd hv (by decide)
  · unfold MetadataBlockHeader.swapCount
    rw [h.other_s, ← hheader, if_neg (by rw [hnew.valid.version]; decide),
      if_neg (by rw [hS.valid.version]; decide)]
    exact hswap

/-- The header of version 2 is the only one that is valid while it is programmed. -/
theorem readHeader_torn {n : Nat} {hMeta : MetadataBlockHeader} (hc : Clean (range s 0 8) flS)
    (hr : readHeader cfg (flS.write s 0 (hdr.encode.take n)) s = some hMeta) :
    hMeta.fsVersion = hdr.fsVersion := by
  have hlen : (hdr.encode.take n).length = min n 8 := by
    rw [List.length_take, hdr.encode_length]
  by_cases h5 : n < 5
  · have hclean : Clean (range s 4 8) (flS.write s 0 (hdr.encode.take n)) := by
      refine (onlyIn_write flS s 0 _).clean (hc.mono fun b o hw => ⟨hw.1, Nat.zero_le _, hw.2.2⟩) ?_
      rintro b o ⟨_, h₁, _⟩ ⟨_, _, h₂⟩
      omega
    rw [readHeader_blank hclean] at hr
    cases hr
  · obtain ⟨he, _⟩ := readHeader_some hr
    rw [he]
    have htake : (hdr.encode.take n).getD 4 0 = hdr.encode.getD 4 0 := by
      rw [List.getD_eq_getElem?_getD, List.getElem?_take_of_lt (by omega),
        ← List.getD_eq_getElem?_getD]
    show ((flS.write s 0 (hdr.encode.take n)).read cfg.eraseVal s 0 8).getD 4 0 = _
    rw [read_getD _ _ (by decide), byte, cell_write, if_pos ⟨rfl, by omega, by omega⟩]
    exact htake

/-! ## An update, cut where its context changes -/

/-- The operations that stage an update: none commits it. -/
abbrev StagingOp (cfg : Config) (fl₀ : Flash) (a s : Nat) (strict : Prop) : Prog.Guard :=
  UpdateOp cfg fl₀ a s strict fun _ => False

theorem stagingOp_failed {strict : Prop} {o : Op} {n : Nat}
    (hf : OnlyIn (stageRegion cfg s (image cfg fl₀ a).header.scratchDblock) fl₀ fl)
    (ho : StagingOp cfg fl₀ a s strict fl o) :
    OnlyIn (stageRegion cfg s (image cfg fl₀ a).header.scratchDblock) fl₀ (fl.failed n o) ∧
      OnlyIn (stageRegion cfg s (image cfg fl₀ a).header.scratchDblock) fl₀ (fl.apply o) := by
  cases ho with
  | read => exact ⟨hf, hf⟩
  | commit staged => exact absurd staged.step id
  | stage only op =>
    refine ⟨?_, stageOp_only only op⟩
    cases o with
    | erase _ => exact absurd op id
    | write b off data =>
      refine only.trans ((onlyIn_write fl b off (data.take n)).mono fun b' o' hw => ?_)
      obtain ⟨rfl, h₁, _⟩ := hw
      exact op.target.imp (fun ht => ⟨ht.1, ht.2.trans h₁⟩) id
    | init => exact only
    | read _ _ _ => exact only
    | flush _ => exact only

/-- While an update is staged, also at an operation that fails, only the scratch blocks change. -/
theorem staging_trace {α : Type} {strict : Prop} {m : FsM α} {Q : Post Ctx Status α}
    (h : m.wp cfg.eraseVal (StagingOp cfg fl₀ a s strict) c fl Q)
    (hf : OnlyIn (stageRegion cfg s (image cfg fl₀ a).header.scratchDblock) fl₀ fl) :
    (∀ x ∈ m.trace cfg.eraseVal c fl, ∀ n, OnlyIn
      (stageRegion cfg s (image cfg fl₀ a).header.scratchDblock) fl₀ (x.1.failed n x.2)) ∧
      OnlyIn (stageRegion cfg s (image cfg fl₀ a).header.scratchDblock) fl₀
        (m.run cfg.eraseVal c fl).flash := by
  obtain ⟨htr, hend, _⟩ := wp_iff.mp
    (wp_inv h hf fun fl o hi ho => (stagingOp_failed (n := 0) hi ho).2)
  exact ⟨fun x hx n => (stagingOp_failed (htr x hx).1 (htr x hx).2).1, hend⟩

end Etss
