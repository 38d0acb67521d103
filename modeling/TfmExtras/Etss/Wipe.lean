import TfmExtras.Etss.Mount

/-! Creating an empty layout, on a flash of any contents: the result can be mounted. -/

namespace Etss
open NorFlash NorFlash.Flash FlashM

variable {cfg : Config} {c : Ctx} {fl fl₀ : Flash}

/-- The guard that lets everything through. -/
def anyOp : Prog.Guard := fun _ _ => True

theorem allowsReads_anyOp : AllowsReads cfg anyOp := fun _ _ _ _ _ _ => trivial

/-- The operations that write the tables of an empty layout, or erase a block for data. -/
def LayoutOp : Prog.Guard := fun _ o =>
  match o with
  | .write b off _ => b = 1 ∧ 8 ≤ off
  | .erase b => 2 < b
  | _ => True

/-- The headers of both metadata blocks. -/
def headerCells : Region := fun b o => b ≤ 1 ∧ o < 8

theorem LayoutOp.onlyIn {o : Op} (h : LayoutOp fl o) :
    OnlyIn (fun b off => ¬ headerCells b off) fl (fl.apply o) := by
  cases o with
  | write b off data =>
    refine (onlyIn_write fl b off data).mono fun b' o hw hc => ?_
    have := h.2
    have := hw.2.1
    have := hc.2
    omega
  | erase b =>
    refine (onlyIn_erase fl b).mono fun b' o hw hc => ?_
    have hlt : 2 < b := h
    have := hc.1
    have : b' = b := hw
    omega
  | init => exact .refl _ _
  | read _ _ _ => exact .refl _ _
  | flush _ => exact .refl _ _

theorem LayoutOp.clean {o : Op} (h : LayoutOp fl o) (hc : Clean headerCells fl) :
    Clean headerCells (fl.apply o) :=
  h.onlyIn.clean hc fun _ _ hw hn => hn hw

theorem numActive_eq_dedicated (hacc : cfg.Accepted) :
    numActiveDblocks cfg = numDedicatedDblocks cfg + 1 := by
  have hd := hacc.numActive_lt
  have hn := hacc.numActive_eq
  have hb := hacc.numBlocks_cases
  have hlt := cfg.numBlocks_lt
  unfold numDedicatedDblocks initDblockStart
  rw [hn]
  split_ifs with h2
  · rfl
  · rw [sub32_eq (by omega) (by omega)]
    omega

/-- A physical block that starts as the one of dedicated logical block `i + 1`. -/
theorem init_dblock_lt (hacc : cfg.Accepted) {i : Nat} (hi : i < numDedicatedDblocks cfg) :
    initDblockStart cfg = 3 ∧ i + 3 < cfg.numBlocks := by
  have hn := numActive_eq_dedicated hacc
  have ha := hacc.numActive_eq
  have hb := hacc.numBlocks_cases
  unfold initDblockStart
  split_ifs at ha ⊢ with h2
  · omega
  · exact ⟨rfl, by omega⟩

/-! ## The loops -/

theorem resetEraseDblocks_ok (hacc : cfg.Accepted) (n : Nat) : ∀ {i : Nat} {fl : Flash},
    i + n = numDedicatedDblocks cfg →
    (resetEraseDblocks cfg n i true).Ok cfg.eraseVal LayoutOp c fl fun good c' fl' =>
      good = true ∧ c' = c ∧ OnlyIn (fun b _ => 2 < b) fl fl' := by
  induction n with
  | zero => exact fun _ => ok_pure ⟨rfl, rfl, .refl _ _⟩
  | succ n ih =>
    intro i fl hi
    have hb := init_dblock_lt hacc (i := i) (by omega)
    unfold resetEraseDblocks
    have hop : LayoutOp fl (.erase (i + initDblockStart cfg)) := by
      show 2 < i + initDblockStart cfg
      omega
    refine (Ok.attempt (ok_issue (R := fun _ c' fl' => c' = c ∧ fl' = fl.erase (i + initDblockStart cfg))
      hop ⟨rfl, rfl⟩)).bind ?_
    rintro _ c _ ⟨_, rfl, rfl, rfl⟩
    refine (ih (i := i + 1) (by omega)).mono ?_
    rintro good c' fl' ⟨hg, hc, hf⟩
    refine ⟨hg, hc, ((onlyIn_erase fl _).mono fun b o hw => ?_).trans hf⟩
    rw [hw, hb.1]
    omega

/-- The block entries of an empty layout. -/
def emptyBlock (cfg : Config) (l : Nat) : BlockMeta :=
  if l = 0 then ⟨metadataBlock1, cfg.metaEnd, cfg.blockSize - cfg.metaEnd⟩
  else ⟨l - 1 + initDblockStart cfg, 0, cfg.blockSize⟩

theorem resetWriteBlockMeta_ok (hacc : cfg.Accepted) (hs : c.scratchMetablock = 1) (n : Nat) :
    ∀ {i : Nat} {fl : Flash}, i + n = numDedicatedDblocks cfg →
    (resetWriteBlockMeta cfg ⟨metadataBlock1, 0, cfg.blockSize⟩ n i).Ok cfg.eraseVal LayoutOp c fl
      fun _ c' fl' => c' = c ∧
        OnlyIn (blockRange c.scratchMetablock (i + 1) (i + 1 + n)) fl fl' ∧
        ∀ l, i + 1 ≤ l → l < i + 1 + n →
          (image cfg fl' c.scratchMetablock).blocks l = emptyBlock cfg l := by
  induction n with
  | zero => exact fun _ => ok_pure ⟨rfl, .refl _ _, fun l h₁ h₂ => by omega⟩
  | succ n ih =>
    intro i fl hi
    have hb := init_dblock_lt hacc (i := i) (by omega)
    have hn := numActive_eq_dedicated hacc
    have hlt := cfg.numBlocks_lt
    have hin : BlockMeta.InRange ⟨i + initDblockStart cfg, 0, cfg.blockSize⟩ := by
      refine ⟨?_, Nat.two_pow_pos 32, cfg.blockSize_lt⟩
      rw [hb.1]
      show i + 3 < 2 ^ 32
      omega
    unfold resetWriteBlockMeta
    refine (Ok.failAs (writeBlockMeta_ok hacc (l := i + 1) (by omega) hin ⟨hs, by omega⟩)).bind ?_
    rintro _ c fl₁ ⟨rfl, hf₁, hb₁⟩
    refine (ih (i := i + 1) (by omega)).mono ?_
    rintro _ _ fl' ⟨rfl, hf, hbl⟩
    refine ⟨rfl, (hf₁.mono (blockRange_mono le_rfl (by omega))).trans
      (hf.mono (blockRange_mono (by omega) (by omega))), fun l h₁ h₂ => ?_⟩
    by_cases hl : l = i + 1
    · subst hl
      rw [blocks_eq_of_blockRange hf (.inl (Nat.lt_succ_self _)), hb₁, emptyBlock,
        if_neg (Nat.succ_ne_zero i), Nat.add_sub_cancel]
    · exact hbl l (by omega) (by omega)

theorem resetWriteFileMeta_ok (hacc : cfg.Accepted) (hs : c.scratchMetablock = 1) (n : Nat) :
    ∀ {i : Nat} {fl : Flash}, i + n = cfg.maxNumFiles →
    (resetWriteFileMeta cfg FileMeta.zero n i).Ok cfg.eraseVal LayoutOp c fl
      fun _ c' fl' => c' = c ∧
        OnlyIn (fileRange cfg c.scratchMetablock i (i + n)) fl fl' ∧
        ∀ k, i ≤ k → k < i + n →
          (image cfg fl' c.scratchMetablock).files k = FileMeta.zero := by
  induction n with
  | zero => exact fun _ => ok_pure ⟨rfl, .refl _ _, fun k h₁ h₂ => by omega⟩
  | succ n ih =>
    intro i fl hi
    unfold resetWriteFileMeta
    have hop : LayoutOp fl (.write c.scratchMetablock (cfg.fileEntry i) FileMeta.zero.encode) := by
      refine ⟨hs, ?_⟩
      unfold Config.fileEntry Config.filesStart
      omega
    refine (Ok.failAs (writeFileMeta_ok hacc (i := i) (by omega) fileMeta_zero_inRange
      hop)).bind ?_
    rintro _ c fl₁ ⟨rfl, hf₁, hfile₁⟩
    refine (ih (i := i + 1) (by omega)).mono ?_
    rintro _ _ fl' ⟨rfl, hf, hfiles⟩
    refine ⟨rfl, (hf₁.mono (fileRange_mono le_rfl (by omega))).trans
      (hf.mono (fileRange_mono (by omega) (by omega))), fun k h₁ h₂ => ?_⟩
    by_cases hk : k = i
    · subst hk
      rw [files_eq_of_fileRange hf (.inl (Nat.lt_succ_self _)), hfile₁]
    · exact hfiles k (by omega) (by omega)

/-! ## The empty filesystem -/

/-- A filesystem without files, right after it is created. -/
structure Image.IsEmpty (cfg : Config) (st : Image) : Prop where
  version : st.header.fsVersion = supportedVersion
  scratch : st.header.scratchDblock = initScratchDblock cfg
  blocks : ∀ l, l < numActiveDblocks cfg → st.blocks l = emptyBlock cfg l
  files : ∀ i, i < cfg.maxNumFiles → st.files i = FileMeta.zero

namespace Image.IsEmpty
variable {st : Image} (h : st.IsEmpty cfg)
include h

theorem closed : st.Closed cfg where
  unique i j hi _ hid := by
    rw [h.files i hi] at hid
    exact absurd rfl hid
  unmarked i hi hm := by
    unfold Marked at hm
    rw [h.files i hi] at hm
    exact hm rfl
  spare h0 := ⟨0, h0, by rw [h.files 0 h0]; rfl⟩

theorem fileMap (fid : Fid) : st.fileMap cfg fid = none :=
  fileMap_eq_none fun i hi hid => by
    rw [h.files i hi] at hid
    exact hid.symm

theorem wf (hacc : cfg.Accepted) : st.Wf cfg 1 := by
  have hend := hacc.metaEnd_le
  have hn := numActive_eq_dedicated hacc
  have hpos := hacc.numActive_pos
  have hnone : ∀ l, st.filesIn cfg l = ∅ := fun l => by
    refine Finset.eq_empty_of_forall_notMem fun i hi => ?_
    obtain ⟨hi, hid, _⟩ := mem_filesIn.mp hi
    rw [h.files i hi] at hid
    exact hid rfl
  have hded : ∀ l, 0 < l → l < numActiveDblocks cfg →
      st.blocks l = ⟨l - 1 + 3, 0, cfg.blockSize⟩ ∧ l - 1 + 3 < cfg.numBlocks := fun l h₀ hl => by
    have hb := init_dblock_lt hacc (i := l - 1) (by omega)
    rw [h.blocks l hl, emptyBlock, if_neg h₀.ne', hb.1]
    exact ⟨rfl, hb.2⟩
  have hb0 : st.blocks 0 = ⟨1, cfg.metaEnd, cfg.blockSize - cfg.metaEnd⟩ := h.blocks 0 hpos
  have hdata : ∀ l, l < numActiveDblocks cfg →
      (st.blocks l).dataStart + (st.blocks l).freeSize = cfg.blockSize := fun l hl => by
    rcases Nat.eq_zero_or_pos l with rfl | h₀
    · rw [hb0]
      exact Nat.add_sub_cancel' hend
    · rw [(hded l h₀ hl).1]
      exact Nat.zero_add _
  have hscr : cfg.numBlocks ≠ 2 → st.header.scratchDblock = 2 := fun h2 => by
    rw [h.scratch, initScratchDblock, if_neg h2]
  refine ⟨h.version, fun h2 => ?_, by rw [hb0]; exact ⟨rfl, rfl⟩, fun l h₀ hl => ?_,
    fun l l' h₀ hl h₀' hl' he => ?_, fun l hl => (hdata l hl).le, fun i hi _ => h.files i hi,
    fun i hi hid => ?_, fun l hl => ?_, fun ha => ⟨fun l hl => ?_, fun i hi hid => ?_⟩⟩
  · have := hacc.numBlocks_cases
    rw [hscr h2]
    omega
  · obtain ⟨he, hlt⟩ := hded l h₀ hl
    rw [he, hscr (numBlocks_ne_two hacc h₀.ne' hl)]
    exact ⟨show 2 ≤ l - 1 + 3 by omega, hlt, show l - 1 + 3 ≠ 2 by omega, rfl⟩
  · rw [(hded l h₀ hl).1, (hded l' h₀' hl').1] at he
    dsimp only at he
    omega
  · rw [h.files i hi] at hid
    exact absurd rfl hid
  · have he : st.dataEnd cfg l = (st.blocks l).dataStart := by
      have := hdata l hl
      unfold dataEnd
      omega
    rw [hnone, he]
    exact Tiling.empty _
  · rcases Nat.eq_zero_or_pos l with rfl | h₀
    · rw [hb0]
      exact Nat.dvd_sub ha.2.2.2.1 (ha.fileEntry _)
    · rw [(hded l h₀ hl).1]
      exact ha.2.2.2.1
  · rw [h.files i hi] at hid
    exact absurd rfl hid

end Image.IsEmpty

theorem Image.Same.isEmpty {st st' : Image} (h : st.Same cfg st') (he : st.IsEmpty cfg) :
    st'.IsEmpty cfg where
  version := h.version.trans he.version
  scratch := h.scratch.trans he.scratch
  blocks l hl := (h.blocks l hl).trans (he.blocks l hl)
  files i hi := (h.files i hi).trans (he.files i hi)

/-! ## The whole wipe -/

/-- The header that the reset prepares. -/
def resetHeader (cfg : Config) (h : MetadataBlockHeader) : MetadataBlockHeader :=
  { h with
    activeSwapCount := if cfg.eraseVal = 0x00 then 1 else 0
    scratchDblock := initScratchDblock cfg
    fsVersion := supportedVersion }

/-- What a wipe leaves: an empty filesystem in metadata block 1, and metadata block 0 erased. -/
structure Wiped (cfg : Config) (fl : Flash) : Prop where
  empty : (image cfg fl 1).IsEmpty cfg
  valid : HeaderValid cfg fl 1
  erased : Clean (range 0 0 8) fl

theorem Wiped.mountable (h : Wiped cfg fl) (hacc : cfg.Accepted) : Mountable cfg 1 fl where
  accepted := hacc
  a_le := le_rfl
  select := by
    unfold selectActive
    rw [show metadataBlock0 = 0 from rfl, readHeader_erased h.erased,
      show metadataBlock1 = 1 from rfl, h.valid.readHeader_eq]
  valid := h.valid
  wf := h.empty.wf hacc

/-- The two erases, whichever metadata block comes first. -/
theorem erase_both {first : Nat} (hf : first ≤ 1) (fl : Flash) :
    Clean (fun b _ => b ≤ 1) ((fl.erase first).erase (otherMetaBlock first)) := by
  intro b o hb
  rw [cell_erase, cell_erase]
  split_ifs with h₁ h₂
  · rfl
  · rfl
  · obtain rfl | rfl : first = 0 ∨ first = 1 := by omega
    · have : b ≠ 1 := h₁
      omega
    · have : b ≠ 0 := h₁
      omega

/-- The tables of an empty filesystem are written, and `hdr` is the header that commits them. -/
structure LaidOut (cfg : Config) (hdr : MetadataBlockHeader) (fl : Flash) : Prop where
  blank : Clean headerCells fl
  version : hdr.fsVersion = supportedVersion
  scratch : hdr.scratchDblock = initScratchDblock cfg
  swap : hdr.activeSwapCount ≠ cfg.eraseVal
  xor : hdr.metadataXor = commitXor cfg fl 1
  blocks : ∀ l, l < numActiveDblocks cfg → (image cfg fl 1).blocks l = emptyBlock cfg l
  files : ∀ i, i < cfg.maxNumFiles → (image cfg fl 1).files i = FileMeta.zero

theorem LaidOut.scratch_lt {hdr : MetadataBlockHeader} (h : LaidOut cfg hdr fl) :
    hdr.scratchDblock < 2 ^ 32 := by
  rw [h.scratch, initScratchDblock]
  split_ifs <;> decide

/-- The header commits the filesystem, whatever its padding is. -/
theorem LaidOut.wiped {hdr : MetadataBlockHeader} {pad : UInt8} (h : LaidOut cfg hdr fl)
    (hf : OnlyIn (range 1 0 8) fl fl₀) (hh : (image cfg fl₀ 1).header = { hdr with pad := pad }) :
    Wiped cfg fl₀ := by
  have hx : metadataXor cfg fl₀ 1 = metadataXor cfg fl 1 :=
    metadataXor_congr hf fun o h₁ _ hw => by
      have := hw.2.2
      omega
  refine ⟨⟨?_, ?_, fun l hl => ?_, fun i hi => ?_⟩, ⟨?_, ?_, fun hv => ?_⟩, ?_⟩
  · rw [hh]
    exact h.version
  · rw [hh]
    exact h.scratch
  · rw [image_blocks_congr hf fun o h₁ _ hw => by have := hw.2.2; omega]
    exact h.blocks l hl
  · rw [image_files_congr hf fun o h₁ _ hw => by
      have := hw.2.2
      unfold Config.fileEntry Config.filesStart at h₁
      omega]
    exact h.files i hi
  · rw [hh]
    exact h.version
  · rw [hh]
    exact h.swap
  · rw [hh, hx]
    exact (h.xor.trans (by rw [commitXor, if_pos hv])).symm
  · refine hf.clean (h.blank.mono fun b o hw => ⟨hw.1.le.trans (Nat.zero_le 1), hw.2.2⟩) ?_
    rintro b o ⟨rfl, _⟩ ⟨h₁, _⟩
    exact Nat.zero_ne_one h₁

/-- The metadata block that a wipe erases first: the older one, if one is in force. -/
def firstErased (cfg : Config) (fl : Flash) : Nat :=
  match selectActive cfg fl with
  | .ok a => otherMetaBlock a
  | .error _ => metadataBlock0

theorem firstErased_le (cfg : Config) (fl : Flash) : firstErased cfg fl ≤ 1 := by
  unfold firstErased
  cases selectActive cfg fl with
  | ok a => exact otherMetaBlock_le a
  | error e => exact Nat.zero_le 1

/-- The operations of a wipe. -/
inductive WipeOp (cfg : Config) (fl₀ : Flash) : Prog.Guard
  | read {fl : Flash} {b off n : Nat} : WipeOp cfg fl₀ fl (.read b off n)
  | eraseFirst : WipeOp cfg fl₀ fl₀ (.erase (firstErased cfg fl₀))
  | eraseSecond : WipeOp cfg fl₀ (fl₀.erase (firstErased cfg fl₀))
    (.erase (otherMetaBlock (firstErased cfg fl₀)))
  | layout {fl : Flash} {o : Op} (blank : Clean headerCells fl) (op : LayoutOp fl o) :
    WipeOp cfg fl₀ fl o
  | header {fl : Flash} {hdr : MetadataBlockHeader} (laid : LaidOut cfg hdr fl) :
    WipeOp cfg fl₀ fl (.write 1 0 hdr.encode)
  | flush {fl : Flash} {b : Nat} : WipeOp cfg fl₀ fl (.flush b)

theorem allowsReads_wipeOp : AllowsReads cfg (WipeOp cfg fl₀) := fun _ _ _ _ _ _ => .read

/-- A part of the wipe that writes the layout. -/
theorem layout_ok {α : Type} {m : FsM α} {R : α → Ctx → Flash → Prop}
    (h : m.Ok cfg.eraseVal LayoutOp c fl R) (hc : Clean headerCells fl) :
    m.Ok cfg.eraseVal (WipeOp cfg fl₀) c fl fun x c' fl' => Clean headerCells fl' ∧ R x c' fl' :=
  (h.inv hc fun _ _ hi ho => ho.clean hi).guard fun _ _ ho => .layout ho.1 ho.2

theorem wipeAll_ok (hacc : cfg.Accepted) :
    (flashFsWipeAll cfg).Ok cfg.eraseVal (WipeOp cfg fl) c fl fun _ _ fl' => Wiped cfg fl' := by
  have hn := numActive_eq_dedicated hacc
  have hend := hacc.metaEnd_le
  have hbs := cfg.blockSize_lt
  unfold flashFsWipeAll flashFsMblockResetMetablock
  refine Ok.bind (Ok.mono (R := fun found c' fl' => fl' = fl ∧
    (if found.isOk = true then c'.scratchMetablock else metadataBlock0) = firstErased cfg fl)
      ?_ fun _ _ _ hR => hR) ?_
  · refine wp_attempt.mpr (initGetActiveMetablock_wp allowsReads_wipeOp hacc (fun a ha => ?_)
      fun e he => ?_)
    · exact ⟨_, rfl, rfl, by unfold firstErased; rw [ha]; rfl⟩
    · exact ⟨_, rfl, rfl, by unfold firstErased; rw [he]; rfl⟩
  rintro found c fl ⟨rfl, hfound⟩
  refine query_get.seq_wp ?_
  dsimp only
  rw [hfound]
  have hfirst := firstErased_le cfg fl
  refine Ok.bind (ok_issue (R := fun _ c' fl' => c' = c ∧ fl' = fl.erase (firstErased cfg fl))
    .eraseFirst ⟨rfl, rfl⟩) ?_
  rintro _ c _ ⟨rfl, rfl⟩
  refine Ok.bind (ok_issue (R := fun _ c' fl' => c' = c ∧
    fl' = (fl.erase (firstErased cfg fl)).erase (otherMetaBlock (firstErased cfg fl)))
    .eraseSecond ⟨rfl, rfl⟩) ?_
  rintro _ c _ ⟨rfl, rfl⟩
  have hclean : Clean headerCells
      ((fl.erase (firstErased cfg fl)).erase (otherMetaBlock (firstErased cfg fl))) :=
    (erase_both hfirst fl).mono fun b o hw => hw.1
  generalize (fl.erase (firstErased cfg fl)).erase (otherMetaBlock (firstErased cfg fl)) = fl₂
    at hclean
  have hsub : sub32 cfg.blockSize (cfg.fileEntry cfg.maxNumFiles) = cfg.blockSize - cfg.metaEnd :=
    sub32_eq hbs hend
  refine modify_bind_wp (show _ = Ctx.mk (resetHeader cfg c.metaBlockHeader) 0 1 from rfl) ?_
  rw [hacc.fileOffset_eq le_rfl, hsub]
  -- the tables
  have hin0 : (emptyBlock cfg 0).InRange :=
    ⟨show 1 < 2 ^ 32 by decide, hacc.metaEnd_lt, show cfg.blockSize - cfg.metaEnd < 2 ^ 32 by omega⟩
  refine Ok.bind (layout_ok (writeBlockMeta_ok hacc hacc.numActive_pos hin0
    ⟨rfl, Nat.le_add_right _ _⟩) hclean) ?_
  rintro _ _ fl₃ ⟨hclean₃, rfl, hf₃, hb₃⟩
  refine Ok.bind (layout_ok (resetEraseDblocks_ok hacc _ (Nat.zero_add _)) hclean₃) ?_
  rintro good _ fl₄ ⟨hclean₄, rfl, rfl, hf₄⟩
  refine (query_failIf_of_not Bool.noConfusion).seq_wp ?_
  refine Ok.bind (layout_ok (resetWriteBlockMeta_ok hacc rfl _ (Nat.zero_add _)) hclean₄) ?_
  rintro _ _ fl₅ ⟨hclean₅, rfl, hf₅, hb₅⟩
  refine Ok.bind (layout_ok (resetWriteFileMeta_ok hacc rfl _ (Nat.zero_add _)) hclean₅) ?_
  rintro _ _ fl₆ ⟨hclean₆, rfl, hf₆, hfiles₆⟩
  -- the header
  have hlaid : LaidOut cfg (nextHeader cfg fl₆ 1 (resetHeader cfg c.metaBlockHeader)) fl₆ := by
    refine ⟨hclean₆, rfl, rfl, nextSwapCount_ne _ _, rfl, fun l hl => ?_,
      fun i hi => hfiles₆ i (Nat.zero_le i) (by omega)⟩
    rw [image_blocks_congr hf₆ fun o h₁ h₂ => fileRange_apart_blockRange (by omega) 1 o ⟨rfl, h₁, h₂⟩]
    rcases Nat.eq_zero_or_pos l with rfl | h₀
    · rw [blocks_eq_of_blockRange hf₅ (by omega),
        image_blocks_congr hf₄ fun o _ _ => show ¬ 2 < 1 by decide]
      exact hb₃
    · exact hb₅ l (by omega) (by omega)
  refine Ok.bind (writeScratchMetaHeader_ok allowsReads_wipeOp hacc le_rfl
    (.header hlaid)).failAs ?_
  rintro _ _ _ ⟨rfl, rfl⟩
  refine query_get.seq_wp (Ok.bind (ok_issue (R := fun _ _ fl' => fl' = headerWritten fl₆ 1
    (nextHeader cfg fl₆ 1 (resetHeader cfg c.metaBlockHeader))) .flush rfl) ?_)
  rintro _ _ _ rfl
  refine ok_modify ?_
  have hfw := onlyIn_write fl₆ 1 0 (nextHeader cfg fl₆ 1 (resetHeader cfg c.metaBlockHeader)).encode
  rw [MetadataBlockHeader.encode_length] at hfw
  exact hlaid.wiped hfw (inForce_headerWritten (a := 1) hlaid.scratch_lt).header

end Etss
