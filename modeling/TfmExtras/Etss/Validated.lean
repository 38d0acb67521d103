import TfmExtras.Etss.CallFault
import TfmExtras.Etss.TableFits

/-! Calls on any tables that a mount accepts. The checks look at every entry by itself; the calls
stay inside the blocks as long as the entries also fit together. -/

namespace Etss
open NorFlash NorFlash.Flash FlashM

variable {cfg : Config} {s : Ctx × List Calc} {c : Ctx} {fl fl' fl₀ : Flash} {d : Nat}

/-- An error that is replaced by another one is an error before. -/
theorem ok_of_mapError {α : Type} {r : Except Status α} {g : Status → Status} {a : α}
    (h : r.mapError g = .ok a) : r = .ok a := by
  cases r with
  | ok b => exact h
  | error e => cases h

/-- Entry `i` of the file table passes the checks. -/
def Image.FilePasses (cfg : Config) (st : Image) (i : Nat) : Prop :=
  checkFile cfg (st.files i) = .ok (st.files i)

def Image.BlockPasses (cfg : Config) (st : Image) (l : Nat) : Prop :=
  checkBlock cfg (st.blocks l) = .ok (st.blocks l)

/-- The tables in a metadata block are the same. -/
structure SameTables (cfg : Config) (a : Nat) (fl fl' : Flash) : Prop where
  files : (image cfg fl' a).files = (image cfg fl a).files
  blocks : (image cfg fl' a).blocks = (image cfg fl a).blocks

theorem SameTables.refl (a : Nat) (fl : Flash) : SameTables cfg a fl fl := ⟨rfl, rfl⟩

theorem SameTables.trans {a : Nat} {fl'' : Flash} (h : SameTables cfg a fl fl')
    (h' : SameTables cfg a fl' fl'') : SameTables cfg a fl fl'' :=
  ⟨h'.files.trans h.files, h'.blocks.trans h.blocks⟩

theorem sameTables_of_onlyIn {W : Region} {a : Nat} (h : OnlyIn W fl fl') (hW : ∀ o, ¬ W a o) :
    SameTables cfg a fl fl' :=
  ⟨funext fun _ => image_files_congr h fun o _ _ => hW o,
    funext fun _ => image_blocks_congr h fun o _ _ => hW o⟩

theorem allowsReads_inBlock : AllowsReads cfg fun _ o => InBlock cfg o := fun _ _ _ _ hb ho => ⟨hb, ho⟩

section
variable (hacc : cfg.Accepted)
include hacc

/-- Writing to the scratch metadata block leaves the tables in force. -/
theorem writeFile_wp (hc : c.Placed cfg) {i : Nat} (hi : i < cfg.maxNumFiles) (m : FileMeta) :
    (flashFsMblockUpdateScratchFileMeta cfg i m).wp cfg.eraseVal (fun _ o => InBlock cfg o) c fl
      fun r c' fl' => r = .ok () ∧ c' = c ∧ SameTables cfg c.activeMetablock fl fl' := by
  have hle : cfg.fileEntry i + 32 ≤ cfg.blockSize :=
    le_trans (hacc.fileEntry_le (Nat.succ_le_of_lt hi)) hacc.metaEnd_le
  unfold flashFsMblockUpdateScratchFileMeta
  rw [hacc.fileOffset_eq hi.le]
  refine query_get.seq_wp (wp_bind.mpr (wp_issue.mpr ⟨⟨hc.scratch_lt hacc, ?_⟩, ?_⟩))
  · rw [FileMeta.encode_length]
    exact hle
  · refine (wp_pure ()).mpr ⟨rfl, rfl, sameTables_of_onlyIn (onlyIn_write _ _ _ _) fun o hw => ?_⟩
    exact otherMetaBlock_ne _ (hc.scratch ▸ hw.1).symm

end

/-! ## Deleting a file -/

/-- File `d` can be deleted. -/
structure Image.DeleteFits (cfg : Config) (st : Image) (d : Nat) : Prop where
  /-- No file behind it starts before the number of bytes that it is moved by. -/
  behind : ∀ i ∈ st.behind cfg d, (∀ j ≤ i, st.FilePasses cfg j) →
    (st.files d).maxSize ≤ (st.files i).dataIdx
  /-- The free space of the block does not wrap. -/
  freed : (∀ j < cfg.maxNumFiles, st.FilePasses cfg j) → st.BlockPasses cfg (st.files d).lblock →
    (st.blocks (st.files d).lblock).freeSize + (st.files d).maxSize < 2 ^ 32
  /-- The files behind it have room in the block, from where the first of them starts. -/
  packed : (∀ j < cfg.maxNumFiles, st.FilePasses cfg j) → st.BlockPasses cfg (st.files d).lblock →
    0 < ∑ i ∈ st.behind cfg d, (st.files i).maxSize → ∃ i ∈ st.behind cfg d,
      (st.files i).dataIdx + ∑ i ∈ st.behind cfg d, (st.files i).maxSize ≤ cfg.blockSize

/-- File `d` can be deleted, if the deletion gets as far as moving the files behind it. -/
def Image.MayDelete (cfg : Config) (st : Image) (d : Nat) : Prop :=
  st.FilePasses cfg d → (st.files d).id ≠ 0 → st.DeleteFits cfg d

section
variable (hacc : cfg.Accepted) (hval : cfg.validateMetadata = true)
include hacc hval

theorem deleteIdxLoopNoted_wp {a : Nat} {st : Image} (n : Nat) : ∀ {s : Ctx × List Calc}
    {fl : Flash} {idx : Nat} {scan : DeleteScan}, Sane cfg s → s.1.activeMetablock = a →
    (image cfg fl a).files = st.files → idx + n = cfg.maxNumFiles →
    st.FilePasses cfg d → (∀ j < idx, st.FilePasses cfg j) →
    scan.nbrBytesToMove ≤ idx * cfg.maxFileSize →
    (∀ i ∈ st.behind cfg d, (∀ j ≤ i, st.FilePasses cfg j) →
      (st.files d).maxSize ≤ (st.files i).dataIdx) →
    (deleteIdxLoopNoted cfg d (st.files d).lblock (st.files d).dataIdx (st.files d).maxSize n idx
      scan).wp cfg.eraseVal (fun _ o => InBlock cfg o) s fl fun r s' fl' =>
        s'.1 = s.1 ∧ Sane cfg s' ∧ SameTables cfg a fl fl' ∧
        ∀ scan', r = .ok scan' → (∀ j < cfg.maxNumFiles, st.FilePasses cfg j) ∧
          scan' = scanDelete (st.files d) st.files d n idx scan := by
  have hmax := cfg.maxNumFiles_lt
  induction n with
  | zero =>
    intro s fl idx scan h _ _ hn _ hseen _ _
    refine (wp_pure scan).mpr ⟨rfl, h, .refl _ _, fun scan' hs => ?_⟩
    cases hs
    exact ⟨fun j hj => hseen j (by omega), rfl⟩
  | succ n ih =>
    intro s fl idx scan h hact hfiles hn hd hseen hnbr hfit
    unfold deleteIdxLoopNoted scanDelete
    by_cases hidx : idx = d
    · rw [if_pos hidx, if_pos hidx]
      refine ih h hact hfiles (by omega) hd (fun j hj => ?_) (by rw [Nat.succ_mul]; omega) hfit
      by_cases hjd : j = d
      · exact hjd ▸ hd
      · exact hseen j (by omega)
    rw [if_neg hidx, if_neg hidx]
    have hlt : idx < cfg.maxNumFiles := by omega
    refine silent_query_bind (readFileMeta_query allowsReads_inBlock hacc (h.placed.active_lt hacc)
      hlt) (fun m hm => ?_) fun e _ => ⟨rfl, h, .refl _ _, fun _ => of_error_eq_ok⟩
    rw [hact, hfiles] at hm
    obtain ⟨rfl, hplaced⟩ := checkFile_ok hval hm
    have hall : ∀ j < idx + 1, st.FilePasses cfg j := fun j hj => by
      rcases Nat.lt_succ_iff_lt_or_eq.mp hj with hj | rfl
      · exact hseen j hj
      · exact hm
    -- the entry of a file behind is moved down, and its size is added
    have hentry : AllExact (deleteIdxEntryCalcs (st.files d).lblock (st.files d).dataIdx
        (st.files d).maxSize scan (st.files idx)) ∧
        (deleteIdxEntry (st.files d).lblock (st.files d).dataIdx (st.files d).maxSize scan
          (st.files idx)).1.nbrBytesToMove ≤ (idx + 1) * cfg.maxFileSize := by
      unfold deleteIdxEntryCalcs deleteIdxEntry
      rw [Nat.succ_mul]
      split_ifs with hc
      · have hsize := hplaced.maxSize_le (validateFid_isOk.mp hc.2.1)
        have hsum : scan.nbrBytesToMove + (st.files idx).maxSize < 2 ^ 32 := by
          have hmul : (idx + 1) * cfg.maxFileSize ≤ 65535 * 65535 :=
            Nat.mul_le_mul (by omega) (Nat.le_of_lt_succ cfg.maxFileSize_lt)
          rw [Nat.succ_mul] at hmul
          omega
        refine ⟨.cons (hfit idx (Image.mem_behind.mpr ⟨hlt, hc⟩) fun j hj => hall j (by omega))
          (.cons hsum .nil), ?_⟩
        dsimp only
        rw [add32_eq hsum]
        omega
      · exact ⟨.nil, by dsimp only; omega⟩
    refine note_bind_wp (silent_wp_bind (writeFile_wp hacc h.placed hlt _) ?_ fun _ _ _ hr => of_error_eq_ok hr.1)
    rintro _ _ fl₁ ⟨-, rfl, hsame⟩
    have hfiles' : (image cfg fl₁ a).files = st.files := by
      rw [← hact] at hfiles ⊢
      exact hsame.files.trans hfiles
    refine wp_post (ih (h.note hentry.1) hact hfiles' (by omega) hd hall hentry.2 hfit) ?_
    rintro r s' fl₂ ⟨hctx, hs', hsame', hr⟩
    exact ⟨hctx, hs', (hact ▸ hsame).trans hsame', hr⟩

/-- A deletion of a file that fits stays inside the blocks, and none of its computations wraps. -/
theorem deleteIdxNoted_wp (h : Sane cfg s) (hd : d < cfg.maxNumFiles)
    (hfit : (image cfg fl s.1.activeMetablock).MayDelete cfg d) :
    (deleteIdxNoted cfg d).wp cfg.eraseVal (fun _ o => InBlock cfg o) s fl
      fun _ s' _ => Sane cfg s' := by
  generalize hst : image cfg fl s.1.activeMetablock = st at hfit
  unfold deleteIdxNoted
  refine silent_query_bind (readFileMeta_query allowsReads_inBlock hacc (h.placed.active_lt hacc)
    hd) (fun m hm => ?_) fun _ _ => h
  rw [hst] at hm
  obtain ⟨rfl, hplaced⟩ := checkFile_ok hval hm
  refine silent_query_bind (Query.failAs (query_ofExcept _)) (fun _ hid => ?_) fun _ _ => h
  have hid : (st.files d).id ≠ 0 := by
    have hv : utilsValidateFid (st.files d).id = .ok _ := ok_of_mapError hid
    exact validateFid_isOk.mp (by rw [hv]; rfl)
  obtain ⟨hbehind, hfreed, hpacked⟩ := hfit hm hid
  refine silent_wp_bind (writeFile_wp hacc h.placed hd _) ?_ fun _ _ _ hr => of_error_eq_ok hr.1
  rintro _ _ fl₁ ⟨-, rfl, hsame⟩
  have hfiles : (image cfg fl₁ s.1.activeMetablock).files = st.files := hst ▸ hsame.files
  refine wp_bind.mpr (wp_post (deleteIdxLoopNoted_wp hacc hval cfg.maxNumFiles h rfl hfiles
    (Nat.zero_add _) hm (fun j hj => absurd hj (Nat.not_lt_zero j)) (Nat.zero_le _) hbehind) ?_)
  rintro r s' fl₂ ⟨hctx, hs', hsame', hr⟩
  cases r with
  | error e => exact hs'
  | ok scan =>
  obtain ⟨hall, hscan⟩ := hr scan rfl
  have hspec : ScanOf cfg st (st.behind cfg d) scan := hscan ▸ deleteScan_spec
  have hblocks : (image cfg fl₂ s'.1.activeMetablock).blocks = st.blocks := by
    rw [hctx, ← hst]
    exact (hsame.trans hsame').blocks
  have hle := hplaced.le hid
  refine wp_bind.mpr (wp_post (compactNoted_wp hacc hval hs' hplaced.lblock_lt (by omega) ?_) ?_)
  · intro m hm
    rw [hblocks] at hm
    have hpass : st.BlockPasses cfg (st.files d).lblock := by
      obtain ⟨rfl, -⟩ := checkBlock_ok hval hm
      exact hm
    obtain ⟨rfl, -⟩ := checkBlock_ok hval hm
    refine ⟨hfreed hall hpass, fun hpos => ?_⟩
    have hsum : scan.nbrBytesToMove ≤ ∑ i ∈ st.behind cfg d, (st.files i).maxSize :=
      hspec.total.trans_le (Nat.mod_le _ _)
    obtain ⟨i, hi, hroom⟩ := hpacked hall hpass (by omega)
    have hsrc := hspec.le i hi
    have hidx := (Image.mem_behind.mp hi).2.2.2
    omega
  · intro r s₃ fl₃ h₃
    cases r with
    | error e => exact h₃
    | ok _ =>
    have hend : ∀ s', Sane cfg s' → (silent (flashFsMblockMetaUpdateFinalize cfg) : CalcM Unit).Within
        (InBlock cfg) s' fun _ s' => Sane cfg s' := fun s' hs' =>
      within_silent ((metaUpdateFinalize_within hacc hs'.placed hval).mono fun _ _ hp =>
        ⟨hp, hs'.exact⟩)
    refine Within.wp (.ite (fun _ => ?_) fun _ => hend s₃ h₃) cfg.eraseVal fl₃
    have hmig : ((migrateLb0DataToScratchNoted cfg).failAs .genericError).Within (InBlock cfg) s₃
        fun _ s' => Sane cfg s' :=
      (migrateNoted_within hacc hval h₃).failAs (fun _ _ hs => hs.2) fun _ _ hs => hs.2
    exact hmig.bind (fun _ s' hs' => hend s' hs') fun _ _ hs' => hs'

end

/-! ## Writing a file -/

theorem findFile_ok {files : Nat → FileMeta} {p : FileMeta → Bool} {n i k : Nat}
    (hval : cfg.validateMetadata = true) (h : findFile cfg files p n i = .ok k) :
    k < i + n ∧ checkFile cfg (files k) = .ok (files k) := by
  induction n generalizing i with
  | zero => cases h
  | succ n ih =>
    unfold findFile at h
    cases hm : checkFile cfg (files i) with
    | error e =>
      rw [hm] at h
      cases h
    | ok m =>
      obtain ⟨rfl, -⟩ := checkFile_ok hval hm
      rw [hm] at h
      have h : (if p (files i) then pure i else findFile cfg files p n (i + 1)) = .ok k := h
      split_ifs at h with hp
      · cases h
        exact ⟨by omega, hm⟩
      · obtain ⟨hlt, hk⟩ := ih h
        exact ⟨by omega, hk⟩

/-- Where the target of a write comes from. -/
theorem writeTarget_ok {st : Image} {r : WriteReq} {t : WriteTarget}
    (hval : cfg.validateMetadata = true) (h : st.writeTarget cfg r = .ok t) :
    (t.oldIdx = metadataInvalidIndex ∧ t.newIdx = metadataInvalidIndex) ∨
      (t.oldIdx < cfg.maxNumFiles ∧ (t.newIdx = t.oldIdx ∨ t.newIdx = metadataInvalidIndex) ∧
        t.fileMeta.lblock < numActiveDblocks cfg) := by
  unfold Image.writeTarget at h
  cases hfind : findFile cfg st.files (fun fileMeta => fileMeta.id == r.fid) cfg.maxNumFiles 0 with
  | error e =>
    rw [hfind] at h
    cases e with
    | doesNotExist =>
      dsimp only at h
      split_ifs at h
      cases h
      exact .inl ⟨rfl, rfl⟩
    | _ => cases h
  | ok oldIdx =>
    rw [hfind] at h
    obtain ⟨hlt, hpass⟩ := findFile_ok hval hfind
    rw [Nat.zero_add] at hlt
    have hl := (checkFile_ok hval hpass).2.lblock_lt
    dsimp only at h
    split_ifs at h <;> cases h
    · exact .inr ⟨hlt, .inl rfl, hl⟩
    · exact .inr ⟨hlt, .inr rfl, hl⟩
    · exact .inr ⟨hlt, .inl rfl, hl⟩

/-- Data can be written in place: the entry lies between the start of the data of its block and the
free space. -/
def Image.WriteFits (cfg : Config) (st : Image) (r : WriteReq) : Prop :=
  ∀ t, r.flags &&& internalFlagsMask = 0 → st.writeTarget cfg r = .ok t →
    t.newIdx ≠ metadataInvalidIndex → st.BlockPasses cfg t.fileMeta.lblock → r.dataSize ≠ 0 →
    r.Fits cfg t.fileMeta →
    (st.blocks t.fileMeta.lblock).dataStart ≤ t.fileMeta.dataIdx + r.offset ∧
      t.fileMeta.dataIdx + t.fileMeta.maxSize + (st.blocks t.fileMeta.lblock).freeSize ≤
        cfg.blockSize

section
variable (hacc : cfg.Accepted) (hval : cfg.validateMetadata = true)
include hacc hval

theorem fileWriteLookup_wp (hc : c.Placed cfg) (r : WriteReq) :
    (fileWriteLookup cfg r.fid r.flags (r.max cfg)).wp cfg.eraseVal (fun _ o => InBlock cfg o) c fl
      fun res c' fl' => c' = c ∧ SameTables cfg c.activeMetablock fl fl' ∧
        ∀ t, res = .ok t → (image cfg fl c.activeMetablock).writeTarget cfg r = .ok t := by
  unfold fileWriteLookup flashFsMblockGetFileIdx Image.writeTarget
  refine Query.seq_wp (Query.attempt (findFileMeta_query allowsReads_inBlock hacc
    (hc.active_lt hacc) _ (Nat.zero_add _).le)) ?_
  cases hfind : findFile cfg (image cfg fl c.activeMetablock).files
      (fun fileMeta => fileMeta.id == r.fid) cfg.maxNumFiles 0 with
  | error e =>
    cases e with
    | doesNotExist =>
      dsimp only
      unfold failIf
      split_ifs
      · exact wp_bind.mpr ((wp_fail _).mpr ⟨rfl, .refl _ _, fun _ => of_error_eq_ok⟩)
      · exact (wp_pure _).mpr ⟨rfl, .refl _ _, fun t ht => ht⟩
    | _ => exact (wp_fail _).mpr ⟨rfl, .refl _ _, fun _ => of_error_eq_ok⟩
  | ok oldIdx =>
    obtain ⟨hlt, hpass⟩ := findFile_ok hval hfind
    rw [Nat.zero_add] at hlt
    have hread : ((flashFsMblockReadFileMeta cfg oldIdx).failAs .doesNotExist).Query cfg.eraseVal
        (fun _ o => InBlock cfg o) c fl (.ok ((image cfg fl c.activeMetablock).files oldIdx)) := by
      have hq : (flashFsMblockReadFileMeta cfg oldIdx).Query cfg.eraseVal
          (fun _ o => InBlock cfg o) c fl _ :=
        readFileMeta_query allowsReads_inBlock hacc (hc.active_lt hacc) hlt
      rw [hpass] at hq
      exact hq.failAs
    refine hread.seq_wp ?_
    dsimp only
    split_ifs
    · exact (wp_pure _).mpr ⟨rfl, .refl _ _, fun t ht => ht⟩
    · refine wp_bind.mpr (wp_failAs.mpr (wp_post (writeFile_wp hacc hc hlt _) ?_))
      rintro _ _ fl₁ ⟨rfl, rfl, hsame⟩
      exact (wp_pure _).mpr ⟨rfl, hsame, fun t ht => ht⟩
    · exact (wp_pure _).mpr ⟨rfl, .refl _ _, fun t ht => ht⟩

/-- The entry that a write takes, and room for its data there. -/
structure Takes (cfg : Config) (r : WriteReq) (t : WriteTarget) (q : Nat × FileMeta × BlockMeta) :
    Prop where
  newIdx_lt : q.1 < cfg.maxNumFiles
  newIdx_eq : t.newIdx ≠ metadataInvalidIndex → q.1 = t.newIdx
  lblock_lt : q.2.1.lblock < numActiveDblocks cfg
  placed : q.2.2.Placed cfg
  room : r.dataSize ≠ 0 → utilsIsAligned r.offset cfg.programUnit = true →
    r.offset ≤ q.2.1.curSize → r.offset + utilsAlign r.dataSize cfg.programUnit ≤ q.2.1.maxSize →
    q.2.2.dataStart ≤ q.2.1.dataIdx + r.offset ∧
      q.2.1.dataIdx + q.2.1.maxSize + q.2.2.freeSize ≤ cfg.blockSize

theorem fileWriteReserveNoted_wp (h : Sane cfg s) {st : Image} {r : WriteReq} {t : WriteTarget}
    (hblocks : (image cfg fl s.1.activeMetablock).blocks = st.blocks)
    (hflags : r.flags &&& internalFlagsMask = 0) (ht : st.writeTarget cfg r = .ok t)
    (hfit : st.WriteFits cfg r) :
    (fileWriteReserveNoted cfg r.fid r.flags (r.max cfg) t).wp cfg.eraseVal
      (fun _ o => InBlock cfg o) s fl fun res s' _ =>
        s'.1 = s.1 ∧ Sane cfg s' ∧ ∀ q, res = .ok q → Takes cfg r t q := by
  have hcases := writeTarget_ok hval ht
  unfold fileWriteReserveNoted
  by_cases hnew : t.newIdx = metadataInvalidIndex
  · rw [if_pos hnew]
    refine Within.wp (silent_failIf_bind (fun _ => ?_) ⟨rfl, h, fun _ => of_error_eq_ok⟩) cfg.eraseVal fl
    refine (reserveFileNoted_within hacc hval h r.fid _ (r.max cfg) r.flags).mono ?_
    rintro res s' ⟨hctx, hs', hq⟩
    refine ⟨hctx, hs', fun q hres => ?_⟩
    obtain ⟨hlt, hr⟩ := hq q hres
    exact ⟨hlt, fun hne => absurd hnew hne, hr.lblock_lt, hr.placed, fun _ _ _ _ =>
      ⟨hr.start_le.trans (Nat.le_add_right _ _), hr.le⟩⟩
  · rw [if_neg hnew]
    obtain ⟨-, hn⟩ | ⟨holdlt, hn, hl⟩ := hcases
    · exact absurd hn hnew
    have hold : t.newIdx = t.oldIdx := hn.resolve_right hnew
    have hread : ((flashFsMblockReadBlockMetadata cfg t.fileMeta.lblock).failAs .genericError).Query
        cfg.eraseVal (fun _ o => InBlock cfg o) s.1 fl
        ((checkBlock cfg (st.blocks t.fileMeta.lblock)).mapError fun _ => .genericError) := by
      rw [← hblocks]
      exact (readBlockMetadata_query allowsReads_inBlock hacc (h.placed.active_lt hacc) hl).failAs
    refine silent_query_bind hread (fun m hm => ?_) fun _ _ => ⟨rfl, h, fun _ => of_error_eq_ok⟩
    have hcheck : checkBlock cfg (st.blocks t.fileMeta.lblock) = .ok m := ok_of_mapError hm
    obtain ⟨rfl, hplaced⟩ := checkBlock_ok hval hcheck
    refine (wp_pure _).mpr ⟨rfl, h, fun q hq => ?_⟩
    cases hq
    exact ⟨hold ▸ holdlt, fun _ => rfl, hl, hplaced, fun h0 hal hoff hmax =>
      hfit t hflags ht hnew hcheck h0 (.inr ⟨hal, hoff, hmax⟩)⟩

/-- The first update of a write into an entry that fits stays inside the blocks, and none of its
computations wraps. -/
theorem fileWriteFirstNoted_wp (h : Sane cfg s) {r : WriteReq}
    (hfit : (image cfg fl s.1.activeMetablock).WriteFits cfg r) :
    (fileWriteFirstNoted cfg r).wp cfg.eraseVal (fun _ o => InBlock cfg o) s fl
      fun res s' _ => Sane cfg s' ∧ ∀ x, res = .ok x → ∃ t,
        (image cfg fl s.1.activeMetablock).writeTarget cfg r = .ok t ∧ x.oldIdx = t.oldIdx ∧
          (t.newIdx ≠ metadataInvalidIndex → x.newIdx = t.newIdx) := by
  unfold fileWriteFirstNoted
  have hflags : (failIf (r.flags &&& internalFlagsMask ≠ 0) .invalidArgument : FsM Unit).Query
      cfg.eraseVal (fun _ o => InBlock cfg o) s.1 fl
      (if r.flags &&& internalFlagsMask ≠ 0 then .error .invalidArgument else .ok ()) := by
    split_ifs with hf
    · exact query_failIf_of hf
    · exact query_failIf_of_not hf
  refine silent_query_bind hflags (fun _ hf => ?_) fun _ _ => ⟨h, fun _ => of_error_eq_ok⟩
  refine silent_wp_bind (fileWriteLookup_wp hacc hval h.placed r) ?_ ?_
  · rintro t _ fl₁ ⟨rfl, hsame, ht⟩
    have ht := ht t rfl
    have hold : t.oldIdx = metadataInvalidIndex ∨ t.oldIdx < cfg.maxNumFiles :=
      (writeTarget_ok hval ht).imp And.left And.left
    have hf0 : r.flags &&& internalFlagsMask = 0 := by
      by_contra hne
      rw [if_pos hne] at hf
      cases hf
    refine wp_bind.mpr (wp_post (fileWriteReserveNoted_wp hacc hval h hsame.blocks hf0 ht hfit) ?_)
    rintro res ⟨c', xs⟩ fl₂ ⟨rfl, h₂, hq⟩
    cases res with
    | error e => exact ⟨h₂, fun _ => of_error_eq_ok⟩
    | ok q =>
    obtain ⟨newIdx, f, m⟩ := q
    obtain ⟨hnlt, hneq, hl, hm, hroom⟩ := hq _ rfl
    refine Within.wp (Within.bind (fileWriteDataNoted_within hacc h₂ hl hm hroom r.data) ?_ ?_)
      cfg.eraseVal fl₂
    · rintro ⟨f', m'⟩ s₃ ⟨h₃, hlb⟩
      have hl' : f'.lblock < numActiveDblocks cfg := (hlb _ rfl).symm ▸ hl
      refine Within.bind (fileWriteMetaNoted_within hacc hval h₃ m' r.dataSize hl' hnlt hold) ?_ ?_
      · intro _ s₄ h₄
        refine silent_bind_within (metaUpdateFinalize_within hacc h₄.placed hval) ?_ ?_
        · intro _ c₅ h₅
          refine within_pure ⟨⟨h₅, h₄.exact⟩, fun x hx => ?_⟩
          cases hx
          exact ⟨t, ht, rfl, hneq⟩
        · exact fun _ c₅ h₅ => ⟨⟨h₅, h₄.exact⟩, fun _ => of_error_eq_ok⟩
      · exact fun _ _ h₄ => ⟨h₄, fun _ => of_error_eq_ok⟩
    · exact fun _ _ h₃ => ⟨h₃.1, fun _ => of_error_eq_ok⟩
  · rintro e _ fl₁ ⟨rfl, -, -⟩
    exact ⟨h, fun _ => of_error_eq_ok⟩

end

/-! ## Reading a file -/

/-- The bytes that are read lie in the block of the file. -/
def Image.ReadFits (cfg : Config) (st : Image) (fid : Fid) (size offset : Nat) : Prop :=
  ∀ i, findFile cfg st.files (fun f => f.id == fid) cfg.maxNumFiles 0 = .ok i →
    st.BlockPasses cfg (st.files i).lblock → offset + size ≤ (st.files i).curSize →
    (st.files i).dataIdx + offset + size ≤ cfg.blockSize

theorem findFile_holds {files : Nat → FileMeta} {p : FileMeta → Bool} {n i k : Nat}
    (hval : cfg.validateMetadata = true) (h : findFile cfg files p n i = .ok k) :
    p (files k) = true := by
  induction n generalizing i with
  | zero => cases h
  | succ n ih =>
    unfold findFile at h
    cases hm : checkFile cfg (files i) with
    | error e =>
      rw [hm] at h
      cases h
    | ok m =>
      obtain ⟨rfl, -⟩ := checkFile_ok hval hm
      rw [hm] at h
      have h : (if p (files i) then pure i else findFile cfg files p n (i + 1)) = .ok k := h
      split_ifs at h with hp
      · cases h
        exact hp
      · exact ih h

/-- The checks are enough for reads: the entry of a file with an id lies in its block. -/
theorem Image.readFits (hval : cfg.validateMetadata = true) (st : Image) {fid : Fid} (hfid : fid ≠ 0)
    (size offset : Nat) : st.ReadFits cfg fid size offset := by
  intro i hi _ hle
  obtain ⟨-, hpass⟩ := findFile_ok hval hi
  have hid : (st.files i).id ≠ 0 := by
    rw [beq_iff_eq.mp (findFile_holds (p := fun f => f.id == fid) hval hi)]
    exact hfid
  have hplaced := (checkFile_ok hval hpass).2
  have hcur := hplaced.curSize_le hid
  have hin := hplaced.le hid
  omega

section
variable (hacc : cfg.Accepted) (hval : cfg.validateMetadata = true)
include hacc hval

theorem dblockReadFileNoted_wp (h : Sane cfg s) {f : FileMeta} {size offset : Nat}
    (hl : f.lblock < numActiveDblocks cfg)
    (hfit : (image cfg fl s.1.activeMetablock).BlockPasses cfg f.lblock →
      f.dataIdx + offset + size ≤ cfg.blockSize) :
    (dblockReadFileNoted cfg f offset size).wp cfg.eraseVal (fun _ o => InBlock cfg o) s fl
      fun _ s' _ => Sane cfg s' := by
  have hbs := cfg.blockSize_lt
  have hread : (flashFsMblockReadBlockMetadata cfg f.lblock).Query cfg.eraseVal
      (fun _ o => InBlock cfg o) s.1 fl _ :=
    readBlockMetadata_query allowsReads_inBlock hacc (h.placed.active_lt hacc) hl
  unfold dblockReadFileNoted dblockLoToPhy
  cases hb : checkBlock cfg ((image cfg fl s.1.activeMetablock).blocks f.lblock) with
  | error e =>
    rw [hb] at hread
    refine silent_query_bind (hread.attempt.seq (query_pure blockInvalidId)) (fun b hb => ?_)
      fun _ _ => h
    cases hb
    exact Within.wp (silent_failIf_bind (fun hne => absurd rfl hne) h) cfg.eraseVal fl
  | ok m =>
    rw [hb] at hread
    refine silent_query_bind (hread.attempt.seq (query_pure m.phyId)) (fun b hphy => ?_)
      fun _ _ => h
    cases hphy
    obtain ⟨he, hm⟩ := checkBlock_ok hval hb
    rw [← he] at hm
    have hle := hfit (hb.trans (congrArg Except.ok he))
    have hx : (Calc.add f.dataIdx offset).Exact := show f.dataIdx + offset < 2 ^ 32 by omega
    rw [add32_eq hx]
    have hend : Within (InBlock cfg) (note [.add f.dataIdx offset] >>= fun _ =>
        silent (opsRead m.phyId (f.dataIdx + offset) size)) s fun _ s' => Sane cfg s' :=
      note_bind_within (within_silent (within_issue ⟨hm.phyId_lt, hle⟩ fun _ _ =>
        h.note (.cons hx .nil)))
    exact Within.wp (silent_failIf_bind (fun _ => hend) h) cfg.eraseVal fl

theorem fileReadNoted_wp (h : Sane cfg s) {fid : Fid} {size offset : Nat}
    (hfit : (image cfg fl s.1.activeMetablock).ReadFits cfg fid size offset) :
    (fileReadNoted cfg fid size offset).wp cfg.eraseVal (fun _ o => InBlock cfg o) s fl
      fun _ s' _ => Sane cfg s' := by
  have hlt := h.placed.active_lt hacc
  have hfind : (mblockFindFileMeta cfg (fun f => f.id == fid) cfg.maxNumFiles 0).Query cfg.eraseVal
      (fun _ o => InBlock cfg o) s.1 fl _ :=
    findFileMeta_query allowsReads_inBlock hacc hlt _ (Nat.zero_add _).le
  unfold fileReadNoted flashFsMblockGetFileIdx
  refine silent_query_bind hfind.failAs (fun i hi => ?_) fun _ _ => h
  have hfound : findFile cfg (image cfg fl s.1.activeMetablock).files (fun f => f.id == fid)
      cfg.maxNumFiles 0 = .ok i := ok_of_mapError hi
  obtain ⟨hmax, hpass⟩ := findFile_ok hval hfound
  have hread : (flashFsMblockReadFileMeta cfg i).Query cfg.eraseVal
      (fun _ o => InBlock cfg o) s.1 fl _ :=
    readFileMeta_query allowsReads_inBlock hacc hlt (hmax.trans_eq (Nat.zero_add _))
  rw [hpass] at hread
  refine silent_query_bind hread.failAs (fun f hf => ?_) fun _ _ => h
  cases hf
  have hl := (checkFile_ok hval hpass).2.lblock_lt
  generalize hf : (image cfg fl s.1.activeMetablock).files i = f at hl
  by_cases hid : fid ≠ f.id
  · exact silent_query_bind (query_failIf_of hid) (fun _ he => of_error_eq_ok he) fun _ _ => h
  refine silent_query_bind (query_failIf_of_not hid) (fun _ _ => ?_) fun _ _ => h
  refine silent_query_bind (query_ofExcept _) (fun _ hin => ?_) fun _ _ => h
  have hsize := utilsCheckContainedIn_eq_ok.mp hin
  have hfits : (image cfg fl s.1.activeMetablock).BlockPasses cfg f.lblock →
      f.dataIdx + offset + size ≤ cfg.blockSize := fun hb => by
    have hle := hfit i hfound
    rw [hf] at hle
    exact hle hb hsize
  refine wp_failAs.mpr (wp_post (dblockReadFileNoted_wp hacc hval h hl hfits) ?_)
  intro r s' fl' hs'
  cases r <;> exact hs'

end

end Etss
