import TfmExtras.Etss.CallFault
import TfmExtras.Etss.FlushOrder

/-! The order of writes and flushes in a write: the mark of a replaced file is left unflushed, and a
replaced file is deleted by a second update. -/

namespace Etss
open NorFlash NorFlash.Flash FlashM

variable {cfg : Config} {s sd : Nat} {c c' : Ctx} {fl fl' : Flash} {d : Option Nat}

/-! ## The stage -/

theorem fileWriteLookup_toScratch (fid : Fid) (flags maxSize : Nat) :
    ToScratch s (fileWriteLookup cfg fid flags maxSize) := by
  refine (writesTo_of_reads (getFileIdx_reads fid)).attempt.bind fun r => ?_
  cases r with
  | ok oldIdx =>
    refine (writesTo_of_reads fun _ => readFileMeta_reads oldIdx).failAs.bind fun fileMeta => ?_
    refine WritesTo.ite (fun _ => WritesTo.ite (fun _ => writesTo_pure _) fun _ => ?_)
      fun _ => writesTo_pure _
    exact (updateScratchFileMeta_toScratch _ _).failAs.bind fun _ => writesTo_pure _
  | error e =>
    cases e <;> first
      | exact writesTo_fail _
      | exact (writesTo_of_reads (reads_failIf _ _)).bind fun _ => writesTo_pure _

variable {fl₀ : Flash} {a : Nat} {strict : Prop} {r : WriteReq} {t : WriteTarget} {p : WritePlan}

/-- The lookup of a write leaves the mark of a replaced file unflushed. -/
theorem Starts.fileWriteLookup_unflushed (h : Starts cfg fl₀ a s strict c)
    (ht : (image cfg fl₀ a).writeTarget cfg r = .ok t) :
    (fileWriteLookup cfg r.fid r.flags (r.max cfg)).unflushed cfg.eraseVal c fl₀ none =
      some (if t.Replaces then some s else none) := by
  have hr := h.toReady
  have hmax := cfg.maxNumFiles_lt
  have hfind : (flashFsMblockGetFileIdx cfg r.fid).Query cfg.eraseVal anyOp c fl₀
      (findFile cfg (image cfg fl₀ a).files (fun fileMeta => fileMeta.id == r.fid)
        cfg.maxNumFiles 0) := hr.findFileMeta_query (fun _ _ _ _ _ _ => trivial) _
  unfold fileWriteLookup
  unfold Image.writeTarget at ht
  rcases h.wf.findFile_id h.accepted r.fid with ⟨i, hi, hid, he⟩ | ⟨hall, he⟩
  · rw [he] at hfind ht
    have hn : i ≠ metadataInvalidIndex := by unfold metadataInvalidIndex; omega
    rw [(getFileIdx_reads r.fid c).attempt.unflushed_seq hfind.attempt]
    dsimp only at ht ⊢
    rw [(readFileMeta_reads i).failAs.unflushed_seq
      (hr.readFile (G := anyOp) (fun _ _ _ _ _ _ => trivial) hi).failAs]
    split_ifs at ht with htr hsz
    · obtain rfl := Except.ok.inj ht
      rw [if_pos htr, if_pos hsz, if_neg fun hc => hn hc.2]
      rfl
    · obtain rfl := Except.ok.inj ht
      rw [if_pos htr, if_neg hsz, if_pos ⟨hn, rfl⟩, ← hr.scratch]
      rfl
    · obtain rfl := Except.ok.inj ht
      rw [if_neg htr, if_neg fun hc => hn hc.2]
      rfl
  · rw [he] at hfind ht
    rw [(getFileIdx_reads r.fid c).attempt.unflushed_seq hfind.attempt]
    dsimp only at ht ⊢
    split_ifs at ht with hc
    obtain rfl := Except.ok.inj ht
    unfold failIf
    rw [if_neg hc, if_neg fun hc => hc.1 rfl]
    rfl

theorem reserveFileLoop_reads (fid : Fid) (size flags n : Nat) : ∀ i (c : Ctx),
    (mblockReserveFileLoop cfg fid size flags n i).Reads c := by
  induction n with
  | zero => exact fun i c => reads_fail _ c
  | succ n ih =>
    intro i c
    refine (readBlockMetadata_reads i c).failAs.bind fun blockMeta => ?_
    split_ifs
    · exact reads_pure _ c
    · exact ih _ c

theorem fileWriteReserve_reads (fid : Fid) (flags maxSize : Nat) (t : WriteTarget) (c : Ctx) :
    (fileWriteReserve cfg fid flags maxSize t).Reads c := by
  have hreserve : ∀ useSpare, (flashFsMblockReserveFile cfg fid useSpare maxSize flags).Reads c :=
    fun useSpare => by
      refine (reserveFileLoop_reads _ _ _ _ 0 c).attempt.bind fun err =>
        (getFreeFileIndexLoop_reads _ 0 useSpare).bind fun idx => ?_
      cases err with
      | error e => exact reads_fail _ c
      | ok q =>
        dsimp only
        split_ifs
        · exact reads_fail _ c
        · exact reads_pure _ c
  unfold fileWriteReserve
  split_ifs
  · exact (reads_failIf _ _ c).bind fun _ => hreserve _
  · exact (readBlockMetadata_reads _ c).failAs.bind fun _ => reads_pure _ c

/-- Data of logical block 0 goes to the scratch metadata block. -/
theorem dblockWriteFile_toScratch {fileMeta : FileMeta} (h0 : fileMeta.lblock = logicalDblock0)
    (blockMeta : BlockMeta) (offset size : Nat) (data : Nat → UInt8) :
    ToScratch s (flashFsDblockWriteFile cfg blockMeta fileMeta offset size data) := by
  unfold flashFsDblockWriteFile
  refine get_bind_writesTo fun c hc => ?_
  obtain rfl : c.scratchMetablock = s := hc
  have hmove : ∀ a b n, ToScratch c.scratchMetablock
      (flashFsBlockToBlockMove c.scratchMetablock a blockMeta.phyId b n) :=
    fun a b n => blockToBlockMove_writesTo _ _ _ _ _
  have hflush : ToScratch c.scratchMetablock (flushScratch fileMeta.lblock c.scratchMetablock) := by
    unfold flushScratch
    rw [if_neg (not_not_intro h0)]
    exact writesTo_pure ()
  show ToScratch c.scratchMetablock _
  rw [if_pos h0]
  exact (hmove _ _ _).bind fun _ => (writesTo_write _ _ _).bind fun _ => (hmove _ _ _).bind fun _ =>
    hflush

/-- Data for a dedicated block goes to the scratch data block, which is flushed behind it. -/
theorem dblockWriteFile_flushes {fileMeta : FileMeta} (h0 : fileMeta.lblock ≠ logicalDblock0)
    (blockMeta : BlockMeta) (offset size : Nat) (data : Nat → UInt8) (c : Ctx) :
    (flashFsDblockWriteFile cfg blockMeta fileMeta offset size data).Flushes c none
      (IfOk fun c' d' => c' = c ∧ d' = none) := by
  have hmove : ∀ a b n, WritesTo c.metaBlockHeader.scratchDblock (· = c)
      (flashFsBlockToBlockMove c.metaBlockHeader.scratchDblock a blockMeta.phyId b n) :=
    fun a b n => blockToBlockMove_writesTo _ _ _ _ _
  unfold flashFsDblockWriteFile
  refine get_bind_flushes ?_
  rw [if_neg h0]
  show ((flashFsBlockToBlockMove _ _ _ _ _ >>= fun _ => _ : FsM Unit)).Flushes c none _
  refine (hmove _ _ _).bind_flushes rfl (.inl rfl) ?_ ifOk_error
  rintro _ _ d₁ rfl hd₁
  refine (writesTo_write _ _ _).bind_flushes rfl hd₁ ?_ ifOk_error
  rintro _ _ d₂ rfl hd₂
  refine (hmove _ _ _).bind_flushes rfl hd₂ ?_ ifOk_error
  rintro _ c d₃ rfl hd₃
  have hstep : (Op.flush c.metaBlockHeader.scratchDblock).flushStep d₃ = some none := by
    rcases hd₃ with rfl | rfl
    · rfl
    · exact congrArg some (if_pos rfl)
  have hflush : (opsFlush c.metaBlockHeader.scratchDblock).Flushes c d₃
      (IfOk fun c' d' => c' = c ∧ d' = none) :=
    flushes_issue hstep (fun _ _ => ⟨rfl, rfl⟩) (ifOk_error _ _ _)
  rw [if_pos h0]
  exact hflush.bind_ok fun _ _ _ hr _ => hr

/-- The data of a file goes to a scratch block; a dedicated one is flushed behind it. -/
theorem fileWriteData_flushes {fileMeta : FileMeta} {blockMeta : BlockMeta} {dataSize offset : Nat}
    {data : Nat → UInt8} (hc : ScratchIs s c) (hd : d = none ∨ d = some s)
    (hcase : dataSize = 0 ∨ fileMeta.lblock = 0 ∨ d = none) :
    (fileWriteData cfg fileMeta blockMeta dataSize offset data).Flushes c d
      (IfOk fun c' d' => ScratchIs s c' ∧ (d' = none ∨ d' = some s)) := by
  unfold fileWriteData
  by_cases h0 : dataSize = 0
  · rw [if_neg (not_not_intro h0)]
    exact fun _ => ⟨hc, hd⟩
  rw [if_pos h0]
  have hwrite : ∀ size, (flashFsDblockWriteFile cfg blockMeta fileMeta offset size data).Flushes c d
      (IfOk fun c' d' => ScratchIs s c' ∧ (d' = none ∨ d' = some s)) := fun size => by
    by_cases hl : fileMeta.lblock = 0
    · refine (dblockWriteFile_toScratch hl _ _ _ _ c d hc hd).mono ?_
      rintro _ c' d' ⟨hc', hd'⟩ _
      exact ⟨hc', hd'.elim (fun he => he ▸ hd) .inr⟩
    · obtain rfl : d = none := (hcase.resolve_left h0).resolve_left hl
      refine (dblockWriteFile_flushes hl _ _ _ _ c).mono fun _ c' d' hr hok => ?_
      obtain ⟨rfl, hd'⟩ := hr hok
      exact ⟨hc, .inl hd'⟩
  have haligned : (flashFsFileWriteAlignedData cfg blockMeta fileMeta offset dataSize data).Flushes
      c d (IfOk fun c' d' => ScratchIs s c' ∧ (d' = none ∨ d' = some s)) := by
    refine (reads_failIf _ _ c).bind_flushes (fun _ => ?_) fun e => ifOk_error e _ _
    refine (reads_failIf _ _ c).bind_flushes (fun _ => ?_) fun e => ifOk_error e _ _
    exact (reads_ofExcept _ c).failAs.bind_flushes (fun _ => hwrite _) fun e => ifOk_error e _ _
  refine haligned.failAs.bind_ok fun _ c₁ d₁ ⟨hc₁, hd₁⟩ => ?_
  refine (curDataScratchId_reads _ c₁).bind_flushes (fun phyId => ?_) fun e => ifOk_error e _ _
  unfold flashFsMblockSetDataScratch
  split_ifs <;> exact fun _ => ⟨hc₁, hd₁⟩

/-- Data for a dedicated block is not written behind an unflushed mark. -/
theorem dblockWriteFile_stuck {fileMeta : FileMeta} (hl : fileMeta.lblock ≠ logicalDblock0)
    (hne : c.metaBlockHeader.scratchDblock ≠ s) (blockMeta : BlockMeta) (offset size : Nat)
    (data : Nat → UInt8) (ev : UInt8) (fl : Flash) :
    (flashFsDblockWriteFile cfg blockMeta fileMeta offset size data).unflushed ev c fl (some s) =
      none := by
  have hcur : (flashFsMblockCurDataScratchId fileMeta.lblock).Query ev anyOp c fl
      (.ok c.metaBlockHeader.scratchDblock) := by
    have hq : (flashFsMblockCurDataScratchId fileMeta.lblock).Query ev anyOp c fl
        (.ok (c.scratchId fileMeta.lblock)) := query_get.seq (query_pure _)
    rwa [Ctx.scratchId, if_neg hl] at hq
  unfold flashFsDblockWriteFile
  rw [(curDataScratchId_reads _ c).unflushed_seq hcur]
  -- the first write is the move of the bytes before the data, or the data itself
  by_cases hn : sub32 (add32 fileMeta.dataIdx offset) blockMeta.dataStart = 0
  · have hmove : ∀ x y z, (flashFsBlockToBlockMove x y z blockMeta.dataStart (sub32 (add32
        fileMeta.dataIdx offset) blockMeta.dataStart)).Query ev anyOp c fl (.ok ()) :=
      fun x y z => by
        rw [hn]
        exact query_pure ()
    have hreads : ∀ x y z, (flashFsBlockToBlockMove x y z blockMeta.dataStart (sub32 (add32
        fileMeta.dataIdx offset) blockMeta.dataStart)).Reads c := fun x y z => by
      rw [hn]
      exact reads_pure () c
    dsimp only
    rw [(hreads _ _ _).unflushed_seq (hmove _ _ _)]
    exact unflushed_stuck (opsWrite_stuck hne ev c fl)
  · exact unflushed_stuck (blockToBlockMove_stuck hne (Nat.pos_of_ne_zero hn) ev c fl)

theorem fileWriteData_stuck {fileMeta : FileMeta} (h0 : r.dataSize ≠ 0)
    (hl : fileMeta.lblock ≠ 0) (hf : r.Fits cfg fileMeta)
    (hne : c.metaBlockHeader.scratchDblock ≠ s) (blockMeta : BlockMeta) (ev : UInt8) (fl : Flash) :
    (fileWriteData cfg fileMeta blockMeta r.dataSize r.offset r.data).unflushed ev c fl (some s) =
      none := by
  obtain ⟨hal, hcur, hend⟩ := hf.resolve_left h0
  have hin : utilsCheckContainedIn fileMeta.maxSize r.offset
      (utilsAlign r.dataSize cfg.programUnit) = .ok () := utilsCheckContainedIn_eq_ok.mpr hend
  unfold fileWriteData
  rw [if_pos h0]
  refine unflushed_stuck ?_
  rw [unflushed_failAs]
  unfold flashFsFileWriteAlignedData
  rw [(reads_failIf _ _ c).unflushed_seq (query_failIf_of_not (G := anyOp) (by simp [hal])),
    (reads_failIf _ _ c).unflushed_seq (query_failIf_of_not (G := anyOp) (Nat.not_lt.mpr hcur)),
    (reads_ofExcept _ c).failAs.unflushed_seq (query_check hin (G := anyOp))]
  exact dblockWriteFile_stuck hl hne _ _ _ _ _ _

/-- Data that does not fit is not written. -/
theorem fileWriteData_unflushed {fileMeta : FileMeta} (hf : ¬ r.Fits cfg fileMeta)
    (blockMeta : BlockMeta) (ev : UInt8) (fl : Flash) :
    (fileWriteData cfg fileMeta blockMeta r.dataSize r.offset r.data).unflushed ev c fl d =
      some d := by
  obtain ⟨h0, hf⟩ := not_or.mp hf
  have hset : ∀ phyId lblock, (flashFsMblockSetDataScratch phyId lblock).Idle := fun phyId lblock => by
    unfold flashFsMblockSetDataScratch
    split_ifs
    · exact idle_modify _
    · exact idle_of_reads (reads_pure ())
  unfold fileWriteData
  rw [if_pos h0]
  refine (unflushed_seq_idle fun _ => (idle_of_reads (curDataScratchId_reads _)).bind fun _ =>
    (hset _ _).bind fun _ => idle_of_reads (reads_pure _)).trans ?_
  rw [unflushed_failAs]
  unfold flashFsFileWriteAlignedData
  by_cases hal : utilsIsAligned r.offset cfg.programUnit = false
  · rw [unflushed_seq_error (query_failIf_of hal (G := anyOp)).run_eq]
    exact (reads_failIf _ _ c).unflushed
  rw [(reads_failIf _ _ c).unflushed_seq (query_failIf_of_not hal (G := anyOp))]
  by_cases hcur : r.offset > fileMeta.curSize
  · rw [unflushed_seq_error (query_failIf_of hcur (G := anyOp)).run_eq]
    exact (reads_failIf _ _ c).unflushed
  rw [(reads_failIf _ _ c).unflushed_seq (query_failIf_of_not hcur (G := anyOp))]
  have hin : utilsCheckContainedIn fileMeta.maxSize r.offset (utilsAlign r.dataSize cfg.programUnit) ≠
      .ok () := fun hc => hf ⟨Bool.not_eq_false _ ▸ hal, Nat.not_lt.mp hcur,
        utilsCheckContainedIn_eq_ok.mp hc⟩
  cases hc : utilsCheckContainedIn fileMeta.maxSize r.offset (utilsAlign r.dataSize cfg.programUnit)
  with
  | ok _ => exact absurd hc hin
  | error e =>
    rw [unflushed_seq_error (query_ofExcept (G := anyOp) _).failAs.run_eq]
    exact (reads_ofExcept _ c).failAs.unflushed

/-- The stage of a write ends, or goes on with the data behind the mark of a replaced file. -/
theorem Starts.fileWriteStage_cases (h : Starts cfg fl₀ a s strict c) (hv : r.Valid cfg) :
    ((∃ e, (image cfg fl₀ a).writePlan cfg r = .error e) ∧ ∃ d,
      (fileWriteStage cfg r).unflushed cfg.eraseVal c fl₀ none = some d ∧ (d = none ∨ d = some s)) ∨
    ∃ t q fl₁, (image cfg fl₀ a).writeTarget cfg r = .ok t ∧
      (image cfg fl₀ a).writeReserve cfg r t = .ok q ∧
      (image cfg fl₀ a).writePlan cfg r = (if r.Fits cfg q.2.1 then
        .ok ⟨t.oldIdx, q.1, q.2.1, q.2.2⟩ else .error .genericError) ∧
      GoesOn cfg.eraseVal (fileWriteStage cfg r) c fl₀ none
        (fileWriteData cfg q.2.1 q.2.2 r.dataSize r.offset r.data >>= fun x =>
          pure ⟨t.oldIdx, q.1, x.1, x.2⟩) c fl₁ (if t.Replaces then some s else none) := by
  unfold fileWriteStage
  by_cases hflags : r.flags &&& internalFlagsMask ≠ 0
  · refine .inl ⟨⟨.invalidArgument, if_pos hflags⟩, none, ?_, .inl rfl⟩
    rw [unflushed_seq_error (query_failIf_of hflags (G := anyOp)).run_eq]
    exact (reads_failIf _ _ c).unflushed
  have hstart {k : Unit → FsM WritePlan} :
      GoesOn cfg.eraseVal (failIf (r.flags &&& internalFlagsMask ≠ 0) .invalidArgument >>= k) c fl₀
        none (k ()) c fl₀ none :=
    (reads_failIf _ _ c).goesOn (query_failIf_of_not hflags (G := anyOp))
  rw [not_not] at hflags
  have herr : ∀ {e : Status} {t : WriteTarget}, (image cfg fl₀ a).writeTarget cfg r = .error e ∨
      (image cfg fl₀ a).writeTarget cfg r = .ok t ∧
        (image cfg fl₀ a).writeReserve cfg r t = .error e →
      (image cfg fl₀ a).writePlan cfg r = .error e := by
    intro e t he
    unfold Image.writePlan
    rw [if_neg (not_not_intro hflags)]
    rcases he with he | ⟨ht, he⟩
    · rw [he]
      rfl
    · rw [ht]
      show ((image cfg fl₀ a).writeReserve cfg r t >>= _) = _
      rw [he]
      rfl
  obtain ⟨d', hd', -, hcase⟩ := (fileWriteLookup_toScratch r.fid r.flags (r.max cfg)).unflushed
    (c := c) h.scratch (.inl rfl) cfg.eraseVal fl₀
  generalize hr : (fileWriteLookup cfg r.fid r.flags (r.max cfg)).run cfg.eraseVal c fl₀ = out
  have hlook : (∃ e, (image cfg fl₀ a).writeTarget cfg r = .error e ∧ out.status = .error e) ∨
      ∃ t, (image cfg fl₀ a).writeTarget cfg r = .ok t ∧ out.status = .ok t ∧ out.ctx = c ∧
        LookedUp cfg fl₀ a s c t out.flash := by
    rw [← hr]
    exact (wp_iff.mp (h.fileWriteLookup_wp (P := fun _ => True) (Q := fun res c' fl' =>
      (∃ e, (image cfg fl₀ a).writeTarget cfg r = .error e ∧ res = .error e) ∨
        ∃ t, (image cfg fl₀ a).writeTarget cfg r = .ok t ∧ res = .ok t ∧ c' = c ∧
          LookedUp cfg fl₀ a s c t fl') (fun e he => .inl ⟨e, he, rfl⟩)
      fun t ht _ hl => .inr ⟨t, ht, rfl, rfl, hl⟩)).2
  obtain ⟨res, c₁, fl₁⟩ := out
  rcases hlook with ⟨e, he, hres⟩ | ⟨t, ht, hres, hctx, hl⟩
  · obtain rfl : res = .error e := hres
    exact .inl ⟨⟨e, herr (t := ⟨0, 0, .zero⟩) (.inl he)⟩, d',
      hstart.unflushed.trans ((unflushed_seq_error hr).trans hd'), hcase⟩
  obtain rfl : res = .ok t := hres
  obtain rfl : c = c₁ := hctx.symm
  have hgo {k : WriteTarget → FsM WritePlan} :
      GoesOn cfg.eraseVal (fileWriteLookup cfg r.fid r.flags (r.max cfg) >>= k) c fl₀ none (k t) c fl₁
        (if t.Replaces then some s else none) := goesOn_seq hr (h.fileWriteLookup_unflushed ht)
  have hq := hl.toReady.fileWriteReserve_query (r := r) (t := t) (G := anyOp)
    (fun _ _ _ _ _ _ => trivial) (h.target_lblock_lt hv.fid ht)
  have hreads : (fileWriteReserve cfg r.fid r.flags (r.max cfg) t).Reads c :=
    fileWriteReserve_reads r.fid r.flags (r.max cfg) t c
  cases hres : (image cfg fl₀ a).writeReserve cfg r t with
  | error e =>
    rw [hres] at hq
    refine .inl ⟨⟨e, herr (.inr ⟨ht, hres⟩)⟩, _, (hstart.trans hgo).unflushed.trans
      ((unflushed_seq_error hq.run_eq).trans hreads.unflushed), ?_⟩
    split_ifs
    · exact .inr rfl
    · exact .inl rfl
  | ok q =>
    rw [hres] at hq
    exact .inr ⟨t, q, fl₁, ht, hres, writePlan_ok hflags ht hres,
      (hstart.trans hgo).trans (hreads.goesOn hq)⟩

/-- The write replaces a file, and has data for a dedicated block. -/
def Image.WritesBehindMark (cfg : Config) (st : Image) (r : WriteReq) : Prop :=
  ∃ p, st.writePlan cfg r = .ok p ∧ p.Replaces cfg st r ∧ r.dataSize ≠ 0 ∧ p.fileMeta.lblock ≠ 0

/-- The stage of a write keeps the order, unless the mark of a replaced file precedes data for a
dedicated block. -/
theorem Starts.fileWriteStage_unflushed (h : Starts cfg fl₀ a s strict c) (hv : r.Valid cfg)
    (hne : cfg.numBlocks ≠ 2 → c.metaBlockHeader.scratchDblock ≠ s) :
    ((image cfg fl₀ a).WritesBehindMark cfg r ∧
      (fileWriteStage cfg r).unflushed cfg.eraseVal c fl₀ none = none) ∨
    (¬ (image cfg fl₀ a).WritesBehindMark cfg r ∧ ∃ d,
      (fileWriteStage cfg r).unflushed cfg.eraseVal c fl₀ none = some d ∧
      (((fileWriteStage cfg r).run cfg.eraseVal c fl₀).status.isOk → d = none ∨ d = some s)) := by
  unfold Image.WritesBehindMark
  rcases h.fileWriteStage_cases hv with ⟨⟨e, he⟩, d, hd, hcase⟩ | ⟨t, q, fl₁, ht, hq, hplan, hgo⟩
  · refine .inr ⟨fun ⟨p, hp, _⟩ => ?_, d, hd, fun _ => hcase⟩
    rw [he] at hp
    cases hp
  have hrep := (h.planOf hv.fid ht hq).replaces
  have hdata : ∀ {d}, (fileWriteData cfg q.2.1 q.2.2 r.dataSize r.offset r.data >>= fun x =>
      (pure ⟨t.oldIdx, q.1, x.1, x.2⟩ : FsM WritePlan)).unflushed cfg.eraseVal c fl₁ d =
        (fileWriteData cfg q.2.1 q.2.2 r.dataSize r.offset r.data).unflushed cfg.eraseVal c fl₁ d :=
    unflushed_seq_idle fun _ => idle_of_reads (reads_pure _)
  have hcur : (if t.Replaces then some s else none) = none ∨
      (if t.Replaces then some s else none) = some s := by
    split_ifs
    · exact .inr rfl
    · exact .inl rfl
  by_cases hfit : r.Fits cfg q.2.1
  · rw [if_pos hfit] at hplan
    have hsound := h.wf.writePlan_sound h.accepted h.a_le hplan
    have hiff : t.Replaces ↔ WritePlan.Replaces cfg ⟨t.oldIdx, q.1, q.2.1, q.2.2⟩ (image cfg fl₀ a) r :=
      hrep.trans (hsound.replaces_iff hv.fid).symm
    by_cases hb : t.Replaces ∧ r.dataSize ≠ 0 ∧ q.2.1.lblock ≠ 0
    · refine .inl ⟨⟨_, hplan, hiff.mp hb.1, hb.2.1, hb.2.2⟩, ?_⟩
      have hl := (hiff.mp hb.1).lblock_lt
      rw [hgo.unflushed, hdata, if_pos hb.1]
      exact fileWriteData_stuck hb.2.1 hb.2.2 hfit (hne (numBlocks_ne_two h.accepted hb.2.2 hl))
        _ _ _
    · refine .inr ⟨fun ⟨p, hp, hr, h0, hl⟩ => hb ?_, ?_⟩
      · obtain rfl := Except.ok.inj (hplan.symm.trans hp)
        exact ⟨hiff.mpr hr, h0, hl⟩
      · have hcase : r.dataSize = 0 ∨ q.2.1.lblock = 0 ∨ (if t.Replaces then some s else none) =
            none := by
          by_contra hc
          obtain ⟨h0, hc⟩ := not_or.mp hc
          obtain ⟨hl, hc⟩ := not_or.mp hc
          exact hb ⟨by_contra fun ht => hc (if_neg ht), h0, hl⟩
        have hfl : (fileWriteData cfg q.2.1 q.2.2 r.dataSize r.offset r.data >>= fun x =>
            (pure ⟨t.oldIdx, q.1, x.1, x.2⟩ : FsM WritePlan)).Flushes c
              (if t.Replaces then some s else none)
              (IfOk fun c' d' => ScratchIs s c' ∧ (d' = none ∨ d' = some s)) :=
          (fileWriteData_flushes h.scratch hcur hcase).bind_ok fun _ _ _ hp _ => hp
        obtain ⟨d, hd, hok⟩ := hfl.unflushed cfg.eraseVal fl₁
        refine ⟨d, hgo.unflushed.trans hd, fun hs => ?_⟩
        rw [hgo.run] at hs
        exact (hok hs).2
  · rw [if_neg hfit] at hplan
    refine .inr ⟨fun ⟨p, hp, _⟩ => ?_, _, ?_, fun _ => hcur⟩
    · rw [hplan] at hp
      cases hp
    · rw [hgo.unflushed, hdata]
      exact fileWriteData_unflushed hfit _ _ _

/-! ## The deletion of a replaced file -/

/-- The deletion that a write leaves moves bytes of a dedicated block: some that lie there already,
or those of the new file. -/
def Image.ReplacesApart (cfg : Config) (st : Image) (r : WriteReq) (p : WritePlan) : Prop :=
  st.DeletesApart cfg p.oldIdx ∨ ((st.files p.oldIdx).lblock ≠ 0 ∧
    p.fileMeta.lblock = (st.files p.oldIdx).lblock ∧
    (st.files p.oldIdx).dataIdx < p.fileMeta.dataIdx ∧ 0 < r.max cfg)

theorem Image.deletesApart_congr {st st' : Image} {i : Nat} (hi : i < cfg.maxNumFiles)
    (h : ∀ j, j < cfg.maxNumFiles → st'.files j = st.files j) :
    st'.DeletesApart cfg i ↔ st.DeletesApart cfg i := by
  have hbehind : ∀ j, j ∈ st'.behind cfg i ↔ j ∈ st.behind cfg i := fun j => by
    rw [mem_behind, mem_behind, h i hi]
    refine and_congr_right fun hj => ?_
    rw [h j hj]
  unfold DeletesApart
  rw [h i hi]
  refine and_congr_right fun _ => or_congr_right (exists_congr fun j => ?_)
  rw [hbehind]
  refine and_congr_right fun hj => ?_
  rw [h j (mem_behind.mp hj).1]

/-- What the first update of a replacement makes of the deletion. -/
theorem WriteStep.deletesApart_iff {st st' : Image} (h : WriteStep cfg s st r p st')
    (hp : p.Sound cfg st r) (hv : r.Valid cfg) (hrep : p.Replaces cfg st r) :
    st'.DeletesApart cfg p.oldIdx ↔ st.ReplacesApart cfg r p := by
  have hne : p.oldIdx ≠ p.newIdx := fun he => hv.fid (hrep.id.symm.trans (he ▸ hrep.free))
  have hnew : st'.files p.newIdx = p.entry r := h.files_new hp.newIdx_lt
  have hold : st'.files p.oldIdx = (st.files p.oldIdx).mark := h.files_old hrep.oldIdx_lt hne
  have hmax : p.fileMeta.maxSize = r.max cfg := by rw [hrep.fileMeta]
  have hid : p.fileMeta.id = r.fid := by rw [hrep.fileMeta]
  -- the new file lies behind the old one, or in another block
  have hbehind : ∀ j, j ∈ st'.behind cfg p.oldIdx ↔ j ∈ st.behind cfg p.oldIdx ∨ j = p.newIdx ∧
      p.fileMeta.lblock = (st.files p.oldIdx).lblock ∧
        (st.files p.oldIdx).dataIdx < p.fileMeta.dataIdx := fun j => by
    rw [Image.mem_behind, Image.mem_behind, hold]
    show j < cfg.maxNumFiles ∧ (st'.files j).lblock = (st.files p.oldIdx).lblock ∧ _ ∧
      (st'.files j).dataIdx > (st.files p.oldIdx).dataIdx ↔ _
    by_cases hj : j = p.newIdx
    · subst hj
      rw [hnew, hrep.free, WritePlan.entry_lblock, WritePlan.entry_dataIdx, WritePlan.entry_id, hid,
        validateFid_isOk, validateFid_isOk]
      have hv := hv.fid
      have hlt := hp.newIdx_lt
      tauto
    · refine (and_congr_right fun hlt => ?_).trans (or_iff_left fun hc => hj hc.1).symm
      obtain ⟨flags, hf⟩ := h.files_flags hlt hj
      rw [hf]
  have hsize : ∀ j ∈ st.behind cfg p.oldIdx, (st'.files j).maxSize = (st.files j).maxSize :=
    fun j hj => by
      obtain ⟨hlt, _, hid, _⟩ := Image.mem_behind.mp hj
      obtain ⟨flags, hf⟩ := h.files_flags hlt fun he => by
        rw [he, hrep.free, validateFid_isOk] at hid
        exact hid rfl
      rw [hf]
  unfold Image.ReplacesApart Image.DeletesApart
  rw [hold]
  show (st.files p.oldIdx).lblock ≠ 0 ∧ (0 < (st.files p.oldIdx).dataIdx ∨ _) ↔ _
  rw [← and_or_left, or_assoc]
  refine and_congr_right fun _ => or_congr_right ?_
  constructor
  · rintro ⟨j, hj, hpos⟩
    rcases (hbehind j).mp hj with hj | ⟨rfl, hl, hd⟩
    · exact .inl ⟨j, hj, hsize j hj ▸ hpos⟩
    · rw [hnew, WritePlan.entry_maxSize, hmax] at hpos
      exact .inr ⟨hl, hd, hpos⟩
  · rintro (⟨j, hj, hpos⟩ | ⟨hl, hd, hpos⟩)
    · exact ⟨j, (hbehind j).mpr (.inl hj), (hsize j hj).symm ▸ hpos⟩
    · refine ⟨p.newIdx, (hbehind _).mpr (.inr ⟨rfl, hl, hd⟩), ?_⟩
      rw [hnew, WritePlan.entry_maxSize, hmax]
      exact hpos

/-- The write replaces a file, and has data for a dedicated block or leaves a deletion that moves
bytes of one. -/
def Image.WritesApart (cfg : Config) (st : Image) (r : WriteReq) : Prop :=
  ∃ p, st.writePlan cfg r = .ok p ∧ p.Replaces cfg st r ∧
    ((r.dataSize ≠ 0 ∧ p.fileMeta.lblock ≠ 0) ∨ st.ReplacesApart cfg r p)

/-- A write keeps the flush protocol, unless it replaces a file and a dedicated block is written. -/
theorem Starts.fileWrite_flushKept_iff (h : Starts cfg fl₀ a s strict c) (hb : Before cfg fl₀ a s)
    (hcl : (image cfg fl₀ a).Closed cfg) (hv : r.Valid cfg)
    (hne : cfg.numBlocks ≠ 2 → c.metaBlockHeader.scratchDblock ≠ s) :
    FlushKept cfg.eraseVal (flashFsFileWrite cfg r.fid r.flags r.maxSize r.dataSize r.offset r.data)
      c fl₀ ↔ ¬ (image cfg fl₀ a).WritesApart cfg r := by
  have hstage := h.fileWriteStage_unflushed hv hne
  unfold Image.WritesBehindMark at hstage
  unfold Image.WritesApart
  rw [fileWrite_eq]
  cases hplan : (image cfg fl₀ a).writePlan cfg r with
  | error e =>
    rw [hplan] at hstage
    refine iff_of_true ?_ fun ⟨p, hp, _⟩ => by cases hp
    obtain ⟨_, d, hd, _⟩ := hstage.resolve_left fun ⟨⟨p, hp, _⟩, _⟩ => by cases hp
    have hres := (wp_iff.mp (h.fileWriteStage_wp (P := fun _ => True) hv.inRange)).2
    unfold WriteStageResult at hres
    rw [hplan] at hres
    generalize hr : (fileWriteStage cfg r).run cfg.eraseVal c fl₀ = out at hres
    obtain ⟨res, c', fl'⟩ := out
    obtain rfl : res = .error e := hres.1
    exact flushKept_seq_error hr hd
  | ok p =>
    rw [hplan] at hstage
    obtain ⟨x, c₁, fl₁, fl₂, hx, -, hst⟩ := h.writeStages hb hv hplan
    have hsound := h.wf.writePlan_sound h.accepted h.a_le hplan
    have hiff := hsound.replaces_iff hv.fid
    have hplans : ∀ p', (Except.ok p : Except Status WritePlan) = .ok p' → p' = p := fun p' hp' =>
      (Except.ok.inj hp').symm
    rcases hstage with ⟨⟨p', hp', hrep, h0, hl⟩, hd⟩ | ⟨hn, d, hd, hcase⟩
    · obtain rfl := hplans p' hp'
      exact iff_of_false (not_flushKept (unflushed_stuck hd))
        (not_not_intro ⟨p', rfl, hrep, .inl ⟨h0, hl⟩⟩)
    have hd₁ : d = none ∨ d = some s := hcase (by rw [hst.stage_run]; rfl)
    have hcomplete : ToScratch s (fileWriteComplete cfg r x) := fileWriteMeta_toScratch _ _ _ _ _
    obtain ⟨d₂, hd₂, -, hcase₂⟩ := hcomplete.unflushed hst.scratch₁ hd₁ cfg.eraseVal fl₁
    have hcommit : (flashFsMblockMetaUpdateFinalize cfg).Flushes c₁ d₂ AllFlushed :=
      metaUpdateFinalize_flushes hst.scratch₁ (hcase₂.elim (fun he => he ▸ hd₁) .inr)
    obtain ⟨d₃, hd₃, hok₃⟩ := hcommit.unflushed cfg.eraseVal fl₂
    have hfin : (flashFsMblockMetaUpdateFinalize cfg).run cfg.eraseVal c₁ fl₂ =
        ⟨.ok (), ⟨nextHeader cfg fl₂ s c₁.metaBlockHeader, s, a⟩,
          committed cfg fl₂ a s (nextHeader cfg fl₂ s c₁.metaBlockHeader)⟩ := by
      have hrun := hst.update_run
      rwa [run_bind_ok (congrArg Outcome.status hst.stage_run), hst.stage_run,
        run_bind_ok (congrArg Outcome.status hst.complete_run), hst.complete_run] at hrun
    obtain rfl : d₃ = none := hok₃ (by rw [hfin]; rfl)
    -- the first update is flushed; what follows deletes a replaced file
    have hgo := (goesOn_seq (f := fun x => fileWriteComplete cfg r x >>= fun _ =>
      flashFsMblockMetaUpdateFinalize cfg >>= fun _ => fileWriteReplace cfg x) hst.stage_run hd).trans
      ((goesOn_seq hst.complete_run hd₂).trans (goesOn_seq hfin hd₃))
    unfold fileWriteReplace at hgo
    rw [hx] at hgo
    dsimp only at hgo
    have hu : Updated cfg fl₀ a s (WriteOf cfg s (image cfg fl₀ a) r)
        ⟨nextHeader cfg fl₂ s c₁.metaBlockHeader, s, a⟩
        (committed cfg fl₂ a s (nextHeader cfg fl₂ s c₁.metaBlockHeader)) :=
      ⟨fl₂, _, hst.staged, rfl, rfl⟩
    split_ifs at hgo with hrep
    · have hk := hiff.mpr hrep
      obtain ⟨hm, _, _, st', hof, hsame⟩ := hu.mounted h.accepted h.a_le hb.other
        fun st' ⟨p', hp', hst'⟩ =>
          hst'.wf (h.wf.writePlan_sound h.accepted h.a_le hp') h.wf hv h.accepted
      obtain ⟨-, hpend⟩ := hu.starts_delete h hb.other hcl hv hplan hk
      have hstep := (WriteStep.plan_eq hplan hof).deletesApart_iff hsound hv hk
      refine (hm.scannable.flushKept_iff hgo hpend.lt hpend.valid).trans ?_
      rw [Image.deletesApart_congr hk.oldIdx_lt hsame.files, hstep]
      refine not_congr ⟨fun hr => ⟨p, rfl, hk, .inr hr⟩, ?_⟩
      rintro ⟨p', hp', hrep', hcase'⟩
      obtain rfl := hplans p' hp'
      exact hcase'.resolve_left fun hb => hn ⟨p', rfl, hrep', hb⟩
    · refine iff_of_true (hgo.flushKept ?_) fun ⟨p', hp', hrep', _⟩ => ?_
      · exact fun _ => rfl
      · obtain rfl := hplans p' hp'
        exact hrep (hiff.mp hrep')

end Etss
