import TfmExtras.Etss.Inside

/-! What the tables have to satisfy, besides the checks, for the file operations to stay inside the
blocks and for their computations not to wrap. -/

namespace Etss
open NorFlash NorFlash.Flash FlashM

variable {cfg : Config} {s : Ctx × List Calc} {fl : Flash} {d : Nat}

/-- None of the computations wraps. -/
def AllExact (xs : List Calc) : Prop := ∀ x ∈ xs, x.Exact

theorem AllExact.nil : AllExact [] := fun _ hx => nomatch hx

theorem AllExact.cons {x : Calc} {xs : List Calc} (h : x.Exact) (h' : AllExact xs) :
    AllExact (x :: xs) := List.forall_mem_cons.mpr ⟨h, h'⟩

theorem AllExact.append {xs ys : List Calc} (h : AllExact xs) (h' : AllExact ys) :
    AllExact (xs ++ ys) := fun x hx => (List.mem_append.mp hx).elim (h x) (h' x)

/-- A state in which nothing has wrapped, with its scratch blocks in the area. -/
structure Sane (cfg : Config) (s : Ctx × List Calc) : Prop where
  placed : s.1.Placed cfg
  exact : AllExact s.2

theorem Sane.note (h : Sane cfg s) {xs : List Calc} (hx : AllExact xs) :
    Sane cfg (s.1, s.2 ++ xs) := ⟨h.placed, h.exact.append hx⟩

/-- The scratch block of a logical block is that of the context. -/
theorem curScratch_bind_within {β : Type} {A : Op → Prop} {l : Nat}
    {k : Nat → CalcM β} {Q : Except Status β → Ctx × List Calc → Prop}
    (h : (k (s.1.scratchId l)).Within A s Q) :
    (silent (flashFsMblockCurDataScratchId l) >>= k).Within A s Q := h

section
variable (hacc : cfg.Accepted) (hval : cfg.validateMetadata = true) (h : Sane cfg s)
include hacc hval h

/-! ## Data blocks -/

theorem migrateNoted_within : (migrateLb0DataToScratchNoted cfg).Within (InBlock cfg) s
    fun _ s' => s'.1 = s.1 ∧ Sane cfg s' := by
  unfold migrateLb0DataToScratchNoted
  refine silent_bind_within (readBlock_within hacc h.placed hval hacc.numActive_pos) ?_ ?_
  · rintro m _ ⟨rfl, hm⟩
    have hle := (hm m rfl).le
    have hbs := cfg.blockSize_lt
    refine note_bind_within ?_
    rw [sub32_eq hbs (by omega)]
    dsimp only
    rw [sub32_eq (by omega) (by omega)]
    have hx : AllExact [.sub cfg.blockSize m.dataStart,
        .sub (cfg.blockSize - m.dataStart) m.freeSize] :=
      .cons ((Nat.le_add_right _ _).trans hle) (.cons (Nat.le_sub_of_add_le' hle) .nil)
    refine silent_get_bind_within (within_silent ?_)
    refine Passes.within (move_passes (h.placed.scratch_lt hacc) (h.placed.active_lt hacc) ?_ ?_)
      fun _ => ⟨rfl, h.note hx⟩ <;> omega
  · rintro e _ ⟨rfl, -⟩
    exact ⟨rfl, h⟩

/-- What is known of an entry that is written to, and of the block that it is in. -/
structure WritesInside (cfg : Config) (m : BlockMeta) (f : FileMeta) (offset size : Nat) : Prop where
  lblock_lt : f.lblock < numActiveDblocks cfg
  placed : m.Placed cfg
  start_le : m.dataStart ≤ f.dataIdx + offset
  le_max : offset + size ≤ f.maxSize
  le : f.dataIdx + f.maxSize + m.freeSize ≤ cfg.blockSize

omit hval in
theorem dblockWriteFileNoted_within {m : BlockMeta} {f : FileMeta} {offset size : Nat}
    (hw : WritesInside cfg m f offset size) (data : Nat → UInt8) :
    (dblockWriteFileNoted cfg m f offset size data).Within (InBlock cfg) s
      fun _ s' => s'.1 = s.1 ∧ Sane cfg s' := by
  obtain ⟨hl, hm, hstart, hmax, hle⟩ := hw
  have hbs := cfg.blockSize_lt
  have hstage := h.placed.scratchId_lt hacc hl
  unfold dblockWriteFileNoted
  rw [add32_eq (by omega), add32_eq (by omega)]
  dsimp only
  rw [sub32_eq (by omega) (by omega), sub32_eq hbs (by omega), sub32_eq (by omega) (by omega)]
  have hx : AllExact [.add f.dataIdx offset, .sub (f.dataIdx + offset) m.dataStart] :=
    .cons (show f.dataIdx + offset < 2 ^ 32 by omega) (.cons hstart .nil)
  have hy : AllExact [.add f.dataIdx f.maxSize, .sub cfg.blockSize m.freeSize,
      .sub (cfg.blockSize - m.freeSize) (f.dataIdx + f.maxSize)] :=
    .cons (show f.dataIdx + f.maxSize < 2 ^ 32 by omega)
      (.cons (show m.freeSize ≤ cfg.blockSize by omega) (.cons (Nat.le_sub_of_add_le hle) .nil))
  refine curScratch_bind_within (note_bind_within ?_)
  refine silent_passes_bind (move_passes hstage hm.phyId_lt (by omega) (by omega)) fun _ => ?_
  refine silent_passes_bind (passes_issue ⟨hstage, ?_⟩) fun _ => note_bind_within ?_
  · rw [List.length_map, List.length_range]
    omega
  refine silent_passes_bind (move_passes hstage hm.phyId_lt (by omega) (by omega)) fun _ => ?_
  refine within_silent (Passes.within ?_ fun _ => ⟨rfl, (h.note hx).note hy⟩)
  exact .ite (fun _ => issue_bind_within hstage fun _ _ => passes_pure ()) fun _ => passes_pure ()

omit hval in
/-- The data of a write leaves the blocks only when the entry does not lie in the used part of its
block. -/
theorem fileWriteDataNoted_within {m : BlockMeta} {f : FileMeta} {dataSize offset : Nat}
    (hl : f.lblock < numActiveDblocks cfg) (hm : m.Placed cfg)
    (hfit : dataSize ≠ 0 → utilsIsAligned offset cfg.programUnit = true → offset ≤ f.curSize →
      offset + utilsAlign dataSize cfg.programUnit ≤ f.maxSize →
      m.dataStart ≤ f.dataIdx + offset ∧ f.dataIdx + f.maxSize + m.freeSize ≤ cfg.blockSize)
    (data : Nat → UInt8) :
    (fileWriteDataNoted cfg f m dataSize offset data).Within (InBlock cfg) s
      fun r s' => Sane cfg s' ∧ ∀ q, r = .ok q → q.1.lblock = f.lblock := by
  unfold fileWriteDataNoted
  refine .ite (fun h0 => ?_) fun _ => within_pure ⟨h, fun q hq => by cases hq; rfl⟩
  have hdata : (fileWriteAlignedDataNoted cfg m f offset dataSize data).Within (InBlock cfg) s
      fun _ s' => s'.1 = s.1 ∧ Sane cfg s' := by
    unfold fileWriteAlignedDataNoted
    refine silent_failIf_bind (fun hal => ?_) ⟨rfl, h⟩
    refine silent_failIf_bind (fun hoff => ?_) ⟨rfl, h⟩
    refine silent_checkAs_bind (fun _ hin => ?_) ⟨rfl, h⟩
    have hmax := utilsCheckContainedIn_eq_ok.mp hin
    obtain ⟨hstart, hle⟩ := hfit h0 (Bool.not_eq_false _ ▸ hal) (Nat.not_lt.mp hoff) hmax
    exact dblockWriteFileNoted_within hacc h ⟨hl, hm, hstart, hmax, hle⟩ data
  have hdata' : ((fileWriteAlignedDataNoted cfg m f offset dataSize data).failAs
      .genericError).Within (InBlock cfg) s fun _ s' => s'.1 = s.1 ∧ Sane cfg s' :=
    hdata.failAs (fun _ _ => id) fun _ _ => id
  refine Within.bind hdata' ?_ fun e s' hs' => ⟨hs'.2, fun q hq => by cases hq⟩
  rintro _ ⟨c', xs⟩ ⟨rfl, hs'⟩
  -- the size of the entry may grow, its block stays
  have hlb : (if add32 offset dataSize > f.curSize then
      { f with curSize := add32 offset dataSize } else f).lblock = f.lblock := by
    split_ifs <;> rfl
  refine within_silent (get_bind_within ?_)
  dsimp only
  refine setDataScratch_bind_within (within_pure
    ⟨⟨hs'.placed.withScratch hm.phyId_lt _, hs'.exact⟩, fun q hq => ?_⟩)
  cases hq
  exact hlb

/-! ## The metadata of a write -/

theorem fileWriteTable_stays {oldIdx newIdx : Nat} {f : FileMeta} (m : BlockMeta)
    (hl : f.lblock < numActiveDblocks cfg) (hn : newIdx < cfg.maxNumFiles)
    (ho : oldIdx = metadataInvalidIndex ∨ oldIdx < cfg.maxNumFiles) :
    (fileWriteTable cfg oldIdx newIdx f m).Stays (InBlock cfg) s.1 := by
  have hc := h.placed
  have hmax := cfg.maxNumFiles_lt
  have hinv : metadataInvalidIndex = 65535 := rfl
  unfold fileWriteTable
  refine Stays.bind (updateScratchBlockMeta_stays hacc hc hval hl m).failAs (fun _ => ?_)
    fun _ => rfl
  refine Passes.bind (writeFile_passes hacc hc hn f).failAs fun _ => ?_
  refine Passes.bind (cpFileMeta_passes hacc hc (Nat.zero_le _) (by omega)).failAs fun _ => ?_
  refine .ite (fun htwo => ?_) fun htwo => ?_
  · refine Passes.bind (cpFileMeta_passes hacc hc (by omega) (by omega)).failAs fun _ => ?_
    exact (cpFileMeta_passes hacc hc (by omega) le_rfl).failAs.stays
  · exact (cpFileMeta_passes hacc hc (by omega) le_rfl).failAs.stays

theorem fileWriteMetaNoted_within {oldIdx newIdx : Nat} {f : FileMeta} (m : BlockMeta)
    (dataSize : Nat) (hl : f.lblock < numActiveDblocks cfg) (hn : newIdx < cfg.maxNumFiles)
    (ho : oldIdx = metadataInvalidIndex ∨ oldIdx < cfg.maxNumFiles) :
    (fileWriteMetaNoted cfg oldIdx newIdx f m dataSize).Within (InBlock cfg) s
      fun _ s' => Sane cfg s' := by
  unfold fileWriteMetaNoted
  refine silent_stays_bind (fileWriteTable_stays hacc hval h m hl hn ho) (fun _ => ?_) fun _ => h
  refine .ite (fun _ => ?_) fun _ => within_pure h
  exact (migrateNoted_within hacc hval h).failAs (fun _ _ hs => hs.2) fun _ _ hs => hs.2

/-! ## Reserving space -/

/-- A new entry lies at the end of the used part of its block. -/
structure Reserved (cfg : Config) (q : FileMeta × BlockMeta) : Prop where
  lblock_lt : q.1.lblock < numActiveDblocks cfg
  placed : q.2.Placed cfg
  start_le : q.2.dataStart ≤ q.1.dataIdx
  le : q.1.dataIdx + q.1.maxSize + q.2.freeSize ≤ cfg.blockSize

theorem reserveLoopNoted_within (fid : Fid) (size flags : Nat) {n i : Nat}
    (hi : i + n ≤ numActiveDblocks cfg) :
    (mblockReserveFileLoopNoted cfg fid size flags n i).Within (InBlock cfg) s
      fun r s' => s'.1 = s.1 ∧ Sane cfg s' ∧ ∀ q, r = .ok q → Reserved cfg q := by
  have hbs := cfg.blockSize_lt
  induction n generalizing i with
  | zero => exact within_silent (within_fail ⟨rfl, h, fun _ => of_error_eq_ok⟩)
  | succ n ih =>
    unfold mblockReserveFileLoopNoted
    have hread : ((flashFsMblockReadBlockMetadata cfg i).failAs .genericError).Within (InBlock cfg)
        s.1 fun r c' => c' = s.1 ∧ ∀ m, r = .ok m → m.Placed cfg :=
      (readBlock_within hacc h.placed hval (by omega)).failAs (fun _ _ => id)
        fun _ _ hr => ⟨hr.1, fun _ => of_error_eq_ok⟩
    refine silent_bind_within hread ?_ fun e c' hc' => ?_
    · rintro m _ ⟨rfl, hm⟩
      have hle := (hm m rfl).le
      refine .ite (fun hsize => note_bind_within ?_) fun _ => ih (by omega)
      rw [sub32_eq hbs (by omega)]
      refine within_pure ⟨rfl, h.note (.cons ?_ (.cons hsize .nil)), fun q hq => ?_⟩
      · exact (Nat.le_add_left _ _).trans hle
      · cases hq
        refine ⟨by dsimp only; omega, ⟨(hm m rfl).phyId_lt, ?_⟩, ?_, ?_⟩ <;> dsimp only <;> omega
    · obtain ⟨rfl, -⟩ := hc'
      exact ⟨rfl, h, fun _ => of_error_eq_ok⟩

theorem reserveFileNoted_within (fid : Fid) (useSpare : Bool) (size flags : Nat) :
    (mblockReserveFileNoted cfg fid useSpare size flags).Within (InBlock cfg) s
      fun r s' => s'.1 = s.1 ∧ Sane cfg s' ∧
        ∀ q, r = .ok q → q.1 < cfg.maxNumFiles ∧ Reserved cfg q.2 := by
  unfold mblockReserveFileNoted
  have hloop := reserveLoopNoted_within hacc hval h fid size flags (i := 0)
    (show 0 + numActiveDblocks cfg ≤ _ by omega)
  refine Within.bind (Q := fun r s' => s'.1 = s.1 ∧ Sane cfg s' ∧
    ∃ r', r = .ok r' ∧ ∀ q, r' = .ok q → Reserved cfg q)
    (hloop.attempt fun r _ hr => ⟨hr.1, hr.2.1, r, rfl, hr.2.2⟩) ?_ ?_
  · rintro r ⟨c', xs⟩ ⟨rfl, h', err, he, hres⟩
    obtain rfl : r = err := Except.ok.inj he
    refine silent_bind_within (getFreeFileIndexLoop_within hacc h.placed
      (show 0 + cfg.maxNumFiles ≤ _ by omega) useSpare) ?_ ?_
    · rintro k _ ⟨rfl, hk⟩
      refine within_silent ?_
      cases r with
      | error e => exact within_fail ⟨rfl, h', fun _ => of_error_eq_ok⟩
      | ok q =>
        refine .ite (fun _ => within_fail ⟨rfl, h', fun _ => of_error_eq_ok⟩) fun hidx => within_pure ⟨rfl, h', ?_⟩
        intro q' hq'
        cases hq'
        exact ⟨(hk k rfl).resolve_left hidx, hres q rfl⟩
    · rintro e _ ⟨rfl, -⟩
      exact ⟨rfl, h', fun _ => of_error_eq_ok⟩
  · rintro e s' ⟨-, -, r', hr', -⟩
    cases hr'

/-! ## Compacting a block -/

/-- The block entry is written, and the scratch block given back when that fails. -/
theorem compactFinish_within {l scratchId : Nat} (m : BlockMeta) (hl : l < numActiveDblocks cfg)
    (hs : scratchId < cfg.numBlocks) : Within (InBlock cfg) (silent do
      match ← (flashFsMblockUpdateScratchBlockMeta cfg l m).attempt with
      | .error e => do
        flashFsMblockSetDataScratch scratchId l
        fail e
      | .ok () =>
        if l ≠ logicalDblock0 then do
          let _ ← opsFlush scratchId
          pure ()
        else pure () : CalcM Unit) s fun _ s' => Sane cfg s' := by
  refine within_silent ?_
  refine Stays.bind (updateScratchBlockMeta_stays hacc h.placed hval hl m).attempt (fun r => ?_)
    fun _ => h
  cases r with
  | error e =>
    exact setDataScratch_bind_within (within_fail ⟨h.placed.withScratch hs l, h.exact⟩)
  | ok _ =>
    exact .ite (fun _ => issue_bind_within hs fun _ _ => within_pure h) fun _ => within_pure h

theorem compactNoted_wp {l freeSize srcOffset dstOffset size : Nat}
    (hl : l < numActiveDblocks cfg) (hdst : dstOffset ≤ cfg.blockSize)
    (hfit : ∀ m, checkBlock cfg ((image cfg fl s.1.activeMetablock).blocks l) = .ok m →
      m.freeSize + freeSize < 2 ^ 32 ∧
        (0 < size → srcOffset + size ≤ cfg.blockSize ∧ dstOffset + size ≤ cfg.blockSize)) :
    (dblockCompactBlockNoted cfg l freeSize srcOffset dstOffset size).wp cfg.eraseVal
      (fun _ o => InBlock cfg o) s fl fun _ s' _ => Sane cfg s' := by
  have hstage := h.placed.scratchId_lt hacc hl
  unfold dblockCompactBlockNoted
  refine silent_query_bind (readBlockMetadata_query (fun _ _ _ _ hb ho => ⟨hb, ho⟩) hacc
    (h.placed.active_lt hacc) hl) (fun m hm => ?_) fun _ _ => h
  obtain ⟨hfree, hsize⟩ := hfit m hm
  obtain ⟨rfl, hplaced⟩ := checkBlock_ok hval hm
  generalize (image cfg fl s.1.activeMetablock).blocks l = m at hfree hplaced
  refine Within.wp (note_bind_within ?_) cfg.eraseVal fl
  have h₁ : Sane cfg (s.1, s.2 ++ [.add m.freeSize freeSize]) := h.note (.cons hfree .nil)
  generalize s.2 ++ [Calc.add m.freeSize freeSize] = xs at h₁
  refine curScratch_bind_within ?_
  dsimp only
  have hend : ∀ ys, Sane cfg (s.1, ys) → ∀ k : Unit → CalcM Unit,
      (∀ s', Sane cfg s' → (k ()).Within (InBlock cfg) s' fun _ s' => Sane cfg s') →
      (silent (flashFsMblockSetDataScratch m.phyId l) >>= k).Within (InBlock cfg) (s.1, ys)
        fun _ s' => Sane cfg s' := fun ys hys k hk => by
    refine silent_bind_within (setDataScratch_within (c := s.1)) ?_ fun _ _ hc' =>
      of_error_eq_ok hc'.1
    rintro _ _ ⟨-, rfl⟩
    exact hk _ ⟨hys.placed.withScratch hplaced.phyId_lt l, hys.exact⟩
  refine silent_ite_bind (fun hpos => Passes.failAs ?_) ?_
  · obtain ⟨hsrc, hdst'⟩ := hsize hpos
    exact move_passes hstage hplaced.phyId_lt hdst' hsrc
  refine .ite (fun hgt => note_bind_within ?_) fun _ => ?_
  · refine silent_passes_bind (Passes.failAs ?_) fun _ => ?_
    · exact move_passes hstage hplaced.phyId_lt (by omega) (by omega)
    · have hx : (Calc.sub dstOffset m.dataStart).Exact := hgt.le
      exact hend _ (h₁.note (.cons hx .nil)) _ fun s' hs' =>
        compactFinish_within hacc hval hs' _ hl hstage
  · exact hend _ h₁ _ fun s' hs' => compactFinish_within hacc hval hs' _ hl hstage

end

end Etss
