import TfmExtras.Etss.Reads

/-! Building the next state of the filesystem in the scratch blocks: the writes that are let
through, and what the functions that copy and write metadata leave there. -/

namespace Etss
open NorFlash NorFlash.Flash FlashM

/-- A scratch block: the scratch metadata block behind its header, or the scratch data block. -/
def ScratchTarget (cfg : Config) (s sd b off : Nat) : Prop :=
  (b = s ∧ blockMetaHeaderSize ≤ off) ∨ (cfg.numBlocks ≠ 2 ∧ b = sd)

/-- `n` bytes may be programmed at an offset of a scratch block. In the strict mode the cells
have to be erased. -/
structure MayWrite (cfg : Config) (s sd : Nat) (strict : Prop) (fl : Flash) (b off n : Nat) :
    Prop where
  target : ScratchTarget cfg s sd b off
  block_lt : b < cfg.numBlocks
  le : off + n ≤ cfg.blockSize
  aligned : cfg.Aligned → cfg.programUnit ∣ off ∧ cfg.programUnit ∣ n
  erased : strict → Clean (range b off (off + n)) fl

/-- The operations that prepare an update: reads anywhere, writes to the scratch blocks. -/
def StageOp (cfg : Config) (s sd : Nat) (strict : Prop) : Prog.Guard := fun fl o =>
  match o with
  | .read b off n => b < cfg.numBlocks ∧ off + n ≤ cfg.blockSize
  | .write b off data => MayWrite cfg s sd strict fl b off data.length
  | .flush b => b < cfg.numBlocks
  | _ => False

variable {cfg : Config} {s sd : Nat} {strict : Prop} {c : Ctx} {fl : Flash}

theorem allowsReads_stageOp : AllowsReads cfg (StageOp cfg s sd strict) :=
  fun _ _ _ _ hb ho => ⟨hb, ho⟩

theorem opsWrite_ok {b off : Nat} {buf : List UInt8}
    (h : MayWrite cfg s sd strict fl b off buf.length) :
    (opsWrite b buf off).Ok cfg.eraseVal (StageOp cfg s sd strict) c fl fun _ c' fl' =>
      c' = c ∧ fl' = fl.write b off buf :=
  ok_issue h ⟨rfl, rfl⟩

theorem opsFlush_ok {b : Nat} (h : b < cfg.numBlocks) :
    (opsFlush b).Ok cfg.eraseVal (StageOp cfg s sd strict) c fl fun _ c' fl' =>
      c' = c ∧ fl' = fl :=
  ok_issue h ⟨rfl, rfl⟩

/-- Permission after a change elsewhere. -/
theorem MayWrite.frame {b off n : Nat} {fl' : Flash} {W : Region}
    (h : MayWrite cfg s sd strict fl b off n) (hf : OnlyIn W fl fl')
    (hd : ∀ o, off ≤ o → o < off + n → ¬ W b o) : MayWrite cfg s sd strict fl' b off n where
  target := h.target
  block_lt := h.block_lt
  le := h.le
  aligned := h.aligned
  erased hs := hf.clean (h.erased hs) fun b' o hw => by
    obtain ⟨rfl, h₁, h₂⟩ := hw
    exact hd o h₁ h₂

/-! ## Copying between blocks -/

theorem MayWrite.head {b off n k : Nat} (h : MayWrite cfg s sd strict fl b off n) (hk : k ≤ n)
    (hd : cfg.Aligned → cfg.programUnit ∣ k) : MayWrite cfg s sd strict fl b off k where
  target := h.target
  block_lt := h.block_lt
  le := by have := h.le; omega
  aligned ha := ⟨(h.aligned ha).1, hd ha⟩
  erased hs := (h.erased hs).mono fun b' o hw => ⟨hw.1, hw.2.1, by have := hw.2.2; omega⟩

theorem MayWrite.tail {b off n k : Nat} {fl' : Flash} (h : MayWrite cfg s sd strict fl b off n)
    (hk : k ≤ n) (hd : cfg.Aligned → cfg.programUnit ∣ k)
    (hf : OnlyIn (range b off (off + k)) fl fl') :
    MayWrite cfg s sd strict fl' b (off + k) (n - k) where
  target := h.target.imp (fun ht => ⟨ht.1, le_trans ht.2 (Nat.le_add_right _ _)⟩) id
  block_lt := h.block_lt
  le := by have := h.le; omega
  aligned ha := ⟨Nat.dvd_add (h.aligned ha).1 (hd ha), Nat.dvd_sub (h.aligned ha).2 (hd ha)⟩
  erased hs := hf.clean
    ((h.erased hs).mono fun b' o hw => ⟨hw.1, by have := hw.2.1; omega, by have := hw.2.2; omega⟩)
    fun b' o hw hw' => by have := hw.2.1; have := hw'.2.2; omega

/-- What a move leaves: the bytes of the source at the destination, and nothing else changed. -/
structure Moved (ev : UInt8) (fl fl' : Flash) (dst dstOffset src srcOffset n : Nat) : Prop where
  only : OnlyIn (range dst dstOffset (dstOffset + n)) fl fl'
  same : ∀ i < n, fl'.byte ev dst (dstOffset + i) = fl.byte ev src (srcOffset + i)

/-- A move under any guard that lets its writes through. `P` permits the rest of it, by the offset
and the number of bytes. -/
theorem moveLoop_ok {G : Prog.Guard} {P : Flash → Nat → Nat → Prop} {dst src : Nat}
    (hG : AllowsReads cfg G) (hne : dst ≠ src) (hsrc : src < cfg.numBlocks)
    (hle : ∀ fl off n, P fl off n → off + n ≤ cfg.blockSize)
    (hP : ∀ fl off n data, P fl off n → 0 < n → data.length = min n maxBlockDataCopy →
      G fl (.write dst off data) ∧ P (fl.write dst off data) (off + data.length) (n - data.length))
    (fuel : Nat) : ∀ {fl : Flash} {dstOffset srcOffset n : Nat}, n ≤ fuel → P fl dstOffset n →
    srcOffset + n ≤ cfg.blockSize →
    (blockToBlockMoveLoop dst src fuel dstOffset srcOffset n).Ok cfg.eraseVal G c fl
      fun _ c' fl' => c' = c ∧ Moved cfg.eraseVal fl fl' dst dstOffset src srcOffset n := by
  have hbs := cfg.blockSize_lt
  induction fuel with
  | zero =>
    intro fl dstOffset srcOffset n hn _ _
    obtain rfl : n = 0 := Nat.le_zero.mp hn
    exact ok_pure ⟨rfl, .refl _ _, fun i hi => absurd hi (Nat.not_lt_zero i)⟩
  | succ fuel ih =>
    intro fl dstOffset srcOffset n hn hw hr
    unfold blockToBlockMoveLoop
    by_cases h0 : n = 0
    · rw [if_pos h0]
      exact ok_pure ⟨rfl, .refl _ _, fun i hi => absurd hi (by omega)⟩
    rw [if_neg h0]
    have hend := hle _ _ _ hw
    set k := min n maxBlockDataCopy with hk
    have hkn : k ≤ n := min_le_left _ _
    have hk0 : 0 < k := lt_min (Nat.pos_of_ne_zero h0) (by decide)
    refine (opsRead_query hG hsrc (by omega)).seq_wp ?_
    have hlen : (fl.read cfg.eraseVal src srcOffset k).length = k := read_length _ _ _ _ _
    obtain ⟨hwrite, hrest⟩ := hP fl dstOffset n _ hw (Nat.pos_of_ne_zero h0) hlen
    rw [hlen] at hrest
    refine Ok.bind (ok_issue (R := fun _ c' fl' => c' = c ∧
      fl' = fl.write dst dstOffset (fl.read cfg.eraseVal src srcOffset k)) hwrite ⟨rfl, rfl⟩) ?_
    rintro _ _ _ ⟨rfl, rfl⟩
    have hwr := onlyIn_write fl dst dstOffset (fl.read cfg.eraseVal src srcOffset k)
    rw [hlen] at hwr
    rw [add32_eq (by omega), add32_eq (by omega)]
    refine (ih (by omega) hrest (by omega)).mono ?_
    rintro _ _ fl' ⟨rfl, hm⟩
    refine ⟨rfl, ?_, fun i hi => ?_⟩
    · refine (hwr.mono ?_).trans (hm.only.mono ?_)
      · rintro b o ⟨rfl, h₁, h₂⟩
        exact ⟨rfl, h₁, by omega⟩
      · rintro b o ⟨rfl, h₁, h₂⟩
        exact ⟨rfl, by omega, by omega⟩
    · by_cases hik : i < k
      · rw [hm.only.byte (fun h => by have := h.2.1; omega), byte, cell_write, hlen,
          if_pos ⟨rfl, by omega, by omega⟩, Nat.add_sub_cancel_left, Option.getD_some,
          read_getD fl _ hik]
      · have hs := hm.same (i - k) (by omega)
        rw [show dstOffset + k + (i - k) = dstOffset + i by omega,
          show srcOffset + k + (i - k) = srcOffset + i by omega] at hs
        rw [hs]
        exact hwr.byte fun h => hne h.1.symm

/-- The next chunk may be written, and the rest of the move after it. -/
theorem MayWrite.chunk {b off n : Nat} {data : List UInt8}
    (h : MayWrite cfg s sd strict fl b off n) (hlen : data.length = min n maxBlockDataCopy) :
    StageOp cfg s sd strict fl (.write b off data) ∧
      MayWrite cfg s sd strict (fl.write b off data) b (off + data.length) (n - data.length) := by
  have hle : data.length ≤ n := hlen.trans_le (min_le_left _ _)
  have hdvd : cfg.Aligned → cfg.programUnit ∣ data.length := by
    intro ha
    rcases min_choice n maxBlockDataCopy with hm | hm <;> rw [hlen, hm]
    · exact (h.aligned ha).2
    · exact ha.2.2.2.2
  exact ⟨h.head hle hdvd, h.tail hle hdvd (onlyIn_write fl b off data)⟩

/-- A move copies the bytes, for any size that fits both blocks. -/
theorem blockToBlockMove_ok {dst dstOffset src srcOffset n : Nat}
    (hw : MayWrite cfg s sd strict fl dst dstOffset n) (hne : dst ≠ src)
    (hsrc : src < cfg.numBlocks) (hr : srcOffset + n ≤ cfg.blockSize) :
    (flashFsBlockToBlockMove dst dstOffset src srcOffset n).Ok cfg.eraseVal
      (StageOp cfg s sd strict) c fl fun _ c' fl' =>
        c' = c ∧ Moved cfg.eraseVal fl fl' dst dstOffset src srcOffset n :=
  moveLoop_ok (P := fun fl off n => MayWrite cfg s sd strict fl dst off n) allowsReads_stageOp hne
    hsrc (fun _ _ _ h => h.le) (fun _ _ _ _ h _ hlen => h.chunk hlen) n le_rfl hw hr

/-! ## The state an update starts from -/

/-- The cells that an update may change before it is committed. -/
def stageRegion (cfg : Config) (s sd : Nat) : Region := fun b o => ScratchTarget cfg s sd b o

/-- The context of an update of the filesystem in metadata block `a` of `fl₀`: only the scratch
blocks have changed since. -/
structure Ready (cfg : Config) (fl₀ : Flash) (a s : Nat) (c : Ctx) (fl : Flash) : Prop where
  accepted : cfg.Accepted
  a_le : a ≤ 1
  s_le : s ≤ 1
  ne : s ≠ a
  wf : (image cfg fl₀ a).Wf cfg a
  active : c.activeMetablock = a
  scratch : c.scratchMetablock = s
  only : OnlyIn (stageRegion cfg s (image cfg fl₀ a).header.scratchDblock) fl₀ fl

theorem image_blocks_congr {fl' : Flash} {W : Region} {a l : Nat} (h : OnlyIn W fl fl')
    (hd : ∀ o, 8 + 12 * l ≤ o → o < 8 + 12 * (l + 1) → ¬ W a o) :
    (image cfg fl' a).blocks l = (image cfg fl a).blocks l := by
  have hr : fl'.read cfg.eraseVal a (8 + 12 * l) blockMetadataSize =
      fl.read cfg.eraseVal a (8 + 12 * l) blockMetadataSize := h.read fun i hi => hd _ (by omega) (by unfold blockMetadataSize at hi; omega)
  exact congrArg BlockMeta.decode hr

theorem image_files_congr {fl' : Flash} {W : Region} {a i : Nat} (h : OnlyIn W fl fl')
    (hd : ∀ o, cfg.fileEntry i ≤ o → o < cfg.fileEntry (i + 1) → ¬ W a o) :
    (image cfg fl' a).files i = (image cfg fl a).files i := by
  have hr : fl'.read cfg.eraseVal a (cfg.fileEntry i) fileMetadataSize =
      fl.read cfg.eraseVal a (cfg.fileEntry i) fileMetadataSize := h.read fun k hk => hd _ (by omega) (by
      unfold fileMetadataSize at hk
      unfold Config.fileEntry
      omega)
  exact congrArg FileMeta.decode hr

theorem not_stageRegion {b : Nat} (hs : b ≠ s) (hsd : cfg.numBlocks ≠ 2 → b ≠ sd) (o : Nat) :
    ¬ stageRegion cfg s sd b o := by
  rintro (⟨hb, _⟩ | ⟨hn, hb⟩)
  · exact hs hb
  · exact hsd hn hb

namespace Ready
variable {fl₀ : Flash} {a : Nat} (h : Ready cfg fl₀ a s c fl)
include h

theorem active_not_region (o : Nat) :
    ¬ stageRegion cfg s (image cfg fl₀ a).header.scratchDblock a o :=
  not_stageRegion h.ne.symm (fun hn => by
    have := (h.wf.scratch hn).1
    have := h.a_le
    omega) o

theorem blocks_eq (l : Nat) : (image cfg fl a).blocks l = (image cfg fl₀ a).blocks l :=
  image_blocks_congr h.only fun o _ _ => h.active_not_region o

theorem files_eq (i : Nat) : (image cfg fl a).files i = (image cfg fl₀ a).files i :=
  image_files_congr h.only fun o _ _ => h.active_not_region o

/-- The data of the current filesystem stays where it is. -/
theorem byte_eq {l : Nat} (hl : l < numActiveDblocks cfg) (o : Nat) :
    fl.byte cfg.eraseVal ((image cfg fl₀ a).blocks l).phyId o = (image cfg fl₀ a).data l o := by
  rw [image_data]
  exact h.only.byte (not_stageRegion (h.wf.phyId_ne h.s_le h.ne hl)
    (h.wf.phyId_ne_scratch h.a_le hl) o)

theorem a_lt : a < cfg.numBlocks := lt_of_le_of_lt h.a_le h.accepted.two_le_numBlocks

theorem s_lt : s < cfg.numBlocks := lt_of_le_of_lt h.s_le h.accepted.two_le_numBlocks

theorem readFile {G : Prog.Guard} (hG : AllowsReads cfg G) {i : Nat} (hi : i < cfg.maxNumFiles) :
    (flashFsMblockReadFileMeta cfg i).Query cfg.eraseVal G c fl
      (.ok ((image cfg fl₀ a).files i)) := by
  have hv := h.wf.validateFileMeta h.accepted hi
  have hr : checkFile cfg ((image cfg fl c.activeMetablock).files i) =
      .ok ((image cfg fl₀ a).files i) := by
    rw [h.active, h.files_eq, checkFile, hv]
    split_ifs <;> rfl
  exact hr ▸ readFileMeta_query hG h.accepted (h.active ▸ h.a_lt) hi

theorem readBlock {G : Prog.Guard} (hG : AllowsReads cfg G) {l : Nat}
    (hl : l < numActiveDblocks cfg) :
    (flashFsMblockReadBlockMetadata cfg l).Query cfg.eraseVal G c fl
      (.ok ((image cfg fl₀ a).blocks l)) := by
  have hv := h.wf.validateBlockMeta h.accepted h.a_le hl
  have hr : checkBlock cfg ((image cfg fl c.activeMetablock).blocks l) =
      .ok ((image cfg fl₀ a).blocks l) := by
    rw [h.active, h.blocks_eq, checkBlock, hv]
    split_ifs <;> rfl
  exact hr ▸ readBlockMetadata_query hG h.accepted (h.active ▸ h.a_lt) hl

/-- The update goes on after more changes to the scratch blocks. -/
theorem next {c' : Ctx} {fl' : Flash} (ha : c'.activeMetablock = c.activeMetablock)
    (hs : c'.scratchMetablock = c.scratchMetablock)
    (hf : OnlyIn (stageRegion cfg s (image cfg fl₀ a).header.scratchDblock) fl fl') :
    Ready cfg fl₀ a s c' fl' where
  accepted := h.accepted
  a_le := h.a_le
  s_le := h.s_le
  ne := h.ne
  wf := h.wf
  active := ha.trans h.active
  scratch := hs.trans h.scratch
  only := h.only.trans hf

/-- A part of the scratch metadata block behind the header may be written. -/
theorem mayWrite {off n : Nat} (ho : 8 ≤ off) (hle : off + n ≤ cfg.blockSize)
    (hal : cfg.Aligned → cfg.programUnit ∣ off ∧ cfg.programUnit ∣ n)
    (hc : strict → Clean (range s off (off + n)) fl) :
    MayWrite cfg s sd strict fl s off n :=
  ⟨.inl ⟨rfl, ho⟩, h.s_lt, hle, hal, hc⟩

end Ready

theorem range_stageRegion {lo hi : Nat} (hlo : 8 ≤ lo) (b o : Nat) (h : range s lo hi b o) :
    stageRegion cfg s sd b o :=
  .inl ⟨h.1, le_trans hlo h.2.1⟩

end Etss
