import TfmExtras.Etss.InUse

/-! A deletion that a mount resumes on any tables: when it leaves the blocks alone that are in
use. -/

namespace Etss
open NorFlash NorFlash.Flash FlashM

variable {cfg : Config} {x d : Nat} {c : Ctx} {fl fl₀ fl' : Flash} {hdr : MetadataBlockHeader}

/-! ## Moves -/

theorem WriteAside.mono {b off off' : Nat} (h : WriteAside cfg x d b off) (ho : off ≤ off') :
    WriteAside cfg x d b off' := h.imp (And.imp_right fun h0 => h0.trans_le ho) id

/-- A move that starts aside stays there. -/
theorem move_aside {dst dstOffset src srcOffset n : Nat} (hdst : dst < cfg.numBlocks)
    (hsrc : src < cfg.numBlocks) (hne : dst ≠ src)
    (haside : 0 < n → WriteAside cfg x d dst dstOffset) (hd : dstOffset + n ≤ cfg.blockSize)
    (hs : srcOffset + n ≤ cfg.blockSize) :
    (flashFsBlockToBlockMove dst dstOffset src srcOffset n).Ok cfg.eraseVal (AsideOp cfg x d) c fl
      fun _ c' fl' => c' = c ∧ Moved cfg.eraseVal fl fl' dst dstOffset src srcOffset n := by
  refine moveLoop_ok (P := fun _ off n => (0 < n → WriteAside cfg x d dst off) ∧
    off + n ≤ cfg.blockSize) allowsReads_asideOp hne hsrc (fun _ _ _ h => h.2) ?_ n le_rfl
    ⟨haside, hd⟩ hs
  rintro fl off n data ⟨ha, hle⟩ hn hlen
  have hk : data.length ≤ n := hlen.trans_le (min_le_left _ _)
  exact ⟨⟨⟨hdst, by omega⟩, ha hn⟩, fun _ => (ha hn).mono (Nat.le_add_right _ _), by omega⟩

/-- A move that stays inside the blocks does so with its last byte. -/
theorem moveLoop_inBlock {dst src : Nat} (fuel : Nat) : ∀ {fl : Flash} {dstOffset srcOffset n : Nat},
    n ≤ fuel → dstOffset ≤ srcOffset → 0 < n →
    (blockToBlockMoveLoop dst src fuel dstOffset srcOffset n).wp cfg.eraseVal
      (fun _ o => InBlock cfg o) c fl (fun _ _ _ => True) → srcOffset + n ≤ cfg.blockSize := by
  have hbs := cfg.blockSize_lt
  induction fuel with
  | zero => exact fun hn _ h0 => absurd (h0.trans_le hn) (lt_irrefl 0)
  | succ fuel ih =>
    intro fl dstOffset srcOffset n hn hle h0 hw
    unfold blockToBlockMoveLoop at hw
    rw [if_neg (Nat.ne_of_gt h0)] at hw
    obtain ⟨hread, hw⟩ := wp_issue.mp (wp_bind.mp hw)
    obtain ⟨-, hrest⟩ := wp_issue.mp (wp_bind.mp hw)
    have hend : srcOffset + min n maxBlockDataCopy ≤ cfg.blockSize := hread.2
    have hk : min n maxBlockDataCopy ≤ n := min_le_left _ _
    have hk0 : 0 < min n maxBlockDataCopy := lt_min h0 (by decide)
    rw [add32_eq (by omega), add32_eq (by omega)] at hrest
    by_cases hlast : n - min n maxBlockDataCopy = 0
    · omega
    · have := ih (by omega) (by omega) (Nat.pos_of_ne_zero hlast) hrest
      omega

theorem watched_inBlock {α : Type} {g : Option Nat} {m : FsM α}
    {Q : Option Nat → Except Status α → Ctx → Flash → Prop}
    (h : m.Watched (mountWatch cfg) cfg.eraseVal g c fl Q) :
    m.wp cfg.eraseVal (fun _ o => InBlock cfg o) c fl fun _ _ _ => True :=
  wp_iff.mpr ⟨Watch.Keeps.of_forall _ h.1 fun _ _ _ ho => ho.1, trivial⟩

/-- A move of bytes aside does no harm when it stays inside the blocks. -/
theorem BuildsAside.move_watched (h : BuildsAside cfg fl₀ x d c fl)
    {dst dstOffset src srcOffset n : Nat} (hdst : dst < cfg.numBlocks) (hsrc : src < cfg.numBlocks)
    (hne : dst ≠ src) (hn : 0 < n) (haside : WriteAside cfg x d dst dstOffset)
    (hle : dstOffset ≤ srcOffset) {P : Prop}
    {Q : Option Nat → Except Status Unit → Ctx → Flash → Prop}
    (hQ : ∀ fl', BuildsAside cfg fl₀ x d c fl' →
      Moved cfg.eraseVal fl fl' dst dstOffset src srcOffset n → (Q (some x) (.ok ()) c fl' ↔ P)) :
    (flashFsBlockToBlockMove dst dstOffset src srcOffset n).Watched (mountWatch cfg) cfg.eraseVal
      (some x) c fl Q ↔ srcOffset + n ≤ cfg.blockSize ∧ P := by
  by_cases hs : srcOffset + n ≤ cfg.blockSize
  · rw [and_iff_right hs]
    refine h.watched_iff (move_aside hdst hsrc hne (fun _ => haside) (by omega) hs) ?_
    rintro _ _ fl' hb ⟨_, rfl, rfl, hm⟩
    exact hQ fl' hb hm
  · refine iff_of_false (fun hw => hs ?_) fun hw => hs hw.1
    exact moveLoop_inBlock n le_rfl hle hn (watched_inBlock hw)

/-- Reads, and writes to one block. -/
def MoveOp (dst : Nat) : Prog.Guard := fun _ o =>
  match o with
  | .read _ _ _ => True
  | .write b _ _ => b = dst
  | _ => False

theorem moveLoop_moveOp {dst src : Nat} (fuel : Nat) : ∀ {fl : Flash} {dstOffset srcOffset n : Nat},
    (blockToBlockMoveLoop dst src fuel dstOffset srcOffset n).Ok cfg.eraseVal (MoveOp dst) c fl
      fun _ c' _ => c' = c := by
  induction fuel with
  | zero => exact ok_pure rfl
  | succ fuel ih =>
    intro fl dstOffset srcOffset n
    unfold blockToBlockMoveLoop
    split_ifs
    · exact ok_pure rfl
    refine (ok_issue (R := fun _ c' _ => c' = c) trivial rfl).bind ?_
    rintro _ c _ rfl
    refine (ok_issue (R := fun _ c' _ => c' = c) rfl rfl).bind ?_
    rintro _ c _ rfl
    exact ih

theorem MoveOp.next {b : Nat} (fl : Flash) (o : Op) (h : MoveOp b fl o) :
    inForceAfter (some b) o = some b := by
  cases o with
  | write b' off data =>
    obtain rfl : b' = b := h
    cases off with
    | zero => exact congrArg some (if_neg (otherMetaBlock_ne b').symm)
    | succ off => rfl
  | _ => rfl

/-- A move to the header of the other metadata block puts that block in force. -/
theorem move_reaches {src srcOffset n : Nat} (hn : 0 < n)
    {Q : Option Nat → Except Status Unit → Ctx → Flash → Prop}
    (h : (flashFsBlockToBlockMove (otherMetaBlock x) 0 src srcOffset n).Watched (mountWatch cfg)
      cfg.eraseVal (some x) c fl Q) : ∃ fl', Q (some (otherMetaBlock x)) (.ok ()) c fl' := by
  obtain ⟨m, rfl⟩ := Nat.exists_eq_succ_of_ne_zero (Nat.ne_of_gt hn)
  unfold flashFsBlockToBlockMove blockToBlockMoveLoop at h
  rw [if_neg (Nat.succ_ne_zero m)] at h
  obtain ⟨-, h⟩ := issue_bind_watched.mp h
  obtain ⟨-, h⟩ := issue_bind_watched.mp h
  have hnext : (mountWatch cfg).next ((mountWatch cfg).next (some x) (.read src srcOffset
      (min (m + 1) maxBlockDataCopy))) (.write (otherMetaBlock x) 0 (fl.reply cfg.eraseVal
        (.read src srcOffset (min (m + 1) maxBlockDataCopy)))) = some (otherMetaBlock x) :=
    congrArg some (if_pos rfl)
  rw [hnext] at h
  obtain ⟨_, _, fl', ⟨_, rfl, rfl⟩, hQ⟩ := Watched.stays h (moveLoop_moveOp m) MoveOp.next
  exact ⟨fl', hQ⟩

/-- From the block in force nothing is moved. -/
theorem not_watched_move {dstOffset src srcOffset n : Nat} (hn : 0 < n)
    {Q : Option Nat → Except Status Unit → Ctx → Flash → Prop} :
    ¬ (flashFsBlockToBlockMove x dstOffset src srcOffset n).Watched (mountWatch cfg) cfg.eraseVal
      (some x) c fl Q := by
  intro h
  obtain ⟨m, rfl⟩ := Nat.exists_eq_succ_of_ne_zero (Nat.ne_of_gt hn)
  unfold flashFsBlockToBlockMove blockToBlockMoveLoop at h
  rw [if_neg (Nat.succ_ne_zero m)] at h
  obtain ⟨-, h⟩ := issue_bind_watched.mp h
  exact not_harmless rfl (issue_bind_watched.mp h).1

/-- The scratch block of a logical block. -/
def asideBlock (x d l : Nat) : Nat := if l = 0 then otherMetaBlock x else d

section
variable (h : BuildsAside cfg fl₀ x d c fl) {l : Nat} (hl : l < numActiveDblocks cfg)
include h hl

theorem BuildsAside.asideBlock_lt : asideBlock x d l < cfg.numBlocks := by
  unfold asideBlock
  split_ifs with h0
  · exact h.s_lt
  · exact h.spare.dblock_lt (numBlocks_ne_two h.accepted h0 hl)

theorem BuildsAside.asideBlock_ne {l' : Nat} (hl' : l' < numActiveDblocks cfg) :
    asideBlock x d l ≠ ((image cfg fl₀ x).blocks l').phyId := by
  unfold asideBlock
  split_ifs with h0
  · exact (h.spare.other l' hl').symm
  · exact (h.spare.dblock (numBlocks_ne_two h.accepted h0 hl) l' hl').symm

theorem BuildsAside.writeAside {off : Nat} (ho : asideBlock x d l = otherMetaBlock x → 0 < off) :
    WriteAside cfg x d (asideBlock x d l) off := by
  by_cases he : asideBlock x d l = otherMetaBlock x
  · exact .inl ⟨he, ho he⟩
  · unfold asideBlock at he ⊢
    split_ifs at he ⊢ with h0
    · exact absurd rfl he
    · exact .inr ⟨numBlocks_ne_two h.accepted h0 hl, rfl, he⟩

/-- A move that is made under a condition, before a rest that programs the other metadata block. -/
theorem BuildsAside.move_step {α : Type} {p : Prop} [Decidable p]
    {i j n l' : Nat} {e : Status} {k : Unit → FsM α} {P : Prop}
    {Q : Option Nat → Except Status α → Ctx → Flash → Prop} (hl' : l' < numActiveDblocks cfg)
    (hphy : ((image cfg fl₀ x).blocks l').phyId < cfg.numBlocks)
    (hp : p → 0 < n ∧ i ≤ j)
    (hin : ∀ fl', BuildsAside cfg fl₀ x d c fl' →
      ((k ()).Watched (mountWatch cfg) cfg.eraseVal (some x) c fl' Q ↔ P))
    (hout : asideBlock x d l = otherMetaBlock x → ∀ fl', ¬ (k ()).Watched (mountWatch cfg)
      cfg.eraseVal (some (otherMetaBlock x)) c fl' Q) :
    (if p then (flashFsBlockToBlockMove (asideBlock x d l) i
        ((image cfg fl₀ x).blocks l').phyId j n).failAs e >>= k
      else k ()).Watched (mountWatch cfg) cfg.eraseVal (some x) c fl Q ↔
      (p → j + n ≤ cfg.blockSize ∧
        (asideBlock x d l = otherMetaBlock x → 0 < i)) ∧ P := by
  by_cases hpp : p
  · obtain ⟨hn, hle⟩ := hp hpp
    rw [if_pos hpp]
    refine (watched_bind.trans watched_failAs).trans ?_
    by_cases hreach : asideBlock x d l = otherMetaBlock x → 0 < i
    · refine (h.move_watched (h.asideBlock_lt hl) hphy (h.asideBlock_ne hl hl') hn
        (h.writeAside hl hreach) hle fun fl' hb _ => hin fl' hb).trans ?_
      exact and_congr_left' ⟨fun hs _ => ⟨hs, hreach⟩, fun hs => (hs hpp).1⟩
    · refine iff_of_false (fun hw => ?_) fun hw => hreach (hw.1 hpp).2
      have he : asideBlock x d l = otherMetaBlock x := by
        by_contra hne
        exact hreach fun he => absurd he hne
      obtain rfl : i = 0 := by
        by_contra hne
        exact hreach fun _ => Nat.pos_of_ne_zero hne
      rw [he] at hw
      obtain ⟨fl', hQ⟩ := move_reaches hn hw
      exact hout he fl' hQ
  · rw [if_neg hpp, and_iff_right fun hp' => absurd hp' hpp]
    exact hin fl h

end

/-! ## The block table of the update -/

theorem StageOp.aside {s : Nat} {strict : Prop} {o : Op} (hs : s = otherMetaBlock x)
    (h : StageOp cfg s cfg.numBlocks strict fl o) : AsideOp cfg x d fl o := by
  cases o with
  | read b off n => exact ⟨h, trivial⟩
  | write b off data =>
    refine ⟨⟨h.block_lt, h.le⟩, ?_⟩
    obtain ⟨hb, h8⟩ | ⟨-, hb⟩ := h.target
    · exact .inl ⟨hb.trans hs, (Nat.zero_lt_succ 7).trans_le h8⟩
    · exact absurd h.block_lt (hb ▸ lt_irrefl _)
  | flush b => exact ⟨h, trivial⟩
  | _ => exact h.elim

theorem setDataScratch_bind_watched {α : Type} {g : Option Nat} {phyId l : Nat} {k : Unit → FsM α}
    {Q : Option Nat → Except Status α → Ctx → Flash → Prop} :
    (flashFsMblockSetDataScratch phyId l >>= k).Watched (mountWatch cfg) cfg.eraseVal g c fl Q ↔
      (k ()).Watched (mountWatch cfg) cfg.eraseVal g (c.withScratch l phyId) fl Q := by
  unfold Watched FlashM.trace FlashM.run
  rw [setDataScratch_bind]

section
variable (h : BuildsAside cfg fl₀ x d c fl) {l : Nat} (hl : l < numActiveDblocks cfg)
variable {phyId scratchId : Nat} {blockMeta : BlockMeta}
variable {Q : Option Nat → Except Status Nat → Ctx → Flash → Prop}

/-- The block entry is not programmed in the block in force. -/
theorem not_watched_finish (hs : c.scratchMetablock = otherMetaBlock x) :
    ¬ (compactBlockFinish cfg l phyId scratchId blockMeta).Watched (mountWatch cfg) cfg.eraseVal
      (some (otherMetaBlock x)) c fl Q := by
  intro hw
  unfold compactBlockFinish flashFsMblockUpdateScratchBlockMeta mblockUpdateScratchBlockMeta at hw
  have hw := watched_attempt.mp (watched_bind.mp (setDataScratch_bind_watched.mp hw))
  have hw := watched_failAs.mp (watched_bind.mp (get_bind_watched.mp hw))
  obtain ⟨hwrite, -⟩ := issue_bind_watched.mp (get_bind_watched.mp hw)
  rw [c.withScratch_scratch, hs] at hwrite
  exact not_harmless rfl hwrite

include h hl

theorem BuildsAside.finish_watched (hb : blockMeta.InRange) {P : Prop}
    (herr : ∀ e c' fl', Q (some x) (.error e) c' fl')
    (hok : (l = 0 ∨ (image cfg fl₀ x).BlockPasses cfg 0) →
      ∀ fl', BuildsAside cfg fl₀ x d (c.withScratch l phyId) fl' →
      (∀ l' < numActiveDblocks cfg, (image cfg fl' (otherMetaBlock x)).blocks l' =
        stagedBlock (otherMetaBlock x) (image cfg fl₀ x).blocks l blockMeta l') →
      (Q (some x) (.ok scratchId) (c.withScratch l phyId) fl' ↔ P)) :
    (compactBlockFinish cfg l phyId scratchId blockMeta).Watched (mountWatch cfg) cfg.eraseVal
      (some x) c fl Q ↔ (l = 0 ∨ (image cfg fl₀ x).BlockPasses cfg 0 → P) := by
  have hc : BuildsAside cfg fl₀ x d (c.withScratch l phyId) fl :=
    h.ctx (c.withScratch_active _ _) (c.withScratch_scratch _ _)
  refine h.watched_iff (R := fun r c' fl' => c' = c.withScratch l phyId ∧ r = .ok scratchId ∧
      (l = 0 ∨ (image cfg fl₀ x).BlockPasses cfg 0) ∧
      (∀ l' < numActiveDblocks cfg, (image cfg fl' (otherMetaBlock x)).blocks l' =
        stagedBlock (otherMetaBlock x) (image cfg fl₀ x).blocks l blockMeta l') ∨
    (∃ e, r = .error e) ∧ ¬ (l = 0 ∨ (image cfg fl₀ x).BlockPasses cfg 0)) ?_ ?_
  · unfold compactBlockFinish
    refine (setDataScratch_ok _ _).bind_wp ?_
    rintro _ _ fl ⟨rfl, rfl⟩
    have hupdate : (flashFsMblockUpdateScratchBlockMeta cfg l blockMeta).wp cfg.eraseVal
        (StageOp cfg (otherMetaBlock x) cfg.numBlocks False) (c.withScratch l phyId) fl _ :=
      hc.updateScratchBlockMeta_wp hl hb False.elim
    refine wp_bind.mpr (wp_attempt.mpr (wp_mono hupdate (fun _ _ ho => ho.aside rfl) ?_))
    rintro r _ fl' ⟨rfl, ht⟩
    cases r with
    | ok _ => exact (wp_pure _).mpr (.inl ⟨rfl, rfl, ht.ok_iff.mp rfl, ht.blocks rfl⟩)
    | error e =>
      refine (setDataScratch_ok _ _).bind_wp ?_
      rintro _ _ _ -
      exact (wp_fail _).mpr (.inr ⟨⟨e, rfl⟩, fun hp => of_error_eq_ok (ht.ok_iff.mpr hp)⟩)
  · rintro r c' fl' hb' (⟨rfl, rfl, hp, hblocks⟩ | ⟨⟨e, rfl⟩, hp⟩)
    · refine (hok hp fl' (hb'.ctx (c.withScratch_active _ _) (c.withScratch_scratch _ _))
        hblocks).trans ⟨fun hP _ => hP, fun hP => hP hp⟩
    · exact iff_of_true (herr _ _ _) fun hp' => absurd hp' hp

end

/-! ## Compacting -/

theorem curDataScratchId_bind_watched {α : Type} {g : Option Nat} {l : Nat} {k : Nat → FsM α}
    {Q : Option Nat → Except Status α → Ctx → Flash → Prop} :
    (flashFsMblockCurDataScratchId l >>= k).Watched (mountWatch cfg) cfg.eraseVal g c fl Q ↔
      (k (c.scratchId l)).Watched (mountWatch cfg) cfg.eraseVal g c fl Q := Iff.rfl

theorem BuildsAside.scratchId_eq (h : BuildsAside cfg fl₀ x d c fl)
    (hd : c.metaBlockHeader.scratchDblock = d) (l : Nat) : c.scratchId l = asideBlock x d l := by
  unfold Ctx.scratchId asideBlock
  rw [h.scratch, hd]
  rfl

/-- The data of a logical block can be compacted: the bytes that are moved lie in their block, and
do not go over the header of the other metadata block. -/
structure BlockMeta.CompactFits (cfg : Config) (m : BlockMeta) (x d l srcOffset dstOffset size : Nat) :
    Prop where
  inside : 0 < size → srcOffset + size ≤ cfg.blockSize
  moved : 0 < size → asideBlock x d l = otherMetaBlock x → 0 < dstOffset
  kept : m.dataStart < dstOffset → asideBlock x d l = otherMetaBlock x → 0 < m.dataStart

theorem BuildsAside.compactStage_watched (h : BuildsAside cfg fl₀ x d c fl)
    (hval : cfg.validateMetadata = true) (hd : c.metaBlockHeader.scratchDblock = d)
    {l freeSize srcOffset dstOffset size : Nat} (hl : l < numActiveDblocks cfg)
    (hmove : 0 < size → dstOffset ≤ srcOffset) (hdst : dstOffset ≤ cfg.blockSize) {P : Prop}
    {Q : Option Nat → Except Status Nat → Ctx → Flash → Prop}
    (herr : ∀ e c' fl', Q (some x) (.error e) c' fl')
    (hok : (image cfg fl₀ x).BlockPasses cfg l → (l = 0 ∨ (image cfg fl₀ x).BlockPasses cfg 0) →
      ∀ fl', BuildsAside cfg fl₀ x d
        (c.withScratch l ((image cfg fl₀ x).blocks l).phyId) fl' →
      (∀ l' < numActiveDblocks cfg, ((image cfg fl' (otherMetaBlock x)).blocks l').phyId =
        (stagedBlock (otherMetaBlock x) (image cfg fl₀ x).blocks l
          { (image cfg fl₀ x).blocks l with phyId := asideBlock x d l } l').phyId) →
      (Q (some x) (.ok (asideBlock x d l)) (c.withScratch l ((image cfg fl₀ x).blocks l).phyId) fl' ↔
        P)) :
    (compactBlockStage cfg l freeSize srcOffset dstOffset size).Watched (mountWatch cfg)
      cfg.eraseVal (some x) c fl Q ↔ ((image cfg fl₀ x).BlockPasses cfg l →
        ((image cfg fl₀ x).blocks l).CompactFits cfg x d l srcOffset dstOffset size ∧
          (l = 0 ∨ (image cfg fl₀ x).BlockPasses cfg 0 → P)) := by
  have hread : (flashFsMblockReadBlockMetadata cfg l).Query cfg.eraseVal (ReadOp cfg) c fl
      (checkBlock cfg ((image cfg fl₀ x).blocks l)) := by
    have hq : (flashFsMblockReadBlockMetadata cfg l).Query cfg.eraseVal (ReadOp cfg) c fl _ :=
      readBlockMetadata_query allowsReads_readOp h.accepted (h.active.trans_lt h.a_lt) hl
    rwa [h.active, h.blocks] at hq
  unfold compactBlockStage
  cases hcheck : checkBlock cfg ((image cfg fl₀ x).blocks l) with
  | error e =>
    rw [hcheck] at hread
    refine (hread.bind_watched_error ReadOp.rests).trans (iff_of_true (herr _ _ _) fun hp => ?_)
    exact of_error_eq_ok (hcheck.symm.trans hp)
  | ok m =>
  obtain ⟨rfl, hplaced⟩ := checkBlock_ok hval hcheck
  rw [hcheck] at hread
  refine (hread.bind_watched ReadOp.rests).trans (curDataScratchId_bind_watched.trans ?_)
  rw [h.scratchId_eq hd]
  dsimp only
  have hrange : BlockMeta.InRange ⟨asideBlock x d l, ((image cfg fl₀ x).blocks l).dataStart,
      add32 ((image cfg fl₀ x).blocks l).freeSize freeSize⟩ := by
    have hn := cfg.numBlocks_lt
    have hlt := h.asideBlock_lt hl
    exact ⟨show asideBlock x d l < 2 ^ 32 by omega, (image_blocks_inRange cfg fl₀ x l).2.1,
      Nat.mod_lt _ (by decide)⟩
  have hfinish : ∀ fl', BuildsAside cfg fl₀ x d c fl' →
      ((compactBlockFinish cfg l ((image cfg fl₀ x).blocks l).phyId (asideBlock x d l)
        ⟨asideBlock x d l, ((image cfg fl₀ x).blocks l).dataStart,
          add32 ((image cfg fl₀ x).blocks l).freeSize freeSize⟩).Watched (mountWatch cfg)
        cfg.eraseVal (some x) c fl' Q ↔ (l = 0 ∨ (image cfg fl₀ x).BlockPasses cfg 0 → P)) :=
    fun fl' hb => hb.finish_watched hl hrange herr fun hp fl'' hb'' hblocks =>
      hok hcheck hp fl'' hb'' fun l' hl' => by
        rw [hblocks l' hl']
        unfold stagedBlock
        split_ifs <;> rfl
  -- the files before the hole, behind which the files of the block are already
  have hkept := fun fl' (hb : BuildsAside cfg fl₀ x d c fl') =>
    hb.move_step (p := dstOffset > ((image cfg fl₀ x).blocks l).dataStart) (e := .genericError)
      (i := ((image cfg fl₀ x).blocks l).dataStart) (j := ((image cfg fl₀ x).blocks l).dataStart)
      (n := dstOffset - ((image cfg fl₀ x).blocks l).dataStart) hl hl hplaced.phyId_lt
      (fun hgt => ⟨Nat.sub_pos_of_lt hgt, le_rfl⟩) (k := fun _ => compactBlockFinish cfg l
        ((image cfg fl₀ x).blocks l).phyId (asideBlock x d l) ⟨asideBlock x d l,
          ((image cfg fl₀ x).blocks l).dataStart,
          add32 ((image cfg fl₀ x).blocks l).freeSize freeSize⟩)
      hfinish fun _ fl' => not_watched_finish h.scratch
  refine (h.move_step (p := size > 0) (e := .genericError) hl hl hplaced.phyId_lt
    (fun hpos => ⟨hpos, hmove hpos⟩) (k := fun _ => _) hkept fun he fl' hw => ?_).trans ?_
  · by_cases hgt : dstOffset > ((image cfg fl₀ x).blocks l).dataStart
    · rw [if_pos hgt] at hw
      have hw := watched_failAs.mp (watched_bind.mp hw)
      rw [he] at hw
      exact not_watched_move (Nat.sub_pos_of_lt hgt) hw
    · rw [if_neg hgt] at hw
      exact not_watched_finish h.scratch hw
  · constructor
    · rintro ⟨hm, hk, hP⟩ _
      exact ⟨⟨fun hn => (hm hn).1, fun hn => (hm hn).2, fun hgt => (hk hgt).2⟩, hP⟩
    · intro hw
      obtain ⟨⟨hin, hm, hk⟩, hP⟩ := hw hcheck
      exact ⟨fun hn => ⟨hin hn, hm hn⟩, fun hgt => ⟨by omega, hk hgt⟩, hP⟩

/-! ## The end of the update -/

theorem blockPasses_dataStart (hacc : cfg.Accepted) (hval : cfg.validateMetadata = true) {st : Image}
    {l : Nat} (h : st.BlockPasses cfg l) :
    (st.blocks l).dataStart = 0 ∨ (st.blocks l).dataStart = cfg.metaEnd := by
  have hv : mblockCheckBlockMeta cfg (mblockFileMetaOffset cfg cfg.maxNumFiles) (st.blocks l) =
      .ok () := by
    unfold Image.BlockPasses checkBlock at h
    rw [if_pos hval] at h
    unfold mblockValidateBlockMeta at h
    cases hc : mblockCheckBlockMeta cfg (mblockFileMetaOffset cfg cfg.maxNumFiles) (st.blocks l) with
    | ok _ => rfl
    | error e =>
      rw [hc] at h
      cases h
  unfold mblockCheckBlockMeta at hv
  rw [hacc.fileOffset_eq le_rfl] at hv
  split_ifs at hv with hphy hmeta
  all_goals
    cases hin : utilsCheckContainedIn cfg.blockSize (st.blocks l).dataStart
        (st.blocks l).freeSize with
    | error e =>
      rw [hin] at hv
      cases hv
    | ok _ =>
      rw [hin] at hv
      dsimp only at hv
      split_ifs at hv with hne
      have := not_not.mp hne
      tauto

section
variable (h : BuildsAside cfg fl₀ x d c fl) (hval : cfg.validateMetadata = true)
variable {tbl : Nat → BlockMeta} (htbl : ∀ l < numActiveDblocks cfg,
  ((image cfg fl (otherMetaBlock x)).blocks l).phyId = (tbl l).phyId)
include h hval htbl

theorem BuildsAside.finalize_watched :
    (flashFsMblockMetaUpdateFinalize cfg).Watched (mountWatch cfg) cfg.eraseVal (some x) c fl
      (fun _ _ _ _ => True) ↔ SpareIn cfg tbl (otherMetaBlock x) c.metaBlockHeader.scratchDblock := by
  refine (metaUpdateFinalize_watched h.accepted hval h.scratch h.a_le h.active h.not_inUse_other
    rfl).trans ((and_iff_left trivial).trans ⟨fun hs => ?_, fun hs => ?_⟩)
  · exact hs.congr fun l hl => (htbl l hl).symm
  · exact hs.congr htbl

/-- The data of logical block 0 is copied, and the update is committed. -/
theorem BuildsAside.migrate_watched (h0 : (image cfg fl₀ x).BlockPasses cfg 0) :
    ((flashFsMblockMigrateLb0DataToScratch cfg).failAs .genericError >>= fun _ =>
      flashFsMblockMetaUpdateFinalize cfg).Watched (mountWatch cfg) cfg.eraseVal (some x) c fl
      (fun _ _ _ _ => True) ↔ (((image cfg fl₀ x).blocks 0).dataStart = 0 →
        ((image cfg fl₀ x).blocks 0).freeSize = cfg.blockSize) ∧
        SpareIn cfg tbl (otherMetaBlock x) c.metaBlockHeader.scratchDblock := by
  have hbs := cfg.blockSize_lt
  have hread : (flashFsMblockReadBlockMetadata cfg logicalDblock0).Query cfg.eraseVal (ReadOp cfg) c
      fl (checkBlock cfg ((image cfg fl₀ x).blocks 0)) := by
    have hq : (flashFsMblockReadBlockMetadata cfg logicalDblock0).Query cfg.eraseVal (ReadOp cfg) c
        fl _ := readBlockMetadata_query allowsReads_readOp h.accepted (h.active.trans_lt h.a_lt)
      h.accepted.numActive_pos
    rwa [h.active, h.blocks] at hq
  rw [h0] at hread
  have hstart := blockPasses_dataStart h.accepted hval h0
  have hle := (checkBlock_ok hval h0).2.le
  generalize (image cfg fl₀ x).blocks 0 = m at hread hstart hle
  refine watched_bind.trans (watched_failAs.trans ?_)
  unfold flashFsMblockMigrateLb0DataToScratch
  refine (hread.bind_watched ReadOp.rests).trans (get_bind_watched.trans ?_)
  rw [h.scratch, h.active, sub32_eq hbs (by omega), sub32_eq (by omega) (by omega)]
  by_cases hn : cfg.blockSize - m.dataStart - m.freeSize = 0
  · rw [hn]
    refine ((watched_pure ()).trans (h.finalize_watched hval htbl)).trans (and_iff_right ?_).symm
    omega
  have hpos : 0 < cfg.blockSize - m.dataStart - m.freeSize := Nat.pos_of_ne_zero hn
  rcases hstart with h0 | hend
  · rw [h0] at hpos ⊢
    refine iff_of_false (fun hw => ?_) fun hw => ?_
    · obtain ⟨fl', hw⟩ := move_reaches hpos hw
      exact not_watched_finalize h.accepted hval h.scratch hw
    · have := hw.1 rfl
      omega
  · have hmeta := metaEnd_ge cfg
    refine (h.move_watched (P := SpareIn cfg tbl (otherMetaBlock x) c.metaBlockHeader.scratchDblock)
      h.s_lt h.a_lt h.ne hpos (.inl ⟨rfl, by omega⟩) le_rfl fun fl' hb hm => hb.finalize_watched hval fun l hl => ?_).trans ?_
    · -- the table lies before the data
      rw [image_blocks_congr hm.only fun o _ ho hw => ?_]
      · exact htbl l hl
      · have := hw.2.1
        unfold Config.metaEnd Config.fileEntry Config.filesStart at hend
        omega
    · exact and_congr_left' (iff_of_true (by omega) fun h0 => by omega)

end

/-! ## The table that is committed -/

/-- Logical block `l` can move to its scratch block, with the metadata moving from `x` to the other
metadata block: no other entry names a block that is then erased. -/
structure Image.RemapFits (cfg : Config) (st : Image) (x d l : Nat) : Prop where
  others : ∀ l', 0 < l' → l' < numActiveDblocks cfg → l' ≠ l → (st.blocks l').phyId ≠ x
  unshared : l ≠ 0 → ∀ l', 0 < l' → l' < numActiveDblocks cfg → l' ≠ l →
    (st.blocks l').phyId ≠ (st.blocks l).phyId
  dblock : l = 0 → cfg.numBlocks ≠ 2 → d ≠ otherMetaBlock x

theorem SpareIn.staged_iff {st : Image} {l : Nat} (hx : x ≤ 1) (hacc : cfg.Accepted)
    (hs : SpareIn cfg st.blocks x d) (hl : l < numActiveDblocks cfg)
    (hphy : (st.blocks l).phyId < cfg.numBlocks) :
    SpareIn cfg (stagedBlock (otherMetaBlock x) st.blocks l
        { st.blocks l with phyId := asideBlock x d l }) (otherMetaBlock x)
      (if l = 0 then d else (st.blocks l).phyId) ↔ st.RemapFits cfg x d l := by
  have hne := otherMetaBlock_ne x
  have hself : (stagedBlock (otherMetaBlock x) st.blocks l
      { st.blocks l with phyId := asideBlock x d l } l).phyId = asideBlock x d l := by
    unfold stagedBlock asideBlock
    rw [if_pos rfl]
    split_ifs <;> rfl
  have hzero : l ≠ 0 → (stagedBlock (otherMetaBlock x) st.blocks l
      { st.blocks l with phyId := asideBlock x d l } 0).phyId = otherMetaBlock x := by
    intro h0
    unfold stagedBlock
    rw [if_neg (Ne.symm h0), if_pos rfl]
  have hrest : ∀ l', 0 < l' → l' ≠ l → (stagedBlock (otherMetaBlock x) st.blocks l
      { st.blocks l with phyId := asideBlock x d l } l').phyId = (st.blocks l').phyId := by
    intro l' h0 hne
    unfold stagedBlock
    rw [if_neg hne, if_neg (Nat.ne_of_gt h0)]
  constructor
  · intro h
    refine ⟨fun l' h0 hl' hn he => ?_, fun h0 l' hp hl' hn he => ?_, fun h0 hn he => ?_⟩
    · refine h.other l' hl' ?_
      rw [hrest l' h0 hn, he, otherMetaBlock_other hx]
    · refine h.dblock (numBlocks_ne_two hacc h0 hl) l' hl' ?_
      rw [hrest l' hp hn, he, if_neg h0]
    · refine h.dblock_ne hn ?_
      rw [if_pos h0, he]
  · intro h
    by_cases h0 : l = 0
    · subst h0
      rw [if_pos rfl]
      have hself : (stagedBlock (otherMetaBlock x) st.blocks 0
        { st.blocks 0 with phyId := asideBlock x d 0 } 0).phyId = otherMetaBlock x := hself
      refine ⟨fun l' hl' => ?_, hs.dblock_lt, fun hn => h.dblock rfl hn, fun hn l' hl' => ?_⟩
      · rw [otherMetaBlock_other hx]
        by_cases hl0 : l' = 0
        · rwa [hl0, hself]
        · rw [hrest l' (Nat.pos_of_ne_zero hl0) hl0]
          exact h.others l' (Nat.pos_of_ne_zero hl0) hl' hl0
      · by_cases hl0 : l' = 0
        · rw [hl0, hself]
          exact (h.dblock rfl hn).symm
        · rw [hrest l' (Nat.pos_of_ne_zero hl0) hl0]
          exact hs.dblock hn l' hl'
    · have hn := numBlocks_ne_two hacc h0 hl
      have hself : (stagedBlock (otherMetaBlock x) st.blocks l
        { st.blocks l with phyId := asideBlock x d l } l).phyId = d := hself.trans (if_neg h0)
      rw [if_neg h0]
      refine ⟨fun l' hl' => ?_, fun _ => hphy, fun _ => hs.other l hl, fun _ l' hl' => ?_⟩
      · rw [otherMetaBlock_other hx]
        rcases eq_or_ne l' l with rfl | hll
        · rw [hself]
          exact hs.dblock_ne hn
        · by_cases hl0 : l' = 0
          · rwa [hl0, hzero h0]
          · rw [hrest l' (Nat.pos_of_ne_zero hl0) hll]
            exact h.others l' (Nat.pos_of_ne_zero hl0) hl' hll
      · rcases eq_or_ne l' l with rfl | hll
        · rw [hself]
          exact (hs.dblock hn l' hl').symm
        · by_cases hl0 : l' = 0
          · rw [hl0, hzero h0]
            exact (hs.other l hl).symm
          · rw [hrest l' (Nat.pos_of_ne_zero hl0) hll]
            exact h.unshared h0 l' (Nat.pos_of_ne_zero hl0) hl' hll

section
variable (h : BuildsAside cfg fl₀ x d c fl)
include h

/-! ## The file table of the update -/

theorem BuildsAside.writeFile_ok {i : Nat} (hi : i < cfg.maxNumFiles) (m : FileMeta) :
    (flashFsMblockUpdateScratchFileMeta cfg i m).Ok cfg.eraseVal (AsideOp cfg x d) c fl
      fun _ c' fl' => c' = c ∧ BuildsAside cfg fl₀ x d c fl' := by
  have hle : cfg.fileEntry i + 32 ≤ cfg.blockSize :=
    le_trans (h.accepted.fileEntry_le (Nat.succ_le_of_lt hi)) h.accepted.metaEnd_le
  have hpos : 0 < cfg.fileEntry i := by
    unfold Config.fileEntry Config.filesStart
    omega
  unfold flashFsMblockUpdateScratchFileMeta
  rw [h.accepted.fileOffset_eq hi.le]
  refine query_get.seq_wp ?_
  rw [h.scratch]
  have ho : AsideOp cfg x d fl (.write (otherMetaBlock x) (cfg.fileEntry i) m.encode) :=
    ⟨⟨h.s_lt, by rwa [m.encode_length]⟩, .inl ⟨rfl, hpos⟩⟩
  refine (ok_issue (R := fun _ c' fl' => c' = c ∧ BuildsAside cfg fl₀ x d c fl') ho
    ⟨rfl, h.flash (h.aside_apply ho)⟩).bind ?_
  rintro _ _ fl' ⟨rfl, hb⟩
  exact ok_pure ⟨rfl, hb⟩

omit h in
/-- The loop over the file table ends when all entries pass their checks. -/
theorem deleteIdxLoop_aside (hval : cfg.validateMetadata = true) {k : Nat} {del : FileMeta} (n : Nat) :
    ∀ {fl : Flash} {idx : Nat} {scan : DeleteScan}, BuildsAside cfg fl₀ x d c fl →
    idx + n = cfg.maxNumFiles → (image cfg fl₀ x).FilePasses cfg k →
    (deleteIdxLoop cfg k del.lblock del.dataIdx del.maxSize n idx scan).wp cfg.eraseVal
      (AsideOp cfg x d) c fl fun r c' _ => c' = c ∧
        ((∀ j, idx ≤ j → j < cfg.maxNumFiles → (image cfg fl₀ x).FilePasses cfg j) ∧
          r = .ok (scanDelete del (image cfg fl₀ x).files k n idx scan) ∨
        (∃ j, idx ≤ j ∧ j < cfg.maxNumFiles ∧ ¬ (image cfg fl₀ x).FilePasses cfg j) ∧
          ∃ e, r = .error e) := by
  induction n with
  | zero =>
    intro fl idx scan _ hn _
    exact (wp_pure _).mpr ⟨rfl, .inl ⟨fun j h₁ h₂ => by omega, rfl⟩⟩
  | succ n ih =>
    intro fl idx scan h hn hk
    have hlt : idx < cfg.maxNumFiles := by omega
    -- entry `idx` passes, so that the rest decides
    have hstep : ∀ {r : Except Status DeleteScan} {scan' : DeleteScan},
        (image cfg fl₀ x).FilePasses cfg idx →
        ((∀ j, idx + 1 ≤ j → j < cfg.maxNumFiles → (image cfg fl₀ x).FilePasses cfg j) ∧
            r = .ok (scanDelete del (image cfg fl₀ x).files k n (idx + 1) scan') ∨
          (∃ j, idx + 1 ≤ j ∧ j < cfg.maxNumFiles ∧ ¬ (image cfg fl₀ x).FilePasses cfg j) ∧
            ∃ e, r = .error e) →
        ((∀ j, idx ≤ j → j < cfg.maxNumFiles → (image cfg fl₀ x).FilePasses cfg j) ∧
            r = .ok (scanDelete del (image cfg fl₀ x).files k n (idx + 1) scan') ∨
          (∃ j, idx ≤ j ∧ j < cfg.maxNumFiles ∧ ¬ (image cfg fl₀ x).FilePasses cfg j) ∧
            ∃ e, r = .error e) := by
      rintro r scan' hp (⟨hall, hr⟩ | ⟨⟨j, hj, hjl, hnp⟩, he⟩)
      · refine .inl ⟨fun j h₁ h₂ => ?_, hr⟩
        rcases Nat.eq_or_lt_of_le h₁ with rfl | h₁
        · exact hp
        · exact hall j h₁ h₂
      · exact .inr ⟨⟨j, by omega, hjl, hnp⟩, he⟩
    unfold deleteIdxLoop scanDelete
    by_cases hidx : idx = k
    · rw [if_pos hidx, if_pos hidx]
      exact wp_post (ih h (by omega) hk) fun r c' _ hr => ⟨hr.1, hstep (hidx ▸ hk) hr.2⟩
    rw [if_neg hidx, if_neg hidx]
    have hread : (flashFsMblockReadFileMeta cfg idx).Query cfg.eraseVal (AsideOp cfg x d) c fl
        (checkFile cfg ((image cfg fl₀ x).files idx)) := by
      have hq : (flashFsMblockReadFileMeta cfg idx).Query cfg.eraseVal (AsideOp cfg x d) c fl _ :=
        readFileMeta_query allowsReads_asideOp h.accepted (h.active.trans_lt h.a_lt) hlt
      rwa [h.active, h.files] at hq
    cases hcheck : checkFile cfg ((image cfg fl₀ x).files idx) with
    | error e =>
      rw [hcheck] at hread
      refine hread.seq_error.wp ⟨rfl, .inr ⟨⟨idx, le_rfl, hlt, fun hp => ?_⟩, e, rfl⟩⟩
      exact of_error_eq_ok (hcheck.symm.trans hp)
    | ok m =>
    obtain ⟨rfl, -⟩ := checkFile_ok hval hcheck
    rw [hcheck] at hread
    refine hread.seq_wp ((h.writeFile_ok hlt _).bind_wp ?_)
    rintro _ _ fl₁ ⟨rfl, hb⟩
    exact wp_post (ih hb (by omega) hk) fun r c' _ hr => ⟨hr.1, hstep hcheck hr.2⟩

end

/-! ## The whole deletion -/

/-- The deletion of file `k` can be resumed on metadata block `x` with the scratch data block `d`. -/
structure Image.ResumeFits (cfg : Config) (st : Image) (x d k : Nat) : Prop where
  /-- The files behind it have room in the block, from where the first of them starts. -/
  packed : 0 < ∑ i ∈ st.behind cfg k, (st.files i).maxSize → ∃ i ∈ st.behind cfg k,
    (st.files i).dataIdx + ∑ i ∈ st.behind cfg k, (st.files i).maxSize ≤ cfg.blockSize
  /-- Data that is copied to the other metadata block does not start where its header is. -/
  moved : 0 < ∑ i ∈ st.behind cfg k, (st.files i).maxSize →
    asideBlock x d (st.files k).lblock = otherMetaBlock x → 0 < (st.files k).dataIdx
  kept : (st.blocks (st.files k).lblock).dataStart < (st.files k).dataIdx →
    asideBlock x d (st.files k).lblock = otherMetaBlock x →
    0 < (st.blocks (st.files k).lblock).dataStart
  migrated : (st.files k).lblock ≠ 0 → st.BlockPasses cfg 0 → (st.blocks 0).dataStart = 0 →
    (st.blocks 0).freeSize = cfg.blockSize
  /-- The blocks that are erased in the end are not named by another entry. -/
  remap : (st.files k).lblock = 0 ∨ st.BlockPasses cfg 0 → st.RemapFits cfg x d (st.files k).lblock

section
variable {st : Image} {k : Nat}

theorem Image.scan_total (hval : cfg.validateMetadata = true)
    (hall : ∀ j < cfg.maxNumFiles, st.FilePasses cfg j) : (st.deleteScan cfg k).nbrBytesToMove =
    ∑ i ∈ st.behind cfg k, (st.files i).maxSize := by
  have hcard : (st.behind cfg k).card ≤ 65535 := by
    have hsub : st.behind cfg k ⊆ Finset.range cfg.maxNumFiles := fun i hi =>
      Finset.mem_range.mpr (Image.mem_behind.mp hi).1
    have := Finset.card_le_card hsub
    rw [Finset.card_range] at this
    have := cfg.maxNumFiles_lt
    omega
  have hsize : ∀ i ∈ st.behind cfg k, (st.files i).maxSize ≤ 65535 := fun i hi => by
    obtain ⟨hi, -, hid, -⟩ := Image.mem_behind.mp hi
    have := (checkFile_ok hval (hall i hi)).2.maxSize_le (validateFid_isOk.mp hid)
    have := cfg.maxFileSize_lt
    omega
  have hsum : ∑ i ∈ st.behind cfg k, (st.files i).maxSize ≤ (st.behind cfg k).card * 65535 :=
    Finset.sum_le_card_nsmul _ _ _ hsize
  have hmul : (st.behind cfg k).card * 65535 ≤ 65535 * 65535 := Nat.mul_le_mul_right _ hcard
  rw [deleteScan_spec.total, Nat.mod_eq_of_lt (hsum.trans_lt (hmul.trans_lt (by decide)))]

theorem Image.scan_le (hk : (st.files k).dataIdx ≤ cfg.blockSize) :
    (st.files k).dataIdx ≤ (st.deleteScan cfg k).srcOffset := by
  have hspec : ScanOf cfg st (st.behind cfg k) (st.deleteScan cfg k) := deleteScan_spec
  rcases hspec.attained with he | ⟨i, hi, he⟩
  · rwa [he]
  · rw [← he]
    exact (Image.mem_behind.mp hi).2.2.2.le

/-- The scan of the file table decides whether the data can be compacted. -/
theorem Image.resumeFits_iff (hval : cfg.validateMetadata = true)
    (hall : ∀ j < cfg.maxNumFiles, st.FilePasses cfg j) :
    (st.blocks (st.files k).lblock).CompactFits cfg x d (st.files k).lblock
        (st.deleteScan cfg k).srcOffset (st.files k).dataIdx (st.deleteScan cfg k).nbrBytesToMove ∧
      ((st.files k).lblock = 0 ∨ st.BlockPasses cfg 0 →
        ((st.files k).lblock ≠ 0 → (st.blocks 0).dataStart = 0 →
          (st.blocks 0).freeSize = cfg.blockSize) ∧ st.RemapFits cfg x d (st.files k).lblock) ↔
      st.ResumeFits cfg x d k := by
  have hspec : ScanOf cfg st (st.behind cfg k) (st.deleteScan cfg k) := deleteScan_spec
  rw [st.scan_total hval hall]
  constructor
  · rintro ⟨hc, hend⟩
    refine ⟨fun hpos => ?_, hc.moved, hc.kept, fun h0 hp => (hend (.inr hp)).1 h0,
      fun hp => (hend hp).2⟩
    have hle := hc.inside hpos
    rcases hspec.attained with he | ⟨i, hi, he⟩
    · omega
    · exact ⟨i, hi, he ▸ hle⟩
  · intro h
    refine ⟨⟨fun hpos => ?_, h.moved, h.kept⟩, fun hp => ⟨fun h0 => ?_, h.remap hp⟩⟩
    · obtain ⟨i, hi, hle⟩ := h.packed hpos
      have := hspec.le i hi
      omega
    · exact h.migrated h0 (hp.resolve_left h0)

end

/-- What is left of a deletion once its data is compacted. -/
theorem BuildsAside.complete_watched (h : BuildsAside cfg fl₀ x d c fl)
    (hval : cfg.validateMetadata = true) {l : Nat} (hl : l < numActiveDblocks cfg)
    {tbl : Nat → BlockMeta} (htbl : ∀ l < numActiveDblocks cfg,
      ((image cfg fl (otherMetaBlock x)).blocks l).phyId = (tbl l).phyId)
    (hp : l = 0 ∨ (image cfg fl₀ x).BlockPasses cfg 0) :
    (deleteIdxComplete cfg (l, asideBlock x d l) >>= fun _ =>
        flashFsMblockMetaUpdateFinalize cfg).Watched (mountWatch cfg) cfg.eraseVal (some x) c fl
      (fun _ _ _ _ => True) ↔ (l ≠ 0 → ((image cfg fl₀ x).blocks 0).dataStart = 0 →
        ((image cfg fl₀ x).blocks 0).freeSize = cfg.blockSize) ∧
        SpareIn cfg tbl (otherMetaBlock x) c.metaBlockHeader.scratchDblock := by
  unfold deleteIdxComplete flushScratch
  by_cases h0 : l = 0
  · subst h0
    exact (h.finalize_watched hval htbl).trans (and_iff_right fun hn => absurd rfl hn).symm
  · have hflush : (mountWatch cfg).allows (some x) fl (.flush (asideBlock x d l)) :=
      ⟨h.asideBlock_lt hl, fun b hb => by cases hb⟩
    have hne : l ≠ logicalDblock0 := h0
    simp only [if_pos hne, bind_assoc, pure_bind]
    refine issue_bind_watched.trans ((and_iff_right hflush).trans ?_)
    refine (h.migrate_watched hval htbl (hp.resolve_left h0)).trans (and_congr_left' ?_)
    exact ⟨fun hm _ => hm, fun hm => hm h0⟩

/-- A deletion on tables that pass their checks one by one does no harm when they also fit
together. -/
theorem BuildsAside.deleteIdx_watched (h : BuildsAside cfg fl₀ x d c fl)
    (hval : cfg.validateMetadata = true) (hd : c.metaBlockHeader.scratchDblock = d) {k : Nat}
    (hk : k < cfg.maxNumFiles) (hpass : (image cfg fl₀ x).FilePasses cfg k) :
    (flashFsDeleteIdx cfg k).Watched (mountWatch cfg) cfg.eraseVal (some x) c fl
      (fun _ _ _ _ => True) ↔ (((image cfg fl₀ x).files k).id ≠ 0 →
        (∀ j < cfg.maxNumFiles, (image cfg fl₀ x).FilePasses cfg j) →
        (image cfg fl₀ x).BlockPasses cfg ((image cfg fl₀ x).files k).lblock →
        (image cfg fl₀ x).ResumeFits cfg x d k) := by
  have hread : (flashFsMblockReadFileMeta cfg k).Query cfg.eraseVal (ReadOp cfg) c fl
      (.ok ((image cfg fl₀ x).files k)) := by
    have hq : (flashFsMblockReadFileMeta cfg k).Query cfg.eraseVal (ReadOp cfg) c fl _ :=
      readFileMeta_query allowsReads_readOp h.accepted (h.active.trans_lt h.a_lt) hk
    rwa [h.active, h.files, hpass] at hq
  have hplaced := (checkFile_ok hval hpass).2
  have hl := hplaced.lblock_lt
  rw [deleteIdx_eq]
  refine watched_bind.trans ?_
  unfold deleteIdxStage
  refine (hread.bind_watched ReadOp.rests).trans ?_
  have hq : ((FlashM.ofExcept (utilsValidateFid ((image cfg fl₀ x).files k).id)).failAs
      .doesNotExist : FsM Unit).Query cfg.eraseVal (ReadOp cfg) c fl
      ((utilsValidateFid ((image cfg fl₀ x).files k).id).mapError fun _ => .doesNotExist) :=
    (query_ofExcept _).failAs
  by_cases hid : ((image cfg fl₀ x).files k).id = 0
  · have hv : utilsValidateFid ((image cfg fl₀ x).files k).id = .error .doesNotExist :=
      if_neg (not_not_intro hid)
    rw [hv] at hq ⊢
    exact (hq.bind_watched_error ReadOp.rests).trans (iff_of_true trivial fun hn => absurd hid hn)
  have hv : utilsValidateFid ((image cfg fl₀ x).files k).id = .ok () := if_pos hid
  rw [hv] at hq ⊢
  refine (hq.bind_watched ReadOp.rests).trans (watched_bind.trans ?_)
  refine h.watched_iff (h.writeFile_ok hk _) ?_
  rintro _ _ fl₁ hb₁ ⟨_, rfl, rfl, -⟩
  refine watched_bind.trans (hb₁.watched_iff (deleteIdxLoop_aside hval cfg.maxNumFiles hb₁
    (Nat.zero_add _) hpass) ?_)
  rintro _ _ fl₂ hb₂ ⟨rfl, ⟨hall, rfl⟩ | ⟨⟨j, -, hj, hn⟩, e, rfl⟩⟩
  · have hall : ∀ j < cfg.maxNumFiles, (image cfg fl₀ x).FilePasses cfg j :=
      fun j hj => hall j (Nat.zero_le j) hj
    have hle := hplaced.le hid
    refine watched_bind.trans ?_
    refine (hb₂.compactStage_watched (P := (((image cfg fl₀ x).files k).lblock ≠ 0 →
      ((image cfg fl₀ x).blocks 0).dataStart = 0 →
        ((image cfg fl₀ x).blocks 0).freeSize = cfg.blockSize) ∧
        (image cfg fl₀ x).RemapFits cfg x d ((image cfg fl₀ x).files k).lblock) hval hd hl
      (fun _ => Image.scan_le (by omega)) (by omega) (fun _ _ _ => trivial) ?_).trans ?_
    · intro hb hp fl₃ hb₃ hblocks
      refine (watched_pure _).trans
        ((hb₃.complete_watched hval hl hblocks hp).trans (and_congr_right' ?_))
      rw [Ctx.withScratch_dblock, hd]
      exact h.spare.staged_iff h.a_le h.accepted hl (checkBlock_ok hval hb).2.phyId_lt
    · constructor
      · intro hw _ _ hb
        exact (Image.resumeFits_iff hval hall).mp (hw hb)
      · intro hw hb
        exact (Image.resumeFits_iff hval hall).mpr (hw hid hall hb)
  · exact iff_of_true trivial fun _ hall _ => absurd (hall j hj) hn

end Etss
