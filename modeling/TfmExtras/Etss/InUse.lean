import TfmExtras.Etss.Validated
import TfmExtras.Lib.Watched

/-! The blocks that the filesystem in force uses: what an operation may change while it is in
force, and when the steps of an update on any tables keep to that. -/

namespace Etss
open NorFlash NorFlash.Flash FlashM

variable {cfg : Config} {x d : Nat} {c : Ctx} {fl fl₀ fl' : Flash} {hdr : MetadataBlockHeader}

/-- A block that the filesystem of metadata block `a` uses: that block, and those that its block
table maps to a logical block. -/
def InUse (cfg : Config) (fl : Flash) (a b : Nat) : Prop :=
  b = a ∨ ∃ l < numActiveDblocks cfg, ((image cfg fl a).blocks l).phyId = b

instance (cfg : Config) (fl : Flash) (a b : Nat) : Decidable (InUse cfg fl a b) :=
  inferInstanceAs (Decidable (b = a ∨ ∃ l < numActiveDblocks cfg,
    ((image cfg fl a).blocks l).phyId = b))

/-- The block that an operation programs or erases. -/
def changed : Op → Option Nat
  | .write b _ _ => some b
  | .erase b => some b
  | _ => none

/-- The operation stays inside a block, and programs or erases none that the filesystem of the
metadata block in force uses. -/
def Harmless (cfg : Config) (g : Option Nat) (fl : Flash) (o : Op) : Prop :=
  InBlock cfg o ∧ ∀ b ∈ changed o, ∃ a ∈ g, ¬ InUse cfg fl a b

/-- The metadata block in force after an operation: programming a header in the other one puts
that one in force. -/
def inForceAfter (g : Option Nat) : Op → Option Nat
  | .write b 0 _ => g.map fun a => if b = otherMetaBlock a then b else a
  | _ => g

/-- The operations of a mount, with the metadata block that is in force. -/
def mountWatch (cfg : Config) : Watch (Option Nat) := ⟨Harmless cfg, inForceAfter⟩

instance (cfg : Config) (g : Option Nat) (fl : Flash) (o : Op) :
    Decidable ((mountWatch cfg).allows g fl o) :=
  inferInstanceAs (Decidable (InBlock cfg o ∧ ∀ b ∈ changed o, ∃ a ∈ g, ¬ InUse cfg fl a b))

/-- A block table of metadata block `x` leaves the scratch blocks free: the other metadata block,
and the data block `d`. -/
structure SpareIn (cfg : Config) (blocks : Nat → BlockMeta) (x d : Nat) : Prop where
  other : ∀ l < numActiveDblocks cfg, (blocks l).phyId ≠ otherMetaBlock x
  dblock_lt : cfg.numBlocks ≠ 2 → d < cfg.numBlocks
  dblock_ne : cfg.numBlocks ≠ 2 → d ≠ x
  dblock : cfg.numBlocks ≠ 2 → ∀ l < numActiveDblocks cfg, (blocks l).phyId ≠ d

/-! ## Operations on the scratch blocks -/

theorem inUse_congr {W : Region} {a b : Nat} (h : OnlyIn W fl fl')
    (hW : ∀ o, 8 ≤ o → ¬ W a o) : InUse cfg fl' a b ↔ InUse cfg fl a b := by
  have hb : ∀ l, (image cfg fl' a).blocks l = (image cfg fl a).blocks l := fun l =>
    image_blocks_congr h fun o ho _ => hW o (by omega)
  unfold InUse
  simp only [hb]

/-- An operation on the block in force does harm. -/
theorem not_harmless {o : Op} (h : changed o = some x) : ¬ Harmless cfg (some x) fl o := by
  rintro ⟨-, hb⟩
  obtain ⟨a, ha, hn⟩ := hb x h
  cases ha
  exact hn (.inl rfl)

theorem harmless_of_not_inUse {o : Op} (hin : InBlock cfg o)
    (h : ∀ b ∈ changed o, ¬ InUse cfg fl x b) : Harmless cfg (some x) fl o :=
  ⟨hin, fun b hb => ⟨x, rfl, h b hb⟩⟩

theorem harmless_iff {o : Op} {b : Nat} (h : changed o = some b) :
    Harmless cfg (some x) fl o ↔ InBlock cfg o ∧ ¬ InUse cfg fl x b := by
  unfold Harmless
  rw [h]
  simp

theorem SpareIn.congr {blocks blocks' : Nat → BlockMeta} (h : SpareIn cfg blocks x d)
    (hb : ∀ l < numActiveDblocks cfg, (blocks' l).phyId = (blocks l).phyId) :
    SpareIn cfg blocks' x d where
  other l hl := hb l hl ▸ h.other l hl
  dblock_lt := h.dblock_lt
  dblock_ne := h.dblock_ne
  dblock hn l hl := hb l hl ▸ h.dblock hn l hl

/-- A write to the other metadata block behind the first byte of its header, or to the data block
`d`. -/
def WriteAside (cfg : Config) (x d b off : Nat) : Prop :=
  (b = otherMetaBlock x ∧ 0 < off) ∨ (cfg.numBlocks ≠ 2 ∧ b = d ∧ b ≠ otherMetaBlock x)

/-- An operation that leaves the filesystem of metadata block `x` in force as it is. -/
def AsideOp (cfg : Config) (x d : Nat) : Prog.Guard := fun _ o =>
  InBlock cfg o ∧ match o with
    | .write b off _ => WriteAside cfg x d b off
    | .erase _ => False
    | _ => True

theorem allowsReads_asideOp : AllowsReads cfg (AsideOp cfg x d) :=
  fun _ _ _ _ hb ho => ⟨⟨hb, ho⟩, trivial⟩

theorem AsideOp.next {o : Op} (h : AsideOp cfg x d fl o) : inForceAfter (some x) o = some x := by
  cases o with
  | write b off data =>
    obtain ⟨-, ⟨-, h0⟩ | ⟨-, -, hne⟩⟩ := h
    · cases off with
      | zero => cases h0
      | succ off => rfl
    · cases off with
      | zero => exact congrArg some (if_neg hne)
      | succ off => rfl
  | _ => rfl

/-- An update of the filesystem in metadata block `x` of `fl₀` is being built in the other metadata
block and in the data block `d`. -/
structure BuildsAside (cfg : Config) (fl₀ : Flash) (x d : Nat) (c : Ctx) (fl : Flash) : Prop
    extends Beside cfg fl₀ x (otherMetaBlock x) c fl where
  files : ∀ i, (image cfg fl x).files i = (image cfg fl₀ x).files i
  spare : SpareIn cfg (image cfg fl₀ x).blocks x d

namespace BuildsAside
variable (h : BuildsAside cfg fl₀ x d c fl)
include h

theorem ctx {c' : Ctx} (ha : c'.activeMetablock = c.activeMetablock)
    (hs : c'.scratchMetablock = c.scratchMetablock) : BuildsAside cfg fl₀ x d c' fl :=
  { h with active := ha.trans h.active, scratch := hs.trans h.scratch }

theorem flash (hs : SameTables cfg x fl fl') : BuildsAside cfg fl₀ x d c fl' :=
  { h with
    blocks := fun l => (congrFun hs.blocks l).trans (h.blocks l)
    files := fun i => (congrFun hs.files i).trans (h.files i) }

theorem not_inUse_other : ¬ InUse cfg fl x (otherMetaBlock x) := by
  rintro (he | ⟨l, hl, hp⟩)
  · exact otherMetaBlock_ne x he
  · exact h.spare.other l hl (h.blocks l ▸ hp)

theorem not_inUse_dblock (hn : cfg.numBlocks ≠ 2) : ¬ InUse cfg fl x d := by
  rintro (he | ⟨l, hl, hp⟩)
  · exact h.spare.dblock_ne hn he
  · exact h.spare.dblock hn l hl (h.blocks l ▸ hp)

theorem aside_ne {b off : Nat} (hw : WriteAside cfg x d b off) : b ≠ x := by
  obtain ⟨rfl, -⟩ | ⟨hn, rfl, -⟩ := hw
  · exact otherMetaBlock_ne x
  · exact h.spare.dblock_ne hn

theorem aside_not_inUse {b off : Nat} (hw : WriteAside cfg x d b off) : ¬ InUse cfg fl x b := by
  obtain ⟨rfl, -⟩ | ⟨hn, rfl, -⟩ := hw
  · exact h.not_inUse_other
  · exact h.not_inUse_dblock hn

theorem aside_apply {o : Op} (ho : AsideOp cfg x d fl o) : SameTables cfg x fl (fl.apply o) := by
  cases o with
  | write b off data =>
    exact sameTables_of_onlyIn (onlyIn_write fl b off data) fun o hw => h.aside_ne ho.2 hw.1.symm
  | erase b => exact ho.2.elim
  | _ => exact .refl _ _

theorem aside_harmless {o : Op} (ho : AsideOp cfg x d fl o) : Harmless cfg (some x) fl o := by
  refine harmless_of_not_inUse ho.1 fun b hb => ?_
  cases o with
  | write b' off data =>
    cases hb
    exact h.aside_not_inUse ho.2
  | erase b => exact ho.2.elim
  | _ => cases hb

/-- A step that only works aside matters for what it leaves. -/
theorem watched_iff {α : Type} {m : FsM α} {R : Post Ctx Status α}
    {Q : Option Nat → Except Status α → Ctx → Flash → Prop} {P : Prop}
    (hm : m.wp cfg.eraseVal (AsideOp cfg x d) c fl R)
    (hR : ∀ r c' fl', BuildsAside cfg fl₀ x d c fl' → R r c' fl' → (Q (some x) r c' fl' ↔ P)) :
    m.Watched (mountWatch cfg) cfg.eraseVal (some x) c fl Q ↔ P := by
  have hinv := wp_inv (I := fun fl' => BuildsAside cfg fl₀ x d c fl') hm h fun fl' o hb ho =>
    hb.flash (hb.aside_apply ho)
  exact watched_of_wp hinv (fun fl' o ho => ⟨ho.1.aside_harmless ho.2, ho.2.next⟩)
    fun r c' fl' hr => hR r c' fl' hr.1 hr.2

end BuildsAside

/-! ## Erasing the scratch blocks -/

theorem not_inUse_iff {b : Nat} (hb : b ≠ x) : ¬ InUse cfg fl x b ↔
    ∀ l < numActiveDblocks cfg, ((image cfg fl x).blocks l).phyId ≠ b := by
  unfold InUse
  rw [or_iff_right hb]
  push Not
  rfl

/-- Erasing the scratch blocks does no harm when the table in force leaves them free. -/
theorem eraseScratchBlocks_watched (hacc : cfg.Accepted)
    (hs : c.scratchMetablock = otherMetaBlock x)
    {Q : Option Nat → Except Status Unit → Ctx → Flash → Prop} :
    (mblockEraseScratchBlocks cfg).Watched (mountWatch cfg) cfg.eraseVal (some x) c fl Q ↔
      SpareIn cfg (image cfg fl x).blocks x c.metaBlockHeader.scratchDblock ∧
        Q (some x) (.ok ()) c (if cfg.numBlocks > 2 then
          (fl.erase (otherMetaBlock x)).erase c.metaBlockHeader.scratchDblock
          else fl.erase (otherMetaBlock x)) := by
  have htwo := hacc.two_le_numBlocks
  have hne := otherMetaBlock_ne x
  have hother : (mountWatch cfg).allows (some x) fl (.erase (otherMetaBlock x)) ↔
      ∀ l < numActiveDblocks cfg, ((image cfg fl x).blocks l).phyId ≠ otherMetaBlock x := by
    refine (harmless_iff (b := otherMetaBlock x) rfl).trans ?_
    rw [not_inUse_iff hne]
    exact and_iff_right ((otherMetaBlock_le x).trans_lt htwo)
  unfold mblockEraseScratchBlocks
  refine get_bind_watched.trans ?_
  rw [hs]
  refine issue_bind_watched.trans ?_
  rw [hother]
  set d := c.metaBlockHeader.scratchDblock with hd
  by_cases h2 : cfg.numBlocks > 2
  · have hdata : (mountWatch cfg).allows (some x) (fl.erase (otherMetaBlock x)) (.erase d) ↔
        d < cfg.numBlocks ∧ d ≠ x ∧
          ∀ l < numActiveDblocks cfg, ((image cfg fl x).blocks l).phyId ≠ d := by
      refine (harmless_iff (b := d) rfl).trans (and_congr_right fun _ => ?_)
      rw [inUse_congr (onlyIn_erase fl _) fun _ _ hw => hne hw.symm]
      by_cases hdx : d = x
      · exact iff_of_false (fun h => h (.inl hdx)) fun h => h.1 hdx
      · exact (not_inUse_iff hdx).trans (and_iff_right hdx).symm
    have hn : cfg.numBlocks ≠ 2 := by omega
    rw [if_pos h2, if_pos h2]
    constructor
    · rintro ⟨h, hrest⟩
      obtain ⟨hal, hQ⟩ := issue_bind_watched.mp (get_bind_watched.mp hrest)
      obtain ⟨hlt, hdx, hb⟩ := hdata.mp hal
      exact ⟨⟨h, fun _ => hlt, fun _ => hdx, fun _ => hb⟩, (watched_pure ()).mp hQ⟩
    · rintro ⟨h, hQ⟩
      refine ⟨h.other, get_bind_watched.mpr (issue_bind_watched.mpr ⟨?_, (watched_pure ()).mpr hQ⟩)⟩
      exact hdata.mpr ⟨h.dblock_lt hn, h.dblock_ne hn, h.dblock hn⟩
  · have hn : cfg.numBlocks = 2 := by omega
    rw [if_neg h2, if_neg h2]
    refine and_congr ⟨fun h => ⟨h, fun h => absurd hn h, fun h => absurd hn h, fun h => absurd hn h⟩,
      SpareIn.other⟩ (watched_pure ())

/-! ## The commit -/

/-- A read inside a block. -/
def ReadOp (cfg : Config) : Prog.Guard := fun _ o =>
  match o with
  | .read b off n => b < cfg.numBlocks ∧ off + n ≤ cfg.blockSize
  | _ => False

theorem allowsReads_readOp : AllowsReads cfg (ReadOp cfg) := fun _ _ _ _ hb ho => ⟨hb, ho⟩

theorem ReadOp.rests {g : Option Nat} (fl : Flash) (o : Op) (h : ReadOp cfg fl o) :
    (mountWatch cfg).allows g fl o ∧ (mountWatch cfg).next g o = g := by
  cases o with
  | read b off n => exact ⟨⟨h, fun b hb => by cases hb⟩, rfl⟩
  | _ => exact h.elim

theorem headerWritten_blocks (fl : Flash) (b : Nat) (hdr : MetadataBlockHeader) :
    (image cfg (headerWritten fl b hdr) b).blocks = (image cfg fl b).blocks := by
  funext l
  refine image_blocks_congr (onlyIn_write fl b 0 hdr.encode) fun o ho _ hw => ?_
  have hlt := hw.2.2
  rw [hdr.encode_length] at hlt
  omega

section
variable (hacc : cfg.Accepted) (hval : cfg.validateMetadata = true)
variable (hs : c.scratchMetablock = otherMetaBlock x)
variable {Q : Option Nat → Except Status Unit → Ctx → Flash → Prop}
include hacc hval hs

/-- Up to the write of the header only reads are made. -/
theorem writeScratchMetaHeader_watched {g : Option Nat}
    (hhdr : nextHeader cfg fl (otherMetaBlock x) c.metaBlockHeader = hdr) :
    (mblockWriteScratchMetaHeader cfg).Watched (mountWatch cfg) cfg.eraseVal g c fl Q ↔
      Harmless cfg g fl (.write (otherMetaBlock x) 0 hdr.encode) ∧
        Q (inForceAfter g (.write (otherMetaBlock x) 0 hdr.encode)) (.ok ())
          { c with metaBlockHeader := hdr } (headerWritten fl (otherMetaBlock x) hdr) := by
  have hxor : commitXor cfg fl (otherMetaBlock x) = metadataXor cfg fl (otherMetaBlock x) :=
    if_pos hval
  unfold mblockWriteScratchMetaHeader
  refine (modify_bind_watched rfl).trans ?_
  refine (modify_bind_watched (nextSwapCount_steps cfg c)).trans ?_
  refine get_bind_watched.trans ?_
  dsimp only
  rw [if_pos hval, hs]
  refine ((calculateMetadataXor_query allowsReads_readOp hacc (otherMetaBlock_le x)).bind_watched
    ReadOp.rests).trans ?_
  refine (modify_bind_watched (d := { c with metaBlockHeader := hdr }) ?_).trans ?_
  · rw [← hhdr, nextHeader, hxor, hs]
  refine get_bind_watched.trans (issue_bind_watched.trans ?_)
  rw [hs]
  exact and_congr_right fun _ => watched_pure ()

/-- The header is not programmed in the block in force. -/
theorem not_watched_finalize : ¬ (flashFsMblockMetaUpdateFinalize cfg).Watched (mountWatch cfg)
    cfg.eraseVal (some (otherMetaBlock x)) c fl Q := fun h => by
  have hw := (writeScratchMetaHeader_watched hacc hval hs rfl).mp (watched_bind.mp h)
  exact not_harmless rfl hw.1

/-- The commit does no harm when the table that it puts in force leaves the blocks free that it
then erases. -/
theorem metaUpdateFinalize_watched (hx : x ≤ 1) (ha : c.activeMetablock = x)
    (hfree : ¬ InUse cfg fl x (otherMetaBlock x))
    (hhdr : nextHeader cfg fl (otherMetaBlock x) c.metaBlockHeader = hdr) :
    (flashFsMblockMetaUpdateFinalize cfg).Watched (mountWatch cfg) cfg.eraseVal (some x) c fl Q ↔
      SpareIn cfg (image cfg fl (otherMetaBlock x)).blocks (otherMetaBlock x) hdr.scratchDblock ∧
        Q (some (otherMetaBlock x)) (.ok ()) ⟨hdr, otherMetaBlock x, x⟩
          (committed cfg fl x (otherMetaBlock x) hdr) := by
  have hlt : otherMetaBlock x < cfg.numBlocks :=
    (otherMetaBlock_le x).trans_lt hacc.two_le_numBlocks
  have hle : 0 + hdr.encode.length ≤ cfg.blockSize := by
    rw [hdr.encode_length]
    exact (Nat.zero_add 8).trans_le ((metaEnd_ge cfg).trans hacc.metaEnd_le)
  have hwrite : Harmless cfg (some x) fl (.write (otherMetaBlock x) 0 hdr.encode) :=
    (harmless_iff rfl).mpr ⟨⟨hlt, hle⟩, hfree⟩
  have hnext : inForceAfter (some x) (.write (otherMetaBlock x) 0 hdr.encode) =
      some (otherMetaBlock x) := congrArg some (if_pos rfl)
  have hflush : (mountWatch cfg).allows (some (otherMetaBlock x))
      (headerWritten fl (otherMetaBlock x) hdr) (.flush (otherMetaBlock x)) :=
    ⟨hlt, fun b hb => by cases hb⟩
  unfold flashFsMblockMetaUpdateFinalize mblockSwapMetablocks
  refine watched_bind.trans ((writeScratchMetaHeader_watched hacc hval hs hhdr).trans ?_)
  rw [hnext, and_iff_right hwrite]
  refine get_bind_watched.trans ?_
  rw [hs]
  refine issue_bind_watched.trans ((and_iff_right hflush).trans ?_)
  refine (modify_bind_watched (d := ⟨hdr, otherMetaBlock x, x⟩)
    (congrArg (Ctx.mk hdr (otherMetaBlock x)) ha)).trans ?_
  have herase : (mblockEraseScratchBlocks cfg).Watched (mountWatch cfg) cfg.eraseVal
      (some (otherMetaBlock x)) ⟨hdr, otherMetaBlock x, x⟩
      (headerWritten fl (otherMetaBlock x) hdr) Q ↔ _ :=
    eraseScratchBlocks_watched hacc (otherMetaBlock_other hx).symm
  rw [headerWritten_blocks, otherMetaBlock_other hx] at herase
  exact herase

end

end Etss
