import TfmExtras.Etss.Wipe

/-! The newest committed filesystem of a flash, at every operation of an update: the old one until
the next header is in force, and the new one from then on. -/

namespace Etss
open NorFlash NorFlash.Flash FlashM

variable {cfg : Config} {s a b : Nat} {strict : Prop} {P : Image → Prop} {c : Ctx}
  {fl fl₀ flS fl' : Flash} {hdr : MetadataBlockHeader} {o : Op}

/-- Metadata block `a` holds the newest committed filesystem: its header is valid, and that of the
other block is not, or one swap older. -/
structure Newest (cfg : Config) (fl : Flash) (a : Nat) : Prop where
  le : a ≤ 1
  valid : HeaderValid cfg fl a
  newer : ∀ hMeta, readHeader cfg fl (otherMetaBlock a) = some hMeta →
    (image cfg fl a).header.activeSwapCount = nextSwapCount cfg hMeta.activeSwapCount

theorem UInt8.add_ne_self {x k : UInt8} (hk : k.toNat ≠ 0) : x + k ≠ x := by
  intro he
  have ht := congrArg UInt8.toNat he
  rw [UInt8.toNat_add] at ht
  have hx := x.toNat_lt
  have hk' := k.toNat_lt
  omega

theorem nextSwapCount_ne_self (cfg : Config) (x : UInt8) : nextSwapCount cfg x ≠ x := by
  unfold nextSwapCount
  split_ifs
  · rw [UInt8.add_assoc]
    exact UInt8.add_ne_self (by decide)
  · exact UInt8.add_ne_self (by decide)

theorem nextSwapCount_nextSwapCount_ne (cfg : Config) (x : UInt8) :
    nextSwapCount cfg (nextSwapCount cfg x) ≠ x := by
  unfold nextSwapCount
  split_ifs
  all_goals
    simp only [UInt8.add_assoc]
    exact UInt8.add_ne_self (by decide)

theorem Newest.eq {a' : Nat} (h : Newest cfg fl a) (h' : Newest cfg fl a') : a = a' := by
  by_contra hne
  have ha : otherMetaBlock a = a' := by
    have h₁ := h.le
    have h₂ := h'.le
    obtain rfl | rfl : a = 0 ∨ a = 1 := by omega
    · obtain rfl : a' = 1 := by omega
      rfl
    · obtain rfl : a' = 0 := by omega
      rfl
  have h₁ := h.newer _ (ha ▸ h'.valid.readHeader_eq)
  have h₂ := h'.newer _ (by
    rw [← ha, otherMetaBlock_other h.le]
    exact h.valid.readHeader_eq)
  rw [h₁, ha] at h₂
  exact nextSwapCount_nextSwapCount_ne cfg _ h₂.symm

/-- A flash whose newest committed filesystem is well formed. -/
structure Committed (cfg : Config) (fl : Flash) (a : Nat) : Prop extends Newest cfg fl a where
  accepted : cfg.Accepted
  wf : (image cfg fl a).Wf cfg a

/-- A block that the filesystem in metadata block `a` does not use. -/
def ScratchOf (cfg : Config) (fl : Flash) (a b : Nat) : Prop :=
  b = otherMetaBlock a ∨ (cfg.numBlocks ≠ 2 ∧ b = (image cfg fl a).header.scratchDblock)

theorem Committed.scratch_lt (h : Committed cfg fl a) (hb : ScratchOf cfg fl a b) :
    b < cfg.numBlocks := by
  rcases hb with rfl | ⟨h2, rfl⟩
  · exact lt_of_le_of_lt (otherMetaBlock_le a) h.accepted.two_le_numBlocks
  · exact (h.wf.scratch h2).2

theorem Committed.scratch_ne (h : Committed cfg fl a) (hb : ScratchOf cfg fl a b) : b ≠ a := by
  rcases hb with rfl | ⟨h2, rfl⟩
  · exact otherMetaBlock_ne a
  · have := (h.wf.scratch h2).1
    have := h.le
    omega

theorem Committed.scratch_unused (h : Committed cfg fl a) (hb : ScratchOf cfg fl a b) {l : Nat}
    (hl : l < numActiveDblocks cfg) : ((image cfg fl a).blocks l).phyId ≠ b := by
  rcases hb with rfl | ⟨h2, rfl⟩
  · exact h.wf.phyId_ne (otherMetaBlock_le a) (otherMetaBlock_ne a) hl
  · exact h.wf.phyId_ne_scratch h.le hl h2

theorem Mounted.committed (h : Mounted cfg c fl) : Committed cfg fl c.activeMetablock where
  le := h.active_le
  valid := h.valid
  newer hMeta hr := by
    rw [← h.scratch, readHeader_erased h.clean_header] at hr
    cases hr
  accepted := h.accepted
  wf := h.wf

/-! ## While an update is staged -/

/-- The blocks that do not belong to the filesystem in metadata block `a`. -/
def unusedRegion (cfg : Config) (fl : Flash) (a : Nat) : Region := fun b _ => ScratchOf cfg fl a b

section
variable (h : Committed cfg fl a) (hf : OnlyIn (unusedRegion cfg fl a) fl fl')
include h hf

theorem Committed.header_of_onlyIn : (image cfg fl' a).header = (image cfg fl a).header :=
  h.wf.header_of_onlyIn h.le hf

/-- Changes to unused blocks do not reach the filesystem. -/
theorem Committed.same_of_onlyIn : (image cfg fl a).Same cfg (image cfg fl' a) :=
  h.wf.same_of_onlyIn h.le hf

/-- They keep it the newest, unless they make the other header valid. -/
theorem Committed.of_onlyIn (hn : readHeader cfg fl' (otherMetaBlock a) = none) :
    Committed cfg fl' a ∧ (image cfg fl a).Same cfg (image cfg fl' a) := by
  have hsame := h.same_of_onlyIn hf
  refine ⟨⟨⟨h.le, h.wf.headerValid_of_onlyIn h.le hf h.valid, fun hMeta hr => ?_⟩, h.accepted,
    hsame.wf h.accepted h.wf⟩, hsame⟩
  rw [hn] at hr
  cases hr

end

theorem Committed.scratchOf_iff (h : (image cfg fl a).Same cfg (image cfg fl' a)) :
    ScratchOf cfg fl' a b ↔ ScratchOf cfg fl a b := by
  unfold ScratchOf
  rw [h.scratch]

/-- A header is read the same from a block that does not change. -/
theorem readHeader_congr {W : Region} (hf : OnlyIn W fl fl') (hW : ∀ o, ¬ W b o) :
    readHeader cfg fl' b = readHeader cfg fl b := by
  have hheader : (image cfg fl' b).header = (image cfg fl b).header :=
    image_header_congr hf fun o _ => hW o
  have hxor : metadataXor cfg fl' b = metadataXor cfg fl b := metadataXor_congr hf fun o _ _ => hW o
  unfold readHeader headerCheck
  rw [hheader, hxor]

/-- The state an update starts from: the other metadata block has no header. -/
structure Before (cfg : Config) (fl₀ : Flash) (a s : Nat) : Prop extends Committed cfg fl₀ a where
  other : s = otherMetaBlock a
  clean : Clean (range s 0 8) fl₀

theorem Mounted.before (h : Mounted cfg c fl) :
    Before cfg fl c.activeMetablock c.scratchMetablock :=
  ⟨h.committed, h.scratch, h.clean_header⟩

namespace Before
variable (h : Before cfg fl₀ a s)
include h

theorem s_le : s ≤ 1 := h.other ▸ otherMetaBlock_le a

theorem ne : s ≠ a := h.other ▸ otherMetaBlock_ne a

theorem other_s : otherMetaBlock s = a := by
  rw [h.other, otherMetaBlock_other h.le]

theorem stageRegion_unused (b o : Nat)
    (hb : stageRegion cfg s (image cfg fl₀ a).header.scratchDblock b o) :
    unusedRegion cfg fl₀ a b o := by
  rcases hb with ⟨hb, _⟩ | hb
  · exact .inl (hb.trans h.other)
  · exact .inr hb

theorem clean_of_staged
    (hf : OnlyIn (stageRegion cfg s (image cfg fl₀ a).header.scratchDblock) fl₀ fl) :
    Clean (range s 0 8) fl := by
  refine hf.clean h.clean fun b o hw => ?_
  obtain ⟨rfl, _, ho⟩ := hw
  rintro (⟨_, hlo⟩ | ⟨h2, hb⟩)
  · unfold blockMetaHeaderSize at hlo
    omega
  · have := (h.wf.scratch h2).1
    have := h.s_le
    omega

/-- While the update is staged the old filesystem is the newest. -/
theorem staged (hf : OnlyIn (stageRegion cfg s (image cfg fl₀ a).header.scratchDblock) fl₀ fl) :
    Committed cfg fl a ∧ (image cfg fl₀ a).Same cfg (image cfg fl a) := by
  refine h.of_onlyIn (hf.mono h.stageRegion_unused) ?_
  rw [← h.other]
  exact readHeader_erased (h.clean_of_staged hf)

/-- Once the header is in force the new filesystem is the newest. -/
theorem inForce (hst : Staged cfg fl₀ a s P flS hdr)
    (hwf : (stagedImage cfg flS s hdr).Wf cfg s) (hin : InForce cfg a s hdr flS fl')
    (hold : readHeader cfg fl' a = none ∨ readHeader cfg fl' a = readHeader cfg flS a) :
    Committed cfg fl' s ∧ (stagedImage cfg flS s hdr).Same cfg (image cfg fl' s) := by
  have hsame := hin.same h.s_le h.ne hwf h.le
  have hS := (h.staged hst.only).1
  refine ⟨⟨⟨h.s_le, hin.valid h.s_le h.ne hwf (hst.swap ▸ nextSwapCount_ne _ _) hst.xor,
    fun hMeta hr => ?_⟩, h.accepted, hsame.wf h.accepted hwf⟩, hsame⟩
  rw [h.other_s] at hr
  rcases hold with hn | ho
  · rw [hn] at hr
    cases hr
  · rw [ho, hS.valid.readHeader_eq] at hr
    injection hr with hr
    have hheader : (image cfg flS a).header = (image cfg fl₀ a).header :=
      image_header_congr hst.only fun o _ hb => h.toCommitted.scratch_ne
        (h.stageRegion_unused a o hb) rfl
    rw [hin.header, hst.swap, ← hr, hheader]

theorem inForce_headerWritten (hst : Staged cfg fl₀ a s P flS hdr)
    (hwf : (stagedImage cfg flS s hdr).Wf cfg s) :
    Committed cfg (headerWritten flS s hdr) s ∧
      (stagedImage cfg flS s hdr).Same cfg (image cfg (headerWritten flS s hdr) s) :=
  h.inForce hst hwf (Etss.inForce_headerWritten hst.scratch_lt) (.inr
    (readHeader_congr (onlyIn_write flS s 0 hdr.encode) fun _ hw => h.ne hw.1.symm))

theorem inForce_erased (hst : Staged cfg fl₀ a s P flS hdr)
    (hwf : (stagedImage cfg flS s hdr).Wf cfg s) :
    Committed cfg ((headerWritten flS s hdr).erase a) s ∧
      (stagedImage cfg flS s hdr).Same cfg (image cfg ((headerWritten flS s hdr).erase a) s) :=
  h.inForce hst hwf ((Etss.inForce_headerWritten hst.scratch_lt).erase h.ne.symm (.inl rfl))
    (.inl (readHeader_erased ((clean_erase _ a).mono fun _ _ hw => hw.1)))

end Before

end Etss
