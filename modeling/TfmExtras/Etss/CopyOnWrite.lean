import TfmExtras.Etss.Run

/-! Every call writes and erases scratch blocks only: at each operation, blocks that the newest
committed filesystem neither is in nor refers to. -/

namespace Etss
open NorFlash NorFlash.Flash FlashM

variable {cfg : Config} {a s b : Nat} {strict : Prop} {P : Image → Prop} {c c₁ : Ctx}
  {fl fl₀ fl₁ : Flash} {r : WriteReq} {f : FsCall} {o : Op}

/-- Block `b` is a scratch block of the newest committed filesystem, which is not in it and does
not refer to it. -/
def CowTarget (cfg : Config) (fl : Flash) (b : Nat) : Prop :=
  ∃ a, Newest cfg fl a ∧ ScratchOf cfg fl a b ∧ b ≠ a ∧
    ∀ l, l < numActiveDblocks cfg → ((image cfg fl a).blocks l).phyId ≠ b

/-- What an operation keeps to. -/
def CowOp (cfg : Config) : Prog.Guard := fun fl o =>
  match o with
  | .read b off n => b < cfg.numBlocks ∧ off + n ≤ cfg.blockSize
  | .write b off data => CowTarget cfg fl b ∧ b < cfg.numBlocks ∧
      off + data.length ≤ cfg.blockSize ∧
      (cfg.Aligned → cfg.programUnit ∣ off ∧ cfg.programUnit ∣ data.length)
  | .erase b => CowTarget cfg fl b ∧ b < cfg.numBlocks
  | .flush b => b < cfg.numBlocks
  | .init => True

theorem Committed.cowTarget (h : Committed cfg fl a) (hb : ScratchOf cfg fl a b) :
    CowTarget cfg fl b ∧ b < cfg.numBlocks :=
  ⟨⟨a, h.toNewest, hb, h.scratch_ne hb, fun _ hl => h.scratch_unused hb hl⟩, h.scratch_lt hb⟩

/-! ## Updates -/

namespace Before
variable (h : Before cfg fl₀ a s)
include h

/-- The scratch blocks stay the same while an update is staged. -/
theorem stage_cowTarget
    (hf : OnlyIn (stageRegion cfg s (image cfg fl₀ a).header.scratchDblock) fl₀ fl)
    (hb : b = s ∨ (cfg.numBlocks ≠ 2 ∧ b = (image cfg fl₀ a).header.scratchDblock)) :
    CowTarget cfg fl b ∧ b < cfg.numBlocks := by
  obtain ⟨hcom, hsame⟩ := h.staged hf
  exact hcom.cowTarget ((Committed.scratchOf_iff hsame).mpr (hb.imp (·.trans h.other) id))

theorem updateOp_cow (hP : ∀ st', P st' → st'.Wf cfg s)
    (ho : UpdateOp cfg fl₀ a s strict P fl o) : CowOp cfg fl o := by
  have hslt : s < cfg.numBlocks := lt_of_le_of_lt h.s_le h.accepted.two_le_numBlocks
  cases ho with
  | read hb hn => exact ⟨hb, hn⟩
  | stage hf op =>
    cases o with
    | init => trivial
    | read b off n => exact op
    | flush b => exact op
    | erase b => exact absurd op id
    | write b off data =>
      exact ⟨(h.stage_cowTarget hf (op.target.imp (·.1) id)).1, op.block_lt, op.le, op.aligned⟩
  | commit hst op =>
    have hwf := hP _ hst.step
    cases op with
    | header =>
      have hm := h.accepted.metaEnd_le
      have h8 := metaEnd_ge cfg
      have hlen := MetadataBlockHeader.encode_length
      refine ⟨(h.stage_cowTarget hst.only (.inl rfl)).1, hslt, ?_, fun ha => ⟨dvd_zero _, ?_⟩⟩
      · rw [hlen]
        omega
      · rw [hlen]
        exact ha.1
    | flush => exact hslt
    | eraseOld =>
      exact (h.inForce_headerWritten hst hwf).1.cowTarget (.inl h.other_s.symm)
    | eraseScratch h2 =>
      obtain ⟨hcom, hsame⟩ := h.inForce_erased hst hwf
      exact hcom.cowTarget (.inr ⟨by omega, hsame.scratch.symm⟩)

end Before

/-! ## Calls -/

theorem Store.before (h : Store cfg c fl) : Before cfg fl c.activeMetablock c.scratchMetablock :=
  h.toMounted.before

/-- Inside a replacement the new filesystem is the newest. -/
theorem Store.before_delete {p : WritePlan} (h : Store cfg c fl) (hv : r.Valid cfg)
    (hu : Updated cfg fl c.activeMetablock c.scratchMetablock
      (WriteOf cfg c.scratchMetablock (image cfg fl c.activeMetablock) r) c₁ fl₁)
    (hp : (image cfg fl c.activeMetablock).writePlan cfg r = .ok p)
    (hrep : p.Replaces cfg (image cfg fl c.activeMetablock) r) :
    Before cfg fl₁ c.scratchMetablock c.activeMetablock ∧
      (image cfg fl₁ c.scratchMetablock).Pending cfg p.oldIdx := by
  have hwf : (image cfg fl c.activeMetablock).Wf cfg c.activeMetablock := h.wf
  obtain ⟨hm, _, hact, _⟩ := hu.mounted h.accepted h.active_le h.scratch fun st' ⟨p', hp', hst⟩ =>
    hst.wf (hwf.writePlan_sound h.accepted h.active_le hp') hwf hv h.accepted
  have hpend := (hu.starts_delete (h.starts (False.elim : False → _)) h.scratch h.closed hv hp
    hrep).2
  have hb := hm.before
  rw [hm.scratch, hact, h.scratch, otherMetaBlock_other h.active_le, ← h.scratch] at hb
  exact ⟨hb, hpend⟩

theorem Store.writeOp_cow (h : Store cfg c fl₀) (hv : r.Valid cfg)
    (ho : WriteOp cfg fl₀ c.activeMetablock c.scratchMetablock strict r fl o) :
    CowOp cfg fl o := by
  have hwf : (image cfg fl₀ c.activeMetablock).Wf cfg c.activeMetablock := h.wf
  cases ho with
  | update op =>
    exact h.before.updateOp_cow (fun st' ⟨p, hp, hst⟩ =>
      hst.wf (hwf.writePlan_sound h.accepted h.active_le hp) hwf hv h.accepted) op
  | delete hu hp hrep op =>
    obtain ⟨hb, hpend⟩ := h.before_delete hv hu hp hrep
    exact hb.updateOp_cow (fun st' hst => hst.wf hb.wf hpend.lt hpend.valid h.accepted) op

theorem Committed.initOp_cow (h : Committed cfg fl₀ a) (ho : InitOp cfg a fl₀ fl o) :
    CowOp cfg fl o := by
  cases ho with
  | init => trivial
  | read hb hn => exact ⟨hb, hn⟩
  | eraseMeta => exact h.cowTarget (.inl rfl)
  | eraseData h2 =>
    have hf : OnlyIn (unusedRegion cfg fl₀ a) fl₀ (fl₀.erase (otherMetaBlock a)) :=
      (onlyIn_erase fl₀ _).mono fun b o hw => .inl hw
    obtain ⟨hcom, hsame⟩ := h.of_onlyIn hf
      (readHeader_erased ((clean_erase fl₀ _).mono fun b o hw => hw.1))
    exact hcom.cowTarget ((Committed.scratchOf_iff hsame).mpr (.inr ⟨by omega, rfl⟩))

theorem Store.guarded_cow (h : Store cfg c fl₀) (hv : f.Valid cfg)
    (ho : f.Guarded cfg strict c fl₀ fl o) : CowOp cfg fl o := by
  have hwf : (image cfg fl₀ c.activeMetablock).Wf cfg c.activeMetablock := h.wf
  cases f with
  | write r => exact h.writeOp_cow hv ho
  | delete fid =>
    exact h.before.updateOp_cow (fun st' ⟨d, hd, hid, hst⟩ =>
      hst.wf hwf hd (hid.symm ▸ hv) h.accepted) ho
  | prepare =>
    cases ho with
    | init op => exact h.committed.initOp_cow op
    | delete hpend _ => exact absurd h.closed hpend.not_closed

/-- In every state that is reached, every operation of every call keeps to the scratch blocks,
inside the blocks, and to the program unit. -/
theorem reaches_copyOnWrite (hacc : cfg.Accepted) (h : Reaches cfg c fl) (hv : f.Valid cfg) :
    ∀ x ∈ (f.exec cfg).trace cfg.eraseVal c fl, CowOp cfg x.1 x.2 := by
  intro x hx
  have hs := h.store hacc
  have hw := wp_iff.mp (hs.call_wp f hv (False.elim : False → _))
  exact hs.guarded_cow hv (hw.1 x hx)

/-- A flash of five blocks with one file. -/
def oneFile : Ctx × Flash := filled fiveBlocks [.write fourBytes]

/-- The deletion of the file. -/
theorem copyOnWrite_of_delete :
    0 < (((FsCall.delete 1).exec fiveBlocks).trace fiveBlocks.eraseVal
      oneFile.1 oneFile.2).length ∧
    ∀ x ∈ ((FsCall.delete 1).exec fiveBlocks).trace fiveBlocks.eraseVal oneFile.1 oneFile.2,
      CowOp fiveBlocks x.1 x.2 :=
  ⟨by decide +kernel, reaches_copyOnWrite fiveBlocks_accepted (reaches_filled (by decide))
    (by decide)⟩

end Etss
