import TfmExtras.Etss.Coherent

/-! Updates in which a flash operation fails: the context and the flash that are left, by the part
of the update that issues the first operation that fails. -/

namespace Etss
open NorFlash NorFlash.Flash FlashM

variable {cfg : Config} {a s : Nat} {P : Image → Prop} {c c₁ : Ctx} {fl₀ fl₁ fl₂ fl' : Flash}
  {F : Faults} {i : Nat} {α : Type} {stage : FsM α} {complete : α → FsM Unit} {x : α}

/-- How many operations an update issues up to the end of each of its parts: up to the change of
the scratch block in the context, before the commit, with the new header, and in all. -/
structure Positions where
  staged : Nat
  completed : Nat
  published : Nat
  done : Nat

def positions (cfg : Config) (stage : FsM α) (complete : α → FsM Unit) (c : Ctx) (fl : Flash) :
    Positions where
  staged := (stage.trace cfg.eraseVal c fl).length
  completed := ((stage >>= complete).trace cfg.eraseVal c fl).length
  published := ((stage >>= fun x => complete x >>= fun _ => commitHeader cfg).trace
    cfg.eraseVal c fl).length
  done := ((stage >>= fun x => complete x >>= fun _ => flashFsMblockMetaUpdateFinalize cfg).trace
    cfg.eraseVal c fl).length

/-- The first operation that fails lies between the first change of the header in the context and
the exchange of the metadata blocks, or it is the erase of an old header that is not overtaken, and
leaves it. The header first changes with the scratch block, if that is `moved`, and else with the
swap count. -/
def Positions.Hit (p : Positions) (moved overtakes : Prop) (F : Faults) : Prop :=
  ∃ i, F.FirstAt i ∧ (((moved ∧ p.staged ≤ i ∨ p.completed ≤ i) ∧ i < p.published) ∨
    (i = p.published ∧ F i = some 0 ∧ ¬ overtakes))

theorem Positions.hit_iff {p : Positions} {moved overtakes : Prop} (hF : F.FirstAt i) :
    p.Hit moved overtakes F ↔ ((moved ∧ p.staged ≤ i ∨ p.completed ≤ i) ∧ i < p.published) ∨
      (i = p.published ∧ F i = some 0 ∧ ¬ overtakes) := by
  constructor
  · rintro ⟨j, hj, hh⟩
    obtain rfl := hF.eq hj
    exact hh
  · exact fun hh => ⟨i, hF, hh⟩

/-- An update in two stages, from a mounted filesystem: the first may change the scratch block of
the context at its end, and the header of the context commits what both have staged. -/
structure Stages (cfg : Config) (fl₀ : Flash) (a s : Nat) (P : Image → Prop) (c : Ctx)
    (stage : FsM α) (complete : α → FsM Unit) (x : α) (c₁ : Ctx) (fl₁ fl₂ : Flash) : Prop where
  before : Before cfg fl₀ a s
  header : c.metaBlockHeader = (image cfg fl₀ a).header
  active : c.activeMetablock = a
  scratch : c.scratchMetablock = s
  active₁ : c₁.activeMetablock = a
  scratch₁ : c₁.scratchMetablock = s
  stage_givesUp : stage.GivesUp c (fun _ => True) (· = c) fun _ => True
  stage_run : stage.run cfg.eraseVal c fl₀ = ⟨.ok x, c₁, fl₁⟩
  stage_trace : ∀ y ∈ stage.trace cfg.eraseVal c fl₀, ∀ n,
    OnlyIn (stageRegion cfg s (image cfg fl₀ a).header.scratchDblock) fl₀ (y.1.failed n y.2)
  complete_steady : (complete x).Steady c₁
  complete_run : (complete x).run cfg.eraseVal c₁ fl₁ = ⟨.ok (), c₁, fl₂⟩
  complete_trace : ∀ y ∈ (complete x).trace cfg.eraseVal c₁ fl₁, ∀ n,
    OnlyIn (stageRegion cfg s (image cfg fl₀ a).header.scratchDblock) fl₀ (y.1.failed n y.2)
  swapCount : c₁.metaBlockHeader.activeSwapCount = (image cfg fl₀ a).header.activeSwapCount
  staged : Staged cfg fl₀ a s P fl₂ (nextHeader cfg fl₂ s c₁.metaBlockHeader)
  wf : ∀ st', P st' → st'.Wf cfg s

/-- The operations that write a header. -/
inductive HeaderOp (s : Nat) (hdr : MetadataBlockHeader) (flS : Flash) : Prog.Guard
  | read {fl : Flash} {b off n : Nat} : HeaderOp s hdr flS fl (.read b off n)
  | write : HeaderOp s hdr flS flS (.write s 0 hdr.encode)
  | flush {fl : Flash} : HeaderOp s hdr flS fl (.flush s)

theorem headerOp_apply {hdr : MetadataBlockHeader} {flS fl : Flash} {o : Op}
    (hf : fl = flS ∨ fl = headerWritten flS s hdr) (ho : HeaderOp s hdr flS fl o) :
    fl.apply o = flS ∨ fl.apply o = headerWritten flS s hdr := by
  cases ho with
  | read => exact hf
  | write => exact .inr rfl
  | flush => exact hf

theorem headerWritten_eq (fl : Flash) (s : Nat) (hdr : MetadataBlockHeader) :
    headerWritten fl s hdr = fl.write s 0 (hdr.encode.take 8) := by
  rw [List.take_of_length_le hdr.encode_length.le]
  rfl

/-- The flash when an operation that writes a header fails. -/
theorem headerOp_failed {hdr : MetadataBlockHeader} {flS fl : Flash} {o : Op} {n : Nat}
    (hf : fl = flS ∨ fl = headerWritten flS s hdr) (ho : HeaderOp s hdr flS fl o) :
    fl.failed n o = flS ∨ ∃ m, fl.failed n o = flS.write s 0 (hdr.encode.take m) := by
  cases ho with
  | read => exact hf.imp id fun he => ⟨8, he.trans (headerWritten_eq ..)⟩
  | write => exact .inr ⟨n, rfl⟩
  | flush => exact hf.imp id fun he => ⟨8, he.trans (headerWritten_eq ..)⟩

namespace Stages
variable (h : Stages cfg fl₀ a s P c stage complete x c₁ fl₁ fl₂)
include h

theorem accepted : cfg.Accepted := h.before.accepted

theorem commitHeader_run :
    (∃ r, (commitHeader cfg).run cfg.eraseVal c₁ fl₂ =
      ⟨.ok r, { c₁ with metaBlockHeader := nextHeader cfg fl₂ s c₁.metaBlockHeader },
        headerWritten fl₂ s (nextHeader cfg fl₂ s c₁.metaBlockHeader)⟩) ∧
    ∀ y ∈ (commitHeader cfg).trace cfg.eraseVal c₁ fl₂, ∀ n, y.1.failed n y.2 = fl₂ ∨
      ∃ m, y.1.failed n y.2 =
        fl₂.write s 0 ((nextHeader cfg fl₂ s c₁.metaBlockHeader).encode.take m) := by
  have hok : (commitHeader cfg).Ok cfg.eraseVal
      (HeaderOp s (nextHeader cfg fl₂ s c₁.metaBlockHeader) fl₂) c₁ fl₂ fun _ c' fl' =>
        c' = { c₁ with metaBlockHeader := nextHeader cfg fl₂ s c₁.metaBlockHeader } ∧
        fl' = headerWritten fl₂ s (nextHeader cfg fl₂ s c₁.metaBlockHeader) := by
    have hs := h.scratch₁
    subst hs
    exact commitHeader_ok (fun _ _ _ _ _ _ => .read) h.accepted h.before.s_le rfl .write .flush
  have hw := wp_inv hok (.inl rfl) fun _ _ => headerOp_apply
  obtain ⟨r, _, _, hr, rfl, rfl⟩ := hok.exists_run
  exact ⟨⟨r, hr⟩, fun y hy n =>
    headerOp_failed ((wp_iff.mp hw).1 y hy).1 ((wp_iff.mp hw).1 y hy).2⟩

end Stages

/-! ## The end of an update -/

/-- The context once the metadata blocks have changed places. -/
def Ctx.swapped (c : Ctx) : Ctx := ⟨c.metaBlockHeader, c.scratchMetablock, c.activeMetablock⟩

theorem commitEraseMeta_run (c : Ctx) (fl : Flash) : commitEraseMeta.run cfg.eraseVal c fl =
    ⟨.ok [], c.swapped, fl.erase c.activeMetablock⟩ := rfl

theorem commitEraseMeta_trace (c : Ctx) (fl : Flash) : commitEraseMeta.trace cfg.eraseVal c fl =
    [(fl, .erase c.activeMetablock)] := rfl

theorem commitEraseMeta_givesUp : commitEraseMeta.GivesUp c (fun _ => True) (· = c.swapped)
    fun _ => True :=
  modify_bind_givesUp (show _ = c.swapped from rfl) (get_bind_givesUp (givesUp_issue _ trivial rfl trivial))

theorem commitEraseData_steady : (commitEraseData cfg).Steady c :=
  Steady.ite ((curDataScratchId_steady _).bind fun _ => (steady_issue _ _).bind fun _ =>
    steady_pure _) (steady_pure _)

/-- The old data block, if there is one, is the last to be erased. -/
theorem commitEraseData_run (c : Ctx) (fl : Flash) :
    (commitEraseData cfg).run cfg.eraseVal c fl = ⟨.ok (), c,
      if cfg.numBlocks > 2 then fl.erase c.metaBlockHeader.scratchDblock else fl⟩ ∧
    ∀ y ∈ (commitEraseData cfg).trace cfg.eraseVal c fl, ∀ n, y.1.failed n y.2 = fl ∨
      cfg.numBlocks > 2 ∧ y.1.failed n y.2 = fl.erase c.metaBlockHeader.scratchDblock := by
  unfold commitEraseData
  split_ifs with h2
  · refine ⟨rfl, fun y hy n => ?_⟩
    obtain rfl : y = (fl, .erase c.metaBlockHeader.scratchDblock) := List.mem_singleton.mp hy
    unfold failed
    dsimp only
    split_ifs
    · exact .inl rfl
    · exact .inr ⟨h2, rfl⟩
  · exact ⟨rfl, fun y hy => (nomatch hy)⟩

namespace Stages
variable (h : Stages cfg fl₀ a s P c stage complete x c₁ fl₁ fl₂)
include h

/-- The context and the flash once the header is written. -/
theorem positions_eq : (positions cfg stage complete c fl₀).completed =
      (positions cfg stage complete c fl₀).staged +
        ((complete x).trace cfg.eraseVal c₁ fl₁).length ∧
    (positions cfg stage complete c fl₀).published =
      (positions cfg stage complete c fl₀).completed +
        ((commitHeader cfg).trace cfg.eraseVal c₁ fl₂).length ∧
    (positions cfg stage complete c fl₀).done = (positions cfg stage complete c fl₀).published +
      (1 + ((commitEraseData cfg).trace cfg.eraseVal
        ⟨nextHeader cfg fl₂ s c₁.metaBlockHeader, s, a⟩
        ((headerWritten fl₂ s (nextHeader cfg fl₂ s c₁.metaBlockHeader)).erase a)).length) := by
  obtain ⟨⟨r, hr⟩, _⟩ := h.commitHeader_run
  have hs := congrArg Outcome.status h.stage_run
  have hc := congrArg Outcome.status h.complete_run
  have hh := congrArg Outcome.status hr
  dsimp only at hs hc hh
  unfold positions
  simp only [metaUpdateFinalize_eq]
  have ha := h.active₁
  have hsc := h.scratch₁
  subst ha hsc
  simp only [trace_bind_ok hs, h.stage_run, trace_bind_ok hc, h.complete_run, trace_bind_ok hh, hr,
    trace_bind_ok (congrArg Outcome.status (commitEraseMeta_run _ _)),
    commitEraseMeta_trace, commitEraseMeta_run, List.length_append]
  refine ⟨trivial, (Nat.add_assoc _ _ _).symm, ?_⟩
  simp only [Nat.add_assoc]
  rfl

/-- What the update leaves. -/
theorem update_run : (stage >>= fun x => complete x >>= fun _ =>
      flashFsMblockMetaUpdateFinalize cfg).run cfg.eraseVal c fl₀ =
    ⟨.ok (), ⟨nextHeader cfg fl₂ s c₁.metaBlockHeader, s, a⟩,
      committed cfg fl₂ a s (nextHeader cfg fl₂ s c₁.metaBlockHeader)⟩ := by
  obtain ⟨⟨r, hr⟩, _⟩ := h.commitHeader_run
  rw [run_bind_ok (congrArg Outcome.status h.stage_run), h.stage_run,
    run_bind_ok (congrArg Outcome.status h.complete_run), h.complete_run, metaUpdateFinalize_eq,
    run_bind_ok (congrArg Outcome.status hr), hr,
    run_bind_ok (congrArg Outcome.status (commitEraseMeta_run _ _)),
    commitEraseMeta_run, (commitEraseData_run _ _).1]
  unfold Ctx.swapped committed
  dsimp only
  rw [h.active₁, h.scratch₁]

variable {rest : α → FsM Unit}

theorem runFaulty_staged (hF : F.CleanFor (positions cfg stage complete c fl₀).staged) :
    (stage >>= fun x => complete x >>= fun _ => flashFsMblockMetaUpdateFinalize cfg >>= fun _ =>
      rest x).runFaulty cfg.eraseVal F c fl₀ =
    (complete x >>= fun _ => flashFsMblockMetaUpdateFinalize cfg >>= fun _ => rest x).runFaulty
      cfg.eraseVal (F.drop (positions cfg stage complete c fl₀).staged) c₁ fl₁ := by
  rw [runFaulty_bind_of_clean hF (congrArg Outcome.status h.stage_run), h.stage_run]
  rfl

theorem runFaulty_completed (hF : F.CleanFor (positions cfg stage complete c fl₀).completed) :
    (stage >>= fun x => complete x >>= fun _ => flashFsMblockMetaUpdateFinalize cfg >>= fun _ =>
      rest x).runFaulty cfg.eraseVal F c fl₀ =
    (commitHeader cfg >>= fun _ => commitEraseMeta >>= fun _ => commitEraseData cfg >>= fun _ =>
      rest x).runFaulty cfg.eraseVal (F.drop (positions cfg stage complete c fl₀).completed)
        c₁ fl₂ := by
  have hp := h.positions_eq.1
  rw [hp] at hF
  rw [h.runFaulty_staged (hF.mono (Nat.le_add_right _ _)),
    runFaulty_bind_of_clean hF.drop (congrArg Outcome.status h.complete_run), h.complete_run,
    Faults.drop_drop, ← hp, metaUpdateFinalize_eq]
  simp only [bind_assoc]

theorem runFaulty_published (hF : F.CleanFor (positions cfg stage complete c fl₀).published) :
    (stage >>= fun x => complete x >>= fun _ => flashFsMblockMetaUpdateFinalize cfg >>= fun _ =>
      rest x).runFaulty cfg.eraseVal F c fl₀ =
    (commitEraseMeta >>= fun _ => commitEraseData cfg >>= fun _ => rest x).runFaulty cfg.eraseVal
      (F.drop (positions cfg stage complete c fl₀).published)
      ⟨nextHeader cfg fl₂ s c₁.metaBlockHeader, a, s⟩
      (headerWritten fl₂ s (nextHeader cfg fl₂ s c₁.metaBlockHeader)) := by
  have hp := h.positions_eq.2.1
  obtain ⟨⟨r, hr⟩, _⟩ := h.commitHeader_run
  rw [hp] at hF
  rw [h.runFaulty_completed (hF.mono (Nat.le_add_right _ _)),
    runFaulty_bind_of_clean hF.drop (congrArg Outcome.status hr), hr, Faults.drop_drop, ← hp]
  dsimp only
  rw [h.active₁, h.scratch₁]

theorem runFaulty_erased (hF : F.CleanFor ((positions cfg stage complete c fl₀).published + 1)) :
    (stage >>= fun x => complete x >>= fun _ => flashFsMblockMetaUpdateFinalize cfg >>= fun _ =>
      rest x).runFaulty cfg.eraseVal F c fl₀ =
    (commitEraseData cfg >>= fun _ => rest x).runFaulty cfg.eraseVal
      (F.drop ((positions cfg stage complete c fl₀).published + 1))
      ⟨nextHeader cfg fl₂ s c₁.metaBlockHeader, s, a⟩
      ((headerWritten fl₂ s (nextHeader cfg fl₂ s c₁.metaBlockHeader)).erase a) := by
  rw [h.runFaulty_published (hF.mono (Nat.le_add_right _ _)),
    runFaulty_bind_of_clean (a := []) hF.drop rfl, Faults.drop_drop]
  rfl

/-- Without an operation that fails, the update is made. -/
theorem runFaulty_done (hF : F.CleanFor (positions cfg stage complete c fl₀).done) :
    (stage >>= fun x => complete x >>= fun _ => flashFsMblockMetaUpdateFinalize cfg >>= fun _ =>
      rest x).runFaulty cfg.eraseVal F c fl₀ =
    (rest x).runFaulty cfg.eraseVal (F.drop (positions cfg stage complete c fl₀).done)
      ⟨nextHeader cfg fl₂ s c₁.metaBlockHeader, s, a⟩
      (committed cfg fl₂ a s (nextHeader cfg fl₂ s c₁.metaBlockHeader)) := by
  have hp := h.positions_eq.2.2
  rw [← Nat.add_assoc] at hp
  rw [hp] at hF
  rw [h.runFaulty_erased (hF.mono (Nat.le_add_right _ _)),
    runFaulty_bind_of_clean hF.drop (congrArg Outcome.status (commitEraseData_run _ _).1),
    (commitEraseData_run _ _).1, Faults.drop_drop, ← hp]
  rfl

/-! ## Whether the context is coherent -/

/-- An operation that fails in the first stage leaves the context as it was. -/
theorem coherent_staged (hF : F.FirstAt i) (hi : i < (positions cfg stage complete c fl₀).staged) :
    Coherent cfg
      ((stage >>= fun x => complete x >>= fun _ => flashFsMblockMetaUpdateFinalize cfg >>= fun _ =>
        rest x).runFaulty cfg.eraseVal F c fl₀).ctx
      ((stage >>= fun x => complete x >>= fun _ => flashFsMblockMetaUpdateFinalize cfg >>= fun _ =>
        rest x).runFaulty cfg.eraseVal F c fl₀).flash := by
  obtain ⟨_, hc, y, hy, n, _, hf⟩ := h.stage_givesUp.runFaulty_bind
    (f := fun x => complete x >>= fun _ => flashFsMblockMetaUpdateFinalize cfg >>= fun _ => rest x)
    hF hi
  obtain ⟨hm, hheader⟩ := h.before.mountable (h.stage_trace y hy n)
  rw [hc, hf]
  refine hm.coherent h.active (h.scratch.trans h.before.other) ?_ ?_
  · rw [h.header, hheader]
  · rw [h.header, hheader]

/-- After it the context may already have the next scratch block. -/
theorem coherent_completed_iff (hF : F.FirstAt i)
    (h₁ : (positions cfg stage complete c fl₀).staged ≤ i)
    (h₂ : i < (positions cfg stage complete c fl₀).completed) :
    Coherent cfg
      ((stage >>= fun x => complete x >>= fun _ => flashFsMblockMetaUpdateFinalize cfg >>= fun _ =>
        rest x).runFaulty cfg.eraseVal F c fl₀).ctx
      ((stage >>= fun x => complete x >>= fun _ => flashFsMblockMetaUpdateFinalize cfg >>= fun _ =>
        rest x).runFaulty cfg.eraseVal F c fl₀).flash ↔
    c₁.metaBlockHeader.scratchDblock = (image cfg fl₀ a).header.scratchDblock := by
  rw [h.positions_eq.1] at h₂
  rw [h.runFaulty_staged (hF.cleanFor h₁)]
  have hlt : i - (positions cfg stage complete c fl₀).staged <
      ((complete x).trace cfg.eraseVal c₁ fl₁).length := by omega
  obtain ⟨_, hc, y, hy, n, _, hf⟩ := h.complete_steady.runFaulty_bind
    (f := fun _ => flashFsMblockMetaUpdateFinalize cfg >>= fun _ => rest x) (hF.drop h₁) hlt
  obtain ⟨hm, hheader⟩ := h.before.mountable (h.complete_trace y hy n)
  rw [hc, hf]
  constructor
  · intro hco
    rw [hco.scratchDblock, hm.mounts_eq.2]
    exact congrArg MetadataBlockHeader.scratchDblock hheader
  · intro hd
    refine hm.coherent h.active₁ (h.scratch₁.trans h.before.other) ?_ ?_
    · rw [hd, hheader]
    · rw [h.swapCount, hheader]

theorem header_written (hfl : fl' = fl₂ ∨ ∃ m, fl' =
      fl₂.write s 0 ((nextHeader cfg fl₂ s c₁.metaBlockHeader).encode.take m)) :
    (image cfg fl' a).header = (image cfg fl₀ a).header ∧
      ∀ b, b ≤ 1 → ∀ hMeta, readHeader cfg fl' b = some hMeta →
        hMeta.fsVersion = supportedVersion := by
  have hS := h.staged.only
  obtain ⟨hm, hheader⟩ := h.before.mountable hS
  have hclean := h.before.clean_of_staged hS
  have hfl' : OnlyIn (fun b _ => b = s) fl₂ fl' := by
    rcases hfl with rfl | ⟨m, rfl⟩
    · exact .refl _ _
    · exact (onlyIn_write _ _ _ _).mono fun _ _ hw => hw.1
  have ha : (image cfg fl' a).header = (image cfg fl₂ a).header :=
    image_header_congr hfl' fun _ _ => h.before.ne.symm
  refine ⟨ha.trans hheader, fun b hb hMeta hr => ?_⟩
  by_cases hba : b = a
  · rw [hba] at hr
    rw [(readHeader_some hr).1, ha]
    exact hm.valid.version
  · obtain rfl : b = s := by
      have h₁ := h.before.le
      have h₂ := h.before.s_le
      have h₃ := h.before.ne
      omega
    rcases hfl with rfl | ⟨m, rfl⟩
    · rw [readHeader_erased hclean] at hr
      cases hr
    · exact (readHeader_torn hclean hr).trans (h.wf _ h.staged.step).version

/-- From the next swap count on, and until the metadata blocks change places, the context is ahead
of the flash, or behind it. -/
theorem not_coherent_published (hF : F.FirstAt i)
    (h₁ : (positions cfg stage complete c fl₀).completed ≤ i)
    (h₂ : i < (positions cfg stage complete c fl₀).published) :
    ¬ Coherent cfg
      ((stage >>= fun x => complete x >>= fun _ => flashFsMblockMetaUpdateFinalize cfg >>= fun _ =>
        rest x).runFaulty cfg.eraseVal F c fl₀).ctx
      ((stage >>= fun x => complete x >>= fun _ => flashFsMblockMetaUpdateFinalize cfg >>= fun _ =>
        rest x).runFaulty cfg.eraseVal F c fl₀).flash := by
  rw [h.positions_eq.2.1] at h₂
  rw [h.runFaulty_completed (hF.cleanFor h₁)]
  have hlt : i - (positions cfg stage complete c fl₀).completed <
      ((commitHeader cfg).trace cfg.eraseVal c₁ fl₂).length := by omega
  obtain ⟨_, hc, y, hy, n, _, hf⟩ := commitHeader_givesUp.runFaulty_bind
    (f := fun _ => commitEraseMeta >>= fun _ => commitEraseData cfg >>= fun _ => rest x)
    (hF.drop h₁) hlt
  obtain ⟨hheader, hver⟩ := h.header_written (h.commitHeader_run.2 y hy n)
  rw [hf]
  refine not_coherent h.accepted hver (hc.1.trans h.active₁) (.inr ?_)
  rw [hc.2, h.swapCount, hheader]
  exact nextSwapCount_ne_self cfg _

/-- Mounting takes the new filesystem while the old header is still there, if it is later. -/
theorem selectActive_headerWritten_iff :
    selectActive cfg (headerWritten fl₂ s (nextHeader cfg fl₂ s c₁.metaBlockHeader)) = .ok s ↔
      Overtakes cfg s (image cfg fl₀ a).header.activeSwapCount := by
  have hheader : (image cfg (headerWritten fl₂ s (nextHeader cfg fl₂ s c₁.metaBlockHeader))
      a).header = (image cfg fl₀ a).header := (h.header_written (.inr ⟨8, headerWritten_eq ..⟩)).1
  have hin : (image cfg (headerWritten fl₂ s (nextHeader cfg fl₂ s c₁.metaBlockHeader)) s).header =
      nextHeader cfg fl₂ s c₁.metaBlockHeader :=
    (inForce_headerWritten (a := a) h.staged.scratch_lt).header
  have hswap : (nextHeader cfg fl₂ s c₁.metaBlockHeader).activeSwapCount =
      nextSwapCount cfg (image cfg fl₀ a).header.activeSwapCount := h.staged.swap
  rw [(h.before.interrupted h.staged (h.wf _ h.staged.step)).selectActive_iff, h.before.other_s,
    hheader, hin, hswap]
  rfl

/-- The state that the update leaves. -/
theorem mounted : Mounted cfg ⟨nextHeader cfg fl₂ s c₁.metaBlockHeader, s, a⟩
    (committed cfg fl₂ a s (nextHeader cfg fl₂ s c₁.metaBlockHeader)) :=
  (Updated.mounted ⟨fl₂, _, h.staged, rfl, rfl⟩ h.accepted h.before.le h.before.other h.wf).1

theorem coherent_new {fl' : Flash}
    (hsel : selectActive cfg fl' = .ok s) (hc : Committed cfg fl' s)
    (hin : InForce cfg a s (nextHeader cfg fl₂ s c₁.metaBlockHeader) fl₂ fl') :
    Coherent cfg ⟨nextHeader cfg fl₂ s c₁.metaBlockHeader, s, a⟩ fl' := by
  have hm : Mountable cfg s fl' := ⟨h.accepted, h.before.s_le, hsel, hc.valid, hc.wf⟩
  exact hm.coherent rfl h.before.other_s.symm (congrArg _ hin.header.symm)
    (congrArg _ hin.header.symm)

theorem coherent_header_erased : Coherent cfg ⟨nextHeader cfg fl₂ s c₁.metaBlockHeader, s, a⟩
    ((headerWritten fl₂ s (nextHeader cfg fl₂ s c₁.metaBlockHeader)).erase a) := by
  obtain ⟨hnew, _⟩ := h.before.inForce_erased h.staged (h.wf _ h.staged.step)
  have ho : readHeader cfg ((headerWritten fl₂ s (nextHeader cfg fl₂ s c₁.metaBlockHeader)).erase a)
      (otherMetaBlock s) = none := by
    rw [h.before.other_s]
    exact readHeader_erased ((clean_erase _ a).mono fun _ _ hw => hw.1)
  exact h.coherent_new (selectActive_of_only hnew.le hnew.valid.readHeader_eq ho) hnew
    ((inForce_headerWritten h.staged.scratch_lt).erase h.before.ne.symm (.inl rfl))

/-- When the old metadata block is not erased, it depends on the comparison of the swap counts. -/
theorem coherent_swapped_iff (hF : F.FirstAt (positions cfg stage complete c fl₀).published) :
    Coherent cfg
      ((stage >>= fun x => complete x >>= fun _ => flashFsMblockMetaUpdateFinalize cfg >>= fun _ =>
        rest x).runFaulty cfg.eraseVal F c fl₀).ctx
      ((stage >>= fun x => complete x >>= fun _ => flashFsMblockMetaUpdateFinalize cfg >>= fun _ =>
        rest x).runFaulty cfg.eraseVal F c fl₀).flash ↔
    (F (positions cfg stage complete c fl₀).published = some 0 →
      Overtakes cfg s (image cfg fl₀ a).header.activeSwapCount) := by
  have hF' := hF.drop le_rfl
  rw [Nat.sub_self] at hF'
  rw [h.runFaulty_published (hF.cleanFor le_rfl)]
  have hlt : 0 < (commitEraseMeta.trace cfg.eraseVal
      ⟨nextHeader cfg fl₂ s c₁.metaBlockHeader, a, s⟩
      (headerWritten fl₂ s (nextHeader cfg fl₂ s c₁.metaBlockHeader))).length := Nat.zero_lt_succ _
  obtain ⟨_, hc, y, hy, n, hn, hf⟩ := commitEraseMeta_givesUp.runFaulty_bind
    (f := fun _ => commitEraseData cfg >>= fun _ => rest x) hF' hlt
  have hn' : F (positions cfg stage complete c fl₀).published = some n := hn
  rw [commitEraseMeta_trace, List.mem_singleton] at hy
  rw [hc, hf, hy, hn']
  unfold failed
  dsimp only
  split_ifs with h0
  · subst h0
    rw [← h.selectActive_headerWritten_iff]
    have hnew := h.before.inForce_headerWritten h.staged (h.wf _ h.staged.step)
    constructor
    · intro hco _
      obtain ⟨b, hsel, hb⟩ := mounts_active h.accepted
        (h.header_written (.inr ⟨8, headerWritten_eq ..⟩)).2 hco.mountable
      have hact : s = (mounts cfg (headerWritten fl₂ s
          (nextHeader cfg fl₂ s c₁.metaBlockHeader))).ctx.activeMetablock := hco.active
      rw [hb] at hact
      rw [hsel]
      exact congrArg Except.ok hact.symm
    · exact fun hsel => h.coherent_new (hsel rfl) hnew.1 (inForce_headerWritten h.staged.scratch_lt)
  · refine iff_of_true h.coherent_header_erased fun he => ?_
    injection he with he
    exact absurd he h0

/-- Once it is erased, mounting takes the new filesystem. -/
theorem coherent_erased (hF : F.FirstAt i)
    (h₁ : (positions cfg stage complete c fl₀).published < i)
    (h₂ : i < (positions cfg stage complete c fl₀).done) :
    Coherent cfg
      ((stage >>= fun x => complete x >>= fun _ => flashFsMblockMetaUpdateFinalize cfg >>= fun _ =>
        rest x).runFaulty cfg.eraseVal F c fl₀).ctx
      ((stage >>= fun x => complete x >>= fun _ => flashFsMblockMetaUpdateFinalize cfg >>= fun _ =>
        rest x).runFaulty cfg.eraseVal F c fl₀).flash := by
  rw [h.positions_eq.2.2] at h₂
  rw [h.runFaulty_erased (hF.cleanFor h₁)]
  have hlt : i - ((positions cfg stage complete c fl₀).published + 1) <
      ((commitEraseData cfg).trace cfg.eraseVal ⟨nextHeader cfg fl₂ s c₁.metaBlockHeader, s, a⟩
        ((headerWritten fl₂ s (nextHeader cfg fl₂ s c₁.metaBlockHeader)).erase a)).length := by
    omega
  obtain ⟨_, hc, y, hy, n, _, hf⟩ := commitEraseData_steady.runFaulty_bind (f := fun _ => rest x)
    (hF.drop h₁) hlt
  rw [hc, hf]
  rcases (commitEraseData_run _ _).2 y hy n with he | ⟨h2, he⟩
  · rw [he]
    exact h.coherent_header_erased
  · have hm := h.mounted
    unfold committed at hm
    rw [if_pos h2] at hm
    rw [he]
    exact hm.coherent

/-- The context is coherent after an operation of the update fails, unless the failure hits it. -/
theorem coherent_iff {moved : Prop} (hm : c₁.metaBlockHeader.scratchDblock ≠
      (image cfg fl₀ a).header.scratchDblock ↔ moved)
    (hF : F.FirstAt i) (hi : i < (positions cfg stage complete c fl₀).done) :
    Coherent cfg
      ((stage >>= fun x => complete x >>= fun _ => flashFsMblockMetaUpdateFinalize cfg >>= fun _ =>
        rest x).runFaulty cfg.eraseVal F c fl₀).ctx
      ((stage >>= fun x => complete x >>= fun _ => flashFsMblockMetaUpdateFinalize cfg >>= fun _ =>
        rest x).runFaulty cfg.eraseVal F c fl₀).flash ↔
    ¬ (positions cfg stage complete c fl₀).Hit moved
      (Overtakes cfg s (image cfg fl₀ a).header.activeSwapCount) F := by
  have hle : (positions cfg stage complete c fl₀).staged ≤
      (positions cfg stage complete c fl₀).completed := by
    rw [h.positions_eq.1]
    exact Nat.le_add_right _ _
  have hle' : (positions cfg stage complete c fl₀).completed ≤
      (positions cfg stage complete c fl₀).published := by
    rw [h.positions_eq.2.1]
    exact Nat.le_add_right _ _
  rw [Positions.hit_iff hF]
  by_cases h₁ : i < (positions cfg stage complete c fl₀).staged
  · refine iff_of_true (h.coherent_staged hF h₁) ?_
    rintro (⟨⟨_, hn⟩ | hn, _⟩ | ⟨he, _⟩) <;> omega
  by_cases h₂ : i < (positions cfg stage complete c fl₀).completed
  · rw [h.coherent_completed_iff hF (by omega) h₂, ← not_iff_not, not_not]
    refine hm.trans ⟨fun hmv => .inl ⟨.inl ⟨hmv, by omega⟩, by omega⟩, ?_⟩
    rintro (⟨⟨hmv, _⟩ | hn, _⟩ | ⟨he, _⟩)
    · exact hmv
    · omega
    · omega
  by_cases h₃ : i < (positions cfg stage complete c fl₀).published
  · exact iff_of_false (h.not_coherent_published hF (by omega) h₃)
      (not_not_intro (.inl ⟨.inr (by omega), h₃⟩))
  by_cases h₄ : i = (positions cfg stage complete c fl₀).published
  · subst h₄
    rw [h.coherent_swapped_iff hF]
    constructor
    · rintro ho (⟨_, hlt⟩ | ⟨_, h0, hn⟩)
      · exact absurd hlt (Nat.lt_irrefl _)
      · exact hn (ho h0)
    · intro hn h0
      by_contra ho
      exact hn (.inr ⟨rfl, h0, ho⟩)
  · refine iff_of_true (h.coherent_erased hF (by omega) hi) ?_
    rintro (⟨_, hlt⟩ | ⟨he, _⟩) <;> omega

theorem hit_lt {moved overtakes : Prop} (hF : F.FirstAt i)
    (hh : (positions cfg stage complete c fl₀).Hit moved overtakes F) :
    i < (positions cfg stage complete c fl₀).done := by
  rw [h.positions_eq.2.2]
  rcases (Positions.hit_iff hF).mp hh with ⟨_, hlt⟩ | ⟨he, _⟩ <;> omega

/-- When nothing follows the update. -/
theorem update_coherent_iff {moved : Prop} (hm : c₁.metaBlockHeader.scratchDblock ≠
      (image cfg fl₀ a).header.scratchDblock ↔ moved) (F : Faults) :
    Coherent cfg
      ((stage >>= fun x => complete x >>= fun _ =>
        flashFsMblockMetaUpdateFinalize cfg).runFaulty cfg.eraseVal F c fl₀).ctx
      ((stage >>= fun x => complete x >>= fun _ =>
        flashFsMblockMetaUpdateFinalize cfg).runFaulty cfg.eraseVal F c fl₀).flash ↔
    ¬ (positions cfg stage complete c fl₀).Hit moved
      (Overtakes cfg s (image cfg fl₀ a).header.activeSwapCount) F := by
  have hprog : (stage >>= fun x => complete x >>= fun _ => flashFsMblockMetaUpdateFinalize cfg) =
      stage >>= fun x => complete x >>= fun _ => flashFsMblockMetaUpdateFinalize cfg >>= fun _ =>
        pure () := by
    simp only [bind_pure_unit]
  rw [hprog]
  rcases F.cleanFor_or_firstAt (positions cfg stage complete c fl₀).done with hc | ⟨i, hi, hF⟩
  · rw [h.runFaulty_done hc]
    exact iff_of_true h.mounted.coherent fun ⟨i, hF, hh⟩ =>
      hc.not_firstAt (h.hit_lt hF ⟨i, hF, hh⟩) hF
  · exact h.coherent_iff hm hF hi

end Stages

end Etss
