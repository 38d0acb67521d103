import TfmExtras.Etss.CrashStates

/-! Crash atomicity: whatever point of a call power is lost at, and however many of the following
mounts it is lost in again, the next mount finds the files before the call or those after it. -/

namespace Etss
open NorFlash NorFlash.Flash FlashM

variable {cfg : Config} {a s d : Nat} {c c₀ c' c₁ : Ctx} {fl fl₀ fl₁ fl₂ fl' : Flash} {o : Op}
  {st st' : Image} {r : WriteReq} {f : FsCall} {res : Except Status Unit}
  {M : Fid → Option Image.View}

/-! ## What the next mount makes of a filesystem -/

/-- The files of `st` in metadata block `a` are those of `M`, once a pending deletion is made. -/
inductive Image.Settles (cfg : Config) (a : Nat) (M : Fid → Option Image.View) (st : Image) : Prop
  | closed {st₀ : Image} (wf : st₀.Wf cfg a) (same : st₀.Same cfg st) (closed : st₀.Closed cfg)
    (map : st₀.fileMap cfg = M) : Settles cfg a M st
  | pending {st₀ st' : Image} {d : Nat} (wf : st₀.Wf cfg a) (same : st₀.Same cfg st)
    (pending : st₀.Pending cfg d) (step : DeleteStep cfg (otherMetaBlock a) st₀ d st')
    (map : st'.fileMap cfg = M) : Settles cfg a M st

namespace Image.Settles
variable (h : st.Settles cfg a M)
include h

theorem same (hs : st.Same cfg st') : st'.Settles cfg a M := by
  cases h with
  | closed wf same closed map => exact .closed wf (same.trans hs) closed map
  | pending wf same pending step map => exact .pending wf (same.trans hs) pending step map

theorem closed_or_pending : st.Closed cfg ∨ ∃ d, st.Pending cfg d := by
  cases h with
  | closed _ same closed _ => exact .inl (same.closed closed)
  | pending _ same pending _ _ => exact .inr ⟨_, same.pending pending⟩

theorem fileMap_eq (hc : st.Closed cfg) : st.fileMap cfg = M := by
  cases h with
  | closed wf same _ map => exact (same.fileMap wf).trans map
  | pending _ same pending _ _ => exact absurd hc (same.pending pending).not_closed

/-- Making the pending deletion leaves the files of `M`. -/
theorem deleteStep (hacc : cfg.Accepted) (hp : st.Pending cfg d)
    (hst : DeleteStep cfg (otherMetaBlock a) st d st') :
    st'.Settles cfg (otherMetaBlock a) M := by
  cases h with
  | closed _ same closed _ => exact absurd (same.closed closed) hp.not_closed
  | pending wf same pending step map =>
    obtain rfl := (same.pending pending).eq hp
    exact .closed (step.wf wf pending.lt pending.valid hacc)
      (step.same hst same wf pending.lt pending.valid) (step.closed_of_pending pending) map

end Image.Settles

theorem Store.settles (h : Store cfg c fl) : (image cfg fl c.activeMetablock).Settles cfg
    c.activeMetablock ((mountedImage cfg c fl).fileMap cfg) :=
  .closed h.wf ⟨rfl, rfl, fun _ _ => rfl, fun _ _ => rfl, fun _ _ _ _ _ => rfl⟩ h.closed rfl

/-- The next mount of the flash finds the files of `M`. -/
def Restores (cfg : Config) (M : Fid → Option Image.View) (fl : Flash) : Prop :=
  ∃ a, Mountable cfg a fl ∧ (image cfg fl a).Settles cfg a M

/-! ## A mount that is completed -/

theorem Restores.prepare_ok (h : Restores cfg M fl) (c₀ : Ctx) :
    (flashFsPrepare cfg).Ok cfg.eraseVal anyOp c₀ fl fun _ c' fl' =>
      Store cfg c' fl' ∧ (mountedImage cfg c' fl').fileMap cfg = M := by
  obtain ⟨a, hm, hst⟩ := h
  refine ((hm.prepare_spec hst.closed_or_pending).guard fun _ _ _ => trivial).mono ?_
  intro _ c' fl' hspec
  refine ⟨hspec.store, ?_⟩
  have hclosed := hspec.store.closed
  rcases hst.closed_or_pending with hcl | ⟨d, hp⟩
  · exact (hst.same (hspec.closed hcl)).fileMap_eq hclosed
  · obtain ⟨st₁, st', hsame, hstep, hsame'⟩ := hspec.pending d hp
    exact (((hst.same hsame).deleteStep hm.accepted (hsame.pending hp) hstep).same
      hsame').fileMap_eq hclosed

/-! ## A mount that is cut -/

/-- Erased scratch blocks, in part or in full, leave the flash as it would be mounted. -/
theorem Mountable.of_scratch (h : Mountable cfg a fl)
    (hf : OnlyIn (scratchRegion cfg (mountedCtx cfg a fl)) fl fl')
    (hc : Clean (range (otherMetaBlock a) 0 8) fl') : Mountable cfg a fl' := by
  have hvalid := h.wf.headerValid_of_onlyIn h.a_le hf h.valid
  exact ⟨h.accepted, h.a_le, selectActive_of_only h.a_le hvalid.readHeader_eq (readHeader_erased hc),
    hvalid, (h.same_of_onlyIn hf).wf h.accepted h.wf⟩

theorem Restores.of_scratch (h : Mountable cfg a fl) (hst : (image cfg fl a).Settles cfg a M)
    (hf : OnlyIn (scratchRegion cfg (mountedCtx cfg a fl)) fl fl')
    (hc : Clean (range (otherMetaBlock a) 0 8) fl') : Restores cfg M fl' :=
  ⟨a, h.of_scratch hf hc, hst.same (h.same_of_onlyIn hf)⟩

/-- The update that makes the pending deletion. -/
theorem AtOnce.restores (hb : Before cfg fl₀ a s) (he : cfg.eraseVal = 0x00 ∨ cfg.eraseVal = 0xFF)
    (hst : (image cfg fl₀ a).Settles cfg a M) (hp : (image cfg fl₀ a).Pending cfg d)
    (h : AtOnce cfg fl₀ a s (DeleteStep cfg s (image cfg fl₀ a) d) fl) : Restores cfg M fl := by
  rcases h with ⟨hc, hsame⟩ | ⟨hc, st', hstep, hsame⟩
  · exact ⟨a, hc.mountable he, hst.same hsame⟩
  · obtain rfl := hb.other
    exact ⟨_, hc.mountable he, (hst.deleteStep hb.accepted hp hstep).same hsame⟩

section Operations
variable {C : Flash → Prop} (hfl : C fl) (hC : ∀ fl', Restores cfg M fl' → C fl')
include hfl hC

/-- An update that makes the pending deletion, at every operation, done or cut. -/
theorem Before.restores_delete {strict : Prop} (hb : Before cfg fl₀ a s)
    (he : cfg.eraseVal = 0x00 ∨ cfg.eraseVal = 0xFF) (hst : (image cfg fl₀ a).Settles cfg a M)
    (hp : (image cfg fl₀ a).Pending cfg d)
    (ho : UpdateOp cfg fl₀ a s strict (DeleteStep cfg s (image cfg fl₀ a) d) fl o) :
    C (fl.apply o) ∧ ∀ n, C (fl.torn n o) := by
  have hone : ∀ {fl'}, fl' = fl ∨ AtOnce cfg fl₀ a s (DeleteStep cfg s (image cfg fl₀ a) d) fl' →
      C fl' := fun hcase => hcase.elim (fun heq => heq ▸ hfl) fun h => hC _ (h.restores hb he hst hp)
  obtain ⟨happly, htorn⟩ := hb.atOnce
    (fun st' hst' => hst'.wf hb.wf hp.lt hp.valid hb.accepted) ho
  exact ⟨hone happly, fun n => hone (htorn n)⟩

/-- Every operation of a mount, done or cut, leaves the files to be found. -/
theorem Mountable.restores_op (h : Mountable cfg a fl₀)
    (he : cfg.eraseVal = 0x00 ∨ cfg.eraseVal = 0xFF) (hst : (image cfg fl₀ a).Settles cfg a M)
    (ho : PrepareOp cfg a fl₀ fl o) : C (fl.apply o) ∧ ∀ n, C (fl.torn n o) := by
  have hother : OnlyIn (scratchRegion cfg (mountedCtx cfg a fl₀)) fl₀
      (fl₀.erase (otherMetaBlock a)) := (onlyIn_erase fl₀ _).mono fun b o hw => .inl hw
  cases ho with
  | init op =>
    cases op with
    | init => exact ⟨hfl, fun _ => hfl⟩
    | read _ _ => exact ⟨hfl, fun _ => hfl⟩
    | eraseMeta =>
      exact ⟨hC _ (.of_scratch h hst hother ((clean_erase _ _).mono fun _ _ hw => hw.1)),
        fun _ => hfl⟩
    | eraseData h2 =>
      refine ⟨hC _ (.of_scratch h hst (hother.trans ((onlyIn_erase _ _).mono fun b o hw =>
        .inr ⟨by omega, hw⟩)) fun b o hw => ?_), fun _ => hfl⟩
      show ((fl₀.erase (otherMetaBlock a)).erase _).cell b o = none
      rw [cell_erase]
      split_ifs
      · rfl
      · exact clean_erase fl₀ _ b o hw.1
  | delete pending op =>
    have hsame := h.same_of_onlyIn (onlyIn_scratchErased cfg a fl₀)
    exact Before.restores_delete hfl hC h.mounted.before he (hst.same hsame)
      (hsame.pending pending) op

end Operations

theorem Restores.crash (h : Restores cfg M fl) (he : cfg.eraseVal = 0x00 ∨ cfg.eraseVal = 0xFF)
    (hc : (flashFsPrepare cfg).CrashAt cfg.eraseVal c₀ fl fl') : Restores cfg M fl' := by
  obtain ⟨a, hm, hst⟩ := h
  exact wp_crash (hm.prepare_spec hst.closed_or_pending) ⟨a, hm, hst⟩
    (fun fl o hfl ho => Mountable.restores_op hfl (fun _ => id) hm he hst ho) hc

/-- Mounts that power is lost in, one after the other. -/
inductive CrashedMounts (cfg : Config) : Flash → Flash → Prop
  | none (fl : Flash) : CrashedMounts cfg fl fl
  | mount {fl fl' fl'' : Flash} (c₀ : Ctx)
    (crash : (flashFsPrepare cfg).CrashAt cfg.eraseVal c₀ fl fl')
    (rest : CrashedMounts cfg fl' fl'') : CrashedMounts cfg fl fl''

theorem Restores.crashedMounts (he : cfg.eraseVal = 0x00 ∨ cfg.eraseVal = 0xFF)
    (h : CrashedMounts cfg fl fl') (hr : Restores cfg M fl) : Restores cfg M fl' := by
  induction h with
  | none _ => exact hr
  | mount _ crash _ ih => exact ih (hr.crash he crash)

/-! ## A call that is cut -/

/-- What the first update of a write commits leads to what the write leaves. -/
theorem WriteEffect.settles {st₁ : Image} (hw : st.Wf cfg a)
    (hacc : cfg.Accepted) (ha : a ≤ 1) (hs : s = otherMetaBlock a) (hcl : st.Closed cfg)
    (hv : r.Valid cfg) (heff : WriteEffect cfg a s st r res st')
    (hof : WriteOf cfg s st r st₁) : st₁.Settles cfg s (st'.fileMap cfg) := by
  obtain ⟨p, hp, hst₁⟩ := hof
  have hsound := hw.writePlan_sound hacc ha hp
  have hwf₁ := hst₁.wf hsound hw hv hacc
  cases heff with
  | fail plan _ =>
    rw [hp] at plan
    cases plan
  | update plan keeps step same =>
    rw [hp] at plan
    injection plan with plan
    subst plan
    refine .closed (step.wf hsound hw hv hacc) (step.same hsound hw hv hst₁)
      (step.closed hsound hw hv hcl keeps) (same.fileMap (step.wf hsound hw hv hacc)).symm
  | replace plan replaces step same₁ delete same =>
    rw [hp] at plan
    injection plan with plan
    subst plan
    have hpend := same₁.pending (step.pending hsound hw hv hcl replaces)
    have hwf₂ := same₁.wf hacc (step.wf hsound hw hv hacc)
    have hother : otherMetaBlock s = a := by
      rw [hs, otherMetaBlock_other ha]
    have hstep := delete
    rw [← hother] at hstep
    refine .pending hwf₂ (same₁.symm.trans (step.same hsound hw hv hst₁)) hpend hstep
      (same.fileMap (delete.wf hwf₂ hpend.lt hpend.valid hacc)).symm

/-- What a deletion commits is what it leaves. -/
theorem DeleteEffect.settles {st₁ : Image} {fid : Fid} (hw : st.Wf cfg a) (hacc : cfg.Accepted)
    (hcl : st.Closed cfg) (hf : fid ≠ 0) (heff : DeleteEffect cfg s st fid res st')
    (hof : DeleteOf cfg s st fid st₁) : st₁.Settles cfg s (st'.fileMap cfg) := by
  obtain ⟨d, hd, hid, hst₁⟩ := hof
  have hid0 : (st.files d).id ≠ 0 := hid.symm ▸ hf
  cases heff with
  | absent free _ => exact absurd hid (free d hd)
  | @delete d' _ _ lt id step same =>
    obtain rfl := hcl.unique d d' hd lt hid0 (hid.trans id.symm)
    have hrefl : st.Same cfg st := ⟨rfl, rfl, fun _ _ => rfl, fun _ _ => rfl, fun _ _ _ _ _ => rfl⟩
    have hwf := step.wf hw hd hid0 hacc
    exact .closed hwf (step.same hst₁ hrefl hw hd hid0) (step.closed_of_closed hd hcl)
      (same.fileMap hwf).symm

/-- The files are those before the call, or those after it. -/
def RestoresEither (cfg : Config) (f : FsCall) (c : Ctx) (fl₀ fl : Flash) : Prop :=
  Restores cfg ((mountedImage cfg c fl₀).fileMap cfg) fl ∨
    Restores cfg ((mountedImage cfg (f.after cfg c fl₀).ctx (f.after cfg c fl₀).flash).fileMap cfg) fl

theorem AtOnce.restoresEither {P : Image → Prop} (h : Store cfg c fl₀)
    (he : cfg.eraseVal = 0x00 ∨ cfg.eraseVal = 0xFF)
    (hP : ∀ st, P st → st.Settles cfg c.scratchMetablock
      ((mountedImage cfg (f.after cfg c fl₀).ctx (f.after cfg c fl₀).flash).fileMap cfg))
    (ha : AtOnce cfg fl₀ c.activeMetablock c.scratchMetablock P fl) :
    RestoresEither cfg f c fl₀ fl := by
  rcases ha with ⟨hc, hsame⟩ | ⟨hc, st', hst', hsame⟩
  · exact .inl ⟨_, hc.mountable he, h.settles.same hsame⟩
  · exact .inr ⟨_, hc.mountable he, (hP st' hst').same hsame⟩

/-- Every operation of a call, done or cut. -/
theorem Store.restores_op (h : Store cfg c fl₀) (he : cfg.eraseVal = 0x00 ∨ cfg.eraseVal = 0xFF)
    (hv : f.Valid cfg) (hfl : RestoresEither cfg f c fl₀ fl)
    (ho : f.Guarded cfg False c fl₀ fl o) :
    RestoresEither cfg f c fl₀ (fl.apply o) ∧
      ∀ n, RestoresEither cfg f c fl₀ (fl.torn n o) := by
  have hspec := h.call_spec hv
  have hb := h.toMounted.before
  have hwf : (image cfg fl₀ c.activeMetablock).Wf cfg c.activeMetablock := h.wf
  have hcl : (image cfg fl₀ c.activeMetablock).Closed cfg := h.closed
  -- an update of the store itself
  have hupdate : ∀ {P : Image → Prop}, (∀ st, P st → st.Wf cfg c.scratchMetablock) →
      (∀ st, P st → st.Settles cfg c.scratchMetablock
        ((mountedImage cfg (f.after cfg c fl₀).ctx (f.after cfg c fl₀).flash).fileMap cfg)) →
      UpdateOp cfg fl₀ c.activeMetablock c.scratchMetablock False P fl o →
      RestoresEither cfg f c fl₀ (fl.apply o) ∧
        ∀ n, RestoresEither cfg f c fl₀ (fl.torn n o) := by
    intro P hP hS op
    obtain ⟨happly, htorn⟩ := hb.atOnce hP op
    have hone : ∀ {fl'}, fl' = fl ∨ AtOnce cfg fl₀ c.activeMetablock c.scratchMetablock P fl' →
        RestoresEither cfg f c fl₀ fl' :=
      fun hcase => hcase.elim (fun heq => heq ▸ hfl) (·.restoresEither h he hS)
    exact ⟨hone happly, fun n => hone (htorn n)⟩
  cases f with
  | prepare => exact Mountable.restores_op hfl (fun _ => .inl) h.mountable he h.settles ho
  | delete fid =>
    have heff : DeleteEffect cfg _ _ fid _ _ := DeleteSpec.effect hspec
    refine hupdate ?_ (fun st => heff.settles hwf h.accepted hcl hv) ho
    exact fun st' ⟨d, hd, hid, hst⟩ => hst.wf hwf hd (hid.symm ▸ hv) h.accepted
  | write r =>
    have heff : WriteEffect cfg _ _ _ r _ _ := WriteSpec.effect hspec
    have hS : ∀ st, WriteOf cfg c.scratchMetablock (image cfg fl₀ c.activeMetablock) r st →
        st.Settles cfg c.scratchMetablock ((mountedImage cfg ((FsCall.write r).after cfg c fl₀).ctx
          ((FsCall.write r).after cfg c fl₀).flash).fileMap cfg) :=
      fun _ => heff.settles hwf h.accepted h.active_le h.scratch hcl hv
    have hP : ∀ st', WriteOf cfg c.scratchMetablock (image cfg fl₀ c.activeMetablock) r st' →
        st'.Wf cfg c.scratchMetablock := fun st' ⟨p, hp, hst⟩ =>
      hst.wf (hwf.writePlan_sound h.accepted h.active_le hp) hwf hv h.accepted
    cases ho with
    | update op => exact hupdate hP hS op
    | @delete c₁ fl₁ _ p _ updated plan replaces op =>
      obtain ⟨hm, _, hact, st₁, hof, hsame⟩ := updated.mounted h.accepted h.active_le h.scratch hP
      have hscr : c₁.scratchMetablock = c.activeMetablock := by
        rw [hm.scratch, hact, h.scratch, otherMetaBlock_other h.active_le]
      have hpend := (updated.starts_delete (h.starts False.elim) h.scratch hcl hv plan replaces).2
      have hb₁ := hm.before
      rw [hact, hscr] at hb₁
      have hset := (hS st₁ hof).same hsame
      unfold mountedImage at hset
      rw [hact] at hset
      exact Before.restores_delete hfl (fun _ => .inr) hb₁ he hset hpend op

theorem Store.call_crash (h : Store cfg c fl) (he : cfg.eraseVal = 0x00 ∨ cfg.eraseVal = 0xFF)
    (hv : f.Valid cfg) (hc : (f.exec cfg).CrashAt cfg.eraseVal c fl fl') :
    RestoresEither cfg f c fl fl' :=
  wp_crash (h.call_wp f hv (False.elim : False → _)) (.inl ⟨_, h.mountable, h.settles⟩)
    (fun _ _ hfl ho => h.restores_op he hv hfl ho) hc

/-- Power is lost in a call from any state that is reached, and again in any number of mounts: the
next mount succeeds, with the files before the call or those after it. -/
theorem crash_atomic (hacc : cfg.Accepted) (he : cfg.eraseVal = 0x00 ∨ cfg.eraseVal = 0xFF)
    (h : Reaches cfg c fl) (hv : f.Valid cfg)
    (hc : (f.exec cfg).CrashAt cfg.eraseVal c fl fl₁) (hm : CrashedMounts cfg fl₁ fl₂) (c₀ : Ctx) :
    ∃ c' fl', (flashFsPrepare cfg).run cfg.eraseVal c₀ fl₂ = ⟨.ok (), c', fl'⟩ ∧
      Store cfg c' fl' ∧
      ((mountedImage cfg c' fl').fileMap cfg = (mountedImage cfg c fl).fileMap cfg ∨
        (mountedImage cfg c' fl').fileMap cfg =
          (mountedImage cfg (f.after cfg c fl).ctx (f.after cfg c fl).flash).fileMap cfg) := by
  rcases (h.store hacc).call_crash he hv hc with hr | hr
  · obtain ⟨_, c', fl', hrun, hst, hmap⟩ := ((hr.crashedMounts he hm).prepare_ok c₀).exists_run
    exact ⟨c', fl', hrun, hst, .inl hmap⟩
  · obtain ⟨_, c', fl', hrun, hst, hmap⟩ := ((hr.crashedMounts he hm).prepare_ok c₀).exists_run
    exact ⟨c', fl', hrun, hst, .inr hmap⟩

/-- Power is lost before the deletion of a file, and in the mount after that. -/
theorem crash_atomic_delete : ∃ c' fl', (flashFsPrepare twoBlocks).run twoBlocks.eraseVal Ctx.zero
      (filled twoBlocks [.write fourBytes]).2 = ⟨.ok (), c', fl'⟩ ∧ Store twoBlocks c' fl' ∧
    ((mountedImage twoBlocks c' fl').fileMap twoBlocks = (mountedImage twoBlocks
        (filled twoBlocks [.write fourBytes]).1 (filled twoBlocks [.write fourBytes]).2).fileMap
          twoBlocks ∨
      (mountedImage twoBlocks c' fl').fileMap twoBlocks = (mountedImage twoBlocks
        ((FsCall.delete 1).after twoBlocks (filled twoBlocks [.write fourBytes]).1
          (filled twoBlocks [.write fourBytes]).2).ctx
        ((FsCall.delete 1).after twoBlocks (filled twoBlocks [.write fourBytes]).1
          (filled twoBlocks [.write fourBytes]).2).flash).fileMap twoBlocks) :=
  crash_atomic twoBlocks_accepted (.inr rfl) (reaches_filled (by decide)) (by decide) (.here _ _)
    (.mount Ctx.zero (.here _ _) (.none _)) Ctx.zero

end Etss
