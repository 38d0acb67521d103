import TfmExtras.Etss.Committed

/-! The store between two calls: a mounted filesystem without a pending deletion. Every call
leaves such a store, whatever it returns. -/

namespace Etss
open NorFlash NorFlash.Flash FlashM

variable {cfg : Config} {s a : Nat} {strict : Prop} {c c' : Ctx} {fl fl' : Flash} {fid : Fid}
  {r : WriteReq} {res : Except Status Unit}

/-- A mounted filesystem, between two calls. -/
structure Store (cfg : Config) (c : Ctx) (fl : Flash) : Prop extends Mounted cfg c fl where
  closed : (mountedImage cfg c fl).Closed cfg

/-! ## What a call may change -/

theorem Mounted.other_readHeader (h : Mounted cfg c fl) :
    readHeader cfg fl (otherMetaBlock c.activeMetablock) = none := by
  rw [← h.scratch]
  exact readHeader_erased h.clean_header

/-- The only metadata block with a valid header is selected. -/
theorem selectActive_of_only {a : Nat} {hMeta : MetadataBlockHeader} (hle : a ≤ 1)
    (ha : readHeader cfg fl a = some hMeta) (ho : readHeader cfg fl (otherMetaBlock a) = none) :
    selectActive cfg fl = .ok a := by
  unfold selectActive metadataBlock0 metadataBlock1
  obtain rfl | rfl : a = 0 ∨ a = 1 := by omega
  · rw [ha, show readHeader cfg fl 1 = none from ho]
  · rw [ha, show readHeader cfg fl 0 = none from ho]

/-- A mounted filesystem is the one that the next mount selects. -/
theorem Mounted.mountable (h : Mounted cfg c fl) : Mountable cfg c.activeMetablock fl where
  accepted := h.accepted
  a_le := h.active_le
  select := selectActive_of_only h.active_le h.valid.readHeader_eq h.other_readHeader
  valid := h.valid
  wf := h.wf

theorem scratchFiles_unused (h : Mounted cfg c fl) (b o : Nat) (hw : scratchFiles cfg c b o) :
    unusedRegion cfg fl c.activeMetablock b o := .inl (hw.1.trans h.scratch)

/-- Leftovers in the file table of the scratch metadata block do not touch the filesystem. -/
theorem Mounted.of_scratchFiles (h : Mounted cfg c fl) (hf : OnlyIn (scratchFiles cfg c) fl fl') :
    Mounted cfg c fl' ∧ (mountedImage cfg c fl).Same cfg (mountedImage cfg c fl') := by
  have hclean : Clean (range c.scratchMetablock 0 8) fl' :=
    hf.clean h.clean_header fun b o hw hw' => by
      obtain ⟨_, h₁, _⟩ := hw'
      have := hw.2.2
      unfold Config.fileEntry Config.filesStart at h₁
      omega
  obtain ⟨hcom, hsame⟩ := h.committed.of_onlyIn (hf.mono (scratchFiles_unused h))
    (h.scratch ▸ readHeader_erased hclean)
  have hheader : (mountedImage cfg c fl').header = (mountedImage cfg c fl).header :=
    image_header_congr hf fun o _ hw => h.ready.ne hw.1.symm
  exact ⟨⟨h.accepted, h.active_le, h.scratch, h.header.trans hheader.symm, hcom.valid,
    hf.clean h.erased fun b o hw => hw.2, hcom.wf⟩, hsame⟩

/-! ## Writing -/

theorem failRegion_scratchFiles (h : Mounted cfg c fl) (b o : Nat)
    (hw : failRegion cfg c.scratchMetablock (mountedImage cfg c fl) r b o) :
    scratchFiles cfg c b o := by
  obtain ⟨_, t, ht, hrep, hm⟩ := hw
  have hlt : t.oldIdx < cfg.maxNumFiles := by
    rcases h.wf.writeTarget_cases (r := r) h.accepted with ⟨i, hi, _, he⟩ | ⟨_, he⟩
    · rw [he] at ht
      split_ifs at ht <;> injection ht with ht <;> subst ht <;> exact hi
    · rw [he] at ht
      split_ifs at ht
      injection ht with ht
      subst ht
      exact absurd rfl hrep.1
  exact fileRange_mono (Nat.zero_le _) (Nat.succ_le_of_lt hlt) b o hm

/-- What a write makes of the filesystem. -/
inductive WriteEffect (cfg : Config) (a s : Nat) (st : Image) (r : WriteReq) :
    Except Status Unit → Image → Prop
  | fail {e : Status} {st' : Image} (plan : st.writePlan cfg r = .error e)
    (same : st.Same cfg st') : WriteEffect cfg a s st r (.error e) st'
  | update {p : WritePlan} {st₁ st' : Image} (plan : st.writePlan cfg r = .ok p)
    (keeps : ¬ p.Replaces cfg st r) (step : WriteStep cfg s st r p st₁) (same : st₁.Same cfg st') :
    WriteEffect cfg a s st r (.ok ()) st'
  | replace {p : WritePlan} {st₁ st₂ st₃ st' : Image} (plan : st.writePlan cfg r = .ok p)
    (replaces : p.Replaces cfg st r) (step : WriteStep cfg s st r p st₁)
    (same₁ : st₁.Same cfg st₂) (delete : DeleteStep cfg a st₂ p.oldIdx st₃)
    (same : st₃.Same cfg st') : WriteEffect cfg a s st r (.ok ()) st'

theorem WriteStep.plan_eq {st st' : Image} {p : WritePlan} (hp : st.writePlan cfg r = .ok p)
    (h : WriteOf cfg s st r st') : WriteStep cfg s st r p st' := by
  obtain ⟨p', hp', hst⟩ := h
  rw [hp] at hp'
  injection hp' with hp'
  exact hp' ▸ hst

/-- A write leaves a store, and both scratch blocks erased when it is made. -/
structure WriteSpec (cfg : Config) (c : Ctx) (fl : Flash) (r : WriteReq)
    (res : Except Status Unit) (c' : Ctx) (fl' : Flash) : Prop where
  store : Store cfg c' fl'
  effect : WriteEffect cfg c.activeMetablock c.scratchMetablock (mountedImage cfg c fl) r res
    (mountedImage cfg c' fl')
  failed : res ≠ .ok () → c' = c ∧
    OnlyIn (failRegion cfg c.scratchMetablock (mountedImage cfg c fl) r) fl fl'
  clean : res = .ok () → Clean (scratchRegion cfg c') fl'

theorem WriteResult.spec (h : Store cfg c fl) (hv : r.Valid cfg)
    (hres : WriteResult cfg fl c.activeMetablock c.scratchMetablock r c res c' fl') :
    WriteSpec cfg c fl r res c' fl' := by
  have hwf : (image cfg fl c.activeMetablock).Wf cfg c.activeMetablock := h.wf
  have hstep : ∀ st', WriteOf cfg c.scratchMetablock (image cfg fl c.activeMetablock) r st' →
      st'.Wf cfg c.scratchMetablock := fun st' ⟨p, hp, hst⟩ =>
    hst.wf (hwf.writePlan_sound h.accepted h.active_le hp) hwf hv h.accepted
  unfold WriteResult at hres
  cases hp : (image cfg fl c.activeMetablock).writePlan cfg r with
  | error e =>
    rw [hp] at hres
    obtain ⟨rfl, rfl, hf⟩ := hres
    obtain ⟨hm, hsame⟩ := h.toMounted.of_scratchFiles (hf.mono (failRegion_scratchFiles h.toMounted))
    exact ⟨⟨hm, hsame.closed h.closed⟩, .fail hp hsame, fun _ => ⟨rfl, hf⟩, fun hn => by cases hn⟩
  | ok p =>
    rw [hp] at hres
    have hsound := hwf.writePlan_sound h.accepted h.active_le hp
    obtain ⟨rfl, ⟨hk, hu⟩ | ⟨hk, c₁, fl₁, hu₁, hu⟩⟩ := hres
    · obtain ⟨hm, hclean, _, st₁, hof, hsame⟩ := hu.mounted h.accepted h.active_le h.scratch hstep
      have hst := WriteStep.plan_eq hp hof
      exact ⟨⟨hm, hsame.closed (hst.closed hsound hwf hv h.closed hk)⟩, .update hp hk hst hsame,
        fun hn => absurd rfl hn, fun _ => hclean⟩
    · obtain ⟨hm₁, _, hact₁, st₁, hof, hsame₁⟩ :=
        hu₁.mounted h.accepted h.active_le h.scratch hstep
      have hst := WriteStep.plan_eq hp hof
      have hpend := hsame₁.pending (hst.pending hsound hwf hv h.closed hk)
      have hother : c.activeMetablock = otherMetaBlock c.scratchMetablock := by
        rw [h.scratch, otherMetaBlock_other h.active_le]
      have hwf₁ := hm₁.wf
      unfold mountedImage at hwf₁ hpend hsame₁
      rw [hact₁] at hwf₁ hpend hsame₁
      obtain ⟨hm, hclean, _, st₃, hd, hsame⟩ := hu.mounted h.accepted h.ready.s_le hother
        fun st' hd => hd.wf hwf₁ hpend.lt hpend.valid h.accepted
      exact ⟨⟨hm, hsame.closed (hd.closed_of_pending hpend)⟩, .replace hp hk hst hsame₁ hd hsame,
        fun hn => absurd rfl hn, fun _ => hclean⟩

theorem Store.fileWrite_wp (h : Store cfg c fl) (hv : r.Valid cfg)
    (hc : strict → Clean (scratchFiles cfg c) fl) :
    (flashFsFileWrite cfg r.fid r.flags r.maxSize r.dataSize r.offset r.data).wp cfg.eraseVal
      (WriteOp cfg fl c.activeMetablock c.scratchMetablock strict r) c fl
      (WriteSpec cfg c fl r) :=
  wp_post ((h.starts hc).fileWrite_wp h.scratch h.closed hv) fun _ _ _ hr => hr.spec h hv

/-! ## Deleting -/

/-- What a deletion makes of the filesystem. -/
inductive DeleteEffect (cfg : Config) (s : Nat) (st : Image) (fid : Fid) :
    Except Status Unit → Image → Prop
  | absent {st' : Image} (free : ∀ i, i < cfg.maxNumFiles → (st.files i).id ≠ fid)
    (eq : st' = st) : DeleteEffect cfg s st fid (.error .doesNotExist) st'
  | delete {d : Nat} {st₁ st' : Image} (lt : d < cfg.maxNumFiles) (id : (st.files d).id = fid)
    (step : DeleteStep cfg s st d st₁) (same : st₁.Same cfg st') :
    DeleteEffect cfg s st fid (.ok ()) st'

structure DeleteSpec (cfg : Config) (c : Ctx) (fl : Flash) (fid : Fid)
    (res : Except Status Unit) (c' : Ctx) (fl' : Flash) : Prop where
  store : Store cfg c' fl'
  effect : DeleteEffect cfg c.scratchMetablock (mountedImage cfg c fl) fid res
    (mountedImage cfg c' fl')
  failed : res ≠ .ok () → c' = c ∧ fl' = fl
  clean : res = .ok () → Clean (scratchRegion cfg c') fl'

theorem Store.fileDelete_wp (h : Store cfg c fl) (hf : fid ≠ 0)
    (hc : strict → Clean (scratchFiles cfg c) fl) :
    (flashFsFileDelete cfg fid).wp cfg.eraseVal
      (UpdateOp cfg fl c.activeMetablock c.scratchMetablock strict
        (DeleteOf cfg c.scratchMetablock (mountedImage cfg c fl) fid)) c fl
      (DeleteSpec cfg c fl fid) := by
  refine wp_post ((h.starts hc).fileDelete_wp hf) ?_
  rintro res c' fl' (⟨rfl, hu⟩ | ⟨rfl, rfl, rfl, hfree⟩)
  · have hwf : (image cfg fl c.activeMetablock).Wf cfg c.activeMetablock := h.wf
    obtain ⟨hm, hclean, _, st₁, ⟨d, hd, hid, hst⟩, hsame⟩ := hu.mounted h.accepted h.active_le
      h.scratch fun st' ⟨d, hd, hid, hst⟩ => hst.wf hwf hd (hid.symm ▸ hf) h.accepted
    exact ⟨⟨hm, hsame.closed (hst.closed_of_closed hd h.closed)⟩, .delete hd hid hst hsame,
      fun hn => absurd rfl hn, fun _ => hclean⟩
  · exact ⟨h, .absent hfree rfl, fun _ => ⟨rfl, rfl⟩, fun hn => by cases hn⟩

/-! ## Mounting -/

structure PrepareSpec (cfg : Config) (c : Ctx) (fl : Flash) (c' : Ctx) (fl' : Flash) : Prop where
  store : Store cfg c' fl'
  active : c'.activeMetablock = c.activeMetablock
  same : (mountedImage cfg c fl).Same cfg (mountedImage cfg c' fl')
  clean : Clean (scratchRegion cfg c') fl'

theorem Mountable.closed_spec (h : Mountable cfg a fl) (hcl : (image cfg fl a).Closed cfg) :
    Store cfg (mountedCtx cfg a fl) (scratchErased cfg a fl) ∧
      (image cfg fl a).Same cfg (mountedImage cfg (mountedCtx cfg a fl) (scratchErased cfg a fl)) ∧
      Clean (scratchRegion cfg (mountedCtx cfg a fl)) (scratchErased cfg a fl) := by
  have hsame : (image cfg fl a).Same cfg
      (mountedImage cfg (mountedCtx cfg a fl) (scratchErased cfg a fl)) :=
    h.same_of_onlyIn (onlyIn_scratchErased cfg a fl)
  exact ⟨⟨h.mounted, hsame.closed hcl⟩, hsame, h.clean_scratchErased⟩

/-- Mounting a store again, from any context. -/
theorem Store.prepare_ok (h : Store cfg c fl) {c₀ : Ctx} :
    (flashFsPrepare cfg).Ok cfg.eraseVal (PrepareOp cfg c.activeMetablock fl) c₀ fl
      fun _ c' fl' => PrepareSpec cfg c fl c' fl' := by
  have hcl : (image cfg fl c.activeMetablock).Closed cfg := h.closed
  refine (h.mountable.prepare_ok (.inl hcl)).mono fun _ c' fl' hr => ?_
  obtain ⟨rfl, rfl⟩ := hr.closed hcl
  obtain ⟨hst, hsame, hclean⟩ := h.mountable.closed_spec hcl
  exact ⟨hst, rfl, hsame, hclean⟩

/-- What a mount leaves of any flash that can be mounted: a store, in which a pending deletion is
made. -/
structure MountSpec (cfg : Config) (a : Nat) (fl : Flash) (c' : Ctx) (fl' : Flash) : Prop where
  store : Store cfg c' fl'
  clean : Clean (scratchRegion cfg c') fl'
  closed : (image cfg fl a).Closed cfg → (image cfg fl a).Same cfg (mountedImage cfg c' fl')
  pending : ∀ d, (image cfg fl a).Pending cfg d → ∃ st₁ st', (image cfg fl a).Same cfg st₁ ∧
    DeleteStep cfg (otherMetaBlock a) st₁ d st' ∧ st'.Same cfg (mountedImage cfg c' fl')

theorem Mountable.mountSpec (h : Mountable cfg a fl)
    (hcp : (image cfg fl a).Closed cfg ∨ ∃ d, (image cfg fl a).Pending cfg d)
    (hr : PrepareResult cfg a fl c' fl') : MountSpec cfg a fl c' fl' := by
  rcases hcp with hcl | ⟨d, hpend⟩
  · obtain ⟨rfl, rfl⟩ := hr.closed hcl
    obtain ⟨hst, hsame, hclean⟩ := h.closed_spec hcl
    exact ⟨hst, hclean, fun _ => hsame, fun d hd => absurd hcl hd.not_closed⟩
  · have hsame := h.same_of_onlyIn (onlyIn_scratchErased cfg a fl)
    have hpend' := hsame.pending hpend
    have hwf : (image cfg (scratchErased cfg a fl) a).Wf cfg a := h.mounted.wf
    obtain ⟨hm, hclean, _, st', hstep, hsame'⟩ := (hr.pending d hpend).mounted h.accepted h.a_le
      rfl fun st' hst => hst.wf hwf hpend'.lt hpend'.valid h.accepted
    refine ⟨⟨hm, hsame'.closed (hstep.closed_of_pending hpend')⟩, hclean,
      fun hc => absurd hc hpend.not_closed, fun d' hd' => ?_⟩
    obtain rfl := hpend.eq hd'
    exact ⟨_, st', hsame, hstep, hsame'⟩

theorem Mountable.prepare_spec (h : Mountable cfg a fl)
    (hcp : (image cfg fl a).Closed cfg ∨ ∃ d, (image cfg fl a).Pending cfg d) :
    (flashFsPrepare cfg).Ok cfg.eraseVal (PrepareOp cfg a fl) c fl
      fun _ c' fl' => MountSpec cfg a fl c' fl' :=
  (h.prepare_ok hcp).mono fun _ _ _ hr => h.mountSpec hcp hr

/-! ## A new filesystem -/

/-- Creating a filesystem and mounting it, as the first start does. -/
def flashFsFormat (cfg : Config) : FsM Unit := do
  flashFsWipeAll cfg
  flashFsPrepare cfg

/-- Any flash, after it is formatted. -/
theorem format_ok (hacc : cfg.Accepted) : (flashFsFormat cfg).Ok cfg.eraseVal anyOp c fl
    fun _ c' fl' => Store cfg c' fl' ∧ (mountedImage cfg c' fl').IsEmpty cfg ∧
      Clean (scratchRegion cfg c') fl' := by
  unfold flashFsFormat
  refine ((wipeAll_ok hacc).guard fun _ _ _ => trivial).bind ?_
  intro _ c₁ fl₁ hw
  have hm := hw.mountable hacc
  refine ((hm.prepare_ok (.inl hw.empty.closed)).guard fun _ _ _ => trivial).mono ?_
  intro _ c' fl' hr
  obtain ⟨rfl, rfl⟩ := hr.closed hw.empty.closed
  obtain ⟨hst, hsame, hclean⟩ := hm.closed_spec hw.empty.closed
  exact ⟨hst, hsame.isEmpty hw.empty, hclean⟩

end Etss
