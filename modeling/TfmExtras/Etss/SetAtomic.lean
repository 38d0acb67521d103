import TfmExtras.Etss.SetFault
import TfmExtras.Etss.CrashAtomic
import TfmExtras.Etss.WriteSizes
import TfmExtras.Etss.LookupFault

/-! Setting an asset while power is lost or operations fail. Data that does not fit in the buffer
is written in parts, and each part is committed by itself. -/

namespace Etss
open NorFlash NorFlash.Flash FlashM Ipc

variable {cfg : Config} {c : Ctx} {fl : Flash} {fid : Fid} {r : WriteReq} {k : Nat}

/-! ## What the next start shows -/

/-- After the next mount the file is that asset. -/
def Shows (cfg : Config) (fid : Fid) (asset : Option Asset) (fl : Flash) : Prop :=
  ∃ M, Restores cfg M fl ∧ (M fid).map Image.View.asset = asset

theorem Store.shows (h : Store cfg c fl) (fid : Fid) :
    Shows cfg fid ((mountedImage cfg c fl).asset cfg fid) fl :=
  ⟨_, ⟨_, h.mountable, h.settles⟩, rfl⟩

/-- What a client is told of an asset. -/
def fetched : Option Asset → Except Status Asset
  | none => .error .doesNotExist
  | some asset => .ok asset

theorem fetched_inj {a₁ a₂ : Option Asset} (h : fetched a₁ = fetched a₂) : a₁ = a₂ := by
  cases a₁ <;> cases a₂
  · rfl
  · exact nomatch h
  · exact nomatch h
  · exact congrArg some (Except.ok.inj h)

section
variable {ι : Type} [DecidableEq ι] {b : Build ι} {i : ι} {msg : Msg} {uid : Nat}
  {x : ι → Ctx × Flash} {buf : Nat → UInt8} {asset : Option Asset}
  (hb : b.area msg.clientId = some i) (hu : uid ≠ etssInvalidUid)
  (hf : etssGetFid msg.clientId uid ≠ 0)
include hb hu hf

theorem Store.fetch_eq (h : Store (b.cfg i) (x i).1 (x i).2) : b.fetch msg uid ⟨⟨x, []⟩, buf⟩ =
    fetched ((mountedImage (b.cfg i) (x i).1 (x i).2).asset (b.cfg i)
      (etssGetFid msg.clientId uid)) := by
  refine (Etss.fetch_eq (s := ⟨⟨x, []⟩, buf⟩) h hb hu hf).trans ?_
  dsimp only
  generalize (mountedImage (b.cfg i) (x i).1 (x i).2).asset (b.cfg i)
    (etssGetFid msg.clientId uid) = a
  cases a <;> rfl

/-- The next mount succeeds, and the client gets the asset. -/
theorem Shows.fetch (h : Shows (b.cfg i) (etssGetFid msg.clientId uid) asset fl)
    (x : ι → Ctx × Flash) (buf : Nat → UInt8) (c₀ : Ctx) :
    ∃ c' fl', (flashFsPrepare (b.cfg i)).run (b.cfg i).eraseVal c₀ fl = ⟨.ok (), c', fl'⟩ ∧
      b.fetch msg uid ⟨⟨Function.update x i (c', fl'), []⟩, buf⟩ = fetched asset := by
  obtain ⟨M, hr, rfl⟩ := h
  obtain ⟨_, c', fl', hrun, hst, hmap⟩ := (hr.prepare_ok c₀).exists_run
  have hself : Function.update x i (c', fl') i = (c', fl') := Function.update_self _ _ _
  refine ⟨c', fl', hrun, ?_⟩
  rw [Store.fetch_eq hb hu hf (by rwa [hself]), hself, ← hmap]
  rfl

end

/-! ## The first write -/

/-- A file that is replaced and of size zero shows no bytes. -/
theorem WritePlan.Replaces.asset_empty {st : Image} {p : WritePlan} {a : Nat} {asset : Asset}
    (h : p.Replaces cfg st r) (hw : st.Wf cfg a) (hcl : st.Closed cfg) (hf : r.fid ≠ 0)
    (h0 : (st.files p.oldIdx).maxSize = 0) (ha : st.asset cfg r.fid = some asset) :
    asset.data = [] := by
  have hid : (st.files p.oldIdx).id ≠ 0 := h.id.trans_ne hf
  have hcur := (hw.sizes _ h.oldIdx_lt hid).2
  unfold Image.asset at ha
  rw [Image.view_of_fileMap hcl h.oldIdx_lt h.id hf] at ha
  obtain rfl := Option.some.inj ha
  refine List.eq_nil_of_length_eq_zero ((Image.content_length p.oldIdx).trans ?_)
  omega

theorem WritePlan.Sound.maxSize_of_truncate {st : Image} {p : WritePlan} (h : p.Sound cfg st r)
    (htr : r.flags &&& flagTruncate ≠ 0) : p.fileMeta.maxSize = r.max cfg := by
  rcases h.kind with hk | hk | hk
  · exact hk.maxSize_eq.trans (hk.maxSize htr)
  · exact hk.toTakes.maxSize
  · exact hk.toTakes.maxSize

/-- A write that is refused leaves the files as they are, also when power is lost in it. -/
structure RefusedWrite (cfg : Config) (c : Ctx) (fl : Flash) (r : WriteReq) : Prop where
  plan : ∀ p, (mountedImage cfg c fl).writePlan cfg r ≠ .ok p
  status : ∃ e, ((FsCall.write r).after cfg c fl).status = .error e
  store : Store cfg ((FsCall.write r).after cfg c fl).ctx ((FsCall.write r).after cfg c fl).flash
  map : (mountedImage cfg ((FsCall.write r).after cfg c fl).ctx
    ((FsCall.write r).after cfg c fl).flash).fileMap cfg = (mountedImage cfg c fl).fileMap cfg
  crash : cfg.eraseVal = 0x00 ∨ cfg.eraseVal = 0xFF → ∀ fl',
    ((FsCall.write r).exec cfg).CrashAt cfg.eraseVal c fl fl' →
      Restores cfg ((mountedImage cfg c fl).fileMap cfg) fl'

/-- The size is only looked at after it is rounded up. -/
theorem Store.refusedWrite {n : Nat} {e : Status} (h : Store cfg c fl)
    (hn : utilsAlign n cfg.programUnit = r.max cfg)
    (hv : ({ r with maxSize := n } : WriteReq).Valid cfg)
    (hp : (mountedImage cfg c fl).writePlan cfg { r with maxSize := n } = .error e)
    (hst : ((FsCall.write { r with maxSize := n }).after cfg c fl).status = .error e)
    (hstore : Store cfg ((FsCall.write { r with maxSize := n }).after cfg c fl).ctx
      ((FsCall.write { r with maxSize := n }).after cfg c fl).flash)
    (hmap : (mountedImage cfg ((FsCall.write { r with maxSize := n }).after cfg c fl).ctx
      ((FsCall.write { r with maxSize := n }).after cfg c fl).flash).fileMap cfg =
        (mountedImage cfg c fl).fileMap cfg) : RefusedWrite cfg c fl r := by
  have hcrash : cfg.eraseVal = 0x00 ∨ cfg.eraseVal = 0xFF → ∀ fl',
      ((FsCall.write { r with maxSize := n }).exec cfg).CrashAt cfg.eraseVal c fl fl' →
        Restores cfg ((mountedImage cfg c fl).fileMap cfg) fl' := fun he fl' hc => by
    rcases h.call_crash (f := .write _) he hv hc with hr | hr
    · exact hr
    · rwa [hmap] at hr
  rw [Image.writePlan_of_max hn] at hp
  rw [(after_of_max hn c fl).1] at hst hstore hmap
  rw [(exec_of_max hn).1] at hcrash
  exact ⟨fun p hp' => (nomatch hp.symm.trans hp'), ⟨e, hst⟩, hstore, hmap, hcrash⟩

/-- Whatever the size, the first write of an asset is refused and changes nothing, or it is made. -/
theorem Store.firstWrite_cases (h : Store cfg c fl) (hr : r.InRange) (hu : cfg.programUnit = 2 ^ k)
    (hd : AlignFits r.dataSize cfg.programUnit)
    (hm : AlignFits r.maxSize cfg.programUnit ∨ r.dataSize ≠ 0)
    (htr : r.flags &&& flagTruncate ≠ 0) (ho : r.offset = 0) :
    RefusedWrite cfg c fl r ∨
    (r.Valid cfg ∧ (∃ p, (mountedImage cfg c fl).writePlan cfg r = .ok p) ∧
      FirstWrite cfg c fl r ((FsCall.write r).after cfg c fl)) := by
  have hk := programUnit_exp_lt hu
  by_cases hfit : AlignFits r.maxSize cfg.programUnit
  · have hv : r.Valid cfg := ⟨hr.fid, hr.flags_lt, hr.offset_lt, hfit, hd⟩
    rcases h.firstWrite hv htr ho with ⟨e, hp, hst, hstore, hmap⟩ | ⟨hp, hw⟩
    · exact .inl (h.refusedWrite rfl hv hp hst hstore hmap)
    · exact .inr ⟨hv, hp, hw⟩
  · -- the maximum size wraps to zero, and no data fits in that
    have h0 : r.dataSize ≠ 0 := hm.resolve_left hfit
    have hmax : r.max cfg = 0 := by
      unfold WriteReq.max
      rw [hu] at hfit ⊢
      exact utilsAlign_wrap hr.maxSize_lt hfit hk
    have hn : utilsAlign 0 cfg.programUnit = r.max cfg := by
      rw [hmax, hu, utilsAlign_zero hk]
    have hv : ({ r with maxSize := 0 } : WriteReq).Valid cfg :=
      ⟨hr.fid, hr.flags_lt, hr.offset_lt, by rw [hu]; exact alignFits_zero _, hd⟩
    rcases h.firstWrite hv htr ho with ⟨e, hp, hst, hstore, hmap⟩ | ⟨⟨p, hp⟩, hw⟩
    · exact .inl (h.refusedWrite hn hv hp hst hstore hmap)
    · have hsound := h.wf.writePlan_sound h.accepted h.active_le hp
      obtain ⟨-, hle, hend⟩ := WritePlan.fits_le hv hsound.fits h0
      rw [hsound.maxSize_of_truncate htr, show WriteReq.max cfg { r with maxSize := 0 } = 0 from
        hn.trans hmax] at hend
      exact absurd (Nat.le_zero.mp (hle.trans ((Nat.le_add_left _ _).trans hend))) h0

/-! ## The states that a request can be left in -/

section
variable {ι : Type} [DecidableEq ι]

/-- The first write of a request. -/
def Build.firstRound (b : Build ι) (msg : Msg) (uid createFlags : Nat) (x : ι → Ctx × Flash)
    (buf : Nat → UInt8) : WriteReq :=
  b.round (etssGetFid msg.clientId uid) msg (createFlags ||| flagCreate ||| flagTruncate)
    (msg.inSize 1) 0 x buf .start

/-- The flash when power is lost or operations fail while a request sets an asset. -/
inductive SetLeaves (b : Build ι) (i : ι) (msg : Msg) (uid createFlags : Nat)
    (x : ι → Ctx × Flash) (buf : Nat → UInt8) : Flash → Prop
  | lookup : SetLeaves b i msg uid createFlags x buf (x i).2
  | powerLost {fl : Flash}
    (cut : CutIn b i (b.serve (.set msg uid createFlags) ⟨⟨x, []⟩, buf⟩).2.fs.calls fl) :
    SetLeaves b i msg uid createFlags x buf fl
  | failed (F : Faults) : SetLeaves b i msg uid createFlags x buf
    ((etssSet b.faultyPlatform msg uid (msg.inSize 1) createFlags ⟨⟨x, F⟩, buf⟩ .start).2.1.fs.fs i).2

/-- After the next mount the client gets the old asset, or it gets the new one. -/
def AtomicSet (b : Build ι) (i : ι) (msg : Msg) (uid createFlags : Nat) (x : ι → Ctx × Flash)
    (buf : Nat → UInt8) : Prop :=
  ∀ fl, SetLeaves b i msg uid createFlags x buf fl → ∀ c₀, ∃ c' fl',
    (flashFsPrepare (b.cfg i)).run (b.cfg i).eraseVal c₀ fl = ⟨.ok (), c', fl'⟩ ∧
    (b.fetch msg uid ⟨⟨Function.update x i (c', fl'), []⟩, buf⟩ = b.fetch msg uid ⟨⟨x, []⟩, buf⟩ ∨
      b.fetch msg uid ⟨⟨Function.update x i (c', fl'), []⟩, buf⟩ = .ok ⟨msg.inVec 1, createFlags⟩)

/-- The request writes nothing; or its data fits in the buffer, and is not moved from under an empty
old file; or it fits in the buffer twice, and the old asset is what the first write makes. -/
def SetAtOnce (b : Build ι) (i : ι) (msg : Msg) (uid createFlags : Nat) (x : ι → Ctx × Flash)
    (buf : Nat → UInt8) : Prop :=
  uid = etssInvalidUid ∨ createFlags &&& not32 supportedFlags ≠ 0 ∨
  (∀ p, (mountedImage (b.cfg i) (x i).1 (x i).2).writePlan (b.cfg i)
    (b.firstRound msg uid createFlags x buf) ≠ .ok p) ∨
  (msg.inSize 1 ≤ b.assetDataSize ∧ (mountedImage (b.cfg i) (x i).1 (x i).2).ReplaceKeeps (b.cfg i)
    (b.firstRound msg uid createFlags x buf)) ∨
  (b.assetDataSize < msg.inSize 1 ∧ msg.inSize 1 ≤ 2 * b.assetDataSize ∧
    (mountedImage (b.cfg i) (x i).1 (x i).2).asset (b.cfg i) (etssGetFid msg.clientId uid) =
      some ⟨(msg.inVec 1).take b.assetDataSize, createFlags⟩)

variable {b : Build ι} {i : ι} {msg : Msg} {uid createFlags : Nat} {x : ι → Ctx × Flash}
  {buf : Nat → UInt8}

/-- A refused request leaves the flash as it is. -/
theorem SetLeaves.refused (h : SetLeaves b i msg uid createFlags x buf fl)
    (hno : uid = etssInvalidUid ∨ createFlags &&& not32 supportedFlags ≠ 0) : fl = (x i).2 := by
  have hset : ∀ {φ : Type} (p : Platform φ) (s : Partition φ) (io : Io Reply),
      (etssSet p msg uid (msg.inSize 1) createFlags s io).2.1 = s := by
    intro φ p s io
    unfold etssSet
    split_ifs with h₁ h₂ h₃
    · rfl
    · rfl
    · exact absurd hno (not_or.mpr ⟨h₂, h₃⟩)
    · rfl
  cases h with
  | lookup => rfl
  | powerLost cut =>
    obtain ⟨y, hy, -⟩ := cut
    have hcalls : (b.serve (.set msg uid createFlags) ⟨⟨x, []⟩, buf⟩).2.fs.calls = [] :=
      congrArg (fun s : Partition (Storage ι) => s.fs.calls) (hset b.platform ⟨⟨x, []⟩, buf⟩ .start)
    rw [hcalls] at hy
    exact absurd hy List.not_mem_nil
  | failed F => rw [hset]

/-- The calls of a request that is not refused. -/
def Build.setCalls (b : Build ι) (i : ι) (msg : Msg) (uid createFlags : Nat) (x : ι → Ctx × Flash)
    (buf : Nat → UInt8) : List (Called ι) :=
  (etssSetLoop b.platform (b.fileSystem i) (etssGetFid msg.clientId uid) msg
    (createFlags ||| flagCreate ||| flagTruncate) (msg.inSize 1) 0 ⟨⟨x, []⟩, buf⟩
    .start).2.1.fs.calls

theorem SetLeaves.cut (h : SetLeaves b i msg uid createFlags x buf fl)
    (hst : Store (b.cfg i) (x i).1 (x i).2) (hb : b.area msg.clientId = some i)
    (hf : etssGetFid msg.clientId uid ≠ 0) :
    fl = (x i).2 ∨ CutIn b i (b.setCalls i msg uid createFlags x buf) fl := by
  cases h with
  | lookup => exact .inl rfl
  | powerLost cut =>
    obtain ⟨y, hy, hc⟩ := cut
    refine .inr ⟨y, ?_, hc⟩
    have hfs : b.platform.fsCtx msg.clientId = some (b.fileSystem i) := by
      show (b.area msg.clientId).map b.fileSystem = _
      rw [hb]
      rfl
    have hlook := fileGetInfo_look (s := ⟨⟨x, []⟩, buf⟩) hst hf
    have hcalls : (etssSet b.platform msg uid (msg.inSize 1) createFlags ⟨⟨x, []⟩, buf⟩
        .start).2.1.fs.calls ⊆ b.setCalls i msg uid createFlags x buf := by
      unfold Build.setCalls
      generalize b.fileSystem i = fs at hfs hlook
      obtain ⟨look, write, read, delete⟩ := fs
      dsimp only at hlook
      unfold etssSet
      split_ifs
      · exact List.nil_subset _
      · exact List.nil_subset _
      · rw [hfs]
        dsimp only
        rw [hlook]
        dsimp only
        split
        · split_ifs
          · exact List.nil_subset _
          · exact List.Subset.refl _
        · exact List.Subset.refl _
        · exact List.nil_subset _
      · exact List.nil_subset _
    exact hcalls hy
  | failed F =>
    have hfs : b.faultyPlatform.fsCtx msg.clientId = some (b.faultyFileSystem i) := by
      show (b.area msg.clientId).map b.faultyFileSystem = _
      rw [hb]
      rfl
    have hlook : ((b.faultyFileSystem i).fileGetInfo (etssGetFid msg.clientId uid) ⟨x, F⟩).2.fs =
        x := FaultyStorage.call_reads (fileGetInfo_reads _)
    have hcut : ∀ F, CutIn b i (b.setCalls i msg uid createFlags x buf)
        ((etssSetLoop b.faultyPlatform (b.faultyFileSystem i) (etssGetFid msg.clientId uid) msg
          (createFlags ||| flagCreate ||| flagTruncate) (msg.inSize 1) 0 ⟨⟨x, F⟩, buf⟩
          .start).2.1.fs.fs i).2 := fun F => faultyLoop_cut _ _ _ _ _ _ _ _
    generalize b.faultyFileSystem i = fs at hfs hlook hcut
    obtain ⟨look, write, read, delete⟩ := fs
    dsimp only at hlook
    unfold etssSet
    split_ifs
    · exact .inl rfl
    · exact .inl rfl
    · rw [hfs]
      dsimp only
      generalize look (etssGetFid msg.clientId uid) ⟨x, F⟩ = out at hlook
      obtain ⟨res, ⟨y, F'⟩⟩ := out
      obtain rfl : y = x := hlook
      cases res with
      | ok info =>
        dsimp only
        split_ifs
        · exact .inl rfl
        · exact .inr (hcut F')
      | error e =>
        cases e with
        | doesNotExist => exact .inr (hcut F')
        | _ => exact .inl rfl
    · exact .inl rfl

/-! ## The writes of a request -/

section
variable (hst : Store (b.cfg i) (x i).1 (x i).2)
  (he : (b.cfg i).eraseVal = 0x00 ∨ (b.cfg i).eraseVal = 0xFF)
  (hreq : (Request.set msg uid createFlags).InRange) (hu : uid ≠ etssInvalidUid)
  (hflags : SetFlags createFlags (createFlags ||| flagCreate ||| flagTruncate))

include hst hreq hu hflags in
theorem Build.firstRound_cases (buf : Nat → UInt8) :
    RefusedWrite (b.cfg i) (x i).1 (x i).2 (b.firstRound msg uid createFlags x buf) ∨
    ((b.firstRound msg uid createFlags x buf).Valid (b.cfg i) ∧
      (∃ p, (mountedImage (b.cfg i) (x i).1 (x i).2).writePlan (b.cfg i)
        (b.firstRound msg uid createFlags x buf) = .ok p) ∧
      FirstWrite (b.cfg i) (x i).1 (x i).2 (b.firstRound msg uid createFlags x buf)
        ((FsCall.write (b.firstRound msg uid createFlags x buf)).after (b.cfg i) (x i).1
          (x i).2)) := by
  obtain ⟨k, hk⟩ := b.unit i
  have hB := b.assetDataSize_pos
  have hlt := b.assetDataSize_lt
  have hunit := Nat.le_of_dvd hB (b.assetDataSize_dvd i)
  have hpos : 1 ≤ (b.cfg i).programUnit := hk ▸ Nat.one_le_two_pow
  have hfits : ∀ {n}, n ≤ b.assetDataSize → AlignFits n (b.cfg i).programUnit := fun {n} hn => by
    show n + sub32 (b.cfg i).programUnit 1 < 2 ^ 32
    rw [sub32_eq (by omega) hpos]
    omega
  have hdata : (b.firstRound msg uid createFlags x buf).dataSize =
      min (msg.inSize 1) b.assetDataSize := rfl
  have hsize := hreq.size
  refine hst.firstWrite_cases ⟨etssGetFid_ne_zero hreq.uid hu, hflags.lt, hsize, ?_, ?_⟩ hk ?_ ?_
    hflags.truncate rfl
  · rw [hdata]
    omega
  · exact Nat.two_pow_pos 32
  · exact hfits (min_le_right _ _)
  · rw [hdata]
    rcases Nat.eq_zero_or_pos (msg.inSize 1) with h0 | h0
    · exact .inl (hfits (show msg.inSize 1 ≤ _ by omega))
    · exact .inr (by omega)

/-- A request whose first write is refused makes no other. -/
theorem setCalls_refused {e : Status}
    (h : ((FsCall.write (b.firstRound msg uid createFlags x buf)).after (b.cfg i) (x i).1
      (x i).2).status = .error e) : b.setCalls i msg uid createFlags x buf =
        [⟨i, x, .write (b.firstRound msg uid createFlags x buf)⟩] := by
  have hcall : (b.fileSystem i).fileWrite (etssGetFid msg.clientId uid)
      (createFlags ||| flagCreate ||| flagTruncate) (msg.inSize 1)
      (min (msg.inSize 1) b.platform.assetDataSize) 0
      (setBuffer b.platform msg (msg.inSize 1) ⟨⟨x, []⟩, buf⟩ .start) ⟨x, []⟩ =
        (.error e, ⟨b.afterRound i x (b.firstRound msg uid createFlags x buf),
          [⟨i, x, .write (b.firstRound msg uid createFlags x buf)⟩]⟩) := Prod.ext h rfl
  unfold Build.setCalls
  rw [(etssSetLoop_error hcall).2]

/-- The filesystem after the first write. -/
def Build.firstImage (b : Build ι) (i : ι) (msg : Msg) (uid createFlags : Nat)
    (x : ι → Ctx × Flash) (buf : Nat → UInt8) : Image :=
  mountedImage (b.cfg i)
    ((FsCall.write (b.firstRound msg uid createFlags x buf)).after (b.cfg i) (x i).1 (x i).2).ctx
    ((FsCall.write (b.firstRound msg uid createFlags x buf)).after (b.cfg i) (x i).1 (x i).2).flash

variable (hv : (b.firstRound msg uid createFlags x buf).Valid (b.cfg i))
  (hfirst : FirstWrite (b.cfg i) (x i).1 (x i).2 (b.firstRound msg uid createFlags x buf)
    ((FsCall.write (b.firstRound msg uid createFlags x buf)).after (b.cfg i) (x i).1 (x i).2))
  {v : Image.View}
  (hm : (b.firstImage i msg uid createFlags x buf).fileMap (b.cfg i) (etssGetFid msg.clientId uid) =
    some v)

include hfirst hflags hm in
/-- What the first write shows: the flags of the caller, and as many bytes as it wrote. -/
theorem firstImage_asset : v.asset = ⟨v.content, createFlags⟩ ∧
    v.content.length = min (msg.inSize 1) b.assetDataSize := by
  obtain ⟨w, hw, hof⟩ := hfirst.file
  obtain rfl : v = w := Option.some.inj (hm.symm.trans hw)
  refine ⟨congrArg (Asset.mk v.content) (hof.flags.trans hflags.user), ?_⟩
  exact (Image.fileMap_content_length hm).trans hof.curSize

include hv hfirst hflags hm in
/-- Once the first write is made, the others take the file from one part to the next. -/
theorem setCalls_made (hcf : createFlags < 2 ^ 32) : ∀ y ∈ b.setCalls i msg uid createFlags x buf,
    y = ⟨i, x, .write (b.firstRound msg uid createFlags x buf)⟩ ∨
    PartCall b i ((b.firstImage i msg uid createFlags x buf).fileMap (b.cfg i))
      (etssGetFid msg.clientId uid) v (v.content ++ (msg.inVec 1).drop b.assetDataSize) y := by
  have happ : AppendFlags ((createFlags ||| flagCreate ||| flagTruncate) &&&
      not32 (flagCreate ||| flagTruncate)) := by
    rw [hflags.further]
    exact ⟨hcf, hflags.internal, hflags.append⟩
  obtain ⟨-, -, -, cs, hcs, hall⟩ := etssSetLoop_made (s := ⟨⟨x, []⟩, buf⟩) hv rfl rfl happ hfirst rfl
    hm rfl
  have hcalls : b.setCalls i msg uid createFlags x buf =
      ⟨i, x, .write (b.firstRound msg uid createFlags x buf)⟩ :: cs := hcs
  intro y hy
  rw [hcalls] at hy
  rcases List.mem_cons.mp hy with rfl | hy
  · exact .inl rfl
  · exact .inr (hall y hy)

include hst he hv hm in
/-- A loss of power in the first write. -/
theorem firstRound_shows (hc : ((FsCall.write (b.firstRound msg uid createFlags x buf)).exec
      (b.cfg i)).CrashAt (b.cfg i).eraseVal (x i).1 (x i).2 fl) :
    Shows (b.cfg i) (etssGetFid msg.clientId uid) ((mountedImage (b.cfg i) (x i).1 (x i).2).asset
      (b.cfg i) (etssGetFid msg.clientId uid)) fl ∨
    Shows (b.cfg i) (etssGetFid msg.clientId uid) (some v.asset) fl := by
  rcases hst.call_crash (f := .write _) he hv hc with hr | hr
  · exact .inl ⟨_, hr, rfl⟩
  · exact .inr ⟨_, hr, congrArg (Option.map Image.View.asset) hm⟩

omit [DecidableEq ι] in
include he in
/-- A loss of power in a further write. -/
theorem PartCall.shows {M : Fid → Option Image.View} {D : List UInt8} {y : Called ι}
    (hy : PartCall b i M fid v D y) (hB : D.length ≤ 2 * b.assetDataSize)
    (hc : (y.call.exec (b.cfg i)).CrashAt (b.cfg i).eraseVal (y.before i).1 (y.before i).2 fl) :
    Shows (b.cfg i) fid (some ⟨D.take b.assetDataSize, v.flags &&& userFlagsMask⟩) fl ∨
      Shows (b.cfg i) fid (some ⟨D, v.flags &&& userFlagsMask⟩) fl := by
  obtain ⟨r, o, hcall, hv, h0, hlt, hdvd, hbefore, hafter⟩ := hy.part
  obtain ⟨q, rfl⟩ := hdvd
  obtain rfl : q = 1 := by
    have hpos := b.assetDataSize_pos
    rcases Nat.lt_trichotomy q 1 with hq | hq | hq
    · obtain rfl : q = 0 := by omega
      exact absurd h0 (Nat.not_lt_zero _)
    · exact hq
    · have hmul := Nat.mul_le_mul_left b.assetDataSize (show 2 ≤ q from hq)
      omega
  rw [Nat.mul_one] at hbefore hafter
  rw [hcall] at hc hafter
  rw [min_eq_right (by omega)] at hafter
  rcases hbefore.store.call_crash (f := .write r) he hv hc with hr | hr
  · refine .inl ⟨_, hr, ?_⟩
    rw [hbefore.map, Function.update_self]
    rfl
  · refine .inr ⟨_, hr, ?_⟩
    rw [hafter.map, Function.update_self, List.take_length]
    rfl

/-- The bytes of the first write. -/
theorem firstRound_data : (List.range (b.firstRound msg uid createFlags x buf).dataSize).map
      (b.firstRound msg uid createFlags x buf).data =
    (msg.inVec 1).take (min (msg.inSize 1) b.assetDataSize) :=
  setRequest_data rfl (Nat.zero_add _)

include hst hreq hu hfirst hm in
/-- An old asset with bytes in it is not moved onto the new one. -/
theorem firstImage_content {old : Asset} (hold : (mountedImage (b.cfg i) (x i).1 (x i).2).asset
      (b.cfg i) (etssGetFid msg.clientId uid) = some old) (h0 : old.data ≠ []) :
    v.content = (msg.inVec 1).take (min (msg.inSize 1) b.assetDataSize) := by
  have hno : ¬ (mountedImage (b.cfg i) (x i).1 (x i).2).ReplaceShares (b.cfg i)
      (b.firstRound msg uid createFlags x buf) := by
    rintro ⟨p, -, hrep, hz, -⟩
    exact h0 (hrep.asset_empty hst.wf hst.closed (etssGetFid_ne_zero hreq.uid hu) hz hold)
  have hmap := congrFun (hfirst.map hno) (etssGetFid msg.clientId uid)
  rw [show (etssGetFid msg.clientId uid) = (b.firstRound msg uid createFlags x buf).fid from rfl,
    Function.update_self] at hmap
  obtain rfl := Option.some.inj (hm.symm.trans hmap)
  exact firstRound_data

end

/-! ## A request that is cut -/

section
variable (hst : Store (b.cfg i) (x i).1 (x i).2) (hb : b.area msg.clientId = some i)
  (he : (b.cfg i).eraseVal = 0x00 ∨ (b.cfg i).eraseVal = 0xFF)
  (hreq : (Request.set msg uid createFlags).InRange) (hcf : createFlags < 2 ^ 32)
include hst hb he hreq hcf

/-- A request that changes the asset at once leaves the old asset or the new one. -/
theorem SetAtOnce.shows (h : SetAtOnce b i msg uid createFlags x buf) (hu : uid ≠ etssInvalidUid)
    (hl : SetLeaves b i msg uid createFlags x buf fl) :
    Shows (b.cfg i) (etssGetFid msg.clientId uid) ((mountedImage (b.cfg i) (x i).1 (x i).2).asset
      (b.cfg i) (etssGetFid msg.clientId uid)) fl ∨
    Shows (b.cfg i) (etssGetFid msg.clientId uid) (some ⟨msg.inVec 1, createFlags⟩) fl := by
  have hB := b.assetDataSize_pos
  by_cases hs : createFlags &&& not32 supportedFlags = 0
  · have hflags := setFlags_of_supported hcf hs
    rcases hl.cut hst hb (etssGetFid_ne_zero hreq.uid hu) with rfl | ⟨y, hy, -, hc⟩
    · exact .inl (hst.shows _)
    rcases Build.firstRound_cases hst hreq hu hflags buf with hno | ⟨hv, ⟨p, hp⟩, hfirst⟩
    · obtain ⟨e, hfail⟩ := hno.status
      rw [setCalls_refused hfail, List.mem_singleton] at hy
      subst hy
      exact .inl ⟨_, hno.crash he fl hc, rfl⟩
    · obtain ⟨v, hm, -⟩ := hfirst.file
      obtain ⟨hasset, hlen⟩ := firstImage_asset hflags hfirst hm
      have hD : (v.content ++ (msg.inVec 1).drop b.assetDataSize).length = msg.inSize 1 := by
        rw [List.length_append, hlen, List.length_drop]
        show _ + (msg.inSize 1 - _) = _
        omega
      rcases h with h | h | h | ⟨hle, hkeeps⟩ | ⟨hlt, hle, hold⟩
      · exact absurd h hu
      · exact absurd hs h
      · exact absurd hp (h p)
      · -- there is one write
        have hsize : (b.firstRound msg uid createFlags x buf).size (b.cfg i) =
            (b.firstRound msg uid createFlags x buf).max (b.cfg i) :=
          congrArg (utilsAlign · (b.cfg i).programUnit) (min_eq_left hle)
        obtain ⟨w, hw, hcontent⟩ := (hfirst.content hsize).mpr hkeeps
        obtain rfl : v = w := Option.some.inj (hm.symm.trans hw)
        rw [firstRound_data, min_eq_left hle] at hcontent
        rw [hcontent, show (msg.inVec 1).take (msg.inSize 1) = msg.inVec 1 from
          List.take_length] at hasset
        rcases setCalls_made hflags hv hfirst hm hcf y hy with rfl | hpart
        · rw [← hasset]
          exact firstRound_shows hst he hv hm hc
        · obtain ⟨_, o, _, _, h0, hlt, hdvd, _⟩ := hpart.part
          have := Nat.le_of_dvd h0 hdvd
          omega
      · -- there are two, and the first one makes what is there already
        have hne : (msg.inVec 1).take b.assetDataSize ≠ [] := by
          intro hn
          have hl := congrArg List.length hn
          rw [List.length_take, List.length_nil] at hl
          have : b.assetDataSize < (msg.inVec 1).length := hlt
          omega
        have hcontent := firstImage_content hst hreq hu hfirst hm hold hne
        rw [min_eq_right hlt.le] at hcontent
        rw [hold]
        rcases setCalls_made hflags hv hfirst hm hcf y hy with rfl | hpart
        · have hshows := firstRound_shows hst he hv hm hc
          rw [hasset, hcontent, hold, or_self] at hshows
          exact .inl hshows
        · have hshows := hpart.shows he (hD.le.trans hle) hc
          rw [show v.flags &&& userFlagsMask = createFlags from congrArg Asset.flags hasset,
            hcontent, List.take_append_drop] at hshows
          exact hshows
  · rw [hl.refused (.inr hs)]
    exact .inl (hst.shows _)

end

/-! ## Failures that end a request after a write -/

/-- The lookup fails, the next `n` operations succeed, and then nothing does. -/
def window (n : Nat) : Faults := fun k => if 1 ≤ k ∧ k ≤ n then none else some 0

theorem window_clean (n : Nat) : ((window n).drop 1).CleanFor n :=
  fun _ hj => if_pos ⟨Nat.le_add_right 1 _, by omega⟩

theorem window_dead (n : Nat) : ((window n).drop 1 n).isSome := by
  show (window n (1 + n)).isSome
  unfold window
  rw [if_neg (by omega)]
  rfl

section
variable (hb : b.area msg.clientId = some i) (hu : uid ≠ etssInvalidUid)
  (hs : createFlags &&& not32 supportedFlags = 0) (hmax : 0 < (b.cfg i).maxNumFiles)

include hb hu hs hmax in
/-- A lookup that fails lets the request go on, even if the asset is to be written once only. -/
theorem SetLeaves.lookupFails (x : ι → Ctx × Flash) (buf : Nat → UInt8) (n : Nat) : SetLeaves b i msg uid createFlags x buf
    ((etssSetLoop b.faultyPlatform (b.faultyFileSystem i) (etssGetFid msg.clientId uid) msg
      (createFlags ||| flagCreate ||| flagTruncate) (msg.inSize 1) 0
      ⟨⟨x, (window n).drop 1⟩, buf⟩ .start).2.1.fs.fs i).2 := by
  have hfs : b.faultyPlatform.fsCtx msg.clientId = some (b.faultyFileSystem i) := by
    show (b.area msg.clientId).map b.faultyFileSystem = _
    rw [hb]
    rfl
  obtain ⟨hnone, hleft⟩ := @fileGetInfo_dead (b.cfg i) (x i).1 (x i).2 (window n)
    (etssGetFid msg.clientId uid) hmax rfl
  have hkeep : ((b.faultyFileSystem i).fileGetInfo (etssGetFid msg.clientId uid)
      ⟨x, window n⟩).2 = ⟨x, (window n).drop 1⟩ :=
    congrArg₂ FaultyStorage.mk (FaultyStorage.call_reads (s := ⟨x, window n⟩) (fileGetInfo_reads _))
      hleft
  have hloop : etssSet b.faultyPlatform msg uid (msg.inSize 1) createFlags ⟨⟨x, window n⟩, buf⟩
      .start = _ := etssSet_eq_loop b.storage hu hs hfs (.inl hnone)
  rw [hkeep] at hloop
  rw [← hloop]
  exact .failed (window n)

variable (hok : ((FsCall.write (b.firstRound msg uid createFlags x buf)).after (b.cfg i) (x i).1
    (x i).2).status = .ok ())
  (hflags : SetFlags createFlags (createFlags ||| flagCreate ||| flagTruncate))
include hb hu hs hmax hok hflags

/-- The request can end after its first write. -/
theorem SetLeaves.firstRound : SetLeaves b i msg uid createFlags x buf
    (b.afterRound i x (b.firstRound msg uid createFlags x buf) i).2 := by
  have hint : (createFlags ||| flagCreate ||| flagTruncate) &&&
      not32 (flagCreate ||| flagTruncate) &&& internalFlagsMask = 0 := by
    rw [hflags.further]
    exact hflags.internal
  have hl := SetLeaves.lookupFails hb hu hs hmax x buf
    (b.opCount i x (b.firstRound msg uid createFlags x buf))
  exact (congrArg (SetLeaves b i msg uid createFlags x buf)
    (faultyLoop_end hok (window_clean _) hint hmax (window_dead _))).mp hl

/-- The write of the second round. -/
def Build.secondRound (b : Build ι) (i : ι) (msg : Msg) (uid createFlags : Nat)
    (x : ι → Ctx × Flash) (buf : Nat → UInt8) : WriteReq :=
  b.round (etssGetFid msg.clientId uid) msg ((createFlags ||| flagCreate ||| flagTruncate) &&&
      not32 (flagCreate ||| flagTruncate)) (msg.inSize 1 - b.assetDataSize) (0 + b.assetDataSize)
    (b.afterRound i x (b.firstRound msg uid createFlags x buf))
    (setBuffer b.platform msg (msg.inSize 1) ⟨⟨x, []⟩, buf⟩ .start)
    (Io.psaRead .start msg 1 b.assetDataSize b.assetDataSize).2

/-- Or after its second one. -/
theorem SetLeaves.secondRound (hlt : b.assetDataSize < msg.inSize 1)
    (hok₂ : ((FsCall.write (b.secondRound i msg uid createFlags x buf)).after (b.cfg i)
      (b.afterRound i x (b.firstRound msg uid createFlags x buf) i).1
      (b.afterRound i x (b.firstRound msg uid createFlags x buf) i).2).status = .ok ()) :
    SetLeaves b i msg uid createFlags x buf
      (b.afterRound i (b.afterRound i x (b.firstRound msg uid createFlags x buf))
        (b.secondRound i msg uid createFlags x buf) i).2 := by
  have hint : (createFlags ||| flagCreate ||| flagTruncate) &&&
      not32 (flagCreate ||| flagTruncate) &&& not32 (flagCreate ||| flagTruncate) &&&
        internalFlagsMask = 0 := by
    rw [hflags.further, Nat.land_assoc, Nat.land_comm _ internalFlagsMask, ← Nat.land_assoc,
      hflags.internal, Nat.zero_and]
  have hl := SetLeaves.lookupFails hb hu hs hmax x buf
    (b.opCount i x (b.firstRound msg uid createFlags x buf) +
      b.opCount i (b.afterRound i x (b.firstRound msg uid createFlags x buf))
        (b.secondRound i msg uid createFlags x buf))
  have hclean := window_clean (b.opCount i x (b.firstRound msg uid createFlags x buf) +
    b.opCount i (b.afterRound i x (b.firstRound msg uid createFlags x buf))
      (b.secondRound i msg uid createFlags x buf))
  rw [faultyLoop_next hok (hclean.mono (Nat.le_add_right _ _)) hlt] at hl
  exact (congrArg (SetLeaves b i msg uid createFlags x buf)
    (faultyLoop_end hok₂ hclean.drop hint hmax (window_dead _))).mp hl

end

section
variable (hf : etssGetFid msg.clientId uid ≠ 0)
  (hflags : SetFlags createFlags (createFlags ||| flagCreate ||| flagTruncate))
  (hcf : createFlags < 2 ^ 32) (hv : (b.firstRound msg uid createFlags x buf).Valid (b.cfg i))
  (hfirst : FirstWrite (b.cfg i) (x i).1 (x i).2 (b.firstRound msg uid createFlags x buf)
    ((FsCall.write (b.firstRound msg uid createFlags x buf)).after (b.cfg i) (x i).1 (x i).2))
  {v : Image.View}
  (hm : (b.firstImage i msg uid createFlags x buf).fileMap (b.cfg i) (etssGetFid msg.clientId uid) =
    some v)
include hf hflags hcf hv hfirst hm

/-- The second write of a request that has a third. -/
theorem secondRound_hasPart (hlen : v.content.length = b.assetDataSize)
    (hgt : 2 * b.assetDataSize < msg.inSize 1) :
    ((FsCall.write (b.secondRound i msg uid createFlags x buf)).after (b.cfg i)
      (b.afterRound i x (b.firstRound msg uid createFlags x buf) i).1
      (b.afterRound i x (b.firstRound msg uid createFlags x buf) i).2).status = .ok () ∧
    HasPart (b.cfg i) ((b.firstImage i msg uid createFlags x buf).fileMap (b.cfg i))
      (etssGetFid msg.clientId uid) v (v.content ++ (msg.inVec 1).drop b.assetDataSize)
      (2 * b.assetDataSize) (b.afterRound i
        (b.afterRound i x (b.firstRound msg uid createFlags x buf))
        (b.secondRound i msg uid createFlags x buf) i) := by
  have hn : msg.inSize 1 = (msg.inVec 1).length := rfl
  have hD : (v.content ++ (msg.inVec 1).drop b.assetDataSize).length = msg.inSize 1 := by
    rw [List.length_append, hlen, List.length_drop]
    omega
  have hself : b.afterRound i x (b.firstRound msg uid createFlags x buf) i = _ :=
    Function.update_self _ _ _
  have hpart : HasPart (b.cfg i) ((b.firstImage i msg uid createFlags x buf).fileMap (b.cfg i))
      (etssGetFid msg.clientId uid) v (v.content ++ (msg.inVec 1).drop b.assetDataSize)
      (0 + b.assetDataSize) (b.afterRound i x (b.firstRound msg uid createFlags x buf) i) := by
    rw [hself, ← show min (msg.inSize 1) b.assetDataSize = 0 + b.assetDataSize by omega]
    exact hfirst.hasPart rfl hm (List.prefix_append _ _)
  obtain ⟨w, hw, hof⟩ := hfirst.file
  obtain rfl : v = w := Option.some.inj (hm.symm.trans hw)
  have htaken : (Io.psaRead .start msg 1 b.assetDataSize b.assetDataSize : _ × Io Reply).2.taken 1 =
      0 + b.assetDataSize := by
    rw [Io.psaRead_taken_self, List.length_take, List.length_drop]
    show 0 + min _ (_ - 0) = _
    omega
  have happ : AppendFlags ((createFlags ||| flagCreate ||| flagTruncate) &&&
      not32 (flagCreate ||| flagTruncate)) := by
    rw [hflags.further]
    exact ⟨hcf, hflags.internal, hflags.append⟩
  have hdrop : (v.content ++ (msg.inVec 1).drop b.assetDataSize).drop (0 + b.assetDataSize) =
      (msg.inVec 1).drop (0 + b.assetDataSize) := by
    rw [Nat.zero_add, ← hlen, List.drop_left]
  have hmax : utilsAlign (v.content ++ (msg.inVec 1).drop b.assetDataSize).length
      (b.cfg i).programUnit ≤ v.maxSize := by
    rw [hD, hof.maxSize]
    exact le_rfl
  obtain ⟨-, hok, hnext⟩ := hpart.round (p := b.platform)
    (s := ⟨⟨b.afterRound i x (b.firstRound msg uid createFlags x buf), ([] : List (Called ι))⟩,
      setBuffer b.platform msg (msg.inSize 1) ⟨⟨x, []⟩, buf⟩ .start⟩) rfl hf
    (hD.symm ▸ hv.maxSize) hmax hdrop hD (n := msg.inSize 1 - b.assetDataSize) (by omega)
    (by rw [Nat.zero_add]) htaken happ
  have hsum : min (0 + b.assetDataSize + b.assetDataSize)
      (v.content ++ (msg.inVec 1).drop b.assetDataSize).length = 2 * b.assetDataSize := by
    rw [hD]
    omega
  rw [hsum] at hnext
  refine ⟨hok, ?_⟩
  rw [show b.afterRound i (b.afterRound i x (b.firstRound msg uid createFlags x buf))
    (b.secondRound i msg uid createFlags x buf) i = _ from Function.update_self _ _ _]
  exact hnext

end

/-! ## When a request is atomic -/

theorem Build.fetch_invalid (s : Partition (Storage ι)) :
    b.fetch msg etssInvalidUid s = .error .invalidArgument := by
  unfold Build.fetch etssGetInfo
  rw [if_pos (show b.platform.securityFeature.securityStorage = true from b.storage), if_pos rfl]

section
variable (hst : Store (b.cfg i) (x i).1 (x i).2) (hb : b.area msg.clientId = some i)
  (he : (b.cfg i).eraseVal = 0x00 ∨ (b.cfg i).eraseVal = 0xFF)
  (hreq : (Request.set msg uid createFlags).InRange) (hcf : createFlags < 2 ^ 32)
include hst hb hreq

/-- Of an atomic request the client gets what the flash shows. -/
theorem AtomicSet.asset {asset : Option Asset} (h : AtomicSet b i msg uid createFlags x buf)
    (hu : uid ≠ etssInvalidUid) (hl : SetLeaves b i msg uid createFlags x buf fl)
    (hs : Shows (b.cfg i) (etssGetFid msg.clientId uid) asset fl) :
    asset = (mountedImage (b.cfg i) (x i).1 (x i).2).asset (b.cfg i) (etssGetFid msg.clientId uid) ∨
      asset = some ⟨msg.inVec 1, createFlags⟩ := by
  have hf : etssGetFid msg.clientId uid ≠ 0 := etssGetFid_ne_zero hreq.uid hu
  obtain ⟨c', fl', hrun, hcase⟩ := h fl hl Ctx.zero
  obtain ⟨c₁, fl₁, hrun₁, hfetch⟩ := hs.fetch hb hu hf x buf Ctx.zero
  rw [hrun] at hrun₁
  obtain ⟨rfl, rfl⟩ : c' = c₁ ∧ fl' = fl₁ := by
    injection hrun₁ with _ h₁ h₂
    exact ⟨h₁, h₂⟩
  rw [hfetch, Store.fetch_eq hb hu hf hst] at hcase
  exact hcase.imp fetched_inj fun hc => (fetched_inj hc : asset = some _)

include he hcf in
theorem SetAtOnce.atomicSet (h : SetAtOnce b i msg uid createFlags x buf) :
    AtomicSet b i msg uid createFlags x buf := by
  intro fl hl c₀
  by_cases hu : uid = etssInvalidUid
  · subst hu
    obtain ⟨_, c', fl', hrun, -⟩ := (Restores.prepare_ok
      (⟨_, hst.mountable, hst.settles⟩ : Restores (b.cfg i) _ (x i).2) c₀).exists_run
    rw [hl.refused (.inl rfl)]
    refine ⟨c', fl', hrun, .inl ?_⟩
    rw [Build.fetch_invalid, Build.fetch_invalid]
  · have hf : etssGetFid msg.clientId uid ≠ 0 := etssGetFid_ne_zero hreq.uid hu
    rcases h.shows hst hb he hreq hcf hu hl with hs | hs
    · obtain ⟨c', fl', hrun, hfetch⟩ := hs.fetch hb hu hf x buf c₀
      refine ⟨c', fl', hrun, .inl ?_⟩
      rw [hfetch, Store.fetch_eq hb hu hf hst]
    · obtain ⟨c', fl', hrun, hfetch⟩ := hs.fetch hb hu hf x buf c₀
      exact ⟨c', fl', hrun, .inr hfetch⟩

include hcf in
theorem AtomicSet.setAtOnce (h : AtomicSet b i msg uid createFlags x buf) :
    SetAtOnce b i msg uid createFlags x buf := by
  have hB := b.assetDataSize_pos
  by_cases hu : uid = etssInvalidUid
  · exact .inl hu
  by_cases hs : createFlags &&& not32 supportedFlags = 0
  swap
  · exact .inr (.inl hs)
  have hf : etssGetFid msg.clientId uid ≠ 0 := etssGetFid_ne_zero hreq.uid hu
  have hflags := setFlags_of_supported hcf hs
  rcases Build.firstRound_cases hst hreq hu hflags buf with hno | ⟨hv, ⟨p, hp⟩, hfirst⟩
  · exact .inr (.inr (.inl hno.plan))
  have hmax : 0 < (b.cfg i).maxNumFiles := lt_of_le_of_lt (Nat.zero_le _)
    (hst.wf.writePlan_sound hst.accepted hst.active_le hp).newIdx_lt
  obtain ⟨v, hm, -⟩ := hfirst.file
  obtain ⟨hasset, hlen⟩ := firstImage_asset hflags hfirst hm
  -- the request is cut after its first write
  have hshows : Shows (b.cfg i) (etssGetFid msg.clientId uid) (some ⟨v.content, createFlags⟩)
      (b.afterRound i x (b.firstRound msg uid createFlags x buf) i).2 := by
    have hs := hfirst.store.shows (etssGetFid msg.clientId uid)
    unfold Image.asset at hs
    rw [show (etssGetFid msg.clientId uid) = (b.firstRound msg uid createFlags x buf).fid from rfl,
      hm, Option.map_some, hasset] at hs
    rwa [show b.afterRound i x (b.firstRound msg uid createFlags x buf) i = _ from
      Function.update_self _ _ _]
  have hcase := h.asset hst hb hreq hu
    (.firstRound hb hu hs hmax hfirst.status hflags) hshows
  rcases le_or_gt (msg.inSize 1) b.assetDataSize with hle | hlt
  · refine .inr (.inr (.inr (.inl ⟨hle, ?_⟩)))
    have hsize : (b.firstRound msg uid createFlags x buf).size (b.cfg i) =
        (b.firstRound msg uid createFlags x buf).max (b.cfg i) :=
      congrArg (utilsAlign · (b.cfg i).programUnit) (min_eq_left hle)
    rcases hcase with hold | hnew
    · rintro p m - ⟨hrep, h0, -⟩ k hk
      have hempty : v.content = [] :=
        hrep.asset_empty hst.wf hst.closed hf h0 hold.symm
      rw [hempty, List.length_nil] at hlen
      exact absurd (hlen ▸ hk : k < 0) (Nat.not_lt_zero k)
    · refine (hfirst.content hsize).mp ⟨v, hm, ?_⟩
      rw [firstRound_data, min_eq_left hle]
      exact (congrArg Asset.data (Option.some.inj hnew)).trans List.take_length.symm
  · rw [min_eq_right hlt.le] at hlen
    have hold : (mountedImage (b.cfg i) (x i).1 (x i).2).asset (b.cfg i)
        (etssGetFid msg.clientId uid) = some ⟨v.content, createFlags⟩ := by
      rcases hcase with hold | hnew
      · exact hold.symm
      · have hl := congrArg List.length (congrArg Asset.data (Option.some.inj hnew))
        exact absurd (hlen.symm.trans hl) hlt.ne
    have hne : v.content ≠ [] := by
      intro hn
      rw [hn, List.length_nil] at hlen
      omega
    have hcontent := firstImage_content hst hreq hu hfirst hm hold hne
    rw [min_eq_right hlt.le] at hcontent
    refine .inr (.inr (.inr (.inr ⟨hlt, ?_, hcontent ▸ hold⟩)))
    by_contra hgt
    rw [not_le] at hgt
    obtain ⟨hok₂, hpart⟩ := secondRound_hasPart hf hflags hcf hv hfirst hm hlen hgt
    have hshows₂ := hpart.store.shows (etssGetFid msg.clientId uid)
    have hl₂ : SetLeaves b i msg uid createFlags x buf _ :=
      .secondRound hb hu hs hmax hfirst.status hflags hlt hok₂
    have hlen₂ : ((v.content ++ (msg.inVec 1).drop b.assetDataSize).take
        (2 * b.assetDataSize)).length = 2 * b.assetDataSize := by
      rw [List.length_take, List.length_append, hlen, List.length_drop]
      show min _ (_ + (msg.inSize 1 - _)) = _
      omega
    unfold Image.asset at hshows₂
    rw [hpart.map, Function.update_self] at hshows₂
    rcases h.asset hst hb hreq hu hl₂ hshows₂ with h₂ | h₂
    · rw [hold] at h₂
      have hl := congrArg List.length (congrArg Asset.data (Option.some.inj h₂))
      have := hlen₂.symm.trans (hl.trans hlen)
      omega
    · have hl := congrArg List.length (congrArg Asset.data (Option.some.inj h₂))
      have := hlen₂.symm.trans hl
      exact absurd this hgt.ne

end

end

/-- Whatever power is lost at and whatever operations fail, the client gets the old asset or the new
one afterwards, exactly when the request changes the asset at once. -/
theorem atomicSet_iff {ι : Type} [DecidableEq ι] {b : Build ι} {i : ι} {msg : Msg}
    {uid createFlags : Nat} {x : ι → Ctx × Flash} (hst : Store (b.cfg i) (x i).1 (x i).2)
    (hb : b.area msg.clientId = some i)
    (he : (b.cfg i).eraseVal = 0x00 ∨ (b.cfg i).eraseVal = 0xFF)
    (hreq : (Request.set msg uid createFlags).InRange) (hcf : createFlags < 2 ^ 32)
    (buf : Nat → UInt8) :
    AtomicSet b i msg uid createFlags x buf ↔ SetAtOnce b i msg uid createFlags x buf :=
  ⟨fun h => h.setAtOnce hst hb hreq hcf, fun h => h.atomicSet hst hb he hreq hcf⟩

theorem atomicSet_iff_keyStored :
    AtomicSet oneArea () setAgain 1 0 keyStored.fs.fs (fun _ => 0) ↔
      SetAtOnce oneArea () setAgain 1 0 keyStored.fs.fs fun _ => 0 :=
  atomicSet_iff (show Store (oneArea.cfg ()) _ _ from store_keyStored) rfl (.inr rfl)
    ⟨by decide, by decide, by decide⟩ (by decide) _

/-- A buffer for one program unit. -/
def smallBuffer : Build Unit where
  cfg _ := fiveBlocks
  area _ := some ()
  securityFeature := ⟨true, false, false, false⟩
  assetDataSize := 4
  accepted _ := fiveBlocks_accepted
  unit _ := fiveBlocks_unit
  storage := Eq.refl true
  assetDataSize_pos := by decide
  assetDataSize_lt := by decide
  assetDataSize_dvd _ := ⟨1, rfl⟩

/-- Client 1 sets an asset of two program units. -/
def setEight : Msg where
  type := psaIpcCall
  handle := 1
  clientId := 1
  inVec i := if i = 1 then [1, 2, 3, 4, 5, 6, 7, 8] else []
  outSize _ := 0

/-- Power is lost between the two writes: the asset has four bytes. -/
theorem not_atomicSet : Store fiveBlocks (filled fiveBlocks []).1 (filled fiveBlocks []).2 ∧
    (Request.set setEight 1 0).InRange ∧
    ¬ AtomicSet smallBuffer () setEight 1 0 (fun _ => filled fiveBlocks []) fun _ => 0 := by
  have hst : Store (smallBuffer.cfg ()) (filled fiveBlocks []).1 (filled fiveBlocks []).2 :=
    (reaches_filled (by decide)).store fiveBlocks_accepted
  have hreq : (Request.set setEight 1 0).InRange := ⟨by decide, by decide, by decide⟩
  refine ⟨hst, hreq, fun h => ?_⟩
  have hplan : ((mountedImage fiveBlocks (filled fiveBlocks []).1
      (filled fiveBlocks []).2).writePlan fiveBlocks (smallBuffer.firstRound setEight 1 0
        (fun _ => filled fiveBlocks []) fun _ => 0)).toOption.isSome = true := by decide +kernel
  rcases h.setAtOnce hst rfl hreq (by decide) with h | h | h | ⟨h, _⟩ | ⟨_, _, h⟩
  · exact absurd h (by decide)
  · exact absurd rfl h
  · refine absurd hplan ?_
    cases hp : (mountedImage fiveBlocks (filled fiveBlocks []).1 (filled fiveBlocks []).2).writePlan
      fiveBlocks (smallBuffer.firstRound setEight 1 0 (fun _ => filled fiveBlocks []) fun _ => 0) with
    | error e => exact Bool.false_ne_true
    | ok p => exact absurd hp (h p)
  · exact absurd h (by decide)
  · exact absurd h (by decide +kernel)

end Etss
