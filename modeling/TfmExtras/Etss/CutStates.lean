import TfmExtras.Etss.CopyOnWrite
import TfmExtras.Etss.Startup
import TfmExtras.Lib.PowerLoss

/-! A loss of power inside an operation, where an erase has erased the first bytes of its block: the next
mount takes the filesystem that it would have taken before. -/

namespace Etss
open NorFlash NorFlash.Flash FlashM

variable {cfg : Config} {a b n : Nat} {M : Fid → Option Image.View} {c : Ctx} {fl fl₀ fl' : Flash}
  {f : FsCall} {o : Op}

/-! ## A header that is erased in part -/

theorem onlyIn_eraseFirst (fl : Flash) (b n : Nat) : OnlyIn (range b 0 n) fl (fl.eraseFirst b n) :=
  fun b' o h => (cell_eraseFirst fl b n b' o).trans (if_neg fun hn => h ⟨hn.1, Nat.zero_le o, hn.2⟩)

theorem clean_eraseFirst (fl : Flash) (b n : Nat) : Clean (range b 0 n) (fl.eraseFirst b n) :=
  fun b' o h => (cell_eraseFirst fl b n b' o).trans (if_pos ⟨h.1, h.2.2⟩)

/-- The erase value is no version. -/
theorem validateFsVersion_eraseVal (he : cfg.eraseVal = 0x00 ∨ cfg.eraseVal = 0xFF) :
    mblockValidateFsVersion cfg.eraseVal = .error .genericError := by
  rcases he with he | he <;> rw [he] <;> rfl

/-- A header that is erased from the start on has lost its version, or still has its swap count. -/
theorem readHeader_eraseFirst (he : cfg.eraseVal = 0x00 ∨ cfg.eraseVal = 0xFF) (fl : Flash)
    (b n : Nat) : readHeader cfg (fl.eraseFirst b n) b = none ∨
      (readHeader cfg (fl.eraseFirst b n) b).map (·.activeSwapCount) =
        (readHeader cfg fl b).map (·.activeSwapCount) := by
  by_cases hn : n ≤ 4
  · have hbyte : ∀ i < 8, 4 ≤ i → ((fl.eraseFirst b n).read cfg.eraseVal b 0 8).getD i 0 =
        (fl.read cfg.eraseVal b 0 8).getD i 0 := fun i hi h4 => by
      rw [read_getD _ _ hi, read_getD _ _ hi]
      exact (onlyIn_eraseFirst fl b n).byte fun hw => by have := hw.2.2; omega
    have hver : (image cfg (fl.eraseFirst b n) b).header.fsVersion =
      (image cfg fl b).header.fsVersion := hbyte 4 (by decide) le_rfl
    have hxor : (image cfg (fl.eraseFirst b n) b).header.metadataXor =
      (image cfg fl b).header.metadataXor := hbyte 5 (by decide) (by decide)
    have hswap : (image cfg (fl.eraseFirst b n) b).header.activeSwapCount =
      (image cfg fl b).header.activeSwapCount := hbyte 6 (by decide) (by decide)
    have htables : metadataXor cfg (fl.eraseFirst b n) b = metadataXor cfg fl b :=
      metadataXor_congr (onlyIn_eraseFirst fl b n) fun o h8 _ hw => by have := hw.2.2; omega
    have hcheck : headerCheck cfg (fl.eraseFirst b n) b (image cfg (fl.eraseFirst b n) b).header =
        headerCheck cfg fl b (image cfg fl b).header := by
      unfold headerCheck MetadataBlockHeader.compSwapCount
      rw [hver, hxor, hswap, htables]
    right
    unfold readHeader
    rw [hcheck]
    cases headerCheck cfg fl b (image cfg fl b).header with
    | error e => rfl
    | ok _ => exact congrArg some hswap
  · left
    have hver : (image cfg (fl.eraseFirst b n) b).header.fsVersion = cfg.eraseVal := by
      show ((fl.eraseFirst b n).read cfg.eraseVal b 0 8).getD 4 0 = _
      rw [read_getD _ _ (by decide)]
      exact (clean_eraseFirst fl b n).byte ⟨rfl, Nat.zero_le _, by omega⟩
    unfold readHeader headerCheck
    rw [hver, validateFsVersion_eraseVal he]
    rfl

/-- The choice only depends on the swap counts of the headers that are valid. -/
theorem selectActive_congr (h : ∀ b ≤ 1, (readHeader cfg fl' b).map (·.activeSwapCount) =
    (readHeader cfg fl b).map (·.activeSwapCount)) : selectActive cfg fl' = selectActive cfg fl := by
  have h₀ := h 0 (Nat.zero_le 1)
  have h₁ := h 1 le_rfl
  unfold selectActive metadataBlock0 metadataBlock1
  generalize readHeader cfg fl' 0 = x' at h₀ ⊢
  generalize readHeader cfg fl' 1 = y' at h₁ ⊢
  generalize readHeader cfg fl 0 = x at h₀ ⊢
  generalize readHeader cfg fl 1 = y at h₁ ⊢
  cases x <;> cases x' <;> cases y <;> cases y' <;> simp only [Option.map_some, Option.map_none,
    reduceCtorEq, Option.some.injEq] at h₀ h₁
  · rfl
  · rfl
  · rfl
  · dsimp only
    rw [mblockLatestMetaBlock_eq, mblockLatestMetaBlock_eq, h₀, h₁]

/-! ## Erasing a block that is not in use -/

/-- Block `b` is a scratch block of the filesystem that the next mount takes. -/
def SpareBlock (cfg : Config) (fl : Flash) (b : Nat) : Prop :=
  ∃ a, selectActive cfg fl = .ok a ∧ ScratchOf cfg fl a b

theorem CowTarget.spareBlock (h : CowTarget cfg fl b)
    (he : cfg.eraseVal = 0x00 ∨ cfg.eraseVal = 0xFF) : SpareBlock cfg fl b := by
  obtain ⟨a, hnew, hb, -⟩ := h
  exact ⟨a, hnew.selectActive_eq he, hb⟩

theorem ScratchOf.onlyIn_eraseFirst (hb : ScratchOf cfg fl a b) (n : Nat) :
    OnlyIn (scratchRegion cfg (mountedCtx cfg a fl)) fl (fl.eraseFirst b n) :=
  (Etss.onlyIn_eraseFirst fl b n).mono fun b' o hw => by
    obtain rfl := hw.1
    exact hb

namespace Mountable
variable (h : Mountable cfg a fl) (hb : ScratchOf cfg fl a b)
include h hb

/-- The other header is erased in part, or none is. -/
theorem selectActive_eraseFirst (he : cfg.eraseVal = 0x00 ∨ cfg.eraseVal = 0xFF) (n : Nat) :
    selectActive cfg (fl.eraseFirst b n) = .ok a := by
  have hf := hb.onlyIn_eraseFirst n
  have hvalid := h.wf.headerValid_of_onlyIn h.a_le hf h.valid
  have hself : readHeader cfg (fl.eraseFirst b n) a = readHeader cfg fl a :=
    readHeader_congr hf h.not_scratchRegion
  have hcase : ∀ x ≤ 1, x = a ∨ x = otherMetaBlock a := fun x hx => by
    have := h.a_le
    have := otherMetaBlock_le a
    have := otherMetaBlock_ne a
    omega
  have hcongr : (readHeader cfg (fl.eraseFirst b n) (otherMetaBlock a)).map (·.activeSwapCount) =
      (readHeader cfg fl (otherMetaBlock a)).map (·.activeSwapCount) →
        selectActive cfg (fl.eraseFirst b n) = .ok a := fun hother => by
    refine (selectActive_congr fun x hx => ?_).trans h.select
    obtain rfl | rfl := hcase x hx
    · rw [hself]
    · exact hother
  by_cases hbo : b = otherMetaBlock a
  · subst hbo
    rcases readHeader_eraseFirst he fl (otherMetaBlock a) n with hnone | hswap
    · exact selectActive_of_only h.a_le hvalid.readHeader_eq hnone
    · exact hcongr hswap
  · exact hcongr (congrArg _ (readHeader_congr (Etss.onlyIn_eraseFirst fl b n)
      fun o hw => hbo hw.1.symm))

theorem eraseFirst (he : cfg.eraseVal = 0x00 ∨ cfg.eraseVal = 0xFF) (n : Nat) :
    Mountable cfg a (fl.eraseFirst b n) :=
  ⟨h.accepted, h.a_le, h.selectActive_eraseFirst hb he n,
    h.wf.headerValid_of_onlyIn h.a_le (hb.onlyIn_eraseFirst n) h.valid,
    (h.same_of_onlyIn (hb.onlyIn_eraseFirst n)).wf h.accepted h.wf⟩

end Mountable

theorem Restores.eraseFirst (h : Restores cfg M fl) (he : cfg.eraseVal = 0x00 ∨ cfg.eraseVal = 0xFF)
    (hb : SpareBlock cfg fl b) (n : Nat) : Restores cfg M (fl.eraseFirst b n) := by
  obtain ⟨a, hm, hst⟩ := h
  obtain ⟨a', hsel, hb⟩ := hb
  obtain rfl : a = a' := Except.ok.inj (hm.select.symm.trans hsel)
  exact ⟨a, hm.eraseFirst hb he n, hst.same (hm.same_of_onlyIn (hb.onlyIn_eraseFirst n))⟩

theorem RestoresEither.eraseFirst (h : RestoresEither cfg f c fl₀ fl)
    (he : cfg.eraseVal = 0x00 ∨ cfg.eraseVal = 0xFF) (hb : SpareBlock cfg fl b) (n : Nat) :
    RestoresEither cfg f c fl₀ (fl.eraseFirst b n) :=
  h.imp (·.eraseFirst he hb n) (·.eraseFirst he hb n)

/-! ## Calls and mounts that are cut -/

/-- What a torn operation keeps, and the erase of a spare block, an operation that is cut keeps. -/
theorem cut_of_torn {C : Flash → Prop} (hfl : C fl) (htorn : ∀ n, C (fl.torn n o))
    (herase : ∀ b, o = .erase b → ∀ n, C (fl.eraseFirst b n)) : ∀ fl', fl.Cut o fl' → C fl' := by
  intro fl' hcut
  cases hcut with
  | unchanged => exact hfl
  | write b off data n => exact htorn n
  | erase b n => exact herase b rfl n

/-- Power is lost in an operation of a call: the files are those before the call or those after it. -/
theorem Store.call_cut (h : Store cfg c fl) (he : cfg.eraseVal = 0x00 ∨ cfg.eraseVal = 0xFF)
    (hv : f.Valid cfg) (hc : (f.exec cfg).CutAt cfg.eraseVal c fl fl') :
    RestoresEither cfg f c fl fl' := by
  refine wp_cut (h.call_wp f hv (False.elim : False → _)) (.inl ⟨_, h.mountable, h.settles⟩)
    (fun fl₁ o hfl ho => ?_) hc
  obtain ⟨happly, htorn⟩ := h.restores_op he hv hfl ho
  refine ⟨happly, cut_of_torn hfl htorn fun b hb n => ?_⟩
  subst hb
  exact hfl.eraseFirst he ((h.guarded_cow hv ho).1.spareBlock he) n

/-- The blocks that a mount erases are spare. -/
theorem Mountable.spareBlock (h : Mountable cfg a fl₀) (hst : (image cfg fl₀ a).Settles cfg a M)
    (he : cfg.eraseVal = 0x00 ∨ cfg.eraseVal = 0xFF) (ho : PrepareOp cfg a fl₀ fl (.erase b)) :
    SpareBlock cfg fl b := by
  cases ho with
  | init op =>
    cases op with
    | eraseMeta => exact ⟨a, h.select, .inl rfl⟩
    | eraseData h2 =>
      have hf : OnlyIn (scratchRegion cfg (mountedCtx cfg a fl₀)) fl₀
        (fl₀.erase (otherMetaBlock a)) := (onlyIn_erase fl₀ _).mono fun b o hw => .inl hw
      have hm := h.of_scratch hf ((clean_erase fl₀ _).mono fun _ _ hw => hw.1)
      exact ⟨a, hm.select, .inr ⟨by omega, (h.same_of_onlyIn hf).scratch.symm⟩⟩
  | delete pending op =>
    have hsame := h.same_of_onlyIn (onlyIn_scratchErased cfg a fl₀)
    have hpend := hsame.pending pending
    have hb := h.mounted.before
    exact ((hb.updateOp_cow (fun st' hst => hst.wf hb.wf hpend.lt hpend.valid hb.accepted)
      op).1.spareBlock he)

namespace Restores
variable (h : Restores cfg M fl) (he : cfg.eraseVal = 0x00 ∨ cfg.eraseVal = 0xFF)
include h he

/-- Power is lost in an operation while the filesystem is started. -/
theorem start_cut {createFlashLayout : Bool}
    (hc : (etssFlashFsInitCtxAndPrepare cfg createFlashLayout).CutAt cfg.eraseVal c fl fl') :
    Restores cfg M fl' := by
  obtain ⟨a, hm, hst⟩ := h
  have hok : (etssFlashFsInitCtxAndPrepare cfg createFlashLayout).Ok cfg.eraseVal
      (PrepareOp cfg a fl) c fl fun _ => MountSpec cfg a fl :=
    initCtxAndPrepare_wp hm.accepted (hm.prepare_spec hst.closed_or_pending)
  refine wp_cut hok ⟨a, hm, hst⟩ (fun fl₁ o hfl ho => ?_) hc
  obtain ⟨happly, htorn⟩ := Mountable.restores_op hfl (fun _ => id) hm he hst ho
  refine ⟨happly, cut_of_torn hfl htorn fun b hb n => ?_⟩
  subst hb
  exact hfl.eraseFirst he (hm.spareBlock hst he ho) n

end Restores

end Etss
