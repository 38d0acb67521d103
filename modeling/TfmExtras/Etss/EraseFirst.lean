import TfmExtras.Etss.CopyOnWrite
import TfmExtras.Etss.WriteFrame

/-! Every byte that a call programs has been erased before, as long as no replacement of a file
fails: the mark of the old file then stays behind in the scratch metadata block. -/

namespace Etss
open NorFlash NorFlash.Flash FlashM

variable {cfg : Config} {a s : Nat} {P : Image → Prop} {st : Image} {c : Ctx} {fl fl₀ fl' : Flash}
  {r : WriteReq} {t : WriteTarget} {f : FsCall} {o : Op} {res : Except Status Unit} {c' : Ctx}

/-! ## Operations on erased cells -/

/-- A write programs erased cells only. -/
def ErasedOp : Prog.Guard := fun fl o =>
  match o with
  | .write b off data => ∀ i < data.length, fl.cell b (off + i) = none
  | _ => True

instance (fl : Flash) (o : Op) : Decidable (ErasedOp fl o) :=
  match o with
  | .write _ _ data => inferInstanceAs (Decidable (∀ i < data.length, _))
  | .init => .isTrue trivial
  | .read _ _ _ => .isTrue trivial
  | .flush _ => .isTrue trivial
  | .erase _ => .isTrue trivial

theorem erasedOp_write {b off : Nat} {data : List UInt8}
    (h : Clean (range b off (off + data.length)) fl) : ErasedOp fl (.write b off data) :=
  fun i hi => h b (off + i) ⟨rfl, Nat.le_add_right _ _, by omega⟩

theorem Before.updateOp_erased (h : Before cfg fl₀ a s) (ho : UpdateOp cfg fl₀ a s True P fl o) :
    ErasedOp fl o := by
  cases ho with
  | read hb hn => trivial
  | stage hf op =>
    cases o with
    | write b off data => exact erasedOp_write (op.erased trivial)
    | _ => trivial
  | commit hst op =>
    cases op with
    | header =>
      refine erasedOp_write ?_
      rw [MetadataBlockHeader.encode_length]
      exact h.clean_of_staged hst.only
    | _ => trivial

theorem Store.guarded_erased (h : Store cfg c fl₀) (hv : f.Valid cfg)
    (ho : f.Guarded cfg True c fl₀ fl o) : ErasedOp fl o := by
  cases f with
  | write r =>
    cases ho with
    | update op => exact h.before.updateOp_erased op
    | delete hu hp hrep op => exact (h.before_delete hv hu hp hrep).1.updateOp_erased op
  | delete fid => exact h.before.updateOp_erased ho
  | prepare =>
    cases ho with
    | init op => cases op <;> trivial
    | delete hpend _ => exact absurd h.closed hpend.not_closed

/-! ## Replacements that fail -/

/-- A file of the requested size can be made, with the data in it. -/
structure Image.ReplaceFits (cfg : Config) (st : Image) (r : WriteReq) : Prop where
  max_le : r.max cfg ≤ cfg.maxFileSize
  room : ∃ l < numActiveDblocks cfg, r.max cfg ≤ (st.blocks l).freeSize
  data : r.dataSize = 0 ∨ (r.offset = 0 ∧ r.size cfg ≤ r.max cfg)

/-- The call is to replace a file by one of another size, which cannot be made. -/
def FsCall.FailsReplace (cfg : Config) (st : Image) : FsCall → Prop
  | .write r => r.flags &&& internalFlagsMask = 0 ∧ st.ReplacesFile cfg r ∧ ¬ st.ReplaceFits cfg r
  | _ => False

namespace Image.Wf
variable (h : st.Wf cfg a) (hacc : cfg.Accepted)
include h hacc

theorem reserveIn_ok (ha : a ≤ 1) (fid : Fid) {size flags n i : Nat}
    (hi : i + n ≤ numActiveDblocks cfg) (hroom : ∃ l, i ≤ l ∧ l < i + n ∧
      size ≤ (st.blocks l).freeSize) :
    ∃ l, reserveIn cfg st.blocks fid size flags n i =
      .ok (⟨l, st.dataEnd cfg l, 0, size, flags, fid⟩,
        { st.blocks l with freeSize := (st.blocks l).freeSize - size }) := by
  rcases h.reserveIn_cases hacc ha fid size flags hi with ⟨hall, _⟩ | ⟨l, _, _, _, _, he⟩
  · obtain ⟨l, h₁, h₂, hl⟩ := hroom
    exact absurd hl (Nat.not_le.mpr (hall l h₁ h₂))
  · exact ⟨l, he⟩

theorem freeIndex_spare_ne {n i : Nat} (hi : i + n ≤ cfg.maxNumFiles)
    (hfree : ∃ k, i ≤ k ∧ k < i + n ∧ (st.files k).id = 0) :
    freeIndex cfg st.files n i true ≠ metadataInvalidIndex := by
  have hmax := cfg.maxNumFiles_lt
  induction n generalizing i with
  | zero =>
    obtain ⟨k, h₁, h₂, _⟩ := hfree
    omega
  | succ n ih =>
    unfold freeIndex
    rw [h.checkFile_eq hacc (by omega)]
    unfold utilsValidateFid
    by_cases hid : (st.files i).id ≠ 0
    · simp only [if_pos hid]
      obtain ⟨k, h₁, h₂, hk⟩ := hfree
      have : k ≠ i := fun hki => hid (hki ▸ hk)
      exact ih (by omega) ⟨k, by omega, by omega, hk⟩
    · simp only [if_neg hid, if_true]
      unfold metadataInvalidIndex
      omega

/-- A file that can be made is made. -/
theorem writePlan_of_fits (ha : a ≤ 1) (hc : st.Closed cfg)
    (hflags : r.flags &&& internalFlagsMask = 0) (ht : st.writeTarget cfg r = .ok t)
    (hrep : t.Replaces) (hfit : st.ReplaceFits cfg r) : ∃ p, st.writePlan cfg r = .ok p := by
  have hlt : 0 < cfg.maxNumFiles := by
    rcases h.writeTarget_cases (r := r) hacc with ⟨i, hi, _, _⟩ | ⟨_, he⟩
    · omega
    · rw [he] at ht
      split_ifs at ht
      injection ht with ht
      exact absurd (ht ▸ rfl) hrep.1
  obtain ⟨k, hk, hk0⟩ := hc.spare hlt
  obtain ⟨l₀, hl₀, hroom⟩ := hfit.room
  obtain ⟨l, hres⟩ := h.reserveIn_ok hacc ha r.fid (Nat.zero_add _).le
    ⟨l₀, Nat.zero_le _, by omega, hroom⟩
  have hidx := h.freeIndex_spare_ne hacc (Nat.zero_add _).le ⟨k, Nat.zero_le _, by omega, hk0⟩
  have hq : ∃ idx blockMeta, st.writeReserve cfg r t =
      .ok (idx, ⟨l, st.dataEnd cfg l, 0, r.max cfg, r.flags, r.fid⟩, blockMeta) := by
    unfold Image.writeReserve
    rw [if_pos hrep.2, if_neg (Nat.not_lt.mpr hfit.max_le), hres]
    dsimp only
    rw [decide_eq_true hrep.1, if_neg hidx]
    exact ⟨_, _, rfl⟩
  obtain ⟨idx, blockMeta, hq⟩ := hq
  have hf : r.Fits cfg ⟨l, st.dataEnd cfg l, 0, r.max cfg, r.flags, r.fid⟩ := by
    refine hfit.data.imp id fun ⟨h0, hsz⟩ => ⟨?_, h0.le, ?_⟩
    · rw [h0, utilsIsAligned_zero]
    · rw [h0, Nat.zero_add]
      exact hsz
  exact ⟨_, (writePlan_ok hflags ht hq).trans (if_pos hf)⟩

/-- A target that is replaced is a file of another size. -/
theorem replacesFile_of_target (ht : st.writeTarget cfg r = .ok t) (hrep : t.Replaces) :
    st.ReplacesFile cfg r := by
  rcases h.writeTarget_cases (r := r) hacc with ⟨i, hi, hid, he⟩ | ⟨_, he⟩
  · rw [he] at ht
    have hn : i ≠ metadataInvalidIndex := by
      have := cfg.maxNumFiles_lt
      unfold metadataInvalidIndex
      omega
    split_ifs at ht with htr hsz <;> injection ht with ht <;> subst ht
    · exact absurd hrep.2 hn
    · exact ⟨htr, i, hi, hid, hsz⟩
    · exact absurd hrep.2 hn
  · rw [he] at ht
    split_ifs at ht
    injection ht with ht
    exact absurd (ht ▸ rfl) hrep.1

end Image.Wf

/-! ## Runs -/

/-- Unless a replacement fails, a call leaves both scratch blocks erased. -/
theorem Store.clean_of_spec (h : Store cfg c fl) (hc : Clean (scratchRegion cfg c) fl)
    (hn : ¬ f.FailsReplace cfg (mountedImage cfg c fl)) (hs : f.Spec cfg c fl res c' fl') :
    Clean (scratchRegion cfg c') fl' := by
  cases f with
  | write r =>
    have hs : WriteSpec cfg c fl r res c' fl' := hs
    by_cases hres : res = .ok ()
    · exact hs.clean hres
    · obtain ⟨rfl, hf⟩ := hs.failed hres
      refine hf.clean hc ?_
      rintro b o _ ⟨hflags, t, ht, hrep, _⟩
      have hfit : (mountedImage cfg c' fl).ReplaceFits cfg r := by
        by_contra hnf
        exact hn ⟨hflags, h.wf.replacesFile_of_target h.accepted ht hrep, hnf⟩
      obtain ⟨p, hp⟩ := h.wf.writePlan_of_fits h.accepted h.active_le h.closed hflags ht hrep hfit
      cases hs.effect with
      | fail hplan _ =>
        rw [hp] at hplan
        cases hplan
      | update _ _ _ _ => exact hres rfl
      | replace _ _ _ _ _ _ => exact hres rfl
  | delete fid =>
    have hs : DeleteSpec cfg c fl fid res c' fl' := hs
    by_cases hres : res = .ok ()
    · exact hs.clean hres
    · obtain ⟨rfl, rfl⟩ := hs.failed hres
      exact hc
  | prepare => exact hs.2.clean

/-- The states that calls lead to after a mount, when every call satisfies `P` before it is
made. -/
inductive MountedRun (cfg : Config) (P : Image → FsCall → Prop) : Ctx → Flash → Prop
  | mount {a : Nat} {fl : Flash} (c : Ctx) (h : Mountable cfg a fl)
    (hcp : (image cfg fl a).Closed cfg ∨ ∃ d, (image cfg fl a).Pending cfg d) :
    MountedRun cfg P (FsCall.prepare.after cfg c fl).ctx (FsCall.prepare.after cfg c fl).flash
  | call {c : Ctx} {fl : Flash} (f : FsCall) (h : MountedRun cfg P c fl) (hv : f.Valid cfg)
    (hp : P (mountedImage cfg c fl) f) :
    MountedRun cfg P (f.after cfg c fl).ctx (f.after cfg c fl).flash

/-- Both scratch blocks are erased, and every operation of any next call programs erased bytes. -/
def EraseFirst (cfg : Config) (c : Ctx) (fl : Flash) : Prop :=
  Clean (scratchRegion cfg c) fl ∧ ∀ f : FsCall, f.Valid cfg →
    ∀ x ∈ (f.exec cfg).trace cfg.eraseVal c fl, ErasedOp x.1 x.2

theorem Store.eraseFirst (h : Store cfg c fl) (hc : Clean (scratchRegion cfg c) fl) :
    EraseFirst cfg c fl := by
  refine ⟨hc, fun f hv x hx => ?_⟩
  have hfiles : True → Clean (scratchFiles cfg c) fl := fun _ => hc.mono fun b o hw => .inl hw.1
  exact h.guarded_erased hv ((wp_iff.mp (h.call_wp f hv hfiles)).1 x hx)

theorem MountedRun.store
    (h : MountedRun cfg (fun st f => ¬ f.FailsReplace cfg st) c fl) :
    Store cfg c fl ∧ Clean (scratchRegion cfg c) fl := by
  induction h with
  | mount c h hcp =>
    obtain ⟨_, _, hs⟩ := (wp_iff.mp (h.prepare_spec (c := c) hcp)).2
    exact ⟨hs.store, hs.clean⟩
  | call f _ hv hn ih =>
    have hs := ih.1.call_spec hv
    exact ⟨hs.store, ih.1.clean_of_spec ih.2 hn hs⟩

/-- What a mount leaves of an erased flash that was formatted. -/
def remounted (cfg : Config) : Outcome Ctx Status Unit :=
  FsCall.prepare.after cfg Ctx.zero (formatted cfg).flash

theorem mountedRun_remounted {Q : Image → FsCall → Prop} (hacc : cfg.Accepted) :
    MountedRun cfg Q (remounted cfg).ctx (remounted cfg).flash := by
  have hs : Store cfg (formatted cfg).ctx (formatted cfg).flash := (format_spec hacc _ _).2.1
  exact .mount Ctx.zero hs.mountable (.inl hs.closed)

theorem MountedRun.runCalls {s : Ctx × Flash} (h : MountedRun cfg (fun _ _ => True) s.1 s.2)
    {fs : List FsCall} (hv : ∀ f ∈ fs, f.Valid cfg) :
    MountedRun cfg (fun _ _ => True) (runCalls cfg fs s).1 (runCalls cfg fs s).2 := by
  induction fs generalizing s with
  | nil => exact h
  | cons f fs ih =>
    exact ih (.call f h (hv f (List.mem_cons_self ..)) trivial)
      fun g hg => hv g (List.mem_cons_of_mem _ hg)

/-- File 1 is to be replaced by one of 16 bytes, more than a file may have. -/
def tooLong : WriteReq := ⟨1, flagCreate ||| flagTruncate, 16, 4, 0, UInt8.ofNat⟩

/-- The state after a file is made and its replacement has failed. -/
def afterTooLong : Ctx × Flash :=
  runCalls twoBlocks [.write fourBytes, .write tooLong]
    ((remounted twoBlocks).ctx, (remounted twoBlocks).flash)

end Etss
