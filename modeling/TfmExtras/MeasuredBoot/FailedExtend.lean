import TfmExtras.MeasuredBoot.ExtendRun

/-! Extends that fail. The metadata of the slot is changed before the hash is known to succeed, so
that a failed hash leaves a slot that is occupied, or has lost its version and software type. -/

namespace MeasuredBoot.Service

variable {alg : HashAlg} {hashCompute : List UInt8 → Except Error (List UInt8)} {slots : Slots}
  {slot : SlotBuffers} {e : ExtendCall}

/-! ## Metadata that is not in use -/

/-- The buffers of the version and the software type are zero while their sizes are. -/
structure SlotBuffers.Tidy (slot : SlotBuffers) : Prop where
  version : slot.metadata.versionSize = 0 → slot.metadata.version = zeros versionMaxSize
  swType : slot.metadata.swTypeSize = 0 → slot.metadata.swType = zeros swTypeMaxSize
  empty : slot.isPopulated = false → slot.metadata.versionSize = 0 ∧ slot.metadata.swTypeSize = 0

theorem tidy_initial (s : Nat) : (initialiseAllMeasurements s).Tidy :=
  ⟨fun _ => rfl, fun _ => rfl, fun _ => ⟨rfl, rfl⟩⟩

theorem memcpy_take_zero (dst src : List UInt8) : memcpy dst (src.take 0) = dst := by
  unfold memcpy
  rw [List.take_zero, List.nil_append]
  rfl

theorem SlotBuffers.Tidy.opened (h : slot.Tidy) (e : ExtendCall) : (e.opened slot).Tidy := by
  unfold ExtendCall.opened
  split_ifs with hp
  · exact ⟨fun _ => rfl, fun _ => rfl, fun _ => ⟨rfl, rfl⟩⟩
  · obtain ⟨hv, hs⟩ := h.empty (Bool.eq_false_iff.mpr hp)
    refine ⟨fun h0 => ?_, fun h0 => ?_, fun hno => nomatch hno⟩
    · have h0 : e.versionSize = 0 := h0
      show memcpy slot.metadata.version (e.version.take e.versionSize) = _
      rw [h0, memcpy_take_zero]
      exact h.version hv
    · have h0 : e.swTypeSize = 0 := h0
      show memcpy slot.metadata.swType (e.swType.take e.swTypeSize) = _
      rw [h0, memcpy_take_zero]
      exact h.swType hs

theorem SlotBuffers.Tidy.of_metadata {slot' : SlotBuffers} (h : slot.Tidy)
    (hm : slot'.metadata = slot.metadata) (hp : slot'.isPopulated = slot.isPopulated) :
    slot'.Tidy := by
  refine ⟨fun h0 => ?_, fun h0 => ?_, fun h0 => ?_⟩
  · rw [hm] at h0 ⊢
    exact h.version h0
  · rw [hm] at h0 ⊢
    exact h.swType h0
  · rw [hm]
    exact h.empty (hp.symm.trans h0)

theorem SlotBuffers.Tidy.onSlot (h : slot.Tidy) (e : ExtendCall) :
    (e.onSlot alg hashCompute slot).2.Tidy := by
  obtain ⟨_, hr⟩ | ⟨_, ⟨_, hr⟩ | ⟨_, ⟨err, _, hr⟩ | ⟨hash, _, hr⟩⟩⟩ :=
    e.onSlot_cases alg hashCompute slot
  · exact hr ▸ h
  · exact hr ▸ h
  · exact hr ▸ h.opened e
  · obtain ⟨hm, hp, _⟩ := e.closed_metadata slot hash
    exact hr ▸ (h.opened e).of_metadata hm hp

/-- The metadata is as before exactly when the slot is occupied and has neither a version nor a
software type. -/
theorem SlotBuffers.Tidy.opened_eq_iff (h : slot.Tidy) (e : ExtendCall) : e.opened slot = slot ↔
    slot.isPopulated = true ∧ slot.metadata.versionSize = 0 ∧ slot.metadata.swTypeSize = 0 := by
  unfold ExtendCall.opened
  split_ifs with hp
  · constructor
    · intro heq
      have hm : (extendMetadata slot).metadata = slot.metadata := congrArg SlotBuffers.metadata heq
      exact ⟨hp, (congrArg MeasurementMetadata.versionSize hm).symm,
        (congrArg MeasurementMetadata.swTypeSize hm).symm⟩
    · rintro ⟨_, hv, hs⟩
      have hver := h.version hv
      have hsw := h.swType hs
      obtain ⟨locked, populated, common, value, metadata⟩ := slot
      obtain ⟨signerId, signerIdSize, version, versionSize, algo, swType, swTypeSize⟩ := metadata
      dsimp only at hv hs hver hsw
      subst hv hs hver hsw
      rfl
  · exact iff_of_false (fun heq => hp (congrArg SlotBuffers.isPopulated heq).symm) fun h => hp h.1

/-! ## Which failures keep the slots -/

section
variable (alg : HashAlg) (hashCompute : List UInt8 → Except Error (List UInt8))

/-- An extend that returns an error leaves every slot as it was. -/
def KeepsOnError (slots : Slots) (e : ExtendCall) : Prop :=
  ∀ err, (e.run alg hashCompute slots).1 = .error err → (e.run alg hashCompute slots).2 = slots

/-- The hash fails of an extend that is let in, and the slot is empty or has a version or a software
type to lose. -/
structure FailsLate (slots : Slots) (e : ExtendCall) : Prop where
  permitted : isSlotAccessProhibited (slots e.index) e.signerId = false
  unlocked : (slots e.index).isLocked = false
  hash : ∃ err, e.hashed alg hashCompute (slots e.index) = .error err
  loses : ¬ ((slots e.index).isPopulated = true ∧ (slots e.index).metadata.versionSize = 0 ∧
    (slots e.index).metadata.swTypeSize = 0)

end

theorem keepsOnError_iff (h : (slots e.index).Tidy) :
    KeepsOnError alg hashCompute slots e ↔ ¬ FailsLate alg hashCompute slots e := by
  unfold KeepsOnError
  rw [e.run_eq]
  dsimp only
  obtain ⟨hp, hr⟩ | ⟨hp, ⟨hl, hr⟩ | ⟨hl, ⟨err, hh, hr⟩ | ⟨hash, hh, hr⟩⟩⟩ :=
    e.onSlot_cases alg hashCompute (slots e.index)
  · rw [hr]
    exact iff_of_true (fun _ _ => Function.update_eq_self _ _)
      fun hf => Bool.false_ne_true (hf.permitted.symm.trans hp)
  · rw [hr]
    exact iff_of_true (fun _ _ => Function.update_eq_self _ _)
      fun hf => Bool.false_ne_true (hf.unlocked.symm.trans hl)
  · rw [hr]
    have hkeep : Function.update slots e.index (e.opened (slots e.index)) = slots ↔ _ :=
      Function.update_eq_self_iff.trans (h.opened_eq_iff e)
    constructor
    · exact fun hk hf => hf.loses (hkeep.mp (hk err rfl))
    · exact fun hf err' _ => hkeep.mpr (by_contra fun hno => hf ⟨hp, hl, ⟨err, hh⟩, hno⟩)
  · rw [hr]
    refine iff_of_true (fun _ hno => nomatch hno) fun hf => ?_
    obtain ⟨err, he⟩ := hf.hash
    cases hh.symm.trans he

/-- After any extends, those that follow keep the slots when they fail exactly when none of them is
let in with a hash that fails and something to lose. -/
theorem failedExtend_keeps_iff (alg : HashAlg) (hashCompute : List UInt8 → Except Error (List UInt8))
    (es : List ExtendCall) :
    (∀ v ∈ extendVisits alg hashCompute es initialiseAllMeasurements,
        KeepsOnError alg hashCompute v.1 v.2) ↔
      ∀ v ∈ extendVisits alg hashCompute es initialiseAllMeasurements,
        ¬ FailsLate alg hashCompute v.1 v.2 := by
  refine forall₂_congr fun v hv => ?_
  obtain ⟨es', hslots⟩ := mem_extendVisits hv
  refine keepsOnError_iff ?_
  rw [hslots]
  exact afterExtends_keeps (fun e _ slot h => h.onSlot e) tidy_initial _

/-- The hash of the first extend of slot 3 fails: the slot is occupied from then on. -/
theorem not_failedExtend_keeps : ¬ ∀ alg hashCompute es,
    ∀ v ∈ extendVisits alg hashCompute es initialiseAllMeasurements,
      KeepsOnError alg hashCompute v.1 v.2 := by
  intro h
  have hkeep := h .sha256 (fun _ => .error .genericError) [callOf lockingExtend] _ List.mem_cons_self
    .genericError (by decide +kernel)
  have hpop := congrArg (fun slots => (slots 3).isPopulated) hkeep
  exact absurd hpop (by decide +kernel)

end MeasuredBoot.Service
