import TfmExtras.MeasuredBoot.ExtendRun

/-! The signer id of an extend. It is compared in a buffer that is filled with zeros, and only for
the length of the stored one, so that an id of another length can pass for it. -/

namespace MeasuredBoot.Service
open Bytes Ipc

variable {alg : HashAlg} {hashCompute : List UInt8 → Except Error (List UInt8)} {b : BootStatus}
  {slots : Slots} {slot : SlotBuffers} {msg : Msg}

/-! ## Stored signer ids -/

def SlotBuffers.storedSignerId (slot : SlotBuffers) : List UInt8 :=
  slot.metadata.signerId.take slot.metadata.signerIdSize

theorem SlotBuffers.InRange.storedSignerId_length (h : slot.InRange) :
    slot.storedSignerId.length = slot.metadata.signerIdSize := by
  unfold storedSignerId
  rw [List.length_take, h.signerId]
  exact Nat.min_eq_left h.signerIdSize_le

/-- The check: the client's id in its buffer begins with the stored one. -/
theorem SlotBuffers.InRange.prohibited_iff (h : slot.InRange) (hc : slot.isCommon = false)
    (signerId : List UInt8) : isSlotAccessProhibited slot signerId = true ↔
      signerId.take slot.storedSignerId.length ≠ slot.storedSignerId := by
  have hmod : slot.metadata.signerIdSize % 2 ^ 8 = slot.metadata.signerIdSize :=
    Nat.mod_eq_of_lt (h.signerIdSize_le.trans_lt (by decide))
  rw [h.storedSignerId_length]
  unfold isSlotAccessProhibited isSignerIdDifferent storedSignerId
  dsimp only
  rw [hmod, hc]
  simp

/-! ## Extends -/

/-- An extend of a slot that is occupied, not locked and not common. -/
structure ExtendsSigned (slots : Slots) (msg : Msg) : Prop where
  extend : msg.type = tfmMeasuredBootExtend
  sizes : ExtendSizes msg
  populated : (slots (extendIovec msg).index).isPopulated = true
  unlocked : (slots (extendIovec msg).index).isLocked = false
  notCommon : (slots (extendIovec msg).index).isCommon = false

section
variable (alg : HashAlg) (hashCompute : List UInt8 → Except Error (List UInt8))

/-- The check of the signer id is exact: an extend is accepted only with the stored id, and one
with an id of another length is refused and leaves its slot as it was. -/
structure SignerExact (slots : Slots) (msg : Msg) : Prop where
  accepted : (extendMeasurement alg hashCompute slots msg .start).1 = .ok () →
    msg.inVec 1 = (slots (extendIovec msg).index).storedSignerId
  rejected : (msg.inVec 1).length ≠ (slots (extendIovec msg).index).storedSignerId.length →
    (extendMeasurement alg hashCompute slots msg .start).1 = .error .notPermitted ∧
      (extendMeasurement alg hashCompute slots msg .start).2.1 (extendIovec msg).index =
        slots (extendIovec msg).index

/-- The messages of a sequence, each with the slots before it. -/
def messageVisits : List Msg → Slots → List (Slots × Msg)
  | [], _ => []
  | msg :: msgs, slots => (slots, msg) :: messageVisits msgs (served alg hashCompute slots msg)

end

/-- The signer id has another length than the stored one and begins with it, once it is filled with
zeros. -/
def Lookalike (slots : Slots) (msg : Msg) : Prop :=
  (msg.inVec 1).length ≠ (slots (extendIovec msg).index).storedSignerId.length ∧
    (memcpy (zeros signerIdMaxSize) (msg.inVec 1)).take
      (slots (extendIovec msg).index).storedSignerId.length =
        (slots (extendIovec msg).index).storedSignerId

/-- An extend that passes the check, by the id it brings. -/
theorem signerExact_of_permitted (h : (memcpy (zeros signerIdMaxSize) (msg.inVec 1)).take
      (slots (extendIovec msg).index).storedSignerId.length =
        (slots (extendIovec msg).index).storedSignerId)
    (hstatus : (extendMeasurement alg hashCompute slots msg .start).1 ≠ .error .notPermitted) :
    SignerExact alg hashCompute slots msg ↔ ¬ Lookalike slots msg := by
  by_cases hlen : (msg.inVec 1).length = (slots (extendIovec msg).index).storedSignerId.length
  · rw [← hlen, memcpy_take rfl] at h
    exact iff_of_true ⟨fun _ => h, fun hno => absurd hlen hno⟩ fun hl => hl.1 hlen
  · exact iff_of_false (fun hs => hstatus (hs.rejected hlen).1) (not_not_intro ⟨hlen, h⟩)

theorem signerExact_iff (hperm : ∀ bs, hashCompute bs ≠ .error .notPermitted)
    (h : ExtendsSigned slots msg) (hs : (slots (extendIovec msg).index).InRange) :
    SignerExact alg hashCompute slots msg ↔ ¬ Lookalike slots msg := by
  obtain ⟨hstatus, hslots⟩ := @extendMeasurement_run alg hashCompute slots msg h.sizes
  have hself : (extendMeasurement alg hashCompute slots msg .start).2.1 (extendIovec msg).index =
      ((callOf msg).onSlot alg hashCompute (slots (extendIovec msg).index)).2 := by
    rw [hslots]
    exact Function.update_self _ _ _
  have hstatus : (extendMeasurement alg hashCompute slots msg .start).1 =
      ((callOf msg).onSlot alg hashCompute (slots (extendIovec msg).index)).1 := hstatus
  have hprohibited := hs.prohibited_iff h.notCommon (callOf msg).signerId
  obtain ⟨hp, hr⟩ | ⟨hp, hrest⟩ :=
    (callOf msg).onSlot_cases alg hashCompute (slots (extendIovec msg).index)
  · rw [hr] at hself hstatus
    exact iff_of_true ⟨fun hok => (nomatch hstatus.symm.trans hok), fun _ => ⟨hstatus, hself⟩⟩
      fun hl => hprohibited.mp hp hl.2
  · have hprefix := not_not.mp fun hno => Bool.false_ne_true (hp.symm.trans (hprohibited.mpr hno))
    refine signerExact_of_permitted hprefix fun hno => ?_
    obtain ⟨hl, _⟩ | ⟨_, ⟨err, hh, hr⟩ | ⟨hash, _, hr⟩⟩ := hrest
    · exact Bool.false_ne_true (h.unlocked.symm.trans hl)
    · -- the status is that of the hash
      rw [hr] at hstatus
      injection hstatus.symm.trans hno with herr
      exact hperm _ (hh.trans (congrArg _ herr))
    · rw [hr] at hstatus
      cases hstatus.symm.trans hno

theorem mem_messageVisits {msgs : List Msg} {v : Slots × Msg}
    (h : v ∈ messageVisits alg hashCompute msgs slots) :
    ∃ msgs', v.1 = serve alg hashCompute msgs' slots := by
  induction msgs generalizing slots with
  | nil => exact absurd h List.not_mem_nil
  | cons msg msgs ih =>
    rcases List.mem_cons.mp h with rfl | h
    · exact ⟨[], rfl⟩
    · obtain ⟨msgs', hv⟩ := ih h
      exact ⟨msg :: msgs', hv⟩

/-- In every run of the service, the check of the signer id is exact for each extend of an occupied,
unlocked slot exactly when no such extend brings a lookalike of the stored id. A hash does not fail
with the status of the check. -/
theorem signerCheck_exact_iff (b : BootStatus) (alg : HashAlg)
    (hashCompute : List UInt8 → Except Error (List UInt8))
    (hperm : ∀ bs, hashCompute bs ≠ .error .notPermitted) {start : Slots}
    (hstart : Started b alg hashCompute start) (msgs : List Msg) :
    (∀ v ∈ messageVisits alg hashCompute msgs start, ExtendsSigned v.1 v.2 →
        SignerExact alg hashCompute v.1 v.2) ↔
      ∀ v ∈ messageVisits alg hashCompute msgs start, ExtendsSigned v.1 v.2 → ¬ Lookalike v.1 v.2 := by
  refine forall₂_congr fun v hv => forall_congr' fun he => ?_
  obtain ⟨msgs', hslots⟩ := mem_messageVisits hv
  refine signerExact_iff hperm he ?_
  rw [hslots]
  exact hstart.inRange msgs' _

/-- An extend of slot 3 without a lock. -/
def signedExtend (signerId : List UInt8) : Msg where
  type := tfmMeasuredBootExtend
  handle := 7
  clientId := 1
  inVec
    | 0 => [3, 0, 0, 0] ++ leBytes 4 0x02000009 ++ [83, 80, 77] ++ zeros 17 ++ [3, 0, 0, 0]
    | 1 => signerId
    | 2 => [49, 46, 48]
    | 3 => zeros 32
    | _ => []
  outSize := fun _ => 0

/-- The second of two extends with one signer id of 32 bytes. -/
theorem signerCheck_exact_sameId :
    SignerExact .sha256 (fun _ => .ok sha256OfZeros)
      (served .sha256 (fun _ => .ok sha256OfZeros) initialiseAllMeasurements
        (signedExtend (List.replicate 32 0xa5))) (signedExtend (List.replicate 32 0xa5)) := by
  refine (signerCheck_exact_iff packedBootStatus .sha256 (fun _ => .ok sha256OfZeros)
    (fun _ h => nomatch h) .initial [signedExtend (List.replicate 32 0xa5),
      signedExtend (List.replicate 32 0xa5)]).mpr ?_ _ (List.mem_cons_of_mem _ List.mem_cons_self)
    ⟨rfl, ⟨rfl, by decide +kernel, by decide +kernel⟩, by decide +kernel, by decide +kernel,
      by decide +kernel⟩
  unfold messageVisits messageVisits messageVisits
  rw [List.forall_mem_cons, List.forall_mem_cons]
  refine ⟨fun h => absurd h.populated Bool.false_ne_true, fun _ hl => ?_,
    fun v hv => absurd hv List.not_mem_nil⟩
  exact absurd hl.1 (by decide +kernel)

/-- An id of 33 bytes that begins with the stored one of 32 bytes is let in. -/
theorem not_signerCheck_exact : ¬ ∀ b alg hashCompute,
    (∀ bs, hashCompute bs ≠ .error .notPermitted) → ∀ start, Started b alg hashCompute start →
      ∀ msgs, ∀ v ∈ messageVisits alg hashCompute msgs start, ExtendsSigned v.1 v.2 →
        SignerExact alg hashCompute v.1 v.2 := by
  intro h
  have hexact := h packedBootStatus .sha256 (fun _ => .ok sha256OfZeros) (fun _ h => nomatch h) _
    .initial [signedExtend (List.replicate 32 0xa5), signedExtend (List.replicate 32 0xa5 ++ [1])] _
    (List.mem_cons_of_mem _ List.mem_cons_self)
    ⟨rfl, ⟨rfl, by decide +kernel, by decide +kernel⟩, by decide +kernel, by decide +kernel,
      by decide +kernel⟩
  have hrejected := (hexact.rejected (by decide +kernel)).1
  exact absurd hrejected (by decide +kernel)

end MeasuredBoot.Service
