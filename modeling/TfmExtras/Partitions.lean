import TfmExtras.DelegatedAttest.Binding
import TfmExtras.DelegatedAttest.Traffic
import TfmExtras.Etss.Traffic
import TfmExtras.MeasuredBoot.Traffic

/-! The request managers of the three partitions side by side: which messages are answered, and
whether their buffers and vectors are kept. -/

namespace Partitions
open Ipc

variable {φ κ : Type}

/-! ## Answers -/

/-- The type of the message that a round of the ETSS loop takes. -/
def TakesIpcType (i : Pending Etss.Signal × Etss.Locals) : Prop :=
  ∃ sig msg, Etss.taken i.1 = some sig ∧ i.1.msg sig = some msg ∧ Etss.IpcType msg.type

/-- A round of the ETSS loop finds a service of the loop, and no call to draw random numbers from
a device that gives none. -/
def Serviced (p : Etss.Platform φ) (i : Pending Etss.Signal × Etss.Locals) : Prop :=
  ∃ sig msg, Etss.taken i.1 = some sig ∧ i.1.msg sig = some msg ∧
    (msg.type = Etss.psaIpcCall → ¬ Etss.Hangs p i.2 sig msg)

theorem roundOk_iff {p : Etss.Platform φ} {i : Pending Etss.Signal × Etss.Locals}
    (h : Serviced p i) : Etss.RoundOk p i ↔ TakesIpcType i := by
  obtain ⟨sig, msg, ht, hm, hh⟩ := h
  refine ⟨fun ⟨sig, msg, ht, hm, hi, _⟩ => ⟨sig, msg, ht, hm, hi⟩, ?_⟩
  rintro ⟨sig', msg', ht', hm', hi⟩
  cases ht.symm.trans ht'
  cases hm.symm.trans hm'
  exact ⟨sig, msg, ht, hm, hi, hh⟩

/-- Messages of the types that a partition has services for are answered once each; the two
partitions with a panic in their default case panic on the others. -/
theorem messages_answered (alg : MeasuredBoot.Service.HashAlg)
    (hashCompute : List UInt8 → Except MeasuredBoot.Error (List UInt8))
    (pd : DelegatedAttest.Platform κ) (pe : Etss.Platform φ) :
    (∀ is slots, (∀ i ∈ is, ∃ msg, i.msg .measuredBoot = some msg ∧
        MeasuredBoot.Service.ServiceType msg.type) →
      ∀ evs ∈ rounds (MeasuredBoot.Service.measuredBootRound alg hashCompute) is slots,
        Answered evs) ∧
    (∀ is s, (∀ evs ∈ rounds (DelegatedAttest.delegatedAttestationRound pd) is s, Answered evs) ↔
      ∀ i ∈ is, ∃ msg, i.1.msg .delegatedAttestation = some msg ∧
        DelegatedAttest.ServiceType msg.type) ∧
    (∀ is s, (∀ i ∈ is, Serviced pe i) →
      ((∀ evs ∈ rounds (Etss.etssRound pe) is s, Answered evs) ↔ ∀ i ∈ is, TakesIpcType i)) ∧
    (∀ msgs s, (∀ msg ∈ msgs, Etss.IpcType msg.type) →
      ∀ evs ∈ rounds (Etss.etssProvisioningRound pe) msgs s, Answered evs) ∧
    (∀ slots msg s, ¬ DelegatedAttest.ServiceType msg.type →
      (DelegatedAttest.delegatedAttestationSignalHandle pd slots (some msg) s).1 =
        [.get msg.handle, .panic]) ∧
    (∀ l sig msg s, ¬ Etss.IpcType msg.type →
      (Etss.etssSignalHandle (Etss.handler pe l sig) (some msg) s).1 =
        [.get msg.handle, .panic]) := by
  refine ⟨fun is slots h => ?_, fun is s => ?_, fun is s h => ?_, fun msgs s h => ?_,
    fun slots msg s h => ?_, fun l sig msg s h => ?_⟩
  · exact (rounds_answered_iff MeasuredBoot.Service.measuredBootRound_answered_iff is slots).mpr h
  · exact rounds_answered_iff DelegatedAttest.delegatedAttestationRound_answered_iff is s
  · rw [rounds_answered_iff Etss.etssRound_answered_iff is s]
    exact forall₂_congr fun i hi => roundOk_iff (h i hi)
  · exact (rounds_answered_iff Etss.etssProvisioningRound_answered_iff msgs s).mpr h

  · unfold DelegatedAttest.delegatedAttestationSignalHandle
    dsimp only
    rw [if_neg fun h1 => h (.inl h1), if_neg fun h2 => h (.inr h2)]
  · unfold Etss.etssSignalHandle
    dsimp only
    rw [if_neg fun h1 => h (.inl h1), if_neg fun h2 => h (.inr (.inl h2)),
      if_neg fun h3 => h (.inr (.inr h3))]

/-- A call with a type that no partition has a service for. -/
def strayMessage : Msg := ⟨1003, 5, 1, fun _ => [], fun _ => 0⟩

def strayPending (S : Type) (s : S) : Pending S := ⟨fun _ => some strayMessage, ⟨s, rfl⟩⟩

theorem strayMessage_not_answered :
    (¬ ∀ evs ∈ rounds (DelegatedAttest.delegatedAttestationRound DelegatedAttest.oneKeyPlatform)
        [(strayPending _ .delegatedAttestation, DelegatedAttest.growingSlots)]
        (.init (DelegatedAttest.OneKey.mk 0 false)), Answered evs) ∧
      ¬ ∀ evs ∈ rounds (MeasuredBoot.Service.measuredBootRound .sha256 fun _ => .ok [])
        [strayPending _ .measuredBoot] MeasuredBoot.Service.initialiseAllMeasurements,
        Answered evs := by
  constructor
  · rw [rounds_answered_iff DelegatedAttest.delegatedAttestationRound_answered_iff]
    intro h
    obtain ⟨msg, hm, ht⟩ := h _ (List.mem_singleton_self _)
    obtain rfl := Option.some_inj.mp hm
    exact absurd ht (by unfold DelegatedAttest.ServiceType; decide)
  · rw [rounds_answered_iff MeasuredBoot.Service.measuredBootRound_answered_iff]
    intro h
    obtain ⟨msg, hm, ht⟩ := h _ (List.mem_singleton_self _)
    obtain rfl := Option.some_inj.mp hm
    exact absurd ht (by unfold MeasuredBoot.Service.ServiceType; decide)

/-! ## Buffers -/

/-- A message as one of the partitions handles it. The Measured Boot slots are those that earlier
messages leave; the other two partitions are in any state. -/
inductive Handling (φ κ : Type)
  | measuredBoot (before : List Msg) (msg : Msg)
  | delegatedAttestation (slots : MeasuredBoot.MeasurementSlots) (s : DelegatedAttest.State κ)
      (msg : Msg)
  | etss (l : Etss.Locals) (sig : Etss.Signal) (s : Etss.Partition φ) (msg : Msg)
  | etssProvisioning (s : Etss.Partition φ) (msg : Msg)

section
variable (alg : MeasuredBoot.Service.HashAlg)
  (hashCompute : List UInt8 → Except MeasuredBoot.Error (List UInt8))
  (pd : DelegatedAttest.Platform κ) (pe : Etss.Platform φ)

/-- The reads and writes of the handler keep to their buffers and vectors. -/
def Handling.Fits : Handling φ κ → Prop
  | .measuredBoot before msg =>
    Ipc.Fits msg (MeasuredBoot.Service.measuredBootSignalHandle alg hashCompute (some msg)
      (MeasuredBoot.Service.serve alg hashCompute before
        MeasuredBoot.Service.initialiseAllMeasurements)).1
  | .delegatedAttestation slots s msg =>
    Ipc.Fits msg (DelegatedAttest.delegatedAttestationSignalHandle pd slots (some msg) s).1
  | .etss l sig s msg =>
    Ipc.Fits msg (Etss.etssSignalHandle (Etss.handler pe l sig) (some msg) s).1
  | .etssProvisioning s msg => Ipc.Fits msg (Etss.etssProvisioningRound pe msg s).1

/-- The partition and the message whose hash is read before its size is checked. -/
def Handling.HashTooLong : Handling φ κ → Prop
  | .delegatedAttestation _ _ msg => DelegatedAttest.HashTooLong msg
  | _ => False

theorem Handling.fits_iff (hp : pd.KeepsSizes) (r : Handling φ κ) :
    r.Fits alg hashCompute pd pe ↔ ¬ r.HashTooLong := by
  cases r with
  | measuredBoot before msg =>
    exact iff_of_true (MeasuredBoot.Service.measuredBootSignalHandle_fits before msg) not_false
  | delegatedAttestation slots s msg =>
    exact DelegatedAttest.delegatedAttestationSignalHandle_fits_iff hp msg s
  | etss l sig s msg => exact iff_of_true (Etss.etssSignalHandle_fits msg s) not_false
  | etssProvisioning s msg =>
    exact iff_of_true (Etss.etssProvisioningRound_fits msg s) not_false

end

/-- A platform for ETSS without any of the features. -/
def bareEtss : Etss.Platform Unit where
  securityFeature := ⟨false, false, false, false⟩
  fsCtx _ := none
  assetDataSize := 2048
  provBlobLenMax := 2048
  performAndVerify _ _ := (true, ())
  assetDataSize_pos := by decide

/-- A request for a token with 65 bytes of hash. -/
def longHash : Msg :=
  ⟨DelegatedAttest.delegatedAttestGetPlatformTokenType, 3, 1, fun _ => List.replicate 65 0,
    fun _ => 1024⟩

theorem oneKey_keepsSizes : DelegatedAttest.oneKeyPlatform.KeepsSizes where
  exportKey st id n := by
    show (DelegatedAttest.oneKeyServices (.exportKey id n) st).1.data.length ≤ n
    unfold DelegatedAttest.oneKeyServices
    dsimp only
    split_ifs with h
    · exact h.2
    · exact Nat.zero_le _
  initialAttestGetToken st h n := List.length_take_le _ _

theorem fits_of_hash64 :
    (Handling.delegatedAttestation DelegatedAttest.growingSlots
        (.init (DelegatedAttest.OneKey.mk 0 false))
        { longHash with inVec := fun _ => List.replicate 64 0 } : Handling Unit _).Fits
      .sha256 (fun _ => .ok []) DelegatedAttest.oneKeyPlatform bareEtss :=
  (Handling.fits_iff .sha256 (fun _ => .ok []) DelegatedAttest.oneKeyPlatform bareEtss
    oneKey_keepsSizes _).mpr fun h => absurd h.2 (by decide)

theorem not_fits_of_longHash :
    ¬ (Handling.delegatedAttestation DelegatedAttest.growingSlots
        (.init (DelegatedAttest.OneKey.mk 0 false)) longHash : Handling Unit _).Fits
      .sha256 (fun _ => .ok []) DelegatedAttest.oneKeyPlatform bareEtss := by
  intro h
  have hm : Event.read 0 64 65 ∈ (DelegatedAttest.delegatedAttestationSignalHandle
      DelegatedAttest.oneKeyPlatform DelegatedAttest.growingSlots (some longHash)
      (.init (DelegatedAttest.OneKey.mk 0 false))).1 := by decide +kernel
  exact absurd (h.reads 0 64 65 hm) (by decide)

end Partitions
