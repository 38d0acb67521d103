import TfmExtras.MeasuredBoot.SlotRun

/-! The traffic of the Measured Boot handlers, and which messages the partition answers. -/

namespace MeasuredBoot.Service
open Bytes Ipc

variable {alg : HashAlg} {hashCompute : List UInt8 → Except Error (List UInt8)} {slots : Slots}
  {msg : Msg}

theorem readMeasurements_quiet : Quiet (readMeasurements slots msg .start).2.events := by
  have h0 : Quiet (Io.start : Io Reply).events := Quiet.nil
  unfold readMeasurements
  dsimp only
  split_ifs
  · exact h0
  · exact h0.read _ _ _
  · exact h0.read _ _ _
  · split
    · exact h0.read _ _ _
    · exact (((h0.read _ _ _).write _ _).write _ _).write _ _

theorem extendMeasurement_within :
    Within msg msg.outSize (extendMeasurement alg hashCompute slots msg .start).2.2 := by
  have h0 := within_start (ρ := Reply) msg
  unfold extendMeasurement
  dsimp only
  split_ifs with h1 h2 h3
  · exact h0
  · exact h0.psaRead le_rfl 0
  -- the sizes are checked before the reads that use them
  rotate_right
  · exact h0.psaRead le_rfl 0
  all_goals
    unfold ExtendSizesOk at h3
    have hr := h0.psaRead (le_refl extendIovecSize) 0
  · exact hr
  all_goals
    have hr := hr.psaRead (show msg.inSize 1 ≤ signerIdMaxSize by omega) 1
  · exact hr
  all_goals
    have hr := hr.psaRead (show msg.inSize 2 ≤ versionMaxSize by omega) 2
  · exact hr
  all_goals
    have hr := hr.psaRead (show msg.inSize 3 ≤ measurementValueMaxSize by omega) 3
    exact hr

/-- The types that the partition has services for. -/
def ServiceType (type : Int) : Prop :=
  type = tfmMeasuredBootRead ∨ type = tfmMeasuredBootExtend

theorem measuredBootRound_answered_iff (pending : Pending Signal) (slots : Slots) :
    Answered (measuredBootRound alg hashCompute pending slots).1 ↔
      ∃ msg, pending.msg .measuredBoot = some msg ∧ ServiceType msg.type := by
  obtain ⟨sig, hany⟩ := pending.any
  obtain ⟨msg, hm⟩ := Option.isSome_iff_exists.mp hany
  cases sig
  unfold measuredBootRound measuredBootSignalHandle ServiceType
  rw [hm]
  dsimp only
  rw [if_pos (by rfl)]
  split_ifs with h1 h2
  · exact iff_of_true (readMeasurements_quiet.answered _ _) ⟨msg, rfl, .inl h1⟩
  · exact iff_of_true (extendMeasurement_within.quiet.answered _ _) ⟨msg, rfl, .inr h2⟩
  · refine iff_of_false (Quiet.nil.not_answered _) ?_
    rintro ⟨msg', he, h⟩
    obtain rfl := Option.some_inj.mp he
    exact h.elim h1 h2

/-! ## Reads fit their vectors -/

/-- The sizes that the read service returns in fields of one byte. -/
def Bounded (slot : SlotBuffers) : Prop :=
  slot.metadata.versionSize ≤ versionMaxSize ∧ slot.metadata.swTypeSize ≤ swTypeMaxSize

theorem zeros_length (n : Nat) : (zeros n).length = n := List.length_replicate

theorem ReadIovecOut.encode_length {r : Reading}
    (hv : r.measurement.version.length ≤ versionMaxSize)
    (hs : r.measurement.swType.length ≤ swTypeMaxSize) :
    (ReadIovecOut.ofReading r).encode.length = readIovecOutSize := by
  have hv' : (memcpy (zeros versionMaxSize) r.measurement.version).length = versionMaxSize :=
    (memcpy_length (hv.trans_eq (zeros_length _).symm)).trans (zeros_length _)
  have hs' : (memcpy (zeros swTypeMaxSize) r.measurement.swType).length = swTypeMaxSize :=
    (memcpy_length (hs.trans_eq (zeros_length _).symm)).trans (zeros_length _)
  unfold ReadIovecOut.encode ReadIovecOut.ofReading
  simp only [List.length_append, leBytes_length, zeros_length, hv', hs']
  rfl

theorem read_lengths {index a b c d : Nat} {r : Reading}
    (h : measuredBootReadMeasurement slots index a b c d = .ok r) :
    (r.measurement.signerId.length ≤ a ∧ r.measurement.hashBuf.length ≤ d) ∧
      r.measurement.version.length ≤ (slots index).metadata.versionSize ∧
      r.measurement.swType.length ≤ (slots index).metadata.swTypeSize := by
  unfold measuredBootReadMeasurement at h
  dsimp only at h
  split_ifs at h with _ _ hsize
  cases h
  refine ⟨⟨?_, ?_⟩, List.length_take_le _ _, List.length_take_le _ _⟩
  · exact (List.length_take_le _ _).trans (by omega)
  · exact (List.length_take_le _ _).trans (by omega)

theorem readMeasurements_within (hb : ∀ s, Bounded (slots s)) :
    ∃ room, Within msg room (readMeasurements slots msg .start).2 := by
  have h0 := within_start (ρ := Reply) msg
  unfold readMeasurements
  dsimp only
  split_ifs with hsize
  · exact ⟨_, h0⟩
  · exact ⟨_, h0.psaRead le_rfl 0⟩
  · exact ⟨_, h0.psaRead le_rfl 0⟩
  · have hout : msg.outSize 0 = readIovecOutSize := not_not.mp fun hn => hsize (.inr hn)
    split
    · exact ⟨_, h0.psaRead le_rfl 0⟩
    · next r hr =>
      obtain ⟨⟨hs, hv⟩, hver, hsw⟩ := read_lengths hr
      have henc := ReadIovecOut.encode_length (hver.trans (hb _).1) (hsw.trans (hb _).2)
      have hw := (h0.psaRead (le_refl readIovecInSize) 0).psaWrite (henc.trans hout.symm).le
      have hw := hw.psaWrite (o := 1) (show r.measurement.signerId.length ≤ _ by
        rwa [Function.update_of_ne (by decide)])
      have hw := hw.psaWrite (o := 2) (show r.measurement.hashBuf.length ≤ _ by
        rwa [Function.update_of_ne (by decide), Function.update_of_ne (by decide)])
      exact ⟨_, hw⟩

theorem ExtendSizes.bounded {slot : SlotBuffers} (h : ExtendSizes msg) (hb : Bounded slot) :
    Bounded (extendSlot alg hashCompute msg slot).2 := by
  have hz := h.sizes
  have hnew : Bounded { updateMetadata slot (memcpy (zeros signerIdMaxSize) (msg.inVec 1))
      (msg.inSize 1) (memcpy (zeros versionMaxSize) (msg.inVec 2)) (msg.inSize 2 % 2 ^ 8)
      (extendIovec msg).measurementAlgo (extendIovec msg).swType (extendIovec msg).swTypeSize with
      isPopulated := true } := by
    unfold ExtendSizesOk at hz
    exact ⟨(Nat.mod_le _ _).trans (by omega),
      show (extendIovec msg).swTypeSize ≤ swTypeMaxSize by omega⟩
  have hnext : Bounded (extendMetadata slot) := ⟨Nat.zero_le _, Nat.zero_le _⟩
  unfold extendSlot measuredBootExtendMeasurement
  dsimp only
  split_ifs
  · exact hb
  · exact hb
  all_goals
    split
    · assumption
    · first | exact hnext | exact hnew

theorem bounded_served (hb : ∀ s, Bounded (slots s)) (s : Nat) :
    Bounded (served alg hashCompute slots msg s) := by
  by_cases ht : msg.type = tfmMeasuredBootExtend
  · obtain ⟨evs, he⟩ := handle_extend ht
    unfold served
    rw [he]
    show Bounded ((extendMeasurement alg hashCompute slots msg .start).2.1 s)
    by_cases hs : ExtendSizes msg
    · rw [(extendMeasurement_of_sizes hs).2]
      by_cases hi : s = (extendIovec msg).index
      · rw [hi, Function.update_self]
        exact hs.bounded (hb _)
      · rw [Function.update_of_ne hi]
        exact hb s
    · rw [(extendMeasurement_of_not_sizes hs).2]
      exact hb s
  · rw [served_of_ne ht]
    exact hb s

theorem bounded_serve (msgs : List Msg) (s : Nat) :
    Bounded (serve alg hashCompute msgs initialiseAllMeasurements s) := by
  unfold serve
  induction msgs using List.reverseRecOn generalizing s with
  | nil => exact ⟨Nat.zero_le _, Nat.zero_le _⟩
  | append_singleton msgs msg ih =>
    rw [List.foldl_append]
    exact bounded_served ih s

/-- Every message that reaches the partition is handled within its vectors. -/
theorem measuredBootSignalHandle_fits (msgs : List Msg) (msg : Msg) :
    Fits msg (measuredBootSignalHandle alg hashCompute (some msg)
      (serve alg hashCompute msgs initialiseAllMeasurements)).1 := by
  unfold measuredBootSignalHandle
  dsimp only
  split_ifs
  · obtain ⟨room, h⟩ := readMeasurements_within (bounded_serve msgs)
    exact h.fits _ _
  · exact extendMeasurement_within.fits _ _
  · exact ⟨fun _ _ _ h => absurd h (by simp), fun _ => Nat.zero_le _⟩

end MeasuredBoot.Service
