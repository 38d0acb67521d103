import Mathlib.Data.List.DropRight
import TfmExtras.MeasuredBoot.Service

/-! The content of a measurement slot as a function of the extends that were accepted for it. -/

namespace MeasuredBoot.Service
open Bytes Ipc

variable {alg : HashAlg} {hashCompute : List UInt8 → Except Error (List UInt8)}
  {H : List UInt8 → List UInt8} {slots : Slots} {slot : SlotBuffers} {msg : Msg}

/-! ## Buffers and the bytes in use -/

theorem memcpy_length {dst src : List UInt8} (h : src.length ≤ dst.length) :
    (memcpy dst src).length = dst.length := by
  unfold memcpy
  rw [List.length_append, List.length_drop]
  omega

theorem memcpy_take {dst src : List UInt8} {n : Nat} (h : src.length = n) :
    (memcpy dst src).take n = src := by
  unfold memcpy
  rw [← h, List.take_left]

/-- The bytes of a slot that are in use. -/
def SlotBuffers.view (slot : SlotBuffers) : MeasuredBootSlot :=
  ⟨slot.isLocked, slot.isPopulated, slot.isCommon,
    ⟨slot.value.hashBuf.take slot.value.hashBufSize,
      slot.metadata.signerId.take slot.metadata.signerIdSize,
      slot.metadata.version.take slot.metadata.versionSize, slot.metadata.measurementAlgo,
      slot.metadata.swType.take slot.metadata.swTypeSize⟩⟩

/-! ## Extends -/

/-- What an extend brings to its slot. -/
structure Extend where
  signerId : List UInt8
  version : List UInt8
  measurementAlgo : Nat
  swType : List UInt8
  value : List UInt8
  lock : Bool
deriving DecidableEq, Repr

def extendIovec (msg : Msg) : ExtendIovec := .decode (msg.inVec 0)

/-- The extend that a message asks for. -/
def extendOf (msg : Msg) : Extend :=
  ⟨msg.inVec 1, msg.inVec 2, (extendIovec msg).measurementAlgo,
    (extendIovec msg).swType.take (extendIovec msg).swTypeSize, msg.inVec 3,
    (extendIovec msg).lockMeasurement ≠ 0⟩

/-- The sizes that a request is checked for. -/
structure ExtendSizes (msg : Msg) : Prop where
  iovec : msg.inSize 0 = extendIovecSize
  sizes : ExtendSizesOk (msg.inSize 1) (msg.inSize 2) (msg.inSize 3) (extendIovec msg).swTypeSize
  index : (extendIovec msg).index < numOfMeasurementSlots

/-- The effect of a request on its slot, once its sizes are accepted. -/
def extendSlot (alg : HashAlg) (hashCompute : List UInt8 → Except Error (List UInt8))
    (msg : Msg) (slot : SlotBuffers) : Reply × SlotBuffers :=
  measuredBootExtendMeasurement alg hashCompute slot
    (memcpy (zeros signerIdMaxSize) (msg.inVec 1)) (msg.inSize 1)
    (memcpy (zeros versionMaxSize) (msg.inVec 2)) (msg.inSize 2 % 2 ^ 8)
    (extendIovec msg).measurementAlgo (extendIovec msg).swType (extendIovec msg).swTypeSize
    (memcpy (zeros measurementValueMaxSize) (msg.inVec 3)) (msg.inSize 3)
    (extendIovec msg).lockMeasurement

/-- The checks of an extend request, when the first vector has the size of its structure. -/
theorem extendMeasurement_eq (h : msg.inSize 0 = extendIovecSize) :
    ∃ io io' : Io Reply, extendMeasurement alg hashCompute slots msg .start =
      if ¬ ExtendSizesOk (msg.inSize 1) (msg.inSize 2) (msg.inSize 3)
          (extendIovec msg).swTypeSize then (.error .invalidArgument, slots, io)
      else if (extendIovec msg).index ≥ numOfMeasurementSlots then
        (.error .invalidArgument, slots, io)
      else
        ((extendSlot alg hashCompute msg (slots (extendIovec msg).index)).1,
          Function.update slots (extendIovec msg).index
            (extendSlot alg hashCompute msg (slots (extendIovec msg).index)).2, io') := by
  have hs : ∀ i, ¬ (msg.inVec i).length ≠ msg.inSize i := fun _ hne => hne rfl
  have hl : ¬ (msg.inVec 0).length ≠ extendIovecSize := not_not_intro h
  unfold extendMeasurement
  rw [if_neg (not_not_intro h), Io.psaRead_whole rfl h]
  dsimp only
  rw [if_neg hl, Io.psaRead_whole (Io.psaRead_taken (by decide)) rfl]
  dsimp only
  rw [if_neg (hs 1), Io.psaRead_whole ((Io.psaRead_taken (by decide)).trans
    (Io.psaRead_taken (by decide))) rfl]
  dsimp only
  rw [if_neg (hs 2), Io.psaRead_whole ((Io.psaRead_taken (by decide)).trans
    ((Io.psaRead_taken (by decide)).trans (Io.psaRead_taken (by decide)))) rfl]
  dsimp only
  rw [if_neg (hs 3)]
  exact ⟨_, _, rfl⟩

theorem extendMeasurement_of_sizes (h : ExtendSizes msg) :
    (extendMeasurement alg hashCompute slots msg .start).1 =
        (extendSlot alg hashCompute msg (slots (extendIovec msg).index)).1 ∧
      (extendMeasurement alg hashCompute slots msg .start).2.1 =
        Function.update slots (extendIovec msg).index
          (extendSlot alg hashCompute msg (slots (extendIovec msg).index)).2 := by
  obtain ⟨io, io', he⟩ := extendMeasurement_eq h.iovec
  rw [he, if_neg (not_not_intro h.sizes), if_neg (Nat.not_le_of_lt h.index)]
  exact ⟨rfl, rfl⟩

theorem extendMeasurement_of_not_sizes (h : ¬ ExtendSizes msg) :
    (extendMeasurement alg hashCompute slots msg .start).1 ≠ .ok () ∧
      (extendMeasurement alg hashCompute slots msg .start).2.1 = slots := by
  by_cases h₀ : msg.inSize 0 = extendIovecSize
  · obtain ⟨io, io', he⟩ := extendMeasurement_eq
      h₀
    rw [he]
    split_ifs with hz hi
    · exact ⟨nofun, rfl⟩
    · exact absurd ⟨h₀, hz, Nat.lt_of_not_le hi⟩ h
    · exact ⟨nofun, rfl⟩
  · unfold extendMeasurement
    rw [if_pos h₀]
    exact ⟨nofun, rfl⟩

/-! ## The content of a slot -/

/-- The value that the extends of a slot build up from the initial pattern. -/
def extendedValue (alg : HashAlg) (H : List UInt8 → List UInt8) (es : List Extend) : List UInt8 :=
  es.foldl (fun value e => H (value ++ e.value))
    (List.replicate alg.measurementValueSize measurementValueInitPattern)

/-- The slot after the accepted extends `es`. -/
def slotOf (alg : HashAlg) (H : List UInt8 → List UInt8) (es : List Extend) : MeasuredBootSlot :=
  match es with
  | [] => ⟨false, false, false, ⟨[], [], [], 0, []⟩⟩
  | e :: es => ⟨(e :: es).any Extend.lock, true, false,
      ⟨extendedValue alg H (e :: es), e.signerId, if es = [] then e.version else [],
        e.measurementAlgo, if es = [] then e.swType else []⟩⟩

theorem slotOf_cons (e : Extend) (es : List Extend) :
    slotOf alg H (e :: es) = ⟨(e :: es).any Extend.lock, true, false,
      ⟨extendedValue alg H (e :: es), e.signerId, if es = [] then e.version else [],
        e.measurementAlgo, if es = [] then e.swType else []⟩⟩ := rfl

/-- The buffers of a slot after the accepted extends `es`. -/
structure Follows (alg : HashAlg) (H : List UInt8 → List UInt8) (es : List Extend)
    (slot : SlotBuffers) : Prop where
  view : slot.view = slotOf alg H es
  value : slot.value.hashBuf.take alg.measurementValueSize = extendedValue alg H es
  hashBuf : slot.value.hashBuf.length = measurementValueMaxSize
  signerId : slot.metadata.signerId.length = signerIdMaxSize
  version : slot.metadata.version.length = versionMaxSize
  swType : slot.metadata.swType.length = swTypeMaxSize
  hashBufSize : slot.value.hashBufSize ≤ measurementValueMaxSize
  signerIdSize : slot.metadata.signerIdSize ≤ signerIdMaxSize
  versionSize : slot.metadata.versionSize ≤ versionMaxSize
  swTypeSize : slot.metadata.swTypeSize ≤ swTypeMaxSize
  signerId_ge : es ≠ [] → signerIdMinSize ≤ slot.metadata.signerIdSize
  hashBuf_ge : es ≠ [] → measurementValueMinSize ≤ slot.value.hashBufSize
  unlocked : ∀ e ∈ es.dropLast, e.lock = false

theorem HashAlg.measurementValueSize_le (alg : HashAlg) :
    alg.measurementValueSize ≤ measurementValueMaxSize := by cases alg <;> decide

theorem HashAlg.le_measurementValueSize (alg : HashAlg) :
    measurementValueMinSize ≤ alg.measurementValueSize := by cases alg <;> decide

theorem follows_initial (alg : HashAlg) (H : List UInt8 → List UInt8) (s : Nat) :
    Follows alg H [] (initialiseAllMeasurements s) where
  view := rfl
  value := by
    show (List.replicate measurementValueMaxSize _).take _ = List.replicate _ _
    rw [List.take_replicate, Nat.min_eq_left alg.measurementValueSize_le]
  hashBuf := rfl
  signerId := rfl
  version := rfl
  swType := rfl
  hashBufSize := Nat.zero_le _
  signerIdSize := Nat.zero_le _
  versionSize := Nat.zero_le _
  swTypeSize := Nat.zero_le _
  signerId_ge := fun hn => absurd rfl hn
  hashBuf_ge := fun hn => absurd rfl hn
  unlocked := fun _ h => absurd h List.not_mem_nil

/-! ## One extend -/

/-- The slot that an extend leaves when it is let in. -/
def extendedSlot (alg : HashAlg) (H : List UInt8 → List UInt8) (msg : Msg) (slot : SlotBuffers) :
    SlotBuffers where
  isLocked := slot.isLocked || decide ((extendIovec msg).lockMeasurement ≠ 0)
  isPopulated := true
  isCommon := slot.isCommon
  value :=
    let hash := H (slot.value.hashBuf.take alg.measurementValueSize ++ msg.inVec 3)
    ⟨memcpy slot.value.hashBuf hash, hash.length⟩
  metadata :=
    if slot.isPopulated then (extendMetadata slot).metadata
    else (updateMetadata slot (memcpy (zeros signerIdMaxSize) (msg.inVec 1)) (msg.inSize 1)
      (memcpy (zeros versionMaxSize) (msg.inVec 2)) (msg.inSize 2 % 2 ^ 8)
      (extendIovec msg).measurementAlgo (extendIovec msg).swType
      (extendIovec msg).swTypeSize).metadata

theorem extendSlot_eq (hH : ∀ bs, hashCompute bs = .ok (H bs)) :
    extendSlot alg hashCompute msg slot =
      if isSlotAccessProhibited slot (memcpy (zeros signerIdMaxSize) (msg.inVec 1)) then
        (.error .notPermitted, slot)
      else if slot.isLocked then (.error .badState, slot)
      else (.ok (), extendedSlot alg H msg slot) := by
  have hm : (memcpy (zeros measurementValueMaxSize) (msg.inVec 3)).take (msg.inSize 3) =
      msg.inVec 3 := memcpy_take rfl
  unfold extendSlot measuredBootExtendMeasurement extendMeasurementValue extendedSlot
  rw [hm]
  obtain ⟨locked, populated, common, value, metadata⟩ := slot
  split_ifs <;> simp_all [storeMeasurementValue, extendMetadata, updateMetadata]

theorem extendedValue_append (es : List Extend) (e : Extend) :
    extendedValue alg H (es ++ [e]) = H (extendedValue alg H es ++ e.value) := by
  unfold extendedValue
  rw [List.foldl_append]
  rfl

theorem Follows.isPopulated {es : List Extend} (h : Follows alg H es slot) :
    slot.isPopulated = true ↔ es ≠ [] := by
  have hp : slot.isPopulated = (slotOf alg H es).isPopulated :=
    congrArg MeasuredBootSlot.isPopulated h.view
  rw [hp]
  cases es with
  | nil => exact iff_of_false nofun fun hn => hn rfl
  | cons e es => exact iff_of_true rfl nofun

theorem Follows.isLocked {es : List Extend} (h : Follows alg H es slot) :
    slot.isLocked = es.any Extend.lock := by
  have hp : slot.isLocked = (slotOf alg H es).isLocked := congrArg MeasuredBootSlot.isLocked h.view
  rw [hp]
  cases es <;> rfl

theorem Follows.isCommon {es : List Extend} (h : Follows alg H es slot) :
    slot.isCommon = false := by
  have hp : slot.isCommon = (slotOf alg H es).isCommon := congrArg MeasuredBootSlot.isCommon h.view
  rw [hp]
  cases es <;> rfl

/-- The metadata of the first extend. -/
theorem Follows.metadata_first (h : Follows alg H [] slot) (hs : ExtendSizes msg) :
    (extendedSlot alg H msg slot).metadata =
      ⟨memcpy slot.metadata.signerId (msg.inVec 1), msg.inSize 1,
        memcpy slot.metadata.version (msg.inVec 2), msg.inSize 2,
        (extendIovec msg).measurementAlgo,
        memcpy slot.metadata.swType
          ((extendIovec msg).swType.take (extendIovec msg).swTypeSize),
        (extendIovec msg).swTypeSize⟩ := by
  have hp : ¬ slot.isPopulated = true := fun hp => h.isPopulated.mp hp rfl
  have hv : msg.inSize 2 % 2 ^ 8 = msg.inSize 2 := by
    have := hs.sizes
    unfold ExtendSizesOk versionMaxSize at this
    omega
  show (if slot.isPopulated = true then _ else _) = _
  rw [if_neg hp, hv]
  unfold updateMetadata
  dsimp only
  rw [memcpy_take (n := msg.inSize 1) rfl, memcpy_take (n := msg.inSize 2) rfl]

/-- The metadata of a later extend. -/
theorem Follows.metadata_later {es : List Extend} (h : Follows alg H es slot) (hn : es ≠ []) :
    (extendedSlot alg H msg slot).metadata = (extendMetadata slot).metadata :=
  if_pos (h.isPopulated.mpr hn)

theorem ExtendSizes.swType_length (hs : ExtendSizes msg) :
    ((extendIovec msg).swType.take (extendIovec msg).swTypeSize).length =
      (extendIovec msg).swTypeSize := by
  have hl : (msg.inVec 0).length = 32 := hs.iovec
  have hz := hs.sizes
  have ht : (extendIovec msg).swType.length = 20 := by
    show (((msg.inVec 0).drop 8).take swTypeMaxSize).length = 20
    rw [List.length_take, List.length_drop, hl]
    rfl
  unfold ExtendSizesOk swTypeMaxSize at hz
  rw [List.length_take, ht]
  omega

/-- The locks asked for before an extend that is let in. -/
theorem Follows.lock_false {es : List Extend} (h : Follows alg H es slot)
    (hu : slot.isLocked = false) : ∀ e ∈ es, e.lock = false := by
  have ha : es.any Extend.lock = false := h.isLocked.symm.trans hu
  exact fun e he => Bool.eq_false_iff.mpr fun hl =>
    Bool.noConfusion (ha.symm.trans (List.any_eq_true.mpr ⟨e, he, hl⟩))

/-- The slot after a further extend is the slot of the extends with that one added. -/
theorem Follows.extended {es : List Extend} (h : Follows alg H es slot) (hs : ExtendSizes msg)
    (hlen : ∀ bs, (H bs).length = alg.measurementValueSize) (hu : slot.isLocked = false) :
    Follows alg H (es ++ [extendOf msg]) (extendedSlot alg H msg slot) := by
  have hz := hs.sizes
  have hlen' : ∀ bs, (H bs).length ≤ slot.value.hashBuf.length := fun bs => by
    rw [hlen, h.hashBuf]
    exact alg.measurementValueSize_le
  unfold ExtendSizesOk at hz
  have h1 : (msg.inVec 1).length ≤ slot.metadata.signerId.length := by
    have : (msg.inVec 1).length = msg.inSize 1 := rfl
    rw [h.signerId]
    omega
  have h2 : (msg.inVec 2).length ≤ slot.metadata.version.length := by
    have : (msg.inVec 2).length = msg.inSize 2 := rfl
    rw [h.version]
    omega
  have h3 : ((extendIovec msg).swType.take (extendIovec msg).swTypeSize).length ≤
      slot.metadata.swType.length := by
    rw [hs.swType_length, h.swType]
    omega
  have hbuf : (extendedSlot alg H msg slot).value.hashBuf.take
      (extendedSlot alg H msg slot).value.hashBufSize =
      extendedValue alg H (es ++ [extendOf msg]) := by
    rw [extendedValue_append, ← h.value]
    exact memcpy_take rfl
  have hval : (extendedSlot alg H msg slot).value.hashBufSize = alg.measurementValueSize :=
    hlen _
  have hlock : (extendedSlot alg H msg slot).isLocked = (extendOf msg).lock := by
    show (slot.isLocked || decide ((extendIovec msg).lockMeasurement ≠ 0)) = _
    rw [hu]
    rfl
  have hlast : ∀ e ∈ (es ++ [extendOf msg]).dropLast, e.lock = false := by
    rw [List.dropLast_concat]
    exact h.lock_false hu
  have hbuflen := (memcpy_length (hlen' (slot.value.hashBuf.take alg.measurementValueSize ++
    msg.inVec 3))).trans h.hashBuf
  have hle := hval.trans_le alg.measurementValueSize_le
  have hge := alg.le_measurementValueSize.trans_eq hval.symm
  cases es with
  | nil =>
    have hm := h.metadata_first hs
    refine ⟨?_, hval ▸ hbuf, hbuflen, ?_, ?_, ?_, hle, ?_, ?_, ?_, ?_, fun _ => hge, hlast⟩
    · unfold SlotBuffers.view
      rw [hbuf, hlock, hm]
      dsimp only
      rw [memcpy_take (n := msg.inSize 1) rfl, memcpy_take (n := msg.inSize 2) rfl,
        memcpy_take hs.swType_length]
      show MeasuredBootSlot.mk _ true slot.isCommon _ =
        MeasuredBootSlot.mk ([extendOf msg].any Extend.lock) true false _
      rw [h.isCommon, List.any_cons, List.any_nil, Bool.or_false]
      rfl
    · rw [hm]
      exact (memcpy_length h1).trans h.signerId
    · rw [hm]
      exact (memcpy_length h2).trans h.version
    · rw [hm]
      exact (memcpy_length h3).trans h.swType
    · rw [hm]
      exact Nat.le_of_not_lt fun hn => hz (.inr (.inl hn))
    · rw [hm]
      exact Nat.le_of_not_lt fun hn => hz (.inr (.inr (.inl hn)))
    · rw [hm]
      exact Nat.le_of_not_lt fun hn => hz (.inr (.inr (.inr (.inr (.inr hn)))))
    · rw [hm]
      exact fun _ => Nat.le_of_not_lt fun hn => hz (.inl hn)
  | cons e es =>
    have hm : (extendedSlot alg H msg slot).metadata = (extendMetadata slot).metadata :=
      h.metadata_later (List.cons_ne_nil e es)
    refine ⟨?_, hval ▸ hbuf, hbuflen, ?_, ?_, ?_, hle, ?_, ?_, ?_, ?_, fun _ => hge, hlast⟩
    · have hsig : slot.metadata.signerId.take slot.metadata.signerIdSize = e.signerId :=
        congrArg (fun s => s.measurement.signerId) h.view
      have halgo : slot.metadata.measurementAlgo = e.measurementAlgo :=
        congrArg (fun s => s.measurement.measurementAlgo) h.view
      have hany : (e :: (es ++ [extendOf msg])).any Extend.lock = (extendOf msg).lock := by
        rw [← List.cons_append, List.any_append, ← h.isLocked, hu]
        simp
      have hne : es ++ [extendOf msg] ≠ [] := List.append_ne_nil_of_right_ne_nil _ nofun
      unfold SlotBuffers.view
      rw [hbuf, hlock, hm, List.cons_append, slotOf_cons, if_neg hne, if_neg hne, hany, ← hsig,
        ← halgo]
      show MeasuredBootSlot.mk _ true slot.isCommon _ = _
      rw [h.isCommon]
      rfl
    · rw [hm]
      exact h.signerId
    · rw [hm]
      rfl
    · rw [hm]
      rfl
    · rw [hm]
      exact h.signerIdSize
    · rw [hm]
      exact Nat.zero_le _
    · rw [hm]
      exact Nat.zero_le _
    · rw [hm]
      exact fun _ => h.signerId_ge nofun

end MeasuredBoot.Service
