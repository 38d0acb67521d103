import TfmExtras.MeasuredBoot.BootData
import TfmExtras.MeasuredBoot.SlotRun

/-! Sequences of extends: those of the boot data, and those of the requests after it. -/

namespace MeasuredBoot.Service
open Bytes Ipc

variable {alg : HashAlg} {hashCompute : List UInt8 → Except Error (List UInt8)} {b : BootStatus}
  {mem : Memory} {slots : Slots} {slot : SlotBuffers} {msg : Msg} {e : ExtendCall}

/-! ## One extend -/

/-- The slot once its metadata is changed, before the value is hashed. -/
def ExtendCall.opened (e : ExtendCall) (slot : SlotBuffers) : SlotBuffers :=
  if slot.isPopulated then extendMetadata slot
  else { updateMetadata slot e.signerId e.signerIdSize e.version e.versionSize e.measurementAlgo
    e.swType e.swTypeSize with isPopulated := true }

/-- The hash of the stored value and the new one. -/
def ExtendCall.hashed (alg : HashAlg) (hashCompute : List UInt8 → Except Error (List UInt8))
    (e : ExtendCall) (slot : SlotBuffers) : Except Error (List UInt8) :=
  extendMeasurementValue alg hashCompute slot e.measurementValue e.measurementValueSize

/-- The slot with its new value. -/
def ExtendCall.closed (e : ExtendCall) (slot : SlotBuffers) (hash : List UInt8) : SlotBuffers :=
  if e.lockMeasurement ≠ 0 then { storeMeasurementValue (e.opened slot) hash with isLocked := true }
  else storeMeasurementValue (e.opened slot) hash

theorem ExtendCall.opened_value (e : ExtendCall) (slot : SlotBuffers) :
    (e.opened slot).value = slot.value := by
  unfold opened
  split_ifs <;> rfl

theorem ExtendCall.closed_metadata (e : ExtendCall) (slot : SlotBuffers) (hash : List UInt8) :
    (e.closed slot hash).metadata = (e.opened slot).metadata ∧
      (e.closed slot hash).isPopulated = (e.opened slot).isPopulated ∧
      (e.closed slot hash).isCommon = (e.opened slot).isCommon := by
  unfold closed
  split_ifs <;> exact ⟨rfl, rfl, rfl⟩

/-- The effect of the extend on its slot. -/
def ExtendCall.onSlot (alg : HashAlg) (hashCompute : List UInt8 → Except Error (List UInt8))
    (e : ExtendCall) (slot : SlotBuffers) : Reply × SlotBuffers :=
  measuredBootExtendMeasurement alg hashCompute slot e.signerId e.signerIdSize e.version
    e.versionSize e.measurementAlgo e.swType e.swTypeSize e.measurementValue
    e.measurementValueSize e.lockMeasurement

theorem ExtendCall.run_eq (e : ExtendCall) (slots : Slots) : e.run alg hashCompute slots =
    ((e.onSlot alg hashCompute (slots e.index)).1,
      Function.update slots e.index (e.onSlot alg hashCompute (slots e.index)).2) := rfl

theorem ExtendCall.onSlot_eq (alg : HashAlg)
    (hashCompute : List UInt8 → Except Error (List UInt8)) (e : ExtendCall) (slot : SlotBuffers) :
    e.onSlot alg hashCompute slot =
      if isSlotAccessProhibited slot e.signerId then (.error .notPermitted, slot)
      else if slot.isLocked then (.error .badState, slot)
      else match extendMeasurementValue alg hashCompute (e.opened slot) e.measurementValue
          e.measurementValueSize with
        | .error err => (.error err, e.opened slot)
        | .ok hash => (.ok (), e.closed slot hash) := rfl

/-- What an extend can do: it is refused, or it has changed the metadata when its hash fails, or
it stores the hash. -/
theorem ExtendCall.onSlot_cases (alg : HashAlg)
    (hashCompute : List UInt8 → Except Error (List UInt8)) (e : ExtendCall) (slot : SlotBuffers) :
    (isSlotAccessProhibited slot e.signerId = true ∧
      e.onSlot alg hashCompute slot = (.error .notPermitted, slot)) ∨
    isSlotAccessProhibited slot e.signerId = false ∧
      ((slot.isLocked = true ∧ e.onSlot alg hashCompute slot = (.error .badState, slot)) ∨
      slot.isLocked = false ∧
        ((∃ err, e.hashed alg hashCompute slot = .error err ∧
          e.onSlot alg hashCompute slot = (.error err, e.opened slot)) ∨
        ∃ hash, e.hashed alg hashCompute slot = .ok hash ∧
          e.onSlot alg hashCompute slot = (.ok (), e.closed slot hash))) := by
  have hhash : extendMeasurementValue alg hashCompute (e.opened slot) e.measurementValue
      e.measurementValueSize = e.hashed alg hashCompute slot := by
    unfold hashed extendMeasurementValue
    rw [e.opened_value]
  rw [onSlot_eq, hhash]
  cases hp : isSlotAccessProhibited slot e.signerId with
  | true => exact .inl ⟨rfl, rfl⟩
  | false =>
    cases hl : slot.isLocked with
    | true => exact .inr ⟨rfl, .inl ⟨rfl, rfl⟩⟩
    | false =>
      cases hh : e.hashed alg hashCompute slot with
      | error err => exact .inr ⟨rfl, .inr ⟨rfl, .inl ⟨err, rfl, rfl⟩⟩⟩
      | ok hash => exact .inr ⟨rfl, .inr ⟨rfl, .inr ⟨hash, rfl, rfl⟩⟩⟩

/-! ## Sequences of extends -/

section
variable (alg : HashAlg) (hashCompute : List UInt8 → Except Error (List UInt8))

/-- The slots after the extends, whatever they return. -/
def afterExtends (es : List ExtendCall) (slots : Slots) : Slots :=
  es.foldl (fun slots e => (e.run alg hashCompute slots).2) slots

/-- The extends of a sequence, each with the slots before it. -/
def extendVisits : List ExtendCall → Slots → List (Slots × ExtendCall)
  | [], _ => []
  | e :: es, slots => (slots, e) :: extendVisits es (e.run alg hashCompute slots).2

end

/-- What every extend keeps of its slot holds of every slot after any of them. -/
theorem afterExtends_keeps {P : SlotBuffers → Prop} {es : List ExtendCall}
    (hP : ∀ e ∈ es, ∀ slot, P slot → P (e.onSlot alg hashCompute slot).2) (h : ∀ s, P (slots s))
    (s : Nat) : P (afterExtends alg hashCompute es slots s) := by
  induction es generalizing slots with
  | nil => exact h s
  | cons e es ih =>
    refine ih (fun e he => hP e (List.mem_cons_of_mem _ he)) fun s => ?_
    show P ((e.run alg hashCompute slots).2 s)
    rw [e.run_eq]
    dsimp only
    by_cases hs : s = e.index
    · rw [hs, Function.update_self]
      exact hP e List.mem_cons_self _ (h _)
    · rw [Function.update_of_ne hs]
      exact h s

/-- The slots before an extend of a sequence are those after some extends. -/
theorem mem_extendVisits {es : List ExtendCall} {v : Slots × ExtendCall}
    (h : v ∈ extendVisits alg hashCompute es slots) :
    ∃ es', v.1 = afterExtends alg hashCompute es' slots := by
  induction es generalizing slots with
  | nil => exact absurd h List.not_mem_nil
  | cons e es ih =>
    rcases List.mem_cons.mp h with rfl | h
    · exact ⟨[], rfl⟩
    · obtain ⟨es', hv⟩ := ih h
      exact ⟨e :: es', hv⟩

/-- The arguments that the partition calls an extend with. -/
structure ExtendCall.Valid (e : ExtendCall) : Prop where
  signerId : e.signerId.length = signerIdMaxSize
  signerIdSize_ge : signerIdMinSize ≤ e.signerIdSize
  signerIdSize_le : e.signerIdSize ≤ signerIdMaxSize
  versionSize_le : e.versionSize ≤ versionMaxSize
  measurementAlgo_lt : e.measurementAlgo < 2 ^ 32
  swTypeSize_le : e.swTypeSize ≤ swTypeMaxSize

/-- The extend of a request. -/
def callOf (msg : Msg) : ExtendCall where
  index := (extendIovec msg).index
  signerId := memcpy (zeros signerIdMaxSize) (msg.inVec 1)
  signerIdSize := msg.inSize 1
  version := memcpy (zeros versionMaxSize) (msg.inVec 2)
  versionSize := msg.inSize 2 % 2 ^ 8
  measurementAlgo := (extendIovec msg).measurementAlgo
  swType := (extendIovec msg).swType
  swTypeSize := (extendIovec msg).swTypeSize
  measurementValue := memcpy (zeros measurementValueMaxSize) (msg.inVec 3)
  measurementValueSize := msg.inSize 3
  lockMeasurement := (extendIovec msg).lockMeasurement

theorem ExtendSizes.valid (h : ExtendSizes msg) : (callOf msg).Valid := by
  have hz := h.sizes
  have hlen : (zeros signerIdMaxSize).length = signerIdMaxSize := List.length_replicate
  have hsize : (msg.inVec 1).length = msg.inSize 1 := rfl
  unfold ExtendSizesOk at hz
  exact ⟨(memcpy_length (by omega)).trans hlen, show signerIdMinSize ≤ msg.inSize 1 by omega,
    show msg.inSize 1 ≤ signerIdMaxSize by omega,
    (Nat.mod_le _ _).trans (show msg.inSize 2 ≤ versionMaxSize by omega), field_lt _ _ _,
    show (extendIovec msg).swTypeSize ≤ swTypeMaxSize by omega⟩

theorem extendMeasurement_run (h : ExtendSizes msg) :
    (extendMeasurement alg hashCompute slots msg .start).1 =
        ((callOf msg).run alg hashCompute slots).1 ∧
      (extendMeasurement alg hashCompute slots msg .start).2.1 =
        ((callOf msg).run alg hashCompute slots).2 := extendMeasurement_of_sizes h

/-- A message asks for one valid extend at most. -/
theorem served_afterExtends (alg : HashAlg) (hashCompute : List UInt8 → Except Error (List UInt8))
    (slots : Slots) (msg : Msg) : ∃ es, (∀ e ∈ es, e.Valid) ∧
      served alg hashCompute slots msg = afterExtends alg hashCompute es slots := by
  by_cases ht : msg.type = tfmMeasuredBootExtend
  · obtain ⟨evs, he⟩ := handle_extend ht
    unfold served
    rw [he]
    by_cases hs : ExtendSizes msg
    · refine ⟨[callOf msg], fun e he => ?_, (extendMeasurement_run hs).2⟩
      obtain rfl := List.mem_singleton.mp he
      exact hs.valid
    · exact ⟨[], fun e he => absurd he List.not_mem_nil, (extendMeasurement_of_not_sizes hs).2⟩
  · exact ⟨[], fun e he => absurd he List.not_mem_nil, served_of_ne ht⟩

theorem strnlen_le (bs : List UInt8) : strnlen bs ≤ bs.length := (List.takeWhile_prefix _).length_le

theorem extendAt_valid {pos : Nat} (h : PairSizes b mem pos) : (extendAt b mem pos).Valid := by
  unfold PairSizes at h
  exact ⟨b.signerId_length _, show _ ≤ (metadataAt b mem pos).signerIdSize by omega,
    show (metadataAt b mem pos).signerIdSize ≤ _ by omega,
    (strnlen_le _).trans (b.swVersion_le _), b.measurementType_lt _, (strnlen_le _).trans (b.swType_le _)⟩

/-- The boot data asks for valid extends only. -/
theorem collectLoop_afterExtends {n pos stop : Nat} {status : Reply} {c : Collected}
    {r : Reply × Collected} (hr : collectLoop b alg hashCompute mem n pos stop status c = some r) :
    ∃ es, (∀ e ∈ es, e.Valid) ∧ r.2.slots = afterExtends alg hashCompute es c.slots := by
  induction n generalizing pos status c with
  | zero =>
    unfold collectLoop at hr
    split_ifs at hr
    cases hr
    exact ⟨[], fun e he => absurd he List.not_mem_nil, rfl⟩
  | succ n ih =>
    unfold collectLoop at hr
    split_ifs at hr
    · have hround : ∃ es, (∀ e ∈ es, e.Valid) ∧ (collectRound b alg hashCompute mem pos c).2.slots =
          afterExtends alg hashCompute es c.slots := by
        obtain ⟨_, he⟩ | ⟨_, _, he⟩ | ⟨_, _, _, he⟩ | ⟨_, _, hs, he⟩ :=
          collectRound_cases b alg hashCompute mem pos c
        · exact ⟨[], fun e he => absurd he List.not_mem_nil, by rw [he]; rfl⟩
        · exact ⟨[], fun e he => absurd he List.not_mem_nil, by rw [he]; rfl⟩
        · exact ⟨[], fun e he => absurd he List.not_mem_nil, by rw [he]; rfl⟩
        · refine ⟨[extendAt b mem pos], fun e he => ?_, by rw [he]; rfl⟩
          obtain rfl := List.mem_singleton.mp he
          exact extendAt_valid hs
      obtain ⟨es, hes, hslots⟩ := hround
      generalize collectRound b alg hashCompute mem pos c = round at hr hslots
      obtain ⟨_ | _, c'⟩ := round
      · cases hr
        exact ⟨es, hes, hslots⟩
      · obtain ⟨es', hes', hslots'⟩ := ih hr
        refine ⟨es ++ es', List.forall_mem_append.mpr ⟨hes, hes'⟩, ?_⟩
        have hslots : c'.slots = afterExtends alg hashCompute es c.slots := hslots
        unfold afterExtends at hslots hslots' ⊢
        rw [List.foldl_append, ← hslots]
        exact hslots'
    · cases hr
      exact ⟨[], fun e he => absurd he List.not_mem_nil, rfl⟩

/-- The slots when the partition begins to take requests: with or without the measurements of the
earlier boot stages. A parse that fails ends in a panic. -/
inductive Started (b : BootStatus) (alg : HashAlg)
    (hashCompute : List UInt8 → Except Error (List UInt8)) : Slots → Prop
  | initial : Started b alg hashCompute initialiseAllMeasurements
  | boot {mem : Memory} {n : Nat} {c : Collected}
    (collected : collectSharedMeasurements b alg hashCompute mem n initialiseAllMeasurements =
      some (.ok (), c)) : Started b alg hashCompute c.slots

/-- Every state of the service comes from valid extends. -/
theorem Started.afterExtends (h : Started b alg hashCompute slots) (msgs : List Msg) :
    ∃ es, (∀ e ∈ es, e.Valid) ∧ serve alg hashCompute msgs slots =
      Service.afterExtends alg hashCompute es initialiseAllMeasurements := by
  induction msgs using List.reverseRecOn with
  | nil =>
    cases h with
    | initial => exact ⟨[], fun e he => absurd he List.not_mem_nil, rfl⟩
    | @boot mem n c hc =>
      unfold collectSharedMeasurements at hc
      split_ifs at hc
      · cases hc
      · exact collectLoop_afterExtends hc
  | append_singleton msgs msg ih =>
    obtain ⟨es, hes, hslots⟩ := ih
    obtain ⟨es', hes', hserved⟩ := served_afterExtends alg hashCompute
      (serve alg hashCompute msgs slots) msg
    refine ⟨es ++ es', List.forall_mem_append.mpr ⟨hes, hes'⟩, ?_⟩
    unfold serve at hslots hserved ⊢
    unfold Service.afterExtends at hslots hserved ⊢
    rw [List.foldl_append, List.foldl_append, ← hslots]
    exact hserved

/-! ## Sizes -/

/-- The sizes of a slot are those of its buffers at most. -/
structure SlotBuffers.InRange (slot : SlotBuffers) : Prop where
  signerId : slot.metadata.signerId.length = signerIdMaxSize
  signerIdSize_le : slot.metadata.signerIdSize ≤ signerIdMaxSize
  version : slot.metadata.version.length = versionMaxSize
  versionSize_le : slot.metadata.versionSize ≤ versionMaxSize
  measurementAlgo_lt : slot.metadata.measurementAlgo < 2 ^ 32
  swType : slot.metadata.swType.length = swTypeMaxSize
  swTypeSize_le : slot.metadata.swTypeSize ≤ swTypeMaxSize
  hashBufSize_le : slot.value.hashBufSize ≤ slot.value.hashBuf.length

theorem inRange_initial (s : Nat) : (initialiseAllMeasurements s).InRange :=
  ⟨rfl, Nat.zero_le _, rfl, Nat.zero_le _, Nat.two_pow_pos 32, rfl, Nat.zero_le _, Nat.zero_le _⟩

/-- A copy of at most `n` bytes keeps the length of its buffer. -/
theorem memcpy_take_length {dst src : List UInt8} {n max : Nat} (hd : dst.length = max)
    (hn : n ≤ max) : (memcpy dst (src.take n)).length = max :=
  (memcpy_length (((List.length_take_le _ _).trans hn).trans_eq hd.symm)).trans hd

theorem SlotBuffers.InRange.opened (h : slot.InRange) (he : e.Valid) : (e.opened slot).InRange := by
  unfold ExtendCall.opened
  split_ifs
  · exact ⟨h.signerId, h.signerIdSize_le, rfl, Nat.zero_le _, h.measurementAlgo_lt, rfl,
      Nat.zero_le _, h.hashBufSize_le⟩
  · exact ⟨memcpy_take_length h.signerId he.signerIdSize_le, he.signerIdSize_le,
      memcpy_take_length h.version he.versionSize_le, he.versionSize_le, he.measurementAlgo_lt,
      memcpy_take_length h.swType he.swTypeSize_le, he.swTypeSize_le, h.hashBufSize_le⟩

theorem SlotBuffers.InRange.onSlot (h : slot.InRange) (he : e.Valid) :
    (e.onSlot alg hashCompute slot).2.InRange := by
  obtain ⟨_, hr⟩ | ⟨_, ⟨_, hr⟩ | ⟨_, ⟨err, _, hr⟩ | ⟨hash, _, hr⟩⟩⟩ :=
    e.onSlot_cases alg hashCompute slot
  · exact hr ▸ h
  · exact hr ▸ h
  · exact hr ▸ h.opened he
  · have ho := h.opened he
    have hsize : hash.length ≤ (memcpy (e.opened slot).value.hashBuf hash).length := by
      unfold memcpy
      rw [List.length_append]
      exact Nat.le_add_right _ _
    rw [hr]
    unfold ExtendCall.closed
    split_ifs <;>
    exact ⟨ho.signerId, ho.signerIdSize_le, ho.version, ho.versionSize_le, ho.measurementAlgo_lt,
      ho.swType, ho.swTypeSize_le, hsize⟩

theorem Started.inRange (h : Started b alg hashCompute slots) (msgs : List Msg) (s : Nat) :
    (serve alg hashCompute msgs slots s).InRange := by
  obtain ⟨es, hes, hslots⟩ := h.afterExtends msgs
  rw [hslots]
  exact afterExtends_keeps (fun e he slot h => h.onSlot (hes e he)) inRange_initial s

end MeasuredBoot.Service
