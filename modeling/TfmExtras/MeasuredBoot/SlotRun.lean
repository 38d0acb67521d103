import TfmExtras.MeasuredBoot.SlotFold

/-! Runs of the Measured Boot service: after any messages, every slot holds what its accepted
extends say, and a read returns it. -/

namespace MeasuredBoot.Service
open Bytes Ipc

variable {alg : HashAlg} {hashCompute : List UInt8 → Except Error (List UInt8)}
  {H : List UInt8 → List UInt8} {slots : Slots} {slot : SlotBuffers} {msg : Msg}

/-! ## Runs -/

section
variable (alg : HashAlg) (hashCompute : List UInt8 → Except Error (List UInt8))

/-- The slots after a message. -/
def served (slots : Slots) (msg : Msg) : Slots :=
  (measuredBootSignalHandle alg hashCompute (some msg) slots).2

/-- The slots after a sequence of messages. -/
def serve (msgs : List Msg) (slots : Slots) : Slots := msgs.foldl (served alg hashCompute) slots

/-- An extend that is answered with success. -/
def Accepted (slots : Slots) (msg : Msg) : Prop :=
  msg.type = tfmMeasuredBootExtend ∧
    (measuredBootSignalHandle alg hashCompute (some msg) slots).1.getLast? =
      some (.reply msg.handle (.ok ()))

instance (slots : Slots) (msg : Msg) : Decidable (Accepted alg hashCompute slots msg) :=
  instDecidableAnd

/-- The extends of slot `s` that are accepted, in their order. -/
def acceptedExtends (s : Nat) : List Msg → Slots → List Extend
  | [], _ => []
  | msg :: msgs, slots =>
    (if Accepted alg hashCompute slots msg ∧ (extendIovec msg).index = s then [extendOf msg]
      else []) ++ acceptedExtends s msgs (served alg hashCompute slots msg)

end

theorem extend_ne_read : tfmMeasuredBootExtend ≠ tfmMeasuredBootRead := by decide

/-- An extend is answered with the status of its handler. -/
theorem handle_extend (ht : msg.type = tfmMeasuredBootExtend) :
    ∃ evs, measuredBootSignalHandle alg hashCompute (some msg) slots =
      (evs ++ [.reply msg.handle (extendMeasurement alg hashCompute slots msg .start).1],
        (extendMeasurement alg hashCompute slots msg .start).2.1) := by
  refine ⟨.get msg.handle :: (extendMeasurement alg hashCompute slots msg .start).2.2.events, ?_⟩
  show (if _ then _ else _) = _
  rw [if_neg (ht.trans_ne extend_ne_read), if_pos ht]
  rfl

theorem accepted_iff :
    Accepted alg hashCompute slots msg ↔ msg.type = tfmMeasuredBootExtend ∧
      (extendMeasurement alg hashCompute slots msg .start).1 = .ok () := by
  refine and_congr_right fun ht => ?_
  obtain ⟨evs, he⟩ := handle_extend ht
  rw [he, List.getLast?_concat, Option.some_inj, Event.reply.injEq]
  exact and_iff_right rfl

theorem served_of_ne (ht : msg.type ≠ tfmMeasuredBootExtend) :
    served alg hashCompute slots msg = slots := by
  show (if _ then _ else _ : _ × _).2 = _
  split_ifs <;> rfl

/-! ## One message -/

/-- A message that is not an accepted extend changes nothing. -/
theorem served_of_not_accepted (hH : ∀ bs, hashCompute bs = .ok (H bs))
    (h : ¬ Accepted alg hashCompute slots msg) : served alg hashCompute slots msg = slots := by
  by_cases ht : msg.type = tfmMeasuredBootExtend
  · obtain ⟨evs, he⟩ := handle_extend ht
    unfold served
    rw [he]
    show (extendMeasurement alg hashCompute slots msg .start).2.1 = slots
    have hne : (extendMeasurement alg hashCompute slots msg .start).1 ≠ .ok () :=
      fun hok => h (accepted_iff.mpr ⟨ht, hok⟩)
    by_cases hs : ExtendSizes msg
    · obtain ⟨h1, h2⟩ := extendMeasurement_of_sizes hs
      rw [h1, extendSlot_eq hH] at hne
      rw [h2, extendSlot_eq hH]
      split_ifs at hne ⊢
      · exact Function.update_eq_self _ _
      · exact Function.update_eq_self _ _
      · exact absurd rfl hne
    · exact (extendMeasurement_of_not_sizes hs).2
  · exact served_of_ne ht

/-- What an accepted extend does. -/
theorem Accepted.spec (hH : ∀ bs, hashCompute bs = .ok (H bs))
    (h : Accepted alg hashCompute slots msg) :
    ExtendSizes msg ∧ (slots (extendIovec msg).index).isLocked = false ∧
      served alg hashCompute slots msg = Function.update slots (extendIovec msg).index
        (extendedSlot alg H msg (slots (extendIovec msg).index)) := by
  obtain ⟨ht, hok⟩ := accepted_iff.mp h
  have hs : ExtendSizes msg := not_not.mp fun hs => (extendMeasurement_of_not_sizes hs).1 hok
  obtain ⟨h1, h2⟩ := extendMeasurement_of_sizes hs
  obtain ⟨evs, he⟩ := handle_extend ht
  rw [h1, extendSlot_eq hH] at hok
  refine ⟨hs, ?_⟩
  unfold served
  rw [he]
  show _ ∧ (extendMeasurement alg hashCompute slots msg .start).2.1 = _
  rw [h2, extendSlot_eq hH]
  split_ifs at hok ⊢ with hp hl
  exact ⟨Bool.eq_false_iff.mpr hl, rfl⟩

/-- An extend leaves the other slots alone. -/
theorem served_other (hH : ∀ bs, hashCompute bs = .ok (H bs)) {s : Nat}
    (hne : (extendIovec msg).index ≠ s) : served alg hashCompute slots msg s = slots s := by
  by_cases h : Accepted alg hashCompute slots msg
  · rw [(h.spec hH).2.2]
    exact Function.update_of_ne hne.symm _ _
  · rw [served_of_not_accepted hH h]

/-! ## Any number of messages -/

theorem Follows.served {s : Nat} {es : List Extend} (hH : ∀ bs, hashCompute bs = .ok (H bs))
    (hlen : ∀ bs, (H bs).length = alg.measurementValueSize) (h : Follows alg H es (slots s)) :
    Follows alg H (es ++ if Accepted alg hashCompute slots msg ∧ (extendIovec msg).index = s
      then [extendOf msg] else []) (served alg hashCompute slots msg s) := by
  split_ifs with ha
  · obtain ⟨ha, rfl⟩ := ha
    obtain ⟨hs, hu, he⟩ := ha.spec hH
    rw [he, Function.update_self]
    exact h.extended hs hlen hu
  · rw [List.append_nil]
    rcases not_and_or.mp ha with ha | hne
    · rw [served_of_not_accepted hH ha]
      exact h
    · rw [served_other hH hne]
      exact h

theorem Follows.serve {s : Nat} (hH : ∀ bs, hashCompute bs = .ok (H bs))
    (hlen : ∀ bs, (H bs).length = alg.measurementValueSize) (msgs : List Msg) :
    ∀ {es : List Extend} {slots : Slots}, Follows alg H es (slots s) →
      Follows alg H (es ++ acceptedExtends alg hashCompute s msgs slots)
        (serve alg hashCompute msgs slots s) := by
  induction msgs with
  | nil =>
    intro es slots h
    exact (List.append_nil es).symm ▸ h
  | cons msg msgs ih =>
    intro es slots h
    have hserved : Follows alg H (es ++ if Accepted alg hashCompute slots msg ∧
        (extendIovec msg).index = s then [extendOf msg] else [])
        (Service.served alg hashCompute slots msg s) := h.served hH hlen
    have hrest := ih hserved
    rwa [List.append_assoc] at hrest

/-! ## Reads -/

theorem Follows.lengths {es : List Extend} (h : Follows alg H es slot) :
    (slot.view.measurement.hashBuf.length = slot.value.hashBufSize ∧
      slot.view.measurement.signerId.length = slot.metadata.signerIdSize) ∧
    slot.view.measurement.version.length = slot.metadata.versionSize ∧
      slot.view.measurement.swType.length = slot.metadata.swTypeSize := by
  unfold SlotBuffers.view
  dsimp only
  rw [List.length_take, List.length_take, List.length_take, List.length_take, h.hashBuf,
    h.signerId, h.version, h.swType]
  exact ⟨⟨min_eq_left h.hashBufSize, min_eq_left h.signerIdSize⟩, min_eq_left h.versionSize,
    min_eq_left h.swTypeSize⟩

theorem Follows.sizesAccepted {es : List Extend} (h : Follows alg H es slot)
    (hp : slot.view.isPopulated) : slot.view.measurement.SizesAccepted := by
  have hn : es ≠ [] := h.isPopulated.mp hp
  obtain ⟨⟨hv, hs⟩, hve, hsw⟩ := h.lengths
  exact ⟨(h.signerId_ge hn).trans_eq hs.symm, hs.trans_le h.signerIdSize,
    hve.trans_le h.versionSize, hsw.trans_le h.swTypeSize, (h.hashBuf_ge hn).trans_eq hv.symm,
    hv.trans_le h.hashBufSize⟩

/-- The slots without the unused bytes of their buffers. -/
def views (slots : Slots) (es : Nat → List Extend)
    (h : ∀ s, Follows alg H (es s) (slots s)) : MeasurementSlots :=
  ⟨fun s => (slots s).view, fun s hp => (h s).sizesAccepted hp⟩

/-- Reading the buffers is reading the bytes in use. -/
theorem measuredBootReadMeasurement_views {es : Nat → List Extend}
    (h : ∀ s, Follows alg H (es s) (slots s)) (index a b c d : Nat) :
    measuredBootReadMeasurement slots index a b c d =
      MeasuredBoot.measuredBootReadMeasurement (views slots es h) index a b c d := by
  obtain ⟨⟨hv, hs⟩, hve, hsw⟩ := (h index).lengths
  unfold measuredBootReadMeasurement MeasuredBoot.measuredBootReadMeasurement
  dsimp only [views]
  rw [hv, hs, hve, hsw]
  rfl

/-- A read of slot `s` whose buffers are large enough for `m`. -/
structure ReadFits (msg : Msg) (s : Nat) (m : Measurement) : Prop where
  type : msg.type = tfmMeasuredBootRead
  inSize : msg.inSize 0 = readIovecInSize
  outSize : msg.outSize 0 = readIovecOutSize
  index : (ReadIovecIn.decode (msg.inVec 0)).index = s
  signerId : m.signerId.length ≤ msg.outSize 1
  version : m.version.length ≤ (ReadIovecIn.decode (msg.inVec 0)).versionSize
  swType : m.swType.length ≤ (ReadIovecIn.decode (msg.inVec 0)).swTypeSize
  hashBuf : m.hashBuf.length ≤ msg.outSize 2

/-- What a read that succeeds does. -/
def readEvents (handle : Nat) (r : Reading) : List (Event Reply) :=
  [.get handle, .read 0 readIovecInSize readIovecInSize,
    .write 0 (ReadIovecOut.ofReading r).encode, .write 1 r.measurement.signerId,
    .write 2 r.measurement.hashBuf, .reply handle (.ok ())]

theorem Follows.read {s : Nat} {es : List Extend} (h : Follows alg H es (slots s))
    (hs : s < numOfMeasurementSlots) (hn : es ≠ []) (hr : ReadFits msg s (slots s).view.measurement) :
    (measuredBootSignalHandle alg hashCompute (some msg) slots).1 =
      readEvents msg.handle ⟨(slots s).view.measurement, (slots s).view.isLocked⟩ := by
  obtain ⟨ht, hin, hout, hindex, hsig, hver, hsw, hval⟩ := hr
  obtain ⟨⟨hv, hl⟩, hve, hst⟩ := h.lengths
  have hread : measuredBootReadMeasurement slots s (msg.outSize 1)
      (ReadIovecIn.decode (msg.inVec 0)).versionSize (ReadIovecIn.decode (msg.inVec 0)).swTypeSize
      (msg.outSize 2) = .ok ⟨(slots s).view.measurement, (slots s).view.isLocked⟩ := by
    unfold measuredBootReadMeasurement
    dsimp only
    rw [if_neg (by exact Bool.false_ne_true), if_pos (h.isPopulated.mpr hn), if_neg (by omega)]
    rfl
  have hl : ¬ (msg.inVec 0).length ≠ readIovecInSize := not_not_intro hin
  unfold measuredBootSignalHandle
  dsimp only
  rw [if_pos ht]
  unfold readMeasurements
  rw [if_neg (by rw [hin, hout]; decide), Io.psaRead_whole rfl hin]
  dsimp only
  rw [if_neg hl, hindex, if_neg (Nat.not_le_of_lt hs), hread]
  rfl

/-! ## The service -/

/-- What the service keeps, after the messages `msgs`. -/
structure KeepsSlots (alg : HashAlg) (hashCompute : List UInt8 → Except Error (List UInt8))
    (H : List UInt8 → List UInt8) (msgs : List Msg) : Prop where
  slot : ∀ s < numOfMeasurementSlots,
    (serve alg hashCompute msgs initialiseAllMeasurements s).view =
      slotOf alg H (acceptedExtends alg hashCompute s msgs initialiseAllMeasurements)
  lock : ∀ s < numOfMeasurementSlots,
    ∀ e ∈ (acceptedExtends alg hashCompute s msgs initialiseAllMeasurements).dropLast,
      e.lock = false
  rejected : ∀ msg, ¬ Accepted alg hashCompute
      (serve alg hashCompute msgs initialiseAllMeasurements) msg →
    served alg hashCompute (serve alg hashCompute msgs initialiseAllMeasurements) msg =
      serve alg hashCompute msgs initialiseAllMeasurements
  other : ∀ msg s, (extendIovec msg).index ≠ s →
    served alg hashCompute (serve alg hashCompute msgs initialiseAllMeasurements) msg s =
      serve alg hashCompute msgs initialiseAllMeasurements s
  read : ∀ s < numOfMeasurementSlots, ∀ es,
    acceptedExtends alg hashCompute s msgs initialiseAllMeasurements = es → es ≠ [] →
    ∀ msg, ReadFits msg s (slotOf alg H es).measurement →
      (measuredBootSignalHandle alg hashCompute (some msg)
        (serve alg hashCompute msgs initialiseAllMeasurements)).1 =
      readEvents msg.handle ⟨(slotOf alg H es).measurement, (slotOf alg H es).isLocked⟩

/-- After any messages, every slot is the fold of the extends accepted for it. -/
theorem serve_keepsSlots (alg : HashAlg) (hashCompute : List UInt8 → Except Error (List UInt8))
    (H : List UInt8 → List UInt8) (hH : ∀ bs, hashCompute bs = .ok (H bs))
    (hlen : ∀ bs, (H bs).length = alg.measurementValueSize) (msgs : List Msg) :
    KeepsSlots alg hashCompute H msgs := by
  have h : ∀ s, Follows alg H (acceptedExtends alg hashCompute s msgs initialiseAllMeasurements)
      (serve alg hashCompute msgs initialiseAllMeasurements s) :=
    fun s => (follows_initial alg H s).serve hH hlen msgs
  refine ⟨fun s _ => (h s).view, fun s _ => (h s).unlocked,
    fun msg => served_of_not_accepted hH, fun msg s => served_other hH, ?_⟩
  rintro s hs _ rfl hn msg hr
  rw [← (h s).view] at hr ⊢
  exact (h s).read hs hn hr

/-- SHA-256 of 64 zero bytes. -/
def sha256OfZeros : List UInt8 :=
  [0xf5, 0xa5, 0xfd, 0x42, 0xd1, 0x6a, 0x20, 0x30, 0x27, 0x98, 0xef, 0x6e,
    0xd3, 0x09, 0x97, 0x9b, 0x43, 0x00, 0x3d, 0x23, 0x20, 0xd9, 0xf0, 0xe8,
    0xea, 0x98, 0x31, 0xa9, 0x27, 0x59, 0xfb, 0x4b]

/-- An extend of slot 3 with a zero value, locking it. -/
def lockingExtend : Msg where
  type := tfmMeasuredBootExtend
  handle := 7
  clientId := 1
  inVec
    | 0 => [3, 1, 0, 0] ++ leBytes 4 0x02000009 ++ [83, 80, 77] ++ zeros 17 ++ [3, 0, 0, 0]
    | 1 => List.replicate 32 0xa5
    | 2 => [49, 46, 48]
    | 3 => zeros 32
    | _ => []
  outSize := fun _ => 0

theorem serve_keepsSlots_locked :
    (serve .sha256 (fun _ => .ok sha256OfZeros) [lockingExtend] initialiseAllMeasurements 3).view =
        ⟨true, true, false, ⟨sha256OfZeros, List.replicate 32 0xa5, [49, 46, 48], 0x02000009,
          [83, 80, 77]⟩⟩ ∧
      KeepsSlots .sha256 (fun _ => .ok sha256OfZeros) (fun _ => sha256OfZeros)
        [lockingExtend, lockingExtend] :=
  ⟨by decide +kernel, serve_keepsSlots .sha256 (fun _ => .ok sha256OfZeros)
    (fun _ => sha256OfZeros) (fun _ => rfl) (fun _ => rfl) [lockingExtend, lockingExtend]⟩

end MeasuredBoot.Service
