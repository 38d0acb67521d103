import TfmExtras.MeasuredBoot.ExtendRun

/-! The client side of the Measured Boot service: `measured_boot_api.c`. The sizes of the version
and the software type reach the partition in one byte each, so that a large buffer can look small. -/

namespace MeasuredBoot.Service
open Bytes Ipc

variable {alg : HashAlg} {hashCompute : List UInt8 → Except Error (List UInt8)} {b : BootStatus}
  {slots : Slots} {slot : SlotBuffers} {e : ExtendCall}
  {index signerIdSize versionSize swTypeSize measurementValueSize : Nat}

/-! ## The structures of the messages -/

theorem slice_eq {pre mid post : List UInt8} {p n : Nat} (hp : pre.length = p)
    (hn : mid.length = n) :
    ((pre ++ (mid ++ post)).drop p).take n = mid := by
  rw [← hp, ← hn, List.drop_left, List.take_left]

theorem field_slice {pre mid post : List UInt8} {p n : Nat} (hp : pre.length = p)
    (hn : mid.length = n) : field (pre ++ (mid ++ post)) p n = leNat mid :=
  congrArg leNat (slice_eq hp hn)

def ReadIovecIn.encode (r : ReadIovecIn) : List UInt8 :=
  leBytes 1 r.index ++ (leBytes 1 r.swTypeSize ++ leBytes 1 r.versionSize)

theorem ReadIovecIn.decode_encode (r : ReadIovecIn) :
    decode r.encode = ⟨r.index % 2 ^ 8, r.swTypeSize % 2 ^ 8, r.versionSize % 2 ^ 8⟩ := by
  have h₀ : field r.encode 0 1 = r.index % 2 ^ 8 :=
    (@field_slice [] _ _ 0 1 rfl rfl).trans (leNat_leBytes 1 _)
  have h₁ : field r.encode 1 1 = r.swTypeSize % 2 ^ 8 :=
    (@field_slice (leBytes 1 r.index) _ _ 1 1 rfl rfl).trans (leNat_leBytes 1 _)
  have h₂ : field r.encode 2 1 = r.versionSize % 2 ^ 8 := by
    have he : r.encode = (leBytes 1 r.index ++ leBytes 1 r.swTypeSize) ++
        (leBytes 1 r.versionSize ++ []) := rfl
    rw [he]
    exact (field_slice rfl rfl).trans (leNat_leBytes 1 _)
  unfold decode
  rw [h₀, h₁, h₂]

def ReadIovecOut.decode (bs : List UInt8) : ReadIovecOut :=
  ⟨decide (field bs 0 1 ≠ 0), field bs 4 4, (bs.drop 8).take swTypeMaxSize, field bs 28 1,
    (bs.drop 29).take versionMaxSize, field bs 43 1⟩

/-- The answer as the client reads it. -/
theorem ReadIovecOut.decode_encode {o : ReadIovecOut} (halgo : o.measurementAlgo < 2 ^ 32)
    (hsw : o.swType.length = swTypeMaxSize) (hv : o.version.length = versionMaxSize)
    (hswLen : o.swTypeLen < 2 ^ 8) (hvLen : o.versionLen < 2 ^ 8) : decode o.encode = o := by
  obtain ⟨isLocked, algo, swType, swTypeLen, version, versionLen⟩ := o
  dsimp only at halgo hsw hv hswLen hvLen
  generalize he : encode ⟨isLocked, algo, swType, swTypeLen, version, versionLen⟩ = bs
  unfold encode at he
  dsimp only at he
  -- the fields one after the other, each after what stands before it
  have h₀ : field bs 0 1 = isLocked.toNat := by
    rw [← he]
    refine (@field_slice [] _ _ 0 1 rfl (leBytes_length 1 isLocked.toNat)).trans
      (leNat_leBytes_of_lt ?_)
    cases isLocked <;> decide
  rw [← List.append_assoc] at he
  have h₄ : field bs 4 4 = algo := by
    rw [← he]
    exact (field_slice rfl (leBytes_length 4 algo)).trans (leNat_leBytes_of_lt halgo)
  rw [← List.append_assoc] at he
  have h₈ : (bs.drop 8).take swTypeMaxSize = swType := by
    rw [← he]
    exact slice_eq rfl hsw
  rw [← List.append_assoc] at he
  have h₂₈ : field bs 28 1 = swTypeLen := by
    rw [← he]
    refine (field_slice ?_ (leBytes_length 1 swTypeLen)).trans (leNat_leBytes_of_lt hswLen)
    rw [List.length_append, hsw]
    rfl
  rw [← List.append_assoc] at he
  have h₂₉ : (bs.drop 29).take versionMaxSize = version := by
    rw [← he]
    refine slice_eq ?_ hv
    rw [List.length_append, List.length_append, hsw]
    rfl
  rw [← List.append_assoc, ← List.append_nil (leBytes 1 versionLen)] at he
  have h₄₃ : field bs 43 1 = versionLen := by
    rw [← he]
    refine (field_slice ?_ (leBytes_length 1 versionLen)).trans (leNat_leBytes_of_lt hvLen)
    rw [List.length_append, List.length_append, List.length_append, hsw, hv]
    rfl
  unfold decode
  rw [h₀, h₄, h₈, h₂₈, h₂₉, h₄₃]
  cases isLocked <;> rfl

/-! ## Reading -/

/-- The variables of the caller of a read; the buffers have at least the sizes it states. -/
structure ReadOutputs where
  signerId : List UInt8
  signerIdLen : Nat
  version : List UInt8
  versionLen : Nat
  measurementAlgo : Nat
  swType : List UInt8
  swTypeLen : Nat
  measurementValue : List UInt8
  measurementValueLen : Nat
  isLocked : Bool

/-- The bytes that are written to an output vector. -/
def bytesWritten (events : List (Event Reply)) (outvec : Nat) : List UInt8 :=
  events.flatMap fun
    | .write o data => if o = outvec then data else []
    | _ => []

/-- The message of a read. -/
def readMsg (index signerIdSize versionSize swTypeSize measurementValueSize : Nat) : Msg where
  type := tfmMeasuredBootRead
  handle := 0
  clientId := 0
  inVec
    | 0 => (ReadIovecIn.mk index swTypeSize versionSize).encode
    | _ => []
  outSize
    | 0 => readIovecOutSize
    | 1 => signerIdSize
    | 2 => measurementValueSize
    | _ => 0

/-- The second and the third output vector are the buffers of the caller. -/
def tfmMeasuredBootReadMeasurement (slots : Slots)
    (index signerIdSize versionSize swTypeSize measurementValueSize : Nat) (o : ReadOutputs) :
    Reply × ReadOutputs :=
  let (status, io) := readMeasurements slots
    (readMsg index signerIdSize versionSize swTypeSize measurementValueSize) .start
  let o := { o with
    signerId := memcpy o.signerId (bytesWritten io.events 1)
    measurementValue := memcpy o.measurementValue (bytesWritten io.events 2) }
  match status with
  | .error e => (.error e, o)
  | .ok () =>
    let readIovOut := ReadIovecOut.decode (bytesWritten io.events 0)
    (.ok (), { o with
      isLocked := readIovOut.isLocked
      measurementAlgo := readIovOut.measurementAlgo
      swTypeLen := readIovOut.swTypeLen
      versionLen := readIovOut.versionLen
      swType := memcpy o.swType (readIovOut.swType.take readIovOut.swTypeLen)
      version := memcpy o.version (readIovOut.version.take readIovOut.versionLen)
      signerIdLen := (bytesWritten io.events 1).length
      measurementValueLen := (bytesWritten io.events 2).length })

/-- The variables of the caller filled from a slot. -/
def ReadOutputs.filled (o : ReadOutputs) (slot : MeasuredBootSlot) : ReadOutputs where
  signerId := memcpy o.signerId slot.measurement.signerId
  signerIdLen := slot.measurement.signerId.length
  version := memcpy o.version slot.measurement.version
  versionLen := slot.measurement.version.length
  measurementAlgo := slot.measurement.measurementAlgo
  swType := memcpy o.swType slot.measurement.swType
  swTypeLen := slot.measurement.swType.length
  measurementValue := memcpy o.measurementValue slot.measurement.hashBuf
  measurementValueLen := slot.measurement.hashBuf.length
  isLocked := slot.isLocked

/-! ## Extending -/

structure ExtendArgs where
  index : Nat
  signerId : List UInt8
  version : List UInt8
  measurementAlgo : Nat
  swType : Option (List UInt8)
  swTypeSize : Nat
  measurementValue : List UInt8
  lockMeasurement : Bool

/-- The message of an extend. -/
def extendMsg (a : ExtendArgs) (swType : List UInt8) : Msg where
  type := tfmMeasuredBootExtend
  handle := 0
  clientId := 0
  inVec
    | 0 => leBytes 1 a.index ++ (leBytes 1 a.lockMeasurement.toNat ++ (zeros 2 ++
        (leBytes 4 a.measurementAlgo ++ (swType ++ (leBytes 1 a.swTypeSize ++ zeros 3)))))
    | 1 => a.signerId
    | 2 => a.version
    | 3 => a.measurementValue
    | _ => []
  outSize _ := 0

section
variable (alg : HashAlg) (hashCompute : List UInt8 → Except Error (List UInt8))

/-- A software type of no bytes may be a null pointer. -/
def tfmMeasuredBootExtendMeasurement (a : ExtendArgs) (slots : Slots) : Reply × Slots :=
  let psaCall := fun swType =>
    let (status, slots, _) := extendMeasurement alg hashCompute slots (extendMsg a swType) .start
    (status, slots)
  match a.swType with
  | none => psaCall (zeros swTypeMaxSize)
  | some swType =>
    if a.swTypeSize > swTypeMaxSize then (.error .invalidArgument, slots)
    else psaCall (memcpy (zeros swTypeMaxSize) (swType.take a.swTypeSize))

/-- The slots after the extends of clients. -/
def clientExtends (as : List ExtendArgs) (slots : Slots) : Slots :=
  as.foldl (fun slots a => (tfmMeasuredBootExtendMeasurement alg hashCompute a slots).2) slots

end

/-- The extends of clients are messages to the partition. -/
theorem clientExtends_serve (as : List ExtendArgs) (slots : Slots) :
    ∃ msgs, clientExtends alg hashCompute as slots = serve alg hashCompute msgs slots := by
  induction as generalizing slots with
  | nil => exact ⟨[], rfl⟩
  | cons a as ih =>
    have hcall : ∀ swType,
        (extendMeasurement alg hashCompute slots (extendMsg a swType) .start).2.1 =
          served alg hashCompute slots (extendMsg a swType) := fun swType => by
      obtain ⟨evs, he⟩ := @handle_extend alg hashCompute slots (extendMsg a swType) rfl
      unfold served
      rw [he]
    have hone : ∃ msgs, (tfmMeasuredBootExtendMeasurement alg hashCompute a slots).2 =
        serve alg hashCompute msgs slots := by
      unfold tfmMeasuredBootExtendMeasurement
      cases a.swType with
      | none => exact ⟨[_], hcall _⟩
      | some swType =>
        dsimp only
        split_ifs
        · exact ⟨[], rfl⟩
        · exact ⟨[_], hcall _⟩
    obtain ⟨msgs, hmsgs⟩ := hone
    obtain ⟨msgs', hmsgs'⟩ := ih (serve alg hashCompute msgs slots)
    refine ⟨msgs ++ msgs', ?_⟩
    unfold clientExtends serve at hmsgs hmsgs' ⊢
    rw [List.foldl_cons, hmsgs, List.foldl_append]
    exact hmsgs'

/-! ## Round trips -/

/-- Each size is at least the length that is stored. -/
def LengthsFit (m : Measurement)
    (signerIdSize versionSize swTypeSize measurementValueSize : Nat) : Prop :=
  m.signerId.length ≤ signerIdSize ∧ m.version.length ≤ versionSize ∧
    m.swType.length ≤ swTypeSize ∧ m.hashBuf.length ≤ measurementValueSize

/-- A read returns the slot as it is stored if the buffers are large enough, and fails without a
write if they are not. -/
structure RoundTrips (slots : Slots)
    (index signerIdSize versionSize swTypeSize measurementValueSize : Nat) : Prop where
  large : LengthsFit (slots index).view.measurement signerIdSize versionSize swTypeSize
    measurementValueSize → ∀ o, tfmMeasuredBootReadMeasurement slots index signerIdSize versionSize
      swTypeSize measurementValueSize o = (.ok (), o.filled (slots index).view)
  small : ¬ LengthsFit (slots index).view.measurement signerIdSize versionSize swTypeSize
    measurementValueSize → ∀ o, ∃ e, tfmMeasuredBootReadMeasurement slots index signerIdSize
      versionSize swTypeSize measurementValueSize o = (.error e, o)

theorem SlotBuffers.InRange.view_length (h : slot.InRange) :
    slot.view.measurement.signerId.length = slot.metadata.signerIdSize ∧
      slot.view.measurement.version.length = slot.metadata.versionSize ∧
      slot.view.measurement.swType.length = slot.metadata.swTypeSize ∧
      slot.view.measurement.hashBuf.length = slot.value.hashBufSize := by
  refine ⟨?_, ?_, ?_, ?_⟩
  · exact List.length_take_of_le (h.signerId.symm ▸ h.signerIdSize_le)
  · exact List.length_take_of_le (h.version.symm ▸ h.versionSize_le)
  · exact List.length_take_of_le (h.swType.symm ▸ h.swTypeSize_le)
  · exact List.length_take_of_le h.hashBufSize_le

/-- The read in the partition, for a slot that is occupied. -/
theorem measuredBootReadMeasurement_eq (h : (slots index).InRange)
    (hp : (slots index).isPopulated = true) :
    (LengthsFit (slots index).view.measurement signerIdSize versionSize swTypeSize
        measurementValueSize →
      measuredBootReadMeasurement slots index signerIdSize versionSize swTypeSize
        measurementValueSize = .ok ⟨(slots index).view.measurement, (slots index).view.isLocked⟩) ∧
    (¬ LengthsFit (slots index).view.measurement signerIdSize versionSize swTypeSize
        measurementValueSize →
      measuredBootReadMeasurement slots index signerIdSize versionSize swTypeSize
        measurementValueSize = .error .invalidArgument) := by
  obtain ⟨h₁, h₂, h₃, h₄⟩ := h.view_length
  unfold LengthsFit measuredBootReadMeasurement
  dsimp only
  rw [h₁, h₂, h₃, h₄, if_neg (by exact Bool.false_ne_true), if_pos hp]
  refine ⟨fun hf => ?_, fun hf => ?_⟩
  · rw [if_neg (by omega)]
    rfl
  · rw [if_pos (by omega)]

/-- What the partition does with the message of a read. -/
theorem readMeasurements_eq (hi : index < numOfMeasurementSlots) :
    ∃ io : Io Reply, (∀ o, bytesWritten io.events o = []) ∧
      readMeasurements slots (readMsg index signerIdSize versionSize swTypeSize
        measurementValueSize) .start =
      match measuredBootReadMeasurement slots index signerIdSize (versionSize % 2 ^ 8)
          (swTypeSize % 2 ^ 8) measurementValueSize with
      | .error e => (.error e, io)
      | .ok r => (.ok (), ((io.psaWrite 0 (ReadIovecOut.ofReading r).encode).psaWrite 1
          r.measurement.signerId).psaWrite 2 r.measurement.hashBuf) := by
  have hsize : (readMsg index signerIdSize versionSize swTypeSize measurementValueSize).inSize 0 =
      readIovecInSize := rfl
  have hindex : index % 2 ^ 8 = index := Nat.mod_eq_of_lt (hi.trans (by decide))
  have hdec : ReadIovecIn.decode ((readMsg index signerIdSize versionSize swTypeSize
      measurementValueSize).inVec 0) = ⟨index, swTypeSize % 2 ^ 8, versionSize % 2 ^ 8⟩ :=
    (ReadIovecIn.decode_encode _).trans (by rw [hindex])
  refine ⟨((.start : Io Reply).psaRead (readMsg index signerIdSize versionSize swTypeSize
    measurementValueSize) 0 readIovecInSize readIovecInSize).2, fun o => rfl, ?_⟩
  have hl : ¬ ((readMsg index signerIdSize versionSize swTypeSize measurementValueSize).inVec
    0).length ≠ readIovecInSize := not_not_intro hsize
  unfold readMeasurements
  rw [if_neg (by exact fun h => h.elim (fun h => h rfl) fun h => h rfl), Io.psaRead_whole rfl hsize]
  dsimp only
  rw [if_neg hl, hdec, if_neg (Nat.not_le_of_lt hi)]
  rfl

theorem bytesWritten_psaWrite (io : Io Reply) (o o' : Nat) (data : List UInt8) :
    bytesWritten (io.psaWrite o data).events o' =
      bytesWritten io.events o' ++ if o = o' then data else [] := by
  show (io.events ++ [Event.write o data]).flatMap _ = _
  rw [List.flatMap_append, List.flatMap_singleton]
  rfl

/-- Each output vector holds what was written to it. -/
theorem bytesWritten_answer {io : Io Reply} (hio : ∀ o, bytesWritten io.events o = [])
    (out signerId value : List UInt8) :
    let evs := (((io.psaWrite 0 out).psaWrite 1 signerId).psaWrite 2 value).events
    bytesWritten evs 0 = out ∧ bytesWritten evs 1 = signerId ∧ bytesWritten evs 2 = value := by
  simp [bytesWritten_psaWrite, hio]

theorem ReadIovecOut.decode_ofReading {r : Reading} (halgo : r.measurement.measurementAlgo < 2 ^ 32)
    (hv : r.measurement.version.length ≤ versionMaxSize)
    (hs : r.measurement.swType.length ≤ swTypeMaxSize) :
    decode (ofReading r).encode = ofReading r := by
  have hzv : (zeros versionMaxSize).length = versionMaxSize := List.length_replicate
  have hzs : (zeros swTypeMaxSize).length = swTypeMaxSize := List.length_replicate
  exact decode_encode halgo ((memcpy_length (hs.trans_eq hzs.symm)).trans hzs)
    ((memcpy_length (hv.trans_eq hzv.symm)).trans hzv) (hs.trans_lt (by decide))
    (hv.trans_lt (by decide))

section
variable (h : (slots index).InRange) (hi : index < numOfMeasurementSlots)
  (hp : (slots index).isPopulated = true) (o : ReadOutputs)
include h hi hp

/-- The sizes that arrive are large enough. -/
theorem read_of_fits (hf : LengthsFit (slots index).view.measurement signerIdSize
      (versionSize % 2 ^ 8) (swTypeSize % 2 ^ 8) measurementValueSize) :
    tfmMeasuredBootReadMeasurement slots index signerIdSize versionSize swTypeSize
      measurementValueSize o = (.ok (), o.filled (slots index).view) := by
  obtain ⟨io, hio, hread⟩ := @readMeasurements_eq slots index signerIdSize versionSize swTypeSize
    measurementValueSize hi
  rw [(measuredBootReadMeasurement_eq h hp).1 hf] at hread
  have hdec : ReadIovecOut.decode (ReadIovecOut.ofReading
      ⟨(slots index).view.measurement, (slots index).view.isLocked⟩).encode = _ :=
    ReadIovecOut.decode_ofReading h.measurementAlgo_lt
      (h.view_length.2.1.trans_le h.versionSize_le) (h.view_length.2.2.1.trans_le h.swTypeSize_le)
  have hsw : (memcpy (zeros swTypeMaxSize) (slots index).view.measurement.swType).take
      (slots index).view.measurement.swType.length = (slots index).view.measurement.swType :=
    memcpy_take rfl
  have hv : (memcpy (zeros versionMaxSize) (slots index).view.measurement.version).take
      (slots index).view.measurement.version.length = (slots index).view.measurement.version :=
    memcpy_take rfl
  unfold tfmMeasuredBootReadMeasurement
  rw [hread]
  dsimp only
  rw [(bytesWritten_answer hio _ _ _).1, (bytesWritten_answer hio _ _ _).2.1,
    (bytesWritten_answer hio _ _ _).2.2, hdec]
  unfold ReadIovecOut.ofReading ReadOutputs.filled
  dsimp only
  rw [hsw, hv]

/-- They are not: nothing is written. -/
theorem read_of_not_fits (hf : ¬ LengthsFit (slots index).view.measurement signerIdSize
      (versionSize % 2 ^ 8) (swTypeSize % 2 ^ 8) measurementValueSize) :
    tfmMeasuredBootReadMeasurement slots index signerIdSize versionSize swTypeSize
      measurementValueSize o = (.error .invalidArgument, o) := by
  obtain ⟨io, hio, hread⟩ := @readMeasurements_eq slots index signerIdSize versionSize swTypeSize
    measurementValueSize hi
  rw [(measuredBootReadMeasurement_eq h hp).2 hf] at hread
  unfold tfmMeasuredBootReadMeasurement
  rw [hread]
  dsimp only
  rw [hio, hio]
  rfl

end

/-- The buffers are large enough, and the byte that carries the size of one of them is not. -/
def SizeWraps (slots : Slots)
    (index signerIdSize versionSize swTypeSize measurementValueSize : Nat) : Prop :=
  LengthsFit (slots index).view.measurement signerIdSize versionSize swTypeSize
      measurementValueSize ∧
    (versionSize % 2 ^ 8 < (slots index).view.measurement.version.length ∨
      swTypeSize % 2 ^ 8 < (slots index).view.measurement.swType.length)

/-- After any extends of clients, a read of an occupied slot returns what is stored, or fails
without a write, exactly when neither size wraps around below the stored length. -/
theorem readMeasurement_roundTrips_iff (alg : HashAlg)
    (hashCompute : List UInt8 → Except Error (List UInt8)) {start : Slots}
    (hstart : Started b alg hashCompute start) (as : List ExtendArgs)
    (index signerIdSize versionSize swTypeSize measurementValueSize : Nat)
    (hi : index < numOfMeasurementSlots)
    (hp : (clientExtends alg hashCompute as start index).isPopulated = true) :
    RoundTrips (clientExtends alg hashCompute as start) index signerIdSize versionSize swTypeSize
        measurementValueSize ↔
      ¬ SizeWraps (clientExtends alg hashCompute as start) index signerIdSize versionSize swTypeSize
        measurementValueSize := by
  obtain ⟨msgs, hmsgs⟩ := @clientExtends_serve alg hashCompute as start
  rw [hmsgs] at hp ⊢
  have h := hstart.inRange msgs index
  have hv := Nat.mod_le versionSize (2 ^ 8)
  have hs := Nat.mod_le swTypeSize (2 ^ 8)
  constructor
  · rintro hr ⟨hf, hwraps⟩
    have o : ReadOutputs := ⟨[], 0, [], 0, 0, [], 0, [], 0, false⟩
    have hno : ¬ LengthsFit (serve alg hashCompute msgs start index).view.measurement signerIdSize
        (versionSize % 2 ^ 8) (swTypeSize % 2 ^ 8) measurementValueSize := fun hf' => by
      rcases hwraps with hw | hw
      · exact absurd hf'.2.1 (Nat.not_le_of_lt hw)
      · exact absurd hf'.2.2.1 (Nat.not_le_of_lt hw)
    cases (hr.large hf o).symm.trans (read_of_not_fits h hi hp o hno)
  · intro hno
    refine ⟨fun hf o => read_of_fits h hi hp o ?_, fun hf o => ⟨_, read_of_not_fits h hi hp o ?_⟩⟩
    · refine ⟨hf.1, not_lt.mp fun hw => hno ⟨hf, .inl hw⟩, not_lt.mp fun hw => hno ⟨hf, .inr hw⟩,
        hf.2.2.2⟩
    · exact fun hf' => hf ⟨hf'.1, hf'.2.1.trans hv, hf'.2.2.1.trans hs, hf'.2.2.2⟩

/-- An extend with a version of three bytes. -/
def versionedExtend : ExtendArgs where
  index := 3
  signerId := List.replicate 32 0xa5
  version := [49, 46, 48]
  measurementAlgo := 0x02000009
  swType := some [83, 80, 77]
  swTypeSize := 3
  measurementValue := List.replicate 32 0x5a
  lockMeasurement := false

/-- Buffers of the longest lengths. -/
theorem readMeasurement_roundTrips_longest :
    RoundTrips (clientExtends .sha256 (fun _ => .ok sha256OfZeros) [versionedExtend]
      initialiseAllMeasurements) 3 signerIdMaxSize versionMaxSize swTypeMaxSize
        measurementValueMaxSize :=
  (@readMeasurement_roundTrips_iff packedBootStatus .sha256 (fun _ => .ok sha256OfZeros) _ .initial
    [versionedExtend] 3 signerIdMaxSize versionMaxSize swTypeMaxSize measurementValueMaxSize
    (by decide) (by decide +kernel)).mpr fun h => absurd h.2 (by decide +kernel)

/-- A buffer of 256 bytes for the version looks empty. -/
theorem not_readMeasurement_roundTrips : ¬ ∀ b alg hashCompute start,
    Started b alg hashCompute start →
      ∀ as index signerIdSize versionSize swTypeSize measurementValueSize,
      index < numOfMeasurementSlots →
      (clientExtends alg hashCompute as start index).isPopulated = true →
        RoundTrips (clientExtends alg hashCompute as start) index signerIdSize versionSize
          swTypeSize measurementValueSize := by
  intro h
  have hr := h packedBootStatus .sha256 (fun _ => .ok sha256OfZeros) _ .initial [versionedExtend] 3
    signerIdMaxSize 256 swTypeMaxSize measurementValueMaxSize (by decide) (by decide +kernel)
  have hread := hr.large (by unfold LengthsFit; decide +kernel)
    ⟨[], 0, [], 0, 0, [], 0, [], 0, false⟩
  exact absurd (congrArg Prod.fst hread) (by decide +kernel)

end MeasuredBoot.Service
