import Mathlib.Data.List.Chain
import Mathlib.Data.List.Sublists
import TfmExtras.MeasuredBoot.Slots

/-! The encoded boot state that the delegated attestation key is derived from:
`get_platform_boot_state` of `delegated_attest.c`. -/

namespace DelegatedAttest
open MeasuredBoot

/-! ## Encoder items -/

/-- The labels `IAT_SW_COMPONENT_*`. -/
inductive SwComponent
  | signerId | version | measurementType | measurementDesc | measurementValue
deriving DecidableEq, Repr

/-- What a caller adds to an encoding context. -/
inductive CborItem
  | openArray | closeArray | openMap | closeMap
  | bytesToMapN (label : SwComponent) (bytes : List UInt8)
  | textToMapN (label : SwComponent) (text : List UInt8)
deriving DecidableEq, Repr

def psaAlgSha256 : Nat := 0x02000009
def psaAlgSha384 : Nat := 0x0200000a
def psaAlgSha512 : Nat := 0x0200000b

def asciiText (text : String) : List UInt8 := text.toList.map fun ch => UInt8.ofNat ch.toNat

def getFirmwareMeasurementDescription (algorithm : Nat) : Except Error (List UInt8) :=
  if algorithm = psaAlgSha256 then .ok (asciiText "sha-256")
  else if algorithm = psaAlgSha384 then .ok (asciiText "sha-384")
  else if algorithm = psaAlgSha512 then .ok (asciiText "sha-512")
  else .error .notSupported

def encodeFirmwareMeasurement (signerId swVersion swType measurementDesc measurement : List UInt8) :
    List CborItem :=
  [.openMap, .bytesToMapN .signerId signerId, .textToMapN .version swVersion,
    .textToMapN .measurementType swType, .textToMapN .measurementDesc measurementDesc,
    .bytesToMapN .measurementValue measurement, .closeMap]

/-! ## The function -/

/-- `q_useful_buf`: the memory behind a pointer and a length. -/
structure UsefulBuf where
  mem : List UInt8
  len : Nat
deriving DecidableEq, Repr

namespace UsefulBuf

def makeStackUb (size : Nat) : UsefulBuf := ⟨List.replicate size 0, size⟩

/-- The bytes an encoder takes from the buffer. -/
def bytes (buf : UsefulBuf) : List UInt8 := buf.mem.take buf.len

/-- The buffer after a callee has copied `bytes` to it and updated its length. -/
def fill (buf : UsefulBuf) (bytes : List UInt8) : UsefulBuf :=
  ⟨bytes ++ buf.mem.drop bytes.length, bytes.length⟩

@[simp] theorem bytes_fill (buf : UsefulBuf) (bytes : List UInt8) :
    (buf.fill bytes).bytes = bytes := by
  unfold UsefulBuf.bytes fill
  exact List.take_left

@[simp] theorem len_fill (buf : UsefulBuf) (bytes : List UInt8) :
    (buf.fill bytes).len = bytes.length := rfl

end UsefulBuf

/-- The local buffers of `get_platform_boot_state`. -/
structure BootStateBufs where
  measurementBuf : UsefulBuf
  signerIdBuf : UsefulBuf
  swVersionBuf : UsefulBuf
  swTypeBuf : UsefulBuf

def BootStateBufs.init : BootStateBufs :=
  ⟨.makeStackUb measurementValueMaxSize, .makeStackUb signerIdMaxSize,
    .makeStackUb versionMaxSize, .makeStackUb swTypeMaxSize⟩

def BootStateBufs.fill (bufs : BootStateBufs) (m : Measurement) : BootStateBufs :=
  ⟨bufs.measurementBuf.fill m.hashBuf, bufs.signerIdBuf.fill m.signerId,
    bufs.swVersionBuf.fill m.version, bufs.swTypeBuf.fill m.swType⟩

/-- The loop from slot `slotIndex` on, for `n` slots: the count and the items added. -/
def bootStateLoop (slots : MeasurementSlots) :
    Nat → Nat → BootStateBufs → Nat → List CborItem → Except Error (Nat × List CborItem)
  | 0, _, _, measurementCnt, items => .ok (measurementCnt, items)
  | n + 1, slotIndex, bufs, measurementCnt, items =>
    match tfmMeasuredBootReadMeasurement slots slotIndex bufs.signerIdBuf.len
        bufs.swVersionBuf.len bufs.swTypeBuf.len bufs.measurementBuf.len with
    | .error _ => bootStateLoop slots n (slotIndex + 1) bufs measurementCnt items
    | .ok reading =>
      let bufs := bufs.fill reading.measurement
      let measurementCnt := measurementCnt + 1
      let items := if measurementCnt = 1 then items ++ [.openArray] else items
      match getFirmwareMeasurementDescription reading.measurement.measurementAlgo with
      | .error _ => .error .genericError
      | .ok measurementDesc =>
        bootStateLoop slots n (slotIndex + 1) bufs measurementCnt
          (items ++ encodeFirmwareMeasurement bufs.signerIdBuf.bytes bufs.swVersionBuf.bytes
            bufs.swTypeBuf.bytes measurementDesc bufs.measurementBuf.bytes)

/-- The items encoded, in order, and the length returned. The encoder is a parameter:
`encodedLen` is the number of bytes it takes for a list of items. -/
def getPlatformBootState (encodedLen : List CborItem → Nat) (slots : MeasurementSlots)
    (bootStateLen : Nat) : Except Error (List CborItem × Nat) :=
  if bootStateLen = 0 then .error .invalidArgument
  else match bootStateLoop slots numOfMeasurementSlots 0 .init 0 [] with
    | .error e => .error e
    | .ok (measurementCnt, items) =>
      let items := if measurementCnt ≠ 0 then items ++ [.closeArray] else items
      if encodedLen items > bootStateLen then .error .bufferTooSmall
      else .ok (items, encodedLen items)

/-! ## A reader with shrinking room -/

section Kept
variable {α κ : Type} (r : κ → κ → Prop) [DecidableRel r] (key : α → κ)

/-- The entries accepted one after the other, each leaving its own key as the next room. -/
def kept : κ → List α → List α
  | _, [] => []
  | room, a :: as => if r room (key a) then a :: kept (key a) as else kept room as

theorem kept_sublist (room : κ) (as : List α) : (kept r key room as).Sublist as := by
  induction as generalizing room with
  | nil => exact List.Sublist.slnil
  | cons a as ih =>
    unfold kept
    split_ifs
    · exact (ih _).cons_cons a
    · exact (ih _).cons a

theorem kept_eq_self_iff (room : κ) (as : List α) :
    kept r key room as = as ↔ List.IsChain r (room :: as.map key) := by
  induction as generalizing room with
  | nil => simp [kept]
  | cons a as ih =>
    rw [kept, List.map_cons, List.isChain_cons_cons, ← ih]
    split_ifs with h
    · simp [h]
    · have hlt : (kept r key room as).length < (a :: as).length :=
        Nat.lt_succ_of_le (kept_sublist r key room as).length_le
      have hne : kept r key room as ≠ a :: as := fun he => absurd (he ▸ hlt) (lt_irrefl _)
      simp [h, hne]

end Kept

/-! ## What the loop encodes -/

/-- The four lengths of a measurement that a buffer has to hold. -/
structure Lengths where
  signerId : Nat
  version : Nat
  swType : Nat
  measurementValue : Nat
deriving DecidableEq, Repr

def Lengths.Fits (room len : Lengths) : Prop :=
  len.signerId ≤ room.signerId ∧ len.version ≤ room.version ∧ len.swType ≤ room.swType ∧
    len.measurementValue ≤ room.measurementValue

instance : DecidableRel Lengths.Fits := fun room len => by
  unfold Lengths.Fits
  infer_instance

def lengths (m : Measurement) : Lengths :=
  ⟨m.signerId.length, m.version.length, m.swType.length, m.hashBuf.length⟩

def BootStateBufs.room (bufs : BootStateBufs) : Lengths :=
  ⟨bufs.signerIdBuf.len, bufs.swVersionBuf.len, bufs.swTypeBuf.len, bufs.measurementBuf.len⟩

@[simp] theorem room_fill (bufs : BootStateBufs) (m : Measurement) :
    (bufs.fill m).room = lengths m := rfl

/-- The measurements of the populated slots from `slotIndex` on, in slot order. -/
def populatedFrom (slots : MeasurementSlots) : Nat → Nat → List Measurement
  | 0, _ => []
  | n + 1, slotIndex =>
    if (slots.slot slotIndex).isPopulated then
      (slots.slot slotIndex).measurement :: populatedFrom slots n (slotIndex + 1)
    else populatedFrom slots n (slotIndex + 1)

def populatedSlots (slots : MeasurementSlots) : List Measurement :=
  populatedFrom slots numOfMeasurementSlots 0

def algorithmSupported (m : Measurement) : Prop :=
  m.measurementAlgo = psaAlgSha256 ∨ m.measurementAlgo = psaAlgSha384 ∨
    m.measurementAlgo = psaAlgSha512

/-- The entry of a measurement: its own data and the name of its algorithm. -/
def bootStateEntry (m : Measurement) : List CborItem :=
  encodeFirmwareMeasurement m.signerId m.version m.swType
    (if m.measurementAlgo = psaAlgSha256 then asciiText "sha-256"
      else if m.measurementAlgo = psaAlgSha384 then asciiText "sha-384" else asciiText "sha-512")
    m.hashBuf

/-- An array with one entry per measurement; nothing when there is no measurement. -/
def bootStateArray (ms : List Measurement) : List CborItem :=
  if ms = [] then [] else .openArray :: (ms.flatMap bootStateEntry ++ [.closeArray])

theorem description_eq {m : Measurement} (h : algorithmSupported m) :
    ∃ desc, getFirmwareMeasurementDescription m.measurementAlgo = .ok desc ∧
      encodeFirmwareMeasurement m.signerId m.version m.swType desc m.hashBuf =
        bootStateEntry m := by
  unfold bootStateEntry getFirmwareMeasurementDescription
  rcases h with h | h | h <;> rw [h]
  · exact ⟨asciiText "sha-256", rfl, rfl⟩
  · exact ⟨asciiText "sha-384", rfl, rfl⟩
  · exact ⟨asciiText "sha-512", rfl, rfl⟩

/-- A slot is read exactly when it is populated and its lengths fit the room left. -/
theorem read_eq (slots : MeasurementSlots) {index : Nat} (hi : index < numOfMeasurementSlots)
    (bufs : BootStateBufs) (hv : bufs.swVersionBuf.len < 2 ^ 8)
    (ht : bufs.swTypeBuf.len < 2 ^ 8) :
    tfmMeasuredBootReadMeasurement slots index bufs.signerIdBuf.len bufs.swVersionBuf.len
        bufs.swTypeBuf.len bufs.measurementBuf.len =
      if (slots.slot index).isPopulated then
        if bufs.room.Fits (lengths (slots.slot index).measurement) then
          .ok ⟨(slots.slot index).measurement, (slots.slot index).isLocked⟩
        else .error .invalidArgument
      else .error .doesNotExist := by
  have hi' : index < 32 := hi
  have h8 : index % 2 ^ 8 = index := Nat.mod_eq_of_lt (by omega)
  rw [tfmMeasuredBootReadMeasurement, h8, Nat.mod_eq_of_lt hv, Nat.mod_eq_of_lt ht,
    readMeasurements, if_neg (Nat.not_le.mpr hi), measuredBootReadMeasurement,
    if_neg (show ¬ isReadAccessProhibited index = true from Bool.false_ne_true)]
  by_cases hp : (slots.slot index).isPopulated = true
  · simp only [hp, if_true]
    by_cases hf : bufs.room.Fits (lengths (slots.slot index).measurement)
    · rw [if_pos hf, if_neg]
      obtain ⟨h₁, h₂, h₃, h₄⟩ := hf
      simp only [not_or, Nat.not_lt]
      exact ⟨h₂, h₃, h₁, h₄⟩
    · rw [if_neg hf, if_pos]
      by_contra hn
      simp only [not_or, Nat.not_lt] at hn
      exact hf ⟨hn.2.2.1, hn.1, hn.2.1, hn.2.2.2⟩
  · rw [if_neg hp, if_neg hp]

/-- What the loop adds for a list of measurements after `cnt` earlier ones. -/
def loopItems (cnt : Nat) (ms : List Measurement) : List CborItem :=
  (if cnt = 0 ∧ ms ≠ [] then [.openArray] else []) ++ ms.flatMap bootStateEntry

theorem loopItems_cons (cnt : Nat) (m : Measurement) (ms : List Measurement) :
    loopItems cnt (m :: ms) =
      (if cnt + 1 = 1 then [.openArray] else []) ++ (bootStateEntry m ++ loopItems (cnt + 1) ms) := by
  by_cases hc : cnt = 0 <;> simp [loopItems, hc]

/-- The loop adds the entries of the measurements that fit, and counts them. -/
theorem bootStateLoop_eq (slots : MeasurementSlots) (n slotIndex : Nat) (bufs : BootStateBufs)
    (cnt : Nat) (items : List CborItem) (hn : slotIndex + n ≤ numOfMeasurementSlots)
    (hv : bufs.swVersionBuf.len < 2 ^ 8) (ht : bufs.swTypeBuf.len < 2 ^ 8)
    (halg : ∀ m ∈ populatedFrom slots n slotIndex, algorithmSupported m) :
    bootStateLoop slots n slotIndex bufs cnt items =
      .ok (cnt + (kept Lengths.Fits lengths bufs.room (populatedFrom slots n slotIndex)).length,
        items ++ loopItems cnt
          (kept Lengths.Fits lengths bufs.room (populatedFrom slots n slotIndex))) := by
  induction n generalizing slotIndex bufs cnt items with
  | zero => simp [bootStateLoop, populatedFrom, kept, loopItems]
  | succ n ih =>
    rw [bootStateLoop, read_eq slots (by omega) bufs hv ht]
    by_cases hp : (slots.slot slotIndex).isPopulated = true
    · simp only [populatedFrom, hp, if_true, List.mem_cons, forall_eq_or_imp] at halg ⊢
      rw [kept]
      by_cases hf : bufs.room.Fits (lengths (slots.slot slotIndex).measurement)
      · obtain ⟨desc, hd, hentry⟩ := description_eq halg.1
        have hs := slots.sizes slotIndex hp
        have hvs : (slots.slot slotIndex).measurement.version.length < 2 ^ 8 :=
          hs.version_le.trans_lt (by decide)
        have hts : (slots.slot slotIndex).measurement.swType.length < 2 ^ 8 :=
          hs.swType_le.trans_lt (by decide)
        have hrest := ih (slotIndex + 1) (bufs.fill (slots.slot slotIndex).measurement) (cnt + 1)
          ((if cnt + 1 = 1 then items ++ [.openArray] else items) ++
            bootStateEntry (slots.slot slotIndex).measurement) (by omega) hvs hts halg.2
        rw [room_fill] at hrest
        simp only [if_pos hf, hd, BootStateBufs.fill, UsefulBuf.bytes_fill, hentry]
        refine hrest.trans ?_
        rw [List.length_cons, loopItems_cons, Nat.add_right_comm, Nat.add_assoc]
        split_ifs <;> simp
      · simp only [if_neg hf]
        exact ih (slotIndex + 1) bufs cnt items (by omega) hv ht halg.2
    · simp only [populatedFrom, hp] at halg ⊢
      exact ih (slotIndex + 1) bufs cnt items (by omega) hv ht halg

theorem bootStateEntry_length (m : Measurement) : (bootStateEntry m).length = 7 := rfl

theorem bootStateArray_length (ms : List Measurement) :
    (bootStateArray ms).length = if ms = [] then 0 else 7 * ms.length + 2 := by
  have hlen : (ms.flatMap bootStateEntry).length = 7 * ms.length := by
    induction ms with
    | nil => rfl
    | cons m ms ih =>
      rw [List.flatMap_cons, List.length_append, bootStateEntry_length, ih, List.length_cons]
      omega
  unfold bootStateArray
  split_ifs
  · rfl
  · simp [hlen]

/-- An array that lacks an entry differs from the whole array. -/
theorem eq_of_sublist_of_bootStateArray_eq {ms ms' : List Measurement} (h : ms.Sublist ms')
    (he : bootStateArray ms = bootStateArray ms') : ms = ms' := by
  have hcard := congrArg List.length he
  rw [bootStateArray_length, bootStateArray_length] at hcard
  apply h.eq_of_length
  by_cases h₁ : ms = [] <;> by_cases h₂ : ms' = []
  · rw [h₁, h₂]
  all_goals
    simp only [h₁, h₂, if_true, if_false] at hcard
    omega

/-- The items handed to the encoder are those of the measurements that fitted. -/
theorem getPlatformBootState_eq (encodedLen : List CborItem → Nat) (slots : MeasurementSlots)
    {bootStateLen : Nat} (hlen : bootStateLen ≠ 0)
    (halg : ∀ m ∈ populatedSlots slots, algorithmSupported m) :
    getPlatformBootState encodedLen slots bootStateLen =
      let items := bootStateArray
        (kept Lengths.Fits lengths BootStateBufs.init.room (populatedSlots slots))
      if encodedLen items > bootStateLen then .error .bufferTooSmall
      else .ok (items, encodedLen items) := by
  have hloop := bootStateLoop_eq slots numOfMeasurementSlots 0 .init 0 [] (by simp)
    (by decide) (by decide) halg
  rw [getPlatformBootState, if_neg hlen, hloop]
  rw [← populatedSlots, List.nil_append, Nat.zero_add]
  generalize kept Lengths.Fits lengths BootStateBufs.init.room (populatedSlots slots) = ms
  have hitems : (if ms.length ≠ 0 then loopItems 0 ms ++ [.closeArray] else loopItems 0 ms) =
      bootStateArray ms := by
    cases ms with
    | nil => rfl
    | cons m ms => simp [loopItems, bootStateArray]
  simp only [hitems]

theorem mem_populatedFrom {slots : MeasurementSlots} {n slotIndex : Nat} {m : Measurement}
    (h : m ∈ populatedFrom slots n slotIndex) : m.SizesAccepted := by
  induction n generalizing slotIndex with
  | zero => exact absurd h List.not_mem_nil
  | succ n ih =>
    unfold populatedFrom at h
    split_ifs at h with hp
    · rcases List.mem_cons.mp h with rfl | h
      · exact slots.sizes slotIndex hp
      · exact ih h
    · exact ih h

/-- The first populated slot always fits the buffers as they are declared. -/
theorem isChain_init_iff (slots : MeasurementSlots) :
    List.IsChain Lengths.Fits (BootStateBufs.init.room :: (populatedSlots slots).map lengths) ↔
      List.IsChain Lengths.Fits ((populatedSlots slots).map lengths) := by
  have hmem : ∀ m ∈ populatedSlots slots, m.SizesAccepted := fun m hm => mem_populatedFrom hm
  cases hms : populatedSlots slots with
  | nil => simp
  | cons m ms =>
    have hs := hmem m (hms ▸ List.mem_cons_self)
    rw [List.map_cons, List.isChain_cons_cons]
    exact and_iff_right ⟨hs.signerId_le, hs.version_le, hs.swType_le, hs.hashBuf_le⟩

/-- The boot state holds every populated slot exactly when no length grows from a populated
slot to the next one. -/
theorem getPlatformBootState_complete_iff (encodedLen : List CborItem → Nat)
    (slots : MeasurementSlots) (bootStateLen : Nat) (hlen : 0 < bootStateLen)
    (hroom : encodedLen (bootStateArray (populatedSlots slots)) ≤ bootStateLen)
    (halg : ∀ m ∈ populatedSlots slots, algorithmSupported m) :
    (∃ len, getPlatformBootState encodedLen slots bootStateLen =
        .ok (bootStateArray (populatedSlots slots), len)) ↔
      List.IsChain Lengths.Fits ((populatedSlots slots).map lengths) := by
  rw [← isChain_init_iff, ← kept_eq_self_iff, getPlatformBootState_eq encodedLen slots hlen.ne' halg]
  have hsub := kept_sublist Lengths.Fits lengths BootStateBufs.init.room (populatedSlots slots)
  constructor
  · rintro ⟨len, h⟩
    simp only at h
    split_ifs at h
    injection h with h
    exact eq_of_sublist_of_bootStateArray_eq hsub (congrArg Prod.fst h)
  · intro h
    rw [h]
    exact ⟨_, if_neg (Nat.not_lt.mpr hroom)⟩

/-! ## Two populated slots -/

def twoSlots (m m' : Measurement) (h : m.SizesAccepted) (h' : m'.SizesAccepted) :
    MeasurementSlots where
  slot index :=
    if index = 0 then ⟨false, true, false, m⟩
    else if index = 1 then ⟨false, true, false, m'⟩
    else ⟨false, false, false, ⟨[], [], [], 0, []⟩⟩
  sizes index hp := by
    split_ifs at hp ⊢
    · exact h
    · exact h'

/-- A component of version `1.9.9` measured with SHA-256. -/
def componentShort : Measurement :=
  ⟨List.replicate 32 1, List.replicate 32 7, asciiText "1.9.9", psaAlgSha256, asciiText "BL2"⟩

/-- The same component in version `1.10.0`. -/
def componentLong : Measurement := { componentShort with version := asciiText "1.10.0" }

theorem componentShort_accepted : componentShort.SizesAccepted := by
  constructor <;> decide

theorem componentLong_accepted : componentLong.SizesAccepted := by
  constructor <;> decide

def growingSlots : MeasurementSlots :=
  twoSlots componentShort componentLong componentShort_accepted componentLong_accepted

def shrinkingSlots : MeasurementSlots :=
  twoSlots componentLong componentShort componentLong_accepted componentShort_accepted

/-- The second of two slots is lost when its version text is one character longer. -/
theorem getPlatformBootState_drops_slot :
    populatedSlots growingSlots = [componentShort, componentLong] ∧
      getPlatformBootState List.length growingSlots 1024 =
        .ok (bootStateArray [componentShort], 9) ∧
      ¬ ∃ len, getPlatformBootState List.length growingSlots 1024 =
        .ok (bootStateArray (populatedSlots growingSlots), len) := by
  have hp : populatedSlots growingSlots = [componentShort, componentLong] := by decide +kernel
  have hr : getPlatformBootState List.length growingSlots 1024 =
      .ok (bootStateArray [componentShort], 9) := by decide +kernel
  refine ⟨hp, hr, ?_⟩
  rintro ⟨len, h⟩
  rw [hr, hp] at h
  injection h with h
  have he : bootStateArray [componentShort] = bootStateArray [componentShort, componentLong] :=
    congrArg Prod.fst h
  exact absurd he (by decide +kernel)

theorem getPlatformBootState_keeps_both_slots :
    (∃ len, getPlatformBootState List.length shrinkingSlots 1024 =
        .ok (bootStateArray (populatedSlots shrinkingSlots), len)) ↔
      List.IsChain Lengths.Fits ((populatedSlots shrinkingSlots).map lengths) :=
  getPlatformBootState_complete_iff List.length shrinkingSlots 1024 (by decide)
    (by decide +kernel) (by
      have hp : populatedSlots shrinkingSlots = [componentLong, componentShort] := by
        decide +kernel
      rw [hp]
      intro m hm
      rcases List.mem_pair.mp hm with rfl | rfl <;> exact .inl rfl)

end DelegatedAttest
