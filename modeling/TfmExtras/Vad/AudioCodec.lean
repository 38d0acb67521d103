import TfmExtras.Vad.AudioI2s
import TfmExtras.Vad.I2cSbcon
import TfmExtras.Vad.Timeout

/-! The registers of the audio codec, which `audio_codec_mps3.c` accesses over the I2C bus. -/

namespace Vad.AudioCodec
open I2c I2cSbcon

/-! ## The driver -/

def chipAddrWrite : UInt16 := 0x96
def chipAddrRead : UInt16 := 0x97

variable {δ : Type} (D : Device δ)

def audioCodecMps3Write (mapByte data : UInt8) (b : Bus δ) : Bus δ :=
  (i2cSbconMasterTransmit D chipAddrWrite [mapByte, data] false b).2.2

/-- `buf` is what the local variable `data` holds before. -/
def audioCodecMps3Read (buf : Nat → UInt8) (mapByte : UInt8) (b : Bus δ) : UInt8 × Bus δ :=
  let b := (i2cSbconMasterTransmit D chipAddrWrite [mapByte] false b).2.2
  let r := i2cSbconMasterReceive D chipAddrRead buf 1 false b
  (r.2.2.1 0, r.2.2.2)

/-! ## The initialisation -/

/-- `WAIT_US_FREQ_HZ`. -/
def waitUsFreqHz : UInt32 := Timeout.defaultFreqHz

/-- `.default_freq_hz` of the I2C device. -/
def defaultFreqHz : UInt32 := 100000

def audioCodecMps3ClkCtrl : UInt8 := 0x05
def audioCodecMps3PwrCtrl1 : UInt8 := 0x02
def audioCodecMps3PwrCtrl2 : UInt8 := 0x03
def audioCodecMps3PwrCtrl3 : UInt8 := 0x04
def audioCodecMps3InputA : UInt8 := 0x08
def audioCodecMps3InputB : UInt8 := 0x09
def audioCodecMps3AmpA : UInt8 := 0x10
def audioCodecMps3AmpB : UInt8 := 0x11
def audioCodecMps3MiscCtrl : UInt8 := 0x0E

/-- What the initialisation works on. -/
structure State (δ : Type) where
  data : DevData
  i2s : AudioI2s.RegMap
  bus : Bus δ

/-- Registers that are written one after the other. -/
def writeAll (ws : List (UInt8 × UInt8)) (b : Bus δ) : Bus δ :=
  ws.foldl (fun b w => audioCodecMps3Write D w.1 w.2 b) b

/-- The steps of the reference manual before register 0x32 is read, and those after. -/
def manualSteps : List (UInt8 × UInt8) := [(0x00, 0x99), (0x3E, 0xBA), (0x47, 0x80)]

def manualSteps32 (reg32 : UInt8) : List (UInt8 × UInt8) :=
  [(0x32, reg32 ||| 0x80), (0x32, reg32 &&& 0x7F), (0x00, 0x00)]

/-- The settings behind them. -/
def settings : List (UInt8 × UInt8) :=
  [(audioCodecMps3ClkCtrl, 0x20), (audioCodecMps3PwrCtrl1, 0x00), (audioCodecMps3PwrCtrl2, 0x00),
    (audioCodecMps3PwrCtrl3, 0xAA), (audioCodecMps3InputA, 0x90), (audioCodecMps3InputB, 0x90),
    (audioCodecMps3AmpA, 0x5F), (audioCodecMps3AmpB, 0x5F), (audioCodecMps3MiscCtrl, 0x04)]

def audioCodecMps3Init (buf : Nat → UInt8) (s : State δ) : State δ :=
  let data := (i2cSbconInit defaultFreqHz waitUsFreqHz s.data).2
  let i2s := AudioI2s.audioI2sMps3SetCodecReset s.i2s
  let i2s := AudioI2s.audioI2sMps3ClearCodecReset i2s
  let b := writeAll D manualSteps s.bus
  let r := audioCodecMps3Read D buf 0x32 b
  let b := writeAll D (manualSteps32 r.1) r.2
  ⟨data, i2s, writeAll D settings b⟩

/-! ## The codec -/

/-- The codec: its registers, the byte that points to one of them, and whether that byte comes
next. -/
structure Codec where
  regs : UInt8 → UInt8
  map : UInt8
  fresh : Bool

/-- The register that a pointer byte names. Its highest bit lets the pointer move on. -/
def regOf (mapByte : UInt8) : UInt8 := mapByte &&& 0x7F

def Codec.advance (c : Codec) : Codec :=
  if c.map &&& 0x80 = 0 then c else { c with map := 0x80 ||| regOf (c.map + 1) }

/-- The codec on the bus: the first byte that is written points to a register, the others are
stored; what is read comes from the register pointed to. -/
def codec : Peripheral Codec where
  select a c :=
    if a = chipAddrWrite.toUInt8 then some { c with fresh := true }
    else if a = chipAddrRead.toUInt8 then some c
    else none
  take v c :=
    if c.fresh then some { c with map := v, fresh := false }
    else some { c with regs := Function.update c.regs (regOf c.map) v }.advance
  give c := (c.regs (regOf c.map), c.advance)

@[simp] theorem Codec.advance_regs (c : Codec) : c.advance.regs = c.regs := by
  unfold Codec.advance
  split_ifs <;> rfl

/-- The codec among other devices: slave `i` behaves like it, and no other one answers to its
addresses. -/
structure OnBus {n : Nat} {ρ : Type} (P : Fin n → Peripheral ρ) (i : Fin n) (f : Codec → ρ) :
    Prop where
  embeds : codec.Embeds f (P i)
  write : ∀ j ≠ i, ∀ s, (P j).select chipAddrWrite.toUInt8 s = none
  read : ∀ j ≠ i, ∀ s, (P j).select chipAddrRead.toUInt8 s = none

variable {n : Nat} {ρ : Type} {P : Fin n → Peripheral ρ} {i : Fin n} {f : Codec → ρ}

/-- Between transfers, the codec has these registers and the other slaves these states. -/
structure Shows (P : Fin n → Peripheral ρ) (i : Fin n) (f : Codec → ρ) (b : Bus (Fin n → Slave ρ))
    (regs : UInt8 → UInt8) (s : Fin n → ρ) : Prop where
  ready : Ready (bank P) b
  codec : ∃ c : Codec, c.regs = regs ∧ (b.dev i).state = f c
  others : ∀ j ≠ i, (b.dev j).state = s j

section
variable (h : OnBus P i f) {b : Bus (Fin n → Slave ρ)} {regs : UInt8 → UInt8} {s : Fin n → ρ}
  (hb : Shows P i f b regs s)
include h hb

theorem OnBus.transmit (data : List UInt8) : ∃ b', ∃ c : Codec, c.regs = regs ∧
    i2cSbconMasterTransmit (bank P) chipAddrWrite data false b = (.none, data.length, b') ∧
      Ready (bank P) b' ∧ (b'.dev i).state = f (codec.taken data { c with fresh := true }).state ∧
      ∀ j ≠ i, (b'.dev j).state = s j := by
  obtain ⟨c, hregs, hc⟩ := hb.codec
  obtain ⟨b', heq, hready, hstates⟩ := i2cSbconMasterTransmit_spec hb.ready chipAddrWrite
    (by decide) data false fun j hj => h.write j hj _
  refine ⟨b', c, hregs, heq, hready, ?_, fun j hj => ?_⟩
  · have hi := congrFun hstates i
    rw [Function.update_self, hc, h.embeds.sentTo_state] at hi
    exact hi
  · exact (congrFun hstates j).trans ((Function.update_of_ne hj _ _).trans (hb.others j hj))

theorem OnBus.write_shows (mapByte data : UInt8) :
    Shows P i f (audioCodecMps3Write (bank P) mapByte data b)
      (Function.update regs (regOf mapByte) data) s := by
  obtain ⟨b', c, rfl, heq, hready, hi, hothers⟩ := h.transmit hb [mapByte, data]
  unfold audioCodecMps3Write
  rw [heq]
  exact ⟨hready, ⟨_, Codec.advance_regs _, hi⟩, hothers⟩

theorem OnBus.read_shows (buf : Nat → UInt8) (mapByte : UInt8) :
    (audioCodecMps3Read (bank P) buf mapByte b).1 = regs (regOf mapByte) ∧
      Shows P i f (audioCodecMps3Read (bank P) buf mapByte b).2 regs s := by
  obtain ⟨b', c, rfl, heq, hready, hi, hothers⟩ := h.transmit hb [mapByte]
  obtain ⟨b'', heq', hready', hstates⟩ := i2cSbconMasterReceive_spec hready chipAddrRead
    (by decide) buf 1 false fun j hj => h.read j hj _
  have hgive := h.embeds.readAt_eq chipAddrRead.toUInt8 1
    (codec.taken [mapByte] { c with fresh := true }).state
  have hchip : (chipAddrRead ||| 1).toUInt8 = chipAddrRead.toUInt8 := by decide
  rw [hchip, hi] at heq' hstates
  unfold audioCodecMps3Read
  rw [heq]
  dsimp only
  rw [heq', max_self, hgive]
  have hi' := congrFun hstates i
  rw [Function.update_self, max_self, hgive] at hi'
  refine ⟨rfl, hready', ⟨_, ?_, hi'⟩, fun j hj => ?_⟩
  · exact Codec.advance_regs { c with map := mapByte, fresh := false }
  · exact (congrFun hstates j).trans ((Function.update_of_ne hj _ _).trans (hothers j hj))

end

/-! ## Runs of accesses -/

inductive Access
  | write (mapByte data : UInt8)
  | read (mapByte : UInt8)

/-- The accesses over the bus, with the bytes that are read. -/
def onBus (D : Device δ) (buf : Nat → UInt8) : List Access → Bus δ → List UInt8 × Bus δ
  | [], b => ([], b)
  | .write mapByte data :: xs, b => onBus D buf xs (audioCodecMps3Write D mapByte data b)
  | .read mapByte :: xs, b =>
    let r := audioCodecMps3Read D buf mapByte b
    let r' := onBus D buf xs r.2
    (r.1 :: r'.1, r'.2)

/-- The accesses to a register file. -/
def onRegs : List Access → (UInt8 → UInt8) → List UInt8 × (UInt8 → UInt8)
  | [], regs => ([], regs)
  | .write mapByte data :: xs, regs => onRegs xs (Function.update regs (regOf mapByte) data)
  | .read mapByte :: xs, regs =>
    let r := onRegs xs regs
    (regs (regOf mapByte) :: r.1, r.2)

/-- Over the bus the registers of the codec are a register file, and the other devices are left
alone. -/
theorem onBus_refines (h : OnBus P i f) (buf : Nat → UInt8) (xs : List Access) :
    ∀ {b : Bus (Fin n → Slave ρ)} {regs : UInt8 → UInt8} {s : Fin n → ρ}, Shows P i f b regs s →
      (onBus (bank P) buf xs b).1 = (onRegs xs regs).1 ∧
        Shows P i f (onBus (bank P) buf xs b).2 (onRegs xs regs).2 s := by
  induction xs with
  | nil => exact fun hb => ⟨rfl, hb⟩
  | cons x xs ih =>
    intro b regs s hb
    cases x with
    | write mapByte data => exact ih (h.write_shows hb mapByte data)
    | read mapByte =>
      obtain ⟨hread, hb'⟩ := h.read_shows hb buf mapByte
      obtain ⟨hrest, hb''⟩ := ih hb'
      exact ⟨congrArg₂ List.cons hread hrest, hb''⟩

/-- The codec alone on the bus. -/
theorem onBus_codec : OnBus (fun _ : Fin 1 => codec) 0 id where
  embeds := ⟨fun _ _ => Option.map_id.symm ▸ rfl, fun _ _ => Option.map_id.symm ▸ rfl, fun _ => rfl⟩
  write j hj := absurd (Subsingleton.elim j 0) hj
  read j hj := absurd (Subsingleton.elim j 0) hj

def idleBus (c : Codec) : Bus (Fin 1 → Slave Codec) := ⟨true, true, fun _ => .idle c⟩

theorem shows_idleBus (c : Codec) : Shows (fun _ => codec) 0 id (idleBus c) c.regs fun _ => c where
  ready := ⟨rfl, rfl⟩
  codec := ⟨c, rfl, rfl⟩
  others _ _ := rfl

theorem onBus_refines_codec :
    let b := idleBus ⟨fun _ => 0, 0, false⟩
    let xs : List Access := [.write 0x05 0x20, .read 0x85, .read 0x32]
    (onBus (bank fun _ => codec) (fun _ => 0) xs b).1 = (onRegs xs fun _ => 0).1 ∧
      Shows (fun _ => codec) 0 id (onBus (bank fun _ => codec) (fun _ => 0) xs b).2
        (onRegs xs fun _ => 0).2 fun _ => ⟨fun _ => 0, 0, false⟩ :=
  onBus_refines onBus_codec _ _ (shows_idleBus _)

/-! ## The registers after the initialisation -/

/-- A register file that is written. -/
def writtenRegs (ws : List (UInt8 × UInt8)) (regs : UInt8 → UInt8) : UInt8 → UInt8 :=
  ws.foldl (fun regs w => Function.update regs (regOf w.1) w.2) regs

theorem OnBus.writeAll_shows (h : OnBus P i f) (ws : List (UInt8 × UInt8)) :
    ∀ {b : Bus (Fin n → Slave ρ)} {regs : UInt8 → UInt8} {s : Fin n → ρ}, Shows P i f b regs s →
      Shows P i f (writeAll (bank P) ws b) (writtenRegs ws regs) s := by
  induction ws with
  | nil => exact fun hb => hb
  | cons w ws ih => exact fun hb => ih (h.write_shows hb w.1 w.2)

/-- The registers that the initialisation leaves. -/
def initialRegs (regs : UInt8 → UInt8) : UInt8 → UInt8 :=
  writtenRegs ((0x3E, 0xBA) :: (0x47, 0x80) :: (0x00, 0x00) :: settings)
    (Function.update regs 0x32 (regs 0x32 &&& 0x7F))

theorem writtenRegs_manual (regs : UInt8 → UInt8) :
    writtenRegs (manualSteps32 (writtenRegs manualSteps regs 0x32)) (writtenRegs manualSteps regs) =
      writtenRegs [(0x3E, 0xBA), (0x47, 0x80), (0x00, 0x00)]
        (Function.update regs 0x32 (regs 0x32 &&& 0x7F)) := by
  have h32 : writtenRegs manualSteps regs 0x32 = regs 0x32 := rfl
  have h00 : regOf 0x00 = 0x00 := rfl
  have h3E : regOf 0x3E = 0x3E := rfl
  have h47 : regOf 0x47 = 0x47 := rfl
  have h32' : regOf 0x32 = 0x32 := rfl
  rw [h32]
  unfold writtenRegs manualSteps manualSteps32
  simp only [List.foldl_cons, List.foldl_nil, h00, h3E, h47, h32']
  funext k
  simp only [Function.update_apply]
  split_ifs <;> simp_all

end Vad.AudioCodec
