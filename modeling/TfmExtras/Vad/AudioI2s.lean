import Mathlib.Data.List.Induction
import Mathlib.Order.Basic

/-! The registers of the I2S device, as `audio_i2s_mps3_drv.c` changes them. -/

namespace Vad.AudioI2s

/-- `struct audio_i2s_mps3_reg_map_t`, as far as the driver accesses it. -/
structure RegMap where
  control : BitVec 32
  status : BitVec 32
  error : BitVec 32
  divide : BitVec 32
  txbuf : BitVec 32
  rxbuf : BitVec 32

def controlTxEnOff : Nat := 0
def controlTxIntrenOff : Nat := 1
def controlRxEnOff : Nat := 2
def controlRxIntrenOff : Nat := 3
def controlTxBuffIrqWaterLvlOff : Nat := 8
def controlRxBuffIrqWaterLvlOff : Nat := 12
def controlFifoResetOff : Nat := 16
def controlCodecResetOff : Nat := 17

def statusTxbufEmptyOff : Nat := 2
def statusTxbufFullOff : Nat := 3
def statusRxbufEmptyOff : Nat := 4
def statusRxbufFullOff : Nat := 5

def lrdivMaxValue : Nat := 0x3FF

/-! ## The functions -/

def setControlBit (off : Nat) (r : RegMap) : RegMap :=
  { r with control := r.control ||| 1#32 <<< off }

def clearControlBit (off : Nat) (r : RegMap) : RegMap :=
  { r with control := r.control &&& ~~~(1#32 <<< off) }

def audioI2sMps3SetCodecReset : RegMap → RegMap := setControlBit controlCodecResetOff
def audioI2sMps3SetFifoReset : RegMap → RegMap := setControlBit controlFifoResetOff
def audioI2sMps3ClearCodecReset : RegMap → RegMap := clearControlBit controlCodecResetOff
def audioI2sMps3ClearFifoReset : RegMap → RegMap := clearControlBit controlFifoResetOff
def audioI2sMps3EnableRxbuf : RegMap → RegMap := setControlBit controlRxEnOff
def audioI2sMps3EnableRxinterrupt : RegMap → RegMap := setControlBit controlRxIntrenOff
def audioI2sMps3EnableTxbuf : RegMap → RegMap := setControlBit controlTxEnOff
def audioI2sMps3EnableTxinterrupt : RegMap → RegMap := setControlBit controlTxIntrenOff
def audioI2sMps3DisableRxbuf : RegMap → RegMap := clearControlBit controlRxEnOff
def audioI2sMps3DisableRxinterrupt : RegMap → RegMap := clearControlBit controlRxIntrenOff
def audioI2sMps3DisableTxbuf : RegMap → RegMap := clearControlBit controlTxEnOff
def audioI2sMps3DisableTxinterrupt : RegMap → RegMap := clearControlBit controlTxIntrenOff

def setWaterLvl (off : Nat) (level : BitVec 8) (r : RegMap) : RegMap :=
  { r with control := r.control &&& ~~~(0x7#32 <<< off) ||| (level.setWidth 32 &&& 0x7#32) <<< off }

def getWaterLvl (off : Nat) (r : RegMap) : BitVec 8 := (r.control >>> off &&& 0x7).setWidth 8

def audioI2sMps3SetTxBuffWaterLvl : BitVec 8 → RegMap → RegMap :=
  setWaterLvl controlTxBuffIrqWaterLvlOff
def audioI2sMps3SetRxBuffWaterLvl : BitVec 8 → RegMap → RegMap :=
  setWaterLvl controlRxBuffIrqWaterLvlOff
def audioI2sMps3GetTxBuffWaterLvl : RegMap → BitVec 8 := getWaterLvl controlTxBuffIrqWaterLvlOff
def audioI2sMps3GetRxBuffWaterLvl : RegMap → BitVec 8 := getWaterLvl controlRxBuffIrqWaterLvlOff

/-- Nothing when the divider is refused. -/
def audioI2sMps3SpeedConfig (lrdiv : BitVec 16) (r : RegMap) : Option RegMap :=
  if lrdiv.toNat > lrdivMaxValue then none else some { r with divide := lrdiv.setWidth 32 }

def statusBit (off : Nat) (r : RegMap) : Bool := r.status >>> off &&& 0x1 != 0

def audioI2sMps3IsRxBufferEmpty : RegMap → Bool := statusBit statusRxbufEmptyOff
def audioI2sMps3IsRxBufferFull : RegMap → Bool := statusBit statusRxbufFullOff
def audioI2sMps3IsTxBufferEmpty : RegMap → Bool := statusBit statusTxbufEmptyOff
def audioI2sMps3IsTxBufferFull : RegMap → Bool := statusBit statusTxbufFullOff

def audioI2sMps3SetTxbuf (leftChannel rightChannel : BitVec 16) (r : RegMap) : RegMap :=
  { r with txbuf := leftChannel.setWidth 32 <<< 16 + rightChannel.setWidth 32 }

/-- `struct audio_i2s_mps3_sample_t`. -/
structure Sample where
  leftChannel : BitVec 16
  rightChannel : BitVec 16

def readSample (r : RegMap) : Sample :=
  ⟨(r.rxbuf >>> 16).setWidth 16, (r.rxbuf &&& 0xFFFF).setWidth 16⟩

def writeSample (sample : Sample) (r : RegMap) : RegMap :=
  audioI2sMps3SetTxbuf sample.leftChannel sample.rightChannel r

/-! ## Runs of calls -/

/-- The calls that change the control register. -/
inductive Call
  | setCodecReset | setFifoReset | clearCodecReset | clearFifoReset
  | enableRxbuf | enableRxinterrupt | enableTxbuf | enableTxinterrupt
  | disableRxbuf | disableRxinterrupt | disableTxbuf | disableTxinterrupt
  | setTxBuffWaterLvl (level : BitVec 8)
  | setRxBuffWaterLvl (level : BitVec 8)

namespace Call

def exec : Call → RegMap → RegMap
  | setCodecReset => audioI2sMps3SetCodecReset
  | setFifoReset => audioI2sMps3SetFifoReset
  | clearCodecReset => audioI2sMps3ClearCodecReset
  | clearFifoReset => audioI2sMps3ClearFifoReset
  | enableRxbuf => audioI2sMps3EnableRxbuf
  | enableRxinterrupt => audioI2sMps3EnableRxinterrupt
  | enableTxbuf => audioI2sMps3EnableTxbuf
  | enableTxinterrupt => audioI2sMps3EnableTxinterrupt
  | disableRxbuf => audioI2sMps3DisableRxbuf
  | disableRxinterrupt => audioI2sMps3DisableRxinterrupt
  | disableTxbuf => audioI2sMps3DisableTxbuf
  | disableTxinterrupt => audioI2sMps3DisableTxinterrupt
  | setTxBuffWaterLvl level => audioI2sMps3SetTxBuffWaterLvl level
  | setRxBuffWaterLvl level => audioI2sMps3SetRxBuffWaterLvl level

/-- Where the field of a call begins, how many bits it has, and what they become. -/
def field : Call → Nat × Nat × BitVec 8
  | setCodecReset => (controlCodecResetOff, 1, 1)
  | setFifoReset => (controlFifoResetOff, 1, 1)
  | clearCodecReset => (controlCodecResetOff, 1, 0)
  | clearFifoReset => (controlFifoResetOff, 1, 0)
  | enableRxbuf => (controlRxEnOff, 1, 1)
  | enableRxinterrupt => (controlRxIntrenOff, 1, 1)
  | enableTxbuf => (controlTxEnOff, 1, 1)
  | enableTxinterrupt => (controlTxIntrenOff, 1, 1)
  | disableRxbuf => (controlRxEnOff, 1, 0)
  | disableRxinterrupt => (controlRxIntrenOff, 1, 0)
  | disableTxbuf => (controlTxEnOff, 1, 0)
  | disableTxinterrupt => (controlTxIntrenOff, 1, 0)
  | setTxBuffWaterLvl level => (controlTxBuffIrqWaterLvlOff, 3, level)
  | setRxBuffWaterLvl level => (controlRxBuffIrqWaterLvlOff, 3, level)

/-- Bit `k` of the control register belongs to the field of the call. -/
def Owns (c : Call) (k : Nat) : Prop := c.field.1 ≤ k ∧ k < c.field.1 + c.field.2.1

instance (c : Call) (k : Nat) : Decidable (c.Owns k) :=
  inferInstanceAs (Decidable (_ ∧ _))

/-- What that bit becomes. -/
def bit (c : Call) (k : Nat) : Bool := c.field.2.2.getLsbD (k - c.field.1)

end Call

section
variable {r : RegMap} {off k : Nat} (hk : k < 32)
include hk

theorem setControlBit_bit : (setControlBit off r).control.getLsbD k =
    if off ≤ k ∧ k < off + 1 then (1#8).getLsbD (k - off) else r.control.getLsbD k := by
  unfold setControlBit
  simp only [BitVec.getLsbD_or, BitVec.getLsbD_shiftLeft, BitVec.getLsbD_one, hk]
  split_ifs with h
  · simp [show k - off = 0 by omega, show ¬ k < off by omega]
  · by_cases hlt : k < off
    · simp [hlt]
    · simp [hlt, show ¬ k - off = 0 by omega]

theorem clearControlBit_bit : (clearControlBit off r).control.getLsbD k =
    if off ≤ k ∧ k < off + 1 then (0#8).getLsbD (k - off) else r.control.getLsbD k := by
  unfold clearControlBit
  simp only [BitVec.getLsbD_and, BitVec.getLsbD_not, BitVec.getLsbD_shiftLeft, BitVec.getLsbD_one, hk]
  split_ifs with h
  · simp [show k - off = 0 by omega, show ¬ k < off by omega]
  · by_cases hlt : k < off
    · simp [hlt]
    · simp [hlt, show ¬ k - off = 0 by omega]

theorem setWaterLvl_bit (level : BitVec 8) : (setWaterLvl off level r).control.getLsbD k =
    if off ≤ k ∧ k < off + 3 then level.getLsbD (k - off) else r.control.getLsbD k := by
  have h7 : ∀ j < 32, (0x7#32).getLsbD j = decide (j < 3) := by decide
  unfold setWaterLvl
  simp only [BitVec.getLsbD_and, BitVec.getLsbD_or, BitVec.getLsbD_not, BitVec.getLsbD_shiftLeft,
    BitVec.getLsbD_setWidth, hk, h7 (k - off) (by omega)]
  split_ifs with h
  · simp [show ¬ k < off by omega, show k - off < 3 by omega, show k - off < 32 by omega]
  · by_cases hlt : k < off
    · simp [hlt]
    · simp [hlt, show ¬ k - off < 3 by omega]

/-- A call writes its field and leaves the other bits. -/
theorem Call.exec_bit (c : Call) : (c.exec r).control.getLsbD k =
    if c.Owns k then c.bit k else r.control.getLsbD k := by
  cases c with
  | setCodecReset | setFifoReset | enableRxbuf | enableRxinterrupt | enableTxbuf
  | enableTxinterrupt => exact setControlBit_bit hk
  | clearCodecReset | clearFifoReset | disableRxbuf | disableRxinterrupt | disableTxbuf
  | disableTxinterrupt => exact clearControlBit_bit hk
  | setTxBuffWaterLvl level | setRxBuffWaterLvl level => exact setWaterLvl_bit hk level

end

def run (calls : List Call) (r : RegMap) : RegMap := calls.foldl (fun r c => c.exec r) r

/-- Every bit of the control register is as the last call says that it belongs to. -/
theorem run_bit {k : Nat} (hk : k < 32) (calls : List Call) (r : RegMap) :
    (run calls r).control.getLsbD k =
      match calls.reverse.find? fun c => c.Owns k with
      | some c => c.bit k
      | none => r.control.getLsbD k := by
  induction calls using List.reverseRecOn with
  | nil => rfl
  | append_singleton calls c ih =>
    have hrun : run (calls ++ [c]) r = c.exec (run calls r) := List.foldl_append ..
    rw [hrun, Call.exec_bit hk, ih, List.reverse_append, List.reverse_singleton,
      List.singleton_append, List.find?_cons]
    by_cases hc : c.Owns k
    · rw [if_pos hc, decide_eq_true hc]
    · rw [if_neg hc, decide_eq_false hc]

end Vad.AudioI2s
